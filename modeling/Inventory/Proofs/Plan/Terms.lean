import Inventory.Proofs.Plan.Run

/-!
# Inventory.Proofs.Plan.Terms

One plan followed against two responders.

A plan that keeps to certain terms asks only such requests, and what it does next does not depend on
what is lost when an answer is blurred. Of two responders of which one answers like the other but for
what is lost, it therefore asks the same, and it ends with the same result (`run_of_keepsTo`).
-/

namespace Inventory

namespace Plan

variable {Request : Type} {Reply : Request → Type} {α β γ σ τ : Type}

/-- Terms on which a plan deals with those who answer it. -/
structure Terms (Request : Type) (Reply : Request → Type) where
  /-- The requests that may be asked. -/
  asks : Request → Prop
  /-- The answers that may be given. -/
  hears : (r : Request) → Except Error (Reply r) → Prop
  /-- What is left of an answer. -/
  blur : (r : Request) → Except Error (Reply r) → Except Error (Reply r)

/-- A plan keeps to some terms, and if it gives a result, the result has a property. -/
def KeepsTo (T : Terms Request Reply) (post : α → Prop) : Plan Request Reply α → Prop
  | done (.ok a) => post a
  | done (.error _) => True
  | ask r next =>
    T.asks r ∧ ∀ reply, T.hears r reply → next (T.blur r reply) = next reply ∧
      (next reply).KeepsTo T post
  | note _ next => next.KeepsTo T post

variable {T : Terms Request Reply} {post : α → Prop} {post' : β → Prop}

theorem keepsTo_andThen {p : Plan Request Reply α} {f : Except Error α → Plan Request Reply β}
    (hp : p.KeepsTo T post) (hok : ∀ a, post a → (f (.ok a)).KeepsTo T post')
    (herror : ∀ e, (f (.error e)).KeepsTo T post') : (p.andThen f).KeepsTo T post' := by
  induction p with
  | done result =>
      cases result with
      | ok a => exact hok a hp
      | error e => exact herror e
  | ask r next ih =>
      refine ⟨hp.1, fun reply hreply => ?_⟩
      obtain ⟨hblur, hnext⟩ := hp.2 reply hreply
      exact ⟨congrArg (·.andThen f) hblur, ih reply hnext⟩
  | note a next ih => exact ih hp

theorem keepsTo_bind {p : Plan Request Reply α} {f : α → Plan Request Reply β}
    (hp : p.KeepsTo T post) (hf : ∀ a, post a → (f a).KeepsTo T post') :
    (p >>= f).KeepsTo T post' :=
  keepsTo_andThen hp hf fun _ => trivial

theorem keepsTo_attempt {p : Plan Request Reply α} (hp : p.KeepsTo T post) :
    p.attempt.KeepsTo T fun _ => True :=
  keepsTo_andThen hp (fun _ _ => trivial) fun _ => trivial

theorem KeepsTo.mono {p : Plan Request Reply α} (hp : p.KeepsTo T post) {post₂ : α → Prop}
    (h : ∀ a, post a → post₂ a) : p.KeepsTo T post₂ := by
  rw [← andThen_eq_self p]
  exact keepsTo_andThen hp h fun _ => trivial

/-- A request that is answered in full may be asked on its own. -/
theorem keepsTo_perform {r : Request} (hr : T.asks r)
    (hblur : ∀ reply, T.hears r reply → T.blur r reply = reply) :
    (perform r : Plan Request Reply (Reply r)).KeepsTo T fun _ => True := by
  refine ⟨hr, fun reply hreply => ⟨by rw [hblur reply hreply], ?_⟩⟩
  cases reply <;> trivial

/-- One that is not may be asked if what follows makes nothing of what is lost. -/
theorem keepsTo_perform_andThen {r : Request} (hr : T.asks r)
    {f : Except Error (Reply r) → Plan Request Reply β}
    (hf : ∀ reply, T.hears r reply →
      f (T.blur r reply) = f reply ∧ (f reply).KeepsTo T post') :
    ((perform r).andThen f).KeepsTo T post' := ⟨hr, hf⟩

theorem keepsTo_forEach {l : List β} {step : γ → β → Plan Request Reply γ} {inv : γ → Prop}
    (hstep : ∀ state, ∀ x ∈ l, inv state → (step state x).KeepsTo T inv) {state : γ}
    (hstate : inv state) : (forEach l state step).KeepsTo T inv := by
  induction l generalizing state with
  | nil => exact hstate
  | cons x l ih =>
      exact keepsTo_bind (hstep state x List.mem_cons_self hstate) fun state hstate =>
        ih (fun state y hy => hstep state y (List.mem_cons_of_mem _ hy)) hstate

/-- A plan that keeps to the terms ends with the same result against both of two responders, if the
second answers what is left of the answers of the first. -/
theorem run_of_keepsTo {respond : Responder Request Reply σ} {respond' : Responder Request Reply τ}
    (R : σ → τ → Prop)
    (hstep : ∀ r s t, T.asks r → R s t → T.hears r (respond r s).2 ∧
      (respond' r t).2 = T.blur r (respond r s).2 ∧ R (respond r s).1 (respond' r t).1)
    {p : Plan Request Reply α} (hp : p.KeepsTo T post) {s : σ} {t : τ} (hst : R s t) :
    (p.run respond' t).2 = (p.run respond s).2 ∧ R (p.run respond s).1 (p.run respond' t).1 := by
  induction p generalizing s t with
  | done result => exact ⟨rfl, hst⟩
  | ask r next ih =>
      obtain ⟨hhears, hreply, hR⟩ := hstep r s t hp.1 hst
      obtain ⟨hblur, hnext⟩ := hp.2 _ hhears
      obtain ⟨hresult, hR'⟩ := ih (respond r s).2 hnext hR
      rw [run, run, hreply, hblur]
      exact ⟨hresult, hR'⟩
  | note a next ih => exact ih hp hst

end Plan

end Inventory
