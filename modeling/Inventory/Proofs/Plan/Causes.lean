import Inventory.Proofs.Plan.Run

/-!
# Inventory.Proofs.Plan.Causes

With which errors a plan may fail, what it asks and what it tells.

A plan fails for a cause of a kind if its own errors are of that kind and it gets no others as answers
(`FailsFor`). Following it then ends with no other error, and if it is left without an answer the rest of it
is such a plan as well (`FailsFor.follow`). What a plan asks and what it tells is known in the same way, part
by part (`Confined`), and it is needed where errors depend on what is asked.
-/

namespace Inventory

variable {α β γ σ : Type} {cause : Error → Prop}

/-! ## Results -/

/-- Whether the error of a result, if it is one, is of a kind. -/
def Blames (cause : Error → Prop) (result : Except Error α) : Prop := ∀ e, result = .error e → cause e

theorem blames_ok (a : α) : Blames cause (.ok a) := fun _ h => by contradiction

theorem blames_error {e : Error} : Blames cause (.error e : Except Error α) ↔ cause e :=
  ⟨fun h => h e rfl, fun h _ heq => Except.error.inj heq ▸ h⟩

theorem Blames.mono {cause' : Error → Prop} {x : Except Error α} (hx : Blames cause x)
    (h : ∀ e, cause e → cause' e) : Blames cause' x := fun e he => h e (hx e he)

theorem Blames.bind {x : Except Error α} {f : α → Except Error β} (hx : Blames cause x)
    (hf : ∀ a, Blames cause (f a)) : Blames cause (x >>= f) := by
  cases x with
  | ok a => exact hf a
  | error e => exact blames_error.2 (blames_error.1 hx)

theorem Blames.map {x : Except Error α} (hx : Blames cause x) (f : α → β) : Blames cause (x.map f) := by
  cases x with
  | ok a => exact blames_ok (f a)
  | error e => exact blames_error.2 (blames_error.1 hx)

/-! ## Plans -/

namespace Plan

variable {Request : Type} {Reply : Request → Type}

/-- If all errors that are answered have a cause of a kind, the error that a plan ends with has one too. -/
def FailsFor (cause : Error → Prop) : Plan Request Reply α → Prop
  | done result => Blames cause result
  | ask _ next => ∀ reply, Blames cause reply → (next reply).FailsFor cause
  | note _ next => next.FailsFor cause

theorem failsFor_andThen {p : Plan Request Reply α} {f : Except Error α → Plan Request Reply β}
    (hp : p.FailsFor cause) (hf : ∀ result, Blames cause result → (f result).FailsFor cause) :
    (p.andThen f).FailsFor cause := by
  induction p with
  | done result => exact hf result hp
  | ask r next ih => exact fun reply hreply => ih reply (hp reply hreply)
  | note a next ih => exact ih hp

/-- A plan fails for such causes whatever its requests stand for, if that does. -/
theorem failsFor_expand {Request' : Type} {Reply' : Request' → Type}
    {plan : (r : Request) → Plan Request' Reply' (Reply r)} (hplan : ∀ r, (plan r).FailsFor cause)
    {p : Plan Request Reply α} (hp : p.FailsFor cause) : (p.expand plan).FailsFor cause := by
  induction p with
  | done result => exact hp
  | ask r next ih => exact failsFor_andThen (hplan r) fun reply hreply => ih reply (hp reply hreply)
  | note a next ih => exact ih hp

/-! ## Requests, activities and causes -/

section Confined

variable {kind kind' : Request → Prop} {tells tells' : Activity → Prop}

/-- If all errors that are answered have a cause of a kind, a plan asks certain requests and tells certain
activities only, and the error that it ends with has such a cause. -/
def Confined (kind : Request → Prop) (tells : Activity → Prop) (cause : Error → Prop) :
    Plan Request Reply α → Prop
  | done result => Blames cause result
  | ask r next => kind r ∧ ∀ reply, Blames cause reply → (next reply).Confined kind tells cause
  | note a next => tells a ∧ next.Confined kind tells cause

theorem Confined.failsFor {p : Plan Request Reply α} (h : p.Confined kind tells cause) :
    p.FailsFor cause := by
  induction p with
  | done result => exact h
  | ask r next ih => exact fun reply hreply => ih reply (h.2 reply hreply)
  | note a next ih => exact ih h.2

theorem Confined.mono {p : Plan Request Reply α} (h : p.Confined kind tells cause)
    (hkind : ∀ r, kind r → kind' r) (htells : ∀ a, tells a → tells' a) :
    p.Confined kind' tells' cause := by
  induction p with
  | done result => exact h
  | ask r next ih => exact ⟨hkind r h.1, fun reply hreply => ih reply (h.2 reply hreply)⟩
  | note a next ih => exact ⟨htells a h.1, ih h.2⟩

theorem confined_give (a : α) : (give a : Plan Request Reply α).Confined kind tells cause := blames_ok a

theorem confined_pure (a : α) : (pure a : Plan Request Reply α).Confined kind tells cause := blames_ok a

theorem confined_fail {e : Error} (h : cause e) :
    (fail e : Plan Request Reply α).Confined kind tells cause := blames_error.2 h

theorem confined_tell {a : Activity} (h : tells a) :
    (tell a : Plan Request Reply Unit).Confined kind tells cause := ⟨h, blames_ok ()⟩

theorem confined_ofExcept {result : Except Error α} (h : Blames cause result) :
    (ofExcept result : Plan Request Reply α).Confined kind tells cause := h

theorem confined_perform {r : Request} (h : kind r) :
    (perform r : Plan Request Reply (Reply r)).Confined kind tells cause := ⟨h, fun _ hreply => hreply⟩

theorem confined_andThen {p : Plan Request Reply α} {f : Except Error α → Plan Request Reply β}
    (hp : p.Confined kind tells cause)
    (hf : ∀ result, Blames cause result → (f result).Confined kind tells cause) :
    (p.andThen f).Confined kind tells cause := by
  induction p with
  | done result => exact hf result hp
  | ask r next ih => exact ⟨hp.1, fun reply hreply => ih reply (hp.2 reply hreply)⟩
  | note a next ih => exact ⟨hp.1, ih hp.2⟩

theorem confined_bind {p : Plan Request Reply α} {f : α → Plan Request Reply β}
    (hp : p.Confined kind tells cause) (hf : ∀ a, (f a).Confined kind tells cause) :
    (p >>= f).Confined kind tells cause := by
  refine confined_andThen hp fun result hresult => ?_
  cases result with
  | ok a => exact hf a
  | error e => exact confined_fail (blames_error.1 hresult)

theorem confined_attempt {p : Plan Request Reply α} (hp : p.Confined kind tells cause) :
    p.attempt.Confined kind tells cause :=
  confined_andThen hp fun result _ => confined_give result

theorem confined_forEach {l : List β} {step : γ → β → Plan Request Reply γ}
    (hstep : ∀ state, ∀ x ∈ l, (step state x).Confined kind tells cause) (state : γ) :
    (forEach l state step).Confined kind tells cause := by
  induction l generalizing state with
  | nil => exact confined_give state
  | cons x l ih =>
      exact confined_bind (hstep state x List.mem_cons_self) fun state =>
        ih (fun state y hy => hstep state y (List.mem_cons_of_mem _ hy)) state

/-- A plan whose requests are plans asks and tells what those do. -/
theorem confined_expand {Request' : Type} {Reply' : Request' → Type} {kind' : Request' → Prop}
    {plan : (r : Request) → Plan Request' Reply' (Reply r)}
    (hplan : ∀ r, kind r → (plan r).Confined kind' tells cause) {p : Plan Request Reply α}
    (hp : p.Confined kind tells cause) : (p.expand plan).Confined kind' tells cause := by
  induction p with
  | done result => exact hp
  | ask r next ih =>
      exact confined_andThen (hplan r hp.1) fun reply hreply => ih reply (hp.2 reply hreply)
  | note a next ih => exact ⟨hp.1, ih hp.2⟩

end Confined

/-! ## Following plans -/

/-- What is left of a plan that was followed: an error of such a cause, or a plan that fails for such. -/
def Progress.FailsFor (cause : Error → Prop) : Progress Request Reply α → Prop
  | .ended result => Blames cause result
  | .stuck rest => ∀ e, cause e → (rest e).FailsFor cause

theorem FailsFor.follow {answer : (r : Request) → σ → σ × Option (Except Error (Reply r))}
    (hanswer : ∀ r s reply, (answer r s).2 = some reply → Blames cause reply) {p : Plan Request Reply α}
    (hp : p.FailsFor cause) (s : σ) : (p.follow answer s).progress.FailsFor cause := by
  induction p generalizing s with
  | done result => exact hp
  | ask r next ih =>
      unfold Plan.follow
      have hblames := hanswer r s
      rcases hreply : answer r s with ⟨s₁, _ | reply⟩
      · exact fun e he => hp _ (blames_error.2 he)
      · rw [hreply] at hblames
        exact ih reply (hp reply (hblames reply rfl)) s₁
  | note a next ih => exact ih hp s

end Plan

end Inventory
