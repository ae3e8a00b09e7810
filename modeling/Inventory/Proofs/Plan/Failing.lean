import Inventory.Proofs.Plan.Alongside
import Inventory.Proofs.Plan.Interrupted

/-!
# Inventory.Proofs.Plan.Failing

What can be said of plans whose requests may fail.

Where a request may be answered in more than one way, a plan secures what it leaves behind in either of its
ends (`Secures`), which is found part by part. A plan that gives up at the first failure (`Strict`) has
succeeded only if none of its requests failed, and then it ends as its run does (`leads_of_strict`).
-/

namespace Inventory.Plan

variable {Request : Type} {Reply : Request → Type} {α β γ σ : Type}

/-! ## Requests that are plans -/

/-- Where an expanded plan leads to, the plan leads to if each request may lead where its own plan does. -/
theorem leads_expand {Request' : Type} {Reply' : Request' → Type}
    {plan : (r : Request) → Plan Request' Reply' (Reply r)} {answers : Answers Request' Reply' σ}
    {p : Plan Request Reply α} {s s' : σ} {out : Except Error α} :
    (p.expand plan).Leads answers s s' out ↔
      p.Leads (fun r s s' reply => (plan r).Leads answers s s' reply) s s' out := by
  induction p generalizing s with
  | done result => exact Iff.rfl
  | ask r next ih => exact leads_andThen.trans (exists₂_congr fun _ reply => and_congr_right fun _ => ih reply)
  | note a next ih => exact ih

/-! ## What is left behind -/

/-- From every state as required, wherever a plan leads, it leaves one thing behind if it succeeds and
another if it fails. -/
def Secures (answers : Answers Request Reply σ) (pre : σ → Prop) (p : Plan Request Reply α)
    (good : α → σ → Prop) (bad : Error → σ → Prop) : Prop :=
  ∀ s s' out, pre s → p.Leads answers s s' out → Ends good bad out s'

section Secures

variable {answers : Answers Request Reply σ} {pre : σ → Prop} {p : Plan Request Reply α}
  {good : α → σ → Prop} {bad : Error → σ → Prop}

theorem Secures.mono (h : Secures answers pre p good bad) {pre' : σ → Prop} {good' : α → σ → Prop}
    {bad' : Error → σ → Prop} (hpre : ∀ s, pre' s → pre s) (hgood : ∀ a s, good a s → good' a s)
    (hbad : ∀ e s, bad e s → bad' e s) : Secures answers pre' p good' bad' := by
  intro s s' out hs hleads
  have hend := h s s' out (hpre s hs) hleads
  cases out with
  | ok a => exact hgood a s' hend
  | error e => exact hbad e s' hend

theorem secures_give {a : α} (h : ∀ s, pre s → good a s) :
    Secures answers pre (give a : Plan Request Reply α) good bad := by
  rintro s s' out hs ⟨rfl, rfl⟩
  exact h s' hs

theorem secures_perform {r : Request} {good : Reply r → σ → Prop}
    (h : ∀ s s' out, pre s → answers r s s' out → Ends good bad out s') :
    Secures answers pre (perform r : Plan Request Reply (Reply r)) good bad :=
  fun s s' out hs hleads => h s s' out hs (leads_perform.1 hleads)

theorem secures_bind (mid : α → σ → Prop) {f : α → Plan Request Reply β} {good' : β → σ → Prop}
    (hp : Secures answers pre p mid bad) (hf : ∀ a, Secures answers (mid a) (f a) good' bad) :
    Secures answers pre (p >>= f) good' bad := by
  intro s s' out hs hleads
  rcases leads_bind.1 hleads with ⟨s₁, a, hfirst, hrest⟩ | ⟨e, hfirst, rfl⟩
  · exact hf a s₁ s' out (hp s s₁ _ hs hfirst) hrest
  · exact hp s s' _ hs hfirst

/-- What holds in either end of a plan holds after an attempt. -/
theorem secures_attempt {inv : σ → Prop} (h : Secures answers pre p (fun _ => inv) fun _ => inv) :
    Secures answers pre p.attempt (fun _ => inv) bad := by
  intro s s' out hs hleads
  obtain ⟨s₁, x, hp, rfl, rfl⟩ := leads_andThen.1 hleads
  have hend := h s s' x hs hp
  cases x <;> exact hend

/-- What each step of a loop makes of what is left to do, the loop makes of all of it. -/
theorem secures_forEach (inv : List β → γ → σ → Prop) {step : γ → β → Plan Request Reply γ}
    {l : List β} (hstep : ∀ x rest, x :: rest <:+ l → ∀ state,
      Secures answers (inv (x :: rest) state) (step state x) (inv rest) bad) (state : γ) :
    Secures answers (inv l state) (forEach l state step) (inv []) bad := by
  induction l generalizing state with
  | nil => exact secures_give fun _ hs => hs
  | cons x rest ih =>
      refine secures_bind _ (hstep x rest (List.suffix_refl _) state) fun state => ?_
      exact ih (fun y rest' hsuffix => hstep y rest' (hsuffix.trans (List.suffix_cons x rest))) state

end Secures

/-! ## Plans that give up -/

/-- A plan that asks requests of a certain kind only, and fails as soon as one of them does. -/
def Strict (kind : Request → Prop) : Plan Request Reply α → Prop
  | done _ => True
  | ask r next => kind r ∧ (∀ e, ∃ e', next (.error e) = fail e') ∧ ∀ a, (next (.ok a)).Strict kind
  | note _ next => next.Strict kind

section Strict

variable {kind : Request → Prop}

theorem strict_pure {a : α} : (pure a : Plan Request Reply α).Strict kind := trivial

theorem strict_perform {r : Request} (h : kind r) :
    (perform r : Plan Request Reply (Reply r)).Strict kind :=
  ⟨h, fun e => ⟨e, rfl⟩, fun _ => trivial⟩

theorem strict_andThen {p : Plan Request Reply α} {f : Except Error α → Plan Request Reply β}
    (hp : p.Strict kind) (herror : ∀ e, ∃ e', f (.error e) = fail e')
    (hok : ∀ a, (f (.ok a)).Strict kind) : (p.andThen f).Strict kind := by
  induction p with
  | done result =>
      cases result with
      | ok a => exact hok a
      | error e =>
          obtain ⟨e', hf⟩ := herror e
          rw [andThen_done, hf]
          trivial
  | ask r next ih =>
      refine ⟨hp.1, fun e => ?_, fun a => ih _ (hp.2.2 a)⟩
      obtain ⟨e', hnext⟩ := hp.2.1 e
      dsimp only
      rw [hnext]
      exact herror e'
  | note a next ih => exact ih hp

theorem strict_bind {p : Plan Request Reply α} {f : α → Plan Request Reply β} (hp : p.Strict kind)
    (hf : ∀ a, (f a).Strict kind) : (p >>= f).Strict kind :=
  strict_andThen hp (fun e => ⟨e, rfl⟩) hf

theorem strict_forEach {l : List β} {step : γ → β → Plan Request Reply γ}
    (hstep : ∀ state x, (step state x).Strict kind) (state : γ) : (forEach l state step).Strict kind := by
  induction l generalizing state with
  | nil => trivial
  | cons x l ih => exact strict_bind (hstep state x) ih

/-- A strict plan stays so when each of its requests becomes a strict plan. -/
theorem strict_expand {Request' : Type} {Reply' : Request' → Type} {kind' : Request' → Prop}
    {plan : (r : Request) → Plan Request' Reply' (Reply r)} (hplan : ∀ r, kind r → (plan r).Strict kind')
    {p : Plan Request Reply α} (hp : p.Strict kind) : (p.expand plan).Strict kind' := by
  induction p with
  | done result => trivial
  | ask r next ih =>
      refine strict_andThen (hplan r hp.1) (fun e => ?_) fun a => ih _ (hp.2.2 a)
      obtain ⟨e', hnext⟩ := hp.2.1 e
      exact ⟨e', by rw [hnext]; rfl⟩
  | note a next ih => exact ih hp

/-- If the requests of a strict plan may fail and change nothing, it changes nothing either, and if it
succeeds it ends as its run does. -/
theorem leads_of_strict {respond : Responder Request Reply σ}
    (hkind : ∀ r s, kind r → (respond r s).1 = s) {p : Plan Request Reply α} (hp : p.Strict kind)
    {s s' : σ} {out : Except Error α}
    (h : p.Leads (faltering fun r s s' reply => respond r s = (s', reply)) s s' out) :
    s' = s ∧ ∀ a, out = .ok a → p.run respond s = (s, .ok a) := by
  induction p with
  | done result =>
      obtain ⟨rfl, rfl⟩ := h
      exact ⟨rfl, fun a hok => by rw [run_done, hok]⟩
  | ask r next ih =>
      obtain ⟨hask, herror, hok⟩ := hp
      obtain ⟨s₁, reply, hanswer, hrest⟩ := h
      -- Whatever is answered, the state is the same, and a failure ends the plan.
      have hfailed : ∀ {e}, reply = .error e → s₁ = s → s' = s ∧ ∃ e', out = .error e' := by
        rintro e rfl rfl
        obtain ⟨e', hnext⟩ := herror e
        rw [hnext] at hrest
        exact ⟨hrest.1, e', hrest.2⟩
      have hsame := hkind r s hask
      rcases hanswer with hanswer | ⟨rfl, e, rfl⟩
      · rw [run, hanswer]
        rw [hanswer] at hsame
        cases reply with
        | ok a =>
            obtain rfl : s₁ = s := hsame
            exact ih _ (hok a) hrest
        | error e =>
            obtain ⟨hs', e', rfl⟩ := hfailed rfl hsame
            exact ⟨hs', fun a hout => by contradiction⟩
      · obtain ⟨hs', e', rfl⟩ := hfailed rfl rfl
        exact ⟨hs', fun a hout => by contradiction⟩
  | note a next ih => exact ih hp h

end Strict

end Inventory.Plan
