import Inventory.Proofs.Plan.Run

/-!
# Inventory.Proofs.Plan.Interrupted

Plans followed against someone who may answer a request in more than one way.

Where every request may be answered or fail, one plan has many ends (`Leads`). They are found part by
part (`leads_bind`), and a loop whose steps are taken as a whole or not at all (`AtOnce`) has gone through a
beginning of its list when it ends (`leads_forEach`).
-/

namespace Inventory.Plan

variable {Request : Type} {Reply : Request → Type} {α β γ σ τ : Type}

/-- How requests may be answered: the state before and after, and what is said. -/
abbrev Answers (Request : Type) (Reply : Request → Type) (σ : Type) :=
  (r : Request) → σ → σ → Except Error (Reply r) → Prop

/-- The answers of one who may also fail, without an effect. -/
def faltering (answers : Answers Request Reply σ) : Answers Request Reply σ :=
  fun r s s' reply => answers r s s' reply ∨ s' = s ∧ ∃ e, reply = .error e

/-- Following a plan may lead from one state to another, with a result. -/
def Leads (answers : Answers Request Reply σ) :
    Plan Request Reply α → σ → σ → Except Error α → Prop
  | done result, s, s', out => s' = s ∧ out = result
  | ask r next, s, s', out => ∃ s₁ reply, answers r s s₁ reply ∧ (next reply).Leads answers s₁ s' out
  | note _ next, s, s', out => next.Leads answers s s' out

variable {answers : Answers Request Reply σ} {s s' : σ}

theorem leads_give {a : α} {out : Except Error α} :
    (give a : Plan Request Reply α).Leads answers s s' out ↔ s' = s ∧ out = .ok a := Iff.rfl

theorem leads_pure {a : α} {out : Except Error α} :
    (pure a : Plan Request Reply α).Leads answers s s' out ↔ s' = s ∧ out = .ok a := Iff.rfl

theorem leads_fail {e : Error} {out : Except Error α} :
    (fail e : Plan Request Reply α).Leads answers s s' out ↔ s' = s ∧ out = .error e := Iff.rfl

theorem leads_tell {a : Activity} {out : Except Error Unit} :
    (tell a : Plan Request Reply Unit).Leads answers s s' out ↔ s' = s ∧ out = .ok () := Iff.rfl

theorem leads_perform {r : Request} {out : Except Error (Reply r)} :
    (perform r : Plan Request Reply (Reply r)).Leads answers s s' out ↔ answers r s s' out := by
  constructor
  · rintro ⟨_, _, h, rfl, rfl⟩
    exact h
  · exact fun h => ⟨s', out, h, rfl, rfl⟩

theorem leads_andThen {p : Plan Request Reply α} {f : Except Error α → Plan Request Reply β}
    {out : Except Error β} :
    (p.andThen f).Leads answers s s' out ↔
      ∃ s₁ x, p.Leads answers s s₁ x ∧ (f x).Leads answers s₁ s' out := by
  induction p generalizing s with
  | done result =>
      constructor
      · exact fun h => ⟨s, result, ⟨rfl, rfl⟩, h⟩
      · rintro ⟨_, _, ⟨rfl, rfl⟩, h⟩
        exact h
  | ask r next ih =>
      constructor
      · rintro ⟨s₁, reply, hanswer, h⟩
        obtain ⟨s₂, x, hp, hf⟩ := (ih reply).1 h
        exact ⟨s₂, x, ⟨s₁, reply, hanswer, hp⟩, hf⟩
      · rintro ⟨s₂, x, ⟨s₁, reply, hanswer, hp⟩, hf⟩
        exact ⟨s₁, reply, hanswer, (ih reply).2 ⟨s₂, x, hp, hf⟩⟩
  | note a next ih => exact ih

/-- A joined plan ends with its second part, or with the error that ended its first one. -/
theorem leads_bind {p : Plan Request Reply α} {f : α → Plan Request Reply β}
    {out : Except Error β} :
    (p >>= f).Leads answers s s' out ↔
      (∃ s₁ a, p.Leads answers s s₁ (.ok a) ∧ (f a).Leads answers s₁ s' out) ∨
        ∃ e, p.Leads answers s s' (.error e) ∧ out = .error e := by
  refine leads_andThen.trans ⟨?_, ?_⟩
  · rintro ⟨s₁, e | a, hp, hf⟩
    · obtain ⟨rfl, rfl⟩ := leads_fail.1 hf
      exact .inr ⟨e, hp, rfl⟩
    · exact .inl ⟨s₁, a, hp, hf⟩
  · rintro (⟨s₁, a, hp, hf⟩ | ⟨e, hp, rfl⟩)
    · exact ⟨s₁, .ok a, hp, hf⟩
    · exact ⟨s', .error e, hp, leads_fail.2 ⟨rfl, rfl⟩⟩

/-- Every step of a loop either fails without an effect or has a certain one. -/
def AtOnce (answers : Answers Request Reply σ) (step : γ → β → Plan Request Reply γ)
    (effect : σ → β → σ) : Prop :=
  ∀ state x s s' out, (step state x).Leads answers s s' out →
    s' = s ∧ (∃ e, out = .error e) ∨ s' = effect s x ∧ ∃ state', out = .ok state'

/-- A loop has gone through a beginning of its list when it ends, and through all of it if it
succeeded. -/
theorem leads_forEach {step : γ → β → Plan Request Reply γ} {effect : σ → β → σ}
    (hstep : AtOnce answers step effect) {l : List β} {state : γ} {out : Except Error γ}
    (h : (forEach l state step).Leads answers s s' out) :
    ∃ done, done <+: l ∧ s' = done.foldl effect s ∧ (out.isOk → done = l) := by
  induction l generalizing state s with
  | nil =>
      obtain ⟨rfl, -⟩ := leads_give.1 h
      exact ⟨[], List.nil_prefix, rfl, fun _ => rfl⟩
  | cons x l ih =>
      rcases leads_bind.1 h with ⟨s₁, state₁, hx, hrest⟩ | ⟨e, hx, rfl⟩
      · rcases hstep _ _ _ _ _ hx with ⟨-, e, herror⟩ | ⟨rfl, -⟩
        · contradiction
        · obtain ⟨done, hdone, hs', hall⟩ := ih hrest
          exact ⟨x :: done, List.cons_prefix_cons.2 ⟨rfl, hdone⟩, hs',
            fun hok => congrArg (x :: ·) (hall hok)⟩
      · rcases hstep _ _ _ _ _ hx with ⟨rfl, -⟩ | ⟨-, state', hok⟩
        · exact ⟨[], List.nil_prefix, rfl, fun hok => by contradiction⟩
        · contradiction

/-- What may happen to states may happen to what they are seen as. -/
theorem Leads.through {answers' : Answers Request Reply τ} (R : σ → τ → Prop)
    (hanswers : ∀ r s s' t reply, R s t → answers r s s' reply →
      ∃ t', answers' r t t' reply ∧ R s' t')
    {p : Plan Request Reply α} {out : Except Error α} {t : τ} (hst : R s t)
    (h : p.Leads answers s s' out) : ∃ t', p.Leads answers' t t' out ∧ R s' t' := by
  induction p generalizing s t with
  | done result =>
      obtain ⟨rfl, rfl⟩ := h
      exact ⟨t, ⟨rfl, rfl⟩, hst⟩
  | ask r next ih =>
      obtain ⟨s₁, reply, hanswer, hrest⟩ := h
      obtain ⟨t₁, hanswer', hst₁⟩ := hanswers _ _ _ _ _ hst hanswer
      obtain ⟨t', hleads, hst'⟩ := ih reply hst₁ hrest
      exact ⟨t', ⟨t₁, reply, hanswer', hleads⟩, hst'⟩
  | note a next ih => exact ih hst h

/-- What ends without a failure may be what happens. -/
theorem EndsIn.leads {answer : (r : Request) → σ → σ × Option (Except Error (Reply r))}
    {p : Plan Request Reply α} {out : Except Error α} (h : p.EndsIn answer s s' out) :
    p.Leads (faltering fun r s s' reply => answer r s = (s', some reply)) s s' out := by
  induction p generalizing s with
  | done result =>
      obtain ⟨rfl, hprogress⟩ := h
      cases hprogress
      exact ⟨rfl, rfl⟩
  | ask r next ih =>
      obtain ⟨s₁, reply, hanswer, hends⟩ := endsIn_ask.1 h
      exact ⟨s₁, reply, .inl hanswer, ih reply hends⟩
  | note a next ih => exact ih h

end Inventory.Plan
