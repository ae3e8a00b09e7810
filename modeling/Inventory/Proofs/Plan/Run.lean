import Inventory.Cache.Backend

/-!
# Inventory.Proofs.Plan.Run

Plans followed against someone who answers every request at once.

A backend may be silent, so following a plan need not end. Where it always answers, a plan is a
function from states to states and results (`Plan.run`), which takes joined plans apart
(`run_bind`, `run_forEach_cons`) and plans whose requests are plans themselves (`run_expand`). The
way back is `endsIn_run`: if the answers of a backend are those of a responder, seen through a
relation between their states, then following the plan ends with the result of the run.
-/

namespace Inventory

namespace Plan

variable {Request : Type} {Reply : Request → Type} {α β γ σ τ : Type}

/-- Following a plan from `s` ends in `s'` with a result. -/
def EndsIn (answer : (r : Request) → σ → σ × Option (Except Error (Reply r))) (s : σ)
    (p : Plan Request Reply α) (s' : σ) (result : Except Error α) : Prop :=
  (p.follow answer s).state = s' ∧ (p.follow answer s).progress = .ended result

/-- A plan ends in one way only. -/
theorem EndsIn.unique {answer : (r : Request) → σ → σ × Option (Except Error (Reply r))} {s : σ}
    {p : Plan Request Reply α} {s₁ s₂ : σ} {x₁ x₂ : Except Error α}
    (h₁ : p.EndsIn answer s s₁ x₁) (h₂ : p.EndsIn answer s s₂ x₂) : s₁ = s₂ ∧ x₁ = x₂ := by
  refine ⟨h₁.1.symm.trans h₂.1, ?_⟩
  have hx : (Progress.ended x₁ : Progress Request Reply α) = .ended x₂ := h₁.2.symm.trans h₂.2
  injection hx

/-- A plan that ends has had its first request answered. -/
theorem endsIn_ask {answer : (r : Request) → σ → σ × Option (Except Error (Reply r))} {r : Request}
    {next : Except Error (Reply r) → Plan Request Reply α} {s s' : σ} {result : Except Error α} :
    (ask r next).EndsIn answer s s' result ↔
      ∃ s₁ reply, answer r s = (s₁, some reply) ∧ (next reply).EndsIn answer s₁ s' result := by
  rw [EndsIn, follow]
  rcases answer r s with ⟨s₁, _ | reply⟩
  · simp
  · constructor
    · exact fun h => ⟨s₁, reply, rfl, h⟩
    · rintro ⟨s₂, reply', hsame, h⟩
      cases hsame
      exact h

/-- The error with which following a plan ended, if it did. -/
def Progress.error? : Progress Request Reply α → Option Error
  | .ended (.error e) => some e
  | _ => none

/-- That following a plan ends with an error can be seen by following it. -/
theorem endsIn_error {answer : (r : Request) → σ → σ × Option (Except Error (Reply r))} {s : σ}
    {p : Plan Request Reply α} {e : Error} (h : (p.follow answer s).progress.error? = some e) :
    p.EndsIn answer s (p.follow answer s).state (.error e) := by
  refine ⟨rfl, ?_⟩
  cases hprogress : (p.follow answer s).progress with
  | stuck rest => simp [hprogress, Progress.error?] at h
  | ended result =>
      cases result with
      | ok a => simp [hprogress, Progress.error?] at h
      | error e' => simpa [hprogress, Progress.error?] using h

theorem exists_of_isOk {x : Except Error α} (h : x.isOk) : ∃ a, x = .ok a := by
  cases x with
  | ok a => exact ⟨a, rfl⟩
  | error e => contradiction

theorem exists_error_of_isOk {x : Except Error α} (h : x.isOk = false) : ∃ e, x = .error e := by
  cases x with
  | error e => exact ⟨e, rfl⟩
  | ok a => contradiction

/-! ## Running a plan -/

/-- Someone who answers every request at once. -/
abbrev Responder (Request : Type) (Reply : Request → Type) (σ : Type) :=
  (r : Request) → σ → σ × Except Error (Reply r)

/-- The state and the result in which a plan ends. -/
def run (respond : Responder Request Reply σ) (s : σ) :
    Plan Request Reply α → σ × Except Error α
  | done result => (s, result)
  | ask r next => (next (respond r s).2).run respond (respond r s).1
  | note _ next => next.run respond s

variable (respond : Responder Request Reply σ) (s : σ)

@[simp] theorem run_done (result : Except Error α) :
    (done result : Plan Request Reply α).run respond s = (s, result) := rfl

@[simp] theorem run_give (a : α) :
    (give a : Plan Request Reply α).run respond s = (s, .ok a) := rfl

@[simp] theorem run_pure (a : α) :
    (pure a : Plan Request Reply α).run respond s = (s, .ok a) := rfl

@[simp] theorem run_fail (e : Error) :
    (fail e : Plan Request Reply α).run respond s = (s, .error e) := rfl

@[simp] theorem run_note (a : Activity) (p : Plan Request Reply α) :
    (note a p).run respond s = p.run respond s := rfl

@[simp] theorem run_tell (a : Activity) :
    (tell a : Plan Request Reply Unit).run respond s = (s, .ok ()) := rfl

@[simp] theorem run_ofExcept (result : Except Error α) :
    (ofExcept result : Plan Request Reply α).run respond s = (s, result) := rfl

@[simp] theorem run_perform (r : Request) :
    (perform r : Plan Request Reply (Reply r)).run respond s = respond r s := rfl

theorem run_andThen (p : Plan Request Reply α) (f : Except Error α → Plan Request Reply β) :
    (p.andThen f).run respond s = (f (p.run respond s).2).run respond (p.run respond s).1 := by
  induction p generalizing s with
  | done result => rfl
  | ask r next ih => exact ih _ _
  | note a next ih => exact ih _

@[simp] theorem run_attempt (p : Plan Request Reply α) :
    p.attempt.run respond s = ((p.run respond s).1, .ok (p.run respond s).2) :=
  run_andThen respond s p give

/-- What follows an attempt sees the error as well as the result. -/
theorem attempt_bind (p : Plan Request Reply α) (f : Except Error α → Plan Request Reply β) :
    p.attempt >>= f = p.andThen f := by
  change (p.andThen give).andThen _ = _
  rw [andThen_assoc]
  rfl

theorem run_bind (p : Plan Request Reply α) (f : α → Plan Request Reply β) :
    (p >>= f).run respond s =
      match p.run respond s with
      | (s', .ok a) => (f a).run respond s'
      | (s', .error e) => (s', .error e) := by
  change (p.andThen _).run respond s = _
  rw [run_andThen]
  rcases p.run respond s with ⟨s', _ | a⟩ <;> rfl

/-- A joined plan that succeeds went through the success of its first part. -/
theorem run_bind_eq_ok {p : Plan Request Reply α} {f : α → Plan Request Reply β} {s s' : σ} {b : β} :
    (p >>= f).run respond s = (s', .ok b) ↔
      ∃ s₁ a, p.run respond s = (s₁, .ok a) ∧ (f a).run respond s₁ = (s', .ok b) := by
  rw [run_bind]
  rcases p.run respond s with ⟨s₁, e | a⟩
  · simp
  · constructor
    · exact fun h => ⟨s₁, a, rfl, h⟩
    · rintro ⟨_, _, h, hrest⟩
      cases h
      exact hrest

@[simp] theorem run_forEach_nil (state : γ) (step : γ → β → Plan Request Reply γ) :
    (forEach [] state step).run respond s = (s, .ok state) := rfl

theorem run_forEach_cons (x : β) (l : List β) (state : γ) (step : γ → β → Plan Request Reply γ) :
    (forEach (x :: l) state step).run respond s =
      match (step state x).run respond s with
      | (s', .ok state) => (forEach l state step).run respond s'
      | (s', .error e) => (s', .error e) :=
  run_bind respond s (step state x) fun state => forEach l state step

/-- A loop that succeeds took a successful step and succeeded with the rest. -/
theorem run_forEach_cons_eq_ok {x : β} {l : List β} {state state' : γ}
    {step : γ → β → Plan Request Reply γ} {s s' : σ} :
    (forEach (x :: l) state step).run respond s = (s', .ok state') ↔
      ∃ s₁ state₁, (step state x).run respond s = (s₁, .ok state₁) ∧
        (forEach l state₁ step).run respond s₁ = (s', .ok state') :=
  run_bind_eq_ok respond

/-- What the steps of a loop preserve as long as they succeed, a loop that succeeds preserves. -/
theorem run_forEach_induction (holds : σ → γ → Prop) {l : List β}
    {step : γ → β → Plan Request Reply γ} (hstep : ∀ x ∈ l, ∀ s state s' state', holds s state →
      (step state x).run respond s = (s', .ok state') → holds s' state')
    {s s' : σ} {state state' : γ} (h : holds s state)
    (hrun : (forEach l state step).run respond s = (s', .ok state')) : holds s' state' := by
  induction l generalizing s state with
  | nil =>
      cases hrun
      exact h
  | cons x l ih =>
      obtain ⟨s₁, state₁, hfirst, hrest⟩ := (run_forEach_cons_eq_ok respond).1 hrun
      exact ih (fun y hy => hstep y (List.mem_cons_of_mem _ hy))
        (hstep x List.mem_cons_self s state s₁ state₁ h hfirst) hrest

/-- Running an expanded plan is running the plan where each request is a run of its own. -/
theorem run_expand {Request' : Type} {Reply' : Request' → Type}
    (respond : Responder Request' Reply' σ) (plan : (r : Request) → Plan Request' Reply' (Reply r))
    (s : σ) (p : Plan Request Reply α) :
    (p.expand plan).run respond s = p.run (fun r s => (plan r).run respond s) s := by
  induction p generalizing s with
  | done result => rfl
  | ask r next ih => rw [expand, run_andThen, ih]; rfl
  | note a next ih => exact ih s

/-! ## Requests of a kind -/

/-- Whatever the answers are, a plan asks requests of a certain kind only. -/
def Asks (kind : Request → Prop) : Plan Request Reply α → Prop
  | done _ => True
  | ask r next => kind r ∧ ∀ reply, (next reply).Asks kind
  | note _ next => next.Asks kind

section Asks

variable {kind : Request → Prop}

theorem Asks.mono {kind' : Request → Prop} {p : Plan Request Reply α} (hp : p.Asks kind)
    (h : ∀ r, kind r → kind' r) : p.Asks kind' := by
  induction p with
  | done result => trivial
  | ask r next ih => exact ⟨h r hp.1, fun reply => ih reply (hp.2 reply)⟩
  | note a next ih => exact ih hp

theorem asks_andThen {p : Plan Request Reply α} {f : Except Error α → Plan Request Reply β}
    (hp : p.Asks kind) (hf : ∀ result, (f result).Asks kind) : (p.andThen f).Asks kind := by
  induction p with
  | done result => exact hf result
  | ask r next ih => exact ⟨hp.1, fun reply => ih reply (hp.2 reply)⟩
  | note a next ih => exact ih hp

theorem asks_bind {p : Plan Request Reply α} {f : α → Plan Request Reply β} (hp : p.Asks kind)
    (hf : ∀ a, (f a).Asks kind) : (p >>= f).Asks kind := by
  refine asks_andThen hp fun result => ?_
  cases result with
  | ok a => exact hf a
  | error e => trivial

theorem asks_attempt {p : Plan Request Reply α} (hp : p.Asks kind) : p.attempt.Asks kind :=
  asks_andThen hp fun _ => trivial

theorem asks_perform {r : Request} (h : kind r) :
    (perform r : Plan Request Reply (Reply r)).Asks kind := ⟨h, fun _ => trivial⟩

theorem asks_forEach {l : List β} {step : γ → β → Plan Request Reply γ} {state : γ}
    (hstep : ∀ state, ∀ x ∈ l, (step state x).Asks kind) : (forEach l state step).Asks kind := by
  induction l generalizing state with
  | nil => trivial
  | cons x l ih =>
      exact asks_bind (hstep state x List.mem_cons_self) fun state =>
        ih fun state y hy => hstep state y (List.mem_cons_of_mem _ hy)

/-- What all requests of a kind preserve, a plan preserves that asks only such. -/
theorem run_of_asks {respond : Responder Request Reply σ} (holds : σ → Prop)
    (hstep : ∀ r s, kind r → holds s → holds (respond r s).1) {p : Plan Request Reply α}
    (hp : p.Asks kind) {s : σ} (hs : holds s) : holds (p.run respond s).1 := by
  induction p generalizing s with
  | done result => exact hs
  | ask r next ih => exact ih _ (hp.2 _) (hstep r s hp.1 hs)
  | note a next ih => exact ih hp hs

end Asks

/-! ## From a run to following -/

/-- Following a plan ends with the result of its run, if the answers are those of the responder as
seen through a relation between their states. -/
theorem endsIn_run {answer : (r : Request) → σ → σ × Option (Except Error (Reply r))}
    {respond : Responder Request Reply τ} (R : σ → τ → Prop)
    (hanswer : ∀ r s t, R s t →
      ∃ s', answer r s = (s', some (respond r t).2) ∧ R s' (respond r t).1)
    (p : Plan Request Reply α) {s : σ} {t : τ} (hst : R s t) :
    ∃ s', p.EndsIn answer s s' (p.run respond t).2 ∧ R s' (p.run respond t).1 := by
  induction p generalizing s t with
  | done result => exact ⟨s, ⟨rfl, rfl⟩, hst⟩
  | ask r next ih =>
      obtain ⟨s₁, hs₁, hR⟩ := hanswer r s t hst
      obtain ⟨s', hends, hR'⟩ := ih (respond r t).2 hR
      exact ⟨s', endsIn_ask.2 ⟨s₁, _, hs₁, hends⟩, hR'⟩
  | note a next ih =>
      obtain ⟨s', hends, hR⟩ := ih hst
      exact ⟨s', hends, hR⟩

end Plan

end Inventory
