import Inventory.Proofs.Plan.Run

/-!
# Inventory.Proofs.Plan.Alongside

Plans followed next to each other.

Two plans may be followed against the same state, a request of the one or of the other at a time
(`Plan.Interleaved`). Each of them can be reasoned about alone, given what the other may do to the state
in between and what it may do itself (`Plan.Conduct`): a plan that fulfils what is asked of it under such
a conduct (`Plan.Fulfils`) does so next to any plan whose conduct fits (`Interleaved.fulfils`). A plan
that nothing is followed next to relies on a state that stays as it is (`Conduct.alone`).
-/

namespace Inventory

namespace Plan

variable {Request : Type} {Reply : Request → Type} {α β γ σ τ : Type}

/-! ## What plans do next to each other -/

/-- How a plan that is followed next to others and they may change the state. -/
structure Conduct (σ : Type) where
  /-- What others may do between two requests. -/
  relies : σ → σ → Prop
  /-- What every request of the plan does. -/
  guarantees : σ → σ → Prop

namespace Conduct

/-- Whatever others do in between is one thing that they may do. -/
structure Lawful (C : Conduct σ) : Prop where
  refl : ∀ s, C.relies s s
  trans : ∀ s₁ s₂ s₃, C.relies s₁ s₂ → C.relies s₂ s₃ → C.relies s₁ s₃

/-- Others do not make something untrue. -/
def Stable (C : Conduct σ) (holds : σ → Prop) : Prop := ∀ s s', C.relies s s' → holds s → holds s'

/-- Nobody else does anything. -/
def alone (σ : Type) : Conduct σ where
  relies s s' := s = s'
  guarantees _ _ := True

theorem stable_alone (holds : σ → Prop) : (alone σ).Stable holds := fun _ _ h hs => h ▸ hs

variable {C : Conduct σ} {p q : σ → Prop}

theorem Stable.and (hp : C.Stable p) (hq : C.Stable q) : C.Stable fun s => p s ∧ q s :=
  fun s s' h hs => ⟨hp s s' h hs.1, hq s s' h hs.2⟩

end Conduct

/-- What a plan ends with, be it a result or an error, has a property in the state it ends in. -/
def Ends (good : α → σ → Prop) (bad : Error → σ → Prop) (result : Except Error α) (s : σ) : Prop :=
  match result with
  | .ok a => good a s
  | .error e => bad e s

/-- Whatever others do before each of its requests, a plan does what it guarantees and ends as wanted. -/
def Assures (respond : Responder Request Reply σ) (C : Conduct σ)
    (post : Except Error α → σ → Prop) : Plan Request Reply α → σ → Prop
  | done result, s => post result s
  | ask r next, s => ∀ s', C.relies s s' →
      C.guarantees s' (respond r s').1 ∧
        (next (respond r s').2).Assures respond C post (respond r s').1
  | note _ next, s => next.Assures respond C post s

theorem stable_ends {C : Conduct σ} {good : α → σ → Prop} {bad : Error → σ → Prop}
    (hgood : ∀ a, C.Stable (good a)) (hbad : ∀ e, C.Stable (bad e)) (result : Except Error α) :
    C.Stable (Ends good bad result) := by
  cases result with
  | ok a => exact hgood a
  | error e => exact hbad e

section Fulfils

variable (respond : Responder Request Reply σ) (C : Conduct σ)

/-- From every state as required, a plan ends as wanted and does what it guarantees on the way. -/
def Fulfils (pre : σ → Prop) (p : Plan Request Reply α) (good : α → σ → Prop)
    (bad : Error → σ → Prop) : Prop :=
  ∀ s, pre s → p.Assures respond C (Ends good bad) s

variable {respond C} {pre : σ → Prop} {good : α → σ → Prop} {bad : Error → σ → Prop}
  {p : Plan Request Reply α}

theorem Assures.mono {post post' : Except Error α → σ → Prop} {s : σ}
    (h : p.Assures respond C post s) (hpost : ∀ result s, post result s → post' result s) :
    p.Assures respond C post' s := by
  induction p generalizing s with
  | done result => exact hpost result s h
  | ask r next ih => exact fun s' hs' => ⟨(h s' hs').1, ih _ (h s' hs').2⟩
  | note a next ih => exact ih h

/-- What others do before the first request makes no difference. -/
theorem Assures.of_relies (hC : C.Lawful) {post : Except Error α → σ → Prop}
    (hpost : ∀ result, C.Stable (post result)) {s s' : σ} (hs : C.relies s s')
    (h : p.Assures respond C post s) : p.Assures respond C post s' := by
  induction p with
  | done result => exact hpost result s s' hs h
  | ask r next ih => exact fun s₁ hs₁ => h s₁ (hC.trans _ _ _ hs hs₁)
  | note a next ih => exact ih h

theorem assures_andThen {f : Except Error α → Plan Request Reply β}
    {post : Except Error α → σ → Prop} {post' : Except Error β → σ → Prop} {s : σ}
    (hp : p.Assures respond C post s)
    (hf : ∀ result s, post result s → (f result).Assures respond C post' s) :
    (p.andThen f).Assures respond C post' s := by
  induction p generalizing s with
  | done result => exact hf result s hp
  | ask r next ih => exact fun s' hs' => ⟨(hp s' hs').1, ih _ (hp s' hs').2⟩
  | note a next ih => exact ih hp

theorem Fulfils.mono (h : Fulfils respond C pre p good bad) {pre' : σ → Prop} {good' : α → σ → Prop}
    {bad' : Error → σ → Prop} (hpre : ∀ s, pre' s → pre s) (hgood : ∀ a s, good a s → good' a s)
    (hbad : ∀ e s, bad e s → bad' e s) : Fulfils respond C pre' p good' bad' := by
  refine fun s hs => (h s (hpre s hs)).mono fun result s hend => ?_
  cases result with
  | ok a => exact hgood a s hend
  | error e => exact hbad e s hend

theorem fulfils_give {a : α} (h : ∀ s, pre s → good a s) :
    Fulfils respond C pre (give a : Plan Request Reply α) good bad := h

theorem fulfils_note {a : Activity} (h : Fulfils respond C pre p good bad) :
    Fulfils respond C pre (note a p) good bad := h

theorem fulfils_bind (mid : α → σ → Prop) {f : α → Plan Request Reply β} {good' : β → σ → Prop}
    (hp : Fulfils respond C pre p mid bad) (hf : ∀ a, Fulfils respond C (mid a) (f a) good' bad) :
    Fulfils respond C pre (p >>= f) good' bad := by
  refine fun s hs => assures_andThen (hp s hs) fun result s hend => ?_
  cases result with
  | ok a => exact hf a s hend
  | error e => exact hend

/-- A request may be asked in a state that others leave as it is required to be. -/
theorem fulfils_perform {r : Request} {good : Reply r → σ → Prop} (hpre : C.Stable pre)
    (h : ∀ s, pre s → C.guarantees s (respond r s).1 ∧ Ends good bad (respond r s).2 (respond r s).1) :
    Fulfils respond C pre (perform r : Plan Request Reply (Reply r)) good bad :=
  fun s hs s' hs' => h s' (hpre s s' hs' hs)

/-- An attempt does not fail. -/
theorem fulfils_attempt (h : Fulfils respond C pre p good bad) {bad' : Error → σ → Prop} :
    Fulfils respond C pre p.attempt (Ends good bad) bad' :=
  fun s hs => assures_andThen (h s hs) fun _ _ hend => hend

/-- What holds in either end of a plan holds after an attempt. -/
theorem fulfils_attempt_of {inv : σ → Prop} (h : Fulfils respond C pre p (fun _ => inv) fun _ => inv) :
    Fulfils respond C pre p.attempt (fun _ => inv) bad := by
  refine (fulfils_attempt h).mono (fun _ hs => hs) (fun result s hs => ?_) fun _ _ hs => hs
  cases result <;> exact hs

/-- What each step of a loop makes of what is left to do, the loop makes of all of it. -/
theorem fulfils_forEach (inv : List β → γ → σ → Prop) {step : γ → β → Plan Request Reply γ}
    {l : List β} (hstep : ∀ x rest, x :: rest <:+ l → ∀ state,
      Fulfils respond C (inv (x :: rest) state) (step state x) (inv rest) bad) (state : γ) :
    Fulfils respond C (inv l state) (forEach l state step) (inv []) bad := by
  induction l generalizing state with
  | nil => exact fun s hs => hs
  | cons x rest ih =>
      refine fulfils_bind _ (hstep x rest (List.suffix_refl _) state) fun state => ?_
      exact ih (fun y rest' hsuffix => hstep y rest' (hsuffix.trans (List.suffix_cons x rest))) state

theorem Assures.run {post : Except Error α → σ → Prop} {s : σ}
    (h : p.Assures respond (.alone σ) post s) : post (p.run respond s).2 (p.run respond s).1 := by
  induction p generalizing s with
  | done result => exact h
  | ask r next ih => exact ih _ (h s rfl).2
  | note a next ih => exact ih h

/-- Alone, a plan ends as it is wanted to. -/
theorem Fulfils.run (h : Fulfils respond (.alone σ) pre p good bad) {s s' : σ}
    {result : Except Error α} (hs : pre s) (hrun : p.run respond s = (s', result)) :
    Ends good bad result s' := by
  have hend := (h s hs).run
  rwa [hrun] at hend

end Fulfils

/-! ## Two plans -/

/-- Two plans are followed to their ends, a request of the one or of the other at a time. -/
inductive Interleaved (step : (r : Request) → σ → σ → Except Error (Reply r) → Prop) :
    Plan Request Reply α → Plan Request Reply β → σ → σ → Except Error α → Except Error β → Prop
  | ended (x : Except Error α) (y : Except Error β) (s : σ) : Interleaved step (done x) (done y) s s x y
  | left {r : Request} {next : Except Error (Reply r) → Plan Request Reply α} {q : Plan Request Reply β}
      {s s₁ s' : σ} {reply : Except Error (Reply r)} {x : Except Error α} {y : Except Error β}
      (hstep : step r s s₁ reply) (hrest : Interleaved step (next reply) q s₁ s' x y) :
      Interleaved step (ask r next) q s s' x y
  | right {r : Request} {p : Plan Request Reply α} {next : Except Error (Reply r) → Plan Request Reply β}
      {s s₁ s' : σ} {reply : Except Error (Reply r)} {x : Except Error α} {y : Except Error β}
      (hstep : step r s s₁ reply) (hrest : Interleaved step p (next reply) s₁ s' x y) :
      Interleaved step p (ask r next) s s' x y
  | noteLeft {a : Activity} {p : Plan Request Reply α} {q : Plan Request Reply β} {s s' : σ}
      {x : Except Error α} {y : Except Error β} (hrest : Interleaved step p q s s' x y) :
      Interleaved step (note a p) q s s' x y
  | noteRight {a : Activity} {p : Plan Request Reply α} {q : Plan Request Reply β} {s s' : σ}
      {x : Except Error α} {y : Except Error β} (hrest : Interleaved step p q s s' x y) :
      Interleaved step p (note a q) s s' x y

/-- A request is answered. -/
def Answered (answer : (r : Request) → σ → σ × Option (Except Error (Reply r))) (r : Request) (s s' : σ)
    (reply : Except Error (Reply r)) : Prop := answer r s = (s', some reply)

/-- Plans may be followed one after the other. -/
theorem interleaved_of_endsIn {answer : (r : Request) → σ → σ × Option (Except Error (Reply r))}
    {p : Plan Request Reply α} {q : Plan Request Reply β} {s s₁ s' : σ} {x : Except Error α}
    {y : Except Error β} (hp : p.EndsIn answer s s₁ x) (hq : q.EndsIn answer s₁ s' y) :
    Interleaved (Answered answer) p q s s' x y := by
  induction p generalizing s with
  | done result =>
      obtain ⟨rfl, hresult⟩ := hp
      cases hresult
      induction q generalizing s with
      | done result' =>
          obtain ⟨rfl, hresult'⟩ := hq
          cases hresult'
          exact .ended _ _ _
      | ask r next ih =>
          obtain ⟨s₂, reply, hanswer, hrest⟩ := endsIn_ask.1 hq
          exact .right hanswer (ih reply hrest)
      | note a q ih => exact .noteRight (ih hq)
  | ask r next ih =>
      obtain ⟨s₂, reply, hanswer, hrest⟩ := endsIn_ask.1 hp
      exact .left hanswer (ih reply hrest)
  | note a p ih => exact .noteLeft (ih hp)

/-- Two plans that each do what the other relies on both end as wanted, however they are interleaved. -/
theorem Interleaved.assures {step : (r : Request) → τ → τ → Except Error (Reply r) → Prop}
    {respond : Responder Request Reply σ} {view : τ → σ} {sound : τ → Prop}
    (hstep : ∀ r t t' reply, sound t → step r t t' reply →
      sound t' ∧ respond r (view t) = (view t', reply))
    {C C' : Conduct σ} (hC : C.Lawful) (hC' : C'.Lawful)
    (hleft : ∀ s s', C.guarantees s s' → C'.relies s s')
    (hright : ∀ s s', C'.guarantees s s' → C.relies s s')
    {post : Except Error α → σ → Prop} {post' : Except Error β → σ → Prop}
    (hpost : ∀ result, C.Stable (post result)) (hpost' : ∀ result, C'.Stable (post' result))
    {p : Plan Request Reply α} {q : Plan Request Reply β} {t t' : τ} {x : Except Error α}
    {y : Except Error β} (h : Interleaved step p q t t' x y) (ht : sound t)
    (hp : p.Assures respond C post (view t)) (hq : q.Assures respond C' post' (view t)) :
    sound t' ∧ post x (view t') ∧ post' y (view t') := by
  induction h with
  | ended x y t => exact ⟨ht, hp, hq⟩
  | left hask hrest ih =>
      obtain ⟨hsound, hrespond⟩ := hstep _ _ _ _ ht hask
      have hnext := hp _ (hC.refl _)
      rw [hrespond] at hnext
      exact ih hsound hnext.2 (hq.of_relies hC' hpost' (hleft _ _ hnext.1))
  | right hask hrest ih =>
      obtain ⟨hsound, hrespond⟩ := hstep _ _ _ _ ht hask
      have hnext := hq _ (hC'.refl _)
      rw [hrespond] at hnext
      exact ih hsound (hp.of_relies hC hpost (hright _ _ hnext.1)) hnext.2
  | noteLeft hrest ih => exact ih ht hp hq
  | noteRight hrest ih => exact ih ht hp hq

end Plan

end Inventory
