import Inventory.Cache.KeyValue.Write
import Inventory.Proofs.Plan.Alongside
import Inventory.Proofs.Store.Routing

/-!
# Inventory.Proofs.KeyValue.Overlapping

Work on a store that asks one question and then has one batch carried out, next to other such work.

The batch depends on the answer to the question (`Plan.batch`), and that is all the interest such work takes
in the store. So however the requests of two plans of this kind are interleaved, the batches are carried out
one after the other, and all that remains open is whether the second was put together before the first was
carried out (`Plan.Interleaved.eitherOrder`). It may have been (`Plan.exists_interleaved_overtaken`).
-/

namespace Inventory

namespace Plan

variable {α β : Type}

/-! ## Plans with one batch -/

/-- Nothing is asked of the store any more. -/
def Idle : StorePlan α → Prop
  | done _ => True
  | ask _ _ => False
  | note _ next => next.Idle

/-- At most one batch is carried out, and no question is asked for it. -/
def Decided : StorePlan α → Prop
  | done _ => True
  | ask (.read _) _ => False
  | ask (.write _) next => ∀ reply, (next reply).Idle
  | note _ next => next.Decided

/-- At most one batch is carried out, and at most one question is asked for it. -/
def Brief : StorePlan α → Prop
  | done _ => True
  | ask (.read _) next => ∀ reply, (next reply).Decided
  | ask (.write _) next => ∀ reply, (next reply).Idle
  | note _ next => next.Brief

/-- The batch of a plan whose question is answered from some cells. -/
def batch (m : Cells) : StorePlan α → List Command
  | done _ => []
  | ask (.read q) next => (next (m.lookup q)).batch m
  | ask (.write commands) _ => commands
  | note _ next => next.batch m

variable {p : StorePlan α} {q : StorePlan β}

theorem Idle.decided (h : p.Idle) : p.Decided := by
  induction p with
  | done result => trivial
  | ask r next ih => exact h.elim
  | note a next ih => exact ih h

theorem Decided.brief (h : p.Decided) : p.Brief := by
  induction p with
  | done result => trivial
  | ask r next ih =>
      cases r with
      | read q => exact h.elim
      | write commands => exact h
  | note a next ih => exact ih h

theorem Idle.batch_eq (h : p.Idle) (m : Cells) : p.batch m = [] := by
  induction p with
  | done result => rfl
  | ask r next ih => exact h.elim
  | note a next ih => exact ih h

/-- A batch for which no question is asked is the same whatever is there. -/
theorem Decided.batch_congr (h : p.Decided) (m m' : Cells) : p.batch m = p.batch m' := by
  induction p with
  | done result => rfl
  | ask r next ih =>
      cases r with
      | read q => exact h.elim
      | write commands => rfl
  | note a next ih => exact ih h

/-! ### With more to do afterwards -/

section AndThen

variable {f : Except Error α → StorePlan β} (hf : ∀ x, (f x).Idle)

include hf

theorem Idle.andThen (h : p.Idle) : (p.andThen f).Idle := by
  induction p with
  | done result => exact hf result
  | ask r next ih => exact h.elim
  | note a next ih => exact ih h

theorem Decided.andThen (h : p.Decided) : (p.andThen f).Decided := by
  induction p with
  | done result => exact (hf result).decided
  | ask r next ih =>
      cases r with
      | read q => exact h.elim
      | write commands => exact fun reply => (h reply).andThen hf
  | note a next ih => exact ih h

theorem Decided.batch_andThen (h : p.Decided) (m : Cells) : (p.andThen f).batch m = p.batch m := by
  induction p with
  | done result => exact (hf result).batch_eq m
  | ask r next ih =>
      cases r with
      | read q => exact h.elim
      | write commands => rfl
  | note a next ih => exact ih h

/-- What is done after a plan does not matter if nothing is asked for it. -/
theorem Brief.andThen (h : p.Brief) :
    (p.andThen f).Brief ∧ ∀ m, (p.andThen f).batch m = p.batch m := by
  induction p with
  | done result => exact ⟨(hf result).decided.brief, (hf result).batch_eq⟩
  | ask r next ih =>
      cases r with
      | read q => exact ⟨fun reply => (h reply).andThen hf, fun m => (h _).batch_andThen hf m⟩
      | write commands => exact ⟨fun reply => (h reply).andThen hf, fun m => rfl⟩
  | note a next ih => exact ih h

end AndThen

theorem Brief.bind {f : α → StorePlan β} (h : p.Brief) (hf : ∀ a, (f a).Idle) :
    (p >>= f).Brief ∧ ∀ m, (p >>= f).batch m = p.batch m := by
  refine h.andThen fun x => ?_
  cases x with
  | ok a => exact hf a
  | error e => trivial

/-! ### Carried out -/

theorem Idle.run_fst (h : p.Idle) (m : Cells) : (p.run Cells.respond m).1 = m := by
  induction p with
  | done result => rfl
  | ask r next ih => exact h.elim
  | note a next ih => exact ih h

theorem Decided.run_fst (h : p.Decided) (m : Cells) :
    (p.run Cells.respond m).1 = m.applyAll (p.batch m) := by
  induction p with
  | done result => rfl
  | ask r next ih =>
      cases r with
      | read q => exact h.elim
      | write commands => exact (h _).run_fst _
  | note a next ih => exact ih h

/-- What becomes of the store is what the batch makes of it. -/
theorem Brief.run_fst (h : p.Brief) (m : Cells) :
    (p.run Cells.respond m).1 = m.applyAll (p.batch m) := by
  induction p with
  | done result => rfl
  | ask r next ih =>
      cases r with
      | read q => exact (h _).run_fst m
      | write commands => exact (h _).run_fst _
  | note a next ih => exact ih h

/-! ## Two plans -/

/-- One plan is carried out and then another one, for which the question may have been asked before. -/
def Followed (p : StorePlan α) (q : StorePlan β) (m m' : Cells) : Prop :=
  ∃ seen, (seen = m ∨ seen = m.applyAll (p.batch m)) ∧
    m' = (m.applyAll (p.batch m)).applyAll (q.batch seen)

/-- Two plans are carried out in the one order or in the other. -/
def EitherOrder (p : StorePlan α) (q : StorePlan β) (m m' : Cells) : Prop :=
  Followed p q m m' ∨ Followed q p m m'

/-- A request of one of two plans does not change what they may come to. -/
theorem EitherOrder.ask {r : StoreRequest} {next : Except Error r.Reply → StorePlan α} {m m' : Cells}
    (hp : (Plan.ask r next).Brief)
    (h : EitherOrder (next (Cells.respond r m).2) q (Cells.respond r m).1 m') :
    EitherOrder (Plan.ask r next) q m m' := by
  cases r with
  | read question =>
      -- The batch of what is left is decided on.
      have hbatch : ∀ seen, (next (m.lookup question)).batch seen = (next (m.lookup question)).batch m :=
        fun seen => (hp (m.lookup question)).batch_congr seen m
      refine h.imp_right ?_
      rintro ⟨seen, -, rfl⟩
      exact ⟨m, .inl rfl, congrArg _ (hbatch seen)⟩
  | write commands =>
      -- Nothing is left of the plan, so the other one is carried out after it.
      have hbatch : ∀ seen, (next (.ok ())).batch seen = [] := (hp (.ok ())).batch_eq
      have hrest : EitherOrder (next (.ok ())) q (m.applyAll commands) m' := h
      refine .inl ⟨m.applyAll commands, .inr rfl, ?_⟩
      rcases hrest with ⟨seen, hseen, rfl⟩ | ⟨seen, -, rfl⟩
      · rw [hbatch] at hseen ⊢
        rcases hseen with rfl | rfl <;> rfl
      · rw [hbatch]
        rfl

theorem Brief.next {r : StoreRequest} {next : Except Error r.Reply → StorePlan α}
    (h : (Plan.ask r next).Brief) (reply : Except Error r.Reply) : (next reply).Brief := by
  cases r with
  | read question => exact (h reply).brief
  | write commands => exact (h reply).decided.brief

variable {s s' : Store} {x : Except Error α} {y : Except Error β}

/-- However the requests of two plans are interleaved, the plans are carried out in either order. -/
theorem Interleaved.eitherOrder (h : Interleaved (Answered Store.answer) p q s s' x y) (hp : p.Brief)
    (hq : q.Brief) (hs : s.Healthy) : s'.Healthy ∧ EitherOrder p q s.cells s'.cells := by
  induction h with
  | ended x y s => exact ⟨hs, .inl ⟨s.cells, .inl rfl, rfl⟩⟩
  | left hstep hrest ih =>
      obtain ⟨hs₁, hrespond⟩ := hs.answer hstep
      obtain ⟨hs', hends⟩ := ih (hp.next _) hq hs₁
      refine ⟨hs', EitherOrder.ask hp ?_⟩
      rwa [hrespond]
  | right hstep hrest ih =>
      obtain ⟨hs₁, hrespond⟩ := hs.answer hstep
      obtain ⟨hs', hends⟩ := ih hp (hq.next _) hs₁
      refine ⟨hs', Or.symm (EitherOrder.ask hq ?_)⟩
      rw [hrespond]
      exact hends.symm
  | noteLeft hrest ih => exact ih hp hq hs
  | noteRight hrest ih => exact ih hp hq hs

/-- Two plans may be carried out one after the other. -/
theorem exists_interleaved_inTurn (hp : p.Brief) (hq : q.Brief) (hs : s.Healthy) :
    ∃ s' x y, Interleaved (Answered Store.answer) p q s s' x y ∧ s'.Healthy ∧
      s'.cells = (s.cells.applyAll (p.batch s.cells)).applyAll
        (q.batch (s.cells.applyAll (p.batch s.cells))) := by
  obtain ⟨s₁, hends, hs₁, hcells⟩ := Store.endsIn_of_healthy hs p
  obtain ⟨s', hends', hs', hcells'⟩ := Store.endsIn_of_healthy hs₁ q
  refine ⟨s', _, _, interleaved_of_endsIn hends hends', hs', ?_⟩
  rw [hcells', hq.run_fst, hcells, hp.run_fst]

/-- One plan may be carried out after the question of the other one has been answered and before its batch
is carried out. -/
theorem exists_interleaved_overtaken (hp : p.Brief) (hq : q.Brief) (hs : s.Healthy) :
    ∃ s' x y, Interleaved (Answered Store.answer) p q s s' x y ∧ s'.Healthy ∧
      s'.cells = (s.cells.applyAll (p.batch s.cells)).applyAll (q.batch s.cells) := by
  induction q with
  | done y => exact exists_interleaved_inTurn hp hq hs
  | ask r next ih =>
      cases r with
      | read question =>
          obtain ⟨s₁, hanswer, hs₁, hcells⟩ := hs.exists_answer (.read question)
          obtain ⟨s', x, y, h, hs', hends⟩ := exists_interleaved_inTurn hp (hq.next _) hs₁
          refine ⟨s', x, y, .right hanswer h, hs', ?_⟩
          have hsame : s₁.cells = s.cells := hcells
          rw [hends, hsame, (hq _).batch_congr _ s.cells]
          rfl
      | write commands => exact exists_interleaved_inTurn hp hq hs
  | note a q ih =>
      obtain ⟨s', x, y, h, hs', hcells⟩ := ih hq
      exact ⟨s', x, y, .noteRight h, hs', hcells⟩

end Plan

end Inventory
