import Inventory.Proofs.Store.Cells
import Mathlib.Data.List.Induction

/-!
# Inventory.Proofs.Store.Expiry

What times to live are kept with.

No set and no hash is kept empty (`Command.filled_act`). A time to live goes with its value, with one
exception: it stays when fields are removed until a hash has none left, while a set that is emptied loses
its own. A key so stranded stays so until it is written or deleted (`Command.isStray_act`), and what is
written under it next inherits the time to live (`Node.expiry_unless_stranded`).
-/

namespace Inventory

/-- Whether a value is a set without members or a hash without fields. -/
def Value.isVoid : Value → Bool
  | .blob _ => false
  | .set members => members.isEmpty
  | .hash fields => fields.isEmpty

namespace Cell

/-- Whether a cell holds something, if it has a value. -/
def Filled (c : Cell) : Prop := ∀ v, c.value = some v → v.isVoid = false

/-- Whether a cell has a time to live and no value. -/
def IsStray (c : Cell) : Prop := c.ttl.isSome ∧ c.value = none

end Cell

/-! ## One command -/

namespace Command

variable {command : Command} {c : Cell}

/-- Whether a command takes the last fields of a hash with a time to live. -/
def Strands : Command → Cell → Prop
  | removeFields _ fields, c =>
    c.ttl.isSome ∧ ∃ old, c.value = some (.hash old) ∧ (old.eraseMany fields).isEmpty
  | _, _ => False

/-- Whether a command has nothing to do where there is no value. -/
def passesBy : Command → Bool
  | removeMembers .. | removeFields .. | expire .. => true
  | _ => false

/-- A command that has something to do leaves no set and no hash empty. -/
theorem filled_act (hnoop : command.isNoop = false) (h : c.Filled) : (command.act c).Filled := by
  intro v hv
  cases command with
  | set key value =>
      cases hv
      rfl
  | delete key => contradiction
  | addMembers key members =>
      obtain ⟨x, hx⟩ : ∃ x, x ∈ members := List.isEmpty_eq_false_iff_exists_mem.1 hnoop
      rcases hc : c.value with _ | content | old | fields <;> simp only [act, hc] at hv <;> cases hv
      · exact StringSet.isEmpty_eq_false_of_mem (x := x) (by simpa using hx)
      · rfl
      · exact StringSet.isEmpty_eq_false_of_mem (x := x) (by simp [hx])
      · exact h _ hc
  | removeMembers key members =>
      rcases hc : c.value with _ | content | old | fields <;> simp only [act, hc] at hv
      case some.set =>
        split at hv
        · contradiction
        · next hleft =>
          cases hv
          exact Bool.eq_false_iff.2 hleft
      all_goals exact h v (hc.trans hv)
  | setField key field value =>
      rcases hc : c.value with _ | content | old | fields <;> simp only [act, hc] at hv <;> cases hv
      · exact StringMap.isEmpty_eq_false_iff_exists_mem.2 ⟨field, by simp⟩
      · rfl
      · exact h _ hc
      · exact StringMap.isEmpty_eq_false_iff_exists_mem.2 ⟨field, by simp⟩
  | removeFields key fields =>
      rcases hc : c.value with _ | content | old | old <;> simp only [act, hc] at hv
      case some.hash =>
        split at hv
        · contradiction
        · next hleft =>
          cases hv
          exact Bool.eq_false_iff.2 hleft
      all_goals exact h v (hc.trans hv)
  | expire key seconds =>
      refine h v ?_
      rw [← hv, act]
      split <;> rfl

/-- A cell is stray after a command that strands it, or if it was before and has been passed by. -/
theorem isStray_act : (command.act c).IsStray ↔ command.Strands c ∨ c.IsStray ∧ command.passesBy := by
  cases command with
  | set key value => simp [act, Cell.IsStray, Strands, passesBy]
  | delete key => simp [act, Cell.IsStray, Strands, passesBy]
  | addMembers key members =>
      rcases hc : c.value with _ | _ | _ | _ <;> simp [act, Cell.IsStray, Strands, passesBy, hc]
  | removeMembers key members =>
      rcases hc : c.value with _ | _ | old | _
      case some.set =>
        by_cases hleft : old.eraseMany members = ∅ <;>
          simp [act, Cell.IsStray, Strands, passesBy, hc, hleft]
      all_goals simp [act, Cell.IsStray, Strands, passesBy, hc]
  | setField key field value =>
      rcases hc : c.value with _ | _ | _ | _ <;> simp [act, Cell.IsStray, Strands, passesBy, hc]
  | removeFields key fields =>
      rcases hc : c.value with _ | _ | _ | old
      case some.hash =>
        by_cases hleft : old.eraseMany fields = ∅ <;>
          simp [act, Cell.IsStray, Strands, passesBy, hc, hleft]
      all_goals simp [act, Cell.IsStray, Strands, passesBy, hc]
  | expire key seconds =>
      cases hc : c.value <;> simp [act, Cell.IsStray, Strands, passesBy, hc]

/-- A time to live that was not there before is one that the command sets. -/
theorem ttl_act {t : UInt64} (h : (command.act c).ttl = some t) :
    c.ttl = some t ∨ command = .expire command.key t := by
  cases command with
  | set key value => contradiction
  | delete key => contradiction
  | expire key seconds =>
      rw [act] at h
      split at h
      · cases h
        exact .inr rfl
      · exact .inl h
  | removeMembers key members =>
      simp only [act] at h
      split at h
      · split at h
        · contradiction
        · exact .inl h
      · exact .inl h
  | addMembers key members =>
      simp only [act] at h
      split at h <;> exact .inl h
  | setField key field value =>
      simp only [act] at h
      split at h <;> exact .inl h
  | removeFields key fields =>
      simp only [act] at h
      split at h
      · split at h <;> exact .inl h
      · exact .inl h

end Command

/-! ## Commands in order -/

namespace Cells

variable {m : Cells} {commands : List Command} {command : Command} {key : String}

/-- Whether commands leave a key stranded: one of them strands it, and those that come later pass it by. -/
def Strands (m : Cells) (commands : List Command) (key : String) : Prop :=
  ∃ before command after, commands = before ++ command :: after ∧ command.key = key ∧
    command.Strands (m.applyAll before key) ∧ ∀ c ∈ after, c.key = key → c.passesBy

theorem not_strands_nil : ¬ m.Strands [] key := by
  rintro ⟨before, command, after, h, -⟩
  simp at h

theorem strands_snoc : m.Strands (commands ++ [command]) key ↔
    command.key = key ∧ command.Strands (m.applyAll commands key) ∨
      m.Strands commands key ∧ (command.key = key → command.passesBy) := by
  constructor
  · rintro ⟨before, c, after, hsplit, hkey, hstrands, hafter⟩
    rcases List.eq_nil_or_concat after with rfl | ⟨after, last, rfl⟩
    · obtain ⟨rfl, hlast⟩ := List.append_inj' hsplit rfl
      cases hlast
      exact .inl ⟨hkey, hstrands⟩
    · rw [List.concat_eq_append, ← List.cons_append, ← List.append_assoc] at hsplit
      obtain ⟨rfl, hlast⟩ := List.append_inj' hsplit rfl
      cases hlast
      refine .inr ⟨⟨before, c, after, rfl, hkey, hstrands, fun d hd => ?_⟩, ?_⟩
      · exact hafter d (by simp [hd])
      · exact hafter command (by simp)
  · rintro (⟨hkey, hstrands⟩ | ⟨⟨before, c, after, rfl, hkey, hstrands, hafter⟩, hlast⟩)
    · exact ⟨commands, command, [], rfl, hkey, hstrands, by simp⟩
    · refine ⟨before, c, after ++ [command], by simp, hkey, hstrands, fun d hd => ?_⟩
      rcases List.mem_append.1 hd with hd | hd
      · exact hafter d hd
      · cases List.mem_singleton.1 hd
        exact hlast

/-- A key is stray after commands if they leave it stranded. -/
theorem isStray_applyAll (hm : ¬ (m key).IsStray) :
    (m.applyAll commands key).IsStray ↔ m.Strands commands key := by
  induction commands using List.reverseRecOn with
  | nil => exact iff_of_false hm not_strands_nil
  | append_singleton commands command ih =>
      rw [strands_snoc, ← ih, applyAll_append, applyAll_cons, applyAll_nil]
      by_cases hkey : command.key = key
      · rw [apply, if_pos hkey, Command.isStray_act]
        simp [hkey]
      · rw [apply_of_ne hkey]
        simp [hkey]

theorem filled_applyAll (hcommands : ∀ c ∈ commands, c.isNoop = false) (hm : (m key).Filled) :
    (m.applyAll commands key).Filled := by
  induction commands generalizing m with
  | nil => exact hm
  | cons command commands ih =>
      obtain ⟨hnoop, hrest⟩ := List.forall_mem_cons.1 hcommands
      refine ih hrest ?_
      rw [apply]
      split
      · exact Command.filled_act hnoop hm
      · exact hm

/-- Where there was no time to live, one is found only if it was set. -/
theorem expire_mem_of_ttl_applyAll {t : UInt64} (hm : (m key).ttl = none)
    (h : (m.applyAll commands key).ttl = some t) : .expire key t ∈ commands := by
  induction commands using List.reverseRecOn with
  | nil =>
      rw [applyAll_nil, hm] at h
      contradiction
  | append_singleton commands command ih =>
      rw [applyAll_append, applyAll_cons, applyAll_nil, apply] at h
      rw [List.mem_append, List.mem_singleton]
      split at h
      · next hkey =>
        rcases Command.ttl_act h with hold | hset
        · exact .inl (ih hold)
        · exact .inr (hkey ▸ hset.symm)
      · exact .inl (ih h)

end Cells

/-! ## A node and what happens to it -/

namespace Node

/-- What happens to a node: a batch is sent to it, or it comes to misbehave in other ways. -/
inductive Event where
  | batch (commands : List Command)
  | faults (faults : Faults)

/-- A node after an event. -/
def after (n : Node) : Event → Node
  | .batch commands => (n.write (Command.batch commands)).1
  | .faults faults => { n with faults }

/-- A node after events in order. -/
def run (n : Node) (events : List Event) : Node := events.foldl after n

/-- The commands that a node carries out at an event. -/
def accepted (n : Node) : Event → List Command
  | .batch commands =>
    if n.faults.stallWrites || n.faults.failWrites then [] else Command.batch commands
  | .faults _ => []

/-- The commands that a node carries out at events in order. -/
def carriedOut (n : Node) : List Event → List Command
  | [] => []
  | event :: events => n.accepted event ++ (n.after event).carriedOut events

theorem cells_after (n : Node) (event : Event) :
    (n.after event).cells = n.cells.applyAll (n.accepted event) := by
  cases event with
  | faults faults => rfl
  | batch commands =>
      rw [← cells_applyAll]
      simp only [after, write, accepted]
      cases n.faults.stallWrites <;> cases n.faults.failWrites <;> rfl

theorem cells_run (n : Node) (events : List Event) :
    (n.run events).cells = n.cells.applyAll (n.carriedOut events) := by
  induction events generalizing n with
  | nil => rfl
  | cons event events ih =>
      rw [carriedOut, Cells.applyAll_append, ← cells_after]
      exact ih (n.after event)

/-- Whatever a node carries out has something to do. -/
theorem isNoop_of_mem_carriedOut {n : Node} {events : List Event} :
    ∀ c ∈ n.carriedOut events, c.isNoop = false := by
  induction events generalizing n with
  | nil => simp [carriedOut]
  | cons event events ih =>
      intro c hc
      rw [carriedOut, List.mem_append] at hc
      rcases hc with hc | hc
      · cases event with
        | faults faults => simp [accepted] at hc
        | batch commands =>
            rw [accepted] at hc
            split at hc
            · simp at hc
            · simpa [Command.batch] using (List.mem_filter.1 hc).2
      · exact ih c hc

/-! ## Times to live of a new node -/

/-- Whether what happened to a new node has left a key stranded. -/
def Stranded (name : String) (events : List Event) (key : String) : Prop :=
  Cells.Strands (fun _ => {}) (carriedOut { name } events) key

variable {name : String} {events : List Event} {key : String}

theorem cells_run_new :
    (run { name } events).cells = Cells.applyAll (fun _ => {}) (carriedOut { name } events) := by
  rw [cells_run]
  congr 1

theorem isStray_run : ((run { name } events).cells key).IsStray ↔ Stranded name events key := by
  rw [cells_run_new, Cells.isStray_applyAll (by simp [Cell.IsStray]), Stranded]

theorem mem_values_iff (n : Node) : key ∈ n.values ↔ (n.cells key).value.isSome :=
  Std.ExtTreeMap.mem_iff_isSome_getElem?

theorem mem_ttls_iff (n : Node) : key ∈ n.ttls ↔ (n.cells key).ttl.isSome :=
  Std.ExtTreeMap.mem_iff_isSome_getElem?

/-- A stray key hands its time to live on to what is written under it. -/
theorem exists_run_of_isStray {n : Node} (h : (n.cells key).IsStray) :
    ∃ later t, key ∈ (n.run later).values ∧ (n.run later).ttls[key]? = some t ∧
      .expire key t ∉ n.carriedOut later := by
  obtain ⟨httl, hvalue⟩ := h
  obtain ⟨t, ht⟩ := Option.isSome_iff_exists.1 httl
  have hcommands : n.carriedOut [.faults {}, .batch [.setField key "" []]] =
      [.setField key "" []] := rfl
  have hcell : (n.run [.faults {}, .batch [.setField key "" []]]).cells key =
      ⟨some (.hash (.ofList [("", [])])), some t⟩ := by
    rw [cells_run, hcommands, Cells.applyAll_cons, Cells.applyAll_nil, Cells.apply]
    simp [Command.key, Command.act, hvalue, ht]
  refine ⟨_, t, (mem_values_iff _).2 ?_, congrArg Cell.ttl hcell, ?_⟩
  · rw [hcell]
    rfl
  · rw [hcommands]
    simp

/-- No set and no hash is kept empty. A key with a time to live has a value unless it has been left
stranded. Only then does what is written next under a key without a value inherit a time to live: it has
none but one that was set since. -/
theorem expiry_unless_stranded (name : String) (events : List Event) :
    let n := run { name } events
    (∀ (key : String) (v : Value), n.values[key]? = some v → v.isVoid = false) ∧
    ∀ key, ((key ∈ n.ttls → key ∈ n.values) ↔ ¬ Stranded name events key) ∧
      (key ∉ n.values →
        ((∀ later t, key ∈ (n.run later).values → (n.run later).ttls[key]? = some t →
          .expire key t ∈ n.carriedOut later) ↔ ¬ Stranded name events key)) := by
  intro n
  have hcells : n.cells = Cells.applyAll (fun _ => {}) (carriedOut { name } events) := cells_run_new
  have hstray : ∀ key, (n.cells key).IsStray ↔ Stranded name events key := fun _ => isStray_run
  refine ⟨fun key v hv => ?_, fun key => ⟨?_, fun hmem => ⟨fun hset hstranded => ?_, fun hnot => ?_⟩⟩⟩
  · have hfilled : (n.cells key).Filled :=
      hcells ▸ Cells.filled_applyAll isNoop_of_mem_carriedOut nofun
    exact hfilled v hv
  · rw [← hstray, mem_ttls_iff, mem_values_iff, Cell.IsStray]
    cases (n.cells key).value <;> simp
  · obtain ⟨later, t, hagain, httl, hexpire⟩ := exists_run_of_isStray ((hstray key).2 hstranded)
    exact hexpire (hset later t hagain httl)
  · intro later t _ httl
    have hvalue : (n.cells key).value = none := by
      rwa [mem_values_iff, Bool.not_eq_true, Option.isSome_eq_false_iff, Option.isNone_iff_eq_none] at hmem
    have hnone : (n.cells key).ttl = none := by
      rw [← Option.isNone_iff_eq_none, ← Option.isSome_eq_false_iff, ← Bool.not_eq_true]
      exact fun hsome => hnot ((hstray key).1 ⟨hsome, hvalue⟩)
    exact Cells.expire_mem_of_ttl_applyAll hnone ((congrFun (n.cells_run later) key) ▸ httl)

/-- A hash that expires, loses its last field and is made again. -/
theorem hash_inherits_expiry :
    let n := run { name := "kv" }
      [.batch [.setField "h" "f" [1], .expire "h" 60], .batch [.removeFields "h" ["f"]]]
    "h" ∈ n.ttls ∧ "h" ∉ n.values ∧
      let again := n.run [.batch [.setField "h" "f" [2]]]
      "h" ∈ again.values ∧ again.ttls["h"]? = some 60 := by
  decide

end Node

end Inventory
