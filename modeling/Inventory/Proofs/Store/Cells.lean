import Inventory.Proofs.Plan.Run
import Inventory.Proofs.Collections

/-!
# Inventory.Proofs.Store.Cells

A store, key by key.

Every command changes one key and looks at no other, so a node is its cells (`Node.cells`) and a
batch acts on each cell by the commands of its key (`Cells.applyAll_eq_foldl`). Questions are
answered from the cells alone. What is proved of cells therefore holds of every way to keep them,
in one node or in several.
-/

namespace Inventory

/-- What a store holds under one key. -/
@[ext] structure Cell where
  value : Option Value := none
  ttl : Option UInt64 := none

/-- What a store holds under each key. -/
abbrev Cells := String → Cell

namespace Cell

/-- The blob in a cell. -/
def blob? (c : Cell) : Option Bytes :=
  match c.value with
  | some (.blob content) => some content
  | _ => none

/-- The set in a cell, empty if there is none. -/
def members (c : Cell) : StringSet :=
  match c.value with
  | some (.set members) => members
  | _ => ∅

/-- A field of the hash in a cell. -/
def field? (c : Cell) (field : String) : Option Bytes :=
  match c.value with
  | some (.hash fields) => fields[field]?
  | _ => none

end Cell

/-! ## Adding to a set -/

namespace Cell

/-- The cell with more members in its set and possibly another time to live. A value of another
kind stays. -/
def gain (members : List String) (ttl : Option UInt64) (c : Cell) : Cell where
  value := match c.value with
    | none => some (.set (.ofList members))
    | some (.set old) => some (.set (old.insertMany members))
    | some v => some v
  ttl := ttl <|> c.ttl

variable {c : Cell} {xs ys : List String} {t u : Option UInt64}

/-- Only what is among the members counts. -/
theorem gain_congr (h : ∀ x, x ∈ xs ↔ x ∈ ys) : c.gain xs t = c.gain ys t := by
  have hof : (Std.ExtTreeSet.ofList xs : StringSet) = .ofList ys :=
    Std.ExtTreeSet.ext_mem fun x => by simp [h]
  have hinsert : ∀ s : StringSet, s.insertMany xs = s.insertMany ys := fun s =>
    Std.ExtTreeSet.ext_mem fun x => by simp [h]
  simp only [gain, hof, hinsert]

theorem gain_gain : (c.gain xs t).gain ys u = c.gain (xs ++ ys) (u <|> t) := by
  have hof : (Std.ExtTreeSet.ofList xs : StringSet).insertMany ys = .ofList (xs ++ ys) :=
    Std.ExtTreeSet.ext_mem fun x => by simp
  have hinsert : ∀ s : StringSet, (s.insertMany xs).insertMany ys = s.insertMany (xs ++ ys) :=
    fun s => Std.ExtTreeSet.ext_mem fun x => by simp [or_assoc]
  refine Cell.ext ?_ ?_
  · rcases hv : c.value with _ | (_ | s | _) <;> simp [gain, hv, hof, hinsert]
  · cases u <;> rfl

/-- What was gained is not gained again. -/
theorem gain_self : (c.gain xs t).gain xs t = c.gain xs t := by
  have httl : (t <|> t) = t := by cases t <;> rfl
  rw [gain_gain, httl]
  exact gain_congr fun x => by simp

/-- What was gained before something else is not gained again. -/
theorem gain_gain_gain : ((c.gain xs t).gain ys u).gain xs t = (c.gain ys u).gain xs t := by
  have httl : ((t <|> u) <|> t) = (t <|> u) := by cases t <;> cases u <;> rfl
  rw [gain_gain, gain_gain, gain_gain, httl]
  exact gain_congr fun x => by grind

/-- The cell with more members in its set, or as it is if there are none to add. -/
def add (members : List String) (c : Cell) : Cell :=
  if members.isEmpty then c else c.gain members none

theorem add_congr (h : ∀ x, x ∈ xs ↔ x ∈ ys) : c.add xs = c.add ys := by
  have hempty : xs.isEmpty = ys.isEmpty := by
    rw [Bool.eq_iff_iff, List.isEmpty_iff, List.isEmpty_iff, List.eq_nil_iff_forall_not_mem,
      List.eq_nil_iff_forall_not_mem]
    simp only [h]
  rw [add, add, hempty, gain_congr h]

theorem add_append : c.add (xs ++ ys) = (c.add xs).add ys := by
  cases xs with
  | nil => rfl
  | cons x xs =>
      cases ys with
      | nil => simp [add]
      | cons y ys => exact (gain_gain (t := none) (u := none)).symm

/-- Whether members can be put into a cell. -/
def takesMembers (c : Cell) : Bool :=
  match c.value with
  | none | some (.set _) => true
  | _ => false

@[simp] theorem takesMembers_gain : (c.gain xs t).takesMembers = c.takesMembers := by
  rcases hv : c.value with _ | _ | _ | _ <;> simp [takesMembers, gain, hv]

theorem mem_members_gain (h : c.takesMembers) (x : String) :
    x ∈ (c.gain xs t).members ↔ x ∈ c.members ∨ x ∈ xs := by
  rcases hv : c.value with _ | _ | _ | _ <;> simp_all [takesMembers, gain, members]

@[simp] theorem takesMembers_add : (c.add xs).takesMembers = c.takesMembers := by
  rw [add]
  split
  · rfl
  · exact takesMembers_gain

theorem mem_members_add (h : c.takesMembers) (x : String) :
    x ∈ (c.add xs).members ↔ x ∈ c.members ∨ x ∈ xs := by
  rw [add]
  split
  · next he => simp [List.isEmpty_iff.1 he]
  · exact mem_members_gain h x

/-- The cell with a new time to live, if it has a value and one is given. -/
def expiring (ttl : Option UInt64) (c : Cell) : Cell :=
  match ttl with
  | some seconds => if c.value.isSome then { c with ttl := some seconds } else c
  | none => c

@[simp] theorem value_expiring : (c.expiring t).value = c.value := by
  cases t with
  | none => rfl
  | some seconds => simp only [expiring]; split <;> rfl

theorem expiring_gain : (c.gain xs none).expiring t = c.gain xs t := by
  rcases hv : c.value with _ | _ | _ | _ <;> cases t <;> simp [gain, expiring, hv]

end Cell

/-! ## Commands on a cell -/

namespace Command

/-- What a command makes of the cell under its key. -/
def act : Command → Cell → Cell
  | .set _ value, _ => ⟨some (.blob value), none⟩
  | .delete _, _ => {}
  | .addMembers _ members, c =>
    match c.value with
    | none => { c with value := some (.set (.ofList members)) }
    | some (.set old) => { c with value := some (.set (old.insertMany members)) }
    | some _ => c
  | .removeMembers _ members, c =>
    match c.value with
    | some (.set old) =>
      let left := old.eraseMany members
      if left.isEmpty then {} else { c with value := some (.set left) }
    | _ => c
  | .setField _ field value, c =>
    match c.value with
    | none => { c with value := some (.hash (.ofList [(field, value)])) }
    | some (.hash old) => { c with value := some (.hash (old.insert field value)) }
    | some _ => c
  | .removeFields _ fields, c =>
    match c.value with
    | some (.hash old) =>
      let left := old.eraseMany fields
      if left.isEmpty then { c with value := none } else { c with value := some (.hash left) }
    | _ => c
  | .expire _ seconds, c => if c.value.isSome then { c with ttl := some seconds } else c

theorem act_addMembers (key : String) (members : List String) (c : Cell) :
    (addMembers key members).act c = c.gain members none := by
  rcases hv : c.value with _ | _ | _ | _ <;> simp [act, Cell.gain, Cell.ext_iff, hv]

end Command

namespace Cells

/-- The cells after a command. -/
def apply (m : Cells) (c : Command) : Cells := fun key => if c.key = key then c.act (m key) else m key

/-- The cells after commands in order. -/
def applyAll (m : Cells) (commands : List Command) : Cells := commands.foldl apply m

@[simp] theorem applyAll_nil (m : Cells) : m.applyAll [] = m := rfl

@[simp] theorem applyAll_cons (m : Cells) (c : Command) (commands : List Command) :
    m.applyAll (c :: commands) = (m.apply c).applyAll commands := rfl

@[simp] theorem applyAll_append (m : Cells) (xs ys : List Command) :
    m.applyAll (xs ++ ys) = (m.applyAll xs).applyAll ys := List.foldl_append

/-- Commands made for each element of a list are carried out element by element. -/
theorem applyAll_flatMap {α : Type} (m : Cells) (l : List α) (commands : α → List Command) :
    m.applyAll (l.flatMap commands) = l.foldl (fun m x => m.applyAll (commands x)) m := by
  induction l generalizing m with
  | nil => rfl
  | cons x l ih => rw [List.flatMap_cons, applyAll_append, ih, List.foldl_cons]

theorem apply_of_ne {m : Cells} {c : Command} {key : String} (h : c.key ≠ key) :
    m.apply c key = m key := if_neg h

/-- A cell changes by the commands of its own key only, in their order. -/
theorem applyAll_eq_foldl (m : Cells) (commands : List Command) (key : String) :
    m.applyAll commands key =
      (commands.filter fun c => c.key = key).foldl (fun cell c => c.act cell) (m key) := by
  induction commands generalizing m with
  | nil => rfl
  | cons c commands ih =>
      rw [applyAll_cons, ih]
      by_cases h : c.key = key
      · rw [List.filter_cons_of_pos (by simpa using h), List.foldl_cons, apply, if_pos h]
      · rw [List.filter_cons_of_neg (by simpa using h), apply_of_ne h]

/-- Commands on other keys leave a cell as it is. -/
theorem applyAll_of_forall_ne {m : Cells} {commands : List Command} {key : String}
    (h : ∀ c ∈ commands, c.key ≠ key) : m.applyAll commands key = m key := by
  rw [applyAll_eq_foldl, List.filter_eq_nil_iff.2 (by simpa using h), List.foldl_nil]

/-- Adding members, or doing without the command if there are none. -/
theorem applyAll_addMembers (m : Cells) (key : String) (members : List String) (key' : String) :
    m.applyAll (Command.batch [.addMembers key members]) key' =
      if key = key' then (m key').add members else m key' := by
  cases members with
  | nil => simp [Command.batch, Command.isNoop, Cell.add]
  | cons x members =>
      simp only [Command.batch, Command.isNoop, List.isEmpty_cons, Bool.not_false, List.filter_cons,
        List.filter_nil, if_true, applyAll_cons, applyAll_nil, apply, Command.key, Cell.add,
        Command.act_addMembers, Bool.false_eq_true, if_false]

/-- Commands on different keys may change places. -/
theorem applyAll_comm {m : Cells} {xs ys : List Command}
    (h : ∀ c ∈ xs, ∀ d ∈ ys, c.key ≠ d.key) :
    (m.applyAll xs).applyAll ys = (m.applyAll ys).applyAll xs := by
  funext key
  by_cases hx : ∃ c ∈ xs, c.key = key
  · obtain ⟨c, hc, rfl⟩ := hx
    have hy : ∀ d ∈ ys, d.key ≠ c.key := fun d hd => (h c hc d hd).symm
    rw [applyAll_of_forall_ne hy, applyAll_eq_foldl, applyAll_eq_foldl _ _ c.key,
      applyAll_of_forall_ne hy]
  · have hx : ∀ c ∈ xs, c.key ≠ key := fun c hc hk => hx ⟨c, hc, hk⟩
    rw [applyAll_of_forall_ne hx, applyAll_eq_foldl, applyAll_eq_foldl _ ys,
      applyAll_of_forall_ne hx]

/-- Of two kinds of commands for each element of a list, on different keys, the second may be carried
out for all elements before the first. -/
theorem applyAll_flatMap_append {α : Type} (m : Cells) (l : List α) (first second : α → List Command)
    (h : ∀ x y, ∀ c ∈ first x, ∀ d ∈ second y, c.key ≠ d.key) :
    m.applyAll (l.flatMap fun x => first x ++ second x) =
      (m.applyAll (l.flatMap second)).applyAll (l.flatMap first) := by
  induction l generalizing m with
  | nil => rfl
  | cons x l ih =>
      have hcomm : (m.applyAll (first x)).applyAll ((x :: l).flatMap second) =
          (m.applyAll ((x :: l).flatMap second)).applyAll (first x) := by
        refine applyAll_comm fun c hc d hd => ?_
        obtain ⟨y, -, hd⟩ := List.mem_flatMap.1 hd
        exact h x y c hc d hd
      rw [List.flatMap_cons, applyAll_append, ih, applyAll_append, ← applyAll_append _ (second x),
        ← List.flatMap_cons, hcomm, List.flatMap_cons (f := first), applyAll_append]

/-! ## Answering -/

/-- The answer to a question. -/
def lookup (m : Cells) : (q : Query) → Except Error q.Reply
  | .blobs keys => .ok (keys.map fun key => (m key).blob?)
  | .hashFields key fields => .ok (fields.map (m key).field?)
  | .sets keys => .ok (keys.map fun key => (m key).members)
  | .scan key none => .ok (m key).members
  | .scan key (some glob) => do
    let pattern ← Glob.compile glob
    return (m key).members.filter (Glob.isMatch pattern)
  | .contains key texts => .ok (texts.map (m key).members.contains)

/-- Cells that answer every read, refuse the writes to some keys and say something to every batch. -/
def respondPartly (refuses : String → Bool) (reply : List Command → Except Error Unit) :
    Plan.Responder StoreRequest StoreRequest.Reply Cells
  | .read q, m => (m, m.lookup q)
  | .write batch, m => (fun key => if refuses key then m key else m.applyAll batch key, reply batch)

/-- Cells that answer every request. -/
def respond : Plan.Responder StoreRequest StoreRequest.Reply Cells
  | .read q, m => (m, m.lookup q)
  | .write batch, m => (m.applyAll batch, .ok ())

theorem respondPartly_none : respondPartly (fun _ => false) (fun _ => .ok ()) = respond := by
  funext r m
  cases r <;> rfl

end Cells

/-! ## The cells of a node -/

namespace Node

/-- What a node holds under each key. -/
def cells (n : Node) : Cells := fun key => ⟨n.values[key]?, n.ttls[key]?⟩

theorem cells_put (n : Node) (key : String) (value : Value) (k : String) :
    (n.put key value).cells k =
      if key = k then { n.cells k with value := some value } else n.cells k := by
  by_cases h : key = k <;> simp [cells, put, h, Std.ExtTreeMap.getElem?_insert]

theorem cells_dropValue (n : Node) (key k : String) :
    (n.dropValue key).cells k = if key = k then { n.cells k with value := none } else n.cells k := by
  by_cases h : key = k <;> simp [cells, dropValue, h, Std.ExtTreeMap.getElem?_erase]

theorem cells_dropTtl (n : Node) (key k : String) :
    (n.dropTtl key).cells k = if key = k then { n.cells k with ttl := none } else n.cells k := by
  by_cases h : key = k <;> simp [cells, dropTtl, h, Std.ExtTreeMap.getElem?_erase]

/-- A node carries out a command as its cells do. -/
theorem cells_apply (n : Node) (c : Command) : (n.apply c).cells = n.cells.apply c := by
  funext k
  have hvalue : ∀ key, (n.cells key).value = n.values[key]? := fun _ => rfl
  by_cases h : c.key = k
  · subst h
    rw [Cells.apply, if_pos rfl]
    cases c with
    | set key value => simp [apply, cells_put, cells_dropTtl, Command.key, Command.act]
    | delete key => simp [apply, cells_dropValue, cells_dropTtl, Command.key, Command.act]
    | addMembers key members =>
        simp only [apply, Command.key, Command.act, hvalue]
        cases hv : n.values[key]? with
        | none => simp [cells_put]
        | some v => cases v <;> simp [cells_put]
    | removeMembers key members =>
        simp only [apply, Command.key, Command.act, hvalue]
        cases hv : n.values[key]? with
        | none => rfl
        | some v =>
            cases v with
            | set old =>
                by_cases he : (old.eraseMany members).isEmpty <;>
                  simp [he, cells_put, cells_dropValue, cells_dropTtl]
            | _ => rfl
    | setField key field value =>
        simp only [apply, Command.key, Command.act, hvalue]
        cases hv : n.values[key]? with
        | none => simp [cells_put]
        | some v => cases v <;> simp [cells_put]
    | removeFields key fields =>
        simp only [apply, Command.key, Command.act, hvalue]
        cases hv : n.values[key]? with
        | none => rfl
        | some v =>
            cases v with
            | hash old =>
                by_cases he : (old.eraseMany fields).isEmpty <;> simp [he, cells_put, cells_dropValue]
            | _ => rfl
    | expire key seconds =>
        simp only [apply, Command.key, Command.act, hvalue, Std.ExtTreeMap.mem_iff_isSome_getElem?]
        by_cases hv : n.values[key]?.isSome <;> simp [hv, cells]
  · rw [Cells.apply_of_ne h]
    cases c with
    | set key value => simp_all [apply, cells_put, cells_dropTtl, Command.key]
    | delete key => simp_all [apply, cells_dropValue, cells_dropTtl, Command.key]
    | addMembers key members =>
        simp only [apply]
        split <;> simp_all [cells_put, Command.key]
    | removeMembers key members =>
        simp only [apply]
        split
        · split <;> simp_all [cells_put, cells_dropValue, cells_dropTtl, Command.key]
        · rfl
    | setField key field value =>
        simp only [apply]
        split <;> simp_all [cells_put, Command.key]
    | removeFields key fields =>
        simp only [apply]
        split
        · split <;> simp_all [cells_put, cells_dropValue, Command.key]
        · rfl
    | expire key seconds =>
        simp only [apply, Command.key] at h ⊢
        split
        · simp [cells, h, Std.ExtTreeMap.getElem?_insert]
        · rfl

theorem cells_applyAll (n : Node) (commands : List Command) :
    (n.applyAll commands).cells = n.cells.applyAll commands := by
  induction commands generalizing n with
  | nil => rfl
  | cons c commands ih =>
      rw [Cells.applyAll_cons, ← cells_apply]
      exact ih (n.apply c)

theorem lookup_eq (n : Node) (q : Query) : n.lookup q = n.cells.lookup q := by
  cases q with
  | scan key glob => cases glob <;> rfl
  | _ => rfl

end Node

end Inventory
