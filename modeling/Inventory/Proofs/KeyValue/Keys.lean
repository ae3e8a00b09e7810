import Inventory.Cache.KeyValue.Layout
import Mathlib.Data.List.Basic

/-!
# Inventory.Proofs.KeyValue.Keys

Which keys are the same.

The keys of one type never meet, whatever the names in them, except that two pairs of an id and a
related type may spell one key. Keys of two types are kept apart by the colon behind the type, if
there is none within it.
-/

namespace Inventory.KeyValue

/-- A name without the sign that divides keys. -/
def Plain (name : String) : Prop := ':' ∉ name.toList

instance (name : String) : Decidable (Plain name) := inferInstanceAs (Decidable (¬ _))

/-- Two texts are cut at the same place by their first colon. -/
theorem append_colon_inj {a b x y : List Char} (ha : ':' ∉ a) (hb : ':' ∉ b)
    (h : a ++ ':' :: x = b ++ ':' :: y) : a = b ∧ x = y := by
  induction a generalizing b with
  | nil =>
      cases b with
      | nil => exact ⟨rfl, (List.cons.inj h).2⟩
      | cons c b => exact absurd (List.mem_cons.2 (.inl (List.cons.inj h).1)) hb
  | cons c a ih =>
      rw [List.mem_cons, not_or] at ha
      cases b with
      | nil => exact absurd (List.cons.inj h).1.symm ha.1
      | cons c' b =>
          rw [List.mem_cons, not_or] at hb
          obtain ⟨rfl, htail⟩ := List.cons.inj h
          obtain ⟨rfl, hx⟩ := ih ha.2 hb.2 htail
          exact ⟨rfl, hx⟩

/-- What a type keeps under a key of its own. -/
inductive Slot where
  | members
  | relatedTypes
  | digests
  | attributes (id : String)
  | related (id relationship : String)
deriving DecidableEq

namespace Slot

/-- The key of a slot. -/
def key (o : Options) (type : String) : Slot → String
  | members => o.membersKey type
  | relatedTypes => o.relatedTypesKey type
  | digests => o.digestsKey type
  | attributes id => o.attributesKey type id
  | related id relationship => o.relationshipKey type id relationship

/-- What follows the type in a key. -/
def tail : Slot → String
  | members => "members"
  | relatedTypes => "relationships"
  | digests => "hashes"
  | attributes id => "attributes:" ++ id
  | related id relationship => "relationships:" ++ id ++ ":" ++ relationship

@[simp] theorem tail_members : members.tail = "members" := rfl

@[simp] theorem tail_relatedTypes : relatedTypes.tail = "relationships" := rfl

@[simp] theorem tail_digests : digests.tail = "hashes" := rfl

@[simp] theorem tail_attributes (id : String) : (attributes id).tail = "attributes:" ++ id := rfl

@[simp] theorem tail_related (id relationship : String) :
    (related id relationship).tail = "relationships:" ++ id ++ ":" ++ relationship := rfl

variable {o : Options} {type type' : String} {a b : Slot}

theorem toList_key (o : Options) (type : String) (a : Slot) :
    (a.key o type).toList =
      o.keyspace.toList ++ ':' :: (type.toList ++ ':' :: a.tail.toList) := by
  have htext : ∀ s : String, toString s = s := fun _ => rfl
  cases a <;>
    simp [key, htext, Options.membersKey, Options.relatedTypesKey, Options.digestsKey,
      Options.attributesKey, Options.relationshipKey]

theorem key_eq_iff : a.key o type = b.key o type ↔ a.tail = b.tail := by
  rw [← String.toList_inj, toList_key, toList_key]
  simp [String.toList_inj]

/-- The kind of a slot. -/
def kind : Slot → Nat
  | members => 0
  | relatedTypes => 1
  | digests => 2
  | attributes _ => 3
  | related .. => 4

/-- Slots of different kinds have different keys. -/
theorem key_ne (a b : Slot) (h : a.kind ≠ b.kind := by simp [Slot.kind]) : a.key o type ≠ b.key o type := by
  rw [Ne, key_eq_iff, ← String.toList_inj]
  cases a <;> cases b <;> simp [kind] at h ⊢

/-- A slot that is not for related ids shares its key with no other slot of its type. -/
theorem eq_of_key_eq (ha : ∀ id r, a ≠ related id r) (h : a.key o type = b.key o type) : a = b := by
  rw [key_eq_iff, ← String.toList_inj] at h
  cases a <;> cases b <;> simp_all [String.toList_inj]

variable (o type) in
/-- The related types of one entity have different keys. -/
theorem related_key_inj {id r r' : String}
    (h : (related id r).key o type = (related id r').key o type) : r = r' := by
  rw [key_eq_iff, ← String.toList_inj] at h
  simpa [String.toList_inj] using h

variable (o type) in
/-- Related types without a colon can be told from the key. -/
theorem eq_of_related_key_eq {id r id' r' : String} (hr : Plain r) (hr' : Plain r')
    (h : (related id r).key o type = (related id' r').key o type) : id = id' ∧ r = r' := by
  rw [key_eq_iff, ← String.toList_inj] at h
  simp only [tail_related, String.toList_append, List.append_assoc,
    List.append_cancel_left_eq] at h
  have hrev : r.toList.reverse ++ ':' :: id.toList.reverse =
      r'.toList.reverse ++ ':' :: id'.toList.reverse := by
    simpa using congrArg List.reverse h
  obtain ⟨hrr', hid⟩ := append_colon_inj (by simpa [Plain] using hr) (by simpa [Plain] using hr') hrev
  exact ⟨String.toList_inj.1 (List.reverse_inj.1 hid), String.toList_inj.1 (List.reverse_inj.1 hrr')⟩

/-- The type of a key can be told if it has no colon. -/
theorem eq_of_key_eq_of_plain (ht : Plain type) (ht' : Plain type')
    (h : a.key o type = b.key o type') : type = type' := by
  rw [← String.toList_inj, toList_key, toList_key, List.append_cancel_left_eq,
    List.cons.injEq] at h
  exact String.toList_inj.1 (append_colon_inj ht ht' h.2).1

/-- The key of the ids of a type without a colon is no other key, whatever the other type is. -/
theorem eq_of_members_key_eq (ht : Plain type) (h : members.key o type = b.key o type') :
    type = type' ∧ b = members := by
  have htype : type = type' := by
    have hchars := h
    rw [← String.toList_inj, toList_key, toList_key, List.append_cancel_left_eq, List.cons.injEq,
      List.append_cons_inj_of_notMem] at hchars
    · exact String.toList_inj.1 hchars.2.1
    · exact ht
    · decide
  subst htype
  exact ⟨rfl, (eq_of_key_eq (by simp) h).symm⟩

end Slot

end Inventory.KeyValue
