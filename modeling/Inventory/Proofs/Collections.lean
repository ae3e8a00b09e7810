import Inventory.Collections
import Inventory.Relationships

/-!
# Inventory.Proofs.Collections

What the containers hold after an operation, for the operations of which the standard library does
not say so, and the laws of first occurrences and batches.

The fold over a map is the one that the rest leans on: a step that changes a view at its own key
only amounts to one change for each key (`StringMap.foldl_at`).
-/

namespace Inventory

/-! ## Erasing several keys -/

/-- A fold that carries a proof along computes what the fold without it does. -/
theorem val_foldl {τ ι : Type} {p : τ → Prop} (step : τ → ι → τ)
    (keep : ∀ (t : { t // p t }) i, p (step t.1 i)) (l : List ι) (t : { t // p t }) :
    (l.foldl (fun t i => ⟨step t.1 i, keep t i⟩) t : { t // p t }).1 = l.foldl step t.1 := by
  induction l generalizing t with
  | nil => rfl
  | cons i l ih => exact ih _

namespace StringMap

variable {α β γ : Type}

theorem eraseMany_eq_foldl (m : StringMap α) (l : List String) :
    m.eraseMany l = l.foldl (fun m k => m.erase k) m := by
  have hinner : ∀ d : Std.ExtDTreeMap String fun _ => α,
      d.eraseMany l = l.foldl (fun d k => d.erase k) d := by
    intro d
    unfold Std.ExtDTreeMap.eraseMany
    simp only [List.forIn_pure_yield_eq_foldl, Id.run_pure, pure_bind]
    exact val_foldl (fun d k => Std.ExtDTreeMap.erase d k) _ l _
  have houter : ∀ (l : List String) (d : Std.ExtDTreeMap String fun _ => α),
      (⟨l.foldl (fun d k => d.erase k) d⟩ : StringMap α) =
        l.foldl (fun m k => m.erase k) (⟨d⟩ : StringMap α) := by
    intro l
    induction l with
    | nil => intro d; rfl
    | cons k l ih => intro d; exact ih _
  change (⟨m.inner.eraseMany l⟩ : StringMap α) = _
  rw [hinner, houter]

@[simp] theorem getElem?_eraseMany (m : StringMap α) (l : List String) (k : String) :
    (m.eraseMany l)[k]? = if k ∈ l then none else m[k]? := by
  rw [eraseMany_eq_foldl]
  induction l generalizing m with
  | nil => simp
  | cons x l ih =>
      rw [List.foldl_cons, ih, Std.ExtTreeMap.getElem?_erase]
      by_cases hl : k ∈ l
      · simp [hl]
      · by_cases hx : x = k
        · simp [hl, hx]
        · simp [hl, hx, Ne.symm hx]

/-! ## Folding over a map -/

/-- In a list without repeated keys a pair is what its key is looked up to. -/
theorem lookup_of_mem {l : List (String × α)} (hl : (l.map Prod.fst).Nodup) {k : String} {a : α}
    (h : (k, a) ∈ l) : l.lookup k = some a := by
  induction l with
  | nil => simp at h
  | cons p l ih =>
      rw [List.map_cons, List.nodup_cons] at hl
      rcases List.mem_cons.1 h with rfl | h
      · simp
      · have hne : (k == p.1) = false := by
          have : k ∈ l.map Prod.fst := List.mem_map.2 ⟨(k, a), h, rfl⟩
          exact beq_false_of_ne fun hk => hl.1 (hk ▸ this)
        rw [List.lookup_cons, hne, ih hl.2 h]

/-- A fold over a list without repeated keys, seen at one key. -/
theorem foldl_list_at (view : β → String → γ) (change : String → α → γ → γ)
    (step : β → String → α → β)
    (hstep : ∀ b k a k', view (step b k a) k' = if k = k' then change k a (view b k') else view b k')
    (l : List (String × α)) (hl : (l.map Prod.fst).Nodup) (b : β) (k : String) :
    view (l.foldl (fun b p => step b p.1 p.2) b) k =
      match l.lookup k with
      | some a => change k a (view b k)
      | none => view b k := by
  induction l generalizing b with
  | nil => rfl
  | cons p l ih =>
      obtain ⟨k', a⟩ := p
      rw [List.map_cons, List.nodup_cons] at hl
      rw [List.foldl_cons, ih hl.2, hstep]
      by_cases hk : k' = k
      · subst hk
        have hnone : l.lookup k' = none := by
          rw [List.lookup_eq_none_iff]
          intro q hq
          exact bne_iff_ne.2 fun h => hl.1 (List.mem_map.2 ⟨q, hq, h.symm⟩)
        simp [hnone]
      · have hk' : (k == k') = false := beq_false_of_ne fun h => hk h.symm
        simp [List.lookup_cons, hk, hk']

theorem nodup_map_fst_toList (m : StringMap α) : (m.toList.map Prod.fst).Nodup := by
  rw [Std.ExtTreeMap.map_fst_toList_eq_keys]
  exact Std.ExtTreeMap.nodup_keys

theorem mem_insert_iff {m : StringMap α} {k k' : String} {a : α} :
    k' ∈ m.insert k a ↔ k = k' ∨ k' ∈ m := by
  rw [Std.ExtTreeMap.mem_insert, Std.LawfulEqCmp.compare_eq_iff_eq]

/-- Whatever is inserted, a fold adds the keys at which it does. -/
theorem mem_foldl_insert {ι : Type} (key : ι → String) (value : StringMap α → ι → α) (l : List ι)
    (m : StringMap α) (k : String) :
    k ∈ l.foldl (fun m x => m.insert (key x) (value m x)) m ↔ k ∈ m ∨ k ∈ l.map key := by
  induction l generalizing m with
  | nil => simp
  | cons x l ih =>
      rw [List.foldl_cons, ih, mem_insert_iff, List.map_cons, List.mem_cons, eq_comm, or_assoc,
        or_left_comm]

theorem mem_of_mem_toList {m : StringMap α} {k : String} {a : α} (h : (k, a) ∈ m.toList) : k ∈ m := by
  rw [Std.ExtTreeMap.mem_iff_isSome_getElem?, Std.ExtTreeMap.mem_toList_iff_getElem?_eq_some.1 h]
  rfl

theorem values_eq (m : StringMap α) : m.values = m.toList.map Prod.snd := by
  have hfoldr : m.values = m.foldr (fun _ v l => v :: l) [] :=
    m.inner.inductionOn fun _ => rfl
  rw [hfoldr, Std.ExtTreeMap.foldr_eq_foldr_toList, List.map_eq_foldr]

theorem mem_values {m : StringMap α} {a : α} : a ∈ m.values ↔ ∃ k : String, m[k]? = some a := by
  simp only [values_eq, List.mem_map, Prod.exists, exists_eq_right,
    Std.ExtTreeMap.mem_toList_iff_getElem?_eq_some]

@[simp] theorem lookup_toList (m : StringMap α) (k : String) : m.toList.lookup k = m[k]? := by
  cases h : m[k]? with
  | none =>
      rw [List.lookup_eq_none_iff]
      intro p hp
      have hp' := Std.ExtTreeMap.mem_toList_iff_getElem?_eq_some.1 hp
      exact bne_iff_ne.2 fun hk => by rw [← hk, h] at hp'; contradiction
  | some a =>
      exact lookup_of_mem m.nodup_map_fst_toList
        (Std.ExtTreeMap.mem_toList_iff_getElem?_eq_some.2 h)

/-- The values of a map by the name that each of them has, if that is its key. -/
theorem map_values_eq_keys {m : StringMap α} {name : α → String}
    (h : ∀ (key : String) (a : α), m[key]? = some a → name a = key) : m.values.map name = m.keys := by
  rw [values_eq, ← Std.ExtTreeMap.map_fst_toList_eq_keys, List.map_map]
  apply List.map_congr_left
  intro p hp
  exact h p.1 p.2 (Std.ExtTreeMap.mem_toList_iff_getElem?_eq_some.1 hp)

theorem find_insert_unless [EmptyCollection α] (m : StringMap α) (key : String) (a : α) (spared : Bool)
    (k : String) :
    find (if spared then m else m.insert key a) k = if k = key ∧ spared = false then a else find m k := by
  cases spared with
  | true => simp
  | false =>
      simp only [find, Bool.false_eq_true, if_false, Std.ExtTreeMap.getElem?_insert, and_true]
      by_cases h : key = k
      · simp [h]
      · simp [h, Ne.symm h]

theorem isEmpty_eq_false_iff_exists_mem {m : StringMap α} : m.isEmpty = false ↔ ∃ key, key ∈ m := by
  constructor
  · intro hne
    rw [Std.ExtTreeMap.isEmpty_eq_false_iff] at hne
    refine Classical.byContradiction fun hnone => hne (Std.ExtTreeMap.ext_getElem? fun key => ?_)
    rw [Std.ExtTreeMap.getElem?_eq_none fun hmem => hnone ⟨key, hmem⟩, Std.ExtTreeMap.getElem?_empty]
  · intro ⟨key, hkey⟩
    rw [Std.ExtTreeMap.isEmpty_eq_false_iff]
    intro hempty
    exact Std.ExtTreeMap.not_mem_empty (hempty ▸ hkey)

theorem find_of_mem_toList {α : Type} [EmptyCollection α] {m : StringMap α} {k : String} {a : α}
    (h : (k, a) ∈ m.toList) : find m k = a := by
  rw [find, Std.ExtTreeMap.mem_toList_iff_getElem?_eq_some.1 h, Option.getD_some]

theorem mem_toList_of_find_ne_empty {α : Type} [EmptyCollection α] {m : StringMap α} {k : String}
    (h : find m k ≠ ∅) : (k, find m k) ∈ m.toList := by
  rw [Std.ExtTreeMap.mem_toList_iff_getElem?_eq_some]
  unfold find at h ⊢
  cases hk : m[k]? with
  | none => rw [hk] at h; exact absurd rfl h
  | some a => rfl

theorem mem_values_of_find_ne_empty {α : Type} [EmptyCollection α] {m : StringMap α} {k : String}
    (h : find m k ≠ ∅) : find m k ∈ m.values := by
  rw [values_eq]
  exact List.mem_map_of_mem (mem_toList_of_find_ne_empty h)

theorem mem_toList_of_mem_find {m : StringMap StringSet} {k x : String} (h : x ∈ find m k) :
    (k, find m k) ∈ m.toList := by
  refine mem_toList_of_find_ne_empty fun hempty => ?_
  rw [hempty] at h
  exact Std.ExtTreeSet.not_mem_empty h

/-- In a map from a list without repeated keys, a set is that of its pair. -/
theorem mem_find_ofList {l : List (String × StringSet)} (hl : (l.map Prod.fst).Nodup)
    (k x : String) :
    x ∈ find (.ofList l : StringMap StringSet) k ↔ ∃ ids, (k, ids) ∈ l ∧ x ∈ ids := by
  have hpairwise : l.Pairwise fun p q => ¬ compare p.1 q.1 = .eq := by
    simp only [Std.LawfulEqCmp.compare_eq_iff_eq]
    exact List.pairwise_map.1 hl
  have hmem : ∀ ids, (k, ids) ∈ l → find (.ofList l : StringMap StringSet) k = ids := by
    intro ids hids
    rw [find, Std.ExtTreeMap.getElem?_ofList_of_mem Std.ReflCmp.compare_self hpairwise hids,
      Option.getD_some]
  constructor
  · intro hx
    by_cases hk : (l.map Prod.fst).contains k
    · obtain ⟨⟨k', ids⟩, hids, rfl⟩ := List.mem_map.1 (List.contains_iff_mem.1 hk)
      rw [hmem ids hids] at hx
      exact ⟨ids, hids, hx⟩
    · rw [find, Std.ExtTreeMap.getElem?_ofList_of_contains_eq_false (by simpa using hk)] at hx
      exact absurd hx Std.ExtTreeSet.not_mem_empty
  · rintro ⟨ids, hids, hx⟩
    rwa [hmem ids hids]

/-- Pairs that are all taken from one function are put into a map as the function has them. -/
theorem getElem?_insertMany_of_forall {f : String → Option α} {l : List (String × α)}
    (h : ∀ p ∈ l, f p.1 = some p.2) (m : StringMap α) (key : String) :
    (m.insertMany l)[key]? = if key ∈ l.map Prod.fst then f key else m[key]? := by
  induction l generalizing m with
  | nil => simp
  | cons p l ih =>
      obtain ⟨k, a⟩ := p
      have hk : f k = some a := h (k, a) List.mem_cons_self
      rw [Std.ExtTreeMap.insertMany_cons, ih fun p hp => h p (List.mem_cons_of_mem _ hp)]
      by_cases hl : key ∈ l.map Prod.fst
      · simp [hl]
      · by_cases hkey : k = key
        · simp [hl, hkey, ← hk]
        · simp [hl, hkey, Ne.symm hkey, Std.ExtTreeMap.getElem?_insert]

/-- A fold over a map whose step changes a view at its own key only, seen at one key. -/
theorem foldl_at (view : β → String → γ) (change : String → α → γ → γ) (step : β → String → α → β)
    (hstep : ∀ b k a k', view (step b k a) k' = if k = k' then change k a (view b k') else view b k')
    (m : StringMap α) (b : β) (k : String) :
    view (m.foldl step b) k =
      match m[k]? with
      | some a => change k a (view b k)
      | none => view b k := by
  rw [Std.ExtTreeMap.foldl_eq_foldl_toList, foldl_list_at view change step hstep _
    m.nodup_map_fst_toList, lookup_toList]

end StringMap

/-! ## Sets -/

namespace StringSet

theorem isEmpty_eq_false_of_mem {s : StringSet} {x : String} (h : x ∈ s) : s.isEmpty = false :=
  Std.ExtTreeSet.isEmpty_eq_false_iff.2 fun hempty =>
    Std.ExtTreeSet.not_mem_empty (hempty ▸ h)

theorem isEmpty_eq_false_iff_exists_mem {s : StringSet} : s.isEmpty = false ↔ ∃ x, x ∈ s := by
  constructor
  · intro hne
    rw [Std.ExtTreeSet.isEmpty_eq_false_iff] at hne
    refine Classical.byContradiction fun hnone => hne (Std.ExtTreeSet.ext_mem fun x => ?_)
    exact iff_of_false (fun hmem => hnone ⟨x, hmem⟩) Std.ExtTreeSet.not_mem_empty
  · intro ⟨x, hx⟩
    exact isEmpty_eq_false_of_mem hx

@[simp] theorem mem_eraseMany {s : StringSet} {l : List String} {x : String} :
    x ∈ s.eraseMany l ↔ x ∈ s ∧ x ∉ l := by
  change x ∈ (s.inner.eraseMany l : StringMap Unit) ↔ x ∈ (s.inner : StringMap Unit) ∧ x ∉ l
  rw [Std.ExtTreeMap.mem_iff_isSome_getElem?, Std.ExtTreeMap.mem_iff_isSome_getElem?,
    StringMap.getElem?_eraseMany]
  by_cases h : x ∈ l <;> simp [h]

/-- Elements that leave a set as large as it was leave it as it was. -/
theorem eraseMany_of_size_eq {s : StringSet} {l : List String}
    (h : (s.eraseMany l).size = s.size) : s.eraseMany l = s := by
  have hcons : ∀ (s : StringSet) (x : String) (l : List String),
      s.eraseMany (x :: l) = (s.erase x).eraseMany l := by
    intro s x l
    refine Std.ExtTreeSet.ext_mem fun y => ?_
    rw [mem_eraseMany, mem_eraseMany, Std.ExtTreeSet.mem_erase, List.mem_cons]
    simp only [ne_eq, Std.LawfulEqCmp.compare_eq_iff_eq]
    grind
  have hle : ∀ (l : List String) (s : StringSet), (s.eraseMany l).size ≤ s.size := by
    intro l
    induction l with
    | nil => exact fun s => Nat.le_refl _
    | cons x l ih =>
        intro s
        rw [hcons]
        exact Nat.le_trans (ih _) Std.ExtTreeSet.size_erase_le
  induction l generalizing s with
  | nil => rfl
  | cons x l ih =>
      rw [hcons] at h ⊢
      have hrest := hle l (s.erase x)
      by_cases hx : s.contains x
      · rw [Std.ExtTreeSet.size_erase, if_pos hx] at hrest
        have hpos : s.size ≠ 0 := by
          rw [Ne, ← Std.ExtTreeSet.eq_empty_iff_size_eq_zero]
          rintro rfl
          simp at hx
        omega
      · have herase : s.erase x = s := by
          refine Std.ExtTreeSet.ext_mem fun y => ?_
          rw [Std.ExtTreeSet.contains_iff_mem] at hx
          rw [Std.ExtTreeSet.mem_erase, ne_eq, Std.LawfulEqCmp.compare_eq_iff_eq]
          exact and_iff_right_of_imp fun hy hxy => hx (hxy ▸ hy)
        rw [herase] at h ⊢
        exact ih h

/-- Searching a list one by one is `List.any`. -/
theorem run_forIn_eq_any {α : Type} (p : α → Bool) (l : List α) :
    Id.run (do
      for x in l do
        if p x then return true
      return false) = l.any p := by
  induction l with
  | nil => rfl
  | cons x l ih =>
      rw [List.forIn_cons]
      cases h : p x with
      | false => simpa [h] using ih
      | true => simp [h]

theorem any_iff {s : StringSet} {p : String → Bool} :
    s.any p = true ↔ ∃ x ∈ s, p x = true := by
  have hlist : s.any p = s.inner.inner.toList.any fun x => p x.1 := by
    change s.inner.inner.any (fun x _ => p x) = _
    induction s.inner.inner using Std.ExtDTreeMap.inductionOn with
    | mk d =>
        change d.inner.any (fun x _ => p x) = d.inner.toList.any fun x => p x.1
        rw [← run_forIn_eq_any, ← Std.DTreeMap.Internal.Impl.forIn_eq_forIn_toList]
        rfl
  have hmem : ∀ x : (_ : String) × Unit, x ∈ s.inner.inner.toList ↔ x.1 ∈ s := by
    intro x
    rw [Std.ExtDTreeMap.mem_toList_iff_get?_eq_some]
    change _ ↔ x.1 ∈ s.inner.inner
    rw [Std.ExtDTreeMap.mem_iff_isSome_get?, Option.isSome_iff_exists]
    exact ⟨fun h => ⟨_, h⟩, fun ⟨_, h⟩ => h⟩
  simp only [hlist, List.any_eq_true, hmem]
  exact ⟨fun ⟨x, h⟩ => ⟨x.1, h⟩, fun ⟨x, h⟩ => ⟨⟨x, ()⟩, h⟩⟩

theorem mem_filter {s : StringSet} {p : String → Bool} {x : String} :
    x ∈ s.filter p ↔ x ∈ s ∧ p x = true := by
  simp [Std.ExtTreeSet.mem_filter]

end StringSet

/-! ## First occurrences -/

theorem mem_firstOccurrences_go (l : List String) (seen : StringSet) (x : String) :
    x ∈ firstOccurrences.go seen l ↔ x ∈ l ∧ x ∉ seen := by
  induction l generalizing seen with
  | nil => simp [firstOccurrences.go]
  | cons y l ih =>
      rw [firstOccurrences.go]
      by_cases hy : y ∈ seen
      · rw [if_pos hy, ih]
        grind
      · rw [if_neg hy, List.mem_cons, ih, Std.ExtTreeSet.mem_insert,
          Std.LawfulEqCmp.compare_eq_iff_eq]
        grind

/-- Nothing is lost among the first occurrences. -/
@[simp] theorem mem_firstOccurrences {l : List String} {x : String} :
    x ∈ firstOccurrences l ↔ x ∈ l := by
  rw [firstOccurrences, mem_firstOccurrences_go]
  simp

@[simp] theorem firstOccurrences_singleton (x : String) : firstOccurrences [x] = [x] := by
  simp [firstOccurrences, firstOccurrences.go]

theorem nodup_firstOccurrences_go (l : List String) (seen : StringSet) :
    (firstOccurrences.go seen l).Nodup := by
  induction l generalizing seen with
  | nil => exact List.nodup_nil
  | cons x l ih =>
      rw [firstOccurrences.go]
      split
      · exact ih seen
      · refine List.nodup_cons.2 ⟨fun hx => ?_, ih _⟩
        rw [mem_firstOccurrences_go] at hx
        exact hx.2 (by simp)

/-- First occurrences do not repeat. -/
theorem nodup_firstOccurrences (l : List String) : (firstOccurrences l).Nodup :=
  nodup_firstOccurrences_go l ∅

/-! ## Going through a list again -/

section Repeat

variable {α β : Type} {f : β → α → β}

/-- Of two kinds of steps that may change places, one for elements and one for whole lists of them,
those for elements may all be made first. -/
theorem foldl_of_comm {g : β → List α → β} (hcomm : ∀ b x xs, f (g b xs) x = g (f b x) xs)
    (l : List (List α)) (b : β) :
    l.foldl (fun b xs => g (xs.foldl f b) xs) b = l.foldl g (l.flatten.foldl f b) := by
  have hpast : ∀ (l : List α) (xs : List α) (b : β), l.foldl f (g b xs) = g (l.foldl f b) xs := by
    intro l xs
    induction l with
    | nil => exact fun b => rfl
    | cons x l ih => exact fun b => by rw [List.foldl_cons, hcomm, ih, List.foldl_cons]
  induction l generalizing b with
  | nil => rfl
  | cons xs l ih =>
      rw [List.foldl_cons, ih, List.flatten_cons, List.foldl_append, List.foldl_cons, hpast]

theorem foldl_step (hself : ∀ b x, f (f b x) x = f b x)
    (hback : ∀ b x y, f (f (f b x) y) x = f (f b y) x) (l : List α) (b : β) (x : α) :
    f (l.foldl f (f b x)) x = f (l.foldl f b) x := by
  induction l generalizing b with
  | nil => exact hself b x
  | cons y l ih => rw [List.foldl_cons, List.foldl_cons, ← ih (f (f b x) y), hback, ih (f b y)]

theorem foldl_between (hself : ∀ b x, f (f b x) x = f b x)
    (hback : ∀ b x y, f (f (f b x) y) x = f (f b y) x) (l l' : List α) (b : β) :
    l.foldl f (l'.foldl f (l.foldl f b)) = l.foldl f (l'.foldl f b) := by
  induction l generalizing l' b with
  | nil => rfl
  | cons x l ih =>
      have hx := foldl_step hself hback (l ++ l') b x
      have hrest := ih (l' ++ [x]) b
      simp only [List.foldl_append, List.foldl_cons, List.foldl_nil] at hx hrest ⊢
      rw [hx, hrest]

/-- A list that was gone through in part can be gone through from its start, if a step repeated
later is as if it had been made then only. -/
theorem foldl_of_isPrefix (hself : ∀ b x, f (f b x) x = f b x)
    (hback : ∀ b x y, f (f (f b x) y) x = f (f b y) x) {p l : List α} (h : p <+: l) (b : β) :
    l.foldl f (p.foldl f b) = l.foldl f b := by
  obtain ⟨q, rfl⟩ := h
  rw [List.foldl_append, List.foldl_append]
  exact congrArg (q.foldl f) (foldl_between hself hback p [] b)

end Repeat

/-! ## Batches -/

/-- What fits in one batch is one. -/
theorem batches_eq_singleton {α : Type} {limit : Nat} {l : List α} (hne : l ≠ [])
    (h : l.length ≤ max limit 1) : batches limit l = [l] := by
  cases l with
  | nil => contradiction
  | cons x rest =>
      rw [List.length_cons] at h
      have hrest : rest.length ≤ limit - 1 := by omega
      rw [batches, List.take_of_length_le hrest, List.drop_of_length_le hrest, batches_nil]

theorem batches_singleton {α : Type} (limit : Nat) (x : α) : batches limit [x] = [[x]] :=
  batches_eq_singleton (List.cons_ne_nil _ _) (Nat.le_max_right _ _)

theorem batches_of_le_one {α : Type} {limit : Nat} (h : limit ≤ 1) (l : List α) :
    batches limit l = l.map fun x => [x] := by
  have hnone : limit - 1 = 0 := Nat.sub_eq_zero_of_le h
  induction l with
  | nil => exact batches_nil limit
  | cons x rest ih => rw [batches, hnone, List.take_zero, List.drop_zero, ih, List.map_cons]

/-- The first batches of a list are those of what is in them. -/
theorem batches_flatten_of_prefix {α : Type} {limit : Nat} {l : List α} {chunks : List (List α)}
    (h : chunks <+: batches limit l) : batches limit chunks.flatten = chunks := by
  fun_induction batches limit l generalizing chunks with
  | case1 =>
      rw [List.prefix_nil.1 h]
      exact batches_nil limit
  | case2 x rest ih =>
      cases chunks with
      | nil => exact batches_nil limit
      | cons chunk chunks =>
          obtain ⟨rfl, htail⟩ := List.cons_prefix_cons.1 h
          by_cases hfull : limit - 1 ≤ rest.length
          · have hlength : (rest.take (limit - 1)).length = limit - 1 := by
              rw [List.length_take, Nat.min_eq_left hfull]
            rw [List.flatten_cons, List.cons_append, batches, List.take_left' hlength,
              List.drop_left' hlength, ih htail]
          · have hshort : rest.length ≤ limit - 1 := Nat.le_of_not_le hfull
            rw [List.drop_of_length_le hshort, batches_nil, List.prefix_nil] at htail
            rw [htail, List.take_of_length_le hshort, List.flatten_singleton]
            refine batches_eq_singleton (List.cons_ne_nil _ _) ?_
            rw [List.length_cons]
            omega

/-! ## Relationships -/

namespace Relationships

theorem getElem?_union (r incoming : Relationships) (type : String) :
    (r.union incoming)[type]? =
      match incoming[type]? with
      | some ids => if ids.isEmpty then r[type]? else some (StringMap.find r type ∪ ids)
      | none => r[type]? := by
  unfold Relationships.union
  rw [StringMap.foldl_at (fun (r : Relationships) k => r[k]?)
    (fun _ ids old => if ids.isEmpty then old else some (old.getD ∅ ∪ ids))]
  · cases incoming[type]? <;> rfl
  · intro r k ids k'
    by_cases he : ids.isEmpty
    · simp [he]
    · simp only [he, StringMap.find]
      by_cases hk : k = k' <;> simp [hk, Std.ExtTreeMap.getElem?_insert]

theorem getElem?_replace (r incoming : Relationships) (type : String) :
    (r.replace incoming)[type]? =
      match incoming[type]? with
      | some ids => if ids.isEmpty then none else some ids
      | none => r[type]? := by
  unfold Relationships.replace
  rw [StringMap.foldl_at (fun (r : Relationships) k => r[k]?)
    (fun _ ids _ => if ids.isEmpty then none else some ids)]
  · cases incoming[type]? <;> rfl
  · intro r k ids k'
    by_cases he : ids.isEmpty
    · simp [he, Std.ExtTreeMap.getElem?_erase]
    · simp [he, Std.ExtTreeMap.getElem?_insert]

end Relationships

/-! ## Filters -/

namespace NameFilter

variable (p : String → Bool)

@[simp]
theorem accepts_whose (name : String) : (whose p).accepts name = p name := by
  change (!([name].filter p).isEmpty) = p name
  cases hname : p name <;> simp [hname]

theorem isNamewise_whose : (whose p).IsNamewise := by
  intro names name hname
  rw [accepts_whose]
  exact List.mem_filter.trans (and_iff_right hname)

/-- A filter by prefixes decides on each name by itself. -/
theorem isNamewise_toNameFilter (f : RelationshipFilter) :
    ∀ g ∈ some f.toNameFilter, g.IsNamewise := by
  rintro _ ⟨⟩
  exact isNamewise_whose f.accepts

variable {filter : Option NameFilter} {types : List String} {type : String}

/-- Of the types that are there, whatever the filter, and of no others a read returns relationships. -/
theorem mem_of_mem_select (h : type ∈ select filter types) : type ∈ types := by
  cases filter with
  | none => exact h
  | some f => exact f.keep_subset types h

/-- What a read looks for, its filter keeps of some names. -/
theorem mayKeep_of_mem_select (h : type ∈ select filter types) : ∀ f ∈ filter, f.MayKeep type := by
  rintro f rfl
  exact ⟨types, h⟩

/-- A read returns the relationships that are there and that its filter accepts, if the filter decides on
each name by itself. -/
theorem mem_select (hfilter : ∀ f ∈ filter, f.IsNamewise) :
    type ∈ select filter types ↔ type ∈ types ∧ filter.all (·.accepts type) := by
  cases filter with
  | none => simp [select]
  | some f =>
      refine ⟨fun h => ?_, fun h => (hfilter f rfl types type h.1).2 h.2⟩
      have hmem : type ∈ types := f.keep_subset types h
      exact ⟨hmem, (hfilter f rfl types type hmem).1 h⟩

/-- The filter that keeps no name leaves none of any types. -/
@[simp]
theorem select_none (types : List String) : select (some none) types = [] :=
  List.filter_eq_nil_iff.2 fun _ _ => Bool.false_ne_true

end NameFilter

end Inventory
