import Inventory.Agent.Caching
import Inventory.Proofs.Agent.Authority
import Inventory.Proofs.Key.Segments
import Inventory.Proofs.Staging.Report

/-!
# Inventory.Proofs.Agent.Reports

What a snapshot agent reports.

An agent that informs nobody stages its resources one after the other, under their keys, and nothing
else (`CachingAgent.report_snapshot`). A key that can be read back names the provider, the account and the
region of the agent, so the agent answers for it (`CachingAgent.contains_keyOf`).
-/

namespace Inventory

/-! ## Staging -/

namespace Namespace

variable {n : Namespace} {keys : List String}

/-- All that is staged is to be written, under certain keys. -/
structure Keeps (n : Namespace) (keys : List String) : Prop where
  kept : ∀ id, id ∈ n.kept ↔ id ∈ keys
  refreshed : n.refreshed = ∅
  evicted : n.evicted = ∅

theorem Keeps.empty : Keeps ∅ [] where
  kept id := by
    change id ∈ (∅ : StringMap Draft) ↔ _
    simp
  refreshed := rfl
  evicted := rfl

theorem Keeps.keep (h : n.Keeps keys) (key : String) (change : Draft → Draft) :
    (n.keep key change).Keeps (keys ++ [key]) where
  kept id := by
    rw [Namespace.keep, StringMap.mem_insert_iff, h.kept, List.mem_append, List.mem_singleton, or_comm,
      eq_comm]
  refreshed := h.refreshed
  evicted := by
    change n.evicted.erase key = ∅
    rw [h.evicted]
    exact Std.ExtTreeSet.erase_empty

/-- What is written are entities of the keys. -/
theorem Keeps.mem_ids (h : n.Keeps keys) (id : String) :
    id ∈ n.entities.values.map Entity.id ↔ id ∈ keys := by
  have hlookup : ∀ id : String, n.entities[id]? = (n.kept[id]?).map fun d => d.entity id := by
    intro id
    rw [getElem?_entities, h.refreshed]
    simp
  have hid : ∀ (id : String) (e : Entity), n.entities[id]? = some e → e.id = id := by
    intro id e he
    rw [hlookup, Option.map_eq_some_iff] at he
    obtain ⟨d, -, rfl⟩ := he
    rfl
  rw [StringMap.map_values_eq_keys hid, Std.ExtTreeMap.mem_keys, ← h.kept,
    Std.ExtTreeMap.mem_iff_isSome_getElem?, hlookup, Option.isSome_map,
    Std.ExtTreeMap.mem_iff_isSome_getElem?]

end Namespace

/-! ## The report of a snapshot agent -/

namespace CachingAgent

variable {a : CachingAgent} {x : Snapshot}

/-- An agent that informs nobody stages a resource and nothing else. -/
theorem stage_eq (hx : x.informs = []) (area : Staging) (name : String) :
    a.stage x area name = area.modify x.type (·.keep (a.keyOf x name) (a.describe x name)) := by
  have hnone : x.related.filter (fun _ => false) = [] := List.filter_eq_nil_iff.2 (by simp)
  simp [stage, hx, hnone]

/-- The keys of the resources of a type. -/
def keysOf (a : CachingAgent) (x : Snapshot) (names : List String) (type : String) : List String :=
  if x.type = type then names.map (a.keyOf x) else []

/-- Resources that are staged one after the other are staged under their keys. -/
theorem stages_names (hx : x.informs = []) (names : List String) {area : Staging}
    {keys : String → List String} (hdemand : area.onDemand = {})
    (hkeys : ∀ t, (area.namespaceOf t).Keeps (keys t)) :
    (names.foldl (a.stage x) area).onDemand = {} ∧ ∀ t,
      ((names.foldl (a.stage x) area).namespaceOf t).Keeps (keys t ++ a.keysOf x names t) := by
  induction names generalizing area keys with
  | nil => exact ⟨hdemand, fun t => by simpa [keysOf] using hkeys t⟩
  | cons name names ih =>
      have hstage : ∀ t, ((a.stage x area name).namespaceOf t).Keeps
          (keys t ++ a.keysOf x [name] t) := by
        intro t
        rw [stage_eq hx, Staging.namespaceOf_modify, keysOf]
        by_cases ht : x.type = t
        · rw [if_pos ht, if_pos ht]
          exact (hkeys t).keep _ _
        · rw [if_neg ht, if_neg ht, List.append_nil]
          exact hkeys t
      obtain ⟨hnone, hstaged⟩ := ih (by rw [stage_eq hx]; exact hdemand) hstage
      refine ⟨hnone, fun t => ?_⟩
      have hcons : keys t ++ a.keysOf x (name :: names) t =
          keys t ++ a.keysOf x [name] t ++ a.keysOf x names t := by
        by_cases ht : x.type = t <;> simp [keysOf, ht]
      rw [hcons]
      exact hstaged t

variable {r : Report}

/-- An agent that informs nobody reports its resources and nothing else, and it wants nothing evicted. -/
theorem report_snapshot (hconduct : a.conduct = .snapshot x) (hx : x.informs = [])
    (h : a.report = .ok r) (t : String) :
    r.ids t = (if x.type = t then a.keys else ∅) ∧ r.evictionsOf t = [] := by
  have hempty : ∀ t : String, (({} : Staging).namespaceOf t).Keeps ((fun _ => []) t) := fun _ => .empty
  obtain ⟨hdemand, hkeys⟩ := stages_names (a := a) hx x.names rfl hempty
  have hreport : (x.names.foldl (a.stage x) {}).report = r := by
    rw [report, hconduct] at h
    dsimp only at h
    split at h
    · contradiction
    · exact Except.ok.inj h
  subst hreport
  refine ⟨Std.ExtTreeSet.ext_mem fun id => ?_, ?_⟩
  · rw [Report.ids, Staging.entitiesOf_report, if_neg (by simp [hdemand]), Std.ExtTreeSet.mem_ofList,
      List.contains_iff_mem, (hkeys t).mem_ids, List.nil_append, keysOf, keys, hconduct]
    by_cases ht : x.type = t <;> simp [ht]
  · rw [Staging.evictionsOf_report, if_neg (by simp [hdemand]), (hkeys t).evicted]
    rfl

/-- The parts of the key of a resource. -/
def partsOf (a : CachingAgent) (x : Snapshot) (name : String) : Key :=
  ⟨a.provider, x.type, a.account, a.region.getD "global", name, []⟩

/-- An agent answers for its resources, if their keys can be read at all. -/
theorem contains_keyOf (hconduct : a.conduct = .snapshot x) {parsers : KeyParsers}
    (hparsers : parsers.ReadBack) {name : String} {key : Key} (h : parsers.parse (a.keyOf x name) = .ok key) :
    a.scope.contains parsers (a.keyOf x name) = true := by
  have hscope : a.scope = .account a.provider a.account a.region := by rw [scope, hconduct]
  obtain rfl : key = a.partsOf x name := hparsers _ _ h
  rw [hscope, Scope.contains_account]
  exact ⟨_, h, rfl, rfl, fun r hr => by rw [partsOf, Option.mem_def.1 hr]; rfl⟩

end CachingAgent

/-! ## Snapshot agents -/

/-- What may be changed about a snapshot agent at any time. -/
inductive Adjustment where
  | setNames (names : List String)
  /-- Relates every resource to one more entity. -/
  | relateTo (type target : String)
  | setFail (fails : Bool)
  | setDelay (delay : Option Duration)

/-- Changes a snapshot agent. -/
def Adjustment.apply : Adjustment → CachingAgent → CachingAgent
  | setNames names, a => a.modifySnapshot fun x => { x with names }
  | relateTo type target, a => a.modifySnapshot fun x => { x with related := x.related ++ [(type, target)] }
  | setFail fails, a => a.modifySnapshot fun x => { x with fails }
  | setDelay delay, a => { a with delay }

namespace CachingAgent

variable {tells : String → Prop} {a : CachingAgent}

/-- A snapshot agent that informs nobody, on a type whose name is told from others. -/
def IsSnapshot (tells : String → Prop) (a : CachingAgent) : Prop :=
  ∃ x, a.conduct = .snapshot x ∧ x.informs = [] ∧ tells x.type

theorem profile_modifySnapshot (a : CachingAgent) {change : Snapshot → Snapshot}
    (htype : ∀ x, (change x).type = x.type) (hinforms : ∀ x, (change x).informs = x.informs) :
    (a.modifySnapshot change).profile = a.profile := by
  unfold modifySnapshot
  cases hconduct : a.conduct with
  | scripted x => rfl
  | snapshot x => simp [profile, scope, types, hconduct, htype, hinforms]

theorem IsSnapshot.modifySnapshot (h : a.IsSnapshot tells) {change : Snapshot → Snapshot}
    (htype : ∀ x, (change x).type = x.type) (hinforms : ∀ x, (change x).informs = x.informs) :
    (a.modifySnapshot change).IsSnapshot tells := by
  obtain ⟨x, hconduct, hx, ht⟩ := h
  refine ⟨change x, ?_, (hinforms x).trans hx, (htype x).symm ▸ ht⟩
  rw [CachingAgent.modifySnapshot, hconduct]

theorem profile_adjusted (adjustment : Adjustment) (a : CachingAgent) :
    (adjustment.apply a).profile = a.profile := by
  cases adjustment with
  | setDelay delay => rfl
  | _ => exact profile_modifySnapshot a (fun _ => rfl) fun _ => rfl

theorem IsSnapshot.adjusted (h : a.IsSnapshot tells) (adjustment : Adjustment) :
    (adjustment.apply a).IsSnapshot tells := by
  cases adjustment with
  | setDelay delay => exact h
  | _ => exact h.modifySnapshot (fun _ => rfl) fun _ => rfl

theorem authoritativeTypes_of_snapshot {x : Snapshot} (hconduct : a.conduct = .snapshot x)
    (hx : x.informs = []) : a.profile.authoritativeTypes = [x.type] := by
  simp [Profile.authoritativeTypes, profile, types, hconduct, hx]

end CachingAgent

end Inventory
