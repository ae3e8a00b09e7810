import Inventory.Agent.Registry
import Inventory.Proofs.Collections

/-!
# Inventory.Proofs.Agent.Authority

No id has two authorities for one type.

The registry compares the descriptions of scopes, once, when an agent is registered. The comparison
speaks for every id and every way of reading ids (`Scope.overlaps_of_contains`). That it is enough to
make it at registration is an invariant: among the registered agents no two are rivals for any type
(`Divided`), and every change keeps it (`divided_after`).
-/

namespace Inventory

/-! ## Scopes -/

namespace Scope

variable {s t : Scope} {parsers : KeyParsers} {id : String}

theorem contains_account {provider name : String} {region : Option String} :
    (account provider name region).contains parsers id = true ↔
      ∃ key, parsers.parse id = .ok key ∧ key.provider = provider ∧ key.account = name ∧
        ∀ r ∈ region, key.region = r := by
  cases h : parsers.parse id <;> cases region <;> simp [contains, h, and_assoc]

theorem overlaps_ids {members others : StringSet} :
    (ids members).overlaps (ids others) = true ↔ ∃ x ∈ members, x ∈ others := by
  simp only [overlaps, StringSet.any_iff, Std.ExtTreeSet.mem_iff_contains]

/-- Two accounts that share an id overlap: its key names the provider, the account and the region of
both. -/
theorem overlaps_of_account {p q a b : String} {r₁ r₂ : Option String}
    (hs : (account p a r₁).contains parsers id = true)
    (ht : (account q b r₂).contains parsers id = true) :
    (account p a r₁).overlaps (account q b r₂) = true := by
  obtain ⟨key, hkey, rfl, rfl, hr₁⟩ := contains_account.1 hs
  obtain ⟨key', hkey', rfl, rfl, hr₂⟩ := contains_account.1 ht
  have hsame : key = key' := Except.ok.inj (hkey.symm.trans hkey')
  cases r₁ with
  | none => simp [overlaps, hsame]
  | some r₁ =>
      cases r₂ with
      | none => simp [overlaps, hsame]
      | some r₂ => simp [overlaps, ← hr₁ r₁ rfl, ← hr₂ r₂ rfl, hsame]

/-- Scopes that share an id overlap, whatever parsers read it. -/
theorem overlaps_of_contains (hs : s.contains parsers id = true)
    (ht : t.contains parsers id = true) : s.overlaps t = true := by
  cases s with
  | everything => rfl
  | ids members =>
      cases t with
      | everything => rfl
      | account => rfl
      | ids others => exact overlaps_ids.2 ⟨id, hs, ht⟩
  | account =>
      cases t with
      | everything => rfl
      | ids => rfl
      | account => exact overlaps_of_account hs ht

theorem overlaps_comm (s t : Scope) : s.overlaps t = t.overlaps s := by
  cases s with
  | everything => cases t <;> rfl
  | ids members =>
      cases t with
      | everything => rfl
      | account => rfl
      | ids others =>
          rw [Bool.eq_iff_iff, overlaps_ids, overlaps_ids]
          exact exists_congr fun _ => and_comm
  | account p a r₁ =>
      cases t with
      | everything => rfl
      | ids => rfl
      | account q b r₂ =>
          cases r₁ <;> cases r₂ <;> simp [overlaps, Bool.beq_comm]

end Scope

/-! ## Agents -/

namespace Profile

variable {p q : Profile} {type : String}

/-- Where two agents have authority for the same type, their scopes do not overlap. -/
def Apart (p q : Profile) : Prop :=
  ∀ type ∈ p.authoritativeTypes, type ∈ q.authoritativeTypes → p.scope.overlaps q.scope = false

theorem Apart.symm (h : p.Apart q) : q.Apart p := fun type hq hp => by
  rw [Scope.overlaps_comm]
  exact h type hp hq

/-- Agents that are apart do not answer for the same id of a type for which both have authority. -/
theorem Apart.not_contains (h : p.Apart q) (hp : type ∈ p.authoritativeTypes)
    (hq : type ∈ q.authoritativeTypes) {parsers : KeyParsers} {id : String}
    (hid : p.scope.contains parsers id = true) : q.scope.contains parsers id = false := by
  cases hother : q.scope.contains parsers id with
  | false => rfl
  | true =>
      have hoverlaps := Scope.overlaps_of_contains hid hother
      rw [h type hp hq] at hoverlaps
      contradiction

theorem apart_iff_rivals : q.Apart p ↔ ∀ type ∈ p.authoritativeTypes, p.rivals q type = false := by
  have hrivals : ∀ type, p.rivals q type = false ↔
      (type ∈ q.authoritativeTypes → q.scope.overlaps p.scope = false) := by
    intro type
    by_cases htype : type ∈ q.authoritativeTypes <;> simp [rivals, htype]
  simp only [hrivals]
  exact ⟨fun h type hp hq => h type hq hp, fun h type hq hp => h type hp hq⟩

end Profile

/-! ## Registration -/

namespace Registry

variable {profileOf : Nat → Profile} {r r' : Registry} {number : Nat}

theorem rival?_eq_none_iff {p : Profile} {type : String} :
    r.rival? profileOf p type = none ↔
      ∀ (name : String) (k : Nat), r.caching[name]? = some k →
        p.rivals (profileOf k) type = false := by
  have hvalues : r.rival? profileOf p type = none ↔
      ∀ k ∈ r.caching.values, p.rivals (profileOf k) type = false := by simp [rival?]
  rw [hvalues]
  exact ⟨fun h name k hk => h k (StringMap.mem_values.2 ⟨name, hk⟩),
    fun h k hk => (StringMap.mem_values.1 hk).elim fun name hname => h name k hname⟩

/-- No type is in the way of an agent exactly if all registered agents are apart from it. -/
theorem conflict?_eq_none_iff {p : Profile} :
    r.conflict? profileOf p = none ↔
      ∀ (name : String) (k : Nat), r.caching[name]? = some k → (profileOf k).Apart p := by
  simp only [conflict?, List.findSome?_eq_none_iff, Option.map_eq_none_iff, rival?_eq_none_iff,
    Profile.apart_iff_rivals]
  exact ⟨fun h name k hk type htype => h type htype name k hk,
    fun h type htype name k hk => h name k hk type htype⟩

/-- A registration adds an agent of a new name that is apart from all that are registered. -/
theorem register_eq_ok_iff : r.register profileOf number = (.ok (), r') ↔
    ((profileOf number).agent ∉ r.caching ∧
      ∀ (name : String) (k : Nat), r.caching[name]? = some k →
        (profileOf k).Apart (profileOf number)) ∧
    r' = { r with caching := r.caching.insert (profileOf number).agent number } := by
  rw [← conflict?_eq_none_iff]
  by_cases hname : (profileOf number).agent ∈ r.caching
  · simp [register, hname]
  · cases hconflict : r.conflict? profileOf (profileOf number) with
    | some e => simp [register, hname, hconflict]
    | none => simp [register, hname, hconflict, eq_comm]

/-- An agent that is refused leaves no trace. -/
theorem register_of_error {e : Error} (h : (r.register profileOf number).1 = .error e) :
    (r.register profileOf number).2 = r := by
  unfold register at h ⊢
  dsimp only at h ⊢
  split
  · rfl
  · rename_i hname
    rw [if_neg hname] at h
    split
    · rfl
    · rename_i hconflict
      rw [hconflict] at h
      contradiction

theorem getElem?_deregisterAccount {provider account name : String} {k : Nat}
    (hk : (r.deregisterAccount profileOf provider account).caching[name]? = some k) :
    r.caching[name]? = some k := by
  rw [deregisterAccount, StringMap.getElem?_eraseMany] at hk
  split at hk <;> simp_all

theorem getElem?_deregister {agent name : String} {k : Nat}
    (hk : (r.deregister agent).caching[name]? = some k) : r.caching[name]? = some k := by
  rw [deregister, Std.ExtTreeMap.getElem?_erase] at hk
  split at hk <;> simp_all

/-! ## Changes -/

/-- A change to the caching agents. -/
inductive Change where
  | register (number : Nat)
  | deregister (agent : String)
  | deregisterAccount (provider account : String)

/-- Makes a change. -/
def after (profileOf : Nat → Profile) (r : Registry) : Change → Registry
  | .register number => (r.register profileOf number).2
  | .deregister agent => r.deregister agent
  | .deregisterAccount provider account => r.deregisterAccount profileOf provider account

/-- Every agent is registered under its name, and any two of them are apart. -/
structure Divided (profileOf : Nat → Profile) (r : Registry) : Prop where
  named : ∀ (name : String) (k : Nat), r.caching[name]? = some k → (profileOf k).agent = name
  apart : ∀ (name name' : String) (k k' : Nat), r.caching[name]? = some k →
    r.caching[name']? = some k' → name ≠ name' → (profileOf k).Apart (profileOf k')

theorem divided_empty : Divided profileOf {} where
  named name k h := by simp at h
  apart name name' k k' h := by simp at h

/-- Taking agents away keeps the others apart. -/
theorem Divided.of_forall (h : Divided profileOf r)
    (hr' : ∀ (name : String) (k : Nat), r'.caching[name]? = some k → r.caching[name]? = some k) :
    Divided profileOf r' where
  named name k hk := h.named name k (hr' name k hk)
  apart name name' k k' hk hk' := h.apart name name' k k' (hr' name k hk) (hr' name' k' hk')

/-- Only the profiles of registered agents count. -/
theorem Divided.congr {profileOf' : Nat → Profile} (h : Divided profileOf r)
    (hsame : ∀ (name : String) (k : Nat), r.caching[name]? = some k → profileOf' k = profileOf k) :
    Divided profileOf' r where
  named name k hk := by
    rw [hsame name k hk]
    exact h.named name k hk
  apart name name' k k' hk hk' hne := by
    rw [hsame name k hk, hsame name' k' hk']
    exact h.apart name name' k k' hk hk' hne

/-- A registration compares the new agent with all others, so that it is apart from them too. -/
theorem Divided.register (h : Divided profileOf r)
    (hr' : r.register profileOf number = (.ok (), r')) : Divided profileOf r' := by
  obtain ⟨⟨-, hnew⟩, rfl⟩ := register_eq_ok_iff.1 hr'
  constructor
  · intro name k hk
    rw [Std.ExtTreeMap.getElem?_insert] at hk
    have := h.named name k
    grind
  · intro name name' k k' hk hk' hne
    have hold := h.apart name name' k k'
    have hfirst := hnew name' k'
    have hsecond := hnew name k
    rw [Std.ExtTreeMap.getElem?_insert] at hk hk'
    grind [Profile.Apart.symm]

/-- Every change keeps the registered agents apart. -/
theorem Divided.after (h : Divided profileOf r) (change : Change) :
    Divided profileOf (r.after profileOf change) := by
  cases change with
  | register number =>
      rcases hr' : r.register profileOf number with ⟨result, r'⟩
      rw [Registry.after, hr']
      cases result with
      | ok _ => exact h.register hr'
      | error e =>
          have hsame := register_of_error (congrArg Prod.fst hr')
          rw [hr'] at hsame
          exact hsame ▸ h
  | deregister agent => exact h.of_forall fun _ _ => getElem?_deregister
  | deregisterAccount provider account => exact h.of_forall fun _ _ => getElem?_deregisterAccount

theorem divided_foldl (changes : List Change) :
    Divided profileOf (changes.foldl (Registry.after profileOf) {}) := by
  suffices hrun : ∀ r, Divided profileOf r →
      Divided profileOf (changes.foldl (Registry.after profileOf) r) from hrun {} divided_empty
  induction changes with
  | nil => intro r h; exact h
  | cons change changes ih => intro r h; exact ih _ (h.after change)

/-- Whatever was registered and deregistered before: no id is in the scopes of two registered agents
with authority for one type, however ids are read. An agent is registered exactly if its name is new
and no registered agent with authority for a type of it has an overlapping scope, and nothing changes
if it is not. -/
theorem authorities_divided (profileOf : Nat → Profile) (changes : List Change) :
    let r := changes.foldl (Registry.after profileOf) {}
    (∀ (name name' : String) (k k' : Nat), r.caching[name]? = some k →
      r.caching[name']? = some k' → name ≠ name' →
      ∀ type ∈ (profileOf k).authoritativeTypes, type ∈ (profileOf k').authoritativeTypes →
      ∀ (parsers : KeyParsers) (id : String),
        ¬((profileOf k).scope.contains parsers id = true ∧
          (profileOf k').scope.contains parsers id = true)) ∧
    ∀ number : Nat,
      (∀ r', r.register profileOf number = (.ok (), r') ↔
        ((profileOf number).agent ∉ r.caching ∧
          ¬∃ (name : String) (k : Nat), r.caching[name]? = some k ∧
            (∃ type ∈ (profileOf number).authoritativeTypes,
              type ∈ (profileOf k).authoritativeTypes) ∧
            (profileOf k).scope.overlaps (profileOf number).scope = true) ∧
        r' = { r with caching := r.caching.insert (profileOf number).agent number }) ∧
      ∀ e, (r.register profileOf number).1 = .error e → (r.register profileOf number).2 = r := by
  intro r
  have h : Divided profileOf r := divided_foldl changes
  refine ⟨?_, fun number => ⟨fun r' => ?_, fun e he => register_of_error he⟩⟩
  · intro name name' k k' hk hk' hne type htype htype' parsers id ⟨hid, hid'⟩
    have hnot := (h.apart name name' k k' hk hk' hne).not_contains htype htype' hid
    rw [hid'] at hnot
    contradiction
  · rw [register_eq_ok_iff]
    simp only [Profile.Apart]
    grind

/-! ## An example of two regions -/

/-- Agents with authority for one type: two of them each in a region of its own, all others in the whole
account. -/
def ofRegion (number : Nat) : Profile :=
  let region := if number = 0 then some "east" else if number = 1 then some "west" else none
  { agent := region.getD "all", provider := "cloud", account := "prod", region
    scope := .account "cloud" "prod" region, types := [⟨"t", true⟩] }

/-- The registry in which the first two are. -/
def twoRegions : Registry := [Change.register 0, .register 1].foldl (Registry.after ofRegion) {}

/-- Both agents can be registered, and no id is in both regions. The third one is refused, and the registry is
as it was. -/
theorem two_regions_divided :
    twoRegions.caching["east"]? = some 0 ∧ twoRegions.caching["west"]? = some 1 ∧
      (∀ (parsers : KeyParsers) (id : String),
        ¬((ofRegion 0).scope.contains parsers id = true ∧
          (ofRegion 1).scope.contains parsers id = true)) ∧
      (twoRegions.register ofRegion 2).1 = .error (.authorityConflict "t" "east" "all") ∧
      (twoRegions.register ofRegion 2).2 = twoRegions := by
  have heast : twoRegions.caching["east"]? = some 0 := by decide +kernel
  have hwest : twoRegions.caching["west"]? = some 1 := by decide +kernel
  have hrefused : (twoRegions.register ofRegion 2).1 = .error (.authorityConflict "t" "east" "all") := by
    have hname : (ofRegion 2).agent ∉ twoRegions.caching := by decide +kernel
    have hconflict : twoRegions.conflict? ofRegion (ofRegion 2) =
        some (.authorityConflict "t" "east" "all") := by decide +kernel
    simp only [register, hname, if_false, hconflict]
  obtain ⟨hdivided, hregisters⟩ := authorities_divided ofRegion [.register 0, .register 1]
  refine ⟨heast, hwest, ?_, hrefused, (hregisters 2).2 _ hrefused⟩
  exact hdivided "east" "west" 0 1 heast hwest (by decide) "t" (by decide) (by decide)

end Registry

end Inventory
