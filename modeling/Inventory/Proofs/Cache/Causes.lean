import Inventory.Cache.Backend
import Inventory.Merge.Engine
import Inventory.Proofs.Key.Providers
import Inventory.Proofs.Plan.Causes

/-!
# Inventory.Proofs.Cache.Causes

With which errors work on a cache fails, and what it tells.

An agent may fail to load its data, take too long, or be cancelled (`Error.endsLoad`). No backend answers
with such an error and no work on the cache makes one of its own, so an execution that ends with one has
been ended by its load. The only other errors are those of the parsers of keys, and a report that one of
them refuses asks nothing (`Engine.mergeSnapshot_cases`). Nor is a text refused, except where a request brings
one that is no glob or no id (`CacheRequest.Allows`). No backend tells of a refused report
(`Backend.Confines`).
-/

namespace Inventory

/-- Whether an error is one by which a load ends. -/
def Error.endsLoad : Error → Bool
  | agentFailed .. | timedOut .. | cancelled .. => true
  | _ => false

/-- Whether an error is one with which work on a cache may fail. -/
def Error.IsOfCache (e : Error) : Prop := e.endsLoad = false

/-- Whether an error refuses a text that is no key, no id or no glob. -/
def Error.isMalformed : Error → Bool
  | malformedKey .. => true
  | _ => false

theorem Error.isMalformed_iff {e : Error} :
    e.isMalformed = true ↔ ∃ key fault, e = .malformedKey key fault := by
  cases e <;> simp [isMalformed]

theorem Error.isOfCache_of_isMalformed (e : Error) (h : e.isMalformed = true) : e.IsOfCache := by
  obtain ⟨key, fault, rfl⟩ := isMalformed_iff.1 h
  rfl

/-- Whether an activity is that a report was refused. -/
def Activity.isRejection : Activity → Bool
  | rejected .. => true
  | _ => false

open Error (IsOfCache)

variable {α : Type} {cause : Error → Prop}

/-- A kind of errors to which all those belong with which work on a cache fails, but those that refuse a
text. -/
def CoversCache (cause : Error → Prop) : Prop :=
  ∀ e : Error, e.IsOfCache → e.isMalformed = false → cause e

theorem coversCache_isOfCache : CoversCache IsOfCache := fun _ h _ => h

theorem coversCache_not_malformed : CoversCache fun e => e.isMalformed = false := fun _ _ h => h

theorem coversCache_any : CoversCache fun _ => True := fun _ _ _ => trivial

/-! ## What is asked -/

/-- A question whose glob, if it has one, is refused with an error of a kind. -/
def Query.Allows (cause : Error → Prop) : Query → Prop
  | scan _ (some glob) => Blames cause (Glob.compile glob)
  | _ => True

def StoreRequest.Allows (cause : Error → Prop) : StoreRequest → Prop
  | read q => q.Allows cause
  | write _ => True

/-- A request whose texts, if they are refused, are refused with an error of a kind. -/
def CacheRequest.Allows (cause : Error → Prop) : CacheRequest → Prop
  | matching _ glob => Blames cause (Glob.compile glob)
  | write _ type es => ∀ e ∈ es, e.id.isEmpty → cause (.malformedKey e.id (.emptyId type))
  | _ => True

/-! ## Keys, globs and blobs -/

theorem Segment.blames_unescape (s : String) : Blames (·.isMalformed) (unescape s) := by
  unfold unescape
  split
  · exact blames_ok _
  · exact blames_error.2 rfl

theorem Key.blames_unescapeAll (key : String) (raw : List String) :
    Blames (·.isMalformed) (unescapeAll key raw) := by
  induction raw with
  | nil => exact blames_ok _
  | cons s raw ih =>
      have hread : Blames (·.isMalformed) (do
          let first ← Segment.unescape s
          let others ← unescapeAll key raw
          return first :: others) :=
        (Segment.blames_unescape s).bind fun _ => ih.bind fun _ => blames_ok _
      rw [unescapeAll]
      split
      · exact blames_error.2 rfl
      · exact hread

theorem KeyParser.blames_parse (p : KeyParser) (s : String) : Blames (·.isMalformed) (p.parse s) := by
  unfold parse
  dsimp only
  split
  · exact blames_error.2 rfl
  · refine (Key.blames_unescapeAll s _).bind fun segments => ?_
    cases Key.ofSegments? segments with
    | none => exact blames_error.2 rfl
    | some key =>
        dsimp only
        split
        · exact blames_error.2 rfl
        · exact blames_ok _

/-- Parsers that refuse a text only as one that is no key. -/
def KeyParsers.RefuseMalformed (ps : KeyParsers) : Prop :=
  ∀ provider s, Blames (·.isMalformed) ((ps.parserFor provider).parse s)

theorem KeyParsers.AreCommon.refuseMalformed {ps : KeyParsers} (h : ps.AreCommon) :
    ps.RefuseMalformed := by
  intro provider s
  obtain ⟨p, hp⟩ := h provider
  rw [hp]
  exact p.blames_parse s

theorem KeyParsers.RefuseMalformed.register {ps : KeyParsers} (h : ps.RefuseMalformed) {p : KeyReader}
    (hp : ∀ s, Blames (·.isMalformed) (p.parse s)) : (ps.register p).RefuseMalformed := by
  intro provider s
  rw [parserFor_register]
  split
  · exact hp s
  · exact h provider s

theorem KeyParsers.RefuseMalformed.blames_parse {ps : KeyParsers} (h : ps.RefuseMalformed) (s : String) :
    Blames (·.isMalformed) (ps.parse s) := by
  unfold parse
  split
  · exact blames_error.2 rfl
  · exact h _ s

theorem Glob.blames_compile (glob : String) : Blames (·.isMalformed) (compile glob) := by
  unfold compile
  split
  · exact blames_ok _
  · exact blames_error.2 rfl

theorem Query.allows_isOfCache (q : Query) : q.Allows IsOfCache := by
  unfold Query.Allows
  split
  · exact (Glob.blames_compile _).mono Error.isOfCache_of_isMalformed
  · trivial

theorem StoreRequest.allows_isOfCache (r : StoreRequest) : r.Allows IsOfCache := by
  cases r with
  | read q => exact q.allows_isOfCache
  | write batch => trivial

theorem CacheRequest.allows_isOfCache (r : CacheRequest) : r.Allows IsOfCache := by
  unfold CacheRequest.Allows
  split
  · exact (Glob.blames_compile _).mono Error.isOfCache_of_isMalformed
  · exact fun _ _ _ => rfl
  · trivial

section Cache

variable (hcause : CoversCache cause)

include hcause

theorem Blob.blames_decode (blob : Bytes) : Blames cause (decode blob) := by
  have hcontent : Blames cause (content? blob) := by
    unfold content?
    split
    · split
      · exact blames_ok _
      · exact blames_error.2 (hcause _ rfl rfl)
    · exact blames_ok _
  refine hcontent.bind fun content => ?_
  unfold attributes?
  split
  · exact blames_ok _
  · exact blames_error.2 (hcause _ rfl rfl)

/-! ## Stores -/

theorem Node.blames_read (n : Node) {q : Query} (hq : q.Allows cause) : Blames cause (n.read q) := by
  unfold read
  split
  · exact blames_error.2 (hcause _ rfl rfl)
  · unfold lookup
    split
    case h_5 => exact Blames.bind hq fun _ => blames_ok _
    all_goals exact blames_ok _

theorem Node.blames_write (n : Node) (batch : List Command) {reply : Except Error Unit}
    (h : (n.write batch).2 = some reply) : Blames cause reply := by
  unfold write at h
  split at h
  · contradiction
  · split at h
    · cases h
      exact blames_error.2 (hcause _ rfl rfl)
    · cases h
      exact blames_ok _

namespace Store

theorem blames_askOwner (shards : List Node) (key : String) {q : Query} (hq : q.Allows cause) :
    Blames cause (askOwner shards key q) := by
  unfold askOwner
  split
  · exact Node.blames_read hcause _ hq
  · exact blames_error.2 (hcause _ rfl rfl)

omit hcause in
theorem blames_gather {read : Node → List String → Except Error (List α)}
    (hread : ∀ node keys, Blames cause (read node keys)) (count : Nat) (keys : List String)
    (nodes : List (Node × Nat)) : Blames cause (gather read count keys nodes) := by
  induction nodes with
  | nil => exact blames_ok _
  | cons x nodes ih =>
      have hothers : ∀ values : List α, Blames cause (do
          let others ← gather read count keys nodes
          return ((keysOf count keys x.2).map Prod.snd).zip values ++ others) :=
        fun _ => ih.bind fun _ => blames_ok _
      unfold gather
      dsimp only
      split
      · exact (blames_ok []).bind hothers
      · exact (hread _ _).bind hothers

omit hcause in
theorem blames_scatter {read : Node → List String → Except Error (List α)}
    (hread : ∀ node keys, Blames cause (read node keys)) (missing : α) (shards : List Node)
    (keys : List String) : Blames cause (scatter read missing shards keys) :=
  (blames_gather hread _ keys _).bind fun _ => blames_ok _

theorem blames_read (s : Store) {q : Query} (hq : q.Allows cause) : Blames cause (s.read q) := by
  cases s with
  | single node => exact node.blames_read hcause hq
  | sharded shards =>
      cases q with
      | blobs keys =>
          exact blames_scatter (fun node keys => node.blames_read hcause (q := .blobs keys) trivial) _
            shards keys
      | sets keys =>
          exact blames_scatter (fun node keys => node.blames_read hcause (q := .sets keys) trivial) _
            shards keys
      | hashFields key fields => exact blames_askOwner hcause shards key hq
      | scan key glob => exact blames_askOwner hcause shards key hq
      | contains key texts => exact blames_askOwner hcause shards key hq

omit hcause in
theorem blames_combine {answers : List (Option (Except Error Unit))}
    (h : ∀ reply, some reply ∈ answers → Blames cause reply) {reply : Except Error Unit}
    (hcombine : combine answers = some reply) : Blames cause reply := by
  induction answers with
  | nil =>
      cases hcombine
      exact blames_ok _
  | cons answer answers ih =>
      have hrest := ih fun reply hreply => h reply (List.mem_cons_of_mem _ hreply)
      match answer with
      | none => contradiction
      | some (.ok ()) => exact hrest hcombine
      | some (.error e) =>
          obtain ⟨_, -, rfl⟩ := Option.map_eq_some_iff.1 hcombine
          exact h _ List.mem_cons_self

theorem blames_write (s : Store) (batch : List Command) {reply : Except Error Unit}
    (h : (s.write batch).2 = some reply) : Blames cause reply := by
  cases s with
  | single node => exact node.blames_write hcause batch h
  | sharded shards =>
      refine blames_combine (fun reply hreply => ?_) h
      rw [List.mem_map] at hreply
      obtain ⟨answer, hanswer, hreply⟩ := hreply
      obtain ⟨i, hi, rfl⟩ := List.mem_mapIdx.1 hanswer
      unfold writePart at hreply
      dsimp only at hreply
      split at hreply
      · cases hreply
        exact blames_ok _
      · exact Node.blames_write hcause _ _ hreply

theorem blames_answer (s : Store) {r : StoreRequest} (hr : r.Allows cause) {reply : Except Error r.Reply}
    (h : (s.answer r).2 = some reply) : Blames cause reply := by
  cases r with
  | read q =>
      cases h
      exact s.blames_read hcause hr
  | write batch => exact s.blames_write hcause batch h

end Store

/-! ## Requests to a cache -/

namespace KeyValue

open Plan

variable (o : Options) (type : String) {asks : StoreRequest → Prop} {tells : Activity → Prop}

omit hcause in
theorem confined_existing (hasks : ∀ key texts, asks (.read (.contains key texts))) (ids : List String) :
    (existing o type ids).Confined asks tells cause :=
  confined_forEach (fun _ _ _ => confined_bind (confined_perform (hasks _ _)) fun _ => confined_pure _) _

omit hcause in
theorem confined_matching {glob : String} (hglob : Blames cause (Glob.compile glob)) :
    (matching o type glob).Confined (·.Allows cause) tells cause := by
  unfold matching
  split
  · rename_i e he
    rw [he] at hglob
    exact confined_fail (blames_error.1 hglob)
  · refine confined_bind (confined_perform ?_) fun _ => confined_pure _
    by_cases hbrace : glob.contains '\x7b'
    · rw [if_pos hbrace]
      trivial
    · rw [if_neg hbrace]
      exact hglob

theorem blames_assemble (types : List String) (ids : List String) (blobs : List (Option Bytes))
    (sets : List StringSet) : Blames cause (assemble types ids blobs sets) := by
  fun_induction assemble types ids blobs sets with
  | case1 sets id ids blobs related blob ih =>
      exact (Blob.blames_decode hcause blob).bind fun _ => ih.bind fun _ => blames_ok _
  | case2 sets id ids blobs related ih => exact (blames_ok []).bind fun _ => ih.bind fun _ => blames_ok _
  | case3 => exact blames_ok _

theorem confined_readChunk (types : List String) (state : List Entity × GetCounts) (chunk : List String) :
    (readChunk o type types state chunk).Confined (·.Allows cause) tells cause := by
  have hsets : ∀ keys, (readSets o keys).Confined (·.Allows cause) tells cause := fun keys =>
    confined_forEach (fun _ _ _ => confined_bind (confined_perform trivial) fun _ => confined_pure _) _
  refine confined_bind (confined_perform trivial) fun blobs => confined_bind (hsets _) fun sets => ?_
  exact confined_bind (confined_ofExcept (blames_assemble hcause types chunk blobs sets.1)) fun _ =>
    confined_pure _

theorem confined_entities (ids : Option (List String)) (filter : Option NameFilter) :
    (entities o type ids filter).Confined (·.Allows cause) (fun a => a.isRejection = false) cause := by
  have hlocate : (locate o type ids).Confined (·.Allows cause) (fun a => a.isRejection = false) cause := by
    cases ids with
    | none => exact confined_bind (confined_perform trivial) fun _ => confined_pure _
    | some ids => exact confined_bind (confined_existing o type (fun _ _ => trivial) _) fun _ => confined_pure _
  refine confined_bind hlocate fun located => ?_
  have hhydrate : (hydrate o type located.2 filter).Confined (·.Allows cause)
      (fun a => a.isRejection = false) cause :=
    confined_bind (confined_perform trivial) fun all =>
      confined_forEach (fun state chunk _ => confined_readChunk hcause o type _ state chunk) _
  dsimp only
  split
  · exact confined_bind (confined_give _) fun _ => confined_bind (confined_tell rfl) fun _ => confined_pure _
  · exact confined_bind hhydrate fun _ => confined_bind (confined_tell rfl) fun _ => confined_pure _

omit hcause in
theorem confined_write (mode : WriteMode) {entities : List Entity}
    (h : ∀ e ∈ entities, e.id.isEmpty → cause (.malformedKey e.id (.emptyId type))) :
    (write o mode type entities).Confined (·.Allows cause) (fun a => a.isRejection = false) cause := by
  have hstored : ∀ chunk, (storedDigests o type chunk).Confined (·.Allows cause)
      (fun a => a.isRejection = false) cause := by
    intro chunk
    unfold storedDigests
    dsimp only
    split
    · exact confined_bind (confined_perform trivial) fun _ => confined_pure _
    · exact confined_give _
  unfold write
  split
  · next e he =>
      have hempty : e.id.isEmpty := List.find?_some (p := fun e : Entity => e.id.isEmpty) he
      exact confined_fail (h e (List.mem_of_find?_eq_some he) hempty)
  · refine confined_bind (confined_forEach (fun counts chunk _ => ?_) _) fun _ => confined_tell rfl
    exact confined_bind (hstored chunk) fun _ => confined_bind (confined_perform trivial) fun _ =>
      confined_pure _

omit hcause in
theorem confined_evict (ids : List String) :
    (evict o type ids).Confined (·.Allows cause) (fun a => a.isRejection = false) cause := by
  unfold evict
  split
  · exact confined_give ()
  · refine confined_bind (confined_perform trivial) fun types => confined_bind ?_ fun _ => confined_tell rfl
    exact confined_forEach (fun _ _ _ => confined_bind (confined_perform trivial) fun _ => confined_pure _) _

omit hcause in
theorem confined_unlink (ids : List String) (related : String) (targets : List String) :
    (unlink o type ids related targets).Confined (·.Allows cause) tells cause := by
  have hcommit : ∀ batch, (commit batch).Confined (·.Allows cause) tells cause := fun batch =>
    confined_perform (r := StoreRequest.write batch) trivial
  unfold unlink
  split
  · exact confined_give ()
  · exact confined_forEach (fun _ _ _ => hcommit _) ()

theorem confined_plan {r : CacheRequest} (hr : r.Allows cause) :
    (plan o r).Confined (·.Allows cause) (fun a => a.isRejection = false) cause := by
  cases r with
  | entities type ids filter => exact confined_entities hcause o type ids filter
  | identifiers type => exact confined_perform trivial
  | matching type glob => exact confined_matching o type hr
  | existing type ids => exact confined_existing o type (fun _ _ => trivial) ids
  | write mode type entities => exact confined_write o type mode hr
  | evict type ids => exact confined_evict o type ids
  | unlink type ids related targets => exact confined_unlink o type ids related targets

end KeyValue

omit hcause in
theorem Memory.blames_answer (m : Memory) {r : CacheRequest} (hr : r.Allows cause) :
    Blames cause (m.answer r).2 := by
  cases r with
  | matching type glob => exact Blames.map hr _
  | write mode type entities =>
      change Blames cause (writeAll mode type (m.recordsOf type) entities).2
      generalize m.recordsOf type = records
      induction entities generalizing records with
      | nil => exact blames_ok _
      | cons e entities ih =>
          rw [writeAll]
          split
          · exact blames_error.2 (hr e List.mem_cons_self (by assumption))
          · exact ih (fun e he => hr e (List.mem_cons_of_mem _ he)) _
  | _ => exact blames_ok _

/-! ## Backends -/

omit hcause in
/-- A backend that answers certain requests with errors of a kind only, asks no others for those to the
cache, and tells of no refused report. -/
structure Backend.Confines (B : Backend) (cause : Error → Prop) (asks : B.Request → Prop) : Prop where
  plan : ∀ r : CacheRequest, r.Allows cause →
    (B.plan r).Confined asks (fun a => a.isRejection = false) cause
  answer : ∀ (r : B.Request) (s : B.State) (reply : Except Error (B.Reply r)), asks r →
    (B.answer r s).2 = some reply → Blames cause reply
  silence : ∀ s, cause (B.silence s)

theorem Backend.confines_memory (name : String) : (memory name).Confines cause (CacheRequest.Allows cause) where
  plan _ hr := Plan.confined_perform hr
  answer _ m reply hr h := by
    cases h
    exact Memory.blames_answer m hr
  silence _ := hcause _ rfl rfl

theorem Backend.confines_keyValue (o : KeyValue.Options) :
    (keyValue o).Confines cause (StoreRequest.Allows cause) where
  plan _ hr := KeyValue.confined_plan hcause o hr
  answer _ s _ hr h := s.blames_answer hcause hr h
  silence _ := hcause _ rfl rfl

end Cache

/-- A backend whose errors are those of a cache. -/
structure Backend.Blameless (B : Backend) : Prop where
  plan : ∀ r, (B.plan r).FailsFor IsOfCache
  answer : ∀ (r : B.Request) (s : B.State) (reply : Except Error (B.Reply r)),
    (B.answer r s).2 = some reply → Blames IsOfCache reply
  silence : ∀ s, (B.silence s).IsOfCache

theorem Backend.Confines.blameless {B : Backend} {asks : B.Request → Prop} (h : B.Confines IsOfCache asks)
    (hasks : ∀ r, asks r) : B.Blameless where
  plan r := (h.plan r r.allows_isOfCache).failsFor
  answer r s reply hreply := h.answer r s reply (hasks r) hreply
  silence := h.silence

theorem Backend.blameless_memory (name : String) : (memory name).Blameless :=
  (Backend.confines_memory coversCache_isOfCache name).blameless CacheRequest.allows_isOfCache

theorem Backend.blameless_keyValue (o : KeyValue.Options) : (keyValue o).Blameless :=
  (Backend.confines_keyValue coversCache_isOfCache o).blameless StoreRequest.allows_isOfCache

/-! ## Merging -/

namespace Engine

open Plan

variable (engine : Engine) {asks : CacheRequest → Prop} {tells : Activity → Prop}

theorem blames_checkId (hparsers : engine.parsers.RefuseMalformed) (type id : String) :
    Blames (·.isMalformed) (engine.checkId type id) := by
  unfold checkId
  split
  · exact blames_error.2 rfl
  · split
    · exact (hparsers.blames_parse id).map _
    · exact blames_ok _

theorem confined_staleIds (hids : ∀ type, asks (.identifiers type))
    (hexisting : ∀ type ids, asks (.existing type ids)) (source : Source) (authoritative : StringSet)
    (r : Report) : (engine.staleIds source authoritative r).Confined asks tells cause := by
  refine confined_forEach (fun stale type _ => confined_bind ?_ fun _ => confined_pure _) _
  cases source.scope with
  | ids members => exact confined_perform (hexisting _ _)
  | _ => exact confined_bind (confined_perform (hids _)) fun _ => confined_pure _

theorem confined_writeAll (authoritative : StringSet) {r : Report}
    (h : ∀ type es, (type, es) ∈ r.entities.toList → ∀ e ∈ es, e.id.isEmpty →
      cause (.malformedKey e.id (.emptyId type))) :
    (writeAll authoritative r).Confined (·.Allows cause) tells cause := by
  refine confined_forEach (fun stats x hx => ?_) _
  have hes := h x.1 x.2 hx
  dsimp only
  split
  · exact confined_give _
  · refine confined_bind ?_ fun _ => confined_pure _
    unfold writeType
    split
    · exact confined_perform hes
    · split
      · exact confined_perform hes
      · refine confined_perform fun e he => ?_
        obtain ⟨e', he', rfl⟩ := List.mem_map.1 he
        exact hes e' he'

theorem confined_unlinkType (type : String) (stats : MergeStats) (related : String)
    (byId : StringMap StringSet) :
    (unlinkType type stats related byId).Confined (·.Allows cause) tells cause := by
  refine confined_bind (confined_attempt (confined_perform trivial)) fun holders => ?_
  cases holders with
  | error e => exact confined_pure _
  | ok holders =>
      refine confined_forEach (fun stats x _ => ?_) stats
      dsimp only [unlinkOne]
      split
      · exact confined_give _
      · refine confined_bind (confined_attempt (confined_perform trivial)) fun unlinked => ?_
        cases unlinked <;> exact confined_pure _

theorem confined_evictType (stats : MergeStats) (type : String) (ids : StringSet) :
    (evictType stats type ids).Confined (·.Allows cause) tells cause := by
  have hcascade : (cascade type ids.toList stats).Confined (·.Allows cause) tells cause :=
    confined_bind (confined_perform trivial) fun evicted =>
      confined_forEach (fun stats (x : String × StringMap StringSet) _ =>
        confined_unlinkType type stats x.1 x.2) stats
  unfold evictType
  split
  · exact confined_give _
  · refine confined_bind (confined_attempt hcascade) fun unlinked => ?_
    have hevict : ∀ stats : MergeStats, (do
        CachePlan.evict type ids.toList
        return stats.hasEvicted type ids.size : CachePlan MergeStats).Confined (·.Allows cause) tells
          cause :=
      fun _ => confined_bind (confined_perform trivial) fun _ => confined_pure _
    cases unlinked with
    | ok stats => exact confined_bind (confined_give _) hevict
    | error e => exact confined_bind (confined_give _) hevict

/-- A report that is applied fails for what the cache fails for, and for entities without ids. -/
theorem confined_apply (authoritative : StringSet) {r : Report}
    (h : ∀ type es, (type, es) ∈ r.entities.toList → ∀ e ∈ es, e.id.isEmpty →
      cause (.malformedKey e.id (.emptyId type))) (stale : StringMap StringSet) :
    (apply authoritative r stale).Confined (·.Allows cause) tells cause :=
  confined_bind (confined_writeAll authoritative h) fun stats =>
    confined_forEach (fun stats x _ => confined_evictType stats x.1 x.2) stats

/-- All ids are accepted, or the check ends with the first that is not. -/
theorem checkAll_cases (source : Source) (ids : List (String × String)) :
    engine.checkAll source ids = .give () ∨ ∃ a e, engine.checkAll source ids = .note a (.fail e) := by
  induction ids with
  | nil => exact .inl rfl
  | cons x ids ih =>
      unfold checkAll
      split
      · exact ih
      · exact .inr ⟨_, _, rfl⟩

/-- A merge fails as work on the cache does, unless its report is refused, for whatever reason a parser has,
before anything is asked. -/
theorem mergeSnapshot_cases (source : Source) (authoritative : StringSet) (r : Report) :
    (engine.mergeSnapshot source authoritative r).FailsFor IsOfCache ∨
      ∃ a e, engine.mergeSnapshot source authoritative r = .note a (.fail e) := by
  have hmerge : (engine.staleIds source authoritative r >>= apply authoritative r).Confined
      (·.Allows IsOfCache) (fun _ => True) IsOfCache :=
    confined_bind (engine.confined_staleIds (fun _ => trivial) (fun _ _ => trivial) source
      authoritative r) fun stale => confined_apply authoritative (fun _ _ _ _ _ _ => rfl) stale
  unfold mergeSnapshot
  rcases engine.checkAll_cases source (namedIds r) with haccepted | ⟨a, e, hrefused⟩
  · rw [haccepted]
    exact .inl hmerge.failsFor
  · rw [hrefused]
    exact .inr ⟨a, e, rfl⟩

end Engine

end Inventory
