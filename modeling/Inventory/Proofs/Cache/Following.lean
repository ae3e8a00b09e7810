import Inventory.Cache.Backend
import Inventory.Proofs.KeyValue.Reading
import Inventory.Proofs.Store.Routing

/-!
# Inventory.Proofs.Cache.Following

Work on a cache, followed over a backend.

Over a healthy store and over memory, work always ends (`keyValue_endsIn`, `memory_endsIn`), and it
ends as its run on the cells or on the records does.
-/

namespace Inventory

/-- Requests one after the other, whatever each of them comes to. -/
def CachePlan.inTurn (calls : List CacheRequest) : CachePlan Unit :=
  Plan.forEach calls () fun _ r => (Plan.perform r).attempt >>= fun _ => pure ()

theorem CachePlan.run_inTurn_cons {σ : Type} (respond : Plan.Responder CacheRequest CacheRequest.Reply σ)
    (s : σ) (r : CacheRequest) (calls : List CacheRequest) :
    (inTurn (r :: calls)).run respond s = (inTurn calls).run respond (respond r s).1 := by
  rw [inTurn, Plan.run_forEach_cons, Plan.run_bind, Plan.run_attempt]
  rfl

theorem CachePlan.run_inTurn_result {σ : Type}
    (respond : Plan.Responder CacheRequest CacheRequest.Reply σ) (calls : List CacheRequest) (s : σ) :
    ((inTurn calls).run respond s).2 = .ok () := by
  induction calls generalizing s with
  | nil => rfl
  | cons r calls ih => rw [run_inTurn_cons, ih]

theorem CachePlan.asks_inTurn {kind : CacheRequest → Prop} {calls : List CacheRequest}
    (h : ∀ r ∈ calls, kind r) : (inTurn calls).Asks kind :=
  Plan.asks_forEach fun _ r hr => Plan.asks_bind (Plan.asks_attempt (Plan.asks_perform (h r hr)))
    fun _ => trivial

namespace Backend

variable {α : Type}

/-- Following work on the cache over a backend from `s` ends in `s'` with a result. -/
def EndsIn (B : Backend) (p : CachePlan α) (s s' : B.State) (result : Except Error α) : Prop :=
  (B.work p).EndsIn B.answer s s' result

/-- A request to a cache in a certain state is answered with a reply. -/
def Replies (B : Backend) (s : B.State) (r : CacheRequest) (reply : Except Error r.Reply) : Prop :=
  ∃ s', B.EndsIn (.perform r) s s' reply

theorem EndsIn.unique {B : Backend} {p : CachePlan α} {s s₁ s₂ : B.State} {x₁ x₂ : Except Error α}
    (h₁ : B.EndsIn p s s₁ x₁) (h₂ : B.EndsIn p s s₂ x₂) : s₁ = s₂ ∧ x₁ = x₂ :=
  Plan.EndsIn.unique h₁ h₂

theorem Replies.unique {B : Backend} {s : B.State} {r : CacheRequest} {x₁ x₂ : Except Error r.Reply}
    (h₁ : B.Replies s r x₁) (h₂ : B.Replies s r x₂) : x₁ = x₂ := by
  obtain ⟨s₁, h₁⟩ := h₁
  obtain ⟨s₂, h₂⟩ := h₂
  exact (h₁.unique h₂).2

/-- Work that asks requests of a certain kind only leads from one state to another, whatever it comes
to. -/
def Reaches (B : Backend) (kind : CacheRequest → Prop) (s s' : B.State) : Prop :=
  ∃ (p : CachePlan Unit) (result : Except Error Unit), p.Asks kind ∧ B.EndsIn p s s' result

/-! ## Over a store -/

/-- The cells of a store that answer requests to a cache. -/
def respond (o : KeyValue.Options) : Plan.Responder CacheRequest CacheRequest.Reply Cells :=
  fun r m => (KeyValue.plan o r).run Cells.respond m

variable {o : KeyValue.Options} {s : Store}

theorem run_work (o : KeyValue.Options) (p : CachePlan α) (m : Cells) :
    ((keyValue o).work p).run Cells.respond m = p.run (respond o) m :=
  Plan.run_expand Cells.respond (KeyValue.plan o) m p

/-- Over a healthy store all work ends, as it does on the cells of the store. -/
theorem keyValue_endsIn (h : s.Healthy) (p : CachePlan α) :
    ∃ s', (keyValue o).EndsIn p s s' (p.run (respond o) s.cells).2 ∧
      s'.Healthy ∧ s'.cells = (p.run (respond o) s.cells).1 := by
  rw [← run_work]
  exact Store.endsIn_of_healthy h ((keyValue o).work p)

/-- What work over a healthy store came to is what it comes to on the cells. -/
theorem EndsIn.keyValue (h : s.Healthy) {p : CachePlan α} {s' : Store} {result : Except Error α}
    (hends : (keyValue o).EndsIn p s s' result) :
    s'.Healthy ∧ p.run (respond o) s.cells = (s'.cells, result) := by
  obtain ⟨s'', hends', hhealthy, hcells⟩ := keyValue_endsIn h p
  obtain ⟨rfl, rfl⟩ := hends.unique hends'
  exact ⟨hhealthy, Prod.ext hcells.symm rfl⟩

/-- A healthy store answers every request from its cells. -/
theorem keyValue_replies (h : s.Healthy) (r : CacheRequest) :
    (keyValue o).Replies s r (respond o r s.cells).2 := by
  obtain ⟨s', hends, -⟩ := keyValue_endsIn (o := o) h (.perform r)
  exact ⟨s', hends⟩

theorem respond_read {r : CacheRequest} (h : r.isRead) (m : Cells) :
    respond o r m = (m, KeyValue.readReply o m r) := KeyValue.run_read h

/-- A healthy store answers a read with what its cells show. -/
theorem replies_read (h : s.Healthy) {r : CacheRequest} (hr : r.isRead) :
    (keyValue o).Replies s r (KeyValue.readReply o s.cells r) := by
  have hreplies := keyValue_replies (o := o) h r
  rwa [respond_read hr] at hreplies

/-! ## In memory -/

/-- The records that answer requests to a cache. -/
def remember : Plan.Responder CacheRequest CacheRequest.Reply Memory := fun r m => m.answer r

theorem work_memory (name : String) (p : CachePlan α) : (memory name).work p = p := by
  induction p with
  | done result => rfl
  | ask r next ih => exact congrArg (Plan.ask r) (funext ih)
  | note a next ih => exact congrArg (Plan.note a) ih

/-- In memory all work ends, as its run does. -/
theorem memory_endsIn (name : String) (p : CachePlan α) (m : Memory) :
    (memory name).EndsIn p m (p.run remember m).1 (p.run remember m).2 := by
  have hanswer : ∀ (r : CacheRequest) (m m' : Memory), m = m' →
      ∃ m₁, (memory name).answer r m = (m₁, some (remember r m').2) ∧ m₁ = (remember r m').1 := by
    rintro r m - rfl
    exact ⟨_, rfl, rfl⟩
  obtain ⟨m', hends, hstate⟩ := Plan.endsIn_run (fun m m' : Memory => m = m') hanswer p (s := m) rfl
  subst hstate
  unfold EndsIn
  rw [work_memory]
  exact hends

theorem EndsIn.memory {name : String} {p : CachePlan α} {m m' : Memory} {result : Except Error α}
    (hends : (memory name).EndsIn p m m' result) : p.run remember m = (m', result) := by
  obtain ⟨h₁, h₂⟩ := (memory_endsIn name p m).unique hends
  exact Prod.ext h₁ h₂

theorem memory_replies (name : String) (m : Memory) (r : CacheRequest) :
    (memory name).Replies m r (m.answer r).2 := ⟨_, memory_endsIn name (.perform r) m⟩

end Backend

end Inventory
