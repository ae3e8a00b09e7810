import Inventory.Proofs.Merge.Refusal
import Inventory.Proofs.Schedule.History

/-!
# Inventory.Proofs.Schedule.Merges

What an execution that has loaded its data does to the cache.

A cache that answers every request leaves no merge without an end, so an execution that loads waits, or
fails and leaves the cache as it was, or completes, and then the report of its agent has been merged
(`Loads`).
-/

namespace Inventory

/-- Whoever gives the same answers leads a plan to the same end. -/
theorem Plan.EndsIn.of_answers {Request : Type} {Reply : Request → Type} {α σ : Type}
    {answer answer' : (r : Request) → σ → σ × Option (Except Error (Reply r))}
    (hanswer : ∀ r s s' reply, answer r s = (s', some reply) → answer' r s = (s', some reply))
    {p : Plan Request Reply α} {s s' : σ} {result : Except Error α}
    (h : p.EndsIn answer s s' result) : p.EndsIn answer' s s' result := by
  induction p generalizing s with
  | done result => exact h
  | ask r next ih =>
      obtain ⟨s₁, reply, hreply, hends⟩ := endsIn_ask.1 h
      exact endsIn_ask.2 ⟨s₁, reply, hanswer r s s₁ reply hreply, ih reply hends⟩
  | note a next ih => exact ih h

namespace Scheduler

/-! ## Work that ends -/

section Follow

variable {B : Backend} {s : Scheduler B} {α : Type}

/-- An answer is what it is, however long it would be waited for. -/
theorem answer_eq {r : B.Request} {state state' : B.State} {reply : Except Error (B.Reply r)}
    (h : B.answer r state = (state', some reply)) : answer B r state = (state', some reply) := by
  rw [answer, h]
  dsimp only
  split <;> rfl

theorem exists_follow {p : CachePlan α} {cache : B.State} {result : Except Error α}
    (h : B.EndsIn p s.cache cache result) :
    ∃ activity, s.follow (B.work p) = ({ s with cache, activity }, .ended result) := by
  obtain ⟨rfl, hprogress⟩ : (B.work p).EndsIn (answer B) s.cache cache result :=
    Plan.EndsIn.of_answers (fun _ _ _ _ => answer_eq) h
  exact ⟨((B.work p).follow (answer B) s.cache).log.reverse ++ s.activity, Prod.ext rfl hprogress⟩

/-- A merge that ends is the end of its execution. -/
theorem exists_proceed (now : Nat) (e : Execution B) (source : Source) (deadline : Nat)
    {p : CachePlan MergeStats} {cache : B.State} {result : Except Error MergeStats}
    (h : B.EndsIn p s.cache cache result) : ∃ activity,
      s.proceed now e source deadline (B.work p) = { s with cache, activity }.finish now e result := by
  obtain ⟨activity, hfollow⟩ := exists_follow h
  exact ⟨activity, by rw [proceed, hfollow]⟩

end Follow

/-! ## Loading -/

variable {medium : Medium} {s s' : Scheduler medium.backend}

/-- What an execution that loads comes to. -/
inductive Loads (s : Scheduler medium.backend) (e : Execution medium.backend) :
    Scheduler medium.backend → Prop where
  | waits : Loads s e s
  | fails (now : Nat) (cache : medium.backend.State) (activity : List Activity) (error : Error)
      (hsound : medium.Sound cache) (hview : medium.view cache = medium.view s.cache) :
      Loads s e ({ s with cache, activity }.finish now e (.error error))
  | completes (now : Nat) (cache : medium.backend.State) (activity : List Activity) (stats : MergeStats)
      (r : Report) (hreport : (s.agentOf e.agent).report = .ok r) (hsound : medium.Sound cache)
      (hends : medium.backend.EndsIn (s.engine.mergeSnapshot (s.profileOf e.agent).source
        (.ofList (s.profileOf e.agent).authoritativeTypes) r) s.cache cache (.ok stats)) :
      Loads s e ({ s with cache, activity }.finish now e (.ok stats))

theorem loads_loaded (hs : medium.Sound s.cache) (now : Nat) (e : Execution medium.backend) :
    Loads s e (s.loaded now e (s.agentOf e.agent).report) := by
  cases hreport : (s.agentOf e.agent).report with
  | error err => exact .fails now s.cache s.activity err hs rfl
  | ok r =>
      dsimp only [loaded]
      split
      · exact .fails now s.cache s.activity _ hs rfl
      · obtain ⟨cache, hends, hsound, -⟩ := Medium.exists_endsIn hs (s.engine.mergeSnapshot
          (s.profileOf e.agent).source (.ofList (s.profileOf e.agent).authoritativeTypes) r)
        obtain ⟨activity, hproceed⟩ := exists_proceed now e (s.profileOf e.agent).source
          (now + s.options.mergeTimeout.nanoseconds) hends
        rw [mergeWork, hproceed]
        cases hresult : (Plan.run medium.respond (medium.view s.cache) (s.engine.mergeSnapshot
            (s.profileOf e.agent).source (.ofList (s.profileOf e.agent).authoritativeTypes) r)).2 with
        | ok stats => exact .completes now cache activity stats r hreport hsound (hresult ▸ hends)
        | error err =>
            have hview := (Medium.view_of_endsIn_error hs (hresult ▸ hends)).1
            exact .fails now cache activity err hsound hview

theorem loads_load (hs : medium.Sound s.cache) (now : Nat) (e : Execution medium.backend)
    (ready deadline : Nat) : Loads s e (s.load now e ready deadline) := by
  unfold load
  split
  · exact loads_loaded hs now e
  · split
    · exact .fails now s.cache s.activity _ hs rfl
    · exact .waits

end Scheduler

end Inventory
