import Inventory.Activity
import Inventory.Error

/-!
# Inventory.Plan

Work that is done by requests to something else.

A plan says what to ask next, given all answers so far, and ends with a result or an error. It says
nothing about who answers, when, and what happens in between, so one plan can be followed against a
single store, against a store that fails at any point, or in turns with other plans.
-/

namespace Inventory

/-- A plan that asks requests and ends with an `α` or an error. -/
inductive Plan (Request : Type) (Reply : Request → Type) (α : Type) where
  /-- The end. -/
  | done (result : Except Error α)
  /-- Asks a request and goes on with its answer, which may be an error. -/
  | ask (r : Request) (next : Except Error (Reply r) → Plan Request Reply α)
  /-- Tells about the work. -/
  | note (a : Activity) (next : Plan Request Reply α)

namespace Plan

variable {Request : Type} {Reply : Request → Type} {α β : Type}

/-- Goes on with whatever a plan ends with, an error included. -/
def andThen (p : Plan Request Reply α) (f : Except Error α → Plan Request Reply β) :
    Plan Request Reply β :=
  match p with
  | done result => f result
  | ask r next => ask r fun reply => (next reply).andThen f
  | note a next => note a (next.andThen f)

/-- The plan that ends at once with a result. -/
def give (a : α) : Plan Request Reply α := done (.ok a)

/-- The plan that ends at once with an error. -/
def fail (e : Error) : Plan Request Reply α := done (.error e)

/-- Goes on with the result of a plan; an error ends the whole. -/
def bind (p : Plan Request Reply α) (f : α → Plan Request Reply β) : Plan Request Reply β :=
  p.andThen fun
    | .ok a => f a
    | .error e => fail e

instance : Monad (Plan Request Reply) where
  pure := give
  bind := bind

/-- Asks one request; an error ends the plan. -/
def perform (r : Request) : Plan Request Reply (Reply r) := ask r done

/-- Tells about the work. -/
def tell (a : Activity) : Plan Request Reply Unit := note a (give ())

/-- The plan with its error as part of the result. -/
def attempt (p : Plan Request Reply α) : Plan Request Reply (Except Error α) := p.andThen give

/-- The plan that ends at once with what is known. -/
def ofExcept (result : Except Error α) : Plan Request Reply α := done result

/-- Does the same for each element of a list, one after the other, and carries a state along. -/
def forEach {σ : Type} (l : List β) (state : σ) (step : σ → β → Plan Request Reply σ) :
    Plan Request Reply σ :=
  match l with
  | [] => give state
  | x :: rest => (step state x).bind fun state => forEach rest state step

/-- Puts a plan over other requests in the place of each request. -/
def expand {Request' : Type} {Reply' : Request' → Type}
    (plan : (r : Request) → Plan Request' Reply' (Reply r)) :
    Plan Request Reply α → Plan Request' Reply' α
  | done result => done result
  | ask r next => (plan r).andThen fun reply => (next reply).expand plan
  | note a next => note a (next.expand plan)

/-! ## Following a plan -/

/-- How far a plan was followed: to its end, or to a request that nobody answers. -/
inductive Progress (Request : Type) (Reply : Request → Type) (α : Type) where
  | ended (result : Except Error α)
  /-- What remains is known for the case that the wait is given up with an error. -/
  | stuck (rest : Error → Plan Request Reply α)

/-- What became of following a plan. -/
structure Outcome (σ : Type) (Request : Type) (Reply : Request → Type) (α : Type) where
  /-- The state of who answers. -/
  state : σ
  /-- What was told meanwhile. -/
  log : List Activity
  progress : Progress Request Reply α

/-- Follows a plan while `answer` answers; no answer means silence. -/
def follow {σ : Type} (answer : (r : Request) → σ → σ × Option (Except Error (Reply r)))
    (s : σ) : Plan Request Reply α → Outcome σ Request Reply α
  | done result => ⟨s, [], .ended result⟩
  | ask r next =>
    match answer r s with
    | (s, some reply) => (next reply).follow answer s
    | (s, none) => ⟨s, [], .stuck fun e => next (.error e)⟩
  | note a next =>
    let outcome := next.follow answer s
    { outcome with log := a :: outcome.log }

/-! ## Laws -/

@[simp] theorem andThen_done (result : Except Error α) (f : Except Error α → Plan Request Reply β) :
    (done result : Plan Request Reply α).andThen f = f result := rfl

theorem andThen_assoc {γ : Type} (p : Plan Request Reply α)
    (f : Except Error α → Plan Request Reply β) (g : Except Error β → Plan Request Reply γ) :
    (p.andThen f).andThen g = p.andThen fun a => (f a).andThen g := by
  induction p with
  | done result => rfl
  | ask r next ih =>
    simp only [andThen]
    congr 1
    funext reply
    exact ih reply
  | note a next ih => simp only [andThen, ih]

theorem andThen_eq_self (p : Plan Request Reply α) : p.andThen done = p := by
  induction p with
  | done result => rfl
  | ask r next ih =>
    simp only [andThen]
    congr 1
    funext reply
    exact ih reply
  | note a next ih => simp only [andThen, ih]

/-- Expanding the requests of a plan goes through the places where plans are joined. -/
theorem expand_andThen {Request' : Type} {Reply' : Request' → Type}
    (plan : (r : Request) → Plan Request' Reply' (Reply r)) (p : Plan Request Reply α)
    (f : Except Error α → Plan Request Reply β) :
    (p.andThen f).expand plan = (p.expand plan).andThen fun a => (f a).expand plan := by
  induction p with
  | done result => rfl
  | ask r next ih =>
    simp only [andThen, expand, andThen_assoc]
    congr 1
    funext reply
    exact ih reply
  | note a next ih => simp only [andThen, expand, ih]

end Plan

end Inventory
