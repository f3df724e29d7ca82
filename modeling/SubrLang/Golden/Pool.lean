/-!
# Worker pools

A feeder goes through a list of items. For some the result is known, and it passes that on; the others are
tasks, which it puts into a queue. Workers take tasks from the queue and deliver their results. When the
feeder is through it closes the queue, and a worker that finds a closed queue empty is finished. Tasks and
results go through queues of bounded capacity; a move that would exceed it has to wait.

`Pool.move?` says which moves are possible and what they do. The moves of a run may come in any order in
which each is possible; `Pool.run` takes one such order.
-/

namespace SubrLang

/-- What a worker is doing. -/
inductive Worker (α : Type) where
  | idle
  | busy (task : α)
  | finished
deriving DecidableEq, Repr

/-- A feeder, its workers and what is between them. -/
structure Pool (α ρ : Type) where
  /-- How many tasks, and how many results, can be kept. -/
  capacity : Nat
  /-- What the feeder has not come to yet: results that are known, and tasks. -/
  waiting : List (ρ ⊕ α)
  tasks : List α := []
  /-- Whether the feeder is through. -/
  closed : Bool := false
  workers : List (Worker α)
  /-- The results so far, in the order in which they came. -/
  results : List ρ := []

namespace Pool

variable {α ρ : Type}

/-- A pool that has not begun. There is room for every item. -/
def start (items : List (ρ ⊕ α)) (workers : Nat) : Pool α ρ where
  capacity := items.length
  waiting := items
  workers := List.replicate workers .idle

inductive Move where
  /-- The feeder passes on its next item. -/
  | feed
  /-- The feeder closes the queue. -/
  | close
  /-- A worker takes a task. -/
  | take (worker : Nat)
  /-- A worker delivers its result. -/
  | deliver (worker : Nat)
  /-- A worker finds nothing more to do. -/
  | leave (worker : Nat)
deriving DecidableEq, Repr

/-- The feeder's next item, if there is room for it. -/
def feed? (p : Pool α ρ) : Option (Pool α ρ) :=
  match p.waiting with
  | .inl r :: rest =>
    if p.results.length < p.capacity then some { p with waiting := rest, results := p.results ++ [r] }
    else none
  | .inr a :: rest =>
    if p.tasks.length < p.capacity then some { p with waiting := rest, tasks := p.tasks ++ [a] }
    else none
  | [] => none

/-- A pool after a move, if the move is possible. -/
def move? (work : α → ρ) (p : Pool α ρ) : Move → Option (Pool α ρ)
  | .feed => p.feed?
  | .close => if p.waiting.isEmpty && !p.closed then some { p with closed := true } else none
  | .take w =>
    match p.workers[w]?, p.tasks with
    | some .idle, a :: rest => some { p with tasks := rest, workers := p.workers.set w (.busy a) }
    | _, _ => none
  | .deliver w =>
    match p.workers[w]? with
    | some (.busy a) =>
      if p.results.length < p.capacity then
        some { p with results := p.results ++ [work a], workers := p.workers.set w .idle }
      else none
    | _ => none
  | .leave w =>
    match p.workers[w]? with
    | some .idle =>
      if p.closed && p.tasks.isEmpty then some { p with workers := p.workers.set w .finished }
      else none
    | _ => none

/-- All moves of a pool, possible or not, in the order in which a run prefers them. -/
def moves (p : Pool α ρ) : List Move :=
  let ws := List.range p.workers.length
  [.feed, .close] ++ ws.map .take ++ ws.map .deliver ++ ws.map .leave

/-- Makes moves until none is possible, at most `fuel` of them. -/
def runFor (work : α → ρ) : (fuel : Nat) → Pool α ρ → Pool α ρ
  | 0, p => p
  | fuel + 1, p =>
    match p.moves.findSome? (p.move? work) with
    | some q => runFor work fuel q
    | none => p

/-- The results of a whole run. An item takes three moves at most, the feeder closes the queue once, and a
worker leaves once. -/
def run (work : α → ρ) (items : List (ρ ⊕ α)) (workers : Nat) : List ρ :=
  (runFor work (3 * items.length + 1 + workers) (start items workers)).results

end Pool

end SubrLang
