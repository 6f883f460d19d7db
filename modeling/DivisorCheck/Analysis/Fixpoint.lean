/-
  The worklist iteration, for any way of passing stores through blocks and along
  edges.

  Every block has a store before it and a store after it, unreachable at first.
  Blocks are taken from a queue.  The store before a block becomes the join of
  what it was and of what comes in along its edges; the entry instead has the
  same store every time.  When the store after a block changes, the blocks that
  it leads to are queued again, unless they are queued already.  So a block that
  is not queued agrees with all blocks before it, and an empty queue means that
  all do.
-/
import DivisorCheck.Flow.Order
import DivisorCheck.Store

namespace DivisorCheck

/-- What the iteration works on. -/
structure FlowProblem where
  graph : FlowGraph
  /-- the store before the entry -/
  entryStore : Store
  /-- from the store before a block to the store after it -/
  transfer : BlockId → Store → Store
  /-- from the store after a block to what arrives along an edge -/
  along : Edge → Store → Store

/-! ### Tables of stores -/

/-- A store for every block, unreachable unless another was put there. -/
structure StoreTable where
  entries : Array Store := #[]

namespace StoreTable

/-- The store of a block. -/
def get (t : StoreTable) (b : BlockId) : Store := t.entries.getD b .unreachable

/-- Replaces the store of a block. -/
def put (t : StoreTable) (b : BlockId) (s : Store) : StoreTable :=
  ⟨(t.entries ++ Array.replicate (b + 1 - t.entries.size) Store.unreachable).setIfInBounds b s⟩

@[simp] theorem get_empty (b : BlockId) : get {} b = Store.unreachable := rfl

theorem get_put (t : StoreTable) (b c : BlockId) (s : Store) :
    (t.put b s).get c = if b = c then s else t.get c := by
  obtain ⟨a⟩ := t
  have hroom : ∀ n : Nat, n < a.size + (n + 1 - a.size) := fun n => by omega
  simp only [put, get, Array.getD_eq_getD_getElem?, Array.getElem?_setIfInBounds,
    Array.size_append, Array.size_replicate, Array.getElem?_append]
  by_cases hbc : b = c
  · subst hbc
    simp [hroom]
  · by_cases hc : c < a.size
    · simp [hbc, hc]
    · -- Beyond the end of the table both sides are unreachable, padded or not.
      by_cases hpad : c - a.size < b + 1 - a.size <;> simp [hbc, hc, hpad]

end StoreTable

/-! ### Progress -/

/-- How far the iteration has come. -/
structure Progress where
  /-- the stores before the blocks -/
  before : StoreTable := {}
  /-- the stores after the blocks -/
  after : StoreTable := {}
  queue : List BlockId
  /-- the blocks taken from the queue at least once -/
  visited : List BlockId := []
  /-- how often a block was taken from the queue -/
  iterations : Nat := 0
  /-- how often the store before a block changed -/
  updates : Nat := 0

namespace Progress

/-- Before the first step: nothing is reachable, and blocks are queued in the given order. -/
def start (order : List BlockId) : Progress where
  queue := order

/-- The store before a block. -/
def storeBefore (s : Progress) (b : BlockId) : Store := s.before.get b

/-- The store after a block. -/
def storeAfter (s : Progress) (b : BlockId) : Store := s.after.get b

end Progress

/-- Why the iteration stopped before the queue was empty. -/
inductive Unsettled where
  | outOfIterations (iterations : Nat)
  | outOfTime (iterations : Nat)
deriving DecidableEq, Repr

namespace FlowProblem

variable (fp : FlowProblem)

/-- What comes into a block along its edges. -/
def incoming (s : Progress) (b : BlockId) : Store :=
  (fp.graph.predEdges b).foldl (fun acc e => acc.join (fp.along e (s.storeAfter e.src))) .unreachable

/-- The store before a block, as of now. -/
def merged (s : Progress) (b : BlockId) : Store :=
  if b = fp.graph.entry then fp.entryStore else (s.storeBefore b).join (fp.incoming s b)

/-- Queues the blocks that are not queued yet. -/
def enqueue (queue : List BlockId) (bs : List BlockId) : List BlockId :=
  bs.foldl (fun queue b => if b ∈ queue then queue else queue ++ [b]) queue

/-- Works on a block that has just been taken from the queue. -/
def step (b : BlockId) (s : Progress) : Progress :=
  let s := { s with iterations := s.iterations + 1 }
  let store := fp.merged s b
  if b ∈ s.visited ∧ store = s.storeBefore b then s
  else
    let out := fp.transfer b store
    let changed := out ≠ s.storeAfter b
    { s with
      updates := if store = s.storeBefore b then s.updates else s.updates + 1
      visited := if b ∈ s.visited then s.visited else b :: s.visited
      before := s.before.put b store
      after := if changed then s.after.put b out else s.after
      queue := if changed then enqueue s.queue (fp.graph.succBlocks b) else s.queue }

/-- Works until the queue is empty, at most `budget` times; `isLate` says whether time is up after a
given number of iterations. -/
def run (isLate : Nat → Bool) : Nat → Progress → Except Unsettled Progress
  | budget, s =>
    match s.queue with
    | [] => .ok s
    | b :: rest =>
      match budget with
      | 0 => .error (.outOfIterations s.iterations)
      | budget + 1 =>
        if isLate s.iterations then .error (.outOfTime s.iterations)
        else run isLate budget (fp.step b { s with queue := rest })

end FlowProblem

end DivisorCheck
