import SpotLess.Config
import SpotLess.Lib.Reach

/-! The hand-over of execute messages from the worker threads to the execute thread, at the grain of single
queue, heap and semaphore operations. A message is its transaction identifier. -/

namespace SpotLess.Wakeup

open Lib

-- What `enqueue` still has to do once the message is in the work queue.
inductive Stage
  | postWork
  | pushHeap
  | compare
  | postExecute
  deriving DecidableEq

inductive Pc
  | waitWork
  | waitExecute
  | dequeue
  | gate (id : ℕ)
  | reenqueue (id : ℕ) (stage : Stage)
  | run (id : ℕ)
  | popHeap (val : ℕ)
  | topHeap (val : ℕ)
  | postNext
  deriving DecidableEq

structure State where
  expected : ℕ
  nextIndex : ℕ
  workQueue : ℕ → List ℕ
  heap : List ℕ
  workSem : ℕ
  executeSem : ℕ
  enqueues : List (ℕ × Stage)
  pc : Pc

variable (cfg : Config) (indexSize : ℕ)

def qid (id : ℕ) : ℕ := sub64 (add64 id 2) cfg.batchSize / cfg.batchSize % indexSize

def init : State where
  expected := cfg.batchSize - 2
  nextIndex := 0
  workQueue _ := []
  heap := []
  workSem := 0
  executeSem := 0
  enqueues := []
  pc := .waitWork

def State.push (s : State) (id : ℕ) : State :=
  let q := qid cfg indexSize id
  { s with workQueue := Function.update s.workQueue q (s.workQueue q ++ [id]) }

-- One operation of a running `enqueue`, with what is left of it.
def State.enqueueStep (s : State) (id : ℕ) : Stage → State × Option Stage
  | .postWork => ({ s with workSem := s.workSem + 1 }, some .pushHeap)
  | .pushHeap => ({ s with heap := id :: s.heap }, some .compare)
  | .compare => (s, if id = s.expected then some .postExecute else none)
  | .postExecute => ({ s with executeSem := s.executeSem + 1 }, none)

def State.workerStep (s : State) (k : ℕ) : Option State :=
  match s.enqueues[k]? with
  | some (id, stage) =>
    match s.enqueueStep id stage with
    | (t, some next) => some { t with enqueues := t.enqueues.set k (id, next) }
    | (t, none) => some { t with enqueues := t.enqueues.eraseIdx k }
  | none => none

def leastOf : List ℕ → Option ℕ
  | [] => none
  | x :: xs => some (xs.foldl min x)

-- Reading the top of an empty heap is undefined; it returns `junk`.
def State.executeStep (s : State) (junk : ℕ) : Option State :=
  match s.pc with
  | .waitWork => if 0 < s.workSem then some { s with workSem := s.workSem - 1, pc := .waitExecute } else none
  | .waitExecute =>
    if 0 < s.executeSem then some { s with executeSem := s.executeSem - 1, pc := .dequeue } else none
  | .dequeue =>
    let q := qid cfg indexSize s.expected
    match s.workQueue q with
    | [] => some { s with workSem := s.workSem + 1, pc := .waitWork }
    | id :: rest => some { s with workQueue := Function.update s.workQueue q rest, pc := .gate id }
  | .gate id =>
    if id ≤ s.nextIndex then some { s with pc := .waitWork }
    else if id ≠ s.expected then some { s.push cfg indexSize id with pc := .reenqueue id .postWork }
    else some { s with pc := .run id }
  | .reenqueue id stage =>
    match s.enqueueStep id stage with
    | (t, some next) => some { t with pc := .reenqueue id next }
    | (t, none) => some { t with pc := .waitWork }
  | .run id =>
    some { s with
      nextIndex := s.nextIndex + cfg.batchSize
      expected := cfg.batchSize + id
      pc := .popHeap (cfg.batchSize + id) }
  | .popHeap val =>
    match leastOf s.heap with
    | some x => some { s with heap := s.heap.erase x, pc := .topHeap val }
    | none => some { s with pc := .topHeap val }
  | .topHeap val =>
    if val = (leastOf s.heap).getD junk then some { s with pc := .postNext }
    else some { s with pc := .waitWork }
  | .postNext => some { s with executeSem := s.executeSem + 1, pc := .waitWork }

inductive Event
  | enqueue (id : ℕ)
  | worker (k : ℕ)
  | execute (junk : ℕ)

def step (s : State) : Event → Option State
  | .enqueue id =>
    some { s.push cfg indexSize id with enqueues := s.enqueues ++ [(id, .postWork)] }
  | .worker k => s.workerStep k
  | .execute junk => s.executeStep cfg indexSize junk

def AnyStep (_ : State) (_ : Event) : Prop := True

instance : ∀ s e, Decidable (AnyStep s e) := fun _ _ => inferInstanceAs (Decidable True)

-- The steps on which the thread takes a message out of turn, or looks at a heap that has fallen out of step
-- with the queue, are left out.
def PcInTurn (s : State) : Pc → Prop
  | .dequeue => ∀ id ∈ (s.workQueue (qid cfg indexSize s.expected)).head?, id = s.expected
  | .popHeap val => ∃ x ∈ leastOf s.heap, x < val
  | .topHeap val => ∀ x ∈ s.heap, val ≤ x
  | _ => True

def InTurn (s : State) : Event → Prop
  | .execute _ => PcInTurn cfg indexSize s s.pc
  | _ => True

instance (s : State) : (pc : Pc) → Decidable (PcInTurn cfg indexSize s pc)
  | .dequeue => inferInstanceAs (Decidable (∀ id ∈ List.head? _, id = _))
  | .popHeap _ => inferInstanceAs (Decidable (∃ x ∈ leastOf _, x < _))
  | .topHeap _ => inferInstanceAs (Decidable (∀ x ∈ s.heap, _ ≤ x))
  | .waitWork | .waitExecute | .gate _ | .reenqueue _ _ | .run _ | .postNext =>
    inferInstanceAs (Decidable True)

instance : (s : State) → (e : Event) → Decidable (InTurn cfg indexSize s e)
  | s, .execute _ => inferInstanceAs (Decidable (PcInTurn cfg indexSize s s.pc))
  | _, .enqueue _ | _, .worker _ => inferInstanceAs (Decidable True)

def Stuck (s : State) : Prop :=
  s.pc = .waitExecute ∧ s.executeSem = 0 ∧ s.enqueues = [] ∧ ∃ q, s.expected ∈ s.workQueue q

end SpotLess.Wakeup
