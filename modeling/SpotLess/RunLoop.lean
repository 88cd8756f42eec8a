import SpotLess.CheckpointLatch
import SpotLess.Lib.Custody

/-! The run loop of the worker, proposal, generic and execute threads beside the two checkpoint threads: which
transaction managers each iteration makes unavailable and available again, for every kind of message. -/

namespace SpotLess.RunLoop

open Lib

inductive Message
  | sync (view instanceId : ℕ)
  | generic (view instanceId : ℕ)
  | proposal (view instanceId : ℕ)
  | genericP (view instanceId : ℕ)
  | clBatch (view instanceId : ℕ)
  | execute (view instanceId : ℕ)
  deriving DecidableEq

inductive Thd
  | worker (w : ℕ)
  | proposal
  | generic
  | execute
  deriving DecidableEq

-- Where a thread stands: `opening` and `closing` are the latch operations before and after what the handler does
-- with its message, `sending` the `send_checkpoints` of the execute thread.
inductive Pc
  | idle
  | taken (m : Message)
  | admitted (m : Message)
  | opening (m : Message) (ops : List (Op ℕ))
  | sending (m : Message)
  | closing (m : Message) (ops : List (Op ℕ))
  deriving DecidableEq

structure Thread where
  pc : Pc := .idle
  held : List ℕ := []

structure Flags where
  proposalReceived : Bool := false
  genericReceived : Bool := false
  deriving DecidableEq

-- The last two fields are the history of the run.
structure State where
  chk : Checkpoint.State
  view : ℕ → ℕ
  currNewViewed : ℕ → ℕ
  nextSendView : ℕ → ℕ
  lastSentView : ℕ → ℕ
  incompleteProposalCnt : ℕ → ℕ
  flags : ℕ → Flags
  inbox : Finset Message
  threads : Thd → Thread
  arrived : Finset Message
  handled : Finset Message

variable (cfg : Config) (nodeId : ℕ)

def init : State where
  chk := Checkpoint.init
  view _ := 0
  currNewViewed _ := 0
  nextSendView i := (cfg.nodeCnt + nodeId - i) % cfg.nodeCnt
  lastSentView _ := 0
  incompleteProposalCnt _ := 0
  flags _ := {}
  inbox := ∅
  threads _ := {}
  arrived := ∅
  handled := ∅

def multiThreads : ℕ := min cfg.totInstances 16

namespace Message

def view : Message → ℕ
  | .sync v _ | .generic v _ | .proposal v _ | .genericP v _ | .clBatch v _ | .execute v _ => v

def instanceId : Message → ℕ
  | .sync _ i | .generic _ i | .proposal _ i | .genericP _ i | .clBatch _ i | .execute _ i => i

variable (m : Message)

def last : ℕ := cfg.lastTxn m.view m.instanceId

def txnId : ℕ :=
  match m with
  | .proposal _ _ => m.last cfg - 2
  | .execute _ _ => m.last cfg - 1
  | _ => m.last cfg

-- `set_txn_man_fields` and the loop of `create_and_send_hotstuff_prepare`.
def setTxnManFields : List (Op ℕ) :=
  (cfg.slotTxns m.view m.instanceId).flatMap (fun id => [.take id, .give id]) ++ [.take (m.last cfg)]

-- The first loop of `process_hotstuff_execute` takes no latch.
def opening : List (Op ℕ) :=
  match m with
  | .sync _ _ | .generic _ _ | .genericP _ _ => []
  | .proposal _ _ | .clBatch _ _ => m.setTxnManFields cfg
  | .execute _ _ =>
    (List.range' (m.last cfg - 4) 4).flatMap (fun id => [.take id, .give id]) ++ [.take (m.last cfg)]

-- The member `txn_man` when `process` returns, which the run loop makes available.
def txnMan : ℕ :=
  match m with
  | .proposal _ _ => m.txnId cfg
  | _ => m.last cfg

def closing : List (Op ℕ) :=
  match m with
  | .proposal _ _ => [.give (m.last cfg), .take (m.txnId cfg), .give (m.txnMan cfg)]
  | _ => [.give (m.txnMan cfg)]

-- A GENERIC of the replica itself that found its manager unavailable goes to the queue of some worker thread.
def ForWorker (w : ℕ) : Prop :=
  match m with
  | .sync _ i | .generic _ i | .proposal _ i => i % multiThreads cfg = w
  | .genericP _ _ => True
  | .clBatch _ _ | .execute _ _ => False

instance (w : ℕ) : Decidable (m.ForWorker cfg w) :=
  match m with
  | .sync _ i | .generic _ i | .proposal _ i => inferInstanceAs (Decidable (i % multiThreads cfg = w))
  | .genericP _ _ => inferInstanceAs (Decidable True)
  | .clBatch _ _ | .execute _ _ => inferInstanceAs (Decidable False)

end Message

namespace State

variable (s : State) (t : Thd) (m : Message) (id : ℕ)

def goto (pc : Pc) : State := { s with threads := Function.update s.threads t { s.threads t with pc := pc } }

def setHeld (held : List ℕ) : State := { s with threads := Function.update s.threads t { s.threads t with held := held } }

def unsetReady : State :=
  { s with chk := (s.chk.getTransactionManager id).modify id fun x => { x with txnReady := false } }.setHeld t
    (id :: (s.threads t).held)

def setReady : State :=
  { s with chk := s.chk.modify id fun x => { x with txnReady := true } }.setHeld t ((s.threads t).held.erase id)

def setFlags (x : Flags) : State := { s with flags := Function.update s.flags id x }

def advanceView (i : ℕ) : State :=
  { s with
    view := Function.update s.view i (s.view i + 1)
    currNewViewed := Function.update s.currNewViewed i id }

-- `check_view` parks a GENERIC of a later view.
def Current : Prop :=
  match m with
  | .generic v i => v ≤ s.view i
  | _ => True

instance : Decidable (s.Current m) :=
  match m with
  | .generic v i => inferInstanceAs (Decidable (v ≤ s.view i))
  | .sync _ _ | .proposal _ _ | .genericP _ _ | .clBatch _ _ | .execute _ _ => inferInstanceAs (Decidable True)

-- `exception_msg_handling`.
def Late : Prop :=
  match m with
  | .sync v i => v < s.view i ∨ v = s.view i ∧ m.txnId cfg ≤ s.currNewViewed i
  | _ => m.txnId cfg ≤ s.chk.nextIndex

instance : Decidable (s.Late cfg m) :=
  match m with
  | .sync v i => inferInstanceAs (Decidable (v < s.view i ∨ v = s.view i ∧ _ ≤ s.currNewViewed i))
  | .generic _ _ | .proposal _ _ | .genericP _ _ | .clBatch _ _ | .execute _ _ =>
    inferInstanceAs (Decidable (_ ≤ s.chk.nextIndex))

-- `dequeue`. Of the EXECUTEs it is the transaction identifier alone that tells which one is next.
def dequeue : Thd → Message → Option State
  | .worker w, m =>
    if m ∈ s.inbox ∧ m.ForWorker cfg w ∧ s.Current m then
      some ({ s with inbox := s.inbox.erase m }.goto (.worker w) (.taken m))
    else none
  | .proposal, .clBatch v i =>
    if i < cfg.totInstances ∧ v = s.nextSendView i ∧ v ≤ s.view i then
      some ({ s with
        lastSentView := Function.update s.lastSentView i v
        nextSendView := Function.update s.nextSendView i (v + cfg.nodeCnt) }.goto .proposal
          (.opening (.clBatch v i) (Message.opening cfg (.clBatch v i))))
    else none
  | .generic, .genericP v i =>
    if i < cfg.totInstances ∧ s.incompleteProposalCnt i ≠ 0 ∧ cfg.getViewPrimary (s.view i) i = nodeId ∧
        v = s.lastSentView i then
      some ({ s with
        incompleteProposalCnt := Function.update s.incompleteProposalCnt i (s.incompleteProposalCnt i - 1) }.goto
          .generic (.taken (.genericP v i)))
    else none
  | .execute, .execute v i =>
    if i < cfg.totInstances ∧ cfg.firstTxn v i = s.chk.nextIndex then
      some (s.goto .execute (.opening (.execute v i) (Message.opening cfg (.execute v i))))
    else none
  | _, _ => none

-- What the handlers do with the message; `accept` is the outcome of `SafeNode`, `quorum` that of the vote count.
def handle (accept quorum : Bool) : State :=
  let id := m.last cfg
  let x := s.flags id
  let s := { s with handled := insert m s.handled }
  match m with
  | .sync _ i => if quorum ∧ x.proposalReceived ∧ x.genericReceived then s.advanceView id i else s
  | .generic v i =>
    if x.genericReceived ∨ cfg.getViewPrimary (s.view i) i ≠ cfg.getViewPrimary v i ∨ accept = false then s
    else
      let s := s.setFlags id { x with genericReceived := true }
      if quorum ∧ x.proposalReceived then s.advanceView id i else s
  | .proposal _ i =>
    let s := s.setFlags id { x with proposalReceived := true }
    if quorum ∧ x.genericReceived then s.advanceView id i else s
  | .genericP _ _ => s.setFlags id { x with genericReceived := true }
  | .clBatch _ _ => s.setFlags id { x with proposalReceived := true }
  | .execute _ _ => s

def completed : State :=
  match m with
  | .clBatch _ i =>
    { s with incompleteProposalCnt := Function.update s.incompleteProposalCnt i (s.incompleteProposalCnt i + 1) }
  | _ => s

def latchStep : Op ℕ → Option State
  | .take id => if (s.chk.manager id).txnReady then some (s.unsetReady t id) else none
  | .give id => some (s.setReady t id)

def checkpoint (e : Checkpoint.Event) : Option State :=
  (Checkpoint.step cfg nodeId s.chk e).map fun chk => { s with
    chk := chk
    flags := fun id => if (chk.managers id).isSome then s.flags id else {} }

-- One step of an iteration of `run`. A PROPOSAL seen before leaves `txn_man` null.
def run (accept quorum : Bool) : Option State :=
  match (s.threads t).pc with
  | .idle => none
  | .taken m => some (s.goto t (if s.Late cfg m then .idle else .admitted m))
  | .admitted (.proposal v i) =>
    let m := .proposal v i
    some (s.goto t (if (s.flags (m.last cfg)).proposalReceived then .idle else .opening m (m.opening cfg)))
  | .admitted m =>
    if (s.chk.manager (m.last cfg)).txnReady then
      some ((s.unsetReady t (m.last cfg)).goto t (.opening m (m.opening cfg)))
    else some ({ s with inbox := insert m s.inbox }.goto t .idle)
  | .opening m (op :: ops) => (s.latchStep t op).map fun s => s.goto t (.opening m ops)
  | .opening (.execute v i) [] => (s.checkpoint cfg nodeId .execute).map fun s => s.goto t (.sending (.execute v i))
  | .opening m [] => some ((s.handle cfg m accept quorum).goto t (.closing m (m.closing cfg)))
  | .sending m => (s.checkpoint cfg nodeId .sendCheckpoints).map fun s => s.goto t (.closing m (m.closing cfg))
  | .closing m (op :: ops) => (s.latchStep t op).map fun s => s.goto t (.closing m ops)
  | .closing m [] => some ((s.completed m).goto t .idle)

end State

inductive Event
  | arrive (m : Message)
  | dequeue (t : Thd) (m : Message)
  | run (t : Thd) (accept quorum : Bool)
  | checkpoint (t : Bool)

def step (s : State) : Event → Option State
  | .arrive m => some { s with inbox := insert m s.inbox, arrived := insert m s.arrived }
  | .dequeue t m => if (s.threads t).pc = .idle then s.dequeue cfg nodeId t m else none
  | .run t accept quorum => s.run cfg nodeId t accept quorum
  | .checkpoint t => s.checkpoint cfg nodeId (.thread t)

-- With no faulty replica a PROPOSAL or GENERIC comes once, from the primary of its view.
def Faultless (s : State) : Event → Prop
  | .arrive m =>
    match m with
    | .sync _ i => i < cfg.totInstances
    | .generic v i | .proposal v i => i < cfg.totInstances ∧ cfg.getViewPrimary v i ≠ nodeId ∧ m ∉ s.arrived
    | .genericP _ _ | .clBatch _ _ | .execute _ _ => False
  | .dequeue _ _ | .run _ _ _ | .checkpoint _ => True

-- The execute thread takes up the EXECUTE of a batch when the instance is two views past it, where the commit of that
-- very batch sends it; an overwritten entry of `hash_to_txnid` sends it at another time.
def Passed (s : State) : Event → Prop
  | .dequeue .execute (.execute v i) => v + 2 ≤ s.view i
  | _ => True

-- The execute thread runs only while identifiers fit `g_last_stable_chkpt`.
def Fits (s : State) : Event → Prop
  | .run .execute _ _ => s.chk.nextIndex ≤ 2 ^ 32
  | _ => True

def Unavailable (s : Checkpoint.State) (id : ℕ) : Prop := (s.manager id).txnReady = false

def Holds (s : State) : Thd ⊕ Bool → ℕ → Prop
  | .inl t, id => id ∈ (s.threads t).held
  | .inr c, id => (s.chk.pc c).acquires = some id

structure LatchesBalanced (s : State) : Prop where
  one : ∀ t, (s.threads t).held.length ≤ 1
  asserts : ∀ t m id ops, (s.threads t).pc = .opening m (.give id :: ops) ∨ (s.threads t).pc = .closing m (.give id :: ops) →
    Unavailable s.chk id
  finished : ∀ c id, s.chk.pc c = .finished id → Unavailable s.chk id
  exclusive : ∀ x y id, Holds s x id → Holds s y id → x = y
  ended : ∀ t, (s.threads t).pc = .idle → (s.threads t).held = []
  free : ∀ id, Unavailable s.chk id → ∃ x, Holds s x id

end SpotLess.RunLoop
