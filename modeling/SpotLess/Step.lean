import SpotLess.Handlers

/-! One replica as a transition system: the run loops of the instance workers, of the proposal thread, of the
generic thread and of the execute thread, interleaved step by step. -/

namespace SpotLess.Replica

open Lib

variable (cfg : Config) (crypto : Crypto)

-- `check_view`, `exception_msg_handling` and `process` for a message taken from a work queue.
def handleGeneric (r : Replica) (m : GenericMsg) : Option Replica :=
  let x := r.inst m.instanceId
  if x.view < m.view then some (r.setInst m.instanceId { x with tempQueue := x.tempQueue ++ [m] })
  else if m.txnId ≤ r.exec.nextIndex then some r
  else r.processHotstuffGeneric cfg crypto m

def handleProposal (r : Replica) (m : ProposalMsg) : Option Replica :=
  if m.txnId ≤ r.exec.nextIndex then some r else r.processHotstuffProposal cfg crypto m

def StaleSync (r : Replica) (m : SyncMsg) : Prop :=
  m.view < (r.inst m.instanceId).view ∨
    (m.view = (r.inst m.instanceId).view ∧ m.txnId ≤ (r.inst m.instanceId).currNewViewed ∧ m.nonVote = false)

instance (r : Replica) (m : SyncMsg) : Decidable (r.StaleSync m) := inferInstanceAs (Decidable (_ ∨ _))

def handleSync (r : Replica) (m : SyncMsg) : Option Replica :=
  if r.StaleSync m then some r else r.processHotstuffNewView cfg crypto m

def handleGenericP (r : Replica) (id : ℕ) : Option Replica :=
  if id ≤ r.exec.nextIndex then some r else r.processHotstuffGenericP cfg crypto id

def handle (r : Replica) : Msg → Option Replica
  | .proposal m => r.handleProposal cfg crypto m
  | .generic m => r.handleGeneric cfg crypto m
  | .sync m => r.handleSync cfg crypto m

def replay (r : Replica) (i : ℕ) : Option Replica :=
  match (r.inst i).priorQueue with
  | [] => none
  | m :: rest => (r.setInst i { r.inst i with priorQueue := rest }).handleGeneric cfg crypto m

def setSems (r : Replica) (sems : Semaphores) : Replica := { r with sems := sems }

def enqueueBatch (r : Replica) (i : ℕ) (batch : ClientQueryBatch) : Option Replica :=
  if i < cfg.totInstances ∧ batch.cqrySet.length = cfg.batchSize then
    let x := r.sends i
    let r₁ := r.setSend i { x with newTxnQueue := x.newTxnQueue ++ [batch], clbCnt := x.clbCnt + 1 }
    some (r₁.setSems
      { r.sems with batchWork := r.sems.batchWork + 1, genericWork := r.sems.genericWork + 1 })
  else none

section ProposalThread

def setProposal (r : Replica) (pc : ProposalPc) : Replica := { r with threads := { r.threads with proposal := pc } }

def proposalStep (r : Replica) (i j : ℕ) : Option Replica :=
  match r.threads.proposal with
  | .idle =>
    if 0 < r.sems.batchWork then
      some ((r.setSems { r.sems with batchWork := r.sems.batchWork - 1 }).setProposal .awake)
    else none
  | .awake =>
    if 0 < r.sems.proposal then
      some ((r.setSems { r.sems with proposal := r.sems.proposal - 1 }).setProposal .armed)
    else none
  | .armed =>
    -- the scan over the instances has reached `i` and takes a batch from the queue of `j`
    if i < cfg.totInstances ∧ j < cfg.totInstances ∧ (r.sends i).nextSendView ≤ (r.inst i).view ∧
        0 < (r.sends j).clbCnt ∧ (j = i ∨ (r.inst i).view ≤ (r.inst j).view) then
      match (r.sends j).newTxnQueue with
      | [] => none
      | batch :: rest =>
        some (((r.setSend j { r.sends j with newTxnQueue := rest, clbCnt := (r.sends j).clbCnt - 1 }).observe
          (.popped batch)).setProposal (.popped i (r.sends i).nextSendView batch))
    else none
  | .popped i view batch =>
    let x := r.sends i
    some ((r.setSend i { x with lastSentView := view, nextSendView := x.nextSendView + cfg.nodeCnt }).setProposal
      (.stamped (cfg.slot view i) batch))
  | .stamped slot batch =>
    (r.createAndSendHotstuffPrepare cfg crypto slot batch).map fun r₁ =>
      r₁.setProposal (.processed (r₁.table (slot * cfg.batchSize + cfg.batchSize - 1)).instanceId)
  | .processed i =>
    let x := r.sends i
    some ((r.setSend i { x with incompleteProposalCnt := x.incompleteProposalCnt + 1 }).setProposal .idle)

end ProposalThread

section GenericThread

def setRequeued (r : Replica) (ids : List ℕ) : Replica := { r with threads := { r.threads with requeued := ids } }

def setGeneric (r : Replica) (pc : GenericPc) : Replica := { r with threads := { r.threads with generic := pc } }

-- `busy` is the case that another thread holds the manager: the work item goes back to a worker queue.
def genericStep (r : Replica) (i : ℕ) (busy : Bool) : Option Replica :=
  match r.threads.generic with
  | .idle =>
    if 0 < r.sems.genericWork then
      some ((r.setSems { r.sems with genericWork := r.sems.genericWork - 1 }).setGeneric .awake)
    else none
  | .awake =>
    if 0 < r.sems.newTxn then
      some ((r.setSems { r.sems with newTxn := r.sems.newTxn - 1 }).setGeneric .armed)
    else none
  | .armed =>
    if i < cfg.totInstances ∧ (r.sends i).incompleteProposalCnt ≠ 0 ∧
        r.nodeId = cfg.getViewPrimary (r.inst i).view i then
      some (r.setGeneric (.chosen i))
    else none
  | .chosen i => some (r.setGeneric (.formed i (cfg.lastTxn (r.sends i).lastSentView i)))
  | .formed i id =>
    let x := r.sends i
    some ((r.setSend i { x with incompleteProposalCnt := x.incompleteProposalCnt - 1 }).setGeneric (.holding id))
  | .holding id =>
    if busy then
      some ((r.setRequeued (r.threads.requeued ++ [id])).setGeneric .idle)
    else (r.handleGenericP cfg crypto id).map fun r₁ => r₁.setGeneric .idle

def workerGenericP (r : Replica) (k : ℕ) : Option Replica :=
  match r.threads.requeued[k]? with
  | some id =>
    (r.setRequeued (r.threads.requeued.eraseIdx k)).handleGenericP cfg crypto id
  | none => none

end GenericThread

def executeStep (r : Replica) (k : ℕ) : Option Replica :=
  (r.exec.step cfg (.pop k r.table)).map r.setExec

-- Garbage collection after a checkpoint releases managers whose batches were executed long ago; the pool
-- hands out a cleared manager when the identifier is looked up again.
def recycle (r : Replica) (id : ℕ) (t : TxnManager) : Option Replica :=
  if id + 16 * cfg.batchSize * cfg.nodeCnt + 5 < r.exec.nextIndex then some (r.setTxn id t) else none

inductive Event
  | deliver (m : Msg)
  | replay (i : ℕ)
  | clientBatch (i : ℕ) (batch : ClientQueryBatch)
  | proposalThread (i j : ℕ)
  | genericThread (i : ℕ) (busy : Bool)
  | workerGenericP (k : ℕ)
  | execute (k : ℕ)
  | recycle (id : ℕ) (t : TxnManager)

def step (r : Replica) : Event → Option Replica
  | .deliver m => r.handle cfg crypto m
  | .replay i => r.replay cfg crypto i
  | .clientBatch i batch => r.enqueueBatch cfg i batch
  | .proposalThread i j => r.proposalStep cfg crypto i j
  | .genericThread i busy => r.genericStep cfg crypto i busy
  | .workerGenericP k => r.workerGenericP cfg crypto k
  | .execute k => r.executeStep cfg k
  | .recycle id t => r.recycle cfg id t

-- What the network and the allocator guarantee: other nodes' well-formed messages, and cleared managers.
def Genuine (r : Replica) : Event → Prop
  | .deliver m => m.WellFormed cfg ∧ m.returnNodeId ≠ r.nodeId ∧ m.returnNodeId < cfg.nodeCnt
  | .recycle _ t => t.Recycled ∧ t.instanceId < cfg.totInstances
  | _ => True

instance : (r : Replica) → (e : Event) → Decidable (Genuine cfg r e)
  | _, .deliver _ => inferInstanceAs (Decidable (_ ∧ _))
  | _, .recycle _ t => inferInstanceAs (Decidable (t.Recycled ∧ _))
  | _, .replay _ | _, .clientBatch _ _ | _, .proposalThread _ _ | _, .genericThread _ _ | _, .workerGenericP _
  | _, .execute _ => inferInstanceAs (Decidable True)

end SpotLess.Replica
