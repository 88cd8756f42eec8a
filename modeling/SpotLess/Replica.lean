import SpotLess.Execute

namespace SpotLess

open Lib

def genesisQC (type : QCType) : QuorumCertificate := { type := type, genesis := true }

structure Instance where
  view : ℕ
  preparedQC : QuorumCertificate
  lockedQC : QuorumCertificate
  hashToQC : UMap Bytes QuorumCertificate
  hashToTxnid : UMap Bytes ℕ
  currNewViewed : ℕ
  tempQueue : List GenericMsg
  priorQueue : List GenericMsg

def Instance.init : Instance where
  view := 0
  preparedQC := genesisQC .PREPARE
  lockedQC := genesisQC .PRECOMMIT
  hashToQC := (∅ : UMap Bytes QuorumCertificate).insert [] (genesisQC .PRECOMMIT)
  hashToTxnid := ∅
  currNewViewed := 0
  tempQueue := []
  priorQueue := []

structure Sending where
  nextSendView : ℕ
  lastSentView : ℕ
  incompleteProposalCnt : ℕ
  newTxnQueue : List ClientQueryBatch
  clbCnt : ℕ

def Sending.init (cfg : Config) (nodeId instanceId : ℕ) : Sending where
  nextSendView := (cfg.nodeCnt + nodeId - instanceId) % cfg.nodeCnt
  lastSentView := 0
  incompleteProposalCnt := 0
  newTxnQueue := []
  clbCnt := 0

inductive ProposalPc
  | idle
  | awake
  | armed
  | popped (instanceId view : ℕ) (batch : ClientQueryBatch)
  | stamped (txnId : ℕ) (batch : ClientQueryBatch)
  | processed (instanceId : ℕ)

inductive GenericPc
  | idle
  | awake
  | armed
  | chosen (instanceId : ℕ)
  | formed (instanceId txnId : ℕ)
  | holding (txnId : ℕ)

structure Threads where
  proposal : ProposalPc := .idle
  generic : GenericPc := .idle
  requeued : List ℕ := []

structure Semaphores where
  newTxn : ℕ
  proposal : ℕ
  batchWork : ℕ
  genericWork : ℕ

inductive Obs
  | popped (batch : ClientQueryBatch)
  | proposed (instanceId view : ℕ) (batch : ClientQueryBatch) (hash : Bytes)
  | genericSent (instanceId txnId : ℕ)
  | voted (instanceId txnId : ℕ) (hash : Bytes)
  | adopted (m : GenericMsg) (x : Instance)
  | advanced (instanceId view txnId : ℕ) (qc : QuorumCertificate) (voters : List ℕ)
  | committed (instanceId txnId : ℕ) (hash parent : Bytes)
  | executeSent (instanceId : ℕ) (m : ExecuteMsg)

structure Replica where
  nodeId : ℕ
  inst : ℕ → Instance
  sends : ℕ → Sending
  table : ℕ → TxnManager
  exec : Executor
  threads : Threads
  sems : Semaphores
  out : List (ℕ × Msg)
  trace : List Obs

namespace Replica

def init (cfg : Config) (nodeId : ℕ) : Replica where
  nodeId := nodeId
  inst _ := .init
  sends i := .init cfg nodeId i
  table _ := {}
  exec := .init cfg
  threads := {}
  sems :=
    { newTxn := if nodeId < cfg.totInstances then 1 else 0
      proposal := if nodeId < cfg.totInstances then 1 else 0
      batchWork := 0
      genericWork := 0 }
  out := []
  trace := []

def setInst (r : Replica) (i : ℕ) (x : Instance) : Replica := { r with inst := Function.update r.inst i x }

def setSend (r : Replica) (i : ℕ) (x : Sending) : Replica := { r with sends := Function.update r.sends i x }

def setTxn (r : Replica) (id : ℕ) (t : TxnManager) : Replica := { r with table := Function.update r.table id t }

def observe (r : Replica) (o : Obs) : Replica := { r with trace := r.trace ++ [o] }

def send (r : Replica) (dest : List ℕ) (m : Msg) : Replica :=
  { r with out := r.out ++ dest.map fun d => (d, m) }

def setExec (r : Replica) (e : Executor) : Replica := { r with exec := e }

section Projections

variable (r : Replica) (i id : ℕ) (x : Instance) (y : Sending) (t : TxnManager) (o : Obs) (dest : List ℕ)
  (m : Msg) (e : Executor)

@[simp] lemma setInst_nodeId : (r.setInst i x).nodeId = r.nodeId := rfl
@[simp] lemma setInst_inst : (r.setInst i x).inst = Function.update r.inst i x := rfl
@[simp] lemma setInst_sends : (r.setInst i x).sends = r.sends := rfl
@[simp] lemma setInst_table : (r.setInst i x).table = r.table := rfl
@[simp] lemma setInst_exec : (r.setInst i x).exec = r.exec := rfl
@[simp] lemma setInst_threads : (r.setInst i x).threads = r.threads := rfl
@[simp] lemma setInst_sems : (r.setInst i x).sems = r.sems := rfl
@[simp] lemma setInst_out : (r.setInst i x).out = r.out := rfl
@[simp] lemma setInst_trace : (r.setInst i x).trace = r.trace := rfl

@[simp] lemma setSend_nodeId : (r.setSend i y).nodeId = r.nodeId := rfl
@[simp] lemma setSend_inst : (r.setSend i y).inst = r.inst := rfl
@[simp] lemma setSend_sends : (r.setSend i y).sends = Function.update r.sends i y := rfl
@[simp] lemma setSend_table : (r.setSend i y).table = r.table := rfl
@[simp] lemma setSend_exec : (r.setSend i y).exec = r.exec := rfl
@[simp] lemma setSend_threads : (r.setSend i y).threads = r.threads := rfl
@[simp] lemma setSend_sems : (r.setSend i y).sems = r.sems := rfl
@[simp] lemma setSend_out : (r.setSend i y).out = r.out := rfl
@[simp] lemma setSend_trace : (r.setSend i y).trace = r.trace := rfl

@[simp] lemma setTxn_nodeId : (r.setTxn id t).nodeId = r.nodeId := rfl
@[simp] lemma setTxn_inst : (r.setTxn id t).inst = r.inst := rfl
@[simp] lemma setTxn_sends : (r.setTxn id t).sends = r.sends := rfl
@[simp] lemma setTxn_table : (r.setTxn id t).table = Function.update r.table id t := rfl
@[simp] lemma setTxn_exec : (r.setTxn id t).exec = r.exec := rfl
@[simp] lemma setTxn_threads : (r.setTxn id t).threads = r.threads := rfl
@[simp] lemma setTxn_sems : (r.setTxn id t).sems = r.sems := rfl
@[simp] lemma setTxn_out : (r.setTxn id t).out = r.out := rfl
@[simp] lemma setTxn_trace : (r.setTxn id t).trace = r.trace := rfl

@[simp] lemma observe_nodeId : (r.observe o).nodeId = r.nodeId := rfl
@[simp] lemma observe_inst : (r.observe o).inst = r.inst := rfl
@[simp] lemma observe_sends : (r.observe o).sends = r.sends := rfl
@[simp] lemma observe_table : (r.observe o).table = r.table := rfl
@[simp] lemma observe_exec : (r.observe o).exec = r.exec := rfl
@[simp] lemma observe_threads : (r.observe o).threads = r.threads := rfl
@[simp] lemma observe_sems : (r.observe o).sems = r.sems := rfl
@[simp] lemma observe_out : (r.observe o).out = r.out := rfl
@[simp] lemma observe_trace : (r.observe o).trace = r.trace ++ [o] := rfl

@[simp] lemma send_nodeId : (r.send dest m).nodeId = r.nodeId := rfl
@[simp] lemma send_inst : (r.send dest m).inst = r.inst := rfl
@[simp] lemma send_sends : (r.send dest m).sends = r.sends := rfl
@[simp] lemma send_table : (r.send dest m).table = r.table := rfl
@[simp] lemma send_exec : (r.send dest m).exec = r.exec := rfl
@[simp] lemma send_threads : (r.send dest m).threads = r.threads := rfl
@[simp] lemma send_sems : (r.send dest m).sems = r.sems := rfl
@[simp] lemma send_out : (r.send dest m).out = r.out ++ dest.map fun d => (d, m) := rfl
@[simp] lemma send_trace : (r.send dest m).trace = r.trace := rfl

@[simp] lemma setExec_nodeId : (r.setExec e).nodeId = r.nodeId := rfl
@[simp] lemma setExec_inst : (r.setExec e).inst = r.inst := rfl
@[simp] lemma setExec_sends : (r.setExec e).sends = r.sends := rfl
@[simp] lemma setExec_table : (r.setExec e).table = r.table := rfl
@[simp] lemma setExec_exec : (r.setExec e).exec = e := rfl
@[simp] lemma setExec_threads : (r.setExec e).threads = r.threads := rfl
@[simp] lemma setExec_sems : (r.setExec e).sems = r.sems := rfl
@[simp] lemma setExec_out : (r.setExec e).out = r.out := rfl
@[simp] lemma setExec_trace : (r.setExec e).trace = r.trace := rfl

end Projections

end Replica

end SpotLess
