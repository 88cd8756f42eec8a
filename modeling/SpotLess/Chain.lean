import SpotLess.Replica

/-! The certificate chain of an instance: the safety rule, the prepared and locked certificates, the three-chain
commit rule and the walk that hands committed slots to the execute thread. -/

namespace SpotLess

open Lib

namespace Instance

variable (x : Instance)

def SafeNode (highQC : QuorumCertificate) : Prop :=
  (highQC.viewNumber = x.lockedQC.viewNumber ∧ highQC.batchHash = x.lockedQC.batchHash) ∨
    highQC.viewNumber > x.lockedQC.viewNumber ∨ (highQC.viewNumber = 0 ∧ x.lockedQC.genesis = true)

instance (highQC : QuorumCertificate) : Decidable (x.SafeNode highQC) := inferInstanceAs (Decidable (_ ∨ _))

def setPreparedQC (qc : QuorumCertificate) : Instance :=
  if qc.viewNumber > x.preparedQC.viewNumber ∨ x.preparedQC.genesis = true then { x with preparedQC := qc } else x

def setLockedQC (qc : QuorumCertificate) : Instance :=
  if qc.viewNumber > x.lockedQC.viewNumber ∨ x.lockedQC.genesis = true then { x with lockedQC := qc } else x

def storeQC (qc : QuorumCertificate) : Instance := { x with hashToQC := x.hashToQC.insert qc.batchHash qc }

-- The loop of `send_execute_msg_hotstuff`, with the managers whose messages it enqueues.
def executeParents : ℕ → Instance → QuorumCertificate → Instance × List ℕ
  | 0, x, _ => (x, [])
  | fuel + 1, x, qc =>
    let id := UMap.get x.hashToTxnid qc.batchHash
    let y : Instance :=
      { x with hashToQC := x.hashToQC.erase qc.batchHash, hashToTxnid := x.hashToTxnid.erase qc.batchHash }
    if UMap.count y.hashToQC qc.parentHash then
      let z := executeParents fuel y (UMap.get y.hashToQC qc.parentHash)
      (z.1, id :: z.2)
    else
      (y, [id])

def walkParents (hash : Bytes) : Instance × List ℕ :=
  let y : Instance := { x with hashToQC := UMap.touch x.hashToQC hash }
  let qc := UMap.get y.hashToQC hash
  if UMap.count y.hashToQC qc.parentHash then
    executeParents (y.hashToQC.entries.length + 1) y (UMap.get y.hashToQC qc.parentHash)
  else
    (y, [])

def sendExecuteMsg (t : TxnManager) (id : ℕ) : Instance × List ℕ :=
  let z := x.walkParents t.hash
  let y : Instance :=
    { z.1 with
      hashToQC := z.1.hashToQC.erase t.hash
      hashToTxnid := UMap.eraseAll z.1.hashToTxnid t.hashVoters.keys }
  (y, z.2 ++ [id])

def parentOf (qc : QuorumCertificate) : QuorumCertificate := UMap.get x.hashToQC qc.parentHash

def Prepares (qc : QuorumCertificate) (view : ℕ) : Prop := add64 qc.viewNumber 1 = view

def Locks (qc : QuorumCertificate) (view : ℕ) : Prop :=
  Prepares qc view ∧ add64 (x.parentOf qc).viewNumber 2 = view

def Commits (qc : QuorumCertificate) (view : ℕ) : Prop :=
  x.Locks qc view ∧ add64 (x.parentOf (x.parentOf qc)).viewNumber 3 = view

instance (qc : QuorumCertificate) (view : ℕ) : Decidable (Prepares qc view) := inferInstanceAs (Decidable (_ = _))

instance (qc : QuorumCertificate) (view : ℕ) : Decidable (x.Locks qc view) := inferInstanceAs (Decidable (_ ∧ _))

instance (qc : QuorumCertificate) (view : ℕ) : Decidable (x.Commits qc view) := inferInstanceAs (Decidable (_ ∧ _))

-- `update_lockQC` up to the commit: both lookups go through `operator[]`.
def updateQCs (qc : QuorumCertificate) (view : ℕ) : Instance :=
  let b2 := x.parentOf qc
  let x₁ : Instance := { x with hashToQC := UMap.touch (UMap.touch x.hashToQC qc.parentHash) b2.parentHash }
  let x₂ := if Prepares qc view then x₁.setPreparedQC qc else x₁
  if x.Locks qc view then x₂.setLockedQC b2 else x₂

def markCommit (hash : Bytes) : Instance :=
  { x with hashToQC := x.hashToQC.insert hash { UMap.get x.hashToQC hash with type := .COMMIT } }

end Instance

namespace Replica

variable (cfg : Config)

def enqueueExecutes (r : Replica) (i : ℕ) (ids : List ℕ) : Replica :=
  { r with
    exec := { r.exec with queue := r.exec.queue ++ ids.map (ExecuteMsg.copyFromTxn cfg) }
    trace := r.trace ++ ids.map fun id => .executeSent i (ExecuteMsg.copyFromTxn cfg id) }

def commit (r : Replica) (i id : ℕ) (parent : Bytes) : Replica :=
  let z := ((r.inst i).markCommit parent).sendExecuteMsg (r.table id) id
  ((r.setInst i z.1).observe (.committed i id (r.table id).hash parent)).enqueueExecutes cfg i z.2

def updateLockQC (r : Replica) (qc : QuorumCertificate) (view txnid i : ℕ) : Replica :=
  let x := r.inst i
  let s := r.setInst i (x.updateQCs qc view)
  if x.Commits qc view then
    s.commit cfg i (sub64 txnid (2 * cfg.stride)) (x.parentOf (x.parentOf qc)).batchHash
  else s

def setView (r : Replica) (i view : ℕ) : Replica :=
  let x := r.inst i
  r.setInst i { x with view := view, tempQueue := [], priorQueue := x.priorQueue ++ x.tempQueue }

def setCurrNewViewed (r : Replica) (i id : ℕ) : Replica :=
  r.setInst i { r.inst i with currNewViewed := id % 2 ^ 32 }

def postPrimary (r : Replica) : Replica :=
  { r with sems := { r.sems with newTxn := r.sems.newTxn + 1, proposal := r.sems.proposal + 1 } }

def genericQCOf (t : TxnManager) (view : ℕ) : QuorumCertificate :=
  { t.genericQC with
    batchHash := t.hash
    type := .PREPARE
    viewNumber := if t.highQC.genesis then 0 else view
    parentHash := t.highQC.batchHash
    parentView := t.highQC.viewNumber
    grandHash := t.highQC.parentHash
    grandView := t.highQC.parentView }

def installQC (r : Replica) (id : ℕ) : Replica :=
  let t := r.table id
  let x := r.inst t.instanceId
  let qc := genericQCOf t x.view
  ((r.setTxn id { t with genericQC := qc }).setInst t.instanceId (x.storeQC qc)).observe
    (.advanced t.instanceId x.view id qc (t.votersOf t.hash))

def enterView (r : Replica) (i view id : ℕ) : Replica :=
  let r₁ := (r.setView i view).setCurrNewViewed i id
  if r.nodeId = cfg.getViewPrimary view i then r₁.postPrimary else r₁

def advanceView (r : Replica) (id : ℕ) : Option Replica :=
  let t := r.table id
  let i := t.instanceId
  let view := (r.inst i).view
  if t.hash = [] ∨ ¬ cfg.InRange view then none
  else some (((r.installQC id).updateLockQC cfg (genericQCOf t view) (view + 1) id i).enterView cfg i (view + 1) id)

end Replica

end SpotLess
