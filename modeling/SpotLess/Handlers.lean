import SpotLess.Chain

/-! The handlers of the worker threads. `none` is a failed assertion, which ends the process. -/

namespace SpotLess.Replica

open Lib

variable (cfg : Config) (crypto : Crypto)

def others (r : Replica) : List ℕ := (List.range cfg.nodeCnt).filter fun d => d ≠ r.nodeId

def syncOf (r : Replica) (id : ℕ) (sigShare : Option Bytes) : SyncMsg :=
  let t := r.table id
  { txnId := id
    returnNodeId := r.nodeId
    instanceId := t.instanceId
    view := (r.inst t.instanceId).view
    hash := t.hash
    highQC := { t.highQC with grandEmpty := true, signatureShareMap := ∅ }
    sigShare := sigShare
    nonVote := false }

def castVote (t : TxnManager) (self : ℕ) : TxnManager :=
  let t' := t.pushVoter t.hash self
  if t'.newViewVoteCnt = cfg.nf then { t' with newViewed := true } else t'

def sendHotstuffNewview (r : Replica) (id : ℕ) : Replica :=
  let t := r.table id
  if t.syncSent then r
  else
    let share := crypto.ecdsaSign r.nodeId (signedDigest crypto t.hash t.highQC)
    let dest := cfg.getViewPrimary ((r.inst t.instanceId).view + 1) t.instanceId
    let own : TxnManager :=
      if r.nodeId = dest then
        { t with genericQC := { t.genericQC with
            signatureShareMap := t.genericQC.signatureShareMap.insert r.nodeId share } }
      else t
    let r₁ :=
      if r.nodeId = dest then r else r.send [dest] (.sync (r.syncOf id (some share)))
    let r₂ := r₁.send ((r.others cfg).filter fun d => d ≠ dest) (.sync (r.syncOf id none))
    (r₂.setTxn id (castVote cfg { own with syncSent := true } r.nodeId)).observe
      (.voted t.instanceId id t.hash)

-- Whether this vote completes the quorum, with the manager after counting it.
def hotstuffNewViewed (t : TxnManager) (self : ℕ) (m : SyncMsg) : TxnManager × Bool :=
  if t.newViewed then (t, false)
  else
    let t₁ := t.seedVotes self
    if m.returnNodeId ∈ t₁.voteNewView then (t₁, false)
    else
      let t₂ := t₁.storeShare m.returnNodeId m.hash m.sigShare
      let t₃ := { t₂ with voteNewView := t₂.voteNewView ++ [m.returnNodeId] }.pushVoter m.hash m.returnNodeId
      if t₃.newViewVoteCnt = cfg.nf then
        ({ t₃.dropOtherShares m.hash with newViewed := true }, true)
      else (t₃, false)

-- The first vote for a hash binds it to the transaction the vote names.
def bindsHash (t : TxnManager) (self : ℕ) (m : SyncMsg) : Prop :=
  t.newViewed = false ∧ m.returnNodeId ∉ (t.seedVotes self).voteNewView ∧ t.votersOf m.hash = []

instance (t : TxnManager) (self : ℕ) (m : SyncMsg) : Decidable (bindsHash t self m) :=
  inferInstanceAs (Decidable (_ ∧ _))

def bindTxnid (r : Replica) (m : SyncMsg) : Replica :=
  let x := r.inst m.instanceId
  r.setInst m.instanceId { x with hashToTxnid := x.hashToTxnid.insert m.hash m.txnId }

def processHotstuffNewView (r : Replica) (m : SyncMsg) : Option Replica :=
  if ¬ m.validate crypto then none
  else
    let t := r.table m.txnId
    if t.hash ≠ [] ∧ m.hash ≠ t.hash then some r
    else
      let z := hotstuffNewViewed cfg t r.nodeId m
      let r₁ := if bindsHash t r.nodeId m then r.bindTxnid m else r
      let r₂ := r₁.setTxn m.txnId z.1
      if z.2 ∧ z.1.proposalReceived ∧ z.1.genericReceived then r₂.advanceView cfg m.txnId else some r₂

-- `set_txn_man_fields` and its counterpart at the primary.
def fillManagers (table : ℕ → TxnManager) (returnId view i : ℕ) :
    List (ℕ × ClientQuery) → Option (ℕ → TxnManager)
  | [] => some table
  | (id, qry) :: rest =>
    match ({ table id with returnId := returnId, view := view, instanceId := i } : TxnManager).initTxnMan cfg qry with
    | some t => fillManagers (Function.update table id t) returnId view i rest
    | none => none

def rememberTxnid (r : Replica) (i : ℕ) (hash : Bytes) (id : ℕ) : Replica :=
  let x := r.inst i
  r.setInst i { x with hashToTxnid := UMap.insertNew x.hashToTxnid hash id }

def processHotstuffProposal (r : Replica) (m : ProposalMsg) : Option Replica :=
  let first := r.table (m.txnId + 2)
  if first.proposalReceived then some r
  else if first.genericReceived ∧ m.hash ≠ first.hash then none
  else if ¬ m.validate crypto then none
  else
    match fillManagers cfg r.table m.returnNodeId m.view m.instanceId (m.index.zip m.requestMsg) with
    | none => none
    | some table =>
      let last := m.index.getLastD 0
      let t : TxnManager := { table last with hash := m.hash, proposalReceived := true }
      let r₁ := { r with table := Function.update table last t }.rememberTxnid m.instanceId m.hash last
      if t.newViewed ∧ t.genericReceived then r₁.advanceView cfg last else some r₁

def acceptGeneric (t : TxnManager) (m : GenericMsg) : TxnManager :=
  let t' : TxnManager :=
    if t.hash = [] then { t with hash := m.hash, view := m.view, instanceId := m.instanceId } else t
  { t' with highQC := m.highQC, genericReceived := true }

def storeGeneric (r : Replica) (m : GenericMsg) : Replica :=
  ((r.setTxn m.txnId (acceptGeneric (r.table m.txnId) m)).setInst m.instanceId
    ((r.inst m.instanceId).storeQC m.highQC)).observe (.adopted m (r.inst m.instanceId))

def lockGeneric (r : Replica) (m : GenericMsg) : Replica :=
  if m.highQC.viewNumber > (r.inst m.instanceId).preparedQC.viewNumber then
    r.updateLockQC cfg m.highQC m.view (sub64 m.txnId cfg.stride) m.instanceId
  else r

def processHotstuffGeneric (r : Replica) (m : GenericMsg) : Option Replica :=
  let t := r.table m.txnId
  let x := r.inst m.instanceId
  if t.genericReceived then some r
  else if cfg.getViewPrimary x.view m.instanceId ≠ m.returnNodeId then some r
  else if ¬ m.validate crypto then none
  else if ¬ x.SafeNode m.highQC then some r
  else if t.hash ≠ [] ∧ t.hash ≠ m.hash then none
  else
    let s := ((r.storeGeneric m).lockGeneric cfg m).sendHotstuffNewview cfg crypto m.txnId
    if (s.table m.txnId).newViewed ∧ (s.table m.txnId).proposalReceived then s.advanceView cfg m.txnId else some s

def genericOf (r : Replica) (id : ℕ) : GenericMsg :=
  let t := r.table id
  let highQC := (r.inst t.instanceId).preparedQC
  { txnId := id
    returnNodeId := r.nodeId
    instanceId := t.instanceId
    view := (r.inst t.instanceId).view
    hash := t.hash
    highQC := highQC
    psigShare := crypto.ecdsaSign r.nodeId (signedDigest crypto t.hash highQC) }

def sendHotstuffGeneric (r : Replica) (id : ℕ) : Option Replica :=
  let t := r.table id
  if t.hash = [] then none
  else
    let m := r.genericOf crypto id
    some (((r.setTxn id { t with highQC := m.highQC }).send (r.others cfg) (.generic m)).observe
      (.genericSent t.instanceId id))

def processHotstuffGenericP (r : Replica) (id : ℕ) : Option Replica :=
  (r.sendHotstuffGeneric cfg crypto id).map fun r₁ =>
    (r₁.setTxn id { r₁.table id with genericReceived := true }).sendHotstuffNewview cfg crypto id

def proposalOf (r : Replica) (slot : ℕ) (batch : ClientQueryBatch) : ProposalMsg :=
  let i := slot % cfg.totInstances
  { txnId := sub64 (slot * cfg.batchSize + cfg.batchSize - 1) 2
    returnNodeId := r.nodeId
    instanceId := i
    view := (r.sends i).lastSentView
    index := List.range' (slot * cfg.batchSize) cfg.batchSize
    requestMsg := batch.cqrySet
    hash := crypto.calculateHash (batchString batch.cqrySet) }

-- `create_and_send_hotstuff_prepare`; its first check is the assertion of `SpotLessProposalMsg::init`.
def createAndSendHotstuffPrepare (r : Replica) (slot : ℕ) (batch : ClientQueryBatch) : Option Replica :=
  let m := r.proposalOf cfg crypto slot batch
  if cfg.getViewPrimary m.view m.instanceId ≠ r.nodeId then none
  else
    match fillManagers cfg r.table batch.returnNode m.view m.instanceId (m.index.zip batch.cqrySet) with
    | none => none
    | some table =>
      let last := slot * cfg.batchSize + cfg.batchSize - 1
      let t : TxnManager := { table last with hash := m.hash, proposalReceived := true }
      let x := r.inst m.instanceId
      some
        ((({ r with table := Function.update table last t }.setInst m.instanceId
          { x with hashToTxnid := x.hashToTxnid.insert m.hash last }).send (r.others cfg) (.proposal m)).observe
            (.proposed m.instanceId m.view batch m.hash))

end SpotLess.Replica
