import SpotLess.Config
import SpotLess.Lib.UMap

/-! Quorum certificates, the messages replicas and clients exchange, and the strings they are hashed
and signed over. Message authentication codes are taken as authenticated channels: the sender named
by a delivered message is the node that sent it. A failed `validate` ends the process. -/

namespace SpotLess

open Lib

structure Crypto where
  calculateHash : Bytes → Bytes
  ecdsaSign : ℕ → Bytes → Bytes
  ecdsaVerify : ℕ → Bytes → Bytes → Bool
  hash_ne_nil : ∀ s, calculateHash s ≠ []
  verify_sign : ∀ node s, ecdsaVerify node (ecdsaSign node s) s = true

def Crypto.transparent : Crypto where
  calculateHash s := 0 :: s
  ecdsaSign node s := node.toUInt8 :: s
  ecdsaVerify node sig s := sig = node.toUInt8 :: s
  hash_ne_nil _ := List.cons_ne_nil _ _
  verify_sign _ _ := decide_eq_true rfl

inductive QCType
  | PREPARE
  | PRECOMMIT
  | COMMIT
  deriving DecidableEq, Repr

structure QuorumCertificate where
  type : QCType := .PREPARE
  genesis : Bool := false
  viewNumber : ℕ := 0
  parentView : ℕ := 0
  batchHash : Bytes := []
  parentHash : Bytes := []
  grandEmpty : Bool := false
  grandView : ℕ := 0
  grandHash : Bytes := []
  signatureShareMap : UMap ℕ Bytes := ∅

namespace QuorumCertificate

instance : Inhabited QuorumCertificate := ⟨{}⟩

def toBytes (qc : QuorumCertificate) : Bytes :=
  qc.batchHash ++ toStringDec qc.viewNumber ++ qc.parentHash ++ toStringDec qc.parentView

@[simp] lemma default_viewNumber : (default : QuorumCertificate).viewNumber = 0 := rfl

@[simp] lemma default_batchHash : (default : QuorumCertificate).batchHash = [] := rfl

@[simp] lemma default_parentHash : (default : QuorumCertificate).parentHash = [] := rfl

@[simp] lemma default_genesis : (default : QuorumCertificate).genesis = false := rfl

end QuorumCertificate

structure Request where
  key : ℕ
  value : ℕ
  deriving DecidableEq, Repr

structure ClientQuery where
  requests : List Request
  clientStartts : ℕ
  returnNode : ℕ
  deriving DecidableEq, Repr

def space : Bytes := [32]

-- Appending a 64-bit value to a `std::string` appends its lowest byte.
def Request.toBytes (req : Request) : Bytes :=
  toStringDec req.key ++ space ++ [req.value.toUInt8] ++ space

def ClientQuery.getRequestString (qry : ClientQuery) : Bytes :=
  (qry.requests.map Request.toBytes).flatten

def ClientQuery.getString (qry : ClientQuery) : Bytes :=
  qry.getRequestString ++ space ++ toStringDec qry.clientStartts

def batchString (qrys : List ClientQuery) : Bytes := (qrys.map ClientQuery.getString).flatten

structure ClientQueryBatch where
  returnNode : ℕ
  cqrySet : List ClientQuery
  deriving DecidableEq, Repr

structure ProposalMsg where
  txnId : ℕ
  returnNodeId : ℕ
  instanceId : ℕ
  view : ℕ
  index : List ℕ
  requestMsg : List ClientQuery
  hash : Bytes

structure GenericMsg where
  txnId : ℕ
  returnNodeId : ℕ
  instanceId : ℕ
  view : ℕ
  hash : Bytes
  highQC : QuorumCertificate
  psigShare : Bytes

structure SyncMsg where
  txnId : ℕ
  returnNodeId : ℕ
  instanceId : ℕ
  view : ℕ
  hash : Bytes
  highQC : QuorumCertificate
  sigShare : Option Bytes
  nonVote : Bool

structure ExecuteMsg where
  txnId : ℕ
  index : ℕ
  endIndex : ℕ
  valid : Bool
  deriving DecidableEq, Repr

inductive Msg
  | proposal (m : ProposalMsg)
  | generic (m : GenericMsg)
  | sync (m : SyncMsg)

namespace Msg

def returnNodeId : Msg → ℕ
  | proposal m => m.returnNodeId
  | generic m => m.returnNodeId
  | sync m => m.returnNodeId

def instanceId : Msg → ℕ
  | proposal m => m.instanceId
  | generic m => m.instanceId
  | sync m => m.instanceId

def txnId : Msg → ℕ
  | proposal m => m.txnId
  | generic m => m.txnId
  | sync m => m.txnId

def WellFormed (cfg : Config) : Msg → Prop
  | proposal m => m.instanceId < cfg.totInstances ∧
      m.index.length = cfg.batchSize ∧ m.requestMsg.length = cfg.batchSize
  | generic m => m.instanceId < cfg.totInstances
  | sync m => m.instanceId < cfg.totInstances

instance (cfg : Config) : DecidablePred (WellFormed cfg)
  | proposal _ => inferInstanceAs (Decidable (_ ∧ _))
  | generic _ => inferInstanceAs (Decidable (_ < _))
  | sync _ => inferInstanceAs (Decidable (_ < _))

end Msg

section Validate

variable (crypto : Crypto)

def signedDigest (hash : Bytes) (qc : QuorumCertificate) : Bytes :=
  crypto.calculateHash (hash ++ qc.toBytes)

def ProposalMsg.validate (m : ProposalMsg) : Bool :=
  m.hash == crypto.calculateHash (batchString m.requestMsg)

def GenericMsg.validate (m : GenericMsg) : Bool :=
  crypto.ecdsaVerify m.returnNodeId m.psigShare (signedDigest crypto m.hash m.highQC)

def SyncMsg.validate (m : SyncMsg) : Bool :=
  match m.sigShare with
  | some share => crypto.ecdsaVerify m.returnNodeId share (signedDigest crypto m.hash m.highQC)
  | none => true

end Validate

def ExecuteMsg.copyFromTxn (cfg : Config) (id : ℕ) : ExecuteMsg where
  txnId := sub64 id 1
  index := sub64 (id + 1) cfg.batchSize
  endIndex := id
  valid := true

section Slot

variable (cfg : Config) (crypto : Crypto) (view i : ℕ)

-- What the primary of a slot sends for it, and the vote of a replica that has no share to deliver.
def slotProposal (qrys : List ClientQuery) : ProposalMsg where
  txnId := cfg.lastTxn view i - 2
  returnNodeId := cfg.getViewPrimary view i
  instanceId := i
  view := view
  index := cfg.slotTxns view i
  requestMsg := qrys
  hash := crypto.calculateHash (batchString qrys)

def slotGeneric (hash : Bytes) (highQC : QuorumCertificate) : GenericMsg where
  txnId := cfg.lastTxn view i
  returnNodeId := cfg.getViewPrimary view i
  instanceId := i
  view := view
  hash := hash
  highQC := highQC
  psigShare := crypto.ecdsaSign (cfg.getViewPrimary view i) (signedDigest crypto hash highQC)

def slotVote (hash : Bytes) (node : ℕ) : SyncMsg where
  txnId := cfg.lastTxn view i
  returnNodeId := node
  instanceId := i
  view := view
  hash := hash
  highQC := {}
  sigShare := none
  nonVote := false

end Slot

end SpotLess
