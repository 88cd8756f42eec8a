import SpotLess.Config
import SpotLess.Lib.Buffer
import Mathlib.Data.Vector.Basic

/-! The byte layout of the messages between nodes: for every type what `get_size` counts, what `copy_to_buf`
writes and what `copy_from_buf` reads. -/

namespace SpotLess

structure NetConfig extends Config where
  clientNodeCnt : ℕ
  replCnt : ℕ
  synthTableSize : ℕ
  msgSize : ℕ
  messagePerBuffer : ℕ
  header_le : 12 ≤ msgSize
  messagePerBuffer_pos : 0 < messagePerBuffer
  messagePerBuffer_lt : messagePerBuffer < 2 ^ 32

def NetConfig.deployed : NetConfig where
  toConfig := Config.deployed
  clientNodeCnt := 1
  replCnt := 0
  synthTableSize := 524288
  msgSize := 1048576
  messagePerBuffer := 3
  header_le := by decide
  messagePerBuffer_pos := by decide
  messagePerBuffer_lt := by decide

def NetConfig.totalNodeCnt (net : NetConfig) : ℕ :=
  net.nodeCnt + net.clientNodeCnt + net.replCnt * net.nodeCnt

namespace Wire

open Lib

-- `secp256k1_ecdsa_signature` and `secp256k1_pubkey` are arrays of 64 bytes.
abbrev Share := List.Vector UInt8 64

abbrev PublicShare := List.Vector UInt8 64

inductive RemReqType
  | INIT_DONE
  | KEYEX
  | READY
  | CL_QRY
  | RTXN
  | RTXN_CONT
  | RINIT
  | RDONE
  | CL_RSP
  | CL_BATCH
  | NO_MSG
  | EXECUTE_MSG
  | PBFT_CHKPT_MSG
  | SYNC_MSG
  | GENERIC_MSG
  | PROPOSAL_MSG
  | GENERIC_MSG_P
  | ASK_MSG
  | ASK_RESPONSE_MSG
  deriving DecidableEq, Repr

namespace RemReqType

def all : List RemReqType :=
  [INIT_DONE, KEYEX, READY, CL_QRY, RTXN, RTXN_CONT, RINIT, RDONE, CL_RSP, CL_BATCH, NO_MSG, EXECUTE_MSG,
    PBFT_CHKPT_MSG, SYNC_MSG, GENERIC_MSG, PROPOSAL_MSG, GENERIC_MSG_P, ASK_MSG, ASK_RESPONSE_MSG]

def code (t : RemReqType) : UInt32 := UInt32.ofNat (all.idxOf t)

def ofCode (c : UInt32) : Option RemReqType := all[c.toNat]?

lemma ofCode_code (t : RemReqType) : ofCode t.code = some t := by
  cases t <;> decide

end RemReqType

inductive QCType
  | PREPARE
  | PRECOMMIT
  | COMMIT
  deriving DecidableEq, Repr

namespace QCType

def all : List QCType := [PREPARE, PRECOMMIT, COMMIT]

def code (t : QCType) : UInt32 := UInt32.ofNat (all.idxOf t)

def ofCode (c : UInt32) : Option QCType := all[c.toNat]?

lemma ofCode_code (t : QCType) : ofCode t.code = some t := by
  cases t <;> decide

end QCType

-- The entries of a `std::map` in the order of its iterators.
structure ShareMap where
  entries : List (UInt64 × Share)
  sorted : entries.Pairwise (·.1 < ·.1)

namespace ShareMap

def insertEntry (node : UInt64) (share : Share) : List (UInt64 × Share) → List (UInt64 × Share)
  | [] => [(node, share)]
  | e :: es =>
    if node < e.1 then (node, share) :: e :: es
    else if node = e.1 then (node, share) :: es
    else e :: insertEntry node share es

lemma mem_insertEntry {node : UInt64} {share : Share} {es : List (UInt64 × Share)} {x : UInt64 × Share}
    (h : x ∈ insertEntry node share es) : x = (node, share) ∨ x ∈ es := by
  induction es with
  | nil => exact .inl (List.mem_singleton.mp h)
  | cons e es ih =>
    rw [insertEntry] at h
    split_ifs at h
    · exact List.mem_cons.mp h
    · rcases List.mem_cons.mp h with rfl | h
      · exact .inl rfl
      · exact .inr (List.mem_cons_of_mem e h)
    · rcases List.mem_cons.mp h with rfl | h
      · exact .inr List.mem_cons_self
      · exact (ih h).imp_right (List.mem_cons_of_mem e)

lemma sorted_insertEntry {node : UInt64} {share : Share} {es : List (UInt64 × Share)}
    (h : es.Pairwise (·.1 < ·.1)) : (insertEntry node share es).Pairwise (·.1 < ·.1) := by
  induction es with
  | nil => exact List.pairwise_singleton _ _
  | cons e es ih =>
    obtain ⟨he, hes⟩ := List.pairwise_cons.mp h
    rw [insertEntry]
    split_ifs with hlt heq
    · refine List.pairwise_cons.mpr ⟨fun x hx => ?_, h⟩
      rcases List.mem_cons.mp hx with rfl | hx
      · exact hlt
      · exact UInt64.lt_trans hlt (he x hx)
    · exact List.pairwise_cons.mpr ⟨fun x hx => heq ▸ he x hx, hes⟩
    · refine List.pairwise_cons.mpr ⟨fun x hx => ?_, ih hes⟩
      rcases mem_insertEntry hx with rfl | hx
      · exact UInt64.lt_of_le_of_ne (UInt64.not_lt.mp hlt) (Ne.symm heq)
      · exact he x hx

def empty : ShareMap := ⟨[], .nil⟩

def insert (m : ShareMap) (node : UInt64) (share : Share) : ShareMap :=
  ⟨insertEntry node share m.entries, sorted_insertEntry m.sorted⟩

def ofEntries (es : List (UInt64 × Share)) : ShareMap := es.foldl (fun m e => m.insert e.1 e.2) empty

end ShareMap

structure QuorumCertificate where
  type : QCType
  genesis : Bool
  viewNumber : UInt64
  parentView : UInt64
  batchHash : Bytes
  parentHash : Bytes
  grandEmpty : Bool
  grandView : UInt64
  grandHash : Bytes
  signatureShareMap : ShareMap

structure Latency where
  workQueueTime : UInt64
  msgQueueTime : UInt64
  ccBlockTime : UInt64
  ccTime : UInt64
  processTime : UInt64
  networkTime : UInt64
  otherTime : UInt64

structure Base where
  txnId : UInt64
  returnNodeId : UInt64
  mqTime : UInt64
  sigSize : UInt64
  keySize : UInt64
  signature : Bytes
  pubKey : Bytes
  instanceId : UInt64
  latency : Latency

inductive QueryType
  | CL_QRY
  | RTXN
  | RTXN_CONT
  deriving DecidableEq, Repr

def QueryType.rtype : QueryType → RemReqType
  | CL_QRY => .CL_QRY
  | RTXN => .RTXN
  | RTXN_CONT => .RTXN_CONT

structure Request where
  key : UInt64
  value : UInt64
  deriving DecidableEq, Repr

structure ClientQuery where
  rtype : QueryType
  clientStartts : UInt64
  requests : List Request
  returnNode : UInt64
  deriving DecidableEq, Repr

structure KeyExchange where
  pkey : Bytes
  pkeySz : UInt64
  returnNode : UInt64
  publicShare : PublicShare

structure ClientQueryBatch where
  returnNode : UInt64
  batchSize : UInt64
  cqrySet : List ClientQuery

structure ClientResponse where
  index : List UInt64
  clientTs : List UInt64
  view : UInt64

structure Checkpoint where
  index : UInt64
  returnNode : UInt64
  endIndex : UInt64

structure SyncMsg where
  view : UInt64
  index : UInt64
  hash : Bytes
  hashSize : UInt64
  returnNode : UInt64
  endIndex : UInt64
  batchSize : UInt32
  highQC : QuorumCertificate
  psigShare : Share
  sigEmpty : Bool
  sigShare : Share
  nonVote : Bool

structure GenericMsg where
  view : UInt64
  index : UInt64
  hash : Bytes
  hashSize : UInt64
  returnNode : UInt64
  endIndex : UInt64
  batchSize : UInt32
  highQC : QuorumCertificate
  psigShare : Share

structure ProposalMsg where
  view : UInt64
  index : List UInt64
  requestMsg : List ClientQuery
  hashSize : UInt64
  hash : Bytes
  batchSize : UInt32

structure AskMsg where
  view : UInt64
  hash : Bytes
  hashSize : UInt64
  returnNode : UInt64

inductive Body
  | initDone
  | ready
  | keyEx (m : KeyExchange)
  | clBatch (m : ClientQueryBatch)
  | clRsp (m : ClientResponse)
  | chkpt (m : Checkpoint)
  | sync (m : SyncMsg)
  | generic (m : GenericMsg)
  | proposal (m : ProposalMsg)
  | ask (m : AskMsg)
  | askResponse (m : ProposalMsg)

def Body.rtype : Body → RemReqType
  | initDone => .INIT_DONE
  | ready => .READY
  | keyEx _ => .KEYEX
  | clBatch _ => .CL_BATCH
  | clRsp _ => .CL_RSP
  | chkpt _ => .PBFT_CHKPT_MSG
  | sync _ => .SYNC_MSG
  | generic _ => .GENERIC_MSG
  | proposal _ => .PROPOSAL_MSG
  | ask _ => .ASK_MSG
  | askResponse _ => .ASK_RESPONSE_MSG

structure Message where
  base : Base
  body : Body

def Message.rtype (m : Message) : RemReqType := m.body.rtype

section Size

variable (net : NetConfig)

def QuorumCertificate.getSize (qc : QuorumCertificate) : ℕ :=
  1 + 4 + 2 * 8 + 2 * 8 + qc.batchHash.length + qc.parentHash.length + 1 +
    (if qc.grandEmpty then 0 else 8 + 8 + qc.grandHash.length) +
    (if qc.genesis then 0 else
      8 + qc.signatureShareMap.entries.length * 8 + qc.signatureShareMap.entries.length * 64)

def Base.mgetSize (b : Base) : ℕ :=
  4 + 8 + 8 + b.signature.length + b.pubKey.length + 8 + 8 + 8 + 8 * 7

def ClientQuery.getSize (q : ClientQuery) : ℕ := 4 + 8 + 8 + 16 * q.requests.length + 8

def secp : Bytes := [83, 69, 67, 80]

def KeyExchange.getSize (m : KeyExchange) : ℕ :=
  8 + m.pkey.length + 8 + if m.pkey ≠ secp then 0 else 64

-- The sizes of a batch are summed over its first `get_batch_size()` entries.
def ClientQueryBatch.getSize (m : ClientQueryBatch) : ℕ :=
  8 + 8 + ((m.cqrySet.take net.batchSize).map ClientQuery.getSize).sum

def ClientResponse.getSize (m : ClientResponse) : ℕ := 8 + 8 * m.index.length + 8 * m.clientTs.length

def Checkpoint.getSize (_ : Checkpoint) : ℕ := 8 + 8 + 8

def SyncMsg.getSize (m : SyncMsg) : ℕ :=
  8 + 8 + m.hash.length + 8 + 8 + 8 + 4 + m.highQC.getSize + 64 + 1 + (if m.sigEmpty then 0 else 64) + 1

def GenericMsg.getSize (m : GenericMsg) : ℕ :=
  8 + 8 + m.hash.length + 8 + 8 + 8 + 4 + 64 + m.highQC.getSize

def ProposalMsg.getSize (m : ProposalMsg) : ℕ :=
  8 + 8 * m.index.length + 8 + m.hash.length +
    ((m.requestMsg.take net.batchSize).map ClientQuery.getSize).sum + 4

def AskMsg.getSize (m : AskMsg) : ℕ := 8 + m.hash.length + 8 + 8

def Body.getSize : Body → ℕ
  | initDone => 0
  | ready => 0
  | keyEx m => m.getSize
  | clBatch m => m.getSize net
  | clRsp m => m.getSize
  | chkpt m => m.getSize
  | sync m => m.getSize
  | generic m => m.getSize
  | proposal m => m.getSize net
  | ask m => m.getSize
  | askResponse m => m.getSize net

def Message.getSize (m : Message) : ℕ := m.base.mgetSize + m.body.getSize net

end Size

section CopyToBuf

variable (net : NetConfig)

-- The loops that copy one character at a time: over a stored size, and over the length of the string.
def putPrefix (size : UInt64) (s : Bytes) : Mem Unit := do
  ensure (size.toNat ≤ s.length)
  copyBuf (s.take size.toNat)

-- A loop whose counter is a 32-bit `uint` never reaches a bound of `2 ^ 32` or more.
def putShort (s : Bytes) : Mem Unit := do
  ensure (s.length < 2 ^ 32)
  copyBuf s

def putSizedShort (s : Bytes) : Mem Unit := do
  put64 (UInt64.ofNat s.length)
  putShort s

def putShares (m : ShareMap) : Mem Unit := do
  put64 (UInt64.ofNat m.entries.length)
  copyEach (fun e => do
    put64 e.1
    copyBuf e.2.toList) m.entries

def QuorumCertificate.copyToBuf (qc : QuorumCertificate) : Mem Unit := do
  put32 qc.type.code
  putBool qc.genesis
  put64 qc.viewNumber
  put64 qc.parentView
  putSizedShort qc.batchHash
  putSizedShort qc.parentHash
  putBool qc.grandEmpty
  putUnless qc.grandEmpty do
    put64 qc.grandView
    putSizedShort qc.grandHash
  putUnless qc.genesis (putShares qc.signatureShareMap)

-- `now` is the clock reading that `mcopy_to_buf` stores as the network time.
def Base.putFields (now : UInt64) (b : Base) : Mem Unit := do
  put64 b.txnId
  put64 b.mqTime
  put64 b.latency.workQueueTime
  put64 b.latency.msgQueueTime
  put64 b.latency.ccBlockTime
  put64 b.latency.ccTime
  put64 b.latency.processTime
  put64 now
  put64 b.latency.otherTime
  put64 b.sigSize
  put64 b.keySize
  put64 b.instanceId
  putPrefix b.sigSize b.signature
  putPrefix b.keySize b.pubKey

def Base.mcopyToBuf (t : RemReqType) (now : UInt64) (b : Base) : Mem Unit := do
  put32 t.code
  b.putFields now

def ClientQuery.copyToBuf (q : ClientQuery) : Mem Unit :=
  sized (do
    put32 q.rtype.rtype.code
    put64 q.clientStartts
    put64 (UInt64.ofNat q.requests.length)
    copyEach (fun req => do
      ensure (req.key.toNat < net.synthTableSize)
      put64 req.key
      put64 req.value) q.requests
    put64 q.returnNode) fun _ => q.getSize

-- Reading an `Array` past its count fails.
def putFirst {α : Type} (k : ℕ) (f : α → Mem Unit) (xs : List α) : Mem Unit := do
  ensure (k ≤ xs.length)
  copyEach f (xs.take k)

def putQuery (q : ClientQuery) : Mem Unit := within (q.copyToBuf net) fun _ => q.getSize

def KeyExchange.copyToBuf (m : KeyExchange) : Mem Unit := do
  put64 m.pkeySz
  putPrefix m.pkeySz m.pkey
  put64 m.returnNode
  putUnless (m.pkey ≠ secp) (copyBuf m.publicShare.toList)

def ClientQueryBatch.copyToBuf (m : ClientQueryBatch) : Mem Unit := do
  put64 m.returnNode
  put64 m.batchSize
  putFirst net.batchSize (putQuery net) m.cqrySet

def ClientResponse.copyToBuf (m : ClientResponse) : Mem Unit := do
  putFirst net.batchSize put64 m.index
  putFirst net.batchSize put64 m.clientTs
  put64 m.view

def Checkpoint.copyToBuf (m : Checkpoint) : Mem Unit := do
  put64 m.index
  put64 m.returnNode
  put64 m.endIndex

def SyncMsg.copyToBuf (m : SyncMsg) : Mem Unit := do
  put64 m.view
  put64 m.index
  put64 m.hashSize
  copyBuf m.hash
  put64 m.returnNode
  put64 m.endIndex
  put32 m.batchSize
  m.highQC.copyToBuf
  copyBuf m.psigShare.toList
  putBool m.sigEmpty
  putUnless m.sigEmpty (copyBuf m.sigShare.toList)
  putBool m.nonVote

def GenericMsg.copyToBuf (m : GenericMsg) : Mem Unit := do
  put64 m.view
  put64 m.index
  put64 m.hashSize
  copyBuf m.hash
  put64 m.returnNode
  put64 m.endIndex
  put32 m.batchSize
  m.highQC.copyToBuf
  copyBuf m.psigShare.toList

def ProposalMsg.copyToBuf (m : ProposalMsg) : Mem Unit := do
  put64 m.view
  putFirst net.batchSize (fun e => do
    put64 e.1
    putQuery net e.2) (m.index.zip m.requestMsg)
  put64 m.hashSize
  putShort m.hash
  put32 m.batchSize

def AskMsg.copyToBuf (m : AskMsg) : Mem Unit := do
  put64 m.view
  put64 m.hashSize
  copyBuf m.hash
  put64 m.returnNode

def Body.copyToBuf : Body → Mem Unit
  | initDone => pure ()
  | ready => pure ()
  | keyEx m => m.copyToBuf
  | clBatch m => m.copyToBuf net
  | clRsp m => m.copyToBuf net
  | chkpt m => m.copyToBuf
  | sync m => m.copyToBuf
  | generic m => m.copyToBuf
  | proposal m => m.copyToBuf net
  | ask m => m.copyToBuf
  | askResponse m => m.copyToBuf net

def Body.checksSize : Body → Bool
  | initDone => false
  | ready => false
  | keyEx _ => false
  | _ => true

-- The body starts at `mget_size()`; all types but three compare the final offset with `get_size()`.
def Message.copyToBuf (now : UInt64) (m : Message) : Mem Unit :=
  let copy : Mem Unit := do
    within (m.base.mcopyToBuf m.rtype now) fun _ => m.base.mgetSize
    m.body.copyToBuf net
  if m.body.checksSize then sized copy fun _ => m.getSize net else copy

end CopyToBuf

section CopyFromBuf

-- What a receiving node brings to `create_messages`: its identity, the adjustment of the latency statistics by
-- its clock, and the contents of the fresh memory behind the fields no constructor sets.
structure Receiver where
  nodeId : UInt32
  settle : UInt64 → Latency → Latency
  sigShare : Share
  publicShare : PublicShare

variable (net : NetConfig) (recv : Receiver)

def getStr (size : UInt64) : Mem Bytes := copyVal size.toNat

def getShort (size : UInt64) : Mem Bytes := do
  ensure (size.toNat < 2 ^ 32)
  copyVal size.toNat

def getSizedShort : Mem Bytes := do
  let size ← get64
  getShort size

def getBlob (k : ℕ) : Mem (List.Vector UInt8 k) := do
  let bs ← copyVal k
  if h : bs.length = k then pure ⟨bs, h⟩ else failure

def getType : Mem RemReqType := do
  let c ← get32
  match RemReqType.ofCode c with
  | some t => pure t
  | none => failure

def getQCType : Mem QCType := do
  let c ← get32
  match QCType.ofCode c with
  | some t => pure t
  | none => failure

def getShares : Mem ShareMap := do
  let size ← get64
  let es ← readEach (do
    let node ← get64
    let share ← getBlob 64
    pure (node, share)) size.toNat
  pure (ShareMap.ofEntries es)

def QuorumCertificate.copyFromBuf : Mem QuorumCertificate := do
  let type ← getQCType
  let genesis ← getBool
  let viewNumber ← get64
  let parentView ← get64
  let batchHash ← getSizedShort
  let parentHash ← getSizedShort
  let grandEmpty ← getBool
  let grand ← getUnless grandEmpty (0, []) do
    let grandView ← get64
    let grandHash ← getSizedShort
    pure (grandView, grandHash)
  let shares ← getUnless genesis .empty getShares
  pure {
    type := type
    genesis := genesis
    viewNumber := viewNumber
    parentView := parentView
    batchHash := batchHash
    parentHash := parentHash
    grandEmpty := grandEmpty
    grandView := grand.1
    grandHash := grand.2
    signatureShareMap := shares }

def Base.getFields : Mem Base := do
  let txnId ← get64
  let mqTime ← get64
  let workQueueTime ← get64
  let msgQueueTime ← get64
  let ccBlockTime ← get64
  let ccTime ← get64
  let processTime ← get64
  let networkTime ← get64
  let otherTime ← get64
  let sigSize ← get64
  let keySize ← get64
  let instanceId ← get64
  let signature ← getStr sigSize
  let pubKey ← getStr keySize
  pure {
    txnId := txnId
    returnNodeId := recv.nodeId.toUInt64
    mqTime := mqTime
    sigSize := sigSize
    keySize := keySize
    signature := signature
    pubKey := pubKey
    instanceId := instanceId
    latency := recv.settle txnId
      ⟨workQueueTime, msgQueueTime, ccBlockTime, ccTime, processTime, networkTime, otherTime⟩ }

def Base.mcopyFromBuf : Mem Base := do
  let _ ← getType
  Base.getFields recv

def getQueryType : Mem QueryType := do
  let t ← getType
  match t with
  | .CL_QRY => pure .CL_QRY
  | .RTXN => pure .RTXN
  | .RTXN_CONT => pure .RTXN_CONT
  | _ => failure

def ClientQuery.copyFromBuf : Mem ClientQuery :=
  sized (do
    let rtype ← getQueryType
    let clientStartts ← get64
    let size ← get64
    let requests ← readEach (do
      let key ← get64
      let value ← get64
      ensure (key.toNat < net.synthTableSize)
      pure (⟨key, value⟩ : Request)) size.toNat
    let returnNode ← get64
    pure {
      rtype := rtype
      clientStartts := clientStartts
      requests := requests
      returnNode := returnNode }) ClientQuery.getSize

-- A nested message that is not a client query would be cast to one all the same.
def getQuery : Mem ClientQuery := within (ClientQuery.copyFromBuf net) ClientQuery.getSize

def KeyExchange.copyFromBuf : Mem KeyExchange := do
  let pkeySz ← get64
  let pkey ← getStr pkeySz
  let returnNode ← get64
  let publicShare ← getUnless (pkey ≠ secp) recv.publicShare (getBlob 64)
  pure {
    pkey := pkey
    pkeySz := pkeySz
    returnNode := returnNode
    publicShare := publicShare }

def ClientQueryBatch.copyFromBuf : Mem ClientQueryBatch := do
  let returnNode ← get64
  let batchSize ← get64
  let cqrySet ← readEach (getQuery net) net.batchSize
  pure {
    returnNode := returnNode
    batchSize := batchSize
    cqrySet := cqrySet }

def ClientResponse.copyFromBuf : Mem ClientResponse := do
  let index ← readEach get64 net.batchSize
  let clientTs ← readEach get64 net.batchSize
  let view ← get64
  pure {
    index := index
    clientTs := clientTs
    view := view }

def Checkpoint.copyFromBuf : Mem Checkpoint := do
  let index ← get64
  let returnNode ← get64
  let endIndex ← get64
  pure {
    index := index
    returnNode := returnNode
    endIndex := endIndex }

def SyncMsg.copyFromBuf : Mem SyncMsg := do
  let view ← get64
  let index ← get64
  let hashSize ← get64
  let hash ← getStr hashSize
  let returnNode ← get64
  let endIndex ← get64
  let batchSize ← get32
  let highQC ← QuorumCertificate.copyFromBuf
  let psigShare ← getBlob 64
  let sigEmpty ← getBool
  let sigShare ← getUnless sigEmpty recv.sigShare (getBlob 64)
  let nonVote ← getBool
  pure {
    view := view
    index := index
    hash := hash
    hashSize := hashSize
    returnNode := returnNode
    endIndex := endIndex
    batchSize := batchSize
    highQC := highQC
    psigShare := psigShare
    sigEmpty := sigEmpty
    sigShare := sigShare
    nonVote := nonVote }

def GenericMsg.copyFromBuf : Mem GenericMsg := do
  let view ← get64
  let index ← get64
  let hashSize ← get64
  let hash ← getStr hashSize
  let returnNode ← get64
  let endIndex ← get64
  let batchSize ← get32
  let highQC ← QuorumCertificate.copyFromBuf
  let psigShare ← getBlob 64
  pure {
    view := view
    index := index
    hash := hash
    hashSize := hashSize
    returnNode := returnNode
    endIndex := endIndex
    batchSize := batchSize
    highQC := highQC
    psigShare := psigShare }

def ProposalMsg.copyFromBuf : Mem ProposalMsg := do
  let view ← get64
  let entries ← readEach (do
    let elem ← get64
    let q ← getQuery net
    pure (elem, q)) net.batchSize
  let hashSize ← get64
  let hash ← getStr hashSize
  let batchSize ← get32
  pure {
    view := view
    index := entries.map Prod.fst
    requestMsg := entries.map Prod.snd
    hashSize := hashSize
    hash := hash
    batchSize := batchSize }

def AskMsg.copyFromBuf : Mem AskMsg := do
  let view ← get64
  let hashSize ← get64
  let hash ← getStr hashSize
  let returnNode ← get64
  pure {
    view := view
    hash := hash
    hashSize := hashSize
    returnNode := returnNode }

def Body.copyFromBuf : RemReqType → Mem Body
  | .INIT_DONE => pure .initDone
  | .READY => pure .ready
  | .KEYEX => do
    let m ← KeyExchange.copyFromBuf recv
    pure (.keyEx m)
  | .CL_BATCH => do
    let m ← ClientQueryBatch.copyFromBuf net
    pure (.clBatch m)
  | .CL_RSP => do
    let m ← ClientResponse.copyFromBuf net
    pure (.clRsp m)
  | .PBFT_CHKPT_MSG => do
    let m ← Checkpoint.copyFromBuf
    pure (.chkpt m)
  | .SYNC_MSG => do
    let m ← SyncMsg.copyFromBuf recv
    pure (.sync m)
  | .GENERIC_MSG => do
    let m ← GenericMsg.copyFromBuf
    pure (.generic m)
  | .PROPOSAL_MSG => do
    let m ← ProposalMsg.copyFromBuf net
    pure (.proposal m)
  | .ASK_MSG => do
    let m ← AskMsg.copyFromBuf
    pure (.ask m)
  | .ASK_RESPONSE_MSG => do
    let m ← ProposalMsg.copyFromBuf net
    pure (.askResponse m)
  | _ => failure

def Message.copyFromBuf (t : RemReqType) : Mem Message := do
  let base ← within (Base.mcopyFromBuf recv) Base.mgetSize
  let body ← Body.copyFromBuf net recv t
  pure ⟨base, body⟩

-- The size assertion is the last statement of `copy_from_buf`, for the types that have one.
def createMessage : Mem Message := do
  let t ← peek getType
  if (t = .INIT_DONE ∨ t = .READY ∨ t = .KEYEX) then Message.copyFromBuf net recv t
  else sized (Message.copyFromBuf net recv t) (Message.getSize net)

def Message.from (m : Message) (node : UInt64) : Message := { m with base.returnNodeId := node }

def createMessagesLoop (returnId : UInt32) (txnCnt : UInt32) : Mem (List Message) :=
  readEach (do
    let m ← within (createMessage net recv) (Message.getSize net)
    pure (m.from returnId.toUInt64)) txnCnt.toNat

def createMessagesFrom : Mem (List Message) := do
  let destId ← get32
  let returnId ← get32
  let txnCnt ← get32
  ensure (destId = recv.nodeId)
  ensure (returnId ≠ recv.nodeId)
  ensure (returnId.toNat < net.totalNodeCnt)
  createMessagesLoop net recv returnId txnCnt

def createMessages (buf : List UInt8) : Option (List Message) :=
  (createMessagesFrom net recv ⟨buf, 0⟩).map Prod.fst

end CopyFromBuf

end Wire

end SpotLess
