import SpotLess.Wire

/-! What `copy_to_buf` writes, `copy_from_buf` reads back, and both move the offset by `get_size`; from there to
whole buffers of messages. -/

namespace SpotLess.Wire

open Lib

section Parts

lemma toNat_ofNat_lt {k : ℕ} (h : k < 2 ^ 64) : (UInt64.ofNat k).toNat = k := by
  rw [UInt64.toNat_ofNat']
  exact Nat.mod_eq_of_lt h

lemma roundTrip_header {size : UInt64} {s : Bytes} (h : size.toNat = s.length) :
    RoundTrip (putPrefix size s) (getStr size) s s.length := by
  have hcopy : RoundTrip (copyBuf (s.take size.toNat)) (getStr size) s s.length := by
    rw [h, List.take_length, getStr, h]
    exact .copy rfl
  exact hcopy.ensure_left h.le

lemma roundTrip_string {size : UInt64} {s : Bytes} (h : size.toNat = s.length) :
    RoundTrip (copyBuf s) (getStr size) s s.length := by
  rw [getStr, h]
  exact .copy rfl

lemma roundTrip_sizedShort {s : Bytes} (h : s.length < 2 ^ 32) :
    RoundTrip (putSizedShort s) getSizedShort s (8 + s.length) := by
  have hsize : (UInt64.ofNat s.length).toNat = s.length := toNat_ofNat_lt (h.trans (by decide))
  have hshort : RoundTrip (putShort s) (getShort (UInt64.ofNat s.length)) s s.length := by
    rw [getShort, hsize]
    exact ((RoundTrip.copy rfl).ensure_left h).ensure_right h
  exact (RoundTrip.word64 _).bind hshort

lemma roundTrip_blob {k : ℕ} (v : List.Vector UInt8 k) : RoundTrip (copyBuf v.toList) (getBlob k) v k := by
  refine ⟨v.toList, .copyBuf _, ?_, v.toList_length⟩
  have hread := (Reads.copyVal v.toList_length).bind (y := v) (c := [])
    (f := fun bs => if h : bs.length = k then (pure ⟨bs, h⟩ : Mem (List.Vector UInt8 k)) else failure)
    (by
      rw [dif_pos v.toList_length]
      exact .pure _)
  rwa [List.append_nil] at hread

lemma reads_type (t : RemReqType) : Reads getType (leBytes 4 t.code.toNat) t := by
  rw [← List.append_nil (leBytes 4 _)]
  refine (Reads.get32 t.code).bind ?_
  rw [RemReqType.ofCode_code]
  exact .pure _

lemma roundTrip_qcType (t : QCType) : RoundTrip (put32 t.code) getQCType t 4 := by
  refine ⟨_, .put32 _, ?_, leBytes_length 4 _⟩
  rw [← List.append_nil (leBytes 4 _)]
  refine (Reads.get32 t.code).bind ?_
  rw [QCType.ofCode_code]
  exact .pure _

lemma roundTrip_queryType (t : QueryType) : RoundTrip (put32 t.rtype.code) getQueryType t 4 := by
  refine ⟨_, .put32 _, ?_, leBytes_length 4 _⟩
  rw [← List.append_nil (leBytes 4 _)]
  refine (reads_type t.rtype).bind ?_
  cases t <;> exact .pure _

lemma roundTrip_first {α β : Type} {k : ℕ} {f : α → Mem Unit} {r : Mem β} {value : α → β} {size : α → ℕ}
    {xs : List α} (hk : xs.length = k) (h : ∀ x ∈ xs, RoundTrip (f x) r (value x) (size x)) :
    RoundTrip (putFirst k f xs) (readEach r k) (xs.map value) (xs.map size).sum := by
  have heach := RoundTrip.each h
  rw [putFirst, ← hk, List.take_length]
  exact heach.ensure_left le_rfl

end Parts

section Certificates

lemma ShareMap.insertEntry_last {node : UInt64} {share : Share} {es : List (UInt64 × Share)}
    (h : ∀ e ∈ es, e.1 < node) : insertEntry node share es = es ++ [(node, share)] := by
  induction es with
  | nil => rfl
  | cons e es ih =>
    have he : e.1 < node := h e List.mem_cons_self
    rw [insertEntry, if_neg (UInt64.lt_asymm he), if_neg (UInt64.ne_of_lt he).symm,
      ih fun x hx => h x (List.mem_cons_of_mem e hx), List.cons_append]

lemma ShareMap.ofEntries_entries (m : ShareMap) : ofEntries m.entries = m := by
  -- Read in the order of the iterators, every entry goes to the end of the map built so far.
  have hfold : ∀ (es : List (UInt64 × Share)) (acc : ShareMap), (acc.entries ++ es).Pairwise (·.1 < ·.1) →
      (es.foldl (fun m e => m.insert e.1 e.2) acc).entries = acc.entries ++ es := by
    intro es
    induction es with
    | nil =>
      intro acc _
      simp
    | cons e es ih =>
      intro acc hsorted
      have hlt : ∀ x ∈ acc.entries, x.1 < e.1 := fun x hx =>
        (List.pairwise_append.mp hsorted).2.2 x hx e List.mem_cons_self
      have hins : (acc.insert e.1 e.2).entries = acc.entries ++ [e] := insertEntry_last hlt
      rw [List.foldl_cons, ih, hins, List.append_assoc, List.singleton_append]
      rw [hins, List.append_assoc, List.singleton_append]
      exact hsorted
  have h := hfold m.entries empty m.sorted
  cases m with
  | mk entries sorted =>
    rw [ofEntries]
    generalize (entries.foldl (fun m e => m.insert e.1 e.2) empty : ShareMap) = built at h ⊢
    cases built
    simpa [empty] using h

structure QuorumCertificate.WellFormed (qc : QuorumCertificate) : Prop where
  shares : qc.signatureShareMap.entries.length < 2 ^ 64
  genesis : qc.genesis = true → qc.signatureShareMap = .empty
  batchHash : qc.batchHash.length < 2 ^ 32
  parentHash : qc.parentHash.length < 2 ^ 32
  grandHash : qc.grandEmpty = false → qc.grandHash.length < 2 ^ 32

def QuorumCertificate.received (qc : QuorumCertificate) : QuorumCertificate :=
  { qc with
    grandView := if qc.grandEmpty then 0 else qc.grandView
    grandHash := if qc.grandEmpty then [] else qc.grandHash }

lemma roundTrip_shares {m : ShareMap} (h : m.entries.length < 2 ^ 64) :
    RoundTrip (putShares m) getShares m (8 + m.entries.length * 8 + m.entries.length * 64) := by
  have heach : RoundTrip
      (copyEach (fun e => do
        put64 e.1
        copyBuf e.2.toList) m.entries)
      (readEach (do
        let node ← get64
        let share ← getBlob 64
        pure (node, share)) m.entries.length)
      (m.entries.map id) (m.entries.map fun _ => 8 + 64).sum :=
    .each fun e _ => (RoundTrip.word64 e.1).bind ((roundTrip_blob e.2).last fun share => (e.1, share))
  rw [← toNat_ofNat_lt h] at heach
  have hshares := heach.last ShareMap.ofEntries
  rw [List.map_id, ShareMap.ofEntries_entries] at hshares
  refine ((RoundTrip.word64 (UInt64.ofNat m.entries.length)).bind hshares).congr rfl ?_
  rw [List.map_const', List.sum_replicate, smul_eq_mul]
  omega

lemma QuorumCertificate.roundTrip {qc : QuorumCertificate} (h : qc.WellFormed) :
    RoundTrip qc.copyToBuf copyFromBuf qc.received qc.getSize := by
  refine RoundTrip.congr (.bind (roundTrip_qcType _) <| .bind (.flag _) <| .bind (.word64 _) <|
    .bind (.word64 _) <| .bind (roundTrip_sizedShort h.batchHash) <|
    .bind (roundTrip_sizedShort h.parentHash) <| .bind (.flag _) <|
    .bind (.optional fun hg => .bind (.word64 _) <|
      .last _ (roundTrip_sizedShort (h.grandHash (by simpa using hg)))) <|
    .last _ (.optional fun _ => roundTrip_shares h.shares)) ?_ ?_
  · cases hg : qc.genesis <;> cases he : qc.grandEmpty <;> simp [received, hg, he]
    all_goals exact (h.genesis hg).symm
  · rw [getSize]
    split_ifs <;> omega

end Certificates

section Layouts

variable {net : NetConfig} (recv : Receiver)

structure Base.WellFormed (b : Base) : Prop where
  sigSize : b.sigSize.toNat = b.signature.length
  keySize : b.keySize.toNat = b.pubKey.length

-- The statistics as they travel, with the clock reading of the sender.
def Base.sentLatency (b : Base) (now : UInt64) : Latency := { b.latency with networkTime := now }

def Base.received (b : Base) (now : UInt64) : Base :=
  { b with
    returnNodeId := recv.nodeId.toUInt64
    latency := recv.settle b.txnId (b.sentLatency now) }

lemma Base.roundTrip_fields {b : Base} (now : UInt64) (h : b.WellFormed) :
    RoundTrip (b.putFields now) (getFields recv) (b.received recv now)
      (8 * 12 + b.signature.length + b.pubKey.length) := by
  refine RoundTrip.congr (.bind (.word64 _) <| .bind (.word64 _) <| .bind (.word64 _) <|
    .bind (.word64 _) <| .bind (.word64 _) <| .bind (.word64 _) <| .bind (.word64 _) <|
    .bind (.word64 _) <| .bind (.word64 _) <| .bind (.word64 _) <| .bind (.word64 _) <|
    .bind (.word64 _) <| .bind (roundTrip_header h.sigSize) <| .last _ (roundTrip_header h.keySize)) rfl ?_
  omega

-- The type stands in front, where `create_message` looks for it.
lemma Base.roundTrip {b : Base} (t : RemReqType) (now : UInt64) (h : b.WellFormed) :
    ∃ rest, Writes (b.mcopyToBuf t now) (leBytes 4 t.code.toNat ++ rest) ∧
      Reads (mcopyFromBuf recv) (leBytes 4 t.code.toNat ++ rest) (b.received recv now) ∧
      (leBytes 4 t.code.toNat ++ rest).length = b.mgetSize := by
  obtain ⟨rest, hw, hr, hlen⟩ := roundTrip_fields recv now h
  refine ⟨rest, (Writes.put32 _).bind hw, (reads_type t).bind hr, ?_⟩
  rw [List.length_append, leBytes_length, hlen, mgetSize]
  omega

structure ClientQuery.WellFormed (net : NetConfig) (q : ClientQuery) : Prop where
  keys : ∀ req ∈ q.requests, req.key.toNat < net.synthTableSize
  count : q.requests.length < 2 ^ 64

lemma ClientQuery.roundTrip {q : ClientQuery} (h : q.WellFormed net) :
    RoundTrip (q.copyToBuf net) (copyFromBuf net) q q.getSize := by
  have heach : RoundTrip
      (copyEach (fun req => do
        ensure (req.key.toNat < net.synthTableSize)
        put64 req.key
        put64 req.value) q.requests)
      (readEach (do
        let key ← get64
        let value ← get64
        ensure (key.toNat < net.synthTableSize)
        pure (⟨key, value⟩ : Request)) q.requests.length)
      (q.requests.map id) (q.requests.map fun _ => 8 + 8).sum := by
    refine .each fun req hreq => ?_
    have hkey := h.keys req hreq
    have hvalue : RoundTrip (put64 req.value) (do
        let value ← get64
        ensure (req.key.toNat < net.synthTableSize)
        pure (⟨req.key, value⟩ : Request)) req 8 := by
      have hlast := (RoundTrip.word64 req.value).last fun value => (⟨req.key, value⟩ : Request)
      simpa [ensure, hkey] using hlast
    exact ((RoundTrip.word64 req.key).bind hvalue).ensure_left hkey
  rw [← toNat_ofNat_lt h.count, List.map_id] at heach
  refine RoundTrip.sized (.congr (.bind (roundTrip_queryType _) <| .bind (.word64 _) <|
    .bind (.word64 _) <| .bind heach <| .last _ (.word64 _)) rfl ?_) rfl rfl
  rw [getSize, List.map_const', List.sum_replicate, smul_eq_mul]
  omega

lemma roundTrip_query {q : ClientQuery} (h : q.WellFormed net) :
    RoundTrip (putQuery net q) (getQuery net) q q.getSize := (ClientQuery.roundTrip h).within rfl rfl

structure KeyExchange.WellFormed (m : KeyExchange) : Prop where
  pkeySz : m.pkeySz.toNat = m.pkey.length

def KeyExchange.received (m : KeyExchange) : KeyExchange :=
  { m with publicShare := if m.pkey ≠ secp then recv.publicShare else m.publicShare }

lemma KeyExchange.roundTrip {m : KeyExchange} (h : m.WellFormed) :
    RoundTrip m.copyToBuf (copyFromBuf recv) (m.received recv) m.getSize := by
  refine RoundTrip.congr (.bind (.word64 _) <| .bind (roundTrip_header h.pkeySz) <| .bind (.word64 _) <|
    .last _ (.optional fun _ => roundTrip_blob m.publicShare)) rfl ?_
  rw [getSize]
  omega

structure ClientQueryBatch.WellFormed (net : NetConfig) (m : ClientQueryBatch) : Prop where
  count : m.cqrySet.length = net.batchSize
  queries : ∀ q ∈ m.cqrySet, q.WellFormed net

lemma ClientQueryBatch.roundTrip {m : ClientQueryBatch} (h : m.WellFormed net) :
    RoundTrip (m.copyToBuf net) (copyFromBuf net) m (m.getSize net) := by
  have hset : RoundTrip _ _ _ (m.cqrySet.map ClientQuery.getSize).sum :=
    roundTrip_first h.count fun q hq => roundTrip_query (h.queries q hq)
  rw [List.map_id'] at hset
  refine RoundTrip.congr (.bind (.word64 _) <| .bind (.word64 _) <| .last _ hset) rfl ?_
  rw [getSize, List.take_of_length_le h.count.le]
  omega

structure ClientResponse.WellFormed (net : NetConfig) (m : ClientResponse) : Prop where
  index : m.index.length = net.batchSize
  clientTs : m.clientTs.length = net.batchSize

lemma roundTrip_words {k : ℕ} {xs : List UInt64} (h : xs.length = k) :
    RoundTrip (putFirst k put64 xs) (readEach get64 k) xs (8 * k) := by
  have hwords := roundTrip_first h fun x _ => RoundTrip.word64 x
  rw [List.map_id'] at hwords
  refine hwords.congr rfl ?_
  rw [List.map_const', List.sum_replicate, smul_eq_mul, h, Nat.mul_comm]

lemma ClientResponse.roundTrip {m : ClientResponse} (h : m.WellFormed net) :
    RoundTrip (m.copyToBuf net) (copyFromBuf net) m m.getSize := by
  refine RoundTrip.congr (.bind (roundTrip_words h.index) <| .bind (roundTrip_words h.clientTs) <|
    .last _ (.word64 _)) rfl ?_
  rw [getSize, h.index, h.clientTs]
  omega

lemma Checkpoint.roundTrip (m : Checkpoint) : RoundTrip m.copyToBuf copyFromBuf m m.getSize :=
  RoundTrip.congr (.bind (.word64 _) <| .bind (.word64 _) <| .last _ (.word64 _)) rfl rfl

structure SyncMsg.WellFormed (m : SyncMsg) : Prop where
  hashSize : m.hashSize.toNat = m.hash.length
  highQC : m.highQC.WellFormed

def SyncMsg.received (m : SyncMsg) : SyncMsg :=
  { m with
    highQC := m.highQC.received
    sigShare := if m.sigEmpty then recv.sigShare else m.sigShare }

lemma SyncMsg.roundTrip {m : SyncMsg} (h : m.WellFormed) :
    RoundTrip m.copyToBuf (copyFromBuf recv) (m.received recv) m.getSize := by
  refine RoundTrip.congr (.bind (.word64 _) <| .bind (.word64 _) <| .bind (.word64 _) <|
    .bind (roundTrip_string h.hashSize) <| .bind (.word64 _) <| .bind (.word64 _) <|
    .bind (.word32 _) <| .bind (QuorumCertificate.roundTrip h.highQC) <| .bind (roundTrip_blob _) <|
    .bind (.flag _) <| .bind (.optional fun _ => roundTrip_blob m.sigShare) <| .last _ (.flag _)) rfl ?_
  rw [getSize]
  omega

structure GenericMsg.WellFormed (m : GenericMsg) : Prop where
  hashSize : m.hashSize.toNat = m.hash.length
  highQC : m.highQC.WellFormed

def GenericMsg.received (m : GenericMsg) : GenericMsg := { m with highQC := m.highQC.received }

lemma GenericMsg.roundTrip {m : GenericMsg} (h : m.WellFormed) :
    RoundTrip m.copyToBuf copyFromBuf m.received m.getSize := by
  refine RoundTrip.congr (.bind (.word64 _) <| .bind (.word64 _) <| .bind (.word64 _) <|
    .bind (roundTrip_string h.hashSize) <| .bind (.word64 _) <| .bind (.word64 _) <|
    .bind (.word32 _) <| .bind (QuorumCertificate.roundTrip h.highQC) <| .last _ (roundTrip_blob _)) rfl ?_
  rw [getSize]
  omega

structure ProposalMsg.WellFormed (net : NetConfig) (m : ProposalMsg) : Prop where
  hashSize : m.hashSize.toNat = m.hash.length
  hash : m.hash.length < 2 ^ 32
  index : m.index.length = net.batchSize
  requestMsg : m.requestMsg.length = net.batchSize
  queries : ∀ q ∈ m.requestMsg, q.WellFormed net

lemma ProposalMsg.roundTrip {m : ProposalMsg} (h : m.WellFormed net) :
    RoundTrip (m.copyToBuf net) (copyFromBuf net) m (m.getSize net) := by
  have hlen : (m.index.zip m.requestMsg).length = net.batchSize := by
    rw [List.length_zip, h.index, h.requestMsg, Nat.min_self]
  have hentries : RoundTrip
      (putFirst net.batchSize (fun e => do
        put64 e.1
        putQuery net e.2) (m.index.zip m.requestMsg))
      (readEach (do
        let elem ← get64
        let q ← getQuery net
        pure (elem, q)) net.batchSize)
      ((m.index.zip m.requestMsg).map id) ((m.index.zip m.requestMsg).map fun e => 8 + e.2.getSize).sum :=
    roundTrip_first hlen fun e he => (RoundTrip.word64 e.1).bind
      ((roundTrip_query (h.queries e.2 (List.of_mem_zip he).2)).last (Prod.mk e.1))
  rw [List.map_id] at hentries
  have hhash : RoundTrip (putShort m.hash) (getStr m.hashSize) m.hash m.hash.length :=
    (roundTrip_string h.hashSize).ensure_left h.hash
  refine RoundTrip.congr (.bind (.word64 _) <| .bind hentries <| .bind (.word64 _) <| .bind hhash <|
    .last _ (.word32 _)) ?_ ?_
  · rw [List.map_fst_zip (h.index.trans h.requestMsg.symm).le, List.map_snd_zip (h.requestMsg.trans h.index.symm).le]
  · have hreq : (m.index.zip m.requestMsg).map (fun e => e.2.getSize) = m.requestMsg.map ClientQuery.getSize := by
      conv_rhs => rw [← List.map_snd_zip (h.requestMsg.trans h.index.symm).le]
      rw [List.map_map]
      rfl
    rw [List.sum_map_add, List.map_const', List.sum_replicate, hlen, smul_eq_mul, hreq, getSize, h.index,
      List.take_of_length_le h.requestMsg.le]
    omega

structure AskMsg.WellFormed (m : AskMsg) : Prop where
  hashSize : m.hashSize.toNat = m.hash.length

lemma AskMsg.roundTrip {m : AskMsg} (h : m.WellFormed) : RoundTrip m.copyToBuf copyFromBuf m m.getSize := by
  refine RoundTrip.congr (.bind (.word64 _) <| .bind (.word64 _) <|
    .bind (roundTrip_string h.hashSize) <| .last _ (.word64 _)) rfl ?_
  rw [getSize]
  omega

end Layouts

section Messages

variable (net : NetConfig) (recv : Receiver)

def Body.WellFormed : Body → Prop
  | initDone => True
  | ready => True
  | keyEx m => m.WellFormed
  | clBatch m => m.WellFormed net
  | clRsp m => m.WellFormed net
  | chkpt _ => True
  | sync m => m.WellFormed
  | generic m => m.WellFormed
  | proposal m => m.WellFormed net
  | ask m => m.WellFormed
  | askResponse m => m.WellFormed net

def Body.received : Body → Body
  | keyEx m => .keyEx (m.received recv)
  | sync m => .sync (m.received recv)
  | generic m => .generic m.received
  | b => b

lemma Body.roundTrip {b : Body} (h : b.WellFormed net) :
    RoundTrip (b.copyToBuf net) (copyFromBuf net recv b.rtype) (b.received recv) (b.getSize net) := by
  cases b with
  | initDone => exact .pure _
  | ready => exact .pure _
  | keyEx m => exact (KeyExchange.roundTrip recv h).last Body.keyEx
  | clBatch m => exact (ClientQueryBatch.roundTrip h).last Body.clBatch
  | clRsp m => exact (ClientResponse.roundTrip h).last Body.clRsp
  | chkpt m => exact m.roundTrip.last Body.chkpt
  | sync m => exact (SyncMsg.roundTrip recv h).last Body.sync
  | generic m => exact (GenericMsg.roundTrip h).last Body.generic
  | proposal m => exact (ProposalMsg.roundTrip h).last Body.proposal
  | ask m => exact (AskMsg.roundTrip h).last Body.ask
  | askResponse m => exact (ProposalMsg.roundTrip h).last Body.askResponse

structure Message.WellFormed (m : Message) : Prop where
  base : m.base.WellFormed
  body : m.body.WellFormed net

def Message.received (now : UInt64) (m : Message) : Message :=
  ⟨m.base.received recv now, m.body.received recv⟩

lemma Base.received_mgetSize (b : Base) (now : UInt64) : (b.received recv now).mgetSize = b.mgetSize := rfl

lemma Body.received_getSize (b : Body) : (b.received recv).getSize net = b.getSize net := by
  cases b with
  | sync m =>
    simp only [received, getSize, SyncMsg.getSize, SyncMsg.received, QuorumCertificate.getSize,
      QuorumCertificate.received]
    split_ifs <;> rfl
  | generic m =>
    simp only [received, getSize, GenericMsg.getSize, GenericMsg.received, QuorumCertificate.getSize,
      QuorumCertificate.received]
    split_ifs <;> rfl
  | _ => rfl

lemma Message.received_getSize (now : UInt64) (m : Message) :
    (m.received recv now).getSize net = m.getSize net := by
  rw [getSize, received, Base.received_mgetSize, Body.received_getSize, getSize]

lemma Message.roundTrip {m : Message} (now : UInt64) (h : m.WellFormed net) :
    RoundTrip (m.copyToBuf net now) (createMessage net recv) (m.received recv now) (m.getSize net) := by
  obtain ⟨rest, hw, hr, hbase⟩ := Base.roundTrip recv m.rtype now h.base
  obtain ⟨bs, hw', hr', hbody⟩ := Body.roundTrip net recv h.body
  have hlen : (leBytes 4 m.rtype.code.toNat ++ (rest ++ bs)).length = m.getSize net := by
    rw [← List.append_assoc, List.length_append, hbase, hbody, getSize]
  have hwrite : Writes (do
      within (m.base.mcopyToBuf m.rtype now) fun _ => m.base.mgetSize
      m.body.copyToBuf net) (leBytes 4 m.rtype.code.toNat ++ (rest ++ bs)) := by
    rw [← List.append_assoc]
    exact (hw.within hbase.symm).bind hw'
  have hread : Reads (copyFromBuf net recv m.rtype) (leBytes 4 m.rtype.code.toNat ++ (rest ++ bs))
      (m.received recv now) := by
    rw [← List.append_assoc]
    exact (Spec.within hr hbase.symm).bind (hr'.map fun body => (⟨m.base.received recv now, body⟩ : Message))
  refine ⟨_, ?_, (reads_type m.rtype).peek ?_, hlen⟩
  · rw [copyToBuf]
    split_ifs
    · exact hwrite.sized hlen.symm
    · exact hwrite
  · split_ifs
    · exact hread
    · exact hread.sized ((m.received_getSize net recv now).trans hlen.symm)

end Messages

section Buffers

variable (net : NetConfig)

-- A buffer as a `MessageThread` fills it: the header, then the messages one behind the other. Every message
-- comes with the reading of the sender's clock.
def writeMessages (dest sender : UInt32) (ms : List (UInt64 × Message)) : Mem Unit := do
  put32 dest
  put32 sender
  put32 (UInt32.ofNat ms.length)
  copyEach (fun m => within (m.2.copyToBuf net m.1) fun _ => m.2.getSize net) ms

def sentSize (ms : List (UInt64 × Message)) : ℕ := 12 + (ms.map fun m => m.2.getSize net).sum

structure QuorumCertificate.Same (qc qc' : QuorumCertificate) : Prop where
  rest : { qc' with grandView := qc.grandView, grandHash := qc.grandHash } = qc
  grand : qc.grandEmpty = false → qc'.grandView = qc.grandView ∧ qc'.grandHash = qc.grandHash

structure KeyExchange.Same (m m' : KeyExchange) : Prop where
  rest : { m' with publicShare := m.publicShare } = m
  share : m.pkey = secp → m'.publicShare = m.publicShare

structure SyncMsg.Same (m m' : SyncMsg) : Prop where
  rest : { m' with highQC := m.highQC, sigShare := m.sigShare } = m
  highQC : m.highQC.Same m'.highQC
  share : m.sigEmpty = false → m'.sigShare = m.sigShare

structure GenericMsg.Same (m m' : GenericMsg) : Prop where
  rest : { m' with highQC := m.highQC } = m
  highQC : m.highQC.Same m'.highQC

def Body.Same : Body → Body → Prop
  | keyEx m, keyEx m' => m.Same m'
  | sync m, sync m' => m.Same m'
  | generic m, generic m' => m.Same m'
  | b, b' => b' = b

structure Message.Delivered (sender : UInt32) (m m' : Message) : Prop where
  base : { m'.base with latency := m.base.latency } = { m.base with returnNodeId := sender.toUInt64 }
  body : m.body.Same m'.body

variable {net} {recv : Receiver}

lemma QuorumCertificate.same_received (qc : QuorumCertificate) : qc.Same qc.received where
  rest := rfl
  grand := fun h => by simp [received, h]

lemma Body.same_received (b : Body) : b.Same (b.received recv) := by
  cases b with
  | keyEx m => exact ⟨rfl, fun h => by simp [KeyExchange.received, h]⟩
  | sync m => exact ⟨rfl, m.highQC.same_received, fun h => by simp [SyncMsg.received, h]⟩
  | generic m => exact ⟨rfl, m.highQC.same_received⟩
  | _ => rfl

lemma Message.delivered (sender : UInt32) (now : UInt64) (m : Message) :
    m.Delivered sender ((m.received recv now).from sender.toUInt64) := ⟨rfl, m.body.same_received⟩

lemma roundTrip_messages {sender : UInt32} {ms : List (UInt64 × Message)} (hcount : ms.length < 2 ^ 32)
    (hwf : ∀ m ∈ ms, m.2.WellFormed net) (hother : sender ≠ recv.nodeId)
    (hnode : sender.toNat < net.totalNodeCnt) :
    RoundTrip (writeMessages net recv.nodeId sender ms) (createMessagesFrom net recv)
      (ms.map fun m => (m.2.received recv m.1).from sender.toUInt64) (sentSize net ms) := by
  have hlen : (UInt32.ofNat ms.length).toNat = ms.length := by
    rw [UInt32.toNat_ofNat']
    exact Nat.mod_eq_of_lt hcount
  have hone : ∀ m ∈ ms, RoundTrip (within (m.2.copyToBuf net m.1) fun _ => m.2.getSize net)
      (do
        let m ← within (createMessage net recv) (Message.getSize net)
        pure (m.from sender.toUInt64))
      ((m.2.received recv m.1).from sender.toUInt64) (m.2.getSize net) := fun m hm =>
    ((m.2.roundTrip net recv m.1 (hwf m hm)).within rfl (m.2.received_getSize net recv m.1)).last
      fun m' => m'.from sender.toUInt64
  have hloop := RoundTrip.each hone
  rw [← hlen] at hloop
  refine RoundTrip.congr (.bind (.word32 _) <| .bind (.word32 _) <| .bind (.word32 _) <|
    .ensure_right rfl <| .ensure_right hother <| .ensure_right hnode <| hloop) rfl ?_
  rw [sentSize]
  omega

theorem messages_round_trip (net : NetConfig) (recv : Receiver) (sender : UInt32)
    (ms : List (UInt64 × Message)) (buf : List UInt8) (hcount : ms.length < 2 ^ 32)
    (hwf : ∀ m ∈ ms, m.2.WellFormed net) (hother : sender ≠ recv.nodeId)
    (hnode : sender.toNat < net.totalNodeCnt) (hroom : sentSize net ms ≤ buf.length) :
    (∃ sent got, writeMessages net recv.nodeId sender ms ⟨buf, 0⟩ = some ((), ⟨sent, sentSize net ms⟩) ∧
      createMessages net recv sent = some got ∧
      List.Forall₂ (fun m m' => m.2.Delivered sender m') ms got) ∧
    ∀ m ∈ ms, ∀ c : Cursor, c.ptr + m.2.getSize net ≤ c.buf.length →
      ∃ sent m', m.2.copyToBuf net m.1 c = some ((), ⟨sent, c.ptr + m.2.getSize net⟩) ∧
        createMessage net recv ⟨sent, c.ptr⟩ = some (m', ⟨sent, c.ptr + m.2.getSize net⟩) ∧
        m'.getSize net = m.2.getSize net := by
  constructor
  · have hrt := roundTrip_messages hcount hwf hother hnode
    obtain ⟨sent, hwrite, -, -, hread⟩ := hrt.run ⟨buf, 0⟩ (by simpa using hroom)
    rw [Nat.zero_add] at hwrite hread
    refine ⟨sent, ms.map fun m => (m.2.received recv m.1).from sender.toUInt64, hwrite, ?_, ?_⟩
    · rw [createMessages, hread]
      rfl
    · rw [List.forall₂_map_right_iff, List.forall₂_same]
      exact fun m _ => m.2.delivered sender m.1
  · intro m hm c hc
    obtain ⟨sent, hwrite, -, -, hread⟩ := (m.2.roundTrip net recv m.1 (hwf m hm)).run c hc
    exact ⟨sent, _, hwrite, hread, m.2.received_getSize net recv m.1⟩

def zeroShare : Share := List.Vector.replicate 64 0

def Receiver.zero : Receiver where
  nodeId := 0
  settle _ lat := lat
  sigShare := zeroShare
  publicShare := zeroShare

def Base.unsigned (txnId : UInt64) : Base where
  txnId := txnId
  returnNodeId := 1
  mqTime := 0
  sigSize := 1
  keySize := 1
  signature := [48]
  pubKey := [48]
  instanceId := 0
  latency := ⟨0, 0, 0, 0, 0, 0, 0⟩

def QuorumCertificate.start : QuorumCertificate where
  type := .PREPARE
  genesis := true
  viewNumber := 0
  parentView := 0
  batchHash := []
  parentHash := []
  grandEmpty := true
  grandView := 0
  grandHash := []
  signatureShareMap := .empty

-- A vote without a share: `sig_empty` is set, and the bytes of `sig_share` mean nothing.
def SyncMsg.shareless (share : Share) : SyncMsg where
  view := 0
  index := 0
  hash := [7, 7]
  hashSize := 2
  returnNode := 1
  endIndex := 99
  batchSize := 100
  highQC := .start
  psigShare := zeroShare
  sigEmpty := true
  sigShare := share
  nonVote := false

lemma start_wellFormed : QuorumCertificate.start.WellFormed :=
  ⟨by decide, fun _ => rfl, by decide, by decide, fun h => nomatch h⟩

lemma shareless_wellFormed (txnId : UInt64) (share : Share) :
    (⟨.unsigned txnId, .sync (.shareless share)⟩ : Message).WellFormed .deployed where
  base := ⟨rfl, rfl⟩
  body := ⟨rfl, start_wellFormed⟩

theorem messages_round_trip_two_votes :
    let vote (share : Share) : UInt64 × Message := (0, ⟨.unsigned 99, .sync (.shareless share)⟩)
    ∃ sent got,
      writeMessages .deployed 0 1 [vote zeroShare, vote zeroShare] ⟨List.replicate 1000 0, 0⟩ =
        some ((), ⟨sent, sentSize .deployed [vote zeroShare, vote zeroShare]⟩) ∧
      createMessages .deployed .zero sent = some got ∧
      List.Forall₂ (fun m m' => m.2.Delivered 1 m') [vote zeroShare, vote zeroShare] got :=
  (messages_round_trip .deployed .zero 1 _ (List.replicate 1000 0) (by decide)
    (by simp [shareless_wellFormed]) (by decide) (by decide) (by decide +kernel)).1

theorem absent_share_not_delivered :
    let share : Share := List.Vector.replicate 64 1
    let vote : Message := ⟨.unsigned 99, .sync (.shareless share)⟩
    vote.WellFormed .deployed ∧ ∃ sent got s,
      writeMessages .deployed 0 1 [(0, vote)] ⟨List.replicate 1000 0, 0⟩ =
        some ((), ⟨sent, sentSize .deployed [(0, vote)]⟩) ∧
      createMessages .deployed .zero sent = some [got] ∧ got.body = .sync s ∧ s.sigEmpty = true ∧
      s.sigShare ≠ share := by
  intro share vote
  have hwf : vote.WellFormed .deployed := shareless_wellFormed 99 share
  have hrt : RoundTrip (writeMessages .deployed Receiver.zero.nodeId 1 [(0, vote)]) _ _ _ :=
    roundTrip_messages (by decide) (by simpa using hwf) (by decide) (by decide)
  obtain ⟨sent, hwrite, -, -, hread⟩ := hrt.run ⟨List.replicate 1000 0, 0⟩ (by decide +kernel)
  rw [Nat.zero_add] at hwrite hread
  refine ⟨hwf, sent, (vote.received .zero 0).from 1, (SyncMsg.shareless share).received .zero, hwrite, ?_,
    rfl, rfl, ?_⟩
  · rw [createMessages, hread]
    rfl
  · decide +kernel

end Buffers

end SpotLess.Wire
