import SpotLess.Message
import SpotLess.Wire

/-! The node-to-node check of `validate()` with `CRYPTO_METHOD_CMAC_AES`: the string it recomputes, the key it
takes from the message, and the keys a node was given in the key exchange. -/

namespace SpotLess.Wire

-- `CMAC<AES>`: tags have 16 bytes, keys of any other length than those of AES are refused.
structure Mac where
  cmac : Bytes → Bytes → Bytes
  cmac_length : ∀ key s, (cmac key s).length = 16

def validKeyLength (key : Bytes) : Prop := key.length = 16 ∨ key.length = 24 ∨ key.length = 32

instance (key : Bytes) : Decidable (validKeyLength key) := inferInstanceAs (Decidable (_ ∨ _))

section Strings

variable (net : NetConfig)

def decimal (v : UInt64) : Bytes := toStringDec v.toNat

def underscore : Bytes := [95]

def colon : Bytes := [58]

def ClientQuery.getRequestString (q : ClientQuery) : Bytes :=
  (q.requests.map fun req => decimal req.key ++ space ++ [req.value.toUInt8] ++ space).flatten

def ClientQuery.getString (q : ClientQuery) : Bytes :=
  q.getRequestString ++ space ++ decimal q.clientStartts

def SyncMsg.toBytes (m : SyncMsg) : Bytes :=
  decimal m.view ++ underscore ++ decimal m.index ++ underscore ++ m.hash ++ underscore ++
    decimal m.returnNode ++ underscore ++ decimal m.endIndex

def GenericMsg.toBytes (m : GenericMsg) : Bytes :=
  decimal m.view ++ underscore ++ decimal m.index ++ underscore ++ m.hash ++ underscore ++
    decimal m.returnNode ++ underscore ++ decimal m.endIndex

def AskMsg.toBytes (m : AskMsg) : Bytes := decimal m.view ++ m.hash

def ClientResponse.getString (m : ClientResponse) (sender : UInt64) : Bytes :=
  decimal sender ++ (((m.index.zip m.clientTs).take net.batchSize).map fun e =>
    decimal e.1 ++ colon ++ decimal e.2).flatten

def ProposalMsg.getString (m : ProposalMsg) (sender : UInt64) : Bytes :=
  decimal sender ++ (((m.index.zip m.requestMsg).take net.batchSize).map fun e =>
    decimal e.1 ++ e.2.getRequestString).flatten ++ m.hash ++ decimal m.view

def QuorumCertificate.toBytes (qc : QuorumCertificate) : Bytes :=
  qc.batchHash ++ decimal qc.viewNumber ++ qc.parentHash ++ decimal qc.parentView

-- The string under the code, for the types `validateNodeNode` is called on.
def Message.macString (m : Message) : Option Bytes :=
  match m.body with
  | .sync s => some s.toBytes
  | .generic g => some g.toBytes
  | .proposal p => some (p.getString net m.base.returnNodeId)
  | .ask a => some a.toBytes
  | .clRsp r => some (r.getString net m.base.returnNodeId)
  | _ => none

end Strings

section Validate

variable (net : NetConfig) (crypto : Crypto) (mac : Mac)

-- `HashVerificationFilter` with `HASH_AT_END` takes the last 16 bytes of message and code together for the tag.
def cmacVerifyString (key s sig : Bytes) : Bool :=
  validKeyLength key ∧ 16 ≤ (s ++ sig).length ∧
    (s ++ sig).drop ((s ++ sig).length - 16) = mac.cmac key ((s ++ sig).take ((s ++ sig).length - 16))

-- What `validate()` checks besides the code: the share of a vote or GENERIC, the digest of a batch.
def Message.otherChecks (m : Message) : Bool :=
  match m.body with
  | .sync s => s.sigEmpty || crypto.ecdsaVerify m.base.returnNodeId.toNat s.sigShare.toList
      (crypto.calculateHash (s.hash ++ s.highQC.toBytes))
  | .generic g => crypto.ecdsaVerify m.base.returnNodeId.toNat g.psigShare.toList
      (crypto.calculateHash (g.hash ++ g.highQC.toBytes))
  | .proposal p => p.hash == crypto.calculateHash
      ((p.requestMsg.take net.batchSize).map ClientQuery.getString).flatten
  | _ => true

def Message.validate (m : Message) (s : Bytes) : Bool :=
  cmacVerifyString mac m.base.pubKey s m.base.signature && m.otherChecks net crypto

def Message.withSignature (m : Message) (sig : Bytes) : Message := { m with base.signature := sig }

end Validate

section Keys

def cmaTag : Bytes := [67, 77, 65, 45]

-- `cmacOthersKeys` under the messages of the key exchange.
def processKeyExchange (keys : UInt64 → Bytes) (m : KeyExchange) : UInt64 → Bytes :=
  if m.pkey.take 4 = cmaTag then Function.update keys m.returnNode (m.pkey.drop 4) else keys

def cmacOthersKeys (own : UInt64 → Bytes) (exchange : List KeyExchange) : UInt64 → Bytes :=
  exchange.foldl processKeyExchange own

end Keys

section Authentic

variable (net : NetConfig) (crypto : Crypto) (mac : Mac) (keys : UInt64 → Bytes)

def Message.Authentic (m : Message) : Prop :=
  ∀ s, m.macString net = some s → m.validate net crypto mac s = true →
    m.base.signature = mac.cmac (keys m.base.returnNodeId) s

variable {net crypto mac keys} {m : Message} {s : Bytes}

lemma cmacVerifyString_short {key sig : Bytes} (h : sig.length ≤ 16) :
    cmacVerifyString mac key s sig = true ↔ validKeyLength key ∧ 16 ≤ s.length + sig.length ∧
      s.drop (s.length + sig.length - 16) ++ sig = mac.cmac key (s.take (s.length + sig.length - 16)) := by
  have hle : s.length + sig.length - 16 ≤ s.length := by omega
  simp only [cmacVerifyString, List.length_append, List.drop_append_of_le_length hle,
    List.take_append_of_le_length hle, decide_eq_true_eq]

lemma cmacVerifyString_tag {key sig : Bytes} (h : sig.length = 16) :
    cmacVerifyString mac key s sig = true ↔ validKeyLength key ∧ sig = mac.cmac key s := by
  simp only [cmacVerifyString_short h.le, h, Nat.add_sub_cancel, List.drop_length, List.take_length,
    List.nil_append, Nat.le_add_left, true_and]

lemma exists_short_tag_iff {key : Bytes} {k : ℕ} (hk : k ≤ 16) :
    (∃ sig : Bytes, sig.length = k ∧ cmacVerifyString mac key s sig = true) ↔
      validKeyLength key ∧ 16 ≤ s.length + k ∧
        s.drop (s.length + k - 16) = (mac.cmac key (s.take (s.length + k - 16))).take (16 - k) := by
  have htag := mac.cmac_length key (s.take (s.length + k - 16))
  constructor
  · rintro ⟨sig, rfl, h⟩
    obtain ⟨hkey, hlen, hsplit⟩ := (cmacVerifyString_short hk).mp h
    have hdrop : (s.drop (s.length + sig.length - 16)).length = 16 - sig.length := by
      rw [List.length_drop]
      omega
    exact ⟨hkey, hlen, by rw [← hsplit, List.take_left' hdrop]⟩
  · rintro ⟨hkey, hlen, hdrop⟩
    have hsig : ((mac.cmac key (s.take (s.length + k - 16))).drop (16 - k)).length = k := by
      rw [List.length_drop, htag]
      omega
    refine ⟨_, hsig, (cmacVerifyString_short (hsig.trans_le hk)).mpr ?_⟩
    rw [hsig, hdrop, List.take_append_drop]
    exact ⟨hkey, hlen, rfl⟩

-- Under a key of one's own choice, any padding may stand between the string and the tag.
lemma cmacVerifyString_padded {key : Bytes} (pad : Bytes) (h : validKeyLength key) :
    cmacVerifyString mac key s (pad ++ mac.cmac key (s ++ pad)) = true := by
  have htag := mac.cmac_length key (s ++ pad)
  have hsplit : s ++ (pad ++ mac.cmac key (s ++ pad)) = (s ++ pad) ++ mac.cmac key (s ++ pad) := by simp
  have hlen : (s ++ (pad ++ mac.cmac key (s ++ pad))).length - 16 = (s ++ pad).length := by
    rw [hsplit, List.length_append, htag]
    omega
  have hle : 16 ≤ (s ++ (pad ++ mac.cmac key (s ++ pad))).length := by
    rw [hsplit, List.length_append, htag]
    omega
  rw [cmacVerifyString, decide_eq_true_eq]
  refine ⟨h, hle, ?_⟩
  rw [hlen, hsplit, List.drop_left, List.take_left]

lemma Message.validate_withSignature (sig : Bytes) : (m.withSignature sig).validate net crypto mac s = true ↔
    cmacVerifyString mac m.base.pubKey s sig = true ∧ m.otherChecks net crypto = true :=
  Bool.and_eq_true_iff

lemma Message.authentic_tags_iff (hs : m.macString net = some s) :
    (∀ sig : Bytes, sig.length = 16 → (m.withSignature sig).Authentic net crypto mac keys) ↔
      (validKeyLength m.base.pubKey → m.otherChecks net crypto = true →
        mac.cmac m.base.pubKey s = mac.cmac (keys m.base.returnNodeId) s) := by
  constructor
  · intro h hkey hother
    have hsig := mac.cmac_length m.base.pubKey s
    refine h _ hsig s hs ?_
    exact (m.validate_withSignature _).mpr ⟨(cmacVerifyString_tag hsig).mpr ⟨hkey, rfl⟩, hother⟩
  · intro h sig hsig s' hs' hvalid
    obtain rfl : s = s' := Option.some.inj (hs.symm.trans hs')
    obtain ⟨hmac, hother⟩ := (m.validate_withSignature sig).mp hvalid
    obtain ⟨hkey, htag⟩ := (cmacVerifyString_tag hsig).mp hmac
    exact htag.trans (h hkey hother)

lemma Message.not_authentic_padded {k : ℕ} (hk : 16 < k) (hs : m.macString net = some s) :
    (∀ sig : Bytes, sig.length = k → (m.withSignature sig).Authentic net crypto mac keys) ↔
      ¬ (validKeyLength m.base.pubKey ∧ m.otherChecks net crypto = true) := by
  constructor
  · rintro h ⟨hkey, hother⟩
    let pad : Bytes := List.replicate (k - 16) 0
    let sig := pad ++ mac.cmac m.base.pubKey (s ++ pad)
    have hsig : sig.length = k := by
      simp only [sig, pad, List.length_append, List.length_replicate, mac.cmac_length]
      omega
    have htag : sig = mac.cmac (keys m.base.returnNodeId) s :=
      h sig hsig s hs ((m.validate_withSignature sig).mpr ⟨cmacVerifyString_padded pad hkey, hother⟩)
    have hlen := congrArg List.length htag
    rw [hsig, mac.cmac_length] at hlen
    omega
  · intro h sig _ s' hs' hvalid
    obtain rfl : s = s' := Option.some.inj (hs.symm.trans hs')
    obtain ⟨hmac, hother⟩ := (m.validate_withSignature sig).mp hvalid
    have hkey : validKeyLength m.base.pubKey := (of_decide_eq_true hmac).1
    exact absurd ⟨hkey, hother⟩ h

lemma Message.not_authentic_short {k : ℕ} (hk : k < 16) (hs : m.macString net = some s) :
    (∀ sig : Bytes, sig.length = k → (m.withSignature sig).Authentic net crypto mac keys) ↔
      ¬ (validKeyLength m.base.pubKey ∧ m.otherChecks net crypto = true ∧ 16 ≤ s.length + k ∧
        s.drop (s.length + k - 16) = (mac.cmac m.base.pubKey (s.take (s.length + k - 16))).take (16 - k)) := by
  constructor
  · rintro h ⟨hkey, hother, htag⟩
    obtain ⟨sig, hsig, hmac⟩ := (exists_short_tag_iff hk.le).mpr ⟨hkey, htag⟩
    have heq : sig = mac.cmac (keys m.base.returnNodeId) s :=
      h sig hsig s hs ((m.validate_withSignature sig).mpr ⟨hmac, hother⟩)
    have hlen := congrArg List.length heq
    rw [hsig, mac.cmac_length] at hlen
    omega
  · intro h sig hsig s' hs' hvalid
    obtain rfl : s = s' := Option.some.inj (hs.symm.trans hs')
    obtain ⟨hmac, hother⟩ := (m.validate_withSignature sig).mp hvalid
    obtain ⟨hkey, htag⟩ := (exists_short_tag_iff hk.le).mp ⟨sig, hsig, hmac⟩
    exact absurd ⟨hkey, hother, htag⟩ h

end Authentic

theorem authentic_iff_key_agrees (net : NetConfig) (crypto : Crypto) (mac : Mac) (own : UInt64 → Bytes)
    (exchange : List KeyExchange) (m : Message) (s : Bytes) (hs : m.macString net = some s) :
    ((∀ sig : Bytes, sig.length = 16 →
        (m.withSignature sig).Authentic net crypto mac (cmacOthersKeys own exchange)) ↔
      (validKeyLength m.base.pubKey → m.otherChecks net crypto = true →
        mac.cmac m.base.pubKey s = mac.cmac (cmacOthersKeys own exchange m.base.returnNodeId) s)) ∧
    (∀ k, 16 < k → ((∀ sig : Bytes, sig.length = k →
        (m.withSignature sig).Authentic net crypto mac (cmacOthersKeys own exchange)) ↔
      ¬ (validKeyLength m.base.pubKey ∧ m.otherChecks net crypto = true))) ∧
    ∀ k, k < 16 → ((∀ sig : Bytes, sig.length = k →
        (m.withSignature sig).Authentic net crypto mac (cmacOthersKeys own exchange)) ↔
      ¬ (validKeyLength m.base.pubKey ∧ m.otherChecks net crypto = true ∧ 16 ≤ s.length + k ∧
        s.drop (s.length + k - 16) = (mac.cmac m.base.pubKey (s.take (s.length + k - 16))).take (16 - k))) :=
  ⟨m.authentic_tags_iff hs, fun _ hk => m.not_authentic_padded hk hs, fun _ hk => m.not_authentic_short hk hs⟩

def Mac.keyed : Mac where
  cmac key _ := (key ++ List.replicate 16 0).take 16
  cmac_length key s := by simp

def sentKey : Bytes := List.replicate 32 65

def foreignKey : Bytes := List.replicate 32 66

def keyOf (node : UInt64) (key : Bytes) : KeyExchange where
  pkey := cmaTag ++ key
  pkeySz := 36
  returnNode := node
  publicShare := List.Vector.replicate 64 0

-- An ASK that names node 1 as its sender and brings the key of its code along.
def askUnder (key sig : Bytes) : Message where
  base :=
    { txnId := 99, returnNodeId := 1, mqTime := 0, sigSize := 16, keySize := 32, signature := sig
      pubKey := key, instanceId := 0, latency := ⟨0, 0, 0, 0, 0, 0, 0⟩ }
  body := .ask { view := 0, hash := [7], hashSize := 1, returnNode := 1 }

theorem authentic_iff_key_agrees_sent_key :
    validKeyLength sentKey ∧ (askUnder sentKey []).macString .deployed = some [48, 7] ∧
      ∀ sig : Bytes, sig.length = 16 → ((askUnder sentKey []).withSignature sig).Authentic .deployed .transparent
        .keyed (cmacOthersKeys (fun _ => []) [keyOf 1 sentKey]) := by
  have hs : (askUnder sentKey []).macString .deployed = some [48, 7] := by decide
  refine ⟨by decide, hs, ?_⟩
  exact (authentic_iff_key_agrees .deployed .transparent .keyed _ _ _ _ hs).1.mpr fun _ _ => by decide

theorem foreign_key_accepted :
    let m := askUnder foreignKey (Mac.keyed.cmac foreignKey [48, 7])
    m.macString .deployed = some [48, 7] ∧
      m.validate .deployed .transparent .keyed [48, 7] = true ∧
      m.base.signature ≠ Mac.keyed.cmac (cmacOthersKeys (fun _ => []) [keyOf 1 sentKey] 1) [48, 7] ∧
      ¬ m.Authentic .deployed .transparent .keyed (cmacOthersKeys (fun _ => []) [keyOf 1 sentKey]) := by
  intro m
  have hs : m.macString .deployed = some [48, 7] := by decide
  have hvalid : m.validate .deployed .transparent .keyed [48, 7] = true := by decide
  have hne : m.base.signature ≠
      Mac.keyed.cmac (cmacOthersKeys (fun _ => []) [keyOf 1 sentKey] 1) [48, 7] := by decide
  refine ⟨hs, hvalid, hne, ?_⟩
  intro hauth
  exact hne (hauth _ hs hvalid)

end SpotLess.Wire
