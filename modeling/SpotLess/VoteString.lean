import SpotLess.Authentication
import SpotLess.BatchDigest

/-! The string under the share of a vote or a GENERIC. Nothing separates its decimal numbers from the digests beside
them, so digits may pass from one to the other. -/

namespace SpotLess.Wire

-- What `digital_sign` puts under a share; a digest has 32 bytes.
structure Vote where
  hash : Bytes
  highQC : QuorumCertificate
  hash_length : hash.length = 32
  batchHash_length : highQC.batchHash.length = 32
  parentHash_length : highQC.parentHash.length = 32

namespace Vote

def metadata (v : Vote) : Bytes := v.hash ++ v.highQC.toBytes

structure Agrees (v w : Vote) : Prop where
  hash : v.hash = w.hash
  batchHash : v.highQC.batchHash = w.highQC.batchHash
  viewNumber : v.highQC.viewNumber = w.highQC.viewNumber
  parentHash : v.highQC.parentHash = w.highQC.parentHash
  parentView : v.highQC.parentView = w.highQC.parentView

def Bound (v w : Vote) : Prop := v.metadata = w.metadata → v.Agrees w

-- The first bytes of `v`'s parent hash read as further digits of its view number, and the first digits of its
-- parent view as the last bytes of the parent hash.
structure Shifted (v w : Vote) : Prop where
  hash : v.hash = w.hash
  batchHash : v.highQC.batchHash = w.highQC.batchHash
  digits : ∃ digits rest moved : Bytes, digits ≠ [] ∧
    decimal w.highQC.viewNumber = decimal v.highQC.viewNumber ++ digits ∧
    v.highQC.parentHash = digits ++ rest ∧ w.highQC.parentHash = rest ++ moved ∧
    decimal v.highQC.parentView = moved ++ decimal w.highQC.parentView

lemma decimal_length_le (k : UInt64) : (decimal k).length ≤ 20 := by
  have hlt : k.toNat < 10 ^ 20 := k.toNat_lt.trans (by norm_num)
  rw [decimal, toStringDec, List.length_map]
  exact Nat.toDigits_length 10 k.toNat 20 (by norm_num) hlt

lemma decimal_injective : Function.Injective decimal := fun _ _ h => UInt64.toNat_inj.mp (toStringDec_injective h)

variable {v w : Vote}

lemma metadata_eq (v : Vote) :
    v.metadata = v.hash ++ (v.highQC.batchHash ++
      (decimal v.highQC.viewNumber ++ (v.highQC.parentHash ++ decimal v.highQC.parentView))) := by
  simp only [metadata, QuorumCertificate.toBytes, List.append_assoc]

lemma metadata_inj (h : v.metadata = w.metadata) :
    v.hash = w.hash ∧ v.highQC.batchHash = w.highQC.batchHash ∧
      decimal v.highQC.viewNumber ++ (v.highQC.parentHash ++ decimal v.highQC.parentView) =
        decimal w.highQC.viewNumber ++ (w.highQC.parentHash ++ decimal w.highQC.parentView) := by
  rw [metadata_eq, metadata_eq] at h
  obtain ⟨hhash, htail⟩ := List.append_inj h (v.hash_length.trans w.hash_length.symm)
  exact ⟨hhash, List.append_inj htail (v.batchHash_length.trans w.batchHash_length.symm)⟩

lemma Shifted.metadata (h : v.Shifted w) : v.metadata = w.metadata := by
  obtain ⟨digits, rest, moved, -, hview, hparent, hparent', hpview⟩ := h.digits
  rw [metadata_eq, metadata_eq, h.hash, h.batchHash, hview, hparent, hparent', hpview]
  simp only [List.append_assoc]

lemma Shifted.viewNumber_ne (h : v.Shifted w) : v.highQC.viewNumber ≠ w.highQC.viewNumber := by
  obtain ⟨digits, rest, moved, hne, hview, -⟩ := h.digits
  intro heq
  rw [heq] at hview
  exact hne (List.append_right_eq_self.mp hview.symm)

lemma agrees_of_length (h : v.metadata = w.metadata)
    (hlen : (decimal v.highQC.viewNumber).length = (decimal w.highQC.viewNumber).length) : v.Agrees w := by
  obtain ⟨hhash, hbatch, htail⟩ := metadata_inj h
  obtain ⟨hview, htail⟩ := List.append_inj htail hlen
  obtain ⟨hparent, hpview⟩ := List.append_inj htail (v.parentHash_length.trans w.parentHash_length.symm)
  exact ⟨hhash, hbatch, decimal_injective hview, hparent, decimal_injective hpview⟩

lemma shifted_of_length (h : v.metadata = w.metadata)
    (hlen : (decimal v.highQC.viewNumber).length < (decimal w.highQC.viewNumber).length) : v.Shifted w := by
  obtain ⟨hhash, hbatch, htail⟩ := metadata_inj h
  refine ⟨hhash, hbatch, ?_⟩
  obtain ⟨digits, hview, htail⟩ : ∃ digits, decimal w.highQC.viewNumber = decimal v.highQC.viewNumber ++ digits ∧
      v.highQC.parentHash ++ decimal v.highQC.parentView =
        digits ++ (w.highQC.parentHash ++ decimal w.highQC.parentView) := by
    rcases List.append_eq_append_iff.mp htail with ⟨digits, hw, hv⟩ | ⟨digits, hv, -⟩
    · exact ⟨digits, hw, hv⟩
    · rw [hv, List.length_append] at hlen
      omega
  have hdigits : (decimal w.highQC.viewNumber).length = (decimal v.highQC.viewNumber).length + digits.length := by
    rw [hview, List.length_append]
  have hshort := decimal_length_le w.highQC.viewNumber
  -- at most 20 digits are missing, so they all lie in the parent hash
  obtain ⟨rest, hparent, htail⟩ : ∃ rest, v.highQC.parentHash = digits ++ rest ∧
      w.highQC.parentHash ++ decimal w.highQC.parentView = rest ++ decimal v.highQC.parentView := by
    rcases List.append_eq_append_iff.mp htail with ⟨rest, hd, -⟩ | ⟨rest, hv, hw⟩
    · have hlong := congrArg List.length hd
      rw [List.length_append, v.parentHash_length] at hlong
      omega
    · exact ⟨rest, hv, hw⟩
  have hrest : digits.length + rest.length = 32 := by
    rw [← List.length_append, ← hparent, v.parentHash_length]
  obtain ⟨moved, hparent', hpview⟩ : ∃ moved, w.highQC.parentHash = rest ++ moved ∧
      decimal v.highQC.parentView = moved ++ decimal w.highQC.parentView := by
    rcases List.append_eq_append_iff.mp htail with ⟨moved, hr, -⟩ | ⟨moved, hw, hv⟩
    · have hlong := congrArg List.length hr
      rw [List.length_append, w.parentHash_length] at hlong
      omega
    · exact ⟨moved, hw, hv⟩
  refine ⟨digits, rest, moved, ?_, hview, hparent, hparent', hpview⟩
  rintro rfl
  rw [List.length_nil] at hdigits
  omega

theorem metadata_bound_iff (v w : Vote) : v.Bound w ↔ ¬ (v.Shifted w ∨ w.Shifted v) := by
  constructor
  · rintro hbound (h | h)
    · exact h.viewNumber_ne (hbound h.metadata).viewNumber
    · exact h.viewNumber_ne (hbound h.metadata.symm).viewNumber.symm
  · intro hshift heq
    rw [not_or] at hshift
    rcases Nat.lt_trichotomy (decimal v.highQC.viewNumber).length (decimal w.highQC.viewNumber).length with hlt | hlen | hlt
    · exact absurd (shifted_of_length heq hlt) hshift.1
    · exact agrees_of_length heq hlen
    · exact absurd (shifted_of_length heq.symm hlt) hshift.2

-- Byte 50 is the digit 2, byte 51 the digit 3: `1 2..` with parent view 35 and `12 ..3` with parent view 5.
def ofView (view parentView : UInt64) (parentHash : Bytes) (h : parentHash.length = 32) : Vote where
  hash := List.replicate 32 7
  highQC :=
    { type := .PREPARE
      genesis := false
      viewNumber := view
      parentView := parentView
      batchHash := List.replicate 32 8
      parentHash := parentHash
      grandEmpty := true
      grandView := 0
      grandHash := []
      signatureShareMap := .empty }
  hash_length := List.length_replicate
  batchHash_length := List.length_replicate
  parentHash_length := h

theorem view_one_signed_for_view_twelve :
    let v := ofView 1 35 (50 :: List.replicate 31 9) (by simp)
    let w := ofView 12 5 (List.replicate 31 9 ++ [51]) (by simp)
    v.metadata = w.metadata ∧ v.highQC.viewNumber ≠ w.highQC.viewNumber ∧ ¬ v.Bound w := by
  have heq : (ofView 1 35 (50 :: List.replicate 31 9) (by simp)).metadata =
      (ofView 12 5 (List.replicate 31 9 ++ [51]) (by simp)).metadata := by decide +kernel
  have hne : (ofView 1 35 (50 :: List.replicate 31 9) (by simp)).highQC.viewNumber ≠
      (ofView 12 5 (List.replicate 31 9 ++ [51]) (by simp)).highQC.viewNumber := by decide
  exact ⟨heq, hne, fun hbound => hne (hbound heq).viewNumber⟩

end Vote

end SpotLess.Wire
