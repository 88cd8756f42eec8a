import SpotLess.Step

namespace SpotLess.Replica

open Lib

variable {cfg : Config} {crypto : Crypto} {r s : Replica}

structure AcceptsGeneric (cfg : Config) (crypto : Crypto) (r : Replica) (m : GenericMsg) : Prop where
  fresh : (r.table m.txnId).genericReceived = false
  leader : cfg.getViewPrimary (r.inst m.instanceId).view m.instanceId = m.returnNodeId
  signed : m.validate crypto = true
  safe : (r.inst m.instanceId).SafeNode m.highQC
  hash : (r.table m.txnId).hash = [] ∨ (r.table m.txnId).hash = m.hash

def voteGeneric (cfg : Config) (crypto : Crypto) (r : Replica) (m : GenericMsg) : Replica :=
  ((r.storeGeneric m).lockGeneric cfg m).sendHotstuffNewview cfg crypto m.txnId

lemma processHotstuffGeneric_cases {m : GenericMsg} (h : r.processHotstuffGeneric cfg crypto m = some s) :
    s = r ∨ AcceptsGeneric cfg crypto r m ∧
      let v := voteGeneric cfg crypto r m
      let ready := (v.table m.txnId).newViewed = true ∧ (v.table m.txnId).proposalReceived = true
      (ready ∧ v.advanceView cfg m.txnId = some s ∨ ¬ ready ∧ s = v) := by
  simp only [processHotstuffGeneric] at h
  by_cases hg : (r.table m.txnId).genericReceived
  · rw [if_pos hg] at h
    exact Or.inl (Option.some.inj h).symm
  rw [if_neg hg] at h
  by_cases hl : cfg.getViewPrimary (r.inst m.instanceId).view m.instanceId ≠ m.returnNodeId
  · rw [if_pos hl] at h
    exact Or.inl (Option.some.inj h).symm
  rw [if_neg hl] at h
  by_cases hv : m.validate crypto = true
  swap
  · rw [if_pos (by simpa using hv)] at h
    cases h
  rw [if_neg (by simpa using hv)] at h
  by_cases hs : (r.inst m.instanceId).SafeNode m.highQC
  swap
  · rw [if_pos hs] at h
    exact Or.inl (Option.some.inj h).symm
  rw [if_neg (not_not.mpr hs)] at h
  by_cases hh : (r.table m.txnId).hash ≠ [] ∧ (r.table m.txnId).hash ≠ m.hash
  · rw [if_pos hh] at h
    cases h
  rw [if_neg hh] at h
  refine Or.inr ⟨⟨by simpa using hg, not_not.mp hl, hv, hs, ?_⟩, ?_⟩
  · tauto
  · split_ifs at h with hj
    · exact Or.inl ⟨hj, h⟩
    · exact Or.inr ⟨hj, (Option.some.inj h).symm⟩

def countVote (cfg : Config) (r : Replica) (m : SyncMsg) : Replica :=
  let t := r.table m.txnId
  (if bindsHash t r.nodeId m then r.bindTxnid m else r).setTxn m.txnId (hotstuffNewViewed cfg t r.nodeId m).1

lemma processHotstuffNewView_cases {m : SyncMsg} (h : r.processHotstuffNewView cfg crypto m = some s) :
    s = r ∨ ((r.table m.txnId).hash = [] ∨ (r.table m.txnId).hash = m.hash) ∧
      let z := hotstuffNewViewed cfg (r.table m.txnId) r.nodeId m
      let ready := z.2 = true ∧ z.1.proposalReceived = true ∧ z.1.genericReceived = true
      (ready ∧ (r.countVote cfg m).advanceView cfg m.txnId = some s ∨ ¬ ready ∧ s = r.countVote cfg m) := by
  simp only [processHotstuffNewView] at h
  by_cases hv : m.validate crypto = true
  swap
  · rw [if_pos (by simpa using hv)] at h
    cases h
  rw [if_neg (by simpa using hv)] at h
  by_cases hh : (r.table m.txnId).hash ≠ [] ∧ m.hash ≠ (r.table m.txnId).hash
  · rw [if_pos hh] at h
    exact Or.inl (Option.some.inj h).symm
  rw [if_neg hh] at h
  refine Or.inr ⟨by tauto, ?_⟩
  by_cases hj : (hotstuffNewViewed cfg (r.table m.txnId) r.nodeId m).2 = true ∧
      (hotstuffNewViewed cfg (r.table m.txnId) r.nodeId m).1.proposalReceived = true ∧
      (hotstuffNewViewed cfg (r.table m.txnId) r.nodeId m).1.genericReceived = true
  · rw [if_pos hj] at h
    exact Or.inl ⟨hj, h⟩
  · rw [if_neg hj] at h
    exact Or.inr ⟨hj, (Option.some.inj h).symm⟩

structure AcceptsProposal (cfg : Config) (crypto : Crypto) (r : Replica) (m : ProposalMsg) (table : ℕ → TxnManager) :
    Prop where
  fresh : (r.table (m.txnId + 2)).proposalReceived = false
  hash : (r.table (m.txnId + 2)).genericReceived = true → m.hash = (r.table (m.txnId + 2)).hash
  digest : m.hash = crypto.calculateHash (batchString m.requestMsg)
  filled : fillManagers cfg r.table m.returnNodeId m.view m.instanceId (m.index.zip m.requestMsg) = some table

def storeProposal (r : Replica) (m : ProposalMsg) (table : ℕ → TxnManager) : Replica :=
  let last := m.index.getLastD 0
  let t : TxnManager := { table last with hash := m.hash, proposalReceived := true }
  { r with table := Function.update table last t }.rememberTxnid m.instanceId m.hash last

lemma processHotstuffProposal_cases {m : ProposalMsg} (h : r.processHotstuffProposal cfg crypto m = some s) :
    s = r ∨ ∃ table, AcceptsProposal cfg crypto r m table ∧
      let last := m.index.getLastD 0
      let ready := (table last).newViewed = true ∧ (table last).genericReceived = true
      (ready ∧ (r.storeProposal m table).advanceView cfg last = some s ∨
        ¬ ready ∧ s = r.storeProposal m table) := by
  simp only [processHotstuffProposal] at h
  by_cases hp : (r.table (m.txnId + 2)).proposalReceived
  · rw [if_pos hp] at h
    exact Or.inl (Option.some.inj h).symm
  rw [if_neg hp] at h
  by_cases hg : (r.table (m.txnId + 2)).genericReceived ∧ m.hash ≠ (r.table (m.txnId + 2)).hash
  · rw [if_pos hg] at h
    cases h
  rw [if_neg hg] at h
  by_cases hv : m.validate crypto = true
  swap
  · rw [if_pos (by simpa using hv)] at h
    cases h
  rw [if_neg (by simpa using hv)] at h
  split at h
  · cases h
  · rename_i table htable
    refine Or.inr ⟨table, ⟨by simpa using hp, by tauto, ?_, htable⟩, ?_⟩
    · simpa [ProposalMsg.validate] using hv
    · split_ifs at h with hj
      · exact Or.inl ⟨hj, h⟩
      · exact Or.inr ⟨hj, (Option.some.inj h).symm⟩

lemma advanceView_eq {id : ℕ} (h : r.advanceView cfg id = some s) :
    (r.table id).hash ≠ [] ∧ cfg.InRange (r.inst (r.table id).instanceId).view ∧
      let i := (r.table id).instanceId
      let view := (r.inst i).view
      s = ((r.installQC id).updateLockQC cfg (genericQCOf (r.table id) view) (view + 1) id i).enterView cfg i
        (view + 1) id := by
  simp only [advanceView] at h
  split_ifs at h with hn
  rw [not_or, not_not] at hn
  exact ⟨hn.1, hn.2, (Option.some.inj h).symm⟩

def storeBatch (cfg : Config) (crypto : Crypto) (r : Replica) (slot : ℕ) (batch : ClientQueryBatch)
    (table : ℕ → TxnManager) : Replica :=
  let m := r.proposalOf cfg crypto slot batch
  let last := slot * cfg.batchSize + cfg.batchSize - 1
  let t : TxnManager := { table last with hash := m.hash, proposalReceived := true }
  let x := r.inst m.instanceId
  (({ r with table := Function.update table last t }.setInst m.instanceId
    { x with hashToTxnid := x.hashToTxnid.insert m.hash last }).send (r.others cfg) (.proposal m)).observe
      (.proposed m.instanceId m.view batch m.hash)

lemma createAndSendHotstuffPrepare_cases {slot : ℕ} {batch : ClientQueryBatch}
    (h : r.createAndSendHotstuffPrepare cfg crypto slot batch = some s) :
    let m := r.proposalOf cfg crypto slot batch
    cfg.getViewPrimary m.view m.instanceId = r.nodeId ∧
      ∃ table, fillManagers cfg r.table batch.returnNode m.view m.instanceId (m.index.zip batch.cqrySet) =
        some table ∧ s = r.storeBatch cfg crypto slot batch table := by
  simp only [createAndSendHotstuffPrepare] at h
  split_ifs at h with hp
  split at h
  · cases h
  · rename_i table htable
    exact ⟨not_not.mp hp, table, htable, (Option.some.inj h).symm⟩

structure SentGeneric (cfg : Config) (crypto : Crypto) (r : Replica) (id : ℕ) (s : Replica) : Prop where
  hash : (r.table id).hash ≠ []
  eq : s =
    (((r.setTxn id { r.table id with
        highQC := (r.inst (r.table id).instanceId).preparedQC, genericReceived := true }).send (r.others cfg)
      (.generic (r.genericOf crypto id))).observe (.genericSent (r.table id).instanceId id)).sendHotstuffNewview
        cfg crypto id

lemma processHotstuffGenericP_cases {id : ℕ} (h : r.processHotstuffGenericP cfg crypto id = some s) :
    SentGeneric cfg crypto r id s := by
  simp only [processHotstuffGenericP, sendHotstuffGeneric] at h
  split_ifs at h with hh
  · cases h
  · refine ⟨hh, ?_⟩
    rw [Option.map_some] at h
    rw [← Option.some.inj h]
    simp [setTxn, send, observe, genericOf]

end SpotLess.Replica
