import SpotLess.Growth

namespace SpotLess

open Lib

variable (cfg : Config)

structure ProposalMsg.Named (m : ProposalMsg) : Prop where
  txnId : m.txnId + 2 = cfg.lastTxn m.view m.instanceId
  index : m.index = cfg.slotTxns m.view m.instanceId
  sender : m.returnNodeId = cfg.getViewPrimary m.view m.instanceId

structure GenericMsg.Named (m : GenericMsg) : Prop where
  txnId : m.txnId = cfg.lastTxn m.view m.instanceId
  sender : m.returnNodeId = cfg.getViewPrimary m.view m.instanceId

def Msg.Named : Msg → Prop
  | .proposal m => m.Named cfg
  | .generic m => m.Named cfg
  | .sync _ => True

-- The messages a replica `p` gets when all slots are named consistently.
structure Msg.Peer (p : ℕ) (m : Msg) : Prop where
  wellFormed : m.WellFormed cfg
  foreign : m.returnNodeId ≠ p
  known : m.returnNodeId < cfg.nodeCnt
  named : m.Named cfg

namespace Config

lemma slotTxns_getLastD (v i : ℕ) : (cfg.slotTxns v i).getLastD 0 = cfg.lastTxn v i := by
  have hb := cfg.batchSize_pos
  obtain ⟨n, hn⟩ : ∃ n, cfg.batchSize = n + 1 := ⟨cfg.batchSize - 1, by omega⟩
  rw [slotTxns, lastTxn, hn, List.range'_concat, List.getLastD_concat]
  omega

lemma lastTxn_mem_slotTxns {v w i j : ℕ} (hi : i < cfg.totInstances) (hj : j < cfg.totInstances) :
    cfg.lastTxn w j ∈ cfg.slotTxns v i ↔ w = v ∧ j = i := by
  rw [mem_slotTxns, lastTxn_div]
  constructor
  · exact cfg.slot_inj hj hi
  · rintro ⟨rfl, rfl⟩
    rfl

lemma lastTxn_ne {v w i j : ℕ} (hi : i < cfg.totInstances) (hj : j < cfg.totInstances) (h : (w, j) ≠ (v, i)) :
    cfg.lastTxn w j ≠ cfg.lastTxn v i := by
  intro heq
  obtain ⟨rfl, rfl⟩ := cfg.lastTxn_inj hj hi heq
  exact h rfl

lemma zip_keys {v i : ℕ} {qrys : List ClientQuery} (h : qrys.length = cfg.batchSize) :
    ((cfg.slotTxns v i).zip qrys).map Prod.fst = cfg.slotTxns v i := by
  rw [List.map_fst_zip]
  simp [slotTxns, h]

end Config

namespace Replica

variable {cfg} {crypto : Crypto} {P : Msg → Prop} {Q : ℕ → Prop} {B : ℕ → ClientQueryBatch → Prop}
  {r₀ r s : Replica}

structure Hashes (cfg : Config) (v i : ℕ) (hash : Bytes) (table table' : ℕ → TxnManager) : Prop where
  last : ∃ returnId client ts reqs, table' (cfg.lastTxn v i) = { table (cfg.lastTxn v i) with
    returnId := returnId, view := v, instanceId := i, clientId := client, clientStartts := ts, requests := reqs
    hash := hash, proposalReceived := true }
  others : ∀ w j, j < cfg.totInstances → (w, j) ≠ (v, i) → table' (cfg.lastTxn w j) = table (cfg.lastTxn w j)

lemma hashes_of_fill {table table' : ℕ → TxnManager} {returnId v i : ℕ} {qrys : List ClientQuery}
    (hf : fillManagers cfg table returnId v i ((cfg.slotTxns v i).zip qrys) = some table')
    (hlen : qrys.length = cfg.batchSize) (hi : i < cfg.totInstances) (hash : Bytes) :
    Hashes cfg v i hash table (Function.update table' (cfg.lastTxn v i)
      { table' (cfg.lastTxn v i) with hash := hash, proposalReceived := true }) := by
  have hkeys := cfg.zip_keys (v := v) (i := i) hlen
  constructor
  · have hmem : cfg.lastTxn v i ∈ ((cfg.slotTxns v i).zip qrys).map Prod.fst := by
      rw [hkeys]
      exact (cfg.lastTxn_mem_slotTxns hi hi).mpr ⟨rfl, rfl⟩
    obtain ⟨client, ts, reqs, heq⟩ := fillManagers_of_mem hf hmem
    refine ⟨returnId, client, ts, reqs, ?_⟩
    rw [Function.update_self, heq]
  · intro w j hj hne
    rw [Function.update_of_ne (cfg.lastTxn_ne hi hj hne)]
    apply fillManagers_of_notMem hf
    rw [hkeys, cfg.lastTxn_mem_slotTxns hi hj]
    rintro ⟨rfl, rfl⟩
    exact hne rfl

lemma storeProposal_hashes {m : ProposalMsg} {table : ℕ → TxnManager} (hm : m.Named cfg)
    (hwf : (Msg.proposal m).WellFormed cfg) (hacc : AcceptsProposal cfg crypto r m table) :
    Hashes cfg m.view m.instanceId m.hash r.table (r.storeProposal m table).table := by
  have hf := hacc.filled
  rw [hm.index] at hf
  simp only [storeProposal, rememberTxnid, setInst_table]
  rw [hm.index, cfg.slotTxns_getLastD]
  exact hashes_of_fill hf hwf.2.2 hwf.1 m.hash

lemma proposalOf_last (crypto : Crypto) {slot : ℕ} {batch : ClientQueryBatch} (halloc : Alloc cfg r)
    (hpc : r.threads.proposal = .stamped slot batch) :
    let m := r.proposalOf cfg crypto slot batch
    m.instanceId < cfg.totInstances ∧ m.index = cfg.slotTxns m.view m.instanceId ∧
      slot * cfg.batchSize + cfg.batchSize - 1 = cfg.lastTxn m.view m.instanceId := by
  obtain ⟨hi, hslot, _⟩ := alloc_stamped cfg crypto halloc hpc
  refine ⟨hi, ?_, ?_⟩
  · rw [Config.slotTxns, Config.firstTxn, ← hslot]
    rfl
  · rw [Config.lastTxn, Config.firstTxn, ← hslot]

lemma storeBatch_hashes {slot : ℕ} {batch : ClientQueryBatch} {table : ℕ → TxnManager} (halloc : Alloc cfg r)
    (hpc : r.threads.proposal = .stamped slot batch) (hlen : batch.cqrySet.length = cfg.batchSize)
    (hf : fillManagers cfg r.table batch.returnNode (r.proposalOf cfg crypto slot batch).view
      (r.proposalOf cfg crypto slot batch).instanceId
      ((r.proposalOf cfg crypto slot batch).index.zip batch.cqrySet) = some table) :
    let m := r.proposalOf cfg crypto slot batch
    Hashes cfg m.view m.instanceId m.hash r.table (r.storeBatch cfg crypto slot batch table).table := by
  obtain ⟨hi, hindex, hlast⟩ := proposalOf_last crypto halloc hpc
  rw [hindex] at hf
  simp only [storeBatch, observe_table, send_table, setInst_table]
  rw [hlast]
  exact hashes_of_fill hf hlen hi _

structure Paced (cfg : Config) (r : Replica) : Prop where
  taken : ∀ id, (r.table id).genericReceived = true →
    ∃ w i, i < cfg.totInstances ∧ id = cfg.lastTxn w i ∧ w ≤ (r.inst i).view
  passed : ∀ i < cfg.totInstances, ∀ w < (r.inst i).view, (r.table (cfg.lastTxn w i)).Ready ∨
    (cfg.lastTxn w i < r.exec.nextIndex ∧ (r.table (cfg.lastTxn w i)).genericReceived = false)
  insts : ∀ w i, i < cfg.totInstances → (r.table (cfg.lastTxn w i)).hash ≠ [] →
    (r.table (cfg.lastTxn w i)).instanceId = i

lemma Paced.not_passed (h : Paced cfg r) {w i : ℕ} (hi : i < cfg.totInstances)
    (hfresh : ¬ (r.table (cfg.lastTxn w i)).Ready)
    (hindex : (r.table (cfg.lastTxn w i)).genericReceived = true ∨ r.exec.nextIndex ≤ cfg.lastTxn w i) :
    (r.inst i).view ≤ w := by
  by_contra hlt
  rcases h.passed i hi w (by omega) with hready | ⟨hexec, hg⟩
  · exact hfresh hready
  · rcases hindex with hrec | hle
    · rw [hrec] at hg
      cases hg
    · omega

lemma Paced.advance_slot {p : ℕ} (h₀ : Paced cfg r₀) (h : Paced cfg r) (hsame : SameViews r₀ r) {id : ℕ}
    (hfresh : Unready (Msg.Peer cfg p) r₀ id) (hready : (r.table id).Ready) (hhash : (r.table id).hash ≠ []) :
    ∃ i, i < cfg.totInstances ∧ (r.table id).instanceId = i ∧ id = cfg.lastTxn (r.inst i).view i := by
  obtain ⟨w, i, hi, rfl, hw⟩ := h.taken id hready.2.2
  have hge : (r₀.inst i).view ≤ w := by
    cases hfresh with
    | proposal hm hid hindex hf =>
      rw [hm.named.index, cfg.slotTxns_getLastD] at hid
      have htxn := hm.named.txnId
      rw [htxn, hid] at hf
      refine h₀.not_passed hi (fun hr => ?_) (Or.inr (by omega))
      rw [hr.2.1] at hf
      cases hf
    | generic hindex hf =>
      refine h₀.not_passed hi (fun hr => ?_) (Or.inr hindex.le)
      rw [hr.2.2] at hf
      cases hf
    | count hg hf =>
      refine h₀.not_passed hi (fun hr => ?_) (Or.inl hg)
      rw [hr.1] at hf
      cases hf
  refine ⟨i, hi, h.insts w i hi hhash, ?_⟩
  rw [hsame.view i]
  have hview := hsame.view i
  congr 1
  omega

-- The fields that only a PROPOSAL, a GENERIC or the replica's own batch can set.
structure SameSlot (t t' : TxnManager) : Prop where
  hash : t'.hash = t.hash
  view : t'.view = t.view
  instanceId : t'.instanceId = t.instanceId
  highQC : t'.highQC = t.highQC

lemma SameSlot.refl (t : TxnManager) : SameSlot t t := ⟨rfl, rfl, rfl, rfl⟩

lemma sameSlot_update {table : ℕ → TxnManager} {id : ℕ} {t : TxnManager} (ht : SameSlot (table id) t) (k : ℕ) :
    SameSlot (table k) (Function.update table id t k) := by
  by_cases hk : k = id
  · subst hk
    rwa [Function.update_self]
  · rw [Function.update_of_ne hk]
    exact .refl _

lemma sameSlot_vote (r : Replica) (id k : ℕ) :
    SameSlot (r.table k) ((r.sendHotstuffNewview cfg crypto id).table k) := by
  rcases sendHotstuffNewview_cases cfg crypto r id with ⟨_, heq⟩ | ⟨_, hc⟩
  · rw [heq]
    exact .refl _
  · rw [hc.table]
    apply sameSlot_update
    obtain ⟨_, _, _, heq⟩ := @castVote_eq cfg
      { r.table id with genericQC := r.ownShare cfg crypto id, syncSent := true } r.nodeId
    rw [heq]
    exact ⟨rfl, rfl, rfl, rfl⟩

lemma sameSlot_count (r : Replica) (m : SyncMsg) (k : ℕ) : SameSlot (r.table k) ((r.countVote cfg m).table k) := by
  rw [countVote_table]
  apply sameSlot_update
  obtain ⟨_, _, _, _, _, heq⟩ := @hotstuffNewViewed_eq cfg (r.table m.txnId) r.nodeId m
  rw [heq]
  exact ⟨rfl, rfl, rfl, rfl⟩

lemma sameSlot_advance {id : ℕ} (h : r.advanceView cfg id = some s) (k : ℕ) : SameSlot (r.table k) (s.table k) := by
  rw [advanceView_table h]
  apply sameSlot_update
  exact ⟨rfl, rfl, rfl, rfl⟩

def SlotInsts (cfg : Config) (table : ℕ → TxnManager) : Prop :=
  ∀ w i, i < cfg.totInstances → (table (cfg.lastTxn w i)).hash ≠ [] → (table (cfg.lastTxn w i)).instanceId = i

lemma Hashes.insts {v i : ℕ} {hash : Bytes} {table table' : ℕ → TxnManager} (h : Hashes cfg v i hash table table')
    (hi : SlotInsts cfg table) : SlotInsts cfg table' := by
  intro w j hj
  by_cases hwj : (w, j) = (v, i)
  · obtain ⟨rfl, rfl⟩ := Prod.mk.inj hwj
    obtain ⟨_, _, _, _, heq⟩ := h.last
    rw [heq]
    exact fun _ => rfl
  · rw [h.others w j hj hwj]
    exact hi w j hj

lemma insts_of_sameSlot {table table' : ℕ → TxnManager} (h : ∀ k, SameSlot (table k) (table' k))
    (hi : SlotInsts cfg table) : SlotInsts cfg table' := by
  intro w j hj hh
  rw [(h _).hash] at hh
  rw [(h _).instanceId]
  exact hi w j hj hh

section Step

variable {p : ℕ}

def Current (cfg : Config) (r : Replica) (id : ℕ) : Prop :=
  ∃ i, i < cfg.totInstances ∧ id = cfg.lastTxn (r.inst i).view i ∧ cfg.getViewPrimary (r.inst i).view i = r.nodeId

lemma Move.insts (hm : Move cfg crypto (Msg.Peer cfg p) Q B r₀ r s) (halloc : Alloc cfg r₀) (hfed : Fed cfg r₀)
    (h : SlotInsts cfg r.table) : SlotInsts cfg s.table := by
  cases hm with
  | idle hidle => exact hidle.table ▸ h
  | proposal hm _ hacc => exact (storeProposal_hashes hm.named hm.wellFormed hacc).insts h
  | @generic _ m hm _ _ hacc =>
    rw [storeGeneric_lockGeneric_table]
    intro w j hj hh
    by_cases hk : cfg.lastTxn w j = m.txnId
    · obtain ⟨rfl, rfl⟩ := cfg.lastTxn_inj hj hm.wellFormed (hk.trans hm.named.txnId)
      have hij := h m.view m.instanceId hj
      rw [hk, Function.update_self] at hh ⊢
      rw [hk] at hij
      simp only [acceptGeneric] at hh ⊢
      split_ifs with hempty
      · rfl
      · exact hij hempty
    · rw [Function.update_of_ne hk] at hh ⊢
      exact h w j hj hh
  | @vote _ id => exact insts_of_sameSlot (sameSlot_vote r id) h
  | @count m => exact insts_of_sameSlot (sameSlot_count r₀ m) h
  | advance _ _ _ ha => exact insts_of_sameSlot (sameSlot_advance ha) h
  | batch _ hpc hfill =>
    have hlen := hfed.inHand _ (by rw [hpc]; exact List.mem_singleton_self _)
    exact (storeBatch_hashes halloc hpc hlen hfill).insts h
  | @announce _ id =>
    intro w j hj
    by_cases hk : cfg.lastTxn w j = id
    · subst hk
      simp only [announceGeneric, observe_table, send_table, setTxn_table, Function.update_self]
      exact h w j hj
    · simp only [announceGeneric, observe_table, send_table, setTxn_table, Function.update_of_ne hk]
      exact h w j hj
  | execute => exact h
  | @recycle id t _ ht =>
    intro w j hj
    by_cases hk : cfg.lastTxn w j = id
    · subst hk
      rw [setTxn_table, Function.update_self]
      exact fun hh => absurd ht.hash hh
    · rw [setTxn_table, Function.update_of_ne hk]
      exact h w j hj

lemma Paced.passed_mono (h : Paced cfg r) (hm : Move cfg crypto (Msg.Peer cfg p) Q B r₀ r s) {w i : ℕ}
    (hi : i < cfg.totInstances) (hw : w < (r.inst i).view) :
    (s.table (cfg.lastTxn w i)).Ready ∨
      (cfg.lastTxn w i < s.exec.nextIndex ∧ (s.table (cfg.lastTxn w i)).genericReceived = false) := by
  have hle := hm.nextIndex_le
  rcases hm.grows (cfg.lastTxn w i) with hgrow | ⟨_, _, hlt, hrec⟩
  · rcases h.passed i hi w hw with hready | ⟨hexec, hg⟩
    · exact Or.inl (hgrow.ready hready)
    · refine Or.inr ⟨by omega, ?_⟩
      by_contra hne
      rcases hm.received (Bool.not_eq_false _ ▸ hne) with hrec | ⟨_, _, _, _, hlt⟩ | ⟨hsame, _, hlt, _⟩
      · rw [hrec] at hg
        cases hg
      · omega
      · have := hsame.nextIndex
        omega
  · exact Or.inr ⟨by omega, hrec.genericReceived⟩

lemma Paced.move (h₀ : Paced cfg r₀) (halloc : Alloc cfg r₀) (hfed : Fed cfg r₀) (h : Paced cfg r)
    (hm : Move cfg crypto (Msg.Peer cfg p) (Current cfg r₀) B r₀ r s) : Paced cfg s := by
  have hviews := hm.view_le
  constructor
  · intro id hid
    rcases hm.received hid with hrec | ⟨m, hP, rfl, hview, _⟩ | ⟨hsame, ⟨i, hi, rfl, _⟩, _⟩
    · obtain ⟨w, i, hi, heq, hw⟩ := h.taken id hrec
      exact ⟨w, i, hi, heq, hw.trans (hviews i)⟩
    · exact ⟨m.view, m.instanceId, hP.wellFormed, hP.named.txnId, hview.trans (hviews _)⟩
    · refine ⟨_, i, hi, rfl, ?_⟩
      rw [← hsame.view i]
      exact hviews i
  · intro i hi w hw
    by_cases hwr : w < (r.inst i).view
    · exact h.passed_mono hm hi hwr
    · rcases hm.views with hsame | ⟨id, hsame, hfresh, hready, ha⟩
      · rw [hsame i] at hw
        exact absurd hw hwr
      · obtain ⟨j, _, hij, hid⟩ := h₀.advance_slot h hsame hfresh hready (advanceView_eq ha).1
        rw [advanceView_view ha, hij] at hw
        split_ifs at hw with heq
        · subst heq
          have hwid : cfg.lastTxn w i = id := by
            rw [hid]
            congr 1
            omega
          left
          rw [hwid, advanceView_table ha, Function.update_self]
          exact hready
        · exact absurd hw hwr
  · exact hm.insts halloc hfed h.insts

-- A step leaves at most one view of an instance, and only when the slot of that view is complete.
def Progress (cfg : Config) (r s : Replica) : Prop :=
  ∀ i < cfg.totInstances, (s.inst i).view = (r.inst i).view ∨
    ((s.inst i).view = (r.inst i).view + 1 ∧ (s.table (cfg.lastTxn (r.inst i).view i)).Ready)

lemma Paced.progress (h₀ : Paced cfg r₀) (h : Paced cfg r)
    (hm : Move cfg crypto (Msg.Peer cfg p) Q B r₀ r s) (hp : Progress cfg r₀ r) : Progress cfg r₀ s := by
  intro i hi
  rcases hm.views with hsame | ⟨id, hsame, hfresh, hready, ha⟩
  · rw [hsame i]
    rcases hp i hi with hv | ⟨hv, hr⟩
    · exact Or.inl hv
    · refine Or.inr ⟨hv, ?_⟩
      rcases hm.grows (cfg.lastTxn (r₀.inst i).view i) with hgrow | ⟨rfl, _⟩
      · exact hgrow.ready hr
      · omega
  · obtain ⟨j, _, hij, hid⟩ := h₀.advance_slot h hsame hfresh hready (advanceView_eq ha).1
    rw [advanceView_view ha, hij]
    split_ifs with heq
    · subst heq
      right
      rw [hsame.view i] at hid ⊢
      refine ⟨rfl, ?_⟩
      rw [← hid, advanceView_table ha, Function.update_self]
      exact hready
    · exact Or.inl (hsame.view i)

lemma Paced.moves (h : Paced cfg r) (halloc : Alloc cfg r) (hfed : Fed cfg r)
    (hm : Moves cfg crypto (Msg.Peer cfg p) (Current cfg r) B r r s) : Paced cfg s ∧ Progress cfg r s := by
  apply hm.invariant (I := fun s => Paced cfg s ∧ Progress cfg r s)
  · intro u v huv hu
    exact ⟨h.move halloc hfed hu.1 huv, h.progress hu.1 huv hu.2⟩
  · exact ⟨h, fun i _ => Or.inl rfl⟩

end Step

end Replica

end SpotLess
