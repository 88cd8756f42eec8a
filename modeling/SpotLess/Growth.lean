import SpotLess.Moves

namespace SpotLess

open Lib

structure TxnManager.Grows (t t' : TxnManager) : Prop where
  hash : t.hash ≠ [] → t'.hash ≠ []
  newViewed : t.newViewed = true → t'.newViewed = true
  proposalReceived : t.proposalReceived = true → t'.proposalReceived = true
  genericReceived : t.genericReceived = true → t'.genericReceived = true
  syncSent : t.syncSent = true → t'.syncSent = true

namespace TxnManager.Grows

lemma refl (t : TxnManager) : t.Grows t := ⟨id, id, id, id, id⟩

lemma ready {t t' : TxnManager} (h : t.Grows t') (ht : t.Ready) : t'.Ready :=
  ⟨h.newViewed ht.1, h.proposalReceived ht.2.1, h.genericReceived ht.2.2⟩

end TxnManager.Grows

namespace Replica

variable {cfg : Config} {crypto : Crypto} {P : Msg → Prop} {Q : ℕ → Prop} {B : ℕ → ClientQueryBatch → Prop}
  {r₀ r s : Replica}

lemma grows_update {table table' : ℕ → TxnManager} {id : ℕ} {t : TxnManager} (h : ∀ k, (table k).Grows (table' k))
    (ht : (table id).Grows t) (k : ℕ) : (table k).Grows (Function.update table' id t k) := by
  by_cases hk : k = id
  · subst hk
    rwa [Function.update_self]
  · rw [Function.update_of_ne hk]
    exact h k

lemma grows_fill {table table' : ℕ → TxnManager} {returnId view i : ℕ} {l : List (ℕ × ClientQuery)}
    (hf : fillManagers cfg table returnId view i l = some table') (k : ℕ) : (table k).Grows (table' k) := by
  rcases fillManagers_cases hf k with heq | ⟨_, _, _, heq⟩
  · rw [heq]
    exact .refl _
  · rw [heq]
    exact ⟨id, id, id, id, id⟩

lemma grows_hashed {table table' : ℕ → TxnManager} {returnId view i : ℕ} {l : List (ℕ × ClientQuery)}
    (hf : fillManagers cfg table returnId view i l = some table') (last : ℕ) {hash : Bytes} (hhash : hash ≠ []) (k : ℕ) :
    (table k).Grows (Function.update table' last { table' last with hash := hash, proposalReceived := true } k) := by
  have hlast := grows_fill hf last
  apply grows_update (grows_fill hf)
  exact ⟨fun _ => hhash, hlast.2, fun _ => rfl, hlast.4, hlast.5⟩

lemma grows_acceptGeneric (t : TxnManager) (m : GenericMsg) : t.Grows (acceptGeneric t m) := by
  simp only [acceptGeneric]
  split_ifs with hempty
  · exact ⟨fun hne => absurd hempty hne, id, id, fun _ => rfl, id⟩
  · exact ⟨id, id, id, fun _ => rfl, id⟩

lemma grows_castVote (t : TxnManager) (qc : QuorumCertificate) (me : ℕ) :
    t.Grows (castVote cfg { t with genericQC := qc, syncSent := true } me) := by
  simp only [castVote]
  split_ifs
  · exact ⟨id, fun _ => rfl, id, id, fun _ => rfl⟩
  · exact ⟨id, id, id, id, fun _ => rfl⟩

lemma grows_hotstuffNewViewed (t : TxnManager) (me : ℕ) (m : SyncMsg) : t.Grows (hotstuffNewViewed cfg t me m).1 := by
  have hseed : t.Grows (t.seedVotes me) := by
    refine ⟨?_, ?_, ?_, ?_, ?_⟩ <;> simp
  have hshare : t.Grows ((t.seedVotes me).storeShare m.returnNodeId m.hash m.sigShare) := by
    refine ⟨?_, ?_, ?_, ?_, ?_⟩ <;> simp
  simp only [hotstuffNewViewed]
  split_ifs
  · exact .refl t
  · exact hseed
  · exact ⟨hshare.1, fun _ => rfl, hshare.3, hshare.4, hshare.5⟩
  · exact ⟨hshare.1, hshare.2, hshare.3, hshare.4, hshare.5⟩

lemma grows_vote (r : Replica) (id k : ℕ) : (r.table k).Grows ((r.sendHotstuffNewview cfg crypto id).table k) := by
  rcases sendHotstuffNewview_cases cfg crypto r id with ⟨_, heq⟩ | ⟨_, hc⟩
  · rw [heq]
    exact .refl _
  · rw [hc.table]
    exact grows_update (fun k => .refl _) (grows_castVote _ _ _) k

lemma countVote_table (r : Replica) (m : SyncMsg) : (r.countVote cfg m).table =
    Function.update r.table m.txnId (hotstuffNewViewed cfg (r.table m.txnId) r.nodeId m).1 := by
  simp only [countVote, bindTxnid]
  split_ifs <;> rfl

lemma Move.grows (h : Move cfg crypto P Q B r₀ r s) (k : ℕ) :
    (r.table k).Grows (s.table k) ∨ (r = r₀ ∧ s.inst = r.inst ∧
      k + 16 * cfg.batchSize * cfg.nodeCnt + 5 < r.exec.nextIndex ∧ (s.table k).Recycled) := by
  cases h with
  | idle h =>
    rw [h.table]
    exact Or.inl (.refl _)
  | proposal _ _ hacc => exact Or.inl (grows_hashed hacc.filled _ (hacc.digest ▸ crypto.hash_ne_nil _) k)
  | generic =>
    rw [storeGeneric_lockGeneric_table]
    exact Or.inl (grows_update (fun _ => .refl _) (grows_acceptGeneric _ _) k)
  | vote => exact Or.inl (grows_vote r _ k)
  | count =>
    rw [countVote_table]
    exact Or.inl (grows_update (fun _ => .refl _) (grows_hotstuffNewViewed _ _ _) k)
  | advance _ _ _ h =>
    rw [advanceView_table h]
    left
    apply grows_update fun _ => .refl _
    exact ⟨id, id, id, id, id⟩
  | batch _ _ hfill => exact Or.inl (grows_hashed hfill _ (crypto.hash_ne_nil _) k)
  | announce =>
    left
    apply grows_update fun _ => .refl _
    exact ⟨id, id, id, fun _ => rfl, id⟩
  | execute => exact Or.inl (.refl _)
  | @recycle id t hindex ht =>
    by_cases hk : k = id
    · subst hk
      rw [setTxn_table, Function.update_self]
      exact Or.inr ⟨rfl, rfl, hindex, ht⟩
    · rw [setTxn_table, Function.update_of_ne hk]
      exact Or.inl (.refl _)

lemma update_genericReceived {table : ℕ → TxnManager} {id k : ℕ} {t : TxnManager}
    (ht : t.genericReceived = (table id).genericReceived) :
    (Function.update table id t k).genericReceived = (table k).genericReceived := by
  by_cases hk : k = id
  · subst hk
    rw [Function.update_self, ht]
  · rw [Function.update_of_ne hk]

lemma hashed_genericReceived {table table' : ℕ → TxnManager} {returnId view i : ℕ} {l : List (ℕ × ClientQuery)}
    (hf : fillManagers cfg table returnId view i l = some table') (last : ℕ) (hash : Bytes) (k : ℕ) :
    (Function.update table' last { table' last with hash := hash, proposalReceived := true } k).genericReceived =
      (table k).genericReceived := by
  rw [update_genericReceived (by rfl)]
  rcases fillManagers_cases hf k with heq | ⟨_, _, _, heq⟩ <;> rw [heq]

lemma Move.received (h : Move cfg crypto P Q B r₀ r s) {k : ℕ} (hk : (s.table k).genericReceived = true) :
    (r.table k).genericReceived = true ∨
    (∃ m, P (.generic m) ∧ m.txnId = k ∧ m.view ≤ (r.inst m.instanceId).view ∧ r.exec.nextIndex < k) ∨
    (SameViews r₀ r ∧ Q k ∧ r₀.exec.nextIndex < k ∧ .genericSent (r.table k).instanceId k ∈ s.trace) := by
  cases h with
  | idle h => exact Or.inl (h.table ▸ hk)
  | proposal _ _ hacc => exact Or.inl (hashed_genericReceived hacc.filled _ _ k ▸ hk)
  | @generic _ m hm hindex hview _ =>
    by_cases hkm : k = m.txnId
    · subst hkm
      exact Or.inr (Or.inl ⟨m, hm, rfl, hview, hindex⟩)
    · rw [storeGeneric_lockGeneric_table, Function.update_of_ne hkm] at hk
      exact Or.inl hk
  | vote =>
    rw [sendHotstuffNewview_genericReceived] at hk
    exact Or.inl hk
  | @count m =>
    rw [countVote_table] at hk
    obtain ⟨_, _, _, _, _, heq⟩ := @hotstuffNewViewed_eq cfg (r₀.table m.txnId) r₀.nodeId m
    rw [heq, update_genericReceived (by rfl)] at hk
    exact Or.inl hk
  | advance _ _ _ h =>
    rw [advanceView_table h, update_genericReceived (by rfl)] at hk
    exact Or.inl hk
  | batch _ _ hfill => exact Or.inl (hashed_genericReceived hfill _ _ k ▸ hk)
  | @announce _ id hsame hid hindex _ =>
    by_cases hkm : k = id
    · subst hkm
      exact Or.inr (Or.inr ⟨hsame, hid, hindex, List.mem_append_right _ (List.mem_singleton_self _)⟩)
    · simp only [announceGeneric, observe_table, send_table, setTxn_table, Function.update_of_ne hkm] at hk
      exact Or.inl hk
  | execute => exact Or.inl hk
  | @recycle id t _ ht =>
    by_cases hkm : k = id
    · subst hkm
      rw [setTxn_table, Function.update_self, ht.genericReceived] at hk
      cases hk
    · rw [setTxn_table, Function.update_of_ne hkm] at hk
      exact Or.inl hk

lemma execStep_nextIndex {e e' : Executor} {k : ℕ} {table : ℕ → TxnManager} (h : e.step cfg (.pop k table) = some e') :
    e.nextIndex ≤ e'.nextIndex := by
  simp only [Executor.step] at h
  split at h
  · simp only [Executor.handle] at h
    split_ifs at h
    · rw [← Option.some.inj h]
    · rw [← Option.some.inj h]
      rfl
    · rw [← Option.some.inj h, Executor.processExecute]
      split_ifs <;> exact Nat.le_add_right _ _
  · cases h

lemma Move.nextIndex_le (h : Move cfg crypto P Q B r₀ r s) : r.exec.nextIndex ≤ s.exec.nextIndex := by
  cases h with
  | idle h => rw [h.exec]
  | proposal => exact le_rfl
  | @generic _ m => exact (SameViews.generic r m).nextIndex.ge
  | @vote _ id => exact (SameViews.vote r id).nextIndex.ge
  | @count m => exact (SameViews.countVote r₀ m).nextIndex.ge
  | advance _ _ _ h => exact ((Handled.refl r).advanceView h).nextIndex.ge
  | batch => exact le_rfl
  | announce => exact le_rfl
  | execute h => exact execStep_nextIndex h
  | recycle => exact le_rfl

lemma Moves.nextIndex_le (h : Moves cfg crypto P Q B r₀ r s) : r.exec.nextIndex ≤ s.exec.nextIndex :=
  h.invariant (I := fun u => r.exec.nextIndex ≤ u.exec.nextIndex) (fun _ _ hm hle => hle.trans hm.nextIndex_le) le_rfl

lemma enterView_view (r : Replica) (i view id : ℕ) : ((r.enterView cfg i view id).inst i).view = view := by
  simp only [enterView]
  split_ifs <;> simp [postPrimary, setCurrNewViewed, setView]

lemma advanceView_view {id : ℕ} (h : r.advanceView cfg id = some s) (i : ℕ) :
    (s.inst i).view = if i = (r.table id).instanceId then (r.inst i).view + 1 else (r.inst i).view := by
  obtain ⟨_, _, rfl⟩ := advanceView_eq h
  split_ifs with hi
  · subst hi
    rw [enterView_view]
  · rw [enterView_inst_of_ne cfg _ _ _ _ hi, updateLockQC_view]
    simp [installQC, Function.update_of_ne hi]

lemma Move.views (h : Move cfg crypto P Q B r₀ r s) :
    (∀ i, (s.inst i).view = (r.inst i).view) ∨
    ∃ id, SameViews r₀ r ∧ Unready P r₀ id ∧ (r.table id).Ready ∧ r.advanceView cfg id = some s := by
  cases h with
  | idle h => exact Or.inl h.sameViews.view
  | @proposal m table => exact Or.inl (SameViews.storeProposal r₀ m table).view
  | @generic _ m => exact Or.inl (SameViews.generic r m).view
  | @vote _ id => exact Or.inl (SameViews.vote r id).view
  | @count m => exact Or.inl (SameViews.countVote r₀ m).view
  | advance hsame hfresh hready h => exact Or.inr ⟨_, hsame, hfresh, hready, h⟩
  | @batch slot batch table =>
    left
    intro i
    by_cases hi : i = (r₀.proposalOf cfg crypto slot batch).instanceId
    · subst hi
      simp [storeBatch]
    · simp [storeBatch, Function.update_of_ne hi]
  | announce => exact Or.inl fun _ => rfl
  | execute => exact Or.inl fun _ => rfl
  | recycle => exact Or.inl fun _ => rfl

lemma Move.view_le (h : Move cfg crypto P Q B r₀ r s) (i : ℕ) : (r.inst i).view ≤ (s.inst i).view := by
  rcases h.views with hsame | ⟨id, _, _, _, ha⟩
  · exact (hsame i).ge
  · rw [advanceView_view ha]
    split_ifs <;> omega

lemma Move.nodeId (h : Move cfg crypto P Q B r₀ r s) : s.nodeId = r.nodeId := by
  cases h with
  | idle h => exact h.nodeId
  | proposal => rfl
  | @generic _ m => exact (SameViews.generic r m).nodeId
  | @vote _ id => exact (SameViews.vote r id).nodeId
  | @count m => exact (SameViews.countVote r₀ m).nodeId
  | advance _ _ _ h => exact ((Handled.refl r).advanceView h).nodeId
  | batch => rfl
  | announce => rfl
  | execute => rfl
  | recycle => rfl

end Replica

end SpotLess
