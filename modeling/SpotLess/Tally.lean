import SpotLess.Pairing

namespace SpotLess

open Lib

namespace TxnManager

def votes (t : TxnManager) : Bool × Bool × ℕ × List ℕ × UMap Bytes (List ℕ) :=
  (t.syncSent, t.newViewed, t.newViewVoteCnt, t.voteNewView, t.hashVoters)

structure Tally (nf me : ℕ) (h : Bytes) (t : TxnManager) : Prop where
  count : t.newViewVoteCnt = (t.votersOf h).length
  viewed : t.newViewed = true ↔ nf ≤ (t.votersOf h).length
  nodup : (t.votersOf h).Nodup
  own : me ∈ t.votersOf h ↔ t.syncSent = true
  heard : ∀ x, x ≠ me → (x ∈ t.votersOf h ↔ x ∈ t.voteNewView)

variable {nf me : ℕ} {h : Bytes} {t t' : TxnManager}

lemma Tally.congr (ht : t.Tally nf me h) (heq : t'.votes = t.votes) : t'.Tally nf me h := by
  obtain ⟨hsent, hviewed, hcnt, hheard, hvoters⟩ : t'.syncSent = t.syncSent ∧ t'.newViewed = t.newViewed ∧
    t'.newViewVoteCnt = t.newViewVoteCnt ∧ t'.voteNewView = t.voteNewView ∧ t'.hashVoters = t.hashVoters := by
    simpa [votes] using heq
  have hof : t'.votersOf h = t.votersOf h := by rw [votersOf, hvoters, votersOf]
  constructor
  · rw [hcnt, hof, ht.count]
  · rw [hviewed, hof, ht.viewed]
  · rw [hof]
    exact ht.nodup
  · rw [hsent, hof, ht.own]
  · intro x hx
    rw [hheard, hof, ht.heard x hx]

lemma Tally.push (ht : t.Tally nf me h) {node : ℕ} (hnode : node ∉ t.votersOf h)
    (hvoters : t'.hashVoters = (t.pushVoter h node).hashVoters)
    (hcnt : t'.newViewVoteCnt = (t.pushVoter h node).newViewVoteCnt)
    (hviewed : t'.newViewed = true ↔ t.newViewed = true ∨ t'.newViewVoteCnt = nf)
    (hsent : t'.syncSent = true ↔ t.syncSent = true ∨ node = me)
    (hheard : ∀ x, x ≠ me → (x ∈ t'.voteNewView ↔ x ∈ t.voteNewView ∨ x = node)) : t'.Tally nf me h := by
  have hof : t'.votersOf h = t.votersOf h ++ [node] := by
    rw [votersOf, hvoters, ← votersOf, votersOf_pushVoter, if_pos rfl]
  have hlen : (t'.votersOf h).length = (t.votersOf h).length + 1 := by rw [hof, List.length_append, List.length_singleton]
  have hcount : t'.newViewVoteCnt = (t'.votersOf h).length := by
    rw [hcnt, hof, pushVoter, ht.count]
    exact max_eq_right (by simp)
  constructor
  · exact hcount
  · rw [hviewed, ht.viewed, hcount, hlen]
    omega
  · rw [hof, List.nodup_append]
    refine ⟨ht.nodup, List.nodup_singleton node, fun a ha b hb hab => ?_⟩
    rw [hab, List.mem_singleton.mp hb] at ha
    exact hnode ha
  · rw [hsent, hof, List.mem_append, List.mem_singleton, ht.own, eq_comm (a := me)]
  · intro x hx
    rw [hheard x hx, hof, List.mem_append, List.mem_singleton, ht.heard x hx]

lemma tally_init (cfg : Config) (me : ℕ) (h : Bytes) : ({} : TxnManager).Tally cfg.nf me h where
  count := rfl
  viewed := by
    have hpos := cfg.nf_pos
    constructor
    · intro hv
      cases hv
    · intro hle
      exact absurd hle (Nat.not_le.mpr hpos)
  nodup := List.nodup_nil
  own := by
    change me ∈ [] ↔ false = true
    simp
  heard x _ := by
    change x ∈ [] ↔ x ∈ []
    rfl

lemma Tally.castVote {cfg : Config} (ht : t.Tally cfg.nf me t.hash) (hsent : t.syncSent = false)
    (qc : QuorumCertificate) :
    (Replica.castVote cfg { t with genericQC := qc, syncSent := true } me).Tally cfg.nf me t.hash := by
  have hme : me ∉ t.votersOf t.hash := by
    rw [ht.own, hsent]
    simp
  have hheard : ∀ x, x ≠ me → (x ∈ t.voteNewView ↔ x ∈ t.voteNewView ∨ x = me) := fun x hx => by simp [hx]
  simp only [Replica.castVote]
  split_ifs with hq
  · exact ht.push hme rfl rfl (by simpa using Or.inr hq) (by simp [pushVoter]) hheard
  · refine ht.push hme rfl rfl ?_ (by simp [pushVoter]) hheard
    exact (or_iff_left hq).symm

lemma seedVotes_heard (t : TxnManager) {x : ℕ} (hx : x ≠ me) : x ∈ (t.seedVotes me).voteNewView ↔ x ∈ t.voteNewView := by
  simp only [seedVotes]
  split_ifs with hempty
  · simp [hempty, hx]
  · rfl

lemma Tally.hotstuffNewViewed {cfg : Config} {m : SyncMsg} (ht : t.Tally cfg.nf me m.hash) (hm : m.returnNodeId ≠ me) :
    (Replica.hotstuffNewViewed cfg t me m).1.Tally cfg.nf me m.hash := by
  have hseed : (t.seedVotes me).Tally cfg.nf me m.hash := by
    have hof : (t.seedVotes me).votersOf m.hash = t.votersOf m.hash := by
      rw [votersOf, seedVotes_hashVoters, votersOf]
    refine ⟨?_, ?_, ?_, ?_, fun x hx => ?_⟩
    · rw [seedVotes_newViewVoteCnt, hof, ht.count]
    · rw [seedVotes_newViewed, hof, ht.viewed]
    · rw [hof]
      exact ht.nodup
    · rw [seedVotes_syncSent, hof, ht.own]
    · rw [hof, seedVotes_heard t hx, ht.heard x hx]
  have hshare : ((t.seedVotes me).storeShare m.returnNodeId m.hash m.sigShare).Tally cfg.nf me m.hash :=
    hseed.congr (by simp [votes])
  simp only [Replica.hotstuffNewViewed]
  split_ifs with hviewed hold hq
  · exact ht
  · exact hseed
  all_goals
    have hnode : m.returnNodeId ∉
        ((t.seedVotes me).storeShare m.returnNodeId m.hash m.sigShare).votersOf m.hash := by
      rw [hshare.heard _ hm, storeShare_voteNewView]
      exact hold
    have hheard : ∀ l : List ℕ, ∀ x, x ≠ me → (x ∈ l ++ [m.returnNodeId] ↔ x ∈ l ∨ x = m.returnNodeId) := by simp
  · refine hshare.push hnode rfl rfl ?_ ?_ (hheard _)
    · exact iff_of_true rfl (.inr hq)
    · exact (or_iff_left hm).symm
  · refine hshare.push hnode rfl rfl ?_ ?_ (hheard _)
    · exact (or_iff_left hq).symm
    · exact (or_iff_left hm).symm

end TxnManager

namespace Replica

variable {cfg : Config} {crypto : Crypto} {P : Msg → Prop} {Q : ℕ → Prop} {B : ℕ → ClientQueryBatch → Prop}
  {r₀ r s : Replica} {w i : ℕ}

inductive SlotMove (cfg : Config) (P : Msg → Prop) (w i : ℕ) (r s : Replica) : Prop
  | keeps (h : (s.table (cfg.lastTxn w i)).votes = (r.table (cfg.lastTxn w i)).votes)
  | casts {qc : QuorumCertificate} (hsent : (r.table (cfg.lastTxn w i)).syncSent = false)
      (hg : (r.table (cfg.lastTxn w i)).genericReceived = true) (h : s.table (cfg.lastTxn w i) =
        castVote cfg { r.table (cfg.lastTxn w i) with genericQC := qc, syncSent := true } r.nodeId)
  | counts {m : SyncMsg} (hm : P (.sync m)) (hid : m.txnId = cfg.lastTxn w i)
      (h : s.table (cfg.lastTxn w i) = (hotstuffNewViewed cfg (r.table (cfg.lastTxn w i)) r.nodeId m).1)
  | recycles (hindex : cfg.lastTxn w i < r.exec.nextIndex) (h : (s.table (cfg.lastTxn w i)).Recycled)

lemma SlotMove.of_update {id : ℕ} {t : TxnManager} (htable : s.table = Function.update r.table id t)
    (ht : t.votes = (r.table id).votes) : SlotMove cfg P w i r s := by
  refine .keeps ?_
  rw [htable, Function.update_apply]
  split_ifs with hid
  · rw [hid, ht]
  · rfl

lemma SlotMove.of_hashes {v j : ℕ} {hash : Bytes} (h : Hashes cfg v j hash r.table s.table)
    (hi : i < cfg.totInstances) : SlotMove cfg P w i r s := by
  refine .keeps ?_
  by_cases hwi : (w, i) = (v, j)
  · obtain ⟨rfl, rfl⟩ := Prod.mk.inj hwi
    obtain ⟨_, _, _, _, heq⟩ := h.last
    rw [heq]
    rfl
  · rw [h.others w i hi hwi]

lemma Steady.slotMove {p : ℕ} (h₀ : Steady cfg r₀) (hP : ∀ m, P m → Msg.Peer cfg p m)
    (hm : Move cfg crypto P Q B r₀ r s) (hi : i < cfg.totInstances) : SlotMove cfg P w i r s := by
  cases hm with
  | idle hidle => exact .keeps (by rw [hidle.table])
  | proposal hm _ hacc =>
    have hpeer := hP _ hm
    exact .of_hashes (storeProposal_hashes hpeer.named hpeer.wellFormed hacc) hi
  | @generic _ m =>
    refine .of_update storeGeneric_lockGeneric_table ?_
    simp only [acceptGeneric]
    split_ifs <;> rfl
  | @vote _ id hsame hindex hfresh hg =>
    rcases sendHotstuffNewview_cases cfg crypto r id with ⟨_, heq⟩ | ⟨hsent, hc⟩
    · exact .keeps (by rw [heq])
    · by_cases hid : cfg.lastTxn w i = id
      · subst hid
        exact .casts hsent hg (by rw [hc.table, Function.update_self])
      · exact .keeps (by rw [hc.table, Function.update_of_ne hid])
  | @count m hm =>
    by_cases hid : m.txnId = cfg.lastTxn w i
    · refine .counts hm hid ?_
      rw [countVote_table, hid, Function.update_self]
    · exact .keeps (by rw [countVote_table, Function.update_of_ne (Ne.symm hid)])
  | advance _ _ _ ha => exact .of_update (advanceView_table ha) rfl
  | @batch slot batch table _ hpc hfill =>
    refine .of_hashes (storeBatch_hashes h₀.alloc hpc ?_ hfill) hi
    exact h₀.fed.inHand _ (by rw [hpc]; exact List.mem_singleton_self _)
  | @announce _ id => exact .of_update (rfl : _ = Function.update r.table id _) rfl
  | execute => exact .keeps rfl
  | @recycle id t hindex ht =>
    by_cases hid : cfg.lastTxn w i = id
    · refine .recycles (by omega) ?_
      rw [setTxn_table, hid, Function.update_self]
      exact ht
    · exact .keeps (by rw [setTxn_table, Function.update_of_ne hid])

end Replica

end SpotLess
