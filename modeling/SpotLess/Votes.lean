import SpotLess.Effects

namespace SpotLess

open Lib

namespace TxnManager

lemma votersOf_pushVoter (t : TxnManager) (hash h : Bytes) (node : ℕ) :
    (t.pushVoter hash node).votersOf h = if h = hash then t.votersOf hash ++ [node] else t.votersOf h := by
  simp only [votersOf, pushVoter, UMap.get_insert]

structure VoteInv (cfg : Config) (me : ℕ) (t : TxnManager) : Prop where
  nodup : ∀ h, (t.votersOf h).Nodup
  known : ∀ h, ∀ s ∈ t.votersOf h, s < cfg.nodeCnt
  silent : t.syncSent = false → ∀ h, me ∉ t.votersOf h
  heard : ∀ h, ∀ s ∈ t.votersOf h, s ≠ me → s ∈ t.voteNewView
  bound : ∀ h, (t.votersOf h).length ≤ t.newViewVoteCnt
  below : t.newViewed = false → t.newViewVoteCnt < cfg.nf
  agreed : t.newViewed = true → t.hash ≠ [] → cfg.nf ≤ (t.votersOf t.hash).length

variable {cfg : Config} {me : ℕ} {t : TxnManager}

lemma voteInv_of_recycled (h : t.Recycled) : VoteInv cfg me t := by
  have hvoters : ∀ hash, t.votersOf hash = [] := by
    intro hash
    have hempty : t.hashVoters = ∅ := AList.ext h.hashVoters
    rw [votersOf, hempty]
    rfl
  constructor
  · intro hash
    rw [hvoters]
    exact List.nodup_nil
  · intro hash s hs
    rw [hvoters] at hs
    cases hs
  · intro _ hash
    rw [hvoters]
    exact List.not_mem_nil
  · intro hash s hs
    rw [hvoters] at hs
    cases hs
  · intro hash
    rw [hvoters]
    exact Nat.zero_le _
  · intro _
    rw [h.newViewVoteCnt]
    exact cfg.nf_pos
  · intro hn
    rw [h.newViewed] at hn
    cases hn

lemma pushVoter_nodup (h : VoteInv cfg me t) {hash : Bytes} {node : ℕ} (hnode : node ∉ t.votersOf hash) (h' : Bytes) :
    ((t.pushVoter hash node).votersOf h').Nodup := by
  rw [votersOf_pushVoter]
  split_ifs
  · rw [List.nodup_append]
    refine ⟨h.nodup hash, List.nodup_singleton node, ?_⟩
    intro a ha b hb hab
    rw [hab, List.mem_singleton.mp hb] at ha
    exact hnode ha
  · exact h.nodup h'

lemma pushVoter_bound (h : VoteInv cfg me t) (hash : Bytes) (node : ℕ) (h' : Bytes) :
    ((t.pushVoter hash node).votersOf h').length ≤ (t.pushVoter hash node).newViewVoteCnt := by
  rw [votersOf_pushVoter]
  split_ifs
  · exact le_max_right _ _
  · exact (h.bound h').trans (le_max_left _ _)

lemma pushVoter_reached (h : VoteInv cfg me t) (hn : t.newViewed = false) {hash : Bytes} {node : ℕ}
    (hc : (t.pushVoter hash node).newViewVoteCnt = cfg.nf) :
    cfg.nf ≤ ((t.pushVoter hash node).votersOf hash).length := by
  have hlt := h.below hn
  rw [votersOf_pushVoter, if_pos rfl]
  have hmax : max t.newViewVoteCnt (t.votersOf hash ++ [node]).length = cfg.nf := hc
  omega

lemma pushVoter_below (h : VoteInv cfg me t) (hn : t.newViewed = false) {hash : Bytes} {node : ℕ}
    (hc : (t.pushVoter hash node).newViewVoteCnt ≠ cfg.nf) : (t.pushVoter hash node).newViewVoteCnt < cfg.nf := by
  have hlt := h.below hn
  have hb := h.bound hash
  have hmax : (t.pushVoter hash node).newViewVoteCnt =
      max t.newViewVoteCnt (t.votersOf hash ++ [node]).length := rfl
  rw [List.length_append, List.length_singleton] at hmax
  omega

lemma mem_seedVotes (t : TxnManager) (me : ℕ) {s : ℕ} (hs : s ∈ t.voteNewView) :
    s ∈ (t.seedVotes me).voteNewView := by
  simp only [seedVotes]
  split_ifs with h
  · rw [h] at hs
    cases hs
  · exact hs

lemma voteInv_seed_share (h : VoteInv cfg me t) (node : ℕ) (hash : Bytes) (share : Option Bytes) :
    VoteInv cfg me ((t.seedVotes me).storeShare node hash share) := by
  have heq : ∀ h', ((t.seedVotes me).storeShare node hash share).votersOf h' = t.votersOf h' := fun h' => by
    rw [votersOf, storeShare_hashVoters, seedVotes_hashVoters, votersOf]
  constructor
  · intro h'
    rw [heq]
    exact h.nodup h'
  · intro h'
    rw [heq]
    exact h.known h'
  · intro hs h'
    rw [heq]
    exact h.silent (by simpa using hs) h'
  · intro h' s hs hne
    rw [heq] at hs
    rw [storeShare_voteNewView]
    exact t.mem_seedVotes me (h.heard h' s hs hne)
  · intro h'
    rw [heq, storeShare_newViewVoteCnt, seedVotes_newViewVoteCnt]
    exact h.bound h'
  · intro hn
    rw [storeShare_newViewVoteCnt, seedVotes_newViewVoteCnt]
    exact h.below (by simpa using hn)
  · intro hn hh
    rw [storeShare_newViewed, seedVotes_newViewed] at hn
    rw [storeShare_hash, seedVotes_hash] at hh ⊢
    rw [heq]
    exact h.agreed hn hh

lemma VoteInv.congr {t' : TxnManager} (h : VoteInv cfg me t) (hvoters : t'.hashVoters = t.hashVoters)
    (hvotes : t'.voteNewView = t.voteNewView) (hcnt : t'.newViewVoteCnt = t.newViewVoteCnt)
    (hviewed : t'.newViewed = t.newViewed) (hsent : t'.syncSent = t.syncSent)
    (hhash : t.newViewed = true → t'.hash ≠ [] → t'.hash = t.hash ∨ cfg.nf ≤ (t.votersOf t'.hash).length) :
    VoteInv cfg me t' := by
  have heq : ∀ h', t'.votersOf h' = t.votersOf h' := fun h' => by rw [votersOf, hvoters, votersOf]
  constructor
  · intro h'
    rw [heq]
    exact h.nodup h'
  · intro h'
    rw [heq]
    exact h.known h'
  · intro hs h'
    rw [heq]
    exact h.silent (hsent ▸ hs) h'
  · intro h' s hs hne
    rw [heq] at hs
    rw [hvotes]
    exact h.heard h' s hs hne
  · intro h'
    rw [heq, hcnt]
    exact h.bound h'
  · intro hn
    rw [hcnt]
    exact h.below (hviewed ▸ hn)
  · intro hn hh
    rw [hviewed] at hn
    rw [heq]
    rcases hhash hn hh with he | he
    · rw [he] at hh ⊢
      exact h.agreed hn hh
    · exact he

end TxnManager

namespace Replica

open TxnManager

variable {cfg : Config} {me : ℕ} {t : TxnManager}

lemma voteInv_pushed (h : VoteInv cfg me t) {t' : TxnManager} {hash : Bytes} {node : ℕ}
    (hnode : node ∉ t.votersOf hash) (hlt : node < cfg.nodeCnt)
    (hvoters : t'.hashVoters = (t.pushVoter hash node).hashVoters)
    (hcnt : t'.newViewVoteCnt = (t.pushVoter hash node).newViewVoteCnt) (hhash : t'.hash = t.hash)
    (hsilent : t'.syncSent = false → t.syncSent = false ∧ node ≠ me)
    (hheard : ∀ s ∈ t.voteNewView, s ∈ t'.voteNewView) (hnew : node ≠ me → node ∈ t'.voteNewView)
    (hbelow : t'.newViewed = false → t.newViewed = false ∧ t'.newViewVoteCnt ≠ cfg.nf)
    (hagreed : t'.newViewed = true → t.newViewed = true ∨ t'.newViewVoteCnt = cfg.nf)
    (hsame : t.hash ≠ [] → t.hash = hash) : VoteInv cfg me t' := by
  have heq : ∀ h', t'.votersOf h' = (t.pushVoter hash node).votersOf h' := fun h' => by
    rw [votersOf, hvoters, votersOf]
  rw [hcnt] at hbelow hagreed
  constructor
  · intro h'
    rw [heq]
    exact pushVoter_nodup h hnode h'
  · intro h' s hmem
    rw [heq, votersOf_pushVoter] at hmem
    split_ifs at hmem
    · rcases List.mem_append.mp hmem with hmem | hmem
      · exact h.known hash s hmem
      · exact List.mem_singleton.mp hmem ▸ hlt
    · exact h.known h' s hmem
  · intro hs h' hmem
    obtain ⟨hs, hne⟩ := hsilent hs
    rw [heq, votersOf_pushVoter] at hmem
    split_ifs at hmem
    · rcases List.mem_append.mp hmem with hmem | hmem
      · exact h.silent hs hash hmem
      · exact hne (List.mem_singleton.mp hmem).symm
    · exact h.silent hs h' hmem
  · intro h' s hmem hne
    rw [heq, votersOf_pushVoter] at hmem
    split_ifs at hmem
    · rcases List.mem_append.mp hmem with hmem | hmem
      · exact hheard s (h.heard hash s hmem hne)
      · rw [List.mem_singleton.mp hmem] at hne ⊢
        exact hnew hne
    · exact hheard s (h.heard h' s hmem hne)
  · intro h'
    rw [heq, hcnt]
    exact pushVoter_bound h hash node h'
  · intro hn
    obtain ⟨hn, hc⟩ := hbelow hn
    rw [hcnt]
    exact pushVoter_below h hn hc
  · intro hn hh
    rw [hhash] at hh
    rw [heq, hhash, hsame hh]
    cases hviewed : t.newViewed with
    | true =>
      rw [votersOf_pushVoter, if_pos rfl, List.length_append, ← hsame hh]
      exact (h.agreed hviewed hh).trans (Nat.le_add_right _ _)
    | false =>
      rcases hagreed hn with hv | hc
      · rw [hviewed] at hv
        cases hv
      · exact pushVoter_reached h hviewed hc

lemma voteInv_castVote (h : VoteInv cfg me t) (hme : me < cfg.nodeCnt) (hs : t.syncSent = false)
    (qc : QuorumCertificate) :
    VoteInv cfg me (castVote cfg { t with genericQC := qc, syncSent := true } me) := by
  simp only [castVote]
  split_ifs with hq
  · exact voteInv_pushed h (h.silent hs t.hash) hme rfl rfl rfl (by simp [TxnManager.pushVoter]) (fun s hs => hs) (fun hne => absurd rfl hne)
      (by simp) (fun _ => Or.inr hq) (fun _ => rfl)
  · exact voteInv_pushed h (h.silent hs t.hash) hme rfl rfl rfl (by simp [TxnManager.pushVoter]) (fun s hs => hs) (fun hne => absurd rfl hne)
      (fun hn => ⟨hn, hq⟩) Or.inl (fun _ => rfl)

lemma voteInv_hotstuffNewViewed (h : VoteInv cfg me t) {m : SyncMsg} (hm : m.returnNodeId ≠ me)
    (hlt : m.returnNodeId < cfg.nodeCnt) (hh : t.hash = [] ∨ t.hash = m.hash) : VoteInv cfg me (hotstuffNewViewed cfg t me m).1 := by
  have hshare := voteInv_seed_share h m.returnNodeId m.hash m.sigShare
  simp only [hotstuffNewViewed]
  split_ifs with hviewed hold hq
  · exact h
  · exact voteInv_seed_share h m.returnNodeId m.hash none
  all_goals
    rw [Bool.not_eq_true] at hviewed
    have hnode : m.returnNodeId ∉
        ((t.seedVotes me).storeShare m.returnNodeId m.hash m.sigShare).votersOf m.hash := by
      intro hmem
      have hin := hshare.heard m.hash _ hmem hm
      rw [storeShare_voteNewView] at hin
      exact hold hin
    have hmine : ((t.seedVotes me).storeShare m.returnNodeId m.hash m.sigShare).hash ≠ [] →
        ((t.seedVotes me).storeShare m.returnNodeId m.hash m.sigShare).hash = m.hash := by
      intro hne
      rw [storeShare_hash, seedVotes_hash] at hne ⊢
      exact hh.resolve_left hne
  · exact voteInv_pushed hshare hnode hlt rfl rfl rfl (fun hs => ⟨hs, hm⟩)
      (fun s hs => List.mem_append_left _ hs) (fun _ => List.mem_append_right _ (List.mem_singleton_self _))
      (by simp) (fun _ => Or.inr hq) hmine
  · exact voteInv_pushed hshare hnode hlt rfl rfl rfl (fun hs => ⟨hs, hm⟩)
      (fun s hs => List.mem_append_left _ hs) (fun _ => List.mem_append_right _ (List.mem_singleton_self _))
      (fun hn => ⟨hn, hq⟩) Or.inl hmine

lemma hotstuffNewViewed_newViewed {m : SyncMsg} (h : (hotstuffNewViewed cfg t me m).2 = true) :
    (hotstuffNewViewed cfg t me m).1.newViewed = true := by
  simp only [hotstuffNewViewed] at h ⊢
  split_ifs at h ⊢
  rfl

lemma hotstuffNewViewed_fresh {m : SyncMsg} (h : (hotstuffNewViewed cfg t me m).2 = true) : t.newViewed = false := by
  simp only [hotstuffNewViewed] at h
  split_ifs at h with hn
  exact Bool.not_eq_true _ ▸ hn

end Replica

def Obs.NoCertificate : Obs → Prop
  | .advanced _ _ _ _ _ => False
  | _ => True

lemma Obs.FromChain.noCertificate {o : Obs} (h : o.FromChain) : o.NoCertificate := by
  cases o <;> trivial

namespace Replica

open TxnManager

variable {cfg : Config} {crypto : Crypto} {r s : Replica}

structure Counted (cfg : Config) (r : Replica) : Prop where
  votes : ∀ id, VoteInv cfg r.nodeId (r.table id)
  built : ∀ i v id qc voters, .advanced i v id qc voters ∈ r.trace →
    voters.Nodup ∧ (∀ s ∈ voters, s < cfg.nodeCnt) ∧ cfg.nf ≤ voters.length

lemma Counted.frame (h : Counted cfg r) (hnode : s.nodeId = r.nodeId)
    (hvotes : ∀ id, VoteInv cfg r.nodeId (s.table id))
    (htrace : ∃ l, s.trace = r.trace ++ l ∧ ∀ o ∈ l, o.NoCertificate) : Counted cfg s where
  votes id := by
    rw [hnode]
    exact hvotes id
  built i v id qc voters hmem := by
    obtain ⟨l, hl, hlo⟩ := htrace
    rw [hl] at hmem
    rcases List.mem_append.mp hmem with hmem | hmem
    · exact h.built i v id qc voters hmem
    · exact (hlo _ hmem).elim

lemma Counted.setTxn (h : Counted cfg r) {id : ℕ} {t : TxnManager} (ht : VoteInv cfg r.nodeId t) :
    Counted cfg (r.setTxn id t) := by
  refine h.frame rfl (fun k => ?_) ⟨[], by simp⟩
  by_cases hk : k = id
  · subst hk
    simpa using ht
  · simpa [Function.update_of_ne hk] using h.votes k

lemma Counted.setInst (h : Counted cfg r) (i : ℕ) (x : Instance) : Counted cfg (r.setInst i x) :=
  ⟨h.votes, h.built⟩

lemma Counted.advanceView (h : Counted cfg r) {id : ℕ} (hn : (r.table id).newViewed = true)
    (ha : r.advanceView cfg id = some s) : Counted cfg s := by
  obtain ⟨hh, _, _⟩ := advanceView_eq ha
  obtain ⟨l, hl, hlo⟩ := advanceView_trace ha
  have hnode := ((Handled.refl r).advanceView ha).nodeId
  constructor
  · intro k
    rw [hnode, advanceView_table ha]
    by_cases hk : k = id
    · subst hk
      rw [Function.update_self]
      exact (h.votes k).congr rfl rfl rfl rfl rfl (fun _ _ => Or.inl rfl)
    · rw [Function.update_of_ne hk]
      exact h.votes k
  · intro i v k qc voters hmem
    rw [hl] at hmem
    rcases List.mem_append.mp hmem with hmem | hmem
    · exact h.built i v k qc voters hmem
    · rcases List.mem_cons.mp hmem with heq | hmem
      · obtain ⟨_, _, _, _, rfl⟩ := Obs.advanced.inj heq
        exact ⟨(h.votes id).nodup _, (h.votes id).known _, (h.votes id).agreed hn hh⟩
      · exact (hlo _ hmem).noCertificate.elim

lemma Counted.sendHotstuffNewview (h : Counted cfg r) (hr : r.nodeId < cfg.nodeCnt) (id : ℕ) :
    Counted cfg (r.sendHotstuffNewview cfg crypto id) := by
  rcases sendHotstuffNewview_cases cfg crypto r id with ⟨_, heq⟩ | ⟨hs, hc⟩
  · rw [heq]
    exact h
  · refine h.frame ((Handled.refl r).sendHotstuffNewview cfg crypto id).nodeId (fun k => ?_)
      ⟨_, hc.trace, by simp [Obs.NoCertificate]⟩
    rw [hc.table]
    by_cases hk : k = id
    · subst hk
      rw [Function.update_self]
      exact voteInv_castVote (h.votes k) hr hs _
    · rw [Function.update_of_ne hk]
      exact h.votes k

lemma Counted.updateLockQC (h : Counted cfg r) (qc : QuorumCertificate) (view txnid i : ℕ) :
    Counted cfg (r.updateLockQC cfg qc view txnid i) := by
  obtain ⟨l, hl, hlo⟩ := r.updateLockQC_trace cfg qc view txnid i
  refine h.frame (updateLockQC_nodeId ..) (fun k => ?_) ⟨l, hl, fun o ho => (hlo o ho).noCertificate⟩
  rw [updateLockQC_table]
  exact h.votes k

end Replica

end SpotLess
