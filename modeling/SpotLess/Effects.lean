import SpotLess.Frames

namespace SpotLess

def Obs.FromChain : Obs → Prop
  | .committed _ _ _ _ | .executeSent _ _ => True
  | _ => False

namespace Replica

open Lib

variable (cfg : Config) (crypto : Crypto) (r : Replica)

section Chain

variable (qc : QuorumCertificate) (view txnid i id : ℕ)

@[simp] lemma updateLockQC_table : (r.updateLockQC cfg qc view txnid i).table = r.table := by
  simp only [updateLockQC]
  split_ifs <;> rfl

@[simp] lemma updateLockQC_out : (r.updateLockQC cfg qc view txnid i).out = r.out := by
  simp only [updateLockQC]
  split_ifs <;> rfl

@[simp] lemma updateLockQC_sems : (r.updateLockQC cfg qc view txnid i).sems = r.sems := by
  simp only [updateLockQC]
  split_ifs <;> rfl

@[simp] lemma updateLockQC_nodeId : (r.updateLockQC cfg qc view txnid i).nodeId = r.nodeId := by
  simp only [updateLockQC]
  split_ifs <;> rfl

lemma updateLockQC_inst_of_ne {j : ℕ} (hj : j ≠ i) : (r.updateLockQC cfg qc view txnid i).inst j = r.inst j := by
  simp only [updateLockQC]
  split_ifs
  · simp [commit, enqueueExecutes, Function.update_of_ne hj]
  · simp [Function.update_of_ne hj]

lemma updateLockQC_trace :
    ∃ l, (r.updateLockQC cfg qc view txnid i).trace = r.trace ++ l ∧ ∀ o ∈ l, o.FromChain := by
  simp only [updateLockQC]
  split_ifs
  · refine ⟨_, List.append_assoc _ _ _, ?_⟩
    intro o ho
    rcases List.mem_append.mp ho with ho | ho
    · rw [List.mem_singleton.mp ho]
      trivial
    · obtain ⟨k, _, rfl⟩ := List.mem_map.mp ho
      trivial
  · exact ⟨[], by simp⟩

@[simp] lemma enterView_table : (r.enterView cfg i view id).table = r.table := by
  simp only [enterView]
  split_ifs <;> rfl

@[simp] lemma enterView_trace : (r.enterView cfg i view id).trace = r.trace := by
  simp only [enterView]
  split_ifs <;> rfl

@[simp] lemma enterView_out : (r.enterView cfg i view id).out = r.out := by
  simp only [enterView]
  split_ifs <;> rfl

lemma enterView_inst_of_ne {j : ℕ} (hj : j ≠ i) : (r.enterView cfg i view id).inst j = r.inst j := by
  simp only [enterView]
  split_ifs <;> simp [setCurrNewViewed, setView, postPrimary, Function.update_of_ne hj]

end Chain

section Advance

variable {cfg r} {s : Replica} {id : ℕ}

lemma advanceView_table (h : r.advanceView cfg id = some s) :
    s.table = Function.update r.table id
      { r.table id with genericQC := genericQCOf (r.table id) (r.inst (r.table id).instanceId).view } := by
  obtain ⟨_, _, rfl⟩ := advanceView_eq h
  simp [installQC]

lemma advanceView_out (h : r.advanceView cfg id = some s) : s.out = r.out := by
  obtain ⟨_, _, rfl⟩ := advanceView_eq h
  simp [installQC]

lemma advanceView_trace (h : r.advanceView cfg id = some s) :
    let t := r.table id
    let v := (r.inst t.instanceId).view
    ∃ l, s.trace = r.trace ++ .advanced t.instanceId v id (genericQCOf t v) (t.votersOf t.hash) :: l ∧
      ∀ o ∈ l, o.FromChain := by
  obtain ⟨_, _, rfl⟩ := advanceView_eq h
  obtain ⟨l, hl, hlo⟩ := (r.installQC id).updateLockQC_trace cfg
    (genericQCOf (r.table id) (r.inst (r.table id).instanceId).view) ((r.inst (r.table id).instanceId).view + 1) id
    (r.table id).instanceId
  refine ⟨l, ?_, hlo⟩
  rw [enterView_trace, hl]
  simp [installQC]

end Advance

section Vote

variable (id : ℕ)

def ownShare : QuorumCertificate :=
  let t := r.table id
  let share := crypto.ecdsaSign r.nodeId (signedDigest crypto t.hash t.highQC)
  if r.nodeId = cfg.getViewPrimary ((r.inst t.instanceId).view + 1) t.instanceId then
    { t.genericQC with signatureShareMap := t.genericQC.signatureShareMap.insert r.nodeId share }
  else t.genericQC

structure CastsVote (s : Replica) : Prop where
  table : s.table = Function.update r.table id
    (castVote cfg { r.table id with genericQC := r.ownShare cfg crypto id, syncSent := true } r.nodeId)
  inst : s.inst = r.inst
  trace : s.trace = r.trace ++ [.voted (r.table id).instanceId id (r.table id).hash]
  sems : s.sems = r.sems
  exec : s.exec = r.exec
  out : ∃ l, s.out = r.out ++ l ∧ ∀ e ∈ l, e.1 ∈ r.others cfg ∧ ∃ share, e.2 = .sync (r.syncOf id share)

lemma mem_others {d : ℕ} : d ∈ r.others cfg ↔ d < cfg.nodeCnt ∧ d ≠ r.nodeId := by
  simp [others]

lemma others_nodup : (r.others cfg).Nodup := List.nodup_range.filter _

lemma sendHotstuffNewview_cases :
    ((r.table id).syncSent = true ∧ r.sendHotstuffNewview cfg crypto id = r) ∨
      ((r.table id).syncSent = false ∧ CastsVote cfg crypto r id (r.sendHotstuffNewview cfg crypto id)) := by
  simp only [sendHotstuffNewview]
  split_ifs with hs hd
  · exact Or.inl ⟨hs, rfl⟩
  · refine Or.inr ⟨by simpa using hs, ⟨?_, rfl, rfl, rfl, rfl, ⟨_, rfl, ?_⟩⟩⟩
    · simp [ownShare, hd]
    · intro e he
      obtain ⟨d, hmem, rfl⟩ := List.mem_map.mp he
      exact ⟨List.mem_of_mem_filter hmem, none, rfl⟩
  · refine Or.inr ⟨by simpa using hs, ⟨?_, rfl, rfl, rfl, rfl, ⟨_, List.append_assoc _ _ _, ?_⟩⟩⟩
    · simp [ownShare, hd]
    · intro e he
      rcases List.mem_append.mp he with he | he
      · obtain ⟨d, hmem, rfl⟩ := List.mem_map.mp he
        rw [List.mem_singleton.mp hmem]
        exact ⟨(mem_others cfg r).mpr ⟨cfg.getViewPrimary_lt _ _, Ne.symm hd⟩, _, rfl⟩
      · obtain ⟨d, hmem, rfl⟩ := List.mem_map.mp he
        exact ⟨List.mem_of_mem_filter hmem, none, rfl⟩

variable {cfg} in
lemma hotstuffNewViewed_eq (t : TxnManager) (me : ℕ) (m : SyncMsg) :
    ∃ viewed cnt votes voters qc, (hotstuffNewViewed cfg t me m).1 = { t with
      newViewed := viewed, newViewVoteCnt := cnt, voteNewView := votes, hashVoters := voters, genericQC := qc } := by
  have hseed : ∃ votes, t.seedVotes me = { t with voteNewView := votes } := by
    simp only [TxnManager.seedVotes]
    split_ifs
    · exact ⟨_, rfl⟩
    · exact ⟨t.voteNewView, rfl⟩
  have hshare : ∀ t : TxnManager, ∃ qc, t.storeShare m.returnNodeId m.hash m.sigShare = { t with genericQC := qc } := by
    intro t
    simp only [TxnManager.storeShare]
    split
    · split_ifs
      · exact ⟨_, rfl⟩
      · exact ⟨t.genericQC, rfl⟩
    · exact ⟨t.genericQC, rfl⟩
  obtain ⟨votes, hv⟩ := hseed
  obtain ⟨qc, hq⟩ := hshare (t.seedVotes me)
  simp only [hotstuffNewViewed]
  split_ifs
  · exact ⟨t.newViewed, t.newViewVoteCnt, t.voteNewView, t.hashVoters, t.genericQC, rfl⟩
  · rw [hv]
    exact ⟨_, _, _, _, _, rfl⟩
  · rw [hq, hv]
    exact ⟨_, _, _, _, _, rfl⟩
  · rw [hq, hv]
    exact ⟨_, _, _, _, _, rfl⟩

variable {cfg} in
lemma castVote_eq (t : TxnManager) (me : ℕ) :
    ∃ viewed cnt voters, castVote cfg t me = { t with
      newViewed := viewed, newViewVoteCnt := cnt, hashVoters := voters } := by
  simp only [castVote]
  split_ifs
  · exact ⟨_, _, _, rfl⟩
  · exact ⟨_, _, _, rfl⟩

end Vote

section Fill

variable {cfg}

structure Filled (returnId view i : ℕ) (t t' : TxnManager) : Prop where
  eq : ∃ client ts reqs, t' = { t with
    returnId := returnId, view := view, instanceId := i, clientId := client, clientStartts := ts, requests := reqs }

lemma initTxnMan_filled {t t' : TxnManager} {qry : ClientQuery} {returnId view i : ℕ}
    (h : ({ t with returnId := returnId, view := view, instanceId := i } : TxnManager).initTxnMan cfg qry = some t') :
    Filled returnId view i t t' := by
  simp only [TxnManager.initTxnMan] at h
  split_ifs at h
  obtain rfl := Option.some.inj h
  exact ⟨_, _, _, rfl⟩

lemma fillManagers_of_notMem {table table' : ℕ → TxnManager} {returnId view i : ℕ} {l : List (ℕ × ClientQuery)}
    (h : fillManagers cfg table returnId view i l = some table') {id : ℕ} (hid : id ∉ l.map Prod.fst) :
    table' id = table id := by
  induction l generalizing table with
  | nil => exact congrFun (Option.some.inj h).symm id
  | cons p l ih =>
    simp only [fillManagers] at h
    rw [List.map_cons, List.mem_cons, not_or] at hid
    split at h
    · rw [ih h hid.2, Function.update_of_ne hid.1]
    · cases h

lemma fillManagers_cases {table table' : ℕ → TxnManager} {returnId view i : ℕ} {l : List (ℕ × ClientQuery)}
    (h : fillManagers cfg table returnId view i l = some table') (id : ℕ) :
    table' id = table id ∨ Filled returnId view i (table id) (table' id) := by
  induction l generalizing table with
  | nil => exact Or.inl (congrFun (Option.some.inj h).symm id)
  | cons p l ih =>
    simp only [fillManagers] at h
    split at h
    · rename_i t ht
      have hfill := initTxnMan_filled ht
      rcases ih h with hid | ⟨c, ts, reqs, hid⟩
      · rw [hid]
        by_cases hp : id = p.1
        · subst hp
          rw [Function.update_self]
          exact Or.inr hfill
        · rw [Function.update_of_ne hp]
          exact Or.inl rfl
      · by_cases hp : id = p.1
        · subst hp
          rw [Function.update_self] at hid
          obtain ⟨_, _, _, rfl⟩ := hfill
          exact Or.inr ⟨c, ts, reqs, hid⟩
        · rw [Function.update_of_ne hp] at hid
          exact Or.inr ⟨c, ts, reqs, hid⟩
    · cases h

lemma fillManagers_of_mem {table table' : ℕ → TxnManager} {returnId view i : ℕ} {l : List (ℕ × ClientQuery)}
    (h : fillManagers cfg table returnId view i l = some table') {id : ℕ} (hid : id ∈ l.map Prod.fst) :
    Filled returnId view i (table id) (table' id) := by
  induction l generalizing table with
  | nil => cases hid
  | cons p l ih =>
    simp only [fillManagers] at h
    split at h
    · rename_i t ht
      have hfill := initTxnMan_filled ht
      by_cases hp : id = p.1
      · subst hp
        rcases fillManagers_cases h p.1 with hid | ⟨c, ts, reqs, hid⟩
        · rw [hid, Function.update_self]
          exact hfill
        · rw [Function.update_self] at hid
          obtain ⟨_, _, _, rfl⟩ := hfill
          exact ⟨c, ts, reqs, hid⟩
      · rw [List.map_cons, List.mem_cons] at hid
        have hrest := ih h (hid.resolve_left hp)
        rwa [Function.update_of_ne hp] at hrest
    · cases h

end Fill

end Replica

end SpotLess
