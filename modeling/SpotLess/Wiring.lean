import SpotLess.Slots
import SpotLess.System

namespace SpotLess

open Lib

namespace Replica

variable {cfg : Config} {crypto : Crypto} {r s : Replica}

def queues (r : Replica) (i : ℕ) : List GenericMsg := (r.inst i).priorQueue ++ (r.inst i).tempQueue

def Foreign (cfg : Config) (r : Replica) (m : Msg) : Prop :=
  m.WellFormed cfg ∧ m.returnNodeId ≠ r.nodeId ∧ m.returnNodeId < cfg.nodeCnt

structure Wired (cfg : Config) (r : Replica) : Prop where
  node : r.nodeId < cfg.nodeCnt
  insts : ∀ id, (r.table id).instanceId < cfg.totInstances
  out : ∀ e ∈ r.out, e.2.WellFormed cfg ∧ e.2.returnNodeId = r.nodeId ∧ e.1 ≠ r.nodeId ∧ e.1 < cfg.nodeCnt
  parked : ∀ i, ∀ m ∈ r.queues i, m.instanceId = i ∧ Foreign cfg r (.generic m)

section Queues

variable (cfg r)

lemma updateQCs_queues (x : Instance) (qc : QuorumCertificate) (view : ℕ) :
    (x.updateQCs qc view).priorQueue = x.priorQueue ∧ (x.updateQCs qc view).tempQueue = x.tempQueue := by
  simp only [Instance.updateQCs, Instance.setPreparedQC, Instance.setLockedQC]
  split_ifs <;> exact ⟨rfl, rfl⟩

lemma executeParents_queues (fuel : ℕ) (x : Instance) (qc : QuorumCertificate) :
    (Instance.executeParents fuel x qc).1.priorQueue = x.priorQueue ∧
      (Instance.executeParents fuel x qc).1.tempQueue = x.tempQueue := by
  induction fuel generalizing x qc with
  | zero => exact ⟨rfl, rfl⟩
  | succ fuel ih =>
    simp only [Instance.executeParents]
    split_ifs
    · exact ih _ _
    · exact ⟨rfl, rfl⟩

lemma sendExecuteMsg_queues (x : Instance) (t : TxnManager) (id : ℕ) :
    (x.sendExecuteMsg t id).1.priorQueue = x.priorQueue ∧ (x.sendExecuteMsg t id).1.tempQueue = x.tempQueue := by
  simp only [Instance.sendExecuteMsg, Instance.walkParents]
  split_ifs
  · exact executeParents_queues _ _ _
  · exact ⟨rfl, rfl⟩

lemma updateLockQC_queues (qc : QuorumCertificate) (view txnid i j : ℕ) :
    (r.updateLockQC cfg qc view txnid i).queues j = r.queues j := by
  by_cases hj : j = i
  · subst hj
    simp only [updateLockQC, queues]
    split_ifs
    · simp only [commit, enqueueExecutes, observe_inst, setInst_inst, Function.update_self, setInst_table]
      rw [(sendExecuteMsg_queues _ _ _).1, (sendExecuteMsg_queues _ _ _).2]
      simp only [Instance.markCommit]
      rw [(updateQCs_queues _ _ _).1, (updateQCs_queues _ _ _).2]
    · simp only [setInst_inst, Function.update_self]
      rw [(updateQCs_queues _ _ _).1, (updateQCs_queues _ _ _).2]
  · rw [queues, updateLockQC_inst_of_ne cfg r qc view txnid i hj, queues]

lemma enterView_queues (i view id j : ℕ) : (r.enterView cfg i view id).queues j = r.queues j := by
  by_cases hj : j = i
  · subst hj
    simp only [enterView, queues]
    split_ifs <;> simp [postPrimary, setCurrNewViewed, setView]
  · rw [queues, enterView_inst_of_ne cfg r view i id hj, queues]

end Queues

lemma advanceView_queues {id : ℕ} (h : r.advanceView cfg id = some s) (j : ℕ) : s.queues j = r.queues j := by
  obtain ⟨_, _, rfl⟩ := advanceView_eq h
  rw [enterView_queues, updateLockQC_queues]
  by_cases hj : j = (r.table id).instanceId
  · subst hj
    simp [queues, installQC, Instance.storeQC]
  · simp [queues, installQC, Function.update_of_ne hj]

lemma Wired.of_frame (h : Wired cfg r) (hnode : s.nodeId = r.nodeId)
    (hinsts : ∀ id, (s.table id).instanceId < cfg.totInstances)
    (hout : ∃ l, s.out = r.out ++ l ∧ ∀ e ∈ l, e.2.WellFormed cfg ∧ e.2.returnNodeId = r.nodeId ∧
      e.1 ≠ r.nodeId ∧ e.1 < cfg.nodeCnt)
    (hqueues : ∀ i, ∀ m ∈ s.queues i, m ∈ r.queues i ∨ m.instanceId = i ∧ Foreign cfg r (.generic m)) :
    Wired cfg s where
  node := hnode ▸ h.node
  insts := hinsts
  out e he := by
    obtain ⟨l, hl, hlo⟩ := hout
    rw [hl] at he
    rw [hnode]
    rcases List.mem_append.mp he with he | he
    · exact h.out e he
    · exact hlo e he
  parked i m hm := by
    have hf : ∀ m', Foreign cfg r m' → Foreign cfg s m' := fun m' hf => ⟨hf.1, hnode ▸ hf.2.1, hf.2.2⟩
    rcases hqueues i m hm with hm | ⟨hi, hm⟩
    · obtain ⟨hi, hm⟩ := h.parked i m hm
      exact ⟨hi, hf _ hm⟩
    · exact ⟨hi, hf _ hm⟩

lemma Wired.of_same (h : Wired cfg r) (hnode : s.nodeId = r.nodeId)
    (hinsts : ∀ id, (s.table id).instanceId < cfg.totInstances) (hout : s.out = r.out)
    (hqueues : ∀ i, s.queues i = r.queues i) : Wired cfg s :=
  h.of_frame hnode hinsts ⟨[], by simp [hout]⟩ fun i m hm => Or.inl (hqueues i ▸ hm)

lemma insts_update {table : ℕ → TxnManager} {t : TxnManager} {id : ℕ}
    (h : ∀ k, (table k).instanceId < cfg.totInstances) (ht : t.instanceId < cfg.totInstances) (k : ℕ) :
    (Function.update table id t k).instanceId < cfg.totInstances := by
  by_cases hk : k = id
  · subst hk
    rwa [Function.update_self]
  · rw [Function.update_of_ne hk]
    exact h k

lemma Wired.advanceView (h : Wired cfg r) {id : ℕ} (ha : r.advanceView cfg id = some s) : Wired cfg s := by
  refine h.of_same ((Handled.refl r).advanceView ha).nodeId ?_ (advanceView_out ha) (advanceView_queues ha)
  rw [advanceView_table ha]
  exact insts_update h.insts (h.insts id)

lemma Wired.updateLockQC (h : Wired cfg r) (qc : QuorumCertificate) (view txnid i : ℕ) :
    Wired cfg (r.updateLockQC cfg qc view txnid i) := by
  refine h.of_same (updateLockQC_nodeId ..) ?_ (updateLockQC_out ..) (updateLockQC_queues cfg r qc view txnid i)
  rw [updateLockQC_table]
  exact h.insts

lemma Wired.sendHotstuffNewview (h : Wired cfg r) (id : ℕ) : Wired cfg (r.sendHotstuffNewview cfg crypto id) := by
  rcases sendHotstuffNewview_cases cfg crypto r id with ⟨_, heq⟩ | ⟨_, hc⟩
  · rw [heq]
    exact h
  · refine h.of_frame ((Handled.refl r).sendHotstuffNewview cfg crypto id).nodeId ?_ ?_ ?_
    · rw [hc.table]
      refine insts_update h.insts ?_
      obtain ⟨_, _, _, heq⟩ := castVote_eq 
        { r.table id with genericQC := r.ownShare cfg crypto id, syncSent := true } r.nodeId
      rw [heq]
      exact h.insts id
    · obtain ⟨l, hl, hlo⟩ := hc.out
      refine ⟨l, hl, ?_⟩
      intro e he
      obtain ⟨hd, share, hm⟩ := hlo e he
      obtain ⟨hlt, hne⟩ := (mem_others cfg r).mp hd
      rw [hm]
      exact ⟨h.insts id, rfl, hne, hlt⟩
    · intro i m hm
      rw [queues, hc.inst] at hm
      exact Or.inl hm

lemma Wired.voteGeneric (h : Wired cfg r) {m : GenericMsg} (hm : m.instanceId < cfg.totInstances) :
    Wired cfg (r.voteGeneric cfg crypto m) := by
  have hstore : Wired cfg (r.storeGeneric m) := by
    refine h.of_same rfl ?_ rfl ?_
    · refine insts_update h.insts ?_
      simp only [acceptGeneric]
      split_ifs
      · exact hm
      · exact h.insts _
    · intro i
      by_cases hi : i = m.instanceId
      · subst hi
        simp [queues, storeGeneric, Instance.storeQC]
      · simp [queues, storeGeneric, Function.update_of_ne hi]
  apply Wired.sendHotstuffNewview
  simp only [lockGeneric]
  split_ifs
  · exact hstore.updateLockQC _ _ _ _
  · exact hstore

lemma Wired.countVote (h : Wired cfg r) (m : SyncMsg) : Wired cfg (r.countVote cfg m) := by
  have hinst : (hotstuffNewViewed cfg (r.table m.txnId) r.nodeId m).1.instanceId = (r.table m.txnId).instanceId := by
    obtain ⟨_, _, _, _, _, heq⟩ := hotstuffNewViewed_eq  (r.table m.txnId) r.nodeId m
    rw [heq]
  simp only [Replica.countVote, bindTxnid]
  split_ifs
  · refine h.of_same rfl (insts_update h.insts (hinst ▸ h.insts _)) rfl ?_
    intro i
    by_cases hi : i = m.instanceId
    · subst hi
      simp [queues]
    · simp [queues, Function.update_of_ne hi]
  · exact h.of_same rfl (insts_update h.insts (hinst ▸ h.insts _)) rfl (fun _ => rfl)

lemma insts_fill {table table' : ℕ → TxnManager} {returnId view i : ℕ} {l : List (ℕ × ClientQuery)}
    (h : ∀ k, (table k).instanceId < cfg.totInstances) (hi : i < cfg.totInstances)
    (hf : fillManagers cfg table returnId view i l = some table') (k : ℕ) :
    (table' k).instanceId < cfg.totInstances := by
  rcases fillManagers_cases hf k with heq | ⟨_, _, _, heq⟩
  · rw [heq]
    exact h k
  · rw [heq]
    exact hi

lemma Wired.storeProposal (h : Wired cfg r) {m : ProposalMsg} (hm : m.instanceId < cfg.totInstances)
    {table : ℕ → TxnManager} (ha : AcceptsProposal cfg crypto r m table) : Wired cfg (r.storeProposal m table) := by
  have hfill := insts_fill h.insts hm ha.filled
  refine h.of_same rfl (insts_update hfill (hfill _)) rfl ?_
  intro i
  by_cases hi : i = m.instanceId
  · subst hi
    simp [queues, Replica.storeProposal, rememberTxnid]
  · simp [queues, Replica.storeProposal, rememberTxnid, Function.update_of_ne hi]

lemma Wired.handleGeneric (h : Wired cfg r) {m : GenericMsg} (hm : Foreign cfg r (.generic m))
    (hs : r.handleGeneric cfg crypto m = some s) : Wired cfg s := by
  simp only [Replica.handleGeneric] at hs
  split_ifs at hs
  · obtain rfl := Option.some.inj hs
    refine h.of_frame rfl h.insts ⟨[], by simp⟩ ?_
    intro i m' hm'
    by_cases hi : i = m.instanceId
    · subst hi
      simp only [queues, setInst_inst, Function.update_self, ← List.append_assoc] at hm'
      rcases List.mem_append.mp hm' with hm' | hm'
      · exact Or.inl hm'
      · rw [List.mem_singleton.mp hm']
        exact Or.inr ⟨rfl, hm⟩
    · simp only [queues, setInst_inst, Function.update_of_ne hi] at hm'
      exact Or.inl hm'
  · obtain rfl := Option.some.inj hs
    exact h
  · rcases processHotstuffGeneric_cases hs with rfl | ⟨_, ⟨_, ha⟩ | ⟨_, rfl⟩⟩
    · exact h
    · exact (h.voteGeneric hm.1).advanceView ha
    · exact h.voteGeneric hm.1

lemma Wired.handle (h : Wired cfg r) {m : Msg} (hm : Foreign cfg r m) (hs : r.handle cfg crypto m = some s) :
    Wired cfg s := by
  cases m with
  | proposal m =>
    simp only [Replica.handle, handleProposal] at hs
    split_ifs at hs
    · obtain rfl := Option.some.inj hs
      exact h
    · rcases processHotstuffProposal_cases hs with rfl | ⟨table, hacc, ⟨_, ha⟩ | ⟨_, rfl⟩⟩
      · exact h
      · exact (h.storeProposal hm.1.1 hacc).advanceView ha
      · exact h.storeProposal hm.1.1 hacc
  | generic m => exact h.handleGeneric hm hs
  | sync m =>
    simp only [Replica.handle, handleSync] at hs
    split_ifs at hs
    · obtain rfl := Option.some.inj hs
      exact h
    · rcases processHotstuffNewView_cases hs with rfl | ⟨_, ⟨_, ha⟩ | ⟨_, rfl⟩⟩
      · exact h
      · exact (h.countVote m).advanceView ha
      · exact h.countVote m

lemma Wired.replay (h : Wired cfg r) {i : ℕ} (hs : r.replay cfg crypto i = some s) : Wired cfg s := by
  simp only [Replica.replay] at hs
  split at hs
  · cases hs
  · rename_i m rest hq
    have hmem : m ∈ r.queues i := by simp [queues, hq]
    have hpop : Wired cfg (r.setInst i { r.inst i with priorQueue := rest }) := by
      refine h.of_frame rfl h.insts ⟨[], by simp⟩ ?_
      intro j m' hm'
      left
      by_cases hj : j = i
      · subst hj
        simp only [queues, setInst_inst, Function.update_self] at hm'
        rw [queues, hq]
        exact List.mem_cons_of_mem m hm'
      · simpa only [queues, setInst_inst, Function.update_of_ne hj] using hm'
    exact hpop.handleGeneric (h.parked i m hmem).2 hs

lemma Wired.handleGenericP (h : Wired cfg r) {id : ℕ} (hs : r.handleGenericP cfg crypto id = some s) :
    Wired cfg s := by
  simp only [Replica.handleGenericP] at hs
  split_ifs at hs
  · obtain rfl := Option.some.inj hs
    exact h
  · obtain ⟨_, rfl⟩ := processHotstuffGenericP_cases hs
    apply Wired.sendHotstuffNewview
    refine h.of_frame rfl (insts_update h.insts (h.insts id)) ⟨_, rfl, ?_⟩ (fun i m hm => Or.inl hm)
    intro e he
    obtain ⟨d, hd, rfl⟩ := List.mem_map.mp he
    obtain ⟨hlt, hne⟩ := (mem_others cfg r).mp hd
    exact ⟨h.insts id, rfl, hne, hlt⟩

lemma Wired.of_threads (h : Wired cfg r) (hnode : s.nodeId = r.nodeId) (htable : s.table = r.table)
    (hout : s.out = r.out) (hinst : s.inst = r.inst) : Wired cfg s :=
  h.of_same hnode (htable ▸ h.insts) hout (fun i => by rw [queues, hinst, queues])

lemma Wired.storeBatch (h : Wired cfg r) {slot : ℕ} {batch : ClientQueryBatch}
    (hlen : batch.cqrySet.length = cfg.batchSize) {table : ℕ → TxnManager}
    (hf : fillManagers cfg r.table batch.returnNode (r.proposalOf cfg crypto slot batch).view
      (r.proposalOf cfg crypto slot batch).instanceId
      ((r.proposalOf cfg crypto slot batch).index.zip batch.cqrySet) = some table) :
    Wired cfg (r.storeBatch cfg crypto slot batch table) := by
  have hi : (r.proposalOf cfg crypto slot batch).instanceId < cfg.totInstances := Nat.mod_lt _ cfg.instances_pos
  have hfill := insts_fill h.insts hi hf
  refine h.of_frame rfl (insts_update hfill (hfill _)) ⟨_, rfl, ?_⟩ ?_
  · intro e he
    obtain ⟨d, hd, rfl⟩ := List.mem_map.mp he
    obtain ⟨hlt, hne⟩ := (mem_others cfg r).mp hd
    exact ⟨⟨hi, by simp [proposalOf], hlen⟩, rfl, hne, hlt⟩
  · intro j m hm
    left
    by_cases hj : j = (r.proposalOf cfg crypto slot batch).instanceId
    · subst hj
      simpa only [queues, Replica.storeBatch, observe_inst, send_inst, setInst_inst, Function.update_self] using hm
    · simpa only [queues, Replica.storeBatch, observe_inst, send_inst, setInst_inst, Function.update_of_ne hj] using hm

structure Fed (cfg : Config) (r : Replica) : Prop where
  queued : ∀ i, ∀ b ∈ (r.sends i).newTxnQueue, b.cqrySet.length = cfg.batchSize
  inHand : ∀ b ∈ r.threads.proposal.inHand, b.cqrySet.length = cfg.batchSize

lemma Fed.of_same (h : Fed cfg r) (hq : ∀ i, (s.sends i).newTxnQueue = (r.sends i).newTxnQueue)
    (hp : s.threads.proposal = r.threads.proposal) : Fed cfg s :=
  ⟨fun i b hb => h.queued i b (hq i ▸ hb), fun b hb => h.inHand b (hp ▸ hb)⟩

lemma Fed.proposalStep (h : Fed cfg r) {i j : ℕ} (hs : r.proposalStep cfg crypto i j = some s) : Fed cfg s := by
  simp only [Replica.proposalStep] at hs
  split at hs
  · split_ifs at hs
    obtain rfl := Option.some.inj hs
    exact ⟨h.queued, by simp [setProposal, ProposalPc.inHand]⟩
  · split_ifs at hs
    obtain rfl := Option.some.inj hs
    exact ⟨h.queued, by simp [setProposal, ProposalPc.inHand]⟩
  · split_ifs at hs
    split at hs
    · cases hs
    · rename_i batch rest hq
      obtain rfl := Option.some.inj hs
      refine ⟨fun k b hb => ?_, fun b hb => ?_⟩
      · by_cases hk : k = j
        · subst hk
          have hb : b ∈ rest := by simpa [setProposal] using hb
          exact h.queued k b (by rw [hq]; exact List.mem_cons_of_mem _ hb)
        · exact h.queued k b (by simpa [setProposal, Function.update_of_ne hk] using hb)
      · rw [List.mem_singleton.mp hb]
        exact h.queued j batch (by rw [hq]; exact List.mem_cons_self)
  · rename_i k view batch hpc
    obtain rfl := Option.some.inj hs
    refine ⟨fun l b hb => h.queued l b ?_, fun b hb => h.inHand b ?_⟩
    · rwa [← setSend_newTxnQueue (r := r) (y := { r.sends k with
        lastSentView := view, nextSendView := (r.sends k).nextSendView + cfg.nodeCnt }) rfl l]
    · rw [hpc]
      exact hb
  · obtain ⟨t, ht, rfl⟩ := Option.map_eq_some_iff.mp hs
    obtain ⟨_, table, _, rfl⟩ := createAndSendHotstuffPrepare_cases ht
    exact ⟨h.queued, by simp [setProposal, ProposalPc.inHand]⟩
  · rename_i k hpc
    obtain rfl := Option.some.inj hs
    refine ⟨fun l b hb => h.queued l b ?_, by simp [setProposal, ProposalPc.inHand]⟩
    rwa [← setSend_newTxnQueue (r := r) (y := { r.sends k with
      incompleteProposalCnt := (r.sends k).incompleteProposalCnt + 1 }) rfl l]

lemma Wired.proposalStep (h : Wired cfg r) (hf : Fed cfg r) {i j : ℕ}
    (hs : r.proposalStep cfg crypto i j = some s) : Wired cfg s := by
  simp only [Replica.proposalStep] at hs
  split at hs
  · split_ifs at hs
    exact h.of_threads (Option.some.inj hs ▸ rfl) (Option.some.inj hs ▸ rfl) (Option.some.inj hs ▸ rfl)
      (Option.some.inj hs ▸ rfl)
  · split_ifs at hs
    exact h.of_threads (Option.some.inj hs ▸ rfl) (Option.some.inj hs ▸ rfl) (Option.some.inj hs ▸ rfl)
      (Option.some.inj hs ▸ rfl)
  · split_ifs at hs
    split at hs
    · cases hs
    · exact h.of_threads (Option.some.inj hs ▸ rfl) (Option.some.inj hs ▸ rfl) (Option.some.inj hs ▸ rfl)
        (Option.some.inj hs ▸ rfl)
  · exact h.of_threads (Option.some.inj hs ▸ rfl) (Option.some.inj hs ▸ rfl) (Option.some.inj hs ▸ rfl)
      (Option.some.inj hs ▸ rfl)
  · rename_i slot batch hpc
    obtain ⟨t, ht, rfl⟩ := Option.map_eq_some_iff.mp hs
    obtain ⟨_, table, htable, rfl⟩ := createAndSendHotstuffPrepare_cases ht
    have hlen := hf.inHand batch (by rw [hpc]; exact List.mem_singleton_self batch)
    exact (h.storeBatch hlen htable).of_threads rfl rfl rfl rfl
  · exact h.of_threads (Option.some.inj hs ▸ rfl) (Option.some.inj hs ▸ rfl) (Option.some.inj hs ▸ rfl)
      (Option.some.inj hs ▸ rfl)

lemma Wired.genericStep (h : Wired cfg r) {i : ℕ} {busy : Bool} (hs : r.genericStep cfg crypto i busy = some s) :
    Wired cfg s := by
  simp only [Replica.genericStep] at hs
  split at hs
  · split_ifs at hs
    exact h.of_threads (Option.some.inj hs ▸ rfl) (Option.some.inj hs ▸ rfl) (Option.some.inj hs ▸ rfl)
      (Option.some.inj hs ▸ rfl)
  · split_ifs at hs
    exact h.of_threads (Option.some.inj hs ▸ rfl) (Option.some.inj hs ▸ rfl) (Option.some.inj hs ▸ rfl)
      (Option.some.inj hs ▸ rfl)
  · split_ifs at hs
    exact h.of_threads (Option.some.inj hs ▸ rfl) (Option.some.inj hs ▸ rfl) (Option.some.inj hs ▸ rfl)
      (Option.some.inj hs ▸ rfl)
  · exact h.of_threads (Option.some.inj hs ▸ rfl) (Option.some.inj hs ▸ rfl) (Option.some.inj hs ▸ rfl)
      (Option.some.inj hs ▸ rfl)
  · exact h.of_threads (Option.some.inj hs ▸ rfl) (Option.some.inj hs ▸ rfl) (Option.some.inj hs ▸ rfl)
      (Option.some.inj hs ▸ rfl)
  · split_ifs at hs
    · exact h.of_threads (Option.some.inj hs ▸ rfl) (Option.some.inj hs ▸ rfl) (Option.some.inj hs ▸ rfl)
        (Option.some.inj hs ▸ rfl)
    · obtain ⟨t, ht, rfl⟩ := Option.map_eq_some_iff.mp hs
      exact (h.handleGenericP ht).of_threads rfl rfl rfl rfl

lemma Fed.genericStep (h : Fed cfg r) {i : ℕ} {busy : Bool} (hs : r.genericStep cfg crypto i busy = some s) :
    Fed cfg s := by
  simp only [Replica.genericStep] at hs
  split at hs
  · split_ifs at hs
    exact h.of_same (fun _ => Option.some.inj hs ▸ rfl) (Option.some.inj hs ▸ rfl)
  · split_ifs at hs
    exact h.of_same (fun _ => Option.some.inj hs ▸ rfl) (Option.some.inj hs ▸ rfl)
  · split_ifs at hs
    exact h.of_same (fun _ => Option.some.inj hs ▸ rfl) (Option.some.inj hs ▸ rfl)
  · exact h.of_same (fun _ => Option.some.inj hs ▸ rfl) (Option.some.inj hs ▸ rfl)
  · rename_i j id _
    obtain rfl := Option.some.inj hs
    exact h.of_same (setSend_newTxnQueue (y := { r.sends j with
      incompleteProposalCnt := (r.sends j).incompleteProposalCnt - 1 }) rfl) rfl
  · split_ifs at hs
    · exact h.of_same (fun _ => Option.some.inj hs ▸ rfl) (Option.some.inj hs ▸ rfl)
    · obtain ⟨t, ht, rfl⟩ := Option.map_eq_some_iff.mp hs
      obtain ⟨hsends, hthreads⟩ := handleGenericP_sends ht
      refine h.of_same (fun k => congrArg (fun f => (f k).newTxnQueue) hsends) ?_
      change t.threads.proposal = r.threads.proposal
      rw [hthreads]

lemma Fed.enqueueBatch (h : Fed cfg r) {i : ℕ} {batch : ClientQueryBatch}
    (hs : r.enqueueBatch cfg i batch = some s) : Fed cfg s := by
  simp only [Replica.enqueueBatch] at hs
  split_ifs at hs with hg
  obtain rfl := Option.some.inj hs
  refine ⟨fun k b hb => ?_, h.inHand⟩
  by_cases hk : k = i
  · subst hk
    simp only [setSems, setSend_sends, Function.update_self] at hb
    rcases List.mem_append.mp hb with hb | hb
    · exact h.queued k b hb
    · rw [List.mem_singleton.mp hb]
      exact hg.2
  · simp only [setSems, setSend_sends, Function.update_of_ne hk] at hb
    exact h.queued k b hb

lemma wired_fed_step (h : Wired cfg r) (hf : Fed cfg r) {e : Event} (hg : Genuine cfg r e)
    (hs : r.step cfg crypto e = some s) : Wired cfg s ∧ Fed cfg s := by
  have hfed : Handled r s → Fed cfg s := fun hh =>
    hf.of_same (fun i => by rw [hh.sends]) (by rw [hh.threads])
  cases e with
  | deliver m => exact ⟨h.handle hg hs, hfed (.handle hs)⟩
  | replay i => exact ⟨h.replay hs, hfed (.replay hs)⟩
  | clientBatch i batch =>
    refine ⟨?_, hf.enqueueBatch hs⟩
    simp only [step, enqueueBatch] at hs
    split_ifs at hs
    exact h.of_threads (Option.some.inj hs ▸ rfl) (Option.some.inj hs ▸ rfl) (Option.some.inj hs ▸ rfl)
      (Option.some.inj hs ▸ rfl)
  | proposalThread i j => exact ⟨h.proposalStep hf hs, hf.proposalStep hs⟩
  | genericThread i busy => exact ⟨h.genericStep hs, hf.genericStep hs⟩
  | workerGenericP k =>
    simp only [step, workerGenericP] at hs
    split at hs
    · have hq : Wired cfg (r.setRequeued (r.threads.requeued.eraseIdx k)) := h.of_threads rfl rfl rfl rfl
      obtain ⟨hsends, hthreads⟩ := handleGenericP_sends hs
      refine ⟨hq.handleGenericP hs, hf.of_same (fun k => congrArg (fun f => (f k).newTxnQueue) hsends) ?_⟩
      rw [hthreads]
      rfl
    · cases hs
  | execute k =>
    obtain ⟨e, _, rfl⟩ := Option.map_eq_some_iff.mp hs
    exact ⟨h.of_threads rfl rfl rfl rfl, hf.of_same (fun _ => rfl) rfl⟩
  | recycle id t =>
    simp only [step, recycle] at hs
    split_ifs at hs
    obtain rfl := Option.some.inj hs
    exact ⟨h.of_same rfl (insts_update h.insts hg.2) rfl (fun _ => rfl), hf.of_same (fun _ => rfl) rfl⟩

lemma wired_init {p : ℕ} (hp : p < cfg.nodeCnt) : Wired cfg (init cfg p) where
  node := hp
  insts _ := cfg.instances_pos
  out e he := by simp [init] at he
  parked i m hm := by simp [queues, init, Instance.init] at hm

lemma wired_reach {p : ℕ} (hp : p < cfg.nodeCnt)
    (h : Reach (step cfg crypto) (Genuine cfg) (init cfg p) r) : Wired cfg r := by
  have hboth : Wired cfg r ∧ Fed cfg r := by
    apply h.invariant (fun r => Wired cfg r ∧ Fed cfg r)
    · exact ⟨wired_init hp, fun i b hb => by simp [init, Sending.init] at hb, nofun⟩
    · intro s e t _ hok hs hi
      exact wired_fed_step hi.1 hi.2 hok hs
  exact hboth.1

end Replica

namespace System

variable {cfg : Config} {crypto : Crypto} {byz : Finset ℕ} {S : System}

lemma local_genuine (hreach : ∀ p < cfg.nodeCnt,
    Reach (Replica.step cfg crypto) (Replica.Genuine cfg) (Replica.init cfg p) (S p)) {e : Event} {a : Replica.Event}
    (hok : Allowed cfg byz S e) (ha : e.local S = some a) : (S e.node).Genuine cfg a := by
  cases e with
  | act p e =>
    have hae : a = e := by
      cases e <;> simp_all [Event.local]
    rw [hae]
    exact hok.2.2
  | relay p s k =>
    simp only [Event.local] at ha
    split at ha
    · rename_i d m hout
      split_ifs at ha with hd
      obtain rfl := Option.some.inj ha
      have hw := Replica.wired_reach hok.2.2.1 (hreach s hok.2.2.1)
      obtain ⟨hwf, hret, hne, _⟩ := hw.out (d, m) (List.mem_of_getElem? hout)
      have hself := Replica.nodeId_reach cfg crypto (hreach p hok.1)
      refine ⟨hwf, ?_, hret ▸ hw.node⟩
      intro heq
      rw [hret] at heq
      apply hne
      rw [hd, heq]
      exact hself.symm
    · cases ha
  | inject p m =>
    obtain rfl := Option.some.inj ha
    exact hok.2.2.1

lemma reach_replica (h : Reachable cfg crypto byz S) {p : ℕ} (hp : p < cfg.nodeCnt) :
    Reach (Replica.step cfg crypto) (Replica.Genuine cfg) (Replica.init cfg p) (S p) := by
  induction h generalizing p with
  | start => exact .start
  | @next S T e _ hok hs ih =>
    obtain ⟨a, r, ha, hr, rfl⟩ := step_cases hs
    by_cases hpe : p = e.node
    · subst hpe
      rw [Function.update_self]
      exact .next a (ih hp) (local_genuine (fun p hp => ih hp) hok ha) hr
    · rw [Function.update_of_ne hpe]
      exact ih hp

end System

end SpotLess
