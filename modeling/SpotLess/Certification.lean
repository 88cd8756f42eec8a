import SpotLess.Votes
import SpotLess.Wiring

namespace SpotLess.Replica

open Lib TxnManager

section Condition

variable (cfg : Config) (crypto : Crypto) (r : Replica)

def Settled (t : TxnManager) (hash : Bytes) : Prop := t.newViewed = true → cfg.nf ≤ (t.votersOf hash).length

def TakesProposal (m : ProposalMsg) : Prop :=
  r.exec.nextIndex < m.txnId ∧ (r.table (m.txnId + 2)).proposalReceived = false

def TakesGeneric (m : GenericMsg) : Prop :=
  m.view ≤ (r.inst m.instanceId).view ∧ r.exec.nextIndex < m.txnId ∧
    (r.table m.txnId).genericReceived = false ∧
    cfg.getViewPrimary (r.inst m.instanceId).view m.instanceId = m.returnNodeId ∧
    (r.inst m.instanceId).SafeNode m.highQC

def GenericSettled (m : GenericMsg) : Prop :=
  r.TakesGeneric cfg m → (r.table m.txnId).hash = [] → Settled cfg (r.table m.txnId) m.hash

def PcSettled : ProposalPc → Prop
  | .stamped slot batch =>
    Settled cfg (r.table (slot * cfg.batchSize + cfg.batchSize - 1)) (r.proposalOf cfg crypto slot batch).hash
  | _ => True

-- A hash is given to a slot that already counts as decided only when that hash has the quorum.
def HashSettled : Event → Prop
  | .deliver (.proposal m) => r.TakesProposal m → Settled cfg (r.table (m.index.getLastD 0)) m.hash
  | .deliver (.generic m) => r.GenericSettled cfg m
  | .replay i => ∀ m ∈ (r.inst i).priorQueue.head?, r.GenericSettled cfg m
  | .proposalThread _ _ => r.PcSettled cfg crypto r.threads.proposal
  | _ => True

def SettledStep (e : Event) : Prop := Genuine cfg r e ∧ r.HashSettled cfg crypto e

instance (t : TxnManager) (hash : Bytes) : Decidable (Settled cfg t hash) := inferInstanceAs (Decidable (_ → _))

instance (m : ProposalMsg) : Decidable (r.TakesProposal m) := inferInstanceAs (Decidable (_ ∧ _))

instance (m : GenericMsg) : Decidable (r.TakesGeneric cfg m) := inferInstanceAs (Decidable (_ ∧ _))

instance (m : GenericMsg) : Decidable (r.GenericSettled cfg m) := inferInstanceAs (Decidable (_ → _ → _))

instance : (pc : ProposalPc) → Decidable (r.PcSettled cfg crypto pc)
  | .stamped _ _ => inferInstanceAs (Decidable (Settled _ _ _))
  | .idle | .awake | .armed | .popped _ _ _ | .processed _ => inferInstanceAs (Decidable True)

instance : (e : Event) → Decidable (r.HashSettled cfg crypto e)
  | .deliver (.proposal _) => inferInstanceAs (Decidable (_ → _))
  | .deliver (.generic _) => inferInstanceAs (Decidable (GenericSettled _ _ _))
  | .replay i => inferInstanceAs (Decidable (∀ m ∈ (r.inst i).priorQueue.head?, r.GenericSettled cfg m))
  | .proposalThread _ _ => inferInstanceAs (Decidable (PcSettled _ _ _ _))
  | .deliver (.sync _) | .clientBatch _ _ | .genericThread _ _ | .workerGenericP _ | .execute _
  | .recycle _ _ => inferInstanceAs (Decidable True)

instance (e : Event) : Decidable (SettledStep cfg crypto r e) := inferInstanceAs (Decidable (_ ∧ _))

end Condition

variable {cfg : Config} {crypto : Crypto} {r s : Replica}

lemma Counted.fill (h : Counted cfg r) {table : ℕ → TxnManager} {returnId view i : ℕ} {l : List (ℕ × ClientQuery)}
    (hf : fillManagers cfg r.table returnId view i l = some table) (id : ℕ) : VoteInv cfg r.nodeId (table id) := by
  rcases fillManagers_cases hf id with heq | ⟨_, _, _, heq⟩
  · rw [heq]
    exact h.votes id
  · rw [heq]
    exact (h.votes id).congr rfl rfl rfl rfl rfl (fun _ _ => Or.inl rfl)

lemma fill_votes {table table' : ℕ → TxnManager} {returnId view i : ℕ} {l : List (ℕ × ClientQuery)}
    (hf : fillManagers cfg table returnId view i l = some table') (id : ℕ) :
    (table' id).newViewed = (table id).newViewed ∧ (table' id).genericReceived = (table id).genericReceived ∧
      ∀ hash, (table' id).votersOf hash = (table id).votersOf hash := by
  rcases fillManagers_cases hf id with heq | ⟨_, _, _, heq⟩
  · rw [heq]
    exact ⟨rfl, rfl, fun _ => rfl⟩
  · rw [heq]
    exact ⟨rfl, rfl, fun _ => rfl⟩

lemma Counted.hashed (h : Counted cfg r) {table : ℕ → TxnManager} {returnId view i : ℕ}
    {l : List (ℕ × ClientQuery)} (hf : fillManagers cfg r.table returnId view i l = some table) {last : ℕ}
    {hash : Bytes} (hset : Settled cfg (r.table last) hash) (k : ℕ) :
    VoteInv cfg r.nodeId
      (Function.update table last { table last with hash := hash, proposalReceived := true } k) := by
  by_cases hk : k = last
  · subst hk
    rw [Function.update_self]
    refine (h.fill hf k).congr rfl rfl rfl rfl rfl ?_
    intro hn _
    obtain ⟨hviewed, _, hvoters⟩ := fill_votes hf k
    rw [hviewed] at hn
    right
    rw [hvoters]
    exact hset hn
  · rw [Function.update_of_ne hk]
    exact h.fill hf k

lemma Counted.storeProposal (h : Counted cfg r) {m : ProposalMsg} {table : ℕ → TxnManager}
    (ha : AcceptsProposal cfg crypto r m table) (hset : Settled cfg (r.table (m.index.getLastD 0)) m.hash) :
    Counted cfg (r.storeProposal m table) :=
  h.frame rfl (h.hashed ha.filled hset) ⟨[], by simp [Replica.storeProposal, rememberTxnid]⟩

lemma Counted.voteGeneric (h : Counted cfg r) (hr : r.nodeId < cfg.nodeCnt) {m : GenericMsg}
    (hset : (r.table m.txnId).hash = [] → Settled cfg (r.table m.txnId) m.hash) :
    Counted cfg (r.voteGeneric cfg crypto m) := by
  have hstore : Counted cfg (r.storeGeneric m) := by
    refine h.frame rfl (fun k => ?_) ⟨[.adopted m (r.inst m.instanceId)], rfl, by simp [Obs.NoCertificate]⟩
    change VoteInv cfg r.nodeId (Function.update r.table m.txnId _ k)
    by_cases hk : k = m.txnId
    · subst hk
      rw [Function.update_self]
      simp only [acceptGeneric]
      split_ifs with hh
      · refine (h.votes _).congr rfl rfl rfl rfl rfl ?_
        intro hn _
        exact Or.inr (hset hh hn)
      · exact (h.votes _).congr rfl rfl rfl rfl rfl (fun _ _ => Or.inl rfl)
    · rw [Function.update_of_ne hk]
      exact h.votes k
  simp only [Replica.voteGeneric, lockGeneric]
  split_ifs
  · refine (hstore.updateLockQC _ _ _ _).sendHotstuffNewview ?_ _
    rw [updateLockQC_nodeId]
    exact hr
  · exact hstore.sendHotstuffNewview hr _

lemma Counted.countVote (h : Counted cfg r) {m : SyncMsg} (hm : m.returnNodeId ≠ r.nodeId)
    (hlt : m.returnNodeId < cfg.nodeCnt)
    (hh : (r.table m.txnId).hash = [] ∨ (r.table m.txnId).hash = m.hash) : Counted cfg (r.countVote cfg m) := by
  have hvote := voteInv_hotstuffNewViewed (h.votes m.txnId) hm hlt hh
  simp only [Replica.countVote, bindTxnid]
  split_ifs
  · exact (h.setInst _ _).setTxn hvote
  · exact h.setTxn hvote

lemma Counted.handleGeneric (h : Counted cfg r) (hr : r.nodeId < cfg.nodeCnt) {m : GenericMsg}
    (hset : r.GenericSettled cfg m) (hs : r.handleGeneric cfg crypto m = some s) : Counted cfg s := by
  simp only [Replica.handleGeneric] at hs
  split_ifs at hs with hview hindex
  · obtain rfl := Option.some.inj hs
    exact h.setInst _ _
  · obtain rfl := Option.some.inj hs
    exact h
  · have hvote : AcceptsGeneric cfg crypto r m → Counted cfg (r.voteGeneric cfg crypto m) := by
      intro hacc
      refine h.voteGeneric hr (hset ⟨?_, ?_, hacc.fresh, hacc.leader, hacc.safe⟩)
      · omega
      · omega
    rcases processHotstuffGeneric_cases hs with rfl | ⟨hacc, ⟨hready, ha⟩ | ⟨_, rfl⟩⟩
    · exact h
    · exact (hvote hacc).advanceView hready.1 ha
    · exact hvote hacc

lemma Counted.handle (h : Counted cfg r) (hr : r.nodeId < cfg.nodeCnt) {m : Msg}
    (hok : SettledStep cfg crypto r (.deliver m)) (hs : r.handle cfg crypto m = some s) : Counted cfg s := by
  obtain ⟨⟨_, hne, hlt⟩, hset⟩ := hok
  cases m with
  | proposal m =>
    simp only [Replica.handle, handleProposal] at hs
    split_ifs at hs with hindex
    · obtain rfl := Option.some.inj hs
      exact h
    · rcases processHotstuffProposal_cases hs with rfl | ⟨table, hacc, ⟨hready, ha⟩ | ⟨_, rfl⟩⟩
      · exact h
      · refine (h.storeProposal hacc (hset ⟨by omega, hacc.fresh⟩)).advanceView ?_ ha
        simpa [Replica.storeProposal, rememberTxnid] using hready.1
      · exact h.storeProposal hacc (hset ⟨by omega, hacc.fresh⟩)
  | generic m => exact h.handleGeneric hr hset hs
  | sync m =>
    simp only [Replica.handle, handleSync] at hs
    split_ifs at hs
    · obtain rfl := Option.some.inj hs
      exact h
    · rcases processHotstuffNewView_cases hs with rfl | ⟨hh, ⟨hready, ha⟩ | ⟨_, rfl⟩⟩
      · exact h
      · refine (h.countVote hne hlt hh).advanceView ?_ ha
        simpa [Replica.countVote] using hotstuffNewViewed_newViewed hready.1
      · exact h.countVote hne hlt hh

lemma Counted.of_table (h : Counted cfg r) (hnode : s.nodeId = r.nodeId) (htable : s.table = r.table)
    (htrace : ∃ l, s.trace = r.trace ++ l ∧ ∀ o ∈ l, o.NoCertificate) : Counted cfg s :=
  h.frame hnode (htable ▸ h.votes) htrace

lemma Counted.of_idle (h : Counted cfg r) (hnode : s.nodeId = r.nodeId) (htable : s.table = r.table)
    (htrace : s.trace = r.trace) : Counted cfg s :=
  h.of_table hnode htable ⟨[], by simp [htrace]⟩

lemma Counted.handleGenericP (h : Counted cfg r) (hr : r.nodeId < cfg.nodeCnt) {id : ℕ}
    (hs : r.handleGenericP cfg crypto id = some s) : Counted cfg s := by
  simp only [Replica.handleGenericP] at hs
  split_ifs at hs
  · obtain rfl := Option.some.inj hs
    exact h
  · obtain ⟨_, rfl⟩ := processHotstuffGenericP_cases hs
    apply Counted.sendHotstuffNewview
    swap
    · exact hr
    refine h.frame rfl (fun k => ?_) ⟨[.genericSent (r.table id).instanceId id], rfl, by simp [Obs.NoCertificate]⟩
    change VoteInv cfg r.nodeId (Function.update r.table id _ k)
    by_cases hk : k = id
    · subst hk
      rw [Function.update_self]
      exact (h.votes k).congr rfl rfl rfl rfl rfl (fun _ _ => Or.inl rfl)
    · rw [Function.update_of_ne hk]
      exact h.votes k

lemma Counted.proposalStep (h : Counted cfg r) {i j : ℕ} (hset : r.PcSettled cfg crypto r.threads.proposal)
    (hs : r.proposalStep cfg crypto i j = some s) : Counted cfg s := by
  simp only [Replica.proposalStep] at hs
  split at hs
  · split_ifs at hs
    exact h.of_idle (Option.some.inj hs ▸ rfl) (Option.some.inj hs ▸ rfl) (Option.some.inj hs ▸ rfl)
  · split_ifs at hs
    exact h.of_idle (Option.some.inj hs ▸ rfl) (Option.some.inj hs ▸ rfl) (Option.some.inj hs ▸ rfl)
  · split_ifs at hs
    split at hs
    · cases hs
    · rename_i batch rest _
      refine h.of_table (Option.some.inj hs ▸ rfl) (Option.some.inj hs ▸ rfl)
        ⟨[.popped batch], Option.some.inj hs ▸ rfl, by simp [Obs.NoCertificate]⟩
  · exact h.of_idle (Option.some.inj hs ▸ rfl) (Option.some.inj hs ▸ rfl) (Option.some.inj hs ▸ rfl)
  · rename_i slot batch hpc
    rw [hpc] at hset
    obtain ⟨t, ht, rfl⟩ := Option.map_eq_some_iff.mp hs
    obtain ⟨_, table, htable, rfl⟩ := createAndSendHotstuffPrepare_cases ht
    let m := r.proposalOf cfg crypto slot batch
    exact h.frame rfl (h.hashed htable hset)
      ⟨[.proposed m.instanceId m.view batch m.hash], rfl, by simp [Obs.NoCertificate]⟩
  · exact h.of_idle (Option.some.inj hs ▸ rfl) (Option.some.inj hs ▸ rfl) (Option.some.inj hs ▸ rfl)

lemma Counted.genericStep (h : Counted cfg r) (hr : r.nodeId < cfg.nodeCnt) {i : ℕ} {busy : Bool}
    (hs : r.genericStep cfg crypto i busy = some s) : Counted cfg s := by
  simp only [Replica.genericStep] at hs
  split at hs
  · split_ifs at hs
    exact h.of_idle (Option.some.inj hs ▸ rfl) (Option.some.inj hs ▸ rfl) (Option.some.inj hs ▸ rfl)
  · split_ifs at hs
    exact h.of_idle (Option.some.inj hs ▸ rfl) (Option.some.inj hs ▸ rfl) (Option.some.inj hs ▸ rfl)
  · split_ifs at hs
    exact h.of_idle (Option.some.inj hs ▸ rfl) (Option.some.inj hs ▸ rfl) (Option.some.inj hs ▸ rfl)
  · exact h.of_idle (Option.some.inj hs ▸ rfl) (Option.some.inj hs ▸ rfl) (Option.some.inj hs ▸ rfl)
  · exact h.of_idle (Option.some.inj hs ▸ rfl) (Option.some.inj hs ▸ rfl) (Option.some.inj hs ▸ rfl)
  · split_ifs at hs
    · exact h.of_idle (Option.some.inj hs ▸ rfl) (Option.some.inj hs ▸ rfl) (Option.some.inj hs ▸ rfl)
    · obtain ⟨t, ht, rfl⟩ := Option.map_eq_some_iff.mp hs
      exact (h.handleGenericP hr ht).of_idle rfl rfl rfl

lemma Counted.step (h : Counted cfg r) (hr : r.nodeId < cfg.nodeCnt) {e : Event}
    (hok : SettledStep cfg crypto r e) (hs : r.step cfg crypto e = some s) : Counted cfg s := by
  cases e with
  | deliver m => exact h.handle hr hok hs
  | replay i =>
    have hset := hok.2
    simp only [Replica.step, replay] at hs
    split at hs
    · cases hs
    · rename_i m rest hq
      have hm : r.GenericSettled cfg m := hset m (by rw [hq]; rfl)
      refine (h.setInst i { r.inst i with priorQueue := rest }).handleGeneric hr ?_ hs
      intro htake
      apply hm
      simp only [TakesGeneric, setInst_inst, setInst_table, setInst_exec] at htake ⊢
      by_cases hi : m.instanceId = i
      · subst hi
        rw [Function.update_self] at htake
        exact htake
      · rw [Function.update_of_ne hi] at htake
        exact htake
  | clientBatch i batch =>
    simp only [Replica.step, enqueueBatch] at hs
    split_ifs at hs
    exact h.of_idle (Option.some.inj hs ▸ rfl) (Option.some.inj hs ▸ rfl) (Option.some.inj hs ▸ rfl)
  | proposalThread i j => exact h.proposalStep hok.2 hs
  | genericThread i busy => exact h.genericStep hr hs
  | workerGenericP k =>
    simp only [Replica.step, workerGenericP] at hs
    split at hs
    · have hq : Counted cfg (r.setRequeued (r.threads.requeued.eraseIdx k)) := h.of_idle rfl rfl rfl
      exact hq.handleGenericP hr hs
    · cases hs
  | execute k =>
    obtain ⟨e, _, rfl⟩ := Option.map_eq_some_iff.mp hs
    exact h.of_idle rfl rfl rfl
  | recycle id t =>
    simp only [Replica.step, recycle] at hs
    split_ifs at hs
    obtain rfl := Option.some.inj hs
    exact h.setTxn (voteInv_of_recycled hok.1.1)

theorem certificate_has_quorum (cfg : Config) (crypto : Crypto) {p : ℕ} (hp : p < cfg.nodeCnt) {r : Replica}
    (h : Reach (Replica.step cfg crypto) (SettledStep cfg crypto) (init cfg p) r) :
    ∀ i v id qc voters, .advanced i v id qc voters ∈ r.trace →
      voters.Nodup ∧ (∀ s ∈ voters, s < cfg.nodeCnt) ∧ cfg.nf ≤ voters.length := by
  have hcounted : Counted cfg r := by
    apply h.invariant (Counted cfg)
    · refine ⟨fun _ => voteInv_of_recycled recycled_default, ?_⟩
      intro i v id qc voters hmem
      simp [init] at hmem
    · intro s e t hr hok hs hi
      exact hi.step (nodeId_reach cfg crypto hr ▸ hp) hok hs
  exact hcounted.built

def certificates (r : Replica) : List (ℕ × ℕ × List ℕ) :=
  r.trace.filterMap fun
    | .advanced i v _ _ voters => some (i, v, voters)
    | _ => none

lemma mem_certificates {r : Replica} {i v : ℕ} {voters : List ℕ} (h : (i, v, voters) ∈ r.certificates) :
    ∃ id qc, .advanced i v id qc voters ∈ r.trace := by
  obtain ⟨o, ho, heq⟩ := List.mem_filterMap.mp h
  cases o <;> cases heq
  exact ⟨_, _, ho⟩

theorem certificate_has_quorum_first_slot :
    ∃ r, Reach (step .fourReplicas .transparent) (SettledStep .fourReplicas .transparent) (init .fourReplicas 1) r ∧
      ∃ id qc, .advanced 0 0 id qc [1, 2, 3] ∈ r.trace ∧ Config.fourReplicas.nf ≤ [1, 2, 3].length := by
  let cfg := Config.fourReplicas
  let qrys : List ClientQuery := List.replicate 5 ⟨[⟨7, 1⟩], 3, 9⟩
  let m := slotProposal cfg .transparent 0 0 qrys
  obtain ⟨r, hr, hp⟩ := exists_reach_of_runWith (step cfg .transparent) (SettledStep cfg .transparent) (init cfg 1)
    [.deliver (.generic (slotGeneric cfg .transparent 0 0 m.hash (genesisQC .PREPARE))),
      .deliver (.sync (slotVote cfg 0 0 m.hash 2)), .deliver (.sync (slotVote cfg 0 0 m.hash 3)),
      .deliver (.proposal m)]
    (fun r => decide ((0, 0, [1, 2, 3]) ∈ r.certificates)) (by decide +kernel)
  obtain ⟨id, qc, hmem⟩ := mem_certificates (of_decide_eq_true hp)
  exact ⟨r, hr, id, qc, hmem, (certificate_has_quorum cfg .transparent (by decide) hr 0 0 id qc _ hmem).2.2⟩

-- The faulty primary has its first batch counted at replica 3 and then sends it another one.
theorem certificate_on_one_vote :
    ∃ S, System.Reachable .fourReplicas .transparent {0} S ∧
      ∃ id qc, .advanced 0 0 id qc [3] ∈ (S 3).trace ∧ [3].length < Config.fourReplicas.nf := by
  let cfg := Config.fourReplicas
  let m (value : ℕ) := slotProposal cfg .transparent 0 0 (List.replicate 5 ⟨[⟨7, value⟩], 3, 9⟩)
  let g (value : ℕ) := slotGeneric cfg .transparent 0 0 (m value).hash (genesisQC .PREPARE)
  obtain ⟨S, hS, hp⟩ := exists_reach_of_runWith (System.step cfg .transparent) (System.Allowed cfg {0})
    (System.init cfg)
    [.inject 1 (.proposal (m 1)), .inject 1 (.generic (g 1)), .inject 2 (.proposal (m 1)), .inject 2 (.generic (g 1)),
      .relay 3 1 2, .relay 3 2 2, .inject 3 (.sync (slotVote cfg 0 0 (m 1).hash 0)),
      .inject 3 (.proposal (m 2)), .inject 3 (.generic (g 2))]
    (fun S => decide ((0, 0, [3]) ∈ (S 3).certificates)) (by decide +kernel)
  obtain ⟨id, qc, hmem⟩ := mem_certificates (of_decide_eq_true hp)
  exact ⟨S, hS, id, qc, hmem, by decide⟩

end SpotLess.Replica
