import SpotLess.Votes
import SpotLess.Wiring

/-! Every step of a replica is a chain of moves, each with the conditions its handler has checked. What all moves
preserve, every step preserves. -/

namespace SpotLess

open Lib

def TxnManager.Ready (t : TxnManager) : Prop :=
  t.newViewed = true ∧ t.proposalReceived = true ∧ t.genericReceived = true

def Instance.SameChain (x y : Instance) : Prop :=
  ∃ temp prior, y = { x with tempQueue := temp, priorQueue := prior }

lemma Instance.SameChain.refl (x : Instance) : x.SameChain x := ⟨x.tempQueue, x.priorQueue, rfl⟩

namespace Replica

variable (cfg : Config) (crypto : Crypto) (P : Msg → Prop) (Q : ℕ → Prop)
  (B : ℕ → ClientQueryBatch → Prop)

structure Idle (r s : Replica) : Prop where
  nodeId : s.nodeId = r.nodeId
  chain : ∀ i, (r.inst i).SameChain (s.inst i)
  queues : ∀ i, ∀ m ∈ s.queues i, m ∈ r.queues i ∨ m.instanceId = i ∧ P (.generic m)
  table : s.table = r.table
  exec : s.exec = r.exec
  out : s.out = r.out
  trace : s.trace = r.trace ∨ ∃ batch, s.trace = r.trace ++ [.popped batch]

-- `process_hotstuff_generic_p` before the primary votes for its own proposal.
def announceGeneric (r : Replica) (id : ℕ) : Replica :=
  let t : TxnManager :=
    { r.table id with highQC := (r.inst (r.table id).instanceId).preparedQC, genericReceived := true }
  ((r.setTxn id t).send (r.others cfg) (.generic (r.genericOf crypto id))).observe
    (.genericSent (r.table id).instanceId id)

structure SameViews (r s : Replica) : Prop where
  nodeId : s.nodeId = r.nodeId
  view : ∀ i, (s.inst i).view = (r.inst i).view
  nextIndex : s.exec.nextIndex = r.exec.nextIndex

-- The manager of an advance was not complete when the step began, by the handler that completed it.
inductive Unready (r : Replica) (id : ℕ) : Prop
  | proposal {m : ProposalMsg} (hm : P (.proposal m)) (hid : m.index.getLastD 0 = id)
      (hindex : r.exec.nextIndex < m.txnId) (hfresh : (r.table (m.txnId + 2)).proposalReceived = false)
  | generic (hindex : r.exec.nextIndex < id) (hfresh : (r.table id).genericReceived = false)
  | count (hg : (r.table id).genericReceived = true) (hfresh : (r.table id).newViewed = false)

-- The moves of a step that begins in `r₀`; `Q` holds of the slots whose GENERIC the generic thread may send, `B` of
-- the batches the proposal thread may propose.
inductive Move (r₀ : Replica) : Replica → Replica → Prop
  | idle {r s : Replica} (h : Idle P r s) : Move r₀ r s
  | proposal {m : ProposalMsg} {table : ℕ → TxnManager} (hm : P (.proposal m))
      (hindex : r₀.exec.nextIndex < m.txnId) (hacc : AcceptsProposal cfg crypto r₀ m table) :
      Move r₀ r₀ (r₀.storeProposal m table)
  | generic {r : Replica} {m : GenericMsg} (hm : P (.generic m)) (hindex : r.exec.nextIndex < m.txnId)
      (hview : m.view ≤ (r.inst m.instanceId).view) (hacc : AcceptsGeneric cfg crypto r m) :
      Move r₀ r ((r.storeGeneric m).lockGeneric cfg m)
  | vote {r : Replica} {id : ℕ} (hsame : SameViews r₀ r) (hindex : r₀.exec.nextIndex < id)
      (hfresh : (r₀.table id).genericReceived = false ∨ Q id) (hg : (r.table id).genericReceived = true) :
      Move r₀ r (r.sendHotstuffNewview cfg crypto id)
  | count {m : SyncMsg} (hm : P (.sync m)) (hfresh : ¬ r₀.StaleSync m)
      (hh : (r₀.table m.txnId).hash = [] ∨ (r₀.table m.txnId).hash = m.hash) : Move r₀ r₀ (r₀.countVote cfg m)
  | advance {r s : Replica} {id : ℕ} (hsame : SameViews r₀ r) (hfresh : Unready P r₀ id)
      (hready : (r.table id).Ready) (h : r.advanceView cfg id = some s) : Move r₀ r s
  | batch {slot : ℕ} {batch : ClientQueryBatch} {table : ℕ → TxnManager}
      (hbatch : B slot batch) (hpc : r₀.threads.proposal = .stamped slot batch)
      (hfill : fillManagers cfg r₀.table batch.returnNode (r₀.proposalOf cfg crypto slot batch).view
        (r₀.proposalOf cfg crypto slot batch).instanceId
        ((r₀.proposalOf cfg crypto slot batch).index.zip batch.cqrySet) = some table) :
      Move r₀ r₀ (r₀.storeBatch cfg crypto slot batch table)
  | announce {r : Replica} {id : ℕ} (hsame : SameViews r₀ r) (hid : Q id) (hindex : r₀.exec.nextIndex < id)
      (hh : (r.table id).hash ≠ []) : Move r₀ r (r.announceGeneric cfg crypto id)
  | execute {k : ℕ} {e : Executor} (h : r₀.exec.step cfg (.pop k r₀.table) = some e) : Move r₀ r₀ (r₀.setExec e)
  | recycle {id : ℕ} {t : TxnManager}
      (hindex : id + 16 * cfg.batchSize * cfg.nodeCnt + 5 < r₀.exec.nextIndex) (ht : t.Recycled)
      (hi : t.instanceId < cfg.totInstances) : Move r₀ r₀ (r₀.setTxn id t)

abbrev Moves (r₀ : Replica) := Relation.ReflTransGen (Move cfg crypto P Q B r₀)

variable {cfg crypto P Q B} {r₀ r s : Replica}

lemma SameViews.refl (r : Replica) : SameViews r r := ⟨rfl, fun _ => rfl, rfl⟩

lemma SameViews.trans {t : Replica} (h : SameViews r s) (h' : SameViews s t) : SameViews r t :=
  ⟨h'.nodeId.trans h.nodeId, fun i => (h'.view i).trans (h.view i), h'.nextIndex.trans h.nextIndex⟩

lemma Idle.sameViews (h : Idle P r s) : SameViews r s where
  nodeId := h.nodeId
  view i := by
    obtain ⟨_, _, heq⟩ := h.chain i
    rw [heq]
  nextIndex := by rw [h.exec]

section Views

lemma executeParents_view (fuel : ℕ) (x : Instance) (qc : QuorumCertificate) :
    (Instance.executeParents fuel x qc).1.view = x.view := by
  induction fuel generalizing x qc with
  | zero => rfl
  | succ fuel ih =>
    simp only [Instance.executeParents]
    split_ifs
    · rw [ih]
    · rfl

lemma sendExecuteMsg_view (x : Instance) (t : TxnManager) (id : ℕ) : (x.sendExecuteMsg t id).1.view = x.view := by
  simp only [Instance.sendExecuteMsg, Instance.walkParents]
  split_ifs
  · rw [executeParents_view]
  · rfl

lemma updateQCs_view (x : Instance) (qc : QuorumCertificate) (view : ℕ) : (x.updateQCs qc view).view = x.view := by
  simp only [Instance.updateQCs, Instance.setPreparedQC, Instance.setLockedQC]
  split_ifs <;> rfl

lemma updateLockQC_view (r : Replica) (qc : QuorumCertificate) (view txnid i j : ℕ) :
    ((r.updateLockQC cfg qc view txnid i).inst j).view = (r.inst j).view := by
  by_cases hj : j = i
  · subst hj
    simp only [updateLockQC]
    split_ifs
    · simp only [commit, enqueueExecutes, observe_inst, setInst_inst, Function.update_self]
      rw [sendExecuteMsg_view]
      exact updateQCs_view _ _ _
    · rw [setInst_inst, Function.update_self, updateQCs_view]
  · rw [updateLockQC_inst_of_ne cfg r qc view txnid i hj]

lemma SameViews.setInst (r : Replica) {i : ℕ} {x : Instance} (hx : x.view = (r.inst i).view) :
    SameViews r (r.setInst i x) := by
  refine ⟨rfl, fun j => ?_, rfl⟩
  by_cases hj : j = i
  · subst hj
    rw [setInst_inst, Function.update_self, hx]
  · rw [setInst_inst, Function.update_of_ne hj]

lemma SameViews.storeProposal (r : Replica) (m : ProposalMsg) (table : ℕ → TxnManager) :
    SameViews r (r.storeProposal m table) := by
  have h := SameViews.setInst r (i := m.instanceId)
    (x := { r.inst m.instanceId with
      hashToTxnid := UMap.insertNew (r.inst m.instanceId).hashToTxnid m.hash (m.index.getLastD 0) }) rfl
  exact ⟨h.1, h.2, h.3⟩

lemma SameViews.generic (r : Replica) (m : GenericMsg) : SameViews r ((r.storeGeneric m).lockGeneric cfg m) := by
  have hstore : SameViews r (r.storeGeneric m) := by
    have h := SameViews.setInst r (i := m.instanceId) (x := (r.inst m.instanceId).storeQC m.highQC) rfl
    exact ⟨h.1, h.2, h.3⟩
  have hhandled := (Handled.refl (r.storeGeneric m)).lockGeneric cfg m
  refine hstore.trans ⟨hhandled.nodeId, fun i => ?_, hhandled.nextIndex⟩
  simp only [lockGeneric]
  split_ifs
  · rw [updateLockQC_view]
  · rfl

lemma SameViews.vote (r : Replica) (id : ℕ) : SameViews r (r.sendHotstuffNewview cfg crypto id) := by
  rcases sendHotstuffNewview_cases cfg crypto r id with ⟨_, heq⟩ | ⟨_, hc⟩
  · rw [heq]
    exact .refl r
  · refine ⟨((Handled.refl r).sendHotstuffNewview cfg crypto id).nodeId, fun i => ?_, ?_⟩
    · rw [hc.inst]
    · rw [hc.exec]

lemma SameViews.countVote (r : Replica) (m : SyncMsg) : SameViews r (r.countVote cfg m) := by
  simp only [Replica.countVote, bindTxnid]
  split_ifs
  · have h := SameViews.setInst r (i := m.instanceId)
      (x := { r.inst m.instanceId with
        hashToTxnid := (r.inst m.instanceId).hashToTxnid.insert m.hash m.txnId }) rfl
    exact ⟨h.1, h.2, h.3⟩
  · exact ⟨rfl, fun _ => rfl, rfl⟩

end Views

lemma Idle.moves (h : Idle P r s) : Moves cfg crypto P Q B r₀ r s := .single (.idle h)

lemma Idle.of_threads (hnode : s.nodeId = r.nodeId) (hinst : s.inst = r.inst) (htable : s.table = r.table)
    (hexec : s.exec = r.exec) (hout : s.out = r.out) (htrace : s.trace = r.trace) : Idle P r s where
  nodeId := hnode
  chain i := by
    rw [hinst]
    exact .refl _
  queues i m hm := by
    rw [Replica.queues, hinst] at hm
    exact Or.inl hm
  table := htable
  exec := hexec
  out := hout
  trace := Or.inl htrace

lemma moves_of_threads (hnode : s.nodeId = r.nodeId) (hinst : s.inst = r.inst) (htable : s.table = r.table)
    (hexec : s.exec = r.exec) (hout : s.out = r.out) (htrace : s.trace = r.trace) : Moves cfg crypto P Q B r₀ r s :=
  (Idle.of_threads hnode hinst htable hexec hout htrace).moves

lemma Idle.setQueues {i : ℕ} {temp prior : List GenericMsg}
    (h : ∀ m ∈ prior ++ temp, m ∈ r.queues i ∨ m.instanceId = i ∧ P (.generic m)) :
    Idle P r (r.setInst i { r.inst i with tempQueue := temp, priorQueue := prior }) where
  nodeId := rfl
  chain j := by
    by_cases hj : j = i
    · subst hj
      exact ⟨temp, prior, by simp⟩
    · rw [setInst_inst, Function.update_of_ne hj]
      exact .refl _
  queues j m hm := by
    by_cases hj : j = i
    · subst hj
      simp only [Replica.queues, setInst_inst, Function.update_self] at hm
      exact h m hm
    · simp only [Replica.queues, setInst_inst, Function.update_of_ne hj] at hm
      exact Or.inl hm
  table := rfl
  exec := rfl
  out := rfl
  trace := Or.inl rfl

section Handlers

lemma storeGeneric_lockGeneric_table {m : GenericMsg} :
    ((r.storeGeneric m).lockGeneric cfg m).table =
      Function.update r.table m.txnId (acceptGeneric (r.table m.txnId) m) := by
  simp only [lockGeneric]
  split_ifs
  · rw [updateLockQC_table]
    rfl
  · rfl

lemma sendHotstuffNewview_genericReceived {id k : ℕ} :
    ((r.sendHotstuffNewview cfg crypto id).table k).genericReceived = (r.table k).genericReceived := by
  rcases sendHotstuffNewview_cases cfg crypto r id with ⟨_, heq⟩ | ⟨_, hc⟩
  · rw [heq]
  · rw [hc.table]
    by_cases hk : k = id
    · subst hk
      rw [Function.update_self]
      obtain ⟨_, _, _, heq⟩ := @castVote_eq cfg
        { r.table k with genericQC := r.ownShare cfg crypto k, syncSent := true } r.nodeId
      rw [heq]
    · rw [Function.update_of_ne hk]

lemma voteGeneric_genericReceived (r : Replica) (m : GenericMsg) :
    ((r.voteGeneric cfg crypto m).table m.txnId).genericReceived = true := by
  rw [voteGeneric, sendHotstuffNewview_genericReceived, storeGeneric_lockGeneric_table, Function.update_self]
  rfl

lemma voteGeneric_moves {m : GenericMsg} (hm : P (.generic m)) (hsame : SameViews r₀ r) (htable : r.table = r₀.table)
    (hindex : r.exec.nextIndex < m.txnId) (hview : m.view ≤ (r.inst m.instanceId).view)
    (hacc : AcceptsGeneric cfg crypto r m) : Moves cfg crypto P Q B r₀ r (r.voteGeneric cfg crypto m) := by
  have hlt : r₀.exec.nextIndex < m.txnId := hsame.nextIndex ▸ hindex
  refine .tail (.single (.generic hm hindex hview hacc))
    (.vote (hsame.trans (.generic r m)) hlt (Or.inl (htable ▸ hacc.fresh)) ?_)
  rw [storeGeneric_lockGeneric_table, Function.update_self]
  rfl

lemma handleGeneric_moves {m : GenericMsg} (hm : P (.generic m)) (hsame : SameViews r₀ r) (htable : r.table = r₀.table)
    (hs : r.handleGeneric cfg crypto m = some s) : Moves cfg crypto P Q B r₀ r s := by
  simp only [handleGeneric] at hs
  split_ifs at hs with hview hindex
  · obtain rfl := Option.some.inj hs
    apply Idle.moves
    refine Idle.setQueues (r := r) (i := m.instanceId) (fun m' hm' => ?_)
    rw [← List.append_assoc] at hm'
    rcases List.mem_append.mp hm' with hm' | hm'
    · exact Or.inl hm'
    · rw [List.mem_singleton.mp hm']
      exact Or.inr ⟨rfl, hm⟩
  · obtain rfl := Option.some.inj hs
    exact .refl
  · have hlt : r₀.exec.nextIndex < m.txnId := by
      have := hsame.nextIndex
      omega
    have hvote : AcceptsGeneric cfg crypto r m → Moves cfg crypto P Q B r₀ r (r.voteGeneric cfg crypto m) :=
      voteGeneric_moves hm hsame htable (by omega) (by omega)
    rcases processHotstuffGeneric_cases hs with rfl | ⟨hacc, ⟨hready, ha⟩ | ⟨_, rfl⟩⟩
    · exact .refl
    · refine .tail (hvote hacc) (.advance (hsame.trans ((SameViews.generic r m).trans (.vote _ _)))
        (.generic hlt (htable ▸ hacc.fresh)) ⟨hready.1, hready.2, ?_⟩ ha)
      exact voteGeneric_genericReceived r m
    · exact hvote hacc

lemma handle_moves {m : Msg} (hm : P m) (hs : r.handle cfg crypto m = some s) : Moves cfg crypto P Q B r r s := by
  cases m with
  | proposal m =>
    simp only [handle, handleProposal] at hs
    split_ifs at hs with hindex
    · obtain rfl := Option.some.inj hs
      exact .refl
    · rcases processHotstuffProposal_cases hs with rfl | ⟨table, hacc, ⟨hready, ha⟩ | ⟨_, rfl⟩⟩
      · exact .refl
      · refine .tail (.single (.proposal hm (by omega) hacc)) (.advance (.storeProposal r m table)
          (.proposal hm rfl (by omega) hacc.fresh) ?_ ha)
        simp only [storeProposal, rememberTxnid, setInst_table, Function.update_self]
        exact ⟨hready.1, rfl, hready.2⟩
      · exact .single (.proposal hm (by omega) hacc)
  | generic m => exact handleGeneric_moves hm (.refl r) rfl hs
  | sync m =>
    simp only [handle, handleSync] at hs
    split_ifs at hs with hstale
    · obtain rfl := Option.some.inj hs
      exact .refl
    · rcases processHotstuffNewView_cases hs with rfl | ⟨hh, ⟨hready, ha⟩ | ⟨_, rfl⟩⟩
      · exact .refl
      · obtain ⟨_, _, _, _, _, heq⟩ := hotstuffNewViewed_eq (r.table m.txnId) r.nodeId m
        have hg := hready.2.2
        rw [heq] at hg
        refine .tail (.single (.count hm hstale hh)) (.advance (.countVote r m)
          (.count hg (hotstuffNewViewed_fresh hready.1)) ?_ ha)
        simp only [countVote, setTxn_table, Function.update_self]
        exact ⟨hotstuffNewViewed_newViewed hready.1, hready.2.1, hready.2.2⟩
      · exact .single (.count hm hstale hh)

lemma replay_moves {i : ℕ} (hparked : ∀ i, ∀ m ∈ r.queues i, P (.generic m))
    (hs : r.replay cfg crypto i = some s) : Moves cfg crypto P Q B r r s := by
  simp only [replay] at hs
  split at hs
  · cases hs
  · rename_i m rest hq
    have hmem : ∀ m', m' ∈ m :: rest → m' ∈ r.queues i := by
      intro m' hm'
      rw [← hq] at hm'
      exact List.mem_append_left _ hm'
    have hidle : Idle P r (r.setInst i { r.inst i with priorQueue := rest }) := by
      refine Idle.setQueues (r := r) (i := i) (fun m' hm' => Or.inl ?_)
      rcases List.mem_append.mp hm' with hm' | hm'
      · exact hmem m' (List.mem_cons_of_mem m hm')
      · exact List.mem_append_right _ hm'
    exact hidle.moves.trans
      (handleGeneric_moves (hparked i m (hmem m List.mem_cons_self)) hidle.sameViews rfl hs)

lemma handleGenericP_moves {id : ℕ} (hq : Q id) (hsame : SameViews r₀ r)
    (hs : r.handleGenericP cfg crypto id = some s) : Moves cfg crypto P Q B r₀ r s := by
  simp only [handleGenericP] at hs
  split_ifs at hs with hindex
  · obtain rfl := Option.some.inj hs
    exact .refl
  · obtain ⟨hh, rfl⟩ := processHotstuffGenericP_cases hs
    have hlt : r₀.exec.nextIndex < id := by
      have := hsame.nextIndex
      omega
    have hsame' : SameViews r (r.announceGeneric cfg crypto id) := ⟨rfl, fun _ => rfl, rfl⟩
    refine .tail (.single (.announce hsame hq hlt hh))
      (.vote (r := r.announceGeneric cfg crypto id) (hsame.trans hsame') hlt (Or.inr hq) ?_)
    simp [announceGeneric]

end Handlers

section Threads

lemma proposalStep_moves {i j : ℕ} (hbatch : ∀ slot batch, r.threads.proposal = .stamped slot batch → B slot batch)
    (hs : r.proposalStep cfg crypto i j = some s) : Moves cfg crypto P Q B r r s := by
  simp only [proposalStep] at hs
  split at hs
  · split_ifs at hs
    obtain rfl := Option.some.inj hs
    exact moves_of_threads rfl rfl rfl rfl rfl rfl
  · split_ifs at hs
    obtain rfl := Option.some.inj hs
    exact moves_of_threads rfl rfl rfl rfl rfl rfl
  · split_ifs at hs
    split at hs
    · cases hs
    · rename_i batch rest _
      obtain rfl := Option.some.inj hs
      exact Idle.moves ⟨rfl, fun _ => .refl _, fun _ _ hm => Or.inl hm, rfl, rfl, rfl, Or.inr ⟨batch, rfl⟩⟩
  · obtain rfl := Option.some.inj hs
    exact moves_of_threads rfl rfl rfl rfl rfl rfl
  · rename_i slot batch hpc
    obtain ⟨t, ht, rfl⟩ := Option.map_eq_some_iff.mp hs
    obtain ⟨_, table, htable, rfl⟩ := createAndSendHotstuffPrepare_cases ht
    exact .tail (.single (.batch (hbatch slot batch hpc) hpc htable)) (.idle (.of_threads rfl rfl rfl rfl rfl rfl))
  · obtain rfl := Option.some.inj hs
    exact moves_of_threads rfl rfl rfl rfl rfl rfl

lemma genericStep_moves {i : ℕ} {busy : Bool} (hq : ∀ id, r.threads.generic = .holding id → Q id)
    (hs : r.genericStep cfg crypto i busy = some s) : Moves cfg crypto P Q B r r s := by
  simp only [genericStep] at hs
  split at hs
  · split_ifs at hs
    obtain rfl := Option.some.inj hs
    exact moves_of_threads rfl rfl rfl rfl rfl rfl
  · split_ifs at hs
    obtain rfl := Option.some.inj hs
    exact moves_of_threads rfl rfl rfl rfl rfl rfl
  · split_ifs at hs
    obtain rfl := Option.some.inj hs
    exact moves_of_threads rfl rfl rfl rfl rfl rfl
  · obtain rfl := Option.some.inj hs
    exact moves_of_threads rfl rfl rfl rfl rfl rfl
  · obtain rfl := Option.some.inj hs
    exact moves_of_threads rfl rfl rfl rfl rfl rfl
  · rename_i id hpc
    split_ifs at hs
    · obtain rfl := Option.some.inj hs
      exact moves_of_threads rfl rfl rfl rfl rfl rfl
    · obtain ⟨t, ht, rfl⟩ := Option.map_eq_some_iff.mp hs
      exact (handleGenericP_moves (hq id hpc) (.refl r) ht).tail (.idle (.of_threads rfl rfl rfl rfl rfl rfl))

end Threads

-- What the event brings from outside.
def Supplies (cfg : Config) (P : Msg → Prop) (B : ℕ → ClientQueryBatch → Prop) (r : Replica) : Event → Prop
  | .deliver m => P m
  | .proposalThread _ _ => ∀ slot batch, r.threads.proposal = .stamped slot batch → B slot batch
  | .recycle _ t => t.Recycled ∧ t.instanceId < cfg.totInstances
  | _ => True

def Held (r : Replica) (id : ℕ) : Prop := r.threads.generic = .holding id ∨ id ∈ r.threads.requeued

lemma step_moves {e : Event} (he : Supplies cfg P B r e) (hparked : ∀ i, ∀ m ∈ r.queues i, P (.generic m))
    (hq : ∀ id, r.Held id → Q id) (hs : r.step cfg crypto e = some s) : Moves cfg crypto P Q B r r s := by
  cases e with
  | deliver m => exact handle_moves he hs
  | replay i => exact replay_moves hparked hs
  | clientBatch i batch =>
    simp only [step, enqueueBatch] at hs
    split_ifs at hs
    obtain rfl := Option.some.inj hs
    exact moves_of_threads rfl rfl rfl rfl rfl rfl
  | proposalThread i j => exact proposalStep_moves he hs
  | genericThread i busy => exact genericStep_moves (fun id hpc => hq id (Or.inl hpc)) hs
  | workerGenericP k =>
    simp only [step, workerGenericP] at hs
    split at hs
    · rename_i id hk
      have hthreads : Moves cfg crypto P Q B r r (r.setRequeued (r.threads.requeued.eraseIdx k)) :=
        moves_of_threads rfl rfl rfl rfl rfl rfl
      have hsame : SameViews r (r.setRequeued (r.threads.requeued.eraseIdx k)) := ⟨rfl, fun _ => rfl, rfl⟩
      exact hthreads.trans (handleGenericP_moves (hq id (Or.inr (List.mem_of_getElem? hk))) hsame hs)
    · cases hs
  | execute k =>
    obtain ⟨e, he, rfl⟩ := Option.map_eq_some_iff.mp hs
    exact .single (.execute he)
  | recycle id t =>
    simp only [step, Replica.recycle] at hs
    split_ifs at hs with hindex
    obtain rfl := Option.some.inj hs
    exact .single (.recycle hindex he.1 he.2)

lemma Unready.imp {P' : Msg → Prop} (hP : ∀ m, P m → P' m) {id : ℕ} (h : Unready P r id) : Unready P' r id := by
  cases h with
  | proposal hm hid hindex hf => exact .proposal (hP _ hm) hid hindex hf
  | generic hindex hf => exact .generic hindex hf
  | count hg hf => exact .count hg hf

lemma Move.imp {P' : Msg → Prop} {Q' : ℕ → Prop} {B' : ℕ → ClientQueryBatch → Prop} (hP : ∀ m, P m → P' m)
    (hQ : ∀ id, Q id → Q' id) (hB : ∀ slot batch, B slot batch → B' slot batch)
    (h : Move cfg crypto P Q B r₀ r s) : Move cfg crypto P' Q' B' r₀ r s := by
  cases h with
  | idle h =>
    refine .idle ⟨h.nodeId, h.chain, fun i m hm => ?_, h.table, h.exec, h.out, h.trace⟩
    exact (h.queues i m hm).imp_right fun ⟨hi, hm⟩ => ⟨hi, hP _ hm⟩
  | proposal hm hindex hacc => exact .proposal (hP _ hm) hindex hacc
  | generic hm hindex hview hacc => exact .generic (hP _ hm) hindex hview hacc
  | vote hsame hindex hfresh hg => exact .vote hsame hindex (hfresh.imp_right (hQ _)) hg
  | count hm hfresh hh => exact .count (hP _ hm) hfresh hh
  | advance hsame hfresh hready h => exact .advance hsame (hfresh.imp hP) hready h
  | batch hbatch hpc hfill => exact .batch (hB _ _ hbatch) hpc hfill
  | announce hsame hid hindex hh => exact .announce hsame (hQ _ hid) hindex hh
  | execute h => exact .execute h
  | recycle hindex ht hi => exact .recycle hindex ht hi

lemma Moves.invariant {I : Replica → Prop} (hI : ∀ r s, Move cfg crypto P Q B r₀ r s → I r → I s)
    (h : Moves cfg crypto P Q B r₀ r s) (hr : I r) : I s := by
  induction h with
  | refl => exact hr
  | tail _ hmove ih => exact hI _ _ hmove ih

lemma queues_of_inst {j : ℕ} {x : Instance} (hinst : s.inst = Function.update r.inst j x)
    (hprior : x.priorQueue = (r.inst j).priorQueue) (htemp : x.tempQueue = (r.inst j).tempQueue) (i : ℕ) :
    s.queues i = r.queues i := by
  rw [queues, hinst]
  by_cases hi : i = j
  · subst hi
    rw [Function.update_self, hprior, htemp, queues]
  · rw [Function.update_of_ne hi, queues]

section Queues

variable (r)

lemma storeProposal_queues (m : ProposalMsg) (table : ℕ → TxnManager) (i : ℕ) :
    (r.storeProposal m table).queues i = r.queues i := by
  apply queues_of_inst <;> rfl

lemma storeGeneric_queues (m : GenericMsg) (i : ℕ) : (r.storeGeneric m).queues i = r.queues i := by
  apply queues_of_inst <;> rfl

lemma lockGeneric_queues (m : GenericMsg) (i : ℕ) : (r.lockGeneric cfg m).queues i = r.queues i := by
  simp only [lockGeneric]
  split_ifs
  · exact updateLockQC_queues ..
  · rfl

lemma sendHotstuffNewview_queues (id i : ℕ) : (r.sendHotstuffNewview cfg crypto id).queues i = r.queues i := by
  rcases sendHotstuffNewview_cases cfg crypto r id with ⟨_, heq⟩ | ⟨_, hc⟩
  · rw [heq]
  · rw [queues, hc.inst, queues]

lemma countVote_queues (m : SyncMsg) (i : ℕ) : (r.countVote cfg m).queues i = r.queues i := by
  simp only [countVote, bindTxnid]
  split_ifs
  · apply queues_of_inst <;> rfl
  · rfl

lemma storeBatch_queues (slot : ℕ) (batch : ClientQueryBatch) (table : ℕ → TxnManager) (i : ℕ) :
    (r.storeBatch cfg crypto slot batch table).queues i = r.queues i := by
  apply queues_of_inst <;> rfl

end Queues

lemma Move.queues (h : Move cfg crypto P Q B r₀ r s) (i : ℕ) :
    ∀ m ∈ s.queues i, m ∈ r.queues i ∨ m.instanceId = i ∧ P (.generic m) := by
  intro m hm
  cases h with
  | idle h => exact h.queues i m hm
  | proposal => exact Or.inl (storeProposal_queues r₀ _ _ i ▸ hm)
  | generic =>
    rw [lockGeneric_queues, storeGeneric_queues] at hm
    exact Or.inl hm
  | vote => exact Or.inl (sendHotstuffNewview_queues r _ i ▸ hm)
  | count => exact Or.inl (countVote_queues r₀ _ i ▸ hm)
  | advance _ _ _ h => exact Or.inl (advanceView_queues h i ▸ hm)
  | batch => exact Or.inl (storeBatch_queues r₀ _ _ _ i ▸ hm)
  | announce => exact Or.inl hm
  | execute => exact Or.inl hm
  | recycle => exact Or.inl hm

lemma Move.parked (h : Move cfg crypto P Q B r₀ r s) (hr : ∀ i, ∀ m ∈ r.queues i, P (.generic m)) (i : ℕ) :
    ∀ m ∈ s.queues i, P (.generic m) := by
  intro m hm
  rcases h.queues i m hm with hm | ⟨_, hm⟩
  · exact hr i m hm
  · exact hm

lemma Reach.moves_invariant {ok : Replica → Event → Prop} {init : Replica} {I : Replica → Prop}
    (hok : ∀ r e, ok r e → Supplies cfg P (fun _ _ => True) r e) (hparked : ∀ i, init.queues i = []) (hinit : I init)
    (hI : ∀ r₀ r s, Move cfg crypto P (fun _ => True) (fun _ _ => True) r₀ r s → I r → I s)
    (h : Reach (step cfg crypto) ok init r) : I r := by
  have hboth : I r ∧ ∀ i, ∀ m ∈ r.queues i, P (.generic m) := by
    apply h.invariant (fun r => I r ∧ ∀ i, ∀ m ∈ r.queues i, P (.generic m))
    · refine ⟨hinit, fun i m hm => ?_⟩
      rw [hparked] at hm
      cases hm
    · intro s e t _ he hs hi
      have hmoves : Moves cfg crypto P (fun _ => True) (fun _ _ => True) s s t :=
        step_moves (hok s e he) hi.2 (fun _ _ => trivial) hs
      apply hmoves.invariant _ hi
      intro u v huv hu
      exact ⟨hI s u v huv hu.1, huv.parked hu.2⟩
  exact hboth.1

end Replica

end SpotLess
