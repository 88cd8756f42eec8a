import SpotLess.FirstCommit

namespace SpotLess

open Lib

-- The parts of an instance that decide what is done with a message.
def Instance.gate (x : Instance) : ℕ × ℕ × List GenericMsg × List GenericMsg :=
  (x.view, x.currNewViewed, x.tempQueue, x.priorQueue)

namespace Replica

variable {cfg : Config} {crypto : Crypto} {H : ℕ → ℕ → Bytes} {r₀ r s t : Replica} {p : ℕ}

section Gate

lemma updateQCs_gate (x : Instance) (qc : QuorumCertificate) (view : ℕ) : (x.updateQCs qc view).gate = x.gate := by
  simp only [Instance.updateQCs, Instance.setPreparedQC, Instance.setLockedQC]
  split_ifs <;> rfl

lemma executeParents_gate (fuel : ℕ) (x : Instance) (qc : QuorumCertificate) :
    (Instance.executeParents fuel x qc).1.gate = x.gate := by
  induction fuel generalizing x qc with
  | zero => rfl
  | succ fuel ih =>
    simp only [Instance.executeParents]
    split_ifs
    · rw [ih]
      rfl
    · rfl

lemma sendExecuteMsg_gate (x : Instance) (t : TxnManager) (id : ℕ) : (x.sendExecuteMsg t id).1.gate = x.gate := by
  have hwalk : (x.walkParents t.hash).1.gate = x.gate := by
    simp only [Instance.walkParents]
    split_ifs
    · exact executeParents_gate _ _ _
    · rfl
  exact hwalk

lemma updateLockQC_gate (r : Replica) (qc : QuorumCertificate) (view txnid i j : ℕ) :
    ((r.updateLockQC cfg qc view txnid i).inst j).gate = (r.inst j).gate := by
  by_cases hj : j = i
  · subst hj
    simp only [updateLockQC]
    split_ifs
    · simp only [commit, enqueueExecutes, observe_inst, setInst_inst, Function.update_self]
      rw [sendExecuteMsg_gate]
      exact updateQCs_gate _ _ _
    · rw [setInst_inst, Function.update_self, updateQCs_gate]
  · rw [updateLockQC_inst_of_ne cfg r qc view txnid i hj]

lemma enterView_gate (r : Replica) (i view id : ℕ) : ((r.enterView cfg i view id).inst i).gate =
    (view, id % 2 ^ 32, [], (r.inst i).priorQueue ++ (r.inst i).tempQueue) := by
  simp only [enterView]
  split_ifs <;> simp [Instance.gate, postPrimary, setCurrNewViewed, setView]

lemma advanceView_gate {id : ℕ} (ha : r.advanceView cfg id = some s) :
    (s.inst (r.table id).instanceId).gate = ((r.inst (r.table id).instanceId).view + 1, id % 2 ^ 32, [],
      (r.inst (r.table id).instanceId).priorQueue ++ (r.inst (r.table id).instanceId).tempQueue) := by
  obtain ⟨_, _, rfl⟩ := advanceView_eq ha
  obtain ⟨i, hi⟩ : ∃ i, (r.table id).instanceId = i := ⟨_, rfl⟩
  obtain ⟨u, hu⟩ : ∃ u, (r.installQC id).updateLockQC cfg (genericQCOf (r.table id) (r.inst i).view)
    ((r.inst i).view + 1) id i = u := ⟨_, rfl⟩
  have hgate : (u.inst i).gate = (r.inst i).gate := by
    rw [← hu, updateLockQC_gate]
    simp only [installQC, hi, observe_inst, setInst_inst, Function.update_self]
    rfl
  obtain ⟨_, _, htemp, hprior⟩ : (u.inst i).view = (r.inst i).view ∧ (u.inst i).currNewViewed =
    (r.inst i).currNewViewed ∧ (u.inst i).tempQueue = (r.inst i).tempQueue ∧
      (u.inst i).priorQueue = (r.inst i).priorQueue := by simpa [Instance.gate] using hgate
  rw [hi, hu, enterView_gate, htemp, hprior]

inductive Gates (r s : Replica) : Prop
  | same (h : ∀ i, (s.inst i).gate = (r.inst i).gate)
  | enters {i mark : ℕ} (h : (s.inst i).gate =
      ((r.inst i).view + 1, mark, [], (r.inst i).priorQueue ++ (r.inst i).tempQueue))
      (hne : ∀ j, j ≠ i → (s.inst j).gate = (r.inst j).gate)

lemma gates_of_inst (h : s.inst = r.inst) : Gates r s := .same fun i => by rw [h]

lemma gates_of_update {i : ℕ} {x : Instance} (h : s.inst = Function.update r.inst i x)
    (hx : x.gate = (r.inst i).gate) (j : ℕ) : (s.inst j).gate = (r.inst j).gate := by
  rw [h, Function.update_apply]
  split_ifs with hj
  · rw [hj, hx]
  · rfl

lemma Gates.advance (h : ∀ i, (s.inst i).gate = (r.inst i).gate) {id : ℕ} (ha : s.advanceView cfg id = some t) :
    Gates r t := by
  obtain ⟨i, hi⟩ : ∃ i, (s.table id).instanceId = i := ⟨_, rfl⟩
  have hgate := advanceView_gate ha
  rw [hi] at hgate
  obtain ⟨hview, _, htemp, hprior⟩ : (s.inst i).view = (r.inst i).view ∧ (s.inst i).currNewViewed =
    (r.inst i).currNewViewed ∧ (s.inst i).tempQueue = (r.inst i).tempQueue ∧
      (s.inst i).priorQueue = (r.inst i).priorQueue := by simpa [Instance.gate] using h i
  rw [hview, htemp, hprior] at hgate
  refine .enters hgate fun j hj => ?_
  rw [advanceView_inst_of_ne ha (hi ▸ hj), h j]

lemma storeProposal_gate (r : Replica) (m : ProposalMsg) (table : ℕ → TxnManager) (i : ℕ) :
    ((r.storeProposal m table).inst i).gate = (r.inst i).gate := by
  apply gates_of_update <;> rfl

lemma lockGeneric_gate (r : Replica) (m : GenericMsg) (i : ℕ) :
    (((r.storeGeneric m).lockGeneric cfg m).inst i).gate = (r.inst i).gate := by
  have hstore : ((r.storeGeneric m).inst i).gate = (r.inst i).gate := by apply gates_of_update <;> rfl
  simp only [lockGeneric]
  split_ifs
  · rw [updateLockQC_gate, hstore]
  · exact hstore

lemma sendHotstuffNewview_inst (r : Replica) (id : ℕ) : (r.sendHotstuffNewview cfg crypto id).inst = r.inst := by
  rcases sendHotstuffNewview_cases cfg crypto r id with ⟨_, heq⟩ | ⟨_, hc⟩
  · rw [heq]
  · exact hc.inst

lemma voteGeneric_gate (r : Replica) (m : GenericMsg) (i : ℕ) :
    ((r.voteGeneric cfg crypto m).inst i).gate = (r.inst i).gate := by
  rw [voteGeneric, sendHotstuffNewview_inst, lockGeneric_gate]

lemma countVote_gate (r : Replica) (m : SyncMsg) (i : ℕ) : ((r.countVote cfg m).inst i).gate = (r.inst i).gate := by
  simp only [countVote]
  split_ifs
  · apply gates_of_update <;> rfl
  · rfl

lemma processHotstuffProposal_gates {m : ProposalMsg} (hs : r.processHotstuffProposal cfg crypto m = some s) :
    Gates r s := by
  rcases processHotstuffProposal_cases hs with rfl | ⟨table, _, ⟨_, ha⟩ | ⟨_, rfl⟩⟩
  · exact .same fun _ => rfl
  · exact .advance (storeProposal_gate r m table) ha
  · exact .same (storeProposal_gate r m table)

lemma processHotstuffGeneric_gates {m : GenericMsg} (hs : r.processHotstuffGeneric cfg crypto m = some s) :
    Gates r s := by
  rcases processHotstuffGeneric_cases hs with rfl | ⟨_, ⟨_, ha⟩ | ⟨_, rfl⟩⟩
  · exact .same fun _ => rfl
  · exact .advance (voteGeneric_gate r m) ha
  · exact .same (voteGeneric_gate r m)

lemma processHotstuffNewView_gates {m : SyncMsg} (hs : r.processHotstuffNewView cfg crypto m = some s) :
    Gates r s := by
  rcases processHotstuffNewView_cases hs with rfl | ⟨_, ⟨_, ha⟩ | ⟨_, rfl⟩⟩
  · exact .same fun _ => rfl
  · exact .advance (countVote_gate r m) ha
  · exact .same (countVote_gate r m)

lemma handleGeneric_gates {m : GenericMsg} (hs : r.handleGeneric cfg crypto m = some s) : Gates r s ∨
    (r.inst m.instanceId).view < m.view ∧ s = r.setInst m.instanceId
      { r.inst m.instanceId with tempQueue := (r.inst m.instanceId).tempQueue ++ [m] } := by
  simp only [handleGeneric] at hs
  split_ifs at hs with hview
  · exact .inr ⟨hview, (Option.some.inj hs).symm⟩
  · obtain rfl := Option.some.inj hs
    exact .inl (.same fun _ => rfl)
  · exact .inl (processHotstuffGeneric_gates hs)

lemma proposalStep_gates {i j : ℕ} (hs : r.proposalStep cfg crypto i j = some s) : Gates r s := by
  simp only [proposalStep] at hs
  split at hs
  · split_ifs at hs
    obtain rfl := Option.some.inj hs
    exact gates_of_inst rfl
  · split_ifs at hs
    obtain rfl := Option.some.inj hs
    exact gates_of_inst rfl
  · split_ifs at hs
    split at hs
    · cases hs
    · obtain rfl := Option.some.inj hs
      exact gates_of_inst rfl
  · obtain rfl := Option.some.inj hs
    exact gates_of_inst rfl
  · obtain ⟨t, ht, rfl⟩ := Option.map_eq_some_iff.mp hs
    obtain ⟨_, table, _, rfl⟩ := createAndSendHotstuffPrepare_cases ht
    refine .same fun k => ?_
    apply gates_of_update <;> rfl
  · obtain rfl := Option.some.inj hs
    exact gates_of_inst rfl

lemma genericStep_gates {i : ℕ} {busy : Bool} (hs : r.genericStep cfg crypto i busy = some s) : Gates r s := by
  simp only [genericStep] at hs
  split at hs
  all_goals try split_ifs at hs
  all_goals try
    obtain rfl := Option.some.inj hs
    exact gates_of_inst rfl
  obtain ⟨t, ht, rfl⟩ := Option.map_eq_some_iff.mp hs
  have hinst := handleGenericP_inst ht
  exact gates_of_inst hinst

lemma step_gates {e : Event} (hs : r.step cfg crypto e = some s) : Gates r s ∨
    (∃ m, e = .deliver (.generic m) ∧ r.handleGeneric cfg crypto m = some s) ∨
    ∃ i m rest, e = .replay i ∧ (r.inst i).priorQueue = m :: rest ∧
      (r.setInst i { r.inst i with priorQueue := rest }).handleGeneric cfg crypto m = some s := by
  cases e with
  | deliver m =>
    cases m with
    | proposal m =>
      left
      simp only [step, handle, handleProposal] at hs
      split_ifs at hs
      · obtain rfl := Option.some.inj hs
        exact gates_of_inst rfl
      · exact processHotstuffProposal_gates hs
    | generic m => exact .inr (.inl ⟨m, rfl, hs⟩)
    | sync m =>
      left
      simp only [step, handle, handleSync] at hs
      split_ifs at hs
      · obtain rfl := Option.some.inj hs
        exact gates_of_inst rfl
      · exact processHotstuffNewView_gates hs
  | replay i =>
    simp only [step, replay] at hs
    split at hs
    · cases hs
    · rename_i m rest hq
      exact .inr (.inr ⟨i, m, rest, rfl, hq, hs⟩)
  | clientBatch i batch =>
    simp only [step, enqueueBatch] at hs
    split_ifs at hs
    obtain rfl := Option.some.inj hs
    exact .inl (gates_of_inst rfl)
  | proposalThread i j => exact .inl (proposalStep_gates hs)
  | genericThread i busy => exact .inl (genericStep_gates hs)
  | workerGenericP k =>
    simp only [step, workerGenericP] at hs
    split at hs
    · have hinst := handleGenericP_inst hs
      exact .inl (gates_of_inst hinst)
    · cases hs
  | execute k =>
    obtain ⟨e, _, rfl⟩ := Option.map_eq_some_iff.mp hs
    exact .inl (gates_of_inst rfl)
  | recycle id t =>
    simp only [step, Replica.recycle] at hs
    split_ifs at hs
    obtain rfl := Option.some.inj hs
    exact .inl (gates_of_inst rfl)

end Gate

section Queue

lemma gate_eq_iff {x y : Instance} : y.gate = x.gate ↔ y.view = x.view ∧ y.currNewViewed = x.currNewViewed ∧
    y.tempQueue = x.tempQueue ∧ y.priorQueue = x.priorQueue := by
  simp [Instance.gate]

lemma Gates.queues (h : Gates r s) (i : ℕ) : s.queues i = r.queues i := by
  have hsame : (s.inst i).gate = (r.inst i).gate → s.queues i = r.queues i := by
    intro heq
    obtain ⟨_, _, htemp, hprior⟩ := gate_eq_iff.mp heq
    rw [Replica.queues, htemp, hprior, Replica.queues]
  cases h with
  | same h => exact hsame (h i)
  | @enters j _ h hne =>
    by_cases hij : i = j
    · subst hij
      obtain ⟨_, _, htemp, hprior⟩ : _ ∧ _ ∧ (s.inst i).tempQueue = [] ∧
        (s.inst i).priorQueue = (r.inst i).priorQueue ++ (r.inst i).tempQueue := by simpa [Instance.gate] using h
      rw [Replica.queues, htemp, hprior, Replica.queues, List.append_nil]
    · exact hsame (hne i hij)

lemma handleGeneric_queues {m : GenericMsg} (hs : r.handleGeneric cfg crypto m = some s) {i : ℕ} {x : GenericMsg}
    (hx : x ∈ r.queues i) : x ∈ s.queues i := by
  rcases handleGeneric_gates hs with hg | ⟨_, rfl⟩
  · rwa [hg.queues]
  · by_cases hi : i = m.instanceId
    · subst hi
      simp only [Replica.queues, setInst_inst, Function.update_self, ← List.append_assoc]
      exact List.mem_append_left _ hx
    · simpa only [Replica.queues, setInst_inst, Function.update_of_ne hi] using hx

lemma step_queues {e : Event} (hs : r.step cfg crypto e = some s) {i : ℕ} {x : GenericMsg} (hx : x ∈ r.queues i) :
    x ∈ s.queues i ∨ ∃ rest, (r.setInst i { r.inst i with priorQueue := rest }).handleGeneric cfg crypto x = some s := by
  rcases step_gates hs with hg | ⟨m, _, hm⟩ | ⟨j, m, rest, _, hq, hm⟩
  · exact .inl (hg.queues i ▸ hx)
  · exact .inl (handleGeneric_queues hm hx)
  · by_cases hi : i = j
    · subst hi
      rw [Replica.queues, hq, List.cons_append, List.mem_cons] at hx
      rcases hx with rfl | hx
      · exact .inr ⟨rest, hm⟩
      · refine .inl (handleGeneric_queues hm ?_)
        simpa only [Replica.queues, setInst_inst, Function.update_self] using hx
    · refine .inl (handleGeneric_queues hm ?_)
      simpa only [Replica.queues, setInst_inst, Function.update_of_ne hi] using hx

def Waiting (r : Replica) : Prop := ∀ i, ∀ m ∈ (r.inst i).tempQueue, (r.inst i).view < m.view

lemma Gates.waiting (h : Gates r s) (hw : r.Waiting) : s.Waiting := by
  have hsame : ∀ i, (s.inst i).gate = (r.inst i).gate → ∀ m ∈ (s.inst i).tempQueue, (s.inst i).view < m.view := by
    intro i heq
    obtain ⟨hview, _, htemp, _⟩ := gate_eq_iff.mp heq
    rw [hview, htemp]
    exact hw i
  intro i
  cases h with
  | same h => exact hsame i (h i)
  | @enters j _ h hne =>
    by_cases hij : i = j
    · subst hij
      obtain ⟨_, _, htemp, _⟩ : _ ∧ _ ∧ (s.inst i).tempQueue = [] ∧ _ := by simpa [Instance.gate] using h
      rw [htemp]
      exact nofun
    · exact hsame i (hne i hij)

lemma handleGeneric_waiting {m : GenericMsg} (hs : r.handleGeneric cfg crypto m = some s) (hw : r.Waiting) :
    s.Waiting := by
  rcases handleGeneric_gates hs with hg | ⟨hview, rfl⟩
  · exact hg.waiting hw
  · intro i
    by_cases hi : i = m.instanceId
    · subst hi
      simp only [setInst_inst, Function.update_self, List.mem_append, List.mem_singleton]
      rintro x (hx | rfl)
      · exact hw _ x hx
      · exact hview
    · simp only [setInst_inst, Function.update_of_ne hi]
      exact hw i

lemma Waiting.step {e : Event} (hw : r.Waiting) (hs : r.step cfg crypto e = some s) : s.Waiting := by
  rcases step_gates hs with hg | ⟨m, _, hm⟩ | ⟨j, m, rest, _, hq, hm⟩
  · exact hg.waiting hw
  · exact handleGeneric_waiting hm hw
  · refine handleGeneric_waiting hm fun i => ?_
    by_cases hi : i = j
    · subst hi
      simp only [setInst_inst, Function.update_self]
      exact hw i
    · simp only [setInst_inst, Function.update_of_ne hi]
      exact hw i

end Queue

section Fate

def Passed (r : Replica) : Msg → Prop
  | .proposal m => m.view < (r.inst m.instanceId).view
  | .generic m => m.view < (r.inst m.instanceId).view
  | .sync m => m.view < (r.inst m.instanceId).view

def Queued (r : Replica) : Msg → Prop
  | .generic m => m ∈ r.queues m.instanceId
  | _ => False

def Noted (r : Replica) : Msg → Prop
  | .proposal m => (r.table (m.txnId + 2)).proposalReceived = true
  | .generic m => (r.table m.txnId).genericReceived = true
  | .sync m => m.returnNodeId ∈ (r.table m.txnId).voteNewView ∨ (r.table m.txnId).newViewed = true

def Retained (r : Replica) (m : Msg) : Prop := r.Passed m ∨ r.Queued m ∨ r.Noted m

-- What `exception_msg_handling` and the leader check turn away.
def Dropped (cfg : Config) (r : Replica) : Msg → Prop
  | .proposal m => m.txnId ≤ r.exec.nextIndex
  | .generic m => m.view ≤ (r.inst m.instanceId).view ∧ (m.txnId ≤ r.exec.nextIndex ∨
      cfg.getViewPrimary (r.inst m.instanceId).view m.instanceId ≠ m.returnNodeId)
  | .sync m => r.StaleSync m

lemma hotstuffNewViewed_noted (t : TxnManager) (me : ℕ) (m : SyncMsg) :
    m.returnNodeId ∈ (hotstuffNewViewed cfg t me m).1.voteNewView ∨
      (hotstuffNewViewed cfg t me m).1.newViewed = true := by
  simp only [hotstuffNewViewed]
  split_ifs with hviewed hmem
  · exact .inr hviewed
  · exact .inl hmem
  · exact .inr rfl
  · exact .inl (List.mem_append_right _ (List.mem_singleton_self _))

lemma Noted.advance {m : Msg} (h : r.Noted m) {id : ℕ} (ha : r.advanceView cfg id = some s) : s.Noted m := by
  have htable := advanceView_table ha
  have hsame : ∀ k, (s.table k).proposalReceived = (r.table k).proposalReceived ∧
      (s.table k).genericReceived = (r.table k).genericReceived ∧ (s.table k).voteNewView = (r.table k).voteNewView ∧
        (s.table k).newViewed = (r.table k).newViewed := by
    intro k
    rw [htable]
    by_cases hk : k = id
    · subst hk
      rw [Function.update_self]
      exact ⟨rfl, rfl, rfl, rfl⟩
    · rw [Function.update_of_ne hk]
      exact ⟨rfl, rfl, rfl, rfl⟩
  cases m with
  | proposal m => exact (hsame _).1.trans h
  | generic m => exact (hsame _).2.1.trans h
  | sync m => rwa [Noted, (hsame _).2.2.1, (hsame _).2.2.2]

lemma processHotstuffProposal_noted {m : ProposalMsg} (hlast : m.index.getLastD 0 = m.txnId + 2)
    (hs : r.processHotstuffProposal cfg crypto m = some s) : s.Noted (.proposal m) := by
  by_cases hp : (r.table (m.txnId + 2)).proposalReceived = true
  · simp only [processHotstuffProposal, if_pos hp] at hs
    obtain rfl := Option.some.inj hs
    exact hp
  · have hstore : ∀ table, (r.storeProposal m table).Noted (.proposal m) := by
      intro table
      simp only [Noted, storeProposal, rememberTxnid, setInst_table, hlast, Function.update_self]
    simp only [processHotstuffProposal, if_neg hp] at hs
    split_ifs at hs
    split at hs
    · cases hs
    · rename_i table _
      split_ifs at hs
      · exact (hstore table).advance hs
      · obtain rfl := Option.some.inj hs
        exact hstore table

lemma processHotstuffGeneric_noted {m : GenericMsg}
    (hleader : cfg.getViewPrimary (r.inst m.instanceId).view m.instanceId = m.returnNodeId)
    (hsafe : (r.inst m.instanceId).SafeNode m.highQC) (hs : r.processHotstuffGeneric cfg crypto m = some s) :
    s.Noted (.generic m) := by
  by_cases hg : (r.table m.txnId).genericReceived = true
  · simp only [processHotstuffGeneric, if_pos hg] at hs
    obtain rfl := Option.some.inj hs
    exact hg
  · have hvote : (r.voteGeneric cfg crypto m).Noted (.generic m) := voteGeneric_genericReceived r m
    simp only [processHotstuffGeneric, if_neg hg, if_neg (not_not.mpr hleader), if_neg (not_not.mpr hsafe)] at hs
    split_ifs at hs
    · exact hvote.advance hs
    · obtain rfl := Option.some.inj hs
      exact hvote

lemma processHotstuffNewView_noted {m : SyncMsg} (hh : (r.table m.txnId).hash = [] ∨ (r.table m.txnId).hash = m.hash)
    (hs : r.processHotstuffNewView cfg crypto m = some s) : s.Noted (.sync m) := by
  have hcount : (r.countVote cfg m).Noted (.sync m) := by
    rw [Noted, countVote_table, Function.update_self]
    exact hotstuffNewViewed_noted _ _ _
  have hsame : ¬ ((r.table m.txnId).hash ≠ [] ∧ m.hash ≠ (r.table m.txnId).hash) := by tauto
  simp only [processHotstuffNewView] at hs
  rw [if_neg hsame] at hs
  by_cases hv : ¬ m.validate crypto = true
  · rw [if_pos hv] at hs
    cases hs
  · rw [if_neg hv] at hs
    by_cases hj : (hotstuffNewViewed cfg (r.table m.txnId) r.nodeId m).2 = true ∧
        (hotstuffNewViewed cfg (r.table m.txnId) r.nodeId m).1.proposalReceived = true ∧
        (hotstuffNewViewed cfg (r.table m.txnId) r.nodeId m).1.genericReceived = true
    · rw [if_pos hj] at hs
      exact hcount.advance hs
    · rw [if_neg hj] at hs
      obtain rfl := Option.some.inj hs
      exact hcount

end Fate

def Marked (cfg : Config) (r : Replica) : Prop :=
  ∀ i < cfg.totInstances, (r.inst i).currNewViewed < cfg.lastTxn (r.inst i).view i

lemma marked_init (p : ℕ) : Marked cfg (init cfg p) := by
  intro i _
  have hb := cfg.five_le_batch
  simp only [init, Instance.init, Config.lastTxn]
  omega

lemma Marked.congr (h : Marked cfg r) (hgate : ∀ i, (s.inst i).gate = (r.inst i).gate) : Marked cfg s := by
  intro i hi
  obtain ⟨hview, hmark, _⟩ := gate_eq_iff.mp (hgate i)
  rw [hview, hmark]
  exact h i hi

lemma Marked.advance (h : Marked cfg r) {id i : ℕ} (hinst : (r.table id).instanceId = i)
    (hid : id = cfg.lastTxn (r.inst i).view i) (ha : r.advanceView cfg id = some s) : Marked cfg s := by
  intro j hj
  by_cases hij : j = i
  · subst hij
    have hgate := advanceView_gate ha
    rw [hinst] at hgate
    obtain ⟨hview, hmark, _⟩ : (s.inst j).view = (r.inst j).view + 1 ∧ (s.inst j).currNewViewed = id % 2 ^ 32 ∧ _ := by
      simpa [Instance.gate] using hgate
    have hpos : 0 < cfg.stride := Nat.mul_pos cfg.instances_pos cfg.batchSize_pos
    rw [hview, hmark, cfg.lastTxn_succ, ← hid]
    exact (Nat.mod_le _ _).trans_lt (by omega)
  · rw [advanceView_inst_of_ne ha (hinst ▸ hij)]
    exact h j hj

lemma Marked.move {P : Msg → Prop} {Q : ℕ → Prop} {B : ℕ → ClientQueryBatch → Prop} (h : Marked cfg r)
    (h₀ : Paced cfg r₀) (hpaced : Paced cfg r) (hP : ∀ m, P m → Msg.Peer cfg p m)
    (hm : Move cfg crypto P Q B r₀ r s) : Marked cfg s := by
  cases hm with
  | idle hidle =>
    intro i hi
    obtain ⟨_, _, heq⟩ := hidle.chain i
    rw [heq]
    exact h i hi
  | proposal => exact h.congr (storeProposal_gate _ _ _)
  | generic => exact h.congr (lockGeneric_gate _ _)
  | vote => exact h.congr fun i => by rw [sendHotstuffNewview_inst]
  | count => exact h.congr (countVote_gate _ _)
  | advance hsame hfresh hready ha =>
    obtain ⟨i, _, hinst, hid⟩ := h₀.advance_slot hpaced hsame (hfresh.imp hP) hready (advanceView_eq ha).1
    exact h.advance hinst hid ha
  | batch =>
    refine h.congr fun i => ?_
    apply gates_of_update <;> rfl
  | announce => exact h
  | execute => exact h
  | recycle => exact h

structure Tidy (cfg : Config) (H : ℕ → ℕ → Bytes) (r : Replica) : Prop where
  calm : Calm cfg H r
  pipelined : Pipelined cfg H r
  tracked : Tracked cfg r
  marked : Marked cfg r
  waiting : r.Waiting

lemma tidy_reach (hapart : Apart cfg H) (hp : p < cfg.nodeCnt)
    (h : Reach (step cfg crypto) (FaultFree cfg crypto H) (init cfg p) r) : Tidy cfg H r := by
  obtain ⟨hpipe, ht⟩ := pipelined_reach hapart hp h
  refine ⟨calm_reach hp h, hpipe, ht, ?_, ?_⟩
  · apply calm_invariant hp (marked_init p) _ h
    intro r₀ r s h₀ _ hmid hm hi
    exact hi.move h₀.steady.paced hmid.paced (fun m hexp => hexp.honest.peer) hm
  · apply h.invariant Waiting
    · intro i m hm
      simp [init, Instance.init] at hm
    · intro r e s _ _ hs hw
      exact hw.step hs

section Handle

variable {m : Msg}

lemma Tracked.gap (h : Tracked cfg r) {w i : ℕ} (hlt : r.exec.nextIndex < cfg.lastTxn w i) :
    r.exec.nextIndex + 3 ≤ cfg.lastTxn w i := by
  obtain ⟨k, hnext, _⟩ := h.turn
  have hb := cfg.five_le_batch
  have hlast : cfg.lastTxn w i = cfg.slot w i * cfg.batchSize + cfg.batchSize - 1 := rfl
  have hk : k ≤ cfg.slot w i := by
    by_contra hgt
    have hmul := Nat.mul_le_mul_right cfg.batchSize (Nat.succ_le_of_lt (Nat.lt_of_not_le hgt))
    rw [Nat.succ_mul] at hmul
    omega
  have hmul := Nat.mul_le_mul_right cfg.batchSize hk
  omega

lemma Tidy.not_executed (h : Tidy cfg H r) {w i : ℕ} (hi : i < cfg.totInstances) (hw : (r.inst i).view ≤ w) :
    r.exec.nextIndex + 3 ≤ cfg.lastTxn w i :=
  h.tracked.gap (h.pipelined.not_executed h.tracked hi (w := w) (by omega))

lemma Tidy.safeNode (h : Tidy cfg H r) {i : ℕ} (hi : i < cfg.totInstances) {qc : QuorumCertificate}
    (hqc : Stage H i (r.inst i).view qc) : (r.inst i).SafeNode qc := by
  have hlocked := (h.pipelined.piped i hi).locked
  rcases Nat.lt_or_ge (r.inst i).view 2 with hlt | hge
  · refine .inr (.inr ⟨by rw [hqc.viewNumber]; omega, ?_⟩)
    obtain hzero : (r.inst i).view - 1 = 0 := by omega
    rw [hzero] at hlocked
    cases hlocked with
    | genesis hg => exact hg
  · refine .inr (.inl ?_)
    rw [hqc.viewNumber, hlocked.viewNumber]
    omega

lemma Tidy.not_dropped (h : Tidy cfg H r) (hm : Msg.Honest cfg H r.nodeId m) (hpassed : ¬ r.Passed m) :
    ¬ r.Dropped cfg m := by
  cases m with
  | proposal m =>
    have hexec := h.not_executed hm.peer.wellFormed.1 (Nat.le_of_not_lt hpassed)
    have hid : m.txnId + 2 = cfg.lastTxn m.view m.instanceId := hm.peer.named.txnId
    rw [Dropped]
    omega
  | generic m =>
    have hnamed : m.Named cfg := hm.peer.named
    have hexec := h.not_executed hm.peer.wellFormed (Nat.le_of_not_lt hpassed)
    rintro ⟨hle, hindex | hleader⟩
    · rw [hnamed.txnId] at hindex
      omega
    · rw [Nat.le_antisymm (Nat.le_of_not_lt hpassed) hle] at hleader
      exact hleader hnamed.sender.symm
  | sync m =>
    have hmark := h.marked m.instanceId hm.peer.wellFormed
    obtain ⟨hid, _⟩ : m.txnId = cfg.lastTxn m.view m.instanceId ∧ _ := hm.content
    rintro (hlt | ⟨hview, hle, _⟩)
    · exact hpassed hlt
    · rw [hid, hview] at hle
      omega

lemma handleGeneric_retained {m : GenericMsg} (hkept : ¬ r.Dropped cfg (.generic m)) (hpassed : ¬ r.Passed (.generic m))
    (hsafe : (r.inst m.instanceId).view = m.view → (r.inst m.instanceId).SafeNode m.highQC)
    (hs : r.handleGeneric cfg crypto m = some s) : s.Queued (.generic m) ∨ s.Noted (.generic m) := by
  rw [Dropped, not_and_or, not_or, not_not] at hkept
  rw [Passed] at hpassed
  simp only [handleGeneric] at hs
  split_ifs at hs with hview hindex
  · obtain rfl := Option.some.inj hs
    left
    simp [Queued, Replica.queues]
  · exact absurd hindex (hkept.resolve_left (by omega)).1
  · exact .inr (processHotstuffGeneric_noted (hkept.resolve_left (by omega)).2 (hsafe (by omega)) hs)

lemma Tidy.safe_generic (h : Tidy cfg H r) {m : GenericMsg} (hm : Msg.Honest cfg H r.nodeId (.generic m))
    (hview : (r.inst m.instanceId).view = m.view) : (r.inst m.instanceId).SafeNode m.highQC := by
  refine h.safeNode hm.peer.wellFormed ?_
  rw [hview]
  exact hm.content.2.2

lemma Tidy.handle (h : Tidy cfg H r) (hm : Msg.Honest cfg H r.nodeId m) (hpassed : ¬ r.Passed m)
    (hs : r.handle cfg crypto m = some s) : s.Queued m ∨ s.Noted m := by
  have hkept := h.not_dropped hm hpassed
  cases m with
  | proposal m =>
    simp only [Replica.handle, handleProposal] at hs
    rw [Dropped] at hkept
    rw [if_neg hkept] at hs
    refine .inr (processHotstuffProposal_noted ?_ hs)
    have hnamed : m.Named cfg := hm.peer.named
    rw [hnamed.index, cfg.slotTxns_getLastD, hnamed.txnId]
  | generic m => exact handleGeneric_retained hkept hpassed (h.safe_generic hm) hs
  | sync m =>
    simp only [Replica.handle, handleSync] at hs
    rw [Dropped] at hkept
    rw [if_neg hkept] at hs
    refine .inr (processHotstuffNewView_noted ?_ hs)
    obtain ⟨hid, hhash, _⟩ : m.txnId = cfg.lastTxn m.view m.instanceId ∧ m.hash = H m.view m.instanceId ∧ _ := hm.content
    by_cases hempty : (r.table m.txnId).hash = []
    · exact .inl hempty
    · right
      rw [hhash]
      rw [hid] at hempty ⊢
      exact h.calm.sound.tabled.hashes _ _ hm.peer.wellFormed hempty

lemma Tidy.replay (h : Tidy cfg H r) {m : GenericMsg} (hm : Msg.Honest cfg H r.nodeId (.generic m))
    (hpassed : ¬ r.Passed (.generic m)) {rest : List GenericMsg}
    (hs : (r.setInst m.instanceId { r.inst m.instanceId with priorQueue := rest }).handleGeneric cfg crypto m = some s) :
    s.Queued (.generic m) ∨ s.Noted (.generic m) := by
  have hkept := h.not_dropped hm hpassed
  have hsafe := h.safe_generic hm
  refine handleGeneric_retained ?_ ?_ ?_ hs
  · simpa [Dropped] using hkept
  · simpa [Passed] using hpassed
  · simpa [Instance.SafeNode] using hsafe

end Handle

section Note

variable {P : Msg → Prop} {Q : ℕ → Prop} {B : ℕ → ClientQueryBatch → Prop}

lemma heard_update {table : ℕ → TxnManager} {id k x : ℕ} {t : TxnManager}
    (ht : x ∈ (table id).voteNewView → x ∈ t.voteNewView) (hx : x ∈ (table k).voteNewView) :
    x ∈ (Function.update table id t k).voteNewView := by
  by_cases hk : k = id
  · subst hk
    rw [Function.update_self]
    exact ht hx
  · rwa [Function.update_of_ne hk]

lemma heard_hashed {table table' : ℕ → TxnManager} {returnId view i : ℕ} {l : List (ℕ × ClientQuery)}
    (hf : fillManagers cfg table returnId view i l = some table') (last : ℕ) (hash : Bytes) {k x : ℕ}
    (hx : x ∈ (table k).voteNewView) :
    x ∈ (Function.update table' last { table' last with hash := hash, proposalReceived := true } k).voteNewView := by
  refine heard_update id ?_
  rcases fillManagers_cases hf k with heq | ⟨_, _, _, heq⟩ <;> rwa [heq]

lemma hotstuffNewViewed_heard (t : TxnManager) (me : ℕ) (m : SyncMsg) {x : ℕ} (hx : x ∈ t.voteNewView) :
    x ∈ (hotstuffNewViewed cfg t me m).1.voteNewView := by
  have hseed := t.mem_seedVotes me hx
  simp only [hotstuffNewViewed]
  split_ifs
  · exact hx
  · exact hseed
  · exact List.mem_append_left _ (by rwa [TxnManager.storeShare_voteNewView])
  · exact List.mem_append_left _ (by rwa [TxnManager.storeShare_voteNewView])

lemma Move.heard (h : Move cfg crypto P Q B r₀ r s) {k x : ℕ} (hk : r.exec.nextIndex < k)
    (hx : x ∈ (r.table k).voteNewView) : x ∈ (s.table k).voteNewView := by
  cases h with
  | idle h => rwa [h.table]
  | proposal _ _ hacc => exact heard_hashed hacc.filled _ _ hx
  | @generic _ m =>
    rw [storeGeneric_lockGeneric_table]
    refine heard_update (fun hx => ?_) hx
    simp only [acceptGeneric]
    split_ifs <;> exact hx
  | @vote _ id =>
    rcases sendHotstuffNewview_cases cfg crypto r id with ⟨_, heq⟩ | ⟨_, hc⟩
    · rwa [heq]
    · rw [hc.table]
      refine heard_update (fun hx => ?_) hx
      obtain ⟨_, _, _, heq⟩ := @castVote_eq cfg
        { r.table id with genericQC := r.ownShare cfg crypto id, syncSent := true } r.nodeId
      rw [heq]
      exact hx
  | @count m =>
    rw [countVote_table]
    exact heard_update (hotstuffNewViewed_heard _ _ _) hx
  | advance _ _ _ h =>
    rw [advanceView_table h]
    exact heard_update id hx
  | batch _ _ hfill => exact heard_hashed hfill _ _ hx
  | announce => exact heard_update (fun hx => hx) hx
  | execute => exact hx
  | @recycle id _ hindex =>
    rw [setTxn_table, Function.update_of_ne (by omega)]
    exact hx

def manager : Msg → ℕ
  | .proposal m => m.txnId + 2
  | .generic m => m.txnId
  | .sync m => m.txnId

lemma Noted.move (hm : Move cfg crypto P Q B r₀ r s) {m : Msg} (hk : r.exec.nextIndex < manager m) (h : r.Noted m) :
    s.Noted m := by
  have hgrows : (r.table (manager m)).Grows (s.table (manager m)) := by
    rcases hm.grows (manager m) with hg | ⟨_, _, hlt, _⟩
    · exact hg
    · omega
  cases m with
  | proposal m => exact hgrows.proposalReceived h
  | generic m => exact hgrows.genericReceived h
  | sync m => exact h.imp (hm.heard hk) hgrows.newViewed

lemma Noted.moves (hm : Moves cfg crypto P Q B r₀ r s) {m : Msg} (hk : s.exec.nextIndex < manager m) (h : r.Noted m) :
    s.Noted m := by
  apply hm.invariant (I := fun s => s.exec.nextIndex < manager m → s.Noted m) _ (fun _ => h) hk
  intro u v huv hu hlt
  have hlt' := huv.nextIndex_le.trans_lt hlt
  exact (hu hlt').move huv hlt'

lemma Honest.manager_eq {m : Msg} (hm : Msg.Honest cfg H p m) : ∃ w i, i < cfg.totInstances ∧
    manager m = cfg.lastTxn w i ∧ ∀ r : Replica, r.Passed m ↔ w < (r.inst i).view := by
  cases m with
  | proposal m => exact ⟨m.view, m.instanceId, hm.peer.wellFormed.1, hm.peer.named.txnId, fun _ => .rfl⟩
  | generic m => exact ⟨m.view, m.instanceId, hm.peer.wellFormed, hm.peer.named.txnId, fun _ => .rfl⟩
  | sync m => exact ⟨m.view, m.instanceId, hm.peer.wellFormed, hm.content.1, fun _ => .rfl⟩

end Note

lemma Retained.step (hapart : Apart cfg H) (h : Tidy cfg H r) {e : Event} (he : FaultFree cfg crypto H r e)
    (hs : r.step cfg crypto e = some s) {m : Msg} (hm : Msg.Honest cfg H r.nodeId m) (hr : r.Retained m) :
    s.Retained m := by
  obtain ⟨w, i, hi, hmanager, hpassed⟩ := Honest.manager_eq hm
  obtain ⟨hmid, _, _, hnoted⟩ := h.calm.step_invariant he hs
    (I := fun s => Pipelined cfg H s ∧ Tracked cfg s ∧ (r.Noted m → s.Passed m ∨ s.Noted m))
    (fun u v hmid huv ⟨hpipe, ht, hu⟩ => by
      refine ⟨hpipe.move hapart h.calm hmid huv ht, ht.move huv, fun hnoted => ?_⟩
      by_cases hview : (v.inst i).view ≤ w
      · have hle := (huv.view_le i).trans hview
        have hexec := hpipe.not_executed ht hi (w := w) (by omega)
        have hnot : ¬ u.Passed m := by rw [hpassed]; omega
        exact .inr (((hu hnoted).resolve_left hnot).move huv (hmanager ▸ hexec))
      · exact .inl ((hpassed v).mpr (by omega)))
    ⟨h.pipelined, h.tracked, .inr⟩
  have hview := hmid.view i
  rcases hr with hr | hr | hr
  · exact .inl ((hpassed s).mpr (((hpassed r).mp hr).trans_le hview))
  · by_cases hp : r.Passed m
    · exact .inl ((hpassed s).mpr (((hpassed r).mp hp).trans_le hview))
    · cases m with
      | generic m =>
        rcases step_queues hs hr with hq | ⟨rest, hq⟩
        · exact .inr (.inl hq)
        · exact .inr (h.replay hm hp hq)
      | proposal => exact hr.elim
      | sync => exact hr.elim
  · exact (hnoted hr).imp_right .inr

end Replica

namespace System

variable {cfg : Config} {crypto : Crypto} {H : ℕ → ℕ → Bytes} {S T : System}

lemma reaches_from (h : Reachable cfg crypto ∅ S) (hr : Reach (step cfg crypto) (Allowed cfg ∅) S T)
    (hfit : Fits cfg H T) : Fits cfg H S ∧ ∀ p < cfg.nodeCnt,
      Reach (Replica.step cfg crypto) (Replica.FaultFree cfg crypto H) (S p) (T p) := by
  induction hr with
  | start => exact ⟨hfit, fun p _ => .start⟩
  | @next U T e hr hok hs ih =>
    obtain ⟨_, a, r, _, hfree, _, hr', rfl⟩ := faultFree_step (h.trans hr) hok hs hfit
    obtain ⟨hfitS, hreach⟩ := ih (hfit.of_update (Replica.step_trace hfree.genuine hr'))
    refine ⟨hfitS, fun p hp => ?_⟩
    by_cases hpe : p = e.node
    · subst hpe
      rw [Function.update_self]
      exact .next a (hreach _ hp) hfree hr'
    · rw [Function.update_of_ne hpe]
      exact hreach p hp

lemma honest_out (hreach : Reaches cfg crypto H S) {p q : ℕ} (hp : p < cfg.nodeCnt) (hq : q < cfg.nodeCnt) {m : Msg}
    (hout : (p, m) ∈ (S q).out) : m.Honest cfg H (S p).nodeId := by
  have hcalm := Replica.calm_reach hq (hreach q hq)
  obtain ⟨hwf, hsender, hne, _⟩ := hcalm.steady.wired.out _ hout
  obtain ⟨hnamed, hcontent⟩ := hcalm.sound.out _ hout
  have hself := Replica.nodeId_reach cfg crypto (hreach q hq)
  have hdest := Replica.nodeId_reach cfg crypto (hreach p hp)
  rw [hself] at hsender hne
  refine ⟨⟨hwf, ?_, ?_, hnamed⟩, hcontent⟩
  · rw [hsender, hdest]
    exact hne.symm
  · rw [hsender]
    exact hq

lemma retained_of_delivered (h : Reachable cfg crypto ∅ S) {e : Event} (hok : Allowed cfg ∅ S e) {U : System}
    (hs : step cfg crypto S e = some U) {m : Msg} (hm : e.local S = some (.deliver m))
    (hr : Reach (step cfg crypto) (Allowed cfg ∅) U T) (hapart : Apart cfg T) : (T e.node).Retained m := by
  have hU : Reachable cfg crypto ∅ U := .next e h hok hs
  have hfitT := fits_digest (hU.trans hr)
  obtain ⟨hfitU, hfrom⟩ := reaches_from hU hr hfitT
  obtain ⟨hreach, a, r, ha, hfree, hnode, hr', heq⟩ := faultFree_step h hok hs hfitU
  obtain rfl : a = .deliver m := Option.some.inj (ha.symm.trans hm)
  have hr₀ : U e.node = r := by rw [heq, Function.update_self]
  have htidy := Replica.tidy_reach hapart.digest hnode (hreach _ hnode)
  have hhonest := (hfree.expected m rfl).honest
  have hfirst : (U e.node).Retained m := by
    rw [hr₀]
    by_cases hpassed : (S e.node).Passed m
    · exact Replica.Retained.step hapart.digest htidy hfree hr' hhonest (.inl hpassed)
    · exact .inr (htidy.handle hhonest hpassed hr')
  have hself : ∀ {X : Replica}, Reach (Replica.step cfg crypto) (Replica.FaultFree cfg crypto (T.digest cfg)) (U e.node) X →
      Replica.Tidy cfg (T.digest cfg) X ∧ X.nodeId = (S e.node).nodeId := by
    intro X hX
    have hXreach := ((hreach _ hnode).next _ hfree hr').trans (hr₀ ▸ hX)
    refine ⟨Replica.tidy_reach hapart.digest hnode hXreach, ?_⟩
    rw [Replica.nodeId_reach cfg crypto hXreach, Replica.nodeId_reach cfg crypto (hreach _ hnode)]
  refine (hfrom e.node hnode).invariant (fun X => X.Retained m) hfirst ?_
  intro X a Y hX ha hXY hret
  obtain ⟨htidyX, hnodeX⟩ := hself hX
  exact hret.step hapart.digest htidyX ha hXY (hnodeX ▸ hhonest)

end System

theorem messages_retained (cfg : Config) (crypto : Crypto) {T : System} (h : System.Reachable cfg crypto ∅ T)
    (hapart : System.Apart cfg T) {p : ℕ} (hp : p < cfg.nodeCnt) :
    (∀ S e U m, System.Reachable cfg crypto ∅ S → System.Allowed cfg ∅ S e → System.step cfg crypto S e = some U →
      e.node = p → e.local S = some (.deliver m) →
      Reach (System.step cfg crypto) (System.Allowed cfg ∅) U T → (T p).Retained m) ∧
    (∀ m, (∃ q < cfg.nodeCnt, (p, m) ∈ (T q).out) ∨ (T p).Queued m → ¬ (T p).Passed m → ¬ (T p).Dropped cfg m) ∧
    ∀ i, ∀ m ∈ ((T p).inst i).tempQueue, ((T p).inst i).view < m.view := by
  have hreach := System.reaches_digest h
  have htidy := Replica.tidy_reach hapart.digest hp (hreach p hp)
  refine ⟨?_, ?_, htidy.waiting⟩
  · rintro S e U m hS hok hs rfl hm hr
    exact System.retained_of_delivered hS hok hs hm hr hapart
  · rintro m (⟨q, hq, hout⟩ | hqueued) hpassed
    · exact htidy.not_dropped (System.honest_out hreach hp hq hout) hpassed
    · cases m with
      | generic m => exact htidy.not_dropped (htidy.calm.parked _ m hqueued) hpassed
      | proposal => exact hqueued.elim
      | sync => exact hqueued.elim

theorem messages_retained_two_views :
    ∃ T, System.Reachable .fourReplicas .transparent ∅ T ∧ ((T 1).inst 0).view = 2 ∧
      (∀ S e U m, System.Reachable .fourReplicas .transparent ∅ S → System.Allowed .fourReplicas ∅ S e →
        System.step .fourReplicas .transparent S e = some U → e.node = 1 → e.local S = some (.deliver m) →
        Reach (System.step .fourReplicas .transparent) (System.Allowed .fourReplicas ∅) U T → (T 1).Retained m) := by
  obtain ⟨T, hT, hp⟩ := exists_reach_of_runWith (System.step .fourReplicas .transparent)
    (System.Allowed .fourReplicas ∅) (System.init .fourReplicas) (System.twoViews 1 2)
    (fun S => decide (System.Apart .fourReplicas S ∧ ((S 1).inst 0).view = 2)) (by decide +kernel)
  obtain ⟨hapart, hview⟩ := of_decide_eq_true hp
  exact ⟨T, hT, hview, (messages_retained .fourReplicas .transparent hT hapart (by decide)).1⟩

def Config.oneInstance : Config :=
  { fourReplicas with
    totInstances := 1
    instances_pos := by decide
    instances_le := by decide }

-- The batches of the first two slots are proposed again three views later. Replica 1 hears of the last slot before
-- it leaves view 3, and executes that slot, and all before it, when it does.
def System.repeatedBatches : List System.Event :=
  fillSlot 0 1 ++ relays [(1, 0, 0), (2, 0, 1), (3, 0, 2), (1, 0, 3), (2, 0, 4), (3, 0, 5), (2, 0, 7), (3, 0, 8),
    (0, 1, 0), (3, 1, 2), (1, 2, 0), (0, 2, 1), (1, 3, 0), (2, 3, 2)] ++
  fillSlot 1 2 ++ relays [(0, 1, 3), (2, 1, 4), (3, 1, 5), (0, 1, 6), (2, 1, 7), (3, 1, 8), (2, 0, 9), (3, 0, 11),
    (0, 1, 10), (3, 1, 11), (0, 2, 3), (1, 2, 4), (2, 3, 3), (1, 3, 5)] ++
  fillSlot 2 3 ++ relays [(0, 2, 6), (1, 2, 7), (3, 2, 8), (0, 2, 9), (1, 2, 10), (3, 2, 11), (3, 0, 12), (2, 0, 14),
    (3, 1, 12), (0, 1, 13), (0, 2, 13), (1, 2, 14), (1, 3, 7), (2, 3, 8)] ++
  fillSlot 3 1 ++ relays [(0, 3, 9), (1, 3, 10), (2, 3, 11), (0, 3, 12), (1, 3, 13), (2, 3, 14), (2, 0, 16),
    (3, 0, 17), (0, 1, 15), (3, 1, 17), (0, 2, 15), (1, 2, 16), (2, 3, 17)] ++
  fillSlot 0 2 ++ relays [(1, 0, 18), (2, 0, 19), (2, 0, 22), (1, 2, 18), (1, 3, 16)] ++
  [1, 4, 2, 1, 1].map fun k => .act 1 (.execute k)

def System.dropsGeneric (S : System) : Bool :=
  match (System.Event.relay 1 0 21).local S with
  | some (.deliver (.generic m)) => decide (m.instanceId = 0 ∧ m.view = 4 ∧ m.txnId = 24 ∧ ((S 1).inst 0).view = 4 ∧
      (S 1).exec.nextIndex = 25) && (System.step .oneInstance .transparent S (.relay 1 0 21)).any fun U =>
        decide (((U 1).inst 0).view = 4 ∧ ((U 1).table 24).genericReceived = false) && ((U 1).queues 0).isEmpty
  | _ => false

theorem generic_dropped :
    ∃ S U m, System.Reachable .oneInstance .transparent ∅ S ∧ System.Allowed .oneInstance ∅ S (.relay 1 0 21) ∧
      System.step .oneInstance .transparent S (.relay 1 0 21) = some U ∧
      (System.Event.relay 1 0 21).local S = some (.deliver m) ∧ (S 1).Dropped .oneInstance m ∧ ¬ (U 1).Retained m := by
  obtain ⟨S, hS, hp⟩ := exists_reach_of_runWith (System.step .oneInstance .transparent)
    (System.Allowed .oneInstance ∅) (System.init .oneInstance) System.repeatedBatches System.dropsGeneric
    (by decide +kernel)
  simp only [System.dropsGeneric] at hp
  split at hp
  · rename_i m hm
    obtain ⟨hslot, hafter⟩ := (Bool.and_eq_true _ _).mp hp
    obtain ⟨hinst, hview, hid, hcur, hindex⟩ := of_decide_eq_true hslot
    obtain ⟨U, hU, hcheck⟩ := (Option.any_eq_true _ _).mp hafter
    obtain ⟨hkept, hempty⟩ := (Bool.and_eq_true _ _).mp hcheck
    obtain ⟨hcur', hrec⟩ := of_decide_eq_true hkept
    refine ⟨S, U, .generic m, hS, ⟨by decide, by simp, by decide, by simp⟩, hU, hm, ?_, ?_⟩
    · rw [Replica.Dropped, hinst, hview, hcur, hid, hindex]
      exact ⟨le_rfl, .inl (by decide)⟩
    · rintro (hpassed | hqueued | hnoted)
      · rw [Replica.Passed, hinst, hview, hcur'] at hpassed
        omega
      · rw [Replica.Queued, hinst, List.isEmpty_iff.mp hempty] at hqueued
        cases hqueued
      · rw [Replica.Noted, hid, hrec] at hnoted
        cases hnoted
  · cases hp

end SpotLess
