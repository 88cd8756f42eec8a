import SpotLess.Inversion

namespace SpotLess

def Obs.FromHandler : Obs → Prop
  | .popped _ | .proposed _ _ _ _ | .genericSent _ _ => False
  | _ => True

namespace Replica

open Lib

structure Handled (r s : Replica) : Prop where
  nodeId : s.nodeId = r.nodeId
  sends : s.sends = r.sends
  threads : s.threads = r.threads
  nextIndex : s.exec.nextIndex = r.exec.nextIndex
  expected : s.exec.expectedExecuteCount = r.exec.expectedExecuteCount
  ran : s.exec.ran = r.exec.ran
  trace : ∃ l, s.trace = r.trace ++ l ∧ ∀ o ∈ l, o.FromHandler
  out : ∃ l : List (ℕ × SyncMsg), s.out = r.out ++ l.map fun p => (p.1, Msg.sync p.2)
  sems : ∃ k, s.sems = { r.sems with newTxn := r.sems.newTxn + k, proposal := r.sems.proposal + k }

namespace Handled

lemma refl (r : Replica) : Handled r r where
  nodeId := rfl
  sends := rfl
  threads := rfl
  nextIndex := rfl
  expected := rfl
  ran := rfl
  trace := ⟨[], by simp⟩
  out := ⟨[], by simp⟩
  sems := ⟨0, rfl⟩

lemma trans {r s t : Replica} (h : Handled r s) (h' : Handled s t) : Handled r t where
  nodeId := h'.nodeId.trans h.nodeId
  sends := h'.sends.trans h.sends
  threads := h'.threads.trans h.threads
  nextIndex := h'.nextIndex.trans h.nextIndex
  expected := h'.expected.trans h.expected
  ran := h'.ran.trans h.ran
  trace := by
    obtain ⟨l, hl, hlo⟩ := h.trace
    obtain ⟨l', hl', hlo'⟩ := h'.trace
    refine ⟨l ++ l', by rw [hl', hl, List.append_assoc], ?_⟩
    intro o ho
    rcases List.mem_append.mp ho with ho | ho
    · exact hlo o ho
    · exact hlo' o ho
  out := by
    obtain ⟨l, hl⟩ := h.out
    obtain ⟨l', hl'⟩ := h'.out
    exact ⟨l ++ l', by rw [hl', hl, List.map_append, List.append_assoc]⟩
  sems := by
    obtain ⟨k, hk⟩ := h.sems
    obtain ⟨k', hk'⟩ := h'.sems
    exact ⟨k + k', by rw [hk', hk, Nat.add_assoc, Nat.add_assoc]⟩

lemma mem_trace {r s : Replica} (h : Handled r s) {o : Obs} (ho : o ∈ s.trace) :
    o ∈ r.trace ∨ o.FromHandler := by
  obtain ⟨l, hl, hlo⟩ := h.trace
  rw [hl] at ho
  exact (List.mem_append.mp ho).imp_right (hlo o)

lemma filterMap_trace {β : Type} {r s : Replica} (h : Handled r s) (f : Obs → Option β)
    (hf : ∀ o, o.FromHandler → f o = none) : s.trace.filterMap f = r.trace.filterMap f := by
  obtain ⟨l, hl, hlo⟩ := h.trace
  rw [hl, List.filterMap_append]
  have hnil : l.filterMap f = [] := List.filterMap_eq_nil_iff.mpr fun o ho => hf o (hlo o ho)
  rw [hnil, List.append_nil]

section Updates

variable {r s : Replica} (h : Handled r s)

include h

lemma setInst (i : ℕ) (x : Instance) : Handled r (s.setInst i x) := ⟨h.1, h.2, h.3, h.4, h.5, h.6, h.7, h.8, h.9⟩

lemma setTxn (id : ℕ) (t : TxnManager) : Handled r (s.setTxn id t) := ⟨h.1, h.2, h.3, h.4, h.5, h.6, h.7, h.8, h.9⟩

lemma setTable (table : ℕ → TxnManager) : Handled r { s with table := table } :=
  ⟨h.1, h.2, h.3, h.4, h.5, h.6, h.7, h.8, h.9⟩

lemma postPrimary : Handled r s.postPrimary :=
  h.trans ⟨rfl, rfl, rfl, rfl, rfl, rfl, ⟨[], by simp [Replica.postPrimary]⟩, ⟨[], by simp [Replica.postPrimary]⟩, ⟨1, rfl⟩⟩

lemma observe {o : Obs} (ho : o.FromHandler) : Handled r (s.observe o) := by
  refine h.trans ⟨rfl, rfl, rfl, rfl, rfl, rfl, ⟨[o], rfl, ?_⟩, ⟨[], by simp⟩, ⟨0, rfl⟩⟩
  simpa using ho

lemma sendSync (dest : List ℕ) (m : SyncMsg) : Handled r (s.send dest (.sync m)) := by
  refine h.trans ⟨rfl, rfl, rfl, rfl, rfl, rfl, ⟨[], by simp⟩, ⟨dest.map fun d => (d, m), ?_⟩, ⟨0, rfl⟩⟩
  simp

lemma enqueueExecutes (cfg : Config) (i : ℕ) (ids : List ℕ) : Handled r (s.enqueueExecutes cfg i ids) := by
  refine h.trans ⟨rfl, rfl, rfl, rfl, rfl, rfl, ⟨_, rfl, ?_⟩, ⟨[], by simp [Replica.enqueueExecutes]⟩, ⟨0, rfl⟩⟩
  intro o ho
  obtain ⟨id, _, rfl⟩ := List.mem_map.mp ho
  trivial

lemma updateLockQC (cfg : Config) (qc : QuorumCertificate) (view txnid i : ℕ) :
    Handled r (s.updateLockQC cfg qc view txnid i) := by
  simp only [Replica.updateLockQC, Replica.commit]
  split_ifs
  · apply enqueueExecutes
    refine observe ?_ trivial
    apply setInst
    exact h.setInst _ _
  · exact h.setInst _ _

lemma advanceView {cfg : Config} {t : Replica} {id : ℕ} (ha : s.advanceView cfg id = some t) :
    Handled r t := by
  have hqc : Handled r (s.installQC id) := by
    refine observe ?_ trivial
    apply setInst
    exact h.setTxn _ _
  simp only [Replica.advanceView, enterView] at ha
  split_ifs at ha
  · obtain rfl := Option.some.inj ha
    apply postPrimary
    apply setInst
    apply setInst
    exact hqc.updateLockQC cfg _ _ _ _
  · obtain rfl := Option.some.inj ha
    apply setInst
    apply setInst
    exact hqc.updateLockQC cfg _ _ _ _

lemma sendHotstuffNewview (cfg : Config) (crypto : Crypto) (id : ℕ) :
    Handled r (s.sendHotstuffNewview cfg crypto id) := by
  simp only [Replica.sendHotstuffNewview]
  split_ifs
  · exact h
  · refine observe ?_ trivial
    apply setTxn
    exact h.sendSync _ _
  · refine observe ?_ trivial
    apply setTxn
    apply sendSync
    exact h.sendSync _ _

end Updates

lemma storeGeneric {r s : Replica} (h : Handled r s) (m : GenericMsg) : Handled r (s.storeGeneric m) := by
  refine observe ?_ trivial
  apply setInst
  exact h.setTxn _ _

lemma lockGeneric {r s : Replica} (h : Handled r s) (cfg : Config) (m : GenericMsg) :
    Handled r (s.lockGeneric cfg m) := by
  simp only [Replica.lockGeneric]
  split_ifs
  · exact h.updateLockQC cfg _ _ _ _
  · exact h

lemma voteGeneric (cfg : Config) (crypto : Crypto) (r : Replica) (m : GenericMsg) :
    Handled r (r.voteGeneric cfg crypto m) :=
  (((refl r).storeGeneric m).lockGeneric cfg m).sendHotstuffNewview cfg crypto m.txnId

lemma countVote (cfg : Config) (r : Replica) (m : SyncMsg) : Handled r (r.countVote cfg m) := by
  simp only [Replica.countVote, bindTxnid]
  apply setTxn
  split_ifs
  · exact (refl r).setInst _ _
  · exact refl r

lemma storeProposal (r : Replica) (m : ProposalMsg) (table : ℕ → TxnManager) :
    Handled r (r.storeProposal m table) :=
  ((refl r).setTable _).setInst _ _

lemma processHotstuffNewView {cfg : Config} {crypto : Crypto} {r s : Replica} {m : SyncMsg}
    (h : r.processHotstuffNewView cfg crypto m = some s) : Handled r s := by
  rcases processHotstuffNewView_cases h with rfl | ⟨_, ⟨_, ha⟩ | ⟨_, rfl⟩⟩
  · exact refl s
  · exact (countVote cfg r m).advanceView ha
  · exact countVote cfg r m

lemma processHotstuffProposal {cfg : Config} {crypto : Crypto} {r s : Replica} {m : ProposalMsg}
    (h : r.processHotstuffProposal cfg crypto m = some s) : Handled r s := by
  rcases processHotstuffProposal_cases h with rfl | ⟨table, _, ⟨_, ha⟩ | ⟨_, rfl⟩⟩
  · exact refl s
  · exact (storeProposal r m table).advanceView ha
  · exact storeProposal r m table

lemma processHotstuffGeneric {cfg : Config} {crypto : Crypto} {r s : Replica} {m : GenericMsg}
    (h : r.processHotstuffGeneric cfg crypto m = some s) : Handled r s := by
  rcases processHotstuffGeneric_cases h with rfl | ⟨_, ⟨_, ha⟩ | ⟨_, rfl⟩⟩
  · exact refl s
  · exact (voteGeneric cfg crypto r m).advanceView ha
  · exact voteGeneric cfg crypto r m

lemma handleGeneric {cfg : Config} {crypto : Crypto} {r s : Replica} {m : GenericMsg}
    (h : r.handleGeneric cfg crypto m = some s) : Handled r s := by
  simp only [Replica.handleGeneric] at h
  split_ifs at h
  · obtain rfl := Option.some.inj h
    exact (refl r).setInst _ _
  · obtain rfl := Option.some.inj h
    exact refl r
  · exact processHotstuffGeneric h

lemma handle {cfg : Config} {crypto : Crypto} {r s : Replica} {m : Msg}
    (h : r.handle cfg crypto m = some s) : Handled r s := by
  cases m with
  | proposal m =>
    simp only [Replica.handle, handleProposal] at h
    split_ifs at h
    · obtain rfl := Option.some.inj h
      exact refl r
    · exact processHotstuffProposal h
  | generic m => exact handleGeneric h
  | sync m =>
    simp only [Replica.handle, handleSync] at h
    split_ifs at h
    · obtain rfl := Option.some.inj h
      exact refl r
    · exact processHotstuffNewView h

lemma replay {cfg : Config} {crypto : Crypto} {r s : Replica} {i : ℕ}
    (h : r.replay cfg crypto i = some s) : Handled r s := by
  simp only [Replica.replay] at h
  split at h
  · cases h
  · exact ((refl r).setInst _ _).trans (handleGeneric h)

end Handled

end Replica

end SpotLess
