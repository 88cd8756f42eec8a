import SpotLess.Frames

namespace SpotLess

structure Proposal where
  instanceId : ℕ
  view : ℕ
  batch : ClientQueryBatch

def Obs.proposal? : Obs → Option Proposal
  | .proposed i view batch _ => some ⟨i, view, batch⟩
  | _ => none

def Obs.popped? : Obs → Option ClientQueryBatch
  | .popped batch => some batch
  | _ => none

def ProposalPc.inHand : ProposalPc → List ClientQueryBatch
  | .popped _ _ batch | .stamped _ batch => [batch]
  | _ => []

namespace Replica

open Lib

variable (cfg : Config) (crypto : Crypto)

def proposals (r : Replica) : List Proposal := r.trace.filterMap Obs.proposal?

def poppedBatches (r : Replica) : List ClientQueryBatch := r.trace.filterMap Obs.popped?

structure SameAlloc (r s : Replica) : Prop where
  nodeId : s.nodeId = r.nodeId
  next : ∀ i, (s.sends i).nextSendView = (r.sends i).nextSendView
  last : ∀ i, (s.sends i).lastSentView = (r.sends i).lastSentView
  pc : s.threads.proposal = r.threads.proposal
  proposals : s.proposals = r.proposals
  popped : s.poppedBatches = r.poppedBatches

namespace SameAlloc

lemma of_handled {r s : Replica} (h : Handled r s) : SameAlloc r s where
  nodeId := h.nodeId
  next i := by rw [h.sends]
  last i := by rw [h.sends]
  pc := by rw [h.threads]
  proposals := by
    apply h.filterMap_trace
    intro o ho
    cases o <;> first | rfl | exact ho.elim
  popped := by
    apply h.filterMap_trace
    intro o ho
    cases o <;> first | rfl | exact ho.elim

lemma trans {r s t : Replica} (h : SameAlloc r s) (h' : SameAlloc s t) : SameAlloc r t where
  nodeId := h'.nodeId.trans h.nodeId
  next i := (h'.next i).trans (h.next i)
  last i := (h'.last i).trans (h.last i)
  pc := h'.pc.trans h.pc
  proposals := h'.proposals.trans h.proposals
  popped := h'.popped.trans h.popped

variable {cfg crypto}

lemma handleGenericP {r s : Replica} {id : ℕ} (h : r.handleGenericP cfg crypto id = some s) :
    SameAlloc r s := by
  simp only [Replica.handleGenericP] at h
  split_ifs at h
  · obtain rfl := Option.some.inj h
    exact of_handled (.refl r)
  · obtain ⟨_, rfl⟩ := processHotstuffGenericP_cases h
    refine SameAlloc.trans ?_ (of_handled ((Handled.refl _).sendHotstuffNewview cfg crypto id))
    exact ⟨rfl, fun _ => rfl, fun _ => rfl, rfl, by simp [Replica.proposals, Obs.proposal?],
      by simp [Replica.poppedBatches, Obs.popped?]⟩

lemma genericStep {r s : Replica} {i : ℕ} {busy : Bool} (h : r.genericStep cfg crypto i busy = some s) :
    SameAlloc r s := by
  simp only [Replica.genericStep] at h
  split at h
  · split_ifs at h
    obtain rfl := Option.some.inj h
    exact ⟨rfl, fun _ => rfl, fun _ => rfl, rfl, rfl, rfl⟩
  · split_ifs at h
    obtain rfl := Option.some.inj h
    exact ⟨rfl, fun _ => rfl, fun _ => rfl, rfl, rfl, rfl⟩
  · split_ifs at h
    obtain rfl := Option.some.inj h
    exact ⟨rfl, fun _ => rfl, fun _ => rfl, rfl, rfl, rfl⟩
  · obtain rfl := Option.some.inj h
    exact ⟨rfl, fun _ => rfl, fun _ => rfl, rfl, rfl, rfl⟩
  · rename_i j id _
    obtain rfl := Option.some.inj h
    refine ⟨rfl, fun k => ?_, fun k => ?_, rfl, rfl, rfl⟩
    · by_cases hk : k = j
      · subst hk
        simp [setGeneric]
      · simp [setGeneric, Function.update_of_ne hk]
    · by_cases hk : k = j
      · subst hk
        simp [setGeneric]
      · simp [setGeneric, Function.update_of_ne hk]
  · split_ifs at h
    · obtain rfl := Option.some.inj h
      exact ⟨rfl, fun _ => rfl, fun _ => rfl, rfl, rfl, rfl⟩
    · obtain ⟨t, ht, rfl⟩ := Option.map_eq_some_iff.mp h
      exact (handleGenericP ht).trans ⟨rfl, fun _ => rfl, fun _ => rfl, rfl, rfl, rfl⟩

lemma enqueueBatch {r s : Replica} {i : ℕ} {batch : ClientQueryBatch}
    (h : r.enqueueBatch cfg i batch = some s) : SameAlloc r s := by
  simp only [Replica.enqueueBatch] at h
  split_ifs at h
  obtain rfl := Option.some.inj h
  refine ⟨rfl, fun k => ?_, fun k => ?_, rfl, rfl, rfl⟩
  · by_cases hk : k = i
    · subst hk
      simp [setSems]
    · simp [setSems, Function.update_of_ne hk]
  · by_cases hk : k = i
    · subst hk
      simp [setSems]
    · simp [setSems, Function.update_of_ne hk]

lemma of_step {r s : Replica} {e : Event} (h : r.step cfg crypto e = some s)
    (he : ∀ i j, e ≠ .proposalThread i j) : SameAlloc r s := by
  cases e with
  | deliver m => exact of_handled (.handle h)
  | replay i => exact of_handled (.replay h)
  | clientBatch i batch => exact enqueueBatch h
  | proposalThread i j => exact absurd rfl (he i j)
  | genericThread i busy => exact genericStep h
  | workerGenericP k =>
    simp only [Replica.step, Replica.workerGenericP] at h
    split at h
    · have hq : SameAlloc r (r.setRequeued (r.threads.requeued.eraseIdx k)) :=
        ⟨rfl, fun _ => rfl, fun _ => rfl, rfl, rfl, rfl⟩
      exact hq.trans (handleGenericP h)
    · cases h
  | execute k =>
    obtain ⟨e, _, rfl⟩ := Option.map_eq_some_iff.mp h
    exact ⟨rfl, fun _ => rfl, fun _ => rfl, rfl, rfl, rfl⟩
  | recycle id t =>
    simp only [Replica.step, Replica.recycle] at h
    split_ifs at h
    obtain rfl := Option.some.inj h
    exact ⟨rfl, fun _ => rfl, fun _ => rfl, rfl, rfl, rfl⟩

end SameAlloc

section Batches

variable {cfg crypto} {r s : Replica} {e : Event}

lemma setSend_newTxnQueue {i : ℕ} {y : Sending} (hy : y.newTxnQueue = (r.sends i).newTxnQueue) (k : ℕ) :
    ((r.setSend i y).sends k).newTxnQueue = (r.sends k).newTxnQueue := by
  by_cases hk : k = i
  · subst hk
    simpa using hy
  · simp [Function.update_of_ne hk]

lemma handleGenericP_sends {id : ℕ} (hs : r.handleGenericP cfg crypto id = some s) :
    s.sends = r.sends ∧ s.threads = r.threads := by
  simp only [Replica.handleGenericP] at hs
  split_ifs at hs
  · obtain rfl := Option.some.inj hs
    exact ⟨rfl, rfl⟩
  · obtain ⟨_, rfl⟩ := processHotstuffGenericP_cases hs
    have hsent := (Handled.refl (((r.setTxn id { r.table id with
        highQC := (r.inst (r.table id).instanceId).preparedQC, genericReceived := true }).send (r.others cfg)
      (.generic (r.genericOf crypto id))).observe (.genericSent (r.table id).instanceId id))).sendHotstuffNewview
        cfg crypto id
    exact ⟨hsent.sends, hsent.threads⟩

variable (cfg) in
def waiting (r : Replica) : Multiset ClientQueryBatch :=
  ∑ i ∈ Finset.range cfg.totInstances, ((r.sends i).newTxnQueue : Multiset ClientQueryBatch)

variable (cfg) in
def custody (r : Replica) : Multiset ClientQueryBatch := r.waiting cfg + r.poppedBatches

def Event.arriving : Event → Multiset ClientQueryBatch
  | .clientBatch _ batch => {batch}
  | _ => 0

lemma waiting_congr (h : ∀ i, (s.sends i).newTxnQueue = (r.sends i).newTxnQueue) : s.waiting cfg = r.waiting cfg :=
  Finset.sum_congr rfl fun i _ => by rw [h]

lemma waiting_update {i : ℕ} (hi : i < cfg.totInstances) {y : Sending} {b : Multiset ClientQueryBatch}
    (hs : s.sends = Function.update r.sends i y) (hy : (y.newTxnQueue : Multiset ClientQueryBatch) = (r.sends i).newTxnQueue + b) :
    s.waiting cfg = r.waiting cfg + b := by
  have hmem : i ∈ Finset.range cfg.totInstances := Finset.mem_range.mpr hi
  rw [waiting, waiting, ← Finset.add_sum_erase _ _ hmem, ← Finset.add_sum_erase _ _ hmem, hs, Function.update_self, hy]
  have hrest : ∑ j ∈ (Finset.range cfg.totInstances).erase i, ((Function.update r.sends i y j).newTxnQueue :
      Multiset ClientQueryBatch) = ∑ j ∈ (Finset.range cfg.totInstances).erase i, ((r.sends j).newTxnQueue :
      Multiset ClientQueryBatch) := by
    refine Finset.sum_congr rfl fun j hj => ?_
    rw [Function.update_of_ne (Finset.ne_of_mem_erase hj)]
  rw [hrest, add_right_comm]

lemma custody_congr (hsends : ∀ i, (s.sends i).newTxnQueue = (r.sends i).newTxnQueue)
    (hpopped : s.poppedBatches = r.poppedBatches) : s.custody cfg = r.custody cfg := by
  rw [custody, custody, waiting_congr hsends, hpopped]

lemma Handled.custody (h : Handled r s) : s.custody cfg = r.custody cfg :=
  custody_congr (fun i => by rw [h.sends]) (SameAlloc.of_handled h).popped

lemma custody_setSend {i : ℕ} {y : Sending} (hs : s.sends = Function.update r.sends i y)
    (hy : y.newTxnQueue = (r.sends i).newTxnQueue) (hpopped : s.poppedBatches = r.poppedBatches) :
    s.custody cfg = r.custody cfg := by
  refine custody_congr (fun k => ?_) hpopped
  rw [hs]
  exact setSend_newTxnQueue hy k

lemma custody_pop {j : ℕ} (hj : j < cfg.totInstances) {y : Sending} {batch : ClientQueryBatch}
    (hq : (r.sends j).newTxnQueue = batch :: y.newTxnQueue) (hs : s.sends = Function.update r.sends j y)
    (hpopped : s.poppedBatches = r.poppedBatches ++ [batch]) : s.custody cfg = r.custody cfg := by
  have hback : r.sends = Function.update s.sends j (r.sends j) := by
    rw [hs, Function.update_idem, Function.update_eq_self]
  have hwaiting : r.waiting cfg = s.waiting cfg + {batch} := by
    refine waiting_update hj hback ?_
    rw [hs, Function.update_self, hq, ← Multiset.cons_coe, ← Multiset.singleton_add, add_comm]
  rw [custody, custody, hwaiting, hpopped, ← Multiset.coe_add, Multiset.coe_singleton]
  abel

lemma proposalStep_custody {i j : ℕ} (hs : r.proposalStep cfg crypto i j = some s) :
    s.custody cfg = r.custody cfg := by
  simp only [proposalStep] at hs
  split at hs
  · split_ifs at hs
    obtain rfl := Option.some.inj hs
    exact custody_congr (fun _ => rfl) rfl
  · split_ifs at hs
    obtain rfl := Option.some.inj hs
    exact custody_congr (fun _ => rfl) rfl
  · split_ifs at hs with hg
    split at hs
    · cases hs
    · rename_i batch rest hq
      obtain rfl := Option.some.inj hs
      refine custody_pop hg.2.1 hq rfl ?_
      simp [poppedBatches, setProposal, Obs.popped?]
  · obtain rfl := Option.some.inj hs
    exact custody_setSend rfl rfl rfl
  · obtain ⟨t, ht, rfl⟩ := Option.map_eq_some_iff.mp hs
    obtain ⟨_, table, _, rfl⟩ := createAndSendHotstuffPrepare_cases ht
    refine custody_congr (fun _ => rfl) ?_
    simp [poppedBatches, setProposal, storeBatch, Obs.popped?]
  · obtain rfl := Option.some.inj hs
    exact custody_setSend rfl rfl rfl

lemma genericStep_newTxnQueue {i : ℕ} {busy : Bool} (hs : r.genericStep cfg crypto i busy = some s) (k : ℕ) :
    (s.sends k).newTxnQueue = (r.sends k).newTxnQueue := by
  simp only [genericStep] at hs
  split at hs
  · split_ifs at hs
    exact Option.some.inj hs ▸ rfl
  · split_ifs at hs
    exact Option.some.inj hs ▸ rfl
  · split_ifs at hs
    exact Option.some.inj hs ▸ rfl
  · exact Option.some.inj hs ▸ rfl
  · obtain rfl := Option.some.inj hs
    exact setSend_newTxnQueue (by rfl) k
  · split_ifs at hs
    · exact Option.some.inj hs ▸ rfl
    · obtain ⟨t, ht, rfl⟩ := Option.map_eq_some_iff.mp hs
      exact congrArg (fun sends => (sends k).newTxnQueue) (handleGenericP_sends ht).1

lemma enqueueBatch_custody {i : ℕ} {batch : ClientQueryBatch} (hs : r.enqueueBatch cfg i batch = some s) :
    s.custody cfg = r.custody cfg + {batch} := by
  have hpopped := (SameAlloc.enqueueBatch hs).popped
  simp only [enqueueBatch] at hs
  split_ifs at hs with hg
  obtain rfl := Option.some.inj hs
  rw [custody, custody, hpopped, waiting_update (b := {batch}) hg.1 rfl, add_right_comm]
  rw [← Multiset.coe_singleton, Multiset.coe_add]

lemma step_custody (hs : r.step cfg crypto e = some s) : s.custody cfg = r.custody cfg + e.arriving := by
  cases e with
  | clientBatch i batch => exact enqueueBatch_custody hs
  | proposalThread i j => exact (proposalStep_custody hs).trans (add_zero _).symm
  | deliver m => exact (Handled.handle hs).custody.trans (add_zero _).symm
  | replay i => exact (Handled.replay hs).custody.trans (add_zero _).symm
  | genericThread i busy =>
    refine (custody_congr (genericStep_newTxnQueue hs) ?_).trans (add_zero _).symm
    exact (SameAlloc.of_step hs (by simp)).popped
  | workerGenericP k =>
    have hpopped := (SameAlloc.of_step hs (by simp)).popped
    simp only [step, workerGenericP] at hs
    split at hs
    · refine (custody_congr (fun i => ?_) hpopped).trans (add_zero _).symm
      exact congrArg (fun sends => (sends i).newTxnQueue) (handleGenericP_sends hs).1
    · cases hs
  | execute k =>
    obtain ⟨e, _, rfl⟩ := Option.map_eq_some_iff.mp hs
    exact (add_zero _).symm
  | recycle id t =>
    simp only [step, Replica.recycle] at hs
    split_ifs at hs
    obtain rfl := Option.some.inj hs
    exact (add_zero _).symm

end Batches

structure Alloc (r : Replica) : Prop where
  next : ∀ i < cfg.totInstances, cfg.getViewPrimary (r.sends i).nextSendView i = r.nodeId
  past : ∀ e ∈ r.proposals, e.instanceId < cfg.totInstances ∧
    cfg.getViewPrimary e.view e.instanceId = r.nodeId ∧ e.view < (r.sends e.instanceId).nextSendView
  increasing : r.proposals.Pairwise fun a b => a.instanceId = b.instanceId → a.view < b.view
  batches : r.poppedBatches = r.proposals.map Proposal.batch ++ r.threads.proposal.inHand
  turn : match r.threads.proposal with
    | .popped i view _ => i < cfg.totInstances ∧ view = (r.sends i).nextSendView
    | .stamped slot _ => ∃ i view, i < cfg.totInstances ∧ slot = cfg.slot view i ∧
        (r.sends i).lastSentView = view ∧ (r.sends i).nextSendView = view + cfg.nodeCnt ∧
        ∀ e ∈ r.proposals, e.instanceId = i → e.view < view
    | _ => True

lemma Alloc.unique {r : Replica} (ha : Alloc cfg r) {a b : Proposal} (hmem : a ∈ r.proposals) (hmem' : b ∈ r.proposals)
    (hview : a.view = b.view) (hinst : a.instanceId = b.instanceId) : a = b := by
  have hpair : r.proposals.Pairwise fun a b => a.instanceId = b.instanceId → a.view ≠ b.view :=
    ha.increasing.imp fun hab hinst => (hab hinst).ne
  have : Std.Symm fun a b : Proposal => a.instanceId = b.instanceId → a.view ≠ b.view :=
    ⟨fun _ _ hab hinst => (hab hinst.symm).symm⟩
  by_contra hne
  exact hpair.forall hmem hmem' hne hinst hview

lemma init_nextSendView {nodeId i : ℕ} (hnode : nodeId < cfg.nodeCnt) (hi : i < cfg.totInstances) :
    cfg.getViewPrimary (Sending.init cfg nodeId i).nextSendView i = nodeId := by
  have hm := cfg.instances_le
  simp only [Config.getViewPrimary, Sending.init]
  rw [Nat.mod_add_mod, Nat.sub_add_cancel (by omega), Nat.add_mod_left, Nat.mod_eq_of_lt hnode]

lemma getViewPrimary_add (view i : ℕ) : cfg.getViewPrimary (view + cfg.nodeCnt) i = cfg.getViewPrimary view i := by
  simp only [Config.getViewPrimary]
  rw [Nat.add_right_comm, Nat.add_mod_right]

lemma alloc_init {nodeId : ℕ} (hnode : nodeId < cfg.nodeCnt) : Alloc cfg (init cfg nodeId) where
  next i hi := init_nextSendView cfg hnode hi
  past e he := by simp [proposals, init] at he
  increasing := by simp [proposals, init]
  batches := by simp [poppedBatches, proposals, init, ProposalPc.inHand]
  turn := trivial

lemma SameAlloc.alloc {r s : Replica} (h : SameAlloc r s) (ha : Alloc cfg r) : Alloc cfg s where
  next i hi := by rw [h.next, h.nodeId, ha.next i hi]
  past e he := by
    rw [h.proposals] at he
    rw [h.next, h.nodeId]
    exact ha.past e he
  increasing := by
    rw [h.proposals]
    exact ha.increasing
  batches := by rw [h.popped, h.proposals, h.pc, ha.batches]
  turn := by
    have hturn := ha.turn
    rw [h.pc]
    split
    · rename_i i view batch hpc
      rw [hpc] at hturn
      rw [h.next]
      exact hturn
    · rename_i slot batch hpc
      rw [hpc] at hturn
      obtain ⟨i, view, hi, hslot, hlast, hnext, hpast⟩ := hturn
      refine ⟨i, view, hi, hslot, by rw [h.last, hlast], by rw [h.next, hnext], ?_⟩
      rw [h.proposals]
      exact hpast
    · trivial

lemma alloc_idle {r s : Replica} (ha : Alloc cfg r) (hnode : s.nodeId = r.nodeId)
    (hnext : ∀ i, (s.sends i).nextSendView = (r.sends i).nextSendView)
    (hprop : s.proposals = r.proposals) (hpop : s.poppedBatches = r.poppedBatches)
    (hr : r.threads.proposal.inHand = []) (hs : s.threads.proposal.inHand = []) : Alloc cfg s where
  next i hi := by rw [hnext, hnode, ha.next i hi]
  past e he := by
    rw [hprop] at he
    rw [hnext, hnode]
    exact ha.past e he
  increasing := by
    rw [hprop]
    exact ha.increasing
  batches := by rw [hpop, hprop, hs, ha.batches, hr]
  turn := by
    split
    · rename_i hpc
      rw [hpc] at hs
      cases hs
    · rename_i hpc
      rw [hpc] at hs
      cases hs
    · trivial

lemma alloc_pop {r s : Replica} (ha : Alloc cfg r) (hr : r.threads.proposal.inHand = []) {i : ℕ}
    {batch : ClientQueryBatch} (hi : i < cfg.totInstances) (hnode : s.nodeId = r.nodeId)
    (hnext : ∀ k, (s.sends k).nextSendView = (r.sends k).nextSendView)
    (htrace : s.trace = r.trace ++ [.popped batch])
    (hpc : s.threads.proposal = .popped i (r.sends i).nextSendView batch) : Alloc cfg s := by
  have hprop : s.proposals = r.proposals := by simp [proposals, htrace, Obs.proposal?]
  have hpop : s.poppedBatches = r.poppedBatches ++ [batch] := by simp [poppedBatches, htrace, Obs.popped?]
  refine ⟨fun k hk => ?_, fun e he => ?_, ?_, ?_, ?_⟩
  · rw [hnext, hnode, ha.next k hk]
  · rw [hprop] at he
    rw [hnext, hnode]
    exact ha.past e he
  · rw [hprop]
    exact ha.increasing
  · rw [hpop, hprop, hpc, ha.batches, hr, List.append_nil]
    rfl
  · rw [hpc]
    exact ⟨hi, (hnext i).symm⟩

lemma alloc_stamp {r : Replica} (ha : Alloc cfg r) {i view : ℕ} {batch : ClientQueryBatch}
    (hpc : r.threads.proposal = .popped i view batch) :
    Alloc cfg ((r.setSend i { r.sends i with
      lastSentView := view, nextSendView := (r.sends i).nextSendView + cfg.nodeCnt }).setProposal
        (.stamped (cfg.slot view i) batch)) := by
  have hturn := ha.turn
  rw [hpc] at hturn
  obtain ⟨hi, hview⟩ := hturn
  refine ⟨fun k hk => ?_, fun e he => ?_, ha.increasing, ?_, ?_⟩
  · change cfg.getViewPrimary (Function.update r.sends i _ k).nextSendView k = r.nodeId
    by_cases hki : k = i
    · subst hki
      rw [Function.update_self, getViewPrimary_add, ha.next k hk]
    · rw [Function.update_of_ne hki, ha.next k hk]
  · obtain ⟨he₁, he₂, he₃⟩ := ha.past e he
    refine ⟨he₁, he₂, ?_⟩
    change _ < (Function.update r.sends i _ e.instanceId).nextSendView
    by_cases hki : e.instanceId = i
    · rw [hki] at he₃ ⊢
      rw [Function.update_self]
      exact he₃.trans_le (Nat.le_add_right _ _)
    · rw [Function.update_of_ne hki]
      exact he₃
  · change r.poppedBatches = _
    rw [ha.batches, hpc]
    rfl
  · refine ⟨i, view, hi, rfl, ?_, ?_, ?_⟩
    · simp [setProposal]
    · simp [setProposal, hview]
    · intro e he hei
      rw [hview, ← hei]
      exact (ha.past e he).2.2

lemma alloc_stamped {r : Replica} (ha : Alloc cfg r) {slot : ℕ} {batch : ClientQueryBatch}
    (hpc : r.threads.proposal = .stamped slot batch) :
    let m := r.proposalOf cfg crypto slot batch
    m.instanceId < cfg.totInstances ∧ slot = cfg.slot m.view m.instanceId ∧
      cfg.getViewPrimary m.view m.instanceId = r.nodeId ∧
      m.view < (r.sends m.instanceId).nextSendView ∧
      ∀ e ∈ r.proposals, e.instanceId = m.instanceId → e.view < m.view := by
  have hturn := ha.turn
  rw [hpc] at hturn
  obtain ⟨i, view, hi, rfl, hlast, hnext, hpast⟩ := hturn
  have hn := cfg.nodeCnt_pos
  have hinst : (r.proposalOf cfg crypto (cfg.slot view i) batch).instanceId = i := cfg.slot_mod view hi
  have hview : (r.proposalOf cfg crypto (cfg.slot view i) batch).view = view := by
    simp only [proposalOf, cfg.slot_mod view hi, hlast]
  dsimp only
  rw [hinst, hview]
  refine ⟨hi, rfl, ?_, by omega, hpast⟩
  rw [← ha.next i hi, hnext, getViewPrimary_add]

lemma alloc_create {r : Replica} (ha : Alloc cfg r) {slot : ℕ} {batch : ClientQueryBatch}
    (hpc : r.threads.proposal = .stamped slot batch) (table : ℕ → TxnManager) (k : ℕ) :
    Alloc cfg ((r.storeBatch cfg crypto slot batch table).setProposal (.processed k)) := by
  obtain ⟨hi, hslot, hprim, hlt, hpast⟩ := alloc_stamped cfg crypto ha hpc
  have hprop : ((r.storeBatch cfg crypto slot batch table).setProposal (.processed k)).proposals =
      r.proposals ++ [⟨(r.proposalOf cfg crypto slot batch).instanceId,
        (r.proposalOf cfg crypto slot batch).view, batch⟩] := by
    simp [proposals, storeBatch, setProposal, Obs.proposal?]
  refine ⟨ha.next, fun e he => ?_, ?_, ?_, trivial⟩
  · rw [hprop] at he
    rcases List.mem_append.mp he with he | he
    · exact ha.past e he
    · rw [List.mem_singleton.mp he]
      exact ⟨hi, hprim, hlt⟩
  · rw [hprop, List.pairwise_append]
    refine ⟨ha.increasing, List.pairwise_singleton _ _, ?_⟩
    intro a hin b hb hab
    rw [List.mem_singleton.mp hb] at hab ⊢
    exact hpast a hin hab
  · have hpop : ((r.storeBatch cfg crypto slot batch table).setProposal (.processed k)).poppedBatches =
        r.poppedBatches := by
      change (r.trace ++ [_]).filterMap Obs.popped? = _
      rw [List.filterMap_append]
      exact List.append_nil _
    rw [hpop, hprop, ha.batches, hpc, List.map_append]
    exact (List.append_nil _).symm

lemma alloc_proposalStep {r s : Replica} (ha : Alloc cfg r) {i j : ℕ}
    (h : r.proposalStep cfg crypto i j = some s) : Alloc cfg s := by
  simp only [proposalStep] at h
  split at h
  · rename_i hpc
    split_ifs at h
    obtain rfl := Option.some.inj h
    exact alloc_idle cfg ha rfl (fun _ => rfl) rfl rfl (by rw [hpc]; rfl) rfl
  · rename_i hpc
    split_ifs at h
    obtain rfl := Option.some.inj h
    exact alloc_idle cfg ha rfl (fun _ => rfl) rfl rfl (by rw [hpc]; rfl) rfl
  · rename_i hpc
    split_ifs at h with hg
    split at h
    · cases h
    · obtain rfl := Option.some.inj h
      refine alloc_pop cfg ha (by rw [hpc]; rfl) hg.1 rfl (fun k => ?_) rfl rfl
      by_cases hk : k = j
      · subst hk
        simp [setProposal]
      · simp [setProposal, Function.update_of_ne hk]
  · rename_i k view batch hpc
    obtain rfl := Option.some.inj h
    exact alloc_stamp cfg ha hpc
  · rename_i slot batch hpc
    obtain ⟨t, ht, rfl⟩ := Option.map_eq_some_iff.mp h
    obtain ⟨_, table, _, rfl⟩ := createAndSendHotstuffPrepare_cases ht
    exact alloc_create cfg crypto ha hpc table _
  · rename_i k hpc
    obtain rfl := Option.some.inj h
    refine alloc_idle cfg ha rfl (fun l => ?_) rfl rfl (by rw [hpc]; rfl) rfl
    by_cases hk : l = k
    · subst hk
      simp [setProposal]
    · simp [setProposal, Function.update_of_ne hk]

lemma alloc_step {r s : Replica} (ha : Alloc cfg r) {e : Event} (h : r.step cfg crypto e = some s) :
    Alloc cfg s := by
  by_cases he : ∃ i j, e = .proposalThread i j
  · obtain ⟨i, j, rfl⟩ := he
    exact alloc_proposalStep cfg crypto ha h
  · exact (SameAlloc.of_step h fun i j hij => he ⟨i, j, hij⟩).alloc cfg ha

lemma step_nodeId {r s : Replica} {e : Event} (h : r.step cfg crypto e = some s) : s.nodeId = r.nodeId := by
  by_cases he : ∃ i j, e = .proposalThread i j
  · obtain ⟨i, j, rfl⟩ := he
    simp only [step, proposalStep] at h
    split at h
    · split_ifs at h
      exact Option.some.inj h ▸ rfl
    · split_ifs at h
      exact Option.some.inj h ▸ rfl
    · split_ifs at h
      split at h
      · cases h
      · exact Option.some.inj h ▸ rfl
    · exact Option.some.inj h ▸ rfl
    · obtain ⟨t, ht, rfl⟩ := Option.map_eq_some_iff.mp h
      obtain ⟨_, table, _, rfl⟩ := createAndSendHotstuffPrepare_cases ht
      rfl
    · exact Option.some.inj h ▸ rfl
  · exact (SameAlloc.of_step h fun i j hij => he ⟨i, j, hij⟩).nodeId

lemma nodeId_reach {ok : Replica → Event → Prop} {nodeId : ℕ} {r : Replica}
    (h : Reach (step cfg crypto) ok (init cfg nodeId) r) : r.nodeId = nodeId := by
  apply h.invariant (fun r => r.nodeId = nodeId) rfl
  intro s e t _ _ hs hn
  exact (step_nodeId cfg crypto hs).trans hn

lemma alloc_reach {ok : Replica → Event → Prop} {nodeId : ℕ} (hnode : nodeId < cfg.nodeCnt) {r : Replica}
    (h : Reach (step cfg crypto) ok (init cfg nodeId) r) : Alloc cfg r := by
  apply h.invariant (Alloc cfg) (alloc_init cfg hnode)
  intro s e t _ _ hs ha
  exact alloc_step cfg crypto ha hs

lemma slotTxns_disjoint {v w i j : ℕ} (hi : i < cfg.totInstances) (hj : j < cfg.totInstances)
    (h : (v, i) ≠ (w, j)) : List.Disjoint (cfg.slotTxns v i) (cfg.slotTxns w j) := by
  intro k hk hk'
  rw [Config.mem_slotTxns] at hk hk'
  obtain ⟨rfl, rfl⟩ := cfg.slot_inj hi hj (hk.symm.trans hk')
  exact h rfl

end Replica

end SpotLess
