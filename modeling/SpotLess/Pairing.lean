import SpotLess.Naming

namespace SpotLess

open Lib

namespace Config

variable (cfg : Config)

def instOf (id : ℕ) : ℕ := id / cfg.batchSize % cfg.totInstances

lemma instOf_lastTxn (v : ℕ) {i : ℕ} (hi : i < cfg.totInstances) : cfg.instOf (cfg.lastTxn v i) = i := by
  rw [instOf, lastTxn_div, cfg.slot_mod v hi]

lemma instOf_lt (id : ℕ) : cfg.instOf id < cfg.totInstances := Nat.mod_lt _ cfg.instances_pos

end Config

def ProposalPc.work (cfg : Config) (i : ℕ) : ProposalPc → ℕ
  | .stamped slot _ => if slot % cfg.totInstances = i then 1 else 0
  | .processed j => if j = i then 1 else 0
  | _ => 0

def GenericPc.work (cfg : Config) (i : ℕ) : GenericPc → ℕ
  | .holding id => if cfg.instOf id = i then 1 else 0
  | _ => 0

def Obs.generic? : Obs → Option (ℕ × ℕ)
  | .genericSent i id => some (i, id)
  | _ => none

namespace Replica

variable (cfg : Config) (r : Replica)

def generics : List (ℕ × ℕ) := r.trace.filterMap Obs.generic?

-- How many slots of instance `i` are proposed, or about to be, and wait for their GENERIC.
def pending (i : ℕ) : ℕ :=
  r.threads.proposal.work cfg i + (r.sends i).incompleteProposalCnt + r.threads.generic.work cfg i +
    r.threads.requeued.countP fun id => cfg.instOf id = i

structure Pending (i : ℕ) : Prop where
  one : r.pending cfg i = 1
  view : (r.sends i).lastSentView = (r.inst i).view
  next : (r.sends i).nextSendView = (r.inst i).view + cfg.nodeCnt
  fresh : (r.table (cfg.lastTxn (r.inst i).view i)).genericReceived = false

structure Paired : Prop where
  next : ∀ i < cfg.totInstances, (r.inst i).view ≤ (r.sends i).nextSendView
  own : ∀ i < cfg.totInstances, ∀ w, cfg.getViewPrimary w i = r.nodeId →
    (r.table (cfg.lastTxn w i)).genericReceived = true → w < (r.sends i).nextSendView
  pending : ∀ i < cfg.totInstances, 0 < r.pending cfg i → r.Pending cfg i
  popped : ∀ i v batch, r.threads.proposal = .popped i v batch → (r.inst i).view = (r.sends i).nextSendView
  chosen : ∀ i, r.threads.generic = .chosen i → i < cfg.totInstances ∧ 0 < (r.sends i).incompleteProposalCnt
  formed : ∀ i id, r.threads.generic = .formed i id → i < cfg.totInstances ∧
    0 < (r.sends i).incompleteProposalCnt ∧ id = cfg.lastTxn (r.sends i).lastSentView i
  held : ∀ id, r.Held id → id = cfg.lastTxn (r.sends (cfg.instOf id)).lastSentView (cfg.instOf id)

variable {cfg r} {crypto : Crypto} {s : Replica} {p : ℕ}

lemma mem_generics {i id : ℕ} : (i, id) ∈ r.generics ↔ .genericSent i id ∈ r.trace := by
  rw [generics, List.mem_filterMap]
  constructor
  · rintro ⟨o, ho, heq⟩
    cases o with
    | genericSent j k =>
      obtain ⟨rfl, rfl⟩ := Prod.mk.inj (Option.some.inj heq)
      exact ho
    | _ => cases heq
  · exact fun h => ⟨_, h, rfl⟩

lemma Handled.generics (h : Handled r s) : s.generics = r.generics := by
  apply h.filterMap_trace
  intro o ho
  cases o <;> first | rfl | exact ho.elim

lemma work_lt_pending {id : ℕ} (h : r.Held id) :
    r.threads.proposal.work cfg (cfg.instOf id) < r.pending cfg (cfg.instOf id) := by
  rcases h with h | h
  · simp only [pending, h, GenericPc.work, if_pos]
    omega
  · have hcount : 0 < r.threads.requeued.countP fun k => cfg.instOf k = cfg.instOf id :=
      List.countP_pos_iff.mpr ⟨id, h, decide_eq_true rfl⟩
    simp only [pending]
    omega

lemma pending_of_held {id : ℕ} (h : r.Held id) : 0 < r.pending cfg (cfg.instOf id) :=
  (Nat.zero_le _).trans_lt (work_lt_pending h)

structure Undisturbed (cfg : Config) (r s : Replica) : Prop where
  nodeId : s.nodeId = r.nodeId
  next : ∀ i, (s.sends i).nextSendView = (r.sends i).nextSendView
  last : ∀ i, (s.sends i).lastSentView = (r.sends i).lastSentView
  incomplete : ∀ i, (s.sends i).incompleteProposalCnt = (r.sends i).incompleteProposalCnt
  threads : s.threads = r.threads
  progress : Progress cfg r s
  own : ∀ i < cfg.totInstances, ∀ w, cfg.getViewPrimary w i = r.nodeId →
    (s.table (cfg.lastTxn w i)).genericReceived = true → (r.table (cfg.lastTxn w i)).genericReceived = true

lemma Undisturbed.pending_eq (h : Undisturbed cfg r s) (i : ℕ) : s.pending cfg i = r.pending cfg i := by
  simp only [Replica.pending, h.threads, h.incomplete]

lemma Undisturbed.view_eq (h : Undisturbed cfg r s) {i : ℕ} (hi : i < cfg.totInstances)
    (hown : cfg.getViewPrimary (r.inst i).view i = r.nodeId)
    (hfresh : (r.table (cfg.lastTxn (r.inst i).view i)).genericReceived = false) :
    (s.inst i).view = (r.inst i).view := by
  rcases h.progress i hi with hv | ⟨_, hready⟩
  · exact hv
  · rw [h.own i hi _ hown hready.2.2] at hfresh
    cases hfresh

lemma Paired.fresh_next (h : Paired cfg r) (halloc : Alloc cfg r) {i : ℕ} (hi : i < cfg.totInstances) :
    (r.table (cfg.lastTxn (r.sends i).nextSendView i)).genericReceived = false := by
  by_contra hne
  exact absurd (h.own i hi _ (halloc.next i hi) (Bool.not_eq_false _ ▸ hne)) (lt_irrefl _)

lemma Paired.own_pending (halloc : Alloc cfg r) {i : ℕ} (hi : i < cfg.totInstances) (hp : r.Pending cfg i) :
    cfg.getViewPrimary (r.inst i).view i = r.nodeId := by
  rw [← halloc.next i hi, hp.next, getViewPrimary_add]

lemma Paired.current (h : Paired cfg r) (halloc : Alloc cfg r) {id : ℕ} (hid : r.Held id) : Current cfg r id := by
  have hp := h.pending _ (cfg.instOf_lt id) (pending_of_held hid)
  refine ⟨cfg.instOf id, cfg.instOf_lt id, ?_, Paired.own_pending halloc (cfg.instOf_lt id) hp⟩
  rw [← hp.view]
  exact h.held id hid

lemma Paired.undisturbed (h : Paired cfg r) (halloc : Alloc cfg r) (hu : Undisturbed cfg r s) : Paired cfg s := by
  have hstay : ∀ i < cfg.totInstances, (r.inst i).view = (r.sends i).nextSendView →
      (s.inst i).view = (r.inst i).view := by
    intro i hi heq
    apply hu.view_eq hi
    · rw [heq]
      exact halloc.next i hi
    · rw [heq]
      exact h.fresh_next halloc hi
  constructor
  · intro i hi
    rw [hu.next]
    have hle := h.next i hi
    rcases hu.progress i hi with hv | ⟨hv, _⟩
    · omega
    · by_cases heq : (r.inst i).view = (r.sends i).nextSendView
      · have := hstay i hi heq
        omega
      · omega
  · intro i hi w hw hg
    rw [hu.next]
    rw [hu.nodeId] at hw
    exact h.own i hi w hw (hu.own i hi w hw hg)
  · intro i hi hpos
    rw [hu.pending_eq] at hpos
    have hp := h.pending i hi hpos
    have hown := Paired.own_pending halloc hi hp
    have hv := hu.view_eq hi hown hp.fresh
    refine ⟨by rw [hu.pending_eq, hp.one], by rw [hu.last, hv, hp.view], by rw [hu.next, hv, hp.next], ?_⟩
    rw [hv]
    by_contra hne
    have := hu.own i hi _ hown (Bool.not_eq_false _ ▸ hne)
    rw [hp.fresh] at this
    cases this
  · intro i v batch hpc
    rw [hu.threads] at hpc
    have hi : i < cfg.totInstances := by
      have hturn := halloc.turn
      rw [hpc] at hturn
      exact hturn.1
    rw [hu.next, hstay i hi (h.popped i v batch hpc)]
    exact h.popped i v batch hpc
  · intro i hpc
    rw [hu.threads] at hpc
    rw [hu.incomplete]
    exact h.chosen i hpc
  · intro i id hpc
    rw [hu.threads] at hpc
    rw [hu.incomplete, hu.last]
    exact h.formed i id hpc
  · intro id hid
    rw [Held, hu.threads] at hid
    rw [hu.last]
    exact h.held id hid

structure PassesOn (cfg : Config) (r s : Replica) : Prop where
  nodeId : s.nodeId = r.nodeId
  view : ∀ i, (s.inst i).view = (r.inst i).view
  received : ∀ k, (s.table k).genericReceived = (r.table k).genericReceived
  next : ∀ i, (s.sends i).nextSendView = (r.sends i).nextSendView
  last : ∀ i, (s.sends i).lastSentView = (r.sends i).lastSentView
  pending : ∀ i, s.pending cfg i = r.pending cfg i

structure HandsOver (cfg : Config) (r s : Replica) : Prop where
  passes : PassesOn cfg r s
  popped : ∀ i v batch, s.threads.proposal = .popped i v batch → (r.inst i).view = (r.sends i).nextSendView
  chosen : ∀ i, s.threads.generic = .chosen i → i < cfg.totInstances ∧ 0 < (s.sends i).incompleteProposalCnt
  formed : ∀ i id, s.threads.generic = .formed i id → i < cfg.totInstances ∧
    0 < (s.sends i).incompleteProposalCnt ∧ id = cfg.lastTxn (r.sends i).lastSentView i
  held : ∀ id, s.Held id → r.Held id ∨ id = cfg.lastTxn (r.sends (cfg.instOf id)).lastSentView (cfg.instOf id)

lemma Paired.handsOver (h : Paired cfg r) (ho : HandsOver cfg r s) : Paired cfg s := by
  have hp := ho.passes
  constructor
  · intro i hi
    rw [hp.view, hp.next]
    exact h.next i hi
  · intro i hi w hw hg
    rw [hp.nodeId] at hw
    rw [hp.received] at hg
    rw [hp.next]
    exact h.own i hi w hw hg
  · intro i hi hpos
    rw [hp.pending] at hpos
    have hi := h.pending i hi hpos
    refine ⟨by rw [hp.pending, hi.one], by rw [hp.last, hp.view, hi.view], by rw [hp.next, hp.view, hi.next], ?_⟩
    rw [hp.view, hp.received]
    exact hi.fresh
  · intro i v batch hpc
    rw [hp.view, hp.next]
    exact ho.popped i v batch hpc
  · exact ho.chosen
  · intro i id hpc
    rw [hp.last]
    exact ho.formed i id hpc
  · intro id hid
    rw [hp.last]
    rcases ho.held id hid with hid | hid
    · exact h.held id hid
    · exact hid

section Threads

lemma PassesOn.of_threads (hnode : s.nodeId = r.nodeId) (hinst : s.inst = r.inst) (htable : s.table = r.table)
    (hsends : s.sends = r.sends) (hpending : ∀ i, s.pending cfg i = r.pending cfg i) : PassesOn cfg r s :=
  ⟨hnode, fun i => by rw [hinst], fun k => by rw [htable], fun i => by rw [hsends], fun i => by rw [hsends], hpending⟩

lemma setSend_field {α : Type} (f : Sending → α) {i : ℕ} {y : Sending} (hy : f y = f (r.sends i)) (k : ℕ) :
    f ((r.setSend i y).sends k) = f (r.sends k) := by
  by_cases hk : k = i
  · subst hk
    simpa using hy
  · simp [Function.update_of_ne hk]

lemma PassesOn.of_send (hnode : s.nodeId = r.nodeId) (hinst : s.inst = r.inst) (htable : s.table = r.table)
    {i : ℕ} {y : Sending} (hsends : s.sends = (r.setSend i y).sends)
    (hnext : y.nextSendView = (r.sends i).nextSendView) (hlast : y.lastSentView = (r.sends i).lastSentView)
    (hpending : ∀ i, s.pending cfg i = r.pending cfg i) : PassesOn cfg r s := by
  refine ⟨hnode, fun i => by rw [hinst], fun k => by rw [htable], fun k => ?_, fun k => ?_, hpending⟩
  · rw [hsends]
    exact setSend_field Sending.nextSendView hnext k
  · rw [hsends]
    exact setSend_field Sending.lastSentView hlast k

def stamp (cfg : Config) (r : Replica) (i view : ℕ) (batch : ClientQueryBatch) : Replica :=
  (r.setSend i { r.sends i with
    lastSentView := view, nextSendView := (r.sends i).nextSendView + cfg.nodeCnt }).setProposal
      (.stamped (cfg.slot view i) batch)

lemma stamp_sends_self (i view : ℕ) (batch : ClientQueryBatch) : (r.stamp cfg i view batch).sends i =
    { r.sends i with lastSentView := view, nextSendView := (r.sends i).nextSendView + cfg.nodeCnt } := by
  simp [stamp, setProposal]

lemma stamp_sends_of_ne {i j : ℕ} (view : ℕ) (batch : ClientQueryBatch) (hj : j ≠ i) :
    (r.stamp cfg i view batch).sends j = r.sends j := by
  simp [stamp, setProposal, Function.update_of_ne hj]

lemma stamp_pending {i view : ℕ} {batch : ClientQueryBatch} (hi : i < cfg.totInstances)
    (hpc : r.threads.proposal = .popped i view batch) (j : ℕ) :
    (r.stamp cfg i view batch).pending cfg j = r.pending cfg j + if j = i then 1 else 0 := by
  have hwork : r.threads.proposal.work cfg j = 0 := by rw [hpc]; rfl
  have hstamped : (r.stamp cfg i view batch).threads.proposal.work cfg j = if j = i then 1 else 0 := by
    change (if cfg.slot view i % cfg.totInstances = j then 1 else 0) = _
    rw [cfg.slot_mod view hi]
    exact if_congr eq_comm rfl rfl
  have hincomplete : ((r.stamp cfg i view batch).sends j).incompleteProposalCnt =
      (r.sends j).incompleteProposalCnt := by
    by_cases hj : j = i
    · subst hj
      rw [stamp_sends_self]
    · rw [stamp_sends_of_ne view batch hj]
  have hgeneric : (r.stamp cfg i view batch).threads.generic = r.threads.generic := rfl
  have hrequeued : (r.stamp cfg i view batch).threads.requeued = r.threads.requeued := rfl
  simp only [Replica.pending, hwork, hstamped, hincomplete, hgeneric, hrequeued]
  omega

lemma Paired.stamp (h : Paired cfg r) (halloc : Alloc cfg r) {i view : ℕ} {batch : ClientQueryBatch}
    (hpc : r.threads.proposal = .popped i view batch) : Paired cfg (r.stamp cfg i view batch) := by
  have hturn := halloc.turn
  rw [hpc] at hturn
  obtain ⟨hi, hview⟩ := hturn
  have hn := cfg.nodeCnt_pos
  have hcur := h.popped i view batch hpc
  have hnone : r.pending cfg i = 0 := by
    by_contra hne
    have := (h.pending i hi (by omega)).next
    omega
  have hpend := fun j => stamp_pending hi hpc j
  constructor
  · intro j hj
    have hle := h.next j hj
    by_cases hji : j = i
    · subst hji
      rw [stamp_sends_self]
      exact hle.trans (Nat.le_add_right _ _)
    · rw [stamp_sends_of_ne view batch hji]
      exact hle
  · intro j hj w hw hg
    have hlt := h.own j hj w hw hg
    by_cases hji : j = i
    · subst hji
      rw [stamp_sends_self]
      exact hlt.trans_le (Nat.le_add_right _ _)
    · rw [stamp_sends_of_ne view batch hji]
      exact hlt
  · intro j hj hpos
    by_cases hji : j = i
    · subst hji
      refine ⟨by rw [hpend, hnone, if_pos rfl], ?_, ?_, ?_⟩
      · rw [stamp_sends_self]
        exact hview.trans hcur.symm
      · rw [stamp_sends_self]
        exact congrArg (· + cfg.nodeCnt) hcur.symm
      · have hfresh := h.fresh_next halloc hj
        rw [← hcur] at hfresh
        exact hfresh
    · have heq : (r.stamp cfg i view batch).pending cfg j = r.pending cfg j := by rw [hpend, if_neg hji, Nat.add_zero]
      have hp := h.pending j hj (heq ▸ hpos)
      refine ⟨heq.trans hp.one, ?_, ?_, hp.fresh⟩
      · rw [stamp_sends_of_ne view batch hji]
        exact hp.view
      · rw [stamp_sends_of_ne view batch hji]
        exact hp.next
  · intro j v b hj
    cases hj
  · intro j hj
    have hc := h.chosen j hj
    refine ⟨hc.1, ?_⟩
    by_cases hji : j = i
    · subst hji
      rw [stamp_sends_self]
      exact hc.2
    · rw [stamp_sends_of_ne view batch hji]
      exact hc.2
  · intro j id hj
    obtain ⟨hjt, hpos, hid⟩ := h.formed j id hj
    have hji : j ≠ i := by
      rintro rfl
      simp only [Replica.pending] at hnone
      omega
    rw [stamp_sends_of_ne view batch hji]
    exact ⟨hjt, hpos, hid⟩
  · intro id hid
    have hne : cfg.instOf id ≠ i := by
      rintro rfl
      have hpos : 0 < r.pending cfg (cfg.instOf id) := pending_of_held hid
      omega
    rw [stamp_sends_of_ne view batch hne]
    exact h.held id hid

structure Finishes (cfg : Config) (id : ℕ) (r s : Replica) : Prop where
  nodeId : s.nodeId = r.nodeId
  view : ∀ i, (s.inst i).view = (r.inst i).view
  sends : s.sends = r.sends
  proposal : s.threads.proposal = r.threads.proposal
  generic : s.threads.generic = .idle ∨ s.threads.generic = r.threads.generic
  held : ∀ k, s.Held k → r.Held k
  pending : ∀ i, s.pending cfg i + (if cfg.instOf id = i then 1 else 0) = r.pending cfg i
  received : ∀ k, (s.table k).genericReceived = true → (r.table k).genericReceived = true ∨ k = id

lemma Paired.finish (h : Paired cfg r) {id : ℕ} (hid : r.Held id) (hf : Finishes cfg id r s) : Paired cfg s := by
  have hn := cfg.nodeCnt_pos
  have hp := h.pending _ (cfg.instOf_lt id) (pending_of_held hid)
  have hidv : id = cfg.lastTxn (r.inst (cfg.instOf id)).view (cfg.instOf id) := by
    rw [← hp.view]
    exact h.held id hid
  constructor
  · intro i hi
    rw [hf.view, hf.sends]
    exact h.next i hi
  · intro i hi w hw hg
    rw [hf.nodeId] at hw
    rw [hf.sends]
    rcases hf.received _ hg with hg | heq
    · exact h.own i hi w hw hg
    · obtain ⟨hwv, rfl⟩ := cfg.lastTxn_inj hi (cfg.instOf_lt id) (heq.trans hidv)
      rw [hp.next]
      omega
  · intro i hi hpos
    have heq := hf.pending i
    have hp' := h.pending i hi (by omega)
    have hone := hp'.one
    have hne : cfg.instOf id ≠ i := by
      intro hi'
      rw [if_pos hi'] at heq
      omega
    rw [if_neg hne, Nat.add_zero] at heq
    refine ⟨heq.trans hone, by rw [hf.sends, hf.view, hp'.view], by rw [hf.sends, hf.view, hp'.next], ?_⟩
    rw [hf.view]
    by_contra hg
    rcases hf.received _ (Bool.not_eq_false _ ▸ hg) with hg | hg
    · rw [hp'.fresh] at hg
      cases hg
    · exact hne (cfg.lastTxn_inj hi (cfg.instOf_lt id) (hg.trans hidv)).2.symm
  · intro i v batch hpc
    rw [hf.view, hf.sends]
    exact h.popped i v batch (hf.proposal ▸ hpc)
  · intro i hpc
    rw [hf.sends]
    rcases hf.generic with hg | hg
    · rw [hg] at hpc
      cases hpc
    · exact h.chosen i (hg ▸ hpc)
  · intro i k hpc
    rw [hf.sends]
    rcases hf.generic with hg | hg
    · rw [hg] at hpc
      cases hpc
    · exact h.formed i k (hg ▸ hpc)
  · intro k hk
    rw [hf.sends]
    exact h.held k (hf.held k hk)

lemma handleGenericP_received {id : ℕ} (hs : r.handleGenericP cfg crypto id = some s) {k : ℕ}
    (hk : (s.table k).genericReceived = true) : (r.table k).genericReceived = true ∨ k = id := by
  simp only [handleGenericP] at hs
  split_ifs at hs
  · obtain rfl := Option.some.inj hs
    exact Or.inl hk
  · obtain ⟨_, rfl⟩ := processHotstuffGenericP_cases hs
    rw [sendHotstuffNewview_genericReceived] at hk
    by_cases hkid : k = id
    · exact Or.inr hkid
    · rw [observe_table, send_table, setTxn_table, Function.update_of_ne hkid] at hk
      exact Or.inl hk

lemma handleGenericP_nodeId {id : ℕ} (hs : r.handleGenericP cfg crypto id = some s) : s.nodeId = r.nodeId :=
  (SameAlloc.handleGenericP hs).nodeId

lemma handleGenericP_inst {id : ℕ} (hs : r.handleGenericP cfg crypto id = some s) : s.inst = r.inst := by
  simp only [handleGenericP] at hs
  split_ifs at hs
  · obtain rfl := Option.some.inj hs
    rfl
  · obtain ⟨_, rfl⟩ := processHotstuffGenericP_cases hs
    rcases sendHotstuffNewview_cases cfg crypto _ id with ⟨_, heq⟩ | ⟨_, hc⟩
    · rw [heq]
      rfl
    · rw [hc.inst]
      rfl

lemma handleGenericP_generics {id : ℕ} (hs : r.handleGenericP cfg crypto id = some s) :
    s.generics = r.generics ++ if id ≤ r.exec.nextIndex then [] else [((r.table id).instanceId, id)] := by
  simp only [handleGenericP] at hs
  split_ifs at hs ⊢
  · obtain rfl := Option.some.inj hs
    exact (List.append_nil _).symm
  · obtain ⟨_, rfl⟩ := processHotstuffGenericP_cases hs
    rw [((Handled.refl _).sendHotstuffNewview cfg crypto id).generics]
    simp [Replica.generics, Obs.generic?]

inductive SendStep (cfg : Config) (crypto : Crypto) (r s : Replica) : Prop
  | pass (h : HandsOver cfg r s)
      (hstamped : ∀ slot batch, r.threads.proposal = .stamped slot batch → s.threads.proposal = .stamped slot batch)
      (htrace : s.trace = r.trace ∨ ∃ batch, s.trace = r.trace ++ [.popped batch])
  | stamp {i view : ℕ} {batch : ClientQueryBatch} (hpc : r.threads.proposal = .popped i view batch)
      (heq : s = r.stamp cfg i view batch)
  | propose {slot : ℕ} {batch : ClientQueryBatch} {table : ℕ → TxnManager} (h : HandsOver cfg r s)
      (hpc : r.threads.proposal = .stamped slot batch)
      (heq : s = (r.storeBatch cfg crypto slot batch table).setProposal (.processed (slot % cfg.totInstances)))
  | finish {id : ℕ} (hid : r.Held id) (h : Finishes cfg id r s) (hproposals : s.proposals = r.proposals)
      (hgenerics : s.generics = r.generics ++ if id ≤ r.exec.nextIndex then [] else [((r.table id).instanceId, id)])

lemma SendStep.of_threads (hnode : s.nodeId = r.nodeId) (hinst : s.inst = r.inst) (htable : s.table = r.table)
    (hsends : s.sends = r.sends) (htrace : s.trace = r.trace) (hpending : ∀ i, s.pending cfg i = r.pending cfg i)
    (hstamped : ∀ slot batch, r.threads.proposal = .stamped slot batch → s.threads.proposal = .stamped slot batch)
    (hpopped : ∀ i v batch, s.threads.proposal = .popped i v batch → (r.inst i).view = (r.sends i).nextSendView)
    (hchosen : ∀ i, s.threads.generic = .chosen i → i < cfg.totInstances ∧ 0 < (r.sends i).incompleteProposalCnt)
    (hformed : ∀ i id, s.threads.generic = .formed i id → i < cfg.totInstances ∧
      0 < (r.sends i).incompleteProposalCnt ∧ id = cfg.lastTxn (r.sends i).lastSentView i)
    (hheld : ∀ id, s.Held id → r.Held id) : SendStep cfg crypto r s :=
  .pass ⟨.of_threads hnode hinst htable hsends hpending, hpopped, hsends ▸ hchosen, hsends ▸ hformed,
    fun id hid => Or.inl (hheld id hid)⟩ hstamped (Or.inl htrace)

lemma Paired.proposalStep (h : Paired cfg r) (halloc : Alloc cfg r) (hfed : Fed cfg r) {i j : ℕ}
    (hs : r.proposalStep cfg crypto i j = some s) : SendStep cfg crypto r s := by
  simp only [Replica.proposalStep] at hs
  split at hs
  · rename_i hpc
    split_ifs at hs
    obtain rfl := Option.some.inj hs
    refine .of_threads rfl rfl rfl rfl rfl (fun k => ?_) (by simp [hpc]) (by simp [setProposal]) h.chosen h.formed fun _ hid => hid
    simp only [Replica.pending, hpc]
    rfl
  · rename_i hpc
    split_ifs at hs
    obtain rfl := Option.some.inj hs
    refine .of_threads rfl rfl rfl rfl rfl (fun k => ?_) (by simp [hpc]) (by simp [setProposal]) h.chosen h.formed fun _ hid => hid
    simp only [Replica.pending, hpc]
    rfl
  · rename_i hpc
    split_ifs at hs with hguard
    split at hs
    · cases hs
    · rename_i batch rest _
      obtain rfl := Option.some.inj hs
      have hincomplete := setSend_field (r := r) Sending.incompleteProposalCnt (i := j)
        (y := { r.sends j with newTxnQueue := rest, clbCnt := (r.sends j).clbCnt - 1 }) rfl
      refine .pass ⟨.of_send rfl rfl rfl rfl rfl rfl fun k => ?_, ?_, ?_, ?_, fun id hid => Or.inl hid⟩ (by simp [hpc])
        (Or.inr ⟨batch, rfl⟩)
      · have := hincomplete k
        simp only [Replica.pending, hpc]
        exact congrArg (fun n => 0 + n + _ + _) this
      · intro i' v b hpop
        obtain ⟨rfl, _, _⟩ := ProposalPc.popped.inj hpop
        exact le_antisymm (h.next _ hguard.1) hguard.2.2.1
      · intro i' hi'
        have hc := h.chosen i' hi'
        exact ⟨hc.1, (hincomplete i').symm ▸ hc.2⟩
      · intro i' id hi'
        have hc := h.formed i' id hi'
        exact ⟨hc.1, (hincomplete i').symm ▸ hc.2.1, hc.2.2⟩
  · rename_i i' view batch hpc
    obtain rfl := Option.some.inj hs
    exact .stamp hpc rfl
  · rename_i slot batch hpc
    obtain ⟨t, ht, rfl⟩ := Option.map_eq_some_iff.mp hs
    obtain ⟨_, table, htable, rfl⟩ := createAndSendHotstuffPrepare_cases ht
    have hlen := hfed.inHand _ (by rw [hpc]; exact List.mem_singleton_self _)
    have hhash := storeBatch_hashes halloc hpc hlen htable
    obtain ⟨_, _, hlast⟩ := proposalOf_last crypto halloc hpc
    have hinst : ((r.storeBatch cfg crypto slot batch table).table
        (slot * cfg.batchSize + cfg.batchSize - 1)).instanceId = slot % cfg.totInstances := by
      obtain ⟨_, _, _, _, heq⟩ := hhash.last
      rw [hlast, heq]
      rfl
    rw [hinst]
    have hview : ∀ i, ((r.storeBatch cfg crypto slot batch table).inst i).view = (r.inst i).view := by
      intro i
      by_cases hi : i = (r.proposalOf cfg crypto slot batch).instanceId
      · subst hi
        simp [storeBatch]
      · simp [storeBatch, Function.update_of_ne hi]
    refine .propose ⟨⟨rfl, hview, fun k => ?_, fun _ => rfl, fun _ => rfl, fun k => ?_⟩, (by simp [setProposal]),
      h.chosen, h.formed, fun id hid => Or.inl hid⟩ hpc rfl
    · exact hashed_genericReceived htable _ _ k
    · simp only [Replica.pending, hpc]
      rfl
  · rename_i i' hpc
    obtain rfl := Option.some.inj hs
    have hinc : ∀ k, (((r.setSend i' { r.sends i' with
        incompleteProposalCnt := (r.sends i').incompleteProposalCnt + 1 }).setProposal .idle).sends
          k).incompleteProposalCnt = (r.sends k).incompleteProposalCnt + if i' = k then 1 else 0 := by
      intro k
      by_cases hk : k = i'
      · subst hk
        simp [setProposal]
      · simp [setProposal, Function.update_of_ne hk, Ne.symm hk]
    refine .pass ⟨.of_send rfl rfl rfl rfl rfl rfl fun k => ?_, (by simp [setProposal]), ?_, ?_,
      fun id hid => Or.inl hid⟩ (by simp [hpc]) (Or.inl rfl)
    · simp only [Replica.pending, hpc, hinc]
      simp only [setProposal, setSend_threads, ProposalPc.work]
      omega
    · intro k hk
      have hc := h.chosen k hk
      rw [hinc]
      exact ⟨hc.1, by omega⟩
    · intro k id hk
      have hc := h.formed k id hk
      rw [hinc]
      exact ⟨hc.1, by omega, hc.2.2⟩

lemma Paired.genericStep (h : Paired cfg r) {i : ℕ} {busy : Bool}
    (hs : r.genericStep cfg crypto i busy = some s) : SendStep cfg crypto r s := by
  simp only [Replica.genericStep] at hs
  split at hs
  · rename_i hpc
    split_ifs at hs
    obtain rfl := Option.some.inj hs
    refine .of_threads rfl rfl rfl rfl rfl (fun k => ?_) (fun _ _ hst => hst) h.popped (by simp [setGeneric]) (by simp [setGeneric]) fun id hid => ?_
    · simp only [Replica.pending, hpc]
      rfl
    · exact Or.inr (hid.resolve_left (by simp [setGeneric]))
  · rename_i hpc
    split_ifs at hs
    obtain rfl := Option.some.inj hs
    refine .of_threads rfl rfl rfl rfl rfl (fun k => ?_) (fun _ _ hst => hst) h.popped (by simp [setGeneric]) (by simp [setGeneric]) fun id hid => ?_
    · simp only [Replica.pending, hpc]
      rfl
    · exact Or.inr (hid.resolve_left (by simp [setGeneric]))
  · rename_i hpc
    split_ifs at hs with hguard
    obtain rfl := Option.some.inj hs
    refine .of_threads rfl rfl rfl rfl rfl (fun k => ?_) (fun _ _ hst => hst) h.popped ?_ (by simp [setGeneric]) fun id hid => ?_
    · simp only [Replica.pending, hpc]
      rfl
    · intro k hk
      obtain rfl := GenericPc.chosen.inj hk
      exact ⟨hguard.1, Nat.pos_of_ne_zero hguard.2.1⟩
    · exact Or.inr (hid.resolve_left (by simp [setGeneric]))
  · rename_i i' hpc
    obtain rfl := Option.some.inj hs
    refine .of_threads rfl rfl rfl rfl rfl (fun k => ?_) (fun _ _ hst => hst) h.popped (by simp [setGeneric]) ?_ fun id hid => ?_
    · simp only [Replica.pending, hpc]
      rfl
    · intro k id hk
      obtain ⟨rfl, rfl⟩ := GenericPc.formed.inj hk
      have hc := h.chosen _ hpc
      exact ⟨hc.1, hc.2, rfl⟩
    · exact Or.inr (hid.resolve_left (by simp [setGeneric]))
  · rename_i i' id hpc
    obtain rfl := Option.some.inj hs
    obtain ⟨hi, hpos, hid⟩ := h.formed i' id hpc
    have hinst : cfg.instOf id = i' := by rw [hid, cfg.instOf_lastTxn _ hi]
    have hinc : ∀ k, (((r.setSend i' { r.sends i' with
        incompleteProposalCnt := (r.sends i').incompleteProposalCnt - 1 }).setGeneric (.holding id)).sends
          k).incompleteProposalCnt + (if i' = k then 1 else 0) = (r.sends k).incompleteProposalCnt := by
      intro k
      by_cases hk : k = i'
      · subst hk
        simp only [setGeneric, setSend_sends, Function.update_self, if_pos]
        omega
      · simp [setGeneric, Function.update_of_ne hk, Ne.symm hk]
    refine .pass ⟨.of_send rfl rfl rfl rfl rfl rfl fun k => ?_, h.popped, (by simp [setGeneric]), (by simp [setGeneric]), fun k hk => ?_⟩
      (fun _ _ hst => hst) (Or.inl rfl)
    · have := hinc k
      simp only [Replica.pending, hpc]
      simp only [setGeneric, setSend_threads, GenericPc.work, hinst] at this ⊢
      omega
    · rcases hk with hk | hk
      · obtain rfl := GenericPc.holding.inj hk
        right
        rw [hinst]
        exact hid
      · exact Or.inl (Or.inr hk)
  · rename_i id hpc
    split_ifs at hs
    · obtain rfl := Option.some.inj hs
      refine .of_threads rfl rfl rfl rfl rfl (fun k => ?_) (fun _ _ hst => hst) h.popped (by simp [setGeneric]) (by simp [setGeneric]) fun k hk => ?_
      · simp only [Replica.pending, hpc]
        simp only [setGeneric, setRequeued, GenericPc.work, List.countP_append, List.countP_singleton,
          decide_eq_true_eq]
        omega
      · rcases hk.resolve_left (by simp [setGeneric]) |> List.mem_append.mp with hk | hk
        · exact Or.inr hk
        · rw [List.mem_singleton.mp hk]
          exact Or.inl hpc
    · obtain ⟨t, ht, rfl⟩ := Option.map_eq_some_iff.mp hs
      obtain ⟨hsends, hthreads⟩ := handleGenericP_sends ht
      have hheld : r.Held id := Or.inl hpc
      have hnode : t.nodeId = r.nodeId := handleGenericP_nodeId ht
      have hgen := handleGenericP_generics ht
      refine .finish hheld ⟨hnode, fun i => ?_, hsends, ?_, Or.inl rfl, fun k hk => ?_, fun k => ?_,
        fun k hk => handleGenericP_received ht hk⟩ (SameAlloc.handleGenericP ht).proposals hgen
      · change (t.inst i).view = _
        rw [handleGenericP_inst ht]
      · change t.threads.proposal = _
        rw [hthreads]
      · have hk' : k ∈ t.threads.requeued := hk.resolve_left (by simp [setGeneric])
        rw [hthreads] at hk'
        exact Or.inr hk'
      · simp only [Replica.pending, hpc]
        simp only [setGeneric, hthreads, hsends, GenericPc.work]
        omega

lemma countP_eraseIdx {α : Type} (f : α → Bool) {l : List α} {k : ℕ} {a : α} (h : l[k]? = some a) :
    (l.eraseIdx k).countP f + (if f a then 1 else 0) = l.countP f := by
  induction l generalizing k with
  | nil => cases h
  | cons b l ih =>
    cases k with
    | zero =>
      obtain rfl : b = a := by simpa using h
      rw [List.eraseIdx_cons_zero, List.countP_cons]
    | succ k =>
      rw [List.eraseIdx_cons_succ, List.countP_cons, List.countP_cons, ← ih (by simpa using h)]
      omega

lemma workerGenericP_sendStep {k : ℕ} (hs : r.workerGenericP cfg crypto k = some s) : SendStep cfg crypto r s := by
  simp only [Replica.workerGenericP] at hs
  split at hs
  · rename_i id hk
    obtain ⟨hsends, hthreads⟩ := handleGenericP_sends hs
    have hheld : r.Held id := Or.inr (List.mem_of_getElem? hk)
    have hnode : s.nodeId = (r.setRequeued (r.threads.requeued.eraseIdx k)).nodeId := handleGenericP_nodeId hs
    have hgen := handleGenericP_generics hs
    refine .finish hheld ⟨hnode, fun i => ?_, hsends, ?_, Or.inr ?_, fun j hj => ?_, fun j => ?_,
      fun j hj => handleGenericP_received hs hj⟩ (SameAlloc.handleGenericP hs).proposals hgen
    · rw [handleGenericP_inst hs]
      rfl
    · rw [hthreads]
      rfl
    · rw [hthreads]
      rfl
    · rw [Held, hthreads] at hj
      exact hj.imp_right List.mem_of_mem_eraseIdx
    · have hcount := countP_eraseIdx (fun id => decide (cfg.instOf id = j)) hk
      simp only [Replica.pending, hthreads, hsends]
      simp only [setRequeued, decide_eq_true_eq] at hcount ⊢
      omega
  · cases hs

lemma Paired.sendStep (h : Paired cfg r) (halloc : Alloc cfg r) (hs : SendStep cfg crypto r s) : Paired cfg s := by
  cases hs with
  | pass ho => exact h.handsOver ho
  | stamp hpc heq =>
    subst heq
    exact h.stamp halloc hpc
  | propose ho => exact h.handsOver ho
  | finish hid hf => exact h.finish hid hf

end Threads

section Step

lemma own_moves (hm : Moves cfg crypto (Msg.Peer cfg r.nodeId) (fun _ => False) (fun _ _ => True) r r s) {i w : ℕ}
    (hi : i < cfg.totInstances) (hw : cfg.getViewPrimary w i = r.nodeId)
    (hg : (s.table (cfg.lastTxn w i)).genericReceived = true) :
    (r.table (cfg.lastTxn w i)).genericReceived = true := by
  revert hg
  apply hm.invariant (I := fun s => (s.table (cfg.lastTxn w i)).genericReceived = true →
    (r.table (cfg.lastTxn w i)).genericReceived = true)
  · intro u v huv hu hg
    rcases huv.received hg with hg | ⟨m, hpeer, htxn, _, _⟩ | ⟨_, hfalse, _⟩
    · exact hu hg
    · obtain ⟨hview, hinst⟩ := cfg.lastTxn_inj hpeer.wellFormed hi (hpeer.named.txnId.symm.trans htxn)
      have hsender := hpeer.named.sender
      rw [hview, hinst, hw] at hsender
      exact absurd hsender hpeer.foreign
    · exact hfalse.elim
  · exact id

structure Steady (cfg : Config) (r : Replica) : Prop where
  paced : Paced cfg r
  paired : Paired cfg r
  alloc : Alloc cfg r
  fed : Fed cfg r
  wired : Wired cfg r
  parked : ∀ i, ∀ m ∈ r.queues i, Msg.Peer cfg r.nodeId (.generic m)

def NamedStep (cfg : Config) (r : Replica) (e : Event) : Prop :=
  Genuine cfg r e ∧ ∀ m, e = .deliver m → m.Named cfg

lemma NamedStep.peer {m : Msg} (h : NamedStep cfg r (.deliver m)) : Msg.Peer cfg r.nodeId m :=
  ⟨h.1.1, h.1.2.1, h.1.2.2, h.2 m rfl⟩

lemma NamedStep.supplies {e : Event} (h : NamedStep cfg r e) :
    Supplies cfg (Msg.Peer cfg r.nodeId) (fun _ _ => True) r e := by
  cases e with
  | deliver m => exact h.peer
  | recycle => exact h.1
  | proposalThread => exact fun _ _ _ => trivial
  | _ => trivial

lemma Steady.moves (h : Steady cfg r) {e : Event} (he : NamedStep cfg r e) (hs : r.step cfg crypto e = some s) :
    Moves cfg crypto (Msg.Peer cfg r.nodeId) (Current cfg r) (fun _ _ => True) r r s :=
  step_moves he.supplies h.parked (fun _ hid => h.paired.current h.alloc hid) hs

lemma Steady.cases (h : Steady cfg r) {e : Event} (he : NamedStep cfg r e) (hs : r.step cfg crypto e = some s) :
    SendStep cfg crypto r s ∨ Undisturbed cfg r s ∧ s.generics = r.generics ∧ s.proposals = r.proposals := by
  obtain ⟨_, hprogress⟩ := h.paced.moves h.alloc h.fed (h.moves he hs)
  have handled : Handled r s → (∀ i < cfg.totInstances, ∀ w, cfg.getViewPrimary w i = r.nodeId →
      (s.table (cfg.lastTxn w i)).genericReceived = true → (r.table (cfg.lastTxn w i)).genericReceived = true) →
      Undisturbed cfg r s ∧ s.generics = r.generics ∧ s.proposals = r.proposals := fun hh hown =>
    ⟨⟨hh.nodeId, fun i => by rw [hh.sends], fun i => by rw [hh.sends], fun i => by rw [hh.sends], hh.threads,
      hprogress, hown⟩, hh.generics, (SameAlloc.of_handled hh).proposals⟩
  cases e with
  | deliver m => exact Or.inr (handled (.handle hs) fun i hi w hw => own_moves (handle_moves he.peer hs) hi hw)
  | replay i => exact Or.inr (handled (.replay hs) fun i hi w hw => own_moves (replay_moves h.parked hs) hi hw)
  | clientBatch i batch =>
    simp only [Replica.step, enqueueBatch] at hs
    split_ifs at hs
    obtain rfl := Option.some.inj hs
    refine Or.inr ⟨⟨rfl, ?_, ?_, ?_, rfl, hprogress, fun _ _ _ _ hg => hg⟩, rfl, rfl⟩
    · exact setSend_field Sending.nextSendView rfl
    · exact setSend_field Sending.lastSentView rfl
    · exact setSend_field Sending.incompleteProposalCnt rfl
  | proposalThread i j => exact Or.inl (h.paired.proposalStep h.alloc h.fed hs)
  | genericThread i busy => exact Or.inl (h.paired.genericStep hs)
  | workerGenericP k => exact Or.inl (workerGenericP_sendStep hs)
  | execute k =>
    obtain ⟨e, he, rfl⟩ := Option.map_eq_some_iff.mp hs
    exact Or.inr ⟨⟨rfl, fun _ => rfl, fun _ => rfl, fun _ => rfl, rfl, hprogress, fun _ _ _ _ hg => hg⟩, rfl, rfl⟩
  | recycle id t =>
    simp only [Replica.step, Replica.recycle] at hs
    split_ifs at hs
    obtain rfl := Option.some.inj hs
    refine Or.inr ⟨⟨rfl, fun _ => rfl, fun _ => rfl, fun _ => rfl, rfl, hprogress, fun i hi w _ hg => ?_⟩, rfl, rfl⟩
    by_cases hk : cfg.lastTxn w i = id
    · subst hk
      rw [setTxn_table, Function.update_self, he.1.1.genericReceived] at hg
      cases hg
    · rwa [setTxn_table, Function.update_of_ne hk] at hg

lemma Paired.step (h : Steady cfg r) {e : Event} (he : NamedStep cfg r e) (hs : r.step cfg crypto e = some s) :
    Paired cfg s := by
  rcases h.cases he hs with hsend | ⟨hu, _, _⟩
  · exact h.paired.sendStep h.alloc hsend
  · exact h.paired.undisturbed h.alloc hu

lemma Steady.step (h : Steady cfg r) {e : Event} (he : NamedStep cfg r e) (hs : r.step cfg crypto e = some s) :
    Steady cfg s := by
  have hmoves := h.moves he hs
  obtain ⟨hpaced, _⟩ := h.paced.moves h.alloc h.fed hmoves
  obtain ⟨hwired, hfed⟩ := wired_fed_step h.wired h.fed he.1 hs
  refine ⟨hpaced, Paired.step h he hs, alloc_step cfg crypto h.alloc hs, hfed, hwired, ?_⟩
  rw [step_nodeId cfg crypto hs]
  apply hmoves.invariant (I := fun s => ∀ i, ∀ m ∈ s.queues i, Msg.Peer cfg r.nodeId (.generic m))
  · intro u v huv hu i
    exact huv.parked hu i
  · exact h.parked

lemma steady_init {p : ℕ} (hp : p < cfg.nodeCnt) : Steady cfg (init cfg p) where
  paced :=
    { taken := nofun
      passed := nofun
      insts := fun _ _ _ hh => absurd rfl hh }
  paired :=
    { next := fun _ _ => Nat.zero_le _
      own := nofun
      pending := fun i _ hpos => by simp [Replica.pending, init, ProposalPc.work, GenericPc.work, Sending.init] at hpos
      popped := nofun
      chosen := nofun
      formed := nofun
      held := fun id hid => by simp [Held, init] at hid }
  alloc := alloc_init cfg hp
  fed := ⟨fun i b hb => by simp [init, Sending.init] at hb, nofun⟩
  wired := wired_init hp
  parked i m hm := by simp [queues, init, Instance.init] at hm

end Step

end Replica

end SpotLess
