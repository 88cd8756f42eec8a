import SpotLess.FaultFree

namespace SpotLess.Replica

open Lib

variable {cfg : Config} {crypto : Crypto} {H : ℕ → ℕ → Bytes} {r₀ r s : Replica} {p : ℕ}

structure Announcing (cfg : Config) (r : Replica) : Prop where
  values : ∀ i, UMap.All (fun id => i < cfg.totInstances →
    ∃ w, id = cfg.lastTxn w i ∧ (cfg.getViewPrimary w i = r.nodeId → w ≤ (r.inst i).view)) (r.inst i).hashToTxnid
  own : OwnGenerics cfg r
  received : ∀ i < cfg.totInstances, ∀ w, cfg.getViewPrimary w i = r.nodeId →
    (r.table (cfg.lastTxn w i)).genericReceived = true → (i, cfg.lastTxn w i) ∈ r.generics
  left : ∀ i < cfg.totInstances, ∀ w < (r.inst i).view, cfg.getViewPrimary w i = r.nodeId →
    (i, cfg.lastTxn w i) ∈ r.generics
  emitted : ∀ j, ∀ m ∈ r.executions j, ∃ id, m = ExecuteMsg.copyFromTxn cfg id ∧ (id = 0 ∨ j < cfg.totInstances ∧
    ∃ w, id = cfg.lastTxn w j ∧ (cfg.getViewPrimary w j = r.nodeId → (j, id) ∈ r.generics))
  kept : ∀ i < cfg.totInstances, ∀ w batch hash, .proposed i w batch hash ∈ r.trace →
    (r.table (cfg.lastTxn w i)).hash ≠ [] ∨ cfg.lastTxn w i < r.exec.nextIndex

lemma announcing_init (p : ℕ) : Announcing cfg (init cfg p) where
  values i k id h := by cases h
  own i id h := by simp [generics, init] at h
  received := nofun
  left := nofun
  emitted j m hm := by simp [executions, init] at hm
  kept i _ w batch hash h := by simp [init] at h

lemma stamped_pending {slot : ℕ} {batch : ClientQueryBatch} (hpc : r.threads.proposal = .stamped slot batch) :
    0 < r.pending cfg (slot % cfg.totInstances) := by
  simp only [pending, hpc, ProposalPc.work, if_pos]
  omega

section Move

lemma Announcing.values_move (h : Announcing cfg r) (h₀ : Calm cfg H r₀) (hi₀ : Announcing cfg r₀)
    (hmid : Midway cfg H r₀ r) (hm : CalmMove cfg crypto H r₀ r s) (i : ℕ) : UMap.All (fun id => i < cfg.totInstances →
    ∃ w, id = cfg.lastTxn w i ∧ (cfg.getViewPrimary w i = s.nodeId → w ≤ (s.inst i).view))
      (s.inst i).hashToTxnid := by
  have hnode : s.nodeId = r₀.nodeId := hm.nodeId.trans hmid.nodeId
  have hviews : ∀ i, (r₀.inst i).view ≤ (s.inst i).view := fun i => (hmid.view i).trans (hm.view_le i)
  apply hm.txnids (p := fun i id => i < cfg.totInstances →
    ∃ w, id = cfg.lastTxn w i ∧ (cfg.getViewPrimary w i = s.nodeId → w ≤ (s.inst i).view))
  · intro m hexp _
    have hpeer := hexp.honest.peer
    refine ⟨m.view, ?_, fun hown => ?_⟩
    · rw [hpeer.named.index, cfg.slotTxns_getLastD]
    · rw [← hpeer.named.sender, hnode] at hown
      exact absurd hown hpeer.foreign
  · intro m hexp _
    refine ⟨m.view, hexp.honest.content.1, fun hown => ?_⟩
    rw [hnode] at hown
    obtain ⟨hlt, w, hw, hid, _⟩ := hi₀.own _ _ (hexp.asked m rfl hown)
    obtain ⟨rfl, _⟩ := cfg.lastTxn_inj hlt hlt (hexp.honest.content.1.symm.trans hid)
    exact hw.trans (hviews _)
  · intro slot batch hpc _
    obtain ⟨hi, _, hlast⟩ := proposalOf_last crypto h₀.steady.alloc hpc
    refine ⟨_, hlast, fun _ => ?_⟩
    have hview := (h₀.steady.paired.pending _ hi (stamped_pending hpc)).view
    exact hview.le.trans (hviews _)
  · intro i
    refine (h.values i).imp fun id hid hi => ?_
    obtain ⟨w, heq, hw⟩ := hid hi
    exact ⟨w, heq, fun hown => (hw (hown.trans hm.nodeId)).trans (hm.view_le i)⟩

lemma Announcing.received_move (h : Announcing cfg r) (hmid : Midway cfg H r₀ r)
    (hm : CalmMove cfg crypto H r₀ r s) (hown : OwnGenerics cfg s) {i w : ℕ} (hi : i < cfg.totInstances)
    (hprim : cfg.getViewPrimary w i = s.nodeId) (hg : (s.table (cfg.lastTxn w i)).genericReceived = true) :
    (i, cfg.lastTxn w i) ∈ s.generics := by
  rcases hm.received hg with hg | ⟨m, hexp, htxn, _⟩ | ⟨_, _, _, hsent⟩
  · exact hm.mem_generics (h.received i hi w (hprim.trans hm.nodeId) hg)
  · have hpeer := hexp.honest.peer
    obtain ⟨rfl, rfl⟩ := cfg.lastTxn_inj hpeer.wellFormed hi (hpeer.named.txnId.symm.trans htxn)
    rw [← hpeer.named.sender, hm.nodeId, hmid.nodeId] at hprim
    exact absurd hprim hpeer.foreign
  · have hmem := mem_generics.mpr hsent
    obtain ⟨hj, w', _, hid, _⟩ := hown _ _ hmem
    obtain ⟨_, hij⟩ := cfg.lastTxn_inj hi hj hid
    rwa [← hij] at hmem

lemma Announcing.left_move (h : Announcing cfg r) (h₀ : Calm cfg H r₀) (hmid : Midway cfg H r₀ r)
    (hm : CalmMove cfg crypto H r₀ r s) {i w : ℕ} (hi : i < cfg.totInstances) (hw : w < (s.inst i).view)
    (hprim : cfg.getViewPrimary w i = s.nodeId) : (i, cfg.lastTxn w i) ∈ s.generics := by
  rw [hm.nodeId] at hprim
  apply hm.mem_generics
  by_cases hlt : w < (r.inst i).view
  · exact h.left i hi w hlt hprim
  · rcases hm.views with hsame | ⟨id, hsame, hfresh, hready, ha⟩
    · rw [hsame i] at hw
      exact absurd hw hlt
    · obtain ⟨v, j, hadv⟩ := hmid.sound.advances h₀.steady.paced hmid.paced hsame
        (hfresh.imp fun m hexp => hexp.honest.peer) hready ha
      rw [advanceView_view ha, hadv.inst] at hw
      split_ifs at hw with hij
      · subst hij
        have hv := hadv.view
        obtain rfl : w = v := by omega
        apply h.received i hi w hprim
        rw [← hadv.id_eq]
        exact hadv.ready.2.2
      · exact absurd hw hlt

lemma Announcing.emitted_move (h : Announcing cfg r) (h₀ : Calm cfg H r₀) (hmid : Midway cfg H r₀ r)
    (hm : CalmMove cfg crypto H r₀ r s) {j : ℕ} {m : ExecuteMsg} (hmem : m ∈ s.executions j) :
    ∃ id, m = ExecuteMsg.copyFromTxn cfg id ∧ (id = 0 ∨ j < cfg.totInstances ∧
      ∃ w, id = cfg.lastTxn w j ∧ (cfg.getViewPrimary w j = s.nodeId → (j, id) ∈ s.generics)) := by
  have hold : m ∈ r.executions j → ∃ id, m = ExecuteMsg.copyFromTxn cfg id ∧ (id = 0 ∨ j < cfg.totInstances ∧
      ∃ w, id = cfg.lastTxn w j ∧ (cfg.getViewPrimary w j = s.nodeId → (j, id) ∈ s.generics)) := by
    intro hmem
    obtain ⟨id, heq, hid⟩ := h.emitted j m hmem
    refine ⟨id, heq, hid.imp_right fun ⟨hj, w, hw, hown⟩ => ⟨hj, w, hw, fun hprim => ?_⟩⟩
    exact hm.mem_generics (hown (hprim.trans hm.nodeId))
  rcases hmid.cases h₀ hm with hq | ⟨g, _, _, rfl⟩ | ⟨id, v, i, hadv, ha⟩
  · exact hold (hq.executions j ▸ hmem)
  · rw [storeGeneric, observe_executions _ _ (by rfl)] at hmem
    exact hold hmem
  · rw [advanceView_executions ha, hadv.inst] at hmem
    rcases List.mem_append.mp hmem with hmem | hmem
    · exact hold hmem
    obtain ⟨rfl, hids⟩ : j = i ∧ m ∈ (r.advanceIds cfg id).map (ExecuteMsg.copyFromTxn cfg) := by
      split_ifs at hmem with hji
      · exact ⟨hji, hmem⟩
      · cases hmem
    have hi := hadv.inst_lt
    obtain ⟨k, hk, rfl⟩ := List.mem_map.mp hids
    -- an own slot of a view up to the current one has been announced: it was left, or is the one being advanced
    have hdone : ∀ w ≤ v, cfg.getViewPrimary w j = s.nodeId → (j, cfg.lastTxn w j) ∈ s.generics := by
      intro w hw hprim
      apply hm.mem_generics
      rw [hm.nodeId] at hprim
      have hv := hadv.view
      rcases Nat.lt_or_eq_of_le hw with hlt | rfl
      · exact h.left j hi w (by omega) hprim
      · apply h.received j hi w hprim
        rw [← hadv.id_eq]
        exact hadv.ready.2.2
    refine ⟨k, rfl, ?_⟩
    rw [advanceIds, hadv.inst, hadv.view] at hk
    have hvalues := h.values j
    have hinstall : UMap.All (fun id => j < cfg.totInstances → ∃ w, id = cfg.lastTxn w j ∧
        (cfg.getViewPrimary w j = r.nodeId → w ≤ (r.inst j).view)) ((r.installQC id).inst j).hashToTxnid := by
      rw [installQC_inst hadv]
      exact hvalues
    rcases (updateLockQC_txnids _ _ _ _ hinstall).2 k hk with hk | rfl | ⟨rfl, hc⟩
    · obtain ⟨w, rfl, hw⟩ := hk hi
      refine Or.inr ⟨hi, w, rfl, fun hprim => hdone w ?_ hprim⟩
      rw [← hadv.view]
      exact hw (hprim.trans hm.nodeId)
    · exact Or.inl rfl
    · rw [installQC_inst hadv] at hc
      obtain ⟨u, rfl⟩ := Nat.exists_eq_add_of_le' (hmid.sound.two_le_of_commits hadv hc)
      rw [hadv.id_eq, cfg.lastTxn_two_back]
      exact Or.inr ⟨hi, u, rfl, hdone u (by omega)⟩

lemma Announcing.kept_move (h : Announcing cfg r) (h₀ : Calm cfg H r₀) (hm : CalmMove cfg crypto H r₀ r s) {i w : ℕ} (hi : i < cfg.totInstances) {batch : ClientQueryBatch}
    {hash : Bytes} (ho : .proposed i w batch hash ∈ s.trace) :
    (s.table (cfg.lastTxn w i)).hash ≠ [] ∨ cfg.lastTxn w i < s.exec.nextIndex := by
  rcases hm.proposed ho with ho | ⟨slot, table, hpc, rfl, hfill, rfl, rfl, rfl⟩
  · have hle := hm.nextIndex_le
    rcases h.kept i hi w batch hash ho with hne | hlt
    · rcases hm.grows (cfg.lastTxn w i) with hgrow | ⟨_, _, hlt, _⟩
      · exact Or.inl (hgrow.hash hne)
      · exact Or.inr (by omega)
    · exact Or.inr (by omega)
  · have hlen := h₀.steady.fed.inHand _ (by rw [hpc]; exact List.mem_singleton_self _)
    obtain ⟨_, _, _, _, heq⟩ := (storeBatch_hashes h₀.steady.alloc hpc hlen hfill).last
    rw [heq]
    exact Or.inl (crypto.hash_ne_nil _)

lemma Announcing.move (h : Announcing cfg r) (h₀ : Calm cfg H r₀) (hi₀ : Announcing cfg r₀) (hmid : Midway cfg H r₀ r)
    (hm : CalmMove cfg crypto H r₀ r s) : Announcing cfg s := by
  have hown := h.own.move hmid.paced hm
  exact ⟨h.values_move h₀ hi₀ hmid hm, hown, fun i hi w hprim hg => h.received_move hmid hm hown hi hprim hg,
    fun i hi w hw hprim => h.left_move h₀ hmid hm hi hw hprim, fun j m hmem => h.emitted_move h₀ hmid hm hmem,
    fun i hi w batch hash ho => h.kept_move h₀ hm hi ho⟩

lemma announcing_reach (hp : p < cfg.nodeCnt)
    (h : Reach (step cfg crypto) (FaultFree cfg crypto H) (init cfg p) r) : Announcing cfg r := by
  apply calm_invariant hp (announcing_init p) _ h
  intro r₀ r s h₀ hi₀ hmid hm h
  exact h.move h₀ hi₀ hmid hm

lemma tracked_reach (hp : p < cfg.nodeCnt)
    (h : Reach (step cfg crypto) (FaultFree cfg crypto H) (init cfg p) r) : Tracked cfg r := by
  apply calm_invariant hp (tracked_init p) _ h
  intro r₀ r s _ _ _ hm h
  exact h.move hm

end Move

structure Followed (cfg : Config) (r : Replica) : Prop where
  before : ∀ i < cfg.totInstances, ∀ w, (i, cfg.lastTxn w i) ∈ r.generics → w < (r.sends i).nextSendView
  fresh : ∀ i < cfg.totInstances, 0 < r.pending cfg i → (i, cfg.lastTxn (r.inst i).view i) ∉ r.generics
  made : ∀ i < cfg.totInstances, 0 < r.pending cfg i →
    (∃ slot batch, r.threads.proposal = .stamped slot batch ∧ slot % cfg.totInstances = i) ∨
      ∃ batch hash, .proposed i (r.inst i).view batch hash ∈ r.trace
  sent : ∀ e ∈ r.proposals, (e.instanceId, cfg.lastTxn e.view e.instanceId) ∈ r.generics ∨
    0 < r.pending cfg e.instanceId ∧ e.view = (r.inst e.instanceId).view
  once : r.generics.Nodup
  backed : ∀ i id, (i, id) ∈ r.generics → ∃ w batch hash, id = cfg.lastTxn w i ∧ .proposed i w batch hash ∈ r.trace

lemma followed_init (p : ℕ) : Followed cfg (init cfg p) where
  before i _ w h := by simp [generics, init] at h
  fresh i _ _ := by simp [generics, init]
  made i _ h := by simp [pending, init, ProposalPc.work, GenericPc.work, Sending.init] at h
  sent e h := by simp [proposals, init] at h
  once := by simp [generics, init]
  backed i id h := by simp [generics, init] at h

section Held

variable (hf : Followed cfg r) (hs : Steady cfg r) (ha : Announcing cfg r) (ht : Tracked cfg r)

include hf hs ha ht

lemma Followed.not_executed {i : ℕ} (hi : i < cfg.totInstances) (hpos : 0 < r.pending cfg i) :
    r.exec.nextIndex < cfg.lastTxn (r.inst i).view i := by
  by_contra hle
  obtain ⟨j, hj⟩ := ht.executed (Nat.le_of_not_lt hle)
  have hb := cfg.five_le_batch
  have hown := Paired.own_pending hs.alloc hi (hs.paired.pending i hi hpos)
  obtain ⟨id, heq, hid⟩ := ha.emitted j _ hj
  obtain rfl := ExecuteMsg.copyFromTxn_injective cfg heq
  rcases hid with hzero | ⟨hj, w, hw, hann⟩
  · have := cfg.lastTxn_add_one (r.inst i).view i
    omega
  · obtain ⟨rfl, rfl⟩ := cfg.lastTxn_inj hi hj hw
    exact hf.fresh i hi hpos (hann hown)

lemma Followed.hash_ne {i : ℕ} (hi : i < cfg.totInstances) {batch : ClientQueryBatch} {hash : Bytes}
    (hpos : 0 < r.pending cfg i) (ho : .proposed i (r.inst i).view batch hash ∈ r.trace) :
    (r.table (cfg.lastTxn (r.inst i).view i)).hash ≠ [] := by
  have hlt := hf.not_executed hs ha ht hi hpos
  exact (ha.kept i hi _ batch hash ho).resolve_right (by omega)

end Held

lemma Followed.proposed_of_started (hf : Followed cfg r) (hs : Steady cfg r) {i : ℕ} (hi : i < cfg.totInstances)
    (hpos : r.threads.proposal.work cfg i < r.pending cfg i) :
    ∃ batch hash, .proposed i (r.inst i).view batch hash ∈ r.trace := by
  rcases hf.made i hi (by omega) with ⟨slot, batch, hpc, hslot⟩ | ho
  · have hone := (hs.paired.pending i hi (by omega)).one
    rw [hpc, ProposalPc.work, if_pos hslot] at hpos
    omega
  · exact ho

lemma Followed.frame (hf : Followed cfg r) (halloc : Alloc cfg r) (hgen : s.generics = r.generics)
    (hprop : s.proposals = r.proposals) (htrace : ∃ l, s.trace = r.trace ++ l)
    (hnext : ∀ i, (s.sends i).nextSendView = (r.sends i).nextSendView)
    (hpending : ∀ i, s.pending cfg i = r.pending cfg i)
    (hview : ∀ i < cfg.totInstances, 0 < r.pending cfg i → (s.inst i).view = (r.inst i).view)
    (hstamped : ∀ slot batch, r.threads.proposal = .stamped slot batch → s.threads.proposal = .stamped slot batch) :
    Followed cfg s := by
  obtain ⟨l, hl⟩ := htrace
  constructor
  · intro i hi w hg
    rw [hnext]
    exact hf.before i hi w (hgen ▸ hg)
  · intro i hi hpos
    rw [hpending] at hpos
    rw [hgen, hview i hi hpos]
    exact hf.fresh i hi hpos
  · intro i hi hpos
    rw [hpending] at hpos
    rcases hf.made i hi hpos with ⟨slot, batch, hpc, hslot⟩ | ⟨batch, hash, ho⟩
    · exact Or.inl ⟨slot, batch, hstamped slot batch hpc, hslot⟩
    · rw [hview i hi hpos, hl]
      exact Or.inr ⟨batch, hash, List.mem_append_left l ho⟩
  · intro e he
    rw [hprop] at he
    rw [hgen]
    refine (hf.sent e he).imp_right fun ⟨hpos, heq⟩ => ?_
    rw [hpending, hview _ (halloc.past e he).1 hpos]
    exact ⟨hpos, heq⟩
  · rw [hgen]
    exact hf.once
  · intro i id hg
    obtain ⟨w, batch, hash, hid, ho⟩ := hf.backed i id (hgen ▸ hg)
    exact ⟨w, batch, hash, hid, by rw [hl]; exact List.mem_append_left l ho⟩

lemma Followed.stamp (hf : Followed cfg r) (hs : Steady cfg r) {i view : ℕ} {batch : ClientQueryBatch}
    (hpc : r.threads.proposal = .popped i view batch) : Followed cfg (r.stamp cfg i view batch) := by
  have hturn := hs.alloc.turn
  rw [hpc] at hturn
  obtain ⟨hi, _⟩ := hturn
  have hcur := hs.paired.popped i view batch hpc
  have hpend := fun j => stamp_pending hi hpc j
  have hle : ∀ j, (r.sends j).nextSendView ≤ ((r.stamp cfg i view batch).sends j).nextSendView := by
    intro j
    by_cases hj : j = i
    · subst hj
      rw [stamp_sends_self]
      exact Nat.le_add_right _ _
    · rw [stamp_sends_of_ne view batch hj]
  constructor
  · intro j hj w hg
    exact (hf.before j hj w hg).trans_le (hle j)
  · intro j hj hpos hg
    by_cases hji : j = i
    · subst hji
      have hlt := hf.before j hj _ hg
      change (r.inst j).view < _ at hlt
      omega
    · rw [hpend, if_neg hji] at hpos
      exact hf.fresh j hj hpos hg
  · intro j hj hpos
    by_cases hji : j = i
    · subst hji
      exact Or.inl ⟨_, batch, rfl, cfg.slot_mod view hj⟩
    · rw [hpend, if_neg hji] at hpos
      rcases hf.made j hj hpos with ⟨slot, b, hst, _⟩ | ho
      · rw [hpc] at hst
        cases hst
      · exact Or.inr ho
  · intro e he
    refine (hf.sent e he).imp_right fun ⟨hpos, heq⟩ => ⟨?_, heq⟩
    rw [hpend]
    omega
  · exact hf.once
  · exact hf.backed

lemma Followed.propose (hf : Followed cfg r) (hs : Steady cfg r) {slot : ℕ} {batch : ClientQueryBatch}
    {table : ℕ → TxnManager} (hpc : r.threads.proposal = .stamped slot batch)
    (heq : s = (r.storeBatch cfg crypto slot batch table).setProposal (.processed (slot % cfg.totInstances)))
    (ho : HandsOver cfg r s) : Followed cfg s := by
  have hp := ho.passes
  have hi : slot % cfg.totInstances < cfg.totInstances := Nat.mod_lt _ cfg.instances_pos
  have hview := (hs.paired.pending _ hi (stamped_pending hpc)).view
  have htrace : s.trace = r.trace ++ [.proposed (slot % cfg.totInstances) (r.inst (slot % cfg.totInstances)).view batch
      (crypto.calculateHash (batchString batch.cqrySet))] := by
    rw [← hview, heq]
    rfl
  have hgen : s.generics = r.generics := by
    simp [generics, htrace, Obs.generic?]
  constructor
  · intro j hj w hg
    rw [hp.next]
    exact hf.before j hj w (hgen ▸ hg)
  · intro j hj hpos
    rw [hp.pending] at hpos
    rw [hgen, hp.view]
    exact hf.fresh j hj hpos
  · intro j hj hpos
    rw [hp.pending] at hpos
    rw [hp.view, htrace]
    right
    rcases hf.made j hj hpos with ⟨slot', b, hst, rfl⟩ | ⟨b, hash, hmem⟩
    · obtain ⟨rfl, rfl⟩ := ProposalPc.stamped.inj (hpc.symm.trans hst)
      exact ⟨_, _, List.mem_append_right _ (List.mem_singleton_self _)⟩
    · exact ⟨b, hash, List.mem_append_left _ hmem⟩
  · intro e he
    rw [hgen, hp.pending, hp.view]
    have hprop : s.proposals = r.proposals ++
        [⟨slot % cfg.totInstances, (r.inst (slot % cfg.totInstances)).view, batch⟩] := by
      simp [proposals, htrace, Obs.proposal?]
    rw [hprop] at he
    rcases List.mem_append.mp he with he | he
    · exact hf.sent e he
    · rw [List.mem_singleton.mp he]
      exact Or.inr ⟨stamped_pending hpc, rfl⟩
  · rw [hgen]
    exact hf.once
  · intro j id hg
    obtain ⟨w, b, hash, hid, hmem⟩ := hf.backed j id (hgen ▸ hg)
    exact ⟨w, b, hash, hid, by rw [htrace]; exact List.mem_append_left _ hmem⟩

structure Due (cfg : Config) (r : Replica) (i id : ℕ) : Prop where
  slot : id = cfg.lastTxn (r.inst i).view i
  proposed : ∃ batch hash, .proposed i (r.inst i).view batch hash ∈ r.trace
  hash : (r.table id).hash ≠ []
  inst : (r.table id).instanceId = i
  index : r.exec.nextIndex < id

lemma Followed.due (hf : Followed cfg r) (hs : Steady cfg r) (ha : Announcing cfg r) (ht : Tracked cfg r) {i : ℕ}
    (hi : i < cfg.totInstances) (hpos : r.threads.proposal.work cfg i < r.pending cfg i) :
    Due cfg r i (cfg.lastTxn (r.inst i).view i) := by
  obtain ⟨batch, hash, ho⟩ := hf.proposed_of_started hs hi hpos
  have hhash := hf.hash_ne hs ha ht hi (by omega) ho
  exact ⟨rfl, ⟨batch, hash, ho⟩, hhash, hs.paced.insts _ i hi hhash, hf.not_executed hs ha ht hi (by omega)⟩

lemma Followed.due_held (hf : Followed cfg r) (hs : Steady cfg r) (ha : Announcing cfg r) (ht : Tracked cfg r) {id : ℕ}
    (hid : r.Held id) : Due cfg r (cfg.instOf id) id := by
  have hi := cfg.instOf_lt id
  have hslot : id = cfg.lastTxn (r.inst (cfg.instOf id)).view (cfg.instOf id) := by
    rw [← (hs.paired.pending _ hi (pending_of_held hid)).view]
    exact hs.paired.held id hid
  have hdue := hf.due hs ha ht hi (work_lt_pending hid)
  rwa [← hslot] at hdue

lemma Followed.finish (hf : Followed cfg r) (hs : Steady cfg r) (ha : Announcing cfg r) (ht : Tracked cfg r) {id : ℕ}
    (hid : r.Held id) (hfin : Finishes cfg id r s) (hprop : s.proposals = r.proposals)
    (hgen : s.generics = r.generics ++ if id ≤ r.exec.nextIndex then [] else [((r.table id).instanceId, id)])
    (htrace : ∃ l, s.trace = r.trace ++ l) : Followed cfg s := by
  have hdue := hf.due_held hs ha ht hid
  have hi := cfg.instOf_lt id
  have hpos : 0 < r.pending cfg (cfg.instOf id) := pending_of_held hid
  have hpend := hs.paired.pending _ hi hpos
  rw [if_neg (by have := hdue.index; omega), hdue.inst] at hgen
  obtain ⟨l, hl⟩ := htrace
  have hmem : ∀ g, g ∈ s.generics ↔ g ∈ r.generics ∨ g = (cfg.instOf id, id) := by
    intro g
    rw [hgen, List.mem_append, List.mem_singleton]
  have hstill : ∀ j, 0 < s.pending cfg j → 0 < r.pending cfg j ∧ j ≠ cfg.instOf id := by
    intro j hj
    have heq := hfin.pending j
    refine ⟨by omega, ?_⟩
    rintro rfl
    rw [if_pos rfl, hpend.one] at heq
    omega
  constructor
  · intro j hj w hg
    rw [hfin.sends]
    rcases (hmem _).mp hg with hg | hg
    · exact hf.before j hj w hg
    · obtain ⟨rfl, hw⟩ := Prod.mk.inj hg
      obtain ⟨rfl, _⟩ := cfg.lastTxn_inj hj hj (hw.trans hdue.slot)
      have hn := cfg.nodeCnt_pos
      rw [hpend.next]
      omega
  · intro j hj hjpos hg
    obtain ⟨hold, hne⟩ := hstill j hjpos
    rw [hfin.view] at hg
    rcases (hmem _).mp hg with hg | hg
    · exact hf.fresh j hj hold hg
    · exact hne (Prod.mk.inj hg).1
  · intro j hj hjpos
    rw [hfin.view, hfin.proposal, hl]
    refine (hf.made j hj (hstill j hjpos).1).imp_right fun ⟨batch, hash, ho⟩ => ?_
    exact ⟨batch, hash, List.mem_append_left l ho⟩
  · intro e he
    rw [hprop] at he
    rw [hmem, hfin.view]
    rcases hf.sent e he with hg | ⟨hepos, heq⟩
    · exact Or.inl (Or.inl hg)
    · by_cases hei : e.instanceId = cfg.instOf id
      · left
        right
        rw [heq, hei, ← hdue.slot]
      · have hsame := hfin.pending e.instanceId
        rw [if_neg (Ne.symm hei)] at hsame
        exact Or.inr ⟨by omega, heq⟩
  · rw [hgen, List.nodup_append]
    refine ⟨hf.once, List.nodup_singleton _, ?_⟩
    intro g hg g' hg' hne
    rw [hne, List.mem_singleton.mp hg'] at hg
    apply hf.fresh _ hi hpos
    rwa [← hdue.slot]
  · intro j k hg
    rcases (hmem _).mp hg with hg | hg
    · obtain ⟨w, batch, hash, hk, ho⟩ := hf.backed j k hg
      exact ⟨w, batch, hash, hk, by rw [hl]; exact List.mem_append_left l ho⟩
    · obtain ⟨rfl, rfl⟩ := Prod.mk.inj hg
      obtain ⟨batch, hash, ho⟩ := hdue.proposed
      exact ⟨_, batch, hash, hdue.slot, by rw [hl]; exact List.mem_append_left l ho⟩

lemma generics_of_trace (htrace : s.trace = r.trace ∨ ∃ batch, s.trace = r.trace ++ [.popped batch]) :
    s.generics = r.generics ∧ s.proposals = r.proposals ∧ ∃ l, s.trace = r.trace ++ l := by
  rcases htrace with heq | ⟨batch, heq⟩
  · exact ⟨by rw [generics, heq, generics], by rw [proposals, heq, proposals], [], by simp [heq]⟩
  · exact ⟨by simp [generics, heq, Obs.generic?], by simp [proposals, heq, Obs.proposal?], _, heq⟩

lemma Followed.step (hf : Followed cfg r) (hc : Calm cfg H r) (ha : Announcing cfg r) (ht : Tracked cfg r) {e : Event}
    (he : FaultFree cfg crypto H r e) (hs : r.step cfg crypto e = some s) : Followed cfg s := by
  have hsteady := hc.steady
  have htrace := step_trace he.genuine hs
  rcases hsteady.cases he.named hs with hsend | ⟨hu, hgen, hprop⟩
  · cases hsend with
    | pass ho hstamped htr =>
      obtain ⟨hgen, hprop, _⟩ := generics_of_trace htr
      exact hf.frame hsteady.alloc hgen hprop htrace ho.passes.next ho.passes.pending
        (fun i _ _ => ho.passes.view i) hstamped
    | stamp hpc heq =>
      subst heq
      exact hf.stamp hsteady hpc
    | propose ho hpc heq => exact hf.propose hsteady hpc heq ho
    | finish hid hfin hprop hgen => exact hf.finish hsteady ha ht hid hfin hprop hgen htrace
  · refine hf.frame hsteady.alloc hgen hprop htrace hu.next hu.pending_eq (fun i hi hpos => ?_)
      (fun slot batch hpc => hu.threads ▸ hpc)
    have hp := hsteady.paired.pending i hi hpos
    exact hu.view_eq hi (Paired.own_pending hsteady.alloc hi hp) hp.fresh

lemma followed_reach (hp : p < cfg.nodeCnt)
    (h : Reach (Replica.step cfg crypto) (FaultFree cfg crypto H) (init cfg p) r) : Followed cfg r := by
  apply h.invariant (Followed cfg) (followed_init p)
  intro s e t hr he hs hf
  exact hf.step (calm_reach hp hr) (announcing_reach hp hr) (tracked_reach hp hr) he hs

end SpotLess.Replica
