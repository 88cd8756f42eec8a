import SpotLess.Completion
import SpotLess.Join
import SpotLess.VoteSafety

namespace SpotLess.Replica

open Lib TxnManager

variable {cfg : Config} {crypto : Crypto} {H : ℕ → ℕ → Bytes} {P : Msg → Prop} {Q : ℕ → Prop}
  {B : ℕ → ClientQueryBatch → Prop} {r₀ r s : Replica} {p w i : ℕ}

section Leading

lemma Move.out (h : Move cfg crypto P Q B r₀ r s) : ∃ l, s.out = r.out ++ l := by
  have handled : ∀ {r s : Replica}, Handled r s → ∃ l, s.out = r.out ++ l := fun h =>
    let ⟨l, hl⟩ := h.out
    ⟨_, hl⟩
  have same : ∀ {r s : Replica}, s.out = r.out → ∃ l, s.out = r.out ++ l := fun h => ⟨[], by simp [h]⟩
  cases h with
  | idle h => exact same h.out
  | proposal => exact same rfl
  | @generic _ m => exact handled (((Handled.refl r).storeGeneric m).lockGeneric cfg m)
  | @vote _ id => exact handled ((Handled.refl r).sendHotstuffNewview cfg crypto id)
  | @count m => exact handled (Handled.countVote cfg r₀ m)
  | advance _ _ _ h => exact handled ((Handled.refl r).advanceView h)
  | batch => exact ⟨_, rfl⟩
  | announce => exact ⟨_, rfl⟩
  | execute => exact same rfl
  | recycle => exact same rfl

lemma Move.lasting {f : TxnManager → Bool} (hf : ∀ {t t' : TxnManager}, t.Grows t' → f t = true → f t' = true)
    (hm : Move cfg crypto P Q B r₀ r s) {k : ℕ} (h : f (r.table k) = true ∨ k < r.exec.nextIndex) :
    f (s.table k) = true ∨ k < s.exec.nextIndex := by
  have hle := hm.nextIndex_le
  rcases h with h | h
  · rcases hm.grows k with hgrow | ⟨_, _, hlt, _⟩
    · exact .inl (hf hgrow h)
    · exact .inr (by omega)
  · exact .inr (by omega)

-- What a replica has recorded and sent for the slots it leads.
structure Leading (cfg : Config) (r : Replica) : Prop where
  announced : ∀ i id, (i, id) ∈ r.generics → (r.table id).genericReceived = true ∨ id < r.exec.nextIndex
  filled : ∀ i w batch hash, .proposed i w batch hash ∈ r.trace →
    (r.table (cfg.lastTxn w i)).proposalReceived = true ∨ cfg.lastTxn w i < r.exec.nextIndex
  generic : ∀ i id, (i, id) ∈ r.generics → ∀ d ∈ r.others cfg, ∃ m : GenericMsg, (d, .generic m) ∈ r.out ∧ m.txnId = id
  proposal : ∀ i w batch hash, .proposed i w batch hash ∈ r.trace → ∀ d ∈ r.others cfg, ∃ m : ProposalMsg,
    (d, .proposal m) ∈ r.out ∧ m.view = w ∧ m.instanceId = i

lemma leading_init (p : ℕ) : Leading cfg (init cfg p) where
  announced i id h := by simp [generics, init] at h
  filled i w batch hash h := by simp [init] at h
  generic i id h := by simp [generics, init] at h
  proposal i w batch hash h := by simp [init] at h

lemma Leading.move (h : Leading cfg r) (h₀ : Calm cfg H r₀) (hm : CalmMove cfg crypto H r₀ r s) : Leading cfg s := by
  have hothers : s.others cfg = r.others cfg := by rw [others, hm.nodeId, others]
  obtain ⟨l, hout⟩ := hm.out
  constructor
  · intro i id hg
    have hold : (i, id) ∈ r.generics → (s.table id).genericReceived = true ∨ id < s.exec.nextIndex := fun hg =>
      hm.lasting (fun hgrow => hgrow.genericReceived) (h.announced i id hg)
    rcases hm.generics with heq | ⟨k, _, _, _, _, rfl⟩
    · exact hold (heq ▸ hg)
    · rw [announceGeneric_generics] at hg
      rcases List.mem_append.mp hg with hg | hg
      · exact hold hg
      · obtain ⟨_, rfl⟩ := Prod.mk.inj (List.mem_singleton.mp hg)
        left
        simp [announceGeneric]
  · intro i w batch hash ho
    rcases hm.proposed ho with ho | ⟨slot, table, hpc, rfl, hfill, rfl, rfl, rfl⟩
    · exact hm.lasting (fun hgrow => hgrow.proposalReceived) (h.filled i w batch hash ho)
    · left
      have hlen := h₀.steady.fed.inHand _ (by rw [hpc]; exact List.mem_singleton_self _)
      obtain ⟨_, _, _, _, heq⟩ := (storeBatch_hashes h₀.steady.alloc hpc hlen hfill).last
      rw [heq]
  · intro i id hg d hd
    rw [hothers] at hd
    have hold : (i, id) ∈ r.generics → ∃ m : GenericMsg, (d, .generic m) ∈ s.out ∧ m.txnId = id := by
      intro hg
      obtain ⟨m, hmem, hid⟩ := h.generic i id hg d hd
      exact ⟨m, hout ▸ List.mem_append_left l hmem, hid⟩
    rcases hm.generics with heq | ⟨k, _, _, _, _, rfl⟩
    · exact hold (heq ▸ hg)
    · rw [announceGeneric_generics] at hg
      rcases List.mem_append.mp hg with hg | hg
      · exact hold hg
      · obtain ⟨_, rfl⟩ := Prod.mk.inj (List.mem_singleton.mp hg)
        exact ⟨r.genericOf crypto id, List.mem_append_right _ (List.mem_map.mpr ⟨d, hd, rfl⟩), rfl⟩
  · intro i w batch hash ho d hd
    rcases hm.proposed ho with ho | ⟨slot, table, _, rfl, _, rfl, rfl, _⟩
    · obtain ⟨m, hmem, hview, hinst⟩ := h.proposal i w batch hash ho d (hothers ▸ hd)
      exact ⟨m, hout ▸ List.mem_append_left l hmem, hview, hinst⟩
    · exact ⟨_, List.mem_append_right _ (List.mem_map.mpr ⟨d, hd, rfl⟩), rfl, rfl⟩

lemma leading_reach (hp : p < cfg.nodeCnt)
    (h : Reach (step cfg crypto) (FaultFree cfg crypto H) (init cfg p) r) : Leading cfg r := by
  apply calm_invariant hp (leading_init p) _ h
  intro r₀ r s h₀ _ _ hm h
  exact h.move h₀ hm

end Leading

section Standing

structure Standing (cfg : Config) (H : ℕ → ℕ → Bytes) (r : Replica) : Prop where
  tally : ∀ i < cfg.totInstances, ∀ w, (r.inst i).view ≤ w →
    (r.table (cfg.lastTxn w i)).Tally cfg.nf r.nodeId (H w i)
  asked : ∀ i < cfg.totInstances, ∀ w, (r.inst i).view ≤ w → cfg.getViewPrimary w i = r.nodeId →
    (i, cfg.lastTxn w i) ∉ r.generics → (r.table (cfg.lastTxn w i)).votersOf (H w i) = []
  certified : ∀ i < cfg.totInstances, ∀ w < (r.inst i).view, ∃ qc voters,
    .advanced i w (cfg.lastTxn w i) qc voters ∈ r.trace ∧ voters.Nodup ∧ cfg.nf ≤ voters.length

lemma standing_init (p : ℕ) : Standing cfg H (init cfg p) where
  tally _ _ _ _ := tally_init cfg _ _
  asked _ _ _ _ _ _ := rfl
  certified := nofun

lemma votersOf_of_votes {t t' : TxnManager} (h : t'.votes = t.votes) (hash : Bytes) :
    t'.votersOf hash = t.votersOf hash := by
  have hvoters : t'.hashVoters = t.hashVoters := congrArg (fun v => v.2.2.2.2) h
  rw [votersOf, hvoters, votersOf]

lemma Expected.slot {m : SyncMsg} (hm : Expected cfg H r (.sync m)) (hi : i < cfg.totInstances)
    (hid : m.txnId = cfg.lastTxn w i) : m.view = w ∧ m.instanceId = i ∧ m.hash = H w i := by
  obtain ⟨htxn, hhash, _⟩ := hm.honest.content
  obtain ⟨rfl, rfl⟩ := cfg.lastTxn_inj hm.honest.peer.wellFormed hi (htxn.symm.trans hid)
  exact ⟨rfl, rfl, hhash⟩

variable (hmid : Midway cfg H r₀ r) (hm : CalmMove cfg crypto H r₀ r s) (hi : i < cfg.totInstances)

include hmid hm hi

lemma Midway.slotMove (h₀ : Calm cfg H r₀) (hp : Pipelined cfg H r) (ht : Tracked cfg r) (hw : (r.inst i).view ≤ w) :
    (s.table (cfg.lastTxn w i)).votes = (r.table (cfg.lastTxn w i)).votes ∨
    (∃ qc, (r.table (cfg.lastTxn w i)).syncSent = false ∧ (r.table (cfg.lastTxn w i)).genericReceived = true ∧
      (r.table (cfg.lastTxn w i)).hash = H w i ∧ s.table (cfg.lastTxn w i) =
        castVote cfg { r.table (cfg.lastTxn w i) with genericQC := qc, syncSent := true } r.nodeId) ∨
    ∃ m, Expected cfg H r₀ (.sync m) ∧ m.txnId = cfg.lastTxn w i ∧
      s.table (cfg.lastTxn w i) = (hotstuffNewViewed cfg (r.table (cfg.lastTxn w i)) r.nodeId m).1 := by
  cases h₀.steady.slotMove (fun _ hexp => hexp.honest.peer) hm hi with
  | keeps h => exact .inl h
  | casts hsent hg h =>
    have hhash := hmid.sound.tabled.hashes w i hi (hmid.sound.tabled.high w i hi hg).1
    exact .inr (.inl ⟨_, hsent, hg, hhash, h⟩)
  | counts hexp hid h => exact .inr (.inr ⟨_, hexp, hid, h⟩)
  | recycles hindex h =>
    have := hp.not_executed ht hi (w := w) (by omega)
    omega

lemma Standing.tally_move (h : Standing cfg H r) (h₀ : Calm cfg H r₀) (hp : Pipelined cfg H r) (ht : Tracked cfg r)
    (hw : (r.inst i).view ≤ w) : (s.table (cfg.lastTxn w i)).Tally cfg.nf s.nodeId (H w i) := by
  have hold := h.tally i hi w hw
  rw [hm.nodeId]
  rcases hmid.slotMove hm hi h₀ hp ht hw with heq | ⟨qc, hsent, _, hhash, heq⟩ | ⟨m, hexp, hid, heq⟩
  · exact hold.congr heq
  · rw [heq, ← hhash]
    rw [← hhash] at hold
    exact hold.castVote hsent qc
  · obtain ⟨_, _, hhash⟩ := hexp.slot hi hid
    rw [heq, ← hhash]
    rw [← hhash] at hold
    refine hold.hotstuffNewViewed ?_
    rw [hmid.nodeId]
    exact hexp.honest.peer.foreign

lemma Standing.asked_move (h : Standing cfg H r) (h₀ : Calm cfg H r₀) (hp : Pipelined cfg H r) (ht : Tracked cfg r)
    (ha : Announcing cfg r) (hw : (r.inst i).view ≤ w) (hown : cfg.getViewPrimary w i = s.nodeId)
    (hg : (i, cfg.lastTxn w i) ∉ s.generics) : (s.table (cfg.lastTxn w i)).votersOf (H w i) = [] := by
  have hbefore : (i, cfg.lastTxn w i) ∉ r.generics := fun hmem => hg (hm.mem_generics hmem)
  have hown' : cfg.getViewPrimary w i = r.nodeId := hown.trans hm.nodeId
  rcases hmid.slotMove hm hi h₀ hp ht hw with heq | ⟨_, _, hrec, _⟩ | ⟨m, hexp, hid, _⟩
  · rw [votersOf_of_votes heq]
    exact h.asked i hi w hw hown' hbefore
  · exact absurd (ha.received i hi w hown' hrec) hbefore
  · obtain ⟨rfl, rfl, _⟩ := hexp.slot hi hid
    obtain ⟨l, hl⟩ := hmid.trace
    have hasked := hexp.asked m rfl (hown'.trans hmid.nodeId)
    rw [hid, mem_generics] at hasked
    refine absurd (mem_generics.mpr ?_) hbefore
    rw [hl]
    exact List.mem_append_left l hasked

lemma Standing.certified_move (h : Standing cfg H r) (h₀ : Calm cfg H r₀) (hw : w < (s.inst i).view) : ∃ qc voters,
    .advanced i w (cfg.lastTxn w i) qc voters ∈ s.trace ∧ voters.Nodup ∧ cfg.nf ≤ voters.length := by
  by_cases hlt : w < (r.inst i).view
  · obtain ⟨qc, voters, hmem, hvoters⟩ := h.certified i hi w hlt
    obtain ⟨l, hl⟩ := hm.trace
    exact ⟨qc, voters, hl ▸ List.mem_append_left l hmem, hvoters⟩
  · rcases hm.views with hsame | ⟨id, hsame, hfresh, hready, ha⟩
    · rw [hsame i] at hw
      exact absurd hw hlt
    · obtain ⟨v, j, hadv⟩ := hmid.sound.advances h₀.steady.paced hmid.paced hsame
        (hfresh.imp fun m hexp => hexp.honest.peer) hready ha
      obtain ⟨l, hl, _⟩ := advanceView_trace ha
      rw [advanceView_view ha, hadv.inst] at hw
      split_ifs at hw with hij
      · subst hij
        have hv := hadv.view
        obtain rfl : w = v := by omega
        have htally := h.tally i hi w (by omega)
        rw [← hadv.id_eq, ← hadv.hash] at htally
        refine ⟨genericQCOf (r.table id) w, _, ?_, htally.nodup, htally.viewed.mp hready.1⟩
        rw [hl, hadv.inst, hv, ← hadv.id_eq]
        exact List.mem_append_right _ List.mem_cons_self
      · exact absurd hw hlt

omit hmid hm hi

lemma standing_reach (hapart : Apart cfg H) (hp : p < cfg.nodeCnt)
    (h : Reach (step cfg crypto) (FaultFree cfg crypto H) (init cfg p) r) : Standing cfg H r := by
  have hall : (Pipelined cfg H r ∧ Tracked cfg r) ∧ Announcing cfg r ∧ Standing cfg H r := by
    apply calm_invariant (I := fun r => (Pipelined cfg H r ∧ Tracked cfg r) ∧ Announcing cfg r ∧ Standing cfg H r) hp _ _ h
    · exact ⟨⟨pipelined_init p, tracked_init p⟩, announcing_init p, standing_init p⟩
    · rintro r₀ r s h₀ ⟨_, ha₀, _⟩ hmid hm ⟨⟨hpipe, ht⟩, ha, h⟩
      refine ⟨⟨hpipe.move hapart h₀ hmid hm ht, ht.move hm⟩, ha.move h₀ ha₀ hmid hm, ?_, ?_, ?_⟩
      · exact fun i hi w hw => h.tally_move hmid hm hi h₀ hpipe ht ((hm.view_le i).trans hw)
      · exact fun i hi w hw => h.asked_move hmid hm hi h₀ hpipe ht ha ((hm.view_le i).trans hw)
      · exact fun i hi w hw => h.certified_move hmid hm hi h₀ hw
  exact hall.2.2

end Standing

section Settled

lemma length_votersOf_castVote (t : TxnManager) (me : ℕ) :
    ((castVote cfg t me).votersOf t.hash).length = (t.votersOf t.hash).length + 1 := by
  have hpush : ((t.pushVoter t.hash me).votersOf t.hash).length = (t.votersOf t.hash).length + 1 := by
    rw [votersOf_pushVoter, if_pos rfl, List.length_append, List.length_singleton]
  simp only [castVote]
  split_ifs <;> exact hpush

lemma castVote_settled (hnf : 1 < cfg.nf) {t : TxnManager} {me : ℕ} (ht : t.Tally cfg.nf me t.hash)
    (hnone : t.votersOf t.hash = []) (hsent : t.syncSent = false) (qc : QuorumCertificate) :
    (castVote cfg { t with genericQC := qc, syncSent := true } me).Settled := by
  have hcast := ht.castVote hsent qc
  have hlen := @length_votersOf_castVote cfg { t with genericQC := qc, syncSent := true } me
  have hzero : (({ t with genericQC := qc, syncSent := true } : TxnManager).votersOf t.hash).length = 0 :=
    congrArg List.length hnone
  rw [hzero] at hlen
  refine ⟨fun _ => ?_, fun hready => ?_⟩
  · obtain ⟨_, _, _, heq⟩ := @castVote_eq cfg { t with genericQC := qc, syncSent := true } me
    rw [heq]
  · have hle := hcast.viewed.mp hready.1
    rw [hlen] at hle
    omega

lemma handleGenericP_settled (hnf : 1 < cfg.nf) {id : ℕ} (hindex : r.exec.nextIndex < id)
    (htally : (r.table id).Tally cfg.nf r.nodeId (r.table id).hash)
    (hnone : (r.table id).votersOf (r.table id).hash = []) (hs : r.handleGenericP cfg crypto id = some s) :
    (s.table id).Settled := by
  rw [handleGenericP, if_neg (by omega)] at hs
  have heq : s = (r.announceGeneric cfg crypto id).sendHotstuffNewview cfg crypto id :=
    (processHotstuffGenericP_cases hs).eq
  obtain ⟨t, ht⟩ : ∃ t, (r.announceGeneric cfg crypto id).table id = t := ⟨_, rfl⟩
  have hself : t =
      { r.table id with highQC := (r.inst (r.table id).instanceId).preparedQC, genericReceived := true } := by
    simp [← ht, announceGeneric]
  have hsent : t.syncSent = (r.table id).syncSent := by rw [hself]
  rcases sendHotstuffNewview_cases cfg crypto (r.announceGeneric cfg crypto id) id with ⟨hold, _⟩ | ⟨hnew, hc⟩
  · rw [ht, hsent] at hold
    have hme := htally.own.mpr hold
    rw [hnone] at hme
    cases hme
  · rw [ht] at hnew
    have htally' : t.Tally cfg.nf r.nodeId t.hash := by
      rw [hself]
      exact htally.congr rfl
    have hnone' : t.votersOf t.hash = [] := by
      rw [hself]
      exact hnone
    rw [heq, hc.table, Function.update_self, ht]
    exact castVote_settled hnf htally' hnone' hnew _

variable (hnf : 1 < cfg.nf) (h : Standing cfg H r) (hc : Calm cfg H r) (hi : i < cfg.totInstances)
  (hw : (r.inst i).view ≤ w) (hr : (r.table (cfg.lastTxn w i)).Settled)

include hnf h hc hi hw hr

lemma Standing.announce (hf : Followed cfg r) (ha : Announcing cfg r) (ht : Tracked cfg r) {id : ℕ} (hid : r.Held id)
    {u : Replica} (htable : u.table = r.table) (hnode : u.nodeId = r.nodeId) (hindex : u.exec = r.exec)
    (hs : u.handleGenericP cfg crypto id = some s) : (s.table (cfg.lastTxn w i)).Settled := by
  by_cases hk : cfg.lastTxn w i = id
  swap
  · rw [handleGenericP_table_of_ne hs hk, htable]
    exact hr
  subst hk
  have hdue := hf.due_held hc.steady ha ht hid
  have hj := cfg.instOf_lt (cfg.lastTxn w i)
  have hpos : 0 < r.pending cfg (cfg.instOf (cfg.lastTxn w i)) := pending_of_held hid
  obtain ⟨hview, hinst⟩ := cfg.lastTxn_inj hi hj hdue.slot
  have hown := Paired.own_pending hc.steady.alloc hj (hc.steady.paired.pending _ hj hpos)
  have hfresh := hf.fresh _ hj hpos
  rw [← hinst] at hview hown hfresh
  rw [← hview] at hown hfresh
  have hhash := hc.sound.tabled.hashes w i hi hdue.hash
  have htally := h.tally i hi w hw
  have hnone := h.asked i hi w hw hown hfresh
  rw [← hhash] at htally hnone
  refine handleGenericP_settled hnf ?_ ?_ ?_ hs
  · rw [hindex]
    exact hdue.index
  · rw [htable, hnode]
    exact htally
  · rw [htable]
    exact hnone

omit hnf h hw in
lemma Followed.settled_of_fill (hf : Followed cfg r) (ha : Announcing cfg r) (hown : cfg.getViewPrimary w i = r.nodeId)
    {slot : ℕ} {batch : ClientQueryBatch} {table : ℕ → TxnManager} (hpc : r.threads.proposal = .stamped slot batch)
    (hfill : fillManagers cfg r.table batch.returnNode (r.proposalOf cfg crypto slot batch).view
      (r.proposalOf cfg crypto slot batch).instanceId
      ((r.proposalOf cfg crypto slot batch).index.zip batch.cqrySet) = some table) :
    ((r.storeBatch cfg crypto slot batch table).table (cfg.lastTxn w i)).Settled := by
  have hlen := hc.steady.fed.inHand batch (by rw [hpc]; exact List.mem_singleton_self _)
  have hhashes := storeBatch_hashes hc.steady.alloc hpc hlen hfill
  by_cases hslot : (w, i) =
    ((r.proposalOf cfg crypto slot batch).view, (r.proposalOf cfg crypto slot batch).instanceId)
  · obtain ⟨rfl, rfl⟩ := Prod.mk.inj hslot
    obtain ⟨_, _, _, _, heq⟩ := hhashes.last
    have hpos : 0 < r.pending cfg (slot % cfg.totInstances) := stamped_pending hpc
    have hfresh := hf.fresh _ hi hpos
    rw [← (hc.steady.paired.pending _ hi hpos).view] at hfresh
    have hg : (r.table (cfg.lastTxn (r.proposalOf cfg crypto slot batch).view
        (r.proposalOf cfg crypto slot batch).instanceId)).genericReceived ≠ true := fun hrec =>
      hfresh (ha.received _ hi _ hown hrec)
    rw [heq]
    exact ⟨fun hrec => absurd hrec hg, fun hready => hg hready.2.2⟩
  · rw [hhashes.others w i hi hslot]
    exact hr

lemma Standing.own_step (hf : Followed cfg r) (ha : Announcing cfg r) (ht : Tracked cfg r) {e : Event}
    (he : FaultFree cfg crypto H r e) (hs : r.step cfg crypto e = some s) (hown : cfg.getViewPrimary w i = r.nodeId)
    (hint : e.Internal) : (s.table (cfg.lastTxn w i)).Settled := by
  cases e with
  | deliver => exact hint.elim
  | replay => exact hint.elim
  | clientBatch j batch =>
    simp only [step, enqueueBatch] at hs
    split_ifs at hs
    exact Option.some.inj hs ▸ hr
  | proposalThread k j =>
    simp only [step, proposalStep] at hs
    split at hs
    · split_ifs at hs
      exact Option.some.inj hs ▸ hr
    · split_ifs at hs
      exact Option.some.inj hs ▸ hr
    · split_ifs at hs
      split at hs
      · cases hs
      · exact Option.some.inj hs ▸ hr
    · exact Option.some.inj hs ▸ hr
    · rename_i slot batch hpc
      obtain ⟨t, hst, rfl⟩ := Option.map_eq_some_iff.mp hs
      obtain ⟨_, table, hfill, rfl⟩ := createAndSendHotstuffPrepare_cases hst
      exact hf.settled_of_fill hc hi hr ha hown hpc hfill
    · exact Option.some.inj hs ▸ hr
  | genericThread k busy =>
    simp only [step, genericStep] at hs
    split at hs
    · split_ifs at hs
      exact Option.some.inj hs ▸ hr
    · split_ifs at hs
      exact Option.some.inj hs ▸ hr
    · split_ifs at hs
      exact Option.some.inj hs ▸ hr
    · exact Option.some.inj hs ▸ hr
    · exact Option.some.inj hs ▸ hr
    · rename_i id hpc
      split_ifs at hs
      · exact Option.some.inj hs ▸ hr
      · obtain ⟨t, hst, rfl⟩ := Option.map_eq_some_iff.mp hs
        have hsettled := h.announce hnf hc hi hw hr hf ha ht (.inl hpc) rfl rfl rfl hst
        exact hsettled
  | workerGenericP k =>
    simp only [step, workerGenericP] at hs
    split at hs
    · rename_i id hid
      refine h.announce hnf hc hi hw hr hf ha ht (u := r.setRequeued (r.threads.requeued.eraseIdx k))
        (.inr (List.mem_of_getElem? hid)) rfl rfl rfl hs
    · cases hs
  | execute k =>
    obtain ⟨x, _, rfl⟩ := Option.map_eq_some_iff.mp hs
    exact hr
  | recycle id t =>
    simp only [step, Replica.recycle] at hs
    split_ifs at hs
    obtain rfl := Option.some.inj hs
    by_cases hid : cfg.lastTxn w i = id
    · rw [setTxn_table, hid, Function.update_self]
      exact settled_of_recycled he.genuine.1
    · rw [setTxn_table, Function.update_of_ne hid]
      exact hr

omit h hc hi hw hr

lemma settled_reach (hapart : Apart cfg H) (hp : p < cfg.nodeCnt)
    (h : Reach (step cfg crypto) (FaultFree cfg crypto H) (init cfg p) r) {w i : ℕ} (hi : i < cfg.totInstances)
    (hw : (r.inst i).view ≤ w) : (r.table (cfg.lastTxn w i)).Settled := by
  have hall : (r.inst i).view ≤ w → (r.table (cfg.lastTxn w i)).Settled := by
    apply h.invariant (fun r => (r.inst i).view ≤ w → (r.table (cfg.lastTxn w i)).Settled)
    · exact fun _ => settled_of_recycled TxnManager.recycled_default
    · intro r e s hr he hs ih hview
      have hc := calm_reach hp hr
      have hw := (hc.steady.view_le he.named hs i).trans hview
      by_cases hint : e.Internal
      · by_cases hown : cfg.getViewPrimary w i = r.nodeId
        · exact (standing_reach hapart hp hr).own_step hnf hc hi hw (ih hw) (followed_reach hp hr)
            (announcing_reach hp hr) (tracked_reach hp hr) he hs hown hint
        · exact step_settled hc.steady he.named hs hi hown hview (ih hw)
      · exact handled_settled hc.steady he.named hs hi hview hint (ih hw)
  exact hall hw

end Settled

end SpotLess.Replica
