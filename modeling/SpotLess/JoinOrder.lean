import SpotLess.Offer

/-! A slot of a correct primary at a backup. Its PROPOSAL, its GENERIC and the votes for its hash may come in any
order: the replica leaves the slot's view once, with the first step after which it has all of them, and with the same
certificates. -/

namespace SpotLess

open Lib

def QuorumCertificate.unsigned (qc : QuorumCertificate) : QuorumCertificate := { qc with signatureShareMap := ∅ }

namespace Instance

-- What the certificate chain makes of an instance depends on its certificates only.
section SameCerts

variable {x y : Instance} (h : x.SameCerts y) (qc : QuorumCertificate) (view : ℕ)

include h

lemma SameCerts.storeQC : (x.storeQC qc).SameCerts (y.storeQC qc) :=
  ⟨h.view, h.preparedQC, h.lockedQC, by simp only [Instance.storeQC, h.hashToQC]⟩

lemma SameCerts.parentOf : y.parentOf qc = x.parentOf qc := by rw [Instance.parentOf, h.hashToQC, Instance.parentOf]

lemma SameCerts.locks : y.Locks qc view ↔ x.Locks qc view := by rw [Locks, Locks, h.parentOf]

lemma SameCerts.commits : y.Commits qc view ↔ x.Commits qc view := by
  rw [Commits, Commits, h.locks, h.parentOf, h.parentOf]

lemma SameCerts.setPreparedQC : (x.setPreparedQC qc).SameCerts (y.setPreparedQC qc) := by
  simp only [Instance.setPreparedQC, h.preparedQC]
  split_ifs
  · exact ⟨h.view, rfl, h.lockedQC, h.hashToQC⟩
  · exact h

lemma SameCerts.setLockedQC : (x.setLockedQC qc).SameCerts (y.setLockedQC qc) := by
  simp only [Instance.setLockedQC, h.lockedQC]
  split_ifs
  · exact ⟨h.view, h.preparedQC, rfl, h.hashToQC⟩
  · exact h

lemma SameCerts.updateQCs : (x.updateQCs qc view).SameCerts (y.updateQCs qc view) := by
  have htouch : Instance.SameCerts
      { x with hashToQC := UMap.touch (UMap.touch x.hashToQC qc.parentHash) (x.parentOf qc).parentHash }
      { y with hashToQC := UMap.touch (UMap.touch y.hashToQC qc.parentHash) (y.parentOf qc).parentHash } :=
    ⟨h.view, h.preparedQC, h.lockedQC, by rw [h.parentOf, h.hashToQC]⟩
  simp only [Instance.updateQCs, h.locks]
  rw [h.parentOf] at htouch ⊢
  split_ifs
  · exact (htouch.setPreparedQC qc).setLockedQC _
  · exact htouch.setLockedQC _
  · exact htouch.setPreparedQC qc
  · exact htouch

lemma SameCerts.markCommit (hash : Bytes) : (x.markCommit hash).SameCerts (y.markCommit hash) :=
  ⟨h.view, h.preparedQC, h.lockedQC, by simp only [Instance.markCommit, h.hashToQC]⟩

lemma SameCerts.executeParents (fuel : ℕ) :
    (Instance.executeParents fuel x qc).1.SameCerts (Instance.executeParents fuel y qc).1 := by
  induction fuel generalizing x y qc with
  | zero => exact h
  | succ fuel ih =>
    simp only [Instance.executeParents, h.hashToQC]
    split_ifs
    · apply ih
      exact ⟨h.view, h.preparedQC, h.lockedQC, rfl⟩
    · exact ⟨h.view, h.preparedQC, h.lockedQC, rfl⟩

lemma SameCerts.sendExecuteMsg {t t' : TxnManager} (ht : t'.hash = t.hash) (id : ℕ) :
    (x.sendExecuteMsg t id).1.SameCerts (y.sendExecuteMsg t' id).1 := by
  have hwalk : (x.walkParents t.hash).1.SameCerts (y.walkParents t.hash).1 := by
    have htouch : Instance.SameCerts { x with hashToQC := UMap.touch x.hashToQC t.hash }
        { y with hashToQC := UMap.touch y.hashToQC t.hash } :=
      ⟨h.view, h.preparedQC, h.lockedQC, by rw [h.hashToQC]⟩
    simp only [walkParents, h.hashToQC] at htouch ⊢
    split_ifs
    · exact htouch.executeParents _ _
    · exact htouch
  simp only [Instance.sendExecuteMsg, ht]
  exact ⟨hwalk.view, hwalk.preparedQC, hwalk.lockedQC, by rw [hwalk.hashToQC]⟩

lemma SameCerts.advanced {t t' : TxnManager} (ht : t'.hash = t.hash) (id : ℕ) :
    (x.advanced qc view t id).1.SameCerts (y.advanced qc view t' id).1 := by
  have hstore := h.storeQC qc
  have hupdate := hstore.updateQCs qc view
  simp only [Instance.advanced, hstore.commits, hstore.parentOf]
  split_ifs
  · exact (hupdate.markCommit _).sendExecuteMsg ht id
  · exact hupdate

end SameCerts

lemma updateQCs_prepared (x : Instance) (qc : QuorumCertificate) (view : ℕ) : (x.updateQCs qc view).preparedQC =
    if Prepares qc view ∧ (qc.viewNumber > x.preparedQC.viewNumber ∨ x.preparedQC.genesis = true) then qc
    else x.preparedQC := by
  simp only [updateQCs, setPreparedQC, setLockedQC]
  split_ifs <;> first | rfl | tauto

lemma updateQCs_locked (x : Instance) (qc : QuorumCertificate) (view : ℕ) : (x.updateQCs qc view).lockedQC =
    if x.Locks qc view ∧ ((x.parentOf qc).viewNumber > x.lockedQC.viewNumber ∨ x.lockedQC.genesis = true) then
      x.parentOf qc
    else x.lockedQC := by
  simp only [updateQCs, setPreparedQC, setLockedQC]
  split_ifs <;> first | rfl | tauto

lemma updateQCs_unsigned (x : Instance) {qc qc' : QuorumCertificate} (h : qc.unsigned = qc'.unsigned) (view : ℕ) :
    ((x.storeQC qc).updateQCs qc view).preparedQC.unsigned = ((x.storeQC qc').updateQCs qc' view).preparedQC.unsigned ∧
      ((x.storeQC qc).updateQCs qc view).lockedQC.unsigned =
        ((x.storeQC qc').updateQCs qc' view).lockedQC.unsigned := by
  have hnumber : qc.viewNumber = qc'.viewNumber := congrArg (fun qc => qc.viewNumber) h
  have hbatch : qc.batchHash = qc'.batchHash := congrArg (fun qc => qc.batchHash) h
  have hparent : qc.parentHash = qc'.parentHash := congrArg (fun qc => qc.parentHash) h
  have hb2 : ((x.storeQC qc).parentOf qc).unsigned = ((x.storeQC qc').parentOf qc').unsigned := by
    simp only [parentOf, storeQC, UMap.get_insert, hbatch, hparent]
    split_ifs
    · exact h
    · rfl
  have hb2number : ((x.storeQC qc).parentOf qc).viewNumber = ((x.storeQC qc').parentOf qc').viewNumber :=
    congrArg (fun qc => qc.viewNumber) hb2
  have hlocks : (x.storeQC qc).Locks qc view ↔ (x.storeQC qc').Locks qc' view := by
    rw [Locks, Locks, Prepares, Prepares, hnumber, hb2number]
  have hprepares : Prepares qc view ↔ Prepares qc' view := by rw [Prepares, Prepares, hnumber]
  have hprepared : ∀ qc, (x.storeQC qc).preparedQC = x.preparedQC := fun _ => rfl
  have hlocked : ∀ qc, (x.storeQC qc).lockedQC = x.lockedQC := fun _ => rfl
  constructor
  · simp only [updateQCs_prepared, hprepares, hnumber, hprepared]
    split_ifs
    · exact h
    · rfl
  · simp only [updateQCs_locked, hlocks, hb2number, hlocked]
    split_ifs
    · exact hb2
    · rfl

end Instance

namespace Offer

open Replica

variable {cfg : Config} {crypto : Crypto} {o : Offer cfg} {D D' P : Msg → Prop} {Q : ℕ → Prop}
  {B : ℕ → ClientQueryBatch → Prop} {r₀ r s t u : Replica} {e : Replica.Event} {p : ℕ}

section Once

-- `advance_view` has been called for the slot once if the replica has left the slot's view, and not before.
def Once (o : Offer cfg) (r : Replica) : Prop :=
  o.advances r = if (r.inst o.instanceId).view ≤ o.view then 0 else 1

lemma Once.move (h : o.Once r) (h₀ : Paced cfg r₀) (hr : Paced cfg r) (hP : ∀ m, P m → Msg.Peer cfg p m)
    (hm : Move cfg crypto P Q B r₀ r s) : o.Once s := by
  rcases hm.advancedIds with hsame | ⟨id, hsame, hfresh, hready, ha⟩
  · have hview : (s.inst o.instanceId).view = (r.inst o.instanceId).view := by
      rcases hm.views with hview | ⟨id, _, _, _, ha⟩
      · exact hview _
      · rw [advanceView_advancedIds ha] at hsame
        simp at hsame
    rw [Once, advances, hsame, hview]
    exact h
  · obtain ⟨j, hj, hinst, hid⟩ := h₀.advance_slot hr hsame (hfresh.imp hP) hready (advanceView_eq ha).1
    have hadd : o.advances s = o.advances r + if id = o.last then 1 else 0 := by
      simp only [advances, advanceView_advancedIds ha, List.count_append, List.count_singleton, beq_iff_eq]
    rw [Once, hadd, advanceView_view ha, hinst, h]
    by_cases hij : o.instanceId = j
    · rw [← hij] at hid
      have hiff : id = o.last ↔ (r.inst o.instanceId).view = o.view := by
        rw [hid]
        exact ⟨fun heq => (cfg.lastTxn_inj o.inst o.inst heq).1, fun heq => by rw [heq, last]⟩
      rw [if_pos hij]
      simp only [hiff]
      split_ifs <;> omega
    · have hne : id ≠ o.last := by
        rw [hid]
        exact cfg.lastTxn_ne o.inst hj fun heq => hij (Prod.mk.inj heq).2.symm
      rw [if_neg hij, if_neg hne, Nat.add_zero]

lemma Once.zero_iff (h : o.Once r) : o.advances r = 0 ↔ (r.inst o.instanceId).view ≤ o.view := by
  rw [h]
  split_ifs with hview
  · simpa using hview
  · simpa using hview

lemma Once.one_iff (h : o.Once r) : o.advances r = 1 ↔ o.view < (r.inst o.instanceId).view := by
  rw [h]
  split_ifs with hview
  · simpa using hview
  · simpa using hview

end Once

section Traced

structure Within (crypto : Crypto) (o : Offer cfg) (D : Msg → Prop) (r₀ r : Replica) : Prop where
  paced : Paced cfg r
  nodeId : r.nodeId = r₀.nodeId
  tracks : o.Tracks crypto D r
  tracked : Tracked cfg r
  marked : Marked cfg r
  once : o.Once r

-- What holds between the steps of a replica for which the slot's messages `D` have arrived.
structure Traced (crypto : Crypto) (o : Offer cfg) (D : Msg → Prop) (r : Replica) : Prop where
  steady : Steady cfg r
  backup : cfg.getViewPrimary o.view o.instanceId ≠ r.nodeId
  within : o.Within crypto D r r
  settled : Joining cfg o.view o.instanceId r

lemma Within.move (h : o.Within crypto D r₀ r) (h₀ : Steady cfg r₀)
    (hbackup : cfg.getViewPrimary o.view o.instanceId ≠ r₀.nodeId) (hm : o.SlotMoves crypto D r₀ r s) :
    o.Within crypto D r₀ s where
  paced := h₀.paced_move h.paced (hm.imp (fun _ hP => hP.peer) (fun _ hQ => hQ) (fun _ _ hB => hB))
  nodeId := hm.nodeId.trans h.nodeId
  tracks := h.tracks.move h₀ hbackup h.nodeId hm
  tracked := h.tracked.move hm
  marked := h.marked.move h₀.paced h.paced (fun _ hP => hP.peer) hm
  once := h.once.move h₀.paced h.paced (fun _ hP => hP.peer) hm

lemma Traced.moves (h : o.Traced crypto D r)
    (hm : Moves cfg crypto (o.Supply crypto D r.nodeId) (Current cfg r) (fun _ _ => True) r r s) :
    o.Within crypto D r s :=
  hm.invariant (fun _ _ huv hu => hu.move h.steady h.backup huv) h.within

lemma Traced.imp (h : o.Traced crypto D r) (hD : ∀ m, D m → D' m) : o.Traced crypto D' r where
  steady := h.steady
  backup := h.backup
  within := { h.within with tracks := h.within.tracks.imp hD }
  settled := h.settled

lemma Traced.eve (h : o.Traced crypto D r) (he : o.Arrives crypto r e) (hD : ∀ m, e = .deliver m → D m)
    (hs : r.step cfg crypto e = some s) :
    ∃ u, Eve cfg crypto (o.Supply crypto D r.nodeId) o.view o.instanceId r u s ∧ o.Within crypto D r u := by
  obtain ⟨u, hu⟩ := step_eve h.steady he.1 hs o.inst h.backup (fun m hm => he.supply hm (hD m hm))
    (h.within.tracks.supply_parked h.steady)
  exact ⟨u, hu, h.moves hu.moves⟩

lemma Traced.step (h : o.Traced crypto D r) (he : o.Arrives crypto r e) (hD : ∀ m, e = .deliver m → D m)
    (hs : r.step cfg crypto e = some s) : o.Traced crypto D s := by
  have hself : s.nodeId = r.nodeId := step_nodeId cfg crypto hs
  have hwithin := h.moves (h.within.tracks.moves h.steady he hD hs)
  refine ⟨h.steady.step he.1 hs, hself ▸ h.backup, { hwithin with nodeId := rfl }, fun hview => ?_⟩
  exact step_settled h.steady he.1 hs o.inst h.backup hview
    (h.settled ((h.steady.view_le he.1 hs o.instanceId).trans hview))

lemma traced_init (hp : p < cfg.nodeCnt) (hbackup : cfg.getViewPrimary o.view o.instanceId ≠ p) :
    o.Traced crypto D (Replica.init cfg p) where
  steady := steady_init hp
  backup := hbackup
  within :=
    { paced := (steady_init hp).paced
      nodeId := rfl
      tracks := tracks_init p
      tracked := tracked_init p
      marked := marked_init p
      once := by simp [Once, advances, advancedIds, Replica.init, Instance.init] }
  settled _ := settled_of_recycled TxnManager.recycled_default

lemma traced_run (hp : p < cfg.nodeCnt) (hbackup : cfg.getViewPrimary o.view o.instanceId ≠ p)
    {es : List Replica.Event} (h : Run (Replica.step cfg crypto) (o.Arrives crypto) (Replica.init cfg p) es r) :
    o.Traced crypto (fun m => .deliver m ∈ es) r := by
  induction h with
  | start => exact traced_init hp hbackup
  | @next es s t e _ hok hs ih =>
    refine (ih.imp fun m hm => List.mem_append_left [e] hm).step hok (fun m hm => ?_) hs
    rw [hm]
    exact List.mem_append_right es (List.mem_singleton_self _)

end Traced

section Join

lemma Tracks.complete_iff (h : o.Tracks crypto D r) : o.Complete crypto r ↔ (o.manager r).Ready := by
  have hviewed : (o.manager r).genericReceived = true →
      ((o.manager r).newViewed = true ↔ cfg.nf ≤ ((o.manager r).votersOf (o.hash crypto)).length) := by
    intro hg
    rcases h.counted with hc | ⟨_, hnot⟩
    · exact hc.tally.viewed
    · rw [hg] at hnot
      cases hnot
  constructor
  · intro hc
    exact ⟨(hviewed hc.genericReceived).mpr hc.votes, hc.proposalReceived, hc.genericReceived⟩
  · rintro ⟨hnew, hprop, hg⟩
    exact ⟨hprop, hg, (hviewed hg).mp hnew⟩

structure Leaves (crypto : Crypto) (o : Offer cfg) (D : Msg → Prop) (r u s : Replica) : Prop where
  within : o.Within crypto D r u
  view : (r.inst o.instanceId).view = o.view
  sameView : (u.inst o.instanceId).view = o.view
  inst : (o.manager u).instanceId = o.instanceId
  ready : (o.manager u).Ready
  advance : u.advanceView cfg o.last = some s

lemma Traced.leaves (h : o.Traced crypto D r)
    (hu : Eve cfg crypto (o.Supply crypto D r.nodeId) o.view o.instanceId r u s) (hw : o.Within crypto D r u)
    (hbefore : (r.inst o.instanceId).view ≤ o.view) (hafter : o.view < (s.inst o.instanceId).view) :
    o.Leaves crypto D r u s := by
  have hsame := hu.views o.instanceId
  rcases hu.ends with rfl | ⟨m, _, hviews, hfresh, hready, ha⟩
  · omega
  obtain ⟨j, hj, hinst, hid⟩ := h.steady.paced.advance_slot hw.paced hviews (hfresh.imp fun _ hP => hP.peer) hready
    (advanceView_eq ha).1
  rw [advanceView_view ha, hinst] at hafter
  split_ifs at hafter with hij
  · subst hij
    have hlast : Replica.manager m = o.last := by
      rw [hid, last]
      congr 1
      omega
    rw [hlast] at hinst hready ha
    exact ⟨hw, by omega, by omega, hinst, hready, ha⟩
  · omega

lemma advanceView_genericReceived {id : ℕ} (ha : r.advanceView cfg id = some s) (k : ℕ) :
    (s.table k).genericReceived = (r.table k).genericReceived := by
  rw [advanceView_table ha]
  exact update_genericReceived rfl

lemma Traced.stays (h : o.Traced crypto D r)
    (hu : Eve cfg crypto (o.Supply crypto D r.nodeId) o.view o.instanceId r u s) (hw : o.Within crypto D r u)
    (hview : (r.inst o.instanceId).view = o.view) (hafter : (s.inst o.instanceId).view ≤ o.view) :
    (u.inst o.instanceId).SameCerts (s.inst o.instanceId) ∧
      (o.manager s).genericReceived = (o.manager u).genericReceived ∧ s.exec.nextIndex = u.exec.nextIndex := by
  have hsame := hu.views o.instanceId
  rcases hu.ends with rfl | ⟨m, _, hviews, hfresh, hready, ha⟩
  · exact ⟨.refl _, rfl, rfl⟩
  obtain ⟨j, hj, hinst, hid⟩ := h.steady.paced.advance_slot hw.paced hviews (hfresh.imp fun _ hP => hP.peer) hready
    (advanceView_eq ha).1
  have hij : o.instanceId ≠ j := by
    rintro rfl
    rw [advanceView_view ha, hinst, if_pos rfl] at hafter
    omega
  refine ⟨?_, ?_, ((Handled.refl u).advanceView ha).nextIndex⟩
  · rw [advanceView_inst_of_ne ha (hinst ▸ hij)]
    exact .refl _
  · exact advanceView_genericReceived ha o.last

lemma Traced.not_complete (h : o.Traced crypto D r) (hview : (r.inst o.instanceId).view ≤ o.view) :
    ¬ o.Complete crypto r := by
  rw [h.within.tracks.complete_iff]
  exact (h.settled hview).waits

lemma Traced.leaves_iff (h : o.Traced crypto D r) (he : o.Arrives crypto r e) (hD : ∀ m, e = .deliver m → D m)
    (hs : r.step cfg crypto e = some s) (hbefore : (r.inst o.instanceId).view ≤ o.view) :
    o.view < (s.inst o.instanceId).view ↔ o.Complete crypto s := by
  have hnext := h.step he hD hs
  constructor
  · intro hafter
    obtain ⟨u, heve, hw⟩ := h.eve he hD hs
    have hu := h.leaves heve hw hbefore hafter
    obtain ⟨qc, htable⟩ : ∃ qc, o.manager s = { o.manager u with genericQC := qc } := by
      rw [manager, advanceView_table hu.advance, Function.update_self]
      exact ⟨_, rfl⟩
    rw [hnext.within.tracks.complete_iff, htable]
    exact hu.ready
  · intro hc
    by_contra hle
    exact hnext.not_complete (Nat.le_of_not_lt hle) hc

lemma Tracks.arrived (h : o.Tracks crypto D r) (hc : o.Complete crypto r) (hself : r.nodeId = p)
    {es : List Replica.Event} (hD : ∀ m, D m → .deliver m ∈ es) : .deliver (.proposal (o.proposal crypto)) ∈ es ∧
      .deliver (.generic (o.generic crypto)) ∈ es ∧ cfg.nf ≤ (o.voters p es).card := by
  refine ⟨hD _ (h.proposal hc.proposalReceived), hD _ (h.generic hc.genericReceived).1, ?_⟩
  rcases h.counted with hcounts | ⟨_, hnot⟩
  · have hsub : ((o.manager r).votersOf (o.hash crypto)).toFinset ⊆ o.voters p es := by
      intro x hx
      rw [List.mem_toFinset] at hx
      rw [voters, Finset.mem_insert, List.mem_toFinset, List.mem_filterMap]
      by_cases hxp : x = p
      · exact .inl hxp
      · right
        obtain ⟨m, hm, hd, rfl⟩ := hcounts.heard x ((hcounts.tally.heard x (hself ▸ hxp)).mp hx) (hself ▸ hxp)
        exact ⟨_, hD _ hd, by simp [voter, hm.txnId]⟩
    calc cfg.nf ≤ ((o.manager r).votersOf (o.hash crypto)).length := hc.votes
      _ = ((o.manager r).votersOf (o.hash crypto)).toFinset.card := (List.toFinset_card_of_nodup hcounts.tally.nodup).symm
      _ ≤ (o.voters p es).card := Finset.card_le_card hsub
  · rw [hc.genericReceived] at hnot
    cases hnot

end Join

section Outcome

-- The manager whose slot is committed when the GENERIC completes a chain of three views.
def committed (o : Offer cfg) : ℕ := sub64 (sub64 o.last cfg.stride) (2 * cfg.stride)

structure Alike (o : Offer cfg) (r r' : Replica) : Prop where
  certs : (r.inst o.instanceId).SameCerts (r'.inst o.instanceId)
  hash : o.committed ≠ o.last → (r'.table o.committed).hash = (r.table o.committed).hash

def taken (crypto : Crypto) (o : Offer cfg) (r : Replica) : Instance :=
  let x := r.inst o.instanceId
  let t := Function.update r.table o.last { hash := o.hash crypto } o.committed
  if o.highQC.viewNumber > x.preparedQC.viewNumber then (x.advanced o.highQC o.view t o.committed).1
  else x.storeQC o.highQC

def cert (crypto : Crypto) (o : Offer cfg) : QuorumCertificate :=
  genericQCOf { hash := o.hash crypto, highQC := o.highQC } o.view

def joined (crypto : Crypto) (o : Offer cfg) (r : Replica) : Instance :=
  ((o.taken crypto r).storeQC (o.cert crypto)).updateQCs (o.cert crypto) (o.view + 1)

lemma Alike.taken (h : o.Alike r s) : (o.taken crypto r).SameCerts (o.taken crypto s) := by
  simp only [Offer.taken, h.certs.preparedQC]
  split_ifs
  · refine h.certs.advanced _ _ ?_ _
    simp only [Function.update_apply]
    split_ifs with hc
    · rfl
    · exact h.hash hc
  · exact h.certs.storeQC _

lemma voteGeneric_taken (hh : (t.table o.last).hash = [] ∨ (t.table o.last).hash = o.hash crypto) :
    (o.taken crypto t).SameCerts ((t.voteGeneric cfg crypto (o.generic crypto)).inst o.instanceId) := by
  have hstore : (t.storeGeneric (o.generic crypto)).inst o.instanceId =
      (t.inst o.instanceId).storeQC o.highQC := by
    simp only [storeGeneric, observe_inst, setInst_inst]
    exact Function.update_self ..
  have hhash : ((t.storeGeneric (o.generic crypto)).table o.committed).hash =
      (Function.update t.table o.last { hash := o.hash crypto } o.committed).hash := by
    simp only [storeGeneric, observe_table, setInst_table, setTxn_table]
    change (Function.update t.table o.last _ o.committed).hash = _
    simp only [Function.update_apply]
    split_ifs
    · simp only [acceptGeneric]
      split_ifs with hempty
      · rfl
      · exact hh.resolve_left hempty
    · rfl
  have hprepared : ((t.storeGeneric (o.generic crypto)).inst o.instanceId).preparedQC =
      (t.inst o.instanceId).preparedQC := by
    rw [hstore]
    rfl
  rw [voteGeneric, sendHotstuffNewview_inst, lockGeneric, taken]
  by_cases hnew : o.highQC.viewNumber > (t.inst o.instanceId).preparedQC.viewNumber
  · have hinst : ((t.storeGeneric (o.generic crypto)).updateLockQC cfg (o.generic crypto).highQC (o.generic crypto).view
        (sub64 (o.generic crypto).txnId cfg.stride) (o.generic crypto).instanceId).inst o.instanceId =
        ((t.inst o.instanceId).advanced o.highQC o.view ((t.storeGeneric (o.generic crypto)).table o.committed)
          o.committed).1 := updateLockQC_advanced hstore o.view (sub64 o.last cfg.stride)
    rw [if_pos hnew, if_pos (hprepared ▸ hnew), hinst]
    exact (Instance.SameCerts.refl _).advanced _ _ hhash _
  · rw [if_neg hnew, if_neg (hprepared ▸ hnew), hstore]
    exact .refl _

end Outcome

section Turn

structure Takes (crypto : Crypto) (o : Offer cfg) (r t u : Replica) : Prop where
  certs : (r.inst o.instanceId).SameCerts (t.inst o.instanceId)
  table : t.table = r.table
  index : r.exec.nextIndex < o.last
  accepts : AcceptsGeneric cfg crypto t (o.generic crypto)
  vote : u = t.voteGeneric cfg crypto (o.generic crypto)

lemma voteGeneric_inst_of_ne {m : GenericMsg} {j : ℕ} (hj : j ≠ m.instanceId) :
    (r.voteGeneric cfg crypto m).inst j = r.inst j := by
  have hstore : (r.storeGeneric m).inst j = r.inst j := by
    simp only [storeGeneric, observe_inst, setInst_inst, setTxn_inst, Function.update_of_ne hj]
  rw [voteGeneric, sendHotstuffNewview_inst, lockGeneric]
  split_ifs
  · rw [updateLockQC_inst_of_ne cfg _ _ _ _ _ hj, hstore]
  · exact hstore

lemma Traced.turn (h : o.Traced crypto D r)
    (hu : Eve cfg crypto (o.Supply crypto D r.nodeId) o.view o.instanceId r u s)
    (hview : (r.inst o.instanceId).view = o.view) :
    (r.inst o.instanceId).SameCerts (u.inst o.instanceId) ∧
      ((o.manager u).genericReceived = (o.manager r).genericReceived ∨
        o.last < r.exec.nextIndex ∧ (o.manager u).Recycled) ∨
    ∃ t, o.Takes crypto r t u := by
  cases hu.turn with
  | keeps hcerts hg => exact .inl ⟨hcerts, hg⟩
  | @takes t m hm hindex hle hcerts htable hacc heq =>
    have hid := hm.peer.named.txnId
    have hfresh := hacc.fresh
    rw [htable, hid] at hfresh
    rw [hid] at hindex
    by_cases hinst : m.instanceId = o.instanceId
    · have hnow : m.view = o.view := by
        by_contra hne
        rcases h.steady.paced.passed _ hm.peer.wellFormed m.view (by rw [hinst] at hle ⊢; omega) with hready | ⟨hlt, _⟩
        · rw [hready.2.2] at hfresh
          cases hfresh
        · omega
      cases hm.sent ⟨hnow, hinst⟩
      exact .inr ⟨t, hcerts _, htable, hindex, hacc, heq⟩
    · refine .inl ⟨?_, .inl ?_⟩
      · rw [heq, voteGeneric_inst_of_ne (Ne.symm hinst)]
        exact hcerts _
      · have hne : o.last ≠ m.txnId := by
          rw [hid]
          exact cfg.lastTxn_ne hm.peer.wellFormed o.inst fun heq => hinst (Prod.mk.inj heq).2.symm
        rw [manager, heq, voteGeneric_table_of_ne _ _ hne, htable, manager]

end Turn

section Result

-- The certificates of an instance in the view after the slot's, signature shares aside.
structure Agrees (w : ℕ) (x y : Instance) : Prop where
  view : y.view = w + 1
  preparedQC : y.preparedQC.unsigned = x.preparedQC.unsigned
  lockedQC : y.lockedQC.unsigned = x.lockedQC.unsigned

lemma Within.cert (h : o.Within crypto D r u) (hready : (o.manager u).Ready) :
    (genericQCOf (o.manager u) o.view).unsigned = (o.cert crypto).unsigned := by
  obtain ⟨_, hhash, hqc⟩ := h.tracks.generic hready.2.2
  rcases h.tracks.counted with hc | ⟨_, hnot⟩
  · simp only [genericQCOf, QuorumCertificate.unsigned, hhash, hqc, hc.flags.1, hc.flags.2]
    rfl
  · rw [hready.2.2] at hnot
    cases hnot

lemma Leaves.agrees (h : o.Leaves crypto D r u s) (hx : (o.taken crypto t).SameCerts (u.inst o.instanceId)) :
    Agrees o.view (o.joined crypto t) (s.inst o.instanceId) := by
  have hinst : (u.table o.last).instanceId = o.instanceId := h.inst
  obtain ⟨_, _, heq⟩ := advanceView_eq h.advance
  simp only [hinst, h.sameView] at heq
  have hstore : (u.installQC o.last).inst o.instanceId =
      (u.inst o.instanceId).storeQC (genericQCOf (o.manager u) o.view) := by
    simp only [installQC, observe_inst, setInst_inst, hinst, h.sameView, Function.update_self, manager]
  obtain ⟨hprepared, hlocked, _⟩ := @enterView_chain cfg (o.view + 1) o.instanceId ((u.installQC o.last).updateLockQC cfg
    (genericQCOf (u.table o.last) o.view) (o.view + 1) o.last o.instanceId) o.last
  have hchain := @updateLockQC_chain cfg (genericQCOf (u.table o.last) o.view) (o.view + 1) o.last o.instanceId
    (u.installQC o.last)
  rw [← heq] at hprepared hlocked
  rw [hchain.1, hstore] at hprepared
  rw [hchain.2, hstore] at hlocked
  have hsame := (hx.storeQC (genericQCOf (o.manager u) o.view)).updateQCs (genericQCOf (o.manager u) o.view) (o.view + 1)
  have hshares := (o.taken crypto t).updateQCs_unsigned (h.within.cert h.ready) (o.view + 1)
  refine ⟨?_, ?_, ?_⟩
  · rw [advanceView_view h.advance, hinst, if_pos rfl, h.sameView]
  · rw [hprepared, joined, ← hshares.1]
    exact congrArg _ hsame.preparedQC
  · rw [hlocked, joined, ← hshares.2]
    exact congrArg _ hsame.lockedQC

-- The replica goes on from the first state until `advance_view` has been called for the slot.
inductive Finishes (crypto : Crypto) (o : Offer cfg) : Replica → Replica → Prop
  | now {s : Replica} (h : o.advances s = 1) : Finishes crypto o s s
  | later {s t u : Replica} {e : Replica.Event} (hbefore : o.advances s = 0) (he : o.Arrives crypto s e)
      (hs : s.step cfg crypto e = some t) (h : Finishes crypto o t u) : Finishes crypto o s u

-- The replica takes the slot's GENERIC with the first step, and leaves the slot's view with the last one.
def Joins (crypto : Crypto) (o : Offer cfg) (r s : Replica) : Prop :=
  o.advances r = 0 ∧ (o.manager r).genericReceived = false ∧ ∃ e t, o.Arrives crypto r e ∧
    r.step cfg crypto e = some t ∧ (o.manager t).genericReceived = true ∧ o.Finishes crypto t s

-- Between the GENERIC and the advance the certificates stay, unless the slot has been executed and given back.
def Holds (o : Offer cfg) (x : Instance) (r : Replica) : Prop :=
  (o.manager r).genericReceived = true ∧ x.SameCerts (r.inst o.instanceId) ∨
    o.last < r.exec.nextIndex ∧ (o.manager r).genericReceived = false

lemma Holds.turn {x : Instance} (hx : o.Holds x r) (h : o.Traced crypto D r)
    (hu : Eve cfg crypto (o.Supply crypto D r.nodeId) o.view o.instanceId r u s)
    (hview : (r.inst o.instanceId).view = o.view) : o.Holds x u := by
  have hindex := hu.moves.nextIndex_le
  rcases h.turn hu hview with ⟨hcerts, hg | ⟨hlt, hrec⟩⟩ | ⟨t, ht⟩
  · rcases hx with ⟨hold, hsame⟩ | ⟨hlt, hold⟩
    · exact .inl ⟨hg.trans hold, hsame.trans hcerts⟩
    · exact .inr ⟨hlt.trans_le hindex, hg.trans hold⟩
  · exact .inr ⟨hlt.trans_le hindex, hrec.genericReceived⟩
  · rcases hx with ⟨hold, _⟩ | ⟨hlt, _⟩
    · have hfresh := ht.accepts.fresh
      rw [ht.table] at hfresh
      rw [manager] at hold
      change (r.table o.last).genericReceived = false at hfresh
      rw [hold] at hfresh
      cases hfresh
    · exact absurd ht.index (by omega)

lemma Finishes.agrees (h : o.Finishes crypto r s) (hr : o.Traced crypto (fun _ => True) r)
    (hbefore : o.advances r = 0) (hview : (r.inst o.instanceId).view = o.view)
    (hx : o.Holds (o.taken crypto t) r) : Agrees o.view (o.joined crypto t) (s.inst o.instanceId) := by
  induction h with
  | now hone =>
    rw [hbefore] at hone
    cases hone
  | @later r v s e _ he hs hf ih =>
    have hD : ∀ m, e = .deliver m → True := fun _ _ => trivial
    have hnext := hr.step he hD hs
    obtain ⟨u, hu, hw⟩ := hr.eve he hD hs
    have hux := hx.turn hr hu hview
    by_cases hafter : (v.inst o.instanceId).view ≤ o.view
    · obtain ⟨hcerts, hg, hindex⟩ := hr.stays hu hw hview hafter
      refine ih hnext (hnext.within.once.zero_iff.mpr hafter) (by rw [hcerts.view, hu.views, hview]) ?_
      rw [Holds, hg, hindex]
      exact hux.imp_left fun ⟨hold, hsame⟩ => ⟨hold, hsame.trans hcerts⟩
    · have hleaves := hr.leaves hu hw hview.le (by omega)
      cases hf with
      | now =>
        rcases hux with ⟨_, hsame⟩ | ⟨_, hnot⟩
        · exact hleaves.agrees hsame
        · rw [hleaves.ready.2.2] at hnot
          cases hnot
      | later hzero =>
        rw [hnext.within.once.zero_iff] at hzero
        omega

lemma Takes.certs_eq (h : o.Takes crypto r t u) : (o.taken crypto r).SameCerts (u.inst o.instanceId) := by
  have halike : o.Alike r t := ⟨h.certs, fun _ => by rw [h.table]⟩
  rw [h.vote]
  exact halike.taken.trans (voteGeneric_taken h.accepts.hash)

lemma Joins.agrees (h : o.Joins crypto r s) (hr : o.Traced crypto (fun _ => True) r) :
    Agrees o.view (o.joined crypto r) (s.inst o.instanceId) := by
  obtain ⟨hbefore, hfresh, e, t, he, hs, htaken, hf⟩ := h
  have hD : ∀ m, e = .deliver m → True := fun _ _ => trivial
  have hnext := hr.step he hD hs
  obtain ⟨u, hu, hw⟩ := hr.eve he hD hs
  have hgeneric : (o.manager u).genericReceived = true := by
    rcases hu.ends with rfl | ⟨m, _, _, _, _, ha⟩
    · exact htaken
    · exact (advanceView_genericReceived ha o.last).symm.trans htaken
  have hview : (r.inst o.instanceId).view = o.view := by
    obtain ⟨w, j, hj, heq, hle⟩ := hw.paced.taken _ hgeneric
    obtain ⟨rfl, rfl⟩ := cfg.lastTxn_inj o.inst hj heq
    rw [hu.views] at hle
    exact le_antisymm (hr.within.once.zero_iff.mp hbefore) hle
  rcases hr.turn hu hview with ⟨_, hg | ⟨_, hrec⟩⟩ | ⟨v, hv⟩
  · rw [hgeneric, hfresh] at hg
    cases hg
  · rw [hrec.genericReceived] at hgeneric
    cases hgeneric
  by_cases hafter : (t.inst o.instanceId).view ≤ o.view
  · obtain ⟨hcerts, _, _⟩ := hr.stays hu hw hview hafter
    exact hf.agrees hnext (hnext.within.once.zero_iff.mpr hafter) (by rw [hcerts.view, hu.views, hview])
      (.inl ⟨htaken, hv.certs_eq.trans hcerts⟩)
  · have hleaves := hr.leaves hu hw hview.le (by omega)
    cases hf with
    | now => exact hleaves.agrees hv.certs_eq
    | later hzero =>
      rw [hnext.within.once.zero_iff] at hzero
      omega

lemma Agrees.congr {x : Instance} (h : Agrees o.view (o.joined crypto s) x) (halike : o.Alike r s) :
    Agrees o.view (o.joined crypto r) x := by
  have hsame : (o.joined crypto r).SameCerts (o.joined crypto s) := (halike.taken.storeQC _).updateQCs _ _
  refine ⟨h.view, ?_, ?_⟩
  · rw [h.preparedQC, hsame.preparedQC]
  · rw [h.lockedQC, hsame.lockedQC]

end Result

section Kept

-- What has arrived for the slot is on record until the slot's view is left, or waits in a queue; only a GENERIC that
-- fails the safety rule in the slot's view is lost.
structure Kept (crypto : Crypto) (o : Offer cfg) (D : Msg → Prop) (r : Replica) : Prop where
  proposal : D (.proposal (o.proposal crypto)) → r.exec.nextIndex < o.last → (o.manager r).proposalReceived = true
  generic : D (.generic (o.generic crypto)) → r.exec.nextIndex < o.last → (r.inst o.instanceId).view ≤ o.view →
    (o.manager r).genericReceived = true ∨ o.generic crypto ∈ r.queues o.instanceId ∨
      (r.inst o.instanceId).view = o.view ∧ ¬ (r.inst o.instanceId).SafeNode o.highQC
  vote : ∀ m, o.Vote crypto m → D (.sync m) → r.exec.nextIndex < o.last → (r.inst o.instanceId).view ≤ o.view →
    m.returnNodeId ∈ (o.manager r).voteNewView ∨ (o.manager r).newViewed = true

lemma proposal_last : (o.proposal crypto).txnId + 2 = o.last := by
  have hb := cfg.five_le_batch
  have hlast := cfg.lastTxn_add_one o.view o.instanceId
  simp only [proposal, slotProposal, last]
  omega

lemma safeNode_congr {x y : Instance} (h : x.SameCerts y) (qc : QuorumCertificate) : y.SafeNode qc ↔ x.SafeNode qc := by
  rw [Instance.SafeNode, Instance.SafeNode, h.lockedQC]

lemma Traced.unsafe_step (h : o.Traced crypto D r) (he : o.Arrives crypto r e) (hD : ∀ m, e = .deliver m → D m)
    (hs : r.step cfg crypto e = some s) (hview : (r.inst o.instanceId).view = o.view)
    (hsafe : ¬ (r.inst o.instanceId).SafeNode o.highQC) (hafter : (s.inst o.instanceId).view ≤ o.view) :
    (s.inst o.instanceId).view = o.view ∧ ¬ (s.inst o.instanceId).SafeNode o.highQC := by
  obtain ⟨u, hu, hw⟩ := h.eve he hD hs
  rcases h.turn hu hview with ⟨hcerts, _⟩ | ⟨t, ht⟩
  · have hboth := hcerts.trans (h.stays hu hw hview hafter).1
    exact ⟨hboth.view.trans hview, (safeNode_congr hboth _).not.mpr hsafe⟩
  · exact absurd ((safeNode_congr ht.certs _).mp ht.accepts.safe) hsafe

lemma Traced.kept_generic (h : o.Traced crypto D r) (he : o.Arrives crypto r e) (hD : ∀ m, e = .deliver m → D m)
    (hs : r.step cfg crypto e = some s) (hindex : s.exec.nextIndex < o.last)
    (hafter : (s.inst o.instanceId).view ≤ o.view) (hg : t.handleGeneric cfg crypto (o.generic crypto) = some s)
    (hidle : t.exec = r.exec) (hcerts : (r.inst o.instanceId).SameCerts (t.inst o.instanceId)) :
    (o.manager s).genericReceived = true ∨
      o.generic crypto ∈ s.queues o.instanceId ∨
        (s.inst o.instanceId).view = o.view ∧ ¬ (s.inst o.instanceId).SafeNode o.highQC := by
  have hle : (r.inst o.instanceId).view ≤ o.view := (h.steady.view_le he.1 hs o.instanceId).trans hafter
  have hnext := (h.steady.moves he.1 hs).nextIndex_le
  by_cases hsafe : (r.inst o.instanceId).view = o.view → (r.inst o.instanceId).SafeNode o.highQC
  · have hview := hcerts.view
    have hkept : ¬ t.Dropped cfg (.generic (o.generic crypto)) := by
      rintro ⟨hge, hdrop⟩
      change o.view ≤ (t.inst o.instanceId).view at hge
      have hnow : (t.inst o.instanceId).view = o.view := by omega
      rcases hdrop with hdrop | hdrop
      · change o.last ≤ t.exec.nextIndex at hdrop
        rw [hidle] at hdrop
        omega
      · exact hdrop (congrArg (fun v => cfg.getViewPrimary v o.instanceId) hnow)
    have hpassed : ¬ t.Passed (.generic (o.generic crypto)) := by
      change ¬ o.view < (t.inst o.instanceId).view
      omega
    have hret := handleGeneric_retained hkept hpassed (fun hnow => (safeNode_congr hcerts _).mpr (hsafe (by
      rw [← hview]
      exact hnow))) hg
    rcases hret with hqueue | hnoted
    · exact .inr (.inl hqueue)
    · exact .inl hnoted
  · rw [Classical.not_imp] at hsafe
    exact .inr (.inr (h.unsafe_step he hD hs hsafe.1 hsafe.2 hafter))

lemma Kept.step (h : o.Kept crypto D r) (ht : o.Traced crypto D' r) (he : o.Arrives crypto r e)
    (hD : ∀ m, e = .deliver m → D' m) (hs : r.step cfg crypto e = some s) (hnew : ∀ m, D' m → D m ∨ e = .deliver m) :
    o.Kept crypto D' s := by
  have hmoves := ht.steady.moves he.1 hs
  have hnext := hmoves.nextIndex_le
  have hviews := ht.steady.view_le he.1 hs o.instanceId
  constructor
  · intro hd hindex
    have hnoted : s.Noted (.proposal (o.proposal crypto)) := by
      rcases hnew _ hd with hd | rfl
      · refine Noted.moves hmoves ?_ ?_
        · rw [Replica.manager, proposal_last]
          exact hindex
        · rw [Noted, proposal_last]
          exact h.proposal hd (hnext.trans_lt hindex)
      · have hgap := ht.within.tracked.gap (hnext.trans_lt hindex)
        have hlast : (o.proposal crypto).txnId + 2 = o.last := proposal_last
        simp only [Replica.step, Replica.handle, handleProposal] at hs
        rw [if_neg (by rw [last] at hlast; omega)] at hs
        refine processHotstuffProposal_noted ?_ hs
        rw [hlast]
        exact cfg.slotTxns_getLastD o.view o.instanceId
    rw [Noted, proposal_last] at hnoted
    exact hnoted
  · intro hd hindex hafter
    have hle := hviews.trans hafter
    rcases hnew _ hd with hd | rfl
    · rcases h.generic hd (hnext.trans_lt hindex) hle with hg | hq | ⟨hview, hsafe⟩
      · have hnoted : s.Noted (.generic (o.generic crypto)) := Noted.moves hmoves hindex hg
        exact .inl hnoted
      · rcases step_queues hs hq with hq | ⟨rest, hg⟩
        · exact .inr (.inl hq)
        · refine ht.kept_generic he hD hs hindex hafter hg rfl ?_
          rw [setInst_inst, Function.update_self]
          exact ⟨rfl, rfl, rfl, rfl⟩
      · exact .inr (.inr (ht.unsafe_step he hD hs hview hsafe hafter))
    · exact ht.kept_generic he hD hs hindex hafter hs rfl (.refl _)
  · intro m hm hd hindex hafter
    have hle := hviews.trans hafter
    have hnoted : s.Noted (.sync m) := by
      rcases hnew _ hd with hd | rfl
      · refine Noted.moves hmoves ?_ ?_
        · rw [Replica.manager, hm.txnId]
          exact hindex
        · rw [Noted, hm.txnId]
          exact h.vote m hm hd (hnext.trans_lt hindex) hle
      · have hstale : ¬ r.StaleSync m := by
          have hmark := ht.within.marked o.instanceId o.inst
          rw [StaleSync, hm.view, hm.instanceId, hm.txnId]
          rintro (hlt | ⟨hnow, hold, _⟩)
          · omega
          · rw [← hnow] at hmark
            exact absurd hold (Nat.not_le.mpr hmark)
        simp only [Replica.step, Replica.handle, handleSync, if_neg hstale] at hs
        refine processHotstuffNewView_noted ?_ hs
        rw [hm.txnId, hm.hash]
        exact ht.within.tracks.hash
    rw [Noted, hm.txnId] at hnoted
    exact hnoted

lemma kept_run (hp : p < cfg.nodeCnt) (hbackup : cfg.getViewPrimary o.view o.instanceId ≠ p)
    {es : List Replica.Event} (h : Run (Replica.step cfg crypto) (o.Arrives crypto) (Replica.init cfg p) es r) :
    o.Kept crypto (fun m => .deliver m ∈ es) r := by
  induction h with
  | start => exact ⟨nofun, nofun, nofun⟩
  | @next es s t e hr hok hs ih =>
    have htraced : o.Traced crypto (fun m => .deliver m ∈ es ++ [e]) s :=
      (traced_run hp hbackup hr).imp fun m hm => List.mem_append_left [e] hm
    refine ih.step htraced hok (fun m hm => ?_) hs fun m hm => ?_
    · rw [hm]
      exact List.mem_append_right es (List.mem_singleton_self _)
    · exact (List.mem_append.mp hm).imp_right fun hm => (List.mem_singleton.mp hm).symm

-- The replica has reached the slot's view and has worked off the GENERIC; in the slot's view it has not executed the
-- slot, and the safety rule accepts the certificate of the GENERIC.
structure Served (crypto : Crypto) (o : Offer cfg) (r : Replica) : Prop where
  entered : o.view ≤ (r.inst o.instanceId).view
  handled : o.generic crypto ∉ r.queues o.instanceId
  pending : (r.inst o.instanceId).view = o.view → r.exec.nextIndex < o.last
  safe : (r.inst o.instanceId).view = o.view → (r.inst o.instanceId).SafeNode o.highQC

lemma sent_run {es : List Replica.Event} (h : Run (Replica.step cfg crypto) (o.Arrives crypto) s es r) {m : Msg}
    (hm : .deliver m ∈ es) (hnames : o.Names m) : o.Sent crypto m := by
  induction h with
  | start => cases hm
  | next e _ hok _ ih =>
    rcases List.mem_append.mp hm with hm | hm
    · exact ih hm
    · exact hok.2 m (List.mem_singleton.mp hm).symm hnames

lemma Kept.left {es : List Replica.Event} (h : o.Kept crypto (fun m => .deliver m ∈ es) r)
    (ht : o.Traced crypto D r) (hself : r.nodeId = p) (hsent : ∀ m, .deliver m ∈ es → o.Names m → o.Sent crypto m)
    (hproposal : .deliver (.proposal (o.proposal crypto)) ∈ es) (hgeneric : .deliver (.generic (o.generic crypto)) ∈ es)
    (hvotes : cfg.nf ≤ (o.voters p es).card) (hserved : o.Served crypto r) :
    o.view < (r.inst o.instanceId).view := by
  by_contra hle
  have hview : (r.inst o.instanceId).view = o.view := le_antisymm (Nat.le_of_not_lt hle) hserved.entered
  have hindex := hserved.pending hview
  have hp := h.proposal hproposal hindex
  have hg : (o.manager r).genericReceived = true := by
    rcases h.generic hgeneric hindex hview.le with hg | hq | ⟨_, hsafe⟩
    · exact hg
    · exact absurd hq hserved.handled
    · exact absurd (hserved.safe hview) hsafe
  have hsettled := ht.settled hview.le
  have hopen : (o.manager r).newViewed ≠ true := fun hnew => hsettled.waits ⟨hnew, hp, hg⟩
  rcases ht.within.tracks.counted with hc | ⟨_, hnot⟩
  · have hsub : o.voters p es ⊆ ((o.manager r).votersOf (o.hash crypto)).toFinset := by
      intro x hx
      rw [voters, Finset.mem_insert, List.mem_toFinset, List.mem_filterMap] at hx
      rw [List.mem_toFinset]
      by_cases hxp : x = p
      · rw [hxp, ← hself]
        exact hc.tally.own.mpr (hsettled.voted hg)
      obtain ⟨e, he, hvoter⟩ := hx.resolve_left hxp
      obtain ⟨m, rfl, hid, rfl⟩ : ∃ m, e = .deliver (.sync m) ∧ m.txnId = o.last ∧ m.returnNodeId = x := by
        simp only [voter] at hvoter
        split at hvoter
        · split_ifs at hvoter with hid
          exact ⟨_, rfl, hid, Option.some.inj hvoter⟩
        · cases hvoter
      have hvote : o.Vote crypto m := by
        cases hsent _ he hid with
        | vote hm => exact hm
      rw [hc.tally.heard _ (hself ▸ hxp)]
      exact (h.vote m hvote he hindex hview.le).resolve_right hopen
    apply hopen
    rw [hc.tally.viewed]
    calc cfg.nf ≤ (o.voters p es).card := hvotes
      _ ≤ ((o.manager r).votersOf (o.hash crypto)).toFinset.card := Finset.card_le_card hsub
      _ ≤ ((o.manager r).votersOf (o.hash crypto)).length := List.toFinset_card_le _
  · rw [hg] at hnot
    cases hnot

end Kept

section Early

lemma handle_hash {m : Msg} (hm : Msg.Peer cfg p m) (hs : r.handle cfg crypto m = some s) {k : ℕ}
    (hk : k ≠ Replica.manager m) : (s.table k).hash = (r.table k).hash := by
  cases m with
  | proposal m =>
    have hnamed : m.Named cfg := hm.named
    have hlast : m.index.getLastD 0 = m.txnId + 2 := by rw [hnamed.index, cfg.slotTxns_getLastD, ← hnamed.txnId]
    simp only [Replica.handle, handleProposal] at hs
    split_ifs at hs
    · rw [← Option.some.inj hs]
    rcases processHotstuffProposal_cases hs with rfl | ⟨table, hacc, hend⟩
    · rfl
    have hstore : ((r.storeProposal m table).table k).hash = (r.table k).hash := by
      have hne : k ≠ m.txnId + 2 := hk
      simp only [storeProposal, rememberTxnid, setInst_table, hlast]
      rw [Function.update_of_ne hne]
      rcases fillManagers_cases hacc.filled k with heq | ⟨_, _, _, heq⟩ <;> rw [heq]
    rcases hend with ⟨_, ha⟩ | ⟨_, rfl⟩
    · exact (sameSlot_advance ha k).hash.trans hstore
    · exact hstore
  | generic m =>
    simp only [Replica.handle, handleGeneric] at hs
    split_ifs at hs
    · rw [← Option.some.inj hs, setInst_table]
    · rw [← Option.some.inj hs]
    rcases processHotstuffGeneric_cases hs with rfl | ⟨_, ⟨_, ha⟩ | ⟨_, rfl⟩⟩
    · rfl
    · rw [(sameSlot_advance ha k).hash, voteGeneric_table_of_ne r m hk]
    · rw [voteGeneric_table_of_ne r m hk]
  | sync m =>
    simp only [Replica.handle, handleSync] at hs
    split_ifs at hs
    · rw [← Option.some.inj hs]
    rcases processHotstuffNewView_cases hs with rfl | ⟨_, ⟨_, ha⟩ | ⟨_, rfl⟩⟩
    · rfl
    · exact (sameSlot_advance ha k).hash.trans (sameSlot_count r m k).hash
    · exact (sameSlot_count r m k).hash

lemma Sent.manager {m : Msg} (h : o.Sent crypto m) : Replica.manager m = o.last := by
  cases h with
  | proposal => exact proposal_last
  | generic => rfl
  | vote hm => exact hm.txnId

lemma handle_eve {m : Msg} (hm : Msg.Peer cfg p m) (hs : r.handle cfg crypto m = some s) :
    ∃ u, Eve cfg crypto (fun x => x = m) o.view o.instanceId r u s := by
  cases m with
  | proposal m => exact handleProposal_eve rfl hm o.inst hs
  | generic m => exact handleGeneric_eve rfl (.of_threads rfl rfl rfl rfl rfl rfl) hs
  | sync m => exact handleSync_eve rfl hs

lemma Traced.slot_eve (h : o.Traced crypto D r) {m : Msg} (he : o.Arrives crypto r (.deliver m)) (hnames : o.Names m)
    (hs : r.step cfg crypto (.deliver m) = some s) :
    ∃ u, Eve cfg crypto (fun x => x = m) o.view o.instanceId r u s ∧
      ((u.inst o.instanceId).SameCerts (s.inst o.instanceId) ∧
          (o.manager s).genericReceived = (o.manager u).genericReceived ∨
        (u.inst o.instanceId).view = o.view ∧ (s.inst o.instanceId).view = o.view + 1) := by
  have hsent := he.2 m rfl hnames
  obtain ⟨u, hu⟩ := handle_eve (o := o) he.1.peer hs
  refine ⟨u, hu, ?_⟩
  have hpaced : Paced cfg u := by
    apply hu.moves.invariant (I := Paced cfg) _ h.steady.paced
    intro x y hxy hx
    refine h.steady.paced_move hx (hxy.imp (fun x hx => ?_) (fun _ hQ => hQ) (fun _ _ hB => hB))
    rw [hx]
    exact he.1.peer
  rcases hu.ends with rfl | ⟨x, rfl, hviews, hfresh, hready, ha⟩
  · exact .inl ⟨.refl _, rfl⟩
  have hunready : Unready (Msg.Peer cfg r.nodeId) r (Replica.manager x) := by
    refine hfresh.imp fun y hy => ?_
    rw [hy]
    exact he.1.peer
  obtain ⟨j, hj, hinst, hid⟩ := h.steady.paced.advance_slot hpaced hviews hunready hready (advanceView_eq ha).1
  obtain ⟨hview, hij⟩ := cfg.lastTxn_inj o.inst hj (hsent.manager.symm.trans hid)
  have hnow : (u.inst o.instanceId).view = o.view := by rw [hview, hij]
  right
  rw [advanceView_view ha, hinst, if_pos hij, hnow]
  exact ⟨rfl, rfl⟩

lemma slot_turn {m : Msg} (hsent : o.Sent crypto m) (hu : Eve cfg crypto (fun x => x = m) o.view o.instanceId r u s) :
    (r.inst o.instanceId).SameCerts (u.inst o.instanceId) ∨ r.exec.nextIndex < o.last ∧
      (o.manager r).genericReceived = false ∧ (o.manager u).genericReceived = true := by
  cases hu.turn with
  | keeps hcerts => exact .inl hcerts
  | @takes t g hm hindex _ _ htable hacc heq =>
    obtain rfl : g = o.generic crypto := by
      rw [← hm] at hsent
      cases hsent
      rfl
    have hfresh := hacc.fresh
    rw [htable] at hfresh
    refine .inr ⟨hindex, hfresh, ?_⟩
    rw [heq]
    exact voteGeneric_genericReceived t (o.generic crypto)

lemma Traced.alike (h : o.Traced crypto D r) {m : Msg} (he : o.Arrives crypto r (.deliver m)) (hnames : o.Names m)
    (hs : r.step cfg crypto (.deliver m) = some s) (hafter : (s.inst o.instanceId).view ≤ o.view)
    (hg : (o.manager s).genericReceived = (o.manager r).genericReceived) : o.Alike r s := by
  have hsent := he.2 m rfl hnames
  refine ⟨?_, fun hne => handle_hash he.1.peer hs (hsent.manager ▸ hne)⟩
  obtain ⟨u, hu, ⟨hcerts, hsame⟩ | ⟨_, hleft⟩⟩ := h.slot_eve he hnames hs
  · rcases slot_turn hsent hu with hkeeps | ⟨_, hfresh, htaken⟩
    · exact hkeeps.trans hcerts
    · rw [hsame, htaken, hfresh] at hg
      cases hg
  · omega

lemma Traced.late (h : o.Traced crypto D r) {m : Msg} (he : o.Arrives crypto r (.deliver m)) (hnames : o.Names m)
    (hs : r.step cfg crypto (.deliver m) = some s) (hleft : o.view < (r.inst o.instanceId).view) :
    (r.inst o.instanceId).SameCerts (s.inst o.instanceId) := by
  obtain ⟨u, hu, ⟨hcerts, _⟩ | ⟨hnow, _⟩⟩ := h.slot_eve he hnames hs
  · rcases slot_turn (he.2 m rfl hnames) hu with hkeeps | ⟨hindex, hfresh, _⟩
    · exact hkeeps.trans hcerts
    · rcases h.steady.paced.passed _ o.inst o.view hleft with hready | ⟨hexec, _⟩
      · rw [manager, last, hready.2.2] at hfresh
        cases hfresh
      · exact absurd hindex (Nat.not_lt.mpr hexec.le)
  · rw [hu.views] at hnow
    omega

def Delivers (crypto : Crypto) (o : Offer cfg) (r : Replica) (e : Replica.Event) : Prop :=
  o.Arrives crypto r e ∧ ∃ m, e = .deliver m ∧ o.Names m

lemma Alike.refl (o : Offer cfg) (r : Replica) : o.Alike r r := ⟨.refl _, fun _ => rfl⟩

lemma Alike.trans (h : o.Alike r s) (h' : o.Alike s t) : o.Alike r t :=
  ⟨h.certs.trans h'.certs, fun hne => (h'.hash hne).trans (h.hash hne)⟩

-- How far the join has come when the slot's messages are delivered one after the other.
inductive Phase (crypto : Crypto) (o : Offer cfg) (r s : Replica) : Prop
  | waiting (hbefore : o.advances s = 0) (hg : (o.manager s).genericReceived = false) (h : o.Alike r s)
  | taken {t : Replica} (hbefore : o.advances s = 0) (halike : o.Alike r t) (ht : o.Traced crypto (fun _ => True) t)
      (h : ∀ u, o.Finishes crypto s u → o.Joins crypto t u)
  | left {t u : Replica} (hafter : o.advances s = 1) (halike : o.Alike r t) (ht : o.Traced crypto (fun _ => True) t)
      (h : o.Joins crypto t u) (hcerts : (u.inst o.instanceId).SameCerts (s.inst o.instanceId))

lemma Phase.step (h : o.Phase crypto t r) (hr : o.Traced crypto (fun _ => True) r) (he : o.Delivers crypto r e)
    (hs : r.step cfg crypto e = some s) : o.Phase crypto t s := by
  obtain ⟨he, m, rfl, hnames⟩ := he
  have hD : ∀ x, Replica.Event.deliver m = .deliver x → True := fun _ _ => trivial
  have hnext := hr.step he hD hs
  have htwo : o.advances s = 0 ∨ o.advances s = 1 := by
    rw [hnext.within.once.zero_iff, hnext.within.once.one_iff]
    omega
  cases h with
  | waiting hbefore hg halike =>
    have hview := hr.within.once.zero_iff.mp hbefore
    by_cases htaken : (o.manager s).genericReceived = true
    · have hjoins : ∀ u, o.Finishes crypto s u → o.Joins crypto r u := fun u hu =>
        ⟨hbefore, hg, _, s, he, hs, htaken, hu⟩
      rcases htwo with hzero | hone
      · exact .taken hzero halike hr hjoins
      · exact .left hone halike hr (hjoins s (.now hone)) (.refl _)
    · have hsame : (o.manager s).genericReceived = (o.manager r).genericReceived := by
        rw [hg]
        exact Bool.not_eq_true _ ▸ htaken
      have hzero : o.advances s = 0 := by
        refine htwo.resolve_right fun hone => htaken ?_
        exact ((hr.leaves_iff he hD hs hview).mp (hnext.within.once.one_iff.mp hone)).genericReceived
      exact .waiting hzero (hsame.trans hg)
        (halike.trans (hr.alike he hnames hs (hnext.within.once.zero_iff.mp hzero) hsame))
  | taken hbefore halike ht hjoins =>
    rcases htwo with hzero | hone
    · exact .taken hzero halike ht fun u hu => hjoins u (.later hbefore he hs hu)
    · exact .left hone halike ht (hjoins s (.later hbefore he hs (.now hone))) (.refl _)
  | left hafter halike ht hjoins hcerts =>
    have hlate := hr.late he hnames hs (hr.within.once.one_iff.mp hafter)
    refine .left ?_ halike ht hjoins (hcerts.trans hlate)
    rw [hnext.within.once.one_iff, hlate.view]
    exact hr.within.once.one_iff.mp hafter

lemma Traced.orders (h : o.Traced crypto (fun _ => True) r) (hbefore : o.advances r = 0)
    (hg : (o.manager r).genericReceived = false) {es : List Replica.Event}
    (hrun : Run (Replica.step cfg crypto) (o.Delivers crypto) r es s) (hone : o.advances s = 1) :
    Agrees o.view (o.joined crypto r) (s.inst o.instanceId) := by
  have hphase : o.Traced crypto (fun _ => True) s ∧ o.Phase crypto r s := by
    apply hrun.reach.invariant (fun s => o.Traced crypto (fun _ => True) s ∧ o.Phase crypto r s)
    · exact ⟨h, .waiting hbefore hg (.refl o r)⟩
    · rintro u e v - he hs ⟨hu, hphase⟩
      exact ⟨hu.step he.1 (fun _ _ => trivial) hs, hphase.step hu he hs⟩
  cases hphase.2 with
  | waiting hzero => omega
  | taken hzero => omega
  | left _ halike ht hjoins hcerts =>
    have hresult := (hjoins.agrees ht).congr halike
    refine ⟨hcerts.view.trans hresult.view, ?_, ?_⟩
    · rw [hcerts.preparedQC, hresult.preparedQC]
    · rw [hcerts.lockedQC, hresult.lockedQC]

end Early

section Total

lemma hash_ne_nil : o.hash crypto ≠ [] := crypto.hash_ne_nil _

lemma Within.exists_advanceView (h : o.Within crypto D r₀ u) (hhash : (o.manager u).hash ≠ [])
    (hrange : cfg.InRange (u.inst o.instanceId).view) : ∃ s, u.advanceView cfg o.last = some s := by
  have hinst : (u.table o.last).instanceId = o.instanceId := h.paced.insts _ _ o.inst hhash
  have hnot : ¬ ((u.table o.last).hash = [] ∨ ¬ cfg.InRange (u.inst (u.table o.last).instanceId).view) := by
    rw [hinst, not_or, not_not]
    exact ⟨hhash, hrange⟩
  simp only [advanceView, if_neg hnot]
  exact ⟨_, rfl⟩

variable (h : o.Traced crypto (fun _ => True) r) (hrange : cfg.InRange (r.inst o.instanceId).view)

include h hrange

lemma Traced.exists_proposal (horderly : Orderly cfg r) (hpeer : Msg.Peer cfg r.nodeId (.proposal (o.proposal crypto))) :
    ∃ s, r.handleProposal cfg crypto (o.proposal crypto) = some s := by
  have hlast : (o.proposal crypto).txnId + 2 = o.last := proposal_last
  by_cases hindex : (o.proposal crypto).txnId ≤ r.exec.nextIndex
  · exact ⟨r, by rw [handleProposal, if_pos hindex]⟩
  by_cases hfresh : (r.table ((o.proposal crypto).txnId + 2)).proposalReceived = true
  · refine ⟨r, ?_⟩
    rw [handleProposal, if_neg hindex]
    simp only [processHotstuffProposal, if_pos hfresh]
  have hhash : (r.table ((o.proposal crypto).txnId + 2)).genericReceived = true →
      (o.proposal crypto).hash = (r.table ((o.proposal crypto).txnId + 2)).hash := by
    rw [hlast]
    exact fun hg => (h.within.tracks.generic hg).2.1.symm
  have hvalid : (o.proposal crypto).validate crypto = true := by simp [ProposalMsg.validate, proposal, slotProposal]
  obtain ⟨table, hfill⟩ : ∃ table, fillManagers cfg r.table (o.proposal crypto).returnNodeId (o.proposal crypto).view
      (o.proposal crypto).instanceId ((o.proposal crypto).index.zip (o.proposal crypto).requestMsg) = some table := by
    refine exists_fillManagers _ _ _ _ nodup_slotTxns ?_ o.fits
    refine horderly.waiting _ _ o.inst ?_ ?_
    · change r.exec.nextIndex ≤ o.last
      omega
    · rw [hlast, Bool.not_eq_true] at hfresh
      exact hfresh
  have hacc : AcceptsProposal cfg crypto r (o.proposal crypto) table :=
    ⟨by simpa using hfresh, hhash, by simpa [ProposalMsg.validate] using hvalid, hfill⟩
  have hw : o.Within crypto (fun _ => True) r (r.storeProposal (o.proposal crypto) table) :=
    h.moves (.single (.proposal ⟨hpeer, fun _ => .proposal, trivial⟩ (by omega) hacc))
  have hgetLast : (o.proposal crypto).index.getLastD 0 = o.last := cfg.slotTxns_getLastD o.view o.instanceId
  rw [handleProposal, if_neg hindex]
  simp only [processHotstuffProposal, hfill]
  rw [if_neg hfresh, if_neg (by tauto), if_neg (not_not.mpr hvalid)]
  split_ifs
  · have hadv : ∃ s, (r.storeProposal (o.proposal crypto) table).advanceView cfg o.last = some s := by
      refine hw.exists_advanceView ?_ ?_
      · simp only [manager, storeProposal, hgetLast, rememberTxnid, setInst_table, Function.update_self]
        exact hash_ne_nil
      · rw [(SameViews.storeProposal r _ table).view]
        exact hrange
    rw [← hgetLast] at hadv
    exact hadv
  · exact ⟨_, rfl⟩

lemma Traced.exists_generic (hpeer : Msg.Peer cfg r.nodeId (.generic (o.generic crypto))) :
    ∃ s, r.handleGeneric cfg crypto (o.generic crypto) = some s := by
  rw [handleGeneric]
  split_ifs with hview hindex
  · exact ⟨_, rfl⟩
  · exact ⟨_, rfl⟩
  have hvalid : (o.generic crypto).validate crypto = true := crypto.verify_sign _ _
  have hhash : (r.table (o.generic crypto).txnId).hash = [] ∨ (r.table (o.generic crypto).txnId).hash =
      (o.generic crypto).hash := h.within.tracks.hash
  simp only [processHotstuffGeneric]
  split_ifs with hg hleader hsafe hne
  · exact ⟨_, rfl⟩
  · exact ⟨_, rfl⟩
  · exact absurd hhash (by tauto)
  · have hacc : AcceptsGeneric cfg crypto r (o.generic crypto) :=
      ⟨by simpa using hg, not_not.mp hleader, hvalid, hsafe, hhash⟩
    have hw : o.Within crypto (fun _ => True) r (r.voteGeneric cfg crypto (o.generic crypto)) :=
      h.moves (voteGeneric_moves ⟨hpeer, fun _ => .generic, trivial⟩ (.refl r) rfl (by omega) (by omega) hacc)
    refine hw.exists_advanceView ?_ ?_
    · rw [(hw.tracks.generic (voteGeneric_genericReceived r (o.generic crypto))).2.1]
      exact hash_ne_nil
    · have hsame : SameViews r (r.voteGeneric cfg crypto (o.generic crypto)) := (SameViews.generic r _).trans (.vote _ _)
      rw [hsame.view]
      exact hrange
  · exact ⟨_, rfl⟩
  · exact ⟨_, rfl⟩

lemma Traced.exists_sync {m : SyncMsg} (hm : o.Vote crypto m) (hpeer : Msg.Peer cfg r.nodeId (.sync m)) :
    ∃ s, r.handleSync cfg crypto m = some s := by
  rw [handleSync]
  split_ifs with hstale
  · exact ⟨_, rfl⟩
  have hhash : (r.table m.txnId).hash = [] ∨ (r.table m.txnId).hash = m.hash := by
    rw [hm.txnId, hm.hash]
    exact h.within.tracks.hash
  have hsame : ¬ ((r.table m.txnId).hash ≠ [] ∧ m.hash ≠ (r.table m.txnId).hash) := by tauto
  simp only [processHotstuffNewView]
  rw [if_neg (not_not.mpr hm.valid), if_neg hsame]
  by_cases hready : (hotstuffNewViewed cfg (r.table m.txnId) r.nodeId m).2 = true ∧
      (hotstuffNewViewed cfg (r.table m.txnId) r.nodeId m).1.proposalReceived = true ∧
      (hotstuffNewViewed cfg (r.table m.txnId) r.nodeId m).1.genericReceived = true
  · rw [if_pos hready]
    have hw : o.Within crypto (fun _ => True) r (r.countVote cfg m) :=
      h.moves (.single (.count ⟨hpeer, fun _ => .vote hm, trivial⟩ hstale hhash))
    have hg : (o.manager (r.countVote cfg m)).genericReceived = true := by
      rw [manager, countVote_table, ← hm.txnId, Function.update_self]
      exact hready.2.2
    have hadv : ∃ s, (r.countVote cfg m).advanceView cfg o.last = some s := by
      refine hw.exists_advanceView ?_ ?_
      · rw [(hw.tracks.generic hg).2.1]
        exact hash_ne_nil
      · rw [(SameViews.countVote r m).view]
        exact hrange
    rw [← hm.txnId] at hadv
    exact hadv
  · rw [if_neg hready]
    exact ⟨_, rfl⟩

lemma Traced.exists_step (horderly : Orderly cfg r) {m : Msg} (hm : o.Sent crypto m)
    (hpeer : Msg.Peer cfg r.nodeId m) : ∃ s, r.step cfg crypto (.deliver m) = some s := by
  cases hm with
  | proposal => exact h.exists_proposal hrange horderly hpeer
  | generic => exact h.exists_generic hrange hpeer
  | vote hm => exact h.exists_sync hrange hm hpeer

end Total

lemma voters_subset (es es' : List Replica.Event) : o.voters p es ⊆ o.voters p (es ++ es') := by
  intro x hx
  rw [voters, Finset.mem_insert, List.mem_toFinset, List.filterMap_append, List.mem_append]
  rw [voters, Finset.mem_insert, List.mem_toFinset] at hx
  exact hx.imp_right .inl

lemma arrived_run (hp : p < cfg.nodeCnt) (hbackup : cfg.getViewPrimary o.view o.instanceId ≠ p)
    {es : List Replica.Event} (h : Run (Replica.step cfg crypto) (o.Arrives crypto) (Replica.init cfg p) es r)
    (hone : o.advances r = 1) : .deliver (.proposal (o.proposal crypto)) ∈ es ∧
      .deliver (.generic (o.generic crypto)) ∈ es ∧ cfg.nf ≤ (o.voters p es).card := by
  induction h with
  | start => simp [advances, advancedIds, Replica.init] at hone
  | @next es s t e hr hok hs ih =>
    have hnext := traced_run hp hbackup (.next e hr hok hs)
    have hpast : o.Traced crypto (fun _ => True) s := (traced_run hp hbackup hr).imp fun _ _ => trivial
    by_cases hbefore : (s.inst o.instanceId).view ≤ o.view
    · rw [hnext.within.once.one_iff, hpast.leaves_iff hok (fun _ _ => trivial) hs hbefore] at hone
      exact hnext.within.tracks.arrived hone (nodeId_reach cfg crypto (hr.next e hok hs).reach) fun _ hm => hm
    · obtain ⟨hprop, hgen, hvotes⟩ := ih (hpast.within.once.one_iff.mpr (by omega))
      exact ⟨List.mem_append_left _ hprop, List.mem_append_left _ hgen,
        hvotes.trans (Finset.card_le_card (voters_subset es [e]))⟩

-- Two replicas in the view after the slot's, with the same certificates up to signature shares.
structure SameResult (o : Offer cfg) (s s' : Replica) : Prop where
  left : (s.inst o.instanceId).view = o.view + 1 ∧ (s'.inst o.instanceId).view = o.view + 1
  preparedQC : (s.inst o.instanceId).preparedQC.unsigned = (s'.inst o.instanceId).preparedQC.unsigned
  lockedQC : (s.inst o.instanceId).lockedQC.unsigned = (s'.inst o.instanceId).lockedQC.unsigned

lemma Agrees.sameResult {x : Instance} (h : Agrees o.view x (s.inst o.instanceId))
    (h' : Agrees o.view x (t.inst o.instanceId)) : o.SameResult s t where
  left := ⟨h.view, h'.view⟩
  preparedQC := h.preparedQC.trans h'.preparedQC.symm
  lockedQC := h.lockedQC.trans h'.lockedQC.symm

-- What the join comes to at replica `p` after the events `es`, whatever their order.
structure OrderFree (crypto : Crypto) (o : Offer cfg) (p : ℕ) (es : List Replica.Event) (r : Replica) : Prop where
  once : o.advances r = if (r.inst o.instanceId).view ≤ o.view then 0 else 1
  only : o.advances r = 1 → .deliver (.proposal (o.proposal crypto)) ∈ es ∧
    .deliver (.generic (o.generic crypto)) ∈ es ∧ cfg.nf ≤ (o.voters p es).card
  always : .deliver (.proposal (o.proposal crypto)) ∈ es → .deliver (.generic (o.generic crypto)) ∈ es →
    cfg.nf ≤ (o.voters p es).card → o.Served crypto r → o.advances r = 1
  first : o.advances r = 0 → ¬ o.Complete crypto r ∧ ∀ e s, o.Arrives crypto r e → r.step cfg crypto e = some s →
    (o.advances s = 1 ↔ o.Complete crypto s)
  -- no assertion fails on a message of the slot
  total : ∀ m, o.Names m → o.Arrives crypto r (.deliver m) → cfg.InRange (r.inst o.instanceId).view →
    ∃ s, r.step cfg crypto (.deliver m) = some s
  -- two orders of the slot's messages, from the same state
  orders : o.advances r = 0 → (o.manager r).genericReceived = false → ∀ fs fs' s s',
    Run (Replica.step cfg crypto) (o.Delivers crypto) r fs s → Run (Replica.step cfg crypto) (o.Delivers crypto) r fs' s' →
    o.advances s = 1 → o.advances s' = 1 → o.SameResult s s'
  -- and from different histories: the slot's messages change nothing before the GENERIC is taken, and then only the
  -- certificates count
  early : ∀ m s, o.Names m → o.Arrives crypto r (.deliver m) → r.step cfg crypto (.deliver m) = some s →
    o.advances s = 0 → (o.manager s).genericReceived = (o.manager r).genericReceived → o.Alike r s
  histories : ∀ es' r' s s', Run (Replica.step cfg crypto) (o.Arrives crypto) (Replica.init cfg p) es' r' → o.Alike r r' →
    o.Joins crypto r s → o.Joins crypto r' s' → o.SameResult s s'

lemma Sent.arrives {m : Msg} (h : o.Sent crypto m) (hok : Replica.Genuine cfg r (.deliver m)) :
    o.Arrives crypto r (.deliver m) := by
  have hnamed : m.Named cfg := by
    cases h with
    | proposal => exact ⟨proposal_last, rfl, rfl⟩
    | generic => exact ⟨rfl, rfl⟩
    | vote => trivial
  refine ⟨⟨hok, fun x hx => ?_⟩, fun x hx _ => ?_⟩
  · rwa [← Replica.Event.deliver.inj hx]
  · rwa [← Replica.Event.deliver.inj hx]

end Offer

theorem join_order_independent (cfg : Config) (crypto : Crypto) (o : Offer cfg) {p : ℕ} (hp : p < cfg.nodeCnt)
    (hbackup : cfg.getViewPrimary o.view o.instanceId ≠ p) {es : List Replica.Event} {r : Replica}
    (h : Run (Replica.step cfg crypto) (o.Arrives crypto) (Replica.init cfg p) es r) : o.OrderFree crypto p es r := by
  have htraced := Offer.traced_run hp hbackup h
  have hany : o.Traced crypto (fun _ => True) r := htraced.imp fun _ _ => trivial
  have honce := htraced.within.once
  constructor
  · exact honce
  · exact Offer.arrived_run hp hbackup h
  · intro hprop hgen hvotes hserved
    exact honce.one_iff.mpr ((Offer.kept_run hp hbackup h).left htraced (Replica.nodeId_reach cfg crypto h.reach)
      (fun _ hm hnames => Offer.sent_run h hm hnames) hprop hgen hvotes hserved)
  · intro hzero
    have hview := honce.zero_iff.mp hzero
    refine ⟨htraced.not_complete hview, fun e s he hs => ?_⟩
    rw [(hany.step he (fun _ _ => trivial) hs).within.once.one_iff]
    exact hany.leaves_iff he (fun _ _ => trivial) hs hview
  · intro m hnames he hrange
    have horderly := Replica.orderly_reach hp (h.reach.mono fun _ e he => ⟨he.1.1, fun m hm => he.1.2 _ hm⟩)
    exact hany.exists_step hrange horderly (he.2 m rfl hnames) he.1.peer
  · intro hzero hg fs fs' s s' hs hs' hone hone'
    exact (hany.orders hzero hg hs hone).sameResult (hany.orders hzero hg hs' hone')
  · intro m s hnames he hs hzero hg
    have hnext := hany.step he (fun _ _ => trivial) hs
    exact hany.alike he hnames hs (hnext.within.once.zero_iff.mp hzero) hg
  · intro es' r' s s' h' halike hjoins hjoins'
    have hother : o.Traced crypto (fun _ => True) r' := (Offer.traced_run hp hbackup h').imp fun _ _ => trivial
    exact (hjoins.agrees hany).sameResult ((hjoins'.agrees hother).congr halike)

def Offer.sample : Offer .fourReplicas where
  view := 0
  instanceId := 0
  requestMsg := List.replicate 5 ⟨[⟨7, 1⟩], 3, 9⟩
  highQC := genesisQC .PREPARE
  inst := by decide
  length := by decide
  fits := by decide

theorem join_order_independent_votes_first :
    let vote (q : ℕ) : Replica.Event :=
      .deliver (.sync (slotVote .fourReplicas 0 0 (Offer.sample.hash .transparent) q))
    let es : List Replica.Event := [vote 1, vote 2, .deliver (.generic (Offer.sample.generic .transparent)),
      .deliver (.proposal (Offer.sample.proposal .transparent))]
    ∃ r, Run (Replica.step .fourReplicas .transparent) (Offer.sample.Arrives .transparent)
      (Replica.init .fourReplicas 3) es r ∧ Offer.sample.advances r = 1 := by
  intro vote es
  have hvote : ∀ q, Offer.sample.Sent .transparent (.sync (slotVote .fourReplicas 0 0 (Offer.sample.hash .transparent) q)) :=
    fun q => .vote ⟨rfl, rfl, rfl, rfl, rfl⟩
  obtain ⟨r, hr, hp⟩ := exists_run_of_runWith (Replica.step .fourReplicas .transparent)
    (Replica.Genuine .fourReplicas) (Replica.init .fourReplicas 3) es
    (fun r => decide ((r.inst 0).view = 1) && (r.queues 0).isEmpty) (by decide +kernel)
  obtain ⟨hview, hqueue⟩ := (Bool.and_eq_true _ _).mp hp
  have hone : (r.inst Offer.sample.instanceId).view = 1 := of_decide_eq_true hview
  have hrun : Run (Replica.step .fourReplicas .transparent) (Offer.sample.Arrives .transparent)
      (Replica.init .fourReplicas 3) es r := by
    refine hr.mono fun e he s hok => ?_
    simp only [es, vote, List.mem_cons, List.not_mem_nil, or_false] at he
    rcases he with rfl | rfl | rfl | rfl
    · exact (hvote 1).arrives hok
    · exact (hvote 2).arrives hok
    · exact Offer.Sent.generic.arrives hok
    · exact Offer.Sent.proposal.arrives hok
  refine ⟨r, hrun, (join_order_independent .fourReplicas .transparent Offer.sample (by decide) (by decide) hrun).always
    (by simp [es]) (by simp [es]) (by decide +kernel) ⟨Nat.zero_le _, ?_, ?_, ?_⟩⟩
  · have hnil : r.queues Offer.sample.instanceId = [] := List.isEmpty_iff.mp hqueue
    rw [hnil]
    exact List.not_mem_nil
  · rw [hone]
    exact nofun
  · rw [hone]
    exact nofun

-- Replica 1 is faulty: in view 1 it sends replica 3 another GENERIC than replicas 0 and 2. The primary of view 2 is not.
def System.refusedSlot : List System.Event :=
  let crypto : Crypto := .transparent
  let m : ProposalMsg := slotProposal .fourReplicas crypto 1 0 (sampleBatch 2).cqrySet
  let generic (qc : QuorumCertificate) : Msg := .generic (slotGeneric .fourReplicas crypto 1 0 m.hash qc)
  let vote : Msg := .sync (slotVote .fourReplicas 1 0 m.hash 1)
  fillSlot 0 1 ++ relays [(2, 0, 1), (3, 0, 2), (2, 0, 4), (3, 0, 5), (2, 0, 7), (3, 0, 8), (2, 3, 2), (3, 2, 2),
    (0, 2, 1), (0, 3, 1)] ++
  [.inject 0 (.proposal m), .inject 2 (.proposal m), .inject 3 (.proposal m), .inject 0 (generic (genesisQC .PREPARE)),
    .inject 2 (generic (genesisQC .PREPARE)), .inject 3 (generic { batchHash := [9] }), .inject 0 vote,
    .inject 2 vote, .inject 3 vote] ++
  relays [(0, 2, 3), (2, 0, 9), (3, 2, 5)] ++
  fillSlot 2 3 ++ relays [(0, 2, 6), (0, 2, 9), (3, 2, 8), (3, 2, 11), (3, 2, 12), (3, 0, 12)] ++
  [.inject 3 (.sync (slotVote .fourReplicas 2 0
    (slotProposal .fourReplicas crypto 2 0 (sampleBatch 3).cqrySet).hash 1))]

def System.refusedOffer (highQC : QuorumCertificate) : Offer .fourReplicas where
  view := 2
  instanceId := 0
  requestMsg := (sampleBatch 3).cqrySet
  highQC := highQC
  inst := by decide
  length := by decide
  fits := by decide

def System.Handed (es : List System.Event) (S : System) (p : ℕ) (m : Msg) : Prop :=
  (∃ q k, .relay p q k ∈ es ∧ (S q).out[k]? = some (p, m)) ∨ .inject p m ∈ es

def System.refusesSlot (S : System) : Bool :=
  match (S 2).out[8]?, (S 2).out[11]?, (S 0).out[12]?, (S 2).out[12]? with
  | some (a, Msg.proposal m), some (b, Msg.generic g), some (c, Msg.sync v), some (d, Msg.sync w) =>
    let o := refusedOffer g.highQC
    let p := o.proposal .transparent
    let vote (q : ℕ) (x : SyncMsg) : Bool := decide (x.returnNodeId = q ∧ x.txnId = o.last ∧ x.view = 2 ∧
      x.instanceId = 0 ∧ x.hash = o.hash .transparent ∧ x.validate .transparent = true)
    decide (a = 3 ∧ b = 3 ∧ c = 3 ∧ d = 3) &&
      decide (m.txnId = p.txnId ∧ m.returnNodeId = 2 ∧ m.instanceId = 0 ∧ m.view = 2 ∧ m.index = p.index ∧
        m.requestMsg = p.requestMsg ∧ m.hash = p.hash) &&
      decide (g.txnId = o.last ∧ g.returnNodeId = 2 ∧ g.instanceId = 0 ∧ g.view = 2 ∧ g.hash = o.hash .transparent ∧
        g.psigShare = (o.generic .transparent).psigShare) && vote 0 v && vote 2 w &&
      decide (((S 3).inst 0).view = 2 ∧ (S 3).exec.nextIndex < o.last ∧ o.advances (S 3) = 0) &&
      ((S 3).queues 0).isEmpty
  | _, _, _, _ => false

-- The replica's lock is on the other GENERIC, so it takes no GENERIC that extends the true one.
theorem join_refused :
    ∃ (o : Offer .fourReplicas) (S : System), Run (System.step .fourReplicas .transparent)
        (System.Allowed .fourReplicas {1}) (System.init .fourReplicas) System.refusedSlot S ∧
      Config.fourReplicas.getViewPrimary o.view o.instanceId = 2 ∧
      S.Handed System.refusedSlot 3 (.proposal (o.proposal .transparent)) ∧
      S.Handed System.refusedSlot 3 (.generic (o.generic .transparent)) ∧
      (∀ q ∈ [0, 1, 2], ∃ v, o.Vote .transparent v ∧ v.returnNodeId = q ∧ S.Handed System.refusedSlot 3 (.sync v)) ∧
      ((S 3).inst o.instanceId).view = o.view ∧ (S 3).queues o.instanceId = [] ∧ (S 3).exec.nextIndex < o.last ∧
      o.advances (S 3) = 0 := by
  obtain ⟨S, hrun, hp⟩ := exists_run_of_runWith (System.step .fourReplicas .transparent)
    (System.Allowed .fourReplicas {1}) (System.init .fourReplicas) System.refusedSlot System.refusesSlot
    (by decide +kernel)
  simp only [System.refusesSlot] at hp
  split at hp
  · rename_i a m b g c v d w hm hg hv hw
    simp only [Bool.and_eq_true, decide_eq_true_eq, List.isEmpty_iff] at hp
    obtain ⟨⟨⟨⟨⟨⟨⟨rfl, rfl, rfl, rfl⟩, hproposal⟩, hgeneric⟩, hvote⟩, hvote'⟩, hview, hindex, hzero⟩, hqueue⟩ := hp
    have hown : Config.fourReplicas.getViewPrimary 2 0 = 2 := by decide
    refine ⟨System.refusedOffer g.highQC, S, hrun, hown, ?_, ?_, ?_, hview, hqueue, hindex, hzero⟩
    · obtain ⟨htxn, hsender, hinst, hslot, hindexes, hreqs, hhash⟩ := hproposal
      cases m
      dsimp only at htxn hsender hinst hslot hindexes hreqs hhash
      subst htxn hsender hinst hslot hindexes hreqs hhash
      exact .inl ⟨2, 8, by simp [System.refusedSlot, System.relays], hm⟩
    · obtain ⟨htxn, hsender, hinst, hslot, hhash, hshare⟩ := hgeneric
      cases g
      dsimp only at htxn hsender hinst hslot hhash hshare
      subst htxn hsender hinst hslot hhash hshare
      exact .inl ⟨2, 11, by simp [System.refusedSlot, System.relays], hg⟩
    · obtain ⟨hsender, htxn, hslot, hinst, hhash, hvalid⟩ := hvote
      obtain ⟨hsender', htxn', hslot', hinst', hhash', hvalid'⟩ := hvote'
      have hmem : .relay 3 0 12 ∈ System.refusedSlot ∧ .relay 3 2 12 ∈ System.refusedSlot := by
        simp [System.refusedSlot, System.relays]
      intro q hq
      simp only [List.mem_cons, List.not_mem_nil, or_false] at hq
      rcases hq with rfl | rfl | rfl
      · exact ⟨v, ⟨htxn, hslot, hinst, hhash, hvalid⟩, hsender, .inl ⟨0, 12, hmem.1, hv⟩⟩
      · refine ⟨slotVote .fourReplicas 2 0 ((System.refusedOffer g.highQC).hash .transparent) 1,
          ⟨rfl, rfl, rfl, rfl, rfl⟩, rfl, .inr ?_⟩
        exact List.mem_append_right _ (List.mem_singleton_self _)
      · exact ⟨w, ⟨htxn', hslot', hinst', hhash', hvalid'⟩, hsender', .inl ⟨2, 12, hmem.2, hw⟩⟩
  · cases hp

end SpotLess
