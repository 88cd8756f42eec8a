import SpotLess.Certificates

namespace SpotLess

open Lib

structure Closed (m : UMap Bytes QuorumCertificate) : Prop where
  root : [] ∈ m
  parents : UMap.All (fun qc => qc.parentHash ∈ m) m

namespace Closed

variable {m : UMap Bytes QuorumCertificate} {qc : QuorumCertificate}

lemma parent_get (h : Closed m) (k : Bytes) : (UMap.get m k).parentHash ∈ m :=
  h.parents.get (p := fun qc : QuorumCertificate => qc.parentHash ∈ m) h.root k

lemma insert (h : Closed m) (k : Bytes) (hqc : qc.parentHash ∈ m) : Closed (m.insert k qc) where
  root := (AList.mem_insert m).mpr (.inr h.root)
  parents := (h.parents.imp fun _ hp => (AList.mem_insert m).mpr (.inr hp)).insert k ((AList.mem_insert m).mpr (.inr hqc))

lemma touch (h : Closed m) (k : Bytes) : Closed (UMap.touch m k) := by
  rw [UMap.touch]
  split_ifs
  · exact h
  · exact h.insert k h.root

end Closed

namespace Instance

variable {x : Instance} {qc : QuorumCertificate}

lemma closed_updateQCs (h : Closed x.hashToQC) (qc : QuorumCertificate) (view : ℕ) :
    Closed (x.updateQCs qc view).hashToQC := by
  have htouch := (h.touch qc.parentHash).touch (x.parentOf qc).parentHash
  simp only [updateQCs, setPreparedQC, setLockedQC]
  split_ifs <;> exact htouch

lemma mem_updateQCs {h : Bytes} (hh : h ∈ x.hashToQC) (view : ℕ) : h ∈ (x.updateQCs qc view).hashToQC := by
  have htouch : h ∈ UMap.touch (UMap.touch x.hashToQC qc.parentHash) (x.parentOf qc).parentHash := by
    rw [UMap.mem_touch, UMap.mem_touch]
    exact .inr (.inr hh)
  simp only [updateQCs, setPreparedQC, setLockedQC]
  split_ifs <;> exact htouch

lemma executeParents_ne_nil (fuel : ℕ) (x : Instance) (qc : QuorumCertificate) :
    (executeParents (fuel + 1) x qc).2 ≠ [] := by
  simp only [executeParents]
  split_ifs <;> simp

lemma walkParents_ne_nil (h : Closed x.hashToQC) (hash : Bytes) : (x.walkParents hash).2 ≠ [] := by
  have hmem := (h.touch hash).parent_get hash
  simp only [walkParents, UMap.count_eq_true, if_pos hmem]
  exact executeParents_ne_nil _ _ _

lemma sendExecuteMsg_ne_singleton (h : Closed x.hashToQC) (t : TxnManager) (id k : ℕ) :
    (x.sendExecuteMsg t id).2 ≠ [k] := by
  have hwalk := walkParents_ne_nil h t.hash
  simp only [sendExecuteMsg]
  intro heq
  cases hz : (x.walkParents t.hash).2 with
  | nil => exact hwalk hz
  | cons a l => simp [hz] at heq

end Instance

namespace Replica

variable {cfg : Config} {crypto : Crypto} {H : ℕ → ℕ → Bytes} {r₀ r s : Replica} {p : ℕ}

structure Opening (cfg : Config) (H : ℕ → ℕ → Bytes) (i : ℕ) (r : Replica) : Prop where
  closed : (r.inst i).view ≤ 2 → Closed (r.inst i).hashToQC
  stored : (r.inst i).view ≤ 2 → ∀ w ≤ (r.inst i).view, parentHash H i w ∈ (r.inst i).hashToQC
  silent : (r.inst i).view ≤ 2 → r.executions i = []
  first : (r.inst i).view = 3 → ∀ id, r.executions i ≠ [ExecuteMsg.copyFromTxn cfg id]

lemma opening_init (p i : ℕ) : Opening cfg H i (init cfg p) where
  closed _ := by
    refine ⟨(AList.mem_insert _).mpr (.inl rfl), ?_⟩
    refine UMap.All.insert (fun k v hk => nomatch hk) _ ?_
    exact (AList.mem_insert _).mpr (.inl rfl)
  stored _ w hw := by
    obtain rfl : w = 0 := Nat.le_zero.mp hw
    exact (AList.mem_insert _).mpr (.inl rfl)
  silent _ := by simp [executions, init]
  first h := by simp [init, Instance.init] at h

lemma Opening.congr {i : ℕ} (h : Opening cfg H i r) (hcerts : (r.inst i).SameCerts (s.inst i))
    (hexec : s.executions i = r.executions i) : Opening cfg H i s where
  closed hv := by
    rw [hcerts.hashToQC]
    exact h.closed (hcerts.view ▸ hv)
  stored hv w hw := by
    rw [hcerts.hashToQC]
    exact h.stored (hcerts.view ▸ hv) w (hcerts.view ▸ hw)
  silent hv := by
    rw [hexec]
    exact h.silent (hcerts.view ▸ hv)
  first hv := by
    rw [hexec]
    exact h.first (hcerts.view ▸ hv)

lemma Opening.storeGeneric {i : ℕ} (h : Opening cfg H i r) {m : GenericMsg} (hm : Msg.Honest cfg H p (.generic m))
    (hcur : (r.inst m.instanceId).view = m.view) : Opening cfg H i (r.storeGeneric m) := by
  have hexec : (r.storeGeneric m).executions i = r.executions i := observe_executions _ i (by rfl)
  by_cases hi : i = m.instanceId
  · subst hi
    have hstage : Stage H m.instanceId (r.inst m.instanceId).view m.highQC := hcur ▸ hm.content.2.2
    have hstore : ((r.storeGeneric m).inst m.instanceId).hashToQC =
        (r.inst m.instanceId).hashToQC.insert m.highQC.batchHash m.highQC := by
      simp [Replica.storeGeneric, Instance.storeQC]
    refine ⟨fun hv => ?_, fun hv w hw => ?_, fun hv => ?_, fun hv => ?_⟩
    all_goals rw [storeGeneric_view] at hv
    · rw [hstore]
      refine (h.closed hv).insert _ ?_
      rw [hstage.parentHash]
      exact h.stored hv _ (Nat.sub_le _ _)
    · rw [storeGeneric_view] at hw
      rw [hstore]
      exact (AList.mem_insert _).mpr (.inr (h.stored hv w hw))
    · rw [hexec]
      exact h.silent hv
    · rw [hexec]
      exact h.first hv
  · refine h.congr ?_ hexec
    simp only [Replica.storeGeneric, observe_inst, setInst_inst, Function.update_of_ne hi]
    exact .refl _

lemma Opening.advance {i : ℕ} (h : Opening cfg H i r) (hsound : Sound cfg H r) {id v : ℕ}
    (hadv : Advances cfg H r id v i) (ha : r.advanceView cfg id = some s) : Opening cfg H i s := by
  obtain ⟨hids, hqc, _⟩ := advanceView_advanced hadv ha
  obtain ⟨qc, hqceq⟩ : ∃ qc, genericQCOf (r.table id) v = qc := ⟨_, rfl⟩
  have hcert := hadv.cert
  have hcommits := hsound.two_le_of_commits hadv
  rw [hqceq] at hids hqc hcert hcommits
  have hview : (s.inst i).view = v + 1 := by rw [advanceView_view ha, if_pos hadv.inst.symm, hadv.view]
  have hexec := advanceView_executions ha i
  rw [if_pos hadv.inst.symm, hids] at hexec
  have hold : v ≤ 2 → Closed ((r.inst i).storeQC qc).hashToQC ∧ r.executions i = [] ∧
      ∀ w ≤ v + 1, parentHash H i w ∈ ((r.inst i).storeQC qc).hashToQC := by
    intro hv
    have hv' : (r.inst i).view ≤ 2 := hadv.view.le.trans hv
    have hstored := h.stored hv'
    rw [hadv.view] at hstored
    refine ⟨(h.closed hv').insert _ (hcert.parentHash ▸ hstored v le_rfl), h.silent hv', fun w hw => ?_⟩
    refine (AList.mem_insert _).mpr ?_
    by_cases hwv : w = v + 1
    · left
      rw [hwv]
      exact hcert.batchHash.symm
    · exact .inr (hstored w (by omega))
  by_cases hv : v < 2
  · have hnot : ¬ ((r.inst i).storeQC qc).Commits qc (v + 1) := fun hc => absurd (hcommits hc) (by omega)
    rw [Instance.advanced, if_neg hnot] at hqc hexec
    obtain ⟨hclosed, hsilent, hstored⟩ := hold (by omega)
    refine ⟨fun _ => ?_, fun _ w hw => ?_, fun _ => ?_, fun h3 => absurd h3 (by omega)⟩
    · rw [hqc]
      exact Instance.closed_updateQCs hclosed _ _
    · rw [hqc]
      exact Instance.mem_updateQCs (hstored w (by omega)) _
    · rw [hexec, hsilent]
      rfl
  · refine ⟨fun _ => absurd hview (by omega), fun _ => absurd hview (by omega), fun _ => absurd hview (by omega),
      fun h3 k => ?_⟩
    obtain ⟨hclosed, hsilent, _⟩ := hold (by omega)
    rw [hexec, hsilent, List.nil_append, Instance.advanced]
    split_ifs with hc
    · intro heq
      obtain ⟨a, ha⟩ := List.length_eq_one_iff.mp (by simpa using congrArg List.length heq)
      refine Instance.sendExecuteMsg_ne_singleton ?_ _ _ a ha
      have hup := Instance.closed_updateQCs hclosed qc (v + 1)
      exact hup.insert _ (hup.parent_get _)
    · exact fun heq => by cases heq

lemma opening_reach (hp : p < cfg.nodeCnt) (h : Reach (step cfg crypto) (FaultFree cfg crypto H) (init cfg p) r)
    (i : ℕ) : Opening cfg H i r := by
  apply calm_invariant hp (opening_init p i) _ h
  intro r₀ r s h₀ _ hmid hm hopen
  rcases hmid.cases h₀ hm with hq | ⟨m, hhonest, hcur, rfl⟩ | ⟨id, v, j, hadv, ha⟩
  · exact hopen.congr (hq.certs i) (hq.executions i)
  · exact hopen.storeGeneric hhonest hcur
  · by_cases hij : i = j
    · subst hij
      exact hopen.advance hmid.sound hadv ha
    · refine hopen.congr ?_ ?_
      · rw [advanceView_inst_of_ne ha (hadv.inst ▸ hij)]
        exact .refl _
      · rw [advanceView_executions ha, hadv.inst, if_neg hij, List.append_nil]

def EmitsCommitted (cfg : Config) (r : Replica) (i : ℕ) : Prop :=
  r.executions i = (List.range ((r.inst i).view - 2)).map fun w => ExecuteMsg.copyFromTxn cfg (cfg.lastTxn w i)

end Replica

namespace System

variable {cfg : Config} {crypto : Crypto} {S T : System}

lemma view_step (h : Reachable cfg crypto ∅ S) {e : Event} (hok : Allowed cfg ∅ S e)
    (hs : step cfg crypto S e = some T) (p : ℕ) {i : ℕ} (hi : i < cfg.totInstances) :
    ((T p).inst i).view = ((S p).inst i).view ∨ ((T p).inst i).view = ((S p).inst i).view + 1 := by
  obtain ⟨hreach, a, r, _, hfree, hnode, hr, heq⟩ := faultFree_step h hok hs (fits_digest (.next e h hok hs))
  rw [heq]
  by_cases hp : p = e.node
  · subst hp
    have hsteady := (Replica.calm_reach hnode (hreach _ hnode)).steady
    obtain ⟨_, hprogress⟩ := hsteady.paced.moves hsteady.alloc hsteady.fed (hsteady.moves hfree.named hr)
    rw [Function.update_self]
    exact (hprogress i hi).imp_right And.left
  · rw [Function.update_of_ne hp]
    exact .inl rfl

lemma view_mono (h : Reachable cfg crypto ∅ S) (hr : Reach (step cfg crypto) (Allowed cfg ∅) S T) (p : ℕ) {i : ℕ}
    (hi : i < cfg.totInstances) : ((S p).inst i).view ≤ ((T p).inst i).view := by
  induction hr with
  | start => exact le_rfl
  | next e hr hok hs ih =>
    rcases view_step (h.trans hr) hok hs p hi with hv | hv <;> omega

lemma exists_at_view (h : Reachable cfg crypto ∅ T) (p : ℕ) {i v : ℕ} (hi : i < cfg.totInstances)
    (hv : v ≤ ((T p).inst i).view) : ∃ S, Reachable cfg crypto ∅ S ∧ Reach (step cfg crypto) (Allowed cfg ∅) S T ∧
      ((S p).inst i).view = v := by
  induction h with
  | start => exact ⟨_, .start, .start, (Nat.le_zero.mp hv).symm⟩
  | @next S T e h hok hs ih =>
    by_cases heq : ((T p).inst i).view = v
    · exact ⟨T, .next e h hok hs, .start, heq⟩
    · have hstep := view_step h hok hs p hi
      obtain ⟨U, hU, hreach, hview⟩ := ih (by omega)
      exact ⟨U, hU, .next e hreach hok hs, hview⟩

end System

theorem committed_slots_emitted (cfg : Config) (crypto : Crypto) {T : System} (h : System.Reachable cfg crypto ∅ T)
    {p i : ℕ} (hp : p < cfg.nodeCnt) (hi : i < cfg.totInstances) :
    (∀ S, System.Reachable cfg crypto ∅ S → Reach (System.step cfg crypto) (System.Allowed cfg ∅) S T →
      (S p).EmitsCommitted cfg i) ↔ ((T p).inst i).view ≤ 2 := by
  constructor
  · intro hall
    by_contra hlate
    obtain ⟨S, hS, hreach, hview⟩ := System.exists_at_view h p (v := 3) hi (by omega)
    have hopening := Replica.opening_reach hp (System.reaches_digest hS p hp) i
    have hemits := hall S hS hreach
    rw [Replica.EmitsCommitted, hview] at hemits
    exact hopening.first hview _ hemits
  · intro hearly S hS hreach
    have hview := System.view_mono hS hreach p hi
    have hopening := Replica.opening_reach hp (System.reaches_digest hS p hp) i
    have hsub : ((S p).inst i).view - 2 = 0 := by omega
    rw [Replica.EmitsCommitted, hopening.silent (by omega), hsub]
    rfl

theorem committed_slots_emitted_two_views :
    ∃ T, System.Reachable .fourReplicas .transparent ∅ T ∧ ((T 1).inst 0).view = 2 ∧
      ∀ S, System.Reachable .fourReplicas .transparent ∅ S →
        Reach (System.step .fourReplicas .transparent) (System.Allowed .fourReplicas ∅) S T →
          (S 1).EmitsCommitted .fourReplicas 0 := by
  obtain ⟨T, hT, hp⟩ := exists_reach_of_runWith (System.step .fourReplicas .transparent)
    (System.Allowed .fourReplicas ∅) (System.init .fourReplicas) (System.twoViews 1 2)
    (fun S => decide (((S 1).inst 0).view = 2)) (by decide +kernel)
  have hview := of_decide_eq_true hp
  refine ⟨T, hT, hview, ?_⟩
  exact (committed_slots_emitted .fourReplicas .transparent hT (by decide) (by decide)).mpr hview.le

-- The first three slots are certified, and replica 0 commits the first one.
def System.threeViews : List System.Event :=
  System.twoViews 1 2 ++ System.relays [(0, 1, 10), (0, 2, 3), (2, 1, 9), (2, 0, 9)] ++ System.fillSlot 2 3 ++
    System.relays [(0, 2, 6), (0, 2, 9), (1, 2, 7), (1, 2, 10), (0, 2, 13), (0, 1, 13)]

-- The first EXECUTE of the run is for a transaction that does not exist.
theorem genesis_slot_emitted :
    ∃ S, System.Reachable .fourReplicas .transparent ∅ S ∧ ((S 0).inst 0).view = 3 ∧
      (S 0).executions 0 = [ExecuteMsg.copyFromTxn .fourReplicas 0,
        ExecuteMsg.copyFromTxn .fourReplicas (Config.fourReplicas.lastTxn 0 0)] ∧
      ¬ (S 0).EmitsCommitted .fourReplicas 0 := by
  obtain ⟨S, hS, hp⟩ := exists_reach_of_runWith (System.step .fourReplicas .transparent)
    (System.Allowed .fourReplicas ∅) (System.init .fourReplicas) System.threeViews
    (fun S => decide (((S 0).inst 0).view = 3 ∧ (S 0).executions 0 = [ExecuteMsg.copyFromTxn .fourReplicas 0,
      ExecuteMsg.copyFromTxn .fourReplicas (Config.fourReplicas.lastTxn 0 0)])) (by decide +kernel)
  obtain ⟨hview, hexec⟩ := of_decide_eq_true hp
  refine ⟨S, hS, hview, hexec, ?_⟩
  intro hemits
  rw [Replica.EmitsCommitted, hexec, hview] at hemits
  cases hemits

end SpotLess
