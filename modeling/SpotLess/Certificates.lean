import SpotLess.Pipeline

namespace SpotLess

open Lib

def Obs.OfChain : Obs → Prop
  | .advanced _ _ _ _ _ | .committed _ _ _ _ => True
  | _ => False

def Obs.slotDigest? : Obs → Option (ℕ × ℕ × Bytes)
  | .proposed i w _ hash => some (i, w, hash)
  | _ => none

namespace Replica

variable {cfg : Config} {crypto : Crypto} {H : ℕ → ℕ → Bytes} {r₀ r s : Replica} {p : ℕ}

lemma mem_trace_of_append {l : List Obs} (h : s.trace = r.trace ++ l) (hl : ∀ o ∈ l, ¬ o.OfChain) {o : Obs}
    (ho : o ∈ s.trace) (hc : o.OfChain) : o ∈ r.trace := by
  rw [h] at ho
  exact (List.mem_append.mp ho).resolve_right fun ho => hl o ho hc

lemma Midway.mem_trace (h₀ : Calm cfg H r₀) (h : Midway cfg H r₀ r) (hm : CalmMove cfg crypto H r₀ r s) {o : Obs}
    (ho : o ∈ s.trace) (hc : o.OfChain) :
    o ∈ r.trace ∨ ∃ id v i, Advances cfg H r id v i ∧ r.advanceView cfg id = some s := by
  cases hm with
  | idle hidle =>
    left
    rcases hidle.trace with heq | ⟨batch, heq⟩
    · exact heq ▸ ho
    · exact mem_trace_of_append heq (by simp [Obs.OfChain]) ho hc
  | proposal => exact .inl ho
  | generic hP hindex hview hacc =>
    left
    have hcur := hacc.current h.paced hP.honest.peer hindex hview
    rw [h.sound.lockGeneric_eq hP.honest hcur] at ho
    exact mem_trace_of_append rfl (by simp [Obs.OfChain]) ho hc
  | @vote _ id =>
    left
    rcases sendHotstuffNewview_cases cfg crypto r id with ⟨_, heq⟩ | ⟨_, hv⟩
    · exact heq ▸ ho
    · exact mem_trace_of_append hv.trace (by simp [Obs.OfChain]) ho hc
  | @count m =>
    left
    simp only [countVote, bindTxnid] at ho
    split_ifs at ho <;> exact ho
  | advance hsame hfresh hready ha =>
    obtain ⟨v, i, hadv⟩ := h.sound.advances h₀.steady.paced h.paced hsame
      (hfresh.imp fun m hm => hm.honest.peer) hready ha
    exact .inr ⟨_, v, i, hadv, ha⟩
  | batch => exact .inl (mem_trace_of_append rfl (by simp [Obs.OfChain]) ho hc)
  | announce => exact .inl (mem_trace_of_append rfl (by simp [Obs.OfChain]) ho hc)
  | execute => exact .inl ho
  | recycle => exact .inl ho

lemma advanceView_obs {id v i : ℕ} (hadv : Advances cfg H r id v i) (ha : r.advanceView cfg id = some s) {o : Obs}
    (ho : o ∈ s.trace) (hc : o.OfChain) : o ∈ r.trace ∨
      (∃ voters, o = .advanced i v id (genericQCOf (r.table id) v) voters) ∨
      ∃ y, y = (r.inst i).storeQC (genericQCOf (r.table id) v) ∧ y.Commits (genericQCOf (r.table id) v) (v + 1) ∧
        o = .committed i (sub64 id (2 * cfg.stride)) (r.table (sub64 id (2 * cfg.stride))).hash
          (y.parentOf (y.parentOf (genericQCOf (r.table id) v))).batchHash := by
  obtain ⟨_, _, rfl⟩ := advanceView_eq ha
  have hinst := installQC_inst hadv
  simp only [hadv.inst, hadv.view, enterView_trace, updateLockQC, hinst] at ho
  have hinstalled : o ∈ (r.installQC id).trace → o ∈ r.trace ∨
      ∃ voters, o = .advanced i v id (genericQCOf (r.table id) v) voters := by
    intro ho
    simp only [installQC, observe_trace, setInst_trace, setTxn_trace, hadv.inst, hadv.view] at ho
    rcases List.mem_append.mp ho with ho | ho
    · exact .inl ho
    · exact .inr ⟨_, List.mem_singleton.mp ho⟩
  split_ifs at ho with hcommit
  · simp only [commit, enqueueExecutes, observe_trace, setInst_trace] at ho
    rcases List.mem_append.mp ho with ho | ho
    · rcases List.mem_append.mp ho with ho | ho
      · exact (hinstalled ho).imp_right .inl
      · refine .inr (.inr ⟨_, rfl, hcommit, ?_⟩)
        rw [List.mem_singleton.mp ho, setInst_table, (installQC_manager r id _).1]
    · obtain ⟨k, _, rfl⟩ := List.mem_map.mp ho
      exact hc.elim
  · exact (hinstalled ho).imp_right .inl

structure Recorded (cfg : Config) (H : ℕ → ℕ → Bytes) (r : Replica) : Prop where
  advanced : ∀ i v id qc voters, .advanced i v id qc voters ∈ r.trace → i < cfg.totInstances ∧
    id = cfg.lastTxn v i ∧ CertOf H i v qc
  committed : ∀ i id hash b3, .committed i id hash b3 ∈ r.trace → hash = b3 ∧
    ∃ w, id = cfg.lastTxn w i ∧ hash = H w i

lemma Recorded.advance (h : Recorded cfg H r) (hp : Pipelined cfg H r) (ht : Tracked cfg r) (hapart : Apart cfg H)
    (hpaced : Paced cfg r) (hsound : Sound cfg H r) {id v i : ℕ} (hadv : Advances cfg H r id v i)
    (ha : r.advanceView cfg id = some s) : Recorded cfg H s := by
  have hsep := hsound.separate hapart hadv
  have hrange := Config.InRange.view_lt cfg hadv.range
  have hpiped := hp.piped i hadv.inst_lt
  rw [hadv.view] at hpiped
  refine ⟨?_, ?_⟩
  · intro j w k qc voters ho
    rcases advanceView_obs hadv ha ho trivial with ho | ⟨_, heq⟩ | ⟨_, _, _, heq⟩
    · exact h.advanced j w k qc voters ho
    · obtain ⟨rfl, rfl, rfl, rfl, rfl⟩ := Obs.advanced.inj heq
      exact ⟨hadv.inst_lt, hadv.id_eq, hadv.cert⟩
    · cases heq
  · intro j k hash b3 ho
    rcases advanceView_obs hadv ha ho trivial with ho | ⟨_, heq⟩ | ⟨_, rfl, hc, heq⟩
    · exact h.committed j k hash b3 ho
    · cases heq
    · obtain ⟨rfl, rfl, rfl, rfl⟩ := Obs.committed.inj heq
      have hv := (hpiped.commits_iff hadv.cert hsep hrange).mp hc
      obtain ⟨u, rfl⟩ : ∃ u, v = u + 2 := ⟨v - 2, by omega⟩
      have hback : sub64 id (2 * cfg.stride) = cfg.lastTxn u j := by rw [hadv.id_eq, cfg.lastTxn_two_back]
      have hhash : (r.table (cfg.lastTxn u j)).hash = H u j :=
        hp.manager_hash ht hpaced hsound hadv.inst_lt (by rw [hadv.view]; omega) (by rw [hadv.view])
      rw [hback, hhash, (hpiped.grandparent hadv.cert hsep).2.batchHash]
      exact ⟨rfl, u, rfl, rfl⟩

lemma recorded_reach (hapart : Apart cfg H) (hp : p < cfg.nodeCnt)
    (h : Reach (step cfg crypto) (FaultFree cfg crypto H) (init cfg p) r) : Recorded cfg H r := by
  suffices hall : Pipelined cfg H r ∧ Tracked cfg r ∧ Recorded cfg H r from hall.2.2
  apply calm_invariant (I := fun r => Pipelined cfg H r ∧ Tracked cfg r ∧ Recorded cfg H r) hp _ _ h
  · exact ⟨pipelined_init p, tracked_init p, by simp [init], by simp [init]⟩
  · rintro r₀ r s h₀ _ hmid hm ⟨hpipe, htrack, hrec⟩
    refine ⟨hpipe.move hapart h₀ hmid hm htrack, htrack.move hm, ?_⟩
    by_cases hadv : ∃ id v i, Advances cfg H r id v i ∧ r.advanceView cfg id = some s
    · obtain ⟨id, v, i, hadv, ha⟩ := hadv
      exact hrec.advance hpipe htrack hapart hmid.paced hmid.sound hadv ha
    · refine ⟨fun i v id qc voters ho => ?_, fun i id hash b3 ho => ?_⟩
      · exact hrec.advanced i v id qc voters ((hmid.mem_trace h₀ hm ho trivial).resolve_right hadv)
      · exact hrec.committed i id hash b3 ((hmid.mem_trace h₀ hm ho trivial).resolve_right hadv)

def digests (r : Replica) : List (ℕ × ℕ × Bytes) := r.trace.filterMap Obs.slotDigest?

lemma mem_digests {i w : ℕ} {h : Bytes} : (i, w, h) ∈ r.digests ↔ ∃ b, .proposed i w b h ∈ r.trace := by
  rw [digests, List.mem_filterMap]
  constructor
  · rintro ⟨o, ho, heq⟩
    cases o with
    | proposed j v b h' =>
      obtain ⟨rfl, rfl, rfl⟩ : j = i ∧ v = w ∧ h' = h := by simpa [Obs.slotDigest?] using heq
      exact ⟨b, ho⟩
    | _ => cases heq
  · rintro ⟨b, ho⟩
    exact ⟨_, ho, rfl⟩

end Replica

namespace System

variable {cfg : Config} {crypto : Crypto} {S : System}

-- No batch has the digest of one proposed in the three views before it in its instance.
def Apart (cfg : Config) (S : System) : Prop :=
  ∀ q < cfg.nodeCnt, ∀ q' < cfg.nodeCnt, ∀ i u w b b' h h', .proposed i u b h ∈ (S q).trace →
    .proposed i w b' h' ∈ (S q').trace → u < w → w ≤ u + 3 → h ≠ h'

instance : Decidable (Apart cfg S) :=
  decidable_of_iff (∀ a ∈ (List.range cfg.nodeCnt).flatMap fun q => (S q).digests,
      ∀ b ∈ (List.range cfg.nodeCnt).flatMap fun q => (S q).digests,
        ¬ (a.1 = b.1 ∧ a.2.1 < b.2.1 ∧ b.2.1 ≤ a.2.1 + 3 ∧ a.2.2 = b.2.2)) (by
    constructor
    · intro hall q hq q' hq' i u w b b' h h' ho ho' hlt hle heq
      refine hall (i, u, h) (List.mem_flatMap.mpr ⟨q, List.mem_range.mpr hq, Replica.mem_digests.mpr ⟨b, ho⟩⟩)
        (i, w, h') (List.mem_flatMap.mpr ⟨q', List.mem_range.mpr hq', Replica.mem_digests.mpr ⟨b', ho'⟩⟩) ?_
      exact ⟨rfl, hlt, hle, heq⟩
    · rintro hapart ⟨i, u, h⟩ ha ⟨j, w, h'⟩ hb ⟨rfl, hlt, hle, heq⟩
      obtain ⟨q, hq, ha⟩ := List.mem_flatMap.mp ha
      obtain ⟨q', hq', hb⟩ := List.mem_flatMap.mp hb
      obtain ⟨b, ho⟩ := Replica.mem_digests.mp ha
      obtain ⟨b', ho'⟩ := Replica.mem_digests.mp hb
      exact hapart q (List.mem_range.mp hq) q' (List.mem_range.mp hq') i u w b b' h h' ho ho' hlt hle heq)

lemma Apart.digest (h : Apart cfg S) : Replica.Apart cfg (S.digest cfg) := by
  intro i _ u w hlt hle hw heq
  obtain ⟨b', hb'⟩ := exists_proposed_of_digest hw
  obtain ⟨b, hb⟩ := exists_proposed_of_digest (heq ▸ hw)
  exact h _ (cfg.getViewPrimary_lt u i) _ (cfg.getViewPrimary_lt w i) i u w b b' _ _ hb hb' hlt hle heq

end System

-- Certificates, slots and hash links of a replica in step, for slots whose batches have the digests `H`.
structure Replica.InStep (cfg : Config) (H : ℕ → ℕ → Bytes) (r : Replica) : Prop where
  prepared : ∀ i < cfg.totInstances, 1 ≤ (r.inst i).view → CertOf H i ((r.inst i).view - 1) (r.inst i).preparedQC
  locked : ∀ i < cfg.totInstances, 2 ≤ (r.inst i).view → CertOf H i ((r.inst i).view - 2) (r.inst i).lockedQC ∧
    (r.inst i).lockedQC.batchHash = (r.inst i).preparedQC.parentHash
  built : ∀ i v id qc voters, .advanced i v id qc voters ∈ r.trace → id = cfg.lastTxn v i ∧ CertOf H i v qc
  committed : ∀ i id hash b3, .committed i id hash b3 ∈ r.trace → hash = b3 ∧
    ∃ w, id = cfg.lastTxn w i ∧ hash = H w i

lemma Stage.certOf {H : ℕ → ℕ → Bytes} {i v : ℕ} {qc : QuorumCertificate} (h : Stage H i v qc) (hv : 1 ≤ v) :
    CertOf H i (v - 1) qc := by
  cases h with
  | genesis => omega
  | cert h => exact h

theorem pipeline_in_step (cfg : Config) (crypto : Crypto) {S : System} (h : System.Reachable cfg crypto ∅ S)
    (hapart : System.Apart cfg S) {p : ℕ} (hp : p < cfg.nodeCnt) : (S p).InStep cfg (S.digest cfg) := by
  have hreach := System.reaches_digest h p hp
  have hsound := (Replica.calm_reach hp hreach).sound
  obtain ⟨hpipe, _⟩ := Replica.pipelined_reach hapart.digest hp hreach
  have hrec := Replica.recorded_reach hapart.digest hp hreach
  have hprep : ∀ i < cfg.totInstances, 1 ≤ ((S p).inst i).view →
      CertOf (S.digest cfg) i (((S p).inst i).view - 1) ((S p).inst i).preparedQC :=
    fun i hi hv => (hsound.stage i hi).certOf hv
  refine ⟨hprep, ?_, fun i v id qc voters ho => (hrec.advanced i v id qc voters ho).2, hrec.committed⟩
  intro i hi hv
  have hlocked := (hpipe.piped i hi).locked.certOf (by omega)
  refine ⟨hlocked, ?_⟩
  have hview : ((S p).inst i).view - 1 = (((S p).inst i).view - 1 - 1) + 1 := by omega
  rw [(hprep i hi (by omega)).parentHash, hview]
  exact hlocked.batchHash

namespace System

def sampleBatch (key : ℕ) : ClientQueryBatch := ⟨9, (List.range 5).map fun ts => ⟨[⟨key, ts⟩], ts, 9⟩⟩

-- A client batch arrives, is proposed in the current view of instance 0 and announced.
def fillSlot (p key : ℕ) : List Event :=
  .act p (.clientBatch 0 (sampleBatch key)) ::
    List.replicate 6 (.act p (.proposalThread 0 0)) ++ List.replicate 6 (.act p (.genericThread 0 false))

def relays (l : List (ℕ × ℕ × ℕ)) : List Event := l.map fun t => .relay t.1 t.2.1 t.2.2

-- Replicas 0, 1 and 2 fill and certify the first two slots; replica 1 enters view 2.
def twoViews (key key' : ℕ) : List Event :=
  fillSlot 0 key ++ relays [(1, 0, 0), (2, 0, 1), (1, 0, 3), (2, 0, 4), (1, 0, 6), (2, 0, 7), (1, 2, 0), (2, 1, 1),
    (0, 1, 0), (0, 2, 1)] ++
  fillSlot 1 key' ++ relays [(0, 1, 3), (2, 1, 4), (0, 1, 6), (2, 1, 7), (1, 0, 10), (1, 2, 4)]

end System

theorem pipeline_in_step_two_views :
    ∃ S, System.Reachable .fourReplicas .transparent ∅ S ∧ ((S 1).inst 0).view = 2 ∧
      (S 1).InStep .fourReplicas (S.digest .fourReplicas) := by
  obtain ⟨S, hS, hp⟩ := exists_reach_of_runWith (System.step .fourReplicas .transparent)
    (System.Allowed .fourReplicas ∅) (System.init .fourReplicas) (System.twoViews 1 2)
    (fun S => decide (System.Apart .fourReplicas S ∧ ((S 1).inst 0).view = 2)) (by decide +kernel)
  obtain ⟨hapart, hview⟩ := of_decide_eq_true hp
  exact ⟨S, hS, hview, pipeline_in_step .fourReplicas .transparent hS hapart (by decide)⟩

-- The second batch takes the first one's place in `hash_to_QC`, and the first slot is never locked.
theorem pipeline_out_of_step :
    ∃ S, System.Reachable .fourReplicas .transparent ∅ S ∧ ((S 1).inst 0).view = 2 ∧
      ((S 1).inst 0).lockedQC.genesis = true ∧ ¬ (S 1).InStep .fourReplicas (S.digest .fourReplicas) := by
  obtain ⟨S, hS, hp⟩ := exists_reach_of_runWith (System.step .fourReplicas .transparent)
    (System.Allowed .fourReplicas ∅) (System.init .fourReplicas) (System.twoViews 1 1)
    (fun S => decide (((S 1).inst 0).view = 2 ∧ ((S 1).inst 0).lockedQC.genesis = true)) (by decide +kernel)
  obtain ⟨hview, hgenesis⟩ := of_decide_eq_true hp
  refine ⟨S, hS, hview, hgenesis, ?_⟩
  intro hstep
  have hcert := (hstep.locked 0 (by decide) hview.ge).1.genesis
  rw [hgenesis] at hcert
  cases hcert

end SpotLess
