import SpotLess.Recovery

namespace SpotLess

open Lib

lemma Executor.pop_turn {cfg : Config} {e x : Executor} {j : ℕ} {table : ℕ → TxnManager}
    (h : e.step cfg (.pop j table) = some x) : ∃ m, e.queue[j]? = some m ∧
      (m.txnId ≤ e.nextIndex ∧ x = { e with queue := e.queue.eraseIdx j } ∨
        m.txnId ≠ e.expectedExecuteCount ∧ x = { e with queue := e.queue.eraseIdx j ++ [m] } ∨
        m.txnId = e.expectedExecuteCount ∧ e.expectedExecuteCount + cfg.batchSize + 4 < 2 ^ 64 ∧
          x = { e with queue := e.queue.eraseIdx j }.processExecute cfg table m) := by
  simp only [step] at h
  split at h
  · rename_i m hget
    refine ⟨m, hget, ?_⟩
    simp only [handle] at h
    split_ifs at h with hlate hturn hrange
    · exact .inl ⟨hlate, (Option.some.inj h).symm⟩
    · exact .inr (.inl ⟨hturn, (Option.some.inj h).symm⟩)
    · exact .inr (.inr ⟨not_not.mp hturn, hrange, (Option.some.inj h).symm⟩)
  · cases h

namespace TimedReplica

variable {cfg : Config} {crypto : Crypto} {R S : TimedReplica cfg} {p : ℕ}

section Step

abbrev AnyMoves (cfg : Config) (crypto : Crypto) (r : Replica) :=
  Replica.Moves cfg crypto (fun _ => True) (fun _ => True) (fun _ _ => True) r r

-- `sufficient_voters` has counted a vote, and completed the quorum or not.
inductive Counts (R : TimedReplica cfg) (i : Fin cfg.totInstances) (view voter : ℕ) : TimedReplica cfg → Prop
  | more (h : (R.faults.sufficientVoters (callOf i view voter)).1 = false) :
      Counts R i view voter (R.count (callOf i view voter))
  | last (h : (R.faults.sufficientVoters (callOf i view voter)).1 = true) (hrange : cfg.InRange view) :
      Counts R i view voter { R.count (callOf i view voter) with
        base := enterFailed cfg R.base i view, failures := R.failures ++ [(i.val, view)] }

lemma countFailed_cases {i view voter : ℕ} (h : R.countFailed i view voter = some S) :
    ∃ hi : i < cfg.totInstances, view < 2 ^ 64 ∧ Counts R ⟨i, hi⟩ view voter S := by
  simp only [countFailed] at h
  split_ifs at h with hcond hans
  · simp only [advanceFailedView] at h
    split_ifs at h with hrange
    obtain rfl := Option.some.inj h
    exact ⟨hcond.1, hcond.2, .last hans hrange⟩
  · obtain rfl := Option.some.inj h
    exact ⟨hcond.1, hcond.2, .more (by simpa using hans)⟩

-- What `send_failed_new_view` does before it counts the replica's own vote.
def announceTimeout (R : TimedReplica cfg) (i view : ℕ) : TimedReplica cfg :=
  { R with
    base := R.base.send (R.base.others cfg) (.sync (failedSync R.base i view))
    timeouts := R.timeouts ++ [(i, view)] }

structure TimesOut (R : TimedReplica cfg) (i view : ℕ) : Prop where
  current : view = (R.base.inst i).view
  correct : TimerConfig.failing R.base.nodeId = false
  late : cfg.crashView < view
  silent : TimerConfig.failing (cfg.getViewPrimary view i) = true

inductive Steps (crypto : Crypto) (R : TimedReplica cfg) : Event → TimedReplica cfg → Prop
  | moves {e : Event} {r : Replica} (h : AnyMoves cfg crypto R.base r) : Steps crypto R e { R with base := r }
  | vote {m : SyncMsg} {S : TimedReplica cfg} (hvote : m.nonVote = true) (hi : m.instanceId < cfg.totInstances)
      (hview : m.view < 2 ^ 64) (hfresh : (R.base.inst m.instanceId).view ≤ m.view)
      (h : Counts R ⟨m.instanceId, hi⟩ m.view m.returnNodeId S) : Steps crypto R (.base (.deliver (.sync m))) S
  | timeout {i view : ℕ} {S : TimedReplica cfg} (hi : i < cfg.totInstances) (hview : view < 2 ^ 64)
      (hout : R.TimesOut i view) (h : Counts (R.announceTimeout i view) ⟨i, hi⟩ view R.base.nodeId S) :
      Steps crypto R (.timeout i) S

lemma lift_cases {r : Option Replica} (h : R.lift r = some S) : ∃ s, r = some s ∧ S = { R with base := s } := by
  obtain ⟨s, hs, rfl⟩ := Option.map_eq_some_iff.mp h
  exact ⟨s, hs, rfl⟩

lemma base_moves {e : Replica.Event} {r : Replica} (hok : Pooled cfg R (.base e))
    (hs : R.base.step cfg crypto e = some r) : AnyMoves cfg crypto R.base r := by
  refine Replica.step_moves ?_ (fun _ _ _ => trivial) (fun _ _ => trivial) hs
  cases e with
  | proposalThread => exact fun _ _ _ => trivial
  | recycle => exact hok
  | _ => trivial

lemma drop_moves {r : Replica} {i : ℕ} {m : GenericMsg} {rest : List GenericMsg}
    (h : (r.inst i).priorQueue = m :: rest) :
    AnyMoves cfg crypto r (r.setInst i { r.inst i with priorQueue := rest }) := by
  refine .single (.idle ⟨rfl, fun j => ?_, fun j m' hm' => ?_, rfl, rfl, rfl, .inl rfl⟩)
  · by_cases hj : j = i
    · subst hj
      rw [Replica.setInst_inst, Function.update_self]
      exact ⟨_, _, rfl⟩
    · rw [Replica.setInst_inst, Function.update_of_ne hj]
      exact .refl _
  · by_cases hj : j = i
    · subst hj
      simp only [Replica.queues, Replica.setInst_inst, Function.update_self] at hm' ⊢
      rw [h]
      exact .inl (List.mem_cons_of_mem _ hm')
    · rw [Replica.queues, Replica.setInst_inst, Function.update_of_ne hj] at hm'
      exact .inl hm'

lemma deliver_cases {m : Msg} (hs : R.deliver crypto m = some S) :
    Steps crypto R (.base (.deliver m)) S := by
  have lifted : ∀ {m : Msg}, R.lift (R.base.handle cfg crypto m) = some S → Steps crypto R (.base (.deliver m)) S := by
    intro m h
    obtain ⟨r, hr, rfl⟩ := lift_cases h
    exact .moves (base_moves (e := .deliver m) trivial hr)
  simp only [deliver] at hs
  split_ifs at hs
  · obtain rfl := Option.some.inj hs
    exact .moves .refl
  · split at hs
    · rename_i m _
      split_ifs at hs with hstale hvote
      · obtain rfl := Option.some.inj hs
        exact .moves .refl
      · obtain ⟨hi, hview, hc⟩ := countFailed_cases hs
        refine .vote hvote hi hview ?_ hc
        exact Nat.le_of_not_lt fun hlt => hstale (.inl hlt)
      · exact lifted (m := .sync m) hs
    · exact lifted hs

lemma step_cases {e : Event} (hok : Pooled cfg R e) (hs : R.step crypto e = some S) : Steps crypto R e S := by
  have lifted : ∀ {e : Replica.Event}, Pooled cfg R (.base e) → R.lift (R.base.step cfg crypto e) = some S →
      Steps crypto R (.base e) S := by
    intro e hok h
    obtain ⟨r, hr, rfl⟩ := lift_cases h
    exact .moves (base_moves hok hr)
  cases e with
  | base e =>
    cases e with
    | deliver m => exact deliver_cases hs
    | replay i =>
      simp only [step, replay] at hs
      split_ifs at hs
      · split at hs
        · cases hs
        · rename_i m rest hq
          obtain rfl := Option.some.inj hs
          exact .moves (drop_moves hq)
      · exact lifted hok hs
    | clientBatch | proposalThread | genericThread | workerGenericP | execute | recycle => exact lifted hok hs
  | timeout i =>
    simp only [step, timeout] at hs
    split_ifs at hs with hcond
    obtain ⟨hi, hview, hc⟩ := countFailed_cases hs
    exact .timeout hi hview ⟨rfl, hcond.1, hcond.2.1, hcond.2.2⟩ hc
  | discard k =>
    simp only [step, discard] at hs
    split_ifs at hs
    obtain rfl := Option.some.inj hs
    exact .moves (Replica.moves_of_threads rfl rfl rfl rfl rfl rfl)

end Step

section Failures

def placeOf (c : FaultManager.Call cfg) : ℕ × ℕ := (c.instanceId, c.view.toNat)

lemma placeOf_callOf {i : Fin cfg.totInstances} {view voter : ℕ} (h : view < 2 ^ 64) :
    placeOf (callOf i view voter) = (i.val, view) := by
  simp only [placeOf, callOf, UInt64.toNat_ofNat', Prod.mk.injEq, true_and]
  exact Nat.mod_eq_of_lt h

lemma enterFailed_view (r : Replica) (i view j : ℕ) :
    ((enterFailed cfg r i view).inst j).view = if j = i then view + 1 else (r.inst j).view := by
  have hset : ((enterFailed cfg r i view).inst j) =
      Function.update r.inst i
        { r.inst i with view := view + 1, tempQueue := [], priorQueue := (r.inst i).priorQueue ++ (r.inst i).tempQueue }
        j := by
    simp only [enterFailed]
    split_ifs <;> rfl
  rw [hset]
  by_cases hj : j = i
  · subst hj
    rw [Function.update_self, if_pos rfl]
  · rw [Function.update_of_ne hj, if_neg hj]

lemma AnyMoves.view_le {r s : Replica} (h : AnyMoves cfg crypto r s) (i : ℕ) : (r.inst i).view ≤ (s.inst i).view :=
  h.invariant (I := fun u => (r.inst i).view ≤ (u.inst i).view) (fun _ _ hm hle => hle.trans (hm.view_le i)) le_rfl

-- A view fails in the call that completes its quorum, and stays behind.
structure Kept (R : TimedReplica cfg) : Prop where
  faults : R.faults = (FaultManager.init cfg).after R.counted
  failures : R.failures = (FaultManager.granted R.counted).map placeOf
  left : ∀ f ∈ R.failures, f.2 < (R.base.inst f.1).view

lemma kept_init (p : ℕ) : Kept (init cfg p) := ⟨rfl, rfl, nofun⟩

lemma Kept.base (h : Kept R) {r : Replica} (hview : ∀ i, (R.base.inst i).view ≤ (r.inst i).view) :
    Kept { R with base := r } :=
  ⟨h.faults, h.failures, fun f hf => (h.left f hf).trans_le (hview f.1)⟩

lemma Kept.counts (h : Kept R) {i : Fin cfg.totInstances} {view voter : ℕ} (hview : view < 2 ^ 64)
    (hfresh : (R.base.inst i).view ≤ view) (hc : Counts R i view voter S) : Kept S := by
  have hfaults : (R.count (callOf i view voter)).faults =
      (FaultManager.init cfg).after (R.counted ++ [callOf i view voter]) := by
    rw [FaultManager.after_snoc, ← h.faults]
    rfl
  cases hc with
  | more hans =>
    refine ⟨hfaults, ?_, h.left⟩
    change R.failures = (FaultManager.granted (R.counted ++ [_])).map placeOf
    rw [FaultManager.granted_snoc, ← h.faults, hans, h.failures]
    simp
  | last hans =>
    refine ⟨hfaults, ?_, ?_⟩
    · change R.failures ++ _ = (FaultManager.granted (R.counted ++ [_])).map placeOf
      rw [FaultManager.granted_snoc, ← h.faults, hans, h.failures]
      simp [placeOf_callOf hview]
    · intro f hf
      change f.2 < ((enterFailed cfg R.base i view).inst f.1).view
      rw [enterFailed_view]
      rcases List.mem_append.mp hf with hf | hf
      · have hleft := h.left f hf
        split_ifs with hi
        · rw [hi] at hleft
          omega
        · exact hleft
      · obtain rfl := List.mem_singleton.mp hf
        rw [if_pos rfl]
        exact Nat.lt_succ_self _

lemma Kept.step (h : Kept R) {e : Event} (hok : Pooled cfg R e) (hs : R.step crypto e = some S) : Kept S := by
  cases step_cases hok hs with
  | moves hm => exact h.base hm.view_le
  | vote _ hi hview hfresh hc => exact h.counts hview hfresh hc
  | @timeout i view _ hi hview hout hc =>
    have hann : Kept (R.announceTimeout i view) := ⟨h.faults, h.failures, h.left⟩
    exact hann.counts (i := ⟨i, hi⟩) hview hout.current.ge hc

lemma kept_reach (h : Reach (step crypto) (Pooled cfg) (init cfg p) R) : Kept R :=
  h.invariant Kept (kept_init p) fun _ _ _ _ hok hs hk => hk.step hok hs

theorem failures_exact (h : Reach (step crypto) (Pooled cfg) (init cfg p) R) :
    R.failures.Nodup ∧
      (∀ (i : Fin cfg.totInstances) (view : UInt64),
        (i.val, view.toNat) ∈ R.failures ↔ cfg.nf ≤ (FaultManager.distinctVoters R.counted (i, view)).card) ∧
      ∀ f ∈ R.failures, f.1 < cfg.totInstances ∧ f.2 < (R.base.inst f.1).view := by
  have hk := kept_reach h
  have hinj : Function.Injective fun q : Fin cfg.totInstances × UInt64 => ((q.1 : ℕ), q.2.toNat) := by
    rintro ⟨i, v⟩ ⟨j, w⟩ heq
    obtain ⟨hi, hv⟩ := Prod.mk.inj heq
    exact Prod.ext (Fin.ext hi) (UInt64.toNat_inj.mp hv)
  have hplaces : R.failures =
      ((FaultManager.granted R.counted).map FaultManager.Call.place).map fun q => ((q.1 : ℕ), q.2.toNat) := by
    rw [hk.failures, List.map_map]
    rfl
  refine ⟨?_, fun i view => ⟨fun hmem => ?_, fun hcard => ?_⟩, fun f hf => ⟨?_, hk.left f hf⟩⟩
  · rw [hplaces]
    exact (FaultManager.nodup_granted _).map hinj
  · rw [hplaces] at hmem
    have hmem' := (List.mem_map_of_injective hinj (a := (i, view))).mp hmem
    obtain ⟨c, hc, hplace⟩ := List.mem_map.mp hmem'
    rw [← hplace]
    exact FaultManager.mem_granted hc
  · obtain ⟨c, hc, hplace⟩ := FaultManager.exists_granted hcard
    rw [hplaces]
    exact List.mem_map.mpr ⟨_, List.mem_map.mpr ⟨c, hc, hplace⟩, rfl⟩
  · rw [hplaces] at hf
    obtain ⟨q, _, rfl⟩ := List.mem_map.mp hf
    exact q.1.isLt

-- The other nodes vote for leaving view `0` of instance `0`; the execute thread takes the first message.
def firstSlotFails (cfg : Config) : List Event :=
  [1, 2, 3].map (fun q => .base (.deliver (.sync (failedSync (.init cfg q) 0 0)))) ++ [.base (.execute 0)]

theorem failures_exact_first_slot : ∃ R : TimedReplica .fourReplicas,
    Reach (step .transparent) (Pooled .fourReplicas) (init .fourReplicas 0) R ∧ R.failures = [(0, 0)] ∧
      Config.fourReplicas.nf ≤ (FaultManager.distinctVoters R.counted (⟨0, by decide⟩, 0)).card ∧ 0 < (R.base.inst 0).view := by
  obtain ⟨R, hr, h⟩ := exists_reach_of_runWith (step .transparent) (Pooled .fourReplicas) (init .fourReplicas 0)
    (firstSlotFails .fourReplicas) (fun R => decide (R.failures = [(0, 0)])) (by decide +kernel)
  have hfail := of_decide_eq_true h
  obtain ⟨-, hiff, hleft⟩ := failures_exact hr
  have hmem : (0, 0) ∈ R.failures := hfail ▸ List.mem_singleton_self _
  exact ⟨R, hr, hfail, (hiff ⟨0, by decide⟩ 0).mp hmem, (hleft _ hmem).2⟩

end Failures

section Passing

variable {fs : List (ℕ × ℕ)} {r s : Replica} {k : ℕ} {skipped : Finset ℕ}

lemma failedExecute_txnId (cfg : Config) (i view : ℕ) :
    (failedExecute cfg i view).txnId = cfg.slot view i * cfg.batchSize + cfg.batchSize - 2 := by
  simp only [failedExecute, Config.slot, Nat.mul_comm cfg.totInstances view]
  rw [Nat.succ_mul]

def runSlots (k : ℕ) (skipped : Finset ℕ) : List ℕ := (List.range k).filter fun c => c ∉ skipped

lemma runSlots_succ (h : ∀ c ∈ skipped, c < k) : runSlots (k + 1) skipped = runSlots k skipped ++ [k] := by
  have hk : k ∉ skipped := fun hmem => (h k hmem).ne rfl
  rw [runSlots, List.range_succ, List.filter_append, runSlots]
  simp [hk]

lemma runSlots_insert (k : ℕ) (skipped : Finset ℕ) : runSlots (k + 1) (insert k skipped) = runSlots k skipped := by
  rw [runSlots, List.range_succ, List.filter_append]
  simp only [Finset.mem_insert, true_or, not_true, decide_false, Bool.false_eq_true, not_false_eq_true,
    List.filter_cons_of_neg, List.filter_nil, List.append_nil, runSlots]
  refine List.filter_congr fun c hc => ?_
  have hne : c ≠ k := (List.mem_range.mp hc).ne
  simp [hne]

structure Passes (cfg : Config) (fs : List (ℕ × ℕ)) (r : Replica) (k : ℕ) (skipped : Finset ℕ) : Prop where
  nextIndex : r.exec.nextIndex = k * cfg.batchSize
  expected : r.exec.expectedExecuteCount = k * cfg.batchSize + cfg.batchSize - 2
  skips : ∀ c ∈ skipped, c < k ∧ (c % cfg.totInstances, c / cfg.totInstances) ∈ fs
  ran : r.exec.ran.map Prod.fst = (runSlots k skipped).flatMap fun c => List.range' (c * cfg.batchSize) cfg.batchSize
  answers : r.exec.responses.map ClientResponse.index =
    (runSlots k skipped).map fun c => List.range' (c * cfg.batchSize) cfg.batchSize
  handed : ∀ c ∈ runSlots k skipped,
    ∃ i, ExecuteMsg.copyFromTxn cfg (c * cfg.batchSize + cfg.batchSize - 1) ∈ r.executions i
  queued : ∀ m ∈ r.exec.queue, (∃ i id, m = ExecuteMsg.copyFromTxn cfg id ∧ m ∈ r.executions i) ∨
    ∃ f ∈ fs, m = failedExecute cfg f.1 f.2
  waiting : ∀ f ∈ fs, cfg.slot f.2 f.1 < k ∨ failedExecute cfg f.1 f.2 ∈ r.exec.queue

lemma passes_init (p : ℕ) : Passes cfg [] (.init cfg p) 0 ∅ where
  nextIndex := by simp [Replica.init, Executor.init]
  expected := by simp [Replica.init, Executor.init]
  skips := nofun
  ran := rfl
  answers := rfl
  handed := nofun
  queued := nofun
  waiting := nofun

lemma Passes.extend (h : Passes cfg fs r k skipped) {l : List ExecuteMsg}
    (hexec : s.exec = { r.exec with queue := r.exec.queue ++ l }) (htrace : ∀ i, ∀ m ∈ r.executions i, m ∈ s.executions i)
    {fs' : List (ℕ × ℕ)} (hfs : ∀ f ∈ fs, f ∈ fs')
    (hl : ∀ m ∈ l, (∃ i id, m = ExecuteMsg.copyFromTxn cfg id ∧ m ∈ s.executions i) ∨
      ∃ f ∈ fs', m = failedExecute cfg f.1 f.2)
    (hwait : ∀ f ∈ fs', f ∈ fs ∨ failedExecute cfg f.1 f.2 ∈ l) : Passes cfg fs' s k skipped where
  nextIndex := by rw [hexec, h.nextIndex]
  expected := by rw [hexec, h.expected]
  skips c hc := ⟨(h.skips c hc).1, hfs _ (h.skips c hc).2⟩
  ran := by rw [hexec, h.ran]
  answers := by rw [hexec, h.answers]
  handed c hc := by
    obtain ⟨i, hi⟩ := h.handed c hc
    exact ⟨i, htrace i _ hi⟩
  queued m hm := by
    rw [hexec] at hm
    rcases List.mem_append.mp hm with hm | hm
    · rcases h.queued m hm with ⟨i, id, heq, hi⟩ | ⟨f, hf, heq⟩
      · exact .inl ⟨i, id, heq, htrace i m hi⟩
      · exact .inr ⟨f, hfs f hf, heq⟩
    · exact hl m hm
  waiting f hf := by
    rw [hexec, List.mem_append]
    rcases hwait f hf with hf | hf
    · exact (h.waiting f hf).imp_right .inl
    · exact .inr (.inr hf)

lemma Passes.wait_erase (h : Passes cfg fs r k skipped) {j k' : ℕ} {m : ExecuteMsg} (hget : r.exec.queue[j]? = some m)
    (hle : k ≤ k') (hm : ∀ f ∈ fs, m = failedExecute cfg f.1 f.2 → cfg.slot f.2 f.1 < k') :
    ∀ f ∈ fs, cfg.slot f.2 f.1 < k' ∨ failedExecute cfg f.1 f.2 ∈ r.exec.queue.eraseIdx j := by
  intro f hf
  rcases h.waiting f hf with hlt | hmem
  · exact .inl (hlt.trans_le hle)
  · obtain ⟨n, hn⟩ := List.mem_iff_getElem?.mp hmem
    by_cases hnj : n = j
    · subst hnj
      rw [hget] at hn
      exact .inl (hm f hf (Option.some.inj hn))
    · exact .inr (List.mem_eraseIdx_iff_getElem?.mpr ⟨n, hnj, hn⟩)

lemma slot_lt_of_late {i view : ℕ} (h : (failedExecute cfg i view).txnId ≤ k * cfg.batchSize) : cfg.slot view i < k := by
  have hb := cfg.five_le_batch
  rw [failedExecute_txnId] at h
  by_contra hge
  have hmul := Nat.mul_le_mul_right cfg.batchSize (Nat.le_of_not_lt hge)
  omega

lemma slot_of_turn {i view : ℕ} (h : (failedExecute cfg i view).txnId = k * cfg.batchSize + cfg.batchSize - 2) :
    cfg.slot view i = k := by
  have hb := cfg.five_le_batch
  rw [failedExecute_txnId] at h
  exact Nat.eq_of_mul_eq_mul_right cfg.batchSize_pos (by omega)

lemma Passes.run (h : Passes cfg fs r k skipped) {j : ℕ} {i n : ℕ}
    (hget : r.exec.queue[j]? = some (ExecuteMsg.copyFromTxn cfg n))
    (hmem : ExecuteMsg.copyFromTxn cfg n ∈ r.executions i) (hid : n = k * cfg.batchSize + cfg.batchSize - 1)
    (hexec : s.exec = { r.exec with queue := r.exec.queue.eraseIdx j }.processExecute cfg r.table
      (ExecuteMsg.copyFromTxn cfg n))
    (htrace : ∀ i, s.executions i = r.executions i) : Passes cfg fs s (k + 1) skipped := by
  have hb := cfg.five_le_batch
  have hids : Executor.executeIds (ExecuteMsg.copyFromTxn cfg n) = List.range' (k * cfg.batchSize) cfg.batchSize := by
    rw [hid]
    exact Executor.executeIds_expected cfg k
  have hslots := runSlots_succ fun c hc => (h.skips c hc).1
  have htxn : (ExecuteMsg.copyFromTxn cfg n).txnId = k * cfg.batchSize + cfg.batchSize - 2 := by
    change sub64 n 1 = _
    rw [sub64_of_le (by omega), hid]
    omega
  have hrun : s.exec = { r.exec with
      nextIndex := r.exec.nextIndex + cfg.batchSize
      expectedExecuteCount := cfg.batchSize + (ExecuteMsg.copyFromTxn cfg n).txnId
      queue := r.exec.queue.eraseIdx j
      ran := r.exec.ran ++ (Executor.executeIds (ExecuteMsg.copyFromTxn cfg n)).map fun id => (id, r.table id)
      responses := r.exec.responses ++
        [Executor.respond (Executor.executeIds (ExecuteMsg.copyFromTxn cfg n)) r.table] } := hexec
  rw [hids, htxn] at hrun
  refine ⟨?_, ?_, ?_, ?_, ?_, ?_, ?_, ?_⟩
  · rw [hrun, Nat.succ_mul, h.nextIndex]
  · rw [hrun, Nat.succ_mul]
    change cfg.batchSize + _ = _
    omega
  · exact fun c hc => ⟨(h.skips c hc).1.trans (Nat.lt_succ_self k), (h.skips c hc).2⟩
  · rw [hrun, hslots, List.flatMap_append, List.flatMap_singleton, List.map_append, List.map_map, h.ran]
    change _ ++ (List.range' (k * cfg.batchSize) cfg.batchSize).map id = _
    rw [List.map_id]
  · rw [hrun, hslots, List.map_append, List.map_append, h.answers]
    rfl
  · intro c hc
    simp only [htrace]
    rw [hslots] at hc
    rcases List.mem_append.mp hc with hc | hc
    · exact h.handed c hc
    · rw [List.mem_singleton.mp hc, ← hid]
      exact ⟨i, hmem⟩
  · intro m hm
    simp only [htrace]
    rw [hrun] at hm
    exact h.queued m (List.mem_of_mem_eraseIdx hm)
  · rw [hrun]
    refine h.wait_erase hget (Nat.le_succ k) fun f _ heq => ?_
    have hvalid : (ExecuteMsg.copyFromTxn cfg n).valid = (failedExecute cfg f.1 f.2).valid := by rw [heq]
    cases hvalid

lemma Passes.skip (h : Passes cfg fs r k skipped) {j : ℕ} {f : ℕ × ℕ} (hf : f ∈ fs) (hinst : f.1 < cfg.totInstances)
    (hget : r.exec.queue[j]? = some (failedExecute cfg f.1 f.2)) (hslot : cfg.slot f.2 f.1 = k)
    (hexec : s.exec = { r.exec with queue := r.exec.queue.eraseIdx j }.processExecute cfg r.table
      (failedExecute cfg f.1 f.2))
    (htrace : ∀ i, s.executions i = r.executions i) : Passes cfg fs s (k + 1) (insert k skipped) := by
  have hb := cfg.five_le_batch
  have htxn := failedExecute_txnId cfg f.1 f.2
  rw [hslot] at htxn
  have hpass : s.exec = { r.exec with
      nextIndex := r.exec.nextIndex + cfg.batchSize
      expectedExecuteCount := cfg.batchSize + (failedExecute cfg f.1 f.2).txnId
      queue := r.exec.queue.eraseIdx j } := hexec
  rw [htxn] at hpass
  refine ⟨?_, ?_, ?_, ?_, ?_, ?_, ?_, ?_⟩
  · rw [hpass, Nat.succ_mul, h.nextIndex]
  · rw [hpass, Nat.succ_mul]
    change cfg.batchSize + _ = _
    omega
  · intro c hc
    rcases Finset.mem_insert.mp hc with rfl | hc
    · refine ⟨Nat.lt_succ_self c, ?_⟩
      rw [← hslot, cfg.slot_mod _ hinst, cfg.slot_div _ hinst]
      exact hf
    · exact ⟨(h.skips c hc).1.trans (Nat.lt_succ_self k), (h.skips c hc).2⟩
  · rw [hpass, runSlots_insert, h.ran]
  · rw [hpass, runSlots_insert, h.answers]
  · intro c hc
    simp only [htrace]
    rw [runSlots_insert] at hc
    exact h.handed c hc
  · intro m hm
    simp only [htrace]
    rw [hpass] at hm
    exact h.queued m (List.mem_of_mem_eraseIdx hm)
  · rw [hpass]
    refine h.wait_erase hget (Nat.le_succ k) fun g _ heq => ?_
    have hsame : (failedExecute cfg g.1 g.2).txnId = k * cfg.batchSize + cfg.batchSize - 2 := by rw [← heq, htxn]
    exact (slot_of_turn hsame).trans_lt (Nat.lt_succ_self k)

lemma Passes.pop (h : Passes cfg fs r k skipped) (hinst : ∀ f ∈ fs, f.1 < cfg.totInstances) {j : ℕ}
    (hpop : r.exec.step cfg (.pop j r.table) = some s.exec) (htrace : ∀ i, s.executions i = r.executions i) :
    ∃ k' skipped', Passes cfg fs s k' skipped' := by
  have quiet : ∀ {q : List ExecuteMsg}, s.exec = { r.exec with queue := q } → (∀ m ∈ q, m ∈ r.exec.queue) →
      (∀ f ∈ fs, cfg.slot f.2 f.1 < k ∨ failedExecute cfg f.1 f.2 ∈ q) → Passes cfg fs s k skipped := by
    intro q hq hsub hwait
    refine ⟨by rw [hq, h.nextIndex], by rw [hq, h.expected], h.skips, by rw [hq, h.ran], by rw [hq, h.answers], ?_, ?_, ?_⟩
    · simp only [htrace]
      exact h.handed
    · intro m hm
      simp only [htrace]
      rw [hq] at hm
      exact h.queued m (hsub m hm)
    · rwa [hq]
  obtain ⟨m, hget, ⟨hlate, heq⟩ | ⟨_, heq⟩ | ⟨hturn, hrange, heq⟩⟩ := Executor.pop_turn hpop
  · refine ⟨k, skipped, quiet heq (fun _ hm => List.mem_of_mem_eraseIdx hm) (h.wait_erase hget le_rfl ?_)⟩
    rintro f - rfl
    rw [h.nextIndex] at hlate
    exact slot_lt_of_late hlate
  · refine ⟨k, skipped, quiet heq (fun m' hm' => ?_) fun f hf => ?_⟩
    · rcases List.mem_append.mp hm' with hm' | hm'
      · exact List.mem_of_mem_eraseIdx hm'
      · rw [List.mem_singleton.mp hm']
        exact List.mem_of_getElem? hget
    · rcases h.waiting f hf with hlt | hmem
      · exact .inl hlt
      · obtain ⟨n, hn⟩ := List.mem_iff_getElem?.mp hmem
        right
        rw [List.mem_append, List.mem_singleton]
        by_cases hnj : n = j
        · subst hnj
          rw [hget] at hn
          exact .inr (Option.some.inj hn).symm
        · exact .inl (List.mem_eraseIdx_iff_getElem?.mpr ⟨n, hnj, hn⟩)
  · rw [h.expected] at hturn hrange
    rcases h.queued m (List.mem_of_getElem? hget) with ⟨i, n, rfl, hmem⟩ | ⟨f, hf, rfl⟩
    · exact ⟨_, _, h.run hget hmem (Executor.copyFromTxn_expected cfg hturn hrange) heq htrace⟩
    · exact ⟨_, _, h.skip hf (hinst f hf) hget (slot_of_turn hturn) heq htrace⟩

lemma Passes.moves (h : Passes cfg fs r k skipped) (hinst : ∀ f ∈ fs, f.1 < cfg.totInstances)
    (hm : AnyMoves cfg crypto r s) : ∃ k' skipped', Passes cfg fs s k' skipped' := by
  refine hm.invariant (I := fun u => ∃ k' skipped', Passes cfg fs u k' skipped') ?_ ⟨k, skipped, h⟩
  rintro u v hmove ⟨k', skipped', hu⟩
  rcases hmove.emits with ⟨i, ids, htrace, hexec⟩ | ⟨j, hpop, htrace⟩
  · refine ⟨k', skipped', hu.extend hexec (fun j m hm => ?_) (fun _ hf => hf) (fun m hm => ?_) fun _ hf => .inl hf⟩
    · rw [htrace]
      exact List.mem_append_left _ hm
    · obtain ⟨n, _, rfl⟩ := List.mem_map.mp hm
      refine .inl ⟨i, n, rfl, ?_⟩
      rw [htrace, if_pos rfl]
      exact List.mem_append_right _ hm
  · exact hu.pop hinst hpop htrace

lemma enterFailed_exec (r : Replica) (i view : ℕ) :
    (enterFailed cfg r i view).exec = { r.exec with queue := r.exec.queue ++ [failedExecute cfg i view] } := by
  simp only [enterFailed]
  split_ifs <;> rfl

lemma enterFailed_trace (r : Replica) (i view : ℕ) : (enterFailed cfg r i view).trace = r.trace := by
  simp only [enterFailed]
  split_ifs <;> rfl

lemma Passes.fail (h : Passes cfg fs r k skipped) (i view : ℕ) :
    Passes cfg (fs ++ [(i, view)]) (enterFailed cfg r i view) k skipped := by
  refine h.extend (enterFailed_exec r i view) (fun j m hm => ?_) (fun _ hf => List.mem_append_left _ hf) ?_ ?_
  · rwa [Replica.executions, enterFailed_trace]
  · intro m hm
    rw [List.mem_singleton.mp hm]
    exact .inr ⟨(i, view), List.mem_append_right _ (List.mem_singleton_self _), rfl⟩
  · intro f hf
    rcases List.mem_append.mp hf with hf | hf
    · exact .inl hf
    · rw [List.mem_singleton.mp hf]
      exact .inr (List.mem_singleton_self _)

def InTurn (R : TimedReplica cfg) : Prop :=
  (∀ f ∈ R.failures, f.1 < cfg.totInstances) ∧ ∃ k skipped, Passes cfg R.failures R.base k skipped

lemma InTurn.counts (h : R.InTurn) {i : Fin cfg.totInstances} {view voter : ℕ} (hc : Counts R i view voter S) :
    S.InTurn := by
  obtain ⟨hinst, k, skipped, hp⟩ := h
  cases hc with
  | more => exact ⟨hinst, k, skipped, hp⟩
  | last =>
    refine ⟨fun f hf => ?_, k, skipped, hp.fail i view⟩
    rcases List.mem_append.mp hf with hf | hf
    · exact hinst f hf
    · rw [List.mem_singleton.mp hf]
      exact i.isLt

lemma InTurn.step (h : R.InTurn) {e : Event} (hok : Pooled cfg R e) (hs : R.step crypto e = some S) : S.InTurn := by
  cases step_cases hok hs with
  | moves hm =>
    obtain ⟨hinst, k, skipped, hp⟩ := h
    exact ⟨hinst, hp.moves hinst hm⟩
  | vote _ _ _ _ hc => exact h.counts hc
  | @timeout i view _ _ _ _ hc =>
    obtain ⟨hinst, k, skipped, hp⟩ := h
    have hexec : (R.announceTimeout i view).base.exec = { R.base.exec with queue := R.base.exec.queue ++ [] } := by
      rw [List.append_nil]
      rfl
    have hsent : Passes cfg R.failures (R.announceTimeout i view).base k skipped :=
      hp.extend hexec (fun _ _ hm => hm) (fun _ hf => hf) nofun fun _ hf => .inl hf
    have hann : (R.announceTimeout i view).InTurn := ⟨hinst, k, skipped, hsent⟩
    exact hann.counts hc

lemma inTurn_reach (h : Reach (step crypto) (Pooled cfg) (init cfg p) R) : R.InTurn := by
  refine h.invariant InTurn ⟨fun f hf => absurd hf List.not_mem_nil, 0, ∅, passes_init p⟩ ?_
  exact fun _ _ _ _ hok hs hk => hk.step hok hs

theorem passes_in_order (h : Reach (step crypto) (Pooled cfg) (init cfg p) R) :
    ∃ k, ∃ skipped : Finset ℕ,
      R.base.exec.nextIndex = k * cfg.batchSize ∧
      R.base.exec.expectedExecuteCount = k * cfg.batchSize + cfg.batchSize - 2 ∧
      (∀ c ∈ skipped, c < k ∧ (c % cfg.totInstances, c / cfg.totInstances) ∈ R.failures) ∧
      R.base.exec.ran.map Prod.fst =
        (runSlots k skipped).flatMap (fun c => List.range' (c * cfg.batchSize) cfg.batchSize) ∧
      R.base.exec.responses.map ClientResponse.index =
        (runSlots k skipped).map (fun c => List.range' (c * cfg.batchSize) cfg.batchSize) ∧
      (∀ c ∈ runSlots k skipped,
        ∃ i, ExecuteMsg.copyFromTxn cfg (c * cfg.batchSize + cfg.batchSize - 1) ∈ R.base.executions i) ∧
      ∀ f ∈ R.failures, cfg.slot f.2 f.1 < k ∨ failedExecute cfg f.1 f.2 ∈ R.base.exec.queue := by
  obtain ⟨-, k, skipped, hp⟩ := inTurn_reach h
  exact ⟨k, skipped, hp.nextIndex, hp.expected, hp.skips, hp.ran, hp.answers, hp.handed, hp.waiting⟩

theorem passes_in_order_first_slot : ∃ R : TimedReplica .fourReplicas,
    Reach (step .transparent) (Pooled .fourReplicas) (init .fourReplicas 0) R ∧ R.base.exec.nextIndex = 5 ∧
      R.base.exec.ran = [] ∧ ∃ k, ∃ skipped : Finset ℕ, R.base.exec.nextIndex = k * 5 ∧
        R.base.exec.ran.map Prod.fst = (runSlots k skipped).flatMap (fun c => List.range' (c * 5) 5) ∧
        ∀ f ∈ R.failures, Config.fourReplicas.slot f.2 f.1 < k ∨
          failedExecute .fourReplicas f.1 f.2 ∈ R.base.exec.queue := by
  obtain ⟨R, hr, h⟩ := exists_reach_of_runWith (step .transparent) (Pooled .fourReplicas) (init .fourReplicas 0)
    (firstSlotFails .fourReplicas) (fun R => decide (R.base.exec.nextIndex = 5 ∧ R.base.exec.ran.length = 0))
    (by decide +kernel)
  obtain ⟨hnext, hran⟩ := of_decide_eq_true h
  obtain ⟨k, skipped, hk, _, _, hslots, _, _, hwait⟩ := passes_in_order hr
  exact ⟨R, hr, hnext, List.eq_nil_of_length_eq_zero hran, k, skipped, hk, hslots, hwait⟩

end Passing

end TimedReplica

end SpotLess
