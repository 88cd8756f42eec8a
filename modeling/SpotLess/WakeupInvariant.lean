import SpotLess.Wakeup

namespace SpotLess.Wakeup

open Lib

variable (cfg : Config) (indexSize : ℕ)

def Pc.Attentive : Pc → Prop
  | .waitWork | .waitExecute | .reenqueue _ _ => False
  | _ => True

structure Inv (s : State) : Prop where
  placed : ∀ q id, id ∈ s.workQueue q → q = qid cfg indexSize id
  ahead : s.expected = s.nextIndex + cfg.batchSize - 2
  heaped : ∀ q id, id ∈ s.workQueue q → s.expected ≤ id →
    id ∈ s.heap ∨ (id, .postWork) ∈ s.enqueues ∨ (id, .pushHeap) ∈ s.enqueues
  awake : ∀ q, s.expected ∈ s.workQueue q →
    0 < s.executeSem ∨ (∃ stage, (s.expected, stage) ∈ s.enqueues) ∨ s.pc.Attentive
  turn : match s.pc with
    | .gate id | .run id | .popHeap id | .topHeap id => id = s.expected
    | .reenqueue _ _ => False
    | _ => True

lemma mem_set_or {α : Type} {l : List α} {k : ℕ} {x : α} (y : α) (h : x ∈ l) :
    x ∈ l.set k y ∨ l[k]? = some x := by
  obtain ⟨j, hj⟩ := List.mem_iff_getElem?.mp h
  by_cases hk : j = k
  · exact Or.inr (hk ▸ hj)
  · refine Or.inl (List.mem_iff_getElem?.mpr ⟨j, ?_⟩)
    rw [List.getElem?_set_ne (Ne.symm hk), hj]

lemma mem_eraseIdx_or {α : Type} {l : List α} {k : ℕ} {x : α} (h : x ∈ l) :
    x ∈ l.eraseIdx k ∨ l[k]? = some x := by
  obtain ⟨j, hj⟩ := List.mem_iff_getElem?.mp h
  by_cases hk : j = k
  · exact Or.inr (hk ▸ hj)
  · exact Or.inl (List.mem_eraseIdx_iff_getElem?.mpr ⟨j, hk, hj⟩)

lemma foldl_min_le (xs : List ℕ) (x : ℕ) : xs.foldl min x ≤ x ∧ ∀ y ∈ xs, xs.foldl min x ≤ y := by
  induction xs generalizing x with
  | nil => simp
  | cons z xs ih =>
    obtain ⟨hx, hxs⟩ := ih (min x z)
    refine ⟨hx.trans (min_le_left x z), ?_⟩
    intro y hy
    rcases List.mem_cons.mp hy with rfl | hy
    · exact hx.trans (min_le_right x y)
    · exact hxs y hy

lemma leastOf_le {heap : List ℕ} {x y : ℕ} (hx : leastOf heap = some x) (hy : y ∈ heap) : x ≤ y := by
  cases heap with
  | nil => cases hy
  | cons z zs =>
    obtain rfl := Option.some.inj hx
    obtain ⟨hz, hzs⟩ := foldl_min_le zs z
    rcases List.mem_cons.mp hy with rfl | hy
    · exact hz
    · exact hzs y hy

lemma leastOf_mem {heap : List ℕ} {x : ℕ} (hx : leastOf heap = some x) : x ∈ heap := by
  cases heap with
  | nil => cases hx
  | cons z zs =>
    obtain rfl := Option.some.inj hx
    clear hx
    induction zs generalizing z with
    | nil => simp
    | cons y ys ih =>
      rcases min_choice z y with h | h
      · have := ih z
        simp only [List.foldl_cons, h, List.mem_cons] at this ⊢
        tauto
      · have := ih y
        simp only [List.foldl_cons, h, List.mem_cons] at this ⊢
        tauto

lemma leastOf_eq_of_mem {heap : List ℕ} {v : ℕ} (hv : v ∈ heap) (hle : ∀ x ∈ heap, v ≤ x) :
    leastOf heap = some v := by
  cases h : leastOf heap with
  | none =>
    cases heap with
    | nil => cases hv
    | cons z zs => cases h
  | some x =>
    congr 1
    exact le_antisymm (leastOf_le h hv) (hle x (leastOf_mem h))

lemma mem_push {s : State} {id x q : ℕ} (h : x ∈ (s.push cfg indexSize id).workQueue q) :
    x ∈ s.workQueue q ∨ (x = id ∧ q = qid cfg indexSize id) := by
  simp only [State.push] at h
  by_cases hq : q = qid cfg indexSize id
  · subst hq
    rw [Function.update_self, List.mem_append, List.mem_singleton] at h
    exact h.imp_right fun hx => ⟨hx, rfl⟩
  · rw [Function.update_of_ne hq] at h
    exact Or.inl h

lemma inv_init : Inv cfg indexSize (init cfg) where
  placed q id h := by simp [init] at h
  ahead := by simp [init]
  heaped q id h := by simp [init] at h
  awake q h := by simp [init] at h
  turn := trivial

lemma inv_enqueue {s : State} (h : Inv cfg indexSize s) (id : ℕ) :
    Inv cfg indexSize
      { s.push cfg indexSize id with enqueues := s.enqueues ++ [(id, .postWork)] } where
  placed q x hx := by
    rcases mem_push cfg indexSize hx with hx | ⟨rfl, hq⟩
    · exact h.placed q x hx
    · exact hq
  ahead := h.ahead
  heaped q x hx hle := by
    rcases mem_push cfg indexSize hx with hx | ⟨rfl, _⟩
    · rcases h.heaped q x hx hle with hh | hh | hh
      · exact Or.inl hh
      · exact Or.inr (Or.inl (List.mem_append_left _ hh))
      · exact Or.inr (Or.inr (List.mem_append_left _ hh))
    · exact Or.inr (Or.inl (List.mem_append_right _ (List.mem_singleton_self _)))
  awake q hq := by
    rcases mem_push cfg indexSize hq with hq | ⟨he, _⟩
    · rcases h.awake q hq with ha | ⟨stage, ha⟩ | ha
      · exact Or.inl ha
      · exact Or.inr (Or.inl ⟨stage, List.mem_append_left _ ha⟩)
      · exact Or.inr (Or.inr ha)
    · refine Or.inr (Or.inl ⟨.postWork, List.mem_append_right _ ?_⟩)
      exact List.mem_singleton.mpr (congrArg (·, Stage.postWork) he)
  turn := h.turn

lemma inv_worker_next {s t : State} (h : Inv cfg indexSize s) {k id : ℕ} {stage next : Stage}
    (hk : s.enqueues[k]? = some (id, stage))
    (hqueue : t.workQueue = s.workQueue) (hexp : t.expected = s.expected)
    (hnext : t.nextIndex = s.nextIndex) (hpc : t.pc = s.pc)
    (henq : t.enqueues = s.enqueues.set k (id, next)) (hsem : s.executeSem ≤ t.executeSem)
    (hheap : ∀ x ∈ s.heap, x ∈ t.heap)
    (hfirst : stage = .postWork → next = .pushHeap) (hsecond : stage = .pushHeap → id ∈ t.heap) :
    Inv cfg indexSize t where
  placed q x hx := h.placed q x (hqueue ▸ hx)
  ahead := by rw [hexp, hnext, h.ahead]
  heaped q x hx hle := by
    have hkept : ∀ st, (x, st) ∈ s.enqueues → (x, st) ∈ t.enqueues ∨ (x = id ∧ st = stage) := by
      intro st hst
      rw [henq]
      refine (mem_set_or (id, next) hst).imp_right fun he => ?_
      obtain ⟨hx, hst⟩ := Prod.mk.inj (Option.some.inj (hk.symm.trans he))
      exact ⟨hx.symm, hst.symm⟩
    rcases h.heaped q x (hqueue ▸ hx) (hexp ▸ hle) with hh | hh | hh
    · exact Or.inl (hheap x hh)
    · rcases hkept _ hh with hh | ⟨rfl, hst⟩
      · exact Or.inr (Or.inl hh)
      · refine Or.inr (Or.inr ?_)
        rw [henq, ← hfirst hst.symm]
        exact List.mem_of_getElem? (List.getElem?_set_self (List.getElem?_eq_some_iff.mp hk).1)
    · rcases hkept _ hh with hh | ⟨rfl, hst⟩
      · exact Or.inr (Or.inr hh)
      · exact Or.inl (hsecond hst.symm)
  awake q hq := by
    rw [hqueue, hexp] at hq
    rw [hexp, hpc, henq]
    rcases h.awake q hq with ha | ⟨st, ha⟩ | ha
    · exact Or.inl (ha.trans_le hsem)
    · rcases mem_set_or (id, next) ha with ha | ha
      · exact Or.inr (Or.inl ⟨st, ha⟩)
      · obtain ⟨rfl, rfl⟩ := Prod.mk.inj (Option.some.inj (hk.symm.trans ha))
        refine Or.inr (Or.inl ⟨next, ?_⟩)
        exact List.mem_of_getElem? (List.getElem?_set_self (List.getElem?_eq_some_iff.mp hk).1)
    · exact Or.inr (Or.inr ha)
  turn := by
    rw [hpc, hexp]
    exact h.turn

lemma inv_worker_done {s t : State} (h : Inv cfg indexSize s) {k id : ℕ} {stage : Stage}
    (hk : s.enqueues[k]? = some (id, stage)) (hstage : stage ≠ .postWork ∧ stage ≠ .pushHeap)
    (hqueue : t.workQueue = s.workQueue) (hexp : t.expected = s.expected)
    (hnext : t.nextIndex = s.nextIndex) (hpc : t.pc = s.pc) (hheap : t.heap = s.heap)
    (henq : t.enqueues = s.enqueues.eraseIdx k) (hsem : s.executeSem ≤ t.executeSem)
    (hdone : id ≠ s.expected ∨ 0 < t.executeSem) : Inv cfg indexSize t where
  placed q x hx := h.placed q x (hqueue ▸ hx)
  ahead := by rw [hexp, hnext, h.ahead]
  heaped q x hx hle := by
    have hkept : ∀ st, (x, st) ∈ s.enqueues → st = stage ∨ (x, st) ∈ t.enqueues := by
      intro st hst
      rw [henq]
      refine (mem_eraseIdx_or hst).symm.imp_left fun he => ?_
      exact (Prod.mk.inj (Option.some.inj (hk.symm.trans he))).2.symm
    rw [hheap]
    rcases h.heaped q x (hqueue ▸ hx) (hexp ▸ hle) with hh | hh | hh
    · exact Or.inl hh
    · rcases hkept _ hh with hs | hh
      · exact absurd hs.symm hstage.1
      · exact Or.inr (Or.inl hh)
    · rcases hkept _ hh with hs | hh
      · exact absurd hs.symm hstage.2
      · exact Or.inr (Or.inr hh)
  awake q hq := by
    rw [hqueue, hexp] at hq
    rw [hexp, hpc, henq]
    rcases h.awake q hq with ha | ⟨st, ha⟩ | ha
    · exact Or.inl (ha.trans_le hsem)
    · rcases mem_eraseIdx_or ha with ha | ha
      · exact Or.inr (Or.inl ⟨st, ha⟩)
      · rcases hdone with hne | hpos
        · exact absurd (Prod.mk.inj (Option.some.inj (hk.symm.trans ha))).1 hne
        · exact Or.inl hpos
    · exact Or.inr (Or.inr ha)
  turn := by
    rw [hpc, hexp]
    exact h.turn

lemma inv_worker {s t : State} (h : Inv cfg indexSize s) {k : ℕ} (hs : s.workerStep k = some t) :
    Inv cfg indexSize t := by
  simp only [State.workerStep] at hs
  cases hk : s.enqueues[k]? with
  | none =>
    rw [hk] at hs
    cases hs
  | some entry =>
    obtain ⟨id, stage⟩ := entry
    rw [hk] at hs
    cases stage with
    | postWork =>
      obtain rfl := Option.some.inj hs
      exact inv_worker_next cfg indexSize h hk rfl rfl rfl rfl rfl le_rfl (fun x hx => hx)
        (fun _ => rfl) nofun
    | pushHeap =>
      obtain rfl := Option.some.inj hs
      exact inv_worker_next cfg indexSize h hk rfl rfl rfl rfl rfl le_rfl
        (fun x hx => List.mem_cons_of_mem id hx) nofun (fun _ => List.mem_cons_self)
    | compare =>
      simp only [State.enqueueStep] at hs
      split_ifs at hs with he
      · obtain rfl := Option.some.inj hs
        exact inv_worker_next cfg indexSize h hk rfl rfl rfl rfl rfl le_rfl (fun x hx => hx) nofun nofun
      · obtain rfl := Option.some.inj hs
        exact inv_worker_done cfg indexSize h hk ⟨nofun, nofun⟩ rfl rfl rfl rfl rfl rfl le_rfl (Or.inl he)
    | postExecute =>
      obtain rfl := Option.some.inj hs
      exact inv_worker_done cfg indexSize h hk ⟨nofun, nofun⟩ rfl rfl rfl rfl rfl rfl (Nat.le_succ _)
        (Or.inr (Nat.succ_pos _))

lemma inv_frame {s t : State} (h : Inv cfg indexSize s) (hqueue : t.workQueue = s.workQueue)
    (hexp : t.expected = s.expected) (hnext : t.nextIndex = s.nextIndex) (hheap : t.heap = s.heap)
    (henq : t.enqueues = s.enqueues)
    (hawake : ∀ q, s.expected ∈ s.workQueue q →
      0 < t.executeSem ∨ (∃ stage, (s.expected, stage) ∈ s.enqueues) ∨ t.pc.Attentive)
    (hturn : match t.pc with
      | .gate id | .run id | .popHeap id | .topHeap id => id = s.expected
      | .reenqueue _ _ => False
      | _ => True) : Inv cfg indexSize t where
  placed q x hx := h.placed q x (hqueue ▸ hx)
  ahead := by rw [hexp, hnext, h.ahead]
  heaped q x hx hle := by
    rw [hheap, henq]
    exact h.heaped q x (hqueue ▸ hx) (hexp ▸ hle)
  awake q hq := by
    rw [hexp, henq]
    rw [hqueue, hexp] at hq
    exact hawake q hq
  turn := by
    rw [hexp]
    exact hturn

lemma inv_dequeue {s t : State} (h : Inv cfg indexSize s) (hpc : s.pc = .dequeue)
    (hok : ∀ id ∈ (s.workQueue (qid cfg indexSize s.expected)).head?, id = s.expected) (junk : ℕ)
    (hs : s.executeStep cfg indexSize junk = some t) : Inv cfg indexSize t := by
  simp only [State.executeStep, hpc] at hs
  cases hq : s.workQueue (qid cfg indexSize s.expected) with
  | nil =>
    rw [hq] at hs
    obtain rfl := Option.some.inj hs
    refine inv_frame cfg indexSize h rfl rfl rfl rfl rfl ?_ trivial
    intro q hmem
    rw [h.placed q _ hmem, hq] at hmem
    cases hmem
  | cons id rest =>
    rw [hq] at hs hok
    obtain rfl := Option.some.inj hs
    have hid : id = s.expected := hok id rfl
    have hsub : ∀ q x, x ∈ Function.update s.workQueue (qid cfg indexSize s.expected) rest q →
        x ∈ s.workQueue q := by
      intro q x hx
      by_cases hqq : q = qid cfg indexSize s.expected
      · subst hqq
        rw [Function.update_self] at hx
        rw [hq]
        exact List.mem_cons_of_mem id hx
      · rwa [Function.update_of_ne hqq] at hx
    exact
      { placed := fun q x hx => h.placed q x (hsub q x hx)
        ahead := h.ahead
        heaped := fun q x hx hle => h.heaped q x (hsub q x hx) hle
        awake := fun _ _ => Or.inr (Or.inr trivial)
        turn := hid }

lemma inv_gate {s t : State} (h : Inv cfg indexSize s) {id : ℕ} (hpc : s.pc = .gate id) (junk : ℕ)
    (hs : s.executeStep cfg indexSize junk = some t) : Inv cfg indexSize t := by
  have hb := cfg.five_le_batch
  have hahead := h.ahead
  have hturn := h.turn
  rw [hpc] at hturn
  have hid : id = s.expected := hturn
  simp only [State.executeStep, hpc] at hs
  rw [if_neg (by omega), if_neg (by omega)] at hs
  obtain rfl := Option.some.inj hs
  exact inv_frame cfg indexSize h rfl rfl rfl rfl rfl (fun _ _ => Or.inr (Or.inr trivial)) hid

lemma inv_run {s t : State} (h : Inv cfg indexSize s) {id : ℕ} (hpc : s.pc = .run id) (junk : ℕ)
    (hs : s.executeStep cfg indexSize junk = some t) : Inv cfg indexSize t := by
  have hb := cfg.five_le_batch
  have hahead := h.ahead
  have hturn := h.turn
  rw [hpc] at hturn
  have hid : id = s.expected := hturn
  simp only [State.executeStep, hpc] at hs
  obtain rfl := Option.some.inj hs
  refine ⟨h.placed, ?_, ?_, fun _ _ => Or.inr (Or.inr trivial), rfl⟩
  · change cfg.batchSize + id = s.nextIndex + cfg.batchSize + cfg.batchSize - 2
    omega
  · intro q x hx hle
    change cfg.batchSize + id ≤ x at hle
    exact h.heaped q x hx (by omega)

lemma inv_popHeap {s t : State} (h : Inv cfg indexSize s) {val : ℕ} (hpc : s.pc = .popHeap val)
    (hok : ∃ x ∈ leastOf s.heap, x < val) (junk : ℕ)
    (hs : s.executeStep cfg indexSize junk = some t) : Inv cfg indexSize t := by
  have hturn := h.turn
  rw [hpc] at hturn
  have hval : val = s.expected := hturn
  obtain ⟨x, hx, hlt⟩ := hok
  have hleast : leastOf s.heap = some x := hx
  simp only [State.executeStep, hpc, hleast] at hs
  obtain rfl := Option.some.inj hs
  refine ⟨h.placed, h.ahead, ?_, fun _ _ => Or.inr (Or.inr trivial), hval⟩
  intro q y hy hle
  rcases h.heaped q y hy hle with hh | hh
  · refine Or.inl ((List.mem_erase_of_ne ?_).mpr hh)
    change s.expected ≤ y at hle
    omega
  · exact Or.inr hh

lemma inv_topHeap {s t : State} (h : Inv cfg indexSize s) {val : ℕ} (hpc : s.pc = .topHeap val)
    (hok : ∀ x ∈ s.heap, val ≤ x) (junk : ℕ)
    (hs : s.executeStep cfg indexSize junk = some t) : Inv cfg indexSize t := by
  have hturn := h.turn
  rw [hpc] at hturn
  have hval : val = s.expected := hturn
  simp only [State.executeStep, hpc] at hs
  split_ifs at hs with htop
  · obtain rfl := Option.some.inj hs
    exact inv_frame cfg indexSize h rfl rfl rfl rfl rfl (fun _ _ => Or.inr (Or.inr trivial)) trivial
  · obtain rfl := Option.some.inj hs
    refine inv_frame cfg indexSize h rfl rfl rfl rfl rfl ?_ trivial
    intro q hq
    rcases h.heaped q _ hq le_rfl with hh | hh | hh
    · rw [leastOf_eq_of_mem (hval ▸ hh) hok] at htop
      exact absurd rfl htop
    · exact Or.inr (Or.inl ⟨_, hh⟩)
    · exact Or.inr (Or.inl ⟨_, hh⟩)

lemma inv_execute {s t : State} (h : Inv cfg indexSize s) {junk : ℕ}
    (hok : InTurn cfg indexSize s (.execute junk)) (hs : s.executeStep cfg indexSize junk = some t) :
    Inv cfg indexSize t := by
  change PcInTurn cfg indexSize s s.pc at hok
  cases hpc : s.pc with
  | waitWork =>
    simp only [State.executeStep, hpc] at hs
    split_ifs at hs
    obtain rfl := Option.some.inj hs
    refine inv_frame cfg indexSize h rfl rfl rfl rfl rfl ?_ trivial
    intro q hq
    have ha := h.awake q hq
    rw [hpc] at ha
    exact ha
  | waitExecute =>
    simp only [State.executeStep, hpc] at hs
    split_ifs at hs
    obtain rfl := Option.some.inj hs
    exact inv_frame cfg indexSize h rfl rfl rfl rfl rfl (fun _ _ => Or.inr (Or.inr trivial)) trivial
  | dequeue =>
    rw [hpc] at hok
    exact inv_dequeue cfg indexSize h hpc hok junk hs
  | gate id => exact inv_gate cfg indexSize h hpc junk hs
  | reenqueue id stage =>
    have hturn := h.turn
    rw [hpc] at hturn
    exact hturn.elim
  | run id => exact inv_run cfg indexSize h hpc junk hs
  | popHeap val =>
    rw [hpc] at hok
    exact inv_popHeap cfg indexSize h hpc hok junk hs
  | topHeap val =>
    rw [hpc] at hok
    exact inv_topHeap cfg indexSize h hpc hok junk hs
  | postNext =>
    simp only [State.executeStep, hpc] at hs
    obtain rfl := Option.some.inj hs
    exact inv_frame cfg indexSize h rfl rfl rfl rfl rfl (fun _ _ => Or.inl (Nat.succ_pos _)) trivial

-- Batches 0 and 80000 share a queue; the later one is enqueued first and takes the only token with it.
theorem wakeup_lost_by_shared_queue :
    ∃ s, Reach (step .deployed 80000) AnyStep (init .deployed) s ∧ Stuck s := by
  obtain ⟨s, hs, hp⟩ := exists_reach_of_runWith (step .deployed 80000) AnyStep (init .deployed)
    (.enqueue 8000098 :: List.replicate 3 (.worker 0) ++ .enqueue 98 :: List.replicate 4 (.worker 0) ++
      List.replicate 8 (.execute 0))
    (fun s => decide (s.pc = .waitExecute ∧ s.executeSem = 0 ∧ s.enqueues = [] ∧ s.expected ∈ s.workQueue 0))
    (by decide +kernel)
  obtain ⟨hpc, hsem, henq, hq⟩ := of_decide_eq_true hp
  exact ⟨s, hs, hpc, hsem, henq, 0, hq⟩

theorem no_lost_wakeup_in_turn {s : State}
    (h : Reach (step cfg indexSize) (InTurn cfg indexSize) (init cfg) s) : ¬ Stuck s := by
  have hinv : Inv cfg indexSize s := by
    apply h.invariant (Inv cfg indexSize) (inv_init cfg indexSize)
    intro s e t _ hok hs hi
    cases e with
    | enqueue id =>
      obtain rfl := Option.some.inj hs
      exact inv_enqueue cfg indexSize hi id
    | worker k => exact inv_worker cfg indexSize hi hs
    | execute junk => exact inv_execute cfg indexSize hi hok hs
  rintro ⟨hpc, hsem, henq, q, hq⟩
  rcases hinv.awake q hq with ha | ⟨stage, ha⟩ | ha
  · omega
  · rw [henq] at ha
    cases ha
  · rw [hpc] at ha
    exact ha

theorem no_lost_wakeup_after_two_batches :
    ∃ s, Reach (step .deployed 80000) (InTurn .deployed 80000) (init .deployed) s ∧
      s.expected = 298 ∧ s.pc = .waitWork ∧ ¬ Stuck s := by
  obtain ⟨s, hs, hp⟩ := exists_reach_of_runWith (step .deployed 80000) (InTurn .deployed 80000) (init .deployed)
    (.enqueue 198 :: List.replicate 3 (.worker 0) ++ .enqueue 98 :: List.replicate 4 (.worker 0) ++
      List.replicate 15 (.execute 0))
    (fun s => decide (s.expected = 298 ∧ s.pc = .waitWork))
    (by decide +kernel)
  obtain ⟨hexp, hpc⟩ := of_decide_eq_true hp
  exact ⟨s, hs, hexp, hpc, no_lost_wakeup_in_turn .deployed 80000 hs⟩

end SpotLess.Wakeup
