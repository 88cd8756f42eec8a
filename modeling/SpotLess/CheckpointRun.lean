import SpotLess.CheckpointLatch

namespace SpotLess.Checkpoint

open Lib

variable {cfg : Config} {c c' c'' : State} {t : Bool} {id i j k start holding2 : ℕ} {pc : Pc}

variable (cfg) in
-- The steps of the two checkpoint threads, one after the other.
abbrev Threads : State → State → Prop := Reach (fun c t => State.threadStep cfg c t) fun _ _ => True

lemma Threads.cons (h : c.threadStep cfg t = some c') (h' : Threads cfg c' c'') : Threads cfg c c'' :=
  (Reach.start.next t trivial h).trans h'

namespace State

variable (c t id)

def acquire : State :=
  { c with
    chkptHolding := Function.update c.chkptHolding t id
    isChkptHolding := Function.update c.isChkptHolding t true
    managers := Function.update c.managers id (some { txnReady := false })
    pc := Function.update c.pc t (.acquired id) }

variable (cfg) in
def mark : State :=
  { c with
    managers := Function.update c.managers id
      ((c.managers id).map fun m => { m with chkptCnt := 0, chkptFlag := true })
    lastStableChkpt := id % 2 ^ 32
    stable := c.stable ++ [⟨id, c.announcers id⟩]
    ranges := c.ranges ++ [id]
    lastDeletedTxnMan := max c.lastDeletedTxnMan (delRange cfg id)
    pc := Function.update c.pc t (.lower id c.lastDeletedTxnMan (c.chkptHolding !t) c.lastDeletedTxnMan) }

def sweep (f : ℕ → Option TxnManager) (r : List Release) (pc : Pc) : State :=
  { c with
    managers := f
    released := r
    pc := Function.update c.pc t pc }

end State

lemma threads_acquire (hp : c.pc t = .popped id) (hid : c.lastStableChkpt < id) (hm : c.manager id = {}) :
    Threads cfg c (c.acquire t id) := by
  have hpopped : c.threadStep cfg t = some ({ c with
      chkptHolding := Function.update c.chkptHolding t id
      isChkptHolding := Function.update c.isChkptHolding t true }.goto t (.held id)) := by
    simp only [State.threadStep, hp]
  refine .cons hpopped ?_
  set u := { c with
    chkptHolding := Function.update c.chkptHolding t id
    isChkptHolding := Function.update c.isChkptHolding t true } with hu
  have hheld : (u.goto t (.held id)).threadStep cfg t = some ((u.goto t (.held id)).goto t (.admitted id)) := by
    simp only [State.threadStep, State.goto_pc_self]
    exact congrArg (fun p => some ((u.goto t (.held id)).goto t p)) (if_neg (not_le.mpr hid))
  refine .cons hheld ?_
  set v := (u.goto t (.held id)).goto t (.admitted id) with hv
  have hmanager : v.manager id = {} := hm
  have hready : ((v.getTransactionManager id).manager id).txnReady = true := by
    rw [State.manager_getTransactionManager, hmanager]
  have hadmitted : v.threadStep cfg t = some (c.acquire t id) := by
    have hp : v.pc t = .admitted id := State.goto_pc_self
    simp only [State.threadStep, hp, hready, if_true]
    simp only [State.modify, State.getTransactionManager, hmanager, Function.update_self, Option.map_some,
      Function.update_idem]
    simp only [hv, hu, State.goto, State.acquire, Function.update_idem]
  exact .cons hadmitted .start

lemma threads_mark (hp : c.pc t = .acquired id) (hflag : (c.manager id).chkptFlag = false)
    (hcnt : (c.manager id).chkptCnt = 1) (hid : c.lastStableChkpt < id) : Threads cfg c (c.mark cfg t id) := by
  have hacquired : c.threadStep cfg t = some ((c.modify id fun m => { m with chkptCnt := 0, chkptFlag := true }).goto t
      (.counted id)) := by
    have hzero : sub64 1 1 = 0 := rfl
    simp only [State.threadStep, hp, hflag, hcnt, hzero, if_true, Bool.false_eq_true, if_false]
  refine .cons hacquired ?_
  set u := (c.modify id fun m => { m with chkptCnt := 0, chkptFlag := true }).goto t (.counted id) with hu
  have hcounted : u.threadStep cfg t = some ((u.setCurrChkpt id).goto t (.marked id)) := by
    have hp : u.pc t = .counted id := State.goto_pc_self
    simp only [State.threadStep, hp]
  refine .cons hcounted ?_
  have hmarked : ((u.setCurrChkpt id).goto t (.marked id)).threadStep cfg t = some (c.mark cfg t id) := by
    have hlt : u.lastStableChkpt < id := hid
    simp only [State.threadStep, State.goto_pc_self, State.setCurrChkpt, if_pos hlt]
    simp [hu, State.goto, State.modify, State.incLastDeletedTxn, State.mark, State.announcers]
  exact .cons hmarked .start

lemma exists_releaseTxnMan (c : State) (i : ℕ) : ∃ f r, c.releaseTxnMan i = { c with managers := f, released := r } ∧
    (∀ k, f k = c.managers k ∨ f k = none) ∧ f i = none ∧ ∀ k, k ≠ i → f k = c.managers k := by
  rw [State.releaseTxnMan]
  split
  · refine ⟨_, _, rfl, fun k => ?_, Function.update_self .., fun k hk => Function.update_of_ne hk ..⟩
    by_cases hk : k = i
    · exact .inr (by rw [hk, Function.update_self])
    · exact .inl (Function.update_of_ne hk ..)
  · rename_i hnone
    exact ⟨_, _, rfl, fun k => .inl rfl, hnone, fun _ _ => rfl⟩

lemma threads_upper (hp : c.pc t = .upper id start holding2 i) (hij : i ≤ j) (hj : j ≤ delRange cfg id) :
    ∃ f r, Threads cfg c (c.sweep t f r (.upper id start holding2 j)) ∧
      (∀ k, f k = c.managers k ∨ f k = none) ∧ (∀ k, i ≤ k → k < j → f k = none) ∧
      ∀ k, k < i ∨ j ≤ k → f k = c.managers k := by
  obtain ⟨n, rfl⟩ := Nat.exists_eq_add_of_le hij
  induction n generalizing c i with
  | zero =>
    refine ⟨c.managers, c.released, ?_, fun _ => .inl rfl, fun k hik hki => absurd hik (not_le.mpr hki), fun _ _ => rfl⟩
    rw [State.sweep, Nat.add_zero, ← hp, Function.update_eq_self]
    exact .start
  | succ n ih =>
    obtain ⟨f, r, heq, hf, hfi, hother⟩ := exists_releaseTxnMan c i
    have hstep : c.threadStep cfg t = some ({ c with managers := f, released := r }.goto t
        (.upper id start holding2 (i + 1))) := by
      have hlt : i < delRange cfg id := by omega
      simp only [State.threadStep, hp, if_pos hlt, heq]
    have hpc : ({ c with managers := f, released := r }.goto t (.upper id start holding2 (i + 1))).pc t =
        .upper id start holding2 (i + 1) := State.goto_pc_self
    obtain ⟨f', r', hreach, hf', hgone, hkept⟩ := ih hpc (Nat.le_add_right _ n) (by omega)
    refine ⟨f', r', ?_, ?_, ?_, ?_⟩
    · refine .cons hstep ?_
      have hsum : i + 1 + n = i + (n + 1) := by omega
      simpa only [State.goto, State.sweep, Function.update_idem, hsum] using hreach
    · intro k
      rcases hf' k with h | h
      · rcases hf k with h' | h'
        · exact .inl (h.trans h')
        · exact .inr (h.trans h')
      · exact .inr h
    · intro k hik hkj
      rcases Nat.eq_or_lt_of_le hik with rfl | hlt
      · rcases hf' i with h | h
        · exact h.trans hfi
        · exact h
      · exact hgone k hlt (by omega)
    · intro k hk
      rw [hkept k (by omega)]
      exact hother k (by omega)

lemma threads_lower (hp : c.pc t = .lower id start 0 i) :
    Threads cfg c (c.goto t (.upper id start 0 1)) := by
  have hstep : c.threadStep cfg t = some (c.goto t (.upper id start 0 1)) := by
    have hadd : add64 0 1 = 1 := rfl
    simp only [State.threadStep, hp, Nat.not_lt_zero, false_and, if_false, hadd]
  exact .cons hstep .start

namespace State

variable (c t)

def finish (f : ℕ → Option TxnManager) (r : List Release) : State :=
  { c with
    managers := f
    released := r
    isChkptHolding := Function.update c.isChkptHolding t false
    pc := Function.update c.pc t .idle }

end State

lemma threads_finish (hp : c.pc t = .upper id start 0 (delRange cfg id)) (hpos : 0 < delRange cfg id)
    (hother : c.isChkptHolding (!t) = false) (hstalled : c.isChkptStalled (!t) = false) :
    ∃ f r, Threads cfg c (c.finish t f r) ∧
      ∀ k, f k = none ∨ k ≠ id ∧ f k = c.managers k ∨
        k = id ∧ f k = (c.managers k).map fun m => { m with txnReady := true } := by
  have hupper : c.threadStep cfg t = some (c.goto t (.settle id start 0)) := by
    simp only [State.threadStep, hp, lt_irrefl, if_false]
  have hsettle : (c.goto t (.settle id start 0)).threadStep cfg t =
      some ((c.goto t (.settle id start 0)).goto t (.last id start)) := by
    have hno : ¬ ((c.goto t (.settle id start 0)).chkptHolding (!t) = start ∧
        (c.goto t (.settle id start 0)).isChkptHolding (!t) = true) := by
      intro h
      exact absurd (hother.symm.trans h.2) Bool.false_ne_true
    simp only [State.threadStep, State.goto_pc_self, if_pos hpos, if_neg hno]
  set u := (c.goto t (.settle id start 0)).goto t (.last id start) with hu
  obtain ⟨f, r, heq, hf, -, -⟩ := exists_releaseTxnMan u start
  set v := { u with managers := f, released := r }.goto t (.finished id) with hv
  have hlast : u.threadStep cfg t = some v := by
    have hp : u.pc t = .last id start := State.goto_pc_self
    simp only [State.threadStep, hp, heq, hv]
  set w := (v.modify id fun m => { m with txnReady := true }).goto t .yielding with hw
  have hfinished : v.threadStep cfg t = some w := by
    have hp : v.pc t = .finished id := State.goto_pc_self
    simp only [State.threadStep, hp, hw]
  have hyielding : w.threadStep cfg t = some (c.finish t w.managers r) := by
    have hp : w.pc t = .yielding := State.goto_pc_self
    have hsem : w.isChkptStalled (!t) = false := hstalled
    simp only [State.threadStep, hp, hsem, Bool.false_eq_true, if_false, Function.update_eq_self]
    simp only [hw, hv, hu, State.goto, State.modify, State.finish, Function.update_idem]
  refine ⟨w.managers, r, ?_, fun k => ?_⟩
  · exact .cons hupper (.cons hsettle (.cons hlast (.cons hfinished (.cons hyielding .start))))
  · have hw : w.managers = Function.update f id ((f id).map fun m => { m with txnReady := true }) := rfl
    rw [hw]
    by_cases hk : k = id
    · subst hk
      rw [Function.update_self]
      rcases hf k with h | h
      · exact .inr (.inr ⟨rfl, by rw [h]; rfl⟩)
      · exact .inl (by rw [h]; rfl)
    · rw [Function.update_of_ne hk]
      exact (hf k).elim (fun h => .inr (.inl ⟨hk, h⟩)) .inl

lemma threads_skip (hp : c.pc t = .lower id start holding2 i) (hlower : delRange cfg id ≤ i)
    (hheld : delRange cfg id ≤ holding2) (hfits : holding2 + 1 < 2 ^ 64) : Threads cfg c (c.goto t (.finished id)) := by
  have hadd : add64 holding2 1 = holding2 + 1 := add64_of_lt hfits
  have hstep : c.threadStep cfg t = some (c.goto t (.upper id start holding2 (holding2 + 1))) := by
    have hno : ¬ (i < holding2 ∧ i < delRange cfg id) := by omega
    simp only [State.threadStep, hp, if_neg hno, hadd]
  set u := c.goto t (.upper id start holding2 (holding2 + 1)) with hu
  have hupper : u.threadStep cfg t = some (u.goto t (.settle id start holding2)) := by
    have hp : u.pc t = .upper id start holding2 (holding2 + 1) := State.goto_pc_self
    have hno : ¬ holding2 + 1 < delRange cfg id := by omega
    simp only [State.threadStep, hp, if_neg hno]
  have hsettle : (u.goto t (.settle id start holding2)).threadStep cfg t = some (c.goto t (.finished id)) := by
    simp only [State.threadStep, State.goto_pc_self, if_neg (not_lt.mpr hheld)]
    simp only [hu, State.goto, Function.update_idem]
  exact .cons hstep (.cons hupper (.cons hsettle .start))

-- Between two messages, when the thread `true` at most has popped one.
structure Calm (c : State) (p : Pc) (q : List ℕ) (n : ℕ) : Prop where
  executed : c.executed = none
  own : c.pc false = .idle
  other : c.pc true = p
  queue : c.queue = q
  stable : c.lastStableChkpt = n
  holding : c.chkptHolding true = 0
  unheld : c.isChkptHolding true = false
  stalled : c.isChkptStalled true = false
  ready : ∀ k, (c.manager k).txnReady = true
  fresh : ∀ k, n < k → c.manager k = {}

namespace Calm

variable {p : Pc} {n : ℕ}

variable (cfg c) in
def begun (id : ℕ) : State :=
  ((({ c with queue := [] }.goto false (.popped id)).acquire false id).mark cfg false id).goto false
    (.upper id c.lastDeletedTxnMan 0 1)

lemma threads_begun (h : Calm c p [id] n) (hid : n < id) : Threads cfg c (begun cfg c id) := by
  have hpop : c.threadStep cfg false = some ({ c with queue := [] }.goto false (.popped id)) := by
    simp only [State.threadStep, h.own, h.queue]
  refine .cons hpop ?_
  set u := { c with queue := [] }.goto false (.popped id) with hu
  have hlt : u.lastStableChkpt < id := h.stable.trans_lt hid
  refine (threads_acquire State.goto_pc_self hlt (h.fresh id hid)).trans ?_
  have hm : (u.acquire false id).manager id = { txnReady := false } := by
    simp [State.acquire, State.manager]
  have hpc : (u.acquire false id).pc false = .acquired id := by
    simp [State.acquire]
  refine (threads_mark hpc (by rw [hm]) (by rw [hm]) hlt).trans ?_
  have hzero : (u.acquire false id).chkptHolding (!false) = 0 := h.holding
  have hlower : ((u.acquire false id).mark cfg false id).pc false =
      .lower id c.lastDeletedTxnMan 0 c.lastDeletedTxnMan := by
    simp only [State.mark, Function.update_self, hzero]
    rfl
  exact threads_lower hlower

lemma pop (h : Calm c .idle [id] n) :
    ∃ c', Threads cfg c c' ∧ Calm c' (.popped id) [] n ∧ c'.nextIndex = c.nextIndex := by
  have hpop : c.threadStep cfg true = some ({ c with queue := [] }.goto true (.popped id)) := by
    simp only [State.threadStep, h.other, h.queue]
  refine ⟨_, .cons hpop .start, ⟨h.executed, ?_, State.goto_pc_self, rfl, h.stable, h.holding, h.unheld, h.stalled,
    h.ready, h.fresh⟩, rfl⟩
  exact State.goto_pc_not.trans h.own

lemma begun_managers (hk : k ≠ id) : (begun cfg c id).managers k = c.managers k := by
  simp [begun, State.goto, State.mark, State.acquire, hk]

lemma begun_pc_other : (begun cfg c id).pc true = c.pc true := by
  simp [begun, State.goto, State.mark, State.acquire]

lemma sweep (h : Calm c p [id] n) (hid : n < id) (hfits : id < 2 ^ 32) (hpos : 0 < delRange cfg id) :
    ∃ c', Threads cfg c c' ∧ Calm c' p [] id ∧ c'.nextIndex = c.nextIndex := by
  have hpc : (begun cfg c id).pc false = .upper id c.lastDeletedTxnMan 0 1 := State.goto_pc_self
  obtain ⟨f, r, hupper, hf, -, -⟩ := threads_upper hpc hpos le_rfl
  set u := (begun cfg c id).sweep false f r (.upper id c.lastDeletedTxnMan 0 (delRange cfg id)) with hu
  have hpc : u.pc false = .upper id c.lastDeletedTxnMan 0 (delRange cfg id) := by
    simp [hu, State.sweep]
  obtain ⟨f', r', hfinish, hf'⟩ := threads_finish hpc hpos h.unheld h.stalled
  refine ⟨u.finish false f' r', ((h.threads_begun hid).trans hupper).trans hfinish, ?_, rfl⟩
  have hmanagers : ∀ k, k ≠ id → f' k = c.managers k ∨ f' k = none := by
    intro k hk
    rcases hf' k with h | ⟨-, h⟩ | ⟨h, -⟩
    · exact .inr h
    · rcases hf k with h' | h'
      · exact .inl (h.trans (h'.trans (begun_managers hk)))
      · exact .inr (h.trans h')
    · exact absurd h hk
  have hother : ∀ k, k ≠ id → (u.finish false f' r').manager k = c.manager k ∨ (u.finish false f' r').manager k = {} := by
    intro k hk
    show (f' k).getD {} = _ ∨ (f' k).getD {} = _
    rcases hmanagers k hk with h | h
    · exact .inl (by rw [h]; rfl)
    · exact .inr (by rw [h]; rfl)
  refine ⟨h.executed, by simp [State.finish], ?_, rfl, Nat.mod_eq_of_lt hfits, h.holding, h.unheld, h.stalled, ?_, ?_⟩
  · have hpc : (u.finish false f' r').pc true = (begun cfg c id).pc true := by
      simp [State.finish, State.sweep, hu]
    rw [hpc, begun_pc_other, h.other]
  · intro k
    by_cases hk : k = id
    · subst hk
      show ((f' k).getD {}).txnReady = true
      rcases hf' k with h | ⟨h, -⟩ | ⟨-, h⟩
      · rw [h]
        rfl
      · exact absurd rfl h
      · rw [h]
        cases u.managers k <;> rfl
    · rcases hother k hk with h' | h'
      · rw [h']
        exact h.ready k
      · rw [h']
  · intro k hk
    rcases hother k (Nat.ne_of_gt hk) with h' | h'
    · rw [h']
      exact h.fresh k (hid.trans hk)
    · exact h'

-- The thread `true` passes the check of an older message because the newer one has wrapped the stable checkpoint, and
-- loses the manager it has just made unavailable.
lemma lose {id' : ℕ} (h : Calm c (.popped id) [id'] n) (hid : n < id) (hlt : id < id') (hwrap : id' % 2 ^ 32 < id)
    (hfits : id' + 1 < 2 ^ 64) (hin : id < delRange cfg id') (hdel : delRange cfg id ≤ delRange cfg id')
    (hle : delRange cfg id' ≤ id') :
    ∃ c', Threads cfg c c' ∧ c'.pc true = .finished id ∧ (c'.manager id).txnReady = true := by
  have hpc : (begun cfg c id').pc false = .upper id' c.lastDeletedTxnMan 0 1 := State.goto_pc_self
  obtain ⟨f, r, hupper, -, -, hkept⟩ := threads_upper hpc (by omega : 1 ≤ id) hin.le
  set u := (begun cfg c id').sweep false f r (.upper id' c.lastDeletedTxnMan 0 id) with hu
  have hpopped : u.pc true = .popped id := by
    have hother : u.pc true = (begun cfg c id').pc true := by
      simp [hu, State.sweep]
    rw [hother, begun_pc_other, h.other]
  have hmanager : u.manager id = {} := by
    have heq : u.managers id = c.managers id := (hkept id (.inr le_rfl)).trans (begun_managers hlt.ne)
    rw [State.manager, heq]
    exact h.fresh id hid
  have hacquire : Threads cfg u (u.acquire true id) := threads_acquire hpopped hwrap hmanager
  have hpc' : (u.acquire true id).pc false = .upper id' c.lastDeletedTxnMan 0 id := by
    simp [State.acquire, State.sweep, hu]
  obtain ⟨f', r', hupper', -, hgone, -⟩ := threads_upper hpc' (Nat.le_succ id) hin
  have hnone : f' id = none := hgone id le_rfl (Nat.lt_succ_self id)
  set v := (u.acquire true id).sweep false f' r' (.upper id' c.lastDeletedTxnMan 0 id.succ) with hv
  have hm : v.manager id = {} := by
    have heq : v.managers id = none := hnone
    rw [State.manager, heq]
    rfl
  have hacquired : v.pc true = .acquired id := by
    simp [hv, State.sweep, State.acquire]
  have hmark : Threads cfg v (v.mark cfg true id) := threads_mark hacquired (by rw [hm]) (by rw [hm]) hwrap
  have hlower : (v.mark cfg true id).pc true = .lower id v.lastDeletedTxnMan id' v.lastDeletedTxnMan := by
    have hholding : v.chkptHolding (!true) = id' := by
      simp [hv, State.sweep, State.acquire, hu, begun, State.goto, State.mark]
    simp only [State.mark, Function.update_self, hholding]
  have hdeleted : delRange cfg id ≤ v.lastDeletedTxnMan := hdel.trans (le_max_right _ _)
  have hskip := threads_skip hlower hdeleted (hdel.trans hle) hfits
  refine ⟨_, (((((h.threads_begun (hid.trans hlt)).trans hupper).trans hacquire).trans hupper').trans hmark).trans hskip,
    State.goto_pc_self, ?_⟩
  simp [State.goto, State.mark, State.manager, State.sweep, hv, hnone]

end Calm

end SpotLess.Checkpoint
