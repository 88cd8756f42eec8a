import SpotLess.CheckpointSafety

/-! Two checkpoint threads over the replica's own checkpoint messages: what their release loops leave in the
transaction table, and the hand-over between them that leaves a manager behind. -/

namespace SpotLess.Checkpoint

open Lib

variable (cfg : Config) (nodeId : ℕ)

def Interval (id : ℕ) : Prop := (id + 6) % txnPerChkpt cfg = 0

instance (id : ℕ) : Decidable (Interval cfg id) := inferInstanceAs (Decidable (_ = _))

-- The other threads take up transactions that are not yet deleted. They leave the manager of a checkpoint alone
-- once the batches below it have run, and have given it back when its message is sent.
def OwnRun (s : State) : Event → Prop
  | .deliver _ _ => False
  | .borrow id => s.lastDeletedTxnMan ≤ id ∧ (Interval cfg id → s.nextIndex ≤ id)
  | .sendCheckpoints =>
    ∀ k ∈ s.executed, (k + 1) % txnPerChkpt cfg = 0 → (s.manager (sub64 k 5)).txnReady = true
  | .execute | .giveBack _ | .thread _ => True

namespace Pc

def marking : Pc → Option ℕ
  | .marked id => some id
  | _ => none

def releases : Pc → Option ℕ
  | .lower id _ holding2 i => if i < holding2 ∧ i < delRange cfg id then some i else none
  | .upper id _ _ i => if i < delRange cfg id then some i else none
  | .last _ start => some start
  | _ => none

end Pc

-- No thread takes its range while the identifier last held by the other lies inside it, and identifiers fit
-- `g_last_stable_chkpt`.
def Clear (s : State) : Event → Prop
  | .sendCheckpoints => s.nextIndex ≤ 2 ^ 32
  | .thread t => ∀ id ∈ (s.pc t).marking,
    ¬ (s.lastDeletedTxnMan < s.chkptHolding (!t) ∧ s.chkptHolding (!t) < delRange cfg id)
  | .execute | .deliver _ _ | .borrow _ | .giveBack _ => True

instance (s : State) : (e : Event) → Decidable (OwnRun cfg s e)
  | .deliver _ _ => inferInstanceAs (Decidable False)
  | .borrow id => inferInstanceAs (Decidable (_ ∧ (Interval cfg id → _)))
  | .sendCheckpoints => inferInstanceAs (Decidable (∀ k ∈ s.executed, _))
  | .execute | .giveBack _ | .thread _ => inferInstanceAs (Decidable True)

instance (s : State) : (e : Event) → Decidable (Clear cfg s e)
  | .sendCheckpoints => inferInstanceAs (Decidable (_ ≤ _))
  | .thread t => inferInstanceAs (Decidable (∀ id ∈ (s.pc t).marking, _))
  | .execute | .deliver _ _ | .borrow _ | .giveBack _ => inferInstanceAs (Decidable True)

-- The half of `Clear` that the order of the messages rests on.
def Fits (s : State) : Event → Prop
  | .sendCheckpoints => s.nextIndex ≤ 2 ^ 32
  | .execute | .deliver _ _ | .borrow _ | .giveBack _ | .thread _ => True

structure Exact (s : State) : Prop where
  swept : (∀ t, s.pc t = .idle) → ∀ id < s.lastDeletedTxnMan, s.managers id = none
  released : ∀ x ∈ s.released, x.id < s.lastDeletedTxnMan
  apart : ∀ t id, (s.pc t).releases cfg = some id → (s.pc !t).acquires ≠ some id

variable {cfg nodeId} {s s' u : State} {t : Bool} {id k : ℕ} {pc : Pc}

lemma OwnRun.fromFaulty {e : Event} (h : OwnRun cfg s e) : FromFaulty ∅ s e := by
  cases e with
  | deliver r id => exact False.elim h
  | _ => trivial

lemma Clear.fits {e : Event} (h : Clear cfg s e) : Fits s e := by
  cases e with
  | sendCheckpoints => exact h
  | _ => trivial

lemma txnPerChkpt_eq : txnPerChkpt cfg = 2 * keptRange cfg := by
  rw [txnPerChkpt, keptRange]
  ring

variable (cfg) in
lemma keptRange_ge : 80 ≤ keptRange cfg := by
  have hn := cfg.nodeCnt_pos
  have hb := cfg.five_le_batch
  have hnb : 5 ≤ cfg.nodeCnt * cfg.batchSize := hb.trans (Nat.le_mul_of_pos_left _ hn)
  have hkept : keptRange cfg = 16 * (cfg.nodeCnt * cfg.batchSize) := by
    rw [keptRange]
    ring
  omega

lemma Interval.ge (h : Interval cfg id) : 2 * keptRange cfg ≤ id + 6 := by
  have hdvd := Nat.dvd_of_mod_eq_zero h
  rw [txnPerChkpt_eq] at hdvd
  exact Nat.le_of_dvd (Nat.succ_pos _) hdvd

lemma Interval.delRange_eq (h : Interval cfg id) : delRange cfg id = id - keptRange cfg := by
  have hge := h.ge
  have hkept := keptRange_ge cfg
  exact sub64_of_le (by omega)

lemma Interval.ne_of_kept {d : ℕ} (h : Interval cfg id) (hd : Interval cfg (d + keptRange cfg)) : d ≠ id := by
  rintro rfl
  have hkept := keptRange_ge cfg
  have hdvd : txnPerChkpt cfg ∣ d + 6 := Nat.dvd_of_mod_eq_zero h
  have hdvd' : txnPerChkpt cfg ∣ d + keptRange cfg + 6 := Nat.dvd_of_mod_eq_zero hd
  have hsum : d + keptRange cfg + 6 = keptRange cfg + (d + 6) := by ring
  rw [hsum] at hdvd'
  have hself := (Nat.dvd_add_iff_left hdvd).mpr hdvd'
  have hle := Nat.le_of_dvd (by omega) hself
  rw [txnPerChkpt_eq] at hle
  omega

@[simp] lemma State.goto_pc_self : (s.goto t pc).pc t = pc := Function.update_self ..

@[simp] lemma State.goto_pc_not : (s.goto t pc).pc (!t) = s.pc !t := Function.update_of_ne (by simp) ..

lemma State.txnReady_modify_true : ((s.modify id fun m => { m with txnReady := true }).manager id).txnReady = true := by
  cases hm : s.managers id with
  | none => simp [State.manager, State.modify, hm]
  | some m => simp [State.manager, State.modify, hm]

lemma State.txnReady_releaseTxnMan (hk : ((s.releaseTxnMan id).manager k).txnReady = false) :
    (s.manager k).txnReady = false := by
  rw [State.manager_releaseTxnMan] at hk
  split_ifs at hk
  exact hk

section Ordered

variable (cfg)

-- A checkpoint that has been announced; `executed` is set between a batch and its `send_checkpoints`.
structure Due (s : State) (id : ℕ) : Prop where
  interval : Interval cfg id
  fits : id < 2 ^ 32
  executed : id + 6 ≤ s.nextIndex
  before : s.executed ≠ none → id + 6 < s.nextIndex

def Known (s : State) (id : ℕ) : Prop := id = 0 ∨ Due cfg s id

def Pc.recorded : Pc → Option ℕ
  | .idle | .popped _ | .yielding => none
  | .held id | .admitted id | .acquired id | .counted id | .marked id | .lower id _ _ _ | .upper id _ _ _
  | .settle id _ _ | .stalled id _ | .woken id _ | .last id _ | .finished id => some id

structure Popped (s : State) (t : Bool) (id : ℕ) : Prop where
  due : Due cfg s id
  fresh : s.chkptHolding t < id
  other : s.chkptHolding (!t) ≠ id
  pc : s.pc (!t) ≠ .popped id
  queue : ∀ k ∈ s.queue, id < k

structure Ordered (s : State) : Prop where
  stable : Known cfg s s.lastStableChkpt
  holding : ∀ t, Known cfg s (s.chkptHolding t)
  apart : ∀ t, s.chkptHolding t = s.chkptHolding (!t) → s.chkptHolding t = 0
  queue : ∀ id ∈ s.queue, Due cfg s id ∧ s.lastStableChkpt < id ∧ ∀ t, s.chkptHolding t < id
  sorted : s.queue.Pairwise (· < ·)
  popped : ∀ t id, s.pc t = .popped id → Popped cfg s t id
  recorded : ∀ t id, (s.pc t).recorded = some id → s.chkptHolding t = id ∧ 0 < id
  latched : ∀ id, Due cfg s id → (s.manager id).txnReady = false → ∃ t, (s.pc t).acquires = some id

variable {cfg}

lemma Pc.recorded_of_acquires (h : pc.acquires = some id) : pc.recorded = some id := by
  cases pc with
  | idle | popped | held | admitted | yielding => cases h
  | _ => exact h

lemma ordered_init : Ordered cfg init where
  stable := .inl rfl
  holding := fun _ => .inl rfl
  apart := fun _ _ => rfl
  queue := by simp [init]
  sorted := .nil
  popped := by simp [init]
  recorded := by simp [init, Pc.recorded]
  latched := by simp [init, State.manager]

lemma Due.congr (h : Due cfg s id) (hnext : u.nextIndex = s.nextIndex) (hexec : u.executed = s.executed) :
    Due cfg u id := by
  refine ⟨h.interval, h.fits, ?_, ?_⟩
  · rw [hnext]
    exact h.executed
  · rw [hnext, hexec]
    exact h.before

lemma Known.congr (h : Known cfg s id) (hnext : u.nextIndex = s.nextIndex) (hexec : u.executed = s.executed) :
    Known cfg u id :=
  h.imp_right fun hd => hd.congr hnext hexec

namespace Ordered

lemma due_recorded (h : Ordered cfg s) (hpc : (s.pc t).recorded = some id) : Due cfg s id := by
  obtain ⟨hid, hpos⟩ := h.recorded t id hpc
  rcases h.holding t with h0 | hdue
  · omega
  · rwa [hid] at hdue

lemma ready_of_admitted (h : Ordered cfg s) (hpc : s.pc t = .admitted id) : (s.manager id).txnReady = true := by
  have hrec : (s.pc t).recorded = some id := by
    rw [hpc]
    rfl
  obtain ⟨hid, hpos⟩ := h.recorded t id hrec
  by_contra hready
  obtain ⟨v, hv⟩ := h.latched id (h.due_recorded hrec) (by simpa using hready)
  rcases Bool.eq_or_eq_not v t with rfl | rfl
  · rw [hpc] at hv
    cases hv
  · obtain ⟨hother, -⟩ := h.recorded (!t) id (Pc.recorded_of_acquires hv)
    have h0 := h.apart t (hid.trans hother.symm)
    omega

end Ordered

structure Keeps (s u : State) : Prop where
  nextIndex : u.nextIndex = s.nextIndex
  executed : u.executed = s.executed
  queue : u.queue = s.queue
  lastStableChkpt : u.lastStableChkpt = s.lastStableChkpt
  chkptHolding : u.chkptHolding = s.chkptHolding
  pc : u.pc = s.pc

lemma Keeps.refl : Keeps s s := ⟨rfl, rfl, rfl, rfl, rfl, rfl⟩

lemma keeps_modify {f : TxnManager → TxnManager} : Keeps s (s.modify id f) := ⟨rfl, rfl, rfl, rfl, rfl, rfl⟩

lemma keeps_releaseTxnMan : Keeps s (s.releaseTxnMan id) := by
  rw [State.releaseTxnMan]
  split <;> exact ⟨rfl, rfl, rfl, rfl, rfl, rfl⟩

lemma Ordered.advance (h : Ordered cfg s) (hk : Keeps s u) (hpop : ∀ id, pc ≠ .popped id)
    (hrec : ∀ id, pc.recorded = some id → (s.pc t).recorded = some id)
    (hlatch : ∀ id, (u.manager id).txnReady = false →
      pc.acquires = some id ∨ (s.manager id).txnReady = false ∧ (s.pc t).acquires ≠ some id) :
    Ordered cfg (u.goto t pc) := by
  have hdue : ∀ {id}, Due cfg s id → Due cfg (u.goto t pc) id := fun hd => hd.congr hk.nextIndex hk.executed
  refine ⟨?_, ?_, ?_, ?_, ?_, ?_, ?_, ?_⟩
  · show Known cfg (u.goto t pc) u.lastStableChkpt
    rw [hk.lastStableChkpt]
    exact h.stable.congr hk.nextIndex hk.executed
  · intro v
    show Known cfg (u.goto t pc) (u.chkptHolding v)
    rw [hk.chkptHolding]
    exact (h.holding v).congr hk.nextIndex hk.executed
  · show ∀ v, u.chkptHolding v = u.chkptHolding (!v) → u.chkptHolding v = 0
    rw [hk.chkptHolding]
    exact h.apart
  · show ∀ id ∈ u.queue, Due cfg _ id ∧ u.lastStableChkpt < id ∧ ∀ v, u.chkptHolding v < id
    rw [hk.queue, hk.lastStableChkpt, hk.chkptHolding]
    exact fun id hid => ⟨hdue (h.queue id hid).1, (h.queue id hid).2⟩
  · show u.queue.Pairwise (· < ·)
    rw [hk.queue]
    exact h.sorted
  · intro v id hv
    rcases Bool.eq_or_eq_not v t with rfl | rfl
    · rw [State.goto_pc_self] at hv
      exact absurd hv (hpop id)
    · rw [State.goto_pc_not, hk.pc] at hv
      have hold := h.popped (!t) id hv
      refine ⟨hdue hold.due, ?_, ?_, ?_, ?_⟩
      · show u.chkptHolding (!t) < id
        rw [hk.chkptHolding]
        exact hold.fresh
      · show u.chkptHolding (!!t) ≠ id
        rw [hk.chkptHolding]
        exact hold.other
      · rw [Bool.not_not, State.goto_pc_self]
        exact hpop id
      · show ∀ k ∈ u.queue, id < k
        rw [hk.queue]
        exact hold.queue
  · intro v id hv
    show u.chkptHolding v = id ∧ 0 < id
    rw [hk.chkptHolding]
    rcases Bool.eq_or_eq_not v t with rfl | rfl
    · rw [State.goto_pc_self] at hv
      exact h.recorded v id (hrec id hv)
    · rw [State.goto_pc_not, hk.pc] at hv
      exact h.recorded (!t) id hv
  · intro id hd hready
    have hready : (u.manager id).txnReady = false := hready
    rcases hlatch id hready with hpc | ⟨hold, hne⟩
    · exact ⟨t, by rw [State.goto_pc_self, hpc]⟩
    · obtain ⟨v, hv⟩ := h.latched id (hd.congr hk.nextIndex.symm hk.executed.symm) hold
      rcases Bool.eq_or_eq_not v t with rfl | rfl
      · exact absurd hv hne
      · exact ⟨!t, by rw [State.goto_pc_not, hk.pc, hv]⟩

lemma Ordered.go (h : Ordered cfg s) (hk : Keeps s u) (hmanager : u.managers = s.managers)
    (hpop : ∀ id, pc ≠ .popped id) (hrec : ∀ id, pc.recorded = some id → (s.pc t).recorded = some id)
    (hacq : ∀ id, (s.pc t).acquires = some id → pc.acquires = some id) : Ordered cfg (u.goto t pc) := by
  refine h.advance hk hpop hrec fun id hready => ?_
  have hready : (s.manager id).txnReady = false := by
    rwa [State.manager, hmanager] at hready
  by_cases hpc : (s.pc t).acquires = some id
  · exact .inl (hacq id hpc)
  · exact .inr ⟨hready, hpc⟩

lemma Ordered.goRelease {i : ℕ} (h : Ordered cfg s) (hpop : ∀ id, pc ≠ .popped id)
    (hrec : ∀ id, pc.recorded = some id → (s.pc t).recorded = some id)
    (hacq : ∀ id, (s.pc t).acquires = some id → pc.acquires = some id) :
    Ordered cfg ((s.releaseTxnMan i).goto t pc) := by
  refine h.advance keeps_releaseTxnMan hpop hrec fun id hready => ?_
  by_cases hpc : (s.pc t).acquires = some id
  · exact .inl (hacq id hpc)
  · exact .inr ⟨State.txnReady_releaseTxnMan hready, hpc⟩

lemma Ordered.pop {rest : List ℕ} (h : Ordered cfg s) (hp : s.pc t = .idle) (hq : s.queue = id :: rest) :
    Ordered cfg ({ s with queue := rest }.goto t (.popped id)) := by
  have hid := h.queue id (hq ▸ List.mem_cons_self)
  have hsorted := h.sorted
  rw [hq, List.pairwise_cons] at hsorted
  have hrest : ∀ k ∈ rest, k ∈ s.queue := fun k hk => hq ▸ List.mem_cons_of_mem id hk
  refine ⟨h.stable.congr rfl rfl, fun v => (h.holding v).congr rfl rfl, h.apart, ?_, hsorted.2, ?_, ?_, ?_⟩
  · intro k hk
    have hold := h.queue k (hrest k hk)
    exact ⟨hold.1.congr rfl rfl, hold.2⟩
  · intro v k hv
    rcases Bool.eq_or_eq_not v t with rfl | rfl
    · rw [State.goto_pc_self] at hv
      obtain rfl := Pc.popped.inj hv
      refine ⟨hid.1.congr rfl rfl, hid.2.2 v, (hid.2.2 (!v)).ne, ?_, hsorted.1⟩
      rw [State.goto_pc_not]
      intro hother
      have hlt := (h.popped (!v) id hother).queue id (hq ▸ List.mem_cons_self)
      exact lt_irrefl _ hlt
    · rw [State.goto_pc_not] at hv
      have hold := h.popped (!t) k hv
      refine ⟨hold.due.congr rfl rfl, hold.fresh, hold.other, ?_, fun j hj => hold.queue j (hrest j hj)⟩
      rw [Bool.not_not, State.goto_pc_self]
      intro hpc
      obtain rfl := Pc.popped.inj hpc
      exact lt_irrefl _ (hold.queue id (hq ▸ List.mem_cons_self))
  · intro v k hv
    rcases Bool.eq_or_eq_not v t with rfl | rfl
    · rw [State.goto_pc_self] at hv
      cases hv
    · rw [State.goto_pc_not] at hv
      exact h.recorded (!t) k hv
  · intro k hd hready
    obtain ⟨v, hv⟩ := h.latched k (hd.congr rfl rfl) hready
    rcases Bool.eq_or_eq_not v t with rfl | rfl
    · rw [hp] at hv
      cases hv
    · exact ⟨!t, by rw [State.goto_pc_not, hv]⟩

structure Records (s : State) (t : Bool) (id : ℕ) (u : State) : Prop where
  nextIndex : u.nextIndex = s.nextIndex
  executed : u.executed = s.executed
  queue : u.queue = s.queue
  lastStableChkpt : u.lastStableChkpt = s.lastStableChkpt
  managers : u.managers = s.managers
  self : u.chkptHolding t = id
  other : u.chkptHolding (!t) = s.chkptHolding !t
  pc : u.pc = s.pc

lemma Ordered.hold (h : Ordered cfg s) (hp : s.pc t = .popped id) (hr : Records s t id u) :
    Ordered cfg (u.goto t (.held id)) := by
  have hid := h.popped t id hp
  have hdue : ∀ {k}, Due cfg s k → Due cfg (u.goto t (.held id)) k := fun hd => hd.congr hr.nextIndex hr.executed
  refine ⟨?_, ?_, ?_, ?_, ?_, ?_, ?_, ?_⟩
  · show Known cfg _ u.lastStableChkpt
    rw [hr.lastStableChkpt]
    exact h.stable.congr hr.nextIndex hr.executed
  · intro v
    show Known cfg _ (u.chkptHolding v)
    rcases Bool.eq_or_eq_not v t with rfl | rfl
    · rw [hr.self]
      exact .inr (hdue hid.due)
    · rw [hr.other]
      exact (h.holding (!t)).congr hr.nextIndex hr.executed
  · intro v hv
    refine absurd hv ?_
    show u.chkptHolding v ≠ u.chkptHolding !v
    rcases Bool.eq_or_eq_not v t with rfl | rfl
    · rw [hr.self, hr.other]
      exact hid.other.symm
    · rw [Bool.not_not, hr.self, hr.other]
      exact hid.other
  · show ∀ k ∈ u.queue, Due cfg _ k ∧ u.lastStableChkpt < k ∧ ∀ v, u.chkptHolding v < k
    rw [hr.queue, hr.lastStableChkpt]
    intro k hk
    have hold := h.queue k hk
    refine ⟨hdue hold.1, hold.2.1, fun v => ?_⟩
    rcases Bool.eq_or_eq_not v t with rfl | rfl
    · rw [hr.self]
      exact hid.queue k hk
    · rw [hr.other]
      exact hold.2.2 (!t)
  · show u.queue.Pairwise (· < ·)
    rw [hr.queue]
    exact h.sorted
  · intro v k hv
    rcases Bool.eq_or_eq_not v t with rfl | rfl
    · rw [State.goto_pc_self] at hv
      cases hv
    · rw [State.goto_pc_not, hr.pc] at hv
      have hold := h.popped (!t) k hv
      refine ⟨hdue hold.due, ?_, ?_, ?_, ?_⟩
      · show u.chkptHolding (!t) < k
        rw [hr.other]
        exact hold.fresh
      · show u.chkptHolding (!!t) ≠ k
        rw [Bool.not_not, hr.self]
        rintro rfl
        exact hid.pc hv
      · simp
      · show ∀ j ∈ u.queue, k < j
        rw [hr.queue]
        exact hold.queue
  · intro v k hv
    show u.chkptHolding v = k ∧ 0 < k
    rcases Bool.eq_or_eq_not v t with rfl | rfl
    · rw [State.goto_pc_self] at hv
      obtain rfl : id = k := Option.some.inj hv
      exact ⟨hr.self, Nat.zero_lt_of_lt hid.fresh⟩
    · rw [State.goto_pc_not, hr.pc] at hv
      rw [hr.other]
      exact h.recorded (!t) k hv
  · intro k hd hready
    have hready : (s.manager k).txnReady = false := by
      rw [State.manager, ← hr.managers]
      exact hready
    obtain ⟨v, hv⟩ := h.latched k (hd.congr hr.nextIndex.symm hr.executed.symm) hready
    rcases Bool.eq_or_eq_not v t with rfl | rfl
    · rw [hp] at hv
      cases hv
    · exact ⟨!t, by rw [State.goto_pc_not, hr.pc, hv]⟩

variable (s) in
lemma lastStableChkpt_setCurrChkpt (hid : id < 2 ^ 32) :
    (s.setCurrChkpt id).lastStableChkpt = max s.lastStableChkpt id := by
  rw [State.setCurrChkpt]
  split_ifs with hlt
  · rw [max_eq_right hlt.le]
    exact Nat.mod_eq_of_lt hid
  · exact (max_eq_left (by omega)).symm

lemma Ordered.setCurrChkpt (h : Ordered cfg s) (hid : (s.pc t).recorded = some id) :
    Ordered cfg (s.setCurrChkpt id) := by
  have hdue := h.due_recorded hid
  have hmax := lastStableChkpt_setCurrChkpt s hdue.fits
  rw [State.setCurrChkpt] at hmax ⊢
  split_ifs at hmax ⊢ with hlt
  · refine ⟨?_, fun v => (h.holding v).congr rfl rfl, h.apart, ?_, h.sorted, ?_, h.recorded, ?_⟩
    · rw [hmax, max_eq_right hlt.le]
      exact .inr (hdue.congr rfl rfl)
    · intro k hk
      have hold := h.queue k hk
      refine ⟨hold.1.congr rfl rfl, ?_, hold.2.2⟩
      rw [hmax, max_lt_iff, ← (h.recorded t id hid).1]
      exact ⟨hold.2.1, hold.2.2 t⟩
    · intro v k hv
      have hold := h.popped v k hv
      exact ⟨hold.due.congr rfl rfl, hold.fresh, hold.other, hold.pc, hold.queue⟩
    · intro k hd hready
      exact h.latched k (hd.congr rfl rfl) hready
  · exact h

lemma records_popped {b : Bool → Bool} :
    Records s t id { s with chkptHolding := Function.update s.chkptHolding t id, isChkptHolding := b } where
  nextIndex := rfl
  executed := rfl
  queue := rfl
  lastStableChkpt := rfl
  managers := rfl
  self := Function.update_self ..
  other := Function.update_of_ne (by simp) ..
  pc := rfl

lemma Ordered.count (h : Ordered cfg s) (hp : s.pc t = .acquired id) (f : TxnManager → TxnManager)
    (hf : ∀ m, (f m).txnReady = m.txnReady) (hpop : ∀ id, pc ≠ .popped id) (hrec : pc.recorded = some id)
    (hacq : pc.acquires = some id) : Ordered cfg ((s.modify id f).goto t pc) := by
  refine h.advance keeps_modify hpop ?_ fun k hk => ?_
  · intro k hk
    rw [hp]
    exact hrec.symm.trans hk
  · rw [State.field_modify TxnManager.txnReady hf] at hk
    by_cases hki : k = id
    · exact .inl (hki ▸ hacq)
    · exact .inr ⟨hk, by simpa [hp, Pc.acquires] using Ne.symm hki⟩

lemma ordered_threadStep (h : Ordered cfg s) (hs : s.threadStep cfg t = some s') : Ordered cfg s' := by
  cases hp : s.pc t with
  | idle =>
    simp only [State.threadStep, hp] at hs
    split at hs
    · rename_i id rest hq
      obtain rfl := Option.some.inj hs
      exact h.pop hp hq
    · cases hs
  | popped id =>
    simp only [State.threadStep, hp] at hs
    obtain rfl := Option.some.inj hs
    exact h.hold hp records_popped
  | held id =>
    simp only [State.threadStep, hp] at hs
    obtain rfl := Option.some.inj hs
    split_ifs
    · exact h.go .refl rfl (by simp) (by simp [Pc.recorded]) (by simp [hp, Pc.acquires])
    · exact h.go .refl rfl (by simp) (by simp [hp, Pc.recorded]) (by simp [hp, Pc.acquires])
  | admitted id =>
    have hready := h.ready_of_admitted hp
    simp only [State.threadStep, hp, State.manager_getTransactionManager, hready, if_true] at hs
    obtain rfl := Option.some.inj hs
    refine h.advance ⟨rfl, rfl, rfl, rfl, rfl, rfl⟩ (by simp) (by simp [hp, Pc.recorded]) fun k hk => ?_
    by_cases hki : k = id
    · exact .inl (by rw [hki]; rfl)
    · rw [State.manager_modify _ hki, State.manager_getTransactionManager] at hk
      exact .inr ⟨hk, by simp [hp, Pc.acquires]⟩
  | acquired id =>
    simp only [State.threadStep, hp] at hs
    split_ifs at hs
    · obtain rfl := Option.some.inj hs
      exact h.go .refl rfl (by simp) (by simp [hp, Pc.recorded]) (by simp [hp, Pc.acquires])
    · obtain rfl := Option.some.inj hs
      exact h.count hp _ (fun _ => rfl) (by simp) rfl rfl
    · obtain rfl := Option.some.inj hs
      exact h.count hp _ (fun _ => rfl) (by simp) rfl rfl
  | counted id =>
    simp only [State.threadStep, hp] at hs
    obtain rfl := Option.some.inj hs
    have hrec : (s.pc t).recorded = some id := by
      rw [hp]
      rfl
    have hpc : (s.setCurrChkpt id).pc = s.pc := by
      rw [State.setCurrChkpt]
      split_ifs <;> rfl
    exact (h.setCurrChkpt hrec).go .refl rfl (by simp) (by simp [hpc, hp, Pc.recorded]) (by simp [hpc, hp, Pc.acquires])
  | lower id start holding2 i | upper id start holding2 i =>
    simp only [State.threadStep, hp] at hs
    split_ifs at hs
    · obtain rfl := Option.some.inj hs
      exact h.goRelease (by simp) (by simp [hp, Pc.recorded]) (by simp [hp, Pc.acquires])
    · obtain rfl := Option.some.inj hs
      exact h.go .refl rfl (by simp) (by simp [hp, Pc.recorded]) (by simp [hp, Pc.acquires])
  | settle id start holding2 =>
    simp only [State.threadStep, hp] at hs
    split_ifs at hs
    all_goals
      obtain rfl := Option.some.inj hs
      exact h.go ⟨rfl, rfl, rfl, rfl, rfl, rfl⟩ rfl (by simp) (by simp [hp, Pc.recorded]) (by simp [hp, Pc.acquires])
  | stalled id start =>
    simp only [State.threadStep, hp] at hs
    split_ifs at hs
    obtain rfl := Option.some.inj hs
    exact h.go ⟨rfl, rfl, rfl, rfl, rfl, rfl⟩ rfl (by simp) (by simp [hp, Pc.recorded]) (by simp [hp, Pc.acquires])
  | last id start =>
    simp only [State.threadStep, hp] at hs
    obtain rfl := Option.some.inj hs
    exact h.goRelease (by simp) (by simp [hp, Pc.recorded]) (by simp [hp, Pc.acquires])
  | finished id =>
    simp only [State.threadStep, hp] at hs
    obtain rfl := Option.some.inj hs
    refine h.advance keeps_modify (by simp) (by simp [Pc.recorded]) fun k hk => .inr ?_
    by_cases hki : k = id
    · rw [hki, State.txnReady_modify_true] at hk
      cases hk
    · rw [State.manager_modify _ hki] at hk
      exact ⟨hk, by simpa [hp, Pc.acquires] using Ne.symm hki⟩
  | marked id | woken id start | yielding =>
    simp only [State.threadStep, hp] at hs
    obtain rfl := Option.some.inj hs
    exact h.go ⟨rfl, rfl, rfl, rfl, rfl, rfl⟩ rfl (by simp) (by simp [hp, Pc.recorded]) (by simp [hp, Pc.acquires])

lemma Ordered.beside (h : Ordered cfg s) (new : List ℕ) (hdue : ∀ id, Due cfg s id → Due cfg u id)
    (hstable : u.lastStableChkpt = s.lastStableChkpt) (hholding : u.chkptHolding = s.chkptHolding)
    (hpc : u.pc = s.pc) (hqueue : u.queue = s.queue ++ new) (hsorted : new.Pairwise (· < ·))
    (hnew : ∀ id ∈ new, Due cfg u id ∧ ∀ k, Known cfg s k → k < id)
    (hlatch : ∀ id, Due cfg u id → (u.manager id).txnReady = false → Due cfg s id ∧ (s.manager id).txnReady = false) :
    Ordered cfg u := by
  refine ⟨?_, ?_, ?_, ?_, ?_, ?_, ?_, ?_⟩
  · rw [hstable]
    exact h.stable.imp_right (hdue _)
  · rw [hholding]
    exact fun v => (h.holding v).imp_right (hdue _)
  · rw [hholding]
    exact h.apart
  · rw [hqueue, hstable, hholding]
    intro k hk
    rcases List.mem_append.mp hk with hk | hk
    · exact ⟨hdue k (h.queue k hk).1, (h.queue k hk).2⟩
    · exact ⟨(hnew k hk).1, (hnew k hk).2 _ h.stable, fun v => (hnew k hk).2 _ (h.holding v)⟩
  · rw [hqueue, List.pairwise_append]
    exact ⟨h.sorted, hsorted, fun j hj k hk => (hnew k hk).2 j (.inr (h.queue j hj).1)⟩
  · rw [hpc]
    intro v k hv
    have hold := h.popped v k hv
    refine ⟨hdue k hold.due, ?_, ?_, ?_, ?_⟩
    · rw [hholding]
      exact hold.fresh
    · rw [hholding]
      exact hold.other
    · rw [hpc]
      exact hold.pc
    · rw [hqueue]
      intro j hj
      rcases List.mem_append.mp hj with hj | hj
      · exact hold.queue j hj
      · exact (hnew j hj).2 k (.inr hold.due)
  · rw [hpc, hholding]
    exact h.recorded
  · intro k hd hready
    obtain ⟨hd, hready⟩ := hlatch k hd hready
    rw [hpc]
    exact h.latched k hd hready

lemma batchSize_dvd_step {e : Event} (h : cfg.batchSize ∣ s.nextIndex) (hs : step cfg nodeId s e = some s') :
    cfg.batchSize ∣ s'.nextIndex := by
  cases e with
  | execute =>
    simp only [step] at hs
    split_ifs at hs
    obtain rfl := Option.some.inj hs
    exact Nat.dvd_add h dvd_rfl
  | sendCheckpoints =>
    obtain ⟨id, -, rfl⟩ := Option.map_eq_some_iff.mp hs
    simp only [State.sendCheckpoints]
    split_ifs <;> exact h
  | deliver r id | giveBack id =>
    simp only [step] at hs
    split_ifs at hs
    obtain rfl := Option.some.inj hs
    exact h
  | borrow id =>
    obtain rfl := Option.some.inj hs
    exact h
  | thread t =>
    rw [(threadStep_handles hs).nextIndex]
    exact h

lemma Interval.batchSize_dvd (h : Interval cfg id) : cfg.batchSize ∣ id + 6 := by
  have hdvd : txnPerChkpt cfg ∣ id + 6 := Nat.dvd_of_mod_eq_zero h
  exact Dvd.dvd.trans (Dvd.intro_left _ rfl) ((Dvd.intro _ rfl).trans hdvd)

lemma ordered_execute (h : Ordered cfg s) (hbatch : cfg.batchSize ∣ s.nextIndex) (hexec : s.executed = none) :
    Ordered cfg (s.execute cfg) := by
  have hb := cfg.five_le_batch
  refine h.beside [] ?_ rfl rfl rfl (List.append_nil _).symm .nil (by simp) ?_
  · intro id hd
    have hle := hd.executed
    refine ⟨hd.interval, hd.fits, ?_, fun _ => ?_⟩
    · exact hle.trans (Nat.le_add_right _ _)
    · show id + 6 < s.nextIndex + cfg.batchSize
      omega
  · intro id hd hready
    refine ⟨⟨hd.interval, hd.fits, ?_, fun hne => absurd hexec hne⟩, hready⟩
    have hlt : id + 6 < s.nextIndex + cfg.batchSize := hd.before (by simp [State.execute])
    obtain ⟨a, ha⟩ := hd.interval.batchSize_dvd
    obtain ⟨c, hc⟩ := hbatch
    rw [ha, hc, ← Nat.mul_succ] at hlt
    have hac : a < c + 1 := Nat.lt_of_mul_lt_mul_left hlt
    rw [ha, hc]
    exact Nat.mul_le_mul_left _ (Nat.le_of_lt_succ hac)

lemma ordered_sendCheckpoints (h : Ordered cfg s) (hlast : k + 1 = s.nextIndex) (hexec : s.executed = some k)
    (hfits : s.nextIndex ≤ 2 ^ 32)
    (hfree : (k + 1) % txnPerChkpt cfg = 0 → (s.manager (sub64 k 5)).txnReady = true) :
    Ordered cfg (s.sendCheckpoints cfg nodeId k) := by
  have hkeep : ∀ id, Due cfg s id → id + 6 ≤ s.nextIndex := fun id hd => hd.executed
  have hbefore : ∀ id, Due cfg s id → id + 6 < s.nextIndex := fun id hd => hd.before (by simp [hexec])
  simp only [State.sendCheckpoints]
  split_ifs with hdue
  · have hge : 2 * keptRange cfg ≤ k + 1 := by
      rw [← txnPerChkpt_eq]
      exact Nat.le_of_dvd (Nat.succ_pos k) (Nat.dvd_of_mod_eq_zero hdue)
    have hkept := keptRange_ge cfg
    have hid : sub64 k 5 = k - 5 := sub64_of_le (by omega)
    have hid6 : sub64 k 5 + 6 = k + 1 := by omega
    refine h.beside [sub64 k 5] ?_ rfl rfl rfl rfl (List.pairwise_singleton ..) ?_ ?_
    · exact fun id hd => ⟨hd.interval, hd.fits, hkeep id hd, fun hne => absurd rfl hne⟩
    · intro id hmem
      obtain rfl := List.mem_singleton.mp hmem
      refine ⟨⟨?_, by omega, ?_, fun hne => absurd rfl hne⟩, ?_⟩
      · rw [Interval, hid6]
        exact hdue
      · show sub64 k 5 + 6 ≤ s.nextIndex
        omega
      · rintro j (rfl | hj)
        · omega
        · have hlt := hbefore j hj
          omega
    · intro id hd hready
      have hsame : (s.getTransactionManager k).manager id = s.manager id := State.manager_getTransactionManager
      have hready : (s.manager id).txnReady = false := by
        rw [← hsame]
        exact hready
      have hle : id + 6 ≤ s.nextIndex := hd.executed
      refine ⟨⟨hd.interval, hd.fits, hle, fun _ => ?_⟩, hready⟩
      refine lt_of_le_of_ne hle fun heq => ?_
      have hidk : id = sub64 k 5 := by omega
      rw [hidk, hfree hdue] at hready
      cases hready
  · refine h.beside [] ?_ rfl rfl rfl (by simp) .nil (by simp) ?_
    · exact fun id hd => ⟨hd.interval, hd.fits, hkeep id hd, fun hne => absurd rfl hne⟩
    · intro id hd hready
      have hle : id + 6 ≤ s.nextIndex := hd.executed
      refine ⟨⟨hd.interval, hd.fits, hle, fun _ => ?_⟩, hready⟩
      refine lt_of_le_of_ne hle fun heq => hdue ?_
      rw [hlast, ← heq]
      exact hd.interval

lemma ordered_borrow (h : Ordered cfg s) (hlater : Interval cfg id → s.nextIndex ≤ id) :
    Ordered cfg ((s.getTransactionManager id).modify id fun m => { m with txnReady := false }) := by
  refine h.beside [] (fun _ hd => hd.congr rfl rfl) rfl rfl rfl (List.append_nil _).symm .nil (by simp) ?_
  intro k hd hready
  have hdue : Due cfg s k := hd.congr rfl rfl
  have hne : k ≠ id := by
    rintro rfl
    have hle := hlater hdue.interval
    have hex := hdue.executed
    omega
  rw [State.manager_modify _ hne, State.manager_getTransactionManager] at hready
  exact ⟨hdue, hready⟩

lemma ordered_giveBack (h : Ordered cfg s) : Ordered cfg (s.modify id fun m => { m with txnReady := true }) := by
  refine h.beside [] (fun _ hd => hd.congr rfl rfl) rfl rfl rfl (List.append_nil _).symm .nil (by simp) ?_
  intro k hd hready
  have hne : k ≠ id := by
    rintro rfl
    rw [State.txnReady_modify_true] at hready
    cases hready
  rw [State.manager_modify _ hne] at hready
  exact ⟨hd.congr rfl rfl, hready⟩

lemma ordered_step {e : Event} (h : Ordered cfg s) (hown : Own cfg nodeId s) (hbatch : cfg.batchSize ∣ s.nextIndex)
    (hrun : OwnRun cfg s e) (hfits : Fits s e) (hs : step cfg nodeId s e = some s') : Ordered cfg s' := by
  cases e with
  | execute =>
    simp only [step] at hs
    split_ifs at hs with hexec
    obtain rfl := Option.some.inj hs
    exact ordered_execute h hbatch hexec
  | sendCheckpoints =>
    obtain ⟨k, hexec, rfl⟩ := Option.map_eq_some_iff.mp hs
    exact ordered_sendCheckpoints h (hown.executed k hexec) hexec hfits (hrun k hexec)
  | deliver r id => exact False.elim hrun
  | borrow id =>
    obtain rfl := Option.some.inj hs
    exact ordered_borrow h hrun.2
  | giveBack id =>
    simp only [step] at hs
    split_ifs at hs
    obtain rfl := Option.some.inj hs
    exact ordered_giveBack h
  | thread t => exact ordered_threadStep h hs

lemma ordered_reach (h : Reach (step cfg nodeId) (fun s e => OwnRun cfg s e ∧ Fits s e) init s) : Ordered cfg s := by
  have hbatch : ∀ {s}, Reach (step cfg nodeId) (fun s e => OwnRun cfg s e ∧ Fits s e) init s →
      cfg.batchSize ∣ s.nextIndex := fun h => h.invariant (fun s => cfg.batchSize ∣ s.nextIndex) (dvd_zero _)
    fun _ _ _ _ _ hs hdvd => batchSize_dvd_step hdvd hs
  refine h.invariant (Ordered cfg) ordered_init fun s e s' hr hok hs h => ?_
  have hown : Own cfg nodeId s := own_reach (hr.mono fun _ _ hok => hok.1.fromFaulty)
  exact ordered_step h hown (hbatch hr) hok.1 hok.2 hs

end Ordered

section Sweeping

namespace Pc

def past : Pc → Option ℕ
  | .admitted id => some id
  | pc => pc.acquires

def unmarked : Pc → Option ℕ
  | .popped id | .held id | .admitted id | .acquired id | .counted id | .marked id => some id
  | _ => none

variable (cfg)

-- The range a thread has taken: either it ends below the other thread's message, or it begins above.
def Ranged (deleted : ℕ) : Pc → Prop
  | .lower id start holding2 i => delRange cfg id ≤ deleted ∧ holding2 < 2 ^ 32 ∧
    (delRange cfg id ≤ holding2 ∨ holding2 ≤ start ∧ start = i ∧ start < delRange cfg id)
  | .upper id start holding2 _ | .settle id start holding2 =>
    delRange cfg id ≤ deleted ∧ (holding2 < delRange cfg id → start < delRange cfg id)
  | .stalled _ start | .woken _ start | .last _ start => start < deleted
  | _ => True

def Pending (j : ℕ) : Pc → Prop
  | .lower id _ _ i => i ≤ j ∧ j < delRange cfg id
  | .upper id start holding2 i => i ≤ j ∧ j < delRange cfg id ∨ holding2 < delRange cfg id ∧ j = start
  | .settle id start holding2 => holding2 < delRange cfg id ∧ j = start
  | .stalled _ start | .woken _ start | .last _ start => j = start
  | _ => False

end Pc

variable (cfg)

structure Sound (s : State) (t : Bool) (pc : Pc) : Prop where
  marking : ∀ id, pc.marking = some id → id ≤ s.lastStableChkpt
  past : ∀ id, pc.past = some id → s.lastDeletedTxnMan ≤ id
  unmarked : ∀ id, pc.unmarked = some id →
    s.lastDeletedTxnMan < delRange cfg id ∨ s.lastDeletedTxnMan ≤ s.chkptHolding !t
  ranged : pc.Ranged cfg s.lastDeletedTxnMan

structure Sweeping (s : State) : Prop where
  deleted : s.lastDeletedTxnMan = 0 ∨
    Interval cfg (s.lastDeletedTxnMan + keptRange cfg) ∧ s.lastDeletedTxnMan + keptRange cfg ≤ s.lastStableChkpt
  threads : ∀ t, Sound cfg s t (s.pc t)
  pending : ∀ j < s.lastDeletedTxnMan, s.managers j ≠ none → ∃ t, (s.pc t).Pending cfg j
  released : ∀ x ∈ s.released, x.id < s.lastDeletedTxnMan

variable {cfg}

lemma sweeping_init : Sweeping cfg init where
  deleted := .inl rfl
  threads := fun _ => ⟨by simp [init, Pc.marking], by simp [init, Pc.past, Pc.acquires], by simp [init, Pc.unmarked],
    trivial⟩
  pending := by simp [init]
  released := by simp [init]

lemma Sweeping.exact (h : Sweeping cfg s) : Exact cfg s := by
  refine ⟨?_, h.released, ?_⟩
  · intro hidle j hj
    by_contra hman
    obtain ⟨t, ht⟩ := h.pending j hj hman
    rw [hidle t] at ht
    exact ht
  · intro t id hrel hacq
    have hpast : (s.pc !t).past = some id := by
      revert hacq
      cases s.pc !t <;> simp [Pc.past, Pc.acquires]
    have hle := (h.threads !t).past id hpast
    have hranged := (h.threads t).ranged
    revert hrel hranged
    cases s.pc t with
    | lower k start holding2 i =>
      simp only [Pc.releases, Pc.Ranged]
      split_ifs with hi
      · intro hid hr
        obtain rfl := Option.some.inj hid
        omega
      · simp
    | upper k start holding2 i =>
      simp only [Pc.releases, Pc.Ranged]
      split_ifs with hi
      · intro hid hr
        obtain rfl := Option.some.inj hid
        omega
      · simp
    | last k start =>
      intro hid hr
      obtain rfl : start = id := Option.some.inj hid
      have hr : start < s.lastDeletedTxnMan := hr
      omega
    | _ => simp [Pc.releases]

lemma Sound.frame (h : Sound cfg s t pc) (hdel : u.lastDeletedTxnMan = s.lastDeletedTxnMan)
    (hstable : s.lastStableChkpt ≤ u.lastStableChkpt) (hholding : ∀ v, s.chkptHolding v ≤ u.chkptHolding v) :
    Sound cfg u t pc := by
  refine ⟨fun id hid => (h.marking id hid).trans hstable, ?_, ?_, ?_⟩
  · rw [hdel]
    exact h.past
  · rw [hdel]
    exact fun id hid => (h.unmarked id hid).imp_right fun hle => hle.trans (hholding _)
  · rw [hdel]
    exact h.ranged

lemma Sweeping.frame (h : Sweeping cfg s) (hdel : u.lastDeletedTxnMan = s.lastDeletedTxnMan)
    (hstable : s.lastStableChkpt ≤ u.lastStableChkpt) (hholding : ∀ v, s.chkptHolding v ≤ u.chkptHolding v)
    (hpc : u.pc = s.pc) (hman : ∀ j < s.lastDeletedTxnMan, u.managers j ≠ none → s.managers j ≠ none)
    (hrel : ∀ x ∈ u.released, x ∈ s.released ∨ x.id < s.lastDeletedTxnMan) : Sweeping cfg u := by
  refine ⟨?_, ?_, ?_, ?_⟩
  · rw [hdel]
    exact h.deleted.imp_right fun hd => ⟨hd.1, hd.2.trans hstable⟩
  · rw [hpc]
    exact fun t => (h.threads t).frame hdel hstable hholding
  · rw [hdel, hpc]
    exact fun j hj hne => h.pending j hj (hman j hj hne)
  · rw [hdel]
    exact fun x hx => (hrel x hx).elim (h.released x) fun hlt => hlt

lemma Sweeping.quiet (h : Sweeping cfg s) (hdel : u.lastDeletedTxnMan = s.lastDeletedTxnMan)
    (hstable : u.lastStableChkpt = s.lastStableChkpt) (hholding : u.chkptHolding = s.chkptHolding)
    (hpc : u.pc = s.pc) (hman : ∀ j < s.lastDeletedTxnMan, u.managers j ≠ none → s.managers j ≠ none)
    (hrel : u.released = s.released) : Sweeping cfg u :=
  h.frame hdel hstable.ge (fun v => (congrFun hholding v).ge) hpc hman fun _ hx => .inl (hrel ▸ hx)

lemma Sweeping.goto {pc' : Pc} (h : Sweeping cfg s) (hp : s.pc t = pc) (hsound : Sound cfg s t pc')
    (hpend : ∀ j, s.managers j ≠ none → pc.Pending cfg j → pc'.Pending cfg j) : Sweeping cfg (s.goto t pc') := by
  refine ⟨h.deleted, ?_, ?_, h.released⟩
  · intro v
    rcases Bool.eq_or_eq_not v t with rfl | rfl
    · rw [State.goto_pc_self]
      exact hsound.frame rfl le_rfl fun _ => le_rfl
    · rw [State.goto_pc_not]
      exact (h.threads !t).frame rfl le_rfl fun _ => le_rfl
  · intro j hj hne
    obtain ⟨v, hv⟩ := h.pending j hj hne
    rcases Bool.eq_or_eq_not v t with rfl | rfl
    · rw [hp] at hv
      exact ⟨v, by rw [State.goto_pc_self]; exact hpend j hne hv⟩
    · exact ⟨!t, by rwa [State.goto_pc_not]⟩

lemma managers_modify_ne_none {f : TxnManager → TxnManager} (h : (s.modify id f).managers k ≠ none) :
    s.managers k ≠ none := by
  by_cases hk : k = id
  · subst hk
    simpa [State.modify] using h
  · simpa [State.modify, hk] using h

lemma managers_getTransactionManager_ne_none (h : (s.getTransactionManager id).managers k ≠ none) (hk : k ≠ id) :
    s.managers k ≠ none := by
  simpa [State.getTransactionManager, hk] using h

lemma managers_releaseTxnMan_ne_none (h : (s.releaseTxnMan id).managers k ≠ none) :
    k ≠ id ∧ s.managers k ≠ none := by
  rw [State.releaseTxnMan] at h
  split at h
  · by_cases hk : k = id
    · simp [hk] at h
    · exact ⟨hk, by simpa [hk] using h⟩
  · rename_i hnone
    refine ⟨?_, h⟩
    rintro rfl
    exact h hnone

lemma Sweeping.modify {f : TxnManager → TxnManager} (h : Sweeping cfg s) : Sweeping cfg (s.modify id f) :=
  h.quiet rfl rfl rfl rfl (fun _ _ hne => managers_modify_ne_none hne) rfl

lemma Sweeping.getTransactionManager (h : Sweeping cfg s) (hid : s.lastDeletedTxnMan ≤ id) :
    Sweeping cfg (s.getTransactionManager id) := by
  refine h.quiet rfl rfl rfl rfl ?_ rfl
  intro j hj hne
  exact managers_getTransactionManager_ne_none hne (by omega)

lemma Sweeping.release (h : Sweeping cfg s) (hid : id < s.lastDeletedTxnMan) : Sweeping cfg (s.releaseTxnMan id) := by
  rw [State.releaseTxnMan]
  split
  · refine h.frame rfl le_rfl (fun _ => le_rfl) rfl ?_ ?_
    · intro j _ hne
      by_cases hj : j = id
      · simp [hj] at hne
      · simpa [hj] using hne
    · intro x hx
      rcases List.mem_append.mp hx with hx | hx
      · exact .inl hx
      · rw [List.mem_singleton.mp hx]
        exact .inr hid
  · exact h

lemma Pc.recorded_of_past (h : pc.past = some id) : pc.recorded = some id := by
  cases pc with
  | idle | popped | held | yielding => cases h
  | _ => exact h

lemma Pc.Ranged.mono {d d' : ℕ} (h : pc.Ranged cfg d) (hle : d ≤ d') : pc.Ranged cfg d' := by
  cases pc with
  | lower id start holding2 i | upper id start holding2 i | settle id start holding2 => exact ⟨h.1.trans hle, h.2⟩
  | stalled id start | woken id start | last id start => exact lt_of_lt_of_le h hle
  | _ => trivial

lemma Sweeping.past_le (h : Sweeping cfg s) (ho : Ordered cfg s) (hclear : Clear cfg s (.thread t))
    (hp : s.pc t = .marked id) (hpast : (s.pc !t).past = some k) : delRange cfg id ≤ k := by
  have hrec := Pc.recorded_of_past hpast
  have hle := (h.threads !t).past k hpast
  have hclear := hclear id (by rw [hp]; rfl)
  rw [(ho.recorded (!t) k hrec).1] at hclear
  have hdue := ho.due_recorded hrec
  have hne : s.lastDeletedTxnMan ≠ k := by
    rcases h.deleted with h0 | ⟨hd, -⟩
    · have hpos := (ho.recorded (!t) k hrec).2
      omega
    · exact hdue.interval.ne_of_kept hd
  omega

lemma Sweeping.mark {ranges : List ℕ} (h : Sweeping cfg s) (ho : Ordered cfg s) (hclear : Clear cfg s (.thread t))
    (hp : s.pc t = .marked id) :
    Sweeping cfg (({ s with ranges := ranges }.incLastDeletedTxn (delRange cfg id)).goto t
      (.lower id s.lastDeletedTxnMan (s.chkptHolding !t) s.lastDeletedTxnMan)) := by
  have hsound := h.threads t
  rw [hp] at hsound
  have hstable : id ≤ s.lastStableChkpt := hsound.marking id rfl
  have hpast : s.lastDeletedTxnMan ≤ id := hsound.past id rfl
  have hrec : (s.pc t).recorded = some id := by
    rw [hp]
    rfl
  have hdue := ho.due_recorded hrec
  have hge := hdue.interval.ge
  have hkept := keptRange_ge cfg
  have hdel := hdue.interval.delRange_eq
  have hmax : max s.lastDeletedTxnMan (delRange cfg id) ≤ id := max_le hpast (by omega)
  refine ⟨?_, ?_, ?_, ?_⟩
  · show max s.lastDeletedTxnMan (delRange cfg id) = 0 ∨
      Interval cfg (max s.lastDeletedTxnMan (delRange cfg id) + keptRange cfg) ∧
        max s.lastDeletedTxnMan (delRange cfg id) + keptRange cfg ≤ s.lastStableChkpt
    rcases le_total (delRange cfg id) s.lastDeletedTxnMan with hle | hle
    · rw [max_eq_left hle]
      exact h.deleted
    · have hid : delRange cfg id + keptRange cfg = id := by omega
      rw [max_eq_right hle, hid]
      exact .inr ⟨hdue.interval, hstable⟩
  · intro v
    rcases Bool.eq_or_eq_not v t with rfl | rfl
    · rw [State.goto_pc_self]
      refine ⟨by simp [Pc.marking], ?_, by simp [Pc.unmarked], le_max_right _ _, ?_, ?_⟩
      · intro k hk
        obtain rfl : id = k := Option.some.inj hk
        exact hmax
      · rcases ho.holding !v with h0 | hd
        · rw [h0]
          exact Nat.two_pow_pos 32
        · exact hd.fits
      · have hunmarked := hsound.unmarked id rfl
        have hclear := hclear id (by rw [hp]; rfl)
        omega
    · rw [State.goto_pc_not]
      have hother := h.threads !t
      refine ⟨hother.marking, ?_, ?_, hother.ranged.mono (le_max_left _ _)⟩
      · intro k hk
        exact max_le (hother.past k hk) (h.past_le ho hclear hp hk)
      · intro k hk
        refine .inr ?_
        show max s.lastDeletedTxnMan (delRange cfg id) ≤ s.chkptHolding (!!t)
        rw [Bool.not_not, (ho.recorded t id hrec).1]
        exact hmax
  · intro j hj hne
    have hj : j < max s.lastDeletedTxnMan (delRange cfg id) := hj
    by_cases hold : j < s.lastDeletedTxnMan
    · obtain ⟨v, hv⟩ := h.pending j hold hne
      rcases Bool.eq_or_eq_not v t with rfl | rfl
      · rw [hp] at hv
        exact False.elim hv
      · exact ⟨!t, by rwa [State.goto_pc_not]⟩
    · refine ⟨t, ?_⟩
      rw [State.goto_pc_self]
      exact ⟨by omega, by omega⟩
  · exact fun x hx => (h.released x hx).trans_le (le_max_left _ _)

lemma releaseTxnMan_lastDeletedTxnMan : (s.releaseTxnMan id).lastDeletedTxnMan = s.lastDeletedTxnMan := by
  rw [State.releaseTxnMan]
  split <;> rfl

lemma Sweeping.go {pc' : Pc} (h : Sweeping cfg s) (hu : Sweeping cfg u) (hp : s.pc t = pc) (hpc : u.pc = s.pc)
    (hdel : u.lastDeletedTxnMan = s.lastDeletedTxnMan) (hmark : pc'.marking = none)
    (hpast : ∀ id, pc'.past = some id → pc.past = some id)
    (hunmarked : ∀ id, pc'.unmarked = some id → pc.unmarked = some id)
    (hranged : pc.Ranged cfg s.lastDeletedTxnMan → pc'.Ranged cfg s.lastDeletedTxnMan)
    (hpend : ∀ j, pc.Pending cfg j → pc'.Pending cfg j) : Sweeping cfg (u.goto t pc') := by
  have hsound := hu.threads t
  have hold := h.threads t
  rw [hpc, hp] at hsound
  rw [hp] at hold
  refine hu.goto (hpc ▸ hp) ⟨by simp [hmark], ?_, ?_, ?_⟩ fun j _ => hpend j
  · exact fun id hid => hsound.past id (hpast id hid)
  · exact fun id hid => hsound.unmarked id (hunmarked id hid)
  · rw [hdel]
    exact hranged hold.ranged

lemma Sweeping.goRelease {pc' : Pc} {i : ℕ} (h : Sweeping cfg s) (hp : s.pc t = pc) (hi : i < s.lastDeletedTxnMan)
    (hmark : pc'.marking = none) (hpast : ∀ id, pc'.past = some id → pc.past = some id)
    (hunmarked : pc'.unmarked = none) (hranged : pc'.Ranged cfg s.lastDeletedTxnMan)
    (hpend : ∀ j, j ≠ i → pc.Pending cfg j → pc'.Pending cfg j) :
    Sweeping cfg ((s.releaseTxnMan i).goto t pc') := by
  have hk : Keeps s (s.releaseTxnMan i) := keeps_releaseTxnMan
  have hold := h.threads t
  rw [hp] at hold
  refine (h.release hi).goto (hk.pc ▸ hp) ⟨by simp [hmark], ?_, by simp [hunmarked], ?_⟩ ?_
  · rw [releaseTxnMan_lastDeletedTxnMan]
    exact fun id hid => hold.past id (hpast id hid)
  · rw [releaseTxnMan_lastDeletedTxnMan]
    exact hranged
  · exact fun j hne => hpend j (managers_releaseTxnMan_ne_none hne).1

lemma Sweeping.pop {rest : List ℕ} (h : Sweeping cfg s) (ho : Ordered cfg s) (hp : s.pc t = .idle)
    (hq : s.queue = id :: rest) : Sweeping cfg ({ s with queue := rest }.goto t (.popped id)) := by
  obtain ⟨hdue, hstable, -⟩ := ho.queue id (hq ▸ List.mem_cons_self)
  have hge := hdue.interval.ge
  have hkept := keptRange_ge cfg
  have hdel := hdue.interval.delRange_eq
  have hlt : s.lastDeletedTxnMan < delRange cfg id := by
    rcases h.deleted with h0 | ⟨-, hle⟩ <;> omega
  refine Sweeping.goto (h.quiet rfl rfl rfl rfl (fun _ _ hne => hne) rfl) hp ?_ (by simp [Pc.Pending])
  refine ⟨by simp [Pc.marking], by simp [Pc.past, Pc.acquires], ?_, trivial⟩
  intro k hk
  obtain rfl : id = k := Option.some.inj hk
  exact .inl hlt

lemma Sweeping.hold {b : Bool → Bool} (h : Sweeping cfg s) (ho : Ordered cfg s) (hp : s.pc t = .popped id) :
    Sweeping cfg ({ s with
      chkptHolding := Function.update s.chkptHolding t id
      isChkptHolding := b }.goto t (.held id)) := by
  refine h.go (h.frame rfl le_rfl ?_ rfl (fun _ _ hne => hne) fun _ => .inl) hp rfl rfl rfl
    (fun _ hk => hk) (fun _ hk => hk) (fun hr => hr) fun _ hj => hj
  intro v
  show s.chkptHolding v ≤ Function.update s.chkptHolding t id v
  rcases Bool.eq_or_eq_not v t with rfl | rfl
  · rw [Function.update_self]
    exact (ho.popped v id hp).fresh.le
  · rw [Function.update_of_ne (by simp)]

lemma Sweeping.setCurrChkpt (h : Sweeping cfg s) (ho : Ordered cfg s) (hp : s.pc t = .counted id) :
    Sweeping cfg ((s.setCurrChkpt id).goto t (.marked id)) := by
  have hrec : (s.pc t).recorded = some id := by
    rw [hp]
    rfl
  have hmax := lastStableChkpt_setCurrChkpt s (ho.due_recorded hrec).fits
  have hsound := h.threads t
  rw [hp] at hsound
  have hu : Sweeping cfg (s.setCurrChkpt id) := by
    rw [State.setCurrChkpt] at hmax ⊢
    split_ifs at hmax ⊢
    · exact h.frame rfl (hmax ▸ le_max_left _ _) (fun _ => le_rfl) rfl (fun _ _ hne => hne) fun _ => .inl
    · exact h
  have hpc : (s.setCurrChkpt id).pc t = .counted id := by
    rw [State.setCurrChkpt]
    split_ifs <;> exact hp
  have hold := hu.threads t
  rw [hpc] at hold
  refine hu.goto hpc ⟨?_, hold.past, hold.unmarked, trivial⟩ (by simp [Pc.Pending])
  intro k hk
  obtain rfl : id = k := Option.some.inj hk
  rw [hmax]
  exact le_max_right _ _

lemma sweeping_threadStep (h : Sweeping cfg s) (ho : Ordered cfg s) (hclear : Clear cfg s (.thread t))
    (hs : s.threadStep cfg t = some s') : Sweeping cfg s' := by
  have hsound := h.threads t
  cases hp : s.pc t with
  | idle =>
    simp only [State.threadStep, hp] at hs
    split at hs
    · rename_i id rest hq
      obtain rfl := Option.some.inj hs
      exact h.pop ho hp hq
    · cases hs
  | popped id =>
    simp only [State.threadStep, hp] at hs
    obtain rfl := Option.some.inj hs
    exact h.hold ho hp
  | held id =>
    simp only [State.threadStep, hp] at hs
    obtain rfl := Option.some.inj hs
    rw [hp] at hsound
    split_ifs with hold
    · exact h.go h hp rfl rfl rfl (by simp [Pc.past, Pc.acquires]) (by simp [Pc.unmarked]) (fun hr => hr) fun _ hj => hj
    · refine h.goto hp ⟨by simp [Pc.marking], ?_, hsound.unmarked, trivial⟩ (by simp [Pc.Pending])
      intro k hk
      obtain rfl : id = k := Option.some.inj hk
      rcases h.deleted with h0 | ⟨-, hle⟩ <;> omega
  | admitted id =>
    have hready := ho.ready_of_admitted hp
    simp only [State.threadStep, hp, State.manager_getTransactionManager, hready, if_true] at hs
    obtain rfl := Option.some.inj hs
    rw [hp] at hsound
    have hle : s.lastDeletedTxnMan ≤ id := hsound.past id rfl
    exact h.go (h.getTransactionManager hle).modify hp rfl rfl rfl (fun _ hk => hk) (fun _ hk => hk) (fun hr => hr)
      fun _ hj => hj
  | acquired id =>
    simp only [State.threadStep, hp] at hs
    split_ifs at hs
    · obtain rfl := Option.some.inj hs
      exact h.go h hp rfl rfl rfl (fun _ hk => hk) (by simp [Pc.unmarked]) (fun hr => hr) fun _ hj => hj
    · obtain rfl := Option.some.inj hs
      exact h.go h.modify hp rfl rfl rfl (fun _ hk => hk) (fun _ hk => hk) (fun hr => hr) fun _ hj => hj
    · obtain rfl := Option.some.inj hs
      exact h.go h.modify hp rfl rfl rfl (fun _ hk => hk) (by simp [Pc.unmarked]) (fun hr => hr) fun _ hj => hj
  | counted id =>
    simp only [State.threadStep, hp] at hs
    obtain rfl := Option.some.inj hs
    exact h.setCurrChkpt ho hp
  | marked id =>
    simp only [State.threadStep, hp] at hs
    obtain rfl := Option.some.inj hs
    exact h.mark ho hclear hp
  | lower id start holding2 i =>
    simp only [State.threadStep, hp] at hs
    rw [hp] at hsound
    obtain ⟨hdel, hfits, hrange⟩ := hsound.ranged
    split_ifs at hs with hi
    · obtain rfl := Option.some.inj hs
      refine h.goRelease hp (by omega) rfl (fun _ hk => hk) rfl ⟨hdel, hfits, by omega⟩ ?_
      intro j hne hj
      have hj : i ≤ j ∧ j < delRange cfg id := hj
      exact ⟨by omega, hj.2⟩
    · obtain rfl := Option.some.inj hs
      have hadd : add64 holding2 1 = holding2 + 1 := add64_of_lt (by omega)
      rw [hadd]
      refine h.go h hp rfl rfl rfl (fun _ hk => hk) (fun _ hk => hk) (fun _ => ⟨hdel, by omega⟩) ?_
      intro j hj
      have hj : i ≤ j ∧ j < delRange cfg id := hj
      show holding2 + 1 ≤ j ∧ j < delRange cfg id ∨ holding2 < delRange cfg id ∧ j = start
      omega
  | upper id start holding2 i =>
    simp only [State.threadStep, hp] at hs
    rw [hp] at hsound
    obtain ⟨hdel, hstart⟩ := hsound.ranged
    split_ifs at hs with hi
    · obtain rfl := Option.some.inj hs
      refine h.goRelease hp (by omega) rfl (fun _ hk => hk) rfl ⟨hdel, hstart⟩ ?_
      rintro j hne (hj | hj)
      · exact .inl ⟨by omega, hj.2⟩
      · exact .inr hj
    · obtain rfl := Option.some.inj hs
      refine h.go h hp rfl rfl rfl (fun _ hk => hk) (fun _ hk => hk) (fun hr => hr) ?_
      rintro j (hj | hj)
      · omega
      · exact hj
  | settle id start holding2 =>
    simp only [State.threadStep, hp] at hs
    rw [hp] at hsound
    obtain ⟨hdel, hstart⟩ := hsound.ranged
    split_ifs at hs with hlt hstall
    · obtain rfl := Option.some.inj hs
      exact h.go (h.quiet rfl rfl rfl rfl (fun _ _ hne => hne) rfl) hp rfl rfl rfl (fun _ hk => hk) (fun _ hk => hk)
        (fun _ => (hstart hlt).trans_le hdel) fun _ hj => hj.2
    · obtain rfl := Option.some.inj hs
      exact h.go h hp rfl rfl rfl (fun _ hk => hk) (fun _ hk => hk) (fun _ => (hstart hlt).trans_le hdel)
        fun _ hj => hj.2
    · obtain rfl := Option.some.inj hs
      exact h.go h hp rfl rfl rfl (fun _ hk => hk) (fun _ hk => hk) (fun _ => trivial) fun _ hj => hlt hj.1
  | stalled id start =>
    simp only [State.threadStep, hp] at hs
    split_ifs at hs
    obtain rfl := Option.some.inj hs
    exact h.go (h.quiet rfl rfl rfl rfl (fun _ _ hne => hne) rfl) hp rfl rfl rfl (fun _ hk => hk) (fun _ hk => hk)
      (fun hr => hr) fun _ hj => hj
  | woken id start =>
    simp only [State.threadStep, hp] at hs
    obtain rfl := Option.some.inj hs
    exact h.go (h.quiet rfl rfl rfl rfl (fun _ _ hne => hne) rfl) hp rfl rfl rfl (fun _ hk => hk) (fun _ hk => hk)
      (fun hr => hr) fun _ hj => hj
  | last id start =>
    simp only [State.threadStep, hp] at hs
    obtain rfl := Option.some.inj hs
    rw [hp] at hsound
    exact h.goRelease hp hsound.ranged rfl (fun _ hk => hk) rfl trivial fun j hne hj => hne hj
  | finished id =>
    simp only [State.threadStep, hp] at hs
    obtain rfl := Option.some.inj hs
    exact h.go h.modify hp rfl rfl rfl (by simp [Pc.past, Pc.acquires]) (fun _ hk => hk) (fun _ => trivial)
      fun _ hj => hj
  | yielding =>
    simp only [State.threadStep, hp] at hs
    obtain rfl := Option.some.inj hs
    exact h.go (h.quiet rfl rfl rfl rfl (fun _ _ hne => hne) rfl) hp rfl rfl rfl (fun _ hk => hk) (fun _ hk => hk)
      (fun hr => hr) fun _ hj => hj

lemma sweeping_step {e : Event} (h : Sweeping cfg s) (ho : Ordered cfg s) (hown : Own cfg nodeId s)
    (hrun : OwnRun cfg s e) (hclear : Clear cfg s e) (hs : step cfg nodeId s e = some s') : Sweeping cfg s' := by
  cases e with
  | execute =>
    simp only [step] at hs
    split_ifs at hs
    obtain rfl := Option.some.inj hs
    exact h.quiet rfl rfl rfl rfl (fun _ _ hne => hne) rfl
  | sendCheckpoints =>
    obtain ⟨k, hexec, rfl⟩ := Option.map_eq_some_iff.mp hs
    have hlast := hown.executed k hexec
    have hle : s.lastDeletedTxnMan ≤ k := by
      rcases h.deleted with h0 | ⟨-, hd⟩
      · omega
      · rcases ho.stable with h0 | hdue
        · omega
        · have hnext := hdue.executed
          omega
    simp only [State.sendCheckpoints]
    split_ifs
    · have hman := h.getTransactionManager hle
      exact hman.quiet rfl rfl rfl rfl (fun _ _ hne => hne) rfl
    · exact h.quiet rfl rfl rfl rfl (fun _ _ hne => hne) rfl
  | deliver r id => exact False.elim hrun
  | borrow id =>
    obtain rfl := Option.some.inj hs
    exact (h.getTransactionManager hrun.1).modify
  | giveBack id =>
    simp only [step] at hs
    split_ifs at hs
    obtain rfl := Option.some.inj hs
    exact h.modify
  | thread t => exact sweeping_threadStep h ho hclear hs

lemma sweeping_reach (h : Reach (step cfg nodeId) (fun s e => OwnRun cfg s e ∧ Clear cfg s e) init s) :
    Sweeping cfg s := by
  refine h.invariant (Sweeping cfg) sweeping_init fun s e s' hr hok hs h => ?_
  have hown : Own cfg nodeId s := own_reach (hr.mono fun _ _ hok => hok.1.fromFaulty)
  exact sweeping_step h (ordered_reach (hr.mono fun _ _ hok => ⟨hok.1, hok.2.fits⟩)) hown hok.1 hok.2 hs

end Sweeping

variable (cfg nodeId) in
theorem sweep_exact :
    ∀ s, Reach (step cfg nodeId) (fun s e => OwnRun cfg s e ∧ Clear cfg s e) init s → Exact cfg s :=
  fun _ h => (sweeping_reach h).exact

def interval (n : ℕ) : List Event := (List.replicate n [Event.execute, Event.sendCheckpoints]).flatten

-- The other thread has taken the first checkpoint and not yet recorded it when the second one is swept, and drops it.
set_option maxRecDepth 100000 in
theorem sweep_exact_overtaken :
    ∃ s, Reach (step .fourReplicas 0) (fun s e => OwnRun .fourReplicas s e ∧ Clear .fourReplicas s e) init s ∧
      (∀ t, s.pc t = .idle) ∧ s.lastDeletedTxnMan = 954 ∧ s.released.map (·.id) = [639] ∧ Exact .fourReplicas s := by
  let events : List Event := interval 256 ++ [.thread true] ++ List.replicate 966 (.thread false) ++
    List.replicate 2 (.thread true)
  obtain ⟨s, hr, hs⟩ := exists_reach_of_runWith (step .fourReplicas 0)
    (fun s e => OwnRun .fourReplicas s e ∧ Clear .fourReplicas s e) init events
    (fun s => decide ((∀ t, s.pc t = .idle) ∧ s.lastDeletedTxnMan = 954 ∧ s.released.map (·.id) = [639]))
    (by decide +kernel)
  obtain ⟨hidle, hdel, hreleased⟩ := of_decide_eq_true hs
  exact ⟨s, hr, hidle, hdel, hreleased, sweep_exact .fourReplicas 0 s hr⟩

-- One thread handles the checkpoint 634 and the other the checkpoint 1274, which leaves the manager of 634 behind.
set_option maxRecDepth 100000 in
theorem manager_left_by_hand_over :
    ∃ s, Reach (step .fourReplicas 0) (OwnRun .fourReplicas) init s ∧
      (∀ t, s.pc t = .idle) ∧ 634 < s.lastDeletedTxnMan ∧ (s.managers 634).isSome ∧ ¬ Exact .fourReplicas s := by
  let events : List Event := interval 256 ++ List.replicate 326 (.thread false) ++ List.replicate 652 (.thread true)
  obtain ⟨s, hr, hs⟩ := exists_reach_of_runWith (step .fourReplicas 0) (OwnRun .fourReplicas) init events
    (fun s => decide ((∀ t, s.pc t = .idle) ∧ 634 < s.lastDeletedTxnMan ∧ (s.managers 634).isSome))
    (by decide +kernel)
  obtain ⟨hidle, hdel, hman⟩ := of_decide_eq_true hs
  refine ⟨s, hr, hidle, hdel, hman, ?_⟩
  intro hexact
  rw [hexact.swept hidle 634 hdel] at hman
  cases hman

end SpotLess.Checkpoint
