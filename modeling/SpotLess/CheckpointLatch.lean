import SpotLess.Sweep

namespace SpotLess.Checkpoint

open Lib

variable {cfg : Config} {nodeId : ℕ} {s s' u : State} {t : Bool} {id k : ℕ} {pc pc' : Pc}

section Parted

variable (cfg)

structure Starts (s : State) (start : ℕ) : Prop where
  middle : start = 0 ∨ Interval cfg (start + keptRange cfg)
  le : start ≤ s.lastDeletedTxnMan

namespace Pc

def Started (s : State) : Pc → Prop
  | .marked id => id ≤ s.lastStableChkpt
  | .lower id start holding2 _ => id ≤ s.lastStableChkpt ∧ Starts cfg s start ∧ holding2 < 2 ^ 32
  | .upper id start holding2 i => id ≤ s.lastStableChkpt ∧ Starts cfg s start ∧ holding2 < i
  | .settle id start _ | .stalled id start | .woken id start | .last id start =>
    id ≤ s.lastStableChkpt ∧ Starts cfg s start
  | _ => True

def Skips (a : ℕ) : Pc → Prop
  | .lower id _ holding2 _ | .upper id _ holding2 _ => a = holding2 ∨ delRange cfg id ≤ a
  | _ => True

end Pc

structure Parted (s : State) : Prop where
  deleted : s.lastDeletedTxnMan = 0 ∨
    Interval cfg (s.lastDeletedTxnMan + keptRange cfg) ∧ s.lastDeletedTxnMan + keptRange cfg ≤ s.lastStableChkpt
  threads : ∀ t, (s.pc t).Started cfg s
  skips : ∀ t a, (s.pc !t).past = some a → (s.pc t).Skips cfg a

variable {cfg}

lemma parted_init : Parted cfg init where
  deleted := .inl rfl
  threads := fun _ => trivial
  skips := fun _ _ _ => trivial

lemma Starts.mono {start : ℕ} (h : Starts cfg s start) (hle : s.lastDeletedTxnMan ≤ u.lastDeletedTxnMan) :
    Starts cfg u start :=
  ⟨h.middle, h.le.trans hle⟩

lemma Pc.Started.mono (h : pc.Started cfg s) (hdel : s.lastDeletedTxnMan ≤ u.lastDeletedTxnMan)
    (hstable : s.lastStableChkpt ≤ u.lastStableChkpt) : pc.Started cfg u := by
  cases pc with
  | marked id => exact le_trans h hstable
  | lower id start holding2 i | upper id start holding2 i => exact ⟨h.1.trans hstable, h.2.1.mono hdel, h.2.2⟩
  | settle id start holding2 => exact ⟨h.1.trans hstable, h.2.mono hdel⟩
  | stalled id start | woken id start | last id start => exact ⟨h.1.trans hstable, h.2.mono hdel⟩
  | _ => trivial

lemma Parted.frame (h : Parted cfg s) (hdel : u.lastDeletedTxnMan = s.lastDeletedTxnMan)
    (hstable : s.lastStableChkpt ≤ u.lastStableChkpt) (hpc : u.pc = s.pc) : Parted cfg u := by
  refine ⟨?_, ?_, ?_⟩
  · rw [hdel]
    exact h.deleted.imp_right fun hd => ⟨hd.1, hd.2.trans hstable⟩
  · rw [hpc]
    exact fun t => (h.threads t).mono hdel.ge hstable
  · rw [hpc]
    exact h.skips

lemma Parted.goto (h : Parted cfg s) (hstarted : pc.Started cfg s)
    (hskips : ∀ a, (s.pc !t).past = some a → pc.Skips cfg a)
    (hpast : ∀ a, pc.past = some a → (s.pc !t).Skips cfg a) : Parted cfg (s.goto t pc) := by
  refine ⟨h.deleted, ?_, ?_⟩
  · intro v
    rcases Bool.eq_or_eq_not v t with rfl | rfl
    · rw [State.goto_pc_self]
      exact hstarted.mono le_rfl le_rfl
    · rw [State.goto_pc_not]
      exact (h.threads !t).mono le_rfl le_rfl
  · intro v a ha
    rcases Bool.eq_or_eq_not v t with rfl | rfl
    · rw [State.goto_pc_not] at ha
      rw [State.goto_pc_self]
      exact hskips a ha
    · rw [Bool.not_not, State.goto_pc_self] at ha
      rw [State.goto_pc_not]
      exact hpast a ha

lemma Parted.go (h : Parted cfg s) (hp : s.pc t = pc) (hpc : u.pc = s.pc)
    (hdel : u.lastDeletedTxnMan = s.lastDeletedTxnMan) (hstable : s.lastStableChkpt ≤ u.lastStableChkpt)
    (hstarted : pc.Started cfg s → pc'.Started cfg u) (hskips : ∀ a, pc.Skips cfg a → pc'.Skips cfg a)
    (hpast : ∀ a, pc'.past = some a → pc.past = some a) : Parted cfg (u.goto t pc') := by
  have hold := h.threads t
  rw [hp] at hold
  refine (h.frame hdel hstable hpc).goto (hstarted hold) ?_ ?_
  · intro a ha
    rw [hpc] at ha
    have hskip := h.skips t a ha
    rw [hp] at hskip
    exact hskips a hskip
  · intro a ha
    rw [hpc]
    refine h.skips (!t) a ?_
    rw [Bool.not_not, hp]
    exact hpast a ha

lemma Ordered.delRange_le (ho : Ordered cfg s) (hrec : (s.pc t).recorded = some id) :
    delRange cfg id + keptRange cfg = id := by
  have hinterval := (ho.due_recorded hrec).interval
  have hge := hinterval.ge
  have hkept := keptRange_ge cfg
  have hdel := hinterval.delRange_eq
  omega

lemma Parted.admit (h : Parted cfg s) (ho : Ordered cfg s) (hid : s.lastStableChkpt < id) :
    Parted cfg (s.goto t (.admitted id)) := by
  refine h.goto trivial (fun _ _ => trivial) fun a ha => ?_
  obtain rfl : id = a := Option.some.inj ha
  have hother := h.threads !t
  cases hp : s.pc !t with
  | lower b start holding2 i | upper b start holding2 i =>
    have hrec : (s.pc !t).recorded = some b := by
      rw [hp]
      rfl
    have hdel := ho.delRange_le hrec
    rw [hp] at hother
    have hstable : b ≤ s.lastStableChkpt := hother.1
    exact .inr (by omega)
  | _ => trivial

lemma Parted.mark {ranges : List ℕ} (h : Parted cfg s) (ho : Ordered cfg s) (hp : s.pc t = .marked id) :
    Parted cfg (({ s with ranges := ranges }.incLastDeletedTxn (delRange cfg id)).goto t
      (.lower id s.lastDeletedTxnMan (s.chkptHolding !t) s.lastDeletedTxnMan)) := by
  have hstable : id ≤ s.lastStableChkpt := by
    have hold := h.threads t
    rwa [hp] at hold
  have hrec : (s.pc t).recorded = some id := by
    rw [hp]
    rfl
  have hdue := ho.due_recorded hrec
  have hdel := ho.delRange_le hrec
  refine Parted.goto ⟨?_, ?_, h.skips⟩ ⟨hstable, ⟨?_, le_max_left _ _⟩, ?_⟩ ?_ ?_
  · show max s.lastDeletedTxnMan (delRange cfg id) = 0 ∨
      Interval cfg (max s.lastDeletedTxnMan (delRange cfg id) + keptRange cfg) ∧
        max s.lastDeletedTxnMan (delRange cfg id) + keptRange cfg ≤ s.lastStableChkpt
    rcases le_total (delRange cfg id) s.lastDeletedTxnMan with hle | hle
    · rw [max_eq_left hle]
      exact h.deleted
    · rw [max_eq_right hle, hdel]
      exact .inr ⟨hdue.interval, hstable⟩
  · exact fun v => (h.threads v).mono (le_max_left _ _) le_rfl
  · exact h.deleted.imp_right fun hd => hd.1
  · rcases ho.holding !t with h0 | hd
    · rw [h0]
      exact Nat.two_pow_pos 32
    · exact hd.fits
  · intro a ha
    exact .inl (ho.recorded (!t) a (Pc.recorded_of_past ha)).1.symm
  · intro a ha
    refine h.skips (!t) a ?_
    rw [Bool.not_not, hp]
    exact ha

lemma parted_threadStep (h : Parted cfg s) (ho : Ordered cfg s) (hs : s.threadStep cfg t = some s') :
    Parted cfg s' := by
  cases hp : s.pc t with
  | idle =>
    simp only [State.threadStep, hp] at hs
    split at hs
    · obtain rfl := Option.some.inj hs
      exact h.go hp rfl rfl le_rfl (fun hr => hr) (fun _ hk => hk) (by simp [Pc.past, Pc.acquires])
    · cases hs
  | popped id =>
    simp only [State.threadStep, hp] at hs
    obtain rfl := Option.some.inj hs
    exact h.go hp rfl rfl le_rfl (fun hr => hr) (fun _ hk => hk) (fun _ hk => hk)
  | held id =>
    simp only [State.threadStep, hp] at hs
    obtain rfl := Option.some.inj hs
    split_ifs with hold
    · exact h.go hp rfl rfl le_rfl (fun hr => hr) (fun _ hk => hk) (by simp [Pc.past, Pc.acquires])
    · exact h.admit ho (by omega)
  | admitted id =>
    simp only [State.threadStep, hp] at hs
    split_ifs at hs
    · obtain rfl := Option.some.inj hs
      exact h.go hp rfl rfl le_rfl (fun hr => hr) (fun _ hk => hk) (fun _ hk => hk)
    · obtain rfl := Option.some.inj hs
      exact h.go hp rfl rfl le_rfl (fun hr => hr) (fun _ hk => hk) (by simp [Pc.past, Pc.acquires])
  | acquired id =>
    simp only [State.threadStep, hp] at hs
    split_ifs at hs
    all_goals
      obtain rfl := Option.some.inj hs
      exact h.go hp rfl rfl le_rfl (fun hr => hr) (fun _ hk => hk) (fun _ hk => hk)
  | counted id =>
    simp only [State.threadStep, hp] at hs
    obtain rfl := Option.some.inj hs
    have hrec : (s.pc t).recorded = some id := by
      rw [hp]
      rfl
    have hmax := lastStableChkpt_setCurrChkpt s (ho.due_recorded hrec).fits
    refine h.go hp ?_ ?_ (hmax ▸ le_max_left _ _) ?_ (fun _ hk => hk) (fun _ hk => hk)
    · rw [State.setCurrChkpt]
      split_ifs <;> rfl
    · rw [State.setCurrChkpt]
      split_ifs <;> rfl
    · intro _
      show id ≤ (s.setCurrChkpt id).lastStableChkpt
      rw [hmax]
      exact le_max_right _ _
  | marked id =>
    simp only [State.threadStep, hp] at hs
    obtain rfl := Option.some.inj hs
    exact h.mark ho hp
  | lower id start holding2 i =>
    simp only [State.threadStep, hp] at hs
    split_ifs at hs
    · obtain rfl := Option.some.inj hs
      have hk : Keeps s (s.releaseTxnMan i) := keeps_releaseTxnMan
      exact h.go hp hk.pc releaseTxnMan_lastDeletedTxnMan hk.lastStableChkpt.ge
        (fun hr => ⟨hr.1.trans hk.lastStableChkpt.ge, hr.2.1.mono releaseTxnMan_lastDeletedTxnMan.ge, hr.2.2⟩)
        (fun _ hk => hk) (fun _ hk => hk)
    · obtain rfl := Option.some.inj hs
      refine h.go hp rfl rfl le_rfl ?_ (fun _ hk => hk) (fun _ hk => hk)
      intro hr
      have hadd : add64 holding2 1 = holding2 + 1 := add64_of_lt (by have := hr.2.2; omega)
      rw [hadd]
      exact ⟨hr.1, hr.2.1, Nat.lt_succ_self _⟩
  | upper id start holding2 i =>
    simp only [State.threadStep, hp] at hs
    split_ifs at hs
    · obtain rfl := Option.some.inj hs
      have hk : Keeps s (s.releaseTxnMan i) := keeps_releaseTxnMan
      refine h.go hp hk.pc releaseTxnMan_lastDeletedTxnMan hk.lastStableChkpt.ge ?_ (fun _ hk => hk) (fun _ hk => hk)
      intro hr
      exact ⟨hr.1.trans hk.lastStableChkpt.ge, hr.2.1.mono releaseTxnMan_lastDeletedTxnMan.ge, Nat.lt_succ_of_lt hr.2.2⟩
    · obtain rfl := Option.some.inj hs
      exact h.go hp rfl rfl le_rfl (fun hr => ⟨hr.1, hr.2.1⟩) (fun _ _ => trivial) (fun _ hk => hk)
  | settle id start holding2 =>
    simp only [State.threadStep, hp] at hs
    split_ifs at hs
    · obtain rfl := Option.some.inj hs
      exact h.go hp rfl rfl le_rfl (fun hr => ⟨hr.1, hr.2.mono le_rfl⟩) (fun _ hk => hk) (fun _ hk => hk)
    · obtain rfl := Option.some.inj hs
      exact h.go hp rfl rfl le_rfl (fun hr => hr) (fun _ hk => hk) (fun _ hk => hk)
    · obtain rfl := Option.some.inj hs
      exact h.go hp rfl rfl le_rfl (fun _ => trivial) (fun _ hk => hk) (fun _ hk => hk)
  | stalled id start =>
    simp only [State.threadStep, hp] at hs
    split_ifs at hs
    obtain rfl := Option.some.inj hs
    exact h.go hp rfl rfl le_rfl (fun hr => ⟨hr.1, hr.2.mono le_rfl⟩) (fun _ hk => hk) (fun _ hk => hk)
  | woken id start =>
    simp only [State.threadStep, hp] at hs
    obtain rfl := Option.some.inj hs
    exact h.go hp rfl rfl le_rfl (fun hr => ⟨hr.1, hr.2.mono le_rfl⟩) (fun _ hk => hk) (fun _ hk => hk)
  | last id start =>
    simp only [State.threadStep, hp] at hs
    obtain rfl := Option.some.inj hs
    have hk : Keeps s (s.releaseTxnMan start) := keeps_releaseTxnMan
    exact h.go hp hk.pc releaseTxnMan_lastDeletedTxnMan hk.lastStableChkpt.ge (fun _ => trivial) (fun _ hk => hk)
      (fun _ hk => hk)
  | finished id =>
    simp only [State.threadStep, hp] at hs
    obtain rfl := Option.some.inj hs
    exact h.go hp rfl rfl le_rfl (fun hr => hr) (fun _ hk => hk) (by simp [Pc.past, Pc.acquires])
  | yielding =>
    simp only [State.threadStep, hp] at hs
    obtain rfl := Option.some.inj hs
    exact h.go hp rfl rfl le_rfl (fun hr => hr) (fun _ hk => hk) (fun _ hk => hk)

lemma parted_step {e : Event} (h : Parted cfg s) (ho : Ordered cfg s) (hs : step cfg nodeId s e = some s') :
    Parted cfg s' := by
  by_cases he : ∃ t, e = .thread t
  · obtain ⟨t, rfl⟩ := he
    exact parted_threadStep h ho hs
  · have hb := step_besides hs fun t ht => he ⟨t, ht⟩
    exact h.frame hb.lastDeletedTxnMan hb.lastStableChkpt.ge hb.pc

lemma parted_reach (h : Reach (step cfg nodeId) (fun s e => OwnRun cfg s e ∧ Fits s e) init s) : Parted cfg s :=
  h.invariant (Parted cfg) parted_init fun _ _ _ hr _ hs h => parted_step h (ordered_reach hr) hs

lemma Parted.releases_lt (h : Parted cfg s) (ho : Ordered cfg s) (hrel : (s.pc t).releases cfg = some k) :
    k + keptRange cfg + 6 ≤ s.nextIndex := by
  have hstarted := h.threads t
  have hkept := keptRange_ge cfg
  have hstable : ∀ j, j ≤ s.lastStableChkpt → 0 < j → j + 6 ≤ s.nextIndex := by
    intro j hj hpos
    rcases ho.stable with h0 | hdue
    · omega
    · have hle := hdue.executed
      omega
  cases hp : s.pc t with
  | lower id start holding2 i | upper id start holding2 i =>
    have hrec : (s.pc t).recorded = some id := by
      rw [hp]
      rfl
    have hdel := ho.delRange_le hrec
    simp only [hp, Pc.releases] at hrel
    split_ifs at hrel with hi
    obtain rfl := Option.some.inj hrel
    rw [hp] at hstarted
    have hle := hstable id hstarted.1 (by omega)
    omega
  | last id start =>
    have hrec : (s.pc t).recorded = some id := by
      rw [hp]
      rfl
    have hge := (ho.due_recorded hrec).interval.ge
    simp only [hp, Pc.releases] at hrel
    obtain rfl : start = k := Option.some.inj hrel
    rw [hp] at hstarted
    have hstart := hstarted.2.le
    rcases h.deleted with h0 | ⟨-, hd⟩
    · have hle := hstable id hstarted.1 (by omega)
      omega
    · have hle := hstable (s.lastDeletedTxnMan + keptRange cfg) hd (by omega)
      omega
  | _ => simp [hp, Pc.releases] at hrel

lemma Starts.ne_recorded {v : Bool} {start : ℕ} (h : Starts cfg s start) (ho : Ordered cfg s)
    (hrec : (s.pc v).recorded = some id) : start ≠ id := by
  rcases h.middle with h0 | hmid
  · have hpos := (ho.recorded v id hrec).2
    omega
  · exact (ho.due_recorded hrec).interval.ne_of_kept hmid

lemma Parted.not_acquired (h : Parted cfg s) (ho : Ordered cfg s) (hrel : (s.pc t).releases cfg = some k) (v : Bool) :
    (s.pc v).acquires ≠ some k := by
  intro hacq
  have hrec := Pc.recorded_of_acquires hacq
  have hstarted := h.threads t
  have hskips := h.skips t k
  have hpast : (s.pc v).past = some k := by
    revert hacq
    cases s.pc v <;> simp [Pc.past, Pc.acquires]
  cases hp : s.pc t with
  | lower id start holding2 i | upper id start holding2 i =>
    simp only [hp, Pc.releases] at hrel
    split_ifs at hrel with hi
    obtain rfl := Option.some.inj hrel
    rcases Bool.eq_or_eq_not v t with rfl | rfl
    · have hdel := ho.delRange_le hrec
      rw [hp] at hacq
      obtain rfl : id = i := Option.some.inj hacq
      omega
    · have hskips := hskips hpast
      rw [hp] at hstarted hskips
      have hskips : i = holding2 ∨ delRange cfg id ≤ i := hskips
      have hstarted := hstarted.2.2
      omega
  | last id start =>
    simp only [hp, Pc.releases] at hrel
    obtain rfl : start = k := Option.some.inj hrel
    rw [hp] at hstarted
    exact hstarted.2.ne_recorded ho hrec rfl
  | _ => simp [hp, Pc.releases] at hrel

end Parted

section Latching

lemma State.txnReady_unset (s : State) (id j : ℕ) :
    (((s.getTransactionManager id).modify id fun m => { m with txnReady := false }).manager j).txnReady = false ↔
      (s.manager j).txnReady = false ∨ j = id := by
  by_cases hj : j = id
  · subst hj
    simp [State.manager, State.modify, State.getTransactionManager]
  · rw [State.manager_modify _ hj, State.manager_getTransactionManager]
    simp [hj]

lemma State.txnReady_set (s : State) (id j : ℕ) :
    ((s.modify id fun m => { m with txnReady := true }).manager j).txnReady = false ↔
      (s.manager j).txnReady = false ∧ j ≠ id := by
  by_cases hj : j = id
  · subst hj
    simp [State.txnReady_modify_true]
  · rw [State.manager_modify _ hj]
    simp [hj]

lemma State.txnReady_released (s : State) (k j : ℕ) :
    ((s.releaseTxnMan k).manager j).txnReady = false ↔ (s.manager j).txnReady = false ∧ j ≠ k := by
  rw [State.manager_releaseTxnMan]
  split_ifs with hj <;> simp [hj]

variable (cfg) in
inductive Latching (s : State) (t : Bool) (s' : State) : Prop
  | acquire (id : ℕ) (hready : (s.manager id).txnReady = true) (hold : (s.pc t).acquires = none)
      (hnew : (s'.pc t).acquires = some id)
      (hlatch : ∀ j, (s'.manager j).txnReady = false ↔ (s.manager j).txnReady = false ∨ j = id)
  | finish (id : ℕ) (hold : (s.pc t).acquires = some id) (hnew : (s'.pc t).acquires = none)
      (hlatch : ∀ j, (s'.manager j).txnReady = false ↔ (s.manager j).txnReady = false ∧ j ≠ id)
  | release (k : ℕ) (hrel : (s.pc t).releases cfg = some k) (hsame : (s'.pc t).acquires = (s.pc t).acquires)
      (hlatch : ∀ j, (s'.manager j).txnReady = false ↔ (s.manager j).txnReady = false ∧ j ≠ k)
  | keep (hsame : (s'.pc t).acquires = (s.pc t).acquires)
      (hlatch : ∀ j, (s'.manager j).txnReady = false ↔ (s.manager j).txnReady = false)

lemma Latching.go (hp : s.pc t = pc) (hsame : pc'.acquires = pc.acquires)
    (hlatch : ∀ j, (u.manager j).txnReady = (s.manager j).txnReady) : Latching cfg s t (u.goto t pc') := by
  refine .keep ?_ fun j => ?_
  · rw [State.goto_pc_self, hp, hsame]
  · rw [← hlatch j]
    rfl

lemma Latching.goRelease (hp : s.pc t = pc) (hrel : pc.releases cfg = some k) (hsame : pc'.acquires = pc.acquires) :
    Latching cfg s t ((s.releaseTxnMan k).goto t pc') := by
  refine .release k (hp ▸ hrel) ?_ (State.txnReady_released s k)
  rw [State.goto_pc_self, hp, hsame]

lemma threadStep_latching (hs : s.threadStep cfg t = some s') : Latching cfg s t s' := by
  cases hp : s.pc t with
  | idle =>
    simp only [State.threadStep, hp] at hs
    split at hs
    · obtain rfl := Option.some.inj hs
      exact .go hp rfl fun _ => rfl
    · cases hs
  | held id =>
    simp only [State.threadStep, hp] at hs
    obtain rfl := Option.some.inj hs
    split_ifs <;> exact .go hp rfl fun _ => rfl
  | admitted id =>
    simp only [State.threadStep, hp] at hs
    split_ifs at hs with hready
    · obtain rfl := Option.some.inj hs
      rw [State.manager_getTransactionManager] at hready
      refine .acquire id hready (by rw [hp]; rfl) ?_ (State.txnReady_unset s id)
      rw [State.goto_pc_self]
      rfl
    · obtain rfl := Option.some.inj hs
      exact .go hp rfl fun j => congrArg TxnManager.txnReady State.manager_getTransactionManager
  | acquired id =>
    simp only [State.threadStep, hp] at hs
    split_ifs at hs
    · obtain rfl := Option.some.inj hs
      exact .go hp rfl fun _ => rfl
    all_goals
      obtain rfl := Option.some.inj hs
      exact .go hp rfl fun j => State.field_modify TxnManager.txnReady fun _ => rfl
  | counted id =>
    simp only [State.threadStep, hp, State.setCurrChkpt] at hs
    obtain rfl := Option.some.inj hs
    split_ifs <;> exact .go hp rfl fun _ => rfl
  | lower id start holding2 i | upper id start holding2 i =>
    simp only [State.threadStep, hp] at hs
    split_ifs at hs with hi
    · obtain rfl := Option.some.inj hs
      exact .goRelease hp (if_pos hi) rfl
    · obtain rfl := Option.some.inj hs
      exact .go hp rfl fun _ => rfl
  | settle id start holding2 =>
    simp only [State.threadStep, hp] at hs
    split_ifs at hs
    all_goals
      obtain rfl := Option.some.inj hs
      exact .go hp rfl fun _ => rfl
  | stalled id start =>
    simp only [State.threadStep, hp] at hs
    split_ifs at hs
    obtain rfl := Option.some.inj hs
    exact .go hp rfl fun _ => rfl
  | last id start =>
    simp only [State.threadStep, hp] at hs
    obtain rfl := Option.some.inj hs
    exact .goRelease hp rfl rfl
  | finished id =>
    simp only [State.threadStep, hp] at hs
    obtain rfl := Option.some.inj hs
    refine .finish id (by rw [hp]; rfl) ?_ (State.txnReady_set s id)
    rw [State.goto_pc_self]
    rfl
  | popped id | marked id | woken id start | yielding =>
    simp only [State.threadStep, hp] at hs
    obtain rfl := Option.some.inj hs
    exact .go hp rfl fun _ => rfl

end Latching

end SpotLess.Checkpoint
