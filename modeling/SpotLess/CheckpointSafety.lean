import SpotLess.Checkpoint

namespace SpotLess.Checkpoint

open Lib

variable (cfg : Config) (nodeId : ℕ)

-- What the replica may rely on when it takes up the message of `id`.
structure Executed (s : State) (id : ℕ) : Prop where
  kept : keptRange cfg ≤ id
  executed : id < s.nextIndex + keptRange cfg

def Backed (s : State) (id : ℕ) : Prop := 2 * cfg.minInvalidNodes + 1 ≤ (s.announcers id).card

-- The message that the event makes a checkpoint thread count.
def takenUp (s : State) : Event → Option ℕ
  | .thread t =>
    match s.pc t with
    | .acquired id => if (s.manager id).chkptFlag then none else some id
    | _ => none
  | _ => none

def TakesExecuted (s : State) (e : Event) : Prop := ∀ id ∈ takenUp s e, Executed cfg s id

def TakesBacked (s : State) (e : Event) : Prop := ∀ id ∈ takenUp s e, Backed cfg s id

lemma mem_takenUp {s : State} {t : Bool} {id : ℕ} :
    id ∈ takenUp s (.thread t) ↔ s.pc t = .acquired id ∧ (s.manager id).chkptFlag = false := by
  simp only [takenUp]
  split
  · rename_i k hk
    split_ifs with hf
    · simp [hk]
      rintro rfl
      exact hf
    · simp [hk]
      rintro rfl
      simpa using hf
  · rename_i hne
    simpa using fun h => absurd h (hne id)

def FromFaulty (byz : Finset ℕ) (_ : State) : Event → Prop
  | .deliver r _ => r ∈ byz
  | _ => True

instance (byz : Finset ℕ) (s : State) : (e : Event) → Decidable (FromFaulty byz s e)
  | .deliver r _ => inferInstanceAs (Decidable (r ∈ byz))
  | .execute | .sendCheckpoints | .borrow _ | .giveBack _ | .thread _ => inferInstanceAs (Decidable True)

structure CollectsExecuted (s : State) : Prop where
  released : ∀ x ∈ s.released, x.id < x.nextIndex
  ranges : ∀ id ∈ s.ranges, keptRange cfg ≤ id

def StableBacked (s : State) : Prop := ∀ x ∈ s.stable, 2 * cfg.minInvalidNodes + 1 ≤ x.announcers.card

variable {cfg nodeId} {s s' : State} {t : Bool} {id : ℕ} {pc : Pc}

lemma delRange_lt (h : Executed cfg s id) : delRange cfg id < s.nextIndex := by
  have hkept := h.kept
  have hexecuted := h.executed
  rw [delRange, sub64_of_le hkept]
  omega

variable (nodeId) in
structure Besides (s : State) (e : Event) (s' : State) : Prop where
  nextIndex : s.nextIndex ≤ s'.nextIndex
  lastStableChkpt : s'.lastStableChkpt = s.lastStableChkpt
  lastDeletedTxnMan : s'.lastDeletedTxnMan = s.lastDeletedTxnMan
  pc : s'.pc = s.pc
  stable : s'.stable = s.stable
  ranges : s'.ranges = s.ranges
  released : s'.released = s.released
  announced : ∃ l, s'.announced = s.announced ++ l ∧ ∀ a ∈ l, a.1 = nodeId ∨ e = .deliver a.1 a.2

lemma step_besides {e : Event} (hs : step cfg nodeId s e = some s') (hne : ∀ t, e ≠ .thread t) :
    Besides nodeId s e s' := by
  cases e with
  | execute =>
    simp only [step] at hs
    split_ifs at hs
    obtain rfl := Option.some.inj hs
    exact ⟨Nat.le_add_right _ _, rfl, rfl, rfl, rfl, rfl, rfl, [], by simp [State.execute]⟩
  | sendCheckpoints =>
    obtain ⟨id, -, rfl⟩ := Option.map_eq_some_iff.mp hs
    simp only [State.sendCheckpoints]
    split_ifs
    · exact ⟨le_rfl, rfl, rfl, rfl, rfl, rfl, rfl, [(nodeId, sub64 id 5)], rfl, by simp⟩
    · exact ⟨le_rfl, rfl, rfl, rfl, rfl, rfl, rfl, [], by simp⟩
  | deliver r id =>
    simp only [step] at hs
    split_ifs at hs
    obtain rfl := Option.some.inj hs
    exact ⟨le_rfl, rfl, rfl, rfl, rfl, rfl, rfl, [(r, id)], rfl, by simp⟩
  | borrow id =>
    obtain rfl := Option.some.inj hs
    exact ⟨le_rfl, rfl, rfl, rfl, rfl, rfl, rfl, [], by simp [State.modify, State.getTransactionManager]⟩
  | giveBack id =>
    simp only [step] at hs
    split_ifs at hs
    obtain rfl := Option.some.inj hs
    exact ⟨le_rfl, rfl, rfl, rfl, rfl, rfl, rfl, [], by simp [State.modify]⟩
  | thread t => exact absurd rfl (hne t)

section Collecting

variable (cfg)

-- A thread that has counted its message; `start` is what had been deleted when it began.
def Pc.Bounded (s : State) : Pc → Prop
  | .counted id | .marked id => Executed cfg s id
  | .lower id start _ _ | .upper id start _ _ | .settle id start _ =>
    Executed cfg s id ∧ (start = 0 ∨ start < s.nextIndex)
  | .stalled _ start | .woken _ start | .last _ start => start < s.nextIndex
  | _ => True

structure Collecting (s : State) : Prop where
  deleted : s.lastDeletedTxnMan = 0 ∨ s.lastDeletedTxnMan < s.nextIndex
  threads : ∀ t, (s.pc t).Bounded cfg s
  collects : CollectsExecuted cfg s

variable {cfg}

lemma collecting_init : Collecting cfg init where
  deleted := .inl rfl
  threads := fun _ => trivial
  collects := ⟨by simp [init], by simp [init]⟩

lemma Executed.mono (h : Executed cfg s id) (hle : s.nextIndex ≤ s'.nextIndex) : Executed cfg s' id :=
  ⟨h.kept, h.executed.trans_le (Nat.add_le_add_right hle _)⟩

lemma Pc.Bounded.mono (h : pc.Bounded cfg s) (hle : s.nextIndex ≤ s'.nextIndex) : pc.Bounded cfg s' := by
  cases pc with
  | counted id | marked id => exact Executed.mono h hle
  | lower id start holding2 i | upper id start holding2 i | settle id start holding2 =>
    exact ⟨h.1.mono hle, h.2.imp_right fun hlt => hlt.trans_le hle⟩
  | stalled id start | woken id start | last id start => exact lt_of_lt_of_le h hle
  | _ => trivial

namespace Collecting

lemma congr (h : Collecting cfg s) (hnext : s.nextIndex ≤ s'.nextIndex)
    (hdel : s'.lastDeletedTxnMan = s.lastDeletedTxnMan) (hpc : s'.pc = s.pc)
    (hreleased : s'.released = s.released) (hranges : s'.ranges = s.ranges) : Collecting cfg s' where
  deleted := by
    rw [hdel]
    exact h.deleted.imp_right fun hlt => hlt.trans_le hnext
  threads := fun t => by
    rw [hpc]
    exact (h.threads t).mono hnext
  collects := ⟨hreleased ▸ h.collects.released, hranges ▸ h.collects.ranges⟩

lemma goto (h : Collecting cfg s) (hpc : pc.Bounded cfg s) : Collecting cfg (s.goto t pc) where
  deleted := h.deleted
  threads := fun u => by
    by_cases hu : u = t
    · subst hu
      have hnext : s.nextIndex ≤ (s.goto u pc).nextIndex := le_rfl
      simpa [State.goto] using hpc.mono hnext
    · have hnext : s.nextIndex ≤ (s.goto t pc).nextIndex := le_rfl
      simpa [State.goto, hu] using (h.threads u).mono hnext
  collects := ⟨h.collects.released, h.collects.ranges⟩

lemma release (h : Collecting cfg s) (hid : id < s.nextIndex) : Collecting cfg (s.releaseTxnMan id) := by
  rw [State.releaseTxnMan]
  split
  · refine ⟨h.deleted, fun t => (h.threads t).mono le_rfl, ?_, h.collects.ranges⟩
    intro x hx
    rcases List.mem_append.mp hx with hx | hx
    · exact h.collects.released x hx
    · rw [List.mem_singleton.mp hx]
      exact hid
  · exact h

end Collecting

@[simp] lemma State.releaseTxnMan_nextIndex : (s.releaseTxnMan id).nextIndex = s.nextIndex := by
  rw [State.releaseTxnMan]
  split <;> rfl

lemma collecting_threadStep (h : Collecting cfg s) (hok : TakesExecuted cfg s (.thread t))
    (hs : s.threadStep cfg t = some s') : Collecting cfg s' := by
  have hpc := h.threads t
  cases hp : s.pc t with
  | idle =>
    simp only [State.threadStep, hp] at hs
    split at hs
    · obtain rfl := Option.some.inj hs
      exact Collecting.goto (h.congr le_rfl rfl rfl rfl rfl) trivial
    · cases hs
  | popped id =>
    simp only [State.threadStep, hp] at hs
    obtain rfl := Option.some.inj hs
    exact Collecting.goto (h.congr le_rfl rfl rfl rfl rfl) trivial
  | held id =>
    simp only [State.threadStep, hp] at hs
    obtain rfl := Option.some.inj hs
    split_ifs
    · exact h.goto trivial
    · exact h.goto trivial
  | admitted id =>
    simp only [State.threadStep, hp] at hs
    split_ifs at hs
    · obtain rfl := Option.some.inj hs
      exact Collecting.goto (h.congr le_rfl rfl rfl rfl rfl) trivial
    · obtain rfl := Option.some.inj hs
      exact Collecting.goto (h.congr le_rfl rfl rfl rfl rfl) trivial
  | acquired id =>
    simp only [State.threadStep, hp] at hs
    split_ifs at hs with hflag hcnt
    · obtain rfl := Option.some.inj hs
      exact h.goto trivial
    · obtain rfl := Option.some.inj hs
      have hexec := hok id (mem_takenUp.mpr ⟨hp, by simpa using hflag⟩)
      exact Collecting.goto (h.congr le_rfl rfl rfl rfl rfl) (hexec.mono le_rfl)
    · obtain rfl := Option.some.inj hs
      exact Collecting.goto (h.congr le_rfl rfl rfl rfl rfl) trivial
  | counted id =>
    simp only [State.threadStep, hp] at hs
    obtain rfl := Option.some.inj hs
    rw [hp] at hpc
    rw [State.setCurrChkpt]
    split_ifs
    · exact Collecting.goto (h.congr le_rfl rfl rfl rfl rfl) (Executed.mono hpc le_rfl)
    · exact h.goto hpc
  | marked id =>
    simp only [State.threadStep, hp] at hs
    obtain rfl := Option.some.inj hs
    rw [hp] at hpc
    have hlt := delRange_lt hpc
    refine Collecting.goto ?_ ⟨Executed.mono hpc le_rfl, h.deleted⟩
    refine ⟨.inr ?_, fun u => (h.threads u).mono le_rfl, h.collects.released, ?_⟩
    · rcases h.deleted with hd | hd
      · simpa [State.incLastDeletedTxn, hd] using hlt
      · simpa [State.incLastDeletedTxn] using ⟨hd, hlt⟩
    · intro k hk
      rcases List.mem_append.mp hk with hk | hk
      · exact h.collects.ranges k hk
      · rw [List.mem_singleton.mp hk]
        exact hpc.kept
  | lower id start holding2 i =>
    simp only [State.threadStep, hp] at hs
    rw [hp] at hpc
    split_ifs at hs with hi
    · obtain rfl := Option.some.inj hs
      exact Collecting.goto (h.release (hi.2.trans (delRange_lt hpc.1))) (Pc.Bounded.mono hpc (by simp))
    · obtain rfl := Option.some.inj hs
      exact h.goto hpc
  | upper id start holding2 i =>
    simp only [State.threadStep, hp] at hs
    rw [hp] at hpc
    split_ifs at hs with hi
    · obtain rfl := Option.some.inj hs
      exact Collecting.goto (h.release (hi.trans (delRange_lt hpc.1))) (Pc.Bounded.mono hpc (by simp))
    · obtain rfl := Option.some.inj hs
      exact h.goto hpc
  | settle id start holding2 =>
    simp only [State.threadStep, hp] at hs
    rw [hp] at hpc
    split_ifs at hs with hlt hstall
    -- Something is deleted below `nextIndex`, so `start = 0` lies below it too.
    · obtain rfl := Option.some.inj hs
      have hdel := delRange_lt hpc.1
      have hstart : start < s.nextIndex := by
        rcases hpc.2 with h0 | h0 <;> omega
      exact Collecting.goto (h.congr le_rfl rfl rfl rfl rfl) hstart
    · obtain rfl := Option.some.inj hs
      have hdel := delRange_lt hpc.1
      have hstart : start < s.nextIndex := by
        rcases hpc.2 with h0 | h0 <;> omega
      exact h.goto hstart
    · obtain rfl := Option.some.inj hs
      exact h.goto trivial
  | stalled id start =>
    simp only [State.threadStep, hp] at hs
    rw [hp] at hpc
    split_ifs at hs
    obtain rfl := Option.some.inj hs
    exact Collecting.goto (h.congr le_rfl rfl rfl rfl rfl) hpc
  | woken id start =>
    simp only [State.threadStep, hp] at hs
    rw [hp] at hpc
    obtain rfl := Option.some.inj hs
    exact Collecting.goto (h.congr le_rfl rfl rfl rfl rfl) hpc
  | last id start =>
    simp only [State.threadStep, hp] at hs
    rw [hp] at hpc
    obtain rfl := Option.some.inj hs
    exact Collecting.goto (h.release hpc) trivial
  | finished id =>
    simp only [State.threadStep, hp] at hs
    obtain rfl := Option.some.inj hs
    exact Collecting.goto (h.congr le_rfl rfl rfl rfl rfl) trivial
  | yielding =>
    simp only [State.threadStep, hp] at hs
    obtain rfl := Option.some.inj hs
    exact Collecting.goto (h.congr le_rfl rfl rfl rfl rfl) trivial

lemma collecting_step {e : Event} (h : Collecting cfg s) (hok : TakesExecuted cfg s e)
    (hs : step cfg nodeId s e = some s') : Collecting cfg s' := by
  by_cases he : ∃ t, e = .thread t
  · obtain ⟨t, rfl⟩ := he
    exact collecting_threadStep h hok hs
  · have hb := step_besides hs fun t ht => he ⟨t, ht⟩
    exact h.congr hb.nextIndex hb.lastDeletedTxnMan hb.pc hb.released hb.ranges

end Collecting

section Marking

-- A thread that has not yet marked a checkpoint stable, with a message above the genesis checkpoint.
def Pc.Early : Pc → Prop
  | .idle | .popped _ | .held _ | .finished _ | .yielding => True
  | .admitted id | .acquired id | .counted id => 0 < id
  | _ => False

structure Unmarked (s : State) (t : Bool) (s' : State) : Prop where
  lastStableChkpt : s'.lastStableChkpt = s.lastStableChkpt
  announced : s'.announced = s.announced
  stable : s'.stable = s.stable
  pc : ∀ u, u ≠ t → s'.pc u = s.pc u
  counted : ∀ id, s'.pc t = .counted id → id ∈ takenUp s (.thread t)
  early : (s.pc t).Early → (s'.pc t).Early ∧ s'.ranges = s.ranges ∧ s'.released = s.released

lemma Unmarked.goto {u : State} (hlast : u.lastStableChkpt = s.lastStableChkpt)
    (hann : u.announced = s.announced) (hstable : u.stable = s.stable) (hpc : u.pc = s.pc)
    (hcounted : ∀ id, pc = .counted id → id ∈ takenUp s (.thread t))
    (hearly : (s.pc t).Early → pc.Early ∧ u.ranges = s.ranges ∧ u.released = s.released) :
    Unmarked s t (u.goto t pc) where
  lastStableChkpt := hlast
  announced := hann
  stable := hstable
  pc := fun v hv => by simp [State.goto, hpc, hv]
  counted := fun id hid => hcounted id (by simpa [State.goto] using hid)
  early := fun h => by simpa [State.goto] using hearly h

lemma releaseTxnMan_frame (s : State) (id : ℕ) :
    (s.releaseTxnMan id).lastStableChkpt = s.lastStableChkpt ∧
      (s.releaseTxnMan id).announced = s.announced ∧ (s.releaseTxnMan id).stable = s.stable ∧
      (s.releaseTxnMan id).pc = s.pc := by
  rw [State.releaseTxnMan]
  split <;> exact ⟨rfl, rfl, rfl, rfl⟩

lemma threadStep_unmarked (hs : s.threadStep cfg t = some s') (hne : ∀ id, s.pc t ≠ .counted id) :
    Unmarked s t s' := by
  cases hp : s.pc t with
  | counted id => exact absurd hp (hne id)
  | idle =>
    simp only [State.threadStep, hp] at hs
    split at hs
    · obtain rfl := Option.some.inj hs
      exact Unmarked.goto rfl rfl rfl rfl (by simp) (by simp [Pc.Early])
    · cases hs
  | held id =>
    simp only [State.threadStep, hp] at hs
    obtain rfl := Option.some.inj hs
    split_ifs with hle
    · exact Unmarked.goto rfl rfl rfl rfl (by simp) (by simp [Pc.Early])
    · exact Unmarked.goto rfl rfl rfl rfl (by simp) fun _ => ⟨by simp [Pc.Early]; omega, rfl, rfl⟩
  | admitted id =>
    simp only [State.threadStep, hp] at hs
    split_ifs at hs
    · obtain rfl := Option.some.inj hs
      exact Unmarked.goto rfl rfl rfl rfl (by simp) fun h => ⟨by rwa [hp] at h, rfl, rfl⟩
    · obtain rfl := Option.some.inj hs
      exact Unmarked.goto rfl rfl rfl rfl (by simp) (by simp [Pc.Early, State.getTransactionManager])
  | acquired id =>
    simp only [State.threadStep, hp] at hs
    split_ifs at hs with hflag hcnt
    · obtain rfl := Option.some.inj hs
      exact Unmarked.goto rfl rfl rfl rfl (by simp) (by simp [Pc.Early])
    · obtain rfl := Option.some.inj hs
      refine Unmarked.goto rfl rfl rfl rfl ?_ fun h => ⟨by rwa [hp] at h, rfl, rfl⟩
      intro k hk
      obtain rfl := Pc.counted.inj hk
      exact mem_takenUp.mpr ⟨hp, by simpa using hflag⟩
    · obtain rfl := Option.some.inj hs
      exact Unmarked.goto rfl rfl rfl rfl (by simp) (by simp [Pc.Early, State.modify])
  | lower id start holding2 i =>
    simp only [State.threadStep, hp] at hs
    obtain ⟨hlast, hann, hstable, hpc⟩ := releaseTxnMan_frame s i
    split_ifs at hs
    · obtain rfl := Option.some.inj hs
      exact Unmarked.goto hlast hann hstable hpc (by simp) (by simp [hp, Pc.Early])
    · obtain rfl := Option.some.inj hs
      exact Unmarked.goto rfl rfl rfl rfl (by simp) (by simp [hp, Pc.Early])
  | upper id start holding2 i =>
    simp only [State.threadStep, hp] at hs
    obtain ⟨hlast, hann, hstable, hpc⟩ := releaseTxnMan_frame s i
    split_ifs at hs
    · obtain rfl := Option.some.inj hs
      exact Unmarked.goto hlast hann hstable hpc (by simp) (by simp [hp, Pc.Early])
    · obtain rfl := Option.some.inj hs
      exact Unmarked.goto rfl rfl rfl rfl (by simp) (by simp [hp, Pc.Early])
  | settle id start holding2 =>
    simp only [State.threadStep, hp] at hs
    split_ifs at hs
    all_goals
      obtain rfl := Option.some.inj hs
      exact Unmarked.goto rfl rfl rfl rfl (by simp) (by simp [hp, Pc.Early])
  | stalled id start =>
    simp only [State.threadStep, hp] at hs
    split_ifs at hs
    obtain rfl := Option.some.inj hs
    exact Unmarked.goto rfl rfl rfl rfl (by simp) (by simp [hp, Pc.Early])
  | last id start =>
    simp only [State.threadStep, hp] at hs
    obtain ⟨hlast, hann, hstable, hpc⟩ := releaseTxnMan_frame s start
    obtain rfl := Option.some.inj hs
    exact Unmarked.goto hlast hann hstable hpc (by simp) (by simp [hp, Pc.Early])
  | popped id | finished id | yielding =>
    simp only [State.threadStep, hp] at hs
    obtain rfl := Option.some.inj hs
    exact Unmarked.goto rfl rfl rfl rfl (by simp) (by simp [Pc.Early, State.modify])
  | marked id | woken id start =>
    simp only [State.threadStep, hp] at hs
    obtain rfl := Option.some.inj hs
    exact Unmarked.goto rfl rfl rfl rfl (by simp) (by simp [hp, Pc.Early])

end Marking

section Announcing

variable (cfg) in
-- A counted message is about to raise the stable checkpoint, unless the other thread raised it further.
structure Announcing (s : State) : Prop where
  counted : ∀ t id, s.pc t = .counted id → Backed cfg s id
  stable : StableBacked cfg s

lemma announcers_mono {l : List (ℕ × ℕ)} (h : s'.announced = s.announced ++ l) :
    s.announcers id ⊆ s'.announcers id := by
  intro r hr
  simp only [State.announcers, h, List.filter_append, List.map_append, List.toFinset_append] at hr ⊢
  exact Finset.mem_union_left _ hr

lemma Announcing.congr {l : List (ℕ × ℕ)} (h : Announcing cfg s) (hann : s'.announced = s.announced ++ l)
    (hpc : s'.pc = s.pc) (hstable : s'.stable = s.stable) : Announcing cfg s' where
  counted := fun t id hc => (h.counted t id (hpc ▸ hc)).trans (Finset.card_le_card (announcers_mono hann))
  stable := by
    rw [StableBacked, hstable]
    exact h.stable

lemma announcing_setCurrChkpt (h : Announcing cfg s) (hb : Backed cfg s id) :
    Announcing cfg ((s.setCurrChkpt id).goto t (.marked id)) := by
  refine ⟨?_, ?_⟩
  · intro u k hc
    have hsame : ((s.setCurrChkpt id).goto t (.marked id)).announcers k = s.announcers k := by
      simp only [State.setCurrChkpt]
      split_ifs <;> rfl
    rw [Backed, hsame]
    by_cases hu : u = t
    · subst hu
      simp [State.goto] at hc
    · refine h.counted u k ?_
      simp only [State.goto, Function.update_of_ne hu] at hc
      rw [State.setCurrChkpt] at hc
      split_ifs at hc <;> exact hc
  · simp only [State.setCurrChkpt]
    split_ifs
    · intro x hx
      rcases List.mem_append.mp hx with hx | hx
      · exact h.stable x hx
      · rw [List.mem_singleton.mp hx]
        exact hb
    · exact h.stable

lemma announcing_threadStep (h : Announcing cfg s) (hok : TakesBacked cfg s (.thread t))
    (hs : s.threadStep cfg t = some s') : Announcing cfg s' := by
  by_cases hc : ∃ id, s.pc t = .counted id
  · obtain ⟨id, hp⟩ := hc
    simp only [State.threadStep, hp] at hs
    obtain rfl := Option.some.inj hs
    exact announcing_setCurrChkpt h (h.counted t id hp)
  · have hu := threadStep_unmarked hs fun id hp => hc ⟨id, hp⟩
    have hsame : ∀ id, Backed cfg s id → Backed cfg s' id := by
      intro id hb
      rwa [Backed, State.announcers, hu.announced]
    refine ⟨?_, ?_⟩
    · intro u id hp
      by_cases hut : u = t
      · subst hut
        exact hsame id (hok id (hu.counted id hp))
      · rw [hu.pc u hut] at hp
        exact hsame id (h.counted u id hp)
    · rw [StableBacked, hu.stable]
      exact h.stable

lemma announcing_step {e : Event} (h : Announcing cfg s) (hok : TakesBacked cfg s e)
    (hs : step cfg nodeId s e = some s') : Announcing cfg s' := by
  by_cases he : ∃ t, e = .thread t
  · obtain ⟨t, rfl⟩ := he
    exact announcing_threadStep h hok hs
  · have hb := step_besides hs fun t ht => he ⟨t, ht⟩
    obtain ⟨l, hl, -⟩ := hb.announced
    exact h.congr hl hb.pc hb.stable

lemma announcing_init : Announcing cfg init := ⟨by simp [init], by simp [StableBacked, init]⟩

end Announcing

section Faulty

variable (nodeId) in
-- Correct replicas announce their checkpoints to themselves only.
structure Quiet (byz : Finset ℕ) (s : State) : Prop where
  announced : ∀ a ∈ s.announced, a.1 ∈ insert nodeId byz
  stable : ∀ x ∈ s.stable, x.announcers ⊆ insert nodeId byz
  lastStableChkpt : s.stable = [] → s.lastStableChkpt = 0
  threads : s.stable = [] → ∀ t, (s.pc t).Early
  ranges : s.stable = [] → s.ranges = []
  released : s.stable = [] → s.released = []

variable {byz : Finset ℕ}

lemma quiet_init : Quiet nodeId byz init where
  announced := by simp [init]
  stable := by simp [init]
  lastStableChkpt := fun _ => rfl
  threads := fun _ _ => trivial
  ranges := fun _ => rfl
  released := fun _ => rfl

lemma Quiet.announcers_subset (h : Quiet nodeId byz s) (id : ℕ) : s.announcers id ⊆ insert nodeId byz := by
  intro r hr
  simp only [State.announcers, List.mem_toFinset, List.mem_map, List.mem_filter] at hr
  obtain ⟨a, ⟨ha, -⟩, rfl⟩ := hr
  exact h.announced a ha

lemma quiet_setCurrChkpt (h : Quiet nodeId byz s) (hp : s.pc t = .counted id) :
    Quiet nodeId byz ((s.setCurrChkpt id).goto t (.marked id)) := by
  rw [State.setCurrChkpt]
  split_ifs with hlt
  · refine ⟨h.announced, ?_, by simp [State.goto], by simp [State.goto], by simp [State.goto], by simp [State.goto]⟩
    intro x hx
    rcases List.mem_append.mp hx with hx | hx
    · exact h.stable x hx
    · rw [List.mem_singleton.mp hx]
      exact h.announcers_subset id
  · have hne : s.stable ≠ [] := by
      intro hnil
      have hpos := h.threads hnil t
      rw [hp] at hpos
      have hzero := h.lastStableChkpt hnil
      exact hlt (hzero ▸ hpos)
    exact ⟨h.announced, h.stable, fun h => absurd h hne, fun h => absurd h hne, fun h => absurd h hne,
      fun h => absurd h hne⟩

lemma quiet_threadStep (h : Quiet nodeId byz s) (hs : s.threadStep cfg t = some s') : Quiet nodeId byz s' := by
  by_cases hc : ∃ id, s.pc t = .counted id
  · obtain ⟨id, hp⟩ := hc
    simp only [State.threadStep, hp] at hs
    obtain rfl := Option.some.inj hs
    exact quiet_setCurrChkpt h hp
  · have hu := threadStep_unmarked hs fun id hp => hc ⟨id, hp⟩
    refine ⟨?_, ?_, ?_, ?_, ?_, ?_⟩
    · rw [hu.announced]
      exact h.announced
    · rw [hu.stable]
      exact h.stable
    · rw [hu.stable, hu.lastStableChkpt]
      exact h.lastStableChkpt
    · intro hnil u
      rw [hu.stable] at hnil
      by_cases hut : u = t
      · subst hut
        exact (hu.early (h.threads hnil u)).1
      · rw [hu.pc u hut]
        exact h.threads hnil u
    · intro hnil
      rw [hu.stable] at hnil
      rw [(hu.early (h.threads hnil t)).2.1]
      exact h.ranges hnil
    · intro hnil
      rw [hu.stable] at hnil
      rw [(hu.early (h.threads hnil t)).2.2]
      exact h.released hnil

lemma quiet_step {e : Event} (h : Quiet nodeId byz s) (hok : FromFaulty byz s e)
    (hs : step cfg nodeId s e = some s') : Quiet nodeId byz s' := by
  by_cases he : ∃ t, e = .thread t
  · obtain ⟨t, rfl⟩ := he
    exact quiet_threadStep h hs
  · have hb := step_besides hs fun t ht => he ⟨t, ht⟩
    obtain ⟨l, hl, hfrom⟩ := hb.announced
    refine ⟨?_, ?_, ?_, ?_, ?_, ?_⟩
    · intro a ha
      rw [hl] at ha
      rcases List.mem_append.mp ha with ha | ha
      · exact h.announced a ha
      · rcases hfrom a ha with hself | rfl
        · simp [hself]
        · exact Finset.mem_insert_of_mem hok
    · rw [hb.stable]
      exact h.stable
    · rw [hb.stable, hb.lastStableChkpt]
      exact h.lastStableChkpt
    · rw [hb.stable, hb.pc]
      exact h.threads
    · rw [hb.stable, hb.ranges]
      exact h.ranges
    · rw [hb.stable, hb.released]
      exact h.released

lemma quiet_reach (h : Reach (step cfg nodeId) (FromFaulty byz) init s) : Quiet nodeId byz s :=
  h.invariant (Quiet nodeId byz) quiet_init fun _ _ _ _ hok hs h => quiet_step h hok hs

lemma stableBacked_iff (hf : 0 < cfg.minInvalidNodes) (hbyz : byz.card ≤ cfg.minInvalidNodes)
    (h : Quiet nodeId byz s) : StableBacked cfg s ↔ s.stable = [] := by
  constructor
  · intro hb
    refine List.eq_nil_iff_forall_not_mem.mpr fun x hx => ?_
    have hmany := hb x hx
    have hfew := Finset.card_le_card (h.stable x hx)
    have hins := Finset.card_insert_le nodeId byz
    omega
  · intro hnil x hx
    rw [hnil] at hx
    cases hx

end Faulty

section Own

def Pc.message : Pc → Option ℕ
  | .popped id | .held id | .admitted id | .acquired id => some id
  | _ => none

variable (cfg nodeId) in
structure Own (s : State) : Prop where
  executed : ∀ id, s.executed = some id → id + 1 = s.nextIndex
  queue : ∀ id ∈ s.queue, (nodeId, id) ∈ s.announced
  threads : ∀ t id, (s.pc t).message = some id → (nodeId, id) ∈ s.announced
  announced : ∀ id, (nodeId, id) ∈ s.announced → Executed cfg s id

lemma executed_of_due {k : ℕ} (hdue : (k + 1) % txnPerChkpt cfg = 0) (hk : k + 1 = s.nextIndex) :
    Executed cfg s (sub64 k 5) := by
  have hn := cfg.nodeCnt_pos
  have hb := cfg.five_le_batch
  have hnb : 5 ≤ cfg.nodeCnt * cfg.batchSize := hb.trans (Nat.le_mul_of_pos_left _ hn)
  have hinterval : txnPerChkpt cfg ≤ k + 1 := Nat.le_of_dvd (Nat.succ_pos k) (Nat.dvd_of_mod_eq_zero hdue)
  have hkept : keptRange cfg = 16 * (cfg.nodeCnt * cfg.batchSize) := by
    rw [keptRange]
    ring
  rw [txnPerChkpt] at hinterval
  have hfive : sub64 k 5 = k - 5 := sub64_of_le (by omega)
  refine ⟨?_, ?_⟩ <;> omega

structure Handles (s : State) (t : Bool) (s' : State) : Prop where
  nextIndex : s'.nextIndex = s.nextIndex
  executed : s'.executed = s.executed
  queue : ∀ id ∈ s'.queue, id ∈ s.queue ∨ (s.pc t).message = some id
  message : ∀ id, (s'.pc t).message = some id → id ∈ s.queue ∨ (s.pc t).message = some id
  pc : ∀ u, u ≠ t → s'.pc u = s.pc u
  announced : s'.announced = s.announced

lemma Handles.goto {u : State} (hnext : u.nextIndex = s.nextIndex) (hexec : u.executed = s.executed)
    (hqueue : ∀ id ∈ u.queue, id ∈ s.queue ∨ (s.pc t).message = some id) (hpc : u.pc = s.pc)
    (hann : u.announced = s.announced)
    (hmsg : ∀ id, pc.message = some id → id ∈ s.queue ∨ (s.pc t).message = some id) :
    Handles s t (u.goto t pc) where
  nextIndex := hnext
  executed := hexec
  queue := hqueue
  message := fun id h => hmsg id (by simpa [State.goto] using h)
  pc := fun v hv => by simp [State.goto, hpc, hv]
  announced := hann

lemma Handles.quiet {u : State} (hnext : u.nextIndex = s.nextIndex) (hexec : u.executed = s.executed)
    (hqueue : u.queue = s.queue) (hpc : u.pc = s.pc) (hann : u.announced = s.announced)
    (hmsg : pc.message = none ∨ pc.message = (s.pc t).message) : Handles s t (u.goto t pc) := by
  refine Handles.goto hnext hexec ?_ hpc hann ?_
  · intro id hid
    exact .inl (hqueue ▸ hid)
  · intro id hid
    rcases hmsg with h | h
    · rw [h] at hid
      cases hid
    · exact .inr (h ▸ hid)

lemma handles_releaseTxnMan (i : ℕ) (hmsg : pc.message = none) :
    Handles s t ((s.releaseTxnMan i).goto t pc) := by
  rw [State.releaseTxnMan]
  split <;> exact Handles.quiet rfl rfl rfl rfl rfl (.inl hmsg)

lemma threadStep_handles (hs : s.threadStep cfg t = some s') : Handles s t s' := by
  cases hp : s.pc t with
  | idle =>
    simp only [State.threadStep, hp] at hs
    split at hs
    · rename_i id rest hq
      obtain rfl := Option.some.inj hs
      refine Handles.goto rfl rfl ?_ rfl rfl ?_
      · intro k hk
        exact .inl (hq ▸ List.mem_cons_of_mem id hk)
      · intro k hk
        obtain rfl := Option.some.inj hk
        exact .inl (hq ▸ List.mem_cons_self)
    · cases hs
  | popped id =>
    simp only [State.threadStep, hp] at hs
    obtain rfl := Option.some.inj hs
    exact Handles.quiet rfl rfl rfl rfl rfl (.inr (by rw [hp]; rfl))
  | held id =>
    simp only [State.threadStep, hp] at hs
    obtain rfl := Option.some.inj hs
    split_ifs
    · exact Handles.quiet rfl rfl rfl rfl rfl (.inl rfl)
    · exact Handles.quiet rfl rfl rfl rfl rfl (.inr (by rw [hp]; rfl))
  | admitted id =>
    simp only [State.threadStep, hp] at hs
    split_ifs at hs
    · obtain rfl := Option.some.inj hs
      exact Handles.quiet rfl rfl rfl rfl rfl (.inr (by rw [hp]; rfl))
    · obtain rfl := Option.some.inj hs
      refine Handles.goto rfl rfl ?_ rfl rfl (by simp [Pc.message])
      intro k hk
      rcases List.mem_append.mp hk with hk | hk
      · exact .inl hk
      · rw [List.mem_singleton.mp hk, hp]
        exact .inr rfl
  | acquired id =>
    simp only [State.threadStep, hp] at hs
    split_ifs at hs
    all_goals
      obtain rfl := Option.some.inj hs
      exact Handles.quiet rfl rfl rfl rfl rfl (.inl rfl)
  | counted id =>
    simp only [State.threadStep, hp, State.setCurrChkpt] at hs
    obtain rfl := Option.some.inj hs
    split_ifs <;> exact Handles.quiet rfl rfl rfl rfl rfl (.inl rfl)
  | lower id start holding2 i | upper id start holding2 i =>
    simp only [State.threadStep, hp] at hs
    split_ifs at hs
    · obtain rfl := Option.some.inj hs
      exact handles_releaseTxnMan i rfl
    · obtain rfl := Option.some.inj hs
      exact Handles.quiet rfl rfl rfl rfl rfl (.inl rfl)
  | settle id start holding2 =>
    simp only [State.threadStep, hp] at hs
    split_ifs at hs
    all_goals
      obtain rfl := Option.some.inj hs
      exact Handles.quiet rfl rfl rfl rfl rfl (.inl rfl)
  | stalled id start =>
    simp only [State.threadStep, hp] at hs
    split_ifs at hs
    obtain rfl := Option.some.inj hs
    exact Handles.quiet rfl rfl rfl rfl rfl (.inl rfl)
  | last id start =>
    simp only [State.threadStep, hp] at hs
    obtain rfl := Option.some.inj hs
    exact handles_releaseTxnMan start rfl
  | marked id | woken id start | finished id | yielding =>
    simp only [State.threadStep, hp] at hs
    obtain rfl := Option.some.inj hs
    exact Handles.quiet rfl rfl rfl rfl rfl (.inl rfl)

lemma own_threadStep (h : Own cfg nodeId s) (hs : s.threadStep cfg t = some s') : Own cfg nodeId s' := by
  have hh := threadStep_handles hs
  have hknown : ∀ id, id ∈ s.queue ∨ (s.pc t).message = some id → (nodeId, id) ∈ s.announced :=
    fun id hid => hid.elim (h.queue id) (h.threads t id)
  refine ⟨?_, ?_, ?_, ?_⟩
  · rw [hh.executed, hh.nextIndex]
    exact h.executed
  · intro id hid
    rw [hh.announced]
    exact hknown id (hh.queue id hid)
  · intro u id hid
    rw [hh.announced]
    by_cases hu : u = t
    · subst hu
      exact hknown id (hh.message id hid)
    · rw [hh.pc u hu] at hid
      exact h.threads u id hid
  · intro id hid
    rw [hh.announced] at hid
    exact (h.announced id hid).mono hh.nextIndex.ge

lemma own_congr (h : Own cfg nodeId s) (hnext : s'.nextIndex = s.nextIndex) (hexec : s'.executed = s.executed)
    (hqueue : s'.queue = s.queue) (hpc : s'.pc = s.pc) (hann : s'.announced = s.announced) :
    Own cfg nodeId s' where
  executed := by
    rw [hexec, hnext]
    exact h.executed
  queue := by
    rw [hqueue, hann]
    exact h.queue
  threads := by
    rw [hpc, hann]
    exact h.threads
  announced := fun id hid => (h.announced id (hann ▸ hid)).mono hnext.ge

lemma own_execute (h : Own cfg nodeId s) : Own cfg nodeId (s.execute cfg) where
  executed := by
    intro id hid
    have hb := cfg.batchSize_pos
    have hid : s.nextIndex + cfg.batchSize - 1 = id := Option.some.inj hid
    show id + 1 = s.nextIndex + cfg.batchSize
    omega
  queue := h.queue
  threads := h.threads
  announced := fun id hid => (h.announced id hid).mono (Nat.le_add_right _ _)

lemma own_sendCheckpoints (h : Own cfg nodeId s) (hid : s.executed = some id) :
    Own cfg nodeId (s.sendCheckpoints cfg nodeId id) := by
  simp only [State.sendCheckpoints]
  split_ifs with hdue
  · have hnew : Executed cfg s (sub64 id 5) := executed_of_due hdue (h.executed id hid)
    refine ⟨by simp [State.enqueue, State.getTransactionManager], ?_, ?_, ?_⟩
    · intro k hk
      rcases List.mem_append.mp hk with hk | hk
      · exact List.mem_append_left _ (h.queue k hk)
      · rw [List.mem_singleton.mp hk]
        exact List.mem_append_right _ List.mem_cons_self
    · intro u k hk
      exact List.mem_append_left _ (h.threads u k hk)
    · intro k hk
      rcases List.mem_append.mp hk with hk | hk
      · exact (h.announced k hk).mono le_rfl
      · obtain ⟨-, rfl⟩ := Prod.mk.inj (List.mem_singleton.mp hk)
        exact hnew.mono le_rfl
  · exact ⟨by simp, h.queue, h.threads, fun k hk => (h.announced k hk).mono le_rfl⟩

lemma own_step {e : Event} (h : Own cfg nodeId s) (hok : FromFaulty ∅ s e)
    (hs : step cfg nodeId s e = some s') : Own cfg nodeId s' := by
  cases e with
  | execute =>
    simp only [step] at hs
    split_ifs at hs
    obtain rfl := Option.some.inj hs
    exact own_execute h
  | sendCheckpoints =>
    obtain ⟨id, hid, rfl⟩ := Option.map_eq_some_iff.mp hs
    exact own_sendCheckpoints h hid
  | deliver r id => exact absurd hok (Finset.notMem_empty r)
  | borrow id =>
    obtain rfl := Option.some.inj hs
    exact own_congr h rfl rfl rfl rfl rfl
  | giveBack id =>
    simp only [step] at hs
    split_ifs at hs
    obtain rfl := Option.some.inj hs
    exact own_congr h rfl rfl rfl rfl rfl
  | thread t => exact own_threadStep h hs

lemma own_init : Own cfg nodeId init :=
  ⟨by simp [init], by simp [init], by simp [init, Pc.message], by simp [init]⟩

lemma own_reach (h : Reach (step cfg nodeId) (FromFaulty ∅) init s) : Own cfg nodeId s :=
  h.invariant (Own cfg nodeId) own_init fun _ _ _ _ hok hs h => own_step h hok hs

lemma takesExecuted_of_own {e : Event} (h : Own cfg nodeId s) : TakesExecuted cfg s e := by
  intro id hid
  cases e with
  | thread t =>
    refine h.announced id (h.threads t id ?_)
    rw [(mem_takenUp.mp hid).1]
    rfl
  | _ => cases hid

lemma collecting_of_own (h : Reach (step cfg nodeId) (FromFaulty ∅) init s) : Collecting cfg s :=
  h.invariant (Collecting cfg) collecting_init
    fun _ _ _ hr _ hs h => collecting_step h (takesExecuted_of_own (own_reach hr)) hs

end Own

section Taking

variable {byz : Finset ℕ}

variable (cfg nodeId) in
-- The runs in which no checkpoint thread counts a message.
abbrev Untaken (byz : Finset ℕ) : State → Prop :=
  Reach (step cfg nodeId) (fun s e => FromFaulty byz s e ∧ takenUp s e = none) init

lemma counted_step {e : Event} (hs : step cfg nodeId s e = some s') (htaken : takenUp s e = none)
    (h : ∀ u k, s.pc u ≠ .counted k) : (∀ u k, s'.pc u ≠ .counted k) ∧ s'.stable = s.stable := by
  by_cases he : ∃ u, e = .thread u
  · obtain ⟨t, rfl⟩ := he
    have hu := threadStep_unmarked hs (h t)
    refine ⟨fun u k hk => ?_, hu.stable⟩
    by_cases hut : u = t
    · subst hut
      have hmem := hu.counted k hk
      rw [htaken] at hmem
      cases hmem
    · exact h u k (hu.pc u hut ▸ hk)
  · have hb := step_besides hs fun u hu => he ⟨u, hu⟩
    exact ⟨fun u k hk => h u k (hb.pc ▸ hk), hb.stable⟩

lemma Untaken.stable (h : Untaken cfg nodeId byz s) : (∀ t id, s.pc t ≠ .counted id) ∧ s.stable = [] := by
  apply h.invariant (fun s => (∀ t id, s.pc t ≠ .counted id) ∧ s.stable = [])
  · exact ⟨by simp [init], rfl⟩
  · intro s e s' _ hok hs ⟨hcounted, hstable⟩
    obtain ⟨hcounted', hsame⟩ := counted_step hs hok.2 hcounted
    exact ⟨hcounted', hsame.trans hstable⟩

lemma chkptCnt_modify (s : State) (k id : ℕ) (b : Bool) :
    ((s.modify k fun x => { x with txnReady := b }).manager id).chkptCnt = (s.manager id).chkptCnt :=
  State.field_modify TxnManager.chkptCnt fun _ => rfl

lemma chkptCnt_threadStep (hs : s.threadStep cfg t = some s') (htaken : takenUp s (.thread t) = none)
    (h : ∀ id, (s.manager id).chkptCnt = 1) (id : ℕ) : (s'.manager id).chkptCnt = 1 := by
  have released : ∀ k id, ((s.releaseTxnMan k).manager id).chkptCnt = 1 := by
    intro k id
    rw [State.manager_releaseTxnMan]
    split_ifs
    · rfl
    · exact h id
  cases hp : s.pc t with
  | idle =>
    simp only [State.threadStep, hp] at hs
    split at hs
    · obtain rfl := Option.some.inj hs
      exact h id
    · cases hs
  | admitted k =>
    simp only [State.threadStep, hp] at hs
    split_ifs at hs
    · obtain rfl := Option.some.inj hs
      refine (chkptCnt_modify _ k id false).trans ?_
      rw [State.manager_getTransactionManager]
      exact h id
    · obtain rfl := Option.some.inj hs
      exact (congrArg TxnManager.chkptCnt State.manager_getTransactionManager).trans (h id)
  | acquired k =>
    simp only [State.threadStep, hp] at hs
    split_ifs at hs with hflag
    · obtain rfl := Option.some.inj hs
      exact h id
    all_goals
      have hmem : k ∈ takenUp s (.thread t) := mem_takenUp.mpr ⟨hp, by simpa using hflag⟩
      rw [htaken] at hmem
      cases hmem
  | counted k =>
    simp only [State.threadStep, hp, State.setCurrChkpt] at hs
    obtain rfl := Option.some.inj hs
    split_ifs <;> exact h id
  | lower k start holding2 i | upper k start holding2 i =>
    simp only [State.threadStep, hp] at hs
    split_ifs at hs
    · obtain rfl := Option.some.inj hs
      exact released i id
    · obtain rfl := Option.some.inj hs
      exact h id
  | settle k start holding2 | stalled k start =>
    simp only [State.threadStep, hp] at hs
    split_ifs at hs
    all_goals
      obtain rfl := Option.some.inj hs
      exact h id
  | last k start =>
    simp only [State.threadStep, hp] at hs
    obtain rfl := Option.some.inj hs
    exact released start id
  | finished k =>
    simp only [State.threadStep, hp] at hs
    obtain rfl := Option.some.inj hs
    exact (chkptCnt_modify s k id true).trans (h id)
  | popped k | held k | marked k | woken k start | yielding =>
    simp only [State.threadStep, hp] at hs
    obtain rfl := Option.some.inj hs
    exact h id

lemma Untaken.chkptCnt (h : Untaken cfg nodeId byz s) : ∀ id, (s.manager id).chkptCnt = 1 := by
  apply h.invariant (fun s => ∀ id, (s.manager id).chkptCnt = 1)
  · exact fun _ => rfl
  · intro s e s' _ hok hs h id
    cases e with
    | thread t => exact chkptCnt_threadStep hs hok.2 h id
    | execute =>
      simp only [step] at hs
      split_ifs at hs
      obtain rfl := Option.some.inj hs
      exact h id
    | sendCheckpoints =>
      obtain ⟨k, -, rfl⟩ := Option.map_eq_some_iff.mp hs
      simp only [State.sendCheckpoints]
      split_ifs
      · exact (congrArg TxnManager.chkptCnt State.manager_getTransactionManager).trans (h id)
      · exact h id
    | deliver r k =>
      simp only [step] at hs
      split_ifs at hs
      obtain rfl := Option.some.inj hs
      exact h id
    | borrow k =>
      obtain rfl := Option.some.inj hs
      refine (chkptCnt_modify _ k id false).trans ?_
      rw [State.manager_getTransactionManager]
      exact h id
    | giveBack k =>
      simp only [step] at hs
      split_ifs at hs
      obtain rfl := Option.some.inj hs
      exact (chkptCnt_modify s k id true).trans (h id)

lemma Untaken.counted {e : Event} (h : Untaken cfg nodeId byz s) (hid : id ∈ takenUp s e)
    (hs : step cfg nodeId s e = some s') : ∃ t, s'.pc t = .counted id := by
  cases e with
  | thread t =>
    obtain ⟨hp, hflag⟩ := mem_takenUp.mp hid
    have hs : s.threadStep cfg t = some s' := hs
    simp only [State.threadStep, hp, hflag, h.chkptCnt id, show sub64 1 1 = 0 by decide, if_true] at hs
    refine ⟨t, ?_⟩
    simp only [Bool.false_eq_true, if_false] at hs
    obtain rfl := Option.some.inj hs
    simp [State.goto]
  | _ => cases hid

lemma untaken_or_marked (h : Reach (step cfg nodeId) (FromFaulty byz) init s) :
    Untaken cfg nodeId byz s ∨ s.stable ≠ [] ∨ ∃ t id, s.pc t = .counted id := by
  induction h with
  | start => exact .inl .start
  | @next s s' e h hok hs ih =>
    rcases ih with hun | hmarked
    · cases htaken : takenUp s e with
      | none => exact .inl (.next e hun ⟨hok, htaken⟩ hs)
      | some id =>
        obtain ⟨t, ht⟩ := hun.counted htaken hs
        exact .inr (.inr ⟨t, id, ht⟩)
    right
    by_cases he : ∃ t, e = .thread t
    swap
    · have hb := step_besides hs fun t ht => he ⟨t, ht⟩
      rwa [hb.stable, hb.pc]
    obtain ⟨u, rfl⟩ := he
    have hs : s.threadStep cfg u = some s' := hs
    by_cases hc : ∃ id, s.pc u = .counted id
    · left
      obtain ⟨id, hp⟩ := hc
      have hq := quiet_reach h
      simp only [State.threadStep, hp] at hs
      obtain rfl := Option.some.inj hs
      intro hnil
      rw [State.setCurrChkpt] at hnil
      split_ifs at hnil with hlt
      · exact absurd hnil (by simp [State.goto])
      · have hpos := hq.threads hnil u
        rw [hp] at hpos
        exact hlt (hq.lastStableChkpt hnil ▸ hpos)
    · have hu := threadStep_unmarked hs fun id hp => hc ⟨id, hp⟩
      rw [hu.stable]
      refine hmarked.imp_right ?_
      rintro ⟨t, id, ht⟩
      have htu : t ≠ u := by
        rintro rfl
        exact hc ⟨id, ht⟩
      exact ⟨t, id, (hu.pc t htu).trans ht⟩

lemma untaken_iff (h : Reach (step cfg nodeId) (FromFaulty byz) init s) (hidle : ∀ t id, s.pc t ≠ .counted id) :
    Untaken cfg nodeId byz s ↔ s.stable = [] := by
  refine ⟨fun hun => hun.stable.2, fun hnil => ?_⟩
  rcases untaken_or_marked h with hun | hne | ⟨t, id, ht⟩
  · exact hun
  · exact absurd hnil hne
  · exact absurd ht (hidle t id)

lemma collects_of_stable (h : Reach (step cfg nodeId) (FromFaulty byz) init s) (hnil : s.stable = []) :
    CollectsExecuted cfg s ∧ StableBacked cfg s := by
  have hq := quiet_reach h
  refine ⟨⟨?_, ?_⟩, ?_⟩
  · rw [hq.released hnil]
    exact fun _ hx => nomatch hx
  · rw [hq.ranges hnil]
    exact fun _ hx => nomatch hx
  · rw [StableBacked, hnil]
    exact fun _ hx => nomatch hx

lemma backed_of_own (hf : cfg.minInvalidNodes = 0) (h : Reach (step cfg nodeId) (FromFaulty ∅) init s) :
    StableBacked cfg s := by
  have htakes : ∀ {s}, Reach (step cfg nodeId) (FromFaulty ∅) init s → ∀ e, TakesBacked cfg s e := by
    intro s h e id hid
    have hmem : (nodeId, id) ∈ s.announced := by
      cases e with
      | thread t => exact (own_reach h).threads t id (by rw [(mem_takenUp.mp hid).1]; rfl)
      | _ => cases hid
    rw [Backed, hf]
    refine Finset.card_pos.mpr ⟨nodeId, ?_⟩
    exact List.mem_toFinset.mpr (List.mem_map.mpr ⟨_, List.mem_filter.mpr ⟨hmem, by simp⟩, rfl⟩)
  have hall : Announcing cfg s :=
    h.invariant (Announcing cfg) announcing_init fun _ e _ hr _ hs hx => announcing_step hx (htakes hr e) hs
  exact hall.stable

end Taking

variable (cfg nodeId) in
theorem collection_safe :
    (∀ byz s, Untaken cfg nodeId byz s → CollectsExecuted cfg s ∧ StableBacked cfg s) ∧
    (∀ byz : Finset ℕ, byz.card ≤ cfg.minInvalidNodes → ∀ s, Reach (step cfg nodeId) (FromFaulty byz) init s →
      (∀ t id, s.pc t ≠ .counted id) →
      (CollectsExecuted cfg s ∧ StableBacked cfg s ↔ cfg.minInvalidNodes = 0 ∨ Untaken cfg nodeId byz s)) ∧
    ∀ s, Reach (step cfg nodeId) (FromFaulty ∅) init s → CollectsExecuted cfg s := by
  refine ⟨?_, ?_, fun s h => (collecting_of_own h).collects⟩
  · intro byz s h
    exact collects_of_stable (h.mono fun _ _ hok => hok.1) (Untaken.stable h).2
  · intro byz hbyz s h hidle
    rcases Nat.eq_zero_or_pos cfg.minInvalidNodes with hf | hf
    · obtain rfl : byz = ∅ := Finset.card_eq_zero.mp (by omega)
      exact ⟨fun _ => .inl hf, fun _ => ⟨(collecting_of_own h).collects, backed_of_own hf h⟩⟩
    · have hun := untaken_iff h hidle
      have hiff := stableBacked_iff hf hbyz (quiet_reach h)
      constructor
      · exact fun hsafe => .inr (hun.mpr (hiff.mp hsafe.2))
      · intro hor
        exact collects_of_stable h (hun.mp (hor.resolve_left (by omega)))

-- Replica 3 announces 5: a thread has its message in hand, and has counted it two steps later.
theorem collection_safe_one_announcement :
    ∃ s s', Untaken .fourReplicas 0 {3} s ∧ s.pc false = .acquired 5 ∧
      (CollectsExecuted .fourReplicas s ∧ StableBacked .fourReplicas s) ∧
      Reach (step .fourReplicas 0) (FromFaulty {3}) init s' ∧ s'.stable.map (·.id) = [5] ∧
      (CollectsExecuted .fourReplicas s' ∧ StableBacked .fourReplicas s' ↔
        Config.fourReplicas.minInvalidNodes = 0 ∨ Untaken .fourReplicas 0 {3} s') := by
  let events : List Event := [.borrow 1, .deliver 3 5] ++ List.replicate 4 (.thread false)
  obtain ⟨s, hr, hs⟩ := exists_reach_of_runWith (step .fourReplicas 0)
    (fun s e => FromFaulty {3} s e ∧ takenUp s e = none) init events
    (fun s => decide (s.pc false = .acquired 5)) (by decide +kernel)
  obtain ⟨s', hr', hs'⟩ := exists_reach_of_runWith (step .fourReplicas 0) (FromFaulty {3}) init
    (events ++ List.replicate 2 (.thread false))
    (fun s => decide (s.stable.map (·.id) = [5] ∧ s.pc false = .marked 5 ∧ s.pc true = .idle)) (by decide +kernel)
  obtain ⟨hstable, hmarked, hother⟩ := of_decide_eq_true hs'
  refine ⟨s, s', hr, of_decide_eq_true hs, (collection_safe .fourReplicas 0).1 {3} s hr, hr', hstable, ?_⟩
  refine (collection_safe .fourReplicas 0).2.1 {3} (by decide) s' hr' fun t id ht => ?_
  cases t with
  | false => exact absurd (hmarked.symm.trans ht) (by simp)
  | true => exact absurd (hother.symm.trans ht) (by simp)

-- One message of replica 3 marks checkpoint 5 stable, wraps the range and deletes a transaction yet to run.
theorem checkpoint_stable_on_one_message :
    ∃ s, Reach (step .fourReplicas 0) (FromFaulty {3}) init s ∧
      s.released.map (fun x => (x.id, x.nextIndex)) = [(1, 0)] ∧ s.ranges = [5] ∧
      5 < keptRange .fourReplicas ∧ s.stable.map (·.announcers) = [{3}] ∧
      ¬ (CollectsExecuted .fourReplicas s ∧ StableBacked .fourReplicas s) := by
  let events : List Event := [.borrow 1, .deliver 3 5] ++ List.replicate 10 (.thread false)
  obtain ⟨s, hr, hs⟩ := exists_reach_of_runWith (step .fourReplicas 0) (FromFaulty {3}) init events
    (fun s => decide (s.released.map (fun x => (x.id, x.nextIndex)) = [(1, 0)] ∧ s.ranges = [5] ∧
      s.stable.map (·.announcers) = [{3}])) (by decide +kernel)
  obtain ⟨hreleased, hranges, hstable⟩ := of_decide_eq_true hs
  refine ⟨s, hr, hreleased, hranges, by decide, hstable, ?_⟩
  intro hsafe
  have hkept := hsafe.1.ranges 5 (by simp [hranges])
  exact absurd hkept (by decide)

end SpotLess.Checkpoint
