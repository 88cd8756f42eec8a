import SpotLess.Config

namespace SpotLess

def initialTimeoutLength : UInt64 := 1000000000

def maxTimerLen : UInt64 := 200000000

structure SpotLessTimer where
  waiting : Bool
  timerLength : UInt64
  startTime : UInt64
  expirationTime : UInt64
  lastTimeoutView : ℕ
  extraLength : UInt64

namespace SpotLessTimer

variable (t : SpotLessTimer)

def nextExtraLength (currentView : ℕ) : UInt64 :=
  if t.lastTimeoutView < currentView - 1 then t.timerLength else t.extraLength

def timedOut (currentView : ℕ) : SpotLessTimer :=
  { t with
    waiting := false
    extraLength := t.nextExtraLength currentView
    timerLength :=
      if maxTimerLen < t.timerLength + t.nextExtraLength currentView then maxTimerLen
      else t.timerLength + t.nextExtraLength currentView
    lastTimeoutView := currentView }

def checkTimeOut (crashView currentView : ℕ) (currentTime : UInt64) : Bool × SpotLessTimer :=
  if currentView ≤ crashView then (false, t)
  else if t.waiting ∧ t.expirationTime < currentTime then (true, t.timedOut currentView)
  else (false, t)

def setTimer (currentTime : UInt64) : SpotLessTimer :=
  { t with waiting := true, startTime := currentTime, expirationTime := currentTime + t.timerLength }

def endTimer (currentTime : UInt64) : SpotLessTimer :=
  if t.waiting ∧ currentTime - t.startTime < t.timerLength >>> 3 then
    { t with waiting := false, timerLength := t.timerLength >>> 1 }
  else { t with waiting := false }

-- The other fields of `blank` are those of an object that no constructor has set.
def new (blank : SpotLessTimer) (timerLength : UInt64) : SpotLessTimer :=
  { blank with waiting := false, timerLength := timerLength, lastTimeoutView := 0 }

end SpotLessTimer

structure TimerConfig extends Config where
  multiThreads : ℕ
  thdId : ℕ

namespace TimerConfig

variable (tc : TimerConfig)

-- From `thdId` on every `multiThreads`-th instance, in the order of the keys of `spotless_timers`.
def instanceIds : List ℕ :=
  List.range' tc.thdId ((tc.totInstances - tc.thdId + tc.multiThreads - 1) / tc.multiThreads) tc.multiThreads

example : instanceIds ⟨Config.fourReplicas, 2, 1⟩ = [1, 3] := by decide

abbrev Own := {i : ℕ // i ∈ tc.instanceIds}

-- The primaries whose silence the timers are there to detect.
def failing (value : ℕ) : Bool := 3 ≤ value % 6 ∧ value % 3 ≠ 1

end TimerConfig

structure TimerManager where
  spotlessTimers : ℕ → SpotLessTimer
  minId : ℕ
  minExpTime : UInt64

namespace TimerManager

open TimerConfig

variable (tc : TimerConfig) (m : TimerManager)

def init (blank : ℕ → SpotLessTimer) : TimerManager where
  spotlessTimers i := .new (blank i) initialTimeoutLength
  minId := 0
  minExpTime := 0x3FFFFFFF

def replace (i : ℕ) (t : SpotLessTimer) : TimerManager :=
  { m with spotlessTimers := Function.update m.spotlessTimers i t }

-- The loop over the timers up to the first one that has run out; the views are those of the moment.
def scan (currentView : ℕ → ℕ) (currentTime : UInt64) : List ℕ → Option ℕ × TimerManager
  | [] => (none, m)
  | i :: is =>
    if failing (tc.getViewPrimary (currentView i) i) then
      if ((m.spotlessTimers i).checkTimeOut tc.crashView (currentView i) currentTime).1 then
        (some i, m.replace i ((m.spotlessTimers i).checkTimeOut tc.crashView (currentView i) currentTime).2)
      else scan currentView currentTime is
    else scan currentView currentTime is

def checkTimers (currentView : ℕ → ℕ) (currentTime : UInt64) : Option ℕ × TimerManager :=
  if currentTime < m.minExpTime then (none, m) else m.scan tc currentView currentTime tc.instanceIds

def minimum (timers : ℕ → SpotLessTimer) (start : ℕ × UInt64) (is : List ℕ) : ℕ × UInt64 :=
  is.foldl (fun best i =>
    if (timers i).waiting ∧ (timers i).expirationTime < best.2 then (i, (timers i).expirationTime) else best) start

def reorder (start : ℕ × UInt64) : TimerManager :=
  { m with
    minId := (minimum m.spotlessTimers start tc.instanceIds).1
    minExpTime := (minimum m.spotlessTimers start tc.instanceIds).2 }

def setTimer (i : tc.Own) (currentTime : UInt64) : TimerManager :=
  let t := (m.spotlessTimers i).setTimer currentTime
  if i = m.minId ∨ t.expirationTime < m.minExpTime then (m.replace i t).reorder tc (i, t.expirationTime)
  else m.replace i t

def endTimer (i : tc.Own) (currentTime : UInt64) : TimerManager :=
  let t := (m.spotlessTimers i).endTimer currentTime
  if i = m.minId then (m.replace i t).reorder tc (i, 0xFFFFFFF) else m.replace i t

inductive Call
  | set (i : tc.Own) (currentTime : UInt64)
  | stop (i : tc.Own) (currentTime : UInt64)
  | check (currentView : ℕ → ℕ) (currentTime : UInt64)

def step : Call tc → TimerManager
  | .set i currentTime => m.setTimer tc i currentTime
  | .stop i currentTime => m.endTimer tc i currentTime
  | .check currentView currentTime => (m.checkTimers tc currentView currentTime).2

def run (blank : ℕ → SpotLessTimer) (calls : List (Call tc)) : TimerManager := calls.foldl (step tc) (init blank)

end TimerManager

namespace SpotLessTimer

variable {t : SpotLessTimer}

-- `extraLength` is not read before it is set.
structure Bounded (t : SpotLessTimer) : Prop where
  pos : 0 < t.timerLength.toNat
  le : t.timerLength.toNat ≤ max initialTimeoutLength.toNat maxTimerLen.toNat
  extra : t.lastTimeoutView ≠ 0 → t.extraLength.toNat ≤ max initialTimeoutLength.toNat maxTimerLen.toNat

lemma bounded_new (blank : SpotLessTimer) : (new blank initialTimeoutLength).Bounded where
  pos := by
    change 0 < initialTimeoutLength.toNat
    decide
  le := le_max_left _ _
  extra h := absurd rfl h

lemma Bounded.setTimer (h : t.Bounded) (now : UInt64) : (t.setTimer now).Bounded := ⟨h.pos, h.le, h.extra⟩

lemma toNat_shiftRight_one (a : UInt64) : (a >>> 1).toNat = a.toNat / 2 := by
  rw [UInt64.toNat_shiftRight, Nat.shiftRight_eq_div_pow]
  rfl

lemma toNat_shiftRight_three (a : UInt64) : (a >>> 3).toNat = a.toNat / 8 := by
  rw [UInt64.toNat_shiftRight, Nat.shiftRight_eq_div_pow]
  rfl

lemma Bounded.endTimer (h : t.Bounded) (now : UInt64) : (t.endTimer now).Bounded := by
  have hle := h.le
  rw [SpotLessTimer.endTimer]
  split_ifs with hshort
  · have hlt := UInt64.lt_iff_toNat_lt.mp hshort.2
    rw [toNat_shiftRight_three] at hlt
    refine ⟨?_, ?_, h.extra⟩
    · change 0 < (t.timerLength >>> 1).toNat
      rw [toNat_shiftRight_one]
      omega
    · change (t.timerLength >>> 1).toNat ≤ _
      rw [toNat_shiftRight_one]
      omega
  · exact ⟨h.pos, h.le, h.extra⟩

lemma Bounded.nextExtraLength (h : t.Bounded) {view : ℕ} (hview : 1 < view) :
    (t.nextExtraLength view).toNat ≤ max initialTimeoutLength.toNat maxTimerLen.toNat := by
  rw [SpotLessTimer.nextExtraLength]
  split_ifs with hlast
  · exact h.le
  · exact h.extra (by omega)

lemma toNat_add_of_le {a b : UInt64} (ha : a.toNat ≤ max initialTimeoutLength.toNat maxTimerLen.toNat)
    (hb : b.toNat ≤ max initialTimeoutLength.toNat maxTimerLen.toNat) : (a + b).toNat = a.toNat + b.toNat := by
  have hinit : initialTimeoutLength.toNat = 1000000000 := rfl
  have hmax : maxTimerLen.toNat = 200000000 := rfl
  rw [UInt64.toNat_add]
  exact Nat.mod_eq_of_lt (by omega)

lemma Bounded.timedOut (h : t.Bounded) {view : ℕ} (hview : 1 < view) : (t.timedOut view).Bounded := by
  have hextra := h.nextExtraLength hview
  have hsum := toNat_add_of_le h.le hextra
  have hpos := h.pos
  refine ⟨?_, ?_, fun _ => hextra⟩
  · simp only [SpotLessTimer.timedOut]
    split_ifs
    · decide
    · rw [hsum]
      omega
  · simp only [SpotLessTimer.timedOut]
    split_ifs with hcap
    · exact le_max_right _ _
    · exact (not_lt.mp fun hlt => hcap (UInt64.lt_iff_toNat_lt.mpr hlt)).trans (le_max_right _ _)

lemma Bounded.checkTimeOut (h : t.Bounded) {crashView : ℕ} (hcrash : 0 < crashView) (view : ℕ) (now : UInt64) :
    (t.checkTimeOut crashView view now).2.Bounded := by
  rw [SpotLessTimer.checkTimeOut]
  split_ifs with hview hdue
  · exact h
  · exact h.timedOut (by omega)
  · exact h

lemma checkTimeOut_waiting {crashView view : ℕ} {now : UInt64} (h : (t.checkTimeOut crashView view now).1 = true) :
    (t.checkTimeOut crashView view now).2.waiting = false ∧ t.waiting = true ∧ t.expirationTime < now := by
  rw [checkTimeOut] at h ⊢
  split_ifs at h ⊢ with hview hdue
  exact ⟨rfl, hdue⟩

end SpotLessTimer

namespace TimerManager

section Minimum

variable {timers : ℕ → SpotLessTimer} {start : ℕ × UInt64} {is : List ℕ} {i : ℕ}

lemma minimum_le_start (timers : ℕ → SpotLessTimer) (start : ℕ × UInt64) (is : List ℕ) :
    (minimum timers start is).2 ≤ start.2 := by
  induction is generalizing start with
  | nil => exact UInt64.le_refl _
  | cons j is ih =>
    rw [minimum, List.foldl_cons]
    refine UInt64.le_trans (ih _) ?_
    split_ifs with hlt
    · exact UInt64.le_of_lt hlt.2
    · exact UInt64.le_refl _

lemma minimum_le (hi : i ∈ is) (hw : (timers i).waiting = true) :
    (minimum timers start is).2 ≤ (timers i).expirationTime := by
  induction is generalizing start with
  | nil => cases hi
  | cons j is ih =>
    rw [minimum, List.foldl_cons]
    rcases List.mem_cons.mp hi with rfl | hi
    · refine UInt64.le_trans (minimum_le_start timers _ is) ?_
      split_ifs with hlt
      · exact UInt64.le_refl _
      · exact UInt64.not_lt.mp fun h => hlt ⟨hw, h⟩
    · exact ih hi

end Minimum

section Invariant

variable (tc : TimerConfig) {m : TimerManager}

structure Inv (m : TimerManager) : Prop where
  cached (i : ℕ) (hi : i ∈ tc.instanceIds) (hw : (m.spotlessTimers i).waiting = true) :
    m.minExpTime ≤ (m.spotlessTimers i).expirationTime
  bounded (i : ℕ) : (m.spotlessTimers i).Bounded

variable {tc}

lemma inv_init (blank : ℕ → SpotLessTimer) : Inv tc (init blank) where
  cached i hi hw := by cases hw
  bounded i := SpotLessTimer.bounded_new _

lemma replace_self (m : TimerManager) (i : ℕ) (t : SpotLessTimer) : (m.replace i t).spotlessTimers i = t :=
  Function.update_self _ _ _

lemma replace_of_ne (m : TimerManager) {i j : ℕ} (t : SpotLessTimer) (h : j ≠ i) :
    (m.replace i t).spotlessTimers j = m.spotlessTimers j :=
  Function.update_of_ne h _ _

lemma bounded_replace (h : Inv tc m) {i : ℕ} {t : SpotLessTimer} (ht : t.Bounded) (j : ℕ) :
    ((m.replace i t).spotlessTimers j).Bounded := by
  by_cases hj : j = i
  · subst hj
    rwa [replace_self]
  · rw [replace_of_ne m t hj]
    exact h.bounded j

lemma inv_reorder (hb : ∀ i, (m.spotlessTimers i).Bounded) (start : ℕ × UInt64) : Inv tc (m.reorder tc start) :=
  ⟨fun _ hi hw => minimum_le hi hw, hb⟩

lemma Inv.replace (h : Inv tc m) {i : ℕ} {t : SpotLessTimer} (ht : t.Bounded)
    (hw : t.waiting = true → m.minExpTime ≤ t.expirationTime) : Inv tc (m.replace i t) := by
  refine ⟨?_, bounded_replace h ht⟩
  intro j hj hwj
  by_cases hji : j = i
  · subst hji
    rw [replace_self] at hwj ⊢
    exact hw hwj
  · rw [replace_of_ne m t hji] at hwj ⊢
    exact h.cached j hj hwj

lemma Inv.setTimer (h : Inv tc m) (i : tc.Own) (now : UInt64) : Inv tc (m.setTimer tc i now) := by
  have ht := (h.bounded i).setTimer now
  rw [TimerManager.setTimer]
  split_ifs with hre
  · exact inv_reorder (bounded_replace h ht) _
  · exact h.replace ht fun _ => UInt64.not_lt.mp fun hlt => hre (.inr hlt)

lemma endTimer_waiting (t : SpotLessTimer) (now : UInt64) : (t.endTimer now).waiting = false := by
  rw [SpotLessTimer.endTimer]
  split_ifs <;> rfl

lemma Inv.endTimer (h : Inv tc m) (i : tc.Own) (now : UInt64) : Inv tc (m.endTimer tc i now) := by
  rw [TimerManager.endTimer]
  split_ifs
  · exact inv_reorder (bounded_replace h ((h.bounded i).endTimer now)) _
  · refine h.replace ((h.bounded i).endTimer now) fun hw => ?_
    rw [endTimer_waiting] at hw
    cases hw

lemma Inv.scan (h : Inv tc m) (view : ℕ → ℕ) (now : UInt64) (is : List ℕ) : Inv tc (m.scan tc view now is).2 := by
  induction is with
  | nil => exact h
  | cons i is ih =>
    rw [TimerManager.scan]
    split_ifs with hfail hout
    · refine h.replace ((h.bounded i).checkTimeOut tc.crashView_pos _ _) fun hw => ?_
      rw [(SpotLessTimer.checkTimeOut_waiting hout).1] at hw
      cases hw
    · exact ih
    · exact ih

lemma Inv.step (h : Inv tc m) (c : Call tc) : Inv tc (m.step tc c) := by
  cases c with
  | set i now => exact h.setTimer i now
  | stop i now => exact h.endTimer i now
  | check view now =>
    rw [TimerManager.step, checkTimers]
    split_ifs
    · exact h
    · exact h.scan view now tc.instanceIds

lemma inv_run (blank : ℕ → SpotLessTimer) (calls : List (Call tc)) : Inv tc (run tc blank calls) := by
  induction calls using List.reverseRecOn with
  | nil => exact inv_init blank
  | append_singleton calls c ih =>
    rw [run, List.foldl_append]
    exact ih.step c

lemma Inv.scan_early (h : Inv tc m) {now : UInt64} (hnow : now < m.minExpTime) (view : ℕ → ℕ) {is : List ℕ}
    (his : ∀ i ∈ is, i ∈ tc.instanceIds) : m.scan tc view now is = (none, m) := by
  induction is with
  | nil => rfl
  | cons i is ih =>
    have htail := ih fun j hj => his j (List.mem_cons_of_mem _ hj)
    rw [TimerManager.scan, htail]
    split_ifs with hfail hout
    · obtain ⟨-, hw, hdue⟩ := SpotLessTimer.checkTimeOut_waiting hout
      have hle := h.cached i (his i List.mem_cons_self) hw
      exact absurd (UInt64.lt_of_le_of_lt hle (UInt64.lt_trans hdue hnow)) (UInt64.lt_irrefl _)
    · rfl
    · rfl

end Invariant

theorem shortcut_hides_nothing (tc : TimerConfig) (blank : ℕ → SpotLessTimer) (calls : List (Call tc)) :
    let m := run tc blank calls
    (∀ i ∈ tc.instanceIds, (m.spotlessTimers i).waiting = true → m.minExpTime ≤ (m.spotlessTimers i).expirationTime) ∧
      (∀ currentView currentTime,
        m.checkTimers tc currentView currentTime = m.scan tc currentView currentTime tc.instanceIds) ∧
      ∀ i ∈ tc.instanceIds, 0 < (m.spotlessTimers i).timerLength ∧
        (m.spotlessTimers i).timerLength ≤ max initialTimeoutLength maxTimerLen := by
  intro m
  have h := inv_run blank calls
  refine ⟨h.cached, ?_, ?_⟩
  · intro view now
    rw [checkTimers]
    split_ifs with hnow
    · exact (h.scan_early hnow view fun i hi => hi).symm
    · rfl
  · intro i _
    refine ⟨UInt64.lt_iff_toNat_lt.mpr (h.bounded i).pos, UInt64.le_iff_toNat_le.mpr ?_⟩
    exact (h.bounded i).le

end TimerManager

end SpotLess
