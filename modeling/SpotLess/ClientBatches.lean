import SpotLess.Lib.Reach

/-! The queues of client batches, one for each instance. Under the lock of one instance after the other, `enqueue` looks
for a count that is not above the least one of the round before, while the batching thread takes from the queues. -/

namespace SpotLess

open Lib

namespace ClientBatches

variable (totInstances : ℕ)

-- The variables of the loop in `enqueue`. The history is: how often the loop has run, the count read last at each
-- instance, the counts when the call began, and whether nothing has been dequeued since.
structure Search where
  entry : ℕ
  startIdx : ℕ
  minCnt : ℕ
  nextMinCnt : ℕ
  iterations : ℕ
  seen : ℕ → Option ℕ
  before : ℕ → ℕ
  quiet : Bool

structure Pushed where
  search : Search
  target : ℕ
  cnt : ℕ → ℕ

structure State where
  clbCnt : ℕ → ℕ
  newTxnQueue : ℕ → List ℕ
  idx : ℕ
  search : Option Search
  pushed : List Pushed

def init (queue : ℕ → List ℕ) (idx : ℕ) : State where
  clbCnt i := (queue i).length
  newTxnQueue := queue
  idx := idx
  search := none
  pushed := []

-- A round of the loop and a visit of `dequeue` are atomic: each holds the lock of the instance it looks at.
inductive Event
  | enqueue (entry : ℕ)
  | iterate
  | take (i : ℕ) (ready : Bool)

namespace State

def newSearch (s : State) (entry : ℕ) : Search where
  entry := entry
  startIdx := s.idx
  minCnt := 0
  nextMinCnt := 0xFFFFF
  iterations := 0
  seen _ := none
  before := s.clbCnt
  quiet := true

def enqueue (s : State) (entry : ℕ) : State := { s with search := some (s.newSearch entry) }

def look (s : State) (b : Search) : Search :=
  { b with iterations := b.iterations + 1, seen := Function.update b.seen s.idx (some (s.clbCnt s.idx)) }

def push (s : State) (b : Search) : State where
  clbCnt := Function.update s.clbCnt s.idx (s.clbCnt s.idx + 1)
  newTxnQueue := Function.update s.newTxnQueue s.idx (s.newTxnQueue s.idx ++ [b.entry])
  idx := (s.idx + 1) % totInstances
  search := none
  pushed := s.pushed ++ [⟨s.look b, s.idx, s.clbCnt⟩]

def nextMinCnt (s : State) (b : Search) : ℕ :=
  if s.clbCnt s.idx < b.nextMinCnt then s.clbCnt s.idx else b.nextMinCnt

def nextSearch (s : State) (b : Search) : Search :=
  { s.look b with
    nextMinCnt := s.nextMinCnt b
    minCnt := if (s.idx + 1) % totInstances = b.startIdx then s.nextMinCnt b else b.minCnt }

def pass (s : State) (b : Search) : State :=
  { s with
    idx := (s.idx + 1) % totInstances
    search := some (s.nextSearch totInstances b) }

def iterate (s : State) (b : Search) : State :=
  if s.clbCnt s.idx ≤ b.minCnt then s.push totInstances b else s.pass totInstances b

-- `ready` is what the views of the instances say at this visit.
def take (s : State) (i : ℕ) (ready : Bool) : State :=
  if 0 < s.clbCnt i ∧ ready then
    match s.newTxnQueue i with
    | [] => s
    | _ :: rest => { s with
        clbCnt := Function.update s.clbCnt i (s.clbCnt i - 1)
        newTxnQueue := Function.update s.newTxnQueue i rest
        search := s.search.map fun b => { b with quiet := false } }
  else s

end State

-- There is one producer, which begins its next call when the last one has returned.
def step (s : State) : Event → Option State
  | .enqueue entry => if s.search.isNone then some (s.enqueue entry) else none
  | .iterate => s.search.map (s.iterate totInstances)
  | .take i ready => if i < totInstances then some (s.take i ready) else none

def Reachable (queue : ℕ → List ℕ) (idx : ℕ) (s : State) : Prop :=
  Reach (step totInstances) (fun _ _ => True) (init queue idx) s

def Event.isTake : Event → Bool
  | take _ _ => true
  | _ => false

def ReachableByEnqueues (queue : ℕ → List ℕ) (idx : ℕ) (s : State) : Prop :=
  Reach (step totInstances) (fun _ e => e.isTake = false) (init queue idx) s

variable {totInstances} {queue : ℕ → List ℕ} {idx : ℕ}

section Search

def Search.Bounded (totInstances : ℕ) (b : Search) : Prop := ∀ i < totInstances, b.before i ≤ 0xFFFFF

instance (b : Search) : Decidable (b.Bounded totInstances) :=
  inferInstanceAs (Decidable (∀ i < totInstances, b.before i ≤ 0xFFFFF))

-- The last field says that the second round cannot pass an instance that lies ahead.
structure SearchInv (totInstances : ℕ) (s : State) (b : Search) : Prop where
  startIdx_lt : b.startIdx < totInstances
  idx_eq : s.idx = (b.startIdx + b.iterations) % totInstances
  clbCnt_le : ∀ i, s.clbCnt i ≤ b.before i
  quiet_eq : b.quiet = true → s.clbCnt = b.before
  seen_le : ∀ i c, b.seen i = some c → s.clbCnt i ≤ c ∧ c ≤ b.before i ∧ b.minCnt ≤ c ∧ b.nextMinCnt ≤ c
  seen_isSome : ∀ j < b.iterations, (b.seen ((b.startIdx + j) % totInstances)).isSome
  first : b.iterations < totInstances → b.minCnt = 0
  least : b.Bounded totInstances → ∃ i < totInstances, s.clbCnt i ≤ b.nextMinCnt
  second : b.Bounded totInstances → totInstances ≤ b.iterations →
    ∃ j < totInstances, b.iterations ≤ totInstances + j ∧
      s.clbCnt ((b.startIdx + j) % totInstances) ≤ b.minCnt

structure Chosen (totInstances : ℕ) (p : Pushed) : Prop where
  target_lt : p.target < totInstances
  iterations_le : p.search.Bounded totInstances → p.search.iterations ≤ 2 * totInstances
  le_seen : ∀ i c, p.search.seen i = some c → p.cnt p.target ≤ c
  le_before : ∀ i < totInstances, p.cnt p.target ≤ p.search.before i
  least : p.search.quiet = true → ∀ i < totInstances, p.cnt p.target ≤ p.cnt i

variable {s : State} {b : Search}

lemma exists_cyclic {start i : ℕ} (hs : start < totInstances) (hi : i < totInstances) :
    ∃ j < totInstances, (start + j) % totInstances = i := by
  rcases Nat.lt_or_ge i start with h | h
  · refine ⟨i + totInstances - start, by omega, ?_⟩
    rw [show start + (i + totInstances - start) = i + totInstances by omega, Nat.add_mod_right, Nat.mod_eq_of_lt hi]
  · refine ⟨i - start, by omega, ?_⟩
    rw [Nat.add_sub_cancel' h, Nat.mod_eq_of_lt hi]

lemma cyclic_eq_start_iff {start k : ℕ} (hs : start < totInstances) :
    (start + k) % totInstances = start ↔ totInstances ∣ k := by
  have h := Nat.add_modEq_left_iff (n := totInstances) (a := start) (b := k)
  rwa [Nat.ModEq, Nat.mod_eq_of_lt hs] at h

lemma look_seen_self : (s.look b).seen s.idx = some (s.clbCnt s.idx) := Function.update_self ..

lemma look_seen_of_ne {i : ℕ} (h : i ≠ s.idx) : (s.look b).seen i = b.seen i := Function.update_of_ne h ..

lemma look_seen {i c : ℕ} (h : (s.look b).seen i = some c) :
    i = s.idx ∧ c = s.clbCnt s.idx ∨ i ≠ s.idx ∧ b.seen i = some c := by
  by_cases hi : i = s.idx
  · subst hi
    rw [look_seen_self] at h
    exact .inl ⟨rfl, (Option.some.inj h).symm⟩
  · rw [look_seen_of_ne hi] at h
    exact .inr ⟨hi, h⟩

lemma SearchInv.iterations_lt (h : SearchInv totInstances s b) (hb : b.Bounded totInstances) :
    b.iterations < 2 * totInstances := by
  rcases Nat.lt_or_ge b.iterations totInstances with hk | hk
  · omega
  · obtain ⟨j, hj, hle, -⟩ := h.second hb hk
    omega

lemma SearchInv.le_before (h : SearchInv totInstances s b) (hle : s.clbCnt s.idx ≤ b.minCnt) {i : ℕ}
    (hi : i < totInstances) : s.clbCnt s.idx ≤ b.before i := by
  rcases Nat.lt_or_ge b.iterations totInstances with hk | hk
  · rw [h.first hk] at hle
    omega
  · obtain ⟨j, hj, rfl⟩ := exists_cyclic h.startIdx_lt hi
    obtain ⟨c, hc⟩ := Option.isSome_iff_exists.mp (h.seen_isSome j (by omega))
    obtain ⟨-, hbefore, hmin, -⟩ := h.seen_le _ c hc
    omega

lemma SearchInv.least_of_quiet (h : SearchInv totInstances s b) (hle : s.clbCnt s.idx ≤ b.minCnt)
    (hq : b.quiet = true) {i : ℕ} (hi : i < totInstances) : s.clbCnt s.idx ≤ s.clbCnt i := by
  have := h.le_before hle hi
  rwa [← h.quiet_eq hq] at this

lemma SearchInv.idx_lt (h : SearchInv totInstances s b) : s.idx < totInstances := by
  rw [h.idx_eq]
  exact Nat.mod_lt _ (Nat.zero_lt_of_lt h.startIdx_lt)

lemma SearchInv.chosen (h : SearchInv totInstances s b) (hle : s.clbCnt s.idx ≤ b.minCnt) :
    Chosen totInstances ⟨s.look b, s.idx, s.clbCnt⟩ where
  target_lt := h.idx_lt
  iterations_le hb := h.iterations_lt hb
  le_seen i c hc := by
    rcases look_seen hc with ⟨-, rfl⟩ | ⟨-, hc⟩
    · exact le_rfl
    · exact hle.trans (h.seen_le i c hc).2.2.1
  le_before _ hi := h.le_before hle hi
  least hq _ hi := h.least_of_quiet hle hq hi

lemma nextMinCnt_le : s.nextMinCnt b ≤ s.clbCnt s.idx ∧ s.nextMinCnt b ≤ b.nextMinCnt := by
  rw [State.nextMinCnt]
  split_ifs <;> omega

lemma nextMinCnt_eq : s.nextMinCnt b = s.clbCnt s.idx ∨ s.nextMinCnt b = b.nextMinCnt := by
  rw [State.nextMinCnt]
  split_ifs <;> simp

lemma SearchInv.next_idx (h : SearchInv totInstances s b) :
    (s.idx + 1) % totInstances = (b.startIdx + (b.iterations + 1)) % totInstances := by
  rw [h.idx_eq, Nat.mod_add_mod, Nat.add_assoc]

lemma SearchInv.nextSearch_minCnt (h : SearchInv totInstances s b) :
    (s.nextSearch totInstances b).minCnt =
      if totInstances ∣ b.iterations + 1 then s.nextMinCnt b else b.minCnt := by
  rw [State.nextSearch]
  simp only [h.next_idx, cyclic_eq_start_iff h.startIdx_lt]

lemma SearchInv.le_nextMinCnt (h : SearchInv totInstances s b) (hb : b.Bounded totInstances) :
    ∃ i < totInstances, s.clbCnt i ≤ s.nextMinCnt b := by
  rcases nextMinCnt_eq (s := s) (b := b) with he | he
  · exact ⟨s.idx, h.idx_lt, he.ge⟩
  · rw [he]
    exact h.least hb

lemma SearchInv.second_succ (h : SearchInv totInstances s b) (hlt : b.minCnt < s.clbCnt s.idx)
    (hb : b.Bounded totInstances) (hk : totInstances ≤ b.iterations) :
    ∃ j < totInstances, b.iterations + 1 ≤ totInstances + j ∧
      s.clbCnt ((b.startIdx + j) % totInstances) ≤ b.minCnt := by
  obtain ⟨j, hj, hle, hcnt⟩ := h.second hb hk
  refine ⟨j, hj, ?_, hcnt⟩
  by_contra hcon
  have hidx : s.idx = (b.startIdx + j) % totInstances := by
    rw [h.idx_eq, show b.iterations = j + totInstances by omega, ← Nat.add_assoc, Nat.add_mod_right]
  rw [hidx] at hlt
  omega

lemma SearchInv.pass (h : SearchInv totInstances s b) (hlt : b.minCnt < s.clbCnt s.idx) :
    SearchInv totInstances (s.pass totInstances b) (s.nextSearch totInstances b) where
  startIdx_lt := h.startIdx_lt
  idx_eq := h.next_idx
  clbCnt_le := h.clbCnt_le
  quiet_eq := h.quiet_eq
  seen_le i c hc := by
    have hmin : (s.nextSearch totInstances b).minCnt = s.nextMinCnt b ∨
        (s.nextSearch totInstances b).minCnt = b.minCnt := by
      rw [h.nextSearch_minCnt]
      split_ifs <;> simp
    have hnext := nextMinCnt_le (s := s) (b := b)
    have hle : s.clbCnt i ≤ c ∧ c ≤ b.before i ∧ b.minCnt ≤ c ∧ s.nextMinCnt b ≤ c := by
      rcases look_seen hc with ⟨rfl, rfl⟩ | ⟨-, hc⟩
      · exact ⟨le_rfl, h.clbCnt_le _, hlt.le, hnext.1⟩
      · obtain ⟨h₁, h₂, h₃, h₄⟩ := h.seen_le i c hc
        exact ⟨h₁, h₂, h₃, hnext.2.trans h₄⟩
    refine ⟨hle.1, hle.2.1, ?_, hle.2.2.2⟩
    rcases hmin with hm | hm
    · exact hm.trans_le hle.2.2.2
    · exact hm.trans_le hle.2.2.1
  seen_isSome j hj := by
    show ((s.look b).seen ((b.startIdx + j) % totInstances)).isSome
    by_cases hi : (b.startIdx + j) % totInstances = s.idx
    · rw [hi, look_seen_self]
      rfl
    · rw [look_seen_of_ne hi]
      refine h.seen_isSome j (Nat.lt_of_le_of_ne (Nat.le_of_lt_succ hj) ?_)
      rintro rfl
      exact hi h.idx_eq.symm
  first hk := by
    rw [h.nextSearch_minCnt, if_neg (Nat.not_dvd_of_pos_of_lt (Nat.succ_pos _) hk)]
    exact h.first (Nat.lt_of_succ_lt hk)
  least hb := h.le_nextMinCnt hb
  second hb hk := by
    have hk : totInstances ≤ b.iterations + 1 := hk
    have hlt2 := h.iterations_lt hb
    rw [h.nextSearch_minCnt]
    rcases Nat.lt_or_ge b.iterations totInstances with hfirst | hsecond
    · obtain rfl : totInstances = b.iterations + 1 := by omega
      obtain ⟨i, hi, hcnt⟩ := h.le_nextMinCnt hb
      obtain ⟨j, hj, rfl⟩ := exists_cyclic h.startIdx_lt hi
      rw [if_pos dvd_rfl]
      exact ⟨j, hj, Nat.le_add_right _ _, hcnt⟩
    · obtain ⟨j, hj, hle, hcnt⟩ := h.second_succ hlt hb hsecond
      have hnd : ¬ totInstances ∣ b.iterations + 1 := by
        intro hd
        have := (Nat.dvd_sub_iff_left hk (dvd_refl totInstances)).mpr hd
        exact Nat.not_dvd_of_pos_of_lt (by omega) (by omega) this
      rw [if_neg hnd]
      exact ⟨j, hj, hle, hcnt⟩

lemma searchInv_enqueue (entry : ℕ) (h : s.idx < totInstances) :
    SearchInv totInstances (s.enqueue entry) (s.newSearch entry) where
  startIdx_lt := h
  idx_eq := (Nat.mod_eq_of_lt h).symm
  clbCnt_le _ := le_rfl
  quiet_eq _ := rfl
  seen_le _ _ hc := by cases hc
  seen_isSome _ hj := absurd hj (Nat.not_lt_zero _)
  first _ := rfl
  least hb := ⟨s.idx, h, hb s.idx h⟩
  second _ hk := absurd h (Nat.not_lt.mpr (Nat.le_trans hk (Nat.zero_le _)))

lemma SearchInv.take {i : ℕ} {rest : List ℕ} (h : SearchInv totInstances s b) :
    SearchInv totInstances
      { s with
        clbCnt := Function.update s.clbCnt i (s.clbCnt i - 1)
        newTxnQueue := Function.update s.newTxnQueue i rest
        search := s.search.map fun b => { b with quiet := false } }
      { b with quiet := false } := by
  have hle : ∀ j, Function.update s.clbCnt i (s.clbCnt i - 1) j ≤ s.clbCnt j := by
    intro j
    by_cases hj : j = i
    · subst hj
      rw [Function.update_self]
      exact Nat.sub_le _ _
    · rw [Function.update_of_ne hj]
  refine ⟨h.startIdx_lt, h.idx_eq, fun j => (hle j).trans (h.clbCnt_le j), ?_, ?_, h.seen_isSome, h.first, ?_, ?_⟩
  · intro hq
    cases hq
  · intro j c hc
    exact ⟨(hle j).trans (h.seen_le j c hc).1, (h.seen_le j c hc).2⟩
  · intro hb
    obtain ⟨j, hj, hcnt⟩ := h.least hb
    exact ⟨j, hj, (hle j).trans hcnt⟩
  · intro hb hk
    obtain ⟨j, hj, hkj, hcnt⟩ := h.second hb hk
    exact ⟨j, hj, hkj, (hle _).trans hcnt⟩

end Search

section Run

structure Inv (totInstances : ℕ) (s : State) : Prop where
  clbCnt_eq : ∀ i, s.clbCnt i = (s.newTxnQueue i).length
  idx_lt : s.idx < totInstances
  search : ∀ b, s.search = some b → SearchInv totInstances s b
  pushed : ∀ p ∈ s.pushed, Chosen totInstances p

variable {s t : State}

lemma inv_init (h : idx < totInstances) : Inv totInstances (init queue idx) where
  clbCnt_eq _ := rfl
  idx_lt := h
  search _ hb := by cases hb
  pushed _ hp := absurd hp List.not_mem_nil

lemma Inv.enqueue (h : Inv totInstances s) (entry : ℕ) : Inv totInstances (s.enqueue entry) where
  clbCnt_eq := h.clbCnt_eq
  idx_lt := h.idx_lt
  search b hb := by
    cases hb
    exact searchInv_enqueue entry h.idx_lt
  pushed := h.pushed

lemma Inv.push {b : Search} (h : Inv totInstances s) (hb : SearchInv totInstances s b)
    (hle : s.clbCnt s.idx ≤ b.minCnt) : Inv totInstances (s.push totInstances b) where
  clbCnt_eq i := by
    simp only [State.push]
    by_cases hi : i = s.idx
    · subst hi
      rw [Function.update_self, Function.update_self, List.length_append, ← h.clbCnt_eq]
      rfl
    · rw [Function.update_of_ne hi, Function.update_of_ne hi]
      exact h.clbCnt_eq i
  idx_lt := Nat.mod_lt _ (Nat.zero_lt_of_lt h.idx_lt)
  search _ hb := by cases hb
  pushed p hp := by
    rcases List.mem_append.mp hp with hp | hp
    · exact h.pushed p hp
    · rw [List.mem_singleton.mp hp]
      exact hb.chosen hle

lemma Inv.pass {b : Search} (h : Inv totInstances s) (hb : SearchInv totInstances s b)
    (hlt : b.minCnt < s.clbCnt s.idx) : Inv totInstances (s.pass totInstances b) where
  clbCnt_eq := h.clbCnt_eq
  idx_lt := Nat.mod_lt _ (Nat.zero_lt_of_lt h.idx_lt)
  search _ hb' := by
    cases hb'
    exact hb.pass hlt
  pushed := h.pushed

lemma Inv.take (h : Inv totInstances s) (i : ℕ) (ready : Bool) : Inv totInstances (s.take i ready) := by
  rw [State.take]
  split_ifs with hi
  · cases hq : s.newTxnQueue i with
    | nil => exact h
    | cons e rest =>
      refine ⟨?_, h.idx_lt, ?_, h.pushed⟩
      · intro j
        dsimp only
        by_cases hj : j = i
        · subst hj
          rw [Function.update_self, Function.update_self, h.clbCnt_eq, hq, List.length_cons, Nat.add_sub_cancel]
        · rw [Function.update_of_ne hj, Function.update_of_ne hj]
          exact h.clbCnt_eq j
      · intro b hb
        obtain ⟨b', hb', rfl⟩ := Option.map_eq_some_iff.mp hb
        exact (h.search b' hb').take
  · exact h

lemma Inv.step {e : Event} (h : Inv totInstances s) (hst : step totInstances s e = some t) : Inv totInstances t := by
  cases e with
  | enqueue entry =>
    simp only [ClientBatches.step] at hst
    split_ifs at hst
    obtain rfl := Option.some.inj hst
    exact h.enqueue entry
  | iterate =>
    obtain ⟨b, hb, rfl⟩ := Option.map_eq_some_iff.mp hst
    have hinv := h.search b hb
    rw [State.iterate]
    split_ifs with hle
    · exact h.push hinv hle
    · exact h.pass hinv (not_le.mp hle)
  | take i ready =>
    simp only [ClientBatches.step] at hst
    split_ifs at hst
    obtain rfl := Option.some.inj hst
    exact h.take i ready

lemma Reachable.inv (hidx : idx < totInstances) (h : Reachable totInstances queue idx s) : Inv totInstances s :=
  Reach.invariant (Inv totInstances) (inv_init hidx) (fun _ _ _ _ _ hst hs => hs.step hst) h

end Run

section Balance

def Balanced (totInstances : ℕ) (cnt : ℕ → ℕ) : Prop :=
  ∀ i < totInstances, ∀ j < totInstances, cnt i ≤ cnt j + 1

lemma Balanced.update {cnt : ℕ → ℕ} {k : ℕ} (h : Balanced totInstances cnt) (hmin : ∀ j < totInstances, cnt k ≤ cnt j) :
    Balanced totInstances (Function.update cnt k (cnt k + 1)) := by
  intro i hi j hj
  have hle : cnt j ≤ Function.update cnt k (cnt k + 1) j := by
    by_cases hjk : j = k
    · subst hjk
      rw [Function.update_self]
      exact Nat.le_succ _
    · rw [Function.update_of_ne hjk]
  refine le_trans ?_ (Nat.succ_le_succ hle)
  by_cases hik : i = k
  · rw [hik, Function.update_self]
    exact Nat.succ_le_succ (hmin j hj)
  · rw [Function.update_of_ne hik]
    exact h i hi j hj

structure Quiet (totInstances : ℕ) (s : State) : Prop where
  inv : Inv totInstances s
  quiet : ∀ b, s.search = some b → b.quiet = true
  balanced : Balanced totInstances s.clbCnt

variable {s t : State}

lemma Quiet.iterate {b : Search} (h : Quiet totInstances s) (hb : s.search = some b) (hi : Inv totInstances (s.iterate totInstances b)) :
    Quiet totInstances (s.iterate totInstances b) := by
  have hq := h.quiet b hb
  rw [State.iterate] at hi ⊢
  split_ifs at hi ⊢ with hle
  · refine ⟨hi, ?_, ?_⟩
    · intro _ hb'
      cases hb'
    · exact h.balanced.update fun j hj => (h.inv.search b hb).least_of_quiet hle hq hj
  · refine ⟨hi, ?_, h.balanced⟩
    intro _ hb'
    cases hb'
    exact hq

lemma Quiet.step {e : Event} (h : Quiet totInstances s) (he : e.isTake = false)
    (hst : step totInstances s e = some t) : Quiet totInstances t := by
  have hinv := h.inv.step hst
  cases e with
  | enqueue entry =>
    simp only [ClientBatches.step] at hst
    split_ifs at hst
    obtain rfl := Option.some.inj hst
    refine ⟨hinv, ?_, h.balanced⟩
    intro b hb
    cases hb
    rfl
  | iterate =>
    obtain ⟨b, hb, rfl⟩ := Option.map_eq_some_iff.mp hst
    exact h.iterate hb hinv
  | take i ready => cases he

lemma ReachableByEnqueues.quiet (hidx : idx < totInstances) (hqueue : Balanced totInstances fun i => (queue i).length)
    (h : ReachableByEnqueues totInstances queue idx s) : Quiet totInstances s :=
  Reach.invariant (Quiet totInstances) ⟨inv_init hidx, fun _ hb => (by cases hb), hqueue⟩
    (fun _ _ _ _ he hst hs => hs.step he hst) h

end Balance

end ClientBatches

end SpotLess
