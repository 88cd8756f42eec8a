import SpotLess.Lib.Reach

namespace SpotLess

open Lib

structure QueryConfig where
  maxTxnPerPart : UInt32
  clientThreadCnt : ℕ

variable (cfg : QueryConfig)

-- The sum is taken at the width of `g_max_txn_per_part`.
def QueryConfig.size : ℕ := (cfg.maxTxnPerPart + 4).toNat

namespace QueryQueue

-- Where a thread stands in `get_next_query`: `pastEnd` keeps the number that was too large.
inductive Pc
  | idle
  | pastEnd (queryId : UInt64)
  | swapped
  deriving DecidableEq

-- `reads` are the indexes at which `queries` has been read.
structure State where
  queryCnt : UInt64
  pc : ℕ → Pc
  reads : List ℕ

def init : State where
  queryCnt := 0
  pc _ := .idle
  reads := []

inductive Event
  | fetch (t : ℕ)
  | swap (t : ℕ)
  | again (t : ℕ)

namespace State

def read (s : State) (t : ℕ) : State where
  queryCnt := s.queryCnt + 1
  pc := Function.update s.pc t .idle
  reads := s.reads ++ [s.queryCnt.toNat]

def pass (s : State) (t : ℕ) : State where
  queryCnt := s.queryCnt + 1
  pc := Function.update s.pc t (.pastEnd s.queryCnt)
  reads := s.reads

def fetch (s : State) (t : ℕ) : State := if cfg.maxTxnPerPart.toUInt64 < s.queryCnt then s.pass t else s.read t

-- The result of the compare and swap is not looked at.
def swap (s : State) (t : ℕ) (queryId : UInt64) : State where
  queryCnt := if s.queryCnt = queryId + 1 then 0 else s.queryCnt
  pc := Function.update s.pc t .swapped
  reads := s.reads

variable (s : State) (t : ℕ)

@[simp] lemma read_queryCnt : (s.read t).queryCnt = s.queryCnt + 1 := rfl

@[simp] lemma read_pc : (s.read t).pc t = .idle := Function.update_self ..

@[simp] lemma pass_queryCnt : (s.pass t).queryCnt = s.queryCnt + 1 := rfl

@[simp] lemma pass_pc : (s.pass t).pc t = .pastEnd s.queryCnt := Function.update_self ..

@[simp] lemma swap_pc (q : UInt64) : (s.swap t q).pc t = .swapped := Function.update_self ..

end State

def step (s : State) : Event → Option State
  | .fetch t => if t < cfg.clientThreadCnt ∧ s.pc t = .idle then some (s.fetch cfg t) else none
  | .swap t =>
    match s.pc t with
    | .pastEnd queryId => some (s.swap t queryId)
    | _ => none
  | .again t => if s.pc t = .swapped then some (s.read t) else none

def Reachable (s : State) : Prop := Reach (step cfg) (fun _ _ => True) init s

variable {cfg}

section Steps

variable {s t : State} {e : Event}

lemma step_cases (h : step cfg s e = some t) :
    (∃ i, i < cfg.clientThreadCnt ∧ s.pc i = .idle ∧ t = s.fetch cfg i) ∨
      (∃ i q, s.pc i = .pastEnd q ∧ t = s.swap i q) ∨ ∃ i, s.pc i = .swapped ∧ t = s.read i := by
  cases e with
  | fetch i =>
    simp only [step] at h
    split_ifs at h with hi
    exact .inl ⟨i, hi.1, hi.2, (Option.some.inj h).symm⟩
  | swap i =>
    simp only [step] at h
    split at h
    · rename_i q hq
      exact .inr (.inl ⟨i, q, hq, (Option.some.inj h).symm⟩)
    · cases h
  | again i =>
    simp only [step] at h
    split_ifs at h with hi
    exact .inr (.inr ⟨i, hi, (Option.some.inj h).symm⟩)

lemma lt_maxTxnPerPart_iff : cfg.maxTxnPerPart.toUInt64 < s.queryCnt ↔ cfg.maxTxnPerPart.toNat < s.queryCnt.toNat := by
  rw [UInt64.lt_iff_toNat_lt, UInt32.toNat_toUInt64]

lemma toNat_add_one {c : UInt64} (h : c.toNat < 2 ^ 33) : (c + 1).toNat = c.toNat + 1 := by
  rw [UInt64.toNat_add, UInt64.toNat_one]
  omega

end Steps

section Single

structure Single (cfg : QueryConfig) (s : State) : Prop where
  active : ∀ i, s.pc i ≠ .idle → i = 0
  idle : s.pc 0 = .idle → s.queryCnt.toNat ≤ cfg.maxTxnPerPart.toNat + 1
  pastEnd : ∀ q, s.pc 0 = .pastEnd q → s.queryCnt = q + 1
  swapped : s.pc 0 = .swapped → s.queryCnt = 0
  reads : ∀ i ∈ s.reads, i ≤ cfg.maxTxnPerPart.toNat

lemma single_init : Single cfg init where
  active _ h := absurd rfl h
  idle _ := Nat.zero_le _
  pastEnd _ h := by cases h
  swapped h := by cases h
  reads _ h := absurd h List.not_mem_nil

variable {s : State}

lemma Single.active_update (hs : Single cfg s) {c : Pc} {i : ℕ} (h : Function.update s.pc 0 c i ≠ .idle) : i = 0 := by
  by_contra h0
  rw [Function.update_of_ne h0] at h
  exact h0 (hs.active i h)

lemma Single.read (hs : Single cfg s) (h : s.queryCnt.toNat ≤ cfg.maxTxnPerPart.toNat) : Single cfg (s.read 0) := by
  have hlt : cfg.maxTxnPerPart.toNat < 2 ^ 32 := cfg.maxTxnPerPart.toNat_lt
  refine ⟨fun _ => hs.active_update, ?_, ?_, ?_, ?_⟩
  · intro _
    rw [s.read_queryCnt, toNat_add_one (by omega)]
    omega
  · simp
  · simp
  · intro i hi
    rcases List.mem_append.mp hi with hi | hi
    · exact hs.reads i hi
    · rw [List.mem_singleton.mp hi]
      exact h

lemma Single.fetch (hs : Single cfg s) (h : s.pc 0 = .idle) : Single cfg (s.fetch cfg 0) := by
  have hle := hs.idle h
  rw [State.fetch]
  split_ifs with hq
  · refine ⟨fun _ => hs.active_update, ?_, ?_, ?_, hs.reads⟩
    · simp
    · intro q hpc
      rw [s.pass_pc] at hpc
      cases hpc
      rfl
    · simp
  · rw [lt_maxTxnPerPart_iff] at hq
    exact hs.read (by omega)

lemma Single.swap (hs : Single cfg s) {q : UInt64} (h : s.pc 0 = .pastEnd q) : Single cfg (s.swap 0 q) := by
  refine ⟨fun _ => hs.active_update, ?_, ?_, ?_, hs.reads⟩
  · simp
  · simp
  · intro _
    rw [State.swap, if_pos (hs.pastEnd q h)]

lemma Single.step (hcfg : cfg.clientThreadCnt ≤ 1) (hs : Single cfg s) {e : Event} {t : State}
    (h : step cfg s e = some t) : Single cfg t := by
  rcases step_cases h with ⟨i, hi, hpc, rfl⟩ | ⟨i, q, hpc, rfl⟩ | ⟨i, hpc, rfl⟩
  · obtain rfl : i = 0 := by omega
    exact hs.fetch hpc
  · obtain rfl := hs.active i (by simp [hpc])
    exact hs.swap hpc
  · obtain rfl := hs.active i (by simp [hpc])
    exact hs.read (by simp [hs.swapped hpc])

lemma Reachable.single (hcfg : cfg.clientThreadCnt ≤ 1) (h : Reachable cfg s) : Single cfg s :=
  Reach.invariant (Single cfg) single_init (fun _ _ _ _ _ hst hs => hs.step hcfg hst) h

end Single

section PastTheEnd

def taken (n : ℕ) : State where
  queryCnt := UInt64.ofNat n
  pc _ := .idle
  reads := List.range n

lemma ofNat_toNat {n : ℕ} (h : n < 2 ^ 64) : (UInt64.ofNat n).toNat = n := UInt64.toNat_ofNat_of_lt' h

lemma taken_succ {n : ℕ} (h : n ≤ cfg.maxTxnPerPart.toNat) : (taken n).fetch cfg 0 = taken (n + 1) := by
  have hlt : cfg.maxTxnPerPart.toNat < 2 ^ 32 := cfg.maxTxnPerPart.toNat_lt
  have hn : (taken n).queryCnt.toNat = n := ofNat_toNat (by omega)
  rw [State.fetch, if_neg (by rw [lt_maxTxnPerPart_iff, hn]; omega), State.read, hn]
  simp [taken, List.range_succ]

lemma reachable_taken (hcfg : 0 < cfg.clientThreadCnt) {n : ℕ} (h : n ≤ cfg.maxTxnPerPart.toNat + 1) :
    Reachable cfg (taken n) := by
  induction n with
  | zero => exact .start
  | succ n ih =>
    refine .next (.fetch 0) (ih (by omega)) trivial ?_
    rw [step, if_pos ⟨hcfg, rfl⟩, taken_succ (by omega)]

lemma reachable_fetch {s : State} {i : ℕ} (hs : Reachable cfg s) (hi : i < cfg.clientThreadCnt) (hpc : s.pc i = .idle) :
    Reachable cfg (s.fetch cfg i) :=
  .next (.fetch i) hs trivial (by rw [step, if_pos ⟨hi, hpc⟩])

lemma reachable_swap {s : State} {i : ℕ} {q : UInt64} (hs : Reachable cfg s) (hpc : s.pc i = .pastEnd q) :
    Reachable cfg (s.swap i q) :=
  .next (.swap i) hs trivial (by rw [step, hpc])

lemma reachable_read {s : State} {i : ℕ} (hs : Reachable cfg s) (hpc : s.pc i = .swapped) : Reachable cfg (s.read i) :=
  .next (.again i) hs trivial (by rw [step, if_pos hpc])

lemma swap_fails {s : State} {i : ℕ} {q : UInt64} (h : s.queryCnt = q + 1 + 1) : (s.swap i q).queryCnt = q + 1 + 1 := by
  have hne : s.queryCnt ≠ q + 1 := by
    rw [h]
    intro hq
    simp at hq
  rw [State.swap, if_neg hne, h]

lemma exists_read_past (cfg : QueryConfig) (hcfg : 2 ≤ cfg.clientThreadCnt) :
    ∃ s, Reachable cfg s ∧ cfg.maxTxnPerPart.toNat + 4 ∈ s.reads := by
  have hlt : cfg.maxTxnPerPart.toNat < 2 ^ 32 := cfg.maxTxnPerPart.toNat_lt
  let s₀ := taken (cfg.maxTxnPerPart.toNat + 1)
  have h₀ : Reachable cfg s₀ := reachable_taken (by omega) le_rfl
  have hcnt : s₀.queryCnt.toNat = cfg.maxTxnPerPart.toNat + 1 := ofNat_toNat (by omega)
  let s₁ := s₀.pass 0
  have h₁ : Reachable cfg s₁ := by
    have h := reachable_fetch h₀ (by omega : 0 < cfg.clientThreadCnt) rfl
    rwa [State.fetch, if_pos (lt_maxTxnPerPart_iff.mpr (by omega))] at h
  have hcnt₁ : s₁.queryCnt.toNat = cfg.maxTxnPerPart.toNat + 2 := by
    rw [s₀.pass_queryCnt, toNat_add_one (by omega), hcnt]
  let s₂ := s₁.pass 1
  have h₂ : Reachable cfg s₂ := by
    have h := reachable_fetch h₁ (by omega : 1 < cfg.clientThreadCnt) rfl
    rwa [State.fetch, if_pos (lt_maxTxnPerPart_iff.mpr (by omega))] at h
  let s₃ := s₂.swap 0 s₀.queryCnt
  have h₃ : Reachable cfg s₃ := reachable_swap h₂ rfl
  have hcnt₃ : s₃.queryCnt = s₀.queryCnt + 1 + 1 := swap_fails rfl
  let s₄ := s₃.read 0
  have h₄ : Reachable cfg s₄ := reachable_read h₃ rfl
  let s₅ := s₄.swap 1 s₁.queryCnt
  have h₅ : Reachable cfg s₅ := reachable_swap h₄ rfl
  have hcnt₅ : s₅.queryCnt = s₁.queryCnt + 1 + 1 := swap_fails (by rw [s₃.read_queryCnt, hcnt₃]; rfl)
  refine ⟨s₅.read 1, reachable_read h₅ rfl, List.mem_append_right _ (List.mem_singleton.mpr ?_)⟩
  have hs₁ : (s₁.queryCnt + 1).toNat = cfg.maxTxnPerPart.toNat + 3 := by
    rw [toNat_add_one (by rw [hcnt₁]; omega), hcnt₁]
  rw [hcnt₅, toNat_add_one (by rw [hs₁]; omega), hs₁]

end PastTheEnd

lemma Reachable.eq_init {s : State} (hcfg : cfg.clientThreadCnt = 0) (h : Reachable cfg s) : s = init := by
  refine Reach.invariant (· = init) rfl ?_ h
  rintro s e t - - hst rfl
  rcases step_cases hst with ⟨i, hi, -, -⟩ | ⟨i, q, hpc, -⟩ | ⟨i, hpc, -⟩
  · omega
  · cases hpc
  · cases hpc

lemma size_le (cfg : QueryConfig) : cfg.size ≤ cfg.maxTxnPerPart.toNat + 4 := by
  rw [QueryConfig.size, UInt32.toNat_add]
  exact Nat.mod_le _ _

lemma size_of_lt (h : cfg.maxTxnPerPart.toNat + 4 < 2 ^ 32) : cfg.size = cfg.maxTxnPerPart.toNat + 4 := by
  rw [QueryConfig.size, UInt32.toNat_add]
  exact Nat.mod_eq_of_lt h

lemma size_of_ge (h : 2 ^ 32 ≤ cfg.maxTxnPerPart.toNat + 4) : cfg.size ≤ cfg.maxTxnPerPart.toNat := by
  have hlt : cfg.maxTxnPerPart.toNat < 2 ^ 32 := cfg.maxTxnPerPart.toNat_lt
  rw [QueryConfig.size, UInt32.toNat_add]
  have h4 : (4 : UInt32).toNat = 4 := rfl
  omega

theorem reads_lt_size_iff (cfg : QueryConfig) :
    (∀ s, Reachable cfg s → ∀ i ∈ s.reads, i < cfg.size) ↔
      cfg.clientThreadCnt = 0 ∨ cfg.clientThreadCnt = 1 ∧ cfg.maxTxnPerPart.toNat + 4 < 2 ^ 32 := by
  constructor
  · intro h
    by_contra hcon
    rw [not_or, not_and] at hcon
    obtain ⟨hpos, hbig⟩ := hcon
    by_cases hone : cfg.clientThreadCnt = 1
    · have hsize := size_of_ge (not_lt.mp (hbig hone))
      have hs := h _ (reachable_taken (by omega) (by omega : cfg.size + 1 ≤ _)) cfg.size (List.mem_range.mpr (by omega))
      omega
    · obtain ⟨s, hs, hread⟩ := exists_read_past cfg (by omega)
      have := h s hs _ hread
      have := size_le cfg
      omega
  · rintro (hzero | ⟨hone, hlt⟩) s hs i hi
    · rw [hs.eq_init hzero] at hi
      cases hi
    · have := (hs.single (by omega)).reads i hi
      rw [size_of_lt hlt]
      omega

-- The default number of queries, shared by two client threads.
theorem two_threads_read_past_size :
    ∃ s, Reachable ⟨4000, 2⟩ s ∧ ∃ i ∈ s.reads, ¬ i < (QueryConfig.mk 4000 2).size := by
  obtain ⟨s, hs, hread⟩ := exists_read_past ⟨4000, 2⟩ le_rfl
  exact ⟨s, hs, _, hread, by decide⟩

end QueryQueue

end SpotLess
