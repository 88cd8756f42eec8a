import Mathlib.Tactic

/-! The build constants of a deployment and the arithmetic of slots and transaction identifiers. Counters are
natural numbers; `sub64` and `add64` are the `uint64_t` operations where wrapping around can be observed. -/

namespace SpotLess

abbrev Bytes := List UInt8

def ascii (s : String) : Bytes := s.toList.map fun c => c.toNat.toUInt8

def toStringDec (k : ℕ) : Bytes := (Nat.toDigits 10 k).map fun c => c.toNat.toUInt8

def sub64 (a k : ℕ) : ℕ := if k ≤ a then a - k else a + 2 ^ 64 - k

def add64 (a k : ℕ) : ℕ := (a + k) % 2 ^ 64

structure Config where
  nodeCnt : ℕ
  totInstances : ℕ
  batchSize : ℕ
  reqPerQuery : ℕ
  instances_pos : 0 < totInstances
  instances_le : totInstances ≤ nodeCnt
  five_le_batch : 5 ≤ batchSize
  crashView : ℕ := 100
  crashView_pos : 0 < crashView := by decide

namespace Config

variable (cfg : Config)

def minInvalidNodes : ℕ :=
  if cfg.nodeCnt % 3 = 1 then (cfg.nodeCnt - 1) / 3 else (cfg.nodeCnt - 1) / 3 + 1

def nf : ℕ := cfg.nodeCnt - cfg.minInvalidNodes

def getViewPrimary (view instanceId : ℕ) : ℕ := (view + instanceId) % cfg.nodeCnt

def slot (view instanceId : ℕ) : ℕ := view * cfg.totInstances + instanceId

def firstTxn (view instanceId : ℕ) : ℕ := cfg.slot view instanceId * cfg.batchSize

def lastTxn (view instanceId : ℕ) : ℕ := cfg.firstTxn view instanceId + cfg.batchSize - 1

def slotTxns (view instanceId : ℕ) : List ℕ :=
  List.range' (cfg.firstTxn view instanceId) cfg.batchSize

def stride : ℕ := cfg.totInstances * cfg.batchSize

/-- The views for which no identifier or view comparison overflows `uint64_t`. -/
def InRange (view : ℕ) : Prop := cfg.lastTxn (view + 3) cfg.totInstances + 4 < 2 ^ 64

instance (view : ℕ) : Decidable (cfg.InRange view) := inferInstanceAs (Decidable (_ < _))

def deployed : Config where
  nodeCnt := 4
  totInstances := 4
  batchSize := 100
  reqPerQuery := 1
  instances_pos := by decide
  instances_le := by decide
  five_le_batch := by decide

def fourReplicas : Config where
  nodeCnt := 4
  totInstances := 4
  batchSize := 5
  reqPerQuery := 1
  instances_pos := by decide
  instances_le := by decide
  five_le_batch := by decide

def twoReplicas : Config where
  nodeCnt := 2
  totInstances := 2
  batchSize := 5
  reqPerQuery := 1
  instances_pos := by decide
  instances_le := by decide
  five_le_batch := by decide

lemma nodeCnt_pos : 0 < cfg.nodeCnt := cfg.instances_pos.trans_le cfg.instances_le

lemma batchSize_pos : 0 < cfg.batchSize := by
  have := cfg.five_le_batch
  omega

lemma nf_pos : 0 < cfg.nf := by
  have := cfg.nodeCnt_pos
  simp only [nf, minInvalidNodes]
  split_ifs <;> omega

lemma getViewPrimary_lt (view instanceId : ℕ) : cfg.getViewPrimary view instanceId < cfg.nodeCnt :=
  Nat.mod_lt _ cfg.nodeCnt_pos

lemma slot_mod (view : ℕ) {instanceId : ℕ} (hi : instanceId < cfg.totInstances) :
    cfg.slot view instanceId % cfg.totInstances = instanceId := by
  rw [slot, Nat.mul_comm, Nat.mul_add_mod, Nat.mod_eq_of_lt hi]

lemma slot_div (view : ℕ) {instanceId : ℕ} (hi : instanceId < cfg.totInstances) :
    cfg.slot view instanceId / cfg.totInstances = view := by
  rw [slot, Nat.mul_comm, Nat.mul_add_div cfg.instances_pos, Nat.div_eq_of_lt hi, Nat.add_zero]

lemma slot_inj {v w i j : ℕ} (hi : i < cfg.totInstances) (hj : j < cfg.totInstances)
    (h : cfg.slot v i = cfg.slot w j) : v = w ∧ i = j := by
  refine ⟨?_, ?_⟩
  · rw [← cfg.slot_div v hi, h, cfg.slot_div w hj]
  · rw [← cfg.slot_mod v hi, h, cfg.slot_mod w hj]

lemma lastTxn_add_one (v i : ℕ) : cfg.lastTxn v i + 1 = cfg.firstTxn v i + cfg.batchSize := by
  have := cfg.batchSize_pos
  simp only [lastTxn]
  omega

lemma lastTxn_div (v i : ℕ) : cfg.lastTxn v i / cfg.batchSize = cfg.slot v i := by
  have hb := cfg.batchSize_pos
  have h : cfg.lastTxn v i = cfg.batchSize * cfg.slot v i + (cfg.batchSize - 1) := by
    rw [lastTxn, firstTxn, Nat.mul_comm]
    omega
  rw [h, Nat.mul_add_div hb, Nat.div_eq_of_lt (by omega), Nat.add_zero]

lemma lastTxn_inj {v w i j : ℕ} (hi : i < cfg.totInstances) (hj : j < cfg.totInstances)
    (h : cfg.lastTxn v i = cfg.lastTxn w j) : v = w ∧ i = j :=
  cfg.slot_inj hi hj (by rw [← lastTxn_div, h, lastTxn_div])

lemma lastTxn_succ (v i : ℕ) : cfg.lastTxn (v + 1) i = cfg.lastTxn v i + cfg.stride := by
  have hb := cfg.batchSize_pos
  have h : cfg.firstTxn (v + 1) i = cfg.firstTxn v i + cfg.stride := by
    simp only [firstTxn, slot, stride]
    ring
  rw [lastTxn, lastTxn, h]
  omega

lemma InRange.view_lt {v : ℕ} (h : cfg.InRange v) : v + 4 < 2 ^ 64 := by
  have hm := cfg.instances_pos
  have hb := cfg.five_le_batch
  have hslot : v + 4 ≤ cfg.slot (v + 3) cfg.totInstances := by
    calc v + 4 ≤ (v + 4) * cfg.totInstances := Nat.le_mul_of_pos_right _ hm
      _ = cfg.slot (v + 3) cfg.totInstances := by rw [slot]; ring
  have hfirst : v + 4 ≤ cfg.firstTxn (v + 3) cfg.totInstances :=
    hslot.trans (Nat.le_mul_of_pos_right _ cfg.batchSize_pos)
  have hlast : cfg.lastTxn (v + 3) cfg.totInstances + 4 < 2 ^ 64 := h
  rw [lastTxn] at hlast
  omega

lemma mem_slotTxns {v i k : ℕ} : k ∈ cfg.slotTxns v i ↔ k / cfg.batchSize = cfg.slot v i := by
  have hb := cfg.batchSize_pos
  rw [slotTxns, List.mem_range'_1, firstTxn, Nat.div_eq_iff hb]
  omega

end Config

lemma sub64_of_le {a k : ℕ} (h : k ≤ a) : sub64 a k = a - k := if_pos h

lemma add64_of_lt {a k : ℕ} (h : a + k < 2 ^ 64) : add64 a k = a + k := Nat.mod_eq_of_lt h

lemma Config.lastTxn_two_back (cfg : Config) (v i : ℕ) :
    sub64 (cfg.lastTxn (v + 2) i) (2 * cfg.stride) = cfg.lastTxn v i := by
  have h : cfg.lastTxn (v + 2) i = cfg.lastTxn v i + 2 * cfg.stride := by
    rw [cfg.lastTxn_succ (v + 1) i, cfg.lastTxn_succ v i]
    ring
  rw [h, sub64_of_le (Nat.le_add_left _ _), Nat.add_sub_cancel]

end SpotLess
