import SpotLess.BatchDigest
import SpotLess.Contracts
import SpotLess.Storage
import SpotLess.Lib.Reach

/-! The execution of the banking contracts over the store in memory, where balances are kept as decimal strings, and
the money they are meant to conserve. -/

namespace SpotLess

open Lib

def isSpace (b : UInt8) : Bool := b = 32 ∨ (9 ≤ b ∧ b ≤ 13)

def isDigit (b : UInt8) : Bool := 48 ≤ b ∧ b ≤ 57

def digitsValue (s : Bytes) : ℕ := s.foldl (fun a b => 10 * a + (b.toNat - 48)) 0

-- No result is an exception: there is nothing to convert, or the number is not an `int`.
def stoi (s : Bytes) : Option ℤ :=
  let s := s.dropWhile isSpace
  let negative := s.head? = some 45
  let s := if s.head? = some 43 ∨ s.head? = some 45 then s.tail else s
  let digits := s.takeWhile isDigit
  if digits = [] then none
  else
    let v : ℤ := if negative then -(digitsValue digits : ℤ) else digitsValue digits
    if -(2 ^ 31) ≤ v ∧ v < 2 ^ 31 then some v else none

def accountKey (id : UInt64) : Bytes := toStringDec id.toNat

def readBalance (temp : Bytes) : Option UInt64 := if temp = [] then some 0 else (stoi temp).map UInt64.ofInt

namespace SmartContract

variable (db : Table)

def executeTransfer (sourceId destId amount : UInt64) : Option (ℕ × Table) := do
  let temp := InMemoryDB.get db (accountKey sourceId)
  let source ← readBalance temp.1
  let temp := InMemoryDB.get temp.2 (accountKey destId)
  let dest ← readBalance temp.1
  if amount ≤ source then
    let db := (InMemoryDB.put temp.2 (accountKey sourceId) (toStringDec (source - amount).toNat)).2
    let db := (InMemoryDB.put db (accountKey destId) (toStringDec (dest + amount).toNat)).2
    some (1, db)
  else some (0, temp.2)

def executeDeposit (destId amount : UInt64) : Option (ℕ × Table) := do
  let temp := InMemoryDB.get db (accountKey destId)
  let dest ← readBalance temp.1
  some (1, (InMemoryDB.put temp.2 (accountKey destId) (toStringDec (dest + amount).toNat)).2)

def executeWithdraw (sourceId amount : UInt64) : Option (ℕ × Table) := do
  let temp := InMemoryDB.get db (accountKey sourceId)
  let source ← readBalance temp.1
  if amount ≤ source then
    some (1, (InMemoryDB.put temp.2 (accountKey sourceId) (toStringDec (source - amount).toNat)).2)
  else some (0, temp.2)

def execute : SmartContract → Option (ℕ × Table)
  | transfer sourceId destId amount => executeTransfer db sourceId destId amount
  | deposit destId amount => executeDeposit db destId amount
  | withdraw sourceId amount => executeWithdraw db sourceId amount

def step (c : SmartContract) : Option Table := (c.execute db).map (·.2)

end SmartContract

def ReachableDb (db : Table) : Prop := Reach SmartContract.step (fun _ _ => True) ∅ db

-- The amount an account holds, read without a bound.
def balance (db : Table) (id : UInt64) : ℕ := digitsValue (UMap.get db (accountKey id))

def accounts : Finset UInt64 := (Finset.range (2 ^ 64)).image UInt64.ofNat

def total (db : Table) : ℕ := ∑ id ∈ accounts, balance db id

namespace SmartContract

def deposited : SmartContract → ℕ
  | deposit _ amount => amount.toNat
  | _ => 0

def withdrawn : SmartContract → ℕ
  | withdraw _ amount => amount.toNat
  | _ => 0

-- What a committed contract does to the balances.
def applied (b : UInt64 → ℕ) : SmartContract → UInt64 → ℕ
  | transfer sourceId destId amount =>
    if sourceId = destId then b
    else Function.update (Function.update b sourceId (b sourceId - amount.toNat)) destId (b destId + amount.toNat)
  | deposit destId amount => Function.update b destId (b destId + amount.toNat)
  | withdraw sourceId amount => Function.update b sourceId (b sourceId - amount.toNat)

-- The last field excludes that a balance wraps around.
structure Conserves (db : Table) (c : SmartContract) (r : ℕ) (db' : Table) : Prop where
  aborted : r = 0 → ∀ id, balance db' id = balance db id
  committed : r ≠ 0 → total db' + c.withdrawn = total db + c.deposited
  exact : r ≠ 0 → ∀ id, balance db' id = c.applied (balance db) id

def Sound (db : Table) (c : SmartContract) : Prop :=
  ∃ r db', c.execute db = some (r, db') ∧ c.Conserves db r db'

-- The balances that are read are those of an `int`, what is paid in fits, and no account pays itself.
def Safe (db : Table) : SmartContract → Prop
  | transfer sourceId destId amount =>
    balance db sourceId < 2 ^ 31 ∧ balance db destId < 2 ^ 31 ∧
      (amount.toNat ≤ balance db sourceId → sourceId ≠ destId ∨ amount = 0)
  | deposit destId amount => balance db destId < 2 ^ 31 ∧ balance db destId + amount.toNat < 2 ^ 64
  | withdraw sourceId _ => balance db sourceId < 2 ^ 31

end SmartContract

section Decimal

lemma accountKey_injective : Function.Injective accountKey := by
  intro a b h
  exact UInt64.toNat_inj.mp (toStringDec_injective h)

lemma isDigit_of_mem_toStringDec {n : ℕ} {b : UInt8} (h : b ∈ toStringDec n) : 48 ≤ b.toNat ∧ b.toNat ≤ 57 := by
  obtain ⟨c, hc, rfl⟩ := List.mem_map.mp h
  have hdigit := isDigit_of_mem hc
  rw [toNat_toUInt8_of_isDigit hdigit]
  exact toNat_of_isDigit hdigit

lemma digitsValue_toStringDec (n : ℕ) : digitsValue (toStringDec n) = n := by
  have hfold : ∀ (cs : List Char) (a : ℕ), (∀ c ∈ cs, c.isDigit = true) →
      (cs.map fun c => c.toNat.toUInt8).foldl (fun a b => 10 * a + (b.toNat - 48)) a = Nat.ofDigitChars 10 cs a := by
    intro cs
    induction cs with
    | nil => intro a _; simp
    | cons c cs ih =>
      intro a hcs
      rw [List.map_cons, List.foldl_cons, Nat.ofDigitChars_cons, toNat_toUInt8_of_isDigit (hcs c List.mem_cons_self)]
      exact ih _ fun d hd => hcs d (List.mem_cons_of_mem _ hd)
  rw [digitsValue, toStringDec, hfold _ _ fun c hc => isDigit_of_mem hc, Nat.ofDigitChars_ten_toDigits]

lemma stoi_toStringDec (n : ℕ) : stoi (toStringDec n) = if n < 2 ^ 31 then some (n : ℤ) else none := by
  obtain ⟨b, bs, hcons⟩ := List.exists_cons_of_ne_nil (toStringDec_ne_nil n)
  have hb : 48 ≤ b.toNat ∧ b.toNat ≤ 57 := isDigit_of_mem_toStringDec (hcons ▸ List.mem_cons_self)
  have hspace : isSpace b = false := by
    simp only [isSpace, UInt8.le_iff_toNat_le, ← UInt8.toNat_inj, decide_eq_false_iff_not]
    simp
    omega
  have hdrop : (toStringDec n).dropWhile isSpace = toStringDec n := by
    rw [hcons, List.dropWhile_cons_of_neg (by simp [hspace])]
  have hplus : (toStringDec n).head? ≠ some 43 := by
    rw [hcons, List.head?_cons, ne_eq, Option.some_inj, ← UInt8.toNat_inj]
    simp
    omega
  have hminus : (toStringDec n).head? ≠ some 45 := by
    rw [hcons, List.head?_cons, ne_eq, Option.some_inj, ← UInt8.toNat_inj]
    simp
    omega
  have htake : (toStringDec n).takeWhile isDigit = toStringDec n := by
    rw [List.takeWhile_eq_self_iff]
    intro c hc
    have := isDigit_of_mem_toStringDec hc
    simp only [isDigit, UInt8.le_iff_toNat_le, decide_eq_true_eq]
    exact this
  have hrange : (-(2 ^ 31) ≤ (n : ℤ) ∧ (n : ℤ) < 2 ^ 31) ↔ n < 2 ^ 31 := by omega
  simp only [stoi, hdrop, hplus, hminus, or_self, if_false, htake, toStringDec_ne_nil, digitsValue_toStringDec, hrange]

end Decimal

-- Every account that has been written holds the decimal string of a `uint64_t`.
def Decimal (db : Table) : Prop :=
  ∀ id, UMap.get db (accountKey id) = [] ∨ ∃ v : UInt64, UMap.get db (accountKey id) = toStringDec v.toNat

section Balance

variable {db : Table} {id : UInt64} {key : Bytes}

lemma ofInt_natCast (n : ℕ) : UInt64.ofInt n = UInt64.ofNat n := by
  have hmod : ((n : ℤ) % 2 ^ 64).toNat = n % 2 ^ 64 := by omega
  rw [UInt64.ofInt, hmod, ← UInt64.toNat_inj, UInt64.toNat_ofNat', UInt64.toNat_ofNat', Nat.mod_mod]

lemma balance_of_eq {v : UInt64} (h : UMap.get db (accountKey id) = toStringDec v.toNat) : balance db id = v.toNat := by
  rw [balance, h, digitsValue_toStringDec]

lemma Decimal.balance_lt (h : Decimal db) (id : UInt64) : balance db id < 2 ^ 64 := by
  rcases h id with hnil | ⟨v, hv⟩
  · rw [balance, hnil]
    decide
  · rw [balance_of_eq hv]
    exact v.toNat_lt

lemma Decimal.readBalance (h : Decimal db) (id : UInt64) :
    readBalance (UMap.get db (accountKey id)) =
      if balance db id < 2 ^ 31 then some (UInt64.ofNat (balance db id)) else none := by
  rcases h id with hnil | ⟨v, hv⟩
  · rw [balance, hnil]
    rfl
  · rw [balance_of_eq hv, hv, SpotLess.readBalance, if_neg (toStringDec_ne_nil _), stoi_toStringDec]
    split_ifs
    · rw [Option.map_some, ofInt_natCast]
    · rfl

lemma Decimal.readBalance_of_lt (h : Decimal db) (hlt : balance db id < 2 ^ 31) :
    SpotLess.readBalance (UMap.get db (accountKey id)) = some (UInt64.ofNat (balance db id)) :=
  (h.readBalance id).trans (if_pos hlt)

lemma Decimal.readBalance_eq_none (h : Decimal db) (hge : ¬ balance db id < 2 ^ 31) :
    SpotLess.readBalance (UMap.get db (accountKey id)) = none :=
  (h.readBalance id).trans (if_neg hge)

lemma Decimal.toNat_ofNat (h : Decimal db) (id : UInt64) : (UInt64.ofNat (balance db id)).toNat = balance db id := by
  rw [UInt64.toNat_ofNat']
  exact Nat.mod_eq_of_lt (h.balance_lt id)

lemma balance_get (db : Table) (key : Bytes) : balance (InMemoryDB.get db key).2 = balance db := by
  funext id
  rw [balance, InMemoryDB.get, UMap.get_touch, balance]

lemma balance_put (db : Table) (id : UInt64) (v : UInt64) :
    balance (InMemoryDB.put db (accountKey id) (toStringDec v.toNat)).2 = Function.update (balance db) id v.toNat := by
  funext j
  rw [balance, InMemoryDB.put, UMap.get_insert, InMemoryDB.get, UMap.get_touch]
  by_cases hj : j = id
  · subst hj
    rw [if_pos rfl, Function.update_self, digitsValue_toStringDec]
  · rw [if_neg fun h => hj (accountKey_injective h), Function.update_of_ne hj, balance]

lemma Decimal.get (h : Decimal db) (key : Bytes) : Decimal (InMemoryDB.get db key).2 := by
  intro id
  rw [InMemoryDB.get, UMap.get_touch]
  exact h id

lemma Decimal.put (h : Decimal db) (id : UInt64) (v : UInt64) :
    Decimal (InMemoryDB.put db (accountKey id) (toStringDec v.toNat)).2 := by
  intro j
  rw [InMemoryDB.put, UMap.get_insert, InMemoryDB.get, UMap.get_touch]
  split_ifs
  · exact .inr ⟨v, rfl⟩
  · exact h j

lemma mem_accounts (id : UInt64) : id ∈ accounts :=
  Finset.mem_image.mpr ⟨id.toNat, Finset.mem_range.mpr id.toNat_lt, UInt64.ofNat_toNat⟩

lemma sum_update_add (b : UInt64 → ℕ) (id : UInt64) (v : ℕ) :
    ∑ j ∈ accounts, Function.update b id v j + b id = ∑ j ∈ accounts, b j + v := by
  rw [Finset.sum_update_of_mem (mem_accounts id), ← Finset.add_sum_erase _ b (mem_accounts id),
    Finset.erase_eq]
  omega

end Balance

namespace SmartContract

section Execute

variable {db : Table} {c : SmartContract}

def Readable (b : UInt64 → ℕ) : SmartContract → Prop
  | transfer sourceId destId _ => b sourceId < 2 ^ 31 ∧ b destId < 2 ^ 31
  | deposit destId _ => b destId < 2 ^ 31
  | withdraw sourceId _ => b sourceId < 2 ^ 31

def Covered (b : UInt64 → ℕ) : SmartContract → Prop
  | transfer sourceId _ amount => amount.toNat ≤ b sourceId
  | deposit _ _ => True
  | withdraw sourceId amount => amount.toNat ≤ b sourceId

-- What the code writes: sums modulo `2 ^ 64`, and the destination over the source.
def written (b : UInt64 → ℕ) : SmartContract → UInt64 → ℕ
  | transfer sourceId destId amount =>
    Function.update (Function.update b sourceId (b sourceId - amount.toNat)) destId ((b destId + amount.toNat) % 2 ^ 64)
  | deposit destId amount => Function.update b destId ((b destId + amount.toNat) % 2 ^ 64)
  | withdraw sourceId amount => Function.update b sourceId (b sourceId - amount.toNat)

lemma toNat_ofNat_sub {k : ℕ} {amount : UInt64} (hk : k < 2 ^ 64) (h : amount.toNat ≤ k) :
    (UInt64.ofNat k - amount).toNat = k - amount.toNat := by
  have hnat : (UInt64.ofNat k).toNat = k := Wire.toNat_ofNat_lt hk
  rw [UInt64.toNat_sub_of_le _ _ (UInt64.le_iff_toNat_le.mpr (by omega)), hnat]

lemma toNat_ofNat_add {k : ℕ} (amount : UInt64) (hk : k < 2 ^ 64) :
    (UInt64.ofNat k + amount).toNat = (k + amount.toNat) % 2 ^ 64 := by
  rw [UInt64.toNat_add, Wire.toNat_ofNat_lt hk]

lemma execute_eq_none (h : Decimal db) (hr : ¬ c.Readable (balance db)) : c.execute db = none := by
  cases c with
  | transfer sourceId destId amount =>
    simp only [execute, executeTransfer, InMemoryDB.get, UMap.get_touch]
    by_cases hs : balance db sourceId < 2 ^ 31
    · rw [h.readBalance_of_lt hs, h.readBalance_eq_none fun hd => hr ⟨hs, hd⟩]
      rfl
    · rw [h.readBalance_eq_none hs]
      rfl
  | deposit destId amount =>
    simp only [execute, executeDeposit, InMemoryDB.get]
    rw [h.readBalance_eq_none hr]
    rfl
  | withdraw sourceId amount =>
    simp only [execute, executeWithdraw, InMemoryDB.get]
    rw [h.readBalance_eq_none hr]
    rfl

lemma le_ofNat_balance (h : Decimal db) {id amount : UInt64} :
    amount ≤ UInt64.ofNat (balance db id) ↔ amount.toNat ≤ balance db id := by
  rw [UInt64.le_iff_toNat_le, h.toNat_ofNat]

lemma execute_aborts (h : Decimal db) (hr : c.Readable (balance db)) (hc : ¬ c.Covered (balance db)) :
    ∃ db', c.execute db = some (0, db') ∧ Decimal db' ∧ balance db' = balance db := by
  cases c with
  | transfer sourceId destId amount =>
    refine ⟨_, ?_, (h.get (accountKey sourceId)).get (accountKey destId), by rw [balance_get, balance_get]⟩
    simp only [execute, executeTransfer, InMemoryDB.get, UMap.get_touch]
    rw [h.readBalance_of_lt hr.1, h.readBalance_of_lt hr.2]
    exact if_neg fun hle => hc ((le_ofNat_balance h).mp hle)
  | deposit destId amount => exact absurd trivial hc
  | withdraw sourceId amount =>
    refine ⟨_, ?_, h.get (accountKey sourceId), balance_get _ _⟩
    simp only [execute, executeWithdraw, InMemoryDB.get]
    rw [h.readBalance_of_lt hr]
    exact if_neg fun hle => hc ((le_ofNat_balance h).mp hle)

lemma execute_commits (h : Decimal db) (hr : c.Readable (balance db)) (hc : c.Covered (balance db)) :
    ∃ db', c.execute db = some (1, db') ∧ Decimal db' ∧ balance db' = c.written (balance db) := by
  cases c with
  | transfer sourceId destId amount =>
    have htemp := (h.get (accountKey sourceId)).get (accountKey destId)
    refine ⟨_, ?_, (htemp.put sourceId (UInt64.ofNat (balance db sourceId) - amount)).put destId
      (UInt64.ofNat (balance db destId) + amount), ?_⟩
    · simp only [execute, executeTransfer, InMemoryDB.get, UMap.get_touch]
      rw [h.readBalance_of_lt hr.1, h.readBalance_of_lt hr.2]
      exact if_pos ((le_ofNat_balance h).mpr hc)
    · rw [balance_put, balance_put, toNat_ofNat_sub (h.balance_lt _) hc, toNat_ofNat_add _ (h.balance_lt _), written,
        balance_get, balance_get]
  | deposit destId amount =>
    refine ⟨_, ?_, (h.get (accountKey destId)).put destId (UInt64.ofNat (balance db destId) + amount), ?_⟩
    · simp only [execute, executeDeposit, InMemoryDB.get]
      rw [h.readBalance_of_lt hr]
      rfl
    · rw [balance_put, toNat_ofNat_add _ (h.balance_lt _), written, balance_get]
  | withdraw sourceId amount =>
    refine ⟨_, ?_, (h.get (accountKey sourceId)).put sourceId (UInt64.ofNat (balance db sourceId) - amount), ?_⟩
    · simp only [execute, executeWithdraw, InMemoryDB.get]
      rw [h.readBalance_of_lt hr]
      exact if_pos ((le_ofNat_balance h).mpr hc)
    · rw [balance_put, toNat_ofNat_sub (h.balance_lt _) hc, written, balance_get]

end Execute

section Effect

variable {db db' : Table} {c : SmartContract} {b : UInt64 → ℕ} {r : ℕ}

lemma Safe.readable (h : c.Safe db) : c.Readable (balance db) := by
  cases c with
  | transfer sourceId destId amount => exact ⟨h.1, h.2.1⟩
  | deposit destId amount => exact h.1
  | withdraw sourceId amount => exact h

lemma written_eq_applied (h : c.Safe db) (hc : c.Covered (balance db)) :
    c.written (balance db) = c.applied (balance db) := by
  cases c with
  | transfer sourceId destId amount =>
    obtain ⟨hs, hd, hself⟩ := h
    have hc : amount.toNat ≤ balance db sourceId := hc
    have hfits : (balance db destId + amount.toNat) % 2 ^ 64 = balance db destId + amount.toNat :=
      Nat.mod_eq_of_lt (by omega)
    rw [written, applied, hfits]
    split_ifs with heq
    · -- A transfer of nothing.
      subst heq
      have hzero : amount.toNat = 0 := by
        rw [(hself hc).resolve_left fun hne => hne rfl]
        rfl
      rw [hzero, Nat.sub_zero, Nat.add_zero, Function.update_eq_self, Function.update_eq_self]
    · rfl
  | deposit destId amount => rw [written, applied, Nat.mod_eq_of_lt h.2]
  | withdraw sourceId amount => rfl

lemma sum_applied (hc : c.Covered b) :
    ∑ id ∈ accounts, c.applied b id + c.withdrawn = ∑ id ∈ accounts, b id + c.deposited := by
  cases c with
  | transfer sourceId destId amount =>
    have hc : amount.toNat ≤ b sourceId := hc
    rw [applied]
    split_ifs with heq
    · rfl
    · have hne : destId ≠ sourceId := fun h => heq h.symm
      have hdest := sum_update_add (Function.update b sourceId (b sourceId - amount.toNat)) destId
        (b destId + amount.toNat)
      have hsource := sum_update_add b sourceId (b sourceId - amount.toNat)
      rw [Function.update_of_ne hne] at hdest
      simp only [withdrawn, deposited]
      omega
  | deposit destId amount =>
    have hdest := sum_update_add b destId (b destId + amount.toNat)
    simp only [applied, withdrawn, deposited]
    omega
  | withdraw sourceId amount =>
    have hc : amount.toNat ≤ b sourceId := hc
    have hsource := sum_update_add b sourceId (b sourceId - amount.toNat)
    simp only [applied, withdrawn, deposited]
    omega

lemma Safe.sound (hd : Decimal db) (h : c.Safe db) : c.Sound db := by
  by_cases hc : c.Covered (balance db)
  · obtain ⟨db', hexec, -, hbal⟩ := execute_commits hd h.readable hc
    rw [written_eq_applied h hc] at hbal
    refine ⟨1, db', hexec, ⟨fun h0 => absurd h0 one_ne_zero, fun _ => ?_, fun _ => congrFun hbal⟩⟩
    rw [total, hbal]
    exact sum_applied hc
  · obtain ⟨db', hexec, -, hbal⟩ := execute_aborts hd h.readable hc
    exact ⟨0, db', hexec, ⟨fun _ => congrFun hbal, fun h0 => absurd rfl h0, fun h0 => absurd rfl h0⟩⟩

lemma Sound.readable (hd : Decimal db) (h : c.Sound db) : c.Readable (balance db) := by
  by_contra hr
  obtain ⟨r, db', hexec, -⟩ := h
  rw [execute_eq_none hd hr] at hexec
  cases hexec

lemma Sound.written_eq (hd : Decimal db) (h : c.Sound db) (hc : c.Covered (balance db)) :
    c.written (balance db) = c.applied (balance db) := by
  obtain ⟨db', hexec, -, hbal⟩ := execute_commits hd (h.readable hd) hc
  obtain ⟨r, db'', hexec', hcons⟩ := h
  obtain ⟨rfl, rfl⟩ := Prod.mk.inj (Option.some.inj (hexec.symm.trans hexec'))
  rw [← hbal]
  exact funext (hcons.exact one_ne_zero)

lemma Sound.safe (hd : Decimal db) (h : c.Sound db) : c.Safe db := by
  have hr := h.readable hd
  cases c with
  | transfer sourceId destId amount =>
    refine ⟨hr.1, hr.2, fun hc => or_iff_not_imp_left.mpr fun hself => ?_⟩
    obtain rfl := not_not.mp hself
    have heq := congrFun (h.written_eq hd hc) sourceId
    have hlt : balance db sourceId < 2 ^ 31 := hr.1
    rw [written, applied, if_pos rfl, Function.update_self, Nat.mod_eq_of_lt (by omega)] at heq
    rw [← UInt64.toNat_inj]
    change amount.toNat = 0
    omega
  | deposit destId amount =>
    refine ⟨hr, ?_⟩
    have heq := congrFun (h.written_eq hd trivial) destId
    rw [written, applied, Function.update_self, Function.update_self] at heq
    rw [← heq]
    exact Nat.mod_lt _ (by decide)
  | withdraw sourceId amount => exact hr

end Effect

end SmartContract

section Reachable

variable {db db' : Table} {c : SmartContract}

lemma decimal_empty : Decimal ∅ := fun _ => .inl (UMap.get_empty _)

lemma Decimal.step (h : Decimal db) (hs : SmartContract.step db c = some db') : Decimal db' := by
  obtain ⟨⟨r, db₁⟩, hexec, rfl⟩ := Option.map_eq_some_iff.mp hs
  by_cases hr : c.Readable (balance db)
  · by_cases hc : c.Covered (balance db)
    · obtain ⟨db₂, hexec', hdec, -⟩ := SmartContract.execute_commits h hr hc
      obtain ⟨-, rfl⟩ := Prod.mk.inj (Option.some.inj (hexec.symm.trans hexec'))
      exact hdec
    · obtain ⟨db₂, hexec', hdec, -⟩ := SmartContract.execute_aborts h hr hc
      obtain ⟨-, rfl⟩ := Prod.mk.inj (Option.some.inj (hexec.symm.trans hexec'))
      exact hdec
  · rw [SmartContract.execute_eq_none h hr] at hexec
    cases hexec

lemma ReachableDb.decimal (h : ReachableDb db) : Decimal db :=
  Reach.invariant Decimal decimal_empty (fun _ _ _ _ _ hs ih => ih.step hs) h

theorem conserves_iff_safe (h : ReachableDb db) (c : SmartContract) : c.Sound db ↔ c.Safe db :=
  ⟨fun hs => hs.safe h.decimal, fun hs => hs.sound h.decimal⟩

lemma exists_reachableDb (cs : List SmartContract) (p : Table → Bool)
    (h : (runWith SmartContract.step (fun _ _ => True) ∅ cs).any p = true) : ∃ db, ReachableDb db ∧ p db = true :=
  exists_reach_of_runWith SmartContract.step (fun _ _ => True) ∅ cs p h

theorem conserves_after_deposit :
    ∃ db, ReachableDb db ∧ balance db 1 = 100 ∧ (SmartContract.transfer 1 2 30).Sound db := by
  obtain ⟨db, hdb, hp⟩ := exists_reachableDb [.deposit 1 100] (fun db => balance db 1 = 100 ∧ balance db 2 = 0)
    (by decide +kernel)
  rw [decide_eq_true_eq] at hp
  refine ⟨db, hdb, hp.1, (conserves_iff_safe hdb _).mpr ⟨?_, ?_, fun _ => .inl (by decide)⟩⟩
  · rw [hp.1]
    decide
  · rw [hp.2]
    decide

-- An account that pays itself gains the amount; one that holds more than an `int` cannot be read again.
theorem money_not_conserved :
    (∃ db, ReachableDb db ∧ balance db 1 = 100 ∧ ¬ (SmartContract.transfer 1 1 50).Sound db) ∧
      ∃ db, ReachableDb db ∧ (SmartContract.withdraw 1 1).execute db = none := by
  constructor
  · obtain ⟨db, hdb, hp⟩ := exists_reachableDb [.deposit 1 100] (fun db => balance db 1 = 100) (by decide +kernel)
    rw [decide_eq_true_eq] at hp
    refine ⟨db, hdb, hp, fun hs => ?_⟩
    rcases (hs.safe hdb.decimal).2.2 (by rw [hp]; decide) with hne | hzero
    · exact hne rfl
    · exact absurd hzero (by decide)
  · obtain ⟨db, hdb, hp⟩ := exists_reachableDb [.deposit 1 2147483648]
      (fun db => ((SmartContract.withdraw 1 1).execute db).isNone) (by decide +kernel)
    exact ⟨db, hdb, Option.isNone_iff_eq_none.mp hp⟩

end Reachable

end SpotLess
