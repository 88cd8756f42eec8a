import SpotLess.Config
import SpotLess.Lib.UMap
import Mathlib.Data.List.TakeWhile

namespace SpotLess

open Lib

abbrev Table := UMap Bytes Bytes

inductive DbOp
  | get (key : Bytes)
  | put (key value : Bytes)
  deriving DecidableEq

namespace InMemoryDB

variable (db : Table)

def get (key : Bytes) : Bytes × Table := (UMap.get db key, UMap.touch db key)

def put (key value : Bytes) : Bytes × Table :=
  let old := get db key
  (old.1, old.2.insert key value)

def step : DbOp → Bytes × Table
  | .get key => get db key
  | .put key value => put db key value

def run (db : Table) : List DbOp → List Bytes
  | [] => []
  | op :: ops => (step db op).1 :: run (step db op).2 ops

end InMemoryDB

def quote : UInt8 := 39

-- `sqlite3_exec` reads the text up to its first zero.
def cStr (s : Bytes) : Bytes := s.takeWhile (· ≠ 0)

inductive Query
  | select (key : Bytes)
  | update (value key : Bytes)
  | insert (key value : Bytes)

namespace Query

def table : Bytes := ascii "KV"

def text : Query → Bytes
  | select key => ascii "SELECT KEY, VALUE FROM " ++ table ++ ascii " WHERE KEY = '" ++ key ++ ascii "';"
  | update value key =>
    ascii "UPDATE " ++ table ++ ascii " set VALUE = '" ++ value ++ ascii "' where KEY = '" ++ key ++ ascii "';"
  | insert key value =>
    ascii "INSERT INTO " ++ table ++ ascii " (KEY, VALUE) VALUES('" ++ key ++ ascii "', '" ++ value ++ ascii "');"

end Query

-- The rows are what the callback is given; a column that is `NULL` has no value.
structure ExecResult where
  ok : Bool
  rows : List (List (Option Bytes))
  table : Table

-- A table with a primary key holds at most one row for every key, and refuses a second one.
def Query.exec (t : Table) : Query → ExecResult
  | select key => ⟨true, (t.lookup key).toList.map fun value => [some key, some value], t⟩
  | update value key => ⟨true, [], if key ∈ t then t.insert key value else t⟩
  | insert key value => if key ∈ t then ⟨false, [], t⟩ else ⟨true, [], t.insert key value⟩

def Literal (s : Bytes) : Prop := quote ∉ s ∧ 0 ∉ s

instance (s : Bytes) : Decidable (Literal s) := inferInstanceAs (Decidable (_ ∧ _))

def Query.Literals : Query → Prop
  | select key => Literal key
  | update value key => Literal value ∧ Literal key
  | insert key value => Literal key ∧ Literal value

-- The statement breaks off inside one of its literals, which hold no quotes themselves.
def Query.Cut (q : Query) (sql : Bytes) : Prop := q.Literals ∧ sql <+: q.text ∧ Odd (sql.count quote)

-- What `sqlite3_exec` is documented to do with one of the three statements, whole or with its last literal not closed.
structure SqlSemantics (sqlite3Exec : Table → Bytes → ExecResult) : Prop where
  statement (t : Table) (q : Query) (h : q.Literals) : sqlite3Exec t q.text = q.exec t
  unterminated (t : Table) (q : Query) (sql : Bytes) (h : q.Cut sql) : sqlite3Exec t sql = ⟨false, [], t⟩

namespace SQLite

variable (sqlite3Exec : Table → Bytes → ExecResult)

-- The first row of the results holds the names of the columns.
def callback (results : List (List Bytes)) (colValue : List (Option Bytes)) : List (List Bytes) :=
  let results := if results.length = 0 then [[ascii "KEY", ascii "VALUE"]] else results
  results ++ [colValue.map fun v => v.getD (ascii "NULL")]

-- No result is the failed assertion of the error branch.
def get (t : Table) (key : Bytes) : Option (Bytes × Table) :=
  let r := sqlite3Exec t (cStr (Query.select key).text)
  if r.ok then
    let results := r.rows.foldl callback []
    some (if results.length ≠ 0 then (results.getD 1 []).getD 1 [] else [], r.table)
  else none

def put (t : Table) (key value : Bytes) : Option (Bytes × Table) :=
  (get sqlite3Exec t key).bind fun p =>
    if value = p.1 then some p
    else
      let query := if p.1.length ≠ 0 then Query.update value key else Query.insert key value
      let r := sqlite3Exec p.2 (cStr query.text)
      if r.ok then some (p.1, r.table) else none

def step (t : Table) : DbOp → Option (Bytes × Table)
  | .get key => get sqlite3Exec t key
  | .put key value => put sqlite3Exec t key value

def run (t : Table) : List DbOp → Option (List Bytes)
  | [] => some []
  | op :: ops => (step sqlite3Exec t op).bind fun r => (run r.2 ops).map (r.1 :: ·)

end SQLite

namespace DbOp

def strings : DbOp → List Bytes
  | get key => [key]
  | put key value => [key, value]

def QuoteFree (op : DbOp) : Prop := ∀ s ∈ op.strings, quote ∉ s

def ZeroFree (op : DbOp) : Prop := ∀ s ∈ op.strings, 0 ∉ s

instance (op : DbOp) : Decidable op.QuoteFree := inferInstanceAs (Decidable (∀ s ∈ _, _))

instance (op : DbOp) : Decidable op.ZeroFree := inferInstanceAs (Decidable (∀ s ∈ _, _))

def lastPut (ops : List DbOp) (k : Bytes) : Bytes :=
  ops.foldl (fun a op => match op with
    | get _ => a
    | put key value => if key = k then value else a) []

-- A key that has lost its value to the empty string is not given another one.
def Revives (pre : List DbOp) : DbOp → Prop
  | get _ => False
  | put key value => value ≠ [] ∧ lastPut pre key = [] ∧ ∃ w, w ≠ [] ∧ put key w ∈ pre

end DbOp

section Text

lemma cStr_append {a s : Bytes} (ha : 0 ∉ a) : cStr (a ++ s) = a ++ cStr s := by
  rw [cStr, List.takeWhile_append_of_pos]
  · rfl
  · rintro b hb
    rw [decide_eq_true_eq]
    rintro rfl
    exact ha hb

lemma cStr_eq_self {s : Bytes} (h : 0 ∉ s) : cStr s = s := by
  have hnil : cStr (s ++ []) = s ++ [] := cStr_append h
  rwa [List.append_nil] at hnil

lemma cStr_cut {s : Bytes} (r : Bytes) (h : 0 ∈ s) : cStr (s ++ r) = cStr s := by
  rw [cStr, List.takeWhile_append, if_neg, cStr]
  intro hlen
  have heq : s.takeWhile (· ≠ 0) = s := (List.takeWhile_prefix _).eq_of_length hlen
  rw [← heq] at h
  simpa using List.mem_takeWhile_imp h

lemma literal_cStr {s : Bytes} (h : quote ∉ s) : Literal (cStr s) := by
  refine ⟨fun hq => h (List.takeWhile_subset _ hq), fun h0 => ?_⟩
  simpa using List.mem_takeWhile_imp h0

namespace Query

lemma zero_notMem_text {q : Query} (h : q.Literals) : 0 ∉ q.text := by
  cases q with
  | select key =>
    have hkey : 0 ∉ key := h.2
    simp only [text, List.mem_append, hkey, not_or]
    decide
  | update value key =>
    have hvalue : 0 ∉ value := h.1.2
    have hkey : 0 ∉ key := h.2.2
    simp only [text, List.mem_append, hkey, hvalue, not_or]
    decide
  | insert key value =>
    have hkey : 0 ∉ key := h.1.2
    have hvalue : 0 ∉ value := h.2.2
    simp only [text, List.mem_append, hkey, hvalue, not_or]
    decide

lemma cStr_text {q : Query} (h : q.Literals) : cStr q.text = q.text := cStr_eq_self (zero_notMem_text h)

lemma cut_select {key : Bytes} (hq : quote ∉ key) (h0 : 0 ∈ key) :
    (select (cStr key)).Cut (cStr (select key).text) := by
  have hhead : 0 ∉ ascii "SELECT KEY, VALUE FROM " ++ table ++ ascii " WHERE KEY = '" := by decide
  have hcount : (cStr key).count quote = 0 := List.count_eq_zero.mpr (literal_cStr hq).1
  have hcut : cStr (select key).text = ascii "SELECT KEY, VALUE FROM " ++ table ++ ascii " WHERE KEY = '" ++ cStr key := by
    rw [text, List.append_assoc _ key, cStr_append hhead, cStr_cut _ h0]
  refine ⟨literal_cStr hq, hcut ▸ List.prefix_append _ _, ?_⟩
  rw [hcut, List.count_append, hcount]
  decide

lemma cut_update {key value : Bytes} (hkey : Literal key) (hq : quote ∉ value) (h0 : 0 ∈ value) :
    (update (cStr value) key).Cut (cStr (update value key).text) := by
  have hhead : 0 ∉ ascii "UPDATE " ++ table ++ ascii " set VALUE = '" := by decide
  have hcount : (cStr value).count quote = 0 := List.count_eq_zero.mpr (literal_cStr hq).1
  have hcut : cStr (update value key).text = ascii "UPDATE " ++ table ++ ascii " set VALUE = '" ++ cStr value := by
    rw [text, List.append_assoc _ value, List.append_assoc _ (value ++ _), List.append_assoc _ (value ++ _ ++ _),
      cStr_append hhead, List.append_assoc value, List.append_assoc value, cStr_cut _ h0]
  refine ⟨⟨literal_cStr hq, hkey⟩, ?_, ?_⟩
  · rw [hcut, text, List.append_assoc _ _ key, List.append_assoc _ _ (ascii "';")]
    exact List.prefix_append _ _
  · rw [hcut, List.count_append, hcount]
    decide

lemma cut_insert {key value : Bytes} (hkey : Literal key) (hq : quote ∉ value) (h0 : 0 ∈ value) :
    (insert key (cStr value)).Cut (cStr (insert key value).text) := by
  have hhead : 0 ∉ ascii "INSERT INTO " ++ table ++ ascii " (KEY, VALUE) VALUES('" ++ key ++ ascii "', '" := by
    simp only [List.mem_append, hkey.2, not_or]
    decide
  have hcounts : key.count quote = 0 ∧ (cStr value).count quote = 0 :=
    ⟨List.count_eq_zero.mpr hkey.1, List.count_eq_zero.mpr (literal_cStr hq).1⟩
  have hcut : cStr (insert key value).text =
      ascii "INSERT INTO " ++ table ++ ascii " (KEY, VALUE) VALUES('" ++ key ++ ascii "', '" ++ cStr value := by
    rw [text, List.append_assoc _ value, cStr_append hhead, cStr_cut _ h0]
  refine ⟨⟨hkey, literal_cStr hq⟩, hcut ▸ List.prefix_append _ _, ?_⟩
  simp only [hcut, List.count_append, hcounts]
  decide

end Query

end Text

section Step

variable {sqlite3Exec : Table → Bytes → ExecResult} {t db : Table} {pre ops : List DbOp} {op : DbOp} {key value : Bytes}

lemma SQLite.get_eq (hsql : SqlSemantics sqlite3Exec) (hkey : Literal key) :
    SQLite.get sqlite3Exec t key = some (UMap.get t key, t) := by
  have hexec : sqlite3Exec t (cStr (Query.select key).text) = (Query.select key).exec t := by
    rw [Query.cStr_text (q := .select key) hkey]
    exact hsql.statement t (.select key) hkey
  simp only [SQLite.get, hexec, Query.exec, UMap.get, if_true]
  cases t.lookup key <;> rfl

lemma SQLite.get_eq_none (hsql : SqlSemantics sqlite3Exec) (hq : quote ∉ key) (h0 : 0 ∈ key) :
    SQLite.get sqlite3Exec t key = none := by
  have hexec := hsql.unterminated t _ _ (Query.cut_select hq h0)
  simp [SQLite.get, hexec]

lemma SQLite.put_eq (hsql : SqlSemantics sqlite3Exec) (hkey : Literal key) (hne : value ≠ UMap.get t key) :
    SQLite.put sqlite3Exec t key value =
      let query := if (UMap.get t key).length ≠ 0 then Query.update value key else Query.insert key value
      let r := sqlite3Exec t (cStr query.text)
      if r.ok then some (UMap.get t key, r.table) else none := by
  rw [SQLite.put, SQLite.get_eq hsql hkey, Option.bind_some, if_neg hne]

lemma SQLite.put_eq_none (hsql : SqlSemantics sqlite3Exec) (hkey : Literal key) (hq : quote ∉ value)
    (h0 : 0 ∈ value) (hne : value ≠ UMap.get t key) : SQLite.put sqlite3Exec t key value = none := by
  rw [SQLite.put_eq hsql hkey hne]
  split_ifs
  · have hexec := hsql.unterminated t _ _ (Query.cut_update hkey hq h0)
    simp [hexec]
  · have hexec := hsql.unterminated t _ _ (Query.cut_insert hkey hq h0)
    simp [hexec]

-- The rows of the table are the keys that have been given a value, and both stores hold what was put last.
structure Linked (t db : Table) (pre : List DbOp) : Prop where
  memory (k : Bytes) : UMap.get db k = DbOp.lastPut pre k
  table (k : Bytes) : UMap.get t k = DbOp.lastPut pre k
  rows (k : Bytes) : k ∈ t ↔ ∃ w, w ≠ [] ∧ DbOp.put k w ∈ pre
  zeroFree (k : Bytes) : 0 ∉ UMap.get t k

lemma linked_nil : Linked ∅ ∅ [] where
  memory _ := UMap.get_empty _
  table _ := UMap.get_empty _
  rows k := by simp
  zeroFree k := by
    rw [UMap.get_empty]
    exact List.not_mem_nil

lemma DbOp.lastPut_snoc_get (pre : List DbOp) (key k : Bytes) : lastPut (pre ++ [get key]) k = lastPut pre k := by
  simp [lastPut]

lemma DbOp.lastPut_snoc_put (pre : List DbOp) (key value k : Bytes) :
    lastPut (pre ++ [put key value]) k = if key = k then value else lastPut pre k := by
  simp [lastPut]

lemma Linked.get (h : Linked t db pre) (key : Bytes) : Linked t (InMemoryDB.get db key).2 (pre ++ [.get key]) where
  memory k := by
    rw [InMemoryDB.get, UMap.get_touch, DbOp.lastPut_snoc_get]
    exact h.memory k
  table k := by
    rw [DbOp.lastPut_snoc_get]
    exact h.table k
  rows k := by
    rw [h.rows k]
    simp
  zeroFree := h.zeroFree

lemma Linked.memory_put (h : Linked t db pre) (key value k : Bytes) :
    UMap.get (InMemoryDB.put db key value).2 k = DbOp.lastPut (pre ++ [.put key value]) k := by
  rw [DbOp.lastPut_snoc_put, InMemoryDB.put, UMap.get_insert, InMemoryDB.get, UMap.get_touch, h.memory k]
  simp only [eq_comm]

lemma Linked.write (h : Linked t db pre) (hvalue : 0 ∉ value) (hrow : value ≠ [] ∨ key ∈ t) :
    Linked (t.insert key value) (InMemoryDB.put db key value).2 (pre ++ [.put key value]) where
  memory := h.memory_put key value
  table k := by
    rw [UMap.get_insert, DbOp.lastPut_snoc_put, h.table k]
    simp only [eq_comm]
  rows k := by
    rw [AList.mem_insert, h.rows k]
    simp only [List.mem_append, List.mem_singleton, DbOp.put.injEq]
    constructor
    · rintro (rfl | ⟨w, hw, hmem⟩)
      · rcases hrow with hne | hin
        · exact ⟨value, hne, .inr ⟨rfl, rfl⟩⟩
        · obtain ⟨w, hw, hmem⟩ := (h.rows k).mp hin
          exact ⟨w, hw, .inl hmem⟩
      · exact ⟨w, hw, .inl hmem⟩
    · rintro ⟨w, hw, hmem | ⟨rfl, -⟩⟩
      · exact .inr ⟨w, hw, hmem⟩
      · exact .inl rfl
  zeroFree k := by
    rw [UMap.get_insert]
    split_ifs
    · exact hvalue
    · exact h.zeroFree k

lemma Linked.same (h : Linked t db pre) (heq : value = UMap.get t key) :
    Linked t (InMemoryDB.put db key value).2 (pre ++ [.put key value]) where
  memory := h.memory_put key value
  table k := by
    rw [DbOp.lastPut_snoc_put, ← h.table k]
    split_ifs with hk
    · rw [← hk, heq]
    · rfl
  rows k := by
    rw [h.rows k]
    simp only [List.mem_append, List.mem_singleton, DbOp.put.injEq]
    constructor
    · rintro ⟨w, hw, hmem⟩
      exact ⟨w, hw, .inl hmem⟩
    · rintro ⟨w, hw, hmem | ⟨rfl, rfl⟩⟩
      · exact ⟨w, hw, hmem⟩
      · refine (h.rows k).mp (by_contra fun hin => hw ?_)
        rw [heq, UMap.get_of_notMem hin]
        rfl
  zeroFree := h.zeroFree

lemma Literal.of_ops (hq : op.QuoteFree) (h0 : op.ZeroFree) {s : Bytes} (hs : s ∈ op.strings) : Literal s :=
  ⟨hq s hs, h0 s hs⟩

lemma SQLite.step_get (hsql : SqlSemantics sqlite3Exec) (h : Linked t db pre) (hkey : Literal key) :
    ∃ t', SQLite.step sqlite3Exec t (.get key) = some ((InMemoryDB.step db (.get key)).1, t') ∧
      Linked t' (InMemoryDB.step db (.get key)).2 (pre ++ [.get key]) := by
  refine ⟨t, ?_, h.get key⟩
  rw [SQLite.step, SQLite.get_eq hsql hkey, h.table key, InMemoryDB.step, InMemoryDB.get, h.memory key]

lemma SQLite.step_put (hsql : SqlSemantics sqlite3Exec) (h : Linked t db pre) (hkey : Literal key)
    (hvalue : Literal value) (hrev : ¬ DbOp.Revives pre (.put key value)) :
    ∃ t', SQLite.step sqlite3Exec t (.put key value) = some ((InMemoryDB.step db (.put key value)).1, t') ∧
      Linked t' (InMemoryDB.step db (.put key value)).2 (pre ++ [.put key value]) := by
  have hold : (InMemoryDB.put db key value).1 = UMap.get t key := (h.memory key).trans (h.table key).symm
  rw [SQLite.step, InMemoryDB.step, hold]
  by_cases heq : value = UMap.get t key
  · refine ⟨t, ?_, h.same heq⟩
    rw [SQLite.put, SQLite.get_eq hsql hkey, Option.bind_some, if_pos heq]
  · rw [SQLite.put_eq hsql hkey heq]
    by_cases hlen : (UMap.get t key).length ≠ 0
    · have hin : key ∈ t := by
        by_contra hin
        rw [UMap.get_of_notMem hin] at hlen
        exact hlen rfl
      have hexec := hsql.statement t (.update value key) ⟨hvalue, hkey⟩
      refine ⟨t.insert key value, ?_, h.write hvalue.2 (.inr hin)⟩
      simp only [if_pos hlen, Query.cStr_text (q := .update value key) ⟨hvalue, hkey⟩, hexec, Query.exec, if_pos hin,
        if_true]
    · have hempty : UMap.get t key = [] := List.length_eq_zero_iff.mp (not_not.mp hlen)
      have hne : value ≠ [] := fun hv => heq (hv.trans hempty.symm)
      have hout : key ∉ t := by
        intro hin
        exact hrev ⟨hne, (h.table key).symm.trans hempty, (h.rows key).mp hin⟩
      have hexec := hsql.statement t (.insert key value) ⟨hkey, hvalue⟩
      refine ⟨t.insert key value, ?_, h.write hvalue.2 (.inl hne)⟩
      simp only [if_neg hlen, Query.cStr_text (q := .insert key value) ⟨hkey, hvalue⟩, hexec, Query.exec, if_neg hout,
        if_true]

lemma SQLite.step_revives (hsql : SqlSemantics sqlite3Exec) (h : Linked t db pre) (hkey : Literal key)
    (hvalue : Literal value) (hrev : DbOp.Revives pre (.put key value)) :
    SQLite.step sqlite3Exec t (.put key value) = none := by
  obtain ⟨hne, hlast, hmem⟩ := hrev
  have hempty : UMap.get t key = [] := (h.table key).trans hlast
  have hin : key ∈ t := (h.rows key).mpr hmem
  have hlen : ¬ (UMap.get t key).length ≠ 0 := by
    rw [hempty]
    decide
  have hexec := hsql.statement t (.insert key value) ⟨hkey, hvalue⟩
  rw [SQLite.step, SQLite.put_eq hsql hkey (by rwa [hempty])]
  simp only [if_neg hlen, Query.cStr_text (q := .insert key value) ⟨hkey, hvalue⟩, hexec, Query.exec, if_pos hin]
  rfl

lemma SQLite.step_zero (hsql : SqlSemantics sqlite3Exec) (h : Linked t db pre) (hq : op.QuoteFree)
    (h0 : ¬ op.ZeroFree) : SQLite.step sqlite3Exec t op = none := by
  cases op with
  | get key =>
    have hzero : 0 ∈ key := by simpa [DbOp.ZeroFree, DbOp.strings] using h0
    exact SQLite.get_eq_none hsql (hq key (by simp [DbOp.strings])) hzero
  | put key value =>
    have hkey : quote ∉ key := hq key (by simp [DbOp.strings])
    by_cases hzero : 0 ∈ key
    · rw [SQLite.step, SQLite.put, SQLite.get_eq_none hsql hkey hzero]
      rfl
    · have hvalue : 0 ∈ value := by simpa [DbOp.ZeroFree, DbOp.strings, hzero] using h0
      refine SQLite.put_eq_none hsql ⟨hkey, hzero⟩ (hq value (by simp [DbOp.strings])) hvalue ?_
      intro heq
      exact h.zeroFree key (heq ▸ hvalue)

-- The operations that both back ends carry out alike after a history.
def DbOp.Common (pre : List DbOp) (op : DbOp) : Prop := op.ZeroFree ∧ ¬ Revives pre op

lemma SQLite.step_common (hsql : SqlSemantics sqlite3Exec) (h : Linked t db pre) (hq : op.QuoteFree)
    (hc : DbOp.Common pre op) :
    ∃ t', SQLite.step sqlite3Exec t op = some ((InMemoryDB.step db op).1, t') ∧
      Linked t' (InMemoryDB.step db op).2 (pre ++ [op]) := by
  cases op with
  | get key => exact SQLite.step_get hsql h (.of_ops hq hc.1 (by simp [DbOp.strings]))
  | put key value =>
    exact SQLite.step_put hsql h (.of_ops hq hc.1 (by simp [DbOp.strings])) (.of_ops hq hc.1 (by simp [DbOp.strings])) hc.2

lemma SQLite.step_eq_none (hsql : SqlSemantics sqlite3Exec) (h : Linked t db pre) (hq : op.QuoteFree)
    (hc : ¬ DbOp.Common pre op) : SQLite.step sqlite3Exec t op = none := by
  by_cases h0 : op.ZeroFree
  · have hrev : DbOp.Revives pre op := by_contra fun hrev => hc ⟨h0, hrev⟩
    cases op with
    | get key => exact hrev.elim
    | put key value =>
      exact SQLite.step_revives hsql h (.of_ops hq h0 (by simp [DbOp.strings])) (.of_ops hq h0 (by simp [DbOp.strings]))
        hrev
  · exact SQLite.step_zero hsql h hq h0

end Step

section Run

variable {sqlite3Exec : Table → Bytes → ExecResult} {t db : Table} {pre ops : List DbOp}

lemma SQLite.run_iff (hsql : SqlSemantics sqlite3Exec) (h : Linked t db pre) (hq : ∀ op ∈ ops, op.QuoteFree) :
    SQLite.run sqlite3Exec t ops = some (InMemoryDB.run db ops) ↔
      ∀ l op r, ops = l ++ op :: r → DbOp.Common (pre ++ l) op := by
  induction ops generalizing t db pre with
  | nil => simp [SQLite.run, InMemoryDB.run]
  | cons op ops ih =>
    have hop : op.QuoteFree := hq op List.mem_cons_self
    have hops : ∀ o ∈ ops, o.QuoteFree := fun o ho => hq o (List.mem_cons_of_mem _ ho)
    by_cases hc : DbOp.Common pre op
    · obtain ⟨t', hstep, hlinked⟩ := SQLite.step_common hsql h hop hc
      have htail : SQLite.run sqlite3Exec t (op :: ops) = some (InMemoryDB.run db (op :: ops)) ↔
          SQLite.run sqlite3Exec t' ops = some (InMemoryDB.run (InMemoryDB.step db op).2 ops) := by
        rw [SQLite.run, hstep, Option.bind_some, InMemoryDB.run, Option.map_eq_some_iff]
        simp
      rw [htail, ih hlinked hops]
      constructor
      · intro hall l o r heq
        cases l with
        | nil =>
          obtain ⟨rfl, -⟩ := List.cons.inj heq
          rwa [List.append_nil]
        | cons x l =>
          obtain ⟨rfl, htl⟩ := List.cons.inj heq
          rw [List.append_cons]
          exact hall l o r htl
      · intro hall l o r heq
        rw [← List.append_cons]
        exact hall (op :: l) o r (by rw [heq, List.cons_append])
    · have hnone : SQLite.run sqlite3Exec t (op :: ops) = none := by
        rw [SQLite.run, SQLite.step_eq_none hsql h hop hc]
        rfl
      rw [hnone]
      constructor
      · intro heq
        cases heq
      · intro hall
        have := hall [] op ops rfl
        rw [List.append_nil] at this
        exact absurd this hc

theorem backends_interchangeable (sqlite3Exec : Table → Bytes → ExecResult) (hsql : SqlSemantics sqlite3Exec)
    (ops : List DbOp) (hq : ∀ op ∈ ops, op.QuoteFree) :
    SQLite.run sqlite3Exec ∅ ops = some (InMemoryDB.run ∅ ops) ↔
      (∀ op ∈ ops, op.ZeroFree) ∧ ∀ l op r, ops = l ++ op :: r → ¬ DbOp.Revives l op := by
  rw [SQLite.run_iff hsql linked_nil hq]
  constructor
  · intro hall
    refine ⟨?_, fun l op r heq => (hall l op r heq).2⟩
    intro op hop
    obtain ⟨l, r, rfl⟩ := List.append_of_mem hop
    exact (hall l op r rfl).1
  · rintro ⟨hzero, hrev⟩ l op r rfl
    exact ⟨hzero op (by simp), hrev l op r rfl⟩

end Run

section Engine

-- A reading of the three statements from their text, cut at the quotes.
def parse (sql : Bytes) : Option Query :=
  match sql.splitOn quote with
  | [a, key, b] =>
    if a = ascii "SELECT KEY, VALUE FROM KV WHERE KEY = " ∧ b = ascii ";" then some (.select key) else none
  | [a, x, b, y, c] =>
    if a = ascii "UPDATE KV set VALUE = " ∧ b = ascii " where KEY = " ∧ c = ascii ";" then some (.update x y)
    else if a = ascii "INSERT INTO KV (KEY, VALUE) VALUES(" ∧ b = ascii ", " ∧ c = ascii ");" then some (.insert x y)
    else none
  | _ => none

def sqlExec (t : Table) (sql : Bytes) : ExecResult :=
  match parse sql with
  | some q => q.exec t
  | none => ⟨false, [], t⟩

def Query.pieces : Query → List Bytes
  | select key => [ascii "SELECT KEY, VALUE FROM KV WHERE KEY = ", key, ascii ";"]
  | update value key => [ascii "UPDATE KV set VALUE = ", value, ascii " where KEY = ", key, ascii ";"]
  | insert key value => [ascii "INSERT INTO KV (KEY, VALUE) VALUES(", key, ascii ", ", value, ascii ");"]

lemma Query.text_eq (q : Query) : q.text = [quote].intercalate q.pieces := by
  cases q <;> simp [text, pieces, List.intercalate, table, ascii, quote]

lemma Query.quote_notMem_pieces {q : Query} (h : q.Literals) : ∀ s ∈ q.pieces, quote ∉ s := by
  cases q with
  | select key =>
    have hkey : quote ∉ key := h.1
    simp only [pieces, List.forall_mem_cons, hkey]
    decide
  | update value key =>
    have hvalue : quote ∉ value := h.1.1
    have hkey : quote ∉ key := h.2.1
    simp only [pieces, List.forall_mem_cons, hkey, hvalue]
    decide
  | insert key value =>
    have hkey : quote ∉ key := h.1.1
    have hvalue : quote ∉ value := h.2.1
    simp only [pieces, List.forall_mem_cons, hkey, hvalue]
    decide

lemma parse_text {q : Query} (h : q.Literals) : parse q.text = some q := by
  have hne : q.pieces ≠ [] := by cases q <;> exact List.cons_ne_nil _ _
  rw [parse, q.text_eq, List.splitOn_intercalate _ (Query.quote_notMem_pieces h) hne]
  cases q with
  | select key => simp [Query.pieces]
  | update value key => simp [Query.pieces]
  | insert key value =>
    have hdiff : ascii "INSERT INTO KV (KEY, VALUE) VALUES(" ≠ ascii "UPDATE KV set VALUE = " := by decide
    simp [Query.pieces, hdiff]

lemma length_splitOn (x : UInt8) (s : Bytes) : (s.splitOn x).length = s.count x + 1 := by
  induction s with
  | nil => rfl
  | cons b s ih =>
    rw [List.splitOn_cons_eq_if_modifyHead, List.count_cons]
    split_ifs
    · rw [List.length_cons, ih]
    · rw [List.length_modifyHead, ih]

lemma sqlSemantics_sqlExec : SqlSemantics sqlExec where
  statement t q h := by rw [sqlExec, parse_text h]
  unterminated t q sql hcut := by
    obtain ⟨-, -, h⟩ := hcut
    have hlen := length_splitOn quote sql
    have hparse : parse sql = none := by
      rw [parse]
      split
      · rename_i hsplit
        rw [hsplit] at hlen
        obtain ⟨m, hm⟩ := h
        simp only [List.length_cons, List.length_nil] at hlen
        omega
      · rename_i hsplit
        rw [hsplit] at hlen
        obtain ⟨m, hm⟩ := h
        simp only [List.length_cons, List.length_nil] at hlen
        omega
      · rfl
    rw [sqlExec, hparse]

-- An account that is emptied, read and left empty.
theorem backends_interchangeable_emptied :
    let ops : List DbOp := [.put [107] [97], .put [107] [], .get [107], .put [107] []]
    SqlSemantics sqlExec ∧ (∀ op ∈ ops, op.QuoteFree) ∧ SQLite.run sqlExec ∅ ops = some (InMemoryDB.run ∅ ops) := by
  intro ops
  have hq : ∀ op ∈ ops, op.QuoteFree := by decide
  have hzero : ∀ op ∈ ops, op.ZeroFree := by decide
  refine ⟨sqlSemantics_sqlExec, hq, (backends_interchangeable sqlExec sqlSemantics_sqlExec ops hq).mpr ⟨hzero, ?_⟩⟩
  intro l op r heq hrev
  rcases l with _ | ⟨a, _ | ⟨b, _ | ⟨c, _ | ⟨d, l⟩⟩⟩⟩ <;> simp [ops] at heq
  · obtain ⟨rfl, -⟩ := heq
    obtain ⟨-, -, w, -, hw⟩ := hrev
    exact absurd hw List.not_mem_nil
  · obtain ⟨-, rfl, -⟩ := heq
    exact hrev.1 rfl
  · obtain ⟨-, -, rfl, -⟩ := heq
    exact hrev
  · obtain ⟨-, -, -, rfl, -⟩ := heq
    exact hrev.1 rfl

-- The third `Put` inserts a row that the table has.
theorem emptied_key_not_revived :
    let ops : List DbOp := [.put [107] [97], .put [107] [], .put [107] [98]]
    SqlSemantics sqlExec ∧ (∀ op ∈ ops, op.QuoteFree) ∧ SQLite.run sqlExec ∅ ops = none ∧
      InMemoryDB.run ∅ ops = [[], [97], []] := by
  refine ⟨sqlSemantics_sqlExec, by decide, by decide +kernel, by decide⟩

end Engine

end SpotLess
