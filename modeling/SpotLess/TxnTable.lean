import SpotLess.Lib.DList
import SpotLess.Lib.Pool

/-! The table of transaction managers: lists of nodes linked through memory, whose nodes, managers and transactions are
recycled through pools. It behaves as a finite map from identifiers to managers. -/

namespace SpotLess

open Lib

structure TableConfig where
  poolSize : ℕ
  totalThreadCnt : ℕ
  poolSize_pos : 0 < poolSize
  totalThreadCnt_pos : 0 < totalThreadCnt

def TableConfig.twoLists : TableConfig := ⟨2, 1, Nat.two_pos, Nat.one_pos⟩

-- Memory field by field: a node points to its manager, a manager to its transaction, which holds the identifiers.
structure TxnTable where
  ends : ℕ → Ends
  cnt : ℕ → ℕ
  links : Links
  txnMan : ℕ → ℕ
  txn : ℕ → Option ℕ
  ids : ℕ → ℕ × ℕ
  txnTablePool : Pool
  txnManPool : Pool
  txnPool : Pool

-- The objects the allocator returns, should a pool be empty.
structure Fresh where
  node : ℕ
  man : ℕ
  txn : ℕ

-- Whether the pools have room for what is given back.
structure Kept where
  node : Bool
  man : Bool
  txn : Bool

namespace TxnTable

def init : TxnTable where
  ends _ := ⟨none, none⟩
  cnt _ := 0
  links := ⟨fun _ => none, fun _ => none⟩
  txnMan _ := 0
  txn _ := none
  ids _ := (0, 0)
  txnTablePool := .init
  txnManPool := .init
  txnPool := .init

variable (tc : TableConfig)

def key (s : TxnTable) (p : ℕ) : Option (ℕ × ℕ) := (s.txn (s.txnMan p)).map s.ids

def isMatchingTxnNode (s : TxnTable) (txnId batchId p : ℕ) : Bool := s.key p = some (txnId, batchId)

-- Both operations walk the list from its head; `none` is a list that goes on after `cnt` nodes.
def findNode (s : TxnTable) (txnId batchId : ℕ) : Option (Option ℕ) :=
  let i := txnId % tc.poolSize
  DList.search s.links (s.isMatchingTxnNode txnId batchId) (s.cnt i) (s.ends i).head

-- `TxnManPool::get`: a constructed manager has no transaction yet, and `init` gets one where there is none.
def getManager (s : TxnTable) (txnId : ℕ) (fresh : Fresh) : ℕ × ℕ × TxnTable :=
  let k := txnId % tc.totalThreadCnt
  let z := s.txnManPool.get k fresh.man
  let txn := if s.txnManPool.free k = [] then Function.update s.txn z.1 none else s.txn
  match txn z.1 with
  | some t => (z.1, t, { s with txnManPool := z.2, txn := txn })
  | none =>
    let y := s.txnPool.get k fresh.txn
    (z.1, y.1, { s with txnManPool := z.2, txnPool := y.2, txn := Function.update txn z.1 (some y.1) })

-- The rest of `get_transaction_manager` for a pair that is not in its list.
def insertNode (s : TxnTable) (txnId batchId : ℕ) (fresh : Fresh) : ℕ × TxnTable :=
  let i := txnId % tc.poolSize
  let x := s.txnTablePool.get (txnId % tc.totalThreadCnt) fresh.node
  let z := s.getManager tc txnId fresh
  let y := DList.putTail s.links (s.ends i) x.1
  (z.1, { z.2.2 with
    txnTablePool := x.2
    ids := Function.update s.ids z.2.1 (txnId, batchId)
    txnMan := Function.update s.txnMan x.1 z.1
    links := y.1
    ends := Function.update s.ends i y.2
    cnt := Function.update s.cnt i (s.cnt i + 1) })

def getTransactionManager (s : TxnTable) (txnId batchId : ℕ) (fresh : Fresh) : Option (ℕ × TxnTable) :=
  match s.findNode tc txnId batchId with
  | none => none
  | some (some p) => some (s.txnMan p, s)
  | some none => some (s.insertNode tc txnId batchId fresh)

def releaseTransactionManager (s : TxnTable) (txnId batchId : ℕ) (kept : Kept) : Option TxnTable :=
  let i := txnId % tc.poolSize
  let k := txnId % tc.totalThreadCnt
  match s.findNode tc txnId batchId with
  | none => none
  | some none => some s
  | some (some p) =>
    match DList.remove s.links (s.ends i) p, s.txn (s.txnMan p) with
    | some z, some t => some { s with
        links := z.1
        ends := Function.update s.ends i z.2
        cnt := Function.update s.cnt i (s.cnt i - 1)
        txn := Function.update s.txn (s.txnMan p) none
        txnPool := s.txnPool.put k t kept.txn
        txnManPool := s.txnManPool.put k (s.txnMan p) kept.man
        txnTablePool := s.txnTablePool.put k p kept.node }
    | _, _ => none

inductive Event
  | get (txnId batchId : ℕ) (fresh : Fresh)
  | release (txnId batchId : ℕ) (kept : Kept)

def step (s : TxnTable) : Event → Option TxnTable
  | .get txnId batchId fresh => (s.getTransactionManager tc txnId batchId fresh).map Prod.snd
  | .release txnId batchId kept => s.releaseTransactionManager tc txnId batchId kept

def Allocates (s : TxnTable) (fresh : Fresh) : Prop :=
  fresh.node ∉ s.txnTablePool.allocated ∧ fresh.man ∉ s.txnManPool.allocated ∧ fresh.txn ∉ s.txnPool.allocated

def Allowed (s : TxnTable) : Event → Prop
  | .get _ _ fresh => s.Allocates fresh
  | .release _ _ _ => True

instance : (s : TxnTable) → (e : Event) → Decidable (Allowed s e)
  | _, .get _ _ _ => inferInstanceAs (Decidable (_ ∧ _))
  | _, .release _ _ _ => inferInstanceAs (Decidable True)

-- The links spell out one list per index, in which every node is found under its own pair.
structure Lists (s : TxnTable) (ps : ℕ → List ℕ) : Prop where
  spells : ∀ i, DList.Spells s.links (s.ends i) (ps i)
  cnt : ∀ i, s.cnt i = (ps i).length
  located : ∀ i, ∀ p ∈ ps i, ∃ txnId batchId, s.key p = some (txnId, batchId) ∧ txnId % tc.poolSize = i
  single : ∀ i j p q, p ∈ ps i → q ∈ ps j → s.key p = s.key q → p = q

structure Rep (s : TxnTable) (ps : ℕ → List ℕ) : Prop where
  spells : ∀ i, DList.Spells s.links (s.ends i) (ps i)
  cnt : ∀ i, s.cnt i = (ps i).length
  nodes : s.txnTablePool.Owns fun p => ∃ i, p ∈ ps i
  managers : s.txnManPool.Owns fun m => ∃ i, ∃ p ∈ ps i, s.txnMan p = m
  txns : s.txnPool.Owns fun t => ∃ i, ∃ p ∈ ps i, s.txn (s.txnMan p) = some t
  ownMan : ∀ i j p q, p ∈ ps i → q ∈ ps j → s.txnMan p = s.txnMan q → p = q
  ownTxn : ∀ i j p q, p ∈ ps i → q ∈ ps j → s.txn (s.txnMan p) = s.txn (s.txnMan q) → p = q
  held : ∀ i, ∀ p ∈ ps i, ∃ t, s.txn (s.txnMan p) = some t
  filed : ∀ i, ∀ p ∈ ps i, ∀ id bid, s.key p = some (id, bid) → id % tc.poolSize = i
  ownKey : ∀ i j p q, p ∈ ps i → q ∈ ps j → s.key p = s.key q → p = q
  idle : ∀ k, ∀ m ∈ s.txnManPool.free k, s.txn m = none

variable {tc} {s t : TxnTable} {ps : ℕ → List ℕ}

lemma rep_init : Rep tc init fun _ => [] where
  spells _ := DList.spells_nil _
  cnt _ := rfl
  nodes := Pool.owns_init.congr (by simp)
  managers := Pool.owns_init.congr (by simp)
  txns := Pool.owns_init.congr (by simp)
  ownMan _ _ _ _ h := by cases h
  ownTxn _ _ _ _ h := by cases h
  held _ _ h := by cases h
  filed _ _ h := by cases h
  ownKey _ _ _ _ h := by cases h
  idle _ _ h := by cases h

lemma Rep.findNode (h : Rep tc s ps) (txnId batchId : ℕ) :
    s.findNode tc txnId batchId = some ((ps (txnId % tc.poolSize)).find? (s.isMatchingTxnNode txnId batchId)) :=
  (h.spells _).search (h.cnt _).ge

lemma Rep.findNode_some (h : Rep tc s ps) {txnId batchId p : ℕ} (hf : s.findNode tc txnId batchId = some (some p)) :
    p ∈ ps (txnId % tc.poolSize) ∧ s.key p = some (txnId, batchId) := by
  rw [h.findNode, Option.some.injEq] at hf
  exact ⟨List.mem_of_find?_eq_some hf, by simpa [isMatchingTxnNode] using List.find?_some hf⟩

lemma Rep.findNode_none (h : Rep tc s ps) {txnId batchId : ℕ} (hf : s.findNode tc txnId batchId = some none) (i p : ℕ)
    (hp : p ∈ ps i) : s.key p ≠ some (txnId, batchId) := by
  intro hkey
  obtain rfl := h.filed i p hp _ _ hkey
  rw [h.findNode, Option.some.injEq, List.find?_eq_none] at hf
  exact hf p hp (by simpa [isMatchingTxnNode] using hkey)

-- The map the table stands for.
def managerOf (tc : TableConfig) (s : TxnTable) (pair : ℕ × ℕ) : Option ℕ :=
  (s.findNode tc pair.1 pair.2).join.map s.txnMan

lemma Rep.managerOf_iff (h : Rep tc s ps) {pair : ℕ × ℕ} {m : ℕ} :
    managerOf tc s pair = some m ↔ ∃ i, ∃ p ∈ ps i, s.key p = some pair ∧ s.txnMan p = m := by
  obtain ⟨txnId, batchId⟩ := pair
  rw [managerOf]
  constructor
  · intro hm
    obtain ⟨p, hp, hman⟩ := Option.map_eq_some_iff.mp hm
    obtain ⟨hmem, hkey⟩ := h.findNode_some (Option.join_eq_some_iff.mp hp)
    exact ⟨_, p, hmem, hkey, hman⟩
  · rintro ⟨i, p, hp, hkey, rfl⟩
    cases hq : (ps (txnId % tc.poolSize)).find? (s.isMatchingTxnNode txnId batchId) with
    | none =>
      have hf : s.findNode tc txnId batchId = some none := by rw [h.findNode, hq]
      exact absurd hkey (h.findNode_none hf i p hp)
    | some q =>
      have hf : s.findNode tc txnId batchId = some (some q) := by rw [h.findNode, hq]
      obtain ⟨hmem, hkey'⟩ := h.findNode_some hf
      obtain rfl := h.ownKey _ _ p q hp hmem (hkey.trans hkey'.symm)
      rw [hf]
      rfl

lemma Rep.index_eq (h : Rep tc s ps) {i j p : ℕ} (hi : p ∈ ps i) (hj : p ∈ ps j) : i = j := by
  obtain ⟨t, ht⟩ := h.held i p hi
  have hkey : s.key p = some ((s.ids t).1, (s.ids t).2) := by rw [key, ht, Option.map_some]
  rw [← h.filed i p hi _ _ hkey, h.filed j p hj _ _ hkey]

section Get

variable {txnId batchId : ℕ} {fresh : Fresh}

lemma Rep.getManager_eq (h : Rep tc s ps) : s.getManager tc txnId fresh =
    let z := s.txnManPool.get (txnId % tc.totalThreadCnt) fresh.man
    let y := s.txnPool.get (txnId % tc.totalThreadCnt) fresh.txn
    (z.1, y.1, { s with txnManPool := z.2, txnPool := y.2, txn := Function.update s.txn z.1 (some y.1) }) := by
  rcases s.txnManPool.get_fst (txnId % tc.totalThreadCnt) fresh.man with hfree | ⟨hempty, -⟩
  · have hne : s.txnManPool.free (txnId % tc.totalThreadCnt) ≠ [] := List.ne_nil_of_mem hfree
    simp only [getManager, if_neg hne, h.idle _ _ hfree]
  · simp only [getManager, if_pos hempty, Function.update_self, Function.update_idem]

structure Inserted (tc : TableConfig) (s : TxnTable) (ps : ℕ → List ℕ) (txnId batchId n m t : ℕ) (s' : TxnTable) :
    Prop where
  node : ∀ i, n ∉ ps i
  man : ∀ i, ∀ p ∈ ps i, s.txnMan p ≠ m
  txn : ∀ i, ∀ p ∈ ps i, s.txn (s.txnMan p) ≠ some t
  txnMan : s'.txnMan = Function.update s.txnMan n m
  txns : s'.txn = Function.update s.txn m (some t)
  ids : s'.ids = Function.update s.ids t (txnId, batchId)

lemma Inserted.key_old {n m t : ℕ} {s' : TxnTable} (hi : Inserted tc s ps txnId batchId n m t s')
    {i p : ℕ} (hp : p ∈ ps i) : s'.txnMan p = s.txnMan p ∧ s'.txn (s.txnMan p) = s.txn (s.txnMan p) ∧ s'.key p = s.key p := by
  have hpn : p ≠ n := fun heq => hi.node i (heq ▸ hp)
  have hman : s'.txnMan p = s.txnMan p := by rw [hi.txnMan, Function.update_of_ne hpn]
  have htxn : s'.txn (s.txnMan p) = s.txn (s.txnMan p) := by rw [hi.txns, Function.update_of_ne (hi.man i p hp)]
  refine ⟨hman, htxn, ?_⟩
  rw [key, hman, htxn, key]
  cases hq : s.txn (s.txnMan p) with
  | none => rfl
  | some q =>
    have hqt : q ≠ t := fun heq => hi.txn i p hp (hq.trans (congrArg some heq))
    rw [Option.map_some, Option.map_some, hi.ids, Function.update_of_ne hqt]

lemma Inserted.key_new {n m t : ℕ} {s' : TxnTable} (hi : Inserted tc s ps txnId batchId n m t s') :
    s'.txnMan n = m ∧ s'.txn m = some t ∧ s'.key n = some (txnId, batchId) := by
  have hman : s'.txnMan n = m := by rw [hi.txnMan, Function.update_self]
  have htxn : s'.txn m = some t := by rw [hi.txns, Function.update_self]
  refine ⟨hman, htxn, ?_⟩
  rw [key, hman, htxn, Option.map_some, hi.ids, Function.update_self]

lemma Rep.inserted (h : Rep tc s ps) (txnId batchId : ℕ) (ha : s.Allocates fresh) :
    Inserted tc s ps txnId batchId (s.txnTablePool.get (txnId % tc.totalThreadCnt) fresh.node).1
      (s.txnManPool.get (txnId % tc.totalThreadCnt) fresh.man).1
      (s.txnPool.get (txnId % tc.totalThreadCnt) fresh.txn).1 (s.insertNode tc txnId batchId fresh).2 where
  node i hp := h.nodes.get_unused ha.1 ⟨i, hp⟩
  man i p hp heq := h.managers.get_unused ha.2.1 ⟨i, p, hp, heq⟩
  txn i p hp heq := h.txns.get_unused ha.2.2 ⟨i, p, hp, heq⟩
  txnMan := by simp only [insertNode, h.getManager_eq]
  txns := by simp only [insertNode, h.getManager_eq]
  ids := by simp only [insertNode, h.getManager_eq]

abbrev listed (ps : ℕ → List ℕ) (i n : ℕ) : ℕ → List ℕ := Function.update ps i (ps i ++ [n])

lemma mem_listed {i j n q : ℕ} : q ∈ listed ps i n j ↔ q ∈ ps j ∨ j = i ∧ q = n := by
  rw [listed, Function.update_apply]
  split_ifs with hj
  · subst hj
    simp
  · simp [hj]

lemma Rep.spells_listed (h : Rep tc s ps) {n : ℕ} (hn : ∀ i, n ∉ ps i) (i j : ℕ) :
    DList.Spells (DList.putTail s.links (s.ends i) n).1
      (Function.update s.ends i (DList.putTail s.links (s.ends i) n).2 j) (listed ps i n j) := by
  by_cases hj : j = i
  · subst hj
    rw [Function.update_self, listed, Function.update_self]
    exact (h.spells j).putTail (hn j)
  · rw [Function.update_of_ne hj, listed, Function.update_of_ne hj]
    have hframe : ∀ p ∈ ps j, (DList.putTail s.links (s.ends i) n).1.next p = s.links.next p ∧
        (DList.putTail s.links (s.ends i) n).1.prev p = s.links.prev p := by
      intro p hp
      refine DList.putTail_frame (fun heq => hn j (heq ▸ hp)) fun htail => hj (h.index_eq hp ?_)
      rw [(h.spells i).tail] at htail
      exact List.mem_of_getLast? htail
    exact (h.spells j).congr (fun p hp => (hframe p hp).1) fun p hp => (hframe p hp).2

lemma inj_listed {α : Type} {f f' : ℕ → α} {i n : ℕ} (hold : ∀ j, ∀ p ∈ ps j, f' p = f p)
    (hinj : ∀ j k p q, p ∈ ps j → q ∈ ps k → f p = f q → p = q) (hnew : ∀ j, ∀ p ∈ ps j, f p ≠ f' n) (j k p q : ℕ)
    (hp : p ∈ listed ps i n j) (hq : q ∈ listed ps i n k) (heq : f' p = f' q) : p = q := by
  rcases mem_listed.mp hp with hin | ⟨-, hpn⟩
  · rcases mem_listed.mp hq with hin' | ⟨-, hqn⟩
    · rw [hold j p hin, hold k q hin'] at heq
      exact hinj j k p q hin hin' heq
    · rw [hold j p hin, hqn] at heq
      exact absurd heq (hnew j p hin)
  · rcases mem_listed.mp hq with hin' | ⟨-, hqn⟩
    · rw [hold k q hin', hpn] at heq
      exact absurd heq.symm (hnew k q hin')
    · rw [hpn, hqn]

lemma used_listed {α : Type} {f f' : ℕ → α} {i n : ℕ} {a : α} (hold : ∀ j, ∀ p ∈ ps j, f' p = f p) :
    (∃ j, ∃ p ∈ listed ps i n j, f' p = a) ↔ (∃ j, ∃ p ∈ ps j, f p = a) ∨ f' n = a := by
  constructor
  · rintro ⟨j, p, hp, rfl⟩
    rcases mem_listed.mp hp with hin | ⟨-, rfl⟩
    · exact .inl ⟨j, p, hin, (hold j p hin).symm⟩
    · exact .inr rfl
  · rintro (⟨j, p, hp, rfl⟩ | hn)
    · exact ⟨j, p, mem_listed.mpr (.inl hp), hold j p hp⟩
    · exact ⟨i, n, mem_listed.mpr (.inr ⟨rfl, rfl⟩), hn⟩

lemma Rep.insertNode (h : Rep tc s ps) (ha : s.Allocates fresh) (hf : s.findNode tc txnId batchId = some none) :
    Rep tc (s.insertNode tc txnId batchId fresh).2 (listed ps (txnId % tc.poolSize)
      (s.txnTablePool.get (txnId % tc.totalThreadCnt) fresh.node).1) := by
  have hi := h.inserted txnId batchId ha
  obtain ⟨hman, htxn, hkey⟩ := hi.key_new
  have hmanold : ∀ j, ∀ p ∈ ps j, (s.insertNode tc txnId batchId fresh).2.txnMan p = s.txnMan p :=
    fun j p hp => (hi.key_old hp).1
  have htxnold : ∀ j, ∀ p ∈ ps j, (s.insertNode tc txnId batchId fresh).2.txn
      ((s.insertNode tc txnId batchId fresh).2.txnMan p) = s.txn (s.txnMan p) := by
    intro j p hp
    rw [hmanold j p hp, (hi.key_old hp).2.1]
  have hkeyold : ∀ j, ∀ p ∈ ps j, (s.insertNode tc txnId batchId fresh).2.key p = s.key p :=
    fun j p hp => (hi.key_old hp).2.2
  have htxnnew : (s.insertNode tc txnId batchId fresh).2.txn ((s.insertNode tc txnId batchId fresh).2.txnMan
      (s.txnTablePool.get (txnId % tc.totalThreadCnt) fresh.node).1) =
      some (s.txnPool.get (txnId % tc.totalThreadCnt) fresh.txn).1 := by rw [hman, htxn]
  constructor
  case spells =>
    intro j
    simp only [TxnTable.insertNode]
    exact h.spells_listed hi.node _ j
  case cnt =>
    intro j
    simp only [TxnTable.insertNode, listed, Function.update_apply]
    split_ifs with hj
    · rw [h.cnt, List.length_append, List.length_singleton]
    · exact h.cnt j
  case nodes =>
    refine (h.nodes.get (k := txnId % tc.totalThreadCnt) ha.1).congr fun q => ?_
    simp [mem_listed, exists_or]
  case managers =>
    have howns := h.managers.get (k := txnId % tc.totalThreadCnt) ha.2.1
    simp only [TxnTable.insertNode, h.getManager_eq] at hman hmanold ⊢
    refine howns.congr fun m => ?_
    rw [used_listed hmanold, hman, eq_comm (a := m)]
  case txns =>
    have howns := h.txns.get (k := txnId % tc.totalThreadCnt) ha.2.2
    simp only [TxnTable.insertNode, h.getManager_eq] at htxnold htxnnew ⊢
    refine howns.congr fun t => ?_
    rw [used_listed htxnold, htxnnew, Option.some.injEq, eq_comm (a := t)]
  case ownMan => exact inj_listed hmanold h.ownMan fun j p hp heq => hi.man j p hp (heq.trans hman)
  case ownTxn => exact inj_listed htxnold h.ownTxn fun j p hp heq => hi.txn j p hp (heq.trans htxnnew)
  case held =>
    intro j p hp
    rcases mem_listed.mp hp with hin | ⟨-, rfl⟩
    · rw [htxnold j p hin]
      exact h.held j p hin
    · exact ⟨_, htxnnew⟩
  case filed =>
    intro j p hp id bid heq
    rcases mem_listed.mp hp with hin | ⟨rfl, rfl⟩
    · rw [hkeyold j p hin] at heq
      exact h.filed j p hin id bid heq
    · rw [hkey, Option.some.injEq, Prod.mk.injEq] at heq
      rw [← heq.1]
  case ownKey =>
    exact inj_listed hkeyold h.ownKey fun j p hp heq => h.findNode_none hf j p hp (heq.trans hkey)
  case idle =>
    intro k m hm
    have hne : m ≠ (s.txnManPool.get (txnId % tc.totalThreadCnt) fresh.man).1 := by
      rintro rfl
      have howns := h.managers.get (k := txnId % tc.totalThreadCnt) ha.2.1
      simp only [TxnTable.insertNode, h.getManager_eq] at hm
      exact howns.separate k _ hm (.inr rfl)
    rw [hi.txns, Function.update_of_ne hne]
    simp only [TxnTable.insertNode, h.getManager_eq] at hm
    exact h.idle k m (Pool.mem_free_get hm)

end Get

section Release

variable {txnId batchId : ℕ}

def removed (tc : TableConfig) (s : TxnTable) (txnId t p : ℕ) (kept : Kept) (l r : List ℕ) : TxnTable :=
  let i := txnId % tc.poolSize
  let k := txnId % tc.totalThreadCnt
  { s with
    links := DList.relink s.links l r
    ends := Function.update s.ends i ⟨(l ++ r).head?, (l ++ r).getLast?⟩
    cnt := Function.update s.cnt i (s.cnt i - 1)
    txn := Function.update s.txn (s.txnMan p) none
    txnPool := s.txnPool.put k t kept.txn
    txnManPool := s.txnManPool.put k (s.txnMan p) kept.man
    txnTablePool := s.txnTablePool.put k p kept.node }

lemma Rep.release_eq (h : Rep tc s ps) {p : ℕ} (kept : Kept)
    (hf : s.findNode tc txnId batchId = some (some p)) : ∃ l r t, ps (txnId % tc.poolSize) = l ++ p :: r ∧
      s.txn (s.txnMan p) = some t ∧
      s.releaseTransactionManager tc txnId batchId kept = some (removed tc s txnId t p kept l r) := by
  obtain ⟨hmem, -⟩ := h.findNode_some hf
  obtain ⟨l, r, hps⟩ := List.append_of_mem hmem
  obtain ⟨t, ht⟩ := h.held _ p hmem
  have hspells := h.spells (txnId % tc.poolSize)
  rw [hps] at hspells
  refine ⟨l, r, t, hps, ht, ?_⟩
  simp only [releaseTransactionManager, hf, hspells.remove_eq, ht]
  rfl

abbrev unlisted (ps : ℕ → List ℕ) (i : ℕ) (l r : List ℕ) : ℕ → List ℕ := Function.update ps i (l ++ r)

lemma Rep.mem_unlisted (h : Rep tc s ps) {i j p q : ℕ} {l r : List ℕ} (hps : ps i = l ++ p :: r) :
    q ∈ unlisted ps i l r j ↔ q ∈ ps j ∧ q ≠ p := by
  have hnd := (h.spells i).nodup
  rw [hps, List.nodup_middle, List.nodup_cons] at hnd
  rw [unlisted, Function.update_apply]
  split_ifs with hj
  · subst hj
    rw [hps, ← List.perm_middle.symm.mem_iff (a := q), List.mem_cons]
    constructor
    · intro hq
      exact ⟨.inr hq, fun heq => hnd.1 (heq ▸ hq)⟩
    · rintro ⟨heq | hq, hne⟩
      · exact absurd heq hne
      · exact hq
  · refine ⟨fun hq => ⟨hq, ?_⟩, And.left⟩
    rintro rfl
    exact hj (h.index_eq hq (hps ▸ by simp))

lemma Rep.spells_unlisted (h : Rep tc s ps) {i p : ℕ} {l r : List ℕ} (hps : ps i = l ++ p :: r) (j : ℕ) :
    DList.Spells (DList.relink s.links l r) (Function.update s.ends i ⟨(l ++ r).head?, (l ++ r).getLast?⟩ j)
      (unlisted ps i l r j) := by
  have hspells := h.spells i
  rw [hps] at hspells
  by_cases hj : j = i
  · subst hj
    rw [Function.update_self, unlisted, Function.update_self]
    exact hspells.relink
  · rw [Function.update_of_ne hj, unlisted, Function.update_of_ne hj]
    have hframe : ∀ q ∈ ps j, q ∉ l ++ r := by
      intro q hq hin
      have hin' : q ∈ ps i := by
        rw [hps, List.perm_middle.mem_iff]
        exact List.mem_cons_of_mem p hin
      exact hj (h.index_eq hq hin')
    exact (h.spells j).congr (fun q hq => (DList.relink_frame (hframe q hq)).1) fun q hq =>
      (DList.relink_frame (hframe q hq)).2

lemma Rep.used_unlisted (h : Rep tc s ps) {α : Type} {f f' : ℕ → α} {i p : ℕ} {a : α} {l r : List ℕ}
    (hps : ps i = l ++ p :: r) (hold : ∀ j, ∀ q ∈ ps j, q ≠ p → f' q = f q)
    (hinj : ∀ j k q q', q ∈ ps j → q' ∈ ps k → f q = f q' → q = q') :
    (∃ j, ∃ q ∈ unlisted ps i l r j, f' q = a) ↔ (∃ j, ∃ q ∈ ps j, f q = a) ∧ a ≠ f p := by
  have hp : p ∈ ps i := by simp [hps]
  constructor
  · rintro ⟨j, q, hq, rfl⟩
    obtain ⟨hin, hne⟩ := (h.mem_unlisted hps).mp hq
    rw [hold j q hin hne]
    exact ⟨⟨j, q, hin, rfl⟩, fun heq => hne (hinj j i q p hin hp heq)⟩
  · rintro ⟨⟨j, q, hq, rfl⟩, hne⟩
    have hqp : q ≠ p := by
      rintro rfl
      exact hne rfl
    exact ⟨j, q, (h.mem_unlisted hps).mpr ⟨hq, hqp⟩, hold j q hq hqp⟩

lemma Rep.removed_old (h : Rep tc s ps) {p t : ℕ} {kept : Kept} {l r : List ℕ}
    (hps : ps (txnId % tc.poolSize) = l ++ p :: r) {j q : ℕ} (hq : q ∈ ps j) (hne : q ≠ p) :
    (removed tc s txnId t p kept l r).txn (s.txnMan q) = s.txn (s.txnMan q) ∧
      (removed tc s txnId t p kept l r).key q = s.key q := by
  have hman : s.txnMan q ≠ s.txnMan p := fun heq => hne (h.ownMan j _ q p hq (by rw [hps]; simp) heq)
  have htxn : (removed tc s txnId t p kept l r).txn (s.txnMan q) = s.txn (s.txnMan q) := by
    simp only [removed, Function.update_of_ne hman]
  refine ⟨htxn, ?_⟩
  change ((removed tc s txnId t p kept l r).txn (s.txnMan q)).map s.ids = s.key q
  rw [htxn, key]

lemma Rep.removed (h : Rep tc s ps) {p t : ℕ} {kept : Kept} {l r : List ℕ}
    (hps : ps (txnId % tc.poolSize) = l ++ p :: r) (ht : s.txn (s.txnMan p) = some t) :
    Rep tc (removed tc s txnId t p kept l r) (unlisted ps (txnId % tc.poolSize) l r) := by
  have hp : p ∈ ps (txnId % tc.poolSize) := by simp [hps]
  have htxnold : ∀ j, ∀ q ∈ ps j, q ≠ p → (TxnTable.removed tc s txnId t p kept l r).txn (s.txnMan q) =
      s.txn (s.txnMan q) := fun j q hq hne => (h.removed_old hps hq hne).1
  have hkeyold : ∀ j, ∀ q ∈ ps j, q ≠ p → (TxnTable.removed tc s txnId t p kept l r).key q = s.key q :=
    fun j q hq hne => (h.removed_old hps hq hne).2
  have hmem : ∀ {j q}, q ∈ unlisted ps (txnId % tc.poolSize) l r j → q ∈ ps j ∧ q ≠ p := (h.mem_unlisted hps).mp
  constructor
  case spells => exact h.spells_unlisted hps
  case cnt =>
    intro j
    simp only [TxnTable.removed, unlisted, Function.update_apply]
    split_ifs with hj
    · rw [h.cnt, hps, List.length_append, List.length_cons, List.length_append]
      omega
    · exact h.cnt j
  case nodes =>
    refine (h.nodes.put (k := txnId % tc.totalThreadCnt) ⟨_, hp⟩ kept.node).congr fun q => ?_
    simp [h.mem_unlisted hps]
  case managers =>
    refine (h.managers.put (k := txnId % tc.totalThreadCnt) ⟨_, p, hp, rfl⟩ kept.man).congr fun m => ?_
    exact h.used_unlisted hps (fun _ _ _ _ => rfl) h.ownMan
  case txns =>
    refine (h.txns.put (k := txnId % tc.totalThreadCnt) ⟨_, p, hp, ht⟩ kept.txn).congr fun t' => ?_
    have hused := h.used_unlisted (a := some t') hps htxnold h.ownTxn
    rw [ht, ne_eq, Option.some.injEq] at hused
    exact hused
  case ownMan => exact fun i j q q' hq hq' => h.ownMan i j q q' (hmem hq).1 (hmem hq').1
  case ownTxn =>
    intro i j q q' hq hq' heq
    obtain ⟨hin, hne⟩ := hmem hq
    obtain ⟨hin', hne'⟩ := hmem hq'
    refine h.ownTxn i j q q' hin hin' ?_
    rw [← htxnold i q hin hne, ← htxnold j q' hin' hne']
    exact heq
  case held =>
    intro j q hq
    obtain ⟨hin, hne⟩ := hmem hq
    obtain ⟨t', ht'⟩ := h.held j q hin
    exact ⟨t', (htxnold j q hin hne).trans ht'⟩
  case filed =>
    intro j q hq id bid heq
    obtain ⟨hin, hne⟩ := hmem hq
    exact h.filed j q hin id bid ((hkeyold j q hin hne).symm.trans heq)
  case ownKey =>
    intro i j q q' hq hq' heq
    obtain ⟨hin, hne⟩ := hmem hq
    obtain ⟨hin', hne'⟩ := hmem hq'
    refine h.ownKey i j q q' hin hin' ?_
    rw [← hkeyold i q hin hne, ← hkeyold j q' hin' hne', heq]
  case idle =>
    intro k m hm
    change Function.update s.txn (s.txnMan p) none m = none
    rw [Function.update_apply]
    split_ifs with hmp
    · rfl
    · rcases Pool.mem_free_put hm with hm | heq
      · exact h.idle k m hm
      · exact absurd heq hmp

end Release

section Refinement

variable {pair : ℕ × ℕ} {m : ℕ}

lemma Rep.managerOf_inj (h : Rep tc s ps) {pair' : ℕ × ℕ} (hm : managerOf tc s pair = some m)
    (hm' : managerOf tc s pair' = some m) : pair = pair' := by
  obtain ⟨i, p, hp, hkey, hman⟩ := h.managerOf_iff.mp hm
  obtain ⟨j, q, hq, hkey', hman'⟩ := h.managerOf_iff.mp hm'
  obtain rfl := h.ownMan i j p q hp hq (hman.trans hman'.symm)
  exact Option.some.inj (hkey.symm.trans hkey')

lemma Rep.finite_domain (h : Rep tc s ps) : {pair | (managerOf tc s pair).isSome}.Finite := by
  have hlists : (⋃ i ∈ {i | i < tc.poolSize}, {pair | pair ∈ (ps i).filterMap s.key}).Finite :=
    (Set.finite_lt_nat tc.poolSize).biUnion fun i _ => List.finite_toSet ((ps i).filterMap s.key)
  refine hlists.subset fun pair hpair => ?_
  obtain ⟨m, hm⟩ := Option.isSome_iff_exists.mp hpair
  obtain ⟨i, p, hp, hkey, -⟩ := h.managerOf_iff.mp hm
  simp only [Set.mem_iUnion, Set.mem_ofPred_eq, List.mem_filterMap]
  refine ⟨i, ?_, p, hp, hkey⟩
  rw [← h.filed i p hp pair.1 pair.2 hkey]
  exact Nat.mod_lt _ tc.poolSize_pos

lemma managerOf_eq_update {s' : TxnTable} {f : Option ℕ} (hself : managerOf tc s' pair = f)
    (hold : ∀ pair', pair' ≠ pair → ∀ m, managerOf tc s' pair' = some m ↔ managerOf tc s pair' = some m) :
    managerOf tc s' = Function.update (managerOf tc s) pair f := by
  funext pair'
  rw [Function.update_apply]
  split_ifs with heq
  · rw [heq, hself]
  · exact Option.ext (hold pair' heq)

lemma Rep.managerOf_none (h : Rep tc s ps) {txnId batchId : ℕ} :
    managerOf tc s (txnId, batchId) = none ↔ s.findNode tc txnId batchId = some none := by
  rw [managerOf, h.findNode]
  simp

lemma Rep.managerOf_insertNode (h : Rep tc s ps) {txnId batchId : ℕ} {fresh : Fresh} (ha : s.Allocates fresh)
    (hf : s.findNode tc txnId batchId = some none) :
    managerOf tc (s.insertNode tc txnId batchId fresh).2 =
      Function.update (managerOf tc s) (txnId, batchId) (some (s.insertNode tc txnId batchId fresh).1) := by
  have h' := h.insertNode ha hf
  have hi := h.inserted txnId batchId ha
  obtain ⟨hman, -, hkey⟩ := hi.key_new
  have hfst : (s.insertNode tc txnId batchId fresh).1 = (s.txnManPool.get (txnId % tc.totalThreadCnt) fresh.man).1 := by
    simp only [TxnTable.insertNode, h.getManager_eq]
  apply managerOf_eq_update
  · refine h'.managerOf_iff.mpr ⟨_, _, mem_listed.mpr (.inr ⟨rfl, rfl⟩), hkey, ?_⟩
    rw [hman, hfst]
  · intro pair' hne m
    rw [h'.managerOf_iff, h.managerOf_iff]
    constructor
    · rintro ⟨i, p, hp, hkey', hman'⟩
      rcases mem_listed.mp hp with hin | ⟨-, rfl⟩
      · obtain ⟨hold, -, hkold⟩ := hi.key_old hin
        exact ⟨i, p, hin, hkold ▸ hkey', hold ▸ hman'⟩
      · exact absurd (Option.some.inj (hkey'.symm.trans hkey)) hne
    · rintro ⟨i, p, hp, hkey', hman'⟩
      obtain ⟨hold, -, hkold⟩ := hi.key_old hp
      exact ⟨i, p, mem_listed.mpr (.inl hp), hkold.trans hkey', hold.trans hman'⟩

lemma Rep.managerOf_removed (h : Rep tc s ps) {txnId batchId p t : ℕ} {kept : Kept} {l r : List ℕ}
    (hps : ps (txnId % tc.poolSize) = l ++ p :: r) (ht : s.txn (s.txnMan p) = some t)
    (hkey : s.key p = some (txnId, batchId)) :
    managerOf tc (TxnTable.removed tc s txnId t p kept l r) = Function.update (managerOf tc s) (txnId, batchId) none := by
  have h' : Rep tc (TxnTable.removed tc s txnId t p kept l r) _ := h.removed hps ht
  have hp : p ∈ ps (txnId % tc.poolSize) := by simp [hps]
  apply managerOf_eq_update
  · rw [Option.eq_none_iff_forall_not_mem]
    intro m hm
    obtain ⟨i, q, hq, hkey', -⟩ := h'.managerOf_iff.mp hm
    obtain ⟨hin, hne⟩ := (h.mem_unlisted hps).mp hq
    rw [(h.removed_old hps hin hne).2] at hkey'
    exact hne (h.ownKey i _ q p hin hp (hkey'.trans hkey.symm))
  · intro pair' hpair m
    rw [h'.managerOf_iff, h.managerOf_iff]
    constructor
    · rintro ⟨i, q, hq, hkey', hman⟩
      obtain ⟨hin, hne⟩ := (h.mem_unlisted hps).mp hq
      exact ⟨i, q, hin, (h.removed_old hps hin hne).2.symm.trans hkey', hman⟩
    · rintro ⟨i, q, hq, hkey', hman⟩
      have hne : q ≠ p := by
        rintro rfl
        exact hpair (Option.some.inj (hkey'.symm.trans hkey))
      exact ⟨i, q, (h.mem_unlisted hps).mpr ⟨hq, hne⟩, (h.removed_old hps hq hne).2.trans hkey', hman⟩

lemma Rep.lists (h : Rep tc s ps) : Lists tc s ps where
  spells := h.spells
  cnt := h.cnt
  located i p hp := by
    obtain ⟨t, ht⟩ := h.held i p hp
    have hkey : s.key p = some ((s.ids t).1, (s.ids t).2) := by rw [key, ht, Option.map_some]
    exact ⟨_, _, hkey, h.filed i p hp _ _ hkey⟩
  single := h.ownKey

lemma Rep.get (h : Rep tc s ps) (pair : ℕ × ℕ) {fresh : Fresh} (ha : s.Allocates fresh) :
    ∃ m s' ps', s.getTransactionManager tc pair.1 pair.2 fresh = some (m, s') ∧ Rep tc s' ps' ∧
      managerOf tc s' = Function.update (managerOf tc s) pair (some m) ∧
      (managerOf tc s pair = some m ∧ s' = s ∨ managerOf tc s pair = none) := by
  obtain ⟨txnId, batchId⟩ := pair
  cases hq : (ps (txnId % tc.poolSize)).find? (s.isMatchingTxnNode txnId batchId) with
  | none =>
    have hf : s.findNode tc txnId batchId = some none := by rw [h.findNode, hq]
    refine ⟨_, _, _, ?_, h.insertNode ha hf, h.managerOf_insertNode ha hf, .inr (h.managerOf_none.mpr hf)⟩
    simp only [getTransactionManager, hf]
  | some p =>
    have hf : s.findNode tc txnId batchId = some (some p) := by rw [h.findNode, hq]
    have hm : managerOf tc s (txnId, batchId) = some (s.txnMan p) := by rw [managerOf, hf, Option.join_some, Option.map_some]
    refine ⟨s.txnMan p, s, ps, ?_, h, ?_, .inl ⟨hm, rfl⟩⟩
    · simp only [getTransactionManager, hf]
    · rw [← hm, Function.update_eq_self]

lemma Rep.release (h : Rep tc s ps) (pair : ℕ × ℕ) (kept : Kept) :
    ∃ s' ps', s.releaseTransactionManager tc pair.1 pair.2 kept = some s' ∧ Rep tc s' ps' ∧
      managerOf tc s' = Function.update (managerOf tc s) pair none ∧ (managerOf tc s pair = none → s' = s) := by
  obtain ⟨txnId, batchId⟩ := pair
  cases hq : (ps (txnId % tc.poolSize)).find? (s.isMatchingTxnNode txnId batchId) with
  | none =>
    have hf : s.findNode tc txnId batchId = some none := by rw [h.findNode, hq]
    refine ⟨s, ps, ?_, h, ?_, fun _ => rfl⟩
    · simp only [releaseTransactionManager, hf]
    · rw [← h.managerOf_none.mpr hf, Function.update_eq_self]
  | some p =>
    have hf : s.findNode tc txnId batchId = some (some p) := by rw [h.findNode, hq]
    obtain ⟨l, r, t, hps, ht, heq⟩ := h.release_eq kept hf
    refine ⟨_, _, heq, h.removed hps ht, h.managerOf_removed hps ht (h.findNode_some hf).2, fun hnone => ?_⟩
    rw [h.managerOf_none, hf] at hnone
    simp at hnone

lemma rep_step {e : Event} {s' : TxnTable} (h : ∃ ps, Rep tc s ps) (hok : Allowed s e) (hs : s.step tc e = some s') :
    ∃ ps, Rep tc s' ps := by
  obtain ⟨ps, h⟩ := h
  cases e with
  | get txnId batchId fresh =>
    obtain ⟨m, u, ps', heq, hrep, -⟩ := h.get (txnId, batchId) hok
    rw [step, heq] at hs
    obtain rfl := Option.some.inj hs
    exact ⟨ps', hrep⟩
  | release txnId batchId kept =>
    obtain ⟨u, ps', heq, hrep, -⟩ := h.release (txnId, batchId) kept
    rw [step, heq] at hs
    obtain rfl := Option.some.inj hs
    exact ⟨ps', hrep⟩

lemma rep_reach (h : Reach (step tc) Allowed init s) : ∃ ps, Rep tc s ps :=
  h.invariant (fun s => ∃ ps, Rep tc s ps) ⟨_, rep_init⟩ fun _ _ _ _ hok hs ih => rep_step ih hok hs

lemma managerOf_run {s' : TxnTable} {es : List Event} (h : ∃ ps, Rep tc s ps) (hm : managerOf tc s pair = some m)
    (hr : Run (step tc) Allowed s es s') (hes : ∀ kept, .release pair.1 pair.2 kept ∉ es) :
    (∃ ps, Rep tc s' ps) ∧ managerOf tc s' pair = some m := by
  induction hr with
  | start => exact ⟨h, hm⟩
  | next e _ hok hs ih =>
    obtain ⟨⟨ps, hrep⟩, hm⟩ := ih fun kept hin => hes kept (List.mem_append_left _ hin)
    refine ⟨rep_step ⟨ps, hrep⟩ hok hs, ?_⟩
    cases e with
    | get txnId batchId fresh =>
      obtain ⟨m', u, -, heq, -, hupd, hold⟩ := hrep.get (txnId, batchId) hok
      rw [step, heq] at hs
      obtain rfl := Option.some.inj hs
      rw [hupd, Function.update_apply]
      split_ifs with hpair
      · rcases hold with ⟨hold, -⟩ | hnone
        · rw [← hold, ← hpair, hm]
        · rw [← hpair, hm] at hnone
          cases hnone
      · exact hm
    | release txnId batchId kept =>
      obtain ⟨u, -, heq, -, hupd, -⟩ := hrep.release (txnId, batchId) kept
      rw [step, heq] at hs
      obtain rfl := Option.some.inj hs
      have hne : pair ≠ (txnId, batchId) := by
        rintro rfl
        exact hes kept (by simp)
      rw [hupd, Function.update_of_ne hne, hm]

theorem table_refines_map (h : Reach (step tc) Allowed init s) :
    (∃ ps, Lists tc s ps) ∧ {pair | (managerOf tc s pair).isSome}.Finite ∧
      (∀ pair fresh, s.Allocates fresh → ∃ m s', s.getTransactionManager tc pair.1 pair.2 fresh = some (m, s') ∧
        managerOf tc s' = Function.update (managerOf tc s) pair (some m) ∧
        (managerOf tc s pair = some m ∧ s' = s ∨ managerOf tc s pair = none) ∧
        ∀ es u, Run (step tc) Allowed s' es u → (∀ kept, .release pair.1 pair.2 kept ∉ es) →
          ∀ pair' fresh', u.Allocates fresh' → ∃ m' u',
            u.getTransactionManager tc pair'.1 pair'.2 fresh' = some (m', u') ∧ (m' = m ↔ pair' = pair)) ∧
      ∀ pair kept, ∃ s', s.releaseTransactionManager tc pair.1 pair.2 kept = some s' ∧
        managerOf tc s' = Function.update (managerOf tc s) pair none ∧ (managerOf tc s pair = none → s' = s) := by
  obtain ⟨ps, hrep⟩ := rep_reach h
  refine ⟨⟨ps, hrep.lists⟩, hrep.finite_domain, fun pair fresh ha => ?_, fun pair kept => ?_⟩
  · obtain ⟨m, s', ps', hget, hrep', hupd, hold⟩ := hrep.get pair ha
    refine ⟨m, s', hget, hupd, hold, fun es u hr hes pair' fresh' ha' => ?_⟩
    have hm : managerOf tc s' pair = some m := by rw [hupd, Function.update_self]
    obtain ⟨⟨qs, hu⟩, hm⟩ := managerOf_run ⟨ps', hrep'⟩ hm hr hes
    obtain ⟨m', u', qs', hget', hu', hupd', hold'⟩ := hu.get pair' ha'
    have hm' : managerOf tc u' pair' = some m' := by rw [hupd', Function.update_self]
    refine ⟨m', u', hget', ?_, ?_⟩
    · rintro rfl
      by_contra hne
      have hkeep : managerOf tc u' pair = some m' := by rw [hupd', Function.update_of_ne (Ne.symm hne), hm]
      exact hne (hu'.managerOf_inj hm' hkeep)
    · rintro rfl
      rcases hold' with ⟨hold', -⟩ | hnone
      · exact Option.some.inj (hold'.symm.trans hm)
      · rw [hm] at hnone
        cases hnone
  · obtain ⟨s', -, heq, -, hupd, hnoop⟩ := hrep.release pair kept
    exact ⟨s', heq, hupd, hnoop⟩

-- Three pairs in one list: the middle one goes and its manager serves a fourth, then the first one goes.
theorem table_refines_map_recycled :
    ∃ s s', Reach (step .twoLists) Allowed init s ∧
      managerOf .twoLists s (7, 0) = some 11 ∧
      s.releaseTransactionManager .twoLists 1 0 ⟨true, true, true⟩ = some s' ∧
      managerOf .twoLists s' (1, 0) = none ∧
      managerOf .twoLists s' (7, 0) = some 11 := by
  obtain ⟨s, hr, hs⟩ := exists_reach_of_runWith (step .twoLists) Allowed init
    [.get 1 0 ⟨0, 10, 20⟩, .get 3 0 ⟨1, 11, 21⟩, .get 5 0 ⟨2, 12, 22⟩, .release 3 0 ⟨true, true, true⟩,
      .get 7 0 ⟨3, 13, 23⟩]
    (fun s => managerOf .twoLists s (7, 0) = some 11) (by decide +kernel)
  have hm := of_decide_eq_true hs
  obtain ⟨-, -, -, hrel⟩ := table_refines_map hr
  obtain ⟨s', heq, hupd, -⟩ := hrel (1, 0) ⟨true, true, true⟩
  refine ⟨s, s', hr, hm, heq, ?_, ?_⟩
  · rw [hupd, Function.update_self]
  · rw [hupd, Function.update_of_ne (by decide), hm]

end Refinement

end TxnTable

end SpotLess
