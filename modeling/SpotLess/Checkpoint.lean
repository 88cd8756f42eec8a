import SpotLess.Config
import SpotLess.Lib.Reach

/-! Checkpoints and garbage collection at one replica: the two checkpoint threads, at the grain of single queue,
lock and table operations, beside the execute thread and whatever else touches transaction managers. -/

namespace SpotLess.Checkpoint

open Lib

-- What the checkpoint path reads of a `TxnManager`, as `init` and `release` leave it.
structure TxnManager where
  chkptCnt : ℕ := 1
  chkptFlag : Bool := false
  txnReady : Bool := true
  deriving DecidableEq

-- Where a checkpoint thread stands with the message of `id`. The two threads differ in `thd_id % 2`.
inductive Pc
  | idle
  | popped (id : ℕ)
  | held (id : ℕ)
  | admitted (id : ℕ)
  | acquired (id : ℕ)
  | counted (id : ℕ)
  | marked (id : ℕ)
  | lower (id start holding2 i : ℕ)
  | upper (id start holding2 i : ℕ)
  | settle (id start holding2 : ℕ)
  | stalled (id start : ℕ)
  | woken (id start : ℕ)
  | last (id start : ℕ)
  | finished (id : ℕ)
  | yielding
  deriving DecidableEq

structure Release where
  id : ℕ
  nextIndex : ℕ

structure Stable where
  id : ℕ
  announcers : Finset ℕ

-- The last four fields are the history of the run; `executed` is the batch whose `send_checkpoints` is due.
structure State where
  nextIndex : ℕ
  executed : Option ℕ
  queue : List ℕ
  managers : ℕ → Option TxnManager
  lastStableChkpt : ℕ
  lastDeletedTxnMan : ℕ
  chkptHolding : Bool → ℕ
  isChkptHolding : Bool → Bool
  isChkptStalled : Bool → Bool
  chkptSemaphore : Bool → ℕ
  pc : Bool → Pc
  announced : List (ℕ × ℕ)
  stable : List Stable
  ranges : List ℕ
  released : List Release

def init : State where
  nextIndex := 0
  executed := none
  queue := []
  managers _ := none
  lastStableChkpt := 0
  lastDeletedTxnMan := 0
  chkptHolding _ := 0
  isChkptHolding _ := false
  isChkptStalled _ := false
  chkptSemaphore _ := 0
  pc _ := .idle
  announced := []
  stable := []
  ranges := []
  released := []

variable (cfg : Config) (nodeId : ℕ)

def txnPerChkpt : ℕ := cfg.nodeCnt * cfg.batchSize * 32

def keptRange : ℕ := 16 * cfg.batchSize * cfg.nodeCnt

def delRange (id : ℕ) : ℕ := sub64 id (keptRange cfg)

namespace State

variable (s : State) (t : Bool) (id : ℕ)

def goto (pc : Pc) : State := { s with pc := Function.update s.pc t pc }

def announcers : Finset ℕ := ((s.announced.filter fun a => a.2 = id).map Prod.fst).toFinset

def enqueue (r : ℕ) : State := { s with queue := s.queue ++ [id], announced := s.announced ++ [(r, id)] }

def manager : TxnManager := (s.managers id).getD {}

def getTransactionManager : State := { s with managers := Function.update s.managers id (some (s.manager id)) }

-- A thread that outlives its manager writes to an object the table no longer knows.
def modify (f : TxnManager → TxnManager) : State :=
  { s with managers := Function.update s.managers id ((s.managers id).map f) }

def releaseTxnMan : State :=
  match s.managers id with
  | some _ => { s with
      managers := Function.update s.managers id none
      released := s.released ++ [⟨id, s.nextIndex⟩] }
  | none => s

-- `g_last_stable_chkpt` is a `uint32_t`.
def setCurrChkpt : State :=
  if s.lastStableChkpt < id then { s with
    lastStableChkpt := id % 2 ^ 32
    stable := s.stable ++ [⟨id, s.announcers id⟩] }
  else s

def incLastDeletedTxn (delRange : ℕ) : State :=
  { s with lastDeletedTxnMan := max s.lastDeletedTxnMan delRange }

def execute : State :=
  { s with nextIndex := s.nextIndex + cfg.batchSize, executed := some (s.nextIndex + cfg.batchSize - 1) }

def sendCheckpoints : State :=
  let s := { s with executed := none }
  if (id + 1) % txnPerChkpt cfg = 0 then (s.getTransactionManager id).enqueue (sub64 id 5) nodeId else s

-- `run`, `exception_msg_handling` and `process_pbft_chkpt_msg`, one shared operation at a time.
def threadStep : Option State :=
  match s.pc t with
  | .idle =>
    match s.queue with
    | id :: rest => some ({ s with queue := rest }.goto t (.popped id))
    | [] => none
  | .popped id => some ({ s with
      chkptHolding := Function.update s.chkptHolding t id
      isChkptHolding := Function.update s.isChkptHolding t true }.goto t (.held id))
  | .held id => some (s.goto t (if id ≤ s.lastStableChkpt then .idle else .admitted id))
  | .admitted id =>
    let s := s.getTransactionManager id
    if (s.manager id).txnReady then some ((s.modify id fun m => { m with txnReady := false }).goto t (.acquired id))
    else some ({ s with queue := s.queue ++ [id] }.goto t .idle)
  | .acquired id =>
    if (s.manager id).chkptFlag then some (s.goto t (.finished id))
    else
      let cnt := sub64 (s.manager id).chkptCnt 1
      if cnt = 0 then
        some ((s.modify id fun m => { m with chkptCnt := cnt, chkptFlag := true }).goto t (.counted id))
      else some ((s.modify id fun m => { m with chkptCnt := cnt }).goto t (.finished id))
  | .counted id => some ((s.setCurrChkpt id).goto t (.marked id))
  | .marked id =>
    let start := s.lastDeletedTxnMan
    let s := { s with ranges := s.ranges ++ [id] }.incLastDeletedTxn (delRange cfg id)
    some (s.goto t (.lower id start (s.chkptHolding !t) start))
  | .lower id start holding2 i =>
    if i < holding2 ∧ i < delRange cfg id then
      some ((s.releaseTxnMan i).goto t (.lower id start holding2 (i + 1)))
    else some (s.goto t (.upper id start holding2 (add64 holding2 1)))
  | .upper id start holding2 i =>
    if i < delRange cfg id then some ((s.releaseTxnMan i).goto t (.upper id start holding2 (i + 1)))
    else some (s.goto t (.settle id start holding2))
  | .settle id start holding2 =>
    if holding2 < delRange cfg id then
      if s.chkptHolding (!t) = start ∧ s.isChkptHolding (!t) then
        some ({ s with isChkptStalled := Function.update s.isChkptStalled t true }.goto t (.stalled id start))
      else some (s.goto t (.last id start))
    else some (s.goto t (.finished id))
  | .stalled id start =>
    if 0 < s.chkptSemaphore t then
      some ({ s with chkptSemaphore := Function.update s.chkptSemaphore t (s.chkptSemaphore t - 1) }.goto t
        (.woken id start))
    else none
  | .woken id start =>
    some ({ s with isChkptStalled := Function.update s.isChkptStalled t false }.goto t (.last id start))
  | .last id start => some ((s.releaseTxnMan start).goto t (.finished id))
  | .finished id => some ((s.modify id fun m => { m with txnReady := true }).goto t .yielding)
  | .yielding =>
    let s := { s with isChkptHolding := Function.update s.isChkptHolding t false }
    let sem := if s.isChkptStalled !t then s.chkptSemaphore (!t) + 1 else s.chkptSemaphore !t
    some ({ s with chkptSemaphore := Function.update s.chkptSemaphore (!t) sem }.goto t .idle)

section Managers

variable {s id} {k : ℕ}

lemma manager_modify (f : TxnManager → TxnManager) (hk : k ≠ id) : (s.modify id f).manager k = s.manager k := by
  simp [manager, modify, hk]

lemma manager_getTransactionManager : (s.getTransactionManager id).manager k = s.manager k := by
  by_cases hk : k = id
  · subst hk
    simp [manager, getTransactionManager]
  · simp [manager, getTransactionManager, hk]

lemma field_modify {α : Type} (g : TxnManager → α) {f : TxnManager → TxnManager} (hf : ∀ m, g (f m) = g m) :
    g ((s.modify id f).manager k) = g (s.manager k) := by
  by_cases hk : k = id
  · subst hk
    cases hm : s.managers k with
    | none => simp [manager, modify, hm]
    | some m => simp [manager, modify, hm, hf]
  · rw [manager_modify f hk]

lemma manager_releaseTxnMan : (s.releaseTxnMan id).manager k = if k = id then {} else s.manager k := by
  rw [releaseTxnMan]
  split <;> split_ifs with hk
  · simp [manager, hk]
  · simp [manager, hk]
  · rename_i hnone
    simp [manager, hk, hnone]
  · rfl

end Managers

end State

def Pc.acquires : Pc → Option ℕ
  | .idle | .popped _ | .held _ | .admitted _ | .yielding => none
  | .acquired id | .counted id | .marked id | .lower id _ _ _ | .upper id _ _ _ | .settle id _ _ | .stalled id _
  | .woken id _ | .last id _ | .finished id => some id

-- `borrow` and `giveBack` are the other threads' `unset_ready` and `set_ready`.
inductive Event
  | execute
  | sendCheckpoints
  | deliver (r id : ℕ)
  | borrow (id : ℕ)
  | giveBack (id : ℕ)
  | thread (t : Bool)

def step (s : State) : Event → Option State
  | .execute => if s.executed = none then some (s.execute cfg) else none
  | .sendCheckpoints => s.executed.map (s.sendCheckpoints cfg nodeId)
  | .deliver r id => if r ≠ nodeId ∧ id < 2 ^ 64 then some (s.enqueue id r) else none
  | .borrow id => some ((s.getTransactionManager id).modify id fun m => { m with txnReady := false })
  | .giveBack id =>
    if ∀ t, (s.pc t).acquires ≠ some id then some (s.modify id fun m => { m with txnReady := true }) else none
  | .thread t => s.threadStep cfg t

end SpotLess.Checkpoint
