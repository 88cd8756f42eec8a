import SpotLess.Manager
import SpotLess.Lib.Reach

namespace SpotLess

open Lib

structure ClientResponse where
  dest : ℕ
  txnId : ℕ
  view : ℕ
  index : List ℕ
  clientTs : List ℕ
  deriving DecidableEq

structure Executor where
  nextIndex : ℕ
  expectedExecuteCount : ℕ
  queue : List ExecuteMsg
  ran : List (ℕ × TxnManager)
  responses : List ClientResponse

namespace Executor

def init (cfg : Config) : Executor where
  nextIndex := 0
  expectedExecuteCount := cfg.batchSize - 2
  queue := []
  ran := []
  responses := []

-- The two loops of `process_hotstuff_execute` and its final transaction, as the identifiers they visit.
def executeIds (m : ExecuteMsg) : List ℕ :=
  let early := sub64 m.endIndex 4
  let i := max m.index early
  List.range' m.index (early - m.index) ++ List.range' i (m.endIndex - i) ++ [max i m.endIndex]

def respond (ids : List ℕ) (table : ℕ → TxnManager) : ClientResponse :=
  let last := ids.getLastD 0
  { dest := (table last).clientId
    txnId := last
    view := (table last).view
    index := ids
    clientTs := ids.map fun id => (table id).clientStartts }

def processExecute (cfg : Config) (table : ℕ → TxnManager) (e : Executor) (m : ExecuteMsg) : Executor :=
  if m.valid then
    { e with
      nextIndex := e.nextIndex + cfg.batchSize
      expectedExecuteCount := cfg.batchSize + m.txnId
      ran := e.ran ++ (executeIds m).map fun id => (id, table id)
      responses := e.responses ++ [respond (executeIds m) table] }
  else
    { e with
      nextIndex := e.nextIndex + cfg.batchSize
      expectedExecuteCount := cfg.batchSize + m.txnId }

def enqueue (e : Executor) (m : ExecuteMsg) : Executor := { e with queue := e.queue ++ [m] }

-- One turn of the run loop on a popped message; `none` where the counters would overflow.
def handle (cfg : Config) (table : ℕ → TxnManager) (e : Executor) (m : ExecuteMsg) : Option Executor :=
  if m.txnId ≤ e.nextIndex then some e
  else if m.txnId ≠ e.expectedExecuteCount then some (e.enqueue m)
  else if e.expectedExecuteCount + cfg.batchSize + 4 < 2 ^ 64 then some (e.processExecute cfg table m)
  else none

inductive Event
  | enqueue (m : ExecuteMsg)
  | pop (k : ℕ) (table : ℕ → TxnManager)

def step (cfg : Config) (e : Executor) : Event → Option Executor
  | .enqueue m => some (e.enqueue m)
  | .pop k table =>
    match e.queue[k]? with
    | some m => handle cfg table { e with queue := e.queue.eraseIdx k } m
    | none => none

end Executor

end SpotLess
