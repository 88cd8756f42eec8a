import SpotLess.Emission
import SpotLess.FaultFree
import SpotLess.FaultVotes
import SpotLess.Timers

/-! The build with view timers. A replica whose timer runs out votes for leaving the view, a quorum of such votes moves
a replica on, and the execute thread is told to pass over the slot. When a timer runs out is left open. -/

namespace SpotLess

open Lib

-- The last three fields record the calls of `send_failed_new_view`, `sufficient_voters` and `advance_failed_view`.
structure TimedReplica (cfg : Config) where
  base : Replica
  faults : FaultManager cfg
  timeouts : List (ℕ × ℕ)
  counted : List (FaultManager.Call cfg)
  failures : List (ℕ × ℕ)

namespace TimedReplica

variable (cfg : Config) (crypto : Crypto)

def init (nodeId : ℕ) : TimedReplica cfg where
  base := .init cfg nodeId
  faults := .init cfg
  timeouts := []
  counted := []
  failures := []

-- The bounds are not set, and of an invalid message not read.
def failedExecute (i view : ℕ) : ExecuteMsg where
  txnId := (cfg.totInstances * view + i + 1) * cfg.batchSize - 2
  index := 0
  endIndex := 0
  valid := false

def failedSync (r : Replica) (i view : ℕ) : SyncMsg where
  txnId := 0
  returnNodeId := r.nodeId
  instanceId := i
  view := view
  hash := []
  highQC := { (r.inst i).preparedQC with signatureShareMap := ∅ }
  sigShare := none
  nonVote := true

def enterFailed (r : Replica) (i view : ℕ) : Replica :=
  let r₁ := { r with exec := r.exec.enqueue (failedExecute cfg i view) }.setView i (view + 1)
  if r.nodeId = cfg.getViewPrimary (view + 1) i then r₁.postPrimary else r₁

variable {cfg}

def advanceFailedView (R : TimedReplica cfg) (i view : ℕ) : Option (TimedReplica cfg) :=
  if cfg.InRange view then
    some { R with base := enterFailed cfg R.base i view, failures := R.failures ++ [(i, view)] }
  else none

def count (R : TimedReplica cfg) (c : FaultManager.Call cfg) : TimedReplica cfg :=
  { R with faults := (R.faults.sufficientVoters c).2, counted := R.counted ++ [c] }

def callOf (i : Fin cfg.totInstances) (view voter : ℕ) : FaultManager.Call cfg :=
  ⟨i, .ofNat view, .ofNat voter⟩

-- `none` is an instance or a view that no message can carry.
def countFailed (R : TimedReplica cfg) (i view voter : ℕ) : Option (TimedReplica cfg) :=
  if h : i < cfg.totInstances ∧ view < 2 ^ 64 then
    let c := callOf ⟨i, h.1⟩ view voter
    if (R.faults.sufficientVoters c).1 then (R.count c).advanceFailedView i view else some (R.count c)
  else none

def sendFailedNewView (R : TimedReplica cfg) (i view : ℕ) : Option (TimedReplica cfg) :=
  { R with
    base := R.base.send (R.base.others cfg) (.sync (failedSync R.base i view))
    timeouts := R.timeouts ++ [(i, view)] }.countFailed i view R.base.nodeId

def processFailedNewView (R : TimedReplica cfg) (m : SyncMsg) : Option (TimedReplica cfg) :=
  R.countFailed m.instanceId m.view m.returnNodeId

def lift (R : TimedReplica cfg) (r : Option Replica) : Option (TimedReplica cfg) := r.map fun r => { R with base := r }

-- The workers of a node chosen to fail discard their messages from this view on.
def Crashed (cfg : Config) (r : Replica) (i : ℕ) : Prop :=
  TimerConfig.failing r.nodeId = true ∧ cfg.crashView ≤ (r.inst i).view

instance (r : Replica) (i : ℕ) : Decidable (Crashed cfg r i) := inferInstanceAs (Decidable (_ ∧ _))

def deliver (R : TimedReplica cfg) (m : Msg) : Option (TimedReplica cfg) :=
  if Crashed cfg R.base m.instanceId then some R
  else
    match m with
    | .sync m =>
      if R.base.StaleSync m then some R
      else if m.nonVote then R.processFailedNewView m
      else R.lift (R.base.handleSync cfg crypto m)
    | m => R.lift (R.base.handle cfg crypto m)

def replay (R : TimedReplica cfg) (i : ℕ) : Option (TimedReplica cfg) :=
  if Crashed cfg R.base i then
    match (R.base.inst i).priorQueue with
    | [] => none
    | _ :: rest => some { R with base := R.base.setInst i { R.base.inst i with priorQueue := rest } }
  else R.lift (R.base.replay cfg crypto i)

def timeout (R : TimedReplica cfg) (i : ℕ) : Option (TimedReplica cfg) :=
  let view := (R.base.inst i).view
  if TimerConfig.failing R.base.nodeId = false ∧ cfg.crashView < view ∧
      TimerConfig.failing (cfg.getViewPrimary view i) = true then
    R.sendFailedNewView i view
  else none

-- Whether a failing node discards a work item of its generic thread depends on an instance that the item leaves unset.
def discard (R : TimedReplica cfg) (k : ℕ) : Option (TimedReplica cfg) :=
  if TimerConfig.failing R.base.nodeId then
    some { R with base := R.base.setRequeued (R.base.threads.requeued.eraseIdx k) }
  else none

inductive Event
  | base (e : Replica.Event)
  | timeout (i : ℕ)
  | discard (k : ℕ)

def step (R : TimedReplica cfg) : Event → Option (TimedReplica cfg)
  | .base (.deliver m) => R.deliver crypto m
  | .base (.replay i) => R.replay crypto i
  | .base e => R.lift (R.base.step cfg crypto e)
  | .timeout i => R.timeout i
  | .discard k => R.discard k

-- Of the environment only the allocator is trusted.
def Pooled (cfg : Config) (_ : TimedReplica cfg) : Event → Prop
  | .base (.recycle _ t) => t.Recycled ∧ t.instanceId < cfg.totInstances
  | _ => True

instance : (R : TimedReplica cfg) → (e : Event) → Decidable (Pooled cfg R e)
  | _, .base (.recycle _ t) => inferInstanceAs (Decidable (t.Recycled ∧ _))
  | _, .base (.deliver _) | _, .base (.replay _) | _, .base (.clientBatch _ _) | _, .base (.proposalThread _ _)
  | _, .base (.genericThread _ _) | _, .base (.workerGenericP _) | _, .base (.execute _) | _, .timeout _
  | _, .discard _ => inferInstanceAs (Decidable True)

end TimedReplica

end SpotLess
