import SpotLess.Wire

namespace SpotLess

open Wire

structure Watermarks (cfg : Config) where
  lastStableNewViewed : Fin cfg.totInstances → UInt32
  lastStableChkpt : UInt32

namespace Watermarks

variable (cfg : Config)

def init : Watermarks cfg := ⟨fun _ => 0, 0⟩

variable {cfg}

def setCurrNewViewed (w : Watermarks cfg) (txnId : UInt64) (i : Fin cfg.totInstances) : Watermarks cfg :=
  { w with lastStableNewViewed := Function.update w.lastStableNewViewed i txnId.toUInt32 }

def getCurrNewViewed (w : Watermarks cfg) (i : Fin cfg.totInstances) : UInt64 := (w.lastStableNewViewed i).toUInt64

def setCurrChkpt (w : Watermarks cfg) (txnId : UInt64) : Watermarks cfg :=
  if w.lastStableChkpt.toUInt64 < txnId then { w with lastStableChkpt := txnId.toUInt32 } else w

def getCurrChkpt (w : Watermarks cfg) : UInt64 := w.lastStableChkpt.toUInt64

variable (cfg) in
inductive Call
  | chkpt (txnId : UInt64)
  | newViewed (txnId : UInt64) (i : Fin cfg.totInstances)

def Call.txnId : Call cfg → UInt64
  | chkpt txnId => txnId
  | newViewed txnId _ => txnId

def step (w : Watermarks cfg) : Call cfg → Watermarks cfg
  | .chkpt txnId => w.setCurrChkpt txnId
  | .newViewed txnId i => w.setCurrNewViewed txnId i

def after (calls : List (Call cfg)) : Watermarks cfg := calls.foldl step (init cfg)

def largestChkpt (calls : List (Call cfg)) : ℕ :=
  calls.foldl (fun a c => match c with
    | .chkpt txnId => max a txnId.toNat
    | .newViewed _ _ => a) 0

def lastNewViewed (calls : List (Call cfg)) (i : Fin cfg.totInstances) : ℕ :=
  calls.foldl (fun a c => match c with
    | .chkpt _ => a
    | .newViewed txnId j => if j = i then txnId.toNat else a) 0

end Watermarks

-- What `exception_msg_handling` reads of a message.
structure LateMsg (cfg : Config) where
  rtype : RemReqType
  txnId : UInt64
  instanceId : Fin cfg.totInstances
  view : UInt64
  nonVote : Bool

inductive Handling
  | processed
  | released
  | kept
  deriving DecidableEq

variable {cfg : Config}

-- The watermarks are passed as numbers, so that it can be asked what other counters would do.
def exceptionMsgHandling (nextIndex : UInt64) (currentView : Fin cfg.totInstances → UInt64) (chkpt : ℕ)
    (newViewed : Fin cfg.totInstances → ℕ) (msg : LateMsg cfg) : Handling :=
  if msg.rtype = .KEYEX then .processed
  else if msg.rtype ≠ .CL_BATCH then
    if msg.rtype = .ASK_MSG then
      if (msg.txnId + 1 - UInt64.ofNat cfg.batchSize).toNat ≤ chkpt then .released else .kept
    else if msg.rtype ≠ .PBFT_CHKPT_MSG ∧ msg.rtype ≠ .SYNC_MSG then
      if msg.txnId ≤ nextIndex then .released else .kept
    else if msg.rtype = .SYNC_MSG then
      if msg.view < currentView msg.instanceId ∨
          msg.view = currentView msg.instanceId ∧ msg.txnId.toNat ≤ newViewed msg.instanceId ∧ msg.nonVote = false
      then .released else .kept
    else if msg.txnId.toNat ≤ chkpt then .released else .kept
  else .kept

namespace Watermarks

def handling (w : Watermarks cfg) (nextIndex : UInt64) (currentView : Fin cfg.totInstances → UInt64) (msg : LateMsg cfg) :
    Handling :=
  exceptionMsgHandling nextIndex currentView w.getCurrChkpt.toNat (fun i => (w.getCurrNewViewed i).toNat) msg

-- After `calls` both getters return what was set, and every message is handled as with unbounded counters.
structure Exact (calls : List (Call cfg)) : Prop where
  chkpt : (after calls).getCurrChkpt.toNat = largestChkpt calls
  newViewed (i : Fin cfg.totInstances) : ((after calls).getCurrNewViewed i).toNat = lastNewViewed calls i
  handling (nextIndex : UInt64) (currentView : Fin cfg.totInstances → UInt64) (msg : LateMsg cfg) :
    (after calls).handling nextIndex currentView msg =
      exceptionMsgHandling nextIndex currentView (largestChkpt calls) (lastNewViewed calls) msg

variable {calls : List (Call cfg)} {c : Call cfg}

lemma toNat_toUInt32_toUInt64 (x : UInt64) : x.toUInt32.toUInt64.toNat = x.toNat % 2 ^ 32 := by
  simp

lemma exact_nil : Exact ([] : List (Call cfg)) := ⟨rfl, fun _ => rfl, fun _ _ _ => rfl⟩

lemma exact_of_values (hchkpt : (after calls).getCurrChkpt.toNat = largestChkpt calls)
    (hview : ∀ i, ((after calls).getCurrNewViewed i).toNat = lastNewViewed calls i) : Exact calls where
  chkpt := hchkpt
  newViewed := hview
  handling nextIndex currentView msg := by
    rw [Watermarks.handling, hchkpt, funext hview]

lemma after_snoc : after (calls ++ [c]) = (after calls).step c := by
  simp [after]

lemma getCurrChkpt_step (h : (after calls).getCurrChkpt.toNat = largestChkpt calls) (hc : c.txnId.toNat < 2 ^ 32) :
    (after (calls ++ [c])).getCurrChkpt.toNat = largestChkpt (calls ++ [c]) := by
  rw [after_snoc]
  cases c with
  | newViewed txnId i => simpa [step, setCurrNewViewed, getCurrChkpt, largestChkpt] using h
  | chkpt txnId =>
    have hlarge : largestChkpt (calls ++ [.chkpt txnId]) = max (largestChkpt calls) txnId.toNat := by
      simp [largestChkpt]
    have hmod : txnId.toNat % 2 ^ 32 = txnId.toNat := Nat.mod_eq_of_lt hc
    rw [hlarge, ← h, step, setCurrChkpt]
    split_ifs with hlt
    · have hlt : (after calls).getCurrChkpt.toNat < txnId.toNat := UInt64.lt_iff_toNat_lt.mp hlt
      rw [max_eq_right hlt.le]
      exact (toNat_toUInt32_toUInt64 txnId).trans hmod
    · have hle : txnId.toNat ≤ (after calls).getCurrChkpt.toNat := not_lt.mp fun h => hlt (UInt64.lt_iff_toNat_lt.mpr h)
      exact (max_eq_left hle).symm

lemma getCurrNewViewed_step {i : Fin cfg.totInstances}
    (h : ((after calls).getCurrNewViewed i).toNat = lastNewViewed calls i) (hc : c.txnId.toNat < 2 ^ 32) :
    ((after (calls ++ [c])).getCurrNewViewed i).toNat = lastNewViewed (calls ++ [c]) i := by
  rw [after_snoc]
  cases c with
  | chkpt txnId =>
    rw [step, setCurrChkpt]
    split_ifs <;> simpa [getCurrNewViewed, lastNewViewed] using h
  | newViewed txnId j =>
    have hmod : txnId.toNat % 2 ^ 32 = txnId.toNat := Nat.mod_eq_of_lt hc
    by_cases hj : j = i
    · subst hj
      have hlast : lastNewViewed (calls ++ [.newViewed txnId j]) j = txnId.toNat := by simp [lastNewViewed]
      rw [hlast, ← hmod, ← toNat_toUInt32_toUInt64]
      simp only [step, setCurrNewViewed, getCurrNewViewed, Function.update_self]
    · have hij : i ≠ j := fun h => hj h.symm
      simpa [step, setCurrNewViewed, getCurrNewViewed, Function.update_of_ne hij, lastNewViewed, hj] using h

lemma exact_of_fits (h : ∀ c ∈ calls, c.txnId.toNat < 2 ^ 32) : Exact calls := by
  induction calls using List.reverseRecOn with
  | nil => exact exact_nil
  | append_singleton calls c ih =>
    have hcalls : Exact calls := ih fun d hd => h d (List.mem_append_left _ hd)
    have hc : c.txnId.toNat < 2 ^ 32 := h c (by simp)
    exact exact_of_values (getCurrChkpt_step hcalls.chkpt hc) fun i => getCurrNewViewed_step (hcalls.newViewed i) hc

lemma Exact.fits (h : Exact (calls ++ [c])) : c.txnId.toNat < 2 ^ 32 := by
  cases c with
  | chkpt txnId =>
    have hle : txnId.toNat ≤ largestChkpt (calls ++ [.chkpt txnId]) := by simp [largestChkpt]
    have hlt := (after (calls ++ [.chkpt txnId])).lastStableChkpt.toNat_lt
    rw [← h.chkpt, getCurrChkpt, UInt32.toNat_toUInt64] at hle
    exact hle.trans_lt hlt
  | newViewed txnId i =>
    have heq : lastNewViewed (calls ++ [.newViewed txnId i]) i = txnId.toNat := by simp [lastNewViewed]
    have hlt := ((after (calls ++ [.newViewed txnId i])).lastStableNewViewed i).toNat_lt
    rw [Call.txnId, ← heq, ← h.newViewed i, getCurrNewViewed, UInt32.toNat_toUInt64]
    exact hlt

lemma largestChkpt_mono (calls rest : List (Call cfg)) : largestChkpt calls ≤ largestChkpt (calls ++ rest) := by
  induction rest using List.reverseRecOn with
  | nil => simp
  | append_singleton rest c ih =>
    refine ih.trans ?_
    rw [← List.append_assoc]
    cases c <;> simp [largestChkpt]

theorem watermarks_exact (cfg : Config) (calls : List (Call cfg)) :
    ((∀ pre, pre <+: calls → Exact pre) ∧
        ∀ pre mid, pre <+: mid → mid <+: calls → (after pre).getCurrChkpt ≤ (after mid).getCurrChkpt) ↔
      ∀ c ∈ calls, c.txnId.toNat < 2 ^ 32 := by
  constructor
  · rintro ⟨hexact, -⟩ c hc
    obtain ⟨pre, post, rfl⟩ := List.append_of_mem hc
    have hpre : pre ++ [c] <+: pre ++ c :: post := ⟨post, by simp⟩
    exact (hexact _ hpre).fits
  · intro hfits
    have hexact : ∀ pre, pre <+: calls → Exact pre := by
      intro pre hpre
      exact exact_of_fits fun c hc => hfits c (hpre.subset hc)
    refine ⟨hexact, ?_⟩
    intro pre mid hpre hmid
    rw [UInt64.le_iff_toNat_le, (hexact pre (hpre.trans hmid)).chkpt, (hexact mid hmid).chkpt]
    obtain ⟨rest, rfl⟩ := hpre
    exact largestChkpt_mono pre rest

-- Two successive checkpoints on the two sides of `2 ^ 32`: the watermark falls, and an announcement of the first
-- one is no longer late.
theorem watermark_regresses :
    let calls : List (Call .deployed) := [.chkpt 4294963194, .chkpt 4294975994]
    (after calls).getCurrChkpt < (after (calls.take 1)).getCurrChkpt ∧
      (after calls).handling 0 (fun _ => 0) ⟨.PBFT_CHKPT_MSG, 4294963194, ⟨0, by decide⟩, 0, false⟩ = .kept ∧
      exceptionMsgHandling 0 (fun _ => 0) (largestChkpt calls) (lastNewViewed calls)
        ⟨.PBFT_CHKPT_MSG, 4294963194, ⟨0, by decide⟩, 0, false⟩ = .released := by
  decide

end Watermarks

end SpotLess
