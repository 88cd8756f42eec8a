import SpotLess.Wire
import SpotLess.Lib.Reach
import SpotLess.Lib.Spread

/-! The queues of the worker threads: messages wait in `prior_queue` or `work_queue` for the worker of their instance,
or in `temp_queue` for a later view, and a semaphore per worker counts what there is to take. -/

namespace SpotLess

open Lib Wire

-- The workers are the first of the threads.
structure WorkConfig where
  multiThreads : ℕ
  threadCnt : ℕ
  totInstances : ℕ
  multiThreads_pos : 0 < multiThreads
  multiThreads_le : multiThreads ≤ threadCnt

-- `id` is the identity of the object.
structure WorkMsg where
  id : ℕ
  rtype : RemReqType
  instanceId : ℕ
  view : ℕ
  deriving DecidableEq

def WorkMsg.prioritised (m : WorkMsg) : Bool := m.rtype = .GENERIC_MSG ∨ m.rtype = .PROPOSAL_MSG

def WorkMsg.instanceBound (m : WorkMsg) : Bool :=
  m.rtype ≠ .CL_BATCH ∧ m.rtype ≠ .EXECUTE_MSG ∧ m.rtype ≠ .PBFT_CHKPT_MSG

-- The types whose manager `WorkerThread::run` acquires before it processes them.
def WorkMsg.acquires (m : WorkMsg) : Bool :=
  m.rtype ≠ .PROPOSAL_MSG ∧ m.rtype ≠ .CL_BATCH ∧ m.rtype ≠ .EXECUTE_MSG ∧ m.rtype ≠ .ASK_RESPONSE_MSG

-- What a thread goes on with after a push: `moving` is the loop of `reenqueue`.
inductive Rest
  | idle
  | handling (m : WorkMsg)
  | moving (m : WorkMsg) (i : ℕ)
  deriving DecidableEq

def Rest.held : Rest → List WorkMsg
  | idle => []
  | handling m => [m]
  | moving m _ => [m]

inductive WorkPc
  | rest (r : Rest)
  | token
  | second
  | giveBack
  | holding (m : WorkMsg)
  | parking (m : WorkMsg)
  | put (m : WorkMsg) (q : ℕ) (r : Rest)
  | count (m : WorkMsg) (q : ℕ) (r : Rest)
  | post (m : WorkMsg) (q : ℕ) (r : Rest)
  deriving DecidableEq

namespace WorkPc

def held : WorkPc → List WorkMsg
  | rest r => r.held
  | holding m => [m]
  | parking m => [m]
  | put m _ r => m :: r.held
  | count _ _ r => r.held
  | post _ _ r => r.held
  | _ => []

def hasToken : WorkPc → Bool
  | token => true
  | second => true
  | giveBack => true
  | _ => false

-- The entry that has been pushed without being counted, or without its post.
def counts : WorkPc → Option (WorkMsg × ℕ)
  | count m q _ => some (m, q)
  | _ => none

def posts : WorkPc → Option (WorkMsg × ℕ)
  | count m q _ => some (m, q)
  | post m q _ => some (m, q)
  | _ => none

end WorkPc

-- `entered` and `handled` are the history.
structure WorkQueue where
  priorQueue : ℕ → List WorkMsg
  workQueue : ℕ → List WorkMsg
  tempQueue : ℕ → List WorkMsg
  priorCnt : ℕ → ℕ
  semaphore : ℕ → ℕ
  currentView : ℕ → ℕ
  pc : ℕ → WorkPc
  entered : List WorkMsg
  handled : List WorkMsg

namespace WorkQueue

def init : WorkQueue where
  priorQueue _ := []
  workQueue _ := []
  tempQueue _ := []
  priorCnt _ := 0
  semaphore _ := 0
  currentView _ := 0
  pc _ := .rest .idle
  entered := []
  handled := []

variable (wc : WorkConfig)

section Step

def goto (s : WorkQueue) (t : ℕ) (p : WorkPc) : WorkQueue := { s with pc := Function.update s.pc t p }

def semWait (s : WorkQueue) (t : ℕ) : Option WorkQueue :=
  if t < wc.multiThreads ∧ 0 < s.semaphore t then
    some { s.goto t .token with semaphore := Function.update s.semaphore t (s.semaphore t - 1) }
  else none

def semPost (s : WorkQueue) (t q : ℕ) (r : Rest) : WorkQueue :=
  { s.goto t (.rest r) with semaphore := Function.update s.semaphore q (s.semaphore q + 1) }

-- The section of `dequeue` under `tb_lock`.
def popPrior (s : WorkQueue) (t : ℕ) : WorkQueue :=
  if s.priorCnt t ≠ 0 then
    match s.priorQueue t with
    | m :: rest => { s.goto t (.holding m) with
        priorQueue := Function.update s.priorQueue t rest
        priorCnt := Function.update s.priorCnt t (s.priorCnt t - 1) }
    | [] => s.goto t .second
  else s.goto t .second

def popWork (s : WorkQueue) (t : ℕ) : WorkQueue :=
  match s.workQueue t with
  | m :: rest => { s.goto t (.holding m) with workQueue := Function.update s.workQueue t rest }
  | [] => s.goto t .giveBack

def checkView (s : WorkQueue) (m : WorkMsg) : Bool := m.rtype = .GENERIC_MSG ∧ s.currentView m.instanceId < m.view

def park (s : WorkQueue) (t : ℕ) (m : WorkMsg) : WorkQueue :=
  { s.goto t (.rest .idle) with
    tempQueue := Function.update s.tempQueue m.instanceId (s.tempQueue m.instanceId ++ [m]) }

def push (s : WorkQueue) (t : ℕ) (m : WorkMsg) (q : ℕ) (r : Rest) : WorkQueue :=
  if m.prioritised then
    { s.goto t (.count m q r) with priorQueue := Function.update s.priorQueue q (s.priorQueue q ++ [m]) }
  else { s.goto t (.post m q r) with workQueue := Function.update s.workQueue q (s.workQueue q ++ [m]) }

def incPriorCnt (s : WorkQueue) (t : ℕ) (m : WorkMsg) (q : ℕ) (r : Rest) : WorkQueue :=
  { s.goto t (.post m q r) with priorCnt := Function.update s.priorCnt q (s.priorCnt q + 1) }

-- One round of the loop of `reenqueue`.
def reenqueue (s : WorkQueue) (t : ℕ) (m : WorkMsg) (i : ℕ) : WorkQueue :=
  match s.tempQueue i with
  | e :: rest => { s.goto t (.put e (i % wc.multiThreads) (.moving m i)) with
      tempQueue := Function.update s.tempQueue i rest }
  | [] => s.goto t (.rest (.handling m))

def act (s : WorkQueue) (t : ℕ) : Option WorkQueue :=
  match s.pc t with
  | .rest .idle => s.semWait wc t
  | .rest (.handling _) => none
  | .rest (.moving m i) => some (s.reenqueue wc t m i)
  | .token => some (s.popPrior t)
  | .second => some (s.popWork t)
  | .giveBack => some (s.semPost t t .idle)
  | .holding m => some (if s.checkView m then s.goto t (.parking m) else s.goto t (.rest (.handling m)))
  | .parking m => some (s.park t m)
  | .put m q r => some (s.push t m q r)
  | .count m q r => some (s.incPriorCnt t m q r)
  | .post _ q r => some (s.semPost t q r)

inductive Event
  | act (t : ℕ)
  | enqueue (t : ℕ) (m : WorkMsg)
  | done (t : ℕ)
  | busy (t : ℕ)
  | setView (t i v : ℕ)

def enqueue (s : WorkQueue) (t : ℕ) (m : WorkMsg) (r : Rest) : WorkQueue :=
  { s.goto t (.put m (m.instanceId % wc.multiThreads) r) with entered := s.entered ++ [m] }

def choose (s : WorkQueue) : Event → Option WorkQueue
  | .act t => s.act wc t
  | .enqueue t m =>
    match s.pc t with
    | .rest .idle => if wc.multiThreads ≤ t then some (s.enqueue wc t m .idle) else none
    | .rest (.handling m') => some (s.enqueue wc t m (.handling m'))
    | _ => none
  | .done t =>
    match s.pc t with
    | .rest (.handling m) => some { s.goto t (.rest .idle) with handled := s.handled ++ [m] }
    | _ => none
  | .busy t =>
    match s.pc t with
    | .rest (.handling m) =>
      if m.acquires then some (s.goto t (.put m (m.instanceId % wc.multiThreads) .idle)) else none
    | _ => none
  | .setView t i v =>
    match s.pc t with
    | .rest (.handling m) =>
      some { s.goto t (.rest (if i < wc.totInstances then .moving m i else .handling m)) with
        currentView := Function.update s.currentView i v }
    | _ => none

def Event.thread : Event → ℕ
  | act t => t
  | enqueue t _ => t
  | done t => t
  | busy t => t
  | setView t _ _ => t

def step (s : WorkQueue) (e : Event) : Option WorkQueue := if e.thread < wc.threadCnt then s.choose wc e else none

-- A message that is enqueued is a new object.
def Allowed (s : WorkQueue) : Event → Prop
  | .enqueue _ m => m.instanceBound = true ∧ m ∉ s.entered
  | _ => True

instance : (s : WorkQueue) → (e : Event) → Decidable (s.Allowed e)
  | _, .enqueue _ _ => inferInstanceAs (Decidable (_ ∧ _))
  | _, .act _ => inferInstanceAs (Decidable True)
  | _, .done _ => inferInstanceAs (Decidable True)
  | _, .busy _ => inferInstanceAs (Decidable True)
  | _, .setView _ _ _ => inferInstanceAs (Decidable True)

end Step

section Places

inductive Place
  | prior (q : ℕ)
  | work (q : ℕ)
  | temp (i : ℕ)
  | hands (t : ℕ)
  | handled
  deriving DecidableEq

def contents (s : WorkQueue) : Place → List WorkMsg
  | .prior q => s.priorQueue q
  | .work q => s.workQueue q
  | .temp i => s.tempQueue i
  | .hands t => (s.pc t).held
  | .handled => s.handled

def tokens (s : WorkQueue) (q : ℕ) : ℕ := if (s.pc q).hasToken then 1 else 0

def entries (s : WorkQueue) (q : ℕ) : List WorkMsg := s.priorQueue q ++ s.workQueue q

def counting (s : WorkQueue) (q : ℕ) : Finset ℕ :=
  (Finset.range wc.threadCnt).filter fun t => (s.pc t).counts.map Prod.snd = some q

def posting (s : WorkQueue) (q : ℕ) : Finset ℕ :=
  (Finset.range wc.threadCnt).filter fun t => (s.pc t).posts.map Prod.snd = some q

def completed (s : WorkQueue) (q : ℕ) : List WorkMsg :=
  (s.entries q).filter fun m => (List.range wc.threadCnt).all fun t => (s.pc t).posts.map Prod.fst ≠ some m

end Places

section Invariant

structure Inv (s : WorkQueue) : Prop where
  spread : Spread s.contents (· ∈ s.entered)
  workers : ∀ t, (s.pc t).hasToken = true → t < wc.multiThreads
  counted : ∀ q, (s.priorQueue q).length = s.priorCnt q + (s.counting wc q).card
  balance : ∀ q, s.semaphore q + s.tokens q + (s.posting wc q).card = (s.entries q).length

variable {wc} {s s' : WorkQueue} {t : ℕ} {p : WorkPc}

lemma inv_init : Inv wc init where
  spread := by
    have hnil : init.contents = fun _ => [] := by
      funext a
      cases a <;> rfl
    rw [hnil]
    exact spread_nil fun m => List.not_mem_nil
  workers _ h := by cases h
  counted _ := by simp [init, counting, WorkPc.counts]
  balance _ := by simp [init, tokens, entries, posting, WorkPc.posts, WorkPc.hasToken]

@[simp] lemma goto_priorQueue : (s.goto t p).priorQueue = s.priorQueue := rfl
@[simp] lemma goto_workQueue : (s.goto t p).workQueue = s.workQueue := rfl
@[simp] lemma goto_tempQueue : (s.goto t p).tempQueue = s.tempQueue := rfl
@[simp] lemma goto_priorCnt : (s.goto t p).priorCnt = s.priorCnt := rfl
@[simp] lemma goto_semaphore : (s.goto t p).semaphore = s.semaphore := rfl
@[simp] lemma goto_entered : (s.goto t p).entered = s.entered := rfl
@[simp] lemma goto_handled : (s.goto t p).handled = s.handled := rfl

structure Shift (s s' : WorkQueue) (t : ℕ) (p : WorkPc) : Prop where
  pc : s'.pc = Function.update s.pc t p
  counted : ∀ q, (s'.priorQueue q).length + s.priorCnt q + (if (s.pc t).counts.map Prod.snd = some q then 1 else 0) =
    (s.priorQueue q).length + s'.priorCnt q + if p.counts.map Prod.snd = some q then 1 else 0
  balance : ∀ q, s'.semaphore q + (if q = t ∧ p.hasToken = true then 1 else 0) +
      (if p.posts.map Prod.snd = some q then 1 else 0) + (s.entries q).length =
    s.semaphore q + (if q = t ∧ (s.pc t).hasToken = true then 1 else 0) +
      (if (s.pc t).posts.map Prod.snd = some q then 1 else 0) + (s'.entries q).length

lemma Inv.shift (h : s.Inv wc) (ht : t < wc.threadCnt) (hshift : Shift s s' t p)
    (hspread : Spread s'.contents (· ∈ s'.entered)) (hworker : p.hasToken = true → t < wc.multiThreads) :
    s'.Inv wc := by
  have hpc : ∀ x, x ≠ t → s'.pc x = s.pc x := by
    intro x hx
    rw [hshift.pc, Function.update_of_ne hx]
  have hpt : s'.pc t = p := by rw [hshift.pc, Function.update_self]
  refine ⟨hspread, fun x hx => ?_, fun q => ?_, fun q => ?_⟩
  · by_cases hxt : x = t
    · subst hxt
      rw [hpt] at hx
      exact hworker hx
    · rw [hpc x hxt] at hx
      exact h.workers x hx
  · have hchange := card_filter_change (p := fun t => (s.pc t).counts.map Prod.snd = some q)
      (q := fun t => (s'.pc t).counts.map Prod.snd = some q) (Finset.mem_range.mpr ht) fun x hx => by rw [hpc x hx]
    have hold := h.counted q
    have hnew := hshift.counted q
    rw [hpt] at hchange
    simp only [counting] at hold ⊢
    omega
  · have hchange := card_filter_change (p := fun t => (s.pc t).posts.map Prod.snd = some q)
      (q := fun t => (s'.pc t).posts.map Prod.snd = some q) (Finset.mem_range.mpr ht) fun x hx => by rw [hpc x hx]
    have hold := h.balance q
    have hnew := hshift.balance q
    rw [hpt] at hchange
    have htokens : s'.tokens q + (if q = t ∧ (s.pc t).hasToken = true then 1 else 0) =
        s.tokens q + if q = t ∧ p.hasToken = true then 1 else 0 := by
      by_cases hqt : q = t
      · subst hqt
        simp only [tokens, hpt, true_and]
        omega
      · simp only [tokens, hpc q hqt, hqt, false_and, if_false]
    simp only [posting] at hold ⊢
    omega

lemma Inv.spread_same (h : s.Inv wc) (hprior : s'.priorQueue = s.priorQueue) (hwork : s'.workQueue = s.workQueue)
    (htemp : s'.tempQueue = s.tempQueue) (hpc : s'.pc = Function.update s.pc t p) (hheld : p.held = (s.pc t).held)
    (hhandled : s'.handled = s.handled) (hentered : s'.entered = s.entered) :
    Spread s'.contents (· ∈ s'.entered) := by
  have hcontents : s'.contents = s.contents := by
    funext a
    cases a with
    | prior q => exact congrFun hprior q
    | work q => exact congrFun hwork q
    | temp i => exact congrFun htemp i
    | hands x =>
      simp only [contents, hpc, Function.update_apply]
      split_ifs with hx
      · rw [hx, hheld]
      · rfl
    | handled => exact hhandled
  rw [hcontents, hentered]
  exact h.spread

lemma Inv.goto (h : s.Inv wc) (ht : t < wc.threadCnt) (hheld : p.held = (s.pc t).held)
    (htoken : p.hasToken = (s.pc t).hasToken) (hcounts : p.counts = (s.pc t).counts)
    (hposts : p.posts = (s.pc t).posts) : (s.goto t p).Inv wc := by
  refine h.shift (p := p) ht ⟨rfl, fun q => ?_, fun q => ?_⟩ ?_ fun hp => h.workers t (htoken ▸ hp)
  · simp only [goto_priorQueue, goto_priorCnt, hcounts]
  · simp only [entries, goto_priorQueue, goto_workQueue, goto_semaphore, htoken, hposts]
  · exact h.spread_same rfl rfl rfl rfl hheld rfl rfl

lemma Inv.semWait (h : s.Inv wc) (ht : t < wc.threadCnt) (hpc : s.pc t = .rest .idle) (hs : s.semWait wc t = some s') :
    s'.Inv wc := by
  rw [WorkQueue.semWait] at hs
  split_ifs at hs with hwait
  obtain rfl := Option.some.inj hs
  refine h.shift (p := .token) ht ⟨rfl, fun q => ?_, fun q => ?_⟩ ?_ fun _ => hwait.1
  · simp [hpc, WorkPc.counts]
  · simp only [entries, goto_priorQueue, goto_workQueue, Function.update_apply, hpc, WorkPc.hasToken, WorkPc.posts]
    by_cases hq : q = t
    · subst hq
      simp
      omega
    · simp [hq]
  · exact h.spread_same rfl rfl rfl rfl (p := .token) (by rw [hpc]; rfl) rfl rfl

lemma Inv.semPost (h : s.Inv wc) (ht : t < wc.threadCnt) {q : ℕ} {r : Rest}
    (hpc : s.pc t = .giveBack ∧ q = t ∧ r = .idle ∨ ∃ m, s.pc t = .post m q r) : (s.semPost t q r).Inv wc := by
  refine h.shift (p := .rest r) ht ⟨rfl, fun x => ?_, fun x => ?_⟩ ?_ fun hp => absurd hp Bool.false_ne_true
  · rcases hpc with ⟨hpc, -⟩ | ⟨m, hpc⟩ <;> simp [WorkQueue.semPost, hpc, WorkPc.counts]
  · rcases hpc with ⟨hpc, rfl, rfl⟩ | ⟨m, hpc⟩
    · by_cases hx : x = q <;> simp [WorkQueue.semPost, entries, hpc, WorkPc.hasToken, WorkPc.posts, hx]
    · by_cases hx : q = x
      · subst hx
        simp [WorkQueue.semPost, entries, hpc, WorkPc.hasToken, WorkPc.posts]
      · simp [WorkQueue.semPost, entries, hpc, WorkPc.hasToken, WorkPc.posts, hx, Ne.symm hx]
  · have hheld : (WorkPc.rest r).held = (s.pc t).held := by
      rcases hpc with ⟨hpc, -, rfl⟩ | ⟨m, hpc⟩ <;> rw [hpc] <;> rfl
    exact h.spread_same rfl rfl rfl rfl hheld rfl rfl

lemma Inv.popPrior (h : s.Inv wc) (ht : t < wc.threadCnt) (hpc : s.pc t = .token) : (s.popPrior t).Inv wc := by
  rw [WorkQueue.popPrior]
  split_ifs with hcnt
  · split
    · rename_i m rest hq
      refine h.shift (p := .holding m) ht ⟨rfl, fun q => ?_, fun q => ?_⟩ ?_ fun hp => absurd hp Bool.false_ne_true
      · by_cases hqt : q = t
        · subst hqt
          simp [hpc, hq, WorkPc.counts]
          omega
        · simp [hpc, hqt, WorkPc.counts]
      · by_cases hqt : q = t
        · subst hqt
          simp [entries, hpc, hq, WorkPc.hasToken, WorkPc.posts]
          omega
        · simp [entries, hpc, hqt, WorkPc.hasToken, WorkPc.posts]
      · refine h.spread.move (a := .prior t) (b := .hands t) (x := m) (by simp) ?_ ?_ fun d ha hb => ?_
        · simp [contents, hq]
        · simp [contents, WorkQueue.goto, hpc, WorkPc.held]
        · cases d <;> simp_all [contents, WorkQueue.goto]
    · exact h.goto ht (by rw [hpc]; rfl) (by rw [hpc]; rfl) (by rw [hpc]; rfl) (by rw [hpc]; rfl)
  · exact h.goto ht (by rw [hpc]; rfl) (by rw [hpc]; rfl) (by rw [hpc]; rfl) (by rw [hpc]; rfl)

lemma Inv.popWork (h : s.Inv wc) (ht : t < wc.threadCnt) (hpc : s.pc t = .second) : (s.popWork t).Inv wc := by
  rw [WorkQueue.popWork]
  split
  · rename_i m rest hq
    refine h.shift (p := .holding m) ht ⟨rfl, fun q => ?_, fun q => ?_⟩ ?_ fun hp => absurd hp Bool.false_ne_true
    · simp [hpc, WorkPc.counts]
    · by_cases hqt : q = t
      · subst hqt
        simp [entries, hpc, hq, WorkPc.hasToken, WorkPc.posts]
        omega
      · simp [entries, hpc, hqt, WorkPc.hasToken, WorkPc.posts]
    · refine h.spread.move (a := .work t) (b := .hands t) (x := m) (by simp) ?_ ?_ fun d ha hb => ?_
      · simp [contents, hq]
      · simp [contents, WorkQueue.goto, hpc, WorkPc.held]
      · cases d <;> simp_all [contents, WorkQueue.goto]
  · exact h.goto ht (by rw [hpc]; rfl) (by rw [hpc]; rfl) (by rw [hpc]; rfl) (by rw [hpc]; rfl)

lemma Inv.park (h : s.Inv wc) (ht : t < wc.threadCnt) {m : WorkMsg} (hpc : s.pc t = .parking m) :
    (s.park t m).Inv wc := by
  refine h.shift (p := .rest .idle) ht ⟨rfl, fun q => ?_, fun q => ?_⟩ ?_ fun hp => absurd hp Bool.false_ne_true
  · simp [WorkQueue.park, hpc, WorkPc.counts]
  · simp [WorkQueue.park, entries, hpc, WorkPc.hasToken, WorkPc.posts]
  · refine h.spread.move (a := .hands t) (b := .temp m.instanceId) (x := m) (by simp) ?_ ?_ fun d ha hb => ?_
    · simp [contents, WorkQueue.park, WorkQueue.goto, hpc, WorkPc.held, Rest.held]
    · simp [contents, WorkQueue.park]
    · cases d <;> simp_all [contents, WorkQueue.park, WorkQueue.goto]

lemma Inv.push (h : s.Inv wc) (ht : t < wc.threadCnt) {m : WorkMsg} {q : ℕ} {r : Rest} (hpc : s.pc t = .put m q r) :
    (s.push t m q r).Inv wc := by
  rw [WorkQueue.push]
  split_ifs
  · refine h.shift (p := .count m q r) ht ⟨rfl, fun x => ?_, fun x => ?_⟩ ?_ fun hp => absurd hp Bool.false_ne_true
    · by_cases hx : q = x
      · subst hx
        simp [hpc, WorkPc.counts]
        omega
      · simp [hpc, WorkPc.counts, hx, Ne.symm hx]
    · by_cases hx : q = x
      · subst hx
        simp [entries, hpc, WorkPc.hasToken, WorkPc.posts]
        omega
      · simp [entries, hpc, WorkPc.hasToken, WorkPc.posts, hx, Ne.symm hx]
    · refine h.spread.move (a := .hands t) (b := .prior q) (x := m) (by simp) ?_ ?_ fun d ha hb => ?_
      · simp [contents, WorkQueue.goto, hpc, WorkPc.held]
      · simp [contents]
      · cases d <;> simp_all [contents, WorkQueue.goto]
  · refine h.shift (p := .post m q r) ht ⟨rfl, fun x => ?_, fun x => ?_⟩ ?_ fun hp => absurd hp Bool.false_ne_true
    · simp [hpc, WorkPc.counts]
    · by_cases hx : q = x
      · subst hx
        simp [entries, hpc, WorkPc.hasToken, WorkPc.posts]
        omega
      · simp [entries, hpc, WorkPc.hasToken, WorkPc.posts, hx, Ne.symm hx]
    · refine h.spread.move (a := .hands t) (b := .work q) (x := m) (by simp) ?_ ?_ fun d ha hb => ?_
      · simp [contents, WorkQueue.goto, hpc, WorkPc.held]
      · simp [contents]
      · cases d <;> simp_all [contents, WorkQueue.goto]

lemma Inv.incPriorCnt (h : s.Inv wc) (ht : t < wc.threadCnt) {m : WorkMsg} {q : ℕ} {r : Rest}
    (hpc : s.pc t = .count m q r) : (s.incPriorCnt t m q r).Inv wc := by
  refine h.shift (p := .post m q r) ht ⟨rfl, fun x => ?_, fun x => ?_⟩ ?_ fun hp => absurd hp Bool.false_ne_true
  · by_cases hx : q = x
    · subst hx
      simp [WorkQueue.incPriorCnt, hpc, WorkPc.counts]
      omega
    · simp [WorkQueue.incPriorCnt, hpc, WorkPc.counts, hx, Ne.symm hx]
  · simp [WorkQueue.incPriorCnt, entries, hpc, WorkPc.hasToken, WorkPc.posts]
  · have hheld : (WorkPc.post m q r).held = (s.pc t).held := by rw [hpc]; rfl
    exact h.spread_same rfl rfl rfl rfl hheld rfl rfl

lemma Inv.reenqueue (h : s.Inv wc) (ht : t < wc.threadCnt) {m : WorkMsg} {i : ℕ}
    (hpc : s.pc t = .rest (.moving m i)) : (s.reenqueue wc t m i).Inv wc := by
  rw [WorkQueue.reenqueue]
  split
  · rename_i e rest hq
    refine h.shift (p := .put e (i % wc.multiThreads) (.moving m i)) ht ⟨rfl, fun x => ?_, fun x => ?_⟩ ?_
      fun hp => absurd hp Bool.false_ne_true
    · simp [hpc, WorkPc.counts]
    · simp [entries, hpc, WorkPc.hasToken, WorkPc.posts]
    · refine h.spread.move (a := .temp i) (b := .hands t) (x := e) (by simp) ?_ ?_ fun d ha hb => ?_
      · simp [contents, hq]
      · simp [contents, WorkQueue.goto, hpc, WorkPc.held, Rest.held]
      · cases d <;> simp_all [contents, WorkQueue.goto]
  · exact h.goto ht (by rw [hpc]; rfl) (by rw [hpc]; rfl) (by rw [hpc]; rfl) (by rw [hpc]; rfl)

lemma Inv.enqueue (h : s.Inv wc) (ht : t < wc.threadCnt) {m : WorkMsg} {r : Rest} (hpc : s.pc t = .rest r)
    (hnew : m ∉ s.entered) : (s.enqueue wc t m r).Inv wc := by
  refine h.shift (p := .put m (m.instanceId % wc.multiThreads) r) ht ⟨rfl, fun x => ?_, fun x => ?_⟩ ?_
    fun hp => absurd hp Bool.false_ne_true
  · simp [WorkQueue.enqueue, hpc, WorkPc.counts]
  · simp [WorkQueue.enqueue, entries, hpc, WorkPc.hasToken, WorkPc.posts]
  · refine h.spread.enter (b := .hands t) (x := m) hnew ?_ (fun d hd => ?_) fun y => ?_
    · simp [contents, WorkQueue.enqueue, WorkQueue.goto, hpc, WorkPc.held]
    · cases d <;> simp_all [contents, WorkQueue.enqueue, WorkQueue.goto]
    · simp [WorkQueue.enqueue]

lemma Inv.done (h : s.Inv wc) (ht : t < wc.threadCnt) {m : WorkMsg} (hpc : s.pc t = .rest (.handling m)) :
    Inv wc { s.goto t (.rest .idle) with handled := s.handled ++ [m] } := by
  refine h.shift (p := .rest .idle) ht ⟨rfl, fun x => ?_, fun x => ?_⟩ ?_ fun hp => absurd hp Bool.false_ne_true
  · simp [hpc, WorkPc.counts]
  · simp [entries, hpc, WorkPc.hasToken, WorkPc.posts]
  · refine h.spread.move (a := .hands t) (b := .handled) (x := m) (by simp) ?_ ?_ fun d ha hb => ?_
    · simp [contents, WorkQueue.goto, hpc, WorkPc.held, Rest.held]
    · simp [contents]
    · cases d <;> simp_all [contents, WorkQueue.goto]

lemma Inv.setView (h : s.Inv wc) (ht : t < wc.threadCnt) {m : WorkMsg} {r : Rest} {views : ℕ → ℕ}
    (hpc : s.pc t = .rest (.handling m)) (hr : r.held = [m]) :
    Inv wc { s.goto t (.rest r) with currentView := views } := by
  refine h.shift (p := .rest r) ht ⟨rfl, fun x => ?_, fun x => ?_⟩ ?_ fun hp => absurd hp Bool.false_ne_true
  · simp [hpc, WorkPc.counts]
  · simp [entries, hpc, WorkPc.hasToken, WorkPc.posts]
  · have hheld : (WorkPc.rest r).held = (s.pc t).held := by
      rw [hpc]
      exact hr
    exact h.spread_same rfl rfl rfl rfl hheld rfl rfl

lemma Inv.act (h : s.Inv wc) (ht : t < wc.threadCnt) (hs : s.act wc t = some s') : s'.Inv wc := by
  rw [WorkQueue.act] at hs
  split at hs
  · rename_i hpc
    exact h.semWait ht hpc hs
  · cases hs
  · rename_i m i hpc
    obtain rfl := Option.some.inj hs
    exact h.reenqueue ht hpc
  · rename_i hpc
    obtain rfl := Option.some.inj hs
    exact h.popPrior ht hpc
  · rename_i hpc
    obtain rfl := Option.some.inj hs
    exact h.popWork ht hpc
  · rename_i hpc
    obtain rfl := Option.some.inj hs
    exact h.semPost ht (.inl ⟨hpc, rfl, rfl⟩)
  · rename_i m hpc
    obtain rfl := Option.some.inj hs
    split_ifs
    · exact h.goto ht (by rw [hpc]; rfl) (by rw [hpc]; rfl) (by rw [hpc]; rfl) (by rw [hpc]; rfl)
    · exact h.goto ht (by rw [hpc]; rfl) (by rw [hpc]; rfl) (by rw [hpc]; rfl) (by rw [hpc]; rfl)
  · rename_i m hpc
    obtain rfl := Option.some.inj hs
    exact h.park ht hpc
  · rename_i m q r hpc
    obtain rfl := Option.some.inj hs
    exact h.push ht hpc
  · rename_i m q r hpc
    obtain rfl := Option.some.inj hs
    exact h.incPriorCnt ht hpc
  · rename_i m q r hpc
    obtain rfl := Option.some.inj hs
    exact h.semPost ht (.inr ⟨m, hpc⟩)

lemma Inv.step {e : Event} (h : s.Inv wc) (hok : s.Allowed e) (hs : s.step wc e = some s') : s'.Inv wc := by
  rw [WorkQueue.step] at hs
  split_ifs at hs with ht
  cases e with
  | act t => exact h.act ht hs
  | enqueue t m =>
    simp only [choose] at hs
    split at hs
    · rename_i hpc
      split_ifs at hs
      obtain rfl := Option.some.inj hs
      exact h.enqueue ht hpc hok.2
    · rename_i m' hpc
      obtain rfl := Option.some.inj hs
      exact h.enqueue ht hpc hok.2
    · cases hs
  | done t =>
    simp only [choose] at hs
    split at hs
    · rename_i m hpc
      obtain rfl := Option.some.inj hs
      exact h.done ht hpc
    · cases hs
  | busy t =>
    simp only [choose] at hs
    split at hs
    · rename_i m hpc
      split_ifs at hs
      obtain rfl := Option.some.inj hs
      exact h.goto ht (by rw [hpc]; rfl) (by rw [hpc]; rfl) (by rw [hpc]; rfl) (by rw [hpc]; rfl)
    · cases hs
  | setView t i v =>
    simp only [choose] at hs
    split at hs
    · rename_i m hpc
      obtain rfl := Option.some.inj hs
      refine h.setView ht hpc ?_
      split_ifs <;> rfl
    · cases hs

lemma inv_reach (h : Reach (step wc) Allowed init s) : s.Inv wc :=
  h.invariant (Inv wc) inv_init fun _ _ _ _ hok hs ih => ih.step hok hs

theorem work_conserved (h : Reach (step wc) Allowed init s) :
    (∀ m ∈ s.entered, ∃! a, m ∈ s.contents a) ∧
      (∀ a, (s.contents a).Nodup ∧ ∀ m ∈ s.contents a, m ∈ s.entered) ∧
      (∀ q, s.priorCnt q ≤ (s.priorQueue q).length) ∧
      ∀ q, s.semaphore q + s.tokens q + (s.posting wc q).card = (s.entries q).length := by
  have hinv := inv_reach h
  refine ⟨fun m hm => hinv.spread.existsUnique hm, fun a => ⟨hinv.spread.nodup a, fun m hm => ?_⟩, fun q => ?_,
    hinv.balance⟩
  · exact (hinv.spread.covers m).mpr ⟨a, hm⟩
  · rw [hinv.counted q]
    exact Nat.le_add_right _ _

end Invariant

section Overtaking

def oneWorker : WorkConfig := ⟨1, 3, 1, Nat.one_pos, Nat.le_add_right 1 2⟩

def vote : WorkMsg := ⟨0, .SYNC_MSG, 0, 0⟩

def proposal : WorkMsg := ⟨1, .GENERIC_MSG, 0, 0⟩

-- Worker 0 has taken the token of the vote when the GENERIC is counted, and pops the GENERIC before its post.
def overtaking : List Event :=
  [.enqueue 1 vote, .act 1, .act 1, .act 0, .enqueue 2 proposal, .act 2, .act 2, .act 0]

theorem work_conserved_overtaking :
    ∃ s, Reach (step oneWorker) Allowed init s ∧ s.posting oneWorker 0 = {2} ∧ s.entries 0 = [vote] ∧
      s.semaphore 0 + s.tokens 0 + 1 = 1 ∧ ∃! a, proposal ∈ s.contents a := by
  obtain ⟨s, hr, hs⟩ := exists_reach_of_runWith (step oneWorker) Allowed init overtaking
    (fun s => s.posting oneWorker 0 = {2} ∧ s.entries 0 = [vote] ∧ proposal ∈ s.entered) (by decide +kernel)
  obtain ⟨hposting, hentries, hin⟩ := of_decide_eq_true hs
  obtain ⟨hone, -, -, hbalance⟩ := work_conserved hr
  refine ⟨s, hr, hposting, hentries, ?_, hone proposal hin⟩
  have h := hbalance 0
  rwa [hposting, hentries] at h

theorem completed_entry_without_token :
    ∃ s, Reach (step oneWorker) Allowed init s ∧ s.completed oneWorker 0 = [vote] ∧ s.semaphore 0 + s.tokens 0 = 0 ∧
      ¬ s.semaphore 0 + s.tokens 0 = (s.completed oneWorker 0).length := by
  obtain ⟨s, hr, hs⟩ := exists_reach_of_runWith (step oneWorker) Allowed init overtaking
    (fun s => s.completed oneWorker 0 = [vote] ∧ s.semaphore 0 + s.tokens 0 = 0) (by decide +kernel)
  obtain ⟨hcompleted, hnone⟩ := of_decide_eq_true hs
  refine ⟨s, hr, hcompleted, hnone, ?_⟩
  rw [hcompleted, hnone]
  exact Nat.zero_ne_one

end Overtaking

end WorkQueue

end SpotLess
