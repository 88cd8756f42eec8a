import SpotLess.LatchBalance
import SpotLess.CheckpointRun

/-! Fault-free runs of the run loop of any length, put together from whole iterations, up to one in which a checkpoint
thread loses the manager it has made unavailable. -/

namespace SpotLess.RunLoop

open Lib

variable (cfg : Config) (nodeId : ℕ)

abbrev Leads : State → State → Prop := Reach (step cfg nodeId) fun s e => Faultless cfg nodeId s e ∧ Passed s e

def Table (g : ℕ → Checkpoint.TxnManager) (h : Option ℕ) (f : ℕ → Option Checkpoint.TxnManager) : Prop :=
  ∀ id, (f id).getD {} = if h = some id then { g id with txnReady := false } else g id

def State.put (s : State) (f : ℕ → Option Checkpoint.TxnManager) (t : Thd) (x : Thread) : State :=
  { s with
    chk := { s.chk with managers := f }
    threads := Function.update s.threads t x }

variable {cfg nodeId} {s u : State} {t : Thd} {m : Message} {g : ℕ → Checkpoint.TxnManager} {h h' : Option ℕ}
  {f : ℕ → Option Checkpoint.TxnManager} {pc pc' : Pc} {a q : Bool}

lemma Leads.cons {e : Event} {w : State} (hok : Faultless cfg nodeId s e ∧ Passed s e)
    (hs : step cfg nodeId s e = some u) (h : Leads cfg nodeId u w) : Leads cfg nodeId s w :=
  (Reach.start.next e hok hs).trans h

lemma Leads.run {w : State} (hs : s.run cfg nodeId t a q = some u) (h : Leads cfg nodeId u w) :
    Leads cfg nodeId s w :=
  .cons (e := .run t a q) ⟨trivial, trivial⟩ hs h

section Iteration

lemma goto_put {x : Thread} : (s.put f t x).goto t pc = s.put f t { x with pc := pc } := by
  simp [State.put, State.goto]

lemma put_threads {x : Thread} : (s.put f t x).threads t = x := Function.update_self ..

variable (pc pc') in
lemma latchStep_put {op : Op ℕ} (hg : ∀ id, (g id).txnReady = true) (hop : Op.hold h op = some h') (hf : Table g h f) :
    ∃ f', Table g h' f' ∧
      ((s.put f t ⟨pc, h.toList⟩).latchStep t op).map (fun u => u.goto t pc') = some (s.put f' t ⟨pc', h'.toList⟩) := by
  cases h with
  | none =>
    cases op with
    | give id => cases hop
    | take id =>
      obtain rfl := Option.some.inj hop
      have hid : (f id).getD {} = g id := hf id
      refine ⟨Function.update f id (some { g id with txnReady := false }), ?_, ?_⟩
      · intro j
        by_cases hj : j = id
        · subst hj
          simp
        · simp [hj, Ne.symm hj, hf j]
      · simp [State.latchStep, State.unsetReady, State.setHeld, State.put, State.goto, Checkpoint.State.modify,
          Checkpoint.State.getTransactionManager, Checkpoint.State.manager, hid, hg id]
  | some id =>
    cases op with
    | take id' => cases hop
    | give id' =>
      rw [Op.hold] at hop
      split_ifs at hop with heq
      subst heq
      obtain rfl := Option.some.inj hop
      have hid : (f id).getD {} = { g id with txnReady := false } := by
        rw [hf id, if_pos rfl]
      have hsome : f id = some { g id with txnReady := false } := by
        cases hfid : f id with
        | none =>
          rw [hfid] at hid
          exact absurd (congrArg Checkpoint.TxnManager.txnReady hid) (by simp)
        | some x =>
          rw [hfid] at hid
          exact congrArg some hid
      refine ⟨Function.update f id (some (g id)), ?_, ?_⟩
      · intro j
        by_cases hj : j = id
        · subst hj
          simp
        · have hj' := hf j
          simp only [Option.some.injEq, Ne.symm hj, if_false] at hj'
          simp [hj, hj']
      · have hback : { g id with txnReady := true } = g id := by
          have hready := hg id
          cases hgid : g id
          simp_all
        simp [State.latchStep, State.setReady, State.setHeld, State.put, State.goto, Checkpoint.State.modify, hsome, hback]

lemma leads_ops (hg : ∀ id, (g id).txnReady = true) (k : List (Op ℕ) → Pc)
    (hk : ∀ (u : State) op ops, (u.threads t).pc = k (op :: ops) →
      u.run cfg nodeId t false false = (u.latchStep t op).map fun w => w.goto t (k ops))
    (ops : List (Op ℕ)) (hops : ops.foldlM Op.hold h = some h') (hf : Table g h f) :
    ∃ f', Table g h' f' ∧ Leads cfg nodeId (s.put f t ⟨k ops, h.toList⟩) (s.put f' t ⟨k [], h'.toList⟩) := by
  induction ops generalizing h f with
  | nil =>
    obtain rfl : h = h' := Option.some.inj hops
    exact ⟨f, hf, .start⟩
  | cons op ops ih =>
    obtain ⟨h₁, hop, hops⟩ := Option.bind_eq_some_iff.mp hops
    obtain ⟨f₁, hf₁, hstep⟩ := latchStep_put (k (op :: ops)) (k ops) hg hop hf
    obtain ⟨f', hf', hrest⟩ := ih hops hf₁
    have hrun : (s.put f t ⟨k (op :: ops), h.toList⟩).run cfg nodeId t false false = some (s.put f₁ t ⟨k ops, h₁.toList⟩) := by
      rw [hk _ op ops (by rw [put_threads]), hstep]
    exact ⟨f', hf', Leads.run hrun hrest⟩

variable (cfg nodeId s t) in
lemma leads_opening (hg : ∀ id, (g id).txnReady = true) (m : Message) (ops : List (Op ℕ))
    (hops : ops.foldlM Op.hold h = some h') (hf : Table g h f) :
    ∃ f', Table g h' f' ∧
      Leads cfg nodeId (s.put f t ⟨.opening m ops, h.toList⟩) (s.put f' t ⟨.opening m [], h'.toList⟩) := by
  refine leads_ops hg (.opening m) (fun u op ops hp => ?_) ops hops hf
  cases m <;> simp only [State.run, hp]

variable (cfg nodeId s t) in
lemma leads_closing (hg : ∀ id, (g id).txnReady = true) (m : Message) (ops : List (Op ℕ))
    (hops : ops.foldlM Op.hold h = some h') (hf : Table g h f) :
    ∃ f', Table g h' f' ∧
      Leads cfg nodeId (s.put f t ⟨.closing m ops, h.toList⟩) (s.put f' t ⟨.closing m [], h'.toList⟩) := by
  refine leads_ops hg (.closing m) (fun u op ops hp => ?_) ops hops hf
  simp only [State.run, hp]

lemma handle_put {x : Thread} : (s.put f t x).handle cfg m a q = (s.handle cfg m a q).put f t x := by
  cases m with
  | sync v i | proposal v i | generic v i =>
    simp only [State.handle, apply_ite (fun u : State => u.put f t x)]
    rfl
  | genericP v i | clBatch v i | execute v i => rfl

lemma completed_put {x : Thread} : (s.put f t x).completed m = (s.completed m).put f t x := by
  cases m <;> rfl

variable (cfg nodeId s t m a q h) in
lemma leads_handler (hg : ∀ id, (g id).txnReady = true) (hm : ∀ v i, m ≠ .execute v i)
    (hops : (m.opening cfg).foldlM Op.hold h = some (some (m.last cfg))) (hf : Table g h f) :
    ∃ f', Table g none f' ∧ Leads cfg nodeId (s.put f t ⟨.opening m (m.opening cfg), h.toList⟩)
      (((s.handle cfg m a q).completed m).put f' t {}) := by
  obtain ⟨f₁, hf₁, hopen⟩ := leads_opening cfg nodeId s t hg m _ hops hf
  obtain ⟨f₂, hf₂, hclose⟩ := leads_closing cfg nodeId (s.handle cfg m a q) t hg m _ (balanced_closing m) hf₁
  refine ⟨f₂, hf₂, hopen.trans (Leads.run (t := t) (a := a) (q := q) ?_ (hclose.trans
    (Leads.run (t := t) (a := a) (q := q) ?_ .start)))⟩
  · have hp : ((s.put f₁ t ⟨.opening m [], [m.last cfg]⟩).threads t).pc = .opening m [] := by rw [put_threads]
    have hrun : (s.put f₁ t ⟨.opening m [], [m.last cfg]⟩).run cfg nodeId t a q =
        some (((s.put f₁ t ⟨.opening m [], [m.last cfg]⟩).handle cfg m a q).goto t (.closing m (m.closing cfg))) := by
      cases m with
      | execute v i => exact absurd rfl (hm v i)
      | sync v i | generic v i | proposal v i | genericP v i | clBatch v i => simp only [State.run, hp]
    rw [handle_put, goto_put] at hrun
    exact hrun
  · have hp : (((s.handle cfg m a q).put f₂ t ⟨.closing m [], []⟩).threads t).pc = .closing m [] := by rw [put_threads]
    have hrun : ((s.handle cfg m a q).put f₂ t ⟨.closing m [], []⟩).run cfg nodeId t a q =
        some ((((s.handle cfg m a q).put f₂ t ⟨.closing m [], []⟩).completed m).goto t .idle) := by
      simp only [State.run, hp]
    rw [completed_put, goto_put] at hrun
    exact hrun

lemma hold_each (ids : List ℕ) (id : ℕ) :
    (ids.flatMap (fun id => [Op.take id, Op.give id]) ++ [Op.take id]).foldlM Op.hold none = some (some id) := by
  have heach : (ids.flatMap fun id => [Op.take id, Op.give id]).foldlM Op.hold none = some none := by
    have hb : Balanced none (ids.flatMap (fun id => [Op.take id, Op.give id]) ++ []) :=
      (balanced_each_append ids).mpr (balanced_nil.mpr rfl)
    rwa [List.append_nil] at hb
  rw [List.foldlM_append, heach]
  rfl

variable (cfg nodeId s t m a q) in
lemma leads_taken (hg : ∀ id, (g id).txnReady = true) (hqueued : m.Queued) (hlate : ¬ s.Late cfg m)
    (hflag : ∀ v i, m = .proposal v i → (s.flags (m.last cfg)).proposalReceived = false) (hf : Table g none f) :
    ∃ f', Table g none f' ∧
      Leads cfg nodeId (s.put f t ⟨.taken m, []⟩) ((s.handle cfg m a q).put f' t {}) := by
  have hp : ((s.put f t ⟨.taken m, []⟩).threads t).pc = .taken m := by rw [put_threads]
  have htaken : (s.put f t ⟨.taken m, []⟩).run cfg nodeId t a q = some (s.put f t ⟨.admitted m, []⟩) := by
    have hlate : ¬ (s.put f t ⟨.taken m, []⟩).Late cfg m := by
      cases m <;> exact hlate
    simp only [State.run, hp, if_neg hlate, goto_put]
  have hp : ((s.put f t ⟨.admitted m, []⟩).threads t).pc = .admitted m := by rw [put_threads]
  have hadmitted : ∃ f₁ h₁, Table g h₁ f₁ ∧ (m.opening cfg).foldlM Op.hold h₁ = some (some (m.last cfg)) ∧
      (s.put f t ⟨.admitted m, []⟩).run cfg nodeId t a q = some (s.put f₁ t ⟨.opening m (m.opening cfg), h₁.toList⟩) := by
    have htake : Op.hold none (.take (m.last cfg)) = some (some (m.last cfg)) := rfl
    obtain ⟨f₁, hf₁, hstep⟩ := latchStep_put (s := s) (t := t) (.admitted m) (.opening m (m.opening cfg)) hg htake hf
    cases m with
    | proposal v i =>
      refine ⟨f, none, hf, hold_each _ _, ?_⟩
      have hflag : ((s.put f t ⟨.admitted (.proposal v i), []⟩).flags
        (Message.last cfg (.proposal v i))).proposalReceived = false := hflag v i rfl
      simp only [State.run, hp, hflag, Bool.false_eq_true, if_false, goto_put]
      rfl
    | sync v i | generic v i | genericP v i =>
      refine ⟨f₁, some (cfg.lastTxn v i), hf₁, rfl, ?_⟩
      simp only [State.latchStep] at hstep
      split_ifs at hstep with hready
      · simp only [State.run, hp]
        exact (if_pos hready).trans hstep
      · cases hstep
    | clBatch v i | execute v i => exact False.elim hqueued
  obtain ⟨f₁, h₁, hf₁, hops, hrun⟩ := hadmitted
  have hm : ∀ v i, m ≠ .execute v i := by
    rintro v i rfl
    exact hqueued
  have hcompleted : (s.handle cfg m a q).completed m = s.handle cfg m a q := by
    cases m with
    | clBatch v i => exact False.elim hqueued
    | sync v i | generic v i | proposal v i | genericP v i | execute v i => rfl
  obtain ⟨f₂, hf₂, hhandler⟩ := leads_handler cfg nodeId s t m h₁ a q hg hm hops hf₁
  rw [hcompleted] at hhandler
  exact ⟨f₂, hf₂, Leads.run htaken (Leads.run hrun hhandler)⟩

end Iteration

def State.withTable (s : State) (f : ℕ → Option Checkpoint.TxnManager) : State :=
  { s with chk := { s.chk with managers := f } }

lemma put_idle (hthreads : s.threads = fun _ => {}) : s.put f t {} = s.withTable f := by
  have hupdate : Function.update s.threads t {} = s.threads := by
    rw [hthreads, Function.update_eq_self_iff]
  simp only [State.put, State.withTable, hupdate]

lemma table_self : Table s.chk.manager none s.chk.managers := fun _ => rfl

lemma manager_withTable (hf : Table g none f) : (s.withTable f).chk.manager = g := funext hf

-- Where everything rests between two iterations.
structure AtRest (s : State) : Prop where
  threads : s.threads = fun _ => {}
  inbox : s.inbox = ∅
  ready : ∀ id, (s.chk.manager id).txnReady = true

lemma AtRest.withTable (hs : AtRest s) (hu : u.threads = s.threads) (hi : u.inbox = s.inbox)
    (hf : Table s.chk.manager none f) : AtRest (u.withTable f) := by
  refine ⟨hu.trans hs.threads, hi.trans hs.inbox, ?_⟩
  rw [manager_withTable hf]
  exact hs.ready

variable (nodeId m a q) in
lemma AtRest.leads_worker {w : ℕ} (hs : AtRest s) (hok : Faultless cfg nodeId s (.arrive m)) (hfor : m.ForWorker cfg w)
    (hcurrent : s.Current m) (hlate : ¬ s.Late cfg m)
    (hflag : ∀ v i, m = .proposal v i → (s.flags (m.last cfg)).proposalReceived = false) :
    ∃ f, Table s.chk.manager none f ∧
      Leads cfg nodeId s (({ s with arrived := insert m s.arrived }.handle cfg m a q).withTable f) := by
  have hqueued : m.Queued := by
    cases m with
    | clBatch v i | execute v i => exact False.elim hfor
    | sync v i | generic v i | proposal v i | genericP v i => trivial
  set u := { s with arrived := insert m s.arrived } with hu
  have harrive : step cfg nodeId s (.arrive m) = some { u with inbox := {m} } := by
    simp [step, hs.inbox, hu]
  have hdequeue : step cfg nodeId { u with inbox := {m} } (.dequeue (.worker w) m) =
      some (u.put s.chk.managers (.worker w) ⟨.taken m, []⟩) := by
    have hguard : m ∈ ({m} : Finset Message) ∧ m.ForWorker cfg w ∧ { u with inbox := {m} }.Current m := by
      refine ⟨Finset.mem_singleton_self m, hfor, ?_⟩
      cases m <;> exact hcurrent
    simp only [step, State.dequeue, if_pos hguard]
    simp [State.goto, State.put, hu, hs.threads, hs.inbox]
  have hlate : ¬ u.Late cfg m := by
    cases m <;> exact hlate
  obtain ⟨f, hf, htaken⟩ := leads_taken cfg nodeId u (.worker w) m a q hs.ready hqueued hlate hflag table_self
  have hthreads : (u.handle cfg m a q).threads = fun _ => {} := (handles_handle a q).threads.trans hs.threads
  rw [put_idle hthreads] at htaken
  have hbegin := Leads.cons (e := .dequeue (.worker w) m) ⟨trivial, trivial⟩ hdequeue htaken
  exact ⟨f, hf, Leads.cons ⟨hok, trivial⟩ harrive hbegin⟩

variable (nodeId) in
lemma AtRest.leads_clBatch {v i : ℕ} (hs : AtRest s) (hi : i < cfg.totInstances) (hv : v = s.nextSendView i)
    (hview : v ≤ s.view i) :
    ∃ f, Table s.chk.manager none f ∧ Leads cfg nodeId s ((({ s with
      lastSentView := Function.update s.lastSentView i v
      nextSendView := Function.update s.nextSendView i (v + cfg.nodeCnt) }.handle cfg (.clBatch v i) false
        false).completed (.clBatch v i)).withTable f) := by
  set u := { s with
    lastSentView := Function.update s.lastSentView i v
    nextSendView := Function.update s.nextSendView i (v + cfg.nodeCnt) } with hu
  have hdequeue : step cfg nodeId s (.dequeue .proposal (.clBatch v i)) =
      some (u.put s.chk.managers .proposal ⟨.opening (.clBatch v i) (Message.opening cfg (.clBatch v i)), []⟩) := by
    simp only [step, State.dequeue, if_pos (And.intro hi (And.intro hv hview))]
    simp [State.goto, State.put, hu, hs.threads]
  obtain ⟨f, hf, hhandler⟩ := leads_handler cfg nodeId u .proposal (.clBatch v i) none false false hs.ready (by simp)
    (hold_each _ _) table_self
  have hthreads : ((u.handle cfg (.clBatch v i) false false).completed (.clBatch v i)).threads = fun _ => {} := hs.threads
  rw [put_idle hthreads] at hhandler
  exact ⟨f, hf, Leads.cons (e := .dequeue .proposal (.clBatch v i)) ⟨trivial, trivial⟩ hdequeue hhandler⟩

lemma AtRest.leads_genericP {v i : ℕ} (hs : AtRest s) (hi : i < cfg.totInstances) (hcnt : s.incompleteProposalCnt i ≠ 0)
    (hprimary : cfg.getViewPrimary (s.view i) i = nodeId) (hv : v = s.lastSentView i)
    (hlate : ¬ s.Late cfg (.genericP v i)) :
    ∃ f, Table s.chk.manager none f ∧ Leads cfg nodeId s (({ s with
      incompleteProposalCnt := Function.update s.incompleteProposalCnt i (s.incompleteProposalCnt i - 1) }.handle cfg
        (.genericP v i) false false).withTable f) := by
  set u := { s with
    incompleteProposalCnt := Function.update s.incompleteProposalCnt i (s.incompleteProposalCnt i - 1) } with hu
  have hdequeue : step cfg nodeId s (.dequeue .generic (.genericP v i)) =
      some (u.put s.chk.managers .generic ⟨.taken (.genericP v i), []⟩) := by
    simp only [step, State.dequeue, if_pos (And.intro hi (And.intro hcnt (And.intro hprimary hv)))]
    simp [State.goto, State.put, hu, hs.threads]
  obtain ⟨f, hf, htaken⟩ := leads_taken cfg nodeId u .generic (.genericP v i) false false hs.ready trivial hlate
    (by simp) table_self
  have hthreads : (u.handle cfg (.genericP v i) false false).threads = fun _ => {} := hs.threads
  rw [put_idle hthreads] at htaken
  exact ⟨f, hf, Leads.cons (e := .dequeue .generic (.genericP v i)) ⟨trivial, trivial⟩ hdequeue htaken⟩

section Slot

variable {v i : ℕ}

variable (cfg nodeId) in
structure Certified (s : State) (v i : ℕ) (u : State) : Prop where
  chk : ∃ f, Table s.chk.manager none f ∧ u.chk = { s.chk with managers := f }
  view : u.view = s.view
  currNewViewed : u.currNewViewed = s.currNewViewed
  flags : u.flags = Function.update s.flags (cfg.lastTxn v i) ⟨true, true⟩
  arrived : ∀ m ∈ u.arrived, m ∈ s.arrived ∨ m.view = v ∧ m.instanceId = i
  incompleteProposalCnt : u.incompleteProposalCnt = s.incompleteProposalCnt
  nextSendView : u.nextSendView = if cfg.getViewPrimary v i = nodeId then
    Function.update s.nextSendView i (v + cfg.nodeCnt) else s.nextSendView

lemma handle_proposal : s.handle cfg (.proposal v i) a false = { s with
    handled := insert (.proposal v i) s.handled
    flags := Function.update s.flags (cfg.lastTxn v i) { s.flags (cfg.lastTxn v i) with proposalReceived := true } } := by
  simp [State.handle, State.setFlags, Message.last, Message.view, Message.instanceId]

lemma handle_generic (hx : (s.flags (cfg.lastTxn v i)).genericReceived = false)
    (hview : cfg.getViewPrimary (s.view i) i = cfg.getViewPrimary v i) : s.handle cfg (.generic v i) true false = { s with
    handled := insert (.generic v i) s.handled
    flags := Function.update s.flags (cfg.lastTxn v i) { s.flags (cfg.lastTxn v i) with genericReceived := true } } := by
  simp [State.handle, State.setFlags, Message.last, Message.view, Message.instanceId, hx, hview]

lemma AtRest.certify_foreign (hs : AtRest s) (hi : i < cfg.totInstances) (hv : s.view i = v)
    (hprimary : cfg.getViewPrimary v i ≠ nodeId) (hflags : s.flags (cfg.lastTxn v i) = {})
    (harrived : ∀ m ∈ s.arrived, m.view < s.view m.instanceId) (hnext : s.chk.nextIndex + 2 < cfg.lastTxn v i) :
    ∃ u, Leads cfg nodeId s u ∧ AtRest u ∧ Certified cfg nodeId s v i u := by
  have hnew : ∀ m : Message, m.view = v → m.instanceId = i → m ∉ s.arrived := by
    intro m hmv hmi hmem
    have hlt := harrived m hmem
    rw [hmi, hmv, hv] at hlt
    exact lt_irrefl v hlt
  have hlast : Message.last cfg (.proposal v i) = cfg.lastTxn v i := rfl
  have hlate : ¬ s.Late cfg (.proposal v i) := by
    simp only [State.Late, Message.txnId, hlast]
    omega
  have hflag : ∀ w j, Message.proposal v i = .proposal w j →
      (s.flags (Message.last cfg (.proposal v i))).proposalReceived = false := by
    intro w j _
    rw [hlast, hflags]
  obtain ⟨f₁, hf₁, hproposal⟩ := hs.leads_worker nodeId (.proposal v i) false false ⟨hi, hprimary, hnew _ rfl rfl⟩ rfl
    trivial hlate hflag
  rw [handle_proposal, hflags] at hproposal
  set u := State.withTable _ f₁ with hu
  have hu₁ : AtRest u := hs.withTable rfl rfl hf₁
  have hlate₁ : ¬ u.Late cfg (.generic v i) := not_le.mpr (by
    show s.chk.nextIndex < cfg.lastTxn v i
    omega)
  have hnew₁ : Message.generic v i ∉ u.arrived := by
    intro hmem
    rcases Finset.mem_insert.mp hmem with heq | hmem
    · cases heq
    · exact hnew _ rfl rfl hmem
  have hcurrent : u.Current (.generic v i) := hv.ge
  obtain ⟨f₂, hf₂, hgeneric⟩ := hu₁.leads_worker nodeId (.generic v i) true false ⟨hi, hprimary, hnew₁⟩ rfl hcurrent
    hlate₁ (by simp)
  have hflags₁ : u.flags (cfg.lastTxn v i) = { proposalReceived := true } := Function.update_self ..
  have hview : cfg.getViewPrimary (u.view i) i = cfg.getViewPrimary v i := congrArg (cfg.getViewPrimary · i) hv
  have hhandle : { u with arrived := insert (Message.generic v i) u.arrived }.handle cfg (.generic v i) true false = _ :=
    handle_generic (congrArg Flags.genericReceived hflags₁) hview
  rw [hhandle] at hgeneric
  refine ⟨_, hproposal.trans hgeneric, hu₁.withTable rfl rfl hf₂, ?_⟩
  rw [hu, manager_withTable hf₁] at hf₂
  refine ⟨⟨f₂, hf₂, rfl⟩, rfl, rfl, ?_, ?_, rfl, ?_⟩
  · show Function.update u.flags (cfg.lastTxn v i) { u.flags (cfg.lastTxn v i) with genericReceived := true } = _
    rw [hflags₁]
    exact Function.update_idem ..
  · intro m hm
    rcases Finset.mem_insert.mp hm with rfl | hm
    · exact .inr ⟨rfl, rfl⟩
    · rcases Finset.mem_insert.mp hm with rfl | hm
      · exact .inr ⟨rfl, rfl⟩
      · exact .inl hm
  · rw [if_neg hprimary]
    rfl

lemma AtRest.certify_own (hs : AtRest s) (hi : i < cfg.totInstances) (hv : s.view i = v)
    (hprimary : cfg.getViewPrimary v i = nodeId) (hsend : s.nextSendView i = v) (hcnt : s.incompleteProposalCnt i = 0)
    (hflags : s.flags (cfg.lastTxn v i) = {}) (hnext : s.chk.nextIndex + 2 < cfg.lastTxn v i) :
    ∃ u, Leads cfg nodeId s u ∧ AtRest u ∧ Certified cfg nodeId s v i u := by
  obtain ⟨f₁, hf₁, hbatch⟩ := hs.leads_clBatch nodeId hi hsend.symm hv.ge
  set u := State.withTable _ f₁ with hu
  have hu₁ : AtRest u := hs.withTable rfl rfl hf₁
  have hcnt₁ : u.incompleteProposalCnt i = 1 := by
    show Function.update s.incompleteProposalCnt i (s.incompleteProposalCnt i + 1) i = 1
    rw [Function.update_self, hcnt]
  have hlast₁ : u.lastSentView i = v := Function.update_self ..
  have hprimary₁ : cfg.getViewPrimary (u.view i) i = nodeId := by
    show cfg.getViewPrimary (s.view i) i = nodeId
    rw [hv, hprimary]
  have hlate₁ : ¬ u.Late cfg (.genericP v i) := not_le.mpr (by
    show s.chk.nextIndex < cfg.lastTxn v i
    omega)
  obtain ⟨f₂, hf₂, hgeneric⟩ := hu₁.leads_genericP hi (by rw [hcnt₁]; exact one_ne_zero) hprimary₁ hlast₁.symm hlate₁
  refine ⟨_, hbatch.trans hgeneric, hu₁.withTable rfl rfl hf₂, ?_⟩
  rw [hu, manager_withTable hf₁] at hf₂
  refine ⟨⟨f₂, hf₂, rfl⟩, rfl, rfl, ?_, fun m hm => .inl hm, ?_, ?_⟩
  · show Function.update u.flags (cfg.lastTxn v i) { u.flags (cfg.lastTxn v i) with genericReceived := true } = _
    have hflags₁ : u.flags = Function.update s.flags (cfg.lastTxn v i) { proposalReceived := true } := by
      show Function.update s.flags (cfg.lastTxn v i) { s.flags (cfg.lastTxn v i) with proposalReceived := true } = _
      rw [hflags]
    rw [hflags₁, Function.update_self, Function.update_idem]
  · show Function.update u.incompleteProposalCnt i (u.incompleteProposalCnt i - 1) = _
    rw [hcnt₁]
    show Function.update (Function.update s.incompleteProposalCnt i (s.incompleteProposalCnt i + 1)) i 0 = _
    rw [Function.update_idem, ← hcnt, Function.update_eq_self]
  · rw [if_pos hprimary]
    rfl

lemma handle_sync_false : s.handle cfg (.sync v i) a false = { s with handled := insert (.sync v i) s.handled } := by
  simp [State.handle]

lemma handle_sync_true (hflags : s.flags (cfg.lastTxn v i) = ⟨true, true⟩) : s.handle cfg (.sync v i) a true =
    { s with handled := insert (Message.sync v i) s.handled }.advanceView (cfg.lastTxn v i) i := by
  simp [State.handle, Message.last, Message.view, Message.instanceId, hflags]

variable (cfg nodeId) in
structure Advanced (s : State) (v i : ℕ) (u : State) : Prop where
  chk : ∃ f, Table s.chk.manager none f ∧ u.chk = { s.chk with managers := f }
  view : u.view = Function.update s.view i (v + 1)
  currNewViewed : u.currNewViewed = Function.update s.currNewViewed i (cfg.lastTxn v i)
  flags : u.flags = Function.update s.flags (cfg.lastTxn v i) ⟨true, true⟩
  arrived : ∀ m ∈ u.arrived, m ∈ s.arrived ∨ m.view = v ∧ m.instanceId = i
  incompleteProposalCnt : u.incompleteProposalCnt = s.incompleteProposalCnt
  nextSendView : u.nextSendView = if cfg.getViewPrimary v i = nodeId then
    Function.update s.nextSendView i (v + cfg.nodeCnt) else s.nextSendView

lemma AtRest.advance (hs : AtRest u) (hi : i < cfg.totInstances) (hc : Certified cfg nodeId s v i u) (hv : s.view i = v)
    (hviewed : s.currNewViewed i < cfg.lastTxn v i) :
    ∃ w, Leads cfg nodeId u w ∧ AtRest w ∧ Advanced cfg nodeId s v i w := by
  have hview : u.view i = v := (congrFun hc.view i).trans hv
  have hlate : ∀ w : State, w.view i = v → w.currNewViewed i = s.currNewViewed i → ¬ w.Late cfg (.sync v i) := by
    intro w hwv hwn hlate
    rcases hlate with hlt | ⟨-, hle⟩
    · omega
    · have hle : cfg.lastTxn v i ≤ w.currNewViewed i := hle
      omega
  obtain ⟨f₁, hf₁, hfirst⟩ := hs.leads_worker nodeId (.sync v i) false false hi rfl trivial
    (hlate u hview (congrFun hc.currNewViewed i)) (by simp)
  rw [handle_sync_false] at hfirst
  set x := State.withTable _ f₁ with hx
  have hx₁ : AtRest x := hs.withTable rfl rfl hf₁
  obtain ⟨f₂, hf₂, hsecond⟩ := hx₁.leads_worker nodeId (.sync v i) false true hi rfl trivial
    (hlate x hview (congrFun hc.currNewViewed i)) (by simp)
  have hflags : x.flags (cfg.lastTxn v i) = ⟨true, true⟩ := by
    show u.flags (cfg.lastTxn v i) = _
    rw [hc.flags, Function.update_self]
  have hhandle : { x with arrived := insert (Message.sync v i) x.arrived }.handle cfg (.sync v i) false true = _ :=
    handle_sync_true hflags
  rw [hhandle] at hsecond
  refine ⟨_, hfirst.trans hsecond, hx₁.withTable rfl rfl hf₂, ?_⟩
  rw [hx, manager_withTable hf₁] at hf₂
  obtain ⟨f, hf, hchk⟩ := hc.chk
  refine ⟨⟨f₂, ?_, ?_⟩, ?_, ?_, hc.flags, ?_, hc.incompleteProposalCnt, hc.nextSendView⟩
  · have hmanager : u.chk.manager = s.chk.manager := by
      rw [hchk]
      exact funext hf
    rwa [hmanager] at hf₂
  · show { u.chk with managers := f₂ } = _
    rw [hchk]
  · show Function.update u.view i (u.view i + 1) = _
    rw [hc.view, hv]
  · show Function.update u.currNewViewed i (cfg.lastTxn v i) = _
    rw [hc.currNewViewed]
  · intro m hm
    rcases Finset.mem_insert.mp hm with rfl | hm
    · exact .inr ⟨rfl, rfl⟩
    · rcases Finset.mem_insert.mp hm with rfl | hm
      · exact .inr ⟨rfl, rfl⟩
      · exact hc.arrived m hm

lemma Table.getTransactionManager {id : ℕ} (hf : Table g h f) :
    Table g h (Function.update f id (some ((f id).getD {}))) := by
  intro j
  by_cases hj : j = id
  · subst hj
    rw [Function.update_self]
    exact hf j
  · rw [Function.update_of_ne hj]
    exact hf j

variable (cfg) in
-- The message that `send_checkpoints` sends when the batches below `next` have run.
def due (next : ℕ) : List ℕ := if next % Checkpoint.txnPerChkpt cfg = 0 then [next - 6] else []

variable (cfg) in
structure Executed (s u : State) : Prop where
  flags : ∀ id, u.flags id = s.flags id ∨ u.flags id = {}
  chk : ∃ f l, Table s.chk.manager none f ∧ u.chk = { s.chk with
    managers := f
    nextIndex := s.chk.nextIndex + cfg.batchSize
    queue := s.chk.queue ++ due cfg (s.chk.nextIndex + cfg.batchSize)
    announced := l }
  rest : u = { s with chk := u.chk, flags := u.flags }

variable (nodeId) in
lemma sendCheckpoints_eq {c : Checkpoint.State} {n : ℕ} (hf : Table g h c.managers) :
    ∃ f l, Table g h f ∧ c.sendCheckpoints cfg nodeId (n + cfg.batchSize - 1) = { c with
      managers := f
      executed := none
      queue := c.queue ++ due cfg (n + cfg.batchSize)
      announced := l } := by
  have hb := cfg.five_le_batch
  have hlast : n + cfg.batchSize - 1 + 1 = n + cfg.batchSize := by omega
  rw [Checkpoint.State.sendCheckpoints, due, hlast]
  split_ifs with hdue
  · have hge : 5 ≤ n + cfg.batchSize - 1 := by
      have hkept := Checkpoint.keptRange_ge cfg
      have hle := Nat.le_of_dvd (by omega) (Nat.dvd_of_mod_eq_zero hdue)
      rw [Checkpoint.txnPerChkpt_eq] at hle
      omega
    have hsub : sub64 (n + cfg.batchSize - 1) 5 = n + cfg.batchSize - 6 := by
      rw [sub64_of_le hge]
      omega
    rw [hsub]
    exact ⟨_, _, hf.getTransactionManager, rfl⟩
  · refine ⟨c.managers, c.announced, hf, ?_⟩
    rw [List.append_nil]

def State.withChk (s : State) (c : Checkpoint.State) : State :=
  { s with chk := c, flags := fun id => if (c.managers id).isSome then s.flags id else {} }

lemma withChk_flags {c : Checkpoint.State} (id : ℕ) : (s.withChk c).flags id = s.flags id ∨ (s.withChk c).flags id = {} := by
  simp only [State.withChk]
  split_ifs
  · exact .inl rfl
  · exact .inr rfl

variable (pc') in
lemma checkpoint_put {e : Checkpoint.Event} {c : Checkpoint.State} {held : List ℕ}
    (hc : Checkpoint.step cfg nodeId { s.chk with managers := f } e = some c) :
    ((s.put f t ⟨pc, held⟩).checkpoint cfg nodeId e).map (fun u => u.goto t pc') =
      some ((s.withChk c).put c.managers t ⟨pc', held⟩) := by
  have hstep : Checkpoint.step cfg nodeId (s.put f t ⟨pc, held⟩).chk e = some c := hc
  simp only [State.checkpoint, hstep, Option.map_some]
  simp [State.put, State.goto, State.withChk]

variable (nodeId) in
lemma AtRest.leads_execute (hs : AtRest s) (hexec : s.chk.executed = none) (hi : i < cfg.totInstances)
    (hfirst : cfg.firstTxn v i = s.chk.nextIndex) (hview : v + 2 ≤ s.view i) :
    ∃ u, Leads cfg nodeId s u ∧ AtRest u ∧ Executed cfg s u := by
  set m : Message := .execute v i with hm
  have hdequeue : step cfg nodeId s (.dequeue .execute m) =
      some (s.put s.chk.managers .execute ⟨.opening m (m.opening cfg), []⟩) := by
    simp only [step, State.dequeue, hm, if_pos (And.intro hi hfirst)]
    simp [State.goto, State.put, hs.threads]
  have hhold : (m.opening cfg).foldlM Op.hold none = some (some (m.last cfg)) := hold_each _ _
  obtain ⟨f₁, hf₁, hopen⟩ := leads_opening cfg nodeId s .execute hs.ready m _ hhold table_self
  -- `inc_next_index`, then `send_checkpoints`.
  set c := { s.chk.execute cfg with managers := f₁ } with hc
  have hexecute : Checkpoint.step cfg nodeId { s.chk with managers := f₁ } .execute = some c := if_pos hexec
  set x := s.withChk c with hx
  have hc₁ : Table s.chk.manager (some (m.last cfg)) c.managers := hf₁
  obtain ⟨f₂, l, hf₂, hsend⟩ := sendCheckpoints_eq nodeId (n := s.chk.nextIndex) hc₁
  set d := { c with
    managers := f₂
    executed := none
    queue := c.queue ++ due cfg (s.chk.nextIndex + cfg.batchSize)
    announced := l } with hd
  have hsent : Checkpoint.step cfg nodeId { x.chk with managers := f₁ } .sendCheckpoints = some d := congrArg some hsend
  have hrun₁ : (s.put f₁ .execute ⟨.opening m [], [m.last cfg]⟩).run cfg nodeId .execute false false =
      some (x.put f₁ .execute ⟨.sending m, [m.last cfg]⟩) := by
    have hp : ((s.put f₁ .execute ⟨.opening m [], [m.last cfg]⟩).threads .execute).pc = .opening (.execute v i) [] := by
      rw [put_threads]
    simp only [State.run, hp]
    exact checkpoint_put (.sending m) hexecute
  set y := x.withChk d with hy
  have hrun₂ : (x.put f₁ .execute ⟨.sending m, [m.last cfg]⟩).run cfg nodeId .execute false false =
      some (y.put f₂ .execute ⟨.closing m (m.closing cfg), [m.last cfg]⟩) := by
    have hp : ((x.put f₁ .execute ⟨.sending m, [m.last cfg]⟩).threads .execute).pc = .sending m := by rw [put_threads]
    simp only [State.run, hp]
    exact checkpoint_put (.closing m (m.closing cfg)) hsent
  obtain ⟨f₃, hf₃, hclose⟩ := leads_closing cfg nodeId y .execute hs.ready m _ (balanced_closing m) hf₂
  have hrun₃ : (y.put f₃ .execute ⟨.closing m [], []⟩).run cfg nodeId .execute false false =
      some (y.put f₃ .execute {}) := by
    have hp : ((y.put f₃ .execute ⟨.closing m [], []⟩).threads .execute).pc = .closing m [] := by rw [put_threads]
    simp only [State.run, hp]
    rw [completed_put, goto_put]
    rfl
  rw [put_idle (show y.threads = fun _ => {} from hs.threads)] at hrun₃
  refine ⟨y.withTable f₃, ?_, ?_, ?_, ?_, rfl⟩
  · exact Leads.cons (e := .dequeue .execute m) ⟨trivial, hview⟩ hdequeue (hopen.trans
      (Leads.run hrun₁ (Leads.run hrun₂ (hclose.trans (Leads.run hrun₃ .start)))))
  · exact hs.withTable rfl rfl hf₃
  · intro id
    rcases withChk_flags (s := x) (c := d) id with h | h
    · rcases withChk_flags (s := s) (c := c) id with h' | h'
      · exact .inl (h.trans h')
      · exact .inr (h.trans h')
    · exact .inr h
  · refine ⟨f₃, l, hf₃, ?_⟩
    show { d with managers := f₃ } = _
    rw [hd, hc, ← hexec]
    rfl

end Slot

section Quiet

variable {c e : ℕ}

variable (cfg nodeId) in
-- The slots below `c` have been served and the batches of those below `e` have run.
structure Quiet (c e : ℕ) (s : State) : Prop where
  rest : AtRest s
  views : ∀ i < cfg.totInstances, c ≤ cfg.slot (s.view i) i ∧ cfg.slot (s.view i) i < c + cfg.totInstances
  next : s.chk.nextIndex = e * cfg.batchSize
  flags : ∀ v i, i < cfg.totInstances → s.view i ≤ v → s.flags (cfg.lastTxn v i) = {}
  arrived : ∀ m ∈ s.arrived, m.view < s.view m.instanceId
  primary : ∀ i < cfg.totInstances, cfg.getViewPrimary (s.nextSendView i) i = nodeId
  sends : ∀ i < cfg.totInstances, s.view i ≤ s.nextSendView i ∧ s.nextSendView i < s.view i + cfg.nodeCnt
  credit : ∀ i, s.incompleteProposalCnt i = 0
  viewed : ∀ i < cfg.totInstances, s.currNewViewed i < cfg.lastTxn (s.view i) i

lemma quiet_init (hnode : nodeId < cfg.nodeCnt) : Quiet cfg nodeId 0 0 (init cfg nodeId) where
  rest := ⟨rfl, rfl, fun _ => rfl⟩
  views := by
    intro i hi
    simpa [init, Config.slot] using hi
  next := by simp [init, Checkpoint.init]
  flags := fun _ _ _ _ => rfl
  arrived := by simp [init]
  primary := fun _ hi => init_primary hnode hi
  sends := fun i _ => ⟨Nat.zero_le _, by simpa [init] using Nat.mod_lt _ cfg.nodeCnt_pos⟩
  credit := fun _ => rfl
  viewed := by
    intro i hi
    have hb := cfg.five_le_batch
    have hlast := cfg.lastTxn_add_one 0 i
    show 0 < cfg.lastTxn 0 i
    omega

lemma slot_succ (v i : ℕ) : cfg.slot (v + 1) i = cfg.slot v i + cfg.totInstances := by
  rw [Config.slot, Config.slot]
  ring

lemma Quiet.slot_eq (h : Quiet cfg nodeId c e s) :
    cfg.slot (s.view (c % cfg.totInstances)) (c % cfg.totInstances) = c := by
  have hi : c % cfg.totInstances < cfg.totInstances := Nat.mod_lt _ cfg.instances_pos
  obtain ⟨hle, hlt⟩ := h.views _ hi
  have hmod := cfg.slot_mod (s.view (c % cfg.totInstances)) hi
  have hdvd : cfg.totInstances ∣ cfg.slot (s.view (c % cfg.totInstances)) (c % cfg.totInstances) - c :=
    (Nat.modEq_iff_dvd' hle).mp hmod.symm
  have hzero := Nat.eq_zero_of_dvd_of_lt hdvd (by omega)
  omega

lemma getViewPrimary_inj {v w i : ℕ} (hle : v ≤ w) (hlt : w < v + cfg.nodeCnt)
    (h : cfg.getViewPrimary v i = cfg.getViewPrimary w i) : w = v := by
  have hdvd : cfg.nodeCnt ∣ w + i - (v + i) := (Nat.modEq_iff_dvd' (by omega)).mp h
  have hzero := Nat.eq_zero_of_dvd_of_lt hdvd (by omega)
  omega

lemma Quiet.advanced {v i : ℕ} (h : Quiet cfg nodeId c e s) (hi : i < cfg.totInstances) (hv : s.view i = v)
    (hslot : cfg.slot v i = c) (hu : AtRest u) (ha : Advanced cfg nodeId s v i u) : Quiet cfg nodeId (c + 1) e u := by
  have hself : u.view i = v + 1 := by rw [ha.view, Function.update_self]
  have hother : ∀ j, j ≠ i → u.view j = s.view j := fun j hj => by rw [ha.view, Function.update_of_ne hj]
  have hmono : ∀ j, s.view j ≤ u.view j := by
    intro j
    by_cases hj : j = i
    · rw [hj, hself, hv]
      exact Nat.le_succ v
    · exact (hother j hj).ge
  have hn := cfg.nodeCnt_pos
  refine ⟨hu, ?_, ?_, ?_, ?_, ?_, ?_, ?_, ?_⟩
  · intro j hj
    by_cases hji : j = i
    · rw [hji, hself, slot_succ, hslot]
      have hpos := cfg.instances_pos
      omega
    · rw [hother j hji]
      have hne : cfg.slot (s.view j) j ≠ c := fun heq => hji (cfg.slot_inj hj hi (heq.trans hslot.symm)).2
      have hviews := h.views j hj
      omega
  · obtain ⟨f, -, hchk⟩ := ha.chk
    rw [hchk]
    exact h.next
  · intro w j hj hle
    have hne : cfg.lastTxn w j ≠ cfg.lastTxn v i := by
      intro heq
      obtain ⟨rfl, rfl⟩ := cfg.lastTxn_inj hj hi heq
      omega
    rw [ha.flags, Function.update_of_ne hne]
    exact h.flags w j hj ((hmono j).trans hle)
  · intro m hm
    rcases ha.arrived m hm with hm | ⟨hmv, hmi⟩
    · exact (h.arrived m hm).trans_le (hmono _)
    · rw [hmv, hmi, hself]
      exact Nat.lt_succ_self v
  · intro j hj
    rw [ha.nextSendView]
    split_ifs with hown
    · by_cases hji : j = i
      · rw [hji, Function.update_self, ← hown, Config.getViewPrimary, Nat.add_right_comm, Nat.add_mod_right,
          Config.getViewPrimary]
      · rw [Function.update_of_ne hji]
        exact h.primary j hj
    · exact h.primary j hj
  · intro j hj
    rw [ha.nextSendView]
    have hsends := h.sends j hj
    by_cases hji : j = i
    · subst hji
      rw [hself]
      split_ifs with hown
      · rw [Function.update_self]
        omega
      · have hne : s.nextSendView j ≠ v := fun heq => hown (heq ▸ h.primary j hj)
        omega
    · rw [hother j hji]
      split_ifs with hown
      · rwa [Function.update_of_ne hji]
      · exact hsends
  · rw [ha.incompleteProposalCnt]
    exact h.credit
  · intro j hj
    rw [ha.currNewViewed]
    by_cases hji : j = i
    · rw [hji, Function.update_self, hself, cfg.lastTxn_succ]
      exact Nat.lt_add_of_pos_right (Nat.mul_pos cfg.instances_pos cfg.batchSize_pos)
    · rw [Function.update_of_ne hji, hother j hji]
      exact h.viewed j hj

lemma Quiet.serve (h : Quiet cfg nodeId c e s) (he : e ≤ c) :
    ∃ u, Leads cfg nodeId s u ∧ Quiet cfg nodeId (c + 1) e u ∧
      ∃ f, Table s.chk.manager none f ∧ u.chk = { s.chk with managers := f } := by
  set i := c % cfg.totInstances with hi
  have hlt : i < cfg.totInstances := Nat.mod_lt _ cfg.instances_pos
  have hslot := h.slot_eq
  have hnext : s.chk.nextIndex + 2 < cfg.lastTxn (s.view i) i := by
    have hb := cfg.five_le_batch
    have hlast := cfg.lastTxn_add_one (s.view i) i
    rw [Config.firstTxn, hslot] at hlast
    have hle : e * cfg.batchSize ≤ c * cfg.batchSize := Nat.mul_le_mul_right _ he
    rw [h.next]
    omega
  have hflags := h.flags (s.view i) i hlt le_rfl
  have hcertify : ∃ u, Leads cfg nodeId s u ∧ AtRest u ∧ Certified cfg nodeId s (s.view i) i u := by
    by_cases hown : cfg.getViewPrimary (s.view i) i = nodeId
    · have hsends := h.sends i hlt
      have hsend := getViewPrimary_inj hsends.1 hsends.2 (hown.trans (h.primary i hlt).symm)
      exact h.rest.certify_own hlt rfl hown hsend (h.credit i) hflags hnext
    · exact h.rest.certify_foreign hlt rfl hown hflags h.arrived hnext
  obtain ⟨u, hu, hrest, hc⟩ := hcertify
  obtain ⟨w, hw, hrest', ha⟩ := hrest.advance hlt hc rfl (h.viewed i hlt)
  exact ⟨w, hu.trans hw, h.advanced hlt rfl hslot hrest' ha, ha.chk⟩

lemma Quiet.beside {e' : ℕ} (h : Quiet cfg nodeId c e s) (hrest : AtRest u)
    (hsame : u = { s with chk := u.chk, flags := u.flags }) (hflags : ∀ id, u.flags id = s.flags id ∨ u.flags id = {})
    (hnext : u.chk.nextIndex = e' * cfg.batchSize) : Quiet cfg nodeId c e' u := by
  refine ⟨hrest, ?_, hnext, ?_, ?_, ?_, ?_, ?_, ?_⟩
  · rw [hsame]
    exact h.views
  · intro w j hj hle
    have hle : s.view j ≤ w := by rwa [hsame] at hle
    rcases hflags (cfg.lastTxn w j) with heq | heq
    · rw [heq]
      exact h.flags w j hj hle
    · exact heq
  all_goals rw [hsame]
  · exact h.arrived
  · exact h.primary
  · exact h.sends
  · exact h.credit
  · exact h.viewed

lemma Quiet.execute (h : Quiet cfg nodeId c e s) (hexec : s.chk.executed = none) (he : e + cfg.totInstances < c) :
    ∃ u, Leads cfg nodeId s u ∧ Quiet cfg nodeId c (e + 1) u ∧ Executed cfg s u := by
  set i := e % cfg.totInstances with hi
  set v := e / cfg.totInstances with hv
  have hlt : i < cfg.totInstances := Nat.mod_lt _ cfg.instances_pos
  have hslot : cfg.slot v i = e := by
    rw [Config.slot, Nat.mul_comm]
    exact Nat.div_add_mod e cfg.totInstances
  have hview : v + 2 ≤ s.view i := by
    by_contra hlt'
    have hle : cfg.slot (s.view i) i ≤ cfg.slot (v + 1) i :=
      Nat.add_le_add_right (Nat.mul_le_mul_right _ (by omega)) _
    rw [slot_succ, hslot] at hle
    have hviews := (h.views i hlt).1
    omega
  have hfirst : cfg.firstTxn v i = s.chk.nextIndex := by rw [Config.firstTxn, hslot, h.next]
  obtain ⟨u, hu, hrest, hx⟩ := h.rest.leads_execute nodeId hexec hlt hfirst hview
  refine ⟨u, hu, h.beside hrest hx.rest hx.flags ?_, hx⟩
  obtain ⟨f, l, -, hchk⟩ := hx.chk
  rw [hchk, h.next]
  exact (Nat.succ_mul e cfg.batchSize).symm

lemma leads_threads {d : Checkpoint.State} (h : Checkpoint.Threads cfg s.chk d) :
    ∃ u, Leads cfg nodeId s u ∧ u.chk = d ∧ (∀ id, u.flags id = s.flags id ∨ u.flags id = {}) ∧
      u = { s with chk := u.chk, flags := u.flags } := by
  induction h with
  | start => exact ⟨s, .start, rfl, fun _ => .inl rfl, rfl⟩
  | @next d d' t _ _ hs ih =>
    obtain ⟨u, hu, rfl, hflags, hsame⟩ := ih
    have hstep : step cfg nodeId u (.checkpoint t) = some (u.withChk d') := by
      have hs : Checkpoint.step cfg nodeId u.chk (.thread t) = some d' := hs
      simp only [step, State.checkpoint, hs, Option.map_some, State.withChk]
    have hnext := Leads.cons (e := .checkpoint t) ⟨trivial, trivial⟩ hstep .start
    refine ⟨u.withChk d', hu.trans hnext, rfl, fun id => ?_, ?_⟩
    · rcases withChk_flags (s := u) (c := d') id with h | h
      · rw [h]
        exact hflags id
      · exact .inr h
    · rw [State.withChk, hsame]

lemma Quiet.threads {d : Checkpoint.State} (h : Quiet cfg nodeId c e s) (hd : Checkpoint.Threads cfg s.chk d)
    (hready : ∀ k, (d.manager k).txnReady = true) (hnext : d.nextIndex = s.chk.nextIndex) :
    ∃ u, Leads cfg nodeId s u ∧ Quiet cfg nodeId c e u ∧ u.chk = d := by
  obtain ⟨u, hu, rfl, hflags, hsame⟩ := leads_threads hd
  refine ⟨u, hu, h.beside ⟨?_, ?_, hready⟩ hsame hflags (hnext.trans h.next), rfl⟩
  · rw [hsame]
    exact h.rest.threads
  · rw [hsame]
    exact h.rest.inbox

variable {p : Checkpoint.Pc} {n : ℕ}

lemma calm_of_table {d d' : Checkpoint.State} {l l' : List ℕ} (h : Checkpoint.Calm d p l n)
    (hf : Table d.manager none f) (hq : d'.queue = l') (hmanagers : d'.managers = f) (hrest : d' = { d with
      managers := d'.managers
      nextIndex := d'.nextIndex
      queue := d'.queue
      announced := d'.announced }) : Checkpoint.Calm d' p l' n := by
  have hmanager : ∀ k, d'.manager k = d.manager k := fun k => by
    rw [Checkpoint.State.manager, hmanagers]
    exact hf k
  refine ⟨?_, ?_, ?_, hq, ?_, ?_, ?_, ?_, ?_, ?_⟩
  · rw [hrest]
    exact h.executed
  · rw [hrest]
    exact h.own
  · rw [hrest]
    exact h.other
  · rw [hrest]
    exact h.stable
  · rw [hrest]
    exact h.holding
  · rw [hrest]
    exact h.unheld
  · rw [hrest]
    exact h.stalled
  · intro k
    rw [hmanager]
    exact h.ready k
  · intro k hk
    rw [hmanager]
    exact h.fresh k hk

variable (cfg nodeId) in
-- A batch lags a whole round and one slot behind the slots that are served.
structure Paced (e : ℕ) (p : Checkpoint.Pc) (l : List ℕ) (n : ℕ) (s : State) : Prop where
  quiet : Quiet cfg nodeId (e + cfg.totInstances + 1) e s
  calm : Checkpoint.Calm s.chk p l n

lemma Quiet.serve_calm {l : List ℕ} (h : Quiet cfg nodeId c e s) (hcalm : Checkpoint.Calm s.chk p l n) (he : e ≤ c) :
    ∃ u, Leads cfg nodeId s u ∧ Quiet cfg nodeId (c + 1) e u ∧ Checkpoint.Calm u.chk p l n := by
  obtain ⟨u, hu, hquiet, f, hf, hchk⟩ := h.serve he
  have hq : u.chk.queue = l := by
    rw [hchk]
    exact hcalm.queue
  have hcalm' : Checkpoint.Calm u.chk p l n := calm_of_table hcalm hf hq (by rw [hchk]) (by rw [hchk])
  exact ⟨u, hu, hquiet, hcalm'⟩

lemma exists_paced (hnode : nodeId < cfg.nodeCnt) :
    ∃ s, Leads cfg nodeId (init cfg nodeId) s ∧ Paced cfg nodeId 0 .idle [] 0 s := by
  have hserve : ∀ k, ∃ s, Leads cfg nodeId (init cfg nodeId) s ∧ Quiet cfg nodeId k 0 s ∧
      Checkpoint.Calm s.chk .idle [] 0 := by
    intro k
    induction k with
    | zero => exact ⟨_, .start, quiet_init hnode, rfl, rfl, rfl, rfl, rfl, rfl, rfl, rfl, fun _ => rfl, fun _ _ => rfl⟩
    | succ k ih =>
      obtain ⟨s, hs, hquiet, hcalm⟩ := ih
      obtain ⟨u, hu, hquiet', hcalm'⟩ := hquiet.serve_calm hcalm (Nat.zero_le k)
      exact ⟨u, hs.trans hu, hquiet', hcalm'⟩
  obtain ⟨s, hs, hquiet, hcalm⟩ := hserve (0 + cfg.totInstances + 1)
  exact ⟨s, hs, hquiet, hcalm⟩

lemma Paced.execute (h : Paced cfg nodeId e p [] n s) :
    ∃ u, Leads cfg nodeId s u ∧ Quiet cfg nodeId (e + cfg.totInstances + 1) (e + 1) u ∧
      Checkpoint.Calm u.chk p (due cfg ((e + 1) * cfg.batchSize)) n := by
  obtain ⟨u, hu, hquiet, hx⟩ := h.quiet.execute h.calm.executed (by omega)
  obtain ⟨f, l, hf, hchk⟩ := hx.chk
  have hq : u.chk.queue = due cfg ((e + 1) * cfg.batchSize) := by
    rw [hchk, Nat.succ_mul, ← h.quiet.next]
    exact congrArg (· ++ _) h.calm.queue
  have hcalm : Checkpoint.Calm u.chk p (due cfg ((e + 1) * cfg.batchSize)) n :=
    calm_of_table h.calm hf hq (by rw [hchk]) (by rw [hchk])
  exact ⟨u, hu, hquiet, hcalm⟩

lemma Quiet.paced {l : List ℕ} (h : Quiet cfg nodeId (e + cfg.totInstances + 1) (e + 1) s)
    (hcalm : Checkpoint.Calm s.chk p l n) : ∃ u, Leads cfg nodeId s u ∧ Paced cfg nodeId (e + 1) p l n u := by
  obtain ⟨u, hu, hquiet, hcalm'⟩ := h.serve_calm hcalm (by omega)
  refine ⟨u, hu, ?_, hcalm'⟩
  have hsum : e + 1 + cfg.totInstances + 1 = e + cfg.totInstances + 1 + 1 := by omega
  rwa [hsum]

lemma Paced.skip (h : Paced cfg nodeId e p [] n s) (k : ℕ)
    (hk : ∀ j < k, (e + j + 1) * cfg.batchSize % Checkpoint.txnPerChkpt cfg ≠ 0) :
    ∃ u, Leads cfg nodeId s u ∧ Paced cfg nodeId (e + k) p [] n u := by
  induction k with
  | zero => exact ⟨s, .start, h⟩
  | succ k ih =>
    obtain ⟨u, hu, hpaced⟩ := ih fun j hj => hk j (Nat.lt_succ_of_lt hj)
    obtain ⟨v, hv, hquiet, hcalm⟩ := hpaced.execute
    rw [due, if_neg (hk k (Nat.lt_succ_self k))] at hcalm
    obtain ⟨w, hw, hpaced'⟩ := hquiet.paced hcalm
    exact ⟨w, (hu.trans hv).trans hw, hpaced'⟩

lemma delRange_pos {k : ℕ} (hk : 0 < k) (hdue : k % Checkpoint.txnPerChkpt cfg = 0) :
    0 < Checkpoint.delRange cfg (k - 6) := by
  have hkept := Checkpoint.keptRange_ge cfg
  have hle := Nat.le_of_dvd hk (Nat.dvd_of_mod_eq_zero hdue)
  rw [Checkpoint.txnPerChkpt_eq] at hle
  rw [Checkpoint.delRange, sub64_of_le (by omega)]
  omega

lemma exists_paced_handled (hnode : nodeId < cfg.nodeCnt) (e : ℕ) (he : e * cfg.batchSize ≤ 2 ^ 32) :
    ∃ s n, Leads cfg nodeId (init cfg nodeId) s ∧ Paced cfg nodeId e .idle [] n s ∧ n ≤ e * cfg.batchSize - 6 := by
  induction e with
  | zero =>
    obtain ⟨s, hs, hpaced⟩ := exists_paced hnode
    exact ⟨s, 0, hs, hpaced, Nat.zero_le _⟩
  | succ e ih =>
    have hb := cfg.five_le_batch
    rw [Nat.succ_mul] at he
    obtain ⟨s, n, hs, hpaced, hn⟩ := ih (by omega)
    obtain ⟨u, hu, hquiet, hcalm⟩ := hpaced.execute
    have hsucc : (e + 1) * cfg.batchSize = e * cfg.batchSize + cfg.batchSize := Nat.succ_mul e cfg.batchSize
    by_cases hdue : (e + 1) * cfg.batchSize % Checkpoint.txnPerChkpt cfg = 0
    · rw [due, if_pos hdue] at hcalm
      have hpos := delRange_pos (by omega) hdue
      have hge : 80 ≤ (e + 1) * cfg.batchSize := by
        have hkept := Checkpoint.keptRange_ge cfg
        have hle := Nat.le_of_dvd (by omega) (Nat.dvd_of_mod_eq_zero hdue)
        rw [Checkpoint.txnPerChkpt_eq] at hle
        omega
      obtain ⟨d, hd, hcalm', hnext⟩ := hcalm.sweep (by omega) (by omega) hpos
      obtain ⟨v, hv, hquiet', rfl⟩ := hquiet.threads hd hcalm'.ready hnext
      obtain ⟨w, hw, hpaced'⟩ := hquiet'.paced hcalm'
      exact ⟨w, _, ((hs.trans hu).trans hv).trans hw, hpaced', le_rfl⟩
    · rw [due, if_neg hdue] at hcalm
      obtain ⟨w, hw, hpaced'⟩ := hquiet.paced hcalm
      exact ⟨w, n, (hs.trans hu).trans hw, hpaced', by omega⟩

end Quiet

-- With 4 replicas and batches of 100 the checkpoint 4294963194 is the last one that fits, and the one after it wraps to
-- 8698. One thread has popped the former when the other thread handles the latter.
theorem latch_lost_past_32_bits :
    ∃ s, Reach (step .deployed 0) (fun s e => Faultless .deployed 0 s e ∧ Passed s e) (init .deployed 0) s ∧
      ¬ LatchesBalanced s := by
  have hdue : due .deployed ((42949631 + 1) * Config.deployed.batchSize) = [4294963194] := by decide
  have hdue' : due .deployed ((42949631 + 1 + 127 + 1) * Config.deployed.batchSize) = [4294975994] := by decide
  have hskip : ∀ j < 127, (42949631 + 1 + j + 1) * Config.deployed.batchSize % Checkpoint.txnPerChkpt .deployed ≠ 0 := by
    decide
  have hnode : 0 < Config.deployed.nodeCnt := by decide
  have hfits : 42949631 * Config.deployed.batchSize ≤ 2 ^ 32 := by decide
  have hin : 4294963194 < Checkpoint.delRange .deployed 4294975994 := by decide
  have hdel : Checkpoint.delRange .deployed 4294963194 ≤ Checkpoint.delRange .deployed 4294975994 := by decide
  have hle : Checkpoint.delRange .deployed 4294975994 ≤ 4294975994 := by decide
  obtain ⟨s₁, n, h₁, hpaced, hn⟩ := exists_paced_handled hnode 42949631 hfits
  have hn : n < 4294963194 := lt_of_le_of_lt hn (by decide)
  obtain ⟨s₂, h₂, hquiet, hcalm⟩ := hpaced.execute
  rw [hdue] at hcalm
  obtain ⟨d, hd, hcalm, hnext⟩ := hcalm.pop
  obtain ⟨s₃, h₃, hquiet, rfl⟩ := hquiet.threads hd hcalm.ready hnext
  obtain ⟨s₄, h₄, hpaced⟩ := hquiet.paced hcalm
  obtain ⟨s₅, h₅, hpaced⟩ := hpaced.skip 127 hskip
  obtain ⟨s₆, h₆, hquiet, hcalm⟩ := hpaced.execute
  rw [hdue'] at hcalm
  obtain ⟨d, hd, hfinished, hready⟩ := hcalm.lose hn (by decide) (by decide) (by decide) hin hdel hle
  obtain ⟨s₇, h₇, rfl, -, -⟩ := leads_threads hd
  refine ⟨s₇, (((((h₁.trans h₂).trans h₃).trans h₄).trans h₅).trans h₆).trans h₇, fun hbalanced => ?_⟩
  exact absurd (hbalanced.finished true _ hfinished) (by simp [Unavailable, hready])

end SpotLess.RunLoop
