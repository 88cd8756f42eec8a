import SpotLess.RunLoop

/-! What the threads of the run loop work on when no replica is faulty: every message of a slot is handled once, and
no thread still has a latch operation to come on a batch that has run. -/

namespace SpotLess.RunLoop

open Lib

variable (cfg : Config) (nodeId : ℕ)

namespace State

def pc (s : State) (t : Thd) : Pc := (s.threads t).pc

variable {s : State} {t : Thd} {pc : Pc} {held : List ℕ} {id : ℕ}

@[simp] lemma goto_pc : (s.goto t pc).pc = Function.update s.pc t pc := by
  funext v
  by_cases hv : v = t
  · subst hv
    simp [State.pc, goto]
  · simp [State.pc, goto, hv]

@[simp] lemma setHeld_pc : (s.setHeld t held).pc = s.pc := by
  funext v
  by_cases hv : v = t
  · subst hv
    simp [State.pc, setHeld]
  · simp [State.pc, setHeld, hv]

@[simp] lemma unsetReady_pc : (s.unsetReady t id).pc = s.pc := setHeld_pc

@[simp] lemma setReady_pc : (s.setReady t id).pc = s.pc := setHeld_pc

end State

namespace Message

variable (m : Message)

def Foreign : Prop :=
  match m with
  | .generic _ _ | .proposal _ _ => True
  | _ => False

def Own : Prop :=
  match m with
  | .genericP _ _ | .clBatch _ _ => True
  | _ => False

def Once : Prop := m.Foreign ∨ m.Own

-- The messages that come through a queue, not the ones the proposal and execute threads make up.
def Queued : Prop :=
  match m with
  | .clBatch _ _ | .execute _ _ => False
  | _ => True

structure Valid : Prop where
  instanceId : m.instanceId < cfg.totInstances
  foreign : m.Foreign → cfg.getViewPrimary m.view m.instanceId ≠ nodeId
  own : m.Own → cfg.getViewPrimary m.view m.instanceId = nodeId

def Assigned : Thd → Prop
  | .worker w => m.ForWorker cfg w
  | .proposal => ∃ v i, m = .clBatch v i
  | .generic => ∃ v i, m = .genericP v i
  | .execute => ∃ v i, m = .execute v i

-- How the view of the instance stands to that of the message before and after it is handled.
def Reached (s : State) : Prop :=
  match m with
  | .generic v i => v ≤ s.view i
  | _ => True

def Ahead (s : State) : Prop :=
  match m with
  | .sync v i => s.view i ≤ v
  | _ => True

def Recent (s : State) : Prop :=
  match m with
  | .sync v i | .generic v i | .proposal v i => s.view i ≤ v + 1
  | .genericP v i | .clBatch v i => s.view i ≤ v
  | .execute _ _ => True

def Runs (s : State) : Prop :=
  match m with
  | .execute v i => s.chk.nextIndex = cfg.firstTxn v i ∧ v + 2 ≤ s.view i
  | _ => True

def Ran (s : State) : Prop :=
  match m with
  | .execute v i => s.chk.nextIndex = cfg.lastTxn v i + 1
  | _ => True

def Within (ops : List (Op ℕ)) : Prop := ∀ op ∈ ops, op.key ∈ cfg.slotTxns m.view m.instanceId

end Message

namespace Pc

def message : Pc → Option Message
  | .idle => none
  | .taken m | .admitted m | .opening m _ | .sending m | .closing m _ => some m

def awaits : Pc → Option Message
  | .taken m | .admitted m | .opening m _ => some m
  | .idle | .sending _ | .closing _ _ => none

def rest : Pc → List (Op ℕ)
  | .opening m ops => ops ++ m.closing cfg
  | .sending m => m.closing cfg
  | .closing _ ops => ops
  | .idle | .taken _ | .admitted _ => []

def Stage (s : State) : Pc → Prop
  | .idle => True
  | .taken m => m.Reached s ∧ m.Queued
  | .admitted m => m.Reached s ∧ m.Ahead s ∧ m.Queued
  | .opening m ops => m.Reached s ∧ m.Ahead s ∧ m.Runs cfg s ∧ m.Within cfg ops
  | .sending m => (∃ v i, m = .execute v i) ∧ m.Ran cfg s
  | .closing m ops => (ops ≠ [] → m.Recent s) ∧ m.Ran cfg s ∧ ops <:+ m.closing cfg

end Pc

namespace State

variable (s : State)

def Outstanding (m : Message) : Prop := m ∈ s.inbox ∨ ∃ t, (s.pc t).awaits = some m

def ProposalDone (v i : ℕ) : Prop := .proposal v i ∈ s.handled ∨ .clBatch v i ∈ s.handled

def GenericDone (v i : ℕ) : Prop := .generic v i ∈ s.handled ∨ .genericP v i ∈ s.handled

structure Due (i : ℕ) : Prop where
  own : cfg.getViewPrimary (s.lastSentView i) i = nodeId
  lt : s.lastSentView i < s.nextSendView i
  le : s.lastSentView i ≤ s.view i
  fresh : .genericP (s.lastSentView i) i ∉ s.handled
  formed : ¬ s.Outstanding (.genericP (s.lastSentView i) i)

end State

structure Slots (s : State) : Prop where
  inbox : ∀ m ∈ s.inbox, m.Valid cfg nodeId
  threads : ∀ t m, (s.pc t).message = some m → m.Valid cfg nodeId ∧ m.Assigned cfg t
  handled : ∀ m ∈ s.handled, m.Valid cfg nodeId
  fresh : ∀ m, s.Outstanding m → m.Once → m ∉ s.handled
  alone : ∀ t m, (s.pc t).awaits = some m → m.Once → m ∉ s.inbox ∧ ∀ u, (s.pc u).awaits = some m → u = t
  arrived : ∀ m, s.Outstanding m ∨ m ∈ s.handled → m.Foreign → m ∈ s.arrived
  sent : ∀ m, s.Outstanding m ∨ m ∈ s.handled → m.Own → m.view < s.nextSendView m.instanceId
  proposalFlag : ∀ v i, i < cfg.totInstances → (s.flags (cfg.lastTxn v i)).proposalReceived = true → s.ProposalDone v i
  genericFlag : ∀ v i, i < cfg.totInstances → (s.flags (cfg.lastTxn v i)).genericReceived = true →
    s.GenericDone v i ∧ v ≤ s.view i
  passed : ∀ v i, i < cfg.totInstances → v < s.view i → s.ProposalDone v i ∧ s.GenericDone v i
  primary : ∀ i < cfg.totInstances, cfg.getViewPrimary (s.nextSendView i) i = nodeId
  credit : ∀ i < cfg.totInstances, s.incompleteProposalCnt i ≠ 0 →
    s.incompleteProposalCnt i = 1 ∧ s.Due cfg nodeId i ∧ ∀ v, (s.pc .proposal).message ≠ some (.clBatch v i)
  making : ∀ v i, (s.pc .proposal).message = some (.clBatch v i) →
    s.lastSentView i = v ∧ s.incompleteProposalCnt i = 0 ∧ s.Due cfg nodeId i
  formed : ∀ v i, s.Outstanding (.genericP v i) → v ≤ s.view i
  stages : ∀ t, (s.pc t).Stage cfg s
  next : ∀ i < cfg.totInstances, s.chk.nextIndex ≤ cfg.firstTxn (s.view i - 1) i

structure Latches (s : State) : Prop where
  custody : Custody (Unavailable s.chk) (Holds s)
  sound : ∀ t, ∃ h : Option ℕ, (s.threads t).held = h.toList ∧ Balanced h ((s.pc t).rest cfg)

variable {cfg nodeId} {s s' u : State} {t : Thd} {m : Message} {id k : ℕ} {pc : Pc}

lemma init_primary (hnode : nodeId < cfg.nodeCnt) {i : ℕ} (hi : i < cfg.totInstances) :
    cfg.getViewPrimary ((cfg.nodeCnt + nodeId - i) % cfg.nodeCnt) i = nodeId := by
  have hle := cfg.instances_le
  have hsum : cfg.nodeCnt + nodeId - i + i = nodeId + cfg.nodeCnt := by omega
  rw [Config.getViewPrimary, Nat.mod_add_mod, hsum, Nat.add_mod_right, Nat.mod_eq_of_lt hnode]

lemma slots_init (hnode : nodeId < cfg.nodeCnt) : Slots cfg nodeId (init cfg nodeId) where
  inbox := by simp [init]
  threads := by simp [init, State.pc, Pc.message]
  handled := by simp [init]
  fresh := by simp [init]
  alone := by simp [init, State.pc, Pc.awaits]
  arrived := by simp [init, State.Outstanding, State.pc, Pc.awaits]
  sent := by simp [init, State.Outstanding, State.pc, Pc.awaits]
  proposalFlag := by simp [init]
  genericFlag := by simp [init]
  passed := by simp [init]
  primary := fun _ hi => init_primary hnode hi
  credit := by simp [init]
  making := by simp [init, State.pc, Pc.message]
  formed := by simp [init, State.Outstanding, State.pc, Pc.awaits]
  stages := fun _ => trivial
  next := by simp [init, Checkpoint.init]

lemma latches_init : Latches cfg (init cfg nodeId) where
  custody := by
    refine ⟨?_, ?_, ?_⟩
    · rintro (t | c) id h
      · simp [Holds, init] at h
      · simp [Holds, init, Checkpoint.init, Checkpoint.Pc.acquires] at h
    · rintro (t | c) y id h
      · simp [Holds, init] at h
      · simp [Holds, init, Checkpoint.init, Checkpoint.Pc.acquires] at h
    · intro id h
      simp [Unavailable, init, Checkpoint.init, Checkpoint.State.manager] at h
  sound := fun _ => ⟨none, rfl, balanced_nil.mpr rfl⟩

namespace Slots

lemma view_le (h : Slots cfg nodeId s) (hout : s.Outstanding m) (honce : m.Once) : s.view m.instanceId ≤ m.view := by
  have hvalid : m.Valid cfg nodeId := by
    rcases hout with hin | ⟨t, ht⟩
    · exact h.inbox m hin
    · refine (h.threads t m ?_).1
      revert ht
      cases s.pc t <;> simp [Pc.awaits, Pc.message]
  have hfresh := h.fresh m hout honce
  by_contra hlt
  obtain ⟨hprop, hgen⟩ := h.passed m.view m.instanceId hvalid.instanceId (not_le.mp hlt)
  cases m with
  | sync v i => exact absurd honce (by simp [Message.Once, Message.Foreign, Message.Own])
  | execute v i => exact absurd honce (by simp [Message.Once, Message.Foreign, Message.Own])
  | generic v i =>
    rcases hgen with hg | hg
    · exact hfresh hg
    · exact hvalid.foreign trivial ((h.handled _ hg).own trivial)
  | proposal v i =>
    rcases hprop with hg | hg
    · exact hfresh hg
    · exact hvalid.foreign trivial ((h.handled _ hg).own trivial)
  | genericP v i =>
    rcases hgen with hg | hg
    · exact (h.handled _ hg).foreign trivial (hvalid.own trivial)
    · exact hfresh hg
  | clBatch v i =>
    rcases hprop with hg | hg
    · exact (h.handled _ hg).foreign trivial (hvalid.own trivial)
    · exact hfresh hg

end Slots

structure Same (s u : State) : Prop where
  view : u.view = s.view
  nextSendView : u.nextSendView = s.nextSendView
  lastSentView : u.lastSentView = s.lastSentView
  incompleteProposalCnt : u.incompleteProposalCnt = s.incompleteProposalCnt
  proposalReceived : ∀ id, (u.flags id).proposalReceived = true → (s.flags id).proposalReceived = true
  genericReceived : ∀ id, (u.flags id).genericReceived = true → (s.flags id).genericReceived = true
  inbox : u.inbox = s.inbox
  arrived : u.arrived = s.arrived
  handled : u.handled = s.handled

lemma same_goto : Same s (s.goto t pc) :=
  ⟨rfl, rfl, rfl, rfl, fun _ hf => hf, fun _ hf => hf, rfl, rfl, rfl⟩

lemma Pc.Stage.congr (h : pc.Stage cfg s) (hview : u.view = s.view) (hnext : u.chk.nextIndex = s.chk.nextIndex) :
    pc.Stage cfg u := by
  cases pc with
  | idle => trivial
  | taken m | admitted m | opening m ops | sending m | closing m ops =>
    simp only [Pc.Stage, Message.Reached, Message.Ahead, Message.Runs, Message.Ran, Message.Recent, hview, hnext]
    exact h

lemma message_of_update {f : Thd → Pc} {v : Thd} (hmsg : ∀ m, pc.message = some m → (f t).message = some m)
    (h : (Function.update f t pc v).message = some m) : (f v).message = some m := by
  by_cases hv : v = t
  · subst hv
    rw [Function.update_self] at h
    exact hmsg m h
  · rwa [Function.update_of_ne hv] at h

lemma awaits_of_update {f : Thd → Pc} {v : Thd} (hawait : ∀ m, pc.awaits = some m → (f t).awaits = some m)
    (h : (Function.update f t pc v).awaits = some m) : (f v).awaits = some m := by
  by_cases hv : v = t
  · subst hv
    rw [Function.update_self] at h
    exact hawait m h
  · rwa [Function.update_of_ne hv] at h

lemma State.Due.mono {i : ℕ} (h : s.Due cfg nodeId i) (hsend : u.nextSendView = s.nextSendView)
    (hlast : u.lastSentView = s.lastSentView) (hview : ∀ i, s.view i ≤ u.view i)
    (hfresh : .genericP (s.lastSentView i) i ∈ u.handled → .genericP (s.lastSentView i) i ∈ s.handled)
    (hout : u.Outstanding (.genericP (s.lastSentView i) i) → s.Outstanding (.genericP (s.lastSentView i) i)) :
    u.Due cfg nodeId i := by
  refine ⟨?_, ?_, ?_, ?_, ?_⟩
  · rw [hlast]
    exact h.own
  · rw [hlast, hsend]
    exact h.lt
  · rw [hlast]
    exact h.le.trans (hview i)
  · rw [hlast]
    exact fun hh => h.fresh (hfresh hh)
  · rw [hlast]
    exact fun ho => h.formed (hout ho)

lemma Slots.moveTo {pc' : Pc} (h : Slots cfg nodeId s) (hsame : Same s u) (hpc : u.pc = Function.update s.pc t pc')
    (hmsg : ∀ m, pc'.message = some m → (s.pc t).message = some m)
    (hawait : ∀ m, pc'.awaits = some m → (s.pc t).awaits = some m) (hstage : pc'.Stage cfg u)
    (hother : ∀ x, x ≠ t → (s.pc x).Stage cfg u)
    (hnext : ∀ i < cfg.totInstances, u.chk.nextIndex ≤ cfg.firstTxn (u.view i - 1) i) : Slots cfg nodeId u := by
  have hmessage : ∀ v m, (u.pc v).message = some m → (s.pc v).message = some m := by
    intro v m hm
    rw [hpc] at hm
    exact message_of_update hmsg hm
  have hawaits : ∀ v m, (u.pc v).awaits = some m → (s.pc v).awaits = some m := by
    intro v m hm
    rw [hpc] at hm
    exact awaits_of_update hawait hm
  have hout : ∀ m, u.Outstanding m → s.Outstanding m := by
    rintro m (hm | ⟨v, hv⟩)
    · exact .inl (hsame.inbox ▸ hm)
    · exact .inr ⟨v, hawaits v m hv⟩
  have hdue : ∀ i, s.Due cfg nodeId i → u.Due cfg nodeId i := fun i hd =>
    hd.mono hsame.nextSendView hsame.lastSentView (fun i => (congrFun hsame.view i).ge) (fun hh => hsame.handled ▸ hh)
      (hout _)
  refine ⟨?_, ?_, ?_, ?_, ?_, ?_, ?_, ?_, ?_, ?_, ?_, ?_, ?_, ?_, ?_, ?_⟩
  · rw [hsame.inbox]
    exact h.inbox
  · exact fun v m hm => h.threads v m (hmessage v m hm)
  · rw [hsame.handled]
    exact h.handled
  · rw [hsame.handled]
    exact fun m hm => h.fresh m (hout m hm)
  · intro v m hm honce
    rw [hsame.inbox]
    obtain ⟨hin, huniq⟩ := h.alone v m (hawaits v m hm) honce
    exact ⟨hin, fun w hw => huniq w (hawaits w m hw)⟩
  · rw [hsame.handled, hsame.arrived]
    exact fun m hm => h.arrived m (hm.imp_left (hout m))
  · rw [hsame.handled, hsame.nextSendView]
    exact fun m hm => h.sent m (hm.imp_left (hout m))
  · intro v i hi hflag
    rw [State.ProposalDone, hsame.handled]
    exact h.proposalFlag v i hi (hsame.proposalReceived _ hflag)
  · intro v i hi hflag
    rw [State.GenericDone, hsame.handled, hsame.view]
    exact h.genericFlag v i hi (hsame.genericReceived _ hflag)
  · intro v i hi hlt
    rw [State.ProposalDone, State.GenericDone, hsame.handled]
    exact h.passed v i hi (hsame.view ▸ hlt)
  · rw [hsame.nextSendView]
    exact h.primary
  · intro i hi hne
    rw [hsame.incompleteProposalCnt] at hne ⊢
    obtain ⟨hone, hd, hno⟩ := h.credit i hi hne
    exact ⟨hone, hdue i hd, fun v hv => hno v (hmessage .proposal _ hv)⟩
  · intro v i hm
    rw [hsame.lastSentView, hsame.incompleteProposalCnt]
    obtain ⟨hlast, hzero, hd⟩ := h.making v i (hmessage .proposal _ hm)
    exact ⟨hlast, hzero, hdue i hd⟩
  · rw [hsame.view]
    exact fun v i ho => h.formed v i (hout _ ho)
  · intro v
    rw [hpc]
    by_cases hv : v = t
    · subst hv
      rw [Function.update_self]
      exact hstage
    · rw [Function.update_of_ne hv]
      exact hother v hv
  · exact hnext

lemma Slots.move {pc' : Pc} (h : Slots cfg nodeId s) (hsame : Same s u) (hnext : u.chk.nextIndex = s.chk.nextIndex)
    (hpc : u.pc = Function.update s.pc t pc') (hmsg : ∀ m, pc'.message = some m → (s.pc t).message = some m)
    (hawait : ∀ m, pc'.awaits = some m → (s.pc t).awaits = some m) (hstage : pc'.Stage cfg s) :
    Slots cfg nodeId u := by
  refine h.moveTo hsame hpc hmsg hawait (hstage.congr hsame.view hnext)
    (fun x _ => (h.stages x).congr hsame.view hnext) ?_
  rw [hsame.view, hnext]
  exact h.next

namespace Slots

lemma relocate (h : Slots cfg nodeId s) (hview : u.view = s.view) (hflags : u.flags = s.flags)
    (hhandled : u.handled = s.handled) (hnext : u.chk.nextIndex = s.chk.nextIndex)
    (inbox : ∀ m ∈ u.inbox, m.Valid cfg nodeId)
    (threads : ∀ t m, (u.pc t).message = some m → m.Valid cfg nodeId ∧ m.Assigned cfg t)
    (fresh : ∀ m, u.Outstanding m → m.Once → m ∉ s.handled)
    (alone : ∀ t m, (u.pc t).awaits = some m → m.Once → m ∉ u.inbox ∧ ∀ v, (u.pc v).awaits = some m → v = t)
    (arrived : ∀ m, u.Outstanding m ∨ m ∈ s.handled → m.Foreign → m ∈ u.arrived)
    (sent : ∀ m, u.Outstanding m ∨ m ∈ s.handled → m.Own → m.view < u.nextSendView m.instanceId)
    (primary : ∀ i < cfg.totInstances, cfg.getViewPrimary (u.nextSendView i) i = nodeId)
    (credit : ∀ i < cfg.totInstances, u.incompleteProposalCnt i ≠ 0 →
      u.incompleteProposalCnt i = 1 ∧ u.Due cfg nodeId i ∧ ∀ v, (u.pc .proposal).message ≠ some (.clBatch v i))
    (making : ∀ v i, (u.pc .proposal).message = some (.clBatch v i) →
      u.lastSentView i = v ∧ u.incompleteProposalCnt i = 0 ∧ u.Due cfg nodeId i)
    (formed : ∀ v i, u.Outstanding (.genericP v i) → v ≤ s.view i)
    (stages : ∀ t, (u.pc t).Stage cfg s) : Slots cfg nodeId u where
  inbox := inbox
  threads := threads
  handled := hhandled ▸ h.handled
  fresh := hhandled ▸ fresh
  alone := alone
  arrived := hhandled ▸ arrived
  sent := hhandled ▸ sent
  proposalFlag := by
    intro v i hi hflag
    rw [State.ProposalDone, hhandled]
    exact h.proposalFlag v i hi (hflags ▸ hflag)
  genericFlag := by
    intro v i hi hflag
    rw [State.GenericDone, hhandled, hview]
    exact h.genericFlag v i hi (hflags ▸ hflag)
  passed := by
    intro v i hi hlt
    rw [State.ProposalDone, State.GenericDone, hhandled]
    exact h.passed v i hi (hview ▸ hlt)
  primary := primary
  credit := credit
  making := making
  formed := hview ▸ formed
  stages := fun t => (stages t).congr hview hnext
  next := by
    rw [hview, hnext]
    exact h.next

lemma view_le_of_due {i : ℕ} (h : Slots cfg nodeId s) (hi : i < cfg.totInstances) (hdue : s.Due cfg nodeId i) :
    s.view i ≤ s.lastSentView i := by
  by_contra hlt
  rcases (h.passed _ i hi (not_le.mp hlt)).2 with hg | hg
  · exact (h.handled _ hg).foreign trivial hdue.own
  · exact hdue.fresh hg

lemma arrive (h : Slots cfg nodeId s) (hok : Faultless cfg nodeId s (.arrive m)) :
    Slots cfg nodeId { s with inbox := insert m s.inbox, arrived := insert m s.arrived } := by
  have hvalid : m.Valid cfg nodeId := by
    cases m with
    | sync v i => exact ⟨hok, fun hf => False.elim hf, fun ho => False.elim ho⟩
    | generic v i | proposal v i => exact ⟨hok.1, fun _ => hok.2.1, fun ho => False.elim ho⟩
    | genericP v i | clBatch v i | execute v i => exact False.elim hok
  have hown : ¬ m.Own := by
    cases m with
    | genericP v i | clBatch v i => exact fun _ => hok
    | sync v i | generic v i | proposal v i | execute v i => exact fun ho => ho
  have hnew : m.Foreign → m ∉ s.arrived := by
    intro hf
    cases m with
    | generic v i | proposal v i => exact hok.2.2
    | sync v i | genericP v i | clBatch v i | execute v i => exact False.elim hf
  have hout : ∀ k, State.Outstanding { s with inbox := insert m s.inbox, arrived := insert m s.arrived } k →
      k = m ∨ s.Outstanding k := by
    rintro k (hk | hk)
    · exact (Finset.mem_insert.mp hk).imp_right .inl
    · exact .inr (.inr hk)
  have hdue : ∀ i, s.Due cfg nodeId i →
      State.Due cfg nodeId { s with inbox := insert m s.inbox, arrived := insert m s.arrived } i := by
    refine fun i hd => hd.mono rfl rfl (fun _ => le_rfl) (fun hh => hh) fun ho => (hout _ ho).resolve_left ?_
    rintro rfl
    exact hown trivial
  refine h.relocate rfl rfl rfl rfl ?_ h.threads ?_ ?_ ?_ ?_ h.primary ?_ ?_ ?_ h.stages
  · intro k hk
    rcases Finset.mem_insert.mp hk with rfl | hk
    · exact hvalid
    · exact h.inbox k hk
  · intro k hk honce
    rcases hout k hk with rfl | hk
    · exact fun hh => hnew (honce.resolve_right hown) (h.arrived k (.inr hh) (honce.resolve_right hown))
    · exact h.fresh k hk honce
  · intro t k hk honce
    obtain ⟨hin, huniq⟩ := h.alone t k hk honce
    refine ⟨fun hmem => ?_, huniq⟩
    rcases Finset.mem_insert.mp hmem with rfl | hmem
    · have hf := honce.resolve_right hown
      exact hnew hf (h.arrived k (.inl (.inr ⟨t, hk⟩)) hf)
    · exact hin hmem
  · intro k hk hf
    rcases hk with hk | hk
    · rcases hout k hk with rfl | hk
      · exact Finset.mem_insert_self ..
      · exact Finset.mem_insert_of_mem (h.arrived k (.inl hk) hf)
    · exact Finset.mem_insert_of_mem (h.arrived k (.inr hk) hf)
  · intro k hk ho
    rcases hk with hk | hk
    · rcases hout k hk with rfl | hk
      · exact absurd ho hown
      · exact h.sent k (.inl hk) ho
    · exact h.sent k (.inr hk) ho
  · intro i hi hne
    obtain ⟨hone, hd, hno⟩ := h.credit i hi hne
    exact ⟨hone, hdue i hd, hno⟩
  · intro v i hm
    obtain ⟨hlast, hzero, hd⟩ := h.making v i hm
    exact ⟨hlast, hzero, hdue i hd⟩
  · intro v i ho
    refine h.formed v i ((hout _ ho).resolve_left ?_)
    rintro rfl
    exact hown trivial

lemma outstanding_awaits (h : (s.pc t).awaits = some m) : s.Outstanding m := .inr ⟨t, h⟩

lemma takeUp {pc' : Pc} (h : Slots cfg nodeId s) (hview : u.view = s.view) (hflags : u.flags = s.flags)
    (hhandled : u.handled = s.handled) (hnext : u.chk.nextIndex = s.chk.nextIndex) (harr : u.arrived = s.arrived)
    (hinbox : u.inbox ⊆ s.inbox) (hpc : u.pc = Function.update s.pc t pc') (hmsg : pc'.message = some m)
    (hawait : pc'.awaits = some m) (hvalid : m.Valid cfg nodeId) (hassigned : m.Assigned cfg t)
    (hnew : m.Once → m ∉ s.handled ∧ m ∉ u.inbox ∧ ∀ x, x ≠ t → (s.pc x).awaits ≠ some m)
    (harrived : m.Foreign → m ∈ s.arrived) (hsend : ∀ i, s.nextSendView i ≤ u.nextSendView i)
    (hsent : m.Own → m.view < u.nextSendView m.instanceId)
    (primary : ∀ i < cfg.totInstances, cfg.getViewPrimary (u.nextSendView i) i = nodeId)
    (credit : ∀ i < cfg.totInstances, u.incompleteProposalCnt i ≠ 0 →
      u.incompleteProposalCnt i = 1 ∧ u.Due cfg nodeId i ∧ ∀ v, (u.pc .proposal).message ≠ some (.clBatch v i))
    (making : ∀ v i, (u.pc .proposal).message = some (.clBatch v i) →
      u.lastSentView i = v ∧ u.incompleteProposalCnt i = 0 ∧ u.Due cfg nodeId i)
    (hformed : ∀ v i, m = .genericP v i → v ≤ s.view i) (hstage : pc'.Stage cfg s) : Slots cfg nodeId u := by
  have hold : ∀ x, x ≠ t → u.pc x = s.pc x := fun x hx => by rw [hpc, Function.update_of_ne hx]
  have hself : u.pc t = pc' := by rw [hpc, Function.update_self]
  have hout : ∀ k, u.Outstanding k → k = m ∨ s.Outstanding k := by
    rintro k (hk | ⟨x, hx⟩)
    · exact .inr (.inl (hinbox hk))
    · by_cases hxt : x = t
      · rw [hxt, hself, hawait] at hx
        exact .inl (Option.some.inj hx).symm
      · exact .inr (.inr ⟨x, hold x hxt ▸ hx⟩)
  refine h.relocate hview hflags hhandled hnext ?_ ?_ ?_ ?_ ?_ ?_ primary credit making ?_ ?_
  · exact fun k hk => h.inbox k (hinbox hk)
  · intro x k hk
    by_cases hxt : x = t
    · subst hxt
      rw [hself, hmsg] at hk
      obtain rfl : m = k := Option.some.inj hk
      exact ⟨hvalid, hassigned⟩
    · exact h.threads x k (hold x hxt ▸ hk)
  · intro k hk honce
    rcases hout k hk with rfl | hk
    · exact (hnew honce).1
    · exact h.fresh k hk honce
  · intro x k hk honce
    by_cases hxt : x = t
    · subst hxt
      rw [hself, hawait] at hk
      obtain rfl : m = k := Option.some.inj hk
      refine ⟨(hnew honce).2.1, fun y hy => ?_⟩
      by_contra hyt
      exact (hnew honce).2.2 y hyt (hold y hyt ▸ hy)
    · rw [hold x hxt] at hk
      obtain ⟨hnot, huniq⟩ := h.alone x k hk honce
      refine ⟨fun hmem => hnot (hinbox hmem), fun y hy => ?_⟩
      by_cases hyt : y = t
      · rw [hyt, hself, hawait] at hy
        obtain rfl : m = k := Option.some.inj hy
        exact absurd hk ((hnew honce).2.2 x hxt)
      · exact huniq y (hold y hyt ▸ hy)
  · intro k hk hf
    rw [harr]
    rcases hk with hk | hk
    · rcases hout k hk with rfl | hk
      · exact harrived hf
      · exact h.arrived k (.inl hk) hf
    · exact h.arrived k (.inr hk) hf
  · intro k hk ho
    rcases hk with hk | hk
    · rcases hout k hk with rfl | hk
      · exact hsent ho
      · exact (h.sent k (.inl hk) ho).trans_le (hsend _)
    · exact (h.sent k (.inr hk) ho).trans_le (hsend _)
  · intro v i ho
    exact (hout _ ho).elim (fun heq => hformed v i heq.symm) (h.formed v i)
  · intro x
    by_cases hxt : x = t
    · subst hxt
      rw [hself]
      exact hstage
    · rw [hold x hxt]
      exact h.stages x

lemma dequeueWorker {w : ℕ} (h : Slots cfg nodeId s) (hin : m ∈ s.inbox) (hfor : m.ForWorker cfg w)
    (hcurrent : s.Current m) :
    Slots cfg nodeId ({ s with inbox := s.inbox.erase m }.goto (.worker w) (.taken m)) := by
  set u := { s with inbox := s.inbox.erase m }.goto (.worker w) (.taken m) with hu
  have hpc : u.pc = Function.update s.pc (.worker w) (.taken m) := State.goto_pc
  have hprop : u.pc .proposal = s.pc .proposal := by rw [hpc, Function.update_of_ne (by simp)]
  have hout : ∀ k, u.Outstanding k → s.Outstanding k := by
    rintro k (hk | ⟨x, hx⟩)
    · exact .inl (Finset.mem_of_mem_erase hk)
    · rw [hpc] at hx
      by_cases hxw : x = .worker w
      · rw [hxw, Function.update_self] at hx
        obtain rfl := Option.some.inj hx
        exact .inl hin
      · rw [Function.update_of_ne hxw] at hx
        exact outstanding_awaits hx
  have hdue : ∀ i, s.Due cfg nodeId i → u.Due cfg nodeId i := fun i hd =>
    hd.mono rfl rfl (fun _ => le_rfl) (fun hh => hh) (hout _)
  have hqueued : m.Queued := by
    cases m with
    | clBatch v i | execute v i => exact False.elim hfor
    | sync v i | generic v i | proposal v i | genericP v i => trivial
  refine h.takeUp rfl rfl rfl rfl rfl (Finset.erase_subset ..) hpc rfl rfl (h.inbox m hin) hfor ?_ ?_
    (fun _ => le_rfl) ?_ h.primary ?_ ?_ ?_ ⟨hcurrent, hqueued⟩
  · intro honce
    refine ⟨h.fresh m (.inl hin) honce, Finset.notMem_erase _ _, fun x _ hx => ?_⟩
    exact (h.alone x m hx honce).1 hin
  · exact h.arrived m (.inl (.inl hin))
  · exact h.sent m (.inl (.inl hin))
  · intro i hi hne
    obtain ⟨hone, hd, hno⟩ := h.credit i hi hne
    exact ⟨hone, hdue i hd, hprop ▸ hno⟩
  · intro v i hm
    obtain ⟨hlast, hzero, hd⟩ := h.making v i (hprop ▸ hm)
    exact ⟨hlast, hzero, hdue i hd⟩
  · rintro v i rfl
    exact h.formed v i (.inl hin)

lemma due_of_new {i : ℕ} (hdue : s.Due cfg nodeId i) (hsend : u.nextSendView = s.nextSendView)
    (hlast : u.lastSentView = s.lastSentView) (hview : u.view = s.view) (hhandled : u.handled = s.handled)
    (hout : ∀ k, u.Outstanding k → k = m ∨ s.Outstanding k) (hm : m ≠ .genericP (s.lastSentView i) i) :
    u.Due cfg nodeId i :=
  hdue.mono hsend hlast (fun i => (congrFun hview i).ge) (fun hh => hhandled ▸ hh) fun ho =>
    (hout _ ho).resolve_left hm.symm

lemma outstanding_takeUp {pc' : Pc} (hinbox : u.inbox ⊆ s.inbox) (hpc : u.pc = Function.update s.pc t pc')
    (hawait : pc'.awaits = some m) (k : Message) (hk : u.Outstanding k) : k = m ∨ s.Outstanding k := by
  rcases hk with hk | ⟨x, hx⟩
  · exact .inr (.inl (hinbox hk))
  · rw [hpc] at hx
    by_cases hxt : x = t
    · rw [hxt, Function.update_self, hawait] at hx
      exact .inl (Option.some.inj hx).symm
    · rw [Function.update_of_ne hxt] at hx
      exact .inr (outstanding_awaits hx)

lemma requeue (h : Slots cfg nodeId s) (hp : s.pc t = .admitted m) :
    Slots cfg nodeId ({ s with inbox := insert m s.inbox }.goto t .idle) := by
  set u := { s with inbox := insert m s.inbox }.goto t .idle with hu
  have hpc : u.pc = Function.update s.pc t .idle := State.goto_pc
  have hawaits : ∀ v k, (u.pc v).awaits = some k → v ≠ t ∧ (s.pc v).awaits = some k := by
    intro v k hk
    by_cases hv : v = t
    · subst hv
      rw [hpc, Function.update_self] at hk
      cases hk
    · rw [hpc, Function.update_of_ne hv] at hk
      exact ⟨hv, hk⟩
  have hmessage : ∀ v k, (u.pc v).message = some k → (s.pc v).message = some k := by
    intro v k hk
    rw [hpc] at hk
    exact message_of_update (by simp [Pc.message]) hk
  have hm : (s.pc t).awaits = some m := by
    rw [hp]
    rfl
  have hout : ∀ k, u.Outstanding k → s.Outstanding k := by
    rintro k (hk | ⟨v, hv⟩)
    · rcases Finset.mem_insert.mp hk with rfl | hk
      · exact outstanding_awaits hm
      · exact .inl hk
    · exact .inr ⟨v, (hawaits v k hv).2⟩
  have hdue : ∀ i, s.Due cfg nodeId i → u.Due cfg nodeId i := fun i hd =>
    hd.mono rfl rfl (fun _ => le_rfl) (fun hh => hh) (hout _)
  refine h.relocate rfl rfl rfl rfl ?_ ?_ ?_ ?_ ?_ ?_ h.primary ?_ ?_ ?_ ?_
  · intro k hk
    rcases Finset.mem_insert.mp hk with rfl | hk
    · exact (h.threads t k (by rw [hp]; rfl)).1
    · exact h.inbox k hk
  · exact fun v k hk => h.threads v k (hmessage v k hk)
  · exact fun k hk => h.fresh k (hout k hk)
  · intro v k hk honce
    obtain ⟨hvt, hk⟩ := hawaits v k hk
    obtain ⟨hnot, huniq⟩ := h.alone v k hk honce
    refine ⟨fun hmem => ?_, fun x hx => huniq x (hawaits x k hx).2⟩
    rcases Finset.mem_insert.mp hmem with rfl | hmem
    · exact hvt (huniq t hm).symm
    · exact hnot hmem
  · exact fun k hk => h.arrived k (hk.imp_left (hout k))
  · exact fun k hk => h.sent k (hk.imp_left (hout k))
  · intro i hi hne
    obtain ⟨hone, hd, hno⟩ := h.credit i hi hne
    exact ⟨hone, hdue i hd, fun v hv => hno v (hmessage _ _ hv)⟩
  · intro v i hk
    obtain ⟨hlast, hzero, hd⟩ := h.making v i (hmessage _ _ hk)
    exact ⟨hlast, hzero, hdue i hd⟩
  · exact fun v i ho => h.formed v i (hout _ ho)
  · intro v
    rw [hpc]
    by_cases hv : v = t
    · subst hv
      rw [Function.update_self]
      trivial
    · rw [Function.update_of_ne hv]
      exact h.stages v

lemma dequeueGeneric {v i : ℕ} (h : Slots cfg nodeId s) (hi : i < cfg.totInstances)
    (hne : s.incompleteProposalCnt i ≠ 0) (hlast : v = s.lastSentView i) :
    Slots cfg nodeId ({ s with
      incompleteProposalCnt := Function.update s.incompleteProposalCnt i (s.incompleteProposalCnt i - 1) }.goto
        .generic (.taken (.genericP v i))) := by
  subst hlast
  obtain ⟨hone, hdue, hno⟩ := h.credit i hi hne
  set m : Message := .genericP (s.lastSentView i) i with hm
  set u := { s with
    incompleteProposalCnt := Function.update s.incompleteProposalCnt i (s.incompleteProposalCnt i - 1) }.goto
      .generic (.taken m) with hu
  have hpc : u.pc = Function.update s.pc .generic (.taken m) := State.goto_pc
  have hprop : u.pc .proposal = s.pc .proposal := by rw [hpc, Function.update_of_ne (by simp)]
  have hother : ∀ j, j ≠ i → u.incompleteProposalCnt j = s.incompleteProposalCnt j := fun j hj =>
    Function.update_of_ne hj ..
  have hothers : ∀ j, j ≠ i → s.Due cfg nodeId j → u.Due cfg nodeId j := by
    intro j hj hd
    refine due_of_new hd rfl rfl rfl rfl (outstanding_takeUp (Finset.Subset.refl _) hpc rfl) fun heq => hj ?_
    exact (Message.genericP.inj heq).2.symm
  refine h.takeUp rfl rfl rfl rfl rfl (Finset.Subset.refl _) hpc rfl rfl
    ⟨hi, fun hf => False.elim hf, fun _ => hdue.own⟩ ⟨_, _, rfl⟩ ?_ (fun hf => False.elim hf) (fun _ => le_rfl)
    (fun _ => hdue.lt) h.primary ?_ ?_ ?_ ⟨trivial, trivial⟩
  · intro _
    exact ⟨hdue.fresh, fun hmem => hdue.formed (.inl hmem), fun x _ hx => hdue.formed (outstanding_awaits hx)⟩
  · intro j hj hjne
    have hji : j ≠ i := by
      rintro rfl
      refine hjne ?_
      show Function.update s.incompleteProposalCnt j (s.incompleteProposalCnt j - 1) j = 0
      rw [Function.update_self, hone]
    rw [hother j hji] at hjne ⊢
    obtain ⟨hone, hd, hno⟩ := h.credit j hj hjne
    exact ⟨hone, hothers j hji hd, hprop ▸ hno⟩
  · intro x j hk
    rw [hprop] at hk
    have hji : j ≠ i := by
      rintro rfl
      exact hno x hk
    obtain ⟨hlast, hzero, hd⟩ := h.making x j hk
    exact ⟨hlast, (hother j hji).trans hzero, hothers j hji hd⟩
  · intro x j heq
    obtain ⟨rfl, rfl⟩ := Message.genericP.inj heq
    exact hdue.le

lemma dequeueExecute {v i : ℕ} (h : Slots cfg nodeId s) (hi : i < cfg.totInstances)
    (hfirst : cfg.firstTxn v i = s.chk.nextIndex) (hview : v + 2 ≤ s.view i)
    (hwithin : Message.Within cfg (.execute v i) (Message.opening cfg (.execute v i))) :
    Slots cfg nodeId (s.goto .execute (.opening (.execute v i) (Message.opening cfg (.execute v i)))) := by
  set m : Message := .execute v i with hm
  set u := s.goto .execute (.opening m (m.opening cfg)) with hu
  have hpc : u.pc = Function.update s.pc .execute (.opening m (m.opening cfg)) := State.goto_pc
  have hprop : u.pc .proposal = s.pc .proposal := by rw [hpc, Function.update_of_ne (by simp)]
  have hdue : ∀ j, s.Due cfg nodeId j → u.Due cfg nodeId j := fun j hd =>
    due_of_new hd rfl rfl rfl rfl (outstanding_takeUp (Finset.Subset.refl _) hpc rfl) (fun heq => Message.noConfusion heq)
  refine h.takeUp rfl rfl rfl rfl rfl (Finset.Subset.refl _) hpc rfl rfl
    ⟨hi, fun hf => False.elim hf, fun ho => False.elim ho⟩ ⟨v, i, rfl⟩ ?_ (fun hf => False.elim hf) (fun _ => le_rfl)
    (fun ho => False.elim ho) h.primary ?_ ?_ (fun _ _ heq => Message.noConfusion heq)
    ⟨trivial, trivial, ⟨hfirst.symm, hview⟩, hwithin⟩
  · exact fun honce => False.elim (honce.elim (fun hf => hf) fun ho => ho)
  · intro j hj hne
    obtain ⟨hone, hd, hno⟩ := h.credit j hj hne
    exact ⟨hone, hdue j hd, hprop ▸ hno⟩
  · intro x j hk
    obtain ⟨hlast, hzero, hd⟩ := h.making x j (hprop ▸ hk)
    exact ⟨hlast, hzero, hdue j hd⟩

lemma dequeueProposal {v i : ℕ} (h : Slots cfg nodeId s) (hi : i < cfg.totInstances) (hv : v = s.nextSendView i)
    (hview : v ≤ s.view i) (hwithin : Message.Within cfg (.clBatch v i) (Message.opening cfg (.clBatch v i))) :
    Slots cfg nodeId ({ s with
      lastSentView := Function.update s.lastSentView i v
      nextSendView := Function.update s.nextSendView i (v + cfg.nodeCnt) }.goto .proposal
        (.opening (.clBatch v i) (Message.opening cfg (.clBatch v i)))) := by
  set m : Message := .clBatch v i with hm
  set u := { s with
    lastSentView := Function.update s.lastSentView i v
    nextSendView := Function.update s.nextSendView i (v + cfg.nodeCnt) }.goto .proposal
      (.opening m (m.opening cfg)) with hu
  have hpc : u.pc = Function.update s.pc .proposal (.opening m (m.opening cfg)) := State.goto_pc
  have hself : u.pc .proposal = .opening m (m.opening cfg) := by rw [hpc, Function.update_self]
  have hprimary : cfg.getViewPrimary v i = nodeId := hv ▸ h.primary i hi
  have hnodes := cfg.nodeCnt_pos
  have hnext : u.nextSendView i = v + cfg.nodeCnt := Function.update_self ..
  have hlast : u.lastSentView i = v := Function.update_self ..
  have hnext' : ∀ j, j ≠ i → u.nextSendView j = s.nextSendView j := fun j hj => Function.update_of_ne hj ..
  have hlast' : ∀ j, j ≠ i → u.lastSentView j = s.lastSentView j := fun j hj => Function.update_of_ne hj ..
  -- Nothing of this view has been sent, since `next_send_view` still names it.
  have hunsent : ∀ k : Message, k.Own → k.view = v → k.instanceId = i → ¬ (s.Outstanding k ∨ k ∈ s.handled) := by
    intro k ho hkv hki hk
    have hlt := h.sent k hk ho
    rw [hkv, hki, ← hv] at hlt
    exact lt_irrefl _ hlt
  have hout : ∀ k, u.Outstanding k → k = m ∨ s.Outstanding k := outstanding_takeUp (Finset.Subset.refl _) hpc rfl
  have hzero : s.incompleteProposalCnt i = 0 := by
    by_contra hne
    obtain ⟨-, hd, -⟩ := h.credit i hi hne
    have hle := h.view_le_of_due hi hd
    have hlt := hd.lt
    omega
  refine h.takeUp rfl rfl rfl rfl rfl (Finset.Subset.refl _) hpc rfl rfl
    ⟨hi, fun hf => False.elim hf, fun _ => hprimary⟩ ⟨v, i, rfl⟩ ?_ (fun hf => False.elim hf) ?_ ?_ ?_ ?_ ?_
    (fun _ _ heq => Message.noConfusion heq) ⟨trivial, trivial, trivial, hwithin⟩
  · intro _
    have hno := hunsent m trivial rfl rfl
    exact ⟨fun hh => hno (.inr hh), fun hin => hno (.inl (.inl hin)), fun x _ hx => hno (.inl (outstanding_awaits hx))⟩
  · intro j
    by_cases hj : j = i
    · subst hj
      rw [hnext, hv]
      exact Nat.le_add_right _ _
    · exact (hnext' j hj).ge
  · intro _
    show v < u.nextSendView i
    rw [hnext]
    omega
  · intro j hj
    by_cases hji : j = i
    · subst hji
      rw [hnext, Config.getViewPrimary, Nat.add_right_comm, Nat.add_mod_right]
      exact hprimary
    · rw [hnext' j hji]
      exact h.primary j hj
  · intro j hj hne
    have hji : j ≠ i := by
      rintro rfl
      exact hne hzero
    obtain ⟨hone, hd, -⟩ := h.credit j hj hne
    refine ⟨hone, ⟨?_, ?_, ?_, ?_, ?_⟩, ?_⟩
    · rw [hlast' j hji]
      exact hd.own
    · rw [hlast' j hji, hnext' j hji]
      exact hd.lt
    · rw [hlast' j hji]
      exact hd.le
    · rw [hlast' j hji]
      exact hd.fresh
    · rw [hlast' j hji]
      exact fun ho => hd.formed ((hout _ ho).resolve_left fun heq => Message.noConfusion heq)
    · intro x hx
      rw [hself] at hx
      exact hji (Message.clBatch.inj (Option.some.inj hx)).2.symm
  · intro x j hx
    rw [hself] at hx
    obtain ⟨rfl, rfl⟩ := Message.clBatch.inj (Option.some.inj hx)
    refine ⟨hlast, hzero, ?_, ?_, ?_, ?_, ?_⟩
    · rw [hlast]
      exact hprimary
    · rw [hlast, hnext]
      omega
    · rw [hlast]
      exact hview
    · rw [hlast]
      exact fun hh => hunsent (.genericP v i) trivial rfl rfl (.inr hh)
    · rw [hlast]
      intro ho
      exact hunsent (.genericP v i) trivial rfl rfl (.inl ((hout _ ho).resolve_left fun heq => Message.noConfusion heq))

end Slots

namespace Message

variable (m : Message)

def Votes : Prop :=
  match m with
  | .sync _ _ | .generic _ _ | .proposal _ _ => True
  | _ => False

def Proposes : Prop :=
  match m with
  | .proposal _ _ | .clBatch _ _ => True
  | _ => False

def Certifies : Prop :=
  match m with
  | .generic _ _ | .genericP _ _ => True
  | _ => False

end Message

variable (cfg) in
-- What a handler can do: set the flag of its kind of message, and advance the view once both flags are set.
structure Handles (s : State) (m : Message) (u : State) : Prop where
  chk : u.chk = s.chk
  threads : u.threads = s.threads
  nextSendView : u.nextSendView = s.nextSendView
  lastSentView : u.lastSentView = s.lastSentView
  incompleteProposalCnt : u.incompleteProposalCnt = s.incompleteProposalCnt
  inbox : u.inbox = s.inbox
  arrived : u.arrived = s.arrived
  handled : u.handled = insert m s.handled
  proposalReceived : ∀ id, (u.flags id).proposalReceived = true →
    (s.flags id).proposalReceived = true ∨ id = m.last cfg ∧ m.Proposes
  genericReceived : ∀ id, (u.flags id).genericReceived = true →
    (s.flags id).genericReceived = true ∨ id = m.last cfg ∧ m.Certifies
  view : u.view = s.view ∨ m.Votes ∧ (u.flags (m.last cfg)).proposalReceived = true ∧
    (u.flags (m.last cfg)).genericReceived = true ∧
    u.view = Function.update s.view m.instanceId (s.view m.instanceId + 1)

lemma flags_setFlags {x : Flags} : (s.setFlags id x).flags k = if k = id then x else s.flags k := by
  rw [State.setFlags]
  exact Function.update_apply ..

variable (cfg s m) in
lemma handles_note : Handles cfg s m { s with handled := insert m s.handled } where
  chk := rfl
  threads := rfl
  nextSendView := rfl
  lastSentView := rfl
  incompleteProposalCnt := rfl
  inbox := rfl
  arrived := rfl
  handled := rfl
  proposalReceived := fun _ hk => .inl hk
  genericReceived := fun _ hk => .inl hk
  view := .inl rfl

lemma handles_setFlags (m : Message) (x : Flags)
    (hproposal : x.proposalReceived = (s.flags (m.last cfg)).proposalReceived ∨ m.Proposes)
    (hgeneric : x.genericReceived = (s.flags (m.last cfg)).genericReceived ∨ m.Certifies) :
    Handles cfg s m (State.setFlags { s with handled := insert m s.handled } (m.last cfg) x) where
  chk := rfl
  threads := rfl
  nextSendView := rfl
  lastSentView := rfl
  incompleteProposalCnt := rfl
  inbox := rfl
  arrived := rfl
  handled := rfl
  proposalReceived := by
    intro k hk
    rw [flags_setFlags] at hk
    split_ifs at hk with hkid
    · rcases hproposal with heq | hm
      · rw [hkid, ← heq]
        exact .inl hk
      · exact .inr ⟨hkid, hm⟩
    · exact .inl hk
  genericReceived := by
    intro k hk
    rw [flags_setFlags] at hk
    split_ifs at hk with hkid
    · rcases hgeneric with heq | hm
      · rw [hkid, ← heq]
        exact .inl hk
      · exact .inr ⟨hkid, hm⟩
    · exact .inl hk
  view := .inl rfl

lemma Handles.advanceView (h : Handles cfg s m u) (hview : u.view = s.view) (hvotes : m.Votes)
    (hproposal : (u.flags (m.last cfg)).proposalReceived = true)
    (hgeneric : (u.flags (m.last cfg)).genericReceived = true) :
    Handles cfg s m (u.advanceView (m.last cfg) m.instanceId) where
  chk := h.chk
  threads := h.threads
  nextSendView := h.nextSendView
  lastSentView := h.lastSentView
  incompleteProposalCnt := h.incompleteProposalCnt
  inbox := h.inbox
  arrived := h.arrived
  handled := h.handled
  proposalReceived := h.proposalReceived
  genericReceived := h.genericReceived
  view := by
    refine .inr ⟨hvotes, hproposal, hgeneric, ?_⟩
    show Function.update u.view m.instanceId (u.view m.instanceId + 1) = _
    rw [hview]

lemma handles_handle (accept quorum : Bool) : Handles cfg s m (s.handle cfg m accept quorum) := by
  cases m with
  | sync v i =>
    simp only [State.handle]
    split_ifs with hflags
    · exact (handles_note cfg s (.sync v i)).advanceView rfl trivial hflags.2.1 hflags.2.2
    · exact handles_note cfg s (.sync v i)
  | generic v i =>
    simp only [State.handle]
    split_ifs with hreturn hflags
    · exact handles_note cfg s (.generic v i)
    · let x : Flags := { s.flags (Message.last cfg (.generic v i)) with genericReceived := true }
      refine (handles_setFlags (.generic v i) x (.inl rfl) (.inr trivial)).advanceView rfl trivial ?_ ?_
      · rw [flags_setFlags, if_pos rfl]
        exact hflags.2
      · rw [flags_setFlags, if_pos rfl]
    · exact handles_setFlags (.generic v i) _ (.inl rfl) (.inr trivial)
  | proposal v i =>
    simp only [State.handle]
    split_ifs with hflags
    · let x : Flags := { s.flags (Message.last cfg (.proposal v i)) with proposalReceived := true }
      refine (handles_setFlags (.proposal v i) x (.inr trivial) (.inl rfl)).advanceView rfl trivial ?_ ?_
      · rw [flags_setFlags, if_pos rfl]
      · rw [flags_setFlags, if_pos rfl]
        exact hflags.2
    · exact handles_setFlags (.proposal v i) _ (.inr trivial) (.inl rfl)
  | genericP v i => exact handles_setFlags (.genericP v i) _ (.inl rfl) (.inr trivial)
  | clBatch v i => exact handles_setFlags (.clBatch v i) _ (.inr trivial) (.inl rfl)
  | execute v i => exact handles_note cfg s (.execute v i)

lemma Message.Assigned.unique {k : Message} {x : Thd} (hm : m.Assigned cfg t) (hk : k.Assigned cfg x) (hmv : m.Votes)
    (hkv : k.Votes) (hi : k.instanceId = m.instanceId) : x = t := by
  have hworker : ∀ {k : Message} {x : Thd}, k.Votes → k.Assigned cfg x →
      x = .worker (k.instanceId % multiThreads cfg) := by
    intro k x hv ha
    cases x with
    | worker w =>
      cases k with
      | sync v i | generic v i | proposal v i => exact congrArg Thd.worker ha.symm
      | genericP v i | clBatch v i | execute v i => exact False.elim hv
    | proposal | generic | execute =>
      obtain ⟨v, i, rfl⟩ := ha
      exact False.elim hv
  rw [hworker hkv hk, hworker hmv hm, hi]

lemma Latches.holds_next (h : Latches cfg s) {rest : List (Op ℕ)} (hrest : (s.pc t).rest cfg = .give id :: rest) :
    Holds s (.inl t) id := by
  obtain ⟨held, hheld, hb⟩ := h.sound t
  rw [hrest] at hb
  obtain rfl := (balanced_give.mp hb).1
  show id ∈ (s.threads t).held
  rw [hheld]
  exact List.mem_singleton.mpr rfl

variable (cfg) in
lemma closing_eq (hm : ∀ v i, m ≠ .execute v i) : ∃ rest, m.closing cfg = .give (m.last cfg) :: rest := by
  cases m with
  | proposal v i => exact ⟨[.take _, .give _], rfl⟩
  | execute v i => exact absurd rfl (hm v i)
  | sync v i | generic v i | genericP v i | clBatch v i => exact ⟨[], rfl⟩

section Handle

variable {w : State}

lemma Slots.view_eq_of_advance (h : Slots cfg nodeId s) (hp : s.pc t = .opening m []) (hH : Handles cfg s m w)
    (hvotes : m.Votes) (hgeneric : (w.flags (m.last cfg)).genericReceived = true) : s.view m.instanceId = m.view := by
  have hstage := h.stages t
  rw [hp] at hstage
  have hvalid := (h.threads t m (by rw [hp]; rfl)).1
  have hout : s.Outstanding m := Slots.outstanding_awaits (by rw [hp]; rfl)
  have hle : s.view m.instanceId ≤ m.view := by
    cases m with
    | sync v i => exact hstage.2.1
    | generic v i | proposal v i => exact h.view_le hout (.inl trivial)
    | genericP v i | clBatch v i | execute v i => exact False.elim hvotes
  refine le_antisymm hle ?_
  rcases hH.genericReceived _ hgeneric with hold | ⟨-, hcert⟩
  · exact (h.genericFlag m.view m.instanceId hvalid.instanceId hold).2
  · cases m with
    | generic v i => exact hstage.1
    | sync v i | proposal v i => exact False.elim hcert
    | genericP v i | clBatch v i | execute v i => exact False.elim hvotes

lemma Handles.view_mono (hH : Handles cfg s m w) (j : ℕ) : s.view j ≤ w.view j := by
  rcases hH.view with heq | ⟨-, -, -, heq⟩
  · rw [heq]
  · rw [heq]
    by_cases hj : j = m.instanceId
    · rw [hj, Function.update_self]
      exact Nat.le_succ _
    · rw [Function.update_of_ne hj]

lemma Slots.view_lt_of_closing {x : Thd} {k : Message} {ops : List (Op ℕ)} (h : Slots cfg nodeId s) (hl : Latches cfg s)
    (hp : s.pc t = .opening m []) (hm : ∀ v i, m ≠ .execute v i) (hxt : x ≠ t) (hx : s.pc x = .closing k ops)
    (hops : ops ≠ []) (hown : k.Own) (hi : k.instanceId = m.instanceId) : k.view ≠ m.view := by
  intro hv
  have hstage := h.stages x
  rw [hx] at hstage
  have hlast : k.last cfg = m.last cfg := by rw [Message.last, Message.last, hv, hi]
  have hsuffix : ops = [.give (k.last cfg)] := by
    cases k with
    | genericP v i | clBatch v i =>
      rcases List.suffix_cons_iff.mp hstage.2.2 with heq | hnil
      · exact heq
      · exact absurd (List.suffix_nil.mp hnil) hops
    | sync v i | generic v i | proposal v i | execute v i => exact False.elim hown
  obtain ⟨rest, hrest⟩ := closing_eq cfg hm
  have hrest : (s.pc t).rest cfg = .give (m.last cfg) :: rest := by
    rw [hp]
    exact hrest
  have hrest' : (s.pc x).rest cfg = [.give (m.last cfg)] := by
    rw [hx, ← hlast]
    exact hsuffix
  have hholds := hl.holds_next hrest
  have hholds' := hl.holds_next hrest'
  exact hxt (Sum.inl.inj (hl.custody.unique _ _ _ hholds' hholds))

lemma Slots.stage_other {x : Thd} (h : Slots cfg nodeId s) (hl : Latches cfg s) (hp : s.pc t = .opening m [])
    (hm : ∀ v i, m ≠ .execute v i) (hH : Handles cfg s m w) (hxt : x ≠ t) : (s.pc x).Stage cfg w := by
  have hmono := hH.view_mono
  have hstage := h.stages x
  have hassigned := (h.threads t m (by rw [hp]; rfl)).2
  have hnext : w.chk.nextIndex = s.chk.nextIndex := by rw [hH.chk]
  -- The view of an instance on which another thread votes stays.
  have hvoting : ∀ k : Message, (s.pc x).message = some k → k.Votes → w.view k.instanceId = s.view k.instanceId := by
    intro k hk hkv
    rcases hH.view with heq | ⟨hmv, -, -, heq⟩
    · rw [heq]
    · rw [heq, Function.update_of_ne]
      exact fun hi => hxt (Message.Assigned.unique hassigned (h.threads x k hk).2 hmv hkv hi)
  have hreached : ∀ k : Message, k.Reached s → k.Reached w := by
    intro k hk
    cases k with
    | generic v i => exact le_trans hk (hmono i)
    | sync v i | proposal v i | genericP v i | clBatch v i | execute v i => trivial
  have hahead : ∀ k : Message, (s.pc x).message = some k → k.Ahead s → k.Ahead w := by
    intro k hmsg hk
    cases k with
    | sync v i => exact (hvoting _ hmsg trivial).le.trans hk
    | generic v i | proposal v i | genericP v i | clBatch v i | execute v i => trivial
  have hruns : ∀ k : Message, k.Runs cfg s → k.Runs cfg w := by
    intro k hk
    cases k with
    | execute v i => exact ⟨hnext.trans hk.1, hk.2.trans (hmono i)⟩
    | sync v i | generic v i | proposal v i | genericP v i | clBatch v i => trivial
  have hran : ∀ k : Message, k.Ran cfg s → k.Ran cfg w := by
    intro k hk
    cases k with
    | execute v i => exact hnext.trans hk
    | sync v i | generic v i | proposal v i | genericP v i | clBatch v i => trivial
  cases hx : s.pc x with
  | idle => trivial
  | taken k =>
    rw [hx] at hstage
    exact ⟨hreached k hstage.1, hstage.2⟩
  | admitted k =>
    rw [hx] at hstage hahead
    exact ⟨hreached k hstage.1, hahead k rfl hstage.2.1, hstage.2.2⟩
  | opening k ops =>
    rw [hx] at hstage hahead
    exact ⟨hreached k hstage.1, hahead k rfl hstage.2.1, hruns k hstage.2.2.1, hstage.2.2.2⟩
  | sending k =>
    rw [hx] at hstage
    exact ⟨hstage.1, hran k hstage.2⟩
  | closing k ops =>
    rw [hx] at hstage hvoting
    refine ⟨fun hops => ?_, hran k hstage.2.1, hstage.2.2⟩
    have hrecent := hstage.1 hops
    have hownRecent : k.Own → s.view k.instanceId ≤ k.view → w.view k.instanceId ≤ k.view := by
      intro hown hle
      rcases hH.view with heq | ⟨hmv, -, hgeneric, heq⟩
      · rw [heq]
        exact hle
      · by_cases hi : k.instanceId = m.instanceId
        · have hne := h.view_lt_of_closing hl hp hm hxt hx hops hown hi
          have hview := h.view_eq_of_advance hp hH hmv hgeneric
          rw [heq, hi, Function.update_self]
          rw [hi] at hle
          omega
        · rw [heq, Function.update_of_ne hi]
          exact hle
    cases k with
    | sync v i | generic v i | proposal v i => exact (hvoting _ rfl trivial).le.trans hrecent
    | genericP v i | clBatch v i => exact hownRecent trivial hrecent
    | execute v i => trivial

lemma Slots.recent_of_handles (h : Slots cfg nodeId s) (hp : s.pc t = .opening m []) (hH : Handles cfg s m w) :
    m.Recent w := by
  have hstage := h.stages t
  rw [hp] at hstage
  have hout : s.Outstanding m := Slots.outstanding_awaits (by rw [hp]; rfl)
  have hone : w.view m.instanceId ≤ s.view m.instanceId + 1 := by
    rcases hH.view with heq | ⟨-, -, -, heq⟩
    · rw [heq]
      exact Nat.le_succ _
    · rw [heq, Function.update_self]
  have hsame : ¬ m.Votes → w.view = s.view := fun hv => hH.view.resolve_right fun hc => hv hc.1
  cases m with
  | sync v i => exact hone.trans (Nat.succ_le_succ hstage.2.1)
  | generic v i | proposal v i => exact hone.trans (Nat.succ_le_succ (h.view_le hout (.inl trivial)))
  | genericP v i | clBatch v i =>
    rw [Message.Recent, hsame fun hv => hv]
    exact h.view_le hout (.inr trivial)
  | execute v i => trivial

lemma firstTxn_mono {v v' i : ℕ} (h : v ≤ v') : cfg.firstTxn v i ≤ cfg.firstTxn v' i :=
  Nat.mul_le_mul_right _ (Nat.add_le_add_right (Nat.mul_le_mul_right _ h) _)

lemma Slots.valid_opening (h : Slots cfg nodeId s) (hp : s.pc t = .opening m []) : m.Valid cfg nodeId := by
  refine (h.threads t m ?_).1
  rw [hp]
  rfl

lemma outstanding_opening (hp : s.pc t = .opening m []) : s.Outstanding m := by
  refine Slots.outstanding_awaits (t := t) ?_
  rw [hp]
  rfl

lemma Slots.handle_proposalFlag (h : Slots cfg nodeId s) (hp : s.pc t = .opening m []) (hH : Handles cfg s m w)
    {v i : ℕ} (hi : i < cfg.totInstances) (hflag : (w.flags (cfg.lastTxn v i)).proposalReceived = true) :
    w.ProposalDone v i := by
  rw [State.ProposalDone, hH.handled]
  rcases hH.proposalReceived _ hflag with hf | ⟨hid, hkind⟩
  · exact (h.proposalFlag v i hi hf).imp Finset.mem_insert_of_mem Finset.mem_insert_of_mem
  · obtain ⟨rfl, rfl⟩ := cfg.lastTxn_inj hi (h.valid_opening hp).instanceId hid
    cases m with
    | proposal v i => exact .inl (Finset.mem_insert_self ..)
    | clBatch v i => exact .inr (Finset.mem_insert_self ..)
    | sync v i | generic v i | genericP v i | execute v i => exact False.elim hkind

lemma Slots.handle_genericFlag (h : Slots cfg nodeId s) (hp : s.pc t = .opening m []) (hH : Handles cfg s m w)
    {v i : ℕ} (hi : i < cfg.totInstances) (hflag : (w.flags (cfg.lastTxn v i)).genericReceived = true) :
    w.GenericDone v i ∧ v ≤ w.view i := by
  have hmono := hH.view_mono
  rw [State.GenericDone, hH.handled]
  rcases hH.genericReceived _ hflag with hf | ⟨hid, hkind⟩
  · obtain ⟨hdone, hle⟩ := h.genericFlag v i hi hf
    exact ⟨hdone.imp Finset.mem_insert_of_mem Finset.mem_insert_of_mem, hle.trans (hmono i)⟩
  · obtain ⟨rfl, rfl⟩ := cfg.lastTxn_inj hi (h.valid_opening hp).instanceId hid
    have hstage := h.stages t
    rw [hp] at hstage
    cases m with
    | generic v i => exact ⟨.inl (Finset.mem_insert_self ..), le_trans hstage.1 (hmono i)⟩
    | genericP v i =>
      exact ⟨.inr (Finset.mem_insert_self ..), (h.formed v i (outstanding_opening hp)).trans (hmono i)⟩
    | sync v i | proposal v i | clBatch v i | execute v i => exact False.elim hkind

lemma Slots.handle_passed (h : Slots cfg nodeId s) (hp : s.pc t = .opening m []) (hH : Handles cfg s m w)
    {v i : ℕ} (hi : i < cfg.totInstances) (hlt : v < w.view i) : w.ProposalDone v i ∧ w.GenericDone v i := by
  by_cases hpassed : v < s.view i
  · obtain ⟨hprop, hgen⟩ := h.passed v i hi hpassed
    rw [State.ProposalDone, State.GenericDone, hH.handled]
    exact ⟨hprop.imp Finset.mem_insert_of_mem Finset.mem_insert_of_mem,
      hgen.imp Finset.mem_insert_of_mem Finset.mem_insert_of_mem⟩
  rcases hH.view with heq | ⟨hmv, hproposal, hgeneric, heq⟩
  · rw [heq] at hlt
    exact absurd hlt hpassed
  · have hview := h.view_eq_of_advance hp hH hmv hgeneric
    have hij : i = m.instanceId := by
      by_contra hne
      rw [heq, Function.update_of_ne hne] at hlt
      exact hpassed hlt
    subst hij
    rw [heq, Function.update_self] at hlt
    obtain rfl : v = m.view := by omega
    exact ⟨h.handle_proposalFlag hp hH hi hproposal, (h.handle_genericFlag hp hH hi hgeneric).1⟩

lemma Slots.handle (h : Slots cfg nodeId s) (hl : Latches cfg s) (hp : s.pc t = .opening m [])
    (hm : ∀ v i, m ≠ .execute v i) (hH : Handles cfg s m w) :
    Slots cfg nodeId (w.goto t (.closing m (m.closing cfg))) := by
  set u := w.goto t (.closing m (m.closing cfg)) with hu
  have hw : w.pc = s.pc := by
    funext x
    rw [State.pc, hH.threads, State.pc]
  have hpc : u.pc = Function.update s.pc t (.closing m (m.closing cfg)) := by rw [hu, State.goto_pc, hw]
  have hold : ∀ x, x ≠ t → u.pc x = s.pc x := fun x hx => by rw [hpc, Function.update_of_ne hx]
  have hself : u.pc t = .closing m (m.closing cfg) := by rw [hpc, Function.update_self]
  have hmsg : (s.pc t).message = some m := by
    rw [hp]
    rfl
  have hawait : (s.pc t).awaits = some m := by
    rw [hp]
    rfl
  have hvalid := (h.threads t m hmsg).1
  have hmessage : ∀ x k, (u.pc x).message = some k → (s.pc x).message = some k := by
    intro x k hk
    rw [hpc] at hk
    refine message_of_update (fun k hk => ?_) hk
    rw [hmsg]
    exact hk
  have hawaits : ∀ x k, (u.pc x).awaits = some k → x ≠ t ∧ (s.pc x).awaits = some k := by
    intro x k hk
    by_cases hx : x = t
    · rw [hx, hself] at hk
      cases hk
    · exact ⟨hx, hold x hx ▸ hk⟩
  have hinbox : u.inbox = s.inbox := hH.inbox
  have hhandled : u.handled = insert m s.handled := hH.handled
  have hout : ∀ k, u.Outstanding k → s.Outstanding k := by
    rintro k (hk | ⟨x, hx⟩)
    · exact .inl (hinbox ▸ hk)
    · exact .inr ⟨x, (hawaits x k hx).2⟩
  have hgone : ∀ k, u.Outstanding k → k.Once → k ≠ m := by
    rintro k hk honce rfl
    obtain ⟨hnot, huniq⟩ := h.alone t k hawait honce
    rcases hk with hk | ⟨x, hx⟩
    · exact hnot (hinbox ▸ hk)
    · exact (hawaits x k hx).1 (huniq x (hawaits x k hx).2)
  have hmono := hH.view_mono
  have hseen : ∀ k, u.Outstanding k ∨ k ∈ u.handled → s.Outstanding k ∨ k ∈ s.handled := by
    rintro k (hk | hk)
    · exact .inl (hout k hk)
    · rw [hhandled] at hk
      rcases Finset.mem_insert.mp hk with rfl | hk
      · exact .inl (Slots.outstanding_awaits hawait)
      · exact .inr hk
  have hdue : ∀ i, s.Due cfg nodeId i → u.Due cfg nodeId i := by
    refine fun i hd => hd.mono hH.nextSendView hH.lastSentView hmono (fun hh => ?_) (hout _)
    rw [hhandled] at hh
    refine Finset.mem_of_mem_insert_of_ne hh fun heq => hd.formed ?_
    rw [heq]
    exact Slots.outstanding_awaits hawait
  refine ⟨?_, ?_, ?_, ?_, ?_, ?_, ?_, fun v i hi hf => h.handle_proposalFlag hp hH hi hf,
    fun v i hi hf => h.handle_genericFlag hp hH hi hf, ?_, ?_, ?_, ?_, ?_, ?_, ?_⟩
  · rw [hinbox]
    exact h.inbox
  · exact fun x k hk => h.threads x k (hmessage x k hk)
  · intro k hk
    rw [hhandled] at hk
    rcases Finset.mem_insert.mp hk with rfl | hk
    · exact hvalid
    · exact h.handled k hk
  · intro k hk honce hmem
    rw [hhandled] at hmem
    exact h.fresh k (hout k hk) honce (Finset.mem_of_mem_insert_of_ne hmem (hgone k hk honce))
  · intro x k hk honce
    rw [hinbox]
    obtain ⟨hnot, huniq⟩ := h.alone x k (hawaits x k hk).2 honce
    exact ⟨hnot, fun y hy => huniq y (hawaits y k hy).2⟩
  · intro k hk hf
    show k ∈ w.arrived
    rw [hH.arrived]
    exact h.arrived k (hseen k hk) hf
  · intro k hk ho
    show k.view < w.nextSendView k.instanceId
    rw [hH.nextSendView]
    exact h.sent k (hseen k hk) ho
  · exact fun v i hi hlt => h.handle_passed hp hH hi hlt
  · show ∀ i < cfg.totInstances, cfg.getViewPrimary (w.nextSendView i) i = nodeId
    rw [hH.nextSendView]
    exact h.primary
  · intro i hi hne
    have hcnt : u.incompleteProposalCnt i = s.incompleteProposalCnt i := congrFun hH.incompleteProposalCnt i
    rw [hcnt] at hne ⊢
    obtain ⟨hone, hd, hno⟩ := h.credit i hi hne
    exact ⟨hone, hdue i hd, fun v hv => hno v (hmessage _ _ hv)⟩
  · intro v i hk
    obtain ⟨hlast, hzero, hd⟩ := h.making v i (hmessage _ _ hk)
    exact ⟨(congrFun hH.lastSentView i).trans hlast, (congrFun hH.incompleteProposalCnt i).trans hzero, hdue i hd⟩
  · exact fun v i ho => (h.formed v i (hout _ ho)).trans (hmono i)
  · intro x
    by_cases hx : x = t
    · subst hx
      rw [hself]
      have hran : m.Ran cfg w := by
        cases m with
        | execute v i => exact absurd rfl (hm v i)
        | sync v i | generic v i | proposal v i | genericP v i | clBatch v i => trivial
      have hstage : (Pc.closing m (m.closing cfg)).Stage cfg w :=
        ⟨fun _ => h.recent_of_handles hp hH, hran, List.suffix_rfl⟩
      exact hstage.congr rfl rfl
    · rw [hold x hx]
      exact (h.stage_other hl hp hm hH hx).congr rfl rfl
  · intro i hi
    have hnext : u.chk.nextIndex = s.chk.nextIndex := congrArg Checkpoint.State.nextIndex hH.chk
    rw [hnext]
    exact (h.next i hi).trans (firstTxn_mono (Nat.sub_le_sub_right (hmono i) 1))

end Handle

namespace Slots

lemma closed (h : Slots cfg nodeId s) (hp : s.pc t = .closing m []) :
    Slots cfg nodeId ((s.completed m).goto t .idle) := by
  have hidle : Slots cfg nodeId (s.goto t .idle) :=
    h.move same_goto rfl State.goto_pc (by simp [Pc.message]) (by simp [Pc.awaits]) trivial
  cases m with
  | clBatch v i =>
    have hmsg : (s.pc t).message = some (.clBatch v i) := by
      rw [hp]
      rfl
    obtain ⟨hvalid, hassigned⟩ := h.threads t _ hmsg
    have ht : t = .proposal := by
      cases t with
      | proposal => rfl
      | worker w => exact False.elim hassigned
      | generic | execute =>
        obtain ⟨_, _, heq⟩ := hassigned
        exact Message.noConfusion heq
    subst ht
    obtain ⟨hlast, hzero, hdue⟩ := h.making v i hmsg
    set u := (s.completed (.clBatch v i)).goto .proposal .idle with hu
    have hpc : u.pc = Function.update s.pc .proposal .idle := State.goto_pc
    have hidle : u.pc .proposal = .idle := by rw [hpc, Function.update_self]
    have hawaits : ∀ x k, (u.pc x).awaits = some k → (s.pc x).awaits = some k := by
      intro x k hk
      rw [hpc] at hk
      exact awaits_of_update (by simp [Pc.awaits]) hk
    have hout : ∀ k, u.Outstanding k → s.Outstanding k := by
      rintro k (hk | ⟨x, hx⟩)
      · exact .inl hk
      · exact .inr ⟨x, hawaits x k hx⟩
    have hdue' : ∀ j, s.Due cfg nodeId j → u.Due cfg nodeId j := fun j hd =>
      hd.mono rfl rfl (fun _ => le_rfl) (fun hh => hh) (hout _)
    refine h.relocate rfl rfl rfl rfl h.inbox ?_ (fun k hk => h.fresh k (hout k hk)) ?_
      (fun k hk => h.arrived k (hk.imp_left (hout k))) (fun k hk => h.sent k (hk.imp_left (hout k))) h.primary ?_ ?_
      (fun v i ho => h.formed v i (hout _ ho)) ?_
    · intro x k hk
      rw [hpc] at hk
      exact h.threads x k (message_of_update (by simp [Pc.message]) hk)
    · intro x k hk honce
      obtain ⟨hnot, huniq⟩ := h.alone x k (hawaits x k hk) honce
      exact ⟨hnot, fun y hy => huniq y (hawaits y k hy)⟩
    · intro j hj hne
      refine ⟨?_, ?_, by simp [hidle, Pc.message]⟩
      · by_cases hji : j = i
        · subst hji
          show Function.update s.incompleteProposalCnt j (s.incompleteProposalCnt j + 1) j = 1
          rw [Function.update_self, hzero]
        · have hcnt : u.incompleteProposalCnt j = s.incompleteProposalCnt j := Function.update_of_ne hji ..
          rw [hcnt] at hne ⊢
          exact (h.credit j hj hne).1
      · by_cases hji : j = i
        · subst hji
          exact hdue' j hdue
        · have hcnt : u.incompleteProposalCnt j = s.incompleteProposalCnt j := Function.update_of_ne hji ..
          rw [hcnt] at hne
          exact hdue' j (h.credit j hj hne).2.1
    · simp [hidle, Pc.message]
    · intro x
      rw [hpc]
      by_cases hx : x = .proposal
      · subst hx
        rw [Function.update_self]
        trivial
      · rw [Function.update_of_ne hx]
        exact h.stages x
  | sync v i | generic v i | proposal v i | genericP v i | execute v i => exact hidle

lemma next_of_runs {v i : ℕ} (h : Slots cfg nodeId s) (hi : i < cfg.totInstances)
    (hruns : Message.Runs cfg (.execute v i) s) (j : ℕ) (hj : j < cfg.totInstances) :
    s.chk.nextIndex + cfg.batchSize ≤ cfg.firstTxn (s.view j - 1) j := by
  obtain ⟨hfirst, hview⟩ := hruns
  have hb := cfg.batchSize_pos
  have hle := h.next j hj
  rw [hfirst] at hle ⊢
  have hslot : cfg.slot v i ≤ cfg.slot (s.view j - 1) j := Nat.le_of_mul_le_mul_right hle hb
  have hne : cfg.slot v i ≠ cfg.slot (s.view j - 1) j := by
    intro heq
    obtain ⟨hv, rfl⟩ := cfg.slot_inj hi hj heq
    omega
  calc cfg.firstTxn v i + cfg.batchSize = (cfg.slot v i + 1) * cfg.batchSize := by rw [Config.firstTxn]; ring
    _ ≤ cfg.firstTxn (s.view j - 1) j := Nat.mul_le_mul_right _ (lt_of_le_of_ne hslot hne)

lemma stage_of_ne_execute (h : pc.Stage cfg s) (hview : u.view = s.view)
    (hne : ∀ v i, pc.message ≠ some (.execute v i)) : pc.Stage cfg u := by
  have hold : pc.Stage cfg { u with chk := s.chk } := h.congr hview rfl
  cases pc with
  | idle => trivial
  | taken m | admitted m | opening m ops | sending m | closing m ops =>
    cases m with
    | execute v i => exact absurd rfl (hne v i)
    | sync v i | generic v i | proposal v i | genericP v i | clBatch v i => exact hold

lemma execute_of_assigned {v i : ℕ} (h : Message.Assigned cfg (.execute v i) t) : t = .execute := by
  cases t with
  | execute => rfl
  | worker w => exact False.elim h
  | proposal | generic =>
    obtain ⟨_, _, heq⟩ := h
    exact Message.noConfusion heq

lemma incNextIndex {v i : ℕ} (h : Slots cfg nodeId s) (hp : s.pc t = .opening (.execute v i) []) (hsame : Same s u)
    (hnext : u.chk.nextIndex = s.chk.nextIndex + cfg.batchSize)
    (hpc : u.pc = Function.update s.pc t (.sending (.execute v i))) : Slots cfg nodeId u := by
  have hmsg : (s.pc t).message = some (.execute v i) := by
    rw [hp]
    rfl
  obtain ⟨hvalid, hassigned⟩ := h.threads t _ hmsg
  have hstage := h.stages t
  rw [hp] at hstage
  have hruns := hstage.2.2.1
  refine h.moveTo hsame hpc ?_ (by simp [Pc.awaits]) ?_ ?_ ?_
  · rw [hmsg]
    exact fun _ hk => hk
  · refine ⟨⟨v, i, rfl⟩, ?_⟩
    show u.chk.nextIndex = cfg.lastTxn v i + 1
    rw [hnext, hruns.1, Config.lastTxn_add_one]
  · intro x hx
    refine stage_of_ne_execute (h.stages x) hsame.view fun w j hw => hx ?_
    rw [execute_of_assigned (h.threads x _ hw).2, execute_of_assigned hassigned]
  · rw [hnext, hsame.view]
    exact h.next_of_runs hvalid.instanceId hruns

end Slots

section Programs

variable (m)

lemma mem_slotTxns_iff {v i : ℕ} : id ∈ cfg.slotTxns v i ↔ cfg.firstTxn v i ≤ id ∧ id ≤ cfg.lastTxn v i := by
  have hb := cfg.batchSize_pos
  rw [Config.slotTxns, List.mem_range'_1, Config.lastTxn]
  omega

lemma within_closing : m.Within cfg (m.closing cfg) := by
  have hb := cfg.five_le_batch
  have hlast := cfg.lastTxn_add_one m.view m.instanceId
  intro op hop
  rw [mem_slotTxns_iff]
  cases m with
  | proposal v i =>
    simp only [Message.closing, Message.txnMan, Message.txnId, Message.last, Message.view, Message.instanceId,
      List.mem_cons, List.not_mem_nil, or_false] at hop hlast ⊢
    rcases hop with rfl | rfl | rfl <;> simp only [Op.key] <;> omega
  | sync v i | generic v i | genericP v i | clBatch v i | execute v i =>
    simp only [Message.closing, Message.txnMan, Message.last, Message.view, Message.instanceId,
      List.mem_singleton] at hop hlast ⊢
    rw [hop]
    simp only [Op.key]
    omega

lemma within_each {ids : List ℕ} (hids : ∀ id ∈ ids, id ∈ cfg.slotTxns m.view m.instanceId)
    (hlast : m.last cfg ∈ cfg.slotTxns m.view m.instanceId) :
    m.Within cfg (ids.flatMap (fun id => [.take id, .give id]) ++ [.take (m.last cfg)]) := by
  intro op hop
  rcases List.mem_append.mp hop with hop | hop
  · obtain ⟨id, hid, hop⟩ := List.mem_flatMap.mp hop
    simp only [List.mem_cons, List.not_mem_nil, or_false] at hop
    rcases hop with rfl | rfl <;> exact hids id hid
  · rw [List.mem_singleton.mp hop]
    exact hlast

lemma within_opening : m.Within cfg (m.opening cfg) := by
  have hb := cfg.five_le_batch
  have hone := cfg.lastTxn_add_one m.view m.instanceId
  have hlast : m.last cfg ∈ cfg.slotTxns m.view m.instanceId := by
    rw [mem_slotTxns_iff, Message.last]
    omega
  cases m with
  | sync v i | generic v i | genericP v i => exact fun op hop => absurd hop List.not_mem_nil
  | proposal v i | clBatch v i => exact within_each _ (fun _ hid => hid) hlast
  | execute v i =>
    refine within_each _ (fun id hid => ?_) hlast
    rw [List.mem_range'_1] at hid
    rw [mem_slotTxns_iff]
    simp only [Message.last, Message.view, Message.instanceId] at hid hone ⊢
    omega

lemma balanced_closing : Balanced (some (m.last cfg)) (m.closing cfg) := by
  cases m with
  | proposal v i =>
    rw [Message.closing, balanced_give, balanced_take, balanced_give, balanced_nil]
    exact ⟨rfl, rfl, rfl, rfl⟩
  | sync v i | generic v i | genericP v i | clBatch v i | execute v i =>
    refine balanced_give.mpr ⟨rfl, ?_⟩
    rw [balanced_nil]

lemma balanced_iteration (hm : ∃ ids : List ℕ, m.opening cfg = ids.flatMap (fun id => [.take id, .give id]) ++
    [.take (m.last cfg)]) : Balanced none (m.opening cfg ++ m.closing cfg) := by
  obtain ⟨ids, hids⟩ := hm
  rw [hids, List.append_assoc, balanced_each_append, List.singleton_append, balanced_take]
  exact ⟨rfl, balanced_closing m⟩

end Programs

namespace Slots

lemma key_ge {op : Op ℕ} (h : Slots cfg nodeId s) (hop : op ∈ (s.pc t).rest cfg) :
    s.chk.nextIndex ≤ op.key ∨ (∃ id, op = .give id) ∧ op.key + 1 = s.chk.nextIndex := by
  have hstage := h.stages t
  have hvalid : ∀ k, (s.pc t).message = some k → k.Valid cfg nodeId := fun k hk => (h.threads t k hk).1
  have hfirst : ∀ k : Message, k.Valid cfg nodeId → op.key ∈ cfg.slotTxns k.view k.instanceId →
      s.view k.instanceId ≤ k.view + 1 → s.chk.nextIndex ≤ op.key := by
    intro k hk hkey hview
    have hmono : cfg.firstTxn (s.view k.instanceId - 1) k.instanceId ≤ cfg.firstTxn k.view k.instanceId :=
      firstTxn_mono (by omega)
    exact ((h.next k.instanceId hk.instanceId).trans hmono).trans (mem_slotTxns_iff.mp hkey).1
  have hran : ∀ v i, Message.Ran cfg (.execute v i) s → op ∈ Message.closing cfg (.execute v i) →
      (∃ id, op = .give id) ∧ op.key + 1 = s.chk.nextIndex := by
    intro v i hran hmem
    rw [List.mem_singleton.mp hmem]
    exact ⟨⟨_, rfl⟩, hran.symm⟩
  cases hp : s.pc t with
  | idle | taken m | admitted m =>
    rw [hp] at hop
    exact absurd hop List.not_mem_nil
  | opening m ops =>
    have hout : s.Outstanding m := outstanding_awaits (by rw [hp]; rfl)
    rw [hp] at hop hstage hvalid
    have hkey : op.key ∈ cfg.slotTxns m.view m.instanceId := by
      rcases List.mem_append.mp hop with hop | hop
      · exact hstage.2.2.2 op hop
      · exact within_closing m op hop
    refine .inl ?_
    cases m with
    | sync v i => exact hfirst _ (hvalid _ rfl) hkey (Nat.le_succ_of_le hstage.2.1)
    | generic v i | proposal v i =>
      exact hfirst _ (hvalid _ rfl) hkey (Nat.le_succ_of_le (h.view_le hout (.inl trivial)))
    | genericP v i | clBatch v i =>
      exact hfirst _ (hvalid _ rfl) hkey (Nat.le_succ_of_le (h.view_le hout (.inr trivial)))
    | execute v i =>
      rw [hstage.2.2.1.1]
      exact (mem_slotTxns_iff.mp hkey).1
  | sending m =>
    rw [hp] at hop hstage
    obtain ⟨⟨v, i, rfl⟩, hr⟩ := hstage
    exact .inr (hran v i hr hop)
  | closing m ops =>
    rw [hp] at hop hstage hvalid
    have hmem : op ∈ m.closing cfg := hstage.2.2.subset hop
    have hkey := within_closing m op hmem
    have hrecent := hstage.1 (List.ne_nil_of_mem hop)
    cases m with
    | sync v i | generic v i | proposal v i => exact .inl (hfirst _ (hvalid _ rfl) hkey hrecent)
    | genericP v i | clBatch v i => exact .inl (hfirst _ (hvalid _ rfl) hkey (Nat.le_succ_of_le hrecent))
    | execute v i => exact .inr (hran v i hstage.2.1 hmem)

lemma next_le_held (h : Slots cfg nodeId s) (hl : Latches cfg s) (hheld : Holds s (.inl t) id) :
    s.chk.nextIndex ≤ id + 1 := by
  obtain ⟨held, heq, hb⟩ := hl.sound t
  have hmem : id ∈ held.toList := heq ▸ hheld
  obtain rfl : held = some id := by simpa using hmem
  obtain ⟨rest, hrest⟩ := hb.next_of_some
  have hop : Op.give id ∈ (s.pc t).rest cfg := by
    rw [hrest]
    exact List.mem_cons_self
  rcases h.key_ge hop with hle | ⟨-, heq⟩
  · exact Nat.le_succ_of_le hle
  · exact heq.ge

lemma next_le_taken (h : Slots cfg nodeId s) (hop : .take id ∈ (s.pc t).rest cfg) : s.chk.nextIndex ≤ id := by
  rcases h.key_ge hop with hle | ⟨⟨_, heq⟩, -⟩
  · exact hle
  · cases heq

end Slots

end SpotLess.RunLoop
