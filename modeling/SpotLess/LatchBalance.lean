import SpotLess.Iteration

namespace SpotLess.RunLoop

open Lib

variable {cfg : Config} {nodeId : ℕ} {s s' u : State} {t : Thd} {m : Message} {id : ℕ} {pc pc' : Pc}

lemma same_unsetReady : Same s ((s.unsetReady t id).goto t pc) :=
  ⟨rfl, rfl, rfl, rfl, fun _ hf => hf, fun _ hf => hf, rfl, rfl, rfl⟩

lemma same_setReady : Same s ((s.setReady t id).goto t pc) :=
  ⟨rfl, rfl, rfl, rfl, fun _ hf => hf, fun _ hf => hf, rfl, rfl, rfl⟩

lemma pc_unsetReady : ((s.unsetReady t id).goto t pc).pc = Function.update s.pc t pc := by
  rw [State.goto_pc, State.unsetReady_pc]

lemma pc_setReady : ((s.setReady t id).goto t pc).pc = Function.update s.pc t pc := by
  rw [State.goto_pc, State.setReady_pc]

lemma pc_congr (h : u.threads = s.threads) : u.pc = s.pc := by
  funext x
  rw [State.pc, h, State.pc]

lemma held_goto (x : Thd) : ((s.goto t pc).threads x).held = (s.threads x).held := by
  by_cases hx : x = t
  · subst hx
    simp [State.goto]
  · simp [State.goto, hx]

namespace Latches

lemma move (h : Latches cfg s) (hunavailable : ∀ j, Unavailable u.chk j ↔ Unavailable s.chk j)
    (hacquires : ∀ c, (u.chk.pc c).acquires = (s.chk.pc c).acquires)
    (hheld : ∀ x, (u.threads x).held = (s.threads x).held) (hpc : u.pc = Function.update s.pc t pc')
    (hrest : ∀ held, (s.threads t).held = held.toList → Balanced held ((s.pc t).rest cfg) →
      Balanced held (pc'.rest cfg)) : Latches cfg u := by
  refine ⟨h.custody.congr hunavailable ?_, ?_⟩
  · rintro (x | c) j
    · simp only [Holds, hheld]
    · simp only [Holds, hacquires]
  · intro x
    obtain ⟨held, heq, hb⟩ := h.sound x
    refine ⟨held, (hheld x).trans heq, ?_⟩
    rw [hpc]
    by_cases hx : x = t
    · subst hx
      rw [Function.update_self]
      exact hrest held heq hb
    · rwa [Function.update_of_ne hx]

lemma take (h : Latches cfg s) (hheld : (s.threads t).held = []) (hready : (s.chk.manager id).txnReady = true)
    (hrest : Balanced (some id) (pc'.rest cfg)) : Latches cfg ((s.unsetReady t id).goto t pc') := by
  have hself : (((s.unsetReady t id).goto t pc').threads t).held = [id] := by
    simp [State.goto, State.unsetReady, State.setHeld, hheld]
  have hother : ∀ x, x ≠ t → ((s.unsetReady t id).goto t pc').threads x = s.threads x := by
    intro x hx
    simp [State.goto, State.unsetReady, State.setHeld, hx]
  have hholds : ∀ x j, Holds ((s.unsetReady t id).goto t pc') x j ↔ Holds s x j ∨ x = .inl t ∧ j = id := by
    rintro (x | c) j
    · by_cases hx : x = t
      · subst hx
        simp [Holds, hself, hheld]
      · simp [Holds, hother x hx, hx]
    · simp [Holds, State.goto, State.unsetReady, State.setHeld, Checkpoint.State.modify,
        Checkpoint.State.getTransactionManager]
  refine ⟨h.custody.take ?_ (Checkpoint.State.txnReady_unset s.chk id) hholds, ?_⟩
  · simp [Unavailable, hready]
  · intro x
    by_cases hx : x = t
    · subst hx
      refine ⟨some id, hself, ?_⟩
      rw [State.goto_pc, Function.update_self]
      exact hrest
    · obtain ⟨held, heq, hb⟩ := h.sound x
      refine ⟨held, (congrArg Thread.held (hother x hx)).trans heq, ?_⟩
      rwa [State.goto_pc, Function.update_of_ne hx, State.unsetReady_pc]

lemma give (h : Latches cfg s) (hheld : (s.threads t).held = [id]) (hrest : Balanced none (pc'.rest cfg)) :
    Latches cfg ((s.setReady t id).goto t pc') := by
  have hself : (((s.setReady t id).goto t pc').threads t).held = [] := by
    simp [State.goto, State.setReady, State.setHeld, hheld]
  have hother : ∀ x, x ≠ t → ((s.setReady t id).goto t pc').threads x = s.threads x := by
    intro x hx
    simp [State.goto, State.setReady, State.setHeld, hx]
  have hholds : Holds s (.inl t) id := by
    rw [Holds, hheld]
    exact List.mem_singleton.mpr rfl
  refine ⟨h.custody.give hholds (Checkpoint.State.txnReady_set s.chk id) ?_, ?_⟩
  · rintro (x | c) j
    · by_cases hx : x = t
      · subst hx
        simp [Holds, hself, hheld]
      · simp [Holds, hother x hx, hx]
    · simp [Holds, State.goto, State.setReady, State.setHeld, Checkpoint.State.modify]
  · intro x
    by_cases hx : x = t
    · subst hx
      refine ⟨none, hself, ?_⟩
      rw [State.goto_pc, Function.update_self]
      exact hrest
    · obtain ⟨held, heq, hb⟩ := h.sound x
      refine ⟨held, (congrArg Thread.held (hother x hx)).trans heq, ?_⟩
      rwa [State.goto_pc, Function.update_of_ne hx, State.setReady_pc]

end Latches

variable (cfg nodeId) in
-- Beside the threads of the run loop the checkpoint threads run as they would with a well-behaved neighbour.
structure Inv (s : State) : Prop where
  slots : Slots cfg nodeId s
  latches : Latches cfg s
  chk : Reach (Checkpoint.step cfg nodeId) (fun s e => Checkpoint.OwnRun cfg s e ∧ Checkpoint.Fits s e)
    Checkpoint.init s.chk

lemma inv_init (hnode : nodeId < cfg.nodeCnt) : Inv cfg nodeId (init cfg nodeId) :=
  ⟨slots_init hnode, latches_init, .start⟩

namespace Inv

lemma lastDeleted_le (h : Inv cfg nodeId s) : s.chk.lastDeletedTxnMan ≤ s.chk.nextIndex := by
  have hparted := Checkpoint.parted_reach h.chk
  have hordered := Checkpoint.ordered_reach h.chk
  rcases hparted.deleted with h0 | ⟨-, hdel⟩
  · omega
  · rcases hordered.stable with h0 | hdue
    · omega
    · have hle := hdue.executed
      omega

lemma move (h : Inv cfg nodeId s) (hslots : Slots cfg nodeId u) (hchk : u.chk = s.chk)
    (hheld : ∀ x, (u.threads x).held = (s.threads x).held) (hpc : u.pc = Function.update s.pc t pc')
    (hrest : ∀ held, Balanced held ((s.pc t).rest cfg) → Balanced held (pc'.rest cfg)) : Inv cfg nodeId u := by
  refine ⟨hslots, h.latches.move ?_ ?_ hheld hpc fun held _ hb => hrest held hb, hchk ▸ h.chk⟩
  · rw [hchk]
    exact fun _ => Iff.rfl
  · rw [hchk]
    exact fun _ => rfl

lemma take (h : Inv cfg nodeId s) (hslots : Slots cfg nodeId ((s.unsetReady t id).goto t pc'))
    (hheld : (s.threads t).held = []) (hready : (s.chk.manager id).txnReady = true) (hid : s.chk.nextIndex ≤ id)
    (hrest : Balanced (some id) (pc'.rest cfg)) : Inv cfg nodeId ((s.unsetReady t id).goto t pc') := by
  refine ⟨hslots, h.latches.take hheld hready hrest, h.chk.next (.borrow id) ⟨⟨?_, fun _ => hid⟩, trivial⟩ rfl⟩
  exact h.lastDeleted_le.trans hid

lemma give (h : Inv cfg nodeId s) (hslots : Slots cfg nodeId ((s.setReady t id).goto t pc'))
    (hheld : (s.threads t).held = [id]) (hrest : Balanced none (pc'.rest cfg)) :
    Inv cfg nodeId ((s.setReady t id).goto t pc') := by
  have hholds : Holds s (.inl t) id := by
    rw [Holds, hheld]
    exact List.mem_singleton.mpr rfl
  refine ⟨hslots, h.latches.give hheld hrest, h.chk.next (.giveBack id) ⟨trivial, trivial⟩ (if_pos fun c hc => ?_)⟩
  exact Sum.inl_ne_inr (h.latches.custody.unique (.inl t) (.inr c) id hholds hc)

lemma latchStep {op : Op ℕ} (h : Inv cfg nodeId s) (hrest : (s.pc t).rest cfg = op :: pc'.rest cfg)
    (hmsg : ∀ k, pc'.message = some k → (s.pc t).message = some k)
    (hawait : ∀ k, pc'.awaits = some k → (s.pc t).awaits = some k) (hstage : pc'.Stage cfg s)
    (hs : s.latchStep t op = some u) : Inv cfg nodeId (u.goto t pc') := by
  obtain ⟨held, heq, hb⟩ := h.latches.sound t
  have hop : op ∈ (s.pc t).rest cfg := by
    rw [hrest]
    exact List.mem_cons_self
  rw [hrest] at hb
  cases op with
  | take id =>
    obtain ⟨rfl, hsome⟩ := balanced_take.mp hb
    rw [State.latchStep] at hs
    split_ifs at hs with hready
    obtain rfl := Option.some.inj hs
    refine h.take ?_ heq hready (h.slots.next_le_taken hop) hsome
    exact h.slots.move same_unsetReady rfl pc_unsetReady hmsg hawait hstage
  | give id =>
    obtain ⟨rfl, hnone⟩ := balanced_give.mp hb
    obtain rfl := Option.some.inj hs
    refine h.give ?_ heq hnone
    exact h.slots.move same_setReady rfl pc_setReady hmsg hawait hstage

lemma next_le_admitted (h : Inv cfg nodeId s) (hp : s.pc t = .admitted m) : s.chk.nextIndex ≤ m.last cfg := by
  have hout : s.Outstanding m := Slots.outstanding_awaits (by rw [hp]; rfl)
  have hstage := h.slots.stages t
  rw [hp] at hstage
  have hi := (h.slots.threads t m (by rw [hp]; rfl)).1.instanceId
  have hview : s.view m.instanceId ≤ m.view := by
    cases m with
    | sync v i => exact hstage.2.1
    | generic v i | proposal v i => exact h.slots.view_le hout (.inl trivial)
    | genericP v i => exact h.slots.view_le hout (.inr trivial)
    | clBatch v i | execute v i => exact False.elim hstage.2.2
  have hb := cfg.batchSize_pos
  have hlast := cfg.lastTxn_add_one m.view m.instanceId
  have hfirst : cfg.firstTxn (s.view m.instanceId - 1) m.instanceId ≤ cfg.firstTxn m.view m.instanceId :=
    firstTxn_mono (by omega)
  have hnext := h.slots.next m.instanceId hi
  rw [Message.last]
  omega

lemma held_of_rest (h : Inv cfg nodeId s) (hrest : (s.pc t).rest cfg = []) : (s.threads t).held = [] := by
  obtain ⟨held, heq, hb⟩ := h.latches.sound t
  rw [hrest, balanced_nil] at hb
  rw [heq, hb]
  rfl

lemma stage_opening (hreached : m.Reached s) (hahead : m.Ahead s) (hqueued : m.Queued) :
    (Pc.opening m (m.opening cfg)).Stage cfg s := by
  refine ⟨hreached, hahead, ?_, within_opening m⟩
  cases m with
  | execute v i => exact False.elim hqueued
  | sync v i | generic v i | proposal v i | genericP v i | clBatch v i => trivial

lemma admitted (h : Inv cfg nodeId s) (hp : s.pc t = .admitted m) (hready : (s.chk.manager (m.last cfg)).txnReady = true)
    (hm : m.opening cfg = []) : Inv cfg nodeId ((s.unsetReady t (m.last cfg)).goto t (.opening m (m.opening cfg))) := by
  have hstage := h.slots.stages t
  rw [hp] at hstage
  refine h.take ?_ (h.held_of_rest (by rw [hp]; rfl)) hready (h.next_le_admitted hp) ?_
  · refine h.slots.move same_unsetReady rfl pc_unsetReady ?_ ?_ (stage_opening hstage.1 hstage.2.1 hstage.2.2)
    · rw [hp]
      exact fun _ hk => hk
    · rw [hp]
      exact fun _ hk => hk
  · rw [Pc.rest, hm]
    exact balanced_closing m

lemma requeue (h : Inv cfg nodeId s) (hp : s.pc t = .admitted m) :
    Inv cfg nodeId ({ s with inbox := insert m s.inbox }.goto t .idle) := by
  refine h.move (h.slots.requeue hp) rfl ?_ State.goto_pc ?_
  · exact held_goto
  · rw [hp]
    exact fun _ hb => hb

lemma go (h : Inv cfg nodeId s) (hmsg : ∀ k, pc'.message = some k → (s.pc t).message = some k)
    (hawait : ∀ k, pc'.awaits = some k → (s.pc t).awaits = some k) (hstage : pc'.Stage cfg s)
    (hrest : ∀ held, Balanced held ((s.pc t).rest cfg) → Balanced held (pc'.rest cfg)) :
    Inv cfg nodeId (s.goto t pc') :=
  h.move (h.slots.move same_goto rfl State.goto_pc hmsg hawait hstage) rfl held_goto State.goto_pc hrest

lemma idle (h : Inv cfg nodeId s) (hrest : (s.pc t).rest cfg = []) : Inv cfg nodeId (s.goto t .idle) := by
  refine h.go (by simp [Pc.message]) (by simp [Pc.awaits]) trivial ?_
  rw [hrest]
  exact fun _ hb => hb

lemma taken (h : Inv cfg nodeId s) (hp : s.pc t = .taken m) (hlate : ¬ s.Late cfg m) :
    Inv cfg nodeId (s.goto t (.admitted m)) := by
  have hstage := h.slots.stages t
  rw [hp] at hstage
  have hahead : m.Ahead s := by
    cases m with
    | sync v i => exact not_lt.mp fun hlt => hlate (.inl hlt)
    | generic v i | proposal v i | genericP v i | clBatch v i | execute v i => trivial
  refine h.go ?_ ?_ ⟨hstage.1, hahead, hstage.2⟩ ?_ <;> rw [hp]
  · exact fun _ hk => hk
  · exact fun _ hk => hk
  · exact fun _ hb => hb

lemma enter {v i : ℕ} (h : Inv cfg nodeId s) (hp : s.pc t = .admitted (.proposal v i)) :
    Inv cfg nodeId (s.goto t (.opening (.proposal v i) (Message.opening cfg (.proposal v i)))) := by
  refine h.go ?_ ?_ (stage_opening trivial trivial trivial) ?_ <;> rw [hp]
  · exact fun _ hk => hk
  · exact fun _ hk => hk
  · intro held hb
    rw [balanced_nil.mp hb]
    exact balanced_iteration _ ⟨_, rfl⟩

end Inv

structure Beside (cfg : Config) (nodeId : ℕ) (s : State) (e : Checkpoint.Event) (u : State) : Prop where
  step : Checkpoint.step cfg nodeId s.chk e = some u.chk
  threads : u.threads = s.threads
  same : Same s u

lemma beside_of_checkpoint {e : Checkpoint.Event} (hs : s.checkpoint cfg nodeId e = some u) :
    Beside cfg nodeId s e u := by
  obtain ⟨chk, hchk, rfl⟩ := Option.map_eq_some_iff.mp hs
  refine ⟨hchk, rfl, rfl, rfl, rfl, rfl, fun id => ?_, fun id => ?_, rfl, rfl, rfl⟩
  all_goals
    dsimp only
    split_ifs
    · exact fun hf => hf
    · exact fun hf => by cases hf

lemma Beside.pc_goto {e : Checkpoint.Event} (h : Beside cfg nodeId s e u) :
    (u.goto t pc).pc = Function.update s.pc t pc := by
  rw [State.goto_pc, pc_congr h.threads]

lemma Same.goto (h : Same s u) : Same s (u.goto t pc) :=
  ⟨h.view, h.nextSendView, h.lastSentView, h.incompleteProposalCnt, h.proposalReceived, h.genericReceived, h.inbox,
    h.arrived, h.handled⟩

namespace Inv

lemma beside {e : Checkpoint.Event} (h : Inv cfg nodeId s) (hb : Beside cfg nodeId s e u) (hne : ∀ c, e ≠ .thread c)
    (hok : Checkpoint.OwnRun cfg s.chk e ∧ Checkpoint.Fits s.chk e)
    (hlatch : ∀ j, Unavailable u.chk j ↔ Unavailable s.chk j) (hslots : Slots cfg nodeId (u.goto t pc'))
    (hrest : (s.pc t).rest cfg = pc'.rest cfg) : Inv cfg nodeId (u.goto t pc') := by
  refine ⟨hslots, h.latches.move hlatch ?_ ?_ hb.pc_goto ?_, h.chk.next e hok hb.step⟩
  · intro c
    show (u.chk.pc c).acquires = _
    rw [(Checkpoint.step_besides hb.step hne).pc]
  · intro x
    rw [held_goto, hb.threads]
  · rw [hrest]
    exact fun _ _ hb => hb

lemma incNextIndex {v i : ℕ} (h : Inv cfg nodeId s) (hp : s.pc t = .opening (.execute v i) [])
    (hs : s.checkpoint cfg nodeId .execute = some u) : Inv cfg nodeId (u.goto t (.sending (.execute v i))) := by
  have hb := beside_of_checkpoint hs
  have hexec := hb.step
  rw [Checkpoint.step] at hexec
  split_ifs at hexec
  have hchk : u.chk = s.chk.execute cfg := (Option.some.inj hexec).symm
  refine h.beside hb (by simp) ⟨trivial, trivial⟩ ?_ ?_ (by rw [hp]; rfl)
  · rw [hchk]
    exact fun _ => Iff.rfl
  · refine h.slots.incNextIndex hp hb.same.goto ?_ hb.pc_goto
    exact congrArg Checkpoint.State.nextIndex hchk

lemma ready_of_executed {k : ℕ} (h : Inv cfg nodeId s) (hexec : s.chk.executed = some k)
    (hdue : (k + 1) % Checkpoint.txnPerChkpt cfg = 0) : (s.chk.manager (sub64 k 5)).txnReady = true := by
  have hown : Checkpoint.Own cfg nodeId s.chk := Checkpoint.own_reach (h.chk.mono fun _ _ hok => hok.1.fromFaulty)
  have hlast := hown.executed k hexec
  have hordered := Checkpoint.ordered_reach h.chk
  have hge : 5 ≤ k := by
    have hkept := Checkpoint.keptRange_ge cfg
    have hle := Nat.le_of_dvd (Nat.succ_pos k) (Nat.dvd_of_mod_eq_zero hdue)
    rw [Checkpoint.txnPerChkpt_eq] at hle
    omega
  rw [sub64_of_le hge]
  by_contra hready
  obtain ⟨x | c, hx⟩ := h.latches.custody.owner (k - 5) (Bool.eq_false_iff.mpr hready)
  · have hle := h.slots.next_le_held h.latches hx
    omega
  · have hbefore := (hordered.due_recorded (Checkpoint.Pc.recorded_of_acquires hx)).before (by simp [hexec])
    omega

lemma send (h : Inv cfg nodeId s) (hp : s.pc t = .sending m) (hfits : s.chk.nextIndex ≤ 2 ^ 32)
    (hs : s.checkpoint cfg nodeId .sendCheckpoints = some u) :
    Inv cfg nodeId (u.goto t (.closing m (m.closing cfg))) := by
  have hb := beside_of_checkpoint hs
  obtain ⟨k, -, hchk⟩ := Option.map_eq_some_iff.mp hb.step
  have hstage := h.slots.stages t
  rw [hp] at hstage
  refine h.beside hb (by simp) ⟨fun k hk hdue => h.ready_of_executed hk hdue, hfits⟩ ?_ ?_ (by rw [hp]; rfl)
  · intro j
    rw [← hchk, Checkpoint.State.sendCheckpoints]
    split_ifs
    · exact iff_of_eq (congrArg (fun x => Checkpoint.TxnManager.txnReady x = false)
        Checkpoint.State.manager_getTransactionManager)
    · rfl
  · refine h.slots.move hb.same.goto ?_ hb.pc_goto ?_ (by simp [Pc.awaits]) ?_
    · show u.chk.nextIndex = _
      rw [← hchk, Checkpoint.State.sendCheckpoints]
      split_ifs <;> rfl
    · rw [hp]
      exact fun _ hk => hk
    · obtain ⟨⟨v, i, rfl⟩, hran⟩ := hstage
      exact ⟨fun _ => trivial, hran, List.suffix_rfl⟩

lemma not_held_of_releases {c : Bool} {k : ℕ} (h : Inv cfg nodeId s) (hrel : (s.chk.pc c).releases cfg = some k) :
    ¬ Unavailable s.chk k := by
  have hparted := Checkpoint.parted_reach h.chk
  have hordered := Checkpoint.ordered_reach h.chk
  intro hk
  obtain ⟨x | v, hx⟩ := h.latches.custody.owner k hk
  · have hle := h.slots.next_le_held h.latches hx
    have hlt := hparted.releases_lt hordered hrel
    omega
  · exact hparted.not_acquired hordered hrel v hx

lemma custody_thread {c : Bool} (h : Inv cfg nodeId s) (hb : Beside cfg nodeId s (.thread c) u) :
    Custody (Unavailable u.chk) (Holds u) := by
  have hpc := (Checkpoint.threadStep_handles hb.step).pc
  have hother : ∀ x j, x ≠ .inr c → (Holds u x j ↔ Holds s x j) := by
    rintro (x | v) j hx
    · rw [Holds, hb.threads, Holds]
    · rw [Holds, hpc v fun hv => hx (congrArg Sum.inr hv), Holds]
  have hsame : (u.chk.pc c).acquires = (s.chk.pc c).acquires → ∀ x j, Holds u x j ↔ Holds s x j := by
    intro heq x j
    by_cases hx : x = .inr c
    · rw [hx, Holds, heq, Holds]
    · exact hother x j hx
  cases Checkpoint.threadStep_latching hb.step with
  | acquire id hready hold hnew hlatch =>
    have hholds : ∀ x j, Holds u x j ↔ Holds s x j ∨ x = .inr c ∧ j = id := by
      intro x j
      by_cases hx : x = .inr c
      · subst hx
        simp [Holds, hold, hnew, eq_comm]
      · simp [hother x j hx, hx]
    exact h.latches.custody.take (by simp [Unavailable, hready]) hlatch hholds
  | finish id hold hnew hlatch =>
    refine h.latches.custody.give (show Holds s (.inr c) id from hold) hlatch fun x j => ?_
    by_cases hx : x = .inr c
    · subst hx
      simp [Holds, hold, hnew, eq_comm]
    · simp [hother x j hx, hx]
  | release k hrel heq hlatch =>
    have hfree := h.not_held_of_releases hrel
    refine h.latches.custody.congr (fun j => (hlatch j).trans ?_) (hsame heq)
    refine ⟨And.left, fun hj => ⟨hj, ?_⟩⟩
    rintro rfl
    exact hfree hj
  | keep heq hlatch => exact h.latches.custody.congr hlatch (hsame heq)

lemma thread {c : Bool} (h : Inv cfg nodeId s) (hb : Beside cfg nodeId s (.thread c) u) : Inv cfg nodeId u := by
  have hpc := pc_congr hb.threads
  have hupdate : u.pc = Function.update s.pc .proposal (s.pc .proposal) := by rw [hpc, Function.update_eq_self]
  refine ⟨?_, ⟨h.custody_thread hb, ?_⟩, h.chk.next (.thread c) ⟨trivial, trivial⟩ hb.step⟩
  · exact h.slots.move hb.same (Checkpoint.threadStep_handles hb.step).nextIndex hupdate (fun _ hk => hk)
      (fun _ hk => hk) (h.slots.stages _)
  · intro x
    rw [hpc, hb.threads]
    exact h.latches.sound x

lemma dequeue (h : Inv cfg nodeId s) (hidle : s.pc t = .idle) (hpassed : Passed s (.dequeue t m))
    (hs : s.dequeue cfg nodeId t m = some u) : Inv cfg nodeId u := by
  have hrest : ∀ (ops : List (Op ℕ)) held, Balanced none ops → Balanced held ((s.pc t).rest cfg) →
      Balanced held ops := by
    intro ops held hops hb
    rw [hidle] at hb
    rwa [balanced_nil.mp hb]
  cases t with
  | worker w =>
    simp only [State.dequeue] at hs
    split_ifs at hs with hguard
    obtain rfl := Option.some.inj hs
    refine h.move (h.slots.dequeueWorker hguard.1 hguard.2.1 hguard.2.2) rfl held_goto State.goto_pc ?_
    rw [hidle]
    exact fun _ hb => hb
  | proposal =>
    cases m with
    | clBatch v i =>
      simp only [State.dequeue] at hs
      split_ifs at hs with hguard
      obtain rfl := Option.some.inj hs
      exact h.move (h.slots.dequeueProposal hguard.1 hguard.2.1 hguard.2.2 (within_opening _)) rfl held_goto
        State.goto_pc fun held => hrest _ held (balanced_iteration _ ⟨_, rfl⟩)
    | sync v i | generic v i | proposal v i | genericP v i | execute v i => cases hs
  | generic =>
    cases m with
    | genericP v i =>
      simp only [State.dequeue] at hs
      split_ifs at hs with hguard
      obtain rfl := Option.some.inj hs
      refine h.move (h.slots.dequeueGeneric hguard.1 hguard.2.1 hguard.2.2.2) rfl held_goto State.goto_pc ?_
      rw [hidle]
      exact fun _ hb => hb
    | sync v i | generic v i | proposal v i | clBatch v i | execute v i => cases hs
  | execute =>
    cases m with
    | execute v i =>
      simp only [State.dequeue] at hs
      split_ifs at hs with hguard
      obtain rfl := Option.some.inj hs
      exact h.move (h.slots.dequeueExecute hguard.1 hguard.2 hpassed (within_opening _)) rfl held_goto
        State.goto_pc fun held => hrest _ held (balanced_iteration _ ⟨_, rfl⟩)
    | sync v i | generic v i | proposal v i | genericP v i | clBatch v i => cases hs

lemma handle (h : Inv cfg nodeId s) (hp : s.pc t = .opening m []) (hm : ∀ v i, m ≠ .execute v i)
    (hH : Handles cfg s m u) : Inv cfg nodeId (u.goto t (.closing m (m.closing cfg))) := by
  have hpc : (u.goto t (.closing m (m.closing cfg))).pc = Function.update s.pc t (.closing m (m.closing cfg)) := by
    rw [State.goto_pc, pc_congr hH.threads]
  refine h.move (h.slots.handle h.latches hp hm hH) hH.chk ?_ hpc ?_
  · intro x
    rw [held_goto, hH.threads]
  · rw [hp]
    exact fun _ hb => hb

lemma closed (h : Inv cfg nodeId s) (hp : s.pc t = .closing m []) : Inv cfg nodeId ((s.completed m).goto t .idle) := by
  have hsame : (s.completed m).chk = s.chk ∧ (s.completed m).threads = s.threads := by
    cases m <;> exact ⟨rfl, rfl⟩
  have hpc : ((s.completed m).goto t .idle).pc = Function.update s.pc t .idle := by
    rw [State.goto_pc, pc_congr hsame.2]
  refine h.move (h.slots.closed hp) hsame.1 ?_ hpc ?_
  · intro x
    rw [held_goto, hsame.2]
  · rw [hp]
    exact fun _ hb => hb

lemma run {accept quorum : Bool} (h : Inv cfg nodeId s) (hfits : Fits s (.run t accept quorum))
    (hs : s.run cfg nodeId t accept quorum = some u) : Inv cfg nodeId u := by
  cases hp : s.pc t with
  | idle =>
    simp only [State.run, show (s.threads t).pc = _ from hp] at hs
    cases hs
  | taken m =>
    simp only [State.run, show (s.threads t).pc = _ from hp] at hs
    obtain rfl := Option.some.inj hs
    split_ifs with hlate
    · exact h.idle (by rw [hp]; rfl)
    · exact h.taken hp hlate
  | admitted m =>
    cases m with
    | proposal v i =>
      simp only [State.run, show (s.threads t).pc = _ from hp] at hs
      obtain rfl := Option.some.inj hs
      split_ifs
      · exact h.idle (by rw [hp]; rfl)
      · exact h.enter hp
    | sync v i | generic v i | genericP v i =>
      simp only [State.run, show (s.threads t).pc = _ from hp] at hs
      split_ifs at hs with hready
      · obtain rfl := Option.some.inj hs
        exact h.admitted hp hready rfl
      · obtain rfl := Option.some.inj hs
        exact h.requeue hp
    | clBatch v i | execute v i =>
      have hstage := h.slots.stages t
      rw [hp] at hstage
      exact False.elim hstage.2.2
  | opening m ops =>
    have hstage := h.slots.stages t
    rw [hp] at hstage
    cases ops with
    | cons op ops =>
      simp only [State.run, show (s.threads t).pc = _ from hp] at hs
      obtain ⟨w, hw, rfl⟩ := Option.map_eq_some_iff.mp hs
      refine h.latchStep ?_ ?_ ?_ ?_ hw
      · rw [hp]
        rfl
      · rw [hp]
        exact fun _ hk => hk
      · rw [hp]
        exact fun _ hk => hk
      · exact ⟨hstage.1, hstage.2.1, hstage.2.2.1, fun op hop => hstage.2.2.2 op (List.mem_cons_of_mem _ hop)⟩
    | nil =>
      cases m with
      | execute v i =>
        simp only [State.run, show (s.threads t).pc = _ from hp] at hs
        obtain ⟨w, hw, rfl⟩ := Option.map_eq_some_iff.mp hs
        exact h.incNextIndex hp hw
      | sync v i | generic v i | proposal v i | genericP v i | clBatch v i =>
        simp only [State.run, show (s.threads t).pc = _ from hp] at hs
        obtain rfl := Option.some.inj hs
        exact h.handle hp (by simp) (handles_handle accept quorum)
  | sending m =>
    have hstage := h.slots.stages t
    rw [hp] at hstage
    obtain ⟨⟨v, i, rfl⟩, -⟩ := hstage
    obtain rfl : t = .execute := Slots.execute_of_assigned (h.slots.threads t (.execute v i) (by rw [hp]; rfl)).2
    simp only [State.run, show (s.threads .execute).pc = _ from hp] at hs
    obtain ⟨w, hw, rfl⟩ := Option.map_eq_some_iff.mp hs
    exact h.send hp hfits hw
  | closing m ops =>
    have hstage := h.slots.stages t
    rw [hp] at hstage
    cases ops with
    | cons op ops =>
      simp only [State.run, show (s.threads t).pc = _ from hp] at hs
      obtain ⟨w, hw, rfl⟩ := Option.map_eq_some_iff.mp hs
      refine h.latchStep ?_ ?_ ?_ ?_ hw
      · rw [hp]
        rfl
      · rw [hp]
        exact fun _ hk => hk
      · simp [Pc.awaits]
      · exact ⟨fun _ => hstage.1 (List.cons_ne_nil _ _), hstage.2.1, (List.suffix_cons op ops).trans hstage.2.2⟩
    | nil =>
      simp only [State.run, show (s.threads t).pc = _ from hp] at hs
      obtain rfl := Option.some.inj hs
      exact h.closed hp

lemma step {e : Event} (h : Inv cfg nodeId s) (hok : Faultless cfg nodeId s e) (hpassed : Passed s e)
    (hfits : Fits s e) (hs : step cfg nodeId s e = some s') : Inv cfg nodeId s' := by
  cases e with
  | arrive m =>
    obtain rfl := Option.some.inj hs
    have hpc : s.pc = Function.update s.pc .proposal (s.pc .proposal) := (Function.update_eq_self ..).symm
    exact h.move (h.slots.arrive hok) rfl (fun _ => rfl) hpc fun _ hb => hb
  | dequeue t m =>
    simp only [RunLoop.step] at hs
    split_ifs at hs with hidle
    exact h.dequeue hidle hpassed hs
  | run t accept quorum => exact h.run hfits hs
  | checkpoint c => exact h.thread (beside_of_checkpoint hs)

end Inv

lemma Inv.latchesBalanced (h : Inv cfg nodeId s) : LatchesBalanced s where
  one := by
    intro t
    obtain ⟨held, heq, -⟩ := h.latches.sound t
    rw [heq]
    cases held <;> simp
  asserts := by
    intro t m id ops hp
    refine h.latches.custody.held (.inl t) id ?_
    rcases hp with hp | hp
    · have hrest : (s.pc t).rest cfg = .give id :: (ops ++ m.closing cfg) := by
        rw [State.pc, hp]
        rfl
      exact h.latches.holds_next hrest
    · have hrest : (s.pc t).rest cfg = .give id :: ops := by
        rw [State.pc, hp]
        rfl
      exact h.latches.holds_next hrest
  finished := by
    intro c id hp
    refine h.latches.custody.held (.inr c) id ?_
    rw [Holds, hp]
    rfl
  exclusive := h.latches.custody.unique
  ended := fun t hp => h.held_of_rest (by rw [State.pc, hp]; rfl)
  free := h.latches.custody.owner

variable (cfg) in
theorem latches_balanced (hnode : nodeId < cfg.nodeCnt) :
    ∀ s, Reach (step cfg nodeId) (fun s e => Faultless cfg nodeId s e ∧ Passed s e ∧ Fits s e) (init cfg nodeId) s →
      LatchesBalanced s := by
  intro s h
  refine (h.invariant (Inv cfg nodeId) (inv_init hnode) fun s e s' _ hok hs h => ?_).latchesBalanced
  exact h.step hok.1 hok.2.1 hok.2.2 hs

instance : (e : Event) → Decidable (Faultless cfg nodeId s e)
  | .arrive (.sync _ i) => inferInstanceAs (Decidable (i < cfg.totInstances))
  | .arrive (.generic v i) | .arrive (.proposal v i) =>
    inferInstanceAs (Decidable (i < cfg.totInstances ∧ cfg.getViewPrimary v i ≠ nodeId ∧ _ ∉ s.arrived))
  | .arrive (.genericP _ _) | .arrive (.clBatch _ _) | .arrive (.execute _ _) => inferInstanceAs (Decidable False)
  | .dequeue _ _ | .run _ _ _ | .checkpoint _ => inferInstanceAs (Decidable True)

instance : (e : Event) → Decidable (Fits s e)
  | .run .execute _ _ => inferInstanceAs (Decidable (_ ≤ _))
  | .run (.worker _) _ _ | .run .proposal _ _ | .run .generic _ _ | .arrive _ | .dequeue _ _ | .checkpoint _ =>
    inferInstanceAs (Decidable True)

instance : (e : Event) → Decidable (Passed s e)
  | .dequeue .execute (.execute _ _) => inferInstanceAs (Decidable (_ ≤ _))
  | .arrive _ | .run _ _ _ | .checkpoint _ | .dequeue (.worker _) _ | .dequeue .proposal _ | .dequeue .generic _
  | .dequeue .execute (.sync _ _) | .dequeue .execute (.generic _ _) | .dequeue .execute (.proposal _ _)
  | .dequeue .execute (.genericP _ _) | .dequeue .execute (.clBatch _ _) => inferInstanceAs (Decidable True)

def iteration (t : Thd) (m : Message) (n : ℕ) : List Event := .dequeue t m :: List.replicate n (.run t true true)

-- The first two views of instance 0, of which replica 0 leads the first one, and the first batch.
theorem latches_balanced_first_batch :
    ∃ s, Reach (step .fourReplicas 0) (fun s e => Faultless .fourReplicas 0 s e ∧ Passed s e ∧ Fits s e)
        (init .fourReplicas 0) s ∧
      s.chk.nextIndex = 5 ∧ LatchesBalanced s := by
  obtain ⟨s, hs, hnext⟩ := exists_reach_of_runWith (step .fourReplicas 0)
    (fun s e => Faultless .fourReplicas 0 s e ∧ Passed s e ∧ Fits s e) (init .fourReplicas 0)
    (iteration .proposal (.clBatch 0 0) 14 ++ iteration .generic (.genericP 0 0) 5 ++
      [.arrive (.sync 0 0)] ++ iteration (.worker 0) (.sync 0 0) 5 ++
      [.arrive (.proposal 1 0), .arrive (.generic 1 0)] ++ iteration (.worker 0) (.proposal 1 0) 18 ++
      iteration (.worker 0) (.generic 1 0) 5 ++ iteration .execute (.execute 0 0) 13)
    (fun s => decide (s.chk.nextIndex = 5 ∧ (s.threads .execute).pc = .idle)) (by decide +kernel)
  exact ⟨s, hs, (of_decide_eq_true hnext).1, latches_balanced .fourReplicas (by decide) s hs⟩

end SpotLess.RunLoop
