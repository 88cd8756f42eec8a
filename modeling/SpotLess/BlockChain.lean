import SpotLess.FirstCommit
import SpotLess.AskResponse

/-! The chain of executed batches. A block takes its batch from `batchreq`, which one overload of `set_primarybatch`
fills; the handlers of proposals call the other one, which fills `propmsg`. -/

namespace SpotLess

open Lib

-- The message of which a block keeps a copy.
structure BatchRequests where
  view : ℕ
  index : List ℕ
  requestMsg : List ClientQuery
  hash : Bytes

structure BChainStruct where
  txnId : ℕ
  batchInfo : BatchRequests

-- What a manager keeps of its batch; `TxnManager::init` and the table leave both fields null.
structure PrimaryBatch where
  batchreq : Option BatchRequests := none
  propmsg : Option ProposalMsg := none

def PrimaryBatch.set (b : PrimaryBatch) : BatchRequests ⊕ ProposalMsg → PrimaryBatch
  | .inl breq => { b with batchreq := some breq }
  | .inr prop => { b with propmsg := some prop }

namespace BChain

-- A batch whose transactions have been run, with the proposal that was stored for it.
structure Executed where
  last : ℕ
  propmsg : Option ProposalMsg

-- A replica with its chain; `executed` is the history, and a process that reads a null pointer stops.
structure State where
  replica : Replica
  batches : ℕ → PrimaryBatch
  bchainMap : List BChainStruct
  executed : List Executed
  running : Bool

def init (cfg : Config) (p : ℕ) : State where
  replica := .init cfg p
  batches _ := {}
  bchainMap := []
  executed := []
  running := true

inductive Event
  | act (e : Replica.Event)
  | askResponse (m : ProposalMsg)

variable (cfg : Config) (crypto : Crypto)

-- The proposal that a handler passes to `set_primarybatch`, with the transaction whose manager it is for.
def storedProposal (r : Replica) : Event → Option (ℕ × ProposalMsg)
  | .act (.deliver (.proposal m)) =>
    if m.txnId ≤ r.exec.nextIndex ∨ (r.table (m.txnId + 2)).proposalReceived then none
    else some (m.index.getLastD 0, m)
  | .act (.proposalThread _ _) =>
    match r.threads.proposal with
    | .stamped slot batch =>
      some (slot * cfg.batchSize + cfg.batchSize - 1, r.proposalOf cfg crypto slot batch)
    | _ => none
  | .askResponse m => if (r.table (m.txnId + 2)).proposalReceived then none else some (m.index.getLastD 0, m)
  | _ => none

def executedTxn (r : Replica) : Event → Option ℕ
  | .act (.execute k) =>
    match r.exec.queue[k]? with
    | some m =>
      if r.exec.nextIndex < m.txnId ∧ m.txnId = r.exec.expectedExecuteCount ∧ m.valid then
        some ((Executor.executeIds m).getLastD 0)
      else none
    | none => none
  | _ => none

namespace State

def setPrimarybatch (c : State) (id : ℕ) (msg : BatchRequests ⊕ ProposalMsg) : State :=
  { c with batches := Function.update c.batches id ((c.batches id).set msg) }

def release (c : State) (id : ℕ) : State := { c with batches := Function.update c.batches id {} }

def store (c : State) (e : Event) : State :=
  match e, storedProposal cfg crypto c.replica e with
  | .act (.recycle id _), _ => c.release id
  | _, some (id, m) => c.setPrimarybatch id (.inr m)
  | _, none => c

def record (c : State) (last : ℕ) : State :=
  { c with executed := c.executed ++ [⟨last, (c.batches last).propmsg⟩] }

-- `add_block` after the last transaction of a batch, within the step that leads to `r`.
def addBlock (c : State) (last : ℕ) (r : Replica) : State :=
  match (c.batches last).batchreq with
  | some breq => { c with replica := r, bchainMap := c.bchainMap ++ [⟨last, breq⟩] }
  | none => { c with running := false }

def advance (c : State) (e : Event) (r : Replica) : State :=
  match executedTxn c.replica e with
  | some last => (c.record last).addBlock last r
  | none => { c.store cfg crypto e with replica := r }

def handle (c : State) : Event → Option Replica
  | .act e => c.replica.step cfg crypto e
  | .askResponse m => c.replica.processSpotlessAskResponse cfg crypto m

end State

def step (c : State) (e : Event) : Option State :=
  if c.running then (c.handle cfg crypto e).map (c.advance cfg crypto e) else none

def Reachable (p : ℕ) (c : State) : Prop := Reach (step cfg crypto) (fun _ _ => True) (init cfg p) c

structure Holds (b : BChainStruct) (x : Executed) : Prop where
  txnId : b.txnId = x.last
  batch : ∃ m, x.propmsg = some m ∧ b.batchInfo.requestMsg = m.requestMsg ∧ b.batchInfo.hash = m.hash

def Recorded (c : State) : Prop := List.Forall₂ Holds c.bchainMap c.executed

variable {cfg crypto} {p : ℕ} {c d : State}

section Run

-- Nothing calls the overload that fills `batchreq`.
structure Unfilled (c : State) : Prop where
  batchreq : ∀ id, (c.batches id).batchreq = none
  bchainMap : c.bchainMap = []
  running : c.running = true → c.executed = []

lemma unfilled_init : Unfilled (init cfg p) where
  batchreq _ := rfl
  bchainMap := rfl
  running _ := rfl

lemma Unfilled.update {id : ℕ} {b : PrimaryBatch} (h : Unfilled c) (hb : b.batchreq = none) :
    Unfilled { c with batches := Function.update c.batches id b } := by
  refine ⟨fun k => ?_, h.bchainMap, h.running⟩
  dsimp only
  by_cases hk : k = id
  · subst hk
    rw [Function.update_self]
    exact hb
  · rw [Function.update_of_ne hk]
    exact h.batchreq k

lemma Unfilled.store (h : Unfilled c) (e : Event) : Unfilled (c.store cfg crypto e) := by
  unfold State.store
  split
  · exact h.update rfl
  · exact h.update (h.batchreq _)
  · exact h

lemma step_cases {e : Event} (h : step cfg crypto c e = some d) :
    c.running = true ∧ ∃ r, c.handle cfg crypto e = some r ∧ d = c.advance cfg crypto e r := by
  rw [step] at h
  split_ifs at h with hrun
  obtain ⟨r, hr, rfl⟩ := Option.map_eq_some_iff.mp h
  exact ⟨hrun, r, hr, rfl⟩

lemma Unfilled.addBlock (h : Unfilled c) (last : ℕ) (r : Replica) :
    (c.record last).addBlock last r = { c.record last with running := false } := by
  have hnone : ((c.record last).batches last).batchreq = none := h.batchreq last
  rw [State.addBlock, hnone]

lemma Unfilled.step {e : Event} (h : Unfilled c) (hs : step cfg crypto c e = some d) : Unfilled d := by
  obtain ⟨hrun, r, -, rfl⟩ := step_cases hs
  rw [State.advance]
  split
  · rw [h.addBlock]
    exact ⟨h.batchreq, h.bchainMap, fun hr => absurd hr Bool.false_ne_true⟩
  · exact ⟨(h.store e).batchreq, (h.store e).bchainMap, (h.store e).running⟩

lemma Reachable.unfilled (h : Reachable cfg crypto p c) : Unfilled c :=
  Reach.invariant Unfilled unfilled_init (fun _ _ _ _ _ hs hc => hc.step hs) h

end Run

section Lift

variable {r s : Replica} {e : Replica.Event}

lemma executedTxn_nextIndex {last : ℕ} (h : executedTxn r (.act e) = some last)
    (hs : r.step cfg crypto e = some s) : r.exec.nextIndex < s.exec.nextIndex := by
  unfold executedTxn at h
  split at h
  · rename_i k heq
    cases heq
    split at h
    · rename_i m hm
      split_ifs at h with hc
      obtain ⟨hlt, hturn, hvalid⟩ := hc
      obtain ⟨x, hx, rfl⟩ := Option.map_eq_some_iff.mp hs
      simp only [Executor.step, hm, Executor.handle] at hx
      rw [if_neg (by omega), if_neg (by simpa using hturn)] at hx
      split_ifs at hx
      obtain rfl := Option.some.inj hx
      have hb := cfg.five_le_batch
      simp only [Replica.setExec_exec, Executor.processExecute, if_pos hvalid]
      omega
    · cases h
  · cases h

lemma stored_received {m : ProposalMsg} (he : Replica.Regular cfg r (.deliver (.proposal m)))
    (hindex : ¬ m.txnId ≤ r.exec.nextIndex) (hfresh : (r.table (m.txnId + 2)).proposalReceived = false)
    (hs : r.step cfg crypto (.deliver (.proposal m)) = some s) : (s.table (m.txnId + 2)).proposalReceived = true := by
  have hm := he.2 m rfl
  have hlast : m.index.getLastD 0 = m.txnId + 2 := by rw [hm.index, cfg.slotTxns_getLastD, hm.txnId]
  simp only [Replica.step, Replica.handle, Replica.handleProposal, if_neg hindex, Replica.processHotstuffProposal,
    hfresh, Bool.false_eq_true, if_false] at hs
  split_ifs at hs
  split at hs
  · cases hs
  · split_ifs at hs
    · rw [(Replica.retains_advanceView hs _).received]
      simp only [Replica.rememberTxnid, hlast, Replica.setInst_table, Function.update_self]
    · obtain rfl := Option.some.inj hs
      simp only [Replica.rememberTxnid, hlast, Replica.setInst_table, Function.update_self]

lemma stored_takes {id : ℕ} {m : ProposalMsg} (h : storedProposal cfg crypto r (.act e) = some (id, m))
    (horderly : r.Orderly cfg) (he : Replica.Regular cfg r e) (hs : r.step cfg crypto e = some s) :
    r.Takes cfg crypto e s m ∧ id = cfg.lastTxn m.view m.instanceId := by
  unfold storedProposal at h
  split at h
  · rename_i m' heq
    cases heq
    split_ifs at h with hc
    cases h
    rw [not_or, Bool.not_eq_true] at hc
    refine ⟨(Replica.Accepts.received hc.2 (stored_received he hc.1 hc.2 hs)).takes horderly he hs, ?_⟩
    rw [(he.2 m rfl).index, cfg.slotTxns_getLastD]
  · rename_i heq
    cases heq
    split at h
    · rename_i slot batch hpc
      cases h
      exact ⟨(Replica.Accepts.proposed hpc).takes horderly he hs, (Replica.proposalOf_last crypto horderly.alloc hpc).2.2⟩
    · cases h
  · rename_i heq
    cases heq
  · cases h

lemma unstored_retains (h : storedProposal cfg crypto r (.act e) = none) (hs : r.step cfg crypto e = some s) :
    r.Retains s ∨ ∃ id t, e = .recycle id t ∧ s = r.setTxn id t := by
  cases Replica.step_fills hs with
  | retains hret => exact .inl hret
  | @proposal m table heq hindex hacc hret =>
    subst heq
    have hc : ¬ (m.txnId ≤ r.exec.nextIndex ∨ (r.table (m.txnId + 2)).proposalReceived = true) := by
      simp [hacc.fresh, hindex]
    simp only [storedProposal, if_neg hc] at h
    cases h
  | @batch i j slot batch table heq hpc hfill htable htrace =>
    subst heq
    simp only [storedProposal, hpc] at h
    cases h
  | recycle heq hindex hset => exact .inr ⟨_, _, heq, hset⟩

lemma State.store_some {x : ℕ × ProposalMsg} (hnot : ∀ id t, e ≠ .recycle id t)
    (h : storedProposal cfg crypto c.replica (.act e) = some x) :
    c.store cfg crypto (.act e) = c.setPrimarybatch x.1 (.inr x.2) := by
  cases e with
  | recycle id t => exact absurd rfl (hnot id t)
  | _ => simp only [State.store, h]

lemma State.store_none (hnot : ∀ id t, e ≠ .recycle id t) (h : storedProposal cfg crypto c.replica (.act e) = none) :
    c.store cfg crypto (.act e) = c := by
  cases e with
  | recycle id t => exact absurd rfl (hnot id t)
  | _ => simp only [State.store, h]

-- The manager that a batch is executed with has kept its proposal in the other field.
def Kept (cfg : Config) (c : State) : Prop := ∀ w i, i < cfg.totInstances →
  (c.replica.table (cfg.lastTxn w i)).proposalReceived = true →
    (c.replica.table (cfg.lastTxn w i)).hash ≠ [] ∧ ∃ m, (c.batches (cfg.lastTxn w i)).propmsg = some m ∧
      m.hash = (c.replica.table (cfg.lastTxn w i)).hash

lemma Kept.store {m : ProposalMsg} {id : ℕ} (h : Kept cfg c) (hm : c.replica.Takes cfg crypto e s m)
    (hid : id = cfg.lastTxn m.view m.instanceId) : Kept cfg { c.setPrimarybatch id (.inr m) with replica := s } := by
  subst hid
  intro w i hi hreceived
  by_cases hslot : (w, i) = (m.view, m.instanceId)
  · obtain ⟨rfl, rfl⟩ := Prod.mk.inj hslot
    obtain ⟨_, hhash, _, _⟩ := hm.stores.last hm.slotted.length hm.slotted.hash_ne_nil
    refine ⟨hhash ▸ hm.slotted.hash_ne_nil, m, ?_, hhash.symm⟩
    simp only [State.setPrimarybatch, Function.update_self]
    rfl
  · have hret := hm.stores.apart hi hm.slotted.inst hslot Replica.lastTxn_mem
    obtain ⟨hne, m', hm', heq⟩ := h w i hi (hret.received ▸ hreceived)
    have hhash := (hret.hashed hne).1
    refine ⟨hhash ▸ hne, m', ?_, heq.trans hhash.symm⟩
    simp only [State.setPrimarybatch, Function.update_of_ne (cfg.lastTxn_ne hm.slotted.inst hi hslot)]
    exact hm'

lemma Kept.retains (h : Kept cfg c) (hret : c.replica.Retains s) : Kept cfg { c with replica := s } := by
  intro w i hi hreceived
  obtain ⟨hne, m, hm, heq⟩ := h w i hi ((hret _).received ▸ hreceived)
  have hhash := ((hret _).hashed hne).1
  exact ⟨hhash ▸ hne, m, hm, heq.trans hhash.symm⟩

lemma Kept.release {id : ℕ} {t : TxnManager} (h : Kept cfg c) (ht : t.Recycled) :
    Kept cfg { c.release id with replica := c.replica.setTxn id t } := by
  intro w i hi hreceived
  dsimp only at hreceived ⊢
  by_cases hid : cfg.lastTxn w i = id
  · rw [Replica.setTxn_table, hid, Function.update_self, ht.proposalReceived] at hreceived
    cases hreceived
  · rw [Replica.setTxn_table, Function.update_of_ne hid] at hreceived ⊢
    simp only [State.release, Function.update_of_ne hid]
    exact h w i hi hreceived

lemma Kept.step (h : Kept cfg c) (horderly : c.replica.Orderly cfg) (he : Replica.Regular cfg c.replica e)
    (hs : c.replica.step cfg crypto e = some s) : Kept cfg { c.store cfg crypto (.act e) with replica := s } := by
  by_cases hrec : ∃ id t, e = .recycle id t
  · obtain ⟨id, t, rfl⟩ := hrec
    simp only [Replica.step, Replica.recycle] at hs
    split_ifs at hs
    obtain rfl := Option.some.inj hs
    exact h.release he.1.1
  · have hnot : ∀ id t, e ≠ .recycle id t := fun id t heq => hrec ⟨id, t, heq⟩
    cases hst : storedProposal cfg crypto c.replica (.act e) with
    | some x =>
      obtain ⟨id, m⟩ := x
      obtain ⟨hm, hid⟩ := stored_takes hst horderly he hs
      rw [State.store_some hnot hst]
      exact h.store hm hid
    | none =>
      rw [State.store_none hnot hst]
      rcases unstored_retains hst hs with hret | ⟨id, t, heq, -⟩
      · exact h.retains hret
      · exact absurd heq (hnot id t)

lemma exists_chain (hp : p < cfg.nodeCnt) (h : Reach (Replica.step cfg crypto) (Replica.Regular cfg) (.init cfg p) r)
    (hnext : r.exec.nextIndex = 0) :
    ∃ c, Reachable cfg crypto p c ∧ c.replica = r ∧ c.running = true ∧ Kept cfg c := by
  induction h with
  | start => exact ⟨_, .start, rfl, rfl, fun _ _ _ hr => absurd hr Bool.false_ne_true⟩
  | @next s t e hr he hs ih =>
    have hmono := he.nextIndex_le hs
    obtain ⟨c, hc, rfl, hrun, hkept⟩ := ih (by omega)
    have hidle : executedTxn c.replica (.act e) = none := by
      cases hx : executedTxn c.replica (.act e) with
      | none => rfl
      | some last =>
        have := executedTxn_nextIndex hx hs
        omega
    refine ⟨{ c.store cfg crypto (.act e) with replica := t }, .next (.act e) hc trivial ?_, rfl, ?_, ?_⟩
    · rw [step, if_pos hrun, State.handle, hs, Option.map_some, State.advance, hidle]
    · show (c.store cfg crypto (.act e)).running = true
      unfold State.store
      split <;> exact hrun
    · exact hkept.step (Replica.orderly_reach hp hr) he hs

end Lift

theorem recorded_iff (h : Reachable cfg crypto p c) : Recorded c ↔ c.executed = [] := by
  rw [Recorded, h.unfilled.bchainMap, List.forall₂_nil_left_iff]

theorem recorded_iff_proposed :
    ∃ c, Reachable .fourReplicas .transparent 0 c ∧ (c.batches 4).propmsg.isSome = true ∧
      (Recorded c ↔ c.executed = []) := by
  obtain ⟨c, hc, hp⟩ := exists_reach_of_runWith (step .fourReplicas .transparent) (fun _ _ => True)
    (init .fourReplicas 0)
    (.act (.clientBatch 0 (System.sampleBatch 1)) :: List.replicate 6 (.act (.proposalThread 0 0)))
    (fun c => (c.batches 4).propmsg.isSome) (by decide +kernel)
  exact ⟨c, hc, hp, recorded_iff hc⟩

-- Replica 0 runs the first batch; its proposal is there, and the block is made from a null pointer.
theorem first_batch_not_recorded :
    ∃ S c d, System.Reachable .fourReplicas .transparent ∅ S ∧ Reachable .fourReplicas .transparent 0 c ∧
      c.replica = S 0 ∧ step .fourReplicas .transparent c (.act (.execute 1)) = some d ∧
      (∃ m, d.executed = [⟨4, some m⟩] ∧ m.hash = ((S 0).table 4).hash) ∧ d.bchainMap = [] ∧ ¬ Recorded d := by
  obtain ⟨S, hS, hp⟩ := exists_reach_of_runWith (System.step .fourReplicas .transparent)
    (System.Allowed .fourReplicas ∅) (System.init .fourReplicas) System.threeViews
    (fun S => decide ((S 0).exec.nextIndex = 0 ∧ executedTxn (S 0) (.act (.execute 1)) = some 4 ∧
      ((S 0).step .fourReplicas .transparent (.execute 1)).isSome ∧
        ((S 0).table (Config.fourReplicas.lastTxn 0 0)).proposalReceived)) (by decide +kernel)
  obtain ⟨hnext, hexec, hsome, hreceived⟩ := of_decide_eq_true hp
  have hreach : Reach (Replica.step .fourReplicas .transparent) (Replica.Regular .fourReplicas) (.init .fourReplicas 0)
      (S 0) := (System.reaches_digest hS 0 (by decide)).mono fun _ _ he => ⟨he.genuine, fun m hm => he.named.2 _ hm⟩
  obtain ⟨c, hc, hreplica, hrun, hkept⟩ := exists_chain (by decide) hreach hnext
  rw [← hreplica] at hexec hsome hreceived
  obtain ⟨r, hr⟩ := Option.isSome_iff_exists.mp hsome
  have hempty := hc.unfilled.running hrun
  obtain ⟨_, m, hm, hhash⟩ := hkept 0 0 (by decide) hreceived
  have hstep : step .fourReplicas .transparent c (.act (.execute 1)) =
      some { c.record 4 with running := false } := by
    rw [step, if_pos hrun, State.handle, hr, Option.map_some, State.advance, hexec, ← hc.unfilled.addBlock 4 r]
  have hexecuted : (c.record 4).executed = [⟨4, some m⟩] := by
    rw [State.record, hempty, List.nil_append, ← hm]
    rfl
  refine ⟨S, c, _, hS, hc, hreplica, hstep, ⟨m, hexecuted, hreplica ▸ hhash⟩, hc.unfilled.bchainMap, ?_⟩
  intro hrec
  rw [Recorded, hexecuted, show (c.record 4).bchainMap = [] from hc.unfilled.bchainMap] at hrec
  cases hrec

end BChain

end SpotLess
