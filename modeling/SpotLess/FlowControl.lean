import SpotLess.Custody
import SpotLess.Client
import SpotLess.FirstCommit

/-! The flow control of a client thread: `in_round` counts for every replica the batches sent to it, and the input
threads credit the primary of the slot named by the response that completes a batch. -/

namespace SpotLess

open Lib

structure FlowConfig extends Config where
  clientNode : ℕ
  maxTxnInFlight : ℕ
  inflightMax : ℤ
  client_ge : nodeCnt ≤ clientNode
  int_max : maxTxnInFlight < 2 ^ 31

-- A CL_RSP message; `mcopy_from_txn` adds the instance of the last manager to what the execute thread fills in.
structure Response extends ClientResponse where
  returnNodeId : ℕ
  instanceId : ℕ

-- `nextNode` is the replica chosen in this iteration, `credit` what an input thread has yet to give back. The last
-- two fields are the history of the run.
structure Flow (net : FlowConfig) where
  system : System
  client : Client.State net.toConfig
  credit : ℕ → Option (ℕ × ℕ)
  inRound : ℕ → ℕ
  inflight : ℤ
  nextToSend : ℕ
  nextNode : Option ℕ
  cqrySet : List ClientQuery
  network : List (ℕ × ClientQueryBatch)
  responses : List Response
  sent : List (ℕ × ClientQueryBatch)
  completed : List (ℕ × ℕ)

def FlowConfig.fourReplicas : FlowConfig where
  toConfig := .fourReplicas
  clientNode := 9
  maxTxnInFlight := 20
  inflightMax := 20
  client_ge := by decide
  int_max := by decide

namespace Flow

section Model

variable (net : FlowConfig) (crypto : Crypto)

def limit (node : ℕ) : ℕ :=
  let batches := net.maxTxnInFlight / net.batchSize
  let share := batches / net.nodeCnt + if batches % net.nodeCnt > node then 1 else 0
  if share = 0 then 1 else share

def init : Flow net where
  system := System.init net.toConfig
  client := Client.init net.toConfig
  credit _ := none
  inRound _ := 0
  inflight := 0
  nextToSend := net.clientNode % net.totInstances * 4 % net.nodeCnt
  nextNode := none
  cqrySet := []
  network := []
  responses := []
  sent := []
  completed := []

variable {net}

-- One iteration of `ClientThread::run`, in two parts: an input thread may come between the check and the rest.
def look (f : Flow net) : Option (Flow net) :=
  if f.nextNode = none then
    if f.inRound f.nextToSend = limit net f.nextToSend then
      some { f with nextToSend := (f.nextToSend + 1) % net.nodeCnt }
    else some { f with nextNode := some f.nextToSend }
  else none

def addQuery (f : Flow net) (requests : List Request) (startts : ℕ) : Option (Flow net) :=
  match f.nextNode with
  | none => none
  | some node =>
    if f.inflight < net.inflightMax then
      let qrys := f.cqrySet ++ [{ requests := requests, clientStartts := startts, returnNode := net.clientNode }]
      if qrys.length = net.batchSize then
        let batch : ClientQueryBatch := { returnNode := net.clientNode, cqrySet := qrys }
        some { f with
          inflight := f.inflight + 1
          inRound := Function.update f.inRound node (add64 (f.inRound node) 1)
          nextToSend := (f.nextToSend + 1) % net.nodeCnt
          nextNode := none
          cqrySet := []
          network := f.network ++ [(node, batch)]
          sent := f.sent ++ [(node, batch)] }
      else some { f with inflight := f.inflight + 1, nextNode := none, cqrySet := qrys }
    else some { f with nextNode := none }

-- The CL_RSP messages of an execute step to this client.
def answers (f : Flow net) (S : System) : System.Event → List Response
  | .act p (.execute _) =>
    (((S p).exec.responses.drop (f.system p).exec.responses.length).map fun rsp =>
      { rsp with returnNodeId := p, instanceId := ((f.system p).table rsp.txnId).instanceId : Response }).filter
        fun rsp => rsp.dest = net.clientNode
  | _ => []

def act (f : Flow net) (e : System.Event) : Option (Flow net) :=
  (System.step net.toConfig crypto f.system e).map fun S =>
    { f with system := S, responses := f.responses ++ f.answers S e }

def arrive (f : Flow net) (k i : ℕ) : Option (Flow net) :=
  match f.network[k]? with
  | some (p, batch) =>
    (System.step net.toConfig crypto f.system (.act p (.clientBatch i batch))).map fun S =>
      { f with system := S, network := f.network.eraseIdx k }
  | none => none

def receive (f : Flow net) (thd j : ℕ) (m : Client.ClientResponse net.toConfig) : Option (Flow net) :=
  match f.responses[j]? with
  | some rsp =>
    (f.client.receive thd m).map fun c =>
      { f with
        client := c
        credit := Function.update f.credit thd
          ((c.busy thd).map fun _ => (net.getViewPrimary rsp.view rsp.instanceId, rsp.txnId)) }
  | none => none

def decInflight (v : ℤ) : ℤ := if 0 < v then v - 1 else v

def finish (f : Flow net) (thd : ℕ) : Option (Flow net) :=
  match f.credit thd with
  | some (node, txnId) =>
    (f.client.finish thd).map fun c =>
      { f with
        client := c
        credit := Function.update f.credit thd none
        inflight := decInflight^[net.batchSize] f.inflight
        inRound := Function.update f.inRound node (sub64 (f.inRound node) 1)
        completed := f.completed ++ [(node, txnId)] }
  | none => none

variable (net) in
inductive Event
  | look
  | addQuery (requests : List Request) (startts : ℕ)
  | arrive (k i : ℕ)
  | act (e : System.Event)
  | receive (thd j : ℕ) (m : Client.ClientResponse net.toConfig)
  | finish (thd : ℕ)

def step (f : Flow net) : Event net → Option (Flow net)
  | .look => f.look
  | .addQuery requests startts => f.addQuery requests startts
  | .arrive k i => f.arrive crypto k i
  | .act e => f.act crypto e
  | .receive thd j m => f.receive thd j m
  | .finish thd => f.finish thd

structure Carries (m : Client.ClientResponse net.toConfig) (rsp : Response) : Prop where
  txnId : m.txnId.toNat = rsp.txnId
  returnNodeId : m.returnNodeId.toNat = rsp.returnNodeId
  index : m.index.toList.map UInt64.toNat = rsp.index
  clientTs : m.clientTs.toList.map UInt64.toNat = rsp.clientTs

def batchOf : System.Event → Option ClientQueryBatch
  | .act _ (.clientBatch _ batch) => some batch
  | _ => none

-- Replicas without faults; a batch of this client comes from nowhere else. A response may be received at any time and
-- more than once.
def Allowed (f : Flow net) : Event net → Prop
  | .arrive k i => ∀ c ∈ f.network[k]?, System.Allowed net.toConfig ∅ f.system (.act c.1 (.clientBatch i c.2))
  | .act e => System.Allowed net.toConfig ∅ f.system e ∧ ∀ batch ∈ batchOf e, batch.client ≠ net.clientNode
  | .receive _ j m => ∀ rsp ∈ f.responses[j]?, Carries m rsp
  | _ => True

instance (m : Client.ClientResponse net.toConfig) (rsp : Response) : Decidable (Carries m rsp) :=
  decidable_of_iff (m.txnId.toNat = rsp.txnId ∧ m.returnNodeId.toNat = rsp.returnNodeId ∧
    m.index.toList.map UInt64.toNat = rsp.index ∧ m.clientTs.toList.map UInt64.toNat = rsp.clientTs)
    ⟨fun ⟨htxn, hnode, hindex, hts⟩ => ⟨htxn, hnode, hindex, hts⟩, fun h => ⟨h.txnId, h.returnNodeId, h.index, h.clientTs⟩⟩

instance (f : Flow net) : (e : Event net) → Decidable (Allowed f e)
  | .look | .addQuery _ _ | .finish _ => inferInstanceAs (Decidable True)
  | .arrive k _ => inferInstanceAs (Decidable (∀ c ∈ f.network[k]?, _))
  | .act e => inferInstanceAs (Decidable (_ ∧ ∀ batch ∈ batchOf e, _))
  | .receive _ j _ => inferInstanceAs (Decidable (∀ rsp ∈ f.responses[j]?, _))

def Reachable (f : Flow net) : Prop := Reach (step crypto) Allowed (init net) f

end Model

section Steps

variable {net : FlowConfig} {crypto : Crypto} {f g : Flow net} {thd j k i : ℕ} {m : Client.ClientResponse net.toConfig}

lemma arrive_cases (hs : f.arrive crypto k i = some g) : ∃ p batch S, f.network[k]? = some (p, batch) ∧
    System.step net.toConfig crypto f.system (.act p (.clientBatch i batch)) = some S ∧
    g = { f with system := S, network := f.network.eraseIdx k } := by
  simp only [arrive] at hs
  split at hs
  · rename_i p batch hk
    obtain ⟨S, hS, rfl⟩ := Option.map_eq_some_iff.mp hs
    exact ⟨p, batch, S, hk, hS, rfl⟩
  · cases hs

lemma receive_cases (hs : f.receive thd j m = some g) : ∃ rsp c, f.responses[j]? = some rsp ∧
    f.client.receive thd m = some c ∧
    g = { f with
      client := c
      credit := Function.update f.credit thd
        ((c.busy thd).map fun _ => (net.getViewPrimary rsp.view rsp.instanceId, rsp.txnId)) } := by
  simp only [receive] at hs
  split at hs
  · rename_i rsp hrsp
    obtain ⟨c, hc, rfl⟩ := Option.map_eq_some_iff.mp hs
    exact ⟨rsp, c, hrsp, hc, rfl⟩
  · cases hs

lemma finish_cases (hs : f.finish thd = some g) : ∃ node txnId c, f.credit thd = some (node, txnId) ∧
    f.client.finish thd = some c ∧
    g = { f with
      client := c
      credit := Function.update f.credit thd none
      inflight := decInflight^[net.batchSize] f.inflight
      inRound := Function.update f.inRound node (sub64 (f.inRound node) 1)
      completed := f.completed ++ [(node, txnId)] } := by
  simp only [finish] at hs
  split at hs
  · rename_i node txnId hcredit
    obtain ⟨c, hc, rfl⟩ := Option.map_eq_some_iff.mp hs
    exact ⟨node, txnId, c, hcredit, hc, rfl⟩
  · cases hs

end Steps

section History

variable {net : FlowConfig} {crypto : Crypto} {f g : Flow net}

def sentTo (f : Flow net) (r : ℕ) : Multiset ClientQueryBatch :=
  ((f.sent.filter fun e => e.1 = r).map Prod.snd : List ClientQueryBatch)

def inTransit (f : Flow net) (r : ℕ) : Multiset ClientQueryBatch :=
  ((f.network.filter fun e => e.1 = r).map Prod.snd : List ClientQueryBatch)

def completedOf (f : Flow net) (r : ℕ) : Multiset ClientQueryBatch :=
  (((f.system r).proposals.filter fun x => net.lastTxn x.view x.instanceId ∈ f.completed.map Prod.snd).map
    Proposal.batch : List ClientQueryBatch)

def Answered (S : System) (r txnId : ℕ) (net : FlowConfig) : Prop :=
  r < net.nodeCnt ∧ ∃ x ∈ (S r).proposals, net.lastTxn x.view x.instanceId = txnId ∧ x.batch.client = net.clientNode

end History

section Supply

variable {net : FlowConfig} {crypto : Crypto} {f g : Flow net} {S T : System}

def Mine (net : FlowConfig) (batch : ClientQueryBatch) : Prop := batch.client = net.clientNode

instance : DecidablePred (Mine net) := fun batch => inferInstanceAs (Decidable (batch.client = net.clientNode))

structure Supplied (crypto : Crypto) (f : Flow net) : Prop where
  reach : System.Reachable net.toConfig crypto ∅ f.system
  mine : ∀ e ∈ f.network, Mine net e.2
  sent : ∀ p, f.sentTo p = f.inTransit p + ((f.system p).custody net.toConfig).filter (Mine net)
  responses : ∀ rsp ∈ f.responses, Answered f.system (net.getViewPrimary rsp.view rsp.instanceId) rsp.txnId net

lemma Answered.mono {r id : ℕ} (h : Answered S r id net) (hsub : ∀ q, (S q).proposals ⊆ (T q).proposals) :
    Answered T r id net := by
  obtain ⟨hr, x, hx, hslot⟩ := h
  exact ⟨hr, x, hsub r hx, hslot⟩

lemma supplied_init : Supplied crypto (init net) where
  reach := .start
  mine _ he := absurd he List.not_mem_nil
  sent p := by
    simp [sentTo, inTransit, init, System.init, Replica.custody, Replica.waiting, Replica.init, Sending.init,
      Replica.poppedBatches]
  responses _ h := absurd h List.not_mem_nil

variable (net) in
lemma mine_concat (qrys : List ClientQuery) (requests : List Request) (startts : ℕ) :
    Mine net { returnNode := net.clientNode, cqrySet := qrys ++
      [{ requests := requests, clientStartts := startts, returnNode := net.clientNode }] } := by
  simp [Mine, ClientQueryBatch.client]

lemma client_pos : 0 < net.clientNode := net.nodeCnt_pos.trans_le net.client_ge

lemma execute_answered (h : Supplied crypto f) {p k : ℕ} (hp : p < net.nodeCnt)
    (hs : System.step net.toConfig crypto f.system (.act p (.execute k)) = some S) {rsp : Response}
    (hrsp : rsp ∈ f.answers S (.act p (.execute k))) :
    Answered f.system (net.getViewPrimary rsp.view rsp.instanceId) rsp.txnId net := by
  obtain ⟨a, r, ha, hr, rfl⟩ := System.step_cases hs
  obtain rfl := Option.some.inj ha
  obtain ⟨x, hx, rfl⟩ := Option.map_eq_some_iff.mp hr
  simp only [answers, System.Event.node, Function.update_self, Replica.setExec_exec, List.mem_filter,
    decide_eq_true_eq] at hrsp
  obtain ⟨hrsp, hdest⟩ := hrsp
  obtain ⟨y, hy, rfl⟩ := List.mem_map.mp hrsp
  have hne : y.dest ≠ 0 := hdest ▸ client_pos.ne'
  obtain ⟨v, i, hi, htxn, hview, hinst, batch, hbatch, hclient⟩ :=
    System.response_attributed h.reach hp (System.allAttributed_reach h.reach) hx hy hne
  refine ⟨net.getViewPrimary_lt _ _, ⟨i, v, batch⟩, ?_, htxn.symm, hclient.trans hdest⟩
  simp only [hview, hinst]
  exact hbatch

lemma answers_answered (h : Supplied crypto f) {e : System.Event} (hok : System.Allowed net.toConfig ∅ f.system e)
    (hs : System.step net.toConfig crypto f.system e = some S) {rsp : Response} (hrsp : rsp ∈ f.answers S e) :
    Answered f.system (net.getViewPrimary rsp.view rsp.instanceId) rsp.txnId net := by
  cases e with
  | act p a =>
    cases a with
    | execute k => exact execute_answered h hok.1 hs hrsp
    | _ => exact absurd hrsp List.not_mem_nil
  | relay => exact absurd hrsp List.not_mem_nil
  | inject => exact absurd hrsp List.not_mem_nil

lemma arriving_of_local {e : System.Event} {a : Replica.Event} (ha : e.local S = some a) :
    a.arriving = 0 ∨ ∃ batch ∈ batchOf e, a.arriving = {batch} := by
  cases e with
  | act p a' =>
    cases a' with
    | deliver => cases ha
    | clientBatch i batch =>
      obtain rfl := Option.some.inj ha
      exact .inr ⟨batch, rfl, rfl⟩
    | _ =>
      obtain rfl := Option.some.inj ha
      exact .inl rfl
  | relay p q k =>
    simp only [System.Event.local] at ha
    split at ha
    · split_ifs at ha
      obtain rfl := Option.some.inj ha
      exact .inl rfl
    · cases ha
  | inject p m =>
    obtain rfl := Option.some.inj ha
    exact .inl rfl

lemma Supplied.act (h : Supplied crypto f) {e : System.Event} (hok : Allowed f (.act e)) (hs : f.act crypto e = some g) :
    Supplied crypto g := by
  obtain ⟨S, hS, rfl⟩ := Option.map_eq_some_iff.mp hs
  have hsub := System.step_proposals h.reach hok.1 hS
  obtain ⟨a, ha, hcustody⟩ := System.step_custody h.reach hok.1 hS
  refine ⟨h.reach.next e hok.1 hS, h.mine, fun p => ?_, fun rsp hrsp => ?_⟩
  · change f.sentTo p = f.inTransit p + _
    have hnone : (if p = e.node then a.arriving else 0).filter (Mine net) = 0 := by
      split_ifs
      · rcases arriving_of_local ha with hzero | ⟨batch, hmem, hbatch⟩
        · rw [hzero, Multiset.filter_zero]
        · rw [hbatch, Multiset.filter_singleton]
          exact if_neg (hok.2 batch hmem)
      · rfl
    rw [h.sent p, hcustody p, Multiset.filter_add, hnone, add_zero]
  · rcases List.mem_append.mp hrsp with hrsp | hrsp
    · exact (h.responses rsp hrsp).mono hsub
    · exact (answers_answered h hok.1 hS hrsp).mono hsub

lemma Supplied.arrive (h : Supplied crypto f) {k i : ℕ} (hok : Allowed f (.arrive k i)) (hs : f.arrive crypto k i = some g) :
    Supplied crypto g := by
  obtain ⟨p, batch, S, hk, hS, rfl⟩ := arrive_cases hs
  have hok' := hok (p, batch) hk
  obtain ⟨a, ha, hcustody⟩ := System.step_custody h.reach hok' hS
  obtain rfl := Option.some.inj ha
  have hcustody : ∀ q, (S q).custody net.toConfig = (f.system q).custody net.toConfig + if q = p then {batch} else 0 :=
    hcustody
  obtain ⟨hlt, hget⟩ := List.getElem?_eq_some_iff.mp hk
  have hmine : Mine net batch := h.mine (p, batch) (hget ▸ List.getElem_mem hlt)
  refine ⟨h.reach.next _ hok' hS, fun e he => h.mine e (List.mem_of_mem_eraseIdx he), fun q => ?_, fun rsp hrsp => ?_⟩
  · have hperm : ((p, batch) :: f.network.eraseIdx k).Perm f.network := hget ▸ List.getElem_cons_eraseIdx_perm hlt
    have htransit : f.inTransit q = (((p, batch) :: f.network.eraseIdx k).filter fun e => e.1 = q).map Prod.snd :=
      Multiset.coe_eq_coe.mpr ((hperm.filter _).map _).symm
    change f.sentTo q = _
    rw [h.sent q, hcustody q, Multiset.filter_add, htransit, List.filter_cons]
    by_cases hq : q = p
    · subst hq
      rw [if_pos (by simp), if_pos rfl, List.map_cons, ← Multiset.cons_coe, ← Multiset.singleton_add,
        Multiset.filter_singleton, if_pos hmine]
      simp only [inTransit]
      abel
    · rw [if_neg (by simpa using Ne.symm hq), if_neg hq, Multiset.filter_zero, add_zero]
      rfl
  · exact (h.responses rsp hrsp).mono (System.step_proposals h.reach hok' hS)

lemma Supplied.addQuery (h : Supplied crypto f) {requests : List Request} {startts : ℕ}
    (hs : f.addQuery requests startts = some g) : Supplied crypto g := by
  simp only [Flow.addQuery] at hs
  split at hs
  · cases hs
  rename_i node hnode
  split_ifs at hs
  · obtain rfl := Option.some.inj hs
    have hmine := mine_concat net f.cqrySet requests startts
    refine ⟨h.reach, fun e he => ?_, fun p => ?_, h.responses⟩
    · rcases List.mem_append.mp he with he | he
      · exact h.mine e he
      · rw [List.mem_singleton.mp he]
        exact hmine
    · have hsent := h.sent p
      simp only [sentTo, inTransit, List.filter_append, List.map_append, ← Multiset.coe_add] at hsent ⊢
      rw [hsent]
      abel
  · obtain rfl := Option.some.inj hs
    exact ⟨h.reach, h.mine, h.sent, h.responses⟩
  · obtain rfl := Option.some.inj hs
    exact ⟨h.reach, h.mine, h.sent, h.responses⟩

end Supply

section Credit

variable {net : FlowConfig} {crypto : Crypto} {f g : Flow net} {thd j : ℕ} {m : Client.ClientResponse net.toConfig}

def Decided (c : Client.State net.toConfig) (id : UInt64) : Prop :=
  ∃ k, c.count id = some k ∧ Client.fp1 net.toConfig ≤ k

structure Credited (f : Flow net) : Prop where
  busy : ∀ thd, (f.client.busy thd).map UInt64.toNat = (f.credit thd).map Prod.snd
  decided : ∀ thd id, f.client.busy thd = some id → Decided f.client id
  settled : ∀ c ∈ f.completed, ∃ id : UInt64, id.toNat = c.2 ∧ Decided f.client id
  pending : ∀ thd c, f.credit thd = some c → Answered f.system c.1 c.2 net
  answered : ∀ c ∈ f.completed, Answered f.system c.1 c.2 net
  nodup : (f.completed.map Prod.snd).Nodup
  fresh : ∀ thd c, f.credit thd = some c → c.2 ∉ f.completed.map Prod.snd
  alone : ∀ thd thd' c c', f.credit thd = some c → f.credit thd' = some c' → c.2 = c'.2 → thd = thd'

lemma credited_init : Credited (init net) where
  busy _ := rfl
  decided _ _ h := by cases h
  settled _ h := absurd h List.not_mem_nil
  pending _ _ h := by cases h
  answered _ h := absurd h List.not_mem_nil
  nodup := List.nodup_nil
  fresh _ _ h := by cases h
  alone _ _ _ _ h := by cases h

lemma Credited.of_same (h : Credited f) (hclient : g.client = f.client) (hcredit : g.credit = f.credit)
    (hcompleted : g.completed = f.completed) (hsub : ∀ q, (f.system q).proposals ⊆ (g.system q).proposals) :
    Credited g where
  busy := by
    rw [hclient, hcredit]
    exact h.busy
  decided := by
    rw [hclient]
    exact h.decided
  settled := by
    rw [hclient, hcompleted]
    exact h.settled
  pending := by
    rw [hcredit]
    exact fun thd c hc => (h.pending thd c hc).mono hsub
  answered := by
    rw [hcompleted]
    exact fun c hc => (h.answered c hc).mono hsub
  nodup := hcompleted ▸ h.nodup
  fresh := by
    rw [hcredit, hcompleted]
    exact h.fresh
  alone := by
    rw [hcredit]
    exact h.alone

lemma Decided.receives {c c' : Client.State net.toConfig} {id : UInt64} (h : Decided c id)
    (hr : Client.Receives c thd m c') : Decided c' id := by
  obtain ⟨k, hk, hle⟩ := h
  by_cases hid : id = m.txnId
  swap
  · exact ⟨k, (hr.sameAt hid).count.trans hk, hle⟩
  subst hid
  cases hr with
  | opens _ hc =>
    rw [hk] at hc
    cases hc
  | late => exact ⟨k, hk, hle⟩
  | joins old k' _ hc =>
    obtain rfl := Option.some.inj (hk.symm.trans hc)
    exact ⟨k + 1, Function.update_self _ _ _, hle.trans (Nat.le_succ k)⟩
  | decides old k' _ hc =>
    obtain rfl := Option.some.inj (hk.symm.trans hc)
    exact ⟨k + 1, Function.update_self _ _ _, hle.trans (Nat.le_succ k)⟩

lemma receives_busy {c c' : Client.State net.toConfig} (hr : Client.Receives c thd m c') : c'.busy = c.busy ∨
    ¬ Decided c m.txnId ∧ Decided c' m.txnId ∧ c'.busy = Function.update c.busy thd (some m.txnId) := by
  cases hr with
  | opens => exact .inl rfl
  | late => exact .inl rfl
  | joins => exact .inl rfl
  | decides old k _ hc _ hk =>
    refine .inr ⟨?_, ⟨k + 1, Function.update_self _ _ _, hk.ge⟩, rfl⟩
    rintro ⟨k', hk', hle⟩
    obtain rfl := Option.some.inj (hk'.symm.trans hc)
    omega

lemma Credited.undecided (h : Credited f) {id : UInt64} (hnot : ¬ Decided f.client id) :
    id.toNat ∉ f.completed.map Prod.snd ∧ ∀ thd c, f.credit thd = some c → c.2 ≠ id.toNat := by
  constructor
  · intro hmem
    obtain ⟨c, hc, heq⟩ := List.mem_map.mp hmem
    obtain ⟨id', hid', hdec⟩ := h.settled c hc
    obtain rfl := UInt64.toNat_inj.mp (hid'.trans heq)
    exact hnot hdec
  · intro thd c hc heq
    have hbusy := h.busy thd
    rw [hc] at hbusy
    obtain ⟨id', hid', heq'⟩ := Option.map_eq_some_iff.mp hbusy
    obtain rfl := UInt64.toNat_inj.mp (heq'.trans heq)
    exact hnot (h.decided thd id' hid')

lemma Credited.settled_receives (h : Credited f) {c : Client.State net.toConfig}
    (hr : Client.Receives f.client thd m c) {d : ℕ × ℕ} (hd : d ∈ f.completed) :
    ∃ id : UInt64, id.toNat = d.2 ∧ Decided c id := by
  obtain ⟨id, hid, hdec⟩ := h.settled d hd
  exact ⟨id, hid, hdec.receives hr⟩

lemma Credited.counts (h : Credited f) {c : Client.State net.toConfig} (hr : Client.Receives f.client thd m c)
    (hbusy : c.busy = f.client.busy) : Credited { f with client := c } where
  busy := by
    rw [hbusy]
    exact h.busy
  decided thd' id hid := by
    rw [hbusy] at hid
    exact (h.decided thd' id hid).receives hr
  settled _ hd := h.settled_receives hr hd
  pending := h.pending
  answered := h.answered
  nodup := h.nodup
  fresh := h.fresh
  alone := h.alone

lemma Credited.decides (h : Credited f) {c : Client.State net.toConfig} {node txnId : ℕ}
    (hr : Client.Receives f.client thd m c) (hbusy : c.busy = Function.update f.client.busy thd (some m.txnId))
    (hnot : ¬ Decided f.client m.txnId) (hnow : Decided c m.txnId) (htxn : m.txnId.toNat = txnId)
    (hnew : Answered f.system node txnId net) :
    Credited { f with client := c, credit := Function.update f.credit thd (some (node, txnId)) } := by
  obtain ⟨hfresh, hother⟩ := h.undecided hnot
  rw [htxn] at hfresh hother
  have hcases : ∀ {thd' : ℕ} {d : ℕ × ℕ}, Function.update f.credit thd (some (node, txnId)) thd' = some d →
      thd' = thd ∧ d = (node, txnId) ∨ f.credit thd' = some d := by
    intro thd' d hd
    by_cases hthd : thd' = thd
    · subst hthd
      rw [Function.update_self] at hd
      exact .inl ⟨rfl, (Option.some.inj hd).symm⟩
    · exact .inr (by rwa [Function.update_of_ne hthd] at hd)
  refine ⟨fun thd' => ?_, fun thd' id hid => ?_, fun _ hd => h.settled_receives hr hd, fun thd' d hd => ?_, h.answered,
    h.nodup, fun thd' d hd => ?_, fun thd₁ thd₂ d₁ d₂ h₁ h₂ heq => ?_⟩
  · dsimp only
    by_cases hthd : thd' = thd
    · subst hthd
      rw [hbusy, Function.update_self, Function.update_self, Option.map_some, Option.map_some, htxn]
    · rw [hbusy, Function.update_of_ne hthd, Function.update_of_ne hthd]
      exact h.busy thd'
  · dsimp only at hid
    by_cases hthd : thd' = thd
    · subst hthd
      rw [hbusy, Function.update_self] at hid
      exact Option.some.inj hid ▸ hnow
    · rw [hbusy, Function.update_of_ne hthd] at hid
      exact (h.decided thd' id hid).receives hr
  · rcases hcases hd with ⟨_, rfl⟩ | hd
    · exact hnew
    · exact h.pending thd' d hd
  · rcases hcases hd with ⟨_, rfl⟩ | hd
    · exact hfresh
    · exact h.fresh thd' d hd
  · rcases hcases h₁ with ⟨rfl, rfl⟩ | hold₁ <;> rcases hcases h₂ with ⟨rfl, rfl⟩ | hold₂
    · rfl
    · exact absurd heq.symm (hother thd₂ d₂ hold₂)
    · exact absurd heq (hother thd₁ d₁ hold₁)
    · exact h.alone thd₁ thd₂ d₁ d₂ hold₁ hold₂ heq

lemma Credited.receive (h : Credited f) (hsup : Supplied crypto f) (hok : Allowed f (.receive thd j m))
    (hs : f.receive thd j m = some g) : Credited g := by
  obtain ⟨rsp, c, hrsp, hc, rfl⟩ := receive_cases hs
  obtain ⟨hidle, hr⟩ := Client.receive_cases hc
  rcases receives_busy hr with hbusy | ⟨hnot, hnow, hbusy⟩
  · have hcredit : f.credit thd = none := by
      have hcode := h.busy thd
      rw [hidle] at hcode
      exact Option.map_eq_none_iff.mp hcode.symm
    rw [hbusy, hidle, Option.map_none, ← hcredit, Function.update_eq_self]
    exact h.counts hr hbusy
  · rw [hbusy, Function.update_self, Option.map_some]
    exact h.decides hr hbusy hnot hnow (hok rsp hrsp).txnId (hsup.responses rsp (List.mem_of_getElem? hrsp))

lemma Credited.finish (h : Credited f) (hs : f.finish thd = some g) : Credited g := by
  obtain ⟨node, txnId, c, hcredit, hc, rfl⟩ := finish_cases hs
  obtain ⟨id, hid, rfl⟩ := Client.finish_cases hc
  have htxn : id.toNat = txnId := by
    have hbusy := h.busy thd
    rw [hid, hcredit] at hbusy
    exact Option.some.inj hbusy
  have hrest : ∀ {thd' : ℕ} {c : ℕ × ℕ}, Function.update f.credit thd none thd' = some c →
      thd' ≠ thd ∧ f.credit thd' = some c := by
    intro thd' c hc
    have hne : thd' ≠ thd := by
      rintro rfl
      rw [Function.update_self] at hc
      cases hc
    exact ⟨hne, by rwa [Function.update_of_ne hne] at hc⟩
  refine ⟨fun thd' => ?_, fun thd' id' hid' => ?_, fun d hd => ?_, fun thd' d hd => h.pending thd' d (hrest hd).2,
    fun d hd => ?_, ?_, fun thd' d hd => ?_, fun thd₁ thd₂ c₁ c₂ h₁ h₂ => h.alone thd₁ thd₂ c₁ c₂ (hrest h₁).2 (hrest h₂).2⟩
  · dsimp only
    by_cases hthd : thd' = thd
    · subst hthd
      rw [Function.update_self, Function.update_self]
      rfl
    · rw [Function.update_of_ne hthd, Function.update_of_ne hthd]
      exact h.busy thd'
  · dsimp only at hid'
    by_cases hthd : thd' = thd
    · subst hthd
      rw [Function.update_self] at hid'
      cases hid'
    · rw [Function.update_of_ne hthd] at hid'
      exact h.decided thd' id' hid'
  · rcases List.mem_append.mp hd with hd | hd
    · exact h.settled d hd
    · rw [List.mem_singleton.mp hd]
      exact ⟨id, htxn, h.decided thd id hid⟩
  · rcases List.mem_append.mp hd with hd | hd
    · exact h.answered d hd
    · rw [List.mem_singleton.mp hd]
      exact h.pending thd _ hcredit
  · rw [List.map_append, List.map_singleton, ← List.concat_eq_append]
    exact h.nodup.concat (h.fresh thd _ hcredit)
  · obtain ⟨hne, hd⟩ := hrest hd
    rw [List.map_append, List.mem_append, not_or]
    refine ⟨h.fresh thd' d hd, ?_⟩
    rw [List.map_singleton, List.mem_singleton]
    exact fun heq => hne (h.alone thd' thd d _ hd hcredit heq)

end Credit

section Count

variable {net : FlowConfig} {crypto : Crypto} {f g : Flow net} {S : System} {r id : ℕ} {ids : List ℕ}

lemma slot_unique (h : System.Reachable net.toConfig crypto ∅ S) {q : ℕ} (hq : q < net.nodeCnt) (hr : r < net.nodeCnt)
    {x y : Proposal} (hx : x ∈ (S q).proposals) (hy : y ∈ (S r).proposals)
    (heq : net.lastTxn x.view x.instanceId = net.lastTxn y.view y.instanceId) : q = r ∧ x = y := by
  obtain ⟨hi, hprim⟩ := System.getViewPrimary_of_mem h hq hx
  obtain ⟨hj, hprim'⟩ := System.getViewPrimary_of_mem h hr hy
  obtain ⟨hview, hinst⟩ := net.lastTxn_inj hi hj heq
  obtain rfl : q = r := by rw [← hprim, ← hprim', hview, hinst]
  exact ⟨rfl, (System.orderly_reach h hq).alloc.unique _ hx hy hview hinst⟩

lemma Supplied.proposed_le (h : Supplied crypto f) (hr : r < net.nodeCnt) :
    (((f.system r).proposals.map Proposal.batch : List ClientQueryBatch) : Multiset ClientQueryBatch).filter (Mine net) ≤
      f.sentTo r := by
  have hbatches := (System.orderly_reach h.reach hr).alloc.batches
  rw [h.sent r, Replica.custody, hbatches, ← Multiset.coe_add]
  refine le_trans (Multiset.filter_le_filter _ ?_) (Multiset.le_add_left _ _)
  exact le_trans (Multiset.le_add_right _ _) (Multiset.le_add_left _ _)

lemma Supplied.length_le (h : Supplied crypto f) (hr : r < net.nodeCnt) (hnodup : ids.Nodup)
    (hids : ∀ id ∈ ids, Answered f.system r id net) : ids.length ≤ (f.sentTo r).card := by
  have hsub : ids ⊆ ((f.system r).proposals.filter fun x => Mine net x.batch).map fun x => net.lastTxn x.view x.instanceId := by
    intro id hid
    obtain ⟨_, x, hx, hslot, hmine⟩ := hids id hid
    exact List.mem_map.mpr ⟨x, List.mem_filter.mpr ⟨hx, decide_eq_true hmine⟩, hslot⟩
  calc ids.length
      ≤ (((f.system r).proposals.filter fun x => Mine net x.batch).map fun x => net.lastTxn x.view x.instanceId).length :=
        (hnodup.subperm hsub).length_le
    _ = (((f.system r).proposals.map Proposal.batch).filter (Mine net)).length := by
        rw [List.length_map, List.filter_map, List.length_map]
        rfl
    _ ≤ (f.sentTo r).card := Multiset.card_le_card (h.proposed_le hr)

lemma Credited.completedOf_le (h : Credited f) (hsup : Supplied crypto f) (hr : r < net.nodeCnt) :
    f.completedOf r ≤ f.sentTo r := by
  have hmine : ∀ batch ∈ f.completedOf r, Mine net batch := by
    intro batch hbatch
    obtain ⟨x, hx, rfl⟩ := List.mem_map.mp hbatch
    obtain ⟨hx, hid⟩ := List.mem_filter.mp hx
    obtain ⟨c, hc, heq⟩ := List.mem_map.mp (of_decide_eq_true hid)
    obtain ⟨hq, y, hy, hslot, hclient⟩ := h.answered c hc
    obtain ⟨_, rfl⟩ := slot_unique hsup.reach hq hr hy hx (hslot.trans heq)
    exact hclient
  rw [← Multiset.filter_eq_self.mpr hmine]
  refine le_trans (Multiset.filter_le_filter _ ?_) (hsup.proposed_le hr)
  exact Multiset.coe_le.mpr ((List.filter_sublist.map _).subperm)

lemma Credited.card_completedOf (h : Credited f) (hsup : Supplied crypto f) (hr : r < net.nodeCnt) :
    (f.completedOf r).card = f.completed.countP fun c => c.1 = r := by
  have halloc := (System.orderly_reach hsup.reach hr).alloc
  have hslots : (((f.system r).proposals.filter fun x => net.lastTxn x.view x.instanceId ∈ f.completed.map Prod.snd).map
      fun x => net.lastTxn x.view x.instanceId).Nodup := by
    refine List.Nodup.map_on ?_ ?_
    · intro x hx y hy heq
      exact (slot_unique hsup.reach hr hr (List.mem_of_mem_filter hx) (List.mem_of_mem_filter hy) heq).2
    · refine List.Nodup.filter _ (halloc.increasing.imp ?_)
      rintro a _ hab rfl
      exact absurd (hab rfl) (lt_irrefl _)
  have hids : ((f.completed.filter fun c => c.1 = r).map Prod.snd).Nodup :=
    h.nodup.sublist (List.filter_sublist.map _)
  have hperm := (List.perm_ext_iff_of_nodup hslots hids).mpr fun id => ?_
  · have hlen := hperm.length_eq
    rw [List.length_map, List.length_map, ← List.countP_eq_length_filter (l := f.completed)] at hlen
    rw [completedOf, Multiset.coe_card, List.length_map, hlen]
  · simp only [List.mem_map, List.mem_filter, decide_eq_true_eq]
    constructor
    · rintro ⟨x, ⟨hx, c, hc, heq⟩, rfl⟩
      obtain ⟨hq, y, hy, hslot, _⟩ := h.answered c hc
      obtain ⟨hnode, _⟩ := slot_unique hsup.reach hq hr hy hx (hslot.trans heq)
      exact ⟨c, ⟨hc, hnode⟩, heq⟩
    · rintro ⟨c, ⟨hc, rfl⟩, rfl⟩
      obtain ⟨_, x, hx, hslot, _⟩ := h.answered c hc
      exact ⟨x, ⟨hx, c, hc, hslot.symm⟩, hslot⟩

lemma Credited.lt_sentTo (h : Credited f) (hsup : Supplied crypto f) {thd node : ℕ}
    (hc : f.credit thd = some (node, id)) : f.completed.countP (fun c => c.1 = node) < (f.sentTo node).card := by
  have hanswered := h.pending thd _ hc
  have hnodup : (id :: (f.completed.filter fun c => c.1 = node).map Prod.snd).Nodup := by
    refine List.nodup_cons.mpr ⟨fun hid => ?_, h.nodup.sublist (List.filter_sublist.map _)⟩
    exact h.fresh thd _ hc (List.map_subset _ (List.filter_subset_self _) hid)
  have hle := hsup.length_le hanswered.1 hnodup ?_
  · rwa [List.length_cons, List.length_map, ← List.countP_eq_length_filter] at hle
  · intro id' hid'
    rcases List.mem_cons.mp hid' with rfl | hid'
    · exact hanswered
    · obtain ⟨c, hmem, rfl⟩ := List.mem_map.mp hid'
      obtain ⟨hmem, hnode⟩ := List.mem_filter.mp hmem
      exact of_decide_eq_true hnode ▸ h.answered c hmem

structure Counted (f : Flow net) : Prop where
  count : ∀ r, f.inRound r + f.completed.countP (fun c => c.1 = r) = (f.sentTo r).card
  le : ∀ r, f.inRound r ≤ limit net r
  room : ∀ r, f.nextNode = some r → f.inRound r < limit net r

lemma counted_init : Counted (init net) where
  count _ := rfl
  le _ := Nat.zero_le _
  room _ h := by cases h

lemma limit_lt (net : FlowConfig) (r : ℕ) : limit net r < 2 ^ 32 := by
  have hmax := net.int_max
  have hshare : net.maxTxnInFlight / net.batchSize / net.nodeCnt ≤ net.maxTxnInFlight :=
    (Nat.div_le_self _ _).trans (Nat.div_le_self _ _)
  simp only [limit]
  split_ifs <;> omega

lemma Counted.look (h : Counted f) (hs : f.look = some g) : Counted g := by
  simp only [Flow.look] at hs
  split_ifs at hs with hnone hfull
  · obtain rfl := Option.some.inj hs
    exact ⟨h.count, h.le, h.room⟩
  · obtain rfl := Option.some.inj hs
    refine ⟨h.count, h.le, fun r hr => ?_⟩
    obtain rfl := Option.some.inj hr
    exact lt_of_le_of_ne (h.le _) hfull

lemma Counted.addQuery (h : Counted f) {requests : List Request} {startts : ℕ}
    (hs : f.addQuery requests startts = some g) : Counted g := by
  simp only [Flow.addQuery] at hs
  split at hs
  · cases hs
  rename_i node hnode
  have hroom := h.room node hnode
  have hlimit := limit_lt net node
  split_ifs at hs
  · obtain rfl := Option.some.inj hs
    have hexact : add64 (f.inRound node) 1 = f.inRound node + 1 := add64_of_lt (by omega)
    refine ⟨fun r => ?_, fun r => ?_, fun r hr => by cases hr⟩
    · have hcount := h.count r
      simp only [sentTo, List.filter_append, List.map_append, Multiset.coe_card, List.length_append, hexact] at hcount ⊢
      by_cases hr : r = node
      · subst hr
        rw [Function.update_self, List.filter_singleton]
        simp only [decide_true, cond_true, List.map_singleton, List.length_singleton]
        omega
      · rw [Function.update_of_ne hr, List.filter_singleton, decide_eq_false (Ne.symm hr)]
        exact hcount
    · dsimp only
      by_cases hr : r = node
      · subst hr
        rw [Function.update_self, hexact]
        exact hroom
      · rw [Function.update_of_ne hr]
        exact h.le r
  · obtain rfl := Option.some.inj hs
    exact ⟨h.count, h.le, fun r hr => by cases hr⟩
  · obtain rfl := Option.some.inj hs
    exact ⟨h.count, h.le, fun r hr => by cases hr⟩

lemma Counted.inRound_pos (h : Counted f) (hcred : Credited f) (hsup : Supplied crypto f) {thd node : ℕ}
    (hc : f.credit thd = some (node, id)) : 0 < f.inRound node := by
  have hcount := h.count node
  have hlt := hcred.lt_sentTo hsup hc
  omega

lemma Counted.finish (h : Counted f) (hcred : Credited f) (hsup : Supplied crypto f) {thd : ℕ}
    (hs : f.finish thd = some g) : Counted g := by
  obtain ⟨node, txnId, c, hcredit, hc, rfl⟩ := finish_cases hs
  have hpos := h.inRound_pos hcred hsup hcredit
  have hexact : sub64 (f.inRound node) 1 = f.inRound node - 1 := sub64_of_le hpos
  have hle : ∀ r, Function.update f.inRound node (sub64 (f.inRound node) 1) r ≤ f.inRound r := by
    intro r
    by_cases hr : r = node
    · subst hr
      rw [Function.update_self, hexact]
      exact Nat.sub_le _ _
    · rw [Function.update_of_ne hr]
  refine ⟨fun r => ?_, fun r => (hle r).trans (h.le r), fun r hr => (hle r).trans_lt (h.room r hr)⟩
  have hcount := h.count r
  change Function.update f.inRound node (sub64 (f.inRound node) 1) r +
    (f.completed ++ [(node, txnId)]).countP (fun c => c.1 = r) = (f.sentTo r).card
  rw [List.countP_append, List.countP_singleton]
  by_cases hr : r = node
  · subst hr
    rw [Function.update_self, hexact, if_pos (by simp)]
    omega
  · rw [Function.update_of_ne hr, if_neg (by simpa using Ne.symm hr)]
    exact hcount

end Count

section Runs

variable {net : FlowConfig} {crypto : Crypto} {f g : Flow net}

structure Exact (crypto : Crypto) (f : Flow net) : Prop where
  supplied : Supplied crypto f
  credited : Credited f
  counted : Counted f

lemma exact_init : Exact crypto (init net) := ⟨supplied_init, credited_init, counted_init⟩

lemma Exact.step (h : Exact crypto f) {e : Event net} (hok : Allowed f e) (hs : f.step crypto e = some g) :
    Exact crypto g := by
  obtain ⟨hsup, hcred, hcount⟩ := h
  cases e with
  | look =>
    refine ⟨?_, ?_, hcount.look hs⟩
    · simp only [Flow.step, Flow.look] at hs
      split_ifs at hs <;> obtain rfl := Option.some.inj hs <;> exact ⟨hsup.reach, hsup.mine, hsup.sent, hsup.responses⟩
    · simp only [Flow.step, Flow.look] at hs
      split_ifs at hs <;> obtain rfl := Option.some.inj hs <;> exact hcred.of_same rfl rfl rfl fun _ => List.Subset.refl _
  | addQuery requests startts =>
    refine ⟨hsup.addQuery hs, ?_, hcount.addQuery hs⟩
    simp only [Flow.step, Flow.addQuery] at hs
    split at hs
    · cases hs
    · split_ifs at hs <;> obtain rfl := Option.some.inj hs <;> exact hcred.of_same rfl rfl rfl fun _ => List.Subset.refl _
  | arrive k i =>
    have hsup' := hsup.arrive hok hs
    obtain ⟨p, batch, S, hk, hS, rfl⟩ := arrive_cases hs
    refine ⟨hsup', hcred.of_same rfl rfl rfl (System.step_proposals hsup.reach (hok (p, batch) hk) hS), ?_⟩
    exact ⟨hcount.count, hcount.le, hcount.room⟩
  | act e =>
    obtain ⟨S, hS, rfl⟩ := Option.map_eq_some_iff.mp hs
    refine ⟨hsup.act hok hs, hcred.of_same rfl rfl rfl (System.step_proposals hsup.reach hok.1 hS), ?_⟩
    exact ⟨hcount.count, hcount.le, hcount.room⟩
  | receive thd j m =>
    have hcred' := hcred.receive hsup hok hs
    obtain ⟨rsp, c, _, _, rfl⟩ := receive_cases hs
    exact ⟨⟨hsup.reach, hsup.mine, hsup.sent, hsup.responses⟩, hcred', hcount.count, hcount.le, hcount.room⟩
  | finish thd =>
    have hcred' := hcred.finish hs
    have hcount' := hcount.finish hcred hsup hs
    obtain ⟨node, txnId, c, _, _, rfl⟩ := finish_cases hs
    exact ⟨⟨hsup.reach, hsup.mine, hsup.sent, hsup.responses⟩, hcred', hcount'⟩

lemma exact_reach (h : Reachable crypto f) : Exact crypto f := by
  apply h.invariant (Exact crypto)
  · exact exact_init
  · exact fun _ _ _ _ hok hs hexact => hexact.step hok hs

def SenderOf (f : Flow net) (node txnId : ℕ) : Prop :=
  ∃ x ∈ (f.system node).proposals, net.lastTxn x.view x.instanceId = txnId ∧ (node, x.batch) ∈ f.sent ∧
    ∀ q < net.nodeCnt, ∀ y ∈ (f.system q).proposals, net.lastTxn y.view y.instanceId = txnId → q = node ∧ y = x

lemma Supplied.senderOf (h : Supplied crypto f) {node txnId : ℕ} (hanswered : Answered f.system node txnId net) :
    SenderOf f node txnId := by
  obtain ⟨hnode, x, hx, hslot, hmine⟩ := hanswered
  refine ⟨x, hx, hslot, ?_, fun q hq y hy hslot' => slot_unique h.reach hq hnode hy hx (hslot'.trans hslot.symm)⟩
  have hmem : x.batch ∈ f.sentTo node := by
    refine Multiset.mem_of_le (h.proposed_le hnode) (Multiset.mem_filter.mpr ⟨?_, hmine⟩)
    exact List.mem_map_of_mem hx
  obtain ⟨e, he, heq⟩ := List.mem_map.mp hmem
  obtain ⟨he, hdest⟩ := List.mem_filter.mp he
  rw [← heq, ← of_decide_eq_true hdest]
  exact he

theorem flow_control_exact (h : Reachable crypto f) {r : ℕ} (hr : r < net.nodeCnt) :
    (f.completedOf r ≤ f.sentTo r ∧ f.inRound r = (f.sentTo r - f.completedOf r).card ∧ f.inRound r ≤ limit net r) ∧
    (∀ rsp ∈ f.responses, SenderOf f (net.getViewPrimary rsp.view rsp.instanceId) rsp.txnId) ∧
    (∀ c ∈ f.completed, SenderOf f c.1 c.2) ∧
    (∀ thd c, f.credit thd = some c → SenderOf f c.1 c.2 ∧ 0 < f.inRound c.1) := by
  obtain ⟨hsup, hcred, hcount⟩ := exact_reach h
  have hle := hcred.completedOf_le hsup hr
  refine ⟨⟨hle, ?_, hcount.le r⟩, fun rsp hrsp => hsup.senderOf (hsup.responses rsp hrsp),
    fun c hc => hsup.senderOf (hcred.answered c hc),
    fun thd c hc => ⟨hsup.senderOf (hcred.pending thd c hc), hcount.inRound_pos hcred hsup hc⟩⟩
  have hround := hcount.count r
  rw [Multiset.card_sub hle, hcred.card_completedOf hsup hr]
  omega

def submit (key : ℕ) : List (Event .fourReplicas) :=
  (List.range 5).flatMap fun ts => [.look, .addQuery [⟨key, ts⟩] ts]

def viaClient : System.Event → Event .fourReplicas
  | .act _ (.clientBatch i _) => .arrive 0 i
  | e => .act e

-- The client sends a batch to each of three replicas; the first one executes and answers its batch.
def threeBatches : List (Event .fourReplicas) :=
  submit 1 ++ submit 2 ++ submit 3 ++ System.threeViews.map viaClient ++ [.act (.act 0 (.execute 1))]

def answer : Client.ClientResponse .fourReplicas where
  txnId := 4
  returnNodeId := 0
  index := ⟨[0, 1, 2, 3, 4], rfl⟩
  clientTs := ⟨[0, 1, 2, 3, 4], rfl⟩

theorem flow_control_exact_one_completed :
    ∃ f : Flow .fourReplicas, Reachable .transparent f ∧ f.completed = [(0, 4)] ∧
      f.inRound 0 = 0 ∧ f.inRound 1 = 1 ∧ (f.sentTo 0 - f.completedOf 0).card = 0 ∧
      (f.sentTo 1 - f.completedOf 1).card = 1 ∧ SenderOf f 0 4 := by
  obtain ⟨f, hf, hp⟩ := exists_reach_of_runWith (step .transparent) Allowed (init .fourReplicas)
    (threeBatches ++ [.receive 0 0 answer, .receive 1 0 answer, .finish 1])
    (fun f => decide (f.completed = [(0, 4)] ∧ f.inRound 0 = 0 ∧ f.inRound 1 = 1)) (by decide +kernel)
  obtain ⟨hcompleted, hzero, hone⟩ := of_decide_eq_true hp
  obtain ⟨⟨_, hround, _⟩, _, hsender, _⟩ := flow_control_exact hf (r := 0) (by decide)
  obtain ⟨⟨_, hround', _⟩, _⟩ := flow_control_exact hf (r := 1) (by decide)
  refine ⟨f, hf, hcompleted, hzero, hone, hround.symm.trans hzero, hround'.symm.trans hone, ?_⟩
  exact hsender (0, 4) (hcompleted ▸ List.mem_singleton_self _)

end Runs

end Flow

end SpotLess
