import SpotLess.BatchDigest
import SpotLess.Certificates
import SpotLess.Custody
import SpotLess.Lib.Replicated
import SpotLess.Retention
import SpotLess.Storage

namespace SpotLess

open Lib

namespace Replica

def commands (r : Replica) : List ClientQuery := r.exec.ran.map fun e => e.2.query

-- `YCSBTxnManager::run_txn`.
def runTxn (db : Table) (qry : ClientQuery) : Table :=
  qry.requests.foldl (fun db req => (InMemoryDB.put db (toStringDec req.key) (toStringDec req.value)).2) db

def database (r : Replica) : Table := r.commands.foldl runTxn ∅

end Replica

abbrev Store := ℕ → Option ℕ

namespace Store

def write (m : Store) (req : Request) : Store := Function.update m req.key (some req.value)

def run (m : Store) (qry : ClientQuery) : Store := qry.requests.foldl write m

def Represents (db : Table) (m : Store) : Prop := ∀ key, db.lookup (toStringDec key) = (m key).map toStringDec

variable {db : Table} {m : Store}

lemma Represents.put (h : Represents db m) (req : Request) :
    Represents (InMemoryDB.put db (toStringDec req.key) (toStringDec req.value)).2 (m.write req) := by
  intro key
  change ((UMap.touch db (toStringDec req.key)).insert (toStringDec req.key) (toStringDec req.value)).lookup
    (toStringDec key) = _
  by_cases hkey : key = req.key
  · subst hkey
    rw [AList.lookup_insert, write, Function.update_self, Option.map_some]
  · have hne : toStringDec key ≠ toStringDec req.key := fun heq => hkey (toStringDec_injective heq)
    rw [AList.lookup_insert_ne hne, write, Function.update_of_ne hkey, ← h key, UMap.touch]
    split_ifs
    · rfl
    · rw [AList.lookup_insert_ne hne]

lemma Represents.runTxn (h : Represents db m) (qry : ClientQuery) : Represents (Replica.runTxn db qry) (m.run qry) := by
  rw [Replica.runTxn, run]
  generalize qry.requests = reqs
  induction reqs generalizing db m with
  | nil => exact h
  | cons req reqs ih => exact ih (h.put req)

lemma represents_replay (qrys : List ClientQuery) :
    Represents (qrys.foldl Replica.runTxn ∅) (qrys.foldl run fun _ => none) := by
  have hall : ∀ db m, Represents db m → Represents (qrys.foldl Replica.runTxn db) (qrys.foldl run m) := by
    induction qrys with
    | nil => exact fun _ _ h => h
    | cons qry qrys ih => exact fun db m h => ih _ _ (h.runTxn qry)
  exact hall _ _ fun _ => rfl

end Store

namespace Replica

variable {cfg : Config} {crypto : Crypto} {H : ℕ → ℕ → Bytes} {P : Msg → Prop} {Q : ℕ → Prop}
  {B : ℕ → ClientQueryBatch → Prop} {r₀ r s : Replica} {e : Event} {p : ℕ}

section Execute

structure Runs (cfg : Config) (r : Replica) (x : Executor) (v i : ℕ) : Prop where
  inst : i < cfg.totInstances
  turn : r.exec.nextIndex = cfg.firstTxn v i
  next : x.nextIndex = r.exec.nextIndex + cfg.batchSize
  ran : x.ran = r.exec.ran ++ (cfg.slotTxns v i).map fun id => (id, r.table id)
  responses : x.responses = r.exec.responses ++ [Executor.respond (cfg.slotTxns v i) r.table]

def Rests (r : Replica) (x : Executor) : Prop :=
  x.nextIndex = r.exec.nextIndex ∧ x.ran = r.exec.ran ∧ x.responses = r.exec.responses

lemma Tracked.runs (h : Tracked cfg r) {k : ℕ} {x : Executor} (hs : r.exec.step cfg (.pop k r.table) = some x) :
    Rests r x ∨ ∃ v i, Runs cfg r x v i := by
  obtain ⟨c, hnext, hexpected, _⟩ := h.turn
  simp only [Executor.step] at hs
  split at hs
  swap
  · cases hs
  rename_i m hget
  obtain ⟨_, id, rfl, _⟩ := h.queued m (List.mem_of_getElem? hget)
  simp only [Executor.handle] at hs
  split_ifs at hs with hlate hturn hrange
  · exact .inl (Option.some.inj hs ▸ ⟨rfl, rfl, rfl⟩)
  · exact .inl (Option.some.inj hs ▸ ⟨rfl, rfl, rfl⟩)
  · rw [not_not, hexpected] at hturn
    rw [hexpected] at hrange
    obtain rfl := Executor.copyFromTxn_expected cfg hturn hrange
    have hslot : cfg.slot (c / cfg.totInstances) (c % cfg.totInstances) = c := Nat.div_add_mod' c cfg.totInstances
    have hids : Executor.executeIds (ExecuteMsg.copyFromTxn cfg (c * cfg.batchSize + cfg.batchSize - 1)) =
        cfg.slotTxns (c / cfg.totInstances) (c % cfg.totInstances) := by
      rw [Executor.executeIds_expected, Config.slotTxns, Config.firstTxn, hslot]
    refine .inr ⟨c / cfg.totInstances, c % cfg.totInstances, Nat.mod_lt _ cfg.instances_pos, ?_, ?_, ?_, ?_⟩
    · rw [Config.firstTxn, hslot, hnext]
    all_goals
      rw [← Option.some.inj hs]
      simp only [Executor.processExecute, ExecuteMsg.copyFromTxn, if_true]
    · rw [← hids]
      rfl
    · rw [← hids]
      rfl

lemma Rests.of_queue {q : List ExecuteMsg} (h : s.exec = { r.exec with queue := q }) : Rests r s.exec := by
  rw [h]
  exact ⟨rfl, rfl, rfl⟩

lemma Move.rests (h : Move cfg crypto P Q B r₀ r s) :
    Rests r s.exec ∨ r = r₀ ∧ ∃ k, r₀.exec.step cfg (.pop k r₀.table) = some s.exec := by
  cases h with
  | idle h => exact .inl (h.exec ▸ ⟨rfl, rfl, rfl⟩)
  | proposal => exact .inl ⟨rfl, rfl, rfl⟩
  | generic =>
    left
    simp only [lockGeneric]
    split_ifs
    · exact .of_queue (updateLockQC_exec ..)
    · exact ⟨rfl, rfl, rfl⟩
  | @vote _ id =>
    left
    rcases sendHotstuffNewview_cases cfg crypto r id with ⟨_, heq⟩ | ⟨_, hc⟩
    · rw [heq]
      exact ⟨rfl, rfl, rfl⟩
    · rw [hc.exec]
      exact ⟨rfl, rfl, rfl⟩
  | count =>
    left
    simp only [countVote, bindTxnid]
    split_ifs <;> exact ⟨rfl, rfl, rfl⟩
  | advance _ _ _ h => exact .inl (.of_queue (advanceView_exec h))
  | batch => exact .inl ⟨rfl, rfl, rfl⟩
  | announce => exact .inl ⟨rfl, rfl, rfl⟩
  | @execute k e h => exact .inr ⟨rfl, k, h⟩
  | recycle => exact .inl ⟨rfl, rfl, rfl⟩

lemma runs_ready (hapart : Apart cfg H) (hp : p < cfg.nodeCnt)
    (h : Reach (step cfg crypto) (FaultFree cfg crypto H) (init cfg p) r) {k v i : ℕ} {x : Executor}
    (hs : r.exec.step cfg (.pop k r.table) = some x) (hruns : Runs cfg r x v i) :
    (r.table (cfg.lastTxn v i)).Ready := by
  have hstep : r.step cfg crypto (.execute k) = some (r.setExec x) := Option.map_eq_some_iff.mpr ⟨x, hs, rfl⟩
  have hfree : FaultFree cfg crypto H r (.execute k) := ⟨trivial, nofun, nofun⟩
  have hafter := tidy_reach hapart hp (h.next (.execute k) hfree hstep)
  have hlast := cfg.lastTxn_add_one v i
  have hb := cfg.batchSize_pos
  have hleft : v < (r.inst i).view := by
    by_contra hle
    have hwait := hafter.not_executed hruns.inst (w := v) (Nat.le_of_not_lt hle)
    rw [setExec_exec, hruns.next, hruns.turn] at hwait
    omega
  refine ((calm_reach hp h).steady.paced.passed i hruns.inst v hleft).resolve_right ?_
  rintro ⟨hlt, _⟩
  have hturn := hruns.turn
  omega

end Execute

end Replica

namespace System

variable {cfg : Config} {crypto : Crypto} {S T : System} {p q : ℕ}

section Ledger

variable (cfg) (S : System)

def batchAt (c : ℕ) : Option ClientQueryBatch :=
  ((S (cfg.getViewPrimary (c / cfg.totInstances) (c % cfg.totInstances))).proposals.find? fun x =>
    decide (x.instanceId = c % cfg.totInstances ∧ x.view = c / cfg.totInstances)).map Proposal.batch

def ledger (id : ℕ) : Option ClientQuery :=
  (S.batchAt cfg (id / cfg.batchSize)).bind fun batch => batch.cqrySet[id % cfg.batchSize]?

def answer (v i : ℕ) (batch : ClientQueryBatch) : ClientResponse where
  dest := batch.client
  txnId := cfg.lastTxn v i
  view := v
  index := cfg.slotTxns v i
  clientTs := batch.cqrySet.map ClientQuery.clientStartts

def answers (c : ℕ) : Option ClientResponse :=
  (S.batchAt cfg c).map (answer cfg (c / cfg.totInstances) (c % cfg.totInstances))

end Ledger

lemma batchAt_of_mem (h : Reachable cfg crypto ∅ S) {v i : ℕ} (hi : i < cfg.totInstances) {batch : ClientQueryBatch}
    (hmem : ⟨i, v, batch⟩ ∈ (S (cfg.getViewPrimary v i)).proposals) : S.batchAt cfg (cfg.slot v i) = some batch := by
  have halloc := (orderly_reach h (cfg.getViewPrimary_lt v i)).alloc
  rw [batchAt, cfg.slot_div v hi, cfg.slot_mod v hi]
  cases hfind : (S (cfg.getViewPrimary v i)).proposals.find? fun x => decide (x.instanceId = i ∧ x.view = v) with
  | none =>
    rw [List.find?_eq_none] at hfind
    exact absurd (decide_eq_true ⟨rfl, rfl⟩) (hfind _ hmem)
  | some x =>
    have hslot := List.find?_some hfind
    rw [decide_eq_true_iff] at hslot
    obtain ⟨hinst, hview⟩ := hslot
    rw [halloc.unique cfg (List.mem_of_find?_eq_some hfind) hmem hview hinst]
    rfl

lemma batchAt_mono (h : Reachable cfg crypto ∅ S) {e : Event} (hok : Allowed cfg ∅ S e)
    (hs : step cfg crypto S e = some T) {c : ℕ} {batch : ClientQueryBatch} (hb : S.batchAt cfg c = some batch) :
    T.batchAt cfg c = some batch := by
  obtain ⟨x, hx, rfl⟩ := Option.map_eq_some_iff.mp hb
  have hslot : cfg.slot (c / cfg.totInstances) (c % cfg.totInstances) = c := Nat.div_add_mod' c cfg.totInstances
  have hat := List.find?_some hx
  rw [decide_eq_true_iff] at hat
  rw [← hslot]
  refine batchAt_of_mem (h.next e hok hs) (Nat.mod_lt _ cfg.instances_pos) ?_
  have hmem := step_proposals h hok hs _ (List.mem_of_find?_eq_some hx)
  rw [← hat.1, ← hat.2] at hmem ⊢
  exact hmem

lemma ledger_mono (h : Reachable cfg crypto ∅ S) {e : Event} (hok : Allowed cfg ∅ S e)
    (hs : step cfg crypto S e = some T) {id : ℕ} {qry : ClientQuery} (hq : S.ledger cfg id = some qry) :
    T.ledger cfg id = some qry := by
  obtain ⟨batch, hb, hget⟩ := Option.bind_eq_some_iff.mp hq
  rw [ledger, batchAt_mono h hok hs hb]
  exact hget

lemma answers_mono (h : Reachable cfg crypto ∅ S) {e : Event} (hok : Allowed cfg ∅ S e)
    (hs : step cfg crypto S e = some T) {c : ℕ} {rsp : ClientResponse} (hr : S.answers cfg c = some rsp) :
    T.answers cfg c = some rsp := by
  obtain ⟨batch, hb, heq⟩ := Option.map_eq_some_iff.mp hr
  rw [answers, batchAt_mono h hok hs hb]
  exact congrArg some heq

structure Stored (cfg : Config) (S : System) (v i : ℕ) (r : Replica) : Prop where
  hash : (r.table (cfg.lastTxn v i)).hash ≠ []
  view : (r.table (cfg.lastTxn v i)).view = v
  filled : ∃ batch, ⟨i, v, batch⟩ ∈ (S (cfg.getViewPrimary v i)).proposals ∧
    ((cfg.slotTxns v i).map fun id => (r.table id).query) = batch.cqrySet

def AllStored (cfg : Config) (S : System) : Prop :=
  ∀ p < cfg.nodeCnt, ∀ v i, i < cfg.totInstances → (S p).exec.nextIndex ≤ cfg.lastTxn v i →
    ((S p).table (cfg.lastTxn v i)).proposalReceived = true → Stored cfg S v i (S p)

lemma Stored.mono {v i : ℕ} {r : Replica} (h : Stored cfg S v i r)
    (hsub : ∀ q, (S q).proposals ⊆ (T q).proposals) : Stored cfg T v i r := by
  obtain ⟨batch, hbatch, heq⟩ := h.filled
  exact ⟨h.hash, h.view, batch, hsub _ hbatch, heq⟩

lemma Stored.of_retains {v i : ℕ} {r s : Replica} (h : Stored cfg S v i r)
    (hret : ∀ k ∈ cfg.slotTxns v i, (r.table k).Retains (s.table k)) : Stored cfg S v i s := by
  obtain ⟨hhash, _, hview⟩ := (hret _ Replica.lastTxn_mem).hashed h.hash
  obtain ⟨batch, hbatch, heq⟩ := h.filled
  refine ⟨hhash ▸ h.hash, hview.trans h.view, batch, hbatch, ?_⟩
  rw [← heq]
  exact List.map_congr_left fun k hk => (hret k hk).query

lemma stored_of_takes (h : Reachable cfg crypto ∅ S) {e : Event} {a : Replica.Event} {r : Replica} {m : ProposalMsg}
    (hok : Allowed cfg ∅ S e) (ha : e.local S = some a) (hnode : e.node < cfg.nodeCnt)
    (hself : r.nodeId = (S e.node).nodeId) (hm : (S e.node).Takes cfg crypto a r m)
    (hsub : ∀ q, (S q).proposals ⊆ (Function.update S e.node r q).proposals) :
    Stored cfg (Function.update S e.node r) m.view m.instanceId r := by
  obtain ⟨hholds, _⟩ := hm.holds (orderly_reach h hnode) hself
  obtain ⟨_, hhash, _, hview⟩ := hm.stores.last hm.slotted.length hm.slotted.hash_ne_nil
  have hqueries := hholds.queries
  rw [hm.slotted.index] at hqueries
  refine ⟨hhash ▸ hm.slotted.hash_ne_nil, hview, ?_⟩
  rcases hm.origin with ⟨rfl, _⟩ | ⟨hprim, _, batch, hbatch, heq⟩
  · obtain ⟨q, hq, hout⟩ := delivered hok ha
    obtain ⟨batch, hbatch, heq⟩ := Replica.sentProposed_reach (reach_replica h hq) _ _ hout
    refine ⟨batch, ?_, hqueries.trans heq.symm⟩
    rw [(getViewPrimary_of_mem h hq hbatch).2]
    exact hsub q hbatch
  · refine ⟨batch, ?_, hqueries.trans heq.symm⟩
    rw [hprim, nodeId_eq h hnode, Function.update_self]
    exact hbatch

lemma lt_of_released {id v i k next : ℕ} (hk : k ∈ cfg.slotTxns v i)
    (hid : id + 16 * cfg.batchSize * cfg.nodeCnt + 5 < next) (hnext : next ≤ cfg.lastTxn v i) : k ≠ id := by
  rintro rfl
  have hn := cfg.nodeCnt_pos
  have hmul : cfg.batchSize ≤ 16 * cfg.batchSize * cfg.nodeCnt := by
    calc cfg.batchSize ≤ cfg.batchSize * (16 * cfg.nodeCnt) := Nat.le_mul_of_pos_right _ (by omega)
      _ = 16 * cfg.batchSize * cfg.nodeCnt := by ring
  have hfirst : cfg.firstTxn v i ≤ k := (List.mem_range'_1.mp hk).1
  have hlast := cfg.lastTxn_add_one v i
  omega

lemma AllStored.step (hall : AllStored cfg S) (h : Reachable cfg crypto ∅ S) {e : Event} (hok : Allowed cfg ∅ S e)
    (hs : step cfg crypto S e = some T) : AllStored cfg T := by
  have hsub := step_proposals h hok hs
  obtain ⟨a, r, ha, hreg, hnode, hr, rfl⟩ := regular_step h hok hs
  intro p hp v i hi hindex hrec
  by_cases hpe : p = e.node
  swap
  · rw [Function.update_of_ne hpe] at hindex hrec ⊢
    exact (hall p hp v i hi hindex hrec).mono hsub
  subst hpe
  rw [Function.update_self] at hindex hrec ⊢
  have hopen := (hreg.nextIndex_le hr).trans hindex
  have hkept : (∀ k ∈ cfg.slotTxns v i, ((S e.node).table k).Retains (r.table k)) →
      Stored cfg (Function.update S e.node r) v i r := by
    intro hret
    rw [(hret _ Replica.lastTxn_mem).received] at hrec
    exact ((hall _ hp v i hi hopen hrec).of_retains hret).mono hsub
  rcases (orderly_reach h hnode).cases hreg hr with hret | ⟨m, hm⟩ | ⟨id, t, _, rfl, _, hlt⟩
  · exact hkept fun k _ => hret k
  · by_cases hslot : (v, i) = (m.view, m.instanceId)
    · obtain ⟨rfl, rfl⟩ := Prod.mk.inj hslot
      exact stored_of_takes h hok ha hnode (Replica.step_nodeId cfg crypto hr) hm hsub
    · exact hkept fun k hk => hm.stores.apart hi hm.slotted.inst hslot hk
  · refine hkept fun k hk => ?_
    rw [Replica.setTxn_table, Function.update_of_ne (lt_of_released hk hlt hopen)]
    exact .refl _

lemma allStored_reach (h : Reachable cfg crypto ∅ S) : AllStored cfg S := by
  apply h.invariant (AllStored cfg)
  · exact fun _ _ _ _ _ _ hrec => absurd hrec Bool.false_ne_true
  · intro S e T hS hok hs hall
    exact hall.step hS hok hs

section Execution

def Served (cfg : Config) (S : System) (r : Replica) (c : ℕ) : Prop :=
  ∃ batch, ⟨c % cfg.totInstances, c / cfg.totInstances, batch⟩ ∈
      (S (cfg.getViewPrimary (c / cfg.totInstances) (c % cfg.totInstances))).proposals ∧
    (r.commands.drop (c * cfg.batchSize)).take cfg.batchSize = batch.cqrySet ∧
    r.exec.responses[c]? = some (answer cfg (c / cfg.totInstances) (c % cfg.totInstances) batch)

structure Executed (cfg : Config) (S : System) (r : Replica) : Prop where
  count : r.exec.nextIndex = r.exec.responses.length * cfg.batchSize
  ids : r.exec.ran.map Prod.fst = List.range r.exec.nextIndex
  commands : Follows (S.ledger cfg) r.commands
  responses : Follows (S.answers cfg) r.exec.responses
  served : ∀ c < r.exec.responses.length, Served cfg S r c

variable {r s : Replica}

lemma Executed.length (h : Executed cfg S r) : r.commands.length = r.exec.nextIndex := by
  rw [Replica.commands, List.length_map, ← List.length_map Prod.fst, h.ids, List.length_range]

lemma Executed.mono (h : Executed cfg S r) (hS : Reachable cfg crypto ∅ S) {e : Event} (hok : Allowed cfg ∅ S e)
    (hs : step cfg crypto S e = some T) : Executed cfg T r :=
  ⟨h.count, h.ids, h.commands.mono fun _ _ => ledger_mono hS hok hs,
    h.responses.mono fun _ _ => answers_mono hS hok hs, fun c hc => by
      obtain ⟨batch, hmem, hserved⟩ := h.served c hc
      exact ⟨batch, step_proposals hS hok hs _ hmem, hserved⟩⟩

lemma executed_init (cfg : Config) (S : System) (p : ℕ) : Executed cfg S (Replica.init cfg p) where
  count := (Nat.zero_mul _).symm
  ids := rfl
  commands := follows_nil _
  responses := follows_nil _
  served _ hc := absurd hc (Nat.not_lt_zero _)

lemma Executed.rests (h : Executed cfg S r) (hrest : Replica.Rests r s.exec) : Executed cfg S s := by
  obtain ⟨hnext, hran, hresp⟩ := hrest
  constructor
  · rw [hnext, hresp, h.count]
  · rw [hran, hnext, h.ids]
  · rw [Replica.commands, hran]
    exact h.commands
  · rw [hresp]
    exact h.responses
  · rw [hresp]
    intro c hc
    rw [Served, Replica.commands, hran, hresp]
    exact h.served c hc

lemma respond_eq_answer {v i : ℕ} {batch : ClientQueryBatch} (hview : (r.table (cfg.lastTxn v i)).view = v)
    (hqueries : ((cfg.slotTxns v i).map fun id => (r.table id).query) = batch.cqrySet) :
    Executor.respond (cfg.slotTxns v i) r.table = answer cfg v i batch := by
  have hclient : (r.table (cfg.lastTxn v i)).clientId = batch.client := by
    rw [ClientQueryBatch.client, ← hqueries, List.map_map]
    exact (slotTxns_map_getLastD (f := fun k => (r.table k).clientId) v i).symm
  simp only [Executor.respond, answer, cfg.slotTxns_getLastD, hview, hclient, ← hqueries, List.map_map]
  rfl

lemma Executed.runs (h : Executed cfg S r) (hS : Reachable cfg crypto ∅ S) {v i : ℕ}
    (hruns : Replica.Runs cfg r s.exec v i) (hstored : Stored cfg S v i r) : Executed cfg S s := by
  have hb := cfg.batchSize_pos
  obtain ⟨batch, hmem, hqueries⟩ := hstored.filled
  have hbatch := batchAt_of_mem hS hruns.inst hmem
  have hsize : batch.cqrySet.length = cfg.batchSize := by
    rw [← hqueries, List.length_map, Config.slotTxns, List.length_range']
  have hlen : r.exec.responses.length = cfg.slot v i := by
    have hturn := hruns.turn
    rw [h.count, Config.firstTxn] at hturn
    exact Nat.eq_of_mul_eq_mul_right hb hturn
  have hcommands : s.commands = r.commands ++ batch.cqrySet := by
    rw [Replica.commands, hruns.ran, List.map_append, List.map_map, ← hqueries]
    rfl
  have hresponses : s.exec.responses = r.exec.responses ++ [answer cfg v i batch] := by
    rw [hruns.responses, respond_eq_answer hstored.view hqueries]
  have hfull : r.commands.length = r.exec.responses.length * cfg.batchSize := h.length.trans h.count
  constructor
  · rw [hruns.next, hresponses, h.count, List.length_append, List.length_singleton, Nat.succ_mul]
  · rw [hruns.ran, List.map_append, List.map_map, h.ids, hruns.next, List.range_eq_range', List.range_eq_range',
      ← List.range'_append_1, Nat.zero_add, hruns.turn]
    exact congrArg _ (List.map_id _)
  · rw [hcommands]
    refine h.commands.append fun k hk => ?_
    rw [hsize] at hk
    have hid : r.commands.length + k = cfg.batchSize * cfg.slot v i + k := by rw [hfull, hlen, Nat.mul_comm]
    rw [ledger, hid, Nat.mul_add_div hb, Nat.div_eq_of_lt hk, Nat.add_zero, hbatch, Nat.mul_add_mod, Nat.mod_eq_of_lt hk]
    rfl
  · rw [hresponses]
    refine h.responses.append fun k hk => ?_
    obtain rfl : k = 0 := Nat.lt_one_iff.mp hk
    rw [Nat.add_zero, hlen, answers, hbatch, Option.map_some, cfg.slot_div v hruns.inst, cfg.slot_mod v hruns.inst]
    rfl
  · intro c hc
    rw [hresponses, List.length_append, List.length_singleton] at hc
    rcases Nat.lt_or_ge c r.exec.responses.length with hlt | hge
    · obtain ⟨old, hold, hrun, hanswer⟩ := h.served c hlt
      have hroom : c * cfg.batchSize + cfg.batchSize ≤ r.commands.length := by
        rw [hfull, ← Nat.succ_mul]
        exact Nat.mul_le_mul_right _ hlt
      refine ⟨old, hold, ?_, ?_⟩
      · rw [hcommands, List.drop_append_of_le_length (by omega),
          List.take_append_of_le_length (by rw [List.length_drop]; omega), hrun]
      · rw [hresponses, List.getElem?_append_left hlt, hanswer]
    · obtain rfl : c = r.exec.responses.length := by omega
      rw [Served, hlen, cfg.slot_div v hruns.inst, cfg.slot_mod v hruns.inst]
      refine ⟨batch, hmem, ?_, ?_⟩
      · rw [hcommands, ← hlen, ← hfull, List.drop_left, List.take_of_length_le hsize.le]
      · rw [hresponses, ← hlen, List.getElem?_append_right le_rfl, Nat.sub_self]
        rfl

lemma executed_of_fits {H : ℕ → ℕ → Bytes} (hapart : Replica.Apart cfg H) (h : Reachable cfg crypto ∅ S)
    (hfit : Fits cfg H S) : ∀ p < cfg.nodeCnt, Executed cfg S (S p) := by
  induction h with
  | start => exact fun p _ => executed_init cfg _ p
  | @next S T e hS hok hs ih =>
    have hT : Reachable cfg crypto ∅ T := .next e hS hok hs
    have hsub := step_proposals hS hok hs
    obtain ⟨hreach, a, r, ha, hfree, hnode, hr, heq⟩ := faultFree_step hS hok hs hfit
    have hexecuted : ∀ p < cfg.nodeCnt, Executed cfg T (S p) := fun p hp =>
      (ih ((heq ▸ hfit).of_update (Replica.step_trace hfree.genuine hr)) p hp).mono hS hok hs
    intro p hp
    by_cases hpe : p = e.node
    swap
    · rw [heq, Function.update_of_ne hpe, ← heq]
      exact hexecuted p hp
    subst hpe
    have htidy := Replica.tidy_reach hapart hp (hreach _ hp)
    have hr' : T e.node = r := by rw [heq, Function.update_self]
    rw [hr']
    refine (htidy.calm.moves hfree hr).invariant (I := Executed cfg T) ?_ (hexecuted _ hp)
    intro u v hm hu
    rcases hm.rests with hrest | ⟨rfl, k, hpop⟩
    · exact hu.rests hrest
    · rcases htidy.tracked.runs hpop with hrest | ⟨w, i, hruns⟩
      · exact hu.rests hrest
      · have hready := Replica.runs_ready hapart hp (hreach _ hp) hpop hruns
        have hturn := hruns.turn
        have hlast := cfg.lastTxn_add_one w i
        have hb := cfg.batchSize_pos
        have hstored := allStored_reach hS _ hp w i hruns.inst (by omega) hready.2.1
        exact hu.runs hT hruns (hstored.mono hsub)

lemma executed_reach (h : Reachable cfg crypto ∅ S) (hapart : Apart cfg S) (hp : p < cfg.nodeCnt) :
    Executed cfg S (S p) := executed_of_fits hapart.digest h (fits_digest h) p hp

lemma Executed.later {r : Replica} (hS : Reachable cfg crypto ∅ S) (h : Executed cfg S r)
    (hT : Reach (step cfg crypto) (Allowed cfg ∅) S T) : Executed cfg T r := by
  induction hT with
  | start => exact h
  | next e hr hok hs ih => exact ih.mono (hS.trans hr) hok hs

lemma executed_earlier (hS : Reachable cfg crypto ∅ S) (hT : Reach (step cfg crypto) (Allowed cfg ∅) S T)
    (hapart : Apart cfg T) (hp : p < cfg.nodeCnt) : Executed cfg T (S p) := by
  have hfit := fits_digest (hS.trans hT)
  exact (executed_of_fits hapart.digest hS (reaches_from hS hT hfit).1 p hp).later hS hT

-- All replicas execute one sequence of queries and give one sequence of answers, now and at any later time.
theorem logs_agree (hS : Reachable cfg crypto ∅ S) (hT : Reach (step cfg crypto) (Allowed cfg ∅) S T)
    (hapart : Apart cfg T) (hp : p < cfg.nodeCnt) (hq : q < cfg.nodeCnt)
    (hle : (S p).exec.nextIndex ≤ (T q).exec.nextIndex) :
    (S p).commands <+: (T q).commands ∧ (S p).exec.responses <+: (T q).exec.responses := by
  have hold := executed_earlier hS hT hapart hp
  have hnew := executed_reach (hS.trans hT) hapart hq
  refine ⟨hold.commands.shorter hnew.commands ?_, hold.responses.shorter hnew.responses ?_⟩
  · rwa [hold.length, hnew.length]
  · rw [hold.count, hnew.count] at hle
    exact Nat.le_of_mul_le_mul_right hle cfg.batchSize_pos

-- Replica 0 runs the first slot, and later replica 1 does.
def firstRun : List Event := threeViews ++ [.act 0 (.execute 1)]

def secondRun : List Event := relays [(1, 0, 13), (1, 2, 14)] ++ [.act 1 (.execute 1)]

theorem logs_agree_first_slot :
    ∃ S T : System, Reachable .fourReplicas .transparent ∅ S ∧
      Reach (step .fourReplicas .transparent) (Allowed .fourReplicas ∅) S T ∧
      (S 0).exec.nextIndex = 5 ∧ (T 1).exec.nextIndex = 5 ∧
      (S 0).commands <+: (T 1).commands ∧ (S 0).exec.responses <+: (T 1).exec.responses := by
  let cfg := Config.fourReplicas
  obtain ⟨S, hS, hp⟩ := exists_reach_of_runWith (step cfg .transparent) (Allowed cfg ∅) (init cfg) firstRun
    (fun S : System => decide ((S 0).exec.nextIndex = 5) &&
      (runWith (step cfg .transparent) (Allowed cfg ∅) S secondRun).any fun T : System =>
        decide (Apart cfg T ∧ (T 1).exec.nextIndex = 5)) (by decide +kernel)
  obtain ⟨hnext, hlater⟩ := Bool.and_eq_true_iff.mp hp
  have hnext := of_decide_eq_true hnext
  obtain ⟨T, hT, hp⟩ := exists_reach_of_runWith (step cfg .transparent) (Allowed cfg ∅) S secondRun _ hlater
  obtain ⟨hapart, hnext'⟩ := of_decide_eq_true hp
  refine ⟨S, T, hS, hT, hnext, hnext', ?_⟩
  exact logs_agree hS hT hapart (by decide : 0 < 4) (by decide : 1 < 4) (by rw [hnext, hnext'])

-- What is executed and answered for a slot is the batch its primary has filled it with.
theorem execution_valid (h : Reachable cfg crypto ∅ S) (hapart : Apart cfg S) (hp : p < cfg.nodeCnt) {c : ℕ}
    (hc : c * cfg.batchSize < (S p).exec.nextIndex) :
    ∃ batch, ⟨c % cfg.totInstances, c / cfg.totInstances, batch⟩ ∈
        (S (cfg.getViewPrimary (c / cfg.totInstances) (c % cfg.totInstances))).proposals ∧
      ((S p).commands.drop (c * cfg.batchSize)).take cfg.batchSize = batch.cqrySet ∧
      (S p).exec.responses[c]? = some (answer cfg (c / cfg.totInstances) (c % cfg.totInstances) batch) := by
  have hexec := executed_reach h hapart hp
  rw [hexec.count] at hc
  exact hexec.served c (Nat.lt_of_mul_lt_mul_right hc)

theorem execution_valid_first_slot :
    ∃ S : System, Reachable .fourReplicas .transparent ∅ S ∧ (S 0).exec.nextIndex = 5 ∧
      ∃ batch, ⟨0, 0, batch⟩ ∈ (S 0).proposals ∧ ((S 0).commands.drop 0).take 5 = batch.cqrySet ∧
        (S 0).exec.responses[0]? = some (answer .fourReplicas 0 0 batch) := by
  obtain ⟨S, hS, hp⟩ := exists_reach_of_runWith (step .fourReplicas .transparent) (Allowed .fourReplicas ∅)
    (init .fourReplicas) firstRun (fun S : System => decide (Apart .fourReplicas S ∧ (S 0).exec.nextIndex = 5))
    (by decide +kernel)
  obtain ⟨hapart, hnext⟩ := of_decide_eq_true hp
  exact ⟨S, hS, hnext, execution_valid (c := 0) hS hapart (by decide : 0 < 4) (by rw [hnext]; decide)⟩

-- The database holds for every key what the executed beginning of the ledger has written last.
theorem database_refines (h : Reachable cfg crypto ∅ S) (hapart : Apart cfg S) (hp : p < cfg.nodeCnt) :
    Store.Represents (S p).database
      (((List.range (S p).exec.nextIndex).filterMap (S.ledger cfg)).foldl Store.run fun _ => none) := by
  have hexec := executed_reach h hapart hp
  have hlog := hexec.commands.eq_filterMap
  rw [hexec.length] at hlog
  rw [Replica.database, ← hlog]
  exact Store.represents_replay _

theorem database_refines_first_slot :
    ∃ S : System, Reachable .fourReplicas .transparent ∅ S ∧ (S 0).exec.nextIndex = 5 ∧
      Store.Represents (S 0).database
        (((List.range 5).filterMap (S.ledger .fourReplicas)).foldl Store.run fun _ => none) := by
  obtain ⟨S, hS, hp⟩ := exists_reach_of_runWith (step .fourReplicas .transparent) (Allowed .fourReplicas ∅)
    (init .fourReplicas) firstRun (fun S : System => decide (Apart .fourReplicas S ∧ (S 0).exec.nextIndex = 5))
    (by decide +kernel)
  obtain ⟨hapart, hnext⟩ := of_decide_eq_true hp
  refine ⟨S, hS, hnext, ?_⟩
  have hrep := database_refines hS hapart (by decide : 0 < 4)
  rwa [hnext] at hrep

end Execution

end System

end SpotLess
