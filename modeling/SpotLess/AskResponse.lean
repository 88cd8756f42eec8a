import SpotLess.FaultFree

/-! The answer to a replica that asks for a proposal it has missed: the proposal is put together again from the
managers of its batch, which `init_txn_man` has filled with one query each. -/

namespace SpotLess

open Lib

def TxnManager.query (t : TxnManager) : ClientQuery where
  requests := t.requests
  clientStartts := t.clientStartts
  returnNode := t.clientId

def ClientQuery.cut (cfg : Config) (q : ClientQuery) : Option ClientQuery :=
  match q.requests with
  | [] => none
  | req :: _ => if 0 < cfg.reqPerQuery then some { q with requests := [req] } else none

lemma ClientQuery.cut_eq_some_iff {cfg : Config} {q : ClientQuery} (h : q.requests.length ≤ cfg.reqPerQuery) :
    q.cut cfg = some q ↔ q.requests.length = 1 := by
  obtain ⟨requests, startts, node⟩ := q
  rcases requests with _ | ⟨req, _ | ⟨req', rest⟩⟩
  · simp [cut]
  · have hpos : 0 < cfg.reqPerQuery := h
    simp [cut, hpos]
  · simp [cut]

lemma mapM_cut_eq_some_iff {cfg : Config} {qrys : List ClientQuery} (h : ∀ q ∈ qrys, q.requests.length ≤ cfg.reqPerQuery) :
    qrys.mapM (ClientQuery.cut cfg) = some qrys ↔ ∀ q ∈ qrys, q.requests.length = 1 := by
  induction qrys with
  | nil => simp
  | cons q qrys ih =>
    rw [List.forall_mem_cons] at h ⊢
    rw [← ih h.2, ← ClientQuery.cut_eq_some_iff h.1, List.mapM_cons]
    cases q.cut cfg with
    | none => simp
    | some q' =>
      cases qrys.mapM (ClientQuery.cut cfg) with
      | none => simp
      | some qrys' => simp

-- What a handler leaves of a manager that has its proposal.
structure TxnManager.Retains (t t' : TxnManager) : Prop where
  query : t'.query = t.query
  received : t'.proposalReceived = t.proposalReceived
  hashed : t.hash ≠ [] → t'.hash = t.hash ∧ t'.instanceId = t.instanceId ∧ t'.view = t.view

namespace TxnManager.Retains

lemma refl (t : TxnManager) : t.Retains t := ⟨rfl, rfl, fun _ => ⟨rfl, rfl, rfl⟩⟩

lemma trans {t t' t'' : TxnManager} (h : t.Retains t') (h' : t'.Retains t'') : t.Retains t'' where
  query := h'.query.trans h.query
  received := h'.received.trans h.received
  hashed ht := by
    obtain ⟨hhash, hinst, hview⟩ := h.hashed ht
    obtain ⟨hhash', hinst', hview'⟩ := h'.hashed (hhash ▸ ht)
    exact ⟨hhash'.trans hhash, hinst'.trans hinst, hview'.trans hview⟩

end TxnManager.Retains

namespace Replica

section Model

variable (cfg : Config) (crypto : Crypto)

-- `copy_from_txn_manager`; reading `requests[0]` and adding to the new query assert on their bounds.
def copyFromTxnManager (id : ℕ) (t : TxnManager) (requestMsg : List (Option ClientQuery)) :
    Option (List (Option ClientQuery)) :=
  match t.requests with
  | [] => none
  | req :: _ =>
    if 0 < cfg.reqPerQuery then
      some (requestMsg.set (id % cfg.batchSize)
        (some { requests := [req], returnNode := t.clientId, clientStartts := t.clientStartts }))
    else none

-- `copy_from_txn` of the response and then `send_ask_response`; an entry that stays null cannot be serialized.
def sendAskResponse (r : Replica) (txnId view : ℕ) : Option ProposalMsg :=
  let ids := List.range' (sub64 (txnId + 1) cfg.batchSize) cfg.batchSize
  let requestMsg := ids.foldlM (fun msgs k => copyFromTxnManager cfg k (r.table k) msgs)
    (List.replicate cfg.batchSize none)
  (requestMsg.bind fun msgs => msgs.mapM id).map fun qrys =>
    { txnId := sub64 txnId 2
      returnNodeId := r.nodeId
      instanceId := (r.table txnId).instanceId
      view := view
      index := ids
      requestMsg := qrys
      hash := (r.table txnId).hash }

def processSpotlessAskResponse (r : Replica) (m : ProposalMsg) : Option Replica :=
  if (r.table (m.txnId + 2)).proposalReceived then some r
  else if ¬ m.validate crypto then none
  else
    match fillManagers cfg r.table m.returnNodeId m.view m.instanceId (m.index.zip m.requestMsg) with
    | none => none
    | some table =>
      let last := m.index.getLastD 0
      let t : TxnManager := { table last with hash := m.hash, proposalReceived := true, genericReceived := true }
      let r₁ := { r with table := Function.update table last t }.rememberTxnid m.instanceId m.hash last
      if t.newViewed then
        let r₂ :=
          if t.highQC.viewNumber > (r₁.inst m.instanceId).preparedQC.viewNumber then
            r₁.updateLockQC cfg t.highQC m.view (sub64 last cfg.stride) m.instanceId
          else r₁
        r₂.advanceView cfg last
      else some r₁

end Model

section Rebuild

variable {cfg : Config} {r : Replica}

lemma copyFromTxnManager_eq (id : ℕ) (t : TxnManager) (msgs : List (Option ClientQuery)) :
    copyFromTxnManager cfg id t msgs = (t.query.cut cfg).map fun q => msgs.set (id % cfg.batchSize) (some q) := by
  simp only [copyFromTxnManager, ClientQuery.cut, TxnManager.query]
  split
  · rfl
  · split_ifs <;> rfl

lemma mapM_some_id {α : Type} (l : List α) : (l.map some).mapM id = some l := by
  induction l with
  | nil => rfl
  | cons a l ih => simp [ih]

variable (cfg) in
-- The loop of `send_ask_response`, whose entries up to the `n`-th are set.
lemma copyLoop_eq (slot : ℕ) (table : ℕ → TxnManager) (k n : ℕ) (hn : n + k = cfg.batchSize) (done : List ClientQuery)
    (hdone : done.length = n) :
    (List.range' (slot * cfg.batchSize + n) k).foldlM (fun msgs id => copyFromTxnManager cfg id (table id) msgs)
        (done.map some ++ List.replicate k none) =
      ((List.range' (slot * cfg.batchSize + n) k).mapM fun id => (table id).query.cut cfg).map
        fun qrys => (done ++ qrys).map some := by
  induction k generalizing n done with
  | zero => simp
  | succ k ih =>
    have hmod : (slot * cfg.batchSize + n) % cfg.batchSize = n := by
      rw [Nat.mul_comm, Nat.mul_add_mod, Nat.mod_eq_of_lt (by omega)]
    rw [List.range'_succ, List.foldlM_cons, List.mapM_cons, copyFromTxnManager_eq, hmod]
    cases (table (slot * cfg.batchSize + n)).query.cut cfg with
    | none => rfl
    | some q =>
      have hset : (done.map some ++ List.replicate (k + 1) none).set n (some q) =
          (done ++ [q]).map some ++ List.replicate k none := by
        rw [List.set_append_right _ _ (by simp [hdone])]
        simp [hdone, List.replicate_succ]
      have hrest := ih (n + 1) (by omega) (done ++ [q]) (by simp [hdone])
      rw [← Nat.add_assoc] at hrest
      simp only [Option.map_some, Option.bind_eq_bind, Option.bind_some, hset, hrest]
      cases (List.range' (slot * cfg.batchSize + n + 1) k).mapM fun id => (table id).query.cut cfg <;> simp

lemma sendAskResponse_eq (view v i : ℕ) :
    r.sendAskResponse cfg (cfg.lastTxn v i) view =
      ((cfg.slotTxns v i).mapM fun id => (r.table id).query.cut cfg).map fun qrys =>
        { txnId := sub64 (cfg.lastTxn v i) 2
          returnNodeId := r.nodeId
          instanceId := (r.table (cfg.lastTxn v i)).instanceId
          view := view
          index := cfg.slotTxns v i
          requestMsg := qrys
          hash := (r.table (cfg.lastTxn v i)).hash } := by
  have hb := cfg.batchSize_pos
  have hfirst : sub64 (cfg.lastTxn v i + 1) cfg.batchSize = cfg.slot v i * cfg.batchSize := by
    rw [Config.lastTxn, Config.firstTxn, sub64_of_le (by omega)]
    omega
  have hloop := copyLoop_eq cfg (cfg.slot v i) r.table cfg.batchSize 0 (by omega) [] rfl
  simp only [List.map_nil, List.nil_append, Nat.add_zero] at hloop
  simp only [sendAskResponse, hfirst, hloop, Config.slotTxns, Config.firstTxn]
  cases (List.range' (cfg.slot v i * cfg.batchSize) cfg.batchSize).mapM fun id => (r.table id).query.cut cfg with
  | none => rfl
  | some qrys => rw [Option.map_some, Option.bind_some, mapM_some_id, Option.map_some]

end Rebuild

section Effects

variable {cfg : Config} {crypto : Crypto} {r s : Replica}

def Retains (r s : Replica) : Prop := ∀ k, (r.table k).Retains (s.table k)

lemma Retains.trans {u : Replica} (h : Retains r s) (h' : Retains s u) : Retains r u := fun k => (h k).trans (h' k)

lemma retains_of_table (h : s.table = r.table) : Retains r s := fun k => by
  rw [h]
  exact .refl _

lemma retains_update {id : ℕ} {t : TxnManager} (h : s.table = Function.update r.table id t)
    (ht : (r.table id).Retains t) : Retains r s := by
  intro k
  rw [h]
  by_cases hk : k = id
  · subst hk
    rwa [Function.update_self]
  · rw [Function.update_of_ne hk]
    exact .refl _

lemma retains_advanceView {id : ℕ} (h : r.advanceView cfg id = some s) : Retains r s :=
  retains_update (advanceView_table h) ⟨rfl, rfl, fun _ => ⟨rfl, rfl, rfl⟩⟩

lemma retains_vote (r : Replica) (id : ℕ) : Retains r (r.sendHotstuffNewview cfg crypto id) := by
  rcases sendHotstuffNewview_cases cfg crypto r id with ⟨_, heq⟩ | ⟨_, hc⟩
  · rw [heq]
    exact retains_of_table rfl
  · obtain ⟨_, _, _, heq⟩ := @castVote_eq cfg
      { r.table id with genericQC := r.ownShare cfg crypto id, syncSent := true } r.nodeId
    apply retains_update hc.table
    rw [heq]
    exact ⟨rfl, rfl, fun _ => ⟨rfl, rfl, rfl⟩⟩

lemma retains_voteGeneric (r : Replica) (m : GenericMsg) : Retains r (r.voteGeneric cfg crypto m) := by
  refine (retains_update storeGeneric_lockGeneric_table ?_).trans (retains_vote _ _)
  simp only [acceptGeneric]
  split_ifs with hempty
  · exact ⟨rfl, rfl, fun hne => absurd hempty hne⟩
  · exact ⟨rfl, rfl, fun _ => ⟨rfl, rfl, rfl⟩⟩

lemma retains_countVote (r : Replica) (m : SyncMsg) : Retains r (r.countVote cfg m) := by
  obtain ⟨_, _, _, _, _, heq⟩ := @hotstuffNewViewed_eq cfg (r.table m.txnId) r.nodeId m
  apply retains_update (countVote_table r m)
  rw [heq]
  exact ⟨rfl, rfl, fun _ => ⟨rfl, rfl, rfl⟩⟩

lemma retains_handleGeneric {m : GenericMsg} (hs : r.handleGeneric cfg crypto m = some s) : Retains r s := by
  simp only [handleGeneric] at hs
  split_ifs at hs
  · obtain rfl := Option.some.inj hs
    exact retains_of_table rfl
  · obtain rfl := Option.some.inj hs
    exact retains_of_table rfl
  · rcases processHotstuffGeneric_cases hs with rfl | ⟨_, ⟨_, ha⟩ | ⟨_, rfl⟩⟩
    · exact retains_of_table rfl
    · exact (retains_voteGeneric r m).trans (retains_advanceView ha)
    · exact retains_voteGeneric r m

lemma retains_handleGenericP {id : ℕ} (hs : r.handleGenericP cfg crypto id = some s) : Retains r s := by
  simp only [handleGenericP] at hs
  split_ifs at hs
  · obtain rfl := Option.some.inj hs
    exact retains_of_table rfl
  · obtain ⟨_, rfl⟩ := processHotstuffGenericP_cases hs
    refine .trans ?_ (retains_vote _ _)
    exact retains_update rfl ⟨rfl, rfl, fun _ => ⟨rfl, rfl, rfl⟩⟩

lemma retains_genericStep {i : ℕ} {busy : Bool} (hs : r.genericStep cfg crypto i busy = some s) : Retains r s := by
  simp only [genericStep] at hs
  split at hs
  case h_6 =>
    split_ifs at hs
    · obtain rfl := Option.some.inj hs
      exact retains_of_table rfl
    · obtain ⟨t, ht, rfl⟩ := Option.map_eq_some_iff.mp hs
      exact (retains_handleGenericP ht).trans (retains_of_table rfl)
  all_goals
    try split_ifs at hs
    obtain rfl := Option.some.inj hs
    exact retains_of_table rfl

inductive Fills (cfg : Config) (crypto : Crypto) (r : Replica) (e : Event) (s : Replica) : Prop
  | retains (h : Retains r s)
  | proposal {m : ProposalMsg} {table : ℕ → TxnManager} (he : e = .deliver (.proposal m))
      (hindex : r.exec.nextIndex < m.txnId) (hacc : AcceptsProposal cfg crypto r m table)
      (h : Retains (r.storeProposal m table) s)
  | batch {i j slot : ℕ} {batch : ClientQueryBatch} {table : ℕ → TxnManager} (he : e = .proposalThread i j)
      (hpc : r.threads.proposal = .stamped slot batch)
      (hfill : fillManagers cfg r.table batch.returnNode (r.proposalOf cfg crypto slot batch).view
        (r.proposalOf cfg crypto slot batch).instanceId
        ((r.proposalOf cfg crypto slot batch).index.zip batch.cqrySet) = some table)
      (htable : s.table = (r.storeBatch cfg crypto slot batch table).table)
      (htrace : s.trace = (r.storeBatch cfg crypto slot batch table).trace)
  | recycle {id : ℕ} {t : TxnManager} (he : e = .recycle id t)
      (hindex : id + 16 * cfg.batchSize * cfg.nodeCnt + 5 < r.exec.nextIndex) (h : s = r.setTxn id t)

lemma handle_fills {m : Msg} (hs : r.handle cfg crypto m = some s) : Fills cfg crypto r (.deliver m) s := by
  cases m with
  | proposal m =>
    simp only [handle, handleProposal] at hs
    split_ifs at hs with hindex
    · obtain rfl := Option.some.inj hs
      exact .retains (retains_of_table rfl)
    · rcases processHotstuffProposal_cases hs with rfl | ⟨table, hacc, ⟨_, ha⟩ | ⟨_, rfl⟩⟩
      · exact .retains (retains_of_table rfl)
      · exact .proposal rfl (by omega) hacc (retains_advanceView ha)
      · exact .proposal rfl (by omega) hacc (retains_of_table rfl)
  | generic m => exact .retains (retains_handleGeneric hs)
  | sync m =>
    simp only [handle, handleSync] at hs
    split_ifs at hs
    · obtain rfl := Option.some.inj hs
      exact .retains (retains_of_table rfl)
    · rcases processHotstuffNewView_cases hs with rfl | ⟨_, ⟨_, ha⟩ | ⟨_, rfl⟩⟩
      · exact .retains (retains_of_table rfl)
      · exact .retains ((retains_countVote r m).trans (retains_advanceView ha))
      · exact .retains (retains_countVote r m)

lemma proposalStep_fills {i j : ℕ} (hs : r.proposalStep cfg crypto i j = some s) :
    Fills cfg crypto r (.proposalThread i j) s := by
  simp only [proposalStep] at hs
  split at hs
  case h_5 slot batch hpc =>
    obtain ⟨t, ht, rfl⟩ := Option.map_eq_some_iff.mp hs
    obtain ⟨_, table, htable, rfl⟩ := createAndSendHotstuffPrepare_cases ht
    exact .batch rfl hpc htable rfl rfl
  case h_3 =>
    split_ifs at hs
    split at hs
    · cases hs
    · obtain rfl := Option.some.inj hs
      exact .retains (retains_of_table rfl)
  all_goals
    try split_ifs at hs
    obtain rfl := Option.some.inj hs
    exact .retains (retains_of_table rfl)

lemma step_fills {e : Event} (hs : r.step cfg crypto e = some s) : Fills cfg crypto r e s := by
  cases e with
  | deliver m => exact handle_fills hs
  | replay i =>
    simp only [step, replay] at hs
    split at hs
    · cases hs
    · exact .retains fun k => retains_handleGeneric hs k
  | clientBatch i batch =>
    simp only [step, enqueueBatch] at hs
    split_ifs at hs
    obtain rfl := Option.some.inj hs
    exact .retains (retains_of_table rfl)
  | proposalThread i j => exact proposalStep_fills hs
  | genericThread i busy => exact .retains (retains_genericStep hs)
  | workerGenericP k =>
    simp only [step, workerGenericP] at hs
    split at hs
    · exact .retains fun k => retains_handleGenericP hs k
    · cases hs
  | execute k =>
    obtain ⟨e, _, rfl⟩ := Option.map_eq_some_iff.mp hs
    exact .retains (retains_of_table rfl)
  | recycle id t =>
    simp only [step, Replica.recycle] at hs
    split_ifs at hs with hindex
    obtain rfl := Option.some.inj hs
    exact .recycle rfl hindex rfl

end Effects

section Fill

variable {cfg : Config} {returnId view i : ℕ} {ids : List ℕ} {qrys : List ClientQuery}

lemma initTxnMan_query {t t' : TxnManager} {q : ClientQuery} (h : t.initTxnMan cfg q = some t')
    (ht : t.requests = []) : t'.query = q ∧ q.requests.length ≤ cfg.reqPerQuery := by
  simp only [TxnManager.initTxnMan, ht, List.nil_append] at h
  split_ifs at h with hfits
  obtain rfl := Option.some.inj h
  exact ⟨rfl, hfits⟩

lemma fillManagers_queries {table table' : ℕ → TxnManager}
    (h : fillManagers cfg table returnId view i (ids.zip qrys) = some table') (hnodup : ids.Nodup)
    (hlen : ids.length = qrys.length) (hvacant : ∀ k ∈ ids, (table k).requests = []) :
    (ids.map fun k => (table' k).query) = qrys ∧ ∀ q ∈ qrys, q.requests.length ≤ cfg.reqPerQuery := by
  induction ids generalizing qrys table with
  | nil =>
    obtain rfl := List.length_eq_zero_iff.mp hlen.symm
    exact ⟨rfl, fun q hq => absurd hq List.not_mem_nil⟩
  | cons id ids ih =>
    obtain ⟨q, qrys, rfl⟩ := List.exists_cons_of_length_eq_add_one hlen.symm
    rw [List.nodup_cons] at hnodup
    rw [List.forall_mem_cons] at hvacant
    simp only [List.zip_cons_cons, fillManagers] at h
    split at h
    · rename_i t ht
      obtain ⟨hquery, hfits⟩ := initTxnMan_query ht hvacant.1
      have hid : table' id = t := by
        rw [fillManagers_of_notMem h, Function.update_self]
        intro hmem
        obtain ⟨p, hp, rfl⟩ := List.mem_map.mp hmem
        exact hnodup.1 (List.of_mem_zip hp).1
      obtain ⟨hrest, hfits'⟩ := ih h hnodup.2 (by simpa using hlen) fun k hk => by
        rw [Function.update_of_ne (ne_of_mem_of_not_mem hk hnodup.1)]
        exact hvacant.2 k hk
      rw [List.map_cons, hid, hquery, hrest, List.forall_mem_cons]
      exact ⟨rfl, hfits, hfits'⟩
    · cases h

variable (returnId view i) in
lemma exists_fillManagers (table : ℕ → TxnManager) (hnodup : ids.Nodup)
    (hvacant : ∀ k ∈ ids, (table k).requests = []) (hfits : ∀ q ∈ qrys, q.requests.length ≤ cfg.reqPerQuery) :
    ∃ table', fillManagers cfg table returnId view i (ids.zip qrys) = some table' := by
  induction ids generalizing qrys table with
  | nil => exact ⟨table, rfl⟩
  | cons id ids ih =>
    cases qrys with
    | nil => exact ⟨table, rfl⟩
    | cons q qrys =>
      rw [List.nodup_cons] at hnodup
      rw [List.forall_mem_cons] at hvacant hfits
      obtain ⟨t, ht⟩ : ∃ t, ({ table id with returnId := returnId, view := view, instanceId := i } :
          TxnManager).initTxnMan cfg q = some t := by
        simp only [TxnManager.initTxnMan, hvacant.1, List.nil_append, if_pos hfits.1]
        exact ⟨_, rfl⟩
      simp only [List.zip_cons_cons, fillManagers, ht]
      refine ih _ hnodup.2 (fun k hk => ?_) hfits.2
      rw [Function.update_of_ne (ne_of_mem_of_not_mem hk hnodup.1)]
      exact hvacant.2 k hk

end Fill

section Slots

variable {cfg : Config} {crypto : Crypto} {r s : Replica} {w i v j : ℕ} {hash : Bytes} {qrys : List ClientQuery}

def Vacant (cfg : Config) (w i : ℕ) (r : Replica) : Prop := ∀ k ∈ cfg.slotTxns w i, (r.table k).requests = []

lemma query_update {table : ℕ → TxnManager} {id : ℕ} {t : TxnManager} (ht : t.query = (table id).query) (k : ℕ) :
    (Function.update table id t k).query = (table k).query := by
  by_cases hk : k = id
  · subst hk
    rw [Function.update_self, ht]
  · rw [Function.update_of_ne hk]

def Stores (cfg : Config) (v j : ℕ) (hash : Bytes) (qrys : List ClientQuery) (r s : Replica) : Prop :=
  ∃ returnId table, fillManagers cfg r.table returnId v j ((cfg.slotTxns v j).zip qrys) = some table ∧
    ∀ k, (Function.update table (cfg.lastTxn v j)
      { table (cfg.lastTxn v j) with hash := hash, proposalReceived := true } k).Retains (s.table k)

lemma Retains.requests (h : Retains r s) (k : ℕ) : (s.table k).requests = (r.table k).requests :=
  congrArg ClientQuery.requests (h k).query

lemma Retains.vacant (h : Retains r s) (hv : r.Vacant cfg w i) : s.Vacant cfg w i := fun k hk =>
  (h.requests k).trans (hv k hk)

lemma nodup_slotTxns : (cfg.slotTxns w i).Nodup := List.nodup_range'

lemma lastTxn_mem : cfg.lastTxn w i ∈ cfg.slotTxns w i := by
  rw [Config.mem_slotTxns, Config.lastTxn_div]

lemma Stores.elsewhere (h : Stores cfg v j hash qrys r s) {k : ℕ} (hk : k ∉ cfg.slotTxns v j) :
    (r.table k).Retains (s.table k) := by
  obtain ⟨_, table, hfill, hs⟩ := h
  have hk' := hs k
  rw [Function.update_of_ne (ne_of_mem_of_not_mem lastTxn_mem hk).symm, fillManagers_of_notMem hfill] at hk'
  · exact hk'
  · intro hmem
    obtain ⟨p, hp, rfl⟩ := List.mem_map.mp hmem
    exact hk (List.of_mem_zip hp).1

lemma Stores.apart (h : Stores cfg v j hash qrys r s) (hi : i < cfg.totInstances) (hj : j < cfg.totInstances)
    (hne : (w, i) ≠ (v, j)) {k : ℕ} (hk : k ∈ cfg.slotTxns w i) : (r.table k).Retains (s.table k) :=
  h.elsewhere (slotTxns_disjoint cfg hi hj hne hk)

lemma Stores.last (h : Stores cfg v j hash qrys r s) (hlen : qrys.length = cfg.batchSize) (hhash : hash ≠ []) :
    (s.table (cfg.lastTxn v j)).proposalReceived = true ∧ (s.table (cfg.lastTxn v j)).hash = hash ∧
      (s.table (cfg.lastTxn v j)).instanceId = j ∧ (s.table (cfg.lastTxn v j)).view = v := by
  obtain ⟨_, table, hfill, hs⟩ := h
  have hmem : cfg.lastTxn v j ∈ ((cfg.slotTxns v j).zip qrys).map Prod.fst := by
    rw [cfg.zip_keys hlen]
    exact lastTxn_mem
  obtain ⟨_, _, _, hfilled⟩ := fillManagers_of_mem hfill hmem
  have hk := hs (cfg.lastTxn v j)
  rw [Function.update_self] at hk
  obtain ⟨heq, hinst, hview⟩ := hk.hashed hhash
  refine ⟨hk.received, heq, hinst.trans ?_, hview.trans ?_⟩ <;> rw [hfilled]

lemma Stores.queries (h : Stores cfg v j hash qrys r s) (hlen : qrys.length = cfg.batchSize)
    (hv : r.Vacant cfg v j) :
    ((cfg.slotTxns v j).map fun k => (s.table k).query) = qrys ∧ ∀ q ∈ qrys, q.requests.length ≤ cfg.reqPerQuery := by
  obtain ⟨_, table, hfill, hs⟩ := h
  obtain ⟨hqueries, hfits⟩ := fillManagers_queries hfill nodup_slotTxns (by simp [Config.slotTxns, hlen]) hv
  refine ⟨?_, hfits⟩
  refine .trans (List.map_congr_left fun k _ => ?_) hqueries
  exact (hs k).query.trans (query_update (by rfl) k)

end Slots

section Runs

variable {cfg : Config} {crypto : Crypto} {r s : Replica} {e : Event} {m : ProposalMsg} {w i p : ℕ}

-- Proposals list the transactions of one slot and come from its primary, as `create_and_send_hotstuff_prepare` makes
-- them; all other messages are arbitrary.
def Regular (cfg : Config) (r : Replica) (e : Event) : Prop :=
  Genuine cfg r e ∧ ∀ m, e = .deliver (.proposal m) → m.Named cfg

-- The steps with which a replica gets a batch: it takes the proposal, or makes it.
inductive Accepts (cfg : Config) (crypto : Crypto) (r s : Replica) : Event → ProposalMsg → Prop
  | received {m : ProposalMsg} (hfresh : (r.table (m.txnId + 2)).proposalReceived = false)
      (hset : (s.table (m.txnId + 2)).proposalReceived = true) : Accepts cfg crypto r s (.deliver (.proposal m)) m
  | proposed {i j slot : ℕ} {batch : ClientQueryBatch} (hpc : r.threads.proposal = .stamped slot batch) :
      Accepts cfg crypto r s (.proposalThread i j) (r.proposalOf cfg crypto slot batch)

structure Slotted (cfg : Config) (crypto : Crypto) (m : ProposalMsg) : Prop where
  inst : m.instanceId < cfg.totInstances
  txnId : m.txnId + 2 = cfg.lastTxn m.view m.instanceId
  index : m.index = cfg.slotTxns m.view m.instanceId
  length : m.requestMsg.length = cfg.batchSize
  digest : m.hash = crypto.calculateHash (batchString m.requestMsg)

lemma Slotted.hash_ne_nil (h : Slotted cfg crypto m) : m.hash ≠ [] := by
  rw [h.digest]
  exact crypto.hash_ne_nil _

def Proposed (r : Replica) (w i : ℕ) : Prop := ∃ e ∈ r.proposals, e.instanceId = i ∧ e.view = w

structure Takes (cfg : Config) (crypto : Crypto) (r : Replica) (e : Event) (s : Replica) (m : ProposalMsg) : Prop where
  slotted : Slotted cfg crypto m
  stores : Stores cfg m.view m.instanceId m.hash m.requestMsg r s
  origin : e = .deliver (.proposal m) ∧ cfg.getViewPrimary m.view m.instanceId ≠ r.nodeId ∧
      r.exec.nextIndex < m.txnId ∧ (r.table (cfg.lastTxn m.view m.instanceId)).proposalReceived = false ∨
    cfg.getViewPrimary m.view m.instanceId = r.nodeId ∧ ¬ r.Proposed m.view m.instanceId ∧
      ∃ batch, ⟨m.instanceId, m.view, batch⟩ ∈ s.proposals ∧ batch.cqrySet = m.requestMsg

lemma takes_of_received {table : ℕ → TxnManager} (he : Regular cfg r (.deliver (.proposal m)))
    (hindex : r.exec.nextIndex < m.txnId) (hacc : AcceptsProposal cfg crypto r m table)
    (h : Retains (r.storeProposal m table) s) : Takes cfg crypto r (.deliver (.proposal m)) s m := by
  obtain ⟨⟨⟨hi, _, hlen⟩, hforeign, _⟩, hnamed⟩ := he
  have hm := hnamed m rfl
  have hfill := hacc.filled
  rw [hm.index] at hfill
  refine ⟨⟨hi, hm.txnId, hm.index, hlen, hacc.digest⟩, ⟨_, table, hfill, fun k => ?_⟩, .inl ⟨rfl, ?_, hindex, ?_⟩⟩
  · have hk := h k
    simp only [storeProposal, rememberTxnid, setInst_table, hm.index, cfg.slotTxns_getLastD] at hk
    exact hk
  · rw [← hm.sender]
    exact hforeign
  · rw [← hm.txnId]
    exact hacc.fresh

lemma takes_of_proposed {slot : ℕ} {batch : ClientQueryBatch} {table : ℕ → TxnManager} (halloc : Alloc cfg r)
    (hfed : Fed cfg r) (hpc : r.threads.proposal = .stamped slot batch)
    (hfill : fillManagers cfg r.table batch.returnNode (r.proposalOf cfg crypto slot batch).view
      (r.proposalOf cfg crypto slot batch).instanceId
      ((r.proposalOf cfg crypto slot batch).index.zip batch.cqrySet) = some table)
    (htable : s.table = (r.storeBatch cfg crypto slot batch table).table)
    (htrace : s.trace = (r.storeBatch cfg crypto slot batch table).trace) :
    Takes cfg crypto r e s (r.proposalOf cfg crypto slot batch) := by
  obtain ⟨hi, _, hprim, _, hpast⟩ := alloc_stamped cfg crypto halloc hpc
  obtain ⟨_, hindex, hlast⟩ := proposalOf_last crypto halloc hpc
  have hb := cfg.five_le_batch
  have hlen : batch.cqrySet.length = cfg.batchSize := hfed.inHand batch (by simp [hpc, ProposalPc.inHand])
  have htxn : (r.proposalOf cfg crypto slot batch).txnId + 2 = slot * cfg.batchSize + cfg.batchSize - 1 := by
    simp only [proposalOf]
    rw [sub64_of_le (by omega)]
    omega
  rw [hindex] at hfill
  refine ⟨⟨hi, htxn.trans hlast, hindex, hlen, rfl⟩, ⟨_, table, hfill, fun k => ?_⟩, .inr ⟨hprim, ?_, ?_⟩⟩
  · rw [htable, ← hlast]
    exact .refl _
  · rintro ⟨e, he, hinst, hview⟩
    exact absurd hview (hpast e he hinst).ne
  · refine ⟨batch, ?_, rfl⟩
    simp [proposals, htrace, storeBatch, Obs.proposal?]

-- The queries a replica's managers stand for: none in a slot whose batch it has not got.
structure Orderly (cfg : Config) (r : Replica) : Prop where
  alloc : Alloc cfg r
  wired : Wired cfg r
  fed : Fed cfg r
  waiting : ∀ w i, i < cfg.totInstances → r.exec.nextIndex ≤ cfg.lastTxn w i →
    (r.table (cfg.lastTxn w i)).proposalReceived = false → r.Vacant cfg w i
  own : ∀ w i, i < cfg.totInstances → cfg.getViewPrimary w i = r.nodeId → ¬ r.Proposed w i → r.Vacant cfg w i

lemma Regular.moves (he : Regular cfg r e) (hs : r.step cfg crypto e = some s) :
    Moves cfg crypto (fun _ => True) (fun _ => True) (fun _ _ => True) r r s :=
  step_moves (Genuine.supplies he.1) (fun _ _ _ => trivial) (fun _ _ => trivial) hs

lemma Regular.nextIndex_le (he : Regular cfg r e) (hs : r.step cfg crypto e = some s) :
    r.exec.nextIndex ≤ s.exec.nextIndex :=
  (he.moves hs).nextIndex_le

lemma Regular.proposals_subset (he : Regular cfg r e) (hs : r.step cfg crypto e = some s) :
    r.proposals ⊆ s.proposals := by
  obtain ⟨l, hl⟩ := step_trace he.1 hs
  rw [proposals, proposals, hl, List.filterMap_append]
  exact List.subset_append_left _ _

lemma Regular.proposed (he : Regular cfg r e) (hs : r.step cfg crypto e = some s) :
    r.Proposed w i → s.Proposed w i :=
  fun ⟨o, ho, hslot⟩ => ⟨o, he.proposals_subset hs ho, hslot⟩

lemma Orderly.cases (h : Orderly cfg r) (he : Regular cfg r e) (hs : r.step cfg crypto e = some s) :
    Retains r s ∨ (∃ m, Takes cfg crypto r e s m) ∨
      ∃ id t, e = .recycle id t ∧ s = r.setTxn id t ∧ t.requests = [] ∧ id + 16 * cfg.batchSize * cfg.nodeCnt + 5 <
        r.exec.nextIndex := by
  cases step_fills hs with
  | retains h => exact .inl h
  | @proposal m _ heq hindex hacc h =>
    subst heq
    exact .inr (.inl ⟨m, takes_of_received he hindex hacc h⟩)
  | batch _ hpc hfill htable htrace =>
    exact .inr (.inl ⟨_, takes_of_proposed h.alloc h.fed hpc hfill htable htrace⟩)
  | @recycle id t heq hindex h =>
    subst heq
    exact .inr (.inr ⟨id, t, rfl, h, he.1.1.requests, hindex⟩)

lemma setTxn_vacant {id : ℕ} {t : TxnManager} (ht : t.requests = []) (hv : r.Vacant cfg w i) :
    (r.setTxn id t).Vacant cfg w i := by
  intro k hk
  rw [setTxn_table]
  by_cases hid : k = id
  · subst hid
    rw [Function.update_self, ht]
  · rw [Function.update_of_ne hid, hv k hk]

lemma Takes.vacant (h : Takes cfg crypto r e s m) (hi : i < cfg.totInstances) (hne : (w, i) ≠ (m.view, m.instanceId))
    (hv : r.Vacant cfg w i) : s.Vacant cfg w i := fun k hk =>
  (congrArg ClientQuery.requests (h.stores.apart hi h.slotted.inst hne hk).query).trans (hv k hk)

lemma Orderly.waiting_step (h : Orderly cfg r) (he : Regular cfg r e) (hs : r.step cfg crypto e = some s)
    (hi : i < cfg.totInstances) (hindex : s.exec.nextIndex ≤ cfg.lastTxn w i)
    (hfresh : (s.table (cfg.lastTxn w i)).proposalReceived = false) : s.Vacant cfg w i := by
  have hopen := (he.nextIndex_le hs).trans hindex
  rcases h.cases he hs with hret | ⟨m, hm⟩ | ⟨id, t, _, rfl, ht, hlt⟩
  · refine hret.vacant (h.waiting w i hi hopen ?_)
    rw [← (hret _).received]
    exact hfresh
  · have hne : (w, i) ≠ (m.view, m.instanceId) := by
      intro heq
      obtain ⟨rfl, rfl⟩ := Prod.mk.inj heq
      rw [(hm.stores.last hm.slotted.length hm.slotted.hash_ne_nil).1] at hfresh
      cases hfresh
    refine hm.vacant hi hne (h.waiting w i hi hopen ?_)
    rw [← (hm.stores.apart hi hm.slotted.inst hne lastTxn_mem).received]
    exact hfresh
  · have hid : cfg.lastTxn w i ≠ id := by
      rintro rfl
      omega
    rw [setTxn_table, Function.update_of_ne hid] at hfresh
    exact setTxn_vacant ht (h.waiting w i hi hopen hfresh)

lemma Orderly.own_step (h : Orderly cfg r) (he : Regular cfg r e) (hs : r.step cfg crypto e = some s)
    (hi : i < cfg.totInstances) (hprim : cfg.getViewPrimary w i = r.nodeId) (hnot : ¬ s.Proposed w i) :
    s.Vacant cfg w i := by
  have hold := h.own w i hi hprim fun hp => hnot (he.proposed hs hp)
  rcases h.cases he hs with hret | ⟨m, hm⟩ | ⟨id, t, _, rfl, ht, _⟩
  · exact hret.vacant hold
  · refine hm.vacant hi (fun heq => ?_) hold
    obtain ⟨rfl, rfl⟩ := Prod.mk.inj heq
    rcases hm.origin with ⟨_, hforeign, _⟩ | ⟨_, _, batch, hnow, _⟩
    · exact hforeign hprim
    · exact hnot ⟨_, hnow, rfl, rfl⟩
  · exact setTxn_vacant ht hold

lemma Orderly.step (h : Orderly cfg r) (he : Regular cfg r e) (hs : r.step cfg crypto e = some s) : Orderly cfg s where
  alloc := alloc_step cfg crypto h.alloc hs
  wired := (wired_fed_step h.wired h.fed he.1 hs).1
  fed := (wired_fed_step h.wired h.fed he.1 hs).2
  waiting _ _ hi hindex hfresh := h.waiting_step he hs hi hindex hfresh
  own _ _ hi hprim hnot := h.own_step he hs hi (hprim.trans (step_nodeId cfg crypto hs)) hnot

lemma orderly_init (hp : p < cfg.nodeCnt) : Orderly cfg (init cfg p) where
  alloc := alloc_init cfg hp
  wired := wired_init hp
  fed := ⟨fun i b hb => by simp [init, Sending.init] at hb, fun b hb => by simp [init, ProposalPc.inHand] at hb⟩
  waiting _ _ _ _ _ _ _ := rfl
  own _ _ _ _ _ _ _ := rfl

lemma orderly_reach (hp : p < cfg.nodeCnt) (h : Reach (step cfg crypto) (Regular cfg) (init cfg p) r) : Orderly cfg r := by
  apply h.invariant (Orderly cfg) (orderly_init hp)
  intro s e t _ he hs hi
  exact hi.step he hs

-- As long as none of its managers is released, a batch stays as it was accepted.
def Holding (cfg : Config) (m : ProposalMsg) (r : Replica) (e : Event) : Prop :=
  Regular cfg r e ∧ ∀ id t, e = .recycle id t → id ∉ m.index

structure Holds (cfg : Config) (m : ProposalMsg) (r : Replica) : Prop where
  received : (r.table (cfg.lastTxn m.view m.instanceId)).proposalReceived = true
  hash : (r.table (cfg.lastTxn m.view m.instanceId)).hash = m.hash
  inst : (r.table (cfg.lastTxn m.view m.instanceId)).instanceId = m.instanceId
  queries : (m.index.map fun k => (r.table k).query) = m.requestMsg
  own : cfg.getViewPrimary m.view m.instanceId = r.nodeId → r.Proposed m.view m.instanceId

lemma Holds.of_retains (h : Holds cfg m r) (hm : Slotted cfg crypto m) (hnode : s.nodeId = r.nodeId)
    (hproposed : r.Proposed m.view m.instanceId → s.Proposed m.view m.instanceId)
    (hret : ∀ k ∈ m.index, (r.table k).Retains (s.table k)) : Holds cfg m s := by
  have hlast := hret (cfg.lastTxn m.view m.instanceId) (hm.index ▸ lastTxn_mem)
  obtain ⟨hhash, hinst, _⟩ := hlast.hashed (h.hash ▸ hm.hash_ne_nil)
  refine ⟨hlast.received.trans h.received, hhash.trans h.hash, hinst.trans h.inst, ?_, ?_⟩
  · rw [← h.queries]
    exact List.map_congr_left fun k hk => (hret k hk).query
  · rw [hnode]
    exact fun hprim => hproposed (h.own hprim)

lemma Holds.step (h : Holds cfg m r) (hm : Slotted cfg crypto m) (horderly : Orderly cfg r) (he : Holding cfg m r e)
    (hs : r.step cfg crypto e = some s) : Holds cfg m s := by
  refine h.of_retains hm (step_nodeId cfg crypto hs) (he.1.proposed hs) fun k hk => ?_
  rcases horderly.cases he.1 hs with hret | ⟨m', hm'⟩ | ⟨id, t, heq, rfl, _, _⟩
  · exact hret k
  · rw [hm.index] at hk
    refine hm'.stores.apart hm.inst hm'.slotted.inst (fun heq => ?_) hk
    obtain ⟨hview, hinst⟩ := Prod.mk.inj heq
    have horigin := hm'.origin
    rw [← hview, ← hinst] at horigin
    rcases horigin with ⟨_, _, _, hfresh⟩ | ⟨hprim, hnot, _⟩
    · rw [h.received] at hfresh
      cases hfresh
    · exact hnot (h.own hprim)
  · have hid : k ≠ id := ne_of_mem_of_not_mem hk (he.2 id t heq)
    rw [setTxn_table, Function.update_of_ne hid]
    exact .refl _

lemma Takes.holds (h : Takes cfg crypto r e s m) (horderly : Orderly cfg r) (hnode : s.nodeId = r.nodeId) :
    Holds cfg m s ∧ ∀ q ∈ m.requestMsg, q.requests.length ≤ cfg.reqPerQuery := by
  have hvacant : r.Vacant cfg m.view m.instanceId := by
    rcases h.origin with ⟨_, _, hindex, hfresh⟩ | ⟨hprim, hnot, _⟩
    · refine horderly.waiting _ _ h.slotted.inst ?_ hfresh
      have := h.slotted.txnId
      omega
    · exact horderly.own _ _ h.slotted.inst hprim hnot
  obtain ⟨hqueries, hfits⟩ := h.stores.queries h.slotted.length hvacant
  obtain ⟨hreceived, hhash, hinst, _⟩ := h.stores.last h.slotted.length h.slotted.hash_ne_nil
  refine ⟨⟨hreceived, hhash, hinst, ?_, ?_⟩, hfits⟩
  · rw [h.slotted.index]
    exact hqueries
  · rw [hnode]
    intro hprim
    rcases h.origin with ⟨_, hforeign, _⟩ | ⟨_, _, batch, hnow, _⟩
    · exact absurd hprim hforeign
    · exact ⟨_, hnow, rfl, rfl⟩

lemma Accepts.takes (h : Accepts cfg crypto r s e m) (horderly : Orderly cfg r) (he : Regular cfg r e)
    (hs : r.step cfg crypto e = some s) : Takes cfg crypto r e s m := by
  cases h with
  | received hfresh hset =>
    cases step_fills hs with
    | retains h =>
      rw [(h _).received, hfresh] at hset
      cases hset
    | proposal heq hindex hacc h =>
      cases heq
      exact takes_of_received he hindex hacc h
    | batch heq => cases heq
    | recycle heq => cases heq
  | proposed hpc =>
    obtain ⟨t, ht, rfl⟩ : ∃ t, r.createAndSendHotstuffPrepare cfg crypto _ _ = some t ∧ _ := by
      simp only [step, proposalStep, hpc] at hs
      exact Option.map_eq_some_iff.mp hs
    obtain ⟨_, table, hfill, rfl⟩ := createAndSendHotstuffPrepare_cases ht
    exact takes_of_proposed horderly.alloc horderly.fed hpc hfill rfl rfl

end Runs

section Recovery

variable {cfg : Config} {crypto : Crypto} {r s : Replica} {m m' : ProposalMsg} {p : ℕ}

lemma processSpotlessAskResponse_queries (hs : r.processSpotlessAskResponse cfg crypto m = some s)
    (hfresh : (r.table (m.txnId + 2)).proposalReceived = false) :
    ∃ table, fillManagers cfg r.table m.returnNodeId m.view m.instanceId (m.index.zip m.requestMsg) = some table ∧
      ∀ k, (s.table k).query = (table k).query := by
  rw [processSpotlessAskResponse, if_neg (by simp [hfresh])] at hs
  split_ifs at hs
  split at hs
  · cases hs
  · rename_i table hfill
    refine ⟨table, hfill, fun k => ?_⟩
    dsimp only at hs
    split_ifs at hs
    · rw [(retains_advanceView hs k).query, updateLockQC_table]
      exact query_update (by rfl) k
    · rw [(retains_advanceView hs k).query]
      exact query_update (by rfl) k
    · obtain rfl := Option.some.inj hs
      exact query_update (by rfl) k

-- The response `m'` to a replica that asks for the proposal `m`.
structure Reproduces (cfg : Config) (crypto : Crypto) (m m' : ProposalMsg) : Prop where
  txnId : m'.txnId = m.txnId
  hash : m'.hash = m.hash
  index : m'.index = m.index
  requestMsg : m'.requestMsg = m.requestMsg
  valid : m'.validate crypto = true
  filled : ∀ p < cfg.nodeCnt, ∀ r, Reach (step cfg crypto) (Regular cfg) (init cfg p) r →
    r.exec.nextIndex < m'.txnId → (r.table (m'.txnId + 2)).proposalReceived = false →
      ∃ table, fillManagers cfg r.table m'.returnNodeId m'.view m'.instanceId (m'.index.zip m'.requestMsg) = some table ∧
        (m.index.map fun k => (table k).query) = m.requestMsg
  installs : ∀ p < cfg.nodeCnt, ∀ r s, Reach (step cfg crypto) (Regular cfg) (init cfg p) r →
    r.exec.nextIndex < m'.txnId → (r.table (m'.txnId + 2)).proposalReceived = false →
      r.processSpotlessAskResponse cfg crypto m' = some s → (m.index.map fun k => (s.table k).query) = m.requestMsg

lemma Slotted.filled (hm : Slotted cfg crypto m) (hfits : ∀ q ∈ m.requestMsg, q.requests.length ≤ cfg.reqPerQuery)
    (hr : Orderly cfg r) (hindex : r.exec.nextIndex < m.txnId) (hfresh : (r.table (m.txnId + 2)).proposalReceived = false)
    (returnId view i : ℕ) :
    ∃ table, fillManagers cfg r.table returnId view i (m.index.zip m.requestMsg) = some table ∧
      (m.index.map fun k => (table k).query) = m.requestMsg := by
  have hlast := hm.txnId
  rw [hlast] at hfresh
  have hvacant := hr.waiting _ _ hm.inst (by omega) hfresh
  rw [hm.index]
  obtain ⟨table, hfill⟩ := exists_fillManagers returnId view i r.table nodup_slotTxns hvacant hfits
  have hlen : (cfg.slotTxns m.view m.instanceId).length = m.requestMsg.length := by simp [Config.slotTxns, hm.length]
  exact ⟨table, hfill, (fillManagers_queries hfill nodup_slotTxns hlen hvacant).1⟩

lemma Holds.sendAskResponse_eq (h : Holds cfg m r) (hm : Slotted cfg crypto m) (view : ℕ) :
    r.sendAskResponse cfg (cfg.lastTxn m.view m.instanceId) view =
      (m.requestMsg.mapM (ClientQuery.cut cfg)).map fun qrys =>
        { m with returnNodeId := r.nodeId, view := view, requestMsg := qrys } := by
  have htxn : sub64 (cfg.lastTxn m.view m.instanceId) 2 = m.txnId := by
    have := hm.txnId
    rw [sub64_of_le (by omega)]
    omega
  have hcut : m.index.mapM (fun k => (r.table k).query.cut cfg) = m.requestMsg.mapM (ClientQuery.cut cfg) := by
    rw [← h.queries, List.mapM_map]
    rfl
  rw [Replica.sendAskResponse_eq, h.hash, h.inst, htxn, ← hm.index, hcut]

theorem ask_response_reproduces {p : ℕ} (hp : p < cfg.nodeCnt) {r s t : Replica} {e : Event} {m : ProposalMsg}
    (hr : Reach (step cfg crypto) (Regular cfg) (init cfg p) r) (he : Regular cfg r e)
    (hs : r.step cfg crypto e = some s) (hacc : Accepts cfg crypto r s e m)
    (ht : Reach (step cfg crypto) (Holding cfg m) s t) (view : ℕ) :
    (∃ m', t.sendAskResponse cfg (cfg.lastTxn m.view m.instanceId) view = some m' ∧ Reproduces cfg crypto m m') ↔
      ∀ q ∈ m.requestMsg, q.requests.length = 1 := by
  have horderly := orderly_reach hp hr
  have htakes := hacc.takes horderly he hs
  have hm := htakes.slotted
  obtain ⟨hholds, hfits⟩ := htakes.holds horderly (step_nodeId cfg crypto hs)
  have hkept : Orderly cfg t ∧ Holds cfg m t := by
    apply ht.invariant (fun t => Orderly cfg t ∧ Holds cfg m t) ⟨horderly.step he hs, hholds⟩
    rintro u e v - he hs ⟨horderly, hholds⟩
    exact ⟨horderly.step he.1 hs, hholds.step hm horderly he hs⟩
  rw [hkept.2.sendAskResponse_eq hm, ← mapM_cut_eq_some_iff hfits]
  constructor
  · rintro ⟨m', hm', hrep⟩
    obtain ⟨qrys, hcut, rfl⟩ := Option.map_eq_some_iff.mp hm'
    rw [hcut, ← hrep.requestMsg]
  · intro hcut
    rw [hcut]
    refine ⟨_, rfl, rfl, rfl, rfl, rfl, ?_, ?_, ?_⟩
    · simp [ProposalMsg.validate, hm.digest]
    · intro p hp r hr hindex hfresh
      exact hm.filled hfits (orderly_reach hp hr) hindex hfresh _ _ _
    · intro p hp r s hr hindex hfresh hs
      obtain ⟨table, hfill, hquery⟩ := processSpotlessAskResponse_queries hs hfresh
      obtain ⟨table', hfill', hqueries⟩ := hm.filled hfits (orderly_reach hp hr) hindex hfresh _ _ _
      obtain rfl := Option.some.inj (hfill.symm.trans hfill')
      rw [← hqueries]
      exact List.map_congr_left fun k _ => hquery k

theorem ask_response_reproduces_first_batch :
    let cfg := Config.fourReplicas
    let m := slotProposal cfg .transparent 0 0 (List.replicate 5 ⟨[⟨7, 1⟩], 3, 9⟩)
    ∃ s, (init cfg 1).step cfg .transparent (.deliver (.proposal m)) = some s ∧
      ∃ m', s.sendAskResponse cfg (cfg.lastTxn 0 0) 0 = some m' ∧ Reproduces cfg .transparent m m' := by
  intro cfg m
  obtain ⟨s, hs, hset⟩ := (Option.any_eq_true (fun s => (s.table 4).proposalReceived)
    ((init cfg 1).step cfg .transparent (.deliver (.proposal m)))).mp (by decide +kernel)
  have he : Regular cfg (init cfg 1) (.deliver (.proposal m)) := by
    refine ⟨by decide, fun m' heq => ?_⟩
    cases heq
    exact ⟨rfl, rfl, rfl⟩
  exact ⟨s, hs, (ask_response_reproduces (by decide) .start he hs (.received rfl hset) .start 0).mpr (by decide)⟩

-- The response carries the first request of every query, and its hash is that of the whole batch.
theorem second_request_lost :
    let cfg : Config := { Config.fourReplicas with reqPerQuery := 2 }
    let m := slotProposal cfg .transparent 0 0 (List.replicate 5 ⟨[⟨7, 1⟩, ⟨8, 2⟩], 3, 9⟩)
    ∃ s m', Regular cfg (init cfg 1) (.deliver (.proposal m)) ∧
      (init cfg 1).step cfg .transparent (.deliver (.proposal m)) = some s ∧
      Accepts cfg .transparent (init cfg 1) s (.deliver (.proposal m)) m ∧
      s.sendAskResponse cfg (cfg.lastTxn 0 0) 0 = some m' ∧ m'.hash = m.hash ∧ m'.index = m.index ∧
      m'.requestMsg = List.replicate 5 ⟨[⟨7, 1⟩], 3, 9⟩ ∧ m'.validate .transparent = false := by
  intro cfg m
  have he : Regular cfg (init cfg 1) (.deliver (.proposal m)) := by
    refine ⟨by decide, fun m' heq => ?_⟩
    cases heq
    exact ⟨rfl, rfl, rfl⟩
  obtain ⟨s, hs, hany⟩ := (Option.any_eq_true (fun s => (s.table 4).proposalReceived &&
    (s.sendAskResponse cfg (cfg.lastTxn 0 0) 0).any fun m' => decide (m'.hash = m.hash ∧ m'.index = m.index ∧
      m'.requestMsg = List.replicate 5 ⟨[⟨7, 1⟩], 3, 9⟩ ∧ m'.validate .transparent = false))
    ((init cfg 1).step cfg .transparent (.deliver (.proposal m)))).mp (by decide +kernel)
  rw [Bool.and_eq_true, Option.any_eq_true] at hany
  obtain ⟨hset, m', hm', hlost⟩ := hany
  exact ⟨s, m', he, hs, .received rfl hset, hm', of_decide_eq_true hlost⟩

end Recovery

end Replica

end SpotLess
