import SpotLess.AskResponse
import SpotLess.Following

/-! Whose batch a slot holds: a manager names the client whose batch its primary has filled the slot with, and the
responses to the batch name the slot. -/

namespace SpotLess

open Lib

-- The response to a batch goes to the client of its last query.
def ClientQueryBatch.client (batch : ClientQueryBatch) : ℕ := (batch.cqrySet.map ClientQuery.returnNode).getLastD 0

namespace Replica

variable {cfg : Config} {crypto : Crypto} {r s : Replica} {e : Event}

section Slots

variable {P : Msg → Prop} {Q : ℕ → Prop} {B : ℕ → ClientQueryBatch → Prop} {r₀ : Replica}

def SentProposed (r : Replica) : Prop := ∀ d m, (d, .proposal m) ∈ r.out →
  ∃ batch, ⟨m.instanceId, m.view, batch⟩ ∈ r.proposals ∧ batch.cqrySet = m.requestMsg

lemma Move.sent_proposal (h : Move cfg crypto P Q B r₀ r s) {d : ℕ} {m : ProposalMsg} (hm : (d, .proposal m) ∈ s.out) :
    (d, .proposal m) ∈ r.out ∨ ∃ slot batch table, m = r₀.proposalOf cfg crypto slot batch ∧
      s = r₀.storeBatch cfg crypto slot batch table := by
  cases h with
  | @batch slot batch table =>
    rcases List.mem_append.mp hm with hm | hm
    · exact .inl hm
    · obtain ⟨_, _, heq⟩ := List.mem_map.mp hm
      cases heq
      exact .inr ⟨slot, batch, table, rfl, rfl⟩
  | idle h => exact .inl (h.out ▸ hm)
  | proposal => exact .inl hm
  | @generic _ m' =>
    left
    simp only [lockGeneric] at hm
    split_ifs at hm
    · rwa [updateLockQC_out] at hm
    · exact hm
  | @vote _ id =>
    rcases sendHotstuffNewview_cases cfg crypto r id with ⟨_, heq⟩ | ⟨_, hc⟩
    · exact .inl (heq ▸ hm)
    · obtain ⟨l, hl, hlo⟩ := hc.out
      rw [hl] at hm
      refine .inl ((List.mem_append.mp hm).resolve_right fun hmem => ?_)
      obtain ⟨_, share, heq⟩ := hlo _ hmem
      cases heq
  | @count m' =>
    left
    simp only [countVote, bindTxnid] at hm
    split_ifs at hm <;> exact hm
  | advance _ _ _ h => exact .inl (advanceView_out h ▸ hm)
  | announce =>
    refine .inl ((List.mem_append.mp hm).resolve_right fun hmem => ?_)
    obtain ⟨_, _, heq⟩ := List.mem_map.mp hmem
    cases heq
  | execute => exact .inl hm
  | recycle => exact .inl hm

lemma SentProposed.move (h : SentProposed r) (hm : Move cfg crypto P Q B r₀ r s) : SentProposed s := by
  intro d m hmem
  rcases hm.sent_proposal hmem with hmem | ⟨slot, batch, table, rfl, rfl⟩
  · obtain ⟨batch, hb, heq⟩ := h d m hmem
    obtain ⟨l, hl⟩ := hm.trace
    refine ⟨batch, ?_, heq⟩
    rw [proposals, hl, List.filterMap_append]
    exact List.mem_append_left _ hb
  · refine ⟨batch, ?_, rfl⟩
    simp [proposals, storeBatch, Obs.proposal?]

lemma sentProposed_reach {p : ℕ} (h : Reach (step cfg crypto) (Genuine cfg) (init cfg p) r) : SentProposed r := by
  apply Reach.moves_invariant (P := fun _ => True) (I := SentProposed) _ _ _ _ h
  · intro r e he
    exact Genuine.supplies he
  · exact fun _ => rfl
  · exact fun _ _ hm => absurd hm List.not_mem_nil
  · exact fun _ _ _ hm hi => hi.move hm

lemma Tracked.respond (h : Tracked cfg r) {k : ℕ} {x : Executor} (hs : r.exec.step cfg (.pop k r.table) = some x) :
    x.responses = r.exec.responses ∨ ∃ v i, i < cfg.totInstances ∧ r.exec.nextIndex ≤ cfg.lastTxn v i ∧
      x.responses = r.exec.responses ++ [Executor.respond (cfg.slotTxns v i) r.table] := by
  obtain ⟨c, hnext, hexpected, _⟩ := h.turn
  have hb := cfg.five_le_batch
  simp only [Executor.step] at hs
  split at hs
  swap
  · cases hs
  rename_i m hget
  obtain ⟨_, id, rfl, _⟩ := h.queued m (List.mem_of_getElem? hget)
  simp only [Executor.handle] at hs
  split_ifs at hs with hlate hturn hrange
  · exact .inl (Option.some.inj hs ▸ rfl)
  · exact .inl (Option.some.inj hs ▸ rfl)
  · rw [not_not, hexpected] at hturn
    rw [hexpected] at hrange
    obtain rfl := Executor.copyFromTxn_expected cfg hturn hrange
    have hslot : cfg.slot (c / cfg.totInstances) (c % cfg.totInstances) = c := Nat.div_add_mod' c cfg.totInstances
    refine .inr ⟨c / cfg.totInstances, c % cfg.totInstances, Nat.mod_lt _ cfg.instances_pos, ?_, ?_⟩
    · rw [Config.lastTxn, Config.firstTxn, hslot, hnext]
      omega
    · rw [← Option.some.inj hs, Config.slotTxns, Config.firstTxn, hslot, ← Executor.executeIds_expected cfg c]
      rfl

end Slots

end Replica

namespace System

variable {cfg : Config} {crypto : Crypto} {S T : System}

def Filled (cfg : Config) (S : System) (v i client : ℕ) : Prop :=
  ∃ batch, ⟨i, v, batch⟩ ∈ (S (cfg.getViewPrimary v i)).proposals ∧ batch.client = client

structure Attributed (cfg : Config) (S : System) (v i : ℕ) (t : TxnManager) : Prop where
  hash : t.hash ≠ []
  view : t.view = v
  inst : t.instanceId = i
  filled : Filled cfg S v i t.clientId

def AllAttributed (cfg : Config) (S : System) : Prop :=
  ∀ p < cfg.nodeCnt, ∀ v i, i < cfg.totInstances → (S p).exec.nextIndex ≤ cfg.lastTxn v i →
    ((S p).table (cfg.lastTxn v i)).clientId ≠ 0 → Attributed cfg S v i ((S p).table (cfg.lastTxn v i))

lemma regular_step (h : Reachable cfg crypto ∅ S) {e : Event} (hok : Allowed cfg ∅ S e)
    (hs : step cfg crypto S e = some T) :
    ∃ a r, e.local S = some a ∧ (S e.node).Regular cfg a ∧ e.node < cfg.nodeCnt ∧
      (S e.node).step cfg crypto a = some r ∧ T = Function.update S e.node r := by
  obtain ⟨_, a, r, ha, hfree, hnode, hr, hT⟩ := faultFree_step h hok hs (fits_digest (h.next e hok hs))
  exact ⟨a, r, ha, ⟨hfree.genuine, fun m hm => hfree.named.2 _ hm⟩, hnode, hr, hT⟩

lemma orderly_reach (h : Reachable cfg crypto ∅ S) {p : ℕ} (hp : p < cfg.nodeCnt) : (S p).Orderly cfg := by
  have hreach : Reach (Replica.step cfg crypto) (Replica.Regular cfg) (Replica.init cfg p) (S p) :=
    (reaches_digest h p hp).mono fun r e he => ⟨he.genuine, fun m hm => he.named.2 _ hm⟩
  exact Replica.orderly_reach hp hreach

lemma Attributed.of_retains {t t' : TxnManager} {v i : ℕ} (h : Attributed cfg S v i t) (hret : t.Retains t') :
    Attributed cfg S v i t' := by
  obtain ⟨hhash, hinst, hview⟩ := hret.hashed h.hash
  refine ⟨hhash ▸ h.hash, hview.trans h.view, hinst.trans h.inst, ?_⟩
  have hclient : t'.clientId = t.clientId := congrArg ClientQuery.returnNode hret.query
  rw [hclient]
  exact h.filled

lemma Attributed.mono {t : TxnManager} {v i : ℕ} (h : Attributed cfg S v i t)
    (hsub : ∀ q, (S q).proposals ⊆ (T q).proposals) : Attributed cfg T v i t := by
  obtain ⟨batch, hbatch, hclient⟩ := h.filled
  exact ⟨h.hash, h.view, h.inst, batch, hsub _ hbatch, hclient⟩

lemma nodeId_eq (h : Reachable cfg crypto ∅ S) {p : ℕ} (hp : p < cfg.nodeCnt) : (S p).nodeId = p :=
  Replica.nodeId_reach cfg crypto (reach_replica h hp)

lemma getViewPrimary_of_mem (h : Reachable cfg crypto ∅ S) {q : ℕ} (hq : q < cfg.nodeCnt) {x : Proposal}
    (hx : x ∈ (S q).proposals) : x.instanceId < cfg.totInstances ∧ cfg.getViewPrimary x.view x.instanceId = q := by
  obtain ⟨hi, hprim, _⟩ := (orderly_reach h hq).alloc.past x hx
  exact ⟨hi, hprim.trans (nodeId_eq h hq)⟩

lemma slotTxns_map_getLastD {f : ℕ → ℕ} (v i : ℕ) :
    ((cfg.slotTxns v i).map f).getLastD 0 = f (cfg.lastTxn v i) := by
  have hb := cfg.batchSize_pos
  obtain ⟨n, hn⟩ : ∃ n, cfg.batchSize = n + 1 := ⟨cfg.batchSize - 1, by omega⟩
  have hlast : cfg.firstTxn v i + n = cfg.lastTxn v i := by
    rw [Config.lastTxn, hn]
    omega
  rw [Config.slotTxns, hn, List.range'_concat, List.map_append, List.map_singleton, List.getLastD_concat, Nat.one_mul,
    hlast]

lemma attributed_of_takes (h : Reachable cfg crypto ∅ S) {e : Event} {a : Replica.Event} {r : Replica} {m : ProposalMsg}
    (hok : Allowed cfg ∅ S e) (ha : e.local S = some a) (hnode : e.node < cfg.nodeCnt)
    (hself : r.nodeId = (S e.node).nodeId) (hm : (S e.node).Takes cfg crypto a r m)
    (hsub : ∀ q, (S q).proposals ⊆ (Function.update S e.node r q).proposals) :
    Attributed cfg (Function.update S e.node r) m.view m.instanceId (r.table (cfg.lastTxn m.view m.instanceId)) := by
  obtain ⟨hholds, _⟩ := hm.holds (orderly_reach h hnode) hself
  obtain ⟨_, hhash, hinst, hview⟩ := hm.stores.last hm.slotted.length hm.slotted.hash_ne_nil
  have hclient : (r.table (cfg.lastTxn m.view m.instanceId)).clientId =
      (m.requestMsg.map ClientQuery.returnNode).getLastD 0 := by
    rw [← hholds.queries, hm.slotted.index, List.map_map]
    exact (slotTxns_map_getLastD (f := fun k => (r.table k).clientId) m.view m.instanceId).symm
  refine ⟨hhash ▸ hm.slotted.hash_ne_nil, hview, hinst, ?_⟩
  rcases hm.origin with ⟨rfl, _⟩ | ⟨hprim, _, batch, hbatch, heq⟩
  · obtain ⟨q, hq, hout⟩ := delivered hok ha
    obtain ⟨batch, hbatch, heq⟩ := Replica.sentProposed_reach (reach_replica h hq) _ _ hout
    refine ⟨batch, ?_, ?_⟩
    · rw [(getViewPrimary_of_mem h hq hbatch).2]
      exact hsub q hbatch
    · rw [ClientQueryBatch.client, heq, hclient]
  · refine ⟨batch, ?_, ?_⟩
    · rw [hprim, nodeId_eq h hnode, Function.update_self]
      exact hbatch
    · rw [ClientQueryBatch.client, heq, hclient]

lemma step_proposals (h : Reachable cfg crypto ∅ S) {e : Event} (hok : Allowed cfg ∅ S e)
    (hs : step cfg crypto S e = some T) (q : ℕ) : (S q).proposals ⊆ (T q).proposals := by
  obtain ⟨a, r, _, hreg, _, hr, rfl⟩ := regular_step h hok hs
  by_cases hq : q = e.node
  · subst hq
    rw [Function.update_self]
    exact hreg.proposals_subset hr
  · rw [Function.update_of_ne hq]
    exact List.Subset.refl _

lemma AllAttributed.step (hall : AllAttributed cfg S) (h : Reachable cfg crypto ∅ S) {e : Event}
    (hok : Allowed cfg ∅ S e) (hs : step cfg crypto S e = some T) : AllAttributed cfg T := by
  have hsub := step_proposals h hok hs
  obtain ⟨a, r, ha, hreg, hnode, hr, rfl⟩ := regular_step h hok hs
  intro p hp v i hi hindex hclient
  by_cases hpe : p = e.node
  swap
  · rw [Function.update_of_ne hpe] at hindex hclient ⊢
    exact (hall p hp v i hi hindex hclient).mono hsub
  subst hpe
  rw [Function.update_self] at hindex hclient ⊢
  have hopen := (hreg.nextIndex_le hr).trans hindex
  have hkept : ((S e.node).table (cfg.lastTxn v i)).Retains (r.table (cfg.lastTxn v i)) →
      Attributed cfg (Function.update S e.node r) v i (r.table (cfg.lastTxn v i)) := by
    intro hret
    have hsame : (r.table (cfg.lastTxn v i)).clientId = ((S e.node).table (cfg.lastTxn v i)).clientId :=
      congrArg ClientQuery.returnNode hret.query
    exact ((hall _ hp v i hi hopen (hsame ▸ hclient)).of_retains hret).mono hsub
  rcases (orderly_reach h hnode).cases hreg hr with hret | ⟨m, hm⟩ | ⟨id, t, _, rfl, _, hlt⟩
  · exact hkept (hret _)
  · by_cases hslot : (v, i) = (m.view, m.instanceId)
    · obtain ⟨rfl, rfl⟩ := Prod.mk.inj hslot
      exact attributed_of_takes h hok ha hnode (Replica.step_nodeId cfg crypto hr) hm hsub
    · exact hkept (hm.stores.apart hi hm.slotted.inst hslot Replica.lastTxn_mem)
  · have hid : cfg.lastTxn v i ≠ id := by
      rintro rfl
      omega
    refine hkept ?_
    rw [Replica.setTxn_table, Function.update_of_ne hid]
    exact .refl _

lemma response_attributed (h : Reachable cfg crypto ∅ S) {p k : ℕ} (hp : p < cfg.nodeCnt) {x : Executor}
    (hall : AllAttributed cfg S) (hs : (S p).exec.step cfg (.pop k (S p).table) = some x) {rsp : ClientResponse}
    (hrsp : rsp ∈ x.responses.drop (S p).exec.responses.length) (hdest : rsp.dest ≠ 0) :
    ∃ v i, i < cfg.totInstances ∧ rsp.txnId = cfg.lastTxn v i ∧ rsp.view = v ∧
      ((S p).table rsp.txnId).instanceId = i ∧ Filled cfg S v i rsp.dest := by
  rcases (Replica.tracked_reach hp (reaches_digest h p hp)).respond hs with hsame | ⟨v, i, hi, hnext, hnew⟩
  · rw [hsame, List.drop_length] at hrsp
    exact absurd hrsp List.not_mem_nil
  · rw [hnew, List.drop_left, List.mem_singleton] at hrsp
    subst hrsp
    have hlast := cfg.slotTxns_getLastD v i
    simp only [Executor.respond, hlast] at hdest ⊢
    have hattr := hall p hp v i hi hnext hdest
    exact ⟨v, i, hi, rfl, hattr.view, hattr.inst, hattr.filled⟩

lemma step_custody (h : Reachable cfg crypto ∅ S) {e : Event} (hok : Allowed cfg ∅ S e)
    (hs : step cfg crypto S e = some T) :
    ∃ a, e.local S = some a ∧ ∀ p, (T p).custody cfg = (S p).custody cfg + if p = e.node then a.arriving else 0 := by
  obtain ⟨a, r, ha, _, _, hr, rfl⟩ := regular_step h hok hs
  refine ⟨a, ha, fun p => ?_⟩
  by_cases hp : p = e.node
  · subst hp
    rw [Function.update_self, if_pos rfl]
    exact Replica.step_custody hr
  · rw [Function.update_of_ne hp, if_neg hp, add_zero]

lemma allAttributed_reach (h : Reachable cfg crypto ∅ S) : AllAttributed cfg S := by
  apply h.invariant (AllAttributed cfg)
  · exact fun _ _ _ _ _ _ hclient => absurd rfl hclient
  · intro S e T hS hok hs hall
    exact hall.step hS hok hs

end System

end SpotLess
