import SpotLess.Certification
import SpotLess.FaultFree
import SpotLess.Ledger
import SpotLess.Lib.Voting
import SpotLess.Quorum

/-! Votes in runs with faulty replicas. A correct replica votes once for a transaction id, its SYNC messages say what it
voted for, and every voter a replica counts is faulty or did vote so; two hashes with a quorum are then the same. -/

namespace SpotLess

open Lib

def Obs.vote? : Obs → Option (ℕ × Bytes)
  | .voted _ id hash => some (id, hash)
  | _ => none

lemma Obs.FromChain.vote? {o : Obs} (h : o.FromChain) : o.vote? = none := by
  cases o <;> first | rfl | exact h.elim

namespace TxnManager

variable {cfg : Config} {t : TxnManager} {me node : ℕ} {hash : Bytes}

lemma mem_votersOf_pushVoter {hash' : Bytes} {node' : ℕ} (h : node ∈ (t.pushVoter hash' node').votersOf hash) :
    node ∈ t.votersOf hash ∨ node = node' ∧ hash = hash' := by
  rw [votersOf_pushVoter] at h
  split_ifs at h with heq
  · rcases List.mem_append.mp h with h | h
    · exact .inl (heq ▸ h)
    · exact .inr ⟨List.mem_singleton.mp h, heq⟩
  · exact .inl h

lemma mem_votersOf_castVote (h : node ∈ (Replica.castVote cfg t me).votersOf hash) :
    node ∈ t.votersOf hash ∨ node = me ∧ hash = t.hash := by
  simp only [Replica.castVote] at h
  split_ifs at h <;> exact mem_votersOf_pushVoter h

lemma mem_votersOf_hotstuffNewViewed {m : SyncMsg}
    (h : node ∈ (Replica.hotstuffNewViewed cfg t me m).1.votersOf hash) :
    node ∈ t.votersOf hash ∨ node = m.returnNodeId ∧ hash = m.hash := by
  have hseed : ∀ t : TxnManager, (t.seedVotes me).votersOf hash = t.votersOf hash := fun t => by
    rw [votersOf, seedVotes_hashVoters, votersOf]
  have hshare : ((t.seedVotes me).storeShare m.returnNodeId m.hash m.sigShare).votersOf hash = t.votersOf hash := by
    rw [votersOf, storeShare_hashVoters, ← votersOf, hseed]
  simp only [Replica.hotstuffNewViewed] at h
  split_ifs at h
  · exact .inl h
  · exact .inl (hseed t ▸ h)
  all_goals
    rw [← hshare]
    exact mem_votersOf_pushVoter h

-- What keeps a voter from being counted twice: senders are recorded, and the own vote is cast once.
structure Distinct (me : ℕ) (t : TxnManager) : Prop where
  nodup : ∀ h, (t.votersOf h).Nodup
  heard : ∀ h, ∀ s ∈ t.votersOf h, s ≠ me → s ∈ t.voteNewView
  silent : t.syncSent = false → ∀ h, me ∉ t.votersOf h

lemma Distinct.congr {t' : TxnManager} (h : t.Distinct me) (hsent : t'.syncSent = t.syncSent)
    (hheard : ∀ s ∈ t.voteNewView, s ∈ t'.voteNewView) (hvoters : t'.hashVoters = t.hashVoters) : t'.Distinct me := by
  have heq : ∀ h', t'.votersOf h' = t.votersOf h' := fun h' => by rw [votersOf, hvoters, votersOf]
  constructor
  · intro h'
    rw [heq]
    exact h.nodup h'
  · intro h' s hs hne
    rw [heq] at hs
    exact hheard s (h.heard h' s hs hne)
  · intro hs h'
    rw [heq]
    exact h.silent (hsent ▸ hs) h'

lemma Distinct.push {t' : TxnManager} (h : t.Distinct me) (hnode : node ∉ t.votersOf hash)
    (hvoters : t'.hashVoters = (t.pushVoter hash node).hashVoters) (hheard : ∀ s ∈ t.voteNewView, s ∈ t'.voteNewView)
    (hnew : node ≠ me → node ∈ t'.voteNewView)
    (hsilent : t'.syncSent = false → t.syncSent = false ∧ node ≠ me) : t'.Distinct me := by
  have hof : ∀ h', t'.votersOf h' = (t.pushVoter hash node).votersOf h' := fun h' => by
    rw [votersOf, hvoters, votersOf]
  constructor
  · intro h'
    rw [hof, votersOf_pushVoter]
    split_ifs
    · exact (h.nodup hash).append (List.nodup_singleton node) (List.disjoint_singleton.mpr hnode)
    · exact h.nodup h'
  · intro h' s hs hne
    rw [hof] at hs
    rcases mem_votersOf_pushVoter hs with hs | ⟨rfl, _⟩
    · exact hheard s (h.heard h' s hs hne)
    · exact hnew hne
  · intro hs h' hin
    obtain ⟨hs, hne⟩ := hsilent hs
    rw [hof] at hin
    rcases mem_votersOf_pushVoter hin with hin | ⟨heq, _⟩
    · exact h.silent hs h' hin
    · exact hne heq.symm

lemma Distinct.countSync (h : t.Distinct me) {m : SyncMsg} (hm : m.returnNodeId ≠ me) :
    (t.countSync cfg me m).Distinct me := by
  have hseed : (t.seedVotes me).Distinct me :=
    h.congr (by simp) (fun s hs => t.mem_seedVotes me hs) (by simp)
  have hshare : ((t.seedVotes me).storeShare m.returnNodeId m.hash m.sigShare).Distinct me :=
    hseed.congr (by simp) (by simp) (by simp)
  simp only [TxnManager.countSync, Replica.hotstuffNewViewed]
  split_ifs with _ _ hold
  · exact h
  · exact h
  · exact hseed
  all_goals
    have hnode : m.returnNodeId ∉
        ((t.seedVotes me).storeShare m.returnNodeId m.hash m.sigShare).votersOf m.hash := by
      intro hin
      have hmem := hshare.heard m.hash _ hin hm
      rw [storeShare_voteNewView] at hmem
      exact hold hmem
    exact hshare.push hnode rfl (fun s hs => List.mem_append_left _ hs)
      (fun _ => List.mem_append_right _ (List.mem_singleton_self _)) (fun hs => ⟨hs, hm⟩)

lemma Distinct.ownVote (h : t.Distinct me) (share : Option Bytes) : (t.ownVote cfg me share).Distinct me := by
  simp only [TxnManager.ownVote]
  split_ifs with hsent
  · exact h
  · have hkeep : (t.keepShare me share).Distinct me := by
      cases share <;> exact h.congr rfl (fun s hs => hs) rfl
    have hsilent : (t.keepShare me share).syncSent = false := by
      cases share <;> exact Bool.not_eq_true _ ▸ hsent
    simp only [Replica.castVote]
    split_ifs <;> exact hkeep.push (hkeep.silent hsilent _) rfl (fun s hs => hs) (absurd rfl) fun hs => Bool.noConfusion hs

lemma Distinct.act {t' : TxnManager} (h : t.Distinct me) {a : Act} (ha : FromOthers me t a)
    (hs : t.act cfg me a = some t') : t'.Distinct me := by
  cases a with
  | sync m =>
    obtain rfl := Option.some.inj hs
    exact h.countSync ha
  | fill returnId view i qry =>
    obtain ⟨_, _, _, rfl⟩ := Replica.initTxnMan_filled hs
    exact h.congr rfl (fun s hs => hs) rfl
  | propose hash =>
    obtain rfl := Option.some.inj hs
    exact h.congr rfl (fun s hs => hs) rfl
  | generic m =>
    obtain rfl := Option.some.inj hs
    simp only [Replica.acceptGeneric]
    split_ifs <;> exact h.congr rfl (fun s hs => hs) rfl
  | announce highQC =>
    obtain rfl := Option.some.inj hs
    exact h.congr rfl (fun s hs => hs) rfl
  | vote share =>
    obtain rfl := Option.some.inj hs
    exact h.ownVote share
  | certify view =>
    obtain rfl := Option.some.inj hs
    exact h.congr rfl (fun s hs => hs) rfl

lemma not_mem_votersOf_recycled (ht : t.Recycled) : node ∉ t.votersOf hash := by
  have hempty : t.hashVoters = ∅ := AList.ext ht.hashVoters
  rw [votersOf, hempty]
  exact List.not_mem_nil

lemma distinct_of_recycled (ht : t.Recycled) : t.Distinct me where
  nodup h := by
    rw [List.eq_nil_iff_forall_not_mem.mpr fun s => not_mem_votersOf_recycled ht]
    exact List.nodup_nil
  heard h s hs := absurd hs (not_mem_votersOf_recycled ht)
  silent _ h := not_mem_votersOf_recycled ht

end TxnManager

namespace Replica

open TxnManager

def ballots (r : Replica) : List (ℕ × Bytes) := r.trace.filterMap Obs.vote?

def syncTo? (d id : ℕ) : ℕ × Msg → Option SyncMsg
  | (d', .sync m) => if d' = d ∧ m.txnId = id then some m else none
  | _ => none

def syncsTo (r : Replica) (d id : ℕ) : List SyncMsg := r.out.filterMap (syncTo? d id)

lemma length_syncs_send {l : List ℕ} (hl : l.Nodup) (m : SyncMsg) (d id : ℕ) :
    ((l.map fun d' => (d', Msg.sync m)).filterMap (syncTo? d id)).length = if d ∈ l ∧ m.txnId = id then 1 else 0 := by
  induction l with
  | nil => simp
  | cons a l ih =>
    obtain ⟨ha, hl⟩ := List.nodup_cons.mp hl
    rw [List.map_cons, List.filterMap_cons]
    by_cases hd : a = d ∧ m.txnId = id
    · obtain ⟨rfl, rfl⟩ := hd
      have hnil := ih hl
      rw [if_neg (fun h => ha h.1)] at hnil
      have hhead : syncTo? a m.txnId (a, .sync m) = some m := if_pos ⟨rfl, rfl⟩
      simp only [hhead, List.length_cons, hnil]
      simp
    · have hmem : d ∈ a :: l ∧ m.txnId = id ↔ d ∈ l ∧ m.txnId = id := by
        rw [List.mem_cons]
        tauto
      simp only [syncTo?, if_neg hd, ih hl, hmem]

section Moves

variable {cfg : Config} {crypto : Crypto} {P : Msg → Prop} {Q : ℕ → Prop} {B : ℕ → ClientQueryBatch → Prop}
  {r₀ r s : Replica}

lemma ballots_of_trace {l : List Obs} (h : s.trace = r.trace ++ l) :
    s.ballots = r.ballots ++ l.filterMap Obs.vote? := by
  rw [ballots, h, List.filterMap_append, ballots]

lemma ballots_of_fromChain {o : Obs} {l : List Obs} (h : s.trace = r.trace ++ o :: l) (ho : o.vote? = none)
    (hl : ∀ o ∈ l, o.FromChain) : s.ballots = r.ballots := by
  have hnil : (o :: l).filterMap Obs.vote? = [] := by
    refine List.filterMap_eq_nil_iff.mpr fun o' ho' => ?_
    rcases List.mem_cons.mp ho' with rfl | ho'
    · exact ho
    · exact (hl o' ho').vote?
  rw [ballots_of_trace h, hnil, List.append_nil]

lemma storeGeneric_lockGeneric_trace (cfg : Config) (r : Replica) (m : GenericMsg) :
    ∃ l, ((r.storeGeneric m).lockGeneric cfg m).trace = r.trace ++ .adopted m (r.inst m.instanceId) :: l ∧
      ∀ o ∈ l, o.FromChain := by
  simp only [lockGeneric]
  split_ifs
  · obtain ⟨l, hl, hlo⟩ := (r.storeGeneric m).updateLockQC_trace cfg m.highQC m.view (sub64 m.txnId cfg.stride)
      m.instanceId
    refine ⟨l, ?_, hlo⟩
    rw [hl]
    exact List.append_assoc ..
  · exact ⟨[], rfl, by simp⟩

lemma countVote_trace (r : Replica) (m : SyncMsg) : (r.countVote cfg m).trace = r.trace := by
  simp only [countVote, bindTxnid]
  split_ifs <;> rfl

lemma sendHotstuffNewview_syncs {id : ℕ} (hfresh : (r.table id).syncSent = false) (d k : ℕ) :
    ((r.sendHotstuffNewview cfg crypto id).syncsTo d k).length =
      (r.syncsTo d k).length + if k = id ∧ d ∈ r.others cfg then 1 else 0 := by
  have hnodup := others_nodup cfg r
  have hself : r.nodeId ∉ r.others cfg := fun hmem => ((mem_others cfg r).mp hmem).2 rfl
  have hlt := cfg.getViewPrimary_lt ((r.inst (r.table id).instanceId).view + 1) (r.table id).instanceId
  simp only [sendHotstuffNewview, hfresh, Bool.false_eq_true, if_false]
  generalize cfg.getViewPrimary ((r.inst (r.table id).instanceId).view + 1) (r.table id).instanceId = dest at hlt ⊢
  have hsent : ∀ {l : List ℕ} (share : Option Bytes), l.Nodup →
      ((l.map fun d' => (d', Msg.sync (r.syncOf id share))).filterMap (syncTo? d k)).length =
        if d ∈ l ∧ id = k then 1 else 0 := fun share hl => length_syncs_send hl (r.syncOf id share) d k
  by_cases hd : r.nodeId = dest
  · rw [if_pos hd, if_pos hd]
    simp only [syncsTo, observe_out, setTxn_out, send_out, List.filterMap_append, List.length_append]
    rw [hsent none (hnodup.filter _)]
    congr 1
    refine if_congr ?_ rfl rfl
    rw [List.mem_filter, decide_eq_true_iff]
    constructor
    · rintro ⟨⟨hmem, _⟩, rfl⟩
      exact ⟨rfl, hmem⟩
    · rintro ⟨rfl, hmem⟩
      exact ⟨⟨hmem, fun heq => hself (hd ▸ heq ▸ hmem)⟩, rfl⟩
  · have hdest : dest ∈ r.others cfg := (mem_others cfg r).mpr ⟨hlt, Ne.symm hd⟩
    rw [if_neg hd, if_neg hd]
    simp only [syncsTo, observe_out, setTxn_out, send_out, List.filterMap_append, List.length_append]
    rw [hsent none (hnodup.filter _), hsent _ (List.nodup_singleton _), Nat.add_assoc]
    congr 1
    -- the share goes to `dest`, the plain SYNC to the others
    by_cases heq : d = dest
    · subst heq
      simp [hdest, eq_comm]
    · simp [heq, eq_comm, and_comm]

inductive Polls (cfg : Config) (r s : Replica) : Prop
  | quiet (heq : s.ballots = r.ballots) (hout : ∀ d k, s.syncsTo d k = r.syncsTo d k)
  | votes (id : ℕ) (hfresh : (r.table id).syncSent = false) (hindex : r.exec.nextIndex < id)
      (heq : s.ballots = r.ballots ++ [(id, (r.table id).hash)]) (hsent : (s.table id).syncSent = true)
      (hout : ∀ d k, (s.syncsTo d k).length =
        (r.syncsTo d k).length + if k = id ∧ d ∈ r.others cfg then 1 else 0)

lemma Move.polls (h : Move cfg crypto P Q B r₀ r s) : Polls cfg r s := by
  have same : s.out = r.out → ∀ d k, s.syncsTo d k = r.syncsTo d k := fun h d k => by rw [syncsTo, h, syncsTo]
  -- other messages do not count
  have other : ∀ {dest : List ℕ} {m : Msg}, (∀ m', m ≠ .sync m') → s.out = r.out ++ dest.map (fun d => (d, m)) →
      ∀ d k, s.syncsTo d k = r.syncsTo d k := by
    intro dest m hm hout d k
    have hnil : (dest.map fun d => (d, m)).filterMap (syncTo? d k) = [] := by
      refine List.filterMap_eq_nil_iff.mpr fun e he => ?_
      obtain ⟨d', _, rfl⟩ := List.mem_map.mp he
      cases m with
      | sync m => exact absurd rfl (hm m)
      | _ => rfl
    rw [syncsTo, hout, List.filterMap_append, hnil, List.append_nil, syncsTo]
  cases h with
  | idle h =>
    rcases h.trace with heq | ⟨batch, heq⟩
    · exact .quiet (by rw [ballots, heq, ballots]) (same h.out)
    · exact .quiet (by simp [ballots, heq, Obs.vote?]) (same h.out)
  | proposal => exact .quiet rfl fun _ _ => rfl
  | @generic _ m =>
    obtain ⟨l, hl, hlo⟩ := storeGeneric_lockGeneric_trace cfg r m
    refine .quiet (ballots_of_fromChain hl rfl hlo) (same ?_)
    simp only [lockGeneric]
    split_ifs
    · exact updateLockQC_out ..
    · rfl
  | @vote _ id hsame hindex =>
    rcases sendHotstuffNewview_cases cfg crypto r id with ⟨_, heq⟩ | ⟨hfresh, hc⟩
    · exact .quiet (by rw [heq]) (by simp [heq])
    · refine .votes id hfresh (hsame.nextIndex ▸ hindex) (ballots_of_trace hc.trace) ?_
        (sendHotstuffNewview_syncs hfresh)
      obtain ⟨_, _, _, heq⟩ := @castVote_eq cfg
        { r.table id with genericQC := r.ownShare cfg crypto id, syncSent := true } r.nodeId
      rw [hc.table, Function.update_self, heq]
  | @count m =>
    refine .quiet (by rw [ballots, countVote_trace, ballots]) (same ?_)
    simp only [countVote, bindTxnid]
    split_ifs <;> rfl
  | advance _ _ _ h =>
    obtain ⟨l, hl, hlo⟩ := advanceView_trace h
    exact .quiet (ballots_of_fromChain hl rfl hlo) (same (advanceView_out h))
  | batch => exact .quiet (by simp [ballots, storeBatch, Obs.vote?]) (other (fun _ => by simp) rfl)
  | announce => exact .quiet (by simp [ballots, announceGeneric, Obs.vote?]) (other (fun _ => by simp) rfl)
  | execute => exact .quiet rfl fun _ _ => rfl
  | recycle => exact .quiet rfl fun _ _ => rfl

lemma Polls.mem (h : Polls cfg r s) {v : ℕ × Bytes} (hv : v ∈ r.ballots) : v ∈ s.ballots := by
  cases h with
  | quiet heq => exact heq ▸ hv
  | votes id _ _ heq => exact heq ▸ List.mem_append_left _ hv

lemma votersOf_hashed {table table' : ℕ → TxnManager} {returnId view i last k : ℕ} {l : List (ℕ × ClientQuery)}
    {hash hash' : Bytes} (hf : fillManagers cfg table returnId view i l = some table') :
    (Function.update table' last { table' last with hash := hash', proposalReceived := true } k).votersOf hash =
      (table k).votersOf hash := by
  rw [← (fill_votes hf k).2.2 hash]
  by_cases hk : k = last
  · subst hk
    rw [Function.update_self]
    rfl
  · rw [Function.update_of_ne hk]

lemma votersOf_update {table : ℕ → TxnManager} {id k : ℕ} {t : TxnManager} {hash : Bytes}
    (ht : t.hashVoters = (table id).hashVoters) : (Function.update table id t k).votersOf hash =
      (table k).votersOf hash := by
  by_cases hk : k = id
  · subst hk
    rw [Function.update_self, votersOf, ht, votersOf]
  · rw [Function.update_of_ne hk]

lemma Move.voters (h : Move cfg crypto P Q B r₀ r s) {k node : ℕ} {hash : Bytes}
    (hn : node ∈ (s.table k).votersOf hash) : node ∈ (r.table k).votersOf hash ∨
      (∃ m, P (.sync m) ∧ m.returnNodeId = node ∧ m.txnId = k ∧ m.hash = hash) ∨
      node = r.nodeId ∧ (k, hash) ∈ s.ballots := by
  cases h with
  | idle h =>
    rw [h.table] at hn
    exact .inl hn
  | proposal _ _ hacc => exact .inl (votersOf_hashed hacc.filled ▸ hn)
  | @generic _ m =>
    rw [storeGeneric_lockGeneric_table, votersOf_update] at hn
    · exact .inl hn
    · simp only [acceptGeneric]
      split_ifs <;> rfl
  | @vote _ id =>
    rcases sendHotstuffNewview_cases cfg crypto r id with ⟨_, heq⟩ | ⟨_, hc⟩
    · exact .inl (heq ▸ hn)
    · rw [hc.table] at hn
      by_cases hk : k = id
      · subst hk
        rw [Function.update_self] at hn
        rcases mem_votersOf_castVote hn with hn | ⟨rfl, rfl⟩
        · exact .inl hn
        · refine .inr (.inr ⟨rfl, ?_⟩)
          rw [ballots_of_trace hc.trace]
          exact List.mem_append_right _ (List.mem_singleton_self _)
      · rw [Function.update_of_ne hk] at hn
        exact .inl hn
  | @count m hm =>
    rw [countVote_table] at hn
    by_cases hk : k = m.txnId
    · subst hk
      rw [Function.update_self] at hn
      rcases mem_votersOf_hotstuffNewViewed hn with hn | ⟨rfl, rfl⟩
      · exact .inl hn
      · exact .inr (.inl ⟨m, hm, rfl, rfl, rfl⟩)
    · rw [Function.update_of_ne hk] at hn
      exact .inl hn
  | advance _ _ _ h =>
    rw [advanceView_table h, votersOf_update] at hn
    · exact .inl hn
    · rfl
  | batch _ _ hfill => exact .inl (votersOf_hashed hfill ▸ hn)
  | announce =>
    rw [announceGeneric, observe_table, send_table, setTxn_table, votersOf_update] at hn
    · exact .inl hn
    · rfl
  | execute => exact .inl hn
  | @recycle id t _ ht =>
    rw [setTxn_table] at hn
    by_cases hk : k = id
    · subst hk
      rw [Function.update_self] at hn
      exact absurd hn (not_mem_votersOf_recycled ht)
    · rw [Function.update_of_ne hk] at hn
      exact .inl hn

lemma Move.certificate (h : Move cfg crypto P Q B r₀ r s) {i v id : ℕ} {qc : QuorumCertificate} {voters : List ℕ}
    (ho : .advanced i v id qc voters ∈ s.trace) : .advanced i v id qc voters ∈ r.trace ∨
      voters = (r.table id).votersOf qc.batchHash := by
  have chain : ∀ {l : List Obs}, (∀ o ∈ l, o.FromChain) → .advanced i v id qc voters ∉ l := fun hl hmem =>
    (hl _ hmem).noCertificate
  cases h with
  | idle h =>
    rcases h.trace with heq | ⟨batch, heq⟩
    · exact .inl (heq ▸ ho)
    · rw [heq] at ho
      exact .inl (by simpa using ho)
  | proposal => exact .inl ho
  | @generic _ m =>
    obtain ⟨l, hl, hlo⟩ := storeGeneric_lockGeneric_trace cfg r m
    rw [hl, List.mem_append, List.mem_cons] at ho
    rcases ho with ho | ho | ho
    · exact .inl ho
    · cases ho
    · exact absurd ho (chain hlo)
  | @vote _ id' =>
    rcases sendHotstuffNewview_cases cfg crypto r id' with ⟨_, heq⟩ | ⟨_, hc⟩
    · exact .inl (heq ▸ ho)
    · rw [hc.trace] at ho
      exact .inl (by simpa using ho)
  | @count m => exact .inl (countVote_trace r₀ m ▸ ho)
  | advance _ _ _ h =>
    obtain ⟨l, hl, hlo⟩ := advanceView_trace h
    rw [hl, List.mem_append, List.mem_cons] at ho
    rcases ho with ho | ho | ho
    · exact .inl ho
    · obtain ⟨_, _, rfl, rfl, rfl⟩ := Obs.advanced.inj ho
      exact .inr rfl
    · exact absurd ho (chain hlo)
  | batch => exact .inl (by simpa [storeBatch] using ho)
  | announce => exact .inl (by simpa [announceGeneric] using ho)
  | execute => exact .inl ho
  | recycle => exact .inl ho

lemma Move.syncs (h : Move cfg crypto P Q B r₀ r s) {d : ℕ} {m : SyncMsg} (he : (d, .sync m) ∈ s.out) :
    (d, .sync m) ∈ r.out ∨ (m.txnId, m.hash) ∈ s.ballots := by
  cases h with
  | idle h => exact .inl (h.out ▸ he)
  | proposal => exact .inl he
  | @generic _ m =>
    left
    simp only [lockGeneric] at he
    split_ifs at he
    · rw [updateLockQC_out] at he
      exact he
    · exact he
  | @vote _ id =>
    rcases sendHotstuffNewview_cases cfg crypto r id with ⟨_, heq⟩ | ⟨_, hc⟩
    · exact .inl (heq ▸ he)
    · obtain ⟨l, hl, hlo⟩ := hc.out
      rw [hl] at he
      rcases List.mem_append.mp he with he | he
      · exact .inl he
      · obtain ⟨_, share, heq⟩ := hlo _ he
        obtain rfl := Msg.sync.inj heq
        right
        rw [ballots_of_trace hc.trace]
        exact List.mem_append_right _ (List.mem_singleton_self _)
  | @count m =>
    left
    simp only [countVote, bindTxnid] at he
    split_ifs at he <;> exact he
  | advance _ _ _ h => exact .inl (advanceView_out h ▸ he)
  | batch =>
    rcases List.mem_append.mp he with he | he
    · exact .inl he
    · obtain ⟨d, _, heq⟩ := List.mem_map.mp he
      cases heq
  | announce =>
    rcases List.mem_append.mp he with he | he
    · exact .inl he
    · obtain ⟨d, _, heq⟩ := List.mem_map.mp he
      cases heq
  | execute => exact .inl he
  | recycle => exact .inl he

end Moves

section Invariant

-- The vote of a node for a hash: the replica's own, or one that `V` says is genuine.
def Backed (V : ℕ → ℕ → Bytes → Prop) (r : Replica) (node id : ℕ) (hash : Bytes) : Prop :=
  node = r.nodeId ∧ (id, hash) ∈ r.ballots ∨ V node id hash

structure Voting (V : ℕ → ℕ → Bytes → Prop) (r : Replica) : Prop where
  cast : ∀ v ∈ r.ballots, (r.table v.1).syncSent = true ∨ v.1 < r.exec.nextIndex
  once : (r.ballots.map Prod.fst).Nodup
  counted : ∀ id hash, ∀ node ∈ (r.table id).votersOf hash, r.Backed V node id hash
  built : ∀ i v id qc voters, .advanced i v id qc voters ∈ r.trace →
    ∀ node ∈ voters, r.Backed V node id qc.batchHash
  sent : ∀ d m, (d, .sync m) ∈ r.out → (m.txnId, m.hash) ∈ r.ballots

variable {cfg : Config} {crypto : Crypto} {V V' : ℕ → ℕ → Bytes → Prop} {P : Msg → Prop} {Q : ℕ → Prop}
  {B : ℕ → ClientQueryBatch → Prop} {r₀ r s : Replica} {p : ℕ}

lemma Backed.imp {node id : ℕ} {hash : Bytes} (h : r.Backed V node id hash) (hnode : s.nodeId = r.nodeId)
    (hmem : ∀ v ∈ r.ballots, v ∈ s.ballots) (hV : ∀ node id hash, V node id hash → V' node id hash) :
    s.Backed V' node id hash :=
  Or.imp (fun hv => ⟨hv.1.trans hnode.symm, hmem _ hv.2⟩) (hV _ _ _) h

lemma Voting.mono (h : Voting V r) (hV : ∀ node id hash, V node id hash → V' node id hash) : Voting V' r where
  cast := h.cast
  once := h.once
  counted id hash node hn := (h.counted id hash node hn).imp rfl (fun _ hv => hv) hV
  built i v id qc voters ho node hn := (h.built i v id qc voters ho node hn).imp rfl (fun _ hv => hv) hV
  sent := h.sent

lemma voting_init (p : ℕ) : Voting V (init cfg p) where
  cast := nofun
  once := List.nodup_nil
  counted _ _ _ hn := absurd hn (not_mem_votersOf_recycled recycled_default)
  built := nofun
  sent := nofun

lemma Voting.move (h : Voting V r) (hm : Move cfg crypto P Q B r₀ r s)
    (hP : ∀ m, P (.sync m) → V m.returnNodeId m.txnId m.hash) : Voting V s := by
  have hpolls := hm.polls
  have hback : ∀ {node id hash}, r.Backed V node id hash → s.Backed V node id hash := fun hb =>
    hb.imp hm.nodeId (fun _ hv => hpolls.mem hv) (fun _ _ _ hv => hv)
  have hvoters : ∀ id hash, ∀ node ∈ (s.table id).votersOf hash, s.Backed V node id hash := by
    intro id hash node hn
    rcases hm.voters hn with hn | ⟨m, hpm, rfl, rfl, rfl⟩ | ⟨rfl, hv⟩
    · exact hback (h.counted id hash node hn)
    · exact .inr (hP m hpm)
    · exact .inl ⟨hm.nodeId.symm, hv⟩
  have hcast : ∀ v ∈ r.ballots, (s.table v.1).syncSent = true ∨ v.1 < s.exec.nextIndex := by
    intro v hv
    have hle := hm.nextIndex_le
    rcases h.cast v hv with hsent | hlt
    · rcases hm.grows v.1 with hg | ⟨_, _, hlt, _⟩
      · exact .inl (hg.syncSent hsent)
      · exact .inr (by omega)
    · exact .inr (hlt.trans_le hle)
  refine ⟨?_, ?_, hvoters, ?_, ?_⟩
  · intro v hv
    cases hpolls with
    | quiet heq => exact hcast v (heq ▸ hv)
    | votes id _ _ heq hsent =>
      rw [heq] at hv
      rcases List.mem_append.mp hv with hv | hv
      · exact hcast v hv
      · rw [List.mem_singleton.mp hv]
        exact .inl hsent
  · cases hpolls with
    | quiet heq => exact heq ▸ h.once
    | votes id hfresh hindex heq =>
      rw [heq, List.map_append]
      refine h.once.append (List.nodup_singleton _) (List.disjoint_singleton.mpr ?_)
      intro hmem
      obtain ⟨v, hv, rfl⟩ := List.mem_map.mp hmem
      -- a vote cast before has set the flag, unless its slot is executed
      rcases h.cast v hv with hsent | hlt
      · rw [hfresh] at hsent
        cases hsent
      · omega
  · intro i v id qc voters ho node hn
    rcases hm.certificate ho with ho | rfl
    · exact hback (h.built i v id qc voters ho node hn)
    · exact hback (h.counted id _ node hn)
  · intro d m he
    rcases hm.syncs he with he | hv
    · exact hpolls.mem (h.sent d m he)
    · exact hv

lemma distinct_reach (h : Reach (step cfg crypto) (Genuine cfg) (init cfg p) r) (id : ℕ) :
    (r.table id).Distinct p := by
  obtain ⟨t, ht, hlives⟩ := lives_reach h id
  refine hlives.invariant (Distinct p) (distinct_of_recycled ht) ?_
  intro t a t' _ ha hs ht
  exact ht.act ha hs

def Announced (cfg : Config) (r : Replica) : Prop :=
  ∀ d id, (r.syncsTo d id).length = if id ∈ r.ballots.map Prod.fst ∧ d ∈ r.others cfg then 1 else 0

lemma Announced.move (h : Announced cfg r) (hr : Voting V s) (hm : Move cfg crypto P Q B r₀ r s) :
    Announced cfg s := by
  have hothers : s.others cfg = r.others cfg := by rw [others, hm.nodeId, others]
  intro d k
  rw [hothers]
  cases hm.polls with
  | quiet heq hout => rw [heq, hout, h d k]
  | votes id _ _ heq _ hout =>
    have hfresh := hr.once
    rw [heq, List.map_append, List.map_singleton] at hfresh
    have hnew : id ∉ r.ballots.map Prod.fst := fun hmem =>
      List.disjoint_of_nodup_append hfresh hmem (List.mem_singleton_self id)
    rw [hout, h d k, heq, List.map_append, List.map_singleton]
    by_cases hk : k = id
    · subst hk
      simp [hnew]
    · have hmem : k ∈ r.ballots.map Prod.fst ++ [id] ↔ k ∈ r.ballots.map Prod.fst := by
        rw [List.mem_append, List.mem_singleton]
        exact or_iff_left hk
      simp only [hmem, hk, false_and, if_false, Nat.add_zero]

lemma announced_reach (h : Reach (step cfg crypto) (Genuine cfg) (init cfg p) r) :
    Voting (fun _ _ _ => True) r ∧ Announced cfg r := by
  apply Reach.moves_invariant (P := fun _ => True)
    (I := fun r => Voting (fun _ _ _ => True) r ∧ Announced cfg r) _ (fun _ => rfl) _ _ h
  · exact fun r e he => Genuine.supplies he
  · exact ⟨voting_init p, fun d id => by simp [syncsTo, ballots, init]⟩
  · intro r₀ r s hm hr
    have hs := hr.1.move hm fun _ _ => trivial
    exact ⟨hs, hr.2.move hs hm⟩

-- Whatever the environment does, a vote is cast once and is sent once to every other replica.
theorem syncs_exact (h : Reach (step cfg crypto) (Genuine cfg) (init cfg p) r) :
    (r.ballots.map Prod.fst).Nodup ∧ ∀ d id,
      ((r.syncsTo d id).length = if id ∈ r.ballots.map Prod.fst ∧ d ∈ r.others cfg then 1 else 0) ∧
      ∀ m ∈ r.syncsTo d id, (id, m.hash) ∈ r.ballots := by
  have hboth := announced_reach h
  refine ⟨hboth.1.once, fun d id => ⟨hboth.2 d id, fun m hmem => ?_⟩⟩
  obtain ⟨⟨d', m'⟩, he, heq⟩ := List.mem_filterMap.mp hmem
  cases m' with
  | sync m' =>
    simp only [syncTo?] at heq
    split_ifs at heq with hto
    obtain ⟨rfl, rfl⟩ := hto
    obtain rfl := Option.some.inj heq
    exact hboth.1.sent _ _ he
  | _ => cases heq

theorem syncs_exact_first_slot :
    ∃ r, Reach (step .fourReplicas .transparent) (Genuine .fourReplicas) (init .fourReplicas 2) r ∧
      r.ballots.map Prod.fst = [4] ∧ (r.syncsTo 3 4).length = 1 ∧ (r.syncsTo 2 4).length = 0 := by
  let cfg := Config.fourReplicas
  let m := slotProposal cfg .transparent 0 0 (List.replicate 5 ⟨[⟨7, 1⟩], 3, 9⟩)
  obtain ⟨r, hr, hp⟩ := exists_reach_of_runWith (step cfg .transparent) (Genuine cfg) (init cfg 2)
    [.deliver (.proposal m), .deliver (.generic (slotGeneric cfg .transparent 0 0 m.hash (genesisQC .PREPARE)))]
    (fun r => decide (r.ballots.map Prod.fst = [4] ∧ r.others cfg = [0, 1, 3])) (by decide +kernel)
  obtain ⟨hvotes, hothers⟩ := of_decide_eq_true hp
  obtain ⟨-, hsyncs⟩ := syncs_exact hr
  refine ⟨r, hr, hvotes, ?_, ?_⟩
  · rw [(hsyncs 3 4).1, hvotes, hothers]
    rfl
  · rw [(hsyncs 2 4).1, hvotes, hothers]
    rfl

end Invariant

end Replica

namespace System

open TxnManager

variable {cfg : Config} {crypto : Crypto} {byz : Finset ℕ} {S T : System} {p q : ℕ}

def Votes (cfg : Config) (S : System) (id node : ℕ) (hash : Bytes) : Prop :=
  node < cfg.nodeCnt ∧ (id, hash) ∈ (S node).ballots

-- What the network may have delivered as the vote of a node.
def Claims (cfg : Config) (byz : Finset ℕ) (S : System) (node id : ℕ) (hash : Bytes) : Prop :=
  node < cfg.nodeCnt ∧ (node ∈ byz ∨ (id, hash) ∈ (S node).ballots)

lemma genuine_votes (h : Reachable cfg crypto byz S) (hV : ∀ p < cfg.nodeCnt, (S p).Voting (Claims cfg byz S))
    {e : Event} (he : Allowed cfg byz S e) {a : Replica.Event} (ha : e.local S = some a) :
    (S e.node).Supplies cfg (fun m => ∀ m', m = .sync m' → Claims cfg byz S m'.returnNodeId m'.txnId m'.hash)
      (fun _ _ => True) a := by
  have hgenuine := local_genuine (fun p hp => reach_replica h hp) he ha
  cases a with
  | deliver m =>
    rintro m' rfl
    refine ⟨hgenuine.2.2, ?_⟩
    cases e with
    | act p e =>
      cases e <;> simp [Event.local] at ha
    | relay p s k =>
      obtain ⟨_, _, hs, _⟩ := he
      simp only [Event.local] at ha
      split at ha
      · rename_i d m hout
        split_ifs at ha
        obtain rfl := Replica.Event.deliver.inj (Option.some.inj ha)
        have hmem := List.mem_of_getElem? hout
        have hsender := ((Replica.wired_reach hs (reach_replica h hs)).out _ hmem).2.1
        right
        rw [show m'.returnNodeId = s from hsender.trans (Replica.nodeId_reach cfg crypto (reach_replica h hs))]
        exact (hV s hs).sent d m' hmem
      · cases ha
    | inject p m =>
      obtain rfl := Replica.Event.deliver.inj (Option.some.inj ha)
      exact .inl he.2.2.2
  | recycle => exact hgenuine
  | proposalThread => exact fun _ _ _ => trivial
  | _ => trivial

lemma voting_reach (h : Reachable cfg crypto byz S) : ∀ p < cfg.nodeCnt, (S p).Voting (Claims cfg byz S) := by
  induction h with
  | start => exact fun p _ => Replica.voting_init p
  | @next S T e hS hok hs ih =>
    obtain ⟨a, r, ha, hr, rfl⟩ := step_cases hs
    have hmoves := Replica.step_moves (genuine_votes hS ih hok ha) (fun _ _ _ _ hm => by cases hm) (fun _ _ => trivial) hr
    have hgenuine := local_genuine (fun p hp => reach_replica hS hp) hok ha
    obtain ⟨l, hl⟩ := Replica.step_trace hgenuine hr
    -- votes of the other replicas stay, and those of this one grow
    have hclaims : ∀ node id hash, Claims cfg byz S node id hash →
        Claims cfg byz (Function.update S e.node r) node id hash := by
      rintro node id hash ⟨hlt, hv⟩
      refine ⟨hlt, hv.imp_right fun hv => ?_⟩
      by_cases hn : node = e.node
      · subst hn
        rw [Function.update_self, Replica.ballots_of_trace hl]
        exact List.mem_append_left _ hv
      · rwa [Function.update_of_ne hn]
    intro p hp
    refine Replica.Voting.mono ?_ hclaims
    by_cases hpe : p = e.node
    · subst hpe
      rw [Function.update_self]
      refine hmoves.invariant (I := Replica.Voting (Claims cfg byz S)) ?_ (ih _ hp)
      intro u v hm hu
      exact hu.move hm fun m hm => hm m rfl
    · rw [Function.update_of_ne hpe]
      exact ih p hp

lemma unequivocal (h : Reachable cfg crypto byz S) (id : ℕ) : Unequivocal byz (Votes cfg S id) := by
  rintro node - hash hash' ⟨hlt, hv⟩ ⟨-, hv'⟩
  have hinj := List.inj_on_of_nodup_map (voting_reach h node hlt).once hv hv' rfl
  exact congrArg Prod.snd hinj

lemma votes_of_backed (h : Reachable cfg crypto byz S) (hp : p < cfg.nodeCnt) {node id : ℕ} {hash : Bytes}
    (hb : (S p).Backed (Claims cfg byz S) node id hash) : node < cfg.nodeCnt ∧ (node ∉ byz → Votes cfg S id node hash) := by
  rcases hb with ⟨rfl, hv⟩ | ⟨hlt, hv⟩
  · rw [Replica.nodeId_reach cfg crypto (reach_replica h hp)]
    exact ⟨hp, fun _ => ⟨hp, hv⟩⟩
  · exact ⟨hlt, fun hn => ⟨hlt, hv.resolve_left hn⟩⟩

lemma exists_quorum (h : Reachable cfg crypto byz S) (hp : p < cfg.nodeCnt) {id : ℕ} {hash : Bytes} {voters : List ℕ}
    (hnodup : voters.Nodup) (hbacked : ∀ node ∈ voters, (S p).Backed (Claims cfg byz S) node id hash)
    (hlen : cfg.nf ≤ voters.length) : ∃ A, cfg.IsQuorum A ∧ Carries byz (Votes cfg S id) A hash := by
  obtain ⟨A, hcard, hA⟩ := exists_voters_of_nodup hnodup hlen
  refine ⟨A, ⟨fun node hn => ?_, hcard⟩, fun node hn hf => ?_⟩
  · exact Finset.mem_range.mpr (votes_of_backed h hp (hbacked node (hA node hn))).1
  · exact (votes_of_backed h hp (hbacked node (hA node hn))).2 hf

lemma quorum_hash_unique (h : Reachable cfg crypto byz S) (hn : cfg.nodeCnt % 3 = 1)
    (hf : byz.card ≤ cfg.minInvalidNodes) {id : ℕ} {A B : Finset ℕ} {hash hash' : Bytes} (hA : cfg.IsQuorum A)
    (hB : cfg.IsQuorum B) (hca : Carries byz (Votes cfg S id) A hash) (hcb : Carries byz (Votes cfg S id) B hash') :
    hash = hash' := (unequivocal h id).agree hca hcb (hA.exists_correct hn hB hf)

lemma Votes.mono {e : Event} (hS : Reachable cfg crypto byz S) (hok : Allowed cfg byz S e) (hs : step cfg crypto S e = some T)
    {id node : ℕ} {hash : Bytes} (hv : Votes cfg S id node hash) : Votes cfg T id node hash := by
  obtain ⟨a, r, ha, hr, rfl⟩ := step_cases hs
  obtain ⟨l, hl⟩ := Replica.step_trace (local_genuine (fun p hp => reach_replica hS hp) hok ha) hr
  refine ⟨hv.1, ?_⟩
  by_cases hn : node = e.node
  · subst hn
    rw [Function.update_self, Replica.ballots_of_trace hl]
    exact List.mem_append_left _ hv.2
  · rw [Function.update_of_ne hn]
    exact hv.2

lemma Votes.later (hS : Reachable cfg crypto byz S) (h : Reach (step cfg crypto) (Allowed cfg byz) S T)
    {id node : ℕ} {hash : Bytes} (hv : Votes cfg S id node hash) : Votes cfg T id node hash := by
  induction h with
  | start => exact hv
  | next e hr hok hs ih => exact ih.mono (hS.trans hr) hok hs

-- However the faulty replicas vote, at most one hash of a transaction id ever gets a quorum, wherever it is counted.
theorem quorums_agree (hS : Reachable cfg crypto byz S) (hT : Reach (step cfg crypto) (Allowed cfg byz) S T)
    (hn : cfg.nodeCnt % 3 = 1) (hf : byz.card ≤ cfg.minInvalidNodes) (hp : p < cfg.nodeCnt) (hq : q < cfg.nodeCnt)
    {id : ℕ} {hash hash' : Bytes} (hhash : cfg.nf ≤ (((S p).table id).votersOf hash).length)
    (hhash' : cfg.nf ≤ (((T q).table id).votersOf hash').length) : hash = hash' := by
  have hT' : Reachable cfg crypto byz T := hS.trans hT
  obtain ⟨A, hA, hca⟩ := exists_quorum hS hp ((Replica.distinct_reach (reach_replica hS hp) id).nodup hash)
    ((voting_reach hS p hp).counted id hash) hhash
  obtain ⟨B, hB, hcb⟩ := exists_quorum hT' hq ((Replica.distinct_reach (reach_replica hT' hq) id).nodup hash')
    ((voting_reach hT' q hq).counted id hash') hhash'
  exact quorum_hash_unique hT' hn hf hA hB (hca.mono fun _ hv => hv.later hS hT) hcb

-- The slots of correct replicas do not change their hash after a quorum.
def Settled (cfg : Config) (crypto : Crypto) (byz : Finset ℕ) (S : System) (e : Event) : Prop :=
  Allowed cfg byz S e ∧ ∀ a ∈ e.local S, (S e.node).HashSettled cfg crypto a

instance (S : System) (e : Event) : Decidable (Settled cfg crypto byz S e) := inferInstanceAs (Decidable (_ ∧ _))

lemma counted_reach (h : Reach (step cfg crypto) (Settled cfg crypto byz) (init cfg) S) (hp : p < cfg.nodeCnt) :
    (S p).Counted cfg := by
  induction h generalizing p with
  | start =>
    refine ⟨fun _ => voteInv_of_recycled recycled_default, ?_⟩
    intro i v id qc voters hmem
    cases hmem
  | @next S T e hS hok hs ih =>
    have hreach : Reachable cfg crypto byz S := hS.mono fun _ _ h => h.1
    obtain ⟨a, r, ha, hr, rfl⟩ := step_cases hs
    by_cases hpe : p = e.node
    · subst hpe
      rw [Function.update_self]
      refine (ih hp).step ?_ ⟨local_genuine (fun p hp => reach_replica hreach hp) hok.1 ha, hok.2 a ha⟩ hr
      rw [Replica.nodeId_reach cfg crypto (reach_replica hreach hp)]
      exact hp
    · rw [Function.update_of_ne hpe]
      exact ih hp

-- As long as the slots of the correct replicas keep to their quorums, all certificates for a transaction id are for one hash.
theorem certificates_agree (h : Reach (step cfg crypto) (Settled cfg crypto byz) (init cfg) S)
    (hn : cfg.nodeCnt % 3 = 1) (hf : byz.card ≤ cfg.minInvalidNodes) (hp : p < cfg.nodeCnt) (hq : q < cfg.nodeCnt)
    {i j v w id : ℕ} {qc qc' : QuorumCertificate} {voters voters' : List ℕ}
    (hqc : .advanced i v id qc voters ∈ (S p).trace) (hqc' : .advanced j w id qc' voters' ∈ (S q).trace) :
    qc.batchHash = qc'.batchHash := by
  have hreach : Reachable cfg crypto byz S := h.mono fun _ _ h => h.1
  obtain ⟨hnodup, -, hlen⟩ := (counted_reach h hp).built i v id qc voters hqc
  obtain ⟨hnodup', -, hlen'⟩ := (counted_reach h hq).built j w id qc' voters' hqc'
  obtain ⟨A, hA, hca⟩ := exists_quorum hreach hp hnodup ((voting_reach hreach p hp).built i v id qc voters hqc) hlen
  obtain ⟨B, hB, hcb⟩ :=
    exists_quorum hreach hq hnodup' ((voting_reach hreach q hq).built j w id qc' voters' hqc') hlen'
  exact quorum_hash_unique hreach hn hf hA hB hca hcb

section Runs

-- The faulty replica 0 leads the slot; replicas 1 and 2 get its messages, and replica 1 the votes.
def firstQuorum (m : ProposalMsg) : List Event :=
  let g := slotGeneric .fourReplicas .transparent 0 0 m.hash (genesisQC .PREPARE)
  [.inject 1 (.proposal m), .inject 1 (.generic g), .inject 2 (.proposal m), .inject 2 (.generic g), .relay 1 2 0,
    .inject 1 (.sync (slotVote .fourReplicas 0 0 m.hash 0))]

-- Replica 2 gets the votes later.
def secondQuorum (m : ProposalMsg) : List Event :=
  [.relay 2 1 1, .inject 2 (.sync (slotVote .fourReplicas 0 0 m.hash 0))]

def fillMessage : ProposalMsg :=
  slotProposal .fourReplicas .transparent 0 0 (List.replicate 5 ⟨[⟨7, 1⟩], 3, 9⟩)

theorem quorums_agree_later :
    ∃ S T : System, Reachable .fourReplicas .transparent {0} S ∧
      Reach (step .fourReplicas .transparent) (Allowed .fourReplicas {0}) S T ∧
      ((S 1).table 4).votersOf fillMessage.hash = [1, 2, 0] ∧ ((T 2).table 4).votersOf fillMessage.hash = [2, 1, 0] ∧
      ∀ hash, Config.fourReplicas.nf ≤ (((T 2).table 4).votersOf hash).length → fillMessage.hash = hash := by
  let cfg := Config.fourReplicas
  obtain ⟨S, hS, hp⟩ := exists_reach_of_runWith (step cfg .transparent) (Allowed cfg {0}) (init cfg)
    (firstQuorum fillMessage)
    (fun S => decide (((S 1).table 4).votersOf fillMessage.hash = [1, 2, 0]) &&
      (runWith (step cfg .transparent) (Allowed cfg {0}) S (secondQuorum fillMessage)).any fun T : System =>
        decide (((T 2).table 4).votersOf fillMessage.hash = [2, 1, 0])) (by decide +kernel)
  obtain ⟨hvoters, hlater⟩ := Bool.and_eq_true_iff.mp hp
  have hvoters := of_decide_eq_true hvoters
  obtain ⟨T, hT, hp⟩ := exists_reach_of_runWith (step cfg .transparent) (Allowed cfg {0}) S
    (secondQuorum fillMessage) _ hlater
  refine ⟨S, T, hS, hT, hvoters, of_decide_eq_true hp, fun hash hlen => ?_⟩
  refine quorums_agree hS hT (by decide) (by decide) (by decide : 1 < 4) (by decide : 2 < 4) ?_ hlen
  rw [hvoters]
  decide

def certifies (id : ℕ) (voters : List ℕ) : Obs → Bool
  | .advanced i v id' _ voters' => decide (i = 0 ∧ v = 0 ∧ id' = id ∧ voters' = voters)
  | _ => false

lemma exists_certificate {r : Replica} {id : ℕ} {voters : List ℕ} (h : r.trace.any (certifies id voters) = true) :
    ∃ qc, .advanced 0 0 id qc voters ∈ r.trace := by
  obtain ⟨o, ho, heq⟩ := List.any_eq_true.mp h
  cases o with
  | advanced =>
    obtain ⟨rfl, rfl, rfl, rfl⟩ := of_decide_eq_true heq
    exact ⟨_, ho⟩
  | _ => cases heq

theorem certificates_agree_first_slot :
    ∃ S : System, Reach (step .fourReplicas .transparent) (Settled .fourReplicas .transparent {0})
      (init .fourReplicas) S ∧ ∃ qc qc', .advanced 0 0 4 qc [1, 2, 0] ∈ (S 1).trace ∧
      .advanced 0 0 4 qc' [2, 1, 0] ∈ (S 2).trace ∧ qc.batchHash = qc'.batchHash := by
  let cfg := Config.fourReplicas
  obtain ⟨S, hS, hp⟩ := exists_reach_of_runWith (step cfg .transparent) (Settled cfg .transparent {0}) (init cfg)
    (firstQuorum fillMessage ++ secondQuorum fillMessage)
    (fun S : System => (S 1).trace.any (certifies 4 [1, 2, 0]) && (S 2).trace.any (certifies 4 [2, 1, 0]))
    (by decide +kernel)
  obtain ⟨hone, htwo⟩ := Bool.and_eq_true_iff.mp hp
  obtain ⟨qc, hqc⟩ := exists_certificate hone
  obtain ⟨qc', hqc'⟩ := exists_certificate htwo
  exact ⟨S, hS, qc, qc', hqc, hqc',
    certificates_agree hS (by decide) (by decide) (by decide : 1 < 4) (by decide : 2 < 4) hqc hqc'⟩

end Runs

end System

end SpotLess
