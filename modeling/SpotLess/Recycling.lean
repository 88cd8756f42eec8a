import SpotLess.Shares
import SpotLess.Checkpoint

/-! What `TxnManPool` makes of a manager that is given back and handed out again. The senders heard and the shares are
cleared only where the identifier ends a batch, so a vote counted for any other identifier outlives its manager. -/

namespace SpotLess

open Lib

def QuorumCertificate.release (qc : QuorumCertificate) : QuorumCertificate :=
  { qc with batchHash := [], parentHash := [], grandHash := [], signatureShareMap := ∅ }

-- A `TxnManager` object with what the pool and the checkpoint threads keep in it.
structure Pooled where
  txnId : ℕ
  core : TxnManager
  chkpt : Checkpoint.TxnManager

namespace Pooled

-- `threads` is `g_total_thread_cnt`: there is one pool for each remainder.
variable (cfg : Config) (me threads : ℕ)

def EndsBatch (id : ℕ) : Prop := add64 id 1 % cfg.batchSize = 0

instance (id : ℕ) : Decidable (EndsBatch cfg id) := inferInstanceAs (Decidable (_ = _))

def releaseAllMessages (id : ℕ) (t : TxnManager) : TxnManager :=
  if EndsBatch cfg id then
    { t with voteNewView := [], genericQC := t.genericQC.release, highQC := t.highQC.release }
  else t

-- The query goes back to its own pool, the requests with it.
def release (p : Pooled) : Pooled where
  txnId := p.txnId
  core := releaseAllMessages cfg p.txnId
    { p.core with
      requests := []
      hash := []
      newViewed := false
      newViewVoteCnt := 0
      hashVoters := ∅
      genericReceived := false
      proposalReceived := false
      syncSent := false }
  chkpt := { chkptCnt := 1, chkptFlag := false, txnReady := true }

def init (p : Pooled) : Pooled where
  txnId := p.txnId
  core :=
    { p.core with
      requests := []
      returnId := 2 ^ 64 - 1
      newViewVoteCnt := 0
      genericReceived := false
      proposalReceived := false }
  chkpt := { chkptCnt := 1, chkptFlag := false, txnReady := true }

-- `get` on an empty pool constructs a manager, `get` on any other takes one that was `put` there.
def construct (id : ℕ) : Pooled := init ⟨id, {}, {}⟩

def recycle (p : Pooled) (id : ℕ) : Option Pooled :=
  if id % threads = p.txnId % threads then some { (p.release cfg).init with txnId := id } else none

inductive Handling
  | act (a : TxnManager.Act)
  | execute
  | checkpoint

def countCheckpoint (m : Checkpoint.TxnManager) : Checkpoint.TxnManager :=
  if m.chkptFlag then m
  else if sub64 m.chkptCnt 1 = 0 then { m with chkptCnt := 0, chkptFlag := true }
  else { m with chkptCnt := sub64 m.chkptCnt 1 }

-- Executing a transaction reads its manager.
def handle (p : Pooled) : Handling → Option Pooled
  | .act a => (p.core.act cfg me a).map fun t => { p with core := t }
  | .execute => some p
  | .checkpoint => some { p with chkpt := countCheckpoint p.chkpt }

abbrev Life := Run (handle cfg me) fun _ _ => True

structure Visible where
  hash : Bytes
  hashVoters : UMap Bytes (List ℕ)
  voteNewView : List ℕ
  newViewVoteCnt : ℕ
  newViewed : Bool
  syncSent : Bool
  proposalReceived : Bool
  genericReceived : Bool
  chkptCnt : ℕ
  chkptFlag : Bool
  shares : UMap ℕ Bytes
  requests : List Request

def visible (p : Pooled) : Visible where
  hash := p.core.hash
  hashVoters := p.core.hashVoters
  voteNewView := p.core.voteNewView
  newViewVoteCnt := p.core.newViewVoteCnt
  newViewed := p.core.newViewed
  syncSent := p.core.syncSent
  proposalReceived := p.core.proposalReceived
  genericReceived := p.core.genericReceived
  chkptCnt := p.chkpt.chkptCnt
  chkptFlag := p.chkpt.chkptFlag
  shares := p.core.genericQC.signatureShareMap
  requests := p.core.requests

def AsNew (p : Pooled) : Prop := p.visible = (construct p.txnId).visible

-- A vote is counted in the manager, or the replica keeps its own share there.
def Touches (t : TxnManager) : Handling → Prop
  | .act (.sync m) => t.OpenTo m
  | .act (.vote (some _)) => t.syncSent = false
  | _ => False

def Touched (p : Pooled) (es : List Handling) : Prop :=
  ∃ before e after q, es = before ++ e :: after ∧ Life cfg me p before q ∧ Touches q.core e

-- The managers the pool hands out as long as none is given back that a life has left its mark on.
inductive Handed : Pooled → Prop
  | new (id : ℕ) : Handed (construct id)
  | again {p q r : Pooled} {es : List Handling} {id : ℕ} (h : Handed p) (hlife : Life cfg me p es q)
      (hok : EndsBatch cfg q.txnId ∨ ¬ Touched cfg me p es) (hr : q.recycle cfg threads id = some r) : Handed r

variable {cfg me threads} {p q r : Pooled}

def Clean (t : TxnManager) : Prop := t.voteNewView = [] ∧ t.genericQC.signatureShareMap = ∅

lemma recycle_visible {id : ℕ} (hr : p.recycle cfg threads id = some r) : r.txnId = id ∧
    r.visible = { (construct id).visible with
      voteNewView := (releaseAllMessages cfg p.txnId p.core).voteNewView
      shares := (releaseAllMessages cfg p.txnId p.core).genericQC.signatureShareMap } := by
  simp only [recycle] at hr
  split_ifs at hr
  obtain rfl := Option.some.inj hr
  refine ⟨rfl, ?_⟩
  simp only [release, releaseAllMessages]
  split_ifs <;> rfl

lemma asNew_recycle_iff {id : ℕ} (hr : p.recycle cfg threads id = some r) :
    r.AsNew ↔ EndsBatch cfg p.txnId ∨ Clean p.core := by
  obtain ⟨hid, hvisible⟩ := recycle_visible hr
  have hnew : r.AsNew ↔ Clean (releaseAllMessages cfg p.txnId p.core) := by
    rw [AsNew, hvisible, hid, Visible.mk.injEq]
    simp [visible, construct, init, Clean]
  rw [hnew, releaseAllMessages]
  split_ifs with hends
  · exact iff_of_true ⟨rfl, rfl⟩ (.inl hends)
  · exact (or_iff_right hends).symm

lemma AsNew.clean (h : p.AsNew) : Clean p.core :=
  ⟨congrArg Visible.voteNewView h, congrArg Visible.shares h⟩

lemma countSync_closed {t : TxnManager} {m : SyncMsg} (h : ¬ t.OpenTo m) : t.countSync cfg me m = t := by
  rw [TxnManager.countSync]
  split_ifs with hh
  · rfl
  · have hviewed : t.newViewed = true := by
      by_contra hv
      exact h ⟨Bool.not_eq_true _ ▸ hv, by tauto⟩
    rw [Replica.hotstuffNewViewed, if_pos hviewed]

lemma countSync_heard {t : TxnManager} {m : SyncMsg} (h : t.OpenTo m) : (t.countSync cfg me m).voteNewView ≠ [] := by
  have hh : ¬ (t.hash ≠ [] ∧ m.hash ≠ t.hash) := fun hh => TxnManager.not_openTo hh h
  have hseed : (t.seedVotes me).voteNewView ≠ [] := by
    rw [TxnManager.seedVotes]
    split_ifs with hempty
    · exact List.cons_ne_nil _ _
    · exact hempty
  rw [TxnManager.countSync, if_neg hh]
  simp only [Replica.hotstuffNewViewed]
  split_ifs with hviewed
  · rw [h.1] at hviewed
    cases hviewed
  · exact hseed
  · exact List.append_ne_nil_of_right_ne_nil _ (List.cons_ne_nil _ _)
  · exact List.append_ne_nil_of_right_ne_nil _ (List.cons_ne_nil _ _)

lemma clean_ownVote {t : TxnManager} (share : Option Bytes) :
    Clean (t.ownVote cfg me share) ↔ Clean t ∧ ¬ Touches t (.act (.vote share)) := by
  rw [TxnManager.ownVote]
  split_ifs with hsent
  · cases share <;> simp [Touches, hsent]
  · obtain ⟨_, _, _, heq⟩ := @Replica.castVote_eq cfg { t.keepShare me share with syncSent := true } me
    rw [heq]
    cases share with
    | none => simp [Touches, Clean, TxnManager.keepShare]
    | some sig =>
      have hne : t.genericQC.signatureShareMap.insert me sig ≠ ∅ := by
        intro hempty
        exact AList.notMem_empty me (hempty ▸ (AList.mem_insert _).mpr (.inl rfl))
      simp [Touches, Clean, TxnManager.keepShare, hsent, hne]

lemma clean_act {t t' : TxnManager} {a : TxnManager.Act} (hs : t.act cfg me a = some t') :
    Clean t' ↔ Clean t ∧ ¬ Touches t (.act a) := by
  cases a with
  | sync m =>
    obtain rfl := Option.some.inj hs
    by_cases hopen : t.OpenTo m
    · refine iff_of_false (fun hc => countSync_heard hopen hc.1) fun hc => hc.2 hopen
    · rw [countSync_closed hopen]
      exact (and_iff_left hopen).symm
  | fill returnId view i qry =>
    obtain ⟨_, _, _, rfl⟩ := Replica.initTxnMan_filled hs
    exact (and_iff_left id).symm
  | generic m =>
    obtain rfl := Option.some.inj hs
    have hsame : Clean (Replica.acceptGeneric t m) ↔ Clean t := by
      simp only [Replica.acceptGeneric]
      split_ifs <;> rfl
    rw [hsame]
    exact (and_iff_left id).symm
  | vote share =>
    obtain rfl := Option.some.inj hs
    exact clean_ownVote share
  | _ =>
    obtain rfl := Option.some.inj hs
    exact (and_iff_left id).symm

lemma clean_handle {e : Handling} (hs : p.handle cfg me e = some q) :
    Clean q.core ↔ Clean p.core ∧ ¬ Touches p.core e := by
  cases e with
  | act a =>
    obtain ⟨t, ht, rfl⟩ := Option.map_eq_some_iff.mp hs
    exact clean_act ht
  | execute =>
    obtain rfl := Option.some.inj hs
    exact (and_iff_left id).symm
  | checkpoint =>
    obtain rfl := Option.some.inj hs
    exact (and_iff_left id).symm

lemma touched_append {es : List Handling} {e : Handling} (h : Life cfg me p es q) :
    Touched cfg me p (es ++ [e]) ↔ Touched cfg me p es ∨ Touches q.core e := by
  constructor
  · rintro ⟨before, f, after, u, heq, hu, hf⟩
    rcases snoc_eq_append_cons heq with ⟨rfl, rfl, -⟩ | ⟨after, -, rfl⟩
    · exact .inr (h.unique hu ▸ hf)
    · exact .inl ⟨before, f, after, u, rfl, hu, hf⟩
  · rintro (⟨before, f, after, u, rfl, hu, hf⟩ | he)
    · exact ⟨before, f, after ++ [e], u, by simp, hu, hf⟩
    · exact ⟨es, e, [], q, rfl, h, he⟩

lemma clean_life {es : List Handling} (h : Life cfg me p es q) : Clean q.core ↔ Clean p.core ∧ ¬ Touched cfg me p es := by
  induction h with
  | start =>
    refine (and_iff_left ?_).symm
    rintro ⟨before, e, after, u, heq, -⟩
    simp at heq
  | next e hr _ hs ih =>
    rw [clean_handle hs, ih, touched_append hr]
    tauto

lemma Handed.asNew (h : Handed cfg me threads p) : p.AsNew := by
  induction h with
  | new id => rfl
  | again _ hlife hok hr ih =>
    rw [asNew_recycle_iff hr, clean_life hlife]
    exact hok.imp_right fun ht => ⟨ih.clean, ht⟩

theorem recycled_as_new_iff {es : List Handling} (h : Handed cfg me threads p) (hlife : Life cfg me p es q) :
    p.AsNew ∧ ∀ id r, q.recycle cfg threads id = some r →
      (r.AsNew ↔ EndsBatch cfg q.txnId ∨ ¬ Touched cfg me p es) := by
  refine ⟨h.asNew, fun id r hr => ?_⟩
  rw [asNew_recycle_iff hr, clean_life hlife, and_iff_right h.asNew.clean]

theorem recycled_as_new_iff_end_of_batch :
    ∃ q r, Life .fourReplicas 1 (construct 4)
        [.act (.sync (TxnManager.voteFrom 3 [8])), .act (.propose [7]), .execute, .checkpoint] q ∧
      q.core.voteNewView = [1, 3] ∧ q.recycle .fourReplicas 16 52 = some r ∧ r.AsNew := by
  obtain ⟨q, hlife, hq⟩ := exists_run_of_runWith (handle .fourReplicas 1) (fun _ _ => True) (construct 4)
    [.act (.sync (TxnManager.voteFrom 3 [8])), .act (.propose [7]), .execute, .checkpoint]
    (fun q => q.core.voteNewView = [1, 3] ∧ q.txnId = 4) (by decide +kernel)
  obtain ⟨hvotes, hid⟩ := of_decide_eq_true hq
  have hr : q.recycle .fourReplicas 16 52 = some { (q.release .fourReplicas).init with txnId := 52 } := by
    rw [recycle, hid]
    rfl
  have hnew : Handed .fourReplicas 1 16 (construct 4) := .new 4
  refine ⟨q, _, hlife, hvotes, hr, ((recycled_as_new_iff hnew hlife).2 52 _ hr).mpr (.inl ?_)⟩
  rw [hid]
  decide

-- Replica 3 votes for transaction 1, which no slot ends with; its vote is on record in the next life.
theorem vote_outlives_manager :
    ∃ q r, Life .fourReplicas 1 (construct 1) [.act (.sync (TxnManager.voteFrom 3 [8])), .execute] q ∧
      q.recycle .fourReplicas 16 49 = some r ∧ r.core.voteNewView = [1, 3] ∧ r.core.HasShare 3 ∧ ¬ r.AsNew := by
  obtain ⟨q, hlife, hq⟩ := exists_run_of_runWith (handle .fourReplicas 1) (fun _ _ => True) (construct 1)
    [.act (.sync (TxnManager.voteFrom 3 [8])), .execute]
    (fun q => (q.recycle .fourReplicas 16 49).any fun r => r.core.voteNewView = [1, 3] ∧ r.core.HasShare 3)
    (by decide +kernel)
  obtain ⟨r, hr, hlast⟩ := (Option.any_eq_true _ _).mp hq
  obtain ⟨hvotes, hshare⟩ := of_decide_eq_true hlast
  refine ⟨q, r, hlife, hr, hvotes, hshare, fun hnew => ?_⟩
  rw [hnew.clean.1] at hvotes
  cases hvotes

end Pooled

end SpotLess
