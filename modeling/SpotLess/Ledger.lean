import SpotLess.Growth

namespace SpotLess

open Lib

namespace TxnManager

-- `propose` and `generic` are accepted messages; the share of `vote` is the one the next primary keeps.
inductive Act
  | sync (m : SyncMsg)
  | fill (returnId view i : ℕ) (qry : ClientQuery)
  | propose (hash : Bytes)
  | generic (m : GenericMsg)
  | announce (highQC : QuorumCertificate)
  | vote (share : Option Bytes)
  | certify (view : ℕ)

section Act

variable (cfg : Config) (me : ℕ)

def countSync (t : TxnManager) (m : SyncMsg) : TxnManager :=
  if t.hash ≠ [] ∧ m.hash ≠ t.hash then t else (Replica.hotstuffNewViewed cfg t me m).1

def keepShare (t : TxnManager) (share : Option Bytes) : TxnManager :=
  match share with
  | some sig =>
    { t with genericQC := { t.genericQC with
        signatureShareMap := t.genericQC.signatureShareMap.insert me sig } }
  | none => t

def ownVote (t : TxnManager) (share : Option Bytes) : TxnManager :=
  if t.syncSent then t
  else Replica.castVote cfg { t.keepShare me share with syncSent := true } me

def act (t : TxnManager) : Act → Option TxnManager
  | .sync m => some (t.countSync cfg me m)
  | .fill returnId view i qry =>
    ({ t with returnId := returnId, view := view, instanceId := i } : TxnManager).initTxnMan cfg qry
  | .propose hash => some { t with hash := hash, proposalReceived := true }
  | .generic m => some (Replica.acceptGeneric t m)
  | .announce highQC => some { t with highQC := highQC, genericReceived := true }
  | .vote share => some (t.ownVote cfg me share)
  | .certify view => some { t with genericQC := Replica.genericQCOf t view }

def FromOthers (_ : TxnManager) : Act → Prop
  | .sync m => m.returnNodeId ≠ me
  | _ => True

instance : (t : TxnManager) → (a : Act) → Decidable (FromOthers me t a)
  | _, .sync _ => inferInstanceAs (Decidable (_ ≠ _))
  | _, .fill _ _ _ _ | _, .propose _ | _, .generic _ | _, .announce _ | _, .vote _ | _, .certify _ =>
    inferInstanceAs (Decidable True)

end Act

structure Ledger (nf me : ℕ) (t : TxnManager) : Prop where
  nodup : ∀ h, (t.votersOf h).Nodup
  disjoint : ∀ h h', h ≠ h' → (t.votersOf h).Disjoint (t.votersOf h')
  heard : ∀ h, ∀ s ∈ t.votersOf h, s ≠ me → t.voteNewView.count s = 1
  largest : ∀ h, (t.votersOf h).length ≤ t.newViewVoteCnt
  attained : ∃ h, (t.votersOf h).length = t.newViewVoteCnt
  viewed : t.newViewed = true ↔ nf ≤ t.newViewVoteCnt

-- The ledger with what its upkeep rests on: senders are recorded once, and the own vote is counted once.
structure Kept (nf me : ℕ) (t : TxnManager) : Prop extends Ledger nf me t where
  senders : t.voteNewView.Nodup
  silent : t.syncSent = false → ∀ h, me ∉ t.votersOf h

variable {cfg : Config} {nf me : ℕ} {t t' : TxnManager}

lemma kept_init (cfg : Config) (me : ℕ) : ({} : TxnManager).Kept cfg.nf me where
  nodup _ := List.nodup_nil
  disjoint _ _ _ := List.disjoint_nil_left _
  heard _ s hs := absurd hs List.not_mem_nil
  largest _ := le_rfl
  attained := ⟨[], rfl⟩
  viewed := by
    have hpos := cfg.nf_pos
    simp only [Bool.false_eq_true, false_iff, Nat.not_le]
    exact hpos
  senders := List.nodup_nil
  silent _ _ := List.not_mem_nil

lemma Kept.congr (h : t.Kept nf me) (heq : t'.syncSent = t.syncSent ∧ t'.newViewed = t.newViewed ∧
    t'.newViewVoteCnt = t.newViewVoteCnt ∧ t'.voteNewView = t.voteNewView ∧ t'.hashVoters = t.hashVoters) :
    t'.Kept nf me := by
  obtain ⟨hsent, hviewed, hcnt, hheard, hvoters⟩ := heq
  have hof : t'.votersOf = t.votersOf := by
    funext hash
    rw [votersOf, hvoters, votersOf]
  constructor
  · constructor
    · rw [hof]
      exact h.nodup
    · rw [hof]
      exact h.disjoint
    · rw [hof, hheard]
      exact h.heard
    · rw [hof, hcnt]
      exact h.largest
    · rw [hof, hcnt]
      exact h.attained
    · rw [hviewed, hcnt]
      exact h.viewed
  · rw [hheard]
    exact h.senders
  · rw [hsent, hof]
    exact h.silent

lemma Kept.seedVotes (h : t.Kept nf me) : (t.seedVotes me).Kept nf me := by
  have hof : (t.seedVotes me).votersOf = t.votersOf := by
    funext hash
    rw [votersOf, seedVotes_hashVoters, votersOf]
  constructor
  · constructor
    · rw [hof]
      exact h.nodup
    · rw [hof]
      exact h.disjoint
    · intro hash s hs hne
      rw [hof] at hs
      have hcount := h.heard hash s hs hne
      simp only [TxnManager.seedVotes]
      split_ifs with hempty
      · rw [hempty] at hcount
        simp at hcount
      · exact hcount
    · rw [hof, seedVotes_newViewVoteCnt]
      exact h.largest
    · rw [hof, seedVotes_newViewVoteCnt]
      exact h.attained
    · rw [seedVotes_newViewed, seedVotes_newViewVoteCnt]
      exact h.viewed
  · simp only [TxnManager.seedVotes]
    split_ifs
    · exact List.nodup_singleton me
    · exact h.senders
  · rw [seedVotes_syncSent, hof]
    exact h.silent

lemma Kept.push (h : t.Kept nf me) {hash : Bytes} {node : ℕ} (hnode : ∀ h', node ∉ t.votersOf h')
    (hvoters : t'.hashVoters = (t.pushVoter hash node).hashVoters)
    (hcnt : t'.newViewVoteCnt = (t.pushVoter hash node).newViewVoteCnt)
    (hviewed : t'.newViewed = true ↔ t.newViewed = true ∨ t'.newViewVoteCnt = nf)
    (hsenders : t'.voteNewView.Nodup) (hheard : ∀ s, t.voteNewView.count s = 1 → t'.voteNewView.count s = 1)
    (hnew : node ≠ me → t'.voteNewView.count node = 1)
    (hsilent : t'.syncSent = false → t.syncSent = false ∧ node ≠ me) : t'.Kept nf me := by
  have hof : ∀ h', t'.votersOf h' = if h' = hash then t.votersOf hash ++ [node] else t.votersOf h' := by
    intro h'
    rw [votersOf, hvoters, ← votersOf, votersOf_pushVoter]
  have hmem : ∀ h' s, s ∈ t'.votersOf h' → s ∈ t.votersOf h' ∨ s = node ∧ h' = hash := by
    intro h' s hs
    rw [hof] at hs
    split_ifs at hs with heq
    · rcases List.mem_append.mp hs with hs | hs
      · exact .inl (heq ▸ hs)
      · exact .inr ⟨List.mem_singleton.mp hs, heq⟩
    · exact .inl hs
  have hcnt' : t'.newViewVoteCnt = max t.newViewVoteCnt ((t.votersOf hash).length + 1) := by
    rw [hcnt, pushVoter, List.length_append, List.length_singleton]
  have hbound := h.largest hash
  constructor
  · constructor
    · intro h'
      rw [hof]
      split_ifs
      · refine List.Nodup.append (h.nodup hash) (List.nodup_singleton node) ?_
        rw [List.disjoint_singleton]
        exact hnode hash
      · exact h.nodup h'
    · intro h₁ h₂ hne s hs₁ hs₂
      rcases hmem h₁ s hs₁ with hs₁ | ⟨rfl, rfl⟩
      · rcases hmem h₂ s hs₂ with hs₂ | ⟨rfl, rfl⟩
        · exact h.disjoint h₁ h₂ hne hs₁ hs₂
        · exact hnode h₁ hs₁
      · rcases hmem h₂ s hs₂ with hs₂ | ⟨-, heq⟩
        · exact hnode h₂ hs₂
        · exact hne heq.symm
    · intro h' s hs hne
      rcases hmem h' s hs with hs | ⟨rfl, -⟩
      · exact hheard s (h.heard h' s hs hne)
      · exact hnew hne
    · intro h'
      rw [hof, hcnt']
      split_ifs
      · simp
      · exact (h.largest h').trans (le_max_left _ _)
    · rw [hcnt']
      rcases Nat.lt_or_ge (t.votersOf hash).length t.newViewVoteCnt with hlt | hge
      · -- the list that was largest is another one
        obtain ⟨h', hh'⟩ := h.attained
        refine ⟨h', ?_⟩
        have hne : h' ≠ hash := by
          rintro rfl
          omega
        rw [hof, if_neg hne, hh']
        omega
      · refine ⟨hash, ?_⟩
        rw [hof, if_pos rfl, List.length_append, List.length_singleton]
        omega
    · rw [hviewed, h.viewed]
      omega
  · exact hsenders
  · intro hs h' hin
    obtain ⟨hs, hne⟩ := hsilent hs
    rcases hmem h' me hin with hin | ⟨heq, -⟩
    · exact h.silent hs h' hin
    · exact hne heq.symm

lemma Kept.hotstuffNewViewed (h : t.Kept cfg.nf me) {m : SyncMsg} (hm : m.returnNodeId ≠ me) :
    (Replica.hotstuffNewViewed cfg t me m).1.Kept cfg.nf me := by
  have hshare : ((t.seedVotes me).storeShare m.returnNodeId m.hash m.sigShare).Kept cfg.nf me :=
    h.seedVotes.congr ⟨by simp, by simp, by simp, by simp, by simp⟩
  simp only [Replica.hotstuffNewViewed]
  split_ifs with hviewed hold hq
  · exact h
  · exact h.seedVotes
  all_goals
    have hfresh : m.returnNodeId ∉
        ((t.seedVotes me).storeShare m.returnNodeId m.hash m.sigShare).voteNewView := by
      rw [storeShare_voteNewView]
      exact hold
    have hnode : ∀ h', m.returnNodeId ∉
        ((t.seedVotes me).storeShare m.returnNodeId m.hash m.sigShare).votersOf h' := by
      intro h' hin
      exact hfresh (List.count_pos_iff.mp (by rw [hshare.heard h' _ hin hm]; exact Nat.one_pos))
    have hsenders : ∀ l : List ℕ, l.Nodup → m.returnNodeId ∉ l → (l ++ [m.returnNodeId]).Nodup := by
      intro l hl hnin
      exact List.Nodup.append hl (List.nodup_singleton _) (by rwa [List.disjoint_singleton])
    have hheard : ∀ l : List ℕ, m.returnNodeId ∉ l → ∀ s, l.count s = 1 → (l ++ [m.returnNodeId]).count s = 1 := by
      intro l hnin s hs
      have hne : m.returnNodeId ≠ s := by
        rintro rfl
        exact hnin (List.count_pos_iff.mp (by rw [hs]; exact Nat.one_pos))
      rw [List.count_append, hs, List.count_singleton, if_neg (by simpa using hne)]
    have hnew : ∀ l : List ℕ, m.returnNodeId ∉ l → (l ++ [m.returnNodeId]).count m.returnNodeId = 1 := by
      intro l hnin
      rw [List.count_append, List.count_eq_zero.mpr hnin, List.count_singleton_self]
  · refine hshare.push hnode rfl rfl ?_ (hsenders _ hshare.senders hfresh) (hheard _ hfresh)
      (fun _ => hnew _ hfresh) (fun hs => ⟨hs, hm⟩)
    exact iff_of_true rfl (.inr hq)
  · refine hshare.push hnode rfl rfl ?_ (hsenders _ hshare.senders hfresh) (hheard _ hfresh)
      (fun _ => hnew _ hfresh) (fun hs => ⟨hs, hm⟩)
    exact (or_iff_left hq).symm

lemma Kept.ownVote (h : t.Kept cfg.nf me) (share : Option Bytes) : (t.ownVote cfg me share).Kept cfg.nf me := by
  simp only [TxnManager.ownVote]
  split_ifs with hsent
  · exact h
  · have hkeep : (t.keepShare me share).Kept cfg.nf me := by
      refine h.congr ?_
      cases share <;> exact ⟨rfl, rfl, rfl, rfl, rfl⟩
    have hsilent : (t.keepShare me share).syncSent = false := by
      cases share <;> exact Bool.not_eq_true _ ▸ hsent
    simp only [Replica.castVote]
    split_ifs with hq
    · refine hkeep.push (hkeep.silent hsilent) rfl rfl ?_ hkeep.senders (fun s hs => hs) (fun hne => absurd rfl hne) ?_
      · exact iff_of_true rfl (.inr hq)
      · intro hs
        cases hs
    · refine hkeep.push (hkeep.silent hsilent) rfl rfl ?_ hkeep.senders (fun s hs => hs) (fun hne => absurd rfl hne) ?_
      · exact (or_iff_left hq).symm
      · intro hs
        cases hs

lemma Kept.act (h : t.Kept cfg.nf me) {a : Act} (ha : FromOthers me t a) (hs : t.act cfg me a = some t') :
    t'.Kept cfg.nf me := by
  cases a with
  | sync m =>
    obtain rfl := Option.some.inj hs
    rw [countSync]
    split_ifs
    · exact h
    · exact h.hotstuffNewViewed ha
  | fill returnId view i qry =>
    obtain ⟨_, _, _, rfl⟩ := Replica.initTxnMan_filled hs
    exact h.congr ⟨rfl, rfl, rfl, rfl, rfl⟩
  | propose hash =>
    obtain rfl := Option.some.inj hs
    exact h.congr ⟨rfl, rfl, rfl, rfl, rfl⟩
  | generic m =>
    obtain rfl := Option.some.inj hs
    refine h.congr ?_
    simp only [Replica.acceptGeneric]
    split_ifs <;> exact ⟨rfl, rfl, rfl, rfl, rfl⟩
  | announce highQC =>
    obtain rfl := Option.some.inj hs
    exact h.congr ⟨rfl, rfl, rfl, rfl, rfl⟩
  | vote share =>
    obtain rfl := Option.some.inj hs
    exact h.ownVote share
  | certify view =>
    obtain rfl := Option.some.inj hs
    exact h.congr ⟨rfl, rfl, rfl, rfl, rfl⟩

lemma kept_reach (h : Reach (act cfg me) (FromOthers me) {} t) : t.Kept cfg.nf me := by
  refine h.invariant (Kept cfg.nf me) (kept_init cfg me) ?_
  intro t a t' _ ha hs ht
  exact ht.act ha hs

theorem ledger_kept (h : Reach (act cfg me) (FromOthers me) {} t) : t.Ledger cfg.nf me := (kept_reach h).toLedger

def voteFrom (node : ℕ) (hash : Bytes) : SyncMsg :=
  { slotVote .fourReplicas 0 0 hash node with sigShare := some [] }

-- Replica 2 votes for two hashes and twice for one of them; the replica's own vote makes the quorum.
theorem ledger_kept_equivocation :
    ∃ t, Reach (act .fourReplicas 1) (FromOthers 1) {} t ∧ (t.newViewed = true ∧ t.votersOf [1] = [2]) ∧
      t.Ledger Config.fourReplicas.nf 1 := by
  obtain ⟨t, hr, ht⟩ := exists_reach_of_runWith (act .fourReplicas 1) (FromOthers 1) {}
    [.sync (voteFrom 2 [1]), .sync (voteFrom 2 [2]), .sync (voteFrom 0 [2]), .sync (voteFrom 3 [2]),
      .sync (voteFrom 2 [1]), .propose [2], .vote none]
    (fun t => t.newViewed ∧ t.votersOf [1] = [2]) (by decide +kernel)
  exact ⟨t, hr, of_decide_eq_true ht, ledger_kept hr⟩

end TxnManager

namespace Replica

open TxnManager

variable {cfg : Config} {crypto : Crypto} {r s : Replica} {p : ℕ}

abbrev Lives (cfg : Config) (me : ℕ) := Reach (TxnManager.act cfg me) (FromOthers me)

lemma Lives.one {me : ℕ} {t t' : TxnManager} (a : Act) (ha : FromOthers me t a) (h : t.act cfg me a = some t') :
    Lives cfg me t t' := .next a .start ha h

lemma fillManagers_lives {me : ℕ} {table table' : ℕ → TxnManager} {returnId view i : ℕ} {l : List (ℕ × ClientQuery)}
    (h : fillManagers cfg table returnId view i l = some table') (id : ℕ) : Lives cfg me (table id) (table' id) := by
  induction l generalizing table with
  | nil =>
    rw [Option.some.inj h]
    exact .start
  | cons e l ih =>
    simp only [fillManagers] at h
    split at h
    · rename_i t ht
      refine Reach.trans ?_ (ih h)
      by_cases hid : id = e.1
      · subst hid
        rw [Function.update_self]
        exact Lives.one (.fill returnId view i e.2) trivial ht
      · rw [Function.update_of_ne hid]
        exact .start
    · cases h

lemma lives_update {me id : ℕ} {t : TxnManager} (h : Lives cfg me (r.table id) t) (k : ℕ) :
    Lives cfg me (r.table k) (Function.update r.table id t k) := by
  by_cases hk : k = id
  · subst hk
    rwa [Function.update_self]
  · rw [Function.update_of_ne hk]
    exact .start

lemma lives_last {me last : ℕ} {table table' : ℕ → TxnManager} {hash : Bytes}
    (h : ∀ id, Lives cfg me (table id) (table' id)) (k : ℕ) :
    Lives cfg me (table k) (Function.update table' last { table' last with hash := hash, proposalReceived := true } k) := by
  refine (h k).trans ?_
  by_cases hk : k = last
  · subst hk
    rw [Function.update_self]
    exact Lives.one (.propose hash) trivial rfl
  · rw [Function.update_of_ne hk]
    exact .start

lemma sendHotstuffNewview_lives (r : Replica) (id k : ℕ) :
    Lives cfg r.nodeId (r.table k) ((r.sendHotstuffNewview cfg crypto id).table k) := by
  rcases sendHotstuffNewview_cases cfg crypto r id with ⟨_, heq⟩ | ⟨hsent, hc⟩
  · rw [heq]
    exact .start
  · rw [hc.table]
    refine lives_update ?_ k
    by_cases hd : r.nodeId = cfg.getViewPrimary ((r.inst (r.table id).instanceId).view + 1) (r.table id).instanceId
    · refine Lives.one (.vote (some (crypto.ecdsaSign r.nodeId
        (signedDigest crypto (r.table id).hash (r.table id).highQC)))) trivial ?_
      simp only [TxnManager.act, ownVote, keepShare, hsent, Bool.false_eq_true, if_false, ownShare, if_pos hd]
    · refine Lives.one (.vote none) trivial ?_
      simp only [TxnManager.act, ownVote, keepShare, hsent, Bool.false_eq_true, if_false, ownShare, if_neg hd]

lemma Move.lives {r₀ : Replica} {P : Msg → Prop} {Q : ℕ → Prop} {B : ℕ → ClientQueryBatch → Prop}
    (hm : Move cfg crypto P Q B r₀ r s) (hP : ∀ m, P m → m.returnNodeId ≠ r.nodeId) (k : ℕ) :
    Lives cfg r.nodeId (r.table k) (s.table k) ∨ (s.table k).Recycled := by
  cases hm with
  | idle hidle =>
    rw [hidle.table]
    exact .inl .start
  | proposal hP' _ hacc => exact .inl (lives_last (fillManagers_lives hacc.filled) k)
  | @generic _ m =>
    rw [storeGeneric_lockGeneric_table]
    exact .inl (lives_update (Lives.one (.generic m) trivial rfl) k)
  | @vote _ id => exact .inl (sendHotstuffNewview_lives r id k)
  | @count m hm hfresh hh =>
    rw [countVote_table]
    refine .inl (lives_update (Lives.one (.sync m) (hP _ hm) ?_) k)
    rw [TxnManager.act, countSync, if_neg (by tauto)]
  | @advance _ _ id _ _ _ ha =>
    rw [advanceView_table ha]
    exact .inl (lives_update (Lives.one (.certify _) trivial rfl) k)
  | batch _ _ hfill => exact .inl (lives_last (fillManagers_lives hfill) k)
  | @announce _ id => exact .inl (lives_update (Lives.one (.announce _) trivial rfl) k)
  | execute => exact .inl .start
  | @recycle id t _ ht =>
    by_cases hk : k = id
    · subst hk
      right
      rwa [setTxn_table, Function.update_self]
    · rw [setTxn_table, Function.update_of_ne hk]
      exact .inl .start

lemma lives_reach (h : Reach (step cfg crypto) (Genuine cfg) (init cfg p) r) (id : ℕ) :
    ∃ t : TxnManager, t.Recycled ∧ Lives cfg p t (r.table id) := by
  let P : Msg → Prop := fun m => m.returnNodeId ≠ p
  let I : Replica → Prop := fun r => r.nodeId = p ∧ (∀ i, ∀ m ∈ r.queues i, P (.generic m)) ∧
    ∀ id, ∃ t : TxnManager, t.Recycled ∧ Lives cfg p t (r.table id)
  have hall : I r := by
    refine h.invariant I ?_ ?_
    · refine ⟨rfl, fun i m hm => ?_, fun id => ⟨{}, recycled_default, .start⟩⟩
      cases hm
    · rintro r e s - he hs ⟨hnode, hparked, hlives⟩
      have hsup : Supplies cfg P (fun _ _ => True) r e := by
        cases e with
        | deliver m =>
          change m.returnNodeId ≠ p
          rw [← hnode]
          exact he.2.1
        | proposalThread => exact fun _ _ _ => trivial
        | recycle id t => exact he
        | _ => trivial
      have hmoves : Moves cfg crypto P (fun _ => True) (fun _ _ => True) r r s :=
        step_moves hsup hparked (fun _ _ => trivial) hs
      refine hmoves.invariant (I := I) ?_ ⟨hnode, hparked, hlives⟩
      rintro u v hmove ⟨hnode, hparked, hlives⟩
      refine ⟨hmove.nodeId.trans hnode, hmove.parked hparked, fun id => ?_⟩
      rcases hmove.lives (fun m hm => hnode ▸ hm) id with hl | hrec
      · obtain ⟨t, ht, hlt⟩ := hlives id
        exact ⟨t, ht, hlt.trans (hnode ▸ hl)⟩
      · exact ⟨v.table id, hrec, .start⟩
  exact hall.2.2 id

end Replica

end SpotLess
