import SpotLess.Ledger

/-! The shares a slot's next primary collects. Those stored before the slot's hash is known may belong to voters for
another hash; a received vote that completes the quorum drops them, the replica's own vote does not. -/

namespace SpotLess

open Lib

namespace TxnManager

def HasShare (t : TxnManager) (s : ℕ) : Prop := s ∈ t.genericQC.signatureShareMap

instance (t : TxnManager) (s : ℕ) : Decidable (t.HasShare s) := inferInstanceAs (Decidable (_ ∈ _))

def SharesOfVoters (nf me : ℕ) (t : TxnManager) : Prop :=
  ∃ h, nf ≤ (t.votersOf h).length ∧ (∀ h', nf ≤ (t.votersOf h').length → h' = h) ∧
    ∀ s, t.HasShare s → s ≠ me → s ∈ t.votersOf h

-- What the handlers check before they let a PROPOSAL or a GENERIC name the hash of the slot.
def Accepted (me : ℕ) (t : TxnManager) : Act → Prop
  | .sync m => m.returnNodeId ≠ me
  | .propose hash => t.proposalReceived = false ∧ (t.genericReceived = true → hash = t.hash)
  | .generic m => t.genericReceived = false ∧ (t.hash = [] ∨ t.hash = m.hash)
  | _ => True

instance (me : ℕ) : (t : TxnManager) → (a : Act) → Decidable (Accepted me t a)
  | _, .sync _ => inferInstanceAs (Decidable (_ ≠ _))
  | t, .propose hash => inferInstanceAs (Decidable (t.proposalReceived = false ∧ (t.genericReceived = true → hash = t.hash)))
  | t, .generic m => inferInstanceAs (Decidable (t.genericReceived = false ∧ (t.hash = [] ∨ t.hash = m.hash)))
  | _, .fill _ _ _ _ | _, .announce _ | _, .vote _ | _, .certify _ => inferInstanceAs (Decidable True)

def Act.names : Act → Bytes
  | .propose hash => hash
  | .generic m => m.hash
  | _ => []

-- A first vote that brought a share while the hash of the slot was not known.
structure Early (acts : List Act) (m : SyncMsg) : Prop where
  split : ∃ before after, acts = before ++ .sync m :: after ∧ (∀ a ∈ before, a.names = []) ∧
    ∀ m', .sync m' ∈ before → m'.returnNodeId ≠ m.returnNodeId
  share : m.sigShare.isSome = true

def Strayed (acts : List Act) (hash : Bytes) : Prop := ∃ m, Early acts m ∧ m.hash ≠ hash

lemma Early.append {acts : List Act} {m : SyncMsg} (h : Early acts m) (a : Act) : Early (acts ++ [a]) m := by
  obtain ⟨before, after, rfl, hnames, hfirst⟩ := h.split
  exact ⟨⟨before, after ++ [a], by simp, hnames, hfirst⟩, h.share⟩

lemma Early.of_append {acts : List Act} {a : Act} {m : SyncMsg} (h : Early (acts ++ [a]) m) :
    Early acts m ∨ a = .sync m ∧ (∀ b ∈ acts, b.names = []) ∧ ∀ m', .sync m' ∈ acts → m'.returnNodeId ≠ m.returnNodeId := by
  obtain ⟨before, after, heq, hnames, hfirst⟩ := h.split
  rcases snoc_eq_append_cons heq with ⟨rfl, rfl, -⟩ | ⟨after, -, rfl⟩
  · exact .inr ⟨rfl, hnames, hfirst⟩
  · exact .inl ⟨⟨before, after, rfl, hnames, hfirst⟩, h.share⟩

section Step

variable {cfg : Config} {me : ℕ} {t t' : TxnManager}

structure SameShares (t t' : TxnManager) : Prop where
  voters : ∀ h, t'.votersOf h = t.votersOf h
  shares : ∀ s, t'.HasShare s ↔ t.HasShare s
  viewed : t'.newViewed = t.newViewed

def OpenTo (t : TxnManager) (m : SyncMsg) : Prop := t.newViewed = false ∧ (t.hash = [] ∨ t.hash = m.hash)

lemma not_openTo {m : SyncMsg} (h : t.hash ≠ [] ∧ m.hash ≠ t.hash) : ¬ t.OpenTo m := by
  rintro ⟨-, hnil | heq⟩
  · exact h.1 hnil
  · exact h.2 heq.symm

structure CountsSync (t : TxnManager) (m : SyncMsg) (t' : TxnManager) : Prop where
  isOpen : t.OpenTo m
  fresh : m.returnNodeId ∉ t.voteNewView
  voters : ∀ h, t'.votersOf h = if h = m.hash then t.votersOf m.hash ++ [m.returnNodeId] else t.votersOf h
  stored : t'.newViewed = false → ∀ s, t'.HasShare s ↔ s = m.returnNodeId ∧ m.sigShare.isSome = true ∨ t.HasShare s
  cleaned : t'.newViewed = true → ∀ s, t'.HasShare s ↔
    (∀ h, h ≠ m.hash → s ∉ t.votersOf h) ∧ (s = m.returnNodeId ∧ m.sigShare.isSome = true ∨ t.HasShare s)

lemma hasShare_storeShare (t : TxnManager) {node : ℕ} {hash : Bytes} (share : Option Bytes)
    (hh : t.hash = [] ∨ t.hash = hash) (s : ℕ) :
    (t.storeShare node hash share).HasShare s ↔ s = node ∧ share.isSome = true ∨ t.HasShare s := by
  cases share with
  | none => simp [storeShare, HasShare]
  | some sig => simp [storeShare, HasShare, if_pos hh, AList.mem_insert]

lemma mem_others_iff (t : TxnManager) (hash : Bytes) (s : ℕ) :
    s ∈ ((t.hashVoters.entries.filter fun e => e.1 ≠ hash).flatMap fun e => e.2) ↔
      ∃ h, h ≠ hash ∧ s ∈ t.votersOf h := by
  simp only [List.mem_flatMap, List.mem_filter, decide_eq_true_eq]
  constructor
  · rintro ⟨⟨h, voters⟩, ⟨he, hne⟩, hs⟩
    have hlookup : t.hashVoters.lookup h = some voters := AList.mem_lookup_iff.mpr he
    exact ⟨h, hne, by rwa [votersOf, UMap.get_eq_of_lookup hlookup]⟩
  · rintro ⟨h, hne, hs⟩
    have hmem : h ∈ t.hashVoters := by
      by_contra hnot
      rw [votersOf, UMap.get_of_notMem hnot] at hs
      cases hs
    exact ⟨⟨h, t.votersOf h⟩, ⟨AList.mem_lookup_iff.mp (UMap.lookup_eq_get hmem), hne⟩, hs⟩

lemma hasShare_dropOtherShares (t : TxnManager) (hash : Bytes) (s : ℕ) :
    (t.dropOtherShares hash).HasShare s ↔ (∀ h, h ≠ hash → s ∉ t.votersOf h) ∧ t.HasShare s := by
  simp only [dropOtherShares, HasShare, UMap.mem_eraseAll, mem_others_iff, not_exists, not_and]

lemma countSync_cases (cfg : Config) (me : ℕ) (t : TxnManager) (m : SyncMsg) :
    SameShares t (t.countSync cfg me m) ∧ (¬ t.OpenTo m ∨ m.returnNodeId ∈ (t.seedVotes me).voteNewView) ∨
      CountsSync t m (t.countSync cfg me m) := by
  have hseed : SameShares t (t.seedVotes me) := by
    refine ⟨fun h => ?_, fun s => ?_, t.seedVotes_newViewed me⟩
    · rw [votersOf, seedVotes_hashVoters, votersOf]
    · simp only [TxnManager.seedVotes]
      split_ifs <;> rfl
  rw [countSync]
  split_ifs with hh
  · exact .inl ⟨⟨fun _ => rfl, fun _ => Iff.rfl, rfl⟩, .inl (not_openTo hh)⟩
  · replace hh : t.hash = [] ∨ t.hash = m.hash := by tauto
    have hshare : ∀ s, ((t.seedVotes me).storeShare m.returnNodeId m.hash m.sigShare).HasShare s ↔
        s = m.returnNodeId ∧ m.sigShare.isSome = true ∨ t.HasShare s := by
      intro s
      rw [hasShare_storeShare _ _ (by rwa [seedVotes_hash]), hseed.shares]
    have hpush : ∀ u : TxnManager, u.hashVoters = t.hashVoters → ∀ h, (u.pushVoter m.hash m.returnNodeId).votersOf h =
        if h = m.hash then t.votersOf m.hash ++ [m.returnNodeId] else t.votersOf h := by
      intro u hu h
      rw [votersOf_pushVoter, votersOf, votersOf, hu]
      rfl
    have hnew : m.returnNodeId ∉ (t.seedVotes me).voteNewView → m.returnNodeId ∉ t.voteNewView :=
      mt (t.mem_seedVotes me)
    have hsame : ((t.seedVotes me).storeShare m.returnNodeId m.hash m.sigShare).hashVoters = t.hashVoters := by
      rw [storeShare_hashVoters, seedVotes_hashVoters]
    simp only [Replica.hotstuffNewViewed]
    split_ifs with hviewed hold hq
    · exact .inl ⟨⟨fun _ => rfl, fun _ => Iff.rfl, rfl⟩, .inl fun ho => by simp [ho.1] at hviewed⟩
    · exact .inl ⟨hseed, .inr hold⟩
    · refine .inr ⟨⟨Bool.not_eq_true _ ▸ hviewed, hh⟩, hnew hold, hpush _ hsame, fun hv => ?_, fun _ s => ?_⟩
      · cases hv
      · change (TxnManager.dropOtherShares _ m.hash).HasShare s ↔ _
        rw [hasShare_dropOtherShares]
        refine and_congr (forall₂_congr fun h hne => not_congr ?_) (hshare s)
        exact iff_of_eq (congrArg (s ∈ ·) ((hpush _ hsame h).trans (if_neg hne)))
    · refine .inr ⟨⟨Bool.not_eq_true _ ▸ hviewed, hh⟩, hnew hold, hpush _ hsame, fun _ s => hshare s, fun hv => ?_⟩
      have hstill : ((t.seedVotes me).storeShare m.returnNodeId m.hash m.sigShare).newViewed = true := hv
      rw [storeShare_newViewed, seedVotes_newViewed] at hstill
      exact absurd hstill hviewed

lemma mem_voteNewView_countSync (m : SyncMsg) {s : ℕ} (hs : s ≠ me) :
    s ∈ (t.countSync cfg me m).voteNewView ↔ s ∈ t.voteNewView ∨ s = m.returnNodeId ∧ t.OpenTo m := by
  have hseed : s ∈ (t.seedVotes me).voteNewView ↔ s ∈ t.voteNewView := by
    simp only [TxnManager.seedVotes]
    split_ifs with hempty
    · simp [hempty, hs]
    · rfl
  rw [countSync]
  split_ifs with hh
  · simp [not_openTo hh]
  · replace hh : t.hash = [] ∨ t.hash = m.hash := by tauto
    simp only [Replica.hotstuffNewViewed]
    split_ifs with hviewed hold hq
    · simp [OpenTo, hviewed]
    · rw [hseed]
      refine ⟨.inl, ?_⟩
      rintro (hin | ⟨rfl, -⟩)
      · exact hin
      · exact hseed.mp hold
    all_goals
      have hopen : t.OpenTo m := ⟨Bool.not_eq_true _ ▸ hviewed, hh⟩
      rw [← hseed]
      simp [dropOtherShares, pushVoter, hopen]

structure Carries (me : ℕ) (t t' : TxnManager) : Prop where
  voters : ∀ s, s ≠ me → ∀ h, s ∈ t'.votersOf h ↔ s ∈ t.votersOf h
  shares : ∀ s, s ≠ me → (t'.HasShare s ↔ t.HasShare s)
  heard : ∀ s, s ≠ me → (s ∈ t'.voteNewView ↔ s ∈ t.voteNewView)
  unviewed : t'.newViewed = false → t.newViewed = false

lemma Carries.of_eq (hvoters : t'.hashVoters = t.hashVoters)
    (hshares : t'.genericQC.signatureShareMap = t.genericQC.signatureShareMap)
    (hheard : t'.voteNewView = t.voteNewView) (hviewed : t'.newViewed = t.newViewed) : Carries me t t' where
  voters s _ h := by rw [votersOf, hvoters, votersOf]
  shares s _ := by rw [HasShare, hshares, HasShare]
  heard s _ := by rw [hheard]
  unviewed hv := hviewed ▸ hv

lemma carries_ownVote (share : Option Bytes) : Carries me t (t.ownVote cfg me share) := by
  have hkeep : ∀ s, s ≠ me → ((t.keepShare me share).HasShare s ↔ t.HasShare s) := by
    intro s hs
    cases share with
    | none => rfl
    | some sig => simp [keepShare, HasShare, AList.mem_insert, hs]
  have hvoters : ∀ s, s ≠ me → ∀ h hash, s ∈ ((t.keepShare me share).pushVoter hash me).votersOf h ↔ s ∈ t.votersOf h := by
    intro s hs h hash
    have heq : (t.keepShare me share).votersOf = t.votersOf := by
      cases share <;> rfl
    rw [votersOf_pushVoter, heq]
    split_ifs with hh
    · subst hh
      simp [hs]
    · rfl
  have hheard : (t.keepShare me share).voteNewView = t.voteNewView := by cases share <;> rfl
  have hviewed : (t.keepShare me share).newViewed = t.newViewed := by cases share <;> rfl
  simp only [ownVote]
  split_ifs
  · exact .of_eq rfl rfl rfl rfl
  · simp only [Replica.castVote]
    split_ifs
    · refine ⟨fun s hs h => hvoters s hs h _, hkeep, fun s _ => ?_, fun hv => ?_⟩
      · exact iff_of_eq (congrArg (s ∈ ·) hheard)
      · cases hv
    · refine ⟨fun s hs h => hvoters s hs h _, hkeep, fun s _ => ?_, fun hv => ?_⟩
      · exact iff_of_eq (congrArg (s ∈ ·) hheard)
      · exact hviewed ▸ hv

lemma act_carries {a : Act} (ha : ∀ m, a ≠ .sync m) (hs : t.act cfg me a = some t') : Carries me t t' := by
  cases a with
  | sync m => exact absurd rfl (ha m)
  | fill returnId view i qry =>
    obtain ⟨_, _, _, rfl⟩ := Replica.initTxnMan_filled hs
    exact .of_eq rfl rfl rfl rfl
  | propose hash =>
    obtain rfl := Option.some.inj hs
    exact .of_eq rfl rfl rfl rfl
  | generic m =>
    obtain rfl := Option.some.inj hs
    simp only [Replica.acceptGeneric]
    split_ifs <;> exact .of_eq rfl rfl rfl rfl
  | announce highQC =>
    obtain rfl := Option.some.inj hs
    exact .of_eq rfl rfl rfl rfl
  | vote share =>
    obtain rfl := Option.some.inj hs
    exact carries_ownVote share
  | certify view =>
    obtain rfl := Option.some.inj hs
    exact .of_eq rfl rfl rfl rfl

structure Naming (t : TxnManager) (a : Act) (t' : TxnManager) : Prop where
  keeps : t.hash ≠ [] → t'.hash = t.hash
  unnamed : t'.hash = [] ↔ t.hash = [] ∧ a.names = []
  flags : t'.hash ≠ [] → t'.proposalReceived = true ∨ t'.genericReceived = true

lemma countSync_frame (cfg : Config) (me : ℕ) (t : TxnManager) (m : SyncMsg) : (t.countSync cfg me m).hash = t.hash ∧
    (t.countSync cfg me m).proposalReceived = t.proposalReceived ∧
      (t.countSync cfg me m).genericReceived = t.genericReceived := by
  rw [countSync]
  split_ifs
  · exact ⟨rfl, rfl, rfl⟩
  · obtain ⟨_, _, _, _, _, heq⟩ := @Replica.hotstuffNewViewed_eq cfg t me m
    rw [heq]
    exact ⟨rfl, rfl, rfl⟩

lemma ownVote_frame (cfg : Config) (me : ℕ) (t : TxnManager) (share : Option Bytes) : (t.ownVote cfg me share).hash = t.hash ∧
    (t.ownVote cfg me share).proposalReceived = t.proposalReceived ∧
      (t.ownVote cfg me share).genericReceived = t.genericReceived := by
  rw [ownVote]
  split_ifs
  · exact ⟨rfl, rfl, rfl⟩
  · obtain ⟨_, _, _, heq⟩ := @Replica.castVote_eq cfg { t.keepShare me share with syncSent := true } me
    rw [heq]
    cases share <;> exact ⟨rfl, rfl, rfl⟩

lemma act_naming {a : Act} (hflags : t.hash ≠ [] → t.proposalReceived = true ∨ t.genericReceived = true)
    (ha : Accepted me t a) (hs : t.act cfg me a = some t') : Naming t a t' := by
  have hsame : ∀ u : TxnManager, u.hash = t.hash → u.proposalReceived = t.proposalReceived →
      u.genericReceived = t.genericReceived ∨ u.genericReceived = true → a.names = [] → Naming t a u := by
    intro u hhash hprop hgen hnames
    refine ⟨fun _ => hhash, by simp [hhash, hnames], fun hne => ?_⟩
    rw [hhash] at hne
    rw [hprop]
    rcases hgen with hgen | hgen
    · exact hgen ▸ hflags hne
    · exact .inr hgen
  cases a with
  | sync m =>
    obtain rfl := Option.some.inj hs
    obtain ⟨h₁, h₂, h₃⟩ := countSync_frame cfg me t m
    exact hsame _ h₁ h₂ (.inl h₃) rfl
  | fill returnId view i qry =>
    obtain ⟨_, _, _, rfl⟩ := Replica.initTxnMan_filled hs
    exact hsame _ rfl rfl (.inl rfl) rfl
  | propose hash =>
    obtain rfl := Option.some.inj hs
    have hold : t.hash ≠ [] → hash = t.hash := by
      intro hne
      rcases hflags hne with hp | hg
      · rw [ha.1] at hp
        cases hp
      · exact ha.2 hg
    refine ⟨hold, ⟨fun hnil => ⟨?_, hnil⟩, fun h => h.2⟩, fun _ => .inl rfl⟩
    by_contra hne
    exact hne (hold hne ▸ hnil)
  | generic m =>
    obtain rfl := Option.some.inj hs
    have hhash : (Replica.acceptGeneric t m).hash = m.hash := by
      simp only [Replica.acceptGeneric]
      split_ifs with hnil
      · rfl
      · exact ha.2.resolve_left hnil
    have hgen : (Replica.acceptGeneric t m).genericReceived = true := by
      simp only [Replica.acceptGeneric]
    refine ⟨fun hne => ?_, ?_, fun _ => .inr hgen⟩
    · rw [hhash, ha.2.resolve_left hne]
    · rw [hhash]
      refine ⟨fun hnil => ⟨?_, hnil⟩, fun h => h.2⟩
      rcases ha.2 with h | h
      · exact h
      · exact h.trans hnil
  | announce highQC =>
    obtain rfl := Option.some.inj hs
    exact hsame _ rfl rfl (.inr rfl) rfl
  | vote share =>
    obtain rfl := Option.some.inj hs
    obtain ⟨h₁, h₂, h₃⟩ := ownVote_frame cfg me t share
    exact hsame _ h₁ h₂ (.inl h₃) rfl
  | certify view =>
    obtain rfl := Option.some.inj hs
    exact hsame _ rfl rfl (.inl rfl) rfl

end Step

section Run

variable {cfg : Config} {me : ℕ} {t t' : TxnManager} {acts : List Act}

structure Traced (me : ℕ) (acts : List Act) (t : TxnManager) : Prop where
  others : ∀ m, .sync m ∈ acts → m.returnNodeId ≠ me
  unnamed : t.hash = [] ↔ ∀ a ∈ acts, a.names = []
  flags : t.hash ≠ [] → t.proposalReceived = true ∨ t.genericReceived = true
  heard : ∀ s, s ≠ me → s ∈ t.voteNewView → ∃ m, .sync m ∈ acts ∧ m.returnNodeId = s
  recorded : t.newViewed = false → t.hash = [] → ∀ m, .sync m ∈ acts → m.returnNodeId ∈ t.voteNewView
  early : t.newViewed = false → ∀ m, Early acts m →
    t.HasShare m.returnNodeId ∧ m.returnNodeId ∈ t.votersOf m.hash
  shares : t.newViewed = false → ∀ s, s ≠ me → t.HasShare s →
    t.hash ≠ [] ∧ s ∈ t.votersOf t.hash ∨ ∃ m, Early acts m ∧ m.returnNodeId = s

lemma traced_init (me : ℕ) : Traced me [] {} where
  others _ hm := by cases hm
  unnamed := by simp
  flags hne := absurd rfl hne
  heard _ _ hs := by cases hs
  recorded _ _ _ hm := by cases hm
  early _ m h := by
    obtain ⟨before, after, heq, -⟩ := h.split
    simp at heq
  shares _ _ _ h := absurd h (AList.notMem_empty _)

lemma Early.mem {m : SyncMsg} (h : Early acts m) : .sync m ∈ acts := by
  obtain ⟨before, after, rfl, -⟩ := h.split
  simp

lemma Traced.quiet (h : Traced me acts t) {a : Act} (ha : ∀ m, a ≠ .sync m) (hc : Carries me t t')
    (hn : Naming t a t') : Traced me (acts ++ [a]) t' := by
  have hmem : ∀ m, .sync m ∈ acts ++ [a] → .sync m ∈ acts := by
    intro m hm
    rcases List.mem_append.mp hm with hm | hm
    · exact hm
    · exact absurd (List.mem_singleton.mp hm).symm (ha m)
  constructor
  · exact fun m hm => h.others m (hmem m hm)
  · rw [hn.unnamed, h.unnamed]
    simp [or_imp, forall_and]
  · exact hn.flags
  · intro s hs hin
    obtain ⟨m, hm, hsender⟩ := h.heard s hs ((hc.heard s hs).mp hin)
    exact ⟨m, List.mem_append_left _ hm, hsender⟩
  · intro hv hnil m hm
    have hin := h.recorded (hc.unviewed hv) (hn.unnamed.mp hnil).1 m (hmem m hm)
    exact (hc.heard _ (h.others m (hmem m hm))).mpr hin
  · intro hv m hm
    rcases hm.of_append with hm | ⟨heq, -⟩
    · obtain ⟨hshare, hvoter⟩ := h.early (hc.unviewed hv) m hm
      have hne := h.others m hm.mem
      exact ⟨(hc.shares _ hne).mpr hshare, (hc.voters _ hne _).mpr hvoter⟩
    · exact absurd heq (ha m)
  · intro hv s hs hshare
    rcases h.shares (hc.unviewed hv) s hs ((hc.shares s hs).mp hshare) with ⟨hne, hvoter⟩ | ⟨m, hm, hsender⟩
    · refine .inl ?_
      rw [hn.keeps hne]
      exact ⟨hne, (hc.voters s hs _).mpr hvoter⟩
    · exact .inr ⟨m, hm.append a, hsender⟩

lemma countSync_unviewed {m : SyncMsg} (hv : (t.countSync cfg me m).newViewed = false) : t.newViewed = false := by
  rcases countSync_cases cfg me t m with ⟨hsame, -⟩ | hc
  · exact hsame.viewed ▸ hv
  · exact hc.isOpen.1

lemma countSync_grows {m : SyncMsg} (hv : (t.countSync cfg me m).newViewed = false) {s : ℕ} :
    (t.HasShare s → (t.countSync cfg me m).HasShare s) ∧
      ∀ h, s ∈ t.votersOf h → s ∈ (t.countSync cfg me m).votersOf h := by
  rcases countSync_cases cfg me t m with ⟨hsame, -⟩ | hc
  · refine ⟨(hsame.shares s).mpr, fun h hin => ?_⟩
    rwa [hsame.voters]
  · refine ⟨fun hs => (hc.stored hv s).mpr (.inr hs), fun h hin => ?_⟩
    rw [hc.voters]
    split_ifs with heq
    · exact List.mem_append_left _ (heq ▸ hin)
    · exact hin

lemma CountsSync.voter {m : SyncMsg} (h : CountsSync t m t') : m.returnNodeId ∈ t'.votersOf m.hash := by
  rw [h.voters, if_pos rfl]
  exact List.mem_append_right _ (List.mem_singleton_self _)

lemma Traced.count (h : Traced me acts t) {m : SyncMsg} (hm : m.returnNodeId ≠ me)
    (hn : Naming t (.sync m) (t.countSync cfg me m)) : Traced me (acts ++ [.sync m]) (t.countSync cfg me m) := by
  have hhash : (t.countSync cfg me m).hash = t.hash := (countSync_frame cfg me t m).1
  have hmem : ∀ m', .sync m' ∈ acts ++ [.sync m] → .sync m' ∈ acts ∨ m' = m := by
    intro m' hm'
    rcases List.mem_append.mp hm' with hm' | hm'
    · exact .inl hm'
    · exact .inr (Act.sync.inj (List.mem_singleton.mp hm'))
  constructor
  · intro m' hm'
    rcases hmem m' hm' with hm' | rfl
    · exact h.others m' hm'
    · exact hm
  · rw [hn.unnamed, h.unnamed]
    simp [or_imp, forall_and]
  · exact hn.flags
  · intro s hs hin
    rcases (mem_voteNewView_countSync m hs).mp hin with hin | ⟨rfl, -⟩
    · obtain ⟨m', hm', hsender⟩ := h.heard s hs hin
      exact ⟨m', List.mem_append_left _ hm', hsender⟩
    · exact ⟨m, List.mem_append_right _ (List.mem_singleton_self _), rfl⟩
  · intro hv hnil m' hm'
    rw [hhash] at hnil
    have hv₀ := countSync_unviewed hv
    rcases hmem m' hm' with hm' | rfl
    · exact (mem_voteNewView_countSync m (h.others m' hm')).mpr (.inl (h.recorded hv₀ hnil m' hm'))
    · exact (mem_voteNewView_countSync m' hm).mpr (.inr ⟨rfl, hv₀, .inl hnil⟩)
  · intro hv m' hm'
    have hv₀ := countSync_unviewed hv
    rcases hm'.of_append with hm' | ⟨heq, hnames, hfirst⟩
    · obtain ⟨hshare, hvoter⟩ := h.early hv₀ m' hm'
      exact ⟨(countSync_grows hv).1 hshare, (countSync_grows hv).2 _ hvoter⟩
    · obtain rfl := Act.sync.inj heq
      have hfresh : m.returnNodeId ∉ t.voteNewView := by
        intro hin
        obtain ⟨m', hm', hsender⟩ := h.heard _ hm hin
        exact hfirst m' hm' hsender
      -- the vote is the first of its sender and the hash is not known: it is counted
      rcases countSync_cases cfg me t m with ⟨-, hclosed | hold⟩ | hc
      · exact absurd ⟨hv₀, .inl (h.unnamed.mpr hnames)⟩ hclosed
      · have hin : m.returnNodeId ∈ t.voteNewView := by
          simp only [TxnManager.seedVotes] at hold
          split_ifs at hold
          · exact absurd (List.mem_singleton.mp hold) hm
          · exact hold
        exact absurd hin hfresh
      · exact ⟨(hc.stored hv _).mpr (.inl ⟨rfl, hm'.share⟩), hc.voter⟩
  · intro hv s hs hshare
    have hv₀ := countSync_unviewed hv
    have hold : t.HasShare s → (t.countSync cfg me m).hash ≠ [] ∧ s ∈ (t.countSync cfg me m).votersOf
        (t.countSync cfg me m).hash ∨ ∃ m', Early (acts ++ [.sync m]) m' ∧ m'.returnNodeId = s := by
      intro hshare
      rcases h.shares hv₀ s hs hshare with ⟨hne, hvoter⟩ | ⟨m', hm', hsender⟩
      · rw [hhash]
        exact .inl ⟨hne, (countSync_grows hv).2 _ hvoter⟩
      · exact .inr ⟨m', hm'.append _, hsender⟩
    rcases countSync_cases cfg me t m with ⟨hsame, -⟩ | hc
    · exact hold ((hsame.shares s).mp hshare)
    · rcases (hc.stored hv s).mp hshare with ⟨rfl, hsome⟩ | hshare
      · by_cases hnil : t.hash = []
        · refine .inr ⟨m, ⟨⟨acts, [], rfl, h.unnamed.mp hnil, fun m' hm' heq => ?_⟩, hsome⟩, rfl⟩
          exact hc.fresh (heq ▸ h.recorded hv₀ hnil m' hm')
        · rw [hhash]
          refine .inl ⟨hnil, ?_⟩
          rw [hc.isOpen.2.resolve_left hnil]
          exact hc.voter
      · exact hold hshare

lemma traced_run (h : Run (act cfg me) (Accepted me) {} acts t) : Traced me acts t := by
  induction h with
  | start => exact traced_init me
  | next a hr hok hs ih =>
    have hn := act_naming ih.flags hok hs
    by_cases hsync : ∃ m, a = .sync m
    · obtain ⟨m, rfl⟩ := hsync
      obtain rfl := Option.some.inj hs
      exact ih.count hok hn
    · have hne : ∀ m, a ≠ .sync m := fun m heq => hsync ⟨m, heq⟩
      exact ih.quiet hne (act_carries hne hs) hn

lemma Accepted.fromOthers {a : Act} (h : Accepted me t a) : FromOthers me t a := by
  cases a with
  | sync m => exact h
  | _ => trivial

lemma quorum_of_step {hash : Bytes} (h : t.Kept cfg.nf me) (h' : t'.Kept cfg.nf me) (hv : t.newViewed = false)
    (hv' : t'.newViewed = true) (hother : ∀ h, h ≠ hash → t'.votersOf h = t.votersOf h) :
    cfg.nf ≤ (t'.votersOf hash).length ∧ ∀ h', cfg.nf ≤ (t'.votersOf h').length → h' = hash := by
  have hbelow : t.newViewVoteCnt < cfg.nf := by
    by_contra hge
    rw [h.viewed.mpr (Nat.not_lt.mp hge)] at hv
    cases hv
  have honly : ∀ h', cfg.nf ≤ (t'.votersOf h').length → h' = hash := by
    intro g hg
    by_contra hne
    rw [hother g hne] at hg
    have := h.largest g
    omega
  obtain ⟨g, hg⟩ := h'.attained
  have hreach := h'.viewed.mp hv'
  have heq := honly g (by omega)
  rw [heq] at hg
  exact ⟨by omega, honly⟩

lemma sharesOfVoters_countSync (htraced : Traced me acts t) (h : t.Kept cfg.nf me) {m : SyncMsg}
    (h' : (t.countSync cfg me m).Kept cfg.nf me) (hv : t.newViewed = false)
    (hv' : (t.countSync cfg me m).newViewed = true) : (t.countSync cfg me m).SharesOfVoters cfg.nf me := by
  rcases countSync_cases cfg me t m with ⟨hsame, -⟩ | hc
  · rw [hsame.viewed, hv] at hv'
    cases hv'
  · have hother : ∀ h, h ≠ m.hash → (t.countSync cfg me m).votersOf h = t.votersOf h := by
      intro g hne
      rw [hc.voters, if_neg hne]
    obtain ⟨hquorum, honly⟩ := quorum_of_step h h' hv hv' hother
    refine ⟨m.hash, hquorum, honly, fun s hshare hs => ?_⟩
    obtain ⟨hclean, hshare⟩ := (hc.cleaned hv' s).mp hshare
    have hin : ∀ g, s ∈ t.votersOf g → s ∈ (t.countSync cfg me m).votersOf m.hash := by
      intro g hg
      have hgm : g = m.hash := by
        by_contra hne
        exact hclean g hne hg
      rw [hc.voters, if_pos rfl]
      exact List.mem_append_left _ (hgm ▸ hg)
    rcases hshare with ⟨rfl, -⟩ | hshare
    · exact hc.voter
    · rcases htraced.shares hv s hs hshare with ⟨-, hvoter⟩ | ⟨m', hm', rfl⟩
      · exact hin _ hvoter
      · exact hin _ (htraced.early hv m' hm').2

lemma votersOf_ownVote (share : Option Bytes) {h : Bytes} (hne : h ≠ t.hash) :
    (t.ownVote cfg me share).votersOf h = t.votersOf h := by
  have hkeep : (t.keepShare me share).hashVoters = t.hashVoters ∧ (t.keepShare me share).hash = t.hash := by
    cases share <;> exact ⟨rfl, rfl⟩
  have hpush : ((t.keepShare me share).pushVoter (t.keepShare me share).hash me).votersOf h = t.votersOf h := by
    rw [votersOf_pushVoter, hkeep.2, if_neg hne, votersOf, hkeep.1, votersOf]
  simp only [ownVote]
  split_ifs
  · rfl
  · simp only [Replica.castVote]
    split_ifs <;> exact hpush

lemma sharesOfVoters_ownVote_iff (htraced : Traced me acts t) (h : t.Kept cfg.nf me) {share : Option Bytes}
    (h' : (t.ownVote cfg me share).Kept cfg.nf me) (hv : t.newViewed = false)
    (hv' : (t.ownVote cfg me share).newViewed = true) :
    (t.ownVote cfg me share).SharesOfVoters cfg.nf me ↔ ¬ Strayed acts t.hash := by
  have hc : Carries me t (t.ownVote cfg me share) := carries_ownVote share
  obtain ⟨hquorum, honly⟩ := quorum_of_step h h' hv hv' (fun _ hne => votersOf_ownVote share hne)
  constructor
  · rintro ⟨g, hg, -, hvoters⟩ ⟨m, hm, hne⟩
    obtain ⟨hshare, hvoter⟩ := htraced.early hv m hm
    have hme := htraced.others m hm.mem
    have hin := hvoters _ ((hc.shares _ hme).mpr hshare) hme
    rw [honly g hg, hc.voters _ hme] at hin
    exact h.disjoint _ _ hne hvoter hin
  · intro hstray
    refine ⟨t.hash, hquorum, honly, fun s hshare hs => ?_⟩
    rw [hc.voters s hs]
    rcases htraced.shares hv s hs ((hc.shares s hs).mp hshare) with ⟨-, hvoter⟩ | ⟨m, hm, rfl⟩
    · exact hvoter
    · have heq : m.hash = t.hash := by
        by_contra hne
        exact hstray ⟨m, hm, hne⟩
      exact heq ▸ (htraced.early hv m hm).2

theorem shares_of_voters_iff {a : Act} (hrun : Run (act cfg me) (Accepted me) {} acts t) (hok : Accepted me t a)
    (hs : t.act cfg me a = some t') (hv : t.newViewed = false) (hv' : t'.newViewed = true) :
    t'.SharesOfVoters cfg.nf me ↔ (∃ m, a = .sync m) ∨ ¬ Strayed acts t.hash := by
  have htraced := traced_run hrun
  have hkept : t.Kept cfg.nf me := kept_reach (hrun.reach.mono fun _ _ => Accepted.fromOthers)
  have hkept' := hkept.act hok.fromOthers hs
  cases a with
  | sync m =>
    obtain rfl := Option.some.inj hs
    exact iff_of_true (sharesOfVoters_countSync htraced hkept hkept' hv hv') (.inl ⟨m, rfl⟩)
  | vote share =>
    obtain rfl := Option.some.inj hs
    rw [sharesOfVoters_ownVote_iff htraced hkept hkept' hv hv']
    simp
  | fill returnId view i qry =>
    obtain ⟨_, _, _, rfl⟩ := Replica.initTxnMan_filled hs
    exact absurd (hv.symm.trans hv') Bool.false_ne_true
  | generic m =>
    obtain rfl := Option.some.inj hs
    simp only [Replica.acceptGeneric] at hv'
    split_ifs at hv' <;> exact absurd (hv.symm.trans hv') Bool.false_ne_true
  | _ =>
    obtain rfl := Option.some.inj hs
    exact absurd (hv.symm.trans hv') Bool.false_ne_true

theorem shares_of_voters_iff_one_hash :
    ∃ t t', Run (act .fourReplicas 1) (Accepted 1) {} [.sync (voteFrom 0 [9]), .sync (voteFrom 2 [9]), .propose [9]] t ∧
      t.act .fourReplicas 1 (.vote (some [])) = some t' ∧ t'.newViewed = true ∧
        t'.SharesOfVoters Config.fourReplicas.nf 1 := by
  obtain ⟨t, hr, ht⟩ := exists_run_of_runWith (act .fourReplicas 1) (Accepted 1) {}
    [.sync (voteFrom 0 [9]), .sync (voteFrom 2 [9]), .propose [9]]
    (fun t => t.newViewed = false ∧ t.hash = [9] ∧
      ((t.act .fourReplicas 1 (.vote (some []))).map TxnManager.newViewed) = some true) (by decide +kernel)
  obtain ⟨hv, hhash, hv'⟩ := of_decide_eq_true ht
  obtain ⟨t', hs, hv'⟩ := Option.map_eq_some_iff.mp hv'
  refine ⟨t, t', hr, hs, hv', (shares_of_voters_iff (a := .vote (some [])) hr trivial hs hv hv').mpr (.inr ?_)⟩
  rintro ⟨m, hm, hne⟩
  have hall : ∀ m, Act.sync m ∈ [.sync (voteFrom 0 [9]), .sync (voteFrom 2 [9]), .propose [9]] → m.hash = [9] := by
    intro m hm
    simp only [List.mem_cons, Act.sync.injEq, List.not_mem_nil, or_false, reduceCtorEq] at hm
    rcases hm with rfl | rfl <;> rfl
  exact hne ((hall m hm.mem).trans hhash.symm)

end Run

end TxnManager

namespace Replica

open TxnManager

def signedVote (node : ℕ) (hash : Bytes) : Event :=
  .deliver (.sync { slotVote .fourReplicas 0 0 hash node with
    sigShare := some (Crypto.transparent.ecdsaSign node (signedDigest .transparent hash {})) })

-- Replica 1 leads view 1. Replica 3 votes for another hash before the GENERIC of view 0 arrives, and the replica's own
-- vote completes the quorum of replicas 0, 2 and 1.
theorem share_of_other_hash_kept :
    ∃ r s, Reach (step .fourReplicas .transparent) (Genuine .fourReplicas) (init .fourReplicas 1) r ∧
      r.step .fourReplicas .transparent
        (.deliver (.generic (slotGeneric .fourReplicas .transparent 0 0 [7] (genesisQC .PREPARE)))) = some s ∧
      (r.table 4).newViewed = false ∧ (s.table 4).newViewed = true ∧
        ¬ (s.table 4).SharesOfVoters Config.fourReplicas.nf 1 := by
  obtain ⟨r, hr, h⟩ := exists_reach_of_runWith (step .fourReplicas .transparent) (Genuine .fourReplicas)
    (init .fourReplicas 1) [signedVote 3 [8], signedVote 0 [7], signedVote 2 [7]]
    (fun r => (r.table 4).newViewed = false ∧ (r.step .fourReplicas .transparent
      (.deliver (.generic (slotGeneric .fourReplicas .transparent 0 0 [7] (genesisQC .PREPARE))))).any fun s =>
        (s.table 4).newViewed ∧ (s.table 4).HasShare 3 ∧ (s.table 4).votersOf [7] = [0, 2, 1]) (by decide +kernel)
  obtain ⟨hv, h⟩ := of_decide_eq_true h
  obtain ⟨s, hs, h⟩ := (Option.any_eq_true ..).mp h
  obtain ⟨hv', hshare, hvoters⟩ := of_decide_eq_true h
  refine ⟨r, s, hr, hs, hv, hv', ?_⟩
  rintro ⟨hash, -, honly, hall⟩
  have hquorum : Config.fourReplicas.nf ≤ ((s.table 4).votersOf [7]).length := by
    rw [hvoters]
    decide
  have hin := hall 3 hshare (by decide)
  rw [← honly [7] hquorum, hvoters] at hin
  exact absurd hin (by decide)

end Replica

end SpotLess
