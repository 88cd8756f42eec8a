import SpotLess.Emission
import SpotLess.Honest

/-! A system without faulty replicas. Each slot has one digest in a run, and each replica gets only what its peers
sent for the slots they own: what a replica of such a system preserves move by move, it preserves in every run. -/

namespace SpotLess

open Lib

def Obs.digest? (w i : ℕ) : Obs → Option Bytes
  | .proposed j v _ hash => if j = i ∧ v = w then some hash else none
  | _ => none

lemma Obs.eq_proposed_of_digest? {w i : ℕ} {o : Obs} {hash : Bytes} (h : o.digest? w i = some hash) :
    ∃ batch, o = .proposed i w batch hash := by
  cases o with
  | proposed j v batch hash' =>
    simp only [Obs.digest?] at h
    split_ifs at h with hjv
    obtain ⟨rfl, rfl⟩ := hjv
    exact ⟨batch, by rw [Option.some.inj h]⟩
  | _ => cases h

namespace Replica

variable {cfg : Config} {crypto : Crypto} {H : ℕ → ℕ → Bytes} {P : Msg → Prop} {Q : ℕ → Prop}
  {B : ℕ → ClientQueryBatch → Prop} {r₀ r s : Replica} {p : ℕ}

lemma announceGeneric_generics (r : Replica) (id : ℕ) :
    (r.announceGeneric cfg crypto id).generics = r.generics ++ [((r.table id).instanceId, id)] := by
  simp [announceGeneric, Replica.generics, Obs.generic?]

lemma Move.generics (h : Move cfg crypto P Q B r₀ r s) : s.generics = r.generics ∨
    ∃ id, SameViews r₀ r ∧ Q id ∧ r₀.exec.nextIndex < id ∧ (r.table id).hash ≠ [] ∧
      s = r.announceGeneric cfg crypto id := by
  cases h with
  | idle h =>
    left
    rcases h.trace with heq | ⟨batch, heq⟩
    · rw [Replica.generics, heq, Replica.generics]
    · simp [Replica.generics, heq, Obs.generic?]
  | proposal => exact Or.inl rfl
  | @generic _ m => exact Or.inl (((Handled.refl r).storeGeneric m).lockGeneric cfg m).generics
  | @vote _ id => exact Or.inl ((Handled.refl r).sendHotstuffNewview cfg crypto id).generics
  | @count m => exact Or.inl (Handled.countVote cfg r₀ m).generics
  | advance _ _ _ h => exact Or.inl ((Handled.refl r).advanceView h).generics
  | batch =>
    left
    simp [Replica.generics, storeBatch, Obs.generic?]
  | announce hsame hid hindex hh => exact Or.inr ⟨_, hsame, hid, hindex, hh, rfl⟩
  | execute => exact Or.inl rfl
  | recycle => exact Or.inl rfl

lemma Move.mem_generics (h : Move cfg crypto P Q B r₀ r s) {g : ℕ × ℕ} (hg : g ∈ r.generics) : g ∈ s.generics := by
  rcases h.generics with heq | ⟨id, _, _, _, _, rfl⟩
  · exact heq ▸ hg
  · rw [announceGeneric_generics]
    exact List.mem_append_left _ hg

lemma Move.trace (h : Move cfg crypto P Q B r₀ r s) : ∃ l, s.trace = r.trace ++ l := by
  have handled : ∀ {r s : Replica}, Handled r s → ∃ l, s.trace = r.trace ++ l := fun h =>
    let ⟨l, hl, _⟩ := h.trace
    ⟨l, hl⟩
  have same : ∀ {r s : Replica}, s.trace = r.trace → ∃ l, s.trace = r.trace ++ l := fun h => ⟨[], by simp [h]⟩
  cases h with
  | idle h =>
    rcases h.trace with heq | ⟨batch, heq⟩
    · exact same heq
    · exact ⟨_, heq⟩
  | proposal => exact same rfl
  | @generic _ m => exact handled (((Handled.refl r).storeGeneric m).lockGeneric cfg m)
  | @vote _ id => exact handled ((Handled.refl r).sendHotstuffNewview cfg crypto id)
  | @count m => exact handled (Handled.countVote cfg r₀ m)
  | advance _ _ _ h => exact handled ((Handled.refl r).advanceView h)
  | batch => exact ⟨_, rfl⟩
  | announce => exact ⟨_, rfl⟩
  | execute => exact same rfl
  | recycle => exact same rfl

lemma Move.sent (h : Move cfg crypto P Q B r₀ r s) : ∀ e ∈ s.out, e ∈ r.out ∨ (∃ m, e.2 = .proposal m) ∨
    (∃ id, e.2 = .generic (r.genericOf crypto id) ∧ .genericSent (r.table id).instanceId id ∈ s.trace) ∨
    (∃ id share, e.2 = .sync (r.syncOf id share) ∧ (r.table id).genericReceived = true) := by
  intro e he
  cases h with
  | idle h => exact Or.inl (h.out ▸ he)
  | proposal => exact Or.inl he
  | @generic _ m =>
    left
    simp only [lockGeneric] at he
    split_ifs at he
    · rw [updateLockQC_out] at he
      exact he
    · exact he
  | @vote _ id _ _ _ hg =>
    rcases sendHotstuffNewview_cases cfg crypto r id with ⟨_, heq⟩ | ⟨_, hc⟩
    · rw [heq] at he
      exact Or.inl he
    · obtain ⟨l, hl, hlo⟩ := hc.out
      rw [hl] at he
      rcases List.mem_append.mp he with he | he
      · exact Or.inl he
      · obtain ⟨_, share, heq⟩ := hlo e he
        exact Or.inr (Or.inr (Or.inr ⟨id, share, heq, hg⟩))
  | @count m =>
    left
    simp only [countVote, bindTxnid] at he
    split_ifs at he <;> exact he
  | advance _ _ _ h => exact Or.inl (advanceView_out h ▸ he)
  | batch =>
    rcases List.mem_append.mp he with he | he
    · exact Or.inl he
    · obtain ⟨d, _, rfl⟩ := List.mem_map.mp he
      exact Or.inr (Or.inl ⟨_, rfl⟩)
  | @announce _ id =>
    rcases List.mem_append.mp he with he | he
    · exact Or.inl he
    · obtain ⟨d, _, rfl⟩ := List.mem_map.mp he
      exact Or.inr (Or.inr (Or.inl ⟨id, rfl, List.mem_append_right _ (List.mem_singleton_self _)⟩))
  | execute => exact Or.inl he
  | recycle => exact Or.inl he

lemma mem_proposals {i w : ℕ} {batch : ClientQueryBatch} {hash : Bytes} (h : .proposed i w batch hash ∈ r.trace) :
    ⟨i, w, batch⟩ ∈ r.proposals :=
  List.mem_filterMap.mpr ⟨_, h, rfl⟩

lemma Move.proposed (h : Move cfg crypto P Q B r₀ r s) {i w : ℕ} {batch : ClientQueryBatch} {hash : Bytes}
    (ho : .proposed i w batch hash ∈ s.trace) : .proposed i w batch hash ∈ r.trace ∨
    ∃ slot table, r₀.threads.proposal = .stamped slot batch ∧ s = r₀.storeBatch cfg crypto slot batch table ∧
      fillManagers cfg r₀.table batch.returnNode w i ((r₀.proposalOf cfg crypto slot batch).index.zip batch.cqrySet) =
        some table ∧
      i = (r₀.proposalOf cfg crypto slot batch).instanceId ∧ w = (r₀.proposalOf cfg crypto slot batch).view ∧
      hash = crypto.calculateHash (batchString batch.cqrySet) := by
  have handled : ∀ {r s : Replica}, Handled r s → .proposed i w batch hash ∈ s.trace →
      .proposed i w batch hash ∈ r.trace := fun h ho => (h.mem_trace ho).resolve_right id
  cases h with
  | idle h =>
    rcases h.trace with heq | ⟨batch, heq⟩
    · exact Or.inl (heq ▸ ho)
    · rw [heq] at ho
      exact Or.inl (by simpa using ho)
  | proposal => exact Or.inl ho
  | @generic _ m => exact Or.inl (handled (((Handled.refl r).storeGeneric m).lockGeneric cfg m) ho)
  | @vote _ id => exact Or.inl (handled ((Handled.refl r).sendHotstuffNewview cfg crypto id) ho)
  | @count m => exact Or.inl (handled (Handled.countVote cfg r₀ m) ho)
  | advance _ _ _ h => exact Or.inl (handled ((Handled.refl r).advanceView h) ho)
  | batch _ hpc hfill =>
    rcases List.mem_append.mp ho with ho | ho
    · exact Or.inl ho
    · obtain ⟨rfl, rfl, rfl, rfl⟩ := Obs.proposed.inj (List.mem_singleton.mp ho)
      exact Or.inr ⟨_, _, hpc, rfl, hfill, rfl, rfl, rfl⟩
  | announce => exact Or.inl (by simpa [announceGeneric] using ho)
  | execute => exact Or.inl ho
  | recycle => exact Or.inl ho

lemma Genuine.supplies {e : Event} (he : Genuine cfg r e) : Supplies cfg (fun _ => True) (fun _ _ => True) r e := by
  cases e with
  | recycle => exact he
  | proposalThread => exact fun _ _ _ => trivial
  | _ => trivial

lemma step_trace {e : Event} (he : Genuine cfg r e) (hs : r.step cfg crypto e = some s) :
    ∃ l, s.trace = r.trace ++ l := by
  have hmoves : Moves cfg crypto (fun _ => True) (fun _ => True) (fun _ _ => True) r r s :=
    step_moves (Genuine.supplies he) (fun _ _ _ => trivial) (fun _ _ => trivial) hs
  apply hmoves.invariant (I := fun s => ∃ l, s.trace = r.trace ++ l)
  · rintro u v huv ⟨l, hl⟩
    obtain ⟨l', hl'⟩ := huv.trace
    exact ⟨l ++ l', by rw [hl', hl, List.append_assoc]⟩
  · exact ⟨[], by simp⟩

lemma proposed_digest (h : Reach (step cfg crypto) (Genuine cfg) (init cfg p) r) {i w : ℕ} {batch : ClientQueryBatch}
    {hash : Bytes} (ho : .proposed i w batch hash ∈ r.trace) :
    hash = crypto.calculateHash (batchString batch.cqrySet) := by
  have hall : ∀ i w batch hash, .proposed i w batch hash ∈ r.trace →
      hash = crypto.calculateHash (batchString batch.cqrySet) := by
    apply Reach.moves_invariant (P := fun _ => True) (I := fun r => ∀ i w batch hash,
      .proposed i w batch hash ∈ r.trace → hash = crypto.calculateHash (batchString batch.cqrySet)) _ _ _ _ h
    · intro r e he
      exact Genuine.supplies he
    · exact fun _ => rfl
    · simp [init]
    · intro r₀ r s hm hi i w batch hash ho
      rcases hm.proposed ho with ho | ⟨_, _, _, _, _, _, _, hdigest⟩
      · exact hi i w batch hash ho
      · exact hdigest
  exact hall i w batch hash ho

lemma proposed_unique (hp : p < cfg.nodeCnt) (h : Reach (step cfg crypto) (Genuine cfg) (init cfg p) r) {i w : ℕ}
    {b b' : ClientQueryBatch} {hash hash' : Bytes} (ho : .proposed i w b hash ∈ r.trace)
    (ho' : .proposed i w b' hash' ∈ r.trace) : b = b' ∧ hash = hash' := by
  have hb : b = b' := congrArg Proposal.batch
    ((alloc_reach cfg crypto hp h).unique cfg (mem_proposals ho) (mem_proposals ho') rfl rfl)
  refine ⟨hb, ?_⟩
  rw [proposed_digest h ho, proposed_digest h ho', hb]

-- A vote for a slot of the replica's own comes after its GENERIC.
structure Expected (cfg : Config) (H : ℕ → ℕ → Bytes) (r : Replica) (m : Msg) : Prop where
  honest : m.Honest cfg H r.nodeId
  asked : ∀ v, m = .sync v → cfg.getViewPrimary v.view v.instanceId = r.nodeId →
    (v.instanceId, v.txnId) ∈ r.generics

abbrev CalmMove (cfg : Config) (crypto : Crypto) (H : ℕ → ℕ → Bytes) (r₀ : Replica) :=
  Move cfg crypto (Expected cfg H r₀) (Current cfg r₀) (SlotBatch cfg crypto H) r₀

structure FaultFree (cfg : Config) (crypto : Crypto) (H : ℕ → ℕ → Bytes) (r : Replica) (e : Event) : Prop where
  genuine : Genuine cfg r e
  expected : ∀ m, e = .deliver m → Expected cfg H r m
  batch : ∀ i j slot batch, e = .proposalThread i j → r.threads.proposal = .stamped slot batch →
    SlotBatch cfg crypto H slot batch

lemma FaultFree.named {e : Event} (h : FaultFree cfg crypto H r e) : NamedStep cfg r e :=
  ⟨h.genuine, fun m hm => (h.expected m hm).honest.peer.named⟩

lemma FaultFree.supplies {e : Event} (h : FaultFree cfg crypto H r e) :
    Supplies cfg (Expected cfg H r) (SlotBatch cfg crypto H) r e := by
  cases e with
  | deliver m => exact h.expected m rfl
  | proposalThread i j => exact fun slot batch => h.batch i j slot batch rfl
  | recycle => exact h.genuine
  | _ => trivial

structure Calm (cfg : Config) (H : ℕ → ℕ → Bytes) (r : Replica) : Prop where
  steady : Steady cfg r
  sound : Sound cfg H r
  parked : ∀ i, ∀ m ∈ r.queues i, Msg.Honest cfg H r.nodeId (.generic m)

lemma Calm.expected_parked (h : Calm cfg H r) (i : ℕ) : ∀ m ∈ r.queues i, Expected cfg H r (.generic m) :=
  fun m hm => ⟨h.parked i m hm, nofun⟩

lemma Calm.moves (h : Calm cfg H r) {e : Event} (he : FaultFree cfg crypto H r e)
    (hs : r.step cfg crypto e = some s) :
    Moves cfg crypto (Expected cfg H r) (Current cfg r) (SlotBatch cfg crypto H) r r s :=
  step_moves he.supplies h.expected_parked (fun _ hid => h.steady.paired.current h.steady.alloc hid) hs

structure Midway (cfg : Config) (H : ℕ → ℕ → Bytes) (r₀ r : Replica) : Prop where
  paced : Paced cfg r
  sound : Sound cfg H r
  nodeId : r.nodeId = r₀.nodeId
  view : ∀ i, (r₀.inst i).view ≤ (r.inst i).view
  trace : ∃ l, r.trace = r₀.trace ++ l

lemma Calm.midway (h : Calm cfg H r) : Midway cfg H r r :=
  ⟨h.steady.paced, h.sound, rfl, fun _ => le_rfl, ⟨[], by simp⟩⟩

lemma Midway.move (h₀ : Calm cfg H r₀) (h : Midway cfg H r₀ r) (hm : CalmMove cfg crypto H r₀ r s) :
    Midway cfg H r₀ s := by
  have hpeer : Move cfg crypto (Msg.Peer cfg r₀.nodeId) (Current cfg r₀) (SlotBatch cfg crypto H) r₀ r s :=
    hm.imp (fun m hm => hm.honest.peer) (fun _ => id) (fun _ _ => id)
  have hhonest : Move cfg crypto (Msg.Honest cfg H r₀.nodeId) (Current cfg r₀) (SlotBatch cfg crypto H) r₀ r s :=
    hm.imp (fun m hm => hm.honest) (fun _ => id) (fun _ _ => id)
  refine ⟨h₀.steady.paced.move h₀.steady.alloc h₀.steady.fed h.paced hpeer,
    Sound.move h₀.steady.paced h₀.steady.alloc h₀.steady.fed h.paced h.sound hhonest, hm.nodeId.trans h.nodeId,
    fun i => (h.view i).trans (hm.view_le i), ?_⟩
  obtain ⟨l, hl⟩ := h.trace
  obtain ⟨l', hl'⟩ := hm.trace
  exact ⟨l ++ l', by rw [hl', hl, List.append_assoc]⟩

lemma Midway.cases (h₀ : Calm cfg H r₀) (h : Midway cfg H r₀ r) (hm : CalmMove cfg crypto H r₀ r s) :
    Quiet cfg r s ∨
    (∃ m, Msg.Honest cfg H r₀.nodeId (.generic m) ∧ (r.inst m.instanceId).view = m.view ∧ s = r.storeGeneric m) ∨
    (∃ id v i, Advances cfg H r id v i ∧ r.advanceView cfg id = some s) := by
  rcases hm.quiet_or with hq | ⟨m, hexp, hindex, hview, hacc, rfl⟩ | ⟨id, hsame, hfresh, hready, ha⟩
  · exact Or.inl hq
  · have hcur := hacc.current h.paced hexp.honest.peer hindex hview
    exact Or.inr (Or.inl ⟨m, hexp.honest, hcur, h.sound.lockGeneric_eq hexp.honest hcur⟩)
  · obtain ⟨v, i, hadv⟩ := h.sound.advances h₀.steady.paced h.paced hsame
      (hfresh.imp fun m hm => hm.honest.peer) hready ha
    exact Or.inr (Or.inr ⟨id, v, i, hadv, ha⟩)

lemma installQC_inst {id v i : ℕ} (hadv : Advances cfg H r id v i) :
    (r.installQC id).inst i = (r.inst i).storeQC (genericQCOf (r.table id) v) := by
  simp only [installQC, observe_inst, setInst_inst, hadv.inst, hadv.view, Function.update_self]

lemma Sound.two_le_of_commits (h : Sound cfg H r) {id v i : ℕ} (hadv : Advances cfg H r id v i)
    (hc : ((r.inst i).storeQC (genericQCOf (r.table id) v)).Commits (genericQCOf (r.table id) v) (v + 1)) :
    2 ≤ v := by
  have hbound := (h.bound i).storeQC (show (genericQCOf (r.table id) v).viewNumber ≤ (r.inst i).view by
    rw [hadv.cert.viewNumber, hadv.view])
  obtain ⟨b3, hb3⟩ : ∃ qc, ((r.inst i).storeQC (genericQCOf (r.table id) v)).parentOf
    (((r.inst i).storeQC (genericQCOf (r.table id) v)).parentOf (genericQCOf (r.table id) v)) = qc := ⟨_, rfl⟩
  have hle : b3.viewNumber ≤ (r.inst i).view := by
    rw [← hb3]
    exact hbound.stored.get (Nat.zero_le _) _
  have hview := hc.2
  have hrange := Config.InRange.view_lt cfg hadv.range
  rw [hadv.view] at hle
  rw [hb3, add64_of_lt (by omega)] at hview
  omega

lemma Calm.step_invariant (h : Calm cfg H r) {e : Event} (he : FaultFree cfg crypto H r e)
    (hs : r.step cfg crypto e = some s) {I : Replica → Prop}
    (hI : ∀ u v, Midway cfg H r u → CalmMove cfg crypto H r u v → I u → I v) (hr : I r) :
    Midway cfg H r s ∧ I s := by
  apply (h.moves he hs).invariant (I := fun s => Midway cfg H r s ∧ I s)
  · rintro u v huv ⟨hmid, hu⟩
    exact ⟨hmid.move h huv, hI u v hmid huv hu⟩
  · exact ⟨h.midway, hr⟩

lemma Calm.step (h : Calm cfg H r) {e : Event} (he : FaultFree cfg crypto H r e) (hs : r.step cfg crypto e = some s) :
    Calm cfg H s := by
  obtain ⟨hmid, hparked⟩ := h.step_invariant he hs
    (I := fun s => ∀ i, ∀ m ∈ s.queues i, Expected cfg H r (.generic m)) (fun u v _ huv hu => huv.parked hu)
    h.expected_parked
  refine ⟨h.steady.step he.named hs, hmid.sound, ?_⟩
  rw [step_nodeId cfg crypto hs]
  exact fun i m hm => (hparked i m hm).honest

lemma sound_init (p : ℕ) : Sound cfg H (init cfg p) where
  stage _ _ := .genesis rfl rfl rfl rfl
  tabled := ⟨fun _ _ _ hh => absurd rfl hh, nofun⟩
  genesis _ := rfl
  bound i := by
    refine ⟨le_rfl, le_rfl, ?_⟩
    simp only [init, Instance.init]
    refine UMap.All.insert ?_ _ le_rfl
    intro k qc hk
    cases hk
  real := nofun
  out e he := by simp [init] at he

lemma calm_init (hp : p < cfg.nodeCnt) : Calm cfg H (init cfg p) where
  steady := steady_init hp
  sound := sound_init p
  parked i m hm := by simp [queues, init, Instance.init] at hm

lemma calm_reach (hp : p < cfg.nodeCnt) (h : Reach (step cfg crypto) (FaultFree cfg crypto H) (init cfg p) r) :
    Calm cfg H r := by
  apply h.invariant (Calm cfg H) (calm_init hp)
  intro s e t _ he hs hc
  exact hc.step he hs

lemma calm_invariant {I : Replica → Prop} (hp : p < cfg.nodeCnt) (hinit : I (init cfg p))
    (hI : ∀ r₀ r s, Calm cfg H r₀ → I r₀ → Midway cfg H r₀ r → CalmMove cfg crypto H r₀ r s → I r → I s)
    (h : Reach (step cfg crypto) (FaultFree cfg crypto H) (init cfg p) r) : I r := by
  have hboth : Calm cfg H r ∧ I r := by
    apply h.invariant (fun r => Calm cfg H r ∧ I r) ⟨calm_init hp, hinit⟩
    intro s e t _ he hs ⟨hc, hi⟩
    refine ⟨hc.step he hs, ?_⟩
    exact (hc.step_invariant he hs (fun u v hmid huv hu => hI s u v hc hi hmid huv hu) hi).2
  exact hboth.2

def OwnGenerics (cfg : Config) (r : Replica) : Prop :=
  ∀ i id, (i, id) ∈ r.generics → i < cfg.totInstances ∧
    ∃ w ≤ (r.inst i).view, id = cfg.lastTxn w i ∧ cfg.getViewPrimary w i = r.nodeId

lemma OwnGenerics.move (h : OwnGenerics cfg r) (hp : Paced cfg r) (hm : Move cfg crypto P (Current cfg r₀) B r₀ r s) :
    OwnGenerics cfg s := by
  intro i id hg
  have hle := hm.view_le i
  have hold : (i, id) ∈ r.generics → i < cfg.totInstances ∧
      ∃ w ≤ (s.inst i).view, id = cfg.lastTxn w i ∧ cfg.getViewPrimary w i = s.nodeId := by
    intro hg
    obtain ⟨hi, w, hw, hid, hown⟩ := h i id hg
    exact ⟨hi, w, hw.trans hle, hid, hown.trans hm.nodeId.symm⟩
  rcases hm.generics with heq | ⟨k, hsame, ⟨j, hj, rfl, hown⟩, _, hh, rfl⟩
  · exact hold (heq ▸ hg)
  · rw [announceGeneric_generics] at hg
    rcases List.mem_append.mp hg with hg | hg
    · exact hold hg
    · obtain ⟨rfl, rfl⟩ := Prod.mk.inj (List.mem_singleton.mp hg)
      rw [hp.insts _ j hj hh]
      exact ⟨hj, _, (hsame.view j).ge, rfl, hown.trans hsame.nodeId.symm⟩

lemma ownGenerics_reach (hp : p < cfg.nodeCnt)
    (h : Reach (step cfg crypto) (FaultFree cfg crypto H) (init cfg p) r) : OwnGenerics cfg r := by
  apply calm_invariant hp _ _ h
  · intro i id hg
    simp [Replica.generics, init] at hg
  · intro r₀ r s _ _ hmid hm hi
    exact hi.move hmid.paced hm

-- What is known of the GENERICs behind a replica's flags, its parked messages and its votes: `G` holds of their slots.
structure Told (G : ℕ → Prop) (r : Replica) : Prop where
  received : ∀ id, (r.table id).genericReceived = true → G id
  parked : ∀ i, ∀ m ∈ r.queues i, G m.txnId
  out : ∀ e ∈ r.out, (∀ m, e.2 ≠ .proposal m) → G e.2.txnId

lemma Told.imp {G G' : ℕ → Prop} (h : Told G r) (hG : ∀ id, G id → G' id) : Told G' r :=
  ⟨fun id hid => hG _ (h.received id hid), fun i m hm => hG _ (h.parked i m hm), fun e he hne => hG _ (h.out e he hne)⟩

lemma Told.move {G : ℕ → Prop} (h : Told G r) (hP : ∀ m, P m → (∀ q, m ≠ .proposal q) → G m.txnId)
    (hgen : ∀ i id, (i, id) ∈ s.generics → G id) (hm : Move cfg crypto P Q B r₀ r s) : Told G s where
  received id hid := by
    rcases hm.received hid with hrec | ⟨m, hPm, rfl, _⟩ | ⟨_, _, _, hsent⟩
    · exact h.received id hrec
    · exact hP _ hPm nofun
    · exact hgen _ id (mem_generics.mpr hsent)
  parked i m hmem := by
    rcases hm.queues i m hmem with hmem | ⟨_, hPm⟩
    · exact h.parked i m hmem
    · exact hP _ hPm nofun
  out e he hne := by
    rcases hm.sent e he with he | ⟨m, heq⟩ | ⟨id, heq, hsent⟩ | ⟨id, share, heq, hg⟩
    · exact h.out e he hne
    · exact absurd heq (hne m)
    · rw [heq]
      exact hgen _ id (mem_generics.mpr hsent)
    · rw [heq]
      exact h.received id hg

end Replica

namespace System

variable {cfg : Config} {crypto : Crypto} {H : ℕ → ℕ → Bytes} {S T : System}

def Announced (cfg : Config) (S : System) (id : ℕ) : Prop := ∃ q < cfg.nodeCnt, ∃ i, (i, id) ∈ (S q).generics

-- `H` gives every slot that has been filled the digest of its batch.
def Fits (cfg : Config) (H : ℕ → ℕ → Bytes) (S : System) : Prop :=
  ∀ q < cfg.nodeCnt, ∀ i w batch hash, .proposed i w batch hash ∈ (S q).trace → H w i = hash

def Reaches (cfg : Config) (crypto : Crypto) (H : ℕ → ℕ → Bytes) (S : System) : Prop :=
  ∀ p < cfg.nodeCnt, Reach (Replica.step cfg crypto) (Replica.FaultFree cfg crypto H) (Replica.init cfg p) (S p)

def AllTold (cfg : Config) (S : System) : Prop := ∀ p < cfg.nodeCnt, (S p).Told (Announced cfg S)

lemma delivered {e : Event} {m : Msg} (hok : Allowed cfg ∅ S e) (ha : e.local S = some (.deliver m)) :
    ∃ q < cfg.nodeCnt, (e.node, m) ∈ (S q).out := by
  cases e with
  | act p e => cases e <;> simp [Event.local] at ha
  | relay p q k =>
    simp only [Event.local] at ha
    split at ha
    · rename_i d m' hout
      split_ifs at ha with hd
      obtain rfl := Replica.Event.deliver.inj (Option.some.inj ha)
      exact ⟨q, hok.2.2.1, hd ▸ List.mem_of_getElem? hout⟩
    · cases ha
  | inject p m => exact absurd hok.2.2.2 (Finset.notMem_empty _)

lemma step_genuine (hreach : Reaches cfg crypto H S) {e : Event} {a : Replica.Event} (hok : Allowed cfg ∅ S e)
    (ha : e.local S = some a) : (S e.node).Genuine cfg a :=
  local_genuine (fun p hp => (hreach p hp).mono fun _ _ h => h.genuine) hok ha

lemma step_faultFree (hreach : Reaches cfg crypto H S) (htold : AllTold cfg S) {e : Event} {a : Replica.Event}
    {r : Replica} (hok : Allowed cfg ∅ S e) (ha : e.local S = some a) (hr : (S e.node).step cfg crypto a = some r)
    (hnode : e.node < cfg.nodeCnt) (hfit : Fits cfg H (Function.update S e.node r)) :
    (S e.node).FaultFree cfg crypto H a := by
  have hgenuine := step_genuine hreach hok ha
  have hself := Replica.nodeId_reach cfg crypto (hreach _ hnode)
  refine ⟨hgenuine, ?_, ?_⟩
  · rintro m rfl
    obtain ⟨q, hq, hout⟩ := delivered hok ha
    have hsent := (Replica.calm_reach hq (hreach q hq)).sound.out _ hout
    refine ⟨⟨⟨hgenuine.1, hgenuine.2.1, hgenuine.2.2, hsent.1⟩, hsent.2⟩, ?_⟩
    rintro v rfl hown
    obtain ⟨u, hu, i, hg⟩ := (htold q hq).out _ hout nofun
    obtain ⟨hi, w, _, hid, hprim⟩ := Replica.ownGenerics_reach hu (hreach u hu) i _ hg
    obtain ⟨rfl, rfl⟩ := cfg.lastTxn_inj hi hgenuine.1 (hid.symm.trans hsent.2.1)
    have hue : u = e.node := by
      rw [← Replica.nodeId_reach cfg crypto (hreach u hu), ← hprim, hown, hself]
    rw [← hue]
    exact hg
  · rintro i j slot batch rfl hpc
    have halloc := (Replica.calm_reach hnode (hreach _ hnode)).steady.alloc
    obtain ⟨hi, hslot, _⟩ := Replica.alloc_stamped cfg crypto halloc hpc
    simp only [Replica.step, Replica.proposalStep, hpc] at hr
    obtain ⟨t, ht, rfl⟩ := Option.map_eq_some_iff.mp hr
    obtain ⟨_, table, _, rfl⟩ := Replica.createAndSendHotstuffPrepare_cases ht
    have hproposed := hfit e.node hnode ((S e.node).proposalOf cfg crypto slot batch).instanceId
      ((S e.node).proposalOf cfg crypto slot batch).view batch
      ((S e.node).proposalOf cfg crypto slot batch).hash (by
        rw [Function.update_self]
        exact List.mem_append_right _ (List.mem_singleton_self _))
    rw [Replica.SlotBatch, hslot, cfg.slot_div _ hi, cfg.slot_mod _ hi, hproposed]
    rfl

lemma step_told (hreach : Reaches cfg crypto H S) (htold : AllTold cfg S) {e : Event} {a : Replica.Event} {r : Replica}
    (hok : Allowed cfg ∅ S e) (ha : e.local S = some a) (hr : (S e.node).step cfg crypto a = some r) :
    AllTold cfg (Function.update S e.node r) := by
  have hgenuine := step_genuine hreach hok ha
  have htrace := Replica.step_trace hgenuine hr
  have hmono : ∀ id, Announced cfg S id → Announced cfg (Function.update S e.node r) id := by
    rintro id ⟨q, hq, i, hg⟩
    refine ⟨q, hq, i, ?_⟩
    by_cases hqe : q = e.node
    · subst hqe
      obtain ⟨l, hl⟩ := htrace
      rw [Function.update_self, Replica.mem_generics, hl]
      exact List.mem_append_left _ (Replica.mem_generics.mp hg)
    · rwa [Function.update_of_ne hqe]
  intro p hp
  by_cases hpe : p = e.node
  · subst hpe
    rw [Function.update_self]
    let P (m : Msg) : Prop := (∀ q, m ≠ .proposal q) → Announced cfg S m.txnId
    have hsupplies : Replica.Supplies cfg P (fun _ _ => True) (S e.node) a := by
      cases a with
      | deliver m =>
        obtain ⟨q, hq, hout⟩ := delivered hok ha
        exact (htold q hq).out _ hout
      | recycle => exact hgenuine
      | proposalThread => exact fun _ _ _ => trivial
      | _ => trivial
    have hmoves : Replica.Moves cfg crypto P (fun _ => True) (fun _ _ => True) (S e.node) (S e.node) r :=
      Replica.step_moves hsupplies (fun i m hm _ => (htold _ hp).parked i m hm) (fun _ _ => trivial) hr
    have htold' := hmoves.invariant (I := fun s => s.Told fun id => Announced cfg S id ∨ ∃ i, (i, id) ∈ s.generics)
      (fun u v huv hu => by
        have hu' : u.Told fun id => Announced cfg S id ∨ ∃ i, (i, id) ∈ v.generics :=
          hu.imp fun id hid => hid.imp_right fun ⟨i, hg⟩ => ⟨i, huv.mem_generics hg⟩
        exact hu'.move (fun m hm hne => Or.inl (hm hne)) (fun i id hg => Or.inr ⟨i, hg⟩) huv)
      ((htold _ hp).imp fun id hid => Or.inl hid)
    refine htold'.imp fun id hid => ?_
    rcases hid with hid | ⟨i, hg⟩
    · exact hmono id hid
    · exact ⟨e.node, hp, i, by rwa [Function.update_self]⟩
  · rw [Function.update_of_ne hpe]
    exact (htold p hp).imp hmono

lemma Fits.of_update {p : ℕ} {r : Replica} (hfit : Fits cfg H (Function.update S p r))
    (htrace : ∃ l, r.trace = (S p).trace ++ l) : Fits cfg H S := by
  intro q hq i w batch hash ho
  apply hfit q hq i w batch hash
  by_cases hqp : q = p
  · subst hqp
    obtain ⟨l, hl⟩ := htrace
    rw [Function.update_self, hl]
    exact List.mem_append_left l ho
  · rwa [Function.update_of_ne hqp]

lemma reaches_faultFree (h : Reachable cfg crypto ∅ S) (hfit : Fits cfg H S) :
    Reaches cfg crypto H S ∧ AllTold cfg S := by
  induction h with
  | start =>
    refine ⟨fun p _ => .start, fun p _ => ⟨nofun, fun i m hm => ?_, fun e he => ?_⟩⟩
    · simp [init, Replica.queues, Replica.init, Instance.init] at hm
    · simp [init, Replica.init] at he
  | @next S T e h hok hs ih =>
    obtain ⟨a, r, ha, hr, rfl⟩ := step_cases hs
    have hnode : e.node < cfg.nodeCnt := by cases e <;> exact hok.1
    have hgenuine := local_genuine (fun p hp => reach_replica h hp) hok ha
    obtain ⟨hreach, htold⟩ := ih (hfit.of_update (Replica.step_trace hgenuine hr))
    refine ⟨fun p hp => ?_, step_told hreach htold hok ha hr⟩
    by_cases hpe : p = e.node
    · subst hpe
      rw [Function.update_self]
      exact .next a (hreach _ hp) (step_faultFree hreach htold hok ha hr hnode hfit) hr
    · rw [Function.update_of_ne hpe]
      exact hreach p hp

lemma faultFree_step (h : Reachable cfg crypto ∅ S) {e : Event} (hok : Allowed cfg ∅ S e)
    (hs : step cfg crypto S e = some T) {H : ℕ → ℕ → Bytes} (hfit : Fits cfg H T) :
    Reaches cfg crypto H S ∧ ∃ a r, e.local S = some a ∧ (S e.node).FaultFree cfg crypto H a ∧ e.node < cfg.nodeCnt ∧
      (S e.node).step cfg crypto a = some r ∧ T = Function.update S e.node r := by
  obtain ⟨a, r, ha, hr, rfl⟩ := step_cases hs
  have hnode : e.node < cfg.nodeCnt := by cases e <;> exact hok.1
  have hgenuine := local_genuine (fun p hp => reach_replica h hp) hok ha
  obtain ⟨hreach, htold⟩ := reaches_faultFree h (hfit.of_update (Replica.step_trace hgenuine hr))
  exact ⟨hreach, a, r, ha, step_faultFree hreach htold hok ha hr hnode hfit, hnode, hr, rfl⟩

section Digest

variable (cfg S)

def digest (w i : ℕ) : Bytes := ((S (cfg.getViewPrimary w i)).trace.findSome? (Obs.digest? w i)).getD []

variable {cfg S}

lemma fits_digest (h : Reachable cfg crypto ∅ S) : Fits cfg (S.digest cfg) S := by
  intro q hq i w batch hash ho
  have hreach := reach_replica h hq
  have hprim := (Replica.alloc_reach cfg crypto hq hreach).past _ (Replica.mem_proposals ho)
  have hq' : cfg.getViewPrimary w i = q := hprim.2.1.trans (Replica.nodeId_reach cfg crypto hreach)
  rw [digest, hq']
  cases hfind : (S q).trace.findSome? (Obs.digest? w i) with
  | none =>
    have := List.findSome?_eq_none_iff.mp hfind _ ho
    simp [Obs.digest?] at this
  | some hash' =>
    obtain ⟨o, ho', heq⟩ := List.exists_of_findSome?_eq_some hfind
    obtain ⟨batch', rfl⟩ := Obs.eq_proposed_of_digest? heq
    obtain ⟨_, rfl⟩ := Replica.proposed_unique hq hreach ho ho'
    rfl

lemma exists_proposed_of_digest {w i : ℕ} (h : S.digest cfg w i ≠ []) :
    ∃ batch, .proposed i w batch (S.digest cfg w i) ∈ (S (cfg.getViewPrimary w i)).trace := by
  cases hfind : (S (cfg.getViewPrimary w i)).trace.findSome? (Obs.digest? w i) with
  | none =>
    rw [digest, hfind] at h
    exact absurd rfl h
  | some hash =>
    obtain ⟨o, ho, heq⟩ := List.exists_of_findSome?_eq_some hfind
    obtain ⟨batch, rfl⟩ := Obs.eq_proposed_of_digest? heq
    rw [digest, hfind]
    exact ⟨batch, ho⟩

end Digest

lemma reaches_digest (h : Reachable cfg crypto ∅ S) : Reaches cfg crypto (S.digest cfg) S :=
  (reaches_faultFree h (fits_digest h)).1

end System

end SpotLess
