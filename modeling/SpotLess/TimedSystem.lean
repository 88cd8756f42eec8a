import SpotLess.Certificates
import SpotLess.FailedViews

/-! A deployment of replicas with view timers, over the network of the other build. A view fails, and its slot is passed
over, only where a quorum of replicas has timed out in it. -/

namespace SpotLess

open Lib

def Config.crashing : Config :=
  { Config.fourReplicas with
    crashView := 2
    crashView_pos := Nat.two_pos }

namespace TimedReplica

variable {cfg : Config} {crypto : Crypto} {R S : TimedReplica cfg} {p : ℕ}

-- A timer runs out at a node that is not to fail, late enough, under a primary that is.
structure Expires (cfg : Config) (p i view : ℕ) : Prop where
  correct : TimerConfig.failing p = false
  late : cfg.crashView < view
  silent : TimerConfig.failing (cfg.getViewPrimary view i) = true

structure Candid (p : ℕ) (R : TimedReplica cfg) : Prop where
  nodeId : R.base.nodeId = p
  asked : ∀ d m, (d, .sync m) ∈ R.base.out → m.nonVote = true → m.returnNodeId = p ∧ (m.instanceId, m.view) ∈ R.timeouts
  expired : ∀ f ∈ R.timeouts, Expires cfg p f.1 f.2

lemma candid_init (p : ℕ) : Candid p (init cfg p) where
  nodeId := rfl
  asked _ _ h := absurd h List.not_mem_nil
  expired _ h := absurd h List.not_mem_nil

lemma Candid.move (h : Candid p R) {r₀ r s : Replica} {P : Msg → Prop} {Q : ℕ → Prop}
    {B : ℕ → ClientQueryBatch → Prop} (hr : Candid p { R with base := r })
    (hm : Replica.Move cfg crypto P Q B r₀ r s) : Candid p { R with base := s } := by
  refine ⟨hm.nodeId.trans hr.nodeId, fun d m hmem hvote => ?_, h.expired⟩
  rcases hm.sent _ hmem with hold | ⟨_, heq⟩ | ⟨_, heq, _⟩ | ⟨id, share, heq, _⟩
  · exact hr.asked d m hold hvote
  · cases heq
  · cases heq
  · obtain rfl := Msg.sync.inj heq
    cases hvote

lemma Candid.counts (h : Candid p R) {i : Fin cfg.totInstances} {view voter : ℕ} (hc : Counts R i view voter S) :
    Candid p S := by
  cases hc with
  | more => exact ⟨h.nodeId, h.asked, h.expired⟩
  | last =>
    have hkeep : (enterFailed cfg R.base i view).nodeId = R.base.nodeId ∧
        (enterFailed cfg R.base i view).out = R.base.out := by
      simp only [enterFailed]
      split_ifs <;> exact ⟨rfl, rfl⟩
    refine ⟨hkeep.1.trans h.nodeId, fun d m hmem hvote => h.asked d m ?_ hvote, h.expired⟩
    exact hkeep.2 ▸ hmem

lemma Candid.announce (h : Candid p R) {i view : ℕ} (hout : R.TimesOut i view) : Candid p (R.announceTimeout i view) := by
  refine ⟨h.nodeId, fun d m hmem hvote => ?_, fun f hf => ?_⟩
  · rcases List.mem_append.mp hmem with hmem | hmem
    · obtain ⟨hname, hask⟩ := h.asked d m hmem hvote
      exact ⟨hname, List.mem_append_left _ hask⟩
    · obtain ⟨_, _, heq⟩ := List.mem_map.mp hmem
      obtain rfl := Msg.sync.inj (Prod.mk.inj heq).2
      exact ⟨h.nodeId, List.mem_append_right _ (List.mem_singleton_self _)⟩
  · rcases List.mem_append.mp hf with hf | hf
    · exact h.expired f hf
    · rw [List.mem_singleton.mp hf]
      exact ⟨h.nodeId ▸ hout.correct, hout.late, hout.silent⟩

lemma Candid.step (h : Candid p R) {e : Event} (hok : Pooled cfg R e) (hs : R.step crypto e = some S) : Candid p S := by
  cases step_cases hok hs with
  | moves hm =>
    exact hm.invariant (I := fun u => Candid p { R with base := u }) (fun _ _ hmove hu => h.move hu hmove) h
  | vote _ _ _ _ hc => exact h.counts hc
  | timeout _ _ hout hc => exact (h.announce hout).counts hc

lemma candid_reach (h : Reach (step crypto) (Pooled cfg) (init cfg p) R) : Candid p R :=
  h.invariant (Candid p) (candid_init p) fun _ _ _ _ hok hs hc => hc.step hok hs

end TimedReplica

abbrev TimedSystem (cfg : Config) := ℕ → TimedReplica cfg

namespace TimedSystem

variable (cfg : Config) (crypto : Crypto)

inductive Event
  | act (p : ℕ) (e : TimedReplica.Event)
  | relay (p s k : ℕ)
  | inject (p : ℕ) (m : Msg)

def init : TimedSystem cfg := TimedReplica.init cfg

def Event.node : Event → ℕ
  | .act p _ | .relay p _ _ | .inject p _ => p

variable {cfg} in
def Event.local (S : TimedSystem cfg) : Event → Option TimedReplica.Event
  | .act _ (.base (.deliver _)) => none
  | .act _ e => some e
  | .relay p s k =>
    match (S s).base.out[k]? with
    | some (d, m) => if d = p then some (.base (.deliver m)) else none
    | none => none
  | .inject _ m => some (.base (.deliver m))

def step (S : TimedSystem cfg) (e : Event) : Option (TimedSystem cfg) :=
  (e.local S).bind fun a => ((S e.node).step crypto a).map fun R => Function.update S e.node R

def Allowed (byz : Finset ℕ) (S : TimedSystem cfg) : Event → Prop
  | .act p e => p < cfg.nodeCnt ∧ p ∉ byz ∧ (S p).Pooled cfg e
  | .relay p s _ => p < cfg.nodeCnt ∧ p ∉ byz ∧ s < cfg.nodeCnt ∧ s ∉ byz
  | .inject p m => p < cfg.nodeCnt ∧ p ∉ byz ∧ m.returnNodeId < cfg.nodeCnt ∧ m.returnNodeId ∈ byz

instance (byz : Finset ℕ) : (S : TimedSystem cfg) → (e : Event) → Decidable (Allowed cfg byz S e)
  | _, .act _ _ => inferInstanceAs (Decidable (_ ∧ _ ∧ _))
  | _, .relay _ _ _ => inferInstanceAs (Decidable (_ ∧ _ ∧ _ ∧ _))
  | _, .inject _ _ => inferInstanceAs (Decidable (_ ∧ _ ∧ _ ∧ _))

def Reachable (byz : Finset ℕ) (S : TimedSystem cfg) : Prop := Reach (step cfg crypto) (Allowed cfg byz) (init cfg) S

variable {cfg crypto} {byz : Finset ℕ} {S T : TimedSystem cfg} {p : ℕ}

def Origin (byz : Finset ℕ) (S : TimedSystem cfg) (m : Msg) : Prop :=
  (m.returnNodeId < cfg.nodeCnt ∧ m.returnNodeId ∈ byz) ∨ ∃ s d, s < cfg.nodeCnt ∧ s ∉ byz ∧ (d, m) ∈ (S s).base.out

lemma local_act {e : TimedReplica.Event} (he : ∀ m, e ≠ .base (.deliver m)) : (Event.act p e).local S = some e := by
  cases e with
  | base e =>
    cases e with
    | deliver m => exact absurd rfl (he m)
    | replay | clientBatch | proposalThread | genericThread | workerGenericP | execute | recycle => rfl
  | timeout | discard => rfl

lemma local_cases {e : Event} {a : TimedReplica.Event} (hok : Allowed cfg byz S e) (h : e.local S = some a) :
    e.node < cfg.nodeCnt ∧ e.node ∉ byz ∧ TimedReplica.Pooled cfg (S e.node) a ∧
      ∀ m, a = .base (.deliver m) → Origin byz S m := by
  cases e with
  | act p e =>
    by_cases he : ∀ m, e ≠ .base (.deliver m)
    · rw [local_act he] at h
      obtain rfl := Option.some.inj h
      exact ⟨hok.1, hok.2.1, hok.2.2, fun m hm => absurd hm (he m)⟩
    · simp only [ne_eq, not_forall, not_not] at he
      obtain ⟨m, rfl⟩ := he
      cases h
  | relay p s k =>
    simp only [Event.local] at h
    split at h
    · rename_i d m hk
      split_ifs at h
      obtain rfl := Option.some.inj h
      refine ⟨hok.1, hok.2.1, trivial, fun m' hm => ?_⟩
      cases hm
      exact .inr ⟨s, d, hok.2.2.1, hok.2.2.2, List.mem_of_getElem? hk⟩
    · cases h
  | inject p m =>
    obtain rfl := Option.some.inj h
    refine ⟨hok.1, hok.2.1, trivial, fun m' hm => ?_⟩
    cases hm
    exact .inl hok.2.2

lemma step_cases {e : Event} (hok : Allowed cfg byz S e) (h : step cfg crypto S e = some T) :
    ∃ a R, e.node < cfg.nodeCnt ∧ e.node ∉ byz ∧ TimedReplica.Pooled cfg (S e.node) a ∧
      (S e.node).step crypto a = some R ∧ T = Function.update S e.node R ∧
      ∀ m, a = .base (.deliver m) → Origin byz S m := by
  obtain ⟨a, ha, hm⟩ := Option.bind_eq_some_iff.mp h
  obtain ⟨R, hR, rfl⟩ := Option.map_eq_some_iff.mp hm
  obtain ⟨hnode, hcorrect, hpool, horigin⟩ := local_cases hok ha
  exact ⟨a, R, hnode, hcorrect, hpool, hR, rfl, horigin⟩

lemma reach_replica (h : Reachable cfg crypto byz S) (p : ℕ) :
    Reach (TimedReplica.step crypto) (TimedReplica.Pooled cfg) (TimedReplica.init cfg p) (S p) := by
  induction h with
  | start => exact .start
  | next e _ hok hs ih =>
    obtain ⟨a, R, _, _, hpool, hR, rfl, _⟩ := step_cases hok hs
    by_cases hp : p = e.node
    · subst hp
      rw [Function.update_self]
      exact .next a ih hpool hR
    · rwa [Function.update_of_ne hp]

-- A replica has timed out in a view that the nodes chosen to fail lead.
structure TimedOut (S : TimedSystem cfg) (q i view : ℕ) : Prop where
  timeout : (i, view) ∈ (S q).timeouts
  expires : TimedReplica.Expires cfg q i view

def VotedOut (byz : Finset ℕ) (S : TimedSystem cfg) (i view : ℕ) : Prop :=
  ∃ voters ⊆ Finset.range cfg.nodeCnt, cfg.nf ≤ voters.card ∧ ∀ q ∈ voters, q ∈ byz ∨ S.TimedOut q i view

-- Every vote a correct replica counts is a faulty one's or has a timeout behind it.
def Backed (byz : Finset ℕ) (S : TimedSystem cfg) : Prop :=
  ∀ p, ∀ c ∈ (S p).counted, ∃ q < cfg.nodeCnt, c.voterId = .ofNat q ∧
    (q ∈ byz ∨ (c.instanceId.val, c.view.toNat) ∈ (S q).timeouts)

lemma counts_counted {R R' : TimedReplica cfg} {i : Fin cfg.totInstances} {view voter : ℕ}
    (h : TimedReplica.Counts R i view voter R') :
    R'.counted = R.counted ++ [TimedReplica.callOf i view voter] ∧ R'.timeouts = R.timeouts := by
  cases h <;> exact ⟨rfl, rfl⟩

lemma callOf_view {i : Fin cfg.totInstances} {view voter : ℕ} (h : view < 2 ^ 64) :
    (TimedReplica.callOf i view voter).view.toNat = view := by
  have hplace : TimedReplica.placeOf (TimedReplica.callOf i view voter) = (i.val, view) := TimedReplica.placeOf_callOf h
  exact (Prod.mk.inj hplace).2

lemma step_votes {R R' : TimedReplica cfg} {a : TimedReplica.Event} (hok : TimedReplica.Pooled cfg R a)
    (hs : R.step crypto a = some R') : (∀ f ∈ R.timeouts, f ∈ R'.timeouts) ∧ ∀ c ∈ R'.counted, c ∈ R.counted ∨
      ((c.instanceId.val, c.view.toNat) ∈ R'.timeouts ∧ c.voterId = .ofNat R.base.nodeId) ∨
      ∃ m, a = .base (.deliver (.sync m)) ∧ m.nonVote = true ∧ c.instanceId.val = m.instanceId ∧
        c.view.toNat = m.view ∧ c.voterId = .ofNat m.returnNodeId := by
  cases TimedReplica.step_cases hok hs with
  | moves => exact ⟨fun _ hf => hf, fun _ hc => .inl hc⟩
  | @vote m _ hvote hi hview _ h =>
    obtain ⟨hcounted, htimeouts⟩ := counts_counted h
    refine ⟨fun f hf => htimeouts ▸ hf, fun c hc => ?_⟩
    rw [hcounted] at hc
    rcases List.mem_append.mp hc with hc | hc
    · exact .inl hc
    · rw [List.mem_singleton.mp hc]
      exact .inr (.inr ⟨m, rfl, hvote, rfl, callOf_view hview, rfl⟩)
  | @timeout i view _ hi hview _ h =>
    obtain ⟨hcounted, htimeouts⟩ := counts_counted h
    refine ⟨fun f hf => htimeouts ▸ List.mem_append_left _ hf, fun c hc => ?_⟩
    rw [hcounted] at hc
    rcases List.mem_append.mp hc with hc | hc
    · exact .inl hc
    · rw [List.mem_singleton.mp hc, callOf_view hview, htimeouts]
      exact .inr (.inl ⟨List.mem_append_right _ (List.mem_singleton_self _), rfl⟩)

lemma backed_reach (h : Reachable cfg crypto byz S) : Backed byz S := by
  induction h with
  | start => exact fun _ _ hc => absurd hc List.not_mem_nil
  | @next S T e hr hok hs ih =>
    obtain ⟨a, R, hnode, hcorrect, hpool, hR, rfl, horigin⟩ := step_cases hok hs
    have hcandid : ∀ s, TimedReplica.Candid s (S s) := fun s => TimedReplica.candid_reach (reach_replica hr s)
    obtain ⟨hgrow, hvotes⟩ := step_votes hpool hR
    have hkeep : ∀ {q : ℕ} {f : ℕ × ℕ}, f ∈ (S q).timeouts → f ∈ (Function.update S e.node R q).timeouts := by
      intro q f hf
      by_cases hq : q = e.node
      · subst hq
        rw [Function.update_self]
        exact hgrow f hf
      · rwa [Function.update_of_ne hq]
    have hold : ∀ {p : ℕ}, ∀ c ∈ (S p).counted, ∃ q < cfg.nodeCnt, c.voterId = .ofNat q ∧
        (q ∈ byz ∨ (c.instanceId.val, c.view.toNat) ∈ (Function.update S e.node R q).timeouts) := by
      intro p c hc
      obtain ⟨q, hq, hvoter, hb⟩ := ih p c hc
      exact ⟨q, hq, hvoter, hb.imp_right hkeep⟩
    intro p c hc
    by_cases hp : p = e.node
    swap
    · rw [Function.update_of_ne hp] at hc
      exact hold c hc
    subst hp
    rw [Function.update_self] at hc
    rcases hvotes c hc with hc | ⟨hout, hvoter⟩ | ⟨m, rfl, hvote, hi, hview, hvoter⟩
    · exact hold c hc
    · refine ⟨e.node, hnode, ?_, .inr ?_⟩
      · rw [hvoter, (hcandid e.node).nodeId]
      · rwa [Function.update_self]
    · rcases horigin _ rfl with ⟨hlt, hbyz⟩ | ⟨s, d, hs', _, hmem⟩
      · exact ⟨m.returnNodeId, hlt, hvoter, .inl hbyz⟩
      · obtain ⟨hname, hask⟩ := (hcandid s).asked d m hmem hvote
        refine ⟨s, hs', by rw [hvoter, hname], .inr (hkeep ?_)⟩
        rwa [hi, hview]

lemma votedOut (h : Reachable cfg crypto byz S) {f : ℕ × ℕ} (hf : f ∈ (S p).failures) : VotedOut byz S f.1 f.2 := by
  classical
  have hkept := TimedReplica.kept_reach (reach_replica h p)
  rw [hkept.failures] at hf
  obtain ⟨c, hc, rfl⟩ := List.mem_map.mp hf
  have hquorum := FaultManager.mem_granted hc
  let i : ℕ := c.instanceId
  let view : ℕ := c.view.toNat
  refine ⟨(Finset.range cfg.nodeCnt).filter fun q => q ∈ byz ∨ S.TimedOut q i view, Finset.filter_subset _ _, ?_,
    fun q hq => (Finset.mem_filter.mp hq).2⟩
  have hsub : FaultManager.distinctVoters (S p).counted c.place ⊆
      ((Finset.range cfg.nodeCnt).filter fun q => q ∈ byz ∨ S.TimedOut q i view).image UInt64.ofNat := by
    intro u hu
    simp only [FaultManager.distinctVoters, List.mem_toFinset, List.mem_map, List.mem_filter, decide_eq_true_eq] at hu
    obtain ⟨b, ⟨hb, hplace⟩, rfl⟩ := hu
    obtain ⟨q, hq, hvoter, hbacked⟩ := backed_reach h p b hb
    obtain ⟨hbi, hbv⟩ := Prod.mk.inj hplace
    refine Finset.mem_image.mpr ⟨q, Finset.mem_filter.mpr ⟨Finset.mem_range.mpr hq, ?_⟩, hvoter.symm⟩
    rw [hbi, hbv] at hbacked
    refine hbacked.imp_right fun hout => ⟨hout, ?_⟩
    exact (TimedReplica.candid_reach (reach_replica h q)).expired _ hout
  exact hquorum.trans ((Finset.card_le_card hsub).trans Finset.card_image_le)

theorem failed_view_quorum (h : Reachable cfg crypto byz S) (p : ℕ) :
    (∀ f ∈ (S p).failures, VotedOut byz S f.1 f.2) ∧
      ∀ c, (c + 1) * cfg.batchSize ≤ (S p).base.exec.nextIndex →
        (∀ k ∈ List.range' (c * cfg.batchSize) cfg.batchSize, k ∈ (S p).base.exec.ran.map Prod.fst) ∨
          VotedOut byz S (c % cfg.totInstances) (c / cfg.totInstances) := by
  refine ⟨fun f hf => votedOut h hf, fun c hc => ?_⟩
  obtain ⟨-, k, skipped, hp⟩ := TimedReplica.inTurn_reach (reach_replica h p)
  have hlt : c < k := by
    rw [hp.nextIndex] at hc
    exact Nat.le_of_mul_le_mul_right hc cfg.batchSize_pos
  by_cases hskip : c ∈ skipped
  · exact .inr (votedOut h (hp.skips c hskip).2)
  · left
    intro n hn
    rw [hp.ran]
    refine List.mem_flatMap.mpr ⟨c, ?_, hn⟩
    exact List.mem_filter.mpr ⟨List.mem_range.mpr hlt, by simpa using hskip⟩

def timed : System.Event → Event
  | .act p e => .act p (.base e)
  | .relay p s k => .relay p s k
  | .inject p m => .inject p m

-- Replicas 0, 1 and 2 certify the first three slots and wait for node 3, which leads the next view; all three time out.
def timesOut : List Event :=
  (System.fillSlot 0 1 ++ System.relays [(1, 0, 0), (2, 0, 1), (1, 0, 3), (2, 0, 4), (1, 0, 6), (2, 0, 7), (0, 1, 0),
    (2, 1, 1), (1, 2, 0), (0, 2, 1)] ++
  System.fillSlot 1 2 ++ System.relays [(0, 1, 3), (2, 1, 4), (0, 1, 6), (2, 0, 9), (1, 0, 10), (2, 1, 7), (2, 1, 9),
    (0, 1, 10), (0, 2, 3), (1, 2, 4)] ++
  System.fillSlot 2 3 ++ System.relays [(0, 2, 6), (1, 2, 7), (0, 2, 9), (1, 0, 13), (2, 0, 14), (1, 2, 10), (0, 1, 13),
    (2, 1, 14), (0, 2, 13), (1, 2, 14)]).map timed ++
  [.act 0 (.timeout 0), .act 1 (.timeout 0), .act 2 (.timeout 0), .relay 0 1 15, .relay 0 2 15]

theorem failed_view_quorum_timeout : ∃ S : TimedSystem .crashing, Reachable .crashing .transparent ∅ S ∧
    (0, 3) ∈ (S 0).timeouts ∧ (0, 3) ∈ (S 1).timeouts ∧ (0, 3) ∈ (S 2).timeouts ∧ (0, 3) ∈ (S 0).failures ∧
    VotedOut ∅ S 0 3 := by
  obtain ⟨S, hr, h⟩ := exists_reach_of_runWith (step .crashing .transparent) (Allowed .crashing ∅) (init .crashing)
    timesOut (fun S => decide ((0, 3) ∈ (S 0).timeouts ∧ (0, 3) ∈ (S 1).timeouts ∧ (0, 3) ∈ (S 2).timeouts ∧
      (0, 3) ∈ (S 0).failures)) (by decide +kernel)
  obtain ⟨h0, h1, h2, hfail⟩ := of_decide_eq_true h
  exact ⟨S, hr, h0, h1, h2, hfail, (failed_view_quorum hr 0).1 _ hfail⟩

end TimedSystem

end SpotLess
