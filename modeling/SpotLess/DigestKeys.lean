import SpotLess.Certificates

/-! The maps an instance keys by batch digests. A digest leads from a slot to its certificate and to its transaction
as long as the digest is bound to one slot that is not committed yet. -/

namespace SpotLess

open Lib

section Keyed

variable (cfg : Config) (H : ℕ → ℕ → Bytes) (i : ℕ)

-- `m` binds digests of slots that are not committed in view `v`, those of the slots in `R` among them.
structure Keyed (v : ℕ) (R : ℕ → Prop) (m : UMap Bytes ℕ) : Prop where
  entries : ∀ h id, m.lookup h = some id → ∃ w, id = cfg.lastTxn w i ∧ h = H w i ∧ v ≤ w + 2 ∧
    ∀ u < w, H u i = H w i → u + 3 ≤ v
  bound : ∀ w, R w → v ≤ w + 2 → m.lookup (H w i) = some (cfg.lastTxn w i)

variable {cfg H i} {v w : ℕ} {R : ℕ → Prop} {m m' : UMap Bytes ℕ}

namespace Keyed

lemma mono {R' : ℕ → Prop} (h : Keyed cfg H i v R m) (hR : ∀ w, R' w → R w) : Keyed cfg H i v R' m :=
  ⟨h.entries, fun w hw => h.bound w (hR w hw)⟩

section Bind

variable (h : Keyed cfg H i v R m) (hw : v ≤ w) (hpast : ∀ u < w, H u i = H w i → u + 3 ≤ v)

include h hw hpast

lemma unique {id : ℕ} (hid : m.lookup (H w i) = some id) : id = cfg.lastTxn w i := by
  obtain ⟨x, rfl, hx, hlive, hpastx⟩ := h.entries _ _ hid
  rcases Nat.lt_trichotomy x w with hlt | rfl | hgt
  · have := hpast x hlt hx.symm
    omega
  · rfl
  · have := hpastx w hgt hx
    omega

lemma insert : Keyed cfg H i v (fun x => R x ∨ x = w) (m.insert (H w i) (cfg.lastTxn w i)) where
  entries k id hid := by
    by_cases hk : k = H w i
    · subst hk
      rw [AList.lookup_insert] at hid
      exact ⟨w, (Option.some.inj hid).symm, rfl, by omega, hpast⟩
    · rw [AList.lookup_insert_ne hk] at hid
      exact h.entries k id hid
  bound x hx hlive := by
    by_cases hk : H x i = H w i
    · rw [hk, AList.lookup_insert]
      rcases hx with hx | rfl
      · have hbound := h.bound x hx hlive
        rw [hk] at hbound
        rw [h.unique hw hpast hbound]
      · rfl
    · rw [AList.lookup_insert_ne hk]
      exact h.bound x (hx.resolve_right fun hxw => hk (by rw [hxw])) hlive

lemma insertNew : Keyed cfg H i v (fun x => R x ∨ x = w) (UMap.insertNew m (H w i) (cfg.lastTxn w i)) := by
  rw [UMap.insertNew]
  split_ifs with hmem
  · refine ⟨h.entries, fun x hx hlive => ?_⟩
    rcases hx with hx | rfl
    · exact h.bound x hx hlive
    · have hlookup := UMap.lookup_eq_get hmem
      rw [hlookup, h.unique hw hpast hlookup]
  · exact h.insert hw hpast

end Bind

lemma advance (h : Keyed cfg H i v R m) (hi : i < cfg.totInstances) (hnil : [] ∉ m)
    (hnil' : [] ∉ m') (hkept : ∀ k, k ≠ [] → (2 ≤ v → k ≠ H (v - 2) i) → m'.lookup k = m.lookup k)
    (hgone : 2 ≤ v → H (v - 2) i ∉ m') : Keyed cfg H i (v + 1) R m' where
  entries k id hid := by
    have hmem : k ∈ m' := AList.lookup_isSome.mp (by rw [hid]; rfl)
    have hk : 2 ≤ v → k ≠ H (v - 2) i := by
      rintro hv rfl
      exact hgone hv hmem
    rw [hkept k (fun hk => hnil' (hk ▸ hmem)) hk] at hid
    obtain ⟨w, hwid, rfl, hlive, hpast⟩ := h.entries k id hid
    refine ⟨w, hwid, rfl, ?_, fun u hu heq => (hpast u hu heq).trans (Nat.le_succ v)⟩
    by_contra hlt
    exact hk (by omega) (by rw [show w = v - 2 by omega])
  bound w hw hlive := by
    have hbound := h.bound w hw (by omega)
    have hmem : H w i ∈ m := AList.lookup_isSome.mp (by rw [hbound]; rfl)
    rw [hkept _ (fun hk => hnil (hk ▸ hmem)), hbound]
    intro hv heq
    obtain ⟨x, hx, _, _, hpast⟩ := h.entries _ _ hbound
    obtain ⟨rfl, _⟩ := cfg.lastTxn_inj hi hi hx
    have := hpast (v - 2) (by omega) heq.symm
    omega

end Keyed

end Keyed

namespace TxnManager

structure Polled (h : Bytes) (t : TxnManager) : Prop where
  only : ∀ k ∈ t.hashVoters, k = h
  viewed : t.newViewed = true → h ∈ t.hashVoters

variable {h : Bytes} {t t' : TxnManager}

lemma Polled.congr (ht : t.Polled h) (hvoters : t'.hashVoters = t.hashVoters) (hviewed : t'.newViewed = t.newViewed) :
    t'.Polled h :=
  ⟨hvoters ▸ ht.only, hvoters ▸ hviewed ▸ ht.viewed⟩

lemma Polled.of_recycled (ht : t.Recycled) : t.Polled h := by
  have hempty : t.hashVoters = ∅ := AList.ext ht.hashVoters
  refine ⟨fun k hk => ?_, fun hv => ?_⟩
  · rw [hempty] at hk
    exact absurd hk (AList.notMem_empty k)
  · rw [ht.newViewed] at hv
    cases hv

lemma Polled.push (ht : t.Polled h) (node : ℕ) (hvoters : t'.hashVoters = (t.pushVoter h node).hashVoters) :
    t'.Polled h := by
  constructor
  · intro k hk
    rw [hvoters, pushVoter, AList.mem_insert] at hk
    exact hk.elim id (ht.only k)
  · intro _
    rw [hvoters, pushVoter, AList.mem_insert]
    exact .inl rfl

lemma Polled.castVote (cfg : Config) (ht : t.Polled t.hash) (qc : QuorumCertificate) (me : ℕ) :
    (Replica.castVote cfg { t with genericQC := qc, syncSent := true } me).Polled t.hash := by
  simp only [Replica.castVote]
  split_ifs <;> exact ht.push me rfl

lemma Polled.hotstuffNewViewed (cfg : Config) {m : SyncMsg} (ht : t.Polled m.hash) (me : ℕ) :
    (Replica.hotstuffNewViewed cfg t me m).1.Polled m.hash := by
  have hseed : (t.seedVotes me).Polled m.hash := ht.congr (by simp) (by simp)
  have hshare : ((t.seedVotes me).storeShare m.returnNodeId m.hash m.sigShare).Polled m.hash :=
    hseed.congr (by simp) (by simp)
  simp only [Replica.hotstuffNewViewed]
  split_ifs
  · exact ht
  · exact hseed
  · exact hshare.push m.returnNodeId rfl
  · exact hshare.push m.returnNodeId rfl

end TxnManager

namespace Replica

variable {cfg : Config} {crypto : Crypto} {H : ℕ → ℕ → Bytes} {r₀ r s : Replica} {p : ℕ}

def Polled (cfg : Config) (H : ℕ → ℕ → Bytes) (table : ℕ → TxnManager) : Prop :=
  ∀ w i, i < cfg.totInstances → (table (cfg.lastTxn w i)).Polled (H w i)

lemma Polled.update {table : ℕ → TxnManager} (h : Polled cfg H table) {id : ℕ} {t : TxnManager}
    (ht : ∀ w i, i < cfg.totInstances → id = cfg.lastTxn w i → t.Polled (H w i)) :
    Polled cfg H (Function.update table id t) := by
  intro w i hi
  by_cases hk : cfg.lastTxn w i = id
  · rw [hk, Function.update_self]
    exact ht w i hi hk.symm
  · rw [Function.update_of_ne hk]
    exact h w i hi

lemma Polled.update_congr {table : ℕ → TxnManager} (h : Polled cfg H table) {id : ℕ} {t : TxnManager}
    (hvoters : t.hashVoters = (table id).hashVoters) (hviewed : t.newViewed = (table id).newViewed) :
    Polled cfg H (Function.update table id t) := by
  refine h.update fun w i hi hid => ?_
  subst hid
  exact (h w i hi).congr hvoters hviewed

lemma Polled.hashes {v i : ℕ} {hash : Bytes} {table table' : ℕ → TxnManager} (h : Polled cfg H table)
    (hh : Hashes cfg v i hash table table') : Polled cfg H table' := by
  intro w j hj
  by_cases hwj : (w, j) = (v, i)
  · obtain ⟨rfl, rfl⟩ := Prod.mk.inj hwj
    obtain ⟨_, _, _, _, heq⟩ := hh.last
    rw [heq]
    exact (h w j hj).congr rfl rfl
  · rw [hh.others w j hj hwj]
    exact h w j hj

lemma Polled.move (h₀ : Calm cfg H r₀) (hmid : Midway cfg H r₀ r) (hm : CalmMove cfg crypto H r₀ r s)
    (h : Polled cfg H r.table) : Polled cfg H s.table := by
  cases hm with
  | idle hidle => rwa [hidle.table]
  | proposal hP _ hacc => exact h.hashes (storeProposal_hashes hP.honest.peer.named hP.honest.peer.wellFormed hacc)
  | generic =>
    rw [storeGeneric_lockGeneric_table]
    apply h.update_congr
    all_goals
      simp only [acceptGeneric]
      split_ifs <;> rfl
  | @vote _ id hsame hindex hfresh hg =>
    rcases sendHotstuffNewview_cases cfg crypto r id with ⟨_, heq⟩ | ⟨_, hc⟩
    · rwa [heq]
    · rw [hc.table]
      refine h.update fun w i hi hid => ?_
      subst hid
      have hhash := hmid.sound.tabled.hashes w i hi (hmid.sound.tabled.high w i hi hg).1
      have hpolled := h w i hi
      rw [← hhash] at hpolled ⊢
      exact hpolled.castVote cfg _ _
  | @count m hP =>
    obtain ⟨hid, hhash, _⟩ : m.txnId = cfg.lastTxn m.view m.instanceId ∧ m.hash = H m.view m.instanceId ∧
      m.hash ≠ [] := hP.honest.content
    rw [countVote_table]
    refine h.update fun w i hi hwi => ?_
    obtain ⟨rfl, rfl⟩ := cfg.lastTxn_inj hP.honest.peer.wellFormed hi (hid.symm.trans hwi)
    have hpolled := h m.view m.instanceId hi
    rw [← hhash, ← hid] at hpolled
    rw [← hhash]
    exact hpolled.hotstuffNewViewed cfg _
  | advance _ _ _ ha =>
    rw [advanceView_table ha]
    exact h.update_congr rfl rfl
  | @batch slot batch table hbatch hpc hfill =>
    refine h.hashes (storeBatch_hashes h₀.steady.alloc hpc ?_ hfill)
    exact h₀.steady.fed.inHand _ (by rw [hpc]; exact List.mem_singleton_self _)
  | announce => exact h.update_congr rfl rfl
  | execute => exact h
  | recycle _ ht => exact h.update fun _ _ _ _ => .of_recycled ht

-- PROPOSALs and votes come when the earlier slots of the instance with the same digest are committed.
def Timely (H : ℕ → ℕ → Bytes) (r : Replica) : Msg → Prop
  | .proposal m => ∀ u < m.view, H u m.instanceId = H m.view m.instanceId → u + 3 ≤ (r.inst m.instanceId).view
  | .sync m => ∀ u < m.view, H u m.instanceId = H m.view m.instanceId → u + 3 ≤ (r.inst m.instanceId).view
  | .generic _ => True

structure Keys (cfg : Config) (H : ℕ → ℕ → Bytes) (r : Replica) : Prop where
  polled : Polled cfg H r.table
  keyed : ∀ i < cfg.totInstances, Keyed cfg H i (r.inst i).view (r.Proposals cfg i) (r.inst i).hashToTxnid

lemma advanced_gone {x : Instance} {qc : QuorumCertificate} {view id : ℕ} {t : TxnManager} {h : Bytes}
    (hc : (x.storeQC qc).Commits qc view) (hh : h ∈ t.hashVoters) : h ∉ (x.advanced qc view t id).1.hashToTxnid := by
  rw [Instance.advanced, if_pos hc]
  simp only [Instance.sendExecuteMsg, UMap.mem_eraseAll]
  exact fun hmem => hmem.1 (AList.mem_keys.mp hh)

lemma Keys.advance (h : Keys cfg H r) (hpipe : Pipelined cfg H r) (ht : Tracked cfg r) (hapart : Apart cfg H)
    (hpaced : Paced cfg r) (hsound : Sound cfg H r) {id v i : ℕ} (hadv : Advances cfg H r id v i)
    (ha : r.advanceView cfg id = some s) :
    Keyed cfg H i (v + 1) (r.Proposals cfg i) (s.inst i).hashToTxnid := by
  have hi := hadv.inst_lt
  have hkeyed := h.keyed i hi
  rw [hadv.view] at hkeyed
  obtain ⟨_, _, hnil, hlookup⟩ := hpipe.advance ht hapart hpaced hsound hadv ha
  refine hkeyed.advance hi (hpipe.nil_notMem i) hnil (fun k hk hkv => hlookup k hk fun hv hmem => ?_) fun hv => ?_
  · exact hkv hv ((h.polled (v - 2) i hi).only k (AList.mem_keys.mpr hmem))
  · have hpiped := hpipe.piped i hi
    rw [hadv.view] at hpiped
    have hc := (hpiped.commits_iff hadv.cert (hsound.separate hapart hadv)
      (Config.InRange.view_lt cfg hadv.range)).mpr hv
    obtain ⟨_, _, _, htxnid⟩ := advanceView_advanced hadv ha
    rw [htxnid]
    refine advanced_gone hc ?_
    obtain ⟨u, rfl⟩ : ∃ u, v = u + 2 := ⟨v - 2, by omega⟩
    rw [(installQC_manager r id _).2, hadv.id_eq, cfg.lastTxn_two_back, Nat.add_sub_cancel]
    refine (h.polled u i hi).viewed ?_
    rcases hpaced.passed i hi u (by rw [hadv.view]; omega) with hready | ⟨hlt, _⟩
    · exact hready.1
    · have := hpipe.not_executed ht hi (w := u) (by rw [hadv.view])
      omega

lemma Keys.move (hapart : Apart cfg H) (h₀ : Calm cfg H r₀) (hmid : Midway cfg H r₀ r)
    (hm : Move cfg crypto (fun m => Expected cfg H r₀ m ∧ Timely H r₀ m) (Current cfg r₀) (SlotBatch cfg crypto H) r₀ r s)
    (hpipe : Pipelined cfg H r) (ht : Tracked cfg r) (h : Keys cfg H r) : Keys cfg H s := by
  have hcalm : CalmMove cfg crypto H r₀ r s := hm.imp (fun _ hm => hm.1) (fun _ => id) (fun _ _ => id)
  refine ⟨h.polled.move h₀ hmid hcalm, fun i hi => ?_⟩
  by_cases hadv : ∃ id v j, Advances cfg H r id v j ∧ r.advanceView cfg id = some s
  · obtain ⟨id, v, j, hadv, ha⟩ := hadv
    have hrec : ∀ w, s.Proposals cfg i w → r.Proposals cfg i w := by
      intro w hw
      rwa [Proposals, advanceView_table ha, update_proposalReceived (by rfl)] at hw
    by_cases hij : i = j
    · subst hij
      rw [advanceView_view ha, if_pos hadv.inst.symm, hadv.view]
      exact (h.advance hpipe ht hapart hmid.paced hmid.sound hadv ha).mono hrec
    · rw [advanceView_inst_of_ne ha (hadv.inst ▸ hij)]
      exact (h.keyed i hi).mono hrec
  · have hview : (s.inst i).view = (r.inst i).view := by
      rcases hm.views with hsame | ⟨id, hsame, hfresh, hready, ha⟩
      · exact hsame i
      · obtain ⟨v, j, hadv'⟩ := hmid.sound.advances h₀.steady.paced hmid.paced hsame
          (hfresh.imp fun m hm => hm.1.honest.peer) hready ha
        exact absurd ⟨id, v, j, hadv', ha⟩ hadv
    have hkeyed := h.keyed i hi
    rw [hview]
    cases (hmid.binds h₀ (fun _ hm => hm.1) hm i).resolve_right hadv with
    | same heq hrec =>
      rw [heq]
      exact hkeyed.mono (hrec hi)
    | @proposal m hm hr hj hcur _ heq hrec =>
      subst hr hj
      rw [heq]
      exact (hkeyed.insertNew hcur hm.2).mono (hrec hi)
    | @sync m hm hr hj hcur _ heq hrec =>
      subst hr hj
      rw [heq]
      exact (hkeyed.insert hcur hm.2).mono fun w hw => .inl (hrec hi w hw)
    | batch hr hne heq hrec =>
      rw [heq]
      refine (hkeyed.insert le_rfl fun u hu hdigest => ?_).mono (hrec hi)
      by_contra hlt
      exact hapart i hi u _ hu (by omega) hne hdigest

lemma keys_init (p : ℕ) : Keys cfg H (init cfg p) where
  polled _ _ _ := ⟨fun k hk => absurd hk (AList.notMem_empty k), nofun⟩
  keyed _ _ := ⟨nofun, nofun⟩

section Log

def Certified (r : Replica) (i w : ℕ) : Prop := ∃ id qc voters, .advanced i w id qc voters ∈ r.trace

def Committed (cfg : Config) (r : Replica) (i w : ℕ) : Prop :=
  ∃ hash parent, .committed i (cfg.lastTxn w i) hash parent ∈ r.trace

-- The slots of an instance that are certified, but not committed, are those of the last two views.
structure Logged (cfg : Config) (r : Replica) : Prop where
  certified : ∀ i w, r.Certified i w → w < (r.inst i).view
  committed : ∀ i < cfg.totInstances, ∀ w, w + 3 ≤ (r.inst i).view → r.Committed cfg i w

lemma advanceView_committed {id v i : ℕ} (hadv : Advances cfg H r id v i) (ha : r.advanceView cfg id = some s)
    (hc : ((r.inst i).storeQC (genericQCOf (r.table id) v)).Commits (genericQCOf (r.table id) v) (v + 1)) :
    ∃ hash parent, .committed i (sub64 id (2 * cfg.stride)) hash parent ∈ s.trace := by
  obtain ⟨_, _, rfl⟩ := advanceView_eq ha
  have hinst := installQC_inst hadv
  simp only [hadv.inst, hadv.view, enterView_trace, updateLockQC, hinst, if_pos hc, commit, enqueueExecutes,
    observe_trace]
  exact ⟨_, _, List.mem_append_left _ (List.mem_append_right _ (List.mem_singleton_self _))⟩

lemma Logged.move (hapart : Apart cfg H) (h₀ : Calm cfg H r₀) (hmid : Midway cfg H r₀ r)
    (hm : CalmMove cfg crypto H r₀ r s) (hpipe : Pipelined cfg H r) (h : Logged cfg r) : Logged cfg s := by
  have hview := hm.view_le
  obtain ⟨l, hl⟩ := hm.trace
  have hold : ∀ i w, r.Committed cfg i w → s.Committed cfg i w := by
    rintro i w ⟨hash, parent, ho⟩
    exact ⟨hash, parent, hl ▸ List.mem_append_left l ho⟩
  constructor
  · rintro i w ⟨id, qc, voters, ho⟩
    rcases hmid.mem_trace h₀ hm ho trivial with ho | ⟨k, v, j, hadv, ha⟩
    · exact (h.certified i w ⟨id, qc, voters, ho⟩).trans_le (hview i)
    · rcases advanceView_obs hadv ha ho trivial with ho | ⟨_, heq⟩ | ⟨_, _, _, heq⟩
      · exact (h.certified i w ⟨id, qc, voters, ho⟩).trans_le (hview i)
      · obtain ⟨rfl, rfl, _⟩ := Obs.advanced.inj heq
        rw [advanceView_view ha, if_pos hadv.inst.symm, hadv.view]
        exact Nat.lt_succ_self w
      · cases heq
  · intro i hi w hw
    by_cases hwr : w + 3 ≤ (r.inst i).view
    · exact hold i w (h.committed i hi w hwr)
    · rcases hm.views with hsame | ⟨id, hsame, hfresh, hready, ha⟩
      · rw [hsame i] at hw
        exact absurd hw hwr
      · obtain ⟨v, j, hadv⟩ := hmid.sound.advances h₀.steady.paced hmid.paced hsame
          (hfresh.imp fun m hm => hm.honest.peer) hready ha
        rw [advanceView_view ha, hadv.inst] at hw
        split_ifs at hw with hij
        · subst hij
          rw [hadv.view] at hw hwr
          obtain rfl : v = w + 2 := by omega
          have hpiped := hpipe.piped i hi
          rw [hadv.view] at hpiped
          have hc := (hpiped.commits_iff hadv.cert (hmid.sound.separate hapart hadv)
            (Config.InRange.view_lt cfg hadv.range)).mpr (by omega)
          have hcommitted := advanceView_committed hadv ha hc
          rwa [hadv.id_eq, cfg.lastTxn_two_back] at hcommitted
        · exact absurd hw hwr

lemma logged_init (p : ℕ) : Logged cfg (init cfg p) where
  certified i w h := by simp [Certified, init] at h
  committed i hi w h := by simp [init, Instance.init] at h

end Log

lemma timely_moves (hc : Calm cfg H r) {e : Event} (he : FaultFree cfg crypto H r e)
    (ht : ∀ m, e = .deliver m → Timely H r m) (hs : r.step cfg crypto e = some s) :
    Moves cfg crypto (fun m => Expected cfg H r m ∧ Timely H r m) (Current cfg r) (SlotBatch cfg crypto H) r r s := by
  refine step_moves ?_ (fun i m hm => ⟨hc.expected_parked i m hm, trivial⟩)
    (fun _ hid => hc.steady.paired.current hc.steady.alloc hid) hs
  cases e with
  | deliver m => exact ⟨he.expected m rfl, ht m rfl⟩
  | proposalThread i j => exact fun slot batch => he.batch i j slot batch rfl
  | recycle => exact he.genuine
  | _ => trivial

lemma keys_reach (hapart : Apart cfg H) (hp : p < cfg.nodeCnt)
    (h : Reach (step cfg crypto) (fun r e => FaultFree cfg crypto H r e ∧ ∀ m, e = .deliver m → Timely H r m)
      (init cfg p) r) : Keys cfg H r := by
  suffices hall : Calm cfg H r ∧ Pipelined cfg H r ∧ Tracked cfg r ∧ Keys cfg H r from hall.2.2.2
  apply h.invariant fun r => Calm cfg H r ∧ Pipelined cfg H r ∧ Tracked cfg r ∧ Keys cfg H r
  · exact ⟨calm_init hp, pipelined_init p, tracked_init p, keys_init p⟩
  · rintro r e s - ⟨he, htimely⟩ hs ⟨hc, hpipe, ht, hk⟩
    refine ⟨hc.step he hs, ?_⟩
    refine ((timely_moves hc he htimely hs).invariant
      (I := fun s => Midway cfg H r s ∧ Pipelined cfg H s ∧ Tracked cfg s ∧ Keys cfg H s) ?_
      ⟨hc.midway, hpipe, ht, hk⟩).2
    rintro u v huv ⟨hmid, hpipe, ht, hk⟩
    have hcalm : CalmMove cfg crypto H r u v := huv.imp (fun _ hm => hm.1) (fun _ => id) (fun _ _ => id)
    exact ⟨hmid.move hc hcalm, hpipe.move hapart hc hmid hcalm ht, ht.move hcalm, hk.move hapart hc hmid huv hpipe ht⟩

lemma logged_reach (hapart : Apart cfg H) (hp : p < cfg.nodeCnt)
    (h : Reach (step cfg crypto) (FaultFree cfg crypto H) (init cfg p) r) : Logged cfg r := by
  suffices hall : Pipelined cfg H r ∧ Tracked cfg r ∧ Logged cfg r from hall.2.2
  apply calm_invariant (I := fun r => Pipelined cfg H r ∧ Tracked cfg r ∧ Logged cfg r) hp _ _ h
  · exact ⟨pipelined_init p, tracked_init p, logged_init p⟩
  · intro r₀ r s h₀ _ hmid hm ⟨hpipe, ht, hl⟩
    exact ⟨hpipe.move hapart h₀ hmid hm ht, ht.move hm, hl.move hapart h₀ hmid hm hpipe⟩

def Unmixed (cfg : Config) (H : ℕ → ℕ → Bytes) (r : Replica) (i : ℕ) : Prop :=
  ∀ w, r.Certified i w → ¬ r.Committed cfg i w →
    (∃ qc, (r.inst i).hashToQC.lookup (H w i) = some qc ∧ CertOf H i w qc) ∧
      (r.inst i).hashToTxnid.lookup (H w i) = some (cfg.lastTxn w i)

end Replica

namespace System

variable {cfg : Config} {crypto : Crypto} {H : ℕ → ℕ → Bytes} {S T : System}

def Timely (H : ℕ → ℕ → Bytes) (S : System) (e : Event) : Prop :=
  ∀ m, e.local S = some (.deliver m) → (S e.node).Timely H m

lemma reaches_timely (h : Reach (step cfg crypto) (fun S e => Allowed cfg ∅ S e ∧ S.Timely H e) (init cfg) T)
    (hfit : Fits cfg H T) {p : ℕ} (hp : p < cfg.nodeCnt) :
    Reach (Replica.step cfg crypto) (fun r e => r.FaultFree cfg crypto H e ∧ ∀ m, e = .deliver m → r.Timely H m)
      (Replica.init cfg p) (T p) := by
  induction h with
  | start => exact .start
  | @next S T e h hok hs ih =>
    obtain ⟨_, a, r, ha, hfree, _, hr, rfl⟩ := faultFree_step (h.mono fun _ _ => And.left) hok.1 hs hfit
    have hS := ih (hfit.of_update (Replica.step_trace hfree.genuine hr))
    by_cases hpe : p = e.node
    · subst hpe
      rw [Function.update_self]
      refine .next a hS ⟨hfree, ?_⟩ hr
      rintro m rfl
      exact hok.2 m ha
    · rwa [Function.update_of_ne hpe]

end System

theorem digest_keys_unmixed (cfg : Config) (crypto : Crypto) {T : System}
    (h : Reach (System.step cfg crypto) (fun S e => System.Allowed cfg ∅ S e ∧ S.Timely (T.digest cfg) e)
      (System.init cfg) T) (hapart : System.Apart cfg T) {p i : ℕ} (hp : p < cfg.nodeCnt) (hi : i < cfg.totInstances) :
    (T p).Unmixed cfg (T.digest cfg) i := by
  have hreachable : System.Reachable cfg crypto ∅ T := h.mono fun _ _ => And.left
  have hreach := System.reaches_digest hreachable p hp
  have hkeys := Replica.keys_reach hapart.digest hp (System.reaches_timely h (System.fits_digest hreachable) hp)
  obtain ⟨hpipe, ht⟩ := Replica.pipelined_reach hapart.digest hp hreach
  have hlogged := Replica.logged_reach hapart.digest hp hreach
  have hpaced := (Replica.calm_reach hp hreach).steady.paced
  intro w hcert hcommit
  have hview := hlogged.certified i w hcert
  have hlive : ((T p).inst i).view ≤ w + 2 := by
    by_contra hlt
    exact hcommit (hlogged.committed i hi w (by omega))
  constructor
  · obtain ⟨hmem, hstage⟩ := (hpipe.piped i hi).chained.stage (w + 1) ⟨hview, .inl hlive⟩
    refine ⟨_, UMap.lookup_eq_get hmem, ?_⟩
    cases hstage with
    | cert hcert => exact hcert
  · refine (hkeys.keyed i hi).bound w ?_ hlive
    rcases hpaced.passed i hi w hview with hready | ⟨hlt, _⟩
    · exact hready.2.1
    · have := hpipe.not_executed ht hi hlive
      omega

def System.ofTwoViews (S : System) (e : System.Event) : Bool :=
  match e.local S with
  | some (.deliver (.proposal m)) => m.view ≤ 1 ∧ m.instanceId = 0
  | some (.deliver (.sync m)) => m.view ≤ 1 ∧ m.instanceId = 0
  | _ => true

lemma System.timely_of_ofTwoViews {H : ℕ → ℕ → Bytes} (hH : H 0 0 ≠ H 1 0) {S : System} {e : System.Event}
    (h : S.ofTwoViews e = true) : S.Timely H e := by
  have hne : ∀ w u, w ≤ 1 → u < w → H u 0 ≠ H w 0 := by
    intro w u hw hu
    obtain rfl : w = 1 := by omega
    obtain rfl : u = 0 := by omega
    exact hH
  intro m hm
  rw [System.ofTwoViews, hm] at h
  cases m with
  | proposal m =>
    obtain ⟨hview, hinst⟩ := of_decide_eq_true h
    intro u hu heq
    rw [hinst] at heq
    exact absurd heq (hne m.view u hview hu)
  | sync m =>
    obtain ⟨hview, hinst⟩ := of_decide_eq_true h
    intro u hu heq
    rw [hinst] at heq
    exact absurd heq (hne m.view u hview hu)
  | generic => trivial

theorem digest_keys_unmixed_two_views :
    ∃ T, System.Reachable .fourReplicas .transparent ∅ T ∧ ((T 1).inst 0).view = 2 ∧
      (T 1).Unmixed .fourReplicas (T.digest .fourReplicas) 0 := by
  obtain ⟨T, hT, hp⟩ := exists_reach_of_runWith (System.step .fourReplicas .transparent)
    (fun S e => System.Allowed .fourReplicas ∅ S e ∧ S.ofTwoViews e = true) (System.init .fourReplicas)
    (System.twoViews 1 2)
    (fun S => decide (System.Apart .fourReplicas S ∧ S.digest .fourReplicas 0 0 ≠ S.digest .fourReplicas 1 0 ∧
      ((S 1).inst 0).view = 2)) (by decide +kernel)
  obtain ⟨hapart, hne, hview⟩ := of_decide_eq_true hp
  refine ⟨T, hT.mono fun _ _ => And.left, hview, ?_⟩
  refine digest_keys_unmixed .fourReplicas .transparent (hT.mono fun S e hok => ⟨hok.1, ?_⟩) hapart (by decide) (by decide)
  exact System.timely_of_ofTwoViews hne hok.2

def Obs.advance? (i : ℕ) : Obs → Option ℕ
  | .advanced j w _ _ _ => if j = i then some w else none
  | _ => none

def Obs.commit? (i : ℕ) : Obs → Option ℕ
  | .committed j id _ _ => if j = i then some id else none
  | _ => none

lemma Obs.advance?_eq_some {i w : ℕ} {o : Obs} (h : o.advance? i = some w) :
    ∃ id qc voters, o = .advanced i w id qc voters := by
  cases o with
  | advanced j v id qc voters =>
    obtain ⟨rfl, rfl⟩ : j = i ∧ v = w := by simpa [Obs.advance?] using h
    exact ⟨id, qc, voters, rfl⟩
  | _ => cases h

-- The certificate of the second slot is found under the digest of the first one, which is not committed.
theorem digest_keys_mixed :
    ∃ S, System.Reachable .fourReplicas .transparent ∅ S ∧
      (UMap.get ((S 1).inst 0).hashToQC (S.digest .fourReplicas 0 0)).viewNumber = 1 ∧
      ¬ (S 1).Unmixed .fourReplicas (S.digest .fourReplicas) 0 := by
  obtain ⟨S, hS, hp⟩ := exists_reach_of_runWith (System.step .fourReplicas .transparent)
    (System.Allowed .fourReplicas ∅) (System.init .fourReplicas) (System.twoViews 1 1)
    (fun S => decide ((UMap.get ((S 1).inst 0).hashToQC (S.digest .fourReplicas 0 0)).viewNumber = 1 ∧
      0 ∈ (S 1).trace.filterMap (Obs.advance? 0) ∧ (S 1).trace.filterMap (Obs.commit? 0) = [])) (by decide +kernel)
  obtain ⟨hqc, hadv, hnone⟩ := of_decide_eq_true hp
  refine ⟨S, hS, hqc, fun hunmixed => ?_⟩
  have hcert : (S 1).Certified 0 0 := by
    obtain ⟨o, ho, heq⟩ := List.mem_filterMap.mp hadv
    obtain ⟨id, qc, voters, rfl⟩ := Obs.advance?_eq_some heq
    exact ⟨_, _, _, ho⟩
  have hopen : ¬ (S 1).Committed .fourReplicas 0 0 := by
    rintro ⟨_, _, hc⟩
    have hmem : Config.fourReplicas.lastTxn 0 0 ∈ (S 1).trace.filterMap (Obs.commit? 0) :=
      List.mem_filterMap.mpr ⟨_, hc, by simp [Obs.commit?]⟩
    rw [hnone] at hmem
    cases hmem
  obtain ⟨⟨qc, hlookup, hcertof⟩, _⟩ := hunmixed 0 hcert hopen
  rw [UMap.get_eq_of_lookup hlookup, hcertof.viewNumber] at hqc
  cases hqc

end SpotLess
