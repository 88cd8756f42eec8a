import SpotLess.Following

/-! The pipeline of certificates in a system without faulty replicas: while batches proposed within three views of
each other in one instance have different digests, an instance in view `v` holds the certificates of the two slots
before `v`, has prepared the later and locked the earlier of them, and has handed every older slot to the execute
thread. -/

namespace SpotLess

open Lib

section Chained

variable (H : ℕ → ℕ → Bytes) (i : ℕ)

def Separate (v : ℕ) : Prop := ∀ w w', w < w' → w' ≤ v → w' ≤ w + 3 → parentHash H i w ≠ parentHash H i w'

structure Chained (K : ℕ → Prop) (m : UMap Bytes QuorumCertificate) : Prop where
  stage : ∀ w, K w → parentHash H i w ∈ m ∧ Stage H i w (UMap.get m (parentHash H i w))
  only : ∀ h ∈ m, ∃ w, K w ∧ h = parentHash H i w

-- The certificates an instance in view `v` holds: those of two slots, and the genesis one up to the first commit.
def Live (v w : ℕ) : Prop := w ≤ v ∧ (v ≤ w + 1 ∨ w = 0 ∧ v ≤ 2)

variable {H i} {K K' : ℕ → Prop} {m : UMap Bytes QuorumCertificate}

lemma Stage.batchHash {v : ℕ} {qc : QuorumCertificate} (h : Stage H i v qc) : qc.batchHash = parentHash H i v := by
  cases h with
  | genesis _ _ hh => exact hh
  | cert h => exact h.batchHash

lemma Stage.parentHash {v : ℕ} {qc : QuorumCertificate} (h : Stage H i v qc) :
    qc.parentHash = SpotLess.parentHash H i (v - 1) := by
  cases h with
  | genesis _ _ _ hp => exact hp
  | cert h => exact h.parentHash

lemma Stage.retype {v : ℕ} {qc : QuorumCertificate} (h : Stage H i v qc) (ty : QCType) :
    Stage H i v { qc with type := ty } := by
  cases h with
  | genesis hg hv hh hp => exact .genesis hg hv hh hp
  | cert h => exact .cert ⟨h.genesis, h.viewNumber, h.batchHash, h.parentHash, h.parentView⟩

lemma Chained.congr (h : Chained H i K m) (hK : ∀ w, K w ↔ K' w) : Chained H i K' m where
  stage w hw := h.stage w ((hK w).mpr hw)
  only k hk := by
    obtain ⟨w, hw, rfl⟩ := h.only k hk
    exact ⟨w, (hK w).mp hw, rfl⟩

lemma Chained.insert (h : Chained H i K m) {v : ℕ} {qc : QuorumCertificate} (hqc : Stage H i v qc)
    (hne : ∀ w, K w → w ≠ v → parentHash H i w ≠ parentHash H i v) :
    Chained H i (fun w => K w ∨ w = v) (m.insert (parentHash H i v) qc) where
  stage w hw := by
    by_cases hwv : w = v
    · subst hwv
      exact ⟨by simp, by rwa [UMap.get_insert_self]⟩
    · have hK := hw.resolve_right hwv
      rw [UMap.get_insert_of_ne _ _ (hne w hK hwv)]
      exact ⟨by simp [(h.stage w hK).1], (h.stage w hK).2⟩
  only k hk := by
    rcases (AList.mem_insert m).mp hk with rfl | hk
    · exact ⟨v, .inr rfl, rfl⟩
    · obtain ⟨w, hw, rfl⟩ := h.only k hk
      exact ⟨w, .inl hw, rfl⟩

lemma Chained.erase (h : Chained H i K m) {v : ℕ} (hne : ∀ w, K w → w ≠ v → parentHash H i w ≠ parentHash H i v) :
    Chained H i (fun w => K w ∧ w ≠ v) (m.erase (parentHash H i v)) where
  stage w hw := by
    have hkey := hne w hw.1 hw.2
    rw [UMap.get_erase_of_ne _ hkey]
    exact ⟨(AList.mem_erase).mpr ⟨hkey, (h.stage w hw.1).1⟩, (h.stage w hw.1).2⟩
  only k hk := by
    obtain ⟨hkne, hkm⟩ := (AList.mem_erase).mp hk
    obtain ⟨w, hw, rfl⟩ := h.only k hkm
    exact ⟨w, ⟨hw, fun hwv => hkne (by rw [hwv])⟩, rfl⟩

end Chained

structure Instance.Piped (H : ℕ → ℕ → Bytes) (i v : ℕ) (x : Instance) : Prop where
  chained : Chained H i (Live v) x.hashToQC
  locked : Stage H i (v - 1) x.lockedQC

namespace Instance

variable {H : ℕ → ℕ → Bytes} {i v : ℕ} {x : Instance} {qc : QuorumCertificate}

lemma Piped.separate_live (hsep : Separate H i (v + 1)) {w : ℕ} (hw : Live v w) :
    parentHash H i w ≠ parentHash H i (v + 1) := by
  obtain ⟨hle, hor⟩ := hw
  exact hsep w (v + 1) (by omega) le_rfl (by omega)

lemma Piped.store (h : x.Piped H i v) (hqc : CertOf H i v qc) (hsep : Separate H i (v + 1)) :
    Chained H i (fun w => Live v w ∨ w = v + 1) (x.storeQC qc).hashToQC := by
  have hstage : Stage H i (v + 1) qc := .cert hqc
  have hins := h.chained.insert hstage fun w hw _ => Piped.separate_live hsep hw
  rwa [← hstage.batchHash] at hins

section Advance

variable (h : x.Piped H i v) (hqc : CertOf H i v qc) (hsep : Separate H i (v + 1))

include h hqc hsep

lemma Piped.parent : qc.parentHash ∈ (x.storeQC qc).hashToQC ∧ Stage H i v ((x.storeQC qc).parentOf qc) := by
  have hk := (h.store hqc hsep).stage v (.inl ⟨le_rfl, .inl (Nat.le_succ v)⟩)
  rw [parentOf, hqc.parentHash]
  exact hk

lemma Piped.grandparent : ((x.storeQC qc).parentOf qc).parentHash ∈ (x.storeQC qc).hashToQC ∧
    Stage H i (v - 1) ((x.storeQC qc).parentOf ((x.storeQC qc).parentOf qc)) := by
  have hk := (h.store hqc hsep).stage (v - 1) (.inl ⟨Nat.sub_le v 1, .inl (by omega)⟩)
  rw [← (h.parent hqc hsep).2.parentHash] at hk
  exact hk

lemma Piped.locks_iff (hrange : v + 4 < 2 ^ 64) : (x.storeQC qc).Locks qc (v + 1) ↔ 1 ≤ v := by
  have hb2 := (h.parent hqc hsep).2.viewNumber
  rw [Locks, Prepares, hqc.viewNumber, hb2, add64_of_lt (by omega), add64_of_lt (by omega)]
  omega

lemma Piped.commits_iff (hrange : v + 4 < 2 ^ 64) : (x.storeQC qc).Commits qc (v + 1) ↔ 2 ≤ v := by
  have hb3 := (h.grandparent hqc hsep).2.viewNumber
  rw [Commits, h.locks_iff hqc hsep hrange, hb3, add64_of_lt (by omega)]
  omega

lemma Piped.updateQCs_hashToQC (view : ℕ) : ((x.storeQC qc).updateQCs qc view).hashToQC = (x.storeQC qc).hashToQC := by
  have htouch : UMap.touch (UMap.touch (x.storeQC qc).hashToQC qc.parentHash)
      ((x.storeQC qc).parentOf qc).parentHash = (x.storeQC qc).hashToQC := by
    rw [UMap.touch_of_mem (h.parent hqc hsep).1, UMap.touch_of_mem (h.grandparent hqc hsep).1]
  simp only [updateQCs, setPreparedQC, setLockedQC]
  split_ifs <;> exact htouch

lemma Piped.updateQCs_lockedQC (hrange : v + 4 < 2 ^ 64) :
    Stage H i v ((x.storeQC qc).updateQCs qc (v + 1)).lockedQC := by
  have hb2 := (h.parent hqc hsep).2
  have hiff := h.locks_iff hqc hsep hrange
  have hprep : Prepares qc (v + 1) := by rw [Prepares, hqc.viewNumber, add64_of_lt (by omega)]
  by_cases hv : 1 ≤ v
  · have hset : ((x.storeQC qc).parentOf qc).viewNumber > x.lockedQC.viewNumber ∨ x.lockedQC.genesis = true := by
      obtain hlocked := h.locked
      rw [hb2.viewNumber, hlocked.viewNumber]
      by_cases hv1 : v = 1
      · subst hv1
        cases hlocked with
        | genesis hg => exact .inr hg
      · exact .inl (by omega)
    have heq : ((x.storeQC qc).updateQCs qc (v + 1)).lockedQC = (x.storeQC qc).parentOf qc := by
      have hlocks := hiff.mpr hv
      simp only [updateQCs, if_pos hprep, if_pos hlocks, setPreparedQC, setLockedQC]
      split_ifs with h₁ h₂ h₂
      · rfl
      · exact absurd hset h₂
      · rfl
      · exact absurd hset h₂
    rw [heq]
    exact hb2
  · have hnot : ¬ (x.storeQC qc).Locks qc (v + 1) := fun hl => hv (hiff.mp hl)
    have heq : ((x.storeQC qc).updateQCs qc (v + 1)).lockedQC = x.lockedQC := by
      simp only [updateQCs, if_neg hnot, if_pos hprep, setPreparedQC]
      split_ifs <;> rfl
    have hzero : v = 0 := by omega
    subst hzero
    rw [heq]
    exact h.locked

end Advance

section Commit

-- Only the first commit finds a parent: the genesis certificate, which no transaction is bound to.
def walked (v : ℕ) : List ℕ := if v = 2 then [0] else []

variable (hx : Chained H i (fun w => Live v w ∨ w = v + 1) x.hashToQC) (hsep : Separate H i (v + 1)) (hv : 2 ≤ v)

include hx hsep hv

lemma walkParents_piped (hnil : [] ∉ x.hashToTxnid) : (x.walkParents (parentHash H i (v - 1))).2 = walked v ∧
    Chained H i (fun w => v - 1 ≤ w ∧ w ≤ v + 1) (x.walkParents (parentHash H i (v - 1))).1.hashToQC ∧
    [] ∉ (x.walkParents (parentHash H i (v - 1))).1.hashToTxnid ∧
    ∀ h, h ≠ [] → (x.walkParents (parentHash H i (v - 1))).1.hashToTxnid.lookup h = x.hashToTxnid.lookup h := by
  obtain ⟨hmem, hstage⟩ := hx.stage (v - 1) (.inl ⟨Nat.sub_le v 1, .inl (by omega)⟩)
  have hparent := hstage.parentHash
  rw [walkParents, UMap.touch_of_mem hmem]
  simp only [hparent, UMap.count_eq_true]
  by_cases hv2 : v = 2
  · subst hv2
    obtain ⟨hgmem, hgstage⟩ := hx.stage 0 (.inl ⟨by omega, .inr ⟨rfl, le_rfl⟩⟩)
    rw [if_pos hgmem]
    obtain ⟨g, hg⟩ : ∃ g, UMap.get x.hashToQC (parentHash H i (2 - 1 - 1)) = g := ⟨_, rfl⟩
    have hgs : Stage H i 0 g := by
      rw [← hg]
      exact hgstage
    have hgh : g.batchHash = parentHash H i 0 := hgs.batchHash
    have hgp : g.parentHash = parentHash H i 0 := hgs.parentHash
    have hgone : ¬ UMap.count (x.hashToQC.erase (parentHash H i 0)) (parentHash H i 0) = true := by
      rw [UMap.count_eq_true, AList.mem_erase]
      exact fun hk => hk.1 rfl
    have hsepg : ∀ w, (Live 2 w ∨ w = 2 + 1) → w ≠ 0 → parentHash H i w ≠ parentHash H i 0 := by
      intro w hw hw0
      have hle : w ≤ 3 := hw.elim (fun hl => hl.1.trans (by omega)) (fun heq => heq.le)
      exact (hsep 0 w (by omega) (by omega) (by omega)).symm
    simp only [hg, executeParents, hgh, hgp, if_neg hgone]
    refine ⟨?_, ?_, ?_, ?_⟩
    · rw [walked, if_pos rfl]
      exact congrArg (· :: []) (UMap.get_of_notMem hnil)
    · refine (hx.erase hsepg).congr fun w => ?_
      simp only [Live]
      omega
    · exact fun hk => ((AList.mem_erase).mp hk).1 rfl
    · intro k hk
      exact AList.lookup_erase_ne hk
  · have hgone : parentHash H i (v - 1 - 1) ∉ x.hashToQC := by
      intro hk
      obtain ⟨w, hw, heq⟩ := hx.only _ hk
      have hle : v - 1 ≤ w ∧ w ≤ v + 1 := by
        rcases hw with hw | hw
        · simp only [Live] at hw
          omega
        · omega
      exact hsep (v - 1 - 1) w (by omega) hle.2 (by omega) heq
    rw [if_neg hgone]
    refine ⟨?_, ?_, hnil, fun _ _ => rfl⟩
    · rw [walked, if_neg hv2]
    · refine hx.congr fun w => ?_
      simp only [Live]
      omega

lemma sendExecuteMsg_piped (hnil : [] ∉ x.hashToTxnid) {t : TxnManager} (ht : t.hash = parentHash H i (v - 1))
    (id : ℕ) : (x.sendExecuteMsg t id).2 = walked v ++ [id] ∧
    Chained H i (Live (v + 1)) (x.sendExecuteMsg t id).1.hashToQC ∧ [] ∉ (x.sendExecuteMsg t id).1.hashToTxnid ∧
    ∀ h, h ≠ [] → h ∉ t.hashVoters.keys →
      (x.sendExecuteMsg t id).1.hashToTxnid.lookup h = x.hashToTxnid.lookup h := by
  obtain ⟨hids, hchained, hgone, hlookup⟩ := walkParents_piped hx hsep hv hnil
  simp only [sendExecuteMsg, ht]
  refine ⟨by rw [hids], ?_, ?_, ?_⟩
  · have hne : ∀ w, v - 1 ≤ w ∧ w ≤ v + 1 → w ≠ v - 1 → parentHash H i w ≠ parentHash H i (v - 1) := by
      intro w hw hwv
      exact (hsep (v - 1) w (by omega) hw.2 (by omega)).symm
    refine (hchained.erase hne).congr fun w => ?_
    simp only [Live]
    omega
  · exact fun hk => hgone ((UMap.mem_eraseAll _ _ _).mp hk).2
  · intro k hk hkv
    rw [UMap.lookup_eraseAll_of_notMem _ _ hkv, hlookup k hk]

end Commit

lemma Chained.markCommit {K : ℕ → Prop} (h : Chained H i K x.hashToQC) {w : ℕ} (hw : K w)
    (hne : ∀ w', K w' → w' ≠ w → parentHash H i w' ≠ parentHash H i w) :
    Chained H i K (x.markCommit (parentHash H i w)).hashToQC := by
  refine (h.insert ((h.stage w hw).2.retype .COMMIT) hne).congr fun w' => ?_
  constructor
  · rintro (hw' | rfl)
    · exact hw'
    · exact hw
  · exact .inl

def advanced (x : Instance) (qc : QuorumCertificate) (view : ℕ) (t : TxnManager) (id : ℕ) : Instance × List ℕ :=
  let y := x.storeQC qc
  if y.Commits qc view then
    ((y.updateQCs qc view).markCommit (y.parentOf (y.parentOf qc)).batchHash).sendExecuteMsg t id
  else (y.updateQCs qc view, [])

structure Advanced (H : ℕ → ℕ → Bytes) (i v : ℕ) (x : Instance) (t : TxnManager) (id : ℕ) (y : Instance × List ℕ) :
    Prop where
  ids : y.2 = if 2 ≤ v then walked v ++ [id] else []
  piped : y.1.Piped H i (v + 1)
  nil_notMem : [] ∉ y.1.hashToTxnid
  lookup : ∀ h, h ≠ [] → (2 ≤ v → h ∉ t.hashVoters.keys) → y.1.hashToTxnid.lookup h = x.hashToTxnid.lookup h

lemma Piped.advanced (h : x.Piped H i v) (hqc : CertOf H i v qc) (hsep : Separate H i (v + 1))
    (hrange : v + 4 < 2 ^ 64) (hnil : [] ∉ x.hashToTxnid) {t : TxnManager}
    (ht : 2 ≤ v → t.hash = parentHash H i (v - 1)) (id : ℕ) :
    Advanced H i v x t id (x.advanced qc (v + 1) t id) := by
  have hlocked := h.updateQCs_lockedQC hqc hsep hrange
  have hstore := h.store hqc hsep
  have hupdate := h.updateQCs_hashToQC hqc hsep (v + 1)
  have hiff := h.commits_iff hqc hsep hrange
  rw [← hupdate] at hstore
  by_cases hv : 2 ≤ v
  · have hb3 := (h.grandparent hqc hsep).2.batchHash
    have hne : ∀ w, (Live v w ∨ w = v + 1) → w ≠ v - 1 → parentHash H i w ≠ parentHash H i (v - 1) := by
      intro w hw hwv
      simp only [Live] at hw
      rcases Nat.lt_or_gt_of_ne hwv with hlt | hgt
      · exact hsep w (v - 1) hlt (by omega) (by omega)
      · exact (hsep (v - 1) w hgt (by omega) (by omega)).symm
    have hmark := Chained.markCommit (i := i) hstore (w := v - 1) (.inl ⟨Nat.sub_le v 1, .inl (by omega)⟩) hne
    rw [Instance.advanced, if_pos (hiff.mpr hv), hb3]
    obtain ⟨hids, hchained, hgone, hlookup⟩ := sendExecuteMsg_piped hmark hsep hv
      (by rw [Instance.markCommit, updateQCs_hashToTxnid]; exact hnil) (ht hv) id
    refine ⟨by rw [hids, if_pos hv], ⟨hchained, ?_⟩, hgone, ?_⟩
    · rw [(Replica.sendExecuteMsg_chain _ _ _).2]
      exact hlocked
    · intro k hk hkv
      rw [hlookup k hk (hkv hv), Instance.markCommit, updateQCs_hashToTxnid]
      rfl
  · rw [Instance.advanced, if_neg fun hc => hv (hiff.mp hc)]
    refine ⟨by rw [if_neg hv], ⟨?_, hlocked⟩, ?_, ?_⟩
    · refine hstore.congr fun w => ?_
      simp only [Live]
      omega
    · rw [updateQCs_hashToTxnid]
      exact hnil
    · intro k _ _
      rw [updateQCs_hashToTxnid]
      rfl

end Instance

namespace Replica

variable {cfg : Config} {crypto : Crypto} {H : ℕ → ℕ → Bytes} {r₀ r s : Replica} {p : ℕ}

def emitted (cfg : Config) (v i : ℕ) : List ℕ :=
  if v ≤ 2 then [] else 0 :: (List.range (v - 2)).map fun w => cfg.lastTxn w i

lemma emitted_succ (cfg : Config) (v i : ℕ) : emitted cfg (v + 1) i =
    emitted cfg v i ++ if 2 ≤ v then Instance.walked v ++ [cfg.lastTxn (v - 2) i] else [] := by
  rcases Nat.lt_trichotomy v 2 with hv | rfl | hv
  · rw [emitted, emitted, if_pos (by omega), if_pos (by omega), if_neg (by omega), List.append_nil]
  · rfl
  · obtain ⟨k, rfl⟩ : ∃ k, v = k + 3 := ⟨v - 3, by omega⟩
    have hrange : List.range (k + 3 + 1 - 2) = List.range (k + 1) ++ [k + 1] := List.range_succ
    rw [emitted, emitted, if_neg (by omega), if_neg (by omega), if_pos (by omega), Instance.walked, if_neg (by omega),
      hrange]
    simp

lemma advanceView_inst_of_ne {id j : ℕ} (ha : r.advanceView cfg id = some s) (hj : j ≠ (r.table id).instanceId) :
    s.inst j = r.inst j := by
  obtain ⟨_, _, rfl⟩ := advanceView_eq ha
  rw [enterView_inst_of_ne cfg _ _ _ _ hj, updateLockQC_inst_of_ne cfg _ _ _ _ _ hj]
  simp only [installQC, observe_inst, setInst_inst, setTxn_inst, Function.update_of_ne hj]

lemma updateLockQC_advanced {x : Instance} {qc : QuorumCertificate} {i : ℕ} (hx : r.inst i = x.storeQC qc)
    (view txnid : ℕ) : (r.updateLockQC cfg qc view txnid i).inst i =
      (x.advanced qc view (r.table (sub64 txnid (2 * cfg.stride))) (sub64 txnid (2 * cfg.stride))).1 := by
  simp only [updateLockQC, Instance.advanced, hx]
  split_ifs with hc
  · simp only [commit, enqueueExecutes, observe_inst, setInst_inst, Function.update_self, setInst_table]
  · simp

section Advance

variable {id v i : ℕ} (hadv : Advances cfg H r id v i) (ha : r.advanceView cfg id = some s)

include hadv ha

lemma advanceView_advanced :
    let k := sub64 id (2 * cfg.stride)
    let y := (r.inst i).advanced (genericQCOf (r.table id) v) (v + 1) ((r.installQC id).table k) k
    r.advanceIds cfg id = y.2 ∧ (s.inst i).hashToQC = y.1.hashToQC ∧ (s.inst i).lockedQC = y.1.lockedQC ∧
      (s.inst i).hashToTxnid = y.1.hashToTxnid := by
  intro k y
  have hinst := installQC_inst hadv
  have hupdated : ((r.installQC id).updateLockQC cfg (genericQCOf (r.table id) v) (v + 1) id i).inst i = y.1 :=
    updateLockQC_advanced hinst (v + 1) id
  have hs : s = ((r.installQC id).updateLockQC cfg (genericQCOf (r.table id) v) (v + 1) id i).enterView cfg i
      (v + 1) id := by
    obtain ⟨_, _, heq⟩ := advanceView_eq ha
    rw [heq]
    simp only [hadv.inst, hadv.view]
  have hchain := @enterView_chain cfg (v + 1) i
    ((r.installQC id).updateLockQC cfg (genericQCOf (r.table id) v) (v + 1) id i) id
  refine ⟨?_, ?_, ?_, ?_⟩
  · simp only [advanceIds, commitIds, hadv.inst, hadv.view, hinst, y, Instance.advanced]
    split_ifs <;> rfl
  · rw [hs, hchain.2.2, hupdated]
  · rw [hs, hchain.2.1, hupdated]
  · rw [hs, enterView_hashToTxnid, hupdated]

end Advance

def Proposals (cfg : Config) (r : Replica) (j w : ℕ) : Prop := (r.table (cfg.lastTxn w j)).proposalReceived = true

inductive Binds (cfg : Config) (H : ℕ → ℕ → Bytes) (P : Msg → Prop) (r₀ : Replica) (j : ℕ) (r s : Replica) : Prop
  | same (h : (s.inst j).hashToTxnid = (r.inst j).hashToTxnid)
      (hrec : j < cfg.totInstances → ∀ w, s.Proposals cfg j w → r.Proposals cfg j w)
  | proposal {m : ProposalMsg} (hm : P (.proposal m)) (hr : r = r₀) (hj : m.instanceId = j)
      (hcur : (r.inst j).view ≤ m.view) (hne : H m.view j ≠ [])
      (h : (s.inst j).hashToTxnid = UMap.insertNew (r.inst j).hashToTxnid (H m.view j) (cfg.lastTxn m.view j))
      (hrec : j < cfg.totInstances → ∀ w, s.Proposals cfg j w → r.Proposals cfg j w ∨ w = m.view)
  | sync {m : SyncMsg} (hm : P (.sync m)) (hr : r = r₀) (hj : m.instanceId = j)
      (hcur : (r.inst j).view ≤ m.view) (hne : H m.view j ≠ [])
      (h : (s.inst j).hashToTxnid = (r.inst j).hashToTxnid.insert (H m.view j) (cfg.lastTxn m.view j))
      (hrec : j < cfg.totInstances → ∀ w, s.Proposals cfg j w → r.Proposals cfg j w)
  | batch (hr : r = r₀) (hne : H (r.inst j).view j ≠ [])
      (h : (s.inst j).hashToTxnid =
        (r.inst j).hashToTxnid.insert (H (r.inst j).view j) (cfg.lastTxn (r.inst j).view j))
      (hrec : j < cfg.totInstances → ∀ w, s.Proposals cfg j w → r.Proposals cfg j w ∨ w = (r.inst j).view)

section Binds

variable {P : Msg → Prop} {j : ℕ}

lemma Binds.of_inst (h : s.inst = r.inst)
    (hrec : ∀ k, (s.table k).proposalReceived = true → (r.table k).proposalReceived = true) :
    Binds cfg H P r₀ j r s :=
  .same (by rw [h]) fun _ _ => hrec _

lemma Hashes.proposals {v i : ℕ} {hash : Bytes} (h : Hashes cfg v i hash r.table s.table) {j w : ℕ}
    (hj : j < cfg.totInstances) (hw : s.Proposals cfg j w) : r.Proposals cfg j w ∨ (w, j) = (v, i) := by
  by_cases hwj : (w, j) = (v, i)
  · exact .inr hwj
  · left
    rw [Proposals, h.others w j hj hwj] at hw
    exact hw

lemma binds_proposal (h₀ : Calm cfg H r₀) {m : ProposalMsg} {table : ℕ → TxnManager} (hP : P (.proposal m))
    (hm : Expected cfg H r₀ (.proposal m)) (hindex : r₀.exec.nextIndex < m.txnId)
    (hacc : AcceptsProposal cfg crypto r₀ m table) (j : ℕ) :
    Binds cfg H P r₀ j r₀ (r₀.storeProposal m table) := by
  have hhash : m.hash = H m.view m.instanceId := hm.honest.content
  have hnamed : m.Named cfg := hm.honest.peer.named
  have hwf := hm.honest.peer.wellFormed
  have hrec := storeProposal_hashes hnamed hwf hacc
  by_cases hj : m.instanceId = j
  · subst hj
    refine .proposal hP rfl rfl ?_ ?_ ?_ fun hj w hw => ?_
    · have htxn := hnamed.txnId
      have hfresh := hacc.fresh
      rw [htxn] at hfresh
      refine h₀.steady.paced.not_passed hwf.1 (fun hready => ?_) (.inr (by omega))
      rw [hready.2.1] at hfresh
      cases hfresh
    · rw [← hhash, hacc.digest]
      exact crypto.hash_ne_nil _
    · simp only [storeProposal, rememberTxnid, setInst_inst, Function.update_self]
      rw [hhash, hnamed.index, cfg.slotTxns_getLastD]
    · exact (hrec.proposals hj hw).imp_right fun heq => (Prod.mk.inj heq).1
  · refine .same ?_ fun hj' w hw => ?_
    · simp [storeProposal, rememberTxnid, Function.update_of_ne (Ne.symm hj)]
    · exact (hrec.proposals hj' hw).resolve_right fun heq => hj (Prod.mk.inj heq).2.symm

lemma hotstuffNewViewed_proposalReceived (t : TxnManager) (me : ℕ) (m : SyncMsg) :
    (hotstuffNewViewed cfg t me m).1.proposalReceived = t.proposalReceived := by
  obtain ⟨_, _, _, _, _, heq⟩ := @hotstuffNewViewed_eq cfg t me m
  rw [heq]

lemma update_proposalReceived {table : ℕ → TxnManager} {id k : ℕ} {t : TxnManager}
    (ht : t.proposalReceived = (table id).proposalReceived) :
    (Function.update table id t k).proposalReceived = (table k).proposalReceived := by
  by_cases hk : k = id
  · subst hk
    rw [Function.update_self, ht]
  · rw [Function.update_of_ne hk]

lemma binds_countVote {m : SyncMsg} (hP : P (.sync m)) (hm : Expected cfg H r₀ (.sync m))
    (hfresh : ¬ r₀.StaleSync m) (j : ℕ) :
    Binds cfg H P r₀ j r₀ (r₀.countVote cfg m) := by
  obtain ⟨hid, hhash, hne⟩ : m.txnId = cfg.lastTxn m.view m.instanceId ∧ m.hash = H m.view m.instanceId ∧
    m.hash ≠ [] := hm.honest.content
  have hrec : ∀ k, ((r₀.countVote cfg m).table k).proposalReceived = true → (r₀.table k).proposalReceived = true := by
    intro k hk
    rwa [countVote_table, update_proposalReceived (hotstuffNewViewed_proposalReceived _ _ _)] at hk
  have hcur : (r₀.inst m.instanceId).view ≤ m.view := Nat.le_of_not_lt fun hlt => hfresh (.inl hlt)
  by_cases hb : bindsHash (r₀.table m.txnId) r₀.nodeId m
  · have hinst : (r₀.countVote cfg m).inst = (r₀.bindTxnid m).inst := by
      simp only [countVote, if_pos hb, setTxn_inst]
    by_cases hj : m.instanceId = j
    · subst hj
      refine .sync hP rfl rfl hcur (hhash ▸ hne) ?_ fun _ _ => hrec _
      rw [hinst]
      simp only [bindTxnid, setInst_inst, Function.update_self]
      rw [hhash, hid]
    · refine .same ?_ fun _ _ => hrec _
      rw [hinst]
      simp [bindTxnid, Function.update_of_ne (Ne.symm hj)]
  · exact .of_inst (by simp only [countVote, if_neg hb, setTxn_inst]) hrec

lemma binds_storeBatch (h₀ : Calm cfg H r₀) {slot : ℕ} {batch : ClientQueryBatch} {table : ℕ → TxnManager}
    (hbatch : SlotBatch cfg crypto H slot batch) (hpc : r₀.threads.proposal = .stamped slot batch)
    (hfill : fillManagers cfg r₀.table batch.returnNode (r₀.proposalOf cfg crypto slot batch).view
      (r₀.proposalOf cfg crypto slot batch).instanceId
      ((r₀.proposalOf cfg crypto slot batch).index.zip batch.cqrySet) = some table) (j : ℕ) :
    Binds cfg H P r₀ j r₀ (r₀.storeBatch cfg crypto slot batch table) := by
  obtain ⟨hi, _, hlast⟩ := proposalOf_last crypto h₀.steady.alloc hpc
  obtain ⟨_, hslot, _⟩ := alloc_stamped cfg crypto h₀.steady.alloc hpc
  have hrec := storeBatch_hashes h₀.steady.alloc hpc (h₀.steady.fed.inHand batch (by simp [hpc, ProposalPc.inHand])) hfill
  have hview := (h₀.steady.paired.pending _ hi (stamped_pending hpc)).view
  obtain ⟨m, hm⟩ : ∃ m, r₀.proposalOf cfg crypto slot batch = m := ⟨_, rfl⟩
  have hdigest : m.hash = crypto.calculateHash (batchString batch.cqrySet) := by
    rw [← hm]
    rfl
  have hcur : m.view = (r₀.inst m.instanceId).view := by
    rw [← hm]
    exact hview
  rw [hm] at hi hlast hslot hrec
  have hhash : m.hash = H m.view m.instanceId := by
    rw [hdigest, hbatch, hslot, cfg.slot_div m.view hi, cfg.slot_mod m.view hi]
  by_cases hj : m.instanceId = j
  · subst hj
    refine .batch rfl ?_ ?_ fun hj w hw => ?_
    · rw [← hcur, ← hhash, hdigest]
      exact crypto.hash_ne_nil _
    · simp only [storeBatch, hm, observe_inst, send_inst, setInst_inst, Function.update_self]
      rw [← hcur, hhash, hlast]
    · rw [← hcur]
      exact (hrec.proposals hj hw).imp_right fun heq => (Prod.mk.inj heq).1
  · refine .same ?_ fun hj' w hw => ?_
    · simp [storeBatch, hm, Function.update_of_ne (Ne.symm hj)]
    · exact (hrec.proposals hj' hw).resolve_right fun heq => hj (Prod.mk.inj heq).2.symm

lemma Midway.binds (h₀ : Calm cfg H r₀) (h : Midway cfg H r₀ r) (hexp : ∀ m, P m → Expected cfg H r₀ m)
    (hm : Move cfg crypto P (Current cfg r₀) (SlotBatch cfg crypto H) r₀ r s) (j : ℕ) :
    Binds cfg H P r₀ j r s ∨ ∃ id v i, Advances cfg H r id v i ∧ r.advanceView cfg id = some s := by
  cases hm with
  | idle hidle =>
    obtain ⟨_, _, heq⟩ := hidle.chain j
    refine .inl (.same (by rw [heq]) fun _ w hw => ?_)
    rwa [Proposals, hidle.table] at hw
  | proposal hP hindex hacc => exact .inl (binds_proposal h₀ hP (hexp _ hP) hindex hacc j)
  | @generic _ m hP hindex hview hacc =>
    left
    have hhonest := (hexp _ hP).honest
    have hcur := hacc.current h.paced hhonest.peer hindex hview
    rw [h.sound.lockGeneric_eq hhonest hcur]
    refine .same ?_ fun _ w hw => ?_
    · simp only [storeGeneric, observe_inst, setInst_inst]
      rw [Function.update_apply]
      split_ifs with hj
      · subst hj
        rfl
      · rfl
    · have haccept : (acceptGeneric (r.table m.txnId) m).proposalReceived = (r.table m.txnId).proposalReceived := by
        simp only [acceptGeneric]
        split_ifs <;> rfl
      simp only [Proposals, storeGeneric, observe_table, setInst_table, setTxn_table] at hw
      rwa [update_proposalReceived haccept] at hw
  | @vote _ id =>
    left
    rcases sendHotstuffNewview_cases cfg crypto r id with ⟨_, heq⟩ | ⟨_, hc⟩
    · rw [heq]
      exact .of_inst rfl fun _ hk => hk
    · refine .of_inst hc.inst fun k hk => ?_
      obtain ⟨_, _, _, heq⟩ := @castVote_eq cfg
        { r.table id with genericQC := r.ownShare cfg crypto id, syncSent := true } r.nodeId
      rwa [hc.table, heq, update_proposalReceived (by rfl)] at hk
  | count hP hfresh => exact .inl (binds_countVote hP (hexp _ hP) hfresh j)
  | advance hsame hfresh hready ha =>
    obtain ⟨v, i, hadv⟩ := h.sound.advances h₀.steady.paced h.paced hsame
      (hfresh.imp fun m hm => (hexp m hm).honest.peer) hready ha
    exact .inr ⟨_, v, i, hadv, ha⟩
  | batch hbatch hpc hfill => exact .inl (binds_storeBatch h₀ hbatch hpc hfill j)
  | announce =>
    refine .inl (.of_inst rfl fun k hk => ?_)
    simp only [announceGeneric, observe_table, send_table, setTxn_table] at hk
    rwa [update_proposalReceived (by rfl)] at hk
  | execute => exact .inl (.of_inst rfl fun _ => id)
  | @recycle id t _ ht =>
    refine .inl (.of_inst rfl fun k hk => ?_)
    by_cases hkid : k = id
    · subst hkid
      rw [setTxn_table, Function.update_self, ht.proposalReceived] at hk
      cases hk
    · rwa [setTxn_table, Function.update_of_ne hkid] at hk

end Binds

-- Batches proposed within three views of each other in one instance have different digests.
def Apart (cfg : Config) (H : ℕ → ℕ → Bytes) : Prop :=
  ∀ i < cfg.totInstances, ∀ u w, u < w → w ≤ u + 3 → H w i ≠ [] → H u i ≠ H w i

structure Pipelined (cfg : Config) (H : ℕ → ℕ → Bytes) (r : Replica) : Prop where
  piped : ∀ i < cfg.totInstances, (r.inst i).Piped H i (r.inst i).view
  nil_notMem : ∀ i, [] ∉ (r.inst i).hashToTxnid
  executions : ∀ i, r.executions i = (emitted cfg (r.inst i).view i).map (ExecuteMsg.copyFromTxn cfg)
  unused : ∀ i, cfg.totInstances ≤ i → (r.inst i).view = 0

lemma pipelined_init (p : ℕ) : Pipelined cfg H (init cfg p) where
  piped i _ := by
    refine ⟨⟨?_, ?_⟩, .genesis rfl rfl rfl rfl⟩
    · rintro w ⟨hw, -⟩
      obtain rfl : w = 0 := Nat.le_zero.mp hw
      simp only [parentHash, init, Instance.init, UMap.get_insert_self]
      exact ⟨(AList.mem_insert _).mpr (.inl rfl), .genesis rfl rfl rfl rfl⟩
    · intro h hh
      simp only [init, Instance.init, AList.mem_insert] at hh
      rcases hh with rfl | hh
      · exact ⟨0, ⟨Nat.zero_le _, .inl (Nat.zero_le _)⟩, rfl⟩
      · exact absurd hh (by simp)
  nil_notMem i := by simp [init, Instance.init]
  executions i := by simp [executions, init, Instance.init, emitted]
  unused _ _ := rfl

section Move

variable (hp : Pipelined cfg H r) (ht : Tracked cfg r)

include hp ht

lemma Pipelined.not_executed {w i : ℕ} (hi : i < cfg.totInstances) (hw : (r.inst i).view ≤ w + 2) :
    r.exec.nextIndex < cfg.lastTxn w i := by
  by_contra hle
  obtain ⟨j, hj⟩ := ht.executed (Nat.le_of_not_lt hle)
  rw [hp.executions j, List.mem_map] at hj
  obtain ⟨k, hk, heq⟩ := hj
  have hk' := ExecuteMsg.copyFromTxn_injective cfg heq
  subst hk'
  rw [emitted] at hk
  split_ifs at hk with hv
  · cases hk
  · have hjm : j < cfg.totInstances := by
      by_contra hge
      have := hp.unused j (Nat.le_of_not_lt hge)
      omega
    rcases List.mem_cons.mp hk with hzero | hk
    · have hb := cfg.five_le_batch
      rw [Config.lastTxn] at hzero
      omega
    · obtain ⟨w', hw', heq'⟩ := List.mem_map.mp hk
      obtain ⟨rfl, rfl⟩ := cfg.lastTxn_inj hjm hi heq'
      have := List.mem_range.mp hw'
      omega

lemma Pipelined.manager_hash (hpaced : Paced cfg r) (hsound : Sound cfg H r) {w i : ℕ} (hi : i < cfg.totInstances)
    (hw : w < (r.inst i).view) (hw' : (r.inst i).view ≤ w + 2) : (r.table (cfg.lastTxn w i)).hash = H w i := by
  rcases hpaced.passed i hi w hw with hready | ⟨hlt, _⟩
  · exact hsound.tabled.hashes w i hi (hsound.tabled.high w i hi hready.2.2).1
  · have := hp.not_executed ht hi hw'
    omega

end Move

lemma Sound.separate (hapart : Apart cfg H) (h : Sound cfg H r) {id v i : ℕ} (hadv : Advances cfg H r id v i) :
    Separate H i (v + 1) := by
  intro w w' hlt hle hdist
  obtain ⟨u', rfl⟩ : ∃ u', w' = u' + 1 := ⟨w' - 1, by omega⟩
  have hreal : H u' i ≠ [] := by
    by_cases hu : u' = v
    · rw [hu]
      exact hadv.real
    · exact h.real i hadv.inst_lt u' (by rw [hadv.view]; omega)
  cases w with
  | zero => exact hreal.symm
  | succ u => exact hapart i hadv.inst_lt u u' (by omega) (by omega) hreal

lemma installQC_manager (r : Replica) (id k : ℕ) : ((r.installQC id).table k).hash = (r.table k).hash ∧
    ((r.installQC id).table k).hashVoters = (r.table k).hashVoters := by
  simp only [installQC, observe_table, setInst_table, setTxn_table]
  by_cases hk : k = id
  · subst hk
    simp
  · simp [Function.update_of_ne hk]

lemma Pipelined.advance (hp : Pipelined cfg H r) (ht : Tracked cfg r) (hapart : Apart cfg H) (hpaced : Paced cfg r)
    (hsound : Sound cfg H r) {id v i : ℕ} (hadv : Advances cfg H r id v i) (ha : r.advanceView cfg id = some s) :
    r.advanceIds cfg id = (if 2 ≤ v then Instance.walked v ++ [cfg.lastTxn (v - 2) i] else []) ∧
      (s.inst i).Piped H i (v + 1) ∧ [] ∉ (s.inst i).hashToTxnid ∧
      ∀ h, h ≠ [] → (2 ≤ v → h ∉ (r.table (cfg.lastTxn (v - 2) i)).hashVoters.keys) →
        (s.inst i).hashToTxnid.lookup h = (r.inst i).hashToTxnid.lookup h := by
  have hi := hadv.inst_lt
  have hrange := Config.InRange.view_lt cfg hadv.range
  have hcommit : 2 ≤ v → sub64 id (2 * cfg.stride) = cfg.lastTxn (v - 2) i := by
    intro hv
    obtain ⟨u, rfl⟩ : ∃ u, v = u + 2 := ⟨v - 2, by omega⟩
    rw [hadv.id_eq, cfg.lastTxn_two_back, Nat.add_sub_cancel]
  have hhash : 2 ≤ v → ((r.installQC id).table (sub64 id (2 * cfg.stride))).hash = parentHash H i (v - 1) := by
    intro hv
    obtain ⟨u, rfl⟩ : ∃ u, v = u + 2 := ⟨v - 2, by omega⟩
    rw [(installQC_manager r id _).1, hcommit hv]
    exact hp.manager_hash ht hpaced hsound hi (by rw [hadv.view]; omega) (by rw [hadv.view]; omega)
  obtain ⟨hids, hqc, hlocked, htxnid⟩ := advanceView_advanced hadv ha
  have hpiped := hp.piped i hi
  rw [hadv.view] at hpiped
  have hy := hpiped.advanced hadv.cert (hsound.separate hapart hadv) hrange (hp.nil_notMem i) hhash
    (sub64 id (2 * cfg.stride))
  refine ⟨?_, ⟨?_, ?_⟩, ?_, ?_⟩
  · rw [hids, hy.ids]
    split_ifs with hv
    · rw [hcommit hv]
    · rfl
  · rw [hqc]
    exact hy.piped.chained
  · rw [hlocked]
    exact hy.piped.locked
  · rw [htxnid]
    exact hy.nil_notMem
  · intro h hne hkeys
    rw [htxnid]
    refine hy.lookup h hne fun hv => ?_
    rw [(installQC_manager r id _).2, hcommit hv]
    exact hkeys hv

lemma Binds.nil_notMem {P : Msg → Prop} {j : ℕ} (h : Binds cfg H P r₀ j r s) (hr : [] ∉ (r.inst j).hashToTxnid) :
    [] ∉ (s.inst j).hashToTxnid := by
  cases h with
  | same h => rwa [h]
  | proposal _ _ _ _ hne h =>
    rw [h, UMap.mem_insertNew]
    exact fun hk => hk.elim (fun hk => hne hk.symm) hr
  | sync _ _ _ _ hne h =>
    rw [h, AList.mem_insert]
    exact fun hk => hk.elim (fun hk => hne hk.symm) hr
  | batch _ hne h =>
    rw [h, AList.mem_insert]
    exact fun hk => hk.elim (fun hk => hne hk.symm) hr

lemma Pipelined.storeGeneric (hp : Pipelined cfg H r) (hapart : Apart cfg H) (hsound : Sound cfg H r) {m : GenericMsg}
    (hm : Msg.Honest cfg H p (.generic m)) (hcur : (r.inst m.instanceId).view = m.view) {i : ℕ}
    (hi : i < cfg.totInstances) : ((r.storeGeneric m).inst i).Piped H i (r.inst i).view := by
  simp only [Replica.storeGeneric, observe_inst, setInst_inst]
  by_cases hj : i = m.instanceId
  · subst hj
    rw [Function.update_self]
    have hpiped := hp.piped _ hi
    have hstage : Stage H m.instanceId (r.inst m.instanceId).view m.highQC := by
      rw [hcur]
      exact hm.content.2.2
    have hne : ∀ w, Live (r.inst m.instanceId).view w → w ≠ (r.inst m.instanceId).view →
        parentHash H m.instanceId w ≠ parentHash H m.instanceId (r.inst m.instanceId).view := by
      intro w hw hwv
      obtain ⟨u, hu⟩ : ∃ u, (r.inst m.instanceId).view = u + 1 :=
        ⟨(r.inst m.instanceId).view - 1, by have := hw.1; omega⟩
      have hreal := hsound.real _ hi u (by omega)
      rw [hu] at hw hwv ⊢
      cases w with
      | zero => exact hreal.symm
      | succ u' =>
        simp only [Live] at hw
        exact hapart _ hi u' u (by omega) (by omega) hreal
    refine ⟨?_, hpiped.locked⟩
    have hlive : ∀ w, (Live (r.inst m.instanceId).view w ∨ w = (r.inst m.instanceId).view) ↔
        Live (r.inst m.instanceId).view w := fun w => by
      constructor
      · rintro (hw | rfl)
        · exact hw
        · exact ⟨le_rfl, .inl (Nat.le_succ _)⟩
      · exact .inl
    have hins := (hpiped.chained.insert hstage hne).congr hlive
    rwa [← hstage.batchHash] at hins
  · rw [Function.update_of_ne hj]
    exact hp.piped i hi

lemma storeGeneric_view (r : Replica) (m : GenericMsg) (i : ℕ) :
    ((r.storeGeneric m).inst i).view = (r.inst i).view := by
  simp only [Replica.storeGeneric, observe_inst, setInst_inst, Function.update_apply]
  split_ifs with hi
  · subst hi
    rfl
  · rfl

lemma Pipelined.move (hapart : Apart cfg H) (h₀ : Calm cfg H r₀) (hmid : Midway cfg H r₀ r)
    (hm : CalmMove cfg crypto H r₀ r s) (hp : Pipelined cfg H r) (ht : Tracked cfg r) : Pipelined cfg H s := by
  have hnil : ∀ i, [] ∉ (s.inst i).hashToTxnid := by
    intro i
    rcases hmid.binds h₀ (fun _ => id) hm i with hb | ⟨id, v, j, hadv, ha⟩
    · exact hb.nil_notMem (hp.nil_notMem i)
    · by_cases hij : i = j
      · subst hij
        exact (hp.advance ht hapart hmid.paced hmid.sound hadv ha).2.2.1
      · rw [advanceView_inst_of_ne ha (hadv.inst ▸ hij)]
        exact hp.nil_notMem i
  rcases hmid.cases h₀ hm with hq | ⟨m, hhonest, hcur, rfl⟩ | ⟨id, v, j, hadv, ha⟩
  · refine ⟨fun i hi => ?_, hnil, fun i => ?_, fun i hi => ?_⟩
    · rw [(hq.certs i).view]
      exact ⟨(hq.certs i).hashToQC ▸ (hp.piped i hi).chained, (hq.certs i).lockedQC ▸ (hp.piped i hi).locked⟩
    · rw [hq.executions, (hq.certs i).view]
      exact hp.executions i
    · rw [(hq.certs i).view]
      exact hp.unused i hi
  · refine ⟨fun i hi => ?_, hnil, fun i => ?_, fun i hi => ?_⟩
    · rw [storeGeneric_view]
      exact hp.storeGeneric hapart hmid.sound hhonest hcur hi
    · rw [storeGeneric_view, ← hp.executions i]
      exact observe_executions _ i (by rfl)
    · rw [storeGeneric_view]
      exact hp.unused i hi
  · obtain ⟨hids, hpiped, _⟩ := hp.advance ht hapart hmid.paced hmid.sound hadv ha
    have hview := advanceView_view ha
    rw [hadv.inst] at hview
    refine ⟨fun i hi => ?_, hnil, fun i => ?_, fun i hi => ?_⟩
    · by_cases hij : i = j
      · subst hij
        rw [hview, if_pos rfl, hadv.view]
        exact hpiped
      · rw [advanceView_inst_of_ne ha (hadv.inst ▸ hij)]
        exact hp.piped i hi
    · rw [advanceView_executions ha, hadv.inst, hview, hids, hp.executions i]
      by_cases hij : i = j
      · subst hij
        rw [if_pos rfl, if_pos rfl, hadv.view, emitted_succ, List.map_append]
      · rw [if_neg hij, if_neg hij, List.append_nil]
    · have hij : i ≠ j := by
        have := hadv.inst_lt
        omega
      rw [advanceView_inst_of_ne ha (hadv.inst ▸ hij)]
      exact hp.unused i hi

lemma pipelined_reach (hapart : Apart cfg H) (hp : p < cfg.nodeCnt)
    (h : Reach (step cfg crypto) (FaultFree cfg crypto H) (init cfg p) r) : Pipelined cfg H r ∧ Tracked cfg r := by
  apply calm_invariant (I := fun r => Pipelined cfg H r ∧ Tracked cfg r) hp _ _ h
  · exact ⟨pipelined_init p, tracked_init p⟩
  · intro r₀ r s h₀ _ hmid hm ⟨hpipe, htrack⟩
    exact ⟨hpipe.move hapart h₀ hmid hm htrack, htrack.move hm⟩

end Replica

end SpotLess
