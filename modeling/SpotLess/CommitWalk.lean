import SpotLess.Growth

/-! The loop of `send_execute_msg_hotstuff`, iteration by iteration. Certificates come from the network and may point at
each other in a circle; the loop ends all the same, because what it visits it has stored under its own digest. -/

namespace SpotLess

open Lib

-- Every entry is filed under its own digest, but for those `operator[]` has made.
def Filed (m : UMap Bytes QuorumCertificate) : Prop := ∀ k v, m.lookup k = some v → v = default ∨ v.batchHash = k

namespace Filed

variable {m : UMap Bytes QuorumCertificate}

lemma insert (h : Filed m) {k : Bytes} {v : QuorumCertificate} (hv : v = default ∨ v.batchHash = k) :
    Filed (m.insert k v) := by
  intro l w hl
  by_cases hlk : l = k
  · subst hlk
    rw [AList.lookup_insert] at hl
    exact Option.some.inj hl ▸ hv
  · rw [AList.lookup_insert_ne hlk] at hl
    exact h l w hl

lemma erase (h : Filed m) (k : Bytes) : Filed (m.erase k) := by
  intro l w hl
  exact h l w (UMap.lookup_of_lookup_erase hl).2

lemma touch (h : Filed m) (k : Bytes) : Filed (UMap.touch m k) := by
  rw [UMap.touch]
  split_ifs
  · exact h
  · exact h.insert (.inl rfl)

lemma get_batchHash (h : Filed m) (k : Bytes) :
    (UMap.get m k).batchHash = [] ∨ (UMap.get m k).batchHash = k := by
  by_cases hk : k ∈ m
  · rcases h k _ (UMap.lookup_eq_get hk) with heq | heq
    · exact .inl (by rw [heq, QuorumCertificate.default_batchHash])
    · exact .inr heq
  · exact .inl (by rw [UMap.get_of_notMem hk, QuorumCertificate.default_batchHash])

end Filed

namespace Instance

-- The contents of an instance that the handlers can bring about, with whatever certificates they are sent.
inductive Content : Instance → Prop
  | init : Content .init
  | store {x : Instance} (qc : QuorumCertificate) (h : Content x) : Content (x.storeQC qc)
  | update {x : Instance} (qc : QuorumCertificate) (view : ℕ) (h : Content x) : Content (x.updateQCs qc view)
  | mark {x : Instance} (qc : QuorumCertificate) (h : Content x) :
      Content (x.markCommit (x.parentOf (x.parentOf qc)).batchHash)
  | walk {x : Instance} (t : TxnManager) (id : ℕ) (h : Content x) : Content (x.sendExecuteMsg t id).1
  | other {x y : Instance} (h : Content x) (heq : y.hashToQC = x.hashToQC) : Content y

-- The variables of the loop: `qc` was read at `key`; `visited` and `sent` are what the iterations have done.
structure Walk where
  inst : Instance
  qc : QuorumCertificate
  exist : Bool
  key : Bytes
  visited : List (Bytes × QuorumCertificate)
  sent : List ℕ

namespace Walk

def enter (x : Instance) (hash : Bytes) : Walk :=
  let y : Instance := { x with hashToQC := UMap.touch x.hashToQC hash }
  let qc := UMap.get y.hashToQC hash
  { inst := y
    qc := UMap.get y.hashToQC qc.parentHash
    exist := UMap.count y.hashToQC qc.parentHash
    key := qc.parentHash
    visited := []
    sent := [] }

def body (w : Walk) : Walk :=
  let y : Instance :=
    { w.inst with
      hashToQC := w.inst.hashToQC.erase w.qc.batchHash
      hashToTxnid := w.inst.hashToTxnid.erase w.qc.batchHash }
  { inst := y
    qc := UMap.get y.hashToQC w.qc.parentHash
    exist := UMap.count y.hashToQC w.qc.parentHash
    key := w.qc.parentHash
    visited := w.visited ++ [(w.key, w.qc)]
    sent := w.sent ++ [UMap.get w.inst.hashToTxnid w.qc.batchHash] }

-- `while (exist)`: the loop begun in `w` ends after `n` iterations in `w'`.
inductive Loops : Walk → ℕ → Walk → Prop
  | done {w : Walk} (h : w.exist = false) : Loops w 0 w
  | again {w w' : Walk} {n : ℕ} (h : w.exist = true) (h' : Loops w.body n w') : Loops w (n + 1) w'

structure Standing (w : Walk) : Prop where
  filed : Filed w.inst.hashToQC
  found : w.exist = true → w.inst.hashToQC.lookup w.key = some w.qc

lemma standing_of_lookup {m : UMap Bytes QuorumCertificate} {k : Bytes} (h : UMap.count m k = true) :
    m.lookup k = some (UMap.get m k) := UMap.lookup_eq_get ((UMap.count_eq_true m k).mp h)

lemma standing_enter {x : Instance} (h : Filed x.hashToQC) (hash : Bytes) : (enter x hash).Standing where
  filed := h.touch hash
  found := standing_of_lookup

lemma Standing.body {w : Walk} (h : w.Standing) : w.body.Standing where
  filed := h.filed.erase _
  found := standing_of_lookup

-- A default entry has no parent but the empty digest, which the iteration has just removed.
lemma body_default {w : Walk} (hd : w.qc = default) : w.body.exist = false := by
  have hgone : w.qc.parentHash ∉ w.inst.hashToQC.erase w.qc.batchHash := by
    rw [hd, AList.mem_erase]
    exact fun hin => hin.1 rfl
  exact Bool.not_eq_true _ ▸ mt (UMap.count_eq_true _ _).mp hgone

lemma Standing.key_eq {w : Walk} (h : w.Standing) (he : w.exist = true) (hd : w.qc ≠ default) : w.qc.batchHash = w.key :=
  (h.filed _ _ (h.found he)).resolve_left hd

lemma Standing.mem {w : Walk} (h : w.Standing) (he : w.exist = true) : w.key ∈ w.inst.hashToQC := by
  rw [← AList.lookup_isSome, h.found he]
  rfl

lemma Standing.body_length {w : Walk} (h : w.Standing) (he : w.exist = true) (hd : w.qc ≠ default) :
    w.body.inst.hashToQC.entries.length + 1 = w.inst.hashToQC.entries.length := by
  have hkey := h.key_eq he hd
  exact UMap.length_erase_of_mem (hkey ▸ h.mem he)

lemma Standing.ends {w : Walk} (h : w.Standing) : ∃ n w', Loops w n w' := by
  induction hlen : w.inst.hashToQC.entries.length using Nat.strong_induction_on generalizing w with
  | _ len ih =>
    by_cases he : w.exist = true
    · by_cases hd : w.qc = default
      · exact ⟨1, w.body, .again he (.done (body_default hd))⟩
      · have hshort := h.body_length he hd
        obtain ⟨n, w', hl⟩ := ih _ (by omega) h.body rfl
        exact ⟨n + 1, w', .again he hl⟩
    · exact ⟨0, w, .done (Bool.not_eq_true _ ▸ he)⟩

structure Outcome (w : Walk) (n : ℕ) (w' : Walk) : Prop where
  bound : n ≤ w.inst.hashToQC.entries.length
  sent : ∃ ids, w'.sent = w.sent ++ ids ∧ ids.length = n
  visited : ∃ es, w'.visited = w.visited ++ es ∧ es.length = n ∧ (es.map Prod.fst).Nodup ∧
    (∀ e ∈ es, w.inst.hashToQC.lookup e.1 = some e.2) ∧ ∀ e ∈ es, e.2 ≠ default → e.1 ∉ w'.inst.hashToQC
  shrinks : ∀ k ∈ w'.inst.hashToQC, k ∈ w.inst.hashToQC

lemma Loops.of_not_exist {w w' : Walk} {n : ℕ} (h : Loops w n w') (he : w.exist = false) : n = 0 ∧ w' = w := by
  cases h with
  | done => exact ⟨rfl, rfl⟩
  | again hex => exact absurd (he.symm.trans hex) Bool.false_ne_true

lemma Loops.outcome {w w' : Walk} {n : ℕ} (hl : Loops w n w') (h : w.Standing) : Outcome w n w' := by
  induction hl with
  | done => exact ⟨Nat.zero_le _, ⟨[], by simp, rfl⟩, ⟨[], by simp, rfl, by simp, by simp, by simp⟩, fun k hk => hk⟩
  | @again w w' n he hl ih =>
    obtain ⟨hbound, ⟨ids, hids, hidlen⟩, ⟨es, hes, heslen, hnodup, hfound, hgone⟩, hshrinks⟩ := ih h.body
    have hin : ∀ e ∈ es, e.1 ∈ w.body.inst.hashToQC := by
      intro e hmem
      rw [← AList.lookup_isSome, hfound e hmem]
      rfl
    have hback : ∀ k ∈ w.body.inst.hashToQC, k ∈ w.inst.hashToQC := fun k hk => (AList.mem_erase.mp hk).2
    have hlen : n + 1 ≤ w.inst.hashToQC.entries.length ∧ w.key ∉ es.map Prod.fst := by
      by_cases hd : w.qc = default
      · obtain ⟨rfl, -⟩ := hl.of_not_exist (body_default hd)
        rw [List.eq_nil_of_length_eq_zero heslen]
        have := UMap.length_erase_of_mem (h.mem he)
        exact ⟨by omega, List.not_mem_nil⟩
      · have := h.body_length he hd
        refine ⟨by omega, fun hmem => ?_⟩
        obtain ⟨e, hmem, heq⟩ := List.mem_map.mp hmem
        have := hin e hmem
        rw [heq, ← h.key_eq he hd] at this
        exact (AList.mem_erase.mp this).1 rfl
    refine ⟨hlen.1, ⟨UMap.get w.inst.hashToTxnid w.qc.batchHash :: ids, ?_, ?_⟩,
      ⟨(w.key, w.qc) :: es, ?_, ?_, ?_, ?_, ?_⟩, fun k hk => hback k (hshrinks k hk)⟩
    · rw [hids, body, List.append_assoc, List.singleton_append]
    · rw [List.length_cons, hidlen]
    · rw [hes, body, List.append_assoc, List.singleton_append]
    · rw [List.length_cons, heslen]
    · exact List.nodup_cons.mpr ⟨hlen.2, hnodup⟩
    · intro e hmem
      rcases List.mem_cons.mp hmem with rfl | hmem
      · exact h.found he
      · exact (UMap.lookup_of_lookup_erase (hfound e hmem)).2
    · intro e hmem hd
      rcases List.mem_cons.mp hmem with rfl | hmem
      · intro hk
        have hkey := h.key_eq he hd
        have := hshrinks _ hk
        rw [← hkey] at this
        exact (AList.mem_erase.mp this).1 rfl
      · exact hgone e hmem hd

lemma Loops.standing {w w' : Walk} {n : ℕ} (hl : Loops w n w') (h : w.Standing) : w'.Standing := by
  induction hl with
  | done => exact h
  | again _ _ ih => exact ih h.body

-- The model's bounded recursion is the loop.
lemma Loops.executeParents {w w' : Walk} {n : ℕ} (hl : Loops w n w') (he : w.exist = true) {fuel : ℕ} (hf : n ≤ fuel) :
    w'.inst = (Instance.executeParents fuel w.inst w.qc).1 ∧
      w'.sent = w.sent ++ (Instance.executeParents fuel w.inst w.qc).2 := by
  induction hl generalizing fuel with
  | done hex => exact absurd (hex.symm.trans he) Bool.false_ne_true
  | @again w w' n _ hl ih =>
    cases fuel with
    | zero => omega
    | succ fuel =>
      rw [Instance.executeParents]
      cases hex : w.body.exist with
      | true =>
        have hcount : UMap.count (w.inst.hashToQC.erase w.qc.batchHash) w.qc.parentHash = true := hex
        obtain ⟨hinst, hsent⟩ := ih hex (by omega : n ≤ fuel)
        rw [if_pos hcount]
        refine ⟨hinst, ?_⟩
        rw [hsent, body, List.append_assoc, List.singleton_append]
      | false =>
        have hcount : UMap.count (w.inst.hashToQC.erase w.qc.batchHash) w.qc.parentHash ≠ true :=
          ne_true_of_eq_false hex
        obtain ⟨-, rfl⟩ := hl.of_not_exist hex
        rw [if_neg hcount]
        exact ⟨rfl, rfl⟩

lemma walkParents_eq (x : Instance) (hash : Bytes) :
    x.walkParents hash = if (enter x hash).exist then
      Instance.executeParents ((enter x hash).inst.hashToQC.entries.length + 1) (enter x hash).inst (enter x hash).qc
    else ((enter x hash).inst, []) := rfl

lemma Loops.walkParents {x : Instance} {hash : Bytes} {w : Walk} {n : ℕ} (hx : Filed x.hashToQC)
    (hl : Loops (enter x hash) n w) : x.walkParents hash = (w.inst, w.sent) := by
  have hbound := (hl.outcome (standing_enter hx hash)).bound
  rw [walkParents_eq]
  split_ifs with hex
  · obtain ⟨hinst, hsent⟩ := hl.executeParents hex (Nat.le_succ_of_le hbound)
    rw [hinst, hsent]
    rfl
  · obtain ⟨-, rfl⟩ := hl.of_not_exist (Bool.not_eq_true _ ▸ hex)
    rfl

end Walk

lemma filed_walkParents {x : Instance} (h : Filed x.hashToQC) (hash : Bytes) :
    Filed (x.walkParents hash).1.hashToQC := by
  have hstanding := Walk.standing_enter h hash
  obtain ⟨n, w, hl⟩ := hstanding.ends
  rw [hl.walkParents h]
  exact (hl.standing hstanding).filed

lemma filed_markCommit {x : Instance} (h : Filed x.hashToQC) (qc : QuorumCertificate) :
    Filed (x.markCommit (x.parentOf (x.parentOf qc)).batchHash).hashToQC := by
  refine h.insert (.inr ?_)
  change (UMap.get x.hashToQC (x.parentOf (x.parentOf qc)).batchHash).batchHash = _
  rcases h.get_batchHash (x.parentOf qc).parentHash with heq | heq
  · change (x.parentOf (x.parentOf qc)).batchHash = [] at heq
    rw [heq]
    rcases h.get_batchHash [] with hnil | hnil <;> exact hnil
  · change (x.parentOf (x.parentOf qc)).batchHash = _ at heq
    conv_lhs => rw [heq]
    rfl

lemma Content.filed {x : Instance} (h : Content x) : Filed x.hashToQC := by
  induction h with
  | init =>
    refine Filed.insert (fun k v hk => ?_) (.inr rfl)
    cases hk
  | store qc _ ih => exact ih.insert (.inr rfl)
  | @update x qc view _ ih =>
    have htouch := (ih.touch qc.parentHash).touch (x.parentOf qc).parentHash
    simp only [updateQCs, setPreparedQC, setLockedQC]
    split_ifs <;> exact htouch
  | mark qc _ ih => exact filed_markCommit ih qc
  | walk t id _ ih => exact (filed_walkParents ih t.hash).erase t.hash
  | other _ heq ih => exact heq ▸ ih

structure WalkEnds (x : Instance) (hash : Bytes) : Prop where
  filed : ∀ k v, x.hashToQC.lookup k = some v → v = default ∨ v.batchHash = k
  ends : ∃ n w, Walk.Loops (Walk.enter x hash) n w ∧ x.walkParents hash = (w.inst, w.sent) ∧
    n ≤ (Walk.enter x hash).inst.hashToQC.entries.length ∧ w.sent.length = n ∧ w.visited.length = n ∧
    (w.visited.map Prod.fst).Nodup ∧
    (∀ e ∈ w.visited, (Walk.enter x hash).inst.hashToQC.lookup e.1 = some e.2) ∧
    ∀ e ∈ w.visited, e.2 ≠ default → e.1 ∉ w.inst.hashToQC

lemma Content.walkEnds {x : Instance} (h : Content x) (hash : Bytes) : WalkEnds x hash := by
  have hfiled := h.filed
  have hstanding := Walk.standing_enter hfiled hash
  obtain ⟨n, w, hl⟩ := hstanding.ends
  obtain ⟨hbound, ⟨ids, hids, hidlen⟩, ⟨es, hes, heslen, hnodup, hfound, hgone⟩, -⟩ := hl.outcome hstanding
  obtain rfl : w.sent = ids := hids
  obtain rfl : w.visited = es := hes
  exact ⟨hfiled, n, w, hl, hl.walkParents hfiled, hbound, hidlen, heslen, hnodup, hfound, hgone⟩

end Instance

namespace Replica

open Instance

variable {cfg : Config} {crypto : Crypto} {r s : Replica} {p : ℕ}

lemma content_committed {x : Instance} (h : Content x) (qc : QuorumCertificate) (view : ℕ) :
    Content ((x.updateQCs qc view).markCommit (x.parentOf (x.parentOf qc)).batchHash) := by
  have hparent : ∀ qc', (x.updateQCs qc view).parentOf qc' = x.parentOf qc' := by
    intro qc'
    simp only [parentOf, updateQCs, setPreparedQC, setLockedQC]
    split_ifs <;> simp
  have hmark := Content.mark qc (h.update qc view)
  rwa [hparent, hparent] at hmark

lemma content_updateLockQC (h : ∀ i, Content (r.inst i)) (qc : QuorumCertificate) (view txnid i j : ℕ) :
    Content ((r.updateLockQC cfg qc view txnid i).inst j) := by
  by_cases hj : j = i
  · subst hj
    simp only [updateLockQC]
    split_ifs
    · simp only [commit, enqueueExecutes, observe_inst, setInst_inst, Function.update_self]
      exact (content_committed (h j) qc view).walk _ _
    · rw [setInst_inst, Function.update_self]
      exact (h j).update qc view
  · rw [updateLockQC_inst_of_ne cfg r qc view txnid i hj]
    exact h j

lemma content_setInst (h : ∀ i, Content (r.inst i)) (i : ℕ) {x : Instance} (hx : Content x) (j : ℕ) :
    Content ((r.setInst i x).inst j) := by
  rw [setInst_inst, Function.update_apply]
  split_ifs
  · exact hx
  · exact h j

lemma content_same (h : ∀ i, Content (r.inst i)) {i : ℕ} {x : Instance} (hinst : s.inst = Function.update r.inst i x)
    (hx : x.hashToQC = (r.inst i).hashToQC) (j : ℕ) : Content (s.inst j) := by
  rw [hinst, Function.update_apply]
  split_ifs
  · exact (h i).other hx
  · exact h j

lemma content_enterView (h : ∀ i, Content (r.inst i)) (i view id j : ℕ) :
    Content ((r.enterView cfg i view id).inst j) := by
  have hview : ∀ j, Content ((r.setView i view).inst j) := content_same h rfl rfl
  have hcurr : ∀ j, Content (((r.setView i view).setCurrNewViewed i id).inst j) := content_same hview rfl rfl
  simp only [enterView]
  split_ifs <;> exact hcurr j

lemma Move.content {r₀ : Replica} {P : Msg → Prop} {Q : ℕ → Prop} {B : ℕ → ClientQueryBatch → Prop}
    (hm : Move cfg crypto P Q B r₀ r s) (h : ∀ i, Content (r.inst i)) (i : ℕ) : Content (s.inst i) := by
  cases hm with
  | idle hidle =>
    obtain ⟨temp, prior, heq⟩ := hidle.chain i
    exact (h i).other (by rw [heq])
  | proposal =>
    refine content_same h rfl ?_ i
    rfl
  | @generic _ m =>
    have hstore : ∀ j, Content ((r.storeGeneric m).inst j) := content_setInst h _ ((h _).store _)
    simp only [lockGeneric]
    split_ifs
    · exact content_updateLockQC hstore _ _ _ _ i
    · exact hstore i
  | @vote _ id =>
    rcases sendHotstuffNewview_cases cfg crypto r id with ⟨_, heq⟩ | ⟨_, hc⟩
    · rw [heq]
      exact h i
    · rw [hc.inst]
      exact h i
  | @count m =>
    simp only [countVote]
    split_ifs
    · refine content_same h rfl ?_ i
      rfl
    · exact h i
  | @advance _ _ id _ _ _ ha =>
    obtain ⟨-, -, rfl⟩ := advanceView_eq ha
    have hinstall : ∀ j, Content ((r.installQC id).inst j) := content_setInst h _ ((h _).store _)
    exact content_enterView (content_updateLockQC hinstall _ _ _ _) _ _ _ i
  | batch =>
    refine content_same h rfl ?_ i
    rfl
  | announce => exact h i
  | execute => exact h i
  | recycle => exact h i

lemma content_reach (h : Reach (step cfg crypto) (Genuine cfg) (init cfg p) r) (i : ℕ) : Content (r.inst i) := by
  refine Reach.moves_invariant (P := fun _ => True) (I := fun r => ∀ i, Content (r.inst i)) ?_ (fun _ => rfl)
    (fun _ => .init) (fun _ _ _ hm hr => hm.content hr) h i
  intro r e he
  cases e with
  | proposalThread => exact fun _ _ _ => trivial
  | recycle => exact he
  | _ => trivial

end Replica

namespace Instance

theorem commit_walk_ends (cfg : Config) (crypto : Crypto) :
    (∀ x, Content x → ∀ hash, WalkEnds x hash) ∧
      ∀ p r, Reach (Replica.step cfg crypto) (Replica.Genuine cfg) (Replica.init cfg p) r →
        ∀ i hash, WalkEnds (r.inst i) hash :=
  ⟨fun _ h => h.walkEnds, fun _ _ h i => (Replica.content_reach h i).walkEnds⟩

-- Two certificates that name each other as parents.
def circle : Instance :=
  (Instance.init.storeQC { batchHash := [1], parentHash := [2] }).storeQC { batchHash := [2], parentHash := [1] }

theorem commit_walk_ends_circle :
    (UMap.get circle.hashToQC (UMap.get circle.hashToQC [1]).parentHash).parentHash = [1] ∧
      ∃ n w, Walk.Loops (Walk.enter circle [1]) n w ∧ n ≤ (Walk.enter circle [1]).inst.hashToQC.entries.length := by
  obtain ⟨-, n, w, hl, -, hbound, -⟩ :=
    (commit_walk_ends .fourReplicas .transparent).1 circle (.store _ (.store _ .init)) [1]
  exact ⟨by decide, n, w, hl, hbound⟩

end Instance

end SpotLess
