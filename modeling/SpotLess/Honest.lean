import SpotLess.Pairing
import SpotLess.Provenance

/-! Runs without faulty replicas as one replica sees them: a slot has one hash, `H view instance`, and a GENERIC
carries the certificate of the slot one view earlier. The prepared certificate is then the one of the view before. -/

namespace SpotLess

open Lib

section Content

variable (cfg : Config) (H : ℕ → ℕ → Bytes)

def parentHash (i : ℕ) : ℕ → Bytes
  | 0 => []
  | w + 1 => H w i

structure CertOf (i w : ℕ) (qc : QuorumCertificate) : Prop where
  genesis : qc.genesis = false
  viewNumber : qc.viewNumber = w
  batchHash : qc.batchHash = H w i
  parentHash : qc.parentHash = parentHash H i w
  parentView : qc.parentView = w - 1

-- The certificate a replica has prepared when it enters a view.
inductive Stage (i : ℕ) : ℕ → QuorumCertificate → Prop
  | genesis {qc : QuorumCertificate} (hg : qc.genesis = true) (hv : qc.viewNumber = 0) (hh : qc.batchHash = [])
      (hp : qc.parentHash = []) : Stage i 0 qc
  | cert {w : ℕ} {qc : QuorumCertificate} (h : CertOf H i w qc) : Stage i (w + 1) qc

def Msg.Content : Msg → Prop
  | .proposal m => m.hash = H m.view m.instanceId
  | .generic m => m.hash = H m.view m.instanceId ∧ m.hash ≠ [] ∧ Stage H m.instanceId m.view m.highQC
  | .sync m => m.txnId = cfg.lastTxn m.view m.instanceId ∧ m.hash = H m.view m.instanceId ∧ m.hash ≠ []

structure Msg.Honest (p : ℕ) (m : Msg) : Prop where
  peer : m.Peer cfg p
  content : m.Content cfg H

end Content

variable {cfg : Config} {H : ℕ → ℕ → Bytes}

lemma Stage.viewNumber {i v : ℕ} {qc : QuorumCertificate} (h : Stage H i v qc) : qc.viewNumber = v - 1 := by
  cases h with
  | genesis _ hv => rw [hv]
  | cert h => rw [h.viewNumber, Nat.add_sub_cancel]

namespace Replica

variable {crypto : Crypto} {Q : ℕ → Prop} {B : ℕ → ClientQueryBatch → Prop} {r₀ r s : Replica} {p : ℕ}

lemma genericQCOf_certOf {t : TxnManager} {v i : ℕ} (hhash : t.hash = H v i) (hhigh : Stage H i v t.highQC)
    (hgenesis : t.genericQC.genesis = false) : CertOf H i v (genericQCOf t v) := by
  cases hhigh with
  | genesis hg hv hh => exact ⟨hgenesis, by simp [genericQCOf, hg], hhash, hh, hv⟩
  | cert h => exact ⟨hgenesis, by simp [genericQCOf, h.genesis], hhash, h.batchHash, h.viewNumber⟩

section Chain

variable (qc : QuorumCertificate) (view txnid i : ℕ)

lemma executeParents_chain (fuel : ℕ) (x : Instance) (qc : QuorumCertificate) :
    (Instance.executeParents fuel x qc).1.preparedQC = x.preparedQC ∧
      (Instance.executeParents fuel x qc).1.lockedQC = x.lockedQC := by
  induction fuel generalizing x qc with
  | zero => exact ⟨rfl, rfl⟩
  | succ fuel ih =>
    simp only [Instance.executeParents]
    split_ifs
    · exact ih _ _
    · exact ⟨rfl, rfl⟩

lemma sendExecuteMsg_chain (x : Instance) (t : TxnManager) (id : ℕ) :
    (x.sendExecuteMsg t id).1.preparedQC = x.preparedQC ∧ (x.sendExecuteMsg t id).1.lockedQC = x.lockedQC := by
  simp only [Instance.sendExecuteMsg, Instance.walkParents]
  split_ifs
  · exact executeParents_chain _ _ _
  · exact ⟨rfl, rfl⟩

lemma updateLockQC_chain (r : Replica) :
    ((r.updateLockQC cfg qc view txnid i).inst i).preparedQC = ((r.inst i).updateQCs qc view).preparedQC ∧
      ((r.updateLockQC cfg qc view txnid i).inst i).lockedQC = ((r.inst i).updateQCs qc view).lockedQC := by
  simp only [updateLockQC]
  split_ifs
  · simp only [commit, enqueueExecutes, observe_inst, setInst_inst, Function.update_self]
    exact sendExecuteMsg_chain _ _ _
  · rw [setInst_inst, Function.update_self]
    exact ⟨rfl, rfl⟩

lemma enterView_chain (r : Replica) (id : ℕ) :
    ((r.enterView cfg i view id).inst i).preparedQC = (r.inst i).preparedQC ∧
      ((r.enterView cfg i view id).inst i).lockedQC = (r.inst i).lockedQC ∧
      ((r.enterView cfg i view id).inst i).hashToQC = (r.inst i).hashToQC := by
  simp only [enterView]
  split_ifs <;> simp [postPrimary, setCurrNewViewed, setView]

lemma updateQCs_preparedQC (x : Instance) (hprep : Instance.Prepares qc view)
    (hset : qc.viewNumber > x.preparedQC.viewNumber ∨ x.preparedQC.genesis = true) :
    (x.updateQCs qc view).preparedQC = qc := by
  simp only [Instance.updateQCs, if_pos hprep, Instance.setPreparedQC, if_pos hset, Instance.setLockedQC]
  split_ifs <;> rfl

end Chain

lemma advanceView_preparedQC {id : ℕ} (h : r.advanceView cfg id = some s) {i v : ℕ}
    (hi : (r.table id).instanceId = i) (hv : (r.inst i).view = v) (hvn : (genericQCOf (r.table id) v).viewNumber = v)
    (hset : v > (r.inst i).preparedQC.viewNumber ∨ (r.inst i).preparedQC.genesis = true) :
    (s.inst i).preparedQC = genericQCOf (r.table id) v := by
  subst hi hv
  obtain ⟨_, hrange, rfl⟩ := advanceView_eq h
  rw [(enterView_chain _ _ _ _).1, (updateLockQC_chain _ _ _ _ _).1]
  simp only [installQC, observe_inst, setInst_inst, Function.update_self]
  apply updateQCs_preparedQC
  · rw [Instance.Prepares, hvn, add64_of_lt]
    have := Config.InRange.view_lt cfg hrange
    omega
  · rw [hvn]
    exact hset

section Table

lemma hotstuffNewViewed_genesis (t : TxnManager) (me : ℕ) (m : SyncMsg) :
    (hotstuffNewViewed cfg t me m).1.genericQC.genesis = t.genericQC.genesis := by
  have hseed : (t.seedVotes me).genericQC = t.genericQC := by
    simp only [TxnManager.seedVotes]
    split_ifs <;> rfl
  have hshare : ∀ t : TxnManager, (t.storeShare m.returnNodeId m.hash m.sigShare).genericQC.genesis =
      t.genericQC.genesis := by
    intro t
    simp only [TxnManager.storeShare]
    split
    · split_ifs <;> rfl
    · rfl
  simp only [hotstuffNewViewed]
  split_ifs
  · rfl
  · rw [hseed]
  · exact (hshare _).trans (by rw [hseed])
  · exact (hshare _).trans (by rw [hseed])

lemma castVote_genesis (r : Replica) (id : ℕ) :
    (castVote cfg { r.table id with genericQC := r.ownShare cfg crypto id, syncSent := true }
      r.nodeId).genericQC.genesis = (r.table id).genericQC.genesis := by
  obtain ⟨_, _, _, heq⟩ := @castVote_eq cfg
    { r.table id with genericQC := r.ownShare cfg crypto id, syncSent := true } r.nodeId
  rw [heq]
  simp only [ownShare]
  split_ifs <;> rfl

lemma genesis_update {table : ℕ → TxnManager} {id : ℕ} {t : TxnManager} (h : ∀ k, (table k).genericQC.genesis = false)
    (ht : t.genericQC.genesis = false) (k : ℕ) : (Function.update table id t k).genericQC.genesis = false := by
  by_cases hk : k = id
  · subst hk
    rwa [Function.update_self]
  · rw [Function.update_of_ne hk]
    exact h k

lemma genesis_hashed {table table' : ℕ → TxnManager} {returnId view i : ℕ} {l : List (ℕ × ClientQuery)}
    (hf : fillManagers cfg table returnId view i l = some table') (h : ∀ k, (table k).genericQC.genesis = false)
    (last : ℕ) (hash : Bytes) (k : ℕ) :
    (Function.update table' last { table' last with hash := hash, proposalReceived := true } k).genericQC.genesis =
      false := by
  have hfill : ∀ k, (table' k).genericQC.genesis = false := by
    intro k
    rcases fillManagers_cases hf k with heq | ⟨_, _, _, heq⟩
    · rw [heq]
      exact h k
    · rw [heq]
      exact h k
  apply genesis_update hfill
  exact hfill last

lemma Move.genesis {P : Msg → Prop} (hm : Move cfg crypto P Q B r₀ r s) (h : ∀ k, (r.table k).genericQC.genesis = false)
    (k : ℕ) : (s.table k).genericQC.genesis = false := by
  cases hm with
  | idle hidle => exact hidle.table ▸ h k
  | proposal _ _ hacc => exact genesis_hashed hacc.filled h _ _ k
  | @generic _ m =>
    rw [storeGeneric_lockGeneric_table]
    apply genesis_update h
    simp only [acceptGeneric]
    split_ifs <;> exact h _
  | @vote _ id =>
    rcases sendHotstuffNewview_cases cfg crypto r id with ⟨_, heq⟩ | ⟨_, hc⟩
    · rw [heq]
      exact h k
    · rw [hc.table]
      apply genesis_update h
      rw [castVote_genesis]
      exact h id
  | @count m =>
    rw [countVote_table]
    apply genesis_update h
    rw [hotstuffNewViewed_genesis]
    exact h _
  | advance _ _ _ ha =>
    rw [advanceView_table ha]
    apply genesis_update h
    exact h _
  | batch _ _ hfill => exact genesis_hashed hfill h _ _ k
  | announce =>
    apply genesis_update h
    exact h _
  | execute => exact h k
  | recycle _ ht => exact genesis_update h ht.genericQC k

structure Tabled (cfg : Config) (H : ℕ → ℕ → Bytes) (table : ℕ → TxnManager) : Prop where
  hashes : ∀ w i, i < cfg.totInstances → (table (cfg.lastTxn w i)).hash ≠ [] →
    (table (cfg.lastTxn w i)).hash = H w i
  high : ∀ w i, i < cfg.totInstances → (table (cfg.lastTxn w i)).genericReceived = true →
    (table (cfg.lastTxn w i)).hash ≠ [] ∧ Stage H i w (table (cfg.lastTxn w i)).highQC

lemma Tabled.sameSlot {table table' : ℕ → TxnManager} (h : Tabled cfg H table)
    (hsame : ∀ k, SameSlot (table k) (table' k))
    (hg : ∀ k, (table' k).genericReceived = true → (table k).genericReceived = true) : Tabled cfg H table' where
  hashes w i hi hh := by
    rw [(hsame _).hash] at hh ⊢
    exact h.hashes w i hi hh
  high w i hi hrec := by
    rw [(hsame _).hash, (hsame _).highQC]
    exact h.high w i hi (hg _ hrec)

lemma Tabled.hashed {v i : ℕ} {hash : Bytes} {table table' : ℕ → TxnManager} (h : Tabled cfg H table)
    (hh : Hashes cfg v i hash table table') (hhash : hash = H v i) (hne : hash ≠ []) : Tabled cfg H table' where
  hashes w j hj := by
    by_cases hwj : (w, j) = (v, i)
    · obtain ⟨rfl, rfl⟩ := Prod.mk.inj hwj
      obtain ⟨_, _, _, _, heq⟩ := hh.last
      rw [heq]
      exact fun _ => hhash
    · rw [hh.others w j hj hwj]
      exact h.hashes w j hj
  high w j hj := by
    by_cases hwj : (w, j) = (v, i)
    · obtain ⟨rfl, rfl⟩ := Prod.mk.inj hwj
      obtain ⟨_, _, _, _, heq⟩ := hh.last
      rw [heq]
      exact fun hg => ⟨hne, (h.high w j hj hg).2⟩
    · rw [hh.others w j hj hwj]
      exact h.high w j hj

lemma Tabled.update {table : ℕ → TxnManager} {id : ℕ} {t : TxnManager} (h : Tabled cfg H table)
    (hhash : ∀ w i, i < cfg.totInstances → id = cfg.lastTxn w i → t.hash ≠ [] → t.hash = H w i)
    (hhigh : ∀ w i, i < cfg.totInstances → id = cfg.lastTxn w i → t.genericReceived = true →
      t.hash ≠ [] ∧ Stage H i w t.highQC) : Tabled cfg H (Function.update table id t) where
  hashes w i hi := by
    by_cases hk : cfg.lastTxn w i = id
    · rw [hk, Function.update_self]
      exact hhash w i hi hk.symm
    · rw [Function.update_of_ne hk]
      exact h.hashes w i hi
  high w i hi := by
    by_cases hk : cfg.lastTxn w i = id
    · rw [hk, Function.update_self]
      exact hhigh w i hi hk.symm
    · rw [Function.update_of_ne hk]
      exact h.high w i hi

end Table

structure Sound (cfg : Config) (H : ℕ → ℕ → Bytes) (r : Replica) : Prop where
  stage : ∀ i < cfg.totInstances, Stage H i (r.inst i).view (r.inst i).preparedQC
  tabled : Tabled cfg H r.table
  genesis : ∀ id, (r.table id).genericQC.genesis = false
  bound : ∀ i, (r.inst i).AllCerts fun qc => qc.viewNumber ≤ (r.inst i).view
  real : ∀ i < cfg.totInstances, ∀ w < (r.inst i).view, H w i ≠ []
  out : ∀ e ∈ r.out, e.2.Named cfg ∧ e.2.Content cfg H

def SlotBatch (cfg : Config) (crypto : Crypto) (H : ℕ → ℕ → Bytes) (slot : ℕ) (batch : ClientQueryBatch) : Prop :=
  crypto.calculateHash (batchString batch.cqrySet) = H (slot / cfg.totInstances) (slot % cfg.totInstances)

lemma Sound.of_table (h : Sound cfg H r) (hinst : s.inst = r.inst) (htabled : Tabled cfg H s.table)
    (hgenesis : ∀ id, (s.table id).genericQC.genesis = false)
    (hout : ∃ l, s.out = r.out ++ l ∧ ∀ e ∈ l, e.2.Named cfg ∧ e.2.Content cfg H) : Sound cfg H s where
  stage := hinst ▸ h.stage
  tabled := htabled
  genesis := hgenesis
  bound := hinst ▸ h.bound
  real := hinst ▸ h.real
  out e he := by
    obtain ⟨l, hl, hlo⟩ := hout
    rw [hl] at he
    exact (List.mem_append.mp he).elim (h.out e) (hlo e)

lemma Sound.of_chain (h : Sound cfg H r)
    (hview : ∀ i, (s.inst i).view = (r.inst i).view) (hprep : ∀ i, (s.inst i).preparedQC = (r.inst i).preparedQC)
    (hlock : ∀ i, (s.inst i).lockedQC = (r.inst i).lockedQC) (hstore : ∀ i, (s.inst i).hashToQC = (r.inst i).hashToQC)
    (htabled : Tabled cfg H s.table) (hgenesis : ∀ id, (s.table id).genericQC.genesis = false)
    (hout : ∃ l, s.out = r.out ++ l ∧ ∀ e ∈ l, e.2.Named cfg ∧ e.2.Content cfg H) : Sound cfg H s where
  stage i hi := by
    rw [hview, hprep]
    exact h.stage i hi
  tabled := htabled
  genesis := hgenesis
  bound i := by
    rw [hview]
    exact (h.bound i).congr (hprep i) (hlock i) (hstore i)
  real i hi := by
    rw [hview]
    exact h.real i hi
  out e he := by
    obtain ⟨l, hl, hlo⟩ := hout
    rw [hl] at he
    exact (List.mem_append.mp he).elim (h.out e) (hlo e)

section Step

lemma AcceptsGeneric.current (hp : Paced cfg r) {m : GenericMsg} (hm : Msg.Peer cfg p (.generic m))
    (hindex : r.exec.nextIndex < m.txnId) (hview : m.view ≤ (r.inst m.instanceId).view)
    (hacc : AcceptsGeneric cfg crypto r m) : (r.inst m.instanceId).view = m.view := by
  refine le_antisymm ?_ hview
  have htxn := hm.named.txnId
  have hfresh := hacc.fresh
  rw [htxn] at hfresh hindex
  refine hp.not_passed hm.wellFormed (fun hr => ?_) (Or.inr hindex.le)
  rw [hr.2.2] at hfresh
  cases hfresh

lemma Sound.lockGeneric_eq (h : Sound cfg H r) {m : GenericMsg} (hm : Msg.Honest cfg H p (.generic m))
    (hcur : (r.inst m.instanceId).view = m.view) : (r.storeGeneric m).lockGeneric cfg m = r.storeGeneric m := by
  have hprep : ((r.storeGeneric m).inst m.instanceId).preparedQC = (r.inst m.instanceId).preparedQC := by
    simp [storeGeneric, Instance.storeQC]
  have hstage := (h.stage m.instanceId hm.peer.wellFormed).viewNumber
  have hhigh := hm.content.2.2.viewNumber
  rw [lockGeneric, if_neg]
  rw [hprep, hstage, hhigh, hcur]
  exact lt_irrefl _

lemma Sound.generic (h : Sound cfg H r) (hp : Paced cfg r) {m : GenericMsg} (hm : Msg.Honest cfg H p (.generic m))
    (hindex : r.exec.nextIndex < m.txnId) (hview : m.view ≤ (r.inst m.instanceId).view)
    (hacc : AcceptsGeneric cfg crypto r m) (hgenesis : ∀ k, (((r.storeGeneric m).lockGeneric cfg m).table
      k).genericQC.genesis = false) : Sound cfg H ((r.storeGeneric m).lockGeneric cfg m) := by
  have hcur := hacc.current hp hm.peer hindex hview
  rw [h.lockGeneric_eq hm hcur] at hgenesis ⊢
  have hhigh := hm.content.2.2
  have htxn := hm.peer.named.txnId
  have hwf : m.instanceId < cfg.totInstances := hm.peer.wellFormed
  have hsame : SameViews r (r.storeGeneric m) := by
    have := SameViews.setInst r (i := m.instanceId) (x := (r.inst m.instanceId).storeQC m.highQC) rfl
    exact ⟨this.1, this.2, this.3⟩
  constructor
  · intro i hi
    rw [hsame.view]
    by_cases him : i = m.instanceId
    · subst him
      simp only [storeGeneric, observe_inst, setInst_inst, Function.update_self]
      exact h.stage _ hi
    · simp only [storeGeneric, observe_inst, setInst_inst, Function.update_of_ne him]
      exact h.stage i hi
  · refine h.tabled.update (fun w i hi hid hne => ?_) (fun w i hi hid _ => ?_)
    · obtain ⟨rfl, rfl⟩ := cfg.lastTxn_inj hi hwf (hid.symm.trans htxn)
      simp only [acceptGeneric] at hne ⊢
      split_ifs with hempty
      · exact hm.content.1
      · have hold := h.tabled.hashes m.view m.instanceId hi
        rw [← htxn] at hold
        exact hold hempty
    · obtain ⟨rfl, rfl⟩ := cfg.lastTxn_inj hi hwf (hid.symm.trans htxn)
      simp only [acceptGeneric]
      split_ifs with hempty
      · exact ⟨hm.content.2.1, hhigh⟩
      · exact ⟨hempty, hhigh⟩
  · exact hgenesis
  · intro i
    rw [hsame.view]
    refine allCerts_update (p := fun j qc => qc.viewNumber ≤ (r.inst j).view) h.bound
      ((h.bound m.instanceId).storeQC ?_) i
    rw [hhigh.viewNumber]
    omega
  · intro i hi
    rw [hsame.view]
    exact h.real i hi
  · exact h.out

structure Advances (cfg : Config) (H : ℕ → ℕ → Bytes) (r : Replica) (id v i : ℕ) : Prop where
  inst_lt : i < cfg.totInstances
  inst : (r.table id).instanceId = i
  view : (r.inst i).view = v
  id_eq : id = cfg.lastTxn v i
  range : cfg.InRange v
  hash : (r.table id).hash = H v i
  real : H v i ≠ []
  cert : CertOf H i v (genericQCOf (r.table id) v)
  ready : (r.table id).Ready

lemma Sound.advances (h : Sound cfg H r) (hp₀ : Paced cfg r₀) (hp : Paced cfg r) (hsame : SameViews r₀ r) {id : ℕ}
    (hfresh : Unready (Msg.Peer cfg p) r₀ id) (hready : (r.table id).Ready) (ha : r.advanceView cfg id = some s) :
    ∃ v i, Advances cfg H r id v i := by
  obtain ⟨hhash, hrange, _⟩ := advanceView_eq ha
  obtain ⟨i, hi, hinst, hid⟩ := hp₀.advance_slot hp hsame hfresh hready hhash
  have hhigh := h.tabled.high _ i hi (hid ▸ hready.2.2)
  have heq : (r.table id).hash = H (r.inst i).view i := by
    rw [hid] at hhash ⊢
    exact h.tabled.hashes _ i hi hhash
  rw [← hid] at hhigh
  rw [hinst] at hrange
  exact ⟨_, i, hi, hinst, rfl, hid, hrange, heq, heq ▸ hhash, genericQCOf_certOf heq hhigh.2 (h.genesis _), hready⟩

lemma Sound.advance (h : Sound cfg H r) {id v i : ℕ} (hadv : Advances cfg H r id v i)
    (ha : r.advanceView cfg id = some s) (hgenesis : ∀ k, (s.table k).genericQC.genesis = false) : Sound cfg H s := by
  obtain ⟨_, _, heq⟩ := advanceView_eq ha
  have hview := advanceView_view ha
  obtain ⟨hi, hinst, hv, hid, hrange, hhash, hreal, hcert, _⟩ := hadv
  have hset : v > (r.inst i).preparedQC.viewNumber ∨ (r.inst i).preparedQC.genesis = true := by
    have hstage := h.stage i hi
    rw [hv] at hstage
    cases hstage with
    | genesis hg => exact Or.inr hg
    | cert hc =>
      left
      rw [hc.viewNumber]
      exact Nat.lt_succ_self _
  have hprep := advanceView_preparedQC ha hinst hv hcert.viewNumber hset
  constructor
  · intro j hj
    rw [hview, hinst]
    split_ifs with hji
    · subst hji
      rw [hprep, hv]
      exact .cert hcert
    · rw [heq, hinst, enterView_inst_of_ne cfg _ _ _ _ hji, updateLockQC_inst_of_ne cfg _ _ _ _ _ hji]
      simp only [installQC, observe_inst, setInst_inst, hinst, Function.update_of_ne hji]
      exact h.stage j hj
  · exact h.tabled.sameSlot (sameSlot_advance ha) fun k hk => by
      rwa [advanceView_table ha, update_genericReceived (by rfl)] at hk
  · exact hgenesis
  · intro j
    have hold : ∀ j, (r.inst j).AllCerts fun qc => qc.viewNumber ≤ (s.inst j).view := by
      intro j
      refine (h.bound j).imp fun qc hqc => hqc.trans ?_
      rw [hview]
      split_ifs <;> omega
    have hqc : (genericQCOf (r.table id) v).viewNumber ≤ (s.inst i).view := by
      rw [hcert.viewNumber, hview, hinst, if_pos rfl]
      omega
    have hinstall : ∀ j, ((r.installQC id).inst j).AllCerts fun qc => qc.viewNumber ≤ (s.inst j).view := by
      simp only [installQC, observe_inst, setInst_inst, hinst, hv]
      exact allCerts_update (p := fun j qc => qc.viewNumber ≤ (s.inst j).view) hold ((hold i).storeQC hqc)
    have hall := allCerts_enterView cfg (p := fun j qc => qc.viewNumber ≤ (s.inst j).view)
      (allCerts_updateLockQC cfg (fun _ => Nat.zero_le _) (fun _ _ _ hqc => hqc) hinstall hqc (v + 1) id)
      i (v + 1) id j
    have heq' : s = ((r.installQC id).updateLockQC cfg (genericQCOf (r.table id) v) (v + 1) id i).enterView cfg i
        (v + 1) id := by
      rw [heq, hinst, hv]
    rw [heq'] at hall ⊢
    exact hall
  · intro j hj w hw
    rw [hview, hinst] at hw
    split_ifs at hw with hji
    · subst hji
      by_cases hlt : w < (r.inst j).view
      · exact h.real j hj w hlt
      · obtain rfl : w = v := by omega
        exact hreal
    · exact h.real j hj w hw
  · rw [advanceView_out ha]
    exact h.out

lemma Paced.vote_slot (hp₀ : Paced cfg r₀) (hp : Paced cfg r) (hsame : SameViews r₀ r) {id : ℕ}
    (hindex : r₀.exec.nextIndex < id) (hfresh : (r₀.table id).genericReceived = false ∨ Current cfg r₀ id)
    (hg : (r.table id).genericReceived = true) :
    ∃ i, i < cfg.totInstances ∧ id = cfg.lastTxn (r.inst i).view i := by
  rcases hfresh with hfresh | ⟨i, hi, heq, _⟩
  · obtain ⟨w, i, hi, rfl, hw⟩ := hp.taken id hg
    have hge : (r₀.inst i).view ≤ w := by
      refine hp₀.not_passed hi (fun hr => ?_) (Or.inr hindex.le)
      rw [hr.2.2] at hfresh
      cases hfresh
    have hview := hsame.view i
    refine ⟨i, hi, ?_⟩
    congr 1
    omega
  · exact ⟨i, hi, by rw [hsame.view i, heq]⟩

lemma Sound.vote (h : Sound cfg H r) (hp₀ : Paced cfg r₀) (hp : Paced cfg r) (hsame : SameViews r₀ r) {id : ℕ}
    (hindex : r₀.exec.nextIndex < id) (hfresh : (r₀.table id).genericReceived = false ∨ Current cfg r₀ id)
    (hg : (r.table id).genericReceived = true)
    (hgenesis : ∀ k, ((r.sendHotstuffNewview cfg crypto id).table k).genericQC.genesis = false) :
    Sound cfg H (r.sendHotstuffNewview cfg crypto id) := by
  have hslot : ∀ k, SameSlot (r.table k) ((r.sendHotstuffNewview cfg crypto id).table k) := sameSlot_vote r id
  have htabled := h.tabled.sameSlot hslot fun k hk => by rwa [sendHotstuffNewview_genericReceived] at hk
  rcases sendHotstuffNewview_cases cfg crypto r id with ⟨_, heq⟩ | ⟨_, hc⟩
  · rwa [heq]
  · obtain ⟨i, hi, hid⟩ := hp₀.vote_slot hp hsame hindex hfresh hg
    obtain ⟨l, hl, hlo⟩ := hc.out
    refine h.of_table hc.inst htabled hgenesis ⟨l, hl, fun e he => ?_⟩
    obtain ⟨_, share, hsync⟩ := hlo e he
    rw [hsync]
    refine ⟨trivial, ?_⟩
    rw [hid] at hg
    have hhash := (h.tabled.high _ i hi hg).1
    have hinst := hp.insts _ i hi hhash
    simp only [Msg.Content, syncOf]
    rw [hid, hinst]
    exact ⟨rfl, h.tabled.hashes _ i hi hhash, hhash⟩

lemma Sound.batch (h : Sound cfg H r) (halloc : Alloc cfg r) (hfed : Fed cfg r) {slot : ℕ} {batch : ClientQueryBatch}
    {table : ℕ → TxnManager} (hbatch : SlotBatch cfg crypto H slot batch)
    (hpc : r.threads.proposal = .stamped slot batch)
    (hfill : fillManagers cfg r.table batch.returnNode (r.proposalOf cfg crypto slot batch).view
      (r.proposalOf cfg crypto slot batch).instanceId
      ((r.proposalOf cfg crypto slot batch).index.zip batch.cqrySet) = some table)
    (hgenesis : ∀ k, ((r.storeBatch cfg crypto slot batch table).table k).genericQC.genesis = false) :
    Sound cfg H (r.storeBatch cfg crypto slot batch table) := by
  have hlen := hfed.inHand _ (by rw [hpc]; exact List.mem_singleton_self _)
  have hhashes := storeBatch_hashes halloc hpc hlen hfill
  obtain ⟨hi, hindex, hlast⟩ := proposalOf_last crypto halloc hpc
  obtain ⟨_, hslot, hprim, _⟩ := alloc_stamped cfg crypto halloc hpc
  obtain ⟨m, hm⟩ : ∃ m, r.proposalOf cfg crypto slot batch = m := ⟨_, rfl⟩
  have hhash : m.hash = H m.view m.instanceId := by
    rw [hm] at hslot hi
    have hdigest : m.hash = crypto.calculateHash (batchString batch.cqrySet) := by rw [← hm]; rfl
    rw [hdigest, hbatch, hslot, cfg.slot_div m.view hi, cfg.slot_mod m.view hi]
  have hne : m.hash ≠ [] := by
    rw [← hm]
    exact crypto.hash_ne_nil _
  have hinst : ∀ j, (r.storeBatch cfg crypto slot batch table).inst j = r.inst j ∨ ∃ map,
      (r.storeBatch cfg crypto slot batch table).inst j = { r.inst j with hashToTxnid := map } := by
    intro j
    by_cases hj : j = (r.proposalOf cfg crypto slot batch).instanceId
    · subst hj
      exact Or.inr ⟨_, by simp only [storeBatch, observe_inst, send_inst, setInst_inst, Function.update_self]; rfl⟩
    · exact Or.inl (by simp only [storeBatch, observe_inst, send_inst, setInst_inst, Function.update_of_ne hj])
  refine h.of_chain ?_ ?_ ?_ ?_ (h.tabled.hashed hhashes (hm ▸ hhash) (hm ▸ hne)) hgenesis
    ⟨_, rfl, fun e he => ?_⟩
  iterate 4
    intro j
    rcases hinst j with heq | ⟨map, heq⟩ <;> rw [heq]
  · obtain ⟨d, _, rfl⟩ := List.mem_map.mp he
    rw [hm] at hlast hindex hprim ⊢
    refine ⟨⟨?_, hindex, ?_⟩, hhash⟩
    · have hb := cfg.five_le_batch
      have htxn : m.txnId = sub64 (slot * cfg.batchSize + cfg.batchSize - 1) 2 := by rw [← hm]; rfl
      rw [htxn, ← hlast, sub64_of_le (by omega)]
      omega
    · rw [hprim, ← hm]
      rfl

lemma Sound.announce (h : Sound cfg H r) (hp : Paced cfg r) {id : ℕ} (hid : Current cfg r id)
    (hh : (r.table id).hash ≠ [])
    (hgenesis : ∀ k, ((r.announceGeneric cfg crypto id).table k).genericQC.genesis = false) :
    Sound cfg H (r.announceGeneric cfg crypto id) := by
  obtain ⟨i, hi, rfl, hown⟩ := hid
  have hinst := hp.insts _ i hi hh
  have hhash := h.tabled.hashes _ i hi hh
  refine h.of_table rfl ?_ hgenesis ⟨_, rfl, fun e he => ?_⟩
  · refine h.tabled.update (fun w j hj hid _ => ?_) (fun w j hj hid _ => ?_)
    · obtain ⟨rfl, rfl⟩ := cfg.lastTxn_inj hi hj hid
      exact hhash
    · obtain ⟨rfl, rfl⟩ := cfg.lastTxn_inj hi hj hid
      rw [hinst]
      exact ⟨hh, h.stage i hi⟩
  · obtain ⟨d, _, rfl⟩ := List.mem_map.mp he
    simp only [Msg.Named, Msg.Content, genericOf, hinst]
    exact ⟨⟨rfl, hown.symm⟩, hhash, hh, h.stage i hi⟩

lemma Sound.move (hp₀ : Paced cfg r₀) (halloc : Alloc cfg r₀) (hfed : Fed cfg r₀) (hp : Paced cfg r)
    (h : Sound cfg H r)
    (hm : Move cfg crypto (Msg.Honest cfg H p) (Current cfg r₀) (SlotBatch cfg crypto H) r₀ r s) :
    Sound cfg H s := by
  have hgenesis := hm.genesis h.genesis
  cases hm with
  | idle hidle =>
    refine h.of_chain ?_ ?_ ?_ ?_ (hidle.table ▸ h.tabled) hgenesis ⟨[], by simp [hidle.out]⟩
    iterate 4
      intro i
      obtain ⟨_, _, heq⟩ := hidle.chain i
      rw [heq]
  | @proposal m table hm _ hacc =>
    have hne : m.hash ≠ [] := hacc.digest ▸ crypto.hash_ne_nil _
    have hhashes := storeProposal_hashes hm.peer.named hm.peer.wellFormed hacc
    have hinst : ∀ i, ∃ map, (r₀.storeProposal m table).inst i = { r₀.inst i with hashToTxnid := map } := by
      intro i
      by_cases hi : i = m.instanceId
      · subst hi
        exact ⟨_, by simp only [storeProposal, rememberTxnid, setInst_inst, Function.update_self]; rfl⟩
      · exact ⟨_, by simp only [storeProposal, rememberTxnid, setInst_inst, Function.update_of_ne hi]; rfl⟩
    refine h.of_chain ?_ ?_ ?_ ?_ (h.tabled.hashed hhashes hm.content hne) hgenesis
      ⟨[], by simp [storeProposal, rememberTxnid]⟩
    iterate 4
      intro i
      obtain ⟨_, heq⟩ := hinst i
      rw [heq]
  | generic hm hindex hview hacc => exact h.generic hp hm hindex hview hacc hgenesis
  | vote hsame hindex hfresh hg => exact h.vote hp₀ hp hsame hindex hfresh hg hgenesis
  | @count m =>
    have hinst : ∀ i, ∃ map, (r₀.countVote cfg m).inst i = { r₀.inst i with hashToTxnid := map } := by
      intro i
      simp only [countVote, bindTxnid]
      split_ifs
      · by_cases hi : i = m.instanceId
        · subst hi
          exact ⟨_, by simp only [setTxn_inst, setInst_inst, Function.update_self]; rfl⟩
        · exact ⟨_, by simp only [setTxn_inst, setInst_inst, Function.update_of_ne hi]; rfl⟩
      · exact ⟨_, rfl⟩
    have hslot : ∀ k, SameSlot (r₀.table k) ((r₀.countVote cfg m).table k) := sameSlot_count r₀ m
    refine h.of_chain ?_ ?_ ?_ ?_ (h.tabled.sameSlot hslot fun k hk => ?_) hgenesis
      ⟨[], by simp only [countVote, bindTxnid]; split_ifs <;> simp⟩
    iterate 4
      intro i
      obtain ⟨_, heq⟩ := hinst i
      rw [heq]
    rw [countVote_table] at hk
    obtain ⟨_, _, _, _, _, heq⟩ := @hotstuffNewViewed_eq cfg (r₀.table m.txnId) r₀.nodeId m
    rwa [heq, update_genericReceived (by rfl)] at hk
  | advance hsame hfresh hready ha =>
    obtain ⟨v, i, hadv⟩ := h.advances hp₀ hp hsame (hfresh.imp fun m hm => hm.peer) hready ha
    exact h.advance hadv ha hgenesis
  | batch hbatch hpc hfill => exact h.batch halloc hfed hbatch hpc hfill hgenesis
  | @announce _ id hsame hid _ hh =>
    obtain ⟨i, hi, heq, hown⟩ := hid
    refine h.announce hp ⟨i, hi, ?_, ?_⟩ hh hgenesis
    · rw [hsame.view, heq]
    · rw [hsame.view, hsame.nodeId, hown]
  | execute => exact h.of_table rfl h.tabled hgenesis ⟨[], by simp⟩
  | @recycle id t _ ht =>
    refine h.of_table rfl (h.tabled.update (fun _ _ _ _ hne => absurd ht.hash hne) (fun _ _ _ _ hg => ?_)) hgenesis
      ⟨[], by simp⟩
    rw [ht.genericReceived] at hg
    cases hg

end Step

end Replica

end SpotLess
