import SpotLess.Moves

/-! Where the certificates of a replica come from: each is a genesis certificate, one of its own, or one it took
from a GENERIC message that the primary of its view had signed and that its safety rule let through. The shares a
received certificate carries are not looked at. -/

namespace SpotLess

open Lib

structure Instance.AllCerts (p : QuorumCertificate → Prop) (x : Instance) : Prop where
  prepared : p x.preparedQC
  locked : p x.lockedQC
  stored : UMap.All p x.hashToQC

namespace Instance.AllCerts

variable {p : QuorumCertificate → Prop} {x y : Instance}

lemma congr (h : x.AllCerts p) (hprepared : y.preparedQC = x.preparedQC) (hlocked : y.lockedQC = x.lockedQC)
    (hstored : y.hashToQC = x.hashToQC) : y.AllCerts p :=
  ⟨hprepared ▸ h.1, hlocked ▸ h.2, hstored ▸ h.3⟩

lemma imp {q : QuorumCertificate → Prop} (h : x.AllCerts p) (hpq : ∀ qc, p qc → q qc) : x.AllCerts q :=
  ⟨hpq _ h.1, hpq _ h.2, h.3.imp hpq⟩

lemma storeQC (h : x.AllCerts p) {qc : QuorumCertificate} (hqc : p qc) : (x.storeQC qc).AllCerts p :=
  ⟨h.1, h.2, h.3.insert _ hqc⟩

lemma setPreparedQC (h : x.AllCerts p) {qc : QuorumCertificate} (hqc : p qc) : (x.setPreparedQC qc).AllCerts p := by
  simp only [Instance.setPreparedQC]
  split_ifs
  · exact ⟨hqc, h.2, h.3⟩
  · exact h

lemma setLockedQC (h : x.AllCerts p) {qc : QuorumCertificate} (hqc : p qc) : (x.setLockedQC qc).AllCerts p := by
  simp only [Instance.setLockedQC]
  split_ifs
  · exact ⟨h.1, hqc, h.3⟩
  · exact h

lemma executeParents (fuel : ℕ) (h : x.AllCerts p) (qc : QuorumCertificate) :
    (Instance.executeParents fuel x qc).1.AllCerts p := by
  induction fuel generalizing x qc with
  | zero => exact h
  | succ fuel ih =>
    have hy : ({ x with hashToQC := x.hashToQC.erase qc.batchHash, hashToTxnid := x.hashToTxnid.erase qc.batchHash } :
        Instance).AllCerts p := ⟨h.1, h.2, h.3.erase _⟩
    simp only [Instance.executeParents]
    split_ifs
    · exact ih hy _
    · exact hy

section Default

variable (hd : p default)

include hd

lemma updateQCs (h : x.AllCerts p) {qc : QuorumCertificate} (hqc : p qc) (view : ℕ) :
    (x.updateQCs qc view).AllCerts p := by
  have htouch : ({ x with hashToQC := UMap.touch (UMap.touch x.hashToQC qc.parentHash) (x.parentOf qc).parentHash } :
      Instance).AllCerts p := ⟨h.1, h.2, (h.3.touch hd _).touch hd _⟩
  have hparent : p (x.parentOf qc) := h.3.get hd _
  simp only [Instance.updateQCs]
  split_ifs
  · exact (htouch.setPreparedQC hqc).setLockedQC hparent
  · exact htouch.setLockedQC hparent
  · exact htouch.setPreparedQC hqc
  · exact htouch

lemma sendExecuteMsg (h : x.AllCerts p) (t : TxnManager) (id : ℕ) : (x.sendExecuteMsg t id).1.AllCerts p := by
  have htouch : ({ x with hashToQC := UMap.touch x.hashToQC t.hash } : Instance).AllCerts p :=
    ⟨h.1, h.2, h.3.touch hd _⟩
  have hwalk : (x.walkParents t.hash).1.AllCerts p := by
    simp only [Instance.walkParents]
    split_ifs
    · exact htouch.executeParents _ _
    · exact htouch
  exact ⟨hwalk.1, hwalk.2, hwalk.3.erase _⟩

lemma markCommit (hty : ∀ qc ty, p qc → p { qc with type := ty }) (h : x.AllCerts p) (hash : Bytes) :
    (x.markCommit hash).AllCerts p :=
  ⟨h.1, h.2, h.3.insert _ (hty _ _ (h.3.get hd _))⟩

end Default

end Instance.AllCerts

namespace Replica

variable {cfg : Config} {crypto : Crypto} {P : Msg → Prop} {Q : ℕ → Prop} {B : ℕ → ClientQueryBatch → Prop}
  {r₀ r s : Replica}

section Certs

variable {p : ℕ → QuorumCertificate → Prop}

lemma allCerts_update (h : ∀ j, (r.inst j).AllCerts (p j)) {i : ℕ} {x : Instance} (hx : x.AllCerts (p i)) (j : ℕ) :
    (Function.update r.inst i x j).AllCerts (p j) := by
  by_cases hj : j = i
  · subst hj
    rwa [Function.update_self]
  · rw [Function.update_of_ne hj]
    exact h j

lemma allCerts_updateLockQC (cfg : Config) (hd : ∀ i, p i default) (hty : ∀ i qc ty, p i qc → p i { qc with type := ty })
    (h : ∀ j, (r.inst j).AllCerts (p j)) {i : ℕ} {qc : QuorumCertificate} (hqc : p i qc) (view txnid j : ℕ) :
    ((r.updateLockQC cfg qc view txnid i).inst j).AllCerts (p j) := by
  have hupdate := (h i).updateQCs (hd i) hqc view
  simp only [updateLockQC]
  split_ifs
  · simp only [commit, enqueueExecutes, observe_inst, setInst_inst, Function.update_self, Function.update_idem]
    exact allCerts_update h ((hupdate.markCommit (hd i) (hty i) _).sendExecuteMsg (hd i) _ _) j
  · exact allCerts_update h hupdate j

lemma allCerts_enterView (cfg : Config) (h : ∀ j, (r.inst j).AllCerts (p j)) (i view id j : ℕ) :
    ((r.enterView cfg i view id).inst j).AllCerts (p j) := by
  by_cases hj : j = i
  · subst hj
    simp only [enterView]
    split_ifs <;> exact (h j).congr (by simp [postPrimary, setCurrNewViewed, setView])
      (by simp [postPrimary, setCurrNewViewed, setView]) (by simp [postPrimary, setCurrNewViewed, setView])
  · rw [enterView_inst_of_ne cfg r view i id hj]
    exact h j

end Certs

inductive Origin (r : Replica) (i : ℕ) : QuorumCertificate → Prop
  | genesis (ty : QCType) : Origin r i (genesisQC ty)
  | missing (ty : QCType) : Origin r i { type := ty }
  | built (ty : QCType) {v id : ℕ} {qc : QuorumCertificate} {voters : List ℕ}
      (h : .advanced i v id qc voters ∈ r.trace) : Origin r i { qc with type := ty }
  | adopted (ty : QCType) {m : GenericMsg} {x : Instance} (h : .adopted m x ∈ r.trace) (hi : m.instanceId = i) :
      Origin r i { m.highQC with type := ty }

lemma Origin.retype {i : ℕ} {qc : QuorumCertificate} (h : Origin r i qc) (ty : QCType) :
    Origin r i { qc with type := ty } := by
  cases h with
  | genesis => exact .genesis ty
  | missing => exact .missing ty
  | @built _ v id qc voters h => exact (Origin.built ty h : Origin r i { qc with type := ty })
  | @adopted _ m x h hi => exact (Origin.adopted ty h hi : Origin r i { m.highQC with type := ty })

lemma Origin.mono {i : ℕ} {qc : QuorumCertificate} (h : Origin r i qc) (ht : ∀ o ∈ r.trace, o ∈ s.trace) :
    Origin s i qc := by
  cases h with
  | genesis ty => exact .genesis ty
  | missing ty => exact .missing ty
  | built ty h => exact .built ty (ht _ h)
  | adopted ty h hi => exact .adopted ty (ht _ h) hi

-- What a replica has established about a GENERIC message when it takes the certificate from it.
structure Vouched (cfg : Config) (crypto : Crypto) (m : GenericMsg) (x : Instance) : Prop where
  leader : cfg.getViewPrimary x.view m.instanceId = m.returnNodeId
  signed : m.validate crypto = true
  safe : x.SafeNode m.highQC

structure Sourced (cfg : Config) (crypto : Crypto) (r : Replica) : Prop where
  certs : ∀ i, (r.inst i).AllCerts (Origin r i)
  vouched : ∀ m x, .adopted m x ∈ r.trace → Vouched cfg crypto m x

lemma Sourced.frame (h : Sourced cfg crypto r) (hcerts : ∀ i, (s.inst i).AllCerts (Origin r i))
    {l : List Obs} (htrace : s.trace = r.trace ++ l) (hl : ∀ m x, .adopted m x ∉ l) : Sourced cfg crypto s where
  certs i := by
    refine (hcerts i).imp (fun qc hqc => hqc.mono ?_)
    intro o ho
    rw [htrace]
    exact List.mem_append_left l ho
  vouched m x hm := by
    rw [htrace] at hm
    exact h.vouched m x ((List.mem_append.mp hm).resolve_right (hl m x))

lemma Sourced.updateLockQC (h : Sourced cfg crypto r) {i : ℕ} {qc : QuorumCertificate} (hqc : Origin r i qc)
    (view txnid : ℕ) : Sourced cfg crypto (r.updateLockQC cfg qc view txnid i) := by
  obtain ⟨l, hl, hlo⟩ := r.updateLockQC_trace cfg qc view txnid i
  refine h.frame (fun j => ?_) hl (fun m x hm => hlo _ hm)
  exact allCerts_updateLockQC cfg (fun _ => .missing _) (fun _ _ ty hqc => hqc.retype ty) h.certs hqc view txnid j

lemma Sourced.generic (h : Sourced cfg crypto r) {m : GenericMsg} (hacc : AcceptsGeneric cfg crypto r m) :
    Sourced cfg crypto ((r.storeGeneric m).lockGeneric cfg m) := by
  have hmem : .adopted m (r.inst m.instanceId) ∈ (r.storeGeneric m).trace :=
    List.mem_append_right _ (List.mem_singleton_self _)
  have hqc : Origin (r.storeGeneric m) m.instanceId m.highQC := .adopted m.highQC.type hmem rfl
  have hstore : Sourced cfg crypto (r.storeGeneric m) := by
    constructor
    · have hold : ∀ j, (r.inst j).AllCerts (Origin (r.storeGeneric m) j) := fun j =>
        (h.certs j).imp fun qc hqc => hqc.mono fun o ho => List.mem_append_left _ ho
      exact allCerts_update hold ((hold m.instanceId).storeQC hqc)
    · intro m' x hm'
      rcases List.mem_append.mp hm' with hm' | hm'
      · exact h.vouched m' x hm'
      · obtain ⟨rfl, rfl⟩ := Obs.adopted.inj (List.mem_singleton.mp hm')
        exact ⟨hacc.leader, hacc.signed, hacc.safe⟩
  simp only [lockGeneric]
  split_ifs
  · exact hstore.updateLockQC hqc _ _
  · exact hstore

lemma Sourced.advance (h : Sourced cfg crypto r) {id : ℕ} (ha : r.advanceView cfg id = some s) :
    Sourced cfg crypto s := by
  obtain ⟨_, _, rfl⟩ := advanceView_eq ha
  have hmem : .advanced (r.table id).instanceId (r.inst (r.table id).instanceId).view id
      (genericQCOf (r.table id) (r.inst (r.table id).instanceId).view) ((r.table id).votersOf (r.table id).hash) ∈
      (r.installQC id).trace := List.mem_append_right _ (List.mem_singleton_self _)
  have hqc : Origin (r.installQC id) (r.table id).instanceId
      (genericQCOf (r.table id) (r.inst (r.table id).instanceId).view) := .built _ hmem
  have hinstall : Sourced cfg crypto (r.installQC id) := by
    constructor
    · have hold : ∀ j, (r.inst j).AllCerts (Origin (r.installQC id) j) := fun j =>
        (h.certs j).imp fun qc hqc => hqc.mono fun o ho => List.mem_append_left _ ho
      exact allCerts_update hold ((hold _).storeQC hqc)
    · intro m x hm
      rcases List.mem_append.mp hm with hm | hm
      · exact h.vouched m x hm
      · cases List.mem_singleton.mp hm
  have hlock := hinstall.updateLockQC hqc ((r.inst (r.table id).instanceId).view + 1) id
  refine hlock.frame (allCerts_enterView cfg hlock.certs _ _ _) (l := []) ?_ (by simp)
  rw [enterView_trace, List.append_nil]

lemma Sourced.of_inst (h : Sourced cfg crypto r) (hinst : s.inst = r.inst) {l : List Obs}
    (htrace : s.trace = r.trace ++ l) (hl : ∀ m x, .adopted m x ∉ l) : Sourced cfg crypto s := by
  refine h.frame (fun i => ?_) htrace hl
  rw [hinst]
  exact h.certs i

lemma Sourced.of_txnid (h : Sourced cfg crypto r) {i : ℕ} {map : UMap Bytes ℕ}
    (hinst : s.inst = Function.update r.inst i { r.inst i with hashToTxnid := map }) {l : List Obs}
    (htrace : s.trace = r.trace ++ l) (hl : ∀ m x, .adopted m x ∉ l) : Sourced cfg crypto s := by
  refine h.frame (fun j => ?_) htrace hl
  have hx : ({ r.inst i with hashToTxnid := map } : Instance).AllCerts (Origin r i) := (h.certs i).congr rfl rfl rfl
  rw [hinst]
  exact allCerts_update h.certs hx j

lemma Sourced.move (h : Sourced cfg crypto r) (hm : Move cfg crypto P Q B r₀ r s) : Sourced cfg crypto s := by
  cases hm with
  | idle hidle =>
    have hcerts : ∀ i, (s.inst i).AllCerts (Origin r i) := by
      intro i
      obtain ⟨_, _, heq⟩ := hidle.chain i
      rw [heq]
      exact (h.certs i).congr rfl rfl rfl
    rcases hidle.trace with ht | ⟨batch, ht⟩
    · exact h.frame hcerts (l := []) (by simp [ht]) (by simp)
    · exact h.frame hcerts ht (by simp)
  | proposal =>
    refine h.of_txnid rfl (l := []) ?_ (by simp)
    rw [List.append_nil]
    rfl
  | generic _ _ _ hacc => exact h.generic hacc
  | vote =>
    rename_i id _ _ _ _
    rcases sendHotstuffNewview_cases cfg crypto r id with ⟨_, heq⟩ | ⟨_, hc⟩
    · rwa [heq]
    · exact h.of_inst hc.inst hc.trace (by simp)
  | count =>
    simp only [countVote]
    split_ifs
    · exact h.of_txnid rfl (List.append_nil _).symm (by simp)
    · exact h.of_inst rfl (List.append_nil _).symm (by simp)
  | advance _ _ _ ha => exact h.advance ha
  | batch => exact h.of_txnid rfl rfl (by simp)
  | announce => exact h.of_inst rfl rfl (by simp)
  | execute => exact h.of_inst rfl (List.append_nil _).symm (by simp)
  | recycle => exact h.of_inst rfl (List.append_nil _).symm (by simp)

lemma sourced_reach {p : ℕ} (h : Reach (step cfg crypto) (Genuine cfg) (init cfg p) r) : Sourced cfg crypto r := by
  apply Reach.moves_invariant (P := fun _ => True) (I := Sourced cfg crypto) ?_ (fun _ => rfl) ?_
    (fun _ _ _ hm hr => hr.move hm) h
  · intro r e he
    cases e with
    | proposalThread => exact fun _ _ _ => trivial
    | _ => trivial
  · constructor
    · intro i
      refine ⟨.genesis _, .genesis _, ?_⟩
      exact UMap.All.insert (fun k v hk => by cases hk) _ (.genesis _)
    · intro m x hm
      cases hm

lemma handleGeneric_rejected {m : GenericMsg} (hs : r.handleGeneric cfg crypto m = some s)
    (hm : ¬ AcceptsGeneric cfg crypto r m) (i : ℕ) : (r.inst i).SameChain (s.inst i) := by
  simp only [handleGeneric] at hs
  split_ifs at hs
  · obtain rfl := Option.some.inj hs
    by_cases hi : i = m.instanceId
    · subst hi
      rw [setInst_inst, Function.update_self]
      exact ⟨_, _, rfl⟩
    · rw [setInst_inst, Function.update_of_ne hi]
      exact .refl _
  · obtain rfl := Option.some.inj hs
    exact .refl _
  · rcases processHotstuffGeneric_cases hs with rfl | ⟨hacc, _⟩
    · exact .refl _
    · exact absurd hacc hm

theorem adopted_certificates_vouched (cfg : Config) (crypto : Crypto) {byz : Finset ℕ} {S : System}
    (h : System.Reachable cfg crypto byz S) {p : ℕ} (hp : p < cfg.nodeCnt) :
    (∀ i, ((S p).inst i).AllCerts (Origin (S p) i)) ∧
    (∀ m x, .adopted m x ∈ (S p).trace → Vouched cfg crypto m x) ∧
    ∀ m s, (S p).handleGeneric cfg crypto m = some s → ¬ AcceptsGeneric cfg crypto (S p) m → ∀ i,
      (s.inst i).hashToQC = ((S p).inst i).hashToQC ∧ (s.inst i).preparedQC = ((S p).inst i).preparedQC ∧
        (s.inst i).lockedQC = ((S p).inst i).lockedQC := by
  have hsourced := sourced_reach (System.reach_replica h hp)
  refine ⟨hsourced.certs, hsourced.vouched, ?_⟩
  intro m s hs hm i
  obtain ⟨_, _, heq⟩ := handleGeneric_rejected hs hm i
  rw [heq]
  exact ⟨rfl, rfl, rfl⟩

def adoptions (r : Replica) : List (GenericMsg × Instance) :=
  r.trace.filterMap fun
    | .adopted m x => some (m, x)
    | _ => none

def votes (r : Replica) : List Bytes :=
  r.trace.filterMap fun
    | .voted _ _ hash => some hash
    | _ => none

-- A certificate for a batch nobody proposed, without a single share.
def forgedQC : QuorumCertificate := { viewNumber := 5, batchHash := [1], parentView := 4, parentHash := [2] }

theorem adopted_certificates_vouched_forged :
    ∃ S, System.Reachable .fourReplicas .transparent {0} S ∧ ∃ m x, .adopted m x ∈ (S 1).trace ∧
      m.highQC.batchHash = [1] ∧ Vouched .fourReplicas .transparent m x := by
  let g := slotGeneric .fourReplicas .transparent 0 0 [7] forgedQC
  obtain ⟨S, hS, hp⟩ := exists_reach_of_runWith (System.step .fourReplicas .transparent)
    (System.Allowed .fourReplicas {0}) (System.init .fourReplicas) [.inject 1 (.generic g)]
    (fun S => decide ((S 1).adoptions.map (fun a => a.1.highQC.batchHash) = [[1]])) (by decide +kernel)
  obtain ⟨a, ha, hash⟩ : ∃ a ∈ (S 1).adoptions, a.1.highQC.batchHash = [1] := by
    have hmem : [1] ∈ (S 1).adoptions.map fun a => a.1.highQC.batchHash := by
      rw [of_decide_eq_true hp]
      exact List.mem_singleton_self _
    exact List.mem_map.mp hmem
  obtain ⟨o, ho, heq⟩ := List.mem_filterMap.mp ha
  cases o <;> cases heq
  exact ⟨S, hS, _, _, ho, hash,
    (adopted_certificates_vouched .fourReplicas .transparent hS (by decide : 1 < 4)).2.1 _ _ ho⟩

theorem forged_certificate_adopted :
    ∃ S, System.Reachable .fourReplicas .transparent {0} S ∧ ∃ qc, UMap.get ((S 1).inst 0).hashToQC [1] = qc ∧
      qc.batchHash = [1] ∧ qc.viewNumber = 5 ∧ qc.genesis = false ∧
      qc.signatureShareMap.entries.length < Config.fourReplicas.nf ∧ ∀ p < 4, [1] ∉ (S p).votes := by
  let g := slotGeneric .fourReplicas .transparent 0 0 [7] forgedQC
  obtain ⟨S, hS, hp⟩ := exists_reach_of_runWith (System.step .fourReplicas .transparent)
    (System.Allowed .fourReplicas {0}) (System.init .fourReplicas) [.inject 1 (.generic g)]
    (fun S =>
      let qc := UMap.get ((S 1).inst 0).hashToQC [1]
      decide (qc.batchHash = [1] ∧ qc.viewNumber = 5 ∧ qc.genesis = false ∧
        qc.signatureShareMap.entries.length < Config.fourReplicas.nf ∧ ∀ p : ℕ, p < 4 → [1] ∉ (S p).votes))
    (by decide +kernel)
  exact ⟨S, hS, _, rfl, of_decide_eq_true hp⟩

end Replica

end SpotLess
