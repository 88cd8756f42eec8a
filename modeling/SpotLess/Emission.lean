import SpotLess.ExecuteOrder
import SpotLess.Growth

namespace SpotLess

open Lib

def Obs.execution? (i : ℕ) : Obs → Option ExecuteMsg
  | .executeSent j m => if j = i then some m else none
  | _ => none

lemma ExecuteMsg.copyFromTxn_injective (cfg : Config) : Function.Injective (ExecuteMsg.copyFromTxn cfg) :=
  fun _ _ h => congrArg ExecuteMsg.endIndex h

namespace Instance

structure SameCerts (x y : Instance) : Prop where
  view : y.view = x.view
  preparedQC : y.preparedQC = x.preparedQC
  lockedQC : y.lockedQC = x.lockedQC
  hashToQC : y.hashToQC = x.hashToQC

lemma SameCerts.refl (x : Instance) : x.SameCerts x := ⟨rfl, rfl, rfl, rfl⟩

lemma SameCerts.trans {x y z : Instance} (h : x.SameCerts y) (h' : y.SameCerts z) : x.SameCerts z :=
  ⟨h'.view.trans h.view, h'.preparedQC.trans h.preparedQC, h'.lockedQC.trans h.lockedQC, h'.hashToQC.trans h.hashToQC⟩

variable {p : ℕ → Prop} {x : Instance}

lemma executeParents_txnids (fuel : ℕ) (h : UMap.All p x.hashToTxnid) (qc : QuorumCertificate) :
    UMap.All p (executeParents fuel x qc).1.hashToTxnid ∧ ∀ id ∈ (executeParents fuel x qc).2, p id ∨ id = 0 := by
  induction fuel generalizing x qc with
  | zero => exact ⟨h, nofun⟩
  | succ fuel ih =>
    have hid : p (UMap.get x.hashToTxnid qc.batchHash) ∨ UMap.get x.hashToTxnid qc.batchHash = 0 :=
      (h.imp fun _ hv => Or.inl hv).get (p := fun id => p id ∨ id = 0) (Or.inr rfl) _
    simp only [executeParents]
    split_ifs
    · obtain ⟨hmap, hids⟩ := ih (x := { x with
        hashToQC := x.hashToQC.erase qc.batchHash, hashToTxnid := x.hashToTxnid.erase qc.batchHash }) (h.erase _)
        (UMap.get (x.hashToQC.erase qc.batchHash) qc.parentHash)
      refine ⟨hmap, fun id hmem => ?_⟩
      rcases List.mem_cons.mp hmem with rfl | hmem
      · exact hid
      · exact hids id hmem
    · refine ⟨h.erase _, fun id hmem => ?_⟩
      rw [List.mem_singleton.mp hmem]
      exact hid

lemma sendExecuteMsg_txnids (h : UMap.All p x.hashToTxnid) (t : TxnManager) (id : ℕ) :
    UMap.All p (x.sendExecuteMsg t id).1.hashToTxnid ∧
      ∀ k ∈ (x.sendExecuteMsg t id).2, p k ∨ k = 0 ∨ k = id := by
  have hwalk : UMap.All p (x.walkParents t.hash).1.hashToTxnid ∧ ∀ k ∈ (x.walkParents t.hash).2, p k ∨ k = 0 := by
    simp only [walkParents]
    split_ifs
    · exact executeParents_txnids (x := { x with hashToQC := UMap.touch x.hashToQC t.hash }) _ h _
    · exact ⟨h, by simp⟩
  refine ⟨hwalk.1.eraseAll _, fun k hk => ?_⟩
  rcases List.mem_append.mp hk with hk | hk
  · exact (hwalk.2 k hk).imp_right Or.inl
  · exact Or.inr (Or.inr (List.mem_singleton.mp hk))

lemma updateQCs_hashToTxnid (x : Instance) (qc : QuorumCertificate) (view : ℕ) :
    (x.updateQCs qc view).hashToTxnid = x.hashToTxnid := by
  simp only [updateQCs, setPreparedQC, setLockedQC]
  split_ifs <;> rfl

end Instance

namespace Replica

variable {cfg : Config} {crypto : Crypto} {P : Msg → Prop} {Q : ℕ → Prop} {B : ℕ → ClientQueryBatch → Prop}
  {r₀ r s : Replica}

def executions (r : Replica) (i : ℕ) : List ExecuteMsg := r.trace.filterMap (Obs.execution? i)

section Commit

variable (cfg)

def commitIds (r : Replica) (qc : QuorumCertificate) (view txnid i : ℕ) : List ℕ :=
  let x := r.inst i
  let id := sub64 txnid (2 * cfg.stride)
  if x.Commits qc view then
    (((x.updateQCs qc view).markCommit (x.parentOf (x.parentOf qc)).batchHash).sendExecuteMsg (r.table id) id).2
  else []

variable {cfg} (qc : QuorumCertificate) (view txnid i : ℕ)

lemma enqueueExecutes_executions (r : Replica) (i : ℕ) (ids : List ℕ) (j : ℕ) :
    (r.enqueueExecutes cfg i ids).executions j =
      r.executions j ++ if j = i then ids.map (ExecuteMsg.copyFromTxn cfg) else [] := by
  simp only [executions, enqueueExecutes, List.filterMap_append, List.filterMap_map]
  congr 1
  split_ifs with hj
  · subst hj
    rw [List.filterMap_eq_map_iff_forall_eq_some.mpr]
    intro id _
    simp [Obs.execution?]
  · apply List.filterMap_eq_nil_iff.mpr
    intro id _
    simp [Obs.execution?, Ne.symm hj]

lemma observe_executions (r : Replica) {o : Obs} (j : ℕ) (ho : o.execution? j = none) :
    (r.observe o).executions j = r.executions j := by
  simp [executions, ho]

lemma updateLockQC_executions (r : Replica) (j : ℕ) : (r.updateLockQC cfg qc view txnid i).executions j =
    r.executions j ++ if j = i then (r.commitIds cfg qc view txnid i).map (ExecuteMsg.copyFromTxn cfg) else [] := by
  simp only [updateLockQC, commitIds]
  split_ifs with hc hj
  · subst hj
    rw [commit, enqueueExecutes_executions, if_pos rfl, observe_executions _ _ (by rfl)]
    simp [executions]
  · rw [commit, enqueueExecutes_executions, if_neg hj, observe_executions _ _ (by rfl)]
    simp [executions]
  · simp [executions]
  · simp [executions]

lemma updateLockQC_exec (r : Replica) : (r.updateLockQC cfg qc view txnid i).exec =
    { r.exec with queue := r.exec.queue ++ (r.commitIds cfg qc view txnid i).map (ExecuteMsg.copyFromTxn cfg) } := by
  simp only [updateLockQC, commitIds]
  split_ifs with hc
  · simp [commit, enqueueExecutes]
  · simp

lemma updateLockQC_txnids {p : ℕ → Prop} (h : UMap.All p (r.inst i).hashToTxnid) :
    UMap.All p ((r.updateLockQC cfg qc view txnid i).inst i).hashToTxnid ∧
      ∀ k ∈ r.commitIds cfg qc view txnid i,
        p k ∨ k = 0 ∨ k = sub64 txnid (2 * cfg.stride) ∧ (r.inst i).Commits qc view := by
  have hupdate : UMap.All p (((r.inst i).updateQCs qc view).markCommit
      ((r.inst i).parentOf ((r.inst i).parentOf qc)).batchHash).hashToTxnid := by
    rw [Instance.markCommit, Instance.updateQCs_hashToTxnid]
    exact h
  have hsend := Instance.sendExecuteMsg_txnids hupdate (r.table (sub64 txnid (2 * cfg.stride)))
    (sub64 txnid (2 * cfg.stride))
  simp only [updateLockQC, commitIds]
  split_ifs with hc
  · refine ⟨?_, fun k hk => (hsend.2 k hk).imp_right fun hk => hk.imp_right fun hk => ⟨hk, hc⟩⟩
    simp only [commit, enqueueExecutes, observe_inst, setInst_inst, Function.update_self, setInst_table]
    exact hsend.1
  · refine ⟨?_, by simp⟩
    rw [setInst_inst, Function.update_self, Instance.updateQCs_hashToTxnid]
    exact h

def advanceIds (cfg : Config) (r : Replica) (id : ℕ) : List ℕ :=
  let t := r.table id
  let i := t.instanceId
  let view := (r.inst i).view
  (r.installQC id).commitIds cfg (genericQCOf t view) (view + 1) id i

lemma enterView_executions (r : Replica) (view id j : ℕ) :
    (r.enterView cfg i view id).executions j = r.executions j := by
  rw [executions, enterView_trace, executions]

lemma enterView_exec (r : Replica) (view id : ℕ) : (r.enterView cfg i view id).exec = r.exec := by
  simp only [enterView]
  split_ifs <;> rfl

lemma advanceView_executions {id : ℕ} (h : r.advanceView cfg id = some s) (j : ℕ) : s.executions j =
    r.executions j ++
      if j = (r.table id).instanceId then (r.advanceIds cfg id).map (ExecuteMsg.copyFromTxn cfg) else [] := by
  obtain ⟨_, _, rfl⟩ := advanceView_eq h
  rw [enterView_executions, updateLockQC_executions, installQC, observe_executions _ _ (by rfl)]
  rfl

lemma advanceView_exec {id : ℕ} (h : r.advanceView cfg id = some s) : s.exec =
    { r.exec with queue := r.exec.queue ++ (r.advanceIds cfg id).map (ExecuteMsg.copyFromTxn cfg) } := by
  obtain ⟨_, _, rfl⟩ := advanceView_eq h
  rw [enterView_exec, updateLockQC_exec]
  rfl

end Commit

structure Quiet (cfg : Config) (r s : Replica) : Prop where
  certs : ∀ j, (r.inst j).SameCerts (s.inst j)
  executions : ∀ j, s.executions j = r.executions j
  exec : s.exec = r.exec ∨ ∃ k, r.exec.step cfg (.pop k r.table) = some s.exec

lemma Quiet.of_inst (hinst : s.inst = r.inst) (htrace : ∀ j, s.executions j = r.executions j) (hexec : s.exec = r.exec) :
    Quiet cfg r s :=
  ⟨fun _ => hinst ▸ .refl _, htrace, Or.inl hexec⟩

lemma Quiet.of_update {i : ℕ} {x : Instance} (hinst : s.inst = Function.update r.inst i x)
    (hx : (r.inst i).SameCerts x) (htrace : ∀ j, s.executions j = r.executions j) (hexec : s.exec = r.exec) :
    Quiet cfg r s := by
  refine ⟨fun j => ?_, htrace, Or.inl hexec⟩
  rw [hinst]
  by_cases hj : j = i
  · subst hj
    rwa [Function.update_self]
  · rw [Function.update_of_ne hj]
    exact .refl _

lemma Move.quiet_or (h : Move cfg crypto P Q B r₀ r s) : Quiet cfg r s ∨
    (∃ m, P (.generic m) ∧ r.exec.nextIndex < m.txnId ∧ m.view ≤ (r.inst m.instanceId).view ∧
      AcceptsGeneric cfg crypto r m ∧ s = (r.storeGeneric m).lockGeneric cfg m) ∨
    (∃ id, SameViews r₀ r ∧ Unready P r₀ id ∧ (r.table id).Ready ∧ r.advanceView cfg id = some s) := by
  cases h with
  | idle h =>
    refine Or.inl ⟨fun j => ?_, fun j => ?_, Or.inl h.exec⟩
    · obtain ⟨_, _, heq⟩ := h.chain j
      rw [heq]
      exact ⟨rfl, rfl, rfl, rfl⟩
    · rcases h.trace with heq | ⟨batch, heq⟩
      · rw [executions, heq, executions]
      · simp [executions, heq, Obs.execution?]
  | proposal => exact Or.inl (.of_update rfl ⟨rfl, rfl, rfl, rfl⟩ (fun _ => rfl) rfl)
  | generic hm hindex hview hacc => exact Or.inr (Or.inl ⟨_, hm, hindex, hview, hacc, rfl⟩)
  | @vote _ id =>
    left
    rcases sendHotstuffNewview_cases cfg crypto r id with ⟨_, heq⟩ | ⟨_, hc⟩
    · rw [heq]
      exact .of_inst rfl (fun _ => rfl) rfl
    · refine .of_inst hc.inst (fun j => ?_) hc.exec
      simp [executions, hc.trace, Obs.execution?]
  | @count m =>
    left
    simp only [countVote, bindTxnid]
    split_ifs
    · exact .of_update rfl ⟨rfl, rfl, rfl, rfl⟩ (fun _ => rfl) rfl
    · exact .of_inst rfl (fun _ => rfl) rfl
  | advance hsame hfresh hready h => exact Or.inr (Or.inr ⟨_, hsame, hfresh, hready, h⟩)
  | batch => exact Or.inl (.of_update rfl ⟨rfl, rfl, rfl, rfl⟩ (fun j => observe_executions _ j (by rfl)) rfl)
  | announce => exact Or.inl (.of_inst rfl (fun j => observe_executions _ j (by rfl)) rfl)
  | execute h => exact Or.inl ⟨fun _ => .refl _, fun _ => rfl, Or.inr ⟨_, h⟩⟩
  | recycle => exact Or.inl (.of_inst rfl (fun _ => rfl) rfl)

structure Enqueues (cfg : Config) (i : ℕ) (ids : List ℕ) (r s : Replica) : Prop where
  executions : ∀ j, s.executions j = r.executions j ++ if j = i then ids.map (ExecuteMsg.copyFromTxn cfg) else []
  exec : s.exec = { r.exec with queue := r.exec.queue ++ ids.map (ExecuteMsg.copyFromTxn cfg) }

lemma Enqueues.nothing (htrace : ∀ j, s.executions j = r.executions j) (hexec : s.exec = r.exec) :
    Enqueues cfg 0 [] r s := by
  refine ⟨fun j => ?_, ?_⟩
  · rw [htrace]
    split_ifs <;> simp
  · simp [hexec]

lemma Move.emits (h : Move cfg crypto P Q B r₀ r s) : (∃ i ids, Enqueues cfg i ids r s) ∨
    (∃ k, r.exec.step cfg (.pop k r.table) = some s.exec ∧ ∀ j, s.executions j = r.executions j) := by
  rcases h.quiet_or with hq | ⟨m, _, _, _, _, rfl⟩ | ⟨id, _, _, _, ha⟩
  · rcases hq.exec with hexec | ⟨k, hpop⟩
    · exact Or.inl ⟨0, [], .nothing hq.executions hexec⟩
    · exact Or.inr ⟨k, hpop, hq.executions⟩
  · have hstore : ∀ j, (r.storeGeneric m).executions j = r.executions j := fun j =>
      observe_executions _ j (by rfl)
    left
    simp only [lockGeneric]
    split_ifs
    · refine ⟨m.instanceId, _, fun j => ?_, updateLockQC_exec _ _ _ _ _⟩
      rw [updateLockQC_executions, hstore]
    · exact ⟨0, [], .nothing hstore rfl⟩
  · exact Or.inl ⟨_, _, advanceView_executions ha, advanceView_exec ha⟩

section Txnids

variable {p : ℕ → ℕ → Prop}

lemma txnids_update (h : ∀ j, UMap.All (p j) (r.inst j).hashToTxnid) {i : ℕ} {x : Instance}
    (hx : UMap.All (p i) x.hashToTxnid) (j : ℕ) : UMap.All (p j) (Function.update r.inst i x j).hashToTxnid := by
  by_cases hj : j = i
  · subst hj
    rwa [Function.update_self]
  · rw [Function.update_of_ne hj]
    exact h j

lemma txnids_updateLockQC (h : ∀ j, UMap.All (p j) (r.inst j).hashToTxnid) (qc : QuorumCertificate)
    (view txnid i j : ℕ) : UMap.All (p j) ((r.updateLockQC cfg qc view txnid i).inst j).hashToTxnid := by
  by_cases hj : j = i
  · subst hj
    exact (updateLockQC_txnids qc view txnid j (h j)).1
  · rw [updateLockQC_inst_of_ne cfg r qc view txnid i hj]
    exact h j

lemma enterView_hashToTxnid (r : Replica) (i view id j : ℕ) :
    ((r.enterView cfg i view id).inst j).hashToTxnid = (r.inst j).hashToTxnid := by
  by_cases hj : j = i
  · subst hj
    simp only [enterView]
    split_ifs <;> simp [postPrimary, setCurrNewViewed, setView]
  · rw [enterView_inst_of_ne cfg r view i id hj]

lemma Move.txnids (hm : Move cfg crypto P Q B r₀ r s)
    (hproposal : ∀ m, P (.proposal m) → p m.instanceId (m.index.getLastD 0))
    (hsync : ∀ m, P (.sync m) → p m.instanceId m.txnId)
    (hbatch : ∀ slot batch, r₀.threads.proposal = .stamped slot batch →
      p (slot % cfg.totInstances) (slot * cfg.batchSize + cfg.batchSize - 1))
    (h : ∀ j, UMap.All (p j) (r.inst j).hashToTxnid) (j : ℕ) : UMap.All (p j) (s.inst j).hashToTxnid := by
  cases hm with
  | idle hidle =>
    obtain ⟨_, _, heq⟩ := hidle.chain j
    rw [heq]
    exact h j
  | @proposal m _ hm => exact txnids_update h ((h m.instanceId).insertNew _ (hproposal m hm)) j
  | @generic _ m =>
    have hstore : ∀ j, UMap.All (p j) ((r.storeGeneric m).inst j).hashToTxnid := fun j =>
      txnids_update h (x := (r.inst m.instanceId).storeQC m.highQC) (h m.instanceId) j
    simp only [lockGeneric]
    split_ifs
    · exact txnids_updateLockQC hstore _ _ _ _ j
    · exact hstore j
  | @vote _ id =>
    rcases sendHotstuffNewview_cases cfg crypto r id with ⟨_, heq⟩ | ⟨_, hc⟩
    · rw [heq]
      exact h j
    · rw [hc.inst]
      exact h j
  | @count m hm =>
    simp only [countVote, bindTxnid]
    split_ifs
    · exact txnids_update h ((h m.instanceId).insert _ (hsync m hm)) j
    · exact h j
  | @advance _ _ id _ _ _ ha =>
    obtain ⟨_, _, rfl⟩ := advanceView_eq ha
    rw [enterView_hashToTxnid]
    have hinstall : ∀ j, UMap.All (p j) ((r.installQC id).inst j).hashToTxnid := fun j =>
      txnids_update h (i := (r.table id).instanceId)
        (x := (r.inst (r.table id).instanceId).storeQC _) (h (r.table id).instanceId) j
    exact txnids_updateLockQC hinstall _ _ _ _ j
  | @batch slot batch table _ hpc =>
    exact txnids_update h ((h (slot % cfg.totInstances)).insert _ (hbatch slot batch hpc)) j
  | announce => exact h j
  | execute => exact h j
  | recycle => exact h j

end Txnids

structure Tracked (cfg : Config) (r : Replica) : Prop where
  turn : ∃ k, r.exec.nextIndex = k * cfg.batchSize ∧
    r.exec.expectedExecuteCount = k * cfg.batchSize + cfg.batchSize - 2 ∧
    ∀ c < k, ∃ i, ExecuteMsg.copyFromTxn cfg (c * cfg.batchSize + cfg.batchSize - 1) ∈ r.executions i
  queued : ∀ m ∈ r.exec.queue, ∃ i id, m = ExecuteMsg.copyFromTxn cfg id ∧ m ∈ r.executions i

lemma Tracked.move (h : Tracked cfg r) (hm : Move cfg crypto P Q B r₀ r s) : Tracked cfg s := by
  obtain ⟨k, hnext, hexpected, hran⟩ := h.turn
  rcases hm.emits with ⟨i, ids, ⟨htrace, hexec⟩⟩ | ⟨j, hpop, htrace⟩
  · have hmono : ∀ {j m}, m ∈ r.executions j → m ∈ s.executions j := by
      intro j m hmem
      rw [htrace]
      exact List.mem_append_left _ hmem
    refine ⟨⟨k, by rw [hexec, hnext], by rw [hexec, hexpected], fun c hc => ?_⟩, fun m hmem => ?_⟩
    · obtain ⟨j, hj⟩ := hran c hc
      exact ⟨j, hmono hj⟩
    · rw [hexec] at hmem
      rcases List.mem_append.mp hmem with hmem | hmem
      · obtain ⟨j, id, heq, hj⟩ := h.queued m hmem
        exact ⟨j, id, heq, hmono hj⟩
      · obtain ⟨id, _, rfl⟩ := List.mem_map.mp hmem
        refine ⟨i, id, rfl, ?_⟩
        rw [htrace, if_pos rfl]
        exact List.mem_append_right _ hmem
  · obtain ⟨m, hmem, hqueue, hcases⟩ := Executor.pop_cases cfg hpop
    have hqueued : ∀ m ∈ s.exec.queue, ∃ i id, m = ExecuteMsg.copyFromTxn cfg id ∧ m ∈ s.executions i := by
      intro m' hm'
      obtain ⟨i, id, heq, hi⟩ := h.queued m' (hqueue m' hm')
      exact ⟨i, id, heq, by rwa [htrace]⟩
    refine ⟨?_, hqueued⟩
    rcases hcases with ⟨hnext', hexpected', _⟩ | ⟨hturn, hrange, hnext', hexpected', _⟩
    · refine ⟨k, by rw [hnext', hnext], by rw [hexpected', hexpected], fun c hc => ?_⟩
      obtain ⟨j, hj⟩ := hran c hc
      exact ⟨j, by rwa [htrace]⟩
    · obtain ⟨i, id, rfl, hi⟩ := h.queued m hmem
      rw [hexpected] at hturn hrange
      have hid := Executor.copyFromTxn_expected cfg hturn hrange
      have hb := cfg.five_le_batch
      refine ⟨k + 1, ?_, ?_, fun c hc => ?_⟩
      · rw [hnext', hnext, Nat.succ_mul]
      · rw [hexpected', hturn, Nat.succ_mul]
        omega
      · rcases Nat.lt_succ_iff_lt_or_eq.mp hc with hc | rfl
        · obtain ⟨j, hj⟩ := hran c hc
          exact ⟨j, by rwa [htrace]⟩
        · exact ⟨i, by rwa [htrace, ← hid]⟩

lemma tracked_init (p : ℕ) : Tracked cfg (init cfg p) where
  turn := ⟨0, by simp [init, Executor.init], by simp [init, Executor.init], nofun⟩
  queued m hm := by simp [init, Executor.init] at hm

lemma Tracked.executed (h : Tracked cfg r) {w i : ℕ} (hlt : cfg.lastTxn w i ≤ r.exec.nextIndex) :
    ∃ j, ExecuteMsg.copyFromTxn cfg (cfg.lastTxn w i) ∈ r.executions j := by
  obtain ⟨k, hnext, _, hran⟩ := h.turn
  have hb := cfg.five_le_batch
  have hslot : cfg.lastTxn w i = cfg.slot w i * cfg.batchSize + cfg.batchSize - 1 := rfl
  have hk : cfg.slot w i < k := by
    by_contra hge
    have hmul := Nat.mul_le_mul_right cfg.batchSize (Nat.le_of_not_lt hge)
    omega
  rw [hslot]
  exact hran _ hk

end Replica

end SpotLess
