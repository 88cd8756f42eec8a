import SpotLess.Certificates

namespace SpotLess

open Lib

def ProposalPc.begun : ProposalPc → ℕ
  | .idle => 0
  | _ => 1

def ProposalPc.armedCount : ProposalPc → ℕ
  | .idle | .awake => 0
  | _ => 1

def GenericPc.begun : GenericPc → ℕ
  | .idle | .holding _ => 0
  | _ => 1

def GenericPc.armedCount : GenericPc → ℕ
  | .idle | .awake | .holding _ => 0
  | _ => 1

-- The steps the threads have to take for the work items they hold, those for the proposals on the counters aside.
def Threads.rest (t : Threads) : ℕ :=
  t.requeued.length +
    (match t.proposal with
      | .processed _ => 9
      | _ => 0) +
    match t.generic with
      | .formed _ _ => 2
      | .chosen _ => 3
      | .armed => 4
      | .awake => 5
      | .idle => 6
      | .holding _ => 7

namespace Replica

variable {cfg : Config} {crypto : Crypto} {H : ℕ → ℕ → Bytes} {r s : Replica} {p : ℕ}

section Tokens

def incomplete (cfg : Config) (r : Replica) : ℕ :=
  ∑ i ∈ Finset.range cfg.totInstances, (r.sends i).incompleteProposalCnt

structure Tokens (cfg : Config) (r : Replica) : Prop where
  work : r.sems.genericWork + r.threads.generic.begun =
    r.sems.batchWork + r.threads.proposal.begun + r.incomplete cfg
  turn : r.sems.newTxn + r.threads.generic.armedCount =
    r.sems.proposal + r.threads.proposal.armedCount + r.incomplete cfg
  processed : ∀ i, r.threads.proposal = .processed i → i < cfg.totInstances

lemma tokens_init (p : ℕ) : Tokens cfg (init cfg p) where
  work := by simp [init, incomplete, Sending.init, GenericPc.begun, ProposalPc.begun]
  turn := by simp [init, incomplete, Sending.init, GenericPc.armedCount, ProposalPc.armedCount]
  processed := nofun

lemma incomplete_setSend {i : ℕ} {y : Sending} (hi : i < cfg.totInstances) :
    (r.setSend i y).incomplete cfg + (r.sends i).incompleteProposalCnt = r.incomplete cfg + y.incompleteProposalCnt := by
  have hmem : i ∈ Finset.range cfg.totInstances := Finset.mem_range.mpr hi
  rw [incomplete, incomplete, ← Finset.add_sum_erase _ _ hmem, ← Finset.add_sum_erase _ _ hmem]
  have hrest : ∑ j ∈ (Finset.range cfg.totInstances).erase i, ((r.setSend i y).sends j).incompleteProposalCnt =
      ∑ j ∈ (Finset.range cfg.totInstances).erase i, (r.sends j).incompleteProposalCnt := by
    refine Finset.sum_congr rfl fun j hj => ?_
    rw [setSend_sends, Function.update_of_ne (Finset.ne_of_mem_erase hj)]
  rw [hrest, setSend_sends, Function.update_self]
  omega

lemma incomplete_setSend_succ {i : ℕ} {y : Sending} (hi : i < cfg.totInstances)
    (hy : y.incompleteProposalCnt = (r.sends i).incompleteProposalCnt + 1) :
    (r.setSend i y).incomplete cfg = r.incomplete cfg + 1 := by
  have hsum := incomplete_setSend (r := r) (y := y) hi
  omega

lemma incomplete_setSend_pred {i : ℕ} {y : Sending} (hi : i < cfg.totInstances)
    (hy : y.incompleteProposalCnt + 1 = (r.sends i).incompleteProposalCnt) :
    (r.setSend i y).incomplete cfg + 1 = r.incomplete cfg := by
  have hsum := incomplete_setSend (r := r) (y := y) hi
  omega

lemma incomplete_setSend_same (cfg : Config) {i : ℕ} {y : Sending}
    (hy : y.incompleteProposalCnt = (r.sends i).incompleteProposalCnt) :
    (r.setSend i y).incomplete cfg = r.incomplete cfg :=
  Finset.sum_congr rfl fun j _ => setSend_field Sending.incompleteProposalCnt hy j

lemma Tokens.handled (h : Tokens cfg r) (hh : Handled r s) : Tokens cfg s := by
  obtain ⟨k, hk⟩ := hh.sems
  have hsum : s.incomplete cfg = r.incomplete cfg := by rw [incomplete, hh.sends, incomplete]
  have hwork := h.work
  have hturn := h.turn
  refine ⟨?_, ?_, hh.threads ▸ h.processed⟩
  · rw [hk, hh.threads, hsum]
    exact hwork
  · rw [hk, hh.threads, hsum]
    dsimp only
    omega

lemma handleGenericP_frame {id : ℕ} (hs : r.handleGenericP cfg crypto id = some s) :
    s.sends = r.sends ∧ s.threads = r.threads ∧ s.sems = r.sems := by
  simp only [handleGenericP] at hs
  split_ifs at hs
  · obtain rfl := Option.some.inj hs
    exact ⟨rfl, rfl, rfl⟩
  · obtain ⟨_, rfl⟩ := processHotstuffGenericP_cases hs
    have hh := (Handled.refl (r.announceGeneric cfg crypto id)).sendHotstuffNewview cfg crypto id
    refine ⟨hh.sends, hh.threads, ?_⟩
    rcases sendHotstuffNewview_cases cfg crypto (r.announceGeneric cfg crypto id) id with ⟨_, heq⟩ | ⟨_, hc⟩
    · exact (congrArg Replica.sems heq).trans rfl
    · exact hc.sems

lemma Tokens.proposalStep (h : Tokens cfg r) (hs' : Steady cfg s) {i j : ℕ}
    (hs : r.proposalStep cfg crypto i j = some s) : Tokens cfg s := by
  obtain ⟨hwork, hturn, hproc⟩ := h
  simp only [Replica.proposalStep] at hs
  split at hs
  · rename_i hpc
    split_ifs at hs with hpos
    obtain rfl := Option.some.inj hs
    rw [hpc] at hwork hturn
    refine ⟨?_, ?_, by simp [setProposal]⟩
    · simp only [setProposal, setSems, ProposalPc.begun, incomplete] at hwork ⊢
      omega
    · exact hturn
  · rename_i hpc
    split_ifs at hs with hpos
    obtain rfl := Option.some.inj hs
    rw [hpc] at hwork hturn
    refine ⟨hwork, ?_, by simp [setProposal]⟩
    simp only [setProposal, setSems, ProposalPc.armedCount, incomplete] at hturn ⊢
    omega
  · rename_i hpc
    split_ifs at hs
    split at hs
    · cases hs
    · rename_i rest _
      obtain rfl := Option.some.inj hs
      rw [hpc] at hwork hturn
      have hsum := incomplete_setSend_same cfg (r := r) (i := j)
        (y := { r.sends j with newTxnQueue := rest, clbCnt := (r.sends j).clbCnt - 1 }) rfl
      refine ⟨?_, ?_, by simp [setProposal]⟩
      · exact hwork.trans (congrArg (r.sems.batchWork + 1 + ·) hsum.symm)
      · exact hturn.trans (congrArg (r.sems.proposal + 1 + ·) hsum.symm)
  · rename_i k view batch hpc
    obtain rfl := Option.some.inj hs
    rw [hpc] at hwork hturn
    have hsum := incomplete_setSend_same cfg (r := r) (i := k)
      (y := { r.sends k with lastSentView := view, nextSendView := (r.sends k).nextSendView + cfg.nodeCnt }) rfl
    refine ⟨?_, ?_, by simp [setProposal]⟩
    · exact hwork.trans (congrArg (r.sems.batchWork + 1 + ·) hsum.symm)
    · exact hturn.trans (congrArg (r.sems.proposal + 1 + ·) hsum.symm)
  · rename_i slot batch hpc
    obtain ⟨t, ht, rfl⟩ := Option.map_eq_some_iff.mp hs
    obtain ⟨_, table, _, rfl⟩ := createAndSendHotstuffPrepare_cases ht
    rw [hpc] at hwork hturn
    refine ⟨hwork, hturn, fun k hk => ?_⟩
    obtain rfl := ProposalPc.processed.inj hk
    exact hs'.wired.insts _
  · rename_i k hpc
    obtain rfl := Option.some.inj hs
    rw [hpc] at hwork hturn
    have hsum := incomplete_setSend_succ (r := r)
      (y := { r.sends k with incompleteProposalCnt := (r.sends k).incompleteProposalCnt + 1 }) (hproc k hpc) rfl
    have hadd : ∀ {a b c d : ℕ}, a = b + 1 + c → d = c + 1 → a = b + 0 + d := by omega
    exact ⟨hadd hwork hsum, hadd hturn hsum, by simp [setProposal]⟩

lemma Tokens.genericStep (h : Tokens cfg r) (hpair : Paired cfg r) {i : ℕ} {busy : Bool}
    (hs : r.genericStep cfg crypto i busy = some s) : Tokens cfg s := by
  obtain ⟨hwork, hturn, hproc⟩ := h
  simp only [Replica.genericStep] at hs
  split at hs
  · rename_i hpc
    split_ifs at hs with hpos
    obtain rfl := Option.some.inj hs
    rw [hpc] at hwork hturn
    refine ⟨?_, hturn, hproc⟩
    simp only [setGeneric, setSems, GenericPc.begun, incomplete] at hwork ⊢
    omega
  · rename_i hpc
    split_ifs at hs with hpos
    obtain rfl := Option.some.inj hs
    rw [hpc] at hwork hturn
    refine ⟨hwork, ?_, hproc⟩
    simp only [setGeneric, setSems, GenericPc.armedCount, incomplete] at hturn ⊢
    omega
  · rename_i hpc
    split_ifs at hs
    obtain rfl := Option.some.inj hs
    rw [hpc] at hwork hturn
    exact ⟨hwork, hturn, hproc⟩
  · rename_i k hpc
    obtain rfl := Option.some.inj hs
    rw [hpc] at hwork hturn
    exact ⟨hwork, hturn, hproc⟩
  · rename_i k id hpc
    obtain rfl := Option.some.inj hs
    obtain ⟨hk, hpos, _⟩ := hpair.formed k id hpc
    rw [hpc] at hwork hturn
    have hsum := incomplete_setSend_pred (r := r)
      (y := { r.sends k with incompleteProposalCnt := (r.sends k).incompleteProposalCnt - 1 }) hk
      (Nat.sub_add_cancel hpos)
    have hsub : ∀ {a b c d : ℕ}, a + 1 = b + c → d + 1 = c → a + 0 = b + d := by omega
    exact ⟨hsub hwork hsum, hsub hturn hsum, hproc⟩
  · rename_i id hpc
    rw [hpc] at hwork hturn
    split_ifs at hs
    · obtain rfl := Option.some.inj hs
      exact ⟨hwork, hturn, hproc⟩
    · obtain ⟨t, ht, rfl⟩ := Option.map_eq_some_iff.mp hs
      obtain ⟨hsends, hthreads, hsems⟩ := handleGenericP_frame ht
      have hsum : t.incomplete cfg = r.incomplete cfg := by rw [incomplete, hsends, incomplete]
      refine ⟨?_, ?_, ?_⟩
      · change t.sems.genericWork + 0 = t.sems.batchWork + t.threads.proposal.begun + t.incomplete cfg
        rw [hsems, hthreads, hsum]
        exact hwork
      · change t.sems.newTxn + 0 = t.sems.proposal + t.threads.proposal.armedCount + t.incomplete cfg
        rw [hsems, hthreads, hsum]
        exact hturn
      · change ∀ i, t.threads.proposal = .processed i → i < cfg.totInstances
        rw [hthreads]
        exact hproc

lemma Tokens.step (h : Tokens cfg r) (hc : Calm cfg H r) {e : Event} (he : FaultFree cfg crypto H r e)
    (hs : r.step cfg crypto e = some s) : Tokens cfg s := by
  cases e with
  | deliver m => exact h.handled (.handle hs)
  | replay i => exact h.handled (.replay hs)
  | clientBatch i batch =>
    simp only [Replica.step, enqueueBatch] at hs
    split_ifs at hs
    obtain rfl := Option.some.inj hs
    obtain ⟨hwork, hturn, hproc⟩ := h
    have hsum := incomplete_setSend_same cfg (r := r) (i := i)
      (y := { r.sends i with newTxnQueue := (r.sends i).newTxnQueue ++ [batch], clbCnt := (r.sends i).clbCnt + 1 }) rfl
    have hadd : ∀ {a b c d f g : ℕ}, a + b = c + d + f → g = f → a + 1 + b = c + 1 + d + g := by omega
    have hsame : ∀ {a f g : ℕ} {b : ℕ}, b = a + f → g = f → b = a + g := by omega
    exact ⟨hadd hwork hsum, hsame hturn hsum, hproc⟩
  | proposalThread i j => exact h.proposalStep (hc.step he hs).steady hs
  | genericThread i busy => exact h.genericStep hc.steady.paired hs
  | workerGenericP k =>
    simp only [Replica.step, workerGenericP] at hs
    split at hs
    · obtain ⟨hsends, hthreads, hsems⟩ := handleGenericP_frame hs
      have hsum : s.incomplete cfg = r.incomplete cfg := by rw [incomplete, hsends, incomplete, setRequeued]
      refine ⟨?_, ?_, ?_⟩
      · rw [hsems, hthreads, hsum]
        exact h.work
      · rw [hsems, hthreads, hsum]
        exact h.turn
      · rw [hthreads]
        exact h.processed
    · cases hs
  | execute k =>
    obtain ⟨e, _, rfl⟩ := Option.map_eq_some_iff.mp hs
    exact ⟨h.work, h.turn, h.processed⟩
  | recycle id t =>
    simp only [Replica.step, Replica.recycle] at hs
    split_ifs at hs
    obtain rfl := Option.some.inj hs
    exact ⟨h.work, h.turn, h.processed⟩

lemma tokens_reach (hp : p < cfg.nodeCnt)
    (h : Reach (Replica.step cfg crypto) (FaultFree cfg crypto H) (init cfg p) r) : Tokens cfg r := by
  apply h.invariant (Tokens cfg) (tokens_init p)
  intro s e t hr he hs ht
  exact ht.step (calm_reach hp hr) he hs

end Tokens

section Progress

def Event.OfSender : Event → Prop
  | .proposalThread _ _ | .genericThread _ _ | .workerGenericP _ => True
  | _ => False

-- How far the sending threads are from having nothing left to announce.
def unfinished (cfg : Config) (r : Replica) : ℕ := 8 * r.incomplete cfg + r.threads.rest

lemma handleGenericP_some (cfg : Config) (crypto : Crypto) {id : ℕ} (hh : (r.table id).hash ≠ []) :
    ∃ s, r.handleGenericP cfg crypto id = some s := by
  simp only [handleGenericP]
  split_ifs
  · exact ⟨r, rfl⟩
  · simp only [processHotstuffGenericP, sendHotstuffGeneric, if_neg hh]
    exact ⟨_, rfl⟩

structure Advancing (cfg : Config) (crypto : Crypto) (r : Replica) : Prop where
  next : ∃ e s, e.OfSender ∧ r.step cfg crypto e = some s ∧ s.unfinished cfg < r.unfinished cfg ∧
    s.proposals = r.proposals

variable (hs : Steady cfg r) (hf : Followed cfg r) (ha : Announcing cfg r) (ht : Tracked cfg r)

include hs hf ha ht

lemma advancing_requeued {id : ℕ} {rest : List ℕ} (hq : r.threads.requeued = id :: rest) : Advancing cfg crypto r := by
  have hdue := hf.due_held hs ha ht (.inr (show id ∈ r.threads.requeued by rw [hq]; exact List.mem_cons_self))
  obtain ⟨s, hr⟩ := handleGenericP_some cfg crypto
    (r := r.setRequeued (r.threads.requeued.eraseIdx 0)) hdue.hash
  obtain ⟨hsends, hthreads, _⟩ := handleGenericP_frame hr
  have hsame := (SameAlloc.handleGenericP hr).proposals
  refine ⟨.workerGenericP 0, s, trivial, ?_, ?_, hsame⟩
  · simp only [step, workerGenericP, hq] at hr ⊢
    exact hr
  · simp [unfinished, incomplete, hsends, hthreads, setRequeued, hq, Threads.rest]

lemma advancing_holding {id : ℕ} (hpc : r.threads.generic = .holding id) : Advancing cfg crypto r := by
  have hdue := hf.due_held hs ha ht (.inl hpc)
  obtain ⟨s, hr⟩ := handleGenericP_some cfg crypto hdue.hash
  obtain ⟨hsends, hthreads, _⟩ := handleGenericP_frame hr
  have hsame := (SameAlloc.handleGenericP hr).proposals
  refine ⟨.genericThread 0 false, s.setGeneric .idle, trivial, ?_, ?_, hsame⟩
  · simp [step, genericStep, hpc, hr]
  · simp [unfinished, incomplete, hsends, hthreads, setGeneric, hpc, Threads.rest]

omit hs hf ha ht in
lemma advancing_processed (htok : Tokens cfg r) {k : ℕ} (hpc : r.threads.proposal = .processed k) :
    Advancing cfg crypto r := by
  have hsum := incomplete_setSend_succ (r := r)
    (y := { r.sends k with incompleteProposalCnt := (r.sends k).incompleteProposalCnt + 1 }) (htok.processed k hpc) rfl
  obtain ⟨u, hu⟩ : ∃ u, r.setSend k { r.sends k with
    incompleteProposalCnt := (r.sends k).incompleteProposalCnt + 1 } = u := ⟨_, rfl⟩
  rw [hu] at hsum
  refine ⟨.proposalThread 0 0, u.setProposal .idle, trivial, ?_, ?_, ?_⟩
  · simp [step, proposalStep, hpc, ← hu]
  · have hthreads : u.threads = r.threads := by
      rw [← hu]
      rfl
    have hsum' : (u.setProposal .idle).incomplete cfg = r.incomplete cfg + 1 := hsum
    rw [unfinished, unfinished, hsum']
    simp only [setProposal, hthreads, Threads.rest, hpc]
    omega
  · rw [← hu]
    rfl

omit hf ha ht in
lemma advancing_incomplete (htok : Tokens cfg r) {i : ℕ} (hi : i < cfg.totInstances)
    (hpos : 0 < (r.sends i).incompleteProposalCnt) (hidle : ∀ id, r.threads.generic ≠ .holding id) :
    Advancing cfg crypto r := by
  have hsum : 0 < r.incomplete cfg :=
    hpos.trans_le (Finset.single_le_sum (f := fun i => (r.sends i).incompleteProposalCnt) (fun _ _ => Nat.zero_le _)
      (Finset.mem_range.mpr hi))
  have hwork := htok.work
  have hturn := htok.turn
  have hpend := hs.paired.pending i hi (by rw [pending]; omega)
  have hown := Paired.own_pending hs.alloc hi hpend
  cases hpc : r.threads.generic with
  | idle =>
    rw [hpc, GenericPc.begun] at hwork
    refine ⟨.genericThread 0 false, (r.setSems { r.sems with genericWork := r.sems.genericWork - 1 }).setGeneric .awake,
      trivial, ?_, ?_, rfl⟩
    · simp only [step, genericStep, hpc]
      exact if_pos (by omega)
    · simp [unfinished, setGeneric, setSems, hpc, incomplete, Threads.rest]
  | awake =>
    rw [hpc, GenericPc.armedCount] at hturn
    refine ⟨.genericThread 0 false, (r.setSems { r.sems with newTxn := r.sems.newTxn - 1 }).setGeneric .armed,
      trivial, ?_, ?_, rfl⟩
    · simp only [step, genericStep, hpc]
      exact if_pos (by omega)
    · simp [unfinished, setGeneric, setSems, hpc, incomplete, Threads.rest]
  | armed =>
    refine ⟨.genericThread i false, r.setGeneric (.chosen i), trivial, ?_, ?_, rfl⟩
    · simp only [step, genericStep, hpc]
      exact if_pos ⟨hi, by omega, hown.symm⟩
    · simp [unfinished, setGeneric, hpc, incomplete, Threads.rest]
  | chosen k =>
    refine ⟨.genericThread 0 false, r.setGeneric (.formed k (cfg.lastTxn (r.sends k).lastSentView k)), trivial, ?_, ?_, rfl⟩
    · simp [step, genericStep, hpc]
    · simp [unfinished, setGeneric, hpc, incomplete, Threads.rest]
  | formed k id =>
    obtain ⟨hk, hkpos, _⟩ := hs.paired.formed k id hpc
    have hpred := incomplete_setSend_pred (r := r)
      (y := { r.sends k with incompleteProposalCnt := (r.sends k).incompleteProposalCnt - 1 }) hk
      (Nat.sub_add_cancel hkpos)
    obtain ⟨u, hu⟩ : ∃ u, r.setSend k { r.sends k with
      incompleteProposalCnt := (r.sends k).incompleteProposalCnt - 1 } = u := ⟨_, rfl⟩
    rw [hu] at hpred
    refine ⟨.genericThread 0 false, u.setGeneric (.holding id), trivial, ?_, ?_, ?_⟩
    · simp [step, genericStep, hpc, ← hu]
    · have hthreads : u.threads = r.threads := by
        rw [← hu]
        rfl
      have hpred' : (u.setGeneric (.holding id)).incomplete cfg + 1 = r.incomplete cfg := hpred
      rw [unfinished, unfinished, ← hpred']
      simp only [setGeneric, hthreads, Threads.rest, hpc]
      omega
    · rw [← hu]
      rfl
  | holding id => exact absurd hpc (hidle id)

lemma advancing_of_unannounced (crypto : Crypto) (htok : Tokens cfg r) {e : Proposal} (he : e ∈ r.proposals)
    (hun : (e.instanceId, cfg.lastTxn e.view e.instanceId) ∉ r.generics) : Advancing cfg crypto r := by
  obtain ⟨hpos, hview⟩ := (hf.sent e he).resolve_left hun
  have hi := (hs.alloc.past e he).1
  by_cases hq : r.threads.requeued = []
  swap
  · obtain ⟨id, rest, hq⟩ := List.exists_cons_of_ne_nil hq
    exact advancing_requeued hs hf ha ht hq
  by_cases hhold : ∃ id, r.threads.generic = .holding id
  · obtain ⟨id, hpc⟩ := hhold
    exact advancing_holding hs hf ha ht hpc
  by_cases hproc : ∃ k, r.threads.proposal = .processed k
  · obtain ⟨k, hpc⟩ := hproc
    exact advancing_processed htok hpc
  refine advancing_incomplete hs htok hi ?_ (not_exists.mp hhold)
  have hgen : r.threads.generic.work cfg e.instanceId = 0 := by
    cases hpc : r.threads.generic with
    | holding id => exact absurd ⟨id, hpc⟩ hhold
    | _ => rfl
  have hprop : r.threads.proposal.work cfg e.instanceId = 0 := by
    cases hpc : r.threads.proposal with
    | processed k => exact absurd ⟨k, hpc⟩ hproc
    | stamped slot batch =>
      rw [ProposalPc.work, if_neg]
      intro hslot
      obtain ⟨_, _, _, _, hpast⟩ := alloc_stamped cfg crypto hs.alloc hpc
      have hlt := hpast e he hslot.symm
      have hlast : (r.proposalOf cfg crypto slot batch).view = (r.sends e.instanceId).lastSentView := by
        rw [← hslot]
        rfl
      rw [hlast, (hs.paired.pending _ hi hpos).view] at hlt
      omega
    | _ => rfl
  rw [pending, hgen, hprop, hq, List.countP_nil] at hpos
  omega

end Progress

end Replica

namespace Replica

variable {cfg : Config} {crypto : Crypto} {r s r₀ : Replica}

section Broadcast

variable {P : Msg → Prop} {Q : ℕ → Prop} {B : ℕ → ClientQueryBatch → Prop} {d : ℕ}

def genericTo (d : ℕ) : ℕ × Msg → Option (ℕ × ℕ)
  | (d', .generic m) => if d' = d then some (m.instanceId, m.txnId) else none
  | (_, .proposal _) | (_, .sync _) => none

def genericsTo (r : Replica) (d : ℕ) : List (ℕ × ℕ) := r.out.filterMap (genericTo d)

@[simp] lemma genericTo_generic (d' : ℕ) (m : GenericMsg) :
    genericTo d (d', .generic m) = if d' = d then some (m.instanceId, m.txnId) else none := rfl

lemma genericTo_map {ds : List ℕ} (hnodup : ds.Nodup) (hd : d ∈ ds) (m : GenericMsg) :
    (ds.map fun d' => (d', Msg.generic m)).filterMap (genericTo d) = [(m.instanceId, m.txnId)] := by
  obtain ⟨xs, ys, rfl⟩ := List.append_of_mem hd
  have hother : ∀ zs : List ℕ, d ∉ zs → (zs.map fun d' => (d', Msg.generic m)).filterMap (genericTo d) = [] := by
    intro zs hzs
    rw [List.filterMap_eq_nil_iff]
    intro e he
    obtain ⟨d', hd', rfl⟩ := List.mem_map.mp he
    have hne : d' ≠ d := fun heq => hzs (heq ▸ hd')
    rw [genericTo_generic, if_neg hne]
  obtain ⟨-, hys, hdisj⟩ := List.nodup_append.mp hnodup
  have hxs : d ∉ xs := fun hin => hdisj d hin d List.mem_cons_self rfl
  rw [List.map_append, List.filterMap_append, hother xs hxs, List.map_cons, List.filterMap_cons, genericTo_generic,
    if_pos rfl, hother ys (List.nodup_cons.mp hys).1]
  rfl

lemma genericsTo_of_append {l : List (ℕ × Msg)} (h : s.out = r.out ++ l) (hl : ∀ e ∈ l, genericTo d e = none) :
    s.genericsTo d = r.genericsTo d := by
  rw [genericsTo, h, List.filterMap_append, List.filterMap_eq_nil_iff.mpr hl, List.append_nil, genericsTo]

def Broadcasts (cfg : Config) (r : Replica) : Prop := ∀ d ∈ r.others cfg, r.genericsTo d = r.generics

lemma Broadcasts.move (h : Broadcasts cfg r) (hm : Move cfg crypto P Q B r₀ r s) : Broadcasts cfg s := by
  have hothers : s.others cfg = r.others cfg := by rw [others, hm.nodeId, others]
  intro d hd
  rw [hothers] at hd
  rcases hm.generics with heq | ⟨id, -, -, -, -, rfl⟩
  swap
  · have hout : (r.announceGeneric cfg crypto id).out =
        r.out ++ (r.others cfg).map fun d' => (d', Msg.generic (r.genericOf crypto id)) := rfl
    rw [genericsTo, hout, List.filterMap_append, genericTo_map (others_nodup cfg r) hd, announceGeneric_generics]
    exact congrArg (· ++ _) (h d hd)
  rw [heq, ← h d hd]
  cases hm with
  | idle hidle => rw [genericsTo, hidle.out, genericsTo]
  | proposal => rfl
  | @generic _ m =>
    simp only [lockGeneric]
    split_ifs
    · rw [genericsTo, updateLockQC_out]
      rfl
    · rfl
  | @vote _ id =>
    rcases sendHotstuffNewview_cases cfg crypto r id with ⟨_, hsame⟩ | ⟨_, hc⟩
    · rw [hsame]
    · obtain ⟨l, hl, hlo⟩ := hc.out
      refine genericsTo_of_append hl fun e he => ?_
      obtain ⟨_, share, hsync⟩ := hlo e he
      rw [← Prod.mk.eta (p := e), hsync]
      rfl
  | @count m =>
    simp only [countVote, bindTxnid]
    split_ifs <;> rfl
  | advance _ _ _ ha => rw [genericsTo, advanceView_out ha, genericsTo]
  | batch =>
    refine genericsTo_of_append rfl fun e he => ?_
    obtain ⟨d', -, rfl⟩ := List.mem_map.mp he
    rfl
  | @announce _ id =>
    rw [announceGeneric_generics] at heq
    exact absurd (congrArg List.length heq) (by simp)
  | execute => rfl
  | recycle => rfl

lemma broadcasts_reach {p : ℕ} (h : Reach (step cfg crypto) (Genuine cfg) (init cfg p) r) : Broadcasts cfg r := by
  apply Reach.moves_invariant (P := fun _ => True) (I := Broadcasts cfg) _ (fun _ => rfl) _ _ h
  · exact fun r e he => Genuine.supplies he
  · exact fun _ _ => rfl
  · intro r₀ r s hm hr
    exact hr.move hm

end Broadcast

def AllAnnounced (cfg : Config) (r : Replica) : Prop :=
  ∀ e ∈ r.proposals, r.generics.count (e.instanceId, cfg.lastTxn e.view e.instanceId) = 1

structure Announces (cfg : Config) (crypto : Crypto) (r : Replica) : Prop where
  formed : ∀ i id, r.threads.generic = .formed i id → Due cfg r i id
  held : ∀ id, r.Held id → Due cfg r (cfg.instOf id) id ∧ ∃ s, r.handleGenericP cfg crypto id = some s
  once : r.generics.Nodup
  proposed : ∀ i id, (i, id) ∈ r.generics → ∃ e ∈ r.proposals, e.instanceId = i ∧ id = cfg.lastTxn e.view i
  broadcast : ∀ d ∈ r.others cfg, r.genericsTo d = r.generics
  rest : (∀ e, e.OfSender → r.step cfg crypto e = none) → r.AllAnnounced cfg

lemma Followed.allAnnounced (hf : Followed cfg r)
    (h : ∀ e ∈ r.proposals, (e.instanceId, cfg.lastTxn e.view e.instanceId) ∈ r.generics) : r.AllAnnounced cfg :=
  fun e he => List.count_eq_one_of_mem hf.once (h e he)

lemma Followed.formed_due (hf : Followed cfg r) (hs : Steady cfg r) (ha : Announcing cfg r) (ht : Tracked cfg r)
    {i id : ℕ} (hpc : r.threads.generic = .formed i id) : Due cfg r i id := by
  obtain ⟨hi, hpos, hid⟩ := hs.paired.formed i id hpc
  have hwork : r.threads.proposal.work cfg i < r.pending cfg i := by
    rw [pending]
    omega
  rw [hid, (hs.paired.pending i hi (by omega)).view]
  exact hf.due hs ha ht hi hwork

end Replica

namespace System

variable {cfg : Config} {crypto : Crypto} {S T : System}

def Sending (cfg : Config) (p : ℕ) (S : System) (e : Event) : Prop :=
  Allowed cfg ∅ S e ∧ ∃ a, e = .act p a ∧ a.OfSender

lemma sending_step {p : ℕ} (hp : p < cfg.nodeCnt) {a : Replica.Event} (ha : a.OfSender) {r : Replica}
    (hr : (S p).step cfg crypto a = some r) :
    Sending cfg p S (.act p a) ∧ step cfg crypto S (.act p a) = some (Function.update S p r) := by
  cases a with
  | proposalThread i j =>
    exact ⟨⟨⟨hp, Finset.notMem_empty p, trivial⟩, _, rfl, ha⟩, by simp [step, Event.local, Event.node, hr]⟩
  | genericThread i busy =>
    exact ⟨⟨⟨hp, Finset.notMem_empty p, trivial⟩, _, rfl, ha⟩, by simp [step, Event.local, Event.node, hr]⟩
  | workerGenericP k =>
    exact ⟨⟨⟨hp, Finset.notMem_empty p, trivial⟩, _, rfl, ha⟩, by simp [step, Event.local, Event.node, hr]⟩
  | _ => exact ha.elim

lemma announces_all (h : Reachable cfg crypto ∅ S) {p : ℕ} (hp : p < cfg.nodeCnt) :
    ∃ T, Reach (step cfg crypto) (Sending cfg p) S T ∧ (T p).proposals = (S p).proposals ∧ (T p).AllAnnounced cfg := by
  obtain ⟨n, hn⟩ : ∃ n, (S p).unfinished cfg = n := ⟨_, rfl⟩
  induction n using Nat.strong_induction_on generalizing S with
  | _ n ih =>
    have hreach := reaches_digest h p hp
    have hsteady := (Replica.calm_reach hp hreach).steady
    have hf := Replica.followed_reach hp hreach
    by_cases hall : ∀ e ∈ (S p).proposals, (e.instanceId, cfg.lastTxn e.view e.instanceId) ∈ (S p).generics
    · exact ⟨S, .start, rfl, hf.allAnnounced hall⟩
    · push Not at hall
      obtain ⟨e, he, hun⟩ := hall
      obtain ⟨a, r, hsender, hr, hlt, hsame⟩ := (Replica.advancing_of_unannounced hsteady hf
        (Replica.announcing_reach hp hreach) (Replica.tracked_reach hp hreach) crypto (Replica.tokens_reach hp hreach) he hun).next
      obtain ⟨hok, hs⟩ := sending_step hp hsender hr
      have hup : Function.update S p r p = r := Function.update_self ..
      obtain ⟨T, hT, hprop, hann⟩ := ih _ (hn ▸ hlt) (h.next _ hok.1 hs) (by rw [hup])
      refine ⟨T, (Reach.next _ .start hok hs).trans hT, ?_, hann⟩
      rw [hprop, hup, hsame]

end System

theorem proposals_announced (cfg : Config) (crypto : Crypto) {S : System} (h : System.Reachable cfg crypto ∅ S) {p : ℕ}
    (hp : p < cfg.nodeCnt) : (S p).Announces cfg crypto ∧
      ∃ T, Reach (System.step cfg crypto) (System.Sending cfg p) S T ∧ (T p).proposals = (S p).proposals ∧
        (T p).AllAnnounced cfg := by
  have hreach := System.reaches_digest h p hp
  have hsteady := (Replica.calm_reach hp hreach).steady
  have hf := Replica.followed_reach hp hreach
  have ha := Replica.announcing_reach hp hreach
  have ht := Replica.tracked_reach hp hreach
  refine ⟨⟨fun i id => hf.formed_due hsteady ha ht, ?_, hf.once, ?_,
    Replica.broadcasts_reach (System.reach_replica h hp), ?_⟩, System.announces_all h hp⟩
  · intro id hid
    have hdue := hf.due_held hsteady ha ht hid
    exact ⟨hdue, Replica.handleGenericP_some cfg crypto hdue.hash⟩
  · intro i id hg
    obtain ⟨w, batch, hash, hid, ho⟩ := hf.backed i id hg
    exact ⟨_, Replica.mem_proposals ho, rfl, hid⟩
  · intro hstuck
    refine hf.allAnnounced fun e he => ?_
    by_contra hun
    obtain ⟨a, r, hsender, hr, _⟩ := (Replica.advancing_of_unannounced hsteady hf ha ht crypto
      (Replica.tokens_reach hp hreach) he hun).next
    rw [hstuck a hsender] at hr
    cases hr

theorem proposals_announced_two_views :
    ∃ S, System.Reachable .fourReplicas .transparent ∅ S ∧ (S 1).proposals.length = 1 ∧
      (S 1).Announces .fourReplicas .transparent ∧
      ∃ T, Reach (System.step .fourReplicas .transparent) (System.Sending .fourReplicas 1) S T ∧
        (T 1).proposals = (S 1).proposals ∧ (T 1).AllAnnounced .fourReplicas := by
  obtain ⟨S, hS, hp⟩ := exists_reach_of_runWith (System.step .fourReplicas .transparent)
    (System.Allowed .fourReplicas ∅) (System.init .fourReplicas) (System.twoViews 1 2)
    (fun S => decide ((S 1).proposals.length = 1)) (by decide +kernel)
  exact ⟨S, hS, of_decide_eq_true hp, proposals_announced .fourReplicas .transparent hS (by decide)⟩

end SpotLess
