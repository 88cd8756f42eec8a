import SpotLess.Replication
import SpotLess.Standing

/-! What a run without faulty replicas comes to when nothing is left to do: every message delivered, every queue
served, no thread with anything to take up. All replicas are then in the same views, have left the slot of every
proposal, and have executed the same batches. -/

namespace SpotLess

open Lib

namespace Replica

variable {cfg : Config} {crypto : Crypto} {H : ℕ → ℕ → Bytes} {P : Msg → Prop} {Q : ℕ → Prop}
  {B : ℕ → ClientQueryBatch → Prop} {r₀ r s : Replica} {e : Event} {p w i : ℕ}

lemma step_out (he : Genuine cfg r e) (hs : r.step cfg crypto e = some s) : ∃ l, s.out = r.out ++ l := by
  have hmoves : Moves cfg crypto (fun _ => True) (fun _ => True) (fun _ _ => True) r r s :=
    step_moves (Genuine.supplies he) (fun _ _ _ => trivial) (fun _ _ => trivial) hs
  apply hmoves.invariant (I := fun s => ∃ l, s.out = r.out ++ l)
  · rintro u v huv ⟨l, hl⟩
    obtain ⟨l', hl'⟩ := huv.out
    exact ⟨l ++ l', by rw [hl', hl, List.append_assoc]⟩
  · exact ⟨[], by simp⟩

section Queue

-- An EXECUTE stays in the queue until its turn has passed.
def Owed (r : Replica) : Prop :=
  ∀ i, ∀ m ∈ r.executions i, m ∈ r.exec.queue ∨ m.txnId < r.exec.expectedExecuteCount

lemma owed_pop {x y : Executor} {k : ℕ} {table : ℕ → TxnManager} (hlt : x.nextIndex < x.expectedExecuteCount)
    (hs : x.step cfg (.pop k table) = some y) {m : ExecuteMsg}
    (h : m ∈ x.queue ∨ m.txnId < x.expectedExecuteCount) : m ∈ y.queue ∨ m.txnId < y.expectedExecuteCount := by
  simp only [Executor.step] at hs
  split at hs
  swap
  · cases hs
  rename_i m' hget
  have hkeep : m ∈ x.queue → m = m' ∨ m ∈ x.queue.eraseIdx k := by
    intro hmem
    obtain ⟨hk, rfl⟩ := List.getElem?_eq_some_iff.mp hget
    obtain ⟨j, hj, rfl⟩ := List.mem_iff_getElem.mp hmem
    by_cases hjk : j = k
    · subst hjk
      exact .inl rfl
    · exact .inr (List.mem_eraseIdx_iff_getElem.mpr ⟨j, hj, hjk, rfl⟩)
  simp only [Executor.handle] at hs
  split_ifs at hs with hlate hturn hrange
  · obtain rfl := Option.some.inj hs
    rcases h with hmem | hold
    · rcases hkeep hmem with rfl | hmem
      · exact .inr (hlate.trans_lt hlt)
      · exact .inl hmem
    · exact .inr hold
  · obtain rfl := Option.some.inj hs
    rcases h with hmem | hold
    · rcases hkeep hmem with rfl | hmem
      · exact .inl (List.mem_append_right _ (List.mem_singleton_self _))
      · exact .inl (List.mem_append_left _ hmem)
    · exact .inr hold
  · obtain rfl := Option.some.inj hs
    have hb := cfg.batchSize_pos
    have hcount : x.expectedExecuteCount < cfg.batchSize + m'.txnId := by
      have := not_not.mp hturn
      omega
    simp only [Executor.processExecute]
    rcases h with hmem | hold
    · rcases hkeep hmem with rfl | hmem
      · right
        split_ifs <;> dsimp only <;> omega
      · left
        split_ifs <;> exact hmem
    · right
      split_ifs <;> dsimp only <;> omega

lemma Owed.move (h : Owed r) (ht : Tracked cfg r) (hm : Move cfg crypto P Q B r₀ r s) : Owed s := by
  rcases hm.emits with ⟨i, ids, htrace, hexec⟩ | ⟨k, hpop, htrace⟩
  · intro j m hmem
    rw [htrace] at hmem
    rw [hexec]
    rcases List.mem_append.mp hmem with hmem | hmem
    · exact (h j m hmem).imp_left (List.mem_append_left _)
    · split_ifs at hmem
      · exact .inl (List.mem_append_right _ hmem)
      · cases hmem
  · intro j m hmem
    rw [htrace] at hmem
    obtain ⟨c, hnext, hexpected, _⟩ := ht.turn
    have hb := cfg.five_le_batch
    exact owed_pop (by omega) hpop (h j m hmem)

lemma owed_reach (hp : p < cfg.nodeCnt)
    (h : Reach (step cfg crypto) (FaultFree cfg crypto H) (init cfg p) r) : Owed r := by
  have hboth : Tracked cfg r ∧ Owed r := by
    apply calm_invariant (I := fun r => Tracked cfg r ∧ Owed r) hp _ _ h
    · exact ⟨tracked_init p, fun i m hm => by simp [executions, init] at hm⟩
    · rintro r₀ r s _ _ _ hm ⟨ht, h⟩
      exact ⟨ht.move hm, h.move ht hm⟩
  exact hboth.2

end Queue

structure Known (cfg : Config) (H : ℕ → ℕ → Bytes) (r : Replica) : Prop where
  tidy : Tidy cfg H r
  own : OwnGenerics cfg r
  followed : Followed cfg r
  leading : Leading cfg r
  standing : Standing cfg H r
  settled : ∀ i < cfg.totInstances, ∀ w, (r.inst i).view ≤ w → (r.table (cfg.lastTxn w i)).Settled
  owed : Owed r

lemma known_reach (hnf : 1 < cfg.nf) (hapart : Apart cfg H) (hp : p < cfg.nodeCnt)
    (h : Reach (step cfg crypto) (FaultFree cfg crypto H) (init cfg p) r) : Known cfg H r :=
  ⟨tidy_reach hapart hp h, ownGenerics_reach hp h, followed_reach hp h, leading_reach hp h, standing_reach hapart hp h,
    fun _ hi _ hw => settled_reach hnf hapart hp h hi hw, owed_reach hp h⟩

lemma Pipelined.mem_executions (h : Pipelined cfg H r) (hi : i < cfg.totInstances) :
    (∃ j, ExecuteMsg.copyFromTxn cfg (cfg.lastTxn w i) ∈ r.executions j) ↔ w + 2 < (r.inst i).view := by
  constructor
  · rintro ⟨j, hj⟩
    rw [h.executions, List.mem_map] at hj
    obtain ⟨k, hk, heq⟩ := hj
    obtain rfl := ExecuteMsg.copyFromTxn_injective cfg heq
    rw [emitted] at hk
    split_ifs at hk with hv
    · cases hk
    · have hj : j < cfg.totInstances := by
        by_contra hge
        have := h.unused j (Nat.le_of_not_lt hge)
        omega
      rcases List.mem_cons.mp hk with hzero | hk
      · have hb := cfg.five_le_batch
        have := cfg.lastTxn_add_one w i
        omega
      · obtain ⟨v, hlt, heq⟩ := List.mem_map.mp hk
        obtain ⟨rfl, rfl⟩ := cfg.lastTxn_inj hj hi heq
        have := List.mem_range.mp hlt
        omega
  · intro hview
    refine ⟨i, ?_⟩
    rw [h.executions, emitted, if_neg (by omega)]
    refine List.mem_map_of_mem (List.mem_cons_of_mem 0 (List.mem_map.mpr ⟨w, ?_, rfl⟩))
    exact List.mem_range.mpr (by omega)

lemma Known.executed_iff (h : Known cfg H r) (hqueue : ∀ m ∈ r.exec.queue, m.txnId ≠ r.exec.expectedExecuteCount)
    (c : ℕ) : c * cfg.batchSize < r.exec.nextIndex ↔
      ∀ c' ≤ c, c' / cfg.totInstances + 2 < (r.inst (c' % cfg.totInstances)).view := by
  obtain ⟨k, hnext, hexpected, hran⟩ := h.tidy.tracked.turn
  have hb := cfg.five_le_batch
  have hmem : ∀ c', (∃ j, ExecuteMsg.copyFromTxn cfg (c' * cfg.batchSize + cfg.batchSize - 1) ∈ r.executions j) ↔
      c' / cfg.totInstances + 2 < (r.inst (c' % cfg.totInstances)).view := by
    intro c'
    have hslot : cfg.slot (c' / cfg.totInstances) (c' % cfg.totInstances) = c' := Nat.div_add_mod' c' cfg.totInstances
    have hlast : cfg.lastTxn (c' / cfg.totInstances) (c' % cfg.totInstances) =
        cfg.slot (c' / cfg.totInstances) (c' % cfg.totInstances) * cfg.batchSize + cfg.batchSize - 1 := rfl
    rw [← h.tidy.pipelined.mem_executions (Nat.mod_lt c' cfg.instances_pos), hlast, hslot]
  have hlt : c * cfg.batchSize < r.exec.nextIndex ↔ c < k := by
    rw [hnext]
    exact Nat.mul_lt_mul_right cfg.batchSize_pos
  rw [hlt]
  constructor
  · intro hck c' hc'
    exact (hmem c').mp (hran c' (by omega))
  · intro hall
    by_contra hge
    obtain ⟨j, hj⟩ := (hmem k).mpr (hall k (Nat.le_of_not_lt hge))
    have htxn : (ExecuteMsg.copyFromTxn cfg (k * cfg.batchSize + cfg.batchSize - 1)).txnId =
        r.exec.expectedExecuteCount := by
      rw [hexpected, ExecuteMsg.copyFromTxn, sub64]
      dsimp only
      split_ifs <;> omega
    rcases h.owed j _ hj with hin | hdone
    · exact hqueue _ hin htxn
    · omega

lemma Known.not_executed (h : Known cfg H r) (hi : i < cfg.totInstances) (hw : (r.inst i).view ≤ w) :
    r.exec.nextIndex < cfg.lastTxn w i :=
  h.tidy.pipelined.not_executed h.tidy.tracked hi (by omega)

end Replica

lemma Config.one_lt_nf {cfg : Config} (h : 2 < cfg.nodeCnt) : 1 < cfg.nf := by
  simp only [nf, minInvalidNodes]
  split_ifs <;> omega

namespace System

variable {cfg : Config} {crypto : Crypto} {S T : System} {es : List Event} {p q w i : ℕ}

def Event.relay? : Event → Option (ℕ × ℕ × ℕ)
  | .relay p q k => some (p, q, k)
  | _ => none

def relayed (es : List Event) : List (ℕ × ℕ × ℕ) := es.filterMap Event.relay?

lemma mem_relayed {k : ℕ} : (p, q, k) ∈ relayed es ↔ .relay p q k ∈ es := by
  rw [relayed, List.mem_filterMap]
  constructor
  · rintro ⟨e, he, heq⟩
    cases e with
    | relay =>
      obtain ⟨rfl, rfl, rfl⟩ : _ = p ∧ _ = q ∧ _ = k := by simpa [Event.relay?] using heq
      exact he
    | _ => cases heq
  · exact fun he => ⟨_, he, rfl⟩

-- Nothing is left to do after the run `es`: every message sent has been delivered, the prior queues are empty, no
-- sending thread can take a step and no EXECUTE in the queue is the next one.
structure AtRest (cfg : Config) (crypto : Crypto) (es : List Event) (S : System) : Prop where
  delivered : ∀ q < cfg.nodeCnt, ∀ k d m, (S q).out[k]? = some (d, m) → (d, q, k) ∈ relayed es
  replayed : ∀ p < cfg.nodeCnt, ∀ i < cfg.totInstances, ((S p).inst i).priorQueue = []
  stuck : ∀ p < cfg.nodeCnt, ∀ e : Replica.Event, e.OfSender → (S p).step cfg crypto e = none
  executed : ∀ p < cfg.nodeCnt, ∀ m ∈ (S p).exec.queue, m.txnId ≠ (S p).exec.expectedExecuteCount

lemma out_mono (hS : Reachable cfg crypto ∅ S) (h : Reach (step cfg crypto) (Allowed cfg ∅) S T)
    (hq : q < cfg.nodeCnt) : ∃ l, (T q).out = (S q).out ++ l := by
  have hreach := (reaches_from hS h (fits_digest (hS.trans h))).2 q hq
  apply hreach.invariant (fun r => ∃ l, r.out = (S q).out ++ l) ⟨[], by simp⟩
  rintro r e s _ he hs ⟨l, hl⟩
  obtain ⟨l', hl'⟩ := Replica.step_out he.genuine hs
  exact ⟨l ++ l', by rw [hl', hl, List.append_assoc]⟩

lemma mem_others_of_ne (hS : Reachable cfg crypto ∅ S) (hp : p < cfg.nodeCnt) (hne : p ≠ q) (hq : q < cfg.nodeCnt) :
    p ∈ (S q).others cfg := by
  have hself := Replica.nodeId_reach cfg crypto (reaches_digest hS q hq)
  exact (Replica.mem_others cfg (S q)).mpr ⟨hp, hself.symm ▸ hne⟩

lemma announced_of_vote (hS : Reachable cfg crypto ∅ S) (hn : 1 < cfg.nodeCnt) {id : ℕ} (hq : q < cfg.nodeCnt)
    (hvote : id ∈ (S q).ballots.map Prod.fst) : Announced cfg S id := by
  obtain ⟨d, hd, hne⟩ : ∃ d < cfg.nodeCnt, d ≠ q := by
    by_cases hzero : q = 0
    · exact ⟨1, hn, by omega⟩
    · exact ⟨0, by omega, Ne.symm hzero⟩
  have hone := (Replica.announced_reach (reach_replica hS hq)).2 d id
  rw [if_pos ⟨hvote, mem_others_of_ne hS hd hne hq⟩] at hone
  obtain ⟨m, hm⟩ := List.length_pos_iff_exists_mem.mp (hone ▸ Nat.one_pos)
  obtain ⟨⟨d', m'⟩, hmem, heq⟩ := List.mem_filterMap.mp hm
  cases m' with
  | sync m' =>
    simp only [Replica.syncTo?] at heq
    split_ifs at heq with hto
    have htold := ((reaches_faultFree hS (fits_digest hS)).2 q hq).out _ hmem (by simp)
    exact hto.2 ▸ htold
  | _ => cases heq

section Rest

variable (h : Run (step cfg crypto) (Allowed cfg ∅) (init cfg) es S) (hrest : AtRest cfg crypto es S)
  (hapart : Apart cfg S)

include h hrest hapart

lemma AtRest.retained (hq : q < cfg.nodeCnt) {m : Msg} (hmem : (p, m) ∈ (S q).out) : (S p).Retained m := by
  obtain ⟨k, hk⟩ := List.mem_iff_getElem?.mp hmem
  obtain ⟨T, U, hT, hok, hs, hU⟩ := h.split (mem_relayed.mp (hrest.delivered q hq k p m hk))
  have hm : (Event.relay p q k).local T = some (.deliver m) := by
    obtain ⟨a, _, ha, _, _⟩ := step_cases hs
    simp only [Event.local] at ha ⊢
    split at ha
    · rename_i d m' hout
      split_ifs at ha with hd
      -- the entry relayed then is the one that is there now
      obtain ⟨l, hl⟩ := out_mono hT ((Reach.next _ .start hok hs).trans hU) hq
      rw [hl, List.getElem?_append_left (List.getElem?_eq_some_iff.mp hout).1, hout] at hk
      obtain ⟨rfl, rfl⟩ := Prod.mk.inj (Option.some.inj hk)
      exact if_pos rfl
    · cases ha
  exact retained_of_delivered hT hok hs hm hU hapart

variable (hn : 2 < cfg.nodeCnt) (hp : p < cfg.nodeCnt)

omit hrest in
include hn hp in
lemma known : (S p).Known cfg (S.digest cfg) :=
  Replica.known_reach (Config.one_lt_nf hn) hapart.digest hp (reaches_digest h.reach p hp)

include hn hp

lemma AtRest.noted (hq : q < cfg.nodeCnt) {m : Msg} (hmem : (p, m) ∈ (S q).out) (hpassed : ¬ (S p).Passed m)
    (hcur : ∀ g, m = .generic g → g.view ≤ ((S p).inst g.instanceId).view) : (S p).Noted m := by
  rcases hrest.retained h hapart hq hmem with hold | hqueued | hnoted
  · exact absurd hold hpassed
  · cases m with
    | generic g =>
      have hle := hcur g rfl
      have hi := (honest_out (reaches_digest h.reach) hp hq hmem).peer.wellFormed
      rcases List.mem_append.mp hqueued with hprior | htemp
      · rw [hrest.replayed p hp _ hi] at hprior
        cases hprior
      · have hlt := (known h hapart hn hp).tidy.waiting _ g htemp
        omega
    | _ => exact hqueued.elim
  · exact hnoted

variable (hi : i < cfg.totInstances) (hview : ((S p).inst i).view = w)

include hi hview

lemma AtRest.generic (hann : Announced cfg S (cfg.lastTxn w i)) :
    ((S p).table (cfg.lastTxn w i)).genericReceived = true := by
  have hknown := known h hapart hn hp
  obtain ⟨q, hq, j, hg⟩ := hann
  have hq' := known h hapart hn hq
  obtain ⟨hj, _, _, hid, _⟩ := hq'.own j _ hg
  obtain ⟨_, rfl⟩ := cfg.lastTxn_inj hi hj hid
  by_cases hpq : p = q
  · subst hpq
    refine (hq'.leading.announced i _ hg).resolve_right ?_
    have := hknown.not_executed hi hview.le
    omega
  · obtain ⟨m, hmem, hm⟩ := hq'.leading.generic i _ hg p (mem_others_of_ne h.reach hp hpq hq)
    have hhonest := honest_out (reaches_digest h.reach) hp hq hmem
    obtain ⟨rfl, rfl⟩ := cfg.lastTxn_inj hhonest.peer.wellFormed hi (hhonest.peer.named.txnId.symm.trans hm)
    have hnoted : ((S p).table m.txnId).genericReceived = true := by
      refine hrest.noted h hapart hn hp hq hmem (Nat.not_lt.mpr hview.le) fun g hg => ?_
      obtain rfl := Msg.generic.inj hg
      exact hview.ge
    rwa [hm] at hnoted

lemma AtRest.proposal (hann : Announced cfg S (cfg.lastTxn w i)) :
    ((S p).table (cfg.lastTxn w i)).proposalReceived = true := by
  have hknown := known h hapart hn hp
  obtain ⟨q, hq, j, hg⟩ := hann
  have hq' := known h hapart hn hq
  obtain ⟨hj, _⟩ := hq'.own j _ hg
  obtain ⟨v, batch, hash, hid, ho⟩ := hq'.followed.backed j _ hg
  obtain ⟨rfl, rfl⟩ := cfg.lastTxn_inj hi hj hid
  by_cases hpq : p = q
  · subst hpq
    refine (hq'.leading.filled i w batch hash ho).resolve_right ?_
    have := hknown.not_executed hi hview.le
    omega
  · obtain ⟨m, hmem, rfl, rfl⟩ := hq'.leading.proposal i w batch hash ho p (mem_others_of_ne h.reach hp hpq hq)
    have hhonest := honest_out (reaches_digest h.reach) hp hq hmem
    have hnoted : ((S p).table (m.txnId + 2)).proposalReceived = true :=
      hrest.noted h hapart hn hp hq hmem (Nat.not_lt.mpr hview.le) (by simp)
    have htxn : m.txnId + 2 = cfg.lastTxn m.view m.instanceId := hhonest.peer.named.txnId
    rwa [htxn] at hnoted

lemma AtRest.counted (hann : Announced cfg S (cfg.lastTxn w i)) (hq : q < cfg.nodeCnt)
    (hvote : cfg.lastTxn w i ∈ (S q).ballots.map Prod.fst) : ((S p).table (cfg.lastTxn w i)).newViewed = true ∨
      q ∈ ((S p).table (cfg.lastTxn w i)).votersOf (S.digest cfg w i) := by
  have hknown := known h hapart hn hp
  have hself := Replica.nodeId_reach cfg crypto (reaches_digest h.reach p hp)
  have htally := hknown.standing.tally i hi w hview.le
  rw [hself] at htally
  by_cases hpq : p = q
  · subst hpq
    right
    rw [htally.own]
    exact (hknown.settled i hi w hview.le).voted (hrest.generic h hapart hn hp hi hview hann)
  · have hone := (Replica.announced_reach (reach_replica h.reach hq)).2 p (cfg.lastTxn w i)
    rw [if_pos ⟨hvote, mem_others_of_ne h.reach hp hpq hq⟩] at hone
    obtain ⟨m, hm⟩ := List.length_pos_iff_exists_mem.mp (hone ▸ Nat.one_pos)
    obtain ⟨⟨d, m'⟩, hmem, heq⟩ := List.mem_filterMap.mp hm
    cases m' with
    | sync m' =>
      simp only [Replica.syncTo?] at heq
      split_ifs at heq with hto
      obtain ⟨rfl, htxn⟩ := hto
      have hhonest := honest_out (reaches_digest h.reach) hp hq hmem
      have hsender : m'.returnNodeId = q :=
        ((Replica.wired_reach hq (reach_replica h.reach hq)).out _ hmem).2.1.trans
          (Replica.nodeId_reach cfg crypto (reaches_digest h.reach q hq))
      obtain ⟨rfl, rfl⟩ := cfg.lastTxn_inj hhonest.peer.wellFormed hi (hhonest.content.1.symm.trans htxn)
      have hnoted : m'.returnNodeId ∈ ((S d).table m'.txnId).voteNewView ∨
          ((S d).table m'.txnId).newViewed = true :=
        hrest.noted h hapart hn hp hq hmem (Nat.not_lt.mpr hview.le) (by simp)
      rw [htxn, hsender] at hnoted
      rcases hnoted with hheard | hviewed
      · exact .inr ((htally.heard q (Ne.symm hpq)).mpr hheard)
      · exact .inl hviewed
    | _ => cases heq

lemma AtRest.not_behind (hann : Announced cfg S (cfg.lastTxn w i)) {voters : List ℕ} (hnodup : voters.Nodup)
    (hlen : cfg.nf ≤ voters.length)
    (hvotes : ∀ q ∈ voters, q < cfg.nodeCnt ∧ cfg.lastTxn w i ∈ (S q).ballots.map Prod.fst) : False := by
  have hknown := known h hapart hn hp
  have htally := hknown.standing.tally i hi w hview.le
  have hviewed : ((S p).table (cfg.lastTxn w i)).newViewed = true := by
    by_contra hnot
    refine hnot (htally.viewed.mpr (hlen.trans ?_))
    refine (hnodup.subperm fun q hq => ?_).length_le
    obtain ⟨hlt, hvote⟩ := hvotes q hq
    exact (hrest.counted h hapart hn hp hi hview hann hlt hvote).resolve_left hnot
  exact (hknown.settled i hi w hview.le).waits ⟨hviewed, hrest.proposal h hapart hn hp hi hview hann,
    hrest.generic h hapart hn hp hi hview hann⟩

omit hp hview

omit hrest in
lemma exists_voters (hq : q < cfg.nodeCnt) (hleft : w < ((S q).inst i).view) : ∃ voters : List ℕ, voters.Nodup ∧
    cfg.nf ≤ voters.length ∧ ∀ v ∈ voters, v < cfg.nodeCnt ∧ cfg.lastTxn w i ∈ (S v).ballots.map Prod.fst := by
  obtain ⟨qc, voters, hmem, hnodup, hlen⟩ := (known h hapart hn hq).standing.certified i hi w hleft
  refine ⟨voters, hnodup, hlen, fun v hv => ?_⟩
  obtain ⟨hlt, hvotes⟩ := votes_of_backed h.reach hq ((voting_reach h.reach q hq).built _ _ _ _ _ hmem v hv)
  exact ⟨hlt, List.mem_map_of_mem (hvotes (Finset.notMem_empty v)).2⟩

lemma AtRest.passes (hann : Announced cfg S (cfg.lastTxn w i)) (hall : ∀ q < cfg.nodeCnt, w ≤ ((S q).inst i).view)
    (hp : p < cfg.nodeCnt) : w < ((S p).inst i).view := by
  by_contra hle
  have hview : ((S p).inst i).view = w := le_antisymm (Nat.le_of_not_lt hle) (hall p hp)
  by_cases hsome : ∃ q < cfg.nodeCnt, w < ((S q).inst i).view
  · obtain ⟨q, hq, hleft⟩ := hsome
    obtain ⟨voters, hnodup, hlen, hvotes⟩ := exists_voters h hapart hn hi hq hleft
    exact hrest.not_behind h hapart hn hp hi hview hann hnodup hlen hvotes
  · -- everybody is in the view, and so has voted
    have hnone : ∀ q < cfg.nodeCnt, ((S q).inst i).view = w := fun q hq =>
      le_antisymm (Nat.le_of_not_lt fun hlt => hsome ⟨q, hq, hlt⟩) (hall q hq)
    refine hrest.not_behind h hapart hn hp hi hview hann (List.nodup_range (n := cfg.nodeCnt)) ?_ fun q hq => ?_
    · rw [List.length_range]
      exact Nat.sub_le _ _
    · have hq := List.mem_range.mp hq
      refine ⟨hq, ?_⟩
      have hknown := known h hapart hn hq
      have hgeneric := hrest.generic h hapart hn hq hi (hnone q hq) hann
      have hvoted := (hknown.settled i hi w (hnone q hq).le).voted hgeneric
      have htally := hknown.standing.tally i hi w (hnone q hq).le
      have hself := Replica.nodeId_reach cfg crypto (reaches_digest h.reach q hq)
      rw [hself] at htally
      have hbacked := (voting_reach h.reach q hq).counted _ _ q (htally.own.mpr hvoted)
      exact List.mem_map_of_mem ((votes_of_backed h.reach hq hbacked).2 (Finset.notMem_empty q)).2

lemma AtRest.exists_view : ∃ v, (∀ q < cfg.nodeCnt, ((S q).inst i).view = v) ∧ ¬ Announced cfg S (cfg.lastTxn v i) := by
  obtain ⟨p, hp, hmin⟩ := Finset.exists_min_image (Finset.range cfg.nodeCnt) (fun q => ((S q).inst i).view)
    ⟨0, Finset.mem_range.mpr (by omega)⟩
  have hp := Finset.mem_range.mp hp
  have hall : ∀ q < cfg.nodeCnt, ((S p).inst i).view ≤ ((S q).inst i).view := fun q hq =>
    hmin q (Finset.mem_range.mpr hq)
  have hnot : ¬ Announced cfg S (cfg.lastTxn ((S p).inst i).view i) := fun hann =>
    absurd (hrest.passes h hapart hn hi hann hall hp) (lt_irrefl _)
  refine ⟨((S p).inst i).view, fun q hq => ?_, hnot⟩
  by_contra hne
  have hleft := lt_of_le_of_ne (hall q hq) (Ne.symm hne)
  obtain ⟨voters, _, hlen, hvotes⟩ := exists_voters h hapart hn hi hq hleft
  obtain ⟨v, hv⟩ := List.exists_mem_of_length_pos (cfg.nf_pos.trans_le hlen)
  obtain ⟨hlt, hvote⟩ := hvotes v hv
  exact hnot (announced_of_vote h.reach (by omega) hlt hvote)

omit hi

include hp

omit hapart hn in
lemma AtRest.announced {x : Proposal} (hx : x ∈ (S p).proposals) :
    (x.instanceId, cfg.lastTxn x.view x.instanceId) ∈ (S p).generics := by
  have hreach := reaches_digest h.reach p hp
  by_contra hun
  obtain ⟨a, r, hsender, hr, _⟩ := (Replica.advancing_of_unannounced (Replica.calm_reach hp hreach).steady
    (Replica.followed_reach hp hreach) (Replica.announcing_reach hp hreach) (Replica.tracked_reach hp hreach) crypto
    (Replica.tokens_reach hp hreach) hx hun).next
  rw [hrest.stuck p hp a hsender] at hr
  cases hr

lemma AtRest.passed {x : Proposal} (hx : x ∈ (S p).proposals) (hq : q < cfg.nodeCnt) :
    x.view < ((S q).inst x.instanceId).view := by
  have hreach := reaches_digest h.reach p hp
  have hx' := ((Replica.calm_reach hp hreach).steady.alloc.past x hx).1
  have hann := hrest.announced h hp hx
  obtain ⟨v, hviews, hnot⟩ := hrest.exists_view h hapart hn hx'
  obtain ⟨_, u, hu, hid, _⟩ := Replica.ownGenerics_reach hp hreach _ _ hann
  obtain ⟨rfl, _⟩ := cfg.lastTxn_inj hx' hx' hid
  rw [hviews p hp] at hu
  rw [hviews q hq]
  refine lt_of_le_of_ne hu fun heq => hnot ?_
  rw [← heq]
  exact ⟨p, hp, _, hann⟩

lemma AtRest.views_eq (hq : q < cfg.nodeCnt) (i : ℕ) : ((S p).inst i).view = ((S q).inst i).view := by
  by_cases hi : i < cfg.totInstances
  · obtain ⟨v, hviews, _⟩ := hrest.exists_view h hapart hn hi
    rw [hviews p hp, hviews q hq]
  · have hout := Nat.le_of_not_lt hi
    rw [(known h hapart hn hp).tidy.pipelined.unused i hout, (known h hapart hn hq).tidy.pipelined.unused i hout]

lemma AtRest.executed_iff (hq : q < cfg.nodeCnt) (c : ℕ) : c * cfg.batchSize < (S p).exec.nextIndex ↔
    ∀ c' ≤ c, c' / cfg.totInstances + 2 < ((S q).inst (c' % cfg.totInstances)).view := by
  rw [(known h hapart hn hp).executed_iff (hrest.executed p hp)]
  simp only [hrest.views_eq h hapart hn hp hq]

lemma AtRest.nextIndex_le (hq : q < cfg.nodeCnt) : (S p).exec.nextIndex ≤ (S q).exec.nextIndex := by
  obtain ⟨k, hk, _⟩ := (known h hapart hn hp).tidy.tracked.turn
  obtain ⟨k', hk', _⟩ := (known h hapart hn hq).tidy.tracked.turn
  rw [hk, hk']
  refine Nat.mul_le_mul_right _ (Nat.le_of_not_lt fun hlt => ?_)
  have hboth : k' * cfg.batchSize < (S p).exec.nextIndex ↔ k' * cfg.batchSize < (S q).exec.nextIndex :=
    (hrest.executed_iff h hapart hn hp hq k').trans (hrest.executed_iff h hapart hn hq hq k').symm
  rw [hk, hk', Nat.mul_lt_mul_right cfg.batchSize_pos] at hboth
  exact absurd (hboth.mp hlt) (lt_irrefl _)

end Rest

structure Converged (cfg : Config) (S : System) (p q : ℕ) : Prop where
  views : ∀ i, ((S p).inst i).view = ((S q).inst i).view
  passed : ∀ x ∈ (S p).proposals, x.view < ((S q).inst x.instanceId).view
  executed : ∀ c, c * cfg.batchSize < (S p).exec.nextIndex ↔
    ∀ c' ≤ c, c' / cfg.totInstances + 2 < ((S q).inst (c' % cfg.totInstances)).view
  commands : (S p).commands = (S q).commands
  responses : (S p).exec.responses = (S q).exec.responses

-- At rest all replicas are where the furthest one is: nothing that was proposed has been left behind.
theorem replicas_converge (h : Run (step cfg crypto) (Allowed cfg ∅) (init cfg) es S)
    (hrest : AtRest cfg crypto es S) (hapart : Apart cfg S) (hn : 2 < cfg.nodeCnt) (hp : p < cfg.nodeCnt)
    (hq : q < cfg.nodeCnt) : Converged cfg S p q := by
  have hnext : (S p).exec.nextIndex = (S q).exec.nextIndex :=
    le_antisymm (hrest.nextIndex_le h hapart hn hp hq) (hrest.nextIndex_le h hapart hn hq hp)
  have hrun := executed_reach h.reach hapart hp
  have hrun' := executed_reach h.reach hapart hq
  have hcommands : (S p).commands.length = (S q).commands.length := by rw [hrun.length, hrun'.length, hnext]
  have hresponses : (S p).exec.responses.length = (S q).exec.responses.length := by
    rw [hrun.count, hrun'.count] at hnext
    exact Nat.eq_of_mul_eq_mul_right cfg.batchSize_pos hnext
  refine ⟨hrest.views_eq h hapart hn hp hq, fun x hx => hrest.passed h hapart hn hp hx hq,
    hrest.executed_iff h hapart hn hp hq, ?_, ?_⟩
  · exact (hrun.commands.shorter hrun'.commands hcommands.le).eq_of_length hcommands
  · exact (hrun.responses.shorter hrun'.responses hresponses.le).eq_of_length hresponses

section Sample

def idle (r : Replica) : Bool :=
  match r.threads.proposal, r.threads.generic with
  | .idle, .idle => decide (r.sems.batchWork = 0 ∧ r.sems.genericWork = 0 ∧ r.threads.requeued = [])
  | _, _ => false

lemma stuck_of_idle {r : Replica} (hr : idle r = true) {e : Replica.Event} (he : e.OfSender) :
    r.step cfg crypto e = none := by
  rw [idle] at hr
  split at hr
  · rename_i hprop hgen
    obtain ⟨hbatch, hwork, hrequeued⟩ := of_decide_eq_true hr
    cases e with
    | proposalThread i j => simp [Replica.step, Replica.proposalStep, hprop, hbatch]
    | genericThread i busy => simp [Replica.step, Replica.genericStep, hgen, hwork]
    | workerGenericP k => simp [Replica.step, Replica.workerGenericP, hrequeued]
    | _ => exact he.elim
  · cases hr

def AllDone (cfg : Config) (es : List Event) (S : System) : Prop :=
  ∀ p < cfg.nodeCnt, (∀ x ∈ (S p).out.zipIdx, (x.1.1, p, x.2) ∈ relayed es) ∧
    (∀ i < cfg.totInstances, ((S p).inst i).priorQueue.isEmpty) ∧ idle (S p) = true ∧
    ∀ m ∈ (S p).exec.queue, m.txnId ≠ (S p).exec.expectedExecuteCount

instance : Decidable (AllDone cfg es S) := inferInstanceAs (Decidable (∀ p < cfg.nodeCnt, _ ∧ _ ∧ _ ∧ _))

lemma AllDone.atRest (h : AllDone cfg es S) (crypto : Crypto) : AtRest cfg crypto es S where
  delivered q hq k d m hk := (h q hq).1 ((d, m), k) (List.mem_zipIdx_iff_getElem?.mpr hk)
  replayed p hp i hi := List.isEmpty_iff.mp ((h p hp).2.1 i hi)
  stuck p hp _ he := stuck_of_idle (h p hp).2.2.1 he
  executed p hp := (h p hp).2.2.2

-- Three slots are filled and certified, and every replica runs the first one.
def threeSlots : List Event :=
  fillSlot 0 1 ++ relays [(1, 0, 0), (2, 0, 1), (3, 0, 2), (1, 0, 3), (2, 0, 4), (3, 0, 5), (1, 0, 6), (2, 0, 7),
    (3, 0, 8), (0, 1, 0), (2, 1, 1), (3, 1, 2), (1, 2, 0), (0, 2, 1), (3, 2, 2), (1, 3, 0), (0, 3, 1), (2, 3, 2)] ++
  fillSlot 1 2 ++ relays [(0, 1, 3), (2, 1, 4), (3, 1, 5), (0, 1, 6), (2, 0, 9), (1, 0, 10), (3, 0, 11), (2, 1, 7),
    (3, 1, 8), (2, 1, 9), (0, 1, 10), (3, 1, 11), (0, 2, 3), (1, 2, 4), (3, 2, 5), (2, 3, 3), (0, 3, 4), (1, 3, 5)] ++
  fillSlot 2 3 ++ relays [(0, 2, 6), (1, 2, 7), (3, 2, 8), (0, 2, 9), (3, 0, 12), (1, 0, 13), (2, 0, 14), (1, 2, 10),
    (3, 1, 12), (0, 1, 13), (2, 1, 14), (3, 2, 11), (3, 2, 12), (0, 2, 13), (1, 2, 14), (0, 3, 6), (1, 3, 7),
    (2, 3, 8)] ++
  [0, 1, 2, 3].map fun p => .act p (.execute 1)

lemma exists_three_slots :
    ∃ S : System, Run (step .oneInstance .transparent) (Allowed .oneInstance ∅) (init .oneInstance) threeSlots S ∧
      AllDone .oneInstance threeSlots S ∧ Apart .oneInstance S ∧ ((S 0).inst 0).view = 3 ∧
      (S 0).commands.length = 5 ∧ ∑ p ∈ Finset.range 4, (S p).proposals.length = 3 := by
  let cfg := Config.oneInstance
  obtain ⟨S, hS, hp⟩ := exists_run_of_runWith (step cfg .transparent) (Allowed cfg ∅) (init cfg) threeSlots
    (fun S => decide (AllDone cfg threeSlots S ∧ Apart cfg S ∧ ((S 0).inst 0).view = 3 ∧
      (S 0).commands.length = 5 ∧ ∑ p ∈ Finset.range 4, (S p).proposals.length = 3))
    (by decide +kernel)
  exact ⟨S, hS, of_decide_eq_true hp⟩

theorem replicas_converge_three_slots :
    ∃ S : System, Run (step .oneInstance .transparent) (Allowed .oneInstance ∅) (init .oneInstance) threeSlots S ∧
      ((S 0).inst 0).view = 3 ∧ (S 0).commands.length = 5 ∧ Converged .oneInstance S 0 3 := by
  obtain ⟨S, hS, hdone, hapart, hview, hran, _⟩ := exists_three_slots
  refine ⟨S, hS, hview, hran, ?_⟩
  exact replicas_converge hS (hdone.atRest .transparent) hapart (by decide) (by decide : 0 < 4) (by decide : 3 < 4)

end Sample

end System

end SpotLess
