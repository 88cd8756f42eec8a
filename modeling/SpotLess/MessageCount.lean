import SpotLess.Convergence

namespace SpotLess

open Lib

def Obs.broadcasts : Obs → Bool
  | .proposed _ _ _ _ | .genericSent _ _ | .voted _ _ _ => true
  | _ => false

lemma Obs.FromChain.broadcasts {o : Obs} (h : o.FromChain) : o.broadcasts = false := by
  cases o <;> first | rfl | exact h.elim

lemma Config.exists_backup (cfg : Config) (hn : 1 < cfg.nodeCnt) (i p : ℕ) : ∃ v, cfg.getViewPrimary v i ≠ p := by
  by_contra hall
  have hboth : ∀ v, (v + i) % cfg.nodeCnt = p := fun v => of_not_not fun hne => hall ⟨v, hne⟩
  have hmod : (0 + i) ≡ (1 + i) [MOD cfg.nodeCnt] := (hboth 0).trans (hboth 1).symm
  have := Nat.ModEq.add_right_cancel' i hmod
  rw [Nat.ModEq, Nat.zero_mod, Nat.mod_eq_of_lt hn] at this
  omega

namespace Replica

variable {cfg : Config} {crypto : Crypto} {H : ℕ → ℕ → Bytes} {P : Msg → Prop} {Q : ℕ → Prop}
  {B : ℕ → ClientQueryBatch → Prop} {r₀ r s : Replica} {p w i : ℕ}

section Count

def broadcasts (r : Replica) : ℕ := r.trace.countP Obs.broadcasts

lemma broadcasts_eq (r : Replica) : r.broadcasts = r.proposals.length + r.generics.length + r.ballots.length := by
  simp only [broadcasts, proposals, generics, ballots]
  generalize r.trace = l
  induction l with
  | nil => rfl
  | cons o l ih =>
    rw [List.countP_cons, ih]
    cases o <;> simp [List.filterMap_cons, Obs.broadcasts, Obs.proposal?, Obs.generic?, Obs.vote?] <;> omega

lemma broadcasts_of_trace {l : List Obs} (h : s.trace = r.trace ++ l) :
    s.broadcasts = r.broadcasts + l.countP Obs.broadcasts := by
  rw [broadcasts, h, List.countP_append, broadcasts]

lemma broadcasts_of_fromChain {o : Obs} {l : List Obs} (h : s.trace = r.trace ++ o :: l) (ho : o.broadcasts = false)
    (hl : ∀ o ∈ l, o.FromChain) : s.broadcasts = r.broadcasts := by
  have hnone : (o :: l).countP Obs.broadcasts = 0 := by
    refine List.countP_eq_zero.mpr fun o' ho' => ?_
    rcases List.mem_cons.mp ho' with rfl | ho'
    · simp [ho]
    · simp [(hl o' ho').broadcasts]
  rw [broadcasts_of_trace h, hnone, Nat.add_zero]

lemma filter_ne_eq_erase {l : List ℕ} (hl : l.Nodup) (a : ℕ) : l.filter (fun d => decide (d ≠ a)) = l.erase a := by
  rw [hl.erase_eq_filter]
  refine List.filter_congr fun d _ => ?_
  by_cases hd : d = a <;> simp [hd]

lemma length_others (hp : r.nodeId < cfg.nodeCnt) : (r.others cfg).length = cfg.nodeCnt - 1 := by
  rw [others, filter_ne_eq_erase List.nodup_range, List.length_erase_of_mem (List.mem_range.mpr hp), List.length_range]

lemma sendHotstuffNewview_out_length {id : ℕ} (hfresh : (r.table id).syncSent = false) :
    (r.sendHotstuffNewview cfg crypto id).out.length = r.out.length + (r.others cfg).length := by
  have hself : r.nodeId ∉ r.others cfg := fun hmem => ((mem_others cfg r).mp hmem).2 rfl
  have hlt := cfg.getViewPrimary_lt ((r.inst (r.table id).instanceId).view + 1) (r.table id).instanceId
  simp only [sendHotstuffNewview, hfresh, Bool.false_eq_true, if_false]
  generalize cfg.getViewPrimary ((r.inst (r.table id).instanceId).view + 1) (r.table id).instanceId = dest at hlt ⊢
  simp only [observe_out, setTxn_out, filter_ne_eq_erase (others_nodup cfg r)]
  by_cases hd : r.nodeId = dest
  · subst hd
    simp only [if_true, send_out, List.length_append, List.length_map, List.erase_of_not_mem hself]
  · have hdest : dest ∈ r.others cfg := (mem_others cfg r).mpr ⟨hlt, Ne.symm hd⟩
    have hlen := List.length_pos_of_mem hdest
    simp only [if_neg hd, send_out, List.length_append, List.length_map, List.length_singleton,
      List.length_erase_of_mem hdest]
    omega

def SentToAll (cfg : Config) (r : Replica) : Prop := r.out.length = (r.others cfg).length * r.broadcasts

lemma SentToAll.move (h : SentToAll cfg r) (hm : Move cfg crypto P Q B r₀ r s) : SentToAll cfg s := by
  have hothers : s.others cfg = r.others cfg := by rw [others, hm.nodeId, others]
  have same : s.others cfg = r.others cfg → s.out = r.out → s.broadcasts = r.broadcasts → SentToAll cfg s := by
    intro hothers hout hcount
    rw [SentToAll, hout, hcount, hothers]
    exact h
  have one : ∀ o : Obs, o.broadcasts = true → s.others cfg = r.others cfg → s.trace = r.trace ++ [o] →
      s.out.length = r.out.length + (r.others cfg).length → SentToAll cfg s := by
    intro o ho hothers htrace hout
    have hone : [o].countP Obs.broadcasts = 1 := by simp [ho]
    rw [SentToAll, hout, broadcasts_of_trace htrace, hone, hothers, Nat.mul_succ]
    exact congrArg (· + (r.others cfg).length) h
  cases hm with
  | idle h =>
    refine same hothers h.out ?_
    rcases h.trace with heq | ⟨batch, heq⟩
    · rw [broadcasts, heq, broadcasts]
    · simp [broadcasts, heq, Obs.broadcasts]
  | proposal => exact same hothers rfl rfl
  | @generic _ m =>
    obtain ⟨l, hl, hlo⟩ := storeGeneric_lockGeneric_trace cfg r m
    refine same hothers ?_ (broadcasts_of_fromChain hl rfl hlo)
    simp only [lockGeneric]
    split_ifs
    · exact updateLockQC_out ..
    · rfl
  | @vote _ id =>
    rcases sendHotstuffNewview_cases cfg crypto r id with ⟨_, heq⟩ | ⟨hfresh, hc⟩
    · rw [heq]
      exact h
    · exact one _ rfl hothers hc.trace (sendHotstuffNewview_out_length hfresh)
  | @count m =>
    refine same hothers ?_ (by rw [broadcasts, countVote_trace, broadcasts])
    simp only [countVote, bindTxnid]
    split_ifs <;> rfl
  | advance _ _ _ ha =>
    obtain ⟨l, hl, hlo⟩ := advanceView_trace ha
    exact same hothers (advanceView_out ha) (broadcasts_of_fromChain hl rfl hlo)
  | batch => exact one _ rfl hothers rfl (by simp [storeBatch])
  | announce => exact one _ rfl hothers rfl (by simp [announceGeneric])
  | execute => exact same hothers rfl rfl
  | recycle => exact same hothers rfl rfl

lemma out_length_reach (hp : p < cfg.nodeCnt) (h : Reach (step cfg crypto) (Genuine cfg) (init cfg p) r) :
    r.out.length = (cfg.nodeCnt - 1) * (r.proposals.length + r.generics.length + r.ballots.length) := by
  have hsent : SentToAll cfg r := by
    apply Reach.moves_invariant (P := fun _ => True) (I := SentToAll cfg) _ (fun _ => rfl) _ _ h
    · exact fun r e he => Genuine.supplies he
    · simp [SentToAll, init, broadcasts]
    · intro r₀ r s hm hr
      exact hr.move hm
  have hself := nodeId_reach cfg crypto h
  rw [hsent, broadcasts_eq, length_others (by rwa [hself])]

end Count

section Voted

lemma acceptGeneric_syncSent (t : TxnManager) (m : GenericMsg) : (acceptGeneric t m).syncSent = t.syncSent := by
  simp only [acceptGeneric]
  split_ifs <;> rfl

lemma own_voting_reach (hp : p < cfg.nodeCnt) (h : Reach (step cfg crypto) (FaultFree cfg crypto H) (init cfg p) r) :
    Voting (fun node _ _ => node ≠ p) r := by
  have hboth : r.nodeId = p ∧ Voting (fun node _ _ => node ≠ p) r := by
    apply calm_invariant (I := fun r => r.nodeId = p ∧ Voting (fun node _ _ => node ≠ p) r) hp _ _ h
    · exact ⟨rfl, voting_init p⟩
    · rintro r₀ r s _ ⟨hself, _⟩ _ hm ⟨hnode, hr⟩
      refine ⟨hm.nodeId.trans hnode, hr.move hm fun m hexp => ?_⟩
      rw [← hself]
      exact hexp.honest.peer.foreign
  exact hboth.2

variable (hapart : Apart cfg H) (hp : p < cfg.nodeCnt)
  (h : Reach (step cfg crypto) (FaultFree cfg crypto H) (init cfg p) r) (hi : i < cfg.totInstances)

include hapart hp h hi

lemma voted_of_syncSent (hw : (r.inst i).view ≤ w) (hsent : (r.table (cfg.lastTxn w i)).syncSent = true) :
    cfg.lastTxn w i ∈ r.ballots.map Prod.fst := by
  have hmem := ((standing_reach hapart hp h).tally i hi w hw).own.mpr hsent
  rcases (own_voting_reach hp h).counted _ _ _ hmem with ⟨_, hvote⟩ | hne
  · exact List.mem_map_of_mem hvote
  · exact absurd (nodeId_reach cfg crypto h) hne

lemma voted_of_handled {e : Event} (he : FaultFree cfg crypto H r e) (hs : r.step cfg crypto e = some s)
    (hext : ¬ e.Internal) (hw : (r.inst i).view ≤ w) (hbefore : (r.table (cfg.lastTxn w i)).genericReceived ≠ true)
    (hafter : (s.table (cfg.lastTxn w i)).genericReceived = true) : cfg.lastTxn w i ∈ s.ballots.map Prod.fst := by
  have hsteady := (calm_reach hp h).steady
  obtain ⟨u, hu⟩ := handled_eve (w := w) he.named hs hi hext (fun m hm => (he.expected m hm).honest.peer) hsteady.parked
  have hends : (s.table (cfg.lastTxn w i)).genericReceived = (u.table (cfg.lastTxn w i)).genericReceived ∧
      ∀ v ∈ u.ballots, v ∈ s.ballots := by
    rcases hu.ends with rfl | ⟨m, _, _, _, _, ha⟩
    · exact ⟨rfl, fun _ hv => hv⟩
    · obtain ⟨l, hl, hlo⟩ := advanceView_trace ha
      refine ⟨?_, fun v hv => ?_⟩
      · rw [advanceView_table ha, update_genericReceived (by rfl)]
      · rwa [ballots_of_fromChain hl rfl hlo]
  rw [hends.1] at hafter
  cases hu.turn with
  | keeps _ hg =>
    rcases hg with hg | ⟨_, hrec⟩
    · exact absurd (hg ▸ hafter) hbefore
    · rw [hrec.genericReceived] at hafter
      cases hafter
  | @takes t m _ _ _ _ htable _ heq =>
    subst heq
    by_cases hid : cfg.lastTxn w i = m.txnId
    swap
    · rw [voteGeneric_table_of_ne t m hid, htable] at hafter
      exact absurd hafter hbefore
    rcases sendHotstuffNewview_cases cfg crypto ((t.storeGeneric m).lockGeneric cfg m) m.txnId with
      ⟨hsent, _⟩ | ⟨_, hc⟩
    · -- the vote is an earlier one
      rw [storeGeneric_lockGeneric_table, Function.update_self, acceptGeneric_syncSent, htable, ← hid] at hsent
      obtain ⟨l, hl⟩ := step_trace he.genuine hs
      rw [ballots_of_trace hl, List.map_append]
      exact List.mem_append_left _ (voted_of_syncSent hapart hp h hi hw hsent)
    · obtain ⟨hash, hvote⟩ : ∃ hash, (m.txnId, hash) ∈ (t.voteGeneric cfg crypto m).ballots := by
        rw [voteGeneric, ballots_of_trace hc.trace]
        exact ⟨_, List.mem_append_right _ (List.mem_singleton_self _)⟩
      exact List.mem_map.mpr ⟨_, hends.2 _ hvote, hid.symm⟩

omit h

lemma voted_reach (hn : 2 < cfg.nodeCnt) (h : Reach (step cfg crypto) (FaultFree cfg crypto H) (init cfg p) r)
    (hw : w < (r.inst i).view) : cfg.lastTxn w i ∈ r.ballots.map Prod.fst := by
  have hall : w < (r.inst i).view → cfg.lastTxn w i ∈ r.ballots.map Prod.fst := by
    apply h.invariant (fun r => w < (r.inst i).view → cfg.lastTxn w i ∈ r.ballots.map Prod.fst)
    · exact fun hlt => absurd hlt (Nat.not_lt_zero w)
    · intro r e s hr he hs ih hlt
      have hsteady := (calm_reach hp hr).steady
      have hmono : cfg.lastTxn w i ∈ r.ballots.map Prod.fst → cfg.lastTxn w i ∈ s.ballots.map Prod.fst := by
        obtain ⟨l, hl⟩ := step_trace he.genuine hs
        rw [ballots_of_trace hl, List.map_append]
        exact List.mem_append_left _
      obtain ⟨_, hprogress⟩ := hsteady.paced.moves hsteady.alloc hsteady.fed (hsteady.moves he.named hs)
      rcases hprogress i hi with hsame | ⟨hnext, hready⟩
      · exact hmono (ih (hsame ▸ hlt))
      rcases Nat.lt_or_ge w (r.inst i).view with hold | hw
      · exact hmono (ih hold)
      obtain rfl : w = (r.inst i).view := by omega
      by_cases hg : (r.table (cfg.lastTxn (r.inst i).view i)).genericReceived = true
      · have hsettled := settled_reach (Config.one_lt_nf hn) hapart hp hr hi hw
        exact hmono (voted_of_syncSent hapart hp hr hi hw (hsettled.voted hg))
      · refine voted_of_handled hapart hp hr hi he hs (fun hint => ?_) hw hg hready.2.2
        obtain ⟨v, hv⟩ : ∃ v, cfg.getViewPrimary v i ≠ r.nodeId := cfg.exists_backup (by omega) i r.nodeId
        have hview := ((step_internal hsteady he.named hs hi hv hint).2 i).view
        omega
  exact hall hw

end Voted

end Replica

namespace System

variable {cfg : Config} {crypto : Crypto} {S : System} {es : List Event} {p q : ℕ}

def announcedBy (S : System) (q : ℕ) : Finset ℕ := ((S q).generics.map Prod.snd).toFinset

def votedBy (S : System) (q : ℕ) : Finset ℕ := ((S q).ballots.map Prod.fst).toFinset

def proposed (cfg : Config) (S : System) : ℕ := ∑ q ∈ Finset.range cfg.nodeCnt, (S q).proposals.length

section Bound

variable (h : Reachable cfg crypto ∅ S)

include h

lemma mem_announcedBy (hq : q < cfg.nodeCnt) {id : ℕ} : id ∈ announcedBy S q ↔
    ∃ i < cfg.totInstances, ∃ w, id = cfg.lastTxn w i ∧ cfg.getViewPrimary w i = q ∧ (i, id) ∈ (S q).generics := by
  have hself := Replica.nodeId_reach cfg crypto (reaches_digest h q hq)
  rw [announcedBy, List.mem_toFinset, List.mem_map]
  constructor
  · rintro ⟨⟨i, id⟩, hg, rfl⟩
    obtain ⟨hi, w, _, hid, hown⟩ := Replica.ownGenerics_reach hq (reaches_digest h q hq) i id hg
    exact ⟨i, hi, w, hid, hown.trans hself, hg⟩
  · rintro ⟨i, _, _, _, _, hg⟩
    exact ⟨_, hg, rfl⟩

lemma card_announcedBy (hq : q < cfg.nodeCnt) : (announcedBy S q).card = (S q).generics.length := by
  have hreach := reaches_digest h q hq
  rw [announcedBy, List.toFinset_card_of_nodup, List.length_map]
  refine (Replica.followed_reach hq hreach).once.map_on ?_
  rintro ⟨i, id⟩ hg ⟨j, _⟩ hg' rfl
  obtain ⟨hi, w, _, hid, _⟩ := Replica.ownGenerics_reach hq hreach i id hg
  obtain ⟨hj, w', _, hid', _⟩ := Replica.ownGenerics_reach hq hreach j id hg'
  obtain ⟨_, rfl⟩ := cfg.lastTxn_inj hi hj (hid.symm.trans hid')
  rfl

lemma card_votedBy (hq : q < cfg.nodeCnt) : (votedBy S q).card = (S q).ballots.length := by
  rw [votedBy, List.toFinset_card_of_nodup (Replica.announced_reach (reach_replica h hq)).1.once, List.length_map]

lemma length_generics_le (hq : q < cfg.nodeCnt) : (S q).generics.length ≤ (S q).proposals.length := by
  rw [← card_announcedBy h hq]
  have hsub : announcedBy S q ⊆ ((S q).proposals.map fun x => cfg.lastTxn x.view x.instanceId).toFinset := by
    intro id hid
    obtain ⟨i, _, _, _, _, hg⟩ := (mem_announcedBy h hq).mp hid
    obtain ⟨w, batch, hash, hid, ho⟩ := (Replica.followed_reach hq (reaches_digest h q hq)).backed i id hg
    exact List.mem_toFinset.mpr (List.mem_map.mpr ⟨_, Replica.mem_proposals ho, hid.symm⟩)
  calc (announcedBy S q).card
      ≤ ((S q).proposals.map fun x => cfg.lastTxn x.view x.instanceId).toFinset.card := Finset.card_le_card hsub
    _ ≤ ((S q).proposals.map fun x => cfg.lastTxn x.view x.instanceId).length := List.toFinset_card_le _
    _ = (S q).proposals.length := List.length_map ..

lemma length_ballots_le (hn : 1 < cfg.nodeCnt) (hp : p < cfg.nodeCnt) :
    (S p).ballots.length ≤ ∑ q ∈ Finset.range cfg.nodeCnt, (S q).generics.length := by
  have hsub : votedBy S p ⊆ (Finset.range cfg.nodeCnt).biUnion (announcedBy S) := by
    intro id hid
    obtain ⟨q, hq, i, hg⟩ := announced_of_vote h hn hp (List.mem_toFinset.mp hid)
    exact Finset.mem_biUnion.mpr ⟨q, Finset.mem_range.mpr hq, List.mem_toFinset.mpr (List.mem_map_of_mem hg)⟩
  calc (S p).ballots.length = (votedBy S p).card := (card_votedBy h hp).symm
    _ ≤ ((Finset.range cfg.nodeCnt).biUnion (announcedBy S)).card := Finset.card_le_card hsub
    _ ≤ ∑ q ∈ Finset.range cfg.nodeCnt, (announcedBy S q).card := Finset.card_biUnion_le
    _ = ∑ q ∈ Finset.range cfg.nodeCnt, (S q).generics.length :=
        Finset.sum_congr rfl fun q hq => card_announcedBy h (Finset.mem_range.mp hq)

lemma sum_out : ∑ p ∈ Finset.range cfg.nodeCnt, (S p).out.length = (cfg.nodeCnt - 1) * (proposed cfg S +
    ∑ p ∈ Finset.range cfg.nodeCnt, (S p).generics.length + ∑ p ∈ Finset.range cfg.nodeCnt, (S p).ballots.length) := by
  rw [proposed, ← Finset.sum_add_distrib, ← Finset.sum_add_distrib, Finset.mul_sum]
  refine Finset.sum_congr rfl fun p hp => ?_
  have hp := Finset.mem_range.mp hp
  exact Replica.out_length_reach hp (reach_replica h hp)

lemma sum_generics_le : ∑ p ∈ Finset.range cfg.nodeCnt, (S p).generics.length ≤ proposed cfg S :=
  Finset.sum_le_sum fun _ hp => length_generics_le h (Finset.mem_range.mp hp)

-- Without faulty replicas a slot costs at most `n + 2` messages to each of the others.
theorem messages_bounded : ∑ p ∈ Finset.range cfg.nodeCnt, (S p).out.length ≤
      (cfg.nodeCnt - 1) * (cfg.nodeCnt + 2) * proposed cfg S ∧
    ∀ p < cfg.nodeCnt, (S p).out.length =
        (cfg.nodeCnt - 1) * ((S p).proposals.length + (S p).generics.length + (S p).ballots.length) ∧
      (S p).generics.length ≤ (S p).proposals.length ∧
      (1 < cfg.nodeCnt → (S p).ballots.length ≤ proposed cfg S) := by
  have hballot : ∀ p < cfg.nodeCnt, 1 < cfg.nodeCnt → (S p).ballots.length ≤ proposed cfg S := fun p hp hn =>
    (length_ballots_le h hn hp).trans (sum_generics_le h)
  refine ⟨?_, fun p hp => ⟨Replica.out_length_reach hp (reach_replica h hp), length_generics_le h hp, hballot p hp⟩⟩
  rw [sum_out h, Nat.mul_assoc]
  rcases Nat.lt_or_ge 1 cfg.nodeCnt with hn | hn
  swap
  · have hzero : cfg.nodeCnt - 1 = 0 := by omega
    simp [hzero]
  have hgenerics := sum_generics_le h
  have hballots : ∑ p ∈ Finset.range cfg.nodeCnt, (S p).ballots.length ≤ cfg.nodeCnt * proposed cfg S := by
    calc ∑ p ∈ Finset.range cfg.nodeCnt, (S p).ballots.length
        ≤ ∑ _p ∈ Finset.range cfg.nodeCnt, proposed cfg S :=
          Finset.sum_le_sum fun p hp => hballot p (Finset.mem_range.mp hp) hn
      _ = cfg.nodeCnt * proposed cfg S := by rw [Finset.sum_const, Finset.card_range, smul_eq_mul]
  refine Nat.mul_le_mul_left _ ?_
  rw [Nat.add_mul]
  omega

end Bound

theorem messages_bounded_one_slot : ∃ S, Reachable .oneInstance .transparent ∅ S ∧ proposed .oneInstance S = 1 ∧
    ((S 0).proposals.length, (S 0).generics.length, (S 0).ballots.length) = (1, 1, 1) ∧
    ∑ p ∈ Finset.range 4, (S p).out.length ≤ 3 * 6 * proposed .oneInstance S := by
  let cfg := Config.oneInstance
  obtain ⟨S, hS, hp⟩ := exists_reach_of_runWith (step cfg .transparent) (Allowed cfg ∅) (init cfg) (fillSlot 0 1)
    (fun S => decide (proposed cfg S = 1 ∧
      ((S 0).proposals.length, (S 0).generics.length, (S 0).ballots.length) = (1, 1, 1)))
    (by decide +kernel)
  obtain ⟨hone, hsent⟩ := of_decide_eq_true hp
  exact ⟨S, hS, hone, hsent, (messages_bounded hS).1⟩

section Rest

variable (h : Run (step cfg crypto) (Allowed cfg ∅) (init cfg) es S) (hrest : AtRest cfg crypto es S)
  (hapart : Apart cfg S) (hn : 2 < cfg.nodeCnt)

include h hrest

lemma AtRest.length_generics (hp : p < cfg.nodeCnt) : (S p).generics.length = (S p).proposals.length := by
  refine le_antisymm (length_generics_le h.reach hp) ?_
  have halloc := (Replica.calm_reach hp (reaches_digest h.reach p hp)).steady.alloc
  have hnodup : (S p).proposals.Nodup := halloc.increasing.imp fun hab heq => by
    subst heq
    exact absurd (hab rfl) (lt_irrefl _)
  have hslots : ((S p).proposals.map fun x => cfg.lastTxn x.view x.instanceId).Nodup := by
    refine hnodup.map_on fun x hx y hy heq => ?_
    obtain ⟨hview, hinst⟩ := cfg.lastTxn_inj (halloc.past x hx).1 (halloc.past y hy).1 heq
    exact halloc.unique cfg hx hy hview hinst
  have hsub : ((S p).proposals.map fun x => cfg.lastTxn x.view x.instanceId).toFinset ⊆ announcedBy S p := by
    intro id hid
    obtain ⟨x, hx, rfl⟩ := List.mem_map.mp (List.mem_toFinset.mp hid)
    exact List.mem_toFinset.mpr (List.mem_map_of_mem (hrest.announced h hp hx))
  have hle := Finset.card_le_card hsub
  rwa [List.toFinset_card_of_nodup hslots, List.length_map, card_announcedBy h.reach hp] at hle

include hapart hn

lemma AtRest.voted (hq : q < cfg.nodeCnt) {x : Proposal} (hx : x ∈ (S q).proposals) (hp : p < cfg.nodeCnt) :
    cfg.lastTxn x.view x.instanceId ∈ (S p).ballots.map Prod.fst := by
  have hi := ((Replica.alloc_reach cfg crypto hq (reaches_digest h.reach q hq)).past x hx).1
  exact Replica.voted_reach hapart.digest hp hi hn (reaches_digest h.reach p hp) (hrest.passed h hapart hn hq hx hp)

lemma AtRest.length_ballots (hp : p < cfg.nodeCnt) :
    (S p).ballots.length = ∑ q ∈ Finset.range cfg.nodeCnt, (S q).generics.length := by
  refine le_antisymm (length_ballots_le h.reach (by omega) hp) ?_
  have hdisjoint : ((Finset.range cfg.nodeCnt : Finset ℕ) : Set ℕ).PairwiseDisjoint (announcedBy S) := by
    intro q hq q' hq' hne
    refine Finset.disjoint_left.mpr fun id hid hid' => hne ?_
    obtain ⟨i, hi, w, rfl, hown, _⟩ := (mem_announcedBy h.reach (Finset.mem_range.mp hq)).mp hid
    obtain ⟨j, hj, w', hslot, hown', _⟩ := (mem_announcedBy h.reach (Finset.mem_range.mp hq')).mp hid'
    obtain ⟨rfl, rfl⟩ := cfg.lastTxn_inj hi hj hslot
    exact hown.symm.trans hown'
  have hsub : (Finset.range cfg.nodeCnt).biUnion (announcedBy S) ⊆ votedBy S p := by
    intro id hid
    obtain ⟨q, hq, hid⟩ := Finset.mem_biUnion.mp hid
    have hq := Finset.mem_range.mp hq
    obtain ⟨i, _, _, _, _, hg⟩ := (mem_announcedBy h.reach hq).mp hid
    obtain ⟨w, batch, hash, rfl, ho⟩ := (Replica.followed_reach hq (reaches_digest h.reach q hq)).backed i id hg
    exact List.mem_toFinset.mpr (hrest.voted h hapart hn hq (Replica.mem_proposals ho) hp)
  calc ∑ q ∈ Finset.range cfg.nodeCnt, (S q).generics.length
      = ∑ q ∈ Finset.range cfg.nodeCnt, (announcedBy S q).card :=
        Finset.sum_congr rfl fun q hq => (card_announcedBy h.reach (Finset.mem_range.mp hq)).symm
    _ = ((Finset.range cfg.nodeCnt).biUnion (announcedBy S)).card := (Finset.card_biUnion hdisjoint).symm
    _ ≤ (votedBy S p).card := Finset.card_le_card hsub
    _ = (S p).ballots.length := card_votedBy h.reach hp

-- And when the run has come to rest, each slot has cost exactly that.
theorem messages_exact_at_rest : ∑ p ∈ Finset.range cfg.nodeCnt, (S p).out.length =
      (cfg.nodeCnt - 1) * (cfg.nodeCnt + 2) * proposed cfg S ∧
    ∀ q < cfg.nodeCnt, (S q).generics.length = (S q).proposals.length ∧ (S q).ballots.length = proposed cfg S ∧
      ∀ x ∈ (S q).proposals, (x.instanceId, cfg.lastTxn x.view x.instanceId) ∈ (S q).generics ∧
        ∀ p < cfg.nodeCnt, cfg.lastTxn x.view x.instanceId ∈ (S p).ballots.map Prod.fst := by
  have hgenerics : ∑ p ∈ Finset.range cfg.nodeCnt, (S p).generics.length = proposed cfg S :=
    Finset.sum_congr rfl fun p hp => hrest.length_generics h (Finset.mem_range.mp hp)
  have hballot : ∀ p < cfg.nodeCnt, (S p).ballots.length = proposed cfg S := fun p hp =>
    (hrest.length_ballots h hapart hn hp).trans hgenerics
  have hballots : ∑ p ∈ Finset.range cfg.nodeCnt, (S p).ballots.length = cfg.nodeCnt * proposed cfg S := by
    rw [Finset.sum_congr rfl fun p hp => hballot p (Finset.mem_range.mp hp), Finset.sum_const, Finset.card_range,
      smul_eq_mul]
  refine ⟨?_, fun q hq => ⟨hrest.length_generics h hq, hballot q hq, fun x hx => ⟨hrest.announced h hq hx, ?_⟩⟩⟩
  · rw [sum_out h.reach, hgenerics, hballots]
    ring
  · exact fun p hp => hrest.voted h hapart hn hq hx hp

end Rest

theorem messages_exact_at_rest_three_slots :
    ∃ S : System, Run (step .oneInstance .transparent) (Allowed .oneInstance ∅) (init .oneInstance) threeSlots S ∧
      ∑ p ∈ Finset.range 4, (S p).out.length = 54 := by
  obtain ⟨S, hS, hdone, hapart, _, _, hthree⟩ := exists_three_slots
  obtain ⟨hsum, -⟩ := messages_exact_at_rest hS (hdone.atRest .transparent) hapart (by decide)
  have hproposed : proposed .oneInstance S = 3 := hthree
  rw [hproposed] at hsum
  exact ⟨S, hS, hsum⟩

end System

end SpotLess
