import SpotLess.Join
import SpotLess.AskResponse

namespace SpotLess

open Lib

def Obs.advanced? : Obs → Option ℕ
  | .advanced _ _ id _ _ => some id
  | _ => none

namespace Replica

def advancedIds (r : Replica) : List ℕ := r.trace.filterMap Obs.advanced?

section Advances

variable {cfg : Config} {crypto : Crypto} {P : Msg → Prop} {Q : ℕ → Prop} {B : ℕ → ClientQueryBatch → Prop}
  {r₀ r s : Replica}

lemma advancedIds_of_trace {l : List Obs} (h : s.trace = r.trace ++ l) :
    s.advancedIds = r.advancedIds ++ l.filterMap Obs.advanced? := by
  rw [advancedIds, h, List.filterMap_append, advancedIds]

lemma filterMap_fromChain {l : List Obs} (h : ∀ o ∈ l, o.FromChain) : l.filterMap Obs.advanced? = [] := by
  refine List.filterMap_eq_nil_iff.mpr fun o ho => ?_
  cases o with
  | advanced => exact (h _ ho).elim
  | _ => rfl

lemma advanceView_advancedIds {id : ℕ} (h : r.advanceView cfg id = some s) : s.advancedIds = r.advancedIds ++ [id] := by
  obtain ⟨l, hl, hlo⟩ := advanceView_trace h
  rw [advancedIds_of_trace hl]
  simp only [List.filterMap_cons, Obs.advanced?, filterMap_fromChain hlo]

lemma Move.advancedIds (h : Move cfg crypto P Q B r₀ r s) :
    s.advancedIds = r.advancedIds ∨ ∃ id, SameViews r₀ r ∧ Unready P r₀ id ∧ (r.table id).Ready ∧
      r.advanceView cfg id = some s := by
  have hold : ∀ {l : List Obs}, s.trace = r.trace ++ l → l.filterMap Obs.advanced? = [] →
      s.advancedIds = r.advancedIds := fun ht hl => by rw [advancedIds_of_trace ht, hl, List.append_nil]
  cases h with
  | idle h =>
    left
    rcases h.trace with heq | ⟨batch, heq⟩
    · rw [Replica.advancedIds, heq, Replica.advancedIds]
    · exact hold heq rfl
  | proposal => exact .inl rfl
  | @generic _ m =>
    left
    have hstore : (r.storeGeneric m).advancedIds = r.advancedIds := by
      rw [advancedIds_of_trace (l := [.adopted m (r.inst m.instanceId)]) rfl]
      exact List.append_nil _
    simp only [lockGeneric]
    split_ifs
    · obtain ⟨l, hl, hlo⟩ := (r.storeGeneric m).updateLockQC_trace cfg m.highQC m.view (sub64 m.txnId cfg.stride)
        m.instanceId
      rw [advancedIds_of_trace hl, filterMap_fromChain hlo, List.append_nil, hstore]
    · exact hstore
  | @vote _ id =>
    left
    rcases sendHotstuffNewview_cases cfg crypto r id with ⟨_, heq⟩ | ⟨_, hc⟩
    · rw [heq]
    · exact hold hc.trace rfl
  | @count m =>
    left
    simp only [countVote]
    split_ifs <;> rfl
  | advance hsame hfresh hready h => exact .inr ⟨_, hsame, hfresh, hready, h⟩
  | batch => exact .inl (hold rfl rfl)
  | announce => exact .inl (hold rfl rfl)
  | execute => exact .inl rfl
  | recycle => exact .inl rfl

end Advances

end Replica

-- The batch a correct primary has put into a slot, with the certificate its GENERIC carries.
structure Offer (cfg : Config) where
  view : ℕ
  instanceId : ℕ
  requestMsg : List ClientQuery
  highQC : QuorumCertificate
  inst : instanceId < cfg.totInstances
  length : requestMsg.length = cfg.batchSize
  fits : ∀ q ∈ requestMsg, q.requests.length ≤ cfg.reqPerQuery

namespace Offer

section Messages

variable {cfg : Config} (crypto : Crypto) (o : Offer cfg)

def last : ℕ := cfg.lastTxn o.view o.instanceId

def proposal : ProposalMsg := slotProposal cfg crypto o.view o.instanceId o.requestMsg

def hash : Bytes := (o.proposal crypto).hash

def generic : GenericMsg := slotGeneric cfg crypto o.view o.instanceId (o.hash crypto) o.highQC

structure Vote (m : SyncMsg) : Prop where
  txnId : m.txnId = o.last
  view : m.view = o.view
  instanceId : m.instanceId = o.instanceId
  hash : m.hash = o.hash crypto
  valid : m.validate crypto = true

inductive Sent : Msg → Prop
  | proposal : Sent (.proposal (o.proposal crypto))
  | generic : Sent (.generic (o.generic crypto))
  | vote {m : SyncMsg} (h : o.Vote crypto m) : Sent (.sync m)

def Names : Msg → Prop
  | .proposal m => m.view = o.view ∧ m.instanceId = o.instanceId
  | .generic m => m.view = o.view ∧ m.instanceId = o.instanceId
  | .sync m => m.txnId = o.last

-- For the slot nothing else arrives; a message for another slot may be anything that names its slot.
def Arrives (r : Replica) (e : Replica.Event) : Prop :=
  r.NamedStep cfg e ∧ ∀ m, e = .deliver m → o.Names m → o.Sent crypto m

def manager (r : Replica) : TxnManager := r.table o.last

structure Complete (r : Replica) : Prop where
  proposalReceived : (o.manager r).proposalReceived = true
  genericReceived : (o.manager r).genericReceived = true
  votes : cfg.nf ≤ ((o.manager r).votersOf (o.hash crypto)).length

def advances (r : Replica) : ℕ := r.advancedIds.count o.last

def voter : Replica.Event → Option ℕ
  | .deliver (.sync m) => if m.txnId = o.last then some m.returnNodeId else none
  | _ => none

-- The replicas whose votes have arrived, and the replica itself.
def voters (me : ℕ) (es : List Replica.Event) : Finset ℕ := insert me (es.filterMap o.voter).toFinset

end Messages

section Manager

open Replica

variable {cfg : Config} {crypto : Crypto} {o : Offer cfg} {P : Msg → Prop} {B : ℕ → ClientQueryBatch → Prop}
  {r₀ r s : Replica} {p : ℕ}

def core (t : TxnManager) : Bytes × Bool × Bool × QuorumCertificate × Bool × Bool :=
  (t.hash, t.proposalReceived, t.genericReceived, t.highQC, t.genericQC.genesis, t.genericQC.grandEmpty)

lemma core_hotstuffNewViewed (t : TxnManager) (me : ℕ) (m : SyncMsg) :
    core (hotstuffNewViewed cfg t me m).1 = core t := by
  have hseed : core (t.seedVotes me) = core t := by
    simp only [TxnManager.seedVotes]
    split_ifs <;> rfl
  have hshare : ∀ t : TxnManager, core (t.storeShare m.returnNodeId m.hash m.sigShare) = core t := by
    intro t
    simp only [TxnManager.storeShare]
    split
    · split_ifs <;> rfl
    · rfl
  simp only [hotstuffNewViewed]
  split_ifs
  · rfl
  · exact hseed
  · exact (hshare _).trans hseed
  · exact (hshare _).trans hseed

lemma core_castVote (r : Replica) (id : ℕ) :
    core (castVote cfg { r.table id with genericQC := r.ownShare cfg crypto id, syncSent := true } r.nodeId) =
      core (r.table id) := by
  obtain ⟨_, _, _, heq⟩ := @castVote_eq cfg
    { r.table id with genericQC := r.ownShare cfg crypto id, syncSent := true } r.nodeId
  rw [heq]
  simp only [ownShare]
  split_ifs <;> rfl

inductive CoreMove (crypto : Crypto) (o : Offer cfg) (P : Msg → Prop) (r s : Replica) : Prop
  | keeps (h : core (o.manager s) = core (o.manager r))
  | proposal (hP : P (.proposal (o.proposal crypto))) (h : core (o.manager s) =
      core { o.manager r with hash := o.hash crypto, proposalReceived := true })
  | generic (hP : P (.generic (o.generic crypto))) (hindex : r.exec.nextIndex < o.last)
      (hh : (o.manager r).hash = [] ∨ (o.manager r).hash = o.hash crypto) (h : core (o.manager s) =
        core { o.manager r with hash := o.hash crypto, highQC := o.highQC, genericReceived := true })
  | recycles (hindex : o.last < r.exec.nextIndex) (h : (o.manager s).Recycled)

lemma CoreMove.of_update {id : ℕ} {t : TxnManager} (htable : s.table = Function.update r.table id t)
    (ht : core t = core (r.table id)) : CoreMove crypto o P r s := by
  refine .keeps ?_
  rw [manager, manager, htable, Function.update_apply]
  split_ifs with hid
  · rw [hid, ht]
  · rfl

lemma CoreMove.of_hashes {v j : ℕ} {hash : Bytes} (h : Hashes cfg v j hash r.table s.table)
    (hne : (o.view, o.instanceId) ≠ (v, j)) : CoreMove crypto o P r s := by
  refine .keeps ?_
  rw [manager, manager, last, h.others _ _ o.inst hne]

lemma coreMove (h₀ : Steady cfg r₀) (hbackup : cfg.getViewPrimary o.view o.instanceId ≠ r₀.nodeId)
    (hpeer : ∀ m, P m → Msg.Peer cfg p m) (hsent : ∀ m, P m → o.Names m → o.Sent crypto m)
    (hm : Move cfg crypto P (Current cfg r₀) B r₀ r s) : CoreMove crypto o P r s := by
  cases hm with
  | idle hidle => exact .keeps (by rw [manager, manager, hidle.table])
  | @proposal m table hP _ hacc =>
    have hhashes := storeProposal_hashes (hpeer _ hP).named (hpeer _ hP).wellFormed hacc
    by_cases hslot : (o.view, o.instanceId) = (m.view, m.instanceId)
    · obtain ⟨hview, hinst⟩ := Prod.mk.inj hslot
      cases hsent _ hP ⟨hview.symm, hinst.symm⟩
      obtain ⟨_, _, _, _, heq⟩ := hhashes.last
      have hcore := congrArg core heq
      exact .proposal hP hcore
    · exact .of_hashes hhashes hslot
  | @generic _ m hP hindex _ hacc =>
    by_cases hid : m.txnId = o.last
    · obtain ⟨hview, hinst⟩ := cfg.lastTxn_inj (hpeer _ hP).wellFormed o.inst ((hpeer _ hP).named.txnId.symm.trans hid)
      cases hsent _ hP ⟨hview, hinst⟩
      refine .generic hP hindex hacc.hash ?_
      rw [manager, storeGeneric_lockGeneric_table, hid, Function.update_self]
      simp only [acceptGeneric]
      split_ifs with hempty
      · rfl
      · have heq : (o.manager r).hash = o.hash crypto := hacc.hash.resolve_left hempty
        change core { o.manager r with highQC := o.highQC, genericReceived := true } = _
        rw [← heq]
    · refine .keeps ?_
      rw [manager, manager, storeGeneric_lockGeneric_table, Function.update_of_ne (Ne.symm hid)]
  | @vote _ id =>
    rcases sendHotstuffNewview_cases cfg crypto r id with ⟨_, heq⟩ | ⟨_, hc⟩
    · exact .keeps (by rw [heq])
    · exact .of_update hc.table (core_castVote r id)
  | @count m => exact .of_update (countVote_table r₀ m) (core_hotstuffNewViewed _ _ m)
  | advance _ _ _ ha => exact .of_update (advanceView_table ha) rfl
  | @batch slot batch table _ hpc hfill =>
    obtain ⟨_, _, hown, _⟩ := alloc_stamped cfg crypto h₀.alloc hpc
    have hlen := h₀.fed.inHand batch (by rw [hpc]; exact List.mem_singleton_self _)
    refine .of_hashes (storeBatch_hashes h₀.alloc hpc hlen hfill) fun hslot => hbackup ?_
    rw [(Prod.mk.inj hslot).1, (Prod.mk.inj hslot).2, hown]
  | @announce _ id hsame hid =>
    obtain ⟨j, hj, hlast, hown⟩ := hid
    have hne : o.last ≠ id := by
      intro heq
      obtain ⟨hview, hinst⟩ := cfg.lastTxn_inj o.inst hj (heq.trans hlast)
      rw [hview, hinst] at hbackup
      exact hbackup hown
    refine .keeps ?_
    simp only [manager, announceGeneric, observe_table, send_table, setTxn_table, Function.update_of_ne hne]
  | execute => exact .keeps rfl
  | @recycle id t hindex ht =>
    by_cases hid : o.last = id
    · refine .recycles (by omega) ?_
      rw [manager, setTxn_table, hid, Function.update_self]
      exact ht
    · exact .keeps (by rw [manager, manager, setTxn_table, Function.update_of_ne hid])

end Manager

section Tracks

open Replica

variable {cfg : Config} {crypto : Crypto} {o : Offer cfg} {D D' : Msg → Prop} {r₀ r s : Replica} {e : Replica.Event}

structure Counts (crypto : Crypto) (o : Offer cfg) (D : Msg → Prop) (r : Replica) : Prop where
  tally : (o.manager r).Tally cfg.nf r.nodeId (o.hash crypto)
  heard : ∀ x ∈ (o.manager r).voteNewView, x ≠ r.nodeId → ∃ m, o.Vote crypto m ∧ D (.sync m) ∧ m.returnNodeId = x
  own : (o.manager r).syncSent = true → (o.manager r).genericReceived = true
  flags : (o.manager r).genericQC.genesis = false ∧ (o.manager r).genericQC.grandEmpty = false

-- What the slot's manager holds came in `D`; once it has been given back, no GENERIC is taken for it.
structure Tracks (crypto : Crypto) (o : Offer cfg) (D : Msg → Prop) (r : Replica) : Prop where
  hash : (o.manager r).hash = [] ∨ (o.manager r).hash = o.hash crypto
  proposal : (o.manager r).proposalReceived = true → D (.proposal (o.proposal crypto))
  generic : (o.manager r).genericReceived = true →
    D (.generic (o.generic crypto)) ∧ (o.manager r).hash = o.hash crypto ∧ (o.manager r).highQC = o.highQC
  parked : ∀ i, ∀ m ∈ r.queues i, (o.Names (.generic m) → o.Sent crypto (.generic m)) ∧ D (.generic m)
  counted : o.Counts crypto D r ∨ o.last < r.exec.nextIndex ∧ (o.manager r).genericReceived = false

lemma tracks_init (p : ℕ) : o.Tracks crypto D (init cfg p) where
  hash := .inl rfl
  proposal h := by cases h
  generic h := by cases h
  parked i m hm := by cases hm
  counted := by
    refine .inl ⟨TxnManager.tally_init cfg p _, fun x hx => absurd hx List.not_mem_nil, fun h => ?_, rfl, rfl⟩
    cases h

lemma Counts.imp (h : o.Counts crypto D r) (hD : ∀ m, D m → D' m) : o.Counts crypto D' r where
  tally := h.tally
  heard x hx hne := by
    obtain ⟨m, hm, hd, hsender⟩ := h.heard x hx hne
    exact ⟨m, hm, hD _ hd, hsender⟩
  own := h.own
  flags := h.flags

lemma Tracks.imp (h : o.Tracks crypto D r) (hD : ∀ m, D m → D' m) : o.Tracks crypto D' r where
  hash := h.hash
  proposal hg := hD _ (h.proposal hg)
  generic hg := (h.generic hg).imp_left (hD _)
  parked i m hm := (h.parked i m hm).imp_right (hD _)
  counted := h.counted.imp_left fun hc => hc.imp hD

structure Supply (crypto : Crypto) (o : Offer cfg) (D : Msg → Prop) (p : ℕ) (m : Msg) : Prop where
  peer : Msg.Peer cfg p m
  sent : o.Names m → o.Sent crypto m
  arrived : D m

abbrev SlotMoves (crypto : Crypto) (o : Offer cfg) (D : Msg → Prop) (r₀ : Replica) :=
  Move cfg crypto (o.Supply crypto D r₀.nodeId) (Current cfg r₀) (fun _ _ => True) r₀

lemma Counts.move (h : o.Counts crypto D r) (ht : o.Tracks crypto D r) (h₀ : Steady cfg r₀)
    (hnode : r.nodeId = r₀.nodeId) (hcore : o.CoreMove crypto (o.Supply crypto D r₀.nodeId) r s)
    (hm : o.SlotMoves crypto D r₀ r s) :
    o.Counts crypto D s ∨ o.last < s.exec.nextIndex ∧ (o.manager s).genericReceived = false := by
  have hindex := hm.nextIndex_le
  have hmove : SlotMove cfg (o.Supply crypto D r₀.nodeId) o.view o.instanceId r s :=
    h₀.slotMove (fun _ hP => hP.peer) hm o.inst
  -- a flag of the GENERIC stays raised, and the certificate keeps its flags
  have hkeeps : (o.manager s).Recycled ∧ o.last < r.exec.nextIndex ∨
      ((o.manager r).genericReceived = true → (o.manager s).genericReceived = true) ∧
        (o.manager s).genericQC.genesis = false ∧ (o.manager s).genericQC.grandEmpty = false := by
    obtain ⟨hgenesis, hgrand⟩ := h.flags
    cases hcore with
    | keeps heq =>
      simp only [core, Prod.mk.injEq, hgenesis, hgrand] at heq
      exact .inr ⟨fun hg => heq.2.2.1.trans hg, heq.2.2.2.2⟩
    | proposal _ heq =>
      simp only [core, Prod.mk.injEq, hgenesis, hgrand] at heq
      exact .inr ⟨fun hg => heq.2.2.1.trans hg, heq.2.2.2.2⟩
    | generic _ _ _ heq =>
      simp only [core, Prod.mk.injEq, hgenesis, hgrand] at heq
      exact .inr ⟨fun _ => heq.2.2.1, heq.2.2.2.2⟩
    | recycles hlt hrec => exact .inl ⟨hrec, hlt⟩
  rcases hkeeps with ⟨hrec, hlt⟩ | ⟨hgen, hflags⟩
  · exact .inr ⟨hlt.trans_le hindex, hrec.genericReceived⟩
  cases hmove with
  | keeps heq =>
    simp only [TxnManager.votes, Prod.mk.injEq] at heq
    left
    refine ⟨hm.nodeId ▸ h.tally.congr ?_, fun x hx hne => ?_, fun hs => hgen (h.own ?_), hflags⟩
    · simp only [TxnManager.votes, Prod.mk.injEq]
      exact heq
    · rw [hm.nodeId] at hne
      refine h.heard x ?_ hne
      rwa [manager, last, ← heq.2.2.2.1]
    · exact heq.1 ▸ hs
  | @casts qc hsent hg heq =>
    obtain ⟨_, _, _, hcast⟩ := @castVote_eq cfg { o.manager r with genericQC := qc, syncSent := true } r.nodeId
    have hhash : (o.manager r).hash = o.hash crypto := (ht.generic hg).2.1
    left
    refine ⟨?_, fun x hx hne => ?_, fun _ => hgen hg, hflags⟩
    · rw [hm.nodeId, manager, last, heq, ← hhash]
      exact TxnManager.Tally.castVote (hhash ▸ h.tally) hsent qc
    · rw [hm.nodeId] at hne
      refine h.heard x ?_ hne
      have hvotes := congrArg TxnManager.voteNewView (heq.trans hcast)
      exact hvotes ▸ hx
  | @counts m hP hid heq =>
    have hvote : o.Vote crypto m := by
      cases hP.sent hid with
      | vote hv => exact hv
    obtain ⟨_, _, _, _, _, hcount⟩ := @hotstuffNewViewed_eq cfg (o.manager r) r.nodeId m
    left
    refine ⟨?_, fun x hx hne => ?_, fun hs => hgen (h.own ?_), hflags⟩
    · rw [hm.nodeId, manager, last, heq, ← hvote.hash]
      refine TxnManager.Tally.hotstuffNewViewed (hvote.hash ▸ h.tally) ?_
      rw [hnode]
      exact hP.peer.foreign
    · rw [hm.nodeId] at hne
      rw [manager, last, heq] at hx
      rcases hotstuffNewViewed_heard_cases _ _ m hne hx with hx | rfl
      · exact h.heard x hx hne
      · exact ⟨m, hvote, hP.arrived, rfl⟩
    · have hsync := congrArg TxnManager.syncSent (heq.trans hcount)
      exact hsync ▸ hs
  | recycles hlt hrec => exact .inr ⟨hlt.trans_le hindex, hrec.genericReceived⟩

lemma Tracks.move (h : o.Tracks crypto D r) (h₀ : Steady cfg r₀)
    (hbackup : cfg.getViewPrimary o.view o.instanceId ≠ r₀.nodeId) (hnode : r.nodeId = r₀.nodeId)
    (hm : o.SlotMoves crypto D r₀ r s) : o.Tracks crypto D s := by
  have hcore : o.CoreMove crypto (o.Supply crypto D r₀.nodeId) r s :=
    coreMove h₀ hbackup (fun _ hP => hP.peer) (fun _ hP => hP.sent) hm
  have hcounted : o.Counts crypto D s ∨ o.last < s.exec.nextIndex ∧ (o.manager s).genericReceived = false := by
    rcases h.counted with hc | ⟨hlt, hgen⟩
    · exact hc.move h h₀ hnode hcore hm
    · refine .inr ⟨hlt.trans_le hm.nextIndex_le, ?_⟩
      cases hcore with
      | generic _ hindex => omega
      | recycles _ hrec => exact hrec.genericReceived
      | _ =>
        rename_i heq
        simp only [core, Prod.mk.injEq] at heq
        exact heq.2.2.1.trans hgen
  have hparked : ∀ i, ∀ m ∈ s.queues i, (o.Names (.generic m) → o.Sent crypto (.generic m)) ∧ D (.generic m) := by
    intro i m hmem
    rcases hm.queues i m hmem with hmem | ⟨_, hP⟩
    · exact h.parked i m hmem
    · exact ⟨hP.sent, hP.arrived⟩
  cases hcore with
  | keeps heq =>
    simp only [core, Prod.mk.injEq] at heq
    obtain ⟨hhash, hprop, hgen, hqc, _⟩ := heq
    refine ⟨hhash ▸ h.hash, fun hp => h.proposal (hprop ▸ hp), fun hg => ?_, hparked, hcounted⟩
    rw [hhash, hqc]
    exact h.generic (hgen ▸ hg)
  | proposal hP heq =>
    simp only [core, Prod.mk.injEq] at heq
    obtain ⟨hhash, _, hgen, hqc, _⟩ := heq
    refine ⟨.inr hhash, fun _ => hP.arrived, fun hg => ?_, hparked, hcounted⟩
    obtain ⟨hD, _, hold⟩ := h.generic (hgen ▸ hg)
    exact ⟨hD, hhash, hqc.trans hold⟩
  | generic hP _ _ heq =>
    simp only [core, Prod.mk.injEq] at heq
    obtain ⟨hhash, hprop, _, hqc, _⟩ := heq
    exact ⟨.inr hhash, fun hp => h.proposal (hprop ▸ hp), fun _ => ⟨hP.arrived, hhash, hqc⟩, hparked, hcounted⟩
  | recycles _ hrec =>
    refine ⟨.inl hrec.hash, fun hp => ?_, fun hg => ?_, hparked, hcounted⟩
    · rw [hrec.proposalReceived] at hp
      cases hp
    · rw [hrec.genericReceived] at hg
      cases hg

lemma Arrives.supply (he : o.Arrives crypto r e) {m : Msg} (hm : e = .deliver m) (hD : D m) :
    o.Supply crypto D r.nodeId m := by
  subst hm
  exact ⟨he.1.peer, he.2 m rfl, hD⟩

lemma Tracks.supply_parked (h : o.Tracks crypto D r) (h₀ : Steady cfg r) (i : ℕ) :
    ∀ m ∈ r.queues i, o.Supply crypto D r.nodeId (.generic m) :=
  fun m hm => ⟨h₀.parked i m hm, (h.parked i m hm).1, (h.parked i m hm).2⟩

lemma Tracks.moves (h : o.Tracks crypto D r) (h₀ : Steady cfg r) (he : o.Arrives crypto r e)
    (hD : ∀ m, e = .deliver m → D m) (hs : r.step cfg crypto e = some s) :
    Moves cfg crypto (o.Supply crypto D r.nodeId) (Current cfg r) (fun _ _ => True) r r s := by
  refine step_moves ?_ (h.supply_parked h₀) (fun _ hid => h₀.paired.current h₀.alloc hid) hs
  cases e with
  | deliver m => exact he.supply rfl (hD m rfl)
  | recycle => exact he.1.1
  | proposalThread => exact fun _ _ _ => trivial
  | _ => trivial

end Tracks

end Offer

end SpotLess
