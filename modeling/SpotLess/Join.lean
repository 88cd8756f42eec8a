import SpotLess.Tally
import SpotLess.Retention

/-! The join of a slot at a backup: its PROPOSAL, its GENERIC and its votes come in any order, and the replica leaves
the slot's view with the step after which it has all of them. -/

namespace SpotLess

open Lib

-- Nothing is left to do for a slot: its vote is cast, and no advance is due.
structure TxnManager.Settled (t : TxnManager) : Prop where
  voted : t.genericReceived = true → t.syncSent = true
  waits : ¬ t.Ready

namespace Replica

variable {cfg : Config} {crypto : Crypto} {r₀ r s u : Replica} {p w i : ℕ}

abbrev PeerMove (cfg : Config) (crypto : Crypto) (r₀ : Replica) :=
  Move cfg crypto (Msg.Peer cfg r₀.nodeId) (Current cfg r₀) (fun _ _ => True) r₀

lemma Steady.paced_move (h₀ : Steady cfg r₀) (hr : Paced cfg r) (hm : PeerMove cfg crypto r₀ r s) : Paced cfg s :=
  h₀.paced.move h₀.alloc h₀.fed hr hm

section Settled

lemma settled_of_recycled {t : TxnManager} (h : t.Recycled) : t.Settled where
  voted hg := by
    rw [h.genericReceived] at hg
    cases hg
  waits hr := by
    have hg := hr.2.2
    rw [h.genericReceived] at hg
    cases hg

lemma Paced.left (hp : Paced cfg u) (hi : i < cfg.totInstances) (hready : (u.table (cfg.lastTxn w i)).Ready)
    (ha : u.advanceView cfg (cfg.lastTxn w i) = some s) : w < (s.inst i).view := by
  obtain ⟨hhash, _⟩ := advanceView_eq ha
  obtain ⟨w', j, hj, heq, hle⟩ := hp.taken _ hready.2.2
  obtain ⟨rfl, rfl⟩ := cfg.lastTxn_inj hi hj heq
  rw [advanceView_view ha, if_pos (hp.insts w i hi hhash).symm]
  omega

lemma settled_of_handler {k : ℕ} (hp : Paced cfg u) (hi : i < cfg.totInstances) (hview : (s.inst i).view ≤ w)
    (hend : (u.table k).Ready ∧ u.advanceView cfg k = some s ∨ (cfg.lastTxn w i = k → ¬ (u.table k).Ready) ∧ s = u)
    (hvoted : cfg.lastTxn w i = k → (u.table k).genericReceived = true → (u.table k).syncSent = true)
    (hothers : cfg.lastTxn w i ≠ k → (u.table (cfg.lastTxn w i)).Settled) : (s.table (cfg.lastTxn w i)).Settled := by
  by_cases hk : cfg.lastTxn w i = k
  · subst hk
    rcases hend with ⟨hready, ha⟩ | ⟨hnot, rfl⟩
    · have := hp.left hi hready ha
      omega
    · exact ⟨hvoted rfl, hnot rfl⟩
  · rcases hend with ⟨_, ha⟩ | ⟨_, rfl⟩
    · rw [advanceView_table ha, Function.update_of_ne hk]
      exact hothers hk
    · exact hothers hk

lemma voteGeneric_syncSent (r : Replica) (m : GenericMsg) :
    ((r.voteGeneric cfg crypto m).table m.txnId).syncSent = true := by
  rw [voteGeneric]
  rcases sendHotstuffNewview_cases cfg crypto ((r.storeGeneric m).lockGeneric cfg m) m.txnId with ⟨hsent, heq⟩ | ⟨_, hc⟩
  · rw [heq]
    exact hsent
  · rw [hc.table, Function.update_self]
    obtain ⟨_, _, _, heq⟩ := @castVote_eq cfg { ((r.storeGeneric m).lockGeneric cfg m).table m.txnId with
      genericQC := ((r.storeGeneric m).lockGeneric cfg m).ownShare cfg crypto m.txnId, syncSent := true }
      ((r.storeGeneric m).lockGeneric cfg m).nodeId
    rw [heq]

lemma sendHotstuffNewview_table_of_ne (r : Replica) {id k : ℕ} (hk : k ≠ id) :
    (r.sendHotstuffNewview cfg crypto id).table k = r.table k := by
  rcases sendHotstuffNewview_cases cfg crypto r id with ⟨_, heq⟩ | ⟨_, hc⟩
  · rw [heq]
  · rw [hc.table, Function.update_of_ne hk]

lemma voteGeneric_table_of_ne (r : Replica) (m : GenericMsg) {k : ℕ} (hk : k ≠ m.txnId) :
    (r.voteGeneric cfg crypto m).table k = r.table k := by
  rw [voteGeneric, sendHotstuffNewview_table_of_ne _ hk, storeGeneric_lockGeneric_table, Function.update_of_ne hk]

lemma handleGenericP_table_of_ne {id k : ℕ} (hs : r.handleGenericP cfg crypto id = some s) (hk : k ≠ id) :
    s.table k = r.table k := by
  simp only [handleGenericP] at hs
  split_ifs at hs
  · obtain rfl := Option.some.inj hs
    rfl
  · obtain ⟨_, rfl⟩ := processHotstuffGenericP_cases hs
    rw [sendHotstuffNewview_table_of_ne _ hk]
    simp [Function.update_of_ne hk]

lemma hotstuffNewViewed_again {t : TxnManager} {me : ℕ} {m : SyncMsg} (hquorum : (hotstuffNewViewed cfg t me m).2 ≠ true)
    (hviewed : (hotstuffNewViewed cfg t me m).1.newViewed = true) : t.newViewed = true := by
  simp only [hotstuffNewViewed] at hquorum hviewed
  split_ifs at hquorum hviewed with hold
  · exact hold
  · simpa using hviewed
  · exact absurd rfl hquorum
  · simpa [TxnManager.pushVoter] using hviewed

variable (h₀ : Steady cfg r₀) (hi : i < cfg.totInstances) (hview : (s.inst i).view ≤ w)

include h₀ hi hview

lemma handleProposal_settled {m : ProposalMsg} (hm : Msg.Peer cfg r₀.nodeId (.proposal m))
    (hs : r₀.handleProposal cfg crypto m = some s) (h : (r₀.table (cfg.lastTxn w i)).Settled) :
    (s.table (cfg.lastTxn w i)).Settled := by
  simp only [handleProposal] at hs
  split_ifs at hs with hindex
  · exact Option.some.inj hs ▸ h
  rcases processHotstuffProposal_cases hs with rfl | ⟨table, hacc, hend⟩
  · exact h
  have hnamed : m.Named cfg := hm.named
  have hhashes := storeProposal_hashes hnamed hm.wellFormed hacc
  have hmove : PeerMove cfg crypto r₀ r₀ (r₀.storeProposal m table) := .proposal hm (by omega) hacc
  have hlast : m.index.getLastD 0 = cfg.lastTxn m.view m.instanceId := by rw [hnamed.index, cfg.slotTxns_getLastD]
  have hready : ((r₀.storeProposal m table).table (m.index.getLastD 0)).Ready ↔
      (table (m.index.getLastD 0)).newViewed = true ∧ (table (m.index.getLastD 0)).genericReceived = true := by
    simp [storeProposal, rememberTxnid, TxnManager.Ready]
  refine settled_of_handler (h₀.paced_move h₀.paced hmove) hi hview (k := m.index.getLastD 0) ?_ ?_ ?_
  · rw [hready]
    exact hend.imp_right (.imp_left fun hnot _ => hnot)
  · intro hk hg
    obtain ⟨rfl, rfl⟩ := cfg.lastTxn_inj hi hm.wellFormed.1 (hk.trans hlast)
    obtain ⟨_, _, _, _, heq⟩ := hhashes.last
    rw [hlast, heq] at hg ⊢
    exact h.voted hg
  · intro hk
    rw [hhashes.others w i hi fun hwi => hk (by rw [hlast, (Prod.mk.inj hwi).1, (Prod.mk.inj hwi).2])]
    exact h

lemma handleGeneric_settled {m : GenericMsg} (hm : Msg.Peer cfg r₀.nodeId (.generic m)) (hpaced : Paced cfg r)
    (hsame : SameViews r₀ r) (htable : r.table = r₀.table) (hs : r.handleGeneric cfg crypto m = some s)
    (h : (r₀.table (cfg.lastTxn w i)).Settled) : (s.table (cfg.lastTxn w i)).Settled := by
  have hr : (r.table (cfg.lastTxn w i)).Settled := htable ▸ h
  simp only [handleGeneric] at hs
  split_ifs at hs with hpark hindex
  · exact Option.some.inj hs ▸ hr
  · exact Option.some.inj hs ▸ hr
  rcases processHotstuffGeneric_cases hs with rfl | ⟨hacc, hend⟩
  · exact hr
  have hmoves : Moves cfg crypto (Msg.Peer cfg r₀.nodeId) (Current cfg r₀) (fun _ _ => True) r₀ r
      (r.voteGeneric cfg crypto m) := voteGeneric_moves hm hsame htable (by omega) (by omega) hacc
  have hpaced' : Paced cfg (r.voteGeneric cfg crypto m) :=
    hmoves.invariant (fun _ _ huv hu => h₀.paced_move hu huv) hpaced
  have hgeneric : ((r.voteGeneric cfg crypto m).table m.txnId).genericReceived = true :=
    voteGeneric_genericReceived r m
  refine settled_of_handler hpaced' hi hview (k := m.txnId) ?_ (fun _ _ => voteGeneric_syncSent r m) ?_
  · have hready : ((r.voteGeneric cfg crypto m).table m.txnId).Ready ↔
        ((r.voteGeneric cfg crypto m).table m.txnId).newViewed = true ∧
          ((r.voteGeneric cfg crypto m).table m.txnId).proposalReceived = true := by
      simp [TxnManager.Ready, hgeneric]
    rw [hready]
    exact hend.imp_right (.imp_left fun hnot _ => hnot)
  · intro hk
    rw [voteGeneric_table_of_ne r m hk]
    exact hr

lemma handleSync_settled {m : SyncMsg} (hm : Msg.Peer cfg r₀.nodeId (.sync m)) (hs : r₀.handleSync cfg crypto m = some s)
    (h : (r₀.table (cfg.lastTxn w i)).Settled) : (s.table (cfg.lastTxn w i)).Settled := by
  simp only [handleSync] at hs
  split_ifs at hs with hstale
  · exact Option.some.inj hs ▸ h
  rcases processHotstuffNewView_cases hs with rfl | ⟨hh, hend⟩
  · exact h
  have hmove : PeerMove cfg crypto r₀ r₀ (r₀.countVote cfg m) := .count hm hstale hh
  have hcount : (r₀.countVote cfg m).table m.txnId = (hotstuffNewViewed cfg (r₀.table m.txnId) r₀.nodeId m).1 := by
    rw [countVote_table, Function.update_self]
  obtain ⟨_, _, _, _, _, heq⟩ := @hotstuffNewViewed_eq cfg (r₀.table m.txnId) r₀.nodeId m
  refine settled_of_handler (h₀.paced_move h₀.paced hmove) hi hview (k := m.txnId) ?_ ?_ ?_
  · rcases hend with ⟨⟨hquorum, hprop, hgen⟩, ha⟩ | ⟨hnot, rfl⟩
    · rw [hcount]
      exact .inl ⟨⟨hotstuffNewViewed_newViewed hquorum, hprop, hgen⟩, ha⟩
    · refine .inr ⟨fun hk hready => ?_, rfl⟩
      rw [hcount] at hready
      have hold := hotstuffNewViewed_again (fun hquorum => hnot ⟨hquorum, hready.2⟩) hready.1
      rw [heq] at hready
      exact h.waits (hk ▸ ⟨hold, hready.2⟩)
  · intro hk hg
    rw [hcount, heq] at hg ⊢
    exact hk ▸ h.voted (hk ▸ hg)
  · intro hk
    rw [countVote_table, Function.update_of_ne hk]
    exact h

end Settled

section Step

lemma proposalStep_table {k j : ℕ} (h : Steady cfg r) (hi : i < cfg.totInstances)
    (hbackup : cfg.getViewPrimary w i ≠ r.nodeId) (hs : r.proposalStep cfg crypto k j = some s) :
    s.table (cfg.lastTxn w i) = r.table (cfg.lastTxn w i) := by
  simp only [proposalStep] at hs
  split at hs
  · split_ifs at hs
    exact Option.some.inj hs ▸ rfl
  · split_ifs at hs
    exact Option.some.inj hs ▸ rfl
  · split_ifs at hs
    split at hs
    · cases hs
    · exact Option.some.inj hs ▸ rfl
  · exact Option.some.inj hs ▸ rfl
  · rename_i slot batch hpc
    obtain ⟨t, ht, rfl⟩ := Option.map_eq_some_iff.mp hs
    obtain ⟨hown, table, hfill, rfl⟩ := createAndSendHotstuffPrepare_cases ht
    have hlen := h.fed.inHand batch (by rw [hpc]; exact List.mem_singleton_self _)
    refine (storeBatch_hashes h.alloc hpc hlen hfill).others w i hi fun hwi => hbackup ?_
    rw [(Prod.mk.inj hwi).1, (Prod.mk.inj hwi).2, hown]
  · exact Option.some.inj hs ▸ rfl

lemma held_ne {id : ℕ} (h : Steady cfg r) (hi : i < cfg.totInstances) (hbackup : cfg.getViewPrimary w i ≠ r.nodeId)
    (hid : r.Held id) : cfg.lastTxn w i ≠ id := by
  obtain ⟨j, hj, rfl, hown⟩ := h.paired.current h.alloc hid
  intro heq
  obtain ⟨rfl, rfl⟩ := cfg.lastTxn_inj hi hj heq
  exact hbackup hown

lemma genericStep_table {k : ℕ} {busy : Bool} (h : Steady cfg r) (hi : i < cfg.totInstances)
    (hbackup : cfg.getViewPrimary w i ≠ r.nodeId) (hs : r.genericStep cfg crypto k busy = some s) :
    s.table (cfg.lastTxn w i) = r.table (cfg.lastTxn w i) := by
  simp only [genericStep] at hs
  split at hs
  · split_ifs at hs
    exact Option.some.inj hs ▸ rfl
  · split_ifs at hs
    exact Option.some.inj hs ▸ rfl
  · split_ifs at hs
    exact Option.some.inj hs ▸ rfl
  · exact Option.some.inj hs ▸ rfl
  · exact Option.some.inj hs ▸ rfl
  · rename_i id hpc
    split_ifs at hs
    · exact Option.some.inj hs ▸ rfl
    · obtain ⟨t, ht, rfl⟩ := Option.map_eq_some_iff.mp hs
      have htable := handleGenericP_table_of_ne ht (held_ne h hi hbackup (.inl hpc))
      exact htable

-- A step of the replica's own threads leaves the managers of other primaries' slots alone, except for recycling one.
def Event.Internal : Event → Prop
  | .deliver _ | .replay _ => False
  | _ => True

lemma proposalStep_certs {k j : ℕ} (hs : r.proposalStep cfg crypto k j = some s) (i : ℕ) :
    (r.inst i).SameCerts (s.inst i) := by
  simp only [proposalStep] at hs
  split at hs
  · split_ifs at hs
    exact Option.some.inj hs ▸ .refl _
  · split_ifs at hs
    exact Option.some.inj hs ▸ .refl _
  · split_ifs at hs
    split at hs
    · cases hs
    · exact Option.some.inj hs ▸ .refl _
  · exact Option.some.inj hs ▸ .refl _
  · rename_i slot batch hpc
    obtain ⟨t, ht, rfl⟩ := Option.map_eq_some_iff.mp hs
    obtain ⟨_, table, _, rfl⟩ := createAndSendHotstuffPrepare_cases ht
    change (r.inst i).SameCerts (Function.update r.inst _ _ i)
    rw [Function.update_apply]
    split_ifs with hi
    · rw [hi]
      exact ⟨rfl, rfl, rfl, rfl⟩
    · exact .refl _
  · exact Option.some.inj hs ▸ .refl _

lemma genericStep_inst {k : ℕ} {busy : Bool} (hs : r.genericStep cfg crypto k busy = some s) : s.inst = r.inst := by
  simp only [genericStep] at hs
  split at hs
  all_goals try split_ifs at hs
  all_goals try
    obtain rfl := Option.some.inj hs
    rfl
  obtain ⟨t, ht, rfl⟩ := Option.map_eq_some_iff.mp hs
  have hinst := handleGenericP_inst ht
  exact hinst

lemma step_internal (h : Steady cfg r) {e : Event} (he : NamedStep cfg r e) (hs : r.step cfg crypto e = some s)
    (hi : i < cfg.totInstances) (hbackup : cfg.getViewPrimary w i ≠ r.nodeId) (hint : e.Internal) :
    (s.table (cfg.lastTxn w i) = r.table (cfg.lastTxn w i) ∨
      cfg.lastTxn w i < r.exec.nextIndex ∧ (s.table (cfg.lastTxn w i)).Recycled) ∧
    ∀ j, (r.inst j).SameCerts (s.inst j) := by
  cases e with
  | deliver => exact hint.elim
  | replay => exact hint.elim
  | clientBatch j batch =>
    simp only [step, enqueueBatch] at hs
    split_ifs at hs
    obtain rfl := Option.some.inj hs
    exact ⟨.inl rfl, fun _ => .refl _⟩
  | proposalThread k j => exact ⟨.inl (proposalStep_table h hi hbackup hs), proposalStep_certs hs⟩
  | genericThread k busy =>
    exact ⟨.inl (genericStep_table h hi hbackup hs), fun j => genericStep_inst hs ▸ .refl _⟩
  | workerGenericP k =>
    simp only [step, workerGenericP] at hs
    split at hs
    · rename_i id hid
      have htable := handleGenericP_table_of_ne hs (held_ne h hi hbackup (.inr (List.mem_of_getElem? hid)))
      have hinst := handleGenericP_inst hs
      refine ⟨.inl htable, fun j => ?_⟩
      rw [hinst]
      exact .refl _
    · cases hs
  | execute k =>
    obtain ⟨e, _, rfl⟩ := Option.map_eq_some_iff.mp hs
    exact ⟨.inl rfl, fun _ => .refl _⟩
  | recycle id t =>
    simp only [step, Replica.recycle] at hs
    split_ifs at hs with hindex
    obtain rfl := Option.some.inj hs
    refine ⟨?_, fun _ => .refl _⟩
    by_cases hid : cfg.lastTxn w i = id
    · refine .inr ⟨by omega, ?_⟩
      rw [setTxn_table, hid, Function.update_self]
      exact he.1.1
    · exact .inl (by rw [setTxn_table, Function.update_of_ne hid])

lemma handled_settled (h : Steady cfg r) {e : Event} (he : NamedStep cfg r e) (hs : r.step cfg crypto e = some s)
    (hi : i < cfg.totInstances) (hview : (s.inst i).view ≤ w) (hext : ¬ e.Internal)
    (hr : (r.table (cfg.lastTxn w i)).Settled) : (s.table (cfg.lastTxn w i)).Settled := by
  cases e with
  | deliver m =>
    have hm := he.peer
    cases m with
    | proposal m => exact handleProposal_settled h hi hview hm hs hr
    | generic m => exact handleGeneric_settled h hi hview hm h.paced (.refl r) rfl hs hr
    | sync m => exact handleSync_settled h hi hview hm hs hr
  | replay j =>
    simp only [step, replay] at hs
    split at hs
    · cases hs
    · rename_i m rest hq
      have hmem : ∀ x ∈ m :: rest, x ∈ r.queues j := fun x hx => List.mem_append_left _ (hq ▸ hx)
      have hidle : Idle (Msg.Peer cfg r.nodeId) r (r.setInst j { r.inst j with priorQueue := rest }) := by
        refine Idle.setQueues (r := r) (i := j) fun x hx => .inl ?_
        rcases List.mem_append.mp hx with hx | hx
        · exact hmem x (List.mem_cons_of_mem m hx)
        · exact List.mem_append_right _ hx
      have hmove : PeerMove cfg crypto r r (r.setInst j { r.inst j with priorQueue := rest }) := .idle hidle
      exact handleGeneric_settled h hi hview (h.parked j m (hmem m List.mem_cons_self))
        (h.paced_move h.paced hmove) hidle.sameViews rfl hs hr
  | _ => exact absurd trivial hext

lemma step_settled (h : Steady cfg r) {e : Event} (he : NamedStep cfg r e) (hs : r.step cfg crypto e = some s)
    (hi : i < cfg.totInstances) (hbackup : cfg.getViewPrimary w i ≠ r.nodeId) (hview : (s.inst i).view ≤ w)
    (hr : (r.table (cfg.lastTxn w i)).Settled) : (s.table (cfg.lastTxn w i)).Settled := by
  by_cases hint : e.Internal
  · rcases (step_internal h he hs hi hbackup hint).1 with htable | ⟨_, hrec⟩
    · rwa [htable]
    · exact settled_of_recycled hrec
  · exact handled_settled h he hs hi hview hint hr

lemma Steady.view_le (h : Steady cfg r) {e : Event} (he : NamedStep cfg r e) (hs : r.step cfg crypto e = some s)
    (i : ℕ) : (r.inst i).view ≤ (s.inst i).view :=
  (h.moves he hs).invariant (I := fun u => (r.inst i).view ≤ (u.inst i).view)
    (fun _ _ huv hu => hu.trans (huv.view_le i)) le_rfl

def Joining (cfg : Config) (w i : ℕ) (r : Replica) : Prop :=
  (r.inst i).view ≤ w → (r.table (cfg.lastTxn w i)).Settled

end Step

section Turn

variable {P : Msg → Prop}

-- What a step does before it may advance: it leaves the certificates of the instance alone, or takes a GENERIC.
inductive Turn (cfg : Config) (crypto : Crypto) (P : Msg → Prop) (w i : ℕ) (r u : Replica) : Prop
  | keeps (hcerts : (r.inst i).SameCerts (u.inst i))
      (hg : (u.table (cfg.lastTxn w i)).genericReceived = (r.table (cfg.lastTxn w i)).genericReceived ∨
        cfg.lastTxn w i < r.exec.nextIndex ∧ (u.table (cfg.lastTxn w i)).Recycled)
  | takes {t : Replica} {m : GenericMsg} (hm : P (.generic m)) (hindex : r.exec.nextIndex < m.txnId)
      (hview : m.view ≤ (r.inst m.instanceId).view) (hcerts : ∀ j, (r.inst j).SameCerts (t.inst j))
      (htable : t.table = r.table) (hacc : AcceptsGeneric cfg crypto t m) (h : u = t.voteGeneric cfg crypto m)

structure Eve (cfg : Config) (crypto : Crypto) (P : Msg → Prop) (w i : ℕ) (r u s : Replica) : Prop where
  moves : Moves cfg crypto P (Current cfg r) (fun _ _ => True) r r u
  views : ∀ j, (u.inst j).view = (r.inst j).view
  turn : Turn cfg crypto P w i r u
  ends : s = u ∨ ∃ m, P m ∧ SameViews r u ∧ Unready P r (manager m) ∧ (u.table (manager m)).Ready ∧
    u.advanceView cfg (manager m) = some s

lemma Eve.refl (r : Replica) : Eve cfg crypto P w i r r r where
  moves := .refl
  views _ := rfl
  turn := .keeps (.refl _) (.inl rfl)
  ends := .inl rfl

lemma handleProposal_eve {m : ProposalMsg} (hm : P (.proposal m)) (hpeer : Msg.Peer cfg p (.proposal m))
    (hi : i < cfg.totInstances) (hs : r.handleProposal cfg crypto m = some s) : ∃ u, Eve cfg crypto P w i r u s := by
  simp only [handleProposal] at hs
  split_ifs at hs with hindex
  · exact ⟨r, Option.some.inj hs ▸ .refl r⟩
  rcases processHotstuffProposal_cases hs with rfl | ⟨table, hacc, hend⟩
  · exact ⟨s, .refl s⟩
  have hhashes := storeProposal_hashes hpeer.named hpeer.wellFormed hacc
  have hsame : SameViews r (r.storeProposal m table) := .storeProposal r m table
  refine ⟨r.storeProposal m table, .single (.proposal hm (by omega) hacc), hsame.view, .keeps ?_ (.inl ?_), ?_⟩
  · change (r.inst i).SameCerts (Function.update r.inst _ _ i)
    rw [Function.update_apply]
    split_ifs with him
    · rw [him]
      exact ⟨rfl, rfl, rfl, rfl⟩
    · exact .refl _
  · by_cases hwi : (w, i) = (m.view, m.instanceId)
    · obtain ⟨rfl, rfl⟩ := Prod.mk.inj hwi
      obtain ⟨_, _, _, _, heq⟩ := hhashes.last
      rw [heq]
    · rw [hhashes.others w i hi hwi]
  · have hnamed : m.Named cfg := hpeer.named
    have hlast : m.index.getLastD 0 = manager (.proposal m) := by
      rw [hnamed.index, cfg.slotTxns_getLastD, ← hnamed.txnId, manager]
    rcases hend with ⟨hready, ha⟩ | ⟨_, rfl⟩
    · refine .inr ⟨_, hm, hsame, .proposal hm hlast (by omega) hacc.fresh, ?_, hlast ▸ ha⟩
      rw [← hlast]
      simp only [storeProposal, rememberTxnid, setInst_table, Function.update_self]
      exact ⟨hready.1, rfl, hready.2⟩
    · exact .inl rfl

lemma handleSync_eve {m : SyncMsg} (hm : P (.sync m)) (hs : r.handleSync cfg crypto m = some s) :
    ∃ u, Eve cfg crypto P w i r u s := by
  simp only [handleSync] at hs
  split_ifs at hs with hstale
  · exact ⟨r, Option.some.inj hs ▸ .refl r⟩
  rcases processHotstuffNewView_cases hs with rfl | ⟨hh, hend⟩
  · exact ⟨s, .refl s⟩
  obtain ⟨_, _, _, _, _, heq⟩ := @hotstuffNewViewed_eq cfg (r.table m.txnId) r.nodeId m
  have hsame : SameViews r (r.countVote cfg m) := .countVote r m
  refine ⟨r.countVote cfg m, .single (.count hm hstale hh), hsame.view, .keeps ?_ (.inl ?_), ?_⟩
  · simp only [countVote, bindTxnid]
    split_ifs
    · change (r.inst i).SameCerts (Function.update r.inst _ _ i)
      rw [Function.update_apply]
      split_ifs with him
      · rw [him]
        exact ⟨rfl, rfl, rfl, rfl⟩
      · exact .refl _
    · exact .refl _
  · rw [countVote_table]
    refine update_genericReceived ?_
    rw [heq]
  · rcases hend with ⟨hready, ha⟩ | ⟨_, rfl⟩
    · have hg := hready.2.2
      rw [heq] at hg
      refine .inr ⟨_, hm, hsame, .count hg (hotstuffNewViewed_fresh hready.1), ?_, ha⟩
      simp only [manager, countVote, setTxn_table, Function.update_self]
      exact ⟨hotstuffNewViewed_newViewed hready.1, hready.2.1, hready.2.2⟩
    · exact .inl rfl

lemma handleGeneric_eve {m : GenericMsg} (hm : P (.generic m)) (hidle : Idle P r₀ r)
    (hs : r.handleGeneric cfg crypto m = some s) : ∃ u, Eve cfg crypto P w i r₀ u s := by
  have hcerts : ∀ j, (r₀.inst j).SameCerts (r.inst j) := by
    intro j
    obtain ⟨_, _, heq⟩ := hidle.chain j
    rw [heq]
    exact ⟨rfl, rfl, rfl, rfl⟩
  have hsame := hidle.sameViews
  have hmoves : Moves cfg crypto P (Current cfg r₀) (fun _ _ => True) r₀ r₀ r := hidle.moves
  have hkeeps : r.table = r₀.table := hidle.table
  simp only [handleGeneric] at hs
  split_ifs at hs with hpark hindex
  · have hall : r.handleGeneric cfg crypto m = some s := by
      simp only [handleGeneric, if_pos hpark]
      exact hs
    have hparked : Moves cfg crypto P (Current cfg r₀) (fun _ _ => True) r₀ r₀ s :=
      hmoves.trans (handleGeneric_moves hm hsame hkeeps hall)
    obtain rfl := Option.some.inj hs
    have hinst : ∀ j, (r.inst j).SameCerts ((r.setInst m.instanceId
        { r.inst m.instanceId with tempQueue := (r.inst m.instanceId).tempQueue ++ [m] }).inst j) := by
      intro j
      rw [setInst_inst, Function.update_apply]
      split_ifs with hj
      · rw [hj]
        exact ⟨rfl, rfl, rfl, rfl⟩
      · exact .refl _
    have hboth := fun j => (hcerts j).trans (hinst j)
    exact ⟨_, hparked, fun j => (hboth j).view, .keeps (hboth i) (.inl (by rw [setInst_table, hkeeps])), .inl rfl⟩
  · obtain rfl := Option.some.inj hs
    exact ⟨r, hmoves, hsame.view, .keeps (hcerts i) (.inl (by rw [hkeeps])), .inl rfl⟩
  · have hlt : r₀.exec.nextIndex < m.txnId := by
      have := hsame.nextIndex
      omega
    rcases processHotstuffGeneric_cases hs with rfl | ⟨hacc, hend⟩
    · exact ⟨s, hmoves, hsame.view, .keeps (hcerts i) (.inl (by rw [hkeeps])), .inl rfl⟩
    have hvote : SameViews r₀ (r.voteGeneric cfg crypto m) := hsame.trans ((SameViews.generic r m).trans (.vote _ _))
    have hview : m.view ≤ (r₀.inst m.instanceId).view := by
      have := hsame.view m.instanceId
      omega
    refine ⟨r.voteGeneric cfg crypto m, hmoves.trans (voteGeneric_moves hm hsame hkeeps (by omega) (by omega) hacc),
      hvote.view, .takes hm hlt hview hcerts hkeeps hacc rfl, ?_⟩
    rcases hend with ⟨hready, ha⟩ | ⟨_, rfl⟩
    · refine .inr ⟨_, hm, hvote, .generic hlt (hkeeps ▸ hacc.fresh), ⟨hready.1, hready.2, ?_⟩, ha⟩
      exact voteGeneric_genericReceived _ m
    · exact .inl rfl

lemma handled_eve {e : Event} (he : NamedStep cfg r e) (hs : r.step cfg crypto e = some s) (hi : i < cfg.totInstances)
    (hext : ¬ e.Internal) (hP : ∀ m, e = .deliver m → P m) (hparked : ∀ j, ∀ m ∈ r.queues j, P (.generic m)) :
    ∃ u, Eve cfg crypto P w i r u s := by
  cases e with
  | deliver m =>
    cases m with
    | proposal m => exact handleProposal_eve (hP _ rfl) he.peer hi hs
    | generic m => exact handleGeneric_eve (hP _ rfl) (.of_threads rfl rfl rfl rfl rfl rfl) hs
    | sync m => exact handleSync_eve (hP _ rfl) hs
  | replay j =>
    simp only [step, replay] at hs
    split at hs
    · cases hs
    · rename_i m rest hq
      have hmem : ∀ x ∈ m :: rest, x ∈ r.queues j := fun x hx => List.mem_append_left _ (hq ▸ hx)
      have hidle : Idle P r (r.setInst j { r.inst j with priorQueue := rest }) := by
        refine Idle.setQueues (r := r) (i := j) fun x hx => .inl ?_
        rcases List.mem_append.mp hx with hx | hx
        · exact hmem x (List.mem_cons_of_mem m hx)
        · exact List.mem_append_right _ hx
      exact handleGeneric_eve (hparked j m (hmem m List.mem_cons_self)) hidle hs
  | _ => exact absurd trivial hext

lemma step_eve (h : Steady cfg r) {e : Event} (he : NamedStep cfg r e) (hs : r.step cfg crypto e = some s)
    (hi : i < cfg.totInstances) (hbackup : cfg.getViewPrimary w i ≠ r.nodeId) (hP : ∀ m, e = .deliver m → P m)
    (hparked : ∀ j, ∀ m ∈ r.queues j, P (.generic m)) : ∃ u, Eve cfg crypto P w i r u s := by
  by_cases hint : e.Internal
  · have hmoves : Moves cfg crypto P (Current cfg r) (fun _ _ => True) r r s := by
      refine step_moves ?_ hparked (fun _ hid => h.paired.current h.alloc hid) hs
      cases e with
      | deliver m => exact hP m rfl
      | recycle => exact he.1
      | proposalThread => exact fun _ _ _ => trivial
      | _ => trivial
    obtain ⟨htable, hcerts⟩ := step_internal h he hs hi hbackup hint
    refine ⟨s, hmoves, fun j => (hcerts j).view, .keeps (hcerts i) ?_, .inl rfl⟩
    exact htable.imp_left fun heq => by rw [heq]
  · exact handled_eve he hs hi hint hP hparked

end Turn

lemma hotstuffNewViewed_heard_cases (t : TxnManager) (me : ℕ) (m : SyncMsg) {x : ℕ} (hne : x ≠ me)
    (hx : x ∈ (hotstuffNewViewed cfg t me m).1.voteNewView) : x ∈ t.voteNewView ∨ x = m.returnNodeId := by
  simp only [hotstuffNewViewed] at hx
  split_ifs at hx
  · exact .inl hx
  · exact .inl ((TxnManager.seedVotes_heard t hne).mp hx)
  all_goals
    rcases List.mem_append.mp hx with hx | hx
    · rw [TxnManager.storeShare_voteNewView] at hx
      exact .inl ((TxnManager.seedVotes_heard t hne).mp hx)
    · exact .inr (List.mem_singleton.mp hx)

end Replica

end SpotLess
