import SpotLess.Config
import SpotLess.Lib.Reach
import Mathlib.Data.Vector.Basic

/-! The client loop over CL_RSP messages: several input threads share the response count and the response
directory. A response with other contents than the first one for its `txn_id` ends the process. -/

namespace SpotLess.Client

open Lib

variable (cfg : Config)

-- `copy_from_buf` fills both lists with `get_batch_size()` entries.
structure ClientResponse where
  txnId : UInt64
  returnNodeId : UInt64
  index : List.Vector UInt64 cfg.batchSize
  clientTs : List.Vector UInt64 cfg.batchSize

structure Completion where
  rsp : ClientResponse cfg
  seen : List (ClientResponse cfg)

-- `busy` says which `txn_id` a thread completes; the last two fields are the history of the run.
structure State where
  count : UInt64 → Option ℕ
  directory : UInt64 → Option (ClientResponse cfg)
  busy : ℕ → Option UInt64
  received : List (ClientResponse cfg)
  completed : List (Completion cfg)

def init : State cfg where
  count _ := none
  directory _ := none
  busy _ := none
  received := []
  completed := []

variable {cfg}

def ClientResponse.Agrees (m old : ClientResponse cfg) : Prop :=
  old.index = m.index ∧ old.clientTs = m.clientTs

instance (m old : ClientResponse cfg) : Decidable (m.Agrees old) := inferInstanceAs (Decidable (_ ∧ _))

def fp1 (cfg : Config) : ℕ := cfg.minInvalidNodes + 1

-- The counting section, under `client_response_lock`, with the value left in `response_count`.
def State.tally (s : State cfg) (m : ClientResponse cfg) : Option (State cfg × ℕ) :=
  match s.directory m.txnId with
  | some old =>
    match s.count m.txnId with
    | some k =>
      if m.Agrees old then some ({ s with count := Function.update s.count m.txnId (some (k + 1)) }, k + 1)
      else none
    | none => none
  | none =>
    match s.count m.txnId with
    | some _ => some (s, 0)
    | none => some ({ s with
        count := Function.update s.count m.txnId (some 1)
        directory := Function.update s.directory m.txnId (some m) }, 0)

def State.receive (s : State cfg) (thd : ℕ) (m : ClientResponse cfg) : Option (State cfg) :=
  if s.busy thd = none then
    (s.tally m).map fun r =>
      let t := { r.1 with received := s.received ++ [m] }
      if r.2 = fp1 cfg then
        { t with
          busy := Function.update s.busy thd (some m.txnId)
          completed := s.completed ++ [⟨m, t.received⟩] }
      else t
  else none

-- The end of the completion branch, again under the lock.
def State.finish (s : State cfg) (thd : ℕ) : Option (State cfg) :=
  match s.busy thd with
  | some id =>
    match s.directory id with
    | some _ => some { s with
        directory := Function.update s.directory id none
        busy := Function.update s.busy thd none }
    | none => none
  | none => none

variable (cfg) in
inductive Event
  | receive (thd : ℕ) (m : ClientResponse cfg)
  | finish (thd : ℕ)

def step (s : State cfg) : Event cfg → Option (State cfg)
  | .receive thd m => s.receive thd m
  | .finish thd => s.finish thd

def Reachable (s : State cfg) : Prop := Reach step (fun _ _ => True) (init cfg) s

def State.responses (s : State cfg) (id : UInt64) : List (ClientResponse cfg) :=
  s.received.filter (·.txnId = id)

def State.completions (s : State cfg) (id : UInt64) : List (Completion cfg) :=
  s.completed.filter (·.rsp.txnId = id)

structure Completion.Counted (c : Completion cfg) (rs : List (ClientResponse cfg)) : Prop where
  first : c.seen.filter (·.txnId = c.rsp.txnId) = rs.take (fp1 cfg)
  agree : ∀ m ∈ rs.take (fp1 cfg), c.rsp.Agrees m

structure Tallied (s : State cfg) (id : UInt64) : Prop where
  counted : s.count id = none ↔ s.responses id = []
  present : ∀ old, s.directory id = some old →
    s.count id = some (s.responses id).length ∧ ∀ m ∈ s.responses id, m.Agrees old
  absent : s.directory id = none → s.responses id = [] ∨ fp1 cfg ≤ (s.responses id).length
  before : (s.responses id).length < fp1 cfg → s.completions id = []
  after : fp1 cfg ≤ (s.responses id).length → ∃ c, s.completions id = [c] ∧ c.Counted (s.responses id)
  busy : ∀ thd, s.busy thd = some id → s.directory id ≠ none ∧ fp1 cfg ≤ (s.responses id).length
  alone : ∀ thd thd', s.busy thd = some id → s.busy thd' = some id → thd = thd'

lemma tallied_init (id : UInt64) : Tallied (init cfg) id where
  counted := by simp [init, State.responses]
  present := fun _ h => nomatch h
  absent := fun _ => .inl rfl
  before := fun _ => rfl
  after := fun h => by simp [init, State.responses, fp1] at h
  busy := fun _ h => nomatch h
  alone := fun _ _ h => nomatch h

variable {s t : State cfg} {thd : ℕ} {m : ClientResponse cfg} {id : UInt64}

structure SameAt (s t : State cfg) (id : UInt64) : Prop where
  count : t.count id = s.count id
  directory : t.directory id = s.directory id
  responses : t.responses id = s.responses id
  completions : t.completions id = s.completions id
  busy : ∀ thd, t.busy thd = some id → s.busy thd = some id

lemma Tallied.congr (h : Tallied s id) (hs : SameAt s t id) : Tallied t id where
  counted := by rw [hs.count, hs.responses]; exact h.counted
  present := by rw [hs.count, hs.directory, hs.responses]; exact h.present
  absent := by rw [hs.directory, hs.responses]; exact h.absent
  before := by rw [hs.completions, hs.responses]; exact h.before
  after := by rw [hs.completions, hs.responses]; exact h.after
  busy := fun thd ht => by rw [hs.directory, hs.responses]; exact h.busy thd (hs.busy thd ht)
  alone := fun thd thd' ht ht' => h.alone thd thd' (hs.busy thd ht) (hs.busy thd' ht')

inductive Receives (s : State cfg) (thd : ℕ) (m : ClientResponse cfg) : State cfg → Prop
  | opens (hd : s.directory m.txnId = none) (hc : s.count m.txnId = none) : Receives s thd m { s with
      count := Function.update s.count m.txnId (some 1)
      directory := Function.update s.directory m.txnId (some m)
      received := s.received ++ [m] }
  | late (k : ℕ) (hd : s.directory m.txnId = none) (hc : s.count m.txnId = some k) :
      Receives s thd m { s with received := s.received ++ [m] }
  | joins (old : ClientResponse cfg) (k : ℕ) (hd : s.directory m.txnId = some old)
      (hc : s.count m.txnId = some k) (ha : m.Agrees old) (hk : k + 1 ≠ fp1 cfg) : Receives s thd m { s with
        count := Function.update s.count m.txnId (some (k + 1))
        received := s.received ++ [m] }
  | decides (old : ClientResponse cfg) (k : ℕ) (hd : s.directory m.txnId = some old)
      (hc : s.count m.txnId = some k) (ha : m.Agrees old) (hk : k + 1 = fp1 cfg) : Receives s thd m { s with
        count := Function.update s.count m.txnId (some (k + 1))
        received := s.received ++ [m]
        busy := Function.update s.busy thd (some m.txnId)
        completed := s.completed ++ [⟨m, s.received ++ [m]⟩] }

lemma receive_cases (h : s.receive thd m = some t) : s.busy thd = none ∧ Receives s thd m t := by
  rw [State.receive] at h
  split_ifs at h with hidle
  refine ⟨hidle, ?_⟩
  obtain ⟨⟨u, k⟩, hu, rfl⟩ := Option.map_eq_some_iff.mp h
  rw [State.tally] at hu
  cases hd : s.directory m.txnId with
  | none =>
    rw [hd] at hu
    cases hc : s.count m.txnId with
    | none =>
      rw [hc] at hu
      obtain ⟨rfl, rfl⟩ := Prod.mk.inj (Option.some.inj hu)
      exact .opens hd hc
    | some k =>
      rw [hc] at hu
      obtain ⟨rfl, rfl⟩ := Prod.mk.inj (Option.some.inj hu)
      exact .late k hd hc
  | some old =>
    rw [hd] at hu
    cases hc : s.count m.txnId with
    | none => simp [hc] at hu
    | some k =>
      rw [hc] at hu
      simp only at hu
      split_ifs at hu with ha
      obtain ⟨rfl, rfl⟩ := Prod.mk.inj (Option.some.inj hu)
      by_cases hk : k + 1 = fp1 cfg
      · simp only [if_pos hk]
        exact .decides old k hd hc ha hk
      · simp only [if_neg hk]
        exact .joins old k hd hc ha hk

lemma finish_cases (h : s.finish thd = some t) : ∃ id, s.busy thd = some id ∧ t = { s with
    directory := Function.update s.directory id none
    busy := Function.update s.busy thd none } := by
  rw [State.finish] at h
  cases hb : s.busy thd with
  | none => simp [hb] at h
  | some id =>
    rw [hb] at h
    cases hd : s.directory id with
    | none => simp [hd] at h
    | some old =>
      simp only [hd, Option.some.injEq] at h
      exact ⟨id, rfl, h.symm⟩

lemma filter_append_of_ne {α : Type} (p : α → Bool) (l : List α) {x : α} (h : p x = false) :
    (l ++ [x]).filter p = l.filter p := by
  simp [h]

lemma filter_append_of_eq {α : Type} (p : α → Bool) (l : List α) {x : α} (h : p x = true) :
    (l ++ [x]).filter p = l.filter p ++ [x] := by
  simp [h]

lemma Receives.sameAt (h : Receives s thd m t) (hid : id ≠ m.txnId) : SameAt s t id := by
  have hrecv : (s.received ++ [m]).filter (fun x => decide (x.txnId = id)) =
      s.received.filter fun x => decide (x.txnId = id) := filter_append_of_ne _ _ (by simpa using hid.symm)
  cases h with
  | opens hd hc =>
    exact ⟨Function.update_of_ne hid _ _, Function.update_of_ne hid _ _, hrecv, rfl, fun _ h => h⟩
  | late k hd hc => exact ⟨rfl, rfl, hrecv, rfl, fun _ h => h⟩
  | joins old k hd hc ha hk => exact ⟨Function.update_of_ne hid _ _, rfl, hrecv, rfl, fun _ h => h⟩
  | decides old k hd hc ha hk =>
    refine ⟨Function.update_of_ne hid _ _, rfl, hrecv, filter_append_of_ne _ _ (by simpa using hid.symm), ?_⟩
    intro thd' hb
    by_cases hthd : thd' = thd
    · rw [hthd] at hb
      simp only [Function.update_self, Option.some.injEq] at hb
      exact absurd hb.symm hid
    · simpa only [Function.update_of_ne hthd] using hb

lemma ClientResponse.Agrees.trans {x old : ClientResponse cfg} (hm : m.Agrees old) (hx : x.Agrees old) :
    m.Agrees x := ⟨hx.1.symm.trans hm.1, hx.2.symm.trans hm.2⟩

lemma Completion.Counted.append {c : Completion cfg} {rs : List (ClientResponse cfg)} (h : c.Counted rs)
    (hlen : fp1 cfg ≤ rs.length) : c.Counted (rs ++ [m]) := by
  have htake : (rs ++ [m]).take (fp1 cfg) = rs.take (fp1 cfg) := List.take_append_of_le_length hlen
  exact ⟨by rw [htake]; exact h.first, by rw [htake]; exact h.agree⟩

lemma responses_append (s : State cfg) (m : ClientResponse cfg) :
    (s.received ++ [m]).filter (fun x => decide (x.txnId = m.txnId)) = s.responses m.txnId ++ [m] :=
  filter_append_of_eq _ _ (by simp)

lemma Tallied.receives (h : Tallied s m.txnId) (hf : 2 ≤ fp1 cfg) (hr : Receives s thd m t) :
    Tallied t m.txnId := by
  have hresp : t.responses m.txnId = s.responses m.txnId ++ [m] := by
    cases hr <;> exact responses_append s m
  have hlen : (t.responses m.txnId).length = (s.responses m.txnId).length + 1 := by
    rw [hresp, List.length_append, List.length_singleton]
  have hne : t.responses m.txnId ≠ [] := by
    rw [hresp]
    exact List.append_ne_nil_of_right_ne_nil _ (List.cons_ne_nil m [])
  cases hr with
  | opens hd hc =>
    have hnil := h.counted.mp hc
    rw [hnil, List.nil_append] at hresp
    refine ⟨⟨fun hcount => by simp at hcount, fun hr => absurd hr hne⟩, ?_, ?_, ?_, ?_, ?_, h.alone⟩
    · intro old hold
      simp only [Function.update_self, Option.some.injEq] at hold
      subst hold
      rw [hresp]
      refine ⟨Function.update_self _ _ _, fun x hx => ?_⟩
      rw [List.mem_singleton.mp hx]
      exact ⟨rfl, rfl⟩
    · intro hold
      simp at hold
    · intro _
      exact h.before (by rw [hnil]; simp only [List.length_nil]; omega)
    · intro hle
      rw [hresp, List.length_singleton] at hle
      omega
    · intro thd' hb
      have hle := (h.busy thd' hb).2
      rw [hnil, List.length_nil] at hle
      omega
  | late k hd hc =>
    have hle : fp1 cfg ≤ (s.responses m.txnId).length := by
      refine (h.absent hd).resolve_left fun hnil => ?_
      rw [h.counted.mpr hnil] at hc
      exact nomatch hc
    obtain ⟨c, hcompl, hcounted⟩ := h.after hle
    refine ⟨⟨fun hcount => absurd (h.counted.mp hcount) ?_, fun hr => absurd hr hne⟩, ?_, fun _ => .inr ?_, ?_,
      fun _ => ⟨c, hcompl, hresp ▸ hcounted.append hle⟩, ?_, h.alone⟩
    · intro hnil
      rw [h.counted.mpr hnil] at hc
      exact nomatch hc
    · intro old hold
      exact nomatch hold.symm.trans hd
    · omega
    · intro hlt
      omega
    · intro thd' hb
      exact absurd hd (h.busy thd' hb).1
  | joins old k hd hc ha hk =>
    obtain ⟨hcount, hagree⟩ := h.present old hd
    obtain rfl : k = (s.responses m.txnId).length := Option.some.inj (hc.symm.trans hcount)
    refine ⟨⟨fun hcount => by simp at hcount, fun hr => absurd hr hne⟩, ?_, ?_, ?_, ?_, ?_, h.alone⟩
    · intro old' hold'
      obtain rfl : old = old' := Option.some.inj (hd.symm.trans hold')
      refine ⟨?_, fun x hx => ?_⟩
      · rw [hlen]
        exact Function.update_self _ _ _
      · rw [hresp] at hx
        rcases List.mem_append.mp hx with hx | hx
        · exact hagree x hx
        · rw [List.mem_singleton.mp hx]
          exact ha
    · intro hold
      exact nomatch hd.symm.trans hold
    · intro hlt
      exact h.before (by omega)
    · intro hle
      have hle' : fp1 cfg ≤ (s.responses m.txnId).length := by omega
      obtain ⟨c, hcompl, hcounted⟩ := h.after hle'
      exact ⟨c, hcompl, hresp ▸ hcounted.append hle'⟩
    · intro thd' hb
      have := (h.busy thd' hb).2
      exact ⟨(h.busy thd' hb).1, by omega⟩
  | decides old k hd hc ha hk =>
    obtain ⟨hcount, hagree⟩ := h.present old hd
    obtain rfl : k = (s.responses m.txnId).length := Option.some.inj (hc.symm.trans hcount)
    have htake : (s.responses m.txnId ++ [m]).take (fp1 cfg) = s.responses m.txnId ++ [m] := by
      refine List.take_of_length_le ?_
      rw [List.length_append, List.length_singleton, hk]
    have hall : ∀ x ∈ s.responses m.txnId ++ [m], x.Agrees old := by
      intro x hx
      rcases List.mem_append.mp hx with hx | hx
      · exact hagree x hx
      · rw [List.mem_singleton.mp hx]
        exact ha
    -- No other thread completes this `txn_id`: its count was still below `fp1`.
    have hfree : ∀ thd', s.busy thd' ≠ some m.txnId := by
      intro thd' hb
      have := (h.busy thd' hb).2
      omega
    have hself : ∀ thd', Function.update s.busy thd (some m.txnId) thd' = some m.txnId → thd' = thd := by
      intro thd' hb
      by_contra hthd
      rw [Function.update_of_ne hthd] at hb
      exact hfree thd' hb
    refine ⟨⟨fun hcount => by simp at hcount, fun hr => absurd hr hne⟩, ?_, ?_, ?_, ?_, ?_, ?_⟩
    · intro old' hold'
      obtain rfl : old = old' := Option.some.inj (hd.symm.trans hold')
      refine ⟨?_, fun x hx => hall x (hresp ▸ hx)⟩
      rw [hlen]
      exact Function.update_self _ _ _
    · intro hold
      exact nomatch hd.symm.trans hold
    · intro hlt
      omega
    · intro _
      refine ⟨⟨m, s.received ++ [m]⟩, ?_, ?_, ?_⟩
      · have hnone : s.completions m.txnId = [] := h.before (by omega)
        change (s.completed ++ [_]).filter _ = _
        rw [filter_append_of_eq _ _ (by simp)]
        exact congrArg (· ++ _) hnone
      · rw [hresp, htake]
        exact responses_append s m
      · intro x hx
        rw [hresp, htake] at hx
        exact ha.trans (hall x hx)
    · intro thd' _
      refine ⟨fun hold => ?_, by omega⟩
      exact nomatch hd.symm.trans hold
    · intro thd₁ thd₂ hb₁ hb₂
      rw [hself thd₁ hb₁, hself thd₂ hb₂]

lemma busy_release {f : ℕ → Option UInt64} {thd' : ℕ} (h : Function.update f thd none thd' = some id) :
    thd' ≠ thd ∧ f thd' = some id := by
  by_cases hthd : thd' = thd
  · simp [hthd] at h
  · rw [Function.update_of_ne hthd] at h
    exact ⟨hthd, h⟩

lemma Tallied.finishes (h : Tallied s id) (hb : s.busy thd = some id) : Tallied { s with
    directory := Function.update s.directory id none
    busy := Function.update s.busy thd none } id where
  counted := h.counted
  present := fun old hold => by simp at hold
  absent := fun _ => .inr (h.busy thd hb).2
  before := h.before
  after := h.after
  busy := fun thd' hb' => by
    obtain ⟨hthd, hold⟩ := busy_release hb'
    exact absurd (h.alone thd' thd hold hb) hthd
  alone := fun thd₁ thd₂ h₁ h₂ => h.alone thd₁ thd₂ (busy_release h₁).2 (busy_release h₂).2

lemma tallied_step {e : Event cfg} (hf : 2 ≤ fp1 cfg) (hs : step s e = some t) (h : ∀ id, Tallied s id) :
    ∀ id, Tallied t id := by
  intro id
  cases e with
  | receive thd m =>
    obtain ⟨-, hr⟩ := receive_cases hs
    by_cases hid : id = m.txnId
    · rw [hid]
      exact (h m.txnId).receives hf hr
    · exact (h id).congr (hr.sameAt hid)
  | finish thd =>
    obtain ⟨id', hb, rfl⟩ := finish_cases hs
    by_cases hid : id = id'
    · rw [hid]
      exact (h id').finishes hb
    · exact (h id).congr ⟨rfl, Function.update_of_ne hid _ _, rfl, rfl, fun thd' hb' => (busy_release hb').2⟩

lemma tallied_reach (hf : 2 ≤ fp1 cfg) (h : Reachable s) : ∀ id, Tallied s id :=
  h.invariant (I := fun s => ∀ id, Tallied s id) tallied_init
    fun _ _ _ _ _ hs hI => tallied_step hf hs hI

structure Completes (s : State cfg) (id : UInt64) : Prop where
  once : (s.completions id).length ≤ 1
  backed : ∀ c ∈ s.completions id, ∃ replicas : Finset UInt64, fp1 cfg ≤ replicas.card ∧
    ∀ r ∈ replicas, ∃ m ∈ c.seen, m.txnId = id ∧ m.returnNodeId = r ∧ c.rsp.Agrees m

lemma nodup_of_card {l : List UInt64} (h : l.length ≤ l.toFinset.card) : l.Nodup := by
  rw [List.card_toFinset] at h
  exact List.dedup_eq_self.mp ((List.dedup_sublist l).eq_of_length_le h)

lemma Tallied.completes_iff (h : Tallied s id) : Completes s id ↔
    (fp1 cfg ≤ (s.responses id).length → (((s.responses id).take (fp1 cfg)).map (·.returnNodeId)).Nodup) := by
  have hmem : ∀ c ∈ s.completions id, c.rsp.txnId = id := fun c hc => by
    simpa using (List.mem_filter.mp hc).2
  constructor
  · intro hc hle
    obtain ⟨c, hcompl, hcounted⟩ := h.after hle
    have hin : c ∈ s.completions id := hcompl ▸ List.mem_singleton_self c
    obtain ⟨replicas, hcard, hrep⟩ := hc.backed c hin
    have hsub : replicas ⊆ (((s.responses id).take (fp1 cfg)).map (·.returnNodeId)).toFinset := by
      intro r hr
      obtain ⟨m, hm, hmid, rfl, -⟩ := hrep r hr
      have hseen : m ∈ c.seen.filter (·.txnId = c.rsp.txnId) :=
        List.mem_filter.mpr ⟨hm, by simp [hmid, hmem c hin]⟩
      rw [hcounted.first] at hseen
      exact List.mem_toFinset.mpr (List.mem_map_of_mem hseen)
    refine nodup_of_card ?_
    rw [List.length_map, List.length_take]
    exact (min_le_left _ _).trans (hcard.trans (Finset.card_le_card hsub))
  · intro hdistinct
    by_cases hle : fp1 cfg ≤ (s.responses id).length
    · obtain ⟨c, hcompl, hcounted⟩ := h.after hle
      refine ⟨by rw [hcompl]; exact le_rfl, fun c' hc' => ?_⟩
      have hid := hmem c' hc'
      rw [hcompl] at hc'
      obtain rfl := List.mem_singleton.mp hc'
      refine ⟨(((s.responses id).take (fp1 cfg)).map (·.returnNodeId)).toFinset, ?_, fun r hr => ?_⟩
      · rw [List.toFinset_card_of_nodup (hdistinct hle), List.length_map, List.length_take]
        exact le_min le_rfl hle
      · obtain ⟨m, hm, rfl⟩ := List.mem_map.mp (List.mem_toFinset.mp hr)
        have hseen := hcounted.first ▸ hm
        obtain ⟨hin, htxn⟩ := List.mem_filter.mp hseen
        exact ⟨m, hin, (by simpa using htxn : m.txnId = c'.rsp.txnId).trans hid, rfl, hcounted.agree m hm⟩
    · have hnone := h.before (not_le.mp hle)
      refine ⟨by rw [hnone]; exact Nat.zero_le 1, fun c hc => ?_⟩
      rw [hnone] at hc
      exact absurd hc List.not_mem_nil

theorem completes_iff_distinct_first (hf : 1 ≤ cfg.minInvalidNodes) (h : Reachable s) (id : UInt64) :
    (s.completions id).length ≤ 1 ∧ (Completes s id ↔
      (fp1 cfg ≤ (s.responses id).length →
        (((s.responses id).take (fp1 cfg)).map (·.returnNodeId)).Nodup)) := by
  have htally := tallied_reach (by rw [fp1]; omega) h id
  refine ⟨?_, htally.completes_iff⟩
  by_cases hle : fp1 cfg ≤ (s.responses id).length
  · obtain ⟨c, hcompl, -⟩ := htally.after hle
    rw [hcompl]
    exact le_rfl
  · rw [htally.before (not_le.mp hle)]
    exact Nat.zero_le 1

def answer (node : UInt64) : ClientResponse .fourReplicas where
  txnId := 4
  returnNodeId := node
  index := List.Vector.replicate 5 0
  clientTs := List.Vector.replicate 5 9

lemma exists_run (events : List (Event .fourReplicas)) (p : State .fourReplicas → Bool)
    (h : (runWith step (fun _ _ => True) (init _) events).any p = true) : ∃ s, Reachable s ∧ p s = true :=
  exists_reach_of_runWith step (fun _ _ => True) (init _) events p h

theorem completes_iff_distinct_first_two_replicas :
    ∃ s : State .fourReplicas, Reachable s ∧ (s.completions 4).length = 1 ∧ Completes s 4 := by
  obtain ⟨s, hs, hp⟩ := exists_run [.receive 0 (answer 2), .receive 1 (answer 3), .finish 1]
    (fun s => (s.completions 4).length = 1 ∧ (s.responses 4).map (·.returnNodeId) = [2, 3])
    (by decide +kernel)
  obtain ⟨hlen, hsenders⟩ := of_decide_eq_true hp
  refine ⟨s, hs, hlen, (completes_iff_distinct_first (by decide) hs 4).2.mpr fun _ => ?_⟩
  rw [List.map_take, hsenders]
  decide

theorem completed_by_one_replica :
    ∃ s : State .fourReplicas, Reachable s ∧ (s.completions 4).length = 1 ∧
      (∀ m ∈ s.received, m.returnNodeId = 3) ∧ ¬ Completes s 4 := by
  obtain ⟨s, hs, hp⟩ := exists_run [.receive 0 (answer 3), .receive 0 (answer 3)]
    (fun s => (s.completions 4).length = 1 ∧ (∀ m ∈ s.received, m.returnNodeId = 3) ∧
      (s.responses 4).map (·.returnNodeId) = [3, 3])
    (by decide +kernel)
  obtain ⟨hlen, hsenders, hresp⟩ := of_decide_eq_true hp
  refine ⟨s, hs, hlen, hsenders, fun hc => ?_⟩
  have hcount : (s.responses 4).length = 2 := by simpa using congrArg List.length hresp
  have hnodup := (tallied_reach (by decide) hs 4).completes_iff.mp hc (by rw [hcount]; decide)
  rw [List.map_take, hresp] at hnodup
  exact absurd hnodup (by decide)

end SpotLess.Client
