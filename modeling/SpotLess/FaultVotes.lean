import SpotLess.Config
import SpotLess.Lib.UMap

namespace SpotLess

open Lib

structure FaultVoters where
  voters : UMap UInt64 (Finset UInt64)

def FaultVoters.addVoter (nf : ℕ) (f : FaultVoters) (view voter : UInt64) : Bool × FaultVoters :=
  let f := ⟨UMap.touch f.voters view⟩
  if nf ≤ (UMap.get f.voters view).card then (false, f)
  else
    let s := insert voter (UMap.get f.voters view)
    let f := ⟨f.voters.insert view s⟩
    (nf ≤ s.card, f)

-- One entry for each of the `MULTI_INSTANCES` instances.
structure FaultManager (cfg : Config) where
  faultVoters : Fin cfg.totInstances → FaultVoters

namespace FaultManager

variable (cfg : Config)

structure Call where
  instanceId : Fin cfg.totInstances
  view : UInt64
  voterId : UInt64
  deriving DecidableEq

def Call.place {cfg : Config} (c : Call cfg) : Fin cfg.totInstances × UInt64 := (c.instanceId, c.view)

def init : FaultManager cfg := ⟨fun _ => ⟨∅⟩⟩

variable {cfg}

def sufficientVoters (m : FaultManager cfg) (c : Call cfg) : Bool × FaultManager cfg :=
  let r := (m.faultVoters c.instanceId).addVoter cfg.nf c.view c.voterId
  (r.1, ⟨Function.update m.faultVoters c.instanceId r.2⟩)

def answers (m : FaultManager cfg) : List (Call cfg) → List Bool
  | [] => []
  | c :: cs => (m.sufficientVoters c).1 :: (m.sufficientVoters c).2.answers cs

def after (m : FaultManager cfg) (calls : List (Call cfg)) : FaultManager cfg :=
  calls.foldl (fun m c => (m.sufficientVoters c).2) m

-- The calls on which `advance_failed_view` follows.
def granted (calls : List (Call cfg)) : List (Call cfg) :=
  ((calls.zip ((init cfg).answers calls)).filter (·.2)).map (·.1)

def votersOf (m : FaultManager cfg) (p : Fin cfg.totInstances × UInt64) : Finset UInt64 :=
  UMap.get (m.faultVoters p.1).voters p.2

def distinctVoters (calls : List (Call cfg)) (p : Fin cfg.totInstances × UInt64) : Finset UInt64 :=
  ((calls.filter fun c => c.place = p).map Call.voterId).toFinset

variable {m : FaultManager cfg} {calls : List (Call cfg)} {c : Call cfg} {p : Fin cfg.totInstances × UInt64}

section Step

lemma answer_eq :
    (m.sufficientVoters c).1 = decide (¬ cfg.nf ≤ (m.votersOf c.place).card ∧
      cfg.nf ≤ (insert c.voterId (m.votersOf c.place)).card) := by
  simp only [sufficientVoters, FaultVoters.addVoter, votersOf, Call.place, UMap.get_touch]
  split_ifs with h <;> simp [h]

lemma votersOf_sufficientVoters :
    (m.sufficientVoters c).2.votersOf p =
      if p = c.place ∧ ¬ cfg.nf ≤ (m.votersOf p).card then insert c.voterId (m.votersOf p) else m.votersOf p := by
  obtain ⟨i, v⟩ := p
  simp only [sufficientVoters, FaultVoters.addVoter, votersOf, Call.place, UMap.get_touch, Prod.mk.injEq]
  by_cases hi : i = c.instanceId
  · subst hi
    simp only [Function.update_self, true_and]
    by_cases hv : v = c.view
    · subst hv
      split_ifs with h <;> simp_all
    · split_ifs with h
      all_goals simp_all [UMap.get_insert_of_ne]
  · simp [hi]

end Step

section Count

lemma distinctVoters_snoc :
    distinctVoters (calls ++ [c]) p =
      if c.place = p then insert c.voterId (distinctVoters calls p) else distinctVoters calls p := by
  unfold distinctVoters
  rw [List.filter_append]
  split_ifs with h
  · simp [h, Finset.union_comm]
  · simp [h]

lemma distinctVoters_filter :
    distinctVoters (calls.filter fun d => d.place = p) p = distinctVoters calls p := by
  simp [distinctVoters]

def Counted (m : FaultManager cfg) (calls : List (Call cfg)) : Prop :=
  ∀ p, (distinctVoters calls p).card < cfg.nf ∧ m.votersOf p = distinctVoters calls p ∨
    cfg.nf ≤ (distinctVoters calls p).card ∧ cfg.nf ≤ (m.votersOf p).card

lemma counted_init : Counted (init cfg) [] := by
  intro p
  refine .inl ⟨?_, ?_⟩
  · simpa [distinctVoters] using cfg.nf_pos
  · simp [votersOf, init, distinctVoters]
    rfl

lemma Counted.sufficientVoters (h : Counted m calls) (c : Call cfg) :
    Counted (m.sufficientVoters c).2 (calls ++ [c]) := by
  intro p
  rw [distinctVoters_snoc, votersOf_sufficientVoters]
  by_cases hp : c.place = p
  · rw [if_pos hp]
    rcases h p with ⟨hlt, heq⟩ | ⟨hd, hm⟩
    · rw [if_pos ⟨hp.symm, by rw [heq]; omega⟩, heq]
      rcases lt_or_ge (insert c.voterId (distinctVoters calls p)).card cfg.nf with hlt' | hge
      · exact .inl ⟨hlt', rfl⟩
      · exact .inr ⟨hge, hge⟩
    · rw [if_neg (fun hn => hn.2 hm)]
      exact .inr ⟨hd.trans (Finset.card_le_card (Finset.subset_insert _ _)), hm⟩
  · rw [if_neg hp, if_neg (fun hn => hp hn.1.symm)]
    exact h p

lemma after_snoc (m : FaultManager cfg) : m.after (calls ++ [c]) = ((m.after calls).sufficientVoters c).2 := by
  simp [after]

lemma counted_after (calls : List (Call cfg)) : Counted ((init cfg).after calls) calls := by
  induction calls using List.reverseRecOn with
  | nil => exact counted_init
  | append_singleton calls c ih =>
    rw [after_snoc]
    exact ih.sufficientVoters c

lemma Counted.answer (h : Counted m calls) :
    (m.sufficientVoters c).1 = decide ((distinctVoters calls c.place).card < cfg.nf ∧
      (distinctVoters (calls ++ [c]) c.place).card = cfg.nf) := by
  rw [answer_eq, distinctVoters_snoc, if_pos rfl, decide_eq_decide]
  rcases h c.place with ⟨hlt, heq⟩ | ⟨hd, hm⟩
  · rw [heq]
    have hcard := Finset.card_insert_le c.voterId (distinctVoters calls c.place)
    omega
  · constructor
    · intro hn
      exact absurd hm hn.1
    · intro hn
      omega

end Count

lemma answers_append (m : FaultManager cfg) (pre post : List (Call cfg)) :
    m.answers (pre ++ post) = m.answers pre ++ (m.after pre).answers post := by
  induction pre generalizing m with
  | nil => rfl
  | cons d pre ih =>
    rw [List.cons_append, answers, answers, ih, List.cons_append]
    rfl

lemma length_answers (m : FaultManager cfg) (calls : List (Call cfg)) :
    (m.answers calls).length = calls.length := by
  induction calls generalizing m with
  | nil => rfl
  | cons d calls ih => rw [answers, List.length_cons, ih, List.length_cons]

lemma answers_getElem (pre post : List (Call cfg)) (c : Call cfg) :
    ((init cfg).answers (pre ++ c :: post))[pre.length]? =
      some (decide ((distinctVoters pre c.place).card < cfg.nf ∧
        (distinctVoters (pre ++ [c]) c.place).card = cfg.nf)) := by
  rw [answers_append, List.getElem?_append_right (length_answers _ _).le, length_answers, Nat.sub_self, answers,
    List.getElem?_cons_zero, (counted_after pre).answer]

lemma granted_snoc (calls : List (Call cfg)) (c : Call cfg) :
    granted (calls ++ [c]) =
      granted calls ++ if (((init cfg).after calls).sufficientVoters c).1 then [c] else [] := by
  rw [granted, answers_append, List.zip_append (length_answers _ _).symm, List.filter_append, List.map_append, granted]
  congr 1
  simp only [answers, List.zip_cons_cons, List.zip_nil_right, List.filter_cons, List.filter_nil]
  split_ifs <;> rfl

lemma mem_granted (h : c ∈ granted calls) : cfg.nf ≤ (distinctVoters calls c.place).card := by
  induction calls using List.reverseRecOn with
  | nil => simp [granted, answers] at h
  | append_singleton calls d ih =>
    rw [granted_snoc, List.mem_append] at h
    rcases h with h | h
    · rw [distinctVoters_snoc]
      split_ifs
      · exact (ih h).trans (Finset.card_le_card (Finset.subset_insert _ _))
      · exact ih h
    · split_ifs at h with hans
      · obtain rfl := List.mem_singleton.mp h
        rw [(counted_after calls).answer, decide_eq_true_eq] at hans
        exact hans.2.ge
      · simp at h

lemma exists_granted (h : cfg.nf ≤ (distinctVoters calls p).card) : ∃ c ∈ granted calls, c.place = p := by
  induction calls using List.reverseRecOn with
  | nil =>
    have hpos := cfg.nf_pos
    simp [distinctVoters] at h
    omega
  | append_singleton calls c ih =>
    simp only [granted_snoc, List.mem_append]
    rcases lt_or_ge (distinctVoters calls p).card cfg.nf with hlt | hge
    · by_cases hp : c.place = p
      · subst hp
        refine ⟨c, .inr ?_, rfl⟩
        have hcard := Finset.card_insert_le c.voterId (distinctVoters calls c.place)
        rw [distinctVoters_snoc, if_pos rfl] at h
        rw [if_pos, List.mem_singleton]
        rw [(counted_after calls).answer, distinctVoters_snoc, if_pos rfl, decide_eq_true_eq]
        omega
      · rw [distinctVoters_snoc, if_neg hp] at h
        omega
    · obtain ⟨d, hd, hplace⟩ := ih hge
      exact ⟨d, .inl hd, hplace⟩

lemma nodup_granted (calls : List (Call cfg)) : ((granted calls).map Call.place).Nodup := by
  induction calls using List.reverseRecOn with
  | nil => simp [granted, answers]
  | append_singleton calls c ih =>
    rw [granted_snoc, List.map_append]
    split_ifs with hans
    · rw [(counted_after calls).answer, decide_eq_true_eq] at hans
      refine List.nodup_append'.mpr ⟨ih, List.nodup_singleton _, ?_⟩
      intro p hp hc
      obtain ⟨d, hd, rfl⟩ := List.mem_map.mp hp
      have hplace : d.place = c.place := List.mem_singleton.mp hc
      have := mem_granted hd
      rw [hplace] at this
      omega
    · simpa using ih

theorem sufficientVoters_once (cfg : Config) (pre post : List (Call cfg)) (c : Call cfg) :
    ((init cfg).answers (pre ++ c :: post))[pre.length]? =
        some (decide ((distinctVoters pre c.place).card < cfg.nf ∧
          (distinctVoters (pre ++ [c]) c.place).card = cfg.nf)) ∧
      ((granted (pre ++ c :: post)).map Call.place).Nodup ∧
      ((init cfg).answers (pre ++ c :: post))[pre.length]? =
        ((init cfg).answers ((pre.filter fun d => d.place = c.place) ++ [c])).getLast? := by
  refine ⟨answers_getElem pre post c, nodup_granted _, ?_⟩
  rw [answers_getElem, answers_append, answers, answers, List.getLast?_append, (counted_after _).answer]
  simp [distinctVoters_snoc, distinctVoters_filter]

end FaultManager

end SpotLess
