import Mathlib.Tactic

namespace SpotLess.Lib

lemma snoc_eq_append_cons {α : Type} {l r xs : List α} {b x : α} (h : xs ++ [x] = l ++ b :: r) :
    xs = l ∧ x = b ∧ r = [] ∨ ∃ r', r = r' ++ [x] ∧ xs = l ++ b :: r' := by
  rcases List.eq_nil_or_concat r with rfl | ⟨r', y, rfl⟩
  · obtain ⟨hl, hx⟩ := List.append_inj' h rfl
    exact .inl ⟨hl, (List.cons.inj hx).1, rfl⟩
  · rw [List.concat_eq_append, ← List.cons_append, ← List.append_assoc] at h
    obtain ⟨hl, hx⟩ := List.append_inj' h rfl
    obtain rfl := (List.cons.inj hx).1
    exact .inr ⟨r', List.concat_eq_append .., hl⟩

section Reach

variable {σ ε : Type} (step : σ → ε → Option σ) (ok : σ → ε → Prop)

inductive Reach (init : σ) : σ → Prop
  | start : Reach init init
  | next {s t : σ} (e : ε) (h : Reach init s) (hok : ok s e) (hs : step s e = some t) : Reach init t

-- The runs with the events they took, the last one at the end.
inductive Run (init : σ) : List ε → σ → Prop
  | start : Run init [] init
  | next {es : List ε} {s t : σ} (e : ε) (h : Run init es s) (hok : ok s e) (hs : step s e = some t) :
      Run init (es ++ [e]) t

def runWith [∀ s e, Decidable (ok s e)] (s : σ) : List ε → Option σ
  | [] => some s
  | e :: es => if ok s e then (step s e).bind fun t => runWith t es else none

variable {step ok}

lemma Reach.invariant {init s : σ} (I : σ → Prop) (hinit : I init)
    (hstep : ∀ s e t, Reach step ok init s → ok s e → step s e = some t → I s → I t)
    (h : Reach step ok init s) : I s := by
  induction h with
  | start => exact hinit
  | next e hr hok hs ih => exact hstep _ e _ hr hok hs ih

lemma Run.reach {init s : σ} {es : List ε} (h : Run step ok init es s) : Reach step ok init s := by
  induction h with
  | start => exact .start
  | next e _ hok hs ih => exact .next e ih hok hs

lemma Run.foldlM {init s : σ} {es : List ε} (h : Run step ok init es s) : es.foldlM step init = some s := by
  induction h with
  | start => rfl
  | next e _ _ hs ih =>
    rw [List.foldlM_append, ih]
    simpa using hs

lemma Run.unique {init s t : σ} {es : List ε} (h : Run step ok init es s) (h' : Run step ok init es t) : s = t :=
  Option.some.inj (h.foldlM.symm.trans h'.foldlM)

lemma Run.mono {ok' : σ → ε → Prop} {init s : σ} {es : List ε} (h : Run step ok init es s)
    (himp : ∀ e ∈ es, ∀ s, ok s e → ok' s e) : Run step ok' init es s := by
  induction h with
  | start => exact .start
  | next e _ hok hs ih =>
    refine .next e (ih fun f hf => himp f (List.mem_append_left _ hf)) (himp e ?_ _ hok) hs
    exact List.mem_append_right _ (List.mem_singleton_self e)

lemma Run.split {init s : σ} {es : List ε} (h : Run step ok init es s) {e : ε} (he : e ∈ es) :
    ∃ t u, Reach step ok init t ∧ ok t e ∧ step t e = some u ∧ Reach step ok u s := by
  induction h with
  | start => cases he
  | @next es t u f h hok hs ih =>
    rcases List.mem_append.mp he with he | he
    · obtain ⟨t', u', ht, hok', hs', hu⟩ := ih he
      exact ⟨t', u', ht, hok', hs', hu.next f hok hs⟩
    · obtain rfl := List.mem_singleton.mp he
      exact ⟨t, u, h.reach, hok, hs, .start⟩

lemma Reach.mono {ok' : σ → ε → Prop} {init s : σ} (himp : ∀ s e, ok s e → ok' s e)
    (h : Reach step ok init s) : Reach step ok' init s := by
  induction h with
  | start => exact .start
  | next e _ hok hs ih => exact .next e ih (himp _ _ hok) hs

lemma Reach.trans {s t u : σ} (h : Reach step ok s t) (h' : Reach step ok t u) :
    Reach step ok s u := by
  induction h' with
  | start => exact h
  | next e _ hok hs ih => exact .next e ih hok hs

lemma Run.cons {s t u : σ} {e : ε} {es : List ε} (hok : ok s e) (hs : step s e = some t) (h : Run step ok t es u) :
    Run step ok s (e :: es) u := by
  induction h with
  | start => exact .next e .start hok hs
  | next f _ hok' hs' ih => exact .next f ih hok' hs'

lemma run_of_foldlM {s t : σ} {es : List ε} (hok : ∀ e ∈ es, ∀ s, ok s e) (h : es.foldlM step s = some t) :
    Run step ok s es t := by
  induction es generalizing s with
  | nil =>
    obtain rfl : s = t := Option.some.inj h
    exact .start
  | cons e es ih =>
    rw [List.foldlM_cons] at h
    obtain ⟨u, hu, ht⟩ := Option.bind_eq_some_iff.mp h
    exact (ih (fun e' he' => hok e' (List.mem_cons_of_mem e he')) ht).cons (hok e List.mem_cons_self s) hu

lemma run_of_runWith [∀ s e, Decidable (ok s e)] {s t : σ} {es : List ε}
    (h : runWith step ok s es = some t) : Run step ok s es t := by
  induction es generalizing s with
  | nil =>
    obtain rfl : s = t := Option.some.inj h
    exact .start
  | cons e es ih =>
    rw [runWith] at h
    split_ifs at h with hok
    obtain ⟨u, hu, ht⟩ := Option.bind_eq_some_iff.mp h
    exact (ih ht).cons hok hu

lemma exists_run_of_runWith (step : σ → ε → Option σ) (ok : σ → ε → Prop) [∀ s e, Decidable (ok s e)]
    (s : σ) (es : List ε) (p : σ → Bool) (h : (runWith step ok s es).any p = true) :
    ∃ t, Run step ok s es t ∧ p t = true := by
  cases hr : runWith step ok s es with
  | none => simp [hr] at h
  | some t =>
    rw [hr, Option.any_some] at h
    exact ⟨t, run_of_runWith hr, h⟩

lemma exists_reach_of_runWith (step : σ → ε → Option σ) (ok : σ → ε → Prop) [∀ s e, Decidable (ok s e)]
    (s : σ) (es : List ε) (p : σ → Bool) (h : (runWith step ok s es).any p = true) :
    ∃ t, Reach step ok s t ∧ p t = true := by
  obtain ⟨t, hr, ht⟩ := exists_run_of_runWith step ok s es p h
  exact ⟨t, hr.reach, ht⟩

lemma exists_run_of_foldlM (step : σ → ε → Option σ) (ok : σ → ε → Prop) (s : σ) (es : List ε) (p : σ → Bool)
    (hok : ∀ e ∈ es, ∀ s, ok s e) (h : (es.foldlM step s).any p = true) : ∃ t, Run step ok s es t ∧ p t = true := by
  cases hr : es.foldlM step s with
  | none => simp [hr] at h
  | some t =>
    rw [hr, Option.any_some] at h
    exact ⟨t, run_of_foldlM hok hr, h⟩

end Reach

end SpotLess.Lib
