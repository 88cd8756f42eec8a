import Mathlib.Tactic
import Mathlib.Algebra.BigOperators.Group.Finset.Basic

namespace SpotLess.Lib

section Spread

variable {ι α : Type}

structure Spread (c : ι → List α) (all : α → Prop) : Prop where
  nodup : ∀ a, (c a).Nodup
  disjoint : ∀ a b x, x ∈ c a → x ∈ c b → a = b
  covers : ∀ x, all x ↔ ∃ a, x ∈ c a

variable {c c' : ι → List α} {all all' : α → Prop} {x : α}

lemma spread_nil (h : ∀ x, ¬ all x) : Spread (fun _ : ι => ([] : List α)) all where
  nodup _ := List.nodup_nil
  disjoint _ _ _ hx := by cases hx
  covers x := ⟨fun hx => absurd hx (h x), fun ⟨_, hx⟩ => absurd hx List.not_mem_nil⟩

lemma Spread.existsUnique (h : Spread c all) (hx : all x) : ∃! a, x ∈ c a := by
  obtain ⟨a, ha⟩ := (h.covers x).mp hx
  exact ⟨a, ha, fun b hb => h.disjoint b a x hb ha⟩

lemma Spread.move {a b : ι} (h : Spread c all) (hab : a ≠ b) (ha : (c a).Perm (x :: c' a))
    (hb : (c' b).Perm (x :: c b)) (ho : ∀ d, d ≠ a → d ≠ b → c' d = c d) : Spread c' all := by
  classical
  have hxa : x ∈ c a := ha.mem_iff.mpr List.mem_cons_self
  have hnd := ha.nodup_iff.mp (h.nodup a)
  rw [List.nodup_cons] at hnd
  have hxb : x ∉ c b := fun hin => hab (h.disjoint a b x hxa hin)
  -- where a thing is afterwards
  have hmem : ∀ d y, y ∈ c' d ↔ if y = x then d = b else y ∈ c d := by
    intro d y
    by_cases hda : d = a
    · subst hda
      split_ifs with hyx
      · subst hyx
        exact iff_of_false hnd.1 hab
      · rw [ha.mem_iff, List.mem_cons, or_iff_right hyx]
    · by_cases hdb : d = b
      · subst hdb
        rw [hb.mem_iff, List.mem_cons]
        split_ifs with hyx
        · simp [hyx]
        · rw [or_iff_right hyx]
      · rw [ho d hda hdb]
        split_ifs with hyx
        · subst hyx
          exact iff_of_false (fun hin => hda (h.disjoint d a y hin hxa)) hdb
        · rfl
  refine ⟨fun d => ?_, fun d e y hd he => ?_, fun y => ?_⟩
  · by_cases hda : d = a
    · rw [hda]
      exact hnd.2
    · by_cases hdb : d = b
      · rw [hdb, hb.nodup_iff, List.nodup_cons]
        exact ⟨hxb, h.nodup b⟩
      · rw [ho d hda hdb]
        exact h.nodup d
  · rw [hmem] at hd he
    split_ifs at hd he
    · rw [hd, he]
    · exact h.disjoint d e y hd he
  · simp only [hmem, h.covers y]
    split_ifs with hyx
    · subst hyx
      exact iff_of_true ⟨a, hxa⟩ ⟨b, rfl⟩
    · rfl

lemma Spread.enter {b : ι} (h : Spread c all) (hx : ¬ all x) (hb : (c' b).Perm (x :: c b))
    (ho : ∀ d, d ≠ b → c' d = c d) (hall : ∀ y, all' y ↔ all y ∨ y = x) : Spread c' all' := by
  have hout : ∀ d, x ∉ c d := fun d hin => hx ((h.covers x).mpr ⟨d, hin⟩)
  have hmem : ∀ d y, y ∈ c' d ↔ y ∈ c d ∨ y = x ∧ d = b := by
    intro d y
    by_cases hdb : d = b
    · subst hdb
      rw [hb.mem_iff, List.mem_cons]
      tauto
    · rw [ho d hdb]
      tauto
  refine ⟨fun d => ?_, fun d e y hd he => ?_, fun y => ?_⟩
  · by_cases hdb : d = b
    · rw [hdb, hb.nodup_iff, List.nodup_cons]
      exact ⟨hout b, h.nodup b⟩
    · rw [ho d hdb]
      exact h.nodup d
  · rw [hmem] at hd he
    rcases hd with hd | ⟨rfl, hd⟩
    · rcases he with he | ⟨rfl, -⟩
      · exact h.disjoint d e y hd he
      · exact absurd hd (hout d)
    · rcases he with he | ⟨-, he⟩
      · exact absurd he (hout e)
      · rw [hd, he]
  · rw [hall, h.covers y]
    simp only [hmem]
    constructor
    · rintro (⟨a, ha⟩ | rfl)
      · exact ⟨a, .inl ha⟩
      · exact ⟨b, .inr ⟨rfl, rfl⟩⟩
    · rintro ⟨a, ha | ⟨rfl, -⟩⟩
      · exact .inl ⟨a, ha⟩
      · exact .inr rfl

end Spread

section Sums

lemma sum_change {f g : ℕ → ℕ} {r : Finset ℕ} {i : ℕ} (hi : i ∈ r) (h : ∀ x, x ≠ i → g x = f x) :
    ∑ x ∈ r, g x + f i = ∑ x ∈ r, f x + g i := by
  have hrest : ∑ x ∈ r.erase i, g x = ∑ x ∈ r.erase i, f x :=
    Finset.sum_congr rfl fun x hx => h x (Finset.ne_of_mem_erase hx)
  rw [← Finset.add_sum_erase r g hi, ← Finset.add_sum_erase r f hi, hrest]
  omega

lemma card_filter_change {p q : ℕ → Prop} [DecidablePred p] [DecidablePred q] {r : Finset ℕ} {i : ℕ} (hi : i ∈ r)
    (h : ∀ x, x ≠ i → (q x ↔ p x)) :
    (r.filter q).card + (if p i then 1 else 0) = (r.filter p).card + if q i then 1 else 0 := by
  rw [Finset.card_filter, Finset.card_filter]
  refine sum_change (f := fun x => if p x then 1 else 0) (g := fun x => if q x then 1 else 0) hi fun x hx => ?_
  simp only [h x hx]

end Sums

end SpotLess.Lib
