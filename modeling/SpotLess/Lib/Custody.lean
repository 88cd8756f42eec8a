import Mathlib.Tactic

/-! Latches that several threads take and give back: programs that hold at most one at a time and none at the
end, and the table of who holds what. -/

namespace SpotLess.Lib

inductive Op (κ : Type)
  | take (k : κ)
  | give (k : κ)
  deriving DecidableEq

def Op.key {κ : Type} : Op κ → κ
  | .take k | .give k => k

section Programs

variable {κ : Type} [DecidableEq κ] {h : Option κ} {k : κ} {ops : List (Op κ)}

-- What is held after one operation; a second latch, or one that is not held, is refused.
def Op.hold : Option κ → Op κ → Option (Option κ)
  | none, .take k => some (some k)
  | some j, .give k => if j = k then some none else none
  | some _, .take _ => none
  | none, .give _ => none

def Balanced (h : Option κ) (ops : List (Op κ)) : Prop := ops.foldlM Op.hold h = some none

lemma balanced_nil : Balanced h ([] : List (Op κ)) ↔ h = none := by
  simp [Balanced]

lemma balanced_take : Balanced h (.take k :: ops) ↔ h = none ∧ Balanced (some k) ops := by
  cases h <;> simp [Balanced, Op.hold]

lemma balanced_give : Balanced h (.give k :: ops) ↔ h = some k ∧ Balanced none ops := by
  cases h with
  | none => simp [Balanced, Op.hold]
  | some j => by_cases hj : j = k <;> simp [Balanced, Op.hold, hj]

lemma Balanced.next_of_some (hb : Balanced (some k) ops) : ∃ rest, ops = .give k :: rest := by
  cases ops with
  | nil => cases balanced_nil.mp hb
  | cons op rest =>
    cases op with
    | take j => cases (balanced_take.mp hb).1
    | give j =>
      obtain rfl := Option.some.inj (balanced_give.mp hb).1
      exact ⟨rest, rfl⟩

lemma balanced_each_append (ks : List κ) :
    Balanced none (ks.flatMap (fun k => [.take k, .give k]) ++ ops) ↔ Balanced none ops := by
  induction ks with
  | nil => exact Iff.rfl
  | cons k ks ih =>
    simp only [List.flatMap_cons, List.cons_append, List.nil_append, balanced_take, balanced_give, true_and]
    exact ih

end Programs

section Custody

variable {ι κ : Type} {taken taken' : κ → Prop} {holds holds' : ι → κ → Prop} {t : ι} {k : κ}

structure Custody (taken : κ → Prop) (holds : ι → κ → Prop) : Prop where
  held : ∀ x k, holds x k → taken k
  unique : ∀ x y k, holds x k → holds y k → x = y
  owner : ∀ k, taken k → ∃ x, holds x k

namespace Custody

lemma congr (h : Custody taken holds) (htaken : ∀ j, taken' j ↔ taken j) (hholds : ∀ x j, holds' x j ↔ holds x j) :
    Custody taken' holds' where
  held := fun x j hj => (htaken j).mpr (h.held x j ((hholds x j).mp hj))
  unique := fun x y j hx hy => h.unique x y j ((hholds x j).mp hx) ((hholds y j).mp hy)
  owner := fun j hj => by
    obtain ⟨x, hx⟩ := h.owner j ((htaken j).mp hj)
    exact ⟨x, (hholds x j).mpr hx⟩

lemma take (h : Custody taken holds) (hk : ¬ taken k) (htaken : ∀ j, taken' j ↔ taken j ∨ j = k)
    (hholds : ∀ x j, holds' x j ↔ holds x j ∨ x = t ∧ j = k) : Custody taken' holds' := by
  have hfree : ∀ x, ¬ holds x k := fun x hx => hk (h.held x k hx)
  refine ⟨?_, ?_, ?_⟩
  · intro x j hj
    rcases (hholds x j).mp hj with hj | ⟨-, rfl⟩
    · exact (htaken j).mpr (.inl (h.held x j hj))
    · exact (htaken j).mpr (.inr rfl)
  · intro x y j hx hy
    rcases (hholds x j).mp hx with hx | ⟨rfl, rfl⟩
    · rcases (hholds y j).mp hy with hy | ⟨rfl, rfl⟩
      · exact h.unique x y j hx hy
      · exact absurd hx (hfree x)
    · rcases (hholds y j).mp hy with hy | ⟨rfl, -⟩
      · exact absurd hy (hfree y)
      · rfl
  · intro j hj
    rcases (htaken j).mp hj with hj | rfl
    · obtain ⟨x, hx⟩ := h.owner j hj
      exact ⟨x, (hholds x j).mpr (.inl hx)⟩
    · exact ⟨t, (hholds t j).mpr (.inr ⟨rfl, rfl⟩)⟩

lemma give (h : Custody taken holds) (hk : holds t k) (htaken : ∀ j, taken' j ↔ taken j ∧ j ≠ k)
    (hholds : ∀ x j, holds' x j ↔ holds x j ∧ ¬ (x = t ∧ j = k)) : Custody taken' holds' := by
  refine ⟨?_, ?_, ?_⟩
  · intro x j hj
    obtain ⟨hx, hne⟩ := (hholds x j).mp hj
    refine (htaken j).mpr ⟨h.held x j hx, ?_⟩
    rintro rfl
    exact hne ⟨h.unique x t j hx hk, rfl⟩
  · intro x y j hx hy
    exact h.unique x y j ((hholds x j).mp hx).1 ((hholds y j).mp hy).1
  · intro j hj
    obtain ⟨hj, hne⟩ := (htaken j).mp hj
    obtain ⟨x, hx⟩ := h.owner j hj
    exact ⟨x, (hholds x j).mpr ⟨hx, fun hc => hne hc.2⟩⟩

end Custody

end Custody

end SpotLess.Lib
