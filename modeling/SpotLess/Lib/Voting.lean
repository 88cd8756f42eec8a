import Mathlib.Data.Finset.Card

/-! Votes for values, of which every voter outside a faulty set casts at most one. Two values carried by sets of voters
that meet outside the faulty set are the same value. -/

namespace SpotLess.Lib

variable {ι α : Type} {faulty A B : Finset ι} {votes votes' : ι → α → Prop} {a b : α}

def Unequivocal (faulty : Finset ι) (votes : ι → α → Prop) : Prop :=
  ∀ x, x ∉ faulty → ∀ a b, votes x a → votes x b → a = b

-- The faulty members of `A` may say they voted for anything.
def Carries (faulty : Finset ι) (votes : ι → α → Prop) (A : Finset ι) (a : α) : Prop :=
  ∀ x ∈ A, x ∉ faulty → votes x a

lemma Carries.mono (h : Carries faulty votes A a) (hvotes : ∀ x, votes x a → votes' x a) :
    Carries faulty votes' A a := fun x hx hf => hvotes x (h x hx hf)

lemma Unequivocal.agree [DecidableEq ι] (h : Unequivocal faulty votes) (ha : Carries faulty votes A a) (hb : Carries faulty votes B b)
    (hmeet : ∃ x ∈ A ∩ B, x ∉ faulty) : a = b := by
  obtain ⟨x, hx, hf⟩ := hmeet
  rw [Finset.mem_inter] at hx
  exact h x hf a b (ha x hx.1 hf) (hb x hx.2 hf)

lemma exists_voters_of_nodup [DecidableEq ι] {l : List ι} {k : ℕ} (hnodup : l.Nodup) (hk : k ≤ l.length) :
    ∃ A : Finset ι, A.card = k ∧ ∀ x ∈ A, x ∈ l := by
  rw [← List.toFinset_card_of_nodup hnodup] at hk
  obtain ⟨A, hsub, hcard⟩ := Finset.exists_subset_card_eq hk
  exact ⟨A, hcard, fun x hx => List.mem_toFinset.mp (hsub hx)⟩

end SpotLess.Lib
