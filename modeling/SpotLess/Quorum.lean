import SpotLess.Config

namespace SpotLess

namespace Config

variable (cfg : Config)

structure IsQuorum (A : Finset ℕ) : Prop where
  subset : A ⊆ Finset.range cfg.nodeCnt
  card : A.card = cfg.nf

structure QuorumsIntersect : Prop where
  enough : 3 * cfg.minInvalidNodes + 1 ≤ cfg.nodeCnt
  overlap : ∀ A B, cfg.IsQuorum A → cfg.IsQuorum B → cfg.minInvalidNodes + 1 ≤ (A ∩ B).card
  correct : ∀ A B F : Finset ℕ, cfg.IsQuorum A → cfg.IsQuorum B → F.card ≤ cfg.minInvalidNodes →
    ∃ r ∈ A ∩ B, r ∉ F

variable {cfg}

lemma IsQuorum.card_inter {A B : Finset ℕ} (hA : cfg.IsQuorum A) (hB : cfg.IsQuorum B) :
    2 * cfg.nf ≤ cfg.nodeCnt + (A ∩ B).card := by
  have hunion : (A ∪ B).card ≤ cfg.nodeCnt := by
    simpa using Finset.card_le_card (Finset.union_subset hA.subset hB.subset)
  have hsum := Finset.card_union_add_card_inter A B
  rw [hA.card, hB.card] at hsum
  omega

-- With `n = 3f + 1` the formula of `global.cpp` gives back `f`; otherwise it rounds up past `n / 3`.
lemma three_mul_minInvalidNodes (h : cfg.nodeCnt % 3 = 1) : 3 * cfg.minInvalidNodes + 1 = cfg.nodeCnt := by
  rw [minInvalidNodes, if_pos h]
  omega

lemma nodeCnt_le_three_mul (h : cfg.nodeCnt % 3 ≠ 1) : cfg.nodeCnt ≤ 3 * cfg.minInvalidNodes := by
  rw [minInvalidNodes, if_neg h]
  omega

lemma IsQuorum.overlap {A B : Finset ℕ} (h : cfg.nodeCnt % 3 = 1) (hA : cfg.IsQuorum A)
    (hB : cfg.IsQuorum B) : cfg.minInvalidNodes + 1 ≤ (A ∩ B).card := by
  have hcard := hA.card_inter hB
  have hn := three_mul_minInvalidNodes h
  rw [nf] at hcard
  omega

lemma IsQuorum.exists_correct {A B F : Finset ℕ} (h : cfg.nodeCnt % 3 = 1) (hA : cfg.IsQuorum A)
    (hB : cfg.IsQuorum B) (hF : F.card ≤ cfg.minInvalidNodes) : ∃ r ∈ A ∩ B, r ∉ F := by
  have hlt : F.card < (A ∩ B).card := by
    have := hA.overlap h hB
    omega
  exact Finset.exists_mem_notMem_of_card_lt_card hlt

theorem quorumsIntersect_iff (cfg : Config) : cfg.QuorumsIntersect ↔ cfg.nodeCnt % 3 = 1 := by
  constructor
  · intro hq
    by_contra h
    have henough := hq.enough
    have hle := nodeCnt_le_three_mul h
    omega
  · intro h
    exact {
      enough := (three_mul_minInvalidNodes h).le
      overlap := fun A B hA hB => hA.overlap h hB
      correct := fun A B F hA hB hF => hA.exists_correct h hB hF }

def fiveReplicas : Config :=
  { fourReplicas with
    nodeCnt := 5
    instances_le := by decide }

theorem quorums_of_five_meet_in_one :
    fiveReplicas.minInvalidNodes = 2 ∧ fiveReplicas.IsQuorum {0, 1, 2} ∧
      fiveReplicas.IsQuorum {2, 3, 4} ∧ ({0, 1, 2} ∩ {2, 3, 4} : Finset ℕ) = {2} ∧
      ¬ fiveReplicas.QuorumsIntersect := by
  have hA : fiveReplicas.IsQuorum {0, 1, 2} := ⟨by decide, by decide⟩
  have hB : fiveReplicas.IsQuorum {2, 3, 4} := ⟨by decide, by decide⟩
  refine ⟨by decide, hA, hB, by decide, ?_⟩
  intro hq
  have hoverlap := hq.overlap _ _ hA hB
  exact absurd hoverlap (by decide)

end Config

end SpotLess
