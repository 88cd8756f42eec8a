import Mathlib.Tactic

namespace SpotLess.Lib

structure Pool where
  allocated : Finset ℕ
  free : ℕ → List ℕ

namespace Pool

def init : Pool where
  allocated := ∅
  free _ := []

-- `fresh` is what the allocator returns when the queue is empty.
def get (P : Pool) (k fresh : ℕ) : ℕ × Pool :=
  match P.free k with
  | p :: rest => (p, { P with free := Function.update P.free k rest })
  | [] => (fresh, { P with allocated := insert fresh P.allocated })

-- An object the queue has no room for is given back to the allocator.
def put (P : Pool) (k p : ℕ) (kept : Bool) : Pool :=
  if kept then { P with free := Function.update P.free k (P.free k ++ [p]) }
  else { P with allocated := P.allocated.erase p }

structure Owns (P : Pool) (used : ℕ → Prop) : Prop where
  nodup : ∀ k, (P.free k).Nodup
  disjoint : ∀ k l p, p ∈ P.free k → p ∈ P.free l → k = l
  free_mem : ∀ k, ∀ p ∈ P.free k, p ∈ P.allocated
  used_mem : ∀ p, used p → p ∈ P.allocated
  separate : ∀ k, ∀ p ∈ P.free k, ¬ used p

variable {P : Pool} {used used' : ℕ → Prop}

lemma owns_init : init.Owns fun _ => False where
  nodup _ := List.nodup_nil
  disjoint _ _ _ h := by cases h
  free_mem _ _ h := by cases h
  used_mem _ h := h.elim
  separate _ _ h := by cases h

lemma Owns.congr (h : P.Owns used) (heq : ∀ p, used' p ↔ used p) : P.Owns used' where
  nodup := h.nodup
  disjoint := h.disjoint
  free_mem := h.free_mem
  used_mem p hp := h.used_mem p ((heq p).mp hp)
  separate k p hp hu := h.separate k p hp ((heq p).mp hu)

lemma mem_free_get {k fresh l q : ℕ} (hq : q ∈ (P.get k fresh).2.free l) : q ∈ P.free l := by
  rw [get] at hq
  split at hq
  · rename_i p rest heq
    change q ∈ Function.update P.free k rest l at hq
    rw [Function.update_apply] at hq
    split_ifs at hq with hl
    · rw [hl, heq]
      exact List.mem_cons_of_mem p hq
    · exact hq
  · exact hq

lemma mem_free_put {k p l q : ℕ} {kept : Bool} (hq : q ∈ (P.put k p kept).free l) : q ∈ P.free l ∨ q = p := by
  rw [put] at hq
  split_ifs at hq
  · change q ∈ Function.update P.free k (P.free k ++ [p]) l at hq
    rw [Function.update_apply] at hq
    split_ifs at hq with hl
    · rcases List.mem_append.mp hq with hq | hq
      · exact .inl (hl ▸ hq)
      · exact .inr (List.mem_singleton.mp hq)
    · exact .inl hq
  · exact .inl hq

lemma get_fst (P : Pool) (k fresh : ℕ) : (P.get k fresh).1 ∈ P.free k ∨ P.free k = [] ∧ (P.get k fresh).1 = fresh := by
  rw [get]
  split
  · rename_i p rest heq
    exact .inl (heq ▸ List.mem_cons_self)
  · rename_i heq
    exact .inr ⟨heq, rfl⟩

lemma Owns.get_unused (h : P.Owns used) {k fresh : ℕ} (hf : fresh ∉ P.allocated) : ¬ used (P.get k fresh).1 := by
  rcases P.get_fst k fresh with hp | ⟨-, heq⟩
  · exact h.separate k _ hp
  · rw [heq]
    exact fun hu => hf (h.used_mem fresh hu)

lemma Owns.get (h : P.Owns used) {k fresh : ℕ} (hf : fresh ∉ P.allocated) :
    (P.get k fresh).2.Owns fun p => used p ∨ p = (P.get k fresh).1 := by
  rw [Pool.get]
  split
  · rename_i p rest heq
    have hnodup := h.nodup k
    rw [heq, List.nodup_cons] at hnodup
    have hmem : ∀ l q, q ∈ Function.update P.free k rest l → q ∈ P.free l ∧ q ≠ p := by
      intro l q hq
      rw [Function.update_apply] at hq
      split_ifs at hq with hl
      · rw [hl, heq]
        exact ⟨List.mem_cons_of_mem p hq, fun hqp => hnodup.1 (hqp ▸ hq)⟩
      · refine ⟨hq, fun hqp => hl (h.disjoint l k p (hqp ▸ hq) ?_)⟩
        rw [heq]
        exact List.mem_cons_self
    refine ⟨fun l => ?_, fun l l' q hq hq' => ?_, fun l q hq => ?_, ?_, fun l q hq => ?_⟩
    · change (Function.update P.free k rest l).Nodup
      rw [Function.update_apply]
      split_ifs
      · exact hnodup.2
      · exact h.nodup l
    · exact h.disjoint l l' q (hmem l q hq).1 (hmem l' q hq').1
    · exact h.free_mem l q (hmem l q hq).1
    · rintro q (hq | rfl)
      · exact h.used_mem q hq
      · exact h.free_mem k q (heq ▸ List.mem_cons_self)
    · rintro (hu | hqp)
      · exact h.separate l q (hmem l q hq).1 hu
      · exact (hmem l q hq).2 hqp
  · refine ⟨h.nodup, h.disjoint, fun l q hq => ?_, ?_, fun l q hq => ?_⟩
    · exact Finset.mem_insert_of_mem (h.free_mem l q hq)
    · rintro q (hq | rfl)
      · exact Finset.mem_insert_of_mem (h.used_mem q hq)
      · exact Finset.mem_insert_self q P.allocated
    · rintro (hu | rfl)
      · exact h.separate l q hq hu
      · exact hf (h.free_mem l q hq)

lemma Owns.put (h : P.Owns used) {k p : ℕ} (hp : used p) (kept : Bool) :
    (P.put k p kept).Owns fun q => used q ∧ q ≠ p := by
  have hfree : ∀ l, p ∉ P.free l := fun l hin => h.separate l p hin hp
  rw [Pool.put]
  split_ifs
  · have hmem : ∀ l q, q ∈ Function.update P.free k (P.free k ++ [p]) l ↔ q ∈ P.free l ∨ l = k ∧ q = p := by
      intro l q
      rw [Function.update_apply]
      split_ifs with hl
      · subst hl
        simp
      · simp [hl]
    refine ⟨fun l => ?_, fun l l' q hq hq' => ?_, fun l q hq => ?_, fun q hq => h.used_mem q hq.1, fun l q hq hu => ?_⟩
    · change (Function.update P.free k (P.free k ++ [p]) l).Nodup
      rw [Function.update_apply]
      split_ifs
      · exact List.Nodup.append (h.nodup k) (List.nodup_singleton p) (by simpa using hfree k)
      · exact h.nodup l
    · rcases (hmem l q).mp hq with hin | ⟨rfl, rfl⟩
      · rcases (hmem l' q).mp hq' with hin' | ⟨-, rfl⟩
        · exact h.disjoint l l' q hin hin'
        · exact absurd hin (hfree l)
      · rcases (hmem l' q).mp hq' with hin' | ⟨rfl, -⟩
        · exact absurd hin' (hfree l')
        · rfl
    · rcases (hmem l q).mp hq with hq | ⟨-, rfl⟩
      · exact h.free_mem l q hq
      · exact h.used_mem q hp
    · rcases (hmem l q).mp hq with hq | ⟨-, hqp⟩
      · exact h.separate l q hq hu.1
      · exact hu.2 hqp
  · refine ⟨h.nodup, h.disjoint, fun l q hq => ?_, fun q hq => ?_, fun l q hq hu => h.separate l q hq hu.1⟩
    · exact Finset.mem_erase.mpr ⟨fun hqp => hfree l (hqp ▸ hq), h.free_mem l q hq⟩
    · exact Finset.mem_erase.mpr ⟨hq.2, h.used_mem q hq.1⟩

end Pool

end SpotLess.Lib
