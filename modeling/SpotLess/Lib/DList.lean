import SpotLess.Lib.Reach

namespace SpotLess.Lib

structure Links where
  next : ℕ → Option ℕ
  prev : ℕ → Option ℕ

namespace Links

def setNext (L : Links) (p : ℕ) (q : Option ℕ) : Links := { L with next := Function.update L.next p q }

def setPrev (L : Links) (p : ℕ) (q : Option ℕ) : Links := { L with prev := Function.update L.prev p q }

@[simp] lemma setNext_next (L : Links) (p : ℕ) (q : Option ℕ) : (L.setNext p q).next = Function.update L.next p q := rfl
@[simp] lemma setNext_prev (L : Links) (p : ℕ) (q : Option ℕ) : (L.setNext p q).prev = L.prev := rfl
@[simp] lemma setPrev_next (L : Links) (p : ℕ) (q : Option ℕ) : (L.setPrev p q).next = L.next := rfl
@[simp] lemma setPrev_prev (L : Links) (p : ℕ) (q : Option ℕ) : (L.setPrev p q).prev = Function.update L.prev p q := rfl

end Links

structure Ends where
  head : Option ℕ
  tail : Option ℕ

namespace DList

structure Spells (L : Links) (ends : Ends) (ps : List ℕ) : Prop where
  head : ends.head = ps.head?
  tail : ends.tail = ps.getLast?
  nodup : ps.Nodup
  links : ∀ l a r, ps = l ++ a :: r → L.prev a = l.getLast? ∧ L.next a = r.head?

variable {L : Links} {ends : Ends} {ps : List ℕ}

lemma spells_nil (L : Links) : Spells L ⟨none, none⟩ [] where
  head := rfl
  tail := rfl
  nodup := List.nodup_nil
  links l a r h := by simp at h

lemma Spells.congr {L' : Links} (h : Spells L ends ps) (hnext : ∀ p ∈ ps, L'.next p = L.next p)
    (hprev : ∀ p ∈ ps, L'.prev p = L.prev p) : Spells L' ends ps := by
  refine ⟨h.head, h.tail, h.nodup, fun l a r heq => ?_⟩
  have hmem : a ∈ ps := by simp [heq]
  rw [hnext a hmem, hprev a hmem]
  exact h.links l a r heq

section PutTail

def putTail (L : Links) (ends : Ends) (e : ℕ) : Links × Ends :=
  let L₁ := (L.setNext e none).setPrev e none
  match ends.tail with
  | some t => ((L₁.setPrev e (some t)).setNext t (some e), { ends with tail := some e })
  | none => (L₁, ⟨some e, some e⟩)

lemma putTail_frame {e p : ℕ} (hp : p ≠ e) (ht : ends.tail ≠ some p) :
    (putTail L ends e).1.next p = L.next p ∧ (putTail L ends e).1.prev p = L.prev p := by
  simp only [putTail]
  split
  · rename_i t heq
    have hpt : p ≠ t := by
      rintro rfl
      exact ht heq
    simp [hp, hpt]
  · simp [hp]

lemma Spells.putTail {e : ℕ} (h : Spells L ends ps) (he : e ∉ ps) :
    Spells (putTail L ends e).1 (putTail L ends e).2 (ps ++ [e]) := by
  have hnodup : (ps ++ [e]).Nodup :=
    List.Nodup.append h.nodup (List.nodup_singleton e) (by rwa [List.disjoint_singleton])
  rcases List.eq_nil_or_concat ps with rfl | ⟨qs, t, rfl⟩
  · have htail : ends.tail = none := h.tail
    simp only [DList.putTail, htail]
    refine ⟨rfl, rfl, hnodup, fun l a r heq => ?_⟩
    obtain ⟨rfl, rfl, rfl⟩ : l = [] ∧ a = e ∧ r = [] := by
      cases l with
      | nil =>
        obtain ⟨rfl, rfl⟩ := List.cons.inj heq
        exact ⟨rfl, rfl, rfl⟩
      | cons b l => simp at heq
    simp
  · rw [List.concat_eq_append] at h he hnodup ⊢
    have htail : ends.tail = some t := by simpa using h.tail
    have hte : t ≠ e := by
      rintro rfl
      simp at he
    simp only [DList.putTail, htail]
    refine ⟨?_, by simp, hnodup, fun l a r heq => ?_⟩
    · rw [h.head]
      cases qs <;> rfl
    · rcases snoc_eq_append_cons heq with ⟨rfl, rfl, rfl⟩ | ⟨r, rfl, hps⟩
      · -- the new node
        simp [hte.symm]
      · obtain ⟨hprev, hnext⟩ := h.links l a r hps
        have hae : a ≠ e := by
          rintro rfl
          rw [hps] at he
          simp at he
        rcases snoc_eq_append_cons hps with ⟨rfl, rfl, rfl⟩ | ⟨r, rfl, hqs⟩
        · -- the old tail
          simp [hte, hprev]
        · have hat : a ≠ t := by
            rintro rfl
            have hnd := h.nodup
            rw [hps, List.nodup_middle, List.nodup_cons] at hnd
            simp at hnd
          simp only [Links.setNext_prev, Links.setPrev_prev, Links.setNext_next, Links.setPrev_next,
            Function.update_of_ne hae, Function.update_of_ne hat, hprev, hnext, true_and]
          cases r <;> rfl

end PutTail

section Remove

def unlinkNext (L : Links) (ends : Ends) (e : ℕ) : Option (Links × Ends) :=
  match L.next e with
  | some n => some (L.setPrev n (L.prev e), ends)
  | none => if ends.tail = some e then some (L, { ends with tail := L.prev e }) else none

def unlinkPrev (L : Links) (ends : Ends) (e : ℕ) : Option (Links × Ends) :=
  match L.prev e with
  | some p => some (L.setNext p (L.next e), ends)
  | none => if ends.head = some e then some (L, { ends with head := L.next e }) else none

-- `none` is a failed assertion.
def remove (L : Links) (ends : Ends) (e : ℕ) : Option (Links × Ends) :=
  (unlinkNext L ends e).bind fun z => unlinkPrev z.1 z.2 e

def relink (L : Links) (l r : List ℕ) : Links where
  next x := if l.getLast? = some x then r.head? else L.next x
  prev x := if r.head? = some x then l.getLast? else L.prev x

lemma unlinkNext_eq {e : ℕ} {l r : List ℕ} (hprev : L.prev e = l.getLast?) (hnext : L.next e = r.head?)
    (htail : ends.tail = (l ++ e :: r).getLast?) :
    unlinkNext L ends e = some (⟨L.next, (relink L l r).prev⟩, ⟨ends.head, (l ++ r).getLast?⟩) := by
  cases r with
  | nil =>
    have hlast : ends.tail = some e := by simpa using htail
    rw [unlinkNext, hnext, List.head?_nil]
    simp [hlast, hprev, relink]
  | cons n r =>
    have hsame : ends.tail = (l ++ n :: r).getLast? := by
      rw [htail]
      simp
    have hset : L.setPrev n (L.prev e) = ⟨L.next, (relink L l (n :: r)).prev⟩ := by
      rw [Links.setPrev, hprev]
      congr 1
      funext x
      simp [relink, Function.update_apply, eq_comm]
    rw [unlinkNext, hnext, List.head?_cons]
    simp only [hset, ← hsame]

lemma unlinkPrev_eq {e : ℕ} {l r : List ℕ} (hprev : L.prev e = l.getLast?) (hnext : L.next e = r.head?)
    (hhead : ends.head = (l ++ e :: r).head?) :
    unlinkPrev L ends e = some (⟨(relink L l r).next, L.prev⟩, ⟨(l ++ r).head?, ends.tail⟩) := by
  rcases List.eq_nil_or_concat l with rfl | ⟨l, p, rfl⟩
  · have hfirst : ends.head = some e := by simpa using hhead
    rw [unlinkPrev, hprev, List.getLast?_nil]
    simp [hfirst, hnext, relink]
  · rw [List.concat_eq_append] at hprev hhead ⊢
    have hsame : ends.head = (l ++ [p] ++ r).head? := by
      rw [hhead]
      cases l <;> rfl
    have hset : L.setNext p (L.next e) = ⟨(relink L (l ++ [p]) r).next, L.prev⟩ := by
      rw [Links.setNext, hnext]
      congr 1
      funext x
      simp [relink, Function.update_apply, eq_comm]
    have hlast : (l ++ [p]).getLast? = some p := by simp
    rw [unlinkPrev, hprev, hlast]
    simp only [hset, ← hsame]

lemma Spells.remove_eq {e : ℕ} {l r : List ℕ} (h : Spells L ends (l ++ e :: r)) :
    remove L ends e = some (relink L l r, ⟨(l ++ r).head?, (l ++ r).getLast?⟩) := by
  obtain ⟨hprev, hnext⟩ := h.links l e r rfl
  have hnd := h.nodup
  rw [List.nodup_middle, List.nodup_cons, List.mem_append, not_or] at hnd
  have hkeep : (relink L l r).prev e = l.getLast? := by
    have hne : r.head? ≠ some e := fun heq => hnd.1.2 (List.mem_of_head? heq)
    simp only [relink, if_neg hne, hprev]
  have hhead : (⟨ends.head, (l ++ r).getLast?⟩ : Ends).head = (l ++ e :: r).head? := h.head
  rw [remove, unlinkNext_eq hprev hnext h.tail, Option.bind_some]
  exact unlinkPrev_eq (L := ⟨L.next, (relink L l r).prev⟩) hkeep hnext hhead

lemma Spells.relink_behind {e a : ℕ} {l m r : List ℕ} (h : Spells L ends (l ++ e :: (m ++ a :: r))) :
    (relink L l (m ++ a :: r)).prev a = (l ++ m).getLast? ∧ (relink L l (m ++ a :: r)).next a = r.head? := by
  obtain ⟨hprev, hnext⟩ := h.links (l ++ e :: m) a r (by simp)
  have hnd := h.nodup
  rw [List.nodup_middle, List.nodup_cons] at hnd
  have hal : a ∉ l := fun hin => List.disjoint_of_nodup_append hnd.2 hin (by simp)
  have hlast : l.getLast? ≠ some a := fun heq => hal (List.mem_of_getLast? heq)
  refine ⟨?_, by simp only [relink, if_neg hlast, hnext]⟩
  cases m with
  | nil => simp [relink]
  | cons b m =>
    have hba : b ≠ a := by
      rintro rfl
      have hnd' := (List.nodup_append.mp hnd.2).2.1
      simp at hnd'
    simp [relink, hba, hprev]

lemma Spells.relink_before {e a : ℕ} {l m r : List ℕ} (h : Spells L ends ((l ++ a :: m) ++ e :: r)) :
    (relink L (l ++ a :: m) r).prev a = l.getLast? ∧ (relink L (l ++ a :: m) r).next a = (m ++ r).head? := by
  obtain ⟨hprev, hnext⟩ := h.links l a (m ++ e :: r) (by simp)
  have hnd := h.nodup
  rw [List.nodup_middle, List.nodup_cons] at hnd
  have har : a ∉ r := List.disjoint_of_nodup_append hnd.2 (by simp)
  have hhead : r.head? ≠ some a := fun heq => har (List.mem_of_head? heq)
  refine ⟨by simp only [relink, if_neg hhead, hprev], ?_⟩
  cases m with
  | nil => simp [relink]
  | cons b m =>
    have hba : (l ++ a :: b :: m).getLast? ≠ some a := by
      intro heq
      have hnd' := (List.nodup_append.mp hnd.2).1
      rw [List.nodup_middle, List.nodup_cons] at hnd'
      have hin : a ∈ b :: m := by
        apply List.mem_of_getLast?
        simpa using heq
      exact hnd'.1 (List.mem_append_right _ hin)
    simp only [relink, if_neg hba, hnext]
    rfl

lemma Spells.relink {e : ℕ} {l r : List ℕ} (h : Spells L ends (l ++ e :: r)) :
    Spells (relink L l r) ⟨(l ++ r).head?, (l ++ r).getLast?⟩ (l ++ r) := by
  have hnd := h.nodup
  rw [List.nodup_middle, List.nodup_cons] at hnd
  refine ⟨rfl, rfl, hnd.2, fun l' a r' heq => ?_⟩
  rcases List.append_eq_append_iff.mp heq with ⟨m, rfl, rfl⟩ | ⟨m, rfl, hr⟩
  · exact h.relink_behind
  · cases m with
    | nil =>
      obtain rfl : a :: r' = r := hr
      rw [List.append_nil] at h ⊢
      simpa using Spells.relink_behind (m := []) h
    | cons b m =>
      obtain ⟨rfl, rfl⟩ := List.cons.inj hr
      exact h.relink_before

lemma relink_frame {p : ℕ} {l r : List ℕ} (hp : p ∉ l ++ r) :
    (DList.relink L l r).next p = L.next p ∧ (DList.relink L l r).prev p = L.prev p := by
  rw [List.mem_append, not_or] at hp
  have hlast : l.getLast? ≠ some p := fun heq => hp.1 (List.mem_of_getLast? heq)
  have hhead : r.head? ≠ some p := fun heq => hp.2 (List.mem_of_head? heq)
  simp only [DList.relink, if_neg hlast, if_neg hhead, and_self]

end Remove

section Search

-- The first node from `p` on that satisfies `f`; `none` if the links lead on after that many nodes.
def search (L : Links) (f : ℕ → Bool) : ℕ → Option ℕ → Option (Option ℕ)
  | _, none => some none
  | 0, some _ => none
  | fuel + 1, some a => if f a then some (some a) else search L f fuel (L.next a)

lemma Spells.search {f : ℕ → Bool} (h : Spells L ends ps) {fuel : ℕ} (hfuel : ps.length ≤ fuel) :
    search L f fuel ends.head = some (ps.find? f) := by
  have hsuffix : ∀ r l, ps = l ++ r → ∀ fuel, r.length ≤ fuel → DList.search L f fuel r.head? = some (r.find? f) := by
    intro r
    induction r with
    | nil =>
      intro l _ fuel _
      cases fuel <;> rfl
    | cons a r ih =>
      intro l hps fuel hlen
      cases fuel with
      | zero => simp at hlen
      | succ fuel =>
        rw [List.head?_cons, DList.search, List.find?_cons]
        split
        · rename_i hf
          rw [hf]
        · rename_i hf
          rw [(h.links l a r hps).2, ih (l ++ [a]) (by simp [hps]) fuel (by simpa using hlen)]
          simp [hf]
  rw [h.head]
  exact hsuffix ps [] rfl fuel hfuel

end Search

end DList

end SpotLess.Lib
