import SpotLess.WorkQueue

namespace SpotLess

open Wire

def WorkMsg.initDone (m : WorkMsg) : Bool := m.rtype = .INIT_DONE

-- `recv_msg` returns the messages of one frame, of which it has read the first one.
structure RecvBuffer where
  msgs : List WorkMsg
  nonempty : msgs ≠ []

namespace RecvBuffer

variable (b : RecvBuffer)

def back : WorkMsg := b.msgs.getLast b.nonempty

def popBack : List WorkMsg := b.msgs.dropLast

def enqueueFront : List WorkMsg → List WorkMsg
  | [] => []
  | m :: ms => if m.initDone then enqueueFront ms else m :: enqueueFront ms

-- After a last message of type `INIT_DONE` the loop goes on with the next buffer.
def enqueued : List WorkMsg :=
  if b.back.initDone then [] else b.back :: enqueueFront b.popBack

def due : List WorkMsg := b.msgs.filter fun m => !m.initDone

-- Either the last message is not `INIT_DONE`, or there is nothing else in the buffer.
def Passes : Prop := b.back.initDone = false ∨ ∀ m ∈ b.msgs, m.initDone = true

instance : Decidable b.Passes := inferInstanceAs (Decidable (_ ∨ _))

end RecvBuffer

-- `none` is a call of `recv_msg` that found nothing.
def serverRecvLoop : List (Option RecvBuffer) → List WorkMsg
  | [] => []
  | none :: bs => serverRecvLoop bs
  | some b :: bs => b.enqueued ++ serverRecvLoop bs

namespace RecvBuffer

variable {b : RecvBuffer}

lemma enqueueFront_eq (ms : List WorkMsg) : enqueueFront ms = ms.filter fun m => !m.initDone := by
  induction ms with
  | nil => rfl
  | cons m ms ih =>
    rw [enqueueFront, List.filter_cons, ih]
    cases m.initDone <;> rfl

lemma due_eq (b : RecvBuffer) :
    b.due = b.popBack.filter (fun m => !m.initDone) ++ [b.back].filter fun m => !m.initDone := by
  rw [due, ← List.filter_append, popBack, back, List.dropLast_append_getLast]

lemma perm_of_back (h : b.back.initDone = false) : b.enqueued.Perm b.due := by
  rw [enqueued, h, due_eq, enqueueFront_eq]
  have hback : [b.back].filter (fun m => !m.initDone) = [b.back] := by simp [h]
  rw [hback]
  exact (List.perm_append_singleton _ _).symm

lemma due_eq_nil (h : ∀ m ∈ b.msgs, m.initDone = true) : b.due = [] := by
  rw [due, List.filter_eq_nil_iff]
  intro m hm
  simp [h m hm]

lemma enqueued_subperm : b.enqueued.Subperm b.due := by
  cases h : b.back.initDone with
  | false => exact (perm_of_back h).subperm
  | true =>
    rw [enqueued, h]
    exact List.nil_subperm

lemma enqueued_perm_iff : b.enqueued.Perm b.due ↔ b.Passes := by
  constructor
  · intro hperm
    cases h : b.back.initDone with
    | false => exact .inl h
    | true =>
      rw [enqueued, h] at hperm
      have hdue : b.due = [] := List.nil_perm.mp hperm
      rw [due, List.filter_eq_nil_iff] at hdue
      exact .inr fun m hm => by simpa using hdue m hm
  · rintro (h | h)
    · exact perm_of_back h
    · have hback : b.back.initDone = true := h _ (List.getLast_mem _)
      rw [enqueued, hback, due_eq_nil h]
      exact List.Perm.refl _

end RecvBuffer

def dueOf (bs : List (Option RecvBuffer)) : List WorkMsg := (bs.filterMap id).flatMap RecvBuffer.due

lemma serverRecvLoop_eq (bs : List (Option RecvBuffer)) :
    serverRecvLoop bs = (bs.filterMap id).flatMap RecvBuffer.enqueued := by
  induction bs with
  | nil => rfl
  | cons o bs ih =>
    cases o with
    | none => exact ih
    | some b =>
      rw [serverRecvLoop, ih]
      rfl

lemma append_perm_iff {xs ys us vs : List WorkMsg} (hx : xs.Subperm us) (hy : ys.Subperm vs) :
    (xs ++ ys).Perm (us ++ vs) ↔ xs.Perm us ∧ ys.Perm vs := by
  constructor
  · intro h
    have hlen := h.length_eq
    rw [List.length_append, List.length_append] at hlen
    have hxl := hx.length_le
    have hyl := hy.length_le
    exact ⟨hx.perm_of_length_le (by omega), hy.perm_of_length_le (by omega)⟩
  · rintro ⟨hxu, hyv⟩
    exact hxu.append hyv

lemma flatMap_enqueued_subperm (bs : List RecvBuffer) :
    (bs.flatMap RecvBuffer.enqueued).Subperm (bs.flatMap RecvBuffer.due) := by
  induction bs with
  | nil => exact List.Subperm.refl _
  | cons b bs ih =>
    rw [List.flatMap_cons, List.flatMap_cons]
    exact b.enqueued_subperm.append ih

lemma flatMap_enqueued_perm_iff (bs : List RecvBuffer) :
    (bs.flatMap RecvBuffer.enqueued).Perm (bs.flatMap RecvBuffer.due) ↔ ∀ b ∈ bs, b.Passes := by
  induction bs with
  | nil => simp
  | cons b bs ih =>
    rw [List.flatMap_cons, List.flatMap_cons, append_perm_iff b.enqueued_subperm (flatMap_enqueued_subperm bs), ih,
      b.enqueued_perm_iff, List.forall_mem_cons]

theorem serverRecvLoop_hands_over (b : RecvBuffer) (bs : List (Option RecvBuffer)) :
    (b.enqueued.Perm b.due ↔ b.Passes) ∧
      ((serverRecvLoop bs).Perm (dueOf bs) ↔ ∀ b, some b ∈ bs → b.Passes) := by
  refine ⟨b.enqueued_perm_iff, ?_⟩
  rw [serverRecvLoop_eq, dueOf, flatMap_enqueued_perm_iff]
  simp only [List.mem_filterMap, id_eq, exists_eq_right]

-- A key that arrives in one frame with an `INIT_DONE` behind it.
theorem key_before_init_done_lost :
    ¬ ∀ b : RecvBuffer, b.enqueued.Perm b.due := by
  intro h
  have := (h ⟨[⟨0, .KEYEX, 0, 0⟩, ⟨1, .INIT_DONE, 0, 0⟩], by decide⟩).length_eq
  exact absurd this (by decide)

end SpotLess
