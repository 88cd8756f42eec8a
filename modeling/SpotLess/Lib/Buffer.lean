import Mathlib.Tactic

/-! Copying to and from a byte buffer through a cursor. An access outside the buffer, or a failed assertion,
has no result. `Reads` and `Writes` say which bytes an action consumes or leaves behind the cursor. -/

namespace SpotLess.Lib

structure Cursor where
  buf : List UInt8
  ptr : ℕ

abbrev Mem := StateT Cursor Option

section Actions

variable {α : Type}

def overwrite (buf : List UInt8) (ptr : ℕ) (bs : List UInt8) : List UInt8 :=
  buf.take ptr ++ bs ++ buf.drop (ptr + bs.length)

lemma overwrite_length {buf bs : List UInt8} {ptr : ℕ} (h : ptr + bs.length ≤ buf.length) :
    (overwrite buf ptr bs).length = buf.length := by
  simp only [overwrite, List.length_append, List.length_take, List.length_drop]
  omega

lemma overwrite_read {buf bs : List UInt8} {ptr : ℕ} (h : ptr ≤ buf.length) :
    ((overwrite buf ptr bs).drop ptr).take bs.length = bs := by
  have hlen : (buf.take ptr).length = ptr := by
    rw [List.length_take]
    omega
  rw [overwrite, List.append_assoc, List.drop_left' hlen, List.take_left]

lemma overwrite_middle {a w w' c : List UInt8} {k : ℕ} (ha : a.length = k) (hw : w.length = w'.length) :
    overwrite (a ++ w ++ c) k w' = a ++ w' ++ c := by
  have htake : (a ++ w ++ c).take k = a := by rw [List.append_assoc, List.take_left' ha]
  have hdrop : (a ++ w ++ c).drop (k + w'.length) = c := List.drop_left' (by rw [List.length_append, ha, hw])
  rw [overwrite, htake, hdrop]

lemma take_overwrite {buf a w w' c : List UInt8} {k n : ℕ} (ha : a.length = k) (hw : w.length = w'.length)
    (h : buf.take n = a ++ w ++ c) (hn : n ≤ buf.length) : (overwrite buf k w').take n = a ++ w' ++ c := by
  have hbuf : buf = a ++ w ++ (c ++ buf.drop n) := by rw [← List.append_assoc, ← h, List.take_append_drop]
  have hlen : (a ++ w' ++ c).length = n := by
    have hall := congrArg List.length h
    rw [List.length_take_of_le hn] at hall
    simp only [List.length_append] at hall ⊢
    omega
  rw [hbuf, overwrite_middle ha hw, ← List.append_assoc, List.take_left' hlen]

def copyBuf (bs : List UInt8) : Mem Unit := fun c =>
  if c.ptr + bs.length ≤ c.buf.length then some ((), ⟨overwrite c.buf c.ptr bs, c.ptr + bs.length⟩) else none

def copyVal (k : ℕ) : Mem (List UInt8) := fun c =>
  if c.ptr + k ≤ c.buf.length then some ((c.buf.drop c.ptr).take k, ⟨c.buf, c.ptr + k⟩) else none

def ensure (p : Prop) [Decidable p] : Mem Unit := if p then pure () else failure

-- After `m` the cursor is set by the size of what was copied, whatever `m` has moved it by.
def within (m : Mem α) (size : α → ℕ) : Mem α := fun c =>
  (m c).map fun r => (r.1, ⟨r.2.buf, c.ptr + size r.1⟩)

-- After `m` the cursor is compared with the size of what was copied.
def sized (m : Mem α) (size : α → ℕ) : Mem α := fun c =>
  (m c).bind fun r => if r.2.ptr = c.ptr + size r.1 then some r else none

def peek (m : Mem α) : Mem α := fun c => (m c).map fun r => (r.1, c)

def putUnless (c : Prop) [Decidable c] (w : Mem Unit) : Mem Unit := if c then pure () else w

def getUnless (c : Prop) [Decidable c] (x : α) (r : Mem α) : Mem α := if c then pure x else r

def copyEach (f : α → Mem Unit) : List α → Mem Unit
  | [] => pure ()
  | x :: xs => do
    f x
    copyEach f xs

def readEach (r : Mem α) : ℕ → Mem (List α)
  | 0 => pure []
  | k + 1 => do
    let x ← r
    let xs ← readEach r k
    pure (x :: xs)

end Actions

section Spec

variable {α β : Type}

def Spec (m : Mem α) (old new : List UInt8) (a : α) : Prop :=
  ∀ pre post, m ⟨pre ++ old ++ post, pre.length⟩ = some (a, ⟨pre ++ new ++ post, pre.length + new.length⟩)

def Reads (m : Mem α) (bs : List UInt8) (a : α) : Prop := Spec m bs bs a

def Writes (m : Mem Unit) (bs : List UInt8) : Prop := ∀ old, old.length = bs.length → Spec m old bs ()

lemma Spec.bind {m : Mem α} {f : α → Mem β} {o o' b b' : List UInt8} {x : α} {y : β}
    (h : Spec m o b x) (h' : Spec (f x) o' b' y) : Spec (m >>= f) (o ++ o') (b ++ b') y := by
  intro pre post
  have hm := h pre (o' ++ post)
  have hf := h' (pre ++ b) post
  change (m _ >>= fun r => f r.1 r.2) = _
  rw [show pre ++ (o ++ o') ++ post = pre ++ o ++ (o' ++ post) by simp, hm]
  change f x _ = _
  rw [show (⟨pre ++ b ++ (o' ++ post), pre.length + b.length⟩ : Cursor) =
    ⟨pre ++ b ++ o' ++ post, (pre ++ b).length⟩ by simp, hf]
  simp [Nat.add_assoc]

lemma Spec.pure (x : α) : Spec (pure x : Mem α) [] [] x := by
  intro pre post
  rfl

lemma Spec.within {m : Mem α} {size : α → ℕ} {o b : List UInt8} {x : α} (h : Spec m o b x)
    (hs : size x = b.length) : Spec (within m size) o b x := by
  intro pre post
  simp only [Lib.within, h pre post, Option.map_some, hs]

lemma Spec.sized {m : Mem α} {size : α → ℕ} {o b : List UInt8} {x : α} (h : Spec m o b x)
    (hs : size x = b.length) : Spec (sized m size) o b x := by
  intro pre post
  simp only [Lib.sized, h pre post, Option.bind_some, hs, if_true]

lemma Spec.ensure {p : Prop} [Decidable p] (h : p) : Spec (ensure p) [] [] () := by
  intro pre post
  simp only [Lib.ensure, if_pos h]
  rfl

lemma Reads.bind {m : Mem α} {f : α → Mem β} {b c : List UInt8} {x : α} {y : β}
    (h : Reads m b x) (h' : Reads (f x) c y) : Reads (m >>= f) (b ++ c) y :=
  Spec.bind h h'

lemma Reads.pure (x : α) : Reads (pure x : Mem α) [] x := Spec.pure x

lemma Reads.ensure {p : Prop} [Decidable p] {m : Mem α} {b : List UInt8} {x : α} (hp : p)
    (h : Reads m b x) : Reads (ensure p >>= fun _ => m) b x :=
  Spec.bind (f := fun _ => m) (Spec.ensure hp) h

lemma Reads.map {m : Mem α} {b : List UInt8} {x : α} (f : α → β) (h : Reads m b x) :
    Reads (m >>= fun y => Pure.pure (f y)) b (f x) := by
  have hbind := h.bind (f := fun y => Pure.pure (f y)) (.pure (f x))
  rwa [List.append_nil] at hbind

lemma Reads.peek {m : Mem α} {f : α → Mem β} {b b' : List UInt8} {x : α} {y : β} (h : Reads m b x)
    (h' : Reads (f x) (b ++ b') y) : Reads (peek m >>= f) (b ++ b') y := by
  intro pre post
  have hm : Lib.peek m ⟨pre ++ (b ++ b') ++ post, pre.length⟩ =
      some (x, ⟨pre ++ (b ++ b') ++ post, pre.length⟩) := by
    have := h pre (b' ++ post)
    rw [show pre ++ (b ++ b') ++ post = pre ++ b ++ (b' ++ post) by simp, Lib.peek, this]
    rfl
  change (Lib.peek m _ >>= fun r => f r.1 r.2) = _
  rw [hm]
  exact h' pre post

lemma Reads.copyVal {bs : List UInt8} {k : ℕ} (h : bs.length = k) : Reads (copyVal k) bs bs := by
  intro pre post
  have hle : pre.length + k ≤ (pre ++ bs ++ post).length := by
    simp only [List.length_append, h]
    omega
  rw [Lib.copyVal, if_pos hle, List.append_assoc, List.drop_left, List.take_left' h, h]

lemma Writes.bind {w w' : Mem Unit} {b b' : List UInt8} (h : Writes w b) (h' : Writes w' b') :
    Writes (w >>= fun _ => w') (b ++ b') := by
  intro old hold
  rw [List.length_append] at hold
  have hl : (old.take b.length).length = b.length := by
    rw [List.length_take]
    omega
  have hr : (old.drop b.length).length = b'.length := by
    rw [List.length_drop]
    omega
  simpa using Spec.bind (f := fun _ => w') (h _ hl) (h' _ hr)

lemma Writes.pure : Writes (pure ()) [] := by
  intro old hold
  obtain rfl := List.length_eq_zero_iff.mp hold
  exact Spec.pure ()

lemma Writes.ensure {p : Prop} [Decidable p] {w : Mem Unit} {b : List UInt8} (hp : p)
    (h : Writes w b) : Writes (ensure p >>= fun _ => w) b := by
  intro old hold
  simpa using Spec.bind (f := fun _ => w) (Spec.ensure hp) (h old hold)

lemma Writes.within {w : Mem Unit} {size : ℕ} {b : List UInt8} (h : Writes w b) (hs : size = b.length) :
    Writes (within w fun _ => size) b := fun old hold => (h old hold).within hs

lemma Writes.sized {w : Mem Unit} {size : ℕ} {b : List UInt8} (h : Writes w b) (hs : size = b.length) :
    Writes (sized w fun _ => size) b := fun old hold => (h old hold).sized hs

lemma Writes.copyBuf (bs : List UInt8) : Writes (copyBuf bs) bs := by
  intro old hold pre post
  have hle : pre.length + bs.length ≤ (pre ++ old ++ post).length := by
    simp only [List.length_append, hold]
    omega
  have hdrop : (pre ++ old ++ post).drop (pre.length + bs.length) = post := by
    rw [← hold, ← List.length_append, List.drop_left]
  have htake : (pre ++ old ++ post).take pre.length = pre := by
    rw [List.append_assoc, List.take_left]
  simp only [Lib.copyBuf, overwrite, if_pos hle, hdrop, htake]

lemma readEach_snoc (r : Mem α) (k : ℕ) : readEach r (k + 1) = (do
    let xs ← readEach r k
    let x ← r
    Pure.pure (xs ++ [x])) := by
  induction k with
  | zero => simp [readEach]
  | succ k ih =>
    conv_lhs => rw [readEach, ih]
    simp [readEach]

lemma Reads.snoc {r : Mem α} {xs : List β} {f : β → α} {x : β} {b c : List UInt8}
    (h : Reads (readEach r xs.length) b (xs.map f)) (hx : Reads r c (f x)) :
    Reads (readEach r (xs ++ [x]).length) (b ++ c) ((xs ++ [x]).map f) := by
  rw [List.length_append, List.length_singleton, readEach_snoc, List.map_append, List.map_singleton]
  exact h.bind (hx.map fun y => xs.map f ++ [y])

lemma Writes.run {w : Mem Unit} {bs buf : List UInt8} {ptr : ℕ} (h : Writes w bs)
    (hroom : ptr + bs.length ≤ buf.length) :
    w ⟨buf, ptr⟩ = some ((), ⟨buf.take ptr ++ bs ++ buf.drop (ptr + bs.length), ptr + bs.length⟩) := by
  have hlen : (buf.take ptr).length = ptr := List.length_take_of_le (by omega)
  have hold : ((buf.drop ptr).take bs.length).length = bs.length := by
    rw [List.length_take, List.length_drop]
    omega
  have hsplit : buf.take ptr ++ (buf.drop ptr).take bs.length ++ buf.drop (ptr + bs.length) = buf := by
    rw [← List.drop_drop, List.append_assoc, List.take_append_drop, List.take_append_drop]
  have hrun := h _ hold (buf.take ptr) (buf.drop (ptr + bs.length))
  rwa [hsplit, hlen] at hrun

lemma Writes.extends {w : Mem Unit} {bs buf : List UInt8} {ptr : ℕ} {r : Unit × Cursor} (h : Writes w bs)
    (hroom : ptr + bs.length ≤ buf.length) (hr : w ⟨buf, ptr⟩ = some r) :
    r.2.buf.take (ptr + bs.length) = buf.take ptr ++ bs := by
  rw [h.run hroom] at hr
  rw [← Option.some.inj hr]
  exact List.take_left' (by rw [List.length_append, List.length_take_of_le (by omega)])

end Spec

section Keeps

variable {α β : Type}

def Keeps (m : Mem α) : Prop := ∀ c r, m c = some r → r.2.buf.length = c.buf.length

lemma Keeps.copyBuf (bs : List UInt8) : Keeps (copyBuf bs) := by
  intro c r h
  rw [Lib.copyBuf] at h
  split_ifs at h with hle
  rw [← Option.some.inj h]
  exact overwrite_length hle

lemma Keeps.pure (x : α) : Keeps (pure x : Mem α) := by
  intro c r h
  rw [← Option.some.inj h]

lemma Keeps.ensure (p : Prop) [Decidable p] : Keeps (ensure p) := by
  rw [Lib.ensure]
  split_ifs
  · exact .pure ()
  · exact fun c r h => nomatch h

lemma Keeps.bind {m : Mem α} {f : α → Mem β} (h : Keeps m) (h' : ∀ x, Keeps (f x)) : Keeps (m >>= f) := by
  intro c r hr
  obtain ⟨⟨x, c'⟩, hm, hf⟩ := Option.bind_eq_some_iff.mp hr
  exact (h' x c' r hf).trans (h c (x, c') hm)

lemma Keeps.within {m : Mem α} (size : α → ℕ) (h : Keeps m) : Keeps (within m size) := by
  intro c r hr
  obtain ⟨u, hu, rfl⟩ := Option.map_eq_some_iff.mp hr
  exact h c u hu

lemma Keeps.sized {m : Mem α} (size : α → ℕ) (h : Keeps m) : Keeps (sized m size) := by
  intro c r hr
  obtain ⟨u, hu, hite⟩ := Option.bind_eq_some_iff.mp hr
  split_ifs at hite
  rw [← Option.some.inj hite]
  exact h c u hu

lemma Keeps.putUnless (c : Prop) [Decidable c] {w : Mem Unit} (h : Keeps w) : Keeps (putUnless c w) := by
  rw [Lib.putUnless]
  split_ifs
  · exact .pure ()
  · exact h

lemma Keeps.copyEach {f : α → Mem Unit} (h : ∀ x, Keeps (f x)) (xs : List α) : Keeps (copyEach f xs) := by
  induction xs with
  | nil => exact .pure ()
  | cons x xs ih => exact (h x).bind fun _ => ih

end Keeps

section RoundTrip

variable {α β : Type}

-- `w` writes `size` bytes, from which `r` reads `x`.
def RoundTrip (w : Mem Unit) (r : Mem α) (x : α) (size : ℕ) : Prop :=
  ∃ bs : List UInt8, Writes w bs ∧ Reads r bs x ∧ bs.length = size

namespace RoundTrip

lemma bind {w w' : Mem Unit} {r : Mem α} {f : α → Mem β} {x : α} {y : β} {k k' : ℕ}
    (h : RoundTrip w r x k) (h' : RoundTrip w' (f x) y k') :
    RoundTrip (w >>= fun _ => w') (r >>= f) y (k + k') := by
  obtain ⟨bs, hw, hr, rfl⟩ := h
  obtain ⟨bs', hw', hr', rfl⟩ := h'
  exact ⟨bs ++ bs', hw.bind hw', hr.bind hr', List.length_append⟩

lemma congr {w : Mem Unit} {r : Mem α} {x y : α} {k k' : ℕ} (h : RoundTrip w r x k) (hx : x = y)
    (hk : k = k') : RoundTrip w r y k' := hx ▸ hk ▸ h

lemma last {w : Mem Unit} {r : Mem α} {x : α} {k : ℕ} (f : α → β) (h : RoundTrip w r x k) :
    RoundTrip w (r >>= fun y => pure (f y)) (f x) k := by
  obtain ⟨bs, hw, hr, hk⟩ := h
  exact ⟨bs, hw, hr.map f, hk⟩

lemma pure (x : α) : RoundTrip (pure ()) (pure x : Mem α) x 0 := ⟨[], .pure, .pure x, rfl⟩

lemma ensure_left {p : Prop} [Decidable p] {w : Mem Unit} {r : Mem α} {x : α} {k : ℕ} (hp : p)
    (h : RoundTrip w r x k) : RoundTrip (ensure p >>= fun _ => w) r x k := by
  obtain ⟨bs, hw, hr, hk⟩ := h
  exact ⟨bs, .ensure hp hw, hr, hk⟩

lemma ensure_right {p : Prop} [Decidable p] {w : Mem Unit} {r : Mem α} {x : α} {k : ℕ} (hp : p)
    (h : RoundTrip w r x k) : RoundTrip w (ensure p >>= fun _ => r) x k := by
  obtain ⟨bs, hw, hr, hk⟩ := h
  exact ⟨bs, hw, .ensure hp hr, hk⟩

lemma within {w : Mem Unit} {r : Mem α} {x : α} {k size : ℕ} {sizeOf : α → ℕ} (h : RoundTrip w r x k)
    (hw : size = k) (hr : sizeOf x = k) : RoundTrip (within w fun _ => size) (within r sizeOf) x k := by
  obtain ⟨bs, hws, hrs, rfl⟩ := h
  exact ⟨bs, hws.within hw, Spec.within hrs hr, rfl⟩

lemma sized {w : Mem Unit} {r : Mem α} {x : α} {k size : ℕ} {sizeOf : α → ℕ} (h : RoundTrip w r x k)
    (hw : size = k) (hr : sizeOf x = k) : RoundTrip (sized w fun _ => size) (sized r sizeOf) x k := by
  obtain ⟨bs, hws, hrs, rfl⟩ := h
  exact ⟨bs, hws.sized hw, Spec.sized hrs hr, rfl⟩

lemma optional {c : Prop} [Decidable c] {w : Mem Unit} {r : Mem α} {x d : α} {k : ℕ}
    (h : ¬ c → RoundTrip w r x k) :
    RoundTrip (putUnless c w) (getUnless c d r) (if c then d else x) (if c then 0 else k) := by
  by_cases hc : c
  · simpa only [putUnless, getUnless, if_pos hc] using pure d
  · simpa only [putUnless, getUnless, if_neg hc] using h hc

lemma each {ι : Type} {f : ι → Mem Unit} {r : Mem α} {value : ι → α} {size : ι → ℕ} {xs : List ι}
    (h : ∀ x ∈ xs, RoundTrip (f x) r (value x) (size x)) :
    RoundTrip (copyEach f xs) (readEach r xs.length) (xs.map value) (xs.map size).sum := by
  induction xs with
  | nil => exact pure []
  | cons x xs ih =>
    have hx := h x List.mem_cons_self
    have hxs := ih fun y hy => h y (List.mem_cons_of_mem x hy)
    exact hx.bind (hxs.last fun ys => value x :: ys)

lemma copy {bs : List UInt8} {k : ℕ} (h : bs.length = k) : RoundTrip (copyBuf bs) (copyVal k) bs k :=
  ⟨bs, .copyBuf bs, .copyVal h, h⟩

lemma run {w : Mem Unit} {r : Mem α} {x : α} {k : ℕ} (h : RoundTrip w r x k) (c : Cursor)
    (hroom : c.ptr + k ≤ c.buf.length) :
    ∃ buf, w c = some ((), ⟨buf, c.ptr + k⟩) ∧ buf.length = c.buf.length ∧
      buf.take c.ptr = c.buf.take c.ptr ∧ r ⟨buf, c.ptr⟩ = some (x, ⟨buf, c.ptr + k⟩) := by
  obtain ⟨bs, hw, hr, rfl⟩ := h
  have hlen : (c.buf.take c.ptr).length = c.ptr := by
    rw [List.length_take]
    omega
  have hold : ((c.buf.drop c.ptr).take bs.length).length = bs.length := by
    rw [List.length_take, List.length_drop]
    omega
  have hsplit : c.buf.take c.ptr ++ (c.buf.drop c.ptr).take bs.length ++ c.buf.drop (c.ptr + bs.length) =
      c.buf := by
    rw [← List.drop_drop, List.append_assoc, List.take_append_drop, List.take_append_drop]
  have hrun := hw _ hold (c.buf.take c.ptr) (c.buf.drop (c.ptr + bs.length))
  have hread := hr (c.buf.take c.ptr) (c.buf.drop (c.ptr + bs.length))
  rw [hsplit] at hrun
  rw [hlen] at hrun hread
  refine ⟨_, hrun, ?_, ?_, hread⟩
  · conv_rhs => rw [← hsplit]
    simp only [List.length_append, hold]
  · rw [List.append_assoc, List.take_left' hlen]

end RoundTrip

end RoundTrip

section Words

def leBytes : ℕ → ℕ → List UInt8
  | 0, _ => []
  | k + 1, v => UInt8.ofNat v :: leBytes k (v / 256)

def ofLE : List UInt8 → ℕ
  | [] => 0
  | b :: bs => b.toNat + 256 * ofLE bs

@[simp] lemma leBytes_length (k v : ℕ) : (leBytes k v).length = k := by
  induction k generalizing v with
  | zero => rfl
  | succ k ih => simp [leBytes, ih]

lemma ofLE_leBytes (k v : ℕ) (h : v < 256 ^ k) : ofLE (leBytes k v) = v := by
  induction k generalizing v with
  | zero =>
    rw [pow_zero, Nat.lt_one_iff] at h
    simp [leBytes, ofLE, h]
  | succ k ih =>
    have hdiv : v / 256 < 256 ^ k := by
      rw [Nat.div_lt_iff_lt_mul (by decide)]
      simpa [pow_succ] using h
    rw [leBytes, ofLE, ih _ hdiv, UInt8.toNat_ofNat']
    omega

lemma ofLE_lt (bs : List UInt8) : ofLE bs < 256 ^ bs.length := by
  induction bs with
  | nil => simp [ofLE]
  | cons b bs ih =>
    have hb := b.toNat_lt
    rw [ofLE, List.length_cons, pow_succ]
    omega

def put32 (v : UInt32) : Mem Unit := copyBuf (leBytes 4 v.toNat)

def get32 : Mem UInt32 := do
  let bs ← copyVal 4
  pure (UInt32.ofNat (ofLE bs))

def put64 (v : UInt64) : Mem Unit := copyBuf (leBytes 8 v.toNat)

def get64 : Mem UInt64 := do
  let bs ← copyVal 8
  pure (UInt64.ofNat (ofLE bs))

def putBool (b : Bool) : Mem Unit := copyBuf [if b then 1 else 0]

-- A `bool` read from a byte other than 0 and 1 is undefined.
def getBool : Mem Bool := do
  let bs ← copyVal 1
  if bs = [0] then pure false else if bs = [1] then pure true else failure

lemma Writes.put32 (v : UInt32) : Writes (put32 v) (leBytes 4 v.toNat) := .copyBuf _

lemma Writes.put64 (v : UInt64) : Writes (put64 v) (leBytes 8 v.toNat) := .copyBuf _

lemma Writes.putBool (b : Bool) : Writes (putBool b) [if b then 1 else 0] := .copyBuf _

lemma Reads.get32 (v : UInt32) : Reads get32 (leBytes 4 v.toNat) v := by
  have h := (Reads.copyVal (leBytes_length 4 v.toNat)).map fun bs => UInt32.ofNat (ofLE bs)
  rwa [ofLE_leBytes 4 _ (by simpa using v.toNat_lt), UInt32.ofNat_toNat] at h

lemma Reads.word {bs : List UInt8} (h : bs.length = 4) : Reads Lib.get32 bs (UInt32.ofNat (ofLE bs)) :=
  (Reads.copyVal h).map fun bs => UInt32.ofNat (ofLE bs)

lemma Reads.get64 (v : UInt64) : Reads get64 (leBytes 8 v.toNat) v := by
  have h := (Reads.copyVal (leBytes_length 8 v.toNat)).map fun bs => UInt64.ofNat (ofLE bs)
  rwa [ofLE_leBytes 8 _ (by simpa using v.toNat_lt), UInt64.ofNat_toNat] at h

lemma Reads.getBool (b : Bool) : Reads getBool [if b then 1 else 0] b := by
  have h : Reads (Lib.copyVal 1) [if b then (1 : UInt8) else 0] _ := Reads.copyVal rfl
  have hbind := h.bind (f := fun bs => if bs = [0] then (Pure.pure false : Mem Bool) else
    if bs = [1] then Pure.pure true else failure) (c := []) (y := b) (by cases b <;> exact .pure _)
  rwa [List.append_nil] at hbind

lemma RoundTrip.word32 (v : UInt32) : RoundTrip (put32 v) get32 v 4 :=
  ⟨_, .put32 v, .get32 v, leBytes_length 4 _⟩

lemma RoundTrip.word64 (v : UInt64) : RoundTrip (put64 v) get64 v 8 :=
  ⟨_, .put64 v, .get64 v, leBytes_length 8 _⟩

lemma RoundTrip.flag (b : Bool) : RoundTrip (putBool b) getBool b 1 :=
  ⟨_, .putBool b, .getBool b, rfl⟩

end Words

end SpotLess.Lib
