import Mathlib.Data.List.AList

/-! Finite maps with the conventions of `std::unordered_map`: `operator[]` reads `get` and leaves the map
`touch`ed, inserting a default value at a missing key; `insertNew` leaves an existing entry alone. -/

namespace SpotLess.Lib

abbrev UMap (κ ν : Type) := AList (fun _ : κ => ν)

namespace UMap

variable {κ ν : Type} [DecidableEq κ]

def count (m : UMap κ ν) (k : κ) : Bool := (m.lookup k).isSome

def get [Inhabited ν] (m : UMap κ ν) (k : κ) : ν := (m.lookup k).getD default

def touch [Inhabited ν] (m : UMap κ ν) (k : κ) : UMap κ ν :=
  if k ∈ m then m else m.insert k default

def insertNew (m : UMap κ ν) (k : κ) (v : ν) : UMap κ ν :=
  if k ∈ m then m else m.insert k v

def eraseAll (m : UMap κ ν) (ks : List κ) : UMap κ ν := ks.foldl (fun m k => m.erase k) m

section Get

variable [Inhabited ν]

@[simp] lemma get_insert_self (m : UMap κ ν) (k : κ) (v : ν) : get (m.insert k v) k = v := by
  simp [get]

lemma get_insert_of_ne (m : UMap κ ν) {k l : κ} (v : ν) (h : l ≠ k) :
    get (m.insert k v) l = get m l := by
  simp [get, AList.lookup_insert_ne h]

lemma get_insert (m : UMap κ ν) (k l : κ) (v : ν) :
    get (m.insert k v) l = if l = k then v else get m l := by
  split_ifs with h
  · subst h
    exact get_insert_self m l v
  · exact get_insert_of_ne m v h

lemma get_of_notMem {m : UMap κ ν} {k : κ} (h : k ∉ m) : get m k = default := by
  rw [get, AList.lookup_eq_none.mpr h, Option.getD_none]

lemma get_eq_of_lookup {m : UMap κ ν} {k : κ} {v : ν} (h : m.lookup k = some v) : get m k = v := by
  rw [get, h, Option.getD_some]

lemma lookup_eq_get {m : UMap κ ν} {k : κ} (h : k ∈ m) : m.lookup k = some (get m k) := by
  obtain ⟨v, hv⟩ := Option.isSome_iff_exists.mp (AList.lookup_isSome.mpr h)
  rw [hv, get_eq_of_lookup hv]

lemma get_erase_of_ne (m : UMap κ ν) {k l : κ} (h : l ≠ k) : get (m.erase k) l = get m l := by
  rw [get, AList.lookup_erase_ne h, get]

@[simp] lemma get_empty (k : κ) : get (∅ : UMap κ ν) k = default := by
  simp [get]

@[simp] lemma get_touch (m : UMap κ ν) (k l : κ) : get (touch m k) l = get m l := by
  rw [touch]
  split_ifs with h
  · rfl
  · by_cases hl : l = k
    · subst hl
      rw [get_insert_self, get_of_notMem h]
    · exact get_insert_of_ne m default hl

lemma mem_touch (m : UMap κ ν) (k l : κ) : l ∈ touch m k ↔ l = k ∨ l ∈ m := by
  rw [touch]
  split_ifs with h
  · constructor
    · exact Or.inr
    · rintro (rfl | hl)
      · exact h
      · exact hl
  · exact AList.mem_insert m

lemma touch_of_mem {m : UMap κ ν} {k : κ} (h : k ∈ m) : touch m k = m := if_pos h

end Get

@[simp] lemma count_eq_true (m : UMap κ ν) (k : κ) : count m k = true ↔ k ∈ m := by
  rw [count, AList.lookup_isSome]

lemma mem_insertNew (m : UMap κ ν) (k l : κ) (v : ν) : l ∈ insertNew m k v ↔ l = k ∨ l ∈ m := by
  rw [insertNew]
  split_ifs with h
  · constructor
    · exact Or.inr
    · rintro (rfl | hl)
      · exact h
      · exact hl
  · exact AList.mem_insert m

lemma mem_eraseAll (m : UMap κ ν) (ks : List κ) (l : κ) : l ∈ eraseAll m ks ↔ l ∉ ks ∧ l ∈ m := by
  induction ks generalizing m with
  | nil => simp [eraseAll]
  | cons k ks ih =>
    change l ∈ eraseAll (m.erase k) ks ↔ _
    rw [ih, AList.mem_erase, List.mem_cons, not_or]
    tauto

lemma lookup_eraseAll_of_notMem (m : UMap κ ν) (ks : List κ) {l : κ} (h : l ∉ ks) :
    (eraseAll m ks).lookup l = m.lookup l := by
  induction ks generalizing m with
  | nil => rfl
  | cons k ks ih =>
    rw [List.mem_cons, not_or] at h
    change (eraseAll (m.erase k) ks).lookup l = _
    rw [ih _ h.2, AList.lookup_erase_ne h.1]

lemma lookup_of_lookup_erase {m : UMap κ ν} {k l : κ} {v : ν} (h : (m.erase k).lookup l = some v) :
    l ≠ k ∧ m.lookup l = some v := by
  by_cases hlk : l = k
  · subst hlk
    rw [AList.lookup_erase] at h
    cases h
  · exact ⟨hlk, by rwa [AList.lookup_erase_ne hlk] at h⟩

lemma length_erase_of_mem {m : UMap κ ν} {k : κ} (h : k ∈ m) : (m.erase k).entries.length + 1 = m.entries.length := by
  obtain ⟨b, l₁, l₂, -, hl, hk⟩ := List.exists_of_kerase (AList.mem_keys.mp h)
  change (m.entries.kerase k).length + 1 = _
  rw [hk, hl]
  simp only [List.length_append, List.length_cons]
  omega

section All

def All (p : ν → Prop) (m : UMap κ ν) : Prop := ∀ k v, m.lookup k = some v → p v

variable {p : ν → Prop} {m : UMap κ ν}

lemma All.insert (h : All p m) (k : κ) {v : ν} (hv : p v) : All p (m.insert k v) := by
  intro l w hl
  by_cases hlk : l = k
  · subst hlk
    rw [AList.lookup_insert] at hl
    exact Option.some.inj hl ▸ hv
  · rw [AList.lookup_insert_ne hlk] at hl
    exact h l w hl

lemma All.erase (h : All p m) (k : κ) : All p (m.erase k) := by
  intro l w hl
  by_cases hlk : l = k
  · subst hlk
    rw [AList.lookup_erase] at hl
    cases hl
  · rw [AList.lookup_erase_ne hlk] at hl
    exact h l w hl

lemma All.get [Inhabited ν] (h : All p m) (hd : p default) (k : κ) : p (get m k) := by
  by_cases hk : k ∈ m
  · exact h k _ (lookup_eq_get hk)
  · rwa [get_of_notMem hk]

lemma All.touch [Inhabited ν] (h : All p m) (hd : p default) (k : κ) : All p (touch m k) := by
  rw [UMap.touch]
  split_ifs
  · exact h
  · exact h.insert k hd

lemma All.insertNew (h : All p m) (k : κ) {v : ν} (hv : p v) : All p (insertNew m k v) := by
  rw [UMap.insertNew]
  split_ifs
  · exact h
  · exact h.insert k hv

lemma All.eraseAll (h : All p m) (ks : List κ) : All p (eraseAll m ks) := by
  induction ks generalizing m with
  | nil => exact h
  | cons k ks ih => exact ih (h.erase k)

lemma All.imp {q : ν → Prop} (h : All p m) (hpq : ∀ v, p v → q v) : All q m := fun k v hv => hpq v (h k v hv)

end All

end UMap

end SpotLess.Lib
