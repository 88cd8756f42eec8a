import SpotLess.Message

/-! What the string under the digest of a batch says about the batch: its values modulo 256, and its numbers up
to where the digits of a timestamp end and those of the next key begin. -/

namespace SpotLess

section Decimal

lemma toNat_of_isDigit {c : Char} (h : c.isDigit = true) : 48 ≤ c.toNat ∧ c.toNat ≤ 57 := by
  simp only [Char.isDigit, Bool.and_eq_true, decide_eq_true_eq, UInt32.le_iff_toNat_le] at h
  exact h

lemma toNat_toUInt8_of_isDigit {c : Char} (h : c.isDigit = true) : c.toNat.toUInt8.toNat = c.toNat := by
  have := toNat_of_isDigit h
  simp only [Nat.toUInt8, UInt8.toNat_ofNat']
  omega

lemma isDigit_of_mem {k : ℕ} {c : Char} (h : c ∈ Nat.toDigits 10 k) : c.isDigit = true :=
  Nat.isDigit_of_mem_toDigits (by decide) (by decide) h

lemma space_notMem_toStringDec (k : ℕ) : (32 : UInt8) ∉ toStringDec k := by
  intro h
  obtain ⟨c, hc, heq⟩ := List.mem_map.mp h
  have hdigit := isDigit_of_mem hc
  have hval := congrArg UInt8.toNat heq
  rw [toNat_toUInt8_of_isDigit hdigit] at hval
  have hrange := toNat_of_isDigit hdigit
  have : (32 : UInt8).toNat = 32 := rfl
  omega

lemma toStringDec_ne_nil (k : ℕ) : toStringDec k ≠ [] := by
  rw [toStringDec, ne_eq, List.map_eq_nil_iff]
  exact Nat.toDigits_ne_nil

lemma toStringDec_injective : Function.Injective toStringDec := by
  have hback : ∀ k, (toStringDec k).map (fun b => Char.ofNat b.toNat) = Nat.toDigits 10 k := by
    intro k
    rw [toStringDec, List.map_map]
    conv_rhs => rw [← List.map_id (Nat.toDigits 10 k)]
    refine List.map_congr_left fun c hc => ?_
    rw [Function.comp_apply, toNat_toUInt8_of_isDigit (isDigit_of_mem hc), Char.ofNat_toNat, id]
  intro a b h
  have hdigits : Nat.toDigits 10 a = Nat.toDigits 10 b := by rw [← hback, h, hback]
  rw [← Nat.ofDigitChars_ten_toDigits (n := a), hdigits, Nat.ofDigitChars_ten_toDigits]

lemma run_ends {D D' R R' : Bytes} (hD : 32 ∉ D) (hD' : 32 ∉ D') (h : D ++ 32 :: R = D' ++ 32 :: R') :
    D = D' ∧ R = R' := by
  induction D generalizing D' with
  | nil =>
    cases D' with
    | nil => exact ⟨rfl, List.cons.inj h |>.2⟩
    | cons d D' => exact absurd (List.cons.inj h).1.symm fun hd => hD' (hd ▸ List.mem_cons_self)
  | cons d D ih =>
    cases D' with
    | nil => exact absurd (List.cons.inj h).1 fun hd => hD (hd ▸ List.mem_cons_self)
    | cons d' D' =>
      obtain ⟨hd, hrest⟩ := List.cons.inj h
      obtain ⟨hDD, hRR⟩ := ih (fun hm => hD (List.mem_cons_of_mem d hm))
        (fun hm => hD' (List.mem_cons_of_mem d' hm)) hrest
      exact ⟨by rw [hd, hDD], hRR⟩

end Decimal

section Content

def batchContent (qrys : List ClientQuery) : List (ℕ × ℕ × ℕ) :=
  (qrys.map fun q => q.requests.map fun r => (r.key, r.value, q.clientStartts)).flatten

def headKey : List ClientQuery → Bytes
  | [] => []
  | q :: _ => (q.requests.head?.map fun r => toStringDec r.key).getD []

def lowByte (r : Request) : UInt8 := r.value.toUInt8

-- Two batches the string cannot tell apart, query by query. Digits of a timestamp and of the key behind it
-- form one run.
def Alike : List ClientQuery → List ClientQuery → Prop
  | [], [] => True
  | q :: qs, q' :: qs' =>
    q.requests.map lowByte = q'.requests.map lowByte ∧
    q.requests.tail.map Request.key = q'.requests.tail.map Request.key ∧
    toStringDec q.clientStartts ++ headKey qs = toStringDec q'.clientStartts ++ headKey qs' ∧
    Alike qs qs'
  | _, _ => False

structure SameSplit (b b' : List ClientQuery) : Prop where
  values : (b.map fun q => q.requests.map Request.value) = b'.map fun q => q.requests.map Request.value
  digits : (b.map fun q => (toStringDec q.clientStartts).length) =
    b'.map fun q => (toStringDec q.clientStartts).length

def AllRequested (b : List ClientQuery) : Prop := ∀ q ∈ b, q.requests ≠ []

lemma batchString_cons (q : ClientQuery) (qs : List ClientQuery) :
    batchString (q :: qs) = q.getRequestString ++ 32 :: (toStringDec q.clientStartts ++ batchString qs) := by
  simp [batchString, ClientQuery.getString, space]

lemma requestString_cons (r : Request) (rs : List Request) :
    ((r :: rs).map Request.toBytes).flatten =
      toStringDec r.key ++ 32 :: lowByte r :: 32 :: (rs.map Request.toBytes).flatten := by
  simp [Request.toBytes, space, lowByte]

lemma requests_split {rs rs' : List Request} {X X' : Bytes}
    (h : (rs.map Request.toBytes).flatten ++ 32 :: X = (rs'.map Request.toBytes).flatten ++ 32 :: X') :
    rs.map Request.key = rs'.map Request.key ∧ rs.map lowByte = rs'.map lowByte ∧ X = X' := by
  have hstart : ∀ (r : Request) (rs : List Request) (Y Z : Bytes),
      ((r :: rs).map Request.toBytes).flatten ++ Y ≠ 32 :: Z := by
    intro r rs Y Z heq
    rw [requestString_cons, List.append_assoc] at heq
    cases hk : toStringDec r.key with
    | nil => exact toStringDec_ne_nil _ hk
    | cons d ds =>
      rw [hk, List.cons_append] at heq
      exact space_notMem_toStringDec r.key (hk ▸ (List.cons.inj heq).1 ▸ List.mem_cons_self)
  induction rs generalizing rs' with
  | nil =>
    cases rs' with
    | nil => exact ⟨rfl, rfl, (List.cons.inj h).2⟩
    | cons r' rs' => exact absurd h.symm (hstart r' rs' _ _)
  | cons r rs ih =>
    cases rs' with
    | nil => exact absurd h (hstart r rs _ _)
    | cons r' rs' =>
      simp only [requestString_cons, List.append_assoc, List.cons_append] at h
      obtain ⟨hkey, hrest⟩ := run_ends (space_notMem_toStringDec _) (space_notMem_toStringDec _) h
      simp only [List.cons.injEq, true_and] at hrest
      obtain ⟨hkeys, hlows, hX⟩ := ih hrest.2
      refine ⟨?_, ?_, hX⟩
      · rw [List.map_cons, List.map_cons, toStringDec_injective hkey, hkeys]
      · rw [List.map_cons, List.map_cons, hrest.1, hlows]

lemma AllRequested.cons {q : ClientQuery} {qs : List ClientQuery} (h : AllRequested (q :: qs)) :
    (∃ r rs, q.requests = r :: rs) ∧ AllRequested qs :=
  ⟨List.exists_cons_of_ne_nil (h q List.mem_cons_self), fun q' hq' => h q' (List.mem_cons_of_mem q hq')⟩

lemma headKey_cons {q : ClientQuery} {r : Request} {rs : List Request} (h : q.requests = r :: rs)
    (qs : List ClientQuery) : headKey (q :: qs) = toStringDec r.key := by
  simp [headKey, h]

-- The string of a batch behind a run of digits `D` that belongs to the query before it.
lemma batchString_run {q : ClientQuery} {r : Request} {rs : List Request} (h : q.requests = r :: rs) (D : Bytes)
    (qs : List ClientQuery) : D ++ batchString (q :: qs) = (D ++ headKey (q :: qs)) ++
      32 :: lowByte r :: 32 :: ((rs.map Request.toBytes).flatten ++
        32 :: (toStringDec q.clientStartts ++ batchString qs)) := by
  rw [batchString_cons, ClientQuery.getRequestString, h, requestString_cons, headKey_cons h]
  simp

lemma notMem_append {D E : Bytes} (hD : 32 ∉ D) (hE : 32 ∉ E) : 32 ∉ D ++ E := by
  rw [List.mem_append]
  rintro (h | h)
  · exact hD h
  · exact hE h

lemma space_notMem_headKey (b : List ClientQuery) : (32 : UInt8) ∉ headKey b := by
  cases b with
  | nil => exact List.not_mem_nil
  | cons q qs =>
    cases h : q.requests with
    | nil => simp [headKey, h]
    | cons r rs =>
      rw [headKey_cons h]
      exact space_notMem_toStringDec _

lemma alike_of_batchString {b b' : List ClientQuery} (hb : AllRequested b) (hb' : AllRequested b')
    {D D' : Bytes} (hD : 32 ∉ D) (hD' : 32 ∉ D') (h : D ++ batchString b = D' ++ batchString b') :
    D ++ headKey b = D' ++ headKey b' ∧ Alike b b' := by
  induction b generalizing b' D D' with
  | nil =>
    cases b' with
    | nil => exact ⟨h, trivial⟩
    | cons q' qs' =>
      obtain ⟨⟨r', rs', hr'⟩, -⟩ := hb'.cons
      rw [batchString_run hr'] at h
      have hmem : (32 : UInt8) ∈ D ++ batchString [] := h ▸ by simp
      rw [show batchString [] = [] from rfl, List.append_nil] at hmem
      exact absurd hmem hD
  | cons q qs ih =>
    obtain ⟨⟨r, rs, hr⟩, hqs⟩ := hb.cons
    cases b' with
    | nil =>
      rw [batchString_run hr] at h
      have hmem : (32 : UInt8) ∈ D' ++ batchString [] := h ▸ by simp
      rw [show batchString [] = [] from rfl, List.append_nil] at hmem
      exact absurd hmem hD'
    | cons q' qs' =>
      obtain ⟨⟨r', rs', hr'⟩, hqs'⟩ := hb'.cons
      rw [batchString_run hr, batchString_run hr'] at h
      obtain ⟨hrun, hrest⟩ := run_ends (notMem_append hD (space_notMem_headKey _))
        (notMem_append hD' (space_notMem_headKey _)) h
      simp only [List.cons.injEq, true_and] at hrest
      obtain ⟨hkeys, hlows, htail⟩ := requests_split hrest.2
      obtain ⟨hts, halike⟩ := ih hqs hqs' (space_notMem_toStringDec _) (space_notMem_toStringDec _) htail
      refine ⟨hrun, ?_, ?_, hts, halike⟩
      · rw [hr, hr', List.map_cons, List.map_cons, hrest.1, hlows]
      · rw [hr, hr']
        exact hkeys

lemma requestString_congr {rs rs' : List Request} (hkeys : rs.map Request.key = rs'.map Request.key)
    (hlows : rs.map lowByte = rs'.map lowByte) :
    (rs.map Request.toBytes).flatten = (rs'.map Request.toBytes).flatten := by
  induction rs generalizing rs' with
  | nil =>
    obtain rfl : rs' = [] := by simpa using hkeys.symm
    rfl
  | cons r rs ih =>
    cases rs' with
    | nil => simp at hkeys
    | cons r' rs' =>
      simp only [List.map_cons, List.cons.injEq] at hkeys hlows
      rw [requestString_cons, requestString_cons, hkeys.1, hlows.1, ih hkeys.2 hlows.2]

lemma batchString_of_alike {b b' : List ClientQuery} (hb : AllRequested b) (hb' : AllRequested b')
    {D D' : Bytes} (hrun : D ++ headKey b = D' ++ headKey b') (h : Alike b b') :
    D ++ batchString b = D' ++ batchString b' := by
  induction b generalizing b' D D' with
  | nil =>
    cases b' with
    | nil => exact hrun
    | cons q' qs' => exact h.elim
  | cons q qs ih =>
    cases b' with
    | nil => exact h.elim
    | cons q' qs' =>
      obtain ⟨⟨r, rs, hr⟩, hqs⟩ := hb.cons
      obtain ⟨⟨r', rs', hr'⟩, hqs'⟩ := hb'.cons
      obtain ⟨hlows, hkeys, hts, halike⟩ := h
      rw [hr, hr', List.map_cons, List.map_cons, List.cons.injEq] at hlows
      rw [hr, hr', List.tail_cons, List.tail_cons] at hkeys
      rw [batchString_run hr, batchString_run hr', hrun, hlows.1, requestString_congr hkeys hlows.2,
        ih hqs hqs' hts halike]

lemma batchContent_cons (q : ClientQuery) (qs : List ClientQuery) : batchContent (q :: qs) =
    (q.requests.map fun r => (r.key, r.value, q.clientStartts)) ++ batchContent qs := rfl

lemma Alike.length_requests {q q' : ClientQuery} {qs qs' : List ClientQuery} (h : Alike (q :: qs) (q' :: qs')) :
    q.requests.length = q'.requests.length := by
  have := congrArg List.length h.1
  simpa using this

lemma sameSplit_of_content {b b' : List ClientQuery} (hb : AllRequested b) (h : Alike b b')
    (hcontent : batchContent b = batchContent b') : SameSplit b b' := by
  induction b generalizing b' with
  | nil =>
    cases b' with
    | nil => exact ⟨rfl, rfl⟩
    | cons q' qs' => exact h.elim
  | cons q qs ih =>
    cases b' with
    | nil => exact h.elim
    | cons q' qs' =>
      obtain ⟨⟨r, rs, hr⟩, hqs⟩ := hb.cons
      have hlen := h.length_requests
      rw [batchContent_cons, batchContent_cons] at hcontent
      obtain ⟨hreqs, hrest⟩ := List.append_inj hcontent (by simpa using hlen)
      obtain ⟨hvalues, hdigits⟩ := ih hqs h.2.2.2 hrest
      have hvals : q.requests.map Request.value = q'.requests.map Request.value := by
        have hmap := congrArg (List.map fun t : ℕ × ℕ × ℕ => t.2.1) hreqs
        rw [List.map_map, List.map_map] at hmap
        exact hmap
      have hts : q.clientStartts = q'.clientStartts := by
        rw [hr] at hreqs hlen
        cases hr' : q'.requests with
        | nil => simp [hr'] at hlen
        | cons r' rs' =>
          rw [hr'] at hreqs
          simp only [List.map_cons, List.cons.injEq, Prod.mk.injEq] at hreqs
          exact hreqs.1.2.2
      exact ⟨by rw [List.map_cons, List.map_cons, hvals, hvalues],
        by rw [List.map_cons, List.map_cons, hts, hdigits]⟩

lemma requests_ext {rs rs' : List Request} (hkeys : rs.map Request.key = rs'.map Request.key)
    (hvalues : rs.map Request.value = rs'.map Request.value) : rs = rs' := by
  have hpair : Function.Injective fun r : Request => (r.key, r.value) := by
    rintro ⟨k, v⟩ ⟨k', v'⟩ h
    simpa using h
  refine List.map_injective_iff.mpr hpair ?_
  have hzip : ∀ l : List Request, (l.map fun r => (r.key, r.value)) =
      (l.map Request.key).zip (l.map Request.value) := by
    intro l
    rw [List.zip_map']
  change (rs.map fun r => (r.key, r.value)) = rs'.map fun r => (r.key, r.value)
  rw [hzip, hzip, hkeys, hvalues]

lemma content_of_sameSplit {b b' : List ClientQuery} (hb : AllRequested b) (hb' : AllRequested b')
    (hhead : headKey b = headKey b') (h : Alike b b') (hsplit : SameSplit b b') :
    batchContent b = batchContent b' := by
  induction b generalizing b' with
  | nil =>
    cases b' with
    | nil => rfl
    | cons q' qs' => exact h.elim
  | cons q qs ih =>
    cases b' with
    | nil => exact h.elim
    | cons q' qs' =>
      obtain ⟨⟨r, rs, hr⟩, hqs⟩ := hb.cons
      obtain ⟨⟨r', rs', hr'⟩, hqs'⟩ := hb'.cons
      obtain ⟨-, hkeys, hts, halike⟩ := h
      have hvalues := hsplit.values
      have hdigits := hsplit.digits
      simp only [List.map_cons, List.cons.injEq] at hvalues hdigits
      obtain ⟨hstamp, hnext⟩ := List.append_inj hts hdigits.1
      have hkey : r.key = r'.key := by
        rw [headKey_cons hr, headKey_cons hr'] at hhead
        exact toStringDec_injective hhead
      have hreqs : q.requests = q'.requests := by
        refine requests_ext ?_ hvalues.1
        rw [hr, hr'] at hkeys ⊢
        rw [List.map_cons, List.map_cons, hkey]
        exact congrArg _ hkeys
      rw [batchContent_cons, batchContent_cons, hreqs, toStringDec_injective hstamp,
        ih hqs hqs' hnext halike ⟨hvalues.2, hdigits.2⟩]

end Content

section Binding

def Sized64 (b : List ClientQuery) : Prop :=
  ∀ q ∈ b, q.clientStartts < 2 ^ 64 ∧ ∀ r ∈ q.requests, r.key < 2 ^ 64 ∧ r.value < 2 ^ 64

instance (b : List ClientQuery) : Decidable (Sized64 b) :=
  inferInstanceAs (Decidable (∀ q ∈ b, _))

def DigestBinds (b : List ClientQuery) : Prop :=
  ∀ b', Sized64 b' → b'.length = b.length → batchString b' = batchString b → batchContent b' = batchContent b

def Request.farValue (r : Request) : Request :=
  { r with value := if r.value < 256 then r.value + 256 else r.value - 256 }

def ClientQuery.farValues (q : ClientQuery) : ClientQuery :=
  { q with requests := q.requests.map Request.farValue }

lemma Request.farValue_toBytes (r : Request) : r.farValue.toBytes = r.toBytes := by
  have hlow : r.farValue.value.toUInt8 = r.value.toUInt8 := by
    apply UInt8.toNat_inj.mp
    simp only [farValue, Nat.toUInt8, UInt8.toNat_ofNat']
    split_ifs <;> omega
  simp only [toBytes, hlow]
  rfl

lemma batchString_farValues (b : List ClientQuery) : batchString (b.map ClientQuery.farValues) = batchString b := by
  have hq : ∀ q : ClientQuery, q.farValues.getString = q.getString := by
    intro q
    simp only [ClientQuery.getString, ClientQuery.getRequestString, ClientQuery.farValues, List.map_map]
    congr 4
    exact funext Request.farValue_toBytes
  rw [batchString, List.map_map]
  congr 2
  exact funext hq

lemma Sized64.farValues {b : List ClientQuery} (h : Sized64 b) : Sized64 (b.map ClientQuery.farValues) := by
  intro q hq
  obtain ⟨q, hmem, rfl⟩ := List.mem_map.mp hq
  refine ⟨(h q hmem).1, fun far hfar => ?_⟩
  obtain ⟨r, hr, rfl⟩ := List.mem_map.mp hfar
  obtain ⟨hkey, hvalue⟩ := (h q hmem).2 r hr
  refine ⟨hkey, ?_⟩
  simp only [Request.farValue]
  split_ifs <;> omega

lemma batchContent_farValues (b : List ClientQuery) : batchContent (b.map ClientQuery.farValues) =
    (batchContent b).map fun t => (t.1, (if t.2.1 < 256 then t.2.1 + 256 else t.2.1 - 256), t.2.2) := by
  rw [batchContent, batchContent, List.map_map, List.map_flatten, List.map_map]
  congr 1
  refine List.map_congr_left fun q _ => ?_
  simp only [Function.comp_apply, ClientQuery.farValues, List.map_map]
  rfl

lemma count_requestString (rs : List Request) :
    2 * rs.length ≤ (rs.map Request.toBytes).flatten.count 32 := by
  induction rs with
  | nil => simp
  | cons r rs ih =>
    rw [requestString_cons, List.count_append, List.count_cons_self, List.count_cons, List.count_cons_self,
      List.length_cons]
    omega

lemma count_batchString (b : List ClientQuery) :
    b.length + 2 * (batchContent b).length ≤ (batchString b).count 32 := by
  induction b with
  | nil => exact Nat.zero_le _
  | cons q qs ih =>
    have hreq := count_requestString q.requests
    rw [batchString_cons, batchContent_cons, List.count_append, List.count_cons_self, List.count_append,
      List.count_eq_zero.mpr (space_notMem_toStringDec _), ClientQuery.getRequestString, List.length_append,
      List.length_map, List.length_cons]
    omega

lemma count_batchString_empty {b : List ClientQuery} (h : ∀ q ∈ b, q.requests = []) :
    (batchString b).count 32 = b.length := by
  induction b with
  | nil => rfl
  | cons q qs ih =>
    rw [batchString_cons, ClientQuery.getRequestString, h q List.mem_cons_self, List.map_nil, List.flatten_nil,
      List.nil_append, List.count_cons_self, List.count_append,
      List.count_eq_zero.mpr (space_notMem_toStringDec _), ih fun q' hq' => h q' (List.mem_cons_of_mem q hq'),
      List.length_cons]
    omega

lemma batchContent_eq_nil {b : List ClientQuery} : batchContent b = [] ↔ ∀ q ∈ b, q.requests = [] := by
  simp [batchContent]

lemma digestBinds_iff {b : List ClientQuery} (hb : Sized64 b) :
    DigestBinds b ↔ ∀ q ∈ b, q.requests = [] := by
  rw [← batchContent_eq_nil]
  constructor
  · intro h
    have hfar := h _ hb.farValues (List.length_map _) (batchString_farValues b)
    rw [batchContent_farValues] at hfar
    cases hc : batchContent b with
    | nil => rfl
    | cons t ts =>
      rw [hc, List.map_cons, List.cons.injEq] at hfar
      have hvalue := congrArg (fun t : ℕ × ℕ × ℕ => t.2.1) hfar.1
      simp only at hvalue
      split_ifs at hvalue <;> omega
  · intro h b' _ hlen hstr
    have hcount := count_batchString b'
    rw [hstr, count_batchString_empty (batchContent_eq_nil.mp h), hlen] at hcount
    rw [h, ← List.length_eq_zero_iff]
    omega

lemma content_determined_iff {b b' : List ClientQuery} (hb : AllRequested b) (hb' : AllRequested b') :
    (batchString b = batchString b' → batchContent b = batchContent b') ↔
      (headKey b = headKey b' → Alike b b' → SameSplit b b') := by
  constructor
  · intro h hhead halike
    have hrun : [] ++ headKey b = [] ++ headKey b' := hhead
    exact sameSplit_of_content hb halike (h (batchString_of_alike hb hb' hrun halike))
  · intro h hstr
    have hrun : [] ++ batchString b = [] ++ batchString b' := hstr
    obtain ⟨hhead, halike⟩ := alike_of_batchString hb hb' List.not_mem_nil List.not_mem_nil hrun
    exact content_of_sameSplit hb hb' hhead halike (h hhead halike)

theorem batch_digest_binds_iff (b : List ClientQuery) (hb : Sized64 b) :
    (DigestBinds b ↔ ∀ q ∈ b, q.requests = []) ∧
      ∀ b', AllRequested b → AllRequested b' →
        ((batchString b = batchString b' → batchContent b = batchContent b') ↔
          (headKey b = headKey b' → Alike b b' → SameSplit b b')) :=
  ⟨digestBinds_iff hb, fun _ hr hr' => content_determined_iff hr hr'⟩

def transfer (key value ts : ℕ) : ClientQuery := ⟨[⟨key, value⟩], ts, 4⟩

theorem batch_digest_binds_iff_transfer : ¬ DigestBinds [transfer 1 2 3] := by
  intro h
  have hnone := (batch_digest_binds_iff [transfer 1 2 3] (by decide)).1.mp h
  exact absurd (hnone _ List.mem_cons_self) (by decide)

-- A value that differs by 256, and a digit that moves from a timestamp to the key behind it.
theorem batch_digest_collides :
    batchString [transfer 1 2 3] = batchString [transfer 1 258 3] ∧
      batchContent [transfer 1 2 3] ≠ batchContent [transfer 1 258 3] ∧
      batchString [transfer 1 2 3, transfer 45 6 7] = batchString [transfer 1 2 34, transfer 5 6 7] ∧
      batchContent [transfer 1 2 3, transfer 45 6 7] ≠ batchContent [transfer 1 2 34, transfer 5 6 7] := by
  decide

end Binding

end SpotLess
