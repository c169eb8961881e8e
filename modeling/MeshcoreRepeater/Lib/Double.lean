import MeshcoreRepeater.Lib.Numeral
import Mathlib.Data.List.TakeWhile
import Mathlib.Data.Nat.Log
import Mathlib.Data.Rat.Floor
import Mathlib.Algebra.Order.Field.Power
import Mathlib.Tactic.Linarith
import Mathlib.Tactic.Positivity
import Mathlib.Tactic.Ring

/-! # C doubles and their text

Binary64 values with rounding to nearest, ties to even; the comparisons of C;
`strtod`; and the `%f` and `%g` conversions of `printf`, all in the C locale. The
numbers are exact rationals, so every definition can be evaluated.

`strtod_fmtF` is the fact programs lean on: what `%f` printed, even cut off by a
short buffer, is read to its end; `CDouble.ofRat_near` bounds what rounding loses.
-/

namespace ByteLib

/-- A C `double`. A finite value is read exactly; of a NaN only the sign is kept. -/
inductive CDouble where
  | fin (q : ℚ)
  | negZero
  | inf (neg : Bool)
  | nan (neg : Bool)
deriving DecidableEq

/-! ## Rounding -/

/-- `⌊log_b q⌋`, for a positive `q`. -/
def floorLog (b : Nat) (q : ℚ) : Int :=
  if 1 ≤ q then Nat.log b ⌊q⌋.toNat else -(Nat.clog b ⌈1 / q⌉.toNat : Int)

/-- `q * b ^ e`. -/
def scale (b : Nat) (q : ℚ) (e : Int) : ℚ :=
  if 0 ≤ e then q * (b : ℚ) ^ e.toNat else q / (b : ℚ) ^ (-e).toNat

/-- The integer nearest to a non-negative `q`, the even one of two. -/
def roundEven (q : ℚ) : Nat :=
  let n := ⌊q⌋.toNat
  if q - n < 1 / 2 ∨ (q - n = 1 / 2 ∧ n % 2 = 0) then n else n + 1

def CDouble.zero (neg : Bool) : CDouble := if neg then .negZero else .fin 0

/-- The double nearest to `m`, or to `-m`, for a non-negative `m`. -/
def toDouble (neg : Bool) (m : ℚ) : CDouble :=
  if m = 0 then .zero neg
  else
    -- the weight of the last place: 53 significant bits, down to the subnormals
    let ulp := max (floorLog 2 m - 52) (-1074)
    let v := scale 2 (roundEven (scale 2 m (-ulp)) : ℚ) ulp
    if 2 ^ 1024 ≤ v then .inf neg
    else if v = 0 then .zero neg
    else .fin (if neg then -v else v)

/-- A constant of the source, or the result of exact arithmetic. -/
def CDouble.ofRat (q : ℚ) : CDouble := toDouble (q < 0) |q|

/-! ## Comparisons -/

/-- Where a double stands in the order: below, among or above the finite ones. -/
def CDouble.rank : CDouble → Option (Int × ℚ)
  | .fin q => some (0, q)
  | .negZero => some (0, 0)
  | .inf neg => some (if neg then -1 else 1, 0)
  | .nan _ => none

/-- `a < b`; false when either is not a number. -/
def CDouble.lt (a b : CDouble) : Bool :=
  match a.rank, b.rank with
  | some x, some y => x.1 < y.1 || (x.1 == y.1 && x.2 < y.2)
  | _, _ => false

/-- `a == b`. -/
def CDouble.eq (a b : CDouble) : Bool :=
  match a.rank, b.rank with
  | some x, some y => x == y
  | _, _ => false

/-! ## Printing -/

def signText (neg : Bool) : Bytes := if neg then [45] else []

/-- `n / 10 ^ p` with its `p` decimals. -/
def fixedDigits (p n : Nat) : Bytes :=
  decimal (n / 10 ^ p) ++ if p = 0 then [] else 46 :: padLeft p (decimal (n % 10 ^ p))

/-- `printf("%.pf")`. -/
def fmtF (p : Nat) : CDouble → Bytes
  | .fin q => signText (q < 0) ++ fixedDigits p (roundEven (|q| * 10 ^ p))
  | .negZero => signText true ++ fixedDigits p 0
  | .inf neg => signText neg ++ lit "inf"
  | .nan neg => signText neg ++ lit "nan"

/-- Without the zeros at the end of the decimals, nor a point left bare. -/
def stripZeros (s : Bytes) : Bytes :=
  if s.contains 46 then rtrim (· == 46) (rtrim (· == 48) s) else s

/-- The `%g` text of a positive value: six significant digits, in fixed or in
exponent form. -/
def generalDigits (m : ℚ) : Bytes :=
  let x₀ := floorLog 10 m
  let n₀ := roundEven (scale 10 m (5 - x₀))
  -- rounding up may have carried into a seventh digit
  let x := if n₀ = 1000000 then x₀ + 1 else x₀
  let n := if n₀ = 1000000 then 100000 else n₀
  if -4 ≤ x ∧ x < 6 then stripZeros (fixedDigits (5 - x).toNat n)
  else stripZeros (fixedDigits 5 n) ++ [101, if x < 0 then 45 else 43] ++
    padLeft 2 (decimal x.natAbs)

/-- `printf("%g")`. -/
def fmtG : CDouble → Bytes
  | .fin q => if q = 0 then lit "0" else signText (q < 0) ++ generalDigits |q|
  | .negZero => lit "-0"
  | .inf neg => signText neg ++ lit "inf"
  | .nan neg => signText neg ++ lit "nan"

/-! ## Scanning -/

/-- Digits with at most one point among them: their value without the point, how
many stand behind it, and what follows. -/
def scanMantissa (b : Nat) (s : Bytes) : Option (Nat × Nat × Bytes) :=
  let whole := s.takeWhile (isDigitOf b)
  let r := s.dropWhile (isDigitOf b)
  let point := r.head? == some 46
  let part := if point then (r.drop 1).takeWhile (isDigitOf b) else []
  let rest := if point then (r.drop 1).dropWhile (isDigitOf b) else r
  if whole.isEmpty && part.isEmpty then none
  else some (numeralValue b (whole ++ part), part.length, rest)

/-- An exponent behind the letter `mark`; without digits there is none. -/
def scanExponent (mark : UInt8) (s : Bytes) : Int × Bytes :=
  if s.head?.map tolower = some mark then
    let t := s.drop 1
    let u := if t.head? = some 45 ∨ t.head? = some 43 then t.drop 1 else t
    match scanNumeral 10 u with
    | some (n, rest) => (if t.head? = some 45 then -(n : Int) else n, rest)
    | none => (0, s)
  else (0, s)

def isTagByte (c : UInt8) : Bool := isDigitOf 36 c || c == 95

/-- What follows a `nan`, after its optional `(tag)`. -/
def skipNanTag (s : Bytes) : Bytes :=
  if s.head? = some 40 then
    match (s.drop 1).dropWhile isTagByte with
    | 41 :: rest => rest
    | _ => s
  else s

/-- The digits behind `0x`. -/
def hexMantissa (s : Bytes) : Option (Nat × Nat × Bytes) :=
  match s with
  | 48 :: x :: rest => if x == 120 || x == 88 then scanMantissa 16 rest else none
  | _ => none

/-- `strtod`, behind the blanks and the sign. -/
def strtodBody (neg : Bool) (s : Bytes) : Option (CDouble × Bytes) :=
  if strncaseEq s (lit "infinity") 8 then some (.inf neg, s.drop 8)
  else if strncaseEq s (lit "inf") 3 then some (.inf neg, s.drop 3)
  else if strncaseEq s (lit "nan") 3 then some (.nan neg, skipNanTag (s.drop 3))
  else match hexMantissa s with
    | some (n, k, r) =>
      let e := scanExponent 112 r
      some (toDouble neg (scale 2 n (e.1 - 4 * k)), e.2)
    | none =>
      match scanMantissa 10 s with
      | some (n, k, r) =>
        let e := scanExponent 101 r
        some (toDouble neg (scale 10 n (e.1 - k)), e.2)
      | none => none

/-- `strtod`: the number a text starts with and what follows it; `none` when there
is no conversion. -/
def strtod (s : Bytes) : Option (CDouble × Bytes) :=
  let s := s.dropWhile isSpace
  strtodBody (s.head? == some 45) (if s.head? = some 45 ∨ s.head? = some 43 then s.drop 1 else s)

example : strtod (lit " -12.5e1x") = some (.fin (-125), lit "x") := by decide +kernel
example : fmtF 3 (.ofRat (434890 / 1000)) = lit "434.890" := by decide +kernel
example : fmtG (.ofRat (625 / 10)) = lit "62.5" := by decide +kernel

/-! ## What was printed is read to its end -/

/-- Decimal digits, the first of them in front of the optional point. -/
def IsMantissa (s : Bytes) : Prop :=
  ∃ whole part, whole ≠ [] ∧ (∀ c ∈ whole, isDigitOf 10 c = true) ∧
    (∀ c ∈ part, isDigitOf 10 c = true) ∧ (s = whole ∨ s = whole ++ 46 :: part)

theorem IsMantissa.take {s : Bytes} (h : IsMantissa s) {k : Nat} (hk : 0 < k) :
    IsMantissa (s.take k) := by
  obtain ⟨whole, part, hne, hwhole, hpart, hs⟩ := h
  have hne' : whole.take k ≠ [] := by simp [hne]; omega
  have htake : ∀ (l : Bytes) n, (∀ c ∈ l, isDigitOf 10 c = true) → ∀ c ∈ l.take n, isDigitOf 10 c = true :=
    fun l n hl c hc => hl c (List.mem_of_mem_take hc)
  rcases hs with rfl | rfl
  · exact ⟨s.take k, [], hne', htake _ _ hwhole, by simp, .inl rfl⟩
  · by_cases hle : k ≤ whole.length
    · refine ⟨whole.take k, [], hne', htake _ _ hwhole, by simp, .inl ?_⟩
      rw [List.take_append_of_le_length hle]
    · refine ⟨whole, part.take (k - whole.length - 1), hne, hwhole, htake _ _ hpart, .inr ?_⟩
      rw [List.take_append, List.take_of_length_le (by omega)]
      congr 1
      obtain ⟨j, hj⟩ : ∃ j, k - whole.length = j + 1 := ⟨k - whole.length - 1, by omega⟩
      simp [hj]

theorem isMantissa_fixedDigits (p n : Nat) : IsMantissa (fixedDigits p n) := by
  have hdec : ∀ m, ∀ c ∈ decimal m, isDigitOf 10 c = true :=
    fun m c hc => isDigitOf_of_mem_numeral (by omega) (by omega) hc
  refine ⟨decimal (n / 10 ^ p), padLeft p (decimal (n % 10 ^ p)), numeral_ne_nil _ _, hdec _, ?_, ?_⟩
  · intro c hc
    rcases List.mem_append.mp hc with hzero | hmem
    · rw [(List.mem_replicate.mp hzero).2]
      rfl
    · exact hdec _ c hmem
  · by_cases hp : p = 0
    · simp [fixedDigits, hp]
    · simp [fixedDigits, hp]

theorem scanMantissa_of_isMantissa {s : Bytes} (h : IsMantissa s) :
    ∃ n k, scanMantissa 10 s = some (n, k, []) := by
  obtain ⟨whole, part, hne, hwhole, hpart, rfl | rfl⟩ := h
  · refine ⟨numeralValue 10 s, 0, ?_⟩
    have htake : s.takeWhile (isDigitOf 10) = s := List.takeWhile_eq_self_iff.mpr hwhole
    have hdrop : s.dropWhile (isDigitOf 10) = [] := List.dropWhile_eq_nil_iff.mpr hwhole
    simp [scanMantissa, htake, hdrop, hne]
  · refine ⟨numeralValue 10 (whole ++ part), part.length, ?_⟩
    have hpoint : isDigitOf 10 46 = false := rfl
    have htake : (whole ++ 46 :: part).takeWhile (isDigitOf 10) = whole := by
      rw [List.takeWhile_append_of_pos hwhole]
      simp [hpoint]
    have hdrop : (whole ++ 46 :: part).dropWhile (isDigitOf 10) = 46 :: part := by
      rw [List.dropWhile_append_of_pos hwhole]
      simp [hpoint]
    have hptake : part.takeWhile (isDigitOf 10) = part := List.takeWhile_eq_self_iff.mpr hpart
    have hpdrop : part.dropWhile (isDigitOf 10) = [] := List.dropWhile_eq_nil_iff.mpr hpart
    simp [scanMantissa, htake, hdrop, hptake, hpdrop, hne]

/-- The first byte is a digit, the second a digit or the point. -/
theorem IsMantissa.cons {s : Bytes} (h : IsMantissa s) :
    ∃ c rest, s = c :: rest ∧ isDigitOf 10 c = true ∧
      ∀ x, rest.head? = some x → isDigitOf 10 x = true ∨ x = 46 := by
  obtain ⟨whole, part, hne, hwhole, hpart, hs⟩ := h
  cases whole with
  | nil => exact absurd rfl hne
  | cons c whole =>
    have hc : isDigitOf 10 c = true := hwhole c List.mem_cons_self
    have hmem : ∀ x, whole.head? = some x → isDigitOf 10 x = true := fun x hx =>
      hwhole x (List.mem_cons_of_mem c (List.mem_of_mem_head? hx))
    rcases hs with rfl | rfl
    · exact ⟨c, whole, rfl, hc, fun x hx => .inl (hmem x hx)⟩
    · refine ⟨c, whole ++ 46 :: part, rfl, hc, ?_⟩
      intro x hx
      cases whole with
      | nil => exact .inr (by simpa using hx.symm)
      | cons y whole => exact .inl (hmem x (by simpa using hx))

/-- No letter word starts with a digit. -/
theorem strncaseEq_digit {c w : UInt8} {rest word : Bytes} {n : Nat} (hc : isDigitOf 10 c = true)
    (hw : 57 < w) (hlow : tolower w = w) :
    strncaseEq (c :: rest) (w :: word) (n + 1) = false := by
  have hd := (isDigitOf_ten hc).2
  have hlt : c < w := UInt8.lt_of_le_of_lt hd hw
  have hne : tolower c ≠ w := by
    have : tolower c = c := by
      unfold tolower
      rw [if_neg]
      rintro ⟨h65, -⟩
      exact absurd (UInt8.le_trans h65 hd) (by decide)
    rw [this]
    exact fun h => absurd hlt (by simp [h])
  simp [strncaseEq, strcaseEq, hlow, hne]

/-- A mantissa after an optional sign is converted whole. -/
theorem strtodBody_of_isMantissa (neg : Bool) {s : Bytes} (h : IsMantissa s) :
    ∃ d, strtodBody neg s = some (d, []) := by
  obtain ⟨c, rest, rfl, hc, hsecond⟩ := h.cons
  have hhex : hexMantissa (c :: rest) = none := by
    cases rest with
    | nil => unfold hexMantissa; split <;> simp_all
    | cons x rest =>
      have hx := hsecond x rfl
      have hx120 : x ≠ 120 := by rintro rfl; simp [isDigitOf, digitVal] at hx
      have hx88 : x ≠ 88 := by rintro rfl; simp [isDigitOf, digitVal] at hx
      unfold hexMantissa
      split
      · rename_i heq
        cases heq
        simp [hx120, hx88]
      · rfl
  obtain ⟨n, k, hscan⟩ := scanMantissa_of_isMantissa h
  refine ⟨toDouble neg (scale 10 n (0 - k)), ?_⟩
  rw [strtodBody, show lit "infinity" = 105 :: lit "nfinity" from rfl,
    show lit "inf" = 105 :: lit "nf" from rfl, show lit "nan" = 110 :: lit "an" from rfl,
    strncaseEq_digit hc (by decide) rfl, strncaseEq_digit hc (by decide) rfl,
    strncaseEq_digit hc (by decide) rfl, hhex, hscan]
  rfl

theorem strtod_of_isMantissa (neg : Bool) {s : Bytes} (h : IsMantissa s) :
    ∃ d, strtod (signText neg ++ s) = some (d, []) := by
  obtain ⟨d, hd⟩ := strtodBody_of_isMantissa neg h
  refine ⟨d, ?_⟩
  cases neg with
  | true => exact hd
  | false =>
    obtain ⟨c, rest, rfl, hc, -⟩ := h.cons
    obtain ⟨hspace, h45, h43⟩ := digit_not_sign hc
    have h45' : (c == 45) = false := by simp [h45]
    simpa [strtod, signText, hspace, h45, h43, h45'] using hd

/-- What `%f` printed is a number to its end, also when only its first `k ≥ 4`
characters are kept. -/
theorem strtod_fmtF (p k : Nat) (d : CDouble) (hk : 4 ≤ k) :
    ∃ x, strtod ((fmtF p d).take k) = some (x, []) := by
  have hnum : ∀ neg n, ∃ x, strtod ((signText neg ++ fixedDigits p n).take k) = some (x, []) := by
    intro neg n
    cases neg with
    | false =>
      exact strtod_of_isMantissa false ((isMantissa_fixedDigits p n).take (k := k) (by omega))
    | true =>
      obtain ⟨j, rfl⟩ : ∃ j, k = j + 1 := ⟨k - 1, by omega⟩
      exact strtod_of_isMantissa true ((isMantissa_fixedDigits p n).take (k := j) (by omega))
  cases d with
  | fin q => exact hnum _ _
  | negZero => exact hnum true 0
  | inf neg =>
    refine ⟨.inf neg, ?_⟩
    cases neg <;> rw [List.take_of_length_le (by simp [fmtF, signText, lit]; omega)] <;> rfl
  | nan neg =>
    refine ⟨.nan neg, ?_⟩
    cases neg <;> rw [List.take_of_length_le (by simp [fmtF, signText, lit]; omega)] <;> rfl

/-! ## How near a double is -/

theorem roundEven_near {q : ℚ} (h : 0 ≤ q) : |(roundEven q : ℚ) - q| ≤ 1 / 2 := by
  have hfloor : ((⌊q⌋.toNat : ℕ) : ℚ) = (⌊q⌋ : ℚ) := by
    have hcast : ((⌊q⌋.toNat : ℕ) : ℤ) = ⌊q⌋ := Int.toNat_of_nonneg (Int.floor_nonneg.mpr h)
    exact_mod_cast hcast
  have hlo := Int.floor_le q
  have hhi := Int.lt_floor_add_one q
  unfold roundEven
  simp only
  split
  · rename_i hdown
    rw [hfloor] at hdown ⊢
    rw [abs_le]
    rcases hdown with hlt | ⟨heq, -⟩
    · constructor <;> linarith
    · constructor <;> linarith
  · rename_i hup
    push_cast
    rw [hfloor] at hup ⊢
    have hhalf : 1 / 2 ≤ q - ⌊q⌋ := by
      by_contra hlt
      exact hup (.inl (not_le.mp hlt))
    rw [abs_le]
    constructor <;> linarith

theorem scale_eq_zpow (q : ℚ) (e : Int) : scale 2 q e = q * 2 ^ e := by
  unfold scale
  push_cast
  split
  · rename_i he
    rw [← zpow_natCast, Int.toNat_of_nonneg he]
  · rename_i he
    rw [← zpow_natCast, Int.toNat_of_nonneg (by omega), zpow_neg, div_inv_eq_mul]

theorem floorLog_le {q : ℚ} (h : 0 < q) : (2 : ℚ) ^ floorLog 2 q ≤ q := by
  unfold floorLog
  split
  · rename_i hone
    have hfloor : 1 ≤ ⌊q⌋ := Int.le_floor.mpr (by exact_mod_cast hone)
    have hpow : 2 ^ Nat.log 2 ⌊q⌋.toNat ≤ ⌊q⌋.toNat := Nat.pow_log_le_self 2 (by omega)
    have hcast : ((⌊q⌋.toNat : ℕ) : ℚ) = (⌊q⌋ : ℚ) := by
      have : ((⌊q⌋.toNat : ℕ) : ℤ) = ⌊q⌋ := Int.toNat_of_nonneg (by omega)
      exact_mod_cast this
    rw [zpow_natCast]
    calc ((2 : ℚ) ^ Nat.log 2 ⌊q⌋.toNat) ≤ (⌊q⌋.toNat : ℕ) := by exact_mod_cast hpow
      _ = (⌊q⌋ : ℚ) := hcast
      _ ≤ q := Int.floor_le q
  · have hceil : ⌈1 / q⌉.toNat ≤ 2 ^ Nat.clog 2 ⌈1 / q⌉.toNat := Nat.le_pow_clog (by omega) _
    have hle : 1 / q ≤ 2 ^ Nat.clog 2 ⌈1 / q⌉.toNat := by
      calc 1 / q ≤ (⌈1 / q⌉ : ℚ) := Int.le_ceil _
        _ ≤ ((⌈1 / q⌉.toNat : ℕ) : ℚ) := by exact_mod_cast Int.self_le_toNat _
        _ ≤ 2 ^ Nat.clog 2 ⌈1 / q⌉.toNat := by exact_mod_cast hceil
    rw [zpow_neg, zpow_natCast]
    exact inv_le_of_inv_le₀ h (by rw [← one_div]; exact hle)

/-- A finite double, and its value. -/
def CDouble.Is (d : CDouble) (v : ℚ) : Prop := d = .fin v ∨ (d = .negZero ∧ v = 0)

theorem toDouble_near (neg : Bool) {m : ℚ} {k : Nat} (hm : 0 ≤ m) (hk : k ≤ 100) (hle : m ≤ 2 ^ k) :
    ∃ v, (toDouble neg m).Is (if neg then -v else v) ∧ |v - m| ≤ 2 ^ k / 2 ^ 53 := by
  by_cases hzero : m = 0
  · refine ⟨0, ?_, ?_⟩
    · subst hzero
      cases neg with
      | true => exact .inr ⟨rfl, by simp⟩
      | false => exact .inl rfl
    · rw [hzero, sub_zero, abs_zero]
      positivity
  have hpos : 0 < m := lt_of_le_of_ne hm (Ne.symm hzero)
  generalize hulp : max (floorLog 2 m - 52) (-1074) = ulp
  generalize hv : scale 2 (roundEven (scale 2 m (-ulp)) : ℚ) ulp = v
  -- half of the last place
  have hnear : |v - m| ≤ 2 ^ ulp / 2 := by
    have hscaled : 0 ≤ m * 2 ^ (-ulp) := by positivity
    have hround := roundEven_near hscaled
    have heq : v - m = ((roundEven (m * 2 ^ (-ulp)) : ℚ) - m * 2 ^ (-ulp)) * 2 ^ ulp := by
      rw [← hv, scale_eq_zpow, scale_eq_zpow, sub_mul, mul_assoc, ← zpow_add₀ (by norm_num)]
      simp
    rw [heq, abs_mul, abs_of_pos (by positivity : (0 : ℚ) < 2 ^ ulp)]
    have hmul := mul_le_mul_of_nonneg_right hround (by positivity : (0 : ℚ) ≤ 2 ^ ulp)
    linarith
  have hplace : (2 : ℚ) ^ ulp ≤ 2 ^ k / 2 ^ 52 := by
    have hsplit : ulp = floorLog 2 m - 52 ∨ ulp = -1074 := by omega
    rcases hsplit with hu | hu
    · rw [hu, zpow_sub₀ (by norm_num)]
      have hlog := (floorLog_le hpos).trans hle
      exact div_le_div_of_nonneg_right hlog (by norm_num)
    · rw [hu]
      have hone : (1 : ℚ) ≤ 2 ^ k := one_le_pow₀ (by norm_num)
      calc (2 : ℚ) ^ (-1074 : Int) ≤ 2 ^ (-52 : Int) := zpow_le_zpow_right₀ (by norm_num) (by norm_num)
        _ = 1 / 2 ^ 52 := by norm_num
        _ ≤ 2 ^ k / 2 ^ 52 := div_le_div_of_nonneg_right hone (by norm_num)
  have hdist : |v - m| ≤ 2 ^ k / 2 ^ 53 := by
    have hhalf : (2 : ℚ) ^ k / 2 ^ 53 = 2 ^ k / 2 ^ 52 / 2 := by ring
    rw [hhalf]
    linarith
  refine ⟨v, ?_, hdist⟩
  have hfinite : ¬ 2 ^ 1024 ≤ v := by
    have hupper := (abs_le.mp hdist).2
    have hsmall : (2 : ℚ) ^ k / 2 ^ 53 ≤ 2 ^ k := div_le_self (by positivity) (by norm_num)
    have hpow : (2 : ℚ) ^ k ≤ 2 ^ 100 := pow_le_pow_right₀ (by norm_num) hk
    have hdouble : (2 : ℚ) ^ 101 = 2 ^ 100 + 2 ^ 100 := by norm_num
    have hbelow : v ≤ 2 ^ 101 := by linarith
    have hbig : (2 : ℚ) ^ 101 < 2 ^ 1024 := pow_lt_pow_right₀ (by norm_num) (by norm_num)
    exact not_le.mpr (lt_of_le_of_lt hbelow hbig)
  unfold toDouble
  simp only [hulp, hv]
  rw [if_neg hzero, if_neg hfinite]
  split
  · rename_i hv0
    cases neg with
    | true => exact .inr ⟨rfl, by simp [hv0]⟩
    | false => exact .inl (by simp [hv0, CDouble.zero])
  · exact .inl rfl

/-- Rounding moves a number by half of its last place at most. -/
theorem CDouble.ofRat_near {q : ℚ} {k : Nat} (hk : k ≤ 100) (hq : |q| ≤ 2 ^ k) :
    ∃ v, (CDouble.ofRat q).Is v ∧ |v - q| ≤ 2 ^ k / 2 ^ 53 := by
  rcases toDouble_near (q < 0) (abs_nonneg q) hk hq with ⟨v, his, hnear⟩
  refine ⟨_, his, ?_⟩
  by_cases hneg : q < 0
  · rw [abs_of_neg hneg] at hnear
    simp only [hneg, decide_true, if_true]
    rw [← abs_neg]
    have heq : -(-v - q) = v - -q := by ring
    rw [heq]
    exact hnear
  · rw [abs_of_nonneg (not_lt.mp hneg)] at hnear
    simpa [hneg] using hnear

end ByteLib
