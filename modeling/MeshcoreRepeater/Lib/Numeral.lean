import MeshcoreRepeater.Lib.Bytes
import Mathlib.Tactic.IntervalCases

/-! # Numerals in text

Printing a natural number in a radix up to 36 and scanning one back, as the
`printf` and `strtol` families do. The round trip is `scanNumeral_append`: a
printed numeral in front of anything that is not a digit is scanned whole.

* `strtoul_decimal`, `strtoul_hex`, `scanInteger_intDecimal`: what `printf` prints is undone.
-/

namespace ByteLib

/-! ## Single digits -/

/-- The character of a digit value below 36, upper-case. -/
def digitByte (d : Nat) : UInt8 := UInt8.ofNat (if d < 10 then 48 + d else 55 + d)

/-- The value of an alphanumeric character as a digit. -/
def digitVal (c : UInt8) : Option Nat :=
  if 48 ≤ c ∧ c ≤ 57 then some (c.toNat - 48)
  else if 65 ≤ c ∧ c ≤ 90 then some (c.toNat - 55)
  else if 97 ≤ c ∧ c ≤ 122 then some (c.toNat - 87)
  else none

/-- `c` is a digit of radix `b`. -/
def isDigitOf (b : Nat) (c : UInt8) : Bool := (digitVal c).any (· < b)

theorem digitVal_digitByte {d : Nat} (h : d < 36) : digitVal (digitByte d) = some d := by
  interval_cases d <;> rfl

theorem isDigitOf_digitByte {b d : Nat} (hd : d < b) (hb : b ≤ 36) :
    isDigitOf b (digitByte d) = true := by
  simp [isDigitOf, digitVal_digitByte (show d < 36 by omega), hd]

/-! ## Printing -/

/-- Put the digits of `n` in front of `acc`, in at most `fuel` positions. -/
def digitsOnto (b : Nat) : Nat → Nat → List Nat → List Nat
  | 0, _, acc => acc
  | fuel + 1, n, acc =>
    if n < b then n :: acc else digitsOnto b fuel (n / b) (n % b :: acc)

/-- The numeral of `n` in radix `b`, without leading zeros. -/
def numeral (b n : Nat) : Bytes := (digitsOnto b (n + 1) n []).map digitByte

/-- `printf("%u")`. -/
def decimal (n : Nat) : Bytes := numeral 10 n

/-- `printf("%d")`. -/
def intDecimal (n : Int) : Bytes := if n < 0 then 45 :: decimal n.natAbs else decimal n.natAbs

/-- Padded with zeros on the left to `w` characters. -/
def padLeft (w : Nat) (s : Bytes) : Bytes := List.replicate (w - s.length) 48 ++ s

/-! ## Scanning -/

/-- The value of a list of digits, most significant first. -/
def ofDigits (b : Nat) (ds : List Nat) : Nat := ds.foldl (fun v d => b * v + d) 0

/-- The value of a numeral's characters. -/
def numeralValue (b : Nat) (s : Bytes) : Nat := ofDigits b (s.map fun c => (digitVal c).getD 0)

/-- The numeral at the start of a text, and what follows it; `none` when there is
no digit. -/
def scanNumeral (b : Nat) (s : Bytes) : Option (Nat × Bytes) :=
  let digits := s.takeWhile (isDigitOf b)
  if digits.isEmpty then none else some (numeralValue b digits, s.dropWhile (isDigitOf b))

/-- `isspace` in the C locale. -/
def isSpace (c : UInt8) : Bool := c == 32 || (9 ≤ c && c ≤ 13)

/-- Blanks, an optional sign, then a numeral: the value before any saturation, and
what follows it. -/
def scanInteger (b : Nat) (s : Bytes) : Option (Int × Bytes) :=
  let s := s.dropWhile isSpace
  if s.head? = some 45 then (scanNumeral b (s.drop 1)).map fun r => (-(r.1 : Int), r.2)
  else if s.head? = some 43 then (scanNumeral b (s.drop 1)).map fun r => ((r.1 : Int), r.2)
  else (scanNumeral b s).map fun r => ((r.1 : Int), r.2)

/-- A value stored as a `long`: out of range it saturates. -/
def toLong (v : Int) : Int := max (-9223372036854775808) (min v 9223372036854775807)

def ulongMax : Nat := 18446744073709551615

/-- In radix 16, without a `0x` in front of the digits. -/
def skipRadixPrefix (b : Nat) (s : Bytes) : Bytes :=
  match s with
  | 48 :: x :: d :: rest =>
    if b = 16 ∧ (x = 120 ∨ x = 88) ∧ isDigitOf 16 d = true then d :: rest else s
  | _ => s

/-- `strtoul`, for a 64-bit `unsigned long`: a minus sign negates modulo the word,
out of range the value saturates; `none` when there is no conversion. -/
def strtoul (b : Nat) (s : Bytes) : Option (Nat × Bytes) :=
  let s := s.dropWhile isSpace
  let neg := s.head? == some 45
  let body := if s.head? = some 45 ∨ s.head? = some 43 then s.drop 1 else s
  (scanNumeral b (skipRadixPrefix b body)).map fun r =>
    (if ulongMax < r.1 then ulongMax
      else if neg then (ulongMax + 1 - r.1) % (ulongMax + 1) else r.1, r.2)

/-! ## The round trip -/

theorem foldl_digitsOnto {b : Nat} (hb : 2 ≤ b) (fuel n : Nat) (acc : List Nat) (h : n < fuel) :
    ofDigits b (digitsOnto b fuel n acc) = acc.foldl (fun v d => b * v + d) n := by
  induction fuel generalizing n acc with
  | zero => omega
  | succ fuel ih =>
    by_cases hn : n < b
    · simp [digitsOnto, hn, ofDigits]
    · have hdiv : n / b < fuel := by
        have : n / b < n := Nat.div_lt_self (by omega) (by omega)
        omega
      rw [digitsOnto, if_neg hn, ih _ _ hdiv, List.foldl_cons]
      congr 1
      exact Nat.div_add_mod n b

theorem digitsOnto_lt {b : Nat} (hb : 2 ≤ b) (fuel n : Nat) (acc : List Nat) (h : n < fuel)
    (hacc : ∀ d ∈ acc, d < b) : ∀ d ∈ digitsOnto b fuel n acc, d < b := by
  induction fuel generalizing n acc with
  | zero => omega
  | succ fuel ih =>
    by_cases hn : n < b
    · simpa [digitsOnto, hn] using hacc
    · have hdiv : n / b < fuel := by
        have : n / b < n := Nat.div_lt_self (by omega) (by omega)
        omega
      rw [digitsOnto, if_neg hn]
      refine ih _ _ hdiv ?_
      simpa using ⟨Nat.mod_lt _ (by omega), hacc⟩

theorem digitsOnto_ne_nil (b fuel n : Nat) (acc : List Nat) (h : acc ≠ [] ∨ 0 < fuel) :
    digitsOnto b fuel n acc ≠ [] := by
  induction fuel generalizing n acc with
  | zero => simpa [digitsOnto] using h
  | succ fuel ih =>
    by_cases hn : n < b
    · simp [digitsOnto, hn]
    · rw [digitsOnto, if_neg hn]
      exact ih _ _ (.inl (by simp))

theorem numeral_ne_nil (b n : Nat) : numeral b n ≠ [] := by
  simpa [numeral] using digitsOnto_ne_nil b (n + 1) n [] (.inr (by omega))

theorem isDigitOf_of_mem_numeral {b n : Nat} (hb : 2 ≤ b) (hb' : b ≤ 36) {c : UInt8}
    (h : c ∈ numeral b n) : isDigitOf b c = true := by
  obtain ⟨d, hd, rfl⟩ := List.mem_map.mp h
  exact isDigitOf_digitByte (digitsOnto_lt hb _ _ _ (by omega) (by simp) d hd) hb'

/-- A printed numeral has the value it was printed from. -/
theorem numeralValue_numeral {b : Nat} (hb : 2 ≤ b) (hb' : b ≤ 36) (n : Nat) :
    numeralValue b (numeral b n) = n := by
  have hmap : (digitsOnto b (n + 1) n []).map (fun d => (digitVal (digitByte d)).getD 0) =
      digitsOnto b (n + 1) n [] := by
    conv_rhs => rw [← List.map_id (digitsOnto b (n + 1) n [])]
    refine List.map_congr_left ?_
    intro d hd
    have hlt := digitsOnto_lt hb (n + 1) n [] (by omega) (by simp) d hd
    simp [digitVal_digitByte (show d < 36 by omega)]
  rw [numeralValue, numeral, List.map_map]
  show ofDigits b ((digitsOnto b (n + 1) n []).map fun d => (digitVal (digitByte d)).getD 0) = n
  rw [hmap, foldl_digitsOnto hb _ _ _ (by omega)]
  rfl

theorem isDigitOf_ten {c : UInt8} (h : isDigitOf 10 c = true) : 48 ≤ c ∧ c ≤ 57 := by
  unfold isDigitOf digitVal at h
  split at h
  · rename_i hc
    exact hc
  · exfalso
    split at h
    · simp at h
      rename_i _ hc
      have h65 := UInt8.le_iff_toNat_le.mp hc.1
      simp at h65
      omega
    · split at h
      · simp at h
        rename_i _ _ hc
        have h97 := UInt8.le_iff_toNat_le.mp hc.1
        simp at h97
        omega
      · simp at h

/-- A decimal digit is neither a blank nor a sign. -/
theorem digit_not_sign {c : UInt8} (h : isDigitOf 10 c = true) :
    isSpace c = false ∧ c ≠ 45 ∧ c ≠ 43 := by
  have hrange := isDigitOf_ten h
  have h13 : ¬c ≤ 13 := fun h => absurd (UInt8.le_trans hrange.1 h) (by decide)
  have h32 : c ≠ 32 := by rintro rfl; exact absurd hrange.1 (by decide)
  have h45 : c ≠ 45 := by rintro rfl; exact absurd hrange.1 (by decide)
  have h43 : c ≠ 43 := by rintro rfl; exact absurd hrange.1 (by decide)
  exact ⟨by simp [isSpace, h13, h32], h45, h43⟩

theorem length_digitsOnto {b : Nat} (hb : 2 ≤ b) (fuel n k : Nat) (acc : List Nat) (hk : 0 < k)
    (h : n < b ^ k) : (digitsOnto b fuel n acc).length ≤ k + acc.length := by
  induction fuel generalizing n k acc with
  | zero => simp [digitsOnto]
  | succ fuel ih =>
    by_cases hn : n < b
    · simp [digitsOnto, hn]
      omega
    · obtain ⟨j, rfl⟩ : ∃ j, k = j + 1 := ⟨k - 1, by omega⟩
      have hj : 0 < j := by
        rcases Nat.eq_zero_or_pos j with rfl | hj
        · simp at h
          omega
        · exact hj
      have hdiv : n / b < b ^ j := by
        rw [Nat.div_lt_iff_lt_mul (by omega)]
        rwa [pow_succ] at h
      rw [digitsOnto, if_neg hn]
      have := ih (n / b) j (n % b :: acc) hj hdiv
      simp only [List.length_cons] at this
      omega

/-- A number below `b ^ k` has at most `k` digits. -/
theorem length_numeral_le {b n k : Nat} (hb : 2 ≤ b) (hk : 0 < k) (h : n < b ^ k) :
    (numeral b n).length ≤ k := by
  simpa [numeral] using length_digitsOnto hb (n + 1) n k [] hk h

/-- Leading zeros do not change a value. -/
theorem numeralValue_zeros (b k : Nat) (s : Bytes) :
    numeralValue b (List.replicate k 48 ++ s) = numeralValue b s := by
  induction k with
  | zero => rfl
  | succ k ih =>
    rw [List.replicate_succ, List.cons_append]
    exact ih

/-- Digits in front of a non-digit are scanned whole. -/
theorem scanNumeral_append {b : Nat} {ds rest : Bytes} (hne : ds ≠ [])
    (hds : ∀ c ∈ ds, isDigitOf b c = true) (hrest : (rest.head?.map (isDigitOf b)).getD false = false) :
    scanNumeral b (ds ++ rest) = some (numeralValue b ds, rest) := by
  have htake : rest.takeWhile (isDigitOf b) = [] := by
    cases rest with
    | nil => rfl
    | cons c rest => simpa [List.takeWhile_cons] using hrest
  have hdrop : rest.dropWhile (isDigitOf b) = rest := by
    cases rest with
    | nil => rfl
    | cons c rest =>
      have hc : isDigitOf b c = false := by simpa using hrest
      simp [hc]
  rw [scanNumeral, List.takeWhile_append_of_pos hds, List.dropWhile_append_of_pos hds, htake, hdrop]
  simp [hne]

/-- A numeral that fills its text is scanned to the end. -/
theorem scanNumeral_numeral {b : Nat} (hb : 2 ≤ b) (hb' : b ≤ 36) (k n : Nat) :
    scanNumeral b (List.replicate k 48 ++ numeral b n) = some (n, []) := by
  have hzero : isDigitOf b 48 = true := isDigitOf_digitByte (show 0 < b by omega) hb'
  have hds : ∀ c ∈ List.replicate k 48 ++ numeral b n, isDigitOf b c = true := by
    intro c hc
    rcases List.mem_append.mp hc with hrep | hmem
    · rw [(List.mem_replicate.mp hrep).2]
      exact hzero
    · exact isDigitOf_of_mem_numeral hb hb' hmem
  have hne : List.replicate k 48 ++ numeral b n ≠ [] := by simp [numeral_ne_nil]
  have h : scanNumeral b ((List.replicate k 48 ++ numeral b n) ++ []) = _ :=
    scanNumeral_append hne hds rfl
  rw [List.append_nil] at h
  rw [h, numeralValue_zeros, numeralValue_numeral hb hb']

/-- The first byte of a decimal. -/
theorem decimal_cons (n : Nat) :
    ∃ c rest, decimal n = c :: rest ∧ isSpace c = false ∧ c ≠ 45 ∧ c ≠ 43 := by
  cases h : decimal n with
  | nil => exact absurd h (numeral_ne_nil 10 n)
  | cons c rest =>
    have hc : isDigitOf 10 c = true :=
      isDigitOf_of_mem_numeral (n := n) (by omega) (by omega) (by
        show c ∈ decimal n
        simp [h])
    exact ⟨c, rest, rfl, digit_not_sign hc⟩

/-- `%u` is undone by `strtoul`. -/
theorem strtoul_decimal {n : Nat} (h : n ≤ ulongMax) : strtoul 10 (decimal n) = some (n, []) := by
  obtain ⟨c, rest, hcons, hspace, h45, h43⟩ := decimal_cons n
  have hscan : scanNumeral 10 (decimal n) = some (n, []) :=
    scanNumeral_numeral (by omega) (by omega) 0 n
  have hdrop : (decimal n).dropWhile isSpace = decimal n := by rw [hcons]; simp [hspace]
  have hskip : skipRadixPrefix 10 (decimal n) = decimal n := by
    unfold skipRadixPrefix
    split <;> simp
  have hhead : (decimal n).head? = some c := by rw [hcons]; rfl
  simp [strtoul, hdrop, hhead, h45, h43, hskip, hscan, Nat.not_lt.mpr h]

/-- `0x%0wX` is undone by `strtoul`. -/
theorem strtoul_hex {n : Nat} (w : Nat) (h : n ≤ ulongMax) :
    strtoul 16 (lit "0x" ++ padLeft w (numeral 16 n)) = some (n, []) := by
  have hscan := scanNumeral_numeral (b := 16) (by omega) (by omega) (w - (numeral 16 n).length) n
  have hskip : skipRadixPrefix 16 (48 :: 120 :: padLeft w (numeral 16 n)) =
      padLeft w (numeral 16 n) := by
    cases hp : padLeft w (numeral 16 n) with
    | nil => exact absurd hp (by simp [padLeft, numeral_ne_nil])
    | cons d rest =>
      have hd : isDigitOf 16 d = true := by
        have hmem : d ∈ padLeft w (numeral 16 n) := by simp [hp]
        rcases List.mem_append.mp hmem with hrep | hnum
        · rw [(List.mem_replicate.mp hrep).2]
          rfl
        · exact isDigitOf_of_mem_numeral (by omega) (by omega) hnum
      simp [skipRadixPrefix, hd]
  rw [show lit "0x" ++ padLeft w (numeral 16 n) = 48 :: 120 :: padLeft w (numeral 16 n) from rfl]
  simp only [strtoul, List.dropWhile_cons, show isSpace 48 = false from rfl, Bool.false_eq_true,
    if_false, List.head?_cons, Option.some.injEq, show ¬((48 : UInt8) = 45) from by decide,
    show ¬((48 : UInt8) = 43) from by decide, or_self, hskip]
  rw [show padLeft w (numeral 16 n) =
    List.replicate (w - (numeral 16 n).length) 48 ++ numeral 16 n from rfl, hscan]
  simp [Nat.not_lt.mpr h]

/-- `%d` is undone by the scanner of `strtol`. -/
theorem scanInteger_intDecimal (n : Int) : scanInteger 10 (intDecimal n) = some (n, []) := by
  obtain ⟨c, rest, hcons, hspace, h45, h43⟩ := decimal_cons n.natAbs
  have hscan : scanNumeral 10 (decimal n.natAbs) = some (n.natAbs, []) :=
    scanNumeral_numeral (by omega) (by omega) 0 _
  by_cases hneg : n < 0
  · have hskip : List.dropWhile isSpace (45 :: decimal n.natAbs) = 45 :: decimal n.natAbs := rfl
    simp [scanInteger, intDecimal, hneg, hskip, hscan, abs_of_neg hneg]
  · have hdrop : (decimal n.natAbs).dropWhile isSpace = decimal n.natAbs := by
      rw [hcons]; simp [hspace]
    have hhead : (decimal n.natAbs).head? = some c := by rw [hcons]; rfl
    simp [scanInteger, intDecimal, hneg, hdrop, hhead, h45, h43, hscan, abs_of_nonneg (not_lt.mp hneg)]

end ByteLib
