import MeshcoreRepeater.Lib.Radix
import MeshcoreRepeater.Lib.Rounding
import Mathlib.Algebra.Order.Archimedean.Basic
import Mathlib.Data.Rat.Floor
import Mathlib.Tactic.NormNum

/-! # Compressed positions

`aprs_make_position` writes a latitude and a longitude as four characters of base 91 each. It
computes with doubles: the scaled coordinate is rounded twice, but nothing is lost when its
digits are taken off (`base91Loop_eq`). So the characters spell the whole part of the double,
which misses the exact scaled coordinate by less than `2 ^ -25`.

Main results: `positionStrings_spell`, `latval_near`, `lonval_near`, `aprsMakePosition_spec`;
`equator_reads_north` is a latitude whose text is not the whole part of the exact one.
-/

namespace Meshcore

open ByteLib

/-! ## The encoder -/

/-- `symbol_valid`, of a table and a code: `^([\/\\A-Z0-9])([\x21-\x7b\x7d])$`. -/
def symbolValid (symbol : Bytes) : Bool :=
  match symbol with
  | [t, c] =>
    (t == 47 || t == 92 || (65 ≤ t && t ≤ 90) || (48 ≤ t && t ≤ 57)) && ((0x21 ≤ c && c ≤ 0x7b) || c == 0x7d)
  | _ => false

/-- The table and the code of a symbol; `none` refuses it. -/
def positionSymbol (symbol : Option Bytes) : Option (UInt8 × UInt8) :=
  match symbol with
  | none => some (47, 47)
  | some [] => some (47, 47)
  | some s => if symbolValid s then some (s.getD 0 0, s.getD 1 0) else none

/-- The loop over the powers of 91: both coordinates side by side, `latstring` and
`lonstring` so far. -/
def base91Loop : Nat → Int → CDouble → CDouble → Bytes → Bytes → Bytes × Bytes
  | 0, _, _, _, latstring, lonstring => (latstring, lonstring)
  | k + 1, pw, latval, lonval, latstring, lonstring =>
    let v := (latval.div (.ofRat pw)).toInt
    let w := (lonval.div (.ofRat pw)).toInt
    base91Loop k (pw / 91) (latval.sub ((CDouble.ofRat v).mul (.ofRat pw)))
      (lonval.sub ((CDouble.ofRat w).mul (.ofRat pw))) (latstring ++ [UInt8.ofInt (v + 33)])
      (lonstring ++ [UInt8.ofInt (w + 33)])

/-- `latval`, before the loop. -/
def latval (lat : CDouble) : CDouble := (CDouble.fin 380926).mul ((CDouble.fin 90).sub lat)

/-- `lonval`, before the loop. -/
def lonval (lon : CDouble) : CDouble := (CDouble.fin 190463).mul ((CDouble.fin 180).add lon)

/-- The four characters of each coordinate. -/
def positionStrings (lat lon : CDouble) : Bytes × Bytes :=
  base91Loop 4 (91 * 91 * 91) (latval lat) (lonval lon) [] []

/-- `speednum`, of the logarithm of the maths library. -/
def speedNum (log : CDouble → CDouble) (speed : Int) : Int :=
  (((log (((CDouble.ofRat speed).div (.ofRat 1.852)).add (.fin 1))).div (log (.ofRat 1.08))).add (.ofRat 0.5)).toInt

/-- Course and speed behind the symbol, or blanks. -/
def positionTail (log : CDouble → CDouble) (speed course : Int) : Bytes :=
  if 0 ≤ speed ∧ 0 < course ∧ course ≤ 360 then
    let cval := (course + 2).tdiv 4
    let cval := if 89 < cval then 0 else cval
    let speednum := speedNum log speed
    let speednum := if 89 < speednum then 89 else speednum
    [UInt8.ofInt (cval + 33), UInt8.ofInt (speednum + 33), 65]
  else lit "  A"

/-- An overlay digit of the table goes out as a letter. -/
def overlay (t : UInt8) : UInt8 := if 48 ≤ t ∧ t ≤ 57 then t - 48 + 97 else t

/-- The whole text, before `snprintf` cuts it. -/
def positionText (log : CDouble → CDouble) (lat lon : CDouble) (speed course : Int) (t c : UInt8) : Bytes :=
  overlay t :: ((positionStrings lat lon).1 ++ (positionStrings lat lon).2) ++
    c :: cstr (positionTail log speed course)

/-- The bounds of the map, as the source writes them. -/
def latLimit : CDouble := .ofRat 89.99999

def lonLimit : CDouble := .ofRat 179.99999

/-- `aprs_make_position`: what stands in `out`; `none` is -1. -/
def aprsMakePosition (log : CDouble → CDouble) (outsize : Nat) (lat lon : CDouble) (speed course : Int)
    (symbol : Option Bytes) : Option Bytes :=
  if lat.lt latLimit.neg || latLimit.lt lat || lon.lt lonLimit.neg || lonLimit.lt lon then none
  else
    match positionSymbol symbol with
    | none => none
    | some (t, c) => some (snprintfS outsize (positionText log lat lon speed course t c))

/-! ## The map -/

/-- Numbers within the bounds. -/
structure OnMap (lat lon : CDouble) : Prop where
  lat_finite : lat.isFinite = true
  lon_finite : lon.isFinite = true
  lat_le : |lat.value| ≤ latLimit.value
  lon_le : |lon.value| ≤ lonLimit.value

/-- The comparisons of the encoder let the numbers on the map through, and no others but NaNs. -/
theorem outside_iff {d : CDouble} {limit : ℚ} (hpos : 0 < limit) (hd : d.isNan = false) :
    (d.lt (CDouble.fin limit).neg || (CDouble.fin limit).lt d) = true ↔ ¬(d.isFinite = true ∧ |d.value| ≤ limit) := by
  have hneg : (CDouble.fin limit).neg = .fin (-limit) := by rw [CDouble.neg, if_neg hpos.ne']
  rw [hneg]
  cases d with
  | fin q => simp [CDouble.lt, CDouble.rank, CDouble.isFinite, CDouble.value, abs_le, or_iff_not_imp_left]
  | negZero => simp [CDouble.lt, CDouble.rank, CDouble.isFinite, CDouble.value, hpos.le]
  | inf neg => cases neg <;> simp [CDouble.lt, CDouble.rank, CDouble.isFinite]
  | nan neg => cases hd

/-! ## What the characters mean -/

/-- The number four characters spell. -/
def base91Value (s : Bytes) : Nat := ofDigits 91 (s.map fun c => c.toNat - 33)

/-- Four printable characters that spell the whole part of `v`. -/
def Spells (s : Bytes) (v : ℚ) : Prop :=
  s.length = 4 ∧ (∀ c ∈ s, 33 ≤ c ∧ c ≤ 123) ∧ (base91Value s : Int) = ⌊v⌋

/-- The character of a digit. -/
def base91Char (d : Nat) : UInt8 := UInt8.ofNat (d + 33)

theorem toNat_base91Char {d : Nat} (h : d < 91) : (base91Char d).toNat = d + 33 := by
  rw [base91Char, UInt8.toNat_ofNat', Nat.mod_eq_of_lt (by omega)]

/-- One turn of the loop for one coordinate: its digit, and what is left of it. Neither the quotient
nor the difference loses anything of a double. -/
theorem base91_step {j : Int} {x : ℚ} {p : Nat} (hj : -100 ≤ j ∧ j ≤ 0) (hx : OnGrid j x) (hlt : x < 2 ^ 27)
    (hp : 0 < p) (hp' : p < 2 ^ 20) :
    ((CDouble.fin x).div (.ofRat p)).toInt = (⌊x / p⌋₊ : Int) ∧
      (CDouble.fin x).sub ((CDouble.ofRat ((⌊x / p⌋₊ : Int) : ℚ)).mul (.ofRat p)) = .fin (x - ⌊x / p⌋₊ * p) ∧
      OnGrid j (x - ⌊x / p⌋₊ * p) := by
  have hx0 : 0 ≤ x := by
    obtain ⟨m, -, rfl⟩ := hx
    positivity
  have hpq : (1 : ℚ) ≤ p := by exact_mod_cast hp
  have hquot : 0 ≤ x / p := by positivity
  have hle : x / p ≤ x := div_le_self hx0 hpq
  have hbig : (2 : ℚ) ^ 27 ≤ 2 ^ 100 := by norm_num
  have hfloor := floor_rounded_div hj hx hp (by omega) (by linarith)
  generalize hd : ⌊x / p⌋₊ = d at hfloor ⊢
  have hdx : (d : ℚ) ≤ x / p := by
    rw [← hd]
    exact Nat.floor_le hquot
  have hwhole : ((d * p : ℕ) : ℚ) ≤ x := by
    push_cast
    rwa [← le_div_iff₀ (by linarith)]
  have hsmall : d * p < 2 ^ 53 := by
    have hlt' : ((d * p : ℕ) : ℚ) < ((2 ^ 27 : ℕ) : ℚ) := by
      push_cast at hwhole ⊢
      linarith
    have hnat : d * p < 2 ^ 27 := by exact_mod_cast hlt'
    omega
  have hd53 : d < 2 ^ 53 := (Nat.le_mul_of_pos_right d hp).trans_lt hsmall
  have hrest := hx.sub_natCast hj.2 hwhole
  refine ⟨?_, ?_, by exact_mod_cast hrest⟩
  · rw [ofRat_natCast (by omega), CDouble.fin_div hx0 (by linarith) (by linarith),
      CDouble.toInt_of_nonneg (rounded_nonneg _), hfloor]
  · have hprod : ((d : ℚ) * p) ≤ 2 ^ 100 := by
      push_cast at hwhole
      linarith
    have hcast : (((d : Int) : ℚ)) = (d : ℚ) := by norm_num
    have hround : rounded ((d : ℚ) * p) = ((d * p : ℕ) : ℚ) := by
      have := rounded_natCast hsmall
      push_cast at this ⊢
      exact this
    rw [hcast, ofRat_natCast hd53, ofRat_natCast (by omega), CDouble.fin_mul (Nat.cast_nonneg d) (by linarith) hprod,
      hround, CDouble.fin_sub (.inl rfl) (by linarith) (by linarith), rounded_of_onGrid (by omega) hrest]
    push_cast
    rfl

/-- The loop takes the digits of both coordinates. -/
theorem base91Loop_eq {n : Nat} (hn : n ≤ 4) {i j : Int} (hi : -100 ≤ i ∧ i ≤ 0) (hj : -100 ≤ j ∧ j ≤ 0) {x y : ℚ}
    (hx : OnGrid i x) (hy : OnGrid j y) (hx' : x < 2 ^ 27) (hy' : y < 2 ^ 27) (s t : Bytes) :
    base91Loop n ((91 : Int) ^ n / 91) (.fin x) (.fin y) s t =
      (s ++ (leadingDigits 91 n x).map base91Char, t ++ (leadingDigits 91 n y).map base91Char) := by
  induction n generalizing x y s t with
  | zero => rw [base91Loop, leadingDigits, leadingDigits, List.map_nil, List.append_nil, List.append_nil]
  | succ n ih =>
    have hpw : (91 : Int) ^ (n + 1) / 91 = 91 ^ n := by
      rw [pow_succ, Int.mul_ediv_cancel _ (by decide)]
    have hcast : (((91 : Int) ^ n : Int) : ℚ) = ((91 ^ n : ℕ) : ℚ) := by push_cast; rfl
    have hpow : ((91 ^ n : ℕ) : ℚ) = ((91 : ℕ) : ℚ) ^ n := by push_cast; rfl
    have hp : 0 < 91 ^ n := Nat.pow_pos (by omega)
    have hp' : 91 ^ n < 2 ^ 20 := by
      calc 91 ^ n ≤ 91 ^ 3 := Nat.pow_le_pow_right (by omega) (by omega)
        _ < 2 ^ 20 := by norm_num
    obtain ⟨hdigit, hrest, hgrid⟩ := base91_step hi hx hx' hp hp'
    obtain ⟨hdigit', hrest', hgrid'⟩ := base91_step hj hy hy' hp hp'
    -- the character a digit leaves
    have hchar : ∀ d : Nat, UInt8.ofInt ((d : Int) + 33) = base91Char d := by
      intro d
      have hmod : ((d : Int) + 33) % 2 ^ 8 = ((d + 33) % 2 ^ 8 : Nat) := by push_cast; rfl
      rw [base91Char, UInt8.ofInt, hmod, Int.toNat_natCast]
      exact UInt8.ofNat_mod_size
    have hbelow : ∀ z : ℚ, z < 2 ^ 27 → z - ⌊z / ((91 ^ n : ℕ) : ℚ)⌋₊ * ((91 ^ n : ℕ) : ℚ) < 2 ^ 27 := by
      intro z hz
      have hnonneg : (0 : ℚ) ≤ ⌊z / ((91 ^ n : ℕ) : ℚ)⌋₊ * ((91 ^ n : ℕ) : ℚ) := by positivity
      linarith
    simp only [base91Loop, hpw, hcast]
    rw [hdigit, hdigit', hrest, hrest', hchar, hchar, ih (by omega) hgrid hgrid' (hbelow x hx') (hbelow y hy'),
      leadingDigits, leadingDigits, List.map_cons, List.map_cons, List.append_assoc, List.append_assoc, hpow]
    rfl

theorem spells_leadingDigits {x : ℚ} (hx : 0 ≤ x) (hlt : x < 91 ^ 4) :
    Spells ((leadingDigits 91 4 x).map base91Char) x := by
  have hsmall : ∀ d ∈ leadingDigits 91 4 x, d < 91 := leadingDigits_lt (by decide) hx (by exact_mod_cast hlt)
  refine ⟨by rw [List.length_map, length_leadingDigits], ?_, ?_⟩
  · intro c hc
    rcases List.mem_map.mp hc with ⟨d, hd, rfl⟩
    have hval := toNat_base91Char (hsmall d hd)
    have hbound := hsmall d hd
    rw [UInt8.le_iff_toNat_le, UInt8.le_iff_toNat_le, hval]
    constructor
    · exact Nat.le_add_left 33 d
    · show d + 33 ≤ 123
      omega
  · have hback : ((leadingDigits 91 4 x).map base91Char).map (fun c => c.toNat - 33) = leadingDigits 91 4 x := by
      rw [List.map_map]
      refine (List.map_congr_left ?_).trans (List.map_id _)
      intro d hd
      show (base91Char d).toNat - 33 = d
      rw [toNat_base91Char (hsmall d hd), Nat.add_sub_cancel]
    rw [base91Value, hback, ofDigits_leadingDigits (by decide) hx (by exact_mod_cast hlt),
      Int.natCast_floor_eq_floor hx]

/-! ## The scaled coordinates -/

theorem latLimit_eq : latLimit = .fin (rounded 89.99999) := ofRat_of_nonneg (by norm_num) (by norm_num)

theorem lonLimit_eq : lonLimit = .fin (rounded 179.99999) := ofRat_of_nonneg (by norm_num) (by norm_num)

/-- The bounds keep off the poles and the date line. -/
theorem limit_values :
    0 < latLimit.value ∧ latLimit.value ≤ 90 - 1 / 2 ^ 17 ∧ 0 < lonLimit.value ∧ lonLimit.value ≤ 180 - 1 / 2 ^ 17 := by
  have hlat := abs_le.mp (rounded_near (q := 89.99999) (k := 7) (by omega) (by norm_num) (by norm_num))
  have hlon := abs_le.mp (rounded_near (q := 179.99999) (k := 8) (by omega) (by norm_num) (by norm_num))
  rw [latLimit_eq, lonLimit_eq, CDouble.value, CDouble.value]
  norm_num at hlat hlon ⊢
  refine ⟨?_, ?_, ?_, ?_⟩ <;> linarith

/-- A scale times what is left of a coordinate, both rounded: it stays on the map, and misses the
exact number by less than `2 ^ -25`. -/
theorem rounded_scale {c b k : Nat} {q : ℚ} (hc : 2 ^ 17 ≤ c) (hcb : c * b = 68566680) (hb : b ≤ 2 ^ k)
    (hck : c * 2 ^ k < 2 ^ 27) (hq : 1 / 2 ^ 17 ≤ q) (hqb : q ≤ b) :
    1 ≤ rounded (c * rounded q) ∧ rounded (c * rounded q) ≤ 68566680 ∧
      |rounded (c * rounded q) - c * q| < 1 / 2 ^ 25 ∧
      ∃ j, (-100 ≤ j ∧ j ≤ 0) ∧ OnGrid j (rounded (c * rounded q)) := by
  have hcq : (2 : ℚ) ^ 17 ≤ c := by exact_mod_cast hc
  have hq0 : 0 ≤ q := le_trans (by norm_num) hq
  have hbk : (b : ℚ) ≤ 2 ^ k := by exact_mod_cast hb
  have hcbq : (c : ℚ) * b = 68566680 := by exact_mod_cast hcb
  have hckq : (c : ℚ) * 2 ^ k < 2 ^ 27 := by exact_mod_cast hck
  have hb53 : b < 2 ^ 53 := by
    have hle : b ≤ c * b := Nat.le_mul_of_pos_left b (by omega)
    omega
  have hk : k ≤ 100 := by
    by_contra hbig
    have hpow : 2 ^ 100 ≤ 2 ^ k := Nat.pow_le_pow_right (by omega) (by omega)
    have hle : 2 ^ k ≤ c * 2 ^ k := Nat.le_mul_of_pos_left _ (by omega)
    omega
  -- what is left of the coordinate, rounded
  have hlow : 1 / 2 ^ 17 ≤ rounded q := by
    have hgrid : OnGrid (-17) ((1 : ℚ) / 2 ^ 17) := ⟨1, by norm_num, by norm_num⟩
    rw [← rounded_of_onGrid (by omega) hgrid]
    exact rounded_mono (by norm_num) hq
  have hhigh : rounded q ≤ b := by
    rw [← rounded_natCast hb53]
    exact rounded_mono hq0 hqb
  have hnear := rounded_near hk hq0 (hqb.trans hbk)
  -- the product
  have hprod : (c : ℚ) * rounded q ≤ 68566680 := by
    rw [← hcbq]
    exact mul_le_mul_of_nonneg_left hhigh (by linarith)
  have hone : (1 : ℚ) ≤ c * rounded q := by
    have hmul := mul_le_mul hcq hlow (by norm_num) (by linarith)
    norm_num at hmul
    linarith
  have hround := rounded_near (q := c * rounded q) (k := 27) (by omega) (by linarith) (by linarith)
  refine ⟨?_, ?_, ?_, ?_⟩
  · have hmono := rounded_mono (by norm_num) hone
    have h1 := rounded_natCast (n := 1) (by norm_num)
    rw [Nat.cast_one] at h1
    rwa [h1] at hmono
  · have hmono := rounded_mono (by linarith) hprod
    have hmax := rounded_natCast (n := 68566680) (by norm_num)
    push_cast at hmax
    rwa [hmax] at hmono
  · -- both roundings, the first one scaled
    have hscaled : |(c : ℚ) * rounded q - c * q| < 1 / 2 ^ 26 := by
      rw [← mul_sub, abs_mul, abs_of_nonneg (by linarith : (0 : ℚ) ≤ c)]
      have hmul := mul_le_mul_of_nonneg_left hnear (by linarith : (0 : ℚ) ≤ c)
      rw [mul_div_assoc'] at hmul
      norm_num at hmul hckq ⊢
      linarith
    have hsplit := abs_sub_le (rounded (c * rounded q)) (c * rounded q) (c * q)
    norm_num at hround hscaled hsplit ⊢
    linarith
  · obtain ⟨j, hj, hj', hgrid⟩ := rounded_onGrid hone (lt_of_le_of_lt hprod (by norm_num))
    exact ⟨j, ⟨by omega, hj'⟩, hgrid⟩

/-- The doubles that are spelled. -/
theorem latval_eq {lat : CDouble} (hfin : lat.isFinite = true) (hle : |lat.value| ≤ latLimit.value) :
    latval lat = .fin (rounded (380926 * rounded (90 - lat.value))) ∧
      1 / 2 ^ 17 ≤ 90 - lat.value ∧ 90 - lat.value ≤ 180 := by
  have hlimit := limit_values
  have habs := abs_le.mp hle
  have hlow : 1 / 2 ^ 17 ≤ 90 - lat.value := by linarith [hlimit.2.1]
  have hhigh : 90 - lat.value ≤ 180 := by
    have : (0 : ℚ) ≤ 1 / 2 ^ 17 := by norm_num
    linarith [hlimit.2.1]
  have h100 : (180 : ℚ) ≤ 2 ^ 100 := by norm_num
  have hrounded : rounded (90 - lat.value) ≤ 180 := by
    have hmono := rounded_mono (le_trans (by norm_num) hlow) hhigh
    have hmax := rounded_natCast (n := 180) (by norm_num)
    push_cast at hmax
    rwa [hmax] at hmono
  refine ⟨?_, hlow, hhigh⟩
  rw [latval, CDouble.fin_sub (CDouble.is_value hfin) (le_trans (by norm_num) hlow) (hhigh.trans h100),
    CDouble.fin_mul (by norm_num) (rounded_nonneg _) (by norm_num; linarith)]

theorem lonval_eq {lon : CDouble} (hfin : lon.isFinite = true) (hle : |lon.value| ≤ lonLimit.value) :
    lonval lon = .fin (rounded (190463 * rounded (180 + lon.value))) ∧
      1 / 2 ^ 17 ≤ 180 + lon.value ∧ 180 + lon.value ≤ 360 := by
  have hlimit := limit_values
  have habs := abs_le.mp hle
  have hlow : 1 / 2 ^ 17 ≤ 180 + lon.value := by linarith [hlimit.2.2.2]
  have hhigh : 180 + lon.value ≤ 360 := by
    have : (0 : ℚ) ≤ 1 / 2 ^ 17 := by norm_num
    linarith [hlimit.2.2.2]
  have h100 : (360 : ℚ) ≤ 2 ^ 100 := by norm_num
  have hrounded : rounded (180 + lon.value) ≤ 360 := by
    have hmono := rounded_mono (le_trans (by norm_num) hlow) hhigh
    have hmax := rounded_natCast (n := 360) (by norm_num)
    push_cast at hmax
    rwa [hmax] at hmono
  refine ⟨?_, hlow, hhigh⟩
  rw [lonval, CDouble.fin_add (CDouble.is_value hfin) (le_trans (by norm_num) hlow) (hhigh.trans h100),
    CDouble.fin_mul (by norm_num) (rounded_nonneg _) (by norm_num; linarith)]

/-- A double the loop spells: within four digits, and nearly the exact number `exact`. -/
structure Scaled (d : CDouble) (exact : ℚ) : Prop where
  fin : d = .fin d.value
  low : 1 ≤ d.value
  high : d.value ≤ 68566680
  near : |d.value - exact| < 1 / 2 ^ 25
  grid : ∃ j, (-100 ≤ j ∧ j ≤ 0) ∧ OnGrid j d.value

variable {lat lon lat' lon' : CDouble}

theorem latval_near (h : OnMap lat lon) : Scaled (latval lat) (380926 * (90 - lat.value)) := by
  obtain ⟨heq, hlow, hhigh⟩ := latval_eq h.lat_finite h.lat_le
  have hscale := rounded_scale (c := 380926) (b := 180) (k := 8) (by norm_num) (by norm_num) (by norm_num) (by norm_num)
    hlow (by exact_mod_cast hhigh)
  rw [Nat.cast_ofNat] at hscale
  rw [heq]
  exact ⟨rfl, hscale.1, hscale.2.1, hscale.2.2.1, hscale.2.2.2⟩

theorem lonval_near (h : OnMap lat lon) : Scaled (lonval lon) (190463 * (180 + lon.value)) := by
  obtain ⟨heq, hlow, hhigh⟩ := lonval_eq h.lon_finite h.lon_le
  have hscale := rounded_scale (c := 190463) (b := 360) (k := 9) (by norm_num) (by norm_num) (by norm_num) (by norm_num)
    hlow (by exact_mod_cast hhigh)
  rw [Nat.cast_ofNat] at hscale
  rw [heq]
  exact ⟨rfl, hscale.1, hscale.2.1, hscale.2.2.1, hscale.2.2.2⟩

/-- A latitude further north has no larger double. -/
theorem latval_anti (h : OnMap lat lon) (h' : OnMap lat' lon') (hle : lat.value ≤ lat'.value) :
    (latval lat').value ≤ (latval lat).value := by
  obtain ⟨heq, -, -⟩ := latval_eq h.lat_finite h.lat_le
  obtain ⟨heq', hlow', -⟩ := latval_eq h'.lat_finite h'.lat_le
  have hinner : rounded (90 - lat'.value) ≤ rounded (90 - lat.value) :=
    rounded_mono (le_trans (by norm_num) hlow') (by linarith)
  have hnonneg := rounded_nonneg (90 - lat'.value)
  rw [heq, heq', CDouble.value, CDouble.value]
  exact rounded_mono (by positivity) (by linarith)

theorem lonval_mono (h : OnMap lat lon) (h' : OnMap lat' lon') (hle : lon.value ≤ lon'.value) :
    (lonval lon).value ≤ (lonval lon').value := by
  obtain ⟨heq, hlow, -⟩ := lonval_eq h.lon_finite h.lon_le
  obtain ⟨heq', -, -⟩ := lonval_eq h'.lon_finite h'.lon_le
  have hinner : rounded (180 + lon.value) ≤ rounded (180 + lon'.value) :=
    rounded_mono (le_trans (by norm_num) hlow) (by linarith)
  have hnonneg := rounded_nonneg (180 + lon.value)
  rw [heq, heq', CDouble.value, CDouble.value]
  exact rounded_mono (by positivity) (by linarith)

/-- The characters spell the whole parts of the two doubles. -/
theorem positionStrings_spell (h : OnMap lat lon) :
    Spells (positionStrings lat lon).1 (latval lat).value ∧ Spells (positionStrings lat lon).2 (lonval lon).value := by
  have hy := latval_near h
  have hx := lonval_near h
  obtain ⟨i, hi, hgrid⟩ := hy.grid
  obtain ⟨j, hj, hgrid'⟩ := hx.grid
  have hloop := base91Loop_eq (n := 4) (le_refl 4) hi hj hgrid hgrid' (lt_of_le_of_lt hy.high (by norm_num))
    (lt_of_le_of_lt hx.high (by norm_num)) [] []
  rw [List.nil_append, List.nil_append, ← hy.fin, ← hx.fin] at hloop
  have hstart : positionStrings lat lon = _ := hloop
  -- the scales keep the far corner of the map below 91 ^ 4
  have hcorner : (68566680 : ℚ) < 91 ^ 4 := by norm_num
  rw [hstart]
  exact ⟨spells_leadingDigits (le_trans zero_le_one hy.low) (hy.high.trans_lt hcorner),
    spells_leadingDigits (le_trans zero_le_one hx.low) (hx.high.trans_lt hcorner)⟩

/-! ## Reading back -/

/-- A scaled value is spelled to within less than one. -/
theorem Spells.near {s : Bytes} {v : ℚ} (h : Spells s v) :
    (base91Value s : ℚ) ≤ v ∧ v < (base91Value s : ℚ) + 1 := by
  have hcast : ((base91Value s : Int) : ℚ) = (⌊v⌋ : Int) := by rw [h.2.2]
  rw [Int.cast_natCast] at hcast
  rw [hcast]
  exact ⟨Int.floor_le v, Int.lt_floor_add_one v⟩

theorem Spells.mono {s t : Bytes} {v w : ℚ} (hs : Spells s v) (ht : Spells t w) (h : v ≤ w) :
    base91Value s ≤ base91Value t := by
  have hfloor := Int.floor_le_floor h
  rw [← hs.2.2, ← ht.2.2] at hfloor
  exact_mod_cast hfloor

/-- Away from the whole numbers the double has the whole part of the exact number. -/
theorem Scaled.floor_eq {d : CDouble} {exact : ℚ} (h : Scaled d exact)
    (haway : ∀ n : Int, 1 / 2 ^ 25 ≤ |exact - n|) : ⌊d.value⌋ = ⌊exact⌋ := by
  have hnear := abs_lt.mp h.near
  have hfloor := Int.floor_le exact
  have hnext := Int.lt_floor_add_one exact
  have hbelow := haway ⌊exact⌋
  have habove := haway (⌊exact⌋ + 1)
  rw [abs_of_nonneg (by linarith)] at hbelow
  rw [Int.cast_add, Int.cast_one, abs_of_nonpos (by linarith)] at habove
  rw [Int.floor_eq_iff]
  constructor <;> linarith

theorem length_positionText (log : CDouble → CDouble) (hlat : (positionStrings lat lon).1.length = 4)
    (hlon : (positionStrings lat lon).2.length = 4) (speed course : Int) (t c : UInt8) :
    (positionText log lat lon speed course t c).length ≤ 13 := by
  have htail : (positionTail log speed course).length = 3 := by
    rw [positionTail]
    split <;> rfl
  have hcut : (cstr (positionTail log speed course)).length ≤ 3 := by
    rw [← htail]
    exact (List.takeWhile_sublist _).length_le
  simp only [positionText, List.cons_append, List.length_cons, List.length_append, hlat, hlon]
  omega

/-- The bounds are finite. -/
theorem limit_eq_fin : latLimit = .fin latLimit.value ∧ lonLimit = .fin lonLimit.value := by
  rw [latLimit_eq, lonLimit_eq]
  exact ⟨rfl, rfl⟩

/-- The bounds are tested as `OnMap` says. -/
theorem offMap_iff (hlat : lat.isNan = false) (hlon : lon.isNan = false) :
    (lat.lt latLimit.neg || latLimit.lt lat || lon.lt lonLimit.neg || lonLimit.lt lon) = true ↔ ¬OnMap lat lon := by
  obtain ⟨hpos, -, hpos', -⟩ := limit_values
  have hlat' := outside_iff hpos hlat
  have hlon' := outside_iff hpos' hlon
  rw [← limit_eq_fin.1] at hlat'
  rw [← limit_eq_fin.2] at hlon'
  rw [Bool.or_assoc, Bool.or_eq_true, hlat', hlon', ← not_and_or, not_iff_not]
  constructor
  · rintro ⟨⟨h₁, h₂⟩, h₃, h₄⟩
    exact ⟨h₁, h₃, h₂, h₄⟩
  · intro h
    exact ⟨⟨h.lat_finite, h.lat_le⟩, h.lon_finite, h.lon_le⟩

/-! ## No number

A NaN is neither above nor below a bound, so it passes; its four characters are `!`. -/

/-- The characters of the latitude have nothing to do with the longitude. -/
theorem base91Loop_fst (n : Nat) (pw : Int) (x y y' : CDouble) (s t t' : Bytes) :
    (base91Loop n pw x y s t).1 = (base91Loop n pw x y' s t').1 := by
  induction n generalizing pw x y y' s t t' with
  | zero => rfl
  | succ n ih => exact ih _ _ _ _ _ _ _

theorem base91Loop_snd (n : Nat) (pw : Int) (x x' y : CDouble) (s s' t : Bytes) :
    (base91Loop n pw x y s t).2 = (base91Loop n pw x' y s' t).2 := by
  induction n generalizing pw x x' y s s' t with
  | zero => rfl
  | succ n ih => exact ih _ _ _ _ _ _ _

theorem base91Loop_nan (n : Nat) (pw : Int) (neg neg' : Bool) (s t : Bytes) :
    base91Loop n pw (.nan neg) (.nan neg') s t = (s ++ List.replicate n 33, t ++ List.replicate n 33) := by
  induction n generalizing pw s t with
  | zero => rw [base91Loop, List.replicate_zero, List.append_nil, List.append_nil]
  | succ n ih =>
    have hturn : base91Loop (n + 1) pw (.nan neg) (.nan neg') s t =
        base91Loop n (pw / 91) (.nan neg) (.nan neg') (s ++ [33]) (t ++ [33]) := rfl
    rw [hturn, ih, List.append_assoc, List.append_assoc]
    rfl

/-- Four printable characters. -/
def FourChars (s : Bytes) : Prop := s.length = 4 ∧ ∀ c ∈ s, 33 ≤ c ∧ c ≤ 123

theorem fourChars_bangs : FourChars (List.replicate 4 33) := by
  refine ⟨rfl, ?_⟩
  intro c hc
  rw [List.eq_of_mem_replicate hc]
  decide

/-- Whatever passes the tests of the bounds, no number included, makes four characters of each
coordinate. -/
theorem positionStrings_fourChars
    (h : ¬(lat.lt latLimit.neg || latLimit.lt lat || lon.lt lonLimit.neg || lonLimit.lt lon) = true) :
    FourChars (positionStrings lat lon).1 ∧ FourChars (positionStrings lat lon).2 := by
  obtain ⟨hpos, -, hpos', -⟩ := limit_values
  have hzero : |(CDouble.fin 0).value| ≤ latLimit.value ∧ |(CDouble.fin 0).value| ≤ lonLimit.value := by
    rw [CDouble.value, abs_zero]
    exact ⟨hpos.le, hpos'.le⟩
  rw [Bool.or_assoc, Bool.or_eq_true, not_or] at h
  constructor
  · rw [positionStrings, base91Loop_fst _ _ _ _ (lonval (.fin 0)) _ _ []]
    cases hnan : lat.isNan with
    | true =>
      obtain ⟨neg, rfl⟩ : ∃ neg, lat = .nan neg := by
        cases lat with
        | nan neg => exact ⟨neg, rfl⟩
        | _ => cases hnan
      have hlat : latval (.nan neg) = .nan !neg := rfl
      rw [hlat, base91Loop_fst _ _ _ _ (.nan false) _ _ [], base91Loop_nan]
      exact fourChars_bangs
    | false =>
      have hin := (outside_iff hpos hnan).not.mp (by rw [← limit_eq_fin.1]; exact h.1)
      have hon : OnMap lat (.fin 0) := ⟨(not_not.mp hin).1, rfl, (not_not.mp hin).2, hzero.2⟩
      exact ⟨(positionStrings_spell hon).1.1, (positionStrings_spell hon).1.2.1⟩
  · rw [positionStrings, base91Loop_snd _ _ _ (latval (.fin 0)) _ _ []]
    cases hnan : lon.isNan with
    | true =>
      obtain ⟨neg, rfl⟩ : ∃ neg, lon = .nan neg := by
        cases lon with
        | nan neg => exact ⟨neg, rfl⟩
        | _ => cases hnan
      have hlon : lonval (.nan neg) = .nan neg := rfl
      rw [hlon, base91Loop_snd _ _ _ (.nan false) _ _ [], base91Loop_nan]
      exact fourChars_bangs
    | false =>
      have hin := (outside_iff hpos' hnan).not.mp (by rw [← limit_eq_fin.2]; exact h.2)
      have hon : OnMap (.fin 0) lon := ⟨rfl, (not_not.mp hin).1, hzero.1, (not_not.mp hin).2⟩
      exact ⟨(positionStrings_spell hon).2.1, (positionStrings_spell hon).2.2.1⟩

/-! ## The report -/

/-- What is read back misses the coordinate by less than `(1 + 2 ^ -25)` units of the last place. -/
theorem Spells.decoded {s : Bytes} {d : CDouble} {exact scale : ℚ} (hs : Spells s d.value) (h : Scaled d exact)
    (hscale : 0 < scale) : |(base91Value s : ℚ) / scale - exact / scale| < (1 + 1 / 2 ^ 25) / scale := by
  have hspelled := hs.near
  have hnear := abs_lt.mp h.near
  rw [← sub_div, abs_div, abs_of_pos hscale]
  refine div_lt_div_of_pos_right ?_ hscale
  rw [abs_lt]
  constructor <;> linarith

/-- Off the map there is no position. On it the text holds, for a symbol that is accepted, four
characters of each coordinate, which spell the whole part of the double `latval` or `lonval`.
That double misses the exact scaled coordinate by less than `2 ^ -25`: where the exact one is no
nearer to a whole number, its whole part is what is spelled. Read back, the characters miss the
coordinate by less than `1 + 2 ^ -25` units of the last place, and they keep the order of the
coordinates. -/
theorem aprsMakePosition_spec (log : CDouble → CDouble) (outsize : Nat) (speed course : Int) (symbol : Option Bytes) :
    (∀ lat lon : CDouble, lat.isNan = false → lon.isNan = false → ¬OnMap lat lon →
      aprsMakePosition log outsize lat lon speed course symbol = none) ∧
    (∀ lat lon : CDouble, OnMap lat lon →
      aprsMakePosition log outsize lat lon speed course symbol =
        (positionSymbol symbol).map (fun s =>
          snprintfS outsize (positionText log lat lon speed course s.1 s.2)) ∧
      (14 ≤ outsize → ∀ t c : UInt8, snprintfS outsize (positionText log lat lon speed course t c) =
        overlay t :: ((positionStrings lat lon).1 ++ (positionStrings lat lon).2) ++
          c :: cstr (positionTail log speed course)) ∧
      Spells (positionStrings lat lon).1 (latval lat).value ∧
      Spells (positionStrings lat lon).2 (lonval lon).value ∧
      |(latval lat).value - 380926 * (90 - lat.value)| < 1 / 2 ^ 25 ∧
      |(lonval lon).value - 190463 * (180 + lon.value)| < 1 / 2 ^ 25 ∧
      ((∀ n : Int, 1 / 2 ^ 25 ≤ |380926 * (90 - lat.value) - n|) →
        (base91Value (positionStrings lat lon).1 : Int) = ⌊380926 * (90 - lat.value)⌋) ∧
      ((∀ n : Int, 1 / 2 ^ 25 ≤ |190463 * (180 + lon.value) - n|) →
        (base91Value (positionStrings lat lon).2 : Int) = ⌊190463 * (180 + lon.value)⌋) ∧
      |90 - (base91Value (positionStrings lat lon).1 : ℚ) / 380926 - lat.value| < (1 + 1 / 2 ^ 25) / 380926 ∧
      |-180 + (base91Value (positionStrings lat lon).2 : ℚ) / 190463 - lon.value| < (1 + 1 / 2 ^ 25) / 190463) ∧
    ∀ lat lon lat' lon' : CDouble, OnMap lat lon → OnMap lat' lon' →
      (lat.value ≤ lat'.value → base91Value (positionStrings lat' lon').1 ≤ base91Value (positionStrings lat lon).1) ∧
      (lon.value ≤ lon'.value → base91Value (positionStrings lat lon).2 ≤ base91Value (positionStrings lat' lon').2) := by
  refine ⟨?_, ?_, ?_⟩
  · intro lat lon hlat hlon hoff
    rw [aprsMakePosition, if_pos ((offMap_iff hlat hlon).mpr hoff)]
  · intro lat lon hon
    have hspell := positionStrings_spell hon
    have hlat := latval_near hon
    have hlon := lonval_near hon
    refine ⟨?_, ?_, hspell.1, hspell.2, hlat.near, hlon.near, ?_, ?_, ?_, ?_⟩
    · have hnan : ∀ {d : CDouble}, d.isFinite = true → d.isNan = false := by
        intro d hd
        cases d with
        | nan neg => cases hd
        | _ => rfl
      have hin := (offMap_iff (hnan hon.lat_finite) (hnan hon.lon_finite)).not.mpr (not_not.mpr hon)
      rw [aprsMakePosition, if_neg hin]
      cases positionSymbol symbol with
      | none => rfl
      | some s => rfl
    · intro hsize t c
      have hlen := length_positionText log hspell.1.1 hspell.2.1 speed course t c
      exact List.take_of_length_le (by omega)
    · intro haway
      rw [hspell.1.2.2, hlat.floor_eq haway]
    · intro haway
      rw [hspell.2.2.2, hlon.floor_eq haway]
    · have hscale : (0 : ℚ) < 380926 := by norm_num
      have hread := hspell.1.decoded hlat hscale
      rw [abs_sub_comm] at hread
      have hsame : 90 - (base91Value (positionStrings lat lon).1 : ℚ) / 380926 - lat.value =
          380926 * (90 - lat.value) / 380926 - (base91Value (positionStrings lat lon).1 : ℚ) / 380926 := by ring
      rwa [hsame]
    · have hscale : (0 : ℚ) < 190463 := by norm_num
      have hread := hspell.2.decoded hlon hscale
      have hsame : -180 + (base91Value (positionStrings lat lon).2 : ℚ) / 190463 - lon.value =
          (base91Value (positionStrings lat lon).2 : ℚ) / 190463 - 190463 * (180 + lon.value) / 190463 := by ring
      rwa [hsame]
  · intro lat lon lat' lon' hon hon'
    have hspell := positionStrings_spell hon
    have hspell' := positionStrings_spell hon'
    exact ⟨fun hle => hspell'.1.mono hspell.1 (latval_anti hon hon' hle),
      fun hle => hspell.2.mono hspell'.2 (lonval_mono hon hon' hle)⟩

/-- The doubles of a place in Flanders. -/
def flandersLat : CDouble := .ofRat 51.2095

def flandersLon : CDouble := .ofRat 2.9247

theorem aprsMakePosition_spec_on0xyz :
    aprsMakePosition id 64 flandersLat flandersLon (-1) (-1) (some (lit "Mn")) = some (lit "M4XB$O69En  A") ∧
      aprsMakePosition id 64 (.fin 90) flandersLon (-1) (-1) (some (lit "Mn")) = none ∧
      |90 - (base91Value (positionStrings flandersLat flandersLon).1 : ℚ) / 380926 - flandersLat.value| <
        (1 + 1 / 2 ^ 25) / 380926 ∧
      base91Value (positionStrings flandersLat flandersLon).1 ≤ base91Value (positionStrings (.fin 51) (.fin 3)).1 := by
  have hon : OnMap flandersLat flandersLon := ⟨by decide +kernel, by decide +kernel, by decide +kernel, by decide +kernel⟩
  have hsouth : OnMap (.fin 51) (.fin 3) := ⟨rfl, rfl, by decide +kernel, by decide +kernel⟩
  have hpole : ¬OnMap (.fin 90) flandersLon := fun h => absurd h.lat_le (by decide +kernel)
  have hspec := aprsMakePosition_spec id 64 (-1) (-1) (some (lit "Mn"))
  refine ⟨?_, hspec.1 (.fin 90) flandersLon rfl (by decide +kernel) hpole,
    (hspec.2.1 flandersLat flandersLon hon).2.2.2.2.2.2.2.2.1, ?_⟩
  · rw [(hspec.2.1 flandersLat flandersLon hon).1]
    decide +kernel
  · exact (hspec.2.2 (.fin 51) (.fin 3) flandersLat flandersLon hsouth hon).1 (by decide +kernel)

/-- A latitude of `2 ^ -60` degrees, just north of the equator: `90 - lat` is rounded up to 90, so
that the text is the equator's, one more than the whole part of the exact number. -/
theorem equator_reads_north :
    OnMap (.fin (1 / 2 ^ 60)) (.fin 0) ∧
      (base91Value (positionStrings (.fin (1 / 2 ^ 60)) (.fin 0)).1 : Int) = 34283340 ∧
      ⌊380926 * (90 - (CDouble.fin (1 / 2 ^ 60)).value)⌋ = 34283339 := by
  refine ⟨⟨rfl, rfl, by decide +kernel, by decide +kernel⟩, by decide +kernel, by decide +kernel⟩

end Meshcore
