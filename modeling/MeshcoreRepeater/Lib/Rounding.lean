import MeshcoreRepeater.Lib.DoubleArith

/-! # Rounding of non-negative numbers

`rounded q` is the value of the double nearest to a non-negative `q`. It keeps the order
(`rounded_mono`), it leaves the numbers with 53 significant bits alone (`rounded_of_onGrid`),
and it keeps the whole part of a quotient of such a number by a whole one
(`floor_rounded_div`): just below a whole number a double quotient never lies so near that it
is rounded up to it.

Main results: `rounded_mono`, `rounded_of_onGrid`, `floor_rounded_div`, `ofRat_of_nonneg`.
-/

namespace ByteLib

/-! ## The nearest whole number -/

/-- Nothing is lost on the way through the naturals. -/
theorem toNat_floor_cast {q : ℚ} (h : 0 ≤ q) : ((⌊q⌋.toNat : ℕ) : ℚ) = (⌊q⌋ : ℚ) := by
  have hcast : ((⌊q⌋.toNat : ℕ) : ℤ) = ⌊q⌋ := Int.toNat_of_nonneg (Int.floor_nonneg.mpr h)
  exact_mod_cast hcast

/-- A whole number is not rounded. -/
theorem roundEven_natCast (n : Nat) : roundEven (n : ℚ) = n := by
  simp [roundEven]

/-- Rounding does not go below the floor. -/
theorem le_roundEven_floor (q : ℚ) : ⌊q⌋.toNat ≤ roundEven q := by
  unfold roundEven
  simp only
  split
  · exact le_refl _
  · exact Nat.le_succ _

/-- It keeps the order. -/
theorem roundEven_mono {a b : ℚ} (h : a ≤ b) : roundEven a ≤ roundEven b := by
  have hfloor : ⌊a⌋.toNat ≤ ⌊b⌋.toNat := Int.toNat_le_toNat (Int.floor_le_floor h)
  rcases hfloor.lt_or_eq with hlt | heq
  · have hup : roundEven a ≤ ⌊a⌋.toNat + 1 := by
      unfold roundEven
      simp only
      split
      · exact Nat.le_succ _
      · exact le_refl _
    exact (hup.trans hlt).trans (le_roundEven_floor b)
  · -- the same whole part: what rounds `a` up rounds `b` up
    unfold roundEven
    simp only [heq]
    generalize ⌊b⌋.toNat = n
    split
    · split
      · exact le_refl _
      · exact Nat.le_succ _
    · rename_i hup
      rw [if_neg]
      rintro (hb | ⟨hb, hparity⟩)
      · exact hup (.inl (by linarith))
      · rcases lt_or_eq_of_le (show a - n ≤ 1 / 2 by linarith) with ha | ha
        · exact hup (.inl ha)
        · exact hup (.inr ⟨ha, hparity⟩)

/-- Short of a whole number by more than a half is rounded to less. -/
theorem roundEven_lt {q : ℚ} {n : Nat} (h0 : 0 ≤ q) (h : q < n - 1 / 2) : roundEven q < n := by
  have hnear := (abs_le.mp (roundEven_near h0)).2
  have hlt : (roundEven q : ℚ) < n := by linarith
  exact_mod_cast hlt

/-! ## The leading bit -/

/-- The logarithm is not too small, -/
theorem lt_floorLog {q : ℚ} (h : 0 < q) : q < (2 : ℚ) ^ (floorLog 2 q + 1) := by
  unfold floorLog
  split
  · rename_i hone
    have hfloor := toNat_floor_cast h.le
    have hlog : ⌊q⌋.toNat < 2 ^ (Nat.log 2 ⌊q⌋.toNat + 1) := Nat.lt_pow_succ_log_self (by omega) _
    have hle : ⌊q⌋.toNat + 1 ≤ 2 ^ (Nat.log 2 ⌊q⌋.toNat + 1) := hlog
    have hlt := Int.lt_floor_add_one q
    have hcast : ((⌊q⌋.toNat : ℕ) : ℚ) + 1 ≤ 2 ^ (Nat.log 2 ⌊q⌋.toNat + 1) := by exact_mod_cast hle
    have hpow : (2 : ℚ) ^ ((Nat.log 2 ⌊q⌋.toNat : Int) + 1) = 2 ^ (Nat.log 2 ⌊q⌋.toNat + 1) := by
      exact_mod_cast zpow_natCast (2 : ℚ) (Nat.log 2 ⌊q⌋.toNat + 1)
    rw [hpow]
    linarith
  · rename_i hsmall
    have hinv : 1 < 1 / q := by
      rw [one_div]
      exact (one_lt_inv₀ h).mpr (not_le.mp hsmall)
    generalize hk : ⌈1 / q⌉.toNat = k
    have hceil : 0 ≤ ⌈1 / q⌉ := Int.ceil_nonneg (by linarith)
    have hcast : ((k : ℕ) : ℚ) = (⌈1 / q⌉ : ℚ) := by
      have hint : ((k : ℕ) : ℤ) = ⌈1 / q⌉ := by rw [← hk]; exact Int.toNat_of_nonneg hceil
      exact_mod_cast hint
    have hone : 1 < k := by
      have hle := Int.le_ceil (1 / q)
      have hlt : (1 : ℚ) < k := by linarith
      exact_mod_cast hlt
    have hpred : 2 ^ (Nat.clog 2 k - 1) < k := Nat.pow_pred_clog_lt_self (by omega) hone
    have hclog : 1 ≤ Nat.clog 2 k := Nat.clog_pos (by omega) hone
    -- `k - 1` is below `1 / q`
    have hbelow : ((2 : ℚ) ^ (Nat.clog 2 k - 1)) < 1 / q := by
      have hle : ((2 : ℚ) ^ (Nat.clog 2 k - 1)) ≤ k - 1 := by
        have hnat : 2 ^ (Nat.clog 2 k - 1) + 1 ≤ k := hpred
        have hq : ((2 : ℚ) ^ (Nat.clog 2 k - 1)) + 1 ≤ k := by exact_mod_cast hnat
        linarith
      have hlt := Int.ceil_lt_add_one (1 / q)
      linarith
    have hexp : -(Nat.clog 2 k : Int) + 1 = -((Nat.clog 2 k - 1 : Nat) : Int) := by omega
    rw [hexp, zpow_neg, zpow_natCast, lt_inv_comm₀ h (by positivity), ← one_div]
    exact hbelow

/-- A bound from above, -/
theorem floorLog_lt {q : ℚ} {k : Int} (h : 0 < q) (hlt : q < 2 ^ k) : floorLog 2 q < k := by
  have hpow := (floorLog_le h).trans_lt hlt
  exact (zpow_lt_zpow_iff_right₀ (by norm_num)).mp hpow

/-- and one from below. -/
theorem le_floorLog {q : ℚ} {k : Int} (h : 0 < q) (hle : 2 ^ k ≤ q) : k ≤ floorLog 2 q := by
  have hpow := hle.trans_lt (lt_floorLog h)
  have := (zpow_lt_zpow_iff_right₀ (by norm_num : (1 : ℚ) < 2)).mp hpow
  omega

/-! ## The nearest double -/

/-- The exponent of the last place of a double near `q`. -/
def lastPlace (q : ℚ) : Int := max (floorLog 2 q - 52) (-1074)

/-- `q` in units of the last place. -/
def inPlaces (q : ℚ) : ℚ := q * 2 ^ (-lastPlace q)

/-- The value of the double nearest to a non-negative `q`. -/
def rounded (q : ℚ) : ℚ := (roundEven (inPlaces q) : ℚ) * 2 ^ lastPlace q

/-- Scaling keeps the sign. -/
theorem inPlaces_nonneg {q : ℚ} (h : 0 ≤ q) : 0 ≤ inPlaces q := mul_nonneg h (by positivity)

/-- Scaled there and back. -/
theorem inPlaces_mul (q : ℚ) : inPlaces q * 2 ^ lastPlace q = q := by
  rw [inPlaces, mul_assoc, ← zpow_add₀ (by norm_num), neg_add_cancel, zpow_zero, mul_one]

/-- Rounding keeps the sign. -/
theorem rounded_nonneg (q : ℚ) : 0 ≤ rounded q := by
  unfold rounded
  positivity

/-- Zero is a double. -/
@[simp] theorem rounded_zero : rounded 0 = 0 := by
  have hzero : inPlaces 0 = ((0 : ℕ) : ℚ) := by simp [inPlaces]
  rw [rounded, hzero, roundEven_natCast, Nat.cast_zero, zero_mul]

/-- 53 bits are enough for what is rounded. -/
theorem inPlaces_lt {q : ℚ} (h : 0 < q) : inPlaces q < 2 ^ (53 : Nat) := by
  have hlog := lt_floorLog h
  have hplace : floorLog 2 q + 1 ≤ 53 + lastPlace q := by unfold lastPlace; omega
  have hlt : q < 2 ^ (53 + lastPlace q) := hlog.trans_le (zpow_le_zpow_right₀ (by norm_num) hplace)
  rw [inPlaces, zpow_neg, ← div_eq_mul_inv, div_lt_iff₀ (by positivity)]
  rw [zpow_add₀ (by norm_num)] at hlt
  exact_mod_cast hlt

/-- After a carry there may be a 54th bit, with zeros behind it. -/
theorem roundEven_inPlaces_le {q : ℚ} (h : 0 < q) : roundEven (inPlaces q) ≤ 2 ^ 53 := by
  have hmono := roundEven_mono (inPlaces_lt h).le
  have hnat : roundEven ((2 : ℚ) ^ (53 : Nat)) = 2 ^ 53 := by
    have hcast : ((2 : ℚ) ^ (53 : Nat)) = ((2 ^ 53 : ℕ) : ℚ) := by norm_num
    rw [hcast, roundEven_natCast]
  omega

/-- and 52 are needed, above the subnormals. -/
theorem le_inPlaces {q : ℚ} (h : 0 < q) (hnormal : lastPlace q = floorLog 2 q - 52) : ((2 ^ 52 : ℕ) : ℚ) ≤ inPlaces q := by
  have hle := floorLog_le h
  rw [inPlaces, zpow_neg, ← div_eq_mul_inv, le_div_iff₀ (by positivity), hnormal]
  have hsplit : ((2 ^ 52 : ℕ) : ℚ) * 2 ^ (floorLog 2 q - 52) = 2 ^ floorLog 2 q := by
    have hcast : ((2 ^ 52 : ℕ) : ℚ) = 2 ^ (52 : Int) := by norm_num
    rw [hcast, ← zpow_add₀ (by norm_num)]
    congr 1
    omega
  rw [hsplit]
  exact hle

/-- A number of 53 bits in units of `2 ^ j`. -/
def OnGrid (j : Int) (q : ℚ) : Prop := ∃ m : Nat, m < 2 ^ 53 ∧ q = m * 2 ^ j

/-- Such a number is a double. -/
theorem rounded_of_onGrid {j : Int} {q : ℚ} (hj : -1074 ≤ j) (h : OnGrid j q) : rounded q = q := by
  obtain ⟨m, hm, rfl⟩ := h
  rcases Nat.eq_zero_or_pos m with rfl | hpos
  · simp
  have hq : (0 : ℚ) < (m : ℚ) * 2 ^ j := by positivity
  have hlt : ((m : ℚ) * 2 ^ j) < 2 ^ (53 + j) := by
    rw [zpow_add₀ (by norm_num)]
    have hcast : (m : ℚ) < 2 ^ (53 : Int) := by exact_mod_cast hm
    exact mul_lt_mul_of_pos_right hcast (by positivity)
  have hlog := floorLog_lt hq hlt
  -- so the last place is no higher than the unit
  have hplace : lastPlace ((m : ℚ) * 2 ^ j) ≤ j := by unfold lastPlace; omega
  -- in units of the last place it is a whole number
  obtain ⟨e, he⟩ : ∃ e : Nat, j - lastPlace ((m : ℚ) * 2 ^ j) = e := ⟨_, (Int.toNat_of_nonneg (by omega)).symm⟩
  have hwhole : inPlaces ((m : ℚ) * 2 ^ j) = ((m * 2 ^ e : ℕ) : ℚ) := by
    rw [inPlaces, mul_assoc, ← zpow_add₀ (by norm_num), ← sub_eq_add_neg, he, zpow_natCast]
    push_cast
    rfl
  rw [rounded, hwhole, roundEven_natCast, ← hwhole, inPlaces_mul]

/-- Whole numbers of 53 bits are doubles. -/
theorem rounded_natCast {n : Nat} (h : n < 2 ^ 53) : rounded (n : ℚ) = n :=
  rounded_of_onGrid (j := 0) (by omega) ⟨n, h, by simp⟩

/-- Rounding keeps the order. -/
theorem rounded_mono {q r : ℚ} (hq : 0 ≤ q) (h : q ≤ r) : rounded q ≤ rounded r := by
  rcases hq.lt_or_eq with hpos | rfl
  swap
  · rw [rounded_zero]
    exact rounded_nonneg r
  have hr : 0 < r := hpos.trans_le h
  have hlog : floorLog 2 q ≤ floorLog 2 r := le_floorLog hr ((floorLog_le hpos).trans h)
  have hplace : lastPlace q ≤ lastPlace r := by unfold lastPlace; omega
  rcases hplace.lt_or_eq with hlt | heq
  · -- a place further up: `2 ^ (lastPlace r + 52)` lies between
    have htop : (roundEven (inPlaces q) : ℚ) ≤ 2 ^ (53 : Int) := by exact_mod_cast roundEven_inPlaces_le hpos
    have hnormal : lastPlace r = floorLog 2 r - 52 := by unfold lastPlace at hlt ⊢; omega
    have hlow := le_inPlaces hr hnormal
    have hbottom : 2 ^ 52 ≤ roundEven (inPlaces r) := by
      have hmono := roundEven_mono hlow
      rwa [roundEven_natCast] at hmono
    have hcast : (2 : ℚ) ^ (52 : Int) ≤ roundEven (inPlaces r) := by exact_mod_cast hbottom
    calc rounded q ≤ 2 ^ (53 : Int) * 2 ^ lastPlace q :=
          mul_le_mul_of_nonneg_right htop (by positivity)
      _ = 2 ^ (53 + lastPlace q) := (zpow_add₀ (by norm_num) _ _).symm
      _ ≤ 2 ^ (52 + lastPlace r) := zpow_le_zpow_right₀ (by norm_num) (by omega)
      _ = 2 ^ (52 : Int) * 2 ^ lastPlace r := zpow_add₀ (by norm_num) _ _
      _ ≤ rounded r := mul_le_mul_of_nonneg_right hcast (by positivity)
  · have hscaled : inPlaces q ≤ inPlaces r := by
      rw [inPlaces, inPlaces, heq]
      exact mul_le_mul_of_nonneg_right h (by positivity)
    have hround : (roundEven (inPlaces q) : ℚ) ≤ roundEven (inPlaces r) := by
      exact_mod_cast roundEven_mono hscaled
    rw [rounded, rounded, heq]
    exact mul_le_mul_of_nonneg_right hround (by positivity)

/-- What is rounded is a number of 53 bits, of whole units and parts of them. -/
theorem rounded_onGrid {q : ℚ} (hone : 1 ≤ q) (hlt : q < 2 ^ (52 : Nat)) : ∃ j, -52 ≤ j ∧ j ≤ 0 ∧ OnGrid j (rounded q) := by
  have hpos : 0 < q := by linarith
  have hlow : 0 ≤ floorLog 2 q := le_floorLog hpos (by simpa using hone)
  have hhigh : floorLog 2 q < 52 := floorLog_lt hpos (by exact_mod_cast hlt)
  have hplace : -52 ≤ lastPlace q ∧ lastPlace q < 0 := by unfold lastPlace; omega
  rcases (roundEven_inPlaces_le hpos).lt_or_eq with hsmall | hcarry
  · exact ⟨lastPlace q, hplace.1, by omega, _, hsmall, rfl⟩
  · -- a carry: half as many of the next places
    refine ⟨lastPlace q + 1, by omega, by omega, 2 ^ 52, by norm_num, ?_⟩
    rw [rounded, hcarry, zpow_add₀ (by norm_num), zpow_one]
    push_cast
    ring

/-- A quotient of such a number is not rounded up to the next whole number. -/
theorem rounded_div_lt {j : Int} {x : ℚ} {p n : Nat} (hj : -100 ≤ j ∧ j ≤ 0) (hx : OnGrid j x) (hp : 0 < p)
    (hp' : p < 2 ^ 53) (hn : n < 2 ^ 52) (h : x / p < n) : rounded (x / p) < n := by
  obtain ⟨m, hm, rfl⟩ := hx
  rcases Nat.eq_zero_or_pos m with rfl | hpos
  · simpa using h
  obtain ⟨e, he⟩ : ∃ e : Nat, -j = e := ⟨_, (Int.toNat_of_nonneg (by omega)).symm⟩
  have hunit : (2 : ℚ) ^ j = 1 / 2 ^ e := by
    rw [← neg_neg j, he, zpow_neg, zpow_natCast, one_div]
  have hpq : (0 : ℚ) < p := by exact_mod_cast hp
  have hmq : (0 : ℚ) < m := by exact_mod_cast hpos
  have hfrac : (m : ℚ) * 2 ^ j / p = m / (p * 2 ^ e) := by
    rw [hunit, mul_one_div, div_div, mul_comm (p : ℚ)]
  rw [hfrac] at h ⊢
  have hden : (0 : ℚ) < p * 2 ^ e := by positivity
  generalize hq : (m : ℚ) / (p * 2 ^ e) = q at h ⊢
  have hqpos : 0 < q := by rw [← hq]; positivity
  -- the quotient is short of the whole number by a unit at least
  have hgap : q / m ≤ n - q := by
    have hone : q / m = 1 / (p * 2 ^ e) := by
      rw [← hq]
      field_simp
    rw [← hq, div_lt_iff₀ hden] at h
    have hnat : m < n * (p * 2 ^ e) := by exact_mod_cast h
    have hle : (m : ℚ) + 1 ≤ n * (p * 2 ^ e) := by exact_mod_cast hnat
    rw [hone, le_sub_iff_add_le, ← hq, ← add_div, div_le_iff₀ hden]
    linarith
  -- and that unit is more than half of the last place
  have htiny : (2 : ℚ) ^ (-153 : Int) ≤ q := by
    have hsmall : p * 2 ^ e ≤ 2 ^ 153 := by
      calc p * 2 ^ e ≤ 2 ^ 53 * 2 ^ 100 := Nat.mul_le_mul hp'.le (Nat.pow_le_pow_right (by omega) (by omega))
        _ = 2 ^ 153 := by rw [← pow_add]
    have hcast : (p : ℚ) * 2 ^ e ≤ 2 ^ (153 : Nat) := by exact_mod_cast hsmall
    have hm1 : (1 : ℚ) ≤ m := by exact_mod_cast hpos
    rw [← hq, zpow_neg, le_div_iff₀ hden]
    have hinv : ((2 : ℚ) ^ (153 : Int))⁻¹ * 2 ^ (153 : Nat) = 1 := by
      rw [← zpow_natCast]
      exact inv_mul_cancel₀ (by positivity)
    have hmul := mul_le_mul_of_nonneg_left hcast (by positivity : (0 : ℚ) ≤ ((2 : ℚ) ^ (153 : Int))⁻¹)
    linarith
  have hhigh : floorLog 2 q < 52 := by
    have hn' : (n : ℚ) < 2 ^ (52 : Int) := by exact_mod_cast hn
    exact floorLog_lt hqpos (h.trans hn')
  have hlow := le_floorLog hqpos htiny
  have hnormal : lastPlace q = floorLog 2 q - 52 := by unfold lastPlace; omega
  obtain ⟨t, ht⟩ : ∃ t : Nat, -lastPlace q = t := ⟨_, (Int.toNat_of_nonneg (by omega)).symm⟩
  have hplaces : inPlaces q = q * 2 ^ t := by rw [inPlaces, ht, zpow_natCast]
  have hhalf : 1 / 2 < (n - q) * 2 ^ t := by
    have hbits := le_inPlaces hqpos hnormal
    have hm53 : (m : ℚ) < 2 ^ (53 : Nat) := by exact_mod_cast hm
    have hmul : q / m * 2 ^ t ≤ (n - q) * 2 ^ t := mul_le_mul_of_nonneg_right hgap (by positivity)
    rw [hplaces] at hbits
    have hunits : 1 / 2 < q / m * 2 ^ t := by
      rw [div_mul_eq_mul_div, lt_div_iff₀ hmq]
      push_cast at hbits
      linarith
    linarith
  have hround : roundEven (inPlaces q) < n * 2 ^ t := by
    refine roundEven_lt (inPlaces_nonneg hqpos.le) ?_
    rw [hplaces]
    push_cast
    linarith
  have hcast : (roundEven (inPlaces q) : ℚ) < n * 2 ^ t := by exact_mod_cast hround
  have hback : ((n : ℚ) * 2 ^ t) * 2 ^ lastPlace q = n := by
    rw [← neg_neg (lastPlace q), ht, zpow_neg, zpow_natCast, mul_assoc, mul_inv_cancel₀ (by positivity), mul_one]
  calc rounded q < ((n : ℚ) * 2 ^ t) * 2 ^ lastPlace q := mul_lt_mul_of_pos_right hcast (by positivity)
    _ = n := hback

/-- A double quotient by a whole number has the whole part of the exact one. -/
theorem floor_rounded_div {j : Int} {x : ℚ} {p : Nat} (hj : -100 ≤ j ∧ j ≤ 0) (hx : OnGrid j x) (hp : 0 < p)
    (hp' : p < 2 ^ 53) (hlt : x / p < 2 ^ 51) : ⌊rounded (x / p)⌋₊ = ⌊x / p⌋₊ := by
  have hnonneg : 0 ≤ x / p := by
    obtain ⟨m, -, rfl⟩ := hx
    positivity
  have hsmall : ⌊x / p⌋₊ < 2 ^ 51 := (Nat.floor_lt hnonneg).mpr (by exact_mod_cast hlt)
  refine (Nat.floor_eq_iff (rounded_nonneg _)).mpr ⟨?_, ?_⟩
  · rw [← rounded_natCast (by omega : ⌊x / p⌋₊ < 2 ^ 53)]
    exact rounded_mono (Nat.cast_nonneg _) (Nat.floor_le hnonneg)
  -- short of the next whole number it stays short of it
  · have hnext : x / p < ((⌊x / p⌋₊ + 1 : ℕ) : ℚ) := by exact_mod_cast Nat.lt_floor_add_one (x / p)
    exact_mod_cast rounded_div_lt hj hx hp hp' (by omega) hnext

/-! ## The operations -/

/-- A constant or a result that is not negative. -/
theorem toDouble_of_nonneg {q : ℚ} (h : 0 ≤ q) (hle : q ≤ 2 ^ 100) : toDouble false q = .fin (rounded q) := by
  by_cases hzero : q = 0
  · subst hzero
    rw [rounded_zero]
    rfl
  obtain ⟨v, his, hnear⟩ := toDouble_near false h (le_refl 100) hle
  have hv : scale 2 (roundEven (scale 2 q (-lastPlace q)) : ℚ) (lastPlace q) = rounded q := by
    rw [scale_eq_zpow, scale_eq_zpow]
    rfl
  have hdef : toDouble false q = if 2 ^ 1024 ≤ rounded q then .inf false
      else if rounded q = 0 then .zero false else .fin (rounded q) := by
    rw [← hv]
    unfold toDouble
    rw [if_neg hzero]
    rfl
  -- far from the largest double
  have hfinite : ¬2 ^ 1024 ≤ rounded q := by
    intro hbig
    rw [hdef, if_pos hbig] at his
    rcases his with h | ⟨h, -⟩ <;> cases h
  rw [hdef, if_neg hfinite]
  split
  · rename_i hr0
    rw [hr0]
    rfl
  · rfl

/-- The same for `CDouble.ofRat`. -/
theorem ofRat_of_nonneg {q : ℚ} (h : 0 ≤ q) (hle : q ≤ 2 ^ 100) : CDouble.ofRat q = .fin (rounded q) := by
  rw [CDouble.ofRat, abs_of_nonneg h, decide_eq_false (not_lt.mpr h), toDouble_of_nonneg h hle]

/-- Rounding moves a number below `2 ^ k` by half of its last place at most. -/
theorem rounded_near {q : ℚ} {k : Nat} (hk : k ≤ 100) (h : 0 ≤ q) (hle : q ≤ 2 ^ k) :
    |rounded q - q| ≤ 2 ^ k / 2 ^ 53 := by
  obtain ⟨v, his, hnear⟩ := toDouble_near false h hk hle
  rw [toDouble_of_nonneg h (hle.trans (pow_le_pow_right₀ (by norm_num) hk))] at his
  rcases his with heq | ⟨heq, -⟩
  · cases heq
    exact hnear
  · cases heq

/-- A whole number is a double. -/
theorem ofRat_natCast {n : Nat} (h : n < 2 ^ 53) : CDouble.ofRat (n : ℚ) = .fin n := by
  have hle : (n : ℚ) ≤ 2 ^ (100 : Nat) := by
    have hlt : (n : ℚ) < 2 ^ (53 : Nat) := by exact_mod_cast h
    exact hlt.le.trans (pow_le_pow_right₀ (by norm_num) (by norm_num))
  rw [ofRat_of_nonneg (Nat.cast_nonneg n) hle, rounded_natCast h]

/-- A double less a whole number below it is a double. -/
theorem OnGrid.sub_natCast {j : Int} {x : ℚ} {n : Nat} (hj : j ≤ 0) (h : OnGrid j x) (hn : (n : ℚ) ≤ x) :
    OnGrid j (x - n) := by
  obtain ⟨m, hm, rfl⟩ := h
  obtain ⟨e, he⟩ : ∃ e : Nat, -j = e := ⟨_, (Int.toNat_of_nonneg (by omega)).symm⟩
  have hunit : ((2 : ℚ) ^ e) * 2 ^ j = 1 := by
    rw [← zpow_natCast, ← he, ← zpow_add₀ (by norm_num), neg_add_cancel, zpow_zero]
  have hnat : n * 2 ^ e ≤ m := by
    have hmul := mul_le_mul_of_nonneg_right hn (by positivity : (0 : ℚ) ≤ 2 ^ e)
    rw [mul_assoc, mul_comm (2 ^ j) ((2 : ℚ) ^ e), hunit, mul_one] at hmul
    exact_mod_cast hmul
  refine ⟨m - n * 2 ^ e, by omega, ?_⟩
  rw [Nat.cast_sub hnat, sub_mul]
  push_cast
  rw [mul_assoc, hunit, mul_one]

namespace CDouble

/-- A finite double is its value. -/
theorem is_value {d : CDouble} (h : d.isFinite = true) : d.Is d.value := by
  cases d with
  | fin q => exact .inl rfl
  | negZero => exact .inr ⟨rfl, rfl⟩
  | inf neg => cases h
  | nan neg => cases h

/-- The conversion to an integer takes the whole part. -/
theorem toInt_of_nonneg {q : ℚ} (h : 0 ≤ q) : (CDouble.fin q).toInt = (⌊q⌋₊ : Int) := by
  rw [toInt, value, if_pos h, Int.natCast_floor_eq_floor h]

/-- A constant less a finite number below it. -/
theorem fin_sub {a v : ℚ} {b : CDouble} (hb : b.Is v) (h : 0 ≤ a - v) (hle : a - v ≤ 2 ^ 100) :
    (CDouble.fin a).sub b = .fin (rounded (a - v)) := by
  have hplus : a - 0 = a + 0 := by rw [sub_zero, add_zero]
  have hsum : (CDouble.fin a).sub b = .ofRat (a - v) := by
    rcases hb with rfl | ⟨rfl, rfl⟩
    · by_cases hv : v = 0
      · subst hv
        rw [CDouble.sub, CDouble.neg, if_pos rfl, hplus]
        rfl
      · rw [CDouble.sub, CDouble.neg, if_neg hv, sub_eq_add_neg]
        rfl
    · rw [hplus]
      rfl
  rw [hsum, ofRat_of_nonneg h hle]

/-- A sum that is not negative. -/
theorem fin_add {a v : ℚ} {b : CDouble} (hb : b.Is v) (h : 0 ≤ a + v) (hle : a + v ≤ 2 ^ 100) :
    (CDouble.fin a).add b = .fin (rounded (a + v)) := by
  have hsum : (CDouble.fin a).add b = .ofRat (a + v) := by
    rcases hb with rfl | ⟨rfl, rfl⟩ <;> rfl
  rw [hsum, ofRat_of_nonneg h hle]

/-- A product. -/
theorem fin_mul {a b : ℚ} (ha : 0 ≤ a) (hb : 0 ≤ b) (hle : a * b ≤ 2 ^ 100) :
    (CDouble.fin a).mul (.fin b) = .fin (rounded (a * b)) := by
  have hprod : (CDouble.fin a).mul (.fin b) = toDouble (decide (a < 0) != decide (b < 0)) |a * b| := rfl
  rw [hprod, decide_eq_false (not_lt.mpr ha), decide_eq_false (not_lt.mpr hb), abs_of_nonneg (mul_nonneg ha hb)]
  exact toDouble_of_nonneg (mul_nonneg ha hb) hle

/-- A quotient. -/
theorem fin_div {a b : ℚ} (ha : 0 ≤ a) (hb : 0 < b) (hle : a / b ≤ 2 ^ 100) :
    (CDouble.fin a).div (.fin b) = .fin (rounded (a / b)) := by
  have hzero : (CDouble.fin b).isZero = false := decide_eq_false hb.ne'
  have hquot : (CDouble.fin a).div (.fin b) = toDouble (decide (a < 0) != decide (b < 0)) |a / b| := by
    show (if (CDouble.fin b).isZero then _ else _) = _
    rw [hzero]
    rfl
  rw [hquot, decide_eq_false (not_lt.mpr ha), decide_eq_false (not_lt.mpr hb.le), abs_of_nonneg (div_nonneg ha hb.le)]
  exact toDouble_of_nonneg (div_nonneg ha hb.le) hle

end CDouble

end ByteLib
