import MeshcoreRepeater.Lib.BitText
import MeshcoreRepeater.Util

/-! # What the decoders accept

`hex2bin` and `base64_decode` against the two text forms: each succeeds on the texts of its form
that fit, and gives the bytes they spell.

* `hexval_digit`, `b64val_iff`: one character, over the whole byte.
* `b64Quartet_iff`, `b64Loop_iff`: a quartet, and the loop with the bytes so far.
* `hex2bin_iff`, `base64Decode_iff`: the decoders accept the texts of their form.
-/

namespace Meshcore

set_option maxRecDepth 8000

open ByteLib

/-! ## Hex -/

/-- A hex digit has a value below 16, and is that digit of the alphabet but for its case. Decided
over the 256 bytes. -/
theorem hexval_digit {c h : UInt8} (hc : hexval c = some h) :
    h.toNat < 16 ∧ tolower c = hexAlphabet.getD h.toNat 0 := by
  have hall : ∀ n : Fin 256, ∀ h, hexval (UInt8.ofNat n) = some h →
      h.toNat < 16 ∧ tolower (UInt8.ofNat n) = hexAlphabet.getD h.toNat 0 := by
    have hcheck : ∀ n : Fin 256, (hexval (UInt8.ofNat n)).all fun h =>
        h.toNat < 16 && tolower (UInt8.ofNat n) == hexAlphabet.getD h.toNat 0 := by decide
    intro n h hn
    have hn' := hcheck n
    rw [hn] at hn'
    simpa using hn'
  have hc' := hall ⟨c.toNat, c.toNat_lt⟩ h
  rw [UInt8.ofNat_toNat] at hc'
  exact hc' hc

/-- Every digit in either case has its value. -/
theorem hexval_of_digit {c : UInt8} {v : Nat} (hv : v < 16) (hc : tolower c = hexAlphabet.getD v 0) :
    hexval c = some (UInt8.ofNat v) := by
  have hall : ∀ (n : Fin 256) (v : Fin 16), tolower (UInt8.ofNat n) = hexAlphabet.getD v 0 →
      hexval (UInt8.ofNat n) = some (UInt8.ofNat v) := by decide
  have hc' := hall ⟨c.toNat, c.toNat_lt⟩ ⟨v, hv⟩
  rw [UInt8.ofNat_toNat] at hc'
  exact hc' hc

/-- Eight bits are the byte of their two digits. -/
theorem octets_digits {h l : UInt8} (hh : h.toNat < 16) (hl : l.toNat < 16) (rest : List Bool) :
    octets (bits 4 h.toNat ++ (bits 4 l.toNat ++ rest)) = ((h <<< 4) ||| l) :: octets rest := by
  have hall : ∀ h l : Fin 16, UInt8.ofNat (h * 2 ^ 4 + l) = (UInt8.ofNat h <<< 4) ||| UInt8.ofNat l := by decide
  have hbyte := hall ⟨h.toNat, hh⟩ ⟨l.toNat, hl⟩
  rw [UInt8.ofNat_toNat, UInt8.ofNat_toNat] at hbyte
  have hl4 : l.toNat < 2 ^ 4 := hl
  rw [← List.append_assoc, ← bits_append 4 h.toNat hl4, octets_bits, hbyte]

/-- Two digits are a byte. -/
theorem isHex_cons {hi lo : UInt8} {rest out : Bytes} :
    IsHex (hi :: lo :: rest) out ↔
      ∃ h l tail, hexval hi = some h ∧ hexval lo = some l ∧ IsHex rest tail ∧ out = ((h <<< 4) ||| l) :: tail := by
  constructor
  · rintro ⟨vs, hvs, heven, htext, rfl⟩
    -- an even number of digits: none or at least two
    rcases vs with - | ⟨v, - | ⟨w, vs⟩⟩
    · cases htext
    · cases heven
    · rw [List.map_cons, List.map_cons, spelled, List.map_cons, List.map_cons, List.cons.injEq, List.cons.injEq] at htext
      have hv : v < 16 := hvs v List.mem_cons_self
      have hw : w < 16 := hvs w (List.mem_cons_of_mem v List.mem_cons_self)
      have hv' : (UInt8.ofNat v).toNat = v := UInt8.toNat_ofNat_of_lt' (Nat.lt_trans hv (by decide))
      have hw' : (UInt8.ofNat w).toNat = w := UInt8.toNat_ofNat_of_lt' (Nat.lt_trans hw (by decide))
      have htail : IsHex rest (octets (vs.flatMap (bits 4))) := by
        refine ⟨vs, fun u hu => hvs u ?_, by simp only [List.length_cons] at heven; omega, htext.2.2, rfl⟩
        exact List.mem_cons_of_mem v (List.mem_cons_of_mem w hu)
      refine ⟨_, _, _, hexval_of_digit hv htext.1, hexval_of_digit hw htext.2.1, htail, ?_⟩
      rw [← octets_digits (by rwa [hv']) (by rwa [hw']), hv', hw']
      rfl
  · rintro ⟨h, l, tail, hhi, hlo, ⟨vs, hvs, heven, htext, rfl⟩, rfl⟩
    rcases hexval_digit hhi with ⟨hh, hhtext⟩
    rcases hexval_digit hlo with ⟨hl, hltext⟩
    refine ⟨h.toNat :: l.toNat :: vs, ?_, by simp only [List.length_cons]; omega, ?_, ?_⟩
    · intro v hv
      rcases List.mem_cons.mp hv with rfl | hv
      · exact hh
      rcases List.mem_cons.mp hv with rfl | hv
      · exact hl
      · exact hvs v hv
    · rw [List.map_cons, List.map_cons, hhtext, hltext, htext]
      rfl
    · rw [← octets_digits hh hl]
      rfl

/-- `hex2bin`'s loop accepts the texts of an even number of digits, and nothing else. -/
theorem hexPairs_iff {s out : Bytes} : hexPairs s = some out ↔ IsHex s out := by
  induction s using hexPairs.induct generalizing out with
  -- two digits at a time, as the loop goes
  | case1 =>
    constructor
    · intro h
      cases h
      exact ⟨[], by simp, rfl, rfl, rfl⟩
    · rintro ⟨vs, -, -, htext, rfl⟩
      have hnil : vs = [] := List.map_eq_nil_iff.mp htext.symm
      rw [hnil]
      rfl
  -- a digit without its partner
  | case2 c =>
    constructor
    · intro h
      cases h
    · intro h
      have hlen := h.length_text
      rw [List.length_singleton] at hlen
      omega
  | case3 hi lo rest h l tail hrest hhi hlo ih =>
    rw [isHex_cons]
    simp only [hexPairs, hhi, hlo, hrest]
    constructor
    · rintro ⟨⟩
      exact ⟨h, l, tail, rfl, rfl, ih.mp hrest, rfl⟩
    · rintro ⟨h', l', tail', hh, hl, htail, rfl⟩
      cases hh
      cases hl
      rw [ih.mpr htail] at hrest
      cases hrest
      rfl
  -- one of the two is no digit, or the rest is no hex
  | case4 hi lo rest hnone ih =>
    rw [isHex_cons]
    constructor
    · intro h
      simp only [hexPairs] at h
      cases h
    · rintro ⟨h, l, tail, hhi, hlo, htail, rfl⟩
      exact absurd (ih.mpr htail) (hnone h l tail hhi hlo)

/-- With its check on the size of the output. -/
theorem hex2bin_iff {outsz : Nat} {s out : Bytes} :
    hex2bin outsz s = some out ↔ IsHex s out ∧ out.length ≤ outsz := by
  rw [hex2bin]
  constructor
  · intro h
    split at h
    · cases h
    · rename_i hlen
      have hhex := hexPairs_iff.mp h
      have htext := hhex.length_text
      exact ⟨hhex, by omega⟩
  · rintro ⟨hhex, hfits⟩
    have htext := hhex.length_text
    rw [if_neg (by omega)]
    exact hexPairs_iff.mpr hhex

/-! ## Base64 -/

/-- A symbol has the value of its place in the alphabet. -/
theorem b64val_iff {c : UInt8} {v : Nat} : b64val c = some v ↔ v < 64 ∧ c = base64Alphabet.getD v 0 := by
  constructor
  · intro hc
    have hall : ∀ n : Fin 256, (b64val (UInt8.ofNat n)).all fun v =>
        v < 64 && UInt8.ofNat n == base64Alphabet.getD v 0 := by decide
    have hc' := hall ⟨c.toNat, c.toNat_lt⟩
    rw [UInt8.ofNat_toNat, hc] at hc'
    simpa using hc'
  · rintro ⟨hv, rfl⟩
    have hall : ∀ v : Fin 64, b64val (base64Alphabet.getD v 0) = some v.val := by decide
    exact hall ⟨v, hv⟩

/-- The padding is none of the symbols. -/
theorem symbol_ne_pad {v : Nat} (hv : v < 64) : base64Alphabet.getD v 0 ≠ 61 := by
  have hall : ∀ v : Fin 64, base64Alphabet.getD v 0 ≠ 61 := by decide
  exact hall ⟨v, hv⟩

/-- A character is padding or a symbol. -/
theorem b64Char_iff {last : Bool} {j : Nat} {c : UInt8} {pad v pad' : Nat} :
    b64Char last j c pad = some (v, pad') ↔
      (c = 61 ∧ last = true ∧ 2 ≤ j ∧ v = 0 ∧ pad' = pad + 1) ∨
        (pad = 0 ∧ v < 64 ∧ c = base64Alphabet.getD v 0 ∧ pad' = 0) := by
  rw [b64Char]
  by_cases hc : c = 61
  · have hno : ¬(pad = 0 ∧ v < 64 ∧ c = base64Alphabet.getD v 0 ∧ pad' = 0) := by
      rintro ⟨-, hv, hsym, -⟩
      exact symbol_ne_pad hv (hsym.symm.trans hc)
    rw [if_pos hc, or_iff_left hno]
    -- padding stands at the third or fourth place of the last quartet
    by_cases hplace : (!last || decide (j < 2)) = true
    · rw [if_pos hplace]
      simp only [Bool.or_eq_true, Bool.not_eq_true', decide_eq_true_eq] at hplace
      constructor
      · intro h
        cases h
      · rintro ⟨-, hlast, hj, -⟩
        rcases hplace with hfirst | hlow
        · rw [hlast] at hfirst
          cases hfirst
        · omega
    · rw [if_neg hplace]
      simp only [Bool.or_eq_true, Bool.not_eq_true', decide_eq_true_eq, not_or, Bool.not_eq_false, not_lt] at hplace
      constructor
      · rintro ⟨⟩
        exact ⟨hc, hplace.1, hplace.2, rfl, rfl⟩
      · rintro ⟨-, -, -, rfl, rfl⟩
        rfl
  · rw [if_neg hc]
    -- a symbol behind padding is refused
    by_cases hpad : 0 < pad
    · rw [if_pos hpad]
      constructor
      · intro h
        cases h
      · rintro (⟨h, -⟩ | ⟨h, -⟩)
        · exact absurd h hc
        · omega
    · rw [if_neg hpad, Option.map_eq_some_iff]
      constructor
      · rintro ⟨u, hu, ⟨⟩⟩
        rcases b64val_iff.mp hu with ⟨hlt, hsym⟩
        exact .inr ⟨by omega, hlt, hsym, by omega⟩
      · rintro (⟨h, -⟩ | ⟨rfl, hlt, hsym, rfl⟩)
        · exact absurd h hc
        · exact ⟨v, b64val_iff.mpr ⟨hlt, hsym⟩, rfl⟩

/-- Four values of six bits are three bytes. -/
theorem bytesBE_quartet {v₀ v₁ v₂ v₃ : Nat} (h₁ : v₁ < 64) (h₂ : v₂ < 64) (h₃ : v₃ < 64) :
    bytesBE 3 (v₀ * 262144 + v₁ * 4096 + v₂ * 64 + v₃) =
      octets (bits 6 v₀ ++ bits 6 v₁ ++ bits 6 v₂ ++ bits 6 v₃) := by
  have hsix : bits 24 (v₀ * 262144 + v₁ * 4096 + v₂ * 64 + v₃) =
      bits 6 v₀ ++ bits 6 v₁ ++ bits 6 v₂ ++ bits 6 v₃ := by
    rw [← bits_append 6 v₀ h₁, ← bits_append 12 _ h₂, ← bits_append 18 _ h₃]
    congr 1
    omega
  -- the same 24 bits, cut in eights
  generalize v₀ * 262144 + v₁ * 4096 + v₂ * 64 + v₃ = trip at hsix ⊢
  have height : bits 24 trip = bits 8 (trip / 256 ^ 2) ++ (bits 8 (trip / 256 ^ 1) ++ (bits 8 (trip / 256 ^ 0) ++ [])) := by
    have hlow : trip / 256 ^ 1 % 256 < 2 ^ 8 := Nat.mod_lt _ (by decide)
    have hlast : trip % 256 < 2 ^ 8 := Nat.mod_lt _ (by decide)
    have hmid : bits 8 (trip / 256 ^ 1) = bits 8 (trip / 256 ^ 1 % 256) := (bits_mod 8 _).symm
    have hend : bits 8 (trip / 256 ^ 0) = bits 8 (trip % 256) := by
      rw [pow_zero, Nat.div_one]
      exact (bits_mod 8 trip).symm
    rw [hmid, hend, List.append_nil, ← List.append_assoc, ← bits_append 8 _ hlow, ← bits_append 16 _ hlast]
    congr 1
    omega
  rw [← hsix, height, octets_bits, octets_bits, octets_bits]
  rfl

/-- A quartet with padding gives the octets of its symbols. -/
theorem octets_padded {v₀ v₁ v₂ v₃ : Nat} (vs : List Nat) (pad : Nat) (h₁ : v₁ < 64) (h₂ : v₂ < 64) (h₃ : v₃ < 64)
    (hlen : vs.length + pad = 4) (hvs : [v₀, v₁, v₂, v₃] = vs ++ List.replicate pad 0) :
    (bytesBE 3 (v₀ * 262144 + v₁ * 4096 + v₂ * 64 + v₃)).take (3 - pad) = octets (vs.flatMap (bits 6)) := by
  -- the padding stands for zero bits
  have hbits : bits 6 v₀ ++ bits 6 v₁ ++ bits 6 v₂ ++ bits 6 v₃ =
      vs.flatMap (bits 6) ++ (List.replicate pad 0).flatMap (bits 6) := by
    rw [← List.flatMap_append, ← hvs]
    simp
  have hcount : 3 - pad = (vs.flatMap (bits 6)).length / 8 := by
    rw [length_flatMap_bits]
    omega
  rw [bytesBE_quartet h₁ h₂ h₃, hbits, hcount, take_octets_append]

/-- A quartet: two to four symbols, and padding in the last one only. -/
theorem b64Quartet_iff {last : Bool} {a b c d : UInt8} {q : Bytes} :
    b64Quartet last a b c d = some q ↔
      ∃ (vs : List Nat) (pad : Nat), (∀ v ∈ vs, v < 64) ∧ pad ≤ 2 ∧ vs.length + pad = 4 ∧
        (pad ≠ 0 → last = true) ∧ [a, b, c, d] = spelled base64Alphabet vs ++ List.replicate pad 61 ∧
        q = octets (vs.flatMap (bits 6)) := by
  -- the four characters, each with the padding counted so far
  have hchain : b64Quartet last a b c d = some q ↔
      ∃ v₀ p₀, b64Char last 0 a 0 = some (v₀, p₀) ∧ ∃ v₁ p₁, b64Char last 1 b p₀ = some (v₁, p₁) ∧
        ∃ v₂ p₂, b64Char last 2 c p₁ = some (v₂, p₂) ∧ ∃ v₃ p₃, b64Char last 3 d p₂ = some (v₃, p₃) ∧
          (bytesBE 3 (v₀ * 262144 + v₁ * 4096 + v₂ * 64 + v₃)).take (3 - p₃) = q := by
    simp only [b64Quartet, Option.bind_eq_bind, Option.bind_eq_some_iff, Prod.exists, Option.pure_def, Option.some.injEq]
  rw [hchain]
  simp only [b64Char_iff, true_and]
  constructor
  -- the first two are symbols
  · rintro ⟨v₀, p₀, (⟨-, -, h, -⟩ | ⟨h₀, ha, rfl⟩), hb⟩
    · cases h
    rcases hb with ⟨v₁, p₁, (⟨-, -, h, -⟩ | ⟨-, h₁, hb, rfl⟩), hc⟩
    · omega
    rcases hc with ⟨v₂, p₂, (⟨hc, hlast, -, rfl, rfl⟩ | ⟨-, h₂, hc, rfl⟩), hd⟩
    · -- after padding nothing else stands
      rcases hd with ⟨v₃, p₃, (⟨hd, -, -, rfl, rfl⟩ | ⟨h, -⟩), hq⟩
      · refine ⟨[v₀, v₁], 2, ?_, Nat.le_refl 2, rfl, fun _ => hlast, ?_, ?_⟩
        · simp [h₀, h₁]
        · rw [ha, hb, hc, hd]
          rfl
        · rw [← hq]
          exact octets_padded [v₀, v₁] 2 h₁ (by decide) (by decide) rfl rfl
      · omega
    · rcases hd with ⟨v₃, p₃, (⟨hd, hlast, -, rfl, rfl⟩ | ⟨-, h₃, hd, rfl⟩), hq⟩
      · refine ⟨[v₀, v₁, v₂], 1, ?_, by decide, rfl, fun _ => hlast, ?_, ?_⟩
        · simp [h₀, h₁, h₂]
        · rw [ha, hb, hc, hd]
          rfl
        · rw [← hq]
          exact octets_padded [v₀, v₁, v₂] 1 h₁ h₂ (by decide) rfl rfl
      · refine ⟨[v₀, v₁, v₂, v₃], 0, ?_, by decide, rfl, fun h => absurd rfl h, ?_, ?_⟩
        · simp [h₀, h₁, h₂, h₃]
        · rw [ha, hb, hc, hd]
          rfl
        · rw [← hq]
          exact octets_padded [v₀, v₁, v₂, v₃] 0 h₁ h₂ h₃ rfl rfl
  · rintro ⟨vs, pad, hvs, hpad, hlen, hlast, htext, rfl⟩
    -- back, by the number of padding characters
    have hcases : pad = 0 ∨ pad = 1 ∨ pad = 2 := by omega
    rcases hcases with rfl | rfl | rfl
    · rcases List.length_eq_four.mp hlen with ⟨v₀, v₁, v₂, v₃, rfl⟩
      simp only [List.mem_cons, List.not_mem_nil, or_false, forall_eq_or_imp, forall_eq] at hvs
      rcases hvs with ⟨h₀, h₁, h₂, h₃⟩
      cases htext
      exact ⟨v₀, 0, .inr ⟨h₀, rfl, rfl⟩, v₁, 0, .inr ⟨rfl, h₁, rfl, rfl⟩, v₂, 0, .inr ⟨rfl, h₂, rfl, rfl⟩, v₃, 0,
        .inr ⟨rfl, h₃, rfl, rfl⟩, octets_padded [v₀, v₁, v₂, v₃] 0 h₁ h₂ h₃ rfl rfl⟩
    · rcases List.length_eq_three.mp (Nat.succ.inj hlen) with ⟨v₀, v₁, v₂, rfl⟩
      simp only [List.mem_cons, List.not_mem_nil, or_false, forall_eq_or_imp, forall_eq] at hvs
      rcases hvs with ⟨h₀, h₁, h₂⟩
      cases htext
      exact ⟨v₀, 0, .inr ⟨h₀, rfl, rfl⟩, v₁, 0, .inr ⟨rfl, h₁, rfl, rfl⟩, v₂, 0, .inr ⟨rfl, h₂, rfl, rfl⟩, 0, 1,
        .inl ⟨rfl, hlast (by decide), by decide, rfl, rfl⟩,
        octets_padded [v₀, v₁, v₂] 1 h₁ h₂ (by decide) rfl rfl⟩
    · rcases List.length_eq_two.mp (Nat.succ.inj (Nat.succ.inj hlen)) with ⟨v₀, v₁, rfl⟩
      simp only [List.mem_cons, List.not_mem_nil, or_false, forall_eq_or_imp, forall_eq] at hvs
      rcases hvs with ⟨h₀, h₁⟩
      cases htext
      exact ⟨v₀, 0, .inr ⟨h₀, rfl, rfl⟩, v₁, 0, .inr ⟨rfl, h₁, rfl, rfl⟩, 0, 1,
        .inl ⟨rfl, hlast (by decide), by decide, rfl, rfl⟩, 0, 2,
        .inl ⟨rfl, hlast (by decide), by decide, rfl, rfl⟩,
        octets_padded [v₀, v₁] 2 h₁ (by decide) (by decide) rfl rfl⟩

/-- The first quartet, and what is behind it. -/
theorem isBase64_cons {a b c d : UInt8} {rest out : Bytes} :
    IsBase64 (a :: b :: c :: d :: rest) out ↔
      ∃ q tail, b64Quartet rest.isEmpty a b c d = some q ∧ IsBase64 rest tail ∧ out = q ++ tail := by
  have hquartet : a :: b :: c :: d :: rest = [a, b, c, d] ++ rest := rfl
  constructor
  · rintro ⟨vs, pad, hvs, hpad, hfour, htext, rfl⟩
    have hlen := congrArg List.length htext
    rw [List.length_append, length_spelled, List.length_replicate] at hlen
    simp only [List.length_cons] at hlen
    by_cases hlong : 4 ≤ vs.length
    · -- four symbols: the padding, if any, is behind them
      have hsplit : vs = vs.take 4 ++ vs.drop 4 := (List.take_append_drop 4 vs).symm
      have hhead : (vs.take 4).length = 4 := by
        rw [List.length_take]
        omega
      have hparts : [a, b, c, d] = spelled base64Alphabet (vs.take 4) ∧
          rest = spelled base64Alphabet (vs.drop 4) ++ List.replicate pad 61 := by
        apply List.append_inj
        · rw [← hquartet, htext, ← List.append_assoc, spelled, spelled, spelled, ← List.map_append, ← hsplit]
        · rw [length_spelled, hhead]
          rfl
      refine ⟨octets ((vs.take 4).flatMap (bits 6)), octets ((vs.drop 4).flatMap (bits 6)), ?_, ?_, ?_⟩
      · apply b64Quartet_iff.mpr
        refine ⟨vs.take 4, 0, fun v hv => hvs v (List.mem_of_mem_take hv), by decide, hhead, fun h => absurd rfl h, ?_,
          rfl⟩
        rw [hparts.1, List.replicate_zero, List.append_nil]
      · refine ⟨vs.drop 4, pad, fun v hv => hvs v (List.mem_of_mem_drop hv), hpad, ?_, hparts.2, rfl⟩
        rw [List.length_drop]
        omega
      · rw [← octets_append, ← List.flatMap_append, ← hsplit]
        rw [length_flatMap_bits, hhead]
    · -- fewer: the padding ends this quartet, and the text
      have hnil : rest = [] := List.length_eq_zero_iff.mp (by omega)
      subst hnil
      refine ⟨octets (vs.flatMap (bits 6)), [], ?_, ?_, (List.append_nil _).symm⟩
      · exact b64Quartet_iff.mpr ⟨vs, pad, hvs, hpad, by simp only [List.length_nil] at hlen; omega, fun _ => rfl, htext, rfl⟩
      · exact ⟨[], 0, by simp, by decide, rfl, rfl, rfl⟩
  · rintro ⟨q, tail, hq, ⟨ws, pad', hws, hpad', hfour', rfl, rfl⟩, rfl⟩
    rcases b64Quartet_iff.mp hq with ⟨vs, pad, hvs, hpad, hlen, hlast, htext, rfl⟩
    by_cases hfull : pad = 0
    · subst hfull
      refine ⟨vs ++ ws, pad', ?_, hpad', ?_, ?_, ?_⟩
      · intro v hv
        rcases List.mem_append.mp hv with hv | hv
        · exact hvs v hv
        · exact hws v hv
      · rw [List.length_append]
        omega
      · rw [hquartet, htext, List.replicate_zero, List.append_nil, spelled, spelled, spelled, List.map_append,
          List.append_assoc]
      · rw [List.flatMap_append, octets_append]
        rw [length_flatMap_bits]
        omega
    · -- padding ends the text
      have hnil := List.isEmpty_iff.mp (hlast hfull)
      have hws' : ws = [] := List.map_eq_nil_iff.mp (List.append_eq_nil_iff.mp hnil).1
      have hpad0 : pad' = 0 := (List.replicate_eq_nil_iff _).mp (List.append_eq_nil_iff.mp hnil).2
      subst hws' hpad0
      exact ⟨vs, pad, hvs, hpad, by omega, by rw [hquartet, htext]; exact List.append_nil _, List.append_nil _⟩

/-- The empty text spells no byte. -/
theorem isBase64_nil {out : Bytes} : IsBase64 [] out ↔ out = [] := by
  constructor
  · intro h
    have hlen := h.length_text
    rw [List.length_nil] at hlen
    exact List.length_eq_zero_iff.mp (by omega)
  · rintro rfl
    exact ⟨[], 0, by simp, by decide, rfl, rfl, rfl⟩

/-- The loop of `base64_decode`, with the bytes so far. -/
theorem b64Loop_iff {outsz : Nat} {s out r : Bytes} (hout : out.length ≤ outsz) :
    b64Loop outsz s out = some r ↔ ∃ bytes, IsBase64 s bytes ∧ r = out ++ bytes ∧ r.length ≤ outsz := by
  -- quartet by quartet; what fits in the end fits at every quartet before
  induction s, out using b64Loop.induct outsz with
  | case1 out =>
    rw [b64Loop]
    constructor
    · rintro ⟨⟩
      exact ⟨[], isBase64_nil.mpr rfl, (List.append_nil _).symm, hout⟩
    · rintro ⟨bytes, hbytes, rfl, -⟩
      rw [isBase64_nil.mp hbytes, List.append_nil]
  -- the quartet does not fit any more
  | case2 a b c d rest out q hq hfull =>
    simp only [b64Loop, hq, if_pos hfull]
    constructor
    · intro h
      cases h
    · rintro ⟨bytes, hbytes, rfl, hfits⟩
      -- the first quartet alone is too long
      rcases isBase64_cons.mp hbytes with ⟨q', tail, hq', -, rfl⟩
      rw [hq] at hq'
      cases hq'
      simp only [List.length_append] at hfits
      omega
  | case3 a b c d rest out q hq hfits ih =>
    simp only [b64Loop, hq, if_neg hfits]
    rw [ih (by rw [List.length_append]; omega)]
    constructor
    · rintro ⟨tail, htail, rfl, hlen⟩
      exact ⟨q ++ tail, isBase64_cons.mpr ⟨q, tail, hq, htail, rfl⟩, List.append_assoc _ _ _, hlen⟩
    · rintro ⟨bytes, hbytes, rfl, hlen⟩
      rcases isBase64_cons.mp hbytes with ⟨q', tail, hq', htail, rfl⟩
      rw [hq] at hq'
      cases hq'
      exact ⟨tail, htail, (List.append_assoc _ _ _).symm, hlen⟩
  | case4 a b c d rest out hnone =>
    simp only [b64Loop, hnone]
    constructor
    · intro h
      cases h
    · rintro ⟨bytes, hbytes, -⟩
      rcases isBase64_cons.mp hbytes with ⟨q, tail, hq, -⟩
      rw [hnone] at hq
      cases hq
  | case5 t out hnil hcons =>
    rw [b64Loop]
    constructor
    · intro h
      cases h
    · rintro ⟨bytes, hbytes, -⟩
      -- no text of this form has one to three characters
      have hlen := hbytes.length_text
      rcases t with - | ⟨a, - | ⟨b, - | ⟨c, - | ⟨d, rest⟩⟩⟩⟩
      · exact absurd rfl hnil
      · rw [List.length_cons, List.length_nil] at hlen
        omega
      · rw [List.length_cons, List.length_cons, List.length_nil] at hlen
        omega
      · rw [List.length_cons, List.length_cons, List.length_cons, List.length_nil] at hlen
        omega
      · exact absurd rfl (hcons a b c d rest)
    · exact hnil
    · exact hcons

/-- `base64_decode` refuses the empty text, and else decodes the texts of the form that fit. -/
theorem base64Decode_iff {outsz : Nat} {s out : Bytes} :
    base64Decode outsz s = some out ↔ s ≠ [] ∧ IsBase64 s out ∧ out.length ≤ outsz := by
  have hloop : b64Loop outsz s [] = some out ↔ ∃ bytes, IsBase64 s bytes ∧ out = [] ++ bytes ∧ out.length ≤ outsz :=
    b64Loop_iff (Nat.zero_le outsz)
  rw [base64Decode]
  constructor
  · intro h
    split at h
    · cases h
    · rename_i hlen
      rcases hloop.mp h with ⟨bytes, hbytes, rfl, hfits⟩
      exact ⟨by rintro rfl; exact hlen (.inl rfl), hbytes, hfits⟩
  · rintro ⟨hs, hbytes, hfits⟩
    -- a text of this form has a multiple of four characters
    have hpos : s.length ≠ 0 := fun h => hs (List.length_eq_zero_iff.mp h)
    have htext := hbytes.length_text
    rw [if_neg (by omega)]
    exact hloop.mpr ⟨out, hbytes, rfl, hfits⟩

end Meshcore
