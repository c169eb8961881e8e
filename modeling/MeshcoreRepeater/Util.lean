import MeshcoreRepeater.Lib.Bytes

/-! # Hex and base64

`util.c`: the text forms of keys. `none` stands for the negative results.

* `hex2bin_hexText`: bytes written in hex are read back.
* `length_of_hex2bin`, `hexval_of_mem_hex2bin`: what is decoded is hex, two digits a byte.
-/

namespace Meshcore

set_option maxRecDepth 8000

open ByteLib

/-! ## Hex -/

/-- `HEXD[v]`. -/
def hexDigit (v : UInt8) : UInt8 := if v < 10 then 48 + v else 87 + v

/-- Two digits a byte. -/
def hexText (b : Bytes) : Bytes := b.flatMap fun c : UInt8 => [hexDigit (c >>> 4), hexDigit (c &&& 0xF)]

/-- `bin2hex`; `none` is its 0, with the buffer left alone. -/
def bin2hex (outsz : Nat) (b : Bytes) : Option Bytes :=
  if outsz < b.length * 2 + 1 then none else some (hexText b)

def hexval (c : UInt8) : Option UInt8 :=
  if 48 ≤ c ∧ c ≤ 57 then some (c - 48)
  else if 97 ≤ c ∧ c ≤ 102 then some (c - 97 + 10)
  else if 65 ≤ c ∧ c ≤ 70 then some (c - 65 + 10)
  else none

/-- The loop of `hex2bin`. -/
def hexPairs : Bytes → Option Bytes
  | [] => some []
  | [_] => none
  | hi :: lo :: rest =>
    match hexval hi, hexval lo, hexPairs rest with
    | some h, some l, some out => some (((h <<< 4) ||| l) :: out)
    | _, _, _ => none

def hex2bin (outsz : Nat) (s : Bytes) : Option Bytes :=
  if s.length % 2 ≠ 0 ∨ outsz < s.length / 2 then none else hexPairs s

/-! ## Base64 -/

def b64val (c : UInt8) : Option Nat :=
  if 65 ≤ c ∧ c ≤ 90 then some (c.toNat - 65)
  else if 97 ≤ c ∧ c ≤ 122 then some (c.toNat - 97 + 26)
  else if 48 ≤ c ∧ c ≤ 57 then some (c.toNat - 48 + 52)
  else if c = 43 then some 62
  else if c = 47 then some 63
  else none

/-- One character of a quartet: its value and the padding so far. `=` stands only in
the last two places of the last quartet, and nothing but `=` follows it. -/
def b64Char (last : Bool) (j : Nat) (c : UInt8) (pad : Nat) : Option (Nat × Nat) :=
  if c = 61 then (if !last || j < 2 then none else some (0, pad + 1))
  else if 0 < pad then none
  else (b64val c).map fun v => (v, pad)

/-- The 3, 2 or 1 bytes of a quartet. -/
def b64Quartet (last : Bool) (a b c d : UInt8) : Option Bytes := do
  let (v₀, pad) ← b64Char last 0 a 0
  let (v₁, pad) ← b64Char last 1 b pad
  let (v₂, pad) ← b64Char last 2 c pad
  let (v₃, pad) ← b64Char last 3 d pad
  let trip := v₀ * 262144 + v₁ * 4096 + v₂ * 64 + v₃
  return (bytesBE 3 trip).take (3 - pad)

/-- The loop of `base64_decode`. -/
def b64Loop (outsz : Nat) : Bytes → Bytes → Option Bytes
  | [], out => some out
  | a :: b :: c :: d :: rest, out =>
    match b64Quartet rest.isEmpty a b c d with
    | some bytes =>
      if outsz < out.length + bytes.length then none else b64Loop outsz rest (out ++ bytes)
    | none => none
  | _, _ => none

def base64Decode (outsz : Nat) (s : Bytes) : Option Bytes :=
  if s.length = 0 ∨ s.length % 4 ≠ 0 then none else b64Loop outsz s []

example : base64Decode 32 (lit "izOH6cXN6mrJ5e26oRXNcg==") =
    hex2bin 32 (lit "8b3387e9c5cdea6ac9e5edbaa115cd72") := by decide +kernel

/-! ## Hex is read back -/

theorem hexval_hexDigit_pair (c : UInt8) :
    hexval (hexDigit (c >>> 4)) = some (c >>> 4) ∧ hexval (hexDigit (c &&& 0xF)) = some (c &&& 0xF) ∧
      ((c >>> 4) <<< 4) ||| (c &&& 0xF) = c := by
  have hall : ∀ n : Fin 256, hexval (hexDigit (UInt8.ofNat n >>> 4)) = some (UInt8.ofNat n >>> 4) ∧
      hexval (hexDigit (UInt8.ofNat n &&& 0xF)) = some (UInt8.ofNat n &&& 0xF) ∧
      ((UInt8.ofNat n >>> 4) <<< 4) ||| (UInt8.ofNat n &&& 0xF) = UInt8.ofNat n := by
    decide
  simpa using hall ⟨c.toNat, c.toNat_lt⟩

/-- Only the digits and `a` to `f`. -/
theorem mem_hexText {b : Bytes} {c : UInt8} (h : c ∈ hexText b) :
    (48 ≤ c ∧ c ≤ 57) ∨ (97 ≤ c ∧ c ≤ 102) := by
  have hall : ∀ n : Fin 256, [hexDigit (UInt8.ofNat n >>> 4), hexDigit (UInt8.ofNat n &&& 0xF)].all
      (fun d => (48 ≤ d ∧ d ≤ 57) ∨ (97 ≤ d ∧ d ≤ 102)) = true := by decide
  obtain ⟨x, -, hx⟩ := List.mem_flatMap.mp h
  have hdigit := List.all_eq_true.mp (hall ⟨x.toNat, x.toNat_lt⟩) c (by simpa using hx)
  exact of_decide_eq_true hdigit

theorem hexPairs_hexText (b : Bytes) : hexPairs (hexText b) = some b := by
  induction b with
  | nil => rfl
  | cons c b ih =>
    obtain ⟨hhi, hlo, hboth⟩ := hexval_hexDigit_pair c
    have htext : hexText (c :: b) = hexDigit (c >>> 4) :: hexDigit (c &&& 0xF) :: hexText b := rfl
    rw [htext, hexPairs, hhi, hlo, ih]
    simp [hboth]

theorem length_hexText (b : Bytes) : (hexText b).length = b.length * 2 := by
  induction b with
  | nil => rfl
  | cons c b ih =>
    have htext : hexText (c :: b) = hexDigit (c >>> 4) :: hexDigit (c &&& 0xF) :: hexText b := rfl
    rw [htext, List.length_cons, List.length_cons, ih, List.length_cons]
    omega

theorem length_of_hexPairs {s out : Bytes} (h : hexPairs s = some out) :
    s.length = out.length * 2 := by
  induction s using hexPairs.induct generalizing out with
  | case1 =>
    cases h
    rfl
  | case2 c => cases h
  | case3 hi lo rest h' l out' hrest hhi hlo ih =>
    simp only [hexPairs, hhi, hlo, hrest] at h
    cases h
    have := ih hrest
    simp only [List.length_cons]
    omega
  | case4 hi lo rest hnone ih =>
    simp only [hexPairs] at h
    cases h

theorem length_of_hex2bin {outsz : Nat} {s out : Bytes} (h : hex2bin outsz s = some out) :
    s.length = out.length * 2 := by
  unfold hex2bin at h
  split at h
  · cases h
  · exact length_of_hexPairs h

/-- What is decoded is hex throughout. -/
theorem hexval_of_mem_hexPairs {s out : Bytes} {c : UInt8} (h : hexPairs s = some out) (hc : c ∈ s) :
    hexval c ≠ none := by
  induction s using hexPairs.induct generalizing out with
  | case1 => cases hc
  | case2 c => cases h
  | case3 hi lo rest h' l out' hrest hhi hlo ih =>
    rcases List.mem_cons.mp hc with rfl | hc
    · rw [hlo]
      exact Option.some_ne_none _
    rcases List.mem_cons.mp hc with rfl | hc
    · rw [hhi]
      exact Option.some_ne_none _
    · exact ih hrest hc
  | case4 hi lo rest hnone ih =>
    simp only [hexPairs] at h
    cases h

theorem hexval_of_mem_hex2bin {outsz : Nat} {s out : Bytes} {c : UInt8} (h : hex2bin outsz s = some out) (hc : c ∈ s) :
    hexval c ≠ none := by
  unfold hex2bin at h
  split at h
  · cases h
  · exact hexval_of_mem_hexPairs h hc

theorem hex2bin_hexText {outsz : Nat} {b : Bytes} (h : b.length ≤ outsz) :
    hex2bin outsz (hexText b) = some b := by
  have hlen := length_hexText b
  rw [hex2bin, if_neg (by omega), hexPairs_hexText]

end Meshcore
