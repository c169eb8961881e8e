import Mathlib.Tactic.Common

/-! # JSON strings

The strings of JSON as texts: what stands between the quotes is plain characters and escapes,
and `Chars` relates it to the characters it means. A text means one thing at most
(`Chars.unique`).
-/

namespace JsonString

/-- The escapes of one letter. -/
def escapes : List (Char × Char) :=
  [('"', '"'), ('\\', '\\'), ('/', '/'), ('b', '\x08'), ('f', '\x0c'), ('n', '\n'), ('r', '\r'), ('t', '\t')]

/-- A hexadecimal digit. -/
def hexDigit (c : Char) : Option Nat :=
  if '0' ≤ c ∧ c ≤ '9' then some (c.toNat - '0'.toNat)
  else if 'a' ≤ c ∧ c ≤ 'f' then some (c.toNat - 'a'.toNat + 10)
  else if 'A' ≤ c ∧ c ≤ 'F' then some (c.toNat - 'A'.toNat + 10)
  else none

/-- The code unit four digits stand for. -/
def codeUnit (a b c d : Char) : Option Nat := do
  let a ← hexDigit a
  let b ← hexDigit b
  let c ← hexDigit c
  let d ← hexDigit d
  return ((a * 16 + b) * 16 + c) * 16 + d

/-- Two surrogates and the character they stand for. -/
def IsPair (high low : Nat) (c : Char) : Prop :=
  0xD800 ≤ high ∧ high < 0xDC00 ∧ 0xDC00 ≤ low ∧ low < 0xE000 ∧
    c.toNat = 0x10000 + (high - 0xD800) * 0x400 + (low - 0xDC00)

/-- The text between the quotes, and what it means. -/
inductive Chars : List Char → List Char → Prop where
  | nil : Chars [] []
  | plain {c : Char} {text value : List Char} : 0x20 ≤ c.toNat → c ≠ '"' → c ≠ '\\' →
      Chars text value → Chars (c :: text) (c :: value)
  | escape {e c : Char} {text value : List Char} : (e, c) ∈ escapes →
      Chars text value → Chars ('\\' :: e :: text) (c :: value)
  | unicode {a b d e c : Char} {text value : List Char} : codeUnit a b d e = some c.toNat →
      Chars text value → Chars ('\\' :: 'u' :: a :: b :: d :: e :: text) (c :: value)
  | pair {a b d e a' b' d' e' c : Char} {high low : Nat} {text value : List Char} :
      codeUnit a b d e = some high → codeUnit a' b' d' e' = some low → IsPair high low c →
      Chars text value →
      Chars ('\\' :: 'u' :: a :: b :: d :: e :: '\\' :: 'u' :: a' :: b' :: d' :: e' :: text) (c :: value)

/-- A string in its quotes, and what it means. -/
def Means (text value : List Char) : Prop := ∃ inner, text = '"' :: inner ++ ['"'] ∧ Chars inner value

theorem escapes_unique {e c d : Char} (h : (e, c) ∈ escapes) (h' : (e, d) ∈ escapes) : c = d := by
  simp only [escapes, List.mem_cons, Prod.mk.injEq, List.not_mem_nil, or_false] at h h'
  rcases h with ⟨rfl, rfl⟩ | ⟨rfl, rfl⟩ | ⟨rfl, rfl⟩ | ⟨rfl, rfl⟩ | ⟨rfl, rfl⟩ | ⟨rfl, rfl⟩ | ⟨rfl, rfl⟩ |
    ⟨rfl, rfl⟩
  all_goals
    symm
    simpa using h'

theorem not_mem_escapes (c : Char) : ('u', c) ∉ escapes := by
  simp [escapes]

/-- No character is half of a pair. -/
theorem IsPair.not_char {high low : Nat} {c d : Char} (h : IsPair high low c) : high ≠ d.toNat := by
  rintro rfl
  rcases h with ⟨hlow, hhigh, -⟩
  rcases d.valid with hd | hd
  · have : d.toNat < 0xD800 := hd
    omega
  · have : 0xDFFF < d.toNat := hd.1
    omega

theorem Chars.unique {text value value' : List Char} (h : Chars text value) (h' : Chars text value') :
    value = value' := by
  induction h generalizing value' with
  | nil =>
    cases h'
    rfl
  | plain hc hquote hslash _ ih =>
    cases h' with
    | plain _ _ _ h' => rw [ih h']
    | escape _ _ => exact absurd rfl hslash
    | unicode _ _ => exact absurd rfl hslash
    | pair _ _ _ _ => exact absurd rfl hslash
  | escape he _ ih =>
    cases h' with
    | plain _ _ hslash _ => exact absurd rfl hslash
    | escape he' h' => rw [escapes_unique he he', ih h']
    | unicode _ _ => exact absurd he (not_mem_escapes _)
    | pair _ _ _ _ => exact absurd he (not_mem_escapes _)
  | unicode hu _ ih =>
    cases h' with
    | plain _ _ hslash _ => exact absurd rfl hslash
    | escape he' _ => exact absurd he' (not_mem_escapes _)
    | unicode hu' h' =>
      rw [hu, Option.some.injEq] at hu'
      rw [Char.toNat_inj.mp hu', ih h']
    | pair hu' _ hpair _ =>
      rw [hu, Option.some.injEq] at hu'
      exact absurd hu'.symm hpair.not_char
  | pair hu hl hpair _ ih =>
    cases h' with
    | plain _ _ hslash _ => exact absurd rfl hslash
    | escape he' _ => exact absurd he' (not_mem_escapes _)
    | unicode hu' _ =>
      rw [hu, Option.some.injEq] at hu'
      exact absurd hu' hpair.not_char
    | pair hu' hl' hpair' h' =>
      rw [hu, Option.some.injEq] at hu'
      rw [hl, Option.some.injEq] at hl'
      subst hu' hl'
      rw [Char.toNat_inj.mp (hpair.2.2.2.2.trans hpair'.2.2.2.2.symm), ih h']

theorem Means.unique {text value value' : List Char} (h : Means text value) (h' : Means text value') :
    value = value' := by
  rcases h with ⟨inner, rfl, hchars⟩
  rcases h' with ⟨inner', heq, hchars'⟩
  have hinner : inner = inner' := List.append_cancel_right (List.cons.inj heq).2
  subst hinner
  exact hchars.unique hchars'

end JsonString
