import Mathlib.Tactic.Common

/-! # UTF-8 in byte strings

A well-formed sequence is what a character (a Unicode scalar value) is encoded as:
`String.utf8EncodeChar`. `Scan` reads a byte string from left to right, as such sequences where
it can and, where no sequence stands, one byte at a time as a substitute.

* `encodeChar_append_inj`: no sequence is the start of another one.
* `Scan.unique`: a byte string reads in one way.
-/

namespace Utf8

/-- The encoding of a text. -/
def encode (cs : List Char) : List UInt8 := cs.flatMap String.utf8EncodeChar

@[simp] theorem encode_nil : encode [] = [] := rfl

@[simp] theorem encode_cons (c : Char) (cs : List Char) :
    encode (c :: cs) = String.utf8EncodeChar c ++ encode cs := List.flatMap_cons

@[simp] theorem encode_append (cs ds : List Char) : encode (cs ++ ds) = encode cs ++ encode ds :=
  List.flatMap_append

/-- `s` starts with a well-formed sequence. -/
def Starts (s : List UInt8) : Prop := ∃ c rest, s = String.utf8EncodeChar c ++ rest

/-- What `s` reads as when a byte outside any well-formed sequence reads as `sub`. -/
inductive Scan (sub : Char) : List UInt8 → List Char → Prop where
  | nil : Scan sub [] []
  | char {c : Char} {rest : List UInt8} {cs : List Char} :
      Scan sub rest cs → Scan sub (String.utf8EncodeChar c ++ rest) (c :: cs)
  | bad {b : UInt8} {rest : List UInt8} {cs : List Char} :
      ¬ Starts (b :: rest) → Scan sub rest cs → Scan sub (b :: rest) (sub :: cs)

/-- The bytes of a sequence, by its length. -/
theorem encodeChar_cases (c : Char) :
    (c.val.toNat ≤ 0x7F ∧ String.utf8EncodeChar c = [UInt8.ofNat c.val.toNat]) ∨
      (0x7F < c.val.toNat ∧ c.val.toNat ≤ 0x7FF ∧ String.utf8EncodeChar c =
        [UInt8.ofNat (c.val.toNat / 64 + 0xC0), UInt8.ofNat (c.val.toNat % 64 + 0x80)]) ∨
      (0x7FF < c.val.toNat ∧ c.val.toNat ≤ 0xFFFF ∧ String.utf8EncodeChar c =
        [UInt8.ofNat (c.val.toNat / 4096 + 0xE0), UInt8.ofNat (c.val.toNat / 64 % 64 + 0x80),
          UInt8.ofNat (c.val.toNat % 64 + 0x80)]) ∨
      (0xFFFF < c.val.toNat ∧ c.val.toNat ≤ 0x10FFFF ∧ String.utf8EncodeChar c =
        [UInt8.ofNat (c.val.toNat / 262144 + 0xF0), UInt8.ofNat (c.val.toNat / 4096 % 64 + 0x80),
          UInt8.ofNat (c.val.toNat / 64 % 64 + 0x80), UInt8.ofNat (c.val.toNat % 64 + 0x80)]) := by
  have hmax : c.val.toNat ≤ 0x10FFFF := by
    rcases c.valid with h | h
    · have : c.val.toNat < 0xD800 := h
      omega
    · have : c.val.toNat < 0x110000 := h.2
      omega
  unfold String.utf8EncodeChar
  simp only
  split
  · rename_i h
    exact .inl ⟨h, rfl⟩
  split
  · rename_i h h'
    refine .inr (.inl ⟨by omega, h', ?_⟩)
    rw [Nat.mod_eq_of_lt (by omega : c.val.toNat / 64 < 0x20)]
  split
  · rename_i h h' h''
    refine .inr (.inr (.inl ⟨by omega, h'', ?_⟩))
    rw [Nat.mod_eq_of_lt (by omega : c.val.toNat / 4096 < 0x10)]
  · rename_i h h' h''
    refine .inr (.inr (.inr ⟨by omega, hmax, ?_⟩))
    rw [Nat.mod_eq_of_lt (by omega : c.val.toNat / 262144 < 0x08)]

theorem encodeChar_ne_nil (c : Char) : String.utf8EncodeChar c ≠ [] := String.utf8EncodeChar_ne_nil

/-- No sequence is the start of another one. -/
theorem encodeChar_append_inj {c d : Char} {r q : List UInt8}
    (h : String.utf8EncodeChar c ++ r = String.utf8EncodeChar d ++ q) : c = d ∧ r = q := by
  have hc := @ByteArray.utf8DecodeChar?_utf8EncodeChar_append r.toByteArray c
  have hd := @ByteArray.utf8DecodeChar?_utf8EncodeChar_append q.toByteArray d
  rw [← List.toByteArray_append] at hc hd
  rw [h, hd] at hc
  have hcd : c = d := (Option.some.inj hc).symm
  subst hcd
  exact ⟨rfl, List.append_cancel_left h⟩

/-- A byte string reads in one way. -/
theorem Scan.unique {sub : Char} {s : List UInt8} {cs ds : List Char} (h : Scan sub s cs)
    (h' : Scan sub s ds) : cs = ds := by
  induction h generalizing ds with
  | nil =>
    generalize hs : ([] : List UInt8) = s at h'
    cases h' with
    | nil => rfl
    | char _ => exact absurd (List.append_eq_nil_iff.mp hs.symm).1 (encodeChar_ne_nil _)
    | bad _ _ => cases hs
  | @char c rest cs _ ih =>
    generalize hs : String.utf8EncodeChar c ++ rest = s at h'
    cases h' with
    | nil => exact absurd (List.append_eq_nil_iff.mp hs).1 (encodeChar_ne_nil _)
    | char h' =>
      rcases encodeChar_append_inj hs with ⟨rfl, rfl⟩
      rw [ih h']
    | bad hbad _ => exact absurd ⟨c, rest, hs.symm⟩ hbad
  | @bad b rest cs hbad _ ih =>
    generalize hs : b :: rest = s at h'
    cases h' with
    | nil => cases hs
    | @char c rest' _ _ => exact absurd ⟨c, rest', hs⟩ hbad
    | bad _ h' =>
      cases hs
      rw [ih h']

end Utf8
