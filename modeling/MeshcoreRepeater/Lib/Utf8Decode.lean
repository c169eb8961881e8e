import MeshcoreRepeater.Lib.Utf8

/-! # Decoding UTF-8 with replacement

A decoder that goes on behind ill-formed input: the longest start of a sequence that is not
completed reads as one U+FFFD.

* `decode_ascii`: an ASCII byte ends whatever was begun, so a byte string may be cut behind it
  and decoded in parts.
* `decode_encode_append`: what was encoded is decoded.
* `mem_decode_ascii`, `decode_split`: ASCII characters come of ASCII bytes only, so a decoded
  text that is cut at one is the text of two byte strings.
-/

namespace Utf8

/-- What stands for bytes that are no text. -/
def replacement : Char := '\uFFFD'

/-- A sequence begun: the bytes still missing, the bounds of the next one, and the value so far.
No byte that continues a sequence is an ASCII one. -/
structure Begun where
  missing : Nat
  low : UInt8
  high : UInt8
  value : Nat
  not_ascii : 0x80 ≤ low

/-- A sequence with any continuation byte next. -/
def Begun.any (missing value : Nat) : Begun := ⟨missing, 0x80, 0xBF, value, UInt8.le_refl _⟩

/-- What a byte gives where no sequence is begun: text, or the start of a sequence. -/
def first (b : UInt8) : List Char × Option Begun :=
  if b < 0x80 then ([Char.ofNat b.toNat], none)
  else if 0xC2 ≤ b ∧ b ≤ 0xDF then ([], some (.any 1 (b.toNat % 32)))
  -- no overlong sequences, and no surrogates
  else if b = 0xE0 then ([], some ⟨2, 0xA0, 0xBF, 0, by decide⟩)
  else if b = 0xED then ([], some ⟨2, 0x80, 0x9F, 0xD, by decide⟩)
  else if 0xE0 ≤ b ∧ b ≤ 0xEF then ([], some (.any 2 (b.toNat % 16)))
  -- nor any character above U+10FFFF
  else if b = 0xF0 then ([], some ⟨3, 0x90, 0xBF, 0, by decide⟩)
  else if b = 0xF4 then ([], some ⟨3, 0x80, 0x8F, 4, by decide⟩)
  else if 0xF0 ≤ b ∧ b ≤ 0xF4 then ([], some (.any 3 (b.toNat % 8)))
  else ([replacement], none)

/-- Decoding, behind the sequence begun. -/
def decodeFrom : Option Begun → List UInt8 → List Char
  | none, [] => []
  | some _, [] => [replacement]
  | none, b :: s => (first b).1 ++ decodeFrom (first b).2 s
  | some p, b :: s =>
    if p.low ≤ b ∧ b ≤ p.high then
      let value := p.value * 64 + b.toNat % 64
      if p.missing = 1 then Char.ofNat value :: decodeFrom none s
      else decodeFrom (some (.any (p.missing - 1) value)) s
    else replacement :: ((first b).1 ++ decodeFrom (first b).2 s)

/-- The text of a byte string. -/
def decode (s : List UInt8) : List Char := decodeFrom none s

@[simp] theorem decode_nil : decode [] = [] := rfl

/-! ## Cutting behind an ASCII byte -/

/-- An ASCII byte is its character. -/
theorem first_ascii {a : UInt8} (ha : a < 0x80) : first a = ([Char.ofNat a.toNat], none) := if_pos ha

/-- Whatever was begun ends before an ASCII byte. -/
theorem decodeFrom_ascii {a : UInt8} (ha : a < 0x80) (p : Option Begun) (s t : List UInt8) :
    decodeFrom p (s ++ a :: t) = decodeFrom p s ++ Char.ofNat a.toNat :: decode t := by
  induction s generalizing p with
  | nil =>
    cases p with
    | none => simp [decodeFrom, first_ascii ha, decode]
    | some p =>
      have hnot : ¬ (p.low ≤ a ∧ a ≤ p.high) := by
        rintro ⟨hlow, -⟩
        have hcont := p.not_ascii
        rw [UInt8.le_iff_toNat_le] at hlow hcont
        rw [UInt8.lt_iff_toNat_lt] at ha
        omega
      simp [decodeFrom, if_neg hnot, first_ascii ha, decode]
  | cons b s ih =>
    cases p with
    | none => rw [List.cons_append, decodeFrom, decodeFrom, ih, List.append_assoc]
    | some p =>
      rw [List.cons_append, decodeFrom, decodeFrom]
      simp only [ih]
      -- the byte continues the sequence, ends it, or is none of it
      split
      · split
        · rw [List.cons_append]
        · rfl
      · rw [List.cons_append, List.append_assoc]

/-- So a byte string may be cut there. -/
theorem decode_ascii {a : UInt8} (ha : a < 0x80) (s t : List UInt8) :
    decode (s ++ a :: t) = decode s ++ Char.ofNat a.toNat :: decode t :=
  decodeFrom_ascii ha none s t

/-! ## What was encoded -/

/-- A byte that continues the sequence begun, and is not its last one. -/
theorem decodeFrom_next {p : Begun} {n : Nat} (hlow : p.low.toNat ≤ n) (hhigh : n ≤ p.high.toNat)
    (hmore : p.missing ≠ 1) (s : List UInt8) :
    decodeFrom (some p) (UInt8.ofNat n :: s) =
      decodeFrom (some (.any (p.missing - 1) (p.value * 64 + n % 64))) s := by
  have hn : n % 256 = n := Nat.mod_eq_of_lt (Nat.lt_of_le_of_lt hhigh p.high.toNat_lt)
  have hin : p.low ≤ UInt8.ofNat n ∧ UInt8.ofNat n ≤ p.high := by
    simpa [UInt8.le_iff_toNat_le, hn] using ⟨hlow, hhigh⟩
  rw [decodeFrom, if_pos hin, if_neg hmore, UInt8.toNat_ofNat', hn]

/-- The last byte of a sequence. -/
theorem decodeFrom_last {p : Begun} {n : Nat} (hlow : p.low.toNat ≤ n) (hhigh : n ≤ p.high.toNat)
    (hlast : p.missing = 1) (s : List UInt8) :
    decodeFrom (some p) (UInt8.ofNat n :: s) = Char.ofNat (p.value * 64 + n % 64) :: decode s := by
  have hn : n % 256 = n := Nat.mod_eq_of_lt (Nat.lt_of_le_of_lt hhigh p.high.toNat_lt)
  have hin : p.low ≤ UInt8.ofNat n ∧ UInt8.ofNat n ≤ p.high := by
    simpa [UInt8.le_iff_toNat_le, hn] using ⟨hlow, hhigh⟩
  rw [decodeFrom, if_pos hin, if_pos hlast, UInt8.toNat_ofNat', hn, decode]

/-- A lead byte only begins a sequence. -/
theorem decode_lead {n : Nat} {p : Begun} (hfirst : first (UInt8.ofNat n) = ([], some p))
    (s : List UInt8) : decode (UInt8.ofNat n :: s) = decodeFrom (some p) s := by
  rw [decode, decodeFrom, hfirst, List.nil_append]

/-- The lead byte of a two-byte sequence. -/
theorem first_two {n : Nat} (hlow : 0xC2 ≤ n) (hhigh : n ≤ 0xDF) :
    first (UInt8.ofNat n) = ([], some (.any 1 (n % 32))) := by
  have hn : n % 256 = n := Nat.mod_eq_of_lt (by omega)
  have hascii : ¬ UInt8.ofNat n < 0x80 := by
    simp [UInt8.lt_iff_toNat_lt, hn]
    omega
  have hin : 0xC2 ≤ UInt8.ofNat n ∧ UInt8.ofNat n ≤ 0xDF := by
    simpa [UInt8.le_iff_toNat_le, hn] using ⟨hlow, hhigh⟩
  rw [first, if_neg hascii, if_pos hin, UInt8.toNat_ofNat', hn]

/-- The lead byte of a three-byte sequence: what it begins takes the bytes of a character. -/
theorem first_three {v : Nat} (hlow : 0x7FF < v) (hhigh : v ≤ 0xFFFF) (hsur : v < 0xD800 ∨ 0xDFFF < v) :
    ∃ p, first (UInt8.ofNat (v / 4096 + 0xE0)) = ([], some p) ∧ p.missing = 2 ∧ p.value = v / 4096 ∧
      p.low.toNat ≤ v / 64 % 64 + 0x80 ∧ v / 64 % 64 + 0x80 ≤ p.high.toNat := by
  have hn : (v / 4096 + 0xE0) % 256 = v / 4096 + 0xE0 := Nat.mod_eq_of_lt (by omega)
  have hascii : ¬ UInt8.ofNat (v / 4096 + 0xE0) < 0x80 := by
    simp [UInt8.lt_iff_toNat_lt, hn]
  have htwo : ¬ (0xC2 ≤ UInt8.ofNat (v / 4096 + 0xE0) ∧ UInt8.ofNat (v / 4096 + 0xE0) ≤ 0xDF) := by
    simp [UInt8.le_iff_toNat_le, hn]
  have hin : 0xE0 ≤ UInt8.ofNat (v / 4096 + 0xE0) ∧ UInt8.ofNat (v / 4096 + 0xE0) ≤ 0xEF := by
    simp [UInt8.le_iff_toNat_le, hn]
    omega
  rw [first, if_neg hascii, if_neg htwo]
  -- the two lead bytes with narrower bounds, then the others
  by_cases hE0 : v / 4096 = 0
  · refine ⟨⟨2, 0xA0, 0xBF, 0, by decide⟩, ?_, rfl, hE0.symm, ?_, ?_⟩
    · rw [hE0]
      rfl
    · simp only [UInt8.reduceToNat]
      omega
    · simp only [UInt8.reduceToNat]
      omega
  by_cases hED : v / 4096 = 13
  · refine ⟨⟨2, 0x80, 0x9F, 0xD, by decide⟩, ?_, rfl, hED.symm, ?_, ?_⟩
    · rw [hED]
      rfl
    · simp only [UInt8.reduceToNat]
      omega
    · simp only [UInt8.reduceToNat]
      omega
  refine ⟨.any 2 (v / 4096), ?_, rfl, rfl, ?_, ?_⟩
  · have hne : ∀ k : UInt8, k.toNat ≠ v / 4096 + 0xE0 → UInt8.ofNat (v / 4096 + 0xE0) ≠ k := by
      rintro k hk rfl
      rw [UInt8.toNat_ofNat', hn] at hk
      exact hk rfl
    rw [if_neg (hne _ (by simp; omega)), if_neg (hne _ (by simp; omega)), if_pos hin, UInt8.toNat_ofNat', hn]
    rw [show (v / 4096 + 0xE0) % 16 = v / 4096 by omega]
  · simp [Begun.any]
  · simp [Begun.any]
    omega

/-- The lead byte of a four-byte sequence. -/
theorem first_four {v : Nat} (hlow : 0xFFFF < v) (hhigh : v ≤ 0x10FFFF) :
    ∃ p, first (UInt8.ofNat (v / 262144 + 0xF0)) = ([], some p) ∧ p.missing = 3 ∧ p.value = v / 262144 ∧
      p.low.toNat ≤ v / 4096 % 64 + 0x80 ∧ v / 4096 % 64 + 0x80 ≤ p.high.toNat := by
  have hlead : v / 262144 ≤ 4 := by omega
  have hcases : v / 262144 = 0 ∨ v / 262144 = 4 ∨ (v / 262144 ≠ 0 ∧ v / 262144 < 4) := by omega
  rcases hcases with h0 | h4 | ⟨h0, h4⟩
  · refine ⟨⟨3, 0x90, 0xBF, 0, by decide⟩, ?_, rfl, h0.symm, ?_, ?_⟩
    · rw [h0]
      rfl
    · simp only [UInt8.reduceToNat]
      omega
    · simp only [UInt8.reduceToNat]
      omega
  · refine ⟨⟨3, 0x80, 0x8F, 4, by decide⟩, ?_, rfl, h4.symm, ?_, ?_⟩
    · rw [h4]
      rfl
    · simp only [UInt8.reduceToNat]
      omega
    · simp only [UInt8.reduceToNat]
      omega
  · refine ⟨.any 3 (v / 262144), ?_, rfl, rfl, ?_, ?_⟩
    · have : v / 262144 = 1 ∨ v / 262144 = 2 ∨ v / 262144 = 3 := by omega
      rcases this with h | h | h
      all_goals
        rw [h]
        rfl
    · simp [Begun.any]
    · simp [Begun.any]
      omega

/-- One character: each of the four lengths. -/
theorem decode_encodeChar_append (c : Char) (s : List UInt8) :
    decode (String.utf8EncodeChar c ++ s) = c :: decode s := by
  have hchar : Char.ofNat c.val.toNat = c := Char.ofNat_toNat c
  -- by the length of the sequence
  rcases encodeChar_cases c with ⟨hle, henc⟩ | ⟨hlt, hle, henc⟩ | ⟨hlt, hle, henc⟩ | ⟨hlt, hle, henc⟩
  · have hascii : UInt8.ofNat c.val.toNat < 0x80 := by
      rw [UInt8.lt_iff_toNat_lt, UInt8.toNat_ofNat', Nat.mod_eq_of_lt (by omega)]
      exact Nat.lt_succ_of_le hle
    rw [henc, List.singleton_append, decode, decodeFrom, first_ascii hascii, UInt8.toNat_ofNat',
      Nat.mod_eq_of_lt (by omega : c.val.toNat < 2 ^ 8), hchar]
    rfl
  · have hlead := first_two (n := c.val.toNat / 64 + 0xC0) (by omega) (by omega)
    rw [henc, List.cons_append, decode_lead hlead, List.singleton_append,
      decodeFrom_last (by simp [Begun.any]) (by simp [Begun.any]; omega) rfl]
    have hvalue : (Begun.any 1 ((c.val.toNat / 64 + 0xC0) % 32)).value * 64 + (c.val.toNat % 64 + 0x80) % 64 =
        c.val.toNat := by
      simp only [Begun.any]
      omega
    rw [hvalue, hchar]
  · have hsur : c.val.toNat < 0xD800 ∨ 0xDFFF < c.val.toNat := by
      rcases c.valid with h | h
      · exact Or.inl h
      · exact Or.inr h.1
    rcases first_three hlt hle hsur with ⟨p, hlead, hmissing, hval, hlow, hhigh⟩
    rw [henc, List.cons_append, decode_lead hlead, List.cons_append,
      decodeFrom_next hlow hhigh (by omega), List.singleton_append,
      decodeFrom_last (by simp [Begun.any]) (by simp [Begun.any]; omega) (by simp [Begun.any, hmissing])]
    have hvalue : (Begun.any (p.missing - 1) (p.value * 64 + (c.val.toNat / 64 % 64 + 0x80) % 64)).value * 64 +
        (c.val.toNat % 64 + 0x80) % 64 = c.val.toNat := by
      simp only [Begun.any, hval]
      omega
    rw [hvalue, hchar]
  · rcases first_four hlt hle with ⟨p, hlead, hmissing, hval, hlow, hhigh⟩
    rw [henc, List.cons_append, decode_lead hlead, List.cons_append,
      decodeFrom_next hlow hhigh (by omega), List.cons_append,
      decodeFrom_next (by simp [Begun.any]) (by simp [Begun.any]; omega) (by simp [Begun.any, hmissing]),
      List.singleton_append,
      decodeFrom_last (by simp [Begun.any]) (by simp [Begun.any]; omega) (by simp [Begun.any, hmissing])]
    simp only [Begun.any, hval]
    rw [show ((c.val.toNat / 262144 * 64 + (c.val.toNat / 4096 % 64 + 0x80) % 64) * 64 +
      (c.val.toNat / 64 % 64 + 0x80) % 64) * 64 + (c.val.toNat % 64 + 0x80) % 64 = c.val.toNat by omega, hchar]

/-- What was encoded is decoded, whatever follows it. -/
theorem decode_encode_append (cs : List Char) (s : List UInt8) : decode (encode cs ++ s) = cs ++ decode s := by
  induction cs with
  | nil => rfl
  | cons c cs ih => rw [encode_cons, List.append_assoc, decode_encodeChar_append, ih, List.cons_append]

/-! ## Cutting what was encoded -/

/-- An ASCII character is its byte. -/
theorem encodeChar_ascii {a : UInt8} (ha : a < 0x80) : String.utf8EncodeChar (Char.ofNat a.toNat) = [a] := by
  have hlt : a.toNat < 128 := ha
  have hval : (Char.ofNat a.toNat).val.toNat = a.toNat := by
    have hvalid : a.toNat.isValidChar := Or.inl (by omega)
    rw [Char.ofNat, dif_pos hvalid]
    rfl
  rcases encodeChar_cases (Char.ofNat a.toNat) with ⟨-, henc⟩ | ⟨hgt, -⟩ | ⟨hgt, -⟩ | ⟨hgt, -⟩
  · rw [henc, hval, UInt8.ofNat_toNat]
  all_goals omega

/-- Every byte of a longer sequence is none of ASCII. -/
theorem not_ascii_of_mem {c : Char} {b : UInt8} (hb : b ∈ String.utf8EncodeChar c) (hascii : b < 0x80) :
    String.utf8EncodeChar c = [b] ∧ c = Char.ofNat b.toNat := by
  have hlt : b.toNat < 128 := hascii
  have hne : ∀ n : Nat, 0x80 ≤ n → n < 256 → b ≠ UInt8.ofNat n := by
    rintro n hn hn' rfl
    rw [UInt8.toNat_ofNat', Nat.mod_eq_of_lt hn'] at hlt
    omega
  rcases encodeChar_cases c with ⟨hle, henc⟩ | ⟨_, _, henc⟩ | ⟨_, _, henc⟩ | ⟨_, _, henc⟩
  · rw [henc] at hb ⊢
    have hbc := List.mem_singleton.mp hb
    refine ⟨by rw [hbc], ?_⟩
    rw [hbc, UInt8.toNat_ofNat', Nat.mod_eq_of_lt (by omega : c.val.toNat < 2 ^ 8)]
    exact (Char.ofNat_toNat c).symm
  all_goals
    rw [henc] at hb
    simp only [List.mem_cons, List.not_mem_nil, or_false] at hb
    exfalso
  · rcases hb with h | h
    · exact hne _ (by omega) (by omega) h
    · exact hne _ (by omega) (by omega) h
  · rcases hb with h | h | h
    · exact hne _ (by omega) (by omega) h
    · exact hne _ (by omega) (by omega) h
    · exact hne _ (by omega) (by omega) h
  · rcases hb with h | h | h | h
    · exact hne _ (by omega) (by omega) h
    · exact hne _ (by omega) (by omega) h
    · exact hne _ (by omega) (by omega) h
    · exact hne _ (by omega) (by omega) h

/-- An ASCII byte of an encoded text is one of its characters. -/
theorem encode_split {cs : List Char} {x y : List UInt8} {a : UInt8} (ha : a < 0x80)
    (h : encode cs = x ++ a :: y) :
    ∃ ds es, cs = ds ++ Char.ofNat a.toNat :: es ∧ encode ds = x ∧ encode es = y := by
  induction cs generalizing x with
  | nil => exact absurd h (by simp)
  | cons c cs ih =>
    rw [encode_cons] at h
    rcases List.append_eq_append_iff.mp h with ⟨mid, hx, hrest⟩ | ⟨mid, hc, hrest⟩
    · rcases ih hrest with ⟨ds, es, rfl, hds, hes⟩
      exact ⟨c :: ds, es, rfl, by rw [encode_cons, hds, hx], hes⟩
    · cases mid with
      | nil =>
        rw [List.nil_append] at hrest
        rcases ih (x := []) hrest.symm with ⟨ds, es, rfl, hds, hes⟩
        have hnil : ds = [] := by
          cases ds with
          | nil => rfl
          | cons d ds => exact absurd hds (by simp)
        subst hnil
        refine ⟨[c], es, rfl, ?_, hes⟩
        rw [encode_cons, encode_nil, hc]
        simp
      | cons b mid =>
        rw [List.cons_append, List.cons.injEq] at hrest
        rcases hrest with ⟨rfl, hrest⟩
        have hmem : a ∈ String.utf8EncodeChar c := by
          rw [hc]
          simp
        rcases not_ascii_of_mem hmem ha with ⟨hone, hchar⟩
        rw [hone] at hc
        rcases List.append_eq_singleton_iff.mp hc.symm with ⟨rfl, hmid⟩ | ⟨rfl, hmid⟩
        · rw [List.cons.injEq] at hmid
          rw [hmid.2, List.nil_append] at hrest
          exact ⟨[], cs, by rw [hchar]; rfl, rfl, hrest.symm⟩
        · cases hmid

/-- Only the empty text is encoded as nothing. -/
theorem encode_eq_nil {cs : List Char} (h : encode cs = []) : cs = [] := by
  cases cs with
  | nil => rfl
  | cons c cs => exact absurd (List.append_eq_nil_iff.mp h).1 (encodeChar_ne_nil c)

/-- A text may be cut in front of an ASCII byte. -/
theorem encode_cut {cs : List Char} {x y : List UInt8} (hy : ∀ a, y.head? = some a → a < 0x80)
    (h : encode cs = x ++ y) : ∃ ds es, cs = ds ++ es ∧ encode ds = x ∧ encode es = y := by
  cases y with
  | nil => exact ⟨cs, [], (List.append_nil cs).symm, by rw [h, List.append_nil], rfl⟩
  | cons a y =>
    have ha := hy a rfl
    rcases encode_split ha h with ⟨ds, es, rfl, hds, hes⟩
    refine ⟨ds, Char.ofNat a.toNat :: es, rfl, hds, ?_⟩
    rw [encode_cons, encodeChar_ascii ha, hes, List.singleton_append]

/-- The text of ASCII bytes. -/
def asciiText (s : List UInt8) : List Char := s.map fun a => Char.ofNat a.toNat

/-- Encoding gives the bytes back. -/
theorem encode_asciiText {s : List UInt8} (h : ∀ a ∈ s, a < 0x80) : encode (asciiText s) = s := by
  induction s with
  | nil => rfl
  | cons a s ih =>
    rw [asciiText, List.map_cons, encode_cons, encodeChar_ascii (h a List.mem_cons_self)]
    exact congrArg (a :: ·) (ih fun b hb => h b (List.mem_cons_of_mem a hb))

/-- A text may be cut behind ASCII bytes it starts with. -/
theorem encode_cut_ascii {cs : List Char} {x y : List UInt8} (hx : ∀ a ∈ x, a < 0x80) (h : encode cs = x ++ y) :
    ∃ es, cs = asciiText x ++ es ∧ encode es = y := by
  induction x generalizing cs with
  | nil => exact ⟨cs, rfl, h⟩
  | cons a x ih =>
    rcases encode_split (x := []) (hx a List.mem_cons_self) h with ⟨ds, es, rfl, hds, hes⟩
    rcases ih (fun b hb => hx b (List.mem_cons_of_mem a hb)) hes with ⟨es', rfl, hes'⟩
    rw [encode_eq_nil hds]
    exact ⟨es', rfl, hes'⟩

/-- ASCII bytes are ASCII characters, wherever they stand. -/
theorem mem_encode_ascii {cs : List Char} {a : UInt8} (ha : a < 0x80) :
    a ∈ encode cs ↔ Char.ofNat a.toNat ∈ cs := by
  constructor
  · intro h
    rcases List.append_of_mem h with ⟨x, y, hxy⟩
    rcases encode_split ha hxy with ⟨ds, es, rfl, -, -⟩
    simp
  · intro h
    refine List.mem_flatMap.mpr ⟨_, h, ?_⟩
    rw [encodeChar_ascii ha]
    exact List.mem_singleton_self a

/-- An ASCII byte at the front is the first character. -/
theorem head_of_encode {cs : List Char} {a : UInt8} (ha : a < 0x80) (h : (encode cs).head? = some a) :
    cs.head? = some (Char.ofNat a.toNat) := by
  rcases List.head?_eq_some_iff.mp h with ⟨y, hy⟩
  rcases encode_split (x := []) ha hy with ⟨ds, es, rfl, hds, -⟩
  rw [encode_eq_nil hds]
  rfl

theorem getLast_of_encode {cs : List Char} {a : UInt8} (ha : a < 0x80) (h : (encode cs).getLast? = some a) :
    cs.getLast? = some (Char.ofNat a.toNat) := by
  rcases List.getLast?_eq_some_iff.mp h with ⟨x, hx⟩
  rcases encode_split (y := []) ha hx with ⟨ds, es, rfl, -, hes⟩
  rw [encode_eq_nil hes, List.getLast?_concat]

theorem decode_encode (cs : List Char) : decode (encode cs) = cs := by
  have h := decode_encode_append cs []
  rwa [List.append_nil, decode_nil, List.append_nil] at h

theorem encode_inj {cs ds : List Char} (h : encode cs = encode ds) : cs = ds := by
  rw [← decode_encode cs, h, decode_encode]

/-! ## What is decoded as ASCII -/

/-- A sequence that stands for characters only that are neither ASCII ones nor surrogates, by the
least and the greatest value that the next byte can give. -/
def Begun.Sound (p : Begun) : Prop :=
  let least := p.value * 64 + p.low.toNat % 64
  let greatest := p.value * 64 + p.high.toNat % 64
  p.high.toNat ≤ 0xBF ∧
    (p.missing = 1 ∧ 0x80 ≤ least ∧ greatest < 0x110000 ∧ (greatest < 0xD800 ∨ 0xE000 ≤ least) ∨
      p.missing = 2 ∧ 2 ≤ least ∧ greatest < 0x4400 ∧ (greatest < 0x360 ∨ 0x380 ≤ least) ∨
      p.missing = 3 ∧ 1 ≤ least ∧ greatest < 0x110 ∧ (greatest < 0xD ∨ 0xE ≤ least))

theorem Begun.sound_any {missing value : Nat}
    (h : missing = 1 ∧ 2 ≤ value ∧ value < 0x4400 ∧ (value < 0x360 ∨ 0x380 ≤ value) ∨
      missing = 2 ∧ 1 ≤ value ∧ value < 0x110 ∧ (value < 0xD ∨ 0xE ≤ value) ∨
      missing = 3 ∧ 1 ≤ value ∧ value < 4) : (Begun.any missing value).Sound := by
  simp only [Begun.Sound, Begun.any, UInt8.reduceToNat]
  omega

theorem sound_first {b : UInt8} {p : Begun} (h : (first b).2 = some p) : p.Sound ∧ (first b).1 = [] := by
  rw [first] at h ⊢
  split at h
  · cases h
  rename_i hascii
  rw [if_neg hascii]
  split at h
  · rename_i htwo
    rw [if_pos htwo]
    cases h
    simp only [UInt8.le_iff_toNat_le, UInt8.toNat_ofNat] at htwo
    exact ⟨Begun.sound_any (by omega), rfl⟩
  rename_i htwo
  rw [if_neg htwo]
  split at h
  · rename_i he0
    rw [if_pos he0]
    cases h
    exact ⟨by simp [Begun.Sound], rfl⟩
  rename_i he0
  rw [if_neg he0]
  split at h
  · rename_i hed
    rw [if_pos hed]
    cases h
    exact ⟨by simp [Begun.Sound], rfl⟩
  rename_i hed
  rw [if_neg hed]
  split at h
  · rename_i hthree
    rw [if_pos hthree]
    cases h
    have hed' : b.toNat ≠ 0xED := fun heq => hed (UInt8.toNat_inj.mp heq)
    have he0' : b.toNat ≠ 0xE0 := fun heq => he0 (UInt8.toNat_inj.mp heq)
    simp only [UInt8.le_iff_toNat_le, UInt8.toNat_ofNat] at hthree
    exact ⟨Begun.sound_any (by omega), rfl⟩
  rename_i hthree
  rw [if_neg hthree]
  split at h
  · rename_i hf0
    rw [if_pos hf0]
    cases h
    exact ⟨by simp [Begun.Sound], rfl⟩
  rename_i hf0
  rw [if_neg hf0]
  split at h
  · rename_i hf4
    rw [if_pos hf4]
    cases h
    exact ⟨by simp [Begun.Sound], rfl⟩
  rename_i hf4
  rw [if_neg hf4]
  split at h
  · rename_i hfour
    rw [if_pos hfour]
    cases h
    have hf0' : b.toNat ≠ 0xF0 := fun heq => hf0 (UInt8.toNat_inj.mp heq)
    have hf4' : b.toNat ≠ 0xF4 := fun heq => hf4 (UInt8.toNat_inj.mp heq)
    simp only [UInt8.le_iff_toNat_le, UInt8.toNat_ofNat] at hfour
    exact ⟨Begun.sound_any (by omega), rfl⟩
  · cases h

theorem Begun.Sound.next {p : Begun} (h : p.Sound) {b : UInt8} (hlow : p.low ≤ b) (hhigh : b ≤ p.high)
    (hmore : p.missing ≠ 1) : (Begun.any (p.missing - 1) (p.value * 64 + b.toNat % 64)).Sound := by
  have hcont := p.not_ascii
  simp only [UInt8.le_iff_toNat_le, UInt8.reduceToNat] at hlow hhigh hcont
  rw [Begun.Sound] at h
  exact Begun.sound_any (by omega)

/-- The character of a complete sequence. -/
theorem Begun.Sound.last {p : Begun} (h : p.Sound) {b : UInt8} (hlow : p.low ≤ b) (hhigh : b ≤ p.high)
    (hlast : p.missing = 1) : 0x80 ≤ (Char.ofNat (p.value * 64 + b.toNat % 64)).toNat := by
  have hcont := p.not_ascii
  simp only [UInt8.le_iff_toNat_le, UInt8.reduceToNat] at hlow hhigh hcont
  rw [Begun.Sound] at h
  have hvalidChar : (p.value * 64 + b.toNat % 64).isValidChar := by
    rw [Nat.isValidChar]
    omega
  have hval : (Char.ofNat (p.value * 64 + b.toNat % 64)).toNat = p.value * 64 + b.toNat % 64 := by
    rw [Char.ofNat, dif_pos hvalidChar]
    rfl
  omega

/-- What a byte gives that begins nothing: an ASCII character for an ASCII byte, and U+FFFD. -/
theorem mem_first {b : UInt8} {c : Char} (h : c ∈ (first b).1) :
    (c = Char.ofNat b.toNat ∧ b < 0x80) ∨ (c = replacement ∧ ¬ b < 0x80) := by
  rw [first] at h
  split at h
  · rename_i hascii
    exact Or.inl ⟨List.mem_singleton.mp h, hascii⟩
  rename_i hascii
  refine Or.inr ⟨?_, hascii⟩
  repeat
    split at h
    · cases h
  exact List.mem_singleton.mp h

theorem first_none {b : UInt8} (hascii : ¬ b < 0x80) (h : (first b).2 = none) : (first b).1 = [replacement] := by
  rw [first, if_neg hascii] at h ⊢
  repeat
    split at h
    · cases h
  rename_i htwo he0 hed hthree hf0 hf4 hfour
  rw [if_neg htwo, if_neg he0, if_neg hed, if_neg hthree, if_neg hf0, if_neg hf4, if_neg hfour]

/-- An ASCII character comes of an ASCII byte. -/
theorem of_mem_decodeFrom {p : Option Begun} (hp : ∀ q, p = some q → q.Sound) {s : List UInt8} {c : Char}
    (h : c ∈ decodeFrom p s) (hc : c.toNat < 0x80) : ∃ a ∈ s, c = Char.ofNat a.toNat ∧ a < 0x80 := by
  have hreplacement : c ≠ replacement := by
    rintro rfl
    exact absurd hc (by decide)
  induction s generalizing p with
  | nil =>
    cases p with
    | none => cases h
    | some p => exact absurd (List.mem_singleton.mp h) hreplacement
  | cons b s ih =>
    have hin : (∃ a ∈ s, c = Char.ofNat a.toNat ∧ a < 0x80) → ∃ a ∈ b :: s, c = Char.ofNat a.toNat ∧ a < 0x80 := by
      rintro ⟨a, ha, hca⟩
      exact ⟨a, List.mem_cons_of_mem b ha, hca⟩
    have hfirst : c ∈ (first b).1 ++ decodeFrom (first b).2 s → ∃ a ∈ b :: s, c = Char.ofNat a.toNat ∧ a < 0x80 := by
      intro h
      rcases List.mem_append.mp h with h | h
      · rcases mem_first h with ⟨hca, hb⟩ | ⟨hca, -⟩
        · exact ⟨b, List.mem_cons_self, hca, hb⟩
        · exact absurd hca hreplacement
      · exact hin (ih (fun q hq => (sound_first hq).1) h)
    cases p with
    | none => exact hfirst h
    | some p =>
      have hsound := hp p rfl
      rw [decodeFrom] at h
      split at h
      · rename_i hbounds
        simp only at h
        split at h
        · rename_i hlast
          rcases List.mem_cons.mp h with rfl | h
          · exact absurd (hsound.last hbounds.1 hbounds.2 hlast) (by omega)
          · exact hin (ih (fun q hq => by cases hq) h)
        · rename_i hmore
          refine hin (ih (fun q hq => ?_) h)
          cases hq
          exact hsound.next hbounds.1 hbounds.2 hmore
      · rcases List.mem_cons.mp h with rfl | h
        · exact absurd rfl hreplacement
        · exact hfirst h

/-- Bytes that are decoded as ASCII are ASCII. -/
theorem ascii_of_decodeFrom {p : Option Begun} (hp : ∀ q, p = some q → q.Sound) {s : List UInt8}
    (h : ∀ c ∈ decodeFrom p s, c.toNat < 0x80) : p = none ∧ ∀ a ∈ s, a < 0x80 := by
  have hreplacement : ¬ replacement.toNat < 0x80 := by decide
  induction s generalizing p with
  | nil =>
    cases p with
    | none => exact ⟨rfl, fun a ha => by cases ha⟩
    | some p => exact absurd (h _ (List.mem_singleton_self _)) hreplacement
  | cons b s ih =>
    cases p with
    | none =>
      refine ⟨rfl, ?_⟩
      rw [decodeFrom] at h
      rcases ih (fun q hq => (sound_first hq).1) fun c hc => h c (List.mem_append_right _ hc) with ⟨hnone, hs⟩
      intro a ha
      rcases List.mem_cons.mp ha with rfl | ha
      · by_contra hascii
        rw [first_none hascii hnone] at h
        exact absurd (h _ List.mem_cons_self) hreplacement
      · exact hs a ha
    | some p =>
      -- what was begun ends in a character that is none of ASCII
      exfalso
      have hsound := hp p rfl
      rw [decodeFrom] at h
      split at h
      · rename_i hbounds
        simp only at h
        split at h
        · rename_i hlast
          have hchar := h _ List.mem_cons_self
          exact absurd (hsound.last hbounds.1 hbounds.2 hlast) (by omega)
        · rename_i hmore
          refine absurd (ih (fun q hq => ?_) h).1 (by simp)
          cases hq
          exact hsound.next hbounds.1 hbounds.2 hmore
      · exact absurd (h _ List.mem_cons_self) hreplacement

theorem toNat_ascii {a : UInt8} (ha : a < 0x80) : (Char.ofNat a.toNat).toNat = a.toNat := by
  have hlt : a.toNat < 128 := ha
  have hvalid : a.toNat.isValidChar := Or.inl (by omega)
  rw [Char.ofNat, dif_pos hvalid]
  rfl

theorem ofNat_ascii_inj {a b : UInt8} (ha : a < 0x80) (hb : b < 0x80)
    (h : Char.ofNat a.toNat = Char.ofNat b.toNat) : a = b := by
  have hnat := congrArg Char.toNat h
  rw [toNat_ascii ha, toNat_ascii hb] at hnat
  exact UInt8.toNat_inj.mp hnat

/-- ASCII bytes are ASCII characters to the decoder too. -/
theorem mem_decode_ascii {s : List UInt8} {a : UInt8} (ha : a < 0x80) : Char.ofNat a.toNat ∈ decode s ↔ a ∈ s := by
  constructor
  · intro h
    have hlt : (Char.ofNat a.toNat).toNat < 0x80 := by
      rw [toNat_ascii ha]
      exact ha
    rcases of_mem_decodeFrom (fun q hq => by cases hq) h hlt with ⟨b, hb, heq, hascii⟩
    exact ofNat_ascii_inj ha hascii heq ▸ hb
  · intro h
    rcases List.append_of_mem h with ⟨t, u, rfl⟩
    rw [decode_ascii ha]
    simp

/-- Text that is cut at the first place of an ASCII character: the bytes are cut there too. -/
theorem decode_split {s : List UInt8} {a : UInt8} (ha : a < 0x80) {x y : List Char}
    (h : decode s = x ++ Char.ofNat a.toNat :: y) (hx : Char.ofNat a.toNat ∉ x) :
    ∃ t u, s = t ++ a :: u ∧ decode t = x ∧ decode u = y := by
  have hmem : a ∈ s := by
    rw [← mem_decode_ascii ha, h]
    simp
  rcases List.eq_append_cons_of_mem hmem with ⟨t, u, rfl, ht⟩
  rw [decode_ascii ha] at h
  rw [← mem_decode_ascii ha] at ht
  refine ⟨t, u, rfl, ?_⟩
  rcases List.append_eq_append_iff.mp h with ⟨mid, hxm, hrest⟩ | ⟨mid, htm, hrest⟩
  · cases mid with
    | nil =>
      rw [List.nil_append, List.cons.injEq] at hrest
      exact ⟨by rw [hxm, List.append_nil], hrest.2⟩
    | cons c mid =>
      rw [List.cons_append, List.cons.injEq] at hrest
      rw [hxm, ← hrest.1] at hx
      exact absurd (List.mem_append_right _ List.mem_cons_self) hx
  · cases mid with
    | nil =>
      rw [List.nil_append, List.cons.injEq] at hrest
      exact ⟨by rw [htm, List.append_nil], hrest.2.symm⟩
    | cons c mid =>
      rw [List.cons_append, List.cons.injEq] at hrest
      rw [htm, ← hrest.1] at ht
      exact absurd (List.mem_append_right _ List.mem_cons_self) ht

theorem decode_asciiText {s : List UInt8} (h : ∀ a ∈ s, a < 0x80) : decode s = asciiText s := by
  rw [← decode_encode (asciiText s), encode_asciiText h]

/-- Bytes that are decoded as ASCII text are that text. -/
theorem encode_decode_ascii {s : List UInt8} (h : ∀ c ∈ decode s, c.toNat < 0x80) : encode (decode s) = s := by
  have hascii := (ascii_of_decodeFrom (fun q hq => by cases hq) h).2
  rw [decode_asciiText hascii, encode_asciiText hascii]

end Utf8
