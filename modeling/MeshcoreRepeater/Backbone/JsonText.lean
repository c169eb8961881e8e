import MeshcoreRepeater.Backbone.Json
import MeshcoreRepeater.Lib.JsonString
import MeshcoreRepeater.Lib.Utf8
import Mathlib.Data.FinEnum

/-! # What the JSON strings of the client say

Names come off the air as arbitrary bytes. `utf8_seq` finds the well-formed sequences
(`utf8Seq_encode`, `utf8Seq_sound`) and reads no further than the terminator
(`utf8SeqIn_eq`), so that what `jb_str` writes is JSON, and means the name with `?` for the
bytes that are no part of a sequence (`jbStr_means`).

* `scan_exists`: every byte string reads as something.
* `jbStrLoop_adds`, `jbStr_adds`: the loop adds what the string reads as.
* `jbStr_means`: what is added is JSON, and means it.
-/

namespace Meshcore

set_option maxRecDepth 8000

open ByteLib

/-! ## Sequences -/

/-- A continuation byte. -/
def IsTail (c : UInt8) : Prop := 0x80 ≤ c.toNat ∧ c.toNat < 0xC0

instance (c : UInt8) : Decidable (IsTail c) := inferInstanceAs (Decidable (_ ∧ _))

/-- What holds of the 256 bytes. -/
theorem forall_uint8 {P : UInt8 → Prop} (h : ∀ n < 256, P (UInt8.ofNat n)) (c : UInt8) : P c := by
  have := h c.toNat c.toNat_lt
  rwa [UInt8.ofNat_toNat] at this

/-- The mask picks the continuation bytes. -/
theorem tail_iff (c : UInt8) : c &&& 0xC0 = 0x80 ↔ IsTail c := by
  unfold IsTail
  exact forall_uint8 (P := fun c => c &&& 0xC0 = 0x80 ↔ 0x80 ≤ c.toNat ∧ c.toNat < 0xC0) (by decide) c

/-- Six bits of each are the code point's. -/
theorem tail_bits (c : UInt8) : (c &&& 0x3F).toNat = c.toNat % 64 :=
  forall_uint8 (P := fun c => (c &&& 0x3F).toNat = c.toNat % 64) (by decide) c

/-- What a lead byte says, by where it lies. -/
theorem utf8Lead_eq (c : UInt8) : utf8Lead c =
    if c.toNat < 0xC0 then none
    else if c.toNat < 0xE0 then some (2, UInt32.ofNat (c.toNat - 0xC0), 0x80)
    else if c.toNat < 0xF0 then some (3, UInt32.ofNat (c.toNat - 0xE0), 0x800)
    else if c.toNat < 0xF8 then some (4, UInt32.ofNat (c.toNat - 0xF0), 0x10000)
    else none :=
  forall_uint8 (P := fun c => utf8Lead c =
    if c.toNat < 0xC0 then none
    else if c.toNat < 0xE0 then some (2, UInt32.ofNat (c.toNat - 0xC0), 0x80)
    else if c.toNat < 0xF0 then some (3, UInt32.ofNat (c.toNat - 0xE0), 0x800)
    else if c.toNat < 0xF8 then some (4, UInt32.ofNat (c.toNat - 0xF0), 0x10000)
    else none) (by decide) c

/-- A continuation byte adds its six bits. -/
theorem utf8_push {cp : Nat} (h : cp < 2 ^ 26) (c : UInt8) :
    UInt32.ofNat cp <<< 6 ||| (c &&& 0x3F).toUInt32 = UInt32.ofNat (cp * 64 + c.toNat % 64) := by
  apply UInt32.toNat_inj.mp
  rw [UInt32.toNat_or, UInt32.toNat_shiftLeft, UInt8.toNat_toUInt32, tail_bits, UInt32.toNat_ofNat', UInt32.toNat_ofNat']
  have hsix : (6 : UInt32).toNat % 32 = 6 := by decide
  have hbits : c.toNat % 64 < 2 ^ 6 := Nat.mod_lt _ (by omega)
  generalize c.toNat % 64 = bits at hbits ⊢
  have hor := Nat.shiftLeft_add_eq_or_of_lt hbits cp
  rw [Nat.shiftLeft_eq] at hor
  rw [hsix, Nat.mod_eq_of_lt (by omega : cp < 2 ^ 32), Nat.shiftLeft_eq,
    Nat.mod_eq_of_lt (by omega : cp * 2 ^ 6 < 2 ^ 32), ← hor]
  omega

/-- The code point that tails bring `cp` to. -/
def tailValue (tails : Bytes) (cp : Nat) : Nat := tails.foldl (fun v c => v * 64 + c.toNat % 64) cp

/-- Each tail adds six bits, no more. -/
theorem tailValue_lt (tails : Bytes) (cp : Nat) : tailValue tails cp < (cp + 1) * 64 ^ tails.length := by
  induction tails generalizing cp with
  | nil => simp [tailValue]
  | cons c tails ih =>
    have hrest := ih (cp * 64 + c.toNat % 64)
    have hbits : c.toNat % 64 < 64 := Nat.mod_lt _ (by omega)
    calc tailValue (c :: tails) cp < (cp * 64 + c.toNat % 64 + 1) * 64 ^ tails.length := hrest
      _ ≤ ((cp + 1) * 64) * 64 ^ tails.length := Nat.mul_le_mul_right _ (by omega)
      _ = (cp + 1) * 64 ^ (c :: tails).length := by
        rw [List.length_cons, Nat.pow_succ, Nat.mul_assoc, Nat.mul_comm 64]

/-- The continuation bytes are gathered when they are all there. -/
theorem utf8Tail_eq (n : Nat) (s : Bytes) {cp : Nat} (h : (cp + 1) * 64 ^ n ≤ 2 ^ 32) :
    utf8Tail n s (UInt32.ofNat cp) =
      if n ≤ s.length ∧ ∀ c ∈ s.take n, IsTail c then some (UInt32.ofNat (tailValue (s.take n) cp)) else none := by
  induction n generalizing s cp with
  | zero => simp [utf8Tail, tailValue]
  | succ n ih =>
    cases s with
    | nil => simp [utf8Tail]
    | cons c s =>
      have hpos : 1 ≤ 64 ^ n := Nat.one_le_pow _ _ (by omega)
      have hstep : (cp + 1) * 64 * 64 ^ n ≤ 2 ^ 32 := by
        rw [Nat.pow_succ, Nat.mul_comm (64 ^ n)] at h
        rwa [Nat.mul_assoc]
      -- the shift does not run out of the 32 bits
      have hcp : cp < 2 ^ 26 := by
        have : (cp + 1) * 64 * 1 ≤ (cp + 1) * 64 * 64 ^ n := Nat.mul_le_mul_left _ hpos
        omega
      -- the loop goes on with a tail, and stops at anything else
      by_cases htail : IsTail c
      · have hnext : (cp * 64 + c.toNat % 64 + 1) * 64 ^ n ≤ 2 ^ 32 := by
          have hbits : c.toNat % 64 < 64 := Nat.mod_lt _ (by omega)
          exact (Nat.mul_le_mul_right _ (by omega)).trans hstep
        have hpush : utf8Tail (n + 1) (c :: s) (UInt32.ofNat cp) =
            utf8Tail n s (UInt32.ofNat (cp * 64 + c.toNat % 64)) := by
          simp only [utf8Tail, List.getD_cons_zero, (tail_iff c).mpr htail, ne_eq, not_true, if_false,
            List.drop_succ_cons, List.drop_zero, utf8_push hcp]
        rw [hpush, ih s hnext]
        simp [htail, tailValue]
      · have hstop : utf8Tail (n + 1) (c :: s) (UInt32.ofNat cp) = none := by
          simp [utf8Tail, mt (tail_iff c).mp htail]
        rw [hstop, if_neg]
        rintro ⟨-, hall⟩
        exact htail (hall c (by simp))

/-- The code point is none that UTF-8 leaves out. -/
def IsScalar (cp : Nat) : Prop := cp ≤ 0x10FFFF ∧ ¬ (0xD800 ≤ cp ∧ cp ≤ 0xDFFF)

instance (cp : Nat) : Decidable (IsScalar cp) := inferInstanceAs (Decidable (_ ∧ _))

/-- The code point of a character is one. -/
theorem isScalar_char (c : Char) : IsScalar c.val.toNat := by
  unfold IsScalar
  rcases c.valid with h | h
  · have : c.val.toNat < 0xD800 := h
    omega
  · have hlow : 0xDFFF < c.val.toNat := h.1
    have hhigh : c.val.toNat < 0x110000 := h.2
    omega

/-- The character of a code point. -/
def charOf {cp : Nat} (h : IsScalar cp) : Char :=
  ⟨UInt32.ofNat cp, by
    have hcp : (UInt32.ofNat cp).toNat = cp := by
      rw [UInt32.toNat_ofNat']
      have := h.1
      omega
    show (UInt32.ofNat cp).toNat.isValidChar
    rw [hcp]
    unfold Nat.isValidChar
    have := h.1
    have := h.2
    omega⟩

/-- And back. -/
theorem val_charOf {cp : Nat} (h : IsScalar cp) : (charOf h).val.toNat = cp := by
  show (UInt32.ofNat cp).toNat = cp
  rw [UInt32.toNat_ofNat']
  have := h.1
  omega

/-- The last test of `utf8_seq`, on a code point of up to 21 bits. -/
theorem utf8_check {cp least : Nat} (hcp : cp < 2 ^ 32) (hleast : least < 2 ^ 32) (n : Nat) :
    (if UInt32.ofNat cp < UInt32.ofNat least ∨ 0x10FFFF < UInt32.ofNat cp ∨
        (0xD800 ≤ UInt32.ofNat cp ∧ UInt32.ofNat cp ≤ 0xDFFF) then 0 else n) =
      if least ≤ cp ∧ IsScalar cp then n else 0 := by
  -- the code compares in 32 bits
  have hnat : ∀ k < 2 ^ 32, (UInt32.ofNat k).toNat = k := by
    intro k hk
    rw [UInt32.toNat_ofNat', Nat.mod_eq_of_lt hk]
  have hmax : (0x10FFFF : UInt32) < UInt32.ofNat cp ↔ 0x10FFFF < cp := by
    rw [UInt32.lt_iff_toNat_lt, hnat cp hcp]
    exact Iff.rfl
  have hlow : (0xD800 : UInt32) ≤ UInt32.ofNat cp ↔ 0xD800 ≤ cp := by
    rw [UInt32.le_iff_toNat_le, hnat cp hcp]
    exact Iff.rfl
  have hhigh : UInt32.ofNat cp ≤ (0xDFFF : UInt32) ↔ cp ≤ 0xDFFF := by
    rw [UInt32.le_iff_toNat_le, hnat cp hcp]
    exact Iff.rfl
  have hmin : UInt32.ofNat cp < UInt32.ofNat least ↔ cp < least := by
    rw [UInt32.lt_iff_toNat_lt, hnat cp hcp, hnat least hleast]
  simp only [hmax, hlow, hhigh, hmin]
  unfold IsScalar
  by_cases h : least ≤ cp ∧ cp ≤ 0x10FFFF ∧ ¬ (0xD800 ≤ cp ∧ cp ≤ 0xDFFF)
  · rw [if_pos h, if_neg]
    omega
  · rw [if_neg h, if_pos]
    omega

/-- A byte below 0x80 is a sequence of its own. -/
theorem utf8Seq_ascii {c : UInt8} (h : c.toNat < 0x80) (rest : Bytes) : utf8Seq (c :: rest) = 1 := by
  have hlt : c < 0x80 := UInt8.lt_iff_toNat_lt.mpr h
  simp [utf8Seq, hlt]

/-- The lead bytes that `n` tails follow, what is taken off them, and the least code point. -/
def IsLead (c : UInt8) (n low least : Nat) : Prop :=
  (0xC0 ≤ c.toNat ∧ c.toNat < 0xE0 ∧ n = 1 ∧ low = 0xC0 ∧ least = 0x80) ∨
    (0xE0 ≤ c.toNat ∧ c.toNat < 0xF0 ∧ n = 2 ∧ low = 0xE0 ∧ least = 0x800) ∨
    (0xF0 ≤ c.toNat ∧ c.toNat < 0xF8 ∧ n = 3 ∧ low = 0xF0 ∧ least = 0x10000)

/-- Such bytes are the lead bytes of the code. -/
theorem IsLead.utf8Lead {c : UInt8} {n low least : Nat} (h : IsLead c n low least) :
    utf8Lead c = some (UInt8.ofNat (n + 1) |>.toNat, UInt32.ofNat (c.toNat - low), UInt32.ofNat least) := by
  rw [utf8Lead_eq]
  rcases h with ⟨hlow, hhigh, rfl, rfl, rfl⟩ | ⟨hlow, hhigh, rfl, rfl, rfl⟩ | ⟨hlow, hhigh, rfl, rfl, rfl⟩
  · rw [if_neg (by omega), if_pos hhigh]
    rfl
  · rw [if_neg (by omega), if_neg (by omega), if_pos hhigh]
    rfl
  · rw [if_neg (by omega), if_neg (by omega), if_neg (by omega), if_pos hhigh]
    rfl

/-- With their tails they make 21 bits at most. -/
theorem IsLead.bounds {c : UInt8} {n low least : Nat} (h : IsLead c n low least) :
    0x80 ≤ c.toNat ∧ (UInt8.ofNat (n + 1)).toNat = n + 1 ∧ (c.toNat - low + 1) * 64 ^ n ≤ 2 ^ 21 ∧ least < 2 ^ 32 := by
  rcases h with ⟨hlow, hhigh, rfl, rfl, rfl⟩ | ⟨hlow, hhigh, rfl, rfl, rfl⟩ | ⟨hlow, hhigh, rfl, rfl, rfl⟩
  all_goals
    refine ⟨by omega, by decide, by omega, by omega⟩

/-- Any other byte from 0x80 on starts no sequence. -/
theorem utf8Seq_of_not_lead {c : UInt8} (hc : 0x80 ≤ c.toNat) (h : ∀ n low least, ¬ IsLead c n low least)
    (rest : Bytes) : utf8Seq (c :: rest) = 0 := by
  -- between the tails and 0xF8 every byte is a lead byte
  have hnone : utf8Lead c = none := by
    rw [utf8Lead_eq]
    by_cases hlow : c.toNat < 0xC0
    · rw [if_pos hlow]
    have htwo : ¬ c.toNat < 0xE0 := fun hlt => h 1 _ _ (.inl ⟨by omega, hlt, rfl, rfl, rfl⟩)
    have hthree : ¬ c.toNat < 0xF0 := fun hlt => h 2 _ _ (.inr (.inl ⟨by omega, hlt, rfl, rfl, rfl⟩))
    have hfour : ¬ c.toNat < 0xF8 := fun hlt => h 3 _ _ (.inr (.inr ⟨by omega, hlt, rfl, rfl, rfl⟩))
    rw [if_neg hlow, if_neg htwo, if_neg hthree, if_neg hfour]
  have hge : ¬ c < 0x80 := by
    rw [UInt8.lt_iff_toNat_lt]
    exact Nat.not_lt.mpr hc
  simp [utf8Seq, hge, hnone]

/-- A sequence of more than one byte. -/
theorem utf8Seq_lead {c : UInt8} {n low least : Nat} (h : IsLead c n low least) (rest : Bytes) :
    utf8Seq (c :: rest) =
      if (n ≤ rest.length ∧ ∀ d ∈ rest.take n, IsTail d) ∧ least ≤ tailValue (rest.take n) (c.toNat - low) ∧
        IsScalar (tailValue (rest.take n) (c.toNat - low)) then n + 1 else 0 := by
  rcases h.bounds with ⟨hc, hn, hbits, hleast⟩
  have hlead := h.utf8Lead
  rw [hn] at hlead
  have hge : ¬ c < 0x80 := by
    rw [UInt8.lt_iff_toNat_lt]
    exact Nat.not_lt.mpr hc
  have htail := utf8Tail_eq n rest (hbits.trans (by omega))
  simp only [utf8Seq, List.getD_cons_zero, hge, if_false, hlead, Nat.add_sub_cancel, List.drop_succ_cons,
    List.drop_zero, htail]
  -- all tails there: the code point decides; one is missing: no sequence
  by_cases htails : n ≤ rest.length ∧ ∀ d ∈ rest.take n, IsTail d
  · have hlen : (rest.take n).length = n := by rw [List.length_take, Nat.min_eq_left htails.1]
    have hvalue := tailValue_lt (rest.take n) (c.toNat - low)
    rw [hlen] at hvalue
    rw [if_pos htails]
    simp only
    rw [utf8_check (by omega) hleast]
    by_cases hok : least ≤ tailValue (rest.take n) (c.toNat - low) ∧
        IsScalar (tailValue (rest.take n) (c.toNat - low))
    · rw [if_pos hok, if_pos ⟨htails, hok⟩]
    · rw [if_neg hok, if_neg fun h => hok h.2]
  · rw [if_neg htails, if_neg fun h => htails h.1]

/-- A number that fits a byte. -/
theorem toNat_ofNat_of_lt {n : Nat} (h : n < 256) : (UInt8.ofNat n).toNat = n := by
  rw [UInt8.toNat_ofNat']
  omega

/-- And back. -/
theorem ofNat_eq_of_toNat {n : Nat} {c : UInt8} (h : n = c.toNat) : UInt8.ofNat n = c := by
  rw [h, UInt8.ofNat_toNat]

/-- A continuation byte as the encoder writes it. -/
theorem tail_ofNat (k : Nat) :
    IsTail (UInt8.ofNat (k % 64 + 0x80)) ∧ (UInt8.ofNat (k % 64 + 0x80)).toNat % 64 = k % 64 := by
  have hk : k % 64 < 64 := Nat.mod_lt _ (by omega)
  have hto := @toNat_ofNat_of_lt (k % 64 + 0x80) (by omega)
  unfold IsTail
  omega

/-- Such bytes are tails. -/
theorem forall_tails (ks : List Nat) : ∀ d ∈ ks.map (fun k => UInt8.ofNat (k % 64 + 0x80)), IsTail d := by
  intro d hd
  rcases List.mem_map.mp hd with ⟨k, -, rfl⟩
  exact (tail_ofNat k).1

/-- A lead byte and its tails, when they are a sequence. -/
theorem utf8Seq_of_tails {v k : Nat} {tails : Bytes} (low least : Nat) (rest : Bytes) (hk : k + low < 256)
    (hlead : IsLead (UInt8.ofNat (k + low)) tails.length low least) (htails : ∀ d ∈ tails, IsTail d)
    (hvalue : tailValue tails k = v) (hmin : least ≤ v) (hscalar : IsScalar v) :
    utf8Seq (UInt8.ofNat (k + low) :: tails ++ rest) = tails.length + 1 := by
  have hto : (UInt8.ofNat (k + low)).toNat - low = k := by
    rw [toNat_ofNat_of_lt hk]
    omega
  rw [List.cons_append, utf8Seq_lead hlead, List.take_left, hto, hvalue, if_pos]
  refine ⟨⟨?_, htails⟩, hmin, hscalar⟩
  rw [List.length_append]
  omega

/-- A well-formed sequence is found whole. -/
theorem utf8Seq_encode (c : Char) (rest : Bytes) :
    utf8Seq (String.utf8EncodeChar c ++ rest) = (String.utf8EncodeChar c).length := by
  have hscalar := isScalar_char c
  -- by the number of bytes the encoder writes
  rcases Utf8.encodeChar_cases c with ⟨hle, henc⟩ | ⟨hlt, hle, henc⟩ | ⟨hlt, hle, henc⟩ | ⟨hlt, hle, henc⟩
  all_goals
    rw [henc]
    clear henc
    generalize c.val.toNat = v at *
  · apply utf8Seq_ascii
    rw [toNat_ofNat_of_lt (by omega)]
    omega
  · apply utf8Seq_of_tails 0xC0 0x80 rest (by omega) _ _ _ _ hscalar
    · have hto := @toNat_ofNat_of_lt (v / 64 + 0xC0) (by omega)
      exact .inl ⟨by omega, by omega, rfl, rfl, rfl⟩
    · exact forall_tails [v]
    · simp only [tailValue, List.foldl_cons, List.foldl_nil, tail_ofNat]
      omega
    · omega
  · apply utf8Seq_of_tails 0xE0 0x800 rest (by omega) _ _ _ _ hscalar
    · have hto := @toNat_ofNat_of_lt (v / 4096 + 0xE0) (by omega)
      exact .inr (.inl ⟨by omega, by omega, rfl, rfl, rfl⟩)
    · exact forall_tails [v / 64, v]
    · simp only [tailValue, List.foldl_cons, List.foldl_nil, tail_ofNat]
      omega
    · omega
  · apply utf8Seq_of_tails 0xF0 0x10000 rest (by omega) _ _ _ _ hscalar
    · have hto := @toNat_ofNat_of_lt (v / 262144 + 0xF0) (by omega)
      exact .inr (.inr ⟨by omega, by omega, rfl, rfl, rfl⟩)
    · exact forall_tails [v / 4096, v / 64, v]
    · simp only [tailValue, List.foldl_cons, List.foldl_nil, tail_ofNat]
      omega
    · omega

/-- A lead byte and its tails encode what they are read as. -/
theorem encode_of_lead {c : UInt8} {low least : Nat} {tails : Bytes} (h : IsLead c tails.length low least)
    (htails : ∀ d ∈ tails, IsTail d) (hmin : least ≤ tailValue tails (c.toNat - low))
    (hscalar : IsScalar (tailValue tails (c.toNat - low))) :
    String.utf8EncodeChar (charOf hscalar) = c :: tails := by
  have hval := val_charOf hscalar
  have hlt := tailValue_lt tails (c.toNat - low)
  generalize charOf hscalar = ch at hval ⊢
  have henc := Utf8.encodeChar_cases ch
  rw [hval] at henc
  clear hval hscalar
  unfold IsTail at htails
  -- the encoder takes the length that the least code points leave
  rcases h with ⟨hlow, hhigh, hlen, rfl, rfl⟩ | ⟨hlow, hhigh, hlen, rfl, rfl⟩ | ⟨hlow, hhigh, hlen, rfl, rfl⟩
  · rcases List.length_eq_one_iff.mp hlen with ⟨d, rfl⟩
    have hd := htails d (by simp)
    simp only [tailValue, List.foldl_cons, List.foldl_nil] at henc hmin
    rcases henc with ⟨hle, -⟩ | ⟨-, -, henc⟩ | ⟨hgt, -⟩ | ⟨hgt, -⟩
    · omega
    · rw [henc, ofNat_eq_of_toNat (c := c) (by omega), ofNat_eq_of_toNat (c := d) (by omega)]
    · omega
    · omega
  · rcases List.length_eq_two.mp hlen with ⟨d, e, rfl⟩
    have hd := htails d (by simp)
    have he := htails e (by simp)
    simp only [tailValue, List.foldl_cons, List.foldl_nil] at henc hmin
    rcases henc with ⟨hle, -⟩ | ⟨-, hle, -⟩ | ⟨-, -, henc⟩ | ⟨hgt, -⟩
    · omega
    · omega
    · rw [henc, ofNat_eq_of_toNat (c := c) (by omega), ofNat_eq_of_toNat (c := d) (by omega),
        ofNat_eq_of_toNat (c := e) (by omega)]
    · omega
  · rcases List.length_eq_three.mp hlen with ⟨d, e, f, rfl⟩
    have hd := htails d (by simp)
    have he := htails e (by simp)
    have hf := htails f (by simp)
    simp only [tailValue, List.foldl_cons, List.foldl_nil] at henc hmin
    rcases henc with ⟨hle, -⟩ | ⟨-, hle, -⟩ | ⟨-, hle, -⟩ | ⟨-, -, henc⟩
    · omega
    · omega
    · omega
    · rw [henc, ofNat_eq_of_toNat (c := c) (by omega), ofNat_eq_of_toNat (c := d) (by omega),
        ofNat_eq_of_toNat (c := e) (by omega), ofNat_eq_of_toNat (c := f) (by omega)]

/-- Only a well-formed sequence is found. -/
theorem utf8Seq_sound {c : UInt8} {rest : Bytes} (h : utf8Seq (c :: rest) ≠ 0) : Utf8.Starts (c :: rest) := by
  by_cases hc : c.toNat < 0x80
  · have hscalar : IsScalar c.toNat := by
      unfold IsScalar
      omega
    have hval := val_charOf hscalar
    refine ⟨charOf hscalar, rest, ?_⟩
    rcases Utf8.encodeChar_cases (charOf hscalar) with ⟨-, henc⟩ | ⟨hgt, -⟩ | ⟨hgt, -⟩ | ⟨hgt, -⟩
    · rw [henc, ofNat_eq_of_toNat hval]
      rfl
    · omega
    · omega
    · omega
  -- a byte that leads no sequence finds none
  by_cases hlead : ∃ n low least, IsLead c n low least
  · rcases hlead with ⟨n, low, least, hlead⟩
    rw [utf8Seq_lead hlead, ne_eq, ite_eq_right_iff, Classical.not_imp] at h
    rcases h with ⟨⟨⟨hlen, htails⟩, hmin, hscalar⟩, -⟩
    have htake : (rest.take n).length = n := by rw [List.length_take, Nat.min_eq_left hlen]
    have hl : IsLead c (rest.take n).length low least := by
      rw [htake]
      exact hlead
    refine ⟨charOf hscalar, rest.drop n, ?_⟩
    rw [encode_of_lead hl htails hmin hscalar, List.cons_append, List.take_append_drop]
  · refine absurd (utf8Seq_of_not_lead (Nat.not_lt.mp hc) ?_ rest) h
    intro n low least hl
    exact hlead ⟨n, low, least, hl⟩

/-- `utf8_seq` finds a sequence exactly when there is one. -/
theorem utf8Seq_eq_zero_iff (c : UInt8) (rest : Bytes) : utf8Seq (c :: rest) = 0 ↔ ¬ Utf8.Starts (c :: rest) := by
  constructor
  · rintro h ⟨ch, tail, heq⟩
    rw [heq, utf8Seq_encode] at h
    exact Utf8.encodeChar_ne_nil ch (List.eq_nil_of_length_eq_zero h)
  · intro h
    by_contra hne
    exact h (utf8Seq_sound hne)

/-! ## Reading no further -/

/-- The loop of `utf8_seq` on a buffer that ends; `none` is a read behind its end. -/
def utf8TailIn : Nat → Bytes → UInt32 → Option (Option UInt32)
  | 0, _, cp => some (some cp)
  | _ + 1, [], _ => none
  | n + 1, c :: rest, cp =>
    if c &&& 0xC0 ≠ 0x80 then some none else utf8TailIn n rest (cp <<< 6 ||| (c &&& 0x3F).toUInt32)

/-- `utf8_seq` on a buffer that ends. -/
def utf8SeqIn : Bytes → Option Nat
  | [] => none
  | c :: rest =>
    if c < 0x80 then some 1
    else
      match utf8Lead c with
      | none => some 0
      | some (n, bits, least) =>
        (utf8TailIn (n - 1) rest bits).map fun
          | none => 0
          | some cp => if cp < least ∨ 0x10FFFF < cp ∨ (0xD800 ≤ cp ∧ cp ≤ 0xDFFF) then 0 else n

/-- The terminator is no continuation byte. -/
theorem utf8TailIn_eq (n : Nat) (s : Bytes) (cp : UInt32) : utf8TailIn n (s ++ [0]) cp = some (utf8Tail n s cp) := by
  induction n generalizing s cp with
  | zero => rfl
  | succ n ih =>
    cases s with
    | nil => simp [utf8TailIn, utf8Tail]
    | cons c s =>
      simp only [List.cons_append, utf8TailIn, utf8Tail, List.getD_cons_zero, List.drop_succ_cons, List.drop_zero]
      split
      · rfl
      · exact ih s _

/-- Every byte `utf8_seq` reads is one of the string or its terminator. -/
theorem utf8SeqIn_eq (s : Bytes) : utf8SeqIn (s ++ [0]) = some (utf8Seq s) := by
  cases s with
  | nil => simp [utf8SeqIn, utf8Seq]
  | cons c s =>
    simp only [List.cons_append, utf8SeqIn, utf8Seq, List.getD_cons_zero, List.drop_succ_cons, List.drop_zero]
    split
    · rfl
    · cases utf8Lead c with
      | none => rfl
      | some lead => exact congrArg (Option.map _) (utf8TailIn_eq (lead.1 - 1) s lead.2.1)

/-! ## Strings -/

/-- A character as `jb_str` writes it. -/
def jsonEscape (c : Char) : List Char :=
  if c = '"' ∨ c = '\\' then ['\\', c]
  else if c.toNat < 0x20 then ['\\', 'u', '0', '0', Nat.digitChar (c.toNat / 16), Nat.digitChar (c.toNat % 16)]
  else [c]

/-- The text `jb_str` writes for a value. -/
def jsonText (value : List Char) : List Char := '"' :: value.flatMap jsonEscape ++ ['"']

/-- A digit that is written is read as itself. -/
theorem digitChar_hex {n : Nat} (h : n < 16) : JsonString.hexDigit (Nat.digitChar n) = some n := by
  have hall : ∀ n < 16, JsonString.hexDigit (Nat.digitChar n) = some n := by decide
  exact hall n h

/-- What is written for a character stands for it. -/
theorem chars_jsonEscape (c : Char) {text value : List Char} (h : JsonString.Chars text value) :
    JsonString.Chars (jsonEscape c ++ text) (c :: value) := by
  unfold jsonEscape
  split
  · rename_i hc
    apply JsonString.Chars.escape _ h
    rcases hc with rfl | rfl
    · simp [JsonString.escapes]
    · simp [JsonString.escapes]
  rename_i hc
  split
  · rename_i hlow
    apply JsonString.Chars.unicode _ h
    have hzero : JsonString.hexDigit '0' = some 0 := by decide
    have hhigh := digitChar_hex (by omega : c.toNat / 16 < 16)
    have hrest := digitChar_hex (by omega : c.toNat % 16 < 16)
    simp only [JsonString.codeUnit, hzero, hhigh, hrest, Option.bind_eq_bind, Option.bind_some, Option.pure_def]
    congr 1
    omega
  · rename_i hlow
    rw [not_or] at hc
    exact .plain (Nat.not_lt.mp hlow) hc.1 hc.2 h

/-- What `jb_str` writes is JSON. -/
theorem jsonText_means (value : List Char) : JsonString.Means (jsonText value) value := by
  refine ⟨value.flatMap jsonEscape, rfl, ?_⟩
  induction value with
  | nil => exact .nil
  | cons c value ih => exact chars_jsonEscape c ih

/-- One character of ASCII. -/
theorem jsonChar_ascii (n : Nat) (h : n < 0x80) :
    jsonChar (UInt8.ofNat n) [UInt8.ofNat n] = Utf8.encode (jsonEscape (Char.ofNat n)) := by
  have hall : ∀ n < 0x80, jsonChar (UInt8.ofNat n) [UInt8.ofNat n] = Utf8.encode (jsonEscape (Char.ofNat n)) := by
    decide
  exact hall n h

/-- The bytes of one turn of `jb_str`, for a sequence. -/
theorem jsonChar_encode {c : Char} {head : UInt8} {tail : Bytes} (h : String.utf8EncodeChar c = head :: tail) :
    jsonChar head (head :: tail) = Utf8.encode (jsonEscape c) := by
  -- only ASCII is escaped
  by_cases hascii : c.val.toNat < 0x80
  · rcases Utf8.encodeChar_cases c with ⟨-, henc⟩ | ⟨hgt, -⟩ | ⟨hgt, -⟩ | ⟨hgt, -⟩
    · rw [henc] at h
      rcases List.cons.inj h with ⟨rfl, rfl⟩
      rw [jsonChar_ascii _ hascii]
      show _ = Utf8.encode (jsonEscape c)
      rw [show Char.ofNat c.val.toNat = c from Char.ofNat_toNat c]
    all_goals omega
  -- a lead byte is none that is escaped
  have hhead : 0xC0 ≤ head.toNat := by
    rcases Utf8.encodeChar_cases c with ⟨hle, -⟩ | ⟨-, hle, henc⟩ | ⟨-, hle, henc⟩ | ⟨-, hle, henc⟩
    · omega
    all_goals
      rw [henc] at h
      rw [← (List.cons.inj h).1, toNat_ofNat_of_lt (by omega)]
      omega
  have hquote : ¬ (head = 34 ∨ head = 92) := by
    rintro (rfl | rfl)
    all_goals exact absurd hhead (by decide)
  have hlow : ¬ head < 0x20 := by
    rw [UInt8.lt_iff_toNat_lt]
    show ¬ head.toNat < 32
    omega
  have hplain : ¬ (c = '"' ∨ c = '\\') := by
    rintro (rfl | rfl)
    all_goals exact hascii (by decide)
  have hge : ¬ c.toNat < 0x20 := by
    show ¬ c.val.toNat < 32
    omega
  rw [jsonChar, if_neg hquote, if_neg hlow, jsonEscape, if_neg hplain, if_neg hge, Utf8.encode_cons, Utf8.encode_nil,
    List.append_nil, h]

/-- The pieces `jb_str` adds for a value. -/
def jsonPieces (value : List Char) : List Bytes := value.map fun c => Utf8.encode (jsonEscape c)

/-- The pieces, put together, are the text between the quotes. -/
theorem flatten_jsonPieces (value : List Char) : (jsonPieces value).flatten = Utf8.encode (value.flatMap jsonEscape) := by
  induction value with
  | nil => rfl
  | cons c value ih =>
    rw [List.flatMap_cons, Utf8.encode_append, ← ih]
    rfl

/-- The loop adds what the string reads as, piece by piece. -/
theorem jbStrLoop_adds {s : Bytes} {value : List Char} (h : Utf8.Scan '?' s value) {fuel : Nat}
    (hfuel : s.length ≤ fuel) (j : JBuf) : jbStrLoop fuel j s = (jsonPieces value).foldl jbAdd j := by
  -- along the scan: one turn for a sequence, one for a byte that is none
  induction h generalizing fuel j with
  | nil =>
    cases fuel with
    | zero => rfl
    | succ fuel => rfl
  | @char c rest cs _ ih =>
    rcases hseq : String.utf8EncodeChar c with _ | ⟨head, tail⟩
    · exact absurd hseq (Utf8.encodeChar_ne_nil c)
    have hlen := utf8Seq_encode c rest
    rw [hseq, List.cons_append] at hlen
    rw [hseq, List.length_append, List.length_cons] at hfuel
    cases fuel with
    | zero => omega
    | succ fuel =>
      simp only [List.cons_append, jbStrLoop, hlen, List.length_cons, Nat.succ_ne_zero, if_false,
        List.take_succ_cons, List.drop_succ_cons, List.take_left, List.drop_left, jsonChar_encode hseq]
      exact ih (by omega) _
  | @bad b rest cs hbad _ ih =>
    rw [List.length_cons] at hfuel
    cases fuel with
    | zero => omega
    | succ fuel =>
      have hzero := (utf8Seq_eq_zero_iff b rest).mpr hbad
      simp only [jbStrLoop, hzero, if_true]
      exact ih (by omega) _

/-- Every byte string reads as something. -/
theorem scan_exists (s : Bytes) : ∃ value, Utf8.Scan '?' s value := by
  induction h : s.length using Nat.strong_induction_on generalizing s with
  | _ n ih =>
    cases s with
    | nil => exact ⟨[], .nil⟩
    | cons b rest =>
      -- read the sequence, or the byte as `?`
      by_cases hstart : Utf8.Starts (b :: rest)
      · rcases hstart with ⟨c, tail, heq⟩
        rw [heq] at h ⊢
        have hpos := List.length_pos_iff.mpr (Utf8.encodeChar_ne_nil c)
        rw [List.length_append] at h
        rcases ih tail.length (by omega) tail rfl with ⟨value, hscan⟩
        exact ⟨c :: value, .char hscan⟩
      · rw [List.length_cons] at h
        rcases ih rest.length (by omega) rest rfl with ⟨value, hscan⟩
        exact ⟨'?' :: value, .bad hstart hscan⟩

/-- What fits is appended. -/
theorem jbAdd_fits {j : JBuf} (hfull : j.full = false) {s : Bytes} (hroom : j.text.length + s.length < j.cap) :
    jbAdd j s = { j with text := j.text ++ s } := by
  rw [jbAdd, hfull, if_neg (by decide), if_neg (by omega)]

/-- Pieces that fit are appended. -/
theorem foldl_jbAdd {j : JBuf} (hfull : j.full = false) (es : List Bytes)
    (hroom : j.text.length + es.flatten.length < j.cap) :
    es.foldl jbAdd j = { j with text := j.text ++ es.flatten } := by
  induction es generalizing j with
  | nil => simp
  | cons e es ih =>
    rw [List.flatten_cons, List.length_append] at hroom
    have hadd := jbAdd_fits hfull (s := e) (by omega)
    have hrest := @ih { j with text := j.text ++ e } hfull (by
      show (j.text ++ e).length + es.flatten.length < j.cap
      rw [List.length_append]
      omega)
    rw [List.foldl_cons, hadd, hrest]
    simp

/-- A byte becomes six at most. -/
theorem length_jsonText {s : Bytes} {value : List Char} (h : Utf8.Scan '?' s value) :
    (Utf8.encode (jsonText value)).length ≤ 2 + 6 * s.length := by
  -- an escape of six bytes stands for one, and nothing grows more
  have hchar : ∀ c, (Utf8.encode (jsonEscape c)).length ≤ 6 * (String.utf8EncodeChar c).length := by
    intro c
    rcases hseq : String.utf8EncodeChar c with _ | ⟨head, tail⟩
    · exact absurd hseq (Utf8.encodeChar_ne_nil c)
    have hone : (hexText [head]).length = 2 := by rw [length_hexText, List.length_singleton]
    rw [← jsonChar_encode hseq, jsonChar]
    split
    · simp only [List.length_cons, List.length_nil]
      omega
    split
    · rw [List.length_append, hone]
      simp only [List.length_cons]
      show 4 + 2 ≤ _
      omega
    · omega
  have hvalue : (Utf8.encode (value.flatMap jsonEscape)).length ≤ 6 * s.length := by
    induction h with
    | nil => exact le_refl _
    | @char c rest cs _ ih =>
      have hc := hchar c
      rw [List.flatMap_cons, Utf8.encode_append, List.length_append, List.length_append]
      omega
    | @bad b rest cs _ _ ih =>
      have hc : (Utf8.encode (jsonEscape '?')).length = 1 := by decide
      rw [List.flatMap_cons, Utf8.encode_append, List.length_append, List.length_cons]
      omega
  have hquotes : Utf8.encode (jsonText value) = 34 :: (Utf8.encode (value.flatMap jsonEscape) ++ [34]) := by
    show Utf8.encode ('"' :: (value.flatMap jsonEscape ++ ['"'])) = _
    rw [Utf8.encode_cons, Utf8.encode_append]
    rfl
  rw [hquotes, List.length_cons, List.length_append, List.length_singleton]
  omega

/-- A string adds the JSON of what it reads as. -/
theorem jbStr_adds {s : Bytes} {value : List Char} (h : Utf8.Scan '?' s value) {j : JBuf} (hfull : j.full = false)
    (hroom : j.text.length + (Utf8.encode (jsonText value)).length < j.cap) :
    jbStr j s = { j with text := j.text ++ Utf8.encode (jsonText value) } := by
  have hflat : ([34] :: jsonPieces value ++ [[34]]).flatten = Utf8.encode (jsonText value) := by
    show _ = Utf8.encode ('"' :: (value.flatMap jsonEscape ++ ['"']))
    rw [Utf8.encode_cons, Utf8.encode_append, ← flatten_jsonPieces, List.cons_append, List.flatten_cons,
      List.flatten_append]
    rfl
  -- quote, loop, quote
  have hfold : jbStr j s = ([34] :: jsonPieces value ++ [[34]]).foldl jbAdd j := by
    rw [jbStr, jbStrLoop_adds h le_rfl, List.cons_append, List.foldl_cons, List.foldl_append]
    rfl
  rw [hfold, foldl_jbAdd hfull, hflat]
  rwa [hflat]

/-- `jb_str` writes a string of JSON in UTF-8: the bytes it is given, read from left to right
with `?` for those outside any sequence. A byte takes six at most, so that room for these and
the quotes is enough. Reading, it does not pass the terminator. -/
theorem jbStr_means (s : Bytes) :
    ∃ text value : List Char, JsonString.Means text value ∧ Utf8.Scan '?' s value ∧
      (Utf8.encode text).length ≤ 2 + 6 * s.length ∧
      (∀ j : JBuf, j.full = false → j.text.length + (Utf8.encode text).length < j.cap →
        jbStr j s = { j with text := j.text ++ Utf8.encode text }) ∧
      ∀ k, utf8SeqIn (s.drop k ++ [0]) = some (utf8Seq (s.drop k)) := by
  rcases scan_exists s with ⟨value, hscan⟩
  refine ⟨jsonText value, value, jsonText_means value, hscan, length_jsonText hscan, ?_, ?_⟩
  · intro j hfull hroom
    exact jbStr_adds hscan hfull hroom
  · intro k
    exact utf8SeqIn_eq (s.drop k)

/-- A name with a quote, a control byte, a sequence of two bytes and the first byte of
another one. -/
def mixedName : Bytes := lit "a\"" ++ [0x01, 0xC3, 0xA9, 0xC3] ++ lit "("

/-- It reads `a`, the quote, the control character, `é`, and `?` for the byte left alone. -/
theorem jbStr_means_mixed :
    ∃ text : List Char, JsonString.Means text ['a', '"', '\x01', 'é', '?', '('] ∧
      jbStr (.new 64) mixedName = { JBuf.new 64 with text := [] ++ Utf8.encode text } ∧
      (jbStr (.new 64) mixedName).text = lit "\"a\\\"\\u0001" ++ [0xC3, 0xA9] ++ lit "?(\"" := by
  rcases jbStr_means mixedName with ⟨text, value, hmeans, hscan, hlen, hadd, -⟩
  have halone : ¬Utf8.Starts [0xC3, 40] := (utf8Seq_eq_zero_iff 0xC3 [40]).mp (by decide)
  have hread : Utf8.Scan '?' mixedName ['a', '"', '\x01', 'é', '?', '('] :=
    .char (c := 'a') (.char (c := '"') (.char (c := '\x01') (.char (c := 'é')
      (.bad halone (.char (c := '(') .nil)))))
  rw [hscan.unique hread] at hmeans
  refine ⟨text, hmeans, hadd (.new 64) rfl ?_, by decide⟩
  have hname : mixedName.length = 7 := by decide
  rw [hname] at hlen
  show 0 + (Utf8.encode text).length < 64
  omega

end Meshcore
