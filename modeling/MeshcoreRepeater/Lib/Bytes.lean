import Mathlib.Tactic.Common
import Mathlib.Algebra.Group.Nat.Defs
import Mathlib.Data.List.Basic
import Mathlib.Data.List.DropRight

/-! # Bytes, fixed-size buffers and C strings

Support for programs that move raw bytes around: byte strings, buffers whose
size is part of their type (`Buf n`, with `memcpy`-style writes and reads), and
NUL-terminated strings with the ASCII-only comparisons of `<strings.h>`.

A C string is modelled by the bytes before its terminator, so `cstr` is what
reading a raw byte array as a string sees.

* `Buf.read_blit_same`, `Buf.read_blit_append`: what was written is read.
* `rtrim_rtrim`, `skipBlanks_of_head`, `mem_rtrim`: trimming.
-/

namespace ByteLib

/-- A byte string. -/
abbrev Bytes := List UInt8

/-- The bytes of an ASCII literal. -/
def lit (s : String) : Bytes := s.toList.map fun c => UInt8.ofNat c.toNat

/-- The `len` bytes of a number, most significant first. -/
def bytesBE (len n : Nat) : Bytes :=
  (List.range len).map fun i => UInt8.ofNat (n / 256 ^ (len - 1 - i))

/-! ## Fixed-size buffers -/

/-- A byte array of exactly `n` bytes. -/
structure Buf (n : Nat) where
  bytes : Bytes
  length_eq : bytes.length = n
deriving DecidableEq, Repr

namespace Buf

variable {n : Nat}

/-- `memset(buf, 0, n)`. -/
def zero (n : Nat) : Buf n := ⟨List.replicate n 0, by simp⟩

/-- `memcpy(buf + off, src, |src|)`; bytes that would fall outside are lost. -/
def blit (b : Buf n) (off : Nat) (src : Bytes) : Buf n where
  bytes := (b.bytes.take off ++ src ++ b.bytes.drop (off + src.length)).take n
  length_eq := by
    have h := b.length_eq
    simp only [List.length_take, List.length_append, List.length_drop]
    omega

/-- A zeroed buffer that starts with `src`. -/
def ofBytes (n : Nat) (src : Bytes) : Buf n := (zero n).blit 0 src

/-- The `len` bytes from `off`. -/
def read (b : Buf n) (off len : Nat) : Bytes := (b.bytes.drop off).take len

theorem length_read (b : Buf n) (off len : Nat) (h : off + len ≤ n) :
    (b.read off len).length = len := by
  simp [read, b.length_eq]
  omega

/-- What was just written is read back. -/
theorem read_blit_same (b : Buf n) (off : Nat) (src : Bytes) (h : off + src.length ≤ n) :
    (b.blit off src).read off src.length = src := by
  have hb := b.length_eq
  have htake : (b.bytes.take off).length = off := by simp [hb]; omega
  simp only [read, blit, List.drop_take, List.take_take]
  rw [List.append_assoc, List.drop_append_of_le_length (by omega), List.drop_of_length_le (by omega)]
  simp only [List.nil_append]
  rw [List.take_append_of_le_length (by omega), List.take_of_length_le (by omega)]

/-- Reading across the seam of a write gives the old bytes, then the new. -/
theorem read_blit_append (b : Buf n) (off : Nat) (src : Bytes) (h : off + src.length ≤ n) :
    (b.blit off src).read 0 (off + src.length) = b.read 0 off ++ src := by
  have hb := b.length_eq
  have htake : (b.bytes.take off).length = off := by simp [hb]; omega
  simp only [read, blit, List.drop_zero, List.take_take]
  rw [List.take_append_of_le_length (by rw [List.length_append, htake]; omega)]
  rw [List.take_of_length_le (by rw [List.length_append, htake]; omega)]

/-- Reading inside what was read. -/
theorem take_drop_read (b : Buf n) {off len total : Nat} (h : off + len ≤ total) :
    ((b.read 0 total).drop off).take len = b.read off len := by
  simp only [read, List.drop_zero, List.drop_take, List.take_take]
  congr 1
  omega

@[simp] theorem read_ofBytes (src : Bytes) (h : src.length ≤ n) :
    (ofBytes n src).read 0 src.length = src :=
  read_blit_same (zero n) 0 src (by omega)

theorem bytes_ofBytes {src : Bytes} (h : src.length = n) : (ofBytes n src).bytes = src := by
  simp [ofBytes, blit, h]

@[simp] theorem ofBytes_bytes (b : Buf n) : ofBytes n b.bytes = b := by
  have h := bytes_ofBytes b.length_eq
  cases b
  cases hb : ofBytes n _
  rw [hb] at h
  cases h
  rfl

end Buf

/-! ## Concatenations of equally long strings -/

theorem take_drop_flatten {w : Nat} {xs : List Bytes} (hw : ∀ x ∈ xs, x.length = w) {i : Nat}
    (hi : i < xs.length) : (xs.flatten.drop (i * w)).take w = xs[i] := by
  induction xs generalizing i with
  | nil => cases hi
  | cons x xs ih =>
    have hx : x.length = w := hw x List.mem_cons_self
    cases i with
    | zero => simp [← hx]
    | succ i =>
      have hdrop : (x :: xs).flatten.drop ((i + 1) * w) = xs.flatten.drop (i * w) := by
        rw [List.flatten_cons, Nat.succ_mul, Nat.add_comm, ← List.drop_drop, ← hx, List.drop_left]
      rw [hdrop, ih (fun y hy => hw y (List.mem_cons_of_mem x hy)) (by simpa using hi)]
      rfl

theorem length_flatten_of_forall {w : Nat} {xs : List Bytes} (hw : ∀ x ∈ xs, x.length = w) :
    xs.flatten.length = xs.length * w := by
  induction xs with
  | nil => simp
  | cons x xs ih =>
    rw [List.flatten_cons, List.length_append, hw x List.mem_cons_self,
      ih fun y hy => hw y (List.mem_cons_of_mem x hy), List.length_cons, Nat.succ_mul, Nat.add_comm]

/-- Taken from the last to the first, the parts give the reversed concatenation. -/
theorem flatMap_take_drop_reverse {w : Nat} {xs : List Bytes} (hw : ∀ x ∈ xs, x.length = w) :
    ((List.range xs.length).flatMap fun i => (xs.flatten.drop ((xs.length - 1 - i) * w)).take w) =
      xs.reverse.flatten := by
  rw [List.flatMap_def]
  congr 1
  refine List.ext_getElem (by simp) fun i h _ => ?_
  have hi : i < xs.length := by simpa using h
  rw [List.getElem_map, List.getElem_range, take_drop_flatten hw (by omega), List.getElem_reverse]

/-! ## C strings -/

/-- The string a raw byte array holds: everything before the first NUL. -/
def cstr (b : Bytes) : Bytes := b.takeWhile (· ≠ 0)

theorem cstr_of_not_mem {s : Bytes} (h : (0 : UInt8) ∉ s) : cstr s = s := by
  rw [cstr, List.takeWhile_eq_self_iff]
  intro c hc
  simp only [ne_eq, decide_not, Bool.not_eq_eq_eq_not, Bool.not_true, decide_eq_false_iff_not]
  rintro rfl
  exact h hc

/-- `snprintf(out, size, "%s", s)`: the string cut to the buffer. -/
def snprintfS (size : Nat) (s : Bytes) : Bytes := s.take (size - 1)

/-- `tolower` in the C locale. -/
def tolower (c : UInt8) : UInt8 := if 65 ≤ c ∧ c ≤ 90 then c + 32 else c

/-- `strcasecmp(a, b) == 0`. -/
def strcaseEq (a b : Bytes) : Bool := a.map tolower == b.map tolower

/-- `strncasecmp(a, b, n) == 0`. -/
def strncaseEq (a b : Bytes) (n : Nat) : Bool := strcaseEq (a.take n) (b.take n)

/-- A blank, as the hand-written scanners skip it: `' '` or `'\t'`. -/
def isBlank (c : UInt8) : Bool := c == 32 || c == 9

/-- A blank or a line end: `' '`, `'\t'`, `'\r'` or `'\n'`. -/
def isBlankOrEol (c : UInt8) : Bool := isBlank c || c == 13 || c == 10

/-- `while (*p == ' ' || *p == '\t') p++`. -/
def skipBlanks (s : Bytes) : Bytes := s.dropWhile isBlank

/-- Drop the trailing bytes that satisfy `p`. -/
def rtrim (p : UInt8 → Bool) (s : Bytes) : Bytes := s.rdropWhile p

/-! ## Trimming -/

/-- What only consists of trimmed bytes is trimmed off. -/
theorem rtrim_append_of_pos {p : UInt8 → Bool} (a : Bytes) {b : Bytes} (h : ∀ c ∈ b, p c = true) :
    rtrim p (a ++ b) = rtrim p a := by
  have hrev : ∀ c ∈ b.reverse, p c = true := fun c hc => h c (List.mem_reverse.mp hc)
  simp only [rtrim, List.rdropWhile, List.reverse_append, List.dropWhile_append_of_pos hrev]

theorem rtrim_eq_self {p : UInt8 → Bool} {s : Bytes} (h : ∀ c, s.getLast? = some c → p c = false) :
    rtrim p s = s := by
  rw [rtrim, List.rdropWhile_eq_self_iff]
  intro hne
  have := h _ (List.getLast?_eq_some_getLast hne)
  simp [this]

theorem rtrim_rtrim (p : UInt8 → Bool) (s : Bytes) : rtrim p (rtrim p s) = rtrim p s :=
  List.rdropWhile_idempotent p s

/-- A text with nothing to trim has a tail with nothing to trim. -/
theorem rtrim_tail {p : UInt8 → Bool} {c : UInt8} {s : Bytes} (h : rtrim p (c :: s) = c :: s) :
    rtrim p s = s := by
  cases s with
  | nil => rfl
  | cons d s =>
    rw [rtrim, List.rdropWhile_eq_self_iff] at h ⊢
    intro hne
    have := h (by simp)
    rwa [List.getLast_cons hne] at this

/-- A text none of whose bytes is trimmed stays. -/
theorem rtrim_of_forall {p : UInt8 → Bool} {s : Bytes} (h : ∀ c ∈ s, p c = false) :
    rtrim p s = s :=
  rtrim_eq_self fun c hc => h c (List.mem_of_getLast? hc)

theorem isBlank_of_isBlankOrEol {c : UInt8} (h : isBlankOrEol c = false) : isBlank c = false := by
  simp only [isBlankOrEol, Bool.or_eq_false_iff] at h
  exact h.1.1

/-- Only blanks are skipped. -/
theorem mem_skipBlanks {s : Bytes} {c : UInt8} (h : c ∈ s) (hc : isBlank c = false) : c ∈ skipBlanks s := by
  rw [← List.takeWhile_append_dropWhile (p := isBlank) (l := s)] at h
  rcases List.mem_append.mp h with h | h
  · have hblank := List.mem_takeWhile_imp h
    rw [hc] at hblank
    cases hblank
  · exact h

/-- Only what is to go is trimmed. -/
theorem mem_rtrim {p : UInt8 → Bool} {s : Bytes} {c : UInt8} (h : c ∈ s) (hc : p c = false) : c ∈ rtrim p s := by
  have hrev : c ∈ s.reverse.takeWhile p ++ s.reverse.dropWhile p := by
    rw [List.takeWhile_append_dropWhile]
    exact List.mem_reverse.mpr h
  rcases List.mem_append.mp hrev with h | h
  · have hgone := List.mem_takeWhile_imp h
    rw [hc] at hgone
    cases hgone
  · exact List.mem_reverse.mpr h

theorem skipBlanks_of_head {s : Bytes} (h : ∀ c, s.head? = some c → isBlank c = false) :
    skipBlanks s = s := by
  cases s with
  | nil => rfl
  | cons c s => simp [skipBlanks, h c rfl]

theorem isBlank_of_head_skipBlanks {s : Bytes} {c : UInt8} (h : (skipBlanks s).head? = some c) :
    isBlank c = false := by
  have := List.head?_dropWhile_not isBlank s
  rw [skipBlanks] at h
  simpa [h] using this

theorem head_of_rtrim {p : UInt8 → Bool} {s : Bytes} {c : UInt8}
    (h : (rtrim p s).head? = some c) : s.head? = some c := by
  obtain ⟨rest, hrest⟩ := s.rdropWhile_prefix p
  cases ht : rtrim p s with
  | nil =>
    rw [ht] at h
    cases h
  | cons d t =>
    rw [ht] at h
    rw [← hrest, show s.rdropWhile p = d :: t from ht]
    exact h

/-- A line end behind a text makes no difference to its trimmed value. -/
theorem rtrim_skipBlanks_concat (s : Bytes) :
    rtrim isBlankOrEol (skipBlanks (s ++ [10])) = rtrim isBlankOrEol (skipBlanks s) := by
  rw [skipBlanks, List.dropWhile_append]
  split
  · rename_i hnil
    have hnil' : skipBlanks s = [] := List.isEmpty_iff.mp hnil
    rw [hnil']
    rfl
  · rw [rtrim_append_of_pos _ (by simp [isBlankOrEol])]
    rfl

@[simp] theorem strcaseEq_refl (a : Bytes) : strcaseEq a a = true := by simp [strcaseEq]

theorem strcaseEq_comm (a b : Bytes) : strcaseEq a b = strcaseEq b a := by
  simp [strcaseEq, Bool.beq_comm]

end ByteLib
