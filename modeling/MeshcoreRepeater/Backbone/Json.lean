import MeshcoreRepeater.Util

/-! # The JSON the client writes

`jbuf_t` with `jb_add` and `jb_str`: text is appended until it no longer fits, and
then no more. A string is escaped, and bytes that are not UTF-8 become `?`.

* `jbAdd`, `jbStr`: the buffer and the escaped strings.
-/

namespace Meshcore

open ByteLib

/-! ## The buffer -/

/-- `jbuf_t`; `text` is the first `len` bytes behind `p`. -/
structure JBuf where
  cap : Nat
  text : Bytes
  full : Bool
deriving DecidableEq

/-- An empty buffer of `cap` bytes. -/
def JBuf.new (cap : Nat) : JBuf := ⟨cap, [], false⟩

/-- `jb_add` of a text that is already formatted; its terminator has to fit too. -/
def jbAdd (j : JBuf) (s : Bytes) : JBuf :=
  if j.full then j
  else if j.cap - j.text.length ≤ s.length then { j with full := true }
  else { j with text := j.text ++ s }

/-! ## UTF-8 -/

/-- The continuation bytes of a sequence, gathered into its code point. -/
def utf8Tail : Nat → Bytes → UInt32 → Option UInt32
  | 0, _, cp => some cp
  | n + 1, s, cp =>
    let c := s.getD 0 0
    if c &&& 0xC0 ≠ 0x80 then none
    else utf8Tail n (s.drop 1) (cp <<< 6 ||| (c &&& 0x3F).toUInt32)

/-- Length, first bits and least code point of the sequence a lead byte starts. -/
def utf8Lead (c : UInt8) : Option (Nat × UInt32 × UInt32) :=
  if c &&& 0xE0 = 0xC0 then some (2, (c &&& 0x1F).toUInt32, 0x80)
  else if c &&& 0xF0 = 0xE0 then some (3, (c &&& 0x0F).toUInt32, 0x800)
  else if c &&& 0xF8 = 0xF0 then some (4, (c &&& 0x07).toUInt32, 0x10000)
  else none

/-- `utf8_seq`: the length of the valid sequence `s` starts with, or 0. Behind the
string stands its NUL. -/
def utf8Seq (s : Bytes) : Nat :=
  if s.getD 0 0 < 0x80 then 1
  else
    match utf8Lead (s.getD 0 0) with
    | none => 0
    | some (n, bits, least) =>
      match utf8Tail (n - 1) (s.drop 1) bits with
      | none => 0
      | some cp => if cp < least ∨ 0x10FFFF < cp ∨ (0xD800 ≤ cp ∧ cp ≤ 0xDFFF) then 0 else n

/-! ## Strings -/

/-- One character: escaped where JSON asks for it. -/
def jsonChar (c : UInt8) (seq : Bytes) : Bytes :=
  if c = 34 ∨ c = 92 then [92, c]
  else if c < 0x20 then lit "\\u00" ++ hexText [c]
  else seq

/-- The loop of `jb_str`; a turn takes a byte at least. -/
def jbStrLoop : Nat → JBuf → Bytes → JBuf
  | 0, j, _ => j
  | fuel + 1, j, s =>
    match s with
    | [] => j
    | c :: rest =>
      let n := utf8Seq (c :: rest)
      if n = 0 then jbStrLoop fuel (jbAdd j [63]) rest
      else jbStrLoop fuel (jbAdd j (jsonChar c ((c :: rest).take n))) ((c :: rest).drop n)

/-- `jb_str`. -/
def jbStr (j : JBuf) (s : Bytes) : JBuf := jbAdd (jbStrLoop s.length (jbAdd j [34]) s) [34]

example : (jbStr (.new 16) [65, 34, 0xC3, 0xA9, 0xFF, 1]).text =
    lit "\"A\\\"" ++ [0xC3, 0xA9] ++ lit "?\\u0001\"" := by decide

end Meshcore
