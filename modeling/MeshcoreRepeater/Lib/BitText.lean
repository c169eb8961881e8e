import Mathlib.Tactic.Common
import Mathlib.Data.Nat.Bitwise
import MeshcoreRepeater.Lib.Bytes

/-! # Bytes as text

A text form spells a string of bits, so many to a character: four for hex, six for base64. What
a text says are the whole octets of its bits; bits that are left over say nothing.

* `octets_bits`, `octets_append`: whole octets are read off, one behind the other.
* `bits_append`, `bits_mod`: two numbers behind each other, and the low bits of one.
-/

namespace ByteLib

/-! ## Bits -/

/-- The `n` low bits of a number, the highest first. -/
def bits : Nat → Nat → List Bool
  | 0, _ => []
  | n + 1, v => v.testBit n :: bits n v

@[simp] theorem length_bits (n v : Nat) : (bits n v).length = n := by
  induction n with
  | zero => rfl
  | succ n ih => rw [bits, List.length_cons, ih]

/-- Two numbers one behind the other. -/
theorem bits_append {n v : Nat} (m u : Nat) (hv : v < 2 ^ n) :
    bits (m + n) (u * 2 ^ n + v) = bits m u ++ bits n v := by
  have hlow : ∀ k ≤ n, bits k (u * 2 ^ n + v) = bits k v := by
    intro k hk
    induction k with
    | zero => rfl
    | succ k ih =>
      rw [bits, bits, ih (by omega), Nat.mul_comm, Nat.testBit_two_pow_mul_add u hv, if_pos (by omega)]
  induction m with
  | zero =>
    rw [Nat.zero_add]
    exact hlow n (Nat.le_refl n)
  | succ m ih =>
    rw [Nat.succ_add, bits, ih, bits, List.cons_append, Nat.mul_comm, Nat.testBit_two_pow_mul_add u hv,
      if_neg (by omega), Nat.add_sub_cancel_right]

/-- The low bits do not see what is above them. -/
theorem bits_mod (n v : Nat) : bits n (v % 2 ^ n) = bits n v := by
  have happend := bits_append (n := n) 0 (v / 2 ^ n) (Nat.mod_lt v (Nat.two_pow_pos n))
  rw [Nat.zero_add, Nat.div_add_mod', bits, List.nil_append] at happend
  exact happend.symm

/-- The number that some bits are. -/
def ofBits (l : List Bool) : Nat := l.foldl (fun n b => 2 * n + b.toNat) 0

theorem ofBits_concat (l : List Bool) (b : Bool) : ofBits (l ++ [b]) = 2 * ofBits l + b.toNat := by
  rw [ofBits, List.foldl_append]
  rfl

theorem ofBits_bits (n v : Nat) : ofBits (bits n v) = v % 2 ^ n := by
  induction n generalizing v with
  | zero => exact (Nat.mod_one v).symm
  | succ n ih =>
    -- the last bit is split off, not the first
    have hsplit : bits (n + 1) v = bits n (v / 2) ++ bits 1 (v % 2) := by
      rw [← bits_append n (v / 2) (by omega), pow_one, Nat.div_add_mod']
    have hbit : bits 1 (v % 2) = [(v % 2).testBit 0] := rfl
    rw [hsplit, hbit, ofBits_concat, ih, Nat.testBit_zero, pow_succ, Nat.mul_comm (2 ^ n) 2, Nat.mod_mul]
    rcases Nat.mod_two_eq_zero_or_one v with h | h
    · simp [h]
    · simp [h]
      omega

/-! ## Octets -/

/-- The whole octets of a string of bits. -/
def octets : List Bool → Bytes
  | a :: b :: c :: d :: e :: f :: g :: h :: rest => UInt8.ofNat (ofBits [a, b, c, d, e, f, g, h]) :: octets rest
  | _ => []

theorem octets_eq (l : List Bool) :
    octets l = if l.length < 8 then [] else UInt8.ofNat (ofBits (l.take 8)) :: octets (l.drop 8) := by
  match l with
  | _ :: _ :: _ :: _ :: _ :: _ :: _ :: _ :: rest =>
    have hlong : ¬rest.length + 1 + 1 + 1 + 1 + 1 + 1 + 1 + 1 < 8 := by omega
    simp only [octets, List.length_cons, if_neg hlong, List.take_succ_cons, List.take_zero, List.drop_succ_cons,
      List.drop_zero]
  | [] | [_] | [_, _] | [_, _, _] | [_, _, _, _] | [_, _, _, _, _] | [_, _, _, _, _, _] | [_, _, _, _, _, _, _] => rfl

theorem octets_of_short {l : List Bool} (h : l.length < 8) : octets l = [] := by rw [octets_eq, if_pos h]

theorem octets_cons {o : List Bool} (h : o.length = 8) (l : List Bool) :
    octets (o ++ l) = UInt8.ofNat (ofBits o) :: octets l := by
  have hlong : ¬(o ++ l).length < 8 := by
    rw [List.length_append]
    omega
  rw [octets_eq, if_neg hlong, List.take_left' h, List.drop_left' h]

theorem octets_bits (v : Nat) (l : List Bool) : octets (bits 8 v ++ l) = UInt8.ofNat v :: octets l := by
  rw [octets_cons (length_bits 8 v), ofBits_bits]
  congr 1
  apply UInt8.toNat_inj.mp
  simp

theorem octets_take (k : Nat) (l : List Bool) : octets (l.take (8 * k)) = (octets l).take k := by
  induction k generalizing l with
  | zero => rfl
  | succ k ih =>
    by_cases hshort : l.length < 8
    · rw [octets_of_short hshort, octets_of_short, List.take_nil]
      rw [List.length_take]
      omega
    · have hlen : (l.take 8).length = 8 := by
        rw [List.length_take]
        omega
      have hl : l = l.take 8 ++ l.drop 8 := (List.take_append_drop 8 l).symm
      rw [hl, octets_cons hlen, List.take_succ_cons, ← ih, List.take_append, hlen,
        List.take_of_length_le (by omega), octets_cons hlen]
      congr 3

theorem length_octets (l : List Bool) : (octets l).length = l.length / 8 := by
  induction hn : l.length using Nat.strongRecOn generalizing l with
  | ind n ih =>
    rw [octets_eq]
    split
    · rw [List.length_nil]
      omega
    · rw [List.length_cons, ih (l.drop 8).length (by rw [List.length_drop]; omega) _ rfl, List.length_drop]
      omega

theorem octets_append {l : List Bool} (h : l.length % 8 = 0) (m : List Bool) :
    octets (l ++ m) = octets l ++ octets m := by
  have hlen : l.length = 8 * (l.length / 8) := by omega
  generalize hk : l.length / 8 = k at hlen
  induction k generalizing l with
  | zero =>
    have hnil : l = [] := List.length_eq_zero_iff.mp (by omega)
    rw [hnil]
    rfl
  | succ k ih =>
    have hhead : (l.take 8).length = 8 := by
      rw [List.length_take]
      omega
    have htail : (l.drop 8).length = 8 * k := by
      rw [List.length_drop]
      omega
    have hl : l = l.take 8 ++ l.drop 8 := (List.take_append_drop 8 l).symm
    rw [hl, List.append_assoc, octets_cons hhead, octets_cons hhead, ih (by omega) (by omega) htail, List.cons_append]

/-- The whole octets of the first bits do not see what follows. -/
theorem take_octets_append (l m : List Bool) : (octets (l ++ m)).take (l.length / 8) = octets l := by
  rw [← octets_take, List.take_append_of_le_length (by omega), octets_take, List.take_of_length_le]
  rw [length_octets]

theorem length_flatMap_bits (n : Nat) (vs : List Nat) : (vs.flatMap (bits n)).length = vs.length * n := by
  simp [List.length_flatMap]

/-! ## Alphabets -/

def hexAlphabet : Bytes := lit "0123456789abcdef"
def base64Alphabet : Bytes := lit "ABCDEFGHIJKLMNOPQRSTUVWXYZabcdefghijklmnopqrstuvwxyz0123456789+/"

/-- One character a number. -/
def spelled (alphabet : Bytes) (vs : List Nat) : Bytes := vs.map fun v => alphabet.getD v 0

@[simp] theorem length_spelled (alphabet : Bytes) (vs : List Nat) : (spelled alphabet vs).length = vs.length :=
  List.length_map _

/-- Four bits a digit, digits of either case. -/
def IsHex (text bytes : Bytes) : Prop :=
  ∃ vs : List Nat, (∀ v ∈ vs, v < 16) ∧ vs.length % 2 = 0 ∧ text.map tolower = spelled hexAlphabet vs ∧
    bytes = octets (vs.flatMap (bits 4))

/-- Six bits a character, and `=` up to a multiple of four. -/
def IsBase64 (text bytes : Bytes) : Prop :=
  ∃ (vs : List Nat) (pad : Nat), (∀ v ∈ vs, v < 64) ∧ pad ≤ 2 ∧ (vs.length + pad) % 4 = 0 ∧
    text = spelled base64Alphabet vs ++ List.replicate pad 61 ∧ bytes = octets (vs.flatMap (bits 6))

theorem IsHex.length_text {text bytes : Bytes} (h : IsHex text bytes) : text.length = bytes.length * 2 := by
  rcases h with ⟨vs, -, heven, htext, rfl⟩
  have hlen := congrArg List.length htext
  rw [List.length_map, length_spelled] at hlen
  rw [length_octets, length_flatMap_bits]
  omega

theorem IsBase64.length_text {text bytes : Bytes} (h : IsBase64 text bytes) :
    text.length = (bytes.length + 2) / 3 * 4 := by
  rcases h with ⟨vs, pad, -, hpad, hfour, rfl, rfl⟩
  rw [length_octets, length_flatMap_bits, List.length_append, length_spelled, List.length_replicate]
  omega

end ByteLib
