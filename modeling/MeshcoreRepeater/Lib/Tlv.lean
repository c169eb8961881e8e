import Mathlib.Tactic.Common
import Mathlib.Data.List.Basic

/-! # Entries of kind, length and value

Byte strings that are entries one after another, each with a byte for its kind, a byte for the
length of its value, and the value. A byte string is so in one way at most (`Encodes.unique`).

* `encodes_cons`: the first entry tells where the others start.
-/

namespace Tlv

/-- Kind and value. -/
abbrev Entry := UInt8 × List UInt8

/-- An entry's bytes. -/
def bytes (x : Entry) : List UInt8 := x.1 :: UInt8.ofNat x.2.length :: x.2

/-- `e` is the entries, whose lengths fit their byte. -/
def Encodes (es : List Entry) (e : List UInt8) : Prop := (∀ x ∈ es, x.2.length < 256) ∧ e = es.flatMap bytes

theorem encodes_nil {es : List Entry} : Encodes es [] ↔ es = [] := by
  constructor
  · rintro ⟨-, heq⟩
    cases es with
    | nil => rfl
    | cons x es => cases heq
  · rintro rfl
    exact ⟨fun _ hx => absurd hx List.not_mem_nil, rfl⟩

theorem not_encodes_single {es : List Entry} {b : UInt8} : ¬ Encodes es [b] := by
  rintro ⟨-, heq⟩
  cases es with
  | nil => cases heq
  | cons x es =>
    have hlen := congrArg List.length heq
    simp only [List.flatMap_cons, bytes, List.length_append, List.length_cons, List.length_nil] at hlen
    omega

/-- The first entry tells where the others start. -/
theorem encodes_cons {es : List Entry} {kind len : UInt8} {rest : List UInt8} :
    Encodes es (kind :: len :: rest) ↔ len.toNat ≤ rest.length ∧
      ∃ es', es = (kind, rest.take len.toNat) :: es' ∧ Encodes es' (rest.drop len.toNat) := by
  constructor
  · rintro ⟨hfits, heq⟩
    cases es with
    | nil => cases heq
    | cons x es =>
      rcases x with ⟨k, v⟩
      have hv : v.length < 256 := hfits (k, v) List.mem_cons_self
      rw [List.flatMap_cons, bytes, List.cons_append, List.cons_append, List.cons.injEq, List.cons.injEq] at heq
      rcases heq with ⟨rfl, hlen, rfl⟩
      have hnat : len.toNat = v.length := by
        rw [hlen, UInt8.toNat_ofNat', Nat.mod_eq_of_lt hv]
      rw [hnat, List.take_left, List.drop_left, List.length_append]
      exact ⟨Nat.le_add_right _ _, es, rfl, fun x hx => hfits x (List.mem_cons_of_mem _ hx), rfl⟩
  · rintro ⟨hle, es', rfl, hfits, heq⟩
    have hlen : (rest.take len.toNat).length = len.toNat := List.length_take_of_le hle
    constructor
    · intro x hx
      rcases List.mem_cons.mp hx with rfl | hx
      · rw [hlen]
        exact len.toNat_lt
      · exact hfits x hx
    · rw [List.flatMap_cons, bytes, ← heq, hlen, UInt8.ofNat_toNat, List.cons_append, List.cons_append,
        List.take_append_drop]

theorem Encodes.unique {es es' : List Entry} {e : List UInt8} (h : Encodes es e) (h' : Encodes es' e) : es = es' := by
  generalize hn : e.length = n
  induction n using Nat.strongRecOn generalizing e es es' with
  | ind n ih =>
    match e with
    | [] => rw [encodes_nil.mp h, encodes_nil.mp h']
    | [_] => exact absurd h not_encodes_single
    | kind :: len :: rest =>
      rcases encodes_cons.mp h with ⟨-, es₁, rfl, h₁⟩
      rcases encodes_cons.mp h' with ⟨-, es₂, rfl, h₂⟩
      rw [ih (rest.drop len.toNat).length ?_ h₁ h₂ rfl]
      rw [← hn, List.length_drop, List.length_cons, List.length_cons]
      omega

end Tlv
