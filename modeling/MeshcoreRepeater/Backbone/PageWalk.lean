import MeshcoreRepeater.Backbone.Pages
import MeshcoreRepeater.Lib.Tlv

/-! # The walk over a POLICY page

`policy_walk` on any bytes: it comes to an end, accepts what is a concatenation of entries, and
feeds exactly these to `policy_add`.

* `policyWalks_iff`: the loop ends.
* `policyWalk_exact`: what it accepts, and what it puts into the set.
-/

namespace Meshcore

open ByteLib

/-! ## The loop -/

/-- The loop of `policy_walk`, turn by turn: from a place in the page and the set so far to what
it returns and leaves. -/
inductive PolicyWalks : Bytes → Option McPolicy → Bool × Option McPolicy → Prop where
  | done {p : Option McPolicy} : PolicyWalks [] p (true, p)
  | short {b : UInt8} {p : Option McPolicy} : PolicyWalks [b] p (false, p)
  | truncated {kind len : UInt8} {rest : Bytes} {p : Option McPolicy} :
      rest.length < len.toNat → PolicyWalks (kind :: len :: rest) p (false, p)
  | entry {kind len : UInt8} {rest : Bytes} {p : Option McPolicy} {r : Bool × Option McPolicy} :
      len.toNat ≤ rest.length →
      PolicyWalks (rest.drop len.toNat) (p.map fun p => policyAdd p kind (rest.take len.toNat)) r →
      PolicyWalks (kind :: len :: rest) p r

/-- With as much fuel as there are bytes the loop ends as `PolicyWalks` says. -/
theorem policyWalks_loop {fuel : Nat} {e : Bytes} (h : e.length ≤ fuel) (p : Option McPolicy) :
    PolicyWalks e p (policyWalkLoop fuel e p) := by
  induction fuel generalizing e p with
  | zero =>
    have he : e = [] := List.length_eq_zero_iff.mp (Nat.le_zero.mp h)
    subst he
    exact .done
  | succ fuel ih =>
    match e with
    | [] => exact .done
    | [_] => exact .short
    | kind :: len :: rest =>
      rw [policyWalkLoop]
      split
      · rename_i hlen
        exact .truncated hlen
      · rename_i hlen
        -- the rest is shorter by two bytes at least
        refine .entry (Nat.not_lt.mp hlen) (ih ?_ _)
        rw [List.length_cons, List.length_cons] at h
        rw [List.length_drop]
        omega

/-- It ends in one way. -/
theorem PolicyWalks.unique {e : Bytes} {p : Option McPolicy} {r r' : Bool × Option McPolicy} (h : PolicyWalks e p r)
    (h' : PolicyWalks e p r') : r = r' := by
  induction h with
  | done =>
    cases h'
    rfl
  | short =>
    cases h'
    rfl
  | truncated hlen =>
    cases h' with
    | truncated _ => rfl
    | entry hle _ => exact absurd hlen (Nat.not_lt.mpr hle)
  | entry hle _ ih =>
    cases h' with
    | truncated hlen => exact absurd hlen (Nat.not_lt.mpr hle)
    | entry _ h' => exact ih h'

/-- The loop ends, and `policy_walk` is what it ends with. -/
theorem policyWalks_iff {e : Bytes} {p : Option McPolicy} {r : Bool × Option McPolicy} :
    PolicyWalks e p r ↔ r = policyWalk e p := by
  have hwalk : PolicyWalks e p (policyWalk e p) := policyWalks_loop (Nat.le_refl _) p
  constructor
  · intro h
    exact h.unique hwalk
  · rintro rfl
    exact hwalk

/-! ## Entries -/

/-- The walk succeeds on the pages that are entries one after the other. -/
theorem PolicyWalks.encodes {e : Bytes} {p : Option McPolicy} {r : Bool × Option McPolicy} (h : PolicyWalks e p r) :
    r.1 = true ↔ ∃ es, Tlv.Encodes es e := by
  induction h with
  | done => exact ⟨fun _ => ⟨[], Tlv.encodes_nil.mpr rfl⟩, fun _ => rfl⟩
  | short =>
    constructor
    · intro hr
      cases hr
    · rintro ⟨es, hes⟩
      -- a kind without a length is no entry
      exact absurd hes Tlv.not_encodes_single
  | truncated hlen =>
    constructor
    · intro hr
      cases hr
    · rintro ⟨es, hes⟩
      -- nor is a value that is cut off
      exact absurd hlen (Nat.not_lt.mpr (Tlv.encodes_cons.mp hes).1)
  | entry hle _ ih =>
    rw [ih]
    constructor
    · rintro ⟨es, hes⟩
      exact ⟨_, Tlv.encodes_cons.mpr ⟨hle, es, rfl, hes⟩⟩
    · rintro ⟨es, hes⟩
      rcases Tlv.encodes_cons.mp hes with ⟨-, es', -, hes'⟩
      exact ⟨es', hes'⟩

/-- Then all entries are added, in their order. -/
theorem PolicyWalks.addAll {e : Bytes} {p : Option McPolicy} {r : Bool × Option McPolicy} (h : PolicyWalks e p r)
    {es : List PageEntry} (hes : Tlv.Encodes es e) : r = (true, p.map fun p => p.addAll es) := by
  induction h generalizing es with
  | @done p =>
    rw [Tlv.encodes_nil.mp hes]
    cases p with
    | none => rfl
    | some p => rfl
  | short => exact absurd hes Tlv.not_encodes_single
  | truncated hlen => exact absurd hlen (Nat.not_lt.mpr (Tlv.encodes_cons.mp hes).1)
  | @entry kind len rest p r hle _ ih =>
    rcases Tlv.encodes_cons.mp hes with ⟨-, es', rfl, hes'⟩
    rw [ih hes', Option.map_map]
    rfl

/-! ## What an entry does -/

/-- The form of a room: 2 to 31 bytes, one leading `#`, no blank and no control character. -/
structure RoomForm (v : Bytes) : Prop where
  length : 2 ≤ v.length ∧ v.length ≤ 31
  leading : v.head? = some 35 ∧ v.tail.head? ≠ some 35
  plain : ∀ c ∈ v, ¬ c ≤ 0x20 ∧ c ≠ 0x7F

/-- The form of a name: 1 to 31 bytes, and no NUL. -/
structure NameForm (v : Bytes) : Prop where
  length : 1 ≤ v.length ∧ v.length ≤ 31
  plain : (0 : UInt8) ∉ v

/-- What `policy_add` checks of a room is that form. -/
theorem isRoomValue_iff {v : Bytes} : isRoomValue v = true ↔ RoomForm v := by
  have hmax : mcRoomNameLen = 32 := rfl
  have hplain : ∀ c : UInt8, (decide (32 < c) && c != 0x7F) = true ↔ ¬ c ≤ 0x20 ∧ c ≠ 0x7F := by
    intro c
    rw [Bool.and_eq_true, decide_eq_true_iff, bne_iff_ne, UInt8.not_le]
  match v with
  | [] => exact ⟨fun h => absurd h (by decide), fun h => absurd h.length.1 (by simp)⟩
  | [b] =>
    constructor
    · intro h
      cases h
    · intro h
      exact absurd h.length.1 (by simp)
  | a :: b :: v =>
    rw [isRoomValue, hmax, Bool.and_eq_true, Bool.and_eq_true, Bool.and_eq_true, Bool.and_eq_true, decide_eq_true_iff,
      decide_eq_true_iff, beq_iff_eq, bne_iff_ne, List.all_eq_true]
    constructor
    · rintro ⟨⟨⟨⟨hlow, hhigh⟩, hfirst⟩, hsecond⟩, hall⟩
      refine ⟨⟨hlow, Nat.le_of_lt_succ hhigh⟩, ⟨congrArg some hfirst, ?_⟩, fun c hc => (hplain c).mp (hall c hc)⟩
      intro heq
      exact hsecond (Option.some.inj heq)
    · rintro ⟨⟨hlow, hhigh⟩, ⟨hfirst, hsecond⟩, hall⟩
      refine ⟨⟨⟨⟨hlow, Nat.lt_succ_of_le hhigh⟩, Option.some.inj hfirst⟩, ?_⟩, fun c hc => (hplain c).mpr (hall c hc)⟩
      intro heq
      exact hsecond (congrArg some heq)

/-- And of a name. -/
theorem isNameValue_iff {v : Bytes} : isNameValue v = true ↔ NameForm v := by
  have hmax : mcBlacklistNameLen = 32 := rfl
  rw [isNameValue, hmax, Bool.and_eq_true, Bool.and_eq_true, decide_eq_true_iff, decide_eq_true_iff, List.all_eq_true]
  constructor
  · rintro ⟨⟨hlow, hhigh⟩, hall⟩
    refine ⟨⟨hlow, Nat.le_of_lt_succ hhigh⟩, fun hmem => ?_⟩
    exact absurd (hall 0 hmem) (by decide)
  · rintro ⟨⟨hlow, hhigh⟩, hnul⟩
    refine ⟨⟨hlow, Nat.lt_succ_of_le hhigh⟩, fun c hc => ?_⟩
    rw [bne_iff_ne]
    rintro rfl
    exact hnul hc

/-- What `policy_add` does with each entry. -/
structure PutsEntry (p : McPolicy) (kind : UInt8) (v : Bytes) (p' : McPolicy) : Prop where
  room : kind = 1 → RoomForm v →
    p' = if p.rooms.length < 32 then { p with rooms := p.rooms ++ [v] } else { p with skipped := p.skipped + 1 }
  name : kind = 2 → NameForm v →
    p' = if p.names.length < 256 then { p with names := p.names ++ [v] } else { p with skipped := p.skipped + 1 }
  key : kind = 3 → v.length = 32 →
    p' = if p.keys.length < 256 then { p with keys := p.keys ++ [v] } else { p with skipped := p.skipped + 1 }
  other : ¬ (kind = 1 ∧ RoomForm v) → ¬ (kind = 2 ∧ NameForm v) → ¬ (kind = 3 ∧ v.length = 32) → p' = p

/-- Every entry is added, skipped for want of a place, or ignored. -/
theorem policyAdd_putsEntry (p : McPolicy) (kind : UInt8) (v : Bytes) : PutsEntry p kind v (policyAdd p kind v) := by
  -- the code asks whether the list is full
  have hswap : ∀ (n max : Nat) (a b : McPolicy), (if max ≤ n then a else b) = if n < max then b else a := by
    intro n max a b
    by_cases h : n < max
    · rw [if_pos h, if_neg (Nat.not_le.mpr h)]
    · rw [if_neg h, if_pos (Nat.not_lt.mp h)]
  have hkey : isKeyValue v = true ↔ v.length = 32 := beq_iff_eq
  constructor
  · rintro rfl hform
    rw [policyAdd, if_pos (show (1 : UInt8) = bbPolRoom from rfl), isRoomValue_iff.mpr hform]
    exact hswap _ _ _ _
  · rintro rfl hform
    rw [policyAdd, if_neg (by decide), if_pos (show (2 : UInt8) = bbPolBlockName from rfl), isNameValue_iff.mpr hform]
    exact hswap _ _ _ _
  · rintro rfl hform
    rw [policyAdd, if_neg (by decide), if_neg (by decide), if_pos (show (3 : UInt8) = bbPolBlockKey from rfl),
      hkey.mpr hform]
    exact hswap _ _ _ _
  -- a kind whose value does not have its form changes nothing
  · intro hroom hname hkey'
    rw [policyAdd]
    split
    · rename_i hkind
      have hnot : isRoomValue v = false := Bool.eq_false_iff.mpr fun h => hroom ⟨hkind, isRoomValue_iff.mp h⟩
      rw [hnot]
      rfl
    split
    · rename_i hkind
      have hnot : isNameValue v = false := Bool.eq_false_iff.mpr fun h => hname ⟨hkind, isNameValue_iff.mp h⟩
      rw [hnot]
      rfl
    split
    · rename_i hkind
      have hnot : isKeyValue v = false := Bool.eq_false_iff.mpr fun h => hkey' ⟨hkind, hkey.mp h⟩
      rw [hnot]
      rfl
    · rfl

/-- The walk over any page: its loop ends, it accepts exactly the concatenations of entries, and
puts these into the set in their order. -/
theorem policyWalk_exact (e : Bytes) :
    (∀ p r, PolicyWalks e p r ↔ r = policyWalk e p) ∧
      (∀ p, (policyWalk e p).1 = true ↔ ∃ es, Tlv.Encodes es e) ∧
      (∀ es es', Tlv.Encodes es e → Tlv.Encodes es' e → es = es') ∧
      (∀ es p, Tlv.Encodes es e → policyWalk e (some p) =
        (true, some (es.foldl (fun p x => policyAdd p x.1 x.2) p))) ∧
      ∀ p kind v, PutsEntry p kind v (policyAdd p kind v) := by
  refine ⟨fun p r => policyWalks_iff, ?_, fun es es' h h' => h.unique h', ?_, policyAdd_putsEntry⟩
  · intro p
    exact (policyWalks_iff.mpr rfl).encodes
  · intro es p hes
    exact (policyWalks_iff.mpr rfl).addAll hes

end Meshcore
