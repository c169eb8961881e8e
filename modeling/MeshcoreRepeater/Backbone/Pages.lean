import MeshcoreRepeater.Config.Policy

/-! # The entries of a POLICY page

`policy_walk` cuts a page into entries, `policy_add` puts one entry into the set being
collected. `pageEntries` is the page as a list of entries, and a walk feeds exactly
these to `policy_add` (`policyWalk_eq`).

* `policyWalk_check`, `policyWalk_eq`: the first walk and the second.
* `Assembled.fromWire`: the form of a set from pages.
-/

namespace Meshcore

open ByteLib

/-! ## Entries -/

def bbPolRoom : UInt8 := 1
def bbPolBlockName : UInt8 := 2
def bbPolBlockKey : UInt8 := 3
def bbPolMaxPages : Nat := 16

/-- `#name`: one leading `#`, 2 to 31 bytes, no blanks. -/
def isRoomValue (v : Bytes) : Bool :=
  2 ≤ v.length && v.length < mcRoomNameLen && v.getD 0 0 == 35 && v.getD 1 0 != 35 &&
    v.all fun c => 32 < c && c != 0x7F

/-- 1 to 31 bytes without a NUL. -/
def isNameValue (v : Bytes) : Bool :=
  1 ≤ v.length && v.length < mcBlacklistNameLen && v.all fun c => c != 0

def isKeyValue (v : Bytes) : Bool := v.length == 32

/-- One value more than the set can hold. -/
def McPolicy.skip (p : McPolicy) : McPolicy := { p with skipped := p.skipped + 1 }

/-- `policy_add`: a value of the wrong form for its kind and an unknown kind are
passed over, one over the limits is counted. -/
def policyAdd (p : McPolicy) (kind : UInt8) (v : Bytes) : McPolicy :=
  if kind = bbPolRoom then
    if !isRoomValue v then p
    else if mcPolicyMaxRooms ≤ p.rooms.length then p.skip
    else { p with rooms := p.rooms ++ [v] }
  else if kind = bbPolBlockName then
    if !isNameValue v then p
    else if mcPolicyMaxBlocks ≤ p.names.length then p.skip
    else { p with names := p.names ++ [v] }
  else if kind = bbPolBlockKey then
    if !isKeyValue v then p
    else if mcPolicyMaxBlocks ≤ p.keys.length then p.skip
    else { p with keys := p.keys ++ [v] }
  else p

/-- The loop of `policy_walk`: whether the page is well formed, and the set. `none`
is the null pointer of a walk that only checks. -/
def policyWalkLoop : Nat → Bytes → Option McPolicy → Bool × Option McPolicy
  | 0, _, p => (true, p)
  | fuel + 1, e, p =>
    match e with
    | [] => (true, p)
    | [_] => (false, p)
    | kind :: len :: rest =>
      if rest.length < len.toNat then (false, p)
      else policyWalkLoop fuel (rest.drop len.toNat)
        (p.map fun p => policyAdd p kind (rest.take len.toNat))

/-- `policy_walk`; a turn takes two bytes at least. -/
def policyWalk (e : Bytes) (p : Option McPolicy) : Bool × Option McPolicy :=
  policyWalkLoop e.length e p

/-! ## A page as a list of entries -/

/-- One entry: kind and value. -/
abbrev PageEntry := UInt8 × Bytes

/-- The entries up to the end of the page; `none` when one runs past it. -/
def pageEntriesLoop : Nat → Bytes → Option (List PageEntry)
  | 0, _ => some []
  | fuel + 1, e =>
    match e with
    | [] => some []
    | [_] => none
    | kind :: len :: rest =>
      if rest.length < len.toNat then none
      else (pageEntriesLoop fuel (rest.drop len.toNat)).map ((kind, rest.take len.toNat) :: ·)

def pageEntries (e : Bytes) : Option (List PageEntry) := pageEntriesLoop e.length e

/-- A set with the entries put in, first entry first. -/
def McPolicy.addAll (p : McPolicy) (es : List PageEntry) : McPolicy :=
  es.foldl (fun p x => policyAdd p x.1 x.2) p

@[simp] theorem McPolicy.addAll_append (p : McPolicy) (es es' : List PageEntry) :
    p.addAll (es ++ es') = (p.addAll es).addAll es' := List.foldl_append ..

theorem policyWalkLoop_none (fuel : Nat) (e : Bytes) :
    (policyWalkLoop fuel e none).1 = (pageEntriesLoop fuel e).isSome := by
  induction fuel generalizing e with
  | zero => rfl
  | succ fuel ih =>
    match e with
    | [] => rfl
    | [_] => rfl
    | kind :: len :: rest =>
      simp only [policyWalkLoop, pageEntriesLoop]
      split
      · rfl
      · simp only [Option.map_none, Option.isSome_map]
        exact ih _

theorem policyWalkLoop_some {fuel : Nat} {e : Bytes} {es : List PageEntry} (p : McPolicy)
    (h : pageEntriesLoop fuel e = some es) :
    policyWalkLoop fuel e (some p) = (true, some (p.addAll es)) := by
  induction fuel generalizing e es p with
  | zero =>
    cases h
    rfl
  | succ fuel ih =>
    match e with
    | [] =>
      cases h
      rfl
    | [_] => cases h
    | kind :: len :: rest =>
      simp only [pageEntriesLoop] at h
      split at h
      · cases h
      rename_i hlen
      obtain ⟨es', hes, rfl⟩ := Option.map_eq_some_iff.mp h
      simp only [policyWalkLoop, if_neg hlen, Option.map_some]
      exact ih _ hes

/-- The first walk over a page accepts what is a list of entries. -/
theorem policyWalk_check (e : Bytes) : (policyWalk e none).1 = (pageEntries e).isSome :=
  policyWalkLoop_none e.length e

/-- The second puts them into the set, in order. -/
theorem policyWalk_eq {e : Bytes} {es : List PageEntry} (p : McPolicy) (h : pageEntries e = some es) :
    policyWalk e (some p) = (true, some (p.addAll es)) := policyWalkLoop_some p h

/-- A page has at most one entry for every two bytes. -/
theorem length_pageEntries {e : Bytes} {es : List PageEntry} (h : pageEntries e = some es) :
    es.length * 2 ≤ e.length := by
  have hloop : ∀ (fuel : Nat) (e : Bytes) (es : List PageEntry), pageEntriesLoop fuel e = some es →
      es.length * 2 ≤ e.length := by
    intro fuel
    induction fuel with
    | zero =>
      intro e es h
      cases h
      simp
    | succ fuel ih =>
      intro e es h
      match e with
      | [] =>
        cases h
        simp
      | [_] => cases h
      | kind :: len :: rest =>
        simp only [pageEntriesLoop] at h
        split at h
        · cases h
        obtain ⟨es', hes, rfl⟩ := Option.map_eq_some_iff.mp h
        have := ih _ _ hes
        simp only [List.length_drop] at this
        simp only [List.length_cons]
        omega
  exact hloop e.length e es h

/-! ## What a set from the wire looks like -/

/-- A set that only `policy_add` has written: every value has the form of its kind, and
the lists are within their limits. -/
structure McPolicy.FromWire (p : McPolicy) : Prop where
  rooms : ∀ v ∈ p.rooms, isRoomValue v = true
  roomsLe : p.rooms.length ≤ mcPolicyMaxRooms
  names : ∀ v ∈ p.names, isNameValue v = true
  namesLe : p.names.length ≤ mcPolicyMaxBlocks
  keys : ∀ v ∈ p.keys, isKeyValue v = true
  keysLe : p.keys.length ≤ mcPolicyMaxBlocks
  skipped : 0 ≤ p.skipped

theorem McPolicy.fromWire_of_empty (version : UInt32) :
    McPolicy.FromWire { McPolicy.empty with version := version } := by
  constructor <;> simp [McPolicy.empty]

theorem forall_mem_concat {α : Type} {P : α → Prop} {l : List α} {a : α} (h : ∀ x ∈ l, P x) (ha : P a) :
    ∀ x ∈ l ++ [a], P x := by
  intro x hx
  rcases List.mem_append.mp hx with hl | hr
  · exact h x hl
  · exact List.mem_singleton.mp hr ▸ ha

/-- One entry put in: at most one value more is skipped. -/
theorem McPolicy.FromWire.add {p : McPolicy} (h : p.FromWire) (kind : UInt8) (v : Bytes) :
    (policyAdd p kind v).FromWire ∧ (policyAdd p kind v).version = p.version ∧
      (policyAdd p kind v).skipped ≤ p.skipped + 1 := by
  have hskip : p.skip.FromWire ∧ p.skip.version = p.version ∧ p.skip.skipped ≤ p.skipped + 1 :=
    ⟨{ h with skipped := by have := h.skipped; simp only [skip]; omega }, rfl, le_refl _⟩
  have hsame : p.FromWire ∧ p.version = p.version ∧ p.skipped ≤ p.skipped + 1 := ⟨h, rfl, by omega⟩
  unfold policyAdd
  split
  · split
    · exact hsame
    rename_i hv
    split
    · exact hskip
    rename_i hlen
    refine ⟨{ h with rooms := forall_mem_concat h.rooms (by simpa using hv), roomsLe := ?_ }, rfl, by simp⟩
    simp only [List.length_append, List.length_singleton]
    omega
  split
  · split
    · exact hsame
    rename_i hv
    split
    · exact hskip
    rename_i hlen
    refine ⟨{ h with names := forall_mem_concat h.names (by simpa using hv), namesLe := ?_ }, rfl, by simp⟩
    simp only [List.length_append, List.length_singleton]
    omega
  split
  · split
    · exact hsame
    rename_i hv
    split
    · exact hskip
    rename_i hlen
    refine ⟨{ h with keys := forall_mem_concat h.keys (by simpa using hv), keysLe := ?_ }, rfl, by simp⟩
    simp only [List.length_append, List.length_singleton]
    omega
  · exact hsame

theorem McPolicy.FromWire.addAll {p : McPolicy} (h : p.FromWire) (es : List PageEntry) :
    (p.addAll es).FromWire ∧ (p.addAll es).version = p.version ∧
      (p.addAll es).skipped ≤ p.skipped + es.length := by
  induction es generalizing p with
  | nil => exact ⟨h, rfl, by simp [McPolicy.addAll]⟩
  | cons x es ih =>
    obtain ⟨hadd, hversion, hskipped⟩ := h.add x.1 x.2
    obtain ⟨hrest, hversion', hskipped'⟩ := ih hadd
    refine ⟨hrest, hversion'.trans hversion, ?_⟩
    have : (p.addAll (x :: es)).skipped ≤ (policyAdd p x.1 x.2).skipped + es.length := hskipped'
    simp only [List.length_cons]
    push_cast
    omega

/-! ## A set from pages -/

/-- The entries one datagram can carry: 1200 bytes less header, MAC and page header. -/
def bbMaxPage : Nat := 1200 - 12 - 16 - 6

/-- The second walk over a page: its entries go into the set. -/
def McPolicy.addPage (p : McPolicy) (e : Bytes) : McPolicy := (policyWalk e (some p)).2.getD p

theorem McPolicy.addPage_eq (p : McPolicy) {e : Bytes} {es : List PageEntry} (h : pageEntries e = some es) :
    p.addPage e = p.addAll es := by
  rw [addPage, policyWalk_eq p h]
  rfl

/-- A set that pages can make: at most 16 well-formed ones, put into an empty set. -/
def Assembled (p : McPolicy) : Prop :=
  ∃ (version : UInt32) (pages : List Bytes), version ≠ 0 ∧ pages.length ≤ bbPolMaxPages ∧
    (∀ e ∈ pages, e.length ≤ bbMaxPage ∧ (policyWalk e none).1 = true) ∧
    p = pages.foldl McPolicy.addPage { McPolicy.empty with version := version }

theorem McPolicy.FromWire.addPages {p : McPolicy} (h : p.FromWire) {pages : List Bytes}
    (hpages : ∀ e ∈ pages, e.length ≤ bbMaxPage ∧ (policyWalk e none).1 = true) :
    (pages.foldl McPolicy.addPage p).FromWire ∧ (pages.foldl McPolicy.addPage p).version = p.version ∧
      (pages.foldl McPolicy.addPage p).skipped ≤ p.skipped + pages.length * bbMaxPage := by
  induction pages generalizing p with
  | nil => exact ⟨h, rfl, by simp⟩
  | cons e pages ih =>
    obtain ⟨hlen, hwalk⟩ := hpages e List.mem_cons_self
    rw [policyWalk_check] at hwalk
    obtain ⟨es, hes⟩ := Option.isSome_iff_exists.mp hwalk
    obtain ⟨hadd, hversion, hskipped⟩ := h.addAll es
    rw [← p.addPage_eq hes] at hadd hversion hskipped
    obtain ⟨hrest, hversion', hskipped'⟩ := ih hadd fun e' he' => hpages e' (List.mem_cons_of_mem e he')
    refine ⟨hrest, hversion'.trans hversion, ?_⟩
    have hcount := length_pageEntries hes
    have hstep : (es.length : Int) ≤ bbMaxPage := by omega
    simp only [List.foldl_cons, List.length_cons]
    push_cast
    linarith

/-- A set from pages has the form of the wire, a version, and a count that fits an
`int`. -/
theorem Assembled.fromWire {p : McPolicy} (h : Assembled p) :
    p.FromWire ∧ p.version ≠ 0 ∧ p.skipped < 2 ^ 31 := by
  obtain ⟨version, pages, hversion, hcount, hpages, rfl⟩ := h
  obtain ⟨hwire, hversion', hskipped⟩ := (McPolicy.fromWire_of_empty version).addPages hpages
  refine ⟨hwire, hversion' ▸ hversion, ?_⟩
  have hbound : (pages.length : Int) * bbMaxPage ≤ 16 * 1166 := by
    have hpage : (bbMaxPage : Int) = 1166 := rfl
    have hmax : bbPolMaxPages = 16 := rfl
    rw [hpage]
    omega
  calc _ ≤ (0 : Int) + pages.length * bbMaxPage := hskipped
    _ < 2 ^ 31 := by omega

end Meshcore
