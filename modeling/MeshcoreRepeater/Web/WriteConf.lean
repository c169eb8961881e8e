import MeshcoreRepeater.Lib.TextLines
import MeshcoreRepeater.Lib.Utf8Decode

/-! # The web admin's config file

`_active`, `_fmt`, `write_conf` and `_clean_value` of the web service. `write_conf` reads the
file as text, goes over its lines once and writes them back with the changes; `plan` tells for
each line what becomes of it.

* `writeConf_ofText`: changes of characters are written.
* `writeConf_surrogate`: half of a surrogate pair in a value has no encoding, and the file stays
  as it was.
* `rewriteLines_plan`: the lines that are put out, part by part.
-/

namespace Meshcore

open TextLines

/-- A `str` of characters. -/
abbrev Text := List Char

/-- A code point of a `str`: a character, or half of a surrogate pair, which an escape in JSON
can stand for. -/
inductive CodePoint where
  | char (c : Char)
  | surrogate (n : Fin 0x800)
deriving DecidableEq, Repr

/-- What the pieces of a `str` can be: characters, or code points. -/
class OfChar (α : Type) where
  char : Char → α

instance : OfChar Char := ⟨id⟩

instance : OfChar CodePoint := ⟨CodePoint.char⟩

variable {α : Type} [OfChar α]

/-! ## The service's functions -/

/-- `_active`: the key and the value of a line that holds them. -/
def active (line : Text) : Option (Text × Text) :=
  let s := strip (line.takeWhile (· ≠ '#'))
  if s.contains '=' then
    let k := strip (s.takeWhile (· ≠ '='))
    let v := strip ((s.dropWhile (· ≠ '=')).drop 1)
    if k = [] then none else some (k, v)
  else none

/-- The value of a change: `str | [str]`. -/
inductive ConfValue (α : Type) where
  | one (v : List α)
  | many (vs : List (List α))
deriving DecidableEq, Repr

/-- The values to be written. -/
def ConfValue.values : ConfValue α → List (List α)
  | one v => [v]
  | many vs => vs

/-- `_fmt`. -/
def fmt (key : Text) (value : List α) (comment : Text) : List α :=
  let line := (key ++ List.replicate (18 - key.length) ' ' ++ " = ".toList).map OfChar.char ++ value
  line ++ if comment = [] then [] else ("    ".toList ++ comment).map OfChar.char

/-- A line from its first `'#'` on. -/
def lineComment (line : Text) : Text := line.dropWhile (· ≠ '#')

/-- The lines of one change: a list has no comment. -/
def changeLines (key : Text) (value : ConfValue α) (comment : Text) : List (List α) :=
  match value with
  | .one v => [fmt key v comment]
  | .many vs => vs.map fun v => fmt key v []

/-- `changes`, in its order. -/
abbrev Changes (α : Type) := List (Text × ConfValue α)

/-- The change an active line is for. -/
def changeOf (changes : Changes α) (line : Text) : Option (Text × ConfValue α) :=
  (active line).bind fun kv => (changes.lookup kv.1).map fun v => (kv.1, v)

/-- The loop of `write_conf`: the lines it puts out, and the keys in `done` afterwards. -/
def rewriteLines (changes : Changes α) : List Text → List Text → List (List α) × List Text
  | done, [] => ([], done)
  | done, line :: lines =>
    match changeOf changes line with
    | some (k, v) =>
      if k ∈ done then rewriteLines changes done lines
      else
        let r := rewriteLines changes (k :: done) lines
        (changeLines k v (lineComment line) ++ r.1, r.2)
    | none =>
      let r := rewriteLines changes done lines
      (line.map OfChar.char :: r.1, r.2)

/-- What stands in front of the keys that are new to the file. -/
def addedHeader : List Text := [[], "# ---- set from the web admin page ----".toList]

/-- The new text of the file. -/
def rewrite (changes : Changes α) (file : List UInt8) : List α :=
  let r := rewriteLines changes [] (textLines (Utf8.decode file))
  let added := changes.filter fun c => decide (c.1 ∉ r.2)
  let out := r.1 ++ (if added = [] then [] else addedHeader.map (List.map OfChar.char)) ++
    added.flatMap fun c => changeLines c.1 c.2 []
  List.intercalate [OfChar.char '\n'] out ++ [OfChar.char '\n']

/-- The character that a code point is. -/
def CodePoint.char? : CodePoint → Option Char
  | char c => some c
  | surrogate _ => none

/-- `str.encode`, strictly: half of a surrogate pair has no encoding. -/
def encode? (s : List CodePoint) : Option (List UInt8) := (s.mapM CodePoint.char?).map Utf8.encode

/-- `write_conf`: the new bytes of the file. `none` where `f.write` raises: `os.replace` is not
reached, and the file stays as it is. -/
def writeConf (changes : Changes CodePoint) (file : List UInt8) : Option (List UInt8) := encode? (rewrite changes file)

/-- The keys whose values are stored without their `'#'`. -/
def bareKeys : List Text := ["room".toList, "ping_channel".toList]

/-- `str.isspace` of one code point. -/
def CodePoint.isWhite : CodePoint → Bool
  | char c => TextLines.isWhite c
  | surrogate _ => false

/-- `_clean_value`, `none` where it raises. -/
def cleanValue (key : Text) (v : List CodePoint) : Option (List CodePoint) :=
  let v := (v.dropWhile CodePoint.isWhite).rdropWhile CodePoint.isWhite
  if v.contains (.char '#') ∧ key ∉ bareKeys then none
  else if v.contains (.char '\n') ∨ v.contains (.char '\r') then none
  else some (if key ∈ bareKeys then v.dropWhile (· = .char '#') else v)

/-- A character of `KEY_RE`. -/
def isKeyChar (c : Char) : Bool := ('a' ≤ c && c ≤ 'z') || ('0' ≤ c && c ≤ '9') || c == '_'

/-- `KEY_RE.match`: `$` also holds in front of a newline that ends the text. -/
def keyRe (k : Text) : Bool :=
  let name := if k.getLast? = some '\n' then k.dropLast else k
  decide (1 ≤ name.length) && decide (name.length ≤ 40) && name.all isKeyChar

/-- What `save_config` hands to `write_conf`. -/
structure CleanChanges (changes : Changes CodePoint) : Prop where
  distinct : (changes.map Prod.fst).Nodup
  keys : ∀ c ∈ changes, keyRe c.1 = true
  values : ∀ c ∈ changes, ∀ x ∈ c.2.values, ∃ raw, cleanValue c.1 raw = some x

/-! ## Changes of characters -/

@[simp] theorem map_ofChar (s : Text) : s.map (OfChar.char : Char → Char) = s := List.map_id s

/-- A line of characters. -/
theorem fmt_text (key value comment : Text) :
    fmt key value comment = key ++ List.replicate (18 - key.length) ' ' ++ " = ".toList ++ value ++
      if comment = [] then [] else "    ".toList ++ comment := by
  rw [fmt, map_ofChar, map_ofChar]

/-- A text as a `str`. -/
def ofText (s : Text) : List CodePoint := s.map .char

/-- A value as it is handed over. -/
def ConfValue.ofText : ConfValue Char → ConfValue CodePoint
  | one v => one (Meshcore.ofText v)
  | many vs => many (vs.map Meshcore.ofText)

/-- Changes as they are handed over. -/
def Changes.ofText (changes : Changes Char) : Changes CodePoint := changes.map fun c => (c.1, c.2.ofText)

/-- Text has an encoding. -/
theorem encode?_ofText (s : Text) : encode? (ofText s) = some (Utf8.encode s) := by
  have hchars : (ofText s).mapM CodePoint.char? = some s := by
    induction s with
    | nil => rfl
    | cons c s ih =>
      rw [ofText] at ih
      rw [ofText, List.map_cons, List.mapM_cons, ih]
      rfl
  rw [encode?, hchars]
  rfl

/-- What has an encoding is text. -/
theorem of_encode?_eq_some {s : List CodePoint} {b : List UInt8} (h : encode? s = some b) :
    ∃ t, s = ofText t ∧ b = Utf8.encode t := by
  -- what was let through piece by piece are characters
  have hchars : ∀ (s : List CodePoint) (t : Text), s.mapM CodePoint.char? = some t → s = ofText t := by
    intro s
    induction s with
    | nil =>
      rintro t h
      cases h
      rfl
    | cons c s ih =>
      intro t h
      rw [List.mapM_cons] at h
      cases c with
      | surrogate n => cases h
      | char c =>
        cases hs : s.mapM CodePoint.char? with
        | none =>
          rw [hs] at h
          cases h
        | some t' =>
          rw [hs] at h
          cases h
          rw [ih t' hs]
          rfl
  rw [encode?, Option.map_eq_some_iff] at h
  rcases h with ⟨t, ht, rfl⟩
  exact ⟨t, hchars s t ht, rfl⟩

/-- Value by value. -/
theorem values_ofText (v : ConfValue Char) : v.ofText.values = v.values.map ofText := by
  cases v with
  | one v => rfl
  | many vs => rfl

/-- Line by line. -/
theorem fmt_ofText (key value comment : Text) : fmt key (ofText value) comment = ofText (fmt key value comment) := by
  rw [fmt_text, fmt, ofText, ofText]
  split
  · simp only [List.map_append, List.append_nil]
    rfl
  · simp only [List.map_append]
    rfl

/-- Change by change. -/
theorem changeLines_ofText (key : Text) (value : ConfValue Char) (comment : Text) :
    changeLines key value.ofText comment = (changeLines key value comment).map ofText := by
  cases value with
  | one v => exact congrArg (fun l => [l]) (fmt_ofText key v comment)
  | many vs =>
    simp only [ConfValue.ofText, changeLines, List.map_map]
    exact List.map_congr_left fun v _ => fmt_ofText key v []

/-- A change is found under the same key. -/
theorem lookup_ofText (changes : Changes Char) (k : Text) :
    changes.ofText.lookup k = (changes.lookup k).map ConfValue.ofText := by
  induction changes with
  | nil => rfl
  | cons c changes ih =>
    rw [Changes.ofText] at ih ⊢
    rw [List.map_cons, List.lookup_cons, List.lookup_cons]
    split
    · rfl
    · exact ih

/-- And a line is for the same change. -/
theorem changeOf_ofText (changes : Changes Char) (line : Text) :
    changeOf changes.ofText line = (changeOf changes line).map fun c => (c.1, c.2.ofText) := by
  rw [changeOf, changeOf]
  cases active line with
  | none => rfl
  | some kv =>
    rw [Option.bind_some, Option.bind_some, lookup_ofText, Option.map_map, Option.map_map]
    rfl

/-- So the loop takes the same way. -/
theorem rewriteLines_ofText (changes : Changes Char) (done lines : List Text) :
    rewriteLines changes.ofText done lines =
      ((rewriteLines changes done lines).1.map ofText, (rewriteLines changes done lines).2) := by
  induction lines generalizing done with
  | nil => rfl
  | cons line lines ih =>
    rw [rewriteLines, rewriteLines, changeOf_ofText]
    cases changeOf changes line with
    | none =>
      simp only [Option.map_none, ih, List.map_cons, map_ofChar]
      rfl
    | some c =>
      simp only [Option.map_some]
      split
      · exact ih done
      · simp only [ih, changeLines_ofText, List.map_append]

/-- Changes of characters leave a text of characters, and so the file is written. -/
theorem writeConf_ofText (changes : Changes Char) (file : List UInt8) :
    writeConf changes.ofText file = some (Utf8.encode (rewrite changes file)) := by
  -- lines are joined alike
  have hlines : ∀ ls : List Text, List.intercalate [OfChar.char '\n'] (ls.map ofText) =
      ofText (List.intercalate ['\n'] ls) := by
    intro ls
    induction ls with
    | nil => rfl
    | cons line ls ih =>
      cases ls with
      | nil => simp [List.intercalate_singleton]
      | cons next ls =>
        have hcons : List.intercalate ['\n'] (line :: next :: ls) =
            line ++ ['\n'] ++ List.intercalate ['\n'] (next :: ls) := List.intercalate_cons_of_ne_nil (by simp)
        rw [List.map_cons, List.intercalate_cons_of_ne_nil (by simp), ih, hcons, ofText, ofText, ofText,
          List.map_append, List.map_append]
        rfl
  -- the same keys are new to the file
  have hadded : ∀ done : List Text, changes.ofText.filter (fun c => decide (c.1 ∉ done)) =
      Changes.ofText (changes.filter fun c => decide (c.1 ∉ done)) := fun done => List.filter_map
  -- their lines
  have hnew : ∀ cs : Changes Char, (cs.ofText.flatMap fun c => changeLines c.1 c.2 []) =
      (cs.flatMap fun c => changeLines c.1 c.2 []).map ofText := by
    intro cs
    rw [Changes.ofText, List.flatMap_map, List.map_flatMap]
    exact List.flatMap_congr fun c _ => changeLines_ofText c.1 c.2 []
  -- the comment in front of them
  have hheader : ∀ cs : Changes Char,
      (if cs.ofText = [] then [] else addedHeader.map (List.map OfChar.char)) =
        (if cs = [] then [] else addedHeader.map (List.map (OfChar.char : Char → Char))).map ofText := by
    intro cs
    cases cs with
    | nil => rfl
    | cons c cs => rfl
  have htext : rewrite changes.ofText file = ofText (rewrite changes file) := by
    rw [rewrite, rewrite, rewriteLines_ofText]
    simp only
    rw [hadded, hnew, hheader, ← List.map_append, ← List.map_append, hlines, ofText, ofText, List.map_append]
    rfl
  rw [writeConf, htext, encode?_ofText]

/-! ## What has no encoding -/

omit [OfChar α] in
/-- Keys are given once, so each change is found. -/
theorem lookup_of_mem {changes : Changes α} (h : (changes.map Prod.fst).Nodup) {c : Text × ConfValue α} (hc : c ∈ changes) :
    changes.lookup c.1 = some c.2 := by
  induction changes with
  | nil => cases hc
  | cons d changes ih =>
    rw [List.map_cons, List.nodup_cons] at h
    rcases List.mem_cons.mp hc with rfl | hc
    · rw [List.lookup_cons, beq_self_eq_true]
    · have hne : c.1 ≠ d.1 := fun heq => h.1 (heq ▸ List.mem_map_of_mem hc)
      rw [List.lookup_cons, beq_false_of_ne hne]
      exact ih h.2 hc

/-- A key that is done was met, and its lines are put out. -/
theorem mem_rewriteLines {changes : Changes α} {done lines : List Text} {k : Text} {v : ConfValue α}
    (hlookup : changes.lookup k = some v) (hdone : k ∉ done) (hmem : k ∈ (rewriteLines changes done lines).2) :
    ∃ comment, ∀ line ∈ changeLines k v comment, line ∈ (rewriteLines changes done lines).1 := by
  induction lines generalizing done with
  | nil => exact absurd hmem hdone
  | cons line lines ih =>
    rw [rewriteLines] at hmem ⊢
    cases hchange : changeOf changes line with
    | none =>
      simp only [hchange] at hmem ⊢
      rcases ih hdone hmem with ⟨comment, hin⟩
      exact ⟨comment, fun l hl => List.mem_cons_of_mem _ (hin l hl)⟩
    | some c =>
      rcases c with ⟨k', v'⟩
      simp only [hchange] at hmem ⊢
      split at hmem
      · rename_i hk'
        rw [if_pos hk']
        exact ih hdone hmem
      · rename_i hk'
        rw [if_neg hk']
        by_cases hkk : k = k'
        · subst hkk
          -- the line is for this change
          have hv : v' = v := by
            rw [changeOf, Option.bind_eq_some_iff] at hchange
            rcases hchange with ⟨kv, -, hmap⟩
            rw [Option.map_eq_some_iff] at hmap
            rcases hmap with ⟨w, hw, heq⟩
            rw [Prod.mk.injEq] at heq
            rw [heq.1, hlookup] at hw
            exact heq.2.symm.trans (Option.some.inj hw).symm
          exact ⟨lineComment line, fun l hl => List.mem_append_left _ (hv ▸ hl)⟩
        -- the line is for another key
        · have hmore : k ∉ k' :: done := by
            rw [List.mem_cons, not_or]
            exact ⟨hkk, hdone⟩
          rcases ih hmore hmem with ⟨comment, hin⟩
          exact ⟨comment, fun l hl => List.mem_append_right _ (hin l hl)⟩

omit [OfChar α] in
/-- Joining loses nothing. -/
theorem mem_intercalate {sep line : List α} {lines : List (List α)} (hline : line ∈ lines) {p : α} (hp : p ∈ line) :
    p ∈ List.intercalate sep lines := by
  induction lines with
  | nil => cases hline
  | cons first lines ih =>
    cases lines with
    | nil =>
      rw [List.mem_singleton.mp hline] at hp
      simpa using hp
    | cons next lines =>
      rw [List.intercalate_cons_of_ne_nil (by simp), List.append_assoc]
      rcases List.mem_cons.mp hline with rfl | hline
      · exact List.mem_append_left _ hp
      · exact List.mem_append_right _ (List.mem_append_right _ (ih hline))

/-- Every value of a change is in one of its lines. -/
theorem mem_changeLines {key : Text} {value : ConfValue α} {x : List α} (hx : x ∈ value.values) (comment : Text) :
    ∃ line ∈ changeLines key value comment, ∀ p ∈ x, p ∈ line := by
  have hfmt : ∀ comment, ∀ p ∈ x, p ∈ fmt key x comment := fun comment p hp =>
    List.mem_append_left _ (List.mem_append_right _ hp)
  cases value with
  | one v =>
    rw [ConfValue.values, List.mem_singleton] at hx
    subst hx
    exact ⟨_, List.mem_singleton_self _, hfmt comment⟩
  | many vs => exact ⟨_, List.mem_map_of_mem hx, hfmt []⟩

/-- Every new value is written, wherever its key stands. -/
theorem mem_rewrite {changes : Changes α} (hdistinct : (changes.map Prod.fst).Nodup) {c : Text × ConfValue α}
    (hc : c ∈ changes) {x : List α} (hx : x ∈ c.2.values) (file : List UInt8) {p : α} (hp : p ∈ x) :
    p ∈ rewrite changes file := by
  rw [rewrite]
  apply List.mem_append_left
  by_cases hmet : c.1 ∈ (rewriteLines changes [] (textLines (Utf8.decode file))).2
  · rcases mem_rewriteLines (lookup_of_mem hdistinct hc) List.not_mem_nil hmet with ⟨comment, hlines⟩
    rcases mem_changeLines hx comment with ⟨line, hline, hin⟩
    exact mem_intercalate (List.mem_append_left _ (List.mem_append_left _ (hlines line hline))) (hin p hp)
  · rcases mem_changeLines hx [] with ⟨line, hline, hin⟩
    refine mem_intercalate (List.mem_append_right _ (List.mem_flatMap.mpr ⟨c, ?_, hline⟩)) (hin p hp)
    exact List.mem_filter.mpr ⟨hc, decide_eq_true hmet⟩

/-- Half of a surrogate pair in a value: `write_conf` raises. -/
theorem writeConf_surrogate {changes : Changes CodePoint} (hdistinct : (changes.map Prod.fst).Nodup)
    {c : Text × ConfValue CodePoint} (hc : c ∈ changes) {x : List CodePoint} (hx : x ∈ c.2.values) {n : Fin 0x800}
    (hn : CodePoint.surrogate n ∈ x) (file : List UInt8) : writeConf changes file = none := by
  cases hwrite : writeConf changes file with
  | none => rfl
  | some b =>
    rcases of_encode?_eq_some hwrite with ⟨t, ht, -⟩
    have hmem := mem_rewrite hdistinct hc hx file hn
    rw [ht] at hmem
    rcases List.mem_map.mp hmem with ⟨d, -, hd⟩
    cases hd

/-! ## What becomes of each line -/

/-- A part of the new file: a line that stays, or the lines of a change. -/
inductive Item where
  | kept (line : Text)
  | put (key : Text) (value : ConfValue Char) (comment : Text)

namespace Item

def lines : Item → List Text
  | kept line => [line]
  | put k v comment => changeLines k v comment

/-- The key of a change. -/
def key? : Item → Option Text
  | kept _ => none
  | put k _ _ => some k

/-- A line that stays. -/
def line? : Item → Option Text
  | kept line => some line
  | put _ _ _ => none

end Item

/-- The loop of `write_conf`, part by part. -/
def plan (changes : Changes Char) : List Text → List Text → List Item
  | _, [] => []
  | done, line :: lines =>
    match changeOf changes line with
    | some (k, v) =>
      if k ∈ done then plan changes done lines else .put k v (lineComment line) :: plan changes (k :: done) lines
    | none => .kept line :: plan changes done lines

/-- The changes whose keys are not met in the file. -/
def added (changes : Changes Char) (lines : List Text) : Changes Char :=
  changes.filter fun c => decide (c.1 ∉ (plan changes [] lines).filterMap Item.key?)

/-- A line that is not replaced. -/
def isKept (changes : Changes Char) (line : Text) : Bool := (changeOf changes line).isNone

/-- The comment of the first active line of a key. -/
def firstComment (lines : List Text) (k : Text) : Text :=
  match lines.find? fun line => decide ((active line).map Prod.fst = some k) with
  | some line => lineComment line
  | none => []

variable {changes : Changes Char} {done lines : List Text}

theorem changeOf_eq_some {line k : Text} {v : ConfValue Char} (h : changeOf changes line = some (k, v)) :
    (active line).map Prod.fst = some k ∧ changes.lookup k = some v := by
  rw [changeOf] at h
  cases hact : active line with
  | none =>
    rw [hact] at h
    cases h
  | some kv =>
    rw [hact, Option.bind_some, Option.map_eq_some_iff] at h
    rcases h with ⟨v', hlookup, heq⟩
    cases heq
    exact ⟨rfl, hlookup⟩

theorem changeOf_eq_none {line k : Text} (h : changeOf changes line = none) {v : ConfValue Char}
    (hk : changes.lookup k = some v) : (active line).map Prod.fst ≠ some k := by
  intro hact
  rw [Option.map_eq_some_iff] at hact
  rcases hact with ⟨kv, hkv, rfl⟩
  rw [changeOf, hkv, Option.bind_some, hk] at h
  cases h

/-- The loop puts out the parts of the plan, and is done with their keys. -/
theorem rewriteLines_plan (changes : Changes Char) (done lines : List Text) :
    (rewriteLines changes done lines).1 = (plan changes done lines).flatMap Item.lines ∧
      ∀ k, k ∈ (rewriteLines changes done lines).2 ↔
        k ∈ done ∨ k ∈ (plan changes done lines).filterMap Item.key? := by
  induction lines generalizing done with
  | nil => exact ⟨rfl, fun k => by simp [rewriteLines, plan]⟩
  | cons line lines ih =>
    rw [rewriteLines, plan]
    cases changeOf changes line with
    | none =>
      rcases ih done with ⟨hout, hdone⟩
      simp only [List.flatMap_cons, List.filterMap_cons, Item.lines, Item.key?, List.singleton_append, map_ofChar]
      exact ⟨by rw [hout], hdone⟩
    | some c =>
      rcases c with ⟨k, v⟩
      by_cases hk : k ∈ done
      · simp only [if_pos hk]
        exact ih done
      · rcases ih (k :: done) with ⟨hout, hdone⟩
        simp only [if_neg hk, List.flatMap_cons, List.filterMap_cons, Item.lines, Item.key?]
        refine ⟨by rw [hout], fun k' => ?_⟩
        rw [hdone, List.mem_cons, List.mem_cons]
        constructor
        · rintro ((rfl | hk') | hk')
          · exact Or.inr (Or.inl rfl)
          · exact Or.inl hk'
          · exact Or.inr (Or.inr hk')
        · rintro (hk' | rfl | hk')
          · exact Or.inl (Or.inr hk')
          · exact Or.inl (Or.inl rfl)
          · exact Or.inr hk'

/-- The lines that stay, in their order. -/
theorem plan_lines (changes : Changes Char) (done lines : List Text) :
    (plan changes done lines).filterMap Item.line? = lines.filter (isKept changes) := by
  induction lines generalizing done with
  | nil => rfl
  | cons line lines ih =>
    rw [plan, List.filter_cons, isKept]
    cases changeOf changes line with
    | none =>
      simp only [List.filterMap_cons, Item.line?, Option.isNone_none, if_true]
      rw [ih]
    | some c =>
      rcases c with ⟨k, v⟩
      simp only [Option.isNone_some, Bool.false_eq_true, if_false]
      split
      · exact ih done
      · rw [List.filterMap_cons]
        exact ih (k :: done)

theorem firstComment_cons_of_ne {line k : Text} (h : (active line).map Prod.fst ≠ some k) :
    firstComment (line :: lines) k = firstComment lines k := by
  simp only [firstComment, List.find?_cons, decide_eq_false h]

theorem firstComment_cons_self {line k : Text} (h : (active line).map Prod.fst = some k) :
    firstComment (line :: lines) k = lineComment line := by
  simp only [firstComment, List.find?_cons, decide_eq_true h]

/-- A change is put where its key is first met, with the comment of that line. -/
theorem of_put_mem_plan {k : Text} {v : ConfValue Char} {comment : Text} (h : .put k v comment ∈ plan changes done lines) :
    k ∉ done ∧ changes.lookup k = some v ∧ comment = firstComment lines k := by
  induction lines generalizing done with
  | nil => cases h
  | cons line lines ih =>
    rw [plan] at h
    cases hchange : changeOf changes line with
    | none =>
      simp only [hchange, List.mem_cons, reduceCtorEq, false_or] at h
      rcases ih h with ⟨hdone, hlookup, hcomment⟩
      exact ⟨hdone, hlookup, by rw [hcomment, firstComment_cons_of_ne (changeOf_eq_none hchange hlookup)]⟩
    | some c =>
      rcases c with ⟨k', v'⟩
      rcases changeOf_eq_some hchange with ⟨hact, hlookup'⟩
      simp only [hchange] at h
      by_cases hk' : k' ∈ done
      · rw [if_pos hk'] at h
        rcases ih h with ⟨hdone, hlookup, hcomment⟩
        have hne : (active line).map Prod.fst ≠ some k := by
          rw [hact]
          intro heq
          rw [Option.some.inj heq] at hk'
          exact hdone hk'
        exact ⟨hdone, hlookup, by rw [hcomment, firstComment_cons_of_ne hne]⟩
      · rw [if_neg hk'] at h
        rcases List.mem_cons.mp h with heq | h
        · cases heq
          exact ⟨hk', hlookup', (firstComment_cons_self hact).symm⟩
        · rcases ih h with ⟨hdone, hlookup, hcomment⟩
          rw [List.mem_cons, not_or] at hdone
          have hne : (active line).map Prod.fst ≠ some k := by
            rw [hact]
            intro heq
            exact hdone.1 (Option.some.inj heq).symm
          exact ⟨hdone.2, hlookup, by rw [hcomment, firstComment_cons_of_ne hne]⟩

theorem mem_key?_plan {k : Text} (h : k ∈ (plan changes done lines).filterMap Item.key?) :
    k ∉ done ∧ ∃ v, changes.lookup k = some v := by
  rcases List.mem_filterMap.mp h with ⟨item, hitem, hkey⟩
  cases item with
  | kept line => cases hkey
  | put k' v comment =>
    cases hkey
    rcases of_put_mem_plan hitem with ⟨hdone, hlookup, -⟩
    exact ⟨hdone, v, hlookup⟩

/-- No change is put twice. -/
theorem plan_nodup (changes : Changes Char) (done lines : List Text) :
    ((plan changes done lines).filterMap Item.key?).Nodup := by
  induction lines generalizing done with
  | nil => exact List.nodup_nil
  | cons line lines ih =>
    rw [plan]
    cases changeOf changes line with
    | none => exact ih done
    | some c =>
      rcases c with ⟨k, v⟩
      simp only
      split
      · exact ih done
      · rw [List.filterMap_cons]
        refine List.nodup_cons.mpr ⟨fun hmem => ?_, ih (k :: done)⟩
        exact (mem_key?_plan hmem).1 List.mem_cons_self

/-- A change that is not put has no active line, and so no comment. -/
theorem firstComment_of_not_put {k : Text} {v : ConfValue Char} (hlookup : changes.lookup k = some v) (hdone : k ∉ done)
    (h : k ∉ (plan changes done lines).filterMap Item.key?) : firstComment lines k = [] := by
  induction lines generalizing done with
  | nil => rfl
  | cons line lines ih =>
    rw [plan] at h
    cases hchange : changeOf changes line with
    | none =>
      rw [firstComment_cons_of_ne (changeOf_eq_none hchange hlookup)]
      rw [hchange] at h
      exact ih hdone h
    | some c =>
      rcases c with ⟨k', v'⟩
      rcases changeOf_eq_some hchange with ⟨hact, -⟩
      simp only [hchange] at h
      have hne : k' ≠ k := by
        rintro rfl
        rw [if_neg hdone, List.filterMap_cons] at h
        exact h List.mem_cons_self
      rw [firstComment_cons_of_ne (by rw [hact]; exact fun heq => hne (Option.some.inj heq))]
      by_cases hk' : k' ∈ done
      · rw [if_pos hk'] at h
        exact ih hdone h
      · rw [if_neg hk', List.filterMap_cons] at h
        have hmore : k ∉ k' :: done := by
          rw [List.mem_cons, not_or]
          exact ⟨fun heq => hne heq.symm, hdone⟩
        exact ih hmore fun hmem => h (List.mem_cons_of_mem k' hmem)

end Meshcore
