import Mathlib.Data.List.Nodup
import Mathlib.Data.List.Range
import Mathlib.Tactic.Common

/-! # A limiter that forgets its oldest keys

A caller is admitted and remembered with a stamp and a value; while it is remembered,
its next call can be refused on account of that entry. The table has room for `cap` keys;
when it is full, a new key takes the row with the least stamp. So a call that should have
been refused gets through only after `cap` other keys were admitted, none of them earlier
than the entry that was forgotten (`spaced_ask`), and nothing is refused but on account of
the last call that was admitted for its key (`refused_ask`).
-/

namespace LruGate

variable {κ ν : Type} [DecidableEq κ]

/-- What is remembered of a call. -/
structure Entry (κ ν : Type) where
  key : κ
  stamp : Nat
  val : ν

/-- A call: what is to be remembered, and the entries that speak against it. -/
structure Call (κ ν : Type) where
  entry : Entry κ ν
  refusedBy : Entry κ ν → Bool

/-! ## The table -/

section
variable (rows : List (Entry κ ν))

/-- The row of a key. -/
def find (key : κ) : Option Nat := rows.findIdx? fun e => e.key == key

/-- Row `j` is older than the oldest so far. -/
def older (slot j : Nat) : Bool :=
  match rows[j]?, rows[slot]? with
  | some e, some f => e.stamp < f.stamp
  | _, _ => false

/-- The first of the rows with the least stamp. -/
def oldest : Nat :=
  (List.range' 1 (rows.length - 1)).foldl (fun slot j => if older rows slot j then j else slot) 0

/-- One call: the table after it, and whether it was admitted. -/
def ask (cap : Nat) (c : Call κ ν) : List (Entry κ ν) × Bool :=
  match find rows c.entry.key with
  | some i =>
    if rows[i]?.any c.refusedBy then (rows, false) else (rows.set i c.entry, true)
  | none =>
    if rows.length < cap then (rows ++ [c.entry], true)
    else (rows.set (oldest rows) c.entry, true)

end

variable {rows : List (Entry κ ν)} {cap : Nat} {c : Call κ ν}

/-- A key without a row. -/
theorem find_eq_none {key : κ} (h : find rows key = none) : key ∉ rows.map Entry.key := by
  intro hmem
  rcases List.mem_map.mp hmem with ⟨e, he, rfl⟩
  have hno := List.findIdx?_eq_none_iff.mp h e he
  simp at hno

/-- The row found is the key's. -/
theorem find_eq_some {key : κ} {i : Nat} (h : find rows key = some i) :
    ∃ hi : i < rows.length, rows[i].key = key := by
  rcases List.findIdx?_eq_some_iff_getElem.mp h with ⟨hi, hkey, -⟩
  exact ⟨hi, by simpa using hkey⟩

omit [DecidableEq κ] in
/-- No row is older than the one that is taken. -/
theorem oldest_spec (hne : rows ≠ []) :
    ∃ h : oldest rows < rows.length, ∀ e ∈ rows, rows[oldest rows].stamp ≤ e.stamp := by
  have hpos : 0 < rows.length := List.length_pos_iff.mpr hne
  -- after the rows below `n`, the slot is one of them and none of them is older
  have hfold : ∀ n, 1 ≤ n → n ≤ rows.length →
      ∃ h : (List.range' 1 (n - 1)).foldl (fun slot j => if older rows slot j then j else slot) 0 < rows.length,
        ∀ j (hj : j < rows.length), j < n →
          (rows[(List.range' 1 (n - 1)).foldl (fun slot j => if older rows slot j then j else slot) 0]).stamp ≤
            rows[j].stamp := by
    intro n hn
    induction n, hn using Nat.le_induction with
    | base =>
      intro _
      refine ⟨hpos, ?_⟩
      intro j hj hlt
      have hj0 : j = 0 := by omega
      subst hj0
      exact Nat.le_refl _
    | succ n hn ih =>
      intro hlen
      rcases ih (by omega) with ⟨hslot, hmin⟩
      have hrange : List.range' 1 (n + 1 - 1) = List.range' 1 (n - 1) ++ [n] := by
        have hconcat : List.range' 1 (n - 1 + 1) = List.range' 1 (n - 1) ++ [1 + 1 * (n - 1)] := List.range'_concat
        rw [show n - 1 + 1 = n + 1 - 1 by omega, show 1 + 1 * (n - 1) = n by omega] at hconcat
        exact hconcat
      rw [hrange, List.foldl_append, List.foldl_cons, List.foldl_nil]
      generalize (List.range' 1 (n - 1)).foldl (fun slot j => if older rows slot j then j else slot) 0 = slot
        at hslot hmin
      have hn' : n < rows.length := by omega
      have hcmp : older rows slot n = decide (rows[n].stamp < rows[slot].stamp) := by
        rw [older, List.getElem?_eq_getElem hn', List.getElem?_eq_getElem hslot]
      -- row `n` is older than the slot so far, or not
      by_cases hold : rows[n].stamp < rows[slot].stamp
      · rw [hcmp, decide_eq_true hold, if_pos rfl]
        refine ⟨hn', ?_⟩
        intro j hj hlt
        by_cases hjn : j = n
        · subst hjn
          exact Nat.le_refl _
        · have := hmin j hj (by omega)
          omega
      · rw [hcmp, decide_eq_false hold, if_neg (by decide)]
        refine ⟨hslot, ?_⟩
        intro j hj hlt
        by_cases hjn : j = n
        · subst hjn
          omega
        · exact hmin j hj (by omega)
  rcases hfold rows.length hpos (Nat.le_refl _) with ⟨h, hmin⟩
  refine ⟨h, ?_⟩
  intro e he
  rcases List.getElem_of_mem he with ⟨j, hj, rfl⟩
  exact hmin j hj hj

/-- What a call does: it is refused by the entry of its key, renews that entry, or finds
none and takes a new row or the oldest. -/
inductive Asked (rows : List (Entry κ ν)) (cap : Nat) (c : Call κ ν) :
    List (Entry κ ν) × Bool → Prop where
  | refused (e : Entry κ ν) (hmem : e ∈ rows) (hkey : e.key = c.entry.key)
      (hno : c.refusedBy e = true) : Asked rows cap c (rows, false)
  | renewed (i : Nat) (hi : i < rows.length) (hkey : rows[i].key = c.entry.key)
      (hyes : c.refusedBy rows[i] = false) : Asked rows cap c (rows.set i c.entry, true)
  | added (hnew : c.entry.key ∉ rows.map Entry.key) (hroom : rows.length < cap) :
      Asked rows cap c (rows ++ [c.entry], true)
  | evicted (hnew : c.entry.key ∉ rows.map Entry.key) (hfull : cap ≤ rows.length) :
      Asked rows cap c (rows.set (oldest rows) c.entry, true)

/-- Each call is one of them. -/
theorem ask_asked (rows : List (Entry κ ν)) (cap : Nat) (c : Call κ ν) :
    Asked rows cap c (ask rows cap c) := by
  rw [ask]
  rcases hfind : find rows c.entry.key with _ | i
  · have hnew := find_eq_none hfind
    by_cases hroom : rows.length < cap
    · simp only [if_pos hroom]
      exact .added hnew hroom
    · simp only [if_neg hroom]
      exact .evicted hnew (Nat.le_of_not_lt hroom)
  · rcases find_eq_some hfind with ⟨hi, hkey⟩
    have hrow : rows[i]?.any c.refusedBy = c.refusedBy rows[i] := by
      rw [List.getElem?_eq_getElem hi, Option.any_some]
    simp only [hrow]
    by_cases hno : c.refusedBy rows[i] = true
    · rw [if_pos hno]
      exact .refused rows[i] (List.getElem_mem hi) hkey hno
    · rw [if_neg hno]
      exact .renewed i hi hkey (Bool.not_eq_true _ ▸ hno)

/-! ## What was admitted, newest first -/

/-- The last call that was admitted for a key. -/
def last (admitted : List (Call κ ν)) (key : κ) : Option (Call κ ν) :=
  admitted.find? fun c => c.entry.key == key

/-- As many other keys as the table holds were admitted at `stamp` or later. -/
def Crowded (cap : Nat) (admitted : List (Call κ ν)) (key : κ) (stamp : Nat) : Prop :=
  ∃ others : List κ, others.Nodup ∧ others.length = cap ∧ key ∉ others ∧
    ∀ k ∈ others, ∃ c ∈ admitted, c.entry.key = k ∧ stamp ≤ c.entry.stamp

/-- Every call that was admitted is not refused by the one admitted for its key before it,
or came when the table had been crowded since. -/
def Spaced (cap : Nat) : List (Call κ ν) → Prop
  | [] => True
  | c :: admitted =>
    (∀ d, last admitted c.entry.key = some d →
      c.refusedBy d.entry = false ∨ Crowded cap admitted c.entry.key d.entry.stamp) ∧
    Spaced cap admitted

/-- The rows are the last calls of their keys, and a key has lost its row only in a crowd. -/
structure Tracks (cap : Nat) (rows : List (Entry κ ν)) (admitted : List (Call κ ν)) : Prop where
  room : rows.length ≤ cap
  distinct : (rows.map Entry.key).Nodup
  recorded : ∀ e ∈ rows, ∃ c, last admitted e.key = some c ∧ c.entry = e
  kept : ∀ key c, last admitted key = some c →
    c.entry ∈ rows ∨ Crowded cap admitted key c.entry.stamp

/-- An empty table, before the first call. -/
theorem tracks_nil (cap : Nat) : Tracks cap ([] : List (Entry κ ν)) [] where
  room := Nat.zero_le _
  distinct := List.nodup_nil
  recorded := fun e he => absurd he List.not_mem_nil
  kept := fun key c h => by cases h

variable {admitted : List (Call κ ν)}

/-- It was admitted, and for that key. -/
theorem last_mem {key : κ} (h : last admitted key = some c) : c ∈ admitted ∧ c.entry.key = key :=
  ⟨List.mem_of_find?_eq_some h, by simpa using List.find?_some h⟩

/-- A call just admitted is the last of its key. -/
theorem last_cons_self (c : Call κ ν) : last (c :: admitted) c.entry.key = some c := by
  simp [last]

/-- It is no concern of the others. -/
theorem last_cons_of_ne {key : κ} (h : c.entry.key ≠ key) :
    last (c :: admitted) key = last admitted key := by
  simp [last, h]

omit [DecidableEq κ] in
/-- A crowd stays one. -/
theorem Crowded.cons {key : κ} {stamp : Nat} (h : Crowded cap admitted key stamp) (c : Call κ ν) :
    Crowded cap (c :: admitted) key stamp := by
  rcases h with ⟨others, hnodup, hlen, hkey, hall⟩
  refine ⟨others, hnodup, hlen, hkey, ?_⟩
  intro k hk
  rcases hall k hk with ⟨d, hd, heq⟩
  exact ⟨d, List.mem_cons_of_mem c hd, heq⟩

/-- The other keys of a full table and the newcomer make a crowd. -/
theorem Tracks.crowded (h : Tracks cap rows admitted) (hcap : 0 < cap) (hnew : c.entry.key ∉ rows.map Entry.key)
    (hfull : cap ≤ rows.length) (hlast : ∀ d ∈ admitted, d.entry.stamp ≤ c.entry.stamp) {i : Nat}
    (hi : i < rows.length) (hmin : ∀ e ∈ rows, rows[i].stamp ≤ e.stamp) :
    Crowded cap (c :: admitted) rows[i].key rows[i].stamp := by
  have hlen : rows.length = cap := Nat.le_antisymm h.room hfull
  have hvictim : rows[i].key ∈ rows.map Entry.key := List.mem_map.mpr ⟨rows[i], List.getElem_mem hi, rfl⟩
  refine ⟨c.entry.key :: (rows.map Entry.key).erase rows[i].key, ?_, ?_, ?_, ?_⟩
  · rw [List.nodup_cons]
    exact ⟨fun hmem => hnew (List.mem_of_mem_erase hmem), h.distinct.erase _⟩
  -- one key out, one in
  · rw [List.length_cons, List.length_erase_of_mem hvictim, List.length_map]
    omega
  · intro hmem
    rcases List.mem_cons.mp hmem with hkey | hmem
    · exact hnew (hkey ▸ hvictim)
    · exact h.distinct.not_mem_erase hmem
  · intro k hk
    rcases List.mem_cons.mp hk with rfl | hk
    · refine ⟨c, List.mem_cons_self, rfl, ?_⟩
      rcases h.recorded rows[i] (List.getElem_mem hi) with ⟨d, hd, hentry⟩
      rw [← hentry]
      exact hlast d (last_mem hd).1
    · rcases List.mem_map.mp (List.mem_of_mem_erase hk) with ⟨e, he, rfl⟩
      rcases h.recorded e he with ⟨d, hd, hentry⟩
      refine ⟨d, List.mem_cons_of_mem c (last_mem hd).1, (last_mem hd).2, ?_⟩
      rw [hentry]
      exact hmin e he

/-- A table that keeps what it had but for row `i`, and has the newcomer. -/
theorem Tracks.replace (h : Tracks cap rows admitted) {rows' : List (Entry κ ν)} (hroom : rows'.length ≤ cap)
    (hdistinct : (rows'.map Entry.key).Nodup) (hmem : c.entry ∈ rows')
    (hold : ∀ e ∈ rows', e = c.entry ∨ e ∈ rows ∧ e.key ≠ c.entry.key)
    (hkept : ∀ e ∈ rows, e.key ≠ c.entry.key → e ∈ rows' ∨ Crowded cap (c :: admitted) e.key e.stamp) :
    Tracks cap rows' (c :: admitted) where
  room := hroom
  distinct := hdistinct
  recorded := by
    intro e he
    rcases hold e he with rfl | ⟨hin, hne⟩
    · exact ⟨c, last_cons_self c, rfl⟩
    · rw [last_cons_of_ne (Ne.symm hne)]
      exact h.recorded e hin
  kept := by
    intro key d hd
    by_cases hkey : c.entry.key = key
    · subst hkey
      rw [last_cons_self, Option.some.injEq] at hd
      subst hd
      exact .inl hmem
    · rw [last_cons_of_ne hkey] at hd
      have hdkey := (last_mem hd).2
      rcases h.kept key d hd with hin | hcrowd
      · rw [← hdkey]
        exact hkept d.entry hin fun heq => hkey (heq.symm.trans hdkey)
      · exact .inr (hcrowd.cons c)

omit [DecidableEq κ] in
/-- Only the row that was set is lost. -/
theorem mem_set_or {i : Nat} {e : Entry κ ν} (e' : Entry κ ν) (hi : i < rows.length) (he : e ∈ rows) :
    e ∈ rows.set i e' ∨ e = rows[i] := by
  rcases List.getElem_of_mem he with ⟨j, hj, rfl⟩
  by_cases hji : i = j
  · subst hji
    exact .inr rfl
  · left
    have hj' : j < (rows.set i e').length := by rwa [List.length_set]
    rw [← List.getElem_set_ne hji hj']
    exact List.getElem_mem hj'

/-- One call, at a time no earlier than those before. -/
theorem Tracks.ask (h : Tracks cap rows admitted) (hcap : 0 < cap)
    (hlast : ∀ d ∈ admitted, d.entry.stamp ≤ c.entry.stamp) :
    Tracks cap (LruGate.ask rows cap c).1
      (if (LruGate.ask rows cap c).2 then c :: admitted else admitted) := by
  have hnotnew : ∀ {e}, c.entry.key ∉ rows.map Entry.key → e ∈ rows → e.key ≠ c.entry.key := by
    intro e hnew he heq
    exact hnew (heq ▸ List.mem_map.mpr ⟨e, he, rfl⟩)
  have hasked := ask_asked rows cap c
  generalize LruGate.ask rows cap c = r at hasked ⊢
  -- refused, renewed, added or in the place of the oldest
  cases hasked with
  | refused e hmem hkey hno => exact h
  | renewed i hi hkey hyes =>
    -- renewing a row leaves the keys
    have hmap : (rows.set i c.entry).map Entry.key = rows.map Entry.key := by
      have hik : i < (rows.map Entry.key).length := by rwa [List.length_map]
      have hrow : (rows.map Entry.key)[i] = c.entry.key := (List.getElem_map ..).trans hkey
      rw [List.map_set, ← hrow]
      exact List.set_getElem_self hik
    apply h.replace
    · rw [List.length_set]
      exact h.room
    · rw [hmap]
      exact h.distinct
    · exact List.mem_set hi _
    · intro e he
      rcases List.getElem_of_mem he with ⟨j, hj, rfl⟩
      rw [List.length_set] at hj
      by_cases hji : i = j
      · subst hji
        exact .inl (List.getElem_set_self _)
      · right
        rw [List.getElem_set_ne hji]
        refine ⟨List.getElem_mem hj, ?_⟩
        -- two rows with one key are the same row
        intro heq
        have hik : i < (rows.map Entry.key).length := by rwa [List.length_map]
        have hjk : j < (rows.map Entry.key).length := by rwa [List.length_map]
        have hkeys : (rows.map Entry.key)[i] = (rows.map Entry.key)[j] := by
          rw [List.getElem_map, List.getElem_map, heq, hkey]
        exact hji (h.distinct.getElem_inj_iff.mp hkeys)
    · intro e he hne
      rcases mem_set_or c.entry hi he with hin | rfl
      · exact .inl hin
      · exact absurd hkey hne
  | added hnew hroom =>
    apply h.replace
    · rw [List.length_append, List.length_singleton]
      omega
    · rw [List.map_append, List.map_singleton]
      have hconcat := h.distinct.concat hnew
      rwa [List.concat_eq_append] at hconcat
    · exact List.mem_append_right _ List.mem_cons_self
    · intro e he
      rcases List.mem_append.mp he with he | he
      · exact .inr ⟨he, hnotnew hnew he⟩
      · exact .inl (List.mem_singleton.mp he)
    · intro e he _
      exact .inl (List.mem_append_left _ he)
  | evicted hnew hfull =>
    have hne : rows ≠ [] := by
      rintro rfl
      rw [List.length_nil] at hfull
      omega
    rcases oldest_spec hne with ⟨hi, hmin⟩
    apply h.replace
    · rw [List.length_set]
      exact h.room
    · rw [List.map_set]
      exact h.distinct.set hnew
    · exact List.mem_set hi _
    · intro e he
      rcases List.mem_or_eq_of_mem_set he with he | rfl
      · exact .inr ⟨he, hnotnew hnew he⟩
      · exact .inl rfl
    · intro e he _
      rcases mem_set_or c.entry hi he with hin | rfl
      · exact .inl hin
      · exact .inr (h.crowded hcap hnew hfull hlast hi hmin)

/-- What is refused, the last call admitted for the key speaks against; what is admitted
keeps the spacing. -/
theorem Tracks.spaced (h : Tracks cap rows admitted) (hspaced : Spaced cap admitted) :
    Spaced cap (if (LruGate.ask rows cap c).2 then c :: admitted else admitted) ∧
      ((LruGate.ask rows cap c).2 = false →
        ∃ d, last admitted c.entry.key = some d ∧ c.refusedBy d.entry = true) := by
  have hasked := ask_asked rows cap c
  generalize LruGate.ask rows cap c = r at hasked ⊢
  -- a key without a row was not admitted yet, or lost its row in a crowd
  have hgone : c.entry.key ∉ rows.map Entry.key → ∀ d, last admitted c.entry.key = some d →
      Crowded cap admitted c.entry.key d.entry.stamp := by
    intro hnew d hd
    rcases h.kept _ d hd with hin | hcrowd
    · exact absurd (List.mem_map.mpr ⟨d.entry, hin, (last_mem hd).2⟩) hnew
    · exact hcrowd
  cases hasked with
  | refused e hmem hkey hno =>
    refine ⟨hspaced, fun _ => ?_⟩
    rcases h.recorded e hmem with ⟨d, hd, hentry⟩
    rw [hkey] at hd
    exact ⟨d, hd, by rwa [hentry]⟩
  | renewed i hi hkey hyes =>
    refine ⟨⟨?_, hspaced⟩, fun hno => by cases hno⟩
    intro d hd
    rcases h.recorded rows[i] (List.getElem_mem hi) with ⟨d', hd', hentry⟩
    rw [hkey, hd, Option.some.injEq] at hd'
    subst hd'
    left
    rwa [hentry]
  | added hnew _ => exact ⟨⟨fun d hd => .inr (hgone hnew d hd), hspaced⟩, fun hno => by cases hno⟩
  | evicted hnew _ => exact ⟨⟨fun d hd => .inr (hgone hnew d hd), hspaced⟩, fun hno => by cases hno⟩

end LruGate
