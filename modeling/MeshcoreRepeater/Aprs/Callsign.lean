import MeshcoreRepeater.Lib.Bytes
import Mathlib.Data.List.Infix

/-! # Callsigns

`aprsis_valid_callsign` scans a node name backwards. It accepts the names that spell a
callsign (`IsCallsign`), whatever their case, and no others (`aprsisValidCallsign_iff`).

* `ituShape_iff`: the backward scan accepts the bases.
* `checks_iff`: the checks behind the first loop, base and suffix.
* `aprsisValidCallsign_iff`: the names accepted, and what is left in the buffer.
-/

namespace Meshcore

open ByteLib

/-! ## The scanner -/

/-- `A` to `Z`. -/
def isLetter (c : UInt8) : Bool := 65 ≤ c && c ≤ 90

/-- `0` to `9`. -/
def isDigit (c : UInt8) : Bool := 48 ≤ c && c ≤ 57

/-- Upper case, of a letter of ASCII. -/
def upcase (c : UInt8) : UInt8 := if 97 ≤ c ∧ c ≤ 122 then c - 32 else c

/-- The size of `up`, without its terminator. -/
def callBuf : Nat := 15

/-- The first loop: the name in upper case behind `up`. -/
def callUpper : Bytes → Bytes → Option Bytes
  | [], up => some up
  | c :: rest, up =>
    let c := upcase c
    if !(isLetter c || isDigit c || c == 45) then none
    else if callBuf ≤ up.length then none
    else callUpper rest (up ++ [c])

/-- The SSID behind a base of `cl` characters. -/
def ssidOk (cl : Nat) (s : Bytes) : Bool :=
  1 ≤ s.length && s.length ≤ 2 && s.all (fun c => isLetter c || isDigit c) &&
    !(s.length == 1 && s.getD 0 0 == 48) && cl + 1 + s.length ≤ 9

/-- The shape of the base: its letters at the end, a digit, and what stands in front. -/
def ituShape (base : Bytes) : Bool :=
  let front := rtrim isLetter base
  let suf := base.length - front.length
  if suf < 1 ∨ 4 < suf then false
  else
    match front.getLast? with
    | none => false
    | some d =>
      let pre := front.dropLast
      isDigit d && 1 ≤ pre.length && pre.length ≤ 2 && pre.all (fun c => isLetter c || isDigit c) && pre.any isLetter

/-- `snprintf(out, outsz, "%s", s)`, on the bytes of `out`. -/
def snprintfTo (out s : Bytes) : Bytes :=
  if out = [] then []
  else
    let t := snprintfS out.length s
    t ++ 0 :: out.drop (t.length + 1)

/-- `aprsis_valid_callsign`: whether it accepts, and `out` afterwards. -/
def aprsisValidCallsign (name out : Bytes) : Bool × Bytes :=
  match callUpper name [] with
  | none => (false, out)
  | some up =>
    let base := up.takeWhile (· ≠ 45)
    let tail := up.dropWhile (· ≠ 45)
    if base.length < 3 ∨ 7 < base.length then (false, out)
    else if tail ≠ [] ∧ ssidOk base.length (tail.drop 1) = false then (false, out)
    else if ituShape base = false then (false, out)
    else (true, snprintfTo out up)

/-! ## The grammar -/

/-- One or two letters and digits with a letter among them, one digit, one to four letters. -/
def IsBase (b : Bytes) : Prop :=
  ∃ (pre suf : Bytes) (d : UInt8), b = pre ++ d :: suf ∧ (pre.length = 1 ∨ pre.length = 2) ∧
    (∀ c ∈ pre, isLetter c = true ∨ isDigit c = true) ∧ (∃ c ∈ pre, isLetter c = true) ∧ isDigit d = true ∧
    1 ≤ suf.length ∧ suf.length ≤ 4 ∧ ∀ c ∈ suf, isLetter c = true

/-- One or two letters and digits, not a single 0. -/
def IsSsid (s : Bytes) : Prop :=
  (s.length = 1 ∨ s.length = 2) ∧ (∀ c ∈ s, isLetter c = true ∨ isDigit c = true) ∧ s ≠ [48]

/-- A base, or a base and an SSID, of nine characters at most. -/
def IsCallsign (u : Bytes) : Prop :=
  (IsBase u ∨ ∃ base ssid, u = base ++ 45 :: ssid ∧ IsBase base ∧ IsSsid ssid) ∧ u.length ≤ 9

/-- A character of a callsign. -/
def IsCallChar (c : UInt8) : Prop := isLetter c = true ∨ isDigit c = true ∨ c = 45

/-! ## The first loop -/

/-- What the first loop lets pass. -/
theorem callChar_iff (c : UInt8) : (!(isLetter c || isDigit c || c == 45)) = true ↔ ¬IsCallChar c := by
  have hpos : (isLetter c || isDigit c || c == 45) = true ↔ IsCallChar c := by simp [IsCallChar, or_assoc]
  rw [← hpos, Bool.not_eq_true', Bool.not_eq_true]

/-- What it gives is the name in upper case, and nothing else was in it. -/
theorem callUpper_eq_some {name up u : Bytes} (h : callUpper name up = some u) :
    u = up ++ name.map upcase ∧ ∀ c ∈ name.map upcase, IsCallChar c := by
  induction name generalizing up with
  | nil =>
    cases h
    exact ⟨(List.append_nil _).symm, fun c hc => absurd hc List.not_mem_nil⟩
  | cons c name ih =>
    simp only [callUpper] at h
    split at h
    · cases h
    rename_i hchar
    split at h
    · cases h
    rcases ih h with ⟨hu, hrest⟩
    refine ⟨by rw [hu, List.map_cons, List.append_assoc]; rfl, ?_⟩
    intro d hd
    rcases List.mem_cons.mp hd with rfl | hd
    · rwa [callChar_iff, not_not] at hchar
    · exact hrest d hd

/-- A name of callsign characters that is short enough gets through. -/
theorem callUpper_of_chars {name up : Bytes} (h : ∀ c ∈ name.map upcase, IsCallChar c)
    (hlen : up.length + name.length ≤ callBuf) : callUpper name up = some (up ++ name.map upcase) := by
  induction name generalizing up with
  | nil => rw [callUpper, List.map_nil, List.append_nil]
  | cons c name ih =>
    rw [List.length_cons] at hlen
    -- neither check stops it
    have hchar : ¬(!(isLetter (upcase c) || isDigit (upcase c) || upcase c == 45)) = true := by
      rw [callChar_iff, not_not]
      exact h (upcase c) (by simp)
    have hrest : ∀ d ∈ name.map upcase, IsCallChar d := by
      intro d hd
      exact h d (by rw [List.map_cons]; exact List.mem_cons_of_mem _ hd)
    simp only [callUpper]
    rw [if_neg hchar, if_neg (by omega), ih hrest (by rw [List.length_append, List.length_singleton]; omega)]
    rw [List.map_cons, List.append_assoc]
    rfl

/-! ## The base -/

/-- The digit in front of the suffix ends the backward scan. -/
theorem not_isLetter_of_isDigit {d : UInt8} (h : isDigit d = true) : isLetter d = false := by
  unfold isDigit at h
  unfold isLetter
  simp only [Bool.and_eq_true, decide_eq_true_eq, Bool.and_eq_false_iff, decide_eq_false_iff_not, UInt8.le_iff_toNat_le] at h ⊢
  left
  have hdigit : d.toNat ≤ 57 := h.2
  show ¬65 ≤ d.toNat
  omega

/-- What stands in front of the letters at the end. -/
theorem rtrim_letters {front suf : Bytes} {d : UInt8} (hd : isDigit d = true) (hsuf : ∀ c ∈ suf, isLetter c = true) :
    rtrim isLetter (front ++ d :: suf) = front ++ [d] := by
  have hsplit : front ++ d :: suf = (front ++ [d]) ++ suf := by simp
  rw [hsplit, rtrim_append_of_pos _ hsuf]
  apply rtrim_eq_self
  intro c hc
  rw [List.getLast?_concat, Option.some.injEq] at hc
  rw [← hc]
  exact not_isLetter_of_isDigit hd

/-- The backward scan accepts the bases. -/
theorem ituShape_iff (b : Bytes) : ituShape b = true ↔ IsBase b := by
  constructor
  · intro h
    unfold ituShape at h
    simp only at h
    split at h
    · cases h
    rename_i hsuf
    split at h
    · cases h
    rename_i d hlast
    -- the letters at the end, and what they are cut from
    have hb : b.rdropWhile isLetter ++ b.rtakeWhile isLetter = b := List.rdropWhile_append_rtakeWhile
    have hletters : ∀ c ∈ b.rtakeWhile isLetter, isLetter c = true := fun c hc => List.mem_rtakeWhile_imp hc
    generalize b.rtakeWhile isLetter = suf at hb hletters
    have hfront : rtrim isLetter b = (rtrim isLetter b).dropLast ++ [d] :=
      (List.dropLast_append_getLast? d hlast).symm
    generalize hpre : (rtrim isLetter b).dropLast = pre at h hfront
    -- the last character of that is the digit
    have hwhole : b = pre ++ d :: suf := by
      rw [← hb]
      show rtrim isLetter b ++ suf = _
      rw [hfront]
      simp
    have hlen : b.length - (rtrim isLetter b).length = suf.length := by
      rw [hwhole] at hfront ⊢
      rw [hfront]
      simp only [List.length_append, List.length_cons, List.length_nil]
      omega
    rw [hlen] at hsuf
    simp only [Bool.and_eq_true, decide_eq_true_eq, List.all_eq_true, Bool.or_eq_true, List.any_eq_true] at h
    rcases h with ⟨⟨⟨⟨hd, hmin⟩, hmax⟩, hchars⟩, hletter⟩
    exact ⟨pre, suf, d, hwhole, by omega, hchars, hletter, hd, by omega, by omega, hletters⟩
  · rintro ⟨pre, suf, d, rfl, hpre, hchars, hletter, hd, hmin, hmax, hsuf⟩
    have hlen : (pre ++ d :: suf).length - (pre ++ [d]).length = suf.length := by
      simp only [List.length_append, List.length_cons, List.length_nil]
      omega
    unfold ituShape
    simp only [rtrim_letters hd hsuf]
    rw [hlen, if_neg (by omega), List.getLast?_concat]
    simp only [List.dropLast_concat, Bool.and_eq_true, decide_eq_true_eq, List.all_eq_true, Bool.or_eq_true,
      List.any_eq_true]
    exact ⟨⟨⟨⟨hd, by omega⟩, by omega⟩, hchars⟩, hletter⟩

/-- Three to seven characters, as the code checks first. -/
theorem IsBase.length {b : Bytes} (h : IsBase b) : 3 ≤ b.length ∧ b.length ≤ 7 := by
  rcases h with ⟨pre, suf, d, rfl, hpre, -, -, -, hmin, hmax, -⟩
  simp only [List.length_append, List.length_cons]
  omega

/-- A letter or digit is no dash. -/
theorem dash_of_alnum {c : UInt8} (h : isLetter c = true ∨ isDigit c = true) : c ≠ 45 := by
  rintro rfl
  revert h
  decide

/-- A base has no other characters. -/
theorem IsBase.alnum {b : Bytes} (h : IsBase b) : ∀ c ∈ b, isLetter c = true ∨ isDigit c = true := by
  rcases h with ⟨pre, suf, d, rfl, -, hchars, -, hd, -, -, hsuf⟩
  intro c hc
  rcases List.mem_append.mp hc with hc | hc
  · exact hchars c hc
  rcases List.mem_cons.mp hc with rfl | hc
  · exact .inr hd
  · exact .inl (hsuf c hc)

/-- Nor has a callsign, but for the dash. -/
theorem IsCallsign.chars {u : Bytes} (h : IsCallsign u) : ∀ c ∈ u, IsCallChar c := by
  have halnum : ∀ {c}, isLetter c = true ∨ isDigit c = true → IsCallChar c := by
    rintro c (hc | hc)
    · exact .inl hc
    · exact .inr (.inl hc)
  intro c hc
  rcases h.1 with hbase | ⟨base, ssid, rfl, hbase, hssid⟩
  · exact halnum (hbase.alnum c hc)
  rcases List.mem_append.mp hc with hc | hc
  · exact halnum (hbase.alnum c hc)
  rcases List.mem_cons.mp hc with rfl | hc
  · exact .inr (.inr rfl)
  · exact halnum (hssid.2.1 c hc)

/-! ## The whole call -/

/-- A text up to the first `c`. -/
theorem span_at {c : UInt8} {a : Bytes} (rest : Bytes) (h : c ∉ a) :
    (a ++ c :: rest).takeWhile (· ≠ c) = a ∧ (a ++ c :: rest).dropWhile (· ≠ c) = c :: rest := by
  have hall : ∀ d ∈ a, decide (d ≠ c) = true := fun d hd => decide_eq_true fun hdc => h (hdc ▸ hd)
  constructor
  · rw [List.takeWhile_append_of_pos hall, List.takeWhile_cons_of_neg (by simp), List.append_nil]
  · rw [List.dropWhile_append_of_pos hall, List.dropWhile_cons_of_neg (by simp)]

/-- The SSID by itself, and the nine characters of the whole. -/
theorem ssidOk_iff (cl : Nat) (s : Bytes) : ssidOk cl s = true ↔ IsSsid s ∧ cl + 1 + s.length ≤ 9 := by
  -- a single `0` is the base without an SSID
  have hzero : (!(s.length == 1 && s.getD 0 0 == 48)) = true ↔ s ≠ [48] := by
    rcases s with _ | ⟨a, _ | ⟨b, s⟩⟩
    · simp
    · simp
    · simp
  unfold ssidOk IsSsid
  simp only [Bool.and_eq_true, hzero, decide_eq_true_eq, List.all_eq_true, Bool.or_eq_true]
  constructor
  · rintro ⟨⟨⟨⟨hmin, hmax⟩, hchars⟩, hne⟩, hlen⟩
    exact ⟨⟨by omega, hchars, hne⟩, hlen⟩
  · rintro ⟨⟨hsize, hchars, hne⟩, hlen⟩
    exact ⟨⟨⟨⟨by omega, by omega⟩, hchars⟩, hne⟩, hlen⟩

/-- The checks behind the first loop, on the name in upper case. -/
theorem checks_iff (u : Bytes) :
    (¬((u.takeWhile (· ≠ 45)).length < 3 ∨ 7 < (u.takeWhile (· ≠ 45)).length) ∧
      ¬(u.dropWhile (· ≠ 45) ≠ [] ∧
        ssidOk (u.takeWhile (· ≠ 45)).length ((u.dropWhile (· ≠ 45)).drop 1) = false) ∧
      ituShape (u.takeWhile (· ≠ 45)) = true) ↔ IsCallsign u := by
  have hsplit := List.takeWhile_append_dropWhile (p := fun c : UInt8 => decide (c ≠ 45)) (l := u)
  constructor
  · rintro ⟨hsize, hssid, hshape⟩
    rw [ituShape_iff] at hshape
    have hlen := hshape.length
    rcases htail : u.dropWhile (· ≠ 45) with _ | ⟨c, ssid⟩
    · rw [htail, List.append_nil] at hsplit
      rw [hsplit] at hshape hlen
      exact ⟨.inl hshape, by omega⟩
    -- what is left begins with the dash
    · have hdash : c = 45 := by
        have hhead := List.head?_dropWhile_not (fun c : UInt8 => decide (c ≠ 45)) u
        rw [htail] at hhead
        simpa using hhead
      rw [htail] at hssid hsplit
      have hok : ssidOk (u.takeWhile (· ≠ 45)).length ssid = true := by
        by_contra hbad
        exact hssid ⟨List.cons_ne_nil _ _, Bool.not_eq_true _ ▸ hbad⟩
      rw [ssidOk_iff] at hok
      refine ⟨.inr ⟨_, ssid, ?_, hshape, hok.1⟩, ?_⟩
      · rw [hdash] at hsplit
        exact hsplit.symm
      · rw [← hsplit, List.length_append, List.length_cons]
        omega
  · rintro ⟨hbase | ⟨base, ssid, rfl, hbase, hssid⟩, hnine⟩
    -- without a dash the base is all of it
    · have hall : u.takeWhile (· ≠ 45) = u :=
        List.takeWhile_eq_self_iff.mpr fun c hc => decide_eq_true (dash_of_alnum (hbase.alnum c hc))
      have hnone : u.dropWhile (· ≠ 45) = [] := by
        rw [hall] at hsplit
        exact List.append_right_eq_self.mp hsplit
      have hlen := hbase.length
      rw [hall, hnone]
      exact ⟨by omega, fun h => h.1 rfl, (ituShape_iff u).mpr hbase⟩
    -- the first dash is the one behind the base
    · have hnone : (45 : UInt8) ∉ base := fun h => dash_of_alnum (hbase.alnum 45 h) rfl
      rcases span_at ssid hnone with ⟨htake, hdrop⟩
      have hlen := hbase.length
      rw [List.length_append, List.length_cons] at hnine
      rw [htake, hdrop]
      refine ⟨by omega, ?_, (ituShape_iff base).mpr hbase⟩
      rintro ⟨-, hbad⟩
      have hok : ssidOk base.length ssid = true := (ssidOk_iff _ _).mpr ⟨hssid, by omega⟩
      rw [List.drop_one, List.tail_cons, hok] at hbad
      cases hbad

/-- In a buffer with room for it the whole text is left. -/
theorem snprintfTo_cstr {out s : Bytes} (hlen : s.length < out.length) (h0 : (0 : UInt8) ∉ s) :
    cstr (snprintfTo out s) = s := by
  have hne : out ≠ [] := by
    rintro rfl
    simp at hlen
  have htake : snprintfS out.length s = s := List.take_of_length_le (by omega)
  unfold snprintfTo
  simp only [if_neg hne, htake]
  exact (span_at _ h0).1

/-- The names accepted are those that spell a callsign; it is left in `out`, in upper case, and
`out` is left alone otherwise. -/
theorem aprsisValidCallsign_iff (name out : Bytes) :
    ((aprsisValidCallsign name out).1 = true ↔ IsCallsign (name.map upcase)) ∧
      (IsCallsign (name.map upcase) → 10 ≤ out.length →
        cstr (aprsisValidCallsign name out).2 = name.map upcase) ∧
      (¬IsCallsign (name.map upcase) → (aprsisValidCallsign name out).2 = out) := by
  have hchecks := checks_iff (name.map upcase)
  by_cases hcall : IsCallsign (name.map upcase)
  · have hnine : name.length ≤ 9 := by
      have := hcall.2
      rwa [List.length_map] at this
    -- nine characters are well within the buffer
    have hup : callUpper name [] = some (name.map upcase) := by
      have hshort : ([] : Bytes).length + name.length ≤ callBuf := by
        simp only [List.length_nil, callBuf]
        omega
      exact callUpper_of_chars hcall.chars hshort
    rcases hchecks.mpr hcall with ⟨hsize, hssid, hshape⟩
    have heq : aprsisValidCallsign name out = (true, snprintfTo out (name.map upcase)) := by
      unfold aprsisValidCallsign
      rw [hup]
      simp only
      rw [if_neg hsize, if_neg hssid, if_neg (by rw [hshape]; decide)]
    -- no NUL cuts what is left
    have hnul : (0 : UInt8) ∉ name.map upcase := by
      intro h
      have hzero := hcall.chars 0 h
      revert hzero
      unfold IsCallChar
      decide
    rw [heq]
    refine ⟨iff_of_true rfl hcall, ?_, fun h => absurd hcall h⟩
    intro _ hout
    exact snprintfTo_cstr (by rw [List.length_map]; omega) hnul
  · have heq : aprsisValidCallsign name out = (false, out) := by
      unfold aprsisValidCallsign
      rcases hup : callUpper name [] with _ | up
      · rfl
      -- each check that fails leaves `out` alone
      have hname := (callUpper_eq_some hup).1
      rw [List.nil_append] at hname
      rw [← hname] at hcall hchecks
      simp only
      split
      · rfl
      rename_i hsize
      split
      · rfl
      rename_i hssid
      split
      · rfl
      rename_i hshape
      exact absurd (hchecks.mp ⟨hsize, hssid, Bool.not_eq_false _ ▸ hshape⟩) hcall
    rw [heq]
    exact ⟨iff_of_false Bool.false_ne_true hcall, fun h => absurd h hcall, fun _ => rfl⟩

example : aprsisValidCallsign (lit "on6ure-6") (List.replicate 12 0xFF) =
    (true, lit "ON6URE-6" ++ [0, 0xFF, 0xFF, 0xFF]) := by decide +kernel

end Meshcore
