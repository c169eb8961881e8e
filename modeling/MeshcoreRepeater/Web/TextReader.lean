import MeshcoreRepeater.Web.Written

/-! # A setting as both readers see it

A line that sets a key for `config_load`, taken as text: where the key and the value are text
on one line, the first line that `write_conf` makes of it sets them too, and `_active` finds the
stripped key.

* `first_text`, `first_key`: the first line that a line is read as.
* `sets_of_head`: the way back, from that line to the bytes.
-/

namespace Meshcore

open ByteLib TextLines

/-- Blanks and line ends are ASCII. -/
theorem ascii_of_isBlankOrEol {b : UInt8} (h : isBlankOrEol b = true) : b < 0x80 := by
  rcases isBlankOrEol_cases h with rfl | rfl | rfl | rfl
  all_goals decide

theorem ascii_of_isBlank {b : UInt8} (h : isBlank b = true) : b < 0x80 :=
  ascii_of_isBlankOrEol (isBlankOrEol_of_isBlank h)

/-- The text of blanks: white, on one line, and neither a comment nor an equals sign. -/
theorem mem_asciiText_blank {s : Bytes} (h : ∀ b ∈ s, isBlank b = true) {c : Char} (hc : c ∈ Utf8.asciiText s) :
    isWhite c = true ∧ isBreak c = false ∧ c ≠ '#' ∧ c ≠ '=' := by
  rcases List.mem_map.mp hc with ⟨b, hb, rfl⟩
  rcases isBlank_cases (h b hb) with rfl | rfl
  all_goals decide

/-- A line with a setting, as text. -/
structure TextSetting (text before k pad more : Text) : Prop where
  eq : text = before ++ (k ++ (pad ++ '=' :: more))
  white : ∀ c ∈ before ++ pad, isWhite c = true ∧ c ≠ '#' ∧ c ≠ '='
  key : ∀ c ∈ k, c ≠ '#' ∧ c ≠ '='

/-- `_active` finds the key, stripped. -/
theorem TextSetting.active {text before k pad more : Text} (h : TextSetting text before k pad more) :
    (active text).map Prod.fst = if strip k = [] then none else some (strip k) := by
  -- nothing in front of the equals sign is a comment or another one
  have hfront : ∀ c ∈ before ++ k ++ pad, c ≠ '#' ∧ c ≠ '=' := by
    intro c hc
    rcases List.mem_append.mp hc with hc | hc
    · rcases List.mem_append.mp hc with hc | hc
      · exact (h.white c (List.mem_append_left _ hc)).2
      · exact h.key c hc
    · exact (h.white c (List.mem_append_right _ hc)).2
  have htext : text = (before ++ k ++ pad) ++ '=' :: more := by
    rw [h.eq]
    simp only [List.append_assoc]
  -- the comment is cut off behind it
  have hbody : text.takeWhile (· ≠ '#') = (before ++ k ++ pad) ++ '=' :: more.takeWhile (· ≠ '#') := by
    rw [htext, List.takeWhile_append_of_pos fun c hc => decide_eq_true (hfront c hc).1]
    rfl
  -- the equals sign keeps both ends apart
  obtain ⟨after, hstrip⟩ : ∃ after, strip (text.takeWhile (· ≠ '#')) =
      (before ++ k ++ pad).dropWhile isWhite ++ '=' :: after := by
    have hdrop : ∀ a m : Text, (a ++ '=' :: m).dropWhile isWhite = a.dropWhile isWhite ++ '=' :: m := by
      intro a m
      rw [List.dropWhile_append]
      split
      · rename_i hnil
        rw [List.isEmpty_iff.mp hnil]
        rfl
      · rfl
    refine ⟨(more.takeWhile (· ≠ '#')).rdropWhile isWhite, ?_⟩
    have hrev : ∀ a m : Text, (a ++ '=' :: m).rdropWhile isWhite = a ++ '=' :: m.rdropWhile isWhite := by
      intro a m
      have hcons := hdrop m.reverse a.reverse
      rw [List.rdropWhile, List.rdropWhile, List.reverse_append, List.reverse_cons, List.append_assoc,
        List.singleton_append, hcons, List.reverse_append, List.reverse_cons, List.reverse_reverse, List.append_assoc,
        List.singleton_append]
    rw [hbody, strip, hdrop, hrev]
  have hkept : ∀ c ∈ (before ++ k ++ pad).dropWhile isWhite, decide (c ≠ '=') = true := fun c hc =>
    decide_eq_true (hfront c ((List.dropWhile_suffix _).subset hc)).2
  -- stripping twice is stripping once
  have hkey : strip ((before ++ k ++ pad).dropWhile isWhite) = strip k := by
    have hidem : strip ((before ++ k ++ pad).dropWhile isWhite) = strip (before ++ k ++ pad) := by
      rw [strip, strip, List.dropWhile_idempotent]
    rw [hidem]
    exact strip_append (fun c hc => (h.white c (List.mem_append_left _ hc)).1)
      fun c hc => (h.white c (List.mem_append_right _ hc)).1
  have hcontains : ((before ++ k ++ pad).dropWhile isWhite ++ '=' :: after).contains '=' = true := by simp
  rw [Meshcore.active, hstrip]
  simp only [hcontains, if_true]
  rw [List.takeWhile_append_of_pos hkept]
  simp only [List.takeWhile_cons, ne_eq, not_true_eq_false, decide_false, Bool.false_eq_true, if_false,
    List.append_nil, hkey]
  split
  · rfl
  · rfl

/-- The characters of a key are those of its bytes. -/
theorem key_chars {k : Text} (h : IsKey (Utf8.encode k)) : ∀ c ∈ k, c ≠ '#' ∧ c ≠ '=' := by
  intro c hc
  constructor
  · rintro rfl
    exact (h.plain 35 ((Utf8.mem_encode_ascii (by decide)).mpr hc)).2.1 rfl
  · rintro rfl
    exact (h.plain 61 ((Utf8.mem_encode_ascii (by decide)).mpr hc)).2.2 rfl

/-- Blanks, a key, blanks and an equals sign. -/
theorem textSetting_of_blanks {before pad : Bytes} {k more text : Text} (hbefore : ∀ b ∈ before, isBlank b = true)
    (hkey : IsKey (Utf8.encode k)) (hpad : ∀ b ∈ pad, isBlank b = true)
    (heq : text = Utf8.asciiText before ++ (k ++ (Utf8.asciiText pad ++ '=' :: more))) :
    TextSetting text (Utf8.asciiText before) k (Utf8.asciiText pad) more := by
  refine ⟨heq, ?_, key_chars hkey⟩
  intro c hc
  rcases List.mem_append.mp hc with hc | hc
  · rcases mem_asciiText_blank hbefore hc with ⟨hwhite, -, hplain⟩
    exact ⟨hwhite, hplain⟩
  · rcases mem_asciiText_blank hpad hc with ⟨hwhite, -, hplain⟩
    exact ⟨hwhite, hplain⟩

/-- Behind the value stands an ASCII byte, or nothing. -/
theorem head_of_trail {trail rest : Bytes} (htrail : ∀ b ∈ trail, isBlankOrEol b = true) (hrest : Unseen rest) :
    ∀ a, (trail ++ rest).head? = some a → a < 0x80 := by
  intro a ha
  cases trail with
  | nil =>
    rcases hrest a ha with rfl | rfl
    · decide
    · decide
  | cons b trail =>
    have hab : b = a := Option.some.inj ha
    exact hab ▸ ascii_of_isBlankOrEol (htrail b List.mem_cons_self)

/-- A newline does not end a value. -/
theorem newline_behind_value {x y gap val : Bytes} (hgap : ∀ b ∈ gap, isBlank b = true) (hval : IsValue val) :
    x ++ [10] ≠ y ++ 61 :: (gap ++ val) := by
  intro h
  have hend := congrArg List.getLast? h
  rw [List.getLast?_concat, List.getLast?_append_of_ne_nil _ (by simp)] at hend
  rcases List.eq_nil_or_concat val with rfl | ⟨v, b, rfl⟩
  · rw [List.append_nil] at hend
    rcases List.mem_cons.mp (List.mem_of_getLast? hend.symm) with h10 | h10
    · cases h10
    · exact absurd (hgap 10 h10) (by decide)
  · rw [List.concat_eq_append, ← List.append_assoc, ← List.cons_append, List.getLast?_concat,
      Option.some.injEq] at hend
    have hback := hval.back
    rw [List.concat_eq_append, ← hend, rtrim_append_of_pos _ (by simp [isBlankOrEol])] at hback
    have hshort := (List.rdropWhile_prefix isBlankOrEol (l := v)).length_le
    have hlen := congrArg List.length hback
    rw [rtrim, List.length_append, List.length_singleton] at hlen
    omega

/-- A setting that is read in a line of text is text on one line. -/
theorem textSetting_of_sets {text : Text} {key val : Bytes} (hline : Unbroken text)
    (h : Sets (Utf8.encode text ++ [10]) key val) :
    ∃ before k pad more v, TextSetting text before k pad more ∧ Utf8.encode k = key ∧ Unbroken k ∧
      Utf8.encode v = val ∧ Unbroken v := by
  generalize hbytes : Utf8.encode text ++ [10] = bytes at h
  rcases h with ⟨hbefore, hkey, hpad, hgap, hval, htrail, hrest⟩
  rename_i before pad gap trail rest
  have hnl : Utf8.encode ['\n'] = [10] := by decide
  rw [← hnl, ← Utf8.encode_append] at hbytes
  -- the text, cut where the bytes are
  rcases Utf8.encode_cut_ascii (fun b hb => ascii_of_isBlank (hbefore b hb)) hbytes with ⟨cs, htext, hcs⟩
  rw [← List.append_assoc] at hcs
  rcases Utf8.encode_split (by decide) hcs with ⟨front, more, rfl, hfront, hmore⟩
  have hpadHead : ∀ a, pad.head? = some a → a < 0x80 := fun a ha =>
    ascii_of_isBlank (hpad a (List.mem_of_mem_head? ha))
  rcases Utf8.encode_cut hpadHead hfront with ⟨k, padText, rfl, hk, hpadText⟩
  have hpadEq : padText = Utf8.asciiText pad := by
    apply Utf8.encode_inj
    rw [hpadText, Utf8.encode_asciiText fun b hb => ascii_of_isBlank (hpad b hb)]
  rcases Utf8.encode_cut_ascii (fun b hb => ascii_of_isBlank (hgap b hb)) hmore with ⟨es, rfl, hes⟩
  rcases Utf8.encode_cut (head_of_trail htrail hrest) hes with ⟨v, tail, rfl, hv, htail⟩
  have heq : Char.ofNat (UInt8.toNat 61) = '=' := rfl
  rw [heq] at htext
  -- the newline stands at the end, behind the value
  have hlast : tail ≠ [] := by
    rintro rfl
    refine newline_behind_value hgap hval (x := Utf8.encode text) (y := before ++ (key ++ pad)) ?_
    rw [← hnl, ← Utf8.encode_append, hbytes, ← htail]
    simp only [List.append_assoc, List.append_nil, Utf8.encode_nil]
  rcases List.eq_nil_or_concat tail with rfl | ⟨tail', c, rfl⟩
  · exact absurd rfl hlast
  rw [List.concat_eq_append] at htext
  have hjoin : text ++ ['\n'] = (Utf8.asciiText before ++ (k ++ (padText ++ '=' :: (Utf8.asciiText gap ++ (v ++ tail'))))) ++ [c] := by
    rw [htext]
    simp only [List.append_assoc, List.cons_append]
  have hsplit := (List.append_inj' hjoin rfl).1
  rw [hpadEq] at hsplit
  refine ⟨_, k, _, _, v, textSetting_of_blanks hbefore (hk ▸ hkey) hpad hsplit, hk, ?_, hv, ?_⟩
  · intro c hc
    apply hline
    rw [hsplit]
    exact List.mem_append_right _ (List.mem_append_left _ hc)
  · intro c hc
    apply hline
    rw [hsplit]
    refine List.mem_append_right _ (List.mem_append_right _ (List.mem_append_right _ (List.mem_cons_of_mem _ ?_)))
    exact List.mem_append_right _ (List.mem_append_left _ hc)

/-! ## The first line of text -/

/-- What follows a value, up to the first line break: blanks and line ends, then what the
reader does not see. -/
theorem inline_tail {trail rest : Bytes} (htrail : ∀ b ∈ trail, isBlankOrEol b = true) (hrest : Unseen rest) :
    ∃ trail' rest', Utf8.encode ((Utf8.decode (trail ++ rest)).takeWhile isInline) = trail' ++ rest' ∧
      (∀ b ∈ trail', isBlankOrEol b = true) ∧ Unseen rest' := by
  have hascii : ∀ b ∈ trail, b < 0x80 := fun b hb => ascii_of_isBlankOrEol (htrail b hb)
  have hdecode : Utf8.decode (trail ++ rest) = Utf8.asciiText trail ++ Utf8.decode rest := by
    have h := Utf8.decode_encode_append (Utf8.asciiText trail) rest
    rwa [Utf8.encode_asciiText hascii] at h
  have hsub : ∀ cs : Text, (∀ c ∈ cs, c ∈ Utf8.asciiText trail) → ∀ b ∈ Utf8.encode cs, isBlankOrEol b = true := by
    intro cs hcs b hb
    rcases List.mem_flatMap.mp hb with ⟨c, hc, hbc⟩
    rcases List.mem_map.mp (hcs c hc) with ⟨a, ha, rfl⟩
    rw [Utf8.encodeChar_ascii (hascii a ha)] at hbc
    rw [List.mem_singleton.mp hbc]
    exact htrail a ha
  rw [hdecode, List.takeWhile_append]
  split
  · refine ⟨trail, Utf8.encode ((Utf8.decode rest).takeWhile isInline), ?_, htrail, ?_⟩
    · rw [Utf8.encode_append, Utf8.encode_asciiText hascii]
    · cases rest with
      | nil =>
        intro c hc
        cases hc
      | cons b rest =>
        -- a NUL and a comment are text on the line
        have hb : b < 0x80 ∧ isInline (Char.ofNat b.toNat) = true := by
          rcases hrest b rfl with rfl | rfl
          · decide
          · decide
        have hcut := Utf8.decode_ascii hb.1 [] rest
        rw [List.nil_append, Utf8.decode_nil, List.nil_append] at hcut
        rw [hcut, List.takeWhile_cons, if_pos hb.2, Utf8.encode_cons, Utf8.encodeChar_ascii hb.1]
        intro c hc
        exact hrest c hc
  · refine ⟨Utf8.encode ((Utf8.asciiText trail).takeWhile isInline), [], (List.append_nil _).symm, ?_, ?_⟩
    · exact hsub _ fun c hc => (List.takeWhile_prefix _).subset hc
    · intro c hc
      cases hc

/-- A line that sets a key to a value, both text on one line: the first line that it is read as
is text that does so too. -/
theorem first_text {line : Bytes} {k v : Text} (hk : Unbroken k) (hv : Unbroken v)
    (h : Sets line (Utf8.encode k) (Utf8.encode v)) :
    ∃ text texts before pad more, textLines (Utf8.decode line) = text :: texts ∧
      TextSetting text before k pad more ∧ Sets (Utf8.encode text ++ [10]) (Utf8.encode k) (Utf8.encode v) := by
  generalize hkey : Utf8.encode k = key at h
  generalize hval : Utf8.encode v = val at h
  rcases h with ⟨hbefore, hiskey, hpad, hgap, hisval, htrail, hrest⟩
  rename_i before pad gap trail rest
  subst hkey hval
  have hb := Utf8.encode_asciiText fun b hb => ascii_of_isBlank (hbefore b hb)
  have hp := Utf8.encode_asciiText fun b hb => ascii_of_isBlank (hpad b hb)
  have hg := Utf8.encode_asciiText fun b hb => ascii_of_isBlank (hgap b hb)
  -- the line up to the end of its value, as text
  obtain ⟨head, hhead⟩ : ∃ head, head =
      Utf8.asciiText before ++ (k ++ (Utf8.asciiText pad ++ '=' :: (Utf8.asciiText gap ++ v))) := ⟨_, rfl⟩
  have hencode : Utf8.encode head = before ++ (Utf8.encode k ++ (pad ++ 61 :: (gap ++ Utf8.encode v))) := by
    have heq : String.utf8EncodeChar '=' = [61] := by decide
    rw [hhead, Utf8.encode_append, Utf8.encode_append, Utf8.encode_append, Utf8.encode_cons, Utf8.encode_append,
      hb, hp, hg, heq, List.singleton_append]
  have hunbroken : Unbroken head := by
    intro c hc
    rw [hhead] at hc
    simp only [List.mem_append, List.mem_cons] at hc
    rcases hc with hc | hc | hc | rfl | hc | hc
    · exact (mem_asciiText_blank hbefore hc).2.1
    · exact hk c hc
    · exact (mem_asciiText_blank hpad hc).2.1
    · rfl
    · exact (mem_asciiText_blank hgap hc).2.1
    · exact hv c hc
  have hne : head ≠ [] := by
    rw [hhead]
    simp
  -- it is decoded as such, and then the rest is
  have hdecode : Utf8.decode (before ++ (Utf8.encode k ++ (pad ++ 61 :: (gap ++ (Utf8.encode v ++ (trail ++ rest)))))) =
      head ++ Utf8.decode (trail ++ rest) := by
    rw [← Utf8.decode_encode_append, hencode]
    simp only [List.append_assoc, List.cons_append]
  rcases textLines_unbroken hunbroken hne (Utf8.decode (trail ++ rest)) with ⟨texts, htexts⟩
  rcases inline_tail htrail hrest with ⟨trail', rest', htail, htrail', hrest'⟩
  refine ⟨head ++ (Utf8.decode (trail ++ rest)).takeWhile isInline, texts, Utf8.asciiText before, Utf8.asciiText pad,
    Utf8.asciiText gap ++ (v ++ (Utf8.decode (trail ++ rest)).takeWhile isInline), hdecode ▸ htexts,
    textSetting_of_blanks hbefore hiskey hpad ?_, ?_⟩
  · rw [hhead]
    simp only [List.append_assoc, List.cons_append]
  -- the newline behind the text is one more line end, or is not seen
  have hends : ∃ trail'' rest'', trail' ++ (rest' ++ [10]) = trail'' ++ rest'' ∧
      (∀ b ∈ trail'', isBlankOrEol b = true) ∧ Unseen rest'' := by
    cases rest' with
    | nil =>
      refine ⟨trail' ++ [10], [], by simp, ?_, ?_⟩
      · intro b hb
        rcases List.mem_append.mp hb with hb | hb
        · exact htrail' b hb
        · rw [List.mem_singleton.mp hb]
          rfl
      · intro c hc
        cases hc
    | cons b rest' => exact ⟨trail', b :: rest' ++ [10], rfl, htrail', fun c hc => hrest' c hc⟩
  rcases hends with ⟨trail'', rest'', hjoin, htrail'', hrest''⟩
  have hline : Utf8.encode (head ++ (Utf8.decode (trail ++ rest)).takeWhile isInline) ++ [10] =
      before ++ (Utf8.encode k ++ (pad ++ 61 :: (gap ++ (Utf8.encode v ++ (trail'' ++ rest''))))) := by
    rw [Utf8.encode_append, hencode, htail, ← hjoin]
    simp only [List.append_assoc, List.cons_append]
  exact hline ▸ Sets.intro hbefore hiskey hpad hgap hisval htrail'' hrest''

/-- A line that sets a key that is text on one line, whatever the value is: the first line that
it is read as sets that key too. -/
theorem first_key {line : Bytes} {k : Text} {val : Bytes} (hk : Unbroken k) (h : Sets line (Utf8.encode k) val) :
    ∃ text texts before pad more val', textLines (Utf8.decode line) = text :: texts ∧
      TextSetting text before k pad more ∧ Sets (Utf8.encode text ++ [10]) (Utf8.encode k) val' := by
  generalize hkey : Utf8.encode k = key at h
  rcases h with ⟨hbefore, hiskey, hpad, -, -, -, -⟩
  rename_i before pad gap trail rest
  subst hkey
  have hb := Utf8.encode_asciiText fun b hb => ascii_of_isBlank (hbefore b hb)
  have hp := Utf8.encode_asciiText fun b hb => ascii_of_isBlank (hpad b hb)
  -- up to the equals sign the line is text
  obtain ⟨head, hhead⟩ : ∃ head, head = Utf8.asciiText before ++ (k ++ (Utf8.asciiText pad ++ ['='])) := ⟨_, rfl⟩
  have heq : Utf8.encode ['='] = [61] := by decide
  have hencode : Utf8.encode head = before ++ (Utf8.encode k ++ (pad ++ [61])) := by
    rw [hhead, Utf8.encode_append, Utf8.encode_append, Utf8.encode_append, hb, hp, heq]
  have hunbroken : Unbroken head := by
    intro c hc
    rw [hhead] at hc
    simp only [List.mem_append, List.mem_singleton] at hc
    rcases hc with hc | hc | hc | rfl
    · exact (mem_asciiText_blank hbefore hc).2.1
    · exact hk c hc
    · exact (mem_asciiText_blank hpad hc).2.1
    · rfl
  have hne : head ≠ [] := by
    rw [hhead]
    simp
  -- of the rest only the first line matters
  generalize gap ++ (val ++ (trail ++ rest)) = tail
  have hdecode : Utf8.decode (before ++ (Utf8.encode k ++ (pad ++ 61 :: tail))) = head ++ Utf8.decode tail := by
    rw [← Utf8.decode_encode_append, hencode]
    simp only [List.append_assoc, List.cons_append, List.nil_append]
  rcases textLines_unbroken hunbroken hne (Utf8.decode tail) with ⟨texts, htexts⟩
  rcases sets_key hbefore hiskey hpad (Utf8.encode ((Utf8.decode tail).takeWhile isInline) ++ [10]) with ⟨val', hsets⟩
  refine ⟨head ++ (Utf8.decode tail).takeWhile isInline, texts, Utf8.asciiText before, Utf8.asciiText pad,
    (Utf8.decode tail).takeWhile isInline, val', hdecode ▸ htexts, textSetting_of_blanks hbefore hiskey hpad ?_, ?_⟩
  · rw [hhead]
    simp only [List.append_assoc, List.cons_append, List.nil_append]
  · have hline : Utf8.encode (head ++ (Utf8.decode tail).takeWhile isInline) ++ [10] =
        before ++ (Utf8.encode k ++ (pad ++ 61 :: (Utf8.encode ((Utf8.decode tail).takeWhile isInline) ++ [10]))) := by
      rw [Utf8.encode_append, hencode]
      simp only [List.append_assoc, List.cons_append, List.nil_append]
    exact hline ▸ hsets

/-- The first line of a text is what stands in front of its first break. -/
theorem textLines_head {s : Text} {text : Text} {texts : List Text} (h : textLines s = text :: texts) :
    ∃ more, s = text ++ more := by
  have hne : universalNewlines s ≠ [] := by
    intro hnil
    rw [textLines, hnil] at h
    cases h
  rcases splitlines_head _ hne with ⟨lines, hlines⟩
  rw [textLines, hlines, List.cons.injEq] at h
  have htake : (universalNewlines s).takeWhile isInline = s.takeWhile isInline := takeWhile_newlinesFrom s
  rw [htake] at h
  refine ⟨s.dropWhile isInline, ?_⟩
  rw [← h.1, List.takeWhile_append_dropWhile]

/-! ## From the first line of text back -/

/-- A blank is none of the characters that mean something. -/
theorem plain_of_isBlank {b : UInt8} (h : isBlank b = true) : b ≠ 0 ∧ b ≠ 35 ∧ b ≠ 61 := by
  rcases isBlank_cases h with rfl | rfl
  all_goals decide

/-- Where the first line that a line is read as sets a key, the line has an equals sign at the
same place, and in front of it bytes that are read as the key and its blanks. -/
theorem front_of_head {line : Bytes} {text : Text} {texts : List Text}
    (htexts : textLines (Utf8.decode line) = text :: texts) {key val : Bytes}
    (h : Sets (Utf8.encode text ++ [10]) key val) :
    ∃ before pad front rest, line = front ++ 61 :: rest ∧ Utf8.encode (Utf8.decode front) = before ++ (key ++ pad) ∧
      (∀ b ∈ front, b ≠ 0 ∧ b ≠ 35 ∧ b ≠ 61) ∧ (∀ b ∈ before, isBlank b = true) ∧ IsKey key ∧
        ∀ b ∈ pad, isBlank b = true := by
  generalize hbytes : Utf8.encode text ++ [10] = bytes at h
  rcases h with ⟨hbefore, hkey, hpad, -, -, -, -⟩
  rename_i before pad gap trail rest
  have hnl : Utf8.encode ['\n'] = [10] := by decide
  have hjoin : Utf8.encode (text ++ ['\n']) = (before ++ (key ++ pad)) ++ 61 :: (gap ++ (val ++ (trail ++ rest))) := by
    rw [Utf8.encode_append, hnl, hbytes]
    simp only [List.append_assoc]
  rcases Utf8.encode_split (by decide) hjoin with ⟨front, es, hfront, henc, -⟩
  have heq : Char.ofNat (UInt8.toNat 61) = '=' := rfl
  rw [heq] at hfront
  -- no byte in front of the equals sign is a comment, a NUL or another equals sign
  have hplain : ∀ b ∈ before ++ (key ++ pad), b ≠ 0 ∧ b ≠ 35 ∧ b ≠ 61 := by
    intro b hb
    simp only [List.mem_append] at hb
    rcases hb with hb | hb | hb
    · exact plain_of_isBlank (hbefore b hb)
    · exact hkey.plain b hb
    · exact plain_of_isBlank (hpad b hb)
  have hchars : ∀ a : UInt8, a < 0x80 → a = 0 ∨ a = 35 ∨ a = 61 → Char.ofNat a.toNat ∉ front := by
    intro a ha hor hmem
    have hin : a ∈ Utf8.encode front := (Utf8.mem_encode_ascii ha).mpr hmem
    rw [henc] at hin
    rcases hplain a hin with ⟨h0, h35, h61⟩
    rcases hor with h | h | h
    · exact h0 h
    · exact h35 h
    · exact h61 h
  -- the text goes on where its first line ends
  obtain ⟨more, hmore⟩ : ∃ more, Utf8.decode line = front ++ '=' :: more := by
    rcases textLines_head htexts with ⟨more, hmore⟩
    rcases List.append_eq_append_iff.mp hfront with ⟨mid, -, hrest⟩ | ⟨mid, hmid, hrest⟩
    · cases mid with
      | nil => cases hrest
      | cons c mid =>
        rw [List.cons_append, List.cons.injEq] at hrest
        exact absurd hrest.2 (by simp)
    · cases mid with
      | nil => cases hrest
      | cons c mid =>
        rw [List.cons_append, List.cons.injEq] at hrest
        refine ⟨mid ++ more, ?_⟩
        rw [hmore, hmid, ← hrest.1, List.append_assoc, List.cons_append]
  rcases Utf8.decode_split (a := 61) (by decide) hmore (hchars 61 (by decide) (Or.inr (Or.inr rfl))) with
    ⟨t, u, rfl, ht, -⟩
  have hnot : ∀ a : UInt8, a < 0x80 → a = 0 ∨ a = 35 ∨ a = 61 → a ∉ t := by
    intro a ha hor hmem
    apply hchars a ha hor
    rw [← ht]
    exact (Utf8.mem_decode_ascii ha).mpr hmem
  refine ⟨before, pad, t, u, rfl, ht ▸ henc, ?_, hbefore, hkey, hpad⟩
  intro b hb
  refine ⟨?_, ?_, ?_⟩
  · rintro rfl
    exact hnot 0 (by decide) (Or.inl rfl) hb
  · rintro rfl
    exact hnot 35 (by decide) (Or.inr (Or.inl rfl)) hb
  · rintro rfl
    exact hnot 61 (by decide) (Or.inr (Or.inr rfl)) hb

/-- Where the first line that a line is read as sets a key, the line sets one as well. -/
theorem sets_of_head {line : Bytes} {text : Text} {texts : List Text}
    (htexts : textLines (Utf8.decode line) = text :: texts) {key val : Bytes}
    (h : Sets (Utf8.encode text ++ [10]) key val) : ∃ key' val', Sets line key' val' := by
  rcases front_of_head htexts h with ⟨before, pad, front, rest, rfl, hfront, hplain, hbefore, hkey, hpad⟩
  refine sets_of_front hplain ?_ rest
  -- blanks only would be a text of blanks, and so would the key
  by_contra hall
  have hblank : ∀ b ∈ front, isBlank b = true := by
    intro b hb
    cases hb' : isBlank b with
    | true => rfl
    | false => exact absurd ⟨b, hb, hb'⟩ hall
  have hascii : ∀ b ∈ front, b < 0x80 := fun b hb => ascii_of_isBlank (hblank b hb)
  rw [Utf8.decode_asciiText hascii, Utf8.encode_asciiText hascii] at hfront
  have hnil : rtrim isBlank key = [] := by
    refine List.rdropWhile_eq_nil_iff.mpr fun b hb => hblank b ?_
    rw [hfront]
    exact List.mem_append_right _ (List.mem_append_left _ hb)
  rw [hkey.back] at hnil
  exact hkey.ne_nil hnil

/-- An ASCII key is the same in both. -/
theorem sets_of_head_ascii {line : Bytes} {text : Text} {texts : List Text}
    (htexts : textLines (Utf8.decode line) = text :: texts) {key val : Bytes}
    (h : Sets (Utf8.encode text ++ [10]) key val) (hascii : ∀ b ∈ key, b < 0x80) : ∃ val', Sets line key val' := by
  rcases front_of_head htexts h with ⟨before, pad, front, rest, rfl, hfront, hplain, hbefore, hkey, hpad⟩
  have hall : ∀ b ∈ before ++ (key ++ pad), b < 0x80 := by
    intro b hb
    simp only [List.mem_append] at hb
    rcases hb with hb | hb | hb
    · exact ascii_of_isBlank (hbefore b hb)
    · exact hascii b hb
    · exact ascii_of_isBlank (hpad b hb)
  have hdecode : Utf8.decode front = Utf8.asciiText (before ++ (key ++ pad)) := by
    apply Utf8.encode_inj
    rw [hfront, Utf8.encode_asciiText hall]
  have heq : front = before ++ (key ++ pad) := by
    rw [← hfront, Utf8.encode_decode_ascii]
    intro c hc
    rw [hdecode] at hc
    rcases List.mem_map.mp hc with ⟨b, hb, rfl⟩
    rw [Utf8.toNat_ascii (hall b hb)]
    exact hall b hb
  rcases sets_key hbefore hkey hpad rest with ⟨val', hsets⟩
  refine ⟨val', ?_⟩
  rw [heq]
  simpa only [List.append_assoc] using hsets

end Meshcore
