import MeshcoreRepeater.Config.Texts

/-! # Line breaks in list values

`config_set` takes a list value with line breaks in it, and `config_save` writes it as it is:
the reader finds further lines behind the breaks, which may set text keys.

* `setAll_field`: what settings that are handed to `config_set` one after the other make of one
  text key.
* `configLoad_field`: what the saved file makes of it.
* `configLoad_texts_iff`: exactly when the text settings are restored.
-/

namespace Meshcore

open ByteLib

variable {C : Crypto} {cfg cfg' : McConfig}

/-! ## One key -/

/-- What `config_set` makes of the array of a text key; `none` for a value it refuses. -/
def ConfigKey.store (k : ConfigKey) (val : Bytes) (old : Bytes × Bool) : Option (Bytes × Bool) :=
  match k with
  | .linkMode =>
    if strcaseEq val (lit "off") || strcaseEq val (lit "rx") || strcaseEq val (lit "tx") then
      some ((snprintfS 8 val).map tolower, true)
    else none
  | .backbonePolicyFile => if val = [] ∨ 128 ≤ val.length then none else some (snprintfS 128 val, true)
  | .webPassword => if 64 ≤ val.length then none else some (snprintfS 64 val, true)
  | .backboneHubKey =>
    -- an empty value unsets the key, the old bytes stay
    if val = [] then some (old.1, false)
    else if val.length ≠ 64 then none
    else (hex2bin 32 val).map fun key => (key, true)
  | k => some (snprintfS k.size val, true)

/-- Each text key stores as `store` says, and a refused value leaves it. -/
theorem setKey_field {k : ConfigKey} (hk : k ∈ textKeys) (base : McConfig) (val : Bytes) :
    k.field ((setKey C base k val).toOption.getD base).texts =
      (k.store val (k.field base.texts)).getD (k.field base.texts) := by
  cases k with
  | spiDev | gpioChip | name | keyFile | linkKey | linkPeer | backboneHost | aprsCall | aprsPasscode | aprsHost
  | aprsTocall | aprsSymbol | aprsNodeSymbol | aprsComment => rfl
  | linkMode =>
    show ConfigKey.linkMode.field ((setLinkMode base val).toOption.getD base).texts = _
    rw [setLinkMode, ConfigKey.store]
    split
    · rfl
    · rfl
  | backbonePolicyFile =>
    show ConfigKey.backbonePolicyFile.field ((setPolicyFile base val).toOption.getD base).texts = _
    rw [setPolicyFile, ConfigKey.store]
    split
    · rfl
    · rfl
  | webPassword =>
    show ConfigKey.webPassword.field ((setWebPassword base val).toOption.getD base).texts = _
    rw [setWebPassword, ConfigKey.store]
    split
    · rfl
    · rfl
  | backboneHubKey =>
    show ConfigKey.backboneHubKey.field ((setHubKey base val).toOption.getD base).texts = _
    rw [setHubKey, ConfigKey.store]
    split
    · rfl
    split
    · rfl
    · cases hex2bin 32 val with
      | none => rfl
      | some key => rfl
  | _ => exact absurd hk (by decide)

/-- The array of a text key is its own. -/
theorem setKey_field_other {k k' : ConfigKey} (hne : k' ≠ k) (base : McConfig) (val : Bytes) :
    k.field ((setKey C base k' val).toOption.getD base).texts = k.field base.texts := by
  cases hset : setKey C base k' val with
  | error e => rfl
  | ok base' =>
    show k.field base'.texts = k.field base.texts
    -- a key of no text does not touch any
    by_cases htext : k' ∈ textKeys
    swap
    · rw [keepsTexts htext _ _ _ hset]
    cases k' with
    | spiDev | gpioChip | name | keyFile | linkKey | linkPeer | backboneHost | aprsCall | aprsPasscode | aprsHost
    | aprsTocall | aprsSymbol | aprsNodeSymbol | aprsComment =>
      cases hset
      cases k
      all_goals first | rfl | exact absurd rfl hne
    | linkMode =>
      rcases setLinkMode_ok hset with ⟨-, rfl⟩
      cases k
      all_goals first | rfl | exact absurd rfl hne
    | backbonePolicyFile =>
      rcases setPolicyFile_ok hset with ⟨-, rfl⟩
      cases k
      all_goals first | rfl | exact absurd rfl hne
    | webPassword =>
      rcases setWebPassword_ok hset with ⟨-, rfl⟩
      cases k
      all_goals first | rfl | exact absurd rfl hne
    | backboneHubKey =>
      rcases setHubKey_ok hset with ⟨key, have_, -, -, -, rfl⟩
      cases k
      all_goals first | rfl | exact absurd rfl hne
    | _ => exact absurd htext (by decide)

/-! ## Settings one after the other -/

/-- Settings handed to `config_set` one after the other, as `config_load` does it. -/
def setAll (C : Crypto) (base : McConfig) (settings : List (Bytes × Bytes)) : McConfig :=
  settings.foldl (fun c s => (configSet C c s.1 s.2).toOption.getD c) base

/-- The values that settings have for a key. -/
def ConfigKey.valuesOf (k : ConfigKey) (settings : List (Bytes × Bytes)) : List Bytes :=
  settings.filterMap fun s => if ConfigKey.find s.1 = some k then some s.2 else none

/-- Values stored in the array of a key one after the other. -/
def ConfigKey.storeAll (k : ConfigKey) (vals : List Bytes) (old : Bytes × Bool) : Bytes × Bool :=
  vals.foldl (fun f v => (k.store v f).getD f) old

/-- Settings in two parts. -/
theorem setAll_append (C : Crypto) (base : McConfig) (xs ys : List (Bytes × Bytes)) :
    setAll C base (xs ++ ys) = setAll C (setAll C base xs) ys := List.foldl_append

/-- So are their values. -/
theorem ConfigKey.valuesOf_append (k : ConfigKey) (xs ys : List (Bytes × Bytes)) :
    k.valuesOf (xs ++ ys) = k.valuesOf xs ++ k.valuesOf ys := List.filterMap_append

/-- So are values. -/
theorem ConfigKey.storeAll_append (k : ConfigKey) (xs ys : List Bytes) (old : Bytes × Bool) :
    k.storeAll (xs ++ ys) old = k.storeAll ys (k.storeAll xs old) := List.foldl_append

/-- Of each text key the settings leave what its own values leave. -/
theorem setAll_field {k : ConfigKey} (hk : k ∈ textKeys) (base : McConfig) (settings : List (Bytes × Bytes)) :
    k.field (setAll C base settings).texts = k.storeAll (k.valuesOf settings) (k.field base.texts) := by
  induction settings generalizing base with
  | nil => rfl
  | cons s settings ih =>
    have hstep : setAll C base (s :: settings) =
        setAll C ((configSet C base s.1 s.2).toOption.getD base) settings := rfl
    rw [hstep, ih, ConfigKey.valuesOf, ConfigKey.valuesOf, List.filterMap_cons, configSet]
    cases hfind : ConfigKey.find s.1 with
    | none => rfl
    | some k' =>
      simp only [Option.some.injEq]
      -- a setting of the key is its next value, any other passes it by
      by_cases hkk : k' = k
      · rw [hkk, if_pos rfl, setKey_field hk]
        rfl
      · rw [if_neg hkk, setKey_field_other hkk]

/-- The texts are what their keys hold. -/
theorem texts_ext {s s' : TextSettings} (h : ∀ k ∈ textKeys, k.field s = k.field s') : s = s' := by
  have hfst : ∀ k ∈ textKeys, (k.field s).1 = (k.field s').1 := fun k hk => congrArg Prod.fst (h k hk)
  have hflag : s.backboneHaveHubKey = s'.backboneHaveHubKey := congrArg Prod.snd (h .backboneHubKey (by decide))
  cases s
  cases s'
  simp only [textKeys, List.forall_mem_cons, ConfigKey.field] at hfst hflag
  rcases hfst with ⟨rfl, rfl, rfl, rfl, rfl, rfl, rfl, rfl, rfl, rfl, rfl, rfl, rfl, rfl, rfl, rfl, rfl, rfl, -⟩
  rw [hflag]

/-! ## The lines of a value -/

/-- The lines behind the first line break of a value that is written. -/
def strayLines (v : Bytes) : List Bytes := (rawLines (v ++ [10])).tail

/-- What the reader finds in them. -/
def straySettings (v : Bytes) : List (Bytes × Bytes) := (strayLines v).filterMap parseSetting

/-- A written setting as the reader finds it, and what it brings along. -/
def writtenSettings (s : ConfigKey × Bytes) : List (Bytes × Bytes) :=
  (s.1.text, readValue (s.2.takeWhile (· ≠ 10))) :: straySettings s.2

/-- The written line goes up to the first break; the rest are the stray ones. -/
theorem rawLines_settingLine (k : ConfigKey) (v : Bytes) :
    rawLines (settingLine k.text v) = settingLine k.text (v.takeWhile (· ≠ 10)) :: strayLines v := by
  rcases settingLine_front k with ⟨front, hfront, -, heq⟩
  rw [heq, heq, rawLines_append hfront (rawLines_concat v)]
  rfl

/-- What the reader finds in a written setting. -/
theorem filterMap_settingLine (s : ConfigKey × Bytes) :
    (rawLines (settingLine s.1.text s.2)).filterMap parseSetting = writtenSettings s := by
  rw [rawLines_settingLine, List.filterMap_cons, parseSetting_settingLine]
  rfl

/-- Lines that set nothing may be left out. -/
theorem foldl_loadLine (C : Crypto) (base : McConfig) (lines : List Bytes) :
    lines.foldl (loadLine C) base = setAll C base (lines.filterMap parseSetting) := by
  induction lines generalizing base with
  | nil => rfl
  | cons line lines ih =>
    rw [List.foldl_cons, ih, List.filterMap_cons, loadLine]
    cases parseSetting line with
    | none => rfl
    | some s => rfl

/-- The saved file hands its settings to `config_set`, with what they bring along. -/
theorem foldl_fileLines_configSave (C : Crypto) (h : cfg.OneLine False) (base : McConfig) :
    (fileLines (configSave cfg)).foldl (loadLine C) base =
      setAll C base ((savedSettings cfg).flatMap writtenSettings) := by
  -- no line is cut by the reader's buffer
  have hlen : ∀ s ∈ savedSettings cfg, s.2.length ≤ 512 := fun s hs =>
    (savedSettings_oneLine h s hs).2.trans (by decide)
  have hcomment : (rawLines (lit "# MeshCore repeater configuration" ++ [10])).filterMap parseSetting = [] := by
    rw [rawLines_of_isLine ⟨lit "# MeshCore repeater configuration", rfl, by decide⟩]
    rfl
  rw [fileLines_savedLines hlen, foldl_loadLine, savedLines, List.flatMap_cons, List.filterMap_append, hcomment,
    List.nil_append, List.flatMap_map, List.filterMap_flatMap]
  exact congrArg (setAll C base) (List.flatMap_congr fun s _ => filterMap_settingLine s)

/-- A value on one line brings nothing along. -/
theorem straySettings_of_noBreak {v : Bytes} (h : (10 : UInt8) ∉ v) : straySettings v = [] := by
  rw [straySettings, strayLines, rawLines_of_isLine ⟨v, rfl, h⟩]
  rfl

/-- A value is no longer than what stands in front of the comment. -/
theorem length_of_parseSetting {line key val : Bytes} (h : parseSetting line = some (key, val)) :
    val.length ≤ (line.takeWhile (· ≠ 35)).length := by
  unfold parseSetting at h
  simp only at h
  split at h
  case isFalse => cases h
  split at h
  · cases h
  · cases h
    -- trimmed, cut at the equals sign, trimmed again: each step takes something off
    calc (rtrim isBlankOrEol (skipBlanks (((skipBlanks (line.takeWhile (· ≠ 35))).dropWhile (· ≠ 61)).drop 1))).length
        ≤ (skipBlanks (((skipBlanks (line.takeWhile (· ≠ 35))).dropWhile (· ≠ 61)).drop 1)).length :=
          (List.rdropWhile_prefix _ _).length_le
      _ ≤ (((skipBlanks (line.takeWhile (· ≠ 35))).dropWhile (· ≠ 61)).drop 1).length :=
          (List.dropWhile_suffix _).length_le
      _ ≤ ((skipBlanks (line.takeWhile (· ≠ 35))).dropWhile (· ≠ 61)).length := (List.drop_suffix _ _).length_le
      _ ≤ (skipBlanks (line.takeWhile (· ≠ 35))).length := (List.dropWhile_suffix _).length_le
      _ ≤ (line.takeWhile (· ≠ 35)).length := (List.dropWhile_suffix _).length_le

/-- What stands at the end of a line, without an equals sign or a comment, is seen in the value,
unless a comment began before it. -/
theorem mem_of_parseSetting {a b key val : Bytes} {c : UInt8} (hb : ∀ x ∈ b, x ≠ 35 ∧ x ≠ 61) (hc : c ∈ b)
    (hblank : isBlankOrEol c = false) (h : parseSetting (a ++ b) = some (key, val)) :
    val.length ≤ a.length ∨ c ∈ val := by
  by_cases hcomment : (35 : UInt8) ∈ a
  · left
    -- the comment cuts off all of `b`
    have hcut : (a ++ b).takeWhile (· ≠ 35) = a.takeWhile (· ≠ 35) := by
      obtain ⟨x, y, rfl⟩ := List.append_of_mem hcomment
      rw [List.append_assoc, List.cons_append, List.takeWhile_append, List.takeWhile_append]
      simp
    have hlen := length_of_parseSetting h
    rw [hcut] at hlen
    exact hlen.trans (List.takeWhile_prefix _).length_le
  right
  have hall : (a ++ b).takeWhile (· ≠ 35) = a ++ b := by
    apply List.takeWhile_eq_self_iff.mpr
    intro x hx
    rcases List.mem_append.mp hx with hx | hx
    · exact decide_eq_true fun hx35 => hcomment (hx35 ▸ hx)
    · exact decide_eq_true (hb x hx).1
  have hb61 : (61 : UInt8) ∉ b := fun hmem => (hb 61 hmem).2 rfl
  unfold parseSetting at h
  rw [hall] at h
  simp only at h
  split at h
  case isFalse => cases h
  rename_i hequals
  split at h
  · cases h
  cases h
  -- the equals sign stands in front, and so do the blanks that are skipped
  have ha61 : (61 : UInt8) ∈ a := by
    have hmem : (61 : UInt8) ∈ a ++ b := (List.dropWhile_suffix _).subset (List.contains_iff_mem.mp hequals)
    exact (List.mem_append.mp hmem).resolve_right hb61
  obtain ⟨x, y, rfl, hx⟩ := List.eq_append_cons_of_mem ha61
  have hskip : ∃ x', skipBlanks (x ++ 61 :: y ++ b) = x' ++ 61 :: (y ++ b) ∧ (61 : UInt8) ∉ x' := by
    refine ⟨skipBlanks x, ?_, fun hmem => hx ((List.dropWhile_suffix _).subset hmem)⟩
    have hhead : skipBlanks (61 :: (y ++ b)) = 61 :: (y ++ b) := skipBlanks_of_head (by rintro _ ⟨⟩; rfl)
    rw [List.append_assoc, List.cons_append, skipBlanks, List.dropWhile_append]
    split
    · rename_i hnil
      rw [skipBlanks, List.isEmpty_iff.mp hnil]
      exact hhead
    · rfl
  rcases hskip with ⟨x', hskip, hx'⟩
  have hbehind : ((skipBlanks (x ++ 61 :: y ++ b)).dropWhile (· ≠ 61)).drop 1 = y ++ b := by
    have hfront : ∀ z ∈ x', decide (z ≠ 61) = true := fun z hz => decide_eq_true fun hz61 => hx' (hz61 ▸ hz)
    rw [hskip, List.dropWhile_append_of_pos hfront]
    simp
  rw [hbehind]
  exact mem_rtrim (mem_skipBlanks (List.mem_append_right y hc) (isBlank_of_isBlankOrEol hblank)) hblank

/-- The stray lines of a value hold no longer one, but for the byte of the line break. -/
theorem length_of_mem_straySettings {v : Bytes} {s : Bytes × Bytes} (h : s ∈ straySettings v) :
    s.2.length ≤ v.length + 1 := by
  obtain ⟨line, hline, hparse⟩ := List.mem_filterMap.mp h
  calc s.2.length
      ≤ (line.takeWhile (· ≠ 35)).length := length_of_parseSetting hparse
    _ ≤ line.length := (List.takeWhile_prefix _).length_le
    _ ≤ (v ++ [10]).length := length_le_of_mem_rawLines (List.mem_of_mem_tail hline)
    _ = v.length + 1 := List.length_append

/-- The stray lines of a channel hold no key in hex: the last of them has the colon in it. -/
theorem colon_of_mem_straySettings {ch : McPubChannel} {s : Bytes × Bytes} (h : s ∈ straySettings (channelText ch)) :
    s.2.length ≤ ch.name.length ∨ (58 : UInt8) ∈ s.2 := by
  -- the key in hex breaks no line
  have hhex : ∀ c ∈ hexText (ch.secret.read 0 ch.secretLen.toNat), c ≠ 10 ∧ c ≠ 35 ∧ c ≠ 61 := by
    intro c hc
    refine ⟨?_, ?_, ?_⟩
    all_goals
      rintro rfl
      exact absurd (mem_hexText hc) (by decide)
  unfold channelText at h
  simp only at h
  split at h
  · rw [straySettings_of_noBreak fun hmem => (hhex 10 hmem).1 rfl] at h
    cases h
  obtain ⟨line, hline, hparse⟩ := List.mem_filterMap.mp h
  -- so the last line starts within the name, and holds colon and key
  have hcolon : (10 : UInt8) ∉ 58 :: hexText (ch.secret.read 0 ch.secretLen.toNat) := by
    intro hmem
    rcases List.mem_cons.mp hmem with hmem | hmem
    · cases hmem
    · exact (hhex 10 hmem).1 rfl
  have hmem := List.mem_of_mem_tail hline
  rw [List.append_assoc] at hmem
  rcases mem_rawLines_append hcolon hmem with hlen | ⟨a, rfl, ha⟩
  · left
    exact ((length_of_parseSetting hparse).trans (List.takeWhile_prefix _).length_le).trans hlen
  · have hplain : ∀ x ∈ 58 :: hexText (ch.secret.read 0 ch.secretLen.toNat) ++ [10], x ≠ 35 ∧ x ≠ 61 := by
      intro x hx
      rcases List.mem_append.mp hx with hx | hx
      · rcases List.mem_cons.mp hx with rfl | hx
        · decide
        · exact (hhex x hx).2
      · rw [List.mem_singleton.mp hx]
        decide
    exact (mem_of_parseSetting hplain (List.mem_append_left _ List.mem_cons_self) rfl hparse).imp_left (·.trans ha)

/-- A value on one line is read back alone. -/
theorem writtenSettings_of_noBreak {s : ConfigKey × Bytes} (h : (10 : UInt8) ∉ s.2) :
    writtenSettings s = [(s.1.text, readValue s.2)] := by
  have htake : s.2.takeWhile (· ≠ 10) = s.2 := List.takeWhile_eq_self_iff.mpr fun c hc =>
    decide_eq_true fun hc10 => h (hc10 ▸ hc)
  rw [writtenSettings, straySettings_of_noBreak h, htake]

/-- Settings on single lines are those that are handed over. -/
theorem setAll_written (C : Crypto) (base : McConfig) {settings : List (ConfigKey × Bytes)}
    (h : ∀ s ∈ settings, (10 : UInt8) ∉ s.2) :
    setAll C base (settings.flatMap writtenSettings) = loadSettings C base settings := by
  rw [loadSettings, foldl_loadLine, List.filterMap_map]
  congr 1
  induction settings with
  | nil => rfl
  | cons s settings ih =>
    rw [List.flatMap_cons, writtenSettings_of_noBreak (h s List.mem_cons_self), List.filterMap_cons,
      ih fun s' hs' => h s' (List.mem_cons_of_mem s hs')]
    simp only [Function.comp_apply, parseSetting_settingLine]
    rfl

/-- A setting of another key counts for a text key by what it brings along. -/
theorem valuesOf_written {k : ConfigKey} {settings : List (ConfigKey × Bytes)} (h : ∀ s ∈ settings, s.1 ≠ k) :
    k.valuesOf (settings.flatMap writtenSettings) = k.valuesOf (settings.flatMap fun s => straySettings s.2) := by
  induction settings with
  | nil => rfl
  | cons s settings ih =>
    -- its own line is one of another key
    have hother : k.valuesOf [(s.1.text, readValue (s.2.takeWhile (· ≠ 10)))] = [] := by
      have hne : ¬ s.1 = k := h s List.mem_cons_self
      simp [ConfigKey.valuesOf, ConfigKey.find_text, hne]
    have hcons : writtenSettings s = [(s.1.text, readValue (s.2.takeWhile (· ≠ 10)))] ++ straySettings s.2 := rfl
    rw [List.flatMap_cons, List.flatMap_cons, k.valuesOf_append, k.valuesOf_append, hcons, k.valuesOf_append, hother,
      List.nil_append, ih fun s' hs' => h s' (List.mem_cons_of_mem s hs')]

/-! ## The saved file -/

/-- What the list values bring along. -/
def listStrays (cfg : McConfig) : List (Bytes × Bytes) := (listSettings cfg).flatMap fun s => straySettings s.2

/-- The values that stray lines have for a text key, behind the key's own line: a secret that is
set stands behind `ping_channel`. -/
def strayValues (cfg : McConfig) (k : ConfigKey) : List Bytes :=
  k.valuesOf <|
    if (k = .linkKey ∧ cfg.linkKey ≠ []) ∨ (k = .webPassword ∧ cfg.webPassword ≠ []) then listStrays cfg
    else straySettings (pingText cfg.pingChannel) ++ listStrays cfg

/-- The texts of the file's own lines. -/
def ownTexts (cfg : McConfig) : TextSettings :=
  { cfg.texts with
    keyFile := readValue (snprintfS saveBuf cfg.keyFile)
    backboneHubKey := if cfg.backboneHaveHubKey then cfg.backboneHubKey else List.replicate 32 0 }

/-- The lists' keys are none of the texts'. -/
theorem listSettings_notText {s : ConfigKey × Bytes} (h : s ∈ listSettings cfg) : s.1 ∉ textKeys := by
  simp only [listSettings, List.mem_append, List.mem_map] at h
  rcases h with ((((⟨_, -, rfl⟩ | ⟨_, -, rfl⟩) | ⟨_, -, rfl⟩) | ⟨_, -, rfl⟩) | ⟨_, -, rfl⟩) | ⟨_, -, rfl⟩
  all_goals simp [textKeys]

/-- A secret's line stores it, whatever was there. -/
theorem storeAll_secret {k : ConfigKey} {v : Bytes} (htame : IsTame v) (hstore : ∀ old, k.store v old = some (v, true))
    (hne : v ≠ []) (old : Bytes × Bool) :
    k.storeAll (k.valuesOf ((secretSetting k v).flatMap writtenSettings)) old = (v, true) := by
  rw [secretSetting, if_neg hne, List.flatMap_cons, List.flatMap_nil, List.append_nil,
    writtenSettings_of_noBreak htame.noBreak]
  show k.storeAll (k.valuesOf [(k.text, readValue v)]) old = (v, true)
  rw [htame.readValue]
  simp [ConfigKey.valuesOf, ConfigKey.find_text, ConfigKey.storeAll, hstore]

/-- For the other keys the secret's line is nothing. -/
theorem valuesOf_secret {k k' : ConfigKey} {v : Bytes} (htame : IsTame v) (hne : k' ≠ k) :
    k.valuesOf ((secretSetting k' v).flatMap writtenSettings) = [] := by
  unfold secretSetting
  split
  · rfl
  · rw [valuesOf_written]
    · rw [List.flatMap_cons, List.flatMap_nil, List.append_nil, straySettings_of_noBreak htame.noBreak]
      rfl
    · intro s hs
      rw [List.mem_singleton.mp hs]
      exact hne

/-- A text that was set to a tame value holds no line break. -/
theorem SetThrough.noBreak {k : ConfigKey} (h : SetThrough C cfg k) (hk : k ∈ textKeys) (hne : k ≠ .backboneHubKey) :
    (10 : UInt8) ∉ (k.field cfg.texts).1 := by
  rcases h with ⟨base, base', val, htame, -, hok, hsame⟩
  rw [configSet_text] at hok
  rw [← hsame]
  -- cutting a tame value leaves it on its line
  have hcut : ∀ n, (10 : UInt8) ∉ snprintfS n val := fun n hmem => htame.noBreak (List.mem_of_mem_take hmem)
  cases k with
  | spiDev | gpioChip | name | keyFile | linkKey | linkPeer | backboneHost | aprsCall | aprsPasscode | aprsHost
  | aprsTocall | aprsSymbol | aprsNodeSymbol | aprsComment =>
    cases hok
    exact hcut _
  | linkMode =>
    obtain ⟨mode, hmode, rfl⟩ := setLinkMode_word hok
    have hwords : ∀ m ∈ [lit "off", lit "rx", lit "tx"], (10 : UInt8) ∉ m := by decide
    exact hwords mode hmode
  | backbonePolicyFile =>
    rcases setPolicyFile_ok hok with ⟨-, rfl⟩
    exact hcut _
  | webPassword =>
    rcases setWebPassword_ok hok with ⟨-, rfl⟩
    exact hcut _
  | backboneHubKey => exact absurd rfl hne
  | _ => exact absurd hk (by decide)

/-- Every text that was set to a tame value is one line. -/
theorem texts_oneLine (h : ∀ k ∈ textKeys, SetThrough C cfg k) (hline : cfg.OneLine False) : cfg.texts.OneLine True where
  spiDev := ⟨fun _ => (h .spiDev (by decide)).noBreak (by decide) (by decide), hline.texts.spiDev.2⟩
  gpioChip := ⟨fun _ => (h .gpioChip (by decide)).noBreak (by decide) (by decide), hline.texts.gpioChip.2⟩
  name := ⟨fun _ => (h .name (by decide)).noBreak (by decide) (by decide), hline.texts.name.2⟩
  keyFile := ⟨fun _ => (h .keyFile (by decide)).noBreak (by decide) (by decide), hline.texts.keyFile.2⟩
  linkMode := ⟨fun _ => (h .linkMode (by decide)).noBreak (by decide) (by decide), hline.texts.linkMode.2⟩
  linkKey := ⟨fun _ => (h .linkKey (by decide)).noBreak (by decide) (by decide), hline.texts.linkKey.2⟩
  linkPeer := ⟨fun _ => (h .linkPeer (by decide)).noBreak (by decide) (by decide), hline.texts.linkPeer.2⟩
  backboneHost := ⟨fun _ => (h .backboneHost (by decide)).noBreak (by decide) (by decide), hline.texts.backboneHost.2⟩
  backbonePolicyFile :=
    ⟨fun _ => (h .backbonePolicyFile (by decide)).noBreak (by decide) (by decide), hline.texts.backbonePolicyFile.2⟩
  aprsCall := ⟨fun _ => (h .aprsCall (by decide)).noBreak (by decide) (by decide), hline.texts.aprsCall.2⟩
  aprsPasscode := ⟨fun _ => (h .aprsPasscode (by decide)).noBreak (by decide) (by decide), hline.texts.aprsPasscode.2⟩
  aprsHost := ⟨fun _ => (h .aprsHost (by decide)).noBreak (by decide) (by decide), hline.texts.aprsHost.2⟩
  aprsTocall := ⟨fun _ => (h .aprsTocall (by decide)).noBreak (by decide) (by decide), hline.texts.aprsTocall.2⟩
  aprsSymbol := ⟨fun _ => (h .aprsSymbol (by decide)).noBreak (by decide) (by decide), hline.texts.aprsSymbol.2⟩
  aprsNodeSymbol :=
    ⟨fun _ => (h .aprsNodeSymbol (by decide)).noBreak (by decide) (by decide), hline.texts.aprsNodeSymbol.2⟩
  aprsComment := ⟨fun _ => (h .aprsComment (by decide)).noBreak (by decide) (by decide), hline.texts.aprsComment.2⟩
  webPassword := ⟨fun _ => (h .webPassword (by decide)).noBreak (by decide) (by decide), hline.texts.webPassword.2⟩

/-- The file's settings behind `KEYS[]`. -/
def laterSettings (cfg : McConfig) : List (ConfigKey × Bytes) :=
  [(ConfigKey.pingChannel, pingText cfg.pingChannel)] ++ secretSetting .linkKey cfg.linkKey ++
    secretSetting .webPassword cfg.webPassword ++ listSettings cfg

/-- The saved file, from the texts of `KEYS[]` on. -/
theorem configLoad_later (h : ∀ k ∈ textKeys, SetThrough C cfg k) (hline : cfg.OneLine False) :
    ∃ base : McConfig, base.texts = { ownTexts cfg with linkKey := [], webPassword := [] } ∧
      (configLoad C configDefaults (some (configSave cfg))).texts =
        (setAll C base ((laterSettings cfg).flatMap writtenSettings)).texts := by
  -- up to `KEYS[]` no value has a line break
  have hkeys : ∀ s ∈ savedKeys.map fun k => (k, snprintfS saveBuf (keyText cfg k)), (10 : UInt8) ∉ s.2 := by
    intro s hs hmem
    obtain ⟨k, hk, rfl⟩ := List.mem_map.mp hs
    exact keyText_noBreak (texts_oneLine h hline) hk trivial (List.mem_of_mem_take hmem)
  have hsaved : savedSettings cfg =
      (savedKeys.map fun k => (k, snprintfS saveBuf (keyText cfg k))) ++ laterSettings cfg := by
    rw [savedSettings_parts, plainSettings, laterSettings]
    simp only [List.append_assoc]
  refine ⟨_, loadSettings_keys h (clearLists configDefaults), ?_⟩
  rw [configLoad_texts_fold, foldl_fileLines_configSave C hline, hsaved, List.flatMap_append, setAll_append,
    setAll_written C _ hkeys]

/-- What the saved file makes of a text key. -/
theorem configLoad_field (h : ∀ k ∈ textKeys, SetThrough C cfg k) (hline : cfg.OneLine False) {k : ConfigKey}
    (hk : k ∈ textKeys) :
    k.field (configLoad C configDefaults (some (configSave cfg))).texts =
      k.storeAll (strayValues cfg k) (k.field (ownTexts cfg)) := by
  rcases configLoad_later h hline with ⟨base, hbase, hload⟩
  rcases (h .linkKey (by decide)).tame (fun b v => { b with linkKey := v }) (fun _ _ => rfl) (fun _ _ => rfl)
    with ⟨hlink, hlinkLen⟩
  have hlinkTame : IsTame cfg.linkKey := hlink
  -- the password's and the link's arrays hold what was saved
  have hlinkStore : ∀ old, ConfigKey.linkKey.store cfg.linkKey old = some (cfg.linkKey, true) := by
    intro old
    have hcut : snprintfS 64 cfg.linkKey = cfg.linkKey := List.take_of_length_le (Nat.le_of_lt_succ hlinkLen)
    show some (snprintfS 64 cfg.linkKey, true) = _
    rw [hcut]
  rcases (h .webPassword (by decide)).webPassword with ⟨hwebTame, hwebLen⟩
  have hwebStore : ∀ old, ConfigKey.webPassword.store cfg.webPassword old = some (cfg.webPassword, true) := by
    intro old
    have hcut : snprintfS 64 cfg.webPassword = cfg.webPassword := List.take_of_length_le (Nat.le_of_lt_succ hwebLen)
    rw [ConfigKey.store, if_neg (Nat.not_le.mpr hwebLen), hcut]
  -- `ping_channel` and the lists count by what they bring along
  have hping : k.valuesOf ([(ConfigKey.pingChannel, pingText cfg.pingChannel)].flatMap writtenSettings) =
      k.valuesOf (straySettings (pingText cfg.pingChannel)) := by
    rw [valuesOf_written]
    · rw [List.flatMap_cons, List.flatMap_nil, List.append_nil]
    · intro s hs hsame
      rw [List.mem_singleton.mp hs] at hsame
      have hno : ConfigKey.pingChannel ∉ textKeys := by decide
      rw [← hsame] at hk
      exact hno hk
  have hlists : k.valuesOf ((listSettings cfg).flatMap writtenSettings) = k.valuesOf (listStrays cfg) :=
    valuesOf_written fun s hs hsame => listSettings_notText hs (hsame ▸ hk)
  rw [hload, setAll_field hk, hbase, laterSettings, List.flatMap_append, List.flatMap_append, List.flatMap_append,
    k.valuesOf_append, k.valuesOf_append, k.valuesOf_append, hping, hlists, strayValues]
  -- a secret stands behind `ping_channel`, so only the lists' lines come after it
  by_cases hkLink : k = .linkKey
  · subst hkLink
    rw [valuesOf_secret hwebTame (by decide), List.append_nil, ConfigKey.storeAll_append, ConfigKey.storeAll_append]
    by_cases hne : cfg.linkKey = []
    · rw [if_neg (by simp [hne]), ConfigKey.valuesOf_append, ConfigKey.storeAll_append, hne]
      show _ = ConfigKey.linkKey.storeAll _ (ConfigKey.linkKey.storeAll _ (cfg.linkKey, true))
      rw [hne]
      rfl
    · rw [storeAll_secret hlinkTame hlinkStore hne, if_pos (.inl ⟨rfl, hne⟩)]
      rfl
  by_cases hkWeb : k = .webPassword
  · subst hkWeb
    rw [valuesOf_secret hlinkTame (by decide), List.append_nil, ConfigKey.storeAll_append, ConfigKey.storeAll_append]
    by_cases hne : cfg.webPassword = []
    · rw [if_neg (by simp [hne]), ConfigKey.valuesOf_append, ConfigKey.storeAll_append, hne]
      show _ = ConfigKey.webPassword.storeAll _ (ConfigKey.webPassword.storeAll _ (cfg.webPassword, true))
      rw [hne]
      rfl
    · rw [storeAll_secret hwebTame hwebStore hne, if_pos (.inr ⟨rfl, hne⟩)]
      rfl
  have hfield : k.field { ownTexts cfg with linkKey := [], webPassword := [] } = k.field (ownTexts cfg) := by
    cases k with
    | linkKey => exact absurd rfl hkLink
    | webPassword => exact absurd rfl hkWeb
    | _ => rfl
  rw [valuesOf_secret hlinkTame (Ne.symm hkLink), valuesOf_secret hwebTame (Ne.symm hkWeb), List.append_nil,
    List.append_nil, hfield, if_neg (by simp [hkLink, hkWeb]), k.valuesOf_append]

/-! ## When it is the text that was saved -/

/-- What the stray lines set, one after the other, leaves every text as it was. -/
def StraysKeep (cfg : McConfig) : Prop :=
  ∀ k ∈ textKeys, k.storeAll (strayValues cfg k) (k.field cfg.texts) = k.field cfg.texts

instance (cfg : McConfig) : Decidable (StraysKeep cfg) := inferInstanceAs (Decidable (∀ k ∈ textKeys, _))

/-- Values without a line break bring no line along. -/
theorem strayValues_of_oneLine (h : cfg.OneLine True) (k : ConfigKey) : strayValues cfg k = [] := by
  have hnone : ∀ s ∈ savedSettings cfg, straySettings s.2 = [] := fun s hs =>
    straySettings_of_noBreak ((savedSettings_oneLine h s hs).1 trivial)
  have hping : straySettings (pingText cfg.pingChannel) = [] := by
    refine hnone (.pingChannel, pingText cfg.pingChannel) ?_
    rw [savedSettings_parts, plainSettings]
    simp
  have hlists : listStrays cfg = [] := by
    refine List.flatMap_eq_nil_iff.mpr fun s hs => hnone s ?_
    rw [savedSettings_parts]
    exact List.mem_append_right _ hs
  rw [strayValues, hping, hlists, List.append_nil, ite_self]
  rfl

/-- Without line breaks there is nothing to keep from. -/
theorem straysKeep_of_oneLine (h : cfg.OneLine True) : StraysKeep cfg := by
  intro k _
  rw [strayValues_of_oneLine h]
  rfl

/-- A list value is short, but for a channel's key. -/
theorem listSettings_short (h : cfg.OneLine False) {s : ConfigKey × Bytes} (hs : s ∈ listSettings cfg) :
    s.2.length ≤ 31 ∨ ∃ ch : McPubChannel, s.2 = channelText ch ∧ ch.name.length ≤ 31 ∧ s.2.length ≤ 96 := by
  simp only [listSettings, List.mem_append, List.mem_map] at hs
  rcases hs with ((((⟨ch, hch, rfl⟩ | ⟨t, ht, rfl⟩) | ⟨t, ht, rfl⟩) | ⟨t, ht, rfl⟩) | ⟨t, ht, rfl⟩) | ⟨r, hr, rfl⟩
  · obtain ⟨hmem, hd⟩ := List.mem_filter.mp hch
    have hname := h.channels ch hmem (by simpa using hd)
    exact .inr ⟨ch, rfl, hname.2, (channelText_oneLine hname).2⟩
  · exact .inl (h.blacklist t ht).2
  · exact .inl (h.affinity t ht).2
  · exact .inl (h.home t ht).2
  · exact .inl (h.probeAllow t ht).2
  · exact .inl (h.rooms r hr).bareName.2

/-- A stray value is at most as long as a channel's line, and longer than a name only where a
channel's key stands behind the colon. -/
theorem strayValues_short (h : cfg.OneLine False) {k : ConfigKey} {v : Bytes} (hv : v ∈ strayValues cfg k) :
    v.length ≤ 97 ∧ (v.length ≤ 32 ∨ (58 : UInt8) ∈ v) := by
  obtain ⟨s, hs, hsame⟩ := List.mem_filterMap.mp hv
  have hval : s.2 = v := by
    split at hsame
    · exact Option.some.inj hsame
    · cases hsame
  -- from `ping_channel` or from a list
  have hsource : s ∈ straySettings (pingText cfg.pingChannel) ∨ s ∈ listStrays cfg := by
    split at hs
    · exact .inr hs
    · exact List.mem_append.mp hs
  rw [← hval]
  rcases hsource with hs | hs
  · have hping := (pingText_oneLine h.pingChannel).2
    have hlen := length_of_mem_straySettings hs
    exact ⟨by omega, .inl (by omega)⟩
  obtain ⟨t, ht, hs⟩ := List.mem_flatMap.mp hs
  have hlen := length_of_mem_straySettings hs
  rcases listSettings_short h ht with hshort | ⟨ch, htext, hname, hshort⟩
  · exact ⟨by omega, .inl (by omega)⟩
  · rw [htext] at hs
    exact ⟨by omega, (colon_of_mem_straySettings hs).imp_left fun hle => by omega⟩

/-- No stray value is a key: the hub's key keeps its bytes. -/
theorem storeAll_hubKey {vals : List Bytes} (h : ∀ v ∈ vals, v.length ≤ 32 ∨ (58 : UInt8) ∈ v) (old : Bytes × Bool) :
    (ConfigKey.backboneHubKey.storeAll vals old).1 = old.1 := by
  induction vals generalizing old with
  | nil => rfl
  | cons v vals ih =>
    have hstep : ((ConfigKey.backboneHubKey.store v old).getD old).1 = old.1 := by
      rw [ConfigKey.store]
      split
      · rfl
      split
      · rfl
      -- 64 characters are more than a name's, so there is a colon among them
      rename_i hlen
      have hcolon : (58 : UInt8) ∈ v := (h v List.mem_cons_self).resolve_left (by omega)
      have hnot : hex2bin 32 v = none := by
        cases hhex : hex2bin 32 v with
        | none => rfl
        | some key => exact absurd (hexval_of_mem_hex2bin hhex hcolon) (by decide)
      rw [hnot]
      rfl
    calc (ConfigKey.backboneHubKey.storeAll (v :: vals) old).1
        = (ConfigKey.backboneHubKey.storeAll vals ((ConfigKey.backboneHubKey.store v old).getD old)).1 := rfl
      _ = ((ConfigKey.backboneHubKey.store v old).getD old).1 := ih (fun v' hv' => h v' (List.mem_cons_of_mem v hv')) _
      _ = old.1 := hstep

/-- The last of some values for the key file is what is left, whatever was there. -/
theorem storeAll_keyFile {vals : List Bytes} (hne : vals ≠ []) (h : ∀ v ∈ vals, v.length ≤ 97) :
    ∃ last : Bytes, last.length ≤ 97 ∧ ∀ old, ConfigKey.keyFile.storeAll vals old = (last, true) := by
  obtain ⟨front, last, rfl⟩ : ∃ front last, vals = front ++ [last] :=
    ⟨vals.dropLast, vals.getLast hne, (List.dropLast_append_getLast hne).symm⟩
  refine ⟨snprintfS 256 last, ?_, fun old => ?_⟩
  · exact (List.length_take_le' _ _).trans (h last (List.mem_append_right _ List.mem_cons_self))
  · rw [ConfigKey.storeAll_append]
    rfl

/-- For a configuration made by any calls, whose text settings were all set to tame values that
fit: the file restores them exactly when `key_file` fits the buffer of `config_save`, the hub's
key is set or its bytes are still those of the defaults, and the lines that list values bring
along leave the texts as they are. -/
theorem configLoad_texts_iff (C : Crypto) {edits : List ConfigEdit}
    (hset : ∀ k ∈ textKeys, SetThrough C (configEdited C edits) k) :
    (configLoad C configDefaults (some (configSave (configEdited C edits)))).texts = (configEdited C edits).texts ↔
      (configEdited C edits).keyFile.length ≤ 127 ∧
        ((configEdited C edits).backboneHaveHubKey = true ∨
          (configEdited C edits).backboneHubKey = List.replicate 32 0) ∧
        StraysKeep (configEdited C edits) := by
  have hline : (configEdited C edits).OneLine False := configEdited_oneLine C fun _ _ hfalse => hfalse.elim
  generalize configEdited C edits = cfg at hset hline
  rcases (hset .keyFile (by decide)).tame (fun b v => { b with keyFile := v }) (fun _ _ => rfl) (fun _ _ => rfl)
    with ⟨hfileTame, -⟩
  have htame : IsTame cfg.keyFile := hfileTame
  have hhubKey : (cfg.backboneHaveHubKey = true ∨ cfg.backboneHubKey = List.replicate 32 0) ↔
      (if cfg.backboneHaveHubKey then cfg.backboneHubKey else List.replicate 32 0) = cfg.backboneHubKey := by
    cases cfg.backboneHaveHubKey with
    | true => simp
    | false => simp [eq_comm]
  -- where neither is cut or forgotten, the file's own lines give the texts
  have hown : cfg.keyFile.length ≤ 127 → (cfg.backboneHaveHubKey = true ∨ cfg.backboneHubKey = List.replicate 32 0) →
      ∀ k ∈ textKeys, k.field (ownTexts cfg) = k.field cfg.texts := by
    intro hlen hkey k hk
    cases k with
    | keyFile =>
      have hcut : snprintfS saveBuf cfg.keyFile = cfg.keyFile := List.take_of_length_le hlen
      show (readValue (snprintfS saveBuf cfg.keyFile), true) = (cfg.keyFile, true)
      rw [hcut, htame.readValue]
    | backboneHubKey => exact Prod.ext (hhubKey.mp hkey) rfl
    | _ => rfl
  constructor
  · intro hsame
    have hfield : ∀ k ∈ textKeys, k.storeAll (strayValues cfg k) (k.field (ownTexts cfg)) = k.field cfg.texts := by
      intro k hk
      rw [← configLoad_field hset hline hk, hsame]
    have hfile : cfg.keyFile.length ≤ 127 := by
      have hload := hfield .keyFile (by decide)
      by_cases hnone : strayValues cfg .keyFile = []
      · -- its own line was cut at the buffer
        rw [hnone] at hload
        have hread : readValue (snprintfS saveBuf cfg.keyFile) = cfg.keyFile := congrArg Prod.fst hload
        calc cfg.keyFile.length
            = (readValue (snprintfS saveBuf cfg.keyFile)).length := by rw [hread]
          _ ≤ (snprintfS saveBuf cfg.keyFile).length := length_readValue_le _
          _ ≤ 127 := List.length_take_le 127 cfg.keyFile
      · rcases storeAll_keyFile hnone fun v hv => (strayValues_short hline hv).1 with ⟨last, hlen, hall⟩
        rw [hall] at hload
        have hlast : last = cfg.keyFile := congrArg Prod.fst hload
        rw [← hlast]
        omega
    have hhub : cfg.backboneHaveHubKey = true ∨ cfg.backboneHubKey = List.replicate 32 0 := by
      have hshort : ∀ v ∈ strayValues cfg .backboneHubKey, v.length ≤ 32 ∨ (58 : UInt8) ∈ v := fun v hv =>
        (strayValues_short hline hv).2
      have hbytes := storeAll_hubKey hshort (ConfigKey.backboneHubKey.field (ownTexts cfg))
      rw [hfield .backboneHubKey (by decide)] at hbytes
      exact hhubKey.mpr hbytes.symm
    refine ⟨hfile, hhub, fun k hk => ?_⟩
    rw [← hown hfile hhub k hk, hfield k hk, hown hfile hhub k hk]
  · rintro ⟨hfile, hhub, hkeep⟩
    apply texts_ext
    intro k hk
    rw [configLoad_field hset hline hk, hown hfile hhub k hk, hkeep k hk]

/-- The defaults with a key file of another name, one call away from them. -/
def keyFileConfig (path : Bytes) : McConfig := { configDefaults with keyFile := path }

/-- Setting `key_file` stores the path. -/
theorem configEdited_keyFile (C : Crypto) {path : Bytes} (h : path.length < 256) :
    configEdited C [.call (.set (ConfigKey.text .keyFile) path)] = keyFileConfig path := by
  have hcut : snprintfS 256 path = path := by
    apply List.take_of_length_le
    omega
  show ((configSet C configDefaults (ConfigKey.text .keyFile) path).toOption.getD configDefaults) = _
  rw [configSet_text]
  show ({ configDefaults with keyFile := snprintfS 256 path } : McConfig) = _
  rw [hcut]
  rfl

/-- All other texts are those of the defaults. -/
theorem keyFileConfig_setThrough (C : Crypto) {path : Bytes} (htame : IsTame path) (h : path.length < 256) :
    ∀ k ∈ textKeys, SetThrough C (keyFileConfig path) k := by
  -- every other setting is what its own default makes of it
  have hdefault : ∀ k : ConfigKey, IsTame (keyText configDefaults k) → (keyText configDefaults k).length < k.size →
      setKey C configDefaults k (keyText configDefaults k) = .ok configDefaults →
      k.field configDefaults.texts = k.field (keyFileConfig path).texts → SetThrough C (keyFileConfig path) k := by
    intro k hval hlen hset hfield
    exact ⟨configDefaults, configDefaults, keyText configDefaults k, hval, hlen, (configSet_text ..).trans hset, hfield⟩
  intro k hk
  cases k with
  | keyFile =>
    have hcut : snprintfS 256 path = path := by
      apply List.take_of_length_le
      omega
    refine ⟨configDefaults, { configDefaults with keyFile := snprintfS 256 path }, path, htame, h,
      configSet_text .., ?_⟩
    rw [hcut]
    rfl
  | spiDev | gpioChip | name | linkMode | linkKey | linkPeer | backboneHost | backbonePolicyFile
  | backboneHubKey | aprsCall | aprsPasscode | aprsHost | aprsTocall | aprsSymbol | aprsNodeSymbol
  | aprsComment | webPassword => exact hdefault _ (by decide) (by decide) rfl rfl
  | _ => exact absurd hk (by decide)

/-- One call: the key file lies elsewhere. -/
def movedKeyFile : List ConfigEdit := [.call (.set (ConfigKey.text .keyFile) (lit "/etc/repeater.key"))]

/-- A short path: the texts are restored. -/
theorem configLoad_texts_iff_moved :
    (configLoad (.ofTable [] []) configDefaults
          (some (configSave (configEdited (.ofTable [] []) movedKeyFile)))).texts =
        (configEdited (.ofTable [] []) movedKeyFile).texts ↔
      (configEdited (.ofTable [] []) movedKeyFile).keyFile.length ≤ 127 ∧
        ((configEdited (.ofTable [] []) movedKeyFile).backboneHaveHubKey = true ∨
          (configEdited (.ofTable [] []) movedKeyFile).backboneHubKey = List.replicate 32 0) ∧
        StraysKeep (configEdited (.ofTable [] []) movedKeyFile) := by
  apply configLoad_texts_iff
  rw [movedKeyFile, configEdited_keyFile _ (by decide)]
  exact keyFileConfig_setThrough _ (by decide) (by decide)

/-- One call: a path of 128 bytes. -/
def longKeyFile : List ConfigEdit := [.call (.set (ConfigKey.text .keyFile) (List.replicate 128 107))]

/-- One call: a list entry with a line break in it. -/
def brokenEntry : List ConfigEdit := [.call (.set (ConfigKey.text .blacklist) (lit "a\nname = b"))]

/-- The texts were all set to tame values. -/
theorem brokenEntry_setThrough :
    ∀ k ∈ textKeys, SetThrough (.ofTable [] []) (configEdited (.ofTable [] []) brokenEntry) k := by
  intro k hk
  have htexts : (configEdited (.ofTable [] []) brokenEntry).texts = (keyFileConfig configDefaults.keyFile).texts := rfl
  have htame : IsTame configDefaults.keyFile := by decide
  rcases keyFileConfig_setThrough (.ofTable [] []) htame (by decide) k hk with ⟨base, base', val, htame, hlen, hok, hsame⟩
  exact ⟨base, base', val, htame, hlen, hok, by rw [hsame, htexts]⟩

/-- The path fits the field, not the buffer, and comes back without its last byte; the entry
brings a line along that sets the name. -/
theorem longKeyFile_cut :
    ((∀ e ∈ longKeyFile, e.SingleLine) ∧
      (∀ k ∈ textKeys, SetThrough (.ofTable [] []) (configEdited (.ofTable [] []) longKeyFile) k) ∧
      (configEdited (.ofTable [] []) longKeyFile).keyFile = List.replicate 128 107 ∧
      (configLoad (.ofTable [] []) configDefaults
        (some (configSave (configEdited (.ofTable [] []) longKeyFile)))).texts.keyFile =
          List.replicate 127 107) ∧
    (∀ k ∈ textKeys, SetThrough (.ofTable [] []) (configEdited (.ofTable [] []) brokenEntry) k) ∧
      (configEdited (.ofTable [] []) brokenEntry).name = lit "HamRepeater" ∧
      (configLoad (.ofTable [] []) configDefaults
        (some (configSave (configEdited (.ofTable [] []) brokenEntry)))).texts.name = lit "b" := by
  constructor
  · have hsingle : ∀ e ∈ longKeyFile, e.SingleLine := by
      intro e he
      rw [List.mem_singleton.mp he]
      show (10 : UInt8) ∉ List.replicate 128 107
      decide
    have htame : IsTame (List.replicate 128 107) := by decide
    have hset := keyFileConfig_setThrough (.ofTable [] []) htame (by simp)
    have hline : (configEdited (.ofTable [] []) longKeyFile).OneLine True :=
      configEdited_oneLine (.ofTable [] []) fun e he _ => hsingle e he
    have hfits : (configEdited (.ofTable [] []) longKeyFile).OneLine False :=
      configEdited_oneLine (.ofTable [] []) fun _ _ hfalse => hfalse.elim
    rw [longKeyFile, configEdited_keyFile _ (by simp)] at hline hfits
    rw [longKeyFile, configEdited_keyFile _ (by simp)]
    refine ⟨hsingle, hset, rfl, ?_⟩
    have hnone : strayValues (keyFileConfig (List.replicate 128 107)) .keyFile = [] :=
      strayValues_of_oneLine hline _
    have hfile := configLoad_field hset hfits (k := .keyFile) (by decide)
    rw [hnone] at hfile
    have hcut : readValue (snprintfS saveBuf (List.replicate 128 107)) = List.replicate 127 107 := by
      decide
    exact (congrArg Prod.fst hfile).trans hcut
  · refine ⟨brokenEntry_setThrough, by decide, ?_⟩
    have hline : (configEdited (.ofTable [] []) brokenEntry).OneLine False :=
      configEdited_oneLine (.ofTable [] []) fun _ _ hfalse => hfalse.elim
    have hname := configLoad_field brokenEntry_setThrough hline (k := .name) (by decide)
    have hstray : ConfigKey.name.storeAll (strayValues (configEdited (.ofTable [] []) brokenEntry) .name)
        (ConfigKey.name.field (ownTexts (configEdited (.ofTable [] []) brokenEntry))) = (lit "b", true) := by
      decide
    rw [hstray] at hname
    exact congrArg Prod.fst hname

end Meshcore
