import MeshcoreRepeater.Config.Set
import MeshcoreRepeater.Lib.Lines

/-! # The configuration file

`config_save` and `config_load`. A saved file is a comment and one line
`key = value` for each setting; `savedSettings` lists what is written, in order.
The reader takes the lines as `fgets` gives them.

* `loadLine_settingLine`: a written line sets its key to the value as read.
* `fileLines_savedLines`: how a saved file is read, line breaks in values included.
-/

namespace Meshcore

open ByteLib

/-! ## Saving -/

/-- `KEYS[]`. -/
def savedKeys : List ConfigKey :=
  [.frequency, .bandwidth, .spreadingFactor, .codingRate, .txPower,
    .preamble, .syncWord, .crc, .iqInverted, .useCad, .tcxoVoltage, .ocp,
    .spiDev, .spiSpeed, .gpioChip, .gpioReset, .gpioBusy, .gpioDio1,
    .gpioNss, .rfSwitch, .gpioRxen, .gpioTxen, .useLeds, .gpioLedOn,
    .gpioLedData, .name, .keyFile, .location, .latitude,
    .longitude, .advertInterval, .forward, .pingPong, .timeofday, .controlPort,
    .aprsEnable, .aprsCall, .aprsPasscode, .aprsHost, .aprsPort,
    .aprsTocall, .aprsSymbol, .aprsNodeSymbol, .aprsComment,
    .aprsAltitude, .aprsBeaconInterval, .aprsNodeRate,
    .role, .hotspotPowerHigh, .hotspotPowerLow, .hotspotAwake, .webPort, .mbox,
    .linkMode, .linkPeer, .linkPort,
    .backbone, .backboneHost, .backbonePort, .backboneHubKey,
    .backboneObserve, .backboneBridge, .backboneRate, .backbonePolicy,
    .backbonePolicyFile]

/-- The buffer `config_save` reads keys into. -/
def saveBuf : Nat := 128

/-- A `#name` without its `#`, which would start a comment on reload. -/
def bareName (name : Bytes) : Bytes := if name.head? = some 35 then name.drop 1 else name

/-- `public_channel` lines carry the key in hex, behind the name if there is one. -/
def channelText (ch : McPubChannel) : Bytes :=
  let hex := hexText (ch.secret.read 0 ch.secretLen.toNat)
  if ch.name = [] then hex else ch.name ++ 58 :: hex

/-- The settings `config_save` writes, in order. -/
def savedSettings (cfg : McConfig) : List (ConfigKey × Bytes) :=
  (savedKeys.map fun k => (k, snprintfS saveBuf (keyText cfg k))) ++
    [(ConfigKey.pingChannel, if cfg.pingChannel = [] then lit "any" else bareName cfg.pingChannel)] ++
    (if cfg.linkKey = [] then [] else [(ConfigKey.linkKey, cfg.linkKey)]) ++
    (if cfg.webPassword = [] then [] else [(ConfigKey.webPassword, cfg.webPassword)]) ++
    ((cfg.publicChannels.filter fun ch => !ch.derived).map fun ch =>
      (ConfigKey.publicChannel, channelText ch)) ++
    (cfg.blacklist.map fun name => (ConfigKey.blacklist, name)) ++
    (cfg.affinity.map fun name => (ConfigKey.affinity, name)) ++
    (cfg.home.map fun name => (ConfigKey.home, name)) ++
    (cfg.probeAllow.map fun name => (ConfigKey.probeAllow, name)) ++
    ((cfg.rooms.filter fun r => !r.hub).map fun r => (ConfigKey.room, bareName r.name))

/-- `fprintf(f, "%-18s = %s\n", key, val)`. -/
def settingLine (key val : Bytes) : Bytes :=
  key ++ List.replicate (18 - key.length) 32 ++ lit " = " ++ val ++ [10]

/-- The lines `config_save` writes. -/
def savedLines (cfg : McConfig) : List Bytes :=
  (lit "# MeshCore repeater configuration" ++ [10]) ::
    (savedSettings cfg).map fun s => settingLine s.1.text s.2

/-- `config_save`: the file's bytes. -/
def configSave (cfg : McConfig) : Bytes := (savedLines cfg).flatten

/-! ## Loading -/

/-- The buffer `config_load` reads lines into. -/
def loadBuf : Nat := 1024

/-- The lines `config_load` looks at. -/
def fileLines (file : Bytes) : List Bytes := readLines loadBuf file.length file

/-- The key and the value of a line, without its comment; `none` for a line that
sets nothing. -/
def parseSetting (line : Bytes) : Option (Bytes × Bytes) :=
  let p := skipBlanks (line.takeWhile (· ≠ 35))
  if p.contains 61 then
    let key := rtrim isBlank (p.takeWhile (· ≠ 61))
    let val := rtrim isBlankOrEol (skipBlanks ((p.dropWhile (· ≠ 61)).drop 1))
    if key = [] then none else some (key, val)
  else none

/-- One line of a file: an error of `config_set` is only logged. -/
def loadLine (C : Crypto) (cfg : McConfig) (line : Bytes) : McConfig :=
  match parseSetting line with
  | some (key, val) => (configSet C cfg key val).toOption.getD cfg
  | none => cfg

/-- The list settings are the file's alone. -/
def clearLists (cfg : McConfig) : McConfig :=
  { cfg with publicChannels := [], rooms := [], blacklist := [], affinity := [], home := [],
             probeAllow := [] }

/-- `config_load`, from a file or, when it cannot be opened, without one. -/
def configLoad (C : Crypto) (cfg : McConfig) (file : Option Bytes) : McConfig :=
  let cfg := match file with
    | some file => (fileLines file).foldl (loadLine C) (clearLists cfg)
    | none => cfg
  configPolicyMerge C (configEnsurePingChannel C cfg)

/-! ## A written line is read back -/

/-- What a reader makes of a value: no comment, no blanks around it. -/
def readValue (val : Bytes) : Bytes := rtrim isBlankOrEol (skipBlanks (val.takeWhile (· ≠ 35)))

/-- No byte of a value that a reader would cut or trim. -/
def IsPlain (val : Bytes) : Prop := ∀ c ∈ val, c ≠ 35 ∧ isBlankOrEol c = false

-- Decided byte by byte of the value, not over all 256 bytes.
instance (val : Bytes) : Decidable (IsPlain val) :=
  decidable_of_iff (val.all fun c => decide (c ≠ 35 ∧ isBlankOrEol c = false)) (by simp [IsPlain])

theorem readValue_of_isPlain {val : Bytes} (h : IsPlain val) : readValue val = val := by
  have htake : val.takeWhile (· ≠ 35) = val :=
    List.takeWhile_eq_self_iff.mpr fun c hc => by simpa using (h c hc).1
  have hskip : skipBlanks val = val := by
    refine skipBlanks_of_head fun c hc => ?_
    exact isBlank_of_isBlankOrEol (h c (List.mem_of_mem_head? hc)).2
  rw [readValue, htake, hskip, rtrim_of_forall fun c hc => (h c hc).2]

theorem length_readValue_le (val : Bytes) : (readValue val).length ≤ val.length :=
  calc (readValue val).length
      ≤ (skipBlanks (val.takeWhile (· ≠ 35))).length := (List.rdropWhile_prefix _ _).length_le
    _ ≤ (val.takeWhile (· ≠ 35)).length := (List.dropWhile_suffix _).length_le
    _ ≤ val.length := (List.takeWhile_prefix _).length_le

theorem ne_of_mem_readValue {val : Bytes} {c : UInt8} (h : c ∈ readValue val) : c ≠ 35 := by
  have htake : c ∈ val.takeWhile (· ≠ 35) :=
    (List.dropWhile_suffix _).subset ((List.rdropWhile_prefix _ _).subset h)
  simpa using List.mem_takeWhile_imp htake

theorem skipBlanks_readValue (val : Bytes) : skipBlanks (readValue val) = readValue val := by
  exact skipBlanks_of_head fun c hc => isBlank_of_head_skipBlanks (head_of_rtrim hc)

/-- A value as read has nothing left to trim. -/
theorem trimName_readValue {val : Bytes} {outsz : Nat} (h : val.length < outsz) :
    trimName outsz (readValue val) = readValue val := by
  have hlen := length_readValue_le val
  rw [trimName, skipBlanks_readValue, snprintfS, List.take_of_length_le (by omega)]
  exact rtrim_rtrim _ _

namespace ConfigKey

theorem text_ne_nil (k : ConfigKey) : k.text ≠ [] := by cases k <;> decide

/-- A key's text survives the reader. -/
theorem text_bytes (k : ConfigKey) :
    ∀ c ∈ k.text, c ≠ 35 ∧ c ≠ 61 ∧ isBlank c = false := by
  have h : ∀ k ∈ all, (k.text.all fun c => decide (c ≠ 35 ∧ c ≠ 61 ∧ isBlank c = false)) = true := by
    decide
  intro c hc
  exact of_decide_eq_true (List.all_eq_true.mp (h k (mem_all k)) c hc)

end ConfigKey

theorem takeWhile_line_end (val : Bytes) :
    rtrim isBlankOrEol (skipBlanks ((val ++ [10]).takeWhile (· ≠ 35))) = readValue val := by
  by_cases hmem : ∀ c ∈ val, (decide (c ≠ 35)) = true
  · rw [List.takeWhile_append_of_pos hmem, readValue, List.takeWhile_eq_self_iff.mpr hmem]
    exact rtrim_skipBlanks_concat val
  · rw [List.takeWhile_append, if_neg]
    · rfl
    · intro hlen
      have hself := (List.takeWhile_prefix (fun c => decide (c ≠ 35)) (l := val)).eq_of_length hlen
      exact hmem (List.takeWhile_eq_self_iff.mp hself)

theorem parseSetting_settingLine (k : ConfigKey) (val : Bytes) :
    parseSetting (settingLine k.text val) = some (k.text, readValue val) := by
  have hkey := k.text_bytes
  -- the key, padded, up to the equals sign
  obtain ⟨pad, hpad, hline⟩ : ∃ pad : Bytes, (∀ c ∈ pad, c = 32) ∧
      settingLine k.text val = k.text ++ pad ++ 61 :: 32 :: (val ++ [10]) := by
    refine ⟨List.replicate (18 - k.text.length) 32 ++ [32], ?_, ?_⟩
    · intro c hc
      rcases List.mem_append.mp hc with hrep | hlast
      · exact (List.mem_replicate.mp hrep).2
      · simpa using hlast
    · simp [settingLine, lit]
  have hfront : ∀ c ∈ k.text ++ pad, c ≠ 35 ∧ c ≠ 61 := by
    intro c hc
    rcases List.mem_append.mp hc with hk | hp
    · exact ⟨(hkey c hk).1, (hkey c hk).2.1⟩
    · rw [hpad c hp]
      decide
  have hcomment : (settingLine k.text val).takeWhile (· ≠ 35) =
      k.text ++ pad ++ 61 :: 32 :: (val ++ [10]).takeWhile (· ≠ 35) := by
    rw [hline, List.takeWhile_append_of_pos fun c hc => by simpa using (hfront c hc).1]
    simp
  have hskip : ∀ rest : Bytes, skipBlanks (k.text ++ pad ++ rest) = k.text ++ pad ++ rest := by
    intro rest
    refine skipBlanks_of_head fun c hc => ?_
    rw [List.append_assoc, List.head?_append_of_ne_nil _ k.text_ne_nil] at hc
    exact (hkey c (List.mem_of_mem_head? hc)).2.2
  have heq : ∀ c ∈ k.text ++ pad, decide (c ≠ 61) = true := fun c hc => by
    simpa using (hfront c hc).2
  have hname : rtrim isBlank (k.text ++ pad) = k.text := by
    rw [rtrim_append_of_pos _ fun c hc => by rw [hpad c hc]; rfl]
    exact rtrim_of_forall fun c hc => (hkey c hc).2.2
  have hval : rtrim isBlankOrEol (skipBlanks (32 :: (val ++ [10]).takeWhile (· ≠ 35))) =
      readValue val := takeWhile_line_end val
  have hsome : ∀ rest : Bytes, (k.text ++ pad ++ 61 :: rest).contains 61 = true := by simp
  have hbefore : ∀ rest : Bytes, (k.text ++ pad ++ 61 :: rest).takeWhile (· ≠ 61) = k.text ++ pad := by
    intro rest
    rw [List.takeWhile_append_of_pos heq]
    simp
  have hafter : ∀ rest : Bytes, (k.text ++ pad ++ 61 :: rest).dropWhile (· ≠ 61) = 61 :: rest := by
    intro rest
    rw [List.dropWhile_append_of_pos heq]
    simp
  simp only [parseSetting, hcomment, hskip, hsome, if_true, hbefore, hafter, hname, List.drop_one,
    List.tail_cons, hval, if_neg k.text_ne_nil]

/-- A written line sets its key to the value as read. -/
theorem loadLine_settingLine (C : Crypto) (cfg : McConfig) (k : ConfigKey) (val : Bytes) :
    loadLine C cfg (settingLine k.text val) =
      (setKey C cfg k (readValue val)).toOption.getD cfg := by
  simp only [loadLine, parseSetting_settingLine, configSet_text]

/-- Lines whose effect on a part of the configuration is known, one after the other. -/
theorem foldl_settingLines {β : Type} {C : Crypto} (view : McConfig → β) (effect : ConfigKey × Bytes → β → β)
    (settings : List (ConfigKey × Bytes))
    (h : ∀ s ∈ settings, ∀ base, view (loadLine C base (settingLine s.1.text s.2)) = effect s (view base))
    (base : McConfig) :
    view ((settings.map fun s => settingLine s.1.text s.2).foldl (loadLine C) base) =
      settings.foldl (fun b s => effect s b) (view base) := by
  induction settings generalizing base with
  | nil => rfl
  | cons s settings ih =>
    rw [List.map_cons, List.foldl_cons, List.foldl_cons,
      ih (fun s' hs' => h s' (List.mem_cons_of_mem s hs')), h s List.mem_cons_self]

theorem loadLine_comment (C : Crypto) (cfg : McConfig) (rest : Bytes) :
    loadLine C cfg (35 :: rest) = cfg := rfl

/-- What is written in front of a value holds no line break, and leaves room for it. -/
theorem settingLine_front (k : ConfigKey) :
    ∃ front : Bytes, (10 : UInt8) ∉ front ∧ front.length ≤ 41 ∧ ∀ v, settingLine k.text v = front ++ (v ++ [10]) := by
  have hkey : (10 : UInt8) ∉ k.text ∧ k.text.length ≤ 20 := by
    have hall : ∀ k ∈ ConfigKey.all, (10 : UInt8) ∉ k.text ∧ k.text.length ≤ 20 := by
      decide
    exact hall _ k.mem_all
  have hrep : (10 : UInt8) ∉ List.replicate (18 - k.text.length) (32 : UInt8) :=
    fun hc => absurd (List.mem_replicate.mp hc).2 (by decide)
  have hsep : (10 : UInt8) ∉ lit " = " ∧ (lit " = ").length = 3 := by decide
  refine ⟨k.text ++ List.replicate (18 - k.text.length) 32 ++ lit " = ", ?_, ?_, fun v => ?_⟩
  · simp [hkey.1, hrep, hsep.1]
  · have := hkey.2
    simp only [List.length_append, List.length_replicate, hsep.2]
    omega
  · rw [settingLine, List.append_assoc]

/-- A saved file is read line by line, whatever line breaks its values hold. -/
theorem fileLines_savedLines {cfg : McConfig} (h : ∀ s ∈ savedSettings cfg, s.2.length ≤ 512) :
    fileLines (configSave cfg) = (savedLines cfg).flatMap rawLines := by
  have hlines : ∀ line ∈ (savedLines cfg).flatMap rawLines, IsLine line ∧ line.length < loadBuf := by
    intro line hline
    rcases List.mem_flatMap.mp hline with ⟨written, hwritten, hline⟩
    rcases List.mem_cons.mp hwritten with rfl | hwritten
    · have hone : rawLines (lit "# MeshCore repeater configuration" ++ [10]) =
          [lit "# MeshCore repeater configuration" ++ [10]] := rawLines_of_isLine ⟨_, rfl, by decide⟩
      rw [hone] at hline
      rw [List.mem_singleton.mp hline]
      exact ⟨⟨lit "# MeshCore repeater configuration", rfl, by decide⟩, by decide⟩
    obtain ⟨s, hs, rfl⟩ := List.mem_map.mp hwritten
    rcases settingLine_front s.1 with ⟨front, -, hlen, heq⟩
    rw [heq, ← List.append_assoc] at hline
    refine ⟨isLine_of_mem_rawLines (endsLine_concat _) hline, ?_⟩
    have hle := length_le_of_mem_rawLines hline
    have hval := h s hs
    rw [List.length_append, List.length_append, List.length_singleton] at hle
    rw [loadBuf]
    omega
  have hflat : configSave cfg = ((savedLines cfg).flatMap rawLines).flatten := by
    rw [configSave]
    induction savedLines cfg with
    | nil => rfl
    | cons line lines ih =>
      rw [List.flatten_cons, List.flatMap_cons, List.flatten_append, flatten_rawLines, ih]
  rw [hflat]
  exact readLines_flatten hlines _ (length_le_flatten fun line hline => (hlines line hline).1)

/-- A saved file holds the lines that were written, when each setting is one short
line. -/
theorem fileLines_configSave {cfg : McConfig}
    (h : ∀ s ∈ savedSettings cfg, (10 : UInt8) ∉ s.2 ∧ s.2.length ≤ 512) :
    fileLines (configSave cfg) = savedLines cfg := by
  have hline : ∀ line ∈ savedLines cfg, rawLines line = [line] := by
    intro line hline
    refine rawLines_of_isLine ?_
    rcases List.mem_cons.mp hline with rfl | hline
    · exact ⟨lit "# MeshCore repeater configuration", rfl, by decide⟩
    obtain ⟨s, hs, rfl⟩ := List.mem_map.mp hline
    rcases settingLine_front s.1 with ⟨front, hbreak, -, heq⟩
    refine ⟨front ++ s.2, by rw [heq, List.append_assoc], fun hmem => ?_⟩
    rcases List.mem_append.mp hmem with hmem | hmem
    · exact hbreak hmem
    · exact (h s hs).1 hmem
  rw [fileLines_savedLines fun s hs => (h s hs).2, List.flatMap_congr hline]
  exact List.flatMap_singleton' _

end Meshcore
