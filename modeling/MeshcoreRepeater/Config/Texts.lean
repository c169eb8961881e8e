import MeshcoreRepeater.Config.OneLine

/-! # Saving and loading the text settings

A text that the reader would neither cut nor trim comes back, unless it outgrows the buffer
all keys share: only `key_file` is longer, and `configLoad_texts_iff` says exactly when the
text settings are restored.

* `IsTame.readValue`: a reader takes a tame value as it is.
* `restoresText_savedKeys`: the line of each key does what `restoreText` says.
* `loadSettings_keys`: what the lines of `KEYS[]` make of the text settings.
-/

namespace Meshcore

open ByteLib

variable {C : Crypto} {cfg cfg' : McConfig}

/-! ## One line at a time -/

/-- No `#`, no line break, and no blank at either end. -/
structure IsTame (v : Bytes) : Prop where
  noHash : (35 : UInt8) ∉ v
  noReturn : (13 : UInt8) ∉ v
  noBreak : (10 : UInt8) ∉ v
  head : ∀ c, v.head? = some c → isBlank c = false
  last : ∀ c, v.getLast? = some c → isBlank c = false

instance (v : Bytes) : Decidable (IsTame v) :=
  have hends : ∀ o : Option UInt8, (o.all fun c => !isBlank c) = true ↔ ∀ c, o = some c → isBlank c = false := by
    intro o
    cases o <;> simp
  decidable_of_iff ((35 : UInt8) ∉ v ∧ (13 : UInt8) ∉ v ∧ (10 : UInt8) ∉ v ∧
      (v.head?.all fun c => !isBlank c) = true ∧ (v.getLast?.all fun c => !isBlank c) = true) <| by
    rw [hends, hends]
    constructor
    · rintro ⟨h₁, h₂, h₃, h₄, h₅⟩
      exact ⟨h₁, h₂, h₃, h₄, h₅⟩
    · rintro ⟨h₁, h₂, h₃, h₄, h₅⟩
      exact ⟨h₁, h₂, h₃, h₄, h₅⟩

/-- A reader takes a tame value as it is. -/
theorem IsTame.readValue {v : Bytes} (h : IsTame v) : readValue v = v := by
  have htake : v.takeWhile (· ≠ 35) = v := by
    apply List.takeWhile_eq_self_iff.mpr
    intro c hc
    have hne : c ≠ 35 := by
      rintro rfl
      exact h.noHash hc
    simpa using hne
  rw [Meshcore.readValue, htake, skipBlanks_of_head h.head]
  apply rtrim_eq_self
  intro c hc
  have hmem := List.mem_of_getLast? hc
  have hne : ∀ x : UInt8, x ∉ v → c ≠ x := by
    rintro x hx rfl
    exact hx hmem
  simp [isBlankOrEol, h.last c hc, hne 13 h.noReturn, hne 10 h.noBreak]

/-- The setting of `k` is what `config_set` makes of a tame value that fits. -/
def SetThrough (C : Crypto) (cfg : McConfig) (k : ConfigKey) : Prop :=
  ∃ base base' val, IsTame val ∧ val.length < k.size ∧ configSet C base k.text val = .ok base' ∧
    k.field base'.texts = k.field cfg.texts

/-- What the line of `k` in the file saved from `cfg` does to the text settings. -/
def ConfigKey.restoreText (k : ConfigKey) (cfg : McConfig) (s : TextSettings) : TextSettings :=
  match k with
  | .spiDev => { s with spiDev := cfg.spiDev }
  | .gpioChip => { s with gpioChip := cfg.gpioChip }
  | .name => { s with name := cfg.name }
  -- all keys share one buffer, which is shorter than this field
  | .keyFile => { s with keyFile := readValue (snprintfS saveBuf cfg.keyFile) }
  | .linkMode => { s with linkMode := cfg.linkMode }
  | .linkPeer => { s with linkPeer := cfg.linkPeer }
  | .backboneHost => { s with backboneHost := cfg.backboneHost }
  | .backbonePolicyFile => { s with backbonePolicyFile := cfg.backbonePolicyFile }
  | .backboneHubKey =>
    { s with
      backboneHaveHubKey := cfg.backboneHaveHubKey
      backboneHubKey := if cfg.backboneHaveHubKey then cfg.backboneHubKey else s.backboneHubKey }
  | .aprsCall => { s with aprsCall := cfg.aprsCall }
  | .aprsPasscode => { s with aprsPasscode := cfg.aprsPasscode }
  | .aprsHost => { s with aprsHost := cfg.aprsHost }
  | .aprsTocall => { s with aprsTocall := cfg.aprsTocall }
  | .aprsSymbol => { s with aprsSymbol := cfg.aprsSymbol }
  | .aprsNodeSymbol => { s with aprsNodeSymbol := cfg.aprsNodeSymbol }
  | .aprsComment => { s with aprsComment := cfg.aprsComment }
  | _ => s

/-- Setting `k`, to whatever value, leaves the text settings alone. -/
def KeepsTexts (C : Crypto) (k : ConfigKey) : Prop :=
  ∀ base val base', setKey C base k val = .ok base' → base'.texts = base.texts

/-- The keys of numbers, switches and lists. -/
theorem keepsTexts {k : ConfigKey} (hk : k ∉ textKeys) : KeepsTexts C k := by
  intro base val base' hset
  cases k with
  | frequency | bandwidth | tcxoVoltage | aprsAltitude | latitude | longitude
  | crc | iqInverted | useCad | useLeds | location | forward | pingPong | timeofday | aprsEnable
  | backbone | backboneObserve | backboneBridge | backbonePolicy
  | spreadingFactor | codingRate | txPower | preamble | ocp | backbonePort | backboneRate
  | hotspotPowerHigh | hotspotPowerLow
  | spiSpeed | gpioReset | gpioBusy | gpioDio1 | gpioNss | gpioRxen | gpioTxen | gpioLedOn
  | gpioLedData | advertInterval | aprsBeaconInterval | aprsNodeRate | hotspotAwake
  | controlPort | aprsPort | webPort | linkPort | affinity | home | probeAllow =>
    obtain ⟨x, -, rfl⟩ := setWith_ok hset
    rfl
  | rfSwitch =>
    rcases setRfSwitch_ok hset with ⟨dio2, rfl⟩
    rfl
  | role =>
    rcases setRole_ok hset with ⟨role, rfl⟩
    rfl
  | syncWord =>
    rcases setSyncWord_ok hset with ⟨w, rfl⟩
    rfl
  | pingChannel =>
    obtain ⟨ch, -, rfl⟩ := setPingChannel_normal hset
    rfl
  | blacklist =>
    obtain ⟨⟨already, x⟩, hadd, rfl⟩ := setWith_ok hset
    obtain ⟨list, rfl⟩ := configBlacklistAdd_tables hadd
    rfl
  | room =>
    obtain ⟨x, hadd, rfl⟩ := setWith_ok hset
    obtain ⟨rooms, chans, rfl⟩ := addRoomEx_tables hadd
    rfl
  | publicChannel =>
    obtain ⟨x, hadd, rfl⟩ := setWith_ok hset
    obtain ⟨chans, rfl⟩ := addPublicChannel_tables hadd
    rfl
  | mbox =>
    obtain ⟨chans, b, rfl⟩ := setMbox_tables hset
    rfl
  | spiDev | gpioChip | name | keyFile | linkMode | linkKey | linkPeer | backboneHost | backbonePolicyFile
  | backboneHubKey | aprsCall | aprsPasscode | aprsHost | aprsTocall | aprsSymbol | aprsNodeSymbol
  | aprsComment | webPassword => exact absurd (by decide) hk

/-- A line of a key that keeps the texts keeps them, set or refused. -/
theorem loadLine_keepsTexts {k : ConfigKey} (hk : k ∉ textKeys) (base : McConfig) (val : Bytes) :
    (loadLine C base (settingLine k.text val)).texts = base.texts := by
  rw [loadLine_settingLine]
  cases hset : setKey C base k (readValue val) with
  | error e => rfl
  | ok base' => exact keepsTexts hk _ _ _ hset

section
variable {k : ConfigKey}

/-- The array of an ordinary text key holds the tame value it was set to. -/
theorem SetThrough.tame (h : SetThrough C cfg k) (put : McConfig → Bytes → McConfig)
    (hset : ∀ base val, setKey C base k val = setText k.size val (put base))
    (hfield : ∀ base val, k.field (put base val).texts = (val, true)) :
    IsTame (k.field cfg.texts).1 ∧ (k.field cfg.texts).1.length < k.size := by
  rcases h with ⟨base, base', val, htame, hlen, hok, hsame⟩
  rw [configSet_text, hset] at hok
  cases hok
  have hcut : snprintfS k.size val = val := by
    apply List.take_of_length_le
    omega
  rw [hcut, hfield] at hsame
  rw [← hsame]
  exact ⟨htame, hlen⟩

/-- The line of `k` does what `restoreText` says. -/
def RestoresText (C : Crypto) (cfg : McConfig) (k : ConfigKey) : Prop :=
  ∀ base : McConfig,
    (loadLine C base (settingLine k.text (snprintfS saveBuf (keyText cfg k)))).texts =
      k.restoreText cfg base.texts

/-- The ordinary text keys. -/
theorem SetThrough.restores (h : SetThrough C cfg k) (put : McConfig → Bytes → McConfig)
    (hset : ∀ base val, setKey C base k val = setText k.size val (put base))
    (hfield : ∀ base val, k.field (put base val).texts = (val, true))
    (htext : keyText cfg k = (k.field cfg.texts).1) (hsize : k.size ≤ saveBuf)
    (hput : ∀ base, (put base (k.field cfg.texts).1).texts = k.restoreText cfg base.texts) :
    RestoresText C cfg k := by
  intro base
  rcases h.tame put hset hfield with ⟨htame, hlen⟩
  have hcut : snprintfS saveBuf (k.field cfg.texts).1 = (k.field cfg.texts).1 := by
    apply List.take_of_length_le
    omega
  have hstore : snprintfS k.size (k.field cfg.texts).1 = (k.field cfg.texts).1 := by
    apply List.take_of_length_le
    omega
  rw [htext, hcut, loadLine_settingLine, htame.readValue, hset, setText, hstore]
  exact hput base

/-- `key_file` comes back as the shared buffer has it. -/
theorem restoresText_keyFile (C : Crypto) (cfg : McConfig) : RestoresText C cfg .keyFile := by
  intro base
  have hbuf : (snprintfS saveBuf cfg.keyFile).length ≤ 127 := by
    show (List.take 127 cfg.keyFile).length ≤ 127
    exact List.length_take_le _ _
  have hcut : snprintfS 256 (readValue (snprintfS saveBuf cfg.keyFile)) =
      readValue (snprintfS saveBuf cfg.keyFile) := by
    apply List.take_of_length_le
    have := length_readValue_le (snprintfS saveBuf cfg.keyFile)
    omega
  rw [loadLine_settingLine]
  show ({ base with keyFile := snprintfS 256 (readValue (snprintfS saveBuf cfg.keyFile)) } : McConfig).texts = _
  rw [hcut]
  rfl

/-- `link_mode` is set to a word, in whatever case. -/
theorem restoresText_linkMode (h : SetThrough C cfg .linkMode) : RestoresText C cfg .linkMode := by
  intro base
  rcases h with ⟨base₀, base', val, -, -, hok, hsame⟩
  rw [configSet_text] at hok
  obtain ⟨mode, hmode, rfl⟩ := setLinkMode_word hok
  have heq : mode = cfg.linkMode := (Prod.mk.inj hsame).1
  have hall : ∀ m ∈ [lit "off", lit "rx", lit "tx"], readValue (snprintfS saveBuf m) = m ∧
      (strcaseEq m (lit "off") || strcaseEq m (lit "rx") || strcaseEq m (lit "tx")) = true ∧
      (snprintfS 8 m).map tolower = m := by decide
  obtain ⟨hread, hword, hstore⟩ := hall mode hmode
  rw [loadLine_settingLine]
  show ((setLinkMode base (readValue (snprintfS saveBuf cfg.linkMode))).toOption.getD base).texts = _
  rw [← heq, hread, setLinkMode, if_pos hword, hstore, heq]
  rfl

/-- `backbone_policy_file` is checked for its length, then stored. -/
theorem restoresText_policyFile (h : SetThrough C cfg .backbonePolicyFile) :
    RestoresText C cfg .backbonePolicyFile := by
  intro base
  rcases h with ⟨base₀, base', val, htame, hlen, hok, hsame⟩
  rw [configSet_text] at hok
  have hlen' : val.length < 128 := hlen
  have hcut : snprintfS 128 val = val := by
    apply List.take_of_length_le
    omega
  rcases setPolicyFile_ok hok with ⟨hfits, rfl⟩
  have heq : val = cfg.backbonePolicyFile := by
    rw [← hcut]
    exact (Prod.mk.inj hsame).1
  rw [loadLine_settingLine]
  show ((setPolicyFile base (readValue (snprintfS 128 cfg.backbonePolicyFile))).toOption.getD base).texts = _
  rw [← heq, hcut, htame.readValue, setPolicyFile, if_neg hfits, hcut, heq]
  rfl

/-- The hub's key is written in hex, or left empty. -/
theorem restoresText_hubKey (h : SetThrough C cfg .backboneHubKey) : RestoresText C cfg .backboneHubKey := by
  intro base
  have hkey : cfg.backboneHaveHubKey = true → cfg.backboneHubKey.length = 32 := by
    intro hhave
    rcases h with ⟨base₀, base', val, -, -, hok, hsame⟩
    obtain ⟨hbytes, hflag⟩ := Prod.mk.inj hsame
    have hflag' : base'.backboneHaveHubKey = true := hflag.trans hhave
    rw [configSet_text] at hok
    rcases setHubKey_ok hok with ⟨key, have_, hhex, -, hdigits, rfl⟩
    have hlen := length_of_hex2bin (hhex hflag')
    have hdigits' := hdigits hflag'
    have heq : key = cfg.backboneHubKey := hbytes
    rw [← heq]
    omega
  rw [loadLine_settingLine]
  show ((setHubKey base (readValue (snprintfS saveBuf
    (if cfg.backboneHaveHubKey then hexText cfg.backboneHubKey else [])))).toOption.getD base).texts = _
  cases hhave : cfg.backboneHaveHubKey with
  | false =>
    show ((setHubKey base []).toOption.getD base).texts = _
    simp [setHubKey, ConfigKey.restoreText, hhave, Except.toOption, McConfig.texts]
  | true =>
    have h32 := hkey hhave
    have hlen : (hexText cfg.backboneHubKey).length = 64 := by rw [length_hexText, h32]
    have hcut : snprintfS saveBuf (hexText cfg.backboneHubKey) = hexText cfg.backboneHubKey := by
      apply List.take_of_length_le
      rw [hlen]
      decide
    have hne : hexText cfg.backboneHubKey ≠ [] := by
      intro hnil
      simp [hnil] at hlen
    rw [if_pos rfl, hcut, readValue_of_isPlain (isPlain_hexText _), setHubKey, if_neg hne,
      if_neg (by simp [hlen]), hex2bin_hexText h32.le, setWith]
    simp [ConfigKey.restoreText, hhave, Except.toOption, McConfig.texts]

end

/-- Every line of `KEYS[]` does what `restoreText` says. -/
theorem restoresText_savedKeys (h : ∀ k ∈ textKeys, SetThrough C cfg k) :
    ∀ k ∈ savedKeys, RestoresText C cfg k := by
  intro k hk
  by_cases htext : k ∈ textKeys
  swap
  · -- no text setting: nothing is to be restored
    have hid : ∀ k ∈ savedKeys, k ∉ textKeys → ∀ s, k.restoreText cfg s = s := by
      intro k hk hno s
      -- the ordinary text keys, then the four with a setter of their own
      cases k with
      | spiDev | gpioChip | name | keyFile | linkMode | linkKey | linkPeer | backboneHost
      | backbonePolicyFile | backboneHubKey | aprsCall | aprsPasscode | aprsHost | aprsTocall | aprsSymbol
      | aprsNodeSymbol | aprsComment | webPassword => exact absurd (by decide) hno
      | _ => rfl
    intro base
    rw [loadLine_keepsTexts htext, hid k hk htext]
  have hset := h k htext
  cases k with
  | spiDev =>
    exact hset.restores (fun b v => { b with spiDev := v }) (fun _ _ => rfl) (fun _ _ => rfl) rfl (by decide)
      fun _ => rfl
  | gpioChip =>
    exact hset.restores (fun b v => { b with gpioChip := v }) (fun _ _ => rfl) (fun _ _ => rfl) rfl (by decide)
      fun _ => rfl
  | name =>
    exact hset.restores (fun b v => { b with name := v }) (fun _ _ => rfl) (fun _ _ => rfl) rfl (by decide)
      fun _ => rfl
  | linkPeer =>
    exact hset.restores (fun b v => { b with linkPeer := v }) (fun _ _ => rfl) (fun _ _ => rfl) rfl (by decide)
      fun _ => rfl
  | backboneHost =>
    exact hset.restores (fun b v => { b with backboneHost := v }) (fun _ _ => rfl) (fun _ _ => rfl) rfl (by decide)
      fun _ => rfl
  | aprsCall =>
    exact hset.restores (fun b v => { b with aprsCall := v }) (fun _ _ => rfl) (fun _ _ => rfl) rfl (by decide)
      fun _ => rfl
  | aprsPasscode =>
    exact hset.restores (fun b v => { b with aprsPasscode := v }) (fun _ _ => rfl) (fun _ _ => rfl) rfl (by decide)
      fun _ => rfl
  | aprsHost =>
    exact hset.restores (fun b v => { b with aprsHost := v }) (fun _ _ => rfl) (fun _ _ => rfl) rfl (by decide)
      fun _ => rfl
  | aprsTocall =>
    exact hset.restores (fun b v => { b with aprsTocall := v }) (fun _ _ => rfl) (fun _ _ => rfl) rfl (by decide)
      fun _ => rfl
  | aprsSymbol =>
    exact hset.restores (fun b v => { b with aprsSymbol := v }) (fun _ _ => rfl) (fun _ _ => rfl) rfl (by decide)
      fun _ => rfl
  | aprsNodeSymbol =>
    exact hset.restores (fun b v => { b with aprsNodeSymbol := v }) (fun _ _ => rfl) (fun _ _ => rfl) rfl (by decide)
      fun _ => rfl
  | aprsComment =>
    exact hset.restores (fun b v => { b with aprsComment := v }) (fun _ _ => rfl) (fun _ _ => rfl) rfl (by decide)
      fun _ => rfl
  | keyFile => exact restoresText_keyFile C cfg
  | linkMode => exact restoresText_linkMode hset
  | backbonePolicyFile => exact restoresText_policyFile hset
  | backboneHubKey => exact restoresText_hubKey hset
  | linkKey | webPassword => exact absurd hk (by decide)
  | _ => exact absurd htext (by decide)

/-! ## The whole file -/

/-- The lists stand at the end of the file. -/
def listSettings (cfg : McConfig) : List (ConfigKey × Bytes) :=
  ((cfg.publicChannels.filter fun ch => !ch.derived).map fun ch => (ConfigKey.publicChannel, channelText ch)) ++
    (cfg.blacklist.map fun name => (ConfigKey.blacklist, name)) ++
    (cfg.affinity.map fun name => (ConfigKey.affinity, name)) ++
    (cfg.home.map fun name => (ConfigKey.home, name)) ++
    (cfg.probeAllow.map fun name => (ConfigKey.probeAllow, name)) ++
    (cfg.ownRooms.map fun r => (ConfigKey.room, bareName r.name))

/-- The settings up to the masked secrets. -/
def plainSettings (cfg : McConfig) : List (ConfigKey × Bytes) :=
  (savedKeys.map fun k => (k, snprintfS saveBuf (keyText cfg k))) ++ [(ConfigKey.pingChannel, pingText cfg.pingChannel)]

/-- A secret is written when there is one. -/
def secretSetting (k : ConfigKey) (v : Bytes) : List (ConfigKey × Bytes) := if v = [] then [] else [(k, v)]

/-- The file: settings, secrets, lists. -/
theorem savedSettings_parts (cfg : McConfig) :
    savedSettings cfg = plainSettings cfg ++ secretSetting .linkKey cfg.linkKey ++
      secretSetting .webPassword cfg.webPassword ++ listSettings cfg := by
  simp [savedSettings, plainSettings, secretSetting, listSettings, pingText, McConfig.ownRooms]

/-- The lines of some settings, read in order. -/
def loadSettings (C : Crypto) (base : McConfig) (settings : List (ConfigKey × Bytes)) : McConfig :=
  (settings.map fun s => settingLine s.1.text s.2).foldl (loadLine C) base

/-- Lines in two parts. -/
theorem loadSettings_append (C : Crypto) (base : McConfig) (xs ys : List (ConfigKey × Bytes)) :
    loadSettings C base (xs ++ ys) = loadSettings C (loadSettings C base xs) ys := by
  rw [loadSettings, List.map_append, List.foldl_append]
  rfl

/-- The comment at the top of the file sets nothing. -/
theorem foldl_savedLines (C : Crypto) (cfg base : McConfig) :
    (savedLines cfg).foldl (loadLine C) base = loadSettings C base (savedSettings cfg) := by
  have hcomment : loadLine C base (lit "# MeshCore repeater configuration" ++ [10]) = base :=
    loadLine_comment C base _
  rw [savedLines, List.foldl_cons, hcomment]
  rfl

/-- The password is tame and fits its array. -/
theorem SetThrough.webPassword (h : SetThrough C cfg .webPassword) :
    IsTame cfg.webPassword ∧ cfg.webPassword.length < 64 := by
  rcases h with ⟨base, base', val, htame, hlen, hok, hsame⟩
  have hlen' : val.length < 64 := hlen
  have hcut : snprintfS 64 val = val := by
    apply List.take_of_length_le
    omega
  rw [configSet_text] at hok
  rcases setWebPassword_ok hok with ⟨-, rfl⟩
  have heq : val = cfg.webPassword := by
    rw [← hcut]
    exact (Prod.mk.inj hsame).1
  rw [← heq]
  exact ⟨htame, hlen'⟩

/-- What follows the file's lines leaves the texts alone. -/
theorem configLoad_texts_fold (C : Crypto) (cfg : McConfig) (file : Bytes) :
    (configLoad C cfg (some file)).texts = ((fileLines file).foldl (loadLine C) (clearLists cfg)).texts := by
  have hlast : ∀ c, (configPolicyMerge C (configEnsurePingChannel C c)).texts = c.texts := by
    intro c
    obtain ⟨chans, hping⟩ := configEnsurePingChannel_tables C c
    obtain ⟨rooms, chans', served, skipped, hmerge⟩ :=
      configPolicyMerge_tables C (configEnsurePingChannel C c)
    rw [hmerge, hping]
    rfl
  unfold configLoad
  simp only
  rw [hlast]

/-- What the lines of `KEYS[]` make of the text settings. -/
theorem loadSettings_keys (h : ∀ k ∈ textKeys, SetThrough C cfg k) (base : McConfig) :
    (loadSettings C base (savedKeys.map fun k => (k, snprintfS saveBuf (keyText cfg k)))).texts =
      { cfg.texts with
        keyFile := readValue (snprintfS saveBuf cfg.keyFile)
        backboneHubKey := if cfg.backboneHaveHubKey then cfg.backboneHubKey else base.backboneHubKey
        linkKey := base.linkKey
        webPassword := base.webPassword } := by
  have hline : ∀ s ∈ savedKeys.map fun k => (k, snprintfS saveBuf (keyText cfg k)), ∀ b,
      (loadLine C b (settingLine s.1.text s.2)).texts = s.1.restoreText cfg b.texts := by
    intro s hs b
    obtain ⟨k, hk, rfl⟩ := List.mem_map.mp hs
    exact restoresText_savedKeys h k hk b
  rw [loadSettings, foldl_settingLines McConfig.texts (fun s t => s.1.restoreText cfg t) _ hline base,
    List.foldl_map]
  rfl

end Meshcore
