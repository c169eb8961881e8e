import MeshcoreRepeater.Config.File

/-! # Saving and loading the scalar settings

Every scalar setting of a configuration made by `config_set` is printed to a text
that its own setter reads back, and no other line of the file touches it, with two
exceptions. The `latitude` and `longitude` lines, written behind `location`, switch
the location on; and a `ping_channel` line holds the bare name, which is not always
read as that name. `configLoad_scalars_iff` says exactly when the file restores
everything.

* `Restores`: the line of a key does what `restore` says; one lemma for each kind of value.
* `restores_savedKeys`: all of `KEYS[]`.
* `configLoad_scalars`: what the file makes of the scalar settings.
* `configLoad_scalars_iff`: when it restores them.
-/

namespace Meshcore

open ByteLib

/-! ## The scalar settings -/

/-- What a saved file is to restore: the switches, the numbers, the role, and the
ping channel. -/
structure ScalarSettings where
  spreadingFactor : UInt8
  codingRate : UInt8
  txPower : Int
  preamble : UInt16
  syncWord : UInt16
  crcOn : Bool
  iqInverted : Bool
  useCad : Bool
  ocpReg : UInt8
  spiSpeed : UInt32
  gpioReset : UInt32
  gpioBusy : UInt32
  gpioDio1 : UInt32
  gpioNss : UInt32
  rfSwitchDio2 : Bool
  gpioRxen : UInt32
  gpioTxen : UInt32
  useLeds : Bool
  gpioLedOn : UInt32
  gpioLedData : UInt32
  hasLocation : Bool
  advertInterval : UInt32
  forward : Bool
  pingPong : Bool
  timeofdayEnable : Bool
  controlPort : UInt16
  aprsEnable : Bool
  aprsPort : UInt16
  aprsBeaconInterval : UInt32
  aprsNodeRate : UInt32
  role : McRole
  hotspotPowerHigh : Int
  hotspotPowerLow : Int
  hotspotAwake : UInt32
  webPort : UInt16
  mboxEnable : Bool
  linkPort : UInt16
  backboneEnable : Bool
  backbonePort : UInt16
  backboneHaveHubKey : Bool
  backboneObserve : Bool
  backboneBridge : Bool
  backboneRate : UInt32
  backbonePolicy : Bool
  pingChannel : Bytes

/-- Those settings of a configuration. -/
def McConfig.scalars (cfg : McConfig) : ScalarSettings where
  spreadingFactor := cfg.spreadingFactor
  codingRate := cfg.codingRate
  txPower := cfg.txPower
  preamble := cfg.preamble
  syncWord := cfg.syncWord
  crcOn := cfg.crcOn
  iqInverted := cfg.iqInverted
  useCad := cfg.useCad
  ocpReg := cfg.ocpReg
  spiSpeed := cfg.spiSpeed
  gpioReset := cfg.gpioReset
  gpioBusy := cfg.gpioBusy
  gpioDio1 := cfg.gpioDio1
  gpioNss := cfg.gpioNss
  rfSwitchDio2 := cfg.rfSwitchDio2
  gpioRxen := cfg.gpioRxen
  gpioTxen := cfg.gpioTxen
  useLeds := cfg.useLeds
  gpioLedOn := cfg.gpioLedOn
  gpioLedData := cfg.gpioLedData
  hasLocation := cfg.hasLocation
  advertInterval := cfg.advertInterval
  forward := cfg.forward
  pingPong := cfg.pingPong
  timeofdayEnable := cfg.timeofdayEnable
  controlPort := cfg.controlPort
  aprsEnable := cfg.aprsEnable
  aprsPort := cfg.aprsPort
  aprsBeaconInterval := cfg.aprsBeaconInterval
  aprsNodeRate := cfg.aprsNodeRate
  role := cfg.role
  hotspotPowerHigh := cfg.hotspotPowerHigh
  hotspotPowerLow := cfg.hotspotPowerLow
  hotspotAwake := cfg.hotspotAwake
  webPort := cfg.webPort
  mboxEnable := cfg.mboxEnable
  linkPort := cfg.linkPort
  backboneEnable := cfg.backboneEnable
  backbonePort := cfg.backbonePort
  backboneHaveHubKey := cfg.backboneHaveHubKey
  backboneObserve := cfg.backboneObserve
  backboneBridge := cfg.backboneBridge
  backboneRate := cfg.backboneRate
  backbonePolicy := cfg.backbonePolicy
  pingChannel := cfg.pingChannel

/-- What the line of `k` in the file saved from `cfg` does to the scalar settings. -/
def ConfigKey.restore (k : ConfigKey) (cfg : McConfig) (s : ScalarSettings) : ScalarSettings :=
  match k with
  | .spreadingFactor => { s with spreadingFactor := cfg.spreadingFactor }
  | .codingRate => { s with codingRate := cfg.codingRate }
  | .txPower => { s with txPower := cfg.txPower }
  | .preamble => { s with preamble := cfg.preamble }
  | .syncWord => { s with syncWord := cfg.syncWord }
  | .crc => { s with crcOn := cfg.crcOn }
  | .iqInverted => { s with iqInverted := cfg.iqInverted }
  | .useCad => { s with useCad := cfg.useCad }
  | .ocp => { s with ocpReg := cfg.ocpReg }
  | .spiSpeed => { s with spiSpeed := cfg.spiSpeed }
  | .gpioReset => { s with gpioReset := cfg.gpioReset }
  | .gpioBusy => { s with gpioBusy := cfg.gpioBusy }
  | .gpioDio1 => { s with gpioDio1 := cfg.gpioDio1 }
  | .gpioNss => { s with gpioNss := cfg.gpioNss }
  | .rfSwitch => { s with rfSwitchDio2 := cfg.rfSwitchDio2 }
  | .gpioRxen => { s with gpioRxen := cfg.gpioRxen }
  | .gpioTxen => { s with gpioTxen := cfg.gpioTxen }
  | .useLeds => { s with useLeds := cfg.useLeds }
  | .gpioLedOn => { s with gpioLedOn := cfg.gpioLedOn }
  | .gpioLedData => { s with gpioLedData := cfg.gpioLedData }
  | .location => { s with hasLocation := cfg.hasLocation }
  -- whatever the numbers, these lines switch the location on
  | .latitude | .longitude => { s with hasLocation := true }
  | .advertInterval => { s with advertInterval := cfg.advertInterval }
  | .forward => { s with forward := cfg.forward }
  | .pingPong => { s with pingPong := cfg.pingPong }
  | .timeofday => { s with timeofdayEnable := cfg.timeofdayEnable }
  | .controlPort => { s with controlPort := cfg.controlPort }
  | .aprsEnable => { s with aprsEnable := cfg.aprsEnable }
  | .aprsPort => { s with aprsPort := cfg.aprsPort }
  | .aprsBeaconInterval => { s with aprsBeaconInterval := cfg.aprsBeaconInterval }
  | .aprsNodeRate => { s with aprsNodeRate := cfg.aprsNodeRate }
  | .role => { s with role := cfg.role }
  | .hotspotPowerHigh => { s with hotspotPowerHigh := cfg.hotspotPowerHigh }
  | .hotspotPowerLow => { s with hotspotPowerLow := cfg.hotspotPowerLow }
  | .hotspotAwake => { s with hotspotAwake := cfg.hotspotAwake }
  | .webPort => { s with webPort := cfg.webPort }
  | .mbox => { s with mboxEnable := cfg.mboxEnable }
  | .linkPort => { s with linkPort := cfg.linkPort }
  | .backbone => { s with backboneEnable := cfg.backboneEnable }
  | .backbonePort => { s with backbonePort := cfg.backbonePort }
  | .backboneHubKey => { s with backboneHaveHubKey := cfg.backboneHaveHubKey }
  | .backboneObserve => { s with backboneObserve := cfg.backboneObserve }
  | .backboneBridge => { s with backboneBridge := cfg.backboneBridge }
  | .backboneRate => { s with backboneRate := cfg.backboneRate }
  | .backbonePolicy => { s with backbonePolicy := cfg.backbonePolicy }
  | _ => s

/-- The lines of `KEYS[]` restore everything but the location switch and the ping
channel, whatever stood there before. -/
theorem restore_savedKeys (cfg : McConfig) (s : ScalarSettings) :
    savedKeys.foldl (fun s k => k.restore cfg s) s =
      { cfg.scalars with hasLocation := true, pingChannel := s.pingChannel } := rfl

/-! ## The ranges `config_set` keeps -/

/-- A ping channel as `config_set` stores it: empty, or a short `#name` without blanks
at its end. -/
def PingNormal (ch : Bytes) : Prop :=
  ch = [] ∨ ∃ bare, ch = 35 :: bare ∧ bare.length < 31 ∧ rtrim isBlankOrEol bare = bare

/-- Every bounded setting is within the bounds of its key. -/
structure McConfig.InRange (cfg : McConfig) : Prop where
  spreadingFactor : 5 ≤ cfg.spreadingFactor.toNat ∧ cfg.spreadingFactor.toNat ≤ 12
  codingRate : 5 ≤ cfg.codingRate.toNat ∧ cfg.codingRate.toNat ≤ 8
  txPower : -9 ≤ cfg.txPower ∧ cfg.txPower ≤ 22
  preamble : 6 ≤ cfg.preamble.toNat
  ocpReg : cfg.ocpReg.toNat ≤ 0x3F
  backbonePort : 1 ≤ cfg.backbonePort.toNat
  backboneRate : 1 ≤ cfg.backboneRate.toNat ∧ cfg.backboneRate.toNat ≤ 600
  hotspotPowerHigh : -9 ≤ cfg.hotspotPowerHigh ∧ cfg.hotspotPowerHigh ≤ 22
  hotspotPowerLow : -9 ≤ cfg.hotspotPowerLow ∧ cfg.hotspotPowerLow ≤ 22
  hubKey : cfg.backboneHubKey.length = 32
  pingChannel : PingNormal cfg.pingChannel

/-- The defaults pass their own checks. -/
theorem configDefaults_inRange : configDefaults.InRange where
  spreadingFactor := by decide
  codingRate := by decide
  txPower := by decide
  preamble := by decide
  ocpReg := by decide
  backbonePort := by decide
  backboneRate := by decide
  hotspotPowerHigh := by decide
  hotspotPowerLow := by decide
  hubKey := rfl
  pingChannel := .inr ⟨lit "mesh", rfl, by decide, by decide⟩

/-- Empty for `any`; else `#` and the trimmed name. -/
theorem setPingChannel_normal {cfg cfg' : McConfig} {val : Bytes}
    (h : setPingChannel cfg val = .ok cfg') :
    ∃ ch, PingNormal ch ∧ cfg' = { cfg with pingChannel := ch } := by
  have htrim : rtrim isBlankOrEol (trimName (mcRoomNameLen * 2) val) =
      trimName (mcRoomNameLen * 2) val := rtrim_rtrim _ _
  unfold setPingChannel at h
  generalize trimName (mcRoomNameLen * 2) val = clean at h htrim
  simp only at h
  split at h
  · cases h
    -- one of the words for every channel
    exact ⟨[], .inl rfl, rfl⟩
  split at h
  · cases h
  split at h
  · cases h
  rename_i hlen
  cases h
  refine ⟨_, .inr ?_, rfl⟩
  rw [snprintfS, List.take_of_length_le (by omega)]
  simp only [mcRoomNameLen] at hlen
  -- the name with its `#`, or without
  cases clean with
  | nil => exact ⟨[], rfl, by simp, rfl⟩
  | cons c bare =>
    by_cases hc : c = 35
    · subst hc
      have hname : hashName (35 :: bare) = 35 :: bare := rfl
      rw [hname, List.length_cons] at hlen
      exact ⟨bare, hname, by omega, rtrim_tail htrim⟩
    · have hname : hashName (c :: bare) = 35 :: c :: bare := if_neg (by simpa using hc)
      rw [hname, List.length_cons] at hlen
      exact ⟨c :: bare, hname, by omega, htrim⟩

/-- A key is 32 bytes, or the old one is kept beside a cleared flag. -/
theorem setHubKey_length {cfg cfg' : McConfig} {val : Bytes} (h : setHubKey cfg val = .ok cfg')
    (hkey : cfg.backboneHubKey.length = 32) :
    ∃ key have_, key.length = 32 ∧
      cfg' = { cfg with backboneHubKey := key, backboneHaveHubKey := have_ } := by
  rcases setHubKey_ok h with ⟨key, have_, hhex, hold, hdigits, rfl⟩
  refine ⟨key, have_, ?_, rfl⟩
  cases have_ with
  | false =>
    rw [hold rfl]
    exact hkey
  | true =>
    have hlen := length_of_hex2bin (hhex rfl)
    have hdigits' := hdigits rfl
    omega

/-- `config_set` keeps every bounded setting within its bounds. -/
theorem setKey_inRange {C : Crypto} {cfg cfg' : McConfig} {k : ConfigKey} {val : Bytes}
    (h : setKey C cfg k val = .ok cfg') (hr : cfg.InRange) : cfg'.InRange := by
  cases k with
  -- settings without a bound, behind a check of their own
  | frequency | bandwidth | tcxoVoltage | aprsAltitude | latitude | longitude
  | crc | iqInverted | useCad | useLeds | location | forward | pingPong | timeofday | aprsEnable
  | backbone | backboneObserve | backboneBridge | backbonePolicy
  | spiSpeed | gpioReset | gpioBusy | gpioDio1 | gpioNss | gpioRxen | gpioTxen | gpioLedOn
  | gpioLedData | advertInterval | aprsBeaconInterval | aprsNodeRate | hotspotAwake
  | controlPort | aprsPort | webPort | linkPort | affinity | home | probeAllow =>
    obtain ⟨x, -, rfl⟩ := setWith_ok h
    exact { hr with }
  -- texts, stored as they are
  | spiDev | gpioChip | name | keyFile | linkKey | linkPeer | backboneHost | aprsCall
  | aprsPasscode | aprsHost | aprsTocall | aprsSymbol | aprsNodeSymbol | aprsComment =>
    cases h
    exact { hr with }
  -- tables and words
  | mbox =>
    obtain ⟨b, -, rfl⟩ := setWith_ok h
    simp only
    split
    · obtain ⟨chans, hc⟩ := configEnsureHashtagChannel_tables C
        { cfg with mboxEnable := b } (lit "#mbox")
      rw [hc]
      exact { hr with }
    · exact { hr with }
  | publicChannel =>
    obtain ⟨x, hx, rfl⟩ := setWith_ok h
    obtain ⟨chans, rfl⟩ := addPublicChannel_tables hx
    exact { hr with }
  | room =>
    obtain ⟨x, hx, rfl⟩ := setWith_ok h
    obtain ⟨rooms, chans, rfl⟩ := addRoomEx_tables hx
    exact { hr with }
  | blacklist =>
    obtain ⟨⟨already, x⟩, hx, rfl⟩ := setWith_ok h
    obtain ⟨list, rfl⟩ := configBlacklistAdd_tables hx
    exact { hr with }
  | linkMode =>
    rcases setLinkMode_ok h with ⟨-, rfl⟩
    exact { hr with }
  | backbonePolicyFile =>
    rcases setPolicyFile_ok h with ⟨-, rfl⟩
    exact { hr with }
  | webPassword =>
    rcases setWebPassword_ok h with ⟨-, rfl⟩
    exact { hr with }
  | rfSwitch =>
    rcases setRfSwitch_ok h with ⟨dio2, rfl⟩
    exact { hr with }
  | role =>
    rcases setRole_ok h with ⟨role, rfl⟩
    exact { hr with }
  | syncWord =>
    rcases setSyncWord_ok h with ⟨w, rfl⟩
    exact { hr with }
  -- the bound was checked before it was stored
  | spreadingFactor =>
    obtain ⟨u, hu, rfl⟩ := setWith_ok h
    have hb := (Option.filter_eq_some_iff.mp hu).2
    simp only [Bool.and_eq_true, decide_eq_true_eq] at hb
    exact { hr with spreadingFactor := by simp; omega }
  | codingRate =>
    obtain ⟨u, hu, rfl⟩ := setWith_ok h
    have hb := (Option.filter_eq_some_iff.mp hu).2
    simp only [Bool.and_eq_true, decide_eq_true_eq] at hb
    exact { hr with codingRate := by simp; omega }
  | preamble =>
    obtain ⟨u, hu, rfl⟩ := setWith_ok h
    have hb := (Option.filter_eq_some_iff.mp hu).2
    simp only [Bool.and_eq_true, decide_eq_true_eq] at hb
    exact { hr with preamble := by simp; omega }
  | ocp =>
    obtain ⟨u, hu, rfl⟩ := setWith_ok h
    have hb := (Option.filter_eq_some_iff.mp hu).2
    simp only [Bool.and_eq_true, decide_eq_true_eq] at hb
    exact { hr with ocpReg := by simp; omega }
  | backbonePort =>
    obtain ⟨u, hu, rfl⟩ := setWith_ok h
    have hb := (Option.filter_eq_some_iff.mp hu).2
    simp only [Bool.and_eq_true, decide_eq_true_eq] at hb
    exact { hr with backbonePort := by simp; omega }
  | backboneRate =>
    obtain ⟨u, hu, rfl⟩ := setWith_ok h
    have hb := (Option.filter_eq_some_iff.mp hu).2
    simp only [Bool.and_eq_true, decide_eq_true_eq] at hb
    exact { hr with backboneRate := hb }
  | txPower =>
    obtain ⟨p, hp, rfl⟩ := setWith_ok h
    exact { hr with txPower := by simpa using (Option.filter_eq_some_iff.mp hp).2 }
  | hotspotPowerHigh =>
    obtain ⟨p, hp, rfl⟩ := setWith_ok h
    exact { hr with hotspotPowerHigh := by simpa using (Option.filter_eq_some_iff.mp hp).2 }
  | hotspotPowerLow =>
    obtain ⟨p, hp, rfl⟩ := setWith_ok h
    exact { hr with hotspotPowerLow := by simpa using (Option.filter_eq_some_iff.mp hp).2 }
  | backboneHubKey =>
    obtain ⟨key, have_, hlen, rfl⟩ := setHubKey_length h hr.hubKey
    exact { hr with hubKey := hlen }
  | pingChannel =>
    obtain ⟨ch, hnormal, rfl⟩ := setPingChannel_normal h
    exact { hr with pingChannel := hnormal }

/-! ## Printed values are read back -/

/-- Characters apart, so it may be put together. -/
theorem isPlain_append {a b : Bytes} (ha : IsPlain a) (hb : IsPlain b) : IsPlain (a ++ b) := by
  intro c hc
  rcases List.mem_append.mp hc with h | h
  · exact ha c h
  · exact hb c h

/-- A digit of any radix is an alphanumeric character. -/
theorem digit_plain {b : Nat} {c : UInt8} (h : isDigitOf b c = true) :
    c ≠ 35 ∧ isBlankOrEol c = false := by
  have hval : ∃ d, digitVal c = some d := by
    cases hd : digitVal c with
    | none => simp [isDigitOf, hd] at h
    | some d => exact ⟨d, rfl⟩
  obtain ⟨d, hd⟩ := hval
  have hne : ∀ x, digitVal x = none → c ≠ x := by
    rintro x hx rfl
    rw [hd] at hx
    cases hx
  have h32 := hne 32 rfl
  have h9 := hne 9 rfl
  have h13 := hne 13 rfl
  have h10 := hne 10 rfl
  exact ⟨hne 35 rfl, by simp [isBlankOrEol, isBlank, h32, h9, h13, h10]⟩

/-- A numeral is its digits. -/
theorem isPlain_numeral {b : Nat} (hb : 2 ≤ b) (hb' : b ≤ 36) (n : Nat) : IsPlain (numeral b n) :=
  fun _ hc => digit_plain (isDigitOf_of_mem_numeral hb hb' hc)

theorem isPlain_decimal (n : Nat) : IsPlain (decimal n) := isPlain_numeral (by omega) (by omega) n

theorem isPlain_intDecimal (n : Int) : IsPlain (intDecimal n) := by
  unfold intDecimal
  split
  · exact isPlain_append (a := [45]) (by intro c hc; simp_all; decide) (isPlain_decimal _)
  · exact isPlain_decimal _

theorem isPlain_padLeft {w : Nat} {s : Bytes} (h : IsPlain s) : IsPlain (padLeft w s) := by
  refine isPlain_append (fun c hc => ?_) h
  rw [(List.mem_replicate.mp hc).2]
  decide

theorem isPlain_signText (neg : Bool) : IsPlain (signText neg) := by cases neg <;> decide

theorem isPlain_fixedDigits (p n : Nat) : IsPlain (fixedDigits p n) := by
  refine isPlain_append (isPlain_decimal _) ?_
  split
  · nofun
  · exact isPlain_append (a := [46]) (by decide) (isPlain_padLeft (isPlain_decimal _))

/-- `%.*f` prints a sign, digits and a point, or `inf` and `nan`. -/
theorem isPlain_fmtF (p : Nat) (d : CDouble) : IsPlain (fmtF p d) := by
  cases d with
  | fin q => exact isPlain_append (isPlain_signText _) (isPlain_fixedDigits _ _)
  | negZero => exact isPlain_append (isPlain_signText _) (isPlain_fixedDigits _ _)
  | inf neg => exact isPlain_append (isPlain_signText _) (by decide)
  | nan neg => exact isPlain_append (isPlain_signText _) (by decide)

/-- Hex digits. -/
theorem isPlain_hexText (b : Bytes) : IsPlain (hexText b) := by
  intro c hc
  have hdigit := mem_hexText hc
  have hne : ∀ x : UInt8, ¬((48 ≤ x ∧ x ≤ 57) ∨ (97 ≤ x ∧ x ≤ 102)) → c ≠ x := by
    rintro x hx rfl
    exact hx hdigit
  have h32 := hne 32 (by decide)
  have h9 := hne 9 (by decide)
  have h13 := hne 13 (by decide)
  have h10 := hne 10 (by decide)
  exact ⟨hne 35 (by decide), by simp [isBlankOrEol, isBlank, h32, h9, h13, h10]⟩

/-- `true` and `false` are read back. -/
theorem parseBool_boolText (b : Bool) : parseBool (boolText b) = some b := by cases b <;> decide

/-- Ten digits are enough for 32 bits. -/
theorem length_u32Text (u : UInt32) : (u32Text u).length ≤ 10 :=
  length_numeral_le (by omega) (by omega) (by have := u.toNat_lt; omega)

/-- `%u` does not look like a hexadecimal number. -/
theorem decimal_take_two (n : Nat) (x : UInt8) (hx : isDigitOf 10 x = false) :
    (decimal n).take 2 ≠ [48, x] := by
  intro h
  have hmem : x ∈ decimal n := List.mem_of_mem_take (by rw [h]; simp)
  rw [isDigitOf_of_mem_numeral (by omega) (by omega) hmem] at hx
  cases hx

/-- `%u` is read back as the number it printed. -/
theorem parseU32_u32Text (u : UInt32) : parseU32 (u32Text u) = some u := by
  have hx : ¬((u32Text u).take 2 = lit "0x" ∨ (u32Text u).take 2 = lit "0X") := by
    rintro (h | h)
    · exact decimal_take_two u.toNat 120 rfl h
    · exact decimal_take_two u.toNat 88 rfl h
  have hlong : u.toNat ≤ ulongMax := by
    have := u.toNat_lt
    unfold ulongMax
    omega
  rw [parseU32, if_neg hx, u32Text, strtoul_decimal hlong]
  simp

/-- `0x` and its digits are read in base 16. -/
theorem parseU32_hex (w : Nat) (n : Nat) (h : n ≤ ulongMax) :
    parseU32 (lit "0x" ++ padLeft w (numeral 16 n)) = some (UInt32.ofNat n) := by
  have hx : (lit "0x" ++ padLeft w (numeral 16 n)).take 2 = lit "0x" := rfl
  rw [parseU32, if_pos (.inl hx), strtoul_hex w h]

/-- A power is read back with its sign. -/
theorem parseLong_intDecimal {p : Int} (h : -9 ≤ p ∧ p ≤ 22) :
    parseLong (intDecimal p) = some p := by
  have hlong : toLong p = p := by
    unfold toLong
    omega
  rw [parseLong, scanInteger_intDecimal]
  simp [hlong]

theorem length_intDecimal {p : Int} (h : -9 ≤ p ∧ p ≤ 22) : (intDecimal p).length ≤ 127 := by
  have hlen : (decimal p.natAbs).length ≤ 2 := length_numeral_le (by omega) (by omega) (by omega)
  unfold intDecimal
  split
  · rw [List.length_cons]
    omega
  · omega

/-! ## One line at a time -/

/-- Setting `k`, to whatever value, leaves the scalar settings alone. -/
def KeepsScalars (C : Crypto) (k : ConfigKey) : Prop :=
  ∀ base val base', setKey C base k val = .ok base' → base'.scalars = base.scalars

/-- The text, list and decimal settings. -/
theorem keepsScalars {C : Crypto} {k : ConfigKey}
    (h : k ∈ [ConfigKey.frequency, .bandwidth, .tcxoVoltage, .spiDev, .gpioChip, .name, .keyFile,
      .linkMode, .linkKey, .linkPeer, .backboneHost, .backbonePolicyFile, .publicChannel, .room,
      .blacklist, .aprsCall, .aprsPasscode, .aprsHost, .aprsTocall, .aprsSymbol, .aprsNodeSymbol,
      .aprsComment, .aprsAltitude, .affinity, .home, .probeAllow, .webPassword]) :
    KeepsScalars C k := by
  intro base val base' hset
  -- one case for each kind of setter
  cases k with
  | frequency | bandwidth | tcxoVoltage | aprsAltitude =>
    obtain ⟨d, -, rfl⟩ := setWith_ok hset
    rfl
  | affinity | home | probeAllow =>
    obtain ⟨list, -, rfl⟩ := setWith_ok hset
    rfl
  | spiDev | gpioChip | name | keyFile | linkKey | linkPeer | backboneHost | aprsCall
  | aprsPasscode | aprsHost | aprsTocall | aprsSymbol | aprsNodeSymbol | aprsComment =>
    cases hset
    rfl
  | linkMode =>
    rcases setLinkMode_ok hset with ⟨-, rfl⟩
    rfl
  | backbonePolicyFile =>
    rcases setPolicyFile_ok hset with ⟨-, rfl⟩
    rfl
  | webPassword =>
    rcases setWebPassword_ok hset with ⟨-, rfl⟩
    rfl
  | publicChannel =>
    obtain ⟨x, hx, rfl⟩ := setWith_ok hset
    obtain ⟨chans, rfl⟩ := addPublicChannel_tables hx
    rfl
  | room =>
    obtain ⟨x, hx, rfl⟩ := setWith_ok hset
    obtain ⟨rooms, chans, rfl⟩ := addRoomEx_tables hx
    rfl
  | blacklist =>
    obtain ⟨⟨already, x⟩, hx, rfl⟩ := setWith_ok hset
    obtain ⟨list, rfl⟩ := configBlacklistAdd_tables hx
    rfl
  | _ => exact absurd h (by decide)

/-- The line of `k` in the file saved from `cfg` does what `restore` says. -/
def Restores (C : Crypto) (cfg : McConfig) (k : ConfigKey) : Prop :=
  ∀ base : McConfig,
    (loadLine C base (settingLine k.text (snprintfS saveBuf (keyText cfg k)))).scalars =
      k.restore cfg base.scalars

section
variable {C : Crypto} {cfg : McConfig} {k : ConfigKey}

/-- A line of a key that keeps the scalars keeps them, set or refused. -/
theorem loadLine_keeps (hk : KeepsScalars C k) (base : McConfig) (val : Bytes) :
    (loadLine C base (settingLine k.text val)).scalars = base.scalars := by
  rw [loadLine_settingLine]
  cases hset : setKey C base k (readValue val) with
  | error e => rfl
  | ok base' => exact hk _ _ _ hset

/-- A setting that is no scalar. -/
theorem Restores.keeps (hk : KeepsScalars C k) (hid : ∀ s, k.restore cfg s = s) :
    Restores C cfg k := fun base => (loadLine_keeps hk base _).trans (hid _).symm

/-- A text that nothing cuts reaches its setter. -/
theorem Restores.of_ok (put : McConfig → McConfig) (hplain : IsPlain (keyText cfg k))
    (hlen : (keyText cfg k).length ≤ 127)
    (hset : ∀ base, setKey C base k (keyText cfg k) = .ok (put base))
    (hput : ∀ base, (put base).scalars = k.restore cfg base.scalars) : Restores C cfg k := by
  intro base
  have hfit : snprintfS saveBuf (keyText cfg k) = keyText cfg k := List.take_of_length_le hlen
  rw [loadLine_settingLine, hfit, readValue_of_isPlain hplain, hset]
  exact hput base

/-- The switches. -/
theorem Restores.bool {b : Bool} {f : McConfig → Bool → McConfig}
    (htext : keyText cfg k = boolText b)
    (hset : ∀ base val, setKey C base k val = setBool val (f base))
    (hput : ∀ base, (f base b).scalars = k.restore cfg base.scalars) : Restores C cfg k := by
  refine .of_ok _ ?_ ?_ (fun base => ?_) hput
  · rw [htext]
    cases b <;> decide
  · rw [htext]
    cases b <;> decide
  · rw [hset, htext, setBool, parseBool_boolText, setWith]

/-- Numbers of any size. -/
theorem Restores.u32 {u : UInt32} {put : McConfig → UInt32 → McConfig}
    (htext : keyText cfg k = u32Text u)
    (hset : ∀ base val, setKey C base k val = setU32 val (put base))
    (hput : ∀ base, (put base u).scalars = k.restore cfg base.scalars) : Restores C cfg k := by
  refine .of_ok _ ?_ ?_ (fun base => ?_) hput
  · rw [htext]
    exact isPlain_decimal _
  · rw [htext]
    exact (length_u32Text u).trans (by omega)
  · rw [hset, htext, setU32, parseU32_u32Text, setWith]

/-- Numbers between two bounds. -/
theorem Restores.u32In {lo hi : Nat} {u : UInt32} {f : McConfig → UInt32 → McConfig}
    (htext : keyText cfg k = u32Text u) (hrange : lo ≤ u.toNat ∧ u.toNat ≤ hi)
    (hset : ∀ base val, setKey C base k val = setU32In lo hi val (f base))
    (hput : ∀ base, (f base u).scalars = k.restore cfg base.scalars) : Restores C cfg k := by
  refine .of_ok _ ?_ ?_ (fun base => ?_) hput
  · rw [htext]
    exact isPlain_decimal _
  · rw [htext]
    exact (length_u32Text u).trans (by omega)
  · rw [hset, htext, setU32In, parseU32_u32Text]
    exact setWith_filter (by simp [hrange]) _

/-- Ports and the preamble: 16 bits, with a lower bound. -/
theorem Restores.u16 {lo : Nat} {x : UInt16} (put : McConfig → UInt16 → McConfig)
    (htext : keyText cfg k = u32Text x.toUInt32) (hlo : lo ≤ x.toNat)
    (hset : ∀ base val, setKey C base k val = setU32In lo 65535 val fun u => put base u.toUInt16)
    (hput : ∀ base, (put base x).scalars = k.restore cfg base.scalars) : Restores C cfg k := by
  have hlt := x.toNat_lt
  refine .u32In (f := fun base u => put base u.toUInt16) htext ?_ hset fun base => ?_
  · simp only [UInt16.toNat_toUInt32]
    omega
  · simpa using hput base

/-- Numbers of one byte. -/
theorem Restores.u8 {lo hi : Nat} {x : UInt8} (put : McConfig → UInt8 → McConfig)
    (htext : keyText cfg k = u32Text x.toUInt32) (hrange : lo ≤ x.toNat ∧ x.toNat ≤ hi)
    (hset : ∀ base val, setKey C base k val = setU32In lo hi val fun u => put base u.toUInt8)
    (hput : ∀ base, (put base x).scalars = k.restore cfg base.scalars) : Restores C cfg k := by
  refine .u32In (f := fun base u => put base u.toUInt8) htext ?_ hset fun base => ?_
  · simpa only [UInt8.toNat_toUInt32] using hrange
  · simpa using hput base

/-- Powers in dBm, which may be negative. -/
theorem Restores.power {p : Int} (put : McConfig → Int → McConfig)
    (htext : keyText cfg k = intDecimal p) (hrange : -9 ≤ p ∧ p ≤ 22)
    (hset : ∀ base, setKey C base k (intDecimal p) = setPower (some p) (put base))
    (hput : ∀ base, (put base p).scalars = k.restore cfg base.scalars) : Restores C cfg k := by
  refine .of_ok _ ?_ ?_ (fun base => ?_) hput
  · rw [htext]
    exact isPlain_intDecimal p
  · rw [htext]
    exact length_intDecimal hrange
  · rw [htext, hset, setPower]
    exact setWith_filter (by simp [hrange]) _

/-- The numbers printed in hex. -/
theorem Restores.hex {w m n : Nat} (put : McConfig → UInt32 → McConfig)
    (htext : keyText cfg k = lit "0x" ++ padLeft w (numeral 16 n)) (hw : w ≤ 4)
    (hn : n < 65536) (hhi : n ≤ m)
    (hset : ∀ base, setKey C base k (lit "0x" ++ padLeft w (numeral 16 n)) =
      setU32In 0 m (lit "0x" ++ padLeft w (numeral 16 n)) (put base))
    (hput : ∀ base, (put base (UInt32.ofNat n)).scalars = k.restore cfg base.scalars) :
    Restores C cfg k := by
  have hdigits : (numeral 16 n).length ≤ 4 := length_numeral_le (by omega) (by omega) (by omega)
  have hmod : n % 4294967296 = n := Nat.mod_eq_of_lt (by omega)
  refine .of_ok _ ?_ ?_ (fun base => ?_) hput
  · rw [htext]
    exact isPlain_append (by decide)
      (isPlain_padLeft (isPlain_numeral (by omega) (by omega) n))
  · rw [htext]
    simp only [padLeft, List.length_append, List.length_replicate, lit]
    simp
    omega
  · rw [htext, hset, setU32In, parseU32_hex w n (by unfold ulongMax; omega)]
    exact setWith_filter (by simp [hmod, hhi]) _

/-- A `latitude` or `longitude` line switches the location on, whatever the value and
however long its digits. -/
theorem Restores.degrees {d : CDouble} {put : McConfig → CDouble → McConfig}
    (htext : keyText cfg k = fmtF 6 d)
    (hset : ∀ base val, setKey C base k val = setDouble (fun _ => false) val (put base))
    (hput : ∀ base d, (put base d).scalars = k.restore cfg base.scalars) : Restores C cfg k := by
  intro base
  have hplain : IsPlain (snprintfS saveBuf (fmtF 6 d)) := fun c hc =>
    isPlain_fmtF 6 d c (List.mem_of_mem_take hc)
  obtain ⟨x, hx⟩ := strtod_fmtF 6 (saveBuf - 1) d (by decide)
  have hparse : parseDouble (snprintfS saveBuf (fmtF 6 d)) = some x := by
    rw [parseDouble, snprintfS, hx]
  rw [loadLine_settingLine, htext, readValue_of_isPlain hplain, hset, setDouble, hparse]
  exact hput base x

/-- Setting a switch again leaves its channel out of the scalars. -/
theorem restores_mbox (C : Crypto) (cfg : McConfig) : Restores C cfg .mbox := by
  refine .bool (f := fun base b => if b then configEnsureHashtagChannel C
    { base with mboxEnable := b } (lit "#mbox") else { base with mboxEnable := b })
    rfl (fun _ _ => rfl) fun base => ?_
  split
  · obtain ⟨chans, hc⟩ := configEnsureHashtagChannel_tables C
      { base with mboxEnable := cfg.mboxEnable } (lit "#mbox")
    rw [hc]
    rfl
  · rfl

/-- `tx_power` is printed and read signed. -/
theorem restores_txPower (h : -9 ≤ cfg.txPower ∧ cfg.txPower ≤ 22) : Restores C cfg .txPower := by
  have hclamp : clampTxPower cfg.txPower = cfg.txPower := by
    unfold clampTxPower
    omega
  refine .power (fun base p => { base with txPower := p }) rfl h (fun base => ?_) fun _ => rfl
  rw [setKey, parseLong_intDecimal h, Option.map_some, hclamp]

/-- A hexadecimal number is neither of the two names of a sync word. -/
theorem restores_syncWord (C : Crypto) (cfg : McConfig) : Restores C cfg .syncWord := by
  have hlt := cfg.syncWord.toNat_lt
  refine .hex (fun base u => { base with syncWord := u.toUInt16 }) (m := 0xFFFF) rfl
    (by omega) (by omega) (by omega) (fun base => ?_) fun base => ?_
  · have hname : ∀ c name, tolower 48 ≠ tolower c →
        strcaseEq (lit "0x" ++ padLeft 4 (numeral 16 cfg.syncWord.toNat)) (c :: name) = false := by
      intro c name hc
      simp [strcaseEq, lit, hc]
    rw [setKey, setSyncWord, show lit "private" = 112 :: lit "rivate" from rfl,
      show lit "public" = 112 :: lit "ublic" from rfl, hname _ _ (by decide),
      hname _ _ (by decide), if_neg (by simp), if_neg (by simp)]
  · simp [McConfig.scalars, ConfigKey.restore]

/-- The two words of a switch are read back as they were written. -/
theorem restores_rfSwitch (C : Crypto) (cfg : McConfig) : Restores C cfg .rfSwitch := by
  have htext : ∀ b : Bool, IsPlain (if b then lit "dio2" else lit "external") ∧
      (if b then lit "dio2" else lit "external").length ≤ 127 := by
    decide
  refine .of_ok (fun base => { base with rfSwitchDio2 := cfg.rfSwitchDio2 })
    (htext cfg.rfSwitchDio2).1 (htext cfg.rfSwitchDio2).2 (fun base => ?_) fun _ => rfl
  rw [keyText]
  cases cfg.rfSwitchDio2 <;> rfl

/-- The two words of the role. -/
theorem restores_role (C : Crypto) (cfg : McConfig) : Restores C cfg .role := by
  have htext : ∀ r : McRole, IsPlain (if r = .hotspot then lit "hotspot" else lit "repeater") ∧
      (if r = .hotspot then lit "hotspot" else lit "repeater").length ≤ 127 := by
    rintro (_ | _) <;> decide
  refine .of_ok (fun base => { base with role := cfg.role })
    (htext cfg.role).1 (htext cfg.role).2 (fun base => ?_) fun _ => rfl
  rw [keyText]
  cases cfg.role <;> rfl

/-- The hub's key, whose bytes are left alone where it is not set. -/
theorem restores_backboneHubKey (h : cfg.backboneHubKey.length = 32) : Restores C cfg .backboneHubKey := by
  have hhex : (hexText cfg.backboneHubKey).length = 64 := by
    rw [length_hexText, h]
  refine .of_ok (fun base => { base with
      backboneHaveHubKey := cfg.backboneHaveHubKey
      backboneHubKey := if cfg.backboneHaveHubKey then cfg.backboneHubKey
        else base.backboneHubKey })
    ?_ ?_ (fun base => ?_) fun _ => rfl
  · rw [keyText]
    split
    · exact isPlain_hexText _
    · exact fun c hc => absurd hc (by simp)
  · rw [keyText]
    split
    · omega
    · simp
  · rw [keyText, setKey]
    cases cfg.backboneHaveHubKey with
    | false => rfl
    | true =>
      have hne : hexText cfg.backboneHubKey ≠ [] := by
        intro hnil
        simp [hnil] at hhex
      simp only [if_true, setHubKey, if_neg hne, hhex, ne_eq, not_true_eq_false, if_false,
        hex2bin_hexText (le_of_eq h), setWith]

/-- Every line of `KEYS[]` does what `restore` says. -/
theorem restores_savedKeys (C : Crypto) {cfg : McConfig} (h : cfg.InRange) :
    ∀ k ∈ savedKeys, Restores C cfg k := by
  intro k hk
  -- by the kind of value; the keys of the lists are not in `KEYS[]`
  cases k with
  | frequency | bandwidth | tcxoVoltage | aprsAltitude | spiDev | gpioChip | name | keyFile
  | linkMode | linkPeer | backboneHost | backbonePolicyFile | aprsCall | aprsPasscode | aprsHost
  | aprsTocall | aprsSymbol | aprsNodeSymbol | aprsComment =>
    exact .keeps (keepsScalars (by decide)) fun _ => rfl
  | crc | iqInverted | useCad | useLeds | location | forward | pingPong | timeofday | aprsEnable
  | backbone | backboneObserve | backboneBridge | backbonePolicy =>
    exact .bool rfl (fun _ _ => rfl) fun _ => rfl
  | mbox => exact restores_mbox C cfg
  | spiSpeed | gpioReset | gpioBusy | gpioDio1 | gpioNss | gpioRxen | gpioTxen | gpioLedOn
  | gpioLedData | advertInterval | aprsBeaconInterval | aprsNodeRate | hotspotAwake =>
    exact .u32 rfl (fun _ _ => rfl) fun _ => rfl
  | backboneRate => exact .u32In rfl h.backboneRate (fun _ _ => rfl) fun _ => rfl
  | spreadingFactor =>
    exact .u8 (fun base x => { base with spreadingFactor := x }) rfl h.spreadingFactor
      (fun _ _ => rfl) fun _ => rfl
  | codingRate =>
    exact .u8 (fun base x => { base with codingRate := x }) rfl h.codingRate
      (fun _ _ => rfl) fun _ => rfl
  | preamble =>
    exact .u16 (fun base x => { base with preamble := x }) rfl h.preamble
      (fun _ _ => rfl) fun _ => rfl
  | backbonePort =>
    exact .u16 (fun base x => { base with backbonePort := x }) rfl h.backbonePort
      (fun _ _ => rfl) fun _ => rfl
  | controlPort =>
    exact .u16 (fun base x => { base with controlPort := x }) rfl (Nat.zero_le _)
      (fun _ _ => rfl) fun _ => rfl
  | aprsPort =>
    exact .u16 (fun base x => { base with aprsPort := x }) rfl (Nat.zero_le _)
      (fun _ _ => rfl) fun _ => rfl
  | webPort =>
    exact .u16 (fun base x => { base with webPort := x }) rfl (Nat.zero_le _)
      (fun _ _ => rfl) fun _ => rfl
  | linkPort =>
    exact .u16 (fun base x => { base with linkPort := x }) rfl (Nat.zero_le _)
      (fun _ _ => rfl) fun _ => rfl
  | txPower => exact restores_txPower h.txPower
  | hotspotPowerHigh =>
    refine .power (fun base p => { base with hotspotPowerHigh := p }) rfl
      h.hotspotPowerHigh (fun base => ?_) fun _ => rfl
    rw [setKey, parseLong_intDecimal h.hotspotPowerHigh]
  | hotspotPowerLow =>
    refine .power (fun base p => { base with hotspotPowerLow := p }) rfl
      h.hotspotPowerLow (fun base => ?_) fun _ => rfl
    rw [setKey, parseLong_intDecimal h.hotspotPowerLow]
  | latitude | longitude => exact .degrees rfl (fun _ _ => rfl) fun _ _ => rfl
  | ocp =>
    have hlt := cfg.ocpReg.toNat_lt
    refine .hex (fun base u => { base with ocpReg := u.toUInt8 }) rfl (by omega) (by omega)
      h.ocpReg (fun _ => rfl) fun base => ?_
    simp [McConfig.scalars, ConfigKey.restore]
  | syncWord => exact restores_syncWord C cfg
  | rfSwitch => exact restores_rfSwitch C cfg
  | role => exact restores_role C cfg
  | backboneHubKey => exact restores_backboneHubKey h.hubKey
  | publicChannel | room | blacklist | linkKey | affinity | home | probeAllow | webPassword
  | pingChannel => exact absurd hk (by decide)

end

/-! ## The line of the ping channel -/

/-- The text of a ping channel in the file. -/
def pingText (ch : Bytes) : Bytes := if ch = [] then lit "any" else bareName ch

/-- What `config_set` makes of the text it reads back; `none` when it refuses it. -/
def rereadPing (ch : Bytes) : Option Bytes :=
  let v := readValue (pingText ch)
  if pingAnyWord v then some [] else if v = [] then none else some (35 :: v)

/-- A channel whose bare name reads as itself: it is not empty, holds no `#`, starts
with no blank, and is none of the words for every channel. -/
def PingKept (ch : Bytes) : Prop :=
  ch = [] ∨ ∃ bare, ch = 35 :: bare ∧ bare ≠ [] ∧ (35 : UInt8) ∉ bare ∧
    (∀ c, bare.head? = some c → isBlank c = false) ∧ pingAnyWord bare = false

/-- It has room on its line. -/
theorem length_pingText {ch : Bytes} (h : PingNormal ch) : (pingText ch).length < 31 := by
  rcases h with rfl | ⟨bare, rfl, hlen, -⟩
  · decide
  · simpa [pingText, bareName] using hlen

/-- The line sets what is read back of the text, or is refused. -/
theorem loadLine_pingChannel {C : Crypto} {ch : Bytes} (h : PingNormal ch) (base : McConfig) :
    loadLine C base (settingLine (ConfigKey.text .pingChannel) (pingText ch)) =
      { base with pingChannel := (rereadPing ch).getD base.pingChannel } := by
  have hlen := length_pingText h
  have hread := length_readValue_le (pingText ch)
  have htrim : trimName (mcRoomNameLen * 2) (readValue (pingText ch)) = readValue (pingText ch) :=
    trimName_readValue (by simp only [mcRoomNameLen]; omega)
  have hname : hashName (readValue (pingText ch)) = 35 :: readValue (pingText ch) :=
    if_neg fun hhead => ne_of_mem_readValue (List.mem_of_mem_head? hhead) rfl
  have hfit : (35 :: readValue (pingText ch)).length < mcRoomNameLen := by
    simp only [List.length_cons, mcRoomNameLen]
    omega
  rw [loadLine_settingLine, setKey, setPingChannel, htrim, hname, rereadPing]
  generalize readValue (pingText ch) = v at hfit
  by_cases hany : pingAnyWord v = true
  · simp [hany, Except.toOption]
  by_cases hnil : v = []
  · subst hnil
    simp [show pingAnyWord [] = false from rfl, Except.toOption]
  · have hcut : snprintfS mcRoomNameLen (35 :: v) = 35 :: v := List.take_of_length_le (by omega)
    rw [if_neg hany, if_neg hnil, if_neg (Nat.not_le.mpr hfit), hcut, if_neg hany, if_neg hnil]
    rfl

/-- The line restores the channel exactly when its bare name reads as itself. -/
theorem rereadPing_iff {ch : Bytes} (h : PingNormal ch) :
    (rereadPing ch).getD (lit "#mesh") = ch ↔ PingKept ch := by
  rcases h with rfl | ⟨bare, rfl, -, htrim⟩
  · exact iff_of_true (by decide) (.inl rfl)
  have htext : pingText (35 :: bare) = bare := rfl
  rw [rereadPing, htext]
  constructor
  · intro hsame
    -- it was read as a name, and as this one
    have hread : pingAnyWord (readValue bare) = false ∧ readValue bare = bare ∧ bare ≠ [] := by
      by_cases hany : pingAnyWord (readValue bare) = true
      · simp [hany] at hsame
      by_cases hnil : readValue bare = []
      · -- refused: the default stays, and it is not this channel
        rw [if_neg hany, if_pos hnil] at hsame
        have hbare : lit "mesh" = bare := (List.cons.inj hsame).2
        rw [← hbare] at hnil
        exact absurd hnil (by decide)
      · have hkept : readValue bare = bare := by simpa [hany, hnil] using hsame
        exact ⟨by simpa using hany, hkept, hkept ▸ hnil⟩
    obtain ⟨hany, hkept, hne⟩ := hread
    refine .inr ⟨bare, rfl, hne, ?_, ?_, ?_⟩
    · intro hmem
      rw [← hkept] at hmem
      exact ne_of_mem_readValue hmem rfl
    · intro c hc
      rw [← hkept, ← skipBlanks_readValue] at hc
      exact isBlank_of_head_skipBlanks hc
    · rwa [hkept] at hany
  · rintro (hnil | ⟨bare', heq, hne, hmem, hblank, hany⟩)
    · cases hnil
    cases heq
    have htake : bare.takeWhile (· ≠ 35) = bare :=
      List.takeWhile_eq_self_iff.mpr fun c hc => by
        have : c ≠ 35 := by
          rintro rfl
          exact hmem hc
        simpa using this
    have hkept : readValue bare = bare := by
      rw [readValue, htake, skipBlanks_of_head hblank, htrim]
    simp [hkept, hany, hne]

/-! ## The whole file -/

/-- A configuration made from the defaults by successful `config_set` calls. -/
inductive MadeBySet (C : Crypto) : McConfig → Prop where
  | defaults : MadeBySet C configDefaults
  | set {cfg cfg' : McConfig} {key val : Bytes} (made : MadeBySet C cfg)
      (ok : configSet C cfg key val = .ok cfg') : MadeBySet C cfg'

/-- Every call keeps the bounds, and the defaults are within them. -/
theorem MadeBySet.inRange {C : Crypto} {cfg : McConfig} (h : MadeBySet C cfg) : cfg.InRange := by
  induction h with
  | defaults => exact configDefaults_inRange
  | set made ok ih =>
    unfold configSet at ok
    split at ok
    · exact setKey_inRange ok ih
    · cases ok

/-- The keys' lines, one after the other. -/
theorem foldl_restores {C : Crypto} {cfg : McConfig} {ks : List ConfigKey}
    (h : ∀ k ∈ ks, Restores C cfg k) (base : McConfig) :
    ((ks.map fun k => settingLine k.text (snprintfS saveBuf (keyText cfg k))).foldl
        (loadLine C) base).scalars =
      ks.foldl (fun s k => k.restore cfg s) base.scalars := by
  have hline : ∀ s ∈ ks.map fun k => (k, snprintfS saveBuf (keyText cfg k)), ∀ base,
      (loadLine C base (settingLine s.1.text s.2)).scalars = s.1.restore cfg base.scalars := by
    intro s hs base
    rcases List.mem_map.mp hs with ⟨k, hk, rfl⟩
    exact h k hk base
  have hlines := foldl_settingLines McConfig.scalars (fun s v => s.1.restore cfg v) _ hline base
  rw [List.map_map] at hlines
  exact hlines.trans List.foldl_map

/-- Lines of keys that keep the scalars, one after the other. -/
theorem foldl_keeps {C : Crypto} {settings : List (ConfigKey × Bytes)}
    (h : ∀ s ∈ settings, KeepsScalars C s.1) (base : McConfig) :
    ((settings.map fun s => settingLine s.1.text s.2).foldl (loadLine C) base).scalars =
      base.scalars := by
  rw [foldl_settingLines McConfig.scalars (fun _ v => v) settings (fun s hs base => loadLine_keeps (h s hs) base s.2)]
  exact List.foldl_fixed settings

/-- Behind the keys and the ping channel stand text and list settings only. -/
theorem savedSettings_split (C : Crypto) (cfg : McConfig) :
    ∃ tail, savedSettings cfg = (savedKeys.map fun k => (k, snprintfS saveBuf (keyText cfg k))) ++
        (ConfigKey.pingChannel, pingText cfg.pingChannel) :: tail ∧
      ∀ s ∈ tail, KeepsScalars C s.1 := by
  refine ⟨(if cfg.linkKey = [] then [] else [(ConfigKey.linkKey, cfg.linkKey)]) ++
    (if cfg.webPassword = [] then [] else [(ConfigKey.webPassword, cfg.webPassword)]) ++
    ((cfg.publicChannels.filter fun ch => !ch.derived).map fun ch =>
      (ConfigKey.publicChannel, channelText ch)) ++
    (cfg.blacklist.map fun name => (ConfigKey.blacklist, name)) ++
    (cfg.affinity.map fun name => (ConfigKey.affinity, name)) ++
    (cfg.home.map fun name => (ConfigKey.home, name)) ++
    (cfg.probeAllow.map fun name => (ConfigKey.probeAllow, name)) ++
    ((cfg.rooms.filter fun r => !r.hub).map fun r => (ConfigKey.room, bareName r.name)), ?_, ?_⟩
  · simp [savedSettings, pingText]
  · intro s hs
    have hkey : s.1 ∈ [ConfigKey.linkKey, .webPassword, .publicChannel, .blacklist, .affinity, .home,
        .probeAllow, .room] := by
      simp only [List.mem_append, List.mem_map] at hs
      rcases hs with ((((((hs | hs) | ⟨_, -, rfl⟩) | ⟨_, -, rfl⟩) | ⟨_, -, rfl⟩) | ⟨_, -, rfl⟩) |
        ⟨_, -, rfl⟩) | ⟨_, -, rfl⟩
      · split at hs
        · cases hs
        · rw [List.mem_singleton.mp hs]
          simp
      · split at hs
        · cases hs
        · rw [List.mem_singleton.mp hs]
          simp
      all_goals simp
    refine keepsScalars ?_
    simp only [List.mem_cons, List.not_mem_nil, or_false] at hkey ⊢
    rcases hkey with h | h | h | h | h | h | h | h <;> simp [h]

/-- What the file makes of the scalar settings. -/
theorem configLoad_scalars (C : Crypto) {cfg : McConfig} (h : cfg.InRange)
    (hlines : fileLines (configSave cfg) = savedLines cfg) :
    (configLoad C configDefaults (some (configSave cfg))).scalars =
      { cfg.scalars with
        hasLocation := true
        pingChannel := (rereadPing cfg.pingChannel).getD (lit "#mesh") } := by
  obtain ⟨tail, hsplit, htail⟩ := savedSettings_split C cfg
  have hlast : ∀ c, (configPolicyMerge C (configEnsurePingChannel C c)).scalars = c.scalars := by
    intro c
    obtain ⟨chans, hping⟩ := configEnsurePingChannel_tables C c
    obtain ⟨rooms, chans', served, skipped, hmerge⟩ :=
      configPolicyMerge_tables C (configEnsurePingChannel C c)
    rw [hmerge, hping]
    rfl
  have hfold : (savedLines cfg).foldl (loadLine C) (clearLists configDefaults) =
      (tail.map fun s => settingLine s.1.text s.2).foldl (loadLine C)
        (loadLine C
          ((savedKeys.map fun k => settingLine k.text (snprintfS saveBuf (keyText cfg k))).foldl
            (loadLine C) (clearLists configDefaults))
          (settingLine (ConfigKey.text .pingChannel) (pingText cfg.pingChannel))) := by
    rw [savedLines, hsplit, List.foldl_cons]
    simp only [List.map_append, List.map_map, List.map_cons, List.foldl_append, List.foldl_cons]
    rfl
  have hkeys := foldl_restores (restores_savedKeys C h) (clearLists configDefaults)
  rw [restore_savedKeys] at hkeys
  simp only [configLoad, hlast, hlines, hfold]
  rw [foldl_keeps htail, loadLine_pingChannel h.pingChannel]
  generalize (savedKeys.map _).foldl (loadLine C) (clearLists configDefaults) = base at hkeys
  have hping : base.pingChannel = lit "#mesh" := congrArg ScalarSettings.pingChannel hkeys
  rw [hping]
  calc ({ base with pingChannel := (rereadPing cfg.pingChannel).getD (lit "#mesh") } :
        McConfig).scalars
      = { base.scalars with pingChannel := (rereadPing cfg.pingChannel).getD (lit "#mesh") } := rfl
    _ = _ := by rw [hkeys]

/-- For every configuration `config_set` can make of the defaults: the saved file, its
lines read as they were written, restores every scalar setting exactly when the
location is on and the ping channel's bare name reads as itself. -/
theorem configLoad_scalars_iff {C : Crypto} {cfg : McConfig} (h : MadeBySet C cfg)
    (hlines : fileLines (configSave cfg) = savedLines cfg) :
    (configLoad C configDefaults (some (configSave cfg))).scalars = cfg.scalars ↔
      cfg.hasLocation = true ∧ PingKept cfg.pingChannel := by
  rw [configLoad_scalars C h.inRange hlines, ← rereadPing_iff h.inRange.pingChannel]
  constructor
  · intro heq
    exact ⟨(congrArg ScalarSettings.hasLocation heq).symm, congrArg ScalarSettings.pingChannel heq⟩
  · rintro ⟨hloc, hping⟩
    rw [hping, ← hloc]
    rfl

/-! ## A file that restores everything, and one that does not -/

/-- A hotspot placed on the map. -/
def placedConfig : McConfig :=
  { configDefaults with role := .hotspot, latitude := .ofRat (5105 / 100), hasLocation := true }

theorem placedConfig_madeBySet : MadeBySet (.ofTable [] []) placedConfig := by
  have hparse : parseDouble (lit "51.05") = some (.ofRat (5105 / 100)) := by decide +kernel
  have hrole : configSet (.ofTable [] []) configDefaults (ConfigKey.text .role) (lit "hotspot") =
      .ok { configDefaults with role := .hotspot } := by
    rw [configSet_text]
    rfl
  have hlat : configSet (.ofTable [] []) { configDefaults with role := .hotspot }
      (ConfigKey.text .latitude) (lit "51.05") = .ok placedConfig := by
    rw [configSet_text, setKey, setDouble, hparse]
    rfl
  exact (MadeBySet.defaults.set hrole).set hlat

theorem configLoad_scalars_iff_placed :
    (configLoad (.ofTable [] []) configDefaults (some (configSave placedConfig))).scalars =
        placedConfig.scalars ↔
      placedConfig.hasLocation = true ∧ PingKept placedConfig.pingChannel :=
  configLoad_scalars_iff placedConfig_madeBySet (fileLines_configSave (by decide +kernel))

/-- The file of the defaults does not: it comes back with a location. -/
theorem defaults_not_restored :
    MadeBySet (.ofTable [] []) configDefaults ∧
      fileLines (configSave configDefaults) = savedLines configDefaults ∧
      configDefaults.hasLocation = false ∧
      (configLoad (.ofTable [] []) configDefaults
        (some (configSave configDefaults))).scalars.hasLocation = true ∧
      (configLoad (.ofTable [] []) configDefaults (some (configSave configDefaults))).scalars ≠
        configDefaults.scalars := by
  have hlines : fileLines (configSave configDefaults) = savedLines configDefaults :=
    fileLines_configSave (by decide +kernel)
  have hload := configLoad_scalars (.ofTable [] []) configDefaults_inRange hlines
  rw [hload]
  refine ⟨.defaults, hlines, rfl, rfl, fun h => ?_⟩
  exact absurd (congrArg ScalarSettings.hasLocation h) (by decide)

end Meshcore
