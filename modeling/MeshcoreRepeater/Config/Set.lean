import MeshcoreRepeater.Config.Lists

/-! # Setting and reading one key

`config_set` and `config_get`. The keys are an enumeration in the order of the
source's tests; `ConfigKey.find` is the chain of `strcasecmp` calls. A call that
fails leaves the configuration alone, so it gives only its error.

* `setWith_ok`: a setting that is accepted, unpacked; the keys with setters of their own have a
  lemma each.
-/

namespace Meshcore

open ByteLib

/-! ## Keys -/

/-- The keys of `config_set`. -/
inductive ConfigKey where
  | frequency | bandwidth | spreadingFactor | codingRate | txPower | preamble | syncWord | crc
  | iqInverted | useCad | tcxoVoltage | ocp
  | spiDev | spiSpeed | gpioChip | gpioReset | gpioBusy | gpioDio1 | gpioNss | rfSwitch | gpioRxen
  | gpioTxen | useLeds | gpioLedOn | gpioLedData
  | name | keyFile | latitude | longitude | location | advertInterval | forward | pingPong | mbox
  | timeofday | pingChannel | controlPort | linkMode | linkKey | linkPeer | linkPort
  | backbone | backboneHost | backbonePort | backboneHubKey | backboneObserve | backboneBridge
  | backboneRate | backbonePolicy | backbonePolicyFile
  | publicChannel | room | blacklist
  | aprsEnable | aprsCall | aprsPasscode | aprsHost | aprsPort | aprsTocall | aprsSymbol
  | aprsNodeSymbol | aprsComment | aprsAltitude | aprsBeaconInterval | aprsNodeRate
  | role | affinity | home | probeAllow | hotspotPowerHigh | hotspotPowerLow | hotspotAwake
  | webPort | webPassword
deriving DecidableEq, Repr

namespace ConfigKey

/-- The text of a key. -/
def text : ConfigKey → Bytes
  | frequency => lit "frequency"
  | bandwidth => lit "bandwidth"
  | spreadingFactor => lit "spreading_factor"
  | codingRate => lit "coding_rate"
  | txPower => lit "tx_power"
  | preamble => lit "preamble"
  | syncWord => lit "sync_word"
  | crc => lit "crc"
  | iqInverted => lit "iq_inverted"
  | useCad => lit "use_cad"
  | tcxoVoltage => lit "tcxo_voltage"
  | ocp => lit "ocp"
  | spiDev => lit "spi_dev"
  | spiSpeed => lit "spi_speed"
  | gpioChip => lit "gpio_chip"
  | gpioReset => lit "gpio_reset"
  | gpioBusy => lit "gpio_busy"
  | gpioDio1 => lit "gpio_dio1"
  | gpioNss => lit "gpio_nss"
  | rfSwitch => lit "rf_switch"
  | gpioRxen => lit "gpio_rxen"
  | gpioTxen => lit "gpio_txen"
  | useLeds => lit "use_leds"
  | gpioLedOn => lit "gpio_led_on"
  | gpioLedData => lit "gpio_led_data"
  | name => lit "name"
  | keyFile => lit "key_file"
  | latitude => lit "latitude"
  | longitude => lit "longitude"
  | location => lit "location"
  | advertInterval => lit "advert_interval"
  | forward => lit "forward"
  | pingPong => lit "ping_pong"
  | mbox => lit "mbox"
  | timeofday => lit "timeofday"
  | pingChannel => lit "ping_channel"
  | controlPort => lit "control_port"
  | linkMode => lit "link_mode"
  | linkKey => lit "link_key"
  | linkPeer => lit "link_peer"
  | linkPort => lit "link_port"
  | backbone => lit "backbone"
  | backboneHost => lit "backbone_host"
  | backbonePort => lit "backbone_port"
  | backboneHubKey => lit "backbone_hub_key"
  | backboneObserve => lit "backbone_observe"
  | backboneBridge => lit "backbone_bridge"
  | backboneRate => lit "backbone_rate"
  | backbonePolicy => lit "backbone_policy"
  | backbonePolicyFile => lit "backbone_policy_file"
  | publicChannel => lit "public_channel"
  | room => lit "room"
  | blacklist => lit "blacklist"
  | aprsEnable => lit "aprs_enable"
  | aprsCall => lit "aprs_call"
  | aprsPasscode => lit "aprs_passcode"
  | aprsHost => lit "aprs_host"
  | aprsPort => lit "aprs_port"
  | aprsTocall => lit "aprs_tocall"
  | aprsSymbol => lit "aprs_symbol"
  | aprsNodeSymbol => lit "aprs_node_symbol"
  | aprsComment => lit "aprs_comment"
  | aprsAltitude => lit "aprs_altitude"
  | aprsBeaconInterval => lit "aprs_beacon_interval"
  | aprsNodeRate => lit "aprs_node_rate"
  | role => lit "role"
  | affinity => lit "affinity"
  | home => lit "home"
  | probeAllow => lit "probe_allow"
  | hotspotPowerHigh => lit "hotspot_power_high"
  | hotspotPowerLow => lit "hotspot_power_low"
  | hotspotAwake => lit "hotspot_awake"
  | webPort => lit "web_port"
  | webPassword => lit "web_password"

/-- Every key, in the order `config_set` tests them. -/
def all : List ConfigKey :=
  [frequency, bandwidth, spreadingFactor, codingRate, txPower, preamble, syncWord, crc, iqInverted,
    useCad, tcxoVoltage, ocp, spiDev, spiSpeed, gpioChip, gpioReset, gpioBusy, gpioDio1, gpioNss,
    rfSwitch, gpioRxen, gpioTxen, useLeds, gpioLedOn, gpioLedData, name, keyFile, latitude,
    longitude, location, advertInterval, forward, pingPong, mbox, timeofday, pingChannel,
    controlPort, linkMode, linkKey, linkPeer, linkPort, backbone, backboneHost, backbonePort,
    backboneHubKey, backboneObserve, backboneBridge, backboneRate, backbonePolicy,
    backbonePolicyFile, publicChannel, room, blacklist, aprsEnable, aprsCall, aprsPasscode,
    aprsHost, aprsPort, aprsTocall, aprsSymbol, aprsNodeSymbol, aprsComment, aprsAltitude,
    aprsBeaconInterval, aprsNodeRate, role, affinity, home, probeAllow, hotspotPowerHigh,
    hotspotPowerLow, hotspotAwake, webPort, webPassword]

/-- The first key whose text is `key`, in any case. -/
def find (key : Bytes) : Option ConfigKey := all.find? fun k => strcaseEq key k.text

/-- The list leaves no key out. -/
theorem mem_all (k : ConfigKey) : k ∈ all := by cases k <;> decide

/-- No two keys share a text, in any case. -/
theorem find_text (k : ConfigKey) : find k.text = some k := by
  have h : ∀ k ∈ all, find k.text = some k := by decide
  exact h k (mem_all k)

end ConfigKey

/-! ## Value parsers -/

/-- `parse_bool`: the four words for each value, in any case. -/
def parseBool (v : Bytes) : Option Bool :=
  if strcaseEq v (lit "true") || strcaseEq v (lit "1") || strcaseEq v (lit "yes") ||
      strcaseEq v (lit "on") then some true
  else if strcaseEq v (lit "false") || strcaseEq v (lit "0") || strcaseEq v (lit "no") ||
      strcaseEq v (lit "off") then some false
  else none

/-- `parse_u32`: the cast keeps the low word. -/
def parseU32 (v : Bytes) : Option UInt32 :=
  match strtoul (if v.take 2 = lit "0x" ∨ v.take 2 = lit "0X" then 16 else 10) v with
  | some (x, []) => some (UInt32.ofNat x)
  | _ => none

/-- `parse_double`: the whole value has to be a number. -/
def parseDouble (v : Bytes) : Option CDouble :=
  match strtod v with
  | some (d, []) => some d
  | _ => none

/-- `strtol(val, &end, 10)` over the whole value. -/
def parseLong (v : Bytes) : Option Int :=
  match scanInteger 10 v with
  | some (x, []) => some (toLong x)
  | _ => none

/-! ## Setters -/

/-- The negative results of `config_set`. -/
inductive ConfigError where
  | unknownKey
  | invalidValue
deriving DecidableEq, Repr

/-- The result of `config_set`. -/
abbrev SetResult := Except ConfigError McConfig

/-- Store what a parser found, or -2. -/
def setWith {α : Type} (v : Option α) (put : α → McConfig) : SetResult :=
  match v with
  | some x => .ok (put x)
  | none => .error .invalidValue

/-- A switch. -/
def setBool (val : Bytes) (put : Bool → McConfig) : SetResult := setWith (parseBool val) put

/-- A number between the bounds its key tests. -/
def setU32In (lo hi : Nat) (val : Bytes) (put : UInt32 → McConfig) : SetResult :=
  setWith ((parseU32 val).filter fun u => lo ≤ u.toNat && u.toNat ≤ hi) put

/-- A number of 32 bits, without bounds of its own. -/
def setU32 (val : Bytes) (put : UInt32 → McConfig) : SetResult := setWith (parseU32 val) put

/-- A double that its key does not reject. -/
def setDouble (reject : CDouble → Bool) (val : Bytes) (put : CDouble → McConfig) : SetResult :=
  setWith ((parseDouble val).filter fun d => !reject d) put

/-- A power between -9 and 22 dBm. -/
def setPower (p : Option Int) (put : Int → McConfig) : SetResult :=
  setWith (p.filter fun p => -9 ≤ p && p ≤ 22) put

/-- `snprintf` into a field of the given size. -/
def setText (size : Nat) (val : Bytes) (put : Bytes → McConfig) : SetResult :=
  .ok (put (snprintfS size val))

/-- `tx_power`: an antenna figure up to 40 is clamped to the chip's maximum. -/
def clampTxPower (p : Int) : Int := if 22 < p ∧ p ≤ 40 then 22 else p

/-- `sync_word`: a name for each of the two usual words, or the word itself. -/
def setSyncWord (cfg : McConfig) (val : Bytes) : SetResult :=
  if strcaseEq val (lit "private") then .ok { cfg with syncWord := 0x1424 }
  else if strcaseEq val (lit "public") then .ok { cfg with syncWord := 0x3444 }
  else setU32In 0 0xFFFF val fun u => { cfg with syncWord := u.toUInt16 }

/-- `rf_switch`: who turns the antenna switch. -/
def setRfSwitch (cfg : McConfig) (val : Bytes) : SetResult :=
  if strcaseEq val (lit "dio2") then .ok { cfg with rfSwitchDio2 := true }
  else if strcaseEq val (lit "external") then .ok { cfg with rfSwitchDio2 := false }
  else .error .invalidValue

/-- `role`: one of two words. -/
def setRole (cfg : McConfig) (val : Bytes) : SetResult :=
  if strcaseEq val (lit "repeater") then .ok { cfg with role := .repeater }
  else if strcaseEq val (lit "hotspot") then .ok { cfg with role := .hotspot }
  else .error .invalidValue

/-- `mbox`: switching it on registers `#mbox` at once. -/
def setMbox (C : Crypto) (cfg : McConfig) (val : Bytes) : SetResult :=
  setBool val fun b =>
    let cfg := { cfg with mboxEnable := b }
    if b then configEnsureHashtagChannel C cfg (lit "#mbox") else cfg

/-- The values of `ping_channel` that mean every channel. -/
def pingAnyWord (clean : Bytes) : Bool :=
  strcaseEq clean (lit "any") || strcaseEq clean (lit "none") || clean == lit "-" || clean == lit "*"

/-- `ping_channel`: `any`, or a room's name, its `#` put before it where it is missing. -/
def setPingChannel (cfg : McConfig) (val : Bytes) : SetResult :=
  let clean := trimName (mcRoomNameLen * 2) val
  -- the name is bounded with its `#`
  let nm := hashName clean
  if pingAnyWord clean then .ok { cfg with pingChannel := [] }
  else if clean = [] then .error .invalidValue
  else if mcRoomNameLen ≤ nm.length then .error .invalidValue
  else .ok { cfg with pingChannel := snprintfS mcRoomNameLen nm }

/-- `link_mode`: one of three words, stored in lower case. -/
def setLinkMode (cfg : McConfig) (val : Bytes) : SetResult :=
  if strcaseEq val (lit "off") || strcaseEq val (lit "rx") || strcaseEq val (lit "tx") then
    .ok { cfg with linkMode := (snprintfS 8 val).map tolower }
  else .error .invalidValue

/-- `backbone_hub_key`: an empty value unsets it, the old bytes stay. -/
def setHubKey (cfg : McConfig) (val : Bytes) : SetResult :=
  if val = [] then .ok { cfg with backboneHaveHubKey := false }
  else if val.length ≠ 64 then .error .invalidValue
  else setWith (hex2bin 32 val) fun k =>
    { cfg with backboneHubKey := k, backboneHaveHubKey := true }

/-- `backbone_policy_file`: neither empty nor longer than its array. -/
def setPolicyFile (cfg : McConfig) (val : Bytes) : SetResult :=
  if val = [] ∨ 128 ≤ val.length then .error .invalidValue
  else .ok { cfg with backbonePolicyFile := snprintfS 128 val }

/-- `web_password`: too long a one is refused, not cut. -/
def setWebPassword (cfg : McConfig) (val : Bytes) : SetResult :=
  if 64 ≤ val.length then .error .invalidValue
  else .ok { cfg with webPassword := snprintfS 64 val }

/-- The body of `config_set` for one key. -/
def setKey (C : Crypto) (cfg : McConfig) (k : ConfigKey) (val : Bytes) : SetResult :=
  match k with
  -- radio
  | .frequency => setDouble (fun d => d.lt (.ofRat 137) || (CDouble.ofRat 1020).lt d) val
      fun d => { cfg with frequency := d }
  | .bandwidth => setDouble (fun d => !d.eq (.ofRat (625 / 10)) && !d.eq (.ofRat 125) &&
      !d.eq (.ofRat 250) && !d.eq (.ofRat 500)) val fun d => { cfg with bandwidth := d }
  | .spreadingFactor => setU32In 5 12 val fun u => { cfg with spreadingFactor := u.toUInt8 }
  | .codingRate => setU32In 5 8 val fun u => { cfg with codingRate := u.toUInt8 }
  -- clamped before the bounds are tested
  | .txPower => setPower ((parseLong val).map clampTxPower) fun p => { cfg with txPower := p }
  | .preamble => setU32In 6 65535 val fun u => { cfg with preamble := u.toUInt16 }
  | .syncWord => setSyncWord cfg val
  | .crc => setBool val fun b => { cfg with crcOn := b }
  | .iqInverted => setBool val fun b => { cfg with iqInverted := b }
  | .useCad => setBool val fun b => { cfg with useCad := b }
  | .tcxoVoltage => setDouble (fun d => d.lt (.fin 0) || (CDouble.ofRat (34 / 10)).lt d) val
      fun d => { cfg with tcxoVoltage := d }
  | .ocp => setU32In 0 0x3F val fun u => { cfg with ocpReg := u.toUInt8 }
  -- hardware
  | .spiDev => setText 64 val fun s => { cfg with spiDev := s }
  | .spiSpeed => setU32 val fun u => { cfg with spiSpeed := u }
  | .gpioChip => setText 32 val fun s => { cfg with gpioChip := s }
  | .gpioReset => setU32 val fun u => { cfg with gpioReset := u }
  | .gpioBusy => setU32 val fun u => { cfg with gpioBusy := u }
  | .gpioDio1 => setU32 val fun u => { cfg with gpioDio1 := u }
  | .gpioNss => setU32 val fun u => { cfg with gpioNss := u }
  | .rfSwitch => setRfSwitch cfg val
  | .gpioRxen => setU32 val fun u => { cfg with gpioRxen := u }
  | .gpioTxen => setU32 val fun u => { cfg with gpioTxen := u }
  | .useLeds => setBool val fun b => { cfg with useLeds := b }
  | .gpioLedOn => setU32 val fun u => { cfg with gpioLedOn := u }
  | .gpioLedData => setU32 val fun u => { cfg with gpioLedData := u }
  -- node
  | .name => setText 40 val fun s => { cfg with name := s }
  | .keyFile => setText 256 val fun s => { cfg with keyFile := s }
  -- either coordinate says that there is a location
  | .latitude => setDouble (fun _ => false) val
      fun d => { cfg with latitude := d, hasLocation := true }
  | .longitude => setDouble (fun _ => false) val
      fun d => { cfg with longitude := d, hasLocation := true }
  | .location => setBool val fun b => { cfg with hasLocation := b }
  | .advertInterval => setU32 val fun u => { cfg with advertInterval := u }
  | .forward => setBool val fun b => { cfg with forward := b }
  | .pingPong => setBool val fun b => { cfg with pingPong := b }
  | .mbox => setMbox C cfg val
  | .timeofday => setBool val fun b => { cfg with timeofdayEnable := b }
  | .pingChannel => setPingChannel cfg val
  | .controlPort => setU32In 0 65535 val fun u => { cfg with controlPort := u.toUInt16 }
  | .linkMode => setLinkMode cfg val
  | .linkKey => setText 64 val fun s => { cfg with linkKey := s }
  | .linkPeer => setText 64 val fun s => { cfg with linkPeer := s }
  | .linkPort => setU32In 0 65535 val fun u => { cfg with linkPort := u.toUInt16 }
  | .backbone => setBool val fun b => { cfg with backboneEnable := b }
  | .backboneHost => setText 96 val fun s => { cfg with backboneHost := s }
  | .backbonePort => setU32In 1 65535 val fun u => { cfg with backbonePort := u.toUInt16 }
  | .backboneHubKey => setHubKey cfg val
  | .backboneObserve => setBool val fun b => { cfg with backboneObserve := b }
  | .backboneBridge => setBool val fun b => { cfg with backboneBridge := b }
  | .backboneRate => setU32In 1 600 val fun u => { cfg with backboneRate := u }
  | .backbonePolicy => setBool val fun b => { cfg with backbonePolicy := b }
  | .backbonePolicyFile => setPolicyFile cfg val
  -- the keys of lists add an entry each time
  | .publicChannel => setWith (addPublicChannel C cfg val) id
  | .room => setWith (addRoom C cfg val) id
  | .blacklist => setWith (configBlacklistAdd cfg val) Prod.snd
  -- APRS-IS iGate
  | .aprsEnable => setBool val fun b => { cfg with aprsEnable := b }
  | .aprsCall => setText 16 val fun s => { cfg with aprsCall := s }
  | .aprsPasscode => setText 12 val fun s => { cfg with aprsPasscode := s }
  | .aprsHost => setText 96 val fun s => { cfg with aprsHost := s }
  | .aprsPort => setU32In 0 65535 val fun u => { cfg with aprsPort := u.toUInt16 }
  | .aprsTocall => setText 12 val fun s => { cfg with aprsTocall := s }
  | .aprsSymbol => setText 8 val fun s => { cfg with aprsSymbol := s }
  | .aprsNodeSymbol => setText 8 val fun s => { cfg with aprsNodeSymbol := s }
  | .aprsComment => setText 96 val fun s => { cfg with aprsComment := s }
  | .aprsAltitude => setDouble (fun _ => false) val fun d => { cfg with aprsAltitude := d }
  | .aprsBeaconInterval => setU32 val fun u => { cfg with aprsBeaconInterval := u }
  | .aprsNodeRate => setU32 val fun u => { cfg with aprsNodeRate := u }
  -- role
  | .role => setRole cfg val
  | .affinity => setWith (listAdd cfg.affinity mcMaxAffinity val) fun l => { cfg with affinity := l }
  | .home => setWith (listAdd cfg.home mcMaxHome val) fun l => { cfg with home := l }
  | .probeAllow => setWith (listAdd cfg.probeAllow mcMaxProbeAllow val)
      fun l => { cfg with probeAllow := l }
  | .hotspotPowerHigh => setPower (parseLong val) fun p => { cfg with hotspotPowerHigh := p }
  | .hotspotPowerLow => setPower (parseLong val) fun p => { cfg with hotspotPowerLow := p }
  | .hotspotAwake => setU32 val fun u => { cfg with hotspotAwake := u }
  | .webPort => setU32In 0 65535 val fun u => { cfg with webPort := u.toUInt16 }
  | .webPassword => setWebPassword cfg val

/-- `config_set`. -/
def configSet (C : Crypto) (cfg : McConfig) (key val : Bytes) : SetResult :=
  match ConfigKey.find key with
  | some k => setKey C cfg k val
  | none => .error .unknownKey

/-- An accepted value was parsed, and stored. -/
theorem setWith_ok {α : Type} {v : Option α} {put : α → McConfig} {cfg' : McConfig}
    (h : setWith v put = .ok cfg') : ∃ x, v = some x ∧ cfg' = put x := by
  cases v with
  | none => cases h
  | some x =>
    cases h
    exact ⟨x, rfl, rfl⟩

section Handlers

variable {cfg cfg' : McConfig} {val : Bytes}

/-- Whatever the value, only the word changes. -/
theorem setSyncWord_ok (h : setSyncWord cfg val = .ok cfg') : ∃ w, cfg' = { cfg with syncWord := w } := by
  unfold setSyncWord at h
  split at h
  · cases h
    exact ⟨0x1424, rfl⟩
  split at h
  · cases h
    exact ⟨0x3444, rfl⟩
  · rcases setWith_ok h with ⟨u, -, rfl⟩
    exact ⟨u.toUInt16, rfl⟩

/-- Only the switch changes. -/
theorem setRfSwitch_ok (h : setRfSwitch cfg val = .ok cfg') : ∃ dio2, cfg' = { cfg with rfSwitchDio2 := dio2 } := by
  unfold setRfSwitch at h
  split at h
  · cases h
    exact ⟨true, rfl⟩
  split at h
  · cases h
    exact ⟨false, rfl⟩
  · cases h

/-- Only the role changes. -/
theorem setRole_ok (h : setRole cfg val = .ok cfg') : ∃ role, cfg' = { cfg with role := role } := by
  unfold setRole at h
  split at h
  · cases h
    exact ⟨.repeater, rfl⟩
  split at h
  · cases h
    exact ⟨.hotspot, rfl⟩
  · cases h

/-- Only the three words are accepted. -/
theorem setLinkMode_ok (h : setLinkMode cfg val = .ok cfg') :
    (strcaseEq val (lit "off") || strcaseEq val (lit "rx") || strcaseEq val (lit "tx")) = true ∧
      cfg' = { cfg with linkMode := (snprintfS 8 val).map tolower } := by
  unfold setLinkMode at h
  split at h
  · rename_i hword
    cases h
    exact ⟨hword, rfl⟩
  · cases h

/-- A key of 64 digits is set; an empty value leaves the bytes of the old one. -/
theorem setHubKey_ok (h : setHubKey cfg val = .ok cfg') :
    ∃ key have_, (have_ = true → hex2bin 32 val = some key) ∧ (have_ = false → key = cfg.backboneHubKey) ∧
      (have_ = true → val.length = 64) ∧ cfg' = { cfg with backboneHubKey := key, backboneHaveHubKey := have_ } := by
  unfold setHubKey at h
  split at h
  · cases h
    exact ⟨cfg.backboneHubKey, false, nofun, fun _ => rfl, nofun, rfl⟩
  split at h
  · cases h
  rename_i hlen
  rcases setWith_ok h with ⟨key, hhex, rfl⟩
  exact ⟨key, true, fun _ => hhex, nofun, fun _ => not_not.mp hlen, rfl⟩

/-- A name that fits its array with its NUL. -/
theorem setPolicyFile_ok (h : setPolicyFile cfg val = .ok cfg') :
    ¬(val = [] ∨ 128 ≤ val.length) ∧ cfg' = { cfg with backbonePolicyFile := snprintfS 128 val } := by
  unfold setPolicyFile at h
  split at h
  · cases h
  · rename_i hlen
    cases h
    exact ⟨hlen, rfl⟩

/-- A password that fits its array with its NUL. -/
theorem setWebPassword_ok (h : setWebPassword cfg val = .ok cfg') :
    val.length < 64 ∧ cfg' = { cfg with webPassword := snprintfS 64 val } := by
  unfold setWebPassword at h
  split at h
  · cases h
  · rename_i hlen
    cases h
    exact ⟨Nat.not_le.mp hlen, rfl⟩

end Handlers

/-- A value that passes its test is stored. -/
theorem setWith_filter {α : Type} {p : α → Bool} {x : α} (h : p x = true) (put : α → McConfig) :
    setWith ((some x).filter p) put = .ok (put x) := by
  simp [Option.filter, h, setWith]

/-- A key under its own text. -/
theorem configSet_text (C : Crypto) (cfg : McConfig) (k : ConfigKey) (val : Bytes) :
    configSet C cfg k.text val = setKey C cfg k val := by
  rw [configSet, k.find_text]

/-! ## Reading a key -/

/-- The words for a switch. -/
def boolText (b : Bool) : Bytes := if b then lit "true" else lit "false"

/-- `%u` of a word, whatever its width. -/
def u32Text (u : UInt32) : Bytes := decimal u.toNat

/-- What `config_get` prints for a key, before its buffer cuts it. -/
def keyText (cfg : McConfig) (k : ConfigKey) : Bytes :=
  match k with
  | .frequency => fmtF 3 cfg.frequency
  | .bandwidth => fmtG cfg.bandwidth
  | .spreadingFactor => u32Text cfg.spreadingFactor.toUInt32
  | .codingRate => u32Text cfg.codingRate.toUInt32
  | .txPower => intDecimal cfg.txPower
  | .preamble => u32Text cfg.preamble.toUInt32
  | .syncWord => lit "0x" ++ padLeft 4 (numeral 16 cfg.syncWord.toNat)
  | .crc => boolText cfg.crcOn
  | .iqInverted => boolText cfg.iqInverted
  | .useCad => boolText cfg.useCad
  | .tcxoVoltage => fmtF 2 cfg.tcxoVoltage
  | .ocp => lit "0x" ++ padLeft 2 (numeral 16 cfg.ocpReg.toNat)
  | .spiDev => cfg.spiDev
  | .spiSpeed => u32Text cfg.spiSpeed
  | .gpioChip => cfg.gpioChip
  | .gpioReset => u32Text cfg.gpioReset
  | .gpioBusy => u32Text cfg.gpioBusy
  | .gpioDio1 => u32Text cfg.gpioDio1
  | .gpioNss => u32Text cfg.gpioNss
  | .rfSwitch => if cfg.rfSwitchDio2 then lit "dio2" else lit "external"
  | .gpioRxen => u32Text cfg.gpioRxen
  | .gpioTxen => u32Text cfg.gpioTxen
  | .useLeds => boolText cfg.useLeds
  | .gpioLedOn => u32Text cfg.gpioLedOn
  | .gpioLedData => u32Text cfg.gpioLedData
  | .name => cfg.name
  | .keyFile => cfg.keyFile
  | .latitude => fmtF 6 cfg.latitude
  | .longitude => fmtF 6 cfg.longitude
  | .location => boolText cfg.hasLocation
  | .advertInterval => u32Text cfg.advertInterval
  | .forward => boolText cfg.forward
  | .pingPong => boolText cfg.pingPong
  | .timeofday => boolText cfg.timeofdayEnable
  | .mbox => boolText cfg.mboxEnable
  | .pingChannel => if cfg.pingChannel = [] then lit "any" else cfg.pingChannel
  | .controlPort => u32Text cfg.controlPort.toUInt32
  | .linkMode => cfg.linkMode
  | .linkKey => if cfg.linkKey = [] then [] else lit "set"
  | .linkPeer => cfg.linkPeer
  | .linkPort => u32Text cfg.linkPort.toUInt32
  | .backbone => boolText cfg.backboneEnable
  | .backboneHost => cfg.backboneHost
  | .backbonePort => u32Text cfg.backbonePort.toUInt32
  | .backboneHubKey => if cfg.backboneHaveHubKey then hexText cfg.backboneHubKey else []
  | .backboneObserve => boolText cfg.backboneObserve
  | .backboneBridge => boolText cfg.backboneBridge
  | .backboneRate => u32Text cfg.backboneRate
  | .backbonePolicy => boolText cfg.backbonePolicy
  | .backbonePolicyFile => cfg.backbonePolicyFile
  | .publicChannel => decimal cfg.publicChannels.length ++ lit " configured"
  | .room => decimal cfg.rooms.length ++ lit " configured"
  | .blacklist => decimal cfg.blacklist.length ++ lit " entries"
  | .aprsEnable => boolText cfg.aprsEnable
  | .aprsCall => cfg.aprsCall
  | .aprsPasscode => cfg.aprsPasscode
  | .aprsHost => cfg.aprsHost
  | .aprsPort => u32Text cfg.aprsPort.toUInt32
  | .aprsTocall => cfg.aprsTocall
  | .aprsSymbol => cfg.aprsSymbol
  | .aprsNodeSymbol => cfg.aprsNodeSymbol
  | .aprsComment => cfg.aprsComment
  | .aprsAltitude => fmtG cfg.aprsAltitude
  | .aprsBeaconInterval => u32Text cfg.aprsBeaconInterval
  | .aprsNodeRate => u32Text cfg.aprsNodeRate
  | .role => if cfg.role = .hotspot then lit "hotspot" else lit "repeater"
  | .affinity => decimal cfg.affinity.length ++ lit " entries"
  | .home => decimal cfg.home.length ++ lit " entries"
  | .probeAllow => decimal cfg.probeAllow.length ++ lit " entries"
  | .hotspotPowerHigh => intDecimal cfg.hotspotPowerHigh
  | .hotspotPowerLow => intDecimal cfg.hotspotPowerLow
  | .hotspotAwake => u32Text cfg.hotspotAwake
  | .webPort => u32Text cfg.webPort.toUInt32
  | .webPassword => if cfg.webPassword = [] then [] else lit "set"

/-- `config_get` into a buffer of `outsz` bytes, at least the 65 of a key in hex;
`none` is its -1. -/
def configGet (cfg : McConfig) (key : Bytes) (outsz : Nat) : Option Bytes :=
  (ConfigKey.find key).map fun k => snprintfS outsz (keyText cfg k)

example : (configSet (.ofTable [] []) configDefaults (lit "Sync_Word") (lit "public")).toOption.bind
    (fun cfg => configGet cfg (lit "sync_word") 128) = some (lit "0x3444") := by decide +kernel

end Meshcore
