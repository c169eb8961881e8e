import MeshcoreRepeater.Advert

/-! # The configuration record

`mc_config_t` with its defaults, and the name tests the mesh asks of it: the
role lists with their `*` wildcard, the blacklist, and the hub's blocks.

C strings are kept without their terminator. `verbose` only selects log lines and
is left out.
-/

namespace Meshcore

open ByteLib

/-! ## Limits -/

def mcMaxPublicChannels : Nat := 48
def mcMaxBlacklist : Nat := 32
def mcBlacklistNameLen : Nat := 32
def mcMaxAffinity : Nat := 16
def mcMaxHome : Nat := 8
def mcMaxRooms : Nat := 40
def mcRoomNameLen : Nat := 32
def mcMaxProbeAllow : Nat := 8
def mcNamePatLen : Nat := 32

/-! ## The records -/

/-- `mc_policy_t`: the rooms and blocks the hub sent, as one set. -/
structure McPolicy where
  version : UInt32
  rooms : List Bytes
  names : List Bytes
  keys : List Bytes
  skipped : Int
deriving DecidableEq

inductive McRole where
  | repeater
  | hotspot
deriving DecidableEq, Repr

/-- `mc_pub_channel_t`; `secret` is the whole zero-padded field. -/
structure McPubChannel where
  name : Bytes
  secret : Buf 32
  secretLen : UInt8
  hash : UInt8
  derived : Bool
  hub : Bool
deriving DecidableEq

/-- One row of the arrays `rooms`, `room_key` and `room_hub`. -/
structure McRoom where
  name : Bytes
  key : Bytes
  hub : Bool
deriving DecidableEq

/-- `mc_config_t`. -/
structure McConfig where
  -- radio
  frequency : CDouble
  bandwidth : CDouble
  spreadingFactor : UInt8
  codingRate : UInt8
  txPower : Int
  preamble : UInt16
  syncWord : UInt16
  crcOn : Bool
  iqInverted : Bool
  useCad : Bool
  tcxoVoltage : CDouble
  ocpReg : UInt8
  -- hardware wiring
  spiDev : Bytes
  spiSpeed : UInt32
  gpioChip : Bytes
  gpioReset : UInt32
  gpioBusy : UInt32
  gpioDio1 : UInt32
  gpioNss : UInt32
  rfSwitchDio2 : Bool
  gpioRxen : UInt32
  gpioTxen : UInt32
  useLeds : Bool
  gpioLedOn : UInt32
  gpioLedData : UInt32
  -- node and mesh
  name : Bytes
  keyFile : Bytes
  hasLocation : Bool
  latitude : CDouble
  longitude : CDouble
  advertInterval : UInt32
  forward : Bool
  pingPong : Bool
  pingChannel : Bytes
  probeAllow : List Bytes
  mboxEnable : Bool
  timeofdayEnable : Bool
  -- content policy
  publicChannels : List McPubChannel
  rooms : List McRoom
  -- central rooms and blocks
  backbonePolicy : Bool
  backbonePolicyFile : Bytes
  policy : McPolicy
  policyRooms : Int
  policySkipped : Int
  -- moderation and control
  blacklist : List Bytes
  controlPort : UInt16
  -- split RX/TX
  linkMode : Bytes
  linkKey : Bytes
  linkPeer : Bytes
  linkPort : UInt16
  -- IP backbone
  backboneEnable : Bool
  backboneHost : Bytes
  backbonePort : UInt16
  backboneHubKey : Bytes
  backboneHaveHubKey : Bool
  backboneObserve : Bool
  backboneBridge : Bool
  backboneRate : UInt32
  -- APRS-IS iGate
  aprsEnable : Bool
  aprsCall : Bytes
  aprsPasscode : Bytes
  aprsHost : Bytes
  aprsPort : UInt16
  aprsTocall : Bytes
  aprsSymbol : Bytes
  aprsNodeSymbol : Bytes
  aprsComment : Bytes
  aprsAltitude : CDouble
  aprsBeaconInterval : UInt32
  aprsNodeRate : UInt32
  -- role
  role : McRole
  affinity : List Bytes
  home : List Bytes
  hotspotPowerHigh : Int
  hotspotPowerLow : Int
  hotspotAwake : UInt32
  -- web admin
  webPort : UInt16
  webPassword : Bytes

/-- `config_defaults`. -/
def configDefaults : McConfig where
  frequency := .ofRat (434890 / 1000)
  bandwidth := .ofRat (625 / 10)
  spreadingFactor := 8
  codingRate := 8
  txPower := 22
  preamble := 16
  syncWord := 0x1424
  crcOn := true
  iqInverted := false
  useCad := true
  tcxoVoltage := .ofRat (16 / 10)
  ocpReg := 0x38
  spiDev := lit "/dev/spidev0.0"
  spiSpeed := 2000000
  gpioChip := lit "gpiochip0"
  gpioReset := 18
  gpioBusy := 20
  gpioDio1 := 16
  gpioNss := 21
  rfSwitchDio2 := true
  gpioRxen := 23
  gpioTxen := 22
  useLeds := true
  gpioLedOn := 19
  gpioLedData := 26
  name := lit "HamRepeater"
  keyFile := lit "repeater.key"
  hasLocation := false
  latitude := .fin 0
  longitude := .fin 0
  advertInterval := 1800
  forward := true
  pingPong := true
  pingChannel := lit "#mesh"
  probeAllow := []
  mboxEnable := true
  timeofdayEnable := true
  publicChannels := []
  rooms := []
  backbonePolicy := true
  backbonePolicyFile := lit "backbone-policy.txt"
  policy := ⟨0, [], [], [], 0⟩
  policyRooms := 0
  policySkipped := 0
  blacklist := []
  controlPort := 4403
  linkMode := lit "off"
  linkKey := []
  linkPeer := []
  linkPort := 4404
  backboneEnable := false
  backboneHost := lit "be.mesh73.net"
  backbonePort := 4405
  backboneHubKey := List.replicate 32 0
  backboneHaveHubKey := false
  backboneObserve := true
  backboneBridge := false
  backboneRate := 30
  aprsEnable := false
  aprsCall := []
  aprsPasscode := lit "auto"
  aprsHost := lit "belgium.aprs2.net"
  aprsPort := 14580
  aprsTocall := lit "APRFGR"
  aprsSymbol := lit "R&"
  aprsNodeSymbol := lit "Mn"
  aprsComment := lit "meshcore-repeater 1.0 https://rf.guru"
  aprsAltitude := .fin 0
  aprsBeaconInterval := 1800
  aprsNodeRate := 900
  role := .repeater
  affinity := []
  home := []
  hotspotPowerHigh := 22
  hotspotPowerLow := -9
  hotspotAwake := 3600
  webPort := 80
  webPassword := []

/-! ## Name tests -/

/-- `config_name_matches`: a trailing `*` makes the pattern a prefix. -/
def configNameMatches (pattern name : Bytes) : Bool :=
  if pattern.getLast? = some 42 then strncaseEq pattern name (pattern.length - 1)
  else strcaseEq pattern name

/-- The loop of `config_is_home`, `config_is_affinity` and `config_probe_allowed`:
an empty name matches nothing. -/
def nameListed (patterns : List Bytes) (name : Bytes) : Bool :=
  !name.isEmpty && patterns.any fun p => configNameMatches p name

def configIsHome (cfg : McConfig) (name : Bytes) : Bool := nameListed cfg.home name

def configIsAffinity (cfg : McConfig) (name : Bytes) : Bool := nameListed cfg.affinity name

def configProbeAllowed (cfg : McConfig) (name : Bytes) : Bool := nameListed cfg.probeAllow name

/-- `config_ascii_eq`: ASCII folding only. -/
def configAsciiEq (a b : Bytes) : Bool := a.map tolower == b.map tolower

/-- `config_is_blacklisted`: the file's blacklist, plus the hub's name blocks. -/
def configIsBlacklisted (cfg : McConfig) (name : Bytes) : Bool :=
  !name.isEmpty && (cfg.blacklist.any (fun b => strcaseEq b name) ||
    (cfg.backbonePolicy && cfg.policy.names.any (fun n => configAsciiEq n name)))

def configIsKeyBlocked (cfg : McConfig) (pub : Bytes) : Bool :=
  cfg.backbonePolicy && cfg.policy.keys.any (fun k => k == pub)

end Meshcore
