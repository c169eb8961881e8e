import MeshcoreRepeater.Config.File

/-! # The hub's set

`config_set_policy` takes a set of rooms and blocks from the hub, and
`config_policy_save` and `config_policy_load` keep it in a text file of its own.
The calls that change a configuration are one alphabet here, so that what holds in
every configuration is an invariant of their runs (`configStep`).

* `configStep`, `configAfter`: one call, and any calls.
* `setKey_effect`: what a setting does to the tables of the hub.
-/

namespace Meshcore

open ByteLib

/-! ## Taking a set -/

/-- `memset(&p, 0, sizeof(p))`. -/
def McPolicy.empty : McPolicy := ⟨0, [], [], [], 0⟩

/-- What `config_set_policy` copies: blocks of this node's own name and key are left
out. `ownPub` is `none` for the null pointer. -/
def guardedPolicy (name : Bytes) (ownPub : Option Bytes) (p : McPolicy) : McPolicy :=
  { p with
    names := p.names.filter fun n => !configAsciiEq n name
    keys := p.keys.filter fun k => ownPub != some k }

/-- `config_set_policy`. -/
def configSetPolicy (C : Crypto) (cfg : McConfig) (p : McPolicy) (ownPub : Option Bytes) : McConfig :=
  configPolicyMerge C { cfg with policy := guardedPolicy cfg.name ownPub p }

/-! ## Keeping it -/

def mcPolicyMaxRooms : Nat := 32
def mcPolicyMaxBlocks : Nat := 256

/-- A block name that stays on its line: `!strpbrk(name, "\r\n")`. -/
def hasNoEol (name : Bytes) : Bool := name.all fun c => c != 13 && c != 10

/-- `fprintf(f, "%s = %s\n", key, val)`. -/
def policyLine (key : String) (val : Bytes) : Bytes := lit key ++ lit " = " ++ val ++ [10]

def policyNote : Bytes :=
  lit "# Rooms and blocks from the backbone hub (POLICY). Written by meshcore-repeater - don't edit.\n"

/-- The lines `config_policy_save` writes. -/
def policySavedLines (p : McPolicy) : List Bytes :=
  [policyNote, policyLine "version" (u32Text p.version), policyLine "skipped" (intDecimal p.skipped)] ++
    p.rooms.map (policyLine "room") ++
    (p.names.filter hasNoEol).map (policyLine "block") ++
    p.keys.map fun k => policyLine "block_key" (hexText k)

/-- `config_policy_save`: the file's bytes. -/
def configPolicySave (cfg : McConfig) : Bytes := (policySavedLines cfg.policy).flatten

/-- `strstr(line, sep)`: what stands before and behind. -/
def splitAtText (sep : Bytes) : Bytes → Option (Bytes × Bytes)
  | [] => none
  | c :: s =>
    if sep.isPrefixOf (c :: s) then some ([], (c :: s).drop sep.length)
    else (splitAtText sep s).map fun kv => (c :: kv.1, kv.2)

/-- The chain of keys in `config_policy_load`. -/
def setPolicyKey (p : McPolicy) (k v : Bytes) : McPolicy :=
  if k = lit "version" then
    match parseU32 v with
    | some u => { p with version := u }
    | none => p
  else if k = lit "skipped" then
    match parseU32 v with
    | some u => { p with skipped := u.toBitVec.toInt }
    | none => p
  else if k = lit "room" then
    if p.rooms.length < mcPolicyMaxRooms ∧ v.length < mcRoomNameLen then
      { p with rooms := p.rooms ++ [snprintfS mcRoomNameLen v] }
    else p
  else if k = lit "block" then
    if p.names.length < mcPolicyMaxBlocks ∧ v ≠ [] ∧ v.length < mcBlacklistNameLen then
      { p with names := p.names ++ [snprintfS mcBlacklistNameLen v] }
    else p
  else if k = lit "block_key" then
    match (hex2bin 32 v).filter fun key => key.length == 32 with
    | some key => if p.keys.length < mcPolicyMaxBlocks then { p with keys := p.keys ++ [key] } else p
    | none => p
  else p

/-- The buffer `config_policy_load` reads lines into. -/
def policyBuf : Nat := 256

/-- One turn of the loop: the string up to its line end, a comment only where the
line starts with `#`. -/
def loadPolicyLine (p : McPolicy) (line : Bytes) : McPolicy :=
  let line := (cstr line).takeWhile fun c => c != 13 && c != 10
  match splitAtText (lit " = ") line with
  | some (k, v) => if line.head? = some 35 then p else setPolicyKey p k v
  | none => p

/-- The set a file holds. -/
def readPolicy (file : Bytes) : McPolicy :=
  (readPieces policyBuf file.length file).foldl loadPolicyLine McPolicy.empty

/-- `config_policy_load`; `none` is its -1. -/
def configPolicyLoad (C : Crypto) (cfg : McConfig) (file : Option Bytes) (ownPub : Option Bytes) :
    Option McConfig :=
  match file.map readPolicy with
  | some p => if p.version = 0 then none else some (configSetPolicy C cfg p ownPub)
  | none => none

/-! ## Runs of calls -/

/-- The calls that work on a configuration. A file is given by its bytes; `none`
stands for one that cannot be opened. -/
inductive ConfigCall where
  | set (key val : Bytes)
  | load (file : Option Bytes)
  | setPolicy (p : McPolicy) (ownPub : Option Bytes)
  | policyLoad (file : Option Bytes) (ownPub : Option Bytes)
  | save

/-- One call; one that fails leaves the configuration as it is. -/
def configStep (C : Crypto) (cfg : McConfig) : ConfigCall → McConfig
  | .set key val => (configSet C cfg key val).toOption.getD cfg
  | .load file => configLoad C cfg file
  | .setPolicy p ownPub => configSetPolicy C cfg p ownPub
  | .policyLoad file ownPub => (configPolicyLoad C cfg file ownPub).getD cfg
  | .save => cfg

/-! ## What one setting touches -/

/-- The node's name behind a setting. -/
def nameBehind (name : Bytes) (k : ConfigKey) (val : Bytes) : Bytes :=
  match k with
  | .name => snprintfS 40 val
  | _ => name

/-- The `backbone_policy` switch behind an accepted setting. -/
def switchBehind (on : Bool) (k : ConfigKey) (val : Bytes) : Bool :=
  match k with
  | .backbonePolicy => (parseBool val).getD on
  | _ => on

/-- What an accepted setting does to the name, the hub's set and its switch, and to
the two tables the hub's rooms are merged into. -/
structure SetEffect (C : Crypto) (cfg : McConfig) (k : ConfigKey) (val : Bytes) (cfg' : McConfig) :
    Prop where
  policy : cfg'.policy = cfg.policy
  name : cfg'.name = nameBehind cfg.name k val
  switch : cfg'.backbonePolicy = switchBehind cfg.backbonePolicy k val
  tables : match k with
    | .room => addRoom C cfg val = some cfg'
    | .publicChannel => addPublicChannel C cfg val = some cfg'
    | .mbox => setMbox C cfg val = .ok cfg'
    | _ => cfg'.rooms = cfg.rooms ∧ cfg'.publicChannels = cfg.publicChannels

theorem setMbox_tables {C : Crypto} {cfg cfg' : McConfig} {val : Bytes}
    (h : setMbox C cfg val = .ok cfg') :
    ∃ chans b, cfg' = { cfg with mboxEnable := b, publicChannels := chans } := by
  obtain ⟨b, -, rfl⟩ := setWith_ok h
  obtain ⟨chans, hc⟩ := configEnsureHashtagChannel_tables C { cfg with mboxEnable := b } (lit "#mbox")
  cases b with
  | false => exact ⟨cfg.publicChannels, false, rfl⟩
  | true => exact ⟨chans, true, hc⟩

theorem setKey_effect {C : Crypto} {cfg cfg' : McConfig} {k : ConfigKey} {val : Bytes}
    (h : setKey C cfg k val = .ok cfg') : SetEffect C cfg k val cfg' := by
  cases k with
  | frequency | bandwidth | tcxoVoltage | aprsAltitude | latitude | longitude
  | crc | iqInverted | useCad | useLeds | location | forward | pingPong | timeofday | aprsEnable
  | backbone | backboneObserve | backboneBridge
  | spreadingFactor | codingRate | txPower | preamble | ocp | backbonePort | backboneRate
  | hotspotPowerHigh | hotspotPowerLow
  | spiSpeed | gpioReset | gpioBusy | gpioDio1 | gpioNss | gpioRxen | gpioTxen | gpioLedOn
  | gpioLedData | advertInterval | aprsBeaconInterval | aprsNodeRate | hotspotAwake
  | controlPort | aprsPort | webPort | linkPort | affinity | home | probeAllow =>
    obtain ⟨x, -, rfl⟩ := setWith_ok h
    exact ⟨rfl, rfl, rfl, rfl, rfl⟩
  | spiDev | gpioChip | name | keyFile | linkKey | linkPeer | backboneHost | aprsCall
  | aprsPasscode | aprsHost | aprsTocall | aprsSymbol | aprsNodeSymbol | aprsComment =>
    cases h
    exact ⟨rfl, rfl, rfl, rfl, rfl⟩
  | linkMode =>
    rcases setLinkMode_ok h with ⟨-, rfl⟩
    exact ⟨rfl, rfl, rfl, rfl, rfl⟩
  | backbonePolicyFile =>
    rcases setPolicyFile_ok h with ⟨-, rfl⟩
    exact ⟨rfl, rfl, rfl, rfl, rfl⟩
  | webPassword =>
    rcases setWebPassword_ok h with ⟨-, rfl⟩
    exact ⟨rfl, rfl, rfl, rfl, rfl⟩
  | rfSwitch =>
    rcases setRfSwitch_ok h with ⟨dio2, rfl⟩
    exact ⟨rfl, rfl, rfl, rfl, rfl⟩
  | role =>
    rcases setRole_ok h with ⟨role, rfl⟩
    exact ⟨rfl, rfl, rfl, rfl, rfl⟩
  | syncWord =>
    rcases setSyncWord_ok h with ⟨w, rfl⟩
    exact ⟨rfl, rfl, rfl, rfl, rfl⟩
  | pingChannel =>
    simp only [setKey, setPingChannel] at h
    split at h
    · cases h
      exact ⟨rfl, rfl, rfl, rfl, rfl⟩
    split at h
    · cases h
    split at h
    all_goals cases h
    exact ⟨rfl, rfl, rfl, rfl, rfl⟩
  | backboneHubKey =>
    rcases setHubKey_ok h with ⟨key, have_, -, -, -, rfl⟩
    exact ⟨rfl, rfl, rfl, rfl, rfl⟩
  | backbonePolicy =>
    obtain ⟨b, hb, rfl⟩ := setWith_ok h
    exact ⟨rfl, rfl, by simp [switchBehind, hb], rfl, rfl⟩
  | blacklist =>
    obtain ⟨⟨already, x⟩, hx, rfl⟩ := setWith_ok h
    obtain ⟨list, rfl⟩ := configBlacklistAdd_tables hx
    exact ⟨rfl, rfl, rfl, rfl, rfl⟩
  | publicChannel =>
    obtain ⟨x, hx, rfl⟩ := setWith_ok h
    obtain ⟨chans, rfl⟩ := addPublicChannel_tables hx
    exact ⟨rfl, rfl, rfl, hx⟩
  | room =>
    obtain ⟨x, hx, rfl⟩ := setWith_ok h
    obtain ⟨rooms, chans, rfl⟩ := addRoomEx_tables hx
    exact ⟨rfl, rfl, rfl, hx⟩
  | mbox =>
    obtain ⟨chans, b, rfl⟩ := setMbox_tables h
    exact ⟨rfl, rfl, rfl, h⟩

end Meshcore
