import MeshcoreRepeater.Config.Basic
import MeshcoreRepeater.Util

/-! # The list settings

The repeatable keys of `config.c`: public channels, rooms, the blacklist and the
role's name lists, with the channels derived from a room's name and the hub's rooms
merged on top.

A function that returns -2 or -1 without touching the configuration gives `none`.

* `configPolicyMerge_tables`, `addRoomEx_tables`: the tables a function touches, and nothing else.
-/

namespace Meshcore

open ByteLib

/-! ## Names -/

/-- `trim_name`: blanks off both ends, the rest cut to the buffer first. -/
def trimName (outsz : Nat) (s : Bytes) : Bytes := rtrim isBlankOrEol (snprintfS outsz (skipBlanks s))

/-- `list_add`: a name already there is no error, a bare `*` is. -/
def listAdd (list : List Bytes) (max : Nat) (val : Bytes) : Option (List Bytes) :=
  let clean := trimName mcNamePatLen val
  if clean = [] ∨ clean = lit "*" then none
  else if list.any fun p => strcaseEq p clean then some list
  else if max ≤ list.length then none
  else some (list ++ [snprintfS mcNamePatLen clean])

/-- `config_blacklist_add`: whether the name was there already, and the result. -/
def configBlacklistAdd (cfg : McConfig) (name : Bytes) : Option (Bool × McConfig) :=
  let clean := trimName mcBlacklistNameLen name
  if clean = [] then none
  else if cfg.blacklist.any fun b => strcaseEq b clean then some (true, cfg)
  else if mcMaxBlacklist ≤ cfg.blacklist.length then none
  else some (false, { cfg with blacklist := cfg.blacklist ++ [snprintfS mcBlacklistNameLen clean] })

/-- `config_blacklist_remove`: the first entry of that name, or `none` for its -1. -/
def configBlacklistRemove (cfg : McConfig) (name : Bytes) : Option McConfig :=
  let clean := trimName mcBlacklistNameLen name
  if cfg.blacklist.any fun b => strcaseEq b clean then
    some { cfg with blacklist := cfg.blacklist.eraseP fun b => strcaseEq b clean }
  else none

/-! ## Channels and rooms -/

/-- The channel already has this key. -/
def McPubChannel.holds (ch : McPubChannel) (secret : Bytes) : Bool :=
  ch.secretLen.toNat == secret.length && ch.secret.read 0 secret.length == secret

/-- The entry `register_channel` fills in. -/
def newChannel (C : Crypto) (name secret : Bytes) (derived : Bool) : McPubChannel where
  name := snprintfS mcRoomNameLen name
  secret := Buf.ofBytes 32 secret
  secretLen := UInt8.ofNat secret.length
  hash := (C.sha256 secret).bytes.headD 0
  derived := derived
  hub := false

/-- `register_channel`: one entry a key, under the first name it came with. -/
def registerChannel (C : Crypto) (cfg : McConfig) (name secret : Bytes) (derived : Bool) :
    Option McConfig :=
  if secret.length ≠ 16 ∧ secret.length ≠ 32 then none
  else if cfg.publicChannels.any fun ch => ch.holds secret then some cfg
  else if mcMaxPublicChannels ≤ cfg.publicChannels.length then none
  else some { cfg with publicChannels := cfg.publicChannels ++ [newChannel C name secret derived] }

/-- The friendly name in front of the first `:`. -/
def channelName (val : Bytes) : Bytes :=
  if val.contains 58 then (val.takeWhile (· ≠ 58)).take (mcRoomNameLen - 1) else []

/-- The key behind it, in hex or in base64. -/
def channelSecret (val : Bytes) : Option Bytes :=
  let psk := if val.contains 58 then (val.dropWhile (· ≠ 58)).drop 1 else val
  let ishex := (psk.length == 32 || psk.length == 64) && psk.all fun c => (hexval c).isSome
  if ishex then hex2bin 32 psk else base64Decode 32 psk

/-- `add_public_channel`: `[name:]key`. -/
def addPublicChannel (C : Crypto) (cfg : McConfig) (val : Bytes) : Option McConfig :=
  match channelSecret val with
  | some secret => registerChannel C cfg (channelName val) secret false
  | none => none

/-- The key of a `#name`: `SHA256(name)[0..15]`. -/
def hashtagKey (C : Crypto) (name : Bytes) : Bytes := (C.sha256 name).read 0 16

/-- A name with one leading `#`. -/
def hashName (clean : Bytes) : Bytes := if clean.head? = some 35 then clean else 35 :: clean

/-- The name of a room with its one leading `#`; `none` when it is empty or does not
fit. -/
def roomName (val : Bytes) : Option Bytes :=
  let clean := trimName (mcRoomNameLen * 2) val
  let name := hashName clean
  if clean = [] ∨ name.length = 1 ∨ mcRoomNameLen ≤ name.length then none else some name

/-- The end of `add_room_ex`: the room's key as a derived channel. When the channel
list is full, only the channel is lost. -/
def registerRoomChannel (C : Crypto) (cfg : McConfig) (name : Bytes) (hub : Bool) : McConfig :=
  let had := cfg.publicChannels.length
  match registerChannel C cfg name (hashtagKey C name) true with
  | none => cfg
  | some cfg' =>
    if hub && had < cfg'.publicChannels.length then
      { cfg' with publicChannels := cfg'.publicChannels.modify had fun ch => { ch with hub := true } }
    else cfg'

/-- `add_room_ex`. -/
def addRoomEx (C : Crypto) (cfg : McConfig) (val : Bytes) (hub : Bool) : Option McConfig :=
  match roomName val with
  | none => none
  | some name =>
    if cfg.rooms.any fun r => r.name == name then some cfg
    else if mcMaxRooms ≤ cfg.rooms.length then none
    else
      let room : McRoom := ⟨name, hashtagKey C name, hub⟩
      some (registerRoomChannel C { cfg with rooms := cfg.rooms ++ [room] } name hub)

def addRoom (C : Crypto) (cfg : McConfig) (val : Bytes) : Option McConfig := addRoomEx C cfg val false

/-! ## Built-in channels and the hub's rooms -/

/-- `config_ensure_hashtag_channel`. -/
def configEnsureHashtagChannel (C : Crypto) (cfg : McConfig) (name : Bytes) : McConfig :=
  if name = [] then cfg
  else if cfg.publicChannels.any fun ch => ch.name == name then cfg
  else (registerChannel C cfg name (hashtagKey C name) true).getD cfg

/-- `config_ensure_ping_channel`. -/
def configEnsurePingChannel (C : Crypto) (cfg : McConfig) : McConfig :=
  let cfg := configEnsureHashtagChannel C cfg cfg.pingChannel
  if cfg.mboxEnable then configEnsureHashtagChannel C cfg (lit "#mbox") else cfg

/-- The last loop of `config_policy_merge`: one hub room, counted as served or as
skipped. -/
def mergeRoom (C : Crypto) (cfg : McConfig) (room : Bytes) : McConfig :=
  if cfg.rooms.any fun r => r.name == room then { cfg with policyRooms := cfg.policyRooms + 1 }
  else match addRoomEx C cfg room true with
    | some cfg' =>
      if cfg.rooms.length < cfg'.rooms.length then { cfg' with policyRooms := cfg'.policyRooms + 1 }
      else { cfg' with policySkipped := cfg'.policySkipped + 1 }
    | none => { cfg with policySkipped := cfg.policySkipped + 1 }

/-- `config_policy_merge`: the hub's entries out, then those of the kept set in. -/
def configPolicyMerge (C : Crypto) (cfg : McConfig) : McConfig :=
  let cfg := { cfg with
    rooms := cfg.rooms.filter fun r => !r.hub
    publicChannels := cfg.publicChannels.filter fun ch => !ch.hub
    policyRooms := 0
    policySkipped := cfg.policy.skipped }
  if cfg.backbonePolicy then cfg.policy.rooms.foldl (mergeRoom C) cfg else cfg

/-! ## What the list functions touch -/

theorem configBlacklistAdd_tables {cfg cfg' : McConfig} {name : Bytes} {already : Bool}
    (h : configBlacklistAdd cfg name = some (already, cfg')) :
    ∃ list, cfg' = { cfg with blacklist := list } := by
  unfold configBlacklistAdd at h
  simp only at h
  split at h
  · cases h
  split at h
  · cases h
    exact ⟨cfg.blacklist, rfl⟩
  split at h
  · cases h
  · cases h
    exact ⟨_, rfl⟩

theorem registerChannel_tables {C : Crypto} {cfg cfg' : McConfig} {name secret : Bytes}
    {derived : Bool} (h : registerChannel C cfg name secret derived = some cfg') :
    ∃ chans, cfg' = { cfg with publicChannels := chans } := by
  unfold registerChannel at h
  split at h
  · cases h
  split at h
  · cases h
    exact ⟨cfg.publicChannels, rfl⟩
  split at h
  · cases h
  · cases h
    exact ⟨_, rfl⟩

theorem addPublicChannel_tables {C : Crypto} {cfg cfg' : McConfig} {val : Bytes}
    (h : addPublicChannel C cfg val = some cfg') :
    ∃ chans, cfg' = { cfg with publicChannels := chans } := by
  unfold addPublicChannel at h
  split at h
  · exact registerChannel_tables h
  · cases h

theorem registerRoomChannel_tables (C : Crypto) (cfg : McConfig) (name : Bytes) (hub : Bool) :
    ∃ chans, registerRoomChannel C cfg name hub = { cfg with publicChannels := chans } := by
  unfold registerRoomChannel
  cases hreg : registerChannel C cfg name (hashtagKey C name) true with
  | none => exact ⟨cfg.publicChannels, rfl⟩
  | some cfg' =>
    obtain ⟨chans, rfl⟩ := registerChannel_tables hreg
    simp only
    split
    · exact ⟨_, rfl⟩
    · exact ⟨chans, rfl⟩

theorem addRoomEx_tables {C : Crypto} {cfg cfg' : McConfig} {val : Bytes} {hub : Bool}
    (h : addRoomEx C cfg val hub = some cfg') :
    ∃ rooms chans, cfg' = { cfg with rooms := rooms, publicChannels := chans } := by
  unfold addRoomEx at h
  split at h
  · cases h
  split at h
  · cases h
    exact ⟨cfg.rooms, cfg.publicChannels, rfl⟩
  split at h
  · cases h
  · cases h
    obtain ⟨chans, hc⟩ := registerRoomChannel_tables C _ _ hub
    exact ⟨_, chans, hc⟩

theorem configEnsureHashtagChannel_tables (C : Crypto) (cfg : McConfig) (name : Bytes) :
    ∃ chans, configEnsureHashtagChannel C cfg name = { cfg with publicChannels := chans } := by
  unfold configEnsureHashtagChannel
  split
  · exact ⟨cfg.publicChannels, rfl⟩
  split
  · exact ⟨cfg.publicChannels, rfl⟩
  cases hreg : registerChannel C cfg name (hashtagKey C name) true with
  | none => exact ⟨cfg.publicChannels, rfl⟩
  | some cfg' => exact registerChannel_tables hreg

theorem configEnsurePingChannel_tables (C : Crypto) (cfg : McConfig) :
    ∃ chans, configEnsurePingChannel C cfg = { cfg with publicChannels := chans } := by
  unfold configEnsurePingChannel
  obtain ⟨chans, h⟩ := configEnsureHashtagChannel_tables C cfg cfg.pingChannel
  rw [h]
  simp only
  split
  · exact configEnsureHashtagChannel_tables C { cfg with publicChannels := chans } (lit "#mbox")
  · exact ⟨chans, rfl⟩

theorem mergeRoom_tables (C : Crypto) (cfg : McConfig) (room : Bytes) :
    ∃ rooms chans served skipped, mergeRoom C cfg room =
      { cfg with rooms := rooms, publicChannels := chans, policyRooms := served,
                 policySkipped := skipped } := by
  unfold mergeRoom
  split
  · exact ⟨cfg.rooms, cfg.publicChannels, _, cfg.policySkipped, rfl⟩
  cases hadd : addRoomEx C cfg room true with
  | none => exact ⟨cfg.rooms, cfg.publicChannels, cfg.policyRooms, _, rfl⟩
  | some cfg' =>
    obtain ⟨rooms, chans, rfl⟩ := addRoomEx_tables hadd
    simp only
    split
    · exact ⟨rooms, chans, _, cfg.policySkipped, rfl⟩
    · exact ⟨rooms, chans, cfg.policyRooms, _, rfl⟩

/-- The merge touches the two tables and its two counts. -/
theorem configPolicyMerge_tables (C : Crypto) (cfg : McConfig) :
    ∃ rooms chans served skipped, configPolicyMerge C cfg =
      { cfg with rooms := rooms, publicChannels := chans, policyRooms := served,
                 policySkipped := skipped } := by
  have hfold : ∀ (list : List Bytes) (c : McConfig), ∃ rooms chans served skipped,
      list.foldl (mergeRoom C) c =
        { c with rooms := rooms, publicChannels := chans, policyRooms := served,
                 policySkipped := skipped } := by
    intro list
    induction list with
    | nil => exact fun c => ⟨c.rooms, c.publicChannels, c.policyRooms, c.policySkipped, rfl⟩
    | cons room list ih =>
      intro c
      obtain ⟨rooms, chans, served, skipped, h⟩ := mergeRoom_tables C c room
      obtain ⟨rooms', chans', served', skipped', h'⟩ := ih (mergeRoom C c room)
      exact ⟨rooms', chans', served', skipped', by rw [List.foldl_cons, h', h]⟩
  unfold configPolicyMerge
  simp only
  split
  · obtain ⟨rooms, chans, served, skipped, h⟩ := hfold cfg.policy.rooms _
    exact ⟨rooms, chans, served, skipped, h⟩
  · exact ⟨_, _, _, _, rfl⟩

end Meshcore
