import MeshcoreRepeater.Config.Policy
import MeshcoreRepeater.Lib.Run
import Mathlib.Data.List.Nodup

/-! # Whose an entry is

The operator and the hub add to the same two tables. An entry belongs to whoever
added it first: `hub` marks what the next set takes away again. No call but
`config_load` takes away an entry of the node's own (`KeepsOwn`), so what the
operator added stays exactly when it was not held as somebody else's before.

* `configStep_keepsOwn`: one call keeps the entries of the node's own.
* `Owned.run`: so do any calls without a `config_load`.
* `accepted_kept_iff`: an entry that was accepted stays, exactly when nobody else held it.
-/

namespace Meshcore

open ByteLib

variable {C : Crypto} {cfg cfg' : McConfig}

/-! ## The node's own entries -/

/-- The rooms the hub does not take away again. -/
def McConfig.ownRooms (cfg : McConfig) : List McRoom := cfg.rooms.filter fun r => !r.hub

/-- The channels the hub does not take away again. -/
def McConfig.ownChannels (cfg : McConfig) : List McPubChannel :=
  cfg.publicChannels.filter fun ch => !ch.hub

/-- The key of a channel. -/
def McPubChannel.key (ch : McPubChannel) : Bytes := ch.secret.read 0 ch.secretLen.toNat

/-- What was the node's own stays, in its place. -/
structure KeepsOwn (cfg cfg' : McConfig) : Prop where
  rooms : cfg.ownRooms <+: cfg'.ownRooms
  channels : cfg.ownChannels <+: cfg'.ownChannels

/-- Nothing changed. -/
theorem KeepsOwn.refl (cfg : McConfig) : KeepsOwn cfg cfg := ⟨List.prefix_rfl, List.prefix_rfl⟩

/-- One change behind another. -/
theorem KeepsOwn.trans {cfg'' : McConfig} (h : KeepsOwn cfg cfg') (h' : KeepsOwn cfg' cfg'') :
    KeepsOwn cfg cfg'' := ⟨h.rooms.trans h'.rooms, h.channels.trans h'.channels⟩

/-- Tables that only grow keep every entry. -/
theorem KeepsOwn.of_grows (hrooms : cfg.rooms <+: cfg'.rooms)
    (hchans : cfg.publicChannels <+: cfg'.publicChannels) : KeepsOwn cfg cfg' :=
  ⟨hrooms.filter _, hchans.filter _⟩

/-! ## Adding an entry -/

/-- The key is held already, or the channel goes to the end of the list. -/
theorem registerChannel_cases {name secret : Bytes} {derived : Bool}
    (h : registerChannel C cfg name secret derived = some cfg') :
    (secret.length = 16 ∨ secret.length = 32) ∧
      ((cfg' = cfg ∧ ∃ ch ∈ cfg.publicChannels, ch.holds secret = true) ∨
        ((∀ ch ∈ cfg.publicChannels, ch.holds secret = false) ∧
          cfg.publicChannels.length < mcMaxPublicChannels ∧
          cfg' = { cfg with
            publicChannels := cfg.publicChannels ++ [newChannel C name secret derived] })) := by
  unfold registerChannel at h
  -- wrong length, held already, no place, or added
  split at h
  · cases h
  rename_i hlen
  refine ⟨by omega, ?_⟩
  split at h
  · rename_i hheld
    cases h
    exact .inl ⟨rfl, by simpa using hheld⟩
  rename_i hfree
  split at h
  · cases h
  · cases h
    exact .inr ⟨by simpa using hfree, by omega, rfl⟩

/-- So the table of channels only grows. -/
theorem registerChannel_grows {name secret : Bytes} {derived : Bool}
    (h : registerChannel C cfg name secret derived = some cfg') :
    cfg.publicChannels <+: cfg'.publicChannels := by
  rcases (registerChannel_cases h).2 with ⟨rfl, -⟩ | ⟨-, -, rfl⟩
  · exact List.prefix_rfl
  · exact List.prefix_append _ _

/-- Changing the entry that was just appended. -/
theorem modify_concat {α : Type} (l : List α) (a : α) (f : α → α) :
    (l ++ [a]).modify l.length f = l ++ [f a] := by
  rw [List.modify_eq_take_cons_drop (by simp)]
  simp

/-- The channel of a room that is being added: nothing, or one entry with the room's
owner. -/
theorem registerRoomChannel_cases (C : Crypto) (cfg : McConfig) (name : Bytes) (hub : Bool) :
    registerRoomChannel C cfg name hub = cfg ∨
      ((∀ ch ∈ cfg.publicChannels, ch.holds (hashtagKey C name) = false) ∧
        registerRoomChannel C cfg name hub = { cfg with publicChannels := cfg.publicChannels ++
          [{ newChannel C name (hashtagKey C name) true with hub := hub }] }) := by
  unfold registerRoomChannel
  cases hreg : registerChannel C cfg name (hashtagKey C name) true with
  | none => exact .inl rfl
  | some cfg' =>
    rcases (registerChannel_cases hreg).2 with ⟨rfl, -⟩ | ⟨hfree, -, rfl⟩
    · exact .inl (by simp)
    · refine .inr ⟨hfree, ?_⟩
      -- the hub's mark is put on the entry that is new
      cases hub with
      | false => simp [newChannel]
      | true => simp [modify_concat]

/-- The room is served already, or it goes to the end of the list. -/
theorem addRoomEx_cases {val : Bytes} {hub : Bool} (h : addRoomEx C cfg val hub = some cfg') :
    ∃ name, roomName val = some name ∧
      ((cfg' = cfg ∧ ∃ r ∈ cfg.rooms, r.name = name) ∨
        ((∀ r ∈ cfg.rooms, r.name ≠ name) ∧ cfg.rooms.length < mcMaxRooms ∧
          cfg' = registerRoomChannel C
            { cfg with rooms := cfg.rooms ++ [⟨name, hashtagKey C name, hub⟩] } name hub)) := by
  unfold addRoomEx at h
  cases hname : roomName val with
  | none => simp [hname] at h
  | some name =>
    refine ⟨name, rfl, ?_⟩
    simp only [hname] at h
    split at h
    · rename_i hheld
      cases h
      exact .inl ⟨rfl, by simpa using hheld⟩
    rename_i hfree
    split at h
    · cases h
    · cases h
      exact .inr ⟨by simpa using hfree, by omega, rfl⟩

/-- A room that is added takes nothing away. -/
theorem addRoomEx_grows {val : Bytes} {hub : Bool} (h : addRoomEx C cfg val hub = some cfg') :
    cfg.rooms <+: cfg'.rooms ∧ cfg.publicChannels <+: cfg'.publicChannels := by
  obtain ⟨name, -, ⟨rfl, -⟩ | ⟨-, -, rfl⟩⟩ := addRoomEx_cases h
  · exact ⟨List.prefix_rfl, List.prefix_rfl⟩
  rcases registerRoomChannel_cases C { cfg with rooms := cfg.rooms ++ [⟨name, hashtagKey C name, hub⟩] }
    name hub with heq | ⟨-, heq⟩
  all_goals rw [heq]
  · exact ⟨List.prefix_append _ _, List.prefix_rfl⟩
  · exact ⟨List.prefix_append _ _, List.prefix_append _ _⟩

/-- Nothing happens, or the channel of the name is registered. -/
theorem configEnsureHashtagChannel_cases (C : Crypto) (cfg : McConfig) (name : Bytes) :
    configEnsureHashtagChannel C cfg name = cfg ∨
      registerChannel C cfg name (hashtagKey C name) true =
        some (configEnsureHashtagChannel C cfg name) := by
  unfold configEnsureHashtagChannel
  split
  · exact .inl rfl
  split
  · exact .inl rfl
  cases hreg : registerChannel C cfg name (hashtagKey C name) true with
  | none => exact .inl rfl
  | some cfg' => exact .inr rfl

/-- Neither way an entry is lost. -/
theorem configEnsureHashtagChannel_grows (C : Crypto) (cfg : McConfig) (name : Bytes) :
    (configEnsureHashtagChannel C cfg name).rooms = cfg.rooms ∧
      cfg.publicChannels <+: (configEnsureHashtagChannel C cfg name).publicChannels := by
  rcases configEnsureHashtagChannel_cases C cfg name with heq | hreg
  · rw [heq]
    exact ⟨rfl, List.prefix_rfl⟩
  · refine ⟨?_, registerChannel_grows hreg⟩
    obtain ⟨chans, heq⟩ := registerChannel_tables hreg
    rw [heq]

/-- A setting adds to the tables and takes nothing away. -/
theorem SetEffect.grows {k : ConfigKey} {val : Bytes} (h : SetEffect C cfg k val cfg') :
    cfg.rooms <+: cfg'.rooms ∧ cfg.publicChannels <+: cfg'.publicChannels := by
  have htables := h.tables
  -- `room`, `public_channel` and `mbox` touch the tables, no other key does
  split at htables
  · exact addRoomEx_grows htables
  · unfold addPublicChannel at htables
    split at htables
    · refine ⟨?_, registerChannel_grows htables⟩
      obtain ⟨chans, rfl⟩ := registerChannel_tables htables
      exact List.prefix_rfl
    · cases htables
  · obtain ⟨b, -, rfl⟩ := setWith_ok htables
    cases b with
    | false => exact ⟨List.prefix_rfl, List.prefix_rfl⟩
    | true =>
      obtain ⟨hrooms, hchans⟩ :=
        configEnsureHashtagChannel_grows C { cfg with mboxEnable := true } (lit "#mbox")
      refine ⟨?_, hchans⟩
      simp only [if_true, hrooms]
      exact List.prefix_rfl
  · obtain ⟨hrooms, hchans⟩ := htables
    exact ⟨hrooms ▸ List.prefix_rfl, hchans ▸ List.prefix_rfl⟩

/-- An accepted setting has the effect of its key. -/
theorem configSet_effect {key val : Bytes} (h : configSet C cfg key val = .ok cfg') :
    ∃ k, ConfigKey.find key = some k ∧ SetEffect C cfg k val cfg' := by
  unfold configSet at h
  split at h
  · rename_i k hk
    exact ⟨k, hk, setKey_effect h⟩
  · cases h

/-! ## The merge -/

/-- Merging a room adds, at most. -/
theorem mergeRoom_keepsOwn (C : Crypto) (cfg : McConfig) (room : Bytes) :
    KeepsOwn cfg (mergeRoom C cfg room) := by
  unfold mergeRoom
  -- served already, or added; the count of rooms is another matter
  split
  · exact ⟨List.prefix_rfl, List.prefix_rfl⟩
  cases hadd : addRoomEx C cfg room true with
  | none => exact ⟨List.prefix_rfl, List.prefix_rfl⟩
  | some cfg' =>
    have hgrows := addRoomEx_grows hadd
    simp only
    split
    · exact .of_grows hgrows.1 hgrows.2
    · exact .of_grows hgrows.1 hgrows.2

/-- The tables without what the hub added. -/
def dropHub (cfg : McConfig) : McConfig :=
  { cfg with
    rooms := cfg.rooms.filter fun r => !r.hub
    publicChannels := cfg.publicChannels.filter fun ch => !ch.hub
    policyRooms := 0
    policySkipped := cfg.policy.skipped }

/-- The merge: out with what the hub added, then its rooms again, if the switch is on. -/
theorem configPolicyMerge_eq (C : Crypto) (cfg : McConfig) :
    configPolicyMerge C cfg = if cfg.backbonePolicy then cfg.policy.rooms.foldl (mergeRoom C) (dropHub cfg)
      else dropHub cfg := rfl

/-- The merge takes out what the hub put in, and no entry of the node's own. -/
theorem configPolicyMerge_keepsOwn (C : Crypto) (cfg : McConfig) :
    KeepsOwn cfg (configPolicyMerge C cfg) := by
  -- dropping the hub's entries changes nothing about the others
  have hdrop : KeepsOwn cfg (dropHub cfg) :=
    ⟨by simp [McConfig.ownRooms, dropHub], by simp [McConfig.ownChannels, dropHub]⟩
  have hfold : ∀ (rooms : List Bytes) (c : McConfig), KeepsOwn c (rooms.foldl (mergeRoom C) c) := by
    intro rooms
    induction rooms with
    | nil => exact .refl
    | cons room rooms ih => exact fun c => (mergeRoom_keepsOwn C c room).trans (ih _)
  rw [configPolicyMerge_eq]
  split
  · exact hdrop.trans (hfold _ _)
  · exact hdrop

/-- Neither does a new set. -/
theorem configSetPolicy_keepsOwn (C : Crypto) (cfg : McConfig) (p : McPolicy) (ownPub : Option Bytes) :
    KeepsOwn cfg (configSetPolicy C cfg p ownPub) := by
  have h := configPolicyMerge_keepsOwn C { cfg with policy := guardedPolicy cfg.name ownPub p }
  exact ⟨h.rooms, h.channels⟩

/-- The calls that do not read the file again. -/
def ConfigCall.IsLoad : ConfigCall → Prop
  | .load _ => True
  | _ => False

/-- No call but `config_load` takes an entry of the node's own away. -/
theorem configStep_keepsOwn {x : ConfigCall} (h : ¬x.IsLoad) (cfg : McConfig) :
    KeepsOwn cfg (configStep C cfg x) := by
  -- a refused setting, a missing file and a version 0 change nothing
  cases x with
  | set key val =>
    rw [configStep]
    cases hset : configSet C cfg key val with
    | error e => exact .refl cfg
    | ok cfg' =>
      obtain ⟨k, -, heffect⟩ := configSet_effect hset
      exact .of_grows heffect.grows.1 heffect.grows.2
  | load file => exact absurd trivial h
  | setPolicy p ownPub => exact configSetPolicy_keepsOwn C cfg p ownPub
  | policyLoad file ownPub =>
    simp only [configStep, configPolicyLoad]
    cases file.map readPolicy with
    | none => exact .refl cfg
    | some p =>
      simp only
      split
      · exact .refl cfg
      · exact configSetPolicy_keepsOwn C cfg p ownPub
  | save => exact .refl cfg

/-! ## The tables hold each thing once -/

/-- What is true of the two tables in every configuration a run of calls ends in. -/
structure Tables (cfg : McConfig) : Prop where
  names : (cfg.rooms.map (·.name)).Nodup
  keys : (cfg.publicChannels.map (·.key)).Nodup
  wide : ∀ ch ∈ cfg.publicChannels, ch.secretLen.toNat ≤ 32
  derived : ∀ ch ∈ cfg.publicChannels, ch.hub = true → ch.derived = true

/-- A channel holds the secret that is its key. -/
theorem McPubChannel.holds_iff {ch : McPubChannel} (h : ch.secretLen.toNat ≤ 32) (secret : Bytes) :
    ch.holds secret = true ↔ ch.key = secret := by
  simp only [holds, key, Bool.and_eq_true, beq_iff_eq]
  constructor
  · rintro ⟨hlen, hread⟩
    rw [hlen, hread]
  · rintro rfl
    have hlen := ch.secret.length_read 0 ch.secretLen.toNat (by omega)
    exact ⟨hlen.symm, by rw [hlen]⟩

/-- The key of a new channel is the secret it was made from. -/
theorem newChannel_key (C : Crypto) (name : Bytes) {secret : Bytes} (derived : Bool)
    (h : secret.length ≤ 32) : (newChannel C name secret derived).key = secret ∧
      (newChannel C name secret derived).secretLen.toNat = secret.length := by
  have hlen : (UInt8.ofNat secret.length).toNat = secret.length := by
    rw [UInt8.toNat_ofNat']
    omega
  exact ⟨by simp [newChannel, McPubChannel.key, hlen, h], hlen⟩

namespace Tables

/-- The tables alone matter. -/
theorem of_tables (h : Tables cfg) (hrooms : cfg'.rooms = cfg.rooms)
    (hchans : cfg'.publicChannels = cfg.publicChannels) : Tables cfg' :=
  ⟨hrooms ▸ h.names, hchans ▸ h.keys, hchans ▸ h.wide, hchans ▸ h.derived⟩

/-- A channel with a key of its own goes to the end. -/
theorem addChannel (h : Tables cfg) {name secret : Bytes} {hub : Bool} {derived : Bool}
    (hlen : secret.length ≤ 32) (hhub : hub = true → derived = true)
    (hfree : ∀ ch ∈ cfg.publicChannels, ch.holds secret = false) :
    Tables { cfg with publicChannels := cfg.publicChannels ++
      [{ newChannel C name secret derived with hub := hub }] } := by
  obtain ⟨hkey, hsecret⟩ := newChannel_key C name derived hlen
  constructor
  · exact h.names
  · rw [List.map_append, List.nodup_append]
    refine ⟨h.keys, by simp, ?_⟩
    -- a key that is there already would be held
    rintro k hk k' hk' rfl
    obtain ⟨ch, hch, rfl⟩ := List.mem_map.mp hk
    have hsame : ch.key = secret := (List.mem_singleton.mp hk').trans hkey
    have := (McPubChannel.holds_iff (h.wide ch hch) secret).mpr hsame
    simp [hfree ch hch] at this
  · intro ch hch
    rcases List.mem_append.mp hch with hold | hnew
    · exact h.wide ch hold
    · rw [List.mem_singleton.mp hnew]
      exact hsecret.trans_le hlen
  · intro ch hch
    rcases List.mem_append.mp hch with hold | hnew
    · exact h.derived ch hold
    · rw [List.mem_singleton.mp hnew]
      exact hhub

/-- `register_channel` adds a channel only when its key is free. -/
theorem registerChannel (h : Tables cfg) {name secret : Bytes} {derived : Bool}
    (hreg : registerChannel C cfg name secret derived = some cfg') : Tables cfg' := by
  obtain ⟨hlen, ⟨rfl, -⟩ | ⟨hfree, -, rfl⟩⟩ := registerChannel_cases hreg
  · exact h
  · exact h.addChannel (by omega) (by simp) hfree

/-- So do the channels derived from names. -/
theorem configEnsureHashtagChannel (h : Tables cfg) (name : Bytes) :
    Tables (configEnsureHashtagChannel C cfg name) := by
  rcases configEnsureHashtagChannel_cases C cfg name with heq | hreg
  · rw [heq]
    exact h
  · exact h.registerChannel hreg

/-- At most two of them. -/
theorem configEnsurePingChannel (h : Tables cfg) : Tables (configEnsurePingChannel C cfg) := by
  unfold Meshcore.configEnsurePingChannel
  simp only
  split
  · exact (h.configEnsureHashtagChannel _).configEnsureHashtagChannel _
  · exact h.configEnsureHashtagChannel _

/-- A room, with its channel. -/
theorem addRoomEx (h : Tables cfg) {val : Bytes} {hub : Bool}
    (hadd : addRoomEx C cfg val hub = some cfg') : Tables cfg' := by
  obtain ⟨name, -, ⟨rfl, -⟩ | ⟨hfree, -, rfl⟩⟩ := addRoomEx_cases hadd
  · exact h
  -- the room first, then its channel
  have hroom : Tables { cfg with rooms := cfg.rooms ++ [⟨name, hashtagKey C name, hub⟩] } := by
    refine ⟨?_, h.keys, h.wide, h.derived⟩
    rw [List.map_append, List.nodup_append]
    refine ⟨h.names, by simp, ?_⟩
    rintro n hn n' hn' rfl
    obtain ⟨r, hr, rfl⟩ := List.mem_map.mp hn
    exact hfree r hr (List.mem_singleton.mp hn')
  rcases registerRoomChannel_cases C { cfg with rooms := cfg.rooms ++ [⟨name, hashtagKey C name, hub⟩] }
    name hub with heq | ⟨hnone, heq⟩
  · rw [heq]
    exact hroom
  · rw [heq]
    refine hroom.addChannel ?_ (fun _ => rfl) hnone
    simp [hashtagKey, Buf.read, (C.sha256 name).length_eq]

/-- Any accepted setting. -/
theorem setEffect (h : Tables cfg) {k : ConfigKey} {val : Bytes} (heffect : SetEffect C cfg k val cfg') :
    Tables cfg' := by
  have htables := heffect.tables
  split at htables
  · exact h.addRoomEx htables
  · unfold addPublicChannel at htables
    split at htables
    · exact h.registerChannel htables
    · cases htables
  · obtain ⟨b, -, rfl⟩ := setWith_ok htables
    have hmbox : Tables { cfg with mboxEnable := b } := h.of_tables rfl rfl
    cases b with
    | false => exact hmbox
    | true =>
      simp only [if_true]
      exact hmbox.configEnsureHashtagChannel _
  · exact h.of_tables htables.1 htables.2

/-- Any call of `config_set`; a refused one changes nothing. -/
theorem configSet (h : Tables cfg) (key val : Bytes) :
    Tables ((configSet C cfg key val).toOption.getD cfg) := by
  cases hset : Meshcore.configSet C cfg key val with
  | error e => exact h
  | ok cfg' =>
    obtain ⟨k, -, heffect⟩ := configSet_effect hset
    exact h.setEffect heffect

theorem dropHub (h : Tables cfg) : Tables (dropHub cfg) where
  names := h.names.sublist (List.filter_sublist.map _)
  keys := h.keys.sublist (List.filter_sublist.map _)
  wide ch hch := h.wide ch (List.mem_of_mem_filter hch)
  derived ch hch := h.derived ch (List.mem_of_mem_filter hch)

/-- One room of the hub. -/
theorem mergeRoom (h : Tables cfg) (room : Bytes) : Tables (mergeRoom C cfg room) := by
  unfold Meshcore.mergeRoom
  split
  · exact h.of_tables rfl rfl
  cases hadd : Meshcore.addRoomEx C cfg room true with
  | none => exact h.of_tables rfl rfl
  | some cfg' =>
    simp only
    split
    · exact (h.addRoomEx hadd).of_tables rfl rfl
    · exact (h.addRoomEx hadd).of_tables rfl rfl

/-- The merge. -/
theorem configPolicyMerge (h : Tables cfg) : Tables (configPolicyMerge C cfg) := by
  have hfold : ∀ (rooms : List Bytes) (c : McConfig), Tables c →
      Tables (rooms.foldl (Meshcore.mergeRoom C) c) := by
    intro rooms
    induction rooms with
    | nil => exact fun c hc => hc
    | cons room rooms ih => exact fun c hc => ih _ (hc.mergeRoom room)
  rw [configPolicyMerge_eq]
  split
  · exact hfold _ _ h.dropHub
  · exact h.dropHub

/-- The lines of a file, one after the other. -/
theorem loadLines (h : Tables cfg) (lines : List Bytes) : Tables (lines.foldl (loadLine C) cfg) := by
  induction lines generalizing cfg with
  | nil => exact h
  | cons line lines ih =>
    apply ih
    unfold loadLine
    split
    · exact h.configSet _ _
    · exact h

/-- A load empties the lists before it reads. -/
theorem configLoad (h : Tables cfg) (file : Option Bytes) : Tables (configLoad C cfg file) := by
  unfold Meshcore.configLoad
  cases file with
  | none => exact h.configEnsurePingChannel.configPolicyMerge
  | some file =>
    have hclear : Tables (clearLists cfg) := by constructor <;> simp [clearLists]
    exact (hclear.loadLines _).configEnsurePingChannel.configPolicyMerge

/-- A set of the hub. -/
theorem configSetPolicy (h : Tables cfg) (p : McPolicy) (ownPub : Option Bytes) :
    Tables (configSetPolicy C cfg p ownPub) :=
  (h.of_tables rfl rfl : Tables { cfg with policy := guardedPolicy cfg.name ownPub p }).configPolicyMerge

/-- One call. -/
theorem configStep (h : Tables cfg) (x : ConfigCall) : Tables (configStep C cfg x) := by
  cases x with
  | set key val => exact h.configSet key val
  | load file => exact h.configLoad file
  | setPolicy p ownPub => exact h.configSetPolicy p ownPub
  | policyLoad file ownPub =>
    simp only [Meshcore.configStep, configPolicyLoad]
    cases file.map readPolicy with
    | none => exact h
    | some p =>
      simp only
      split
      · exact h
      · exact h.configSetPolicy p ownPub
  | save => exact h

end Tables

/-- The configuration after the calls, starting from the defaults. -/
def configAfter (C : Crypto) (calls : List ConfigCall) : McConfig :=
  Runs.run (configStep C) configDefaults calls

/-- Any calls. -/
theorem tables_configAfter (C : Crypto) (calls : List ConfigCall) : Tables (configAfter C calls) :=
  Runs.run_invariant Tables (fun _ x h => h.configStep x) (by constructor <;> simp [configDefaults])
    calls

/-! ## What is written of an entry -/

/-- Key and value can be told from the line. -/
theorem settingLine_inj {k k' : ConfigKey} {val val' : Bytes}
    (h : settingLine k.text val = settingLine k'.text val') : k = k' ∧ val = val' := by
  have hk : k = k' := by
    have hread := congrArg parseSetting h
    rw [parseSetting_settingLine, parseSetting_settingLine, Option.some.injEq, Prod.mk.injEq] at hread
    have hfind := congrArg ConfigKey.find hread.1
    rwa [ConfigKey.find_text, ConfigKey.find_text, Option.some.injEq] at hfind
  subst hk
  refine ⟨rfl, ?_⟩
  simpa [settingLine] using h

/-- A key as a `public_channel` line shows it, behind its name if it has one. -/
def namedKey (name secret : Bytes) : Bytes :=
  if name = [] then hexText secret else name ++ 58 :: hexText secret

/-- The key can be told from the text of a channel. -/
theorem namedKey_inj {name name' secret secret' : Bytes} (h : namedKey name secret = namedKey name' secret') :
    secret = secret' := by
  -- the key is what stands behind the last colon
  have hlast : ∀ n s : Bytes, (namedKey n s).rtakeWhile (· ≠ 58) = hexText s := by
    intro n s
    have hhex : ∀ c ∈ hexText s, decide (c ≠ 58) = true := by
      intro c hc
      refine decide_eq_true ?_
      rintro rfl
      exact absurd (mem_hexText hc) (by decide)
    unfold namedKey
    split
    · exact List.rtakeWhile_eq_self_iff.mpr hhex
    · have hrev : ∀ c ∈ (hexText s).reverse, decide (c ≠ 58) = true :=
        fun c hc => hhex c (List.mem_reverse.mp hc)
      simp only [List.rtakeWhile, List.reverse_append, List.reverse_cons, List.append_assoc]
      rw [List.takeWhile_append_of_pos hrev]
      simp
  have hhex : hexText secret = hexText secret' := by rw [← hlast name, ← hlast name', h]
  have hpairs := congrArg hexPairs hhex
  rwa [hexPairs_hexText, hexPairs_hexText, Option.some.injEq] at hpairs

/-- The `public_channel` settings of a saved file are its channels that were not
derived from a name. -/
theorem mem_savedSettings_publicChannel {val : Bytes}
    (h : (ConfigKey.publicChannel, val) ∈ savedSettings cfg) :
    ∃ ch ∈ cfg.publicChannels, ch.derived = false ∧ val = channelText ch := by
  have hkeys : ConfigKey.publicChannel ∉ savedKeys := by decide
  unfold savedSettings at h
  simp only [List.mem_append, List.mem_map, List.mem_singleton, Prod.mk.injEq, List.mem_ite_nil_left,
    reduceCtorEq, false_and, and_false, exists_false, or_false] at h
  rcases h with ⟨k, hk, rfl, -⟩ | ⟨ch, hch, -, rfl⟩
  · exact absurd hk hkeys
  · refine ⟨ch, List.mem_of_mem_filter hch, by simpa using (List.mem_filter.mp hch).2, rfl⟩

/-- A channel with a key of its own has a line. -/
theorem channelText_mem {ch : McPubChannel} (h : ch ∈ cfg.publicChannels) (hd : ch.derived = false) :
    settingLine ConfigKey.publicChannel.text (channelText ch) ∈ savedLines cfg := by
  refine List.mem_cons_of_mem _ (List.mem_map.mpr ⟨(ConfigKey.publicChannel, channelText ch), ?_, rfl⟩)
  have hmem : (ConfigKey.publicChannel, channelText ch) ∈
      ((cfg.publicChannels.filter fun ch => !ch.derived).map fun ch =>
        (ConfigKey.publicChannel, channelText ch)) :=
    List.mem_map.mpr ⟨ch, List.mem_filter.mpr ⟨h, by simp [hd]⟩, rfl⟩
  simp only [savedSettings, List.mem_append]
  tauto

/-- A room of the node's own has a line. -/
theorem roomText_mem {r : McRoom} (h : r ∈ cfg.ownRooms) :
    settingLine ConfigKey.room.text (bareName r.name) ∈ savedLines cfg := by
  refine List.mem_cons_of_mem _ (List.mem_map.mpr ⟨(ConfigKey.room, bareName r.name), ?_, rfl⟩)
  have hmem : (ConfigKey.room, bareName r.name) ∈
      ((cfg.rooms.filter fun r => !r.hub).map fun r => (ConfigKey.room, bareName r.name)) :=
    List.mem_map.mpr ⟨r, h, rfl⟩
  simp only [savedSettings, List.mem_append]
  tauto

/-! ## What the operator added -/

/-- What an accepted setting adds for the operator: a room, a channel's key, or the
mailbox channel. -/
inductive OwnSetting where
  | room (name : Bytes)
  | channel (secret : Bytes)
  | mbox
deriving DecidableEq

/-- What `config_set` of this key and value adds. -/
def ownSetting (key val : Bytes) : Option OwnSetting :=
  match ConfigKey.find key with
  | some .room => (roomName val).map .room
  | some .publicChannel => (channelSecret val).map .channel
  | some .mbox => if parseBool val = some true then some .mbox else none
  | _ => none

/-- The key of the mailbox channel. -/
def mboxKey (C : Crypto) : Bytes := hashtagKey C (lit "#mbox")

/-- It is served: a room in `rooms`, a key in `public_channels`. -/
def Served (C : Crypto) (cfg : McConfig) : OwnSetting → Prop
  | .room name => ∃ r ∈ cfg.rooms, r.name = name
  | .channel secret => ∃ ch ∈ cfg.publicChannels, ch.holds secret = true
  | .mbox => ∃ ch ∈ cfg.publicChannels, ch.holds (mboxKey C) = true

/-- `config_save` writes a line for it. The mailbox channel has none. -/
def Written (cfg : McConfig) : OwnSetting → Prop
  | .room name => settingLine ConfigKey.room.text (bareName name) ∈ savedLines cfg
  | .channel secret =>
    ∃ name, settingLine ConfigKey.publicChannel.text (namedKey name secret) ∈ savedLines cfg
  | .mbox => True

/-- Nobody else holds it: the room is not the hub's, the key is not that of a channel
derived from a name, the hub's among them. The mailbox channel also needs its name and
a place when nobody holds its key. -/
def NotTaken (C : Crypto) (cfg : McConfig) : OwnSetting → Prop
  | .room name => ∀ r ∈ cfg.rooms, r.name = name → r.hub = false
  | .channel secret => ∀ ch ∈ cfg.publicChannels, ch.holds secret = true → ch.derived = false
  | .mbox =>
    (∀ ch ∈ cfg.publicChannels, ch.holds (mboxKey C) = true → ch.hub = false) ∧
      ((∃ ch ∈ cfg.publicChannels, ch.holds (mboxKey C) = true) ∨
        (∀ ch ∈ cfg.publicChannels, ch.name ≠ lit "#mbox") ∧
          cfg.publicChannels.length < mcMaxPublicChannels)

/-- It is held as the node's own. -/
def Owned (C : Crypto) (cfg : McConfig) : OwnSetting → Prop
  | .room name => ∃ r ∈ cfg.ownRooms, r.name = name
  | .channel secret => ∃ ch ∈ cfg.ownChannels, ch.holds secret = true ∧ ch.derived = false
  | .mbox => ∃ ch ∈ cfg.ownChannels, ch.holds (mboxKey C) = true

/-- What keeps the node's own entries keeps this one. -/
theorem Owned.keeps {e : OwnSetting} (h : Owned C cfg e) (hkeeps : KeepsOwn cfg cfg') :
    Owned C cfg' e := by
  cases e with
  | room name =>
    obtain ⟨r, hr, hname⟩ := h
    exact ⟨r, hkeeps.rooms.subset hr, hname⟩
  | channel secret =>
    obtain ⟨ch, hch, hholds⟩ := h
    exact ⟨ch, hkeeps.channels.subset hch, hholds⟩
  | mbox =>
    obtain ⟨ch, hch, hholds⟩ := h
    exact ⟨ch, hkeeps.channels.subset hch, hholds⟩

/-- It is still so after any calls without a `config_load`. -/
theorem Owned.run {e : OwnSetting} (h : Owned C cfg e) {calls : List ConfigCall}
    (hcalls : ∀ x ∈ calls, ¬x.IsLoad) : Owned C (Runs.run (configStep C) cfg calls) e := by
  refine Runs.run_invariant_of (fun _ x => ¬x.IsLoad) (fun c => Owned C c e) ?_
    (Runs.every_of_forall_mem hcalls) h
  intro c x hx hc
  exact hc.keeps (configStep_keepsOwn hx c)

/-- The secret a channel holds is its key. -/
theorem McPubChannel.key_of_holds {ch : McPubChannel} {secret : Bytes} (h : ch.holds secret = true) :
    ch.key = secret := by
  simp only [holds, Bool.and_eq_true, beq_iff_eq] at h
  rw [key, h.1, h.2]

/-- What the node owns is served and written. -/
theorem Owned.served {e : OwnSetting} (h : Owned C cfg e) : Served C cfg e ∧ Written cfg e := by
  cases e with
  | room name =>
    obtain ⟨r, hr, rfl⟩ := h
    exact ⟨⟨r, List.mem_of_mem_filter hr, rfl⟩, roomText_mem hr⟩
  | channel secret =>
    obtain ⟨ch, hch, hholds, hderived⟩ := h
    have hmem := List.mem_of_mem_filter hch
    refine ⟨⟨ch, hmem, hholds⟩, ch.name, ?_⟩
    have htext := channelText_mem hmem hderived
    rw [← McPubChannel.key_of_holds hholds]
    exact htext
  | mbox =>
    obtain ⟨ch, hch, hholds⟩ := h
    exact ⟨⟨ch, List.mem_of_mem_filter hch, hholds⟩, trivial⟩

/-! ## Accepting a setting -/

/-- A new channel holds its secret. -/
theorem holds_newChannel (C : Crypto) (name : Bytes) {secret : Bytes} (derived : Bool)
    (h : secret.length ≤ 32) : (newChannel C name secret derived).holds secret = true := by
  obtain ⟨hkey, hlen⟩ := newChannel_key C name derived h
  exact (McPubChannel.holds_iff (by omega) secret).mpr hkey

/-- It is the node's own until somebody marks it. -/
theorem mem_ownChannels_newChannel {chans : List McPubChannel} (C : Crypto) (name secret : Bytes)
    (derived : Bool) : newChannel C name secret derived ∈
      McConfig.ownChannels { cfg with publicChannels := chans ++ [newChannel C name secret derived] } := by
  simp [McConfig.ownChannels, newChannel]

/-- The key of a name has 16 bytes. -/
theorem length_hashtagKey (C : Crypto) (name : Bytes) : (hashtagKey C name).length = 16 :=
  (C.sha256 name).length_read 0 16 (by omega)

/-- What registering the mailbox channel does: nothing, or a channel at the end. -/
theorem ensureMbox_cases (C : Crypto) (cfg : McConfig) :
    (configEnsureHashtagChannel C cfg (lit "#mbox") = cfg ∧
        ((∃ ch ∈ cfg.publicChannels, ch.name = lit "#mbox") ∨
          (∃ ch ∈ cfg.publicChannels, ch.holds (mboxKey C) = true) ∨
          mcMaxPublicChannels ≤ cfg.publicChannels.length)) ∨
      ((∀ ch ∈ cfg.publicChannels, ch.name ≠ lit "#mbox") ∧
        cfg.publicChannels.length < mcMaxPublicChannels ∧
        configEnsureHashtagChannel C cfg (lit "#mbox") = { cfg with publicChannels :=
          cfg.publicChannels ++ [newChannel C (lit "#mbox") (mboxKey C) true] }) := by
  unfold configEnsureHashtagChannel
  rw [if_neg (by decide)]
  split
  -- a channel of that name is enough, whatever its key
  · rename_i hnamed
    exact .inl ⟨rfl, .inl (by simpa using hnamed)⟩
  rename_i hnamed
  cases hreg : registerChannel C cfg (lit "#mbox") (hashtagKey C (lit "#mbox")) true with
  | some cfg' =>
    rcases (registerChannel_cases hreg).2 with ⟨rfl, hheld⟩ | ⟨-, hroom, rfl⟩
    · exact .inl ⟨rfl, .inr (.inl hheld)⟩
    · exact .inr ⟨by simpa using hnamed, hroom, rfl⟩
  | none =>
    refine .inl ⟨rfl, .inr (.inr ?_)⟩
    have hlen := length_hashtagKey C (lit "#mbox")
    unfold registerChannel at hreg
    rw [if_neg (by omega)] at hreg
    split at hreg
    · cases hreg
    split at hreg
    -- the length is right and nobody holds the key, so the table is full
    · assumption
    · cases hreg

/-- The call behind an accepted setting that adds something. -/
def Adds (C : Crypto) (cfg cfg' : McConfig) (val : Bytes) : OwnSetting → Prop
  | .room name => roomName val = some name ∧ addRoomEx C cfg val false = some cfg'
  | .channel secret => registerChannel C cfg (channelName val) secret false = some cfg'
  | .mbox => cfg' = configEnsureHashtagChannel C { cfg with mboxEnable := true } (lit "#mbox")

/-- The three keys that add an entry; no other setting is asked about. -/
theorem adds_of_configSet {key val : Bytes} {e : OwnSetting} (h : configSet C cfg key val = .ok cfg')
    (he : ownSetting key val = some e) : Adds C cfg cfg' val e := by
  obtain ⟨k, hk, heffect⟩ := configSet_effect h
  have htables := heffect.tables
  simp only [ownSetting, hk] at he
  cases k with
  | room =>
    obtain ⟨name, hname, rfl⟩ := Option.map_eq_some_iff.mp he
    exact ⟨hname, htables⟩
  | publicChannel =>
    obtain ⟨secret, hsecret, rfl⟩ := Option.map_eq_some_iff.mp he
    simpa only [Adds, addPublicChannel, hsecret] using htables
  | mbox =>
    simp only [Option.ite_none_right_eq_some, Option.some.injEq] at he
    obtain ⟨hval, rfl⟩ := he
    obtain ⟨b, hb, rfl⟩ := setWith_ok htables
    obtain rfl : true = b := by simpa [hval] using hb
    rfl
  | _ => cases he

/-- What nobody else holds becomes the node's own. -/
theorem Adds.owned {val : Bytes} {e : OwnSetting} (h : Adds C cfg cfg' val e)
    (hfree : NotTaken C cfg e) (htables : Tables cfg) : Owned C cfg' e := by
  -- each entry: held already, and then by the node, or new
  cases e with
  | room name =>
    obtain ⟨hname, hadd⟩ := h
    obtain ⟨name', hname', ⟨rfl, r, hr, rfl⟩ | ⟨-, -, rfl⟩⟩ := addRoomEx_cases hadd
    · obtain rfl : r.name = name := Option.some.inj (hname'.symm.trans hname)
      exact ⟨r, List.mem_filter.mpr ⟨hr, by simp [hfree r hr rfl]⟩, rfl⟩
    · obtain rfl : name' = name := Option.some.inj (hname'.symm.trans hname)
      obtain ⟨chans, hchans⟩ := registerRoomChannel_tables C
        { cfg with rooms := cfg.rooms ++ [⟨name', hashtagKey C name', false⟩] } name' false
      rw [hchans]
      exact ⟨⟨name', hashtagKey C name', false⟩, by simp [McConfig.ownRooms], rfl⟩
  | channel secret =>
    obtain ⟨hlen, ⟨rfl, ch, hch, hholds⟩ | ⟨-, -, rfl⟩⟩ := registerChannel_cases h
    · have hderived := hfree ch hch hholds
      -- what is the hub's is derived, so this one is the node's
      have hhub : ch.hub = false := by
        by_contra hne
        have := htables.derived ch hch (by simpa using hne)
        simp [hderived] at this
      exact ⟨ch, List.mem_filter.mpr ⟨hch, by simp [hhub]⟩, hholds, hderived⟩
    · exact ⟨_, mem_ownChannels_newChannel C _ _ _, holds_newChannel C _ _ (by omega), rfl⟩
  | mbox =>
    obtain ⟨hhub, hroom⟩ := hfree
    have hlen := length_hashtagKey C (lit "#mbox")
    have hcases := ensureMbox_cases C { cfg with mboxEnable := true }
    rw [← show cfg' = _ from h] at hcases
    rcases hcases with ⟨rfl, hwhy⟩ | ⟨-, -, rfl⟩
    · -- nothing was added: the key must be held already
      have hheld : ∃ ch ∈ cfg.publicChannels, ch.holds (mboxKey C) = true := by
        rcases hroom with hheld | ⟨hnamed, hplace⟩
        · exact hheld
        rcases hwhy with ⟨ch, hch, hname⟩ | hheld | hfull
        · exact absurd hname (hnamed ch hch)
        · exact hheld
        · exact absurd hfull (by simpa using hplace)
      obtain ⟨ch, hch, hholds⟩ := hheld
      exact ⟨ch, List.mem_filter.mpr ⟨hch, by simp [hhub ch hch hholds]⟩, hholds⟩
    · exact ⟨_, mem_ownChannels_newChannel C _ _ _,
        holds_newChannel C _ _ (by simp only [mboxKey]; omega)⟩

/-- An empty set takes away all the hub's entries. -/
theorem configSetPolicy_empty (C : Crypto) (cfg : McConfig) :
    (configSetPolicy C cfg .empty none).rooms = cfg.ownRooms ∧
      (configSetPolicy C cfg .empty none).publicChannels = cfg.ownChannels := by
  have hrooms : (guardedPolicy cfg.name none .empty).rooms = [] := rfl
  rw [configSetPolicy, configPolicyMerge_eq, hrooms]
  simp only [List.foldl_nil, ite_self]
  exact ⟨rfl, rfl⟩

/-- What stays under an empty set was not held by anybody else. -/
theorem Adds.notTaken {val : Bytes} {e : OwnSetting} (h : Adds C cfg cfg' val e)
    (htables : Tables cfg') (hserved : Served C (configSetPolicy C cfg' .empty none) e)
    (hwritten : Written (configSetPolicy C cfg' .empty none) e) : NotTaken C cfg e := by
  obtain ⟨hrooms, hchans⟩ := configSetPolicy_empty C cfg'
  -- one room a name and one channel a key: what is held is what stays
  have hroom : ∀ r ∈ cfg'.rooms, ∀ r' ∈ cfg'.rooms, r.name = r'.name → r = r' :=
    fun r hr r' hr' => List.inj_on_of_nodup_map htables.names hr hr'
  have hchan : ∀ ch ∈ cfg'.publicChannels, ∀ ch' ∈ cfg'.publicChannels, ch.key = ch'.key → ch = ch' :=
    fun ch hch ch' hch' => List.inj_on_of_nodup_map htables.keys hch hch'
  cases e with
  | room name =>
    obtain ⟨r', hr', rfl⟩ := hserved
    rw [hrooms] at hr'
    intro r hr hname
    have hgrown := (addRoomEx_grows h.2).1.subset hr
    rw [hroom r hgrown r' (List.mem_of_mem_filter hr') hname]
    simpa using (List.mem_filter.mp hr').2
  | channel secret =>
    intro ch hch hholds
    -- a line for the key exists only for a channel that is not derived
    obtain ⟨name, hline⟩ := hwritten
    rcases List.mem_cons.mp hline with hnote | hline
    · simp [settingLine, ConfigKey.text, lit] at hnote
    obtain ⟨⟨k, v⟩, hsetting, hline⟩ := List.mem_map.mp hline
    obtain ⟨rfl, rfl⟩ := settingLine_inj hline
    obtain ⟨ch', hch', hderived, htext⟩ := mem_savedSettings_publicChannel hsetting
    have hkey : secret = ch'.key := @namedKey_inj _ ch'.name _ _ htext
    rw [hchans] at hch'
    have hgrown := (registerChannel_grows h).subset hch
    rw [hchan ch hgrown ch' (List.mem_of_mem_filter hch') (by
      rw [McPubChannel.key_of_holds hholds, hkey])]
    exact hderived
  | mbox =>
    obtain ⟨ch', hch', hholds'⟩ := hserved
    rw [hchans] at hch'
    have hmem' := List.mem_of_mem_filter hch'
    have hcases := ensureMbox_cases C { cfg with mboxEnable := true }
    rw [← show cfg' = _ from h] at hcases
    -- the tables only grew, so what was held is held still
    have hgrown : cfg.publicChannels <+: cfg'.publicChannels := by
      rcases hcases with ⟨rfl, -⟩ | ⟨-, -, rfl⟩
      · exact List.prefix_rfl
      · exact List.prefix_append _ _
    refine ⟨fun ch hch hholds => ?_, ?_⟩
    · rw [hchan ch (hgrown.subset hch) ch' hmem' (by
        rw [McPubChannel.key_of_holds hholds, McPubChannel.key_of_holds hholds'])]
      simpa using (List.mem_filter.mp hch').2
    · rcases hcases with ⟨rfl, -⟩ | ⟨hnamed, hplace, -⟩
      · exact .inl ⟨ch', hmem', hholds'⟩
      · exact .inr ⟨hnamed, hplace⟩

/-- A `room`, a `public_channel` or `mbox = true` that `config_set` accepted, after any
calls: it is served and written in every configuration that calls other than
`config_load` lead to, exactly when nobody else held it. -/
theorem accepted_kept_iff (C : Crypto) (calls : List ConfigCall) {key val : Bytes} {cfg' : McConfig}
    {e : OwnSetting} (h : configSet C (configAfter C calls) key val = .ok cfg')
    (he : ownSetting key val = some e) :
    (∀ later : List ConfigCall, (∀ x ∈ later, ¬x.IsLoad) →
        Served C (Runs.run (configStep C) cfg' later) e ∧
          Written (Runs.run (configStep C) cfg' later) e) ↔
      NotTaken C (configAfter C calls) e := by
  have hadds := adds_of_configSet h he
  have htables := tables_configAfter C calls
  have htables' : Tables cfg' := by
    obtain ⟨k, -, heffect⟩ := configSet_effect h
    exact htables.setEffect heffect
  constructor
  · intro hkept
    -- the empty set is the hardest of the later calls
    obtain ⟨hserved, hwritten⟩ := hkept [.setPolicy .empty none] (by simp [ConfigCall.IsLoad])
    exact hadds.notTaken htables' hserved hwritten
  · intro hfree later hlater
    exact ((hadds.owned hfree htables).run hlater).served

/-- A room that is added to the defaults stays. -/
theorem accepted_kept_iff_room :
    ∃ cfg', configSet (.ofTable [] []) (configAfter (.ofTable [] []) []) (lit "room") (lit "on4x") =
        .ok cfg' ∧
      ∀ later : List ConfigCall, (∀ x ∈ later, ¬x.IsLoad) →
        Served (.ofTable [] []) (Runs.run (configStep (.ofTable [] [])) cfg' later) (.room (lit "#on4x")) ∧
          Written (Runs.run (configStep (.ofTable [] [])) cfg' later) (.room (lit "#on4x")) := by
  cases h : configSet (.ofTable [] []) (configAfter (.ofTable [] []) []) (lit "room") (lit "on4x") with
  | error e =>
    have hok : (configSet (.ofTable [] []) (configAfter (.ofTable [] []) []) (lit "room")
      (lit "on4x")).toOption.isSome = true := by decide
    rw [h] at hok
    cases hok
  | ok cfg' =>
    refine ⟨cfg', rfl, (accepted_kept_iff (.ofTable [] []) [] h (by decide)).mpr ?_⟩
    simp [NotTaken, configAfter, configDefaults]

/-- A set of the hub with one room. -/
def hubRoomSet : McPolicy := { McPolicy.empty with version := 1, rooms := [lit "#on4x"] }

/-- The operator's room line comes after the hub's: it is accepted, not written, and
gone with the hub's next set. -/
theorem hub_first_room_lost :
    (configSet (.ofTable [] []) (configAfter (.ofTable [] []) [.setPolicy hubRoomSet none])
        (lit "room") (lit "on4x")).toOption.isSome = true ∧
      ¬Written (configAfter (.ofTable [] []) [.setPolicy hubRoomSet none, .set (lit "room") (lit "on4x")])
        (.room (lit "#on4x")) ∧
      ¬Served (.ofTable [] []) (configAfter (.ofTable [] []) [.setPolicy hubRoomSet none,
        .set (lit "room") (lit "on4x"), .setPolicy .empty none]) (.room (lit "#on4x")) := by
  refine ⟨by decide, ?_, ?_⟩
  · simp only [Written]
    decide
  · have hnone : (configAfter (.ofTable [] []) [.setPolicy hubRoomSet none,
        .set (lit "room") (lit "on4x"), .setPolicy .empty none]).rooms = [] := by decide
    simp [Served, hnone]

end Meshcore
