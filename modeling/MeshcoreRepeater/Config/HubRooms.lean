import MeshcoreRepeater.Config.Ownership
import MeshcoreRepeater.Backbone.Pages

/-! # The hub's rooms in the tables

`config_policy_merge` takes the hub's entries out of both tables and puts the rooms of the set
in again. The loop over the set is followed room by room: what the rooms so far have added is
`hubNames` of them (`Merged.step`), and a merged configuration merges to itself
(`configPolicyMerge_merged`).

* `mergeRoom_cases`: one room.
* `merged_foldl`: the whole set.
* `policyMerge_rooms`: what the node serves after a merge.
-/

namespace Meshcore

open ByteLib

variable {C : Crypto} {cfg c : McConfig}

/-! ## Which rooms are the hub's -/

/-- The rooms the hub adds. -/
def McConfig.hubRooms (cfg : McConfig) : List McRoom := cfg.rooms.filter fun r => r.hub

/-- The names a set adds to the node's own: those that are new, each once, in its order, as far
as the table reaches. -/
def hubNames (own rooms : List Bytes) : List Bytes :=
  ((rooms.filter fun room => !own.contains room).eraseDups).take (mcMaxRooms - own.length)

/-- One room more. -/
theorem hubNames_concat (own rooms : List Bytes) (room : Bytes) :
    hubNames own (rooms ++ [room]) =
      if room ∈ own ∨ room ∈ hubNames own rooms ∨ mcMaxRooms ≤ own.length + (hubNames own rooms).length then
        hubNames own rooms
      else hubNames own rooms ++ [room] := by
  unfold hubNames
  rw [List.filter_append]
  by_cases hown : room ∈ own
  · rw [if_pos (.inl hown)]
    simp [hown]
  have hnew : [room].filter (fun r => !own.contains r) = [room] := by simp [hown]
  rw [hnew, List.eraseDups_append]
  generalize hX : rooms.filter (fun r => !own.contains r) = X
  by_cases hheld : room ∈ X
  · -- a repeat adds nothing
    have hnone : [room].removeAll X = [] := by simp [List.removeAll, hheld]
    rw [hnone, List.eraseDups_nil, List.append_nil]
    split
    · rfl
    · rename_i hroom
      simp only [not_or, not_le] at hroom
      have hall : X.eraseDups.take (mcMaxRooms - own.length) = X.eraseDups := by
        apply List.take_of_length_le
        by_contra hlong
        have hfull := hroom.2.2
        rw [List.length_take] at hfull
        omega
      rw [hall, List.mem_eraseDups] at hroom
      exact absurd hheld hroom.2.1
  · have hone : [room].removeAll X = [room] := by simp [List.removeAll, hheld]
    have hsingle : [room].eraseDups = [room] := by simp [List.eraseDups_cons]
    rw [hone, hsingle]
    by_cases hfull : mcMaxRooms ≤ own.length + (X.eraseDups.take (mcMaxRooms - own.length)).length
    · rw [if_pos (.inr (.inr hfull)), List.take_append_of_le_length]
      rw [List.length_take] at hfull
      omega
    · have hnot : room ∉ X.eraseDups.take (mcMaxRooms - own.length) := by
        intro hmem
        exact hheld (List.mem_eraseDups.mp (List.mem_of_mem_take hmem))
      rw [if_neg (by tauto)]
      rw [List.length_take] at hfull
      have hlen : X.eraseDups.length < mcMaxRooms - own.length := by omega
      have hmore : (X.eraseDups ++ [room]).length ≤ mcMaxRooms - own.length := by
        rw [List.length_append, List.length_singleton]
        omega
      rw [List.take_of_length_le hmore, List.take_of_length_le hlen.le]

/-- A name that came with a set is added as it is. -/
theorem roomName_of_isRoomValue {v : Bytes} (h : isRoomValue v = true) : roomName v = some v := by
  simp only [isRoomValue, Bool.and_eq_true, decide_eq_true_eq, List.all_eq_true] at h
  rcases h with ⟨⟨⟨⟨hlong, hshort⟩, hhash⟩, -⟩, hbytes⟩
  simp only [mcRoomNameLen] at hshort
  -- no blank and no line end in it
  have hplain : ∀ c ∈ v, isBlankOrEol c = false := by
    intro c hc
    have hgt := (hbytes c hc).1
    have hne : ∀ d : UInt8, d ≤ 32 → c ≠ d := by
      rintro d hd rfl
      exact absurd hgt (UInt8.not_lt.mpr hd)
    simp [isBlankOrEol, isBlank, hne 32 (by decide), hne 9 (by decide), hne 13 (by decide), hne 10 (by decide)]
  have hskip : skipBlanks v = v := by
    apply skipBlanks_of_head
    intro c hc
    exact isBlank_of_isBlankOrEol (hplain c (List.mem_of_mem_head? hc))
  have htrim : trimName (mcRoomNameLen * 2) v = v := by
    rw [trimName, hskip, snprintfS, List.take_of_length_le (by simp only [mcRoomNameLen]; omega)]
    exact rtrim_of_forall hplain
  have hhead : v.head? = some 35 := by
    cases v with
    | nil => simp at hlong
    | cons c v => simpa using hhash
  unfold roomName
  simp only [htrim, hashName, if_pos hhead]
  apply if_neg
  rintro (hnil | hone | hover)
  · rw [hnil] at hlong
    simp at hlong
  · omega
  · simp only [mcRoomNameLen] at hover
    omega

/-! ## One room -/

/-- The room is served by the node itself, or there is no place for it, or it is added with its
channel. -/
theorem mergeRoom_cases (C : Crypto) (cfg : McConfig) {room : Bytes} (hroom : isRoomValue room = true) :
    (room ∈ cfg.rooms.map (·.name) ∧ mergeRoom C cfg room = { cfg with policyRooms := cfg.policyRooms + 1 }) ∨
      (room ∉ cfg.rooms.map (·.name) ∧ mcMaxRooms ≤ cfg.rooms.length ∧
        mergeRoom C cfg room = { cfg with policySkipped := cfg.policySkipped + 1 }) ∨
      (room ∉ cfg.rooms.map (·.name) ∧ cfg.rooms.length < mcMaxRooms ∧
        ∃ chans, mergeRoom C cfg room =
            { cfg with
              rooms := cfg.rooms ++ [⟨room, hashtagKey C room, true⟩]
              publicChannels := chans
              policyRooms := cfg.policyRooms + 1 } ∧
          (chans = cfg.publicChannels ∨ chans = cfg.publicChannels ++
            [{ newChannel C room (hashtagKey C room) true with hub := true }])) := by
  have hname := roomName_of_isRoomValue hroom
  have hany : (cfg.rooms.any fun r => r.name == room) = true ↔ room ∈ cfg.rooms.map (·.name) := by
    simp
  by_cases hheld : room ∈ cfg.rooms.map (·.name)
  · exact .inl ⟨hheld, by rw [mergeRoom, if_pos (hany.mpr hheld)]⟩
  right
  have hnone : ¬ (cfg.rooms.any fun r => r.name == room) = true := fun h => hheld (hany.mp h)
  by_cases hfull : mcMaxRooms ≤ cfg.rooms.length
  · left
    refine ⟨hheld, hfull, ?_⟩
    simp only [mergeRoom, addRoomEx, hname, if_neg hnone, if_pos hfull]
  · right
    refine ⟨hheld, by omega, ?_⟩
    have hadd : addRoomEx C cfg room true = some (registerRoomChannel C
        { cfg with rooms := cfg.rooms ++ [⟨room, hashtagKey C room, true⟩] } room true) := by
      simp only [addRoomEx, hname, if_neg hnone, if_neg hfull]
    rw [mergeRoom, if_neg hnone, hadd]
    rcases registerRoomChannel_cases C
      { cfg with rooms := cfg.rooms ++ [⟨room, hashtagKey C room, true⟩] } room true with heq | ⟨-, heq⟩
    · exact ⟨cfg.publicChannels, by simp [heq], .inl rfl⟩
    · exact ⟨_, by simp [heq], .inr rfl⟩

/-- What a merge has made of `cfg` when it is through with `rooms`. -/
structure Merged (C : Crypto) (cfg : McConfig) (rooms : List Bytes) (c : McConfig) : Prop where
  split : c.rooms = cfg.ownRooms ++ c.hubRooms
  own : c.ownRooms = cfg.ownRooms
  names : c.hubRooms.map (·.name) = hubNames (cfg.ownRooms.map (·.name)) rooms
  keys : ∀ r ∈ c.hubRooms, r.key = hashtagKey C r.name
  channels : c.ownChannels = cfg.ownChannels
  channelKeys : ∀ ch ∈ c.publicChannels, ch.hub = true → ∃ r ∈ c.hubRooms, ch.key = r.key
  counts : c.policyRooms + (c.policySkipped - cfg.policy.skipped) = rooms.length

/-- A merge begins without the hub's entries. -/
theorem merged_dropHub (C : Crypto) (cfg : McConfig) : Merged C cfg [] (dropHub cfg) where
  split := by simp [dropHub, McConfig.hubRooms, McConfig.ownRooms]
  own := by simp [dropHub, McConfig.ownRooms]
  names := by simp [dropHub, McConfig.hubRooms, hubNames]
  keys := by simp [dropHub, McConfig.hubRooms]
  channels := by simp [dropHub, McConfig.ownChannels]
  channelKeys := by
    intro ch hch hhub
    have := (List.mem_filter.mp hch).2
    simp [hhub] at this
  counts := by simp [dropHub]

/-- The next room of the set. -/
theorem Merged.step {rooms : List Bytes} {room : Bytes} (h : Merged C cfg rooms c)
    (hroom : isRoomValue room = true) : Merged C cfg (rooms ++ [room]) (mergeRoom C c room) := by
  -- own rooms and hub rooms are all there are
  have hlen : c.rooms.length = (cfg.ownRooms.map (·.name)).length + (hubNames (cfg.ownRooms.map (·.name)) rooms).length := by
    rw [← h.names, h.split, List.length_append, List.length_map, List.length_map]
  have hmem : room ∈ c.rooms.map (·.name) ↔
      room ∈ cfg.ownRooms.map (·.name) ∨ room ∈ hubNames (cfg.ownRooms.map (·.name)) rooms := by
    rw [h.split, List.map_append, List.mem_append, h.names]
  have hcounts := h.counts
  rcases mergeRoom_cases C c hroom with ⟨hheld, heq⟩ | ⟨hnew, hfull, heq⟩ | ⟨hnew, hspace, chans, heq, hchans⟩
  · have hsame : hubNames (cfg.ownRooms.map (·.name)) (rooms ++ [room]) =
        hubNames (cfg.ownRooms.map (·.name)) rooms := by
      rw [hubNames_concat, if_pos]
      have := hmem.mp hheld
      tauto
    rw [heq]
    refine ⟨h.split, h.own, h.names.trans hsame.symm, h.keys, h.channels, h.channelKeys, ?_⟩
    rw [List.length_append, List.length_singleton]
    push_cast
    omega
  · have hsame : hubNames (cfg.ownRooms.map (·.name)) (rooms ++ [room]) =
        hubNames (cfg.ownRooms.map (·.name)) rooms := by
      rw [hubNames_concat, if_pos (.inr (.inr (by omega)))]
    rw [heq]
    refine ⟨h.split, h.own, h.names.trans hsame.symm, h.keys, h.channels, h.channelKeys, ?_⟩
    rw [List.length_append, List.length_singleton]
    push_cast
    omega
  · have hmore : hubNames (cfg.ownRooms.map (·.name)) (rooms ++ [room]) =
        hubNames (cfg.ownRooms.map (·.name)) rooms ++ [room] := by
      rw [hubNames_concat, if_neg]
      have := mt hmem.mpr hnew
      rintro (hin | hin | hover)
      · exact this (.inl hin)
      · exact this (.inr hin)
      · omega
    -- the new room goes to the end
    have hhub : (mergeRoom C c room).hubRooms = c.hubRooms ++ [⟨room, hashtagKey C room, true⟩] := by
      rw [heq]
      simp [McConfig.hubRooms]
    constructor
    · rw [hhub, ← List.append_assoc, ← h.split, heq]
    · rw [← h.own, heq]
      simp [McConfig.ownRooms]
    · rw [hhub, List.map_append, h.names, hmore]
      rfl
    · rw [hhub]
      intro r hr
      rcases List.mem_append.mp hr with hold | hlast
      · exact h.keys r hold
      · rw [List.mem_singleton.mp hlast]
    · rw [← h.channels, heq]
      rcases hchans with rfl | rfl
      · rfl
      · simp [McConfig.ownChannels]
    · rw [hhub]
      intro ch hch hflag
      -- the channels so far keep their rooms
      have hold : ∀ ch ∈ c.publicChannels, ch.hub = true →
          ∃ r ∈ c.hubRooms ++ [⟨room, hashtagKey C room, true⟩], ch.key = r.key := by
        intro ch hch hflag
        rcases h.channelKeys ch hch hflag with ⟨r, hr, hkey⟩
        exact ⟨r, List.mem_append_left _ hr, hkey⟩
      rw [heq] at hch
      rcases hchans with rfl | rfl
      · exact hold ch hch hflag
      · rcases List.mem_append.mp hch with hin | hlast
        · exact hold ch hin hflag
        · -- the channel that came with the room has the room's key
          refine ⟨_, List.mem_append_right _ (List.mem_singleton_self _), ?_⟩
          rw [List.mem_singleton.mp hlast]
          apply (newChannel_key C room true _).1
          simp [hashtagKey, Buf.read, (C.sha256 room).length_eq]
    · rw [heq, List.length_append, List.length_singleton]
      push_cast
      omega

/-- The whole set. -/
theorem merged_foldl (C : Crypto) (cfg : McConfig) {rooms : List Bytes}
    (hrooms : ∀ v ∈ rooms, isRoomValue v = true) :
    Merged C cfg rooms (rooms.foldl (mergeRoom C) (dropHub cfg)) := by
  induction rooms using List.reverseRecOn with
  | nil => exact merged_dropHub C cfg
  | append_singleton rooms room ih =>
    rw [List.foldl_append]
    apply Merged.step
    · exact ih fun v hv => hrooms v (List.mem_append_left _ hv)
    · exact hrooms room (List.mem_append_right _ (List.mem_singleton_self room))

/-! ## The merge -/

/-- A configuration with the same entries of the node's own merges to the same tables. -/
theorem configPolicyMerge_of_own {rooms : List McRoom} {chans : List McPubChannel} {served skipped : Int}
    (hc : c = { cfg with rooms := rooms, publicChannels := chans, policyRooms := served, policySkipped := skipped })
    (hrooms : c.ownRooms = cfg.ownRooms) (hchans : c.ownChannels = cfg.ownChannels) :
    configPolicyMerge C c = configPolicyMerge C cfg := by
  -- what is dropped at the beginning is all the difference
  have hdrop : dropHub c = dropHub cfg := by
    simp only [McConfig.ownRooms] at hrooms
    simp only [McConfig.ownChannels] at hchans
    unfold dropHub
    rw [hrooms, hchans, hc]
  rw [configPolicyMerge_eq, configPolicyMerge_eq, hdrop, hc]

/-- What merging a set from the wire leaves. -/
structure HubMerged (C : Crypto) (cfg merged : McConfig) : Prop where
  /-- No room stands twice. -/
  apart : (merged.rooms.map (·.name)).Nodup
  /-- The node's own rooms stay, in front. -/
  split : merged.rooms = cfg.ownRooms ++ merged.hubRooms
  /-- Behind them stand the rooms of the set that are new. -/
  served : cfg.backbonePolicy = true →
    merged.hubRooms.map (·.name) = hubNames (cfg.ownRooms.map (·.name)) cfg.policy.rooms
  keys : ∀ r ∈ merged.hubRooms, r.key = (C.sha256 r.name).read 0 16
  /-- No key is in two channels. -/
  secrets : (merged.publicChannels.map (·.key)).Nodup
  channels : ∀ ch ∈ merged.publicChannels, ch.hub = true → ∃ r ∈ merged.hubRooms, ch.key = r.key
  /-- Every room of the set is counted, if the node serves any. -/
  counts : merged.policyRooms + (merged.policySkipped - cfg.policy.skipped) =
    if cfg.backbonePolicy then (cfg.policy.rooms.length : Int) else 0
  again : configPolicyMerge C merged = merged

theorem hubMerged (C : Crypto) (htables : Tables cfg) (hrooms : ∀ v ∈ cfg.policy.rooms, isRoomValue v = true) :
    HubMerged C cfg (configPolicyMerge C cfg) := by
  have hafter : Tables (configPolicyMerge C cfg) := htables.configPolicyMerge
  -- with the switch off it is a merge of no rooms
  have hmerged : ∃ rooms, Merged C cfg rooms (configPolicyMerge C cfg) ∧
      rooms = if cfg.backbonePolicy then cfg.policy.rooms else [] := by
    rw [configPolicyMerge_eq]
    split
    · exact ⟨_, merged_foldl C cfg hrooms, rfl⟩
    · exact ⟨_, merged_dropHub C cfg, rfl⟩
  rcases hmerged with ⟨rooms, h, hwhich⟩
  constructor
  · exact hafter.names
  · exact h.split
  · intro hon
    rw [h.names, hwhich, if_pos hon]
  · exact h.keys
  · exact hafter.keys
  · exact h.channelKeys
  · rw [h.counts, hwhich]
    split
    · rfl
    · rfl
  · rcases configPolicyMerge_tables C cfg with ⟨rooms', chans, served, skipped, heq⟩
    exact configPolicyMerge_of_own heq h.own h.channels

/-- In every configuration that calls lead to, merging any set the hub can send serves each of
its rooms once, behind the node's own and as far as the table reaches, holds no room and no key
twice, and changes nothing when it is done again. With the switch on, every room of the set is
counted as served or as skipped; with it off, none is. -/
theorem policyMerge_rooms (C : Crypto) (calls : List ConfigCall) {p : McPolicy} (hp : p.FromWire) :
    HubMerged C { configAfter C calls with policy := p }
      (configPolicyMerge C { configAfter C calls with policy := p }) := by
  apply hubMerged C ?_ hp.rooms
  exact (tables_configAfter C calls).of_tables rfl rfl

/-- A room of the node's own that the set has too. -/
theorem policyMerge_rooms_two :
    HubMerged (.ofTable [] [])
      { configAfter (.ofTable [] []) [.set (lit "room") (lit "on4")] with
        policy := { McPolicy.empty with version := 1, rooms := [lit "#on4", lit "#hub"] } }
      (configPolicyMerge (.ofTable [] [])
        { configAfter (.ofTable [] []) [.set (lit "room") (lit "on4")] with
          policy := { McPolicy.empty with version := 1, rooms := [lit "#on4", lit "#hub"] } }) := by
  apply policyMerge_rooms
  constructor
  · decide
  · decide
  · decide
  · decide
  · decide
  · decide
  · decide

/-- A node that opted out serves no room of the set, and skips none. -/
theorem policyMerge_off_counts :
    (configPolicyMerge (.ofTable [] []) (configAfter (.ofTable [] []) [.setPolicy hubRoomSet none,
      .set (lit "backbone_policy") (lit "false")])).policyRooms +
      ((configPolicyMerge (.ofTable [] []) (configAfter (.ofTable [] []) [.setPolicy hubRoomSet none,
        .set (lit "backbone_policy") (lit "false")])).policySkipped - hubRoomSet.skipped) ≠
      hubRoomSet.rooms.length := by
  decide

end Meshcore
