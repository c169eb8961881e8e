import MeshcoreRepeater.Config.Ownership

/-! # What the hub's set may not do

Two rules of the hub's set over runs of calls. A node never blocks itself: the set is
filtered when it is taken, so a later change of name can break the rule
(`selfFree_throughout_iff`). A node that opted out serves its own lists only: blocks ask
the switch when they are used, rooms when they are merged, so a setting of the switch can
break that one (`optOut_throughout_iff`).

* `selfFree_step_iff`, `selfFree_throughout_iff`: the first rule, over a call and over a run.
* `switchObeyed_step_iff`, `optOut_throughout_iff`: the second.
-/

namespace Meshcore

open ByteLib

variable {C : Crypto} {cfg cfg' : McConfig}

/-! ## What a call does to the name, the set and its switch -/

/-- The setting of a line of a file. -/
def lineSetting (line : Bytes) : Option (ConfigKey × Bytes) :=
  match parseSetting line with
  | some (key, val) => (ConfigKey.find key).map fun k => (k, val)
  | none => none

/-- The name behind a line of a file. -/
def nameBehindLine (name line : Bytes) : Bytes :=
  match lineSetting line with
  | some (k, val) => nameBehind name k val
  | none => name

/-- The node's name after a call. -/
def ConfigCall.nameAfter (name : Bytes) : ConfigCall → Bytes
  | .set key val =>
    match ConfigKey.find key with
    | some k => nameBehind name k val
    | none => name
  | .load (some file) => (fileLines file).foldl nameBehindLine name
  | _ => name

/-- A setting that is refused changes no name. -/
theorem configSet_name (C : Crypto) (cfg : McConfig) (key val : Bytes) :
    ((configSet C cfg key val).toOption.getD cfg).name =
        (match ConfigKey.find key with
          | some k => nameBehind cfg.name k val
          | none => cfg.name) ∧
      ((configSet C cfg key val).toOption.getD cfg).policy = cfg.policy := by
  cases hset : configSet C cfg key val with
  | ok cfg' =>
    obtain ⟨k, hk, heffect⟩ := configSet_effect hset
    rw [hk]
    exact ⟨heffect.name, heffect.policy⟩
  | error e =>
    refine ⟨?_, rfl⟩
    cases hk : ConfigKey.find key with
    | none => rfl
    | some k =>
      cases k with
      | name =>
        -- a name is never refused
        rw [configSet, hk] at hset
        cases hset
      | _ => rfl

/-- A line of a file changes the name as its setting does. -/
theorem loadLine_name (C : Crypto) (cfg : McConfig) (line : Bytes) :
    (loadLine C cfg line).name = nameBehindLine cfg.name line ∧
      (loadLine C cfg line).policy = cfg.policy := by
  unfold loadLine nameBehindLine lineSetting
  cases parseSetting line with
  | none => exact ⟨rfl, rfl⟩
  | some kv =>
    obtain ⟨hname, hpolicy⟩ := configSet_name C cfg kv.1 kv.2
    refine ⟨hname.trans ?_, hpolicy⟩
    cases hk : ConfigKey.find kv.1 with
    | none => simp [hk]
    | some k => simp [hk]

/-- A merge touches the two tables and their counters. -/
theorem configPolicyMerge_fixed (C : Crypto) (cfg : McConfig) :
    (configPolicyMerge C cfg).name = cfg.name ∧ (configPolicyMerge C cfg).policy = cfg.policy ∧
      (configPolicyMerge C cfg).backbonePolicy = cfg.backbonePolicy := by
  obtain ⟨rooms, chans, served, skipped, h⟩ := configPolicyMerge_tables C cfg
  rw [h]
  exact ⟨rfl, rfl, rfl⟩

/-- Line by line a file changes the name, and never the set. -/
theorem configLoad_name (C : Crypto) (cfg : McConfig) (file : Option Bytes) :
    (configLoad C cfg file).name = (ConfigCall.load file).nameAfter cfg.name ∧
      (configLoad C cfg file).policy = cfg.policy := by
  -- one line after the other
  have hlines : ∀ (lines : List Bytes) (c : McConfig),
      (lines.foldl (loadLine C) c).name = lines.foldl nameBehindLine c.name ∧
        (lines.foldl (loadLine C) c).policy = c.policy := by
    intro lines
    induction lines with
    | nil => exact fun c => ⟨rfl, rfl⟩
    | cons line lines ih =>
      intro c
      obtain ⟨hname, hpolicy⟩ := loadLine_name C c line
      obtain ⟨hname', hpolicy'⟩ := ih (loadLine C c line)
      rw [List.foldl_cons, List.foldl_cons, hname', hname, hpolicy', hpolicy]
      exact ⟨rfl, rfl⟩
  -- what comes behind the lines changes neither
  have hmerge : ∀ c : McConfig, (configPolicyMerge C (configEnsurePingChannel C c)).name = c.name ∧
      (configPolicyMerge C (configEnsurePingChannel C c)).policy = c.policy := by
    intro c
    obtain ⟨hname, hpolicy, -⟩ := configPolicyMerge_fixed C (configEnsurePingChannel C c)
    obtain ⟨chans, hping⟩ := configEnsurePingChannel_tables C c
    rw [hname, hpolicy, hping]
    exact ⟨rfl, rfl⟩
  cases file with
  | none => exact hmerge cfg
  | some file =>
    obtain ⟨hname, hpolicy⟩ := hmerge ((fileLines file).foldl (loadLine C) (clearLists cfg))
    obtain ⟨hname', hpolicy'⟩ := hlines (fileLines file) (clearLists cfg)
    exact ⟨hname.trans hname', hpolicy.trans hpolicy'⟩

/-! ## No block of the node itself -/

/-- The set blocks neither the node's name nor its key. -/
def SelfFree (own : Bytes) (cfg : McConfig) : Prop :=
  (∀ n ∈ cfg.policy.names, configAsciiEq n cfg.name = false) ∧ ∀ k ∈ cfg.policy.keys, k ≠ own

/-- A call that takes a set is given the node's own key. -/
def ConfigCall.UsesKey (own : Bytes) : ConfigCall → Prop
  | .setPolicy _ ownPub => ownPub = some own
  | .policyLoad _ ownPub => ownPub = some own
  | _ => True

/-- A call that can change the name does not take one the set blocks. -/
def NameAllowed (cfg : McConfig) (x : ConfigCall) : Prop :=
  match x with
  | .set _ _ | .load _ => ∀ n ∈ cfg.policy.names, configAsciiEq n (x.nameAfter cfg.name) = false
  | _ => True

/-- Taking a set restores the rule, whatever the set. -/
theorem selfFree_configSetPolicy (C : Crypto) (cfg : McConfig) (p : McPolicy) (own : Bytes) :
    SelfFree own (configSetPolicy C cfg p (some own)) := by
  obtain ⟨hname, hpolicy, -⟩ :=
    configPolicyMerge_fixed C { cfg with policy := guardedPolicy cfg.name (some own) p }
  rw [SelfFree, configSetPolicy, hname, hpolicy]
  constructor
  · intro n hn
    simpa using (List.mem_filter.mp hn).2
  · rintro k hk rfl
    have := (List.mem_filter.mp hk).2
    simp at this

/-- One call keeps the rule exactly when it takes no blocked name. -/
theorem selfFree_step_iff {own : Bytes} {x : ConfigCall} (hkey : x.UsesKey own) (h : SelfFree own cfg) :
    SelfFree own (configStep C cfg x) ↔ NameAllowed cfg x := by
  cases x with
  | set key val =>
    obtain ⟨hname, hpolicy⟩ := configSet_name C cfg key val
    rw [SelfFree, configStep, hname, hpolicy]
    exact and_iff_left h.2
  | load file =>
    obtain ⟨hname, hpolicy⟩ := configLoad_name C cfg file
    rw [SelfFree, configStep, hname, hpolicy]
    exact and_iff_left h.2
  | setPolicy p ownPub =>
    obtain rfl : ownPub = some own := hkey
    exact iff_of_true (selfFree_configSetPolicy C cfg p own) trivial
  | policyLoad file ownPub =>
    obtain rfl : ownPub = some own := hkey
    refine iff_of_true ?_ trivial
    simp only [configStep, configPolicyLoad]
    cases file.map readPolicy with
    | none => exact h
    | some p =>
      simp only
      split
      · exact h
      · exact selfFree_configSetPolicy C cfg p own
  | save => exact iff_of_true h trivial

/-- Over any calls, each that takes a set with the node's own key: no configuration
blocks the node itself exactly when no call takes a name that the set in force blocks. -/
theorem selfFree_throughout_iff (C : Crypto) {own : Bytes} {calls : List ConfigCall}
    (hkey : ∀ x ∈ calls, x.UsesKey own) :
    (∀ pre post, calls = pre ++ post → SelfFree own (configAfter C pre)) ↔
      Runs.Every (configStep C) NameAllowed configDefaults calls := by
  refine Runs.inv_throughout_iff_on (fun _ => True) (ConfigCall.UsesKey own) (fun _ _ _ => trivial)
    (fun _ _ hx _ h => selfFree_step_iff hx h) trivial ?_ hkey
  simp [SelfFree, configDefaults]

/-- A node's key, and a set that blocks two names. -/
def nodeKey : Bytes := List.replicate 32 7

def hubNameSet : McPolicy := { McPolicy.empty with version := 1, names := [lit "ON4ABC", lit "ON3XYZ"] }

/-- A name the set does not block is no harm. -/
theorem selfFree_throughout_iff_renamed :
    (ConfigCall.setPolicy hubNameSet (some nodeKey)).UsesKey nodeKey ∧
      ∀ pre post, [ConfigCall.setPolicy hubNameSet (some nodeKey), .set (lit "name") (lit "ON6URE")] =
        pre ++ post → SelfFree nodeKey (configAfter (.ofTable [] []) pre) := by
  refine ⟨rfl, (selfFree_throughout_iff (.ofTable [] []) ?_).mpr ?_⟩
  · simp [ConfigCall.UsesKey]
  · refine ⟨trivial, ?_, trivial⟩
    simp only [NameAllowed, ConfigCall.nameAfter]
    decide

/-- A node that takes a name the hub's set blocks blocks itself. -/
theorem renamed_node_blocks_itself :
    ¬SelfFree nodeKey (configAfter (.ofTable [] []) [.setPolicy hubNameSet (some nodeKey),
      .set (lit "name") (lit "on4abc")]) := by
  rintro ⟨hnames, -⟩
  revert hnames
  decide

/-! ## Opting out -/

/-- No entry of the two tables is the hub's. -/
def NoHubEntry (cfg : McConfig) : Prop :=
  (∀ r ∈ cfg.rooms, r.hub = false) ∧ ∀ ch ∈ cfg.publicChannels, ch.hub = false

/-- The blocks are those of a node without a set. -/
def OwnBlocksOnly (cfg : McConfig) : Prop :=
  (∀ name, configIsBlacklisted cfg name = configIsBlacklisted { cfg with policy := .empty } name) ∧
    ∀ pub, configIsKeyBlocked cfg pub = configIsKeyBlocked { cfg with policy := .empty } pub

/-- Every room of the set is served, unless its name is none or the table is full. -/
def HubRoomsServed (cfg : McConfig) : Prop :=
  ∀ room ∈ cfg.policy.rooms, ∀ name, roomName room = some name → cfg.rooms.length < mcMaxRooms →
    ∃ r ∈ cfg.rooms, r.name = room ∨ r.name = name

/-- What the switch `backbone_policy` promises. -/
structure SwitchObeyed (cfg : McConfig) : Prop where
  off : cfg.backbonePolicy = false → NoHubEntry cfg ∧ OwnBlocksOnly cfg
  on : cfg.backbonePolicy = true → HubRoomsServed cfg

/-- Blocks ask the switch each time. -/
theorem ownBlocksOnly_of_off (h : cfg.backbonePolicy = false) : OwnBlocksOnly cfg := by
  constructor
  · intro name
    simp [configIsBlacklisted, h]
  · intro pub
    simp [configIsKeyBlocked, h]

/-- One room merged: served now, or no name, or the table is full. -/
theorem mergeRoom_served (C : Crypto) (cfg : McConfig) (room : Bytes) :
    cfg.rooms <+: (mergeRoom C cfg room).rooms ∧
      ∀ name, roomName room = some name → (mergeRoom C cfg room).rooms.length < mcMaxRooms →
        ∃ r ∈ (mergeRoom C cfg room).rooms, r.name = room ∨ r.name = name := by
  unfold mergeRoom
  split
  · rename_i hany
    obtain ⟨r, hr, hname⟩ := List.any_eq_true.mp hany
    exact ⟨List.prefix_rfl, fun _ _ _ => ⟨r, hr, .inl (by simpa using hname)⟩⟩
  cases hadd : addRoomEx C cfg room true with
  | none =>
    refine ⟨List.prefix_rfl, fun name hname hlen => ?_⟩
    -- a room with a name is refused only when the table is full
    simp only [addRoomEx, hname] at hadd
    split at hadd
    · cases hadd
    split at hadd
    · rename_i hfull
      exact absurd hlen (by simpa using hfull)
    · cases hadd
  | some cfg' =>
    have hpre := (addRoomEx_grows hadd).1
    -- added now, or held under its name already
    have hserved : ∀ name, roomName room = some name → ∃ r ∈ cfg'.rooms, r.name = room ∨ r.name = name := by
      intro name hname
      obtain ⟨name', hname', ⟨rfl, r, hr, rfl⟩ | ⟨-, -, rfl⟩⟩ := addRoomEx_cases hadd
      · exact ⟨r, hr, .inr (Option.some.inj (hname'.symm.trans hname))⟩
      · obtain rfl : name' = name := Option.some.inj (hname'.symm.trans hname)
        obtain ⟨chans, hchans⟩ := registerRoomChannel_tables C
          { cfg with rooms := cfg.rooms ++ [⟨name', hashtagKey C name', true⟩] } name' true
        rw [hchans]
        exact ⟨⟨name', hashtagKey C name', true⟩, by simp, .inr rfl⟩
    simp only
    split
    · exact ⟨hpre, fun name hname _ => hserved name hname⟩
    · exact ⟨hpre, fun name hname _ => hserved name hname⟩

/-- The rooms of a set merged one after another: the table only grows, so what was
served or did not fit stays so. -/
theorem foldl_mergeRoom_served (C : Crypto) (rooms : List Bytes) (cfg : McConfig) :
    cfg.rooms <+: (rooms.foldl (mergeRoom C) cfg).rooms ∧
      ∀ room ∈ rooms, ∀ name, roomName room = some name →
        (rooms.foldl (mergeRoom C) cfg).rooms.length < mcMaxRooms →
          ∃ r ∈ (rooms.foldl (mergeRoom C) cfg).rooms, r.name = room ∨ r.name = name := by
  induction rooms generalizing cfg with
  | nil => exact ⟨List.prefix_rfl, by simp⟩
  | cons room rooms ih =>
    obtain ⟨hfirst, hserved⟩ := mergeRoom_served C cfg room
    obtain ⟨hrest, hlater⟩ := ih (mergeRoom C cfg room)
    refine ⟨hfirst.trans hrest, ?_⟩
    intro room' hroom' name hname hlen
    rcases List.mem_cons.mp hroom' with rfl | hmem
    · obtain ⟨r, hr, hr'⟩ := hserved name hname (hrest.length_le.trans_lt hlen)
      exact ⟨r, hrest.subset hr, hr'⟩
    · exact hlater room' hmem name hname hlen

/-- A merge makes the tables follow the switch. -/
theorem switchObeyed_merge (C : Crypto) (cfg : McConfig) : SwitchObeyed (configPolicyMerge C cfg) := by
  obtain ⟨-, hpolicy, hswitch⟩ := configPolicyMerge_fixed C cfg
  constructor
  · intro hoff
    refine ⟨?_, ownBlocksOnly_of_off hoff⟩
    rw [configPolicyMerge_eq, if_neg (by simpa [hswitch] using hoff)]
    constructor
    · intro r hr
      simpa using (List.mem_filter.mp hr).2
    · intro ch hch
      simpa using (List.mem_filter.mp hch).2
  · intro hon
    -- the hub's entries are dropped, then the rooms merged
    have hmerged : configPolicyMerge C cfg = cfg.policy.rooms.foldl (mergeRoom C) (dropHub cfg) := by
      rw [configPolicyMerge_eq, if_pos (by simpa [hswitch] using hon)]
    rw [HubRoomsServed, hpolicy, hmerged]
    exact (foldl_mergeRoom_served C cfg.policy.rooms (dropHub cfg)).2

/-- The switch is not thrown by hand while the tables are not as it asks. -/
def SwitchAllowed (cfg : McConfig) (x : ConfigCall) : Prop :=
  match x with
  | .set key val => ConfigKey.find key = some .backbonePolicy →
    (parseBool val = some false → NoHubEntry cfg) ∧ (parseBool val = some true → HubRoomsServed cfg)
  | _ => True

/-- A setting adds entries of the node's own. -/
theorem SetEffect.noHubEntry {k : ConfigKey} {val : Bytes} (heffect : SetEffect C cfg k val cfg')
    (h : NoHubEntry cfg) : NoHubEntry cfg' := by
  -- a channel that is registered is the node's own
  have hregister : ∀ {c c' : McConfig} {name secret : Bytes} {derived : Bool},
      registerChannel C c name secret derived = some c' → NoHubEntry c → NoHubEntry c' := by
    intro c c' name secret derived hreg hc
    rcases (registerChannel_cases hreg).2 with ⟨rfl, -⟩ | ⟨-, -, rfl⟩
    · exact hc
    · refine ⟨hc.1, fun ch hch => ?_⟩
      rcases List.mem_append.mp hch with hold | hnew
      · exact hc.2 ch hold
      · rw [List.mem_singleton.mp hnew]
        rfl
  have htables := heffect.tables
  split at htables
  · obtain ⟨name, -, ⟨rfl, -⟩ | ⟨-, -, rfl⟩⟩ := addRoomEx_cases htables
    · exact h
    have hrooms : ∀ r ∈ cfg.rooms ++ [(⟨name, hashtagKey C name, false⟩ : McRoom)], r.hub = false := by
      intro r hr
      rcases List.mem_append.mp hr with hold | hnew
      · exact h.1 r hold
      · rw [List.mem_singleton.mp hnew]
    rcases registerRoomChannel_cases C
      { cfg with rooms := cfg.rooms ++ [⟨name, hashtagKey C name, false⟩] } name false with heq | ⟨-, heq⟩
    · rw [heq]
      exact ⟨hrooms, h.2⟩
    · rw [heq]
      refine ⟨hrooms, fun ch hch => ?_⟩
      rcases List.mem_append.mp hch with hold | hnew
      · exact h.2 ch hold
      · rw [List.mem_singleton.mp hnew]
  · unfold addPublicChannel at htables
    split at htables
    · exact hregister htables h
    · cases htables
  · obtain ⟨b, -, rfl⟩ := setWith_ok htables
    cases b with
    | false => exact ⟨h.1, h.2⟩
    | true =>
      simp only [if_true]
      rcases configEnsureHashtagChannel_cases C { cfg with mboxEnable := true } (lit "#mbox") with
        heq | hreg
      · rw [heq]
        exact ⟨h.1, h.2⟩
      · exact hregister hreg ⟨h.1, h.2⟩
  · exact ⟨htables.1 ▸ h.1, htables.2 ▸ h.2⟩

theorem SetEffect.hubRoomsServed {k : ConfigKey} {val : Bytes} (heffect : SetEffect C cfg k val cfg')
    (h : HubRoomsServed cfg) : HubRoomsServed cfg' := by
  have hgrows := heffect.grows.1
  intro room hroom name hname hlen
  rw [heffect.policy] at hroom
  obtain ⟨r, hr, hr'⟩ := h room hroom name hname (hgrows.length_le.trans_lt hlen)
  exact ⟨r, hgrows.subset hr, hr'⟩

/-- A setting of another key leaves the switch and keeps its promise. -/
theorem SetEffect.switchObeyed {k : ConfigKey} {val : Bytes} (heffect : SetEffect C cfg k val cfg')
    (hk : k ≠ .backbonePolicy) (h : SwitchObeyed cfg) : SwitchObeyed cfg' := by
  have hswitch : cfg'.backbonePolicy = cfg.backbonePolicy := by
    rw [heffect.switch]
    cases k with
    | backbonePolicy => exact absurd rfl hk
    | _ => rfl
  constructor
  · intro hoff
    exact ⟨heffect.noHubEntry (h.off (hswitch ▸ hoff)).1, ownBlocksOnly_of_off hoff⟩
  · intro hon
    exact heffect.hubRoomsServed (h.on (hswitch ▸ hon))

/-- The setting of the switch itself, and nothing is merged. -/
theorem switchObeyed_set_iff {b : Bool} :
    SwitchObeyed { cfg with backbonePolicy := b } ↔
      (b = false → NoHubEntry cfg) ∧ (b = true → HubRoomsServed cfg) :=
  ⟨fun h => ⟨fun hoff => (h.off hoff).1, fun hon => h.on hon⟩,
    fun h => ⟨fun hoff => ⟨h.1 hoff, ownBlocksOnly_of_off hoff⟩, fun hon => h.2 hon⟩⟩

/-- One call keeps the promise exactly when it does not throw the switch too early. -/
theorem switchObeyed_step_iff {x : ConfigCall} (h : SwitchObeyed cfg) :
    SwitchObeyed (configStep C cfg x) ↔ SwitchAllowed cfg x := by
  cases x with
  | set key val =>
    rw [configStep, SwitchAllowed]
    cases hk : ConfigKey.find key with
    | none =>
      have hset : configSet C cfg key val = .error .unknownKey := by rw [configSet, hk]
      rw [hset]
      exact iff_of_true h (by simp)
    | some k =>
      by_cases hswitch : k = .backbonePolicy
      · subst hswitch
        have hset : configSet C cfg key val =
            setBool val fun b => { cfg with backbonePolicy := b } := by rw [configSet, hk]; rfl
        rw [hset]
        cases hval : parseBool val with
        | none =>
          simp only [setBool, setWith, hval]
          exact iff_of_true h (by simp)
        | some b =>
          simp only [setBool, setWith, hval, Option.some.injEq, true_implies]
          exact switchObeyed_set_iff
      · refine iff_of_true ?_ fun hfind => absurd (Option.some.inj hfind) hswitch
        cases hset : configSet C cfg key val with
        | error e => exact h
        | ok cfg' =>
          obtain ⟨k', hk', heffect⟩ := configSet_effect hset
          obtain rfl : k' = k := Option.some.inj (hk'.symm.trans hk)
          exact heffect.switchObeyed hswitch h
  | load file =>
    refine iff_of_true ?_ trivial
    cases file with
    | none => exact switchObeyed_merge C _
    | some file => exact switchObeyed_merge C _
  | setPolicy p ownPub => exact iff_of_true (switchObeyed_merge C _) trivial
  | policyLoad file ownPub =>
    refine iff_of_true ?_ trivial
    simp only [configStep, configPolicyLoad]
    cases file.map readPolicy with
    | none => exact h
    | some p =>
      simp only
      split
      · exact h
      · exact switchObeyed_merge C _
  | save => exact iff_of_true h trivial

/-- Over any calls: every configuration is as its switch asks exactly when no call
throws the switch off while the tables hold an entry of the hub, or on while a room of
the set is missing. -/
theorem optOut_throughout_iff (C : Crypto) (calls : List ConfigCall) :
    (∀ pre post, calls = pre ++ post → SwitchObeyed (configAfter C pre)) ↔
      Runs.Every (configStep C) SwitchAllowed configDefaults calls := by
  refine Runs.inv_throughout_iff (fun _ => True) (fun _ _ _ => trivial)
    (fun _ _ _ h => switchObeyed_step_iff h) trivial ?_ calls
  constructor
  · intro hoff
    cases hoff
  · intro _
    simp [HubRoomsServed, configDefaults]

/-- Opting out by a setting leaves the hub's room in the table. -/
theorem optOut_keeps_hub_room :
    ¬SwitchObeyed (configAfter (.ofTable [] []) [.setPolicy hubRoomSet none,
      .set (lit "backbone_policy") (lit "false")]) := by
  intro h
  have hroom : (configAfter (.ofTable [] []) [.setPolicy hubRoomSet none,
      .set (lit "backbone_policy") (lit "false")]).rooms.all (fun r => !r.hub) = false := by decide
  have hnone := (h.off (by decide)).1.1
  rw [List.all_eq_true.mpr fun r hr => by simp [hnone r hr]] at hroom
  cases hroom

end Meshcore
