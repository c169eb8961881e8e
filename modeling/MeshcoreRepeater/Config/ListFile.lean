import MeshcoreRepeater.Config.SavedLists

/-! # Saving and loading the lists

Six lists are written one entry a line, in a format that has a comment character of its own.
An entry that holds it is cut, or lost; so is a public channel whose key the built-in `#mbox`
channel takes first, or that finds no room behind it. `configLoad_lists_iff` says exactly
which configurations keep their lists.

* `loadSettings_lists`: what lines make of the lists.
* `configLoad_lists`: what the file makes of them.
* `configLoad_lists_iff`: when they come back.
-/

namespace Meshcore

open ByteLib

variable {C : Crypto} {cfg cfg' : McConfig}

/-! ## What a line adds -/

/-- The lists whose lines are read one by one. -/
structure NodeLists where
  blacklist : List Bytes
  affinity : List Bytes
  home : List Bytes
  probeAllow : List Bytes
  rooms : List McRoom

/-- Those lists of a configuration. -/
def McConfig.lists (cfg : McConfig) : NodeLists where
  blacklist := cfg.blacklist
  affinity := cfg.affinity
  home := cfg.home
  probeAllow := cfg.probeAllow
  rooms := cfg.rooms

/-- The words the role's lists refuse. -/
def noRoleName (t : Bytes) : Prop := t = [] ∨ t = lit "*"

instance : DecidablePred noRoleName := fun _ => inferInstanceAs (Decidable (_ ∨ _))

/-- The blacklist refuses the empty name only. -/
def noName (t : Bytes) : Prop := t = []

instance : DecidablePred noName := fun _ => inferInstanceAs (Decidable (_ = _))

/-- What setting `k` does to the lists, accepted or not. -/
def ConfigKey.addTo (C : Crypto) (k : ConfigKey) (val : Bytes) (l : NodeLists) : NodeLists :=
  match k with
  | .blacklist => { l with blacklist := nameAdd noName mcMaxBlacklist l.blacklist val }
  | .affinity => { l with affinity := nameAdd noRoleName mcMaxAffinity l.affinity val }
  | .home => { l with home := nameAdd noRoleName mcMaxHome l.home val }
  | .probeAllow => { l with probeAllow := nameAdd noRoleName mcMaxProbeAllow l.probeAllow val }
  | .room => { l with rooms := roomsAdd C l.rooms val }
  | _ => l

/-- What it does to the channels. -/
def ConfigKey.addChannel (C : Crypto) (k : ConfigKey) (val : Bytes) (chans : List McPubChannel) : List McPubChannel :=
  match k with
  | .publicChannel => publicAdd C chans val
  | _ => chans

/-- The keys of the lists. -/
def listKeys : List ConfigKey := [.blacklist, .affinity, .home, .probeAllow, .room]

/-- A key that is none of the lists' leaves them alone. -/
theorem setKey_keepsLists {k : ConfigKey} {val : Bytes} (hk : k ∉ listKeys) (hset : setKey C cfg k val = .ok cfg') :
    cfg'.lists = cfg.lists := by
  -- by the kind of setter; only the keys of the lists are left over
  cases k with
  | frequency | bandwidth | tcxoVoltage | aprsAltitude | latitude | longitude
  | crc | iqInverted | useCad | useLeds | location | forward | pingPong | timeofday | aprsEnable
  | backbone | backboneObserve | backboneBridge | backbonePolicy
  | spreadingFactor | codingRate | txPower | preamble | ocp | backbonePort | backboneRate
  | hotspotPowerHigh | hotspotPowerLow
  | spiSpeed | gpioReset | gpioBusy | gpioDio1 | gpioNss | gpioRxen | gpioTxen | gpioLedOn
  | gpioLedData | advertInterval | aprsBeaconInterval | aprsNodeRate | hotspotAwake
  | controlPort | aprsPort | webPort | linkPort =>
    obtain ⟨x, -, rfl⟩ := setWith_ok hset
    rfl
  | spiDev | gpioChip | name | keyFile | linkKey | linkPeer | backboneHost | aprsCall
  | aprsPasscode | aprsHost | aprsTocall | aprsSymbol | aprsNodeSymbol | aprsComment =>
    cases hset
    rfl
  | linkMode =>
    rcases setLinkMode_ok hset with ⟨-, rfl⟩
    rfl
  | backbonePolicyFile =>
    rcases setPolicyFile_ok hset with ⟨-, rfl⟩
    rfl
  | webPassword =>
    rcases setWebPassword_ok hset with ⟨-, rfl⟩
    rfl
  | rfSwitch =>
    rcases setRfSwitch_ok hset with ⟨dio2, rfl⟩
    rfl
  | role =>
    rcases setRole_ok hset with ⟨role, rfl⟩
    rfl
  | syncWord =>
    rcases setSyncWord_ok hset with ⟨w, rfl⟩
    rfl
  | backboneHubKey =>
    rcases setHubKey_ok hset with ⟨key, have_, -, -, -, rfl⟩
    rfl
  | pingChannel =>
    obtain ⟨ch, -, rfl⟩ := setPingChannel_normal hset
    rfl
  | publicChannel =>
    obtain ⟨x, hadd, rfl⟩ := setWith_ok hset
    obtain ⟨chans, rfl⟩ := addPublicChannel_tables hadd
    rfl
  | mbox =>
    obtain ⟨chans, b, rfl⟩ := setMbox_tables hset
    rfl
  | blacklist | affinity | home | probeAllow | room => exact absurd (by decide) hk

/-- What a call does to the lists, accepted or refused. -/
theorem setKey_lists (C : Crypto) (cfg : McConfig) (k : ConfigKey) (val : Bytes) :
    ((setKey C cfg k val).toOption.getD cfg).lists = k.addTo C val cfg.lists := by
  -- the three lists of the role share a setter
  have hrole : ∀ (list : List Bytes) (max : Nat) (put : List Bytes → McConfig), put list = cfg →
      (setWith (listAdd list max val) put).toOption.getD cfg = put (nameAdd noRoleName max list val) := by
    intro list max put hput
    have hadd := listAdd_getD list max val
    cases hres : listAdd list max val with
    | none =>
      rw [hres] at hadd
      exact hput.symm.trans (congrArg put hadd)
    | some list' =>
      rw [hres] at hadd
      exact congrArg put hadd
  cases k with
  | affinity => exact congrArg McConfig.lists (hrole cfg.affinity _ (fun l => { cfg with affinity := l }) rfl)
  | home => exact congrArg McConfig.lists (hrole cfg.home _ (fun l => { cfg with home := l }) rfl)
  | probeAllow => exact congrArg McConfig.lists (hrole cfg.probeAllow _ (fun l => { cfg with probeAllow := l }) rfl)
  | blacklist =>
    have hadd := configBlacklistAdd_getD cfg val
    show ((setWith (configBlacklistAdd cfg val) Prod.snd).toOption.getD cfg).lists = _
    cases hres : configBlacklistAdd cfg val with
    | none =>
      rw [hres] at hadd
      exact congrArg McConfig.lists hadd
    | some r =>
      rw [hres] at hadd
      exact congrArg McConfig.lists hadd
  | room =>
    have hadd := addRoom_rooms C cfg val
    show ((setWith (addRoom C cfg val) id).toOption.getD cfg).lists = _
    cases hres : addRoom C cfg val with
    | none =>
      rw [hres] at hadd
      show cfg.lists = { cfg.lists with rooms := roomsAdd C cfg.rooms val }
      rw [← hadd]
      rfl
    | some cfg' =>
      rw [hres] at hadd
      obtain ⟨rooms, chans, rfl⟩ := addRoomEx_tables hres
      show { cfg.lists with rooms := rooms } = { cfg.lists with rooms := roomsAdd C cfg.rooms val }
      rw [← hadd]
      rfl
  | _ =>
    generalize hres : setKey C cfg _ val = r
    cases r with
    | error e => rfl
    | ok cfg' => exact setKey_keepsLists (by decide) hres

/-- A `#name` that is not there yet is added as a derived channel. -/
theorem configEnsureHashtagChannel_channels (C : Crypto) (cfg : McConfig) (name : Bytes) :
    (configEnsureHashtagChannel C cfg name).publicChannels = cfg.publicChannels ∨
      (configEnsureHashtagChannel C cfg name).publicChannels =
        channelsAdd C cfg.publicChannels name (hashtagKey C name) true := by
  unfold configEnsureHashtagChannel
  split
  · exact .inl rfl
  split
  · exact .inl rfl
  · exact .inr (registerChannel_channels C cfg name _ true)

/-- A room of the node's own comes with its derived channel. -/
theorem registerRoomChannel_channels (C : Crypto) (cfg : McConfig) (name : Bytes) :
    (registerRoomChannel C cfg name false).publicChannels =
      channelsAdd C cfg.publicChannels name (hashtagKey C name) true := by
  have hreg := registerChannel_channels C cfg name (hashtagKey C name) true
  unfold registerRoomChannel
  cases hres : registerChannel C cfg name (hashtagKey C name) true with
  | none =>
    rw [hres] at hreg
    exact hreg
  | some cfg' =>
    rw [hres] at hreg
    exact hreg

/-- All settings but one add at most a derived channel. -/
theorem setKey_channels {k : ConfigKey} (hk : k ≠ .publicChannel) {val : Bytes}
    (hset : setKey C cfg k val = .ok cfg') :
    cfg'.publicChannels = cfg.publicChannels ∨
      ∃ name, cfg'.publicChannels = channelsAdd C cfg.publicChannels name (hashtagKey C name) true := by
  have htables := (setKey_effect hset).tables
  split at htables
  · obtain ⟨name, -, ⟨rfl, -⟩ | ⟨-, -, rfl⟩⟩ := addRoomEx_cases htables
    · exact .inl rfl
    · exact .inr ⟨name, registerRoomChannel_channels C _ name⟩
  · exact absurd rfl hk
  · obtain ⟨b, -, rfl⟩ := setWith_ok htables
    cases b with
    | false => exact .inl rfl
    | true =>
      rcases configEnsureHashtagChannel_channels C { cfg with mboxEnable := true } (lit "#mbox") with heq | heq
      · exact .inl heq
      · exact .inr ⟨_, heq⟩
  · exact .inl htables.2

/-- A derived channel is none with a key of its own. -/
theorem ownKeys_channelsAdd (C : Crypto) (chans : List McPubChannel) (name secret : Bytes) :
    ownKeys (channelsAdd C chans name secret true) = ownKeys chans := by
  rcases channelsAdd_cases C chans name secret true with heq | ⟨-, -, -, heq⟩
  · rw [heq]
  · rw [heq, ownKeys, List.filter_append]
    exact List.append_nil _

/-- A `public_channel` value is added, or refused and nothing changes. -/
theorem setKey_publicChannel (C : Crypto) (cfg : McConfig) (val : Bytes) :
    ((setKey C cfg .publicChannel val).toOption.getD cfg).publicChannels = publicAdd C cfg.publicChannels val := by
  rw [← addPublicChannel_channels]
  show ((setWith (addPublicChannel C cfg val) id).toOption.getD cfg).publicChannels = _
  cases addPublicChannel C cfg val with
  | none => rfl
  | some cfg' => rfl

/-! ## The lists after some calls -/

/-- The lists as the functions of the node keep them. -/
structure NodeLists.Normal (C : Crypto) (l : NodeLists) : Prop where
  blacklist : NameList noName mcMaxBlacklist l.blacklist
  affinity : NameList noRoleName mcMaxAffinity l.affinity
  home : NameList noRoleName mcMaxHome l.home
  probeAllow : NameList noRoleName mcMaxProbeAllow l.probeAllow
  rooms : RoomList C l.rooms

/-- Adding keeps every list as it should be. -/
theorem NodeLists.Normal.addTo {l : NodeLists} (h : l.Normal C) (k : ConfigKey) (val : Bytes) :
    (k.addTo C val l).Normal C := by
  cases k with
  | blacklist => exact { h with blacklist := h.blacklist.add val }
  | affinity => exact { h with affinity := h.affinity.add val }
  | home => exact { h with home := h.home.add val }
  | probeAllow => exact { h with probeAllow := h.probeAllow.add val }
  | room => exact { h with rooms := h.rooms.add val }
  | _ => exact h

/-- `config_set`, `config_blacklist_add` and `config_blacklist_remove`. -/
def ConfigEdit.IsSetting : ConfigEdit → Prop
  | .call (.set _ _) => True
  | .blacklistAdd _ => True
  | .blacklistRemove _ => True
  | _ => False

/-- What holds after every such call. -/
def ListsNormal (C : Crypto) (cfg : McConfig) : Prop := cfg.lists.Normal C ∧ ChannelList cfg.publicChannels

/-- So does any call of `config_set`. -/
theorem setKey_normal (h : ListsNormal C cfg) (k : ConfigKey) (val : Bytes) :
    ListsNormal C ((setKey C cfg k val).toOption.getD cfg) := by
  constructor
  · rw [setKey_lists]
    exact h.1.addTo k val
  by_cases hk : k = .publicChannel
  · rw [hk, setKey_publicChannel]
    exact h.2.addPublic C val
  cases hset : setKey C cfg k val with
  | error e => exact h.2
  | ok cfg' =>
    show ChannelList cfg'.publicChannels
    rcases setKey_channels hk hset with heq | ⟨name, heq⟩
    · rw [heq]
      exact h.2
    · rw [heq]
      exact h.2.add C (by nofun)

/-- And the blacklist commands. -/
theorem editStep_normal {e : ConfigEdit} (he : e.IsSetting) (h : ListsNormal C cfg) :
    ListsNormal C (editStep C cfg e) := by
  cases e with
  | blacklistAdd name =>
    show ListsNormal C (((configBlacklistAdd cfg name).map Prod.snd).getD cfg)
    rw [configBlacklistAdd_getD]
    exact ⟨{ h.1 with blacklist := h.1.blacklist.add name }, h.2⟩
  | blacklistRemove name =>
    show ListsNormal C ((configBlacklistRemove cfg name).getD cfg)
    unfold configBlacklistRemove
    simp only
    split
    · exact ⟨{ h.1 with blacklist := h.1.blacklist.eraseP _ }, h.2⟩
    · exact h
  | call x =>
    cases x with
    | set key val =>
      show ListsNormal C ((configSet C cfg key val).toOption.getD cfg)
      unfold configSet
      split
      · exact setKey_normal h _ _
      · exact h
    | load | setPolicy | policyLoad | save => cases he

/-- Settings keep the lists in order. -/
theorem configEdited_normal (C : Crypto) {edits : List ConfigEdit} (h : ∀ e ∈ edits, e.IsSetting) :
    ListsNormal C (configEdited C edits) := by
  refine Runs.run_invariant_of (fun _ e => ConfigEdit.IsSetting e) (ListsNormal C) ?_
    (Runs.every_of_forall_mem h) ?_
  · intro c e he hc
    exact editStep_normal he hc
  · have hnames : ∀ bad max, NameList bad max [] := fun bad max => ⟨by nofun, .nil, Nat.zero_le _⟩
    refine ⟨⟨hnames _ _, hnames _ _, hnames _ _, hnames _ _, ?_⟩, ?_⟩
    · exact ⟨by nofun, by nofun, List.nodup_nil, Nat.zero_le _⟩
    · exact ⟨by nofun, List.nodup_nil, by nofun, Nat.zero_le _⟩

/-! ## The lists after the file -/

/-- What the lines of some settings do to the lists. -/
def addLines (C : Crypto) (settings : List (ConfigKey × Bytes)) (l : NodeLists) : NodeLists :=
  settings.foldl (fun l s => s.1.addTo C (readValue s.2) l) l

/-- Line by line, with the value the reader makes of the written one. -/
theorem loadSettings_lists (C : Crypto) (base : McConfig) (settings : List (ConfigKey × Bytes)) :
    (loadSettings C base settings).lists = addLines C settings base.lists := by
  refine foldl_settingLines McConfig.lists (fun s l => s.1.addTo C (readValue s.2) l) _ ?_ base
  intro s _ base
  rw [loadLine_settingLine, setKey_lists]

/-- Lines in two parts. -/
theorem addLines_append (C : Crypto) (xs ys : List (ConfigKey × Bytes)) (l : NodeLists) :
    addLines C (xs ++ ys) l = addLines C ys (addLines C xs l) := List.foldl_append

/-- Lines of other keys do nothing to them. -/
theorem addLines_other (C : Crypto) {settings : List (ConfigKey × Bytes)} (h : ∀ s ∈ settings, s.1 ∉ listKeys)
    (l : NodeLists) : addLines C settings l = l := by
  have hid : ∀ k : ConfigKey, k ∉ listKeys → ∀ val, k.addTo C val l = l := by
    intro k hk val
    cases k with
    | blacklist | affinity | home | probeAllow | room => exact absurd (by decide) hk
    | _ => rfl
  induction settings with
  | nil => rfl
  | cons s settings ih =>
    rw [addLines, List.foldl_cons, hid s.1 (h s List.mem_cons_self)]
    exact ih fun s' hs' => h s' (List.mem_cons_of_mem s hs')

/-- The first part of the file holds `KEYS[]` and the ping channel. -/
theorem plainSettings_key {s : ConfigKey × Bytes} (h : s ∈ plainSettings cfg) :
    s.1 ∈ ConfigKey.pingChannel :: savedKeys := by
  rcases List.mem_append.mp h with hkey | hping
  · rcases List.mem_map.mp hkey with ⟨k, hk, rfl⟩
    exact List.mem_cons_of_mem _ hk
  · rw [List.mem_singleton.mp hping]
    exact List.mem_cons_self

/-- A secret is a line of its own key, or none. -/
theorem secretSetting_key {k : ConfigKey} {v : Bytes} {s : ConfigKey × Bytes} (h : s ∈ secretSetting k v) :
    s.1 = k := by
  unfold secretSetting at h
  split at h
  · cases h
  · rw [List.mem_singleton.mp h]

/-- The settings in front of the lists, and the channels, belong to other keys. -/
theorem frontSettings_other (cfg : McConfig) :
    ∀ s ∈ plainSettings cfg ++ secretSetting .linkKey cfg.linkKey ++ secretSetting .webPassword cfg.webPassword,
      s.1 ∉ listKeys ∧ s.1 ≠ .publicChannel := by
  have hkeys : ∀ k ∈ ConfigKey.pingChannel :: savedKeys, k ∉ listKeys ∧ k ≠ .publicChannel := by decide
  intro s hs
  rcases List.mem_append.mp hs with hs | hweb
  · rcases List.mem_append.mp hs with hplain | hlink
    · exact hkeys s.1 (plainSettings_key hplain)
    · rw [secretSetting_key hlink]
      decide
  · rw [secretSetting_key hweb]
    decide

/-- The lists that the saved lines lead to. -/
def reloadLists (C : Crypto) (cfg : McConfig) : NodeLists where
  blacklist := reloadNames noName mcMaxBlacklist cfg.blacklist
  affinity := reloadNames noRoleName mcMaxAffinity cfg.affinity
  home := reloadNames noRoleName mcMaxHome cfg.home
  probeAllow := reloadNames noRoleName mcMaxProbeAllow cfg.probeAllow
  rooms := reloadRooms C (cfg.ownRooms.map McRoom.name)

/-- The saved lines of the lists, one list after the other. -/
theorem addLines_saved (C : Crypto) (cfg : McConfig) :
    addLines C (savedSettings cfg) (clearLists configDefaults).lists = reloadLists C cfg := by
  -- the lines of one list work on that list alone
  have hfold : ∀ {α β : Type} (f : α → ConfigKey × Bytes) (put : β → NodeLists) (add : β → α → β),
      (∀ b a, (f a).1.addTo C (readValue (f a).2) (put b) = put (add b a)) →
      ∀ (list : List α) (b : β), addLines C (list.map f) (put b) = put (list.foldl add b) := by
    intro α β f put add hone list
    induction list with
    | nil => exact fun b => rfl
    | cons a list ih =>
      intro b
      rw [List.map_cons, List.foldl_cons, ← ih, ← hone]
      rfl
  have hchans : ∀ s ∈ (cfg.publicChannels.filter fun ch => !ch.derived).map
      fun ch => (ConfigKey.publicChannel, channelText ch), s.1 ∉ listKeys := by
    intro s hs
    rcases List.mem_map.mp hs with ⟨ch, -, rfl⟩
    simp [listKeys]
  rw [savedSettings_parts, addLines_append, addLines_other C fun s hs => (frontSettings_other cfg s hs).1,
    listSettings, addLines_append, addLines_append, addLines_append, addLines_append, addLines_append,
    addLines_other C hchans]
  have hblacklist : ∀ l : NodeLists, addLines C (cfg.blacklist.map fun name => (ConfigKey.blacklist, name)) l =
      { l with blacklist := cfg.blacklist.foldl (fun b t => nameAdd noName mcMaxBlacklist b (readValue t)) l.blacklist } :=
    fun l => hfold _ (fun b => { l with blacklist := b }) _ (fun _ _ => rfl) cfg.blacklist l.blacklist
  have haffinity : ∀ l : NodeLists, addLines C (cfg.affinity.map fun name => (ConfigKey.affinity, name)) l =
      { l with affinity := cfg.affinity.foldl (fun b t => nameAdd noRoleName mcMaxAffinity b (readValue t)) l.affinity } :=
    fun l => hfold _ (fun b => { l with affinity := b }) _ (fun _ _ => rfl) cfg.affinity l.affinity
  have hhome : ∀ l : NodeLists, addLines C (cfg.home.map fun name => (ConfigKey.home, name)) l =
      { l with home := cfg.home.foldl (fun b t => nameAdd noRoleName mcMaxHome b (readValue t)) l.home } :=
    fun l => hfold _ (fun b => { l with home := b }) _ (fun _ _ => rfl) cfg.home l.home
  have hprobe : ∀ l : NodeLists, addLines C (cfg.probeAllow.map fun name => (ConfigKey.probeAllow, name)) l =
      { l with
        probeAllow := cfg.probeAllow.foldl (fun b t => nameAdd noRoleName mcMaxProbeAllow b (readValue t)) l.probeAllow } :=
    fun l => hfold _ (fun b => { l with probeAllow := b }) _ (fun _ _ => rfl) cfg.probeAllow l.probeAllow
  have hroom : ∀ l : NodeLists, addLines C (cfg.ownRooms.map fun r => (ConfigKey.room, bareName r.name)) l =
      { l with rooms := cfg.ownRooms.foldl (fun b r => roomsAdd C b (readValue (bareName r.name))) l.rooms } :=
    fun l => hfold _ (fun b => { l with rooms := b }) _ (fun _ _ => rfl) cfg.ownRooms l.rooms
  rw [hblacklist, haffinity, hhome, hprobe, hroom, reloadLists, reloadRooms, List.foldl_map]
  rfl

/-! ## The channels after the file -/

/-- Lines of other keys leave the channels with a key of their own alone. -/
theorem loadSettings_ownKeys {settings : List (ConfigKey × Bytes)} (h : ∀ s ∈ settings, s.1 ≠ .publicChannel)
    (base : McConfig) :
    ownKeys (loadSettings C base settings).publicChannels = ownKeys base.publicChannels := by
  have hline := foldl_settingLines (C := C) (fun cfg => ownKeys cfg.publicChannels) (fun _ own => own)
    settings ?_ base
  · rw [loadSettings, hline, List.foldl_fixed]
  intro s hs base
  rw [loadLine_settingLine]
  cases hset : setKey C base s.1 (readValue s.2) with
  | error e => rfl
  | ok cfg' =>
    rcases setKey_channels (h s hs) hset with heq | ⟨name, heq⟩
    · exact congrArg ownKeys heq
    · exact (congrArg ownKeys heq).trans (ownKeys_channelsAdd ..)

/-- The lines of the channels add them one by one. -/
theorem loadSettings_publicChannels (C : Crypto) (own : List McPubChannel) (base : McConfig) :
    (loadSettings C base (own.map fun ch => (ConfigKey.publicChannel, channelText ch))).publicChannels =
      (own.map channelText).foldl (fun chans t => publicAdd C chans (readValue t)) base.publicChannels := by
  have hline := foldl_settingLines (C := C) McConfig.publicChannels (fun s chans => publicAdd C chans (readValue s.2))
    (own.map fun ch => (ConfigKey.publicChannel, channelText ch)) ?_ base
  · rw [loadSettings, hline, List.foldl_map, List.foldl_map]
  intro s hs base
  rcases List.mem_map.mp hs with ⟨ch, -, rfl⟩
  rw [loadLine_settingLine, setKey_publicChannel]

/-- The first line, then the others. -/
theorem loadSettings_cons (C : Crypto) (base : McConfig) (s : ConfigKey × Bytes) (settings : List (ConfigKey × Bytes)) :
    loadSettings C base (s :: settings) = loadSettings C (loadLine C base (settingLine s.1.text s.2)) settings := rfl

/-- Lines that add no channel at all. -/
theorem loadSettings_noChannel {settings : List (ConfigKey × Bytes)}
    (h : ∀ s ∈ settings, s.1 ∉ [ConfigKey.publicChannel, .room, .mbox]) (base : McConfig) :
    (loadSettings C base settings).publicChannels = base.publicChannels := by
  have hline := foldl_settingLines (C := C) McConfig.publicChannels (fun _ chans => chans)
    settings ?_ base
  · rw [loadSettings, hline, List.foldl_fixed]
  intro s hs base
  rw [loadLine_settingLine]
  have hother := h s hs
  cases hset : setKey C base s.1 (readValue s.2) with
  | error e => rfl
  | ok cfg' =>
    have htables := (setKey_effect hset).tables
    split at htables
    · exact absurd (by simp_all) hother
    · exact absurd (by simp_all) hother
    · exact absurd (by simp_all) hother
    · exact htables.2

/-- The line of `mbox` adds the channel when the mailbox is on. -/
theorem loadLine_mbox (C : Crypto) {base : McConfig} (hbase : base.publicChannels = []) (on : Bool) :
    (loadLine C base (settingLine (ConfigKey.text .mbox) (snprintfS saveBuf (boolText on)))).publicChannels =
      startChannels C on := by
  have hread : readValue (snprintfS saveBuf (boolText on)) = boolText on := by cases on <;> decide
  have hlen : ¬ ((hashtagKey C (lit "#mbox")).length ≠ 16 ∧ (hashtagKey C (lit "#mbox")).length ≠ 32) := by
    rw [length_hashtagKey]
    decide
  rw [loadLine_settingLine, hread]
  show ((setBool (boolText on) fun b => if b then
    configEnsureHashtagChannel C { base with mboxEnable := b } (lit "#mbox") else
      { base with mboxEnable := b }).toOption.getD base).publicChannels = _
  rw [setBool, parseBool_boolText]
  cases on with
  | false => exact hbase
  | true =>
    show (configEnsureHashtagChannel C { base with mboxEnable := true } (lit "#mbox")).publicChannels = _
    unfold configEnsureHashtagChannel
    rw [if_neg (by decide), if_neg (by simp [hbase]), registerChannel_channels]
    show channelsAdd C base.publicChannels (lit "#mbox") (hashtagKey C (lit "#mbox")) true = _
    rw [hbase, channelsAdd, if_neg hlen]
    rfl

/-- Of `KEYS[]` only `mbox` touches the channels. -/
theorem savedKeys_channels :
    savedKeys.Nodup ∧ ConfigKey.mbox ∈ savedKeys ∧
      ∀ k ∈ savedKeys, k ≠ .mbox → k ∉ [ConfigKey.publicChannel, .room, .mbox] := by decide

/-- In front of them stands `#mbox`, when it is on. -/
theorem loadSettings_start (C : Crypto) (cfg : McConfig) :
    (loadSettings C (clearLists configDefaults)
      (plainSettings cfg ++ secretSetting .linkKey cfg.linkKey ++
        secretSetting .webPassword cfg.webPassword)).publicChannels = startChannels C cfg.mboxEnable := by
  obtain ⟨hnodup, hmbox, hother⟩ := savedKeys_channels
  obtain ⟨front, back, hkeys⟩ := List.append_of_mem hmbox
  rw [hkeys, List.nodup_append, List.nodup_cons] at hnodup
  -- the keys before `mbox` and behind it add no channel
  have hfront : ∀ s ∈ front.map fun k => (k, snprintfS saveBuf (keyText cfg k)),
      s.1 ∉ [ConfigKey.publicChannel, .room, .mbox] := by
    intro s hs
    rcases List.mem_map.mp hs with ⟨k, hk, rfl⟩
    apply hother
    · rw [hkeys]
      exact List.mem_append_left _ hk
    · exact hnodup.2.2 k hk .mbox List.mem_cons_self
  have hback : ∀ s ∈ back.map fun k => (k, snprintfS saveBuf (keyText cfg k)),
      s.1 ∉ [ConfigKey.publicChannel, .room, .mbox] := by
    intro s hs
    rcases List.mem_map.mp hs with ⟨k, hk, rfl⟩
    apply hother
    · rw [hkeys]
      exact List.mem_append_right _ (List.mem_cons_of_mem _ hk)
    · rintro rfl
      exact hnodup.2.1.1 hk
  have hping : ∀ s ∈ [(ConfigKey.pingChannel, pingText cfg.pingChannel)],
      s.1 ∉ [ConfigKey.publicChannel, .room, .mbox] := by
    intro s hs
    rw [List.mem_singleton.mp hs]
    simp
  have hsecret : ∀ k v, k ∉ [ConfigKey.publicChannel, .room, .mbox] →
      ∀ s ∈ secretSetting k v, s.1 ∉ [ConfigKey.publicChannel, .room, .mbox] := by
    intro k v hk s hs
    rwa [secretSetting_key hs]
  rw [loadSettings_append, loadSettings_noChannel (hsecret .webPassword _ (by decide)), loadSettings_append,
    loadSettings_noChannel (hsecret .linkKey _ (by decide)), plainSettings, loadSettings_append,
    loadSettings_noChannel hping, hkeys, List.map_append, loadSettings_append, List.map_cons, loadSettings_cons,
    loadSettings_noChannel hback]
  apply loadLine_mbox
  rw [loadSettings_noChannel hfront]
  rfl

/-- The channels with a key of their own that the saved lines lead to. -/
theorem loadSettings_saved_ownKeys (C : Crypto) (cfg : McConfig) :
    ownKeys (loadSettings C (clearLists configDefaults) (savedSettings cfg)).publicChannels =
      ownKeys (reloadChannels C cfg.mboxEnable (ownKeys cfg.publicChannels)) := by
  have hnames : ∀ (k : ConfigKey) (list : List Bytes), k ≠ .publicChannel →
      ∀ s ∈ list.map fun name => (k, name), s.1 ≠ .publicChannel := by
    intro k list hk s hs
    rcases List.mem_map.mp hs with ⟨name, -, rfl⟩
    exact hk
  have hrooms : ∀ s ∈ cfg.ownRooms.map fun r => (ConfigKey.room, bareName r.name), s.1 ≠ .publicChannel := by
    intro s hs
    rcases List.mem_map.mp hs with ⟨r, -, rfl⟩
    simp
  rw [savedSettings_parts, loadSettings_append, listSettings, loadSettings_append, loadSettings_ownKeys hrooms,
    loadSettings_append, loadSettings_ownKeys (hnames .probeAllow _ (by decide)), loadSettings_append,
    loadSettings_ownKeys (hnames .home _ (by decide)), loadSettings_append,
    loadSettings_ownKeys (hnames .affinity _ (by decide)), loadSettings_append,
    loadSettings_ownKeys (hnames .blacklist _ (by decide)), reloadChannels]
  have hstart := loadSettings_start C cfg
  have hadd := loadSettings_publicChannels C (ownKeys cfg.publicChannels)
    (loadSettings C (clearLists configDefaults) (plainSettings cfg ++ secretSetting .linkKey cfg.linkKey ++
      secretSetting .webPassword cfg.webPassword))
  rw [hstart] at hadd
  exact congrArg ownKeys hadd

/-! ## The whole file -/

/-- No line of the file is a policy. -/
theorem loadSettings_policy (C : Crypto) (base : McConfig) (settings : List (ConfigKey × Bytes)) :
    (loadSettings C base settings).policy = base.policy := by
  have hline := foldl_settingLines (C := C) McConfig.policy (fun _ p => p) settings ?_ base
  · rw [loadSettings, hline, List.foldl_fixed]
  intro s _ base
  rw [loadLine_settingLine]
  cases hset : setKey C base s.1 (readValue s.2) with
  | error e => rfl
  | ok cfg' => exact (setKey_effect hset).policy

/-- The ping channel's own channel is a derived one. -/
theorem configEnsurePingChannel_ownKeys (C : Crypto) (cfg : McConfig) :
    ownKeys (configEnsurePingChannel C cfg).publicChannels = ownKeys cfg.publicChannels := by
  have hensure : ∀ (c : McConfig) (name : Bytes),
      ownKeys (configEnsureHashtagChannel C c name).publicChannels = ownKeys c.publicChannels := by
    intro c name
    rcases configEnsureHashtagChannel_channels C c name with heq | heq
    · rw [heq]
    · rw [heq, ownKeys_channelsAdd]
  unfold configEnsurePingChannel
  simp only
  split
  · rw [hensure, hensure]
  · rw [hensure]

/-- Without a set of the hub, the end of `config_load` adds derived channels alone. -/
theorem configLoad_end (h : Tables cfg) (hhub : ∀ r ∈ cfg.rooms, r.hub = false) (hpolicy : cfg.policy.rooms = []) :
    (configPolicyMerge C (configEnsurePingChannel C cfg)).lists = cfg.lists ∧
      ownKeys (configPolicyMerge C (configEnsurePingChannel C cfg)).publicChannels = ownKeys cfg.publicChannels := by
  have htables := h.configEnsurePingChannel (C := C)
  have hown := configEnsurePingChannel_ownKeys C cfg
  obtain ⟨chans, hping⟩ := configEnsurePingChannel_tables C cfg
  rw [hping] at htables hown ⊢
  -- without rooms of the hub the merge only takes out the hub's
  have hmerge : configPolicyMerge C { cfg with publicChannels := chans } =
      dropHub { cfg with publicChannels := chans } := by
    rw [configPolicyMerge_eq, hpolicy]
    exact ite_self _
  rw [hmerge]
  constructor
  · have hrooms : (cfg.rooms.filter fun r => !r.hub) = cfg.rooms := by
      apply List.filter_eq_self.mpr
      intro r hr
      rw [hhub r hr]
      rfl
    show { cfg.lists with rooms := cfg.rooms.filter fun r => !r.hub } = cfg.lists
    rw [hrooms]
    rfl
  · rw [← hown]
    show (chans.filter fun ch => !ch.hub).filter (fun ch => !ch.derived) = chans.filter fun ch => !ch.derived
    rw [List.filter_filter]
    apply List.filter_congr
    intro ch hch
    cases hd : ch.derived with
    | true => rfl
    | false =>
      cases hh : ch.hub with
      | false => rfl
      | true =>
        have hderived := htables.derived ch hch hh
        rw [hd] at hderived
        cases hderived

/-- What the file makes of the lists and of the channels with a key of their own. -/
theorem configLoad_lists (hline : cfg.OneLine True) :
    (configLoad C configDefaults (some (configSave cfg))).lists = reloadLists C cfg ∧
      ownKeys (configLoad C configDefaults (some (configSave cfg))).publicChannels =
        ownKeys (reloadChannels C cfg.mboxEnable (ownKeys cfg.publicChannels)) := by
  have hlists := loadSettings_lists C (clearLists configDefaults) (savedSettings cfg)
  rw [addLines_saved] at hlists
  have hchans := loadSettings_saved_ownKeys C cfg
  have hpolicy := loadSettings_policy C (clearLists configDefaults) (savedSettings cfg)
  have htables : Tables (loadSettings C (clearLists configDefaults) (savedSettings cfg)) := by
    apply Tables.loadLines
    constructor <;> simp [clearLists]
  have hload : configLoad C configDefaults (some (configSave cfg)) =
      configPolicyMerge C (configEnsurePingChannel C
        (loadSettings C (clearLists configDefaults) (savedSettings cfg))) := by
    unfold configLoad
    simp only
    rw [fileLines_of_oneLine hline, foldl_savedLines]
  rw [hload]
  generalize loadSettings C (clearLists configDefaults) (savedSettings cfg) = loaded at hlists hchans hpolicy htables
  have hrooms : loaded.rooms = reloadRooms C (cfg.ownRooms.map McRoom.name) := congrArg NodeLists.rooms hlists
  have hend := configLoad_end (C := C) htables ?_ ?_
  · rw [hend.1, hend.2]
    exact ⟨hlists, hchans⟩
  · intro r hr
    rw [hrooms] at hr
    rw [(reloadRooms_list C _).made r hr]
  · rw [hpolicy]
    rfl

/-- The same lists, in the same order, and the same channels with a key of their own. -/
structure SameLists (cfg cfg' : McConfig) : Prop where
  blacklist : cfg'.blacklist = cfg.blacklist
  affinity : cfg'.affinity = cfg.affinity
  home : cfg'.home = cfg.home
  probeAllow : cfg'.probeAllow = cfg.probeAllow
  rooms : cfg'.ownRooms = cfg.ownRooms
  channels : ∀ e, e ∈ (ownKeys cfg'.publicChannels).map McPubChannel.entry ↔
    e ∈ (ownKeys cfg.publicChannels).map McPubChannel.entry

/-- What keeps them: no name holds a `#`, the rest of no room's name does or starts with a
blank, and no channel collides with `#mbox`. -/
structure ListsKept (C : Crypto) (cfg : McConfig) : Prop where
  blacklist : ∀ t ∈ cfg.blacklist, (35 : UInt8) ∉ t
  affinity : ∀ t ∈ cfg.affinity, (35 : UInt8) ∉ t
  home : ∀ t ∈ cfg.home, (35 : UInt8) ∉ t
  probeAllow : ∀ t ∈ cfg.probeAllow, (35 : UInt8) ∉ t
  rooms : ∀ r ∈ cfg.ownRooms, RoomKept r.name
  channels : ∀ ch ∈ ownKeys cfg.publicChannels, ChannelKept ch.name
  mbox : cfg.mboxEnable = true → (∀ ch ∈ ownKeys cfg.publicChannels, ch.key ≠ mboxKey C) ∧
    (ownKeys cfg.publicChannels).length < mcMaxPublicChannels

/-- For a configuration made by `config_set`, `config_blacklist_add` and
`config_blacklist_remove` with single-line values: the file restores its lists exactly when
`ListsKept` holds. -/
theorem configLoad_lists_iff (C : Crypto) {edits : List ConfigEdit}
    (hedits : ∀ e ∈ edits, e.IsSetting ∧ e.SingleLine) :
    SameLists (configEdited C edits) (configLoad C configDefaults (some (configSave (configEdited C edits)))) ↔
      ListsKept C (configEdited C edits) := by
  have hline := configEdited_oneLine C fun e he (_ : True) => (hedits e he).2
  obtain ⟨hnormal, hchannels⟩ := configEdited_normal C fun e he => (hedits e he).1
  generalize configEdited C edits = cfg at hline hnormal hchannels
  obtain ⟨hlists, hown⟩ := configLoad_lists (C := C) hline
  have htables : ∀ c : McConfig, c.lists = reloadLists C cfg →
      c.blacklist = reloadNames noName mcMaxBlacklist cfg.blacklist ∧
      c.affinity = reloadNames noRoleName mcMaxAffinity cfg.affinity ∧
      c.home = reloadNames noRoleName mcMaxHome cfg.home ∧
      c.probeAllow = reloadNames noRoleName mcMaxProbeAllow cfg.probeAllow ∧
      c.rooms = reloadRooms C (cfg.ownRooms.map McRoom.name) := by
    intro c hc
    exact ⟨congrArg NodeLists.blacklist hc, congrArg NodeLists.affinity hc, congrArg NodeLists.home hc,
      congrArg NodeLists.probeAllow hc, congrArg NodeLists.rooms hc⟩
  obtain ⟨hblacklist, haffinity, hhome, hprobe, hrooms⟩ := htables _ hlists
  -- every room is the node's own, before and after
  have hownRooms : ∀ c : McConfig, RoomList C c.rooms → c.ownRooms = c.rooms := by
    intro c hc
    apply List.filter_eq_self.mpr
    intro r hr
    rw [hc.made r hr]
    rfl
  have hbefore : cfg.ownRooms = cfg.rooms := hownRooms cfg hnormal.rooms
  generalize configLoad C configDefaults (some (configSave cfg)) = cfg' at *
  have hafter : cfg'.ownRooms = cfg'.rooms := by
    apply hownRooms
    rw [hrooms]
    exact reloadRooms_list C _
  rw [hbefore] at hrooms
  have hroomsIff : reloadRooms C (cfg.rooms.map McRoom.name) = cfg.rooms ↔ ∀ r ∈ cfg.rooms, RoomKept r.name :=
    hnormal.rooms.reload_iff
  have hchannelsIff := hchannels.reload_iff C cfg.mboxEnable
  rw [← hown] at hchannelsIff
  constructor
  -- list by list
  · intro hsame
    obtain ⟨hkept, hmbox⟩ := hchannelsIff.mp hsame.channels
    constructor
    · exact hnormal.blacklist.reload_iff.mp (hblacklist.symm.trans hsame.blacklist)
    · exact hnormal.affinity.reload_iff.mp (haffinity.symm.trans hsame.affinity)
    · exact hnormal.home.reload_iff.mp (hhome.symm.trans hsame.home)
    · exact hnormal.probeAllow.reload_iff.mp (hprobe.symm.trans hsame.probeAllow)
    · rw [hbefore]
      apply hroomsIff.mp
      have hsameRooms := hsame.rooms
      rw [hafter, hbefore, hrooms] at hsameRooms
      exact hsameRooms
    · exact hkept
    · exact hmbox
  · intro hkept
    constructor
    · exact hblacklist.trans (hnormal.blacklist.reload_iff.mpr hkept.blacklist)
    · exact haffinity.trans (hnormal.affinity.reload_iff.mpr hkept.affinity)
    · exact hhome.trans (hnormal.home.reload_iff.mpr hkept.home)
    · exact hprobe.trans (hnormal.probeAllow.reload_iff.mpr hkept.probeAllow)
    · rw [hafter, hbefore, hrooms]
      apply hroomsIff.mpr
      rw [← hbefore]
      exact hkept.rooms
    · exact hchannelsIff.mpr ⟨hkept.channels, hkept.mbox⟩

/-- Two calls: a name on the blacklist, and a room. -/
def plainEntries : List ConfigEdit :=
  [.blacklistAdd (lit "Spammer"), .call (.set (ConfigKey.text .room) (lit "on4x"))]

theorem configLoad_lists_iff_plain :
    SameLists (configEdited (.ofTable [] []) plainEntries)
        (configLoad (.ofTable [] []) configDefaults (some (configSave (configEdited (.ofTable [] []) plainEntries)))) ↔
      ListsKept (.ofTable [] []) (configEdited (.ofTable [] []) plainEntries) := by
  apply configLoad_lists_iff
  intro e he
  simp only [plainEntries, List.mem_cons, List.not_mem_nil, or_false] at he
  rcases he with rfl | rfl
  · refine ⟨trivial, ?_⟩
    show (10 : UInt8) ∉ lit "Spammer"
    decide
  · refine ⟨trivial, ?_⟩
    show (10 : UInt8) ∉ lit "on4x"
    decide

/-- One call: a name with the character that starts a comment. -/
def hashEntry : List ConfigEdit := [.blacklistAdd (lit "Bad#1")]

/-- It is stored whole and comes back cut: another name is blocked. -/
theorem hashEntry_cut :
    (∀ e ∈ hashEntry, e.IsSetting ∧ e.SingleLine) ∧
      (configEdited (.ofTable [] []) hashEntry).blacklist = [lit "Bad#1"] ∧
      (configLoad (.ofTable [] []) configDefaults
        (some (configSave (configEdited (.ofTable [] []) hashEntry)))).blacklist = [lit "Bad"] := by
  have hsetting : ∀ e ∈ hashEntry, e.IsSetting ∧ e.SingleLine := by
    intro e he
    rw [List.mem_singleton.mp he]
    refine ⟨trivial, ?_⟩
    show (10 : UInt8) ∉ lit "Bad#1"
    decide
  have hline := configEdited_oneLine (.ofTable [] []) fun e he (_ : True) => (hsetting e he).2
  have hstored : (configEdited (.ofTable [] []) hashEntry).blacklist = [lit "Bad#1"] := by decide
  have hload : ∀ c c' : McConfig, c'.lists = reloadLists (.ofTable [] []) c →
      c'.blacklist = reloadNames noName mcMaxBlacklist c.blacklist := fun _ _ h => congrArg NodeLists.blacklist h
  refine ⟨hsetting, hstored, ?_⟩
  rw [hload _ _ (configLoad_lists hline).1, hstored]
  decide

end Meshcore
