import MeshcoreRepeater.Config.RoundTrip
import MeshcoreRepeater.Config.Ownership

/-! # One line for each setting

Calls keep every text of a configuration within its array, and on one line if their values are.

* `configEdited_oneLine`: so after any calls.
* `savedSettings_oneLine`: every setting has room on its line of the file.
* `fileLines_of_oneLine`: a file of single lines is read line by line as it was written.
-/

namespace Meshcore

open ByteLib

variable {C : Crypto} {cfg cfg' : McConfig}

/-! ## The text settings -/

/-- The character arrays of a configuration, and the hub's key. -/
structure TextSettings where
  spiDev : Bytes
  gpioChip : Bytes
  name : Bytes
  keyFile : Bytes
  linkMode : Bytes
  linkKey : Bytes
  linkPeer : Bytes
  backboneHost : Bytes
  backbonePolicyFile : Bytes
  backboneHaveHubKey : Bool
  backboneHubKey : Bytes
  aprsCall : Bytes
  aprsPasscode : Bytes
  aprsHost : Bytes
  aprsTocall : Bytes
  aprsSymbol : Bytes
  aprsNodeSymbol : Bytes
  aprsComment : Bytes
  webPassword : Bytes
deriving DecidableEq

/-- The text settings of a configuration. -/
def McConfig.texts (cfg : McConfig) : TextSettings where
  spiDev := cfg.spiDev
  gpioChip := cfg.gpioChip
  name := cfg.name
  keyFile := cfg.keyFile
  linkMode := cfg.linkMode
  linkKey := cfg.linkKey
  linkPeer := cfg.linkPeer
  backboneHost := cfg.backboneHost
  backbonePolicyFile := cfg.backbonePolicyFile
  backboneHaveHubKey := cfg.backboneHaveHubKey
  backboneHubKey := cfg.backboneHubKey
  aprsCall := cfg.aprsCall
  aprsPasscode := cfg.aprsPasscode
  aprsHost := cfg.aprsHost
  aprsTocall := cfg.aprsTocall
  aprsSymbol := cfg.aprsSymbol
  aprsNodeSymbol := cfg.aprsNodeSymbol
  aprsComment := cfg.aprsComment
  webPassword := cfg.webPassword

/-- The keys of the text settings. -/
def textKeys : List ConfigKey :=
  [.spiDev, .gpioChip, .name, .keyFile, .linkMode, .linkKey, .linkPeer, .backboneHost, .backbonePolicyFile,
    .backboneHubKey, .aprsCall, .aprsPasscode, .aprsHost, .aprsTocall, .aprsSymbol, .aprsNodeSymbol,
    .aprsComment, .webPassword]

/-- The setting of a text key; the flag is that of the hub's key. -/
def ConfigKey.field (k : ConfigKey) (s : TextSettings) : Bytes × Bool :=
  match k with
  | .spiDev => (s.spiDev, true)
  | .gpioChip => (s.gpioChip, true)
  | .name => (s.name, true)
  | .keyFile => (s.keyFile, true)
  | .linkMode => (s.linkMode, true)
  | .linkKey => (s.linkKey, true)
  | .linkPeer => (s.linkPeer, true)
  | .backboneHost => (s.backboneHost, true)
  | .backbonePolicyFile => (s.backbonePolicyFile, true)
  | .backboneHubKey => (s.backboneHubKey, s.backboneHaveHubKey)
  | .aprsCall => (s.aprsCall, true)
  | .aprsPasscode => (s.aprsPasscode, true)
  | .aprsHost => (s.aprsHost, true)
  | .aprsTocall => (s.aprsTocall, true)
  | .aprsSymbol => (s.aprsSymbol, true)
  | .aprsNodeSymbol => (s.aprsNodeSymbol, true)
  | .aprsComment => (s.aprsComment, true)
  | .webPassword => (s.webPassword, true)
  | _ => ([], true)

/-- The size of the array, its terminating NUL included. -/
def ConfigKey.size (k : ConfigKey) : Nat :=
  match k with
  | .spiDev | .linkKey | .linkPeer | .webPassword => 64
  | .gpioChip => 32
  | .name => 40
  | .keyFile => 256
  | .linkMode | .aprsSymbol | .aprsNodeSymbol => 8
  | .backboneHost | .aprsHost | .aprsComment => 96
  | .backbonePolicyFile => 128
  -- 64 digits of hex
  | .backboneHubKey => 65
  | .aprsCall => 16
  | .aprsPasscode | .aprsTocall => 12
  | _ => 0

/-! ## One line for each setting -/

/-- A text of at most `n` bytes, which is one line where lines are single. -/
def IsOneLine (single : Prop) (n : Nat) (t : Bytes) : Prop := (single → (10 : UInt8) ∉ t) ∧ t.length ≤ n

/-- Every text of the record is one line. The hub's key is not among them: it is kept as bytes and
printed in hex. -/
structure TextSettings.OneLine (single : Prop) (s : TextSettings) : Prop where
  spiDev : IsOneLine single 255 s.spiDev
  gpioChip : IsOneLine single 255 s.gpioChip
  name : IsOneLine single 255 s.name
  keyFile : IsOneLine single 255 s.keyFile
  linkMode : IsOneLine single 255 s.linkMode
  linkKey : IsOneLine single 255 s.linkKey
  linkPeer : IsOneLine single 255 s.linkPeer
  backboneHost : IsOneLine single 255 s.backboneHost
  backbonePolicyFile : IsOneLine single 255 s.backbonePolicyFile
  aprsCall : IsOneLine single 255 s.aprsCall
  aprsPasscode : IsOneLine single 255 s.aprsPasscode
  aprsHost : IsOneLine single 255 s.aprsHost
  aprsTocall : IsOneLine single 255 s.aprsTocall
  aprsSymbol : IsOneLine single 255 s.aprsSymbol
  aprsNodeSymbol : IsOneLine single 255 s.aprsNodeSymbol
  aprsComment : IsOneLine single 255 s.aprsComment
  webPassword : IsOneLine single 255 s.webPassword

/-- Everything of a configuration that is written as text fits its array, and is on one line
where lines are single: the calls' values decide that. -/
structure McConfig.OneLine (single : Prop) (cfg : McConfig) : Prop where
  texts : cfg.texts.OneLine single
  pingChannel : IsOneLine single 31 cfg.pingChannel
  blacklist : ∀ t ∈ cfg.blacklist, IsOneLine single 31 t
  affinity : ∀ t ∈ cfg.affinity, IsOneLine single 31 t
  home : ∀ t ∈ cfg.home, IsOneLine single 31 t
  probeAllow : ∀ t ∈ cfg.probeAllow, IsOneLine single 31 t
  rooms : ∀ r ∈ cfg.ownRooms, IsOneLine single 31 r.name
  channels : ∀ ch ∈ cfg.publicChannels, ch.derived = false → IsOneLine single 31 ch.name

section Single

variable {single : Prop}

/-- Copying into an array of `size` bytes, NUL included, cuts the text to `size - 1`. -/
theorem isOneLine_snprintfS {n size : Nat} {t : Bytes} (hsize : size ≤ n + 1) (h : single → (10 : UInt8) ∉ t) :
    IsOneLine single n (snprintfS size t) := by
  constructor
  · intro hs hmem
    exact h hs (List.mem_of_mem_take hmem)
  · rw [snprintfS, List.length_take]
    omega

/-- Trimming and cutting bring in no new byte. -/
theorem mem_of_mem_trimName {n : Nat} {t : Bytes} {c : UInt8} (h : c ∈ trimName n t) : c ∈ t := by
  have hcut : c ∈ snprintfS n (skipBlanks t) := (List.rdropWhile_prefix _ _).subset h
  exact (List.dropWhile_suffix _).subset (List.mem_of_mem_take hcut)

theorem length_trimName (n : Nat) (t : Bytes) : (trimName n t).length ≤ n - 1 := by
  have hle := (List.rdropWhile_prefix isBlankOrEol (snprintfS n (skipBlanks t))).length_le
  have htake : (snprintfS n (skipBlanks t)).length ≤ n - 1 := by
    rw [snprintfS, List.length_take]
    omega
  exact hle.trans htake

/-- An entry that is added is on one line like those before it. -/
theorem isOneLine_concat {n : Nat} {list : List Bytes} {t : Bytes} (h : ∀ u ∈ list, IsOneLine single n u)
    (ht : IsOneLine single n t) : ∀ u ∈ list ++ [t], IsOneLine single n u := by
  intro u hu
  rcases List.mem_append.mp hu with hold | hnew
  · exact h u hold
  · rw [List.mem_singleton.mp hnew]
    exact ht

/-- `list_add` stores the trimmed value, or leaves a list that has it already. -/
theorem listAdd_oneLine {list list' : List Bytes} {max : Nat} {val : Bytes}
    (hadd : listAdd list max val = some list') (hval : single → (10 : UInt8) ∉ val)
    (h : ∀ u ∈ list, IsOneLine single 31 u) : ∀ u ∈ list', IsOneLine single 31 u := by
  unfold listAdd at hadd
  simp only at hadd
  split at hadd
  -- the empty name
  · cases hadd
  split at hadd
  · cases hadd
    -- the entry is there already
    exact h
  split at hadd
  · cases hadd
  · cases hadd
    apply isOneLine_concat h
    exact isOneLine_snprintfS (by decide) fun hs hmem => hval hs (mem_of_mem_trimName hmem)

/-- The blacklist command stores the trimmed name. -/
theorem configBlacklistAdd_oneLine {already : Bool} {name : Bytes}
    (hadd : configBlacklistAdd cfg name = some (already, cfg')) (hname : single → (10 : UInt8) ∉ name)
    (h : cfg.OneLine single) : cfg'.OneLine single := by
  unfold configBlacklistAdd at hadd
  simp only at hadd
  split at hadd
  · cases hadd
  split at hadd
  · cases hadd
    exact h
  split at hadd
  · cases hadd
  · cases hadd
    refine { h with blacklist := isOneLine_concat h.blacklist ?_ }
    exact isOneLine_snprintfS (by decide) fun hs hmem => hname hs (mem_of_mem_trimName hmem)

/-- Channels that are not derived from a name are added by their own key alone. -/
theorem registerChannel_oneLine {name secret : Bytes} {derived : Bool}
    (hreg : registerChannel C cfg name secret derived = some cfg')
    (hname : derived = false → single → (10 : UInt8) ∉ name) (h : cfg.OneLine single) : cfg'.OneLine single := by
  rcases (registerChannel_cases hreg).2 with ⟨rfl, -⟩ | ⟨-, -, rfl⟩
  -- the key is there already
  · exact h
  · refine { h with channels := ?_ }
    intro ch hch hd
    rcases List.mem_append.mp hch with hold | hnew
    · exact h.channels ch hold hd
    · rw [List.mem_singleton.mp hnew] at hd ⊢
      exact isOneLine_snprintfS (by decide) (hname hd)

/-- The channel of a hashtag is derived, so the save writes no line for it. -/
theorem configEnsureHashtagChannel_oneLine (h : cfg.OneLine single) (name : Bytes) :
    (configEnsureHashtagChannel C cfg name).OneLine single := by
  rcases configEnsureHashtagChannel_cases C cfg name with heq | hreg
  · rw [heq]
    exact h
  · exact registerChannel_oneLine hreg (by nofun) h

/-- A room's name is the trimmed value, with `#` put before it where it is missing. -/
theorem roomName_oneLine {val name : Bytes} (h : roomName val = some name) (hval : single → (10 : UInt8) ∉ val) :
    IsOneLine single 31 name := by
  unfold roomName at h
  simp only at h
  split at h
  · cases h
  rename_i hshort
  cases h
  constructor
  · intro hs
    unfold hashName
    split
    · exact fun hmem => hval hs (mem_of_mem_trimName hmem)
    · intro hmem
      rcases List.mem_cons.mp hmem with hhash | hmem
      · cases hhash
      · exact hval hs (mem_of_mem_trimName hmem)
  · have hlt : ¬ mcRoomNameLen ≤ _ := fun hle => hshort (.inr (.inr hle))
    simp only [mcRoomNameLen] at hlt ⊢
    omega

/-- A room of the hub's is not saved, so only the node's own value has to be one line. -/
theorem addRoomEx_oneLine {val : Bytes} {hub : Bool} (hadd : addRoomEx C cfg val hub = some cfg')
    (hval : hub = false → single → (10 : UInt8) ∉ val) (h : cfg.OneLine single) : cfg'.OneLine single := by
  obtain ⟨name, hname, ⟨rfl, -⟩ | ⟨-, -, rfl⟩⟩ := addRoomEx_cases hadd
  · exact h
  -- the room first, then its channel
  have hroom : McConfig.OneLine single { cfg with rooms := cfg.rooms ++ [⟨name, hashtagKey C name, hub⟩] } := by
    refine { h with rooms := ?_ }
    intro r hr
    rw [McConfig.ownRooms, List.filter_append] at hr
    rcases List.mem_append.mp hr with hold | hnew
    · exact h.rooms r hold
    · obtain ⟨hmem, hown⟩ := List.mem_filter.mp hnew
      rw [List.mem_singleton.mp hmem] at hown ⊢
      exact roomName_oneLine hname (hval (by simpa using hown))
  -- the room's channel, if it is added, is a derived one
  rcases registerRoomChannel_cases C { cfg with rooms := cfg.rooms ++ [⟨name, hashtagKey C name, hub⟩] }
    name hub with heq | ⟨-, heq⟩
  · rw [heq]
    exact hroom
  · rw [heq]
    refine { hroom with channels := ?_ }
    intro ch hch hd
    rcases List.mem_append.mp hch with hold | hnew
    · exact h.channels ch hold hd
    · rw [List.mem_singleton.mp hnew] at hd
      cases hd

/-- `any` empties the ping channel, any other value is trimmed like a room's name. -/
theorem setPingChannel_oneLine {val : Bytes} (hset : setPingChannel cfg val = .ok cfg')
    (hval : single → (10 : UInt8) ∉ val) (h : cfg.OneLine single) : cfg'.OneLine single := by
  unfold setPingChannel at hset
  simp only at hset
  split at hset
  · cases hset
    exact { h with pingChannel := ⟨by simp, by simp⟩ }
  split at hset
  · cases hset
  split at hset
  · cases hset
  · cases hset
    refine { h with pingChannel := isOneLine_snprintfS (by decide) fun hs => ?_ }
    unfold hashName
    split
    · exact fun hmem => hval hs (mem_of_mem_trimName hmem)
    · intro hmem
      rcases List.mem_cons.mp hmem with hhash | hmem
      · cases hhash
      · exact hval hs (mem_of_mem_trimName hmem)

/-- What is stored is one of the three words. -/
theorem setLinkMode_word {val : Bytes} (hset : setLinkMode cfg val = .ok cfg') :
    ∃ mode ∈ [lit "off", lit "rx", lit "tx"], cfg' = { cfg with linkMode := mode } := by
  -- `strcaseEq` on the whole value, so the cut copy folds to the word too
  have hfold : ∀ {word : Bytes}, word.length ≤ 7 → word.map tolower = word → strcaseEq val word = true →
      (snprintfS 8 val).map tolower = word := by
    intro word hlen hlower hsame
    have hmap : val.map tolower = word := by
      rw [← hlower]
      simpa [strcaseEq] using hsame
    rw [snprintfS, List.map_take, hmap]
    exact List.take_of_length_le hlen
  rcases setLinkMode_ok hset with ⟨hword, rfl⟩
  simp only [Bool.or_eq_true] at hword
  rcases hword with (h | h) | h
  · exact ⟨lit "off", by simp, by rw [hfold (by decide) (by decide) h]⟩
  · exact ⟨lit "rx", by simp, by rw [hfold (by decide) (by decide) h]⟩
  · exact ⟨lit "tx", by simp, by rw [hfold (by decide) (by decide) h]⟩

/-- The text keys store their value in their own array. -/
theorem setKey_oneLine_text {k : ConfigKey} {val : Bytes} (hk : k ∈ textKeys) (hset : setKey C cfg k val = .ok cfg')
    (hval : single → (10 : UInt8) ∉ val) (h : cfg.OneLine single) : cfg'.OneLine single := by
  have hcut : ∀ n ≤ 256, IsOneLine single 255 (snprintfS n val) := fun n hn => isOneLine_snprintfS hn hval
  cases k with
  | spiDev =>
    cases hset
    exact { h with texts := { h.texts with spiDev := hcut 64 (by decide) } }
  | gpioChip =>
    cases hset
    exact { h with texts := { h.texts with gpioChip := hcut 32 (by decide) } }
  | name =>
    cases hset
    exact { h with texts := { h.texts with name := hcut 40 (by decide) } }
  | keyFile =>
    cases hset
    exact { h with texts := { h.texts with keyFile := hcut 256 (by decide) } }
  | linkKey =>
    cases hset
    exact { h with texts := { h.texts with linkKey := hcut 64 (by decide) } }
  | linkPeer =>
    cases hset
    exact { h with texts := { h.texts with linkPeer := hcut 64 (by decide) } }
  | backboneHost =>
    cases hset
    exact { h with texts := { h.texts with backboneHost := hcut 96 (by decide) } }
  | aprsCall =>
    cases hset
    exact { h with texts := { h.texts with aprsCall := hcut 16 (by decide) } }
  | aprsPasscode =>
    cases hset
    exact { h with texts := { h.texts with aprsPasscode := hcut 12 (by decide) } }
  | aprsHost =>
    cases hset
    exact { h with texts := { h.texts with aprsHost := hcut 96 (by decide) } }
  | aprsTocall =>
    cases hset
    exact { h with texts := { h.texts with aprsTocall := hcut 12 (by decide) } }
  | aprsSymbol =>
    cases hset
    exact { h with texts := { h.texts with aprsSymbol := hcut 8 (by decide) } }
  | aprsNodeSymbol =>
    cases hset
    exact { h with texts := { h.texts with aprsNodeSymbol := hcut 8 (by decide) } }
  | aprsComment =>
    cases hset
    exact { h with texts := { h.texts with aprsComment := hcut 96 (by decide) } }
  -- the three keys with a check: what they store is a word, or the value itself
  | linkMode =>
    obtain ⟨mode, hmode, rfl⟩ := setLinkMode_word hset
    have hwords : ∀ m ∈ [lit "off", lit "rx", lit "tx"], (10 : UInt8) ∉ m ∧ m.length ≤ 255 := by decide
    rcases hwords mode hmode with ⟨hbreak, hlen⟩
    exact { h with texts := { h.texts with linkMode := ⟨fun _ => hbreak, hlen⟩ } }
  | backbonePolicyFile =>
    rcases setPolicyFile_ok hset with ⟨-, rfl⟩
    exact { h with texts := { h.texts with backbonePolicyFile := hcut 128 (by decide) } }
  | webPassword =>
    rcases setWebPassword_ok hset with ⟨-, rfl⟩
    exact { h with texts := { h.texts with webPassword := hcut 64 (by decide) } }
  -- no text is stored, the key is bytes
  | backboneHubKey =>
    rcases setHubKey_ok hset with ⟨key, have_, -, -, -, rfl⟩
    exact { h with texts := { h.texts with } }
  | _ => exact absurd hk (by decide)

/-- The name is what stands before the colon; a value that is a key alone leaves it empty. -/
theorem addPublicChannel_oneLine {val : Bytes} (hadd : addPublicChannel C cfg val = some cfg')
    (hval : single → (10 : UInt8) ∉ val) (h : cfg.OneLine single) : cfg'.OneLine single := by
  unfold addPublicChannel at hadd
  split at hadd
  · refine registerChannel_oneLine hadd (fun _ hs hmem => hval hs ?_) h
    unfold channelName at hmem
    split at hmem
    · exact (List.takeWhile_prefix _).subset (List.mem_of_mem_take hmem)
    · cases hmem
  -- neither hex nor base64
  · cases hadd

/-- An accepted setting is stored within its array, and on one line if its value is. -/
theorem setKey_oneLine {k : ConfigKey} {val : Bytes} (hset : setKey C cfg k val = .ok cfg')
    (hval : single → (10 : UInt8) ∉ val) (h : cfg.OneLine single) : cfg'.OneLine single := by
  by_cases htext : k ∈ textKeys
  · exact setKey_oneLine_text htext hset hval h
  cases k with
  | frequency | bandwidth | tcxoVoltage | aprsAltitude | latitude | longitude
  | crc | iqInverted | useCad | useLeds | location | forward | pingPong | timeofday | aprsEnable
  | backbone | backboneObserve | backboneBridge | backbonePolicy
  | spreadingFactor | codingRate | txPower | preamble | ocp | backbonePort | backboneRate
  | hotspotPowerHigh | hotspotPowerLow
  | spiSpeed | gpioReset | gpioBusy | gpioDio1 | gpioNss | gpioRxen | gpioTxen | gpioLedOn
  | gpioLedData | advertInterval | aprsBeaconInterval | aprsNodeRate | hotspotAwake
  | controlPort | aprsPort | webPort | linkPort =>
    -- numbers and switches hold no text
    obtain ⟨x, -, rfl⟩ := setWith_ok hset
    exact { h with }
  -- the lists, entry by entry
  | affinity =>
    obtain ⟨list, hadd, rfl⟩ := setWith_ok hset
    exact { h with affinity := listAdd_oneLine hadd hval h.affinity }
  | home =>
    obtain ⟨list, hadd, rfl⟩ := setWith_ok hset
    exact { h with home := listAdd_oneLine hadd hval h.home }
  | probeAllow =>
    obtain ⟨list, hadd, rfl⟩ := setWith_ok hset
    exact { h with probeAllow := listAdd_oneLine hadd hval h.probeAllow }
  | rfSwitch =>
    rcases setRfSwitch_ok hset with ⟨dio2, rfl⟩
    exact { h with }
  | role =>
    rcases setRole_ok hset with ⟨role, rfl⟩
    exact { h with }
  | syncWord =>
    rcases setSyncWord_ok hset with ⟨w, rfl⟩
    exact { h with }
  | pingChannel => exact setPingChannel_oneLine hset hval h
  | blacklist =>
    obtain ⟨⟨already, x⟩, hadd, rfl⟩ := setWith_ok hset
    exact configBlacklistAdd_oneLine hadd hval h
  | room =>
    obtain ⟨x, hadd, rfl⟩ := setWith_ok hset
    exact addRoomEx_oneLine hadd (fun _ => hval) h
  -- switching the mailbox on ensures its channel
  | mbox =>
    obtain ⟨b, -, rfl⟩ := setWith_ok hset
    have hmbox : McConfig.OneLine single { cfg with mboxEnable := b } := { h with }
    simp only
    split
    · exact configEnsureHashtagChannel_oneLine hmbox _
    · exact hmbox
  | publicChannel =>
    obtain ⟨x, hadd, rfl⟩ := setWith_ok hset
    exact addPublicChannel_oneLine hadd hval h
  | spiDev | gpioChip | name | keyFile | linkMode | linkKey | linkPeer | backboneHost | backbonePolicyFile
  | backboneHubKey | aprsCall | aprsPasscode | aprsHost | aprsTocall | aprsSymbol | aprsNodeSymbol
  | aprsComment | webPassword => exact absurd (by decide) htext

/-! ### Calls with single-line values -/

/-- The calls that work on a configuration, with those of the blacklist command. -/
inductive ConfigEdit where
  | call (x : ConfigCall)
  | blacklistAdd (name : Bytes)
  | blacklistRemove (name : Bytes)

/-- One call, or one blacklist command. A refused one leaves the configuration. -/
def editStep (C : Crypto) (cfg : McConfig) : ConfigEdit → McConfig
  | .call x => configStep C cfg x
  | .blacklistAdd name => ((configBlacklistAdd cfg name).map Prod.snd).getD cfg
  | .blacklistRemove name => (configBlacklistRemove cfg name).getD cfg

/-- The configuration after the calls, starting from the defaults. -/
def configEdited (C : Crypto) (edits : List ConfigEdit) : McConfig :=
  Runs.run (editStep C) configDefaults edits

/-- The value of the call holds no line break. A file may hold as many as it likes. -/
def ConfigEdit.SingleLine : ConfigEdit → Prop
  | .call (.set _ val) => (10 : UInt8) ∉ val
  | .blacklistAdd name => (10 : UInt8) ∉ name
  | _ => True

/-- A value as read from a line of a file is on one line. -/
theorem parseSetting_oneLine {line key val : Bytes} (hline : (10 : UInt8) ∉ line.dropLast)
    (h : parseSetting line = some (key, val)) : (10 : UInt8) ∉ val := by
  intro hmem
  have hval : ∃ rest, val = rtrim isBlankOrEol rest ∧ rest <:+: line := by
    unfold parseSetting at h
    simp only at h
    split at h
    · split at h
      · cases h
      · cases h
        refine ⟨_, rfl, ?_⟩
        have hafter : skipBlanks (((skipBlanks (line.takeWhile (· ≠ 35))).dropWhile (· ≠ 61)).drop 1) <:+
            line.takeWhile (· ≠ 35) :=
          (List.dropWhile_suffix _).trans ((List.drop_suffix _ _).trans
            ((List.dropWhile_suffix _).trans (List.dropWhile_suffix _)))
        exact hafter.isInfix.trans (List.takeWhile_prefix _).isInfix
    · cases h
  obtain ⟨rest, rfl, hinfix⟩ := hval
  have hne : rtrim isBlankOrEol rest ≠ [] := List.ne_nil_of_mem hmem
  -- its last byte is no line break, so one inside stands before the end of the line
  have hlast : isBlankOrEol ((rtrim isBlankOrEol rest).getLast hne) = false := by
    exact Bool.eq_false_iff.mpr (List.rdropWhile_last_not isBlankOrEol rest hne)
  have hbefore : (10 : UInt8) ∈ (rtrim isBlankOrEol rest).dropLast := by
    rw [← List.dropLast_append_getLast hne] at hmem
    rcases List.mem_append.mp hmem with hmem | hmem
    · exact hmem
    · rw [← List.mem_singleton.mp hmem] at hlast
      cases hlast
  apply hline
  obtain ⟨u, w, rfl⟩ := (List.rdropWhile_prefix isBlankOrEol rest).isInfix.trans hinfix
  change (10 : UInt8) ∈ (u ++ rtrim isBlankOrEol rest ++ w).dropLast
  by_cases hw : w = []
  · rw [hw, List.append_nil, List.dropLast_append_of_ne_nil hne]
    exact List.mem_append_right _ hbefore
  · rw [List.dropLast_append_of_ne_nil hw]
    exact List.mem_append_left _ (List.mem_append_right _ (List.dropLast_subset _ hbefore))

/-- `config_set`, where an unknown key or a refused value changes nothing. -/
theorem configSet_oneLine {key val : Bytes} (hval : single → (10 : UInt8) ∉ val) (h : cfg.OneLine single) :
    ((configSet C cfg key val).toOption.getD cfg).OneLine single := by
  unfold configSet
  split
  · rename_i k _
    cases hset : setKey C cfg k val with
    | error _ => exact h
    | ok cfg' => exact setKey_oneLine hset hval h
  · exact h

/-- A hub room that is merged in is none of the node's own. -/
theorem mergeRoom_oneLine (h : cfg.OneLine single) (room : Bytes) : (mergeRoom C cfg room).OneLine single := by
  unfold mergeRoom
  split
  · exact { h with }
  cases hadd : addRoomEx C cfg room true with
  | none => exact { h with }
  | some cfg' =>
    have h' := addRoomEx_oneLine hadd (by nofun) h
    simp only
    split
    · exact { h' with }
    · exact { h' with }

/-- The merge takes out what the hub put in, and adds rooms of the hub's only. -/
theorem configPolicyMerge_oneLine (h : cfg.OneLine single) : (configPolicyMerge C cfg).OneLine single := by
  have hdrop : (dropHub cfg).OneLine single := by
    refine { h with rooms := ?_, channels := ?_ }
    · intro r hr
      exact h.rooms r (List.mem_of_mem_filter hr)
    · intro ch hch
      exact h.channels ch (List.mem_of_mem_filter hch)
  -- the hub's rooms, one after the other
  have hfold : ∀ (rooms : List Bytes) (c : McConfig), c.OneLine single → (rooms.foldl (mergeRoom C) c).OneLine single := by
    intro rooms
    induction rooms with
    | nil => exact fun c hc => hc
    | cons room rooms ih => exact fun c hc => ih _ (mergeRoom_oneLine hc room)
  rw [configPolicyMerge_eq]
  split
  · exact hfold _ _ hdrop
  · exact hdrop

/-- Whatever the file holds: a value read from a line holds no line break. -/
theorem configLoad_oneLine (h : cfg.OneLine single) (file : Option Bytes) : (configLoad C cfg file).OneLine single := by
  -- the ping channel's own channel is ensured after the lines
  have hping : ∀ c : McConfig, c.OneLine single → (configEnsurePingChannel C c).OneLine single := by
    intro c hc
    have hfirst : (configEnsureHashtagChannel C c c.pingChannel).OneLine single :=
      configEnsureHashtagChannel_oneLine hc _
    unfold configEnsurePingChannel
    simp only
    split
    · exact configEnsureHashtagChannel_oneLine hfirst _
    · exact hfirst
  -- a line sets one key, or nothing
  have hlines : ∀ (lines : List Bytes) (c : McConfig), (∀ line ∈ lines, (10 : UInt8) ∉ line.dropLast) →
      c.OneLine single → (lines.foldl (loadLine C) c).OneLine single := by
    intro lines
    induction lines with
    | nil => exact fun c _ hc => hc
    | cons line lines ih =>
      intro c hall hc
      refine ih _ (fun l hl => hall l (List.mem_cons_of_mem _ hl)) ?_
      unfold loadLine
      split
      · rename_i key val hparse
        exact configSet_oneLine (fun _ => parseSetting_oneLine (hall line List.mem_cons_self) hparse) hc
      · exact hc
  unfold configLoad
  cases file with
  | none => exact configPolicyMerge_oneLine (hping _ h)
  | some file =>
    -- the lists are emptied before a file is read
    have hclear : (clearLists cfg).OneLine single :=
      { h with
        blacklist := by nofun
        affinity := by nofun
        home := by nofun
        probeAllow := by nofun
        rooms := by nofun
        channels := by nofun }
    exact configPolicyMerge_oneLine (hping _ (hlines _ _ (fun line hline => mem_readLines_dropLast hline) hclear))

/-- A policy is not among the texts, its merge adds rooms of the hub's only. -/
theorem configSetPolicy_oneLine (h : cfg.OneLine single) (p : McPolicy) (ownPub : Option Bytes) :
    (configSetPolicy C cfg p ownPub).OneLine single :=
  configPolicyMerge_oneLine ({ h with } : McConfig.OneLine single { cfg with policy := guardedPolicy cfg.name ownPub p })

/-- One lemma a call. -/
theorem editStep_oneLine {e : ConfigEdit} (he : single → e.SingleLine) (h : cfg.OneLine single) : (editStep C cfg e).OneLine single := by
  cases e with
  | blacklistAdd name =>
    show (((configBlacklistAdd cfg name).map Prod.snd).getD cfg).OneLine single
    cases hadd : configBlacklistAdd cfg name with
    | none => exact h
    | some r => exact configBlacklistAdd_oneLine hadd he h
  | blacklistRemove name =>
    show ((configBlacklistRemove cfg name).getD cfg).OneLine single
    unfold configBlacklistRemove
    simp only
    split
    · exact { h with blacklist := fun t ht => h.blacklist t (List.mem_of_mem_eraseP ht) }
    · exact h
  | call x =>
    cases x with
    | set key val => exact configSet_oneLine he h
    | load file => exact configLoad_oneLine h file
    | setPolicy p ownPub => exact configSetPolicy_oneLine h p ownPub
    | policyLoad file ownPub =>
      show ((configPolicyLoad C cfg file ownPub).getD cfg).OneLine single
      unfold configPolicyLoad
      cases file.map readPolicy with
      | none => exact h
      | some p =>
        simp only
        split
        · exact h
        · exact configSetPolicy_oneLine h p ownPub
    | save => exact h

/-- Calls keep every setting within its array, and on one line if their values are. -/
theorem configEdited_oneLine (C : Crypto) {edits : List ConfigEdit} (h : ∀ e ∈ edits, single → e.SingleLine) :
    (configEdited C edits).OneLine single := by
  refine Runs.run_invariant_of (fun _ e => single → ConfigEdit.SingleLine e) (McConfig.OneLine single) ?_
    (Runs.every_of_forall_mem h) ?_
  · intro c e he hc
    exact editStep_oneLine he hc
  -- the defaults are closed terms, and their lists are empty
  · have hdefault : ∀ {n : Nat} {t : Bytes}, ((10 : UInt8) ∉ t ∧ t.length ≤ n) → IsOneLine single n t :=
      fun h => ⟨fun _ => h.1, h.2⟩
    constructor
    · constructor <;> exact hdefault (by decide)
    · exact hdefault (by decide)
    all_goals nofun

/-! ### The lines of the file -/

/-- `%g` prints digits, a point, a sign and an exponent at most. -/
theorem isPlain_fmtG (d : CDouble) : IsPlain (fmtG d) := by
  have hstrip : ∀ {t : Bytes}, IsPlain t → IsPlain (stripZeros t) := by
    intro t ht
    unfold stripZeros
    split
    · intro c hc
      exact ht c ((List.rdropWhile_prefix _ _).subset ((List.rdropWhile_prefix _ _).subset hc))
    · exact ht
  -- fixed or scientific, by the exponent
  have hform : ∀ (x : Int) (n : Nat), IsPlain (if -4 ≤ x ∧ x < 6 then stripZeros (fixedDigits (5 - x).toNat n)
      else stripZeros (fixedDigits 5 n) ++ [101, if x < 0 then 45 else 43] ++ padLeft 2 (decimal x.natAbs)) := by
    intro x n
    split
    · exact hstrip (isPlain_fixedDigits _ _)
    · refine isPlain_append (isPlain_append (hstrip (isPlain_fixedDigits _ _)) ?_)
        (isPlain_padLeft (isPlain_decimal _))
      split <;> decide
  have hgeneral : ∀ m, IsPlain (generalDigits m) := fun m => hform _ _
  cases d with
  | fin q =>
    show IsPlain (if q = 0 then lit "0" else signText (q < 0) ++ generalDigits |q|)
    split
    · decide
    · exact isPlain_append (isPlain_signText _) (hgeneral _)
  | negZero => decide
  | inf neg => exact isPlain_append (isPlain_signText _) (by decide)
  | nan neg => exact isPlain_append (isPlain_signText _) (by decide)

theorem IsPlain.noBreak {t : Bytes} (h : IsPlain t) : (10 : UInt8) ∉ t := by
  intro hmem
  exact absurd (h 10 hmem).2 (by decide)

/-- What is printed for the keys of `KEYS[]` holds no line break. -/
theorem keyText_noBreak (h : cfg.texts.OneLine single) {k : ConfigKey} (hk : k ∈ savedKeys) (hs : single) :
    (10 : UInt8) ∉ keyText cfg k := by
  have hbool : ∀ b : Bool, (10 : UInt8) ∉ boolText b := by decide
  have hnum : ∀ u : UInt32, (10 : UInt8) ∉ u32Text u := fun u => (isPlain_decimal u.toNat).noBreak
  have hhex : ∀ w n, (10 : UInt8) ∉ lit "0x" ++ padLeft w (numeral 16 n) := fun w n =>
    (isPlain_append (by decide) (isPlain_padLeft (isPlain_numeral (by omega) (by omega) n))).noBreak
  cases k with
  -- numbers, switches and words are plain; the texts are as they are stored
  | frequency | tcxoVoltage | latitude | longitude => exact (isPlain_fmtF _ _).noBreak
  | bandwidth | aprsAltitude => exact (isPlain_fmtG _).noBreak
  | txPower | hotspotPowerHigh | hotspotPowerLow => exact (isPlain_intDecimal _).noBreak
  | syncWord | ocp => exact hhex _ _
  | crc | iqInverted | useCad | useLeds | location | forward | pingPong | timeofday | aprsEnable | mbox
  | backbone | backboneObserve | backboneBridge | backbonePolicy => exact hbool _
  | spreadingFactor | codingRate | preamble | spiSpeed | gpioReset | gpioBusy | gpioDio1 | gpioNss
  | gpioRxen | gpioTxen | gpioLedOn | gpioLedData | advertInterval | controlPort | aprsPort
  | aprsBeaconInterval | aprsNodeRate | hotspotAwake | webPort | linkPort | backbonePort | backboneRate =>
    exact hnum _
  | rfSwitch =>
    show (10 : UInt8) ∉ if cfg.rfSwitchDio2 then lit "dio2" else lit "external"
    split <;> decide
  | role =>
    show (10 : UInt8) ∉ if cfg.role = .hotspot then lit "hotspot" else lit "repeater"
    split <;> decide
  | backboneHubKey =>
    show (10 : UInt8) ∉ if cfg.backboneHaveHubKey then hexText cfg.backboneHubKey else []
    split
    · exact (isPlain_hexText _).noBreak
    · simp
  | spiDev => exact h.spiDev.1 hs
  | gpioChip => exact h.gpioChip.1 hs
  | name => exact h.name.1 hs
  | keyFile => exact h.keyFile.1 hs
  | linkMode => exact h.linkMode.1 hs
  | linkPeer => exact h.linkPeer.1 hs
  | backboneHost => exact h.backboneHost.1 hs
  | backbonePolicyFile => exact h.backbonePolicyFile.1 hs
  | aprsCall => exact h.aprsCall.1 hs
  | aprsPasscode => exact h.aprsPasscode.1 hs
  | aprsHost => exact h.aprsHost.1 hs
  | aprsTocall => exact h.aprsTocall.1 hs
  | aprsSymbol => exact h.aprsSymbol.1 hs
  | aprsNodeSymbol => exact h.aprsNodeSymbol.1 hs
  | aprsComment => exact h.aprsComment.1 hs
  | publicChannel | room | blacklist | linkKey | affinity | home | probeAllow | webPassword
  | pingChannel => exact absurd hk (by decide)

theorem IsOneLine.mono {m n : Nat} {t : Bytes} (h : IsOneLine single m t) (hn : m ≤ n) : IsOneLine single n t :=
  ⟨h.1, h.2.trans hn⟩

theorem IsOneLine.bareName {t : Bytes} (h : IsOneLine single 31 t) : IsOneLine single 31 (bareName t) := by
  unfold Meshcore.bareName
  split
  · refine ⟨fun hs hmem => h.1 hs (List.mem_of_mem_drop hmem), ?_⟩
    have := h.2
    rw [List.length_drop]
    omega
  · exact h

/-- A channel is written as its key in hex, behind its name and a colon where it has one. -/
theorem channelText_oneLine {ch : McPubChannel} (h : IsOneLine single 31 ch.name) :
    IsOneLine single 96 (channelText ch) := by
  have hhex : (10 : UInt8) ∉ hexText (ch.secret.read 0 ch.secretLen.toNat) := (isPlain_hexText _).noBreak
  have hlen : (hexText (ch.secret.read 0 ch.secretLen.toNat)).length ≤ 64 := by
    have := ch.secret.length_eq
    rw [length_hexText, Buf.read, List.length_take, List.length_drop]
    omega
  have hname := h.2
  show IsOneLine single 96 (if ch.name = [] then hexText (ch.secret.read 0 ch.secretLen.toNat)
    else ch.name ++ 58 :: hexText (ch.secret.read 0 ch.secretLen.toNat))
  split
  · exact ⟨fun _ => hhex, hlen.trans (by omega)⟩
  · refine ⟨?_, ?_⟩
    · intro hs hmem
      rcases List.mem_append.mp hmem with hmem | hmem
      · exact h.1 hs hmem
      · rcases List.mem_cons.mp hmem with hcolon | hmem
        · cases hcolon
        · exact hhex hmem
    · rw [List.length_append, List.length_cons]
      omega

/-- The ping channel is written without its `#`, and `any` stands for none. -/
theorem pingText_oneLine {ch : Bytes} (h : IsOneLine single 31 ch) : IsOneLine single 31 (pingText ch) := by
  unfold pingText
  split
  · have hany : (10 : UInt8) ∉ lit "any" ∧ (lit "any").length ≤ 31 := by decide
    exact ⟨fun _ => hany.1, hany.2⟩
  · exact h.bareName

/-- Every setting has room on its line. -/
theorem savedSettings_oneLine (h : cfg.OneLine single) : ∀ s ∈ savedSettings cfg, IsOneLine single 255 s.2 := by
  intro s hs
  simp only [savedSettings, List.mem_append, List.mem_map, List.mem_singleton] at hs
  -- in the order of the file: `KEYS[]`, ping channel, link key, password, then the lists
  rcases hs with ((((((((⟨k, hk, rfl⟩ | rfl) | hs) | hs) | ⟨ch, hch, rfl⟩) | ⟨t, ht, rfl⟩) | ⟨t, ht, rfl⟩) |
    ⟨t, ht, rfl⟩) | ⟨t, ht, rfl⟩) | ⟨r, hr, rfl⟩
  · exact isOneLine_snprintfS (by decide) (keyText_noBreak h.texts hk)
  · exact (pingText_oneLine h.pingChannel).mono (by decide)
  · split at hs
    · cases hs
    · rw [List.mem_singleton.mp hs]
      exact h.texts.linkKey
  · split at hs
    · cases hs
    · rw [List.mem_singleton.mp hs]
      exact h.texts.webPassword
  · obtain ⟨hmem, hd⟩ := List.mem_filter.mp hch
    exact (channelText_oneLine (h.channels ch hmem (by simpa using hd))).mono (by decide)
  · exact (h.blacklist t ht).mono (by decide)
  · exact (h.affinity t ht).mono (by decide)
  · exact (h.home t ht).mono (by decide)
  · exact (h.probeAllow t ht).mono (by decide)
  · exact (h.rooms r hr).bareName.mono (by decide)

end Single

/-- A configuration on single lines is saved to lines the reader gets as they were written. -/
theorem fileLines_of_oneLine (h : cfg.OneLine True) : fileLines (configSave cfg) = savedLines cfg := by
  refine fileLines_configSave fun s hs => ?_
  rcases savedSettings_oneLine h s hs with ⟨hbreak, hlen⟩
  exact ⟨hbreak trivial, hlen.trans (by decide)⟩

end Meshcore
