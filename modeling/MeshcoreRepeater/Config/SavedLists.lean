import MeshcoreRepeater.Config.Texts

/-! # The lists, entry by entry

What adding does to the lists of names, rooms and channels, what an entry looks like once it
is stored, and which entries come back when their lines are read one after the other
(`NameList.reload_iff`, `RoomList.reload_iff`, `ChannelList.reload_iff`).

* `nameAdd_cases`, `roomsAdd_cases`, `channelsAdd_cases`: an entry goes to the end, or nothing
  happens.
* `channelText_reread`: a channel is read back from its line.
* `NameList.reload_iff`, `RoomList.reload_iff`, `ChannelList.reload_iff`: the lists that come
  back.
-/

namespace Meshcore

open ByteLib

variable {C : Crypto} {cfg cfg' : McConfig}

/-! ## Lists of names -/

/-- What `list_add` and `config_blacklist_add` share: one entry a name, whatever its case. -/
def nameAdd (bad : Bytes → Prop) [DecidablePred bad] (max : Nat) (list : List Bytes) (val : Bytes) : List Bytes :=
  let clean := trimName 32 val
  if bad clean then list
  else if list.any fun p => strcaseEq p clean then list
  else if max ≤ list.length then list
  else list ++ [clean]

/-- `list_add` is `nameAdd` with the empty name and `*` kept out; a refused name leaves the list. -/
theorem listAdd_getD (list : List Bytes) (max : Nat) (val : Bytes) :
    (listAdd list max val).getD list = nameAdd (fun t => t = [] ∨ t = lit "*") max list val := by
  have hcut : snprintfS 32 (trimName 32 val) = trimName 32 val := by
    apply List.take_of_length_le
    exact length_trimName _ _
  unfold listAdd nameAdd
  simp only [mcNamePatLen, hcut]
  split
  · rfl
  split
  · rfl
  split
  · rfl
  · rfl

/-- `config_blacklist_add` keeps out the empty name only. -/
theorem configBlacklistAdd_getD (cfg : McConfig) (name : Bytes) :
    ((configBlacklistAdd cfg name).map Prod.snd).getD cfg =
      { cfg with blacklist := nameAdd (fun t => t = []) mcMaxBlacklist cfg.blacklist name } := by
  have hcut : snprintfS 32 (trimName 32 name) = trimName 32 name := by
    apply List.take_of_length_le
    exact length_trimName _ _
  unfold configBlacklistAdd nameAdd
  simp only [mcBlacklistNameLen, hcut]
  split
  · rfl
  split
  · rfl
  split
  · rfl
  · rfl

/-- A name as it is stored: cut to its array and trimmed. -/
structure IsStored (t : Bytes) : Prop where
  short : t.length ≤ 31
  head : ∀ c, t.head? = some c → isBlank c = false
  trimmed : rtrim isBlankOrEol t = t

/-- What is added is stored trimmed. -/
theorem isStored_trimName (val : Bytes) : IsStored (trimName 32 val) where
  short := length_trimName _ _
  head := by
    intro c hc
    have hcut : (snprintfS 32 (skipBlanks val)).head? = some c := head_of_rtrim hc
    have hskip : (skipBlanks val).head? = some c := by
      cases hval : skipBlanks val with
      | nil => simp [hval, snprintfS] at hcut
      | cons b rest => simpa [hval, snprintfS] using hcut
    exact isBlank_of_head_skipBlanks hskip
  trimmed := rtrim_rtrim _ _

/-- A stored name is trimmed to itself. -/
theorem IsStored.trimName {t : Bytes} (h : IsStored t) {n : Nat} (hn : 32 ≤ n) : trimName n t = t := by
  have hcut : snprintfS n t = t := by
    apply List.take_of_length_le
    have := h.short
    omega
  rw [Meshcore.trimName, skipBlanks_of_head h.head, hcut, h.trimmed]

/-- Without a `#` it is also read as itself. -/
theorem IsStored.readValue {t : Bytes} (h : IsStored t) (hhash : (35 : UInt8) ∉ t) : readValue t = t := by
  have htake : t.takeWhile (· ≠ 35) = t := by
    apply List.takeWhile_eq_self_iff.mpr
    intro c hc
    have hne : c ≠ 35 := by
      rintro rfl
      exact hhash hc
    simpa using hne
  rw [Meshcore.readValue, htake, skipBlanks_of_head h.head, h.trimmed]

/-- A list as these functions keep it. -/
structure NameList (bad : Bytes → Prop) (max : Nat) (list : List Bytes) : Prop where
  stored : ∀ t ∈ list, IsStored t ∧ ¬ bad t
  apart : list.Pairwise fun s t => strcaseEq s t = false
  short : list.length ≤ max

/-- Nothing is kept as it should be. -/
theorem NameList.nil {bad : Bytes → Prop} {max : Nat} {list : List Bytes} (h : list = []) :
    NameList bad max list := by
  subst h
  exact ⟨fun t ht => absurd ht List.not_mem_nil, .nil, Nat.zero_le _⟩

/-- So is a list some entry is removed from. -/
theorem NameList.eraseP {bad : Bytes → Prop} {max : Nat} {list : List Bytes} (h : NameList bad max list)
    (p : Bytes → Bool) : NameList bad max (list.eraseP p) where
  stored t ht := h.stored t (List.mem_of_mem_eraseP ht)
  apart := h.apart.sublist List.eraseP_sublist
  short := (List.length_eraseP_le).trans h.short

section
variable {bad : Bytes → Prop} [DecidablePred bad] {max : Nat} {list : List Bytes}

/-- A name goes to the end, or nothing happens. -/
theorem nameAdd_cases (bad : Bytes → Prop) [DecidablePred bad] (max : Nat) (list : List Bytes) (val : Bytes) :
    nameAdd bad max list val = list ∨
      (¬ bad (trimName 32 val) ∧ (∀ p ∈ list, strcaseEq p (trimName 32 val) = false) ∧ list.length < max ∧
        nameAdd bad max list val = list ++ [trimName 32 val]) := by
  unfold nameAdd
  simp only
  split
  · exact .inl rfl
  rename_i hbad
  split
  · exact .inl rfl
  rename_i hnew
  split
  · exact .inl rfl
  · rename_i hroom
    exact .inr ⟨hbad, by simpa using hnew, by omega, rfl⟩

/-- Adding keeps the entries apart, trimmed and few enough. -/
theorem NameList.add (h : NameList bad max list) (val : Bytes) : NameList bad max (nameAdd bad max list val) := by
  rcases nameAdd_cases bad max list val with heq | ⟨hbad, hnew, hroom, heq⟩
  · rw [heq]
    exact h
  rw [heq]
  constructor
  · intro t ht
    rcases List.mem_append.mp ht with hold | hlast
    · exact h.stored t hold
    · rw [List.mem_singleton.mp hlast]
      exact ⟨isStored_trimName val, hbad⟩
  · rw [List.pairwise_append]
    refine ⟨h.apart, List.pairwise_singleton _ _, ?_⟩
    intro s hs t ht
    rw [List.mem_singleton.mp ht]
    exact hnew s hs
  · rw [List.length_append, List.length_singleton]
    omega

/-- The entries of a file, read one after the other. -/
def reloadNames (bad : Bytes → Prop) [DecidablePred bad] (max : Nat) (list : List Bytes) : List Bytes :=
  list.foldl (fun l t => nameAdd bad max l (readValue t)) []

/-- A name read from a line holds no `#`: the reader cuts the line there. -/
theorem reloadNames_noHash (list : List Bytes) : ∀ t ∈ reloadNames bad max list, (35 : UInt8) ∉ t := by
  -- over the lines, with the names read so far
  have hfold : ∀ (list start : List Bytes), (∀ t ∈ start, (35 : UInt8) ∉ t) →
      ∀ t ∈ list.foldl (fun l t => nameAdd bad max l (readValue t)) start, (35 : UInt8) ∉ t := by
    intro list
    induction list with
    | nil => exact fun start h => h
    | cons v list ih =>
      intro start hstart
      apply ih
      simp only
      rcases nameAdd_cases bad max start (readValue v) with heq | ⟨-, -, -, heq⟩
      · rw [heq]
        exact hstart
      · rw [heq]
        intro t ht
        rcases List.mem_append.mp ht with hold | hlast
        · exact hstart t hold
        · rw [List.mem_singleton.mp hlast]
          intro hmem
          exact ne_of_mem_readValue (mem_of_mem_trimName hmem) rfl
  exact hfold list [] (by nofun)

/-- The list comes back exactly when no entry holds a `#`. -/
theorem NameList.reload_iff (h : NameList bad max list) :
    reloadNames bad max list = list ↔ ∀ t ∈ list, (35 : UInt8) ∉ t := by
  constructor
  · intro hsame t ht
    rw [← hsame] at ht
    exact reloadNames_noHash list t ht
  · intro hhash
    -- each entry in turn goes to the end of those before it
    have hfold : ∀ rest pre : List Bytes, list = pre ++ rest →
        rest.foldl (fun l t => nameAdd bad max l (readValue t)) pre = pre ++ rest := by
      intro rest
      induction rest with
      | nil =>
        intro pre _
        exact (List.append_nil pre).symm
      | cons t rest ih =>
        intro pre hlist
        have ht : t ∈ list := by
          rw [hlist]
          exact List.mem_append_right _ List.mem_cons_self
        rcases h.stored t ht with ⟨hstored, hbad⟩
        -- read back, and trimmed to itself
        have hclean : trimName 32 (readValue t) = t := by
          rw [hstored.readValue (hhash t ht), hstored.trimName le_rfl]
        -- the names before it are others
        have hnew : (pre.any fun p => strcaseEq p t) = false := by
          rw [List.any_eq_false]
          intro p hp
          have hapart := h.apart
          rw [hlist, List.pairwise_append] at hapart
          simp [hapart.2.2 p hp t List.mem_cons_self]
        -- as many entries as there were
        have hroom : ¬ max ≤ pre.length := by
          have hshort := h.short
          rw [hlist, List.length_append, List.length_cons] at hshort
          omega
        have hadd : nameAdd bad max pre (readValue t) = pre ++ [t] := by
          unfold nameAdd
          simp only [hclean]
          rw [if_neg hbad, if_neg (by simp [hnew]), if_neg hroom]
        rw [List.foldl_cons, hadd, ih (pre ++ [t]) (by rw [hlist, List.append_assoc]; rfl), List.append_assoc]
        rfl
    exact hfold list [] rfl

end

/-! ## Rooms -/

/-- What `add_room` does to the list of rooms. -/
def roomsAdd (C : Crypto) (rooms : List McRoom) (val : Bytes) : List McRoom :=
  match roomName val with
  | none => rooms
  | some name =>
    if rooms.any fun r => r.name == name then rooms
    else if mcMaxRooms ≤ rooms.length then rooms
    else rooms ++ [⟨name, hashtagKey C name, false⟩]

/-- What the setting `room` does to the list; its channel is another matter. -/
theorem addRoom_rooms (C : Crypto) (cfg : McConfig) (val : Bytes) :
    ((addRoom C cfg val).getD cfg).rooms = roomsAdd C cfg.rooms val := by
  unfold addRoom addRoomEx roomsAdd
  cases roomName val with
  | none => rfl
  | some name =>
    simp only
    split
    · rfl
    split
    · rfl
    · obtain ⟨chans, heq⟩ := registerRoomChannel_tables C
        { cfg with rooms := cfg.rooms ++ [⟨name, hashtagKey C name, false⟩] } name false
      simp only [heq, Option.getD_some]

/-- The name of a room as it is stored: a `#` and a trimmed name. -/
def RoomNormal (name : Bytes) : Prop :=
  ∃ bare, name = 35 :: bare ∧ bare ≠ [] ∧ name.length < mcRoomNameLen ∧ rtrim isBlankOrEol bare = bare

/-- A name that is read back: no second `#`, and no blank behind the first. -/
def RoomKept (name : Bytes) : Prop :=
  (35 : UInt8) ∉ name.drop 1 ∧ ∀ c, (name.drop 1).head? = some c → isBlank c = false

/-- Every name that `add_room_ex` accepts is stored so. -/
theorem roomNormal_of_roomName {val name : Bytes} (h : roomName val = some name) : RoomNormal name := by
  have htrim : rtrim isBlankOrEol (trimName (mcRoomNameLen * 2) val) = trimName (mcRoomNameLen * 2) val :=
    rtrim_rtrim _ _
  unfold roomName at h
  generalize trimName (mcRoomNameLen * 2) val = clean at h htrim
  simp only at h
  split at h
  · cases h
  rename_i hshort
  rw [not_or, not_or] at hshort
  rcases hshort with ⟨hne, hbare, hlen⟩
  cases h
  -- the name is given with its `#`, or without
  by_cases hhash : clean.head? = some 35
  · have hname : hashName clean = clean := if_pos hhash
    rw [hname] at hbare hlen ⊢
    cases clean with
    | nil => exact absurd rfl hne
    | cons c bare =>
      cases hhash
      refine ⟨bare, rfl, ?_, by omega, rtrim_tail htrim⟩
      rintro rfl
      exact hbare rfl
  · have hname : hashName clean = 35 :: clean := if_neg hhash
    rw [hname] at hlen ⊢
    exact ⟨clean, rfl, hne, by omega, htrim⟩

/-- A line of a room sets the name as it was, or one without its `#`s and blanks. -/
theorem roomName_readValue {bare name : Bytes} (h : roomName (readValue bare) = some name) : RoomKept name := by
  -- the value was cut at its first `#`
  have hclean : ∀ c ∈ trimName (mcRoomNameLen * 2) (readValue bare), c ≠ 35 := by
    intro c hc
    exact ne_of_mem_readValue (mem_of_mem_trimName hc)
  -- and its blanks in front are gone
  have hhead : ∀ c, (trimName (mcRoomNameLen * 2) (readValue bare)).head? = some c → isBlank c = false := by
    intro c hc
    have hcut : (snprintfS (mcRoomNameLen * 2) (skipBlanks (readValue bare))).head? = some c := head_of_rtrim hc
    have hskip : (skipBlanks (readValue bare)).head? = some c := by
      cases hval : skipBlanks (readValue bare) with
      | nil => simp [hval, snprintfS] at hcut
      | cons b rest => simpa [hval, snprintfS, mcRoomNameLen] using hcut
    exact isBlank_of_head_skipBlanks hskip
  unfold roomName at h
  generalize trimName (mcRoomNameLen * 2) (readValue bare) = clean at h hclean hhead
  simp only at h
  split at h
  · cases h
  cases h
  have hname : hashName clean = 35 :: clean := by
    apply if_neg
    intro hhash
    exact hclean 35 (List.mem_of_mem_head? hhash) rfl
  rw [hname]
  refine ⟨?_, hhead⟩
  intro hmem
  exact hclean 35 hmem rfl

/-- A kept name is written without its `#`, and read back with it. -/
theorem RoomNormal.reread {name : Bytes} (h : RoomNormal name) (hkept : RoomKept name) :
    roomName (readValue (bareName name)) = some name := by
  rcases h with ⟨bare, rfl, hne, hlen, htrim⟩
  rcases hkept with ⟨hhash, hhead⟩
  have hbare : bareName (35 :: bare) = bare := rfl
  have hshort : bare.length < 31 := by
    simp only [List.length_cons, mcRoomNameLen] at hlen
    omega
  -- a short bare name without `#` is one that is stored
  have hread : readValue bare = bare := IsStored.readValue ⟨hshort.le, hhead, htrim⟩ hhash
  have htrimmed : trimName (mcRoomNameLen * 2) bare = bare :=
    IsStored.trimName ⟨hshort.le, hhead, htrim⟩ (by decide)
  have hname : hashName bare = 35 :: bare := by
    apply if_neg
    intro hstart
    exact hhash (List.mem_of_mem_head? hstart)
  unfold roomName
  simp only [hbare, hread, htrimmed, hname]
  apply if_neg
  rintro (hnil | hone | hlong)
  · exact hne hnil
  · simp only [List.length_cons] at hone
    exact hne (List.eq_nil_of_length_eq_zero (by omega))
  · omega

/-- The rooms as the functions of the node keep them: none of them is the hub's. -/
structure RoomList (C : Crypto) (rooms : List McRoom) : Prop where
  normal : ∀ r ∈ rooms, RoomNormal r.name
  made : ∀ r ∈ rooms, r = ⟨r.name, hashtagKey C r.name, false⟩
  apart : (rooms.map McRoom.name).Nodup
  short : rooms.length ≤ mcMaxRooms

/-- A room goes to the end, or nothing happens. -/
theorem roomsAdd_cases (C : Crypto) (rooms : List McRoom) (val : Bytes) :
    roomsAdd C rooms val = rooms ∨
      ∃ name, roomName val = some name ∧ (∀ r ∈ rooms, r.name ≠ name) ∧ rooms.length < mcMaxRooms ∧
        roomsAdd C rooms val = rooms ++ [⟨name, hashtagKey C name, false⟩] := by
  unfold roomsAdd
  cases roomName val with
  | none => exact .inl rfl
  | some name =>
    simp only
    split
    · exact .inl rfl
    rename_i hnew
    split
    · exact .inl rfl
    · exact .inr ⟨name, rfl, by simpa using hnew, by omega, rfl⟩

/-- Adding a room keeps its key that of its name. -/
theorem RoomList.add {rooms : List McRoom} (h : RoomList C rooms) (val : Bytes) :
    RoomList C (roomsAdd C rooms val) := by
  rcases roomsAdd_cases C rooms val with heq | ⟨name, hname, hnew, hroom, heq⟩
  · rw [heq]
    exact h
  rw [heq]
  constructor
  · intro r hr
    rcases List.mem_append.mp hr with hold | hlast
    · exact h.normal r hold
    · rw [List.mem_singleton.mp hlast]
      exact roomNormal_of_roomName hname
  · intro r hr
    rcases List.mem_append.mp hr with hold | hlast
    · exact h.made r hold
    · rw [List.mem_singleton.mp hlast]
  · rw [List.map_append, List.nodup_append]
    refine ⟨h.apart, List.nodup_singleton _, ?_⟩
    rintro n hn m hm rfl
    rcases List.mem_map.mp hn with ⟨r, hr, rfl⟩
    exact hnew r hr (List.mem_singleton.mp hm)
  · rw [List.length_append, List.length_singleton]
    omega

/-- The rooms of a file, read one after the other. -/
def reloadRooms (C : Crypto) (names : List Bytes) : List McRoom :=
  names.foldl (fun rooms name => roomsAdd C rooms (readValue (bareName name))) []

/-- Whatever stands in the file, the rooms it gives have names that are read back. -/
theorem reloadRooms_kept (C : Crypto) (names : List Bytes) : ∀ r ∈ reloadRooms C names, RoomKept r.name := by
  have hfold : ∀ (names : List Bytes) (start : List McRoom), (∀ r ∈ start, RoomKept r.name) →
      ∀ r ∈ names.foldl (fun rooms name => roomsAdd C rooms (readValue (bareName name))) start, RoomKept r.name := by
    intro names
    induction names with
    | nil => exact fun start h => h
    | cons v names ih =>
      intro start hstart
      apply ih
      simp only
      rcases roomsAdd_cases C start (readValue (bareName v)) with heq | ⟨name, hname, -, -, heq⟩
      · rw [heq]
        exact hstart
      · rw [heq]
        intro r hr
        rcases List.mem_append.mp hr with hold | hlast
        · exact hstart r hold
        · rw [List.mem_singleton.mp hlast]
          exact roomName_readValue hname
  exact hfold names [] (by nofun)

/-- The rooms of a file are kept like those of calls. -/
theorem reloadRooms_list (C : Crypto) (names : List Bytes) : RoomList C (reloadRooms C names) := by
  have hfold : ∀ (names : List Bytes) (start : List McRoom), RoomList C start →
      RoomList C (names.foldl (fun rooms name => roomsAdd C rooms (readValue (bareName name))) start) := by
    intro names
    induction names with
    | nil => exact fun start h => h
    | cons v names ih => exact fun start h => ih _ (h.add _)
  exact hfold names [] ⟨by nofun, by nofun, List.nodup_nil, Nat.zero_le _⟩

/-- A room is its name. -/
theorem RoomList.ext {rooms rooms' : List McRoom} (h : RoomList C rooms) (h' : RoomList C rooms')
    (hnames : rooms.map McRoom.name = rooms'.map McRoom.name) : rooms = rooms' := by
  have hmade : ∀ rooms : List McRoom, RoomList C rooms →
      (rooms.map McRoom.name).map (fun name => ⟨name, hashtagKey C name, false⟩) = rooms := by
    intro rooms h
    rw [List.map_map]
    calc rooms.map ((fun name => (⟨name, hashtagKey C name, false⟩ : McRoom)) ∘ McRoom.name)
        = rooms.map id := List.map_congr_left fun r hr => (h.made r hr).symm
      _ = rooms := List.map_id _
  rw [← hmade rooms h, hnames, hmade rooms' h']

/-- The rooms come back exactly when every name does. -/
theorem RoomList.reload_iff {rooms : List McRoom} (h : RoomList C rooms) :
    reloadRooms C (rooms.map McRoom.name) = rooms ↔ ∀ r ∈ rooms, RoomKept r.name := by
  constructor
  · intro hsame r hr
    rw [← hsame] at hr
    exact reloadRooms_kept C _ r hr
  · intro hkept
    -- each name in turn goes to the end of those before it
    have hfold : ∀ (rest : List McRoom) (pre : List McRoom) (start : List McRoom), rooms = pre ++ rest →
        start.map McRoom.name = pre.map McRoom.name →
        ((rest.map McRoom.name).foldl (fun rooms name => roomsAdd C rooms (readValue (bareName name))) start).map
          McRoom.name = rooms.map McRoom.name := by
      intro rest
      induction rest with
      | nil =>
        intro pre start hrooms hstart
        rw [hrooms, List.append_nil]
        exact hstart
      | cons r rest ih =>
        intro pre start hrooms hstart
        have hr : r ∈ rooms := by
          rw [hrooms]
          exact List.mem_append_right _ List.mem_cons_self
        have hreread := (h.normal r hr).reread (hkept r hr)
        have hlen : start.length = pre.length := by simpa using congrArg List.length hstart
        -- the rooms before it have other names
        have hnew : (start.any fun s => s.name == r.name) = false := by
          rw [List.any_eq_false]
          intro s hs
          have hmem : s.name ∈ pre.map McRoom.name := by
            rw [← hstart]
            exact List.mem_map_of_mem hs
          have hapart := h.apart
          rw [hrooms, List.map_append, List.nodup_append] at hapart
          simpa using hapart.2.2 s.name hmem r.name (by simp)
        have hroom : ¬ mcMaxRooms ≤ start.length := by
          have hshort := h.short
          rw [hrooms, List.length_append, List.length_cons] at hshort
          omega
        have hadd : roomsAdd C start (readValue (bareName r.name)) =
            start ++ [⟨r.name, hashtagKey C r.name, false⟩] := by
          unfold roomsAdd
          rw [hreread]
          simp only
          rw [if_neg (by simp [hnew]), if_neg hroom]
        rw [List.map_cons, List.foldl_cons, hadd]
        apply ih (pre ++ [r])
        · rw [hrooms, List.append_assoc]
          rfl
        · rw [List.map_append, List.map_append, hstart]
          rfl
    exact (reloadRooms_list C _).ext h (hfold rooms [] [] rfl rfl)

/-! ## Channels -/

/-- What `register_channel` does to the list of channels. -/
def channelsAdd (C : Crypto) (chans : List McPubChannel) (name secret : Bytes) (derived : Bool) : List McPubChannel :=
  if secret.length ≠ 16 ∧ secret.length ≠ 32 then chans
  else if chans.any fun ch => ch.holds secret then chans
  else if mcMaxPublicChannels ≤ chans.length then chans
  else chans ++ [newChannel C name secret derived]

theorem registerChannel_channels (C : Crypto) (cfg : McConfig) (name secret : Bytes) (derived : Bool) :
    ((registerChannel C cfg name secret derived).getD cfg).publicChannels =
      channelsAdd C cfg.publicChannels name secret derived := by
  unfold registerChannel channelsAdd
  split
  · rfl
  split
  · rfl
  split
  · rfl
  · rfl

/-- What a `public_channel` value does to it. -/
def publicAdd (C : Crypto) (chans : List McPubChannel) (val : Bytes) : List McPubChannel :=
  match channelSecret val with
  | some secret => channelsAdd C chans (channelName val) secret false
  | none => chans

theorem addPublicChannel_channels (C : Crypto) (cfg : McConfig) (val : Bytes) :
    ((addPublicChannel C cfg val).getD cfg).publicChannels = publicAdd C cfg.publicChannels val := by
  unfold addPublicChannel publicAdd
  cases channelSecret val with
  | none => rfl
  | some secret => exact registerChannel_channels C cfg _ _ _

/-- The channels that are written: those not derived from a name. -/
def ownKeys (chans : List McPubChannel) : List McPubChannel := chans.filter fun ch => !ch.derived

/-- A channel in the file: its name, its key and the length of the key. -/
def McPubChannel.entry (ch : McPubChannel) : Bytes × Bytes × UInt8 := (ch.name, ch.key, ch.secretLen)

/-- The friendly name as it is stored. -/
structure ChannelNormal (ch : McPubChannel) : Prop where
  short : ch.name.length ≤ 31
  noColon : (58 : UInt8) ∉ ch.name
  length : ch.secretLen = 16 ∨ ch.secretLen = 32

/-- A friendly name that is read back. -/
def ChannelKept (name : Bytes) : Prop :=
  (35 : UInt8) ∉ name ∧ ∀ c, name.head? = some c → isBlank c = false

/-- The channels as the functions of the node keep them. -/
structure ChannelList (chans : List McPubChannel) : Prop where
  normal : ∀ ch ∈ chans, ch.derived = false → ChannelNormal ch
  apart : (chans.map McPubChannel.key).Nodup
  wide : ∀ ch ∈ chans, ch.secretLen.toNat ≤ 32
  short : chans.length ≤ mcMaxPublicChannels

theorem channelsAdd_cases (C : Crypto) (chans : List McPubChannel) (name secret : Bytes) (derived : Bool) :
    channelsAdd C chans name secret derived = chans ∨
      ((secret.length = 16 ∨ secret.length = 32) ∧ (∀ ch ∈ chans, ch.holds secret = false) ∧
        chans.length < mcMaxPublicChannels ∧
        channelsAdd C chans name secret derived = chans ++ [newChannel C name secret derived]) := by
  unfold channelsAdd
  split
  · exact .inl rfl
  rename_i hlen
  split
  · exact .inl rfl
  rename_i hnew
  split
  · exact .inl rfl
  · rename_i hroom
    exact .inr ⟨by omega, by simpa using hnew, by omega, rfl⟩

theorem ChannelList.add {chans : List McPubChannel} (h : ChannelList chans) (C : Crypto) {name secret : Bytes}
    {derived : Bool} (hname : derived = false → name.length ≤ 31 ∧ (58 : UInt8) ∉ name) :
    ChannelList (channelsAdd C chans name secret derived) := by
  rcases channelsAdd_cases C chans name secret derived with heq | ⟨hlen, hnew, hroom, heq⟩
  · rw [heq]
    exact h
  rw [heq]
  obtain ⟨hkey, hsecret⟩ := newChannel_key C name derived (by omega : secret.length ≤ 32)
  constructor
  · intro ch hch hd
    rcases List.mem_append.mp hch with hold | hlast
    · exact h.normal ch hold hd
    · rw [List.mem_singleton.mp hlast] at hd ⊢
      rcases hname hd with ⟨hshort, hcolon⟩
      have hcut : (newChannel C name secret derived).name = name := by
        apply List.take_of_length_le
        simp only [mcRoomNameLen]
        omega
      constructor
      · rw [hcut]
        exact hshort
      · rw [hcut]
        exact hcolon
      · rcases hlen with h16 | h32
        · exact .inl (UInt8.toNat_inj.mp (hsecret.trans h16))
        · exact .inr (UInt8.toNat_inj.mp (hsecret.trans h32))
  · rw [List.map_append, List.nodup_append]
    refine ⟨h.apart, List.nodup_singleton _, ?_⟩
    rintro k hk k' hk' rfl
    rcases List.mem_map.mp hk with ⟨ch, hch, rfl⟩
    have hsame : ch.key = secret := (List.mem_singleton.mp hk').trans hkey
    have hheld := (McPubChannel.holds_iff (h.wide ch hch) secret).mpr hsame
    rw [hnew ch hch] at hheld
    cases hheld
  · intro ch hch
    rcases List.mem_append.mp hch with hold | hlast
    · exact h.wide ch hold
    · rw [List.mem_singleton.mp hlast, hsecret]
      omega
  · rw [List.length_append, List.length_singleton]
    omega

theorem channelName_normal (val : Bytes) : (channelName val).length ≤ 31 ∧ (58 : UInt8) ∉ channelName val := by
  unfold channelName
  split
  · have hsize : mcRoomNameLen - 1 = 31 := rfl
    rw [hsize]
    refine ⟨List.length_take_le 31 _, ?_⟩
    intro hmem
    simpa using List.mem_takeWhile_imp (List.mem_of_mem_take hmem)
  · exact ⟨by simp, by simp⟩

theorem ChannelList.addPublic {chans : List McPubChannel} (h : ChannelList chans) (C : Crypto) (val : Bytes) :
    ChannelList (publicAdd C chans val) := by
  unfold publicAdd
  split
  · exact h.add C fun _ => channelName_normal val
  · exact h

/-- What a value as read is named. -/
theorem channelName_readValue (val : Bytes) : ChannelKept (channelName (readValue val)) := by
  unfold channelName
  split
  swap
  · exact ⟨by simp, by simp⟩
  constructor
  · intro hmem
    exact ne_of_mem_readValue ((List.takeWhile_prefix _).subset (List.mem_of_mem_take hmem)) rfl
  · intro c hc
    have hfirst : (readValue val).head? = some c := by
      cases hval : readValue val with
      | nil => simp [hval] at hc
      | cons b rest =>
        rw [hval, List.takeWhile_cons] at hc
        split at hc
        · simpa [mcRoomNameLen] using hc
        · simp at hc
    rw [← skipBlanks_readValue] at hfirst
    exact isBlank_of_head_skipBlanks hfirst

theorem isSome_hexval {b : Bytes} {c : UInt8} (h : c ∈ hexText b) : (hexval c).isSome = true := by
  rcases List.mem_flatMap.mp h with ⟨x, -, hx⟩
  obtain ⟨hhi, hlo, -⟩ := hexval_hexDigit_pair x
  simp only [List.mem_cons, List.not_mem_nil, or_false] at hx
  rcases hx with rfl | rfl
  · rw [hhi]
    rfl
  · rw [hlo]
    rfl

/-- The line of a channel whose name is read back sets the channel as it was. -/
theorem channelText_reread {ch : McPubChannel} (h : ChannelNormal ch) (hkept : ChannelKept ch.name) :
    channelSecret (readValue (channelText ch)) = some ch.key ∧
      channelName (readValue (channelText ch)) = ch.name := by
  have hkeyLen : ch.key.length = 16 ∨ ch.key.length = 32 := by
    rcases h.length with h16 | h32
    · left
      rw [McPubChannel.key, h16]
      exact ch.secret.length_read 0 16 (by decide)
    · right
      rw [McPubChannel.key, h32]
      exact ch.secret.length_read 0 32 (by decide)
  have hhexLen : (hexText ch.key).length = 32 ∨ (hexText ch.key).length = 64 := by
    rw [length_hexText]
    omega
  have hne : hexText ch.key ≠ [] := by
    intro hnil
    rw [hnil] at hhexLen
    simp at hhexLen
  have hplain := isPlain_hexText ch.key
  have hcolon : (58 : UInt8) ∉ hexText ch.key := by
    intro hmem
    exact absurd (mem_hexText hmem) (by decide)
  -- the value up to its last digit holds nothing a reader cuts or trims
  have hread : ∀ front : Bytes, ChannelKept front → readValue (front ++ hexText ch.key) = front ++ hexText ch.key := by
    intro front hfront
    have htake : (front ++ hexText ch.key).takeWhile (· ≠ 35) = front ++ hexText ch.key := by
      apply List.takeWhile_eq_self_iff.mpr
      intro c hc
      have hhash : c ≠ 35 := by
        rcases List.mem_append.mp hc with hc | hc
        · rintro rfl
          exact hfront.1 hc
        · exact (hplain c hc).1
      simpa using hhash
    have hhead : ∀ c, (front ++ hexText ch.key).head? = some c → isBlank c = false := by
      intro c hc
      cases front with
      | nil =>
        exact isBlank_of_isBlankOrEol (hplain c (List.mem_of_mem_head? hc)).2
      | cons b front => exact hfront.2 c hc
    rw [Meshcore.readValue, htake, skipBlanks_of_head hhead]
    apply rtrim_eq_self
    intro c hc
    rw [List.getLast?_append_of_ne_nil _ hne] at hc
    exact (hplain c (List.mem_of_getLast? hc)).2
  have hsecret : ∀ val, (if val.contains 58 then (val.dropWhile (· ≠ 58)).drop 1 else val) = hexText ch.key →
      channelSecret val = some ch.key := by
    intro val hpsk
    have hall : ((hexText ch.key).all fun c => (hexval c).isSome) = true :=
      List.all_eq_true.mpr fun c hc => isSome_hexval hc
    have hlen : ((hexText ch.key).length == 32 || (hexText ch.key).length == 64) = true := by
      rcases hhexLen with hlen | hlen <;> simp [hlen]
    unfold channelSecret
    simp only [hpsk, hall, hlen, Bool.and_self, if_true]
    exact hex2bin_hexText (by omega)
  by_cases hname : ch.name = []
  · have htext : channelText ch = [] ++ hexText ch.key := if_pos hname
    have hno : (hexText ch.key).contains 58 = false := by simpa using hcolon
    rw [htext, hread [] ⟨by simp, by simp⟩, List.nil_append]
    refine ⟨hsecret _ ?_, ?_⟩
    · rw [hno]
      rfl
    · unfold channelName
      rw [hno, hname]
      rfl
  · have htext : channelText ch = (ch.name ++ [58]) ++ hexText ch.key := by
      have hsplit : channelText ch = ch.name ++ 58 :: hexText ch.key := if_neg hname
      rw [hsplit, List.append_assoc]
      rfl
    have hfront : ChannelKept (ch.name ++ [58]) := by
      constructor
      · intro hmem
        rcases List.mem_append.mp hmem with hmem | hmem
        · exact hkept.1 hmem
        · exact absurd (List.mem_singleton.mp hmem) (by decide)
      · intro c hc
        rw [List.head?_append_of_ne_nil _ hname] at hc
        exact hkept.2 c hc
    have hbefore : ∀ c ∈ ch.name, decide (c ≠ 58) = true := by
      intro c hc
      apply decide_eq_true
      rintro rfl
      exact h.noColon hc
    have hyes : (ch.name ++ [58] ++ hexText ch.key).contains 58 = true := by simp
    rw [htext, hread _ hfront]
    refine ⟨hsecret _ ?_, ?_⟩
    · rw [hyes, if_pos rfl, List.append_assoc, List.dropWhile_append_of_pos hbefore]
      rfl
    · unfold channelName
      rw [hyes, if_pos rfl, List.append_assoc, List.takeWhile_append_of_pos hbefore]
      have hstop : ([58] ++ hexText ch.key).takeWhile (· ≠ 58) = [] := rfl
      rw [hstop, List.append_nil]
      have hsize : mcRoomNameLen - 1 = 31 := rfl
      rw [hsize]
      exact List.take_of_length_le h.short

/-- The built-in channel of the mailbox. -/
def mboxEntry (C : Crypto) : McPubChannel := newChannel C (lit "#mbox") (mboxKey C) true

/-- The channels in front of the first `public_channel` line. -/
def startChannels (C : Crypto) (mbox : Bool) : List McPubChannel := if mbox then [mboxEntry C] else []

/-- The channels behind the last of them. -/
def reloadChannels (C : Crypto) (mbox : Bool) (own : List McPubChannel) : List McPubChannel :=
  (own.map channelText).foldl (fun chans t => publicAdd C chans (readValue t)) (startChannels C mbox)

/-- At most the built-in channel, which is derived. -/
theorem startChannels_list (C : Crypto) (mbox : Bool) : ChannelList (startChannels C mbox) := by
  cases mbox with
  | false => exact ⟨by nofun, List.nodup_nil, by nofun, Nat.zero_le _⟩
  | true =>
    have hlen := (newChannel_key C (lit "#mbox") true (by rw [mboxKey, length_hashtagKey]; omega :
      (mboxKey C).length ≤ 32)).2
    constructor
    · intro ch hch hd
      rw [List.mem_singleton.mp hch] at hd
      cases hd
    · exact List.nodup_singleton _
    · intro ch hch
      rw [List.mem_singleton.mp hch, mboxEntry, hlen, mboxKey, length_hashtagKey]
      omega
    · show 1 ≤ 48
      omega

/-- Reading the lines only adds, keeps the list in order, and adds channels that are read back. -/
theorem reloadChannels_inv (C : Crypto) (mbox : Bool) (own : List McPubChannel) :
    ChannelList (reloadChannels C mbox own) ∧ startChannels C mbox <+: reloadChannels C mbox own ∧
      ∀ ch ∈ ownKeys (reloadChannels C mbox own), ChannelKept ch.name := by
  -- over the lines, with the channels so far
  have hfold : ∀ (texts : List Bytes) (chans : List McPubChannel),
      ChannelList chans ∧ startChannels C mbox <+: chans ∧ (∀ ch ∈ ownKeys chans, ChannelKept ch.name) →
      ChannelList (texts.foldl (fun chans t => publicAdd C chans (readValue t)) chans) ∧
        startChannels C mbox <+: texts.foldl (fun chans t => publicAdd C chans (readValue t)) chans ∧
        ∀ ch ∈ ownKeys (texts.foldl (fun chans t => publicAdd C chans (readValue t)) chans),
          ChannelKept ch.name := by
    intro texts
    induction texts with
    | nil => exact fun chans h => h
    | cons t texts ih =>
      rintro chans ⟨hlist, hstart, hkept⟩
      apply ih
      refine ⟨hlist.addPublic C _, ?_⟩
      simp only
      unfold publicAdd
      split
      swap
      · exact ⟨hstart, hkept⟩
      rename_i secret _
      rcases channelsAdd_cases C chans (channelName (readValue t)) secret false with heq | ⟨-, -, -, heq⟩
      · rw [heq]
        exact ⟨hstart, hkept⟩
      rw [heq]
      refine ⟨hstart.trans (List.prefix_append _ _), ?_⟩
      intro ch hch
      rw [ownKeys, List.filter_append] at hch
      rcases List.mem_append.mp hch with hold | hlast
      · exact hkept ch hold
      · rw [List.mem_singleton.mp (List.mem_of_mem_filter hlast)]
        have hname : (newChannel C (channelName (readValue t)) secret false).name = channelName (readValue t) := by
          have hshort := (channelName_normal (readValue t)).1
          apply List.take_of_length_le
          simp only [mcRoomNameLen]
          omega
        rw [hname]
        exact channelName_readValue t
  have hstart : ∀ ch ∈ ownKeys (startChannels C mbox), ChannelKept ch.name := by
    intro ch hch
    cases mbox with
    | false => cases hch
    | true => cases hch
  exact hfold _ _ ⟨startChannels_list C mbox, List.prefix_rfl, hstart⟩

/-- A channel that is read back has the name and key it was written with, and its hash follows from
them. -/
theorem entry_newChannel (C : Crypto) {ch : McPubChannel} (h : ChannelNormal ch) :
    (newChannel C ch.name ch.key false).entry = ch.entry := by
  have hlen : ch.key.length = ch.secretLen.toNat := by
    apply ch.secret.length_read 0
    rcases h.length with hl | hl <;> rw [hl] <;> decide
  have hle : ch.key.length ≤ 32 := by
    rw [hlen]
    rcases h.length with hl | hl <;> rw [hl] <;> decide
  obtain ⟨hkey, hsize⟩ := newChannel_key C ch.name false hle
  have hname : (newChannel C ch.name ch.key false).name = ch.name := by
    have hshort := h.short
    apply List.take_of_length_le
    simp only [mcRoomNameLen]
    omega
  have hlength : (newChannel C ch.name ch.key false).secretLen = ch.secretLen :=
    UInt8.toNat_inj.mp (hsize.trans hlen)
  rw [McPubChannel.entry, hname, hkey, hlength]
  rfl

section
variable {chans : List McPubChannel} {mbox : Bool}

/-- Channels that are read back, beside `#mbox` and in the room behind it, all come back. -/
theorem ChannelList.reload (h : ChannelList chans) (hkept : ∀ ch ∈ ownKeys chans, ChannelKept ch.name)
    (hmbox : mbox = true → (∀ ch ∈ ownKeys chans, ch.key ≠ mboxKey C) ∧ (ownKeys chans).length < mcMaxPublicChannels) :
    reloadChannels C mbox (ownKeys chans) =
      startChannels C mbox ++ (ownKeys chans).map fun ch => newChannel C ch.name ch.key false := by
  have hnormal : ∀ ch ∈ ownKeys chans, ChannelNormal ch := by
    intro ch hch
    obtain ⟨hmem, hd⟩ := List.mem_filter.mp hch
    exact h.normal ch hmem (by simpa using hd)
  have hkeys : ((ownKeys chans).map McPubChannel.key).Nodup := h.apart.sublist (List.filter_sublist.map _)
  have hcount : (ownKeys chans).length ≤ mcMaxPublicChannels := (List.length_filter_le _ _).trans h.short
  -- each channel in turn goes to the end of those before it
  have hfold : ∀ rest pre : List McPubChannel, ownKeys chans = pre ++ rest →
      (rest.map channelText).foldl (fun chans t => publicAdd C chans (readValue t))
          (startChannels C mbox ++ pre.map fun ch => newChannel C ch.name ch.key false) =
        startChannels C mbox ++ (ownKeys chans).map fun ch => newChannel C ch.name ch.key false := by
    intro rest
    induction rest with
    | nil =>
      intro pre hown
      rw [hown, List.append_nil]
      rfl
    | cons ch rest ih =>
      intro pre hown
      have hch : ch ∈ ownKeys chans := by
        rw [hown]
        exact List.mem_append_right _ List.mem_cons_self
      have hpre : ∀ p ∈ pre, p ∈ ownKeys chans := by
        intro p hp
        rw [hown]
        exact List.mem_append_left _ hp
      obtain ⟨hsecret, hname⟩ := channelText_reread (hnormal ch hch) (hkept ch hch)
      have hlen : ch.key.length = 16 ∨ ch.key.length = 32 := by
        rcases (hnormal ch hch).length with h16 | h32
        · left
          rw [McPubChannel.key, h16]
          exact ch.secret.length_read 0 16 (by decide)
        · right
          rw [McPubChannel.key, h32]
          exact ch.secret.length_read 0 32 (by decide)
      -- its key is not that of `#mbox`, nor of a channel before it
      have hnew : ∀ p ∈ startChannels C mbox ++ pre.map fun ch => newChannel C ch.name ch.key false,
          p.holds ch.key = false := by
        intro p hp
        rw [Bool.eq_false_iff]
        intro hholds
        have hsame := McPubChannel.key_of_holds hholds
        rcases List.mem_append.mp hp with hp | hp
        · cases hon : mbox with
          | false =>
            rw [hon] at hp
            cases hp
          | true =>
            rw [hon] at hp
            rw [List.mem_singleton.mp hp] at hsame
            have hmboxKey := (newChannel_key C (lit "#mbox") true (by rw [mboxKey, length_hashtagKey]; omega :
              (mboxKey C).length ≤ 32)).1
            exact (hmbox hon).1 ch hch (hsame.symm.trans hmboxKey)
        · rcases List.mem_map.mp hp with ⟨q, hq, rfl⟩
          have hentry := entry_newChannel C (hnormal q (hpre q hq))
          have hkey : (newChannel C q.name q.key false).key = q.key := congrArg (fun e => e.2.1) hentry
          rw [hown, List.map_append, List.nodup_append] at hkeys
          exact hkeys.2.2 q.key (List.mem_map_of_mem hq) ch.key (by simp) (hkey.symm.trans hsame)
      -- and there is room, `#mbox` counted
      have hroom : (startChannels C mbox ++ pre.map fun ch => newChannel C ch.name ch.key false).length <
          mcMaxPublicChannels := by
        have hcount' := hcount
        rw [hown, List.length_append, List.length_cons] at hcount'
        rw [List.length_append, List.length_map]
        cases hon : mbox with
        | false =>
          show 0 + pre.length < _
          omega
        | true =>
          have hfree := (hmbox hon).2
          rw [hown, List.length_append, List.length_cons] at hfree
          show 1 + pre.length < _
          omega
      -- so the line adds it to the end
      have hadd : publicAdd C (startChannels C mbox ++ pre.map fun ch => newChannel C ch.name ch.key false)
          (readValue (channelText ch)) =
          startChannels C mbox ++ (pre ++ [ch]).map fun ch => newChannel C ch.name ch.key false := by
        unfold publicAdd
        rw [hsecret, hname]
        simp only
        unfold channelsAdd
        have hany : ¬ (startChannels C mbox ++ pre.map fun ch => newChannel C ch.name ch.key false).any
            (fun c => c.holds ch.key) = true := by
          rw [List.any_eq_true]
          rintro ⟨p, hp, hholds⟩
          rw [hnew p hp] at hholds
          cases hholds
        rw [if_neg (by omega), if_neg hany, if_neg (by omega), List.map_append, List.append_assoc]
        rfl
      rw [List.map_cons, List.foldl_cons, hadd]
      apply ih
      rw [hown, List.append_assoc]
      rfl
  have hstart := hfold (ownKeys chans) [] rfl
  rwa [List.map_nil, List.append_nil] at hstart

/-- The channels come back, as a set, exactly when each is read back and the built-in `#mbox`
channel neither holds the key of one nor takes the place of the last. -/
theorem ChannelList.reload_iff (h : ChannelList chans) (C : Crypto) (mbox : Bool) :
    (∀ e, e ∈ (ownKeys (reloadChannels C mbox (ownKeys chans))).map McPubChannel.entry ↔
        e ∈ (ownKeys chans).map McPubChannel.entry) ↔
      (∀ ch ∈ ownKeys chans, ChannelKept ch.name) ∧
        (mbox = true → (∀ ch ∈ ownKeys chans, ch.key ≠ mboxKey C) ∧
          (ownKeys chans).length < mcMaxPublicChannels) := by
  have hnormal : ∀ ch ∈ ownKeys chans, ChannelNormal ch := by
    intro ch hch
    obtain ⟨hmem, hd⟩ := List.mem_filter.mp hch
    exact h.normal ch hmem (by simpa using hd)
  constructor
  · intro hsame
    obtain ⟨hlist, hstart, hread⟩ := reloadChannels_inv C mbox (ownKeys chans)
    generalize reloadChannels C mbox (ownKeys chans) = after at hsame hlist hstart hread
    -- every channel has its like among those read back
    have hback : ∀ ch ∈ ownKeys chans, ∃ ch' ∈ ownKeys after, ch'.entry = ch.entry := by
      intro ch hch
      exact List.mem_map.mp ((hsame ch.entry).mpr (List.mem_map_of_mem hch))
    refine ⟨?_, ?_⟩
    · intro ch hch
      rcases hback ch hch with ⟨ch', hch', hentry⟩
      have hname : ch'.name = ch.name := congrArg Prod.fst hentry
      rw [← hname]
      exact hread ch' hch'
    · rintro rfl
      have hmem : mboxEntry C ∈ after := hstart.subset (List.mem_singleton.mpr rfl)
      have hmboxKey := (newChannel_key C (lit "#mbox") true (by rw [mboxKey, length_hashtagKey]; omega :
        (mboxKey C).length ≤ 32)).1
      refine ⟨?_, ?_⟩
      · -- the key is taken by a derived channel
        intro ch hch hkey
        rcases hback ch hch with ⟨ch', hch', hentry⟩
        obtain ⟨hmem', hd⟩ := List.mem_filter.mp hch'
        have hkey' : ch'.key = (mboxEntry C).key := by
          have hsameKey : ch'.key = ch.key := congrArg (fun e => e.2.1) hentry
          exact (hsameKey.trans hkey).trans hmboxKey.symm
        have heq : ch' = mboxEntry C := List.inj_on_of_nodup_map hlist.apart hmem' hmem hkey'
        rw [heq] at hd
        cases hd
      -- the channels are as many as before, and `#mbox` beside them has to fit
      · have hentries : ((ownKeys chans).map McPubChannel.entry).Nodup := by
          have hkeys : ((ownKeys chans).map McPubChannel.key).Nodup := h.apart.sublist (List.filter_sublist.map _)
          have hproj : (ownKeys chans).map McPubChannel.key =
              ((ownKeys chans).map McPubChannel.entry).map fun e => e.2.1 := by
            rw [List.map_map]
            rfl
          rw [hproj] at hkeys
          exact hkeys.of_map _
        have hsub : (ownKeys chans).map McPubChannel.entry ⊆ (ownKeys after).map McPubChannel.entry :=
          fun e he => (hsame e).mpr he
        have hle := (List.subperm_of_subset hentries hsub).length_le
        rw [List.length_map, List.length_map] at hle
        have hless : (ownKeys after).length < after.length := by
          apply List.length_filter_lt_length_iff_exists.mpr
          exact ⟨mboxEntry C, hmem, by simp [mboxEntry, newChannel]⟩
        have hshort := hlist.short
        omega
  · rintro ⟨hkept, hmbox⟩ e
    -- the built-in channel is not the node's own
    have hstart : ownKeys (startChannels C mbox) = [] := by cases mbox <;> rfl
    have hall : ∀ l : List McPubChannel, ownKeys (l.map fun ch => newChannel C ch.name ch.key false) =
        l.map fun ch => newChannel C ch.name ch.key false := by
      intro l
      apply List.filter_eq_self.mpr
      intro ch hch
      rcases List.mem_map.mp hch with ⟨p, -, rfl⟩
      rfl
    have hentries : ((ownKeys chans).map fun ch => newChannel C ch.name ch.key false).map McPubChannel.entry =
        (ownKeys chans).map McPubChannel.entry := by
      rw [List.map_map]
      apply List.map_congr_left
      intro ch hch
      exact entry_newChannel C (hnormal ch hch)
    rw [h.reload hkept hmbox, ownKeys, List.filter_append]
    change e ∈ (ownKeys (startChannels C mbox) ++ ownKeys _).map McPubChannel.entry ↔ _
    rw [hstart, hall, List.nil_append, hentries]

end

end Meshcore
