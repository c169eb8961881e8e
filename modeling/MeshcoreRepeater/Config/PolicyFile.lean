import MeshcoreRepeater.Backbone.Pages
import MeshcoreRepeater.Config.HubRules
import MeshcoreRepeater.Config.RoundTrip

/-! # The hub's set across a restart

A set that came in over the wire is kept as text. Everything in it is read back but the
block names that hold a line end, which `config_policy_save` leaves out
(`policy_restored`).

* `readPolicy_configPolicySave`: a set is read back from its file.
* `configPolicyLoad_save`: the restart.
* `policy_restored`: what of the set is in force again.
-/

namespace Meshcore

set_option maxRecDepth 8000

open ByteLib

/-! ## A written line is read back -/

/-- Bytes that stay on one line of the file. -/
def InLine (s : Bytes) : Prop := ∀ c ∈ s, c ≠ 0 ∧ c ≠ 13 ∧ c ≠ 10

/-- Text in two parts. -/
theorem InLine.append {s t : Bytes} (hs : InLine s) (ht : InLine t) : InLine (s ++ t) := by
  intro c hc
  rcases List.mem_append.mp hc with h | h
  · exact hs c h
  · exact ht c h

/-- The text is split at the first place where the separator fits, which is behind the key. -/
theorem splitAtText_append {a : UInt8} {sep key : Bytes} (hkey : a ∉ key) (val : Bytes) :
    splitAtText (a :: sep) (key ++ (a :: sep) ++ val) = some (key, val) := by
  induction key with
  | nil => simp [splitAtText]
  | cons c key ih =>
    have hc : a ≠ c := fun h => hkey (h ▸ List.mem_cons_self)
    have hrest := ih fun h => hkey (List.mem_cons_of_mem c h)
    simp only [List.cons_append, splitAtText, List.isPrefixOf, beq_eq_false_iff_ne.mpr hc,
      Bool.false_and, Bool.false_eq_true, if_false]
    simp only [List.cons_append, List.append_assoc] at hrest ⊢
    rw [hrest]
    rfl

/-- A key of the file: no blank, no line end, no comment. -/
def IsPolicyKey (key : Bytes) : Prop := InLine key ∧ (32 : UInt8) ∉ key ∧ key ≠ [] ∧ key.head? ≠ some 35

/-- A written line sets its key to its value. -/
theorem loadPolicyLine_policyLine {key : String} {val : Bytes} (hkey : IsPolicyKey (lit key))
    (hval : InLine val) (p : McPolicy) :
    loadPolicyLine p (policyLine key val) = setPolicyKey p (lit key) val := by
  obtain ⟨hline, hblank, hne, hhead⟩ := hkey
  have htext : InLine (lit key ++ lit " = " ++ val) :=
    (hline.append (by simp [InLine, lit])).append hval
  -- no NUL in it, and the newline is its last byte
  have hcstr : cstr (policyLine key val) = policyLine key val := by
    refine List.takeWhile_eq_self_iff.mpr fun c hc => ?_
    rcases List.mem_append.mp hc with h | h
    · simpa using (htext c h).1
    · rw [List.mem_singleton.mp h]
      rfl
  have hcut : (policyLine key val).takeWhile (fun c => c != 13 && c != 10) =
      lit key ++ lit " = " ++ val := by
    rw [policyLine, List.takeWhile_append_of_pos fun c hc => by simp [htext c hc]]
    simp
  -- the first ` = ` is the one that was written: the key has no blank
  have hsplit : splitAtText (lit " = ") (lit key ++ lit " = " ++ val) = some (lit key, val) :=
    splitAtText_append (a := 32) hblank val
  have hhead' : (lit key ++ lit " = " ++ val).head? ≠ some 35 := by
    rwa [List.append_assoc, List.head?_append_of_ne_nil _ hne]
  simp only [loadPolicyLine, hcstr, hcut, hsplit, if_neg hhead']

/-- The note at the top of the file sets nothing: it has no ` = `. -/
theorem loadPolicyLine_note (p : McPolicy) : loadPolicyLine p policyNote = p := by
  have hsplit : splitAtText (lit " = ")
      ((cstr policyNote).takeWhile fun c => c != 13 && c != 10) = none := by decide
  simp only [loadPolicyLine, hsplit]

/-! ## The lists of the file -/

/-- The five keys of the file. -/
theorem isPolicyKey_keys : ∀ key ∈ ["version", "skipped", "room", "block", "block_key"],
    IsPolicyKey (lit key) := by
  intro key hkey
  simp only [List.mem_cons, List.not_mem_nil, or_false] at hkey
  rcases hkey with rfl | rfl | rfl | rfl | rfl
  all_goals exact ⟨by simp [InLine, lit], by decide, by decide, by decide⟩

/-- A room has no control character in it. -/
theorem isRoomValue_inLine {v : Bytes} (h : isRoomValue v = true) : InLine v ∧ v.length ≤ 31 := by
  simp only [isRoomValue, Bool.and_eq_true, decide_eq_true_eq, List.all_eq_true] at h
  obtain ⟨⟨⟨⟨-, hlen⟩, -⟩, -⟩, hbytes⟩ := h
  refine ⟨fun c hc => ?_, by simp only [mcRoomNameLen] at hlen; omega⟩
  have hblank := (hbytes c hc).1
  refine ⟨?_, ?_, ?_⟩
  all_goals
    rintro rfl
    exact absurd hblank (by decide)

/-- A name has no NUL; its line ends are what the save looks for. -/
theorem isNameValue_inLine {v : Bytes} (h : isNameValue v = true) (heol : hasNoEol v = true) :
    InLine v ∧ v.length ≤ 31 := by
  simp only [isNameValue, Bool.and_eq_true, decide_eq_true_eq, List.all_eq_true] at h
  simp only [hasNoEol, List.all_eq_true, Bool.and_eq_true] at heol
  refine ⟨fun c hc => ?_, by have := h.1.2; simp only [mcBlacklistNameLen] at this; omega⟩
  have hzero := h.2 c hc
  have hends := heol c hc
  simp only [bne_iff_ne] at hzero hends
  exact ⟨hzero, hends.1, hends.2⟩

/-- The lines of the rooms append the rooms, as long as there is a place for them. -/
theorem foldl_rooms (rooms : List Bytes) (p : McPolicy) (hrooms : ∀ v ∈ rooms, isRoomValue v = true)
    (hlen : p.rooms.length + rooms.length ≤ mcPolicyMaxRooms) :
    (rooms.map (policyLine "room")).foldl loadPolicyLine p = { p with rooms := p.rooms ++ rooms } := by
  induction rooms generalizing p with
  | nil => simp
  | cons v rooms ih =>
    obtain ⟨hline, hshort⟩ := isRoomValue_inLine (hrooms v List.mem_cons_self)
    simp only [List.length_cons] at hlen
    have hput : setPolicyKey p (lit "room") v = { p with rooms := p.rooms ++ [v] } := by
      -- the array holds every name that the wire lets through
      have hcut : snprintfS mcRoomNameLen v = v := List.take_of_length_le hshort
      rw [setPolicyKey, if_neg (by decide), if_neg (by decide), if_pos rfl,
        if_pos ⟨by omega, Nat.lt_succ_of_le hshort⟩, hcut]
    rw [List.map_cons, List.foldl_cons, loadPolicyLine_policyLine (isPolicyKey_keys _ (by simp)) hline, hput,
      ih _ (fun w hw => hrooms w (List.mem_cons_of_mem v hw)) (by simp; omega)]
    simp

/-- The same for the names without a line end. -/
theorem foldl_names (names : List Bytes) (p : McPolicy) (hnames : ∀ v ∈ names, isNameValue v = true)
    (heol : ∀ v ∈ names, hasNoEol v = true) (hlen : p.names.length + names.length ≤ mcPolicyMaxBlocks) :
    (names.map (policyLine "block")).foldl loadPolicyLine p = { p with names := p.names ++ names } := by
  induction names generalizing p with
  | nil => simp
  | cons v names ih =>
    have hv := hnames v List.mem_cons_self
    obtain ⟨hline, hshort⟩ := isNameValue_inLine hv (heol v List.mem_cons_self)
    simp only [List.length_cons] at hlen
    have hput : setPolicyKey p (lit "block") v = { p with names := p.names ++ [v] } := by
      have hcut : snprintfS mcBlacklistNameLen v = v := List.take_of_length_le hshort
      have hne : v ≠ [] := by
        rintro rfl
        cases hv
      rw [setPolicyKey, if_neg (by decide), if_neg (by decide), if_neg (by decide), if_pos rfl,
        if_pos ⟨by omega, hne, Nat.lt_succ_of_le hshort⟩, hcut]
    rw [List.map_cons, List.foldl_cons, loadPolicyLine_policyLine (isPolicyKey_keys _ (by simp)) hline, hput,
      ih _ (fun w hw => hnames w (List.mem_cons_of_mem v hw))
        (fun w hw => heol w (List.mem_cons_of_mem v hw)) (by simp; omega)]
    simp

/-- Hex digits stay on their line. -/
theorem inLine_hexText (b : Bytes) : InLine (hexText b) := by
  intro c hc
  refine ⟨?_, ?_, ?_⟩
  all_goals
    rintro rfl
    exact absurd (mem_hexText hc) (by decide)

/-- And for the blocked keys, which the file has in hex. -/
theorem foldl_keys (keys : List Bytes) (p : McPolicy) (hkeys : ∀ v ∈ keys, isKeyValue v = true)
    (hlen : p.keys.length + keys.length ≤ mcPolicyMaxBlocks) :
    (keys.map fun k => policyLine "block_key" (hexText k)).foldl loadPolicyLine p =
      { p with keys := p.keys ++ keys } := by
  induction keys generalizing p with
  | nil => simp
  | cons v keys ih =>
    have hv : v.length = 32 := by simpa [isKeyValue] using hkeys v List.mem_cons_self
    simp only [List.length_cons] at hlen
    have hput : setPolicyKey p (lit "block_key") (hexText v) = { p with keys := p.keys ++ [v] } := by
      have hhex : hex2bin 32 (hexText v) = some v := hex2bin_hexText (by omega)
      rw [setPolicyKey, if_neg (by decide), if_neg (by decide), if_neg (by decide), if_neg (by decide),
        if_pos rfl, hhex]
      simp only [Option.filter, hv, beq_self_eq_true, if_true]
      rw [if_pos (by omega)]
    rw [List.map_cons, List.foldl_cons,
      loadPolicyLine_policyLine (isPolicyKey_keys _ (by simp)) (inLine_hexText v), hput,
      ih _ (fun w hw => hkeys w (List.mem_cons_of_mem v hw)) (by simp; omega)]
    simp

/-- Decimal digits do. -/
theorem inLine_decimal (n : Nat) : InLine (decimal n) := by
  intro c hc
  have hdigit := isDigitOf_ten (isDigitOf_of_mem_numeral (by omega) (by omega) hc)
  refine ⟨?_, ?_, ?_⟩
  all_goals
    rintro rfl
    exact absurd hdigit (by decide)

/-- What is written for a key is one line. -/
theorem isLine_policyLine {key : String} {val : Bytes} (hkey : IsPolicyKey (lit key)) (hval : InLine val) :
    IsLine (policyLine key val) := by
  refine ⟨lit key ++ lit " = " ++ val, rfl, fun hmem => ?_⟩
  have hline : InLine (lit key ++ lit " = " ++ val) := (hkey.1.append (by simp [InLine, lit])).append hval
  exact (hline 10 hmem).2.2 rfl

/-- A written line fits the buffer it is read into. -/
theorem fits_policyLine {key : String} {val : Bytes} (hkey : (lit key).length ≤ 9) (hval : val.length ≤ 64) :
    (policyLine key val).length < policyBuf := by
  have hsep : (lit " = ").length = 3 := rfl
  simp only [policyLine, List.length_append, List.length_singleton, hsep, policyBuf]
  omega

/-- A count is written without a sign. -/
theorem intDecimal_of_nonneg {n : Int} (h : 0 ≤ n) : intDecimal n = decimal n.natAbs := by
  rw [intDecimal, if_neg (by omega)]

/-- The two lines in front of the lists. -/
theorem load_header {p q : McPolicy} (hpos : 0 ≤ p.skipped) (hlt : p.skipped < 2 ^ 31) :
    loadPolicyLine (loadPolicyLine q (policyLine "version" (u32Text p.version)))
        (policyLine "skipped" (intDecimal p.skipped)) =
      { q with version := p.version, skipped := p.skipped } := by
  have hversion : setPolicyKey q (lit "version") (u32Text p.version) = { q with version := p.version } := by
    rw [setPolicyKey, if_pos rfl, parseU32_u32Text]
  -- the count is below 2^31, so it is read back through 32 bits unchanged
  have hnat : (UInt32.ofNat p.skipped.natAbs).toNat = p.skipped.natAbs := by
    rw [UInt32.toNat_ofNat']
    omega
  have htext : intDecimal p.skipped = u32Text (UInt32.ofNat p.skipped.natAbs) := by
    rw [intDecimal_of_nonneg hpos, u32Text, hnat]
  have hint : (UInt32.ofNat p.skipped.natAbs).toBitVec.toInt = p.skipped := by
    rw [BitVec.toInt_eq_toNat_of_lt]
    · rw [UInt32.toNat_toBitVec, hnat]
      omega
    · rw [UInt32.toNat_toBitVec, hnat]
      omega
  have hskipped : setPolicyKey { q with version := p.version } (lit "skipped") (intDecimal p.skipped) =
      { q with version := p.version, skipped := p.skipped } := by
    rw [htext, setPolicyKey, if_neg (by decide), if_pos rfl, parseU32_u32Text]
    simp only [hint]
  have hline : InLine (u32Text p.version) := inLine_decimal _
  have hline' : InLine (intDecimal p.skipped) := intDecimal_of_nonneg hpos ▸ inLine_decimal _
  rw [loadPolicyLine_policyLine (isPolicyKey_keys _ (by simp)) hline, hversion,
    loadPolicyLine_policyLine (isPolicyKey_keys _ (by simp)) hline', hskipped]

/-- What a reader makes of a kept set: all of it but the names that hold a line end. -/
def McPolicy.kept (p : McPolicy) : McPolicy := { p with names := p.names.filter hasNoEol }

/-- Every line of a kept set is one line, and short. -/
theorem policySavedLines_lines {p : McPolicy} (h : p.FromWire) (hlt : p.skipped < 2 ^ 31) :
    ∀ line ∈ policySavedLines p, IsLine line ∧ line.length < policyBuf := by
  have hline : ∀ (key : String) (val : Bytes), key ∈ ["version", "skipped", "room", "block", "block_key"] →
      InLine val → val.length ≤ 64 → IsLine (policyLine key val) ∧ (policyLine key val).length < policyBuf := by
    intro key val hkey hval hlen
    refine ⟨isLine_policyLine (isPolicyKey_keys key hkey) hval, fits_policyLine ?_ hlen⟩
    simp only [List.mem_cons, List.not_mem_nil, or_false] at hkey
    rcases hkey with rfl | rfl | rfl | rfl | rfl
    all_goals decide
  intro line hmem
  simp only [policySavedLines, List.mem_append, List.mem_cons, List.not_mem_nil, or_false,
    List.mem_map] at hmem
  -- note, version, count, then rooms, names and keys
  rcases hmem with (((rfl | rfl | rfl) | ⟨v, hv, rfl⟩) | ⟨v, hv, rfl⟩) | ⟨v, hv, rfl⟩
  · refine ⟨⟨policyNote.dropLast, ?_, ?_⟩, ?_⟩
    all_goals decide
  · refine hline _ _ (by simp) (inLine_decimal _) ((length_u32Text p.version).trans (by omega))
  · rw [intDecimal_of_nonneg h.skipped]
    have hpos := h.skipped
    have hten : (decimal p.skipped.natAbs).length ≤ 10 :=
      length_numeral_le (by omega) (by omega) (by omega)
    exact hline _ _ (by simp) (inLine_decimal _) (by omega)
  · obtain ⟨hval, hlen⟩ := isRoomValue_inLine (h.rooms v hv)
    exact hline _ _ (by simp) hval (by omega)
  · obtain ⟨hname, heol⟩ := List.mem_filter.mp hv
    obtain ⟨hval, hlen⟩ := isNameValue_inLine (h.names v hname) heol
    exact hline _ _ (by simp) hval (by omega)
  · have hlen : v.length = 32 := by simpa [isKeyValue] using h.keys v hv
    exact hline _ _ (by simp) (inLine_hexText v) (by rw [length_hexText]; omega)

/-- A set from the wire is read back from its file. -/
theorem readPolicy_configPolicySave {cfg : McConfig} (h : cfg.policy.FromWire)
    (hlt : cfg.policy.skipped < 2 ^ 31) : readPolicy (configPolicySave cfg) = cfg.policy.kept := by
  have hlines := policySavedLines_lines h hlt
  rw [readPolicy, configPolicySave,
    readPieces_flatten hlines _ (length_le_flatten fun line hline => (hlines line hline).1)]
  -- no more names than before, so all find a place
  have hnames : (cfg.policy.names.filter hasNoEol).length ≤ mcPolicyMaxBlocks :=
    (List.length_filter_le ..).trans h.namesLe
  simp only [policySavedLines, List.foldl_append, List.foldl_cons, List.foldl_nil, loadPolicyLine_note]
  rw [load_header h.skipped hlt, foldl_rooms _ _ h.rooms (by simpa [McPolicy.empty] using h.roomsLe),
    foldl_names _ _ (fun v hv => h.names v (List.mem_of_mem_filter hv)) (fun v hv => (List.mem_filter.mp hv).2)
      (by simpa [McPolicy.empty] using hnames),
    foldl_keys _ _ h.keys (by simpa [McPolicy.empty] using h.keysLe)]
  simp [McPolicy.empty, McPolicy.kept]

/-! ## The merge depends on the set's rooms only -/

section

variable {C : Crypto}

/-- The same configuration under another set. -/
@[reducible] def McConfig.withPolicy (cfg : McConfig) (q : McPolicy) : McConfig := { cfg with policy := q }

/-- Adding a channel does not look at the set. -/
theorem registerChannel_withPolicy (cfg : McConfig) (q : McPolicy) (name secret : Bytes) (derived : Bool) :
    registerChannel C (cfg.withPolicy q) name secret derived =
      (registerChannel C cfg name secret derived).map (·.withPolicy q) := by
  simp only [registerChannel]
  by_cases hlen : secret.length ≠ 16 ∧ secret.length ≠ 32
  · simp only [if_pos hlen, Option.map_none]
  simp only [if_neg hlen]
  by_cases hheld : (cfg.publicChannels.any fun ch => ch.holds secret) = true
  · simp only [if_pos hheld, Option.map_some]
  simp only [if_neg hheld]
  by_cases hfull : mcMaxPublicChannels ≤ cfg.publicChannels.length
  · simp only [if_pos hfull, Option.map_none]
  · simp only [if_neg hfull, Option.map_some]

/-- Nor does the channel of a room. -/
theorem registerRoomChannel_withPolicy (cfg : McConfig) (q : McPolicy) (name : Bytes) (hub : Bool) :
    registerRoomChannel C (cfg.withPolicy q) name hub = (registerRoomChannel C cfg name hub).withPolicy q := by
  simp only [registerRoomChannel, registerChannel_withPolicy]
  cases registerChannel C cfg name (hashtagKey C name) true with
  | none => rfl
  | some cfg' =>
    simp only [Option.map_some]
    by_cases hnew : (hub && decide (cfg.publicChannels.length < cfg'.publicChannels.length)) = true
    · simp only [if_pos hnew]
    · simp only [if_neg hnew]

/-- Nor does a room. -/
theorem addRoomEx_withPolicy (cfg : McConfig) (q : McPolicy) (val : Bytes) (hub : Bool) :
    addRoomEx C (cfg.withPolicy q) val hub = (addRoomEx C cfg val hub).map (·.withPolicy q) := by
  unfold addRoomEx
  cases roomName val with
  | none => rfl
  | some name =>
    simp only
    by_cases hheld : (cfg.rooms.any fun r => r.name == name) = true
    · simp only [if_pos hheld, Option.map_some]
    simp only [if_neg hheld]
    by_cases hfull : mcMaxRooms ≤ cfg.rooms.length
    · simp only [if_pos hfull, Option.map_none]
    · simp only [if_neg hfull, Option.map_some, Option.some.injEq]
      exact registerRoomChannel_withPolicy
        { cfg with rooms := cfg.rooms ++ [⟨name, hashtagKey C name, hub⟩] } q name hub

/-- So a room merges under any set alike. -/
theorem mergeRoom_withPolicy (cfg : McConfig) (q : McPolicy) (room : Bytes) :
    mergeRoom C (cfg.withPolicy q) room = (mergeRoom C cfg room).withPolicy q := by
  simp only [mergeRoom, addRoomEx_withPolicy]
  by_cases hserved : (cfg.rooms.any fun r => r.name == room) = true
  · simp only [if_pos hserved]
  simp only [if_neg hserved]
  cases addRoomEx C cfg room true with
  | none => rfl
  | some cfg' =>
    simp only [Option.map_some]
    by_cases hgrown : cfg.rooms.length < cfg'.rooms.length
    · simp only [if_pos hgrown]
    · simp only [if_neg hgrown]

/-- And so do all of them. -/
theorem foldl_mergeRoom_withPolicy (rooms : List Bytes) (cfg : McConfig) (q : McPolicy) :
    rooms.foldl (mergeRoom C) (cfg.withPolicy q) = (rooms.foldl (mergeRoom C) cfg).withPolicy q := by
  induction rooms generalizing cfg with
  | nil => rfl
  | cons room rooms ih => rw [List.foldl_cons, List.foldl_cons, mergeRoom_withPolicy, ih]

/-- A merge leaves the node's own entries exactly as they are. -/
theorem mergeRoom_own (cfg : McConfig) (room : Bytes) :
    (mergeRoom C cfg room).ownRooms = cfg.ownRooms ∧
      (mergeRoom C cfg room).ownChannels = cfg.ownChannels := by
  -- what is added carries the hub's mark, so the filters do not see it
  have hadd : ∀ cfg', addRoomEx C cfg room true = some cfg' →
      cfg'.ownRooms = cfg.ownRooms ∧ cfg'.ownChannels = cfg.ownChannels := by
    intro cfg' h
    obtain ⟨name, -, ⟨rfl, -⟩ | ⟨-, -, rfl⟩⟩ := addRoomEx_cases h
    · exact ⟨rfl, rfl⟩
    rcases registerRoomChannel_cases C
      { cfg with rooms := cfg.rooms ++ [⟨name, hashtagKey C name, true⟩] } name true with heq | ⟨-, heq⟩
    all_goals
      rw [heq]
      simp [McConfig.ownRooms, McConfig.ownChannels]
  unfold mergeRoom
  split
  · exact ⟨rfl, rfl⟩
  cases h : addRoomEx C cfg room true with
  | none => exact ⟨rfl, rfl⟩
  | some cfg' =>
    simp only
    split
    · exact hadd cfg' h
    · exact hadd cfg' h

/-- Neither does the whole merge touch them. -/
theorem configPolicyMerge_own (cfg : McConfig) :
    (configPolicyMerge C cfg).ownRooms = cfg.ownRooms ∧
      (configPolicyMerge C cfg).ownChannels = cfg.ownChannels := by
  have hdrop : (dropHub cfg).ownRooms = cfg.ownRooms ∧ (dropHub cfg).ownChannels = cfg.ownChannels := by
    simp [McConfig.ownRooms, McConfig.ownChannels, dropHub]
  -- room by room
  have hfold : ∀ (rooms : List Bytes) (c : McConfig), (rooms.foldl (mergeRoom C) c).ownRooms = c.ownRooms ∧
      (rooms.foldl (mergeRoom C) c).ownChannels = c.ownChannels := by
    intro rooms
    induction rooms with
    | nil => exact fun c => ⟨rfl, rfl⟩
    | cons room rooms ih =>
      intro c
      obtain ⟨hrooms, hchans⟩ := mergeRoom_own (C := C) c room
      obtain ⟨hrooms', hchans'⟩ := ih (mergeRoom C c room)
      exact ⟨hrooms'.trans hrooms, hchans'.trans hchans⟩
  rw [configPolicyMerge_eq]
  split
  · obtain ⟨hrooms, hchans⟩ := hfold cfg.policy.rooms (dropHub cfg)
    exact ⟨hrooms.trans hdrop.1, hchans.trans hdrop.2⟩
  · exact hdrop

/-! ## Across a restart -/

/-- The local settings of a configuration without a set of the hub: what a restart
has before it reads the kept set. The two counts are whatever the load left. -/
def McConfig.localPart (cfg : McConfig) (served skipped : Int) : McConfig :=
  { cfg with
    policy := .empty
    rooms := cfg.ownRooms
    publicChannels := cfg.ownChannels
    policyRooms := served
    policySkipped := skipped }

/-- A set with the same rooms and count merges into the local part as the set in force
did. -/
theorem configPolicyMerge_localPart (cfg : McConfig) (q : McPolicy) (served skipped : Int)
    (hrooms : q.rooms = cfg.policy.rooms) (hskipped : q.skipped = cfg.policy.skipped) :
    configPolicyMerge C (((configPolicyMerge C cfg).localPart served skipped).withPolicy q) =
      (configPolicyMerge C cfg).withPolicy q := by
  obtain ⟨hown, hchans⟩ := configPolicyMerge_own (C := C) cfg
  obtain ⟨rooms, chans, served', skipped', htables⟩ := configPolicyMerge_tables C cfg
  -- both merges start from the same tables
  have hstart : dropHub (((configPolicyMerge C cfg).localPart served skipped).withPolicy q) =
      (dropHub cfg).withPolicy q := by
    have hrooms' : (dropHub cfg).rooms = cfg.ownRooms := rfl
    have hchans' : (dropHub cfg).publicChannels = cfg.ownChannels := rfl
    have hfilter : (cfg.ownRooms.filter fun r => !r.hub) = cfg.ownRooms := by simp [McConfig.ownRooms]
    have hfilter' : (cfg.ownChannels.filter fun ch => !ch.hub) = cfg.ownChannels := by
      simp [McConfig.ownChannels]
    simp only [dropHub, McConfig.withPolicy, McConfig.localPart, hown, hchans, hfilter, hfilter', hskipped]
    rw [htables]
    rfl
  -- the same switch, and the same rooms to merge
  have hswitch : (((configPolicyMerge C cfg).localPart served skipped).withPolicy q).backbonePolicy =
      cfg.backbonePolicy := by
    rw [htables]
    rfl
  have hq : (((configPolicyMerge C cfg).localPart served skipped).withPolicy q).policy.rooms =
      cfg.policy.rooms := hrooms
  rw [configPolicyMerge_eq C (((configPolicyMerge C cfg).localPart served skipped).withPolicy q), hswitch, hq,
    hstart, foldl_mergeRoom_withPolicy, configPolicyMerge_eq C cfg]
  split
  · rfl
  · rfl

/-- What the guard has filtered once stays. -/
theorem guardedPolicy_kept (name own : Bytes) (p : McPolicy) :
    guardedPolicy name (some own) (guardedPolicy name (some own) p).kept =
      (guardedPolicy name (some own) p).kept := by
  simp only [guardedPolicy, McPolicy.kept, List.filter_filter, Bool.and_self, McPolicy.mk.injEq, true_and,
    and_true]
  -- dropping names with a line end and dropping the node's own name commute
  refine List.filter_congr fun n _ => ?_
  cases configAsciiEq n name
  · simp
  · simp

/-- The guard only takes entries out. -/
theorem guardedPolicy_fromWire {p : McPolicy} (h : p.FromWire) (name : Bytes) (ownPub : Option Bytes) :
    (guardedPolicy name ownPub p).FromWire where
  rooms := h.rooms
  roomsLe := h.roomsLe
  names v hv := h.names v (List.mem_of_mem_filter hv)
  namesLe := (List.length_filter_le ..).trans h.namesLe
  keys v hv := h.keys v (List.mem_of_mem_filter hv)
  keysLe := (List.length_filter_le ..).trans h.keysLe
  skipped := h.skipped

/-- The restart, in full: the same configuration under the set without the names that
hold a line end. -/
theorem configPolicyLoad_save (cfg : McConfig) (own : Bytes) {p : McPolicy} (hp : Assembled p)
    (served skipped : Int) :
    configPolicyLoad C ((configSetPolicy C cfg p (some own)).localPart served skipped)
        (some (configPolicySave (configSetPolicy C cfg p (some own)))) (some own) =
      some ((configSetPolicy C cfg p (some own)).withPolicy (guardedPolicy cfg.name (some own) p).kept) := by
  obtain ⟨hwire, hversion, hskipped⟩ := hp.fromWire
  have hguarded := guardedPolicy_fromWire hwire cfg.name (some own)
  obtain ⟨rooms, chans, served', skipped', htables⟩ :=
    configPolicyMerge_tables C { cfg with policy := guardedPolicy cfg.name (some own) p }
  have hpolicy : (configSetPolicy C cfg p (some own)).policy = guardedPolicy cfg.name (some own) p := by
    rw [configSetPolicy, htables]
  have hname : (configSetPolicy C cfg p (some own)).name = cfg.name := by
    rw [configSetPolicy, htables]
  -- the file holds the guarded set
  have hread : readPolicy (configPolicySave (configSetPolicy C cfg p (some own))) =
      (guardedPolicy cfg.name (some own) p).kept := by
    rw [readPolicy_configPolicySave (hpolicy ▸ hguarded) (by rw [hpolicy]; exact hskipped), hpolicy]
  have hversion' : ¬(guardedPolicy cfg.name (some own) p).kept.version = 0 := hversion
  simp only [configPolicyLoad, Option.map_some, hread, if_neg hversion']
  -- the name guards the kept set once more, and the same rooms are merged
  have hmerge := configPolicyMerge_localPart (C := C)
    { cfg with policy := guardedPolicy cfg.name (some own) p } (guardedPolicy cfg.name (some own) p).kept
    served skipped rfl rfl
  have hset : ∀ c : McConfig, c.name = cfg.name →
      configSetPolicy C c (guardedPolicy cfg.name (some own) p).kept (some own) =
        configPolicyMerge C (c.withPolicy (guardedPolicy cfg.name (some own) p).kept) := by
    intro c hc
    have hguard : guardedPolicy c.name (some own) (guardedPolicy cfg.name (some own) p).kept =
        (guardedPolicy cfg.name (some own) p).kept := by
      rw [hc]
      exact guardedPolicy_kept cfg.name own p
    rw [configSetPolicy, hguard]
  rw [hset ((configSetPolicy C cfg p (some own)).localPart served skipped) hname]
  exact congrArg some hmerge

end

/-- Names that no left-out block matches are blocked as before. -/
theorem configIsBlacklisted_kept {cfg : McConfig} {name : Bytes}
    (h : ∀ n ∈ cfg.policy.names, hasNoEol n = false → configAsciiEq n name = false) :
    configIsBlacklisted (cfg.withPolicy cfg.policy.kept) name = configIsBlacklisted cfg name := by
  have hany : (cfg.policy.names.filter hasNoEol).any (fun n => configAsciiEq n name) =
      cfg.policy.names.any fun n => configAsciiEq n name := by
    rw [Bool.eq_iff_iff, List.any_eq_true, List.any_eq_true]
    constructor
    · rintro ⟨n, hn, heq⟩
      exact ⟨n, List.mem_of_mem_filter hn, heq⟩
    · rintro ⟨n, hn, heq⟩
      refine ⟨n, List.mem_filter.mpr ⟨hn, ?_⟩, heq⟩
      -- an entry that matches is not one of the left-out ones
      by_contra hne
      rw [h n hn (by simpa using hne)] at heq
      cases heq
  simp only [configIsBlacklisted, McPolicy.kept, hany]

/-- A set from POLICY pages, taken, saved, and read again after a restart into the same
local settings: version, count, rooms and keys are the same, and so are the block names
but for those with a line end. The tables and the blocked keys are the same, and the
blocked names for every name that no left-out block matches. -/
theorem policy_restored (C : Crypto) (cfg : McConfig) (own : Bytes) {p : McPolicy} (hp : Assembled p)
    (served skipped : Int) :
    let c := configSetPolicy C cfg p (some own)
    ∃ c', configPolicyLoad C (c.localPart served skipped) (some (configPolicySave c)) (some own) = some c' ∧
      c'.policy.version = c.policy.version ∧ c'.policy.skipped = c.policy.skipped ∧
      c'.policy.rooms = c.policy.rooms ∧ c'.policy.names = c.policy.names.filter hasNoEol ∧
      c'.policy.keys = c.policy.keys ∧ c'.rooms = c.rooms ∧ c'.publicChannels = c.publicChannels ∧
      (∀ pub, configIsKeyBlocked c' pub = configIsKeyBlocked c pub) ∧
      ∀ name, (∀ n ∈ c.policy.names, hasNoEol n = false → configAsciiEq n name = false) →
        configIsBlacklisted c' name = configIsBlacklisted c name := by
  intro c
  have hload := configPolicyLoad_save (C := C) cfg own hp served skipped
  -- the set in force is the guarded one
  have hpolicy : c.policy = guardedPolicy cfg.name (some own) p := by
    obtain ⟨rooms, chans, served', skipped', htables⟩ :=
      configPolicyMerge_tables C { cfg with policy := guardedPolicy cfg.name (some own) p }
    simp only [c, configSetPolicy, htables]
  rw [← hpolicy] at hload
  exact ⟨_, hload, rfl, rfl, rfl, rfl, rfl, rfl, rfl, fun _ => rfl, fun name h => configIsBlacklisted_kept h⟩

/-- A page with a room, and one with a block name of two lines. -/
def roomPage : Bytes := bbPolRoom :: 4 :: lit "#pra"

/-- A block name with a line feed in it, which the wire allows. -/
def twoLinePage : Bytes := bbPolBlockName :: 4 :: lit "A\nBC"

/-- The set of the pages `pages`, version 7. -/
def pagesSet (pages : List Bytes) : McPolicy :=
  pages.foldl McPolicy.addPage { McPolicy.empty with version := 7 }

/-- Pages that can be walked assemble into a set. -/
theorem assembled_pagesSet {pages : List Bytes} (hcount : pages.length ≤ bbPolMaxPages)
    (h : ∀ e ∈ pages, e.length ≤ bbMaxPage ∧ (policyWalk e none).1 = true) : Assembled (pagesSet pages) :=
  ⟨7, pages, by decide, hcount, h, rfl⟩

/-- The room of the one page is served again after the restart. -/
theorem policy_restored_room :
    ∃ c', configPolicyLoad (.ofTable [] []) ((configSetPolicy (.ofTable [] []) configDefaults
        (pagesSet [roomPage]) (some nodeKey)).localPart 0 0) (some (configPolicySave
          (configSetPolicy (.ofTable [] []) configDefaults (pagesSet [roomPage]) (some nodeKey))))
        (some nodeKey) = some c' ∧
      c'.policy.rooms = (configSetPolicy (.ofTable [] []) configDefaults (pagesSet [roomPage])
        (some nodeKey)).policy.rooms := by
  have hpages : ∀ e ∈ [roomPage], e.length ≤ bbMaxPage ∧ (policyWalk e none).1 = true := by decide
  obtain ⟨c', hload, -, -, hrooms, -⟩ := policy_restored (.ofTable [] []) configDefaults nodeKey
    (assembled_pagesSet (by decide) hpages) 0 0
  exact ⟨c', hload, hrooms⟩

/-- The block name of two lines is in force, and not after the restart. -/
theorem two_line_block_lost :
    Assembled (pagesSet [twoLinePage]) ∧
      configIsBlacklisted (configSetPolicy (.ofTable [] []) configDefaults (pagesSet [twoLinePage])
        (some nodeKey)) (lit "A\nBC") = true ∧
      (configPolicyLoad (.ofTable [] []) ((configSetPolicy (.ofTable [] []) configDefaults
        (pagesSet [twoLinePage]) (some nodeKey)).localPart 0 0) (some (configPolicySave
          (configSetPolicy (.ofTable [] []) configDefaults (pagesSet [twoLinePage]) (some nodeKey))))
        (some nodeKey)).map (fun c => (c.policy.names, configIsBlacklisted c (lit "A\nBC"))) =
          some ([], false) := by
  refine ⟨assembled_pagesSet (by decide) (by decide), by decide, by decide⟩

end Meshcore
