import MeshcoreRepeater.Config.ListFile
import MeshcoreRepeater.Mesh.Texts

/-! # The blacklist and the names on the air

`config_blacklist_add` trims the name it stores, `config_is_blacklisted` compares the name as
it was heard. `blacklist_effect_iff` says for which configurations and names adding and
removing do what they report.

* `configBlacklistAdd_spec`, `configBlacklistRemove_spec`: the two calls.
* `configEdited_blacklist`: the list in any configuration that calls lead to.
* `blacklist_effect_iff`: when they do what they report.
-/

namespace Meshcore

open ByteLib

variable {C : Crypto} {cfg cfg' : McConfig} {name : Bytes}

/-! ## What a call does -/

/-- The hub blocks the name, and the node takes its blocks. -/
def HubBlocks (cfg : McConfig) (name : Bytes) : Prop :=
  cfg.backbonePolicy = true ∧ ∃ n ∈ cfg.policy.names, configAsciiEq n name = true

/-- The name as it would be stored. -/
def cleanName (name : Bytes) : Bytes := trimName mcBlacklistNameLen name

/-- A name with something in it is blocked by an entry of the list or by the hub. -/
theorem configIsBlacklisted_iff (hname : name ≠ []) :
    configIsBlacklisted cfg name = true ↔ (∃ b ∈ cfg.blacklist, strcaseEq b name = true) ∨ HubBlocks cfg name := by
  have hne : name.isEmpty = false := by simpa using hname
  simp [configIsBlacklisted, HubBlocks, hne]

/-- A trimmed name that still matches was not trimmed. -/
theorem cleanName_of_strcaseEq (h : strcaseEq (cleanName name) name = true) : cleanName name = name := by
  have hlen : (cleanName name).length = name.length := by
    have hmap : (cleanName name).map tolower = name.map tolower := by simpa [strcaseEq] using h
    simpa using congrArg List.length hmap
  have hinfix : cleanName name <:+: name :=
    (List.rdropWhile_prefix _ _).isInfix.trans
      ((List.take_prefix _ _).isInfix.trans (List.dropWhile_suffix _).isInfix)
  exact hinfix.eq_of_length hlen

/-- Two names that equal a third but for case equal each other. -/
theorem strcaseEq_trans {a b c : Bytes} (h : strcaseEq a b = true) (h' : strcaseEq a c = true) :
    strcaseEq b c = true := by
  simp only [strcaseEq, beq_iff_eq] at h h' ⊢
  exact h.symm.trans h'

/-- A name of at most 31 bytes with more than blanks in it is stored as something. -/
theorem cleanName_ne_nil (hlen : name.length ≤ 31) (hword : ∃ c ∈ name, isBlankOrEol c = false) :
    cleanName name ≠ [] := by
  intro hnil
  rcases hword with ⟨c, hc, hblank⟩
  -- what is skipped in front and dropped behind is blank
  have hskip : c ∈ skipBlanks name := by
    have hsplit := List.takeWhile_append_dropWhile (p := isBlank) (l := name)
    rw [← hsplit] at hc
    rcases List.mem_append.mp hc with hfront | hrest
    · have hfrontBlank := List.mem_takeWhile_imp hfront
      simp [isBlankOrEol, hfrontBlank] at hblank
    · exact hrest
  have hcut : snprintfS mcBlacklistNameLen (skipBlanks name) = skipBlanks name := by
    apply List.take_of_length_le
    have hle := (List.dropWhile_suffix isBlank (l := name)).length_le
    exact hle.trans hlen
  rw [cleanName, trimName, hcut] at hnil
  have hall := List.rdropWhile_eq_nil_iff.mp hnil c hskip
  rw [hblank] at hall
  cases hall

/-- What `config_blacklist_add` does with a name that is not blank. -/
theorem configBlacklistAdd_spec (cfg : McConfig) (hclean : cleanName name ≠ []) :
    ((∃ b ∈ cfg.blacklist, strcaseEq b (cleanName name) = true) ∧ configBlacklistAdd cfg name = some (true, cfg)) ∨
      ((∀ b ∈ cfg.blacklist, strcaseEq b (cleanName name) = false) ∧
        ((mcMaxBlacklist ≤ cfg.blacklist.length ∧ configBlacklistAdd cfg name = none) ∨
          (cfg.blacklist.length < mcMaxBlacklist ∧ configBlacklistAdd cfg name =
            some (false, { cfg with blacklist := cfg.blacklist ++ [cleanName name] })))) := by
  have hcut : snprintfS mcBlacklistNameLen (trimName mcBlacklistNameLen name) = trimName mcBlacklistNameLen name := by
    apply List.take_of_length_le
    exact length_trimName _ _
  unfold configBlacklistAdd
  simp only [hcut]
  change trimName mcBlacklistNameLen name ≠ [] at hclean
  rw [if_neg hclean]
  -- held already, or no place, or stored
  split
  · rename_i hheld
    exact .inl ⟨by simpa [cleanName] using hheld, rfl⟩
  rename_i hfree
  refine .inr ⟨by simpa [cleanName] using hfree, ?_⟩
  split
  · rename_i hfull
    exact .inl ⟨hfull, rfl⟩
  · exact .inr ⟨by omega, rfl⟩

/-- `config_blacklist_remove` takes one entry out, and no more. -/
theorem configBlacklistRemove_spec (h : configBlacklistRemove cfg name = some cfg') :
    ∃ pre b post, cfg.blacklist = pre ++ b :: post ∧ strcaseEq b (cleanName name) = true ∧
      cfg' = { cfg with blacklist := pre ++ post } := by
  unfold configBlacklistRemove at h
  simp only at h
  split at h
  · rename_i hheld
    cases h
    rcases List.any_eq_true.mp hheld with ⟨b, hb, hmatch⟩
    obtain ⟨a, pre, post, -, ha, hlist, herase⟩ :=
      List.exists_of_eraseP (p := fun b => strcaseEq b (trimName mcBlacklistNameLen name)) hb hmatch
    exact ⟨pre, a, post, hlist, ha, by rw [herase]⟩
  · cases h

/-! ## When the calls take effect -/

/-- What the two calls promise: a name that was added is ignored as it is heard, one that was
removed is not, and nothing else leaves the list. -/
structure TakesEffect (cfg : McConfig) (name : Bytes) : Prop where
  add : ∀ already cfg', configBlacklistAdd cfg name = some (already, cfg') → configIsBlacklisted cfg' name = true
  remove : ∀ cfg', configBlacklistRemove cfg name = some cfg' → ¬ HubBlocks cfg' name →
    configIsBlacklisted cfg' name = false ∧
      ∃ pre b post, cfg.blacklist = pre ++ b :: post ∧ strcaseEq b (cleanName name) = true ∧
        cfg'.blacklist = pre ++ post

/-- The name is stored as it is heard, or it makes no difference; and one entry at most stands
for it. -/
structure HeardAsStored (cfg : McConfig) (name : Bytes) : Prop where
  add : cleanName name = name ∨ HubBlocks cfg name ∨ (∃ b ∈ cfg.blacklist, strcaseEq b name = true) ∨
    (mcMaxBlacklist ≤ cfg.blacklist.length ∧ ∀ b ∈ cfg.blacklist, strcaseEq b (cleanName name) = false)
  remove : HubBlocks cfg name ∨ (∀ b ∈ cfg.blacklist, strcaseEq b (cleanName name) = false) ∨
    cfg.blacklist.countP (fun b => strcaseEq b name) ≤ if cleanName name = name then 1 else 0

/-- When adding takes effect. -/
theorem add_iff (cfg : McConfig) (hname : name ≠ []) (hclean : cleanName name ≠ []) :
    (∀ already cfg', configBlacklistAdd cfg name = some (already, cfg') → configIsBlacklisted cfg' name = true) ↔
      cleanName name = name ∨ HubBlocks cfg name ∨ (∃ b ∈ cfg.blacklist, strcaseEq b name = true) ∨
        (mcMaxBlacklist ≤ cfg.blacklist.length ∧ ∀ b ∈ cfg.blacklist, strcaseEq b (cleanName name) = false) := by
  rcases configBlacklistAdd_spec cfg hclean with ⟨hheld, hadd⟩ | ⟨hfree, ⟨hfull, hadd⟩ | ⟨hroom, hadd⟩⟩
  all_goals rw [hadd]
  · -- an entry is there already: it is the name that was heard, or another one
    constructor
    · intro h
      rcases (configIsBlacklisted_iff hname).mp (h true cfg rfl) with hraw | hhub
      · exact .inr (.inr (.inl hraw))
      · exact .inr (.inl hhub)
    · rintro h already cfg' hres
      cases hres
      rw [configIsBlacklisted_iff hname]
      rcases h with hsame | hhub | hraw | ⟨-, hfree⟩
      · rw [hsame] at hheld
        exact .inl hheld
      · exact .inr hhub
      · exact .inl hraw
      · rcases hheld with ⟨b, hb, hmatch⟩
        rw [hfree b hb] at hmatch
        cases hmatch
  · -- refused
    constructor
    · intro _
      exact .inr (.inr (.inr ⟨hfull, hfree⟩))
    · rintro - already cfg' hres
      cases hres
  · -- stored at the end of the list
    constructor
    · intro h
      rcases (configIsBlacklisted_iff hname).mp (h false _ rfl) with ⟨b, hb, hmatch⟩ | hhub
      · rcases List.mem_append.mp hb with hold | hnew
        · exact .inr (.inr (.inl ⟨b, hold, hmatch⟩))
        · rw [List.mem_singleton.mp hnew] at hmatch
          exact .inl (cleanName_of_strcaseEq hmatch)
      · exact .inr (.inl hhub)
    · rintro h already cfg' hres
      cases hres
      rw [configIsBlacklisted_iff hname]
      rcases h with hsame | hhub | ⟨b, hb, hmatch⟩ | ⟨hfull, -⟩
      · refine .inl ⟨cleanName name, by simp, ?_⟩
        rw [hsame]
        exact strcaseEq_refl name
      · exact .inr hhub
      · exact .inl ⟨b, List.mem_append_left _ hb, hmatch⟩
      · omega

/-- The entries that match the name as heard, before and after one that matches the stored form
is taken out. -/
theorem countP_removed {pre post : List Bytes} {b : Bytes} (hmatch : strcaseEq b (cleanName name) = true) :
    (pre ++ b :: post).countP (fun b => strcaseEq b name) =
      (pre ++ post).countP (fun b => strcaseEq b name) + if cleanName name = name then 1 else 0 := by
  -- the entry taken out counts if it is the name as heard
  have hb : strcaseEq b name = decide (cleanName name = name) := by
    by_cases hsame : cleanName name = name
    · rw [hsame] at hmatch
      rw [hmatch, decide_eq_true hsame]
    · rw [decide_eq_false hsame, Bool.eq_false_iff]
      intro hraw
      exact hsame (cleanName_of_strcaseEq (strcaseEq_trans hmatch hraw))
  rw [List.countP_append, List.countP_append, List.countP_cons, hb]
  simp only [decide_eq_true_eq]
  omega

/-- When removing does. -/
theorem remove_iff (cfg : McConfig) (hname : name ≠ []) :
    (∀ cfg', configBlacklistRemove cfg name = some cfg' → ¬ HubBlocks cfg' name →
        configIsBlacklisted cfg' name = false ∧
          ∃ pre b post, cfg.blacklist = pre ++ b :: post ∧ strcaseEq b (cleanName name) = true ∧
            cfg'.blacklist = pre ++ post) ↔
      HubBlocks cfg name ∨ (∀ b ∈ cfg.blacklist, strcaseEq b (cleanName name) = false) ∨
        cfg.blacklist.countP (fun b => strcaseEq b name) ≤ if cleanName name = name then 1 else 0 := by
  have hnone : ∀ list : List Bytes, list.countP (fun b => strcaseEq b name) = 0 ↔
      ¬ ∃ b ∈ list, strcaseEq b name = true := by
    intro list
    rw [List.countP_eq_zero]
    simp
  constructor
  · intro h
    -- what the hub blocks stays blocked, and nothing is promised
    by_cases hhub : HubBlocks cfg name
    · exact .inl hhub
    right
    by_cases hheld : ∃ b ∈ cfg.blacklist, strcaseEq b (cleanName name) = true
    swap
    · left
      intro b hb
      rw [Bool.eq_false_iff]
      exact fun hmatch => hheld ⟨b, hb, hmatch⟩
    right
    have hany : (cfg.blacklist.any fun b => strcaseEq b (trimName mcBlacklistNameLen name)) = true := by
      rw [List.any_eq_true]
      exact hheld
    have hremove : configBlacklistRemove cfg name =
        some { cfg with
          blacklist := cfg.blacklist.eraseP fun b => strcaseEq b (trimName mcBlacklistNameLen name) } := if_pos hany
    obtain ⟨pre, b, post, hlist, hmatch, hafter⟩ := configBlacklistRemove_spec hremove
    obtain ⟨hfree, -⟩ := h _ hremove hhub
    rw [hafter, Bool.eq_false_iff, ne_eq, configIsBlacklisted_iff hname, not_or] at hfree
    -- after the call no entry matches
    have hzero := (hnone (pre ++ post)).mpr hfree.1
    rw [hlist, countP_removed hmatch, hzero, Nat.zero_add]
  · intro h cfg' hremove hhub
    obtain ⟨pre, b, post, hlist, hmatch, rfl⟩ := configBlacklistRemove_spec hremove
    refine ⟨?_, pre, b, post, hlist, hmatch, rfl⟩
    rw [Bool.eq_false_iff, ne_eq, configIsBlacklisted_iff hname, not_or]
    refine ⟨?_, hhub⟩
    rcases h with hblocks | hfree | hcount
    · exact absurd hblocks hhub
    · rw [hlist] at hfree
      rw [hfree b (by simp)] at hmatch
      cases hmatch
    · rw [hlist, countP_removed hmatch] at hcount
      exact (hnone (pre ++ post)).mp (by omega)

/-- For every configuration and every name of 1 to 31 bytes that are not all blank. -/
theorem blacklist_effect_iff (cfg : McConfig) {name : Bytes} (hlen : 1 ≤ name.length ∧ name.length ≤ 31)
    (hword : ∃ c ∈ name, isBlankOrEol c = false) : TakesEffect cfg name ↔ HeardAsStored cfg name := by
  have hname : name ≠ [] := by
    rintro rfl
    simp at hlen
  have hadd := add_iff cfg hname (cleanName_ne_nil hlen.2 hword)
  have hremove := remove_iff cfg hname
  constructor
  · intro h
    exact ⟨hadd.mp h.add, hremove.mp h.remove⟩
  · intro h
    exact ⟨hadd.mpr h.add, hremove.mpr h.remove⟩

/-- A name of one word. -/
theorem blacklist_effect_iff_word :
    TakesEffect configDefaults (lit "Spammer") ↔ HeardAsStored configDefaults (lit "Spammer") :=
  blacklist_effect_iff configDefaults (by decide) ⟨83, by decide, by decide⟩

/-- A sender with a blank behind its name: the call says that it was added, and the next message
of the same sender passes. -/
theorem trailingBlank_passes :
    (∃ cfg', configBlacklistAdd configDefaults (lit "Spammer ") = some (false, cfg') ∧
      configIsBlacklisted cfg' (grpSenderName (replyPlain (lit "Spammer ") (lit "hi") 0) mcBlacklistNameLen) = false) ∧
      grpSenderName (replyPlain (lit "Spammer ") (lit "hi") 0) mcBlacklistNameLen = lit "Spammer " := by
  refine ⟨⟨{ configDefaults with blacklist := [lit "Spammer"] }, rfl, ?_⟩, ?_⟩
  · decide
  · decide

/-! ## After any calls -/

/-- Every entry was trimmed when it was stored, and no two of them differ in case alone. -/
theorem configEdited_blacklist (C : Crypto) (edits : List ConfigEdit) :
    NameList noName mcMaxBlacklist (configEdited C edits).blacklist := by
  have hset : ∀ (c : McConfig) (key val : Bytes), NameList noName mcMaxBlacklist c.blacklist →
      NameList noName mcMaxBlacklist ((configSet C c key val).toOption.getD c).blacklist := by
    intro c key val hc
    unfold configSet
    split
    · rename_i k _
      have hlist := congrArg NodeLists.blacklist (setKey_lists C c k val)
      change ((setKey C c k val).toOption.getD c).blacklist = (k.addTo C val c.lists).blacklist at hlist
      rw [hlist]
      cases k with
      | blacklist => exact hc.add val
      | _ => exact hc
    · exact hc
  -- merging and ensuring channels leave the list
  have hmerge : ∀ c : McConfig, (configPolicyMerge C c).blacklist = c.blacklist := by
    intro c
    obtain ⟨rooms, chans, served, skipped, heq⟩ := configPolicyMerge_tables C c
    rw [heq]
  have hping : ∀ c : McConfig, (configEnsurePingChannel C c).blacklist = c.blacklist := by
    intro c
    obtain ⟨chans, heq⟩ := configEnsurePingChannel_tables C c
    rw [heq]
  have hlines : ∀ (lines : List Bytes) (c : McConfig), NameList noName mcMaxBlacklist c.blacklist →
      NameList noName mcMaxBlacklist (lines.foldl (loadLine C) c).blacklist := by
    intro lines
    induction lines with
    | nil => exact fun c hc => hc
    | cons line lines ih =>
      intro c hc
      apply ih
      unfold loadLine
      split
      · exact hset c _ _ hc
      · exact hc
  refine Runs.run_invariant (fun c : McConfig => NameList noName mcMaxBlacklist c.blacklist) ?_ ?_ edits
  · intro c e hc
    cases e with
    | blacklistAdd name =>
      show NameList noName mcMaxBlacklist (((configBlacklistAdd c name).map Prod.snd).getD c).blacklist
      rw [configBlacklistAdd_getD]
      exact hc.add name
    | blacklistRemove name =>
      show NameList noName mcMaxBlacklist ((configBlacklistRemove c name).getD c).blacklist
      unfold configBlacklistRemove
      simp only
      split
      · exact hc.eraseP _
      · exact hc
    | call x =>
      cases x with
      | set key val => exact hset c key val hc
      | load file =>
        show NameList noName mcMaxBlacklist (configLoad C c file).blacklist
        unfold configLoad
        simp only
        rw [hmerge, hping]
        cases file with
        | none => exact hc
        | some file => exact hlines _ _ (.nil rfl)
      | setPolicy p ownPub =>
        show NameList noName mcMaxBlacklist (configSetPolicy C c p ownPub).blacklist
        rw [configSetPolicy, hmerge]
        exact hc
      | policyLoad file ownPub =>
        show NameList noName mcMaxBlacklist ((configPolicyLoad C c file ownPub).getD c).blacklist
        unfold configPolicyLoad
        cases file.map readPolicy with
        | none => exact hc
        | some p =>
          simp only
          split
          · exact hc
          · rw [Option.getD_some, configSetPolicy, hmerge]
            exact hc
      | save => exact hc
  · exact .nil rfl

/-- So one entry at most stands for a name, and only a name with blanks at its ends is missed. -/
theorem heardAsStored_configEdited (C : Crypto) (edits : List ConfigEdit) {name : Bytes}
    (hclean : cleanName name = name) : HeardAsStored (configEdited C edits) name where
  add := .inl hclean
  remove := by
    right
    right
    rw [if_pos hclean]
    have hapart := (configEdited_blacklist C edits).apart
    generalize (configEdited C edits).blacklist = list at hapart
    induction list with
    | nil => simp
    | cons b list ih =>
      rw [List.pairwise_cons] at hapart
      rw [List.countP_cons]
      by_cases hmatch : strcaseEq b name = true
      swap
      · rw [if_neg hmatch]
        exact ih hapart.2
      -- a second match would match the first
      have hnone : list.countP (fun b => strcaseEq b name) = 0 := by
        rw [List.countP_eq_zero]
        intro t ht hsecond
        have hsame := strcaseEq_trans (strcaseEq_comm b name ▸ hmatch) (strcaseEq_comm t name ▸ hsecond)
        rw [hapart.1 t ht] at hsame
        cases hsame
      rw [hnone, if_pos hmatch]

end Meshcore
