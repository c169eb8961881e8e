import MeshcoreRepeater.Config.Lists
import MeshcoreRepeater.KeyText

/-! # The keys of public channels

What `add_public_channel` takes: a key of 16 or 32 bytes, in hex or in base64, behind an
optional name. No text is a key in both forms.

* `keyText_iff`: the texts that are decoded to a key.
* `not_hexKey_and_base64Key`: the forms exclude each other.
* `addPublicChannel_exact`: what is added, and what is refused.
-/

namespace Meshcore

open ByteLib

variable {val name psk secret : Bytes}

/-- The value is cut at its first `:`, if it has one. -/
def KeySplit (val name psk : Bytes) : Prop :=
  (58 ∉ val ∧ name = [] ∧ psk = val) ∨ (58 ∉ name ∧ val = name ++ 58 :: psk)

/-- A length that a key may have. -/
def KeyLength (n : Nat) : Prop := n = 16 ∨ n = 32

/-- A key as 32 or 64 hex digits. -/
def HexKey (psk secret : Bytes) : Prop := (psk.length = 32 ∨ psk.length = 64) ∧ IsHex psk secret

/-- A key in base64. -/
def Base64Key (psk secret : Bytes) : Prop := IsBase64 psk secret ∧ KeyLength secret.length

/-- The text of a key. -/
def KeyText (psk secret : Bytes) : Prop := HexKey psk secret ∨ Base64Key psk secret

/-- The channel of a key, with what is in front of it as a name. -/
structure IsChannel (C : Crypto) (name secret : Bytes) (ch : McPubChannel) : Prop where
  named : ch.name = name.take (mcRoomNameLen - 1)
  stored : ch.secret.bytes = secret ++ List.replicate (32 - secret.length) 0
  counted : ch.secretLen.toNat = secret.length
  hashed : (C.sha256 secret).bytes.head? = some ch.hash
  derived : ch.derived = false
  hub : ch.hub = false

/-! ## Cutting the value -/

/-- Every value has a cut. -/
theorem exists_keySplit (val : Bytes) : ∃ name psk, KeySplit val name psk := by
  by_cases hcolon : 58 ∈ val
  · rcases List.eq_append_cons_of_mem hcolon with ⟨name, psk, hsplit, hname⟩
    exact ⟨name, psk, .inr ⟨hname, hsplit⟩⟩
  · exact ⟨[], val, .inl ⟨hcolon, rfl, rfl⟩⟩

/-- The key text as `add_public_channel` decodes it. -/
def decodeKey (psk : Bytes) : Option Bytes :=
  if (psk.length == 32 || psk.length == 64) && psk.all fun c => (hexval c).isSome then hex2bin 32 psk
  else base64Decode 32 psk

/-- What is in front of it, cut to a name's length. -/
theorem channelName_of_split (h : KeySplit val name psk) : channelName val = name.take (mcRoomNameLen - 1) := by
  rw [channelName]
  rcases h with ⟨hval, rfl, -⟩ | ⟨hname, rfl⟩
  -- without a `:` there is no name
  · have hno : val.contains 58 = false := by simpa using hval
    rw [hno]
    rfl
  -- the first one ends the name
  · have hyes : (name ++ 58 :: psk).contains 58 = true := by simp
    rw [hyes, if_pos rfl, List.takeWhile_append_of_pos]
    · simp
    · intro c hc
      have hne : c ≠ 58 := by
        rintro rfl
        exact hname hc
      simpa using hne

/-- What is behind it is decoded. -/
theorem channelSecret_of_split (h : KeySplit val name psk) : channelSecret val = decodeKey psk := by
  -- the key is what stands behind the first `:`, or all
  have hpsk : (if val.contains 58 then (val.dropWhile (· ≠ 58)).drop 1 else val) = psk := by
    rcases h with ⟨hval, -, rfl⟩ | ⟨hname, rfl⟩
    · have hno : psk.contains 58 = false := by simpa using hval
      rw [hno]
      rfl
    · have hyes : (name ++ 58 :: psk).contains 58 = true := by simp
      rw [hyes, if_pos rfl, List.dropWhile_append_of_pos]
      · simp
      · intro c hc
        have hne : c ≠ 58 := by
          rintro rfl
          exact hname hc
        simpa using hne
  simp only [channelSecret, hpsk, decodeKey]

/-! ## Both forms -/

/-- The lengths keep them apart. -/
theorem not_hexKey_and_base64Key {hex b64 : Bytes} (hhex : HexKey psk hex) (hb64 : Base64Key psk b64) : False := by
  have hlen := hb64.1.length_text
  rcases hhex.1 with h32 | h64
  · rcases hb64.2 with h | h
    · rw [h] at hlen
      omega
    · rw [h] at hlen
      omega
  · rcases hb64.2 with h | h
    · rw [h] at hlen
      omega
    · rw [h] at hlen
      omega

/-- The digits give 16 or 32 bytes. -/
theorem HexKey.keyLength (h : HexKey psk secret) : KeyLength secret.length := by
  have hlen := h.2.length_text
  rcases h.1 with h32 | h64
  · left
    omega
  · right
    omega

/-- In both forms. -/
theorem KeyText.keyLength (h : KeyText psk secret) : KeyLength secret.length := by
  rcases h with hhex | hb64
  · exact hhex.keyLength
  · exact hb64.2

/-- A key in hex has nothing but digits. -/
theorem all_digits_of_isHex (h : IsHex psk secret) : psk.all (fun c => (hexval c).isSome) = true := by
  rcases h with ⟨vs, hvs, -, htext, -⟩
  apply List.all_eq_true.mpr
  intro c hc
  -- upper-case digits are spelled alike
  have hmem : tolower c ∈ spelled hexAlphabet vs := by
    rw [← htext]
    exact List.mem_map_of_mem hc
  rcases List.mem_map.mp hmem with ⟨v, hv, hdigit⟩
  rw [hexval_of_digit (hvs v hv) hdigit.symm]
  rfl

/-- What is decoded to a key's length is the text of a key. -/
theorem keyText_iff : KeyText psk secret ↔ decodeKey psk = some secret ∧ KeyLength secret.length := by
  rw [decodeKey]
  constructor
  · intro h
    refine ⟨?_, h.keyLength⟩
    rcases h with hhex | hb64
    · -- hex is tried first
      have hdigits : ((psk.length == 32 || psk.length == 64) && psk.all fun c => (hexval c).isSome) = true := by
        rw [all_digits_of_isHex hhex.2, Bool.and_true]
        simpa using hhex.1
      have hfits : secret.length ≤ 32 := by
        rcases hhex.keyLength with h | h <;> omega
      rw [if_pos hdigits]
      exact hex2bin_iff.mpr ⟨hhex.2, hfits⟩
    · -- a key in base64 has not the length of one in hex
      have hlen := hb64.1.length_text
      have hlengths : psk.length = 24 ∨ psk.length = 44 := by
        rcases hb64.2 with h | h
        · rw [h] at hlen
          exact .inl hlen
        · rw [h] at hlen
          exact .inr hlen
      have hdigits : ¬((psk.length == 32 || psk.length == 64) && psk.all fun c => (hexval c).isSome) = true := by
        intro hboth
        simp only [Bool.and_eq_true, Bool.or_eq_true, beq_iff_eq] at hboth
        omega
      have hfits : secret.length ≤ 32 := by
        rcases hb64.2 with h | h <;> omega
      rw [if_neg hdigits]
      refine base64Decode_iff.mpr ⟨?_, hb64.1, hfits⟩
      rintro rfl
      simp at hlengths
  · rintro ⟨hdecoded, hlen⟩
    split at hdecoded
    · rename_i hdigits
      simp only [Bool.and_eq_true, Bool.or_eq_true, beq_iff_eq] at hdigits
      exact .inl ⟨hdigits.1, (hex2bin_iff.mp hdecoded).1⟩
    · exact .inr ⟨(base64Decode_iff.mp hdecoded).2.1, hlen⟩

/-! ## Adding a channel -/

/-- The channel made of a key is the key's. -/
theorem newChannel_isChannel (C : Crypto) (h : KeyLength secret.length) :
    IsChannel C name secret (newChannel C (name.take (mcRoomNameLen - 1)) secret false) := by
  -- a key fits its array, the rest of which is zero
  have hle : secret.length ≤ 32 := by
    rcases h with h | h <;> omega
  constructor
  · rw [newChannel, snprintfS, List.take_take, Nat.min_self]
  · show (Buf.ofBytes 32 secret).bytes = _
    simp only [Buf.ofBytes, Buf.blit, Buf.zero, List.take_zero, List.nil_append, List.drop_replicate, Nat.zero_add]
    apply List.take_of_length_le
    rw [List.length_append, List.length_replicate]
    omega
  · show (UInt8.ofNat secret.length).toNat = secret.length
    exact UInt8.toNat_ofNat_of_lt' (Nat.lt_of_le_of_lt hle (by decide))
  · show (C.sha256 secret).bytes.head? = some ((C.sha256 secret).bytes.headD 0)
    have hlen := (C.sha256 secret).length_eq
    cases hdigest : (C.sha256 secret).bytes with
    | nil =>
      rw [hdigest] at hlen
      cases hlen
    | cons b rest => rfl
  · rfl
  · rfl

/-- A key that is new and has its place becomes the last channel. -/
theorem addPublicChannel_of_keyText (C : Crypto) {cfg : McConfig} (hsplit : KeySplit val name psk)
    (hfree : cfg.publicChannels.length < mcMaxPublicChannels) (hkey : KeyText psk secret)
    (hnew : ∀ ch ∈ cfg.publicChannels, ch.holds secret = false) :
    ∃ ch, IsChannel C name secret ch ∧
      addPublicChannel C cfg val = some { cfg with publicChannels := cfg.publicChannels ++ [ch] } := by
  refine ⟨_, newChannel_isChannel C hkey.keyLength, ?_⟩
  rcases keyText_iff.mp hkey with ⟨hdecoded, hlen⟩
  have hgood : ¬(secret.length ≠ 16 ∧ secret.length ≠ 32) := by
    rintro ⟨h16, h32⟩
    rcases hlen with h | h
    · exact h16 h
    · exact h32 h
  -- no channel holds it
  have hnone : ¬(cfg.publicChannels.any fun ch => ch.holds secret) = true := by
    intro hany
    rcases List.any_eq_true.mp hany with ⟨ch, hmem, hholds⟩
    rw [hnew ch hmem] at hholds
    cases hholds
  simp only [addPublicChannel, channelSecret_of_split hsplit, hdecoded, channelName_of_split hsplit]
  rw [registerChannel, if_neg hgood, if_neg hnone, if_neg (Nat.not_le.mpr hfree)]

/-- Any other text is refused. -/
theorem addPublicChannel_of_not_keyText (C : Crypto) {cfg : McConfig} (hsplit : KeySplit val name psk)
    (hkey : ∀ secret, ¬KeyText psk secret) : addPublicChannel C cfg val = none := by
  rw [addPublicChannel, channelSecret_of_split hsplit]
  cases hdecoded : decodeKey psk with
  | none => rfl
  | some secret =>
    -- decoded, it has not the length of a key
    have hbad : secret.length ≠ 16 ∧ secret.length ≠ 32 := by
      constructor
      · intro h
        exact hkey secret (keyText_iff.mpr ⟨hdecoded, .inl h⟩)
      · intro h
        exact hkey secret (keyText_iff.mpr ⟨hdecoded, .inr h⟩)
    show registerChannel C cfg (channelName val) secret false = none
    rw [registerChannel, if_pos hbad]

/-! ## A key read back -/

/-- A key as `bin2hex` prints it. -/
theorem hexKey_hexText (h : KeyLength secret.length) : HexKey (hexText secret) secret := by
  constructor
  · rw [length_hexText]
    rcases h with h | h
    · left
      omega
    · right
      omega
  · exact hexPairs_iff.mp (hexPairs_hexText secret)

/-- With room for one key more, exactly the texts of keys add a channel: the key as it is
spelled, after the name. Hex and base64 spell no key together, a text spells one key only, and
what `bin2hex` prints is read back, with a name or without. -/
theorem addPublicChannel_exact (C : Crypto) :
    (∀ val, ∃ name psk, KeySplit val name psk) ∧
      (∀ (cfg : McConfig) (val name psk : Bytes), KeySplit val name psk →
        cfg.publicChannels.length < mcMaxPublicChannels →
        (∀ secret, KeyText psk secret → (∀ ch ∈ cfg.publicChannels, ch.holds secret = false) →
          ∃ ch, IsChannel C name secret ch ∧
            addPublicChannel C cfg val = some { cfg with publicChannels := cfg.publicChannels ++ [ch] }) ∧
        ((∀ secret, ¬KeyText psk secret) → addPublicChannel C cfg val = none)) ∧
      (∀ psk hex b64, HexKey psk hex → ¬Base64Key psk b64) ∧
      (∀ psk secret secret', KeyText psk secret → KeyText psk secret' → secret = secret') ∧
      ∀ (outsz : Nat) (secret : Bytes), KeyLength secret.length → secret.length * 2 < outsz →
        ∃ text, bin2hex outsz secret = some text ∧
          ∀ val name, KeySplit val name text → channelSecret val = some secret ∧ KeyText text secret := by
  refine ⟨exists_keySplit, ?_, fun psk hex b64 hhex hb64 => not_hexKey_and_base64Key hhex hb64, ?_, ?_⟩
  · intro cfg val name psk hsplit hfree
    constructor
    · intro secret hkey hnew
      exact addPublicChannel_of_keyText C hsplit hfree hkey hnew
    · intro hkey
      exact addPublicChannel_of_not_keyText C hsplit hkey
  · intro psk secret secret' hkey hkey'
    have hdecoded := (keyText_iff.mp hkey).1
    rw [(keyText_iff.mp hkey').1] at hdecoded
    exact (Option.some.inj hdecoded).symm
  · intro outsz secret hlen houtsz
    refine ⟨hexText secret, by rw [bin2hex, if_neg (by omega)], ?_⟩
    intro val name hsplit
    have hkey : KeyText (hexText secret) secret := .inl (hexKey_hexText hlen)
    refine ⟨?_, hkey⟩
    rw [channelSecret_of_split hsplit]
    exact (keyText_iff.mp hkey).1

/-- The public channel of the network, under a name of its own. -/
theorem addPublicChannel_exact_club :
    let secret := bytesBE 16 0x8b3387e9c5cdea6ac9e5edbaa115cd72
    let C := Crypto.ofTable
      [(secret, bytesBE 32 0x1155f1870f91778646972b7bde747d989cf9f95416b50829666036563365424d)] []
    ∃ ch, IsChannel C (lit "Club") secret ch ∧
      addPublicChannel C configDefaults (lit "Club:izOH6cXN6mrJ5e26oRXNcg==") =
        some { configDefaults with publicChannels := [ch] } := by
  intro secret C
  have hsplit : KeySplit (lit "Club:izOH6cXN6mrJ5e26oRXNcg==") (lit "Club") (lit "izOH6cXN6mrJ5e26oRXNcg==") :=
    .inr (by decide)
  -- 24 characters of base64 for 16 bytes
  have hkey : KeyText (lit "izOH6cXN6mrJ5e26oRXNcg==") secret := keyText_iff.mpr ⟨by decide, .inl (by decide)⟩
  have hadd := ((addPublicChannel_exact C).2.1 configDefaults _ _ _ hsplit (by decide)).1 secret hkey
  exact hadd (fun ch hch => absurd hch (List.not_mem_nil))

end Meshcore
