import MeshcoreRepeater.Advert

/-! # What the signature of an advert covers

`mc_advert_verify` checks the signature on at most `MC_MAX_ADVERT_DATA` bytes of
`app_data`, while the payload may hold 84 of them and the readers see them all. Up
to 32 bytes an accepted advert is authenticated as a whole; beyond that the rest
of the payload is nobody's word.

* `advert_payload_ext`: an advert is its key, its timestamp, its signature and its `app_data`.
* `verifiedWhole_iff`: a long advert is accepted on a signature of its first bytes.
* `authenticatedWhole_iff`: authenticated as a whole, exactly up to 32 bytes.
-/

namespace Meshcore

set_option maxRecDepth 8000

open ByteLib

/-! ## The whole message -/

/-- What a signature that covers the advert as a whole is on: key, timestamp and the
entire rest of the payload. -/
def advertWholeMessage (payload : Bytes) : Bytes :=
  advertPub payload ++ wrU32le (advertTimestamp payload) ++ advertAppData payload

/-- The verifier sees a whole advert when it is short. -/
theorem advertSignedMessage_of_short {payload : Bytes} (h : payload.length ≤ 132) :
    advertSignedMessage payload = advertWholeMessage payload := by
  have happ : (advertAppData payload).length ≤ mcMaxAdvertData := by
    simp only [advertAppData, List.length_drop, advDataOff, mcMaxAdvertData]
    omega
  rw [advertSignedMessage, advertWholeMessage, List.take_of_length_le happ]

/-- A longer one it cuts. -/
theorem advertSignedMessage_ne_of_long {payload : Bytes} (h : 132 < payload.length) :
    advertSignedMessage payload ≠ advertWholeMessage payload := by
  intro heq
  have hlen := congrArg List.length heq
  simp only [advertSignedMessage, advertWholeMessage, advertAppData, List.length_append,
    List.length_take, List.length_drop, advDataOff, mcMaxAdvertData] at hlen
  omega

theorem length_advertSignedMessage (payload : Bytes) : (advertSignedMessage payload).length ≤ 68 := by
  simp only [advertSignedMessage, advertPub, List.length_append, List.length_take, length_wrU32le,
    mcMaxAdvertData]
  omega

/-- A payload is its key, its timestamp, its signature and its `app_data`. -/
theorem advert_payload_eq (payload : Bytes) :
    payload = payload.take 32 ++ ((payload.drop 32).take 4 ++
      ((payload.drop 36).take 64 ++ payload.drop 100)) := by
  have h1 : (payload.drop 36).take 64 ++ payload.drop 100 = payload.drop 36 := by
    rw [show payload.drop 100 = (payload.drop 36).drop 64 by rw [List.drop_drop]]
    exact List.take_append_drop 64 _
  have h2 : (payload.drop 32).take 4 ++ payload.drop 36 = payload.drop 32 := by
    rw [show payload.drop 36 = (payload.drop 32).drop 4 by rw [List.drop_drop]]
    exact List.take_append_drop 4 _
  rw [h1, h2, List.take_append_drop]

/-- Adverts with one key, one timestamp, one signature and one `app_data` are one
payload. -/
theorem advert_payload_ext {a b : Bytes} (ha : advDataOff ≤ a.length) (hb : advDataOff ≤ b.length)
    (hpub : advertPub a = advertPub b) (hts : advertTimestamp a = advertTimestamp b)
    (hsig : advertSig a = advertSig b) (happ : advertAppData a = advertAppData b) : a = b := by
  simp only [advDataOff] at ha hb
  have hword : (a.drop 32).take 4 = (b.drop 32).take 4 := by
    have hread : ∀ p : Bytes, 36 ≤ p.length →
        wrU32le (advertTimestamp p) = (p.drop 32).take 4 := by
      intro p hp
      have hlen : ((p.drop 32).take 4).length = 4 := by simp; omega
      rw [← wrU32le_rdU32le hlen, advertTimestamp, advTsOff]
      congr 1
      simp [rdU32le, List.getD_eq_getElem?_getD]
    rw [← hread a (by omega), ← hread b (by omega), hts]
  rw [advert_payload_eq a, advert_payload_eq b, hword]
  simp only [advertPub, advertSig, advSigOff, advertAppData, advDataOff] at hpub hsig happ
  rw [hpub, hsig, happ]

/-! ## Authenticated as a whole -/

/-- What is read from an advert: type and name, location, and the hash that tells
duplicates. -/
def advertReading (C : Crypto) (p : McPacket) (namesz : Nat) :
    Option (UInt8 × Bytes) × Option (ℚ × ℚ) × Bytes :=
  (mcAdvertExtract p namesz, mcAdvertExtractLocation p, pktCalcHash C p)

/-- Acceptance means that Ed25519 verified the signature on the entire payload. -/
def VerifiedWhole (p : McPacket) : Prop :=
  ∀ C pub, mcAdvertVerify C p = some pub →
    C.cryptoSignOpen pub (advertSig p.payload) (advertWholeMessage p.payload) = true

/-- Two adverts are authenticated as a whole, and so cannot be told apart by what
the signature does not cover. -/
structure AuthenticatedWhole (p q : McPacket) : Prop where
  first : VerifiedWhole p
  second : VerifiedWhole q
  /-- one key, timestamp and signature, valid on a single message, is one reading -/
  same : ∀ C namesz, mcAdvertVerify C p ≠ none → mcAdvertVerify C q ≠ none →
    advertPub p.payload = advertPub q.payload →
    advertTimestamp p.payload = advertTimestamp q.payload →
    advertSig p.payload = advertSig q.payload →
    (∀ msg msg', C.cryptoSignOpen (advertPub p.payload) (advertSig p.payload) msg = true →
      C.cryptoSignOpen (advertPub p.payload) (advertSig p.payload) msg' = true → msg = msg') →
    advertReading C p namesz = advertReading C q namesz

/-- The signature check of an accepted advert, on the message it is made on. -/
theorem mcAdvertVerify_open {C : Crypto} {p : McPacket} {pub : Bytes}
    (h : mcAdvertVerify C p = some pub) :
    advDataOff ≤ p.payload.length ∧ pub = advertPub p.payload ∧
      C.cryptoSignOpen (advertPub p.payload) (advertSig p.payload)
        (advertSignedMessage p.payload) = true := by
  obtain ⟨-, hlen, hpub, hver⟩ := mcAdvertVerify_some h
  refine ⟨hlen, hpub, ?_⟩
  unfold mcIdentityVerify at hver
  split at hver
  · cases hver
  · exact hver

/-- A long advert is accepted on a signature of its first bytes alone. -/
theorem verifiedWhole_iff {p : McPacket} (htype : pktPayloadType p = payloadTypeAdvert) :
    VerifiedWhole p ↔ p.payload.length ≤ 132 := by
  constructor
  · intro hwhole
    by_contra hlong
    -- a predicate that holds of the cut message and of no other
    let C : Crypto :=
      { Crypto.ofTable [] [] with cryptoSignOpen := fun _ _ msg => msg == advertSignedMessage p.payload }
    have hdata : ¬ p.payload.length < advDataOff := by
      unfold advDataOff
      omega
    have hver : mcAdvertVerify C p = some (advertPub p.payload) := by
      have hcut := length_advertSignedMessage p.payload
      have hident : mcIdentityVerify C (advertPub p.payload) (advertSig p.payload)
          (advertSignedMessage p.payload) = true := by
        unfold mcIdentityVerify signScratch
        rw [if_neg (by omega)]
        simp [C]
      unfold mcAdvertVerify
      rw [if_neg (by simp [htype]), if_neg hdata, hident]
      rfl
    have hopen := hwhole C _ hver
    simp only [C, beq_iff_eq] at hopen
    exact advertSignedMessage_ne_of_long (by omega) hopen.symm
  · intro hshort C pub hver
    obtain ⟨-, hpub, hopen⟩ := mcAdvertVerify_open hver
    rw [hpub, ← advertSignedMessage_of_short hshort]
    exact hopen

/-- Accepted adverts are authenticated as a whole exactly when both keep to 32 bytes
of `app_data`. -/
theorem authenticatedWhole_iff {p q : McPacket} (hp : pktPayloadType p = payloadTypeAdvert)
    (hq : pktPayloadType q = payloadTypeAdvert) :
    AuthenticatedWhole p q ↔ p.payload.length ≤ 132 ∧ q.payload.length ≤ 132 := by
  constructor
  · intro h
    exact ⟨(verifiedWhole_iff hp).mp h.first, (verifiedWhole_iff hq).mp h.second⟩
  · rintro ⟨hshortP, hshortQ⟩
    refine ⟨(verifiedWhole_iff hp).mpr hshortP, (verifiedWhole_iff hq).mpr hshortQ, ?_⟩
    intro C namesz haccP haccQ hpub hts hsig hsingle
    obtain ⟨_, hverP⟩ := Option.ne_none_iff_exists'.mp haccP
    obtain ⟨_, hverQ⟩ := Option.ne_none_iff_exists'.mp haccQ
    obtain ⟨hlenP, -, hopenP⟩ := mcAdvertVerify_open hverP
    obtain ⟨hlenQ, -, hopenQ⟩ := mcAdvertVerify_open hverQ
    rw [← hpub, ← hsig] at hopenQ
    -- the two messages are one, and at this length they are whole
    have hmsg := hsingle _ _ hopenP hopenQ
    rw [advertSignedMessage_of_short hshortP, advertSignedMessage_of_short hshortQ,
      advertWholeMessage, advertWholeMessage, hpub, hts] at hmsg
    have happ : advertAppData p.payload = advertAppData q.payload := List.append_cancel_left hmsg
    have hpay := advert_payload_ext hlenP hlenQ hpub hts hsig happ
    rw [advertReading, advertReading, mcAdvertExtract, mcAdvertExtract, mcAdvertExtractLocation,
      mcAdvertExtractLocation, pktCalcHash, pktCalcHash, hp, hq, hpay]
    rfl

/-! ## An advert with something added -/

def hillPub : Bytes := bytesBE 32 0xb531b9abd95f3d0acec807d6373c287bc456286206e953ef77f3c426dfccb14e

def hillSig : Bytes :=
  bytesBE 32 0x7ad10046a70b6ec2b41fc8a924202776ad554bf52823601a81b11fa41aefcc5f ++
    bytesBE 32 0x3d93c585b24d8ee0bc901d27d32077092d81b56935827104e7a98706f2eff904

/-- A companion's `app_data`: a location, and a name that fills the 32 bytes. -/
def hillData : Bytes := bytesBE 9 0x91d0e8070330604200 ++ lit "ON6URE-companion-on-hil"

/-- The companion's advert, with `extra` appended by whoever passed it on. -/
def hillAdvert (extra : Bytes) : McPacket :=
  { McPacket.zero with
    header := 0x11
    payload := hillPub ++ bytesBE 4 0x0078e768 ++ hillSig ++ hillData ++ extra }

/-- The signature verifies on the companion's own advert. -/
def hillCrypto : Crypto := Crypto.ofTable
  [([4] ++ (hillAdvert []).payload,
    bytesBE 32 0xf50ad6f8ff31f6c2e4f862104c570f443b64e43e8858ad97c50cd58261f5f14e),
   ([4] ++ (hillAdvert (lit "lside")).payload,
    bytesBE 32 0x5b3da23e825150b43569ffba91bd39c5c6ac2a94511bd4de595c6ab939956627)]
  [(hillPub, hillSig, hillPub ++ bytesBE 4 0x0078e768 ++ hillData)]

/-- Five bytes that nobody signed change the name and the dedup hash of an advert
that is still accepted. -/
theorem hillAdvert_not_authenticatedWhole :
    mcAdvertVerify hillCrypto (hillAdvert []) = some hillPub ∧
      mcAdvertVerify hillCrypto (hillAdvert (lit "lside")) = some hillPub ∧
      mcAdvertExtract (hillAdvert []) 32 = some (advTypeChat, lit "ON6URE-companion-on-hil") ∧
      mcAdvertExtract (hillAdvert (lit "lside")) 32 =
        some (advTypeChat, lit "ON6URE-companion-on-hillside") ∧
      pktCalcHash hillCrypto (hillAdvert []) ≠ pktCalcHash hillCrypto (hillAdvert (lit "lside")) ∧
      ¬ AuthenticatedWhole (hillAdvert []) (hillAdvert (lit "lside")) := by
  refine ⟨by decide, by decide, by decide, by decide,
    by decide, ?_⟩
  intro h
  have hname : mcAdvertExtract (hillAdvert []) 32 ≠ mcAdvertExtract (hillAdvert (lit "lside")) 32 := by
    decide
  have hsingle : ∀ msg msg', hillCrypto.cryptoSignOpen hillPub hillSig msg = true →
      hillCrypto.cryptoSignOpen hillPub hillSig msg' = true → msg = msg' := by
    intro msg msg' hm hm'
    simp only [hillCrypto, Crypto.ofTable, decide_eq_true_eq, List.mem_singleton, Prod.mk.injEq,
      true_and] at hm hm'
    rw [hm, hm']
  have hpub : advertPub (hillAdvert []).payload = hillPub := by decide
  have hsig : advertSig (hillAdvert []).payload = hillSig := by decide
  have hsame := h.same hillCrypto 32 (by decide) (by decide) (by decide)
    (by decide) (by decide) (by rwa [hpub, hsig])
  simp only [advertReading, Prod.mk.injEq] at hsame
  exact hname hsame.1

theorem authenticatedWhole_iff_hill :
    AuthenticatedWhole (hillAdvert []) (hillAdvert (lit "lside")) ↔
      (hillAdvert []).payload.length ≤ 132 ∧ (hillAdvert (lit "lside")).payload.length ≤ 132 :=
  authenticatedWhole_iff (by decide) (by decide)

end Meshcore
