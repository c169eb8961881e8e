import MeshcoreRepeater.Lib.Double
import MeshcoreRepeater.Packet
import Mathlib.Data.Rat.Floor

/-! # Identity and adverts

`identity.c` (the Ed25519 key pair, signing, the path hash) and `advert.c`
(building, reading and verifying an ADVERT payload):

    pub (32) | timestamp (4) | signature (64) | app_data

`app_data` is a flag byte, then latitude and longitude, two feature words and
the name, each only when its flag is set.

* `mcAdvertVerify_some`: an accepted advert, unpacked.
-/

namespace Meshcore

open ByteLib

/-! ## Identity -/

/-- `mc_identity_t`. -/
structure McIdentity where
  pub : Buf 32
  sec : Buf 64
  hasSecret : Bool

/-- The largest message the signing scratch buffer takes. -/
def signScratch : Nat := 64 + 128

/-- `mc_identity_sign`; `none` is its -1. -/
def mcIdentitySign (C : Crypto) (id : McIdentity) (msg : Bytes) : Option (Buf 64) :=
  if !id.hasSecret || msg.length + 64 > signScratch then none
  else some (C.cryptoSign id.sec.bytes msg)

def mcIdentityVerify (C : Crypto) (pub sig msg : Bytes) : Bool :=
  if msg.length + 64 > signScratch then false else C.cryptoSignOpen pub sig msg

/-- The first `len` bytes of the public key: this node's path hash. -/
def mcIdentityCopyHash (id : McIdentity) (len : Nat) : Bytes := id.pub.read 0 len

/-- Does the path start with this node's hash? -/
def mcIdentityHashMatch (id : McIdentity) (path : Buf 64) (len : Nat) : Bool :=
  id.pub.read 0 len == path.read 0 len

/-! ## Advert layout -/

def advTsOff : Nat := 32
def advSigOff : Nat := 36
def advDataOff : Nat := 100
def mcMaxAdvertData : Nat := 32

def advTypeNone : UInt8 := 0
def advTypeChat : UInt8 := 1
def advTypeRepeater : UInt8 := 2
def advTypeRoom : UInt8 := 3
def advTypeSensor : UInt8 := 4

def advLatlonMask : UInt8 := 0x10
def advFeat1Mask : UInt8 := 0x20
def advFeat2Mask : UInt8 := 0x40
def advNameMask : UInt8 := 0x80

/-- A flag bit is set. -/
def hasFlag (flags mask : UInt8) : Bool := (flags &&& mask) != 0

def advertPub (payload : Bytes) : Bytes := payload.take 32

def advertTimestamp (payload : Bytes) : UInt32 := rdU32le (payload.drop advTsOff)

def advertSig (payload : Bytes) : Bytes := (payload.drop advSigOff).take 64

def advertAppData (payload : Bytes) : Bytes := payload.drop advDataOff

/-! ## Reading an advert -/

/-- Where the name starts in `app_data`: behind the optional fields that precede
it. -/
def advertNameOff (flags : UInt8) : Nat :=
  1 + (if hasFlag flags advLatlonMask then 8 else 0) + (if hasFlag flags advFeat1Mask then 2 else 0) +
    (if hasFlag flags advFeat2Mask then 2 else 0)

/-- `mc_advert_extract` into a name buffer of `namesz` bytes: type and name.
`none` is its -1, which leaves the caller's type alone and the name empty. -/
def mcAdvertExtract (p : McPacket) (namesz : Nat) : Option (UInt8 × Bytes) :=
  if p.payload.length < advDataOff then none
  else
    match advertAppData p.payload with
    | [] => none
    | flags :: rest =>
      let app := flags :: rest
      let i := advertNameOff flags
      let name := if hasFlag flags advNameMask && i < app.length then
        cstr ((app.drop i).take (namesz - 1)) else []
      some (flags &&& 0x0F, name)

/-- `mc_advert_extract_location`, in degrees. -/
def mcAdvertExtractLocation (p : McPacket) : Option (ℚ × ℚ) :=
  if p.payload.length < advDataOff then none
  else
    let app := advertAppData p.payload
    if app.length < 9 || !hasFlag (app.headD 0) advLatlonMask then none
    else some ((rdI32le (app.drop 1) : ℚ) / 1000000, (rdI32le (app.drop 5) : ℚ) / 1000000)

/-- The message `mc_advert_verify` checks the signature on. At most
`MC_MAX_ADVERT_DATA` bytes of `app_data` enter it. -/
def advertSignedMessage (payload : Bytes) : Bytes :=
  advertPub payload ++ wrU32le (advertTimestamp payload) ++
    (advertAppData payload).take mcMaxAdvertData

/-- `mc_advert_verify`; on success the advertiser's key. -/
def mcAdvertVerify (C : Crypto) (p : McPacket) : Option Bytes :=
  if pktPayloadType p != payloadTypeAdvert then none
  else if p.payload.length < advDataOff then none
  else if !mcIdentityVerify C (advertPub p.payload) (advertSig p.payload)
      (advertSignedMessage p.payload) then none
  else some (advertPub p.payload)

/-! ## Building an advert -/

/-- `mc_advert_info_t`. -/
structure McAdvertInfo where
  type : UInt8
  hasLocation : Bool
  latitude : CDouble
  longitude : CDouble
  name : Bytes

/-- `lround`: half away from zero. -/
def lround (q : ℚ) : Int := if 0 ≤ q then ⌊q + 1 / 2⌋ else -⌊-q + 1 / 2⌋

/-- `(int32_t)lround(degrees * 1e6)`, little-endian. Not-a-number and infinities
give the conversion's out-of-range value, whose low word is zero. -/
def microDegrees (degrees : CDouble) : Bytes :=
  match degrees with
  | .fin q =>
    match CDouble.ofRat (q * 1000000) with
    | .fin v => wrU32le (UInt32.ofBitVec (BitVec.ofInt 32 (lround v)))
    | _ => wrU32le 0
  | _ => wrU32le 0

/-- `encode_app_data`. -/
def encodeAppData (info : McAdvertInfo) : Bytes :=
  let loc := if info.hasLocation then microDegrees info.latitude ++ microDegrees info.longitude else []
  let name := info.name.take (mcMaxAdvertData - (1 + loc.length))
  let flags := (info.type &&& 0x0F) ||| (if info.hasLocation then advLatlonMask else 0) |||
    (if name.isEmpty then 0 else advNameMask)
  flags :: (loc ++ name)

/-- `mc_advert_build`; `none` for its negative results. -/
def mcAdvertBuild (C : Crypto) (id : McIdentity) (info : McAdvertInfo) (timestamp : UInt32) :
    Option McPacket :=
  if !id.hasSecret then none
  else
    let appData := encodeAppData info
    let msg := id.pub.bytes ++ wrU32le timestamp ++ appData
    match mcIdentitySign C id msg with
    | none => none
    | some sig => some
        { McPacket.zero with
          header := pktMakeHeader payloadVer1 payloadTypeAdvert routeTypeFlood
          payload := id.pub.bytes ++ wrU32le timestamp ++ sig.bytes ++ appData }

/-! ## What verification tells -/

/-- An accepted advert, unpacked. -/
theorem mcAdvertVerify_some {C : Crypto} {p : McPacket} {pub : Bytes}
    (h : mcAdvertVerify C p = some pub) :
    pktPayloadType p = payloadTypeAdvert ∧ advDataOff ≤ p.payload.length ∧
      pub = advertPub p.payload ∧
      mcIdentityVerify C (advertPub p.payload) (advertSig p.payload)
        (advertSignedMessage p.payload) = true := by
  unfold mcAdvertVerify at h
  split at h
  · cases h
  rename_i htype
  split at h
  · cases h
  rename_i hlen
  split at h
  · cases h
  rename_i hsig
  cases h
  exact ⟨by simpa using htype, by omega, rfl, by simpa using hsig⟩

end Meshcore
