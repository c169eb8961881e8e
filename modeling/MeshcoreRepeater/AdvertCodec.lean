import MeshcoreRepeater.Authenticity
import Mathlib.Tactic.NormNum

/-! # An advert, there and back

What `mc_advert_build` encodes is what the readers of `advert.c` come to: three of them
recompute the layout, and the name is cut at 32 bytes of `app_data`.

* `AdvertParts.verified`: a signed payload of at most 32 bytes of data is accepted.
* `mcAdvertExtract_encoded`, `mcAdvertExtractLocation_encoded`: type, name and coordinates are
  read past what stands before them.
* `advert_roundTrip`: whatever is advertised is read off the wire as it was given.
-/

namespace Meshcore

open ByteLib

/-! ## Micro-degrees -/

/-- A value within half of an integer rounds to it. -/
theorem lround_of_near {v : ℚ} {k : Int} (h : |v - k| < 1 / 2) : lround v = k := by
  rw [abs_lt] at h
  rcases h with ⟨hlo, hhi⟩
  unfold lround
  split
  · rw [Int.floor_eq_iff]
    constructor <;> linarith
  · have hneg : ⌊-v + 1 / 2⌋ = -k := by
      rw [Int.floor_eq_iff]
      push_cast
      constructor <;> linarith
    rw [hneg, neg_neg]

/-- The coordinate is `k` micro-degrees: exactly, or as the double nearest to it. -/
def IsMicroDegrees (d : CDouble) (k : Int) : Prop :=
  d = .fin (k / 1000000) ∨ d = CDouble.ofRat (k / 1000000)

/-- What `int32_t` holds. -/
def IsInt32 (k : Int) : Prop := -2 ^ 31 ≤ k ∧ k < 2 ^ 31

/-- What is encoded for a double that is near to `k` micro-degrees. -/
theorem microDegrees_of_near {q : ℚ} {k : Int} (hk : IsInt32 k) (hq : |q - k / 1000000| ≤ 1 / 2 ^ 40) :
    microDegrees (.fin q) = wrU32le (UInt32.ofBitVec (BitVec.ofInt 32 k)) := by
  have hscaled : |q * 1000000 - k| ≤ 1 / 2 ^ 20 := by
    have heq : q * 1000000 - k = (q - k / 1000000) * 1000000 := by ring
    rw [heq, abs_mul]
    have hmul := mul_le_mul_of_nonneg_right hq (by norm_num : (0 : ℚ) ≤ |1000000|)
    refine hmul.trans ?_
    norm_num
  have hint : |(k : ℚ)| ≤ 2 ^ 31 := by
    rw [abs_le]
    constructor
    · exact_mod_cast hk.1
    · exact_mod_cast hk.2.le
  have hsize : |q * 1000000| ≤ 2 ^ 32 := by
    have htri := abs_sub_abs_le_abs_sub (q * 1000000) (k : ℚ)
    norm_num at htri hscaled hint ⊢
    linarith
  rcases CDouble.ofRat_near (k := 32) (by norm_num) hsize with ⟨v, hv, hnear⟩
  have hround : lround v = k := by
    apply lround_of_near
    have htri := abs_sub_le v (q * 1000000) (k : ℚ)
    norm_num at htri hscaled hnear ⊢
    linarith
  unfold microDegrees
  simp only
  rcases hv with hv | ⟨hv, hzero⟩
  · rw [hv]
    simp only [hround]
  · -- a zero with a sign is encoded as zero
    have hk0 : k = 0 := by
      rw [← hround, hzero]
      decide +kernel
    rw [hv, hk0]
    rfl

/-- Exact or rounded, the coordinate is encoded as `k`. -/
theorem IsMicroDegrees.encoded {d : CDouble} {k : Int} (h : IsMicroDegrees d k) (hk : IsInt32 k) :
    microDegrees d = wrU32le (UInt32.ofBitVec (BitVec.ofInt 32 k)) := by
  rcases h with rfl | rfl
  · apply microDegrees_of_near hk
    rw [sub_self, abs_zero]
    positivity
  · have hsize : |(k / 1000000 : ℚ)| ≤ 2 ^ 12 := by
      rw [abs_div]
      have hint : |(k : ℚ)| ≤ 2 ^ 31 := by
        rw [abs_le]
        constructor
        · exact_mod_cast hk.1
        · exact_mod_cast hk.2.le
      norm_num at hint ⊢
      linarith
    rcases CDouble.ofRat_near (k := 12) (by norm_num) hsize with ⟨v, hv, hnear⟩
    have hclose : |v - k / 1000000| ≤ 1 / 2 ^ 40 := by
      refine hnear.trans ?_
      norm_num
    rcases hv with hv | ⟨hv, hzero⟩
    · rw [hv]
      exact microDegrees_of_near hk hclose
    · have hk0 : k = 0 := by
        by_contra hne
        rw [hzero, zero_sub, abs_neg, abs_div] at hclose
        have hone : (1 : ℚ) ≤ |(k : ℚ)| := by exact_mod_cast Int.one_le_abs hne
        norm_num at hclose
        linarith
      rw [hv, hk0]
      rfl

/-- A 32-bit coordinate is read back from its four bytes. -/
theorem rdI32le_wrU32le {k : Int} (hk : IsInt32 k) (rest : Bytes) :
    rdI32le (wrU32le (UInt32.ofBitVec (BitVec.ofInt 32 k)) ++ rest) = k := by
  rw [rdI32le, rdU32le_wrU32le]
  show (BitVec.ofInt 32 k).toInt = k
  rw [BitVec.toInt_ofInt]
  rcases hk with ⟨hlo, hhi⟩
  apply Int.bmod_eq_of_le <;> omega

/-! ## The app data -/

section
variable {info : McAdvertInfo}

/-- The flag byte that is written for a type of four bits. -/
def advertFlags (type : UInt8) (location name : Bool) : UInt8 :=
  (type &&& 0x0F) ||| (if location then advLatlonMask else 0) ||| (if name then advNameMask else 0)

/-- The flags are read back, and with them where the name starts. -/
theorem advertFlags_spec (type : UInt8) (location name : Bool) :
    advertFlags type location name &&& 0x0F = type &&& 0x0F ∧
      hasFlag (advertFlags type location name) advLatlonMask = location ∧
      hasFlag (advertFlags type location name) advNameMask = name ∧
      advertNameOff (advertFlags type location name) = if location then 9 else 1 := by
  have hall : ∀ n < 16, ∀ location name : Bool,
      let flags := UInt8.ofNat n ||| (if location then advLatlonMask else 0) ||| (if name then advNameMask else 0)
      flags &&& 0x0F = UInt8.ofNat n ∧ hasFlag flags advLatlonMask = location ∧
        hasFlag flags advNameMask = name ∧ advertNameOff flags = if location then 9 else 1 := by
    decide
  have hlow : (type &&& 0x0F).toNat < 16 := by
    rw [UInt8.toNat_and]
    exact Nat.lt_of_le_of_lt Nat.and_le_right (by decide)
  have hspec := hall _ hlow location name
  rw [UInt8.ofNat_toNat] at hspec
  exact hspec

/-- How many bytes of the name there is room for. -/
def advertNameRoom (info : McAdvertInfo) : Nat := if info.hasLocation then 23 else 31

/-- The coordinates as they are written. -/
def advertLocation (info : McAdvertInfo) : Bytes :=
  if info.hasLocation then microDegrees info.latitude ++ microDegrees info.longitude else []

/-- A coordinate is four bytes. -/
theorem length_microDegrees (d : CDouble) : (microDegrees d).length = 4 := by
  unfold microDegrees
  split
  · split
    · rfl
    · rfl
  · rfl

/-- Two of them, or none. -/
theorem length_advertLocation (info : McAdvertInfo) :
    (advertLocation info).length = if info.hasLocation then 8 else 0 := by
  unfold advertLocation
  split
  · rw [List.length_append, length_microDegrees, length_microDegrees]
  · rfl

/-- Flags, coordinates, and as much of the name as there is room for. -/
theorem encodeAppData_eq (info : McAdvertInfo) :
    encodeAppData info =
      advertFlags info.type info.hasLocation (!(info.name.take (advertNameRoom info)).isEmpty) ::
        (advertLocation info ++ info.name.take (advertNameRoom info)) := by
  have hroom : mcMaxAdvertData - (1 + (advertLocation info).length) = advertNameRoom info := by
    rw [length_advertLocation, advertNameRoom, mcMaxAdvertData]
    split <;> rfl
  have hflag : ∀ b : Bool, (if b then (0 : UInt8) else advNameMask) = if !b then advNameMask else 0 := by
    decide
  show (_ ||| _ ||| (if (info.name.take (mcMaxAdvertData - (1 + (advertLocation info).length))).isEmpty then 0
      else advNameMask)) ::
    (advertLocation info ++ info.name.take (mcMaxAdvertData - (1 + (advertLocation info).length))) = _
  rw [hroom, hflag]
  rfl

/-- The data is never longer than the 32 bytes that are signed. -/
theorem length_encodeAppData (info : McAdvertInfo) : (encodeAppData info).length ≤ 32 := by
  rw [encodeAppData_eq, List.length_cons, List.length_append, length_advertLocation, List.length_take]
  unfold advertNameRoom
  split <;> omega

end

/-! ## Reading it -/

/-- The parts of a payload that was put together from them. -/
structure AdvertParts (payload pub : Bytes) (ts : UInt32) (sig app : Bytes) : Prop where
  pub_eq : advertPub payload = pub
  ts_eq : advertTimestamp payload = ts
  sig_eq : advertSig payload = sig
  app_eq : advertAppData payload = app
  length_eq : payload.length = 100 + app.length

/-- A payload that is put together has the parts it was put together from. -/
theorem advertParts {pub sig : Bytes} (hpub : pub.length = 32) (hsig : sig.length = 64) (ts : UInt32) (app : Bytes) :
    AdvertParts (pub ++ wrU32le ts ++ sig ++ app) pub ts sig app := by
  have hts : (wrU32le ts).length = 4 := rfl
  constructor
  · rw [advertPub, List.append_assoc, List.append_assoc]
    exact List.take_left' hpub
  · rw [advertTimestamp, advTsOff, List.append_assoc, List.append_assoc, List.drop_left' hpub]
    exact rdU32le_wrU32le ts _
  · have hhead : (pub ++ wrU32le ts).length = 36 := by rw [List.length_append, hpub, hts]
    rw [advertSig, advSigOff, List.append_assoc, List.drop_left' hhead]
    exact List.take_left' hsig
  · have hhead : (pub ++ wrU32le ts ++ sig).length = 100 := by
      rw [List.length_append, List.length_append, hpub, hts, hsig]
    rw [advertAppData, advDataOff]
    exact List.drop_left' hhead
  · rw [List.length_append, List.length_append, List.length_append, hpub, hts, hsig]

section
variable {C : Crypto} {id : McIdentity} {info : McAdvertInfo} {ts : UInt32} {p : McPacket}

/-- With a secret key an advert is always built, and signed over key, timestamp and data. -/
theorem mcAdvertBuild_eq (hsec : id.hasSecret = true) (info : McAdvertInfo) (ts : UInt32) :
    ∃ sig : Buf 64, sig = C.cryptoSign id.sec.bytes (id.pub.bytes ++ wrU32le ts ++ encodeAppData info) ∧
      mcAdvertBuild C id info ts = some
        { McPacket.zero with
          header := pktMakeHeader payloadVer1 payloadTypeAdvert routeTypeFlood
          payload := id.pub.bytes ++ wrU32le ts ++ sig.bytes ++ encodeAppData info } := by
  refine ⟨_, rfl, ?_⟩
  have happ := length_encodeAppData info
  have hmsg : (id.pub.bytes ++ wrU32le ts ++ encodeAppData info).length + 64 ≤ signScratch := by
    rw [List.length_append, List.length_append, id.pub.length_eq, length_wrU32le, signScratch]
    omega
  unfold mcAdvertBuild mcIdentitySign
  simp only [hsec]
  rw [if_neg (by simp), if_neg (by simp only [Bool.not_true, Bool.false_or, decide_eq_true_eq]; omega)]

/-- A payload whose signature is on key, timestamp and at most 32 bytes of data is accepted. -/
theorem AdvertParts.verified {pub sig app : Bytes} (h : AdvertParts p.payload pub ts sig app)
    (htype : pktPayloadType p = payloadTypeAdvert) (hpub : pub.length = 32) (happ : app.length ≤ 32)
    (hsig : C.cryptoSignOpen pub sig (pub ++ wrU32le ts ++ app) = true) : mcAdvertVerify C p = some pub := by
  have hlen := h.length_eq
  have hmsg : advertSignedMessage p.payload = pub ++ wrU32le ts ++ app := by
    rw [advertSignedMessage_of_short (by omega), advertWholeMessage, h.pub_eq, h.ts_eq, h.app_eq]
  have hident : mcIdentityVerify C pub sig (pub ++ wrU32le ts ++ app) = true := by
    unfold mcIdentityVerify
    rw [if_neg ?_]
    · exact hsig
    · rw [List.length_append, List.length_append, length_wrU32le, signScratch]
      omega
  unfold mcAdvertVerify
  rw [if_neg (by simp [htype]), if_neg (by unfold advDataOff; omega), hmsg, h.pub_eq, h.sig_eq, hident]
  rfl

/-- Type and name are read past the coordinates. -/
theorem mcAdvertExtract_encoded {pub sig : Bytes} (h : AdvertParts p.payload pub ts sig (encodeAppData info))
    (htype : info.type.toNat ≤ 15) (hname : (0 : UInt8) ∉ info.name) :
    mcAdvertExtract p 32 = some (info.type, info.name.take (advertNameRoom info)) := by
  have hlen := h.length_eq
  rcases advertFlags_spec info.type info.hasLocation (!(info.name.take (advertNameRoom info)).isEmpty) with
    ⟨hlow, -, hflag, hoff⟩
  -- the mask leaves a type of four bits
  have htype' : info.type &&& 0x0F = info.type := by
    apply UInt8.toNat_inj.mp
    rw [UInt8.toNat_and]
    exact (Nat.and_two_pow_sub_one_eq_mod _ 4).trans (Nat.mod_eq_of_lt (by omega))
  -- the buffer of 32 bytes does not cut the name again
  have hplain : cstr ((info.name.take (advertNameRoom info)).take 31) = info.name.take (advertNameRoom info) := by
    have hroom : advertNameRoom info ≤ 31 := by
      unfold advertNameRoom
      split <;> omega
    rw [List.take_take, Nat.min_eq_right hroom]
    exact cstr_of_not_mem fun h => hname (List.mem_of_mem_take h)
  unfold mcAdvertExtract
  rw [if_neg (by unfold advDataOff; omega), h.app_eq, encodeAppData_eq]
  simp only [hflag, hoff, hlow, htype']
  -- the name starts where the coordinates end
  have hdrop : (advertFlags info.type info.hasLocation (!(info.name.take (advertNameRoom info)).isEmpty) ::
      (advertLocation info ++ info.name.take (advertNameRoom info))).drop (if info.hasLocation then 9 else 1) =
        info.name.take (advertNameRoom info) := by
    have hloc := length_advertLocation info
    cases hl : info.hasLocation with
    | true =>
      rw [hl] at hloc
      exact List.drop_left' hloc
    | false =>
      rw [hl] at hloc
      exact List.drop_left' hloc
  rw [hdrop, hplain]
  -- without a name its flag is off, and nothing is read
  cases hnil : (info.name.take (advertNameRoom info)).isEmpty with
  | true =>
    rw [List.isEmpty_iff] at hnil
    simp [hnil]
  | false =>
    have hpos : 0 < (info.name.take (advertNameRoom info)).length := by
      rw [List.length_pos_iff]
      simpa using hnil
    have hin : ∀ flags : UInt8, (if info.hasLocation then 9 else 1) <
        (flags :: (advertLocation info ++ info.name.take (advertNameRoom info))).length := by
      intro flags
      rw [List.length_cons, List.length_append, length_advertLocation]
      split <;> omega
    simp only [hin, Bool.not_false, decide_true, Bool.and_self, if_true]

/-- The coordinates are there when they were given. -/
theorem mcAdvertExtractLocation_encoded {pub sig : Bytes}
    (h : AdvertParts p.payload pub ts sig (encodeAppData info)) {lat lon : Int}
    (hloc : info.hasLocation = true → IsMicroDegrees info.latitude lat ∧ IsInt32 lat ∧
      IsMicroDegrees info.longitude lon ∧ IsInt32 lon) :
    mcAdvertExtractLocation p =
      if info.hasLocation then some ((lat : ℚ) / 1000000, (lon : ℚ) / 1000000) else none := by
  have hlen := h.length_eq
  rcases advertFlags_spec info.type info.hasLocation (!(info.name.take (advertNameRoom info)).isEmpty) with
    ⟨-, hflag, -, -⟩
  unfold mcAdvertExtractLocation
  rw [if_neg (by unfold advDataOff; omega), h.app_eq, encodeAppData_eq]
  simp only [List.headD_cons, hflag]
  cases hl : info.hasLocation with
  | false => simp
  | true =>
    rcases hloc hl with ⟨hlat, hlatR, hlon, hlonR⟩
    have hwords : advertLocation info = wrU32le (UInt32.ofBitVec (BitVec.ofInt 32 lat)) ++
        wrU32le (UInt32.ofBitVec (BitVec.ofInt 32 lon)) := by
      rw [advertLocation, if_pos hl, hlat.encoded hlatR, hlon.encoded hlonR]
    have hlong : ¬ (advertFlags info.type true (!(info.name.take (advertNameRoom info)).isEmpty) ::
        (advertLocation info ++ info.name.take (advertNameRoom info))).length < 9 := by
      rw [hwords]
      simp only [List.length_cons, List.length_append, length_wrU32le]
      omega
    have hfirst : rdI32le (advertLocation info ++ info.name.take (advertNameRoom info)) = lat := by
      rw [hwords, List.append_assoc]
      exact rdI32le_wrU32le hlatR _
    have hsecond : rdI32le ((advertLocation info ++ info.name.take (advertNameRoom info)).drop 4) = lon := by
      rw [hwords, List.append_assoc, List.drop_left' (length_wrU32le _)]
      exact rdI32le_wrU32le hlonR _
    simp only [hlong, decide_false, Bool.not_true, Bool.or_false, Bool.false_eq_true, if_false, if_true,
      List.drop_succ_cons, List.drop_zero, hfirst, hsecond]

end

/-- Whatever an identity with a secret key advertises is built, and read off the wire as it was
given: the key, the type, the name as far as there is room, and the location if there is one. -/
theorem advert_roundTrip {C : Crypto} {id : McIdentity} (hsec : id.hasSecret = true)
    (hsign : ∀ msg, C.cryptoSignOpen id.pub.bytes (C.cryptoSign id.sec.bytes msg).bytes msg = true)
    {info : McAdvertInfo} (htype : info.type.toNat ≤ 15) (hname : (0 : UInt8) ∉ info.name) {lat lon : Int}
    (hloc : info.hasLocation = true → IsMicroDegrees info.latitude lat ∧ IsInt32 lat ∧
      IsMicroDegrees info.longitude lon ∧ IsInt32 lon) (ts : UInt32) :
    ∃ pkt raw received, mcAdvertBuild C id info ts = some pkt ∧ pkt.payload.length ≤ 132 ∧
      pktSerialize pkt mcMaxTransUnit = .ok raw ∧ pktParse raw = .ok received ∧
      mcAdvertVerify C received = some id.pub.bytes ∧
      mcAdvertExtract received 32 = some (info.type, info.name.take (if info.hasLocation then 23 else 31)) ∧
      mcAdvertExtractLocation received =
        if info.hasLocation then some ((lat : ℚ) / 1000000, (lon : ℚ) / 1000000) else none := by
  rcases mcAdvertBuild_eq (C := C) hsec info ts with ⟨sig, hsig, hbuild⟩
  have happ := length_encodeAppData info
  have hparts := advertParts id.pub.length_eq sig.length_eq ts (encodeAppData info)
  generalize hp : id.pub.bytes ++ wrU32le ts ++ sig.bytes ++ encodeAppData info = payload at hbuild hparts
  have hlen := hparts.length_eq
  generalize hpkt : ({ McPacket.zero with
      header := pktMakeHeader payloadVer1 payloadTypeAdvert routeTypeFlood
      payload := payload } : McPacket) = pkt at hbuild
  have hpay : pkt.payload = payload := by rw [← hpkt]
  rcases pktSerialize_of_empty (p := pkt) (by rw [← hpkt]; rfl) (by rw [hpay]; omega) with ⟨raw, hraw⟩
  have hwire : AdvertParts pkt.onWire.payload id.pub.bytes ts sig.bytes (encodeAppData info) := by
    show AdvertParts pkt.payload _ _ _ _
    rw [hpay]
    exact hparts
  have hadvert : pktPayloadType pkt.onWire = payloadTypeAdvert := by
    show (pkt.header >>> 2) &&& 0x0F = payloadTypeAdvert
    rw [← hpkt]
    exact (payloadType_pktMakeHeader payloadVer1 payloadTypeAdvert routeTypeFlood).trans (by decide)
  refine ⟨pkt, raw, pkt.onWire, hbuild, by rw [hpay]; omega, hraw, pktParse_pktSerialize hraw, ?_, ?_, ?_⟩
  · apply hwire.verified hadvert id.pub.length_eq happ
    rw [hsig]
    exact hsign _
  · exact mcAdvertExtract_encoded hwire htype hname
  · exact mcAdvertExtractLocation_encoded hwire hloc

/-- Signatures that hold the start of what they are on. -/
def echoCrypto : Crypto :=
  { Crypto.ofTable [] [] with
    cryptoSign := fun _ msg => Buf.ofBytes 64 msg
    cryptoSignOpen := fun _ sig msg => sig == (Buf.ofBytes 64 msg).bytes }

def beaconIdentity : McIdentity := ⟨Buf.ofBytes 32 [0xB2], Buf.zero 64, true⟩

/-- A repeater at 50.85, 4.35 degrees, with a name that is too long. -/
def beaconInfo : McAdvertInfo where
  type := advTypeRepeater
  hasLocation := true
  latitude := .ofRat (50850000 / 1000000)
  longitude := .ofRat (4350000 / 1000000)
  name := lit "ON0BRU on the hill over the town"

theorem advert_roundTrip_beacon :
    ∃ pkt raw received, mcAdvertBuild echoCrypto beaconIdentity beaconInfo 7 = some pkt ∧
      pkt.payload.length ≤ 132 ∧ pktSerialize pkt mcMaxTransUnit = .ok raw ∧ pktParse raw = .ok received ∧
      mcAdvertVerify echoCrypto received = some beaconIdentity.pub.bytes ∧
      mcAdvertExtract received 32 =
        some (beaconInfo.type, beaconInfo.name.take (if beaconInfo.hasLocation then 23 else 31)) ∧
      mcAdvertExtractLocation received =
        if beaconInfo.hasLocation then some (((50850000 : Int) : ℚ) / 1000000, ((4350000 : Int) : ℚ) / 1000000)
        else none := by
  apply advert_roundTrip rfl
  · intro msg
    exact beq_self_eq_true _
  · decide
  · decide
  · intro _
    refine ⟨.inr ?_, by unfold IsInt32; omega, .inr ?_, by unfold IsInt32; omega⟩
    · norm_num [beaconInfo]
    · norm_num [beaconInfo]

end Meshcore
