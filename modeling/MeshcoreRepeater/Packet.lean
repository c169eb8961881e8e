import MeshcoreRepeater.Crypto
import Mathlib.Tactic.IntervalCases

/-! # The MeshCore packet

`packet.h` and `packet.c`: the header and path helpers, the wire format with its
parser and serialiser, and the 8-byte dedup hash.

A packet in memory keeps its 64-byte path buffer as the code does; the payload is
the `payload_len` bytes in use (no function reads past them).

* `pktParse_wellFormed`: what the parser accepts is well formed.
* `pktParse_pktSerialize`: what is serialised is parsed back.
* `pktCalcHash_congr`: the dedup hash does not see the path.
-/

namespace Meshcore

open ByteLib

/-! ## Sizes and field values -/

def mcMaxPacketPayload : Nat := 184
def mcMaxPathSize : Nat := 64
def mcMaxTransUnit : Nat := 255
def mcMaxHashSize : Nat := 8

def routeTypeTransportFlood : UInt8 := 0x00
def routeTypeFlood : UInt8 := 0x01
def routeTypeDirect : UInt8 := 0x02
def routeTypeTransportDirect : UInt8 := 0x03

def payloadTypeReq : UInt8 := 0x00
def payloadTypeResponse : UInt8 := 0x01
def payloadTypeTxtMsg : UInt8 := 0x02
def payloadTypeAck : UInt8 := 0x03
def payloadTypeAdvert : UInt8 := 0x04
def payloadTypeGrpTxt : UInt8 := 0x05
def payloadTypeGrpData : UInt8 := 0x06
def payloadTypeAnonReq : UInt8 := 0x07
def payloadTypePath : UInt8 := 0x08
def payloadTypeTrace : UInt8 := 0x09
def payloadTypeMultipart : UInt8 := 0x0A
def payloadTypeControl : UInt8 := 0x0B
def payloadTypeRawCustom : UInt8 := 0x0F

def payloadVer1 : UInt8 := 0x00

/-- `mc_packet_t`. -/
structure McPacket where
  header : UInt8
  transportCodes : UInt16 × UInt16
  /-- hop count in bits 0..5, hash size minus one in bits 6..7 -/
  pathLen : UInt8
  path : Buf 64
  payload : Bytes
  rssiDbm : Int
  snrQ : Int
  markedDnr : Bool
deriving DecidableEq, Repr

/-- A packet after `memset(pkt, 0, sizeof(*pkt))`. -/
def McPacket.zero : McPacket where
  header := 0
  transportCodes := (0, 0)
  pathLen := 0
  path := Buf.zero 64
  payload := []
  rssiDbm := 0
  snrQ := 0
  markedDnr := false

/-! ## Header helpers -/

/-- `pkt_route_type`. -/
def pktRouteType (p : McPacket) : UInt8 := p.header &&& 0x03

/-- `pkt_payload_type`. -/
def pktPayloadType (p : McPacket) : UInt8 := (p.header >>> 2) &&& 0x0F

/-- `pkt_make_header`. -/
def pktMakeHeader (ver type route : UInt8) : UInt8 :=
  (route &&& (0x03 : UInt8)) ||| ((type &&& (0x0F : UInt8)) <<< (2 : UInt8)) |||
    ((ver &&& (0x03 : UInt8)) <<< (6 : UInt8))

/-- TRANSPORT_FLOOD (0) and FLOOD (1): bit 1 clear. -/
def pktIsRouteFlood (p : McPacket) : Bool := (pktRouteType p &&& 0x02) == 0

def pktIsRouteDirect (p : McPacket) : Bool := (pktRouteType p &&& 0x02) != 0

def headerHasTransportCodes (header : UInt8) : Bool :=
  (header &&& 0x03) == routeTypeTransportFlood || (header &&& 0x03) == routeTypeTransportDirect

def pktHasTransportCodes (p : McPacket) : Bool := headerHasTransportCodes p.header

/-! ## Path helpers -/

/-- The low six bits. -/
def pathHashCount (pathLen : UInt8) : Nat := (pathLen &&& 0x3F).toNat

/-- The high two, plus one. -/
def pathHashSize (pathLen : UInt8) : Nat := (pathLen >>> 6).toNat + 1

def pktPathHashCount (p : McPacket) : Nat := pathHashCount p.pathLen

def pktPathHashSize (p : McPacket) : Nat := pathHashSize p.pathLen

def pktPathByteLen (p : McPacket) : Nat := pktPathHashCount p * pktPathHashSize p

/-- Only the low six bits of `n` fit the count field. -/
def setPathHashCount (pathLen n : UInt8) : UInt8 := (pathLen &&& 0xC0) ||| (n &&& 0x3F)

def pktSetPathHashCount (p : McPacket) (n : UInt8) : McPacket :=
  { p with pathLen := setPathHashCount p.pathLen n }

/-- The path read back through the count and size fields. -/
def McPacket.pathBytes (p : McPacket) : Bytes := p.path.read 0 (pktPathByteLen p)

/-- `pkt_valid_path_len`: size 4 is reserved, and the path must fit its buffer. -/
def pktValidPathLen (pathLen : UInt8) : Bool :=
  if pathHashSize pathLen == 4 then false
  else pathHashCount pathLen * pathHashSize pathLen ≤ mcMaxPathSize

/-! ## The wire format -/

/-- `pkt_parse` from the path length on. -/
def pktParseBody (header : UInt8) (codes : UInt16 × UInt16) : Bytes → Except Int McPacket
  | [] => .error (-3)
  | pathLen :: rest =>
    if !pktValidPathLen pathLen then .error (-4)
    else
      let pbl := pathHashCount pathLen * pathHashSize pathLen
      if rest.length < pbl then .error (-5)
      else
        let payload := rest.drop pbl
        if payload.length > mcMaxPacketPayload then .error (-6)
        else .ok
          { McPacket.zero with
            header := header
            markedDnr := header == 0xFF
            transportCodes := codes
            pathLen := pathLen
            path := Buf.ofBytes 64 (rest.take pbl)
            payload := payload }

/-- `pkt_parse`; the error is the code's return value. -/
def pktParse (src : Bytes) : Except Int McPacket :=
  if src.length < 2 ∨ src.length > mcMaxTransUnit then .error (-1)
  else
    let header := src.headD 0
    let rest := src.drop 1
    if headerHasTransportCodes header then
      if rest.length < 4 then .error (-2)
      else pktParseBody header (rdU16le rest, rdU16le (rest.drop 2)) (rest.drop 4)
    else pktParseBody header (0, 0) rest

/-- `pkt_raw_length`. -/
def pktRawLength (p : McPacket) : Nat :=
  2 + pktPathByteLen p + p.payload.length + (if pktHasTransportCodes p then 4 else 0)

/-- `pkt_serialize` into a buffer of `destsz` bytes. -/
def pktSerialize (p : McPacket) (destsz : Nat) : Except Int Bytes :=
  if pktRawLength p > destsz ∨ pktRawLength p > mcMaxTransUnit then .error (-1)
  else if p.payload.length > mcMaxPacketPayload then .error (-2)
  else if !pktValidPathLen p.pathLen then .error (-3)
  else
    let codes := if pktHasTransportCodes p then
      wrU16le p.transportCodes.1 ++ wrU16le p.transportCodes.2 else []
    .ok (p.header :: (codes ++ p.pathLen :: (p.pathBytes ++ p.payload)))

/-- `pkt_calc_hash`: SHA-256 over the type, for TRACE the path length, and the
payload, cut to 8 bytes. -/
def pktCalcHash (C : Crypto) (p : McPacket) : Bytes :=
  let t := pktPayloadType p
  let pl := if t = payloadTypeTrace then wrU16le p.pathLen.toUInt16 else []
  (C.sha256 (t :: (pl ++ p.payload))).bytes.take mcMaxHashSize

/-! ## The header -/

/-- The type field of a header that was built from its parts. -/
theorem payloadType_pktMakeHeader (ver type route : UInt8) :
    (pktMakeHeader ver type route >>> 2) &&& 0x0F = type &&& 0x0F := by
  apply UInt8.toBitVec_inj.mp
  ext i hi
  simp only [pktMakeHeader, UInt8.toBitVec_and, UInt8.toBitVec_or, UInt8.toBitVec_shiftLeft,
    UInt8.toBitVec_shiftRight, UInt8.toBitVec_ofNat]
  interval_cases i <;> simp

/-! ## The count and size fields -/

/-- Six bits. -/
theorem pathHashCount_lt (pathLen : UInt8) : pathHashCount pathLen < 64 := by
  have h : pathHashCount pathLen = pathLen.toNat % 64 := by
    rw [pathHashCount, UInt8.toNat_and]
    exact Nat.and_two_pow_sub_one_eq_mod _ 6
  omega

/-- A hash has a byte at least. -/
theorem pathHashSize_pos (pathLen : UInt8) : 0 < pathHashSize pathLen := Nat.succ_pos _

/-- The count field keeps the low six bits of what is stored. -/
theorem pathHashCount_set (pathLen n : UInt8) :
    pathHashCount (setPathHashCount pathLen n) = n.toNat % 64 := by
  have hbits : ((pathLen &&& 0xC0) ||| (n &&& 0x3F)) &&& 0x3F = n &&& 0x3F := by
    apply UInt8.toBitVec_inj.mp
    ext i hi
    simp only [UInt8.toBitVec_and, UInt8.toBitVec_or, UInt8.toBitVec_ofNat, BitVec.getElem_and,
      BitVec.getElem_or]
    interval_cases i <;> simp
  rw [pathHashCount, setPathHashCount, hbits, UInt8.toNat_and]
  exact Nat.and_two_pow_sub_one_eq_mod _ 6

/-- Storing a count leaves the hash size alone. -/
theorem pathHashSize_set (pathLen n : UInt8) :
    pathHashSize (setPathHashCount pathLen n) = pathHashSize pathLen := by
  have hbits : ((pathLen &&& 0xC0) ||| (n &&& 0x3F)) >>> 6 = pathLen >>> 6 := by
    apply UInt8.toBitVec_inj.mp
    ext i hi
    simp only [UInt8.toBitVec_shiftRight, UInt8.toBitVec_and, UInt8.toBitVec_or,
      UInt8.toBitVec_ofNat]
    interval_cases i <;> simp
  rw [pathHashSize, setPathHashCount, hbits]
  rfl

/-- Three hash sizes, and 64 bytes in all. -/
theorem pktValidPathLen_iff (pathLen : UInt8) :
    pktValidPathLen pathLen = true ↔
      pathHashSize pathLen ≠ 4 ∧ pathHashCount pathLen * pathHashSize pathLen ≤ 64 := by
  unfold pktValidPathLen mcMaxPathSize
  split <;> simp_all

/-- A valid path has one of the three hash sizes. -/
theorem pathHashSize_le_three {pathLen : UInt8} (h : pktValidPathLen pathLen = true) :
    pathHashSize pathLen ≤ 3 := by
  have hne := ((pktValidPathLen_iff pathLen).mp h).1
  have hlt : (pathLen >>> 6).toNat < 4 := by
    have hb := pathLen.toNat_lt
    rw [UInt8.toNat_shiftRight]
    simp only [UInt8.reduceToNat, Nat.reduceMod, Nat.shiftRight_eq_div_pow]
    omega
  unfold pathHashSize at hne ⊢
  omega

/-! ## What the parser accepts -/

/-- What holds of every packet that came off the wire. -/
structure McPacket.WellFormed (p : McPacket) : Prop where
  pathLen_valid : pktValidPathLen p.pathLen = true
  payload_le : p.payload.length ≤ mcMaxPacketPayload
  raw_le : pktRawLength p ≤ mcMaxTransUnit
  dnr : p.markedDnr = (p.header == 0xFF)
  codes : pktHasTransportCodes p = false → p.transportCodes = (0, 0)

theorem McPacket.WellFormed.byteLen_le {p : McPacket} (h : p.WellFormed) :
    pktPathByteLen p ≤ 64 :=
  ((pktValidPathLen_iff _).mp h.pathLen_valid).2

theorem McPacket.WellFormed.hashSize_le {p : McPacket} (h : p.WellFormed) :
    pktPathHashSize p ≤ 3 :=
  pathHashSize_le_three h.pathLen_valid

/-- What the tail of the parser accepts, and what it makes of it. -/
theorem pktParseBody_ok {header : UInt8} {codes : UInt16 × UInt16} {src : Bytes} {p : McPacket}
    (h : pktParseBody header codes src = .ok p) :
    p.header = header ∧ p.transportCodes = codes ∧ p.markedDnr = (header == 0xFF) ∧
      pktValidPathLen p.pathLen = true ∧ p.payload.length ≤ mcMaxPacketPayload ∧
      src.length = 1 + pktPathByteLen p + p.payload.length := by
  cases src with
  | nil => simp [pktParseBody] at h
  | cons pathLen rest =>
    simp only [pktParseBody] at h
    split at h
    · cases h
    rename_i hvalid
    split at h
    · cases h
    rename_i hpbl
    split at h
    · cases h
    rename_i hpay
    cases h
    refine ⟨rfl, rfl, rfl, by simpa using hvalid, by simpa using hpay, ?_⟩
    simp only [pktPathByteLen, pktPathHashCount, pktPathHashSize, List.length_cons,
      List.length_drop]
    omega

/-- Whatever the parser accepts is well formed. -/
theorem pktParse_wellFormed {src : Bytes} {p : McPacket} (h : pktParse src = .ok p) :
    p.WellFormed := by
  unfold pktParse at h
  split at h
  · cases h
  rename_i hlen
  simp only at h
  split at h
  · rename_i hc
    split at h
    · cases h
    obtain ⟨hh, -, hdnr, hvalid, hpay, hsrc⟩ := pktParseBody_ok h
    refine ⟨hvalid, hpay, ?_, by rw [hdnr, hh], ?_⟩
    rotate_left
    · rw [pktHasTransportCodes, hh, hc]
      intro hno
      cases hno
    simp only [pktRawLength, pktHasTransportCodes, hh, hc, if_true]
    simp only [List.length_drop] at hsrc
    omega
  · rename_i hc
    obtain ⟨hh, hcodes, hdnr, hvalid, hpay, hsrc⟩ := pktParseBody_ok h
    refine ⟨hvalid, hpay, ?_, by rw [hdnr, hh], fun _ => hcodes⟩
    simp only [pktRawLength, pktHasTransportCodes, hh, hc, Bool.false_eq_true, if_false]
    simp only [List.length_drop] at hsrc
    omega

/-- The packet the parser makes of a serialised packet: the same header, codes,
path and payload, with nothing beyond them. -/
def McPacket.onWire (p : McPacket) : McPacket :=
  { McPacket.zero with
    header := p.header
    markedDnr := p.header == 0xFF
    transportCodes := if pktHasTransportCodes p then p.transportCodes else (0, 0)
    pathLen := p.pathLen
    path := Buf.ofBytes 64 p.pathBytes
    payload := p.payload }

/-- A path that fits is read whole. -/
theorem length_pathBytes {p : McPacket} (h : pktPathByteLen p ≤ 64) :
    p.pathBytes.length = pktPathByteLen p :=
  Buf.length_read p.path 0 _ (by omega)

/-- The tail of the parser on a path length, its path and a payload. -/
theorem pktParseBody_append (header : UInt8) (codes : UInt16 × UInt16) {pathLen : UInt8}
    {path payload : Bytes} (hvalid : pktValidPathLen pathLen = true)
    (hpath : path.length = pathHashCount pathLen * pathHashSize pathLen)
    (hpay : payload.length ≤ mcMaxPacketPayload) :
    pktParseBody header codes (pathLen :: (path ++ payload)) = .ok
      { McPacket.zero with
        header := header
        markedDnr := header == 0xFF
        transportCodes := codes
        pathLen := pathLen
        path := Buf.ofBytes 64 path
        payload := payload } := by
  simp only [pktParseBody, hvalid, Bool.not_true, Bool.false_eq_true, if_false, ← hpath,
    List.length_append, List.take_left, List.drop_left]
  rw [if_neg (by omega), if_neg (by omega)]

/-- With an empty path every payload fits a frame. -/
theorem pktSerialize_of_empty {p : McPacket} (hpath : p.pathLen = 0) (hlen : p.payload.length ≤ 184) :
    ∃ raw, pktSerialize p mcMaxTransUnit = .ok raw := by
  have hvalid : pktValidPathLen p.pathLen = true := by
    rw [hpath]
    rfl
  have hraw : pktRawLength p ≤ 190 := by
    have hbytes : pktPathByteLen p = 0 := by
      rw [pktPathByteLen, pktPathHashCount, hpath]
      exact Nat.zero_mul _
    rw [pktRawLength, hbytes]
    split <;> omega
  unfold pktSerialize
  rw [if_neg (by unfold mcMaxTransUnit; omega), if_neg (by unfold mcMaxPacketPayload; omega),
    if_neg (by rw [hvalid]; simp)]
  exact ⟨_, rfl⟩

/-- Whatever is serialised is parsed back. -/
theorem pktParse_pktSerialize {p : McPacket} {raw : Bytes}
    (h : pktSerialize p mcMaxTransUnit = .ok raw) : pktParse raw = .ok p.onWire := by
  unfold pktSerialize at h
  split at h
  · cases h
  rename_i hraw
  split at h
  · cases h
  rename_i hpay
  split at h
  · cases h
  rename_i hvalid
  cases h
  have hvalid' : pktValidPathLen p.pathLen = true := by simpa using hvalid
  have hpath : p.pathBytes.length = pathHashCount p.pathLen * pathHashSize p.pathLen :=
    length_pathBytes ((pktValidPathLen_iff _).mp hvalid').2
  have hpay' : p.payload.length ≤ mcMaxPacketPayload := by omega
  simp only [pktRawLength, pktPathByteLen, pktPathHashCount, pktPathHashSize] at hraw
  have hbody := fun codes => pktParseBody_append p.header codes hvalid' hpath hpay'
  by_cases hc : pktHasTransportCodes p = true
  · -- four bytes of codes stand between the header and the path length
    simp only [hc, if_true] at hraw
    have hlen : (p.header :: (wrU16le p.transportCodes.1 ++ wrU16le p.transportCodes.2 ++
        p.pathLen :: (p.pathBytes ++ p.payload))).length =
        6 + p.pathBytes.length + p.payload.length := by simp; omega
    have hc' : headerHasTransportCodes p.header = true := hc
    unfold pktParse
    simp only [hc, if_true, hlen, List.headD_cons, List.drop_succ_cons, List.drop_zero, hc']
    rw [if_neg (by omega), if_neg (by simp; omega), List.append_assoc, rdU16le_wrU16le]
    have hdrop2 : (wrU16le p.transportCodes.1 ++ (wrU16le p.transportCodes.2 ++
        p.pathLen :: (p.pathBytes ++ p.payload))).drop 2 =
        wrU16le p.transportCodes.2 ++ p.pathLen :: (p.pathBytes ++ p.payload) := rfl
    have hdrop4 : (wrU16le p.transportCodes.1 ++ (wrU16le p.transportCodes.2 ++
        p.pathLen :: (p.pathBytes ++ p.payload))).drop 4 =
        p.pathLen :: (p.pathBytes ++ p.payload) := rfl
    rw [hdrop2, hdrop4, rdU16le_wrU16le, hbody]
    simp [McPacket.onWire, hc]
  · simp only [hc, Bool.false_eq_true, if_false] at hraw
    have hlen : (p.header :: ([] ++ p.pathLen :: (p.pathBytes ++ p.payload))).length =
        2 + p.pathBytes.length + p.payload.length := by simp; omega
    have hc' : ¬ headerHasTransportCodes p.header = true := hc
    unfold pktParse
    simp only [hc, Bool.false_eq_true, if_false, hlen, List.headD_cons, List.drop_succ_cons,
      List.drop_zero, hc']
    rw [if_neg (by omega), List.nil_append, hbody]
    simp [McPacket.onWire, hc]

/-- A packet with nothing the frame leaves out comes back as it was. -/
theorem pktParse_of_onWire {p : McPacket} {raw : Bytes}
    (h : pktSerialize p mcMaxTransUnit = .ok raw) (hwire : p.onWire = p) : pktParse raw = .ok p := by
  rw [pktParse_pktSerialize h, hwire]

/-- The dedup hash does not see the path, TRACE packets apart. -/
theorem pktCalcHash_congr (C : Crypto) {p q : McPacket} (hh : p.header = q.header)
    (hp : p.payload = q.payload) (ht : pktPayloadType p ≠ payloadTypeTrace) :
    pktCalcHash C p = pktCalcHash C q := by
  have htype : pktPayloadType p = pktPayloadType q := by rw [pktPayloadType, pktPayloadType, hh]
  have ht' : pktPayloadType q ≠ payloadTypeTrace := by rwa [← htype]
  simp only [pktCalcHash, htype, ht', if_false, hp]

end Meshcore
