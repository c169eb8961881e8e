import MeshcoreRepeater.Packet

/-! # The packet codec is exact

`pkt_parse` accepts the byte strings of the wire format (`WireFormat`) and no others, and
`pkt_serialize` is its inverse, both ways (`packet_codec_exact`).

* `pktParse_bytes`: a parsed packet consists of its fields in the order they are written.
* `pktParse_accepts_iff`: the parser accepts the wire format.
* `packet_codec_exact`: parser and serialiser are inverse to each other.
-/

namespace Meshcore

open ByteLib

/-! ## Reading back what was read -/

/-- Two bytes are read back from the word they are read as. -/
theorem wrU16le_rdU16le {b : Bytes} (h : b.length = 2) : wrU16le (rdU16le b) = b := by
  obtain ⟨b0, b1, rfl⟩ : ∃ b0 b1, b = [b0, b1] := by
    match b, h with
    | [b0, b1], _ => exact ⟨b0, b1, rfl⟩
  simp only [rdU16le, wrU16le, List.getD_cons_zero, List.getD_cons_succ, List.cons.injEq, and_true]
  refine ⟨?_, ?_⟩ <;>
  · apply UInt8.toBitVec_inj.mp
    ext i hi
    simp only [UInt16.toBitVec_toUInt8, UInt16.toBitVec_and, UInt16.toBitVec_or,
      UInt16.toBitVec_shiftLeft, UInt16.toBitVec_shiftRight, UInt8.toBitVec_toUInt16,
      UInt16.toBitVec_ofNat]
    interval_cases i <;> simp

theorem rdU16le_take (b : Bytes) : rdU16le (b.take 2) = rdU16le b := by
  match b with
  | [] => rfl
  | [_] => rfl
  | _ :: _ :: _ => rfl

/-- The transport codes of a packet, written again. -/
theorem wrU16le_codes {b : Bytes} (h : 4 ≤ b.length) :
    wrU16le (rdU16le b) ++ wrU16le (rdU16le (b.drop 2)) = b.take 4 := by
  have hfirst : wrU16le (rdU16le b) = b.take 2 := by
    rw [← rdU16le_take]
    exact wrU16le_rdU16le (by rw [List.length_take]; omega)
  have hsecond : wrU16le (rdU16le (b.drop 2)) = (b.drop 2).take 2 := by
    rw [← rdU16le_take]
    exact wrU16le_rdU16le (by rw [List.length_take, List.length_drop]; omega)
  rw [hfirst, hsecond, ← List.take_add]

/-- The bytes behind the codes are those of the packet. -/
theorem pktParseBody_bytes {header : UInt8} {codes : UInt16 × UInt16} {src : Bytes} {p : McPacket}
    (h : pktParseBody header codes src = .ok p) : p.pathLen :: (p.pathBytes ++ p.payload) = src := by
  cases src with
  | nil => simp [pktParseBody] at h
  | cons pathLen rest =>
    simp only [pktParseBody] at h
    split at h
    · cases h
    rename_i hvalid
    split at h
    · cases h
    rename_i hpbl
    split at h
    · cases h
    cases h
    have hfits : pathHashCount pathLen * pathHashSize pathLen ≤ 64 :=
      ((pktValidPathLen_iff pathLen).mp (by simpa using hvalid)).2
    have hlen : (rest.take (pathHashCount pathLen * pathHashSize pathLen)).length =
        pathHashCount pathLen * pathHashSize pathLen := by
      rw [List.length_take]
      omega
    have hpath : (Buf.ofBytes 64 (rest.take (pathHashCount pathLen * pathHashSize pathLen))).read 0
        (pathHashCount pathLen * pathHashSize pathLen) =
          rest.take (pathHashCount pathLen * pathHashSize pathLen) := by
      have hread := Buf.read_ofBytes (n := 64) (rest.take (pathHashCount pathLen * pathHashSize pathLen))
        (by rw [hlen]; exact hfits)
      rwa [hlen] at hread
    simp only [McPacket.pathBytes, pktPathByteLen, pktPathHashCount, pktPathHashSize, hpath,
      List.take_append_drop]

/-- What is parsed consists of the packet's fields, in the order they are written. -/
theorem pktParse_bytes {b : Bytes} {p : McPacket} (h : pktParse b = .ok p) :
    p.header :: ((if pktHasTransportCodes p then
      wrU16le p.transportCodes.1 ++ wrU16le p.transportCodes.2 else []) ++
        p.pathLen :: (p.pathBytes ++ p.payload)) = b := by
  unfold pktParse at h
  split at h
  · cases h
  rename_i hlen
  obtain ⟨header, rest, rfl⟩ : ∃ header rest, b = header :: rest := by
    match b, hlen with
    | header :: rest, _ => exact ⟨header, rest, rfl⟩
    | [], hlen => simp at hlen
  simp only [List.headD_cons, List.drop_succ_cons, List.drop_zero] at h
  split at h
  · rename_i hcodes
    split at h
    · cases h
    rename_i hfour
    obtain ⟨hheader, htransport, -⟩ := pktParseBody_ok h
    rw [pktHasTransportCodes, hheader, if_pos hcodes, htransport, pktParseBody_bytes h,
      wrU16le_codes (not_lt.mp hfour), List.take_append_drop]
  · rename_i hcodes
    obtain ⟨hheader, -⟩ := pktParseBody_ok h
    rw [pktHasTransportCodes, hheader, if_neg hcodes, pktParseBody_bytes h]
    rfl

/-- Whatever is parsed has the length it says, and is serialised back. -/
theorem pktSerialize_pktParse {b : Bytes} {p : McPacket} (h : pktParse b = .ok p) :
    pktRawLength p = b.length ∧ ∀ destsz, b.length ≤ destsz → pktSerialize p destsz = .ok b := by
  have hwf := pktParse_wellFormed h
  have hbytes := pktParse_bytes h
  have hraw : pktRawLength p = b.length := by
    rw [← hbytes, pktRawLength]
    have hpath := length_pathBytes hwf.byteLen_le
    split <;> simp only [List.length_cons, List.length_append, List.length_nil, length_wrU16le, hpath] <;>
      omega
  refine ⟨hraw, fun destsz hdest => ?_⟩
  have hmax := hwf.raw_le
  unfold pktSerialize
  rw [if_neg (by omega), if_neg (not_lt.mpr hwf.payload_le), if_neg (by simp [hwf.pathLen_valid])]
  simp only [hbytes]

/-! ## The wire format -/

/-- A byte string of the wire format: the header, four bytes of transport codes for the
route types 0 and 3, the path length with its two fields, the path and the payload. -/
structure WireFormat (b : Bytes) : Prop where
  size : 2 ≤ b.length ∧ b.length ≤ 255
  parts : ∃ (header pathLen : UInt8) (codes path payload : Bytes),
    b = header :: (codes ++ pathLen :: (path ++ payload)) ∧
      codes.length = (if header &&& 3 = 0 ∨ header &&& 3 = 3 then 4 else 0) ∧
      (pathLen >>> 6).toNat ≠ 3 ∧
      (pathLen &&& 0x3F).toNat * ((pathLen >>> 6).toNat + 1) ≤ 64 ∧
      path.length = (pathLen &&& 0x3F).toNat * ((pathLen >>> 6).toNat + 1) ∧
      payload.length ≤ 184

/-- A packet in memory with nothing beyond what it says it holds. The payload of the model
is the bytes in use. -/
structure McPacket.Exact (p : McPacket) : Prop where
  pathLen_valid : pktValidPathLen p.pathLen = true
  payload_le : p.payload.length ≤ 184
  raw_le : pktRawLength p ≤ 255
  path_zero : ∀ i, pktPathByteLen p ≤ i → p.path.bytes.getD i 0 = 0
  codes_zero : pktHasTransportCodes p = false → p.transportCodes = (0, 0)
  rssi_zero : p.rssiDbm = 0
  snr_zero : p.snrQ = 0
  dnr : p.markedDnr = (p.header == 0xFF)

theorem hasTransportCodes_iff (header : UInt8) :
    headerHasTransportCodes header = true ↔ header &&& 3 = 0 ∨ header &&& 3 = 3 := by
  simp [headerHasTransportCodes, routeTypeTransportFlood, routeTypeTransportDirect]

/-- The parser accepts the wire format. -/
theorem pktParse_accepts_iff (b : Bytes) : (∃ p, pktParse b = .ok p) ↔ WireFormat b := by
  constructor
  · rintro ⟨p, h⟩
    have hwf := pktParse_wellFormed h
    have hraw := (pktSerialize_pktParse h).1
    obtain ⟨hsize, hfits⟩ := (pktValidPathLen_iff _).mp hwf.pathLen_valid
    refine ⟨⟨?_, ?_⟩, p.header, p.pathLen, _, p.pathBytes, p.payload, (pktParse_bytes h).symm, ?_, ?_, hfits,
      length_pathBytes hwf.byteLen_le, hwf.payload_le⟩
    · rw [← hraw, pktRawLength]
      omega
    · rw [← hraw]
      exact hwf.raw_le
    · by_cases hcodes : headerHasTransportCodes p.header = true
      · rw [pktHasTransportCodes, if_pos hcodes, if_pos ((hasTransportCodes_iff _).mp hcodes)]
        rfl
      · rw [pktHasTransportCodes, if_neg hcodes, if_neg fun hc => hcodes ((hasTransportCodes_iff _).mpr hc)]
        rfl
    · intro hthree
      exact hsize (by rw [pathHashSize, hthree])
  · rintro ⟨⟨hmin, hmax⟩, header, pathLen, codes, path, payload, rfl, hcodes, hsize, hfits, hpath, hpay⟩
    have hvalid : pktValidPathLen pathLen = true := by
      refine (pktValidPathLen_iff pathLen).mpr ⟨fun hfour => hsize ?_, hfits⟩
      exact Nat.succ.inj hfour
    have hbody := fun c => pktParseBody_append header c hvalid hpath hpay
    unfold pktParse
    rw [if_neg (by rw [not_or]; exact ⟨not_lt.mpr hmin, not_lt.mpr hmax⟩)]
    simp only [List.headD_cons, List.drop_succ_cons, List.drop_zero]
    by_cases hhas : headerHasTransportCodes header = true
    · rw [if_pos ((hasTransportCodes_iff header).mp hhas)] at hcodes
      rw [if_pos hhas, if_neg (by rw [List.length_append, hcodes]; omega), List.drop_left' hcodes, hbody]
      exact ⟨_, rfl⟩
    · rw [if_neg fun hc => hhas ((hasTransportCodes_iff header).mpr hc)] at hcodes
      rw [if_neg hhas, List.eq_nil_of_length_eq_zero hcodes, List.nil_append, hbody]
      exact ⟨_, rfl⟩

/-- A buffer that is zero from `k` on is its first `k` bytes. -/
theorem Buf.ofBytes_read {n k : Nat} (b : Buf n) (hk : k ≤ n) (hzero : ∀ i, k ≤ i → b.bytes.getD i 0 = 0) :
    Buf.ofBytes n (b.read 0 k) = b := by
  have hlen := b.length_eq
  have hread : (b.read 0 k).length = k := b.length_read 0 k (by omega)
  have hbytes : (Buf.ofBytes n (b.read 0 k)).bytes = b.bytes := by
    have htail : (List.replicate n (0 : UInt8)).drop k = b.bytes.drop k := by
      refine List.ext_getElem (by simp [hlen]) fun i hi hi' => ?_
      have hz := hzero (k + i) (by omega)
      rw [List.length_drop] at hi'
      rw [List.getD_eq_getElem?_getD, List.getElem?_eq_getElem (by omega), Option.getD_some] at hz
      simp [hz]
    have hall : b.bytes.take k ++ b.bytes.drop k = b.bytes := List.take_append_drop k b.bytes
    simp only [Buf.ofBytes, Buf.blit, Buf.zero, List.take_zero, List.nil_append, hread, Nat.zero_add, htail]
    rw [Buf.read, List.drop_zero, hall]
    exact List.take_of_length_le hlen.le
  cases b
  cases hof : Buf.ofBytes n _
  rw [hof] at hbytes
  cases hbytes
  rfl

/-- Nothing of an exact packet is lost on the wire. -/
theorem McPacket.Exact.onWire {p : McPacket} (h : p.Exact) : p.onWire = p := by
  have hfits := ((pktValidPathLen_iff _).mp h.pathLen_valid).2
  have hpath : Buf.ofBytes 64 p.pathBytes = p.path := Buf.ofBytes_read p.path hfits h.path_zero
  have hcodes : (if pktHasTransportCodes p then p.transportCodes else (0, 0)) = p.transportCodes := by
    split
    · rfl
    · rename_i hnone
      exact (h.codes_zero (by simpa using hnone)).symm
  rw [McPacket.onWire, hpath, hcodes, ← h.dnr]
  have hrssi := h.rssi_zero
  have hsnr := h.snr_zero
  cases p
  simp only at hrssi hsnr
  subst hrssi hsnr
  rfl

/-- The codec is exact: the parser accepts the wire format and nothing else, what it
accepts is serialised back and has the length it says, and an exact packet is parsed back
from what it is serialised to. -/
theorem packet_codec_exact :
    (∀ b : Bytes, ((∃ p, pktParse b = .ok p) ↔ WireFormat b) ∧
      ∀ p, pktParse b = .ok p →
        pktRawLength p = b.length ∧ ∀ destsz, b.length ≤ destsz → pktSerialize p destsz = .ok b) ∧
    ∀ p : McPacket, p.Exact → ∃ b, pktSerialize p mcMaxTransUnit = .ok b ∧ pktParse b = .ok p := by
  refine ⟨fun b => ⟨pktParse_accepts_iff b, fun p h => pktSerialize_pktParse h⟩, fun p h => ?_⟩
  have hser : ∃ b, pktSerialize p mcMaxTransUnit = .ok b := by
    have hraw := h.raw_le
    have hpay := h.payload_le
    have hmax : mcMaxTransUnit = 255 := rfl
    have hpayMax : mcMaxPacketPayload = 184 := rfl
    unfold pktSerialize
    rw [if_neg (by omega), if_neg (by omega), if_neg (by simp [h.pathLen_valid])]
    exact ⟨_, rfl⟩
  obtain ⟨b, hb⟩ := hser
  refine ⟨b, hb, ?_⟩
  rw [pktParse_pktSerialize hb, h.onWire]

end Meshcore
