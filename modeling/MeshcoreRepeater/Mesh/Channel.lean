import MeshcoreRepeater.Mesh.State

/-! # Public channels and the content policy

The codec of a public channel's messages, the commands recognised in them, and
`classify_forward`: the strict allow-list that decides what may be retransmitted.

* `classifyForward_of_proves`: a channel that proves a packet is found.
* `classifyForward_congr`: the decision reads header, codes and payload.
-/

namespace Meshcore

open ByteLib

/-! ## Regions -/

/-- `region_transport_code`: the first two bytes of an HMAC over type and payload,
with 0x0000 and 0xFFFF moved out of the way. -/
def regionTransportCode (C : Crypto) (key : Bytes) (ptype : UInt8) (payload : Bytes) : UInt16 :=
  let code := rdU16le (hmacSha256 C key (ptype :: payload.take mcMaxPacketPayload))
  if code = 0 then 1 else if code = 0xFFFF then 0xFFFE else code

/-- `region_match_index`: the first configured room the packet is tagged for. -/
def regionMatch (C : Crypto) (cfg : McConfig) (pkt : McPacket) : Option McRoom :=
  if pktRouteType pkt != routeTypeTransportFlood then none
  else cfg.rooms.find? fun room =>
    regionTransportCode C room.key (pktPayloadType pkt) pkt.payload == pkt.transportCodes.1

/-! ## The content policy -/

/-- `fwd_decision_t`; an accepted group message carries the channel that proved
it. -/
inductive FwdDecision where
  | okPublic
  | okGrpPublic (ch : McPubChannel)
  | okRegion
  | dropDm
  | dropGrpUnmatched
  | dropGrpMacfail
  | dropOther
deriving DecidableEq

/-- GRP_TXT or GRP_DATA. -/
def isGroupType (pt : UInt8) : Bool := pt == payloadTypeGrpTxt || pt == payloadTypeGrpData

/-- The MAC a channel would put on this payload: two bytes of HMAC-SHA256 over the
ciphertext. -/
def channelMac (C : Crypto) (ch : McPubChannel) (payload : Bytes) : Bytes :=
  (hmacSha256 C ch.secret.bytes (payload.drop 3)).take 2

/-- The payload names the channel and carries its MAC. -/
def channelProves (C : Crypto) (payload : Bytes) (ch : McPubChannel) : Bool :=
  payload.head? == some ch.hash && channelMac C ch payload == (payload.drop 1).take 2

/-- `classify_forward`. -/
def classifyForward (C : Crypto) (cfg : McConfig) (pkt : McPacket) : FwdDecision :=
  let pt := pktPayloadType pkt
  if pt = payloadTypeAdvert ∨ pt = payloadTypeTrace then .okPublic
  else if isGroupType pt then
    -- channel hash, two MAC bytes and at least one cipher block
    if pkt.payload.length < 19 then .dropGrpUnmatched
    else
      match cfg.publicChannels.find? (channelProves C pkt.payload) with
      | some ch => .okGrpPublic ch
      | none =>
        if (regionMatch C cfg pkt).isSome then .okRegion
        else if cfg.publicChannels.any (fun ch => pkt.payload.head? == some ch.hash) then
          .dropGrpMacfail
        else .dropGrpUnmatched
  else if pt = payloadTypeReq ∨ pt = payloadTypeResponse ∨ pt = payloadTypeTxtMsg ∨
      pt = payloadTypeAnonReq ∨ pt = payloadTypePath then .dropDm
  else .dropOther

/-- `payload_type_name`. -/
def payloadTypeName (pt : UInt8) : String :=
  if pt = payloadTypeReq then "REQ"
  else if pt = payloadTypeResponse then "RESPONSE"
  else if pt = payloadTypeTxtMsg then "TXT_MSG"
  else if pt = payloadTypeAck then "ACK"
  else if pt = payloadTypeAdvert then "ADVERT"
  else if pt = payloadTypeGrpTxt then "GRP_TXT"
  else if pt = payloadTypeGrpData then "GRP_DATA"
  else if pt = payloadTypeAnonReq then "ANON_REQ"
  else if pt = payloadTypePath then "PATH"
  else if pt = payloadTypeTrace then "TRACE"
  else if pt = payloadTypeMultipart then "MULTIPART"
  else if pt = payloadTypeControl then "CONTROL"
  else if pt = payloadTypeRawCustom then "RAW_CUSTOM"
  else "?"

/-- `decision_reason`. -/
def decisionReason : FwdDecision → String
  | .dropDm => "private direct message"
  | .dropGrpUnmatched => "group msg on an unconfigured channel"
  | .dropGrpMacfail => "group msg failed public-channel MAC"
  | _ => "non-public payload type"

/-! ## Messages -/

/-- `channel_decrypt` into a buffer of `outsz` bytes; `none` is its -1. -/
def channelDecrypt (C : Crypto) (ch : McPubChannel) (pkt : McPacket) (outsz : Nat) : Option Bytes :=
  if pkt.payload.length < 19 then none
  else
    let ct := pkt.payload.drop 3
    if ct.length % 16 ≠ 0 ∨ ct.length + 1 > outsz then none
    else some (aes128EcbDecrypt C ch.secret.bytes ct)

/-- The text of a plaintext: the C string behind the timestamp and the type. -/
def grpText (plain : Bytes) : Bytes := cstr (plain.drop 5)

/-- Where the first `": "` of a text stands. -/
def sepIndex : Bytes → Option Nat
  | 58 :: 32 :: _ => some 0
  | _ :: rest => (sepIndex rest).map (· + 1)
  | [] => none

/-- `grp_message_body`: the text behind the first `": "`, or all of it. -/
def grpMessageBody (plain : Bytes) : Option Bytes :=
  if plain.length < 5 then none
  else
    match sepIndex (grpText plain) with
    | some i => some ((grpText plain).drop (i + 2))
    | none => some (grpText plain)

/-- `grp_sender_name` into a buffer of `outsz` bytes: the text in front of the
first `": "`. -/
def grpSenderName (plain : Bytes) (outsz : Nat) : Bytes :=
  (grpText plain).take (min ((sepIndex (grpText plain)).getD 0) (outsz - 1))

/-- `channel_build_txt`: an encrypted GRP_TXT carrying `"sender: text"`; `none` when
it does not fit a packet. -/
def channelBuildTxt (C : Crypto) (ch : McPubChannel) (sender text : Bytes) (ts : UInt32)
    (routeType : UInt8) : Option McPacket :=
  let plain := wrU32le ts ++ [0] ++ sender ++ lit ": " ++ text
  let ctlen := (plain.length + 15) / 16 * 16
  if 3 + ctlen > mcMaxPacketPayload then none
  else
    let ct := aes128EcbEncrypt C ch.secret.bytes (plain ++ List.replicate (ctlen - plain.length) 0)
    some
      { McPacket.zero with
        header := pktMakeHeader payloadVer1 payloadTypeGrpTxt routeType
        payload := ch.hash :: ((hmacSha256 C ch.secret.bytes ct).take 2 ++ ct) }

/-! ## Commands -/

/-- `is_word`: the body is exactly `word`, blanks around it apart. -/
def isWord (msg word : Bytes) : Bool :=
  let msg := skipBlanks msg
  strncaseEq msg word word.length && ((msg.drop word.length).dropWhile isBlankOrEol).isEmpty

/-- `is_ping`: the same scan with the word built in. -/
def isPing (msg : Bytes) : Bool := isWord msg (lit "ping")

/-- `%d` of `sscanf`: the value is read as a `long` and stored as an `int`. -/
def scanInt (s : Bytes) : Option (Int × Bytes) :=
  (scanInteger 10 s).map fun r => ((BitVec.ofInt 32 (toLong r.1)).toInt, r.2)

/-- `is_probe`: the unclamped arguments of `probe <secs> <count>`, or `0, 0` for
`probe stop` and `probe cancel`. -/
def isProbe (msg : Bytes) : Option (Int × Int) :=
  let msg := skipBlanks msg
  if !strncaseEq msg (lit "probe") 5 then none
  else
    let p := msg.drop 5
    if (p.head?.map isBlank).getD true then
      let p := skipBlanks p
      if strncaseEq p (lit "stop") 4 || strncaseEq p (lit "cancel") 6 then some (0, 0)
      else
        match scanInt p with
        | none => none
        | some (s, rest) => (scanInt rest).map fun c => (s, c.1)
    else none

/-! ## What the policy's answers mean -/

/-- A packet proved by a channel is a group packet of the channel's. -/
theorem classifyForward_okGrpPublic {C : Crypto} {cfg : McConfig} {pkt : McPacket}
    {ch : McPubChannel} (h : classifyForward C cfg pkt = .okGrpPublic ch) :
    isGroupType (pktPayloadType pkt) = true ∧ 19 ≤ pkt.payload.length ∧
      ch ∈ cfg.publicChannels ∧ channelProves C pkt.payload ch = true := by
  unfold classifyForward at h
  simp only at h
  split at h
  · cases h
  split at h
  · rename_i hgroup
    split at h
    · cases h
    rename_i hlen
    split at h
    · rename_i ch' hfind
      cases h
      exact ⟨hgroup, by omega, List.mem_of_find?_eq_some hfind, List.find?_some hfind⟩
    · split at h
      · cases h
      split at h <;> cases h
  · split at h <;> cases h

/-- Group packets are neither adverts nor traces. -/
theorem isGroupType_ne {pt : UInt8} (h : isGroupType pt = true) :
    pt ≠ payloadTypeAdvert ∧ pt ≠ payloadTypeTrace := by
  constructor
  · rintro rfl
    exact absurd h (by decide)
  · rintro rfl
    exact absurd h (by decide)

/-- A channel that proves a group packet is found. -/
theorem classifyForward_of_proves {C : Crypto} {cfg : McConfig} {pkt : McPacket} {ch : McPubChannel}
    (hgroup : isGroupType (pktPayloadType pkt) = true) (hlen : 19 ≤ pkt.payload.length)
    (hch : ch ∈ cfg.publicChannels) (hproves : channelProves C pkt.payload ch = true) :
    ∃ c ∈ cfg.publicChannels, classifyForward C cfg pkt = .okGrpPublic c ∧
      channelProves C pkt.payload c = true := by
  have hsome : (cfg.publicChannels.find? (channelProves C pkt.payload)).isSome = true :=
    List.find?_isSome.mpr ⟨ch, hch, hproves⟩
  rcases Option.isSome_iff_exists.mp hsome with ⟨c, hfind⟩
  refine ⟨c, List.mem_of_find?_eq_some hfind, ?_, List.find?_some hfind⟩
  rcases isGroupType_ne hgroup with ⟨hadvert, htrace⟩
  unfold classifyForward
  simp only [hgroup, if_true]
  rw [if_neg (by simp [hadvert, htrace]), if_neg (by omega), hfind]

/-- A packet accepted for its region is a group packet with a room's code. -/
theorem classifyForward_okRegion {C : Crypto} {cfg : McConfig} {pkt : McPacket}
    (h : classifyForward C cfg pkt = .okRegion) :
    isGroupType (pktPayloadType pkt) = true ∧ pktRouteType pkt = routeTypeTransportFlood ∧
      ∃ room ∈ cfg.rooms,
        regionTransportCode C room.key (pktPayloadType pkt) pkt.payload = pkt.transportCodes.1 := by
  unfold classifyForward at h
  simp only at h
  split at h
  · cases h
  split at h
  · rename_i hgroup
    split at h
    · cases h
    split at h
    · cases h
    split at h
    · rename_i hregion
      unfold regionMatch at hregion
      split at hregion
      · simp at hregion
      rename_i hroute
      obtain ⟨room, hroom⟩ := Option.isSome_iff_exists.mp hregion
      exact ⟨hgroup, by simpa using hroute, room, List.mem_of_find?_eq_some hroom,
        by simpa using List.find?_some hroom⟩
    · split at h <;> cases h
  · split at h <;> cases h

/-- Only adverts and traces are public by their type. -/
theorem classifyForward_okPublic {C : Crypto} {cfg : McConfig} {pkt : McPacket}
    (h : classifyForward C cfg pkt = .okPublic) :
    pktPayloadType pkt = payloadTypeAdvert ∨ pktPayloadType pkt = payloadTypeTrace := by
  unfold classifyForward at h
  simp only at h
  split at h
  · assumption
  split at h
  · split at h
    · cases h
    split at h
    · cases h
    split at h
    · cases h
    split at h <;> cases h
  · split at h <;> cases h

/-- The decision reads the header, the codes and the payload only. -/
theorem classifyForward_congr {C : Crypto} {cfg : McConfig} {p q : McPacket}
    (hh : p.header = q.header) (hc : p.transportCodes = q.transportCodes)
    (hp : p.payload = q.payload) : classifyForward C cfg p = classifyForward C cfg q := by
  obtain ⟨header, codes, _, _, payload, _, _, _⟩ := p
  simp only at hh hc hp
  subst hh hc hp
  rfl

end Meshcore
