import MeshcoreRepeater.Mesh.Services

/-! # Receiving a frame

`mesh_on_recv`, stage by stage: parse, dedup, adverts, the content policy with
the local services, the hotspot's scope, and the relay of a FLOOD or DIRECT
packet. `mesh_on_backbone` runs the same code with the hub as the source.
-/

namespace Meshcore

open ByteLib

/-- The frame being processed came over RF. -/
def McMesh.heardOnRf (m : McMesh) : Bool := m.rxSrc == .rf

/-! ## Group messages -/

/-- What `process_public_grp` answers: 1, 0 or -1. -/
inductive PublicGrp where
  | forward
  | consumed
  | blacklisted
deriving DecidableEq

/-- Commands are taken on this channel; an empty `ping_channel` means any. -/
def onPingChannel (cfg : McConfig) (ch : McPubChannel) : Bool :=
  cfg.pingChannel.isEmpty || ch.name == cfg.pingChannel

/-- The probe an authorised sender asks for. -/
def probeRequest (cfg : McConfig) (ch : McPubChannel) (sender body : Bytes) : Option (Int × Int) :=
  if onPingChannel cfg ch && !cfg.probeAllow.isEmpty && configProbeAllowed cfg sender then
    isProbe body
  else none

/-- The mailbox takes FLOOD messages on `#mbox`, and none on a hotspot. -/
def isMboxCommand (cfg : McConfig) (pkt : McPacket) (ch : McPubChannel) : Bool :=
  cfg.mboxEnable && cfg.role != .hotspot && pktIsRouteFlood pkt && ch.name == lit "#mbox"

/-- The services part of `process_public_grp`; false if a command consumed the
message. -/
def localServices (C : Crypto) (hal : Hal) (m : McMesh) (pkt : McPacket) (ch : McPubChannel)
    (sender body : Bytes) : McMesh × Bool :=
  let onPing := onPingChannel m.cfg ch
  if m.cfg.pingPong && isPing body then
    let m := m.bump fun s => { s with pingSeen := s.pingSeen + 1 }
    (if onPing then sendPong C hal m ch pkt.rssiDbm pkt.snrQ else m, true)
  else
    match probeRequest m.cfg ch sender body with
    | some (secs, count) => (meshStartProbe hal m ch secs count, true)
    | none =>
      if onPing && m.cfg.timeofdayEnable && isWord body (lit "time") then
        (todArm hal m ch true false, true)
      else if onPing && m.cfg.timeofdayEnable && isWord body (lit "date") then
        (todArm hal m ch false true, true)
      else if onPing && isWord body (lit "help") then
        if m.meshHelpNextMs = 0 ∨ m.meshHelpNextMs ≤ hal.millis then
          ({ sendHelp C hal m ch with meshHelpNextMs := hal.millis + meshHelpCooldownMs }, true)
        else (m, true)
      else if isMboxCommand m.cfg pkt ch then mboxHandle C hal m pkt ch sender body
      else (m, true)

/-- The plaintext of a group text long enough to hold a message. -/
def groupPlain (C : Crypto) (pkt : McPacket) (ch : McPubChannel) : Option Bytes :=
  if pktPayloadType pkt != payloadTypeGrpTxt then none
  else (channelDecrypt C ch pkt mcMaxPacketPayload).filter fun plain => 5 ≤ plain.length

/-- `process_public_grp`, with the sender's name. What cannot be read is forwarded
as it is. -/
def processPublicGrp (C : Crypto) (hal : Hal) (m : McMesh) (pkt : McPacket) (ch : McPubChannel) :
    McMesh × PublicGrp × Bytes :=
  match groupPlain C pkt ch with
  | none => (m, .forward, [])
  | some plain =>
    let sender := grpSenderName plain mcBlacklistNameLen
    if configIsBlacklisted m.cfg sender then
      let m := m.bump fun s => { s with blacklisted := s.blacklisted + 1 }
      (monPktDrop m pkt "blacklisted sender", .blacklisted, sender)
    else
      -- before any reply: a woken hotspot may answer
      let m := hotspotWake C hal m pkt sender
      let m := m.monitor (.monPublic ch.name (grpText plain) pkt.rssiDbm pkt.snrQ)
      if m.rxSrc = .backbone then (m, .forward, sender)
      else
        match grpMessageBody plain with
        | none => (m, .forward, sender)
        | some body =>
          match localServices C hal m pkt ch sender body with
          | (m, true) => (m, .forward, sender)
          | (m, false) => (m, .consumed, sender)

/-! ## The stages -/

/-- An advert this radio heard: the neighbour table, and a companion wakes a
hotspot. -/
def advertHeard (C : Crypto) (hal : Hal) (m : McMesh) (pkt : McPacket) (pub : Bytes)
    (atype : UInt8) (aname : Bytes) : McMesh :=
  let m := m.bump fun s => { s with rxAdvert := s.rxAdvert + 1 }
  let m := neighborUpdate hal m pub pkt pkt.rssiDbm pkt.snrQ
  let m := if m.cfg.role = .hotspot ∧ configIsAffinity m.cfg aname = true then learnAffinity m pub
    else m
  if atype = advTypeChat then hotspotWake C hal m pkt aname else m

/-- Type and name of an advert; an empty `app_data` gives 0 and no name. -/
def advertTypeName (pkt : McPacket) : UInt8 × Bytes := (mcAdvertExtract pkt 32).getD (0, [])

/-- An advertiser is kept out by its name or by its key. -/
def advertBlocked (cfg : McConfig) (pkt : McPacket) (pub : Bytes) : Bool :=
  configIsBlacklisted cfg (advertTypeName pkt).2 || configIsKeyBlocked cfg pub

/-- A good advert is shown on the monitors; a position this radio heard goes to
the APRS gateway. -/
def advertReported (hal : Hal) (m : McMesh) (pkt : McPacket) (pub : Bytes) (atype : UInt8)
    (aname : Bytes) : McMesh :=
  let loc := mcAdvertExtractLocation pkt
  let m := m.monitor (.monAdvert aname atype loc pkt.rssiDbm pkt.snrQ)
  match loc with
  | some l => if m.heardOnRf && m.aprs then m.emit (.gateNode hal.millis aname atype l pub) else m
  | none => m

/-- The ADVERT stage; the advertiser's name, or `none` when the packet is
refused. -/
def recvAdvert (C : Crypto) (hal : Hal) (m : McMesh) (pkt : McPacket) : McMesh × Option Bytes :=
  match mcAdvertVerify C pkt with
  | none =>
    let m := m.bumpIf m.heardOnRf fun s => { s with rxAdvertBad := s.rxAdvertBad + 1 }
    (monPktDrop m pkt "advert: bad signature", none)
  | some pub =>
    let (atype, aname) := advertTypeName pkt
    if advertBlocked m.cfg pkt pub then
      let m := m.bump fun s => { s with blacklisted := s.blacklisted + 1 }
      (monPktDrop m pkt "advert: blacklisted sender", none)
    else
      let m := if m.heardOnRf then advertHeard C hal m pkt pub atype aname else m
      (advertReported hal m pkt pub atype aname, some aname)

/-- The counters of a refused packet. -/
def deniedStats (d : FwdDecision) (s : MeshStats) : MeshStats :=
  let s := { s with fwdDenied := s.fwdDenied + 1 }
  match d with
  | .dropDm => { s with fwdDeniedDm := s.fwdDeniedDm + 1 }
  | .dropGrpUnmatched => { s with fwdDeniedGrp := s.fwdDeniedGrp + 1 }
  | .dropGrpMacfail => { s with fwdDeniedGrp := s.fwdDeniedGrp + 1, grpMacFail := s.grpMacFail + 1 }
  | _ => { s with fwdDeniedOther := s.fwdDeniedOther + 1 }

/-- The content policy; the group sender's name, or what is returned. -/
def recvPolicy (C : Crypto) (hal : Hal) (m : McMesh) (pkt : McPacket) :
    McMesh × Except MeshRx Bytes :=
  match classifyForward C m.cfg pkt with
  | .okGrpPublic ch =>
    match processPublicGrp C hal m pkt ch with
    | (m, .blacklisted, _) => (m, .error .policy)
    | (m, .consumed, _) => (m, .error .localOnly)
    | (m, .forward, sender) =>
      (m.bump fun s => { s with fwdGrpPublic := s.fwdGrpPublic + 1 }, .ok sender)
  | .okRegion =>
    let m := m.bump fun s => { s with fwdRegion := s.fwdRegion + 1 }
    match regionMatch C m.cfg pkt with
    | some room =>
      (m.monitor (.monRegion room.name (pktPayloadType pkt) pkt.payload.length pkt.rssiDbm pkt.snrQ),
        .ok [])
    | none => (m, .ok [])
  | .okPublic => (m, .ok [])
  | d => (monPktDrop (m.bump (deniedStats d)) pkt (decisionReason d), .error .policy)

/-- The transmit power, or `none` when a hotspot keeps to its scope. -/
def recvScope (m : McMesh) (pkt : McPacket) (aname grpSender : Bytes) : McMesh × Option Int :=
  if m.cfg.role = .hotspot then
    match hotspotDecide m pkt aname grpSender with
    | (false, _) => (monPktDrop m pkt "hotspot: out of personal scope", none)
    | (true, power) => (m, some power)
  else (m, some m.cfg.txPower)

/-! ## The relay -/

/-- Append our path hash and bump the hop count. -/
def appendOwnHash (id : McIdentity) (pkt : McPacket) : McPacket :=
  let n := pktPathHashCount pkt
  let hs := pktPathHashSize pkt
  pktSetPathHashCount { pkt with path := pkt.path.blit (n * hs) (mcIdentityCopyHash id hs) }
    (UInt8.ofNat (n + 1))

/-- Strip ourselves from the front of the path. -/
def stripFirstHash (pkt : McPacket) : McPacket :=
  let n := pktPathHashCount pkt
  let hs := pktPathHashSize pkt
  pktSetPathHashCount { pkt with path := pkt.path.blit 0 (pkt.path.read hs ((n - 1) * hs)) }
    (UInt8.ofNat (n - 1))

/-- There is room for one more hop. -/
def floodHasRoom (pkt : McPacket) : Bool :=
  !pkt.markedDnr && decide ((pktPathHashCount pkt + 1) * pktPathHashSize pkt ≤ mcMaxPathSize)

/-- The first hop of the path is this node. -/
def isNextHop (id : McIdentity) (pkt : McPacket) : Bool :=
  decide (1 ≤ pktPathHashCount pkt) && mcIdentityHashMatch id pkt.path (pktPathHashSize pkt)

/-- The FLOOD branch: closer sources get a higher priority. -/
def relayFlood (hal : Hal) (m : McMesh) (pkt : McPacket) (power : Int) : McMesh × MeshRx :=
  if floodHasRoom pkt then
    let out := appendOwnHash m.id pkt
    match enqueue hal m out (pktPathHashCount pkt + 1) (floodBackoffMs hal out) power false with
    | (m, true) => (m.bump fun s => { s with fwdFlood := s.fwdFlood + 1 }, .forwarded)
    | (m, false) => (m, .localOnly)
  else
    let m := m.bump fun s => { s with fwdDropped := s.fwdDropped + 1 }
    (monPktDrop m pkt (if pkt.markedDnr then "do-not-retransmit" else "path full"), .localOnly)

/-- The DIRECT branch: routed traffic goes out first and at once. -/
def relayDirect (hal : Hal) (m : McMesh) (pkt : McPacket) (power : Int) : McMesh × MeshRx :=
  if isNextHop m.id pkt then
    match enqueue hal m (stripFirstHash pkt) 0 0 power false with
    | (m, true) => (m.bump fun s => { s with fwdDirect := s.fwdDirect + 1 }, .forwarded)
    | (m, false) => (m, .localOnly)
  else (m, .localOnly)

def relay (hal : Hal) (m : McMesh) (pkt : McPacket) (power : Int) : McMesh × MeshRx :=
  if pktIsRouteFlood pkt then relayFlood hal m pkt power else relayDirect hal m pkt power

/-- The last stages: scope and power, then the relay. -/
def recvRelay (hal : Hal) (m : McMesh) (pkt : McPacket) (aname grpSender : Bytes) :
    McMesh × MeshRx :=
  match recvScope m pkt aname grpSender with
  | (m, none) => (m, .policy)
  | (m, some power) => relay hal m pkt power

/-! ## The entry points -/

/-- `mesh_on_recv` from the payload type on, for a packet seen for the first
time. -/
def recvFresh (C : Crypto) (hal : Hal) (m : McMesh) (pkt : McPacket) : McMesh × MeshRx :=
  let pt := pktPayloadType pkt
  match (if pt = payloadTypeAdvert then recvAdvert C hal m pkt else (m, some [])) with
  | (m, none) => (m, .policy)
  | (m, some aname) =>
    if pt = payloadTypeTrace then
      let m := m.bumpIf m.heardOnRf fun s => { s with traceSeen := s.traceSeen + 1 }
      (monPktDrop m pkt "trace (not forwarded yet)", .localOnly)
    else if !m.cfg.forward then (m, .localOnly)
    else
      match recvPolicy C hal m pkt with
      | (m, .error r) => (m, r)
      | (m, .ok grpSender) => recvRelay hal m pkt aname grpSender

/-- The packet of a parsed frame, with the signal it was heard at. -/
def McPacket.heardAt (pkt : McPacket) (rssiDbm snrQ : Int) : McPacket :=
  { pkt with rssiDbm := rssiDbm, snrQ := snrQ }

/-- `mesh_on_recv` from the dedup on. -/
def recvParsed (C : Crypto) (hal : Hal) (m : McMesh) (pkt : McPacket) : McMesh × MeshRx :=
  let rf := m.heardOnRf
  let m := m.bumpIf rf fun s => { s with rxTotal := s.rxTotal + 1 }
  match seenCheckAndAdd m (pktCalcHash C pkt) with
  | (m, true) =>
    let m := m.bumpIf rf fun s => { s with rxDup := s.rxDup + 1 }
    (monPktDrop m pkt "duplicate (already seen)", .duplicate)
  | (m, false) =>
    let m := m.bumpIf (rf && pktRouteType pkt == routeTypeTransportFlood) fun s =>
      { s with rxTransportFlood := s.rxTransportFlood + 1 }
    recvFresh C hal m pkt

/-- `mesh_on_recv`. -/
def meshOnRecv (C : Crypto) (hal : Hal) (m : McMesh) (raw : Bytes) (rssiDbm snrQ : Int) :
    McMesh × MeshRx :=
  let rf := m.heardOnRf
  let m := m.bumpIf rf fun s => { s with rxAirtimeMs := s.rxAirtimeMs + hal.airtimeMs raw.length }
  match pktParse raw with
  | .error _ =>
    let m := m.bumpIf rf fun s => { s with rxBadParse := s.rxBadParse + 1 }
    (m.monitor (.monDrop 0xFF (lit "parse error (malformed frame)") none), .malformed)
  | .ok pkt => recvParsed C hal m (pkt.heardAt rssiDbm snrQ)

/-- `MON_VIA_BACKBONE`: no signal was measured. -/
def monViaBackbone : Int := -32768

/-- `mesh_on_backbone`. -/
def meshOnBackbone (C : Crypto) (hal : Hal) (m : McMesh) (raw : Bytes) : McMesh × MeshRx :=
  let saved := m.rxSrc
  let r := meshOnRecv C hal { m with rxSrc := .backbone } raw monViaBackbone 0
  ({ r.1 with rxSrc := saved }, r.2)

/-- `mesh_on_rx_error`: a frame lost to a bad CRC, or to a corrupt header. -/
def meshOnRxError (m : McMesh) (crc : Bool) (rssiDbm snrQ : Int) : McMesh :=
  if crc then
    (m.bump fun s => { s with rxCrcErr := s.rxCrcErr + 1 }).monitor
      (.monDrop 0xFF (lit "CRC error (rssi " ++ intDecimal rssiDbm ++ lit " snr " ++
        snrTenths snrQ ++ lit ")") none)
  else
    (m.bump fun s => { s with rxHdrErr := s.rxHdrErr + 1 }).monitor
      (.monDrop 0xFF (lit "corrupt LoRa header") none)

end Meshcore
