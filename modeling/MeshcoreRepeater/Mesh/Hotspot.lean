import MeshcoreRepeater.Mesh.Channel

/-! # Neighbours, adverts and the hotspot role

The neighbour table, the self-advert, and what a node of role hotspot adds: it
keeps off the air until one of the operator's own companions is heard directly,
and it forwards only for them.
-/

namespace Meshcore

open ByteLib

/-! ## The neighbour table -/

/-- One turn of the search for the slot heard longest ago. -/
def oldestStep (neighbors : Fin meshMaxNeighbors → MeshNeighbor) (acc : UInt32 × Fin meshMaxNeighbors) (i : Fin meshMaxNeighbors) :
    UInt32 × Fin meshMaxNeighbors :=
  if (neighbors i).used && (neighbors i).lastSeen < acc.1 then ((neighbors i).lastSeen, i) else acc

/-- The slot a new neighbour takes: the first free one, else the oldest. -/
def newNeighborSlot (neighbors : Fin meshMaxNeighbors → MeshNeighbor) : Fin meshMaxNeighbors :=
  match (List.finRange meshMaxNeighbors).find? fun i => !(neighbors i).used with
  | some i => i
  | none => ((List.finRange meshMaxNeighbors).foldl (oldestStep neighbors) (0xFFFFFFFF, 0)).2

/-- What hearing an advert writes into a slot, new or known. -/
def MeshNeighbor.heard (n : MeshNeighbor) (hal : Hal) (pkt : McPacket) (rssi snrQ : Int) :
    MeshNeighbor :=
  { n with
    rssi := rssi
    snrQ := snrQ
    lastSeen := hal.time32
    count := n.count + 1
    hops := pktPathHashCount pkt
    type := ((mcAdvertExtract pkt 32).map (·.1)).getD n.type
    name := ((mcAdvertExtract pkt 32).map (·.2)).getD [] }

/-- `neighbor_update`. -/
def neighborUpdate (hal : Hal) (m : McMesh) (pub : Bytes) (pkt : McPacket) (rssi snrQ : Int) :
    McMesh :=
  match (List.finRange meshMaxNeighbors).find? fun i => (m.neighbors i).used && (m.neighbors i).pub == pub with
  | some i =>
    { m with
      neighbors := Function.update m.neighbors i ((m.neighbors i).heard hal pkt rssi snrQ) }
  | none =>
    let fresh := { MeshNeighbor.zero with used := true, pub := pub }
    { m with
      neighbors := Function.update m.neighbors (newNeighborSlot m.neighbors)
        (fresh.heard hal pkt rssi snrQ) }

/-- `learn_affinity`: the path hash of an affinity repeater. -/
def learnAffinity (m : McMesh) (pub : Bytes) : McMesh :=
  let b := pub.headD 0
  if b ∈ m.affinityHash then m
  else if m.affinityHash.length < mcMaxAffinity then
    { m with affinityHash := m.affinityHash ++ [b] }
  else m

/-- `path_has_affinity`: some hop of the path is an affinity repeater. -/
def pathHasAffinity (m : McMesh) (pkt : McPacket) : Bool :=
  (List.range (pktPathHashCount pkt)).any fun h =>
    (pkt.path.bytes.getD (h * pktPathHashSize pkt) 0) ∈ m.affinityHash

/-! ## The self-advert -/

/-- The self-advert of the current configuration. -/
def ownAdvertInfo (m : McMesh) : McAdvertInfo where
  type := advTypeRepeater
  hasLocation := m.cfg.hasLocation
  latitude := m.cfg.latitude
  longitude := m.cfg.longitude
  name := m.cfg.name

/-- `mesh_send_advert`: 0 when queued, 1 while silent, -1 on failure. -/
def meshSendAdvert (C : Crypto) (hal : Hal) (m : McMesh) : McMesh × Int :=
  if meshRfSilent m hal.millis then (m, 1)
  else
    match mcAdvertBuild C m.id (ownAdvertInfo m) hal.time32 with
    | none => (m, -1)
    | some pkt =>
      -- a neighbour's echo is to be a duplicate
      let m := recordOwn C m pkt
      match enqueue hal m pkt 0 (halRngInt hal .advert 0 3 * 50) (ownTxPower m) true with
      | (m, false) => (m, -1)
      | (m, true) =>
        ({ m.bump (fun s => { s with advertsSent := s.advertsSent + 1 }) with
            lastAdvertMs := hal.millis }, 0)

/-! ## Waking -/

/-- `is_companion_name`: one of the operator's own devices, and no repeater, room
or sensor. -/
def isCompanionName (m : McMesh) (name : Bytes) : Bool :=
  if name.isEmpty || !configIsHome m.cfg name || strncaseEq name (lit "ON0") 3 ||
      configIsAffinity m.cfg name || strcaseEq name m.cfg.name then false
  else (List.finRange meshMaxNeighbors).all fun i =>
    !((m.neighbors i).used && (m.neighbors i).type != advTypeChat && strcaseEq (m.neighbors i).name name)

/-- The guard of `hotspot_wake`: a companion heard on RF with no hop between. -/
def wakesHotspot (m : McMesh) (pkt : McPacket) (who : Bytes) : Bool :=
  m.cfg.role == .hotspot && m.cfg.hotspotAwake != 0 && m.rxSrc == .rf &&
    pktPathHashCount pkt == 0 && isCompanionName m who

/-- Move the awake deadline. -/
def McMesh.wakeUntil (m : McMesh) (nowMs : Nat) (who : Bytes) : McMesh :=
  { m with
    hsAwakeUntilMs := nowMs + m.cfg.hotspotAwake.toNat * 1000
    hsWokenBy := snprintfS 32 who }

/-- `hotspot_wake`: a node waking from silence identifies first. -/
def hotspotWake (C : Crypto) (hal : Hal) (m : McMesh) (pkt : McPacket) (who : Bytes) : McMesh :=
  if wakesHotspot m pkt who then
    let woken := m.wakeUntil hal.millis who
    if meshRfSilent m hal.millis then
      let m := (meshSendAdvert C hal { woken with hsSilent := false }).1
      if m.bb then m.emit .statusSoon else m
    else woken
  else m

/-! ## Forwarding scope -/

/-- `hotspot_decide`: whether to forward, and at which power. -/
def hotspotDecide (m : McMesh) (pkt : McPacket) (aname grpSender : Bytes) : Bool × Int :=
  let pt := pktPayloadType pkt
  if m.rxSrc = .backbone then
    -- the hub stands in for the repeater: downlink only
    (pt != payloadTypeAdvert || configIsAffinity m.cfg aname, m.cfg.hotspotPowerLow)
  else if pt = payloadTypeAdvert then
    if configIsAffinity m.cfg aname then (true, m.cfg.hotspotPowerLow)
    else if configIsHome m.cfg aname then (true, m.cfg.hotspotPowerHigh)
    else (false, m.cfg.hotspotPowerLow)
  else if pathHasAffinity m pkt then (true, m.cfg.hotspotPowerLow)
  else if pt = payloadTypeGrpTxt ∧ configIsAffinity m.cfg grpSender = true then
    (true, m.cfg.hotspotPowerLow)
  else if pt = payloadTypeGrpTxt then (configIsHome m.cfg grpSender, m.cfg.hotspotPowerHigh)
  else (false, m.cfg.hotspotPowerHigh)

end Meshcore
