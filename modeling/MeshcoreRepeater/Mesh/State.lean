import MeshcoreRepeater.Lib.Numeral
import MeshcoreRepeater.Lib.SlotRing
import MeshcoreRepeater.Mbox

/-! # The repeater core: state, dedup ring and TX queue

`mc_mesh_t`, and the operations on it that everything else is made of: counting,
the dedup ring, queueing a packet, RF silence.

What a call asks of the attached components (hub, APRS gateway, monitors, radio)
is recorded in order in `events`. That field, and `own` in a queue entry, are
ghosts: no function reads them.
-/

namespace Meshcore

open ByteLib

/-! ## The platform -/

/-- The places that draw from `hal_rng_int`; none is passed twice in one call. -/
inductive RngSite where
  | advert
  | reply
  | flood
  | cad
  | probe
  | todTime
  | todDate
deriving DecidableEq

/-- What the platform answers during one call: the clocks, the random draws, and
the radio. A call is handled at one instant. -/
structure Hal where
  /-- `hal_millis()` -/
  millis : Nat
  /-- `time(NULL)` -/
  time : Nat
  rng : RngSite → Nat
  /-- `sx126x_airtime_ms`, a floating-point formula of the radio settings -/
  airtimeMs : Nat → Nat
  /-- `sx126x_channel_busy() == 1` -/
  channelBusy : Bool
  /-- `sx126x_transmit(..) == 0` -/
  transmitOk : Bool

/-- A platform at rest at the time `now`: the channel is free and every draw is 0. -/
def Hal.still (now : Nat) : Hal where
  millis := now
  time := now / 1000
  rng := fun _ => 0
  airtimeMs := fun len => len
  channelBusy := false
  transmitOk := true

/-- `hal_rng_int(lo, hi)`, both ends included. -/
def halRngInt (hal : Hal) (site : RngSite) (lo hi : Nat) : Nat :=
  if hi ≤ lo then lo else lo + hal.rng site % (hi - lo + 1)

/-- `(uint32_t)time(NULL)`. -/
def Hal.time32 (hal : Hal) : UInt32 := UInt32.ofNat hal.time

/-! ## The state -/

abbrev meshSeenSize : Nat := 160
abbrev meshTxqSize : Nat := 24
abbrev meshMaxNeighbors : Nat := 96
def meshReplyDelayMs : Nat := 300

/-- `m->rx_src`: where the frame being processed came from. -/
inductive MeshSrc where
  | rf
  | backbone
deriving DecidableEq, Repr

/-- What `mesh_on_recv` did with a frame. -/
inductive MeshRx where
  | forwarded
  | duplicate
  | policy
  | localOnly
  | malformed
deriving DecidableEq, Repr

/-- `mesh_stats_t`. -/
structure MeshStats where
  rxTotal : Nat := 0
  rxBadParse : Nat := 0
  rxCrcErr : Nat := 0
  rxHdrErr : Nat := 0
  rxDup : Nat := 0
  rxAdvert : Nat := 0
  rxAdvertBad : Nat := 0
  fwdFlood : Nat := 0
  fwdDirect : Nat := 0
  fwdDropped : Nat := 0
  traceSeen : Nat := 0
  fwdGrpPublic : Nat := 0
  fwdRegion : Nat := 0
  rxTransportFlood : Nat := 0
  fwdDenied : Nat := 0
  fwdDeniedDm : Nat := 0
  fwdDeniedGrp : Nat := 0
  fwdDeniedOther : Nat := 0
  grpMacFail : Nat := 0
  pingSeen : Nat := 0
  pongSent : Nat := 0
  probesSent : Nat := 0
  mboxStored : Nat := 0
  mboxReplies : Nat := 0
  timeofdaySent : Nat := 0
  helpSent : Nat := 0
  blacklisted : Nat := 0
  txTotal : Nat := 0
  txCadBusy : Nat := 0
  txQueueFull : Nat := 0
  txFailed : Nat := 0
  radioResets : Nat := 0
  advertsSent : Nat := 0
  txSilent : Nat := 0
  txAirtimeMs : Nat := 0
  rxAirtimeMs : Nat := 0
deriving DecidableEq, Repr

/-- `mesh_neighbor_t`. -/
structure MeshNeighbor where
  used : Bool
  pub : Bytes
  name : Bytes
  type : UInt8
  rssi : Int
  snrQ : Int
  lastSeen : UInt32
  count : UInt32
  hops : Nat
deriving DecidableEq

/-- A slot after `memset(n, 0, sizeof(*n))`. -/
def MeshNeighbor.zero : MeshNeighbor := ⟨false, List.replicate 32 0, [], 0, 0, 0, 0, 0, 0⟩

/-- `mesh_tx_entry_t`. The ghost `own` keeps the argument `enqueue` was given. -/
structure MeshTxEntry where
  used : Bool
  pkt : McPacket
  dueMs : Nat
  priority : Nat
  powerDbm : Int
  own : Bool
deriving DecidableEq

def MeshTxEntry.zero : MeshTxEntry := ⟨false, McPacket.zero, 0, 0, 0, false⟩

/-- One row of `m->mbox_gate`. -/
structure MboxGate where
  call : Bytes
  nextMs : Nat
deriving DecidableEq

/-- The calls out of the mesh, and the writes into the dedup ring. -/
inductive Event where
  | recorded (hash : Bytes)
  | offer (raw : Bytes) (own : Bool)
  | statusSoon
  | gateNode (now : Nat) (name : Bytes) (type : UInt8) (loc : ℚ × ℚ) (pub : Bytes)
  | monPublic (chan text : Bytes) (rssi snrQ : Int)
  | monRegion (room : Bytes) (ptype : UInt8) (len : Nat) (rssi snrQ : Int)
  | monAdvert (name : Bytes) (type : UInt8) (loc : Option (ℚ × ℚ)) (rssi snrQ : Int)
  | monDrop (ptype : UInt8) (reason : Bytes) (chanHash : Option UInt8)
  | monTx (ptype : String) (flood : Bool) (len hops : Nat) (power : Int) (airtime : Nat)
      (detail : Bytes)
  | setTxPower (power : Int)
  | transmit (raw : Bytes) (timeoutMs : Nat)
  | radioReinit
deriving DecidableEq

/-- `mc_mesh_t`. The pointers `aprs`, `mon` and `bb` say whether the component is
attached; for the monitors also how many clients watch. -/
structure McMesh where
  id : McIdentity
  cfg : McConfig
  seen : SlotRing meshSeenSize Bytes
  txq : Fin meshTxqSize → MeshTxEntry
  neighbors : Fin meshMaxNeighbors → MeshNeighbor
  stats : MeshStats
  startMs : Nat
  aprs : Bool
  mon : Option Nat
  bb : Bool
  rxSrc : MeshSrc
  affinityHash : List UInt8
  hsAwakeUntilMs : Nat
  hsWokenBy : Bytes
  hsSilent : Bool
  lastAdvertMs : Nat
  probeCh : McPubChannel
  probeIntervalMs : Nat
  probeTotal : Nat
  probeRemaining : Nat
  probeSeq : Nat
  probeNextMs : Nat
  mbox : McMbox
  mboxGate : Fin 8 → MboxGate
  todCh : McPubChannel
  todMinute : UInt32
  todTimePending : Bool
  todDatePending : Bool
  meshHelpNextMs : Nat
  events : List Event

def McPubChannel.zero : McPubChannel := ⟨[], Buf.zero 32, 0, 0, false, false⟩

def zeroHash : Bytes := List.replicate 8 0

/-- `mesh_init`, with the components the main loop attaches right after it. -/
def meshInit (hal : Hal) (id : McIdentity) (cfg : McConfig) (aprs : Bool) (mon : Option Nat)
    (bb : Bool) : McMesh where
  id := id
  cfg := cfg
  seen := ⟨fun _ => zeroHash, 0⟩
  txq := fun _ => MeshTxEntry.zero
  neighbors := fun _ => MeshNeighbor.zero
  stats := {}
  startMs := hal.millis
  aprs := aprs
  mon := mon
  bb := bb
  rxSrc := .rf
  affinityHash := []
  hsAwakeUntilMs := 0
  hsWokenBy := []
  hsSilent := false
  lastAdvertMs := hal.millis
  probeCh := McPubChannel.zero
  probeIntervalMs := 0
  probeTotal := 0
  probeRemaining := 0
  probeSeq := 0
  probeNextMs := 0
  mbox := mboxInit
  mboxGate := fun _ => ⟨[], 0⟩
  todCh := McPubChannel.zero
  todMinute := 0
  todTimePending := false
  todDatePending := false
  meshHelpNextMs := 0
  events := []

/-! ## Counting and reporting -/

/-- Change the counters. -/
def McMesh.bump (m : McMesh) (f : MeshStats → MeshStats) : McMesh := { m with stats := f m.stats }

/-- Change the counters of what the radio heard. -/
def McMesh.bumpIf (m : McMesh) (rf : Bool) (f : MeshStats → MeshStats) : McMesh :=
  if rf then m.bump f else m

def McMesh.emit (m : McMesh) (e : Event) : McMesh := { m with events := m.events ++ [e] }

/-- Report to the monitors, when any is attached. -/
def McMesh.monitor (m : McMesh) (e : Event) : McMesh := if m.mon.isSome then m.emit e else m

/-- The channel hash of a group packet, for a drop event. -/
def monChanHash (pkt : McPacket) : Option UInt8 :=
  if pktPayloadType pkt = payloadTypeGrpTxt ∨ pktPayloadType pkt = payloadTypeGrpData then
    pkt.payload.head?
  else none

/-- `mon_pkt_drop`. -/
def monPktDrop (m : McMesh) (pkt : McPacket) (reason : String) : McMesh :=
  m.monitor (.monDrop (pktPayloadType pkt) (lit reason) (monChanHash pkt))

/-! ## The dedup ring -/

/-- `seen_check_and_add`: true if the hash was already present, else it is
recorded. -/
def seenCheckAndAdd (m : McMesh) (hash : Bytes) : McMesh × Bool :=
  if hash ∈ m.seen then (m, true)
  else ({ m with seen := m.seen.push hash }.emit (.recorded hash), false)

/-- Record the hash of a packet this node sends itself. -/
def recordOwn (C : Crypto) (m : McMesh) (pkt : McPacket) : McMesh :=
  (seenCheckAndAdd m (pktCalcHash C pkt)).1

/-! ## The TX queue -/

/-- `mesh_rf_silent`: a hotspot whose awake deadline has passed. -/
def meshRfSilent (m : McMesh) (nowMs : Nat) : Bool :=
  m.cfg.role == .hotspot && m.cfg.hotspotAwake != 0 && decide (m.hsAwakeUntilMs ≤ nowMs)

/-- The first free slot of the queue. -/
def freeSlot (txq : Fin meshTxqSize → MeshTxEntry) : Option (Fin meshTxqSize) :=
  (List.finRange meshTxqSize).find? fun i => !(txq i).used

/-- `mesh_txq_free`. -/
def meshTxqFree (m : McMesh) : Nat := (List.finRange meshTxqSize).countP fun i => !(m.txq i).used

/-- Put an entry into a slot. -/
def McMesh.putTx (m : McMesh) (i : Fin meshTxqSize) (e : MeshTxEntry) : McMesh :=
  { m with txq := Function.update m.txq i e }

/-- `enqueue`. Everything queued is offered to the hub, except frames the hub
sent; a silent hotspot queues nothing. -/
def enqueue (hal : Hal) (m : McMesh) (pkt : McPacket) (priority delayMs : Nat) (powerDbm : Int)
    (own : Bool) : McMesh × Bool :=
  if meshRfSilent m hal.millis then
    (monPktDrop (m.bump fun s => { s with txSilent := s.txSilent + 1 }) pkt
      "hotspot: RF silent (no companion heard)", false)
  else
    match freeSlot m.txq with
    | some i =>
      let m := m.putTx i ⟨true, pkt, hal.millis + delayMs, priority, powerDbm, own⟩
      if m.bb && m.rxSrc != .backbone then
        match pktSerialize pkt mcMaxTransUnit with
        | .ok raw => (m.emit (.offer raw own), true)
        | .error _ => (m, true)
      else (m, true)
    | none => (m.bump fun s => { s with txQueueFull := s.txQueueFull + 1 }, false)

/-- `flood_backoff_ms`: up to five slots of half the packet's airtime. -/
def floodBackoffMs (hal : Hal) (pkt : McPacket) : Nat :=
  let airtime := hal.airtimeMs (pktRawLength pkt)
  halRngInt hal .flood 0 5 * (airtime * 52 / 50 / 2)

/-- `reply_delay_ms`. -/
def replyDelayMs (hal : Hal) : Nat := meshReplyDelayMs + halRngInt hal .reply 0 3 * 50

/-- `own_tx_power`: what this node originates goes out at the high level on a
hotspot. -/
def ownTxPower (m : McMesh) : Int :=
  if m.cfg.role = .hotspot then m.cfg.hotspotPowerHigh else m.cfg.txPower

end Meshcore
