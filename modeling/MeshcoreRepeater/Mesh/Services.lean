import MeshcoreRepeater.Mesh.Hotspot

/-! # Local services

What a repeater answers on its public channels: pong, the time and date at the
next minute, help, coverage probes, and the `#mbox` mailbox with its routed
replies. Every packet sent here is the node's own.
-/

namespace Meshcore

open ByteLib

/-! ## Sending -/

/-- Record the packet's hash, so that its echo is a duplicate, and queue it at
priority 1. -/
def sendOwn (C : Crypto) (hal : Hal) (m : McMesh) (pkt : McPacket) (delayMs : Nat) :
    McMesh × Bool :=
  let m := recordOwn C m pkt
  enqueue hal m pkt 1 delayMs (ownTxPower m) true

/-- `%.1f` of `snr_q / 4.0`; ties go to the even digit. -/
def snrTenths (snrQ : Int) : Bytes :=
  (if snrQ < 0 then [45] else []) ++ decimal (snrQ.natAbs / 4) ++ [46] ++
    decimal ([0, 2, 5, 8].getD (snrQ.natAbs % 4) 0)

/-- `send_pong`: the reply carries the signal the ping was heard at. -/
def sendPong (C : Crypto) (hal : Hal) (m : McMesh) (ch : McPubChannel) (rssi snrQ : Int) : McMesh :=
  let txt := snprintfS 48 (lit "pong rssi " ++ intDecimal rssi ++ lit "dBm snr " ++
    snrTenths snrQ ++ lit "dB")
  match channelBuildTxt C ch m.cfg.name txt hal.time32 routeTypeFlood with
  | none => m
  | some pkt =>
    match sendOwn C hal m pkt (replyDelayMs hal) with
    | (m, true) => m.bump fun s => { s with pongSent := s.pongSent + 1 }
    | (m, false) => m

/-- `tod_arm`: answer at the next minute; requests within one minute are one. -/
def todArm (hal : Hal) (m : McMesh) (ch : McPubChannel) (wantTime wantDate : Bool) : McMesh :=
  { m with
    todMinute := if !m.todTimePending && !m.todDatePending then UInt32.ofNat (hal.time / 60)
      else m.todMinute
    todCh := ch
    todTimePending := m.todTimePending || wantTime
    todDatePending := m.todDatePending || wantDate }

/-- `send_tod`. -/
def sendTod (C : Crypto) (hal : Hal) (site : RngSite) (m : McMesh) (text : Bytes) : McMesh :=
  match channelBuildTxt C m.todCh m.cfg.name text hal.time32 routeTypeFlood with
  | none => m
  | some pkt =>
    match sendOwn C hal m pkt (halRngInt hal site 0 3 * 50) with
    | (m, true) => m.bump fun s => { s with timeofdaySent := s.timeofdaySent + 1 }
    | (m, false) => m

def meshHelpCooldownMs : Nat := 8000

/-- The commands that are enabled, in one line. -/
def helpText (cfg : McConfig) : Bytes :=
  snprintfS 160 (lit "commands:" ++ (if cfg.pingPong then lit " ping(alive)" else []) ++
    (if cfg.timeofdayEnable then lit " time/date(UTC clock)" else []) ++
    (if cfg.probeAllow.isEmpty then [] else lit " probe<secs count>(range,auth)") ++ lit " help")

/-- `send_help`: counted even when the queue refused it. -/
def sendHelp (C : Crypto) (hal : Hal) (m : McMesh) (ch : McPubChannel) : McMesh :=
  match channelBuildTxt C ch m.cfg.name (helpText m.cfg) hal.time32 routeTypeFlood with
  | none => m
  | some pkt =>
    ((sendOwn C hal m pkt (replyDelayMs hal)).1).bump fun s => { s with helpSent := s.helpSent + 1 }

/-! ## The mailbox -/

def mboxReplyCooldownMs : Nat := 8000

/-- The received path with its hops in reverse order. -/
def reversedPath (rx : McPacket) : Bytes :=
  (List.range (pktPathHashCount rx)).flatMap fun i =>
    rx.path.read ((pktPathHashCount rx - 1 - i) * pktPathHashSize rx) (pktPathHashSize rx)

/-- Route a packet back along the path `rx` came by. -/
def routeBack (pkt rx : McPacket) : McPacket :=
  let n := pktPathHashCount rx
  let hs := pktPathHashSize rx
  if 0 < n ∧ n * hs ≤ mcMaxPathSize then
    { pkt with
      path := pkt.path.blit 0 (reversedPath rx)
      pathLen := ((UInt8.ofNat (hs - 1) &&& (0x03 : UInt8)) <<< (6 : UInt8)) |||
        (UInt8.ofNat n &&& (0x3F : UInt8)) }
  else pkt

/-- `send_routed_reply`: false when nothing went out. -/
def sendRoutedReply (C : Crypto) (hal : Hal) (m : McMesh) (rx : McPacket) (ch : McPubChannel)
    (text : Bytes) : McMesh × Bool :=
  match channelBuildTxt C ch m.cfg.name text hal.time32 routeTypeDirect with
  | none => (m, false)
  | some pkt => sendOwn C hal m (routeBack pkt rx) (replyDelayMs hal)

/-- The gate a call without one takes: a free row, else the one that opened
first. -/
def newMboxGate (gate : Fin 8 → MboxGate) : Fin 8 :=
  match (List.finRange 8).find? fun k => (gate k).call.isEmpty with
  | some k => k
  | none => (List.finRange 8).foldl (fun o k => if (gate k).nextMs < (gate o).nextMs then k else o) 0

/-- `mbox_rate_ok`: one reply for each base call and cooldown. -/
def mboxRateOk (m : McMesh) (sender : Bytes) (now : Nat) : McMesh × Bool :=
  let base := baseCall sender mcMboxCall
  if base.isEmpty then (m, false)
  else
    match (List.finRange 8).find? fun k =>
      !(m.mboxGate k).call.isEmpty && strcaseEq (m.mboxGate k).call base with
    | some k =>
      if now < (m.mboxGate k).nextMs then (m, false)
      else
        ({ m with
            mboxGate := Function.update m.mboxGate k
              ⟨(m.mboxGate k).call, now + mboxReplyCooldownMs⟩ }, true)
    | none =>
      ({ m with
          mboxGate := Function.update m.mboxGate (newMboxGate m.mboxGate)
            ⟨snprintfS mcMboxCall base, now + mboxReplyCooldownMs⟩ }, true)

/-- The text a `fetch` is answered with. -/
def fetchReply (mb : McMbox) (sender : Bytes) : Bytes :=
  let r := mboxFormatFetch mb sender 110
  let shown := r.2.1
  let total := r.2.2
  if total = 0 then lit "mbox: no messages for you"
  else if shown = 0 then
    lit "mbox: " ++ decimal total ++ lit " msg(s) for you, too long to show here"
  else if shown < total then
    lit "mbox " ++ decimal shown ++ [47] ++ decimal total ++ lit ": " ++ r.1
  else lit "mbox " ++ decimal total ++ lit ": " ++ r.1

/-- `mbox_handle`: whether the message still floods. -/
def mboxHandle (C : Crypto) (hal : Hal) (m : McMesh) (pkt : McPacket) (ch : McPubChannel)
    (sender body : Bytes) : McMesh × Bool :=
  match mboxClassify body mcMboxCall with
  | (.mention, mention, msg) =>
    let m := { m with mbox := mboxStore m.mbox mention sender msg hal.time32 }
    (m.bump fun s => { s with mboxStored := s.mboxStored + 1 }, true)
  | (cmd, _, _) =>
    match mboxRateOk m sender hal.millis with
    | (m, false) => (m, false)
    | (m, true) =>
      let reply := snprintfS 160 (if cmd = .fetch then fetchReply m.mbox sender else mboxHelpText)
      match sendRoutedReply C hal m pkt ch reply with
      | (m, true) => (m.bump fun s => { s with mboxReplies := s.mboxReplies + 1 }, false)
      | (m, false) => (m, false)

/-! ## Probes -/

def meshProbeMaxSecs : Int := 3600
def meshProbeMaxCount : Int := 100

/-- `mesh_start_probe`; a count of 0 or less cancels. -/
def meshStartProbe (hal : Hal) (m : McMesh) (ch : McPubChannel) (secs count : Int) : McMesh :=
  if count ≤ 0 then { m with probeRemaining := 0 }
  else
    let secs := if secs < 1 then 1 else secs
    let secs := if secs > meshProbeMaxSecs then meshProbeMaxSecs else secs
    let count := if count > meshProbeMaxCount then meshProbeMaxCount else count
    { m with
      probeCh := ch
      probeIntervalMs := secs.toNat * 1000
      probeTotal := count.toNat
      probeRemaining := count.toNat
      probeSeq := 0
      probeNextMs := hal.millis + meshReplyDelayMs }

/-- The packet of one probe. -/
def sendProbe (C : Crypto) (hal : Hal) (m : McMesh) : McMesh :=
  let txt := snprintfS 48 (lit "probe " ++ decimal m.probeSeq ++ [47] ++ decimal m.probeTotal)
  match channelBuildTxt C m.probeCh m.cfg.name txt hal.time32 routeTypeFlood with
  | none => m
  | some pkt =>
    ((sendOwn C hal m pkt (halRngInt hal .probe 0 3 * 50)).1).bump fun s =>
      { s with probesSent := s.probesSent + 1 }

/-- `mesh_service_probe`. -/
def meshServiceProbe (C : Crypto) (hal : Hal) (m : McMesh) (nowMs : Nat) : McMesh :=
  if m.probeRemaining = 0 ∨ nowMs < m.probeNextMs then m
  else if meshRfSilent m nowMs then { m with probeRemaining := 0 }
  else
    { sendProbe C hal { m with probeSeq := m.probeSeq + 1 } with
      probeRemaining := m.probeRemaining - 1
      probeNextMs := nowMs + m.probeIntervalMs }

/-! ## The time of day -/

/-- Year, month and day of a day since the epoch, as `gmtime_r` gives them. -/
def civilFromDays (days : Nat) : Nat × Nat × Nat :=
  let z := days + 719468
  let era := z / 146097
  let doe := z % 146097
  let yoe := (doe - doe / 1460 + doe / 36524 - doe / 146096) / 365
  let doy := doe - (365 * yoe + yoe / 4 - yoe / 100)
  let mp := (5 * doy + 2) / 153
  let month := if mp < 10 then mp + 3 else mp - 9
  (yoe + era * 400 + (if month ≤ 2 then 1 else 0), month, doy - (153 * mp + 2) / 5 + 1)

example : civilFromDays (1709164800 / 86400) = (2024, 2, 29) := by decide

/-- `"time %02d:%02d UTC"`. -/
def timeText (t : Nat) : Bytes :=
  lit "time " ++ padLeft 2 (decimal (t / 3600 % 24)) ++ [58] ++
    padLeft 2 (decimal (t / 60 % 60)) ++ lit " UTC"

/-- `"date %04d-%02d-%02d"`. -/
def dateText (t : Nat) : Bytes :=
  let d := civilFromDays (t / 86400)
  lit "date " ++ padLeft 4 (decimal d.1) ++ [45] ++ padLeft 2 (decimal d.2.1) ++ [45] ++
    padLeft 2 (decimal d.2.2)

/-- The time, if it was asked for. -/
def answerTime (C : Crypto) (hal : Hal) (m : McMesh) : McMesh :=
  if m.todTimePending then
    { sendTod C hal .todTime m (snprintfS 40 (timeText hal.time)) with todTimePending := false }
  else m

/-- The date, if it was asked for. -/
def answerDate (C : Crypto) (hal : Hal) (m : McMesh) : McMesh :=
  if m.todDatePending then
    { sendTod C hal .todDate m (snprintfS 40 (dateText hal.time)) with todDatePending := false }
  else m

/-- `mesh_service_timeofday`: answer what was armed, when the minute changes. -/
def meshServiceTimeofday (C : Crypto) (hal : Hal) (m : McMesh) : McMesh :=
  if !m.todTimePending && !m.todDatePending then m
  else if UInt32.ofNat (hal.time / 60) = m.todMinute then m
  else
    answerDate C hal (answerTime C hal { m with todMinute := UInt32.ofNat (hal.time / 60) })

end Meshcore
