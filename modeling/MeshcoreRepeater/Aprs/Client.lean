import MeshcoreRepeater.Advert
import MeshcoreRepeater.Aprs.Callsign
import MeshcoreRepeater.Aprs.Position
import MeshcoreRepeater.Aprs.Server
import MeshcoreRepeater.Backbone.State
import MeshcoreRepeater.Lib.LruGate

/-! # The APRS-IS client

The whole of `aprsis.c`: the connection and its timers, the outbound buffer, the
position reports and the limit on how often a node is reported. A step is one call from
the main loop (`aprsis_service`) or from the mesh (`aprsis_gate_node`); what the sockets
answer during the call is part of it, and what the client did is recorded beside its
state, as a ghost.

* `aprsisStep`: one call, with what the sockets answer.
* `txFlush_took`, `txFlush_again`, `txFlush_failed`: one turn of the sending loop.
-/

namespace Meshcore

open ByteLib LruGate

/-! ## The platform -/

/-- The maths library: what it makes of a double is not specified to the last bit. -/
structure AprsisMath where
  cos : CDouble → CDouble
  sqrt : CDouble → CDouble
  log : CDouble → CDouble

/-- `socket` and `connect`. -/
inductive ConnectResult where
  | noSocket
  | failed
  /-- connected, or `EINPROGRESS` -/
  | started (fd : Nat)

/-- What `send` returns: how much it took, that it has to wait, or an error. -/
inductive SendResult where
  | took (n : Nat)
  | again
  | failed

/-- The `revents` of the client's slot: `POLLERR | POLLHUP | POLLNVAL`, `POLLIN`, `POLLOUT`. -/
structure Revents where
  err : Bool
  pollin : Bool
  pollout : Bool

/-- What the sockets answer during one call; `sends` are the results of `send` one after
the other, and it has to wait when they are used up. -/
structure AprsisIo where
  connect : ConnectResult
  /-- `SO_ERROR` is not 0 -/
  soError : Bool
  recv : RecvResult
  sends : List SendResult

/-! ## The state -/

/-- `mc_aprsis`; `nodes` is its first `n_nodes` rows. -/
structure AprsisClient extends McAprsis where
  ourPub : Bytes
  passcode : Int
  resolved : Bool
  deadlineMs : Nat
  nodes : List (LruGate.Entry Bytes (CDouble × CDouble))
  statGated : Nat
  statBeacons : Nat
  statDropped : Nat

/-- `APRSIS_MAX_NODES`. -/
def aprsisMaxNodes : Nat := 64

/-- `APRSIS_TXBUF`. -/
def aprsisTxbuf : Nat := 2048

/-- What the client did. -/
inductive AprsisAct where
  | attempt (now : Nat)
  | opened
  | queued (line : Bytes)
  | sent (bytes : Bytes)
  | handled (line : Bytes)
  | rejected (now : Nat)
  | shut
  | admitted (c : Call Bytes (CDouble × CDouble))

/-- A state, and what was done on the way to it. -/
abbrev AprsisStep := AprsisClient × List AprsisAct

/-! ## The passcode -/

/-- The loop over pairs of characters. -/
def passcodeHash : UInt32 → Bytes → UInt32
  | hash, [] => hash
  | hash, [c] => hash ^^^ (c.toUInt32 <<< 8)
  | hash, c :: d :: rest => passcodeHash (hash ^^^ (c.toUInt32 <<< 8) ^^^ d.toUInt32) rest

/-- `aprsis_passcode`. -/
def aprsisPasscode (callsign : Bytes) : Int :=
  let root := ((callsign.takeWhile (· ≠ 45)).take 15).map upcase
  ((passcodeHash 0x73e2 root &&& 0x7fff).toNat : Int)

/-- `atoi`: what is out of range keeps its low word. -/
def atoi (s : Bytes) : Int := Int.bmod (toLong (((scanInteger 10 s).map Prod.fst).getD 0)) (2 ^ 32)

/-! ## Lines -/

/-- `type_name`. -/
def typeName (t : UInt8) : Bytes :=
  if t = advTypeChat then lit "chat"
  else if t = advTypeRepeater then lit "repeater"
  else if t = advTypeRoom then lit "room"
  else if t = advTypeSensor then lit "sensor"
  else lit "node"

/-- `printf("%06d")`. -/
def fmt06d (n : Int) : Bytes :=
  if n < 0 then 45 :: padLeft 5 (decimal n.natAbs) else padLeft 6 (decimal n.natAbs)

/-- `aprs_make_position` as the client calls it, without course and speed. -/
def aprsPosition (M : AprsisMath) (lat lon : CDouble) (symbol : Bytes) : Option Bytes :=
  aprsMakePosition M.log 64 lat lon (-1) (-1) (some symbol)

/-- `(int)(altitude * 3.2808399)`. -/
def altFeet (altitude : CDouble) : Int := (altitude.mul (.ofRat 3.2808399)).toInt

/-- `build_beacon`; empty where there is no position. -/
def buildBeacon (M : AprsisMath) (cfg : McConfig) : Bytes :=
  match aprsPosition M cfg.latitude cfg.longitude cfg.aprsSymbol with
  | none => []
  | some pos =>
    let alt :=
      if cfg.aprsAltitude.eq (.fin 0) then []
      else snprintfS 24 (lit " /A=" ++ fmt06d (altFeet cfg.aprsAltitude))
    snprintfS 400 (cfg.aprsCall ++ lit ">" ++ cfg.aprsTocall ++ lit ",TCPIP*:!" ++ pos ++ lit " " ++
      cfg.aprsComment ++ alt ++ lit "\r\n")

/-- The login `send_login` queues. -/
def loginLine (cfg : McConfig) (passcode : Int) : Bytes :=
  snprintfS 128 (lit "user " ++ cfg.aprsCall ++ lit " pass " ++ intDecimal passcode ++
    lit " vers meshcore-repeater 1.0\r\n")

/-- The report `aprsis_gate_node` queues. -/
def gateLine (cfg : McConfig) (call pos : Bytes) (type : UInt8) : Bytes :=
  snprintfS 300 (call ++ lit ">" ++ cfg.aprsTocall ++ lit ",qAO," ++ cfg.aprsCall ++ lit ":!" ++ pos ++
    lit " MeshCore " ++ typeName type ++ lit "\r\n")

/-! ## Sending -/

/-- `tx_queue`: a line that does not fit is dropped. -/
def txQueue (a : AprsisClient) (line : Bytes) : AprsisStep :=
  if aprsisTxbuf < a.txbuf.length + line.length then ({ a with statDropped := a.statDropped + 1 }, [])
  else ({ a with txbuf := a.txbuf ++ line }, [.queued line])

/-- `go_disconnected(a, now, 1)`. -/
def disconnect (a : AprsisClient) (now : Nat) : AprsisStep :=
  ({ a with toMcAprsis := goDisconnected a.toMcAprsis now true }, [.shut])

/-- `tx_flush`, and the results of `send` it leaves. -/
def txFlush (now : Nat) : List SendResult → AprsisClient → AprsisStep × List SendResult
  | [], a => ((a, []), [])
  | r :: sends, a =>
    if a.txbuf = [] then ((a, []), r :: sends)
    else
      match r with
      | .took n =>
        if n = 0 then ((a, []), sends)
        else
          let rest := txFlush now sends { a with txbuf := a.txbuf.drop n }
          ((rest.1.1, .sent (a.txbuf.take n) :: rest.1.2), rest.2)
      | .again => ((a, []), sends)
      | .failed => (disconnect a now, sends)

theorem txFlush_empty {a : AprsisClient} (h : a.txbuf = []) (now : Nat) (sends : List SendResult) :
    txFlush now sends a = ((a, []), sends) := by
  cases sends with
  | nil => rfl
  | cons r sends => rw [txFlush.eq_def]; simp only [if_pos h]

theorem txFlush_again {a : AprsisClient} (h : a.txbuf ≠ []) (now : Nat) (sends : List SendResult) :
    txFlush now (.again :: sends) a = ((a, []), sends) := by
  rw [txFlush.eq_def]; simp only [if_neg h]

theorem txFlush_failed {a : AprsisClient} (h : a.txbuf ≠ []) (now : Nat) (sends : List SendResult) :
    txFlush now (.failed :: sends) a = (disconnect a now, sends) := by
  rw [txFlush.eq_def]; simp only [if_neg h]

theorem txFlush_zero {a : AprsisClient} (h : a.txbuf ≠ []) (now : Nat) (sends : List SendResult) :
    txFlush now (.took 0 :: sends) a = ((a, []), sends) := by
  rw [txFlush.eq_def]; simp only [if_neg h, if_true]

theorem txFlush_took {a : AprsisClient} (h : a.txbuf ≠ []) (now : Nat) (sends : List SendResult) {n : Nat}
    (hn : n ≠ 0) :
    txFlush now (.took n :: sends) a =
      (((txFlush now sends { a with txbuf := a.txbuf.drop n }).1.1,
        .sent (a.txbuf.take n) :: (txFlush now sends { a with txbuf := a.txbuf.drop n }).1.2),
        (txFlush now sends { a with txbuf := a.txbuf.drop n }).2) := by
  rw [txFlush.eq_def]; simp only [if_neg h, if_neg hn]

/-! ## Gating -/

/-- `dist_m`, between two places given by latitude and longitude. -/
def distM (M : AprsisMath) (p q : CDouble × CDouble) : CDouble :=
  let dlat := (q.1.sub p.1).mul (.fin 111320)
  let dlon := ((q.2.sub p.2).mul (.fin 111320)).mul
    (M.cos ((p.1.mul (.ofRat 3.14159265358979)).div (.fin 180)))
  M.sqrt ((dlat.mul dlat).add (dlon.mul dlon))

/-- What `rate_ok` is asked: the station as it would be remembered, and the entry of the same
callsign that turns it away, too young and less than a hundred metres off. -/
def rateCall (M : AprsisMath) (cfg : McConfig) (call : Bytes) (now : Nat) (pos : CDouble × CDouble) :
    Call Bytes (CDouble × CDouble) where
  entry := ⟨call, now, pos⟩
  refusedBy e := u64Sub now e.stamp < cfg.aprsNodeRate.toNat * 1000 && (distM M e.val pos).lt (.fin 100)

/-- `aprsis_gate_node`. -/
def aprsisGateNode (M : AprsisMath) (cfg : McConfig) (a : AprsisClient) (now : Nat) (name : Bytes)
    (type : UInt8) (lat lon : CDouble) (pub : Bytes) : AprsisStep :=
  if a.state ≠ .ready then (a, [])
  else if pub = a.ourPub then (a, [])
  else if type ≠ advTypeChat ∧ type ≠ advTypeRepeater then (a, [])
  else
    let valid := aprsisValidCallsign name (List.replicate 12 0)
    if valid.1 = false then (a, [])
    else
      let call := cstr valid.2
      let c := rateCall M cfg call now (lat, lon)
      let asked := ask a.nodes aprsisMaxNodes c
      if asked.2 = false then (a, [])
      else
        let a := { a with nodes := asked.1 }
        match aprsPosition M lat lon cfg.aprsNodeSymbol with
        | none => (a, [.admitted c])
        | some pos =>
          let queued := txQueue a (gateLine cfg call pos type)
          ({ queued.1 with statGated := queued.1.statGated + 1 }, .admitted c :: queued.2)

/-! ## The connection -/

/-- `start_connect`. -/
def startConnect (a : AprsisClient) (now : Nat) : ConnectResult → AprsisStep
  | .noSocket =>
    let shut := disconnect a now
    (shut.1, .attempt now :: shut.2)
  | .failed =>
    let shut := disconnect { a with deadlineMs := now + 10000 } now
    (shut.1, .attempt now :: shut.2)
  | .started fd =>
    ({ a with fd := fd, deadlineMs := now + 10000, state := .connecting }, [.attempt now, .opened])

/-- `send_login`. -/
def sendLogin (cfg : McConfig) (a : AprsisClient) (now : Nat) : AprsisStep :=
  let queued := txQueue a (loginLine cfg a.passcode)
  ({ queued.1 with state := .login, deadlineMs := now + 10000 }, queued.2)

/-- What `recv` leaves of `r` when it is offered `room`. -/
def recvInto (room : Nat) : RecvResult → RecvResult
  | .data chunk => if chunk.take room = [] then .closed else .data (chunk.take room)
  | r => r

/-- `read_server`. A connection that ends on a line was ended by the answer to the login. -/
def readAprsis (a : AprsisClient) (now : Nat) (r : RecvResult) : AprsisStep :=
  let read := readServer a.toMcAprsis now (recvInto (rxFree a.toMcAprsis) r)
  ({ a with toMcAprsis := read.1 },
    read.2.map .handled ++
      if read.1.state = .disconnected then (if read.2 = [] then [.shut] else [.rejected now, .shut]) else [])

/-- The end of `aprsis_service` in the states `APRSIS_LOGIN` and `APRSIS_READY`: the login's
deadline, and the beacon. -/
def aprsisTimers (M : AprsisMath) (cfg : McConfig) (a : AprsisClient) (now : Nat)
    (sends : List SendResult) : AprsisStep :=
  if a.state = .login ∧ a.deadlineMs < now then disconnect a now
  else if a.state = .ready ∧ cfg.aprsBeaconInterval ≠ 0 ∧
      cfg.aprsBeaconInterval.toNat * 1000 ≤ u64Sub now a.lastBeaconMs then
    let beacon := buildBeacon M cfg
    if beacon = [] then ({ a with lastBeaconMs := now }, [])
    else
      let queued := txQueue a beacon
      let flushed := (txFlush now sends queued.1).1
      ({ flushed.1 with statBeacons := flushed.1.statBeacons + 1, lastBeaconMs := now },
        queued.2 ++ flushed.2)
  else (a, [])

/-- `aprsis_service` in the states `APRSIS_LOGIN` and `APRSIS_READY`: it reads, flushes what waits
and looks at the timers, unless the connection is gone. -/
def aprsisConnected (M : AprsisMath) (cfg : McConfig) (a : AprsisClient) (now : Nat) (revents : Revents)
    (io : AprsisIo) : AprsisStep :=
  if revents.err then disconnect a now
  else
    let read := if revents.pollin then readAprsis a now io.recv else (a, [])
    if read.1.state = .disconnected then read
    else
      let flushed := txFlush now io.sends read.1
      let timed := aprsisTimers M cfg flushed.1.1 now flushed.2
      (timed.1, read.2 ++ flushed.1.2 ++ timed.2)

/-- `aprsis_service`. -/
def aprsisService (M : AprsisMath) (cfg : McConfig) (a : AprsisClient) (now : Nat) (revents : Revents)
    (io : AprsisIo) : AprsisStep :=
  match a.state with
  | .disconnected =>
    if a.resolved ∧ a.nextConnectMs ≤ now then startConnect a now io.connect else (a, [])
  | .connecting =>
    if revents.err then disconnect a now
    else if revents.pollout then
      if io.soError then disconnect a now
      else
        let login := sendLogin cfg a now
        let flushed := (txFlush now io.sends login.1).1
        (flushed.1, login.2 ++ flushed.2)
    else if a.deadlineMs < now then disconnect a now
    else (a, [])
  | .login | .ready => aprsisConnected M cfg a now revents io

/-- `aprsis_pollfd`: nothing to poll, or the socket and whether `POLLIN` and `POLLOUT` are
asked for. -/
def aprsisPollfd (a : AprsisClient) : Option (Int × Bool × Bool) :=
  if a.fd < 0 then none
  else if a.state = .connecting then some (a.fd, false, true)
  else some (a.fd, true, decide (a.txbuf ≠ []))

/-- `aprsis_init`; `resolved` is what `getaddrinfo` made of the host. The client is there
also when the result is `none`, switched off. -/
def aprsisInit (cfg : McConfig) (ourPub : Bytes) (resolved : Bool) : Option AprsisClient :=
  if !cfg.aprsEnable || cfg.aprsCall = [] then none
  else
    some
      { fd := -1
        state := .disconnected
        nextConnectMs := 0
        backoffS := 5
        lastBeaconMs := 0
        txbuf := []
        rxbuf := []
        ourPub := ourPub
        passcode :=
          if strcaseEq cfg.aprsPasscode (lit "auto") then aprsisPasscode cfg.aprsCall
          else atoi cfg.aprsPasscode
        resolved := resolved
        deadlineMs := 0
        nodes := []
        statGated := 0
        statBeacons := 0
        statDropped := 0 }

/-! ## Runs -/

/-- A call into the client, with the configuration as it is then. -/
inductive AprsisCall where
  | service (cfg : McConfig) (now : Nat) (revents : Revents) (io : AprsisIo)
  | gate (cfg : McConfig) (now : Nat) (name : Bytes) (type : UInt8) (lat lon : CDouble) (pub : Bytes)

def AprsisCall.now : AprsisCall → Nat
  | .service _ now _ _ => now
  | .gate _ now _ _ _ _ _ => now

/-- The configuration the call finds. -/
def AprsisCall.cfg : AprsisCall → McConfig
  | .service cfg _ _ _ => cfg
  | .gate cfg _ _ _ _ _ _ => cfg

def aprsisCall (M : AprsisMath) (a : AprsisClient) : AprsisCall → AprsisStep
  | .service cfg now revents io => aprsisService M cfg a now revents io
  | .gate cfg now name type lat lon pub => aprsisGateNode M cfg a now name type lat lon pub

/-- One call of a run, what was done kept in order. -/
def aprsisStep (M : AprsisMath) (s : AprsisStep) (x : AprsisCall) : AprsisStep :=
  let next := aprsisCall M s.1 x
  (next.1, s.2 ++ next.2)

end Meshcore
