import MeshcoreRepeater.Lib.SwapTable
import MeshcoreRepeater.Mesh.Recv

/-! # Live monitors

`monitor.c`: the clients that stream events over the control socket. Every emitter walks the
table from its end and writes to the clients whose filter wants the event; a client whose write
fails is dropped on the way, and `monitor_reap` drops those that `poll` reports. What the
kernel answers in each turn is a parameter.

* `monEmit_spec`: one line, and every client that wants it.
* `monitorReap_spec`: the clients that `poll` reports are dropped.
* `monitor_exact`: the emitters and the reaper, on any table.
-/

namespace Meshcore

open ByteLib SwapTable

/-! ## Clients -/

def mcMaxMonitors : Nat := 4
def mcMonTargetLen : Nat := 40

/-- `mon_kind_t`. -/
inductive MonKind where
  | monAll
  | monPublic
  | monChannel
  | monRoom
  | monAdvert
  | monDrop
  | monTx
deriving DecidableEq, Repr

/-- `mc_mon_conn_t`. -/
structure McMonConn where
  fd : Int
  kind : MonKind
  target : Bytes
deriving DecidableEq, Repr

/-- `mc_monitor`: its first `n` rows. -/
structure McMonitor where
  conn : List McMonConn
  bounded : conn.length ≤ mcMaxMonitors

/-- `monitor_init`. -/
def monitorInit : McMonitor := ⟨[], Nat.zero_le _⟩

/-- `errno`, as far as the monitors tell it apart. -/
inductive Errno where
  | again
  | wouldBlock
  | intr
  | other
deriving DecidableEq, Repr

/-- What `read` and `write` return. -/
inductive IoResult where
  | done (n : Nat)
  | error (e : Errno)
deriving DecidableEq, Repr

/-- An error that is not for now only. -/
def IoResult.hard : IoResult → Bool
  | .error .other => true
  | _ => false

/-- A call on a client's descriptor. -/
inductive MonIo where
  | write (fd : Int) (line : Bytes)
  | read (fd : Int)
  | close (fd : Int)
deriving DecidableEq, Repr

/-- The table, and the calls made on the way. -/
structure MonState where
  mon : McMonitor
  io : List MonIo

/-- `mon_drop`. -/
def monDrop (s : MonState) (idx : Nat) : MonState :=
  match s.mon.conn[idx]? with
  | some c =>
    { mon := ⟨swapRemove s.mon.conn idx, Nat.le_trans (length_swapRemove_le _ _) s.mon.bounded⟩
      io := s.io ++ [.close c.fd] }
  | none => s

/-- `mon_write`, when the kernel answers `w`. -/
def monWrite (w : IoResult) (s : MonState) (idx : Nat) (line : Bytes) : MonState :=
  match s.mon.conn[idx]? with
  | some c =>
    let s := { s with io := s.io ++ [.write c.fd line] }
    if w.hard then monDrop s idx else s
  | none => s

/-! ## Who wants what -/

/-- `chan && *chan`: a name that is there and not empty. -/
def isNamed (chan : Option Bytes) : Bool := chan.any fun name => !name.isEmpty

def monitorWantsPublic (c : McMonConn) (chan : Option Bytes) : Bool :=
  match c.kind with
  | .monAll => true
  | .monPublic => true
  | .monChannel => isNamed chan && chan.any fun name => strcaseEq c.target name
  | .monRoom => isNamed chan && chan.any fun name => c.target == name
  | _ => false

def monitorWantsRoom (c : McMonConn) (room : Option Bytes) : Bool :=
  match c.kind with
  | .monAll => true
  | .monRoom => room.any fun name => c.target == name
  | _ => false

def monitorWantsAdvert (c : McMonConn) : Bool := c.kind == .monAll || c.kind == .monAdvert

def monitorWantsDrop (c : McMonConn) : Bool := c.kind == .monAll || c.kind == .monDrop

def monitorWantsTx (c : McMonConn) : Bool := c.kind == .monAll || c.kind == .monTx

/-! ## Events -/

/-- `sig_str`. -/
def sigStr (rssi snrQ : Int) : Bytes :=
  snprintfS 32 <|
    if rssi = monViaBackbone then lit "via backbone"
    else lit "rssi " ++ intDecimal rssi ++ lit " snr " ++ fmtF 1 (CDouble.ofRat (snrQ / 4))

/-- `%02X`. -/
def hex02 (n : Nat) : Bytes := padLeft 2 (numeral 16 n)

/-- The loop of the emitters, backward since `mon_write` may move the last row. `w i` is the
answer to the write of turn `i`. -/
def monEmit (wants : McMonConn → Bool) (line : Bytes) (w : Nat → IoResult) (mon : McMonitor) : MonState :=
  if mon.conn.length = 0 then ⟨mon, []⟩
  else
    walkBack (fun i s => if (s.mon.conn[i]?).any wants then monWrite (w i) s i line else s) mon.conn.length ⟨mon, []⟩

/-- `monitor_public`; `t` is the time of day as `stamp` prints it. -/
def publicLine (t : Bytes) (chan text : Option Bytes) (rssi snrQ : Int) : Bytes :=
  snprintfS 600 (t ++ lit " [public " ++ (if isNamed chan then chan.getD [] else lit "-") ++ lit "] " ++
    text.getD [] ++ lit "  (" ++ sigStr rssi snrQ ++ lit ")\n")

def monitorPublic (t : Bytes) (w : Nat → IoResult) (mon : McMonitor) (chan text : Option Bytes) (rssi snrQ : Int) :
    MonState :=
  monEmit (fun c => monitorWantsPublic c chan) (publicLine t chan text rssi snrQ) w mon

/-- The line of `monitor_region`. -/
def regionLine (t : Bytes) (room : Option Bytes) (ptype : UInt8) (lenB : UInt32) (rssi snrQ : Int) : Bytes :=
  snprintfS 256 (t ++ lit " [room " ++ room.getD (lit "?") ++ lit "] relayed  type=0x" ++ hex02 ptype.toNat ++
    lit "  len=" ++ decimal lenB.toNat ++ lit "B  (" ++ sigStr rssi snrQ ++ lit ")\n")

def monitorRegion (t : Bytes) (w : Nat → IoResult) (mon : McMonitor) (room : Option Bytes) (ptype : UInt8)
    (lenB : UInt32) (rssi snrQ : Int) : MonState :=
  monEmit (fun c => monitorWantsRoom c room) (regionLine t room ptype lenB rssi snrQ) w mon

/-- The line of `monitor_advert`; `loc` is there with `has_loc` only. -/
def advertLine (t : Bytes) (name : Option Bytes) (atype : UInt8) (loc : Option (CDouble × CDouble)) (rssi snrQ : Int) :
    Bytes :=
  snprintfS 200 (t ++ lit " [advert] '" ++ (if isNamed name then name.getD [] else lit "?") ++ lit "' type=" ++
    decimal atype.toNat ++
    (match loc with
      | some (lat, lon) => lit "  loc " ++ fmtF 5 lat ++ lit "," ++ fmtF 5 lon
      | none => []) ++
    lit "  (" ++ sigStr rssi snrQ ++ lit ")\n")

def monitorAdvert (t : Bytes) (w : Nat → IoResult) (mon : McMonitor) (name : Option Bytes) (atype : UInt8)
    (loc : Option (CDouble × CDouble)) (rssi snrQ : Int) : MonState :=
  monEmit monitorWantsAdvert (advertLine t name atype loc rssi snrQ) w mon

/-- The line of `monitor_drop`; a packet without a channel has a negative `chanHash`. -/
def dropLine (t : Bytes) (ptype : UInt8) (reason : Option Bytes) (chanHash : Int) : Bytes :=
  snprintfS 200 (t ++ lit " [drop] type=0x" ++ hex02 ptype.toNat ++
    (if 0 ≤ chanHash then lit " chan=0x" ++ hex02 chanHash.toNat else []) ++ lit "  " ++ reason.getD [] ++ lit "\n")

def monitorDrop (t : Bytes) (w : Nat → IoResult) (mon : McMonitor) (ptype : UInt8) (reason : Option Bytes)
    (chanHash : Int) : MonState :=
  monEmit monitorWantsDrop (dropLine t ptype reason chanHash) w mon

/-- The line of `monitor_tx`. -/
def txLine (t : Bytes) (ptype : Option Bytes) (flood : Bool) (lenB hops : UInt32) (powerDbm : Int) (airtimeMs : UInt32)
    (detail : Option Bytes) : Bytes :=
  snprintfS 600 (t ++ lit " [tx] " ++ ptype.getD (lit "?") ++ lit " " ++ lit (if flood then "flood" else "direct") ++
    lit " " ++ decimal lenB.toNat ++ lit "B " ++ decimal hops.toNat ++ lit "hop " ++ intDecimal powerDbm ++
    lit "dBm " ++ decimal airtimeMs.toNat ++ lit "ms" ++ (if isNamed detail then lit "  " else []) ++
    detail.getD [] ++ lit "\n")

def monitorTx (t : Bytes) (w : Nat → IoResult) (mon : McMonitor) (ptype : Option Bytes) (flood : Bool)
    (lenB hops : UInt32) (powerDbm : Int) (airtimeMs : UInt32) (detail : Option Bytes) : MonState :=
  monEmit monitorWantsTx (txLine t ptype flood lenB hops powerDbm airtimeMs detail) w mon

/-! ## Clients that come and go -/

/-- The argument behind the command word. -/
def monTarget (cmdline : Bytes) : Bytes := skipBlanks (cmdline.dropWhile fun c => !isBlank c)

/-- The client of `monitor [target]`. -/
def monClient (fd : Int) (p : Bytes) : McMonConn :=
  if p = [] ∨ strcaseEq p (lit "all") then ⟨fd, .monAll, []⟩
  else if p.head? = some 35 then ⟨fd, .monRoom, snprintfS mcMonTargetLen p⟩
  else if strcaseEq p (lit "public") then ⟨fd, .monPublic, []⟩
  else if strcaseEq p (lit "adverts") ∨ strcaseEq p (lit "advert") then ⟨fd, .monAdvert, []⟩
  else if strcaseEq p (lit "drops") ∨ strcaseEq p (lit "drop") then ⟨fd, .monDrop, []⟩
  else if strcaseEq p (lit "tx") then ⟨fd, .monTx, []⟩
  else ⟨fd, .monChannel, snprintfS mcMonTargetLen p⟩

/-- What a new client is told. -/
def monHeader (c : McMonConn) : Bytes :=
  let what := match c.kind with
    | .monAll => lit "all activity (public msgs, region hits, adverts, drops, tx)"
    | .monPublic => lit "all public channels"
    | .monAdvert => lit "adverts"
    | .monDrop => lit "drops"
    | .monTx => lit "transmissions"
    | .monRoom => c.target
    | .monChannel => c.target
  snprintfS 160 (lit "# monitoring " ++ what ++
    (if c.kind = .monRoom then lit " (region: opaque, metadata only)" else []) ++ lit " - Ctrl-C to stop\n")

/-- `monitor_add`: whether the client was taken on. -/
def monitorAdd (mon : McMonitor) (fd : Int) (cmdline : Bytes) : MonState × Bool :=
  if h : mcMaxMonitors ≤ mon.conn.length then
    (⟨mon, [.write fd (lit "monitor: too many active monitors (max 4)\n")]⟩, false)
  else
    let c := monClient fd (monTarget cmdline)
    (⟨⟨mon.conn ++ [c], by rw [List.length_append, List.length_singleton]; omega⟩, [.write fd (monHeader c)]⟩, true)

def pollIn : UInt16 := 0x01
def pollErr : UInt16 := 0x08
def pollHup : UInt16 := 0x10
def pollNval : UInt16 := 0x20

/-- `struct pollfd`. -/
structure PollFd where
  fd : Int
  events : UInt16
  revents : UInt16
deriving DecidableEq, Repr

/-- `monitor_pollfds`. -/
def monitorPollfds (mon : McMonitor) (max : Nat) : List PollFd :=
  (mon.conn.take max).map fun c => ⟨c.fd, pollIn, 0⟩

/-- One turn of `monitor_reap`; `r` is the answer to its `read`. -/
def reapTurn (pfd : List PollFd) (rd : Nat → IoResult) (i : Nat) (s : MonState) : MonState :=
  let re := (pfd[i]?.map PollFd.revents).getD 0
  if re &&& (pollHup ||| pollErr ||| pollNval) ≠ 0 then monDrop s i
  else if re &&& pollIn ≠ 0 then
    match s.mon.conn[i]? with
    | some c =>
      let s := { s with io := s.io ++ [.read c.fd] }
      if rd i = .done 0 ∨ (rd i).hard then monDrop s i else s
    | none => s
  else s

/-- `monitor_reap`. -/
def monitorReap (pfd : List PollFd) (rd : Nat → IoResult) (mon : McMonitor) : MonState :=
  walkBack (reapTurn pfd rd) (min pfd.length mon.conn.length) ⟨mon, []⟩

/-! ## Every client once -/

/-- What is written to a client, and that it is closed when the write failed. -/
def emitCalls (wants : McMonConn → Bool) (line : Bytes) (w : Nat → IoResult) (i : Nat) (c : McMonConn) : List MonIo :=
  if wants c then .write c.fd line :: if (w i).hard then [.close c.fd] else [] else []

/-- A client that `monitor_reap` takes out: it hung up, reached the end or failed. -/
def hasLeft (re : UInt16) (r : IoResult) : Bool :=
  re &&& (pollHup ||| pollErr ||| pollNval) ≠ 0 || (re &&& pollIn ≠ 0 && (r = .done 0 || r.hard))

/-- The calls of `monitor_reap` for one client. -/
def reapCalls (re : UInt16) (r : IoResult) (c : McMonConn) : List MonIo :=
  (if re &&& (pollHup ||| pollErr ||| pollNval) = 0 ∧ re &&& pollIn ≠ 0 then [.read c.fd] else []) ++
    if hasLeft re r then [.close c.fd] else []

theorem row_at {s : MonState} {pre : List McMonConn} {c : McMonConn} {post : List McMonConn}
    (h : s.mon.conn = pre ++ c :: post) : s.mon.conn[pre.length]? = some c := by
  rw [h, List.getElem?_append_right (Nat.le_refl _), Nat.sub_self, List.getElem?_cons_zero]

theorem monDrop_at {s : MonState} {i : Nat} {c : McMonConn} (h : s.mon.conn[i]? = some c) :
    (monDrop s i).mon.conn = swapRemove s.mon.conn i ∧ (monDrop s i).io = s.io ++ [.close c.fd] := by
  rw [monDrop]
  split
  · rename_i c' hc
    have hcc : c' = c := Option.some.inj (hc.symm.trans h)
    subst hcc
    exact ⟨rfl, rfl⟩
  · rename_i hnone
    rw [h] at hnone
    cases hnone

theorem monWrite_at {w : IoResult} {s : MonState} {i : Nat} {c : McMonConn} {line : Bytes}
    (h : s.mon.conn[i]? = some c) :
    (monWrite w s i line).mon.conn = (if w.hard then swapRemove s.mon.conn i else s.mon.conn) ∧
      (monWrite w s i line).io = s.io ++ .write c.fd line :: if w.hard then [.close c.fd] else [] := by
  simp only [monWrite, h]
  split
  · have hdrop := monDrop_at (s := { s with io := s.io ++ [.write c.fd line] }) h
    refine ⟨hdrop.1, ?_⟩
    rw [hdrop.2, List.append_assoc, List.singleton_append]
  · exact ⟨rfl, rfl⟩

theorem emit_turnSpec (wants : McMonConn → Bool) (line : Bytes) (w : Nat → IoResult) :
    TurnSpec (fun s : MonState => s.mon.conn) MonState.io
      (fun i s => if (s.mon.conn[i]?).any wants then monWrite (w i) s i line else s)
      (fun i c => wants c && (w i).hard) (emitCalls wants line w) := by
  constructor
  · intro s pre c post hs hgone
    have hrow := row_at hs
    simp only [hrow, Option.any_some]
    split
    · rename_i hwants
      rw [hwants, Bool.true_and] at hgone
      rw [(monWrite_at hrow).1, hgone]
      rfl
    · rfl
  · intro s pre c post hs hgone
    have hrow := row_at hs
    rcases Bool.and_eq_true_iff.mp hgone with ⟨hwants, hhard⟩
    simp only [hrow, Option.any_some, hwants, if_true]
    rw [(monWrite_at hrow).1, if_pos hhard]
  · intro s pre c post hs
    have hrow := row_at hs
    simp only [hrow, Option.any_some, emitCalls]
    split
    · exact (monWrite_at hrow).2
    · exact (List.append_nil _).symm

theorem reap_turnSpec (pfd : List PollFd) (rd : Nat → IoResult) :
    TurnSpec (fun s : MonState => s.mon.conn) MonState.io (reapTurn pfd rd)
      (fun i _ => hasLeft ((pfd[i]?.map PollFd.revents).getD 0) (rd i))
      (fun i c => reapCalls ((pfd[i]?.map PollFd.revents).getD 0) (rd i) c) := by
  have hturn : ∀ {s : MonState} {i c}, s.mon.conn[i]? = some c →
      (reapTurn pfd rd i s).mon.conn =
          (if hasLeft ((pfd[i]?.map PollFd.revents).getD 0) (rd i) then swapRemove s.mon.conn i else s.mon.conn) ∧
        (reapTurn pfd rd i s).io = s.io ++ reapCalls ((pfd[i]?.map PollFd.revents).getD 0) (rd i) c := by
    intro s i c hrow
    rw [reapTurn, reapCalls, hasLeft]
    -- a hangup is seen first, and then nothing is read
    generalize (pfd[i]?.map PollFd.revents).getD 0 = re
    by_cases hhup : re &&& (pollHup ||| pollErr ||| pollNval) = 0
    · by_cases hin : re &&& pollIn = 0
      · simp [hhup, hin]
      · by_cases hend : rd i = .done 0 ∨ (rd i).hard
        · have hdrop := monDrop_at (s := { s with io := s.io ++ [.read c.fd] }) hrow
          simp [hhup, hin, hrow, hend, hdrop]
        · simp [hhup, hin, hrow, hend]
    · have hdrop := monDrop_at hrow
      simp [hhup, hdrop]
  constructor
  · intro s pre c post hs hgone
    rw [(hturn (row_at hs)).1, hgone]
    rfl
  · intro s pre c post hs hgone
    rw [(hturn (row_at hs)).1, if_pos hgone]
  · intro s pre c post hs
    exact (hturn (row_at hs)).2

/-- The descriptor and the line, when the call is a write. -/
def MonIo.sent : MonIo → Option (Int × Bytes)
  | .write fd line => some (fd, line)
  | _ => none

theorem sent_written (wants : McMonConn → Bool) (line : Bytes) (w : Nat → IoResult) (l : List McMonConn) :
    (written (emitCalls wants line w) l).filterMap MonIo.sent = (l.filter wants).reverse.map fun c => (c.fd, line) := by
  induction l using List.reverseRecOn with
  | nil => rfl
  | append_singleton l c ih =>
    rw [written_concat, List.filterMap_append, ih, List.filter_append, List.reverse_append, List.map_append]
    congr 1
    rw [emitCalls]
    by_cases hwants : wants c
    · by_cases hhard : (w l.length).hard
      · simp [hwants, hhard, MonIo.sent]
      · simp [hwants, hhard, MonIo.sent]
    · simp [hwants]

/-- Every client that wants the line gets it once, from the last to the first. -/
theorem monEmit_spec (wants : McMonConn → Bool) (line : Bytes) (w : Nat → IoResult) (mon : McMonitor) :
    (monEmit wants line w mon).mon.conn.Perm (kept (fun i c => wants c && (w i).hard) mon.conn) ∧
      (monEmit wants line w mon).io = written (emitCalls wants line w) mon.conn := by
  rw [monEmit]
  split
  · rename_i hempty
    rw [List.length_eq_zero_iff.mp hempty]
    exact ⟨List.Perm.refl [], rfl⟩
  · have hspec := walkBack_spec (emit_turnSpec wants line w) (s := ⟨mon, []⟩) (List.append_nil mon.conn).symm
    rwa [List.append_nil, List.nil_append] at hspec

/-- An event with what its emitter is told. -/
inductive MonEvent where
  | message (chan text : Option Bytes) (rssi snrQ : Int)
  | region (room : Option Bytes) (ptype : UInt8) (lenB : UInt32) (rssi snrQ : Int)
  | advert (name : Option Bytes) (atype : UInt8) (loc : Option (CDouble × CDouble)) (rssi snrQ : Int)
  | drop (ptype : UInt8) (reason : Option Bytes) (chanHash : Int)
  | tx (ptype : Option Bytes) (flood : Bool) (lenB hops : UInt32) (powerDbm : Int) (airtimeMs : UInt32)
    (detail : Option Bytes)

/-- The emitter of an event. -/
def MonEvent.emit (t : Bytes) (w : Nat → IoResult) (mon : McMonitor) : MonEvent → MonState
  | .message chan text rssi snrQ => monitorPublic t w mon chan text rssi snrQ
  | .region room ptype lenB rssi snrQ => monitorRegion t w mon room ptype lenB rssi snrQ
  | .advert name atype loc rssi snrQ => monitorAdvert t w mon name atype loc rssi snrQ
  | .drop ptype reason chanHash => monitorDrop t w mon ptype reason chanHash
  | .tx ptype flood lenB hops powerDbm airtimeMs detail =>
    monitorTx t w mon ptype flood lenB hops powerDbm airtimeMs detail

/-- The filter of a client, asked about an event. -/
def MonEvent.wanted (c : McMonConn) : MonEvent → Bool
  | .message chan _ _ _ => monitorWantsPublic c chan
  | .region room _ _ _ _ => monitorWantsRoom c room
  | .advert _ _ _ _ _ => monitorWantsAdvert c
  | .drop _ _ _ => monitorWantsDrop c
  | .tx _ _ _ _ _ _ _ => monitorWantsTx c

/-- The line of an event. -/
def MonEvent.line (t : Bytes) : MonEvent → Bytes
  | .message chan text rssi snrQ => publicLine t chan text rssi snrQ
  | .region room ptype lenB rssi snrQ => regionLine t room ptype lenB rssi snrQ
  | .advert name atype loc rssi snrQ => advertLine t name atype loc rssi snrQ
  | .drop ptype reason chanHash => dropLine t ptype reason chanHash
  | .tx ptype flood lenB hops powerDbm airtimeMs detail => txLine t ptype flood lenB hops powerDbm airtimeMs detail

theorem MonEvent.emit_eq (e : MonEvent) (t : Bytes) (w : Nat → IoResult) (mon : McMonitor) :
    e.emit t w mon = monEmit (fun c => e.wanted c) (e.line t) w mon := by
  cases e <;> rfl

/-! ## The poll -/

/-- What `poll` leaves in the rows that `monitor_pollfds` filled in. -/
def polledWith (revents : Nat → UInt16) (pfd : List PollFd) : List PollFd :=
  pfd.mapIdx fun i p => { p with revents := revents i }

theorem length_polledWith (revents : Nat → UInt16) (mon : McMonitor) (max : Nat) :
    (polledWith revents (monitorPollfds mon max)).length = (mon.conn.take max).length := by
  rw [polledWith, List.length_mapIdx, monitorPollfds, List.length_map]

theorem revents_polledWith (revents : Nat → UInt16) (mon : McMonitor) (max : Nat) {i : Nat}
    (h : i < (mon.conn.take max).length) :
    (((polledWith revents (monitorPollfds mon max))[i]?).map PollFd.revents).getD 0 = revents i := by
  have hi : i < (monitorPollfds mon max).length := by
    rw [monitorPollfds, List.length_map]
    exact h
  rw [polledWith, List.getElem?_mapIdx, List.getElem?_eq_getElem hi]
  rfl

/-- A client that `monitor_add` takes on stands behind the others. -/
theorem prefix_monitorAdd (mon : McMonitor) (fd : Int) (cmdline : Bytes) :
    mon.conn <+: (monitorAdd mon fd cmdline).1.mon.conn := by
  rw [monitorAdd]
  split
  · exact List.prefix_refl _
  · exact List.prefix_append _ _

/-- `monitor_reap` looks at the clients that were polled, wherever later ones stand. -/
theorem monitorReap_spec (revents : Nat → UInt16) (rd : Nat → IoResult) (max : Nat) {polled now : McMonitor}
    (h : polled.conn <+: now.conn) :
    (monitorReap (polledWith revents (monitorPollfds polled max)) rd now).mon.conn.Perm
        (kept (fun i _ => hasLeft (revents i) (rd i)) (polled.conn.take max) ++
          now.conn.drop (polled.conn.take max).length) ∧
      (monitorReap (polledWith revents (monitorPollfds polled max)) rd now).io =
        written (fun i c => reapCalls (revents i) (rd i) c) (polled.conn.take max) := by
  -- the rows that were polled still stand at their places
  have hpre : polled.conn.take max <+: now.conn := (List.take_prefix max polled.conn).trans h
  rcases hpre with ⟨post, hpost⟩
  have hdrop : now.conn.drop (polled.conn.take max).length = post := by rw [← hpost, List.drop_left]
  have hcount : min (polledWith revents (monitorPollfds polled max)).length now.conn.length =
      (polled.conn.take max).length := by
    rw [length_polledWith, ← hpost, List.length_append]
    omega
  have hspec := walkBack_spec (reap_turnSpec (polledWith revents (monitorPollfds polled max)) rd)
    (s := ⟨now, []⟩) hpost.symm
  rw [kept_congr fun i hi _ => by rw [revents_polledWith revents polled max hi],
    written_congr fun i hi _ => by rw [revents_polledWith revents polled max hi], List.nil_append] at hspec
  rw [monitorReap, hcount, hdrop]
  exact hspec

/-- Each emitter writes its line once to every client that wants it and to no other, and what
is left of the table are the clients whose write did not fail. Of the clients that were polled,
`monitor_reap` takes out those that hung up, reached the end or failed, and no other client. -/
theorem monitor_exact :
    (∀ (e : MonEvent) (t : Bytes) (w : Nat → IoResult) (mon : McMonitor),
      (e.emit t w mon).io.filterMap MonIo.sent =
          (mon.conn.filter fun c => e.wanted c).reverse.map (fun c => (c.fd, e.line t)) ∧
        (e.emit t w mon).io = written (emitCalls (fun c => e.wanted c) (e.line t) w) mon.conn ∧
        (e.emit t w mon).mon.conn.Perm (kept (fun i c => e.wanted c && (w i).hard) mon.conn)) ∧
      ∀ (polled now : McMonitor) (max : Nat) (revents : Nat → UInt16) (rd : Nat → IoResult),
        polled.conn <+: now.conn →
        (monitorReap (polledWith revents (monitorPollfds polled max)) rd now).io =
            written (fun i c => reapCalls (revents i) (rd i) c) (polled.conn.take max) ∧
          (monitorReap (polledWith revents (monitorPollfds polled max)) rd now).mon.conn.Perm
            (kept (fun i _ => hasLeft (revents i) (rd i)) (polled.conn.take max) ++
              now.conn.drop (polled.conn.take max).length) := by
  constructor
  · intro e t w mon
    rw [e.emit_eq]
    rcases monEmit_spec (fun c => e.wanted c) (e.line t) w mon with ⟨htable, hio⟩
    refine ⟨?_, hio, htable⟩
    rw [hio]
    exact sent_written (fun c => e.wanted c) (e.line t) w mon.conn
  · intro polled now max revents rd hpolled
    exact (monitorReap_spec revents rd max hpolled).symm

/-- Two clients were polled and the first hung up; a third came since. -/
theorem monitor_exact_hangup :
    let polled : McMonitor := ⟨[⟨4, .monAll, []⟩, ⟨5, .monDrop, []⟩], by decide⟩
    let now := (monitorAdd polled 6 (lit "monitor tx")).1.mon
    let pfd := polledWith (fun i => if i = 0 then pollHup else 0) (monitorPollfds polled 8)
    (monitorReap pfd (fun _ => .error .again) now).io = [.close 4] ∧
      (monitorReap pfd (fun _ => .error .again) now).mon.conn.Perm [⟨5, .monDrop, []⟩, ⟨6, .monTx, []⟩] := by
  intro polled now pfd
  have h := monitor_exact.2 polled now 8 (fun i => if i = 0 then pollHup else 0) (fun _ => .error .again)
    (prefix_monitorAdd polled 6 (lit "monitor tx"))
  constructor
  · rw [h.1]
    decide
  · have hleft : kept (fun i _ => hasLeft (if i = 0 then pollHup else 0) (.error .again)) (polled.conn.take 8) ++
        now.conn.drop (polled.conn.take 8).length = [⟨5, .monDrop, []⟩, ⟨6, .monTx, []⟩] := by decide
    rw [← hleft]
    exact h.2

end Meshcore
