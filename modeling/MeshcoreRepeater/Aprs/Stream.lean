import MeshcoreRepeater.Aprs.Client
import MeshcoreRepeater.Lib.Run

/-! # What one APRS-IS connection carries

Whatever the sockets do, the bytes the server has got on a connection are the start of
whole lines in the order they were queued: the login first, and reports only once the
server has verified it. A line is queued whole or dropped whole, partial sends included
(`aprsisRun_streams`).

* `Streams.queue`, `Streams.flush`, `Streams.read`: a line more, bytes sent, an answer of the
  server.
* `aprsisRun_streams`: every run.
* `aprsis_stream`: what the server has got in every state that is reached.
-/

namespace Meshcore

open ByteLib LruGate

/-! ## What a read does -/

/-- A line that verifies the login. -/
def Verifies (line : Bytes) : Prop :=
  line.head? = some 35 ∧ lit "logresp" <:+: line ∧ lit " verified," <:+: line

/-- The client once its login is verified. -/
def verifiedState (a : McAprsis) : McAprsis := { a with state := .ready, backoffS := 5, lastBeaconMs := 0 }

/-- The client once its login is refused. -/
def rejectedState (a : McAprsis) (now : Nat) : McAprsis :=
  { goDisconnected a now true with backoffS := 300, nextConnectMs := now + 300000 }

/-- One line: it is ignored, or it is the answer to the login. -/
theorem handleServerLine_cases (a : McAprsis) (line : Bytes) (now : Nat) :
    handleServerLine a line now = a ∨
      a.state = .login ∧ Verifies line ∧ handleServerLine a line now = verifiedState a ∨
      a.state = .login ∧ handleServerLine a line now = rejectedState a now := by
  rw [handleServerLine]
  by_cases hcomment : line.head? = some 35
  · rw [if_neg (not_not.mpr hcomment)]
    by_cases hanswer : a.state = .login ∧ lit "logresp" <:+: line
    · rw [if_pos hanswer]
      by_cases hverified : lit " verified," <:+: line
      · rw [if_pos hverified]
        exact .inr (.inl ⟨hanswer.1, ⟨hcomment, hanswer.2, hverified⟩, rfl⟩)
      · rw [if_neg hverified]
        exact .inr (.inr ⟨hanswer.1, rfl⟩)
    · rw [if_neg hanswer]
      exact .inl rfl
  · rw [if_pos hcomment]
    exact .inl rfl

/-- What a read leaves of the client, its receive buffer apart, and what it handled. -/
inductive ReadEffect (a : McAprsis) (now : Nat) : McAprsis × List Bytes → Prop where
  | lost : ReadEffect a now (goDisconnected a now true, [])
  | refused {lines : List Bytes} (hlines : lines ≠ []) : ReadEffect a now (rejectedState a now, lines)
  | stays {lines : List Bytes} {rx : Bytes} (hrx : rx.length < aprsisRxbuf - 1) :
      ReadEffect a now ({ a with rxbuf := rx }, lines)
  | verified {lines : List Bytes} {rx : Bytes} (hstate : a.state = .login)
      (hline : ∃ line ∈ lines, Verifies line) (hrx : rx.length < aprsisRxbuf - 1) :
      ReadEffect a now ({ verifiedState a with rxbuf := rx }, lines)

/-- The loop over the buffer: the connection ends on a line, or what is left is shorter than
what was read where a line was found. -/
theorem scanLines_effect (now : Nat) {a : McAprsis} (hconn : a.state ≠ .disconnected) (line s : Bytes) :
    (a.state = .login ∧ ∃ lines, lines ≠ [] ∧ scanLines now a line s = (rejectedState a now, lines, none)) ∨
    ∃ b lines left, scanLines now a line s = (b, lines, some left) ∧
      left.length ≤ line.length + s.length ∧ (lines ≠ [] → left.length < line.length + s.length) ∧
      (b = a ∨ a.state = .login ∧ b = verifiedState a ∧ ∃ l ∈ lines, Verifies l) := by
  induction s generalizing a line with
  | nil => exact .inr ⟨a, [], line, rfl, by simp, fun h => absurd rfl h, .inl rfl⟩
  | cons c s ih =>
    by_cases hc : c = 10
    -- a line has ended: ignored, verified or refused
    · rw [scanLines, if_pos hc]
      rcases handleServerLine_cases a (cstr (dropCr line)) now with heq | ⟨hlogin, hver, heq⟩ | ⟨hlogin, heq⟩
      · simp only [heq, if_neg hconn]
        rcases ih hconn [] with ⟨hlogin, lines, hne, hscan⟩ | ⟨b, lines, left, hscan, hle, hlt, hb⟩
        · left
          exact ⟨hlogin, _, List.cons_ne_nil _ _, by rw [hscan]⟩
        · right
          refine ⟨b, _, left, by rw [hscan], ?_, ?_, ?_⟩
          · simp at hle ⊢
            omega
          · intro _
            simp at hle ⊢
            omega
          · rcases hb with rfl | ⟨hlogin, rfl, l, hl, hver⟩
            · exact .inl rfl
            · exact .inr ⟨hlogin, rfl, l, List.mem_cons_of_mem _ hl, hver⟩
      · have hready : (verifiedState a).state ≠ .disconnected := by
          intro h
          cases h
        simp only [heq, if_neg hready]
        rcases ih hready [] with ⟨hlogin', -⟩ | ⟨b, lines, left, hscan, hle, hlt, hb⟩
        · cases hlogin'
        · right
          refine ⟨b, _, left, by rw [hscan], ?_, ?_, .inr ⟨hlogin, ?_, _, List.mem_cons_self, hver⟩⟩
          · simp at hle ⊢
            omega
          · intro _
            simp at hle ⊢
            omega
          · rcases hb with rfl | ⟨hlogin', -⟩
            · rfl
            · cases hlogin'
      · left
        have hgone : (rejectedState a now).state = .disconnected := rfl
        simp only [heq, if_pos hgone]
        exact ⟨hlogin, _, List.cons_ne_nil _ _, rfl⟩
    -- the line goes on
    · rw [scanLines, if_neg hc]
      rcases ih hconn (line ++ [c]) with hend | ⟨b, lines, left, hscan, hle, hlt, hb⟩
      · exact .inl hend
      · refine .inr ⟨b, lines, left, hscan, ?_, ?_, hb⟩
        · simp at hle ⊢
          omega
        · intro hne
          have := hlt hne
          simp at this ⊢
          omega

/-- One `recv` and its lines, whatever the socket answers. -/
theorem readServer_effect (now : Nat) {a : McAprsis} (hconn : a.state ≠ .disconnected)
    (hrx : a.rxbuf.length < aprsisRxbuf - 1) (r : RecvResult) :
    ReadEffect a now (readServer a now (recvInto (rxFree a) r)) := by
  cases r with
  | closed => exact .lost
  | failed => exact .lost
  | again => exact .stays hrx
  | data chunk =>
    rw [recvInto]
    split
    · exact .lost
    -- the chunk is no longer than the room it is read into
    have hlen : (a.rxbuf ++ chunk.take (rxFree a)).length ≤ aprsisRxbuf - 1 := by
      rw [List.length_append, List.length_take, rxFree]
      omega
    generalize hbuf : a.rxbuf ++ chunk.take (rxFree a) = buf at hlen
    simp only [readServer, hbuf]
    rcases scanLines_effect now (a := { a with rxbuf := buf }) hconn [] buf with
      ⟨-, lines, hne, hscan⟩ | ⟨b, lines, left, hscan, hle, hlt, hb⟩
    · simp only [hscan]
      exact .refused hne
    · simp only [hscan]
      -- the client but for its buffer, verified or as it was
      have hend : ∀ rx : Bytes, rx.length < aprsisRxbuf - 1 →
          ReadEffect a now ({ b with rxbuf := rx }, lines) := by
        intro rx hshort
        rcases hb with rfl | ⟨hlogin, rfl, hver⟩
        · exact .stays hshort
        · exact .verified hlogin hver hshort
      -- without a line in it a full buffer is thrown away
      by_cases hne : lines = []
      · rw [if_neg (not_not.mpr hne)]
        split
        · exact hend [] (by decide)
        · rename_i hroom
          have hback : b = { b with rxbuf := buf } := by
            rcases hb with rfl | ⟨-, rfl, -⟩
            · rfl
            · rfl
          rw [hback]
          exact hend buf (by omega)
      · rw [if_pos hne]
        have := hlt hne
        rw [List.length_nil] at this
        exact hend left (by omega)

/-! ## One connection -/

/-- What was queued and read on the present connection, and the bytes its server got. -/
structure Wire where
  lines : List Bytes
  answers : List Bytes
  bytes : Bytes

/-- A connection nothing has happened on. -/
def Wire.empty : Wire := ⟨[], [], []⟩

/-- One act of the client, as the connection sees it. -/
def Wire.act (w : Wire) : AprsisAct → Wire
  | .opened => .empty
  | .queued line => { w with lines := w.lines ++ [line] }
  | .sent bytes => { w with bytes := w.bytes ++ bytes }
  | .handled line => { w with answers := w.answers ++ [line] }
  | _ => w

/-- After everything the client did. -/
def Wire.after (w : Wire) (acts : List AprsisAct) : Wire := acts.foldl Wire.act w

@[simp] theorem Wire.after_nil (w : Wire) : w.after [] = w := rfl

@[simp] theorem Wire.after_cons (w : Wire) (x : AprsisAct) (acts : List AprsisAct) :
    w.after (x :: acts) = (w.act x).after acts := rfl

/-- Act by act. -/
theorem Wire.after_append (w : Wire) (xs ys : List AprsisAct) :
    w.after (xs ++ ys) = (w.after xs).after ys := List.foldl_append ..

/-- Lines of the server are answers. -/
theorem Wire.after_handled (w : Wire) (lines : List Bytes) :
    w.after (lines.map .handled) = { w with answers := w.answers ++ lines } := by
  induction lines generalizing w with
  | nil => simp
  | cons line lines ih => simp [ih, Wire.act]

section
variable (M : AprsisMath) (P : McConfig → Prop)

/-- A beacon, or the report of a station that is a chat node or a repeater and goes by a
callsign; `P` is what holds of the configurations in force. -/
inductive IsReport : Bytes → Prop where
  | beacon {cfg : McConfig} (hcfg : P cfg) (hne : buildBeacon M cfg ≠ []) : IsReport (buildBeacon M cfg)
  | node {cfg : McConfig} {call pos : Bytes} {type : UInt8} {lat lon : CDouble} (hcfg : P cfg)
      (hcall : IsCallsign call) (htype : type = advTypeChat ∨ type = advTypeRepeater)
      (hpos : aprsPosition M lat lon cfg.aprsNodeSymbol = some pos) : IsReport (gateLine cfg call pos type)

/-- Nothing, or the login, and behind it reports once the login is verified. -/
def Opens (passcode : Int) (w : Wire) : Prop :=
  w.lines = [] ∨ ∃ cfg reports, P cfg ∧ w.lines = loginLine cfg passcode :: reports ∧
    (∀ r ∈ reports, IsReport M P r) ∧ (reports ≠ [] → ∃ line ∈ w.answers, Verifies line)

/-- The client and its connection: what it still has to send completes the lines. -/
structure Streams (a : AprsisClient) (w : Wire) : Prop where
  whole : a.state ≠ .disconnected → w.bytes ++ a.txbuf = w.lines.flatten
  start : w.bytes <+: w.lines.flatten
  opens : Opens M P a.passcode w
  socket : a.fd < 0 ↔ a.state = .disconnected
  txroom : a.txbuf.length ≤ aprsisTxbuf
  rxroom : a.rxbuf.length < aprsisRxbuf - 1
  shut : a.state = .disconnected → a.txbuf = [] ∧ a.rxbuf = []
  connecting : a.state = .connecting → w = .empty ∧ a.txbuf = [] ∧ a.rxbuf = []
  login : a.state = .login → w.lines.length = 1
  ready : a.state = .ready → w.lines ≠ [] ∧ ∃ line ∈ w.answers, Verifies line
  passcode : a.passcode.natAbs < 10 ^ 10

end

variable {M : AprsisMath} {P : McConfig → Prop} {a : AprsisClient} {w : Wire} {cfg : McConfig} {now : Nat}

/-- A client that is shut keeps only what the server has got. -/
theorem streams_shut {a : AprsisClient} {passcode : Int} (hpass : a.passcode = passcode)
    (hcode : passcode.natAbs < 10 ^ 10) (hfd : a.fd = -1) (hstate : a.state = .disconnected) (htx : a.txbuf = []) (hrx : a.rxbuf = [])
    (hstart : w.bytes <+: w.lines.flatten) (hopens : Opens M P passcode w) : Streams M P a w where
  whole := fun h => absurd hstate h
  start := hstart
  opens := by rwa [hpass]
  socket := iff_of_true (by rw [hfd]; decide) hstate
  txroom := by rw [htx]; exact Nat.zero_le _
  rxroom := by rw [hrx]; decide
  shut := fun _ => ⟨htx, hrx⟩
  connecting := by intro h; rw [hstate] at h; cases h
  login := by intro h; rw [hstate] at h; cases h
  ready := by intro h; rw [hstate] at h; cases h
  passcode := by rwa [hpass]

/-- Only the connection matters, not the timers, the table and the counters. -/
theorem Streams.congr (h : Streams M P a w) {b : AprsisClient} (hfd : b.fd = a.fd)
    (hstate : b.state = a.state) (htx : b.txbuf = a.txbuf) (hrx : b.rxbuf = a.rxbuf)
    (hpass : b.passcode = a.passcode) : Streams M P b w where
  whole := by rw [hstate, htx]; exact h.whole
  start := h.start
  opens := by rw [hpass]; exact h.opens
  socket := by rw [hfd, hstate]; exact h.socket
  txroom := by rw [htx]; exact h.txroom
  rxroom := by rw [hrx]; exact h.rxroom
  shut := by rw [hstate, htx, hrx]; exact h.shut
  connecting := by rw [hstate, htx, hrx]; exact h.connecting
  login := by rw [hstate]; exact h.login
  ready := by rw [hstate]; exact h.ready
  passcode := by rw [hpass]; exact h.passcode

/-- Whatever was queued and not sent is dropped with the connection. -/
theorem Streams.disconnect (h : Streams M P a w) (now : Nat) :
    Streams M P (disconnect a now).1 (w.after (disconnect a now).2) :=
  streams_shut rfl h.passcode rfl rfl rfl rfl h.start h.opens

/-- A report that is queued follows the lines before it whole, or is dropped whole. -/
theorem Streams.queue (h : Streams M P a w) (hready : a.state = .ready) {line : Bytes}
    (hline : IsReport M P line) : Streams M P (txQueue a line).1 (w.after (txQueue a line).2) := by
  rw [txQueue]
  split
  -- no room: the line is dropped
  · exact h.congr rfl rfl rfl rfl rfl
  rename_i hroom
  rcases h.ready hready with ⟨hne, hver⟩
  have hconn : a.state ≠ .disconnected := by
    intro hd
    rw [hready] at hd
    cases hd
  -- one line more, at the end
  have hflat : (w.lines ++ [line]).flatten = w.lines.flatten ++ line := by simp
  refine ⟨?_, ?_, ?_, h.socket, ?_, h.rxroom, ?_, ?_, ?_, ?_, h.passcode⟩
  · intro _
    show w.bytes ++ (a.txbuf ++ line) = (w.lines ++ [line]).flatten
    rw [hflat, ← List.append_assoc, h.whole hconn]
  · show w.bytes <+: (w.lines ++ [line]).flatten
    rw [hflat]
    exact h.start.trans (List.prefix_append ..)
  · rcases h.opens with hnil | ⟨cfg, reports, hcfg, hlines, hreports, -⟩
    · exact absurd hnil hne
    · right
      refine ⟨cfg, reports ++ [line], hcfg, ?_, ?_, fun _ => hver⟩
      · show w.lines ++ [line] = _
        rw [hlines]
        rfl
      · intro r hr
        rcases List.mem_append.mp hr with hr | hr
        · exact hreports r hr
        · rw [List.mem_singleton.mp hr]
          exact hline
  · show (a.txbuf ++ line).length ≤ aprsisTxbuf
    rw [List.length_append]
    omega
  · intro hd
    exact absurd hd hconn
  · intro hc
    have hc' : a.state = .connecting := hc
    rw [hready] at hc'
    cases hc'
  · intro hl
    have hl' : a.state = .login := hl
    rw [hready] at hl'
    cases hl'
  · intro _
    exact ⟨by simp [Wire.act], hver⟩

/-- Sending moves bytes from the buffer to the server, and may lose the connection. -/
theorem Streams.flush (h : Streams M P a w) (now : Nat) (sends : List SendResult) :
    Streams M P (txFlush now sends a).1.1 (w.after (txFlush now sends a).1.2) ∧
      ((txFlush now sends a).1.1.state = a.state ∨ (txFlush now sends a).1.1.state = .disconnected) := by
  induction sends generalizing a w with
  | nil => exact ⟨h, .inl rfl⟩
  | cons r sends ih =>
    by_cases hne : a.txbuf = []
    · rw [txFlush_empty hne]
      exact ⟨h, .inl rfl⟩
    -- nothing was taken, the connection is lost, or some bytes went out
    cases r with
    | again =>
      rw [txFlush_again hne]
      exact ⟨h, .inl rfl⟩
    | failed =>
      rw [txFlush_failed hne]
      exact ⟨h.disconnect now, .inr rfl⟩
    | took n =>
      by_cases hn : n = 0
      · rw [hn, txFlush_zero hne]
        exact ⟨h, .inl rfl⟩
      rw [txFlush_took hne now sends hn]
      -- a buffer with something in it belongs to a connection that is open
      have hconn : a.state ≠ .disconnected := fun hd => hne (h.shut hd).1
      have hconnecting : a.state ≠ .connecting := fun hc => hne (h.connecting hc).2.1
      have hcut : (w.bytes ++ a.txbuf.take n) ++ a.txbuf.drop n = w.lines.flatten := by
        rw [List.append_assoc, List.take_append_drop, h.whole hconn]
      have hstep : Streams M P { a with txbuf := a.txbuf.drop n } (w.act (.sent (a.txbuf.take n))) := by
        refine ⟨fun _ => hcut, ⟨_, hcut⟩, h.opens, h.socket, ?_, h.rxroom, ?_, ?_, h.login, h.ready,
          h.passcode⟩
        · show (a.txbuf.drop n).length ≤ aprsisTxbuf
          have := h.txroom
          rw [List.length_drop]
          omega
        · exact fun hd => absurd hd hconn
        · exact fun hc => absurd hc hconnecting
      exact ih hstep

/-- An open connection starts with the login. -/
theorem Streams.sendLogin (h : Streams M P a w) (hstate : a.state = .connecting) (hcfg : P cfg) (now : Nat) :
    Streams M P (sendLogin cfg a now).1 (w.after (sendLogin cfg a now).2) := by
  rcases h.connecting hstate with ⟨rfl, htx, hrx⟩
  have hlen : (loginLine cfg a.passcode).length ≤ 127 := by
    rw [loginLine, snprintfS, List.length_take]
    exact Nat.min_le_left ..
  -- the buffer is empty, so the login always fits
  have hroom : ¬aprsisTxbuf < a.txbuf.length + (loginLine cfg a.passcode).length := by
    rw [htx, List.length_nil, aprsisTxbuf]
    omega
  rw [Meshcore.sendLogin, txQueue, if_neg hroom]
  have hfd : ¬a.fd < 0 := by
    intro hfd
    rw [h.socket.mp hfd] at hstate
    cases hstate
  refine ⟨?_, List.nil_prefix, ?_, iff_of_false hfd ?_, ?_, h.rxroom, ?_, ?_, ?_, ?_, h.passcode⟩
  · intro _
    show [] ++ (a.txbuf ++ _) = List.flatten ([] ++ [_])
    rw [htx]
    simp
  · exact .inr ⟨cfg, [], hcfg, rfl, fun r hr => absurd hr List.not_mem_nil, fun hne => absurd rfl hne⟩
  · intro hd
    cases hd
  · show (a.txbuf ++ _).length ≤ aprsisTxbuf
    rw [List.length_append]
    omega
  · intro hd
    cases hd
  · intro hc
    cases hc
  · intro _
    rfl
  · intro hr
    cases hr

/-- A new socket starts with nothing queued, nothing read. -/
theorem Streams.startConnect (h : Streams M P a w) (hstate : a.state = .disconnected) (now : Nat)
    (r : ConnectResult) : Streams M P (startConnect a now r).1 (w.after (startConnect a now r).2) := by
  rcases h.shut hstate with ⟨htx, hrx⟩
  -- no socket, an immediate failure, or a connection under way
  cases r with
  | noSocket => exact h.disconnect now
  | failed => exact streams_shut rfl h.passcode rfl rfl rfl rfl h.start h.opens
  | started fd =>
    refine ⟨?_, List.nil_prefix, .inl rfl, ?_, ?_, h.rxroom, ?_, ?_, ?_, ?_, h.passcode⟩
    · intro _
      show [] ++ a.txbuf = List.flatten []
      rw [htx]
      rfl
    · constructor
      · intro hfd
        have hfd' : (fd : Int) < 0 := hfd
        omega
      · intro hd
        cases hd
    · exact h.txroom
    · intro hd
      cases hd
    · exact fun _ => ⟨rfl, htx, hrx⟩
    · intro hl
      cases hl
    · intro hr
      cases hr

/-- Reading changes the connection by the answer to the login, or ends it. -/
theorem Streams.read (h : Streams M P a w) (hlog : a.state = .login ∨ a.state = .ready) (now : Nat)
    (r : RecvResult) :
    Streams M P (readAprsis a now r).1 (w.after (readAprsis a now r).2) ∧
      ((readAprsis a now r).1.state = .disconnected ∨ (readAprsis a now r).1.state = .login ∨
        (readAprsis a now r).1.state = .ready) := by
  have hconn : a.state ≠ .disconnected := by
    rcases hlog with hl | hr
    · rw [hl]
      decide
    · rw [hr]
      decide
  have heffect := readServer_effect now hconn h.rxroom r
  -- answers more keep what the lines say
  have hmore : ∀ lines : List Bytes, Opens M P a.passcode { w with answers := w.answers ++ lines } := by
    intro lines
    rcases h.opens with hnil | ⟨cfg, reports, hcfg, hlines, hreports, hver⟩
    · exact .inl hnil
    · refine .inr ⟨cfg, reports, hcfg, hlines, hreports, fun hne => ?_⟩
      rcases hver hne with ⟨line, hline, hv⟩
      exact ⟨line, List.mem_append_left _ hline, hv⟩
  rw [readAprsis]
  generalize readServer a.toMcAprsis now (recvInto (rxFree a.toMcAprsis) r) = read at heffect ⊢
  -- the four ways out of the reader
  cases heffect with
  | lost => exact ⟨streams_shut rfl h.passcode rfl rfl rfl rfl h.start h.opens, .inl rfl⟩
  | @refused lines hlines =>
    refine ⟨streams_shut rfl h.passcode rfl rfl rfl rfl ?_ ?_, .inl rfl⟩
    all_goals simp only [rejectedState, goDisconnected, if_pos, if_neg hlines, Wire.after_append, Wire.after_handled]
    · exact h.start
    · exact hmore lines
  | @stays lines rx hrx =>
    have hno : ¬({ a.toMcAprsis with rxbuf := rx } : McAprsis).state = .disconnected := hconn
    refine ⟨?_, .inr hlog⟩
    simp only [if_neg hno, List.append_nil, Wire.after_handled]
    refine ⟨h.whole, h.start, hmore lines, h.socket, h.txroom, hrx, ?_, ?_, h.login, ?_, h.passcode⟩
    · exact fun hd => absurd hd hconn
    · intro hc
      have hc' : a.state = .connecting := hc
      rcases hlog with hl | hr
      · rw [hl] at hc'
        cases hc'
      · rw [hr] at hc'
        cases hc'
    · intro hr
      rcases h.ready hr with ⟨hne, line, hline, hv⟩
      exact ⟨hne, line, List.mem_append_left _ hline, hv⟩
  | @verified lines rx hstate hline hrx =>
    have hno : ¬({ verifiedState a.toMcAprsis with rxbuf := rx } : McAprsis).state = .disconnected := by
      intro hd
      cases hd
    refine ⟨?_, .inr (.inr rfl)⟩
    simp only [if_neg hno, List.append_nil, Wire.after_handled]
    refine ⟨?_, h.start, hmore lines, iff_of_false ?_ ?_, h.txroom, hrx, ?_, ?_, ?_, ?_, h.passcode⟩
    · exact fun _ => h.whole hconn
    · exact fun hfd => hconn (h.socket.mp hfd)
    · intro hd
      cases hd
    · intro hd
      cases hd
    · intro hc
      cases hc
    · intro hl
      cases hl
    · intro _
      have hone := h.login hstate
      refine ⟨?_, ?_⟩
      · intro hnil
        have hnil' : w.lines = [] := hnil
        rw [hnil', List.length_nil] at hone
        cases hone
      · rcases hline with ⟨line, hmem, hv⟩
        exact ⟨line, List.mem_append_right _ hmem, hv⟩

/-! ## One call -/

/-- The beacon is queued on a connection that is ready. -/
theorem Streams.timers (h : Streams M P a w) (hcfg : P cfg) (now : Nat) (sends : List SendResult) :
    Streams M P (aprsisTimers M cfg a now sends).1 (w.after (aprsisTimers M cfg a now sends).2) := by
  rw [aprsisTimers]
  by_cases hlate : a.state = .login ∧ a.deadlineMs < now
  · rw [if_pos hlate]
    exact h.disconnect now
  rw [if_neg hlate]
  split
  · rename_i hdue
    by_cases hnone : buildBeacon M cfg = []
    · simp only [if_pos hnone]
      exact h.congr rfl rfl rfl rfl rfl
    · simp only [if_neg hnone, Wire.after_append]
      have hqueued := h.queue hdue.1 (.beacon hcfg hnone)
      exact (hqueued.flush now sends).1.congr rfl rfl rfl rfl rfl
  · exact h

/-- Read, flush, timers, as long as the connection lasts. -/
theorem Streams.connected (h : Streams M P a w) (hlog : a.state = .login ∨ a.state = .ready) (hcfg : P cfg)
    (now : Nat) (revents : Revents) (io : AprsisIo) :
    Streams M P (aprsisConnected M cfg a now revents io).1
      (w.after (aprsisConnected M cfg a now revents io).2) := by
  have hread : Streams M P (if revents.pollin then readAprsis a now io.recv else (a, [])).1
      (w.after (if revents.pollin then readAprsis a now io.recv else (a, [])).2) := by
    split
    · exact (h.read hlog now io.recv).1
    · exact h
  simp only [aprsisConnected]
  generalize (if revents.pollin then readAprsis a now io.recv else (a, [])) = read at hread ⊢
  split
  · exact h.disconnect now
  split
  · exact hread
  · simp only [Wire.after_append]
    exact (hread.flush now io.sends).1.timers hcfg now _

/-- A pass of the main loop, by the state of the client. -/
theorem Streams.service (h : Streams M P a w) (hcfg : P cfg) (now : Nat) (revents : Revents) (io : AprsisIo) :
    Streams M P (aprsisService M cfg a now revents io).1
      (w.after (aprsisService M cfg a now revents io).2) := by
  rw [aprsisService]
  cases hstate : a.state with
  | disconnected =>
    simp only
    split
    · exact h.startConnect hstate now io.connect
    · exact h
  | connecting =>
    simp only
    split
    · exact h.disconnect now
    split
    · split
      · exact h.disconnect now
      · rw [Wire.after_append]
        exact ((h.sendLogin hstate hcfg now).flush now io.sends).1
    · split
      · exact h.disconnect now
      · exact h
  | login => exact h.connected (.inl hstate) hcfg now revents io
  | ready => exact h.connected (.inr hstate) hcfg now revents io

/-- What `aprsis_valid_callsign` leaves in `call` when it accepts. -/
theorem isCallsign_of_valid {name : Bytes} (h : (aprsisValidCallsign name (List.replicate 12 0)).1 = true) :
    IsCallsign (cstr (aprsisValidCallsign name (List.replicate 12 0)).2) := by
  rw [aprsisValidCallsign] at h ⊢
  rcases hup : callUpper name [] with _ | up
  · rw [hup] at h
    cases h
  rw [hup] at h
  simp only at h ⊢
  split at h
  · cases h
  -- the checks of the code in their order: size, SSID, shape
  rename_i hsize
  rw [if_neg hsize]
  split at h
  · cases h
  rename_i hssid
  rw [if_neg hssid]
  split at h
  · cases h
  rename_i hshape
  rw [if_neg hshape]
  have hcall : IsCallsign up := (checks_iff up).mp ⟨hsize, hssid, Bool.not_eq_false _ ▸ hshape⟩
  have hnul : (0 : UInt8) ∉ up := by
    intro hmem
    have hchar := hcall.chars 0 hmem
    revert hchar
    unfold IsCallChar
    decide
  have hlen : up.length < (List.replicate 12 (0 : UInt8)).length := by
    have := hcall.2
    rw [List.length_replicate]
    omega
  simp only
  rw [snprintfTo_cstr hlen hnul]
  exact hcall

/-- A heard station is reported on a connection that is ready. -/
theorem Streams.gate (h : Streams M P a w) (hcfg : P cfg) (now : Nat) (name : Bytes) (type : UInt8)
    (lat lon : CDouble) (pub : Bytes) :
    Streams M P (aprsisGateNode M cfg a now name type lat lon pub).1
      (w.after (aprsisGateNode M cfg a now name type lat lon pub).2) := by
  rw [aprsisGateNode]
  split
  · exact h
  rename_i hready
  split
  · exact h
  split
  · exact h
  -- ready, not the repeater itself, a kind that is gated, a callsign
  rename_i htype
  simp only
  split
  · exact h
  rename_i hvalid
  have hcall := isCallsign_of_valid (Bool.not_eq_false _ ▸ hvalid)
  have hkind : type = advTypeChat ∨ type = advTypeRepeater := by
    by_contra hno
    exact htype (not_or.mp hno)
  generalize cstr (aprsisValidCallsign name (List.replicate 12 0)).2 = call at hcall ⊢
  generalize ask a.nodes aprsisMaxNodes (rateCall M cfg call now (lat, lon)) = asked
  split
  · exact h
  have hnodes : Streams M P { a with nodes := asked.1 } w := h.congr rfl rfl rfl rfl rfl
  split
  · exact hnodes
  · rename_i pos hpos
    have hqueued := hnodes.queue (not_not.mp hready) (IsReport.node (M := M) hcfg hcall hkind hpos)
    exact hqueued.congr rfl rfl rfl rfl rfl

/-! ## Runs -/

/-- One call, with the configuration in force. -/
theorem Streams.step {acts : List AprsisAct} (h : Streams M P a (Wire.empty.after acts)) {x : AprsisCall}
    (hcfg : P x.cfg) :
    Streams M P (aprsisStep M (a, acts) x).1 (Wire.empty.after (aprsisStep M (a, acts) x).2) := by
  rw [aprsisStep, Wire.after_append]
  cases x with
  | service cfg now revents io => exact h.service hcfg now revents io
  | gate cfg now name type lat lon pub => exact h.gate hcfg now name type lat lon pub

/-! ## Every line is one line -/

/-- Texts of a configuration that fit their arrays and break no line. -/
structure AprsTexts (cfg : McConfig) : Prop where
  call : (10 : UInt8) ∉ cfg.aprsCall ∧ cfg.aprsCall.length ≤ 15
  tocall : (10 : UInt8) ∉ cfg.aprsTocall ∧ cfg.aprsTocall.length ≤ 11
  comment : (10 : UInt8) ∉ cfg.aprsComment ∧ cfg.aprsComment.length ≤ 95

/-- A text without a line break, then CR LF. -/
def IsCrlfLine (line : Bytes) : Prop := ∃ text, line = text ++ lit "\r\n" ∧ (10 : UInt8) ∉ text

/-- A formatted line that the buffer has room for. -/
theorem isCrlfLine_snprintfS {size : Nat} {text : Bytes} (hlen : text.length + 2 ≤ size - 1)
    (hnl : (10 : UInt8) ∉ text) : IsCrlfLine (snprintfS size (text ++ lit "\r\n")) := by
  refine ⟨text, ?_, hnl⟩
  rw [snprintfS, List.take_of_length_le]
  rw [List.length_append]
  exact hlen

/-- Digits are no line break. -/
theorem newline_not_mem_decimal (n : Nat) : (10 : UInt8) ∉ decimal n := by
  intro h
  have hdigit := isDigitOf_of_mem_numeral (by omega) (by omega) h
  cases hdigit

/-- Nor are the zeros in front of them. -/
theorem newline_not_mem_padLeft {k : Nat} {s : Bytes} (h : (10 : UInt8) ∉ s) : (10 : UInt8) ∉ padLeft k s := by
  rw [padLeft, List.mem_append, not_or]
  exact ⟨fun hzero => absurd (List.eq_of_mem_replicate hzero) (by decide), h⟩

/-- The characters of a symbol are printable. -/
theorem positionSymbol_printable {symbol : Bytes} {t c : UInt8} (h : positionSymbol (some symbol) = some (t, c)) :
    overlay t ≠ 10 ∧ c ≠ 10 := by
  -- the table and code characters, over the byte
  have hall : ∀ (n : Fin 256) (x : UInt8), symbolValid [UInt8.ofNat n, x] = true →
      overlay (UInt8.ofNat n) ≠ 10 ∧ x ≠ 10 := by
    intro n x hvalid
    rw [symbolValid, Bool.and_eq_true] at hvalid
    refine ⟨?_, ?_⟩
    · have hn : ∀ n : Fin 256, (UInt8.ofNat n == 47 || UInt8.ofNat n == 92 ||
          (65 ≤ UInt8.ofNat n && UInt8.ofNat n ≤ 90) || (48 ≤ UInt8.ofNat n && UInt8.ofNat n ≤ 57)) = true →
          overlay (UInt8.ofNat n) ≠ 10 := by decide +kernel
      exact hn n hvalid.1
    · rintro rfl
      have hbad := hvalid.2
      revert hbad
      decide
  rcases symbol with _ | ⟨x, symbol⟩
  · cases h
    decide
  · rw [positionSymbol] at h
    · split at h
      · rename_i hvalid
        rw [Option.some.injEq, Prod.mk.injEq] at h
        rcases symbol with _ | ⟨y, _ | ⟨z, symbol⟩⟩
        · cases hvalid
        · have hx := hall ⟨x.toNat, x.toNat_lt⟩ y
          rw [UInt8.ofNat_toNat] at hx
          rw [← h.1, ← h.2]
          exact hx hvalid
        · cases hvalid
      · cases h
    · intro hnil
      cases hnil

/-- A position is thirteen printable characters at most. -/
theorem aprsPosition_text {lat lon : CDouble} {symbol pos : Bytes} (h : aprsPosition M lat lon symbol = some pos) :
    pos.length ≤ 13 ∧ (10 : UInt8) ∉ pos := by
  rw [aprsPosition, aprsMakePosition] at h
  split at h
  · cases h
  rename_i hrange
  rcases hsym : positionSymbol (some symbol) with _ | ⟨t, c⟩
  · rw [hsym] at h
    cases h
  rw [hsym] at h
  simp only [Option.some.injEq] at h
  rcases positionStrings_fourChars hrange with ⟨hlat, hlon⟩
  have hlen := length_positionText M.log hlat.1 hlon.1 (-1) (-1) t c
  -- the buffer of the caller does not cut it
  have htext : pos = positionText M.log lat lon (-1) (-1) t c := by
    rw [← h, snprintfS, List.take_of_length_le (by omega)]
  refine ⟨by rw [htext]; exact hlen, ?_⟩
  rcases positionSymbol_printable hsym with ⟨ht, hc⟩
  have hchars : ∀ {s : Bytes}, FourChars s → (10 : UInt8) ∉ s := by
    intro s hs hmem
    have hbad := (hs.2 10 hmem).1
    revert hbad
    decide
  have htail : cstr (positionTail M.log (-1) (-1)) = lit "  A" := rfl
  rw [htext, positionText, htail]
  simp only [List.cons_append, List.mem_cons, List.mem_append, not_or]
  exact ⟨Ne.symm ht, ⟨hchars hlat, hchars hlon⟩, Ne.symm hc, by decide⟩

/-- The report of a station is one line: callsign, TOCALL, the gate's call, position, kind. -/
theorem gateLine_crlf (hcfg : AprsTexts cfg) {call pos : Bytes} (hcall : IsCallsign call) (type : UInt8)
    {lat lon : CDouble} {symbol : Bytes} (hpos : aprsPosition M lat lon symbol = some pos) :
    IsCrlfLine (gateLine cfg call pos type) := by
  rcases aprsPosition_text hpos with ⟨hlen, hnl⟩
  -- the five names of a kind
  have htype : (10 : UInt8) ∉ typeName type ∧ (typeName type).length ≤ 8 := by
    rw [typeName]
    split
    · decide
    split
    · decide
    split
    · decide
    split
    · decide
    · decide
  have hcallnl : (10 : UInt8) ∉ call := by
    intro hmem
    have hchar := hcall.chars 10 hmem
    revert hchar
    unfold IsCallChar
    decide
  have h9 := hcall.2
  have h15 := hcfg.call.2
  have h11 := hcfg.tocall.2
  rw [gateLine]
  apply isCrlfLine_snprintfS
  · simp [lit]
    omega
  · simp only [List.mem_append, not_or]
    refine ⟨⟨⟨⟨⟨⟨⟨⟨hcallnl, ?_⟩, hcfg.tocall.1⟩, ?_⟩, hcfg.call.1⟩, ?_⟩, hnl⟩, ?_⟩, htype.1⟩
    all_goals decide

/-- So is the beacon, with the comment and the height. -/
theorem buildBeacon_crlf (hcfg : AprsTexts cfg) (hne : buildBeacon M cfg ≠ []) : IsCrlfLine (buildBeacon M cfg) := by
  have h15 := hcfg.call.2
  have h11 := hcfg.tocall.2
  have h95 := hcfg.comment.2
  rcases hpos : aprsPosition M cfg.latitude cfg.longitude cfg.aprsSymbol with _ | pos
  · exact absurd (by rw [buildBeacon, hpos]) hne
  rcases aprsPosition_text hpos with ⟨hlen, hnl⟩
  rw [buildBeacon, hpos]
  simp only
  -- the height, where there is one
  have halt : ∀ alt : Bytes, alt = (if cfg.aprsAltitude.eq (.fin 0) then []
      else snprintfS 24 (lit " /A=" ++ fmt06d (altFeet cfg.aprsAltitude))) →
      (10 : UInt8) ∉ alt ∧ alt.length ≤ 23 := by
    rintro alt rfl
    split
    · exact ⟨List.not_mem_nil, Nat.zero_le _⟩
    · refine ⟨?_, ?_⟩
      · intro hmem
        rcases List.mem_append.mp (List.mem_of_mem_take hmem) with hmem | hmem
        · revert hmem
          decide
        · rw [fmt06d] at hmem
          split at hmem
          · rcases List.mem_cons.mp hmem with hminus | hmem
            · cases hminus
            · exact newline_not_mem_padLeft (newline_not_mem_decimal _) hmem
          · exact newline_not_mem_padLeft (newline_not_mem_decimal _) hmem
      · rw [snprintfS, List.length_take]
        exact Nat.min_le_left ..
  generalize (if cfg.aprsAltitude.eq (.fin 0) then []
    else snprintfS 24 (lit " /A=" ++ fmt06d (altFeet cfg.aprsAltitude))) = alt at halt ⊢
  rcases halt alt rfl with ⟨haltnl, haltlen⟩
  apply isCrlfLine_snprintfS
  · simp [lit]
    omega
  · simp only [List.mem_append, not_or]
    refine ⟨⟨⟨⟨⟨⟨⟨hcfg.call.1, ?_⟩, hcfg.tocall.1⟩, ?_⟩, hnl⟩, ?_⟩, hcfg.comment.1⟩, haltnl⟩
    all_goals decide

theorem loginLine_crlf (hcfg : AprsTexts cfg) {passcode : Int} (hpass : passcode.natAbs < 10 ^ 10) :
    IsCrlfLine (loginLine cfg passcode) := by
  have hdec : (decimal passcode.natAbs).length ≤ 10 := length_numeral_le (by omega) (by omega) hpass
  have hnl : (10 : UInt8) ∉ intDecimal passcode := by
    rw [intDecimal]
    split
    · exact List.not_mem_cons_of_ne_of_not_mem (by decide) (newline_not_mem_decimal _)
    · exact newline_not_mem_decimal _
  have hlen : (intDecimal passcode).length ≤ 11 := by
    rw [intDecimal]
    split
    · rw [List.length_cons]
      omega
    · omega
  have h15 := hcfg.call.2
  have hsplit : loginLine cfg passcode = snprintfS 128 ((lit "user " ++ cfg.aprsCall ++ lit " pass " ++
      intDecimal passcode ++ lit " vers meshcore-repeater 1.0") ++ lit "\r\n") := by
    rw [loginLine]
    simp only [List.append_assoc]
    rfl
  rw [hsplit]
  apply isCrlfLine_snprintfS
  · simp [lit]
    omega
  · simp only [List.mem_append, not_or]
    refine ⟨⟨⟨⟨?_, hcfg.call.1⟩, ?_⟩, hnl⟩, ?_⟩
    all_goals decide

/-! ## Whole runs -/

theorem initPasscode_lt (cfg : McConfig) :
    (if strcaseEq cfg.aprsPasscode (lit "auto") then aprsisPasscode cfg.aprsCall
      else atoi cfg.aprsPasscode).natAbs < 10 ^ 10 := by
  split
  · rw [aprsisPasscode]
    have hlt := (passcodeHash 0x73e2 (((cfg.aprsCall.takeWhile (· ≠ 45)).take 15).map upcase) &&& 0x7fff).toNat_lt
    simp only [Int.natAbs_natCast]
    omega
  · have hlo := Int.le_bmod (x := toLong (((scanInteger 10 cfg.aprsPasscode).map Prod.fst).getD 0))
      (m := 2 ^ 32) (by decide)
    have hhi := Int.bmod_lt (x := toLong (((scanInteger 10 cfg.aprsPasscode).map Prod.fst).getD 0))
      (m := 2 ^ 32) (by decide)
    rw [atoi]
    omega

theorem streams_init {cfg : McConfig} {ourPub : Bytes} {resolved : Bool}
    (h : aprsisInit cfg ourPub resolved = some a) : Streams M P a .empty := by
  rw [aprsisInit] at h
  split at h
  · cases h
  cases h
  exact streams_shut rfl (initPasscode_lt cfg) rfl rfl rfl rfl List.nil_prefix (.inl rfl)

theorem aprsisRun_streams (M : AprsisMath) (P : McConfig → Prop) {cfg : McConfig} {ourPub : Bytes}
    {resolved : Bool} (hinit : aprsisInit cfg ourPub resolved = some a) {xs : List AprsisCall}
    (hcfg : ∀ x ∈ xs, P x.cfg) :
    Streams M P (Runs.run (aprsisStep M) (a, []) xs).1
      (Wire.empty.after (Runs.run (aprsisStep M) (a, []) xs).2) := by
  apply Runs.run_invariant_of (fun (_ : AprsisStep) (x : AprsisCall) => P x.cfg)
    (fun s : AprsisStep => Streams M P s.1 (Wire.empty.after s.2))
  · intro s x hx hs
    exact hs.step hx
  · exact Runs.every_of_forall_mem hcfg
  · exact streams_init hinit

/-- In every state the client can reach, whatever its sockets answer: the server of the present
connection has the start of the lines that were queued on it, whole and in order, and what it
misses of them is in the buffer as long as the connection lasts. Every line ends in its CR LF
and has no other line break; the first is the login, the others are reports, and there is none
of them before a line of this server has verified the login. -/
theorem aprsis_stream (M : AprsisMath) {cfg : McConfig} {ourPub : Bytes} {resolved : Bool}
    (hinit : aprsisInit cfg ourPub resolved = some a) {xs : List AprsisCall}
    (hcfg : ∀ x ∈ xs, AprsTexts x.cfg) :
    let s := Runs.run (aprsisStep M) (a, []) xs
    let w := Wire.empty.after s.2
    w.bytes <+: w.lines.flatten ∧
      (s.1.state ≠ .disconnected → w.bytes ++ s.1.txbuf = w.lines.flatten) ∧
      (∀ line ∈ w.lines, IsCrlfLine line) ∧
      (w.lines = [] ∨ ∃ cfg' reports, w.lines = loginLine cfg' s.1.passcode :: reports ∧
        (∀ r ∈ reports, IsReport M AprsTexts r) ∧
        (reports ≠ [] → ∃ line ∈ w.answers, Verifies line)) ∧
      s.1.txbuf.length ≤ aprsisTxbuf ∧ s.1.rxbuf.length < aprsisRxbuf - 1 ∧
      (aprsisPollfd s.1 = none ↔ s.1.state = .disconnected) := by
  intro s w
  have h : Streams M AprsTexts s.1 w := aprsisRun_streams M AprsTexts hinit hcfg
  refine ⟨h.start, h.whole, ?_, ?_, h.txroom, h.rxroom, ?_⟩
  · intro line hline
    rcases h.opens with hnil | ⟨cfg', reports, hcfg', hlines, hreports, -⟩
    · rw [hnil] at hline
      cases hline
    · rw [hlines] at hline
      rcases List.mem_cons.mp hline with rfl | hline
      · exact loginLine_crlf hcfg' h.passcode
      · cases hreports line hline with
        | beacon hc hne => exact buildBeacon_crlf hc hne
        | node hc hcall _ hpos => exact gateLine_crlf hc hcall _ hpos
  · rcases h.opens with hnil | ⟨cfg', reports, -, hlines, hreports, hver⟩
    · exact .inl hnil
    · exact .inr ⟨cfg', reports, hlines, hreports, hver⟩
  · rw [← h.socket, aprsisPollfd]
    split
    · rename_i hfd
      exact iff_of_true rfl hfd
    · rename_i hfd
      refine iff_of_false ?_ hfd
      split
      · intro hsome
        cases hsome
      · intro hsome
        cases hsome

/-- A library that measures every angle as the equator's and takes no roots: what moves at all,
moves far. -/
def coarseMath : AprsisMath := ⟨fun _ => .fin 1, id, id⟩

def gateConfig : McConfig := { configDefaults with aprsEnable := true, aprsCall := lit "N0CALL" }

/-- The client of that configuration, before its first call. -/
def gateClient : AprsisClient where
  fd := -1
  state := .disconnected
  nextConnectMs := 0
  backoffS := 5
  lastBeaconMs := 0
  txbuf := []
  rxbuf := []
  ourPub := List.replicate 32 1
  passcode := aprsisPasscode (lit "N0CALL")
  resolved := true
  deadlineMs := 0
  nodes := []
  statGated := 0
  statBeacons := 0
  statDropped := 0

theorem gateClient_init : aprsisInit gateConfig (List.replicate 32 1) true = some gateClient := rfl

/-- It connects, logs in with its sends cut short, is verified, and hears a station. -/
def gateRun : List AprsisCall :=
  [.service gateConfig 2000000 ⟨false, false, false⟩ ⟨.started 7, false, .again, []⟩,
    .service gateConfig 2000010 ⟨false, false, true⟩ ⟨.noSocket, false, .again, [.took 20, .again]⟩,
    .service gateConfig 2000020 ⟨false, true, true⟩
      ⟨.noSocket, false, .data (lit "# logresp N0CALL verified, server T2\r\n"), [.took 90, .took 10]⟩,
    .gate gateConfig 2000030 (lit "ON6URE-6") advTypeChat (.fin 51) (.fin 3) (List.replicate 32 2)]

theorem gateConfig_texts : AprsTexts gateConfig := by
  refine ⟨?_, ?_, ?_⟩
  all_goals decide

theorem aprsis_stream_gateRun :
    let s := Runs.run (aprsisStep coarseMath) (gateClient, []) gateRun
    let w := Wire.empty.after s.2
    w.bytes <+: w.lines.flatten ∧ (∀ line ∈ w.lines, IsCrlfLine line) ∧ w.lines.length = 3 ∧ s.1.txbuf ≠ [] := by
  have hcfg : ∀ x ∈ gateRun, AprsTexts x.cfg := by
    simp only [gateRun, List.forall_mem_cons, AprsisCall.cfg]
    exact ⟨gateConfig_texts, gateConfig_texts, gateConfig_texts, gateConfig_texts, fun x hx => by cases hx⟩
  have h := aprsis_stream coarseMath gateClient_init hcfg
  refine ⟨h.1, h.2.2.1, ?_, ?_⟩
  · decide +kernel
  · decide +kernel

end Meshcore
