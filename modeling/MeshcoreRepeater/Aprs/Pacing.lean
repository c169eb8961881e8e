import MeshcoreRepeater.Aprs.Stream

/-! # How often the APRS-IS client connects and reports

The clock of a run does not go back. Attempts to connect are ten seconds apart, and none
comes within five minutes of a refused login (`aprsis_attempts_paced`). Reports of one
callsign are `aprs_node_rate` apart, unless the station moved or the table was crowded
(`aprsis_reports_paced`).

* `aprsisRun_paced`: the invariant of the timers, over a run.
* `aprsis_attempts_paced`: how far attempts to connect are apart.
* `aprsisRun_remembers`: the table of the stations is a limiter.
* `aprsis_reports_paced`: when a station that is heard is reported.
-/

namespace Meshcore

open ByteLib LruGate

/-- The times of the calls do not go back. -/
def Clocked (xs : List AprsisCall) : Prop := xs.Pairwise fun x y => x.now ≤ y.now

/-! ## Attempts -/

/-- When the next attempt may follow. -/
def AprsisAct.due : AprsisAct → Option Nat
  | .attempt now => some (now + 10000)
  | .rejected now => some (now + 300000)
  | _ => none

/-- No attempt comes before what was done earlier lets it. -/
def AttemptsPaced (acts : List AprsisAct) : Prop :=
  acts.Pairwise fun x y => ∀ t d, y = .attempt t → x.due = some d → d ≤ t

/-- Everything done lets the next attempt come by `t`. -/
def DueBy (acts : List AprsisAct) (t : Nat) : Prop := ∀ x ∈ acts, ∀ d, x.due = some d → d ≤ t

/-- Neither an attempt nor a refusal. -/
def AprsisAct.Inert (x : AprsisAct) : Prop := x.due = none

/-- The client waits out its backoff; `now` is the time of the present call. -/
structure Paced (now : Nat) (a : AprsisClient) (acts : List AprsisAct) : Prop where
  attempts : AttemptsPaced acts
  waits : a.state = .disconnected → DueBy acts a.nextConnectMs
  busy : a.state ≠ .disconnected → DueBy acts (now + 10000)
  backoff : 5 ≤ a.backoffS ∧ a.backoffS ≤ 300

variable {M : AprsisMath} {a b : AprsisClient} {acts extra : List AprsisAct} {cfg : McConfig} {now : Nat}

/-- What may follow by `t` may follow later. -/
theorem DueBy.mono {t u : Nat} (h : DueBy acts t) (hle : t ≤ u) : DueBy acts u :=
  fun x hx d hd => (h x hx d hd).trans hle

/-- The clock goes on; `now` is only needed while the client is not disconnected. -/
theorem Paced.mono (h : Paced now a acts) {now' : Nat} (hle : now ≤ now') : Paced now' a acts :=
  ⟨h.attempts, h.waits, fun hs => (h.busy hs).mono (by omega), h.backoff⟩

/-- An attempt asks for a pause behind it, so no inert act is one. -/
theorem attempt_not_inert {x : AprsisAct} (h : x.Inert) (t : Nat) : x ≠ .attempt t := by
  rintro rfl
  cases h

theorem dueBy_append {t : Nat} (h : DueBy acts t) (hextra : DueBy extra t) : DueBy (acts ++ extra) t := by
  intro x hx
  rcases List.mem_append.mp hx with hx | hx
  · exact h x hx
  · exact hextra x hx

/-- Acts that are inert hold nothing up. -/
theorem dueBy_inert (h : ∀ x ∈ extra, x.Inert) (t : Nat) : DueBy extra t := by
  intro x hx d hd
  rw [h x hx] at hd
  cases hd

/-- Acts without an attempt among them may follow at any time. -/
theorem attemptsPaced_append (h : AttemptsPaced acts) (hextra : ∀ x ∈ extra, ∀ t, x ≠ .attempt t) :
    AttemptsPaced (acts ++ extra) := by
  rw [AttemptsPaced, List.pairwise_append]
  refine ⟨h, ?_, ?_⟩
  · apply List.Pairwise.imp_of_mem (R := fun _ _ => True)
    · intro x y _ hy _ t d heq
      exact absurd heq (hextra y hy t)
    · exact List.pairwise_of_forall fun _ _ => trivial
  · intro x _ y hy t d heq
    exact absurd heq (hextra y hy t)

/-- What does not concern the timers. -/
theorem Paced.inert (h : Paced now a acts) (hextra : ∀ x ∈ extra, x.Inert) (hstate : b.state = .disconnected ↔ a.state = .disconnected)
    (hnext : b.nextConnectMs = a.nextConnectMs) (hback : 5 ≤ b.backoffS ∧ b.backoffS ≤ 300) :
    Paced now b (acts ++ extra) where
  attempts := attemptsPaced_append h.attempts fun x hx => attempt_not_inert (hextra x hx)
  waits := by
    rw [hstate, hnext]
    exact fun hs => dueBy_append (h.waits hs) (dueBy_inert hextra _)
  busy := by
    rw [ne_eq, hstate]
    exact fun hs => dueBy_append (h.busy hs) (dueBy_inert hextra _)
  backoff := hback

/-- A change of the client without an act, which leaves its timers. -/
theorem Paced.congr (h : Paced now a acts) (hstate : b.state = .disconnected ↔ a.state = .disconnected)
    (hnext : b.nextConnectMs = a.nextConnectMs) (hback : b.backoffS = a.backoffS) : Paced now b acts := by
  have hsame : Paced now b (acts ++ []) :=
    h.inert (fun x hx => absurd hx List.not_mem_nil) hstate hnext (by rw [hback]; exact h.backoff)
  rwa [List.append_nil] at hsame

/-- A connection that is lost is not tried again for ten seconds at least. -/
theorem paced_disconnect (hattempts : AttemptsPaced acts) (hdue : DueBy acts (now + 10000))
    (hback : 5 ≤ a.backoffS) : Paced now (disconnect a now).1 (acts ++ (disconnect a now).2) := by
  have hshut : ∀ x ∈ [AprsisAct.shut], x.Inert := by
    intro x hx
    rw [List.mem_singleton.mp hx]
    rfl
  -- the backoff doubles up to five minutes, from five seconds at least
  have hbump : (disconnect a now).1.backoffS = min (a.backoffS * 2) 300 := by
    show (goDisconnected a.toMcAprsis now true).backoffS = _
    rw [goDisconnected, if_pos rfl, if_neg (by omega)]
  have hnext : (disconnect a now).1.nextConnectMs = now + min (a.backoffS * 2) 300 * 1000 := by
    rw [← hbump]
    rfl
  refine ⟨attemptsPaced_append hattempts fun x hx => attempt_not_inert (hshut x hx), ?_, ?_, ?_⟩
  · intro _
    rw [hnext]
    exact (dueBy_append hdue (dueBy_inert hshut _)).mono (by omega)
  · intro hno
    exact absurd rfl hno
  · rw [hbump]
    omega

theorem Paced.disconnect (h : Paced now a acts) (hconn : a.state ≠ .disconnected) :
    Paced now (disconnect a now).1 (acts ++ (disconnect a now).2) :=
  paced_disconnect h.attempts (h.busy hconn) h.backoff.1

@[simp] theorem txQueue_state (a : AprsisClient) (line : Bytes) : (txQueue a line).1.state = a.state := by
  rw [txQueue]
  split
  · rfl
  · rfl

/-- Queueing a line touches no timer, whether the line fits or is dropped. -/
theorem Paced.queue (h : Paced now a acts) (line : Bytes) :
    Paced now (txQueue a line).1 (acts ++ (txQueue a line).2) := by
  rw [txQueue]
  split
  · exact h.inert (fun x hx => absurd hx List.not_mem_nil) Iff.rfl rfl h.backoff
  · refine h.inert ?_ Iff.rfl rfl h.backoff
    intro x hx
    rw [List.mem_singleton.mp hx]
    rfl

/-- Sending what is queued: the server takes some of it, or the connection is lost. -/
theorem Paced.flush (h : Paced now a acts) (hconn : a.state ≠ .disconnected) (sends : List SendResult) :
    Paced now (txFlush now sends a).1.1 (acts ++ (txFlush now sends a).1.2) := by
  induction sends generalizing a acts with
  | nil =>
    rw [txFlush, List.append_nil]
    exact h
  | cons r sends ih =>
    by_cases hne : a.txbuf = []
    · rw [txFlush_empty hne, List.append_nil]
      exact h
    -- by what the socket took; a short write is tried again with the rest
    cases r with
    | again =>
      rw [txFlush_again hne, List.append_nil]
      exact h
    | failed =>
      rw [txFlush_failed hne]
      exact h.disconnect hconn
    | took n =>
      by_cases hn : n = 0
      · rw [hn, txFlush_zero hne, List.append_nil]
        exact h
      rw [txFlush_took hne now sends hn]
      have hsent : Paced now { a with txbuf := a.txbuf.drop n } (acts ++ [.sent (a.txbuf.take n)]) := by
        refine h.inert ?_ Iff.rfl rfl h.backoff
        intro x hx
        rw [List.mem_singleton.mp hx]
        rfl
      have hrest := ih hsent hconn
      rwa [List.append_assoc] at hrest

/-- What is read of the server may lose the connection, refuse the login, or verify it. -/
theorem Paced.read (h : Paced now a acts) (hconn : a.state ≠ .disconnected)
    (hrx : a.rxbuf.length < aprsisRxbuf - 1) (r : RecvResult) :
    Paced now (readAprsis a now r).1 (acts ++ (readAprsis a now r).2) := by
  have heffect := readServer_effect now hconn hrx r
  have hlines : ∀ lines : List Bytes, ∀ x ∈ lines.map AprsisAct.handled, x.Inert := by
    intro lines x hx
    rcases List.mem_map.mp hx with ⟨line, -, rfl⟩
    rfl
  rw [readAprsis]
  generalize readServer a.toMcAprsis now (recvInto (rxFree a.toMcAprsis) r) = read at heffect ⊢
  -- the four ways out of the reader
  cases heffect with
  | lost => exact h.disconnect hconn
  | @refused lines hne =>
    have hgone : (rejectedState a.toMcAprsis now).state = .disconnected := rfl
    simp only [if_pos hgone, if_neg hne]
    have hpaced := h.inert (b := a) (hlines lines) Iff.rfl rfl h.backoff
    rw [← List.append_assoc]
    generalize acts ++ lines.map AprsisAct.handled = acts at hpaced ⊢
    -- a refused login waits five minutes
    have hrest : ∀ x ∈ [AprsisAct.rejected now, .shut], (∀ t, x ≠ .attempt t) ∧ ∀ d, x.due = some d → d ≤ now + 300000 := by
      intro x hx
      rcases List.mem_pair.mp hx with rfl | rfl
      · refine ⟨fun t heq => (by cases heq), ?_⟩
        intro d hd
        cases hd
        exact Nat.le_refl _
      · exact ⟨fun t heq => (by cases heq), fun d hd => by cases hd⟩
    refine ⟨attemptsPaced_append hpaced.attempts fun x hx => (hrest x hx).1, ?_, ?_, ?_⟩
    · intro _
      show DueBy _ (now + 300000)
      exact dueBy_append ((hpaced.busy hconn).mono (by omega)) fun x hx => (hrest x hx).2
    · intro hno
      exact absurd rfl hno
    · show 5 ≤ 300 ∧ 300 ≤ 300
      decide
  | @stays lines rx _ =>
    have hno : ¬({ a.toMcAprsis with rxbuf := rx } : McAprsis).state = .disconnected := hconn
    simp only [if_neg hno, List.append_nil]
    exact h.inert (hlines lines) Iff.rfl rfl h.backoff
  | @verified lines rx _ _ _ =>
    have hno : ¬({ verifiedState a.toMcAprsis with rxbuf := rx } : McAprsis).state = .disconnected := by
      intro hd
      cases hd
    simp only [if_neg hno, List.append_nil]
    refine h.inert (hlines lines) (iff_of_false hno hconn) rfl ?_
    -- a verified login resets the backoff
    show 5 ≤ 5 ∧ 5 ≤ 300
    decide

/-- The login's deadline, and the beacon of a client that is logged in. -/
theorem Paced.timers (h : Paced now a acts) (M : AprsisMath) (cfg : McConfig) (sends : List SendResult) :
    Paced now (aprsisTimers M cfg a now sends).1 (acts ++ (aprsisTimers M cfg a now sends).2) := by
  rw [aprsisTimers]
  -- no answer to the login within its time
  by_cases hlate : a.state = .login ∧ a.deadlineMs < now
  · rw [if_pos hlate]
    apply h.disconnect
    rw [hlate.1]
    decide
  rw [if_neg hlate]
  split
  · rename_i hdue
    have hconn : a.state ≠ .disconnected := by
      rw [hdue.1]
      decide
    -- without a position there is no beacon, only its time is taken
    by_cases hnone : buildBeacon M cfg = []
    · simp only [if_pos hnone, List.append_nil]
      exact h.congr Iff.rfl rfl rfl
    · simp only [if_neg hnone, ← List.append_assoc]
      have hflushed := (h.queue (buildBeacon M cfg)).flush (by rw [txQueue_state]; exact hconn) sends
      exact hflushed.congr Iff.rfl rfl rfl
  · rw [List.append_nil]
    exact h

/-- The login line is queued, and its deadline set. -/
theorem Paced.sendLogin (h : Paced now a acts) (hstate : a.state = .connecting) :
    Paced now (sendLogin cfg a now).1 (acts ++ (sendLogin cfg a now).2) := by
  have hqueued := h.queue (loginLine cfg a.passcode)
  refine hqueued.congr (iff_of_false ?_ ?_) rfl rfl
  · intro hd
    cases hd
  · rw [txQueue_state, hstate]
    decide

/-- An attempt follows only after `nextConnectMs`; whatever becomes of it, the next is ten seconds
off. -/
theorem Paced.startConnect (h : Paced now a acts) (hstate : a.state = .disconnected)
    (hdue : a.nextConnectMs ≤ now) (r : ConnectResult) :
    Paced now (startConnect a now r).1 (acts ++ (startConnect a now r).2) := by
  have hby : DueBy acts now := (h.waits hstate).mono hdue
  -- the attempt itself
  have hattempt : AttemptsPaced (acts ++ [.attempt now]) := by
    rw [AttemptsPaced, List.pairwise_append]
    refine ⟨h.attempts, List.pairwise_singleton .., ?_⟩
    intro x hx y hy t d heq hd
    rw [List.mem_singleton.mp hy] at heq
    cases heq
    exact hby x hx d hd
  have hdue' : DueBy (acts ++ [.attempt now]) (now + 10000) := by
    apply dueBy_append (hby.mono (by omega))
    intro x hx d hd
    rw [List.mem_singleton.mp hx] at hd
    cases hd
    exact Nat.le_refl _
  -- no socket, an immediate failure, or a connection under way
  cases r with
  | noSocket =>
    have hshut := paced_disconnect (a := a) hattempt hdue' h.backoff.1
    rwa [List.append_assoc] at hshut
  | failed =>
    have hshut := paced_disconnect (a := { a with deadlineMs := now + 10000 }) hattempt hdue' h.backoff.1
    rwa [List.append_assoc] at hshut
  | started fd =>
    have hopened : ∀ x ∈ [AprsisAct.opened], x.Inert := by
      intro x hx
      rw [List.mem_singleton.mp hx]
      rfl
    have happ : acts ++ (Meshcore.startConnect a now (.started fd)).2 = (acts ++ [.attempt now]) ++ [.opened] := by
      rw [List.append_assoc]
      rfl
    rw [happ]
    refine ⟨attemptsPaced_append hattempt fun x hx => attempt_not_inert (hopened x hx), ?_, ?_, h.backoff⟩
    · intro hd
      cases hd
    · exact fun _ => dueBy_append hdue' (dueBy_inert hopened _)

/-- The pass of a client that has a connection: read, flush, timers. -/
theorem Paced.connected (h : Paced now a acts) (hconn : a.state ≠ .disconnected)
    (hrx : a.rxbuf.length < aprsisRxbuf - 1) (revents : Revents) (io : AprsisIo) :
    Paced now (aprsisConnected M cfg a now revents io).1 (acts ++ (aprsisConnected M cfg a now revents io).2) := by
  have hread : Paced now (if revents.pollin then readAprsis a now io.recv else (a, [])).1
      (acts ++ (if revents.pollin then readAprsis a now io.recv else (a, [])).2) := by
    split
    · exact h.read hconn hrx io.recv
    · rw [List.append_nil]
      exact h
  simp only [aprsisConnected]
  generalize (if revents.pollin then readAprsis a now io.recv else (a, [])) = read at hread ⊢
  split
  · exact h.disconnect hconn
  split
  · exact hread
  · rename_i hopen
    have htimed := (hread.flush hopen io.sends).timers M cfg (txFlush now io.sends read.1).2
    simp only [List.append_assoc] at htimed ⊢
    exact htimed

/-- A pass of the main loop, by the state of the client. -/
theorem Paced.service (h : Paced now a acts) (hrx : a.rxbuf.length < aprsisRxbuf - 1) (revents : Revents)
    (io : AprsisIo) :
    Paced now (aprsisService M cfg a now revents io).1 (acts ++ (aprsisService M cfg a now revents io).2) := by
  rw [aprsisService]
  -- logged in or not, a connection is serviced alike
  cases hstate : a.state with
  | disconnected =>
    simp only
    split
    · rename_i hdue
      exact h.startConnect hstate hdue.2 io.connect
    · rw [List.append_nil]
      exact h
  | connecting =>
    have hconn : a.state ≠ .disconnected := by
      rw [hstate]
      decide
    simp only
    split
    · exact h.disconnect hconn
    split
    · split
      · exact h.disconnect hconn
      · rw [← List.append_assoc]
        exact (h.sendLogin hstate).flush (by intro hd; cases hd) io.sends
    · split
      · exact h.disconnect hconn
      · rw [List.append_nil]
        exact h
  | login => exact h.connected (by rw [hstate]; decide) hrx revents io
  | ready => exact h.connected (by rw [hstate]; decide) hrx revents io

/-- A heard advert does not touch the connection. -/
theorem Paced.gate (h : Paced now a acts) (t : Nat) (name : Bytes) (type : UInt8) (lat lon : CDouble) (pub : Bytes) :
    Paced now (aprsisGateNode M cfg a t name type lat lon pub).1
      (acts ++ (aprsisGateNode M cfg a t name type lat lon pub).2) := by
  have hsame : Paced now a (acts ++ []) := by rwa [List.append_nil]
  rw [aprsisGateNode]
  -- not ready, the repeater itself, no kind that is gated, no callsign
  split
  · exact hsame
  split
  · exact hsame
  split
  · exact hsame
  simp only
  split
  · exact hsame
  generalize rateCall M cfg (cstr (aprsisValidCallsign name (List.replicate 12 0)).2) t (lat, lon) = c
  generalize ask a.nodes aprsisMaxNodes c = asked
  split
  · exact hsame
  -- the table answered; the report needs a position
  have hadmitted : Paced now { a with nodes := asked.1 } (acts ++ [.admitted c]) := by
    refine h.inert ?_ Iff.rfl rfl h.backoff
    intro x hx
    rw [List.mem_singleton.mp hx]
    rfl
  split
  · exact hadmitted
  · rename_i pos _
    generalize gateLine cfg _ pos type = line
    have hqueued := hadmitted.queue line
    rw [List.append_assoc] at hqueued
    exact hqueued.congr Iff.rfl rfl rfl

/-- A run is paced at the time of its last call. -/
theorem aprsisRun_paced (M : AprsisMath) {cfg : McConfig} {ourPub : Bytes} {resolved : Bool}
    (hinit : aprsisInit cfg ourPub resolved = some a) {xs : List AprsisCall} (hclock : Clocked xs) :
    ∀ now, (∀ x ∈ xs, x.now ≤ now) → Paced now (Runs.run (aprsisStep M) (a, []) xs).1
      (Runs.run (aprsisStep M) (a, []) xs).2 := by
  -- the invariant at the time of the last call, carried on to `now`
  induction xs using List.reverseRecOn with
  | nil =>
    intro now _
    rw [aprsisInit] at hinit
    split at hinit
    · cases hinit
    cases hinit
    have hnil : ∀ t, DueBy ([] : List AprsisAct) t := fun t x hx => absurd hx List.not_mem_nil
    exact ⟨List.Pairwise.nil, fun _ => hnil _, fun _ => hnil _, by show 5 ≤ 5 ∧ 5 ≤ 300; decide⟩
  | append_singleton xs x ih =>
    intro now hnow
    rw [Clocked, List.pairwise_append] at hclock
    have hbefore := ih hclock.1 x.now fun y hy => hclock.2.2 y hy x List.mem_cons_self
    -- the reader's buffer has room, which its specification asks for
    have hstreams : Streams M (fun _ => True) (Runs.run (aprsisStep M) (a, []) xs).1
        (Wire.empty.after (Runs.run (aprsisStep M) (a, []) xs).2) :=
      aprsisRun_streams M _ hinit fun _ _ => trivial
    have hle : x.now ≤ now := hnow x (List.mem_append_right _ List.mem_cons_self)
    rw [Runs.run_concat]
    generalize Runs.run (aprsisStep M) (a, []) xs = s at hbefore hstreams ⊢
    rw [aprsisStep]
    cases x with
    | service cfg t revents io => exact (hbefore.service hstreams.rxroom revents io).mono hle
    | gate cfg t name type lat lon pub => exact (hbefore.gate t name type lat lon pub).mono hle

/-- In every run whose clock does not go back: two attempts to connect are ten seconds apart or
more, no attempt follows a refused login within five minutes, and the backoff stays between five
seconds and five minutes. -/
theorem aprsis_attempts_paced (M : AprsisMath) {cfg : McConfig} {ourPub : Bytes} {resolved : Bool}
    (hinit : aprsisInit cfg ourPub resolved = some a) {xs : List AprsisCall} (hclock : Clocked xs) :
    let s := Runs.run (aprsisStep M) (a, []) xs
    s.2.Pairwise (fun x y => ∀ t u, y = .attempt t →
      (x = .attempt u → u + 10000 ≤ t) ∧ (x = .rejected u → u + 300000 ≤ t)) ∧
      5 ≤ s.1.backoffS ∧ s.1.backoffS ≤ 300 := by
  intro s
  -- the clock of the last call is one that bounds them all
  have hbound : ∃ now, ∀ x ∈ xs, x.now ≤ now := by
    refine ⟨(xs.map AprsisCall.now).sum, ?_⟩
    intro x hx
    exact List.le_sum_of_mem (List.mem_map.mpr ⟨x, hx, rfl⟩)
  rcases hbound with ⟨now, hnow⟩
  have hpaced : Paced now s.1 s.2 := aprsisRun_paced M hinit hclock now hnow
  refine ⟨hpaced.attempts.imp ?_, hpaced.backoff⟩
  intro x y hxy t u hy
  refine ⟨?_, ?_⟩
  · rintro rfl
    exact hxy t _ hy rfl
  · rintro rfl
    exact hxy t _ hy rfl

/-- A refused login, and what follows. -/
def refusedRun : List AprsisCall :=
  [.service gateConfig 10 ⟨false, false, false⟩ ⟨.started 7, false, .again, []⟩,
    .service gateConfig 20 ⟨false, false, true⟩ ⟨.noSocket, false, .again, [.took 500]⟩,
    .service gateConfig 30 ⟨false, true, false⟩ ⟨.noSocket, false, .data (lit "# logresp N0CALL unverified\n"), []⟩,
    .service gateConfig 300029 ⟨false, false, false⟩ ⟨.started 8, false, .again, []⟩,
    .service gateConfig 300030 ⟨false, false, false⟩ ⟨.started 8, false, .again, []⟩]

theorem aprsis_attempts_paced_refusedRun :
    let s := Runs.run (aprsisStep coarseMath) (gateClient, []) refusedRun
    s.1.state = .connecting ∧ s.1.backoffS = 300 ∧
      s.2.Pairwise (fun x y => ∀ t u, y = .attempt t →
        (x = .attempt u → u + 10000 ≤ t) ∧ (x = .rejected u → u + 300000 ≤ t)) := by
  have hclock : Clocked refusedRun := by
    rw [Clocked]
    decide
  have h := aprsis_attempts_paced coarseMath gateClient_init hclock
  refine ⟨?_, ?_, h.1⟩
  · decide
  · decide

/-! ## Reports -/

/-- The calls that were admitted, newest first. -/
def admittedOf (acts : List AprsisAct) : List (Call Bytes (CDouble × CDouble)) :=
  (acts.filterMap fun x => match x with
    | .admitted c => some c
    | _ => none).reverse

/-- Nobody is admitted. -/
def Silent (acts : List AprsisAct) : Prop := ∀ c, .admitted c ∉ acts

theorem admittedOf_append_silent (h : Silent extra) : admittedOf (acts ++ extra) = admittedOf acts := by
  have hnone : extra.filterMap (fun x => match x with
      | .admitted c => some c
      | _ => none) = [] := by
    rw [List.filterMap_eq_nil_iff]
    intro x hx
    cases x with
    | admitted c => exact absurd hx (h c)
    | _ => rfl
  rw [admittedOf, admittedOf, List.filterMap_append, hnone, List.append_nil]

theorem admittedOf_append_admitted (h : Silent extra) (c : Call Bytes (CDouble × CDouble)) :
    admittedOf (acts ++ .admitted c :: extra) = c :: admittedOf acts := by
  have hsplit : acts ++ .admitted c :: extra = (acts ++ [.admitted c]) ++ extra := by
    rw [List.append_assoc]
    rfl
  rw [hsplit, admittedOf_append_silent h, admittedOf, List.filterMap_append, List.reverse_append]
  rfl

/-- Silence goes on. -/
theorem Silent.append (h : Silent acts) (h' : Silent extra) : Silent (acts ++ extra) := by
  intro c hc
  rcases List.mem_append.mp hc with hc | hc
  · exact h c hc
  · exact h' c hc

/-- Nothing done is silent. -/
theorem silent_nil : Silent [] := fun _ hc => absurd hc List.not_mem_nil

/-- The table is only looked at by `aprsis_gate_node`. -/
def LeavesTable (a : AprsisClient) (next : AprsisStep) : Prop := next.1.nodes = a.nodes ∧ Silent next.2

theorem leavesTable_queue (a : AprsisClient) (line : Bytes) : LeavesTable a (txQueue a line) := by
  rw [txQueue]
  split
  · exact ⟨rfl, silent_nil⟩
  · refine ⟨rfl, ?_⟩
    intro c hc
    cases List.mem_singleton.mp hc

theorem leavesTable_disconnect (a : AprsisClient) (now : Nat) : LeavesTable a (disconnect a now) := by
  refine ⟨rfl, ?_⟩
  intro c hc
  cases List.mem_singleton.mp hc

/-- Whatever the server takes, the table stays. -/
theorem leavesTable_flush (now : Nat) (sends : List SendResult) (a : AprsisClient) :
    LeavesTable a (txFlush now sends a).1 := by
  induction sends generalizing a with
  | nil => exact ⟨rfl, silent_nil⟩
  | cons r sends ih =>
    by_cases hne : a.txbuf = []
    · rw [txFlush_empty hne]
      exact ⟨rfl, silent_nil⟩
    cases r with
    | again =>
      rw [txFlush_again hne]
      exact ⟨rfl, silent_nil⟩
    | failed =>
      rw [txFlush_failed hne]
      exact leavesTable_disconnect a now
    | took n =>
      by_cases hn : n = 0
      · rw [hn, txFlush_zero hne]
        exact ⟨rfl, silent_nil⟩
      rw [txFlush_took hne now sends hn]
      rcases ih { a with txbuf := a.txbuf.drop n } with ⟨hnodes, hsilent⟩
      refine ⟨hnodes, ?_⟩
      intro c hc
      rcases List.mem_cons.mp hc with hsent | hc
      · cases hsent
      · exact hsilent c hc

theorem leavesTable_read (a : AprsisClient) (now : Nat) (r : RecvResult) :
    LeavesTable a (readAprsis a now r) := by
  refine ⟨rfl, ?_⟩
  apply Silent.append
  · intro c hc
    rcases List.mem_map.mp hc with ⟨line, -, heq⟩
    cases heq
  · intro c hc
    split at hc
    · split at hc
      · cases List.mem_singleton.mp hc
      · rcases List.mem_pair.mp hc with heq | heq
        · cases heq
        · cases heq
    · cases hc

theorem leavesTable_timers (M : AprsisMath) (cfg : McConfig) (a : AprsisClient) (now : Nat) (sends : List SendResult) :
    LeavesTable a (aprsisTimers M cfg a now sends) := by
  rw [aprsisTimers]
  split
  · exact leavesTable_disconnect a now
  split
  · by_cases hnone : buildBeacon M cfg = []
    · simp only [if_pos hnone]
      exact ⟨rfl, silent_nil⟩
    · simp only [if_neg hnone]
      rcases leavesTable_queue a (buildBeacon M cfg) with ⟨hnodes, hsilent⟩
      rcases leavesTable_flush now sends (txQueue a (buildBeacon M cfg)).1 with ⟨hnodes', hsilent'⟩
      exact ⟨hnodes'.trans hnodes, hsilent.append hsilent'⟩
  · exact ⟨rfl, silent_nil⟩

theorem leavesTable_startConnect (a : AprsisClient) (now : Nat) (r : ConnectResult) :
    LeavesTable a (startConnect a now r) := by
  cases r with
  | noSocket | failed | started =>
    refine ⟨rfl, ?_⟩
    intro c hc
    rcases List.mem_pair.mp hc with heq | heq
    · cases heq
    · cases heq

/-- Reading, sending and the timers leave the table. -/
theorem leavesTable_connected (M : AprsisMath) (cfg : McConfig) (a : AprsisClient) (now : Nat) (revents : Revents)
    (io : AprsisIo) : LeavesTable a (aprsisConnected M cfg a now revents io) := by
  have hread : LeavesTable a (if revents.pollin then readAprsis a now io.recv else (a, [])) := by
    split
    · exact leavesTable_read a now io.recv
    · exact ⟨rfl, silent_nil⟩
  simp only [aprsisConnected]
  generalize (if revents.pollin then readAprsis a now io.recv else (a, [])) = read at hread ⊢
  split
  · exact leavesTable_disconnect a now
  split
  · exact hread
  · rcases leavesTable_flush now io.sends read.1 with ⟨hnodes, hsilent⟩
    rcases leavesTable_timers M cfg (txFlush now io.sends read.1).1.1 now
      (txFlush now io.sends read.1).2 with ⟨hnodes', hsilent'⟩
    exact ⟨hnodes'.trans (hnodes.trans hread.1), (hread.2.append hsilent).append hsilent'⟩

/-- So does a pass of the main loop. -/
theorem leavesTable_service (M : AprsisMath) (cfg : McConfig) (a : AprsisClient) (now : Nat) (revents : Revents)
    (io : AprsisIo) : LeavesTable a (aprsisService M cfg a now revents io) := by
  have hnothing : LeavesTable a (a, []) := ⟨rfl, silent_nil⟩
  rw [aprsisService]
  cases a.state with
  | disconnected =>
    simp only
    split
    · exact leavesTable_startConnect a now io.connect
    · exact hnothing
  | connecting =>
    simp only
    split
    · exact leavesTable_disconnect a now
    split
    · split
      · exact leavesTable_disconnect a now
      · rcases leavesTable_queue a (loginLine cfg a.passcode) with ⟨hnodes, hsilent⟩
        rcases leavesTable_flush now io.sends (sendLogin cfg a now).1 with ⟨hnodes', hsilent'⟩
        exact ⟨hnodes'.trans hnodes, hsilent.append hsilent'⟩
    · split
      · exact leavesTable_disconnect a now
      · exact hnothing
  | login => exact leavesTable_connected M cfg a now revents io
  | ready => exact leavesTable_connected M cfg a now revents io

/-- A station that may be reported: the client is logged in, the advert is not the repeater's
own, and its name spells `call`. -/
structure Gateable (a : AprsisClient) (name : Bytes) (type : UInt8) (pub call : Bytes) : Prop where
  ready : a.state = .ready
  notOwn : pub ≠ a.ourPub
  kind : type = advTypeChat ∨ type = advTypeRepeater
  valid : (aprsisValidCallsign name (List.replicate 12 0)).1 = true
  call : call = cstr (aprsisValidCallsign name (List.replicate 12 0)).2

/-- What `aprsis_gate_node` does. -/
inductive GateEffect (M : AprsisMath) (cfg : McConfig) (a : AprsisClient) (now : Nat) (name : Bytes)
    (type : UInt8) (lat lon : CDouble) (pub : Bytes) : AprsisStep → Prop where
  | ignored (hno : ∀ call, ¬Gateable a name type pub call) :
      GateEffect M cfg a now name type lat lon pub (a, [])
  | refused {call : Bytes} (hcall : Gateable a name type pub call)
      (hask : (ask a.nodes aprsisMaxNodes (rateCall M cfg call now (lat, lon))).2 = false) :
      GateEffect M cfg a now name type lat lon pub (a, [])
  | admitted {call : Bytes} {b : AprsisClient} {extra : List AprsisAct} (hcall : Gateable a name type pub call)
      (hask : (ask a.nodes aprsisMaxNodes (rateCall M cfg call now (lat, lon))).2 = true)
      (hnodes : b.nodes = (ask a.nodes aprsisMaxNodes (rateCall M cfg call now (lat, lon))).1)
      (hextra : ∀ x ∈ extra, ∃ pos, x = .queued (gateLine cfg call pos type)) :
      GateEffect M cfg a now name type lat lon pub
        (b, .admitted (rateCall M cfg call now (lat, lon)) :: extra)

/-- The checks of `aprsis_gate_node` in their order, then the rate table. -/
theorem aprsisGateNode_effect (M : AprsisMath) (cfg : McConfig) (a : AprsisClient) (now : Nat) (name : Bytes) (type : UInt8) (lat lon : CDouble)
    (pub : Bytes) : GateEffect M cfg a now name type lat lon pub
      (aprsisGateNode M cfg a now name type lat lon pub) := by
  rw [aprsisGateNode]
  split
  · rename_i hstate
    exact .ignored fun call h => hstate h.ready
  rename_i hready
  split
  · rename_i hown
    exact .ignored fun call h => h.notOwn hown
  rename_i hown
  split
  · rename_i htype
    refine .ignored fun call h => ?_
    rcases h.kind with hc | hr
    · exact htype.1 hc
    · exact htype.2 hr
  rename_i htype
  simp only
  split
  · rename_i hinvalid
    refine .ignored fun call h => ?_
    rw [h.valid] at hinvalid
    cases hinvalid
  rename_i hvalid
  have hkind : type = advTypeChat ∨ type = advTypeRepeater := by
    by_contra hno
    exact htype (not_or.mp hno)
  have hcall : Gateable a name type pub (cstr (aprsisValidCallsign name (List.replicate 12 0)).2) :=
    ⟨not_not.mp hready, hown, hkind, Bool.not_eq_false _ ▸ hvalid, rfl⟩
  generalize cstr (aprsisValidCallsign name (List.replicate 12 0)).2 = call at hcall ⊢
  split
  · rename_i hno
    exact .refused hcall hno
  rename_i hyes
  have hask : (ask a.nodes aprsisMaxNodes (rateCall M cfg call now (lat, lon))).2 = true :=
    Bool.not_eq_false _ ▸ hyes
  split
  · exact .admitted hcall hask rfl fun x hx => absurd hx List.not_mem_nil
  · rename_i pos _
    refine .admitted hcall hask ?_ ?_
    · exact (leavesTable_queue _ _).1
    · intro x hx
      rw [txQueue] at hx
      split at hx
      · cases hx
      · exact ⟨pos, List.mem_singleton.mp hx⟩

/-- The table remembers the stations that were admitted. -/
structure Remembers (now : Nat) (a : AprsisClient) (acts : List AprsisAct) : Prop where
  tracks : Tracks aprsisMaxNodes a.nodes (admittedOf acts)
  spaced : Spaced aprsisMaxNodes (admittedOf acts)
  past : ∀ c ∈ admittedOf acts, c.entry.stamp ≤ now

/-- What leaves the table is not among the admitted calls. -/
theorem Remembers.leave (h : Remembers now a acts) {next : AprsisStep} (hnext : LeavesTable a next) :
    Remembers now next.1 (acts ++ next.2) := by
  refine ⟨?_, ?_, ?_⟩
  all_goals rw [admittedOf_append_silent hnext.2]
  · rw [hnext.1]
    exact h.tracks
  · exact h.spaced
  · exact h.past

/-- A heard advert asks the table at most once. -/
theorem Remembers.gate (h : Remembers now a acts) (name : Bytes) (type : UInt8) (lat lon : CDouble) (pub : Bytes) :
    Remembers now (aprsisGateNode M cfg a now name type lat lon pub).1
      (acts ++ (aprsisGateNode M cfg a now name type lat lon pub).2) := by
  have heffect := aprsisGateNode_effect M cfg a now name type lat lon pub
  generalize aprsisGateNode M cfg a now name type lat lon pub = next at heffect ⊢
  cases heffect with
  | ignored _ => exact h.leave ⟨rfl, silent_nil⟩
  | refused _ _ => exact h.leave ⟨rfl, silent_nil⟩
  | @admitted call b extra hcall hask hnodes hextra =>
    have hsilent : Silent extra := by
      intro c hc
      rcases hextra _ hc with ⟨pos, heq⟩
      cases heq
    have htracks := h.tracks.ask (c := rateCall M cfg call now (lat, lon)) (by decide) h.past
    have hspaced := (h.tracks.spaced (c := rateCall M cfg call now (lat, lon)) h.spaced).1
    -- the table as it stands after a call that was let through
    rw [hask, if_pos rfl] at htracks hspaced
    refine ⟨?_, ?_, ?_⟩
    all_goals rw [admittedOf_append_admitted hsilent]
    · rw [hnodes]
      exact htracks
    · exact hspaced
    · intro c hc
      rcases List.mem_cons.mp hc with rfl | hc
      · exact Nat.le_refl _
      · exact h.past c hc

/-- Only `aprsis_gate_node` asks the table. -/
theorem Remembers.step {s : AprsisStep} {x : AprsisCall} (h : Remembers x.now s.1 s.2) :
    Remembers x.now (aprsisStep M s x).1 (aprsisStep M s x).2 := by
  cases x with
  | service cfg t revents io =>
    have hleave : LeavesTable s.1 (aprsisCall M s.1 (.service cfg t revents io)) :=
      leavesTable_service M cfg s.1 t revents io
    exact h.leave hleave
  | gate cfg t name type lat lon pub =>
    have hbefore : Remembers t s.1 s.2 := h
    exact hbefore.gate name type lat lon pub

/-- After a run the table holds the stations admitted last, and their calls were spaced. -/
theorem aprsisRun_remembers (M : AprsisMath) {cfg : McConfig} {ourPub : Bytes} {resolved : Bool}
    (hinit : aprsisInit cfg ourPub resolved = some a) {xs : List AprsisCall} (hclock : Clocked xs) :
    ∀ now, (∀ x ∈ xs, x.now ≤ now) → Remembers now (Runs.run (aprsisStep M) (a, []) xs).1
      (Runs.run (aprsisStep M) (a, []) xs).2 := by
  induction xs using List.reverseRecOn with
  | nil =>
    intro now _
    rw [aprsisInit] at hinit
    split at hinit
    · cases hinit
    cases hinit
    exact ⟨tracks_nil _, trivial, fun c hc => absurd hc List.not_mem_nil⟩
  | append_singleton xs x ih =>
    intro now hnow
    rw [Clocked, List.pairwise_append] at hclock
    have hbefore := ih hclock.1 x.now fun y hy => hclock.2.2 y hy x List.mem_cons_self
    have hle : x.now ≤ now := hnow x (List.mem_append_right _ List.mem_cons_self)
    rw [Runs.run_concat]
    generalize Runs.run (aprsisStep M) (a, []) xs = s at hbefore ⊢
    have hafter := hbefore.step (M := M)
    exact ⟨hafter.tracks, hafter.spaced, fun c hc => (hafter.past c hc).trans hle⟩

/-- In every run whose clock does not go back, an advert heard next: a report of it is queued only
if it is admitted, and it is admitted only as a ham station other than the repeater itself.
Where its callsign was admitted before, `aprs_node_rate` has gone by since, or the station is
not within a hundred metres of where it was, or since then 64 other callsigns were admitted; and
nothing else keeps an advert that could be reported from being admitted. -/
theorem aprsis_reports_paced (M : AprsisMath) {cfg₀ : McConfig} {ourPub : Bytes} {resolved : Bool}
    (hinit : aprsisInit cfg₀ ourPub resolved = some a) {xs : List AprsisCall} {name : Bytes} {type : UInt8}
    {lat lon : CDouble} {pub : Bytes} (hclock : Clocked (xs ++ [.gate cfg now name type lat lon pub]))
    (hnow : now < 2 ^ 64) :
    let s := Runs.run (aprsisStep M) (a, []) xs
    let next := aprsisGateNode M cfg s.1 now name type lat lon pub
    (∀ line, .queued line ∈ next.2 → ∃ c pos, .admitted c ∈ next.2 ∧ line = gateLine cfg c.entry.key pos type) ∧
      (∀ c, .admitted c ∈ next.2 → Gateable s.1 name type pub c.entry.key ∧
        ∀ d, last (admittedOf s.2) c.entry.key = some d →
          cfg.aprsNodeRate.toNat * 1000 ≤ now - d.entry.stamp ∨ (distM M d.entry.val (lat, lon)).lt (.fin 100) = false ∨
            Crowded aprsisMaxNodes (admittedOf s.2) c.entry.key d.entry.stamp) ∧
      (∀ call, Gateable s.1 name type pub call → (∀ c, .admitted c ∉ next.2) →
        ∃ d, last (admittedOf s.2) call = some d ∧ now - d.entry.stamp < cfg.aprsNodeRate.toNat * 1000 ∧
          (distM M d.entry.val (lat, lon)).lt (.fin 100) = true) := by
  intro s next
  have hsplit := List.pairwise_append.mp hclock
  have hlast : ∀ x ∈ xs, x.now ≤ now := fun x hx => hsplit.2.2 x hx _ List.mem_cons_self
  have hremembers : Remembers now s.1 s.2 := aprsisRun_remembers M hinit hsplit.1 now hlast
  -- the time that has gone by since an admitted call
  have hsince : ∀ {key : Bytes} {d}, last (admittedOf s.2) key = some d →
      u64Sub now d.entry.stamp = now - d.entry.stamp := by
    intro key d hd
    exact u64Sub_of_le (hremembers.past d (last_mem hd).1) hnow
  have heffect : GateEffect M cfg s.1 now name type lat lon pub next := aprsisGateNode_effect ..
  generalize next = step at heffect ⊢
  -- nothing was asked, the table refused, or it admitted
  cases heffect with
  | ignored hno =>
    refine ⟨fun line hline => (by cases hline), fun c hc => (by cases hc), ?_⟩
    intro call hcall
    exact absurd hcall (hno call)
  | @refused call hcall hask =>
    refine ⟨fun line hline => (by cases hline), fun c hc => (by cases hc), ?_⟩
    intro call' hcall' _
    have hsame : call' = call := hcall'.call.trans hcall.call.symm
    rw [hsame]
    rcases (hremembers.tracks.spaced hremembers.spaced).2 hask with ⟨d, hd, hrefused⟩
    refine ⟨d, hd, ?_⟩
    simp only [rateCall, Bool.and_eq_true, decide_eq_true_eq] at hrefused
    rw [hsince hd] at hrefused
    exact hrefused
  | @admitted call b extra hcall hask hnodes hextra =>
    -- the limiter's rule at the call that was admitted
    have hspaced := (hremembers.tracks.spaced (c := rateCall M cfg call now (lat, lon)) hremembers.spaced).1
    rw [hask, if_pos rfl] at hspaced
    refine ⟨?_, ?_, ?_⟩
    · intro line hline
      rcases List.mem_cons.mp hline with heq | hline
      · cases heq
      · rcases hextra _ hline with ⟨pos, heq⟩
        cases heq
        exact ⟨_, pos, List.mem_cons_self, rfl⟩
    · intro c hc
      have hceq : c = rateCall M cfg call now (lat, lon) := by
        rcases List.mem_cons.mp hc with heq | hc
        · cases heq
          rfl
        · rcases hextra _ hc with ⟨pos, heq⟩
          cases heq
      subst hceq
      refine ⟨hcall, ?_⟩
      intro d hd
      rcases hspaced.1 d hd with hok | hcrowd
      · simp only [rateCall, Bool.and_eq_false_iff, decide_eq_false_iff_not, not_lt] at hok
        rw [hsince hd] at hok
        rcases hok with hrate | hmoved
        · exact .inl hrate
        · exact .inr (.inl hmoved)
      · exact .inr (.inr hcrowd)
    · intro call' _ hno
      exact absurd List.mem_cons_self (hno _)

theorem aprsis_reports_paced_gateRun :
    let s := Runs.run (aprsisStep coarseMath) (gateClient, []) gateRun
    let next := aprsisGateNode coarseMath gateConfig s.1 2060000 (lit "on6ure-6") advTypeChat (.fin 51) (.fin 3) (List.replicate 32 3)
    (∀ line, .queued line ∉ next.2) ∧
      ∃ d, last (admittedOf s.2) (lit "ON6URE-6") = some d ∧ 2060000 - d.entry.stamp < 900000 := by
  have hclock : Clocked (gateRun ++
      [.gate gateConfig 2060000 (lit "on6ure-6") advTypeChat (.fin 51) (.fin 3) (List.replicate 32 3)]) := by
    rw [Clocked]
    decide
  have h := aprsis_reports_paced coarseMath gateClient_init hclock (by decide)
  intro s next
  have hnone : next.2 = [] := List.eq_nil_of_length_eq_zero (by decide +kernel)
  refine ⟨?_, ?_⟩
  · intro line hline
    rw [hnone] at hline
    cases hline
  · have hcall : Gateable s.1 (lit "on6ure-6") advTypeChat (List.replicate 32 3) (lit "ON6URE-6") := by
      refine ⟨?_, ?_, ?_, ?_, ?_⟩
      all_goals decide +kernel
    rcases h.2.2 (lit "ON6URE-6") hcall (fun c hc => by rw [hnone] at hc; cases hc) with ⟨d, hd, hsoon, -⟩
    exact ⟨d, hd, hsoon⟩

end Meshcore
