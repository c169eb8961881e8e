import MeshcoreRepeater.Backbone.Report

/-! # The backbone client: datagrams and timers

The handlers of `backbone.c`, `backbone_service` made of them, and the client as a
state machine (`bbStep`): the parts of a service call are inputs of their own, so that
what holds between inputs holds in the middle of a call as well
(`backboneService_run`).

* `bbStep`: one input of the client.
* `backboneService_run`: a service call is a run of them.
-/

namespace Meshcore

open ByteLib

/-! ## WELCOME -/

/-- `clamp_iv`. -/
def clampIv (v lo hi dflt : UInt16) : UInt16 :=
  if v = 0 then dflt else if v < lo then lo else if hi < v then hi else v

/-- The session a WELCOME brings up, before anything is sent in it. -/
def sessionUp (bb : McBackbone) (now : Nat) (d : Bytes) (w : BbWelcome) (keys : Buf 32 × Buf 32) :
    McBackbone :=
  { bb with
    kUp := keys.1
    kDown := keys.2
    ephSec := .zero 32
    sid := w.sid
    roles := w.roles
    seqOut := 0
    polPages := 0
    polAppliedSeq := 0
    rwin := .zero
    taken := []
    keepaliveS := clampIv w.keepaliveS 10 120 25
    statusS := clampIv w.statusS 30 3600 60
    neighboursS := clampIv w.neighboursS 60 65535 300
    state := .up
    sessions := bb.sessions + 1
    backoffS := 5
    upSinceMs := now
    lastRxMs := now
    dgramsIn := bb.dgramsIn + 1
    log := bb.log ++ [.welcome d] }

/-- What a fresh session sends: a keepalive that confirms it, and a status. -/
def sessionGreet (C : Crypto) (p : BbHal) (bb : McBackbone) (now : Nat) : McBackbone :=
  let bb := sendSession C p bb bbTKeepalive []
  let bb := { bb with nextKeepaliveMs := now + bb.keepaliveS.toNat * 1000 }
  if bb.roles &&& bbRoleObserve ≠ 0 then
    let bb := sendStatus C p bb now
    { bb with nextStatusMs := now + bb.statusS.toNat * 1000, nextNeighboursMs := now + 5000 }
  else bb

/-- `on_welcome`. The secret is erased once it was used, whatever came out. -/
def onWelcome (C : BbCrypto) (p : BbHal) (bb : McBackbone) (now : Nat) (d : Bytes) : McBackbone :=
  if bb.state ≠ .helloSent then bb.reject
  else
    match bbCheckWelcome C.toCrypto d bb.hubPub bb.helloHash bb.rolesAsked with
    | .error _ => bb.reject
    | .ok w =>
      match bbDeriveKeys C.toCrypto (C.scalarmult bb.ephSec.bytes w.ephPub.bytes) bb.hello d with
      | none => { bb with ephSec := .zero 32 }.reject
      | some keys => sessionGreet C.toCrypto p (sessionUp bb now d w keys) now

/-! ## RESET -/

def bbTsWindow : UInt32 := 120

/-- How far two clocks are apart. -/
def skewS (nowS ts : UInt32) : UInt32 := if ts < nowS then nowS - ts else ts - nowS

/-- When the next attempt is due after a RESET. -/
def resetTryMs (bb : McBackbone) (now : Nat) : Nat :=
  let earliest := if bb.lastResetMs ≠ 0 then bb.lastResetMs + 5000 else now
  if now < earliest then earliest else now

/-- The state a RESET leaves. -/
def McBackbone.afterReset (bb : McBackbone) (now : Nat) : McBackbone :=
  { (forgetSession bb).note (.reset now) with nextTryMs := resetTryMs bb now, lastResetMs := now }

/-- `on_reset`. -/
def onReset (C : Crypto) (p : BbHal) (bb : McBackbone) (now : Nat) (d : Bytes) : McBackbone :=
  if bb.state ≠ .up ∨ d.length ≠ bbResetLen then bb.reject
  else
    let sid := rdU32le (d.drop 4)
    let seq := rdU32le (d.drop 8)
    let ts := rdU32le (d.drop 12)
    if sid ≠ bb.sid ∨ seq = 0 ∨ bb.seqOut < seq ∨ 64 ≤ bb.seqOut - seq ∨ bbTsWindow < skewS p.time32 ts then
      bb.reject
    else
      match bbCheckReset C d bb.hubPub with
      | .error _ => bb.reject
      | .ok _ => bb.afterReset now

/-! ## FRAME -/

def bbTxqHeadroom : Nat := 8

/-- What the bucket holds at most: a third of the rate, and one frame at least. -/
def bucketCap (rate : Nat) : ℚ := if rate / 3 ≠ 0 then (rate / 3 : Nat) else 1

/-- The bucket at the time `now`, before the frame is paid for. -/
def refill (R : Reading) (bb : McBackbone) (now : Nat) : ℚ :=
  let rate := if bb.cfg.backboneRate ≠ 0 then bb.cfg.backboneRate.toNat else 1
  if bb.tokensMs = 0 then bucketCap rate
  else
    let tokens := R.add bb.tokens (R.div (R.mul (R.cast (u64Sub now bb.tokensMs)) (R.cast rate)) 60000)
    if bucketCap rate < tokens then bucketCap rate else tokens

def McBackbone.setTokens (bb : McBackbone) (tokens : ℚ) (now : Nat) : McBackbone :=
  { bb with tokens := tokens, tokensMs := now }

/-- Room for a frame of the hub in the TX queue. -/
def txqRoom (bb : McBackbone) : Bool :=
  match bb.mesh with
  | none => true
  | some m => decide (bbTxqHeadroom ≤ meshTxqFree m)

/-- The frame goes to the mesh as one heard from the hub; a client without a mesh takes
it for its own. -/
def handFrame (C : Crypto) (p : BbHal) (bb : McBackbone) (frame : Bytes) : McBackbone × Int :=
  match bb.mesh with
  | none => (bb, MeshRx.localOnly.code)
  | some m =>
    let r := meshOnBackbone C p.toHal m.clearEvents frame
    (meshRan C p bb r.1, r.2.code)

/-- `on_frame`. -/
def onFrame (C : Crypto) (R : Reading) (p : BbHal) (bb : McBackbone) (now : Nat) (body : Bytes) : McBackbone :=
  if bb.roles &&& bbRoleBridge = 0 ∨ body.length < 10 ∨ body.getD 1 0 = 0 ∨
      body.length < 10 + (body.getD 1 0).toNat then bb.reject
  else
    let frame := (body.drop 10).take (body.getD 1 0).toNat
    let bb := bb.setTokens (refill R bb now) now
    if bb.tokens < 1 ∨ txqRoom bb = false then
      backboneObserve C p { bb with limited := bb.limited + 1 } frame 0 0 bbObsFromBackbone bbDispLimited
    else
      let bb := (bb.setTokens (R.sub bb.tokens 1) now).note (.frame now frame)
      let r := handFrame C p bb frame
      if r.2 = MeshRx.malformed.code then r.1.reject
      else backboneObserve C p { r.1 with injected := r.1.injected + 1 } frame 0 0 bbObsFromBackbone r.2

/-! ## POLICY -/

/-- Does a page start a collection of its own? A set that is not the one being collected
replaces it when it is newer; `none` when it is older. -/
def collectFor (bb : McBackbone) (seq version : UInt32) (pages : UInt8) : Option McBackbone :=
  let fresh := { bb with
    pol := { McPolicy.empty with version := version }
    polPages := pages
    polHave := 0
    polMinSeq := seq
    polMaxSeq := seq }
  if bb.polPages = 0 then some fresh
  else if version ≠ bb.pol.version ∨ pages ≠ bb.polPages then
    if seq ≤ bb.polMaxSeq then none else some fresh
  else some bb

/-- `(uint16_t)(1u << (page - 1))`. -/
def pageBit (page : UInt8) : UInt16 := ((1 : UInt32) <<< (page - 1).toUInt32).toUInt16

/-- `(uint16_t)((1u << pages) - 1)`. -/
def allPages (pages : UInt8) : UInt16 := ((1 : UInt32) <<< pages.toUInt32 - 1).toUInt16

/-- The page into the set being collected. -/
def takePage (bb : McBackbone) (seq : UInt32) (bit : UInt16) (entries : Bytes) : McBackbone :=
  { bb with
    pol := bb.pol.addPage entries
    polHave := bb.polHave ||| bit
    polMinSeq := if seq < bb.polMinSeq then seq else bb.polMinSeq
    polMaxSeq := if bb.polMaxSeq < seq then seq else bb.polMaxSeq }

/-- A complete set: applied unless its version is in force, and acknowledged. The file
`config_policy_save` writes is no part of the state. -/
def applySet (C : Crypto) (bb : McBackbone) : McBackbone :=
  let bb := { bb with polAppliedSeq := bb.polMinSeq, polPages := 0 }
  let bb := if bb.pol.version ≠ bb.cfg.policy.version then
      (bb.setCfg (configSetPolicy C bb.cfg bb.pol (some bb.id.pub.bytes))).note (.policy bb.pol)
    else bb
  backboneStatusSoon bb

/-- `on_policy`. -/
def onPolicy (C : Crypto) (bb : McBackbone) (seq : UInt32) (body : Bytes) : McBackbone :=
  if bb.cfg.backbonePolicy = false then bb
  else if body.length < 6 then bb.reject
  else
    let version := rdU32le body
    let page := body.getD 4 0
    let pages := body.getD 5 0
    if version = 0 ∨ pages = 0 ∨ bbPolMaxPages < pages.toNat ∨ page = 0 ∨ pages < page ∨
        (policyWalk (body.drop 6) none).1 = false then bb.reject
    else if bb.polAppliedSeq ≠ 0 ∧ seq < bb.polAppliedSeq then bb
    else
      match collectFor bb seq version pages with
      | none => bb
      | some bb =>
        if bb.polHave &&& pageBit page ≠ 0 then bb
        else
          let bb := takePage bb seq (pageBit page) (body.drop 6)
          if bb.polHave ≠ allPages pages then bb else applySet C bb

/-! ## Session datagrams -/

def bbByeShutdown : UInt8 := 0
def bbByeRekey : UInt8 := 1
def bbByeNotAllowed : UInt8 := 3

/-- The hub's BYE. -/
def onByeDown (p : BbHal) (bb : McBackbone) (now : Nat) (body : Bytes) : McBackbone :=
  if body.headD bbByeShutdown = bbByeNotAllowed then
    { forgetSession bb with backoffS := bbBackoffMax, nextTryMs := now + bbBackoffMax * 1000 }
  else retryLater p bb now

/-- The body of an authentic datagram. -/
def onBody (C : Crypto) (R : Reading) (p : BbHal) (bb : McBackbone) (now : Nat) (s : BbSession) : McBackbone :=
  if s.type = bbTKeepaliveAck then bb
  else if s.type = bbTFrame then onFrame C R p bb now s.body
  else if s.type = bbTPolicy then onPolicy C bb s.seq s.body
  else if s.type = bbTByeDown then onByeDown p bb now s.body
  else bb.reject

/-- A datagram with the number `seq` was accepted. -/
def McBackbone.heard (bb : McBackbone) (seq : UInt32) (rwin : BbReplay) (now : Nat) : McBackbone :=
  { bb with
    rwin := rwin
    taken := bb.taken ++ [seq]
    dgramsIn := bb.dgramsIn + 1
    lastRxMs := now }

/-- `on_session`. -/
def onSession (C : Crypto) (R : Reading) (p : BbHal) (bb : McBackbone) (now : Nat) (d : Bytes) : McBackbone :=
  if bb.state ≠ .up ∨ d.length < bbHdr + bbMac ∨ rdU32le (d.drop 4) ≠ bb.sid then bb.reject
  else
    match bbOpen C d bb.kDown.bytes with
    | .error _ => bb.reject
    | .ok s =>
      match bbReplayCheck bb.rwin s.seq with
      | (false, rwin) => { bb with rwin := rwin }.reject
      | (true, rwin) => onBody C R p (bb.heard s.seq rwin now) now s

/-- One turn of `read_datagrams`, after `recv` has filled its buffer. -/
def readDatagram (C : BbCrypto) (p : BbHal) (bb : McBackbone) (now : Nat) (d : Bytes) : McBackbone :=
  if bbMaxDgram < d.length ∨ d.length < 4 ∨ magicOk d = false then bb.reject
  else if d.getD 3 0 = bbTWelcome then onWelcome C p bb now d
  else if d.getD 3 0 = bbTReset then onReset C.toCrypto p bb now d
  else if 0x20 ≤ d.getD 3 0 ∧ d.getD 3 0 ≤ 0x2F then onSession C.toCrypto C.reading p bb now d
  else bb.reject

def bbRxBurst : Nat := 16

/-- `recv` into a buffer one byte longer than a datagram may be. -/
def recvd (d : Bytes) : Bytes := d.take (bbMaxDgram + 1)

/-- One turn, while there is a socket. -/
def readTurn (C : BbCrypto) (p : BbHal) (now : Nat) (bb : McBackbone) (d : Bytes) : McBackbone :=
  if bb.state ≠ .off ∧ bb.fd = true then readDatagram C p bb now (recvd d) else bb

/-! ## Timers -/

/-- No WELCOME came: another HELLO, or a wait. -/
def helloTimer (C : BbCrypto) (p : BbHal) (bb : McBackbone) (now : Nat) : McBackbone :=
  if bb.state = .helloSent ∧ bb.deadlineMs ≤ now then
    if bb.helloTries < bbHelloTries then sendHello C p bb now else retryLater p bb now
  else bb

/-- The reports of an observing session. -/
def reportTimers (C : Crypto) (p : BbHal) (bb : McBackbone) (now : Nat) : McBackbone :=
  if bb.roles &&& bbRoleObserve ≠ 0 then
    let bb := if bb.nextStatusMs ≤ now then
        let bb := sendStatus C p bb now
        { bb with nextStatusMs := now + bb.statusS.toNat * 1000 }
      else bb
    if bb.nextNeighboursMs ≤ now then
      let bb := sendNeighbours C p bb
      { bb with nextNeighboursMs := now + bb.neighboursS.toNat * 1000 }
    else bb
  else bb

/-- The session timers: a hub that is silent, keys that are old, keepalives, reports. -/
def sessionTimers (C : Crypto) (p : BbHal) (bb : McBackbone) (now : Nat) : McBackbone :=
  if bb.state ≠ .up then bb
  else if (3 * bb.keepaliveS.toNat + 5) * 1000 < u64Sub now bb.lastRxMs then
    { forgetSession bb with nextTryMs := now }
  else if 0x80000000 ≤ bb.seqOut then
    { forgetSession (sendSession C p bb bbTBye [bbByeRekey]) with nextTryMs := now }
  else
    let bb := if bb.nextKeepaliveMs ≤ now then
        let bb := sendSession C p bb bbTKeepalive []
        { bb with nextKeepaliveMs := now + bb.keepaliveS.toNat * 1000 }
      else bb
    reportTimers C p bb now

/-- Everything of `backbone_service` behind the reading. -/
def serviceTimers (C : BbCrypto) (p : BbHal) (bb : McBackbone) (now : Nat) : McBackbone :=
  sessionTimers C.toCrypto p (helloTimer C p bb now) now

/-- The first part of `backbone_service`. -/
def serviceState (C : BbCrypto) (p : BbHal) (bb : McBackbone) (now : Nat) (g : GaiState) : McBackbone :=
  match bb.state with
  | .idle => if bb.nextTryMs ≤ now then startAttempt p bb now else bb
  | .resolving => checkResolved C p bb now g
  | _ => bb

/-- `backbone_service`; `rx` is what `recv` gives before it fails. -/
def backboneService (C : BbCrypto) (p : BbHal) (bb : McBackbone) (now : Nat) (g : GaiState)
    (rx : List Bytes) : McBackbone :=
  if bb.state = .off then bb
  else
    let bb := serviceState C p bb now g
    let bb := (rx.take bbRxBurst).foldl (readTurn C p now) bb
    serviceTimers C p bb now

/-! ## Setting up and closing -/

/-- `backbone_init`, at the time `now`. -/
def backboneInit (cfg : McConfig) (id : McIdentity) (mesh : Option McMesh) (now : Nat) :
    McBackbone × Int :=
  let bb := McBackbone.blank cfg id mesh
  if cfg.backboneEnable = false then (bb, 0)
  else if cfg.backboneHaveHubKey = false then (bb, -1)
  else if cfg.backboneHost = [] ∨ cfg.backbonePort = 0 then (bb, -1)
  else
    ({ bb with
      hubPub := cfg.backboneHubKey
      rolesAsked := (if cfg.backboneObserve then bbRoleObserve else 0) |||
        (if cfg.backboneBridge then bbRoleBridge else 0)
      state := .idle
      nextTryMs := now }, 0)

/-- `backbone_close`. -/
def backboneClose (C : Crypto) (p : BbHal) (bb : McBackbone) : McBackbone :=
  let bb := if bb.state = .up then sendSession C p bb bbTBye [bbByeShutdown] else bb
  let bb := if bb.gaiBusy && p.cancelOk then { bb with gaiBusy := false } else bb
  { forgetSession bb with state := .off }

/-! ## The state machine -/

/-- Everything that happens to a client. -/
inductive BbInput where
  /-- a service call begins -/
  | state (p : BbHal) (now : Nat) (g : GaiState)
  /-- a datagram is read -/
  | datagram (p : BbHal) (now : Nat) (d : Bytes)
  /-- a service call ends -/
  | timers (p : BbHal) (now : Nat)
  /-- the main loop reports a frame heard on RF -/
  | observe (p : BbHal) (frame : Bytes) (rssi snrQ : Int) (disposition : Int)
  /-- the mesh runs, and calls its hooks -/
  | mesh (p : BbHal) (x : Input)
  | offer (p : BbHal) (frame : Bytes) (own : Bool)
  | statusSoon
  /-- a setting is changed at run time -/
  | configure (cfg : McConfig)
  | close (p : BbHal)

/-- One input. -/
def bbStep (C : BbCrypto) (bb : McBackbone) : BbInput → McBackbone
  | .state p now g => serviceState C p bb now g
  | .datagram p now d => readTurn C p now bb d
  | .timers p now => serviceTimers C p bb now
  | .observe p frame rssi snrQ disposition =>
    backboneObserve C.toCrypto p bb frame rssi snrQ 0 disposition
  | .mesh p x =>
    match bb.mesh with
    | none => bb
    | some m => meshRan C.toCrypto p bb (step C.toCrypto m x)
  | .offer p frame own => backboneOffer C.toCrypto p bb frame own
  | .statusSoon => backboneStatusSoon bb
  | .configure cfg => bb.setCfg cfg
  | .close p => backboneClose C.toCrypto p bb

/-- The state after a run. -/
def bbRun (C : BbCrypto) (bb : McBackbone) (xs : List BbInput) : McBackbone := Runs.run (bbStep C) bb xs

/-- A state some run from `backbone_init` ends in. -/
def BbReachable (C : BbCrypto) (bb : McBackbone) : Prop :=
  ∃ cfg id mesh now xs, bb = bbRun C (backboneInit cfg id mesh now).1 xs

/-- A service call is a run: its beginning, the datagrams, its end. -/
theorem backboneService_run (C : BbCrypto) (p : BbHal) (bb : McBackbone) (now : Nat) (g : GaiState)
    (rx : List Bytes) (h : bb.state ≠ .off) :
    backboneService C p bb now g rx =
      bbRun C bb (.state p now g :: (rx.take bbRxBurst).map (.datagram p now) ++ [.timers p now]) := by
  have hread : ∀ (ds : List Bytes) (bb : McBackbone),
      ds.foldl (readTurn C p now) bb = bbRun C bb (ds.map (.datagram p now)) := by
    intro ds
    induction ds with
    | nil => intro bb; rfl
    | cons d ds ih => intro bb; exact ih _
  rw [backboneService, if_neg h]
  simp only [hread, bbRun, List.cons_append, Runs.run_cons, Runs.run_append, Runs.run_nil]
  rfl

end Meshcore
