import MeshcoreRepeater.Backbone.Codec
import MeshcoreRepeater.Backbone.Pages
import MeshcoreRepeater.Mesh.Run

/-! # The backbone client: state, sessions and sending

`mc_backbone`, and the operations everything else is made of: sending, sealing a
session datagram, forgetting a session, waiting for the next attempt.

The configuration is the one the mesh works with, so it is changed in both places at
once (`McBackbone.setCfg`). `tokens` is the value of a finite double. What the
client did is recorded in order in `log`, and the sequence numbers it took in this
session in `taken`. Both are ghosts: no function reads them.

* `meshRan_induct`: what both calls back keep, a run of the mesh keeps.
-/

namespace Meshcore

open ByteLib

/-! ## The platform -/

/-- What the platform answers during one call: what the mesh asks of it, and what only
the client asks. -/
structure BbHal extends Hal where
  /-- the draw of `hal_rng_int` in `retry_later` -/
  jitter : Nat
  /-- `randombytes` -/
  random : Buf 32
  /-- `send(..) == n` for a datagram -/
  sendOk : Bytes → Bool
  /-- `getaddrinfo_a(..) == 0` -/
  lookupOk : Bool
  /-- `socket` and `connect` -/
  connectOk : Bool
  /-- `gai_cancel(..) == EAI_CANCELED` -/
  cancelOk : Bool
  /-- `MC_VERSION`, which the build generates -/
  mcVersion : Bytes

/-- `gai_error`, and whether there is a result. -/
inductive GaiState where
  | inProgress
  | failed
  | resolved
deriving DecidableEq

/-- The difference of two `uint64_t`. -/
def u64Sub (a b : Nat) : Nat := (a + 2 ^ 64 - b) % 2 ^ 64

theorem u64Sub_of_le {a b : Nat} (h : b ≤ a) (ha : a < 2 ^ 64) : u64Sub a b = a - b := by
  unfold u64Sub
  omega

/-! ## The state -/

/-- `bb_state_t`. -/
inductive BbState where
  | off
  | idle
  | resolving
  | helloSent
  | up
deriving DecidableEq, Repr

/-- What the client does that another party, or a history, can tell. -/
inductive BbEvent where
  /-- a datagram was passed to `send` -/
  | send (d : Bytes)
  /-- a session datagram was sealed under `k_up` -/
  | seal (key : Buf 32) (seq : UInt32)
  /-- `start_attempt` -/
  | attempt (now : Nat)
  /-- a HELLO was built and passed on to be sent -/
  | hello (now : Nat) (d : Bytes)
  /-- a WELCOME brought the session up -/
  | welcome (d : Bytes)
  /-- a RESET was obeyed -/
  | reset (now : Nat)
  /-- `on_frame` took a token and handed the frame on -/
  | frame (now : Nat) (raw : Bytes)
  /-- `on_policy` called `config_set_policy` -/
  | policy (p : McPolicy)

/-- `mc_backbone`. `fd` says whether there is a socket; `hello` is the HELLO up to
`hello_len`. -/
structure McBackbone where
  cfg : McConfig
  id : McIdentity
  mesh : Option McMesh
  hubPub : Bytes
  rolesAsked : UInt8
  state : BbState
  fd : Bool
  haveAddr : Bool
  gaiHost : Bytes
  gaiPort : Bytes
  gaiBusy : Bool
  nextTryMs : Nat
  deadlineMs : Nat
  backoffS : Nat
  helloTries : Nat
  -- handshake
  ephSec : Buf 32
  hello : Bytes
  helloHash : Buf 32
  lastHelloTs : UInt32
  -- session
  sid : UInt32
  roles : UInt8
  kUp : Buf 32
  kDown : Buf 32
  seqOut : UInt32
  rwin : BbReplay
  keepaliveS : UInt16
  statusS : UInt16
  neighboursS : UInt16
  upSinceMs : Nat
  lastRxMs : Nat
  nextKeepaliveMs : Nat
  nextStatusMs : Nat
  nextNeighboursMs : Nat
  lastResetMs : Nat
  -- bridge rate limit
  tokens : ℚ
  tokensMs : Nat
  -- POLICY pages being collected
  pol : McPolicy
  polPages : UInt8
  polHave : UInt16
  polMinSeq : UInt32
  polMaxSeq : UInt32
  polAppliedSeq : UInt32
  -- counters
  sessions : Nat
  dgramsOut : Nat
  dgramsIn : Nat
  observed : Nat
  offered : Nat
  injected : Nat
  limited : Nat
  rejected : Nat
  -- ghosts
  taken : List UInt32
  log : List BbEvent

/-- `memset(bb, 0, sizeof(*bb))` and the pointers: the mesh has the same configuration. -/
def McBackbone.blank (cfg : McConfig) (id : McIdentity) (mesh : Option McMesh) : McBackbone where
  cfg := cfg
  id := id
  mesh := mesh.map fun m => { m with cfg := cfg }
  hubPub := List.replicate 32 0
  rolesAsked := 0
  state := .off
  fd := false
  haveAddr := false
  gaiHost := []
  gaiPort := []
  gaiBusy := false
  nextTryMs := 0
  deadlineMs := 0
  backoffS := 5
  helloTries := 0
  ephSec := .zero 32
  hello := []
  helloHash := .zero 32
  lastHelloTs := 0
  sid := 0
  roles := 0
  kUp := .zero 32
  kDown := .zero 32
  seqOut := 0
  rwin := .zero
  keepaliveS := 0
  statusS := 0
  neighboursS := 0
  upSinceMs := 0
  lastRxMs := 0
  nextKeepaliveMs := 0
  nextStatusMs := 0
  nextNeighboursMs := 0
  lastResetMs := 0
  tokens := 0
  tokensMs := 0
  pol := .empty
  polPages := 0
  polHave := 0
  polMinSeq := 0
  polMaxSeq := 0
  polAppliedSeq := 0
  sessions := 0
  dgramsOut := 0
  dgramsIn := 0
  observed := 0
  offered := 0
  injected := 0
  limited := 0
  rejected := 0
  taken := []
  log := []

/-! ## Small changes -/

def McBackbone.note (bb : McBackbone) (e : BbEvent) : McBackbone := { bb with log := bb.log ++ [e] }

/-- One datagram more is dropped. -/
def McBackbone.reject (bb : McBackbone) : McBackbone := { bb with rejected := bb.rejected + 1 }

/-- The configuration of the client and of its mesh. -/
def McBackbone.setCfg (bb : McBackbone) (cfg : McConfig) : McBackbone :=
  { bb with cfg := cfg, mesh := bb.mesh.map fun m => { m with cfg := cfg } }

/-- The mesh has run; a setting it brings along is the client's too. -/
def McBackbone.setMesh (bb : McBackbone) (m : McMesh) : McBackbone :=
  { bb with mesh := some m, cfg := m.cfg }

/-! ## Sending -/

/-- `send_raw`. -/
def sendRaw (p : BbHal) (bb : McBackbone) (d : Bytes) : McBackbone :=
  if bb.fd then
    let bb := bb.note (.send d)
    if p.sendOk d then { bb with dgramsOut := bb.dgramsOut + 1 } else bb
  else bb

/-- `send_session`. -/
def sendSession (C : Crypto) (p : BbHal) (bb : McBackbone) (type : UInt8) (body : Bytes) : McBackbone :=
  let bb := { bb with seqOut := bb.seqOut + 1 }
  match bbSeal C bbMaxDgram type bb.sid bb.seqOut body bb.kUp.bytes with
  | some d => sendRaw p (bb.note (.seal bb.kUp bb.seqOut)) d
  | none => bb

/-! ## Attempts -/

/-- `forget_session`. -/
def forgetSession (bb : McBackbone) : McBackbone :=
  { bb with
    kUp := .zero 32
    kDown := .zero 32
    ephSec := .zero 32
    sid := 0
    roles := 0
    seqOut := 0
    rwin := .zero
    taken := []
    fd := false
    state := .idle }

def bbWelcomeWaitMs : Nat := 5000
def bbHelloTries : Nat := 3
def bbBackoffMax : Nat := 300

/-- `retry_later`: the wait with its jitter, then twice as long. -/
def retryLater (p : BbHal) (bb : McBackbone) (now : Nat) : McBackbone :=
  let bb := forgetSession bb
  let b := bb.backoffS
  { bb with
    nextTryMs := now + b * 1000 + p.jitter % (b * 250 + 1)
    backoffS := if b * 2 > bbBackoffMax then bbBackoffMax else b * 2 }

/-- `send_hello`. -/
def sendHello (C : BbCrypto) (p : BbHal) (bb : McBackbone) (now : Nat) : McBackbone :=
  let ts := if p.time32 ≤ bb.lastHelloTs then bb.lastHelloTs + 1 else p.time32
  let bb := { bb with ephSec := p.random, lastHelloTs := ts }
  match bbBuildHello C.toCrypto (bbHelloFixed + bbNameMax + 64) bb.id bb.rolesAsked ts
      (C.scalarmultBase bb.ephSec.bytes) bb.cfg.name with
  | none => retryLater p { bb with hello := [] } now
  | some hello =>
    let bb := { bb with hello := hello, helloHash := C.sha256 hello }
    let bb := sendRaw p (bb.note (.hello now hello)) hello
    { bb with
      helloTries := bb.helloTries + 1
      state := .helloSent
      deadlineMs := now + bbWelcomeWaitMs }

/-- `start_attempt`: the lookup is started and not waited for. -/
def startAttempt (p : BbHal) (bb : McBackbone) (now : Nat) : McBackbone :=
  let bb := (forgetSession bb).note (.attempt now)
  let bb := { bb with
    helloTries := 0
    haveAddr := false
    gaiHost := snprintfS 96 bb.cfg.backboneHost
    gaiPort := snprintfS 8 (decimal bb.cfg.backbonePort.toNat) }
  if p.lookupOk then { bb with gaiBusy := true, state := .resolving } else retryLater p bb now

/-- `check_resolved`: the socket is connected to the hub and the first HELLO sent. -/
def checkResolved (C : BbCrypto) (p : BbHal) (bb : McBackbone) (now : Nat) (g : GaiState) : McBackbone :=
  match g with
  | .inProgress => bb
  | .failed => retryLater p { bb with gaiBusy := false } now
  | .resolved =>
    let bb := { bb with gaiBusy := false, haveAddr := true }
    if p.connectOk then sendHello C p { bb with fd := true } now else retryLater p bb now

/-! ## Hooks of the mesh and the main loop -/

/-- OBSERVE's flag for a frame from the hub. -/
def bbObsFromBackbone : UInt8 := 0x01

/-- BRIDGE's flag for a frame this node originated. -/
def bbBridgeOwn : UInt8 := 0x01

/-- `BB_DISP_LIMITED`. -/
def bbDispLimited : Int := 4

/-- What `mesh_on_recv` returns. -/
def MeshRx.code : MeshRx → Int
  | .forwarded => 0
  | .duplicate => 1
  | .policy => 2
  | .localOnly => 3
  | .malformed => 5

/-- `backbone_observe`. -/
def backboneObserve (C : Crypto) (p : BbHal) (bb : McBackbone) (frame : Bytes) (rssi snrQ : Int)
    (flags : UInt8) (disposition : Int) : McBackbone :=
  if bb.state ≠ .up ∨ bb.roles &&& bbRoleObserve = 0 then bb
  else if disposition < 0 ∨ bbDispLimited < disposition ∨ frame.length = 0 ∨ bbMaxFrame < frame.length then bb
  else
    match pktParse frame with
    | .error _ => bb
    | .ok pkt =>
      let body := [flags, UInt8.ofInt disposition] ++ wrU16le (UInt16.ofInt rssi) ++
        [UInt8.ofInt snrQ, UInt8.ofNat frame.length] ++ pktCalcHash C pkt ++ frame
      let bb := sendSession C p bb bbTObserve body
      { bb with observed := bb.observed + 1 }

/-- `backbone_status_soon`. -/
def backboneStatusSoon (bb : McBackbone) : McBackbone :=
  if bb.state = .up then { bb with nextStatusMs := 0 } else bb

/-- `backbone_offer`. -/
def backboneOffer (C : Crypto) (p : BbHal) (bb : McBackbone) (frame : Bytes) (own : Bool) : McBackbone :=
  if bb.state ≠ .up ∨ bb.roles &&& bbRoleBridge = 0 then bb
  else if frame.length = 0 ∨ bbMaxFrame < frame.length then bb
  else
    match pktParse frame with
    | .error _ => bb
    | .ok pkt =>
      if pktIsRouteDirect pkt && pktPathHashCount pkt == 0 then bb
      else
        let body := [if own then bbBridgeOwn else 0, UInt8.ofNat frame.length] ++ pktCalcHash C pkt ++ frame
        let bb := sendSession C p bb bbTBridge body
        { bb with offered := bb.offered + 1 }

/-- What the mesh calls back while it runs. -/
def meshCall (C : Crypto) (p : BbHal) (bb : McBackbone) : Event → McBackbone
  | .offer raw own => backboneOffer C p bb raw own
  | .statusSoon => backboneStatusSoon bb
  | _ => bb

/-- One run of the mesh: its calls back reach the client in order. -/
def meshRan (C : Crypto) (p : BbHal) (bb : McBackbone) (m : McMesh) : McBackbone :=
  m.events.foldl (meshCall C p) (bb.setMesh m)

/-- What both calls back keep, a run of the mesh keeps. -/
theorem meshRan_induct {C : Crypto} {p : BbHal} {P : McBackbone → McBackbone → Prop} (hrefl : ∀ b, P b b)
    (htrans : ∀ {a b c}, P a b → P b c → P a c) (hoffer : ∀ b raw own, P b (backboneOffer C p b raw own))
    (hsoon : ∀ b, P b (backboneStatusSoon b)) (bb : McBackbone) (m : McMesh) :
    P (bb.setMesh m) (meshRan C p bb m) := by
  have hcall : ∀ b e, P b (meshCall C p b e) := by
    intro b e
    unfold meshCall
    split
    · exact hoffer b _ _
    · exact hsoon b
    · exact hrefl b
  rw [meshRan]
  generalize bb.setMesh m = b
  induction m.events generalizing b with
  | nil => exact hrefl b
  | cons e es ih => exact htrans (hcall b e) (ih _)

end Meshcore
