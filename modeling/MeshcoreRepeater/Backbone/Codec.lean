import MeshcoreRepeater.Advert
import MeshcoreRepeater.Lib.DoubleArith

/-! # The datagrams of the backbone

The codec half of `backbone.c`: the signed handshake datagrams, the session keys, the
sealed session datagrams and the replay window. The hub is played with the same
functions, so both ends are here. A builder that returns 0 bytes gives `none`.

X25519 joins the vendored primitives as a parameter (`BbCrypto`).

* `bbReplayCheck_refused`: a refused number leaves the window as it was.
-/

namespace Meshcore

open ByteLib

/-- The primitives of the backbone: those of the mesh, X25519, and the arithmetic of the rate
limit. -/
structure BbCrypto extends Crypto where
  /-- `crypto_scalarmult`: scalar, point. -/
  scalarmult : Bytes → Bytes → Buf 32
  /-- `crypto_scalarmult_base`. -/
  scalarmultBase : Bytes → Buf 32
  /-- `tokens` is a C double; `exact` is for what is said of it as a rational. -/
  reading : Reading := .double

/-! ## Constants -/

def bbVersion : UInt8 := 1
def bbMaxDgram : Nat := 1200
def bbMaxFrame : Nat := 255
def bbHdr : Nat := 12
def bbMac : Nat := 16
def bbHelloFixed : Nat := 75
def bbWelcomeLen : Nat := 148
def bbResetLen : Nat := 80
def bbNameMax : Nat := 32

def bbTHello : UInt8 := 0x01
def bbTWelcome : UInt8 := 0x02
def bbTReset : UInt8 := 0x03
def bbTKeepalive : UInt8 := 0x10
def bbTObserve : UInt8 := 0x11
def bbTBridge : UInt8 := 0x12
def bbTStatus : UInt8 := 0x13
def bbTNeighbours : UInt8 := 0x14
def bbTBye : UInt8 := 0x1F
def bbTKeepaliveAck : UInt8 := 0x20
def bbTFrame : UInt8 := 0x21
def bbTPolicy : UInt8 := 0x22
def bbTByeDown : UInt8 := 0x2F

def bbRoleObserve : UInt8 := 0x01
def bbRoleBridge : UInt8 := 0x02

def bbCtxHello : Bytes := lit "MCBB1 HELLO"
def bbCtxWelcome : Bytes := lit "MCBB1 WELCOME"
def bbCtxReset : Bytes := lit "MCBB1 RESET"
def bbLblUp : Bytes := lit "MCBB1 up"
def bbLblDown : Bytes := lit "MCBB1 down"

/-! ## Headers and signatures -/

/-- `put_hdr`. -/
def putHdr (type : UInt8) : Bytes := [77, 66, bbVersion, type]

/-- The magic and the version, which every reader checks first. -/
def magicOk (d : Bytes) : Bool := d.getD 0 0 == 77 && d.getD 1 0 == 66 && d.getD 2 0 == bbVersion

/-- `hdr_ok`. -/
def hdrOk (d : Bytes) (type : UInt8) : Bool := 4 ≤ d.length && magicOk d && d.getD 3 0 == type

/-- The buffer of `sign_ctx` and `verify_ctx`. -/
def ctxBuf : Nat := 160

/-- `sign_ctx`: Ed25519 over the context and the message. -/
def signCtx (C : Crypto) (id : McIdentity) (ctx msg : Bytes) : Option (Buf 64) :=
  if ctx.length + msg.length > ctxBuf then none else mcIdentitySign C id (ctx ++ msg)

/-- `verify_ctx`. -/
def verifyCtx (C : Crypto) (pub ctx msg sig : Bytes) : Bool :=
  if ctx.length + msg.length > ctxBuf then false else mcIdentityVerify C pub sig (ctx ++ msg)

/-! ## HELLO -/

/-- The signed bytes of a HELLO. -/
def helloHead (id : McIdentity) (roles : UInt8) (ts : UInt32) (ephPub : Buf 32) (name : Bytes) : Bytes :=
  putHdr bbTHello ++ [roles, 0] ++ wrU32le ts ++ id.pub.bytes ++ ephPub.bytes ++
    UInt8.ofNat name.length :: name

/-- `bb_build_hello`. -/
def bbBuildHello (C : Crypto) (cap : Nat) (id : McIdentity) (roles : UInt8) (ts : UInt32)
    (ephPub : Buf 32) (name : Bytes) : Option Bytes :=
  let name := name.take bbNameMax
  if cap < bbHelloFixed + name.length + 64 then none
  else
    let head := helloHead id roles ts ephPub name
    (signCtx C id bbCtxHello head).map fun sig => head ++ sig.bytes

/-! ## WELCOME -/

/-- `bb_welcome_t`. -/
structure BbWelcome where
  roles : UInt8
  ts : UInt32
  sid : UInt32
  ephPub : Buf 32
  keepaliveS : UInt16
  statusS : UInt16
  neighboursS : UInt16
deriving DecidableEq

/-- The 84 signed bytes of a WELCOME. -/
def welcomeHead (w : BbWelcome) (helloHash : Buf 32) : Bytes :=
  putHdr bbTWelcome ++ [w.roles, 0] ++ wrU32le w.ts ++ wrU32le w.sid ++ w.ephPub.bytes ++
    helloHash.bytes ++ wrU16le w.keepaliveS ++ wrU16le w.statusS ++ wrU16le w.neighboursS

/-- `bb_build_welcome`. -/
def bbBuildWelcome (C : Crypto) (cap : Nat) (hub : McIdentity) (w : BbWelcome) (helloHash : Buf 32) :
    Option Bytes :=
  if cap < bbWelcomeLen then none
  else
    let head := welcomeHead w helloHash
    (signCtx C hub bbCtxWelcome head).map fun sig => head ++ sig.bytes

/-- The fields of a WELCOME. -/
def readWelcome (d : Bytes) : BbWelcome where
  roles := d.getD 4 0
  ts := rdU32le (d.drop 6)
  sid := rdU32le (d.drop 10)
  ephPub := .ofBytes 32 ((d.drop 14).take 32)
  keepaliveS := rdU16le (d.drop 78)
  statusS := rdU16le (d.drop 80)
  neighboursS := rdU16le (d.drop 82)

/-- `bb_check_welcome`: the fields, or the code it returns. -/
def bbCheckWelcome (C : Crypto) (d hubPub : Bytes) (helloHash : Buf 32) (rolesAsked : UInt8) :
    Except Int BbWelcome :=
  if d.length ≠ bbWelcomeLen ∨ hdrOk d bbTWelcome = false then .error (-1)
  else if (d.drop 46).take 32 ≠ helloHash.bytes then .error (-2)
  else if verifyCtx C hubPub bbCtxWelcome (d.take 84) (d.drop 84) = false then .error (-3)
  else
    let w := readWelcome d
    if w.sid = 0 ∨ w.roles &&& ~~~rolesAsked ≠ 0 then .error (-4) else .ok w

/-! ## RESET -/

/-- The 16 signed bytes of a RESET. -/
def resetHead (sid seq ts : UInt32) : Bytes :=
  putHdr bbTReset ++ wrU32le sid ++ wrU32le seq ++ wrU32le ts

/-- `bb_build_reset`. -/
def bbBuildReset (C : Crypto) (cap : Nat) (hub : McIdentity) (sid seq ts : UInt32) : Option Bytes :=
  if cap < bbResetLen then none
  else
    let head := resetHead sid seq ts
    (signCtx C hub bbCtxReset head).map fun sig => head ++ sig.bytes

/-- `bb_check_reset`: session, sequence number and time, or the code it returns. -/
def bbCheckReset (C : Crypto) (d hubPub : Bytes) : Except Int (UInt32 × UInt32 × UInt32) :=
  if d.length ≠ bbResetLen ∨ hdrOk d bbTReset = false then .error (-1)
  else if verifyCtx C hubPub bbCtxReset (d.take 16) (d.drop 16) = false then .error (-3)
  else .ok (rdU32le (d.drop 4), rdU32le (d.drop 8), rdU32le (d.drop 12))

/-! ## Session keys -/

/-- One direction's key. -/
def directionKey (C : Crypto) (shared : Buf 32) (label th : Bytes) : Buf 32 :=
  ⟨hmacSha256 C shared.bytes (label ++ th), length_hmacSha256 ..⟩

/-- `acc |= shared[i]` over the secret. -/
def orBytes (b : Bytes) : UInt8 := b.foldl (· ||| ·) 0

/-- `bb_derive_keys`: up and down; `none` for the all-zero secret of a low-order
point. -/
def bbDeriveKeys (C : Crypto) (shared : Buf 32) (hello welcome : Bytes) : Option (Buf 32 × Buf 32) :=
  if orBytes shared.bytes = 0 then none
  else
    let th := (C.sha256 (hello ++ welcome)).bytes
    some (directionKey C shared bbLblUp th, directionKey C shared bbLblDown th)

/-! ## Session datagrams -/

/-- The bytes of a session datagram in front of its MAC. -/
def sessionHead (type : UInt8) (sid seq : UInt32) (body : Bytes) : Bytes :=
  putHdr type ++ wrU32le sid ++ wrU32le seq ++ body

/-- The first 16 bytes of the HMAC. -/
def sessionMac (C : Crypto) (key head : Bytes) : Bytes := (hmacSha256 C key head).take bbMac

/-- `bb_seal`. -/
def bbSeal (C : Crypto) (cap : Nat) (type : UInt8) (sid seq : UInt32) (body key : Bytes) : Option Bytes :=
  let len := bbHdr + body.length + bbMac
  if cap < len ∨ bbMaxDgram < len then none
  else
    let head := sessionHead type sid seq body
    some (head ++ sessionMac C key head)

/-- What `bb_open` fills in. -/
structure BbSession where
  type : UInt8
  sid : UInt32
  seq : UInt32
  body : Bytes
deriving DecidableEq

/-- `diff |= a[i] ^ b[i]`: zero exactly for equal bytes. -/
def diffBytes (a b : Bytes) : UInt8 := orBytes (List.zipWith (· ^^^ ·) a b)

/-- `bb_open`: the fields, or the code it returns. -/
def bbOpen (C : Crypto) (d key : Bytes) : Except Int BbSession :=
  if d.length < bbHdr + bbMac ∨ magicOk d = false then .error (-1)
  else
    let head := d.take (d.length - bbMac)
    if diffBytes (sessionMac C key head) (d.drop (d.length - bbMac)) ≠ 0 then .error (-2)
    else .ok ⟨d.getD 3 0, rdU32le (d.drop 4), rdU32le (d.drop 8), head.drop bbHdr⟩

/-! ## The replay window -/

/-- `bb_replay_t`: bit `i` stands for `top - i`. -/
structure BbReplay where
  top : UInt32
  bits : UInt64
deriving DecidableEq

/-- `memset(&rwin, 0, sizeof(rwin))`. -/
def BbReplay.zero : BbReplay := ⟨0, 0⟩

/-- `bb_replay_check`: whether `seq` is taken, and the window. -/
def bbReplayCheck (w : BbReplay) (seq : UInt32) : Bool × BbReplay :=
  if seq = 0 then (false, w)
  else if w.top < seq then
    let shift := seq - w.top
    let bits := if 64 ≤ shift then 0 else w.bits <<< shift.toUInt64
    (true, ⟨seq, bits ||| 1⟩)
  else
    let back := w.top - seq
    if 64 ≤ back then (false, w)
    else if w.bits &&& (1 <<< back.toUInt64) ≠ 0 then (false, w)
    else (true, ⟨w.top, w.bits ||| (1 <<< back.toUInt64)⟩)

/-- A refused number leaves the window as it was. -/
theorem bbReplayCheck_refused {w : BbReplay} {seq : UInt32} (h : (bbReplayCheck w seq).1 = false) :
    (bbReplayCheck w seq).2 = w := by
  unfold bbReplayCheck at h ⊢
  split
  · rfl
  rename_i hzero
  rw [if_neg hzero] at h
  split
  · rename_i htop
    rw [if_pos htop] at h
    cases h
  rename_i htop
  rw [if_neg htop] at h
  simp only at h ⊢
  split
  · rfl
  rename_i hback
  rw [if_neg hback] at h
  split
  · rfl
  · rename_i hbit
    rw [if_neg hbit] at h
    cases h

end Meshcore
