import MeshcoreRepeater.Backbone.Calls

/-! # What one step of the client can do

`Move` says it once for every input, and the invariants are read off it: calls inside a
session, a datagram of the session accepted, a session forgotten or reset, an attempt, a
HELLO, a WELCOME that brings a session up or only erases the secret, and the end.

* `sendHello_cases`, `onFrame_cases`: the ends of two handlers.
* `onBody_move`: the body of an accepted datagram.
* `bbStep_move`: every input is one of the moves.
-/

namespace Meshcore

open ByteLib

/-! ## The kinds of moves -/

/-- No socket, no keys, no session. -/
structure McBackbone.Clean (bb : McBackbone) : Prop where
  fd : bb.fd = false
  kUp : bb.kUp = .zero 32
  kDown : bb.kDown = .zero 32
  ephSec : bb.ephSec = .zero 32
  sid : bb.sid = 0
  roles : bb.roles = 0
  seqOut : bb.seqOut = 0
  rwin : bb.rwin = .zero
  taken : bb.taken = []

/-- The log grows as in `Calls`. -/
def SealsOn (bb bb' : McBackbone) : Prop :=
  ∃ es k, bb'.log = bb.log ++ es ∧ (∀ e ∈ es, e.Inner) ∧ sealsOf es = sealed bb.kUp bb.seqOut k ∧
    (k ≠ 0 → bb.state = .up)

/-- Calls inside a session log that way. -/
theorem Calls.sealsOn {bb bb' : McBackbone} (h : Calls bb bb') : SealsOn bb bb' := by
  obtain ⟨es, k, hlog, hinner, hseals, -, hup⟩ := h.log
  exact ⟨es, k, hlog, hinner, hseals, hup⟩

/-- The session is forgotten and another attempt is due some time. -/
structure Forgotten (bb bb' : McBackbone) : Prop where
  state : bb'.state = .idle
  clean : bb'.Clean
  id : bb'.id = bb.id
  hubPub : bb'.hubPub = bb.hubPub
  rolesAsked : bb'.rolesAsked = bb.rolesAsked
  lastHelloTs : bb'.lastHelloTs = bb.lastHelloTs ∨ bb.id.hasSecret = false
  lastResetMs : bb'.lastResetMs = bb.lastResetMs
  tokens : bb'.tokens = bb.tokens
  tokensMs : bb'.tokensMs = bb.tokensMs
  backoff : 5 ≤ bb.backoffS ∧ bb.backoffS ≤ 300 → 5 ≤ bb'.backoffS ∧ bb'.backoffS ≤ 300
  log : SealsOn bb bb'
  seals : sealCount bb' ≤ sealCount bb + 1

/-- The timestamp of the next HELLO. -/
def nextHelloTs (p : BbHal) (bb : McBackbone) : UInt32 :=
  if p.time32 ≤ bb.lastHelloTs then bb.lastHelloTs + 1 else p.time32

/-- An attempt is started: a lookup is under way, or could not be started. -/
structure Attempted (now : Nat) (bb bb' : McBackbone) : Prop where
  state : bb'.state = .resolving ∨ bb'.state = .idle
  clean : bb'.Clean
  id : bb'.id = bb.id
  hubPub : bb'.hubPub = bb.hubPub
  rolesAsked : bb'.rolesAsked = bb.rolesAsked
  lastHelloTs : bb'.lastHelloTs = bb.lastHelloTs
  lastResetMs : bb'.lastResetMs = bb.lastResetMs
  tokens : bb'.tokens = bb.tokens
  tokensMs : bb'.tokensMs = bb.tokensMs
  backoff : 5 ≤ bb.backoffS ∧ bb.backoffS ≤ 300 → 5 ≤ bb'.backoffS ∧ bb'.backoffS ≤ 300
  log : bb'.log = bb.log ++ [.attempt now]

/-- A HELLO goes out, with a secret of its own. -/
structure HelloMove (C : BbCrypto) (now : Nat) (bb bb' : McBackbone) : Prop where
  state : bb'.state = .helloSent
  secret : bb.id.hasSecret = true
  id : bb'.id = bb.id
  hubPub : bb'.hubPub = bb.hubPub
  rolesAsked : bb'.rolesAsked = bb.rolesAsked
  sid : bb'.sid = bb.sid
  rwin : bb'.rwin = bb.rwin
  taken : bb'.taken = bb.taken
  backoffS : bb'.backoffS = bb.backoffS
  lastResetMs : bb'.lastResetMs = bb.lastResetMs
  tokens : bb'.tokens = bb.tokens
  tokensMs : bb'.tokensMs = bb.tokensMs
  lastHelloTs : ∃ p, bb'.lastHelloTs = nextHelloTs p bb
  hello : ∃ name sig : Bytes, bb'.hello = helloHead bb.id bb.rolesAsked bb'.lastHelloTs
    (C.scalarmultBase bb'.ephSec.bytes) name ++ sig
  helloHash : bb'.helloHash = C.sha256 bb'.hello
  log : ∃ es, bb'.log = bb.log ++ .hello now bb'.hello :: es ∧ (∀ e ∈ es, e.Inner) ∧ sealsOf es = []

/-- The clock of an input. -/
def BbInput.now : BbInput → Option Nat
  | .state _ now _ => some now
  | .datagram _ now _ => some now
  | .timers _ now => some now
  | _ => none

/-- What one input can do. -/
inductive Move (C : BbCrypto) (bb : McBackbone) (x : BbInput) : McBackbone → Prop
  | calls {bb' : McBackbone} (h : Calls bb bb') : Move C bb x bb'
  /-- a datagram of the session, other than a FRAME that reaches the bucket -/
  | heard {bb' : McBackbone} {seq : UInt32} {rwin : BbReplay} {now : Nat} (hup : bb.state = .up)
      (hcheck : bbReplayCheck bb.rwin seq = (true, rwin)) (h : Calls (bb.heard seq rwin now) bb') :
      Move C bb x bb'
  /-- a FRAME that the bucket or the queue refuses -/
  | limited {bb' : McBackbone} {seq : UInt32} {rwin : BbReplay} {now : Nat} (hx : x.now = some now)
      (hup : bb.state = .up) (hcheck : bbReplayCheck bb.rwin seq = (true, rwin))
      (h : Calls ((bb.heard seq rwin now).setTokens (refill C.reading bb now) now) bb') :
      Move C bb x bb'
  /-- a FRAME that takes a token and is handed to the mesh -/
  | frame {bb' : McBackbone} {seq : UInt32} {rwin : BbReplay} {now : Nat} {raw : Bytes}
      (hx : x.now = some now) (hup : bb.state = .up)
      (hcheck : bbReplayCheck bb.rwin seq = (true, rwin)) (htoken : 1 ≤ refill C.reading bb now)
      (h : Calls (((bb.heard seq rwin now).setTokens (C.reading.sub (refill C.reading bb now) 1) now).note (.frame now raw)) bb') :
      Move C bb x bb'
  | forgotten {bb' : McBackbone} (h : Forgotten bb bb') : Move C bb x bb'
  | reset {now : Nat} (hx : x.now = some now) (hup : bb.state = .up) : Move C bb x (bb.afterReset now)
  | attempt {bb' : McBackbone} {now : Nat} (hx : x.now = some now) (hidle : bb.state = .idle)
      (hdue : bb.nextTryMs ≤ now) (h : Attempted now bb bb') : Move C bb x bb'
  | hello {bb' : McBackbone} {now : Nat} (hx : x.now = some now)
      (hwas : bb.state = .resolving ∧ bb'.fd = true ∨ bb.state = .helloSent ∧ bb'.fd = bb.fd)
      (h : HelloMove C now bb bb') : Move C bb x bb'
  | up {bb' : McBackbone} {p : BbHal} {d : Bytes} {now : Nat} {w : BbWelcome} {keys : Buf 32 × Buf 32}
      (hx : x = .datagram p now d) (hfd : bb.fd = true) (hwas : bb.state = .helloSent)
      (hcheck : bbCheckWelcome C.toCrypto d bb.hubPub bb.helloHash bb.rolesAsked = .ok w)
      (hkeys : bbDeriveKeys C.toCrypto (C.scalarmult bb.ephSec.bytes w.ephPub.bytes) bb.hello d = some keys)
      (h : Calls (sessionUp bb now d w keys) bb') : Move C bb x bb'
  /-- a WELCOME whose shared secret is zero -/
  | erased {p : BbHal} {d : Bytes} {now : Nat} {w : BbWelcome} (hx : x = .datagram p now d)
      (hwas : bb.state = .helloSent)
      (hcheck : bbCheckWelcome C.toCrypto d bb.hubPub bb.helloHash bb.rolesAsked = .ok w)
      (hkeys : bbDeriveKeys C.toCrypto (C.scalarmult bb.ephSec.bytes w.ephPub.bytes) bb.hello d = none) :
      Move C bb x { bb with ephSec := .zero 32 }.reject
  | closed {b bb' : McBackbone} (h : Calls bb b) (hseals : sealCount b ≤ sealCount bb + 1)
      (h' : ∃ busy, bb' = { forgetSession { b with gaiBusy := busy } with state := .off }) : Move C bb x bb'

variable {C : BbCrypto} {p : BbHal} {bb bb' : McBackbone} {now : Nat} {x : BbInput}

/-- The log only grows. -/
theorem Move.log (h : Move C bb x bb') : ∃ es, bb'.log = bb.log ++ es := by
  cases h with
  | calls hcalls | heard _ _ hcalls | limited _ _ _ hcalls =>
    obtain ⟨es, k, hlog, -⟩ := hcalls.log
    exact ⟨es, hlog⟩
  | frame _ _ _ _ hcalls =>
    obtain ⟨es, k, hlog, -⟩ := hcalls.log
    exact ⟨_ :: es, hlog.trans (List.append_assoc ..)⟩
  | forgotten hforgotten =>
    obtain ⟨es, k, hlog, -⟩ := hforgotten.log
    exact ⟨es, hlog⟩
  | reset => exact ⟨_, rfl⟩
  | attempt _ _ _ hattempt => exact ⟨_, hattempt.log⟩
  | hello _ _ hhello =>
    obtain ⟨es, hlog, -⟩ := hhello.log
    exact ⟨_, hlog⟩
  | up _ _ _ _ _ hcalls =>
    obtain ⟨es, k, hlog, -⟩ := hcalls.log
    exact ⟨_ :: es, hlog.trans (List.append_assoc ..)⟩
  | erased => exact ⟨[], (List.append_nil _).symm⟩
  | closed hcalls _ hclosed =>
    obtain ⟨es, k, hlog, -⟩ := hcalls.log
    obtain ⟨busy, rfl⟩ := hclosed
    exact ⟨es, hlog⟩

/-- Only a WELCOME that passes every check brings a session up. -/
theorem Move.comesUp (h : Move C bb x bb') (hdown : bb.state ≠ .up) (hup : bb'.state = .up) :
    ∃ p now d w keys, x = .datagram p now d ∧ bb.state = .helloSent ∧
      bbCheckWelcome C.toCrypto d bb.hubPub bb.helloHash bb.rolesAsked = .ok w ∧
      bbDeriveKeys C.toCrypto (C.scalarmult bb.ephSec.bytes w.ephPub.bytes) bb.hello d = some keys ∧
      Calls (sessionUp bb now d w keys) bb' := by
  cases h with
  | calls hcalls => exact absurd (hcalls.state.symm.trans hup) hdown
  | heard hwas => exact absurd hwas hdown
  | limited _ hwas => exact absurd hwas hdown
  | frame _ hwas => exact absurd hwas hdown
  | forgotten hforgotten =>
    rw [hforgotten.state] at hup
    cases hup
  | reset _ hwas => exact absurd hwas hdown
  | attempt _ _ _ hattempt =>
    rcases hattempt.state with hstate | hstate
    · rw [hstate] at hup
      cases hup
    · rw [hstate] at hup
      cases hup
  | hello _ _ hhello =>
    rw [hhello.state] at hup
    cases hup
  | up hx _ hwas hcheck hkeys hcalls => exact ⟨_, _, _, _, _, hx, hwas, hcheck, hkeys, hcalls⟩
  | erased _ hwas => exact absurd hup (by simp [McBackbone.reject, hwas])
  | closed _ _ hclosed =>
    rcases hclosed with ⟨busy, rfl⟩
    cases hup

/-- No move takes a sealed datagram back. -/
theorem Move.sealCount_le (h : Move C bb x bb') : sealCount bb ≤ sealCount bb' := by
  obtain ⟨es, hlog⟩ := h.log
  rw [sealCount, sealCount, hlog, sealsOf_append, List.length_append]
  exact Nat.le_add_right _ _

/-! ## Forgetting -/

/-- What a session leaves behind: it may have sealed a last datagram. -/
structure Outlasts (bb b : McBackbone) : Prop where
  id : b.id = bb.id
  hubPub : b.hubPub = bb.hubPub
  rolesAsked : b.rolesAsked = bb.rolesAsked
  lastHelloTs : b.lastHelloTs = bb.lastHelloTs ∨ bb.id.hasSecret = false
  lastResetMs : b.lastResetMs = bb.lastResetMs
  tokens : b.tokens = bb.tokens
  tokensMs : b.tokensMs = bb.tokensMs
  backoffS : b.backoffS = bb.backoffS
  log : SealsOn bb b
  seals : sealCount b ≤ sealCount bb + 1

/-- Calls keep what a session leaves behind. -/
theorem Calls.outlasts {b : McBackbone} (h : Calls bb b) (hseals : sealCount b ≤ sealCount bb + 1) :
    Outlasts bb b where
  id := congrArg BbKept.id h.kept
  hubPub := congrArg BbKept.hubPub h.kept
  rolesAsked := congrArg BbKept.rolesAsked h.kept
  lastHelloTs := Or.inl (congrArg BbKept.lastHelloTs h.kept)
  lastResetMs := congrArg BbKept.lastResetMs h.kept
  tokens := congrArg BbKept.tokens h.kept
  tokensMs := congrArg BbKept.tokensMs h.kept
  backoffS := congrArg BbKept.backoffS h.kept
  log := h.sealsOn
  seals := hseals

/-- Nothing was sealed, and only what a session needs was changed. -/
theorem Outlasts.of_eq {b : McBackbone} (hid : b.id = bb.id) (hhub : b.hubPub = bb.hubPub)
    (hroles : b.rolesAsked = bb.rolesAsked)
    (hts : b.lastHelloTs = bb.lastHelloTs ∨ bb.id.hasSecret = false)
    (hreset : b.lastResetMs = bb.lastResetMs) (htokens : b.tokens = bb.tokens)
    (htokensMs : b.tokensMs = bb.tokensMs) (hbackoff : b.backoffS = bb.backoffS) (hlog : b.log = bb.log) :
    Outlasts bb b where
  id := hid
  hubPub := hhub
  rolesAsked := hroles
  lastHelloTs := hts
  lastResetMs := hreset
  tokens := htokens
  tokensMs := htokensMs
  backoffS := hbackoff
  log := ⟨[], 0, by rw [hlog, List.append_nil], by simp, rfl, by simp⟩
  seals := by
    rw [sealCount, hlog]
    exact Nat.le_succ _

/-- A session that did nothing. -/
theorem Outlasts.refl (bb : McBackbone) : Outlasts bb bb := .of_eq rfl rfl rfl (Or.inl rfl) rfl rfl rfl rfl rfl

/-- A session forgotten, with any wait from 5 to 300 s or the one it had. -/
theorem Outlasts.forgotten {b : McBackbone} (h : Outlasts bb b) {next backoff : Nat}
    (hbackoff : 5 ≤ bb.backoffS ∧ bb.backoffS ≤ 300 → 5 ≤ backoff ∧ backoff ≤ 300) :
    Forgotten bb { forgetSession b with nextTryMs := next, backoffS := backoff } where
  state := rfl
  clean := by constructor <;> rfl
  id := h.id
  hubPub := h.hubPub
  rolesAsked := h.rolesAsked
  lastHelloTs := h.lastHelloTs
  lastResetMs := h.lastResetMs
  tokens := h.tokens
  tokensMs := h.tokensMs
  backoff := hbackoff
  log := h.log
  seals := h.seals

/-- Twice the wait, up to 300 s. -/
theorem backoff_doubled {b : Nat} (h : 5 ≤ b ∧ b ≤ 300) :
    5 ≤ (if b * 2 > bbBackoffMax then bbBackoffMax else b * 2) ∧
      (if b * 2 > bbBackoffMax then bbBackoffMax else b * 2) ≤ 300 := by
  rw [bbBackoffMax]
  split <;> omega

/-- An attempt that failed. -/
theorem Outlasts.retryLater {b : McBackbone} (h : Outlasts bb b) : Forgotten bb (retryLater p b now) := by
  refine h.forgotten fun hbackoff => ?_
  rw [← h.backoffS] at hbackoff
  exact backoff_doubled hbackoff

/-! ## HELLO -/

/-- A HELLO can be built exactly with a secret key. -/
theorem bbBuildHello_eq (C : Crypto) (id : McIdentity) (roles : UInt8) (ts : UInt32) (ephPub : Buf 32)
    (name : Bytes) :
    bbBuildHello C (bbHelloFixed + bbNameMax + 64) id roles ts ephPub name =
      if id.hasSecret then
        some (helloHead id roles ts ephPub (name.take 32) ++ (C.cryptoSign id.sec.bytes
          (bbCtxHello ++ helloHead id roles ts ephPub (name.take 32))).bytes)
      else none := by
  have hname : (name.take bbNameMax).length ≤ 32 := by
    rw [List.length_take]
    exact Nat.min_le_left _ _
  have hhead : (helloHead id roles ts ephPub (name.take bbNameMax)).length =
      75 + (name.take bbNameMax).length := by
    have hpub := id.pub.length_eq
    have heph := ephPub.length_eq
    simp only [helloHead, putHdr, List.length_append, List.length_cons, List.length_nil,
      length_wrU32le, hpub, heph]
    omega
  have hctx : bbCtxHello.length = 11 := rfl
  unfold bbBuildHello
  simp only
  rw [if_neg (by simp only [bbHelloFixed, bbNameMax] at hname ⊢; omega), signCtx, hctx, hhead,
    if_neg (by simp only [ctxBuf]; omega), mcIdentitySign]
  have hsize : ¬(bbCtxHello ++ helloHead id roles ts ephPub (name.take bbNameMax)).length + 64 >
      signScratch := by
    rw [List.length_append, hctx, hhead, signScratch]
    omega
  cases hsecret : id.hasSecret
  · rfl
  · have hfalse : (!true || decide ((bbCtxHello ++ helloHead id roles ts ephPub
        (name.take bbNameMax)).length + 64 > signScratch)) = false := by
      rw [decide_eq_false hsize]
      rfl
    rw [hfalse]
    rfl

/-- `send_hello`: a HELLO, or a wait when there is no key to sign it. -/
theorem sendHello_cases (C : BbCrypto) (p : BbHal) (bb : McBackbone) (now : Nat) :
    (HelloMove C now bb (sendHello C p bb now) ∧ (sendHello C p bb now).fd = bb.fd) ∨
      Forgotten bb (sendHello C p bb now) := by
  unfold sendHello
  simp only [bbBuildHello_eq]
  cases hsecret : bb.id.hasSecret with
  | false =>
    refine Or.inr (Outlasts.retryLater ?_)
    exact .of_eq rfl rfl rfl (Or.inr hsecret) rfl rfl rfl rfl rfl
  | true =>
    left
    simp only [if_true]
    generalize hts : (if p.time32 ≤ bb.lastHelloTs then bb.lastHelloTs + 1 else p.time32) = ts
    generalize hhello : helloHead bb.id bb.rolesAsked ts (C.scalarmultBase p.random.bytes)
      (bb.cfg.name.take 32) ++ _ = hello
    obtain ⟨es, n, hsend, hsends⟩ := sendRaw_eq p (({ bb with
      ephSec := p.random
      lastHelloTs := ts
      hello := hello
      helloHash := C.sha256 hello } : McBackbone).note (.hello now hello)) hello
    obtain ⟨hinner, hseals⟩ := sealsOf_sends hsends
    rw [hsend]
    refine ⟨⟨rfl, hsecret, rfl, rfl, rfl, rfl, rfl, rfl, rfl, rfl, rfl, rfl, ⟨p, hts.symm⟩,
      ⟨bb.cfg.name.take 32, _, hhello.symm⟩, rfl, es, ?_, hinner, hseals⟩, rfl⟩
    simp [McBackbone.note]

/-! ## WELCOME and RESET -/

/-- A session that came up reports itself at once. -/
theorem sessionGreet_calls (C : Crypto) {bb : McBackbone} (hup : bb.state = .up) :
    Calls bb (sessionGreet C p bb now) := by
  have hkeep : Calls bb (sendSession C p bb bbTKeepalive []) := sendSession_calls C p hup (by simp)
  unfold sessionGreet
  simp only
  generalize sendSession C p bb bbTKeepalive [] = b at hkeep ⊢
  have htimed : Calls b { b with nextKeepaliveMs := now + b.keepaliveS.toNat * 1000 } := .of_eq rfl rfl rfl
  split
  · have hstatus := sendStatus_calls C p ((hkeep.trans htimed).state.trans hup) now
    refine (hkeep.trans (htimed.trans hstatus)).trans ?_
    exact .of_eq rfl rfl rfl
  · exact hkeep.trans htimed

/-- `recv` does not cut what is as short as it looks. -/
theorem recvd_eq {d : Bytes} (h : (recvd d).length ≤ bbMaxDgram) : recvd d = d := by
  rw [recvd, List.length_take] at h
  rw [recvd, List.take_of_length_le]
  omega

/-- A WELCOME brings the session up, erases the secret, or is rejected. -/
theorem onWelcome_move {d : Bytes} (hfd : bb.fd = true) (hx : x = .datagram p now d) :
    Move C bb x (onWelcome C p bb now d) := by
  unfold onWelcome
  split
  · exact .calls (.reject bb)
  rename_i hwas
  split
  · exact .calls (.reject bb)
  rename_i w hcheck
  split
  · rename_i hkeys
    exact .erased hx (not_not.mp hwas) hcheck hkeys
  · rename_i keys hkeys
    exact .up hx hfd (not_not.mp hwas) hcheck hkeys (sessionGreet_calls C.toCrypto rfl)

/-- A RESET is obeyed only in a session, and only by its key. -/
theorem onReset_move {d : Bytes} (hx : x.now = some now) : Move C bb x (onReset C.toCrypto p bb now d) := by
  unfold onReset
  split
  · exact .calls (.reject bb)
  rename_i hup
  simp only
  split
  · exact .calls (.reject bb)
  split
  · exact .calls (.reject bb)
  · refine .reset hx ?_
    by_contra hne
    exact hup (Or.inl hne)

/-! ## FRAME and POLICY -/

/-- The mesh may answer with offers of its own. -/
theorem handFrame_calls (C : Crypto) (p : BbHal) (bb : McBackbone) (frame : Bytes) :
    Calls bb (handFrame C p bb frame).1 := by
  unfold handFrame
  split
  · exact .refl bb
  · exact meshRan_calls C p bb _

/-- `on_frame`: refused at once, refused by the bucket or the queue, or paid for. -/
theorem onFrame_cases (C : Crypto) (R : Reading) (p : BbHal) (bb : McBackbone) (now : Nat) (body : Bytes) :
    Calls bb (onFrame C R p bb now body) ∨
      Calls (bb.setTokens (refill R bb now) now) (onFrame C R p bb now body) ∨
      1 ≤ refill R bb now ∧ ∃ raw, Calls ((bb.setTokens (R.sub (refill R bb now) 1) now).note (.frame now raw))
        (onFrame C R p bb now body) := by
  unfold onFrame
  split
  · exact Or.inl (.reject bb)
  simp only
  split
  · refine Or.inr (Or.inl (Calls.trans ?_ (backboneObserve_calls C p _ _ _ _ _ _)))
    exact .of_eq rfl rfl rfl
  rename_i htoken
  generalize (body.drop 10).take (body.getD 1 0).toNat = raw
  refine Or.inr (Or.inr ⟨?_, raw, ?_⟩)
  · by_contra hlt
    exact htoken (Or.inl (not_le.mp hlt))
  · have hhand := handFrame_calls C p ((bb.setTokens (R.sub (refill R bb now) 1) now).note (.frame now raw)) raw
    have hsame : (bb.setTokens (refill R bb now) now).setTokens
        (R.sub (bb.setTokens (refill R bb now) now).tokens 1) now = bb.setTokens (R.sub (refill R bb now) 1) now := rfl
    rw [hsame]
    generalize handFrame C p _ raw = r at hhand ⊢
    split
    · exact hhand.trans (.reject _)
    · have hcount : Calls r.1 { r.1 with injected := r.1.injected + 1 } := .of_eq rfl rfl rfl
      exact (hhand.trans hcount).trans (backboneObserve_calls C p _ _ _ _ _ _)

/-- A complete set changes the configuration and asks for a status. -/
theorem applySet_calls (C : Crypto) (bb : McBackbone) : Calls bb (applySet C bb) := by
  unfold applySet
  simp only
  refine Calls.trans ?_ (backboneStatusSoon_calls _)
  have hdone : Calls bb { bb with polAppliedSeq := bb.polMinSeq, polPages := 0 } := .of_eq rfl rfl rfl
  split
  · exact (hdone.trans (.setCfg _ _)).trans (.note _ trivial rfl)
  · exact hdone

/-- POLICY collects, and applies what is complete. -/
theorem onPolicy_calls (C : Crypto) (bb : McBackbone) (seq : UInt32) (body : Bytes) :
    Calls bb (onPolicy C bb seq body) := by
  unfold onPolicy
  split
  · exact .refl bb
  split
  · exact .reject bb
  simp only
  split
  · exact .reject bb
  split
  · exact .refl bb
  split
  · exact .refl bb
  rename_i b hcollect
  -- collecting changes no session
  have hfor : Calls bb b := by
    unfold collectFor at hcollect
    simp only at hcollect
    split at hcollect
    · cases hcollect
      exact .of_eq rfl rfl rfl
    split at hcollect
    · split at hcollect
      · cases hcollect
      · cases hcollect
        exact .of_eq rfl rfl rfl
    · cases hcollect
      exact .refl bb
  split
  · exact hfor
  have htake : ∀ bit entries, Calls b (takePage b seq bit entries) := fun _ _ => .of_eq rfl rfl rfl
  split
  · exact hfor.trans (htake _ _)
  · exact (hfor.trans (htake _ _)).trans (applySet_calls C _)

/-! ## Datagrams -/

/-- What the body of an accepted datagram does. -/
theorem onBody_move {seq : UInt32} {rwin : BbReplay} {s : BbSession} (hx : x.now = some now)
    (hup : bb.state = .up) (hcheck : bbReplayCheck bb.rwin seq = (true, rwin)) :
    Move C bb x (onBody C.toCrypto C.reading p (bb.heard seq rwin now) now s) := by
  unfold onBody
  split
  · exact .heard hup hcheck (.refl _)
  split
  · rcases onFrame_cases C.toCrypto C.reading p (bb.heard seq rwin now) now s.body with h | h | ⟨htoken, raw, h⟩
    · exact .heard hup hcheck h
    · exact .limited hx hup hcheck h
    · exact .frame hx hup hcheck htoken h
  split
  · exact .heard hup hcheck (onPolicy_calls C.toCrypto _ _ _)
  split
  · -- the hub's BYE: what the datagram changed goes with the session
    have hheard : Outlasts bb (bb.heard seq rwin now) :=
      .of_eq rfl rfl rfl (Or.inl rfl) rfl rfl rfl rfl rfl
    unfold onByeDown
    split
    · exact .forgotten (hheard.forgotten fun _ => ⟨Nat.le_of_ble_eq_true rfl, le_refl _⟩)
    · exact .forgotten hheard.retryLater
  · exact .heard hup hcheck (.reject _)

/-- A session datagram: the tag, the replay window, then the body. -/
theorem onSession_move {d : Bytes} (hx : x.now = some now) :
    Move C bb x (onSession C.toCrypto C.reading p bb now d) := by
  unfold onSession
  split
  · exact .calls (.reject bb)
  rename_i hup
  split
  · exact .calls (.reject bb)
  split
  · rename_i rwin hcheck
    refine .calls (.of_eq ?_ rfl rfl)
    have hsame := bbReplayCheck_refused (congrArg Prod.fst hcheck)
    rw [hcheck] at hsame
    rw [show rwin = bb.rwin from hsame]
    rfl
  · rename_i s _ rwin hcheck
    refine onBody_move hx ?_ hcheck
    by_contra hne
    exact hup (Or.inl hne)

/-- Any datagram, by its kind. -/
theorem readTurn_move (C : BbCrypto) (p : BbHal) (bb : McBackbone) (now : Nat) (d : Bytes) :
    Move C bb (.datagram p now d) (readTurn C p now bb d) := by
  unfold readTurn
  split
  · rename_i hfd
    unfold readDatagram
    split
    · exact .calls (.reject bb)
    rename_i hlen
    have hwhole : recvd d = d := recvd_eq (by
      by_contra hlong
      exact hlen (Or.inl (not_le.mp hlong)))
    rw [hwhole]
    split
    · exact onWelcome_move hfd.2 rfl
    split
    · exact onReset_move rfl
    split
    · exact onSession_move rfl
    · exact .calls (.reject bb)
  · exact .calls (.refl bb)

/-! ## The parts of a service call -/

/-- The lookup is started, or the attempt is over. -/
theorem startAttempt_attempted (p : BbHal) (bb : McBackbone) (now : Nat) :
    Attempted now bb (startAttempt p bb now) := by
  unfold startAttempt
  simp only
  split
  · exact ⟨Or.inl rfl, by constructor <;> rfl, rfl, rfl, rfl, rfl, rfl, rfl, rfl, id, rfl⟩
  · refine ⟨Or.inr rfl, by constructor <;> rfl, rfl, rfl, rfl, rfl, rfl, rfl, rfl, fun h => ?_, rfl⟩
    exact backoff_doubled h

/-- The part of a service call that connects, by the state. -/
theorem serviceState_move (C : BbCrypto) (p : BbHal) (bb : McBackbone) (now : Nat) (g : GaiState) :
    Move C bb (.state p now g) (serviceState C p bb now g) := by
  unfold serviceState
  split
  · rename_i hidle
    split
    · rename_i hdue
      exact .attempt rfl hidle hdue (startAttempt_attempted p bb now)
    · exact .calls (.refl bb)
  · rename_i hresolving
    unfold checkResolved
    split
    · exact .calls (.refl bb)
    · refine .forgotten (Outlasts.retryLater ?_)
      exact .of_eq rfl rfl rfl (Or.inl rfl) rfl rfl rfl rfl rfl
    · simp only
      split
      · rcases sendHello_cases C p { bb with gaiBusy := false, haveAddr := true, fd := true } now with
          ⟨h, hfd⟩ | h
        · exact .hello rfl (Or.inl ⟨hresolving, hfd⟩) ⟨h.state, h.secret, h.id, h.hubPub, h.rolesAsked, h.sid,
            h.rwin, h.taken, h.backoffS, h.lastResetMs, h.tokens, h.tokensMs, h.lastHelloTs, h.hello,
            h.helloHash, h.log⟩
        · exact .forgotten ⟨h.state, h.clean, h.id, h.hubPub, h.rolesAsked, h.lastHelloTs, h.lastResetMs,
            h.tokens, h.tokensMs, h.backoff, h.log, h.seals⟩
      · refine .forgotten (Outlasts.retryLater ?_)
        exact .of_eq rfl rfl rfl (Or.inl rfl) rfl rfl rfl rfl rfl
  · exact .calls (.refl bb)

/-- Status, neighbours and keepalives of a session. -/
theorem reportTimers_calls (C : Crypto) {bb : McBackbone} (hup : bb.state = .up) :
    Calls bb (reportTimers C p bb now) := by
  unfold reportTimers
  split
  · simp only
    have hstatus : Calls bb (if bb.nextStatusMs ≤ now then
        { sendStatus C p bb now with nextStatusMs := now + (sendStatus C p bb now).statusS.toNat * 1000 }
        else bb) := by
      split
      · refine (sendStatus_calls C p hup now).trans ?_
        exact .of_eq rfl rfl rfl
      · exact .refl bb
    generalize (if bb.nextStatusMs ≤ now then _ else bb) = b at hstatus ⊢
    split
    · refine (hstatus.trans (sendNeighbours_calls C p (hstatus.state.trans hup))).trans ?_
      exact .of_eq rfl rfl rfl
    · exact hstatus
  · exact .refl bb

/-- A session that nothing was heard of for too long is forgotten. -/
theorem sessionTimers_move (C : BbCrypto) (p : BbHal) (bb : McBackbone) (now : Nat) (x : BbInput) :
    Move C bb x (sessionTimers C.toCrypto p bb now) := by
  unfold sessionTimers
  split
  · exact .calls (.refl bb)
  rename_i hstate
  have hup : bb.state = .up := not_not.mp hstate
  split
  · exact .forgotten ((Outlasts.refl bb).forgotten id)
  split
  · have hbye : Calls bb (sendSession C.toCrypto p bb bbTBye [bbByeRekey]) :=
      sendSession_calls C.toCrypto p hup (by simp)
    refine .forgotten ((hbye.outlasts (sendSession_sealCount C.toCrypto p bb _ _)).forgotten ?_)
    have hsame : (sendSession C.toCrypto p bb bbTBye [bbByeRekey]).backoffS = bb.backoffS :=
      congrArg BbKept.backoffS hbye.kept
    rw [← hsame]
    exact id
  · simp only
    refine .calls ?_
    have hkeep : Calls bb (if bb.nextKeepaliveMs ≤ now then
        { sendSession C.toCrypto p bb bbTKeepalive [] with
          nextKeepaliveMs := now + (sendSession C.toCrypto p bb bbTKeepalive []).keepaliveS.toNat * 1000 }
        else bb) := by
      have hsend : Calls bb (sendSession C.toCrypto p bb bbTKeepalive []) :=
        sendSession_calls C.toCrypto p hup (by simp)
      split
      · exact hsend.trans (.of_eq rfl rfl rfl)
      · exact .refl bb
    exact hkeep.trans (reportTimers_calls C.toCrypto (hkeep.state.trans hup))

/-- HELLO again, then the timers of a session. -/
theorem serviceTimers_move (C : BbCrypto) (p : BbHal) (bb : McBackbone) (now : Nat) :
    Move C bb (.timers p now) (serviceTimers C p bb now) := by
  -- behind a HELLO or a wait there is no session whose timers could run
  have hdone : ∀ b : McBackbone, b.state ≠ .up → sessionTimers C.toCrypto p b now = b := by
    intro b hb
    rw [sessionTimers, if_pos hb]
  unfold serviceTimers helloTimer
  split
  · rename_i hwas
    split
    · rcases sendHello_cases C p bb now with ⟨h, hfd⟩ | h
      · rw [hdone _ (by rw [h.state]; decide)]
        exact .hello rfl (Or.inr ⟨hwas.1, hfd⟩) h
      · rw [hdone _ (by rw [h.state]; decide)]
        exact .forgotten h
    · have h : Forgotten bb (retryLater p bb now) := (Outlasts.refl bb).retryLater
      rw [hdone _ (by rw [h.state]; decide)]
      exact .forgotten h
  · exact sessionTimers_move C p bb now _

/-! ## Every input -/

/-- Every input is one of the moves. -/
theorem bbStep_move (C : BbCrypto) (bb : McBackbone) (x : BbInput) : Move C bb x (bbStep C bb x) := by
  cases x with
  | state p now g => exact serviceState_move C p bb now g
  | datagram p now d => exact readTurn_move C p bb now d
  | timers p now => exact serviceTimers_move C p bb now
  | observe p frame rssi snrQ disposition => exact .calls (backboneObserve_calls C.toCrypto p bb _ _ _ _ _)
  | mesh p x =>
    unfold bbStep
    simp only
    split
    · exact .calls (.refl bb)
    · exact .calls (meshRan_calls C.toCrypto p bb _)
  | offer p frame own => exact .calls (backboneOffer_calls C.toCrypto p bb _ _)
  | statusSoon => exact .calls (backboneStatusSoon_calls bb)
  | configure cfg => exact .calls (.setCfg bb cfg)
  | close p =>
    unfold bbStep backboneClose
    simp only
    -- a session says goodbye, which seals one datagram more
    have hbye : Calls bb (if bb.state = .up then sendSession C.toCrypto p bb bbTBye [bbByeShutdown] else bb) ∧
        sealCount (if bb.state = .up then sendSession C.toCrypto p bb bbTBye [bbByeShutdown] else bb) ≤
          sealCount bb + 1 := by
      split
      · rename_i hup
        exact ⟨sendSession_calls C.toCrypto p hup (by simp), sendSession_sealCount C.toCrypto p bb _ _⟩
      · exact ⟨.refl bb, Nat.le_succ _⟩
    generalize (if bb.state = .up then _ else bb) = b at hbye ⊢
    refine .closed hbye.1 hbye.2 ?_
    split
    · exact ⟨false, rfl⟩
    · exact ⟨b.gaiBusy, rfl⟩

end Meshcore
