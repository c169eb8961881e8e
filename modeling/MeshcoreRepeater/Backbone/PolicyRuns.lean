import MeshcoreRepeater.Backbone.Headroom
import MeshcoreRepeater.Backbone.PolicySets
import MeshcoreRepeater.Backbone.Session
import MeshcoreRepeater.Mesh.Silence

/-! # POLICY sets over a session

Between two POLICY datagrams nothing touches the collection (`bbStep_pageStep`), so that a
session feeds its receiver exactly the datagrams of `policyPages`. What the hub sends in
order is installed in order, whole sets only (`policySets_inOrder`).

* `onSession_pageStep`, `bbStep_pageStep`: what a step does to the collection.
* `HubOrder.sender`: a hub that sends in order is a sender of wholes.
* `policySets_inOrder`: a whole session.
-/

namespace Meshcore

set_option maxRecDepth 8000

open ByteLib Collector

/-! ## What leaves the collection alone -/

section
variable (C : Crypto) (p : BbHal)

/-- A report is not a set. -/
theorem policyPart_note (bb : McBackbone) {e : BbEvent} (he : policiesOf [e] = []) :
    (bb.note e).policyPart = bb.policyPart := by
  have hsets : policiesOf (bb.log ++ [e]) = policiesOf bb.log := by
    rw [policiesOf_append, he, List.append_nil]
  simp only [McBackbone.policyPart, McBackbone.note, hsets]

/-- Sending is logged, the collection untouched. So is every function below that only sends or sets
a timer. -/
@[simp] theorem sendRaw_policyPart (bb : McBackbone) (d : Bytes) :
    (sendRaw p bb d).policyPart = bb.policyPart := by
  have hnote : (bb.note (.send d)).policyPart = bb.policyPart := policyPart_note bb rfl
  unfold sendRaw
  split
  · simp only
    split
    · exact hnote
    · exact hnote
  · rfl

@[simp] theorem sendSession_policyPart (bb : McBackbone) (type : UInt8) (body : Bytes) :
    (sendSession C p bb type body).policyPart = bb.policyPart := by
  unfold sendSession
  simp only
  split
  · rw [sendRaw_policyPart]
    exact policyPart_note _ rfl
  · rfl

@[simp] theorem backboneObserve_policyPart (bb : McBackbone) (frame : Bytes) (rssi snrQ : Int) (flags : UInt8)
    (disposition : Int) :
    (backboneObserve C p bb frame rssi snrQ flags disposition).policyPart = bb.policyPart := by
  rcases backboneObserve_sends C p bb frame rssi snrQ flags disposition with h | ⟨-, body, -, h⟩
  · rw [h]
  · have hsent := sendSession_policyPart C p bb bbTObserve body
    rw [h]
    generalize sendSession C p bb bbTObserve body = sent at hsent ⊢
    exact hsent

@[simp] theorem backboneOffer_policyPart (bb : McBackbone) (frame : Bytes) (own : Bool) :
    (backboneOffer C p bb frame own).policyPart = bb.policyPart := by
  rcases backboneOffer_sends C p bb frame own with h | ⟨-, body, -, h⟩
  · rw [h]
  · have hsent := sendSession_policyPart C p bb bbTBridge body
    rw [h]
    generalize sendSession C p bb bbTBridge body = sent at hsent ⊢
    exact hsent

/-- What the mesh offered is sent on; its configuration is the one it ended with. -/
theorem meshRan_policyPart (bb : McBackbone) (m : McMesh) :
    (meshRan C p bb m).policyPart = (bb.setMesh m).policyPart :=
  meshRan_induct (P := fun a b => b.policyPart = a.policyPart) (fun _ => rfl) (fun h h' => h'.trans h)
    (backboneOffer_policyPart C p) backboneStatusSoon_policyPart bb m

@[simp] theorem sendStatus_policyPart (bb : McBackbone) (now : Nat) :
    (sendStatus C p bb now).policyPart = bb.policyPart := by
  unfold sendStatus
  split
  · rfl
  simp only
  split
  · rfl
  · exact sendSession_policyPart C p bb _ _

@[simp] theorem sendNeighbours_policyPart (bb : McBackbone) :
    (sendNeighbours C p bb).policyPart = bb.policyPart := by
  -- page after page
  have hpages : ∀ (pages : Nat) (es : List Bytes) (bb : McBackbone) (j : JBuf) (page used : Nat),
      (sendPages C p pages es bb j page used).1.policyPart = bb.policyPart := by
    intro pages es
    induction es with
    | nil => intro bb j page used; rfl
    | cons e es ih =>
      intro bb j page used
      unfold sendPages
      split
      · simp only
        rw [ih, sendSession_policyPart]
      · exact ih _ _ _ _
  unfold sendNeighbours
  split
  · rfl
  simp only
  split
  · exact hpages _ _ _ _ _ _
  · rw [sendSession_policyPart]
    exact hpages _ _ _ _ _ _

@[simp] theorem reportTimers_policyPart (bb : McBackbone) (now : Nat) :
    (reportTimers C p bb now).policyPart = bb.policyPart := by
  unfold reportTimers
  split
  · simp only
    -- the STATUS first, then the neighbours
    have hstatus : (if bb.nextStatusMs ≤ now then
        { sendStatus C p bb now with nextStatusMs := now + (sendStatus C p bb now).statusS.toNat * 1000 }
        else bb).policyPart = bb.policyPart := by
      split
      · exact sendStatus_policyPart C p bb now
      · rfl
    generalize (if bb.nextStatusMs ≤ now then _ else bb) = b at hstatus ⊢
    split
    · exact (sendNeighbours_policyPart C p b).trans hstatus
    · exact hstatus
  · rfl

@[simp] theorem sessionTimers_policyPart (bb : McBackbone) (now : Nat) :
    (sessionTimers C p bb now).policyPart = bb.policyPart := by
  unfold sessionTimers
  split
  · rfl
  split
  · rfl
  split
  · exact sendSession_policyPart C p bb _ _
  simp only
  rw [reportTimers_policyPart]
  split
  · exact sendSession_policyPart C p bb _ _
  · rfl

@[simp] theorem sessionGreet_policyPart (bb : McBackbone) (now : Nat) :
    (sessionGreet C p bb now).policyPart = bb.policyPart := by
  have hkeep : (sendSession C p bb bbTKeepalive []).policyPart = bb.policyPart :=
    sendSession_policyPart C p bb _ _
  unfold sessionGreet
  simp only
  generalize sendSession C p bb bbTKeepalive [] = b at hkeep ⊢
  split
  · exact (sendStatus_policyPart C p _ now).trans hkeep
  · exact hkeep

@[simp] theorem sendHello_policyPart (C : BbCrypto) (bb : McBackbone) (now : Nat) :
    (sendHello C p bb now).policyPart = bb.policyPart := by
  unfold sendHello
  simp only
  split
  · rfl
  · exact (sendRaw_policyPart p _ _).trans (policyPart_note _ rfl)

@[simp] theorem helloTimer_policyPart (C : BbCrypto) (bb : McBackbone) (now : Nat) :
    (helloTimer C p bb now).policyPart = bb.policyPart := by
  unfold helloTimer
  split
  · split
    · exact sendHello_policyPart p C bb now
    · rfl
  · rfl

@[simp] theorem serviceState_policyPart (C : BbCrypto) (bb : McBackbone) (now : Nat) (g : GaiState) :
    (serviceState C p bb now g).policyPart = bb.policyPart := by
  unfold serviceState
  split
  · split
    · have hnote : ((forgetSession bb).note (.attempt now)).policyPart = bb.policyPart :=
        policyPart_note _ rfl
      unfold startAttempt
      simp only
      split
      · exact hnote
      · exact hnote
    · rfl
  · unfold checkResolved
    split
    · rfl
    · rfl
    · simp only
      split
      · exact sendHello_policyPart p C _ now
      · rfl
  · rfl

@[simp] theorem onReset_policyPart (bb : McBackbone) (now : Nat) (d : Bytes) :
    (onReset C p bb now d).policyPart = bb.policyPart := by
  unfold onReset
  split
  · rfl
  simp only
  split
  · rfl
  split
  · rfl
  · exact policyPart_note (forgetSession bb) rfl

@[simp] theorem backboneClose_policyPart (bb : McBackbone) :
    (backboneClose C p bb).policyPart = bb.policyPart := by
  -- a BYE, if there is a session
  have hbye : (if bb.state = .up then sendSession C p bb bbTBye [bbByeShutdown] else bb).policyPart =
      bb.policyPart := by
    split
    · exact sendSession_policyPart C p bb _ _
    · rfl
  unfold backboneClose
  simp only
  generalize (if bb.state = .up then sendSession C p bb bbTBye [bbByeShutdown] else bb) = b at hbye ⊢
  split
  · exact hbye
  · exact hbye

end

/-! ## One configuration -/

/-- The mesh reads the configuration of the client. -/
def PolicyPart.Shared (b : PolicyPart) : Prop := ∀ c ∈ b.meshCfg, c = b.cfg

/-- The same part under another configuration, that of the mesh included. -/
def PolicyPart.withCfg (b : PolicyPart) (cfg : McConfig) : PolicyPart :=
  { b with cfg := cfg, meshCfg := b.meshCfg.map fun _ => cfg }

/-- One configuration for both is the one they share. -/
theorem PolicyPart.Shared.withCfg {b : PolicyPart} (h : b.Shared) : b.withCfg b.cfg = b := by
  have hmesh : b.meshCfg.map (fun _ => b.cfg) = b.meshCfg := by
    cases hcfg : b.meshCfg with
    | none => rfl
    | some c => rw [Option.map_some, h c hcfg]
  rw [PolicyPart.withCfg, hmesh]

/-- Set in both places at once, it is shared. -/
theorem PolicyPart.shared_withCfg (b : PolicyPart) (cfg : McConfig) : (b.withCfg cfg).Shared := by
  intro c hc
  rcases Option.map_eq_some_iff.mp hc with ⟨-, -, rfl⟩
  rfl

/-- The configuration after an input, where the hub's sets leave it alone. -/
def BbInput.cfgAfter (bb : McBackbone) : BbInput → McConfig
  | .configure cfg => cfg
  | .mesh _ y => if bb.mesh.isSome then y.cfgAfter bb.cfg else bb.cfg
  | _ => bb.cfg

/-- The mesh has run, with the configuration `cfg` in the end. -/
theorem meshRan_withCfg (C : Crypto) (p : BbHal) {bb : McBackbone} {m m' : McMesh} (hmesh : bb.mesh = some m) :
    (meshRan C p bb m').policyPart = bb.policyPart.withCfg m'.cfg := by
  rw [meshRan_policyPart]
  simp only [McBackbone.policyPart, PolicyPart.withCfg, McBackbone.setMesh, hmesh, Option.map_some]

/-- A frame from the hub runs the mesh, which keeps its configuration. -/
theorem handFrame_policyPart (C : Crypto) (p : BbHal) {bb : McBackbone} (h : bb.policyPart.Shared)
    (frame : Bytes) : (handFrame C p bb frame).1.policyPart = bb.policyPart := by
  unfold handFrame
  split
  · rfl
  · rename_i m hmesh
    -- the configuration of the mesh is the one shared
    have hsame : m.cfg = bb.cfg := h m.cfg (by simp [McBackbone.policyPart, hmesh])
    have hcfg : (meshOnBackbone C p.toHal m.clearEvents frame).1.cfg = m.cfg :=
      Input.run_cfg C m.clearEvents (.backbone p.toHal frame)
    simp only
    rw [meshRan_withCfg C p hmesh, hcfg, hsame]
    exact h.withCfg

/-- A FRAME may be limited or handed over; the collection is no concern of it. -/
theorem onFrame_policyPart (C : Crypto) (R : Reading) (p : BbHal) {bb : McBackbone} (h : bb.policyPart.Shared) (now : Nat)
    (body : Bytes) : (onFrame C R p bb now body).policyPart = bb.policyPart := by
  unfold onFrame
  split
  · rfl
  simp only
  split
  · exact backboneObserve_policyPart C p _ _ _ _ _ _
  · generalize hpaid : ((bb.setTokens (refill R bb now) now).setTokens _ now).note _ = b
    have hb : b.policyPart = bb.policyPart := by
      rw [← hpaid]
      exact policyPart_note _ rfl
    have hb' : b.policyPart.Shared := hb ▸ h
    have hhand := handFrame_policyPart C p hb' ((body.drop 10).take (body.getD 1 0).toNat)
    split
    · exact hhand.trans hb
    · rw [backboneObserve_policyPart]
      exact hhand.trans hb

/-! ## One input -/

/-- The page in a session datagram that `on_session` takes, unless POLICY is opted out of:
number and body. -/
def sessionPage (C : Crypto) (bb : McBackbone) (d : Bytes) : Option (UInt32 × Bytes) :=
  if bb.state ≠ .up ∨ d.length < bbHdr + bbMac ∨ rdU32le (d.drop 4) ≠ bb.sid then none
  else
    match bbOpen C d bb.kDown.bytes with
    | .error _ => none
    | .ok s =>
      if (bbReplayCheck bb.rwin s.seq).1 = true ∧ s.type = bbTPolicy ∧ bb.cfg.backbonePolicy = true then
        some (s.seq, s.body)
      else none

/-- The page in any datagram. -/
def datagramPage (C : Crypto) (bb : McBackbone) (d : Bytes) : Option (UInt32 × Bytes) :=
  if bb.fd = true ∧ 4 ≤ d.length ∧ d.length ≤ bbMaxDgram ∧ magicOk d = true ∧
      0x20 ≤ d.getD 3 0 ∧ d.getD 3 0 ≤ 0x2F then sessionPage C bb d
  else none

/-- The page that an input hands to `on_policy`. -/
def policyPage (C : BbCrypto) (bb : McBackbone) : BbInput → Option (UInt32 × Bytes)
  | .datagram _ _ d => datagramPage C.toCrypto bb d
  | _ => none

/-- Those of a run, in order. -/
def policyPages (C : BbCrypto) : McBackbone → List BbInput → List (UInt32 × Bytes)
  | _, [] => []
  | bb, x :: xs => (policyPage C bb x).toList ++ policyPages C (bbStep C bb x) xs

/-- A page, or nothing that concerns the collection. -/
inductive PageStep (C : Crypto) (bb bb' : McBackbone) (b : PolicyPart) : Option (UInt32 × Bytes) → Prop
  | aside (h : bb'.policyPart = b) : PageStep C bb bb' b none
  | page {bb₀ : McBackbone} (seq : UInt32) (body : Bytes) (h₀ : bb₀.policyPart = bb.policyPart)
      (hon : bb.cfg.backbonePolicy = true) (h : bb' = onPolicy C bb₀ seq body) :
      PageStep C bb bb' b (some (seq, body))

section
variable {C : BbCrypto} {p : BbHal} {bb : McBackbone} {now : Nat}

/-- A session datagram: refused ones, other bodies and an opted-out POLICY leave the collection
alone. -/
theorem onSession_pageStep (hshared : bb.policyPart.Shared) (d : Bytes) :
    PageStep C.toCrypto bb (onSession C.toCrypto C.reading p bb now d) bb.policyPart
      (sessionPage C.toCrypto bb d) := by
  unfold onSession sessionPage
  by_cases hbad : bb.state ≠ .up ∨ d.length < bbHdr + bbMac ∨ rdU32le (d.drop 4) ≠ bb.sid
  · rw [if_pos hbad, if_pos hbad]
    exact .aside rfl
  rw [if_neg hbad, if_neg hbad]
  -- the tag decides, then the replay window
  cases bbOpen C.toCrypto d bb.kDown.bytes with
  | error _ => exact .aside rfl
  | ok s =>
  simp only
  rcases hcheck : bbReplayCheck bb.rwin s.seq with ⟨ok, rwin⟩
  cases ok with
  | false =>
    rw [if_neg (by simp)]
    exact .aside rfl
  | true =>
  by_cases hpolicy : s.type = bbTPolicy
  · have hbody : onBody C.toCrypto C.reading p (bb.heard s.seq rwin now) now s =
        onPolicy C.toCrypto (bb.heard s.seq rwin now) s.seq s.body := by
      unfold onBody
      rw [if_neg (by rw [hpolicy]; decide), if_neg (by rw [hpolicy]; decide), if_pos hpolicy]
    simp only
    rw [hbody]
    by_cases hon : bb.cfg.backbonePolicy = true
    · rw [if_pos ⟨trivial, hpolicy, hon⟩]
      have hheard : (bb.heard s.seq rwin now).policyPart = bb.policyPart := rfl
      exact .page s.seq s.body hheard hon rfl
    · -- opted out
      rw [if_neg fun h => hon h.2.2]
      have hoff : (bb.heard s.seq rwin now).cfg.backbonePolicy = false := Bool.eq_false_iff.mpr hon
      unfold onPolicy
      rw [if_pos hoff]
      exact .aside rfl
  -- another body: FRAME, BYE and what is unknown
  · rw [if_neg fun h => hpolicy h.2.1]
    simp only
    unfold onBody
    split
    · exact .aside rfl
    split
    · have hheard : (bb.heard s.seq rwin now).policyPart.Shared := hshared
      exact .aside (onFrame_policyPart C.toCrypto C.reading p hheard now s.body)
    split
    · unfold onByeDown
      split
      · exact .aside rfl
      · exact .aside rfl
    · exact .aside rfl

/-- Any datagram: the other kinds do not touch the collection in a session. -/
theorem readTurn_pageStep (hshared : bb.policyPart.Shared) (hup : bb.state = .up) (d : Bytes) :
    PageStep C.toCrypto bb (readTurn C p now bb d) bb.policyPart (datagramPage C.toCrypto bb d) := by
  unfold readTurn datagramPage
  by_cases hfd : bb.fd = true
  swap
  · rw [if_neg fun h => hfd h.2, if_neg fun h => hfd h.1]
    exact .aside rfl
  rw [if_pos ⟨by rw [hup]; decide, hfd⟩]
  unfold readDatagram
  -- the checks on any datagram
  by_cases hhead : bbMaxDgram < (recvd d).length ∨ (recvd d).length < 4 ∨ magicOk (recvd d) = false
  · rw [if_pos hhead, if_neg]
    · exact .aside rfl
    · rintro ⟨-, hmin, hmax, hmagic, -⟩
      have hwhole : recvd d = d := List.take_of_length_le (Nat.le_succ_of_le hmax)
      rw [hwhole, hmagic] at hhead
      rcases hhead with hlong | hshort | hother
      · exact absurd hmax (not_le.mpr hlong)
      · exact absurd hmin (not_le.mpr hshort)
      · cases hother
  rw [if_neg hhead]
  have hwhole : recvd d = d := recvd_eq (by
    by_contra hlong
    exact hhead (.inl (not_le.mp hlong)))
  rw [hwhole] at hhead ⊢
  simp only [not_or, not_lt, Bool.not_eq_false] at hhead
  rcases hhead with ⟨hmax, hmin, hmagic⟩
  -- a WELCOME is ignored in a session
  by_cases hwelcome : d.getD 3 0 = bbTWelcome
  · rw [if_pos hwelcome, if_neg (fun h => absurd h.2.2.2.2.1 (by rw [hwelcome]; decide))]
    unfold onWelcome
    rw [if_pos (by rw [hup]; decide)]
    exact .aside rfl
  rw [if_neg hwelcome]
  -- a RESET ends the session, the collection stays until the next
  by_cases hreset : d.getD 3 0 = bbTReset
  · rw [if_pos hreset, if_neg (fun h => absurd h.2.2.2.2.1 (by rw [hreset]; decide))]
    exact .aside (onReset_policyPart C.toCrypto p bb now d)
  rw [if_neg hreset]
  by_cases htype : 0x20 ≤ d.getD 3 0 ∧ d.getD 3 0 ≤ 0x2F
  · rw [if_pos htype, if_pos ⟨hfd, hmin, hmax, hmagic, htype⟩]
    exact onSession_pageStep hshared d
  · rw [if_neg htype, if_neg fun h => htype h.2.2.2.2]
    exact .aside rfl

/-- In a session every input but a page leaves the collection alone; the configuration may
change. -/
theorem bbStep_pageStep (hshared : bb.policyPart.Shared) (hup : bb.state = .up) (x : BbInput) :
    PageStep C.toCrypto bb (bbStep C bb x) (bb.policyPart.withCfg (x.cfgAfter bb)) (policyPage C bb x) := by
  have hsame : ∀ {bb' : McBackbone}, bb'.policyPart = bb.policyPart →
      PageStep C.toCrypto bb bb' (bb.policyPart.withCfg bb.cfg) none := by
    intro bb' h
    exact .aside (h.trans hshared.withCfg.symm)
  cases x with
  | state p now g => exact hsame (serviceState_policyPart p C bb now g)
  | datagram p now d =>
    have hcfg : bb.policyPart.withCfg bb.cfg = bb.policyPart := hshared.withCfg
    show PageStep C.toCrypto bb (readTurn C p now bb d) (bb.policyPart.withCfg bb.cfg) _
    rw [hcfg]
    exact readTurn_pageStep hshared hup d
  | timers p now =>
    exact hsame ((sessionTimers_policyPart C.toCrypto p _ now).trans (helloTimer_policyPart p C bb now))
  | observe p frame rssi snrQ disposition =>
    exact hsame (backboneObserve_policyPart C.toCrypto p bb frame rssi snrQ 0 disposition)
  | mesh p y =>
    -- without a mesh the input does nothing
    cases hmesh : bb.mesh with
    | none =>
      have hstep : bbStep C bb (.mesh p y) = bb := by simp only [bbStep, hmesh]
      have hcfg : BbInput.cfgAfter bb (.mesh p y) = bb.cfg := by simp [BbInput.cfgAfter, hmesh]
      rw [hstep, hcfg]
      exact hsame rfl
    | some m =>
      have hstep : bbStep C bb (.mesh p y) = meshRan C.toCrypto p bb (step C.toCrypto m y) := by
        simp only [bbStep, hmesh]
      have hcfg : BbInput.cfgAfter bb (.mesh p y) = y.cfgAfter bb.cfg := by simp [BbInput.cfgAfter, hmesh]
      -- the two configurations are one, so the mesh's is the one that stays
      have hmine : m.cfg = bb.cfg := hshared m.cfg (by simp [McBackbone.policyPart, hmesh])
      have hafter : (step C.toCrypto m y).cfg = y.cfgAfter bb.cfg := by
        rw [← hmine]
        exact Input.run_cfg C.toCrypto m.clearEvents y
      rw [hstep, hcfg]
      exact .aside ((meshRan_withCfg C.toCrypto p hmesh).trans (by rw [hafter]))
  | offer p frame own => exact hsame (backboneOffer_policyPart C.toCrypto p bb frame own)
  | statusSoon => exact hsame (backboneStatusSoon_policyPart bb)
  | configure cfg =>
    refine .aside ?_
    -- client and mesh get it together
    have hmap : (bb.mesh.map fun m => { m with cfg := cfg }).map McMesh.cfg = bb.mesh.map fun _ => cfg := by
      rw [Option.map_map]
      rfl
    show (bb.setCfg cfg).policyPart = bb.policyPart.withCfg cfg
    simp only [McBackbone.policyPart, McBackbone.setCfg, PolicyPart.withCfg, hmap, Option.map_map]
    rfl
  | close p => exact hsame (backboneClose_policyPart C.toCrypto p bb)

end

/-! ## A session begins -/

section
variable {C : BbCrypto} {p : BbHal} {bb : McBackbone} {now : Nat}

/-- The collection of a new session: empty, and nothing completed. -/
def PolicyPart.fresh (b : PolicyPart) : PolicyPart := { b with polPages := 0, polAppliedSeq := 0 }

/-- Outside a session a datagram changes nothing, or is the WELCOME that starts one. -/
theorem readTurn_down (hdown : bb.state ≠ .up) (d : Bytes) :
    ((readTurn C p now bb d).policyPart = bb.policyPart ∧ (readTurn C p now bb d).state ≠ .up) ∨
      (readTurn C p now bb d).policyPart = bb.policyPart.fresh := by
  unfold readTurn
  split
  swap
  · exact .inl ⟨rfl, hdown⟩
  unfold readDatagram
  split
  · exact .inl ⟨rfl, hdown⟩
  split
  · unfold onWelcome
    split
    · exact .inl ⟨rfl, hdown⟩
    split
    · exact .inl ⟨rfl, hdown⟩
    split
    · exact .inl ⟨rfl, hdown⟩
    · rename_i w _ _ keys _
      -- the collection is emptied with the new keys
      right
      rw [sessionGreet_policyPart]
      have hnote : ∀ d, (bb.note (.welcome d)).policyPart = bb.policyPart := fun d => policyPart_note bb rfl
      have hfresh : (sessionUp bb now (recvd d) w keys).policyPart =
          (bb.note (.welcome (recvd d))).policyPart.fresh := rfl
      rw [hfresh, hnote]
  split
  · unfold onReset
    rw [if_pos (.inl hdown)]
    exact .inl ⟨rfl, hdown⟩
  split
  · unfold onSession
    rw [if_pos (.inl hdown)]
    exact .inl ⟨rfl, hdown⟩
  · exact .inl ⟨rfl, hdown⟩

/-- A completed set changes the configuration of client and mesh together. -/
theorem onPolicy_shared (h : bb.policyPart.Shared) (seq : UInt32) (body : Bytes) :
    (onPolicy C.toCrypto bb seq body).policyPart.Shared := by
  have hsame : ∀ {b : McBackbone}, b.cfg = bb.cfg → b.mesh = bb.mesh → b.policyPart.Shared := by
    intro b hcfg hmesh c hc
    have hcfg' : b.policyPart.cfg = bb.policyPart.cfg := hcfg
    rw [hcfg']
    refine h c ?_
    simpa only [McBackbone.policyPart, hmesh] using hc
  unfold onPolicy
  split
  · exact h
  split
  · exact h
  simp only
  split
  · exact h
  split
  · exact h
  split
  · exact h
  rename_i b hcollect
  -- collecting changes neither the configuration nor the mesh
  have hfor : b.cfg = bb.cfg ∧ b.mesh = bb.mesh := by
    unfold collectFor at hcollect
    simp only at hcollect
    split at hcollect
    · cases hcollect
      exact ⟨rfl, rfl⟩
    split at hcollect
    · split at hcollect
      · cases hcollect
      · cases hcollect
        exact ⟨rfl, rfl⟩
    · cases hcollect
      exact ⟨rfl, rfl⟩
  split
  · exact hsame hfor.1 hfor.2
  split
  · exact hsame hfor.1 hfor.2
  -- the set is complete: `config_set_policy`, then the copy to the mesh
  · unfold applySet
    simp only [backboneStatusSoon_policyPart]
    split
    · intro c hc
      have hset : ∀ {o : Option McMesh} {cfg : McConfig},
          c ∈ (o.map fun m => { m with cfg := cfg }).map McMesh.cfg → c = cfg := by
        intro o cfg hc
        rcases o with - | m
        · cases hc
        · cases hc
          rfl
      exact hset hc
    · exact hsame hfor.1 hfor.2

/-- The configuration stays one, whatever happens. -/
theorem bbStep_shared (h : bb.policyPart.Shared) (x : BbInput) : (bbStep C bb x).policyPart.Shared := by
  -- in a session by the page step, outside input by input
  by_cases hup : bb.state = .up
  · have hstep := bbStep_pageStep (C := C) h hup x
    generalize policyPage C bb x = page at hstep
    cases hstep with
    | aside hpart =>
      rw [hpart]
      exact PolicyPart.shared_withCfg _ _
    | page seq body h₀ _ hpage =>
      rw [hpage]
      exact onPolicy_shared (h₀ ▸ h) seq body
  · cases x with
    | state p now g => exact (serviceState_policyPart p C bb now g) ▸ h
    | datagram p now d =>
      show (readTurn C p now bb d).policyPart.Shared
      rcases @readTurn_down C p bb now hup d with ⟨hpart, -⟩ | hpart
      · rw [hpart]
        exact h
      · rw [hpart]
        exact h
    | timers p now =>
      show (sessionTimers C.toCrypto p (helloTimer C p bb now) now).policyPart.Shared
      rw [sessionTimers_policyPart, helloTimer_policyPart]
      exact h
    | observe p frame rssi snrQ disposition =>
      show (backboneObserve C.toCrypto p bb frame rssi snrQ 0 disposition).policyPart.Shared
      rw [backboneObserve_policyPart]
      exact h
    | mesh p y =>
      cases hmesh : bb.mesh with
      | none =>
        have hstep : bbStep C bb (.mesh p y) = bb := by simp only [bbStep, hmesh]
        rw [hstep]
        exact h
      | some m =>
        have hstep : bbStep C bb (.mesh p y) = meshRan C.toCrypto p bb (step C.toCrypto m y) := by
          simp only [bbStep, hmesh]
        rw [hstep, meshRan_withCfg C.toCrypto p hmesh]
        exact PolicyPart.shared_withCfg _ _
    | offer p frame own =>
      show (backboneOffer C.toCrypto p bb frame own).policyPart.Shared
      rw [backboneOffer_policyPart]
      exact h
    | statusSoon =>
      show (backboneStatusSoon bb).policyPart.Shared
      rw [backboneStatusSoon_policyPart]
      exact h
    | configure cfg =>
      intro c hc
      cases hmesh : bb.mesh with
      | none => simp [bbStep, McBackbone.policyPart, McBackbone.setCfg, hmesh] at hc
      | some m =>
        simp only [bbStep, McBackbone.policyPart, McBackbone.setCfg, hmesh, Option.map_some,
          Option.mem_some_iff] at hc
        exact hc.symm
    | close p =>
      show (backboneClose C.toCrypto p bb).policyPart.Shared
      rw [backboneClose_policyPart]
      exact h

/-- The client starts with the configuration it hands to the mesh. -/
theorem shared_of_reachable (h : BbReachable C bb) : bb.policyPart.Shared := by
  rcases h with ⟨cfg, id, mesh, now, xs, rfl⟩
  refine Runs.run_invariant (fun bb : McBackbone => bb.policyPart.Shared) ?_ ?_ xs
  · intro s x hs
    exact bbStep_shared hs x
  -- before anything else is set up
  · have hblank : (McBackbone.blank cfg id mesh).policyPart.Shared := by
      intro c hc
      cases mesh with
      | none => cases hc
      | some m =>
        cases hc
        rfl
    unfold backboneInit
    simp only
    split
    · exact hblank
    split
    · exact hblank
    split
    · exact hblank
    · exact hblank

/-- A session begins with an empty collection. -/
theorem fresh_of_comesUp (hdown : bb.state ≠ .up) {x : BbInput} (hup : (bbStep C bb x).state = .up) :
    (bbStep C bb x).policyPart = bb.policyPart.fresh := by
  rcases (bbStep_move C bb x).comesUp hdown hup with ⟨p, now, d, w, keys, rfl, -⟩
  rcases @readTurn_down C p bb now hdown d with ⟨-, hstate⟩ | hfresh
  · exact absurd hup hstate
  · exact hfresh

/-! ## A session feeds its receiver -/

/-- A step inside a session that no setting of the hub's sets comes with. -/
structure InSession (C : BbCrypto) (bb : McBackbone) (x : BbInput) : Prop where
  stays : (bbStep C bb x).state = .up
  policy : (x.cfgAfter bb).policy = bb.cfg.policy

/-- One step feeds the receiver the page it reads, or nothing. -/
theorem shows_step {before : List McPolicy} {r : Receiver UInt32 Bytes} (h : Shows before bb.policyPart r)
    (hshared : bb.policyPart.Shared) (hup : bb.state = .up) {x : BbInput} (hx : InSession C bb x) :
    Shows before (bbStep C bb x).policyPart
      (((policyPage C bb x).toList.filterMap fun d => partOf d.1 d.2).foldl Receiver.take r) := by
  have hstep := bbStep_pageStep (C := C) hshared hup x
  generalize policyPage C bb x = page at hstep
  cases hstep with
  | aside hpart =>
    rw [hpart]
    have hversion : (x.cfgAfter bb).policy.version = bb.cfg.policy.version := by rw [hx.policy]
    exact ⟨hversion.trans h.inForce, h.floor, h.sets, h.none,
      fun q hq => { h.collecting q hq with }⟩
  | @page bb₀ seq body h₀ hon hpage =>
    rw [hpage]
    -- the page is taken under the switch as it was
    have hon₀ : bb₀.cfg.backbonePolicy = true := (congrArg (fun b => b.cfg.backbonePolicy) h₀).trans hon
    have hshows := onPolicy_shows (C := C.toCrypto) (h₀ ▸ h) hon₀ seq body
    cases hpart : partOf seq body with
    | none =>
      rw [hpart] at hshows
      simpa [hpart] using hshows
    | some q =>
      rw [hpart] at hshows
      simpa [hpart] using hshows

/-- A session feeds the receiver its pages in order. -/
theorem shows_run {before : List McPolicy} {r : Receiver UInt32 Bytes} (h : Shows before bb.policyPart r)
    (hshared : bb.policyPart.Shared) (hup : bb.state = .up) {xs : List BbInput}
    (hxs : Runs.Every (bbStep C) (InSession C) bb xs) :
    Shows before (bbRun C bb xs).policyPart
      (((policyPages C bb xs).filterMap fun d => partOf d.1 d.2).foldl Receiver.take r) := by
  induction xs generalizing bb r with
  | nil => exact h
  | cons x xs ih =>
    rcases hxs with ⟨hx, hrest⟩
    have hstep := ih (shows_step h hshared hup hx) (bbStep_shared hshared x) hx.stays hrest
    rw [policyPages, List.filterMap_append, List.foldl_append]
    exact hstep

end

/-! ## What the hub sends -/

/-- One set of the hub, and the datagrams it sends of it: number and page. -/
structure HubTurn where
  version : UInt32
  pages : List Bytes
  pagesLe : pages.length < 256
  sends : List (UInt32 × Fin pages.length)

/-- The POLICY body of one page. -/
def HubTurn.body (t : HubTurn) (i : Fin t.pages.length) : Bytes :=
  wrU32le t.version ++ [UInt8.ofNat (i + 1), UInt8.ofNat t.pages.length] ++ t.pages[i]

/-- The datagrams of the turn, as number and body. -/
def HubTurn.sent (t : HubTurn) : List (UInt32 × Bytes) := t.sends.map fun s => (s.1, t.body s.2)

/-- The values of a kind that the set means. -/
def HubTurn.values (t : HubTurn) (k : PageKind) : List Bytes := t.pages.flatMap k.onPage

/-- The set as the collector sees it. -/
def HubTurn.whole (t : HubTurn) : Whole UInt32 Bytes := ⟨t.version, t.pages⟩

/-- The hub sends its sets in order, under rising numbers, and uses no version twice. -/
structure HubOrder (hub : List HubTurn) : Prop where
  versions : (hub.map HubTurn.version).Nodup
  numbers : (hub.flatMap HubTurn.sent).Pairwise fun d d' => d.1 < d'.1

/-- What is collected of a datagram of the turn is the part it was made from. -/
theorem HubTurn.partOf_sent {t : HubTurn} {d : UInt32 × Bytes} (hd : d ∈ t.sent) {q : Part UInt32 Bytes}
    (hq : partOf d.1 d.2 = some q) :
    q.seq = d.1.toNat ∧ q.IsPartOf t.whole ∧ ∃ i : Fin t.pages.length, q.index = i ∧ d.2 = t.body i := by
  rcases List.mem_map.mp hd with ⟨⟨seq, i⟩, -, rfl⟩
  have hversion : rdU32le (t.body i) = t.version := by
    rw [HubTurn.body, List.append_assoc, rdU32le_wrU32le]
  have hpage : (t.body i).getD 4 0 = UInt8.ofNat (i + 1) := rfl
  have hpages : (t.body i).getD 5 0 = UInt8.ofNat t.pages.length := rfl
  have hentries : (t.body i).drop 6 = t.pages[i] := rfl
  have hi := i.isLt
  have hle := t.pagesLe
  have hindex : (UInt8.ofNat (i + 1)).toNat = i + 1 := UInt8.toNat_ofNat_of_lt' (by simp only [UInt8.size]; omega)
  have hcount : (UInt8.ofNat t.pages.length).toNat = t.pages.length :=
    UInt8.toNat_ofNat_of_lt' (by simp only [UInt8.size]; omega)
  unfold partOf at hq
  simp only [hversion, hpage, hpages, hentries, hindex, hcount] at hq
  split at hq
  · cases hq
  split at hq
  · cases hq
  cases hq
  -- pages count from one on the wire
  refine ⟨rfl, ⟨rfl, rfl, ?_⟩, i, rfl, rfl⟩
  show t.pages[i.val + 1 - 1]? = some t.pages[i]
  rw [Nat.add_sub_cancel]
  exact List.getElem?_eq_getElem hi

/-- A hub that sends in order is a sender. -/
theorem HubOrder.sender {hub : List HubTurn} (h : HubOrder hub) :
    Sender (hub.map HubTurn.whole) fun q => ∃ d ∈ hub.flatMap HubTurn.sent, partOf d.1 d.2 = some q := by
  have hversions : (hub.map HubTurn.whole).map Whole.version = hub.map HubTurn.version := by
    rw [List.map_map]
    rfl
  constructor
  · rw [hversions]
    exact h.versions
  · rintro q ⟨d, hd, hq⟩
    rcases List.mem_flatMap.mp hd with ⟨t, ht, hsent⟩
    exact ⟨t.whole, List.mem_map_of_mem ht, (t.partOf_sent hsent hq).2.1⟩
  · rintro q q' ⟨d, hd, hq⟩ ⟨d', hd', hq'⟩ hplace
    rcases List.mem_flatMap.mp hd with ⟨t, ht, hsent⟩
    rcases List.mem_flatMap.mp hd' with ⟨t', ht', hsent'⟩
    rcases t.partOf_sent hsent hq with ⟨hseq, hpart, -⟩
    rcases t'.partOf_sent hsent' hq' with ⟨hseq', hpart', -⟩
    rcases List.mem_iff_getElem.mp ht with ⟨i, hi, rfl⟩
    rcases List.mem_iff_getElem.mp ht' with ⟨j, hj, rfl⟩
    -- a version's place is its turn's
    have hat : ∀ (k : Nat) (hk : k < hub.length), place (hub.map HubTurn.whole) hub[k].version = k := by
      intro k hk
      have hk' : k < (hub.map HubTurn.version).length := by rwa [List.length_map]
      have hget : hub[k].version = (hub.map HubTurn.version)[k] := by simp
      rw [place, hversions, hget, h.versions.idxOf_getElem]
    have hversion : q.version = hub[i].version := hpart.version
    have hversion' : q'.version = hub[j].version := hpart'.version
    rw [hversion, hversion', hat i hi, hat j hj] at hplace
    -- the turns are apart, and so are their numbers
    have hturns := (List.pairwise_flatMap.mp h.numbers).2
    rw [hseq, hseq']
    exact List.pairwise_iff_getElem.mp hturns i j hi hj hplace d hsent d' hsent'

/-! ## Whole sets, in order -/

/-- What a call of `config_set_policy` in a session was given: a set of the hub, all pages of
which were received in it. -/
structure WholeSet (received : List (UInt32 × Bytes)) (t : HubTurn) (p : McPolicy) : Prop where
  version : p.version = t.version
  received : ∀ i : Fin t.pages.length, ∃ d ∈ received, d.2 = t.body i
  rooms : (t.values .rooms).length ≤ mcPolicyMaxRooms → p.rooms.Perm (t.values .rooms)
  names : (t.values .names).length ≤ mcPolicyMaxBlocks → p.names.Perm (t.values .names)
  keys : (t.values .keys).length ≤ mcPolicyMaxBlocks → p.keys.Perm (t.values .keys)

/-- Adding entries leaves the version. -/
theorem policyOf_version (version : UInt32) {pages : List Bytes} (h : ∀ e ∈ pages, (pageEntries e).isSome) :
    (policyOf version pages).version = version := by
  have hfold : ∀ (pages : List Bytes) (p : McPolicy), (∀ e ∈ pages, (pageEntries e).isSome) →
      (pages.foldl McPolicy.addPage p).version = p.version := by
    intro pages
    induction pages with
    | nil => intro p _; rfl
    | cons e pages ih =>
      intro p hpages
      rw [List.foldl_cons, ih _ fun e' he' => hpages e' (List.mem_cons_of_mem e he')]
      exact addPage_version (hpages e List.mem_cons_self) p
  exact hfold pages _ h

/-- The values of a set from pages in any order. -/
theorem policyOf_values (k : PageKind) {pages arrived : List Bytes} (hempty : k.list .empty = [])
    (hlist : ∀ version, k.list { McPolicy.empty with version := version } = k.list .empty)
    (hpages : ∀ e ∈ arrived, (pageEntries e).isSome) (hperm : arrived.Perm pages) (version : UInt32)
    (hmax : (pages.flatMap k.onPage).length ≤ k.max) :
    (k.list (policyOf version arrived)).Perm (pages.flatMap k.onPage) := by
  have hvalues := hperm.flatMap_right k.onPage
  have hnone : k.list { McPolicy.empty with version := version } = [] := (hlist version).trans hempty
  rw [policyOf, k.addPages _ hpages (by rw [hnone]; exact Nat.zero_le _), hnone, List.nil_append,
    List.take_of_length_le (by rw [hvalues.length_eq]; exact hmax)]
  exact hvalues

/-- A page is collected only if its entries can be walked. -/
theorem partOf_wellFormed {seq : UInt32} {body : Bytes} {q : Part UInt32 Bytes}
    (h : partOf seq body = some q) : (pageEntries q.content).isSome := by
  unfold partOf at h
  simp only at h
  split at h
  · cases h
  split at h
  · cases h
  rename_i hfields
  cases h
  simp only [not_or, Bool.not_eq_false] at hfields
  rw [← policyWalk_check]
  exact hfields.2.2.2.2.2

/-- In one session with a hub that sends its sets in order, whatever of it arrives and in
whatever order: the versions `config_set_policy` is called with follow the hub's order
without repeats, and each call gets a whole set, all pages of which were received. -/
theorem policySets_inOrder (C : BbCrypto) {hub : List HubTurn} (hhub : HubOrder hub) {bb : McBackbone}
    (hreach : BbReachable C bb) (hdown : bb.state ≠ .up) {x : BbInput} (hup : (bbStep C bb x).state = .up)
    {xs : List BbInput} (hxs : Runs.Every (bbStep C) (InSession C) (bbStep C bb x) xs)
    (hsent : ∀ d ∈ policyPages C (bbStep C bb x) xs, d ∈ hub.flatMap HubTurn.sent) :
    ∃ sets, policiesOf (bbRun C (bbStep C bb x) xs).log = policiesOf (bbStep C bb x).log ++ sets ∧
      (sets.map McPolicy.version).Sublist (hub.map HubTurn.version) ∧
      ∀ p ∈ sets, ∃ t ∈ hub, WholeSet (policyPages C (bbStep C bb x) xs) t p := by
  have hshared := bbStep_shared (C := C) (shared_of_reachable hreach) x
  have hfresh := fresh_of_comesUp hdown hup
  generalize bbStep C bb x = bb₁ at hup hxs hsent hshared hfresh ⊢
  -- the receiver starts empty, as the session does
  have hstart : Shows (policiesOf bb₁.log) bb₁.policyPart (.start bb₁.cfg.policy.version) := by
    have hzero : bb₁.policyPart.polPages = 0 ∧ bb₁.policyPart.polAppliedSeq = 0 := by
      rw [hfresh]
      exact ⟨rfl, rfl⟩
    refine ⟨rfl, by rw [hzero.2]; rfl, ?_, fun _ => hzero.1, by nofun⟩
    simp [Receiver.start, McBackbone.policyPart]
  have hshows := shows_run hstart hshared hup hxs
  generalize harrived : ((policyPages C bb₁ xs).filterMap fun d => partOf d.1 d.2) = arrived at hshows
  have hgenuine : ∀ q ∈ arrived, ∃ d ∈ policyPages C bb₁ xs, partOf d.1 d.2 = some q := by
    intro q hq
    rw [← harrived] at hq
    exact List.mem_filterMap.mp hq
  have hfrom : ∀ q ∈ arrived, ∃ d ∈ hub.flatMap HubTurn.sent, partOf d.1 d.2 = some q := by
    intro q hq
    rcases hgenuine q hq with ⟨d, hd, hpart⟩
    exact ⟨d, hsent d hd, hpart⟩
  -- what the collector says of a sender
  rcases installed_of_run hhub.sender bb₁.cfg.policy.version hfrom with ⟨horder, hwhole⟩
  generalize arrived.foldl Receiver.take (.start bb₁.cfg.policy.version) = r at hshows horder hwhole
  -- each whole is a turn of the hub, read in full
  have hset : ∀ c ∈ r.installed, (policyOf c.version c.contents).version = c.version ∧
      ∃ t ∈ hub, WholeSet (policyPages C bb₁ xs) t (policyOf c.version c.contents) := by
    intro c hc
    rcases hwhole c hc with ⟨w, hw, hversion, hparts, hperm⟩
    rcases List.mem_map.mp hw with ⟨t, ht, rfl⟩
    have hpage : ∀ i : Fin t.pages.length, (∃ d ∈ policyPages C bb₁ xs, d.2 = t.body i) ∧
        (pageEntries t.pages[i]).isSome := by
      intro i
      rcases hparts i i.isLt with ⟨q, hq, hpart, hindex⟩
      rcases hgenuine q hq with ⟨d, hd, hpartOf⟩
      rcases List.mem_flatMap.mp (hsent d hd) with ⟨t', ht', hsent'⟩
      rcases t'.partOf_sent hsent' hpartOf with ⟨-, hpart', i', hindex', hbody⟩
      -- the version names the turn
      have hturn : t' = t := List.inj_on_of_nodup_map hhub.versions ht' ht
        (hpart'.version.symm.trans hpart.version)
      subst hturn
      have hi : i' = i := Fin.ext (hindex'.symm.trans hindex)
      have hcontent : t'.pages[q.index]? = some q.content := hpart.content
      rw [hindex, List.getElem?_eq_getElem i.isLt] at hcontent
      refine ⟨⟨d, hd, hi ▸ hbody⟩, ?_⟩
      rw [show t'.pages[i] = q.content from Option.some.inj hcontent]
      exact partOf_wellFormed hpartOf
    have hpages : ∀ e ∈ c.contents, (pageEntries e).isSome := by
      intro e he
      rcases List.mem_iff_getElem.mp (hperm.mem_iff.mp he) with ⟨i, hi, rfl⟩
      exact (hpage ⟨i, hi⟩).2
    have hnamed := policyOf_version c.version hpages
    refine ⟨hnamed, t, ht, hnamed.trans hversion.symm, fun i => (hpage i).1, ?_, ?_, ?_⟩
    · exact policyOf_values .rooms rfl (fun _ => rfl) hpages hperm c.version
    · exact policyOf_values .names rfl (fun _ => rfl) hpages hperm c.version
    · exact policyOf_values .keys rfl (fun _ => rfl) hpages hperm c.version
  -- the sets that were applied are those the receiver installed
  have hsets : policiesOf (bbRun C bb₁ xs).log = policiesOf bb₁.log ++
      r.installed.map fun c => policyOf c.version c.contents := hshows.sets
  refine ⟨_, hsets, ?_, ?_⟩
  · have hversions : (r.installed.map fun c => policyOf c.version c.contents).map McPolicy.version =
        r.installed.map Collection.version := by
      rw [List.map_map]
      refine List.map_congr_left ?_
      intro c hc
      exact (hset c hc).1
    rw [hversions]
    rw [List.map_map] at horder
    exact horder
  · intro p hp
    rcases List.mem_map.mp hp with ⟨c, hc, rfl⟩
    exact (hset c hc).2

/-! ## Two pages in bytes -/

/-- The transcript hash of this handshake. -/
def policyTh : Bytes := bytesBE 32 0x84ab9b48418e6aff1bb319725d8220e492ffd9db442b907e2cf9b18317ad6d4e

/-- The key it gives for the way to the hub. -/
def policyKUp : Bytes := bytesBE 32 0x80ee821a1e679cde93af67edc50504c27ae7490d117393c3ee6168b128060300

/-- And for the way back. -/
def policyKDown : Bytes := bytesBE 32 0x0f1b10ce152a5c1ca4e6dd6911232d951a74e48ffd898de627a09296c17b731d

/-- A room on the first page, a block on the second. -/
def roomAndBlock : HubTurn where
  version := 5
  pages := [[1, 3] ++ lit "#on", [2, 4] ++ lit "spam"]
  pagesLe := by decide
  sends := [(1, 0), (2, 1)]

/-- A POLICY datagram without its tag. -/
def policyHead (seq : UInt32) (i : Fin 2) : Bytes := sessionHead bbTPolicy 7 seq (roomAndBlock.body i)

/-- The hashes of the handshake, the keys, the two pages and the room. -/
def policyDigests : List (Bytes × Bytes) :=
  [(pairHello, pairHelloHash.bytes), (pairHello ++ pairWelcome, policyTh)] ++
    macDigests pairSecret.bytes (bbLblUp ++ policyTh)
      (bytesBE 32 0x468564c9a2bc96ffb5070dd274562fd54376876205b757a8d92be61437352b50) policyKUp ++
    macDigests pairSecret.bytes (bbLblDown ++ policyTh)
      (bytesBE 32 0xdf5163ac94b659bd391b25786651f4b4a07e9a859129c23752a97c00808134f3) policyKDown ++
    macDigests policyKUp (sessionHead bbTKeepalive 7 1 [])
      (bytesBE 32 0x4cccb3ca6d33e549b9cace9089832e75b1b6e21aaa68d4f2fe916c7b0122ef0c)
      (bytesBE 32 0x6fd83044265b910415330e918abbf26cbea7fc639b8eec5d157734afe9e46ab4) ++
    macDigests policyKDown (policyHead 1 0)
      (bytesBE 32 0xf0d4916c8bc15a0f59c81295a92a4a7cd52693b89d03d23fc20e7576c32ac66c)
      (bytesBE 32 0xc680ded0351856ffc3fae128f1e63a5717438130193d1420ab46314191656360) ++
    macDigests policyKDown (policyHead 2 1)
      (bytesBE 32 0xf1e8637c2b17ab6dc016399abe1a24916137b200c0573037a5ff8b6bcfabed8e)
      (bytesBE 32 0x24e79769519db254f1e91fcdab79e073dbd240fe630ad8050014b76de72ed389) ++
    [(lit "#on", bytesBE 32 0xb6b95554fd0cc01454a670f0593ab46cdbbb5315706103d4a333b320e62083d3),
     (bytesBE 16 0xb6b95554fd0cc01454a670f0593ab46c,
      bytesBE 32 0x474866f93744e6953ea5de4f9ea7e269b88d9981b1f831ad824fb73f47335ac7)]

/-- The values of the primitives on these datagrams, and on the room. -/
def policyCrypto : BbCrypto :=
  { pairCrypto with
    toCrypto := { pairCrypto.toCrypto with
      sha256 := fun msg => .ofBytes 32 ((policyDigests.lookup msg).getD []) } }

/-- The pages as they are sealed. -/
def firstPage : Bytes := policyHead 1 0 ++ bytesBE 16 0xc680ded0351856ffc3fae128f1e63a57

/-- And the second one. -/
def secondPage : Bytes := policyHead 2 1 ++ bytesBE 16 0x24e79769519db254f1e91fcdab79e073

/-- The pages change places on their way. -/
def shuffledPages : List BbInput :=
  [.datagram (.calm 1200) 1200 secondPage, .datagram (.calm 1300) 1300 firstPage]

/-- The node with its HELLO out, and the session its answer brings. -/
def policyNode : McBackbone := bbRun policyCrypto pairNode pairAttempt

/-- In the session. -/
def policyUp : McBackbone := bbStep policyCrypto policyNode (.datagram (.calm 1100) 1100 pairWelcome)

/-- The second page comes first; the set is applied once, and whole. -/
theorem policySets_inOrder_shuffled :
    (policiesOf (bbRun policyCrypto policyUp shuffledPages).log).map McPolicy.rooms = [[lit "#on"]] ∧
      ∃ sets, policiesOf (bbRun policyCrypto policyUp shuffledPages).log =
          policiesOf policyUp.log ++ sets ∧
        (sets.map McPolicy.version).Sublist [5] ∧
        ∀ p ∈ sets, ∃ t ∈ [roomAndBlock], WholeSet (policyPages policyCrypto policyUp shuffledPages) t p := by
  have hhub : HubOrder [roomAndBlock] := ⟨by decide, by decide⟩
  have hreach : BbReachable policyCrypto policyNode := ⟨pairConfig, nodeIdentity, none, 1000, pairAttempt, rfl⟩
  have hread : ∀ {bb : McBackbone} {p : BbHal} {now : Nat} {d : Bytes},
      (bbStep policyCrypto bb (.datagram p now d)).state = .up →
        InSession policyCrypto bb (.datagram p now d) := by
    intro bb p now d hstays
    exact ⟨hstays, rfl⟩
  have hxs : Runs.Every (bbStep policyCrypto) (InSession policyCrypto) policyUp shuffledPages :=
    ⟨hread (by decide), hread (by decide), trivial⟩
  refine ⟨by decide, ?_⟩
  exact policySets_inOrder policyCrypto hhub hreach (by decide) (by decide) hxs (by decide)

end Meshcore
