import MeshcoreRepeater.Backbone.Headroom
import MeshcoreRepeater.Mesh.OnePolicy

/-! # What becomes of a frame of the hub

Every authentic FRAME is counted once, as injected, limited or rejected, and reported back in
one OBSERVE when there is something to report (`frame_accounting`). What the mesh calls back
while it runs seals nothing of that kind (`meshRan_quietly`).

* `account_of_not_holds`, `account_of_not_admits`, `account_of_admits`: the three ends of a FRAME.
* `bbStep_freshFrame`: a fresh FRAME reaches `on_frame`.
* `frame_accounting`: one counter and one report for every FRAME.
-/

namespace Meshcore

set_option maxRecDepth 8000

open ByteLib

/-! ## What the log says -/

/-- The frames handed to the mesh. -/
def framesOf (es : List BbEvent) : List Bytes :=
  es.filterMap fun
    | .frame _ raw => some raw
    | _ => none

/-- The OBSERVE datagrams passed to `send`. -/
def observesOf (es : List BbEvent) : List Bytes :=
  es.filterMap fun
    | .send d => if d.getD 3 0 = bbTObserve then some d else none
    | _ => none

/-- A log in two parts. -/
@[simp] theorem framesOf_append (es es' : List BbEvent) : framesOf (es ++ es') = framesOf es ++ framesOf es' :=
  List.filterMap_append

/-- The same for the reports. -/
@[simp] theorem observesOf_append (es es' : List BbEvent) :
    observesOf (es ++ es') = observesOf es ++ observesOf es' := List.filterMap_append

/-- Of what a call inside a session notes nothing is a frame for the mesh. -/
theorem framesOf_inner {es : List BbEvent} (h : ∀ e ∈ es, e.Inner) : framesOf es = [] := by
  refine List.filterMap_eq_nil_iff.mpr ?_
  intro e he
  have hinner := h e he
  cases e with
  | frame now raw => exact hinner.elim
  | _ => rfl

/-- The three counters of FRAME. -/
def McBackbone.counts (bb : McBackbone) : Nat × Nat × Nat := (bb.injected, bb.limited, bb.rejected)

/-- A call inside a session that hands nothing on, counts no frame and reports none. -/
structure Quietly (bb bb' : McBackbone) : Prop where
  kept : bb'.kept = bb.kept
  counts : bb'.counts = bb.counts
  log : ∃ es, bb'.log = bb.log ++ es ∧ framesOf es = [] ∧ observesOf es = []

namespace Quietly

variable {bb bb' bb'' : McBackbone}

/-- Doing nothing. -/
theorem refl (bb : McBackbone) : Quietly bb bb := ⟨rfl, rfl, [], (List.append_nil _).symm, rfl, rfl⟩

/-- One call behind another. -/
theorem trans (h : Quietly bb bb') (h' : Quietly bb' bb'') : Quietly bb bb'' where
  kept := h'.kept.trans h.kept
  counts := h'.counts.trans h.counts
  log := by
    rcases h.log with ⟨es, hlog, hframes, hobserves⟩
    rcases h'.log with ⟨es', hlog', hframes', hobserves'⟩
    refine ⟨es ++ es', by rw [hlog', hlog, List.append_assoc], ?_, ?_⟩
    · rw [framesOf_append, hframes, hframes']
      rfl
    · rw [observesOf_append, hobserves, hobserves']
      rfl

/-- What leaves the log alone adds nothing to it. -/
theorem of_eq (hkept : bb'.kept = bb.kept) (hcounts : bb'.counts = bb.counts) (hlog : bb'.log = bb.log) :
    Quietly bb bb' := ⟨hkept, hcounts, [], by rw [hlog, List.append_nil], rfl, rfl⟩

end Quietly

section
variable (C : Crypto) (p : BbHal)

/-- A sealed datagram has its type in front. -/
theorem bbSeal_type {cap : Nat} {type : UInt8} {sid seq : UInt32} {body key d : Bytes}
    (h : bbSeal C cap type sid seq body key = some d) : d.getD 3 0 = type := by
  unfold bbSeal at h
  simp only at h
  split at h
  · cases h
  · cases h
    rfl

/-- While there is a socket, a datagram that fits is sealed and passed to `send`. -/
theorem sendSession_eq {bb : McBackbone} (hfd : bb.fd = true) {type : UInt8} {body d : Bytes}
    (h : bbSeal C bbMaxDgram type bb.sid (bb.seqOut + 1) body bb.kUp.bytes = some d) :
    ∃ n, sendSession C p bb type body =
      { bb with
        seqOut := bb.seqOut + 1
        log := bb.log ++ [.seal bb.kUp (bb.seqOut + 1)] ++ [.send d]
        dgramsOut := n } := by
  unfold sendSession
  simp only [h]
  unfold sendRaw
  have hsocket : (({ bb with seqOut := bb.seqOut + 1 } : McBackbone).note (.seal bb.kUp (bb.seqOut + 1))).fd = true := hfd
  rw [if_pos hsocket]
  simp only
  -- the counter of datagrams goes up if `send` took all of it
  split
  · exact ⟨_, rfl⟩
  · exact ⟨bb.dgramsOut, rfl⟩

/-- A session datagram of any other kind is no report. -/
theorem sendSession_quietly (bb : McBackbone) {type : UInt8} (htype : type ≠ bbTObserve) (body : Bytes) :
    Quietly bb (sendSession C p bb type body) := by
  unfold sendSession
  simp only
  split
  · rename_i d hd
    have htag := bbSeal_type C hd
    rcases sendRaw_eq p (({ bb with seqOut := bb.seqOut + 1 } : McBackbone).note (.seal bb.kUp (bb.seqOut + 1))) d with
      ⟨es, n, heq, hsends⟩
    rw [heq]
    refine ⟨rfl, rfl, [.seal bb.kUp (bb.seqOut + 1)] ++ es, ?_, ?_, ?_⟩
    · exact List.append_assoc _ _ _
    · rw [framesOf_append, framesOf_inner (sealsOf_sends hsends).1]
      rfl
    · rw [observesOf_append]
      -- each attempt to send carries the tag of the other kind
      refine List.filterMap_eq_nil_iff.mpr ?_
      intro e he
      rw [hsends e he]
      exact if_neg (by rw [htag]; exact htype)
  · exact .of_eq rfl rfl rfl

/-- A frame offered to the hub goes out as BRIDGE. -/
theorem backboneOffer_quietly (bb : McBackbone) (frame : Bytes) (own : Bool) :
    Quietly bb (backboneOffer C p bb frame own) := by
  rcases backboneOffer_sends C p bb frame own with h | ⟨-, body, -, h⟩
  · rw [h]
    exact .refl bb
  · have hsent := sendSession_quietly C p bb (by decide : bbTBridge ≠ bbTObserve) body
    rw [h]
    exact hsent.trans (.of_eq rfl rfl rfl)

/-- What the mesh calls back while it runs. -/
theorem meshRan_quietly (bb : McBackbone) (m : McMesh) : Quietly bb (meshRan C p bb m) := by
  -- asking for a status sets a timer only
  have hsoon : ∀ b, Quietly b (backboneStatusSoon b) := by
    intro b
    unfold backboneStatusSoon
    split
    · exact .of_eq rfl rfl rfl
    · exact .refl b
  have hset : Quietly bb (bb.setMesh m) := .of_eq rfl rfl rfl
  exact hset.trans (meshRan_induct Quietly.refl Quietly.trans (backboneOffer_quietly C p) hsoon bb m)

/-! ## The report -/

/-- The body of an OBSERVE about a frame of the hub. -/
def hubObserve (frame : Bytes) (pkt : McPacket) (disposition : Int) : Bytes :=
  [bbObsFromBackbone, UInt8.ofInt disposition] ++ wrU16le 0 ++ [0, UInt8.ofNat frame.length] ++
    pktCalcHash C pkt ++ frame

/-- The client observes, and the frame is one that `pkt_parse` accepts. -/
def Reports (bb : McBackbone) (frame : Bytes) : Prop :=
  bb.roles &&& bbRoleObserve ≠ 0 ∧ ∃ pkt, pktParse frame = .ok pkt

/-- Then `backbone_observe` seals one OBSERVE, and nothing otherwise. -/
theorem backboneObserve_report {bb : McBackbone} (hup : bb.state = .up) (hfd : bb.fd = true) {frame : Bytes}
    (hframe : frame.length ≠ 0 ∧ frame.length ≤ 255) {disposition : Int}
    (hdisp : 0 ≤ disposition ∧ disposition ≤ bbDispLimited) :
    ∃ es, (backboneObserve C p bb frame 0 0 bbObsFromBackbone disposition).log = bb.log ++ es ∧ framesOf es = [] ∧
      (¬Reports bb frame → observesOf es = []) ∧
      ∀ pkt, bb.roles &&& bbRoleObserve ≠ 0 → pktParse frame = .ok pkt → ∃ d, observesOf es = [d] ∧
        bbSeal C bbMaxDgram bbTObserve bb.sid (backboneObserve C p bb frame 0 0 bbObsFromBackbone disposition).seqOut
          (hubObserve C frame pkt disposition) bb.kUp.bytes = some d := by
  by_cases hrole : bb.roles &&& bbRoleObserve = 0
  · rw [backboneObserve, if_pos (.inr hrole)]
    refine ⟨[], (List.append_nil _).symm, rfl, fun _ => rfl, ?_⟩
    intro pkt h
    exact absurd hrole h
  -- the client is up and observes, and the arguments are in range
  have hopen : ¬(bb.state ≠ .up ∨ bb.roles &&& bbRoleObserve = 0) := by
    rintro (h | h)
    · exact h hup
    · exact hrole h
  have hfits : ¬(disposition < 0 ∨ bbDispLimited < disposition ∨ frame.length = 0 ∨ bbMaxFrame < frame.length) := by
    simp only [bbMaxFrame]
    omega
  cases hparse : pktParse frame with
  | error e =>
    rw [backboneObserve, if_neg hopen, if_neg hfits, hparse]
    refine ⟨[], (List.append_nil _).symm, rfl, fun _ => rfl, ?_⟩
    intro pkt _ h
    cases h
  | ok pkt =>
    -- the body is far below the 1200 bytes of a datagram, so it can be sealed
    have hhash := length_pktCalcHash_le C pkt
    have hlen : (hubObserve C frame pkt disposition).length ≤ 1172 := by
      simp only [hubObserve, List.length_append, List.length_cons, List.length_nil, length_wrU16le]
      omega
    rcases Option.isSome_iff_exists.mp (bbSeal_isSome C hlen) with ⟨d, hseal⟩
    rcases sendSession_eq C p hfd hseal with ⟨n, hsend⟩
    have heq : backboneObserve C p bb frame 0 0 bbObsFromBackbone disposition =
        { sendSession C p bb bbTObserve (hubObserve C frame pkt disposition) with
          observed := (sendSession C p bb bbTObserve (hubObserve C frame pkt disposition)).observed + 1 } := by
      rw [backboneObserve, if_neg hopen, if_neg hfits, hparse]
      rfl
    rw [heq, hsend]
    -- of the two new entries of the log the sealing is no datagram
    have hone : observesOf [.seal bb.kUp (bb.seqOut + 1), .send d] = [d] :=
      (List.filterMap_cons_none rfl).trans (List.filterMap_cons_some (if_pos (bbSeal_type C hseal)))
    refine ⟨[.seal bb.kUp (bb.seqOut + 1), .send d], by simp, rfl, ?_, ?_⟩
    · intro h
      exact absurd ⟨hrole, pkt, hparse⟩ h
    · intro pkt' _ hpkt
      cases hpkt
      exact ⟨d, hone, hseal⟩

end

/-- A report does not count as a frame. -/
theorem backboneObserve_counts (C : Crypto) (p : BbHal) (bb : McBackbone) (frame : Bytes) (rssi snrQ : Int)
    (flags : UInt8) (disposition : Int) :
    (backboneObserve C p bb frame rssi snrQ flags disposition).counts = bb.counts := by
  have hsend : ∀ body, (sendSession C p bb bbTObserve body).counts = bb.counts := by
    intro body
    unfold sendSession
    simp only
    split
    · rename_i d hd
      rcases sendRaw_eq p (({ bb with seqOut := bb.seqOut + 1 } : McBackbone).note (.seal bb.kUp (bb.seqOut + 1))) d
        with ⟨es, n, heq, -⟩
      rw [heq]
      rfl
    · rfl
  rcases backboneObserve_sends C p bb frame rssi snrQ flags disposition with h | ⟨-, body, -, h⟩
  · rw [h]
  · have hsent := hsend body
    rw [h]
    generalize sendSession C p bb bbTObserve body = sent at hsent ⊢
    exact hsent

/-! ## A FRAME datagram -/

/-- The body of a FRAME holds a whole frame. -/
def HoldsFrame (body : Bytes) : Prop :=
  10 ≤ body.length ∧ body.getD 1 0 ≠ 0 ∧ 10 + (body.getD 1 0).toNat ≤ body.length

/-- `d` is an authentic FRAME of the session, and its number is not taken yet. -/
def FreshFrame (C : Crypto) (bb : McBackbone) (d body : Bytes) : Prop :=
  d.length ≤ bbMaxDgram ∧ ∃ seq, bbOpen C d bb.kDown.bytes = .ok ⟨bbTFrame, bb.sid, seq, body⟩ ∧
    (bbReplayCheck bb.rwin seq).1 = true

/-- What an authentic FRAME does to a client with the mesh `m`; `es` is what is noted. -/
structure FrameAccount (C : Crypto) (R : Reading) (p : BbHal) (m : McMesh) (now : Nat) (body : Bytes) (bb bb' : McBackbone)
    (es : List BbEvent) : Prop where
  /-- one counter grows, by one -/
  counts :
    (bb'.counts = (bb.injected + 1, bb.limited, bb.rejected) ∧ Admits R bb now body ∧
      ∃ pkt, pktParse (frameOf body) = .ok pkt) ∨
    (bb'.counts = (bb.injected, bb.limited + 1, bb.rejected) ∧ HoldsFrame body ∧ ¬Admits R bb now body) ∨
    (bb'.counts = (bb.injected, bb.limited, bb.rejected + 1) ∧
      (HoldsFrame body → Admits R bb now body ∧ ∀ pkt, pktParse (frameOf body) ≠ .ok pkt))
  /-- the mesh gets the frame when it is admitted, and else nothing -/
  handed :
    (framesOf es = [frameOf body] ∧ bb'.mesh = some (meshOnBackbone C p.toHal m.clearEvents (frameOf body)).1 ∧
      HoldsFrame body ∧ 1 ≤ refill R bb now ∧ 8 ≤ meshTxqFree m) ∨
    (framesOf es = [] ∧ bb'.mesh = some m)
  /-- one OBSERVE with what the mesh said, or that it was not asked -/
  reported : ∀ pkt, HoldsFrame body → pktParse (frameOf body) = .ok pkt → bb.roles &&& bbRoleObserve ≠ 0 →
    ∃ d disposition, observesOf es = [d] ∧
      bbSeal C bbMaxDgram bbTObserve bb.sid bb'.seqOut (hubObserve C (frameOf body) pkt disposition) bb.kUp.bytes =
        some d ∧
      ((framesOf es = [] ∧ disposition = bbDispLimited) ∨
        (framesOf es = [frameOf body] ∧
          disposition = (meshOnBackbone C p.toHal m.clearEvents (frameOf body)).2.code))
  /-- and nothing when there is nothing to report -/
  silent : ¬(HoldsFrame body ∧ (∃ pkt, pktParse (frameOf body) = .ok pkt) ∧ bb.roles &&& bbRoleObserve ≠ 0) →
    observesOf es = []

/-- The mesh calls a frame malformed when `pkt_parse` refuses it, and only then. -/
theorem meshOnBackbone_malformed_iff (C : Crypto) (hal : Hal) (m : McMesh) (raw : Bytes) :
    (meshOnBackbone C hal m raw).2 = .malformed ↔ ∀ pkt, pktParse raw ≠ .ok pkt := by
  have hres : (meshOnBackbone C hal m raw).2 =
      (meshOnRecv C hal { m with rxSrc := .backbone } raw monViaBackbone 0).2 := rfl
  rw [hres]
  cases hparse : pktParse raw with
  | error e =>
    have hmalformed := (meshOnRecv_of_error C hal { m with rxSrc := .backbone } raw monViaBackbone 0 hparse).1
    exact iff_of_true hmalformed (by simp)
  | ok pkt =>
    have hok : ¬∀ pkt', (.ok pkt : Except Int McPacket) ≠ .ok pkt' := fun h => h pkt rfl
    refine iff_of_false ?_ hok
    intro hbad
    -- each other way through `mesh_on_recv` ends in another verdict
    have houtcome := meshOnRecv_outcome C hal { m with rxSrc := .backbone } raw monViaBackbone 0
    rw [hbad] at houtcome
    generalize hv : MeshRx.malformed = v at houtcome
    cases houtcome with
    | malformed e herr _ =>
      rw [hparse] at herr
      cases herr
    | duplicate _ _ _ _ => cases hv
    | refused _ _ _ _ _ _ _ hverdict =>
      rw [← hv] at hverdict
      rcases hverdict with h | h
      · cases h
      · cases h
    | relayed pkt' m₀ m₁ power _ _ _ _ _ hrelay =>
      have hverdict := relay_verdict hal m₁ (pkt'.heardAt monViaBackbone 0) power
      rw [hrelay, ← hv] at hverdict
      rcases hverdict with h | h
      · cases h
      · cases h

/-- What the mesh says about any other frame is a disposition of OBSERVE. -/
theorem MeshRx.code_cases (v : MeshRx) :
    (v = .malformed ∧ v.code = MeshRx.malformed.code) ∨
      (v ≠ .malformed ∧ v.code ≠ MeshRx.malformed.code ∧ 0 ≤ v.code ∧ v.code ≤ bbDispLimited) := by
  cases v <;> simp [MeshRx.code, bbDispLimited]

section
variable (C : Crypto) (R : Reading) (p : BbHal) {bb : McBackbone} {m : McMesh} {now : Nat} {body : Bytes}

/-- The frame of such a body has 1 to 255 bytes. -/
theorem length_frameOf (h : HoldsFrame body) : (frameOf body).length ≠ 0 ∧ (frameOf body).length ≤ 255 := by
  rcases h with ⟨hlen, hsome, hwhole⟩
  have hne : (body.getD 1 0).toNat ≠ 0 := fun h => hsome (UInt8.toNat_inj.mp h)
  have hlt := (body.getD 1 0).toNat_lt
  rw [frameOf, List.length_take, List.length_drop]
  omega

/-- A body that holds a frame passes the first check. -/
theorem HoldsFrame.passes (h : HoldsFrame body) (hrole : bb.roles &&& bbRoleBridge ≠ 0) :
    ¬(bb.roles &&& bbRoleBridge = 0 ∨ body.length < 10 ∨ body.getD 1 0 = 0 ∨
      body.length < 10 + (body.getD 1 0).toNat) := by
  rcases h with ⟨hlen, hsome, hwhole⟩
  rintro (h | h | h | h)
  · exact hrole h
  · omega
  · exact hsome h
  · omega

/-- The client with the token of a frame taken, and the frame noted. -/
def McBackbone.paid (R : Reading) (bb : McBackbone) (now : Nat) (frame : Bytes) : McBackbone :=
  (bb.setTokens (R.sub (refill R bb now) 1) now).note (.frame now frame)

/-- A body without a whole frame is rejected. -/
theorem onFrame_of_not_holds (h : ¬HoldsFrame body) : onFrame C R p bb now body = bb.reject := by
  rw [onFrame, if_pos]
  -- otherwise all four checks of the code were passed
  by_contra hgood
  simp only [not_or, not_lt] at hgood
  exact h ⟨hgood.2.1, hgood.2.2.1, hgood.2.2.2⟩

/-- A whole frame that is not admitted is limited, and reported so. -/
theorem onFrame_of_not_admits (hrole : bb.roles &&& bbRoleBridge ≠ 0) (hholds : HoldsFrame body)
    (h : ¬Admits R bb now body) :
    onFrame C R p bb now body = backboneObserve C p
      { bb.setTokens (refill R bb now) now with limited := bb.limited + 1 } (frameOf body) 0 0 bbObsFromBackbone
      bbDispLimited := by
  -- role and form are in order, so it is the tokens or the queue
  have hlimit : (bb.setTokens (refill R bb now) now).tokens < 1 ∨ txqRoom (bb.setTokens (refill R bb now) now) = false := by
    by_contra hboth
    rw [not_or, not_lt, Bool.not_eq_false] at hboth
    exact h ⟨hrole, hholds.1, hholds.2.1, hholds.2.2, hboth.1, hboth.2⟩
  rw [onFrame, if_neg (hholds.passes hrole)]
  exact if_pos hlimit

/-- What is admitted is a whole frame. -/
theorem Admits.holds (h : Admits R bb now body) : HoldsFrame body := ⟨h.header, h.some, h.whole⟩

/-- An admitted frame is handed to the mesh, and counted by its verdict. -/
theorem onFrame_of_admits (hmesh : bb.mesh = some m) (h : Admits R bb now body) :
    onFrame C R p bb now body =
      if (meshOnBackbone C p.toHal m.clearEvents (frameOf body)).2 = .malformed then
        (meshRan C p (bb.paid R now (frameOf body)) (meshOnBackbone C p.toHal m.clearEvents (frameOf body)).1).reject
      else
        backboneObserve C p
          { meshRan C p (bb.paid R now (frameOf body)) (meshOnBackbone C p.toHal m.clearEvents (frameOf body)).1 with
            injected := (meshRan C p (bb.paid R now (frameOf body))
              (meshOnBackbone C p.toHal m.clearEvents (frameOf body)).1).injected + 1 }
          (frameOf body) 0 0 bbObsFromBackbone (meshOnBackbone C p.toHal m.clearEvents (frameOf body)).2.code := by
  have hpays : ¬((bb.setTokens (refill R bb now) now).tokens < 1 ∨
      txqRoom (bb.setTokens (refill R bb now) now) = false) := by
    rintro (hpoor | hfull)
    · exact absurd h.token (not_le.mpr hpoor)
    · have hsame : txqRoom (bb.setTokens (refill R bb now) now) = txqRoom bb := rfl
      rw [hsame, h.room] at hfull
      cases hfull
  -- the verdict is that of the mesh, which is there
  have hhand : handFrame C p (bb.paid R now (frameOf body)) (frameOf body) =
      (meshRan C p (bb.paid R now (frameOf body)) (meshOnBackbone C p.toHal m.clearEvents (frameOf body)).1,
        (meshOnBackbone C p.toHal m.clearEvents (frameOf body)).2.code) := by
    have hm : (bb.paid R now (frameOf body)).mesh = some m := hmesh
    rw [handFrame, hm]
  have hcode := MeshRx.code_cases (meshOnBackbone C p.toHal m.clearEvents (frameOf body)).2
  rw [onFrame, if_neg (h.holds.passes h.role)]
  refine (if_neg hpays).trans ?_
  show (if (handFrame C p (bb.paid R now (frameOf body)) (frameOf body)).2 = MeshRx.malformed.code then
      (handFrame C p (bb.paid R now (frameOf body)) (frameOf body)).1.reject
    else backboneObserve C p
      { (handFrame C p (bb.paid R now (frameOf body)) (frameOf body)).1 with
        injected := (handFrame C p (bb.paid R now (frameOf body)) (frameOf body)).1.injected + 1 }
      (frameOf body) 0 0 bbObsFromBackbone (handFrame C p (bb.paid R now (frameOf body)) (frameOf body)).2) = _
  rw [hhand]
  -- the code compares verdicts by their number
  rcases hcode with ⟨hbad, hsame⟩ | ⟨hgood, hother, -⟩
  · rw [if_pos hsame, if_pos hbad]
  · rw [if_neg hother, if_neg hgood]

/-- A body that is no FRAME's is only counted. -/
theorem account_of_not_holds (hmesh : bb.mesh = some m) (h : ¬HoldsFrame body) :
    ∃ es, (onFrame C R p bb now body).log = bb.log ++ es ∧
      FrameAccount C R p m now body bb (onFrame C R p bb now body) es := by
  rw [onFrame_of_not_holds C R p h]
  refine ⟨[], (List.append_nil _).symm, ?_, .inr ⟨rfl, hmesh⟩, ?_, fun _ => rfl⟩
  · exact .inr (.inr ⟨rfl, fun hholds => absurd hholds h⟩)
  · intro pkt hholds
    exact absurd hholds h

/-- A frame that the rate or the queue refuses is reported as limited. -/
theorem account_of_not_admits (hup : bb.state = .up) (hfd : bb.fd = true) (hmesh : bb.mesh = some m)
    (hrole : bb.roles &&& bbRoleBridge ≠ 0) (hholds : HoldsFrame body) (h : ¬Admits R bb now body) :
    ∃ es, (onFrame C R p bb now body).log = bb.log ++ es ∧
      FrameAccount C R p m now body bb (onFrame C R p bb now body) es := by
  have hmeshAfter : (onFrame C R p bb now body).mesh = some m := by
    rcases onFrame_mesh C p R bb now body hmesh with ⟨hadmits, -⟩ | ⟨-, hsame⟩
    · exact absurd hadmits h
    · exact hsame
  have heq := onFrame_of_not_admits C R p hrole hholds h
  -- the report itself changes no counter
  have hcounts := backboneObserve_counts C p
    { bb.setTokens (refill R bb now) now with limited := bb.limited + 1 } (frameOf body) 0 0 bbObsFromBackbone
    bbDispLimited
  rcases @backboneObserve_report C p { bb.setTokens (refill R bb now) now with limited := bb.limited + 1 }
    hup hfd (frameOf body) (length_frameOf hholds) bbDispLimited (by decide) with ⟨es, hlog, hnone, hsilent, hreport⟩
  rw [← heq] at hcounts hlog hreport
  refine ⟨es, hlog, .inr (.inl ⟨hcounts, hholds, h⟩), .inr ⟨hnone, hmeshAfter⟩, ?_, ?_⟩
  · intro pkt _ hpkt hobserve
    rcases hreport pkt hobserve hpkt with ⟨d, hd, hseal⟩
    exact ⟨d, bbDispLimited, hd, hseal, .inl ⟨hnone, rfl⟩⟩
  · intro hnot
    exact hsilent fun hr => hnot ⟨hholds, hr.2, hr.1⟩

/-- A frame the mesh gets is counted by what the mesh said, and reported with it. -/
theorem account_of_admits (hup : bb.state = .up) (hfd : bb.fd = true) (hmesh : bb.mesh = some m)
    (h : Admits R bb now body) :
    ∃ es, (onFrame C R p bb now body).log = bb.log ++ es ∧
      FrameAccount C R p m now body bb (onFrame C R p bb now body) es := by
  have hmeshAfter : (onFrame C R p bb now body).mesh =
      some (meshOnBackbone C p.toHal m.clearEvents (frameOf body)).1 := by
    rcases onFrame_mesh C p R bb now body hmesh with ⟨-, hsome⟩ | ⟨hrefused, -⟩
    · exact hsome
    · exact absurd h hrefused
  have hroom : 8 ≤ meshTxqFree m := by
    have hroom := h.room
    rw [txqRoom, hmesh] at hroom
    exact of_decide_eq_true hroom
  have heq := onFrame_of_admits C R p hmesh h
  have hmalformed := meshOnBackbone_malformed_iff C p.toHal m.clearEvents (frameOf body)
  have hquiet := meshRan_quietly C p (bb.paid R now (frameOf body))
    (meshOnBackbone C p.toHal m.clearEvents (frameOf body)).1
  generalize hran : meshRan C p (bb.paid R now (frameOf body))
    (meshOnBackbone C p.toHal m.clearEvents (frameOf body)).1 = ran at heq hquiet
  have hcounts : ran.counts = bb.counts := hquiet.counts
  rcases hquiet.log with ⟨es, hlog, hframes, hobserves⟩
  -- the frame is noted before the mesh runs
  have hfirst : ran.log = bb.log ++ (.frame now (frameOf body) :: es) :=
    hlog.trans (List.append_assoc bb.log [.frame now (frameOf body)] es)
  have hone : framesOf (.frame now (frameOf body) :: es) = [frameOf body] := by
    show frameOf body :: framesOf es = _
    rw [hframes]
  have hnone : observesOf (.frame now (frameOf body) :: es) = [] := hobserves
  have hthree : ran.injected = bb.injected ∧ ran.limited = bb.limited ∧ ran.rejected = bb.rejected := by
    simpa only [McBackbone.counts, Prod.mk.injEq] using hcounts
  -- malformed is rejected without a report, anything else injected with one
  by_cases hbad : (meshOnBackbone C p.toHal m.clearEvents (frameOf body)).2 = .malformed
  · rw [if_pos hbad] at heq
    have hno := hmalformed.mp hbad
    refine ⟨_, (congrArg McBackbone.log heq).trans hfirst, .inr (.inr ⟨?_, fun _ => ⟨h, hno⟩⟩),
      .inl ⟨hone, hmeshAfter, h.holds, h.token, hroom⟩, ?_, fun _ => hnone⟩
    · rw [heq]
      simp only [McBackbone.counts, McBackbone.reject, hthree]
    · intro pkt _ hpkt
      exact absurd hpkt (hno pkt)
  · rw [if_neg hbad] at heq
    have hparses : ∃ pkt, pktParse (frameOf body) = .ok pkt := by
      by_contra hno
      exact hbad (hmalformed.mpr fun pkt hpkt => hno ⟨pkt, hpkt⟩)
    have hdisp : 0 ≤ (meshOnBackbone C p.toHal m.clearEvents (frameOf body)).2.code ∧
        (meshOnBackbone C p.toHal m.clearEvents (frameOf body)).2.code ≤ bbDispLimited := by
      rcases MeshRx.code_cases (meshOnBackbone C p.toHal m.clearEvents (frameOf body)).2 with ⟨hmal, -⟩ | ⟨-, -, hdisp⟩
      · exact absurd hmal hbad
      · exact hdisp
    -- while the mesh ran the session stayed the same, so the report is sealed in it
    have hstate : ran.state = .up := (congrArg BbKept.state hquiet.kept).trans hup
    have hsocket : ran.fd = true := (congrArg BbKept.fd hquiet.kept).trans hfd
    have hroles : ran.roles = bb.roles := congrArg BbKept.roles hquiet.kept
    have hsid : ran.sid = bb.sid := congrArg BbKept.sid hquiet.kept
    have hkUp : ran.kUp = bb.kUp := congrArg BbKept.kUp hquiet.kept
    have hcountsObs := backboneObserve_counts C p { ran with injected := ran.injected + 1 } (frameOf body) 0 0
      bbObsFromBackbone (meshOnBackbone C p.toHal m.clearEvents (frameOf body)).2.code
    rcases @backboneObserve_report C p { ran with injected := ran.injected + 1 } hstate hsocket (frameOf body)
      (length_frameOf h.holds) _ hdisp with ⟨es', hlog', hframes', hsilent, hreport⟩
    rw [← heq] at hcountsObs hlog' hreport
    simp only [hroles, hsid, hkUp] at hreport
    have hwhole : (onFrame C R p bb now body).log = bb.log ++ ((.frame now (frameOf body) :: es) ++ es') := by
      rw [hlog', ← List.append_assoc, ← hfirst]
    have hall : framesOf ((.frame now (frameOf body) :: es) ++ es') = [frameOf body] := by
      rw [framesOf_append, hone, hframes']
      rfl
    have hobs : observesOf ((.frame now (frameOf body) :: es) ++ es') = observesOf es' := by
      rw [observesOf_append, hnone]
      rfl
    refine ⟨_, hwhole, .inl ⟨?_, h, hparses⟩, .inl ⟨hall, hmeshAfter, h.holds, h.token, hroom⟩, ?_, ?_⟩
    · rw [hcountsObs]
      simp only [McBackbone.counts, hthree]
    · intro pkt _ hpkt hobserve
      rcases hreport pkt hobserve hpkt with ⟨d, hd, hseal⟩
      exact ⟨d, _, hobs.trans hd, hseal, .inr ⟨hall, rfl⟩⟩
    · intro hnot
      rw [hobs]
      refine hsilent fun hr => hnot ⟨h.holds, hparses, ?_⟩
      rw [← hroles]
      exact hr.1

/-- `on_frame` accounts for every body. -/
theorem onFrame_account (hup : bb.state = .up) (hfd : bb.fd = true) (hmesh : bb.mesh = some m)
    (hrole : bb.roles &&& bbRoleBridge ≠ 0) (now : Nat) (body : Bytes) :
    ∃ es, (onFrame C R p bb now body).log = bb.log ++ es ∧
      FrameAccount C R p m now body bb (onFrame C R p bb now body) es := by
  by_cases hholds : HoldsFrame body
  swap
  · exact account_of_not_holds C R p hmesh hholds
  by_cases hadmits : Admits R bb now body
  · exact account_of_admits C R p hup hfd hmesh hadmits
  · exact account_of_not_admits C R p hup hfd hmesh hrole hholds hadmits

end

/-- What `bb_open` reads stands in the datagram. -/
theorem bbOpen_fields {C : Crypto} {d key : Bytes} {s : BbSession} (h : bbOpen C d key = .ok s) :
    bbHdr + bbMac ≤ d.length ∧ magicOk d = true ∧ d.getD 3 0 = s.type ∧ rdU32le (d.drop 4) = s.sid := by
  unfold bbOpen at h
  split at h
  · cases h
  rename_i hshape
  simp only at h
  split at h
  · cases h
  cases h
  -- the checks on the header were passed before the tag was computed
  rw [not_or, not_lt, Bool.not_eq_false] at hshape
  exact ⟨hshape.1, hshape.2, rfl, rfl⟩

/-- A fresh FRAME reaches `on_frame`, its number taken. -/
theorem bbStep_freshFrame {C : BbCrypto} {p : BbHal} {bb : McBackbone} {now : Nat} {d body : Bytes}
    (hup : bb.state = .up) (hfd : bb.fd = true) (h : FreshFrame C.toCrypto bb d body) :
    ∃ seq rwin, bbStep C bb (.datagram p now d) = onFrame C.toCrypto C.reading p (bb.heard seq rwin now) now body := by
  rcases h with ⟨hmax, seq, hopen, hfresh⟩
  rcases bbOpen_fields hopen with ⟨hmin, hmagic, htype, hsid⟩
  have htype : d.getD 3 0 = bbTFrame := htype
  -- the datagram fits the buffer of `recv`
  have hwhole : recvd d = d := List.take_of_length_le (Nat.le_succ_of_le hmax)
  simp only [bbHdr, bbMac] at hmin
  rcases hcheck : bbReplayCheck bb.rwin seq with ⟨ok, rwin⟩
  rw [hcheck] at hfresh
  simp only at hfresh
  subst hfresh
  refine ⟨seq, rwin, ?_⟩
  -- through the checks of the reader and of the session
  show readTurn C p now bb d = _
  rw [readTurn, if_pos ⟨by rw [hup]; decide, hfd⟩, hwhole, readDatagram, if_neg, htype, if_neg (by decide),
    if_neg (by decide), if_pos (by decide), onSession, if_neg, hopen]
  · simp only [hcheck]
    rfl
  · rw [hup, hsid]
    simp only [bbHdr, bbMac, ne_eq, not_true, false_or, or_false]
    omega
  · rw [hmagic]
    simp only [Bool.true_eq_false, or_false]
    omega

/-- Whether a frame is admitted does not depend on the replay window. -/
theorem admits_heard {R : Reading} {bb : McBackbone} {seq : UInt32} {rwin : BbReplay} {now : Nat} {body : Bytes} :
    Admits R (bb.heard seq rwin now) now body ↔ Admits R bb now body := by
  constructor
  · intro h
    exact ⟨h.role, h.header, h.some, h.whole, h.token, h.room⟩
  · intro h
    exact ⟨h.role, h.header, h.some, h.whole, h.token, h.room⟩

/-- Every authentic FRAME that reaches a bridging session in time makes one counter grow,
reaches the mesh only when it is admitted, and is reported in one OBSERVE exactly if it holds a
frame that parses and the client observes. -/
theorem frame_accounting {C : BbCrypto} {bb : McBackbone} {m : McMesh} (hreach : BbReachable C bb)
    (hup : bb.state = .up) (hmesh : bb.mesh = some m) (hrole : bb.roles &&& bbRoleBridge ≠ 0) (p : BbHal) (now : Nat)
    {d body : Bytes} (hd : FreshFrame C.toCrypto bb d body) :
    ∃ es, (bbStep C bb (.datagram p now d)).log = bb.log ++ es ∧
      FrameAccount C.toCrypto C.reading p m now body bb (bbStep C bb (.datagram p now d)) es := by
  have hfd : bb.fd = true := ((sessionInv_of_reachable hreach).up hup).1
  rcases bbStep_freshFrame hup hfd hd with ⟨seq, rwin, heq⟩
  rw [heq]
  rcases @onFrame_account C.toCrypto C.reading p (bb.heard seq rwin now) m hup hfd hmesh hrole now body with ⟨es, hlog, h⟩
  refine ⟨es, hlog, ?_, h.handed, h.reported, h.silent⟩
  have hcounts := h.counts
  simp only [admits_heard] at hcounts
  exact hcounts

/-- The node of `bridgeNode` in its session. -/
def bridgeUp : McBackbone :=
  bbRun bridgeCrypto bridgeNode (pairAttempt ++ [.datagram (.calm 1100) 1100 bridgeWelcome])

/-- The hub's first frame. -/
theorem frame_accounting_bridge :
    ∃ m es, bridgeUp.mesh = some m ∧
      (bbStep bridgeCrypto bridgeUp (.datagram (.calm 1200) 1200 bridgeFrame)).log = bridgeUp.log ++ es ∧
      FrameAccount bridgeCrypto.toCrypto bridgeCrypto.reading (.calm 1200) m 1200 (bridgeFrameHead.drop 12) bridgeUp
        (bbStep bridgeCrypto bridgeUp (.datagram (.calm 1200) 1200 bridgeFrame)) es := by
  have hreach : BbReachable bridgeCrypto bridgeUp := ⟨bridgeConfig, nodeIdentity, _, 1000, _, rfl⟩
  have hsome : bridgeUp.mesh.isSome = true := by decide
  have hup : bridgeUp.state = .up := by decide
  have hrole : bridgeUp.roles &&& bbRoleBridge ≠ 0 := by decide
  have hopen : bbOpen bridgeCrypto.toCrypto bridgeFrame bridgeUp.kDown.bytes =
      .ok ⟨bbTFrame, bridgeUp.sid, 1, bridgeFrameHead.drop 12⟩ := by decide
  have hcheck : (bbReplayCheck bridgeUp.rwin 1).1 = true := by decide
  have hfresh : FreshFrame bridgeCrypto.toCrypto bridgeUp bridgeFrame (bridgeFrameHead.drop 12) :=
    ⟨by decide, 1, hopen, hcheck⟩
  rcases Option.isSome_iff_exists.mp hsome with ⟨m, hm⟩
  rcases frame_accounting hreach hup hm hrole (.calm 1200) 1200 hfresh with ⟨es, hlog, h⟩
  exact ⟨m, es, hm, hlog, h⟩

end Meshcore
