import MeshcoreRepeater.Mesh.Policy

/-! # What one step of the node can do

`Outcome` and `Services`, read off for every input of the state machine: how the
dedup ring grows, and what is offered to the hub as a relayed packet.

* `step_seen`: what a step pushes into the ring.
* `step_relayOffer`: what it offers was not in the ring.
-/

namespace Meshcore

open ByteLib

/-! ## Transmitting -/

/-- `mesh_service_tx` only takes entries off the queue, or postpones one. -/
structure Transmitted (m m' : McMesh) : Prop where
  fixed : m'.fixed = m.fixed
  seen : m'.seen = m.seen
  recorded : recordedOf m'.events = recordedOf m.events
  reports : ∀ e ∈ m'.events, e ∈ m.events ∨ e.IsReport
  txq : ∀ i, (m'.txq i).used = true → (m.txq i).used = true ∧ (m'.txq i).pkt = (m.txq i).pkt ∧
    (m'.txq i).own = (m.txq i).own

/-- A note takes no entry off the queue. -/
theorem Noted.transmitted {m m' : McMesh} (h : Noted m m') : Transmitted m m' where
  fixed := h.fixed
  seen := h.seen
  recorded := h.recorded
  reports := h.reports
  txq := fun i hi => by rw [h.txq] at hi ⊢; exact ⟨hi, rfl, rfl⟩

/-- An entry is written back, no more used than it was. -/
theorem Noted.putTx {m m' : McMesh} (h : Noted m m') {i : Fin meshTxqSize} {e : MeshTxEntry}
    (hpkt : e.pkt = (m.txq i).pkt) (hown : e.own = (m.txq i).own)
    (hused : e.used = true → (m.txq i).used = true) : Transmitted m (m'.putTx i e) where
  fixed := h.fixed
  seen := h.seen
  recorded := h.recorded
  reports := h.reports
  txq := by
    intro j hj
    by_cases hij : j = i
    · subst hij
      simp only [McMesh.putTx, Function.update_self] at hj ⊢
      exact ⟨hused hj, hpkt, hown⟩
    · simpa [McMesh.putTx, hij, h.txq] using hj

section
variable (C : Crypto) (hal : Hal) (m : McMesh)

/-- Handing a frame to the radio reports it. -/
theorem transmit_noted (e : MeshTxEntry) (raw : Bytes) : Noted m (transmit C hal m e raw) := by
  have hsend : Noted m ((m.emit (.setTxPower e.powerDbm)).emit
      (.transmit raw (hal.airtimeMs raw.length + 1000))) :=
    (Noted.emit m (e := .setTxPower e.powerDbm) trivial).trans (.emit _ trivial)
  unfold transmit
  simp only
  split
  · have hcount := hsend.trans (.bump _ (f := fun s =>
      { s with txTotal := s.txTotal + 1
               txAirtimeMs := s.txAirtimeMs + hal.airtimeMs raw.length }) fun _ => rfl)
    unfold monPktTx
    split
    · exact hcount
    · exact hcount.trans (.emit _ trivial)
  · have hcount := hsend.trans (.bump _ (f := fun s =>
      { s with txFailed := s.txFailed + 1, radioResets := s.radioResets + 1 }) fun _ => rfl)
    exact hcount.trans (.emit _ (e := .radioReinit) trivial)

/-- Silence empties the queue; else one entry is sent, or waits. -/
theorem meshServiceTx_transmitted (nowMs : Nat) : Transmitted m (meshServiceTx C hal m nowMs) := by
  unfold meshServiceTx
  split
  · -- silence: every entry goes
    have hsilent : Noted m (if m.hsSilent then m
        else
          let m := { m with hsSilent := true }
          if m.bb then m.emit .statusSoon else m) := by
      split
      · exact .refl m
      · have hflag : Noted m { m with hsSilent := true } := .of_eq rfl rfl rfl rfl rfl
        simp only
        split
        · exact hflag.trans (.emit _ trivial)
        · exact hflag
    simp only at hsilent ⊢
    generalize (if m.hsSilent = true then m else _) = m₁ at hsilent
    refine ⟨hsilent.fixed, hsilent.seen, hsilent.recorded, hsilent.reports, ?_⟩
    intro i hi
    cases hi
  split
  · exact (Noted.refl m).transmitted
  rename_i i _
  simp only
  split
  -- the channel is busy: the entry waits
  · exact (Noted.bump m fun _ => by rfl).putTx rfl rfl id
  · split
    -- sent, or not serialised: the entry is free
    · exact (transmit_noted C hal m _ _).putTx rfl rfl fun h => by cases h
    · exact (Noted.refl m).putTx rfl rfl fun h => by cases h

end

/-! ## What a received frame does to ring and offers -/

section
variable {C : Crypto} {hal : Hal} {m m' : McMesh} {raw : Bytes} {rssiDbm snrQ : Int} {v : MeshRx}

/-- A note pushes nothing into the ring. -/
theorem Noted.ringLog (h : Noted m m') : RingLog 0 m m' := .of_eq h.seen h.recorded

/-- A received frame pushes its own hash, and those of what was sent on its account. -/
theorem Outcome.ringLog (h : Outcome C hal m raw rssiDbm snrQ m' v) : ∃ k, RingLog k m m' := by
  cases h with
  | malformed _ _ hn => exact ⟨0, hn.ringLog⟩
  | duplicate _ _ _ hn => exact ⟨0, hn.ringLog⟩
  | refused _ _ _ _ hrec hheard => exact ⟨_, hrec.ringLog.trans hheard.ringLog⟩
  | relayed pkt m₀ m₁ power v hparse hrec hheard _ hrelay =>
    have hlog := (relay_frame hal m₁ (pkt.heardAt rssiDbm snrQ) power).2
    rw [hrelay] at hlog
    exact ⟨_, (hrec.ringLog.trans hheard.ringLog).trans hlog⟩

/-- Configuration, identity and source survive a call. -/
theorem Outcome.same (h : Outcome C hal m raw rssiDbm snrQ m' v) :
    m'.cfg = m.cfg ∧ m'.id = m.id ∧ m'.rxSrc = m.rxSrc := by
  have hfixed : ∀ {a b : McMesh}, b.fixed = a.fixed → b.cfg = a.cfg ∧ b.id = a.id ∧ b.rxSrc = a.rxSrc :=
    fun hf => ⟨congrArg MeshFixed.cfg hf, congrArg MeshFixed.id hf, congrArg MeshFixed.rxSrc hf⟩
  cases h with
  | malformed _ _ hn => exact hfixed hn.fixed
  | duplicate _ _ _ hn => exact hfixed hn.fixed
  | refused _ m₀ _ _ hrec hheard =>
    obtain ⟨hcfg, hid, hsrc⟩ := hfixed hrec.fixed
    exact ⟨hheard.cfg.trans hcfg, hheard.id.trans hid, hheard.rxSrc.trans hsrc⟩
  | relayed pkt m₀ m₁ power v hparse hrec hheard _ hrelay =>
    obtain ⟨hcfg, hid, hsrc⟩ := hfixed hrec.fixed
    obtain ⟨hcfg', hid', hsrc'⟩ := hfixed (relay_fixed hal m₁ (pkt.heardAt rssiDbm snrQ) power)
    rw [hrelay] at hcfg' hid' hsrc'
    exact ⟨hcfg'.trans (hheard.cfg.trans hcfg), hid'.trans (hheard.id.trans hid),
      hsrc'.trans (hheard.rxSrc.trans hsrc)⟩

/-- The relayed copy has the hash of the packet it is a copy of. -/
theorem pktCalcHash_relayCopy {id : McIdentity} {pkt out : McPacket}
    (hcopy : relayCopy id pkt = some out) (htrace : pktPayloadType pkt ≠ payloadTypeTrace) :
    pktCalcHash C out.onWire = pktCalcHash C pkt := by
  obtain ⟨hhead, -, hpay⟩ := relayCopy_spec hcopy
  have hhead' : out.onWire.header = pkt.header := hhead
  refine pktCalcHash_congr C hhead' hpay ?_
  rwa [pktPayloadType, hhead']

/-- A relayed packet that is offered to the hub was heard on RF, and new. -/
theorem Outcome.relayOffer (h : Outcome C hal m raw rssiDbm snrQ m' v) {out : Bytes}
    (he : Event.offer out false ∈ m'.events) :
    Event.offer out false ∈ m.events ∨
      (m.rxSrc ≠ .backbone ∧ ∃ pkt, pktParse out = .ok pkt ∧ pktCalcHash C pkt ∉ m.seen) := by
  -- a note offers nothing
  have hold : ∀ {m₁ : McMesh}, Noted m m₁ → Event.offer out false ∈ m₁.events →
      Event.offer out false ∈ m.events := by
    intro m₁ hn hin
    rcases hn.reports _ hin with hin | hrep
    · exact hin
    · cases hrep
  -- what is offered before the relay is the node's own
  have hearlier : ∀ {m₀ m₁ : McMesh} {hash : Bytes} {pkt : McPacket} {k : Nat}, Recorded m m₀ hash →
      Heard C hal pkt k m₀ m₁ → Event.offer out false ∈ m₁.events →
      Event.offer out false ∈ m.events := by
    intro m₀ m₁ hash pkt k hrec hheard hin
    rcases hheard.offers hin with hin | ⟨hown, -⟩
    · rcases hrec.reports _ hin with hin | hrep | hne
      · exact hin
      · cases hrep
      · cases hne
    · cases hown
  cases h with
  | malformed _ _ hn => exact .inl (hold hn he)
  | duplicate _ _ _ hn => exact .inl (hold hn he)
  | refused _ _ _ _ hrec hheard => exact .inl (hearlier hrec hheard he)
  | relayed pkt m₀ m₁ power v hparse hrec hheard hacc hrelay =>
    -- the relay has a copy to send, or counts a drop
    cases hcopy : relayCopy m₁.id (pkt.heardAt rssiDbm snrQ) with
    | none =>
      obtain ⟨-, hkept, -⟩ := relay_of_none hal m₁ _ power hcopy
      simp only [hrelay] at hkept
      rcases hkept.reports _ he with hin | hrep
      · exact .inl (hearlier hrec hheard hin)
      · cases hrep
    | some copy =>
      rcases relay_of_some hal m₁ _ power hcopy with ⟨-, -, hn⟩ | ⟨-, -, due, hq⟩
      · simp only [hrelay] at hn
        rcases hn.reports _ he with hin | hrep
        · exact .inl (hearlier hrec hheard hin)
        · cases hrep
      · simp only [hrelay] at hq
        rcases hq.offers _ he with hin | hrep | ⟨hsrc, out', hser, heq⟩
        · exact .inl (hearlier hrec hheard hin)
        · cases hrep
        · -- the one new offer is the copy's own frame
          cases heq
          have hsrc₁ : m₁.rxSrc = m.rxSrc := hheard.rxSrc.trans (congrArg MeshFixed.rxSrc hrec.fixed)
          refine .inr ⟨by rwa [← hsrc₁], copy.onWire, pktParse_pktSerialize hser, ?_⟩
          rw [pktCalcHash_relayCopy hcopy (accepted_not_trace hacc)]
          exact hrec.absent

end

/-! ## The step -/

section
variable (C : Crypto) (m : McMesh) (x : Input)

/-- A broken frame is counted and shown. -/
theorem meshOnRxError_noted (crc : Bool) (rssiDbm snrQ : Int) :
    Noted m (meshOnRxError m crc rssiDbm snrQ) := by
  unfold meshOnRxError
  split
  · exact (Noted.bump m fun _ => by rfl).trans (.monitor _ trivial)
  · exact (Noted.bump m fun _ => by rfl).trans (.monitor _ trivial)

/-- Any input. -/
theorem Input.run_ringLog : ∃ k, RingLog k m (x.run C m) := by
  cases x with
  | recv hal raw rssiDbm snrQ => exact (meshOnRecv_outcome C hal m raw rssiDbm snrQ).ringLog
  | backbone hal raw =>
    exact (meshOnRecv_outcome C hal { m with rxSrc := .backbone } raw monViaBackbone 0).ringLog
  | rxError crc rssiDbm snrQ => exact ⟨0, (meshOnRxError_noted m crc rssiDbm snrQ).ringLog⟩
  | sendAdvert hal => exact ⟨1, (meshSendAdvert_services C hal m).ringLog⟩
  | startProbe hal ch secs count => exact ⟨0, (meshStartProbe_noted hal m ch secs count).ringLog⟩
  | serviceProbe hal nowMs => exact ⟨1, (meshServiceProbe_services C hal m nowMs).ringLog⟩
  | serviceTimeofday hal => exact ⟨2, (meshServiceTimeofday_services C hal m).ringLog⟩
  | serviceTx hal nowMs =>
    have h := meshServiceTx_transmitted C hal m nowMs
    exact ⟨0, .of_eq h.seen h.recorded⟩
  | advertTick _ | configure _ | reload _ | watchers _ => exact ⟨0, .of_eq rfl rfl⟩

/-- The identity never changes, and between calls the source is as it was. -/
theorem Input.run_same : (x.run C m).id = m.id ∧ (x.run C m).rxSrc = m.rxSrc := by
  have hserv : ∀ {h : Hal} {k : Nat} {m' : McMesh}, Services h k m m' →
      m'.id = m.id ∧ m'.rxSrc = m.rxSrc := fun hs => ⟨hs.id, hs.rxSrc⟩
  cases x with
  | recv hal raw rssiDbm snrQ => exact (meshOnRecv_outcome C hal m raw rssiDbm snrQ).same.2
  | backbone hal raw =>
    exact ⟨(meshOnRecv_outcome C hal { m with rxSrc := .backbone } raw monViaBackbone 0).same.2.1, rfl⟩
  | rxError crc rssiDbm snrQ =>
    exact hserv (h := .still 0) (k := 0) (.of_noted (meshOnRxError_noted m crc rssiDbm snrQ))
  | sendAdvert hal => exact hserv (meshSendAdvert_services C hal m)
  | startProbe hal ch secs count =>
    exact hserv (h := hal) (k := 0) (.of_noted (meshStartProbe_noted hal m ch secs count))
  | serviceProbe hal nowMs => exact hserv (meshServiceProbe_services C hal m nowMs)
  | serviceTimeofday hal => exact hserv (meshServiceTimeofday_services C hal m)
  | serviceTx hal nowMs =>
    have h := (meshServiceTx_transmitted C hal m nowMs).fixed
    exact ⟨congrArg MeshFixed.id h, congrArg MeshFixed.rxSrc h⟩
  | advertTick _ | configure _ | reload _ | watchers _ => exact ⟨rfl, rfl⟩

/-- A step pushes absent hashes into the ring, and logs them. -/
theorem step_seen :
    m.seen.Fresh (recordedOf (step C m x).events) ∧
      (step C m x).seen = m.seen.pushAll (recordedOf (step C m x).events) := by
  obtain ⟨k, hashes, -, hlog, hfresh, hseen⟩ := x.run_ringLog C m.clearEvents
  have hrec : recordedOf (step C m x).events = hashes := hlog
  rw [hrec]
  exact ⟨hfresh, hseen⟩

/-- A relayed packet is offered for a new one heard on RF only. -/
theorem Input.run_relayOffer {out : Bytes} (he : Event.offer out false ∈ (x.run C m).events) :
    Event.offer out false ∈ m.events ∨ ∃ pkt, pktParse out = .ok pkt ∧ pktCalcHash C pkt ∉ m.seen := by
  have hserv : ∀ {h : Hal} {k : Nat} {m' : McMesh}, Services h k m m' →
      Event.offer out false ∈ m'.events → Event.offer out false ∈ m.events := by
    intro h k m' hs hin
    rcases hs.offers hin with hin | ⟨hown, -⟩
    · exact hin
    · cases hown
  cases x with
  | recv hal raw rssiDbm snrQ =>
    rcases (meshOnRecv_outcome C hal m raw rssiDbm snrQ).relayOffer he with hin | ⟨-, hnew⟩
    · exact .inl hin
    · exact .inr hnew
  | backbone hal raw =>
    rcases (meshOnRecv_outcome C hal { m with rxSrc := .backbone } raw monViaBackbone 0).relayOffer he
      with hin | ⟨hsrc, -⟩
    · exact .inl hin
    · exact absurd rfl hsrc
  | rxError crc rssiDbm snrQ =>
    exact .inl (hserv (h := .still 0) (k := 0) (.of_noted (meshOnRxError_noted m crc rssiDbm snrQ)) he)
  | sendAdvert hal => exact .inl (hserv (meshSendAdvert_services C hal m) he)
  | startProbe hal ch secs count =>
    exact .inl (hserv (h := hal) (k := 0) (.of_noted (meshStartProbe_noted hal m ch secs count)) he)
  | serviceProbe hal nowMs => exact .inl (hserv (meshServiceProbe_services C hal m nowMs) he)
  | serviceTimeofday hal => exact .inl (hserv (meshServiceTimeofday_services C hal m) he)
  | serviceTx hal nowMs =>
    rcases (meshServiceTx_transmitted C hal m nowMs).reports _ he with hin | hrep
    · exact .inl hin
    · cases hrep
  | advertTick _ | configure _ | reload _ | watchers _ => exact .inl he

/-- The hash of a relayed packet that a step offers was not in the ring. -/
theorem step_relayOffer {out : Bytes} {pkt : McPacket}
    (he : Event.offer out false ∈ (step C m x).events) (hparse : pktParse out = .ok pkt) :
    pktCalcHash C pkt ∉ m.seen := by
  rcases x.run_relayOffer C m.clearEvents he with hin | ⟨p, hp, hnew⟩
  · cases hin
  · rw [hparse] at hp
    cases hp
    exact hnew

end

end Meshcore
