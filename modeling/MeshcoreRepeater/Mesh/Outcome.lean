import MeshcoreRepeater.Mesh.Verdict

/-! # What a received frame can lead to

The inversion of `mesh_on_recv`: every call ends in one of four ways (`Outcome`),
and each says what the state is made of.

* `meshOnRecv_of_error`, `meshOnRecv_of_mem`, `meshOnRecv_of_not_mem`: the three ways into a call.
* `meshOnRecv_outcome`: the four ways out.
-/

namespace Meshcore

open ByteLib

/-! ## The relay -/

/-- The packet that is relayed, when the path allows it. -/
def relayCopy (id : McIdentity) (pkt : McPacket) : Option McPacket :=
  if pktIsRouteFlood pkt then
    if floodHasRoom pkt then some (appendOwnHash id pkt) else none
  else if isNextHop id pkt then some (stripFirstHash pkt) else none

/-- Hops count against a FLOOD packet; DIRECT packets go first. -/
def relayPriority (pkt : McPacket) : Nat :=
  if pktIsRouteFlood pkt then pktPathHashCount pkt + 1 else 0

section
variable (hal : Hal) (m : McMesh) (pkt : McPacket)

/-- A packet whose path forbids it is not relayed; a FLOOD packet is counted as
dropped. -/
theorem relay_of_none (power : Int) (h : relayCopy m.id pkt = none) :
    (relay hal m pkt power).2 = .localOnly ∧ Kept m (relay hal m pkt power).1 ∧
      (relay hal m pkt power).1.stats.fwdDropped =
        m.stats.fwdDropped + (if pktIsRouteFlood pkt then 1 else 0) := by
  unfold relayCopy at h
  unfold relay
  split at h
  · rename_i hflood
    rw [if_pos hflood]
    unfold relayFlood
    split at h
    · cases h
    rename_i hroom
    rw [if_neg hroom]
    have hdrop := Noted.drop (m.bump fun s => { s with fwdDropped := s.fwdDropped + 1 }) pkt
      (if pkt.markedDnr then "do-not-retransmit" else "path full")
    refine ⟨rfl, ⟨hdrop.fixed, hdrop.seen, hdrop.txq, hdrop.recorded, hdrop.reports⟩, ?_⟩
    rw [if_pos hflood]
    exact hdrop.drops
  · rename_i hflood
    simp only [if_neg hflood]
    unfold relayDirect
    split at h
    · cases h
    rename_i hnext
    rw [if_neg hnext]
    exact ⟨rfl, (Noted.refl m).toKept, rfl⟩

/-- Else it is queued, or refused by a silent node or a full queue. -/
theorem relay_of_some (power : Int) {out : McPacket} (h : relayCopy m.id pkt = some out) :
    ((meshRfSilent m hal.millis = true ∨ freeSlot m.txq = none) ∧
      (relay hal m pkt power).2 = .localOnly ∧ Noted m (relay hal m pkt power).1) ∨
    (meshRfSilent m hal.millis = false ∧ (relay hal m pkt power).2 = .forwarded ∧
      ∃ due, Queued m (relay hal m pkt power).1
        ⟨true, out, due, relayPriority pkt, power, false⟩) := by
  unfold relayCopy at h
  unfold relay relayPriority
  split at h
  · rename_i hflood
    split at h
    · rename_i hroom
      cases h
      simp only [if_pos hflood]
      unfold relayFlood
      rw [if_pos hroom]
      rcases enqueue_cases hal m (appendOwnHash m.id pkt) (pktPathHashCount pkt + 1)
        (floodBackoffMs hal (appendOwnHash m.id pkt)) power false with
        ⟨hwhy, hres, hn⟩ | ⟨hloud, hres, hq⟩
      -- the queue did not take it, so the relay says local
      · refine .inl ⟨hwhy, ?_⟩
        simp only
        split <;> rename_i heq <;> rw [heq] at hres hn
        · cases hres
        · exact ⟨rfl, hn⟩
      · refine .inr ⟨hloud, ?_⟩
        simp only
        split <;> rename_i heq <;> rw [heq] at hres hq
        · exact ⟨rfl, _, hq.note (.of_eq rfl rfl rfl rfl rfl)⟩
        · cases hres
    · cases h
  · rename_i hflood
    split at h
    · rename_i hnext
      cases h
      simp only [if_neg hflood]
      unfold relayDirect
      rw [if_pos hnext]
      rcases enqueue_cases hal m (stripFirstHash pkt) 0 0 power false with
        ⟨hwhy, hres, hn⟩ | ⟨hloud, hres, hq⟩
      · refine .inl ⟨hwhy, ?_⟩
        split <;> rename_i heq <;> rw [heq] at hres hn
        · cases hres
        · exact ⟨rfl, hn⟩
      · refine .inr ⟨hloud, ?_⟩
        split <;> rename_i heq <;> rw [heq] at hres hq
        · exact ⟨rfl, _, hq.note (.of_eq rfl rfl rfl rfl rfl)⟩
        · cases hres
    · cases h

/-- The relay changes nothing that is fixed, and not the ring. -/
theorem relay_frame (power : Int) :
    (relay hal m pkt power).1.fixed = m.fixed ∧ RingLog 0 m (relay hal m pkt power).1 := by
  cases hcopy : relayCopy m.id pkt with
  | none =>
    obtain ⟨-, hkept, -⟩ := relay_of_none hal m pkt power hcopy
    exact ⟨hkept.fixed, .of_eq hkept.seen hkept.recorded⟩
  | some out =>
    rcases relay_of_some hal m pkt power hcopy with ⟨-, -, hn⟩ | ⟨-, -, due, hq⟩
    · exact ⟨hn.fixed, .of_eq hn.seen hn.recorded⟩
    · exact ⟨hq.fixed, .of_eq hq.seen hq.recorded⟩

/-- What is fixed. -/
theorem relay_fixed (power : Int) : (relay hal m pkt power).1.fixed = m.fixed :=
  (relay_frame hal m pkt power).1

/-- The scope leaves the state to the relay as it found it. -/
theorem recvRelay_eq (aname sender : Bytes) :
    (∃ m', Noted m m' ∧ (recvScope m pkt aname sender).2 = none ∧
      recvRelay hal m pkt aname sender = (m', .policy)) ∨
    ∃ power, (recvScope m pkt aname sender).2 = some power ∧
      recvRelay hal m pkt aname sender = relay hal m pkt power := by
  unfold recvRelay recvScope
  by_cases hrole : m.cfg.role = .hotspot
  · simp only [if_pos hrole]
    split
    · exact .inl ⟨_, .drop m pkt _, rfl, rfl⟩
    · rename_i power _
      exact .inr ⟨power, rfl, rfl⟩
  · simp only [if_neg hrole]
    exact .inr ⟨m.cfg.txPower, rfl, rfl⟩

end

/-! ## Acceptance -/

/-- The power at which a new packet is to be relayed, when policy and scope accept
it. -/
def accepted (C : Crypto) (m : McMesh) (pkt : McPacket) : Option Int :=
  match recvVerdict C m.cfg m.rxSrc pkt with
  | .error _ => none
  | .ok (aname, sender) => (recvScope m pkt aname sender).2

/-- A repeater relays at its own power whatever the policy accepts. -/
theorem accepted_repeater {C : Crypto} {m : McMesh} {pkt : McPacket}
    (hrole : m.cfg.role = .repeater) :
    accepted C m pkt =
      (recvVerdict C m.cfg m.rxSrc pkt).toOption.map fun _ => m.cfg.txPower := by
  unfold accepted recvScope
  rw [hrole]
  split <;> rename_i heq <;> rw [heq] <;> rfl

/-- What is accepted is not a trace. -/
theorem accepted_not_trace {C : Crypto} {m : McMesh} {pkt : McPacket} {power : Int}
    (h : accepted C m pkt = some power) : pktPayloadType pkt ≠ payloadTypeTrace := by
  unfold accepted at h
  split at h
  · cases h
  · rename_i hverdict
    exact (recvVerdict_ok hverdict).2.1

/-- What the scope decides rests on configuration, source and affinity table. -/
theorem recvScope_snd_congr {m m' : McMesh} {pkt : McPacket} (hcfg : m'.cfg = m.cfg)
    (hsrc : m'.rxSrc = m.rxSrc)
    (haff : m'.affinityHash = m.affinityHash ∨ pktPayloadType pkt = payloadTypeAdvert)
    (aname sender : Bytes) :
    (recvScope m' pkt aname sender).2 = (recvScope m pkt aname sender).2 := by
  have hdecide : hotspotDecide m' pkt aname sender = hotspotDecide m pkt aname sender := by
    unfold hotspotDecide pathHasAffinity
    rw [hcfg, hsrc]
    rcases haff with heq | hadv
    · rw [heq]
    · simp only [hadv, if_true]
  unfold recvScope
  rw [hcfg, hdecide]
  split
  · split <;> rfl
  · rfl

/-- Acceptance looks at configuration, source and learnt hashes. -/
theorem accepted_congr {C : Crypto} {m m' : McMesh} {pkt : McPacket} (hcfg : m'.cfg = m.cfg)
    (hsrc : m'.rxSrc = m.rxSrc) (haff : m'.affinityHash = m.affinityHash) :
    accepted C m' pkt = accepted C m pkt := by
  unfold accepted
  rw [hcfg, hsrc]
  split
  · rfl
  · exact recvScope_snd_congr hcfg hsrc (.inl haff) _ _

/-- Affinity is learnt from adverts. -/
theorem Heard.affinityHash {C : Crypto} {hal : Hal} {pkt : McPacket} {k : Nat} {m m' : McMesh}
    (h : Heard C hal pkt k m m') :
    m'.affinityHash = m.affinityHash ∨ pktPayloadType pkt = payloadTypeAdvert := by
  induction h with
  | refl => exact .inl rfl
  | @services _ _ _ m₂ m₃ _ hs ih =>
    have haff : m₃.affinityHash = m₂.affinityHash := congrArg MeshFixed.affinityHash hs.fixed
    rwa [haff]
  | neighbor _ _ _ hsig => exact .inr (mcAdvertVerify_some hsig).1
  | learn _ _ _ hsig => exact .inr (mcAdvertVerify_some hsig).1
  | wake _ _ _ _ ih => exact ih

/-! ## The whole call -/

/-- A note behind it. -/
theorem Recorded.note {m m' m'' : McMesh} {hash : Bytes} (h : Recorded m m' hash)
    (hn : Noted m' m'') : Recorded m m'' hash where
  fixed := hn.fixed.trans h.fixed
  txq := hn.txq.trans h.txq
  absent := h.absent
  seen := hn.seen.trans h.seen
  recorded := hn.recorded.trans h.recorded
  reports := by
    intro e he
    rcases hn.reports e he with hin | hrep
    · exact h.reports e hin
    · exact .inr (.inl hrep)
  drops := hn.drops.trans h.drops

/-- A note in front of it. -/
theorem Recorded.of_noted {m m' m'' : McMesh} {hash : Bytes} (hn : Noted m m')
    (h : Recorded m' m'' hash) : Recorded m m'' hash where
  fixed := h.fixed.trans hn.fixed
  txq := h.txq.trans hn.txq
  absent := by rw [← hn.seen]; exact h.absent
  seen := by rw [h.seen, hn.seen]
  recorded := by rw [h.recorded, hn.recorded]
  reports := by
    intro e he
    rcases h.reports e he with hin | hnew
    · rcases hn.reports e hin with hin' | hrep
      · exact .inl hin'
      · exact .inr (.inl hrep)
    · exact .inr hnew
  drops := h.drops.trans hn.drops

/-- The signal is no part of the hash. -/
@[simp] theorem pktCalcHash_heardAt (C : Crypto) (pkt : McPacket) (rssi snrQ : Int) :
    pktCalcHash C (pkt.heardAt rssi snrQ) = pktCalcHash C pkt := rfl

section
variable (C : Crypto) (hal : Hal) (m : McMesh) (raw : Bytes) (rssiDbm snrQ : Int)

/-- A frame that does not parse is reported and dropped. -/
theorem meshOnRecv_of_error {e : Int} (h : pktParse raw = .error e) :
    (meshOnRecv C hal m raw rssiDbm snrQ).2 = .malformed ∧
      Noted m (meshOnRecv C hal m raw rssiDbm snrQ).1 := by
  unfold meshOnRecv
  rw [h]
  have hbump := (Noted.bumpIf m m.heardOnRf (f := fun s =>
    { s with rxAirtimeMs := s.rxAirtimeMs + hal.airtimeMs raw.length }) fun _ => rfl).trans
      (.bumpIf _ m.heardOnRf (f := fun s => { s with rxBadParse := s.rxBadParse + 1 }) fun _ => rfl)
  exact ⟨rfl, hbump.trans (.monitor _ trivial)⟩

/-- A packet the ring still holds is a duplicate. -/
theorem meshOnRecv_of_mem {pkt : McPacket} (h : pktParse raw = .ok pkt)
    (hseen : pktCalcHash C pkt ∈ m.seen) :
    (meshOnRecv C hal m raw rssiDbm snrQ).2 = .duplicate ∧
      Noted m (meshOnRecv C hal m raw rssiDbm snrQ).1 := by
  have hair := Noted.bumpIf m m.heardOnRf (f := fun s =>
    { s with rxAirtimeMs := s.rxAirtimeMs + hal.airtimeMs raw.length }) fun _ => rfl
  unfold meshOnRecv
  rw [h]
  simp only
  generalize m.bumpIf m.heardOnRf _ = m₁ at hair
  have htotal := Noted.bumpIf m₁ m₁.heardOnRf
    (f := fun s => { s with rxTotal := s.rxTotal + 1 }) fun _ => rfl
  unfold recvParsed
  simp only [pktCalcHash_heardAt]
  generalize m₁.bumpIf m₁.heardOnRf _ = m₂ at htotal
  -- counting airtime and frames does not touch the ring
  have hseen₂ : pktCalcHash C pkt ∈ m₂.seen := by rwa [htotal.seen, hair.seen]
  rcases seenCheckAndAdd_cases m₂ (pktCalcHash C pkt) with ⟨-, heq⟩ | ⟨m₃, hrec, -⟩
  · rw [heq]
    exact ⟨rfl, hair.trans (htotal.trans (Noted.bumpIfDrop m₂ _ _ _ fun _ => rfl))⟩
  · exact absurd hseen₂ hrec.absent

/-- Any other packet is recorded, then decided on. -/
theorem meshOnRecv_of_not_mem {pkt : McPacket} (h : pktParse raw = .ok pkt)
    (hseen : pktCalcHash C pkt ∉ m.seen) :
    ∃ m₀, Recorded m m₀ (pktCalcHash C pkt) ∧
      meshOnRecv C hal m raw rssiDbm snrQ = recvFresh C hal m₀ (pkt.heardAt rssiDbm snrQ) := by
  have hair := Noted.bumpIf m m.heardOnRf (f := fun s =>
    { s with rxAirtimeMs := s.rxAirtimeMs + hal.airtimeMs raw.length }) fun _ => rfl
  unfold meshOnRecv
  rw [h]
  simp only
  generalize m.bumpIf m.heardOnRf _ = m₁ at hair
  have htotal := Noted.bumpIf m₁ m₁.heardOnRf
    (f := fun s => { s with rxTotal := s.rxTotal + 1 }) fun _ => rfl
  unfold recvParsed
  simp only [pktCalcHash_heardAt]
  generalize m₁.bumpIf m₁.heardOnRf _ = m₂ at htotal
  have hseen₂ : pktCalcHash C pkt ∉ m₂.seen := by rwa [htotal.seen, hair.seen]
  rcases seenCheckAndAdd_cases m₂ (pktCalcHash C pkt) with ⟨hin, -⟩ | ⟨m₃, hrec, heq⟩
  · exact absurd hin hseen₂
  · rw [heq]
    refine ⟨_, ?_, rfl⟩
    exact Recorded.of_noted (hair.trans htotal) (hrec.note (.bumpIf m₃ _ fun _ => rfl))

/-- How a call of `mesh_on_recv` ends. -/
inductive Outcome (m' : McMesh) : MeshRx → Prop where
  | malformed (e : Int) : pktParse raw = .error e → Noted m m' → Outcome m' .malformed
  | duplicate (pkt : McPacket) : pktParse raw = .ok pkt → pktCalcHash C pkt ∈ m.seen →
      Noted m m' → Outcome m' .duplicate
  | refused (pkt : McPacket) (m₀ : McMesh) (v : MeshRx) : pktParse raw = .ok pkt →
      Recorded m m₀ (pktCalcHash C pkt) →
      Heard C hal (pkt.heardAt rssiDbm snrQ) (recvBudget m.cfg) m₀ m' →
      accepted C m (pkt.heardAt rssiDbm snrQ) = none →
      v = .policy ∨ v = .localOnly → Outcome m' v
  | relayed (pkt : McPacket) (m₀ m₁ : McMesh) (power : Int) (v : MeshRx) :
      pktParse raw = .ok pkt → Recorded m m₀ (pktCalcHash C pkt) →
      Heard C hal (pkt.heardAt rssiDbm snrQ) (recvBudget m.cfg) m₀ m₁ →
      accepted C m (pkt.heardAt rssiDbm snrQ) = some power →
      relay hal m₁ (pkt.heardAt rssiDbm snrQ) power = (m', v) → Outcome m' v

/-- Every call ends in one of these ways. -/
theorem meshOnRecv_outcome :
    Outcome C hal m raw rssiDbm snrQ (meshOnRecv C hal m raw rssiDbm snrQ).1
      (meshOnRecv C hal m raw rssiDbm snrQ).2 := by
  cases hparse : pktParse raw with
  | error e =>
    obtain ⟨hres, hn⟩ := meshOnRecv_of_error C hal m raw rssiDbm snrQ hparse
    rw [hres]
    exact .malformed e hparse hn
  | ok pkt =>
    by_cases hseen : pktCalcHash C pkt ∈ m.seen
    · obtain ⟨hres, hn⟩ := meshOnRecv_of_mem C hal m raw rssiDbm snrQ hparse hseen
      rw [hres]
      exact .duplicate pkt hparse hseen hn
    · obtain ⟨m₀, hrec, heq⟩ := meshOnRecv_of_not_mem C hal m raw rssiDbm snrQ hparse hseen
      have hcfg : m₀.cfg = m.cfg := congrArg MeshFixed.cfg hrec.fixed
      have hsrc : m₀.rxSrc = m.rxSrc := congrArg MeshFixed.rxSrc hrec.fixed
      have haff : m₀.affinityHash = m.affinityHash := congrArg MeshFixed.affinityHash hrec.fixed
      obtain ⟨m₁, hheard, hfresh⟩ := recvFresh_spec C hal m₀ (pkt.heardAt rssiDbm snrQ)
      rw [hcfg] at hheard
      rw [hcfg, hsrc] at hfresh
      rw [heq, hfresh]
      cases hv : recvVerdict C m.cfg m.rxSrc (pkt.heardAt rssiDbm snrQ) with
      | error r =>
        exact .refused pkt m₀ r hparse hrec hheard (by rw [accepted, hv]) (recvVerdict_error hv)
      | ok names =>
        -- the scope is asked after what the packet has taught
        have hscope : (recvScope m₁ (pkt.heardAt rssiDbm snrQ) names.1 names.2).2 =
            accepted C m (pkt.heardAt rssiDbm snrQ) := by
          rw [accepted, hv]
          refine recvScope_snd_congr (hheard.cfg.trans hcfg) (hheard.rxSrc.trans hsrc) ?_ _ _
          rw [← haff]
          exact hheard.affinityHash
        -- out of scope, or handed to the relay
        rcases recvRelay_eq hal m₁ (pkt.heardAt rssiDbm snrQ) names.1 names.2 with
          ⟨m', hn, hnone, heq'⟩ | ⟨power, hsome, heq'⟩
        · simp only [heq']
          exact .refused pkt m₀ .policy hparse hrec (hheard.note hn) (hscope ▸ hnone) (.inl rfl)
        · simp only [heq']
          exact .relayed pkt m₀ m₁ power _ hparse hrec hheard (hscope ▸ hsome) rfl

end

end Meshcore
