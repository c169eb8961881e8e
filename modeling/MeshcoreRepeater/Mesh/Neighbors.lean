import MeshcoreRepeater.Mesh.Hub

/-! # The node among its neighbours

The neighbour table holds the nodes whose adverts this radio hears. The node's own
key should not be among them, nor its own advert in the queue as a relay. No test
says so: what keeps an own advert that comes back from being taken for another
node's is the dedup ring alone, and `run_noSelf_iff` shows that this is exactly
as far as the property goes.

* `meshOnRecv_ownEcho`: an own advert that comes back makes the node its own neighbour.
* `step_noSelf_iff`, `run_noSelf_iff`: the step lemma and the run lemma.
-/

namespace Meshcore

set_option maxRecDepth 8000

open ByteLib

/-! ## The table -/

section
variable (hal : Hal) (m : McMesh) (pub : Bytes) (pkt : McPacket) (rssi snrQ : Int)

/-- A slot is left alone, or is the advertiser's. -/
theorem neighborUpdate_slot (i : Fin meshMaxNeighbors) :
    (neighborUpdate hal m pub pkt rssi snrQ).neighbors i = m.neighbors i ∨
      ((neighborUpdate hal m pub pkt rssi snrQ).neighbors i).pub = pub := by
  unfold neighborUpdate
  split
  · rename_i j hfind
    have hj := List.find?_some hfind
    simp only [Bool.and_eq_true, beq_iff_eq] at hj
    -- the advertiser's own slot, or another one
    by_cases hij : i = j
    · subst hij
      exact .inr (by simpa [MeshNeighbor.heard] using hj.2)
    · exact .inl (by simp [hij])
  · by_cases hij : i = newNeighborSlot m.neighbors
    · exact .inr (by simp [hij, MeshNeighbor.heard])
    · exact .inl (by simp [hij])

/-- The advertiser has a slot. -/
theorem exists_neighborUpdate :
    ∃ i, ((neighborUpdate hal m pub pkt rssi snrQ).neighbors i).used = true ∧
      ((neighborUpdate hal m pub pkt rssi snrQ).neighbors i).pub = pub := by
  unfold neighborUpdate
  split
  · rename_i j hfind
    have hj := List.find?_some hfind
    simp only [Bool.and_eq_true, beq_iff_eq] at hj
    exact ⟨j, by simpa [MeshNeighbor.heard] using hj⟩
  · exact ⟨newNeighborSlot m.neighbors, by simp [MeshNeighbor.heard]⟩

end

/-! ## No self -/

/-- No neighbour is this node, and no relay in the queue is its advert. -/
structure NoSelf (m : McMesh) : Prop where
  neighbors : ∀ i, (m.neighbors i).used = true → (m.neighbors i).pub ≠ m.id.pub.bytes
  relays : ∀ i, (m.txq i).used = true → (m.txq i).own = false →
    pktPayloadType (m.txq i).pkt = payloadTypeAdvert →
    advertPub (m.txq i).pkt.payload ≠ m.id.pub.bytes

/-- A genuine advert of this node, not blocked by its own lists, that the ring does
not hold. -/
structure OwnEcho (C : Crypto) (m : McMesh) (pkt : McPacket) : Prop where
  verify : mcAdvertVerify C pkt = some m.id.pub.bytes
  passes : advertBlocked m.cfg pkt m.id.pub.bytes = false
  absent : pktCalcHash C pkt ∉ m.seen

/-- The table is as it was, and no relay entry is new. -/
structure NoRelayAdded (m m' : McMesh) : Prop where
  id : m'.id = m.id
  neighbors : m'.neighbors = m.neighbors
  relays : ∀ i, (m'.txq i).used = true → (m'.txq i).own = false →
    (m.txq i).used = true ∧ (m'.txq i).pkt = (m.txq i).pkt ∧ (m.txq i).own = false

namespace NoRelayAdded

variable {m m' : McMesh}

/-- Then a state without the node itself stays one. -/
theorem noSelf (h : NoRelayAdded m m') (hm : NoSelf m) : NoSelf m' where
  neighbors := by
    intro i hi
    rw [h.neighbors] at hi ⊢
    rw [h.id]
    exact hm.neighbors i hi
  relays := by
    intro i hi hown htype
    obtain ⟨hused, hpkt, hown'⟩ := h.relays i hi hown
    rw [hpkt] at htype ⊢
    rw [h.id]
    exact hm.relays i hused hown' htype

/-- Table and queue are as they were. -/
theorem of_fixed (hf : m'.fixed = m.fixed) (ht : m'.txq = m.txq) : NoRelayAdded m m' where
  id := congrArg MeshFixed.id hf
  neighbors := congrArg MeshFixed.neighbors hf
  relays := fun i hi hown => by
    rw [ht] at hi hown ⊢
    exact ⟨hi, rfl, hown⟩

/-- What the services queue is marked as the node's own. -/
theorem of_services {hal : Hal} {k : Nat} (h : Services hal k m m') : NoRelayAdded m m' where
  id := h.id
  neighbors := h.neighbors
  relays := by
    intro i hi hown
    rcases h.txq i with heq | ⟨-, -, hown'⟩
    · rw [heq] at hi hown ⊢
      exact ⟨hi, rfl, hown⟩
    · rw [hown] at hown'
      cases hown'

/-- Sending takes entries away, and brings in none. -/
theorem of_transmitted (h : Transmitted m m') : NoRelayAdded m m' where
  id := congrArg MeshFixed.id h.fixed
  neighbors := congrArg MeshFixed.neighbors h.fixed
  relays := by
    intro i hi hown
    obtain ⟨hused, hpkt, hown'⟩ := h.txq i hi
    exact ⟨hused, hpkt, by rwa [← hown']⟩

end NoRelayAdded

/-! ## A frame heard on RF -/

section
variable {C : Crypto} {hal : Hal} {m m' : McMesh} {raw : Bytes} {rssiDbm snrQ : Int} {v : MeshRx}

/-- An accepted advert carries the key it is verified under, and is not blocked. -/
theorem Licensed.advert_key {cfg : McConfig} {pkt : McPacket} (h : Licensed C cfg pkt)
    (htype : pktPayloadType pkt = payloadTypeAdvert) :
    mcAdvertVerify C pkt = some (advertPub pkt.payload) ∧
      advertBlocked cfg pkt (advertPub pkt.payload) = false := by
  have hnot : isGroupType (pktPayloadType pkt) = true → False := by
    rw [htype]
    decide
  cases h with
  | advert pub _ hsig hname hkey =>
    obtain ⟨-, -, rfl, -⟩ := mcAdvertVerify_some hsig
    exact ⟨hsig, by simp [advertBlocked, hname, hkey]⟩
  | channel _ hg => exact (hnot hg).elim
  | region _ hg => exact (hnot hg).elim

/-- What is heard brings the node's own key into the table only by its own advert. -/
theorem Heard.noSelf {pkt : McPacket} {k : Nat} {m₀ m₁ : McMesh} {hash : Bytes} (hm : NoSelf m)
    (hrec : Recorded m m₀ hash) (h : Heard C hal pkt k m₀ m₁)
    (hno : ¬ (mcAdvertVerify C pkt = some m.id.pub.bytes ∧
      advertBlocked m.cfg pkt m.id.pub.bytes = false)) : NoSelf m₁ := by
  have hm₀ : NoSelf m₀ := (NoRelayAdded.of_fixed hrec.fixed hrec.txq).noSelf hm
  have hid : m₀.id = m.id := congrArg MeshFixed.id hrec.fixed
  have hcfg : m₀.cfg = m.cfg := congrArg MeshFixed.cfg hrec.fixed
  constructor
  · rw [h.id]
    intro i hi
    rcases h.neighbors with heq | ⟨pub, -, hsig, hblocked, heq⟩
    · rw [heq] at hi ⊢
      exact hm₀.neighbors i hi
    · rw [heq] at hi ⊢
      rcases neighborUpdate_slot hal m₀ pub pkt pkt.rssiDbm pkt.snrQ i with hslot | hslot
      · rw [hslot] at hi ⊢
        exact hm₀.neighbors i hi
      -- the slot is the advertiser's, and that is not the node
      · rw [hslot, hid]
        rintro rfl
        exact hno ⟨hsig, hcfg ▸ hblocked⟩
  · rw [h.id]
    intro i hi hown htype
    rcases h.txq i with heq | ⟨-, -, hown'⟩
    · rw [heq] at hi hown htype ⊢
      exact hm₀.relays i hi hown htype
    · rw [hown] at hown'
      cases hown'

/-- Without an own echo a call keeps the node's key out of table and relays. -/
theorem Outcome.noSelf (h : Outcome C hal m raw rssiDbm snrQ m' v) (hm : NoSelf m)
    (hno : ¬ ∃ pkt, pktParse raw = .ok pkt ∧ OwnEcho C m pkt) : NoSelf m' := by
  -- a new packet that were the node's advert would be an echo
  have hkey : ∀ {pkt : McPacket} {m₀ : McMesh}, pktParse raw = .ok pkt →
      Recorded m m₀ (pktCalcHash C pkt) →
      ¬ (mcAdvertVerify C (pkt.heardAt rssiDbm snrQ) = some m.id.pub.bytes ∧
        advertBlocked m.cfg (pkt.heardAt rssiDbm snrQ) m.id.pub.bytes = false) := by
    rintro pkt m₀ hparse hrec ⟨hsig, hpass⟩
    exact hno ⟨pkt, hparse, hsig, hpass, hrec.absent⟩
  cases h with
  | malformed _ _ hn => exact (NoRelayAdded.of_fixed hn.fixed hn.txq).noSelf hm
  | duplicate _ _ _ hn => exact (NoRelayAdded.of_fixed hn.fixed hn.txq).noSelf hm
  | refused pkt m₀ v hparse hrec hheard => exact hheard.noSelf hm hrec (hkey hparse hrec)
  | relayed pkt m₀ m₁ power v hparse hrec hheard hacc hrelay =>
    have hm₁ : NoSelf m₁ := hheard.noSelf hm hrec (hkey hparse hrec)
    cases hcopy : relayCopy m₁.id (pkt.heardAt rssiDbm snrQ) with
    | none =>
      obtain ⟨-, hkept, -⟩ := relay_of_none hal m₁ _ power hcopy
      simp only [hrelay] at hkept
      exact (NoRelayAdded.of_fixed hkept.fixed hkept.txq).noSelf hm₁
    | some out =>
      rcases relay_of_some hal m₁ _ power hcopy with ⟨-, -, hn⟩ | ⟨-, -, due, hq⟩
      · simp only [hrelay] at hn
        exact (NoRelayAdded.of_fixed hn.fixed hn.txq).noSelf hm₁
      simp only [hrelay] at hq
      have hid' : m'.id = m₁.id := congrArg MeshFixed.id hq.fixed
      have hnb' : m'.neighbors = m₁.neighbors := congrArg MeshFixed.neighbors hq.fixed
      obtain ⟨i, -, htxq⟩ := hq.slot
      constructor
      · rw [hid', hnb']
        exact hm₁.neighbors
      · rw [hid', htxq]
        intro j
        by_cases hji : j = i
        · -- the copy that was queued is not the node's own advert
          subst hji
          simp only [Function.update_self]
          intro _ _ htype hpub
          obtain ⟨hhead, -, hpay⟩ := relayCopy_spec hcopy
          have hwf := pktParse_wellFormed hparse
          have hlic : Licensed C m.cfg (pkt.heardAt rssiDbm snrQ) :=
            licensed_of_accepted hwf.payload_le hacc
          rw [pktPayloadType, hhead] at htype
          obtain ⟨hsig, hpass⟩ := hlic.advert_key htype
          have hid : m₁.id = m.id := hheard.id.trans (congrArg MeshFixed.id hrec.fixed)
          rw [hpay, hid] at hpub
          rw [hpub] at hsig hpass
          exact hkey hparse hrec ⟨hsig, hpass⟩
        · simp only [Function.update_of_ne hji]
          exact hm₁.relays j

end

/-! ## An echo taken in -/

section
variable (C : Crypto) (hal : Hal) (m : McMesh) (pkt : McPacket)

/-- Waking up does not touch the table. -/
theorem hotspotWake_neighbors (who : Bytes) :
    (hotspotWake C hal m pkt who).neighbors = m.neighbors := by
  rcases hotspotWake_fixed C hal m pkt who with ⟨t, ht⟩
  exact congrArg MeshFixed.neighbors ht

/-- Hearing an advert enters the advertiser. -/
theorem advertHeard_neighbors (pub : Bytes) (atype : UInt8) (aname : Bytes) :
    (advertHeard C hal m pkt pub atype aname).neighbors =
      (neighborUpdate hal m pub pkt pkt.rssiDbm pkt.snrQ).neighbors := by
  have hupdate : (neighborUpdate hal (m.bump fun s => { s with rxAdvert := s.rxAdvert + 1 }) pub pkt
      pkt.rssiDbm pkt.snrQ).neighbors = (neighborUpdate hal m pub pkt pkt.rssiDbm pkt.snrQ).neighbors := by
    unfold neighborUpdate
    simp only [McMesh.bump]
    split <;> rfl
  -- nor does learning a hash
  have hlearn : ∀ m' : McMesh, (learnAffinity m' pub).neighbors = m'.neighbors := by
    intro m'
    obtain ⟨t, ht⟩ := learnAffinity_eq m' pub
    rw [ht]
  unfold advertHeard
  simp only
  rw [← hupdate]
  split
  · rw [hotspotWake_neighbors]
    split
    · exact hlearn _
    · rfl
  · split
    · exact hlearn _
    · rfl

/-- A good advert on RF enters its sender and lets the name through. -/
theorem recvAdvert_neighbors {pub : Bytes} (hrf : m.rxSrc = .rf)
    (hsig : mcAdvertVerify C pkt = some pub) (hpass : advertBlocked m.cfg pkt pub = false) :
    (recvAdvert C hal m pkt).1.neighbors =
        (neighborUpdate hal m pub pkt pkt.rssiDbm pkt.snrQ).neighbors ∧
      (recvAdvert C hal m pkt).2 = some (advertTypeName pkt).2 := by
  unfold recvAdvert
  rw [hsig]
  simp only [hpass, Bool.false_eq_true, if_false, (heardOnRf_iff m).mpr hrf, if_true, and_true]
  have hrep := advertReported_noted hal
    (advertHeard C hal m pkt pub (advertTypeName pkt).1 (advertTypeName pkt).2) pkt pub
    (advertTypeName pkt).1 (advertTypeName pkt).2
  exact (congrArg MeshFixed.neighbors hrep.fixed).trans (advertHeard_neighbors C hal m pkt pub _ _)

/-- After its own stage a good advert changes nothing that is fixed. -/
theorem recvFresh_advert_fixed {aname : Bytes} (htype : pktPayloadType pkt = payloadTypeAdvert)
    (hname : (recvAdvert C hal m pkt).2 = some aname) :
    (recvFresh C hal m pkt).1.fixed = (recvAdvert C hal m pkt).1.fixed := by
  have htrace : payloadTypeAdvert ≠ payloadTypeTrace := by decide
  unfold recvFresh
  simp only [htype, if_true, if_neg htrace]
  generalize recvAdvert C hal m pkt = r at hname
  obtain ⟨m₁, name⟩ := r
  simp only at hname
  rw [hname]
  simp only
  split
  · rfl
  -- the policy has nothing to say about an advert
  · have hpol : recvPolicy C hal m₁ pkt = (m₁, .ok []) := by
      simp [recvPolicy, classifyForward, htype]
    rw [hpol]
    exact (recvRelay_frame hal m₁ pkt _ _).1

/-- Whatever becomes of a good advert, its sender is then in the table. -/
theorem recvFresh_neighbors {pub : Bytes} (hrf : m.rxSrc = .rf)
    (hsig : mcAdvertVerify C pkt = some pub) (hpass : advertBlocked m.cfg pkt pub = false) :
    (recvFresh C hal m pkt).1.neighbors =
      (neighborUpdate hal m pub pkt pkt.rssiDbm pkt.snrQ).neighbors := by
  obtain ⟨hnb, hname⟩ := recvAdvert_neighbors C hal m pkt hrf hsig hpass
  have hfixed := recvFresh_advert_fixed C hal m pkt (mcAdvertVerify_some hsig).1 hname
  exact (congrArg MeshFixed.neighbors hfixed).trans hnb

/-- An own echo heard on RF makes the node its own neighbour. -/
theorem meshOnRecv_ownEcho {raw : Bytes} {rssiDbm snrQ : Int} {pkt : McPacket} (hrf : m.rxSrc = .rf)
    (hparse : pktParse raw = .ok pkt) (hecho : OwnEcho C m pkt) :
    ¬ NoSelf (meshOnRecv C hal m raw rssiDbm snrQ).1 := by
  intro hself
  have hid : (meshOnRecv C hal m raw rssiDbm snrQ).1.id = m.id :=
    (meshOnRecv_outcome C hal m raw rssiDbm snrQ).same.2.1
  obtain ⟨m₀, hrec, heq⟩ :=
    meshOnRecv_of_not_mem C hal m raw rssiDbm snrQ hparse hecho.absent
  have hnb := recvFresh_neighbors C hal m₀ (pkt.heardAt rssiDbm snrQ)
    ((congrArg MeshFixed.rxSrc hrec.fixed).trans hrf) hecho.verify
    (by rw [show m₀.cfg = m.cfg from congrArg MeshFixed.cfg hrec.fixed]; exact hecho.passes)
  -- the slot of the advertiser, who is the node
  obtain ⟨i, hused, hpub⟩ := exists_neighborUpdate hal m₀ m.id.pub.bytes
    (pkt.heardAt rssiDbm snrQ) (pkt.heardAt rssiDbm snrQ).rssiDbm (pkt.heardAt rssiDbm snrQ).snrQ
  rw [← hnb, ← heq] at hused hpub
  exact hself.neighbors i hused (hpub.trans (by rw [hid]))

end

/-! ## A frame from the hub -/

section
variable (C : Crypto) (hal : Hal) {m : McMesh} (raw : Bytes) (rssiDbm snrQ : Int)

/-- Nothing stands in the way of relaying a new packet. -/
def CanRelay (C : Crypto) (hal : Hal) (m : McMesh) (pkt : McPacket) : Prop :=
  (accepted C m pkt).isSome = true ∧ (relayCopy m.id pkt).isSome = true ∧ freeSlot m.txq ≠ none ∧
    meshRfSilent m hal.millis = false

/-- The hub's frames touch the queue only, so only a relay counts. -/
theorem meshOnRecv_hub_noSelf_iff (hsrc : m.rxSrc = .backbone) (hm : NoSelf m) :
    NoSelf (meshOnRecv C hal m raw rssiDbm snrQ).1 ↔
      ¬ ∃ pkt, pktParse raw = .ok pkt ∧ OwnEcho C m pkt ∧
        CanRelay C hal m (pkt.heardAt rssiDbm snrQ) := by
  obtain ⟨_, _, _, _, hframe⟩ := (meshOnRecv_bridgeOnly C hal raw rssiDbm snrQ hsrc).frame
  have hid : (meshOnRecv C hal m raw rssiDbm snrQ).1.id = m.id := by rw [hframe]
  have hnb : (meshOnRecv C hal m raw rssiDbm snrQ).1.neighbors = m.neighbors := by rw [hframe]
  -- with the queue unchanged there is nothing new
  have hquiet : (meshOnRecv C hal m raw rssiDbm snrQ).1.txq = m.txq →
      NoSelf (meshOnRecv C hal m raw rssiDbm snrQ).1 := by
    intro htxq
    exact ⟨by rw [hid, hnb]; exact hm.neighbors, by rw [hid, htxq]; exact hm.relays⟩
  cases hparse : pktParse raw with
  | error e =>
    have hn := (meshOnRecv_of_error C hal m raw rssiDbm snrQ hparse).2
    exact iff_of_true (hquiet hn.txq) fun ⟨_, hp, _⟩ => by cases hp
  | ok pkt =>
  by_cases hseen : pktCalcHash C pkt ∈ m.seen
  · have hn := (meshOnRecv_of_mem C hal m raw rssiDbm snrQ hparse hseen).2
    refine iff_of_true (hquiet hn.txq) fun ⟨p, hp, hecho, _⟩ => ?_
    cases hp
    exact hecho.absent hseen
  obtain ⟨m₁, hfixed, htxq₁, ⟨hnone, htxq⟩ | ⟨power, hacc, hrelay⟩⟩ :=
    meshOnRecv_hub_new C hal raw rssiDbm snrQ hsrc hparse hseen
  -- policy or scope refuse it
  · refine iff_of_true (hquiet htxq) fun ⟨p, hp, _, hsome, _⟩ => ?_
    cases hp
    rw [hnone] at hsome
    cases hsome
  have hid₁ : m₁.id = m.id := congrArg MeshFixed.id hfixed
  cases hcopy : relayCopy m.id (pkt.heardAt rssiDbm snrQ) with
  | none =>
    -- the path forbids it
    have hkept := (relay_of_none hal m₁ _ power (hid₁ ▸ hcopy)).2.1
    rw [← hrelay] at hkept
    refine iff_of_true (hquiet (hkept.txq.trans htxq₁)) fun ⟨p, hp, _, _, hsome, _⟩ => ?_
    cases hp
    rw [hcopy] at hsome
    cases hsome
  | some out =>
  rcases relay_of_some hal m₁ _ power (hid₁ ▸ hcopy) with
    ⟨hwhy, -, hn⟩ | ⟨hloud, -, due, hq⟩
  · rw [← hrelay] at hn
    -- the node is silent or its queue full
    rw [meshRfSilent_congr hfixed, htxq₁] at hwhy
    refine iff_of_true (hquiet (hn.txq.trans htxq₁)) fun ⟨p, hp, _, _, _, hfree, hloud⟩ => ?_
    cases hp
    rcases hwhy with hsilent | hfull
    · rw [hloud] at hsilent
      cases hsilent
    · exact hfree hfull
  · -- the copy is queued: all hangs on whose advert it is
    rw [← hrelay] at hq
    obtain ⟨i, hslot, htxq⟩ := hq.slot
    rw [htxq₁] at hslot htxq
    obtain ⟨hhead, -, hpay⟩ := relayCopy_spec hcopy
    have hwf := pktParse_wellFormed hparse
    constructor
    · rintro hself ⟨p, hp, hecho, -⟩
      cases hp
      obtain ⟨htype, -, hpub, -⟩ := mcAdvertVerify_some hecho.verify
      refine hself.relays i (by simp [htxq]) (by simp [htxq]) ?_ ?_
      · simp only [htxq, Function.update_self, pktPayloadType, hhead]
        exact htype
      · simp only [htxq, Function.update_self, hpay, hid]
        exact hpub.symm
    · intro hno
      refine ⟨by rw [hid, hnb]; exact hm.neighbors, ?_⟩
      rw [hid, htxq]
      intro j
      by_cases hji : j = i
      · subst hji
        simp only [Function.update_self]
        intro _ _ htype hpub
        rw [pktPayloadType, hhead] at htype
        have hlic : Licensed C m.cfg (pkt.heardAt rssiDbm snrQ) :=
          licensed_of_accepted hwf.payload_le hacc
        obtain ⟨hsig, hpass⟩ := hlic.advert_key htype
        rw [hpay] at hpub
        rw [hpub] at hsig hpass
        refine hno ⟨pkt, rfl, ⟨hsig, hpass, hseen⟩, by rw [hacc]; rfl, by rw [hcopy]; rfl, ?_, ?_⟩
        · rw [hslot]
          exact Option.some_ne_none j
        · rwa [meshRfSilent_congr hfixed] at hloud
      · simp only [Function.update_of_ne hji]
        exact hm.relays j

end

/-! ## Whole runs -/

/-- An own advert comes back as news: on RF, or from the hub when it can be relayed. -/
def TakesOwnEcho (C : Crypto) (m : McMesh) : Input → Prop
  | .recv _ raw _ _ => ∃ pkt, pktParse raw = .ok pkt ∧ OwnEcho C m pkt
  | .backbone hal raw => ∃ pkt, pktParse raw = .ok pkt ∧ OwnEcho C m pkt ∧
      CanRelay C hal { m with rxSrc := .backbone } (pkt.heardAt monViaBackbone 0)
  | _ => False

/-- The events of the last step do not matter. -/
theorem takesOwnEcho_clearEvents {C : Crypto} {m : McMesh} {x : Input} :
    TakesOwnEcho C m.clearEvents x ↔ TakesOwnEcho C m x := by
  have hecho : ∀ pkt, OwnEcho C m.clearEvents pkt ↔ OwnEcho C m pkt := fun pkt =>
    ⟨fun h => ⟨h.verify, h.passes, h.absent⟩, fun h => ⟨h.verify, h.passes, h.absent⟩⟩
  cases x with
  | recv hal raw rssiDbm snrQ => simp only [TakesOwnEcho, hecho]
  | backbone hal raw =>
    have hacc : ∀ pkt, accepted C { m.clearEvents with rxSrc := .backbone } pkt =
        accepted C { m with rxSrc := .backbone } pkt := fun pkt => accepted_congr rfl rfl rfl
    simp only [TakesOwnEcho, hecho, CanRelay, hacc]
    rfl
  | _ => exact Iff.rfl

/-- A step keeps the node out of its own table and relays exactly when it takes no own
echo in. -/
theorem step_noSelf_iff {C : Crypto} {m : McMesh} {x : Input} (hrf : m.rxSrc = .rf) (hm : NoSelf m) :
    NoSelf (step C m x) ↔ ¬ TakesOwnEcho C m x := by
  rw [← takesOwnEcho_clearEvents, step]
  have hm' : NoSelf m.clearEvents := ⟨hm.neighbors, hm.relays⟩
  have hrf' : m.clearEvents.rxSrc = .rf := hrf
  generalize m.clearEvents = m at hm' hrf'
  have hserv : ∀ {h : Hal} {k : Nat} {m' : McMesh}, Services h k m m' →
      (NoSelf m' ↔ ¬ False) := fun hs =>
    iff_of_true ((NoRelayAdded.of_services hs).noSelf hm') id
  cases x with
  | recv hal raw rssiDbm snrQ =>
    constructor
    · rintro hself ⟨pkt, hparse, hecho⟩
      exact meshOnRecv_ownEcho C hal m hrf' hparse hecho hself
    · intro hno
      exact (meshOnRecv_outcome C hal m raw rssiDbm snrQ).noSelf hm' hno
  | backbone hal raw =>
    have hhub : NoSelf { m with rxSrc := .backbone } := ⟨hm'.neighbors, hm'.relays⟩
    have h := meshOnRecv_hub_noSelf_iff C hal raw monViaBackbone 0 rfl hhub
    have hback : NoSelf (meshOnBackbone C hal m raw).1 ↔
        NoSelf (meshOnRecv C hal { m with rxSrc := .backbone } raw monViaBackbone 0).1 :=
      ⟨fun h => ⟨h.neighbors, h.relays⟩, fun h => ⟨h.neighbors, h.relays⟩⟩
    have hecho : ∀ pkt, OwnEcho C { m with rxSrc := .backbone } pkt ↔ OwnEcho C m pkt := fun pkt =>
      ⟨fun h => ⟨h.verify, h.passes, h.absent⟩, fun h => ⟨h.verify, h.passes, h.absent⟩⟩
    simp only [hecho] at h
    exact hback.trans h
  | rxError crc rssiDbm snrQ =>
    exact hserv (h := .still 0) (k := 0) (.of_noted (meshOnRxError_noted m crc rssiDbm snrQ))
  | sendAdvert hal => exact hserv (meshSendAdvert_services C hal m)
  | startProbe hal ch secs count =>
    exact hserv (h := hal) (k := 0) (.of_noted (meshStartProbe_noted hal m ch secs count))
  | serviceProbe hal nowMs => exact hserv (meshServiceProbe_services C hal m nowMs)
  | serviceTimeofday hal => exact hserv (meshServiceTimeofday_services C hal m)
  | serviceTx hal nowMs =>
    exact iff_of_true
      ((NoRelayAdded.of_transmitted (meshServiceTx_transmitted C hal m nowMs)).noSelf hm') id
  | advertTick _ | configure _ | reload _ | watchers _ =>
    exact iff_of_true ⟨hm'.neighbors, hm'.relays⟩ id

/-- In a run from `mesh_init` the node is never its own neighbour and never relays its
own advert, exactly when no step takes an own echo in. -/
theorem run_noSelf_iff (C : Crypto) (hal : Hal) (id : McIdentity) (cfg : McConfig) (aprs : Bool)
    (mon : Option Nat) (bb : Bool) (xs : List Input) :
    (∀ pre post, xs = pre ++ post → NoSelf (run C (meshInit hal id cfg aprs mon bb) pre)) ↔
      Runs.Every (step C) (fun m x => ¬ TakesOwnEcho C m x) (meshInit hal id cfg aprs mon bb) xs := by
  refine Runs.inv_throughout_iff (fun m => m.rxSrc = .rf) ?_ ?_ rfl ?_ xs
  · intro m x hrf
    exact (x.run_same C m.clearEvents).2.trans hrf
  · intro m x hrf hm
    exact step_noSelf_iff hrf hm
  · -- an empty table and an empty queue
    exact ⟨fun i hi => (by cases hi), fun i hi => (by cases hi)⟩

/-! ## An echo after a restart -/

/-- A node's identity. -/
def ownIdentity : McIdentity :=
  ⟨Buf.ofBytes 32 (bytesBE 32 0xb531b9abd95f3d0acec807d6373c287bc456286206e953ef77f3c426dfccb14e),
    Buf.zero 64, true⟩

/-- Its signature on the advert below. -/
def ownSig : Bytes :=
  bytesBE 32 0x3de93b80458e6e42794d8c8364b95128f75e5d1d55c52e5aea4ce632246e76f1 ++
    bytesBE 32 0xcde987f09ef69fb2e41ba1e55faf98a3f2a5f87b6632f22d098e6b0851130c08

/-- What a node of that identity and the default configuration advertises. -/
def ownAdvert : McPacket :=
  { McPacket.zero with
    header := 0x11
    payload := ownIdentity.pub.bytes ++ bytesBE 4 0x0078e768 ++ ownSig ++ (0x82 :: lit "HamRepeater") }

/-- Ed25519 and SHA-256 on that advert. -/
def ownCrypto : Crypto :=
  { Crypto.ofTable
      [([4] ++ ownAdvert.payload,
        bytesBE 32 0x69e9c0bf5c6a9a17e047822e6256c39a567d33140394012873b4d128d9c27d62)]
      [(ownIdentity.pub.bytes, ownSig,
        ownIdentity.pub.bytes ++ bytesBE 4 0x0078e768 ++ (0x82 :: lit "HamRepeater"))] with
    cryptoSign := fun _ _ => Buf.ofBytes 64 ownSig }

/-- The node after a restart: its ring is empty. -/
def restarted : McMesh := meshInit (.still 0) ownIdentity configDefaults false none false

/-- The advert it sent before, repeated by a neighbour. -/
def echoFrame : Bytes := 0x11 :: 0x01 :: 0xC3 :: ownAdvert.payload

/-- The echo, heard on RF. -/
def echoed : McMesh := run ownCrypto restarted [.recv (.still 5000) echoFrame (-80) 30]

/-- The node takes its own advert for a neighbour's, and relays it. -/
theorem echoed_not_noSelf :
    mcAdvertBuild ownCrypto ownIdentity (ownAdvertInfo restarted) 0x68e77800 = some ownAdvert ∧
      (echoed.neighbors 0).used = true ∧ (echoed.neighbors 0).pub = ownIdentity.pub.bytes ∧
      (echoed.txq 0).used = true ∧ (echoed.txq 0).own = false ∧
      (echoed.txq 0).pkt.payload = ownAdvert.payload ∧ Reachable ownCrypto echoed ∧
      ¬ NoSelf echoed := by
  have hused : (echoed.neighbors 0).used = true := by decide
  have hpub : (echoed.neighbors 0).pub = ownIdentity.pub.bytes := by decide
  have hid : echoed.id.pub.bytes = ownIdentity.pub.bytes := by decide
  refine ⟨by decide, hused, hpub, by decide, by decide, by decide,
    ⟨_, _, _, _, _, _, [.recv (.still 5000) echoFrame (-80) 30], rfl⟩, ?_⟩
  intro h
  exact h.neighbors 0 hused (hpub.trans hid.symm)

end Meshcore
