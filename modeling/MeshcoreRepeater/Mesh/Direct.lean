import MeshcoreRepeater.Mesh.Path

/-! # DIRECT packets

A DIRECT packet names its hops. The node it names first strips itself and
retransmits; any other node ignores it, but by then it has recorded the packet's
hash, which does not see the path. A node that overhears a copy for another hop
therefore takes its own copy for a duplicate.

* `meshOnRecv_overheard`: a packet for another hop is ignored, and remembered.
* `overheard_copy_suppresses`: so the copy for this node is lost.
-/

namespace Meshcore

set_option maxRecDepth 8000

open ByteLib

/-! ## What a decision reads -/

/-- A packet off the FLOOD routes is tagged for no room. -/
theorem regionMatch_direct {C : Crypto} {cfg : McConfig} {pkt : McPacket}
    (h : pktIsRouteFlood pkt = false) : regionMatch C cfg pkt = none := by
  unfold regionMatch
  rw [if_pos]
  rw [bne_iff_ne]
  intro hroute
  rw [pktIsRouteFlood, hroute] at h
  exact absurd h (by decide)

/-- DIRECT copies of one packet get the same decision. -/
theorem recvVerdict_direct {C : Crypto} {cfg : McConfig} {src : MeshSrc} {p q : McPacket}
    (hh : p.header = q.header) (hp : p.payload = q.payload) (hd : pktIsRouteFlood p = false) :
    recvVerdict C cfg src p = recvVerdict C cfg src q := by
  have hd' : pktIsRouteFlood q = false := by
    rwa [pktIsRouteFlood, pktRouteType, ← hh]
  have hclass : classifyForward C cfg p = classifyForward C cfg q := by
    unfold classifyForward
    rw [regionMatch_direct hd, regionMatch_direct hd']
    rw [pktPayloadType, pktPayloadType, hh, hp]
  have hpub : ∀ ch, publicVerdict C cfg src p ch = publicVerdict C cfg src q ch := by
    intro ch
    obtain ⟨header, codes, pathLen, path, payload, rssi, snr, dnr⟩ := p
    obtain ⟨header', codes', pathLen', path', payload', rssi', snr', dnr'⟩ := q
    simp only at hh hp
    subst hh hp
    rfl
  have hadv : advertVerdict C cfg p = advertVerdict C cfg q := by
    obtain ⟨header, codes, pathLen, path, payload, rssi, snr, dnr⟩ := p
    obtain ⟨header', codes', pathLen', path', payload', rssi', snr', dnr'⟩ := q
    simp only at hh hp
    subst hh hp
    rfl
  have hpol : policyVerdict C cfg src p = policyVerdict C cfg src q := by
    unfold policyVerdict
    simp only [hclass, hpub]
  have htype : pktPayloadType p = pktPayloadType q := by rw [pktPayloadType, pktPayloadType, hh]
  unfold recvVerdict
  rw [htype, hadv, hpol]

/-! ## Overhearing -/

section
variable {C : Crypto} {hal : Hal} {m m' : McMesh} {raw : Bytes} {rssiDbm snrQ : Int} {v : MeshRx}

/-- A call that forwards did so for a new, accepted packet. -/
theorem Outcome.of_forwarded (h : Outcome C hal m raw rssiDbm snrQ m' .forwarded) {pkt : McPacket}
    (hparse : pktParse raw = .ok pkt) :
    pktCalcHash C pkt ∉ m.seen ∧ ∃ power, accepted C m (pkt.heardAt rssiDbm snrQ) = some power := by
  cases h with
  | refused _ _ _ _ _ _ _ hv => simp at hv
  | relayed p m₀ m₁ power v hp hrec hheard hacc hrelay =>
    rw [hparse] at hp
    cases hp
    exact ⟨hrec.absent, power, hacc⟩

theorem recvBudget_le (cfg : McConfig) : recvBudget cfg ≤ 3 := by
  unfold recvBudget wakeBudget
  split <;> omega

/-- Whatever a call goes on to send, the hash it recorded is still in the ring. -/
theorem Heard.mem_seen {pkt : McPacket} {m₀ : McMesh} {hash : Bytes} {cfg : McConfig}
    (hrec : Recorded m m₀ hash) (h : Heard C hal pkt (recvBudget cfg) m₀ m') : hash ∈ m'.seen := by
  obtain ⟨hashes, hlen, -, -, hseen⟩ := h.ringLog
  have hle := recvBudget_le cfg
  rw [hseen, hrec.seen]
  exact SlotRing.mem_pushAll_push m.seen hash hashes (by unfold meshSeenSize; omega)

/-- A new DIRECT packet for another hop is accepted, ignored, and remembered. -/
theorem meshOnRecv_overheard (C : Crypto) (hal : Hal) (rssiDbm snrQ : Int) {pkt : McPacket} (hparse : pktParse raw = .ok pkt)
    (hdirect : pktIsRouteFlood pkt = false) (hother : isNextHop m.id pkt = false)
    (hnew : pktCalcHash C pkt ∉ m.seen)
    (hacc : (accepted C m (pkt.heardAt rssiDbm snrQ)).isSome = true) :
    (meshOnRecv C hal m raw rssiDbm snrQ).2 = .localOnly ∧
      pktCalcHash C pkt ∈ (meshOnRecv C hal m raw rssiDbm snrQ).1.seen := by
  have h := meshOnRecv_outcome C hal m raw rssiDbm snrQ
  generalize meshOnRecv C hal m raw rssiDbm snrQ = r at h
  obtain ⟨m', v⟩ := r
  cases h with
  | malformed e hbad _ =>
    rw [hparse] at hbad
    cases hbad
  | duplicate p hp hseen _ =>
    rw [hparse] at hp
    cases hp
    exact absurd hseen hnew
  | refused p m₀ v hp _ _ hnone _ =>
    rw [hparse] at hp
    cases hp
    rw [hnone] at hacc
    cases hacc
  | relayed p m₀ m₁ power v hp hrec hheard _ hrelay =>
    rw [hparse] at hp
    cases hp
    have hid : m₁.id = m.id := hheard.id.trans (congrArg MeshFixed.id hrec.fixed)
    have hcopy : relayCopy m₁.id (pkt.heardAt rssiDbm snrQ) = none := by
      have hd : pktIsRouteFlood (pkt.heardAt rssiDbm snrQ) = false := hdirect
      have ho : isNextHop m.id (pkt.heardAt rssiDbm snrQ) = false := hother
      simp [relayCopy, hd, hid, ho]
    obtain ⟨hres, hkept, -⟩ := relay_of_none hal m₁ _ power hcopy
    simp only [hrelay] at hres hkept
    exact ⟨hres, hkept.seen ▸ hheard.mem_seen hrec⟩

end

/-- A node that would forward a DIRECT packet takes it for a duplicate once it has
overheard a copy for another hop. -/
theorem overheard_copy_suppresses {C : Crypto} {hal hal' : Hal} {m : McMesh} {f g : Bytes}
    {rssiF snrF rssiG snrG : Int} {pktF pktG : McPacket} (hrole : m.cfg.role = .repeater)
    (hf : pktParse f = .ok pktF) (hg : pktParse g = .ok pktG) (hhead : pktF.header = pktG.header)
    (hpay : pktF.payload = pktG.payload) (hdirect : pktIsRouteFlood pktG = false)
    (hother : isNextHop m.id pktF = false)
    (hforward : (meshOnRecv C hal m g rssiG snrG).2 = .forwarded) :
    (meshOnRecv C hal m f rssiF snrF).2 = .localOnly ∧
      (meshOnRecv C hal' (meshOnRecv C hal m f rssiF snrF).1 g rssiG snrG).2 = .duplicate := by
  have hgout := meshOnRecv_outcome C hal m g rssiG snrG
  rw [hforward] at hgout
  obtain ⟨hnew, power, hacc⟩ := hgout.of_forwarded hg
  have hdirectF : pktIsRouteFlood pktF = false := by
    rwa [pktIsRouteFlood, pktRouteType, hhead]
  -- the copies have one hash, and get one decision
  have hhash : pktCalcHash C pktF = pktCalcHash C pktG := by
    refine pktCalcHash_congr C hhead hpay ?_
    have htrace := accepted_not_trace hacc
    rwa [pktPayloadType, hhead]
  have haccF : (accepted C m (pktF.heardAt rssiF snrF)).isSome = true := by
    rw [accepted_repeater hrole] at hacc ⊢
    rw [recvVerdict_direct (p := pktF.heardAt rssiF snrF) (q := pktG.heardAt rssiG snrG) hhead hpay
      hdirectF, hacc]
    rfl
  obtain ⟨hres, hseen⟩ := meshOnRecv_overheard C hal rssiF snrF hf hdirectF hother (hhash ▸ hnew) haccF
  refine ⟨hres, ?_⟩
  exact (meshOnRecv_of_mem C hal' _ g rssiG snrG hg (hhash ▸ hseen)).1

/-- The same message as `farPacket`, routed over the given hops. -/
def routedPacket (hops : Bytes) : McPacket :=
  { McPacket.zero with
    header := 0x1A
    pathLen := UInt8.ofNat hops.length
    path := Buf.ofBytes 64 hops
    payload := farPacket.payload }

def routedFrame (hops : Bytes) : Bytes :=
  0x1A :: UInt8.ofNat hops.length :: (hops ++ farPacket.payload)

/-- The copy for the hop in front of `farRepeater`, and the one for `farRepeater`. -/
def overheardFrame : Bytes := routedFrame [0x40, 0xA1]

def addressedFrame : Bytes := routedFrame [0xA1]

theorem pktParse_overheardFrame : pktParse overheardFrame = .ok (routedPacket [0x40, 0xA1]) :=
  pktParse_of_onWire rfl (by decide)

theorem pktParse_addressedFrame : pktParse addressedFrame = .ok (routedPacket [0xA1]) :=
  pktParse_of_onWire rfl (by decide)

theorem addressedFrame_forwarded :
    (meshOnRecv farCrypto (.still 1000) farRepeater addressedFrame (-90) 20).2 = .forwarded := by
  decide

/-- Having just started, with its queue empty, the repeater forwards its copy; after
the copy for the other hop it does not. -/
theorem overheardFrame_suppresses :
    Reachable farCrypto farRepeater ∧ meshTxqFree farRepeater = 24 ∧
      farRepeater.cfg.role = .repeater ∧ farRepeater.cfg.forward = true ∧
      (meshOnRecv farCrypto (.still 1000) farRepeater addressedFrame (-90) 20).2 = .forwarded ∧
      (meshOnRecv farCrypto (.still 1000) farRepeater overheardFrame (-95) 8).2 = .localOnly ∧
      (meshOnRecv farCrypto (.still 2000)
        (meshOnRecv farCrypto (.still 1000) farRepeater overheardFrame (-95) 8).1
        addressedFrame (-90) 20).2 ≠ .forwarded :=
  ⟨⟨_, _, _, _, _, _, [], rfl⟩, by decide, rfl, rfl, addressedFrame_forwarded,
    by decide, by decide⟩

theorem overheard_copy_suppresses_far :
    (meshOnRecv farCrypto (.still 1000) farRepeater overheardFrame (-95) 8).2 = .localOnly ∧
      (meshOnRecv farCrypto (.still 2000)
        (meshOnRecv farCrypto (.still 1000) farRepeater overheardFrame (-95) 8).1
        addressedFrame (-90) 20).2 = .duplicate :=
  overheard_copy_suppresses rfl pktParse_overheardFrame pktParse_addressedFrame rfl rfl rfl
    (by decide) addressedFrame_forwarded

end Meshcore
