import MeshcoreRepeater.Mesh.Hub

/-! # One policy for both entry points

The same frame, taken in over RF and from the hub by the same repeater: two runs of
one function whose source differs. The decisions agree but for a message the mailbox
keeps, which only the radio's side does; and the relays agree but for a reply of the
node's own that took the last free slot first.

* `meshOnRecv_hub_repeater`: the hub's frame, up to the relay.
* `relay_repeater_iff`: when a repeater relays.
* `receive_onePolicy`: both entry points on one state.
-/

namespace Meshcore

open ByteLib

/-! ## The decision, by source -/

section
variable (C : Crypto) (cfg : McConfig) (pkt : McPacket)

/-- A message on a channel we hold is a command the mailbox answers and keeps. -/
def MboxConsumes : Prop :=
  ∃ ch plain body, classifyForward C cfg pkt = .okGrpPublic ch ∧ groupPlain C pkt ch = some plain ∧
    grpMessageBody plain = some body ∧
    takenByMbox cfg pkt ch (grpSenderName plain mcBlacklistNameLen) body = true

/-- What the mailbox keeps was sent to `#mbox`. -/
theorem MboxConsumes.channel {C : Crypto} {cfg : McConfig} {pkt : McPacket}
    (h : MboxConsumes C cfg pkt) :
    ∃ ch, classifyForward C cfg pkt = .okGrpPublic ch ∧ ch.name = lit "#mbox" := by
  obtain ⟨ch, _, _, hclass, -, -, htaken⟩ := h
  simp only [takenByMbox, isMboxCommand, Bool.and_eq_true, beq_iff_eq] at htaken
  exact ⟨ch, hclass, htaken.1.2.2⟩

/-- On a channel of the node's own the verdicts agree, but for what the mailbox keeps. -/
theorem publicVerdict_src (ch : McPubChannel) :
    publicVerdict C cfg .rf pkt ch = publicVerdict C cfg .backbone pkt ch ∨
      ∃ plain body, groupPlain C pkt ch = some plain ∧ grpMessageBody plain = some body ∧
        takenByMbox cfg pkt ch (grpSenderName plain mcBlacklistNameLen) body = true ∧
        publicVerdict C cfg .rf pkt ch = (.consumed, grpSenderName plain mcBlacklistNameLen) ∧
        publicVerdict C cfg .backbone pkt ch = (.forward, grpSenderName plain mcBlacklistNameLen) := by
  cases hplain : groupPlain C pkt ch with
  | none => exact .inl (by simp [publicVerdict, hplain])
  | some plain =>
    -- a blacklisted sender is refused from either side
    by_cases hblack : configIsBlacklisted cfg (grpSenderName plain mcBlacklistNameLen) = true
    · exact .inl (by simp [publicVerdict, hplain, hblack])
    cases hbody : grpMessageBody plain with
    | none => exact .inl (by simp [publicVerdict, hplain, hblack, hbody])
    | some body =>
      by_cases htaken : takenByMbox cfg pkt ch (grpSenderName plain mcBlacklistNameLen) body = true
      · exact .inr ⟨plain, body, rfl, hbody, htaken,
          by simp [publicVerdict, hplain, hblack, hbody, htaken],
          by simp [publicVerdict, hplain, hblack]⟩
      · exact .inl (by simp [publicVerdict, hplain, hblack, hbody, htaken])

/-- So do those of the whole policy. -/
theorem policyVerdict_src :
    policyVerdict C cfg .rf pkt = policyVerdict C cfg .backbone pkt ∨
      (MboxConsumes C cfg pkt ∧ policyVerdict C cfg .rf pkt = .error .localOnly ∧
        ∃ sender, policyVerdict C cfg .backbone pkt = .ok sender) := by
  unfold policyVerdict
  cases hclass : classifyForward C cfg pkt with
  | okGrpPublic ch =>
    rcases publicVerdict_src C cfg pkt ch with
      heq | ⟨plain, body, hplain, hbody, htaken, hrf, hhub⟩
    · exact .inl (by simp only [heq])
    · exact .inr ⟨⟨ch, plain, body, hclass, hplain, hbody, htaken⟩, by simp only [hrf],
        grpSenderName plain mcBlacklistNameLen, by simp only [hhub]⟩
  -- the other classes do not ask for the source
  | _ => exact .inl rfl

/-- The decision does not depend on the source, but for what the mailbox keeps. -/
theorem recvVerdict_src :
    recvVerdict C cfg .rf pkt = recvVerdict C cfg .backbone pkt ∨
      (MboxConsumes C cfg pkt ∧ recvVerdict C cfg .rf pkt = .error .localOnly ∧
        ∃ names, recvVerdict C cfg .backbone pkt = .ok names) := by
  unfold recvVerdict
  cases (if pktPayloadType pkt = payloadTypeAdvert then advertVerdict C cfg pkt else some []) with
  | none => exact .inl rfl
  | some aname =>
    simp only
    split
    · exact .inl rfl
    split
    · exact .inl rfl
    rcases policyVerdict_src C cfg pkt with heq | ⟨hmbox, hrf, sender, hhub⟩
    · exact .inl (by rw [heq])
    · exact .inr ⟨hmbox, by rw [hrf], ⟨aname, sender⟩, by rw [hhub]⟩

/-- The signal does not enter the decision. -/
theorem recvVerdict_heardAt (src : MeshSrc) (rssiDbm snrQ : Int) :
    recvVerdict C cfg src (pkt.heardAt rssiDbm snrQ) = recvVerdict C cfg src pkt := rfl

/-- It is carried along in the copy. -/
theorem relayCopy_heardAt (id : McIdentity) (rssiDbm snrQ : Int) :
    relayCopy id (pkt.heardAt rssiDbm snrQ) =
      (relayCopy id pkt).map fun out => out.heardAt rssiDbm snrQ := by
  unfold relayCopy
  have hflood : pktIsRouteFlood (pkt.heardAt rssiDbm snrQ) = pktIsRouteFlood pkt := rfl
  have hroom : floodHasRoom (pkt.heardAt rssiDbm snrQ) = floodHasRoom pkt := rfl
  have hnext : isNextHop id (pkt.heardAt rssiDbm snrQ) = isNextHop id pkt := rfl
  rw [hflood, hroom, hnext]
  split
  · split <;> rfl
  · split <;> rfl

end

/-! ## The call of a repeater -/

section
variable {C : Crypto} {hal : Hal} {m : McMesh} {raw : Bytes} {rssiDbm snrQ : Int} {pkt : McPacket}

/-- A repeater relays everything at its one power. -/
theorem recvRelay_repeater (hal : Hal) (pkt : McPacket) (aname sender : Bytes) (hrole : m.cfg.role = .repeater) :
    recvRelay hal m pkt aname sender = relay hal m pkt m.cfg.txPower := by
  simp [recvRelay, recvScope, hrole]

/-- On RF: one packet of the node's own at most comes before the relay. -/
theorem meshOnRecv_repeater (C : Crypto) (hal : Hal) (rssiDbm snrQ : Int) (hrole : m.cfg.role = .repeater) (hparse : pktParse raw = .ok pkt)
    (hnew : pktCalcHash C pkt ∉ m.seen) :
    ∃ m₀ m₁, Recorded m m₀ (pktCalcHash C pkt) ∧ Heard C hal (pkt.heardAt rssiDbm snrQ) 1 m₀ m₁ ∧
      meshOnRecv C hal m raw rssiDbm snrQ = match recvVerdict C m.cfg m.rxSrc pkt with
        | .error r => (m₁, r)
        | .ok _ => relay hal m₁ (pkt.heardAt rssiDbm snrQ) m.cfg.txPower := by
  obtain ⟨m₀, hrec, heq⟩ := meshOnRecv_of_not_mem C hal m raw rssiDbm snrQ hparse hnew
  have hcfg : m₀.cfg = m.cfg := congrArg MeshFixed.cfg hrec.fixed
  have hsrc : m₀.rxSrc = m.rxSrc := congrArg MeshFixed.rxSrc hrec.fixed
  obtain ⟨m₁, hheard, hfresh⟩ := recvFresh_spec C hal m₀ (pkt.heardAt rssiDbm snrQ)
  -- no hotspot, so at most the one reply of a service is queued
  have hbudget : recvBudget m₀.cfg = 1 := by
    rw [hcfg]
    simp [recvBudget, wakeBudget, hrole]
  have hcfg₁ : m₁.cfg = m.cfg := hheard.cfg.trans hcfg
  rw [hbudget] at hheard
  rw [hcfg, hsrc, recvVerdict_heardAt] at hfresh
  refine ⟨m₀, m₁, hrec, hheard, ?_⟩
  rw [heq, hfresh]
  cases recvVerdict C m.cfg m.rxSrc pkt with
  | error r => rfl
  | ok names =>
    have hrelay := fun aname sender => recvRelay_repeater hal
      (pkt.heardAt rssiDbm snrQ) aname sender
      (show m₁.cfg.role = .repeater by rw [hcfg₁, hrole])
    simp only [hrelay, hcfg₁]

/-- From the hub: nothing comes before the relay. -/
theorem meshOnRecv_hub_repeater (C : Crypto) (hal : Hal) (rssiDbm snrQ : Int) (hrole : m.cfg.role = .repeater) (hsrc : m.rxSrc = .backbone)
    (hparse : pktParse raw = .ok pkt) (hnew : pktCalcHash C pkt ∉ m.seen) :
    ∃ m₁, m₁.fixed = m.fixed ∧ m₁.txq = m.txq ∧
      meshOnRecv C hal m raw rssiDbm snrQ = match recvVerdict C m.cfg .backbone pkt with
        | .error r => (m₁, r)
        | .ok _ => relay hal m₁ (pkt.heardAt rssiDbm snrQ) m.cfg.txPower := by
  rw [meshOnRecv_hub C hal raw rssiDbm snrQ hsrc, hparse]
  simp only
  rcases seenCheckAndAdd_cases m (pktCalcHash C pkt) with ⟨hin, -⟩ | ⟨m₀, hrec, heq⟩
  · exact absurd hin hnew
  have hsrc₀ : m₀.rxSrc = .backbone := (congrArg MeshFixed.rxSrc hrec.fixed).trans hsrc
  have hcfg₀ : m₀.cfg = m.cfg := congrArg MeshFixed.cfg hrec.fixed
  obtain ⟨m₁, hnoted, hfresh⟩ := recvFresh_hub C hal (pkt.heardAt rssiDbm snrQ) hsrc₀
  have hcfg₁ : m₁.cfg = m.cfg := hnoted.toNoted.cfg.trans hcfg₀
  rw [hcfg₀, recvVerdict_heardAt] at hfresh
  refine ⟨m₁, hnoted.fixed.trans hrec.fixed, hnoted.txq.trans hrec.txq, ?_⟩
  rw [heq]
  simp only
  rw [hfresh]
  cases recvVerdict C m.cfg .backbone pkt with
  | error r => rfl
  | ok names =>
    have hrelay := fun aname sender => recvRelay_repeater hal
      (pkt.heardAt rssiDbm snrQ) aname sender
      (show m₁.cfg.role = .repeater by rw [hcfg₁, hrole])
    simp only [hrelay, hcfg₁]

/-- A repeater is never silent. -/
theorem meshRfSilent_repeater (hrole : m.cfg.role = .repeater) (now : Nat) :
    meshRfSilent m now = false := by
  simp [meshRfSilent, hrole]

/-- A repeater relays what has a copy, as long as a slot is free. -/
theorem relay_repeater_iff (hal : Hal) (pkt : McPacket) (power : Int) (hrole : m.cfg.role = .repeater) :
    (relay hal m pkt power).2 = .forwarded ↔
      (relayCopy m.id pkt).isSome = true ∧ freeSlot m.txq ≠ none := by
  cases hcopy : relayCopy m.id pkt with
  | none =>
    have hres := (relay_of_none hal m pkt power hcopy).1
    simp [hres]
  | some out =>
    rcases relay_of_some hal m pkt power hcopy with ⟨hwhy, hres, -⟩ | ⟨-, hres, due, hq⟩
    · have hfull : freeSlot m.txq = none := by
        rcases hwhy with hsilent | hfull
        · rw [meshRfSilent_repeater hrole] at hsilent
          cases hsilent
        · exact hfull
      simp [hres, hfull]
    · obtain ⟨i, hslot, -⟩ := hq.slot
      simp [hres, hslot]

/-- The relay ends in one of two verdicts. -/
theorem relay_verdict (hal : Hal) (m : McMesh) (pkt : McPacket) (power : Int) :
    (relay hal m pkt power).2 = .forwarded ∨ (relay hal m pkt power).2 = .localOnly := by
  cases hcopy : relayCopy m.id pkt with
  | none => exact .inr (relay_of_none hal m pkt power hcopy).1
  | some out =>
    rcases relay_of_some hal m pkt power hcopy with ⟨-, hres, -⟩ | ⟨-, hres, -⟩
    · exact .inr hres
    · exact .inl hres

end

/-! ## Two runs compared -/

/-- The relay entries of two calls from the state `m` are one packet, sent alike. -/
def SameRelay (m a b : McMesh) : Prop :=
  ∀ i j, AddsRelay m a i → AddsRelay m b j →
    (a.txq i).pkt.header = (b.txq j).pkt.header ∧
      (a.txq i).pkt.transportCodes = (b.txq j).pkt.transportCodes ∧
      (a.txq i).pkt.pathLen = (b.txq j).pkt.pathLen ∧ (a.txq i).pkt.path = (b.txq j).pkt.path ∧
      (a.txq i).pkt.payload = (b.txq j).pkt.payload ∧
      (a.txq i).priority = (b.txq j).priority ∧ (a.txq i).powerDbm = (b.txq j).powerDbm

/-- The call found one free slot, and put a packet of the node's own there. -/
def TakesLastSlot (m m' : McMesh) : Prop :=
  meshTxqFree m = 1 ∧
    ∃ i, (m.txq i).used = false ∧ (m'.txq i).used = true ∧ (m'.txq i).own = true

/-- The two entry points apply one policy to `raw`. -/
structure OnePolicy (C : Crypto) (m : McMesh) (raw : Bytes) (rf hub : McMesh × MeshRx) : Prop where
  refusals : ∀ v, v = .malformed ∨ v = .duplicate ∨ v = .policy → (rf.2 = v ↔ hub.2 = v)
  relays : rf.2 = .forwarded → hub.2 = .forwarded → SameRelay m rf.1 hub.1
  forwards : rf.2 = .forwarded → hub.2 = .forwarded
  hubOnly : hub.2 = .forwarded → rf.2 ≠ .forwarded →
    (∃ pkt, pktParse raw = .ok pkt ∧ MboxConsumes C m.cfg pkt) ∨ TakesLastSlot m rf.1

section
variable {C : Crypto} {hal : Hal} {m : McMesh} {pkt : McPacket}

/-- A relay that is queued, as an entry. -/
theorem relay_entry {k : Nat} {p : McPacket} {m₀ m₁ m' : McMesh} {power : Int} (htxq : m₀.txq = m.txq)
    (hheard : Heard C hal p k m₀ m₁) (hres : (relay hal m₁ pkt power).2 = .forwarded)
    (hm' : (relay hal m₁ pkt power).1.txq = m'.txq) :
    ∃ out, relayCopy m₁.id pkt = some out ∧ ∀ j, AddsRelay m m' j →
      (m'.txq j).pkt = out ∧ (m'.txq j).priority = relayPriority pkt ∧
        (m'.txq j).powerDbm = power := by
  cases hcopy : relayCopy m₁.id pkt with
  | none =>
    rw [(relay_of_none hal m₁ pkt power hcopy).1] at hres
    cases hres
  | some out =>
    rcases relay_of_some hal m₁ pkt power hcopy with ⟨-, hlocal, -⟩ | ⟨-, -, due, hq⟩
    · rw [hlocal] at hres
      cases hres
    -- the one entry that the call added as a relay
    obtain ⟨i, hi, hiff⟩ := addsRelay_iff htxq hheard hq rfl rfl
    refine ⟨out, rfl, ?_⟩
    intro j hj
    rw [AddsRelay, ← hm'] at hj
    rw [← hm', (hiff j).mp hj, hi]
    exact ⟨rfl, rfl, rfl⟩

/-- What was queued before leaves no free slot only where there was one left. -/
theorem Heard.lastSlot {m₀ m₁ : McMesh} (htxq : m₀.txq = m.txq)
    (h : Heard C hal pkt 1 m₀ m₁) (hfree : freeSlot m.txq ≠ none) (hfull : freeSlot m₁.txq = none) :
    TakesLastSlot m m₁ := by
  obtain ⟨i, hi⟩ := Option.ne_none_iff_exists'.mp hfree
  -- at most one slot was taken, and none is left
  have hle := h.meshTxqFree_le
  rw [meshTxqFree_congr htxq, meshTxqFree_eq_zero.mpr hfull] at hle
  have hpos : meshTxqFree m ≠ 0 := fun hz => hfree (meshTxqFree_eq_zero.mp hz)
  refine ⟨by omega, i, freeSlot_some hi, freeSlot_none hfull i, ?_⟩
  rcases h.txq i with heq | ⟨-, -, hown⟩
  · have hused := freeSlot_none hfull i
    rw [heq, htxq, freeSlot_some hi] at hused
    cases hused
  · exact hown

/-- A free slot at the end was free at the start. -/
theorem Heard.freeSlot_ne_none {k : Nat} {m₀ m₁ : McMesh} (htxq : m₀.txq = m.txq)
    (h : Heard C hal pkt k m₀ m₁) (hfree : freeSlot m₁.txq ≠ none) : freeSlot m.txq ≠ none := by
  intro hfull
  obtain ⟨i, hi⟩ := Option.ne_none_iff_exists'.mp hfree
  have hunused := freeSlot_some hi
  have hused : (m₀.txq i).used = true := htxq ▸ freeSlot_none hfull i
  rcases h.txq i with heq | ⟨hfree₀, -⟩
  · rw [heq, hused] at hunused
    cases hunused
  · rw [hused] at hfree₀
    cases hfree₀

end

/-- Calls that end alike, and not in a relay. -/
theorem OnePolicy.of_eq {C : Crypto} {m : McMesh} {raw : Bytes} {rf hub : McMesh × MeshRx} {v : MeshRx}
    (hrf : rf.2 = v) (hhub : hub.2 = v) (hv : v ≠ .forwarded) : OnePolicy C m raw rf hub where
  refusals := fun w _ => by rw [hrf, hhub]
  relays := fun h => absurd (hrf.symm.trans h) hv
  forwards := fun h => absurd (hrf.symm.trans h) hv
  hubOnly := fun h => absurd (hhub.symm.trans h) hv

/-- A relay is never a refusal. -/
theorem relay_ne_refusal {hal : Hal} {m : McMesh} {pkt : McPacket} {power : Int} {v : MeshRx}
    (hv : v = .malformed ∨ v = .duplicate ∨ v = .policy) : (relay hal m pkt power).2 ≠ v := by
  rcases relay_verdict hal m pkt power with hres | hres <;>
    rw [hres] <;> rcases hv with rfl | rfl | rfl <;> simp

/-- The RF and the hub entry point of a repeater apply one policy. -/
theorem receive_onePolicy (C : Crypto) (hal hal' : Hal) {m : McMesh} (hrole : m.cfg.role = .repeater)
    (hrf : m.rxSrc = .rf) (raw : Bytes) (rssiDbm snrQ : Int) :
    OnePolicy C m raw (meshOnRecv C hal m raw rssiDbm snrQ) (meshOnBackbone C hal' m raw) := by
  have htxqHub : (meshOnBackbone C hal' m raw).1.txq =
      (meshOnRecv C hal' { m with rxSrc := .backbone } raw monViaBackbone 0).1.txq := rfl
  have hresHub : (meshOnBackbone C hal' m raw).2 =
      (meshOnRecv C hal' { m with rxSrc := .backbone } raw monViaBackbone 0).2 := rfl
  cases hparse : pktParse raw with
  | error e =>
    exact .of_eq (meshOnRecv_of_error C hal m raw rssiDbm snrQ hparse).1
      (hresHub.trans (meshOnRecv_of_error C hal' _ raw monViaBackbone 0 hparse).1) (by simp)
  | ok pkt =>
  -- one ring of hashes for both entry points
  by_cases hseen : pktCalcHash C pkt ∈ m.seen
  · exact .of_eq (meshOnRecv_of_mem C hal m raw rssiDbm snrQ hparse hseen).1
      (hresHub.trans (meshOnRecv_of_mem C hal' { m with rxSrc := .backbone } raw monViaBackbone 0
        hparse hseen).1) (by simp)
  obtain ⟨m₀, m₁, hrec, hheard, hcall⟩ := meshOnRecv_repeater C hal rssiDbm snrQ hrole
    hparse hseen
  obtain ⟨m₂, hfixed₂, htxq₂, hcallHub⟩ := meshOnRecv_hub_repeater
    (m := { m with rxSrc := .backbone }) C hal' monViaBackbone 0 hrole rfl hparse hseen
  rw [hrf] at hcall
  rw [hcallHub] at htxqHub hresHub
  -- of the hub's call only queue and verdict are looked at
  generalize meshOnBackbone C hal' m raw = hub at htxqHub hresHub
  rw [hcall]
  have hid₁ : m₁.id = m.id := hheard.id.trans (congrArg MeshFixed.id hrec.fixed)
  have hid₂ : m₂.id = m.id := congrArg MeshFixed.id hfixed₂
  have hcfg₁ : m₁.cfg = m.cfg := hheard.cfg.trans (congrArg MeshFixed.cfg hrec.fixed)
  have hcfg₂ : m₂.cfg = m.cfg := congrArg MeshFixed.cfg hfixed₂
  rcases recvVerdict_src C m.cfg pkt with heq | ⟨hmbox, hkept, names, hok⟩
  · rw [heq]
    cases hv : recvVerdict C m.cfg .backbone pkt with
    | error r =>
      simp only [hv] at hresHub ⊢
      refine .of_eq rfl hresHub ?_
      rcases recvVerdict_error hv with rfl | rfl
      · simp
      · simp
    | ok names =>
      -- both reach the relay, in states that differ by a reply
      simp only [hv] at htxqHub hresHub ⊢
      have hcopy₁ := relayCopy_heardAt pkt m₁.id rssiDbm snrQ
      have hcopy₂ := relayCopy_heardAt pkt m₂.id monViaBackbone 0
      rw [hid₁] at hcopy₁
      rw [hid₂] at hcopy₂
      have hiff₁ := relay_repeater_iff (m := m₁) hal (pkt.heardAt rssiDbm snrQ) m.cfg.txPower
        (by rw [hcfg₁, hrole])
      have hiff₂ := relay_repeater_iff (m := m₂) hal' (pkt.heardAt monViaBackbone 0) m.cfg.txPower
        (by rw [hcfg₂]; exact hrole)
      rw [hid₁, hcopy₁, Option.isSome_map] at hiff₁
      rw [hid₂, hcopy₂, Option.isSome_map, htxq₂, ← hresHub] at hiff₂
      refine ⟨?_, ?_, ?_, ?_⟩
      · intro v hv
        rw [hresHub]
        exact iff_of_false (relay_ne_refusal hv) (relay_ne_refusal hv)
      · intro h₁ h₂ i j hi hj
        obtain ⟨out₁, hout₁, hentry₁⟩ := relay_entry hrec.txq hheard h₁ rfl
        obtain ⟨out₂, hout₂, hentry₂⟩ := relay_entry htxq₂
          (Heard.refl 0 m₂ : Heard C hal' pkt 0 m₂ m₂) (hresHub.symm.trans h₂) htxqHub.symm
        rw [hid₁, hcopy₁] at hout₁
        rw [hid₂, hcopy₂] at hout₂
        obtain ⟨out, hout, rfl⟩ := Option.map_eq_some_iff.mp hout₁
        rw [hout] at hout₂
        cases hout₂
        obtain ⟨hpkt₁, hprio₁, hpower₁⟩ := hentry₁ i hi
        obtain ⟨hpkt₂, hprio₂, hpower₂⟩ := hentry₂ j hj
        rw [hpkt₁, hpkt₂, hprio₁, hprio₂, hpower₁, hpower₂]
        exact ⟨rfl, rfl, rfl, rfl, rfl, rfl, rfl⟩
      · intro h
        obtain ⟨hsome, hfree⟩ := hiff₁.mp h
        exact hiff₂.mpr ⟨hsome, hheard.freeSlot_ne_none hrec.txq hfree⟩
      · intro h hnot
        obtain ⟨hsome, hfree⟩ := hiff₂.mp h
        -- the radio's side did not relay, so its queue was full
        have hfull : freeSlot m₁.txq = none := by
          by_contra hfree₁
          exact hnot (hiff₁.mpr ⟨hsome, hfree₁⟩)
        obtain ⟨hone, i, hi, hused, hown⟩ := hheard.lastSlot hrec.txq hfree hfull
        -- the refused relay leaves the queue as it was
        obtain ⟨out, hout⟩ := Option.isSome_iff_exists.mp hsome
        have hcopy : relayCopy m₁.id (pkt.heardAt rssiDbm snrQ) = some (out.heardAt rssiDbm snrQ) := by
          rw [hid₁, hcopy₁, hout]
          rfl
        rcases relay_of_some hal m₁ _ m.cfg.txPower hcopy with ⟨-, -, hn⟩ | ⟨-, hres, -⟩
        · refine .inr ⟨hone, i, hi, ?_, ?_⟩
          · rw [hn.txq]
            exact hused
          · rw [hn.txq]
            exact hown
        · exact absurd hres hnot
  · -- the mailbox keeps the message
    rw [hkept]
    simp only [hok] at hresHub ⊢
    refine ⟨?_, fun h => (by cases h), fun h => (by cases h), fun _ _ => .inl ⟨pkt, hparse, hmbox⟩⟩
    intro v hv
    rw [hresHub]
    refine iff_of_false ?_ (relay_ne_refusal hv)
    rcases hv with rfl | rfl | rfl <;> simp

/-- A frame at a repeater, from either side. -/
theorem receive_onePolicy_far :
    OnePolicy farCrypto farRepeater farFrame
      (meshOnRecv farCrypto (.still 1000) farRepeater farFrame (-90) 20)
      (meshOnBackbone farCrypto (.still 1000) farRepeater farFrame) :=
  receive_onePolicy farCrypto (.still 1000) (.still 1000) rfl rfl farFrame (-90) 20

end Meshcore
