import MeshcoreRepeater.Mesh.Path
import MeshcoreRepeater.Mesh.Step
import Mathlib.Data.List.Dedup

/-! # Frames from the hub

`mesh_on_backbone` runs `mesh_on_recv` with the hub as the source. Such a call only
relays: it writes the dedup ring and the queue, counts, and tells the monitors
(`BridgeOnly`). Nothing it queues is offered back to the hub, and the ring keeps an
RF copy of the same packet from being offered until it has forgotten the hash.

* `meshOnRecv_hub`: with the hub as the source a call is parsing, dedup and the decision.
* `meshOnBackbone_bridgeOnly`: such a call only relays.
* `hub_frame_only_relays`: that, and what it means for the offers that follow.
-/

namespace Meshcore

open ByteLib

/-! ## What a hub frame may touch -/

/-- The counters of what this radio heard. -/
def MeshStats.rfOnly (s : MeshStats) : List Nat :=
  [s.rxTotal, s.rxBadParse, s.rxCrcErr, s.rxHdrErr, s.rxDup, s.rxAdvert, s.rxAdvertBad,
    s.traceSeen, s.rxTransportFlood, s.rxAirtimeMs]

/-- What the monitors are shown of a received frame. -/
def Event.IsMonitor : Event → Prop
  | .monPublic .. | .monRegion .. | .monAdvert .. | .monDrop .. => True
  | _ => False

/-- What the watchers see is a report. -/
theorem Event.IsMonitor.isReport {e : Event} (h : e.IsMonitor) : e.IsReport := by
  cases e with
  | recorded _ => exact h.elim
  | offer _ _ => exact h.elim
  | _ => trivial

/-- Ring, queue, counters and events may differ, and nothing else: no counter of what
the radio heard, and no call but to the monitors. -/
structure BridgeOnly (m m' : McMesh) : Prop where
  frame : ∃ seen txq stats events,
    m' = { m with seen := seen, txq := txq, stats := stats, events := events }
  counters : m'.stats.rfOnly = m.stats.rfOnly
  events : ∀ e ∈ m'.events, e ∈ m.events ∨ e.IsMonitor ∨ ∃ hash, e = .recorded hash

/-- Besides, ring and queue are as they were. -/
structure HubNoted (m m' : McMesh) : Prop extends Noted m m', BridgeOnly m m'

namespace BridgeOnly

variable {m m' m'' : McMesh}

/-- Doing nothing. -/
theorem refl (m : McMesh) : BridgeOnly m m := ⟨⟨_, _, _, _, rfl⟩, rfl, fun _ he => .inl he⟩

/-- One part behind another. -/
theorem trans (h : BridgeOnly m m') (h' : BridgeOnly m' m'') : BridgeOnly m m'' where
  frame := by
    obtain ⟨_, _, _, _, rfl⟩ := h.frame
    obtain ⟨_, _, _, _, rfl⟩ := h'.frame
    exact ⟨_, _, _, _, rfl⟩
  counters := h'.counters.trans h.counters
  events := by
    intro e he
    rcases h'.events e he with hin | hnew
    · exact h.events e hin
    · exact .inr hnew

/-- A counter that is not of RF. -/
theorem bump (m : McMesh) {f : MeshStats → MeshStats} (hf : ∀ s, (f s).rfOnly = s.rfOnly) :
    BridgeOnly m (m.bump f) :=
  ⟨⟨_, _, _, _, rfl⟩, hf m.stats, fun _ he => .inl he⟩

/-- Showing something to the watchers. -/
theorem monitor (m : McMesh) {e : Event} (h : e.IsMonitor) : BridgeOnly m (m.monitor e) := by
  unfold McMesh.monitor
  split
  · refine ⟨⟨_, _, _, _, rfl⟩, rfl, ?_⟩
    intro x hx
    rcases List.mem_append.mp hx with hin | hnew
    · exact .inl hin
    · rw [List.mem_singleton.mp hnew]
      exact .inr (.inl h)
  · exact refl m

/-- Showing a drop. -/
theorem drop (m : McMesh) (pkt : McPacket) (reason : String) :
    BridgeOnly m (monPktDrop m pkt reason) := monitor m trivial

/-- Recording a hash. -/
theorem seenCheckAndAdd (m : McMesh) (hash : Bytes) :
    BridgeOnly m (Meshcore.seenCheckAndAdd m hash).1 := by
  unfold Meshcore.seenCheckAndAdd
  split
  · exact refl m
  · refine ⟨⟨_, _, _, _, rfl⟩, rfl, ?_⟩
    intro e he
    rcases List.mem_append.mp he with hin | hnew
    · exact .inl hin
    · exact .inr (.inr ⟨hash, List.mem_singleton.mp hnew⟩)

/-- What the hub sent is not offered back to it. -/
theorem enqueue (hal : Hal) (hsrc : m.rxSrc = .backbone) (pkt : McPacket) (priority delayMs : Nat)
    (power : Int) (own : Bool) :
    BridgeOnly m (Meshcore.enqueue hal m pkt priority delayMs power own).1 := by
  unfold Meshcore.enqueue
  split
  · exact (bump m fun _ => by rfl).trans (drop _ pkt _)
  split
  · rename_i i _
    simp only
    rw [if_neg (by simp [McMesh.putTx, hsrc])]
    exact ⟨⟨_, _, _, _, rfl⟩, rfl, fun _ he => .inl he⟩
  · simp only
    exact bump m fun _ => by rfl

/-- The source stays. -/
theorem rxSrc (h : BridgeOnly m m') : m'.rxSrc = m.rxSrc := by
  obtain ⟨_, _, _, _, rfl⟩ := h.frame
  rfl

/-- The relay of a hub's frame is not offered back. -/
theorem relay {hal : Hal} (hsrc : m.rxSrc = .backbone) (pkt : McPacket) (power : Int) :
    BridgeOnly m (Meshcore.relay hal m pkt power).1 := by
  unfold Meshcore.relay
  split
  · unfold relayFlood
    split
    · have h := enqueue hal hsrc (appendOwnHash m.id pkt) (pktPathHashCount pkt + 1)
        (floodBackoffMs hal (appendOwnHash m.id pkt)) power false
      simp only
      split <;> rename_i heq <;> rw [heq] at h <;> simp only at h ⊢
      · exact h.trans (bump _ fun _ => by rfl)
      · exact h
    · exact (bump m fun _ => by rfl).trans (drop _ pkt _)
  · unfold relayDirect
    split
    · have h := enqueue hal hsrc (stripFirstHash pkt) 0 0 power false
      split <;> rename_i heq <;> rw [heq] at h <;> simp only at h ⊢
      · exact h.trans (bump _ fun _ => by rfl)
      · exact h
    · exact refl m

/-- The scope in front of it. -/
theorem recvRelay {hal : Hal} (hsrc : m.rxSrc = .backbone) (pkt : McPacket) (aname sender : Bytes) :
    BridgeOnly m (Meshcore.recvRelay hal m pkt aname sender).1 := by
  unfold Meshcore.recvRelay recvScope
  split
  · rename_i heq
    split at heq
    · split at heq <;> cases heq
      exact drop m pkt _
    · cases heq
  · rename_i heq
    split at heq
    · split at heq <;> cases heq
      exact relay hsrc pkt _
    · cases heq
      exact relay hsrc pkt _

end BridgeOnly

namespace HubNoted

variable {m m' m'' : McMesh}

theorem refl (m : McMesh) : HubNoted m m := ⟨.refl m, (BridgeOnly.refl m).frame, rfl,
  fun _ he => .inl he⟩

theorem mk' (hn : Noted m m') (hb : BridgeOnly m m') : HubNoted m m' :=
  ⟨hn, hb.frame, hb.counters, hb.events⟩

theorem trans (h : HubNoted m m') (h' : HubNoted m' m'') : HubNoted m m'' :=
  mk' (h.toNoted.trans h'.toNoted) (h.toBridgeOnly.trans h'.toBridgeOnly)

theorem bump (m : McMesh) {f : MeshStats → MeshStats} (hd : ∀ s, (f s).fwdDropped = s.fwdDropped)
    (hf : ∀ s, (f s).rfOnly = s.rfOnly) : HubNoted m (m.bump f) :=
  mk' (.bump m hd) (.bump m hf)

theorem monitor (m : McMesh) {e : Event} (h : e.IsMonitor) : HubNoted m (m.monitor e) :=
  mk' (.monitor m h.isReport) (.monitor m h)

theorem drop (m : McMesh) (pkt : McPacket) (reason : String) :
    HubNoted m (monPktDrop m pkt reason) := monitor m trivial

end HubNoted

/-! ## The stages, for a hub frame -/

section
variable (C : Crypto) (hal : Hal) {m : McMesh} (pkt : McPacket)

/-- A frame of the hub was not heard. -/
theorem heardOnRf_of_backbone (hsrc : m.rxSrc = .backbone) : m.heardOnRf = false := by
  simp [McMesh.heardOnRf, hsrc]

/-- So the counters of RF stay. -/
theorem bumpIf_of_backbone (hsrc : m.rxSrc = .backbone) (f : MeshStats → MeshStats) :
    m.bumpIf m.heardOnRf f = m := by
  simp [heardOnRf_of_backbone hsrc, McMesh.bumpIf]

/-- An advert is checked and shown, no more. -/
theorem recvAdvert_hub (hsrc : m.rxSrc = .backbone) : HubNoted m (recvAdvert C hal m pkt).1 := by
  unfold recvAdvert
  split
  · rw [bumpIf_of_backbone hsrc]
    exact .drop m pkt _
  · simp only
    split
    · exact (HubNoted.bump m (fun _ => by rfl) fun _ => by rfl).trans (.drop _ pkt _)
    · -- no neighbour, no waking, no gateway
      simp only [heardOnRf_of_backbone hsrc, Bool.false_eq_true, if_false]
      unfold advertReported
      have hmon : ∀ e : Event, e.IsMonitor → HubNoted m (m.monitor e) := fun e he => .monitor m he
      have hquiet : ∀ e : Event, (m.monitor e).heardOnRf = false := by
        intro e
        unfold McMesh.monitor
        split <;> exact heardOnRf_of_backbone hsrc
      simp only [hquiet, Bool.false_and, Bool.false_eq_true, if_false]
      split <;> exact hmon _ trivial

/-- A message is checked and shown; no service is asked. -/
theorem processPublicGrp_hub (hsrc : m.rxSrc = .backbone) (ch : McPubChannel) :
    HubNoted m (processPublicGrp C hal m pkt ch).1 := by
  unfold processPublicGrp
  split
  · exact .refl m
  rename_i plain _
  simp only
  split
  · exact (HubNoted.bump m (fun _ => by rfl) fun _ => by rfl).trans (.drop _ pkt _)
  · rw [hotspotWake_of_backbone C hal m pkt hsrc]
    have hmon := HubNoted.monitor m
      (e := .monPublic ch.name (grpText plain) pkt.rssiDbm pkt.snrQ) trivial
    rw [if_pos (hmon.toBridgeOnly.rxSrc.trans hsrc)]
    exact hmon

/-- Refusals are not counted as RF. -/
theorem deniedStats_rfOnly (d : FwdDecision) (s : MeshStats) : (deniedStats d s).rfOnly = s.rfOnly := by
  cases d <;> rfl

/-- The policy counts and shows. -/
theorem recvPolicy_hub (hsrc : m.rxSrc = .backbone) : HubNoted m (recvPolicy C hal m pkt).1 := by
  unfold recvPolicy
  split
  · rename_i ch _
    have h := processPublicGrp_hub C hal pkt hsrc ch
    split <;> rename_i heq <;> rw [heq] at h <;> simp only at h ⊢
    · exact h
    · exact h
    · exact h.trans (.bump _ (fun _ => by rfl) fun _ => by rfl)
  · have hbump := HubNoted.bump m (f := fun s => { s with fwdRegion := s.fwdRegion + 1 })
      (fun _ => by rfl) fun _ => by rfl
    simp only
    split
    · exact hbump.trans (.monitor _ trivial)
    · exact hbump
  · exact .refl m
  · exact (HubNoted.bump m (deniedStats_drops _) (deniedStats_rfOnly _)).trans (.drop _ pkt _)

/-- A hub frame is decided on without a trace in the node but notes. -/
theorem recvFresh_hub (hsrc : m.rxSrc = .backbone) :
    ∃ m', HubNoted m m' ∧
      recvFresh C hal m pkt = match recvVerdict C m.cfg .backbone pkt with
        | .error r => (m', r)
        | .ok (aname, sender) => recvRelay hal m' pkt aname sender := by
  have hadvert : ∀ r, r = (if pktPayloadType pkt = payloadTypeAdvert then recvAdvert C hal m pkt
        else (m, some [])) →
      HubNoted m r.1 ∧ r.2 = (if pktPayloadType pkt = payloadTypeAdvert then
        advertVerdict C m.cfg pkt else some []) := by
    rintro r rfl
    split
    · exact ⟨recvAdvert_hub C hal pkt hsrc, (recvAdvert_spec C hal m pkt).2⟩
    · exact ⟨.refl m, rfl⟩
  unfold recvFresh recvVerdict
  simp only
  split
  · rename_i m₁ heq
    obtain ⟨hnoted, hverdict⟩ := hadvert _ heq.symm
    exact ⟨m₁, hnoted, by rw [← hverdict]⟩
  rename_i m₁ aname heq
  obtain ⟨hnoted, hverdict⟩ := hadvert _ heq.symm
  have hsrc₁ : m₁.rxSrc = .backbone := hnoted.toBridgeOnly.rxSrc.trans hsrc
  rw [← hverdict]
  simp only
  split
  -- a trace is dropped
  · rw [bumpIf_of_backbone hsrc₁]
    exact ⟨_, hnoted.trans (.drop m₁ pkt _), rfl⟩
  -- adverts and messages left the configuration, so the verdict is that of the start
  have hcfg : m₁.cfg = m.cfg := hnoted.toNoted.cfg
  rw [hcfg]
  split
  · exact ⟨m₁, hnoted, rfl⟩
  have hpol := hnoted.trans (recvPolicy_hub C hal pkt hsrc₁)
  have hpolv := (recvPolicy_spec C hal m₁ pkt (Heard.refl 0 m₁)).2
  rw [hcfg, hsrc₁] at hpolv
  rw [← hpolv]
  split <;> rename_i heq' <;> rw [heq'] at hpol ⊢
  · exact ⟨_, hpol, rfl⟩
  · exact ⟨_, hpol, rfl⟩

end

/-! ## The whole call -/

section
variable (C : Crypto) (hal : Hal) {m : McMesh} (raw : Bytes) (rssiDbm snrQ : Int)

/-- With the hub as the source, `mesh_on_recv` is parsing, dedup and the decision. -/
theorem meshOnRecv_hub (hsrc : m.rxSrc = .backbone) :
    meshOnRecv C hal m raw rssiDbm snrQ = match pktParse raw with
      | .error _ => (m.monitor (.monDrop 0xFF (lit "parse error (malformed frame)") none), .malformed)
      | .ok pkt => match seenCheckAndAdd m (pktCalcHash C pkt) with
        | (m₀, true) =>
          (monPktDrop m₀ (pkt.heardAt rssiDbm snrQ) "duplicate (already seen)", .duplicate)
        | (m₀, false) => recvFresh C hal m₀ (pkt.heardAt rssiDbm snrQ) := by
  have hrf : m.heardOnRf = false := heardOnRf_of_backbone hsrc
  unfold meshOnRecv
  rw [hrf]
  cases pktParse raw with
  | error _ => rfl
  | ok pkt =>
    show recvParsed C hal m (pkt.heardAt rssiDbm snrQ) = _
    unfold recvParsed
    rw [hrf]
    cases hseen : seenCheckAndAdd m (pktCalcHash C pkt) with
    | mk m₀ known =>
      cases known <;> simp only [McMesh.bumpIf, pktCalcHash_heardAt, hseen, Bool.false_and, Bool.false_eq_true, if_false]

/-- A new packet from the hub meets the relay in a node that has taken note of it and
of nothing else. -/
theorem meshOnRecv_hub_new {pkt : McPacket} (hsrc : m.rxSrc = .backbone)
    (hparse : pktParse raw = .ok pkt) (hnew : pktCalcHash C pkt ∉ m.seen) :
    ∃ m₁, m₁.fixed = m.fixed ∧ m₁.txq = m.txq ∧
      ((accepted C m (pkt.heardAt rssiDbm snrQ) = none ∧
          (meshOnRecv C hal m raw rssiDbm snrQ).1.txq = m.txq) ∨
        ∃ power, accepted C m (pkt.heardAt rssiDbm snrQ) = some power ∧
          meshOnRecv C hal m raw rssiDbm snrQ = relay hal m₁ (pkt.heardAt rssiDbm snrQ) power) := by
  rw [meshOnRecv_hub C hal raw rssiDbm snrQ hsrc, hparse]
  simp only
  rcases seenCheckAndAdd_cases m (pktCalcHash C pkt) with ⟨hin, -⟩ | ⟨m₀, hrec, heq⟩
  · exact absurd hin hnew
  rw [heq]
  have hsrc₀ : m₀.rxSrc = .backbone := (congrArg MeshFixed.rxSrc hrec.fixed).trans hsrc
  have hcfg₀ : m₀.cfg = m.cfg := congrArg MeshFixed.cfg hrec.fixed
  obtain ⟨m₁, hnoted, hfresh⟩ := recvFresh_hub C hal (pkt.heardAt rssiDbm snrQ) hsrc₀
  have hfixed : m₁.fixed = m.fixed := hnoted.fixed.trans hrec.fixed
  have htxq : m₁.txq = m.txq := hnoted.txq.trans hrec.txq
  rw [hcfg₀] at hfresh
  refine ⟨m₁, hfixed, htxq, ?_⟩
  simp only [hfresh, accepted, hsrc]
  cases recvVerdict C m.cfg .backbone (pkt.heardAt rssiDbm snrQ) with
  | error r => exact .inl ⟨rfl, htxq⟩
  | ok names =>
    -- the scope is asked in a state that was only noted in
    have hscope : (recvScope m₁ (pkt.heardAt rssiDbm snrQ) names.1 names.2).2 =
        (recvScope m (pkt.heardAt rssiDbm snrQ) names.1 names.2).2 := recvScope_snd_congr (congrArg MeshFixed.cfg hfixed) (congrArg MeshFixed.rxSrc hfixed)
      (.inl (congrArg MeshFixed.affinityHash hfixed)) names.1 names.2
    simp only [← hscope]
    rcases recvRelay_eq hal m₁ (pkt.heardAt rssiDbm snrQ) names.1 names.2 with
      ⟨m', hn, hnone, hrelay⟩ | ⟨power, hsome, hrelay⟩
    · refine .inl ⟨hnone, ?_⟩
      rw [hrelay]
      exact hn.txq.trans htxq
    · exact .inr ⟨power, hsome, hrelay⟩

/-- `mesh_on_recv` for the hub only relays. -/
theorem meshOnRecv_bridgeOnly (hsrc : m.rxSrc = .backbone) :
    BridgeOnly m (meshOnRecv C hal m raw rssiDbm snrQ).1 := by
  rw [meshOnRecv_hub C hal raw rssiDbm snrQ hsrc]
  split
  · exact .monitor m trivial
  rename_i pkt _
  have hseen := BridgeOnly.seenCheckAndAdd m (pktCalcHash C pkt)
  split <;> rename_i m₀ heq <;> rw [heq] at hseen
  · exact hseen.trans (.drop m₀ _ _)
  · have hsrc₀ : m₀.rxSrc = .backbone := hseen.rxSrc.trans hsrc
    obtain ⟨m₁, hnoted, hfresh⟩ := recvFresh_hub C hal (pkt.heardAt rssiDbm snrQ) hsrc₀
    have h₁ := hseen.trans hnoted.toBridgeOnly
    rw [hfresh]
    split
    · exact h₁
    · exact h₁.trans (.recvRelay (h₁.rxSrc.trans hsrc) _ _ _)

/-- The source is put back. -/
theorem meshOnBackbone_bridgeOnly (m : McMesh) : BridgeOnly m (meshOnBackbone C hal m raw).1 := by
  have h := meshOnRecv_bridgeOnly C hal (m := { m with rxSrc := .backbone }) raw monViaBackbone 0 rfl
  refine ⟨?_, h.counters, h.events⟩
  obtain ⟨seen, txq, stats, events, heq⟩ := h.frame
  refine ⟨seen, txq, stats, events, ?_⟩
  unfold meshOnBackbone
  simp only [heq]

end

/-! ## No frame goes back to the hub -/

/-- The hashes written into the ring during a run, oldest first. -/
def recordedDuring (C : Crypto) : McMesh → List Input → List Bytes
  | _, [] => []
  | m, x :: xs => recordedOf (step C m x).events ++ recordedDuring C (step C m x) xs

/-- How many hashes other than `hash` a list holds. -/
def othersThan (hash : Bytes) (hashes : List Bytes) : Nat :=
  (hashes.filter fun h => h != hash).dedup.length

/-- The step that led to `m` offered a relayed packet with this hash to the hub. -/
def OffersRelay (C : Crypto) (m : McMesh) (hash : Bytes) : Prop :=
  ∃ out pkt, Event.offer out false ∈ m.events ∧ pktParse out = .ok pkt ∧ pktCalcHash C pkt = hash

/-- Over a run, the ring takes in what is recorded, each hash while it is absent. -/
theorem run_seen (C : Crypto) (m : McMesh) (xs : List Input) :
    m.seen.Fresh (recordedDuring C m xs) ∧
      (run C m xs).seen = m.seen.pushAll (recordedDuring C m xs) := by
  induction xs generalizing m with
  | nil => exact ⟨trivial, rfl⟩
  | cons x xs ih =>
    obtain ⟨hfresh, hseen⟩ := step_seen C m x
    obtain ⟨hfresh', hseen'⟩ := ih (step C m x)
    rw [hseen] at hfresh' hseen'
    refine ⟨?_, ?_⟩
    · rw [recordedDuring, SlotRing.fresh_append]
      exact ⟨hfresh, hfresh'⟩
    · rw [recordedDuring, SlotRing.pushAll_append, ← hseen']
      rfl

/-- The relay leaves the ring and what is fixed alone. -/
theorem recvRelay_frame (hal : Hal) (m : McMesh) (pkt : McPacket) (aname sender : Bytes) :
    (recvRelay hal m pkt aname sender).1.fixed = m.fixed ∧
      RingLog 0 m (recvRelay hal m pkt aname sender).1 := by
  rcases recvRelay_eq hal m pkt aname sender with ⟨m', hn, -, heq⟩ | ⟨power, -, heq⟩
  · rw [heq]
    exact ⟨hn.fixed, hn.ringLog⟩
  · rw [heq]
    exact relay_frame hal m pkt power

/-- A hub frame records one hash at most: its own. -/
theorem meshOnRecv_hub_ringLog (C : Crypto) (hal : Hal) {m : McMesh} (raw : Bytes)
    (rssiDbm snrQ : Int) (hsrc : m.rxSrc = .backbone) :
    RingLog 1 m (meshOnRecv C hal m raw rssiDbm snrQ).1 := by
  rw [meshOnRecv_hub C hal raw rssiDbm snrQ hsrc]
  split
  · have hn : Noted m (m.monitor (.monDrop 0xFF (lit "parse error (malformed frame)") none)) :=
      .monitor m trivial
    exact .of_eq hn.seen hn.recorded
  rename_i pkt _
  have hseen := (seenCheckAndAdd_remembered m (pktCalcHash C pkt)).ringLog
  have hb := BridgeOnly.seenCheckAndAdd m (pktCalcHash C pkt)
  split <;> rename_i m₀ heq <;> rw [heq] at hseen hb
  · exact hseen.then_eq (Noted.drop m₀ _ _).seen (Noted.drop m₀ _ _).recorded
  · obtain ⟨m₁, hnoted, hfresh⟩ := recvFresh_hub C hal (pkt.heardAt rssiDbm snrQ) (hb.rxSrc.trans hsrc)
    have h₁ := hseen.trans hnoted.toNoted.ringLog
    rw [hfresh]
    split
    · exact h₁
    · exact h₁.trans (recvRelay_frame hal m₁ _ _ _).2

/-- The hash a hub frame records is the only one. -/
theorem step_backbone_recorded {C : Crypto} {hal : Hal} {m : McMesh} {raw hash : Bytes}
    (h : Event.recorded hash ∈ (step C m (.backbone hal raw)).events) :
    recordedOf (step C m (.backbone hal raw)).events = [hash] := by
  obtain ⟨hashes, hlen, hlog, -, -⟩ := meshOnRecv_hub_ringLog C hal
    (m := { m.clearEvents with rxSrc := .backbone }) raw monViaBackbone 0 rfl
  have hrec : recordedOf (step C m (.backbone hal raw)).events = hashes := hlog
  have hmem : hash ∈ hashes := by
    rw [← hrec]
    exact List.mem_filterMap.mpr ⟨_, h, rfl⟩
  obtain ⟨x, rfl⟩ : ∃ x, hashes = [x] := by
    -- at most one hash, and it is there
    match hashes, hlen, hmem with
    | [x], _, _ => exact ⟨x, rfl⟩
  rw [hrec, List.mem_singleton.mp hmem]

/-- Distinct values of a list, all different from `hash`, are counted. -/
theorem length_le_othersThan {hash : Bytes} {xs ys : List Bytes} (hnd : xs.Nodup) (hno : hash ∉ xs)
    (hsub : xs ⊆ ys) : xs.length ≤ othersThan hash ys := by
  refine (List.subperm_of_subset hnd ?_).length_le
  intro x hx
  have hne : x ≠ hash := by
    rintro rfl
    exact hno hx
  simp [hsub hx, hne]

/-- A frame from the hub only relays; and its hash is not offered back, from whatever
copy, until 160 others were recorded. -/
theorem hub_frame_only_relays (C : Crypto) (hal : Hal) (m : McMesh) (raw : Bytes) :
    BridgeOnly m (meshOnBackbone C hal m raw).1 ∧
      ∀ hash, Event.recorded hash ∈ (step C m (.backbone hal raw)).events →
        ∀ xs x, othersThan hash (recordedDuring C (step C m (.backbone hal raw)) xs) < 160 →
          ¬ OffersRelay C (step C (run C (step C m (.backbone hal raw)) xs) x) hash := by
  refine ⟨meshOnBackbone_bridgeOnly C hal raw m, ?_⟩
  rintro hash hrec xs x hfew ⟨out, pkt, hoffer, hparse, rfl⟩
  -- the ring had lost the hash when the offer was made
  have hlost := step_relayOffer C _ x hoffer hparse
  obtain ⟨hfresh₀, hseen₀⟩ := step_seen C m (.backbone hal raw)
  obtain ⟨hfresh, hseen⟩ := run_seen C (step C m (.backbone hal raw)) xs
  rw [step_backbone_recorded hrec] at hseen₀
  simp only [SlotRing.pushAll_cons, SlotRing.pushAll_nil] at hseen₀
  rw [hseen, hseen₀] at hlost
  rw [hseen₀] at hfresh
  -- so 160 others came in between
  obtain ⟨hlen, hnd, hno⟩ := hfresh.forgotten hlost
  have hcount := length_le_othersThan hnd hno (List.take_subset meshSeenSize _)
  rw [List.length_take] at hcount
  unfold meshSeenSize at hlen hcount
  omega

/-- A node on `#mesh` with the hub attached. -/
def bridgeRepeater : McMesh :=
  meshInit (.still 0) farIdentity { configDefaults with publicChannels := [meshChannel] } false
    none true

/-- The message of `farPacket`, on its first hop. -/
def nearFrame : Bytes := 0x19 :: 0 :: farPacket.payload

/-- The message from the hub, then the same from a neighbour. -/
theorem hub_frame_only_relays_near :
    BridgeOnly bridgeRepeater (meshOnBackbone farCrypto (.still 1000) bridgeRepeater nearFrame).1 ∧
      ¬ OffersRelay farCrypto
        (step farCrypto (step farCrypto bridgeRepeater (.backbone (.still 1000) nearFrame))
          (.recv (.still 2000) nearFrame (-90) 20))
        (bytesBE 8 0xf8f86599db960f42) := by
  obtain ⟨hframe, hloop⟩ := hub_frame_only_relays farCrypto (.still 1000) bridgeRepeater nearFrame
  refine ⟨hframe, hloop _ ?_ [] _ ?_⟩
  · decide +kernel
  · decide

end Meshcore
