import MeshcoreRepeater.Mesh.Neighbors
import MeshcoreRepeater.Mesh.Silence

/-! # What one node relays and another takes for a first transmission

A hotspot infers from an empty path that a packet comes from the sender itself. A
relay empties the path in two cases: it strips the last hop of a DIRECT packet, and
it wraps the count of a FLOOD packet that has come 63 one-byte hops. Those copies, and
no others, can wake a hotspot.

* `meshOnRecv_awake_iff`: what moves the deadline of a silent hotspot.
* `relayed_copy_silent_iff`: the copies that leave it alone.
* `strippedHillFrame_wakes`: one that does not.
-/

namespace Meshcore

set_option maxRecDepth 8000

open ByteLib

/-! ## The path of a relayed copy -/

/-- The relayed copy of this packet has an empty path. -/
def LosesPath (pkt : McPacket) : Prop :=
  if pktIsRouteFlood pkt then WrapsCount pkt else pktPathHashCount pkt = 1

/-- Stripping takes one hop off. -/
theorem stripFirstHash_count (pkt : McPacket) :
    pktPathHashCount (stripFirstHash pkt) = pktPathHashCount pkt - 1 := by
  have hlt := pktPathHashCount_lt pkt
  unfold stripFirstHash pktSetPathHashCount
  simp only [pktPathHashCount] at hlt ⊢
  rw [pathHashCount_set, toNat_ofNat_count (by omega), Nat.mod_eq_of_lt (by omega)]

/-- A relayed copy shows no hop exactly when the packet loses its path. -/
theorem relayCopy_count_iff {id : McIdentity} {pkt out : McPacket} (h : relayCopy id pkt = some out) :
    pktPathHashCount out = 0 ↔ LosesPath pkt := by
  have hlt := pktPathHashCount_lt pkt
  have hpos := pathHashSize_pos pkt.pathLen
  unfold relayCopy at h
  unfold LosesPath
  split at h
  · rename_i hflood
    split at h <;> cases h
    rename_i hroom
    -- a FLOOD copy has room for one more hash
    have hfits : (pktPathHashCount pkt + 1) * pktPathHashSize pkt ≤ 64 := by
      unfold floodHasRoom at hroom
      rw [Bool.and_eq_true] at hroom
      exact of_decide_eq_true hroom.2
    rw [if_pos hflood, appendOwnHash_count, WrapsCount]
    constructor
    · intro hzero
      have h63 : pktPathHashCount pkt = 63 := by omega
      rw [h63] at hfits
      refine ⟨h63, ?_⟩
      simp only [pktPathHashSize] at hfits ⊢
      omega
    · rintro ⟨h63, -⟩
      rw [h63]
  · rename_i hflood
    split at h <;> cases h
    rename_i hnext
    simp only [isNextHop, Bool.and_eq_true, decide_eq_true_eq] at hnext
    rw [if_neg hflood, stripFirstHash_count]
    -- a DIRECT one is for this node, so there is a hop to take off
    have hone := hnext.1
    omega

/-- The relay entry of a call is the copy of the packet that came in. -/
theorem Outcome.relayEntry {C : Crypto} {hal : Hal} {m m' : McMesh} {raw : Bytes}
    {rssiDbm snrQ : Int} {v : MeshRx} (h : Outcome C hal m raw rssiDbm snrQ m' v) {i : Fin meshTxqSize}
    (hadd : AddsRelay m m' i) :
    ∃ pkt power, pktParse raw = .ok pkt ∧ accepted C m (pkt.heardAt rssiDbm snrQ) = some power ∧
      relayCopy m.id (pkt.heardAt rssiDbm snrQ) = some (m'.txq i).pkt := by
  obtain ⟨pkt, hparse, hacc, hcopy⟩ := h.relayQueued hadd
  exact ⟨pkt, _, hparse, hacc, hcopy⟩

/-! ## A companion's packet, hops apart -/

/-- The packet is one of a companion's, as the node `m` sees it, however it came. The
neighbours asked are those known once an advert has been entered. -/
inductive ByCompanion (C : Crypto) (hal : Hal) (m : McMesh) (pkt : McPacket) : Prop where
  | advert (pub : Bytes) : mcAdvertVerify C pkt = some pub → advertBlocked m.cfg pkt pub = false →
      (advertTypeName pkt).1 = advTypeChat →
      isCompanionName (neighborUpdate hal m pub pkt pkt.rssiDbm pkt.snrQ) (advertTypeName pkt).2 =
        true → ByCompanion C hal m pkt
  | group (ch : McPubChannel) (plain : Bytes) : m.cfg.forward = true →
      classifyForward C m.cfg pkt = .okGrpPublic ch → groupPlain C pkt ch = some plain →
      configIsBlacklisted m.cfg (grpSenderName plain mcBlacklistNameLen) = false →
      isCompanionName m (grpSenderName plain mcBlacklistNameLen) = true → ByCompanion C hal m pkt

/-- Besides, the node has not seen it. -/
structure TakesForCompanion (C : Crypto) (hal : Hal) (m : McMesh) (pkt : McPacket) : Prop where
  absent : pktCalcHash C pkt ∉ m.seen
  sender : ByCompanion C hal m pkt

/-- Of the neighbours only names and types are looked at. -/
theorem isCompanionName_congr {m m' : McMesh} (hcfg : m'.cfg = m.cfg)
    (hused : ∀ i, (m'.neighbors i).used = (m.neighbors i).used)
    (htype : ∀ i, (m'.neighbors i).type = (m.neighbors i).type)
    (hname : ∀ i, (m'.neighbors i).name = (m.neighbors i).name) (who : Bytes) :
    isCompanionName m' who = isCompanionName m who := by
  unfold isCompanionName
  simp only [hcfg, hused, htype, hname]

/-- Names and types are entered from the payload alone. -/
theorem isCompanionName_neighborUpdate {hal : Hal} {m m' : McMesh} {p q : McPacket}
    (hcfg : m'.cfg = m.cfg) (hnb : m'.neighbors = m.neighbors)
    (hx : mcAdvertExtract q 32 = mcAdvertExtract p 32) (pub : Bytes) (r s r' s' : Int) (who : Bytes) :
    isCompanionName (neighborUpdate hal m' pub q r' s') who =
      isCompanionName (neighborUpdate hal m pub p r s) who := by
  unfold neighborUpdate
  rw [hnb]
  split
  · rename_i j _
    refine isCompanionName_congr ?_ ?_ ?_ ?_ who
    · exact hcfg
    all_goals
      intro i
      by_cases hij : i = j
      · subst hij
        simp [MeshNeighbor.heard, hx]
      · simp [hij]
  · refine isCompanionName_congr ?_ ?_ ?_ ?_ who
    · exact hcfg
    all_goals
      intro i
      by_cases hij : i = newNeighborSlot m.neighbors
      · subst hij
        simp [MeshNeighbor.heard, hx]
      · simp [hij]

/-- Who a packet is by does not depend on its path, nor on the rest of the node. -/
theorem ByCompanion.congr {C : Crypto} {hal : Hal} {m m' : McMesh} {p q : McPacket}
    (hcfg : m'.cfg = m.cfg) (hnb : m'.neighbors = m.neighbors) (hh : q.header = p.header)
    (hc : q.transportCodes = p.transportCodes) (hp : q.payload = p.payload)
    (h : ByCompanion C hal m p) : ByCompanion C hal m' q := by
  -- signature, type and name are in the header and the payload
  have hver : mcAdvertVerify C q = mcAdvertVerify C p := by
    rw [mcAdvertVerify, mcAdvertVerify, pktPayloadType, pktPayloadType, hh, hp]
  have hx : mcAdvertExtract q 32 = mcAdvertExtract p 32 := by
    rw [mcAdvertExtract, mcAdvertExtract, hp]
  have hname : advertTypeName q = advertTypeName p := by rw [advertTypeName, advertTypeName, hx]
  cases h with
  | advert pub hsig hblocked htype hcomp =>
    refine .advert pub (hver ▸ hsig) ?_ (hname ▸ htype) ?_
    · rwa [advertBlocked, hcfg, hname]
    · rwa [hname, isCompanionName_neighborUpdate hcfg hnb hx]
  | group ch plain hforward hclass hplain hblack hcomp =>
    refine .group ch plain (by rwa [hcfg]) ?_ ?_ (by rwa [hcfg]) ?_
    · rwa [hcfg, classifyForward_congr hh hc hp]
    · rwa [groupPlain, pktPayloadType, channelDecrypt, hh, hp]
    · rwa [isCompanionName_congr hcfg (by simp [hnb]) (by simp [hnb]) (by simp [hnb])]

/-! ## Waking, exactly -/

section
variable (C : Crypto) (hal : Hal) (m : McMesh) (pkt : McPacket)

/-- Where a waking at this moment puts the deadline. -/
def McMesh.wakeDeadline (m : McMesh) (hal : Hal) : Nat :=
  hal.millis + m.cfg.hotspotAwake.toNat * 1000

/-- A hotspot that wakes does so for its awake time. -/
theorem hotspotWake_awake {who : Bytes} (hw : wakesHotspot m pkt who = true) :
    (hotspotWake C hal m pkt who).hsAwakeUntilMs = m.wakeDeadline hal := by
  unfold hotspotWake
  rw [if_pos hw]
  simp only
  split
  -- its own advert does not move the deadline again
  · have hadv : (meshSendAdvert C hal
        { m.wakeUntil hal.millis who with hsSilent := false }).1.hsAwakeUntilMs = m.wakeDeadline hal :=
      congrArg MeshFixed.hsAwakeUntilMs (meshSendAdvert_services C hal _).fixed
    split
    · exact hadv
    · exact hadv
  · rfl

/-- The node listens for companions: a hotspot with an awake time, and a packet heard
on RF with no hop behind it. -/
structure Listens (m : McMesh) (pkt : McPacket) : Prop where
  role : m.cfg.role = .hotspot
  awake : m.cfg.hotspotAwake ≠ 0
  rf : m.rxSrc = .rf
  hops : pktPathHashCount pkt = 0

variable {m} {pkt}

/-- A companion's name wakes it. -/
theorem Listens.wakes (h : Listens m pkt) {m' : McMesh} (hcfg : m'.cfg = m.cfg)
    (hsrc : m'.rxSrc = m.rxSrc) {who : Bytes} (hcomp : isCompanionName m' who = true) :
    wakesHotspot m' pkt who = true := by
  simp [wakesHotspot, hcfg, hsrc, h.role, h.awake, h.rf, h.hops, hcomp]

/-- The neighbour table is all that is written. -/
theorem neighborUpdate_same (hal : Hal) (pkt : McPacket) (m : McMesh) (pub : Bytes) (rssi snrQ : Int) :
    (neighborUpdate hal m pub pkt rssi snrQ).cfg = m.cfg ∧
      (neighborUpdate hal m pub pkt rssi snrQ).rxSrc = m.rxSrc := by
  obtain ⟨t, ht⟩ := neighborUpdate_eq hal pkt m pub rssi snrQ
  rw [ht]
  exact ⟨rfl, rfl⟩

/-- Here it is the affinity hash. -/
theorem learnAffinity_same (m : McMesh) (pub : Bytes) :
    (learnAffinity m pub).cfg = m.cfg ∧ (learnAffinity m pub).rxSrc = m.rxSrc := by
  obtain ⟨t, ht⟩ := learnAffinity_eq m pub
  rw [ht]
  exact ⟨rfl, rfl⟩

/-- A companion's advert moves the deadline. -/
theorem recvAdvert_awake (h : Listens m pkt) {pub : Bytes} (hsig : mcAdvertVerify C pkt = some pub)
    (hpass : advertBlocked m.cfg pkt pub = false) (htype : (advertTypeName pkt).1 = advTypeChat)
    (hcomp : isCompanionName (neighborUpdate hal m pub pkt pkt.rssiDbm pkt.snrQ)
      (advertTypeName pkt).2 = true) :
    (recvAdvert C hal m pkt).1.hsAwakeUntilMs = m.wakeDeadline hal := by
  -- the state in which the name is tested: the advertiser entered, affinity learnt
  have hwake : ∀ m₁ : McMesh, m₁.cfg = m.cfg → m₁.rxSrc = m.rxSrc →
      m₁.neighbors = (neighborUpdate hal m pub pkt pkt.rssiDbm pkt.snrQ).neighbors →
      (hotspotWake C hal m₁ pkt (advertTypeName pkt).2).hsAwakeUntilMs = m.wakeDeadline hal := by
    intro m₁ hcfg hsrc hnb
    have hcfg' := (neighborUpdate_same hal pkt m pub pkt.rssiDbm pkt.snrQ).1
    have hname : isCompanionName m₁ (advertTypeName pkt).2 = true := by
      rw [← hcomp]
      exact isCompanionName_congr (hcfg.trans hcfg'.symm) (by simp [hnb]) (by simp [hnb])
        (by simp [hnb]) _
    rw [hotspotWake_awake C hal m₁ pkt (h.wakes hcfg hsrc hname), McMesh.wakeDeadline, hcfg]
    rfl
  -- as in `advertHeard`, whether or not the advertiser is learnt
  have hheard : (advertHeard C hal m pkt pub (advertTypeName pkt).1
      (advertTypeName pkt).2).hsAwakeUntilMs = m.wakeDeadline hal := by
    have hnb := fun m₁ : McMesh => hotspotWake_neighbors C hal m₁ pkt (advertTypeName pkt).2
    have htable := advertHeard_neighbors C hal m pkt pub (advertTypeName pkt).1 (advertTypeName pkt).2
    unfold advertHeard at htable ⊢
    simp only [htype, if_true] at htable ⊢
    rw [hnb] at htable
    have hupdate := neighborUpdate_same hal pkt
      (m.bump fun s => { s with rxAdvert := s.rxAdvert + 1 }) pub pkt.rssiDbm pkt.snrQ
    have hlearn := fun m₁ : McMesh => learnAffinity_same m₁ pub
    refine hwake _ ?_ ?_ htable
    · split
      · exact (hlearn _).1.trans hupdate.1
      · exact hupdate.1
    · split
      · exact (hlearn _).2.trans hupdate.2
      · exact hupdate.2
  unfold recvAdvert
  rw [hsig]
  simp only [hpass, Bool.false_eq_true, if_false, (heardOnRf_iff m).mpr h.rf, if_true]
  -- reporting the advert moves nothing
  have hrep := advertReported_noted hal
    (advertHeard C hal m pkt pub (advertTypeName pkt).1 (advertTypeName pkt).2) pkt pub
    (advertTypeName pkt).1 (advertTypeName pkt).2
  exact (congrArg MeshFixed.hsAwakeUntilMs hrep.fixed).trans hheard

/-- So does a companion's message. -/
theorem processPublicGrp_awake (h : Listens m pkt) {ch : McPubChannel} {plain : Bytes}
    (hplain : groupPlain C pkt ch = some plain)
    (hblack : configIsBlacklisted m.cfg (grpSenderName plain mcBlacklistNameLen) = false)
    (hcomp : isCompanionName m (grpSenderName plain mcBlacklistNameLen) = true) :
    (processPublicGrp C hal m pkt ch).1.hsAwakeUntilMs = m.wakeDeadline hal := by
  have hwoken := hotspotWake_awake C hal m pkt (h.wakes rfl rfl hcomp)
  have hsrc := hotspotWake_rxSrc C hal m pkt (grpSenderName plain mcBlacklistNameLen)
  unfold processPublicGrp
  rw [hplain]
  simp only [hblack, Bool.false_eq_true, if_false]
  generalize hotspotWake C hal m pkt (grpSenderName plain mcBlacklistNameLen) = m₁ at hwoken hsrc
  have hmon := Noted.monitor m₁ (e := .monPublic ch.name (grpText plain) pkt.rssiDbm pkt.snrQ) trivial
  generalize m₁.monitor _ = m₂ at hmon
  have hawake : m₂.hsAwakeUntilMs = m.wakeDeadline hal :=
    (congrArg MeshFixed.hsAwakeUntilMs hmon.fixed).trans hwoken
  rw [if_neg (by rw [hmon.rxSrc, hsrc, h.rf]; decide)]
  split
  · exact hawake
  · rename_i body _
    -- an answer to it does not move the deadline either
    have hserv := localServices_services C hal m₂ pkt ch (grpSenderName plain mcBlacklistNameLen) body
    have hawake' := (congrArg MeshFixed.hsAwakeUntilMs hserv.fixed).trans hawake
    split <;> rename_i heq <;> rw [heq] at hawake'
    · exact hawake'
    · exact hawake'

/-- A group message that is let in changes nothing that is fixed after its own stage. -/
theorem recvFresh_group_fixed {ch : McPubChannel} (hforward : m.cfg.forward = true)
    (hclass : classifyForward C m.cfg pkt = .okGrpPublic ch) :
    (recvFresh C hal m pkt).1.fixed = (processPublicGrp C hal m pkt ch).1.fixed := by
  obtain ⟨hadv, htrace⟩ := isGroupType_ne (classifyForward_okGrpPublic hclass).1
  unfold recvFresh
  simp only [if_neg hadv, if_neg htrace, hforward, Bool.not_true, Bool.false_eq_true, if_false]
  unfold recvPolicy
  rw [hclass]
  simp only
  generalize processPublicGrp C hal m pkt ch = r
  obtain ⟨m₁, g, sender⟩ := r
  cases g with
  | forward => exact (recvRelay_frame hal _ pkt _ _).1
  | consumed => rfl
  | blacklisted => rfl

/-- A companion heard directly moves the deadline. -/
theorem recvFresh_awake (h : Listens m pkt) (hcomp : ByCompanion C hal m pkt) :
    (recvFresh C hal m pkt).1.hsAwakeUntilMs = m.wakeDeadline hal := by
  cases hcomp with
  | advert pub hsig hpass htype hname =>
    have hres := (recvAdvert_neighbors C hal m pkt h.rf hsig hpass).2
    have hfixed := recvFresh_advert_fixed C hal m pkt (mcAdvertVerify_some hsig).1 hres
    exact (congrArg MeshFixed.hsAwakeUntilMs hfixed).trans
      (recvAdvert_awake C hal h hsig hpass htype hname)
  | group ch plain hforward hclass hplain hblack hname =>
    have hfixed := recvFresh_group_fixed C hal hforward hclass
    exact (congrArg MeshFixed.hsAwakeUntilMs hfixed).trans
      (processPublicGrp_awake C hal h hplain hblack hname)

/-- Nothing else does. -/
theorem recvFresh_awake_or (pkt : McPacket) (hrf : m.rxSrc = .rf) :
    (recvFresh C hal m pkt).1.hsAwakeUntilMs = m.hsAwakeUntilMs ∨
      (pktPathHashCount pkt = 0 ∧ ByCompanion C hal m pkt) := by
  obtain ⟨m', hheard, hfresh⟩ := recvFresh_spec C hal m pkt
  have hfixed : (recvFresh C hal m pkt).1.fixed = m'.fixed := by
    rw [hfresh]
    split
    · rfl
    · exact (recvRelay_frame hal m' pkt _ _).1
  have hawake' : (recvFresh C hal m pkt).1.hsAwakeUntilMs = m'.hsAwakeUntilMs :=
    congrArg MeshFixed.hsAwakeUntilMs hfixed
  rcases hheard.awake with heq | ⟨who, hwakes, hauth, -⟩
  · exact .inl (hawake'.trans heq)
  simp only [wakesHotspot, Bool.and_eq_true, beq_iff_eq] at hwakes
  obtain ⟨⟨-, hhops⟩, hname⟩ := hwakes
  cases hauth with
  | advert pub hsig hpass htype =>
    -- the advertiser was entered, and the table has not changed since
    have hnb : m'.neighbors = (neighborUpdate hal m pub pkt pkt.rssiDbm pkt.snrQ).neighbors :=
      (congrArg MeshFixed.neighbors hfixed).symm.trans
        (recvFresh_neighbors C hal m pkt hrf hsig hpass)
    have hcfg' := (neighborUpdate_same hal pkt m pub pkt.rssiDbm pkt.snrQ).1
    refine .inr ⟨hhops, .advert pub hsig hpass (by rw [htype]) ?_⟩
    rw [htype, ← hname]
    exact (isCompanionName_congr (hheard.cfg.trans hcfg'.symm) (by simp [hnb]) (by simp [hnb])
      (by simp [hnb]) who).symm
  | group ch plain hclass hplain hwho hblack =>
    obtain ⟨hadv, htrace⟩ := isGroupType_ne (classifyForward_okGrpPublic hclass).1
    by_cases hforward : m.cfg.forward = true
    · have hnb : m'.neighbors = m.neighbors := by
        rcases hheard.neighbors with heq | ⟨pub, -, hsig, -⟩
        · exact heq
        · exact absurd (mcAdvertVerify_some hsig).1 hadv
      subst hwho
      refine .inr ⟨hhops, .group ch plain hforward hclass hplain hblack ?_⟩
      rw [← hname]
      exact (isCompanionName_congr hheard.cfg (by simp [hnb]) (by simp [hnb]) (by simp [hnb]) _).symm
    · -- a node that does not forward does not read group messages
      refine .inl ?_
      simp [recvFresh, hadv, htrace, hforward]

end

/-! ## One node after the other -/

section
variable (C : Crypto) {hal : Hal} {m : McMesh} {raw : Bytes} (rssiDbm snrQ : Int) {pkt : McPacket}

/-- What makes a hotspot silent. -/
theorem meshRfSilent_true (h : meshRfSilent m hal.millis = true) :
    m.cfg.role = .hotspot ∧ m.cfg.hotspotAwake ≠ 0 ∧ m.hsAwakeUntilMs ≤ hal.millis := by
  simpa [meshRfSilent, and_assoc] using h

/-- Waking a silent node moves its deadline. -/
theorem wakeDeadline_ne (h : meshRfSilent m hal.millis = true) :
    m.wakeDeadline hal ≠ m.hsAwakeUntilMs := by
  obtain ⟨-, hawake, hpast⟩ := meshRfSilent_true h
  -- the awake time is not zero, and the old deadline is past
  have hsecs : m.cfg.hotspotAwake.toNat ≠ 0 := fun hz => hawake (UInt32.toNat_inj.mp (by simpa using hz))
  unfold McMesh.wakeDeadline
  omega

/-- A frame heard by a silent hotspot moves its deadline exactly when it is a
companion's own transmission. -/
theorem meshOnRecv_awake_iff (hrf : m.rxSrc = .rf) (hs : meshRfSilent m hal.millis = true)
    (hparse : pktParse raw = .ok pkt) :
    (meshOnRecv C hal m raw rssiDbm snrQ).1.hsAwakeUntilMs = m.hsAwakeUntilMs ↔
      ¬ (pktPathHashCount pkt = 0 ∧ TakesForCompanion C hal m pkt) := by
  by_cases hseen : pktCalcHash C pkt ∈ m.seen
  · have hn := (meshOnRecv_of_mem C hal m raw rssiDbm snrQ hparse hseen).2
    exact iff_of_true (congrArg MeshFixed.hsAwakeUntilMs hn.fixed) fun h => h.2.absent hseen
  obtain ⟨m₀, hrec, heq⟩ := meshOnRecv_of_not_mem C hal m raw rssiDbm snrQ hparse hseen
  -- remembering the packet changes only the ring
  have hcfg : m₀.cfg = m.cfg := congrArg MeshFixed.cfg hrec.fixed
  have hnb : m₀.neighbors = m.neighbors := congrArg MeshFixed.neighbors hrec.fixed
  have hsrc : m₀.rxSrc = m.rxSrc := congrArg MeshFixed.rxSrc hrec.fixed
  have hawake : m₀.hsAwakeUntilMs = m.hsAwakeUntilMs := congrArg MeshFixed.hsAwakeUntilMs hrec.fixed
  rw [heq]
  constructor
  · rintro hsame ⟨hhops, htakes⟩
    obtain ⟨hrole, hsecs, -⟩ := meshRfSilent_true hs
    have hcomp := ByCompanion.congr (p := pkt) (q := pkt.heardAt rssiDbm snrQ) hcfg hnb rfl rfl rfl
      htakes.sender
    have hlistens : Listens m₀ (pkt.heardAt rssiDbm snrQ) :=
      ⟨hcfg ▸ hrole, hcfg ▸ hsecs, hsrc.trans hrf, hhops⟩
    -- the deadline moves, against the assumption
    have hmoved := recvFresh_awake C hal hlistens hcomp
    have hdeadline : m₀.wakeDeadline hal = m.wakeDeadline hal := by
      rw [McMesh.wakeDeadline, McMesh.wakeDeadline, hcfg]
    exact wakeDeadline_ne hs (hdeadline.symm.trans (hmoved.symm.trans hsame))
  · intro hno
    rcases recvFresh_awake_or C hal (pkt.heardAt rssiDbm snrQ) (hsrc.trans hrf) with
      hkept | ⟨hhops, hcomp⟩
    · exact hkept.trans hawake
    · have hcomp' := ByCompanion.congr (p := pkt.heardAt rssiDbm snrQ) (q := pkt) hcfg.symm hnb.symm
        rfl rfl rfl hcomp
      exact absurd ⟨hhops, hseen, hcomp'⟩ hno

end

/-- A copy that `A` relays leaves a silent `B` silent, its deadline unmoved, except when
the relay emptied the path of a companion's packet. -/
theorem relayed_copy_silent_iff {C : Crypto} {halA halB : Hal} {A B : McMesh} {raw frame : Bytes}
    {entry : Entry} {i : Fin meshTxqSize} {pkt : McPacket} (rssiDbm snrQ : Int)
    (hparse : pktParse raw = .ok pkt) (hadd : AddsRelay A (receive C halA A raw entry).1 i)
    (hframe : pktSerialize ((receive C halA A raw entry).1.txq i).pkt mcMaxTransUnit = .ok frame)
    (hrf : B.rxSrc = .rf) (hsilent : meshRfSilent B halB.millis = true) :
    (meshRfSilent (meshOnRecv C halB B frame rssiDbm snrQ).1 halB.millis = true ∧
        (meshOnRecv C halB B frame rssiDbm snrQ).1.hsAwakeUntilMs = B.hsAwakeUntilMs) ↔
      ¬ (LosesPath pkt ∧ TakesForCompanion C halB B pkt) := by
  -- the entry is a copy of what A received
  obtain ⟨A', houtcome, src, heq⟩ := receive_outcome C halA A raw entry
  rw [heq] at hadd hframe
  have hadd' : AddsRelay (A.enter entry) A' i := by
    cases entry with
    | rf _ _ => exact hadd
    | hub => exact hadd
  obtain ⟨p, power, hp, hacc, hcopy⟩ := houtcome.relayEntry hadd'
  rw [hparse] at hp
  cases hp
  have hparse' := pktParse_pktSerialize hframe
  generalize (A'.txq i).pkt = out at hcopy hparse'
  -- on the wire it has the packet's header, codes and payload, and a path of its own
  have hwf := pktParse_wellFormed hparse
  obtain ⟨hhead, hcodes, hpay⟩ := relayCopy_spec hcopy
  have hcodes' : out.onWire.transportCodes = pkt.transportCodes := by
    simp only [McPacket.onWire]
    split
    · exact hcodes
    · rename_i hnone
      rw [pktHasTransportCodes, hhead, Bool.not_eq_true] at hnone
      exact (hwf.codes hnone).symm
  have hhash : pktCalcHash C out.onWire = pktCalcHash C pkt :=
    (pktCalcHash_relayCopy hcopy (accepted_not_trace hacc)).trans (pktCalcHash_heardAt C pkt _ _)
  -- the count on the wire is the count of the copy
  have hlost : pktPathHashCount out.onWire = 0 ↔ LosesPath pkt := by
    have hcount := relayCopy_count_iff hcopy
    exact hcount
  -- for `B` it is the same packet but for its path
  have htakes : TakesForCompanion C halB B out.onWire ↔ TakesForCompanion C halB B pkt := by
    constructor
    · rintro ⟨habsent, hcomp⟩
      exact ⟨hhash ▸ habsent, ByCompanion.congr (p := out.onWire) (q := pkt) rfl rfl hhead.symm
        hcodes'.symm hpay.symm hcomp⟩
    · rintro ⟨habsent, hcomp⟩
      exact ⟨hhash ▸ habsent, ByCompanion.congr (p := pkt) (q := out.onWire) rfl rfl hhead hcodes'
        hpay hcomp⟩
  have hawake := meshOnRecv_awake_iff C rssiDbm snrQ hrf hsilent hparse'
  rw [hlost, htakes] at hawake
  rw [← hawake]
  refine ⟨fun h => h.2, fun h => ⟨?_, h⟩⟩
  have hcfg := (meshOnRecv_outcome C halB B frame rssiDbm snrQ).same.1
  rwa [meshRfSilent_eq hcfg h]

/-! ## A routed companion -/

/-- The companion's advert, sent over one hop: the repeater `farRepeater`. -/
def routedHillFrame : Bytes := 0x12 :: 1 :: 0xA1 :: (hillAdvert []).payload

def routedHillAdvert : McPacket :=
  { McPacket.zero with
    header := 0x12
    pathLen := 1
    path := Buf.ofBytes 64 [0xA1]
    payload := (hillAdvert []).payload }

/-- What the repeater transmits: the advert with an empty path. -/
def strippedHillFrame : Bytes := 0x12 :: 0 :: (hillAdvert []).payload

/-- It is received as that. -/
theorem pktParse_routedHillFrame : pktParse routedHillFrame = .ok routedHillAdvert :=
  pktParse_of_onWire (by decide) (by decide)

/-- The repeater takes it for a hop of its own. -/
theorem routedHillFrame_addsRelay :
    AddsRelay farRepeater
      (receive hillCrypto (.still 1000) farRepeater routedHillFrame (.rf (-70) 30)).1 0 := by
  decide

/-- And strips itself off the path. -/
theorem pktSerialize_strippedHillFrame :
    pktSerialize ((receive hillCrypto (.still 1000) farRepeater routedHillFrame
      (.rf (-70) 30)).1.txq 0).pkt mcMaxTransUnit = .ok strippedHillFrame := by
  decide

/-- The hotspot has not been woken. -/
theorem hillHotspot_silent : meshRfSilent hillHotspot (Hal.still 2000).millis = true := by
  decide

/-- The repeater's copy of a companion's routed advert wakes the silent hotspot. -/
theorem strippedHillFrame_wakes :
    AddsRelay farRepeater
        (receive hillCrypto (.still 1000) farRepeater routedHillFrame (.rf (-70) 30)).1 0 ∧
      pktSerialize ((receive hillCrypto (.still 1000) farRepeater routedHillFrame
        (.rf (-70) 30)).1.txq 0).pkt mcMaxTransUnit = .ok strippedHillFrame ∧
      Reachable hillCrypto farRepeater ∧ Reachable hillCrypto hillHotspot ∧
      meshRfSilent hillHotspot 2000 = true ∧
      meshRfSilent (meshOnRecv hillCrypto (.still 2000) hillHotspot strippedHillFrame (-85) 10).1 2000 =
        false ∧
      (meshOnRecv hillCrypto (.still 2000) hillHotspot strippedHillFrame (-85) 10).1.hsAwakeUntilMs ≠
        hillHotspot.hsAwakeUntilMs :=
  ⟨routedHillFrame_addsRelay, pktSerialize_strippedHillFrame, ⟨_, _, _, _, _, _, [], rfl⟩,
    ⟨_, _, _, _, _, _, [], rfl⟩, by decide, by decide, by decide⟩

/-- The copy above, on both sides of the equivalence. -/
theorem relayed_copy_silent_iff_hill :
    (meshRfSilent (meshOnRecv hillCrypto (.still 2000) hillHotspot strippedHillFrame (-85) 10).1
          (Hal.still 2000).millis = true ∧
      (meshOnRecv hillCrypto (.still 2000) hillHotspot strippedHillFrame (-85) 10).1.hsAwakeUntilMs =
        hillHotspot.hsAwakeUntilMs) ↔
      ¬ (LosesPath routedHillAdvert ∧
        TakesForCompanion hillCrypto (.still 2000) hillHotspot routedHillAdvert) := by
  have hrf : hillHotspot.rxSrc = .rf := rfl
  exact relayed_copy_silent_iff (-85) 10 pktParse_routedHillFrame routedHillFrame_addsRelay
    pktSerialize_strippedHillFrame hrf hillHotspot_silent

end Meshcore
