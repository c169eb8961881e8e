import MeshcoreRepeater.Mesh.RoutedReply

/-! # Replies that nobody answers

A reply goes out on a channel other repeaters read. Had it the form of a command to
one of them, two repeaters would keep each other talking. Whatever a service sends,
the node that receives it relays it at most.

* `step_originates`: an own packet is an advert or a service's text.
* `receive_atMostRelays`: a node that receives such a text relays it at most.
* `originated_text_atMostRelays`: the two together, after any number of hops.
-/

namespace Meshcore

set_option maxRecDepth 8000

open ByteLib

/-! ## What the services remember -/

/-- The counters of the services. -/
def MeshStats.ofServices (s : MeshStats) : List Nat :=
  [s.pingSeen, s.pongSent, s.probesSent, s.timeofdaySent, s.helpSent, s.mboxStored]

/-- What has been asked of a node, and what it has answered with a flood. -/
structure ServiceState where
  todCh : McPubChannel
  todMinute : UInt32
  todTimePending : Bool
  todDatePending : Bool
  probeCh : McPubChannel
  probeIntervalMs : Nat
  probeTotal : Nat
  probeRemaining : Nat
  probeSeq : Nat
  probeNextMs : Nat
  helpNextMs : Nat
  mbox : McMbox
  counters : List Nat

/-- What a mesh remembers of its services. -/
def McMesh.serviceState (m : McMesh) : ServiceState where
  todCh := m.todCh
  todMinute := m.todMinute
  todTimePending := m.todTimePending
  todDatePending := m.todDatePending
  probeCh := m.probeCh
  probeIntervalMs := m.probeIntervalMs
  probeTotal := m.probeTotal
  probeRemaining := m.probeRemaining
  probeSeq := m.probeSeq
  probeNextMs := m.probeNextMs
  helpNextMs := m.meshHelpNextMs
  mbox := m.mbox
  counters := m.stats.ofServices

section
variable (C : Crypto) (hal : Hal) (m : McMesh)

/-- A counter that is none of the services'. -/
theorem serviceState_bump {f : MeshStats → MeshStats} (hf : ∀ s, (f s).ofServices = s.ofServices) :
    (m.bump f).serviceState = m.serviceState := by
  simp only [McMesh.serviceState, McMesh.bump, hf]

/-- Counted on RF traffic only. -/
theorem serviceState_bumpIf (rf : Bool) {f : MeshStats → MeshStats}
    (hf : ∀ s, (f s).ofServices = s.ofServices) :
    (m.bumpIf rf f).serviceState = m.serviceState := by
  unfold McMesh.bumpIf
  split
  · exact serviceState_bump m hf
  · rfl

/-- What is shown to the watchers is not remembered. -/
@[simp] theorem serviceState_monitor (e : Event) : (m.monitor e).serviceState = m.serviceState := by
  unfold McMesh.monitor
  split <;> rfl

@[simp] theorem serviceState_drop (pkt : McPacket) (reason : String) :
    (monPktDrop m pkt reason).serviceState = m.serviceState := serviceState_monitor m _

@[simp] theorem serviceState_seen (hash : Bytes) :
    (seenCheckAndAdd m hash).1.serviceState = m.serviceState := by
  unfold seenCheckAndAdd
  split <;> rfl

/-- Queueing sets nothing going. -/
@[simp] theorem serviceState_enqueue (pkt : McPacket) (priority delayMs : Nat) (power : Int)
    (own : Bool) : (enqueue hal m pkt priority delayMs power own).1.serviceState = m.serviceState := by
  unfold enqueue
  split
  · rw [serviceState_drop]
    exact serviceState_bump m fun _ => rfl
  · split
    · simp only
      split
      · split <;> rfl
      · rfl
    · exact serviceState_bump m fun _ => rfl

theorem serviceState_sendOwn (pkt : McPacket) (delayMs : Nat) :
    (sendOwn C hal m pkt delayMs).1.serviceState = m.serviceState := by
  simp [sendOwn, recordOwn]

/-- The self-advert has its own timer, in the main loop. -/
theorem serviceState_meshSendAdvert :
    (meshSendAdvert C hal m).1.serviceState = m.serviceState := by
  unfold meshSendAdvert
  split
  · rfl
  split
  · rfl
  · rename_i pkt _
    have h := serviceState_enqueue hal (recordOwn C m pkt) pkt 0 (halRngInt hal .advert 0 3 * 50)
      (ownTxPower (recordOwn C m pkt)) true
    rw [recordOwn, serviceState_seen] at h
    simp only
    split <;> rename_i heq <;> rw [recordOwn] at heq <;> rw [heq] at h
    · exact h
    · exact h

/-- Waking up is remembered elsewhere. -/
theorem serviceState_hotspotWake (pkt : McPacket) (who : Bytes) :
    (hotspotWake C hal m pkt who).serviceState = m.serviceState := by
  unfold hotspotWake
  split
  · simp only
    split
    · have h := serviceState_meshSendAdvert C hal { m.wakeUntil hal.millis who with hsSilent := false }
      split
      · exact h
      · exact h
    · rfl
  · rfl

/-- A relay is counted and queued. -/
theorem serviceState_relay (pkt : McPacket) (power : Int) :
    (relay hal m pkt power).1.serviceState = m.serviceState := by
  -- queued or dropped, the services stay
  have hqueued : ∀ {out : McPacket} {priority delayMs : Nat} {m' : McMesh} {ok : Bool},
      enqueue hal m out priority delayMs power false = (m', ok) → m'.serviceState = m.serviceState := by
    intro out priority delayMs m' ok heq
    have h := serviceState_enqueue hal m out priority delayMs power false
    rw [heq] at h
    exact h
  unfold relay
  split
  · unfold relayFlood
    split
    · simp only
      split
      · rename_i heq
        exact (serviceState_bump _ fun _ => rfl).trans (hqueued heq)
      · rename_i heq
        exact hqueued heq
    · rw [serviceState_drop]
      exact serviceState_bump m fun _ => rfl
  · unfold relayDirect
    split
    · split
      · rename_i heq
        exact (serviceState_bump _ fun _ => rfl).trans (hqueued heq)
      · rename_i heq
        exact hqueued heq
    · rfl

/-- The scope decides on power and relay. -/
theorem serviceState_recvScope (pkt : McPacket) (aname sender : Bytes) :
    (recvScope m pkt aname sender).1.serviceState = m.serviceState := by
  unfold recvScope
  split
  · split
    · exact serviceState_drop m pkt _
    · rfl
  · rfl

/-- From the scope to the queue. -/
theorem serviceState_recvRelay (pkt : McPacket) (aname sender : Bytes) :
    (recvRelay hal m pkt aname sender).1.serviceState = m.serviceState := by
  have hscope := serviceState_recvScope m pkt aname sender
  unfold recvRelay
  split <;> rename_i heq <;> rw [heq] at hscope
  · exact hscope
  · exact (serviceState_relay hal _ pkt _).trans hscope

/-- Before a new packet is decided on, the services are not asked. -/
theorem meshOnRecv_idle (raw : Bytes) (rssiDbm snrQ : Int) :
    (meshOnRecv C hal m raw rssiDbm snrQ).1.serviceState = m.serviceState ∨
      ∃ pkt m₀, pktParse raw = .ok pkt ∧ m₀.fixed = m.fixed ∧ m₀.serviceState = m.serviceState ∧
        (meshOnRecv C hal m raw rssiDbm snrQ).1 = (recvFresh C hal m₀ (pkt.heardAt rssiDbm snrQ)).1 := by
  unfold meshOnRecv
  simp only
  have hair := serviceState_bumpIf m m.heardOnRf (f := fun s =>
    { s with rxAirtimeMs := s.rxAirtimeMs + hal.airtimeMs raw.length }) fun _ => rfl
  have hair' := (Noted.bumpIf m m.heardOnRf (f := fun s =>
    { s with rxAirtimeMs := s.rxAirtimeMs + hal.airtimeMs raw.length }) fun _ => rfl).fixed
  generalize m.bumpIf m.heardOnRf _ = m₁ at hair hair'
  split
  · left
    rw [serviceState_monitor]
    exact (serviceState_bumpIf m₁ _ fun _ => by rfl).trans hair
  · rename_i pkt hparse
    unfold recvParsed
    simp only
    -- counted, then looked up among the hashes
    have htotal := serviceState_bumpIf m₁ m₁.heardOnRf
      (f := fun s => { s with rxTotal := s.rxTotal + 1 }) fun _ => rfl
    have htotal' := (Noted.bumpIf m₁ m₁.heardOnRf
      (f := fun s => { s with rxTotal := s.rxTotal + 1 }) fun _ => rfl).fixed
    generalize m₁.bumpIf m₁.heardOnRf _ = m₂ at htotal htotal'
    have hseen := serviceState_seen m₂ (pktCalcHash C (pkt.heardAt rssiDbm snrQ))
    have hseen' := (seenCheckAndAdd_remembered m₂ (pktCalcHash C (pkt.heardAt rssiDbm snrQ))).fixed
    split <;> rename_i heq <;> rw [heq] at hseen hseen'
    -- seen before
    · left
      rw [serviceState_drop]
      refine (serviceState_bumpIf _ _ fun _ => by rfl).trans ?_
      rw [hseen, htotal, hair]
    · rename_i m₃
      right
      have hcount' := (Noted.bumpIf m₃ (m₁.heardOnRf &&
        pktRouteType (pkt.heardAt rssiDbm snrQ) == routeTypeTransportFlood) (f := fun s =>
          { s with rxTransportFlood := s.rxTransportFlood + 1 }) fun _ => rfl).fixed
      refine ⟨pkt, _, hparse, hcount'.trans (hseen'.trans (htotal'.trans hair')), ?_, rfl⟩
      refine (serviceState_bumpIf m₃ _ fun _ => by rfl).trans ?_
      rw [hseen, htotal, hair]

/-- If the services stay on a packet that is new, they stay on any frame. -/
theorem serviceState_meshOnRecv (raw : Bytes) (rssiDbm snrQ : Int)
    (hfresh : ∀ pkt, pktParse raw = .ok pkt → ∀ m₀ : McMesh, m₀.fixed = m.fixed →
      (recvFresh C hal m₀ (pkt.heardAt rssiDbm snrQ)).1.serviceState = m₀.serviceState) :
    (meshOnRecv C hal m raw rssiDbm snrQ).1.serviceState = m.serviceState := by
  rcases meshOnRecv_idle C hal m raw rssiDbm snrQ with hidle | ⟨pkt, m₀, hparse, hfixed, hidle, heq⟩
  · exact hidle
  · rw [heq, hfresh pkt hparse m₀ hfixed, hidle]

/-! ## A body that asks for nothing -/

/-- The mailbox answers floods only. -/
theorem isMboxCommand_of_direct {cfg : McConfig} {pkt : McPacket} (ch : McPubChannel)
    (h : pktIsRouteFlood pkt = false) : isMboxCommand cfg pkt ch = false := by
  simp [isMboxCommand, h]

/-- And no hotspot keeps one. -/
theorem isMboxCommand_of_hotspot {cfg : McConfig} (pkt : McPacket) (ch : McPubChannel)
    (h : cfg.role = .hotspot) : isMboxCommand cfg pkt ch = false := by
  simp [isMboxCommand, h]

/-- Only the mailbox has an answer to it. -/
theorem localServices_inert {body : Bytes} (hbody : Inert body) (pkt : McPacket) (ch : McPubChannel)
    (sender : Bytes) :
    localServices C hal m pkt ch sender body =
      if isMboxCommand m.cfg pkt ch then mboxHandle C hal m pkt ch sender body else (m, true) := by
  have hprobe : probeRequest m.cfg ch sender body = none := by
    unfold probeRequest
    rw [hbody.probe]
    split <;> rfl
  unfold localServices
  simp only [hbody.ping, hbody.time, hbody.date, hbody.help, hprobe, Bool.and_false,
    Bool.false_eq_true, if_false]

/-- And the mailbox has nothing to store. -/
theorem serviceState_mboxHandle {body : Bytes} (hbody : Inert body) (pkt : McPacket)
    (ch : McPubChannel) (sender : Bytes) :
    (mboxHandle C hal m pkt ch sender body).1.serviceState = m.serviceState := by
  -- the gate remembers whom it let through
  have hgate : (mboxRateOk m sender hal.millis).1.serviceState = m.serviceState := by
    unfold mboxRateOk
    simp only
    split
    · rfl
    split
    · split <;> rfl
    · rfl
  unfold mboxHandle
  split
  -- an inert body is no mention
  · rename_i heq
    exact absurd (congrArg Prod.fst heq) hbody.mention
  · split <;> rename_i heq <;> rw [heq] at hgate
    · exact hgate
    · rename_i cmd _ _ _ _ _ m₁
      have hsent : (sendRoutedReply C hal m₁ pkt ch (snprintfS 160
          (if cmd = .fetch then fetchReply m₁.mbox sender else mboxHelpText))).1.serviceState =
            m₁.serviceState := by
        unfold sendRoutedReply
        split
        · rfl
        · exact serviceState_sendOwn C hal m₁ _ _
      simp only
      split <;> rename_i heq' <;> rw [heq'] at hsent
      · exact (serviceState_bump _ fun _ => by rfl).trans (hsent.trans hgate)
      · rw [hsent, hgate]

/-- A refusal is counted under its reason. -/
theorem serviceState_denied (d : FwdDecision) : (m.bump (deniedStats d)).serviceState = m.serviceState := by
  refine serviceState_bump m ?_
  intro s
  cases d <;> rfl

end

/-! ## What a service's text leads to -/

/-- What is in a slot that got an own packet has the property. -/
theorem QueuesOwn.addsOwn {P : McPacket → Prop} {k : Nat} {m m' : McMesh} (h : QueuesOwn P k m m')
    {i : Fin meshTxqSize} (hi : AddsOwn m m' i) : P (m'.txq i).pkt := by
  rcases h with ⟨changed, -, hslots⟩
  rcases hi with ⟨hfree, hused, -⟩
  rcases hslots i with hsame | ⟨-, -, -, -, hP⟩
  · rw [hsame, hfree] at hused
    cases hused
  · exact hP

/-- What a node may send on its own account when it receives `pkt`: the advert of a
silent hotspot, or, for a flood, something that does not flood. -/
def Reaction (C : Crypto) (hal : Hal) (m : McMesh) (pkt out : McPacket) : Prop :=
  (IsAdvert C m.id out ∧ meshRfSilent m hal.millis = true) ∨
    (pktIsRouteFlood pkt = true ∧ pktIsRouteFlood out = false)

/-- The services stay as they were, and one own packet at most is queued. -/
structure Untriggered (P : McPacket → Prop) (m m' : McMesh) : Prop where
  idle : m'.serviceState = m.serviceState
  own : QueuesOwn P 1 m m'

/-- A note behind it, which leaves the services. -/
theorem Untriggered.note {P : McPacket → Prop} {m m' m'' : McMesh} (h : Untriggered P m m')
    (hn : Noted m' m'') (hs : m''.serviceState = m'.serviceState) : Untriggered P m m'' where
  idle := hs.trans h.idle
  own := h.own.trans (k := 0) (.of_eq hn.txq)

/-- A counter behind it. -/
theorem Untriggered.count {P : McPacket → Prop} {m m' : McMesh} (h : Untriggered P m m')
    {f : MeshStats → MeshStats} (hd : ∀ s, (f s).fwdDropped = s.fwdDropped)
    (hs : ∀ s, (f s).ofServices = s.ofServices) : Untriggered P m (m'.bump f) :=
  h.note (.bump m' hd) (serviceState_bump m' hs)

/-- Doing nothing sets nothing going. -/
theorem Untriggered.refl {P : McPacket → Prop} (m : McMesh) : Untriggered P m m := ⟨rfl, .of_eq rfl⟩

/-- A text that goes back along a path does not flood. -/
theorem IsText.direct {C : Crypto} {name : Bytes} {pkt : McPacket}
    (h : IsText C name routeTypeDirect pkt) : pktIsRouteFlood pkt = false := by
  rcases h with ⟨ch, text, ts, base, -, hbuild, hheader, -⟩
  rw [pktIsRouteFlood, pktRouteType, hheader, (channelBuildTxt_sealed hbuild).1]
  rfl

section
variable (C : Crypto) (hal : Hal) (m : McMesh) {pkt : McPacket}

/-- What a waking hotspot queues is its advert, and it was silent before. -/
theorem hotspotWake_queues (who : Bytes) :
    QueuesOwn (fun out => IsAdvert C m.id out ∧ meshRfSilent m hal.millis = true) 1 m
      (hotspotWake C hal m pkt who) := by
  unfold hotspotWake
  split
  · simp only
    split
    · rename_i hsilent
      have hadvert := (meshSendAdvert_sends C hal
        { m.wakeUntil hal.millis who with hsSilent := false }).slots
      have hqueued := hadvert.imp (Q := fun out => IsAdvert C m.id out ∧
        meshRfSilent m hal.millis = true) fun _ h => ⟨h, hsilent⟩
      split
      · exact hqueued
      · exact hqueued
    · exact .of_eq rfl
  · exact .of_eq rfl

/-- So waking up is a reaction, and no service. -/
theorem hotspotWake_untriggered (who : Bytes) :
    Untriggered (Reaction C hal m pkt) m (hotspotWake C hal m pkt who) where
  idle := serviceState_hotspotWake C hal m pkt who
  own := (hotspotWake_queues C hal m who).imp fun _ h => .inl h

/-- On the channel, a service's text is shown and no more; the mailbox may answer a
flood, along the path it came by. -/
theorem processPublicGrp_untriggered {ch c : McPubChannel} {name text : Bytes} {route : UInt8}
    (hpkt : Carries C ch name text pkt) (haes : C.AesInverse) (hsecret : c.secret = ch.secret)
    (htext : ServiceText route text) (hnul : (0 : UInt8) ∉ name) (hname : ¬ lit ": " <:+: name) :
    Untriggered (Reaction C hal m pkt) m (processPublicGrp C hal m pkt c).1 := by
  rcases hpkt.body haes hsecret hnul hname with ⟨plain, hplain, hbody⟩
  unfold processPublicGrp
  simp only [hplain, hbody]
  split
  -- a blacklisted sender
  · refine (Untriggered.refl m).note (.bumpDrop m pkt _ fun _ => rfl) ?_
    rw [serviceState_drop]
    exact serviceState_bump m fun _ => by rfl
  · generalize hwoken : hotspotWake C hal m pkt (grpSenderName plain mcBlacklistNameLen) = m₁
    have hwake : Untriggered (Reaction C hal m pkt) m
        (hotspotWake C hal m pkt (grpSenderName plain mcBlacklistNameLen)) :=
      hotspotWake_untriggered C hal m (grpSenderName plain mcBlacklistNameLen)
    -- waking up leaves the configuration
    have hcfg : m₁.cfg = m.cfg := by
      rcases hotspotWake_fixed C hal m pkt (grpSenderName plain mcBlacklistNameLen) with ⟨t, ht⟩
      rw [← hwoken]
      exact congrArg MeshFixed.cfg ht
    have hshown := Noted.monitor m₁ (e := .monPublic c.name (grpText plain) pkt.rssiDbm pkt.snrQ) trivial
    have hidle := serviceState_monitor m₁ (.monPublic c.name (grpText plain) pkt.rssiDbm pkt.snrQ)
    rw [hwoken] at hwake
    have hsofar := hwake.note hshown hidle
    generalize m₁.monitor (.monPublic c.name (grpText plain) pkt.rssiDbm pkt.snrQ) = m₂ at hshown hidle hsofar
    split
    · exact hsofar
    · rw [localServices_inert C hal m₂ htext.inert]
      by_cases hmbox : isMboxCommand m₂.cfg pkt c = true
      · -- the mailbox is no hotspot's, so nothing has been sent yet
        have hflood : pktIsRouteFlood pkt = true := by
          by_contra hdirect
          rw [isMboxCommand_of_direct c (by simpa using hdirect)] at hmbox
          cases hmbox
        have hrole : m.cfg.role ≠ .hotspot := by
          intro hrole
          rw [isMboxCommand_of_hotspot pkt c (by rw [hshown.cfg, hcfg, hrole])] at hmbox
          cases hmbox
        have hstill : m₁ = m := by
          rw [← hwoken]
          simp [hotspotWake, wakesHotspot, hrole]
        subst hstill
        have hreply := (mboxHandle_sends C hal m₂ pkt c
          (grpSenderName plain mcBlacklistNameLen) (cstr text)).slots
        have hanswer : Untriggered (Reaction C hal m₁ pkt) m₁
            (mboxHandle C hal m₂ pkt c (grpSenderName plain mcBlacklistNameLen) (cstr text)).1 := by
          constructor
          · rw [serviceState_mboxHandle C hal m₂ htext.inert, hidle]
          · have hqueued := hreply.imp (Q := Reaction C hal m₁ pkt) fun _ h => .inr ⟨hflood, h.direct⟩
            exact (QueuesOwn.of_eq (k := 0) hshown.txq).trans hqueued
        rw [if_pos hmbox]
        split <;> rename_i heq <;> rw [heq] at hanswer
        · exact hanswer
        · exact hanswer
      · rw [if_neg hmbox]
        exact hsofar

/-- The whole content policy, for a text on a channel the node may hold. -/
theorem recvPolicy_untriggered {ch : McPubChannel} {name text : Bytes} {route : UInt8}
    (hpkt : Carries C ch name text pkt) (haes : C.AesInverse) (htext : ServiceText route text)
    (hnul : (0 : UInt8) ∉ name) (hname : ¬ lit ": " <:+: name)
    (hshares : ∀ c, classifyForward C m.cfg pkt = .okGrpPublic c → c.secret = ch.secret) :
    Untriggered (Reaction C hal m pkt) m (recvPolicy C hal m pkt).1 := by
  have hrefused : ∀ d : FwdDecision, Untriggered (Reaction C hal m pkt) m
      (monPktDrop (m.bump (deniedStats d)) pkt (decisionReason d)) := by
    intro d
    refine (Untriggered.refl m).note (.bumpDrop m pkt _ (deniedStats_drops d)) ?_
    rw [serviceState_drop, serviceState_denied]
  unfold recvPolicy
  split
  · rename_i c hclass
    have hpublic := processPublicGrp_untriggered C hal m hpkt haes (hshares c hclass) htext hnul hname
    split <;> rename_i heq <;> rw [heq] at hpublic
    · exact hpublic
    · exact hpublic
    · exact hpublic.count (f := fun s => { s with fwdGrpPublic := s.fwdGrpPublic + 1 })
        (fun _ => rfl) fun _ => rfl
  · -- a room has no services
    have hcount : Untriggered (Reaction C hal m pkt) m
        (m.bump fun s => { s with fwdRegion := s.fwdRegion + 1 }) :=
      (Untriggered.refl m).count (fun _ => by rfl) fun _ => by rfl
    simp only
    split
    · exact hcount.note (.monitor _ trivial) (serviceState_monitor _ _)
    · exact hcount
  · exact .refl m
  · exact hrefused _

/-- The relay queues nothing of the node's own. -/
theorem recvRelay_addsOwn {m₁ : McMesh} {aname sender : Bytes} {i : Fin meshTxqSize}
    (h : AddsOwn m (recvRelay hal m₁ pkt aname sender).1 i) :
    (recvRelay hal m₁ pkt aname sender).1.txq i = m₁.txq i := by
  rcases recvRelay_eq hal m₁ pkt aname sender with ⟨m', hn, -, heq⟩ | ⟨power, -, heq⟩
  · rw [heq]
    exact congrFun hn.txq i
  · rw [heq] at h ⊢
    cases hcopy : relayCopy m₁.id pkt with
    | none => exact congrFun (relay_of_none hal m₁ pkt power hcopy).2.1.txq i
    | some out =>
      rcases relay_of_some hal m₁ pkt power hcopy with ⟨-, -, hn⟩ | ⟨-, -, due, hq⟩
      · exact congrFun hn.txq i
      · rcases hq.slot with ⟨j, -, htxq⟩
        rw [htxq]
        by_cases hij : i = j
        · -- the entry queued is a relayed one
          have hown := h.2.2
          rw [htxq, hij, Function.update_self] at hown
          cases hown
        · exact Function.update_of_ne hij _ _

/-- What a call that is `Untriggered` up to the relay has done at its end. -/
structure OnlyRelays (P : McPacket → Prop) (m m' : McMesh) : Prop where
  idle : m'.serviceState = m.serviceState
  own : ∀ i, AddsOwn m m' i → P (m'.txq i).pkt
  single : ∀ i j, AddsOwn m m' i → AddsOwn m m' j → i = j

/-- What comes behind it queues for others at most. -/
theorem Untriggered.onlyRelays {P : McPacket → Prop} {m m₁ m' : McMesh} (h : Untriggered P m m₁)
    (hs : m'.serviceState = m₁.serviceState) (htxq : ∀ i, AddsOwn m m' i → m'.txq i = m₁.txq i) :
    OnlyRelays P m m' := by
  rcases h with ⟨hidle, changed, hlen, hslots⟩
  have hchanged : ∀ i, AddsOwn m m' i → i ∈ changed ∧ P (m'.txq i).pkt := by
    intro i hi
    rw [htxq i hi]
    rcases hslots i with hsame | ⟨hin, -, -, -, hP⟩
    · have hused := hi.2.1
      rw [htxq i hi, hsame, hi.1] at hused
      cases hused
    · exact ⟨hin, hP⟩
  refine ⟨hs.trans hidle, fun i hi => (hchanged i hi).2, ?_⟩
  intro i j hi hj
  match changed, hlen, (hchanged i hi).1, (hchanged j hj).1 with
  | [a], _, hia, hja => rw [List.mem_singleton.mp hia, List.mem_singleton.mp hja]

/-- A new text, whatever the node's role and configuration. -/
theorem recvFresh_onlyRelays {ch : McPubChannel} {name text : Bytes} {route : UInt8}
    (hpkt : Carries C ch name text pkt) (haes : C.AesInverse) (htext : ServiceText route text)
    (hnul : (0 : UInt8) ∉ name) (hname : ¬ lit ": " <:+: name)
    (hshares : ∀ c, classifyForward C m.cfg pkt = .okGrpPublic c → c.secret = ch.secret) :
    OnlyRelays (Reaction C hal m pkt) m (recvFresh C hal m pkt).1 := by
  have hpolicy := recvPolicy_untriggered C hal m hpkt haes htext hnul hname hshares
  have hadvert : ¬ payloadTypeGrpTxt = payloadTypeAdvert := by decide
  have htrace : ¬ payloadTypeGrpTxt = payloadTypeTrace := by decide
  unfold recvFresh
  simp only [hpkt.type, if_neg hadvert, if_neg htrace]
  split
  · exact (Untriggered.refl m).onlyRelays rfl fun _ _ => rfl
  split <;> rename_i heq <;> rw [heq] at hpolicy
  · exact hpolicy.onlyRelays rfl fun _ _ => rfl
  · exact hpolicy.onlyRelays (serviceState_recvRelay hal _ pkt _ _) fun _ hi => recvRelay_addsOwn hal m hi

end

/-! ## Receiving it -/

/-- The channel `pkt` was sent on is no other of the node's: whatever the node takes it
for has that key. -/
def SharesChannel (C : Crypto) (m : McMesh) (ch : McPubChannel) (pkt : McPacket) : Prop :=
  ∀ c ∈ m.cfg.publicChannels, channelProves C pkt.payload c = true → c.secret = ch.secret

/-- The reaction depends on what a step leaves alone, and on how the packet floods. -/
theorem Reaction.congr {C : Crypto} {hal : Hal} {m m' : McMesh} {p q out : McPacket}
    (h : Reaction C hal m p out) (hfixed : m'.fixed = m.fixed)
    (hflood : pktIsRouteFlood q = pktIsRouteFlood p) : Reaction C hal m' q out := by
  have hid : m'.id = m.id := congrArg MeshFixed.id hfixed
  rw [Reaction, hid, meshRfSilent_congr hfixed, hflood]
  exact h

/-- The frame of a service's text, from the parse to the relay. -/
theorem meshOnRecv_onlyRelays {C : Crypto} (haes : C.AesInverse) (hal : Hal) (m : McMesh) {raw : Bytes}
    (rssiDbm snrQ : Int) {pkt : McPacket} {ch : McPubChannel} {name text : Bytes} {route : UInt8}
    (hframe : pktSerialize pkt mcMaxTransUnit = .ok raw) (hpkt : Carries C ch name text pkt)
    (htext : ServiceText route text) (hnul : (0 : UInt8) ∉ name) (hname : ¬ lit ": " <:+: name)
    (hshares : SharesChannel C m ch pkt) :
    OnlyRelays (Reaction C hal m pkt) m (meshOnRecv C hal m raw rssiDbm snrQ).1 := by
  have hparse := pktParse_pktSerialize hframe
  have hpkt' : Carries C ch name text (pkt.onWire.heardAt rssiDbm snrQ) := hpkt.congr rfl rfl
  have hfresh : ∀ m₀ : McMesh, m₀.fixed = m.fixed →
      OnlyRelays (Reaction C hal m pkt) m₀
        (recvFresh C hal m₀ (pkt.onWire.heardAt rssiDbm snrQ)).1 := by
    intro m₀ hfixed
    have hcfg : m₀.cfg = m.cfg := congrArg MeshFixed.cfg hfixed
    have h := recvFresh_onlyRelays C hal m₀ hpkt' haes htext hnul hname (by
      intro c hclass
      rw [hcfg] at hclass
      rcases classifyForward_okGrpPublic hclass with ⟨-, -, hc, hproves⟩
      exact hshares c hc hproves)
    exact ⟨h.idle, fun i hi => (h.own i hi).congr hfixed.symm rfl, h.single⟩
  -- the services, whether the frame is new or not
  have hidle : (meshOnRecv C hal m raw rssiDbm snrQ).1.serviceState = m.serviceState := by
    refine serviceState_meshOnRecv C hal m raw rssiDbm snrQ ?_
    intro p hp m₀ hfixed
    rw [hparse] at hp
    cases hp
    exact (hfresh m₀ hfixed).idle
  by_cases hseen : pktCalcHash C pkt.onWire ∈ m.seen
  · -- a duplicate queues nothing
    have hn := (meshOnRecv_of_mem C hal m raw rssiDbm snrQ hparse hseen).2
    have hno : ∀ i, ¬ AddsOwn m (meshOnRecv C hal m raw rssiDbm snrQ).1 i := by
      rintro i ⟨hfree, hused, -⟩
      rw [hn.txq, hfree] at hused
      cases hused
    exact ⟨hidle, fun i hi => absurd hi (hno i), fun i _ hi => absurd hi (hno i)⟩
  · rcases meshOnRecv_of_not_mem C hal m raw rssiDbm snrQ hparse hseen with ⟨m₀, hrec, heq⟩
    have h := hfresh m₀ hrec.fixed
    rw [heq] at hidle ⊢
    have hadds : ∀ m' i, AddsOwn m m' i → AddsOwn m₀ m' i := by
      intro m' i hi
      rw [AddsOwn, hrec.txq]
      exact hi
    exact ⟨hidle, fun i hi => h.own i (hadds _ i hi), fun i j hi hj =>
      h.single i j (hadds _ i hi) (hadds _ j hj)⟩

/-- What is queued for others is the packet that came. -/
theorem receive_same (C : Crypto) (hal : Hal) (m : McMesh) {raw : Bytes} (entry : Entry) {i : Fin meshTxqSize}
    (hi : AddsRelay m (receive C hal m raw entry).1 i) :
    ∃ pkt, pktParse raw = .ok pkt ∧ ((receive C hal m raw entry).1.txq i).pkt.header = pkt.header ∧
      ((receive C hal m raw entry).1.txq i).pkt.payload = pkt.payload := by
  rcases receive_outcome C hal m raw entry with ⟨m', houtcome, src, heq⟩
  rw [heq] at hi ⊢
  have hadd : AddsRelay (m.enter entry) m' i := by
    cases entry
    · exact hi
    · exact hi
  rcases houtcome.policyKept.licensed i hadd with ⟨p, hp, hheader, -, hpayload, -⟩
  exact ⟨p, hp, hheader, hpayload⟩

/-- What receiving a service's text comes to at most: the packet is relayed. -/
structure AtMostRelays (C : Crypto) (hal : Hal) (m m' : McMesh) (pkt : McPacket) : Prop extends
    OnlyRelays (Reaction C hal m pkt) m m' where
  /-- what is queued for others is the packet that came -/
  relayed : ∀ i, AddsRelay m m' i →
    (m'.txq i).pkt.header = pkt.header ∧ (m'.txq i).pkt.payload = pkt.payload

/-- Through either entry point. -/
theorem receive_atMostRelays {C : Crypto} (haes : C.AesInverse) (hal : Hal) (m : McMesh) {raw : Bytes}
    (entry : Entry) {pkt : McPacket} {ch : McPubChannel} {name text : Bytes} {route : UInt8}
    (hframe : pktSerialize pkt mcMaxTransUnit = .ok raw) (hpkt : Carries C ch name text pkt)
    (htext : ServiceText route text) (hnul : (0 : UInt8) ∉ name) (hname : ¬ lit ": " <:+: name)
    (hshares : SharesChannel C m ch pkt) :
    AtMostRelays C hal m (receive C hal m raw entry).1 pkt := by
  have honly : OnlyRelays (Reaction C hal m pkt) m (receive C hal m raw entry).1 := by
    cases entry with
    | rf rssiDbm snrQ => exact meshOnRecv_onlyRelays haes hal m rssiDbm snrQ hframe hpkt htext hnul hname hshares
    | hub =>
      have h := meshOnRecv_onlyRelays haes hal { m with rxSrc := .backbone } monViaBackbone 0 hframe
        hpkt htext hnul hname hshares
      exact ⟨h.idle, h.own, h.single⟩
  refine ⟨honly, ?_⟩
  intro i hi
  rcases receive_same C hal m entry hi with ⟨p, hp, hheader, hpayload⟩
  rw [pktParse_pktSerialize hframe] at hp
  cases hp
  exact ⟨hheader, hpayload⟩

/-- A packet on its way keeps header and payload. -/
theorem RelayedAlong.same {C : Crypto} {xs : List Reception} {pkt out : McPacket}
    (h : RelayedAlong C xs pkt out) : out.header = pkt.header ∧ out.payload = pkt.payload := by
  induction xs generalizing pkt with
  | nil =>
    cases h
    exact ⟨rfl, rfl⟩
  | cons x xs ih =>
    rcases h with ⟨copy, ⟨raw, i, hser, -, hadd, hcopy⟩, hrest⟩
    rcases receive_same C x.hal x.mesh x.entry hadd with ⟨p, hp, hheader, hpayload⟩
    rw [pktParse_pktSerialize hser] at hp
    cases hp
    rw [hcopy] at hheader hpayload
    rcases ih hrest with ⟨hheader', hpayload'⟩
    exact ⟨hheader'.trans hheader, hpayload'.trans hpayload⟩

/-! ## What a node originates -/

/-- A packet of the node's own: a self-advert, or the text of a service. -/
def Originated (C : Crypto) (id : McIdentity) (name : Bytes) (pkt : McPacket) : Prop :=
  IsAdvert C id pkt ∨ IsServiceText C name pkt

section
variable (C : Crypto) (hal : Hal) (m : McMesh) (pkt : McPacket)

/-- The advert of a waking hotspot. -/
theorem hotspotWake_originates (who : Bytes) :
    QueuesOwn (Originated C m.id m.cfg.name) 1 m (hotspotWake C hal m pkt who) :=
  (hotspotWake_queues C hal m who).imp fun _ h => .inl h.1

/-- A heard advert may wake a hotspot, no more. -/
theorem recvAdvert_originates :
    QueuesOwn (Originated C m.id m.cfg.name) 1 m (recvAdvert C hal m pkt).1 := by
  -- the neighbour and its affinity are noted, then a silent hotspot wakes
  have hheard : ∀ pub atype aname, QueuesOwn (Originated C m.id m.cfg.name) 1 m
      (advertHeard C hal m pkt pub atype aname) := by
    intro pub atype aname
    unfold advertHeard
    simp only
    rcases neighborUpdate_eq hal pkt (m.bump fun s => { s with rxAdvert := s.rxAdvert + 1 }) pub
      pkt.rssiDbm pkt.snrQ with ⟨t, ht⟩
    rw [ht]
    split
    · split
      · rcases learnAffinity_eq { m.bump (fun s => { s with rxAdvert := s.rxAdvert + 1 }) with
          neighbors := t } pub with ⟨a, ha⟩
        rw [ha]
        exact hotspotWake_originates C hal _ pkt aname
      · exact hotspotWake_originates C hal _ pkt aname
    · split
      · rcases learnAffinity_eq { m.bump (fun s => { s with rxAdvert := s.rxAdvert + 1 }) with
          neighbors := t } pub with ⟨a, ha⟩
        rw [ha]
        exact .of_eq rfl
      · exact .of_eq rfl
  unfold recvAdvert
  split
  · exact .of_eq (Noted.bumpIfDrop m _ pkt _ fun _ => by rfl).txq
  · rename_i pub _
    simp only
    split
    · exact .of_eq (Noted.bumpDrop m pkt _ fun _ => by rfl).txq
    · refine QueuesOwn.trans (k := 0) ?_ (.of_eq (advertReported_noted hal _ pkt pub _ _).txq)
      split
      · exact hheard pub _ _
      · exact .of_eq rfl

/-- A message may wake a hotspot, and ask a service for a text. -/
theorem processPublicGrp_originates (ch : McPubChannel) :
    QueuesOwn (Originated C m.id m.cfg.name) 2 m (processPublicGrp C hal m pkt ch).1 := by
  unfold processPublicGrp
  split
  · exact .of_eq rfl
  rename_i plain _
  simp only
  split
  · exact .of_eq (Noted.bumpDrop m pkt _ fun _ => by rfl).txq
  generalize hsender : grpSenderName plain mcBlacklistNameLen = sender
  have hwake := hotspotWake_originates C hal m pkt sender
  have hcfg : (hotspotWake C hal m pkt sender).cfg = m.cfg := by
    rcases hotspotWake_fixed C hal m pkt sender with ⟨t, ht⟩
    exact congrArg MeshFixed.cfg ht
  generalize hotspotWake C hal m pkt sender = m₁ at hwake hcfg
  have hshown := Noted.monitor m₁ (e := .monPublic ch.name (grpText plain) pkt.rssiDbm pkt.snrQ) trivial
  have hsofar := hwake.trans (k := 0) (.of_eq hshown.txq)
  generalize m₁.monitor (.monPublic ch.name (grpText plain) pkt.rssiDbm pkt.snrQ) = m₂ at hshown hsofar
  -- where no service is asked
  have hstop : QueuesOwn (Originated C m.id m.cfg.name) 2 m m₂ := hsofar.trans (k := 1) (.of_eq rfl)
  split
  · exact hstop
  split
  · exact hstop
  · rename_i body _
    have hserv := (localServices_sends C hal m₂ pkt ch sender body).slots
    rw [hshown.cfg, hcfg] at hserv
    have hall := hsofar.trans (hserv.imp (Q := Originated C m.id m.cfg.name) fun _ h => .inr h)
    split <;> rename_i heq <;> rw [heq] at hall
    · exact hall
    · exact hall

/-- Only a message of a public channel asks for anything. -/
theorem recvPolicy_originates :
    QueuesOwn (Originated C m.id m.cfg.name) 2 m (recvPolicy C hal m pkt).1 := by
  unfold recvPolicy
  split
  · rename_i ch _
    have hpublic := processPublicGrp_originates C hal m pkt ch
    split <;> rename_i heq <;> rw [heq] at hpublic
    · exact hpublic
    · exact hpublic
    · exact hpublic
  · simp only
    split
    · rename_i room _
      exact .of_eq (Noted.monitor _ (e := .monRegion room.name (pktPayloadType pkt)
        pkt.payload.length pkt.rssiDbm pkt.snrQ) trivial).txq
    · exact .of_eq rfl
  · exact .of_eq rfl
  · exact .of_eq (Noted.drop _ pkt _).txq

/-- Advert, policy, then the relay, which is not the node's own. -/
theorem recvFresh_originates {i : Fin meshTxqSize} (h : AddsOwn m (recvFresh C hal m pkt).1 i) :
    Originated C m.id m.cfg.name ((recvFresh C hal m pkt).1.txq i).pkt := by
  have hadvert : ∀ r, (if pktPayloadType pkt = payloadTypeAdvert then recvAdvert C hal m pkt
      else (m, some [])) = r →
      QueuesOwn (Originated C m.id m.cfg.name) 1 m r.1 ∧ r.1.id = m.id ∧ r.1.cfg = m.cfg := by
    rintro r rfl
    split
    · have hheard := (recvAdvert_spec C hal m pkt).1
      exact ⟨recvAdvert_originates C hal m pkt, hheard.id, hheard.cfg⟩
    · exact ⟨.of_eq rfl, rfl, rfl⟩
  -- up to the relay, which queues nothing of the node's own
  have hrelay : ∃ m₁, QueuesOwn (Originated C m.id m.cfg.name) 3 m m₁ ∧
      (recvFresh C hal m pkt).1.txq i = m₁.txq i := by
    unfold recvFresh at h ⊢
    simp only at h ⊢
    generalize hr : (if pktPayloadType pkt = payloadTypeAdvert then recvAdvert C hal m pkt
      else (m, some [])) = r at h ⊢
    rcases hadvert r hr with ⟨hq, hid, hcfg⟩
    rcases r with ⟨m₁, aname⟩
    have hstop : ∀ m', m'.txq = m₁.txq → QueuesOwn (Originated C m.id m.cfg.name) 3 m m' := fun m' heq =>
      hq.trans (k := 2) (.of_eq heq)
    cases aname with
    | none => exact ⟨m₁, hstop m₁ rfl, rfl⟩
    | some aname =>
      simp only at h ⊢
      split
      · exact ⟨_, hstop _ (Noted.bumpIfDrop m₁ _ pkt _ fun _ => by rfl).txq, rfl⟩
      rename_i htrace
      rw [if_neg htrace] at h
      split
      · exact ⟨m₁, hstop m₁ rfl, rfl⟩
      rename_i hforward
      rw [if_neg hforward] at h
      have hpolicy := recvPolicy_originates C hal m₁ pkt
      rw [show m₁.id = m.id from hid, show m₁.cfg = m.cfg from hcfg] at hpolicy
      generalize recvPolicy C hal m₁ pkt = q at h hpolicy ⊢
      rcases q with ⟨m₂, r | sender⟩
      · exact ⟨m₂, hq.trans hpolicy, rfl⟩
      · exact ⟨m₂, hq.trans hpolicy, recvRelay_addsOwn hal m h⟩
  rcases hrelay with ⟨m₁, hq, hsame⟩
  have hi : AddsOwn m m₁ i := by
    rw [AddsOwn, ← hsame]
    exact h
  rw [hsame]
  exact hq.addsOwn hi

/-- Whatever is received, an own packet that is queued is an advert or a service's text. -/
theorem meshOnRecv_originates (raw : Bytes) (rssiDbm snrQ : Int) {i : Fin meshTxqSize}
    (h : AddsOwn m (meshOnRecv C hal m raw rssiDbm snrQ).1 i) :
    Originated C m.id m.cfg.name ((meshOnRecv C hal m raw rssiDbm snrQ).1.txq i).pkt := by
  have hnone : ∀ {m' : McMesh}, Noted m m' → ¬ AddsOwn m m' i := by
    rintro m' hn ⟨hfree, hused, -⟩
    rw [hn.txq, hfree] at hused
    cases hused
  cases hparse : pktParse raw with
  | error e => exact absurd h (hnone (meshOnRecv_of_error C hal m raw rssiDbm snrQ hparse).2)
  | ok p =>
    by_cases hseen : pktCalcHash C p ∈ m.seen
    · exact absurd h (hnone (meshOnRecv_of_mem C hal m raw rssiDbm snrQ hparse hseen).2)
    rcases meshOnRecv_of_not_mem C hal m raw rssiDbm snrQ hparse hseen with ⟨m₀, hrec, heq⟩
    have hid : m₀.id = m.id := congrArg MeshFixed.id hrec.fixed
    have hcfg : m₀.cfg = m.cfg := congrArg MeshFixed.cfg hrec.fixed
    have h₀ : AddsOwn m₀ (recvFresh C hal m₀ (p.heardAt rssiDbm snrQ)).1 i := by
      rw [AddsOwn, hrec.txq, ← heq]
      exact h
    rw [heq, ← hid, ← hcfg]
    exact recvFresh_originates C hal m₀ _ h₀

end

/-- In every step: receiving, or a service coming due. -/
theorem step_originates (C : Crypto) (m : McMesh) (x : Input) {i : Fin meshTxqSize}
    (h : AddsOwn m (step C m x) i) : Originated C m.id m.cfg.name ((step C m x).txq i).pkt := by
  have hnone : ∀ {m' : McMesh}, m'.txq = m.txq → ¬ AddsOwn m m' i := by
    rintro m' heq ⟨hfree, hused, -⟩
    rw [heq, hfree] at hused
    cases hused
  -- the timed services send floods
  have hflood : ∀ {hal : Hal} {k : Nat} {m' : McMesh},
      Sends hal (IsText C m.cfg.name routeTypeFlood) k m.clearEvents m' → AddsOwn m m' i →
        Originated C m.id m.cfg.name (m'.txq i).pkt := fun hs hi =>
    .inr (.inl (hs.slots.addsOwn (m := m.clearEvents) hi))
  cases x with
  | recv hal raw rssiDbm snrQ => exact meshOnRecv_originates C hal m.clearEvents raw rssiDbm snrQ h
  | backbone hal raw =>
    exact meshOnRecv_originates C hal { m.clearEvents with rxSrc := .backbone } raw monViaBackbone 0 h
  | rxError crc rssiDbm snrQ =>
    exact absurd h (hnone (meshOnRxError_noted m.clearEvents crc rssiDbm snrQ).txq)
  | sendAdvert hal => exact .inl ((meshSendAdvert_sends C hal m.clearEvents).slots.addsOwn h)
  | startProbe hal ch secs count =>
    exact absurd h (hnone (meshStartProbe_noted hal m.clearEvents ch secs count).txq)
  | serviceProbe hal nowMs => exact hflood (meshServiceProbe_sends C hal m.clearEvents nowMs) h
  | serviceTimeofday hal => exact hflood (meshServiceTimeofday_sends C hal m.clearEvents) h
  | serviceTx hal nowMs =>
    -- sending empties slots
    have hsent := (meshServiceTx_transmitted C hal m.clearEvents nowMs).txq i h.2.1
    have hfree := h.1
    rw [show m.txq i = m.clearEvents.txq i from rfl, hsent.1] at hfree
    cases hfree
  | advertTick _ | configure _ | reload _ | watchers _ => exact absurd h (hnone rfl)

/-! ## No storm -/

/-- A service's text, and the channel it is on. -/
theorem IsServiceText.carries {C : Crypto} {name : Bytes} {pkt : McPacket}
    (h : IsServiceText C name pkt) :
    ∃ ch text, ServiceText (pktRouteType pkt) text ∧ Carries C ch name text pkt := by
  have hof : ∀ {route : UInt8}, IsText C name route pkt →
      pktMakeHeader payloadVer1 payloadTypeGrpTxt route &&& 0x03 = route →
      (pktMakeHeader payloadVer1 payloadTypeGrpTxt route >>> 2) &&& 0x0F = payloadTypeGrpTxt →
      ∃ ch text, ServiceText (pktRouteType pkt) text ∧ Carries C ch name text pkt := by
    rintro route ⟨ch, text, ts, base, htext, hbuild, hheader, hpayload⟩ hroute htype
    rcases channelBuildTxt_sealed hbuild with ⟨hbase, -, pad, hsealed⟩
    rw [hbase] at hheader
    refine ⟨ch, text, ?_, ?_, ts, pad, hsealed.congr hpayload⟩
    · rw [pktRouteType, hheader, hroute]
      exact htext
    · rw [pktPayloadType, hheader]
      exact htype
  rcases h with hflood | hdirect
  · exact hof hflood (by decide) (by decide)
  · exact hof hdirect (by decide) (by decide)

/-- A self-advert is no group text. -/
theorem IsAdvert.type {C : Crypto} {id : McIdentity} {pkt : McPacket} (h : IsAdvert C id pkt) :
    pktPayloadType pkt = payloadTypeAdvert := by
  rcases h with ⟨info, ts, hbuild⟩
  unfold mcAdvertBuild at hbuild
  split at hbuild
  · cases hbuild
  simp only at hbuild
  split at hbuild
  · cases hbuild
  cases hbuild
  show pktPayloadType { McPacket.zero with
    header := pktMakeHeader payloadVer1 payloadTypeAdvert routeTypeFlood } = payloadTypeAdvert
  decide

/-- Every group text a node originates, in whatever step, is a text of its services. A
node that shares the channel and receives it, from wherever and after any number of hops,
relays it at most: its services are not set going, and of its own it sends only the
advert of a silent hotspot, or, for a flooded text, one packet that does not flood. -/
theorem originated_text_atMostRelays (C : Crypto) (haes : C.AesInverse) (m : McMesh) (x : Input)
    (hnul : (0 : UInt8) ∉ m.cfg.name) (hname : ¬ lit ": " <:+: m.cfg.name) {i : Fin meshTxqSize}
    (hown : AddsOwn m (step C m x) i)
    (htype : pktPayloadType ((step C m x).txq i).pkt = payloadTypeGrpTxt) :
    ∃ ch text, ServiceText (pktRouteType ((step C m x).txq i).pkt) text ∧
      Carries C ch m.cfg.name text ((step C m x).txq i).pkt ∧
      ∀ hops out raw hal r entry, RelayedAlong C hops ((step C m x).txq i).pkt out →
        pktSerialize out mcMaxTransUnit = .ok raw → SharesChannel C r ch out →
        AtMostRelays C hal r (receive C hal r raw entry).1 out := by
  rcases step_originates C m x hown with hadvert | htext
  · rw [hadvert.type] at htype
    cases htype
  · rcases htext.carries with ⟨ch, text, hservice, hcarries⟩
    refine ⟨ch, text, hservice, hcarries, ?_⟩
    intro hops out raw hal r entry hrelayed hframe hshares
    rcases hrelayed.same with ⟨hheader, hpayload⟩
    exact receive_atMostRelays haes hal r entry hframe (hcarries.congr hheader hpayload) hservice hnul
      hname hshares

/-- The node with the mailbox, answering the command that came over the hill. -/
def mboxAnswered : McMesh := step mboxCrypto mboxRepeater (.recv (.still 2000) fetchRelayed (-95) 12)

theorem originated_text_atMostRelays_mbox :
    ∃ ch text, ServiceText (pktRouteType (mboxAnswered.txq 0).pkt) text ∧
      Carries mboxCrypto ch mboxRepeater.cfg.name text (mboxAnswered.txq 0).pkt ∧
      ∀ hops out raw hal r entry, RelayedAlong mboxCrypto hops (mboxAnswered.txq 0).pkt out →
        pktSerialize out mcMaxTransUnit = .ok raw → SharesChannel mboxCrypto r ch out →
        AtMostRelays mboxCrypto hal r (receive mboxCrypto hal r raw entry).1 out := by
  unfold mboxAnswered
  exact originated_text_atMostRelays mboxCrypto mboxCrypto_aesInverse mboxRepeater
    (.recv (.still 2000) fetchRelayed (-95) 12) (by decide) (by decide)
    (by decide) (by decide)

end Meshcore
