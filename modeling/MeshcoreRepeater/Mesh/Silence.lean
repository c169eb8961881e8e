import MeshcoreRepeater.Authenticity
import MeshcoreRepeater.Mesh.Hub

/-! # The silent hotspot

A node of role hotspot keeps off the air until one of its operator's companions is
heard directly. `CompanionHeard` says what that is; the only way the awake deadline
moves is one of these, so that over a whole run every transmission has one less than
`hotspot_awake` seconds before it.

* `Input.run_awake`: what moves the deadline.
* `Input.run_silent`: what a silent node sends.
* `hotspot_rf_silence`: every run.
-/

namespace Meshcore

open ByteLib

/-! ## A companion -/

/-- The packet is by `who`: a signed companion advert, or a group message with the
MAC of a channel we hold. -/
inductive SentBy (C : Crypto) (cfg : McConfig) (pkt : McPacket) (who : Bytes) : Prop where
  | advert (pub : Bytes) : pktPayloadType pkt = payloadTypeAdvert → mcAdvertVerify C pkt = some pub →
      mcAdvertExtract pkt 32 = some (advTypeChat, who) → SentBy C cfg pkt who
  | group (ch : McPubChannel) (plain : Bytes) : pktPayloadType pkt = payloadTypeGrpTxt →
      ch ∈ cfg.publicChannels → pkt.payload.head? = some ch.hash →
      (pkt.payload.drop 1).take 2 = (hmacSha256 C ch.secret.bytes (pkt.payload.drop 3)).take 2 →
      channelDecrypt C ch pkt mcMaxPacketPayload = some plain →
      who = grpSenderName plain mcBlacklistNameLen → SentBy C cfg pkt who

/-- The name is one of the operator's own devices, by the lists of `cfg` and the
neighbours known. -/
structure OwnDevice (cfg : McConfig) (neighbors : Fin meshMaxNeighbors → MeshNeighbor) (who : Bytes) : Prop where
  allowed : configIsBlacklisted cfg who = false
  home : configIsHome cfg who = true
  notNode : strncaseEq who (lit "ON0") 3 = false
  notAffinity : configIsAffinity cfg who = false
  notSelf : strcaseEq who cfg.name = false
  notNeighbor : ∀ i, (neighbors i).used = true → (neighbors i).type ≠ advTypeChat →
    strcaseEq (neighbors i).name who = false

/-- In the state `m` the frame `raw` is a companion's own transmission: new, with no
hop behind it. The neighbours are those known when the call ends in `m'`. -/
def CompanionHeard (C : Crypto) (m m' : McMesh) (raw : Bytes) : Prop :=
  ∃ pkt who, pktParse raw = .ok pkt ∧ pktCalcHash C pkt ∉ m.seen ∧ pktPathHashCount pkt = 0 ∧
    SentBy C m.cfg pkt who ∧ OwnDevice m.cfg m'.neighbors who

section
variable {C : Crypto} {hal : Hal} {m m' : McMesh} {raw : Bytes} {rssiDbm snrQ : Int} {v : MeshRx}

theorem Authentic.sentBy {cfg : McConfig} {pkt : McPacket} {who : Bytes}
    (h : Authentic C cfg pkt who) :
    SentBy C cfg pkt who ∧ configIsBlacklisted cfg who = false := by
  cases h with
  | advert pub hsig hblocked hname =>
    have hwho : (advertTypeName pkt).2 = who := by rw [hname]
    simp only [advertBlocked, hwho, Bool.or_eq_false_iff] at hblocked
    refine ⟨.advert pub (mcAdvertVerify_some hsig).1 hsig ?_, hblocked.1⟩
    unfold advertTypeName at hname
    cases hx : mcAdvertExtract pkt 32 with
    | none =>
      rw [hx] at hname
      cases hname
    | some info =>
      rw [hx] at hname
      exact congrArg some hname
  | group ch plain hclass hplain hwho hblack =>
    obtain ⟨-, -, hch, hproves⟩ := classifyForward_okGrpPublic hclass
    simp only [channelProves, channelMac, Bool.and_eq_true, beq_iff_eq] at hproves
    unfold groupPlain at hplain
    split at hplain
    · cases hplain
    rename_i htype
    obtain ⟨hdec, -⟩ := Option.filter_eq_some_iff.mp hplain
    exact ⟨.group ch plain (by simpa using htype) hch hproves.1 hproves.2.symm hdec hwho, hblack⟩

/-- The test of `is_companion_name`, spelt out. -/
theorem isCompanionName_ownDevice {who : Bytes} (h : isCompanionName m who = true)
    (hblack : configIsBlacklisted m.cfg who = false) : OwnDevice m.cfg m.neighbors who := by
  unfold isCompanionName at h
  split at h
  · cases h
  rename_i hno
  simp only [Bool.or_eq_true, Bool.not_eq_true', not_or, Bool.not_eq_true, Bool.not_eq_false] at hno
  refine ⟨hblack, hno.1.1.1.2, hno.1.1.2, hno.1.2, hno.2, ?_⟩
  intro i hused htype
  have hi := List.all_eq_true.mp h i (List.mem_finRange i)
  simpa [hused, htype] using hi

/-- A waking packet is a companion's. -/
theorem companionHeard_of_wakes {pkt : McPacket} {who : Bytes} (hparse : pktParse raw = .ok pkt)
    (hnew : pktCalcHash C pkt ∉ m.seen) (hcfg : m'.cfg = m.cfg)
    (hwakes : wakesHotspot m' (pkt.heardAt rssiDbm snrQ) who = true)
    (hauth : Authentic C m.cfg (pkt.heardAt rssiDbm snrQ) who) : CompanionHeard C m m' raw := by
  obtain ⟨hsent, hblack⟩ := hauth.sentBy
  simp only [wakesHotspot, Bool.and_eq_true, beq_iff_eq] at hwakes
  have hown := isCompanionName_ownDevice hwakes.2 (by rwa [hcfg])
  rw [hcfg] at hown
  refine ⟨pkt, who, hparse, hnew, hwakes.1.2, ?_, hown⟩
  cases hsent with
  | advert pub ht hsig hx => exact .advert pub ht hsig hx
  | group ch plain ht hch hh hm hd hw => exact .group ch plain ht hch hh hm hd hw

/-! ## One call -/

/-- The awake deadline moves for a companion heard on RF only. -/
theorem Outcome.awake (h : Outcome C hal m raw rssiDbm snrQ m' v) :
    m'.hsAwakeUntilMs = m.hsAwakeUntilMs ∨
      (m.rxSrc = .rf ∧ CompanionHeard C m m' raw ∧
        m'.hsAwakeUntilMs = hal.millis + m.cfg.hotspotAwake.toNat * 1000) := by
  have hsame := h.same.1
  have hheardAwake : ∀ {pkt : McPacket} {m₀ m₁ : McMesh} {k : Nat}, pktParse raw = .ok pkt →
      Recorded m m₀ (pktCalcHash C pkt) → Heard C hal (pkt.heardAt rssiDbm snrQ) k m₀ m₁ →
      m'.fixed = m₁.fixed →
      m'.hsAwakeUntilMs = m.hsAwakeUntilMs ∨
        (m.rxSrc = .rf ∧ CompanionHeard C m m' raw ∧
          m'.hsAwakeUntilMs = hal.millis + m.cfg.hotspotAwake.toNat * 1000) := by
    intro pkt m₀ m₁ k hparse hrec hheard hfixed
    have hawake' : m'.hsAwakeUntilMs = m₁.hsAwakeUntilMs :=
      congrArg MeshFixed.hsAwakeUntilMs hfixed
    have hawake₀ : m₀.hsAwakeUntilMs = m.hsAwakeUntilMs :=
      congrArg MeshFixed.hsAwakeUntilMs hrec.fixed
    have hcfg₀ : m₀.cfg = m.cfg := congrArg MeshFixed.cfg hrec.fixed
    rcases hheard.awake with heq | ⟨who, hwakes, hauth, hval⟩
    · exact .inl (hawake'.trans (heq.trans hawake₀))
    · have hnb : m'.neighbors = m₁.neighbors := congrArg MeshFixed.neighbors hfixed
      have hsrc₁ : m₁.rxSrc = m.rxSrc := hheard.rxSrc.trans (congrArg MeshFixed.rxSrc hrec.fixed)
      have hcfg₁ : m₁.cfg = m.cfg := hheard.cfg.trans hcfg₀
      have hsrc' : m'.rxSrc = m₁.rxSrc := congrArg MeshFixed.rxSrc hfixed
      have hrf : m.rxSrc = .rf := by
        rw [← hsrc₁]
        simp only [wakesHotspot, Bool.and_eq_true, beq_iff_eq] at hwakes
        exact hwakes.1.1.2
      have hwakes' : wakesHotspot m' (pkt.heardAt rssiDbm snrQ) who = true := by
        rw [wakesHotspot, isCompanionName, hsame, hnb, hsrc', ← hcfg₁]
        exact hwakes
      rw [hcfg₀] at hauth hval
      exact .inr ⟨hrf, companionHeard_of_wakes hparse hrec.absent hsame hwakes' hauth,
        hawake'.trans hval⟩
  cases h with
  | malformed _ _ hn => exact .inl (congrArg MeshFixed.hsAwakeUntilMs hn.fixed)
  | duplicate _ _ _ hn => exact .inl (congrArg MeshFixed.hsAwakeUntilMs hn.fixed)
  | refused pkt m₀ v hparse hrec hheard => exact hheardAwake hparse hrec hheard rfl
  | relayed pkt m₀ m₁ power v hparse hrec hheard _ hrelay =>
    have hfixed := relay_fixed hal m₁ (pkt.heardAt rssiDbm snrQ) power
    rw [hrelay] at hfixed
    exact hheardAwake hparse hrec hheard hfixed

/-- A call that ends in silence queues nothing and offers nothing. -/
theorem Outcome.silent (h : Outcome C hal m raw rssiDbm snrQ m' v)
    (hs : meshRfSilent m' hal.millis = true) :
    m'.txq = m.txq ∧ ∀ out own, Event.offer out own ∈ m'.events → Event.offer out own ∈ m.events := by
  -- a note offers nothing
  have hnoted : ∀ {a b : McMesh}, Kept a b → ∀ out own,
      Event.offer out own ∈ b.events → Event.offer out own ∈ a.events := by
    intro a b hn out own he
    rcases hn.reports _ he with hin | hrep
    · exact hin
    · cases hrep
  -- up to the relay
  have hearlier : ∀ {pkt : McPacket} {m₀ m₁ : McMesh} {k : Nat},
      Recorded m m₀ (pktCalcHash C pkt) → Heard C hal (pkt.heardAt rssiDbm snrQ) k m₀ m₁ →
      meshRfSilent m₁ hal.millis = true →
      m₁.txq = m.txq ∧ ∀ out own, Event.offer out own ∈ m₁.events → Event.offer out own ∈ m.events := by
    intro pkt m₀ m₁ k hrec hheard hs₁
    obtain ⟨-, htxq, hoff⟩ := hheard.silent hs₁
    refine ⟨htxq.trans hrec.txq, ?_⟩
    intro out own he
    rcases hrec.reports _ (hoff out own he) with hin | hrep | hne
    · exact hin
    · cases hrep
    · cases hne
  cases h with
  | malformed _ _ hn => exact ⟨hn.txq, hnoted hn.toKept⟩
  | duplicate _ _ _ hn => exact ⟨hn.txq, hnoted hn.toKept⟩
  | refused pkt m₀ v _ hrec hheard => exact hearlier hrec hheard hs
  | relayed pkt m₀ m₁ power v _ hrec hheard _ hrelay =>
    have hfixed := relay_fixed hal m₁ (pkt.heardAt rssiDbm snrQ) power
    rw [hrelay] at hfixed
    -- the relay does not end the silence, so it was one before
    have hs₁ : meshRfSilent m₁ hal.millis = true := by rwa [← meshRfSilent_congr hfixed]
    obtain ⟨htxq, hoff⟩ := hearlier hrec hheard hs₁
    cases hcopy : relayCopy m₁.id (pkt.heardAt rssiDbm snrQ) with
    | none =>
      have hkept := (relay_of_none hal m₁ _ power hcopy).2.1
      rw [hrelay] at hkept
      exact ⟨hkept.txq.trans htxq, fun out own he => hoff out own (hnoted hkept out own he)⟩
    | some out =>
      rcases relay_of_some hal m₁ _ power hcopy with ⟨-, -, hn⟩ | ⟨hloud, -, -⟩
      · rw [hrelay] at hn
        exact ⟨hn.txq.trans htxq, fun out own he => hoff out own (hnoted hn.toKept out own he)⟩
      · rw [hs₁] at hloud
        cases hloud

end

/-! ## One step -/

/-- The clock an input brings, where queueing or transmitting may ask for it. -/
def Input.clock : Input → Option Nat
  | .recv hal _ _ _ | .backbone hal _ | .sendAdvert hal | .serviceProbe hal _
  | .serviceTimeofday hal => some hal.millis
  | .serviceTx _ nowMs => some nowMs
  | _ => none

/-- No slot was filled, and nothing was offered to the hub. -/
structure NothingSent (m m' : McMesh) : Prop where
  txq : ∀ i, (m'.txq i).used = true → (m.txq i).used = true ∧ (m'.txq i).pkt = (m.txq i).pkt
  offers : ∀ out own, Event.offer out own ∈ m'.events → Event.offer out own ∈ m.events

/-- The queue is as it was. -/
theorem NothingSent.of_txq_eq {m m' : McMesh} (htxq : m'.txq = m.txq)
    (hoff : ∀ out own, Event.offer out own ∈ m'.events → Event.offer out own ∈ m.events) :
    NothingSent m m' where
  txq := fun i hi => by rw [htxq] at hi ⊢; exact ⟨hi, rfl⟩
  offers := hoff

/-- A service finds the node silent. -/
theorem NothingSent.of_services {hal : Hal} {k : Nat} {m m' : McMesh} (h : Services hal k m m')
    (hs : meshRfSilent m hal.millis = true) : NothingSent m m' :=
  .of_txq_eq (h.silent hs).1 (h.silent hs).2

/-- A note sends nothing. -/
theorem NothingSent.of_noted {m m' : McMesh} (h : Noted m m') : NothingSent m m' := by
  refine .of_txq_eq h.txq ?_
  intro out own he
  rcases h.reports _ he with hin | hrep
  · exact hin
  · cases hrep

/-- Silence depends on configuration and deadline. -/
theorem meshRfSilent_eq {m m' : McMesh} (hcfg : m'.cfg = m.cfg)
    (hawake : m'.hsAwakeUntilMs = m.hsAwakeUntilMs) (now : Nat) :
    meshRfSilent m' now = meshRfSilent m now := by
  rw [meshRfSilent, meshRfSilent, hcfg, hawake]

section
variable (C : Crypto) (m : McMesh) (x : Input)

/-- Nothing moves the deadline but a companion heard on RF. -/
theorem Input.run_awake :
    (x.run C m).hsAwakeUntilMs = m.hsAwakeUntilMs ∨
      ∃ hal raw rssiDbm snrQ, x = .recv hal raw rssiDbm snrQ ∧ CompanionHeard C m (x.run C m) raw ∧
        (x.run C m).hsAwakeUntilMs = hal.millis + m.cfg.hotspotAwake.toNat * 1000 := by
  -- a chain of own packets moves no deadline
  have hserv : ∀ {hal : Hal} {k : Nat} {m' : McMesh}, Services hal k m m' →
      m'.hsAwakeUntilMs = m.hsAwakeUntilMs := fun h => congrArg MeshFixed.hsAwakeUntilMs h.fixed
  cases x with
  | recv hal raw rssiDbm snrQ =>
    rcases (meshOnRecv_outcome C hal m raw rssiDbm snrQ).awake with heq | ⟨-, hcomp, hval⟩
    · exact .inl heq
    · exact .inr ⟨hal, raw, rssiDbm, snrQ, rfl, hcomp, hval⟩
  | backbone hal raw =>
    obtain ⟨_, _, _, _, hframe⟩ := (meshOnBackbone_bridgeOnly C hal raw m).frame
    exact .inl (by rw [Input.run, hframe])
  | rxError crc rssiDbm snrQ =>
    exact .inl (congrArg MeshFixed.hsAwakeUntilMs (meshOnRxError_noted m crc rssiDbm snrQ).fixed)
  | sendAdvert hal => exact .inl (hserv (meshSendAdvert_services C hal m))
  | startProbe hal ch secs count =>
    exact .inl (congrArg MeshFixed.hsAwakeUntilMs (meshStartProbe_noted hal m ch secs count).fixed)
  | serviceProbe hal nowMs => exact .inl (hserv (meshServiceProbe_services C hal m nowMs))
  | serviceTimeofday hal => exact .inl (hserv (meshServiceTimeofday_services C hal m))
  | serviceTx hal nowMs =>
    exact .inl (congrArg MeshFixed.hsAwakeUntilMs (meshServiceTx_transmitted C hal m nowMs).fixed)
  | advertTick _ | configure _ | reload _ | watchers _ => exact .inl rfl

/-- A silent node sends nothing, unless the input is a companion that ends the
silence. -/
theorem Input.run_silent (hs : ∀ t, x.clock = some t → meshRfSilent m t = true) :
    NothingSent m (x.run C m) ∨
      ∃ hal raw rssiDbm snrQ, x = .recv hal raw rssiDbm snrQ ∧ CompanionHeard C m (x.run C m) raw := by
  cases x with
  | recv hal raw rssiDbm snrQ =>
    have hout := meshOnRecv_outcome C hal m raw rssiDbm snrQ
    rcases hout.awake with heq | ⟨-, hcomp, -⟩
    · have hs' : meshRfSilent (meshOnRecv C hal m raw rssiDbm snrQ).1 hal.millis = true := by
        rw [meshRfSilent_eq hout.same.1 heq]
        exact hs _ rfl
      exact .inl (.of_txq_eq (hout.silent hs').1 (hout.silent hs').2)
    · exact .inr ⟨hal, raw, rssiDbm, snrQ, rfl, hcomp⟩
  | backbone hal raw =>
    -- the hub wakes nobody
    have hout := meshOnRecv_outcome C hal { m with rxSrc := .backbone } raw monViaBackbone 0
    rcases hout.awake with heq | ⟨hrf, -⟩
    · have hs' : meshRfSilent (meshOnRecv C hal { m with rxSrc := .backbone } raw monViaBackbone 0).1
          hal.millis = true := by
        rw [meshRfSilent_eq hout.same.1 heq]
        exact hs _ rfl
      exact .inl (.of_txq_eq (hout.silent hs').1 (hout.silent hs').2)
    · cases hrf
  | rxError crc rssiDbm snrQ => exact .inl (.of_noted (meshOnRxError_noted m crc rssiDbm snrQ))
  | sendAdvert hal => exact .inl (.of_services (meshSendAdvert_services C hal m) (hs _ rfl))
  | startProbe hal ch secs count =>
    exact .inl (.of_noted (meshStartProbe_noted hal m ch secs count))
  | serviceProbe hal nowMs =>
    exact .inl (.of_services (meshServiceProbe_services C hal m nowMs) (hs _ rfl))
  | serviceTimeofday hal =>
    exact .inl (.of_services (meshServiceTimeofday_services C hal m) (hs _ rfl))
  | serviceTx hal nowMs =>
    have h := meshServiceTx_transmitted C hal m nowMs
    refine .inl ⟨fun i hi => ⟨(h.txq i hi).1, (h.txq i hi).2.1⟩, ?_⟩
    intro out own he
    rcases h.reports _ he with hin | hrep
    · exact hin
    · cases hrep
  | advertTick _ | configure _ | reload _ | watchers _ =>
    exact .inl ⟨fun i hi => ⟨hi, rfl⟩, fun _ _ he => he⟩

/-- `mesh_service_tx` transmits while the node is awake. -/
theorem meshServiceTx_awake {hal : Hal} {nowMs : Nat} {raw : Bytes} {timeout : Nat}
    (h : Event.transmit raw timeout ∈ (meshServiceTx C hal m nowMs).events) :
    Event.transmit raw timeout ∈ m.events ∨ meshRfSilent m nowMs = false := by
  cases hs : meshRfSilent m nowMs with
  | false => exact .inr rfl
  | true =>
    unfold meshServiceTx at h
    rw [if_pos hs] at h
    refine .inl ?_
    by_cases hflag : m.hsSilent = true <;> by_cases hbb : m.bb = true <;>
      simpa [dropQueued, McMesh.bump, McMesh.emit, hflag, hbb] using h

end

/-! ## Whole runs -/

/-- The role is hotspot, awake for `T` seconds after a companion was heard. -/
def HotspotFor (T : UInt32) (cfg : McConfig) : Prop := cfg.role = .hotspot ∧ cfg.hotspotAwake = T

/-- A change of settings leaves role and awake time as they are. -/
def Input.KeepsHotspot (T : UInt32) : Input → Prop
  | .configure cfg | .reload cfg => HotspotFor T cfg
  | _ => True

/-- The settings after an input. -/
def Input.cfgAfter : Input → McConfig → McConfig
  | .configure cfg, _ | .reload cfg, _ => cfg
  | _, cfg => cfg

/-- Settings change by a change of settings only. -/
theorem Input.run_cfg (C : Crypto) (m : McMesh) (x : Input) :
    (x.run C m).cfg = x.cfgAfter m.cfg := by
  have hcfg : ∀ {m' : McMesh}, m'.fixed = m.fixed → m'.cfg = m.cfg := congrArg MeshFixed.cfg
  cases x with
  | recv hal raw rssiDbm snrQ => exact (meshOnRecv_outcome C hal m raw rssiDbm snrQ).same.1
  | backbone hal raw =>
    rcases (meshOnBackbone_bridgeOnly C hal raw m).frame with ⟨_, _, _, _, hframe⟩
    rw [Input.run, hframe]
    rfl
  | rxError crc rssiDbm snrQ => exact hcfg (meshOnRxError_noted m crc rssiDbm snrQ).fixed
  | sendAdvert hal => exact hcfg (meshSendAdvert_services C hal m).fixed
  | startProbe hal ch secs count => exact hcfg (meshStartProbe_noted hal m ch secs count).fixed
  | serviceProbe hal nowMs => exact hcfg (meshServiceProbe_services C hal m nowMs).fixed
  | serviceTimeofday hal => exact hcfg (meshServiceTimeofday_services C hal m).fixed
  | serviceTx hal nowMs => exact hcfg (meshServiceTx_transmitted C hal m nowMs).fixed
  | configure _ | reload _ | advertTick _ | watchers _ => rfl

/-- A step leaves a hotspot one. -/
theorem Input.run_hotspotFor {C : Crypto} {T : UInt32} {m : McMesh} {x : Input}
    (hx : x.KeepsHotspot T) (h : HotspotFor T m.cfg) : HotspotFor T (x.run C m).cfg := by
  rw [x.run_cfg]
  cases x with
  | configure cfg => exact hx
  | reload cfg => exact hx
  | _ => exact h

/-- The settings of a whole run. -/
theorem run_hotspotFor {C : Crypto} {T : UInt32} {m : McMesh} (h : HotspotFor T m.cfg)
    {xs : List Input} (hxs : ∀ x ∈ xs, x.KeepsHotspot T) : HotspotFor T (run C m xs).cfg := by
  have hstep : ∀ (m : McMesh) (x : Input), x.KeepsHotspot T → HotspotFor T m.cfg →
      HotspotFor T (step C m x).cfg := fun _ _ hx hm => Input.run_hotspotFor hx hm
  exact Runs.run_invariant_of (fun _ x => Input.KeepsHotspot T x)
    (fun m => HotspotFor T (McMesh.cfg m)) hstep (Runs.every_of_forall_mem hxs) h

/-- A hotspot transmits only within `T` seconds of a companion heard directly; while
silent it queues and offers nothing, unless a companion just ends the silence. -/
theorem hotspot_rf_silence (C : Crypto) {T : UInt32} (hT : T ≠ 0) (hal₀ : Hal) (id : McIdentity)
    {cfg : McConfig} (aprs : Bool) (mon : Option Nat) (bb : Bool) (hcfg : HotspotFor T cfg)
    {xs : List Input} (hxs : ∀ x ∈ xs, x.KeepsHotspot T) :
    (∀ hal nowMs raw timeout,
      Event.transmit raw timeout ∈
        (step C (run C (meshInit hal₀ id cfg aprs mon bb) xs) (.serviceTx hal nowMs)).events →
      ∃ pre hal' frame rssiDbm snrQ post, xs = pre ++ .recv hal' frame rssiDbm snrQ :: post ∧
        nowMs < hal'.millis + 1000 * T.toNat ∧
        CompanionHeard C (run C (meshInit hal₀ id cfg aprs mon bb) pre)
          (run C (meshInit hal₀ id cfg aprs mon bb) (pre ++ [.recv hal' frame rssiDbm snrQ])) frame) ∧
    ∀ x, (∀ t, x.clock = some t →
        meshRfSilent (run C (meshInit hal₀ id cfg aprs mon bb) xs) t = true) →
      NothingSent (run C (meshInit hal₀ id cfg aprs mon bb) xs).clearEvents
        (step C (run C (meshInit hal₀ id cfg aprs mon bb) xs) x) ∨
      ∃ hal frame rssiDbm snrQ, x = .recv hal frame rssiDbm snrQ ∧
        CompanionHeard C (run C (meshInit hal₀ id cfg aprs mon bb) xs)
          (step C (run C (meshInit hal₀ id cfg aprs mon bb) xs) x) frame := by
  -- whatever part of the run has passed
  have hfor : ∀ {ys : List Input}, (∀ x ∈ ys, x.KeepsHotspot T) →
      HotspotFor T (run C (meshInit hal₀ id cfg aprs mon bb) ys).cfg := fun hys =>
    run_hotspotFor (m := meshInit hal₀ id cfg aprs mon bb) hcfg hys
  -- the node starts with the deadline past
  have hinit : (meshInit hal₀ id cfg aprs mon bb).hsAwakeUntilMs = 0 := rfl
  generalize meshInit hal₀ id cfg aprs mon bb = m₀ at hfor hinit ⊢
  constructor
  · intro hal nowMs raw timeout he
    rcases meshServiceTx_awake C _ he with hin | hawake
    · cases hin
    -- the deadline lies ahead, so some step wrote it
    obtain ⟨hrole, hsecs⟩ := hfor hxs
    have hahead : nowMs < (run C m₀ xs).hsAwakeUntilMs := by
      have hclear : meshRfSilent (run C m₀ xs) nowMs = false := hawake
      simpa [meshRfSilent, hrole, hsecs, hT] using hclear
    have hwritten : (Runs.run (step C) m₀ xs).hsAwakeUntilMs ≠ m₀.hsAwakeUntilMs := by
      rw [hinit]
      exact Nat.ne_zero_of_lt hahead
    obtain ⟨pre, x, post, rfl, hne, hval⟩ := Runs.exists_writer McMesh.hsAwakeUntilMs hwritten
    have hpre : ∀ y ∈ pre, y.KeepsHotspot T := fun y hy => hxs y (List.mem_append_left _ hy)
    rcases x.run_awake C (run C m₀ pre).clearEvents with heq |
      ⟨hal', frame, rssiDbm, snrQ, rfl, hcomp, hdeadline⟩
    · exact absurd heq hne
    refine ⟨pre, hal', frame, rssiDbm, snrQ, post, rfl, ?_, ?_⟩
    · have hsecs' : (run C m₀ pre).clearEvents.cfg.hotspotAwake = T := (hfor hpre).2
      rw [hsecs'] at hdeadline
      have hval' : (run C m₀ (pre ++ .recv hal' frame rssiDbm snrQ :: post)).hsAwakeUntilMs =
          hal'.millis + T.toNat * 1000 := hval.trans hdeadline
      omega
    · have hcat : run C m₀ (pre ++ [.recv hal' frame rssiDbm snrQ]) =
          step C (run C m₀ pre) (.recv hal' frame rssiDbm snrQ) := Runs.run_concat ..
      rw [hcat]
      exact hcomp
  · intro x hs
    rcases x.run_silent C (run C m₀ xs).clearEvents hs with hquiet |
      ⟨hal, frame, rssiDbm, snrQ, hx, hcomp⟩
    · exact .inl hquiet
    · exact .inr ⟨hal, frame, rssiDbm, snrQ, hx, hcomp⟩

/-- The operator of `hillPub` has a hotspot, which has just started. -/
def hillHotspot : McMesh :=
  meshInit (.still 0) farIdentity
    { configDefaults with role := .hotspot, home := [lit "ON6URE*"] } false none true

/-- The companion's own advert, with no hop behind it. -/
def hillFrame : Bytes := 0x11 :: 0 :: (hillAdvert []).payload

/-- Woken at one second, it transmits at two. -/
theorem hotspot_rf_silence_hill :
    ∃ pre hal' frame rssiDbm snrQ post,
      [.recv (.still 1000) hillFrame (-60) 40] = pre ++ .recv hal' frame rssiDbm snrQ :: post ∧
        2000 < hal'.millis + 1000 * (3600 : UInt32).toNat ∧
        CompanionHeard hillCrypto (run hillCrypto hillHotspot pre)
          (run hillCrypto hillHotspot (pre ++ [.recv hal' frame rssiDbm snrQ])) frame := by
  have hcfg : HotspotFor 3600 { configDefaults with role := .hotspot, home := [lit "ON6URE*"] } :=
    ⟨rfl, rfl⟩
  have hxs : ∀ x ∈ [Input.recv (.still 1000) hillFrame (-60) 40], x.KeepsHotspot 3600 := by
    intro x hx
    rw [List.mem_singleton.mp hx]
    trivial
  refine (hotspot_rf_silence hillCrypto (by decide) (.still 0) farIdentity false none true hcfg
    hxs).1 (.still 2000) 2000 (0x11 :: 1 :: 0xA1 :: (hillAdvert []).payload) 1135 ?_
  decide +kernel

end Meshcore
