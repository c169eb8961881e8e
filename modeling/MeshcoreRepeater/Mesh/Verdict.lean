import MeshcoreRepeater.Mesh.OwnTraffic

/-! # What is decided about a packet

Whether a packet goes on to the relay depends on the packet, the configuration and
the source it came from, and on nothing else in the state. `recvVerdict` says what
is decided; `recvFresh_spec` says that this is what `mesh_on_recv` decides, and that
on the way it only did what `Heard` allows.

* `recvAdvert_spec`, `recvPolicy_spec`: the stages.
* `recvFresh_spec`: all of them.
* `Heard.silent`, `Heard.awake`, `Heard.neighbors`: what happened on the way.
-/

namespace Meshcore

open ByteLib

/-! ## Decisions -/

/-- The advertiser's name, when its advert is good and not blocked. -/
def advertVerdict (C : Crypto) (cfg : McConfig) (pkt : McPacket) : Option Bytes :=
  match mcAdvertVerify C pkt with
  | none => none
  | some pub => if advertBlocked cfg pkt pub then none else some (advertTypeName pkt).2

/-- The message is a command the mailbox answers and does not forward. -/
def takenByMbox (cfg : McConfig) (pkt : McPacket) (ch : McPubChannel) (sender body : Bytes) : Bool :=
  let onPing := onPingChannel cfg ch
  !(cfg.pingPong && isPing body) && (probeRequest cfg ch sender body).isNone &&
    !(onPing && cfg.timeofdayEnable && isWord body (lit "time")) &&
    !(onPing && cfg.timeofdayEnable && isWord body (lit "date")) &&
    !(onPing && isWord body (lit "help")) && isMboxCommand cfg pkt ch &&
    (mboxClassify body mcMboxCall).1 != .mention

/-- What becomes of a message on a channel we hold. -/
def publicVerdict (C : Crypto) (cfg : McConfig) (src : MeshSrc) (pkt : McPacket)
    (ch : McPubChannel) : PublicGrp × Bytes :=
  match groupPlain C pkt ch with
  | none => (.forward, [])
  | some plain =>
    let sender := grpSenderName plain mcBlacklistNameLen
    if configIsBlacklisted cfg sender then (.blacklisted, sender)
    else if src = .backbone then (.forward, sender)
    else
      match grpMessageBody plain with
      | none => (.forward, sender)
      | some body => (if takenByMbox cfg pkt ch sender body then .consumed else .forward, sender)

/-- What the content policy decides. -/
def policyVerdict (C : Crypto) (cfg : McConfig) (src : MeshSrc) (pkt : McPacket) :
    Except MeshRx Bytes :=
  match classifyForward C cfg pkt with
  | .okGrpPublic ch =>
    match publicVerdict C cfg src pkt ch with
    | (.blacklisted, _) => .error .policy
    | (.consumed, _) => .error .localOnly
    | (.forward, sender) => .ok sender
  | .okRegion => .ok []
  | .okPublic => .ok []
  | _ => .error .policy

/-- What is decided about a new packet: the advertiser's and the sender's name when
it goes on to the relay, else what is returned. -/
def recvVerdict (C : Crypto) (cfg : McConfig) (src : MeshSrc) (pkt : McPacket) :
    Except MeshRx (Bytes × Bytes) :=
  match (if pktPayloadType pkt = payloadTypeAdvert then advertVerdict C cfg pkt else some []) with
  | none => .error .policy
  | some aname =>
    if pktPayloadType pkt = payloadTypeTrace then .error .localOnly
    else if !cfg.forward then .error .localOnly
    else
      match policyVerdict C cfg src pkt with
      | .error r => .error r
      | .ok sender => .ok (aname, sender)

/-- What the policy refuses is refused, what a service takes is kept. -/
theorem policyVerdict_error {C : Crypto} {cfg : McConfig} {src : MeshSrc} {pkt : McPacket}
    {r : MeshRx} (h : policyVerdict C cfg src pkt = .error r) : r = .policy ∨ r = .localOnly := by
  unfold policyVerdict at h
  split at h
  · split at h <;> cases h
    · exact .inl rfl
    · exact .inr rfl
  · cases h
  · cases h
  · cases h
    exact .inl rfl

/-- A packet that does not go on is refused or kept. -/
theorem recvVerdict_error {C : Crypto} {cfg : McConfig} {src : MeshSrc} {pkt : McPacket}
    {r : MeshRx} (h : recvVerdict C cfg src pkt = .error r) : r = .policy ∨ r = .localOnly := by
  unfold recvVerdict at h
  split at h
  · cases h
    exact .inl rfl
  split at h
  · cases h
    exact .inr rfl
  split at h
  · cases h
    exact .inr rfl
  split at h
  · rename_i hpol
    cases h
    exact policyVerdict_error hpol
  · cases h

/-- A packet that goes on is allowed by the policy. -/
theorem recvVerdict_ok {C : Crypto} {cfg : McConfig} {src : MeshSrc} {pkt : McPacket}
    {aname sender : Bytes} (h : recvVerdict C cfg src pkt = .ok (aname, sender)) :
    cfg.forward = true ∧ pktPayloadType pkt ≠ payloadTypeTrace ∧
      policyVerdict C cfg src pkt = .ok sender ∧
      (pktPayloadType pkt = payloadTypeAdvert → advertVerdict C cfg pkt = some aname) := by
  unfold recvVerdict at h
  split at h
  · cases h
  rename_i hname
  split at h
  · cases h
  rename_i htrace
  split at h
  · cases h
  rename_i hforward
  split at h
  · cases h
  rename_i hpol
  cases h
  refine ⟨by simpa using hforward, htrace, hpol, ?_⟩
  intro hadv
  rwa [if_pos hadv] at hname

/-! ## What happens on the way -/

/-- The packet shows that it is of the companion `who`. -/
inductive Authentic (C : Crypto) (cfg : McConfig) (pkt : McPacket) (who : Bytes) : Prop where
  | advert (pub : Bytes) : mcAdvertVerify C pkt = some pub → advertBlocked cfg pkt pub = false →
      advertTypeName pkt = (advTypeChat, who) → Authentic C cfg pkt who
  | group (ch : McPubChannel) (plain : Bytes) : classifyForward C cfg pkt = .okGrpPublic ch →
      groupPlain C pkt ch = some plain → who = grpSenderName plain mcBlacklistNameLen →
      configIsBlacklisted cfg who = false → Authentic C cfg pkt who

/-- What a call does with the state before the relay: services, and what is learnt
from a packet heard on RF. The neighbour table is written before anything else. -/
inductive Heard (C : Crypto) (hal : Hal) (pkt : McPacket) : Nat → McMesh → McMesh → Prop where
  | refl (k : Nat) (m : McMesh) : Heard C hal pkt k m m
  | services {j k : Nat} {m m' m'' : McMesh} :
      Heard C hal pkt j m m' → Services hal k m' m'' → Heard C hal pkt (j + k) m m''
  | neighbor {k : Nat} {m m' : McMesh} (pub : Bytes) :
      Noted m m' → m.rxSrc = .rf → mcAdvertVerify C pkt = some pub →
      advertBlocked m.cfg pkt pub = false →
      Heard C hal pkt k m (neighborUpdate hal m' pub pkt pkt.rssiDbm pkt.snrQ)
  | learn {k : Nat} {m m' : McMesh} (pub : Bytes) :
      Heard C hal pkt k m m' → m'.rxSrc = .rf → mcAdvertVerify C pkt = some pub →
      Heard C hal pkt k m (learnAffinity m' pub)
  | wake {k : Nat} {m m' : McMesh} (who : Bytes) :
      Heard C hal pkt k m m' → wakesHotspot m' pkt who = true → Authentic C m'.cfg pkt who →
      Heard C hal pkt k m (m'.wakeUntil hal.millis who)

section
variable {C : Crypto} {hal : Hal} {pkt : McPacket}

/-- A note behind it. -/
theorem Heard.note {k : Nat} {m m' m'' : McMesh} (h : Heard C hal pkt k m m') (hn : Noted m' m'') :
    Heard C hal pkt k m m'' :=
  h.services (k := 0) (.of_noted hn)

/-- Notes alone. -/
theorem Heard.of_noted {k : Nat} {m m' : McMesh} (hn : Noted m m') : Heard C hal pkt k m m' :=
  (Heard.refl k m).note hn

/-- More packets may have been sent. -/
theorem Heard.mono {j k : Nat} {m m' : McMesh} (h : Heard C hal pkt j m m') (hle : j ≤ k) :
    Heard C hal pkt k m m' := by
  have h' := h.services (Services.refl (k - j) m')
  rwa [Nat.add_sub_cancel' hle] at h'

/-- Only the table changes. -/
theorem neighborUpdate_eq (hal : Hal) (pkt : McPacket) (m : McMesh) (pub : Bytes) (rssi snrQ : Int) :
    ∃ t, neighborUpdate hal m pub pkt rssi snrQ = { m with neighbors := t } := by
  unfold neighborUpdate
  split
  · exact ⟨_, rfl⟩
  · exact ⟨_, rfl⟩

/-- Only the learned hashes change. -/
theorem learnAffinity_eq (m : McMesh) (pub : Bytes) :
    ∃ t, learnAffinity m pub = { m with affinityHash := t } := by
  unfold learnAffinity
  simp only
  split
  · exact ⟨_, rfl⟩
  split
  · exact ⟨_, rfl⟩
  · exact ⟨_, rfl⟩

namespace Heard

variable {k : Nat} {m m' : McMesh}

/-- Configuration, identity, source and attachments stay as they are. -/
theorem same (h : Heard C hal pkt k m m') :
    m'.cfg = m.cfg ∧ m'.id = m.id ∧ m'.rxSrc = m.rxSrc ∧ m'.mon = m.mon := by
  induction h with
  | refl => exact ⟨rfl, rfl, rfl, rfl⟩
  | services _ hs ih =>
    obtain ⟨hcfg, hid, hsrc, hmon⟩ := ih
    exact ⟨hs.cfg.trans hcfg, hs.id.trans hid, hs.rxSrc.trans hsrc,
      (congrArg MeshFixed.mon hs.fixed).trans hmon⟩
  | @neighbor _ _ m₂ pub hn _ _ _ =>
    obtain ⟨t, ht⟩ := neighborUpdate_eq hal pkt m₂ pub pkt.rssiDbm pkt.snrQ
    rw [ht]
    exact ⟨hn.cfg, congrArg MeshFixed.id hn.fixed, hn.rxSrc, congrArg MeshFixed.mon hn.fixed⟩
  | @learn _ _ m₂ pub _ _ _ ih =>
    obtain ⟨t, ht⟩ := learnAffinity_eq m₂ pub
    rw [ht]
    exact ih
  | wake _ _ _ _ ih => exact ih

/-- Each of them by itself. -/
theorem cfg (h : Heard C hal pkt k m m') : m'.cfg = m.cfg := h.same.1

theorem id (h : Heard C hal pkt k m m') : m'.id = m.id := h.same.2.1

theorem rxSrc (h : Heard C hal pkt k m m') : m'.rxSrc = m.rxSrc := h.same.2.2.1

theorem mon (h : Heard C hal pkt k m m') : m'.mon = m.mon := h.same.2.2.2

/-- No relay is dropped before the relay. -/
theorem drops (h : Heard C hal pkt k m m') : m'.stats.fwdDropped = m.stats.fwdDropped := by
  induction h with
  | refl => rfl
  | services _ hs ih => exact hs.drops.trans ih
  | @neighbor _ _ m₂ pub hn _ _ _ =>
    obtain ⟨t, ht⟩ := neighborUpdate_eq hal pkt m₂ pub pkt.rssiDbm pkt.snrQ
    rw [ht]
    exact hn.drops
  | @learn _ _ m₂ pub _ _ _ ih =>
    obtain ⟨t, ht⟩ := learnAffinity_eq m₂ pub
    rw [ht]
    exact ih
  | wake _ _ _ _ ih => exact ih

/-- Up to `k` hashes are pushed, those of the packets sent. -/
theorem ringLog (h : Heard C hal pkt k m m') : RingLog k m m' := by
  induction h with
  | refl => exact .of_eq rfl rfl
  | services _ hs ih => exact ih.trans hs.ringLog
  | @neighbor _ _ m₂ pub hn _ _ _ =>
    obtain ⟨t, ht⟩ := neighborUpdate_eq hal pkt m₂ pub pkt.rssiDbm pkt.snrQ
    rw [ht]
    exact .of_eq hn.seen hn.recorded
  | @learn _ _ m₂ pub _ _ _ ih =>
    obtain ⟨t, ht⟩ := learnAffinity_eq m₂ pub
    rw [ht]
    exact ih
  | wake _ _ _ _ ih => exact ih

/-- The only change to the queue: own entries in free slots. -/
theorem txq (h : Heard C hal pkt k m m') (i : Fin meshTxqSize) :
    m'.txq i = m.txq i ∨
      ((m.txq i).used = false ∧ (m'.txq i).used = true ∧ (m'.txq i).own = true) := by
  induction h with
  | refl => exact .inl rfl
  | services _ hs ih =>
    rcases hs.txq i with heq | ⟨hfree, hused, hown⟩
    · rwa [heq]
    · rcases ih with heq | ⟨-, hused', -⟩
      · exact .inr ⟨heq ▸ hfree, hused, hown⟩
      · rw [hfree] at hused'
        cases hused'
  | @neighbor _ _ m₂ pub hn _ _ _ =>
    obtain ⟨t, ht⟩ := neighborUpdate_eq hal pkt m₂ pub pkt.rssiDbm pkt.snrQ
    rw [ht]
    exact .inl (congrFun hn.txq i)
  | @learn _ _ m₂ pub _ _ _ ih =>
    obtain ⟨t, ht⟩ := learnAffinity_eq m₂ pub
    rw [ht]
    exact ih
  | wake _ _ _ _ ih => exact ih

/-- Whatever is offered is the node's own, and offered on RF traffic only. -/
theorem offers (h : Heard C hal pkt k m m') {raw : Bytes} {own : Bool}
    (he : Event.offer raw own ∈ m'.events) :
    Event.offer raw own ∈ m.events ∨ (own = true ∧ m.rxSrc ≠ .backbone) := by
  induction h with
  | refl => exact .inl he
  | services hh hs ih =>
    rcases hs.offers he with hin | ⟨hown, hsrc⟩
    · exact ih hin
    · exact .inr ⟨hown, by rwa [← hh.rxSrc]⟩
  | @neighbor _ _ m₂ pub hn _ _ _ =>
    obtain ⟨t, ht⟩ := neighborUpdate_eq hal pkt m₂ pub pkt.rssiDbm pkt.snrQ
    rw [ht] at he
    rcases hn.reports _ he with hin | hrep
    · exact .inl hin
    · cases hrep
  | @learn _ _ m₂ pub _ _ _ ih =>
    obtain ⟨t, ht⟩ := learnAffinity_eq m₂ pub
    rw [ht] at he
    exact ih he
  | wake _ _ _ _ ih => exact ih he

/-- At most `k` slots are taken. -/
theorem meshTxqFree_le (h : Heard C hal pkt k m m') : meshTxqFree m ≤ meshTxqFree m' + k := by
  induction h with
  | refl => omega
  | services _ hs ih =>
    have hle := hs.meshTxqFree_le
    omega
  | @neighbor _ _ m₂ pub hn _ _ _ =>
    obtain ⟨t, ht⟩ := neighborUpdate_eq hal pkt m₂ pub pkt.rssiDbm pkt.snrQ
    have hfree : meshTxqFree m₂ = _ := meshTxqFree_congr hn.txq
    rw [ht, ← hfree]
    exact Nat.le_add_right _ _
  | @learn _ _ m₂ pub _ _ _ ih =>
    obtain ⟨t, ht⟩ := learnAffinity_eq m₂ pub
    rw [ht]
    exact ih
  | wake _ _ _ _ ih => exact ih

end Heard

/-! ## Waking and silence -/

/-- A woken hotspot is not silent at that instant. -/
theorem meshRfSilent_wakeUntil {m : McMesh} {who : Bytes} (h : wakesHotspot m pkt who = true)
    (now : Nat) : meshRfSilent (m.wakeUntil now who) now = false := by
  have hawake : m.cfg.hotspotAwake.toNat ≠ 0 := by
    simp only [wakesHotspot, Bool.and_eq_true, bne_iff_ne, ne_eq] at h
    intro hz
    exact h.1.1.1.2 (UInt32.toNat_inj.mp (by simpa using hz))
  have hlt : ¬ now + m.cfg.hotspotAwake.toNat * 1000 ≤ now := by omega
  simp [meshRfSilent, McMesh.wakeUntil, hlt]

/-- A node still silent was silent throughout, and queued and offered nothing. -/
theorem Heard.silent {k : Nat} {m m' : McMesh} (h : Heard C hal pkt k m m')
    (hs : meshRfSilent m' hal.millis = true) :
    meshRfSilent m hal.millis = true ∧ m'.txq = m.txq ∧
      ∀ raw own, Event.offer raw own ∈ m'.events → Event.offer raw own ∈ m.events := by
  induction h with
  | refl => exact ⟨hs, rfl, fun _ _ he => he⟩
  | @services _ _ _ m₂ _ _ hserv ih =>
    have hs₂ : meshRfSilent m₂ hal.millis = true := by rwa [← meshRfSilent_congr hserv.fixed]
    obtain ⟨hsil, htxq, hoff⟩ := ih hs₂
    obtain ⟨htxq', hoff'⟩ := hserv.silent hs₂
    exact ⟨hsil, htxq'.trans htxq, fun raw own he => hoff raw own (hoff' raw own he)⟩
  | @neighbor _ _ m₂ pub hn _ _ _ =>
    obtain ⟨t, ht⟩ := neighborUpdate_eq hal pkt m₂ pub pkt.rssiDbm pkt.snrQ
    rw [ht] at hs ⊢
    refine ⟨by rwa [← meshRfSilent_congr hn.fixed], hn.txq, ?_⟩
    intro raw own he
    rcases hn.reports _ he with hin | hrep
    · exact hin
    · cases hrep
  | @learn _ _ m₂ pub _ _ _ ih =>
    obtain ⟨t, ht⟩ := learnAffinity_eq m₂ pub
    rw [ht] at hs ⊢
    exact ih hs
  | wake who _ hw _ _ =>
    rw [meshRfSilent_wakeUntil hw] at hs
    cases hs

/-- The awake deadline moves only for a companion the packet is shown to be of. -/
theorem Heard.awake {k : Nat} {m m' : McMesh} (h : Heard C hal pkt k m m') :
    m'.hsAwakeUntilMs = m.hsAwakeUntilMs ∨
      ∃ who, wakesHotspot m' pkt who = true ∧ Authentic C m.cfg pkt who ∧
        m'.hsAwakeUntilMs = hal.millis + m.cfg.hotspotAwake.toNat * 1000 := by
  induction h with
  | refl => exact .inl rfl
  | @services _ _ _ m₂ m₃ hh hserv ih =>
    have hawake : m₃.hsAwakeUntilMs = m₂.hsAwakeUntilMs :=
      congrArg MeshFixed.hsAwakeUntilMs hserv.fixed
    rcases ih with heq | ⟨who, hw, hauth, hval⟩
    · exact .inl (hawake.trans heq)
    · refine .inr ⟨who, ?_, hauth, hawake.trans hval⟩
      simpa only [wakesHotspot, isCompanionName, hserv.cfg, hserv.rxSrc, hserv.neighbors] using hw
  | @neighbor _ _ m₂ pub hn _ _ _ =>
    obtain ⟨t, ht⟩ := neighborUpdate_eq hal pkt m₂ pub pkt.rssiDbm pkt.snrQ
    rw [ht]
    exact .inl (congrArg MeshFixed.hsAwakeUntilMs hn.fixed)
  | @learn _ _ m₂ pub _ _ _ ih =>
    obtain ⟨t, ht⟩ := learnAffinity_eq m₂ pub
    rw [ht]
    exact ih
  | @wake _ _ m₂ who hh hw hauth _ =>
    refine .inr ⟨who, hw, ?_, ?_⟩
    · rwa [← hh.cfg]
    · rw [← hh.cfg]
      rfl

/-- The neighbour table changes for a good advert heard on RF only. -/
theorem Heard.neighbors {k : Nat} {m m' : McMesh} (h : Heard C hal pkt k m m') :
    m'.neighbors = m.neighbors ∨
      ∃ pub, m.rxSrc = .rf ∧ mcAdvertVerify C pkt = some pub ∧
        advertBlocked m.cfg pkt pub = false ∧
        m'.neighbors = (neighborUpdate hal m pub pkt pkt.rssiDbm pkt.snrQ).neighbors := by
  induction h with
  | refl => exact .inl rfl
  | services _ hs ih =>
    rw [hs.neighbors]
    exact ih
  | @neighbor _ m₁ m₂ pub hn hsrc hsig hblocked =>
    refine .inr ⟨pub, hsrc, hsig, hblocked, ?_⟩
    have htab : m₂.neighbors = m₁.neighbors := congrArg MeshFixed.neighbors hn.fixed
    unfold neighborUpdate
    rw [htab]
    split <;> rfl
  | @learn _ _ m₂ pub _ _ _ ih =>
    obtain ⟨t, ht⟩ := learnAffinity_eq m₂ pub
    rw [ht]
    exact ih
  | wake _ _ _ _ ih => exact ih

end

/-! ## The stages -/

section
variable (C : Crypto) (hal : Hal) (m : McMesh) (pkt : McPacket)

/-- Waking may send the self-advert. -/
def wakeBudget (cfg : McConfig) : Nat := if cfg.role = .hotspot then 1 else 0

/-- Waking up, if the packet shows that it is of a companion. -/
theorem Heard.hotspotWake {C : Crypto} {hal : Hal} {pkt : McPacket} {k : Nat} {m₀ m : McMesh}
    {who : Bytes} (h : Heard C hal pkt k m₀ m) (hauth : Authentic C m.cfg pkt who) :
    Heard C hal pkt (k + wakeBudget m.cfg) m₀ (Meshcore.hotspotWake C hal m pkt who) := by
  unfold Meshcore.hotspotWake
  split
  · rename_i hw
    have hrole : wakeBudget m.cfg = 1 := by
      simp only [wakesHotspot, Bool.and_eq_true, beq_iff_eq] at hw
      simp [wakeBudget, hw.1.1.1.1]
    have hwoken := h.wake who hw hauth
    rw [hrole]
    simp only
    split
    · -- from silence: identify, and tell the hub
      have hlog : Noted (m.wakeUntil hal.millis who)
          { m.wakeUntil hal.millis who with hsSilent := false } := .of_eq rfl rfl rfl rfl rfl
      have hadv := (hwoken.note hlog).services (meshSendAdvert_services C hal _)
      split
      · exact hadv.note (.emit _ trivial)
      · exact hadv
    · exact hwoken.mono (by omega)
  · exact h.mono (by omega)

/-- The hub wakes nobody. -/
theorem hotspotWake_of_backbone {who : Bytes} (h : m.rxSrc = .backbone) :
    hotspotWake C hal m pkt who = m := by
  have hw : wakesHotspot m pkt who = false := by simp [wakesHotspot, h]
  simp [hotspotWake, hw]

/-- Waking moves the deadline, and nothing else that is fixed. -/
theorem hotspotWake_fixed (who : Bytes) :
    ∃ t, (hotspotWake C hal m pkt who).fixed = { m.fixed with hsAwakeUntilMs := t } := by
  unfold hotspotWake
  split
  · refine ⟨(m.wakeUntil hal.millis who).hsAwakeUntilMs, ?_⟩
    simp only
    split
    · have hadv : (meshSendAdvert C hal
          { m.wakeUntil hal.millis who with hsSilent := false }).1.fixed = _ :=
        (meshSendAdvert_services C hal _).fixed
      split
      · exact hadv
      · exact hadv
    · rfl
  · exact ⟨m.hsAwakeUntilMs, rfl⟩

/-- Waking up leaves the source. -/
theorem hotspotWake_rxSrc (who : Bytes) : (hotspotWake C hal m pkt who).rxSrc = m.rxSrc := by
  rcases hotspotWake_fixed C hal m pkt who with ⟨t, ht⟩
  exact congrArg MeshFixed.rxSrc ht

/-- Whether the packet came over the air. -/
theorem heardOnRf_iff : m.heardOnRf = true ↔ m.rxSrc = .rf := by simp [McMesh.heardOnRf]

/-- A good advert on RF: table, affinity, waking. -/
theorem advertHeard_heard {pub : Bytes} {atype : UInt8} {aname : Bytes} (hsrc : m.rxSrc = .rf)
    (hsig : mcAdvertVerify C pkt = some pub) (hblocked : advertBlocked m.cfg pkt pub = false)
    (hname : advertTypeName pkt = (atype, aname)) :
    Heard C hal pkt (wakeBudget m.cfg) m (advertHeard C hal m pkt pub atype aname) := by
  have hnb : Heard C hal pkt 0 m (neighborUpdate hal
      (m.bump fun s => { s with rxAdvert := s.rxAdvert + 1 }) pub pkt pkt.rssiDbm pkt.snrQ) :=
    .neighbor pub (.bump m fun _ => rfl) hsrc hsig hblocked
  -- a companion wakes the hotspot; anything else is only entered
  have hwake : ∀ {m₁}, Heard C hal pkt 0 m m₁ →
      Heard C hal pkt (wakeBudget m.cfg) m
        (if atype = advTypeChat then hotspotWake C hal m₁ pkt aname else m₁) := by
    intro m₁ h₁
    split
    · rename_i hchat
      have hauth : Authentic C m₁.cfg pkt aname :=
        .advert pub hsig (by rwa [h₁.cfg]) (by rw [hname, hchat])
      have h := h₁.hotspotWake hauth
      rwa [h₁.cfg, Nat.zero_add] at h
    · exact h₁.mono (by omega)
  unfold advertHeard
  simp only
  refine hwake ?_
  split
  · exact hnb.learn pub (by rw [hnb.rxSrc, hsrc]) hsig
  · exact hnb

/-- Reporting an advert is a note. -/
theorem advertReported_noted (pub : Bytes) (atype : UInt8) (aname : Bytes) :
    Noted m (advertReported hal m pkt pub atype aname) := by
  have hmon : Noted m (m.monitor (.monAdvert aname atype (mcAdvertExtractLocation pkt)
    pkt.rssiDbm pkt.snrQ)) := .monitor m trivial
  unfold advertReported
  simp only
  split
  · rename_i l _
    have hgate := Noted.emit (m.monitor (.monAdvert aname atype (mcAdvertExtractLocation pkt)
      pkt.rssiDbm pkt.snrQ)) (e := .gateNode hal.millis aname atype l pub) trivial
    split
    · exact hmon.trans hgate
    · exact hmon
  · exact hmon

/-- The ADVERT stage. -/
theorem recvAdvert_spec :
    Heard C hal pkt (wakeBudget m.cfg) m (recvAdvert C hal m pkt).1 ∧
      (recvAdvert C hal m pkt).2 = advertVerdict C m.cfg pkt := by
  unfold recvAdvert advertVerdict
  cases hsig : mcAdvertVerify C pkt with
  | none => exact ⟨.of_noted (.bumpIfDrop m _ pkt _ fun _ => rfl), rfl⟩
  | some pub =>
    simp only
    split
    · exact ⟨.of_noted (.bumpDrop m pkt _ fun _ => rfl), rfl⟩
    · rename_i hblocked
      have hheard : Heard C hal pkt (wakeBudget m.cfg) m
          (if m.heardOnRf then
            advertHeard C hal m pkt pub (advertTypeName pkt).1 (advertTypeName pkt).2 else m) := by
        split
        · rename_i hrf
          exact advertHeard_heard C hal m pkt ((heardOnRf_iff m).mp hrf) hsig (by simpa using hblocked) rfl
        · exact .refl _ m
      exact ⟨hheard.note (advertReported_noted hal _ pkt pub _ _), rfl⟩

/-- The mailbox forwards a mention, and answers what else is for it. -/
theorem mboxHandle_snd (ch : McPubChannel) (sender body : Bytes) :
    (mboxHandle C hal m pkt ch sender body).2 =
      ((mboxClassify body mcMboxCall).1 == .mention) := by
  unfold mboxHandle
  split
  · rename_i heq
    simp [heq]
  · rename_i cmd _ _ hne heq
    have hcmd : (cmd == MboxCmd.mention) = false := by simpa using hne
    rw [heq]
    split
    · exact hcmd.symm
    · simp only
      split <;> exact hcmd.symm

/-- Only the mailbox keeps a message from being forwarded. -/
theorem localServices_snd (ch : McPubChannel) (sender body : Bytes) :
    (localServices C hal m pkt ch sender body).2 = !takenByMbox m.cfg pkt ch sender body := by
  unfold localServices takenByMbox
  simp only
  split
  · rename_i h
    simp [h]
  -- each service in turn: if it takes the message, those behind it are not asked
  rename_i hping
  split
  · rename_i h
    simp [h]
  rename_i hprobe
  split
  · rename_i h
    simp [h]
  rename_i htime
  split
  · rename_i h
    simp [h]
  rename_i hdate
  split
  · rename_i h
    split <;> simp [h]
  rename_i hhelp
  split
  · rename_i hmbox
    rw [mboxHandle_snd]
    simp only [Bool.not_eq_true] at hping htime hdate hhelp
    rw [hping, hprobe, htime, hdate, hhelp, hmbox]
    simp [bne]
  · rename_i hmbox
    simp [hmbox]

/-- Messages on a channel we hold. -/
theorem processPublicGrp_spec {k : Nat} {m₀ : McMesh} {ch : McPubChannel}
    (h : Heard C hal pkt k m₀ m) (hclass : classifyForward C m.cfg pkt = .okGrpPublic ch) :
    Heard C hal pkt (k + wakeBudget m.cfg + 1) m₀ (processPublicGrp C hal m pkt ch).1 ∧
      (processPublicGrp C hal m pkt ch).2 = publicVerdict C m.cfg m.rxSrc pkt ch := by
  unfold processPublicGrp publicVerdict
  cases hplain : groupPlain C pkt ch with
  | none => exact ⟨h.mono (by omega), rfl⟩
  | some plain => ?_
  simp only
  split
  · have h' : Heard C hal pkt (k + wakeBudget m.cfg + 1) m₀ m := h.mono (by omega)
    exact ⟨h'.note (.bumpDrop m pkt _ fun _ => rfl), rfl⟩
  rename_i hblack
  have hwake := h.hotspotWake (.group ch plain hclass hplain rfl (by simpa using hblack))
  have hmon := hwake.note (.monitor _ (e := .monPublic ch.name (grpText plain) pkt.rssiDbm pkt.snrQ)
    trivial)
  have hsrc := hmon.rxSrc.trans h.rxSrc.symm
  have hcfg := hmon.cfg.trans h.cfg.symm
  rw [hsrc]
  split
  · exact ⟨hmon.mono (by omega), rfl⟩
  cases hbody : grpMessageBody plain with
  | none => exact ⟨hmon.mono (by omega), rfl⟩
  | some body => ?_
  simp only
  have hserv := hmon.services (localServices_services C hal _ pkt ch
    (grpSenderName plain mcBlacklistNameLen) body)
  have hsnd := localServices_snd C hal (McMesh.monitor (hotspotWake C hal m pkt
    (grpSenderName plain mcBlacklistNameLen))
    (.monPublic ch.name (grpText plain) pkt.rssiDbm pkt.snrQ)) pkt ch
    (grpSenderName plain mcBlacklistNameLen) body
  rw [hcfg] at hsnd
  split <;> rename_i heq <;> rw [heq] at hserv hsnd
  · have hno : takenByMbox m.cfg pkt ch (grpSenderName plain mcBlacklistNameLen) body = false := by
      simpa using hsnd.symm
    exact ⟨hserv, by simp [hno]⟩
  · have hyes : takenByMbox m.cfg pkt ch (grpSenderName plain mcBlacklistNameLen) body = true := by
      simpa using hsnd.symm
    exact ⟨hserv, by simp [hyes]⟩

theorem deniedStats_drops (d : FwdDecision) (s : MeshStats) :
    (deniedStats d s).fwdDropped = s.fwdDropped := by
  cases d <;> rfl

/-- The content policy. -/
theorem recvPolicy_spec {k : Nat} {m₀ : McMesh} (h : Heard C hal pkt k m₀ m) :
    Heard C hal pkt (k + wakeBudget m.cfg + 1) m₀ (recvPolicy C hal m pkt).1 ∧
      (recvPolicy C hal m pkt).2 = policyVerdict C m.cfg m.rxSrc pkt := by
  unfold recvPolicy policyVerdict
  cases hclass : classifyForward C m.cfg pkt with
  | okGrpPublic ch =>
    obtain ⟨hheard, hverdict⟩ := processPublicGrp_spec C hal m pkt h hclass
    simp only
    rw [← hverdict]
    split <;> rename_i heq <;> rw [heq] at hheard ⊢
    · exact ⟨hheard, rfl⟩
    · exact ⟨hheard, rfl⟩
    · exact ⟨hheard.note (.of_eq rfl rfl rfl rfl rfl), rfl⟩
  | okRegion =>
    have hbump := h.note (.bump m (f := fun s => { s with fwdRegion := s.fwdRegion + 1 }) fun _ => rfl)
    simp only
    split
    · rename_i room _
      have hmon := hbump.note (.monitor _ (e := .monRegion room.name (pktPayloadType pkt)
        pkt.payload.length pkt.rssiDbm pkt.snrQ) trivial)
      exact ⟨hmon.mono (by omega), rfl⟩
    · exact ⟨hbump.mono (by omega), rfl⟩
  | okPublic => exact ⟨h.mono (by omega), rfl⟩
  | dropDm | dropGrpUnmatched | dropGrpMacfail | dropOther =>
    have h' : Heard C hal pkt (k + wakeBudget m.cfg + 1) m₀ m := h.mono (by omega)
    exact ⟨h'.note (.bumpDrop m pkt _ (deniedStats_drops _)), rfl⟩

/-- The packets of its own a node sends for one received frame, at most. -/
def recvBudget (cfg : McConfig) : Nat := 2 * wakeBudget cfg + 1

/-- A new packet is decided on as `recvVerdict` says. -/
theorem recvFresh_spec :
    ∃ m', Heard C hal pkt (recvBudget m.cfg) m m' ∧
      recvFresh C hal m pkt = match recvVerdict C m.cfg m.rxSrc pkt with
        | .error r => (m', r)
        | .ok (aname, sender) => recvRelay hal m' pkt aname sender := by
  have hadvert : ∀ r, r = (if pktPayloadType pkt = payloadTypeAdvert then recvAdvert C hal m pkt
        else (m, some [])) →
      Heard C hal pkt (wakeBudget m.cfg) m r.1 ∧
        r.2 = (if pktPayloadType pkt = payloadTypeAdvert then advertVerdict C m.cfg pkt
          else some []) := by
    rintro r rfl
    split
    · exact recvAdvert_spec C hal m pkt
    · exact ⟨.refl _ m, rfl⟩
  unfold recvFresh recvVerdict
  simp only
  split
  · rename_i m₁ heq
    obtain ⟨hheard, hverdict⟩ := hadvert _ heq.symm
    exact ⟨m₁, hheard.mono (by simp [recvBudget]; omega), by rw [← hverdict]⟩
  rename_i m₁ aname heq
  obtain ⟨hheard, hverdict⟩ := hadvert _ heq.symm
  rw [← hverdict]
  simp only
  split
  · -- a trace is only counted
    have htrace : Noted m₁ (monPktDrop (m₁.bumpIf m₁.heardOnRf fun s =>
        { s with traceSeen := s.traceSeen + 1 }) pkt "trace (not forwarded yet)") :=
      .bumpIfDrop m₁ _ pkt _ fun _ => rfl
    exact ⟨_, (hheard.note htrace).mono (by simp [recvBudget]; omega), rfl⟩
  have hcfg : m₁.cfg = m.cfg := hheard.cfg
  rw [hcfg]
  split
  · exact ⟨m₁, hheard.mono (by simp [recvBudget]; omega), rfl⟩
  obtain ⟨hpol, hpolv⟩ := recvPolicy_spec C hal m₁ pkt hheard
  have hbudget : wakeBudget m.cfg + wakeBudget m₁.cfg + 1 = recvBudget m.cfg := by
    rw [hcfg, recvBudget]
    omega
  have hsrc : m₁.rxSrc = m.rxSrc := hheard.rxSrc
  rw [hbudget] at hpol
  rw [hcfg, hsrc] at hpolv
  rw [← hpolv]
  split <;> rename_i heq' <;> rw [heq'] at hpol ⊢
  · exact ⟨_, hpol, rfl⟩
  · exact ⟨_, hpol, rfl⟩

end

end Meshcore
