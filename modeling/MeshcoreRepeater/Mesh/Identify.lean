import MeshcoreRepeater.Mesh.TxQueue

/-! # Identifying first

The frame that wakes a hotspot makes it queue its self-advert, before anything else the frame
leads to. Whether the advert is the first packet on the air is decided by the draws and by the
times at which `mesh_service_tx` is called.

Main results:
* `step_advert`: the frame leaves the advert in the first free slot, due after its jitter;
* `Unbeaten.first`: the advert goes first where no other entry beats it at a call;
* `identifiesFirst_of_unbeaten`: so does every hotspot, in a run where nothing ever does;
* `silentHotspot_not_identifiesFirst`: a run in which the relay of the waking frame goes first.
-/

namespace Meshcore

set_option maxRecDepth 8000

open ByteLib

/-! ## The claim -/

/-- A received frame ends the silence. -/
def EndsSilence (C : Crypto) (m : McMesh) (x : Input) : Prop :=
  ∃ entry hal raw, x = Entry.input entry hal raw ∧ meshRfSilent m hal.millis = true ∧
    meshRfSilent (step C m x) hal.millis = false

/-- No step hands a packet to the radio. -/
def NothingHanded (C : Crypto) (m : McMesh) (xs : List Input) : Prop :=
  Runs.Every (step C) (fun m x => ∀ raw timeout, Event.transmit raw timeout ∉ (step C m x).events) m xs

/-- Whenever a frame has ended the silence, the first packet `mesh_service_tx` hands to
the radio is the node's own advert. -/
def IdentifiesFirst (C : Crypto) (m : McMesh) (xs : List Input) : Prop :=
  ∀ pre x mid hal now post raw timeout, xs = pre ++ x :: mid ++ .serviceTx hal now :: post →
    EndsSilence C (run C m pre) x → NothingHanded C (run C m (pre ++ [x])) mid →
    Event.transmit raw timeout ∈ (step C (run C m (pre ++ x :: mid)) (.serviceTx hal now)).events →
    ∃ pkt, pktParse raw = .ok pkt ∧ SelfAdvert m.id pkt

/-! ## The waking frame -/

/-- Where the state `m` has a free slot and can build its advert, the first free slot holds it. -/
def AdvertIn (C : Crypto) (hal : Hal) (m : McMesh) (txq : Fin meshTxqSize → MeshTxEntry) : Prop :=
  ∀ i adv, freeSlot m.txq = some i → mcAdvertBuild C m.id (ownAdvertInfo m) hal.time32 = some adv →
    txq i = ⟨true, adv, advertDue hal, 0, ownTxPower m, true⟩

/-- What a part of a call does to a silent node: nothing is queued while it is silent, and once
it is awake its advert has been queued before all else. -/
structure Rouses (C : Crypto) (hal : Hal) (m m' : McMesh) : Prop where
  cfg : m'.cfg = m.cfg
  id : m'.id = m.id
  loads : Loads m m'
  still : meshRfSilent m' hal.millis = true → meshRfSilent m hal.millis = true ∧ m'.txq = m.txq
  advert : meshRfSilent m hal.millis = true → meshRfSilent m' hal.millis = false → AdvertIn C hal m m'.txq

namespace Rouses

variable {C : Crypto} {hal : Hal} {m m' m'' : McMesh}

/-- The deadline stays, and a silent node queues nothing. -/
theorem of_same (hcfg : m'.cfg = m.cfg) (hid : m'.id = m.id) (hawake : m'.hsAwakeUntilMs = m.hsAwakeUntilMs)
    (hloads : Loads m m') (hquiet : meshRfSilent m hal.millis = true → m'.txq = m.txq) : Rouses C hal m m' where
  cfg := hcfg
  id := hid
  loads := hloads
  still := by
    rw [meshRfSilent_eq hcfg hawake]
    exact fun hs => ⟨hs, hquiet hs⟩
  advert := by
    intro hs hloud
    rw [meshRfSilent_eq hcfg hawake, hs] at hloud
    cases hloud

/-- Counters and notes. -/
theorem of_noted (h : Noted m m') (hloads : Loads m m') : Rouses C hal m m' :=
  of_same h.cfg (congrArg MeshFixed.id h.fixed) (congrArg MeshFixed.hsAwakeUntilMs h.fixed) hloads fun _ => h.txq

/-- The services do not wake a node, and do not answer while it is silent. -/
theorem of_services {k : Nat} (h : Services hal k m m') (hloads : Loads m m') : Rouses C hal m m' :=
  of_same h.cfg h.id (congrArg MeshFixed.hsAwakeUntilMs h.fixed) hloads fun hs => (h.silent hs).1

/-- Doing nothing. -/
theorem refl (m : McMesh) : Rouses C hal m m := of_noted (.refl m) (.refl m)

/-- One part behind another. -/
theorem trans (h : Rouses C hal m m') (h' : Rouses C hal m' m'') : Rouses C hal m m'' where
  cfg := h'.cfg.trans h.cfg
  id := h'.id.trans h.id
  loads := h.loads.trans h'.loads
  still := by
    intro hs
    rcases h'.still hs with ⟨hs', htxq'⟩
    rcases h.still hs' with ⟨hs₀, htxq⟩
    exact ⟨hs₀, htxq'.trans htxq⟩
  advert := by
    intro hs hloud i adv hslot hbuild
    cases hmid : meshRfSilent m' hal.millis with
    | true =>
      -- still silent in between: the advert is queued by the second part
      have hinfo : ownAdvertInfo m' = ownAdvertInfo m := by rw [ownAdvertInfo, ownAdvertInfo, h.cfg]
      have hpower : ownTxPower m' = ownTxPower m := by rw [ownTxPower, ownTxPower, h.cfg]
      have hin := h'.advert hmid hloud i adv
      rw [(h.still hmid).2, h.id, hinfo, hpower] at hin
      exact hin hslot hbuild
    | false =>
      have hin := h.advert hs hmid i adv hslot hbuild
      rcases h'.loads.slots i with hsame | ⟨hfree, -⟩
      · rw [hsame, hin]
      · rw [hin] at hfree
        cases hfree

end Rouses

section
variable (C : Crypto) (hal : Hal) (m : McMesh)

/-- Waking up is the part that queues the advert. -/
theorem hotspotWake_rouses (pkt : McPacket) (who : Bytes) : Rouses C hal m (hotspotWake C hal m pkt who) := by
  have hloads := hotspotWake_loads C hal m pkt who
  cases hwakes : wakesHotspot m pkt who with
  | false =>
    have hsame : hotspotWake C hal m pkt who = m := by simp [hotspotWake, hwakes]
    rw [hsame]
    exact .refl m
  | true =>
    -- the deadline is set before the advert is built
    have hfixed : (hotspotWake C hal m pkt who).fixed = (m.wakeUntil hal.millis who).fixed := by
      unfold hotspotWake
      rw [if_pos hwakes]
      simp only
      split
      · have hadv := (meshSendAdvert_services C hal { m.wakeUntil hal.millis who with hsSilent := false }).fixed
        split
        · exact hadv
        · exact hadv
      · rfl
    have hloud : meshRfSilent (hotspotWake C hal m pkt who) hal.millis = false := by
      rw [meshRfSilent_congr hfixed]
      exact meshRfSilent_wakeUntil hwakes hal.millis
    refine ⟨congrArg MeshFixed.cfg hfixed, congrArg MeshFixed.id hfixed, hloads, ?_, ?_⟩
    · intro hs
      rw [hloud] at hs
      cases hs
    · intro hs _ i adv hslot hbuild
      rw [hotspotWake_txq hwakes hs hbuild hslot, Function.update_self]

/-- A channel message wakes the node before any service may answer. -/
theorem processPublicGrp_rouses {pkt : McPacket} (hpkt : pkt.WellFormed) (ch : McPubChannel) :
    Rouses C hal m (processPublicGrp C hal m pkt ch).1 := by
  unfold processPublicGrp
  split
  · exact .refl m
  rename_i plain _
  simp only
  split
  · exact .of_noted (.bumpDrop m pkt _ fun _ => rfl) (.bumpDrop m _ pkt _)
  -- from here the node is awake if the sender is one it wakes for
  have hwake := hotspotWake_rouses C hal m pkt (grpSenderName plain mcBlacklistNameLen)
  generalize hotspotWake C hal m pkt (grpSenderName plain mcBlacklistNameLen) = m₁ at hwake
  have hshown := hwake.trans (.of_noted (.monitor m₁ (e := .monPublic ch.name (grpText plain) pkt.rssiDbm pkt.snrQ)
    trivial) (.monitor m₁ rfl))
  generalize m₁.monitor (.monPublic ch.name (grpText plain) pkt.rssiDbm pkt.snrQ) = m₂ at hshown
  split
  · exact hshown
  split
  · exact hshown
  · rename_i body _
    have hserv := hshown.trans (.of_services
      (localServices_services C hal m₂ pkt ch (grpSenderName plain mcBlacklistNameLen) body)
      (localServices_loads C hal m₂ hpkt ch (grpSenderName plain mcBlacklistNameLen) body))
    split <;> rename_i heq <;> rw [heq] at hserv
    · exact hserv
    · exact hserv

/-- A heard advert notes and learns first, then wakes. -/
theorem advertHeard_rouses (pkt : McPacket) (pub : Bytes) (atype : UInt8) (aname : Bytes) :
    Rouses C hal m (advertHeard C hal m pkt pub atype aname) := by
  unfold advertHeard
  simp only
  have hcount : Rouses C hal m (m.bump fun s => { s with rxAdvert := s.rxAdvert + 1 }) :=
    .of_noted (.of_eq rfl rfl rfl rfl rfl) (.bump m _)
  generalize m.bump _ = m₁ at hcount
  rcases neighborUpdate_eq hal pkt m₁ pub pkt.rssiDbm pkt.snrQ with ⟨t, ht⟩
  rw [ht]
  have hknown : Rouses C hal m { m₁ with neighbors := t } :=
    hcount.trans (.of_same rfl rfl rfl (.of_eq rfl rfl) fun _ => rfl)
  generalize { m₁ with neighbors := t } = m₂ at hknown
  have hlearnt : Rouses C hal m (if m₂.cfg.role = .hotspot ∧ configIsAffinity m₂.cfg aname = true then
      learnAffinity m₂ pub else m₂) := by
    rcases learnAffinity_eq m₂ pub with ⟨a, ha⟩
    rw [ha]
    split
    · exact hknown.trans (.of_same rfl rfl rfl (.of_eq rfl rfl) fun _ => rfl)
    · exact hknown
  split
  · exact hlearnt.trans (hotspotWake_rouses C hal _ pkt aname)
  · exact hlearnt

/-- An advert, refused or heard. -/
theorem recvAdvert_rouses (pkt : McPacket) : Rouses C hal m (recvAdvert C hal m pkt).1 := by
  unfold recvAdvert
  split
  · have hcount : Rouses C hal m (m.bumpIf m.heardOnRf fun s => { s with rxAdvertBad := s.rxAdvertBad + 1 }) :=
      .of_noted (.bumpIf m _ fun _ => rfl) (.bumpIf m _ _)
    exact hcount.trans (.of_noted (.drop _ pkt _) (.drop _ pkt _))
  · rename_i pub _
    simp only
    split
    · exact .of_noted (.bumpDrop m pkt _ fun _ => rfl) (.bumpDrop m _ pkt _)
    · refine Rouses.trans ?_ (.of_noted (advertReported_noted hal _ pkt pub _ _) (advertReported_loads hal _ pkt pub _ _))
      split
      · exact advertHeard_rouses C hal m pkt pub _ _
      · exact .refl m

/-- The policy, by the class of the packet. -/
theorem recvPolicy_rouses {pkt : McPacket} (hpkt : pkt.WellFormed) : Rouses C hal m (recvPolicy C hal m pkt).1 := by
  unfold recvPolicy
  split
  · rename_i ch _
    have hpublic := processPublicGrp_rouses C hal m hpkt ch
    split <;> rename_i heq <;> rw [heq] at hpublic
    · exact hpublic
    · exact hpublic
    · exact hpublic.trans (.of_same rfl rfl rfl (.of_eq rfl rfl) fun _ => rfl)
  · have hcount : Rouses C hal m (m.bump fun s => { s with fwdRegion := s.fwdRegion + 1 }) :=
      .of_same rfl rfl rfl (.bump m _) fun _ => rfl
    simp only
    split
    · exact hcount.trans (.of_noted (.monitor _ trivial) (.monitor _ rfl))
    · exact hcount
  · exact .refl m
  · exact .of_noted (.bumpDrop m pkt _ (deniedStats_drops _)) (.bumpDrop m _ pkt _)

/-- The relay comes last, and a silent node has none. -/
theorem relay_rouses {pkt : McPacket} (hpkt : pkt.WellFormed) (power : Int) :
    Rouses C hal m (relay hal m pkt power).1 := by
  have hfixed := relay_fixed hal m pkt power
  refine .of_same (congrArg MeshFixed.cfg hfixed) (congrArg MeshFixed.id hfixed)
    (congrArg MeshFixed.hsAwakeUntilMs hfixed) (relay_loads hal m hpkt power) ?_
  intro hs
  cases hcopy : relayCopy m.id pkt with
  | none => exact (relay_of_none hal m pkt power hcopy).2.1.txq
  | some out =>
    rcases relay_of_some hal m pkt power hcopy with ⟨-, -, hn⟩ | ⟨hloud, -, -⟩
    · exact hn.txq
    · rw [hs] at hloud
      cases hloud

/-- A packet out of scope is dropped before it. -/
theorem recvRelay_rouses {pkt : McPacket} (hpkt : pkt.WellFormed) (aname sender : Bytes) :
    Rouses C hal m (recvRelay hal m pkt aname sender).1 := by
  have hscope : Rouses C hal m (recvScope m pkt aname sender).1 := by
    unfold recvScope
    split
    · split
      · exact .of_noted (.drop m pkt _) (.drop m pkt _)
      · exact .refl m
    · exact .refl m
  unfold recvRelay
  split <;> rename_i heq <;> rw [heq] at hscope
  · exact hscope
  · exact hscope.trans (relay_rouses C hal _ hpkt _)

/-- A frame that is new, in the order of the source. -/
theorem recvFresh_rouses {pkt : McPacket} (hpkt : pkt.WellFormed) : Rouses C hal m (recvFresh C hal m pkt).1 := by
  have hadvert : Rouses C hal m (if pktPayloadType pkt = payloadTypeAdvert then recvAdvert C hal m pkt
      else (m, some [])).1 := by
    split
    · exact recvAdvert_rouses C hal m pkt
    · exact .refl m
  unfold recvFresh
  simp only
  generalize (if pktPayloadType pkt = payloadTypeAdvert then recvAdvert C hal m pkt else (m, some [])) = r at hadvert
  rcases r with ⟨m₁, aname⟩
  cases aname with
  | none => exact hadvert
  | some aname =>
    simp only
    split
    · have hcount : Rouses C hal m₁ (m₁.bumpIf m₁.heardOnRf fun s => { s with traceSeen := s.traceSeen + 1 }) :=
        .of_noted (.bumpIf m₁ _ fun _ => rfl) (.bumpIf m₁ _ _)
      exact hadvert.trans (hcount.trans (.of_noted (.drop _ pkt _) (.drop _ pkt _)))
    split
    · exact hadvert
    · have hpolicy := hadvert.trans (recvPolicy_rouses C hal m₁ hpkt)
      split <;> rename_i heq <;> rw [heq] at hpolicy
      · exact hpolicy
      · exact hpolicy.trans (recvRelay_rouses C hal _ hpkt aname _)

/-- A counter. -/
theorem bumpIf_rouses (rf : Bool) (f : MeshStats → MeshStats) : Rouses C hal m (m.bumpIf rf f) := by
  unfold McMesh.bumpIf
  split
  · exact .of_same rfl rfl rfl (.bump m f) fun _ => rfl
  · exact .refl m

/-- Any bytes. -/
theorem meshOnRecv_rouses (raw : Bytes) (rssiDbm snrQ : Int) : Rouses C hal m (meshOnRecv C hal m raw rssiDbm snrQ).1 := by
  unfold meshOnRecv
  simp only
  have hair := bumpIf_rouses C hal m m.heardOnRf fun s => { s with rxAirtimeMs := s.rxAirtimeMs + hal.airtimeMs raw.length }
  generalize m.bumpIf m.heardOnRf _ = m₁ at hair
  split
  · exact hair.trans ((bumpIf_rouses C hal m₁ _ _).trans (.of_noted (.monitor _ trivial) (.monitor _ rfl)))
  · rename_i pkt hparse
    have hwf := pktParse_wellFormed hparse
    have hheard : (pkt.heardAt rssiDbm snrQ).WellFormed :=
      ⟨hwf.pathLen_valid, hwf.payload_le, hwf.raw_le, hwf.dnr, hwf.codes⟩
    unfold recvParsed
    simp only
    have htotal := hair.trans (bumpIf_rouses C hal m₁ m₁.heardOnRf fun s => { s with rxTotal := s.rxTotal + 1 })
    generalize m₁.bumpIf m₁.heardOnRf _ = m₂ at htotal
    have hrec := seenCheckAndAdd_remembered m₂ (pktCalcHash C (pkt.heardAt rssiDbm snrQ))
    have hseen := htotal.trans (.of_same (congrArg MeshFixed.cfg hrec.fixed) (congrArg MeshFixed.id hrec.fixed)
      (congrArg MeshFixed.hsAwakeUntilMs hrec.fixed)
      (Loads.seen m₂ (pktCalcHash C (pkt.heardAt rssiDbm snrQ))) fun _ => hrec.txq)
    split <;> rename_i heq <;> rw [heq] at hseen
    · exact hseen.trans ((bumpIf_rouses C hal _ _ _).trans (.of_noted (.drop _ _ _) (.drop _ _ _)))
    · exact (hseen.trans (bumpIf_rouses C hal _ _ _)).trans (recvFresh_rouses C hal _ hheard)

end

/-- The frame that ends the silence is one heard on RF, and it leaves the advert in the first
slot that was free. -/
theorem step_advert {C : Crypto} {m : McMesh} {x : Input} (h : EndsSilence C m x) :
    ∃ hal raw rssiDbm snrQ, x = .recv hal raw rssiDbm snrQ ∧ AdvertIn C hal m (step C m x).txq := by
  rcases h with ⟨entry, hal, raw, rfl, hs, hloud⟩
  cases entry with
  | rf rssiDbm snrQ =>
    refine ⟨hal, raw, rssiDbm, snrQ, rfl, ?_⟩
    exact (meshOnRecv_rouses C hal m.clearEvents raw rssiDbm snrQ).advert hs hloud
  | hub =>
    -- the hub wakes nobody
    have hsame := Input.run_awake C m.clearEvents (.backbone hal raw)
    rcases hsame with heq | ⟨_, _, _, _, hx, -⟩
    · have hstay : meshRfSilent (step C m (.backbone hal raw)) hal.millis = meshRfSilent m hal.millis :=
        meshRfSilent_eq (Input.run_cfg C m.clearEvents (.backbone hal raw)) heq hal.millis
      rw [Entry.input, hstay, hs] at hloud
      cases hloud
    · cases hx

/-! ## One call of `mesh_service_tx` -/

/-- The channel is found busy. -/
def channelTaken (m : McMesh) (hal : Hal) : Bool := m.cfg.useCad && hal.channelBusy

/-- At a call at `now`, the entry in slot `j` comes before an advert in slot `i` that is due at
`due`: it is due while the advert is not, or it is as urgent and due before it. -/
def Beats (txq : Fin meshTxqSize → MeshTxEntry) (now due : Nat) (i j : Fin meshTxqSize) : Prop :=
  Due txq now j ∧ (now < due ∨ ((txq j).priority = 0 ∧
    ((txq j).dueMs < due ∨ ((txq j).dueMs = due ∧ (j : Nat) < i))))

/-- Nothing beats the advert at the call; on a busy channel, which sends nothing, what beats an
advert that is not due yet does no harm, and on a free one another self-advert does none. -/
def CallFair (m : McMesh) (hal : Hal) (now due : Nat) (i : Fin meshTxqSize) : Prop :=
  ∀ j, j ≠ i → Beats m.txq now due i j →
    if channelTaken m hal then now < due else SelfAdvert m.id (m.txq j).pkt

/-- When the advert is due after the call: a busy channel puts it off. -/
def putOff (m : McMesh) (hal : Hal) (now due : Nat) : Nat :=
  if due ≤ now ∧ channelTaken m hal = true then now + halRngInt hal .cad 1 4 * 120 else due

/-- From here until a packet is sent or the node is silent again, every call is fair to the
advert in slot `i`, due at `due`. -/
def Unbeaten (C : Crypto) (i : Fin meshTxqSize) : Nat → McMesh → List Input → Prop
  | _, _, [] => True
  | due, m, .serviceTx hal now :: xs =>
    meshRfSilent m now = true ∨ (CallFair m hal now due i ∧
      ((channelTaken m hal = true ∨ ∀ j, ¬Due m.txq now j) →
        Unbeaten C i (putOff m hal now due) (step C m (.serviceTx hal now)) xs))
  | due, m, x :: xs => Unbeaten C i due (step C m x) xs

/-- The self-advert waits in slot `i` until `due`. -/
structure Holds (m : McMesh) (i : Fin meshTxqSize) (due : Nat) : Prop where
  used : (m.txq i).used = true
  self : SelfAdvert m.id (m.txq i).pkt
  urgent : (m.txq i).priority = 0
  dueMs : (m.txq i).dueMs = due

section
variable {C : Crypto} {m : McMesh} {i k : Fin meshTxqSize} {due now : Nat} {hal : Hal} {x : Input}

/-- The entry that is taken is the advert, or one that beats it. -/
theorem Holds.pick (h : Holds m i due) (hpick : pickDue m.txq now = some k) :
    (k = i ∧ due ≤ now) ∨ (k ≠ i ∧ Beats m.txq now due i k) := by
  rcases pickDue_some hpick with ⟨hdue, hahead⟩
  -- the advert is taken only when it is due
  by_cases hk : k = i
  · subst hk
    exact .inl ⟨rfl, h.dueMs ▸ hdue.due⟩
  · refine .inr ⟨hk, hdue, ?_⟩
    by_cases hearly : now < due
    · exact .inl hearly
    · -- the advert is due as well, so the entry is ahead of it
      have hi : Due m.txq now i := ⟨h.used, by rw [h.dueMs]; omega⟩
      have hless := hahead i hi fun heq => hk heq.symm
      unfold Ahead at hless
      rw [h.urgent, h.dueMs] at hless
      right
      omega

/-- Other inputs leave the advert where it is. -/
theorem Holds.load (h : Holds m i due) (hx : ∀ hal now, x ≠ .serviceTx hal now) : Holds (step C m x) i due := by
  have hid : (step C m x).id = m.id := (x.run_same C m.clearEvents).1
  have hslot : (step C m x).txq i = m.txq i := by
    -- only free slots are filled
    rcases (Input.run_loads C m.clearEvents hx).slots i with hsame | ⟨hfree, -⟩
    · exact hsame
    · have hused : (m.clearEvents.txq i).used = true := h.used
      rw [hused] at hfree
      cases hfree
  refine ⟨?_, ?_, ?_, ?_⟩
  all_goals rw [hslot]
  · exact h.used
  · rw [hid]
    exact h.self
  · exact h.urgent
  · exact h.dueMs

/-- Nothing due: the call does nothing. -/
theorem serviceTx_idle (hloud : meshRfSilent m now = false) (hnone : ∀ j, ¬Due m.txq now j) :
    step C m (.serviceTx hal now) = m.clearEvents := by
  have hpick : pickDue m.txq now = none := by
    cases hp : pickDue m.txq now with
    | none => rfl
    | some k => exact absurd (pickDue_some hp).1 (hnone k)
  show meshServiceTx C hal m.clearEvents now = m.clearEvents
  have hloud' : meshRfSilent m.clearEvents now = false := hloud
  have hpick' : pickDue m.clearEvents.txq now = none := hpick
  rw [meshServiceTx, hloud', if_neg Bool.false_ne_true, hpick']

/-- On a busy channel the entry that was picked waits for 120 ms or a multiple. -/
theorem serviceTx_busy (hloud : meshRfSilent m now = false) (hpick : pickDue m.txq now = some k)
    (hbusy : channelTaken m hal = true) :
    (step C m (.serviceTx hal now)).txq =
      Function.update m.txq k { m.txq k with dueMs := now + halRngInt hal .cad 1 4 * 120 } := by
  show (meshServiceTx C hal m.clearEvents now).txq = _
  have hloud' : meshRfSilent m.clearEvents now = false := hloud
  have hpick' : pickDue m.clearEvents.txq now = some k := hpick
  have hbusy' : (m.clearEvents.cfg.useCad && hal.channelBusy) = true := hbusy
  rw [meshServiceTx, hloud', if_neg Bool.false_ne_true, hpick']
  simp only [hbusy', if_true]
  rfl

/-- A call that sends nothing keeps the advert, put off where the channel was busy. -/
theorem Holds.wait (h : Holds m i due) (hloud : meshRfSilent m now = false) (hfair : CallFair m hal now due i)
    (hwait : channelTaken m hal = true ∨ ∀ j, ¬Due m.txq now j) :
    Holds (step C m (.serviceTx hal now)) i (putOff m hal now due) := by
  have hid : (step C m (.serviceTx hal now)).id = m.id := ((Input.serviceTx hal now).run_same C m.clearEvents).1
  by_cases hnone : ∀ j, ¬Due m.txq now j
  · have hearly : ¬due ≤ now := fun hle => hnone i ⟨h.used, by rw [h.dueMs]; exact hle⟩
    rw [serviceTx_idle hloud hnone, putOff, if_neg fun hand => hearly hand.1]
    exact ⟨h.used, h.self, h.urgent, h.dueMs⟩
  have hbusy : channelTaken m hal = true := hwait.resolve_right hnone
  obtain ⟨k, hpick⟩ : ∃ k, pickDue m.txq now = some k := by
    cases hp : pickDue m.txq now with
    | some k => exact ⟨k, rfl⟩
    | none =>
      have hfore := pickDue_foremost m.txq now
      rw [hp] at hfore
      exact absurd (fun j => hfore j (List.mem_finRange j)) hnone
  have htxq : (step C m (.serviceTx hal now)).txq =
      Function.update m.txq k { m.txq k with dueMs := now + halRngInt hal .cad 1 4 * 120 } :=
    serviceTx_busy hloud hpick hbusy
  rcases h.pick hpick with ⟨rfl, hle⟩ | ⟨hk, hbeats⟩
  · -- the advert itself is put off
    have hput : putOff m hal now due = now + halRngInt hal .cad 1 4 * 120 := by
      rw [putOff, if_pos ⟨hle, hbusy⟩]
    have hslot : (step C m (.serviceTx hal now)).txq k =
        { m.txq k with dueMs := now + halRngInt hal .cad 1 4 * 120 } := by rw [htxq, Function.update_self]
    rw [hput]
    refine ⟨?_, ?_, ?_, ?_⟩
    all_goals rw [hslot]
    · exact h.used
    · rw [hid]
      exact h.self
    · exact h.urgent
  · have hearly := hfair k hk hbeats
    rw [if_pos hbusy] at hearly
    have hslot : (step C m (.serviceTx hal now)).txq i = m.txq i := by
      rw [htxq, Function.update_of_ne fun heq => hk heq.symm]
    rw [putOff, if_neg fun hand => absurd hand.1 (by omega)]
    refine ⟨?_, ?_, ?_, ?_⟩
    all_goals rw [hslot]
    · exact h.used
    · rw [hid]
      exact h.self
    · exact h.urgent
    · exact h.dueMs

/-- What a fair call sends is a self-advert. -/
theorem Holds.sent {raw : Bytes} {timeout : Nat} (h : Holds m i due) (hfair : CallFair m hal now due i)
    (hsent : Event.transmit raw timeout ∈ (step C m (.serviceTx hal now)).events) :
    ∃ pkt, pktParse raw = .ok pkt ∧ SelfAdvert m.id pkt := by
  rcases meshServiceTx_transmit hsent with hin | ⟨-, hfree, k, hpick, hser⟩
  · cases hin
  have hpick' : pickDue m.txq now = some k := hpick
  have hopen : ¬channelTaken m hal = true := Bool.eq_false_iff.mp hfree
  have hself : SelfAdvert m.id (m.txq k).pkt := by
    rcases h.pick hpick' with ⟨rfl, -⟩ | ⟨hk, hbeats⟩
    · exact h.self
    · have hother := hfair k hk hbeats
      rwa [if_neg hopen] at hother
  exact ⟨_, pktParse_pktSerialize hser, hself⟩

/-- A call that hands nothing out found the channel busy or nothing due. -/
theorem waits_of_nothing (hq : QueueSendable m) (hloud : meshRfSilent m now = false)
    (hnone : ∀ raw timeout, Event.transmit raw timeout ∉ (step C m (.serviceTx hal now)).events) :
    channelTaken m hal = true ∨ ∀ j, ¬Due m.txq now j := by
  have hturn := meshServiceTx_turn C hal m.clearEvents now hloud hq
  -- nothing was sent, so the turn was one of the two that wait
  have hempty : framesSent (meshServiceTx C hal m.clearEvents now).events = [] := by
    rw [framesSent, List.filterMap_eq_nil_iff]
    intro e he
    cases e with
    | transmit raw timeout => exact absurd he (hnone raw timeout)
    | _ => rfl
  cases hturn with
  | idle hidle => exact .inr hidle
  | busy _ _ _ hbusy => exact .inl hbusy
  | sent _ _ _ _ _ _ hsent =>
    rw [hsent] at hempty
    exact absurd hempty (List.append_ne_nil_of_right_ne_nil _ (List.cons_ne_nil _ _))

end

/-! ## Whole runs -/

/-- The clock of the inputs does not go back. -/
def ClockForward (xs : List Input) : Prop :=
  xs.Pairwise fun x y => ∀ t u, x.clock = some t → y.clock = some u → t ≤ u

/-- Every frame of the run that ends the silence finds a free slot for an advert the node can
build, and nothing beats that advert before it goes out. -/
def WakesUnbeaten (C : Crypto) (m : McMesh) (xs : List Input) : Prop :=
  ∀ pre hal raw rssiDbm snrQ post, xs = pre ++ .recv hal raw rssiDbm snrQ :: post →
    EndsSilence C (run C m pre) (.recv hal raw rssiDbm snrQ) →
    ∃ i adv, freeSlot (run C m pre).txq = some i ∧
      mcAdvertBuild C m.id (ownAdvertInfo (run C m pre)) hal.time32 = some adv ∧
      Unbeaten C i (advertDue hal) (run C m (pre ++ [.recv hal raw rssiDbm snrQ])) post

section
variable {C : Crypto} {m : McMesh} {T : UInt32}

/-- The awake deadline decides about a hotspot's silence. -/
theorem meshRfSilent_iff (hT : T ≠ 0) (h : HotspotFor T m.cfg) (now : Nat) :
    meshRfSilent m now = true ↔ m.hsAwakeUntilMs ≤ now := by
  rw [meshRfSilent, h.1, h.2]
  simp [hT]

/-- Between a silent instant and a later one at which the node is awake, some frame ended the
silence. -/
theorem exists_endsSilence (hT : T ≠ 0) {xs : List Input} {t now : Nat} (hcfg : HotspotFor T m.cfg)
    (hkeep : ∀ x ∈ xs, x.KeepsHotspot T) (hlater : ∀ x ∈ xs, ∀ u, x.clock = some u → t ≤ u) (hnow : t ≤ now)
    (hsilent : meshRfSilent m t = true) (hloud : meshRfSilent (run C m xs) now = false) :
    ∃ pre x post, xs = pre ++ x :: post ∧ EndsSilence C (run C m pre) x := by
  induction xs generalizing m with
  | nil =>
    have hpast := (meshRfSilent_iff hT hcfg t).mp hsilent
    have hstill : meshRfSilent m now = true := (meshRfSilent_iff hT hcfg now).mpr (by omega)
    have hnil : run C m [] = m := rfl
    rw [hnil, hstill] at hloud
    cases hloud
  | cons x xs ih =>
    have hcfg' : HotspotFor T (step C m x).cfg :=
      Input.run_hotspotFor (m := m.clearEvents) (hkeep x List.mem_cons_self) hcfg
    rcases x.run_awake C m.clearEvents with heq | ⟨hal, raw, rssiDbm, snrQ, rfl, -, hdeadline⟩
    · have hstill : meshRfSilent (step C m x) t = true := by
        rw [meshRfSilent_iff hT hcfg']
        exact heq.le.trans ((meshRfSilent_iff hT hcfg t).mp hsilent)
      rcases ih hcfg' (fun y hy => hkeep y (List.mem_cons_of_mem x hy))
        (fun y hy => hlater y (List.mem_cons_of_mem x hy)) hstill hloud with ⟨pre, y, post, rfl, hends⟩
      exact ⟨x :: pre, y, post, rfl, hends⟩
    · -- the deadline was past when the frame was heard, and lies ahead now
      have hlate := hlater _ List.mem_cons_self hal.millis rfl
      refine ⟨[], _, xs, rfl, .rf rssiDbm snrQ, hal, raw, rfl, ?_, ?_⟩
      · have hpast := (meshRfSilent_iff hT hcfg t).mp hsilent
        exact (meshRfSilent_iff hT hcfg hal.millis).mpr (by omega)
      · have hpos : m.cfg.hotspotAwake.toNat ≠ 0 := by
          rw [hcfg.2]
          intro hz
          exact hT (UInt32.toNat_inj.mp hz)
        have hahead : ¬(step C m (.recv hal raw rssiDbm snrQ)).hsAwakeUntilMs ≤ hal.millis := by
          have hval : (step C m (.recv hal raw rssiDbm snrQ)).hsAwakeUntilMs =
              hal.millis + m.cfg.hotspotAwake.toNat * 1000 := hdeadline
          omega
        exact Bool.eq_false_iff.mpr fun hs => hahead ((meshRfSilent_iff hT hcfg' hal.millis).mp hs)

/-- From a waking on, the first packet sent is a self-advert, unless the node has fallen silent
before it. -/
theorem Unbeaten.first {i : Fin meshTxqSize} {due now timeout : Nat} {hal : Hal} {mid post : List Input} {raw : Bytes}
    (h : Unbeaten C i due m (mid ++ .serviceTx hal now :: post)) (hholds : Holds m i due) (hq : QueueSendable m)
    (hquiet : NothingHanded C m mid)
    (hsent : Event.transmit raw timeout ∈ (step C (run C m mid) (.serviceTx hal now)).events) :
    (∃ mid₁ hal₁ now₁ mid₂, mid = mid₁ ++ .serviceTx hal₁ now₁ :: mid₂ ∧ meshRfSilent (run C m mid₁) now₁ = true) ∨
      ∃ pkt, pktParse raw = .ok pkt ∧ SelfAdvert m.id pkt := by
  induction mid generalizing m due with
  | nil =>
    right
    rcases h with hsilent | ⟨hfair, -⟩
    · rcases meshServiceTx_awake C m.clearEvents hsent with hin | hloud
      · cases hin
      · have hloud' : meshRfSilent m now = false := hloud
        rw [hsilent] at hloud'
        cases hloud'
    · exact hholds.sent hfair hsent
  | cons y mid ih =>
    have hid : (step C m y).id = m.id := (y.run_same C m.clearEvents).1
    -- a later silence is one of the whole stretch
    have hlater : ∀ {due' : Nat}, Unbeaten C i due' (step C m y) (mid ++ .serviceTx hal now :: post) →
        Holds (step C m y) i due' →
        (∃ mid₁ hal₁ now₁ mid₂, y :: mid = mid₁ ++ .serviceTx hal₁ now₁ :: mid₂ ∧
          meshRfSilent (run C m mid₁) now₁ = true) ∨ ∃ pkt, pktParse raw = .ok pkt ∧ SelfAdvert m.id pkt := by
      intro due' h' hholds'
      rcases ih h' hholds' (step_queueSendable C m y hq) hquiet.2 hsent with
        ⟨mid₁, hal₁, now₁, mid₂, rfl, hs⟩ | hself
      · exact .inl ⟨y :: mid₁, hal₁, now₁, mid₂, rfl, hs⟩
      · rw [hid] at hself
        exact .inr hself
    cases y with
    | serviceTx hal' now' =>
      rcases h with hsilent | ⟨hfair, hnext⟩
      · exact .inl ⟨[], hal', now', mid, rfl, hsilent⟩
      · cases hs : meshRfSilent m now' with
        | true => exact .inl ⟨[], hal', now', mid, rfl, hs⟩
        | false =>
          have hwait := waits_of_nothing hq hs hquiet.1
          exact hlater (hnext hwait) (hholds.wait hs hfair hwait)
    | _ => exact hlater h (hholds.load fun _ _ heq => by cases heq)

/-- The identity is that of the start. -/
theorem run_id (C : Crypto) (m : McMesh) (xs : List Input) : (run C m xs).id = m.id := by
  refine Runs.run_invariant (fun s : McMesh => s.id = m.id) ?_ rfl xs
  intro s x hs
  exact ((x.run_same C s.clearEvents).1).trans hs

/-- A hotspot whose clock does not go back, and whose self-advert nothing beats after a waking,
identifies first. -/
theorem identifiesFirst_of_unbeaten (hT : T ≠ 0) (hreach : Reachable C m) (hcfg : HotspotFor T m.cfg)
    {xs : List Input} (hkeep : ∀ x ∈ xs, x.KeepsHotspot T) (hclock : ClockForward xs) (h : WakesUnbeaten C m xs) :
    IdentifiesFirst C m xs := by
  intro pre x mid hal now post raw timeout hxs hends hquiet hsent
  -- by the length of what lies between: a silence on the way is ended by a later frame
  induction hn : mid.length using Nat.strong_induction_on generalizing pre x mid with
  | _ n ih =>
  rcases step_advert hends with ⟨hal₀, raw₀, rssiDbm, snrQ, rfl, hin⟩
  have hxs' : xs = pre ++ .recv hal₀ raw₀ rssiDbm snrQ :: (mid ++ .serviceTx hal now :: post) := by
    rw [hxs, List.append_assoc, List.cons_append]
  rcases h pre hal₀ raw₀ rssiDbm snrQ _ hxs' hends with ⟨i, adv, hslot, hbuild, hunbeaten⟩
  have hconcat : run C m (pre ++ [.recv hal₀ raw₀ rssiDbm snrQ]) =
      step C (run C m pre) (.recv hal₀ raw₀ rssiDbm snrQ) := Runs.run_concat ..
  have hrun : ∀ ys, run C m (pre ++ .recv hal₀ raw₀ rssiDbm snrQ :: ys) =
      run C (run C m (pre ++ [.recv hal₀ raw₀ rssiDbm snrQ])) ys := by
    intro ys
    rw [run, run, run, ← Runs.run_append, List.append_assoc, List.singleton_append]
  have hentry := hin i adv hslot (by rw [run_id]; exact hbuild)
  have hholds : Holds (run C m (pre ++ [.recv hal₀ raw₀ rssiDbm snrQ])) i (advertDue hal₀) := by
    rw [hconcat]
    refine ⟨?_, ?_, ?_, ?_⟩
    all_goals rw [hentry]
    rw [← hconcat, run_id]
    exact mcAdvertBuild_selfAdvert hbuild
  have hq : ∀ ys, QueueSendable (run C m ys) := by
    intro ys
    exact Runs.run_invariant QueueSendable (fun s y => step_queueSendable C s y) (queueSendable_of_reachable hreach) ys
  rw [hrun] at hsent
  rcases hunbeaten.first hholds (hq _) hquiet hsent with ⟨mid₁, hal₁, now₁, mid₂, rfl, hsilent⟩ | hself
  · have htail : xs = (pre ++ .recv hal₀ raw₀ rssiDbm snrQ :: mid₁) ++
        .serviceTx hal₁ now₁ :: (mid₂ ++ .serviceTx hal now :: post) := by
      rw [hxs']
      simp only [List.append_assoc, List.cons_append]
    rw [ClockForward, htail] at hclock
    have hafter := (List.pairwise_cons.mp (List.pairwise_append.mp hclock).2.1).1
    have hlater : ∀ y ∈ .serviceTx hal₁ now₁ :: mid₂, ∀ u, y.clock = some u → now₁ ≤ u := by
      intro y hy u hu
      rcases List.mem_cons.mp hy with rfl | hy
      · cases hu
        exact Nat.le_refl _
      · exact hafter y (List.mem_append_left _ hy) now₁ u rfl hu
    have hparts : ∀ y ∈ .serviceTx hal₁ now₁ :: mid₂, y.KeepsHotspot T := by
      intro y hy
      apply hkeep
      rw [htail]
      simp only [List.mem_append, List.mem_cons] at hy ⊢
      tauto
    have hfor : HotspotFor T (run C (run C m (pre ++ [.recv hal₀ raw₀ rssiDbm snrQ])) mid₁).cfg := by
      rw [← hrun]
      refine run_hotspotFor hcfg fun y hy => hkeep y ?_
      rw [htail]
      exact List.mem_append_left _ hy
    have hwhole : run C (run C m (pre ++ [.recv hal₀ raw₀ rssiDbm snrQ])) (mid₁ ++ .serviceTx hal₁ now₁ :: mid₂) =
        run C (run C (run C m (pre ++ [.recv hal₀ raw₀ rssiDbm snrQ])) mid₁) (.serviceTx hal₁ now₁ :: mid₂) :=
      Runs.run_append ..
    -- the node is awake at the call, so a frame has ended this silence
    have hloud : meshRfSilent (run C (run C (run C m (pre ++ [.recv hal₀ raw₀ rssiDbm snrQ])) mid₁)
        (.serviceTx hal₁ now₁ :: mid₂)) now = false := by
      rw [← hwhole]
      rcases meshServiceTx_awake C _ hsent with hnone | hawake
      · cases hnone
      · exact hawake
    rcases exists_endsSilence hT hfor hparts hlater
      (hafter _ (List.mem_append_right _ List.mem_cons_self) now₁ now rfl rfl) hsilent hloud with
      ⟨pre', x', post', hsplit, hends'⟩
    rw [hsplit] at hxs hquiet hsent hn
    have hpre : run C m (pre ++ .recv hal₀ raw₀ rssiDbm snrQ :: (mid₁ ++ pre')) =
        run C (run C (run C m (pre ++ [.recv hal₀ raw₀ rssiDbm snrQ])) mid₁) pre' := by
      rw [hrun]
      exact Runs.run_append ..
    refine ih post'.length ?_ (pre ++ .recv hal₀ raw₀ rssiDbm snrQ :: (mid₁ ++ pre')) x' post' ?_ ?_ ?_ ?_ rfl
    · rw [← hn]
      simp only [List.length_append, List.length_cons]
      omega
    · rw [hxs]
      simp only [List.append_assoc, List.cons_append]
    · rw [hpre]
      exact hends'
    · have hrest := ((Runs.every_append ..).mp hquiet).2
      rw [Runs.every_append] at hrest
      have hlast : run C m (pre ++ .recv hal₀ raw₀ rssiDbm snrQ :: (mid₁ ++ pre') ++ [x']) =
          step C (run C (run C (run C m (pre ++ [.recv hal₀ raw₀ rssiDbm snrQ])) mid₁) pre') x' := by
        rw [← hpre]
        exact Runs.run_concat ..
      rw [hlast]
      exact hrest.2.2
    · have hall : run C m (pre ++ .recv hal₀ raw₀ rssiDbm snrQ :: (mid₁ ++ pre') ++ x' :: post') =
          run C (run C m (pre ++ [.recv hal₀ raw₀ rssiDbm snrQ])) (mid₁ ++ (pre' ++ x' :: post')) := by
        rw [← hrun]
        simp only [List.append_assoc, List.cons_append]
      rw [hall]
      exact hsent
  · rw [run_id] at hself
    exact hself

end

/-! ## A race lost, and a race won -/

/-- The companion's advert with the hotspot's hash behind it. -/
def relayedHill : Bytes := 0x11 :: 0x01 :: 0x4E :: (hillAdvert []).payload

/-- The companion's advert is relayed before the hotspot has identified. -/
theorem silentHotspot_not_identifiesFirst :
    silentHotspot.cfg.role = .hotspot ∧ silentHotspot.cfg.hotspotAwake ≠ 0 ∧
      silentHotspot.id.hasSecret = true ∧ ¬ IdentifiesFirst wakingCrypto silentHotspot wakingRun := by
  refine ⟨rfl, by decide, rfl, ?_⟩
  intro h
  have hends : EndsSilence wakingCrypto silentHotspot (.recv unluckyHal hillFrame (-60) 40) :=
    ⟨.rf (-60) 40, unluckyHal, hillFrame, rfl, by decide, by decide⟩
  have hsent : Event.transmit relayedHill 1135 ∈ (step wakingCrypto (run wakingCrypto silentHotspot
      [.recv unluckyHal hillFrame (-60) 40]) (.serviceTx (.still 1000) 1000)).events := by
    decide
  rcases h [] _ [] (.still 1000) 1000 [] relayedHill 1135 rfl hends trivial hsent with
    ⟨pkt, hparse, -, -, hhops⟩
  -- what goes out has a hop behind it
  have hone : (pktParse relayedHill).toOption.map pktPathHashCount = some 1 := by decide
  rw [hparse] at hone
  rw [Except.toOption, Option.map_some, hhops] at hone
  cases hone

/-- Draws with the longest jitter for the advert, and the longest backoff for the relay. -/
def luckyHal : Hal :=
  { Hal.still 1000 with
    time := 1760000000
    rng := fun site => if site = .advert then 3 else 5 }

instance (txq : Fin meshTxqSize → MeshTxEntry) (now due : Nat) (i j : Fin meshTxqSize) : Decidable (Beats txq now due i j) :=
  inferInstanceAs (Decidable (_ ∧ _))

instance (m : McMesh) (hal : Hal) (now due : Nat) (i : Fin meshTxqSize) : Decidable (CallFair m hal now due i) :=
  inferInstanceAs (Decidable (∀ _, _ → _ → _))

/-- Polled before the jitter is over and after it: the relay is due later than the advert. -/
def wonRun : List Input :=
  [.recv luckyHal hillFrame (-60) 40, .serviceTx (.still 1000) 1000, .serviceTx (.still 1150) 1150]

theorem silentHotspot_identifiesFirst : IdentifiesFirst wakingCrypto silentHotspot wonRun := by
  have hreach : Reachable wakingCrypto silentHotspot :=
    ⟨.still 0, hotspotIdentity, _, false, none, false, [], rfl⟩
  have hclock : ClockForward wonRun := by
    simp [ClockForward, wonRun, Input.clock, Hal.still, luckyHal]
  apply identifiesFirst_of_unbeaten (T := configDefaults.hotspotAwake) (by decide) hreach ⟨rfl, rfl⟩ ?_ hclock
  · intro pre hal raw rssiDbm snrQ post hxs _
    -- the frame can only be the first input
    rcases pre with - | ⟨y, pre⟩
    · rw [List.nil_append, wonRun, List.cons.injEq] at hxs
      rcases hxs with ⟨hfirst, rfl⟩
      cases hfirst
      have hsome : (mcAdvertBuild wakingCrypto silentHotspot.id
          (ownAdvertInfo (run wakingCrypto silentHotspot [])) luckyHal.time32).isSome = true := by decide
      obtain ⟨adv, hbuild⟩ := Option.isSome_iff_exists.mp hsome
      refine ⟨0, adv, by decide, hbuild, .inr ⟨by decide, fun _ => .inr ⟨by decide, fun _ => trivial⟩⟩⟩
    · have hrest := (List.cons.inj hxs).2
      have hmem : Input.recv hal raw rssiDbm snrQ ∈ [Input.serviceTx (.still 1000) 1000, .serviceTx (.still 1150) 1150] := by
        rw [hrest]
        exact List.mem_append_right _ List.mem_cons_self
      rcases List.mem_pair.mp hmem with heq | heq
      · cases heq
      · cases heq
  · intro x hx
    simp only [wonRun, List.mem_cons, List.not_mem_nil, or_false] at hx
    rcases hx with rfl | rfl | rfl
    all_goals trivial

end Meshcore
