import MeshcoreRepeater.Mesh.Dedup
import MeshcoreRepeater.Mesh.Scope

/-! # A waking hotspot

A hotspot that a companion wakes from silence queues its self-advert, so as to identify
first. Whether it does is a race in the queue: `mesh_service_tx` takes the most urgent
of the entries that are due, and the advert becomes due after a jitter of its own.

Main results: `pickDue_foremost` and `pickDue_some` say which entry is taken,
`meshServiceTx_transmit` what is handed to the radio, `hotspotWake_txq` where the advert waits.
-/

namespace Meshcore

set_option maxRecDepth 8000

open ByteLib

/-! ## The order of the queue -/

/-- The entry may go out at the time `now`. -/
structure Due (txq : Fin meshTxqSize → MeshTxEntry) (now : Nat) (i : Fin meshTxqSize) : Prop where
  used : (txq i).used = true
  due : (txq i).dueMs ≤ now

/-- Of two entries that are due, the one ahead goes first: by priority, then by due
time, then by slot. -/
def Ahead (txq : Fin meshTxqSize → MeshTxEntry) (i j : Fin meshTxqSize) : Prop :=
  (txq i).priority < (txq j).priority ∨ ((txq i).priority = (txq j).priority ∧
    ((txq i).dueMs < (txq j).dueMs ∨ ((txq i).dueMs = (txq j).dueMs ∧ (i : Nat) < j)))

instance (txq : Fin meshTxqSize → MeshTxEntry) (now : Nat) (i : Fin meshTxqSize) : Decidable (Due txq now i) :=
  decidable_of_iff ((txq i).used = true ∧ (txq i).dueMs ≤ now)
    ⟨fun h => ⟨h.1, h.2⟩, fun h => ⟨h.used, h.due⟩⟩

instance (txq : Fin meshTxqSize → MeshTxEntry) (i j : Fin meshTxqSize) : Decidable (Ahead txq i j) :=
  inferInstanceAs (Decidable (_ ∨ _ ∧ (_ ∨ _ ∧ _)))

section
variable {txq : Fin meshTxqSize → MeshTxEntry} {now : Nat} {i j k : Fin meshTxqSize}

theorem Ahead.trans (h : Ahead txq i j) (h' : Ahead txq j k) : Ahead txq i k := by
  unfold Ahead at *
  omega

theorem Ahead.asymm (h : Ahead txq i j) : ¬ Ahead txq j i := by
  unfold Ahead at *
  omega

/-- The foremost due entry among the slots `l`, if there is one. -/
def Foremost (txq : Fin meshTxqSize → MeshTxEntry) (now : Nat) (l : List (Fin meshTxqSize)) : Option (Fin meshTxqSize) → Prop
  | none => ∀ j ∈ l, ¬ Due txq now j
  | some i => i ∈ l ∧ Due txq now i ∧ ∀ j ∈ l, Due txq now j → j ≠ i → Ahead txq i j

/-- One turn of the loop, on a slot behind all those looked at. -/
theorem pickStep_foremost {l : List (Fin meshTxqSize)} {best : Option (Fin meshTxqSize)} {x : Fin meshTxqSize}
    (h : Foremost txq now l best) (hlast : ∀ j ∈ l, (j : Nat) < x) :
    Foremost txq now (l ++ [x]) (pickStep txq now best x) := by
  have hmem : ∀ {j}, j ∈ l ++ [x] → j ∈ l ∨ j = x := by simp
  unfold pickStep
  split
  · -- a slot that is free or not yet due is passed over
    rename_i hskip
    have hnot : ¬ Due txq now x := by
      rintro ⟨hused, hdue⟩
      simp [hused] at hskip
      omega
    cases best with
    | none =>
      intro j hj
      rcases hmem hj with hin | rfl
      · exact h j hin
      · exact hnot
    | some b =>
      refine ⟨List.mem_append_left [x] h.1, h.2.1, ?_⟩
      intro j hj hdue hne
      rcases hmem hj with hin | rfl
      · exact h.2.2 j hin hdue hne
      · exact absurd hdue hnot
  · rename_i hskip
    have hx : Due txq now x := by
      simp only [Bool.or_eq_true, Bool.not_eq_true', decide_eq_true_eq, not_or, Bool.not_eq_false,
        not_lt] at hskip
      exact ⟨hskip.1, hskip.2⟩
    cases best with
    | none =>
      refine ⟨by simp, hx, ?_⟩
      intro j hj hdue hne
      rcases hmem hj with hin | rfl
      · exact absurd hdue (h j hin)
      · exact absurd rfl hne
    | some b =>
      rcases h with ⟨hb, hbdue, hrest⟩
      simp only
      split
      · -- the new slot is more urgent, so ahead of whatever `b` is ahead of
        rename_i hless
        have hahead : Ahead txq x b := by
          unfold Ahead
          omega
        refine ⟨by simp, hx, ?_⟩
        intro j hj hdue hne
        rcases hmem hj with hin | rfl
        · by_cases hjb : j = b
          · rw [hjb]
            exact hahead
          · exact hahead.trans (hrest j hin hdue hjb)
        · exact absurd rfl hne
      · rename_i hless
        refine ⟨List.mem_append_left [x] hb, hbdue, ?_⟩
        intro j hj hdue hne
        rcases hmem hj with hin | rfl
        · exact hrest j hin hdue hne
        · -- ties go to the lower slot
          have hslot := hlast b hb
          unfold Ahead
          omega

/-- `pick_due` takes the foremost of the entries that are due. -/
theorem pickDue_foremost (txq : Fin meshTxqSize → MeshTxEntry) (now : Nat) :
    Foremost txq now (List.finRange meshTxqSize) (pickDue txq now) := by
  have hsorted : (List.finRange meshTxqSize).Pairwise fun a b : Fin meshTxqSize => (a : Nat) < b := by decide
  unfold pickDue
  generalize List.finRange meshTxqSize = l at hsorted ⊢
  induction l using List.reverseRecOn with
  | nil =>
    intro j hj
    cases hj
  | append_singleton l x ih =>
    rcases List.pairwise_append.mp hsorted with ⟨hl, -, hlast⟩
    rw [List.foldl_append]
    exact pickStep_foremost (ih hl) fun j hj => hlast j hj x (List.mem_singleton.mpr rfl)

theorem pickDue_some (h : pickDue txq now = some i) :
    Due txq now i ∧ ∀ j, Due txq now j → j ≠ i → Ahead txq i j := by
  have hfore := pickDue_foremost txq now
  rw [h] at hfore
  exact ⟨hfore.2.1, fun j => hfore.2.2 j (List.mem_finRange j)⟩

end

/-! ## What is handed to the radio -/

/-- What `mesh_service_tx` transmits is the entry it picked, while awake and with the
channel free. -/
theorem meshServiceTx_transmit {C : Crypto} {hal : Hal} {m : McMesh} {now : Nat} {raw : Bytes}
    {timeout : Nat} (h : Event.transmit raw timeout ∈ (meshServiceTx C hal m now).events) :
    Event.transmit raw timeout ∈ m.events ∨
      (meshRfSilent m now = false ∧ (m.cfg.useCad && hal.channelBusy) = false ∧
        ∃ i, pickDue m.txq now = some i ∧ pktSerialize (m.txq i).pkt mcMaxTransUnit = .ok raw) := by
  rcases meshServiceTx_awake C m h with hin | hawake
  · exact .inl hin
  unfold meshServiceTx at h
  rw [if_neg (by simp [hawake])] at h
  cases hpick : pickDue m.txq now with
  | none =>
    rw [hpick] at h
    exact .inl h
  | some i =>
    rw [hpick] at h
    simp only at h
    split at h
    · exact .inl h
    rename_i hfree
    cases hser : pktSerialize (m.txq i).pkt mcMaxTransUnit with
    | error e =>
      rw [hser] at h
      exact .inl h
    | ok out =>
      rw [hser] at h
      have hmem : Event.transmit raw timeout ∈ (transmit C hal m (m.txq i) out).events := h
      have hsent : Event.transmit raw timeout ∈ m.events ∨
          (raw = out ∧ timeout = hal.airtimeMs out.length + 1000) := by
        unfold transmit at hmem
        simp only at hmem
        split at hmem
        · unfold monPktTx at hmem
          split at hmem <;> simpa [McMesh.bump, McMesh.emit] using hmem
        · simpa [McMesh.bump, McMesh.emit] using hmem
      rcases hsent with hin | ⟨rfl, -⟩
      · exact .inl hin
      · exact .inr ⟨hawake, by simpa using hfree, i, rfl, hser⟩

/-! ## The race -/

/-- The node's own advert, with no hop behind it. -/
def SelfAdvert (id : McIdentity) (pkt : McPacket) : Prop :=
  pktPayloadType pkt = payloadTypeAdvert ∧ advertPub pkt.payload = id.pub.bytes ∧
    pktPathHashCount pkt = 0

instance (id : McIdentity) (pkt : McPacket) : Decidable (SelfAdvert id pkt) :=
  inferInstanceAs (Decidable (_ ∧ _ ∧ _))

/-- When the self-advert that is queued now may go out: after its jitter. -/
def advertDue (hal : Hal) : Nat := hal.millis + halRngInt hal .advert 0 3 * 50

section
variable {C : Crypto} {hal : Hal} {m : McMesh}

theorem mcAdvertBuild_selfAdvert {id : McIdentity} {info : McAdvertInfo} {ts : UInt32}
    {pkt : McPacket} (h : mcAdvertBuild C id info ts = some pkt) : SelfAdvert id pkt := by
  unfold mcAdvertBuild at h
  split at h
  · cases h
  simp only at h
  split at h
  · cases h
  cases h
  have htype : pktPayloadType { McPacket.zero with
      header := pktMakeHeader payloadVer1 payloadTypeAdvert routeTypeFlood } = payloadTypeAdvert := by
    decide
  have hhops : pktPathHashCount McPacket.zero = 0 := by decide
  refine ⟨htype, ?_, hhops⟩
  simp [advertPub, id.pub.length_eq]

/-- A node that is not silent queues its self-advert in the first free slot. -/
theorem meshSendAdvert_txq {adv : McPacket} {i : Fin meshTxqSize} (hloud : meshRfSilent m hal.millis = false)
    (hbuild : mcAdvertBuild C m.id (ownAdvertInfo m) hal.time32 = some adv)
    (hslot : freeSlot m.txq = some i) :
    (meshSendAdvert C hal m).1.txq = Function.update m.txq i
      ⟨true, adv, advertDue hal, 0, ownTxPower m, true⟩ := by
  -- recording the hash touches neither the queue nor the deadline
  have hrec := seenCheckAndAdd_remembered m (pktCalcHash C adv)
  unfold meshSendAdvert
  simp only [hloud, hbuild, Bool.false_eq_true, if_false]
  rw [recordOwn]
  generalize (seenCheckAndAdd m (pktCalcHash C adv)).1 = m₁ at hrec ⊢
  have hpower : ownTxPower m₁ = ownTxPower m := by
    unfold ownTxPower
    rw [show m₁.cfg = m.cfg from congrArg MeshFixed.cfg hrec.fixed]
  rcases enqueue_cases hal m₁ adv 0 (halRngInt hal .advert 0 3 * 50) (ownTxPower m₁) true with
    ⟨hwhy, -, -⟩ | ⟨-, hres, hq⟩
  · rcases hwhy with hsilent | hfull
    · rw [meshRfSilent_congr hrec.fixed, hloud] at hsilent
      cases hsilent
    · rw [hrec.txq, hslot] at hfull
      cases hfull
  · rcases hq.slot with ⟨j, hj, hupd⟩
    rw [hrec.txq, hslot] at hj
    cases hj
    rw [hrec.txq] at hupd
    rw [← hpower]
    split <;> rename_i heq <;> rw [heq] at hres hupd
    · cases hres
    · exact hupd

/-- Waking from silence puts the self-advert into the first free slot, most urgent, due
after its jitter. -/
theorem hotspotWake_txq {pkt adv : McPacket} {who : Bytes} {i : Fin meshTxqSize}
    (hwakes : wakesHotspot m pkt who = true) (hsilent : meshRfSilent m hal.millis = true)
    (hbuild : mcAdvertBuild C m.id (ownAdvertInfo m) hal.time32 = some adv)
    (hslot : freeSlot m.txq = some i) :
    (hotspotWake C hal m pkt who).txq = Function.update m.txq i
      ⟨true, adv, advertDue hal, 0, ownTxPower m, true⟩ := by
  have hsend : (meshSendAdvert C hal { m.wakeUntil hal.millis who with hsSilent := false }).1.txq =
      Function.update m.txq i
        ⟨true, adv, advertDue hal, 0, ownTxPower m, true⟩ :=
    meshSendAdvert_txq (meshRfSilent_wakeUntil hwakes hal.millis) hbuild hslot
  unfold hotspotWake
  rw [if_pos hwakes]
  simp only [hsilent, if_true]
  split
  · exact hsend
  · exact hsend

end

/-! ## A hotspot and its companion -/

def hotspotPub : Bytes := bytesBE 32 0x4e6008b01b74e49e38d8b11392bfaccc7b5bff86ca2048cbb0f783633a61e2dd

def hotspotIdentity : McIdentity :=
  ⟨.ofBytes 32 hotspotPub, .ofBytes 64 (List.replicate 32 0xE5 ++ hotspotPub), true⟩

def hotspotSig : Bytes :=
  bytesBE 32 0x2549a67fcabad7b2981d97b9b8cd43341d2d1df20240fc4186867ef83798c5d6 ++
    bytesBE 32 0xeb9f4dbfb77d9cfae67e31f9128e2f13bd2577af254a4cab2ed4ad01d0988600

/-- What the hotspot signs and advertises. -/
def hotspotMessage : Bytes := hotspotPub ++ bytesBE 4 0x0078e768 ++ (0x82 :: lit "HamRepeater")

def hotspotPayload : Bytes :=
  hotspotPub ++ bytesBE 4 0x0078e768 ++ hotspotSig ++ (0x82 :: lit "HamRepeater")

/-- Ed25519 and SHA-256 on the companion's advert and on the hotspot's own. -/
def wakingCrypto : Crypto :=
  { Crypto.ofTable
      [([4] ++ (hillAdvert []).payload,
        bytesBE 32 0xf50ad6f8ff31f6c2e4f862104c570f443b64e43e8858ad97c50cd58261f5f14e),
       ([4] ++ hotspotPayload, bytesBE 32 0x200b247707de9dfdb55ad41b35fd54b5cd2535990523afb94474b5f44460ff0a)]
      [(hillPub, hillSig, hillPub ++ bytesBE 4 0x0078e768 ++ hillData),
       (hotspotPub, hotspotSig, hotspotMessage)] with
    cryptoSign := fun _ _ => Buf.ofBytes 64 hotspotSig }

/-- A hotspot of the companion's operator, which has just started. -/
def silentHotspot : McMesh :=
  meshInit (.still 0) hotspotIdentity
    { configDefaults with role := .hotspot, home := [lit "ON6URE*"] } false none false

/-- The draws at the waking: the longest jitter for the advert, none for the relay. -/
def unluckyHal : Hal :=
  { Hal.still 1000 with
    time := 1760000000
    rng := fun site => if site = .advert then 3 else 0 }

def wakingRun : List Input := [.recv unluckyHal hillFrame (-60) 40, .serviceTx (.still 1000) 1000]

end Meshcore
