import MeshcoreRepeater.Mesh.Outcome

/-! # The content policy over whole calls

Amateur-radio rules forbid relaying content whose meaning is obscured. `Licensed`
says what may be relayed, without the order in which the code finds out;
`receive_policyKept` shows that neither entry point queues anything else as a relay.

* `licensed_of_recvVerdict`: what goes on to the relay is licensed.
* `relayCopy_spec`: a relayed copy differs in its path.
* `receive_policyKept`: both entry points, in every state.
-/

namespace Meshcore

open ByteLib

/-! ## Entry points -/

/-- Where a frame comes in. -/
inductive Entry where
  /-- `mesh_on_recv`, with the signal the frame was heard at -/
  | rf (rssiDbm snrQ : Int)
  /-- `mesh_on_backbone` -/
  | hub

/-- A frame taken in through either entry point. -/
def receive (C : Crypto) (hal : Hal) (m : McMesh) (raw : Bytes) : Entry → McMesh × MeshRx
  | .rf rssiDbm snrQ => meshOnRecv C hal m raw rssiDbm snrQ
  | .hub => meshOnBackbone C hal m raw

/-- The signal a frame is noted with. -/
def Entry.rssiDbm : Entry → Int
  | .rf rssiDbm _ => rssiDbm
  | .hub => monViaBackbone

def Entry.snrQ : Entry → Int
  | .rf _ snrQ => snrQ
  | .hub => 0

/-- The state a frame is handled in: the hub's frames have the hub as source. -/
def McMesh.enter (m : McMesh) : Entry → McMesh
  | .rf _ _ => m
  | .hub => { m with rxSrc := .backbone }

/-- Both entry points are `mesh_on_recv`, up to the source that is put back. -/
theorem receive_outcome (C : Crypto) (hal : Hal) (m : McMesh) (raw : Bytes) (entry : Entry) :
    ∃ m', Outcome C hal (m.enter entry) raw entry.rssiDbm entry.snrQ m'
        (receive C hal m raw entry).2 ∧
      ∃ src, (receive C hal m raw entry).1 = { m' with rxSrc := src } := by
  cases entry with
  | rf rssiDbm snrQ =>
    exact ⟨_, meshOnRecv_outcome C hal m raw rssiDbm snrQ, _, rfl⟩
  | hub =>
    exact ⟨_, meshOnRecv_outcome C hal { m with rxSrc := .backbone } raw monViaBackbone 0, _, rfl⟩

/-! ## What may be relayed -/

/-- The sender of a group message under a channel's key. -/
def channelSender (C : Crypto) (ch : McPubChannel) (payload : Bytes) : Bytes :=
  grpSenderName (aes128EcbDecrypt C ch.secret.bytes (payload.drop 3)) mcBlacklistNameLen

/-- The three kinds of packet a node may relay. -/
inductive Licensed (C : Crypto) (cfg : McConfig) (pkt : McPacket) : Prop where
  /-- a signed advert of a node that is not blocked -/
  | advert (pub : Bytes) : pktPayloadType pkt = payloadTypeAdvert →
      mcAdvertVerify C pkt = some pub → configIsBlacklisted cfg (advertTypeName pkt).2 = false →
      configIsKeyBlocked cfg pub = false → Licensed C cfg pkt
  /-- a message proved to be on a configured channel, of a sender who is not blocked -/
  | channel (ch : McPubChannel) : isGroupType (pktPayloadType pkt) = true →
      19 ≤ pkt.payload.length → ch ∈ cfg.publicChannels → pkt.payload.head? = some ch.hash →
      (pkt.payload.drop 1).take 2 = (hmacSha256 C ch.secret.bytes (pkt.payload.drop 3)).take 2 →
      (pktPayloadType pkt = payloadTypeGrpTxt → (pkt.payload.length - 3) % 16 = 0 →
        configIsBlacklisted cfg (channelSender C ch pkt.payload) = false) → Licensed C cfg pkt
  /-- group traffic tagged for a configured room -/
  | region (room : McRoom) : isGroupType (pktPayloadType pkt) = true →
      pktRouteType pkt = routeTypeTransportFlood → room ∈ cfg.rooms →
      pkt.transportCodes.1 = regionTransportCode C room.key (pktPayloadType pkt) pkt.payload →
      Licensed C cfg pkt

/-- The payload types that are ever relayed. -/
theorem Licensed.type {C : Crypto} {cfg : McConfig} {pkt : McPacket} (h : Licensed C cfg pkt) :
    pktPayloadType pkt = payloadTypeAdvert ∨ pktPayloadType pkt = payloadTypeGrpTxt ∨
      pktPayloadType pkt = payloadTypeGrpData := by
  have hgroup : isGroupType (pktPayloadType pkt) = true →
      pktPayloadType pkt = payloadTypeGrpTxt ∨ pktPayloadType pkt = payloadTypeGrpData := by
    intro hg
    simpa [isGroupType] using hg
  cases h with
  | advert _ ht => exact .inl ht
  | channel _ hg => exact .inr (hgroup hg)
  | region _ hg => exact .inr (hgroup hg)

/-- A sender the policy let through is not blacklisted, when the text decrypts. -/
theorem publicVerdict_forward {C : Crypto} {cfg : McConfig} {src : MeshSrc} {pkt : McPacket}
    {ch : McPubChannel} {sender : Bytes} (hpay : pkt.payload.length ≤ mcMaxPacketPayload)
    (hlen : 19 ≤ pkt.payload.length) (htype : pktPayloadType pkt = payloadTypeGrpTxt)
    (hblocks : (pkt.payload.length - 3) % 16 = 0)
    (h : publicVerdict C cfg src pkt ch = (.forward, sender)) :
    configIsBlacklisted cfg (channelSender C ch pkt.payload) = false := by
  unfold mcMaxPacketPayload at hpay
  have hdec : channelDecrypt C ch pkt mcMaxPacketPayload =
      some (aes128EcbDecrypt C ch.secret.bytes (pkt.payload.drop 3)) := by
    unfold channelDecrypt
    rw [if_neg (by omega)]
    simp only [List.length_drop, mcMaxPacketPayload]
    rw [if_neg (by omega)]
  have hplain : groupPlain C pkt ch =
      some (aes128EcbDecrypt C ch.secret.bytes (pkt.payload.drop 3)) := by
    have hlong : 5 ≤ (aes128EcbDecrypt C ch.secret.bytes (pkt.payload.drop 3)).length := by
      rw [aes128EcbDecrypt, length_ecbBlocks, List.length_drop]
      omega
    simp [groupPlain, htype, hdec, hlong]
  unfold publicVerdict at h
  rw [hplain] at h
  simp only at h
  split at h
  · cases h
  · rename_i hblack
    simpa [channelSender] using hblack

/-- Whatever goes on to the relay is licensed. -/
theorem licensed_of_recvVerdict {C : Crypto} {cfg : McConfig} {src : MeshSrc} {pkt : McPacket}
    {names : Bytes × Bytes} (hpay : pkt.payload.length ≤ mcMaxPacketPayload)
    (h : recvVerdict C cfg src pkt = .ok names) : Licensed C cfg pkt := by
  obtain ⟨-, htrace, hpol, hadv⟩ := recvVerdict_ok h
  unfold policyVerdict at hpol
  split at hpol
  · -- on a channel we hold
    rename_i ch hclass
    obtain ⟨hgroup, hlen, hch, hproves⟩ := classifyForward_okGrpPublic hclass
    simp only [channelProves, channelMac, Bool.and_eq_true, beq_iff_eq] at hproves
    split at hpol
    · cases hpol
    · cases hpol
    · rename_i hverdict
      exact .channel ch hgroup hlen hch hproves.1 hproves.2.symm fun htype hblocks =>
        publicVerdict_forward hpay hlen htype hblocks hverdict
  · -- tagged for a room
    rename_i hclass
    obtain ⟨hgroup, hroute, room, hroom, hcode⟩ := classifyForward_okRegion hclass
    exact .region room hgroup hroute hroom hcode.symm
  · -- public by its type, and no trace
    rename_i hclass
    have htype := (classifyForward_okPublic hclass).resolve_right htrace
    have hname := hadv htype
    unfold advertVerdict at hname
    split at hname
    · cases hname
    rename_i pub hsig
    split at hname
    · cases hname
    rename_i hblocked
    simp only [advertBlocked, Bool.not_eq_true, Bool.or_eq_false_iff] at hblocked
    exact .advert pub htype hsig hblocked.1 hblocked.2
  · cases hpol

theorem licensed_of_accepted {C : Crypto} {m : McMesh} {pkt : McPacket} {power : Int}
    (hpay : pkt.payload.length ≤ mcMaxPacketPayload) (h : accepted C m pkt = some power) :
    Licensed C m.cfg pkt := by
  unfold accepted at h
  split at h
  · cases h
  · rename_i hverdict
    exact licensed_of_recvVerdict hpay hverdict

/-! ## The relay entry of a call -/

/-- A call put a relay entry into slot `i`. -/
def AddsRelay (m m' : McMesh) (i : Fin meshTxqSize) : Prop :=
  (m.txq i).used = false ∧ (m'.txq i).used = true ∧ (m'.txq i).own = false

instance (m m' : McMesh) (i : Fin meshTxqSize) : Decidable (AddsRelay m m' i) :=
  inferInstanceAs (Decidable (_ ∧ _ ∧ _))

/-- The relayed packet differs from the received one in its path only. -/
theorem relayCopy_spec {id : McIdentity} {pkt out : McPacket} (h : relayCopy id pkt = some out) :
    out.header = pkt.header ∧ out.transportCodes = pkt.transportCodes ∧
      out.payload = pkt.payload := by
  unfold relayCopy at h
  split at h
  · split at h <;> cases h
    exact ⟨rfl, rfl, rfl⟩
  · split at h <;> cases h
    exact ⟨rfl, rfl, rfl⟩

section
variable {C : Crypto} {hal : Hal} {m m' : McMesh} {raw : Bytes} {rssiDbm snrQ : Int} {v : MeshRx}

/-- A queued slot was free at the start of the call, and it alone takes a relay
entry. -/
theorem addsRelay_iff {k : Nat} {pkt : McPacket} {m₀ m₁ : McMesh} {e : MeshTxEntry}
    (htxq : m₀.txq = m.txq) (hheard : Heard C hal pkt k m₀ m₁) (hq : Queued m₁ m' e)
    (hused : e.used = true) (hown : e.own = false) :
    ∃ i, m'.txq i = e ∧ ∀ j, AddsRelay m m' j ↔ j = i := by
  obtain ⟨i, hslot, hupd⟩ := hq.slot
  refine ⟨i, by simp [hupd], ?_⟩
  intro j
  by_cases hj : j = i
  · subst hj
    have hfree : (m.txq j).used = false := by
      have hfree₁ := freeSlot_some hslot
      rcases hheard.txq j with heq | ⟨-, hused₁, -⟩
      · rw [← htxq, ← heq, hfree₁]
      · rw [hfree₁] at hused₁
        cases hused₁
    simp [AddsRelay, hupd, hfree, hused, hown]
  · -- any other slot that was filled holds an own packet
    have hsame : m'.txq j = m₁.txq j := by simp [hupd, hj]
    simp only [AddsRelay, hsame, ← htxq, hj, iff_false]
    rintro ⟨hfree, hused', hown'⟩
    rcases hheard.txq j with heq | ⟨-, -, hownTrue⟩
    · rw [heq, hfree] at hused'
      cases hused'
    · rw [hown'] at hownTrue
      cases hownTrue

/-- Without a relay only own packets are queued. -/
theorem not_addsRelay {k : Nat} {pkt : McPacket} {m₀ m₁ : McMesh} (htxq : m₀.txq = m.txq)
    (hheard : Heard C hal pkt k m₀ m₁) (hkept : m'.txq = m₁.txq) (j : Fin meshTxqSize) :
    ¬ AddsRelay m m' j := by
  rintro ⟨hfree, hused, hown⟩
  rw [hkept] at hused hown
  rw [← htxq] at hfree
  rcases hheard.txq j with heq | ⟨-, -, hownTrue⟩
  · rw [heq, hfree] at hused
    cases hused
  · rw [hown] at hownTrue
    cases hownTrue

/-- A relay entry is the copy of the packet that came in, at the power it was accepted
for. -/
theorem Outcome.relayQueued (h : Outcome C hal m raw rssiDbm snrQ m' v) {i : Fin meshTxqSize}
    (hadd : AddsRelay m m' i) :
    ∃ pkt, pktParse raw = .ok pkt ∧
      accepted C m (pkt.heardAt rssiDbm snrQ) = some (m'.txq i).powerDbm ∧
      relayCopy m.id (pkt.heardAt rssiDbm snrQ) = some (m'.txq i).pkt := by
  have hnone : ∀ pkt, Heard C hal pkt 0 m m := fun _ => .refl 0 m
  cases h with
  | malformed _ _ hn => exact absurd hadd (not_addsRelay rfl (hnone McPacket.zero) hn.txq i)
  | duplicate pkt _ _ hn => exact absurd hadd (not_addsRelay rfl (hnone pkt) hn.txq i)
  | refused _ _ _ _ hrec hheard => exact absurd hadd (not_addsRelay hrec.txq hheard rfl i)
  | relayed pkt m₀ m₁ power v hparse hrec hheard hacc hrelay =>
    have hid : m₁.id = m.id := hheard.id.trans (congrArg MeshFixed.id hrec.fixed)
    refine ⟨pkt, hparse, ?_⟩
    rw [← hid]
    cases hcopy : relayCopy m₁.id (pkt.heardAt rssiDbm snrQ) with
    | none =>
      have hkept := (relay_of_none hal m₁ _ power hcopy).2.1
      rw [hrelay] at hkept
      exact absurd hadd (not_addsRelay hrec.txq hheard hkept.txq i)
    | some out =>
      rcases relay_of_some hal m₁ _ power hcopy with ⟨-, -, hn⟩ | ⟨-, -, due, hq⟩
      · rw [hrelay] at hn
        exact absurd hadd (not_addsRelay hrec.txq hheard hn.txq i)
      · -- the one entry queued is the relay's
        rw [hrelay] at hq
        obtain ⟨j, hj, hiff⟩ := addsRelay_iff hrec.txq hheard hq rfl rfl
        rw [(hiff i).mp hadd, hj]
        exact ⟨hacc, rfl⟩

/-- What the content policy promises of one call. -/
structure PolicyKept (C : Crypto) (m : McMesh) (raw : Bytes) (m' : McMesh) (v : MeshRx) : Prop where
  /-- queued entries stay -/
  kept : ∀ i, (m.txq i).used = true → m'.txq i = m.txq i
  /-- at most one relay entry is added -/
  unique : ∀ i j, AddsRelay m m' i → AddsRelay m m' j → i = j
  /-- it carries the received packet, and that is licensed -/
  licensed : ∀ i, AddsRelay m m' i → ∃ pkt, pktParse raw = .ok pkt ∧
    (m'.txq i).pkt.header = pkt.header ∧ (m'.txq i).pkt.transportCodes = pkt.transportCodes ∧
    (m'.txq i).pkt.payload = pkt.payload ∧ Licensed C m.cfg pkt ∧
    (pktPayloadType pkt = payloadTypeAdvert ∨ pktPayloadType pkt = payloadTypeGrpTxt ∨
      pktPayloadType pkt = payloadTypeGrpData)
  /-- the answer tells whether there is one -/
  forwarded : v = .forwarded ↔ ∃ i, AddsRelay m m' i

/-- Licences do not depend on the signal. -/
theorem Licensed.of_heardAt {cfg : McConfig} {pkt : McPacket}
    (h : Licensed C cfg (pkt.heardAt rssiDbm snrQ)) : Licensed C cfg pkt := by
  cases h with
  | advert pub ht hsig hb hk => exact .advert pub ht hsig hb hk
  | channel ch hg hl hch hh hm hs => exact .channel ch hg hl hch hh hm hs
  | region room hg hr hroom hc => exact .region room hg hr hroom hc

theorem Outcome.policyKept (h : Outcome C hal m raw rssiDbm snrQ m' v) :
    PolicyKept C m raw m' v := by
  have hnone : ∀ {m₀ m₁ k p}, m₀.txq = m.txq → Heard C hal p k m₀ m₁ → m'.txq = m₁.txq →
      v ≠ .forwarded → PolicyKept C m raw m' v := by
    intro m₀ m₁ k p htxq hheard hkept hv
    have hno := not_addsRelay htxq hheard hkept
    refine ⟨?_, fun i _ hi => absurd hi (hno i), fun i hi => absurd hi (hno i), ?_⟩
    · intro i hi
      rcases hheard.txq i with heq | ⟨hfree, -⟩
      · rw [hkept, heq, htxq]
      · rw [htxq, hi] at hfree
        cases hfree
    · exact ⟨fun hf => absurd hf hv, fun ⟨i, hi⟩ => absurd hi (hno i)⟩
  cases h with
  | malformed e _ hn =>
    exact hnone (p := McPacket.zero) (k := 0) rfl (.refl 0 m) hn.txq (by simp)
  | duplicate pkt _ _ hn => exact hnone (p := pkt) (k := 0) rfl (.refl 0 m) hn.txq (by simp)
  | refused pkt m₀ v _ hrec hheard _ hv =>
    refine hnone hrec.txq hheard rfl ?_
    rcases hv with rfl | rfl
    · simp
    · simp
  | relayed pkt m₀ m₁ power v hparse hrec hheard hacc hrelay =>
    have hwf := pktParse_wellFormed hparse
    have hlic' : Licensed C m.cfg (pkt.heardAt rssiDbm snrQ) :=
      licensed_of_accepted hwf.payload_le hacc
    have hlic := hlic'.of_heardAt
    cases hcopy : relayCopy m₁.id (pkt.heardAt rssiDbm snrQ) with
    | none =>
      obtain ⟨hres, hkept, -⟩ := relay_of_none hal m₁ _ power hcopy
      simp only [hrelay] at hres hkept
      exact hnone hrec.txq hheard hkept.txq (by simp [hres])
    | some out =>
      rcases relay_of_some hal m₁ _ power hcopy with ⟨-, hres, hn⟩ | ⟨-, hres, due, hq⟩
      · simp only [hrelay] at hres hn
        exact hnone hrec.txq hheard hn.txq (by simp [hres])
      simp only [hrelay] at hres hq
      obtain ⟨i, hi, hiff⟩ := addsRelay_iff hrec.txq hheard hq rfl rfl
      obtain ⟨hhead, hcodes, hpay⟩ := relayCopy_spec hcopy
      refine ⟨?_, ?_, ?_, fun _ => ⟨i, (hiff i).mpr rfl⟩, fun _ => hres⟩
      · intro j hj
        obtain ⟨i', hslot, hupd⟩ := hq.slot
        rcases hheard.txq j with heq | ⟨hfree, -⟩
        · have hne : j ≠ i' := by
            rintro rfl
            have hfree := freeSlot_some hslot
            rw [heq, hrec.txq, hj] at hfree
            cases hfree
          simp [hupd, hne, heq, hrec.txq]
        · rw [hrec.txq, hj] at hfree
          cases hfree
      · intro a b ha hb
        rw [(hiff a).mp ha, (hiff b).mp hb]
      · intro j hj
        rw [(hiff j).mp hj, hi]
        exact ⟨pkt, hparse, hhead, hcodes, hpay, hlic, hlic.type⟩

end

/-- Both entry points keep the content policy, in every state and for every byte
string. -/
theorem receive_policyKept (C : Crypto) (hal : Hal) (m : McMesh) (raw : Bytes) (entry : Entry) :
    PolicyKept C m raw (receive C hal m raw entry).1 (receive C hal m raw entry).2 := by
  obtain ⟨m', houtcome, src, heq⟩ := receive_outcome C hal m raw entry
  have h := houtcome.policyKept
  rw [heq]
  cases entry with
  | rf rssiDbm snrQ => exact ⟨h.kept, h.unique, h.licensed, h.forwarded⟩
  | hub => exact ⟨h.kept, h.unique, h.licensed, h.forwarded⟩

end Meshcore
