import MeshcoreRepeater.Mesh.Policy

/-! # Path surgery

A FLOOD packet grows by this node's hash at the back of its path, a DIRECT packet
loses it from the front. The hop count shares a byte with the hash size, in a
field of six bits, while the room left is counted in bytes: the two agree for all
paths but one, that of 63 one-byte hops.

* `appendOwnHash_pathGrown`: below 63 hops a relayed copy is one hop further.
* `floodHasRoom_iff`, `relayFlood_full`: the room, and a path that is full.
* `receive_growthKept_iff`: every call.
-/

namespace Meshcore

set_option maxRecDepth 8000

open ByteLib

/-! ## Growing a path -/

theorem pktPathHashCount_lt (pkt : McPacket) : pktPathHashCount pkt < 64 :=
  pathHashCount_lt pkt.pathLen

theorem toNat_ofNat_count {n : Nat} (h : n ≤ 64) : (UInt8.ofNat n).toNat = n := by
  rw [UInt8.toNat_ofNat']
  omega

/-- The count field takes the new count modulo 64. -/
theorem appendOwnHash_count (id : McIdentity) (pkt : McPacket) :
    pktPathHashCount (appendOwnHash id pkt) = (pktPathHashCount pkt + 1) % 64 := by
  have hlt := pktPathHashCount_lt pkt
  unfold appendOwnHash pktSetPathHashCount
  simp only [pktPathHashCount] at hlt ⊢
  rw [pathHashCount_set, toNat_ofNat_count (by omega)]

@[simp] theorem appendOwnHash_size (id : McIdentity) (pkt : McPacket) :
    pktPathHashSize (appendOwnHash id pkt) = pktPathHashSize pkt :=
  pathHashSize_set pkt.pathLen _

theorem length_mcIdentityCopyHash (id : McIdentity) {len : Nat} (h : len ≤ 32) :
    (mcIdentityCopyHash id len).length = len :=
  Buf.length_read id.pub 0 len (by omega)

/-- Below 63 hops the path is the old one with this node's hash behind it. -/
theorem appendOwnHash_pathBytes {id : McIdentity} {pkt : McPacket}
    (hcount : pktPathHashCount pkt + 1 < 64) (hsize : pktPathHashSize pkt ≤ 3)
    (hroom : (pktPathHashCount pkt + 1) * pktPathHashSize pkt ≤ 64) :
    (appendOwnHash id pkt).pathBytes = pkt.pathBytes ++ mcIdentityCopyHash id (pktPathHashSize pkt) := by
  have hlen := length_mcIdentityCopyHash id (show pktPathHashSize pkt ≤ 32 by omega)
  have hseam : pktPathByteLen pkt + (mcIdentityCopyHash id (pktPathHashSize pkt)).length =
      (pktPathHashCount pkt + 1) * pktPathHashSize pkt := by
    rw [hlen, pktPathByteLen, Nat.succ_mul]
  have hbyte : pktPathByteLen (appendOwnHash id pkt) =
      pktPathByteLen pkt + (mcIdentityCopyHash id (pktPathHashSize pkt)).length := by
    rw [hseam, pktPathByteLen, appendOwnHash_count, appendOwnHash_size, Nat.mod_eq_of_lt hcount]
  rw [McPacket.pathBytes, hbyte]
  exact Buf.read_blit_append pkt.path (pktPathByteLen pkt) _ (by omega)

/-- `out` is the packet one hop further: one more hash, of this node, behind the
path it came by. -/
structure PathGrown (id : McIdentity) (pkt out : McPacket) : Prop where
  count : pktPathHashCount out = pktPathHashCount pkt + 1
  size : pktPathHashSize out = pktPathHashSize pkt
  bytes : out.pathBytes = pkt.pathBytes ++ mcIdentityCopyHash id (pktPathHashSize pkt)
  fits : pktPathByteLen out ≤ mcMaxPathSize

/-- Below 63 hops, with room in the buffer, the relay's copy is one hop further. -/
theorem appendOwnHash_pathGrown (id : McIdentity) {pkt : McPacket}
    (hcount : pktPathHashCount pkt + 1 < 64) (hsize : pktPathHashSize pkt ≤ 3)
    (hroom : (pktPathHashCount pkt + 1) * pktPathHashSize pkt ≤ 64) :
    PathGrown id pkt (appendOwnHash id pkt) where
  count := by rw [appendOwnHash_count, Nat.mod_eq_of_lt hcount]
  size := appendOwnHash_size id pkt
  bytes := appendOwnHash_pathBytes hcount hsize hroom
  fits := by rwa [pktPathByteLen, appendOwnHash_count, appendOwnHash_size, Nat.mod_eq_of_lt hcount]

/-- No packet has more than 63 hops, or more than 64 bytes of path. -/
theorem PathGrown.bounds {id : McIdentity} {pkt out : McPacket} (h : PathGrown id pkt out) :
    pktPathHashCount pkt + 1 < 64 ∧ (pktPathHashCount pkt + 1) * pktPathHashSize pkt ≤ 64 := by
  have hcount := pktPathHashCount_lt out
  have hfits := h.fits
  rw [pktPathByteLen, h.count, h.size] at hfits
  rw [h.count] at hcount
  exact ⟨hcount, hfits⟩

/-! ## Growth over a call -/

/-- A FLOOD packet off the wire is never marked do-not-retransmit. -/
theorem McPacket.WellFormed.not_dnr {pkt : McPacket} (h : pkt.WellFormed)
    (hflood : pktIsRouteFlood pkt = true) : pkt.markedDnr = false := by
  rw [h.dnr, beq_eq_false_iff_ne]
  intro hhead
  rw [pktIsRouteFlood, pktRouteType, hhead] at hflood
  exact absurd hflood (by decide)

/-- The room is counted in bytes. -/
theorem floodHasRoom_iff {pkt : McPacket} (hdnr : pkt.markedDnr = false) :
    floodHasRoom pkt = true ↔ (pktPathHashCount pkt + 1) * pktPathHashSize pkt ≤ 64 := by
  simp only [floodHasRoom, hdnr, Bool.not_false, Bool.true_and, decide_eq_true_eq]
  rfl

/-- The packet is new, and policy and scope accept it. -/
def ReachesRelay (C : Crypto) (m : McMesh) (pkt : McPacket) : Prop :=
  pktCalcHash C pkt ∉ m.seen ∧ (accepted C m pkt).isSome = true

/-- The packet was dropped for want of room in its path. -/
structure DroppedPathFull (m m' : McMesh) (pkt : McPacket) (v : MeshRx) : Prop where
  verdict : v = .localOnly
  none_added : ∀ i, ¬ AddsRelay m m' i
  counted : m'.stats.fwdDropped = m.stats.fwdDropped + 1
  shown : m.mon.isSome = true →
    Event.monDrop (pktPayloadType pkt) (lit "path full") (monChanHash pkt) ∈ m'.events

/-- What a call is to do with the path of a FLOOD packet `pkt`. -/
structure GrowthKept (C : Crypto) (m : McMesh) (pkt : McPacket) (m' : McMesh) (v : MeshRx) : Prop where
  grown : ∀ i, AddsRelay m m' i → PathGrown m.id pkt (m'.txq i).pkt
  full : ReachesRelay C m pkt → (¬ ∃ out, PathGrown m.id pkt out) → DroppedPathFull m m' pkt v

/-- The one path whose length the two bounds disagree on. -/
def WrapsCount (pkt : McPacket) : Prop := pktPathHashCount pkt = 63 ∧ pktPathHashSize pkt = 1

section
variable {C : Crypto} {hal : Hal} {m m' : McMesh} {raw : Bytes} {rssiDbm snrQ : Int} {v : MeshRx}

/-- A full path is dropped, counted and shown. -/
theorem relayFlood_full (hal : Hal) {pkt : McPacket} (power : Int) (hroom : floodHasRoom pkt = false)
    (hdnr : pkt.markedDnr = false) (hmon : m.mon.isSome = true) :
    Event.monDrop (pktPayloadType pkt) (lit "path full") (monChanHash pkt) ∈
      (relayFlood hal m pkt power).1.events := by
  simp [relayFlood, hroom, hdnr, monPktDrop, McMesh.monitor, McMesh.bump, hmon, McMesh.emit]

/-- The path of a FLOOD packet is handled as it should be, except when the count
field wraps. -/
theorem Outcome.growthKept_iff (h : Outcome C hal m raw rssiDbm snrQ m' v) {pkt : McPacket}
    (hparse : pktParse raw = .ok pkt) (hflood : pktIsRouteFlood pkt = true) :
    GrowthKept C m (pkt.heardAt rssiDbm snrQ) m' v ↔
      ¬ (ReachesRelay C m (pkt.heardAt rssiDbm snrQ) ∧ WrapsCount pkt) := by
  have hwf := pktParse_wellFormed hparse
  have hquiet : ∀ {m₀ m₁ k p}, m₀.txq = m.txq → Heard C hal p k m₀ m₁ → m'.txq = m₁.txq →
      ¬ ReachesRelay C m (pkt.heardAt rssiDbm snrQ) →
      (GrowthKept C m (pkt.heardAt rssiDbm snrQ) m' v ↔
        ¬ (ReachesRelay C m (pkt.heardAt rssiDbm snrQ) ∧ WrapsCount pkt)) := by
    intro m₀ m₁ k p htxq hheard hkept hno
    have hadd := not_addsRelay htxq hheard hkept
    exact ⟨fun _ hw => hno hw.1, fun _ => ⟨fun i hi => absurd hi (hadd i), fun hr => absurd hr hno⟩⟩
  cases h with
  | malformed e hbad _ =>
    rw [hparse] at hbad
    cases hbad
  | duplicate p hp hseen hn =>
    rw [hparse] at hp
    cases hp
    exact hquiet (p := pkt) (k := 0) rfl (.refl 0 m) hn.txq fun hr => hr.1 hseen
  | refused p m₀ v hp hrec hheard hacc _ =>
    rw [hparse] at hp
    cases hp
    refine hquiet hrec.txq hheard rfl fun hr => ?_
    have hsome := hr.2
    rw [hacc] at hsome
    cases hsome
  | relayed p m₀ m₁ power v hp hrec hheard hacc hrelay =>
    rw [hparse] at hp
    cases hp
    have hreach : ReachesRelay C m (pkt.heardAt rssiDbm snrQ) := ⟨hrec.absent, by rw [hacc]; rfl⟩
    have hid : m₁.id = m.id := hheard.id.trans (congrArg MeshFixed.id hrec.fixed)
    have hdrops : m₁.stats.fwdDropped = m.stats.fwdDropped := hheard.drops.trans hrec.drops
    have hdnr : (pkt.heardAt rssiDbm snrQ).markedDnr = false := hwf.not_dnr hflood
    have hflood' : pktIsRouteFlood (pkt.heardAt rssiDbm snrQ) = true := hflood
    have hsize : pktPathHashSize (pkt.heardAt rssiDbm snrQ) ≤ 3 := hwf.hashSize_le
    have hcount : pktPathHashCount (pkt.heardAt rssiDbm snrQ) < 64 := pktPathHashCount_lt _
    simp only [hreach, true_and]
    have hwraps : WrapsCount pkt ↔ WrapsCount (pkt.heardAt rssiDbm snrQ) := Iff.rfl
    rw [hwraps]
    generalize pkt.heardAt rssiDbm snrQ = p at *
    by_cases hroom : (pktPathHashCount p + 1) * pktPathHashSize p ≤ 64
    · have hcopy : relayCopy m₁.id p = some (appendOwnHash m.id p) := by
        simp [relayCopy, hflood', (floodHasRoom_iff hdnr).mpr hroom, hid]
      have hrefl := relay_of_some hal m₁ p power hcopy
      simp only [hrelay] at hrefl
      by_cases hfits : pktPathHashCount p + 1 < 64
      · -- the count fits its field: the copy is one hop further
        have hgrown := appendOwnHash_pathGrown m.id hfits hsize hroom
        refine ⟨fun _ hw => ?_, fun _ => ⟨?_, fun _ hno => absurd ⟨_, hgrown⟩ hno⟩⟩
        · have h63 := hw.1
          omega
        · intro i hi
          rcases hrefl with ⟨-, -, hn⟩ | ⟨-, -, due, hq⟩
          · exact absurd hi (not_addsRelay hrec.txq hheard hn.txq i)
          · obtain ⟨j, hj, hiff⟩ := addsRelay_iff hrec.txq hheard hq rfl rfl
            rw [(hiff i).mp hi, hj]
            exact hgrown
      · -- 63 one-byte hops: the copy is queued or refused, but not dropped
        have hwrap : WrapsCount p := by
          have h63 : pktPathHashCount p = 63 := by omega
          have hpos := pathHashSize_pos p.pathLen
          refine ⟨h63, ?_⟩
          rw [h63] at hroom
          simp only [pktPathHashSize] at hroom ⊢
          omega
        refine ⟨fun hkept => ?_, fun hno => absurd hwrap hno⟩
        have hfull : ¬ ∃ out, PathGrown m.id p out := by
          rintro ⟨out, hout⟩
          exact hfits hout.bounds.1
        have hcounted := (hkept.full hreach hfull).counted
        rcases hrefl with ⟨-, -, hn⟩ | ⟨-, -, due, hq⟩
        · rw [hn.drops, hdrops] at hcounted
          omega
        · rw [hq.drops, hdrops] at hcounted
          omega
    · -- no room in the buffer
      have hfull : floodHasRoom p = false := by
        rw [← Bool.not_eq_true, floodHasRoom_iff hdnr]
        exact hroom
      have hcopy : relayCopy m₁.id p = none := by simp [relayCopy, hflood', hfull]
      obtain ⟨hres, hkept, hcounted⟩ := relay_of_none hal m₁ p power hcopy
      simp only [hrelay, hflood', if_true] at hres hkept hcounted
      have hadd := not_addsRelay hrec.txq hheard hkept.txq
      refine ⟨fun _ hw => hroom (by rw [hw.1, hw.2]), fun _ => ⟨fun i hi => absurd hi (hadd i),
        fun _ _ => ⟨hres, hadd, by rw [hcounted, hdrops], ?_⟩⟩⟩
      intro hmon
      have hmon₀ : m₀.mon = m.mon := congrArg MeshFixed.mon hrec.fixed
      have hmon₁ : m₁.mon.isSome = true := by rwa [hheard.mon, hmon₀]
      have hshown := relayFlood_full hal power hfull hdnr hmon₁
      have hrelay' : relayFlood hal m₁ p power = (m', v) := by
        rwa [relay, if_pos hflood'] at hrelay
      rwa [hrelay'] at hshown

end

/-- How a call treats the path of a FLOOD packet, for both entry points. -/
theorem receive_growthKept_iff (C : Crypto) (hal : Hal) (m : McMesh) (raw : Bytes) (entry : Entry)
    {pkt : McPacket} (hparse : pktParse raw = .ok pkt) (hflood : pktIsRouteFlood pkt = true) :
    GrowthKept C (m.enter entry) (pkt.heardAt entry.rssiDbm entry.snrQ)
        (receive C hal m raw entry).1 (receive C hal m raw entry).2 ↔
      ¬ (ReachesRelay C (m.enter entry) (pkt.heardAt entry.rssiDbm entry.snrQ) ∧
        WrapsCount pkt) := by
  obtain ⟨m', houtcome, src, heq⟩ := receive_outcome C hal m raw entry
  have h := houtcome.growthKept_iff hparse hflood
  rw [heq, ← h]
  -- putting the source back changes nothing that is promised
  have hback : ∀ {a b : McMesh}, a.txq = b.txq → a.stats = b.stats → a.events = b.events →
      GrowthKept C (m.enter entry) (pkt.heardAt entry.rssiDbm entry.snrQ) a
        (receive C hal m raw entry).2 →
      GrowthKept C (m.enter entry) (pkt.heardAt entry.rssiDbm entry.snrQ) b
        (receive C hal m raw entry).2 := by
    intro a b htxq hstats hevents hk
    have hadd : ∀ i, AddsRelay (m.enter entry) b i ↔ AddsRelay (m.enter entry) a i := by
      intro i
      rw [AddsRelay, AddsRelay, htxq]
    refine ⟨fun i hi => htxq ▸ hk.grown i ((hadd i).mp hi), fun hr hi => ?_⟩
    have hd := hk.full hr hi
    exact ⟨hd.verdict, fun i h => hd.none_added i ((hadd i).mp h), hstats ▸ hd.counted,
      hevents ▸ hd.shown⟩
  exact ⟨hback rfl rfl rfl, hback rfl rfl rfl⟩

/-! ## The path that wraps -/

/-- The `#mesh` channel. -/
def meshChannel : McPubChannel where
  name := lit "#mesh"
  secret := Buf.ofBytes 32 (bytesBE 16 0x5b664cde0b08b220612113db980650f3)
  secretLen := 16
  hash := 0xB0
  derived := true
  hub := false

/-- The first and the second key block of HMAC-SHA256 under that channel's secret. -/
def meshIpad : Bytes := bytesBE 16 0x6d507ae83d3e8416571725edae3066c5 ++ List.replicate 48 0x36

def meshOpad : Bytes := bytesBE 16 0x073a10825754ee7c3d7d4f87c45a0caf ++ List.replicate 48 0x5c

def farCipher : Bytes := bytesBE 16 0x000102030405060708090a0b0c0d0e0f

/-- A FLOOD packet on `#mesh` that has come 63 hops of one byte each. -/
def farPacket : McPacket :=
  { McPacket.zero with
    header := 0x19
    pathLen := 63
    path := Buf.ofBytes 64 ((List.range 63).map fun i => UInt8.ofNat (0x40 + i))
    payload := [0xB0, 0xD8, 0xAD] ++ farCipher }

/-- The digests `farPacket` needs: two for its MAC, one for the dedup ring. -/
def farCrypto : Crypto := Crypto.ofTable
  [(meshIpad ++ farCipher,
    bytesBE 32 0xf92991538a6ba54e039c6ff355f5486204c69a2b31c5ae4a8f0cfce8fd2cf18f),
   (meshOpad ++ bytesBE 32 0xf92991538a6ba54e039c6ff355f5486204c69a2b31c5ae4a8f0cfce8fd2cf18f,
    bytesBE 32 0xd8adb4eb5b1ed8097384c0113260eec7b33eb5054d46a547e353722882cda79d),
   ([0x06, 0xB0, 0xD8, 0xAD] ++ farCipher,
    bytesBE 32 0xf8f86599db960f425a186c4e105ecf32b13e48c45975ce02ea3f03998a7b724e)] []

def farIdentity : McIdentity := ⟨Buf.ofBytes 32 [0xA1], Buf.zero 64, false⟩

/-- A repeater that has just started, on `#mesh`. -/
def farRepeater : McMesh :=
  meshInit (.still 0) farIdentity { configDefaults with publicChannels := [meshChannel] } false
    none false

def farFrame : Bytes :=
  farPacket.header :: farPacket.pathLen :: (farPacket.pathBytes ++ farPacket.payload)

/-- What the repeater does with it. -/
def farReceived : McMesh × MeshRx :=
  receive farCrypto (.still 1000) farRepeater farFrame (.rf (-90) 20)

theorem pktParse_farFrame : pktParse farFrame = .ok farPacket :=
  pktParse_of_onWire rfl (by decide)

/-- After 63 hops the count wraps to 0: the relayed copy has lost its path. -/
theorem farFrame_not_growthKept :
    Reachable farCrypto farRepeater ∧ pktParse farFrame = .ok farPacket ∧
      pktIsRouteFlood farPacket = true ∧ farReceived.2 = .forwarded ∧
      (farReceived.1.txq 0).pkt.pathBytes = [] ∧
      ¬ GrowthKept farCrypto farRepeater (farPacket.heardAt (-90) 20) farReceived.1
        farReceived.2 := by
  have hadd : AddsRelay farRepeater farReceived.1 0 := by decide
  have hpath : (farReceived.1.txq 0).pkt.pathLen = 0 := by decide
  have hcount : pktPathHashCount (farReceived.1.txq 0).pkt = 0 := by
    rw [pktPathHashCount, hpath]
    rfl
  refine ⟨⟨_, _, _, _, _, _, [], rfl⟩, pktParse_farFrame, rfl, by decide, ?_, ?_⟩
  · rw [McPacket.pathBytes, pktPathByteLen, hcount]
    simp [Buf.read]
  · intro h
    have hgrown := (h.grown 0 hadd).count
    rw [hcount] at hgrown
    exact absurd hgrown (Nat.zero_ne_add_one _)

theorem receive_growthKept_iff_far :
    GrowthKept farCrypto farRepeater (farPacket.heardAt (-90) 20) farReceived.1 farReceived.2 ↔
      ¬ (ReachesRelay farCrypto farRepeater (farPacket.heardAt (-90) 20) ∧ WrapsCount farPacket) :=
  receive_growthKept_iff farCrypto (.still 1000) farRepeater farFrame (.rf (-90) 20)
    pktParse_farFrame rfl

end Meshcore
