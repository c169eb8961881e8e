import MeshcoreRepeater.Backbone.RateLimit
import MeshcoreRepeater.Mesh.Hub

/-! # Room for RF in the TX queue

A FRAME is let into a queue with 8 free slots or more, and may take one of them. So it
leaves 8 exactly if there were not just 8 (`frame_headroom_iff`).

* `onFrame_mesh`: what `on_frame` hands to the mesh.
* `meshOnBackbone_entry`: a relay takes one slot.
* `frame_headroom_iff`: when 8 slots are left.
-/

namespace Meshcore

set_option maxRecDepth 8000

open ByteLib

/-! ## The mesh of a client -/

section
variable (C : Crypto) (p : BbHal)

/-- A datagram does not touch the mesh. -/
@[simp] theorem sendRaw_mesh (bb : McBackbone) (d : Bytes) : (sendRaw p bb d).mesh = bb.mesh := by
  obtain ⟨es, n, heq, -⟩ := sendRaw_eq p bb d
  rw [heq]

/-- Nor does a sealed one. -/
@[simp] theorem sendSession_mesh (bb : McBackbone) (type : UInt8) (body : Bytes) :
    (sendSession C p bb type body).mesh = bb.mesh := by
  unfold sendSession
  simp only
  split
  · exact sendRaw_mesh p _ _
  · rfl

/-- Nor does an OBSERVE. -/
@[simp] theorem backboneObserve_mesh (bb : McBackbone) (frame : Bytes) (rssi snrQ : Int) (flags : UInt8)
    (disposition : Int) : (backboneObserve C p bb frame rssi snrQ flags disposition).mesh = bb.mesh := by
  rcases backboneObserve_sends C p bb frame rssi snrQ flags disposition with h | ⟨-, body, -, h⟩
  · rw [h]
  · rw [h]
    exact sendSession_mesh C p bb bbTObserve body

/-- Nor does a BRIDGE. -/
@[simp] theorem backboneOffer_mesh (bb : McBackbone) (frame : Bytes) (own : Bool) :
    (backboneOffer C p bb frame own).mesh = bb.mesh := by
  rcases backboneOffer_sends C p bb frame own with h | ⟨-, body, -, h⟩
  · rw [h]
  · rw [h]
    exact sendSession_mesh C p bb bbTBridge body

/-- The mesh is left by its run as the run left it. -/
theorem meshRan_mesh (bb : McBackbone) (m : McMesh) : (meshRan C p bb m).mesh = some m := by
  -- asking for a STATUS neither
  have hsoon : ∀ b, (backboneStatusSoon b).mesh = b.mesh := by
    intro b
    unfold backboneStatusSoon
    split
    · rfl
    · rfl
  exact meshRan_induct (P := fun a b => b.mesh = a.mesh) (fun _ => rfl) (fun h h' => h'.trans h)
    (backboneOffer_mesh C p) hsoon bb m

/-- The frame of a FRAME's body. -/
def frameOf (body : Bytes) : Bytes := (body.drop 10).take (body.getD 1 0).toNat

/-- `on_frame` hands the frame on: the role is granted, the body is well formed, and the
bucket and the queue admit it. -/
structure Admits (R : Reading) (bb : McBackbone) (now : Nat) (body : Bytes) : Prop where
  role : bb.roles &&& bbRoleBridge ≠ 0
  header : 10 ≤ body.length
  some : body.getD 1 0 ≠ 0
  whole : 10 + (body.getD 1 0).toNat ≤ body.length
  token : 1 ≤ refill R bb now
  room : txqRoom bb = true

/-- Then the mesh handles it, and else stays as it was. -/
theorem onFrame_mesh (R : Reading) (bb : McBackbone) (now : Nat) (body : Bytes) {m : McMesh} (hmesh : bb.mesh = some m) :
    (Admits R bb now body ∧ (onFrame C R p bb now body).mesh =
        some (meshOnBackbone C p.toHal m.clearEvents (frameOf body)).1) ∨
      (¬Admits R bb now body ∧ (onFrame C R p bb now body).mesh = some m) := by
  unfold onFrame
  split
  · rename_i hbad
    refine Or.inr ⟨fun h => ?_, hmesh⟩
    rcases hbad with hrole | hlen | hzero | hwhole
    · exact h.role hrole
    · exact absurd h.header (not_le.mpr hlen)
    · exact h.some hzero
    · exact absurd h.whole (not_le.mpr hwhole)
  rename_i hgood
  simp only [not_or, not_lt] at hgood
  simp only
  split
  · rename_i hlimit
    refine Or.inr ⟨fun h => ?_, ?_⟩
    · rcases hlimit with htoken | hroom
      · exact absurd h.token (not_le.mpr htoken)
      · have hsame : txqRoom (bb.setTokens (refill R bb now) now) = txqRoom bb := rfl
        rw [hsame, h.room] at hroom
        cases hroom
    · rw [backboneObserve_mesh]
      exact hmesh
  rename_i hpaid
  simp only [not_or, not_lt, Bool.not_eq_false] at hpaid
  refine Or.inl ⟨⟨hgood.1, hgood.2.1, hgood.2.2.1, hgood.2.2.2, hpaid.1, hpaid.2⟩, ?_⟩
  -- both ways of handing on give the mesh the same frame
  have hhand : ∀ b : McBackbone, b.mesh = some m →
      (handFrame C p b (frameOf body)).1.mesh =
        some (meshOnBackbone C p.toHal m.clearEvents (frameOf body)).1 := by
    intro b hb
    unfold handFrame
    rw [hb]
    exact meshRan_mesh C p b _
  have hframe : (body.drop 10).take (body.getD 1 0).toNat = frameOf body := rfl
  rw [hframe]
  split
  · exact hhand _ hmesh
  · rw [backboneObserve_mesh]
    exact hhand _ hmesh

end

/-! ## What a hub frame queues -/

/-- A slot of the queue was filled. -/
def AddsEntry (m m' : McMesh) : Prop := ∃ i, (m.txq i).used = false ∧ (m'.txq i).used = true

/-- The mesh relays a frame of the hub: it is new, policy and scope accept it, its path has
a place for this node, and the node is not silent. -/
def RelaysFromHub (C : Crypto) (hal : Hal) (m : McMesh) (raw : Bytes) : Prop :=
  ∃ pkt, pktParse raw = .ok pkt ∧ pktCalcHash C pkt ∉ m.seen ∧
    (accepted C { m with rxSrc := .backbone } (pkt.heardAt monViaBackbone 0)).isSome = true ∧
    (relayCopy m.id (pkt.heardAt monViaBackbone 0)).isSome = true ∧ meshRfSilent m hal.millis = false

/-- What was noted before does not matter to it. -/
theorem relaysFromHub_clearEvents {C : Crypto} {hal : Hal} {m : McMesh} {raw : Bytes} :
    RelaysFromHub C hal m.clearEvents raw ↔ RelaysFromHub C hal m raw := by
  have hsame : ∀ pkt, accepted C { m.clearEvents with rxSrc := .backbone } pkt =
      accepted C { m with rxSrc := .backbone } pkt := fun pkt => accepted_congr rfl rfl rfl
  simp only [RelaysFromHub, hsame]
  rfl

/-- One slot is filled when the frame is relayed and there is one, and none else. -/
theorem meshOnBackbone_entry (C : Crypto) (hal : Hal) (m : McMesh) (raw : Bytes)
    (hfree : freeSlot m.txq ≠ none) :
    (RelaysFromHub C hal m raw ∧ AddsEntry m (meshOnBackbone C hal m raw).1 ∧
        meshTxqFree m = meshTxqFree (meshOnBackbone C hal m raw).1 + 1) ∨
      (¬RelaysFromHub C hal m raw ∧ (meshOnBackbone C hal m raw).1.txq = m.txq) := by
  have hback : (meshOnBackbone C hal m raw).1.txq =
      (meshOnRecv C hal { m with rxSrc := .backbone } raw monViaBackbone 0).1.txq := rfl
  cases hparse : pktParse raw with
  | error e =>
    refine Or.inr ⟨?_, ?_⟩
    · rintro ⟨pkt, hok, -⟩
      rw [hparse] at hok
      cases hok
    · rw [hback]
      exact (meshOnRecv_of_error C hal { m with rxSrc := .backbone } raw monViaBackbone 0 hparse).2.txq
  | ok pkt =>
    by_cases hseen : pktCalcHash C pkt ∈ m.seen
    · refine Or.inr ⟨?_, ?_⟩
      · rintro ⟨pkt', hok, hnew, -⟩
        rw [hparse] at hok
        cases hok
        exact hnew hseen
      · rw [hback]
        exact (meshOnRecv_of_mem C hal { m with rxSrc := .backbone } raw monViaBackbone 0 hparse hseen).2.txq
    obtain ⟨m₁, hfixed, htxq, hcase⟩ := meshOnRecv_hub_new C hal (m := { m with rxSrc := .backbone }) raw
      monViaBackbone 0 rfl hparse hseen
    -- a new frame is remembered; identity and clock are the old ones
    have hid : m₁.id = m.id := congrArg MeshFixed.id hfixed
    have hsilent : meshRfSilent m₁ hal.millis = meshRfSilent m hal.millis := meshRfSilent_congr hfixed _
    rcases hcase with ⟨hnone, hsame⟩ | ⟨power, hsome, hrelay⟩
    · refine Or.inr ⟨?_, hback.trans hsame⟩
      rintro ⟨pkt', hok, -, haccepted, -⟩
      rw [hparse] at hok
      cases hok
      rw [hnone] at haccepted
      cases haccepted
    rw [hrelay] at hback
    cases hcopy : relayCopy m₁.id (pkt.heardAt monViaBackbone 0) with
    | none =>
      refine Or.inr ⟨?_, hback.trans ((relay_of_none hal m₁ _ power hcopy).2.1.txq.trans htxq)⟩
      rintro ⟨pkt', hok, -, -, hcopy', -⟩
      rw [hparse] at hok
      cases hok
      rw [← hid, hcopy] at hcopy'
      cases hcopy'
    | some out =>
      rcases relay_of_some hal m₁ _ power hcopy with ⟨hwhy, -, hn⟩ | ⟨hloud, -, due, hq⟩
      · refine Or.inr ⟨?_, hback.trans (hn.txq.trans htxq)⟩
        rintro ⟨pkt', hok, -, -, -, hloud⟩
        rcases hwhy with hquiet | hfull
        · rw [hsilent, hloud] at hquiet
          cases hquiet
        · rw [htxq] at hfull
          exact hfree hfull
      · refine Or.inl ⟨⟨pkt, hparse, hseen, by rw [hsome]; rfl, by rw [← hid, hcopy]; rfl,
          hsilent.symm.trans hloud⟩, ?_, ?_⟩
        · obtain ⟨i, hslot, hupd⟩ := hq.slot
          refine ⟨i, ?_, ?_⟩
          · rw [← freeSlot_some hslot, htxq]
          · rw [hback, hupd, Function.update_self]
        -- the relay takes one slot
        · have hone := hq.meshTxqFree rfl
          rw [meshTxqFree_congr htxq] at hone
          rw [meshTxqFree_congr hback]
          exact hone

/-! ## The headroom -/

/-- A FRAME that fills a slot leaves 8 free ones, exactly if it is not the case that just 8
are free and `on_frame` admits a frame that the mesh relays. -/
theorem frame_headroom_iff (C : Crypto) (R : Reading) (p : BbHal) (bb : McBackbone) (now : Nat) (body : Bytes)
    (m : McMesh) (hmesh : bb.mesh = some m) :
    (∀ m', (onFrame C R p bb now body).mesh = some m' → AddsEntry m m' → 8 ≤ meshTxqFree m') ↔
      ¬(meshTxqFree m = 8 ∧ Admits R bb now body ∧ RelaysFromHub C p.toHal m (frameOf body)) := by
  -- a queue that is as before has no new entry
  have hnot : ∀ {m' : McMesh}, m'.txq = m.txq → ¬AddsEntry m m' := by
    rintro m' htxq ⟨i, hunused, hused⟩
    rw [htxq, hunused] at hused
    cases hused
  rcases onFrame_mesh C p R bb now body hmesh with ⟨hadmits, hafter⟩ | ⟨hrefuses, hafter⟩
  -- admitted, so there are eight
  · have hroom : 8 ≤ meshTxqFree m := by
      have hroom := hadmits.room
      rw [txqRoom, hmesh] at hroom
      exact of_decide_eq_true hroom
    have hfree : freeSlot m.txq ≠ none := by
      intro hnone
      rw [← meshTxqFree_eq_zero] at hnone
      omega
    rw [hafter]
    rcases meshOnBackbone_entry C p.toHal m.clearEvents (frameOf body) hfree with
      ⟨hrelays, hadds, hcount⟩ | ⟨hrelays, htxq⟩ <;> rw [relaysFromHub_clearEvents] at hrelays
    · have hcount : meshTxqFree m = meshTxqFree (meshOnBackbone C p.toHal m.clearEvents (frameOf body)).1 + 1 :=
        hcount
      constructor
      · rintro h ⟨height, -⟩
        have := h _ rfl hadds
        omega
      · rintro h m' hm' -
        cases hm'
        -- one less is enough, unless there were just eight
        have hne : meshTxqFree m ≠ 8 := fun height => h ⟨height, hadmits, hrelays⟩
        omega
    · refine iff_of_true ?_ fun h => hrelays h.2.2
      rintro m' hm' hadds
      cases hm'
      exact absurd hadds (hnot htxq)
  · rw [hafter]
    refine iff_of_true ?_ fun h => hrefuses h.2.1
    rintro m' hm' hadds
    cases hm'
    exact absurd hadds (hnot rfl)

/-- Sixteen adverts of its own are queued before the session comes up. -/
def crowdedRun : List BbInput :=
  List.replicate 16 (.mesh (.calm 900) (.sendAdvert (.still 900))) ++
    (pairAttempt ++ [.datagram (.calm 1100) 1100 bridgeWelcome])

/-- The client after that. -/
def crowdedNode : McBackbone := bbRun bridgeCrypto bridgeNode crowdedRun

/-- The frame the hub sends it next. -/
def crowdedAfter : McBackbone := bbStep bridgeCrypto crowdedNode (.datagram (.calm 1200) 1200 bridgeFrame)

/-- With 8 slots free, a FRAME takes one and leaves 7. -/
theorem crowdedNode_leaves_seven :
    BbReachable bridgeCrypto crowdedNode ∧
      ∃ m m', crowdedNode.mesh = some m ∧ crowdedAfter.mesh = some m' ∧ meshTxqFree m = 8 ∧
        AddsEntry m m' ∧ meshTxqFree m' = 7 := by
  refine ⟨⟨bridgeConfig, nodeIdentity, _, 1000, crowdedRun, rfl⟩, ?_⟩
  have hbefore : crowdedNode.mesh.map (fun m => (meshTxqFree m, (m.txq 16).used)) = some (8, false) := by
    decide
  have hafter : crowdedAfter.mesh.map (fun m => (meshTxqFree m, (m.txq 16).used)) = some (7, true) := by
    decide
  obtain ⟨m, hm, heq⟩ := Option.map_eq_some_iff.mp hbefore
  obtain ⟨m', hm', heq'⟩ := Option.map_eq_some_iff.mp hafter
  simp only [Prod.mk.injEq] at heq heq'
  exact ⟨m, m', hm, hm', heq.1, ⟨16, heq.2, heq'.2⟩, heq'.1⟩

/-- The frame above, on both sides of the equivalence. -/
theorem frame_headroom_iff_crowded :
    ∃ m, crowdedNode.mesh = some m ∧
      ((∀ m', (onFrame bridgeCrypto.toCrypto bridgeCrypto.reading (.calm 1200) crowdedNode 1200 (bridgeFrameHead.drop 12)).mesh = some m' →
        AddsEntry m m' → 8 ≤ meshTxqFree m') ↔
      ¬(meshTxqFree m = 8 ∧ Admits bridgeCrypto.reading crowdedNode 1200 (bridgeFrameHead.drop 12) ∧
        RelaysFromHub bridgeCrypto.toCrypto (BbHal.calm 1200).toHal m (frameOf (bridgeFrameHead.drop 12)))) := by
  have hsome : crowdedNode.mesh.isSome = true := by decide
  obtain ⟨m, hm⟩ := Option.isSome_iff_exists.mp hsome
  exact ⟨m, hm, frame_headroom_iff bridgeCrypto.toCrypto bridgeCrypto.reading (.calm 1200) crowdedNode 1200 _ m hm⟩

end Meshcore
