import MeshcoreRepeater.Mesh.Retrace
import MeshcoreRepeater.Mesh.Direct
import MeshcoreRepeater.Mesh.Step
import MeshcoreRepeater.Mesh.Texts
import Mathlib.Logic.Equiv.Basic

/-! # Commands and their replies over a chain of repeaters

The nodes of a chain are met twice: when the command passes, and, later and in
whatever state they are then, when the reply comes back.

* `PassesOn.relays`: one hop passes the reply on.
* `Carries.along`: a chain of them.
* `routedReply_retraces`: from the command to the end of the reply's way.
-/

namespace Meshcore

set_option maxRecDepth 8000

open ByteLib

/-! ## What the mailbox answers -/

/-- The texts `mbox_handle` sends. -/
def IsMboxReply (text : Bytes) : Prop :=
  ∃ (mb : McMbox) (sender : Bytes),
    text = snprintfS 160 (fetchReply mb sender) ∨ text = snprintfS 160 mboxHelpText

/-- Every one of them starts with the name of the service. -/
theorem IsMboxReply.start {text : Bytes} (h : IsMboxReply text) : ∃ rest, text = lit "mbox" ++ rest := by
  -- the cut to 160 bytes leaves the first four
  have hcut : ∀ (rest : Bytes) {s : Bytes}, s = lit "mbox" ++ rest →
      ∃ rest', snprintfS 160 s = lit "mbox" ++ rest' := by
    rintro rest s rfl
    exact ⟨rest.take 155, rfl⟩
  obtain ⟨mb, sender, rfl | rfl⟩ := h
  · obtain ⟨rest, heq⟩ := fetchReply_start mb sender
    exact hcut rest heq
  · exact hcut (lit ": leave a message with '@CALL text' (also flooded); send 'fetch' for yours") rfl

/-- The separator is found no later than where it was put. -/
theorem sepIndex_le (name rest : Bytes) :
    ∃ i ≤ name.length, sepIndex (name ++ 58 :: 32 :: rest) = some i := by
  induction name with
  | nil => exact ⟨0, le_rfl, rfl⟩
  | cons c name ih =>
    obtain ⟨i, hi, hsep⟩ := ih
    rw [List.cons_append, sepIndex.eq_def]
    split
    · exact ⟨0, Nat.zero_le _, rfl⟩
    · rename_i heq
      cases heq
      rw [hsep]
      exact ⟨i + 1, by simpa using hi, rfl⟩
    · rename_i heq
      cases heq

/-- A plaintext whose text is a mailbox reply. -/
theorem grpMessageBody_mbox {plain name rest : Bytes} (hlen : 5 ≤ plain.length)
    (htext : grpText plain = name ++ 58 :: 32 :: (lit "mbox" ++ rest)) :
    ∃ body, grpMessageBody plain = some body ∧ (98 : UInt8) ∈ body := by
  obtain ⟨i, hi, hsep⟩ := sepIndex_le name (lit "mbox" ++ rest)
  rw [← htext] at hsep
  refine ⟨(grpText plain).drop (i + 2), ?_, ?_⟩
  · unfold grpMessageBody
    rw [if_neg (by omega), hsep]
  · rw [htext, show name ++ 58 :: 32 :: (lit "mbox" ++ rest) =
      (name ++ [58, 32]) ++ (lit "mbox" ++ rest) by simp]
    -- the body still holds all of the text
    rw [List.drop_append_of_le_length (by simp; omega)]
    exact List.mem_append_right _ (List.mem_append_left _ (by decide))

/-! ## A repeater that only passes a message on -/

section
variable (C : Crypto) (hal : Hal) (m : McMesh) {pkt : McPacket}

/-- Without a mailbox, a body that is no `ping` and no `help` sends nothing. -/
theorem localServices_quiet (pkt : McPacket) (ch : McPubChannel) (sender : Bytes) {body : Bytes}
    (hping : isPing body = false) (hhelp : isWord body (lit "help") = false)
    (hmbox : m.cfg.mboxEnable = false) :
    Noted m (localServices C hal m pkt ch sender body).1 ∧
      (localServices C hal m pkt ch sender body).2 = true := by
  -- with the mailbox off nothing is a command of it
  have hno : isMboxCommand m.cfg pkt ch = false := by simp [isMboxCommand, hmbox]
  unfold localServices
  simp only [hping, hhelp, hno, Bool.and_false, Bool.false_eq_true, if_false]
  cases probeRequest m.cfg ch sender body with
  | some request => exact ⟨meshStartProbe_noted hal m ch request.1 request.2, rfl⟩
  | none =>
    simp only
    split
    · exact ⟨todArm_noted hal m ch true false, rfl⟩
    split
    · exact ⟨todArm_noted hal m ch false true, rfl⟩
    · exact ⟨.refl m, rfl⟩

/-- A group text it accepts and has no answer for goes to the relay, with the queue as
it was. -/
theorem recvFresh_passes {ch : McPubChannel} {plain body : Bytes} (hrole : m.cfg.role = .repeater)
    (hforward : m.cfg.forward = true) (hmbox : m.cfg.mboxEnable = false)
    (htype : pktPayloadType pkt = payloadTypeGrpTxt)
    (hclass : classifyForward C m.cfg pkt = .okGrpPublic ch)
    (hplain : groupPlain C pkt ch = some plain) (hbody : grpMessageBody plain = some body)
    (hblack : configIsBlacklisted m.cfg (grpSenderName plain mcBlacklistNameLen) = false)
    (hping : isPing body = false) (hhelp : isWord body (lit "help") = false) :
    ∃ m₁, Noted m m₁ ∧ recvFresh C hal m pkt = relay hal m₁ pkt m.cfg.txPower := by
  -- only a hotspot is woken
  have hwake : ∀ who, hotspotWake C hal m pkt who = m := by
    intro who
    simp [hotspotWake, wakesHotspot, hrole]
  -- on its channel nothing is answered
  have hpublic : ∃ m₁, Noted m m₁ ∧
      processPublicGrp C hal m pkt ch = (m₁, .forward, grpSenderName plain mcBlacklistNameLen) := by
    unfold processPublicGrp
    simp only [hplain, hblack, Bool.false_eq_true, if_false, hwake, hbody]
    have hshown := Noted.monitor m (e := .monPublic ch.name (grpText plain) pkt.rssiDbm pkt.snrQ) trivial
    generalize m.monitor (.monPublic ch.name (grpText plain) pkt.rssiDbm pkt.snrQ) = m₀ at hshown
    by_cases hsrc : m₀.rxSrc = .backbone
    · exact ⟨m₀, hshown, by rw [if_pos hsrc]⟩
    · obtain ⟨hquiet, htrue⟩ := localServices_quiet C hal m₀ pkt ch
        (grpSenderName plain mcBlacklistNameLen) hping hhelp (by rw [hshown.cfg, hmbox])
      rw [if_neg hsrc]
      cases hserv : localServices C hal m₀ pkt ch (grpSenderName plain mcBlacklistNameLen) body with
      | mk m₁ answered =>
        rw [hserv] at hquiet htrue
        cases htrue
        exact ⟨m₁, hshown.trans hquiet, rfl⟩
  obtain ⟨m₁, hnoted, heq⟩ := hpublic
  -- what is left is a counter
  have hcount := hnoted.trans (.bump m₁ (f := fun s => { s with fwdGrpPublic := s.fwdGrpPublic + 1 })
    fun _ => rfl)
  have hcfg := hcount.cfg
  refine ⟨_, hcount, ?_⟩
  have hadvert : ¬ payloadTypeGrpTxt = payloadTypeAdvert := by decide
  have htrace : ¬ payloadTypeGrpTxt = payloadTypeTrace := by decide
  simp only [recvFresh, htype, if_neg hadvert, if_neg htrace, hforward, Bool.not_true,
    Bool.false_eq_true, if_false, recvPolicy, hclass, heq, recvRelay, recvScope]
  simp only [hcfg, hrole]
  rfl

end

/-! ## The reply as a packet -/

/-- What is built carries the text, and has no path yet. -/
theorem channelBuildTxt_carries {C : Crypto} {ch : McPubChannel} {name text : Bytes} {ts : UInt32}
    {pkt : McPacket} (h : channelBuildTxt C ch name text ts routeTypeDirect = some pkt) :
    Carries C ch name text pkt ∧ pktRouteType pkt = routeTypeDirect ∧ pkt.pathLen = 0 := by
  rcases channelBuildTxt_sealed h with ⟨hheader, hpath, pad, hsealed⟩
  refine ⟨⟨?_, ts, pad, hsealed⟩, ?_, hpath⟩
  · rw [pktPayloadType, hheader]
    rfl
  · rw [pktRouteType, hheader]
    rfl

/-- A DIRECT packet is no flood. -/
theorem pktIsRouteFlood_of_direct {pkt : McPacket} (h : pktRouteType pkt = routeTypeDirect) :
    pktIsRouteFlood pkt = false := by
  rw [pktIsRouteFlood, h]
  rfl

/-- The text a reader finds starts with the name of the service. -/
theorem grpText_mbox {name text : Bytes} {ts : UInt32} {pad : Nat} (hname : (0 : UInt8) ∉ name)
    (htext : IsMboxReply text) :
    ∃ rest, grpText (replyPlain name text ts ++ List.replicate pad 0) =
      name ++ 58 :: 32 :: (lit "mbox" ++ rest) := by
  obtain ⟨rest, rfl⟩ := htext.start
  refine ⟨cstr rest, ?_⟩
  rw [grpText_replyPlain hname, cstr_append (by decide)]

/-! ## Hops -/

/-- A node that is delivered a frame, in the state it is in then. -/
structure Reception where
  mesh : McMesh
  hal : Hal
  entry : Entry

/-- Delivered the packet's frame, the node queues `copy` for retransmission. -/
def Reception.Relays (C : Crypto) (x : Reception) (pkt copy : McPacket) : Prop :=
  ∃ raw i, pktSerialize pkt mcMaxTransUnit = .ok raw ∧
    (receive C x.hal x.mesh raw x.entry).2 = .forwarded ∧
    AddsRelay x.mesh (receive C x.hal x.mesh raw x.entry).1 i ∧
    ((receive C x.hal x.mesh raw x.entry).1.txq i).pkt = copy

/-- A call leaves the node's identity alone. -/
theorem receive_id (C : Crypto) (hal : Hal) (m : McMesh) (raw : Bytes) (entry : Entry) :
    (receive C hal m raw entry).1.id = m.id := by
  obtain ⟨m', houtcome, src, heq⟩ := receive_outcome C hal m raw entry
  rw [heq]
  cases entry <;> exact houtcome.same.2.1

/-- A packet is passed along a chain of nodes, each copy to the next node. -/
def RelayedAlong (C : Crypto) : List Reception → McPacket → McPacket → Prop
  | [], pkt, out => out = pkt
  | x :: xs, pkt, out => ∃ copy, x.Relays C pkt copy ∧ RelayedAlong C xs copy out

/-- One node more at the end of the chain. -/
theorem RelayedAlong.concat {C : Crypto} {xs : List Reception} {x : Reception}
    {pkt mid out : McPacket} (h : RelayedAlong C xs pkt mid) (hx : x.Relays C mid out) :
    RelayedAlong C (xs ++ [x]) pkt out := by
  induction xs generalizing pkt with
  | nil =>
    cases h
    exact ⟨out, hx, rfl⟩
  | cons y ys ih =>
    obtain ⟨copy, hy, hrest⟩ := h
    exact ⟨copy, hy, ih hrest⟩

/-- A queued relay entry is the copy of the packet received. -/
theorem Outcome.copy {C : Crypto} {hal : Hal} {m m' : McMesh} {raw : Bytes} {rssiDbm snrQ : Int}
    {v : MeshRx} (h : Outcome C hal m raw rssiDbm snrQ m' v) {pkt : McPacket}
    (hparse : pktParse raw = .ok pkt) {i : Fin meshTxqSize} (hadd : AddsRelay m m' i) :
    relayCopy m.id (pkt.heardAt rssiDbm snrQ) = some (m'.txq i).pkt := by
  obtain ⟨p, hp, -, hcopy⟩ := h.relayQueued hadd
  rw [hparse] at hp
  cases hp
  exact hcopy

/-- On its way out the command gets one hash longer. -/
theorem Reception.Relays.grown {C : Crypto} {x : Reception} {pkt copy : McPacket}
    {hashes : List Bytes} {hs : Nat} (h : x.Relays C pkt copy) (hpath : HasPath pkt hashes hs)
    (hflood : pktIsRouteFlood pkt = true) (hs3 : hs ≤ 3) (hcount : hashes.length + 1 < 64)
    (hroom : (hashes.length + 1) * hs ≤ 64) :
    HasPath copy (hashes ++ [mcIdentityCopyHash x.mesh.id hs]) hs ∧ pktIsRouteFlood copy = true := by
  obtain ⟨raw, i, hser, -, hadd, hcopy⟩ := h
  have hparse := pktParse_pktSerialize hser
  obtain ⟨m', houtcome, src, heq⟩ := receive_outcome C x.hal x.mesh raw x.entry
  have htxq : (receive C x.hal x.mesh raw x.entry).1.txq = m'.txq := by rw [heq]
  have henter : (x.mesh.enter x.entry).txq = x.mesh.txq ∧ (x.mesh.enter x.entry).id = x.mesh.id := by
    cases x.entry <;> exact ⟨rfl, rfl⟩
  -- `enter` only says where the frame came from
  have hadd' : AddsRelay (x.mesh.enter x.entry) m' i := by
    rw [AddsRelay, henter.1, ← htxq]
    exact hadd
  have hfits : pktPathByteLen pkt ≤ 64 := by
    rw [hpath.byteLen]
    rw [Nat.succ_mul] at hroom
    omega
  have hpath' := hpath.heard hfits x.entry.rssiDbm x.entry.snrQ
  have hflood' : pktIsRouteFlood (pkt.onWire.heardAt x.entry.rssiDbm x.entry.snrQ) = true := hflood
  have hrelay := houtcome.copy hparse hadd'
  rw [henter.2, ← htxq, hcopy, relayCopy, if_pos hflood'] at hrelay
  split at hrelay
  · cases hrelay
    -- a copy in flood gets the hash of the node at the end of its path
    have hgrown := @appendOwnHash_pathGrown x.mesh.id
      (pkt.onWire.heardAt x.entry.rssiDbm x.entry.snrQ) (by rw [hpath'.count]; exact hcount)
      (by rw [hpath'.size]; exact hs3) (by rw [hpath'.count, hpath'.size]; exact hroom)
    exact ⟨hpath'.grown hgrown hs3, hflood⟩
  · cases hrelay

/-- The path of a command that came along a chain. -/
theorem RelayedAlong.grown {C : Crypto} {xs : List Reception} {pkt out : McPacket}
    {hashes : List Bytes} {hs : Nat} (h : RelayedAlong C xs pkt out) (hpath : HasPath pkt hashes hs)
    (hflood : pktIsRouteFlood pkt = true) (hs3 : hs ≤ 3) (hcount : hashes.length + xs.length ≤ 63)
    (hroom : (hashes.length + xs.length) * hs ≤ 64) :
    HasPath out (hashes ++ xs.map fun x => mcIdentityCopyHash x.mesh.id hs) hs := by
  induction xs generalizing pkt hashes with
  | nil =>
    cases h
    simpa using hpath
  | cons x xs ih =>
    obtain ⟨copy, hx, hrest⟩ := h
    rw [List.length_cons] at hcount hroom
    -- the room for the whole chain is room for one hop
    have hstep : (hashes.length + 1) * hs ≤ (hashes.length + (xs.length + 1)) * hs :=
      Nat.mul_le_mul_right hs (by omega)
    obtain ⟨hcopy, hflood'⟩ := hx.grown hpath hflood hs3 (by omega) (by omega)
    have hout := ih hrest hcopy hflood' (by simp; omega) (by
      rw [List.length_append, List.length_singleton, Nat.add_assoc, Nat.add_comm 1]
      exact hroom)
    rwa [List.append_assoc, List.singleton_append] at hout

/-- What a repeater needs for passing the channel's packet on. -/
structure PassesOn (C : Crypto) (m : McMesh) (ch : McPubChannel) (pkt : McPacket) : Prop where
  role : m.cfg.role = .repeater
  forward : m.cfg.forward = true
  mbox : m.cfg.mboxEnable = false
  /-- the channel is configured, under whatever name -/
  configured : ∃ c ∈ m.cfg.publicChannels, c.hash = ch.hash ∧ c.secret = ch.secret
  /-- and no other channel takes the packet for its own -/
  unmistaken : ∀ c ∈ m.cfg.publicChannels, channelProves C pkt.payload c = true → c.secret = ch.secret
  sender : configIsBlacklisted m.cfg (channelSender C ch pkt.payload) = false
  slot : 0 < meshTxqFree m
  new : pktCalcHash C pkt ∉ m.seen

/-- Over the first channel that proves the packet a repeater comes to its text. -/
theorem PassesOn.class {C : Crypto} {m : McMesh} {ch : McPubChannel} {pkt : McPacket}
    (h : PassesOn C m ch pkt) {name text : Bytes} (hpkt : Carries C ch name text pkt) :
    ∃ c, classifyForward C m.cfg pkt = .okGrpPublic c ∧ c.secret = ch.secret := by
  obtain ⟨c, hc, hhash, hsecret⟩ := h.configured
  have hgroup : isGroupType (pktPayloadType pkt) = true := by
    rw [hpkt.type]
    rfl
  obtain ⟨c', hc', hclass, hproves⟩ :=
    classifyForward_of_proves hgroup hpkt.length.1 hc (hpkt.proves hhash hsecret)
  -- what proves the packet has the same secret
  exact ⟨c', hclass, h.unmistaken c' hc' hproves⟩

/-- A reply fits a frame. -/
theorem Carries.serialize {C : Crypto} {ch : McPubChannel} {name text : Bytes} {pkt : McPacket}
    (h : Carries C ch name text pkt) (hroute : pktRouteType pkt = routeTypeDirect) {hashes : List Bytes} {hs : Nat}
    (hpath : HasPath pkt hashes hs) (hs3 : hs ≤ 3) (hfits : hashes.length * hs ≤ 64) :
    ∃ raw, pktSerialize pkt mcMaxTransUnit = .ok raw := by
  have hlen := h.length.2
  -- DIRECT without transport codes
  have hcodes : pktHasTransportCodes pkt = false := by
    show (pktRouteType pkt == routeTypeTransportFlood || pktRouteType pkt == routeTypeTransportDirect) = false
    rw [hroute]
    rfl
  have hvalid : pktValidPathLen pkt.pathLen = true := by
    refine (pktValidPathLen_iff _).mpr ⟨?_, ?_⟩
    · have hsize : pathHashSize pkt.pathLen = hs := hpath.size
      omega
    · have hbytes : pathHashCount pkt.pathLen * pathHashSize pkt.pathLen = hashes.length * hs :=
        hpath.byteLen
      omega
  have hraw : pktRawLength pkt ≤ 245 := by
    rw [pktRawLength, hpath.byteLen, hcodes, if_neg (by simp)]
    omega
  unfold pktSerialize
  rw [if_neg (by unfold mcMaxTransUnit; omega), if_neg (by unfold mcMaxPacketPayload; omega),
    if_neg (by rw [hvalid]; simp)]
  exact ⟨_, rfl⟩

/-- The next hop of a reply passes it on, with its own hash taken off. -/
theorem PassesOn.relays {C : Crypto} (haes : C.AesInverse) {x : Reception} {ch : McPubChannel}
    {name text : Bytes} {pkt : McPacket} {hashes : List Bytes} {hs : Nat}
    (h : PassesOn C x.mesh ch pkt) (hpkt : Carries C ch name text pkt) (hroute : pktRouteType pkt = routeTypeDirect)
    (hname : (0 : UInt8) ∉ name) (htext : IsMboxReply text)
    (hpath : HasPath pkt (mcIdentityCopyHash x.mesh.id hs :: hashes) hs) (hs3 : hs ≤ 3)
    (hfits : (hashes.length + 1) * hs ≤ 64) :
    ∃ copy, x.Relays C pkt copy ∧ HasPath copy hashes hs ∧ copy.header = pkt.header ∧
      copy.payload = pkt.payload := by
  obtain ⟨raw, hser⟩ := hpkt.serialize hroute hpath hs3 hfits
  have hparse := pktParse_pktSerialize hser
  -- the packet as the node holds it
  have hfits' : pktPathByteLen pkt ≤ 64 := hpath.byteLen ▸ hfits
  have hpath' := hpath.heard hfits' x.entry.rssiDbm x.entry.snrQ
  have hpkt' := hpkt.congr (q := pkt.onWire.heardAt x.entry.rssiDbm x.entry.snrQ) rfl rfl
  have hdirect' : pktIsRouteFlood (pkt.onWire.heardAt x.entry.rssiDbm x.entry.snrQ) = false :=
    @pktIsRouteFlood_of_direct (pkt.onWire.heardAt x.entry.rssiDbm x.entry.snrQ) hroute
  -- a packet is known by its type and payload alone
  have hnew : pktCalcHash C pkt.onWire ∉ x.mesh.seen := by
    rw [pktCalcHash_congr C (p := pkt.onWire) (q := pkt) rfl rfl]
    · exact h.new
    · rw [(hpkt.congr (q := pkt.onWire) rfl rfl).type]
      decide
  -- its text is not a command of this node's
  obtain ⟨c, hclass, hsecret⟩ := h.class hpkt
  -- a DIRECT packet needs no region
  have hclass' : classifyForward C x.mesh.cfg (pkt.onWire.heardAt x.entry.rssiDbm x.entry.snrQ) =
      .okGrpPublic c := by
    have hroom := @regionMatch_direct C x.mesh.cfg _ hdirect'
    have hroom' := @regionMatch_direct C x.mesh.cfg _ (pktIsRouteFlood_of_direct hroute)
    rw [← hclass, classifyForward, classifyForward, hroom, hroom', hpkt'.type, hpkt.type]
    rfl
  obtain ⟨ts, pad, hplain, hread⟩ := hpkt'.plain haes hsecret
  obtain ⟨rest, hgrp⟩ := @grpText_mbox name text ts pad hname htext
  -- time and flags, then the text
  have hplainLen : 5 ≤ (replyPlain name text ts ++ List.replicate pad 0).length := by
    simp [replyPlain]
    omega
  obtain ⟨body, hbody, hb⟩ := grpMessageBody_mbox hplainLen hgrp
  -- the text has a `b` in it, which neither command has
  have hping : isPing body = false := isWord_of_mem hb (by decide) (by decide)
  have hhelp : isWord body (lit "help") = false := isWord_of_mem hb (by decide) (by decide)
  have hblack : configIsBlacklisted x.mesh.cfg
      (grpSenderName (replyPlain name text ts ++ List.replicate pad 0) mcBlacklistNameLen) = false := by
    rw [← hread]
    exact h.sender
  -- so the call ends in the relay, with the queue as it was
  have henter : (x.mesh.enter x.entry).txq = x.mesh.txq ∧ (x.mesh.enter x.entry).id = x.mesh.id ∧
      (x.mesh.enter x.entry).cfg = x.mesh.cfg ∧ (x.mesh.enter x.entry).seen = x.mesh.seen := by
    cases x.entry <;> exact ⟨rfl, rfl, rfl, rfl⟩
  obtain ⟨m₀, hrec, hrecv⟩ := meshOnRecv_of_not_mem C x.hal (x.mesh.enter x.entry) raw
    x.entry.rssiDbm x.entry.snrQ hparse (by rw [henter.2.2.2]; exact hnew)
  have hcfg₀ : m₀.cfg = x.mesh.cfg := (congrArg MeshFixed.cfg hrec.fixed).trans henter.2.2.1
  obtain ⟨m₁, hnoted, hfresh⟩ := recvFresh_passes C x.hal m₀ (hcfg₀ ▸ h.role) (hcfg₀ ▸ h.forward)
    (hcfg₀ ▸ h.mbox) hpkt'.type (hcfg₀ ▸ hclass') hplain hbody (hcfg₀ ▸ hblack) hping hhelp
  have htxq₁ : m₁.txq = x.mesh.txq := hnoted.txq.trans (hrec.txq.trans henter.1)
  have hid₁ : m₁.id = x.mesh.id :=
    (congrArg MeshFixed.id (hnoted.fixed.trans hrec.fixed)).trans henter.2.1
  -- the node is the next hop
  have hcopy : relayCopy m₁.id (pkt.onWire.heardAt x.entry.rssiDbm x.entry.snrQ) =
      some (stripFirstHash (pkt.onWire.heardAt x.entry.rssiDbm x.entry.snrQ)) := by
    rw [relayCopy, if_neg (by rw [hdirect']; simp), hid₁, if_pos (hpath'.isNextHop hs3)]
  -- a repeater is never silent
  have hloud : meshRfSilent m₁ x.hal.millis = false := by
    have hrole : m₁.cfg.role = .repeater := by
      rw [hnoted.cfg, hcfg₀, h.role]
    simp [meshRfSilent, hrole]
  have hfree : freeSlot m₁.txq ≠ none := by
    rw [htxq₁]
    intro hnone
    have := h.slot
    rw [meshTxqFree_eq_zero.mpr hnone] at this
    omega
  rcases relay_of_some x.hal m₁ _ m₀.cfg.txPower hcopy with ⟨hwhy, -, -⟩ | ⟨-, hres, due, hq⟩
  · rcases hwhy with hsilent | hnone
    · rw [hloud] at hsilent
      cases hsilent
    · exact absurd hnone hfree
  have hboth : (receive C x.hal x.mesh raw x.entry).2 =
        (meshOnRecv C x.hal (x.mesh.enter x.entry) raw x.entry.rssiDbm x.entry.snrQ).2 ∧
      (receive C x.hal x.mesh raw x.entry).1.txq =
        (meshOnRecv C x.hal (x.mesh.enter x.entry) raw x.entry.rssiDbm x.entry.snrQ).1.txq := by
    cases x.entry <;> exact ⟨rfl, rfl⟩
  rw [hrecv, hfresh] at hboth
  obtain ⟨i, hslot, hupd⟩ := hq.slot
  have hentry : (receive C x.hal x.mesh raw x.entry).1.txq i =
      ⟨true, stripFirstHash (pkt.onWire.heardAt x.entry.rssiDbm x.entry.snrQ), due,
        relayPriority (pkt.onWire.heardAt x.entry.rssiDbm x.entry.snrQ), m₀.cfg.txPower, false⟩ := by
    rw [hboth.2, hupd, Function.update_self]
  refine ⟨_, ⟨raw, i, hser, hboth.1.trans hres, ⟨?_, ?_, ?_⟩, ?_⟩, hpath'.stripped hfits, rfl, rfl⟩
  · rw [← htxq₁]
    exact freeSlot_some hslot
  · rw [hentry]
  · rw [hentry]
  · rw [hentry]

/-- It asks for the packet's header and payload, not for its path. -/
theorem PassesOn.congr {C : Crypto} {m : McMesh} {ch : McPubChannel} {pkt q : McPacket}
    (h : PassesOn C m ch pkt) (htype : pktPayloadType pkt = payloadTypeGrpTxt)
    (hh : q.header = pkt.header) (hp : q.payload = pkt.payload) : PassesOn C m ch q :=
  { h with
    unmistaken := hp ▸ h.unmistaken
    sender := hp ▸ h.sender
    new := by
      rw [← pktCalcHash_congr C hh.symm hp.symm (by rw [htype]; decide)]
      exact h.new }

/-- A reply that names the nodes of a chain goes along it. -/
theorem Carries.along {C : Crypto} (haes : C.AesInverse) {ch : McPubChannel} {name text : Bytes}
    (hname : (0 : UInt8) ∉ name) (htext : IsMboxReply text) {hs : Nat} (hs3 : hs ≤ 3)
    {done left : List Reception} {pkt : McPacket} (hpkt : Carries C ch name text pkt)
    (hroute : pktRouteType pkt = routeTypeDirect)
    (hpath : HasPath pkt ((done ++ left).map fun x => mcIdentityCopyHash x.mesh.id hs) hs)
    (hfits : (done ++ left).length * hs ≤ 64) (hpass : ∀ x ∈ done, PassesOn C x.mesh ch pkt) :
    ∃ out, RelayedAlong C done pkt out ∧
      HasPath out (left.map fun x => mcIdentityCopyHash x.mesh.id hs) hs ∧
      out.header = pkt.header ∧ out.payload = pkt.payload := by
  induction done generalizing pkt with
  | nil => exact ⟨pkt, rfl, hpath, rfl, rfl⟩
  | cons x done ih =>
    rw [List.cons_append, List.length_cons] at hfits
    obtain ⟨copy, hx, hcopy, hhead, hpay⟩ := (hpass x List.mem_cons_self).relays haes hpkt hroute hname htext
      hpath hs3 (by rw [List.length_map]; exact hfits)
    -- with one hop less there is room all the more
    have hrest : (done ++ left).length * hs ≤ 64 := by
      rw [Nat.succ_mul] at hfits
      omega
    obtain ⟨out, hout, hpath', hhead', hpay'⟩ := ih (hpkt.congr hhead hpay) (by rw [pktRouteType, hhead]; exact hroute)
      hcopy hrest
      fun y hy => (hpass y (List.mem_cons_of_mem x hy)).congr hpkt.type hhead hpay
    exact ⟨out, ⟨copy, hx, hout⟩, hpath', hhead'.trans hhead, hpay'.trans hpay⟩

/-! ## There and back -/

/-- A repeater of the chain, when the command passes and when the reply does. -/
structure Hop where
  onCommand : Reception
  onReply : Reception
  same : onReply.mesh.id = onCommand.mesh.id

/-- A call put a packet of the node's own into slot `i`. -/
def AddsOwn (m m' : McMesh) (i : Fin meshTxqSize) : Prop :=
  (m.txq i).used = false ∧ (m'.txq i).used = true ∧ (m'.txq i).own = true

instance (m m' : McMesh) (i : Fin meshTxqSize) : Decidable (AddsOwn m m' i) :=
  inferInstanceAs (Decidable (_ ∧ _ ∧ _))

/-- What `send_routed_reply` queues. -/
theorem sendRoutedReply_queues {C : Crypto} {hal : Hal} {r r' : McMesh} {rx : McPacket}
    {ch : McPubChannel} {text : Bytes} (h : sendRoutedReply C hal r rx ch text = (r', true))
    {i : Fin meshTxqSize} (hadd : AddsOwn r r' i) :
    ∃ pkt, (r'.txq i).pkt = routeBack pkt rx ∧ Carries C ch r.cfg.name text pkt ∧
      pktRouteType pkt = routeTypeDirect ∧ pkt.pathLen = 0 := by
  unfold sendRoutedReply at h
  split at h
  · cases h
  rename_i pkt hbuild
  obtain ⟨hcarries, hroute, hzero⟩ := channelBuildTxt_carries hbuild
  refine ⟨pkt, ?_, hcarries, hroute, hzero⟩
  simp only [sendOwn] at h
  -- noting its own packet leaves the queue alone
  have hrem := seenCheckAndAdd_remembered r (pktCalcHash C (routeBack pkt rx))
  have htxq : (recordOwn C r (routeBack pkt rx)).txq = r.txq := by rw [recordOwn, hrem.txq]
  generalize recordOwn C r (routeBack pkt rx) = r₀ at h htxq
  rcases enqueue_cases hal r₀ (routeBack pkt rx) 1 (replyDelayMs hal) (ownTxPower r₀) true with
    ⟨-, hres, -⟩ | ⟨-, -, hq⟩
  · rw [h] at hres
    cases hres
  · rw [h] at hq
    obtain ⟨j, hslot, hupd⟩ := hq.slot
    -- one slot is filled, so it is this one
    by_cases hij : i = j
    · rw [hij, hupd, Function.update_self]
    · have hsame : r'.txq i = r.txq i := by rw [hupd, Function.update_of_ne hij, htxq]
      have hused := hadd.2.1
      rw [hsame, hadd.1] at hused
      cases hused

/-- A reply to a command that came along a chain of repeaters goes back along it: hop by
hop with its payload unchanged, until no hop is left in its path. -/
theorem routedReply_retraces (C : Crypto) (haes : C.AesInverse) {hops : List Hop}
    {cmd arrived rx : McPacket} {raw : Bytes} {hs : Nat} (hflood : pktIsRouteFlood cmd = true)
    (hempty : pktPathHashCount cmd = 0) (hsize : pktPathHashSize cmd = hs) (hs3 : hs ≤ 3)
    (hk : hops.length ≤ 63) (hroom : hops.length * hs ≤ 64)
    (hcmd : RelayedAlong C (hops.map Hop.onCommand) cmd arrived)
    (hframe : pktSerialize arrived mcMaxTransUnit = .ok raw) (hrx : pktParse raw = .ok rx)
    {hal : Hal} {r r' : McMesh} {ch : McPubChannel} {text : Bytes} {rssiDbm snrQ : Int} {i : Fin meshTxqSize}
    (hname : (0 : UInt8) ∉ r.cfg.name) (htext : IsMboxReply text)
    (hsent : sendRoutedReply C hal r (rx.heardAt rssiDbm snrQ) ch text = (r', true))
    (hadd : AddsOwn r r' i)
    (hpass : ∀ hop ∈ hops, PassesOn C hop.onReply.mesh ch (r'.txq i).pkt) :
    pktRouteType (r'.txq i).pkt = routeTypeDirect ∧
      (hops = [] → pktPathHashCount (r'.txq i).pkt = 0) ∧
      ∀ done left, hops.reverse = done ++ left →
        ∃ out, RelayedAlong C (done.map Hop.onReply) (r'.txq i).pkt out ∧
          out.payload = (r'.txq i).pkt.payload ∧ pktRouteType out = routeTypeDirect ∧
          pktPathHashCount out = left.length ∧ (hops ≠ [] → pktPathHashSize out = hs) := by
  -- what the command has collected
  have hstart : HasPath cmd [] hs :=
    ⟨hsize, hempty, fun _ hx => absurd hx List.not_mem_nil, by
      rw [McPacket.pathBytes, pktPathByteLen, hempty, Nat.zero_mul]
      simp [Buf.read]⟩
  have harrived := hcmd.grown hstart hflood hs3 (by simpa using hk) (by simpa using hroom)
  rw [List.nil_append, List.map_map] at harrived
  rw [pktParse_pktSerialize hframe] at hrx
  cases hrx
  -- the path of the frame received is the path collected
  have hbytes : pktPathByteLen arrived ≤ 64 := by
    rw [harrived.byteLen, List.length_map]
    exact hroom
  have hrx := harrived.heard hbytes rssiDbm snrQ
  -- the reply, by its text and by its path
  obtain ⟨pkt, hreply, hcarries, hroute, hzero⟩ := sendRoutedReply_queues hsent hadd
  have hdirect : ∀ q : McPacket, q.header = pkt.header → pktRouteType q = routeTypeDirect := by
    intro q hq
    rw [pktRouteType, hq]
    exact hroute
  rw [hreply] at hpass ⊢
  cases hops with
  | nil =>
    -- heard directly, the reply goes out without a path
    have hcount : pktPathHashCount pkt = 0 := by
      rw [pktPathHashCount, hzero]
      rfl
    rw [hrx.routeBack_nil]
    refine ⟨hdirect pkt rfl, fun _ => hcount, fun done left hsplit => ?_⟩
    obtain ⟨rfl, rfl⟩ := List.append_eq_nil_iff.mp hsplit.symm
    exact ⟨pkt, rfl, rfl, hdirect pkt rfl, hcount, fun hne => absurd rfl hne⟩
  | cons hop hops =>
    -- the hashes, last hop first
    have hback := @HasPath.routeBack pkt _ _ _ hrx (by simp) hs3 (by simpa using hroom)
    have hsame : (routeBack pkt (arrived.onWire.heardAt rssiDbm snrQ)).header = pkt.header ∧
        (routeBack pkt (arrived.onWire.heardAt rssiDbm snrQ)).payload = pkt.payload := by
      unfold routeBack
      simp only
      split <;> exact ⟨rfl, rfl⟩
    have hcarries' := hcarries.congr hsame.1 hsame.2
    generalize routeBack pkt (arrived.onWire.heardAt rssiDbm snrQ) = reply at *
    refine ⟨hdirect reply hsame.1, fun h => absurd h (List.cons_ne_nil _ _), fun done left hsplit => ?_⟩
    -- the hops have the same identities on the way back
    have hhashes : ((hop :: hops).map
          ((fun x => mcIdentityCopyHash x.mesh.id hs) ∘ Hop.onCommand)).reverse =
        (done.map Hop.onReply ++ left.map Hop.onReply).map
          fun x => mcIdentityCopyHash x.mesh.id hs := by
      rw [← List.map_reverse, hsplit, ← List.map_append, List.map_map]
      refine List.map_congr_left fun h _ => ?_
      simp only [Function.comp, h.same]
    rw [hhashes] at hback
    have hfits : (done.map Hop.onReply ++ left.map Hop.onReply).length * hs ≤ 64 := by
      rw [← List.map_append, List.length_map, ← hsplit, List.length_reverse]
      exact hroom
    obtain ⟨out, hout, hpath, hhead, hpay⟩ := hcarries'.along haes hname htext hs3
      (hdirect reply hsame.1) hback hfits (by
      intro x hx
      obtain ⟨h, hh, rfl⟩ := List.mem_map.mp hx
      refine hpass h (List.mem_reverse.mp ?_)
      rw [hsplit]
      exact List.mem_append_left _ hh)
    refine ⟨out, hout, hpay, hdirect out (hhead.trans hsame.1), ?_, fun _ => hpath.size⟩
    rw [hpath.count, List.length_map, List.length_map]

/-! ## A mailbox two hops away -/

/-- The `#mbox` channel. -/
def mboxChannel : McPubChannel where
  name := lit "#mbox"
  secret := Buf.ofBytes 32 (bytesBE 16 0xeae4f1c0c84e9c68b6446b4b2033ec23)
  secretLen := 16
  hash := 0xDE
  derived := true
  hub := false

/-- Its key blocks under HMAC-SHA256. -/
def mboxIpad : Bytes := bytesBE 16 0xdcd2c7f6fe78aa5e80725d7d1605da15 ++ List.replicate 48 0x36

/-- The key block of the outer hash. -/
def mboxOpad : Bytes := bytesBE 16 0xb6b8ad9c9412c034ea1837177c6fb07f ++ List.replicate 48 0x5c

/-- `ON6XX: fetch`, and `ON0R: mbox: no messages for you`, encrypted. -/
def fetchCipher : Bytes :=
  bytesBE 32 0xd90218214e3df25834075210df4df10595e3816107aeec3c419dc102e0e4a048

/-- The answer, encrypted. -/
def noMailCipher : Bytes :=
  bytesBE 48 0x1aeb7d609bfdcde34a006c49ddef9ceb5a6c9db4152c15bdd3597e379e4c5b28170472b0ab0e242d71a618e7a1a4cafd

/-- A permutation of the blocks that agrees with AES under the key of `#mbox` on the blocks
of these two messages. -/
def mboxBlocks : Equiv.Perm (Buf 16) :=
  let pair (a b : Nat) : Equiv.Perm (Buf 16) :=
    Equiv.swap (Buf.ofBytes 16 (bytesBE 16 a)) (Buf.ofBytes 16 (bytesBE 16 b))
  (pair 0x01000000004f4e3658583a2066657463 0xd90218214e3df25834075210df4df105).trans <|
  (pair 0x68000000000000000000000000000000 0x95e3816107aeec3c419dc102e0e4a048).trans <|
  (pair 0x02000000004f4e30523a206d626f783a 0x1aeb7d609bfdcde34a006c49ddef9ceb).trans <|
  (pair 0x206e6f206d6573736167657320666f72 0x5a6c9db4152c15bdd3597e379e4c5b28).trans <|
  pair 0x20796f75000000000000000000000000 0x170472b0ab0e242d71a618e7a1a4cafd

/-- The hashes of these two messages, and their cipher. -/
def mboxCrypto : Crypto :=
  { Crypto.ofTable
      [(mboxIpad ++ fetchCipher,
        bytesBE 32 0x6da79b32174a91ae9b4b9666ce07d8e666fee15de6707deb2e66fb43b0f6e496),
       (mboxOpad ++ bytesBE 32 0x6da79b32174a91ae9b4b9666ce07d8e666fee15de6707deb2e66fb43b0f6e496,
        bytesBE 32 0xc08870342361c1bc63ec97dc60e60f5cb143b2d240ac884a2b5e3d0187d8141e),
       ([0x05, 0xDE, 0xC0, 0x88] ++ fetchCipher,
        bytesBE 32 0x2eee752849f60e21bd05ad364e4152e224ed9cb11ca61ddd0864311f1ee76211),
       (mboxIpad ++ noMailCipher,
        bytesBE 32 0x8381a03644f31892e931c27ecc3d8a52408a3f3962cd4b5b18a82cc243db48ab),
       (mboxOpad ++ bytesBE 32 0x8381a03644f31892e931c27ecc3d8a52408a3f3962cd4b5b18a82cc243db48ab,
        bytesBE 32 0xab10d4113a4070bc26e2ef85c5ddffa73991c744e47721fa5e4af486e3d465dc),
       ([0x05, 0xDE, 0xAB, 0x10] ++ noMailCipher,
        bytesBE 32 0xd5fe0e08d1457a5c8b69e5c93b9aa0b50c70b2c1ab3145725543a588bb9f99e5)] [] with
    aesEncryptBlock := fun _ block => mboxBlocks (Buf.ofBytes 16 block)
    aesDecryptBlock := fun _ block => mboxBlocks.symm (Buf.ofBytes 16 block) }

/-- A permutation is undone by its inverse. -/
theorem mboxCrypto_aesInverse : mboxCrypto.AesInverse := by
  intro key block hlen
  show (mboxBlocks.symm (Buf.ofBytes 16 (mboxBlocks (Buf.ofBytes 16 block)).bytes)).bytes = block
  rw [Buf.ofBytes_bytes, Equiv.symm_apply_apply, Buf.bytes_ofBytes hlen]

/-- The command, with hashes of two bytes. -/
def fetchPacket : McPacket :=
  { McPacket.zero with header := 0x15, pathLen := 0x40, payload := [0xDE, 0xC0, 0x88] ++ fetchCipher }

/-- The command on the air. -/
def fetchFrame : Bytes := [0x15, 0x40, 0xDE, 0xC0, 0x88] ++ fetchCipher

/-- The repeater in between, and what it does with the command. -/
def hillRepeater : McMesh :=
  meshInit (.still 0) farIdentity
    { configDefaults with mboxEnable := false, publicChannels := [mboxChannel] } false none false

/-- The state of the hill after it, and its verdict. -/
def hillReceived : McMesh × MeshRx :=
  receive mboxCrypto (.still 1000) hillRepeater fetchFrame (.rf (-90) 20)

/-- It is given the reply by the hub. -/
def hillHop : Hop where
  onCommand := ⟨hillRepeater, .still 1000, .rf (-90) 20⟩
  onReply := ⟨hillReceived.1, .still 4000, .hub⟩
  same := by simp only [hillReceived, receive_id]

/-- The command as the hill sends it on. -/
def fetchRelayed : Bytes := [0x15, 0x41, 0xA1, 0x00, 0xDE, 0xC0, 0x88] ++ fetchCipher

/-- A second repeater, behind the hill. -/
def valleyRepeater : McMesh :=
  meshInit (.still 0) ⟨Buf.ofBytes 32 [0xC4], Buf.zero 64, false⟩
    { configDefaults with mboxEnable := false, publicChannels := [mboxChannel] } false none false

/-- What the valley does with it. -/
def valleyReceived : McMesh × MeshRx :=
  receive mboxCrypto (.still 1500) valleyRepeater fetchRelayed (.rf (-85) 24)

/-- The valley hears the reply first. -/
def valleyHop : Hop where
  onCommand := ⟨valleyRepeater, .still 1500, .rf (-85) 24⟩
  onReply := ⟨valleyReceived.1, .still 3500, .rf (-85) 24⟩
  same := by simp only [valleyReceived, receive_id]

/-- The command as it comes to the mailbox. -/
def fetchArrived : Bytes := [0x15, 0x42, 0xA1, 0x00, 0xC4, 0x00, 0xDE, 0xC0, 0x88] ++ fetchCipher

/-- The node with the mailbox. -/
def mboxRepeater : McMesh :=
  meshInit (.still 0) ⟨Buf.ofBytes 32 [0xB2], Buf.zero 64, false⟩
    { configDefaults with
      name := lit "ON0R"
      mboxEnable := true
      publicChannels := [mboxChannel] } false none false

/-- The answer as the mailbox queues it. -/
def mboxAnswer : McMesh × Bool :=
  sendRoutedReply mboxCrypto (.still 2000) mboxRepeater
    ((valleyReceived.1.txq 0).pkt.onWire.heardAt (-95) 12) mboxChannel
    (snprintfS 160 (fetchReply mboxInit (lit "ON6XX")))

/-- A result that has been evaluated. -/
theorem pktSerialize_of_toOption {pkt : McPacket} {raw : Bytes} {size : Nat}
    (h : (pktSerialize pkt size).toOption = some raw) : pktSerialize pkt size = .ok raw := by
  cases hser : pktSerialize pkt size with
  | ok raw' =>
    rw [hser] at h
    cases h
    rfl
  | error e =>
    rw [hser] at h
    cases h

/-- The repeaters in between can pass the answer on. -/
theorem hillHop_passesOn :
    PassesOn mboxCrypto hillHop.onReply.mesh mboxChannel (mboxAnswer.1.txq 0).pkt where
  role := by decide
  forward := by decide
  mbox := by decide
  configured := ⟨mboxChannel, by decide, rfl, rfl⟩
  unmistaken := by decide
  sender := by decide
  slot := by decide
  new := by decide

/-- The valley too. -/
theorem valleyHop_passesOn :
    PassesOn mboxCrypto valleyHop.onReply.mesh mboxChannel (mboxAnswer.1.txq 0).pkt where
  role := by decide
  forward := by decide
  mbox := by decide
  configured := ⟨mboxChannel, by decide, rfl, rfl⟩
  unmistaken := by decide
  sender := by decide
  slot := by decide
  new := by decide

/-- The answer names the valley first, and comes back over the hill. -/
theorem routedReply_retraces_hill :
    (mboxAnswer.1.txq 0).pkt.pathBytes = [0xC4, 0x00, 0xA1, 0x00] ∧
    ∃ out, RelayedAlong mboxCrypto [valleyHop.onReply, hillHop.onReply] (mboxAnswer.1.txq 0).pkt out ∧
      out.payload = (mboxAnswer.1.txq 0).pkt.payload ∧ pktPathHashCount out = 0 ∧
      pktPathHashSize out = 2 := by
  -- the command goes over the hill, then through the valley
  have hhill : hillHop.onCommand.Relays mboxCrypto fetchPacket (hillReceived.1.txq 0).pkt :=
    ⟨fetchFrame, 0, pktSerialize_of_toOption (by decide), by decide, by decide, by decide⟩
  have hvalley : valleyHop.onCommand.Relays mboxCrypto (hillReceived.1.txq 0).pkt (valleyReceived.1.txq 0).pkt :=
    ⟨fetchRelayed, 0, pktSerialize_of_toOption (by decide), by decide, by decide, by decide⟩
  have hrelay : RelayedAlong mboxCrypto ([hillHop, valleyHop].map Hop.onCommand) fetchPacket
      (valleyReceived.1.txq 0).pkt :=
    ⟨(hillReceived.1.txq 0).pkt, hhill, (valleyReceived.1.txq 0).pkt, hvalley, rfl⟩
  have hser : pktSerialize (valleyReceived.1.txq 0).pkt mcMaxTransUnit = .ok fetchArrived :=
    pktSerialize_of_toOption (by decide)
  -- the mailbox answers
  have hsent : sendRoutedReply mboxCrypto (.still 2000) mboxRepeater
      ((valleyReceived.1.txq 0).pkt.onWire.heardAt (-95) 12) mboxChannel
      (snprintfS 160 (fetchReply mboxInit (lit "ON6XX"))) = (mboxAnswer.1, true) := by
    have hsnd : mboxAnswer.2 = true := by decide
    rw [← hsnd, Prod.mk.eta]
    simp only [mboxAnswer]
  obtain ⟨-, -, hback⟩ := routedReply_retraces mboxCrypto mboxCrypto_aesInverse
    (by decide) (by decide) (show pktPathHashSize fetchPacket = 2 by decide) (by decide)
    (show [hillHop, valleyHop].length ≤ 63 by decide) (by decide) hrelay hser (pktParse_pktSerialize hser)
    (by decide) ⟨mboxInit, lit "ON6XX", .inl rfl⟩ hsent
    (show AddsOwn mboxRepeater mboxAnswer.1 0 by decide) (by
      intro hop hh
      rcases List.mem_pair.mp hh with rfl | rfl
      · exact hillHop_passesOn
      · exact valleyHop_passesOn)
  obtain ⟨out, hout, hpay, -, hcount, hsize⟩ := hback [valleyHop, hillHop] [] rfl
  exact ⟨by decide, out, hout, hpay, hcount, hsize (by simp)⟩

end Meshcore
