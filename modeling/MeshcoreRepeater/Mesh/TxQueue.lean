import MeshcoreRepeater.Lib.Balance
import MeshcoreRepeater.Mesh.Retrace
import MeshcoreRepeater.Mesh.Waking
import MeshcoreRepeater.AdvertCodec
import Mathlib.Algebra.BigOperators.Group.Finset.Piecewise
import Mathlib.Algebra.Order.Group.Multiset

/-! # The TX queue

Every packet that is queued fits a frame (`Sendable`), whichever service or relay made it.
Apart from `mesh_service_tx`, a call only fills free slots (`Loads`); `mesh_service_tx`
takes out the one entry it hands to the radio, or everything when the node is silent.
So the books of the queue balance over every run (`txQueue_discipline`).

* `Input.run_loads`: a call fills free slots.
* `meshServiceTx_silent`: silence empties the queue.
* `txQueue_discipline`: the queue in every reachable state.
-/

namespace Meshcore

set_option maxRecDepth 8000

open ByteLib

/-! ## Packets that can be sent -/

/-- A packet `pkt_serialize` accepts. -/
structure Sendable (pkt : McPacket) : Prop where
  path : pktValidPathLen pkt.pathLen = true
  payload : pkt.payload.length ≤ mcMaxPacketPayload

/-- Its frame has two bytes at least, header and path length, and fits the radio's 255. -/
theorem Sendable.serialize {pkt : McPacket} (h : Sendable pkt) :
    ∃ raw, pktSerialize pkt mcMaxTransUnit = .ok raw ∧ 2 ≤ raw.length ∧ raw.length ≤ 255 := by
  have hpath := ((pktValidPathLen_iff _).mp h.path).2
  have hpayload : pkt.payload.length ≤ 184 := h.payload
  have hbytes : pkt.pathBytes.length = pktPathByteLen pkt := length_pathBytes hpath
  have hle : pktPathByteLen pkt ≤ 64 := hpath
  have hraw : pktRawLength pkt ≤ 254 := by
    rw [pktRawLength]
    split <;> omega
  -- both bounds are the frame's, one of them passed in
  have hfits : ¬(pktRawLength pkt > mcMaxTransUnit ∨ pktRawLength pkt > mcMaxTransUnit) := by
    rw [or_self, not_lt]
    exact hraw.trans (by decide)
  have hshort : ¬pkt.payload.length > mcMaxPacketPayload := not_lt.mpr h.payload
  -- transport codes stand in front of the path, if the route has them
  have hser : ∃ codes : Bytes, codes.length ≤ 4 ∧ pktSerialize pkt mcMaxTransUnit =
      .ok (pkt.header :: (codes ++ pkt.pathLen :: (pkt.pathBytes ++ pkt.payload))) := by
    refine ⟨if pktHasTransportCodes pkt then
      wrU16le pkt.transportCodes.1 ++ wrU16le pkt.transportCodes.2 else [], ?_, ?_⟩
    · split
      · exact le_rfl
      · exact Nat.zero_le 4
    · rw [pktSerialize, if_neg hfits, if_neg hshort, h.path]
      rfl
  rcases hser with ⟨codes, hcodes, hser⟩
  refine ⟨_, hser, ?_, ?_⟩
  · simp only [List.length_cons, List.length_append]
    omega
  · simp only [List.length_cons, List.length_append, hbytes]
    omega

/-- An own packet starts with an empty path. -/
theorem sendable_of_empty {pkt : McPacket} (hpath : pkt.pathLen = 0) (hlen : pkt.payload.length ≤ 184) :
    Sendable pkt := by
  refine ⟨?_, hlen⟩
  rw [hpath]
  rfl

/-- The sealed text is cut to the payload's size when it is built. -/
theorem channelBuildTxt_sendable {C : Crypto} {ch : McPubChannel} {name text : Bytes} {ts : UInt32}
    {route : UInt8} {pkt : McPacket} (h : channelBuildTxt C ch name text ts route = some pkt) : Sendable pkt := by
  rcases channelBuildTxt_sealed h with ⟨-, hpath, pad, hsealed⟩
  exact sendable_of_empty hpath (hsealed.length.2.trans (by omega))

/-- An advert is its signed head and its application data. -/
theorem mcAdvertBuild_sendable {C : Crypto} {id : McIdentity} {info : McAdvertInfo} {ts : UInt32}
    {pkt : McPacket} (h : mcAdvertBuild C id info ts = some pkt) : Sendable pkt := by
  unfold mcAdvertBuild at h
  split at h
  · cases h
  simp only at h
  split at h
  · cases h
  rename_i sig _
  cases h
  have happ := length_encodeAppData info
  apply sendable_of_empty
  · rfl
  · simp only [List.length_append, id.pub.length_eq, sig.length_eq, length_wrU32le]
    omega

/-- A path of at most 64 bytes, with hashes of one to three. -/
theorem sendable_of_path {pkt : McPacket} (hsize : pktPathHashSize pkt ≤ 3) (hbytes : pktPathByteLen pkt ≤ 64)
    (hlen : pkt.payload.length ≤ mcMaxPacketPayload) : Sendable pkt := by
  refine ⟨(pktValidPathLen_iff _).mpr ⟨?_, hbytes⟩, hlen⟩
  intro hfour
  have hsize : pathHashSize pkt.pathLen ≤ 3 := hsize
  omega

/-- The way back is as long as the way here. -/
theorem Sendable.routeBack {pkt rx : McPacket} (h : Sendable pkt) (hrx : rx.WellFormed) :
    Sendable (Meshcore.routeBack pkt rx) := by
  have hsize := hrx.hashSize_le
  unfold Meshcore.routeBack
  simp only
  split
  · rename_i hback
    rcases pathLen_pack (pktPathHashCount_lt rx) (pathHashSize_pos rx.pathLen) (by exact hsize.trans (by decide)) with
      ⟨hcount', hsize'⟩
    apply sendable_of_path
    · exact hsize'.trans_le hsize
    · exact (congrArg₂ (· * ·) hcount' hsize').trans_le hback.2
    · exact h.payload
  · exact h

/-- A copy that is relayed has no more hops than fit the path. -/
theorem relayCopy_sendable {id : McIdentity} {pkt out : McPacket} (hpkt : pkt.WellFormed)
    (h : relayCopy id pkt = some out) : Sendable out := by
  have hbytes : pktPathHashCount pkt * pktPathHashSize pkt ≤ 64 := hpkt.byteLen_le
  unfold relayCopy at h
  split at h
  -- flooded: the node's own hash goes to the end of the path
  · split at h
    · rename_i hroom
      cases h
      have hle : (pktPathHashCount pkt + 1) * pktPathHashSize pkt ≤ 64 := by
        rw [floodHasRoom, Bool.and_eq_true, decide_eq_true_eq] at hroom
        exact hroom.2
      apply sendable_of_path
      · rw [appendOwnHash_size]
        exact hpkt.hashSize_le
      · -- the count may wrap, to less
        rw [pktPathByteLen, appendOwnHash_count, appendOwnHash_size]
        exact (Nat.mul_le_mul_right _ (Nat.mod_le _ _)).trans hle
      · exact hpkt.payload_le
    · cases h
  -- DIRECT: the first hash is taken off
  · split at h
    · cases h
      have hlt := pktPathHashCount_lt pkt
      have hcount : pktPathHashCount (stripFirstHash pkt) = (pktPathHashCount pkt - 1) % 64 := by
        unfold stripFirstHash pktSetPathHashCount
        simp only [pktPathHashCount] at hlt ⊢
        rw [pathHashCount_set, toNat_ofNat_count (by omega)]
      have hsize : pktPathHashSize (stripFirstHash pkt) = pktPathHashSize pkt := pathHashSize_set pkt.pathLen _
      apply sendable_of_path
      · rw [hsize]
        exact hpkt.hashSize_le
      · rw [pktPathByteLen, hcount, hsize]
        exact (Nat.mul_le_mul_right _ ((Nat.mod_le _ _).trans (Nat.sub_le _ _))).trans hbytes
      · exact hpkt.payload_le
    · cases h

/-! ## Filling the queue -/

/-- A frame handed to `sx126x_transmit`. -/
def Event.sentFrame : Event → Option Bytes
  | .transmit raw _ => some raw
  | _ => none

/-- The frames handed to the radio, in their order. -/
def framesSent (evs : List Event) : List Bytes := evs.filterMap Event.sentFrame

/-- Nothing was sent, and the queue is as it was, but for packets in slots that were free. -/
structure Loads (m m' : McMesh) : Prop where
  slots : ∀ i, m'.txq i = m.txq i ∨
    ((m.txq i).used = false ∧ (m'.txq i).used = true ∧ Sendable (m'.txq i).pkt)
  sent : framesSent m'.events = framesSent m.events

namespace Loads

variable {m m' m'' : McMesh}

/-- Neither the queue nor what was sent has changed. -/
theorem of_eq (ht : m'.txq = m.txq) (he : m'.events = m.events) : Loads m m' :=
  ⟨fun i => .inl (congrFun ht i), congrArg framesSent he⟩

/-- Nothing happens. -/
theorem refl (m : McMesh) : Loads m m := of_eq rfl rfl

/-- A slot filled in the first call stays filled in the second. -/
theorem trans (h : Loads m m') (h' : Loads m' m'') : Loads m m'' := by
  refine ⟨?_, h'.sent.trans h.sent⟩
  intro i
  rcases h'.slots i with hsame' | ⟨hfree', hused', hpkt'⟩
  · rw [hsame']
    exact h.slots i
  · rcases h.slots i with hsame | ⟨-, hused, -⟩
    · exact .inr ⟨hsame ▸ hfree', hused', hpkt'⟩
    · -- a slot that is taken stays so
      rw [hused] at hfree'
      cases hfree'

/-- A counter. -/
theorem bump (m : McMesh) (f : MeshStats → MeshStats) : Loads m (m.bump f) := of_eq rfl rfl

/-- A counter that RF traffic moves. -/
theorem bumpIf (m : McMesh) (rf : Bool) (f : MeshStats → MeshStats) : Loads m (m.bumpIf rf f) := by
  unfold McMesh.bumpIf
  split
  · exact bump m f
  · exact refl m

/-- Only `transmit` sends; any other report leaves both the queue and what was sent. -/
theorem emit (m : McMesh) {e : Event} (he : e.sentFrame = none) : Loads m (m.emit e) := by
  refine ⟨fun i => .inl rfl, ?_⟩
  simp [McMesh.emit, framesSent, he]

/-- A line for the monitor. -/
theorem monitor (m : McMesh) {e : Event} (he : e.sentFrame = none) : Loads m (m.monitor e) := by
  unfold McMesh.monitor
  split
  · exact emit m he
  · exact refl m

/-- A packet is dropped and the monitor told. -/
theorem drop (m : McMesh) (pkt : McPacket) (reason : String) : Loads m (monPktDrop m pkt reason) :=
  monitor m rfl

theorem bumpDrop (m : McMesh) (f : MeshStats → MeshStats) (pkt : McPacket) (reason : String) :
    Loads m (monPktDrop (m.bump f) pkt reason) := (bump m f).trans (drop _ pkt reason)

/-- Recording a hash. -/
theorem seen (m : McMesh) (hash : Bytes) : Loads m (seenCheckAndAdd m hash).1 := by
  unfold seenCheckAndAdd
  split
  · exact refl m
  · have hring : Loads m { m with seen := m.seen.push hash } := of_eq rfl rfl
    exact hring.trans (emit _ rfl)

end Loads

section
variable (C : Crypto) (hal : Hal) (m : McMesh)

/-- What is queued takes one free slot, or is dropped. -/
theorem enqueue_loads {pkt : McPacket} (hpkt : Sendable pkt) (priority delayMs : Nat) (power : Int) (own : Bool) :
    Loads m (enqueue hal m pkt priority delayMs power own).1 := by
  unfold enqueue
  split
  · exact .bumpDrop m _ pkt _
  split
  · rename_i i hslot
    have hput : Loads m (m.putTx i ⟨true, pkt, hal.millis + delayMs, priority, power, own⟩) := by
      refine ⟨?_, rfl⟩
      intro j
      by_cases hj : j = i
      · subst hj
        exact .inr ⟨freeSlot_some hslot, by simp [McMesh.putTx], by simpa [McMesh.putTx] using hpkt⟩
      · exact .inl (Function.update_of_ne hj _ _)
    simp only
    split
    · split
      · exact hput.trans (.emit _ rfl)
      · exact hput
    · exact hput
  · exact .of_eq rfl rfl

/-- The hash is recorded, the packet queued. -/
theorem sendOwn_loads {pkt : McPacket} (hpkt : Sendable pkt) (delayMs : Nat) :
    Loads m (sendOwn C hal m pkt delayMs).1 := by
  have hrec : Loads m (recordOwn C m pkt) := .seen m (pktCalcHash C pkt)
  exact hrec.trans (enqueue_loads hal (recordOwn C m pkt) hpkt 1 delayMs (ownTxPower (recordOwn C m pkt)) true)

/-- The answer to a ping is one packet of its own, if it can be built. -/
theorem sendPong_loads (ch : McPubChannel) (rssi snrQ : Int) : Loads m (sendPong C hal m ch rssi snrQ) := by
  unfold sendPong
  simp only
  split
  · exact .refl m
  · rename_i pkt hbuild
    have h := sendOwn_loads C hal m (channelBuildTxt_sendable hbuild) (replyDelayMs hal)
    split <;> rename_i heq <;> rw [heq] at h
    · exact h.trans (.of_eq rfl rfl)
    · exact h

/-- So is the time or the date. -/
theorem sendTod_loads (site : RngSite) (text : Bytes) : Loads m (sendTod C hal site m text) := by
  unfold sendTod
  split
  · exact .refl m
  · rename_i pkt hbuild
    have h := sendOwn_loads C hal m (channelBuildTxt_sendable hbuild) (halRngInt hal site 0 3 * 50)
    split <;> rename_i heq <;> rw [heq] at h
    · exact h.trans (.of_eq rfl rfl)
    · exact h

/-- So is the list of the services. -/
theorem sendHelp_loads (ch : McPubChannel) : Loads m (sendHelp C hal m ch) := by
  unfold sendHelp
  split
  · exact .refl m
  · rename_i pkt hbuild
    exact (sendOwn_loads C hal m (channelBuildTxt_sendable hbuild) (replyDelayMs hal)).trans (.bump _ _)

/-- The way back is as long as the way here, so the reply fits where the packet did. -/
theorem sendRoutedReply_loads {rx : McPacket} (hrx : rx.WellFormed) (ch : McPubChannel) (text : Bytes) :
    Loads m (sendRoutedReply C hal m rx ch text).1 := by
  unfold sendRoutedReply
  split
  · exact .refl m
  · rename_i pkt hbuild
    exact sendOwn_loads C hal m ((channelBuildTxt_sendable hbuild).routeBack hrx) (replyDelayMs hal)

/-- The gate of a station is opened or shut. -/
theorem mboxRateOk_loads (sender : Bytes) (now : Nat) : Loads m (mboxRateOk m sender now).1 := by
  unfold mboxRateOk
  simp only
  split
  · exact .refl m
  split
  · split
    · exact .refl m
    · exact .of_eq rfl rfl
  · exact .of_eq rfl rfl

/-- The mailbox answers with one reply at most. -/
theorem mboxHandle_loads {pkt : McPacket} (hpkt : pkt.WellFormed) (ch : McPubChannel) (sender body : Bytes) :
    Loads m (mboxHandle C hal m pkt ch sender body).1 := by
  unfold mboxHandle
  split
  · exact .of_eq rfl rfl
  · rename_i cmd _ _ _ _
    have hgate := mboxRateOk_loads m sender hal.millis
    split <;> rename_i heq <;> rw [heq] at hgate
    · exact hgate
    · rename_i m₁
      have hreply := hgate.trans (sendRoutedReply_loads C hal m₁ hpkt ch
        (snprintfS 160 (if cmd = .fetch then fetchReply m₁.mbox sender else mboxHelpText)))
      simp only
      split <;> rename_i hsent <;> rw [hsent] at hreply
      · exact hreply.trans (.of_eq rfl rfl)
      · exact hreply

/-- Probing is started or stopped. -/
theorem meshStartProbe_loads (ch : McPubChannel) (secs count : Int) :
    Loads m (meshStartProbe hal m ch secs count) := by
  unfold meshStartProbe
  split
  · exact .of_eq rfl rfl
  · exact .of_eq rfl rfl

/-- So is a probe. -/
theorem sendProbe_loads : Loads m (sendProbe C hal m) := by
  unfold sendProbe
  simp only
  split
  · exact .refl m
  · rename_i pkt hbuild
    have h := sendOwn_loads C hal m (channelBuildTxt_sendable hbuild) (halRngInt hal .probe 0 3 * 50)
    exact h.trans (.bump _ _)

/-- Between two probes nothing is sent. -/
theorem meshServiceProbe_loads (nowMs : Nat) : Loads m (meshServiceProbe C hal m nowMs) := by
  unfold meshServiceProbe
  split
  · exact .refl m
  split
  · exact .of_eq rfl rfl
  · have hseq : Loads m { m with probeSeq := m.probeSeq + 1 } := .of_eq rfl rfl
    have hsend := hseq.trans (sendProbe_loads C hal { m with probeSeq := m.probeSeq + 1 })
    exact hsend.trans (.of_eq rfl rfl)

/-- Of the two answers each is sent if it was asked for. -/
theorem answerTime_loads : Loads m (answerTime C hal m) := by
  unfold answerTime
  split
  · exact (sendTod_loads C hal m .todTime _).trans (.of_eq rfl rfl)
  · exact .refl m

/-- The date likewise. -/
theorem answerDate_loads : Loads m (answerDate C hal m) := by
  unfold answerDate
  split
  · exact (sendTod_loads C hal m .todDate _).trans (.of_eq rfl rfl)
  · exact .refl m

/-- Both at the turn of the minute. -/
theorem meshServiceTimeofday_loads : Loads m (meshServiceTimeofday C hal m) := by
  unfold meshServiceTimeofday
  split
  · exact .refl m
  split
  · exact .refl m
  · have hmin : Loads m { m with todMinute := UInt32.ofNat (hal.time / 60) } := .of_eq rfl rfl
    exact (hmin.trans (answerTime_loads C hal _)).trans (answerDate_loads C hal _)

/-- The advert is recorded, then queued. -/
theorem meshSendAdvert_loads : Loads m (meshSendAdvert C hal m).1 := by
  unfold meshSendAdvert
  split
  · exact .refl m
  split
  · exact .refl m
  · rename_i pkt hbuild
    have h := (Loads.seen m (pktCalcHash C pkt)).trans (enqueue_loads hal (recordOwn C m pkt)
      (mcAdvertBuild_sendable hbuild) 0 (halRngInt hal .advert 0 3 * 50) (ownTxPower (recordOwn C m pkt)) true)
    simp only
    split <;> rename_i heq <;> rw [heq] at h
    · exact h
    · exact h.trans (.of_eq rfl rfl)

/-- A hotspot that wakes up queues its advert. -/
theorem hotspotWake_loads (pkt : McPacket) (who : Bytes) : Loads m (hotspotWake C hal m pkt who) := by
  unfold hotspotWake
  split
  · simp only
    split
    · have hwoken : Loads m { m.wakeUntil hal.millis who with hsSilent := false } := .of_eq rfl rfl
      have hadvert := hwoken.trans (meshSendAdvert_loads C hal { m.wakeUntil hal.millis who with hsSilent := false })
      split
      · exact hadvert.trans (.emit _ rfl)
      · exact hadvert
    · exact .of_eq rfl rfl
  · exact .refl m

/-! ### Receiving -/

/-- The services a message can ask for. -/
theorem localServices_loads {pkt : McPacket} (hpkt : pkt.WellFormed) (ch : McPubChannel) (sender body : Bytes) :
    Loads m (localServices C hal m pkt ch sender body).1 := by
  unfold localServices
  simp only
  -- ping, probe, time, date, help, mailbox
  split
  · have hseen : Loads m (m.bump fun s => { s with pingSeen := s.pingSeen + 1 }) := .bump m _
    split
    · exact hseen.trans (sendPong_loads C hal _ ch _ _)
    · exact hseen
  split
  · exact meshStartProbe_loads hal m ch _ _
  split
  · exact .of_eq rfl rfl
  split
  · exact .of_eq rfl rfl
  split
  · split
    · exact (sendHelp_loads C hal m ch).trans (.of_eq rfl rfl)
    · exact .refl m
  split
  · exact mboxHandle_loads C hal m hpkt ch sender body
  · exact .refl m

/-- A message of a public channel. -/
theorem processPublicGrp_loads {pkt : McPacket} (hpkt : pkt.WellFormed) (ch : McPubChannel) :
    Loads m (processPublicGrp C hal m pkt ch).1 := by
  unfold processPublicGrp
  split
  · exact .refl m
  rename_i plain _
  simp only
  split
  · exact .bumpDrop m _ pkt _
  have hwake := hotspotWake_loads C hal m pkt (grpSenderName plain mcBlacklistNameLen)
  generalize hotspotWake C hal m pkt (grpSenderName plain mcBlacklistNameLen) = m₁ at hwake
  have hshown := hwake.trans (.monitor m₁ (e := .monPublic ch.name (grpText plain) pkt.rssiDbm pkt.snrQ) rfl)
  generalize m₁.monitor (.monPublic ch.name (grpText plain) pkt.rssiDbm pkt.snrQ) = m₂ at hshown
  split
  · exact hshown
  split
  · exact hshown
  · rename_i body _
    have hserv := hshown.trans
      (localServices_loads C hal m₂ hpkt ch (grpSenderName plain mcBlacklistNameLen) body)
    split <;> rename_i heq <;> rw [heq] at hserv
    · exact hserv
    · exact hserv

/-- Hearing an advert enters the neighbour, and may wake the hotspot. -/
theorem advertHeard_loads (pkt : McPacket) (pub : Bytes) (atype : UInt8) (aname : Bytes) :
    Loads m (advertHeard C hal m pkt pub atype aname) := by
  unfold advertHeard
  simp only
  have hcount := Loads.bump m fun s => { s with rxAdvert := s.rxAdvert + 1 }
  generalize m.bump _ = m₁ at hcount
  rcases neighborUpdate_eq hal pkt m₁ pub pkt.rssiDbm pkt.snrQ with ⟨t, ht⟩
  rw [ht]
  have hknown : Loads m { m₁ with neighbors := t } := hcount.trans (.of_eq rfl rfl)
  generalize { m₁ with neighbors := t } = m₂ at hknown
  have hlearnt : Loads m (if m₂.cfg.role = .hotspot ∧ configIsAffinity m₂.cfg aname = true then
      learnAffinity m₂ pub else m₂) := by
    rcases learnAffinity_eq m₂ pub with ⟨a, ha⟩
    rw [ha]
    split
    · exact hknown.trans (.of_eq rfl rfl)
    · exact hknown
  split
  · exact hlearnt.trans (hotspotWake_loads C hal _ pkt aname)
  · exact hlearnt

/-- It is shown, and may go to APRS. -/
theorem advertReported_loads (pkt : McPacket) (pub : Bytes) (atype : UInt8) (aname : Bytes) :
    Loads m (advertReported hal m pkt pub atype aname) := by
  unfold advertReported
  simp only
  have hshown := Loads.monitor m
    (e := .monAdvert aname atype (mcAdvertExtractLocation pkt) pkt.rssiDbm pkt.snrQ) rfl
  split
  · split
    · exact hshown.trans (.emit _ rfl)
    · exact hshown
  · exact hshown

/-- An advert, refused or heard. -/
theorem recvAdvert_loads (pkt : McPacket) : Loads m (recvAdvert C hal m pkt).1 := by
  unfold recvAdvert
  split
  · exact (Loads.bumpIf m _ _).trans (.drop _ pkt _)
  · rename_i pub _
    simp only
    split
    · exact .bumpDrop m _ pkt _
    · refine Loads.trans ?_ (advertReported_loads hal _ pkt pub _ _)
      split
      · exact advertHeard_loads C hal m pkt pub _ _
      · exact .refl m

/-- Policy answers, counts or drops; the relay comes later. -/
theorem recvPolicy_loads {pkt : McPacket} (hpkt : pkt.WellFormed) : Loads m (recvPolicy C hal m pkt).1 := by
  unfold recvPolicy
  split
  · rename_i ch _
    have hpublic := processPublicGrp_loads C hal m hpkt ch
    split <;> rename_i heq <;> rw [heq] at hpublic
    · exact hpublic
    · exact hpublic
    · exact hpublic.trans (.of_eq rfl rfl)
  · have hcount : Loads m (m.bump fun s => { s with fwdRegion := s.fwdRegion + 1 }) := .bump m _
    simp only
    split
    · exact hcount.trans (.monitor _ rfl)
    · exact hcount
  · exact .refl m
  · exact .bumpDrop m _ pkt _

/-- The relayed copy fits, flooded or along its path. -/
theorem relay_loads {pkt : McPacket} (hpkt : pkt.WellFormed) (power : Int) : Loads m (relay hal m pkt power).1 := by
  unfold relay
  split
  -- flooding takes a hop more, and only where the path has room
  · rename_i hflood
    unfold relayFlood
    split
    · rename_i hroom
      have hcopy : relayCopy m.id pkt = some (appendOwnHash m.id pkt) := by
        rw [relayCopy, if_pos hflood, if_pos hroom]
      have h := enqueue_loads hal m (relayCopy_sendable hpkt hcopy) (pktPathHashCount pkt + 1)
        (floodBackoffMs hal (appendOwnHash m.id pkt)) power false
      simp only
      split <;> rename_i heq <;> rw [heq] at h
      · exact h.trans (.of_eq rfl rfl)
      · exact h
    · exact .bumpDrop m _ pkt _
  -- DIRECT is relayed by the next hop alone
  · rename_i hflood
    unfold relayDirect
    split
    · rename_i hnext
      have hcopy : relayCopy m.id pkt = some (stripFirstHash pkt) := by
        rw [relayCopy, if_neg hflood, if_pos hnext]
      have h := enqueue_loads hal m (relayCopy_sendable hpkt hcopy) 0 0 power false
      split <;> rename_i heq <;> rw [heq] at h
      · exact h.trans (.of_eq rfl rfl)
      · exact h
    · exact .refl m

/-- The scope comes before the relay. -/
theorem recvRelay_loads {pkt : McPacket} (hpkt : pkt.WellFormed) (aname sender : Bytes) :
    Loads m (recvRelay hal m pkt aname sender).1 := by
  -- out of scope it is dropped
  have hscope : Loads m (recvScope m pkt aname sender).1 := by
    unfold recvScope
    split
    · split
      · exact .drop m pkt _
      · exact .refl m
    · exact .refl m
  unfold recvRelay
  split <;> rename_i heq <;> rw [heq] at hscope
  · exact hscope
  · exact hscope.trans (relay_loads hal _ hpkt _)

/-- A frame that is new. -/
theorem recvFresh_loads {pkt : McPacket} (hpkt : pkt.WellFormed) : Loads m (recvFresh C hal m pkt).1 := by
  -- the advert is heard before anything else is asked
  have hadvert : Loads m (if pktPayloadType pkt = payloadTypeAdvert then recvAdvert C hal m pkt
      else (m, some [])).1 := by
    split
    · exact recvAdvert_loads C hal m pkt
    · exact .refl m
  unfold recvFresh
  simp only
  generalize (if pktPayloadType pkt = payloadTypeAdvert then recvAdvert C hal m pkt else (m, some [])) = r at hadvert
  rcases r with ⟨m₁, aname⟩
  cases aname with
  | none => exact hadvert
  | some aname =>
    simp only
    split
    · exact hadvert.trans ((Loads.bumpIf m₁ _ _).trans (.drop _ pkt _))
    split
    · exact hadvert
    · have hpolicy := hadvert.trans (recvPolicy_loads C hal m₁ hpkt)
      split <;> rename_i heq <;> rw [heq] at hpolicy
      · exact hpolicy
      · exact hpolicy.trans (recvRelay_loads hal _ hpkt aname _)

/-- Any bytes: a frame that parses is well-formed. -/
theorem meshOnRecv_loads (raw : Bytes) (rssiDbm snrQ : Int) : Loads m (meshOnRecv C hal m raw rssiDbm snrQ).1 := by
  unfold meshOnRecv
  simp only
  -- airtime, totals and the ring are counted first
  have hair := Loads.bumpIf m m.heardOnRf fun s => { s with rxAirtimeMs := s.rxAirtimeMs + hal.airtimeMs raw.length }
  generalize m.bumpIf m.heardOnRf _ = m₁ at hair
  split
  · exact hair.trans ((Loads.bumpIf m₁ _ _).trans (.monitor _ rfl))
  · rename_i pkt hparse
    have hwf := pktParse_wellFormed hparse
    have hheard : (pkt.heardAt rssiDbm snrQ).WellFormed :=
      ⟨hwf.pathLen_valid, hwf.payload_le, hwf.raw_le, hwf.dnr, hwf.codes⟩
    unfold recvParsed
    simp only
    have htotal := hair.trans (Loads.bumpIf m₁ m₁.heardOnRf fun s => { s with rxTotal := s.rxTotal + 1 })
    generalize m₁.bumpIf m₁.heardOnRf _ = m₂ at htotal
    have hseen := htotal.trans (Loads.seen m₂ (pktCalcHash C (pkt.heardAt rssiDbm snrQ)))
    split <;> rename_i heq <;> rw [heq] at hseen
    · exact hseen.trans ((Loads.bumpIf _ _ _).trans (.drop _ _ _))
    · exact (hseen.trans (.bumpIf _ _ _)).trans (recvFresh_loads C hal _ hheard)

/-- Only `mesh_service_tx` sends. -/
theorem Input.run_loads {x : Input} (hx : ∀ hal now, x ≠ .serviceTx hal now) : Loads m (x.run C m) := by
  cases x with
  | recv hal raw rssiDbm snrQ => exact meshOnRecv_loads C hal m raw rssiDbm snrQ
  | backbone hal raw =>
    have h := meshOnRecv_loads C hal { m with rxSrc := .backbone } raw monViaBackbone 0
    exact ⟨h.slots, h.sent⟩
  | rxError crc rssiDbm snrQ =>
    show Loads m (meshOnRxError m crc rssiDbm snrQ)
    unfold meshOnRxError
    split
    · exact (Loads.bump m _).trans (.monitor _ rfl)
    · exact (Loads.bump m _).trans (.monitor _ rfl)
  | sendAdvert hal => exact meshSendAdvert_loads C hal m
  | startProbe hal ch secs count => exact meshStartProbe_loads hal m ch secs count
  | serviceProbe hal nowMs => exact meshServiceProbe_loads C hal m nowMs
  | serviceTimeofday hal => exact meshServiceTimeofday_loads C hal m
  | serviceTx hal nowMs => exact absurd rfl (hx hal nowMs)
  | advertTick _ | configure _ | reload _ | watchers _ => exact .of_eq rfl rfl

end

/-! ## One turn of the transmitter -/

/-- A smaller pair of priority and due time. -/
def MeshTxEntry.Before (e e' : MeshTxEntry) : Prop :=
  e.priority < e'.priority ∨ (e.priority = e'.priority ∧ e.dueMs < e'.dueMs)

/-- An entry that is due, and none that is due comes before it. -/
def FirstDue (txq : Fin meshTxqSize → MeshTxEntry) (now : Nat) (i : Fin meshTxqSize) : Prop :=
  Due txq now i ∧ ∀ j, Due txq now j → ¬(txq j).Before (txq i)

/-- What `mesh_service_tx` does while the node is not silent: nothing is due; or the channel is
busy, and the first entry waits for 120 to 480 ms; or the first entry is sent and taken out. -/
inductive TxTurn (hal : Hal) (now : Nat) (m m' : McMesh) : Prop
  | idle (hidle : ∀ i, ¬Due m.txq now i) (htxq : m'.txq = m.txq) (hsent : framesSent m'.events = framesSent m.events)
  | busy (i : Fin meshTxqSize) (due : Nat) (hfirst : FirstDue m.txq now i) (hbusy : (m.cfg.useCad && hal.channelBusy) = true)
      (hlow : now + 120 ≤ due) (hhigh : due ≤ now + 480)
      (htxq : m'.txq = Function.update m.txq i { m.txq i with dueMs := due })
      (hsent : framesSent m'.events = framesSent m.events)
  | sent (i : Fin meshTxqSize) (raw : Bytes) (hfirst : FirstDue m.txq now i)
      (hfree : (m.cfg.useCad && hal.channelBusy) = false)
      (hraw : pktSerialize (m.txq i).pkt mcMaxTransUnit = .ok raw)
      (htxq : m'.txq = Function.update m.txq i { m.txq i with used := false })
      (hsent : framesSent m'.events = framesSent m.events ++ [raw])

/-- Every packet in the queue fits a frame. -/
def QueueSendable (m : McMesh) : Prop := ∀ i, (m.txq i).used = true → Sendable (m.txq i).pkt

section
variable (C : Crypto) (hal : Hal) (m : McMesh) (now : Nat)

/-- The entry the loop picks is due, and none that is due comes before it. -/
theorem firstDue_of_pickDue {txq : Fin meshTxqSize → MeshTxEntry} {i : Fin meshTxqSize} (h : pickDue txq now = some i) :
    FirstDue txq now i := by
  rcases pickDue_some h with ⟨hdue, hahead⟩
  refine ⟨hdue, ?_⟩
  intro j hj hbefore
  unfold MeshTxEntry.Before at hbefore
  by_cases hij : j = i
  · rw [hij] at hbefore
    omega
  · have hfirst := hahead j hj hij
    unfold Ahead at hfirst
    omega

/-- Sending hands over one frame, and does not touch the queue. -/
theorem transmit_sent (e : MeshTxEntry) (raw : Bytes) :
    (transmit C hal m e raw).txq = m.txq ∧
      framesSent (transmit C hal m e raw).events = framesSent m.events ++ [raw] := by
  -- the power is set, then the frame handed over
  have hhand : framesSent ((m.emit (.setTxPower e.powerDbm)).emit
      (.transmit raw (hal.airtimeMs raw.length + 1000))).events = framesSent m.events ++ [raw] := by
    simp only [McMesh.emit, framesSent, List.append_assoc, List.filterMap_append]
    rfl
  unfold transmit
  simp only
  split
  · unfold monPktTx
    split
    · exact ⟨rfl, hhand⟩
    · refine ⟨rfl, (Loads.emit _ rfl).sent.trans hhand⟩
  · exact ⟨rfl, (Loads.emit _ rfl).sent.trans hhand⟩

/-- While the node is not silent, a turn is one of the three. -/
theorem meshServiceTx_turn (hloud : meshRfSilent m now = false) (hq : QueueSendable m) :
    TxTurn hal now m (meshServiceTx C hal m now) := by
  unfold meshServiceTx
  rw [if_neg (by rw [hloud]; exact Bool.false_ne_true)]
  -- nothing due, or the first entry: then the channel decides
  cases hpick : pickDue m.txq now with
  | none =>
    have hfore := pickDue_foremost m.txq now
    rw [hpick] at hfore
    exact .idle (fun i => hfore i (List.mem_finRange i)) rfl rfl
  | some i =>
    have hfirst := firstDue_of_pickDue now hpick
    simp only
    by_cases hbusy : (m.cfg.useCad && hal.channelBusy) = true
    · rw [if_pos hbusy]
      -- the random pause is one to four slots of 120 ms
      have hpause : 1 ≤ halRngInt hal .cad 1 4 ∧ halRngInt hal .cad 1 4 ≤ 4 := by
        rw [halRngInt, if_neg (by decide)]
        omega
      exact .busy i _ hfirst hbusy (by omega) (by omega) rfl rfl
    · rw [if_neg hbusy]
      rcases (hq i hfirst.1.used).serialize with ⟨raw, hraw, -⟩
      rcases transmit_sent C hal m (m.txq i) raw with ⟨htxq, hsent⟩
      rw [hraw]
      refine .sent i raw hfirst (Bool.eq_false_iff.mpr hbusy) hraw ?_ hsent
      rw [McMesh.putTx, htxq]

/-- Silence empties the queue, and nothing is sent. -/
theorem meshServiceTx_silent (hsilent : meshRfSilent m now = true) :
    (∀ i, ((meshServiceTx C hal m now).txq i).used = false) ∧
      framesSent (meshServiceTx C hal m now).events = framesSent m.events := by
  unfold meshServiceTx
  rw [if_pos hsilent]
  refine ⟨fun i => rfl, ?_⟩
  simp only [dropQueued, McMesh.bump]
  split
  · rfl
  split
  · exact (Loads.emit { m with hsSilent := true } rfl).sent
  · rfl

end

/-! ## Every packet fits -/

/-- What fills a slot fits a frame. -/
theorem Loads.queueSendable {m m' : McMesh} (h : Loads m m') (hq : QueueSendable m) : QueueSendable m' := by
  intro i hi
  rcases h.slots i with hsame | ⟨-, -, hpkt⟩
  · rw [hsame] at hi ⊢
    exact hq i hi
  · exact hpkt

/-- A turn of the transmitter changes no packet. -/
theorem Transmitted.queueSendable {m m' : McMesh} (h : Transmitted m m') (hq : QueueSendable m) :
    QueueSendable m' := by
  intro i hi
  rcases h.txq i hi with ⟨hused, hpkt, -⟩
  rw [hpkt]
  exact hq i hused

/-- A step queues what fits, and takes out what it sends. -/
theorem step_queueSendable (C : Crypto) (m : McMesh) (x : Input) (hq : QueueSendable m) :
    QueueSendable (step C m x) := by
  -- the events of the last step are gone, the queue is not
  have hclear : QueueSendable m.clearEvents := hq
  by_cases hx : ∃ hal now, x = .serviceTx hal now
  · rcases hx with ⟨hal, now, rfl⟩
    exact (meshServiceTx_transmitted C hal m.clearEvents now).queueSendable hclear
  · exact (Input.run_loads C m.clearEvents fun hal now h => hx ⟨hal, now, h⟩).queueSendable hclear

/-- The queue is empty at first, and every step keeps it sendable. -/
theorem queueSendable_of_reachable {C : Crypto} {m : McMesh} (h : Reachable C m) : QueueSendable m := by
  rcases h with ⟨hal, id, cfg, aprs, mon, bb, xs, rfl⟩
  refine Runs.run_invariant QueueSendable (fun s x => step_queueSendable C s x) ?_ xs
  intro i hi
  cases hi

/-! ## The books -/

/-- The frame an entry is sent as. -/
def MeshTxEntry.frame (e : MeshTxEntry) : Bytes :=
  match pktSerialize e.pkt mcMaxTransUnit with
  | .ok raw => raw
  | .error _ => []

/-- The frames that wait in the queue. -/
def queuedFrames (m : McMesh) : Multiset Bytes :=
  ∑ i, if (m.txq i).used then {(m.txq i).frame} else 0

/-- The frames a step puts into slots that were free. -/
def addedFrames (C : Crypto) (m : McMesh) (x : Input) : Multiset Bytes :=
  ∑ i, if !(m.txq i).used && ((step C m x).txq i).used then {((step C m x).txq i).frame} else 0

/-- The frames a step hands to the radio. -/
def sentFrames (C : Crypto) (m : McMesh) (x : Input) : Multiset Bytes := framesSent (step C m x).events

/-- The frames dropped because the node was silent. -/
def silencedFrames (m : McMesh) : Input → Multiset Bytes
  | .serviceTx _ now => if meshRfSilent m now then queuedFrames m else 0
  | _ => 0

section
variable (C : Crypto) (m : McMesh)

/-- Slot by slot: what a call that only fills slots leaves in one. -/
theorem Loads.balance {x : Input} (h : Loads m.clearEvents (step C m x)) (hx : ∀ hal now, x ≠ .serviceTx hal now) :
    queuedFrames (step C m x) + (sentFrames C m x + silencedFrames m x) = queuedFrames m + addedFrames C m x := by
  -- nothing leaves, neither by radio nor by silence
  have hsent : sentFrames C m x = 0 := congrArg _ h.sent
  have hsilenced : silencedFrames m x = 0 := by
    cases x with
    | serviceTx hal now => exact absurd rfl (hx hal now)
    | _ => rfl
  rw [hsent, hsilenced, add_zero, add_zero, queuedFrames, queuedFrames, addedFrames, ← Finset.sum_add_distrib]
  apply Finset.sum_congr rfl
  intro i _
  rcases h.slots i with hsame | ⟨hfree, hused, -⟩
  · have hsame : (step C m x).txq i = m.txq i := hsame
    rw [hsame]
    cases (m.txq i).used
    · rfl
    · exact (add_zero _).symm
  · have hfree : (m.txq i).used = false := hfree
    rw [hfree, hused]
    exact (zero_add _).symm

/-- A turn of the transmitter adds nothing. -/
theorem addedFrames_serviceTx (hal : Hal) (now : Nat) : addedFrames C m (.serviceTx hal now) = 0 := by
  apply Finset.sum_eq_zero
  intro i _
  rw [if_neg]
  rw [Bool.and_eq_true, Bool.not_eq_true']
  rintro ⟨hfree, hused⟩
  have hwas := ((meshServiceTx_transmitted C hal m.clearEvents now).txq i hused).1
  rw [show (m.clearEvents.txq i).used = (m.txq i).used from rfl, hfree] at hwas
  cases hwas

/-- The frame of an entry is what `pkt_serialize` makes of its packet. -/
theorem frame_of_serialize {e : MeshTxEntry} {raw : Bytes} (h : pktSerialize e.pkt mcMaxTransUnit = .ok raw) :
    e.frame = raw := by
  rw [MeshTxEntry.frame, h]

/-- A turn moves one frame from the queue to the air, or none. -/
theorem TxTurn.balance {hal : Hal} {now : Nat} {m' : McMesh} (h : TxTurn hal now m.clearEvents m') :
    queuedFrames m' + (framesSent m'.events : Multiset Bytes) = queuedFrames m := by
  cases h with
  | idle _ htxq hsent =>
    rw [hsent, queuedFrames, htxq]
    exact add_zero _
  | busy i due _ _ _ _ htxq hsent =>
    rw [hsent, queuedFrames, queuedFrames, htxq]
    refine (add_zero _).trans (Finset.sum_congr rfl ?_)
    intro j _
    by_cases hj : j = i
    -- the pause changes when, not what
    · rw [hj, Function.update_self]
      rfl
    · rw [Function.update_of_ne hj]
      rfl
  | sent i raw hfirst _ hraw htxq hsent =>
    -- the frame that was sent is the one missing from the slot
    have hone : (framesSent m'.events : Multiset Bytes) = ∑ j : Fin meshTxqSize, if j = i then {raw} else 0 := by
      rw [Finset.sum_ite_eq' Finset.univ i, if_pos (Finset.mem_univ i), hsent]
      rfl
    rw [hone, queuedFrames, queuedFrames, htxq, ← Finset.sum_add_distrib]
    apply Finset.sum_congr rfl
    intro j _
    by_cases hj : j = i
    · have hused : (m.txq i).used = true := hfirst.1.used
      have hframe : (m.txq i).frame = raw := frame_of_serialize hraw
      rw [hj, Function.update_self, if_pos rfl, if_pos hused, hframe]
      exact zero_add _
    · rw [Function.update_of_ne hj, if_neg hj]
      exact add_zero _

/-- One step: what waits and what left is what waited and what came. -/
theorem step_balance (x : Input) (hq : QueueSendable m) :
    queuedFrames (step C m x) + (sentFrames C m x + silencedFrames m x) = queuedFrames m + addedFrames C m x := by
  by_cases hx : ∃ hal now, x = .serviceTx hal now
  · rcases hx with ⟨hal, now, rfl⟩
    rw [addedFrames_serviceTx, add_zero]
    by_cases hsilent : meshRfSilent m now = true
    · rcases meshServiceTx_silent C hal m.clearEvents now hsilent with ⟨hempty, hnone⟩
      -- the silenced queue is empty
      have hgone : queuedFrames (step C m (.serviceTx hal now)) = 0 := by
        apply Finset.sum_eq_zero
        intro i _
        rw [if_neg]
        rw [show ((step C m (.serviceTx hal now)).txq i).used = false from hempty i]
        exact Bool.false_ne_true
      have hsent : sentFrames C m (.serviceTx hal now) = 0 := congrArg _ hnone
      rw [hgone, hsent, silencedFrames, if_pos hsilent, zero_add, zero_add]
    · have hturn := meshServiceTx_turn C hal m.clearEvents now (Bool.eq_false_iff.mpr hsilent) hq
      rw [silencedFrames, if_neg hsilent, add_zero]
      exact hturn.balance
  · have hx : ∀ hal now, x ≠ .serviceTx hal now := fun hal now h => hx ⟨hal, now, h⟩
    exact Loads.balance C m (Input.run_loads C m.clearEvents hx) hx

end

/-! ## The discipline -/

/-- What `enqueue` may do: nothing, for silence or for a full queue, or put the entry into a
slot that is free. -/
def Enqueued (hal : Hal) (m : McMesh) (r : McMesh × Bool) (e : MeshTxEntry) : Prop :=
  (r.2 = false ∧ (meshRfSilent m hal.millis = true ∨ ∀ i, (m.txq i).used = true) ∧ r.1.txq = m.txq) ∨
    (r.2 = true ∧ meshRfSilent m hal.millis = false ∧
      ∃ i, (m.txq i).used = false ∧ r.1.txq = Function.update m.txq i e)

/-- `enqueue` does nothing, or fills the first free slot. -/
theorem enqueue_enqueued (hal : Hal) (m : McMesh) (pkt : McPacket) (priority delayMs : Nat) (power : Int)
    (own : Bool) : Enqueued hal m (enqueue hal m pkt priority delayMs power own)
      ⟨true, pkt, hal.millis + delayMs, priority, power, own⟩ := by
  rcases enqueue_cases hal m pkt priority delayMs power own with ⟨hwhy, hres, hn⟩ | ⟨hloud, hres, hq⟩
  · refine .inl ⟨hres, ?_, hn.txq⟩
    rcases hwhy with hsilent | hfull
    · exact .inl hsilent
    · exact .inr (freeSlot_none hfull)
  · rcases hq.slot with ⟨i, hslot, htxq⟩
    exact .inr ⟨hres, hloud, i, freeSlot_some hslot, htxq⟩

/-- Every entry fits a frame; a call fills free slots or leaves the queue alone; the transmitter
takes out the first due entry as it sends it, or everything for silence; and over any run the
frames still queued, sent and silenced are those queued at first and added since. -/
theorem txQueue_discipline {C : Crypto} {m : McMesh} (h : Reachable C m) :
    (∀ i, (m.txq i).used = true →
      ∃ raw, pktSerialize (m.txq i).pkt mcMaxTransUnit = .ok raw ∧ 2 ≤ raw.length ∧ raw.length ≤ 255) ∧
    (∀ (m' : McMesh) (hal : Hal) (pkt : McPacket) (priority delayMs : Nat) (power : Int) (own : Bool),
      Enqueued hal m' (enqueue hal m' pkt priority delayMs power own)
        ⟨true, pkt, hal.millis + delayMs, priority, power, own⟩) ∧
    (∀ x : Input, (∀ hal now, x ≠ .serviceTx hal now) →
      (∀ i, (m.txq i).used = true → (step C m x).txq i = m.txq i) ∧ framesSent (step C m x).events = []) ∧
    (∀ (hal : Hal) (now : Nat), meshRfSilent m now = false →
      TxTurn hal now m.clearEvents (step C m (.serviceTx hal now))) ∧
    (∀ (hal : Hal) (now : Nat), meshRfSilent m now = true →
      (∀ i, ((step C m (.serviceTx hal now)).txq i).used = false) ∧
        framesSent (step C m (.serviceTx hal now)).events = []) ∧
    ∀ xs : List Input,
      queuedFrames (run C m xs) +
          Runs.total (step C) (fun s x => sentFrames C s x + silencedFrames s x) m xs =
        queuedFrames m + Runs.total (step C) (addedFrames C) m xs := by
  have hq := queueSendable_of_reachable h
  refine ⟨fun i hi => (hq i hi).serialize, fun s hal => enqueue_enqueued hal s, ?_, ?_, ?_, ?_⟩
  · intro x hx
    have hloads := Input.run_loads C m.clearEvents hx
    refine ⟨?_, hloads.sent⟩
    intro i hi
    rcases hloads.slots i with hsame | ⟨hfree, -, -⟩
    · exact hsame
    · rw [show (m.clearEvents.txq i).used = (m.txq i).used from rfl, hi] at hfree
      cases hfree
  · intro hal now hloud
    exact meshServiceTx_turn C hal m.clearEvents now hloud hq
  · intro hal now hsilent
    exact meshServiceTx_silent C hal m.clearEvents now hsilent
  · intro xs
    exact Runs.balance_run (step_queueSendable C) (fun s x hs => step_balance C s x hs) hq xs

/-- A hotspot that was woken: its advert and the packet it relays are queued. -/
def wokenHotspot : McMesh := step wakingCrypto silentHotspot (.recv unluckyHal hillFrame (-60) 40)

theorem wokenHotspot_reachable : Reachable wakingCrypto wokenHotspot :=
  ⟨.still 0, hotspotIdentity, { configDefaults with role := .hotspot, home := [lit "ON6URE*"] }, false, none, false,
    [.recv unluckyHal hillFrame (-60) 40], rfl⟩

theorem txQueue_discipline_woken :
    (wokenHotspot.txq 0).used = true ∧ (wokenHotspot.txq 1).used = true ∧ meshRfSilent wokenHotspot 1000 = false ∧
      TxTurn (.still 1000) 1000 wokenHotspot.clearEvents (step wakingCrypto wokenHotspot (.serviceTx (.still 1000) 1000)) ∧
      queuedFrames (run wakingCrypto wokenHotspot [.serviceTx (.still 1000) 1000]) +
          Runs.total (step wakingCrypto) (fun s x => sentFrames wakingCrypto s x + silencedFrames s x) wokenHotspot
            [.serviceTx (.still 1000) 1000] =
        queuedFrames wokenHotspot +
          Runs.total (step wakingCrypto) (addedFrames wakingCrypto) wokenHotspot [.serviceTx (.still 1000) 1000] := by
  have hdiscipline := txQueue_discipline wokenHotspot_reachable
  have hloud : meshRfSilent wokenHotspot 1000 = false := by decide
  refine ⟨by decide, by decide, hloud, ?_, ?_⟩
  · exact hdiscipline.2.2.2.1 (.still 1000) 1000 hloud
  · exact hdiscipline.2.2.2.2.2 [.serviceTx (.still 1000) 1000]

end Meshcore
