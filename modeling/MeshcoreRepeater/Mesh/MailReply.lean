import MeshcoreRepeater.Mailbox
import MeshcoreRepeater.Mesh.MailGate
import MeshcoreRepeater.Mesh.Replies

/-! # From a mention to a fetch

* `Reachable.mailed`: over a run the mailbox takes stores only.
* `mention_fetched`: one message, from `mbox_handle` that stores it to the `fetch` it is read with.
* `mention_fetched_run`: the same over any run of a node.
-/

namespace Meshcore

open ByteLib

/-! ## The mailbox of a running node -/

/-- Messages were stored in the mailbox, and nothing else was done to it. -/
def Mailed (m m' : McMesh) : Prop := ∃ xs, m'.mbox = mboxStored m.mbox xs

/-- Nothing was stored. -/
theorem Mailed.of_eq {m m' : McMesh} (h : m'.mbox = m.mbox) : Mailed m m' := ⟨[], h⟩

/-- The mailbox is part of the services' state. -/
theorem mbox_of_idle {m m' : McMesh} (h : m'.serviceState = m.serviceState) : m'.mbox = m.mbox :=
  congrArg ServiceState.mbox h

/-- What leaves the services' state stores nothing. -/
theorem Mailed.of_idle {m m' : McMesh} (h : m'.serviceState = m.serviceState) : Mailed m m' :=
  .of_eq (mbox_of_idle h)

/-- Storing some, then some more. -/
theorem Mailed.trans {m m' m'' : McMesh} (h : Mailed m m') (h' : Mailed m' m'') : Mailed m m'' := by
  rcases h with ⟨xs, hxs⟩
  rcases h' with ⟨ys, hys⟩
  exact ⟨xs ++ ys, by rw [hys, hxs, mboxStored_append]⟩

section
variable (C : Crypto) (hal : Hal) (m : McMesh) (pkt : McPacket)

/-- The gate remembers stations, not messages. -/
theorem mboxRateOk_mbox (sender : Bytes) (now : Nat) : (mboxRateOk m sender now).1.mbox = m.mbox := by
  unfold mboxRateOk
  simp only
  split
  · rfl
  split
  · split <;> rfl
  · rfl

/-- Sending takes no part in the mailbox. -/
theorem sendOwn_mbox (delayMs : Nat) : (sendOwn C hal m pkt delayMs).1.mbox = m.mbox :=
  mbox_of_idle (serviceState_sendOwn C hal m pkt delayMs)

/-- Nor does answering along a path. -/
theorem sendRoutedReply_mbox (ch : McPubChannel) (text : Bytes) :
    (sendRoutedReply C hal m pkt ch text).1.mbox = m.mbox := by
  unfold sendRoutedReply
  split
  · rfl
  · exact sendOwn_mbox C hal m _ _

/-- A mention is stored; a command leaves the mailbox as it is. -/
theorem mboxHandle_mailed (ch : McPubChannel) (sender body : Bytes) :
    Mailed m (mboxHandle C hal m pkt ch sender body).1 := by
  unfold mboxHandle
  split
  · rename_i mention msg _
    exact ⟨[⟨mention, sender, msg, hal.time32⟩], rfl⟩
  · have hgate := mboxRateOk_mbox m sender hal.millis
    split <;> rename_i heq <;> rw [heq] at hgate
    · exact .of_eq hgate
    · rename_i cmd _ _ _ _ _ m₁
      have hsent := sendRoutedReply_mbox C hal m₁ pkt ch
        (snprintfS 160 (if cmd = .fetch then fetchReply m₁.mbox sender else mboxHelpText))
      simp only
      split <;> rename_i heq' <;> rw [heq'] at hsent
      · exact .of_eq (hsent.trans hgate)
      · exact .of_eq (hsent.trans hgate)

theorem sendPong_mbox (ch : McPubChannel) (rssi snrQ : Int) : (sendPong C hal m ch rssi snrQ).mbox = m.mbox := by
  unfold sendPong
  simp only
  split
  · rfl
  · rename_i out _
    have hsent := sendOwn_mbox C hal m out (replyDelayMs hal)
    split <;> rename_i heq <;> rw [heq] at hsent
    · exact hsent
    · exact hsent

theorem sendHelp_mbox (ch : McPubChannel) : (sendHelp C hal m ch).mbox = m.mbox := by
  unfold sendHelp
  split
  · rfl
  · simp only [McMesh.bump, sendOwn_mbox]

theorem sendProbe_mbox : (sendProbe C hal m).mbox = m.mbox := by
  unfold sendProbe
  simp only
  split
  · rfl
  · simp only [McMesh.bump, sendOwn_mbox]

theorem sendTod_mbox (site : RngSite) (text : Bytes) : (sendTod C hal site m text).mbox = m.mbox := by
  unfold sendTod
  split
  · rfl
  · rename_i out _
    have hsent := sendOwn_mbox C hal m out (halRngInt hal site 0 3 * 50)
    split <;> rename_i heq <;> rw [heq] at hsent
    · exact hsent
    · exact hsent

theorem meshStartProbe_mbox (ch : McPubChannel) (secs count : Int) :
    (meshStartProbe hal m ch secs count).mbox = m.mbox := by
  unfold meshStartProbe
  split
  · rfl
  · rfl

theorem meshServiceProbe_mbox (nowMs : Nat) : (meshServiceProbe C hal m nowMs).mbox = m.mbox := by
  unfold meshServiceProbe
  split
  · rfl
  split
  · rfl
  · simp only [sendProbe_mbox]

/-- The clock's answers are texts of the node's own. -/
theorem meshServiceTimeofday_mbox : (meshServiceTimeofday C hal m).mbox = m.mbox := by
  have htime : ∀ m, (answerTime C hal m).mbox = m.mbox := by
    intro m
    unfold answerTime
    split
    · simp only [sendTod_mbox]
    · rfl
  have hdate : ∀ m, (answerDate C hal m).mbox = m.mbox := by
    intro m
    unfold answerDate
    split
    · simp only [sendTod_mbox]
    · rfl
  unfold meshServiceTimeofday
  split
  · rfl
  split
  · rfl
  · rw [hdate, htime]

/-- Of the services only `#mbox` stores. -/
theorem localServices_mailed (ch : McPubChannel) (sender body : Bytes) :
    Mailed m (localServices C hal m pkt ch sender body).1 := by
  unfold localServices
  simp only
  -- ping, probe, time, date, help, mailbox, in the order of the source
  split
  · split
    · apply Mailed.of_eq
      rw [sendPong_mbox, McMesh.bump]
    · exact .of_eq rfl
  split
  · exact .of_eq (meshStartProbe_mbox hal m ch _ _)
  split
  · exact .of_eq rfl
  split
  · exact .of_eq rfl
  split
  · split
    · apply Mailed.of_eq
      simp only [sendHelp_mbox]
    · exact .of_eq rfl
  split
  · exact mboxHandle_mailed C hal m pkt ch sender body
  · exact .of_eq rfl

/-- A channel message is moderated, wakes a hotspot and is shown before it is served. -/
theorem processPublicGrp_mailed (ch : McPubChannel) : Mailed m (processPublicGrp C hal m pkt ch).1 := by
  unfold processPublicGrp
  split
  · exact .of_eq rfl
  rename_i plain _
  simp only
  split
  · apply Mailed.of_idle
    rw [serviceState_drop]
    exact serviceState_bump m fun _ => by rfl
  -- what came before the services leaves the mailbox
  have hwake := serviceState_hotspotWake C hal m pkt (grpSenderName plain mcBlacklistNameLen)
  generalize hotspotWake C hal m pkt (grpSenderName plain mcBlacklistNameLen) = m₁ at hwake
  have hshown := serviceState_monitor m₁ (.monPublic ch.name (grpText plain) pkt.rssiDbm pkt.snrQ)
  generalize m₁.monitor (.monPublic ch.name (grpText plain) pkt.rssiDbm pkt.snrQ) = m₂ at hshown
  have hsofar : Mailed m m₂ := .of_idle (hshown.trans hwake)
  split
  · exact hsofar
  split
  · exact hsofar
  · rename_i body _
    have hserv := hsofar.trans
      (localServices_mailed C hal m₂ pkt ch (grpSenderName plain mcBlacklistNameLen) body)
    split <;> rename_i heq <;> rw [heq] at hserv
    · exact hserv
    · exact hserv

/-- Only a message of a public channel reaches the services. -/
theorem recvPolicy_mailed : Mailed m (recvPolicy C hal m pkt).1 := by
  have hrefused : ∀ d, Mailed m (monPktDrop (m.bump (deniedStats d)) pkt (decisionReason d)) := by
    intro d
    apply Mailed.of_idle
    rw [serviceState_drop, serviceState_denied]
  unfold recvPolicy
  split
  · rename_i ch _
    have hpublic := processPublicGrp_mailed C hal m pkt ch
    split <;> rename_i heq <;> rw [heq] at hpublic
    · exact hpublic
    · exact hpublic
    · exact hpublic.trans (.of_eq rfl)
  · simp only
    split
    · apply Mailed.of_idle
      rw [serviceState_monitor]
      exact serviceState_bump m fun _ => by rfl
    · exact .of_eq rfl
  · exact .of_eq rfl
  · exact hrefused _

theorem advertHeard_mbox (pub : Bytes) (atype : UInt8) (aname : Bytes) :
    (advertHeard C hal m pkt pub atype aname).mbox = m.mbox := by
  unfold advertHeard
  simp only
  rcases neighborUpdate_eq hal pkt (m.bump fun s => { s with rxAdvert := s.rxAdvert + 1 }) pub
    pkt.rssiDbm pkt.snrQ with ⟨t, ht⟩
  rw [ht]
  have hlearnt : (if m.cfg.role = .hotspot ∧ configIsAffinity m.cfg aname = true then
      learnAffinity { m.bump (fun s => { s with rxAdvert := s.rxAdvert + 1 }) with neighbors := t } pub
      else { m.bump (fun s => { s with rxAdvert := s.rxAdvert + 1 }) with neighbors := t }).mbox = m.mbox := by
    split
    · rcases learnAffinity_eq { m.bump (fun s => { s with rxAdvert := s.rxAdvert + 1 }) with
        neighbors := t } pub with ⟨a, ha⟩
      rw [ha]
      rfl
    · rfl
  split
  · exact (mbox_of_idle (serviceState_hotspotWake C hal _ pkt aname)).trans hlearnt
  · exact hlearnt

/-- An advert is heard and reported. -/
theorem recvAdvert_mbox : (recvAdvert C hal m pkt).1.mbox = m.mbox := by
  unfold recvAdvert
  split
  · apply mbox_of_idle
    rw [serviceState_drop]
    exact serviceState_bumpIf m _ fun _ => by rfl
  rename_i pub _
  simp only
  split
  · apply mbox_of_idle
    rw [serviceState_drop]
    exact serviceState_bump m fun _ => by rfl
  have hheard : (if m.heardOnRf then
      advertHeard C hal m pkt pub (advertTypeName pkt).1 (advertTypeName pkt).2 else m).mbox = m.mbox := by
    split
    · exact advertHeard_mbox C hal m pkt pub _ _
    · rfl
  generalize (if m.heardOnRf then
      advertHeard C hal m pkt pub (advertTypeName pkt).1 (advertTypeName pkt).2 else m) = m₁ at hheard
  have hshown := mbox_of_idle (serviceState_monitor m₁ (.monAdvert (advertTypeName pkt).2
    (advertTypeName pkt).1 (mcAdvertExtractLocation pkt) pkt.rssiDbm pkt.snrQ))
  unfold advertReported
  simp only
  split
  · split
    · exact hshown.trans hheard
    · exact hshown.trans hheard
  · exact hshown.trans hheard

/-- A frame that is new: advert, scope, policy, relay. -/
theorem recvFresh_mailed : Mailed m (recvFresh C hal m pkt).1 := by
  -- the advert first; one that is refused ends the frame
  have hadvert : (if pktPayloadType pkt = payloadTypeAdvert then recvAdvert C hal m pkt
      else (m, some [])).1.mbox = m.mbox := by
    split
    · exact recvAdvert_mbox C hal m pkt
    · rfl
  unfold recvFresh
  simp only
  generalize (if pktPayloadType pkt = payloadTypeAdvert then recvAdvert C hal m pkt
    else (m, some [])) = r at hadvert
  rcases r with ⟨m₁, _ | aname⟩
  · exact .of_eq hadvert
  have hsofar : Mailed m m₁ := .of_eq hadvert
  simp only
  split
  · apply hsofar.trans
    apply Mailed.of_idle
    rw [serviceState_drop]
    exact serviceState_bumpIf m₁ _ fun _ => by rfl
  split
  · exact hsofar
  have hpolicy := hsofar.trans (recvPolicy_mailed C hal m₁ pkt)
  split <;> rename_i heq <;> rw [heq] at hpolicy
  · exact hpolicy
  · exact hpolicy.trans (.of_idle (serviceState_recvRelay hal _ pkt _ _))

theorem meshOnRecv_mailed (raw : Bytes) (rssiDbm snrQ : Int) :
    Mailed m (meshOnRecv C hal m raw rssiDbm snrQ).1 := by
  rcases meshOnRecv_idle C hal m raw rssiDbm snrQ with hidle | ⟨pkt, m₀, -, -, hidle, heq⟩
  · exact .of_idle hidle
  · rw [heq]
    exact (Mailed.of_idle hidle).trans (recvFresh_mailed C hal m₀ _)

/-- Sending what is queued. -/
theorem meshServiceTx_mbox (nowMs : Nat) : (meshServiceTx C hal m nowMs).mbox = m.mbox := by
  have hsent : ∀ e raw, (transmit C hal m e raw).mbox = m.mbox := by
    intro e raw
    unfold transmit
    simp only
    split
    · unfold monPktTx
      split
      · rfl
      · rfl
    · rfl
  unfold meshServiceTx
  split
  · simp only
    split
    · rfl
    split
    · rfl
    · rfl
  split
  · rfl
  simp only
  split
  · rfl
  split
  · simp only [McMesh.putTx, hsent]
  · rfl

end

/-- Every input leaves the mailbox with a few messages more. -/
theorem step_mailed (C : Crypto) (m : McMesh) (x : Input) : Mailed m (step C m x) := by
  have hclear : Mailed m m.clearEvents := .of_eq rfl
  apply hclear.trans
  -- one lemma an input
  cases x with
  | recv hal raw rssiDbm snrQ => exact meshOnRecv_mailed C hal _ raw rssiDbm snrQ
  | backbone hal raw => exact meshOnRecv_mailed C hal { m.clearEvents with rxSrc := .backbone } raw monViaBackbone 0
  | rxError crc rssiDbm snrQ =>
    apply Mailed.of_idle
    show (meshOnRxError _ crc rssiDbm snrQ).serviceState = _
    unfold meshOnRxError
    split
    · rw [serviceState_monitor]
      exact serviceState_bump _ fun _ => by rfl
    · rw [serviceState_monitor]
      exact serviceState_bump _ fun _ => by rfl
  | sendAdvert hal => exact .of_idle (serviceState_meshSendAdvert C hal _)
  | startProbe hal ch secs count => exact .of_eq (meshStartProbe_mbox hal _ ch secs count)
  | serviceProbe hal nowMs => exact .of_eq (meshServiceProbe_mbox C hal _ nowMs)
  | serviceTimeofday hal => exact .of_eq (meshServiceTimeofday_mbox C hal _)
  | serviceTx hal nowMs => exact .of_eq (meshServiceTx_mbox C hal _ nowMs)
  | advertTick _ | configure _ | reload _ | watchers _ => exact .of_eq rfl

/-- Over a run, step by step. -/
theorem run_mailed (C : Crypto) (m : McMesh) (xs : List Input) : Mailed m (run C m xs) := by
  induction xs using List.reverseRecOn with
  | nil => exact .of_eq rfl
  | append_singleton xs x ih =>
    rw [run, Runs.run_append]
    exact ih.trans (step_mailed C _ x)

/-- The mailbox of a running node is the one it started with, and the messages stored since. -/
theorem Reachable.mailed {C : Crypto} {m : McMesh} (h : Reachable C m) : ∃ xs, m.mbox = mboxStored mboxInit xs := by
  rcases h with ⟨hal, id, cfg, aprs, mon, bb, xs, rfl⟩
  exact run_mailed C (meshInit hal id cfg aprs mon bb) xs

/-! ## One message and its fetch -/

/-- How a `fetch` is answered when there is one message. -/
def mentionReply (e : McMboxEntry) : Bytes :=
  if e.sender.length + e.msg.length ≤ 106 then lit "mbox 1: " ++ entryText e
  else lit "mbox: 1 msg(s) for you, too long to show here"

/-- A reply is counted if it went out; the command does not flood. -/
def countedReply (r : McMesh × Bool) : McMesh × Bool :=
  (if r.2 then r.1.bump fun s => { s with mboxReplies := s.mboxReplies + 1 } else r.1, false)

/-- The reply fits a packet beside a name of 15 bytes, with room to spare. -/
theorem length_mentionReply (e : McMboxEntry) : (mentionReply e).length ≤ 117 := by
  unfold mentionReply
  split
  · have h8 : (lit "mbox 1: ").length = 8 := by decide
    have h2 : (lit "] ").length = 2 := by decide
    simp only [List.length_append, entryText, h8, h2, List.length_singleton]
    omega
  · decide

/-- One message: it is read out whole, or the reply says that it does not fit. -/
theorem fetchReply_one {mb : McMbox} {call : Bytes} {e : McMboxEntry} (h : heldFor mb call = [e]) :
    fetchReply mb call = mentionReply e := by
  rcases mboxFormatFetch_longest mb call 110 (by omega) with ⟨shown, heq, hfit⟩
  rw [h] at heq hfit
  -- the message alone, with what frames it, is three bytes longer
  have hlen : (fetchText ([e].take 1)).length = e.sender.length + e.msg.length + 3 := by
    have h2 : (lit "] ").length = 2 := by decide
    simp only [List.take_one, List.head?_cons, Option.toList_some, fetchText, List.map_cons, List.map_nil,
      List.intercalate_singleton, entryText, List.length_append, h2, List.length_singleton]
    omega
  have hle : shown ≤ 1 := hfit.le
  unfold fetchReply mentionReply
  rw [heq]
  simp only [List.length_singleton]
  have h1 : decimal 1 = lit "1" := by decide
  -- it is shown exactly when it fits the 110 bytes of the reply
  by_cases hshort : e.sender.length + e.msg.length ≤ 106
  · have hone : shown = 1 := by
      have hlong := hfit.longest 1 (by simp) (by rw [hlen]; omega)
      omega
    subst hone
    simp [hshort, h1, fetchText, lit]
  · have hnone : shown = 0 := by
      by_contra hshown
      have hone : shown = 1 := by omega
      have hfits := hfit.fits
      rw [hone, hlen] at hfits
      omega
    subst hnone
    simp only [hshort, h1, if_true, if_false, Nat.one_ne_zero]
    decide

/-- A fetch that is allowed answers with what the mailbox holds. -/
theorem mboxHandle_fetch {C : Crypto} {hal : Hal} {m : McMesh} {pkt : McPacket} {ch : McPubChannel}
    {sender body : Bytes} (hfetch : (mboxClassify body mcMboxCall).1 = .fetch)
    (hallowed : (mboxRateOk m sender hal.millis).2 = true) :
    mboxHandle C hal m pkt ch sender body = countedReply (sendRoutedReply C hal
      (mboxRateOk m sender hal.millis).1 pkt ch (snprintfS 160 (fetchReply m.mbox sender))) := by
  have hmbox := mboxRateOk_mbox m sender hal.millis
  unfold mboxHandle
  rcases hclass : mboxClassify body mcMboxCall with ⟨cmd, mention, msg⟩
  rw [hclass] at hfetch
  subst hfetch
  rcases hgate : mboxRateOk m sender hal.millis with ⟨m₁, ok⟩
  rw [hgate] at hallowed hmbox
  subst hallowed
  simp only [if_true]
  rw [show m₁.mbox = m.mbox from hmbox]
  rcases sendRoutedReply C hal m₁ pkt ch (snprintfS 160 (fetchReply m.mbox sender)) with ⟨m₂, sent⟩
  cases sent with
  | true => rfl
  | false => rfl

/-- The station that is mentioned fits its array. -/
theorem length_mention {body mention msg : Bytes} (h : mboxClassify body mcMboxCall = (.mention, mention, msg)) :
    mention.length ≤ 23 := by
  unfold mboxClassify at h
  split at h
  · simp only at h
    split at h
    · cases h
    · cases h
      exact List.length_take_le _ _
  · split at h
    · cases h
    · cases h

/-- A message that is the station's only one, and was not pushed out, is all its mail. -/
theorem heldFor_only {mb mb' : McMbox} {before later : List MboxMessage} {x : MboxMessage} {call : Bytes}
    (hmb : mb = mboxStored mboxInit before) (hmb' : mb' = mboxStored mb (x :: later))
    (honly : heldFor mb call = []) (hx : isFor call x.entry = true) (hlen : later.length < mcMboxMax)
    (hlater : ∀ y ∈ later, isFor call y.entry = false) : heldFor mb' call = [x.entry] := by
  subst hmb
  rw [← mboxStored_append] at hmb'
  subst hmb'
  have hlen' : later.length < 32 := hlen
  unfold heldFor at honly ⊢
  rw [mboxHeld_stored] at honly ⊢
  rw [List.map_append, List.map_cons, List.drop_append_of_le_length (by simp [mcMboxMax]; omega),
    List.filter_append, List.filter_cons_of_pos hx]
  -- what was stored before is none of the station's
  have hold : ((before.map MboxMessage.entry).drop ((before ++ x :: later).length - mcMboxMax)).filter (isFor call) = [] := by
    rw [List.filter_eq_nil_iff] at honly ⊢
    intro e he
    apply honly e
    have hdrop : (before ++ x :: later).length - mcMboxMax =
        (before.length - mcMboxMax) + ((before ++ x :: later).length - mcMboxMax - (before.length - mcMboxMax)) := by
      simp only [List.length_append, List.length_cons, mcMboxMax]
      omega
    rw [hdrop, ← List.drop_drop] at he
    exact List.mem_of_mem_drop he
  -- nor is what was stored after
  have hnew : (later.map MboxMessage.entry).filter (isFor call) = [] := by
    rw [List.filter_eq_nil_iff]
    intro e he
    rcases List.mem_map.mp he with ⟨y, hy, rfl⟩
    simp [hlater y hy]
  rw [hold, hnew]
  rfl

/-- A mention is stored and counted. -/
theorem mboxHandle_mention {C : Crypto} {hal : Hal} {m : McMesh} {pkt : McPacket} {ch : McPubChannel}
    {sender body mention msg : Bytes} (hclass : mboxClassify body mcMboxCall = (.mention, mention, msg)) :
    mboxHandle C hal m pkt ch sender body =
      (({ m with mbox := mboxStore m.mbox mention sender msg hal.time32 } : McMesh).bump fun s =>
        { s with mboxStored := s.mboxStored + 1 }, true) := by
  unfold mboxHandle
  rw [hclass]

/-- The entry of a mention: its station was cut to size when it was read. -/
theorem entry_mention {body mention msg sender : Bytes} {ts : UInt32}
    (hclass : mboxClassify body mcMboxCall = (.mention, mention, msg)) :
    MboxMessage.entry ⟨mention, sender, msg, ts⟩ = ⟨mention, snprintfS mcMboxCall sender, snprintfS mcMboxMsg msg, ts⟩ := by
  have hcut : snprintfS mcMboxCall mention = mention := List.take_of_length_le (length_mention hclass)
  rw [MboxMessage.entry, hcut]

/-- A station reads its mail under any case and SSID. -/
theorem heldFor_sameStation {fetcher mention : Bytes} (h : SameStation fetcher mention) (mb : McMbox) :
    heldFor mb fetcher = heldFor mb mention := by
  have hkey : (baseCall fetcher mcMboxCall).map tolower = (baseCall mention mcMboxCall).map tolower := by
    simpa [SameStation, strcaseEq] using h
  have hsame : ∀ e, isFor fetcher e = isFor mention e := by
    intro e
    simp only [isFor, strcaseEq, hkey]
  simp only [heldFor, funext hsame]

/-- The only message for a station is what its fetch is answered with. -/
theorem fetch_answered {C : Crypto} {hal : Hal} {m : McMesh} {pkt : McPacket} {ch : McPubChannel}
    {fetcher command : Bytes} {e : McMboxEntry} (hmail : heldFor m.mbox fetcher = [e]) (hname : m.cfg.name.length ≤ 15)
    (hfetch : (mboxClassify command mcMboxCall).1 = .fetch) (hallowed : (mboxRateOk m fetcher hal.millis).2 = true) :
    ∃ out, channelBuildTxt C ch m.cfg.name (mentionReply e) hal.time32 routeTypeDirect = some out ∧
      mboxHandle C hal m pkt ch fetcher command = countedReply
        (sendOwn C hal (mboxRateOk m fetcher hal.millis).1 (routeBack out pkt) (replyDelayMs hal)) := by
  have hreply := fetchReply_one hmail
  have hshort := length_mentionReply e
  generalize mentionReply e = reply at hreply hshort
  have hfits := (channelBuildTxt_isSome_iff C ch m.cfg.name reply hal.time32 routeTypeDirect).mpr (by omega)
  rcases Option.isSome_iff_exists.mp hfits with ⟨out, hout⟩
  refine ⟨out, hout, ?_⟩
  have hwhole : snprintfS 160 reply = reply := List.take_of_length_le (by omega)
  have hcfg : (mboxRateOk m fetcher hal.millis).1.cfg = m.cfg := (mboxRateOk_noted m fetcher hal.millis).cfg
  rw [mboxHandle_fetch hfetch hallowed, hreply, hwhole]
  unfold sendRoutedReply
  rw [hcfg, hout]

/-- The mail of a station, after its only message was stored and others since. -/
theorem heldFor_mention {C : Crypto} {hal : Hal} {m m' : McMesh} {pkt : McPacket} {ch : McPubChannel}
    {sender body mention msg fetcher : Bytes} {before later : List MboxMessage}
    (hmbox : m.mbox = mboxStored mboxInit before)
    (hclass : mboxClassify body mcMboxCall = (.mention, mention, msg)) (honly : heldFor m.mbox mention = [])
    (hlater : m'.mbox = mboxStored (mboxHandle C hal m pkt ch sender body).1.mbox later)
    (hlen : later.length < mcMboxMax) (hnone : ∀ y ∈ later, isFor mention y.entry = false)
    (hstation : SameStation fetcher mention) :
    heldFor m'.mbox fetcher = [⟨mention, snprintfS mcMboxCall sender, snprintfS mcMboxMsg msg, hal.time32⟩] := by
  have hmail : heldFor m'.mbox mention = [MboxMessage.entry ⟨mention, sender, msg, hal.time32⟩] := by
    apply heldFor_only (x := ⟨mention, sender, msg, hal.time32⟩) hmbox _ honly _ hlen hnone
    · rw [hlater, mboxHandle_mention hclass]
      rfl
    · rw [entry_mention hclass]
      simp [isFor, strcaseEq]
  rw [heldFor_sameStation hstation, hmail, entry_mention hclass]

/-- A mention that was stored, as the only one for its station, is what an allowed fetch of that
station is answered with, until 32 more messages came in; one of more than 106 bytes is announced
in its place. The reply is a packet, for a name of up to 15 bytes. -/
theorem mention_fetched {C : Crypto} {hal hal' : Hal} {m m' : McMesh} {pkt pkt' : McPacket}
    {ch ch' : McPubChannel} {sender body mention msg fetcher command : Bytes} {before later : List MboxMessage}
    (hmbox : m.mbox = mboxStored mboxInit before)
    (hclass : mboxClassify body mcMboxCall = (.mention, mention, msg)) (honly : heldFor m.mbox mention = [])
    (hlater : m'.mbox = mboxStored (mboxHandle C hal m pkt ch sender body).1.mbox later)
    (hlen : later.length < mcMboxMax) (hnone : ∀ y ∈ later, isFor mention y.entry = false)
    (hname : m'.cfg.name.length ≤ 15) (hfetch : (mboxClassify command mcMboxCall).1 = .fetch)
    (hstation : SameStation fetcher mention) (hallowed : (mboxRateOk m' fetcher hal'.millis).2 = true) :
    (mboxHandle C hal m pkt ch sender body).1.stats.mboxStored = m.stats.mboxStored + 1 ∧
      ∃ out, channelBuildTxt C ch' m'.cfg.name
          (mentionReply ⟨mention, snprintfS mcMboxCall sender, snprintfS mcMboxMsg msg, hal.time32⟩)
          hal'.time32 routeTypeDirect = some out ∧
        mboxHandle C hal' m' pkt' ch' fetcher command = countedReply
          (sendOwn C hal' (mboxRateOk m' fetcher hal'.millis).1 (routeBack out pkt') (replyDelayMs hal')) := by
  constructor
  · rw [mboxHandle_mention hclass]
    rfl
  · exact fetch_answered (heldFor_mention hmbox hclass honly hlater hlen hnone hstation) hname hfetch hallowed

/-- The repeater with the mailbox, after it has heard the message. -/
def mentionHandled (sender body : Bytes) : McMesh :=
  (mboxHandle mboxCrypto (.still 0) mboxRepeater McPacket.zero mboxChannel sender body).1

theorem mention_fetched_hi :
    (mentionHandled (lit "OR7F") (lit "@ON6XX hi")).stats.mboxStored = mboxRepeater.stats.mboxStored + 1 ∧
      ∃ out, channelBuildTxt mboxCrypto mboxChannel (mentionHandled (lit "OR7F") (lit "@ON6XX hi")).cfg.name
          (mentionReply ⟨lit "ON6XX", snprintfS mcMboxCall (lit "OR7F"), snprintfS mcMboxMsg (lit "hi"),
            (Hal.still 0).time32⟩) (Hal.still 9000).time32 routeTypeDirect = some out ∧
        mboxHandle mboxCrypto (.still 9000) (mentionHandled (lit "OR7F") (lit "@ON6XX hi")) McPacket.zero
            mboxChannel (lit "on6xx-7") (lit "fetch") = countedReply
          (sendOwn mboxCrypto (.still 9000)
            (mboxRateOk (mentionHandled (lit "OR7F") (lit "@ON6XX hi")) (lit "on6xx-7") (Hal.still 9000).millis).1
            (routeBack out McPacket.zero) (replyDelayMs (.still 9000))) :=
  mention_fetched (show mboxRepeater.mbox = mboxStored mboxInit [] from rfl) (by decide) (by decide)
    (show (mentionHandled (lit "OR7F") (lit "@ON6XX hi")).mbox =
      mboxStored (mentionHandled (lit "OR7F") (lit "@ON6XX hi")).mbox [] from rfl)
    (by decide) (by simp) (by decide) (by decide) (by unfold SameStation; decide) (by decide)

/-- So it is over any run of a node: what was stored since the mention is a list of messages, and
while these are fewer than 32 and none is for the station, the mention answers its fetch. -/
theorem mention_fetched_run {C : Crypto} {hal hal' : Hal} {m : McMesh} (hm : Reachable C m) {pkt pkt' : McPacket}
    {ch ch' : McPubChannel} {sender body mention msg fetcher command : Bytes}
    (hclass : mboxClassify body mcMboxCall = (.mention, mention, msg)) (honly : heldFor m.mbox mention = [])
    (xs : List Input) {m' : McMesh} (hrun : m' = run C (mboxHandle C hal m pkt ch sender body).1 xs)
    (hname : m'.cfg.name.length ≤ 15) (hfetch : (mboxClassify command mcMboxCall).1 = .fetch)
    (hstation : SameStation fetcher mention) (hallowed : (mboxRateOk m' fetcher hal'.millis).2 = true) :
    ∃ later, m'.mbox = mboxStored (mboxHandle C hal m pkt ch sender body).1.mbox later ∧
      (later.length < mcMboxMax → (∀ y ∈ later, isFor mention y.entry = false) →
        ∃ out, channelBuildTxt C ch' m'.cfg.name
            (mentionReply ⟨mention, snprintfS mcMboxCall sender, snprintfS mcMboxMsg msg, hal.time32⟩)
            hal'.time32 routeTypeDirect = some out ∧
          mboxHandle C hal' m' pkt' ch' fetcher command = countedReply
            (sendOwn C hal' (mboxRateOk m' fetcher hal'.millis).1 (routeBack out pkt') (replyDelayMs hal'))) := by
  rcases hm.mailed with ⟨before, hbefore⟩
  rcases run_mailed C (mboxHandle C hal m pkt ch sender body).1 xs with ⟨later, hlater⟩
  rw [← hrun] at hlater
  refine ⟨later, hlater, fun hlen hnone => ?_⟩
  exact fetch_answered (heldFor_mention hbefore hclass honly hlater hlen hnone hstation) hname hfetch hallowed

/-- 23 bytes of a name, and a message of 84. -/
def longName : Bytes := lit "a station on the moor 1"

def longMention : Bytes := lit "@ON6XX " ++ List.replicate 84 120

/-- It fits a packet and is stored, but no fetch shows it. -/
theorem longMention_unfetched :
    (channelBuildTxt mboxCrypto mboxChannel longName longMention 0 routeTypeFlood).isSome = true ∧
      (mentionHandled longName longMention).stats.mboxStored = 1 ∧
      heldFor (mentionHandled longName longMention).mbox (lit "ON6XX") =
        [⟨lit "ON6XX", longName, List.replicate 84 120, 0⟩] ∧
      (mentionHandled longName longMention).cfg.name.length ≤ 15 ∧
      (mboxRateOk (mentionHandled longName longMention) (lit "ON6XX") 9000).2 = true ∧
      snprintfS 160 (fetchReply (mentionHandled longName longMention).mbox (lit "ON6XX")) =
        lit "mbox: 1 msg(s) for you, too long to show here" ∧
      ¬ List.replicate 84 120 <:+: lit "mbox: 1 msg(s) for you, too long to show here" := by
  decide +kernel

end Meshcore
