import MeshcoreRepeater.Mesh.Frame
import MeshcoreRepeater.Mesh.Texts

/-! # What the services do

Every local service, the self-advert and the timed services are chains of notes and
packets of the node's own. The chain is proved once for each function, with what the
packets are (`Sends`); what chains preserve is proved by induction on them.

* `Sends.txq`, `Sends.silent`: what a chain does to the queue.
* `mboxHandle_sends`, `localServices_sends`: the chains of the services.
-/

namespace Meshcore

open ByteLib

/-- A chain of notes and at most `k` own packets, each sent after its hash was
recorded. -/
inductive Services (hal : Hal) : Nat → McMesh → McMesh → Prop where
  | refl (k : Nat) (m : McMesh) : Services hal k m m
  | note {k : Nat} {m m' m'' : McMesh} :
      Services hal k m m' → Noted m' m'' → Services hal k m m''
  | send {k : Nat} {m m' : McMesh} (hash : Bytes) (pkt : McPacket) (priority delayMs : Nat)
      (power : Int) : Services hal k m m' →
      Services hal (k + 1) m
        (enqueue hal (seenCheckAndAdd m' hash).1 pkt priority delayMs power true).1

namespace Services

variable {hal : Hal} {j k : Nat} {m m' m'' : McMesh}

/-- A note alone is a chain. -/
theorem of_noted (h : Noted m m') : Services hal k m m' := (refl k m).note h

/-- A chain that may send more. -/
theorem mono (h : Services hal j m m') (hle : j ≤ k) : Services hal k m m' := by
  induction h generalizing k with
  | refl => exact refl k _
  | note _ hn ih => exact (ih hle).note hn
  | send hash pkt priority delayMs power _ ih =>
    obtain ⟨k, rfl⟩ : ∃ k', k = k' + 1 := ⟨k - 1, by omega⟩
    exact (ih (by omega)).send hash pkt priority delayMs power

/-- The chains count together. -/
theorem trans (h : Services hal j m m') (h' : Services hal k m' m'') :
    Services hal (j + k) m m'' := by
  induction h' with
  | refl => exact h.mono (by omega)
  | note _ hn ih => exact (ih h).note hn
  | send hash pkt priority delayMs power _ ih => exact (ih h).send hash pkt priority delayMs power

/-! ## What a chain preserves -/

/-- The configuration, the identity and the source of the frame stay. -/
theorem fixed (h : Services hal k m m') : m'.fixed = m.fixed := by
  induction h with
  | refl => rfl
  | note _ hn ih => exact hn.fixed.trans ih
  | @send _ _ m₂ hash pkt priority delayMs power _ ih =>
    have hrec := seenCheckAndAdd_remembered m₂ hash
    rcases enqueue_cases hal (seenCheckAndAdd m₂ hash).1 pkt priority delayMs power true with
      ⟨-, -, hn⟩ | ⟨-, -, hq⟩
    · exact hn.fixed.trans (hrec.fixed.trans ih)
    · exact hq.fixed.trans (hrec.fixed.trans ih)

theorem cfg (h : Services hal k m m') : m'.cfg = m.cfg := congrArg MeshFixed.cfg h.fixed

theorem id (h : Services hal k m m') : m'.id = m.id := congrArg MeshFixed.id h.fixed

theorem rxSrc (h : Services hal k m m') : m'.rxSrc = m.rxSrc := congrArg MeshFixed.rxSrc h.fixed

theorem neighbors (h : Services hal k m m') : m'.neighbors = m.neighbors :=
  congrArg MeshFixed.neighbors h.fixed

/-- A chain sends, it drops no relay. -/
theorem drops (h : Services hal k m m') : m'.stats.fwdDropped = m.stats.fwdDropped := by
  induction h with
  | refl => rfl
  | note _ hn ih => exact hn.drops.trans ih
  | @send _ _ m₂ hash pkt priority delayMs power _ ih =>
    have hrec := seenCheckAndAdd_remembered m₂ hash
    rcases enqueue_cases hal (seenCheckAndAdd m₂ hash).1 pkt priority delayMs power true with
      ⟨-, -, hn⟩ | ⟨-, -, hq⟩
    · exact hn.drops.trans (hrec.drops.trans ih)
    · exact hq.drops.trans (hrec.drops.trans ih)

/-- Each packet was recorded before it was sent. -/
theorem ringLog (h : Services hal k m m') : RingLog k m m' := by
  induction h with
  | refl => exact .of_eq rfl rfl
  | note _ hn ih => exact ih.then_eq hn.seen hn.recorded
  | @send _ _ m₂ hash pkt priority delayMs power _ ih =>
    have hlog := ih.trans (seenCheckAndAdd_remembered m₂ hash).ringLog
    rcases enqueue_cases hal (seenCheckAndAdd m₂ hash).1 pkt priority delayMs power true with
      ⟨-, -, hn⟩ | ⟨-, -, hq⟩
    · exact hlog.then_eq hn.seen hn.recorded
    · exact hlog.then_eq hq.seen hq.recorded

/-- The only change to the queue: own entries in free slots. -/
theorem txq (h : Services hal k m m') (i : Fin meshTxqSize) :
    m'.txq i = m.txq i ∨
      ((m.txq i).used = false ∧ (m'.txq i).used = true ∧ (m'.txq i).own = true) := by
  induction h with
  | refl => exact .inl rfl
  | note _ hn ih => rwa [hn.txq]
  | @send _ m₁ m₂ hash pkt priority delayMs power _ ih =>
    have hrec := seenCheckAndAdd_remembered m₂ hash
    rcases enqueue_cases hal (seenCheckAndAdd m₂ hash).1 pkt priority delayMs power true with
      ⟨-, -, hn⟩ | ⟨-, -, hq⟩
    · rwa [hn.txq, hrec.txq]
    · obtain ⟨j, hslot, htxq⟩ := hq.slot
      rw [hrec.txq] at hslot htxq
      rw [htxq]
      by_cases hij : i = j
      · -- the slot just taken was free, before this step and at the start
        subst hij
        have hfree := freeSlot_some hslot
        rcases ih with heq | ⟨-, hused, -⟩
        · exact .inr ⟨heq ▸ hfree, by simp, by simp⟩
        · rw [hfree] at hused
          cases hused
      · simpa [hij] using ih

/-- Whatever is offered is the node's own, and offered on RF traffic only. -/
theorem offers (h : Services hal k m m') {raw : Bytes} {own : Bool}
    (he : Event.offer raw own ∈ m'.events) :
    Event.offer raw own ∈ m.events ∨ (own = true ∧ m.rxSrc ≠ .backbone) := by
  induction h with
  | refl => exact .inl he
  | note _ hn ih =>
    rcases hn.reports _ he with hin | hrep
    · exact ih hin
    · cases hrep
  | @send _ m₁ m₂ hash pkt priority delayMs power hs ih =>
    have hrec := seenCheckAndAdd_remembered m₂ hash
    rcases enqueue_cases hal (seenCheckAndAdd m₂ hash).1 pkt priority delayMs power true with
      ⟨-, -, hn⟩ | ⟨-, -, hq⟩
    · rcases hn.reports _ he with hin | hrep
      · exact ih (hrec.offers _ _ hin)
      · cases hrep
    · rcases hq.offers _ he with hin | hrep | ⟨hsrc, raw', -, heq⟩
      · exact ih (hrec.offers _ _ hin)
      · cases hrep
      -- what `enqueue` offers is what it was given
      · cases heq
        rw [hrec.rxSrc, hs.rxSrc] at hsrc
        exact .inr ⟨rfl, hsrc⟩

/-- A silent node queues and offers nothing. -/
theorem silent (h : Services hal k m m') (hs : meshRfSilent m hal.millis = true) :
    m'.txq = m.txq ∧ ∀ raw own, Event.offer raw own ∈ m'.events → Event.offer raw own ∈ m.events := by
  induction h with
  | refl => exact ⟨rfl, fun _ _ he => he⟩
  | note _ hn ih =>
    obtain ⟨htxq, hoff⟩ := ih hs
    refine ⟨hn.txq.trans htxq, ?_⟩
    intro raw own he
    rcases hn.reports _ he with hin | hrep
    · exact hoff raw own hin
    · cases hrep
  | @send _ m₁ m₂ hash pkt priority delayMs power hserv ih =>
    obtain ⟨htxq, hoff⟩ := ih hs
    have hrec := seenCheckAndAdd_remembered m₂ hash
    -- recording the hash does not end the silence
    have hs₂ : meshRfSilent (seenCheckAndAdd m₂ hash).1 hal.millis = true := by
      rwa [meshRfSilent_congr (hrec.fixed.trans hserv.fixed)]
    rcases enqueue_cases hal (seenCheckAndAdd m₂ hash).1 pkt priority delayMs power true with
      ⟨-, -, hn⟩ | ⟨hs', -, -⟩
    · refine ⟨hn.txq.trans (hrec.txq.trans htxq), ?_⟩
      intro raw own he
      rcases hn.reports _ he with hin | hrep
      · exact hoff raw own (hrec.offers _ _ hin)
      · cases hrep
    · rw [hs₂] at hs'
      cases hs'

/-- At most `k` slots are taken. -/
theorem meshTxqFree_le (h : Services hal k m m') : meshTxqFree m ≤ meshTxqFree m' + k := by
  induction h with
  | refl => omega
  | note _ hn ih => rwa [meshTxqFree_congr hn.txq]
  | @send _ m₁ m₂ hash pkt priority delayMs power _ ih =>
    have hrec := meshTxqFree_congr (seenCheckAndAdd_remembered m₂ hash).txq
    rcases enqueue_cases hal (seenCheckAndAdd m₂ hash).1 pkt priority delayMs power true with
      ⟨-, -, hn⟩ | ⟨-, -, hq⟩
    · rw [meshTxqFree_congr hn.txq]
      omega
    -- the new entry takes one slot
    · have hfree := hq.meshTxqFree rfl
      omega

end Services

/-! ## What the packets are -/

/-- At most `k` slots have changed: they were free, and hold own packets with the
property `P`. -/
def QueuesOwn (P : McPacket → Prop) (k : Nat) (m m' : McMesh) : Prop :=
  ∃ changed : List (Fin meshTxqSize), changed.length ≤ k ∧ ∀ i, m'.txq i = m.txq i ∨
    (i ∈ changed ∧ (m.txq i).used = false ∧ (m'.txq i).used = true ∧ (m'.txq i).own = true ∧
      P (m'.txq i).pkt)

namespace QueuesOwn

variable {P Q : McPacket → Prop} {j k : Nat} {m m' m'' : McMesh}

/-- Nothing changed. -/
theorem of_eq (h : m'.txq = m.txq) : QueuesOwn P k m m' :=
  ⟨[], Nat.zero_le k, fun i => .inl (congrFun h i)⟩

/-- A weaker property of the packets. -/
theorem imp (h : QueuesOwn P k m m') (hPQ : ∀ pkt, P pkt → Q pkt) : QueuesOwn Q k m m' := by
  rcases h with ⟨changed, hlen, hslots⟩
  refine ⟨changed, hlen, ?_⟩
  intro i
  rcases hslots i with hsame | ⟨hi, hfree, hused, hown, hP⟩
  · exact .inl hsame
  · exact .inr ⟨hi, hfree, hused, hown, hPQ _ hP⟩

theorem trans (h : QueuesOwn P j m m') (h' : QueuesOwn P k m' m'') : QueuesOwn P (j + k) m m'' := by
  rcases h with ⟨changed, hlen, hslots⟩
  rcases h' with ⟨changed', hlen', hslots'⟩
  refine ⟨changed ++ changed', by rw [List.length_append]; omega, ?_⟩
  intro i
  rw [List.mem_append]
  rcases hslots i with hsame | ⟨hi, hfree, hused, hown, hP⟩
  · rcases hslots' i with hsame' | ⟨hi', hfree', hrest⟩
    · exact .inl (hsame'.trans hsame)
    · exact .inr ⟨.inr hi', hsame ▸ hfree', hrest⟩
  · rcases hslots' i with hsame' | ⟨-, hfree', -⟩
    · rw [hsame']
      exact .inr ⟨.inl hi, hfree, hused, hown, hP⟩
    · rw [hused] at hfree'
      cases hfree'

end QueuesOwn

/-- The same chain, where every packet sent has the property `P`. -/
inductive Sends (hal : Hal) (P : McPacket → Prop) : Nat → McMesh → McMesh → Prop where
  | refl (k : Nat) (m : McMesh) : Sends hal P k m m
  | note {k : Nat} {m m' m'' : McMesh} :
      Sends hal P k m m' → Noted m' m'' → Sends hal P k m m''
  | send {k : Nat} {m m' : McMesh} (hash : Bytes) (pkt : McPacket) (priority delayMs : Nat)
      (power : Int) : Sends hal P k m m' → P pkt →
      Sends hal P (k + 1) m
        (enqueue hal (seenCheckAndAdd m' hash).1 pkt priority delayMs power true).1

namespace Sends

variable {hal : Hal} {P Q : McPacket → Prop} {j k : Nat} {m m' m'' : McMesh}

/-- A chain that says what it sends is a chain. -/
theorem services (h : Sends hal P k m m') : Services hal k m m' := by
  induction h with
  | refl => exact .refl _ _
  | note _ hn ih => exact ih.note hn
  | send hash pkt priority delayMs power _ _ ih => exact ih.send hash pkt priority delayMs power

theorem imp (h : Sends hal P k m m') (hPQ : ∀ pkt, P pkt → Q pkt) : Sends hal Q k m m' := by
  induction h with
  | refl => exact refl _ _
  | note _ hn ih => exact ih.note hn
  | send hash pkt priority delayMs power _ hP ih =>
    exact ih.send hash pkt priority delayMs power (hPQ pkt hP)

theorem of_noted (h : Noted m m') : Sends hal P k m m' := (refl k m).note h

/-- A note in front of a chain. -/
theorem after (h : Sends hal P k m' m'') (hn : Noted m m') : Sends hal P k m m'' := by
  induction h with
  | refl => exact of_noted hn
  | note _ hn' ih => exact (ih hn).note hn'
  | send hash pkt priority delayMs power _ hP ih =>
    exact (ih hn).send hash pkt priority delayMs power hP

theorem mono (h : Sends hal P j m m') (hle : j ≤ k) : Sends hal P k m m' := by
  induction h generalizing k with
  | refl => exact refl k _
  | note _ hn ih => exact (ih hle).note hn
  | send hash pkt priority delayMs power _ hP ih =>
    rcases k with _ | k
    · omega
    · exact (ih (by omega)).send hash pkt priority delayMs power hP

theorem trans (h : Sends hal P j m m') (h' : Sends hal P k m' m'') :
    Sends hal P (j + k) m m'' := by
  induction h' with
  | refl k => exact h.mono (by omega)
  | note _ hn ih => exact (ih h).note hn
  | send hash pkt priority delayMs power _ hP ih =>
    exact (ih h).send hash pkt priority delayMs power hP

/-- The slots that have changed: `k` at most. -/
theorem slots (h : Sends hal P k m m') : QueuesOwn P k m m' := by
  induction h with
  | refl => exact .of_eq rfl
  | note _ hn ih =>
    rcases ih with ⟨changed, hlen, hslots⟩
    rw [QueuesOwn, hn.txq]
    exact ⟨changed, hlen, hslots⟩
  | @send _ _ m₂ hash pkt priority delayMs power _ hP ih =>
    have hrec := seenCheckAndAdd_remembered m₂ hash
    rcases enqueue_cases hal (seenCheckAndAdd m₂ hash).1 pkt priority delayMs power true with
      ⟨-, -, hn⟩ | ⟨-, -, hq⟩
    · exact ih.trans (.of_eq (hn.txq.trans hrec.txq))
    · refine ih.trans (k := 1) ?_
      rcases hq.slot with ⟨slot, hslot, htxq⟩
      rw [hrec.txq] at hslot htxq
      -- the one free slot that `enqueue` took
      refine ⟨[slot], le_rfl, ?_⟩
      intro i
      rw [htxq]
      by_cases hi : i = slot
      · subst hi
        exact .inr ⟨List.mem_singleton_self i, freeSlot_some hslot, by simp, by simp, by simpa using hP⟩
      · exact .inl (Function.update_of_ne hi _ _)

end Sends

/-- A text of a service, as a node named `name` sends it by `route`, whatever the path. -/
def IsText (C : Crypto) (name : Bytes) (route : UInt8) (pkt : McPacket) : Prop :=
  ∃ ch text ts base, ServiceText route text ∧ channelBuildTxt C ch name text ts route = some base ∧
    pkt.header = base.header ∧ pkt.payload = base.payload

/-- A self-advert of the identity. -/
def IsAdvert (C : Crypto) (id : McIdentity) (pkt : McPacket) : Prop :=
  ∃ info ts, mcAdvertBuild C id info ts = some pkt

/-- A text that floods, or goes back along a path. -/
def IsServiceText (C : Crypto) (name : Bytes) (pkt : McPacket) : Prop :=
  IsText C name routeTypeFlood pkt ∨ IsText C name routeTypeDirect pkt

/-! ## The services -/

section
variable (C : Crypto) (hal : Hal) (m : McMesh)

/-- The one packet is recorded under its hash, then queued. -/
theorem sendOwn_sends {P : McPacket → Prop} {pkt : McPacket} (hP : P pkt) (delayMs : Nat) :
    Sends hal P 1 m (sendOwn C hal m pkt delayMs).1 :=
  (Sends.refl 0 m).send (pktCalcHash C pkt) pkt 1 delayMs (ownTxPower (recordOwn C m pkt)) hP

/-- The pong, if it was encoded. -/
theorem sendPong_sends (ch : McPubChannel) (rssi snrQ : Int) :
    Sends hal (IsText C m.cfg.name routeTypeFlood) 1 m (sendPong C hal m ch rssi snrQ) := by
  unfold sendPong
  simp only
  split
  · exact .refl 1 m
  · rename_i pkt hbuild
    have hpong : IsText C m.cfg.name routeTypeFlood pkt :=
      ⟨ch, _, hal.time32, pkt, .pong rssi snrQ, hbuild, rfl, rfl⟩
    have h := sendOwn_sends C hal m hpong (replyDelayMs hal)
    split <;> rename_i heq <;> rw [heq] at h
    · exact h.note (.bump _ fun _ => rfl)
    · exact h

/-- Asking for the time only notes who asked. -/
theorem todArm_noted (ch : McPubChannel) (wantTime wantDate : Bool) :
    Noted m (todArm hal m ch wantTime wantDate) := .of_eq rfl rfl rfl rfl rfl

/-- The time or the date, as text on the channel that asked. -/
theorem sendTod_sends (site : RngSite) {text : Bytes} (htext : ServiceText routeTypeFlood text) :
    Sends hal (IsText C m.cfg.name routeTypeFlood) 1 m (sendTod C hal site m text) := by
  unfold sendTod
  split
  · exact .refl 1 m
  · rename_i pkt hbuild
    have htod : IsText C m.cfg.name routeTypeFlood pkt :=
      ⟨m.todCh, text, hal.time32, pkt, htext, hbuild, rfl, rfl⟩
    have h := sendOwn_sends C hal m htod (halRngInt hal site 0 3 * 50)
    split <;> rename_i heq <;> rw [heq] at h
    · exact h.note (.bump _ fun _ => rfl)
    · exact h

/-- The help text. -/
theorem sendHelp_sends (ch : McPubChannel) :
    Sends hal (IsText C m.cfg.name routeTypeFlood) 1 m (sendHelp C hal m ch) := by
  unfold sendHelp
  split
  · exact .refl 1 m
  · rename_i pkt hbuild
    have hhelp : IsText C m.cfg.name routeTypeFlood pkt :=
      ⟨ch, _, hal.time32, pkt, .help m.cfg, hbuild, rfl, rfl⟩
    have h := sendOwn_sends C hal m hhelp (replyDelayMs hal)
    exact h.note (.bump _ fun _ => rfl)

/-- A reply goes back along the path of the packet, so it is DIRECT. -/
theorem sendRoutedReply_sends (rx : McPacket) (ch : McPubChannel) {text : Bytes}
    (htext : ServiceText routeTypeDirect text) :
    Sends hal (IsText C m.cfg.name routeTypeDirect) 1 m (sendRoutedReply C hal m rx ch text).1 := by
  unfold sendRoutedReply
  split
  · exact .refl 1 m
  · rename_i pkt hbuild
    have hreply : IsText C m.cfg.name routeTypeDirect (routeBack pkt rx) := by
      refine ⟨ch, text, hal.time32, pkt, htext, hbuild, ?_⟩
      unfold routeBack
      simp only
      split
      · exact ⟨rfl, rfl⟩
      · exact ⟨rfl, rfl⟩
    exact sendOwn_sends C hal m hreply (replyDelayMs hal)

/-- The gate only remembers who was let through. -/
theorem mboxRateOk_noted (sender : Bytes) (now : Nat) : Noted m (mboxRateOk m sender now).1 := by
  unfold mboxRateOk
  simp only
  split
  · exact .refl m
  split
  · split
    · exact .refl m
    · exact .of_eq rfl rfl rfl rfl rfl
  · exact .of_eq rfl rfl rfl rfl rfl

/-- The mailbox answers by a routed reply. -/
theorem mboxHandle_sends (pkt : McPacket) (ch : McPubChannel) (sender body : Bytes) :
    Sends hal (IsText C m.cfg.name routeTypeDirect) 1 m (mboxHandle C hal m pkt ch sender body).1 := by
  unfold mboxHandle
  split
  -- a mention is stored, and nothing is sent
  · exact .of_noted (.of_eq rfl rfl rfl rfl rfl)
  · rename_i cmd _ _ _ _
    have hgate := mboxRateOk_noted m sender hal.millis
    split <;> rename_i heq <;> rw [heq] at hgate
    -- the gate is shut
    · exact .of_noted hgate
    · rename_i m₁
      have htext : ServiceText routeTypeDirect
          (snprintfS 160 (if cmd = .fetch then fetchReply m₁.mbox sender else mboxHelpText)) := by
        split
        · exact .fetch m₁.mbox sender
        · exact .mboxHelp
      have hreply := sendRoutedReply_sends C hal m₁ pkt ch htext
      rw [hgate.cfg] at hreply
      simp only
      split <;> rename_i hsent <;> rw [hsent] at hreply
      -- the reply went out and is counted
      · exact (hreply.after hgate).note (.of_eq rfl rfl rfl rfl rfl)
      · exact hreply.after hgate

/-- A probe is armed, and sent by the timed service. -/
theorem meshStartProbe_noted (ch : McPubChannel) (secs count : Int) :
    Noted m (meshStartProbe hal m ch secs count) := by
  unfold meshStartProbe
  split
  · exact .of_eq rfl rfl rfl rfl rfl
  · exact .of_eq rfl rfl rfl rfl rfl

/-- The probe's text. -/
theorem sendProbe_sends :
    Sends hal (IsText C m.cfg.name routeTypeFlood) 1 m (sendProbe C hal m) := by
  unfold sendProbe
  simp only
  split
  · exact .refl 1 m
  · rename_i pkt hbuild
    have hprobe : IsText C m.cfg.name routeTypeFlood pkt :=
      ⟨m.probeCh, _, hal.time32, pkt, .probe m.probeSeq m.probeTotal, hbuild, rfl, rfl⟩
    have h := sendOwn_sends C hal m hprobe (halRngInt hal .probe 0 3 * 50)
    exact h.note (.bump _ fun _ => rfl)

/-- The timed probe sends at most one text a call. -/
theorem meshServiceProbe_sends (nowMs : Nat) :
    Sends hal (IsText C m.cfg.name routeTypeFlood) 1 m (meshServiceProbe C hal m nowMs) := by
  unfold meshServiceProbe
  split
  · exact .refl 1 m
  split
  · exact .of_noted (.of_eq rfl rfl rfl rfl rfl)
  · -- count up, send, count down
    have hseq : Noted m { m with probeSeq := m.probeSeq + 1 } := .of_eq rfl rfl rfl rfl rfl
    have hsend := (sendProbe_sends C hal { m with probeSeq := m.probeSeq + 1 }).after hseq
    exact hsend.note (.of_eq rfl rfl rfl rfl rfl)

/-- So it is a chain of one. -/
theorem meshServiceProbe_services (nowMs : Nat) :
    Services hal 1 m (meshServiceProbe C hal m nowMs) := (meshServiceProbe_sends C hal m nowMs).services

/-- The time, if it was asked for. -/
theorem answerTime_sends :
    Sends hal (IsText C m.cfg.name routeTypeFlood) 1 m (answerTime C hal m) := by
  unfold answerTime
  split
  · have h := sendTod_sends C hal m .todTime (.time hal.time)
    exact h.note (.of_eq rfl rfl rfl rfl rfl)
  · exact .refl 1 m

/-- The date, if it was asked for. -/
theorem answerDate_sends :
    Sends hal (IsText C m.cfg.name routeTypeFlood) 1 m (answerDate C hal m) := by
  unfold answerDate
  split
  · have h := sendTod_sends C hal m .todDate (.date hal.time)
    exact h.note (.of_eq rfl rfl rfl rfl rfl)
  · exact .refl 1 m

/-- Time and date together are two texts. -/
theorem meshServiceTimeofday_sends :
    Sends hal (IsText C m.cfg.name routeTypeFlood) 2 m (meshServiceTimeofday C hal m) := by
  unfold meshServiceTimeofday
  split
  · exact .refl 2 m
  split
  · exact .refl 2 m
  · have hmin : Noted m { m with todMinute := UInt32.ofNat (hal.time / 60) } :=
      .of_eq rfl rfl rfl rfl rfl
    have htime := (answerTime_sends C hal { m with todMinute := UInt32.ofNat (hal.time / 60) }).after hmin
    have hdate := answerDate_sends C hal (answerTime C hal { m with
      todMinute := UInt32.ofNat (hal.time / 60) })
    rw [show (answerTime C hal { m with todMinute := UInt32.ofNat (hal.time / 60) }).cfg = m.cfg from
      htime.services.cfg] at hdate
    exact htime.trans hdate

/-- A chain of two. -/
theorem meshServiceTimeofday_services : Services hal 2 m (meshServiceTimeofday C hal m) :=
  (meshServiceTimeofday_sends C hal m).services

/-- The self-advert, if it was encoded. -/
theorem meshSendAdvert_sends : Sends hal (IsAdvert C m.id) 1 m (meshSendAdvert C hal m).1 := by
  unfold meshSendAdvert
  split
  · exact .refl 1 m
  split
  · exact .refl 1 m
  · rename_i pkt hbuild
    have h : Sends hal (IsAdvert C m.id) 1 m (enqueue hal (recordOwn C m pkt) pkt 0
        (halRngInt hal .advert 0 3 * 50) (ownTxPower (recordOwn C m pkt)) true).1 :=
      (Sends.refl 0 m).send (pktCalcHash C pkt) pkt 0 _ _ ⟨_, _, hbuild⟩
    simp only
    split <;> rename_i heq <;> rw [heq] at h
    · exact h
    · exact h.note (.of_eq rfl rfl rfl rfl rfl)

/-- A chain of one. -/
theorem meshSendAdvert_services : Services hal 1 m (meshSendAdvert C hal m).1 :=
  (meshSendAdvert_sends C hal m).services

/-- The services a group message can ask for send one text at most. -/
theorem localServices_sends (pkt : McPacket) (ch : McPubChannel) (sender body : Bytes) :
    Sends hal (IsServiceText C m.cfg.name) 1 m (localServices C hal m pkt ch sender body).1 := by
  unfold localServices
  simp only
  split
  · -- ping
    have hseen : Noted m (m.bump fun s => { s with pingSeen := s.pingSeen + 1 }) := .bump m fun _ => rfl
    split
    · exact ((sendPong_sends C hal _ ch _ _).after hseen).imp fun _ h => .inl h
    · exact .of_noted hseen
  split
  · exact .of_noted (meshStartProbe_noted hal m ch _ _)
  split
  · exact .of_noted (todArm_noted hal m ch true false)
  split
  · exact .of_noted (todArm_noted hal m ch false true)
  split
  · -- help, when its cooldown is over
    split
    · have hhelp : Sends hal (IsServiceText C m.cfg.name) 1 m (sendHelp C hal m ch) :=
        (sendHelp_sends C hal m ch).imp fun _ h => .inl h
      exact hhelp.note (.of_eq rfl rfl rfl rfl rfl)
    · exact .refl 1 m
  split
  · exact (mboxHandle_sends C hal m pkt ch sender body).imp fun _ h => .inr h
  · exact .refl 1 m

/-- A chain of one, whatever the message asks for. -/
theorem localServices_services (pkt : McPacket) (ch : McPubChannel) (sender body : Bytes) :
    Services hal 1 m (localServices C hal m pkt ch sender body).1 :=
  (localServices_sends C hal m pkt ch sender body).services

end

end Meshcore
