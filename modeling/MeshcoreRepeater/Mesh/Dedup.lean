import MeshcoreRepeater.Mesh.Hub

/-! # The dedup window

Received frames and own packets share one ring of 160 hashes. Every writer checks
before it inserts, so the ring never holds a hash twice, and a hash is forgotten
only when 160 others were recorded after it.

* `step_records`: a frame that is no duplicate is recorded first of all.
* `passed_twice`: between two frames with one hash that passed lie 160 others.
* `run_dedupWindow`: every run.
-/

namespace Meshcore

set_option maxRecDepth 8000

open ByteLib

/-! ## What one call records -/

/-- Where a frame came in, as an input of the state machine. -/
def Entry.input (entry : Entry) (hal : Hal) (raw : Bytes) : Input :=
  match entry with
  | .rf rssiDbm snrQ => .recv hal raw rssiDbm snrQ
  | .hub => .backbone hal raw

/-- A call answered otherwise than with MALFORMED or DUPLICATE recorded the hash of
its frame, before anything else. -/
theorem Outcome.records {C : Crypto} {hal : Hal} {m m' : McMesh} {raw : Bytes} {rssiDbm snrQ : Int}
    {v : MeshRx} (h : Outcome C hal m raw rssiDbm snrQ m' v) (hnew : v ≠ .duplicate)
    {pkt : McPacket} (hparse : pktParse raw = .ok pkt) :
    ∃ own, recordedOf m'.events = recordedOf m.events ++ pktCalcHash C pkt :: own := by
  cases h with
  | malformed e hbad _ =>
    rw [hparse] at hbad
    cases hbad
  | duplicate => exact absurd rfl hnew
  | refused p m₀ v hp hrec hheard =>
    rw [hparse] at hp
    cases hp
    obtain ⟨own, -, hown, -⟩ := hheard.ringLog
    exact ⟨own, by rw [hown, hrec.recorded, List.append_assoc, List.singleton_append]⟩
  | relayed p m₀ m₁ power v hp hrec hheard _ hrelay =>
    rw [hparse] at hp
    cases hp
    obtain ⟨own, -, hown, -⟩ := hheard.ringLog
    obtain ⟨own', -, hown', -⟩ := (relay_frame hal m₁ (pkt.heardAt rssiDbm snrQ) power).2
    rw [hrelay] at hown'
    exact ⟨own ++ own', by simp [hown', hown, hrec.recorded]⟩

section
variable (C : Crypto) (hal : Hal) (m : McMesh) (entry : Entry) {raw : Bytes} {pkt : McPacket}

/-- A frame whose hash the ring holds is a duplicate. -/
theorem receive_of_mem (hparse : pktParse raw = .ok pkt) (hseen : pktCalcHash C pkt ∈ m.seen) :
    (receive C hal m raw entry).2 = .duplicate := by
  cases entry with
  | rf rssiDbm snrQ => exact (meshOnRecv_of_mem C hal m raw rssiDbm snrQ hparse hseen).1
  | hub =>
    exact (meshOnRecv_of_mem C hal { m with rxSrc := .backbone } raw monViaBackbone 0 hparse hseen).1

/-- Any other frame is recorded first of all. -/
theorem step_records (hparse : pktParse raw = .ok pkt)
    (hnew : (receive C hal m.clearEvents raw entry).2 ≠ .duplicate) :
    pktCalcHash C pkt ∉ m.seen ∧
      ∃ own, recordedOf (step C m (entry.input hal raw)).events = pktCalcHash C pkt :: own := by
  constructor
  · intro hseen
    exact hnew (receive_of_mem C hal m.clearEvents entry hparse hseen)
  · cases entry with
    | rf rssiDbm snrQ =>
      exact (meshOnRecv_outcome C hal m.clearEvents raw rssiDbm snrQ).records hnew hparse
    | hub =>
      exact (meshOnRecv_outcome C hal { m.clearEvents with rxSrc := .backbone } raw monViaBackbone
        0).records hnew hparse

end

theorem recordedDuring_append (C : Crypto) (m : McMesh) (xs ys : List Input) :
    recordedDuring C m (xs ++ ys) = recordedDuring C m xs ++ recordedDuring C (run C m xs) ys := by
  induction xs generalizing m with
  | nil => rfl
  | cons x xs ih =>
    rw [List.cons_append, recordedDuring, recordedDuring, ih, List.append_assoc]
    rfl

/-! ## The window -/

/-- What the ring is, after the hashes `log` were recorded: its first slots are in
use, with distinct hashes, and hold the last 160 of them. -/
structure SeenWindow (m : McMesh) (log : List Bytes) : Prop where
  used : ∀ i, m.seen.slots i ≠ zeroHash ↔ i.val < log.length
  distinct : ∀ i j, i.val < log.length → j.val < log.length → m.seen.slots i = m.seen.slots j → i = j
  recent : ∀ hash ∈ log.drop (log.length - 160), hash ∈ m.seen

theorem run_seenWindow (C : Crypto) (hal : Hal) (id : McIdentity) (cfg : McConfig) (aprs : Bool)
    (mon : Option Nat) (bb : Bool) {xs : List Input}
    (hnz : zeroHash ∉ recordedDuring C (meshInit hal id cfg aprs mon bb) xs) :
    SeenWindow (run C (meshInit hal id cfg aprs mon bb) xs)
      (recordedDuring C (meshInit hal id cfg aprs mon bb) xs) := by
  obtain ⟨hfresh, hseen⟩ := run_seen C (meshInit hal id cfg aprs mon bb) xs
  generalize recordedDuring C _ xs = log at *
  generalize hm : run C _ xs = m at *
  have hfilled : m.seen.Filled zeroHash log.length := by
    have h := (SlotRing.Filled.start (n := meshSeenSize) zeroHash (by decide)).pushAll hnz
    rw [hseen]
    rwa [Nat.zero_add] at h
  have hdistinct : m.seen.Distinct zeroHash := by
    rw [hseen]
    exact SlotRing.Distinct.pushAll (fun i j _ hne => absurd rfl hne) hfresh
  have hused : ∀ i, m.seen.slots i ≠ zeroHash ↔ i.val < log.length := fun i => by
    rw [Ne, hfilled.blank, not_le]
  refine ⟨hused, fun i j hi _ heq => hdistinct i j heq ((hused i).mpr hi), fun hash hh => ?_⟩
  rw [hseen]
  exact SlotRing.mem_pushAll_of_mem_drop _ hh

/-- Between two frames with one hash that both passed the filter, 160 other hashes
were recorded. -/
theorem passed_twice (C : Crypto) (m : McMesh) (mid : List Input) {hal₁ hal₂ : Hal}
    {entry₁ entry₂ : Entry} {raw₁ raw₂ : Bytes} {pkt₁ pkt₂ : McPacket}
    (hparse₁ : pktParse raw₁ = .ok pkt₁) (hparse₂ : pktParse raw₂ = .ok pkt₂)
    (hhash : pktCalcHash C pkt₁ = pktCalcHash C pkt₂)
    (hnew₁ : (receive C hal₁ m.clearEvents raw₁ entry₁).2 ≠ .duplicate)
    (hnew₂ : (receive C hal₂ (run C m (entry₁.input hal₁ raw₁ :: mid)).clearEvents raw₂ entry₂).2 ≠
      .duplicate) :
    160 ≤ othersThan (pktCalcHash C pkt₁) (recordedDuring C m (entry₁.input hal₁ raw₁ :: mid)) := by
  obtain ⟨-, own, hown⟩ := step_records C hal₁ m entry₁ hparse₁ hnew₁
  obtain ⟨hlost, -⟩ := step_records C hal₂ _ entry₂ hparse₂ hnew₂
  obtain ⟨hfresh, hseen⟩ := run_seen C m (entry₁.input hal₁ raw₁ :: mid)
  rw [hseen, ← hhash] at hlost
  rw [recordedDuring, hown, List.cons_append] at hlost hfresh ⊢
  obtain ⟨hlen, hnd, hno⟩ := hfresh.2.forgotten hlost
  have hsub : (own ++ recordedDuring C (step C m (entry₁.input hal₁ raw₁)) mid).take meshSeenSize ⊆
      pktCalcHash C pkt₁ :: (own ++ recordedDuring C (step C m (entry₁.input hal₁ raw₁)) mid) :=
    fun h hh => List.mem_cons_of_mem _ (List.mem_of_mem_take hh)
  have hcount := length_le_othersThan hnd hno hsub
  rw [List.length_take] at hcount
  unfold meshSeenSize at hlen hcount
  omega

/-- From `mesh_init` on, over frames and own packets in any order: the ring holds
distinct hashes; a frame whose hash is among the last 160 recorded is a duplicate;
and a hash passes the filter again only after 160 others. -/
theorem run_dedupWindow (C : Crypto) (hal : Hal) (id : McIdentity) (cfg : McConfig) (aprs : Bool)
    (mon : Option Nat) (bb : Bool) (xs : List Input)
    (hnz : zeroHash ∉ recordedDuring C (meshInit hal id cfg aprs mon bb) xs) :
    (∀ pre post, xs = pre ++ post →
      SeenWindow (run C (meshInit hal id cfg aprs mon bb) pre)
        (recordedDuring C (meshInit hal id cfg aprs mon bb) pre)) ∧
    (∀ pre entry hal₁ raw post pkt, xs = pre ++ entry.input hal₁ raw :: post →
      pktParse raw = .ok pkt →
      pktCalcHash C pkt ∈ (recordedDuring C (meshInit hal id cfg aprs mon bb) pre).drop
        ((recordedDuring C (meshInit hal id cfg aprs mon bb) pre).length - 160) →
      (receive C hal₁ (run C (meshInit hal id cfg aprs mon bb) pre).clearEvents raw entry).2 =
        .duplicate) ∧
    (∀ pre entry₁ hal₁ raw₁ mid entry₂ hal₂ raw₂ post pkt₁ pkt₂,
      xs = pre ++ entry₁.input hal₁ raw₁ :: mid ++ entry₂.input hal₂ raw₂ :: post →
      pktParse raw₁ = .ok pkt₁ → pktParse raw₂ = .ok pkt₂ →
      pktCalcHash C pkt₁ = pktCalcHash C pkt₂ →
      (receive C hal₁ (run C (meshInit hal id cfg aprs mon bb) pre).clearEvents raw₁ entry₁).2 ≠
        .duplicate →
      (receive C hal₂ (run C (meshInit hal id cfg aprs mon bb)
        (pre ++ entry₁.input hal₁ raw₁ :: mid)).clearEvents raw₂ entry₂).2 ≠ .duplicate →
      160 ≤ othersThan (pktCalcHash C pkt₁)
        (recordedDuring C (run C (meshInit hal id cfg aprs mon bb) pre)
          (entry₁.input hal₁ raw₁ :: mid))) := by
  have hwindow : ∀ pre post, xs = pre ++ post →
      SeenWindow (run C (meshInit hal id cfg aprs mon bb) pre)
        (recordedDuring C (meshInit hal id cfg aprs mon bb) pre) := by
    rintro pre post rfl
    rw [recordedDuring_append] at hnz
    exact run_seenWindow C hal id cfg aprs mon bb fun hz => hnz (List.mem_append_left _ hz)
  refine ⟨hwindow, ?_, ?_⟩
  · intro pre entry hal₁ raw post pkt hxs hparse hin
    exact receive_of_mem C hal₁ _ entry hparse ((hwindow pre _ hxs).recent _ hin)
  · intro pre entry₁ hal₁ raw₁ mid entry₂ hal₂ raw₂ post pkt₁ pkt₂ _ hp₁ hp₂ hhash hnew₁ hnew₂
    rw [run, Runs.run_append] at hnew₂
    exact passed_twice C _ mid hp₁ hp₂ hhash hnew₁ hnew₂

def nearPacket : McPacket := { farPacket with pathLen := 0, path := Buf.zero 64 }

theorem pktParse_nearFrame : pktParse nearFrame = .ok nearPacket :=
  pktParse_of_onWire rfl (by decide)

/-- The same frame twice, the second time off RF. -/
theorem run_dedupWindow_near :
    (receive farCrypto (.still 2000)
      (run farCrypto bridgeRepeater [.backbone (.still 1000) nearFrame]).clearEvents nearFrame
        (.rf (-90) 20)).2 = .duplicate := by
  have h := (run_dedupWindow farCrypto (.still 0) farIdentity
    { configDefaults with publicChannels := [meshChannel] } false none true
    [.backbone (.still 1000) nearFrame, .recv (.still 2000) nearFrame (-90) 20]
    (by decide)).2.1
  refine h [.backbone (.still 1000) nearFrame] (.rf (-90) 20) (.still 2000) nearFrame [] nearPacket rfl
    pktParse_nearFrame ?_
  decide

end Meshcore
