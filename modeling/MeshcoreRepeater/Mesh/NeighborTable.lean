import MeshcoreRepeater.Lib.KeyedTable
import MeshcoreRepeater.Mesh.Neighbors

/-! # The neighbour table

One loop of `neighbor_update` looks for the advertiser, remembers a free slot and keeps
track of the slot heard longest ago. Over any run the table has one slot for each key, and
what an advert changes in it is its own slot alone.

* `newNeighborSlot_place`: where a new key goes.
* `step_neighbors`: what leaves the table alone.
* `neighborTable_run`: every run.
-/

namespace Meshcore

open ByteLib

/-! ## One advert -/

/-- No two used slots have one key. -/
def NeighborsApart (T : Fin meshMaxNeighbors → MeshNeighbor) : Prop :=
  KeyedTable.Apart MeshNeighbor.used MeshNeighbor.pub T

/-- Slot `i` is where the advertiser is written: its own, else a free one, else the one heard
longest ago. -/
abbrev NeighborPlace (T : Fin meshMaxNeighbors → MeshNeighbor) (pub : Bytes) (i : Fin meshMaxNeighbors) : Prop :=
  KeyedTable.Place MeshNeighbor.used MeshNeighbor.pub MeshNeighbor.lastSeen T pub i

theorem oldestStep_eq (T : Fin meshMaxNeighbors → MeshNeighbor) :
    oldestStep T = KeyedTable.olderStep MeshNeighbor.used MeshNeighbor.lastSeen T := rfl

/-- A new key finds a free slot, or takes the one heard longest ago. -/
theorem newNeighborSlot_place {T : Fin meshMaxNeighbors → MeshNeighbor} {pub : Bytes}
    (hnew : ∀ j, ¬ KeyedTable.Holds MeshNeighbor.used MeshNeighbor.pub T pub j) :
    NeighborPlace T pub (newNeighborSlot T) := by
  unfold newNeighborSlot
  split
  · rename_i i hfind
    apply KeyedTable.Place.free hnew
    simpa using List.find?_some hfind
  · rename_i hfull
    have hused : ∀ j, (T j).used = true := by
      intro j
      have := List.find?_eq_none.mp hfull j (List.mem_finRange j)
      simpa using this
    apply KeyedTable.Place.oldest hnew hused
    intro j
    rw [oldestStep_eq]
    -- no time is later than the one the search starts from
    have htop : (T ((0xFFFFFFFF, 0) : UInt32 × Fin meshMaxNeighbors).2).lastSeen ≤ ((0xFFFFFFFF, 0) : UInt32 × Fin meshMaxNeighbors).1 := by
      rw [UInt32.le_iff_toNat_le]
      exact Nat.le_of_lt_succ (T 0).lastSeen.toNat_lt
    have hold := KeyedTable.foldl_olderStep MeshNeighbor.used MeshNeighbor.lastSeen T htop (List.finRange meshMaxNeighbors)
      fun j _ => hused j
    exact hold.2 j (List.mem_finRange j)

/-- What hearing `pkt` from `pub` makes of the table `T`. -/
structure NeighborEntered (hal : Hal) (pkt : McPacket) (pub : Bytes) (rssi snrQ : Int)
    (T T' : Fin meshMaxNeighbors → MeshNeighbor) (i : Fin meshMaxNeighbors) : Prop where
  used : (T' i).used = true
  key : (T' i).pub = pub
  app : ∀ type name, mcAdvertExtract pkt 32 = some (type, name) → (T' i).type = type ∧ (T' i).name = name
  signal : (T' i).rssi = rssi ∧ (T' i).snrQ = snrQ
  hops : (T' i).hops = pktPathHashCount pkt
  time : (T' i).lastSeen = hal.time32
  /-- The key was there. -/
  known : ∀ j, (T j).used = true → (T j).pub = pub → j = i ∧ (T' i).count = (T i).count + 1
  /-- It was not. -/
  new : (∀ j, (T j).used = true → (T j).pub ≠ pub) → (T' i).count = 1 ∧
    ((T i).used = false ∨ ((∀ j, (T j).used = true) ∧ ∀ j, (T i).lastSeen ≤ (T j).lastSeen))
  others : ∀ j, j ≠ i → T' j = T j

section
variable {hal : Hal} {m : McMesh} {pub : Bytes} {pkt : McPacket} {rssi snrQ : Int}

/-- The slot that is written, and what it was written over. -/
theorem neighborUpdate_cases (hal : Hal) (m : McMesh) (pub : Bytes) (pkt : McPacket) (rssi snrQ : Int) :
    ∃ i e, NeighborPlace m.neighbors pub i ∧
      (neighborUpdate hal m pub pkt rssi snrQ).neighbors =
        Function.update m.neighbors i (e.heard hal pkt rssi snrQ) ∧
      e.used = true ∧ e.pub = pub ∧
      ((KeyedTable.Holds MeshNeighbor.used MeshNeighbor.pub m.neighbors pub i ∧ e = m.neighbors i) ∨
        (∀ j, ¬ KeyedTable.Holds MeshNeighbor.used MeshNeighbor.pub m.neighbors pub j) ∧ e.count = 0) := by
  unfold neighborUpdate
  split
  · rename_i i hfind
    have hi : (m.neighbors i).used = true ∧ (m.neighbors i).pub = pub := by
      simpa using List.find?_some hfind
    exact ⟨i, m.neighbors i, .own hi, rfl, hi.1, hi.2, .inl ⟨hi, rfl⟩⟩
  · rename_i hfind
    have hnew : ∀ j, ¬ KeyedTable.Holds MeshNeighbor.used MeshNeighbor.pub m.neighbors pub j := by
      rintro j ⟨hused, hpub⟩
      have := List.find?_eq_none.mp hfind j (List.mem_finRange j)
      simp [hused, hpub] at this
    exact ⟨newNeighborSlot m.neighbors, _, newNeighborSlot_place hnew, rfl, rfl, rfl, .inr ⟨hnew, rfl⟩⟩

/-- The advertiser is entered, and keys stay apart. -/
theorem neighborUpdate_entered (h : NeighborsApart m.neighbors) :
    NeighborsApart (neighborUpdate hal m pub pkt rssi snrQ).neighbors ∧
      ∃ i, NeighborEntered hal pkt pub rssi snrQ m.neighbors
        (neighborUpdate hal m pub pkt rssi snrQ).neighbors i := by
  rcases neighborUpdate_cases hal m pub pkt rssi snrQ with ⟨i, e, hplace, heq, hused, hpub, hold⟩
  rw [heq]
  refine ⟨h.update hplace hpub, i, ?_⟩
  constructor
  · rw [Function.update_self]
    exact hused
  · rw [Function.update_self]
    exact hpub
  · intro type name happ
    simp [MeshNeighbor.heard, happ]
  · simp [MeshNeighbor.heard]
  · simp [MeshNeighbor.heard]
  · simp [MeshNeighbor.heard]
  · intro j hj hkey
    rcases hold with ⟨⟨hi, hik⟩, rfl⟩ | ⟨hnew, -⟩
    · exact ⟨h j i hj hi (hkey.trans hik.symm), by simp [MeshNeighbor.heard]⟩
    · exact absurd ⟨hj, hkey⟩ (hnew j)
  · intro hnew
    rcases hold with ⟨⟨hi, hik⟩, -⟩ | ⟨-, hcount⟩
    · exact absurd hik (hnew i hi)
    · refine ⟨by simp [MeshNeighbor.heard, hcount], ?_⟩
      cases hplace with
      | own hi => exact absurd hi.2 (hnew i hi.1)
      | free _ hfree => exact .inl hfree
      | oldest _ hfull hle => exact .inr ⟨hfull, hle⟩
  · intro j hj
    rw [Function.update_of_ne hj]

end

/-! ## Runs -/

/-- An advert heard on RF that is accepted: new, signed by `pub`, and not blocked. -/
inductive HearsAdvert (C : Crypto) (m : McMesh) : Input → Hal → McPacket → Bytes → Int → Int → Prop where
  | recv (hal : Hal) (raw : Bytes) (rssiDbm snrQ : Int) {pkt : McPacket} {pub : Bytes} :
      pktParse raw = .ok pkt → pktCalcHash C pkt ∉ m.seen → mcAdvertVerify C pkt = some pub →
      advertBlocked m.cfg pkt pub = false →
      HearsAdvert C m (.recv hal raw rssiDbm snrQ) hal pkt pub rssiDbm snrQ

section
variable {C : Crypto} {m : McMesh} {x : Input} {hal : Hal} {pkt : McPacket} {pub : Bytes} {rssi snrQ : Int}

/-- An accepted advert is what `neighbor_update` is called for. -/
theorem HearsAdvert.neighbors (h : HearsAdvert C m x hal pkt pub rssi snrQ) (hrf : m.rxSrc = .rf) :
    (step C m x).neighbors =
      (neighborUpdate hal m pub (pkt.heardAt rssi snrQ) rssi snrQ).neighbors := by
  cases h with
  | recv hal raw rssi snrQ hparse hnew hsig hpass =>
    rcases meshOnRecv_of_not_mem C hal m.clearEvents raw rssi snrQ hparse hnew with ⟨m₀, hrec, heq⟩
    have hcfg : m₀.cfg = m.cfg := congrArg MeshFixed.cfg hrec.fixed
    have hpass₀ : advertBlocked m₀.cfg (pkt.heardAt rssi snrQ) pub = false := by
      rw [hcfg]
      exact hpass
    have htable := recvFresh_neighbors C hal m₀ (pkt.heardAt rssi snrQ)
      ((congrArg MeshFixed.rxSrc hrec.fixed).trans hrf) hsig hpass₀
    have hold : m₀.neighbors = m.neighbors := congrArg MeshFixed.neighbors hrec.fixed
    show (meshOnRecv C hal m.clearEvents raw rssi snrQ).1.neighbors = _
    rw [heq, htable]
    unfold neighborUpdate
    rw [hold]
    split <;> rfl

/-- A frame changes the table by an accepted advert heard on RF, or not at all. -/
theorem Outcome.neighbors {m' : McMesh} {raw : Bytes} {v : MeshRx}
    (h : Outcome C hal m raw rssi snrQ m' v) :
    m'.neighbors = m.neighbors ∨ ∃ pkt pub, m.rxSrc = .rf ∧ pktParse raw = .ok pkt ∧
      pktCalcHash C pkt ∉ m.seen ∧ mcAdvertVerify C pkt = some pub ∧ advertBlocked m.cfg pkt pub = false := by
  have hfresh : ∀ {pkt : McPacket} {k : Nat} {m₀ m₁ : McMesh}, pktParse raw = .ok pkt →
      Recorded m m₀ (pktCalcHash C pkt) → Heard C hal (pkt.heardAt rssi snrQ) k m₀ m₁ →
      m₁.neighbors = m.neighbors ∨ ∃ pkt pub, m.rxSrc = .rf ∧ pktParse raw = .ok pkt ∧
        pktCalcHash C pkt ∉ m.seen ∧ mcAdvertVerify C pkt = some pub ∧
        advertBlocked m.cfg pkt pub = false := by
    intro pkt k m₀ m₁ hparse hrec hheard
    rcases hheard.neighbors with hsame | ⟨pub, hsrc, hsig, hpass, -⟩
    · exact .inl (hsame.trans (congrArg MeshFixed.neighbors hrec.fixed))
    · right
      rw [show m₀.cfg = m.cfg from congrArg MeshFixed.cfg hrec.fixed] at hpass
      exact ⟨pkt, pub, (congrArg MeshFixed.rxSrc hrec.fixed).symm.trans hsrc, hparse, hrec.absent, hsig, hpass⟩
  cases h with
  | malformed _ _ hn => exact .inl (congrArg MeshFixed.neighbors hn.fixed)
  | duplicate _ _ _ hn => exact .inl (congrArg MeshFixed.neighbors hn.fixed)
  | refused pkt m₀ v hparse hrec hheard => exact hfresh hparse hrec hheard
  | relayed pkt m₀ m₁ power v hparse hrec hheard _ hrelay =>
    have hkept := relay_fixed hal m₁ (pkt.heardAt rssi snrQ) power
    rw [hrelay] at hkept
    rw [show m'.neighbors = m₁.neighbors from congrArg MeshFixed.neighbors hkept]
    exact hfresh hparse hrec hheard

/-- A step that hears no accepted advert leaves the table alone. -/
theorem step_neighbors (C : Crypto) (m : McMesh) (x : Input) :
    (step C m x).neighbors = m.neighbors ∨
      ∃ hal pkt pub rssi snrQ, HearsAdvert C m x hal pkt pub rssi snrQ := by
  have hserv : ∀ {h : Hal} {k : Nat} {m' : McMesh}, Services h k m.clearEvents m' →
      m'.neighbors = m.neighbors := fun hs => hs.neighbors
  cases x with
  | recv hal raw rssi snrQ =>
    rcases (meshOnRecv_outcome C hal m.clearEvents raw rssi snrQ).neighbors with
      hsame | ⟨pkt, pub, -, hparse, hnew, hsig, hpass⟩
    · exact .inl hsame
    · exact .inr ⟨hal, pkt, pub, rssi, snrQ, .recv hal raw rssi snrQ hparse hnew hsig hpass⟩
  | backbone hal raw =>
    -- the hub's frames are not heard on RF
    rcases (meshOnRecv_outcome C hal { m.clearEvents with rxSrc := .backbone } raw monViaBackbone 0).neighbors with
      hsame | ⟨pkt, pub, hsrc, -⟩
    · exact .inl hsame
    · cases hsrc
  | rxError crc rssi snrQ =>
    exact .inl (congrArg MeshFixed.neighbors (meshOnRxError_noted m.clearEvents crc rssi snrQ).fixed)
  | sendAdvert hal => exact .inl (hserv (meshSendAdvert_services C hal m.clearEvents))
  | startProbe hal ch secs count =>
    exact .inl (congrArg MeshFixed.neighbors (meshStartProbe_noted hal m.clearEvents ch secs count).fixed)
  | serviceProbe hal nowMs => exact .inl (hserv (meshServiceProbe_services C hal m.clearEvents nowMs))
  | serviceTimeofday hal => exact .inl (hserv (meshServiceTimeofday_services C hal m.clearEvents))
  | serviceTx hal nowMs =>
    exact .inl (congrArg MeshFixed.neighbors (meshServiceTx_transmitted C hal m.clearEvents nowMs).fixed)
  | advertTick _ | configure _ | reload _ | watchers _ => exact .inl rfl

/-- The advertiser is entered, and keys stay apart. -/
theorem HearsAdvert.entered (h : HearsAdvert C m x hal pkt pub rssi snrQ) (hrf : m.rxSrc = .rf)
    (hm : NeighborsApart m.neighbors) :
    NeighborsApart (step C m x).neighbors ∧
      ∃ i, NeighborEntered hal pkt pub rssi snrQ m.neighbors (step C m x).neighbors i := by
  rw [h.neighbors hrf]
  rcases neighborUpdate_entered hm with ⟨hapart, i, hi⟩
  exact ⟨hapart, i, hi.used, hi.key, hi.app, hi.signal, hi.hops, hi.time, hi.known, hi.new, hi.others⟩

theorem step_neighborsApart (hrf : m.rxSrc = .rf) (hm : NeighborsApart m.neighbors) :
    NeighborsApart (step C m x).neighbors := by
  rcases step_neighbors C m x with hsame | ⟨hal, pkt, pub, rssi, snrQ, hheard⟩
  · rw [hsame]
    exact hm
  · exact (hheard.entered hrf hm).1

end

theorem Reachable.neighborsApart {C : Crypto} {m : McMesh} (h : Reachable C m) :
    m.rxSrc = .rf ∧ NeighborsApart m.neighbors := by
  rcases h with ⟨hal, id, cfg, aprs, mon, bb, xs, rfl⟩
  refine Runs.run_invariant (fun m : McMesh => m.rxSrc = .rf ∧ NeighborsApart m.neighbors) ?_ ?_ xs
  · rintro m x ⟨hrf, hm⟩
    exact ⟨(x.run_same C m.clearEvents).2.trans hrf, step_neighborsApart hrf hm⟩
  · refine ⟨rfl, ?_⟩
    intro i _ hi
    cases hi

/-- In every state of every run the neighbour table has one slot for each key. An accepted
advert heard on RF is entered with what it says and how it was heard, in its key's slot, in a
free one, or, when the table is full, in place of the key heard longest ago, and no other
slot changes; whatever else happens, none does. -/
theorem neighborTable_run {C : Crypto} {m : McMesh} (h : Reachable C m) :
    (∀ i j, (m.neighbors i).used = true → (m.neighbors j).used = true →
      (m.neighbors i).pub = (m.neighbors j).pub → i = j) ∧
    (∀ x hal pkt pub rssi snrQ, HearsAdvert C m x hal pkt pub rssi snrQ →
      ∃ i, NeighborEntered hal pkt pub rssi snrQ m.neighbors (step C m x).neighbors i) ∧
    ∀ x, (¬ ∃ hal pkt pub rssi snrQ, HearsAdvert C m x hal pkt pub rssi snrQ) →
      (step C m x).neighbors = m.neighbors := by
  rcases h.neighborsApart with ⟨hrf, hapart⟩
  refine ⟨hapart, ?_, ?_⟩
  · intro x hal pkt pub rssi snrQ hheard
    exact (hheard.entered hrf hapart).2
  · intro x hno
    exact (step_neighbors C m x).resolve_right hno

/-- The restarted node, once it has taken its own advert for a neighbour's. -/
theorem neighborTable_run_echoed :
    (∀ i j, (echoed.neighbors i).used = true → (echoed.neighbors j).used = true →
      (echoed.neighbors i).pub = (echoed.neighbors j).pub → i = j) ∧
    (∀ x hal pkt pub rssi snrQ, HearsAdvert ownCrypto echoed x hal pkt pub rssi snrQ →
      ∃ i, NeighborEntered hal pkt pub rssi snrQ echoed.neighbors (step ownCrypto echoed x).neighbors i) ∧
    ∀ x, (¬ ∃ hal pkt pub rssi snrQ, HearsAdvert ownCrypto echoed x hal pkt pub rssi snrQ) →
      (step ownCrypto echoed x).neighbors = echoed.neighbors :=
  neighborTable_run ⟨_, _, _, _, _, _, [.recv (.still 5000) echoFrame (-80) 30], rfl⟩

end Meshcore
