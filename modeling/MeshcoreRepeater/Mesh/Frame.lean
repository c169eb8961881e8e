import MeshcoreRepeater.Mesh.Run

/-! # What a call can do

Every call is a chain of a few kinds of step: notes (counters, service timers,
monitor events), recording a hash, and queueing a packet. This module says so once
for each service (`Services`); what holds of runs is then read off the kinds.

* `Kept` and `Noted`: nothing that matters on the air has changed;
* `Queued`: one entry was put into the first free slot;
* `Services hal k`: notes, and at most `k` packets of the node's own, whose hashes
  are recorded first.
-/

namespace Meshcore

open ByteLib

/-! ## Notes -/

/-- The fields that services only read. -/
structure MeshFixed where
  id : McIdentity
  cfg : McConfig
  neighbors : Fin meshMaxNeighbors → MeshNeighbor
  aprs : Bool
  mon : Option Nat
  bb : Bool
  rxSrc : MeshSrc
  affinityHash : List UInt8
  hsAwakeUntilMs : Nat

def McMesh.fixed (m : McMesh) : MeshFixed :=
  ⟨m.id, m.cfg, m.neighbors, m.aprs, m.mon, m.bb, m.rxSrc, m.affinityHash, m.hsAwakeUntilMs⟩

/-- The hashes recorded in a list of events. -/
def recordedOf (evs : List Event) : List Bytes :=
  evs.filterMap fun e => match e with
    | .recorded hash => some hash
    | _ => none

@[simp] theorem recordedOf_nil : recordedOf [] = [] := rfl

@[simp] theorem recordedOf_append (xs ys : List Event) :
    recordedOf (xs ++ ys) = recordedOf xs ++ recordedOf ys := List.filterMap_append ..

/-- An event that neither records a hash nor offers a packet to the hub. -/
def Event.IsReport : Event → Prop
  | .recorded _ => False
  | .offer _ _ => False
  | _ => True

theorem Event.IsReport.recordedOf {e : Event} (h : e.IsReport) : Meshcore.recordedOf [e] = [] := by
  cases e <;> first | rfl | cases h

/-- Only counters, service state and reports differ. -/
structure Kept (m m' : McMesh) : Prop where
  fixed : m'.fixed = m.fixed
  seen : m'.seen = m.seen
  txq : m'.txq = m.txq
  recorded : recordedOf m'.events = recordedOf m.events
  reports : ∀ e ∈ m'.events, e ∈ m.events ∨ e.IsReport

/-- Besides, no packet was dropped by the relay. -/
structure Noted (m m' : McMesh) : Prop extends Kept m m' where
  drops : m'.stats.fwdDropped = m.stats.fwdDropped

namespace Noted

variable {m m' m'' : McMesh}

theorem refl (m : McMesh) : Noted m m := ⟨⟨rfl, rfl, rfl, rfl, fun _ he => .inl he⟩, rfl⟩

theorem trans (h : Noted m m') (h' : Noted m' m'') : Noted m m'' where
  fixed := h'.fixed.trans h.fixed
  seen := h'.seen.trans h.seen
  txq := h'.txq.trans h.txq
  recorded := h'.recorded.trans h.recorded
  reports := by
    intro e he
    rcases h'.reports e he with hin | hrep
    · exact h.reports e hin
    · exact .inr hrep
  drops := h'.drops.trans h.drops

/-- A change of service state. -/
theorem of_eq (hf : m'.fixed = m.fixed) (hs : m'.seen = m.seen) (ht : m'.txq = m.txq)
    (he : m'.events = m.events) (hd : m'.stats.fwdDropped = m.stats.fwdDropped) : Noted m m' :=
  ⟨⟨hf, hs, ht, by rw [he], by rw [he]; exact fun _ h => .inl h⟩, hd⟩

/-- Counting anything but a drop. -/
theorem bump (m : McMesh) {f : MeshStats → MeshStats} (hf : ∀ s, (f s).fwdDropped = s.fwdDropped) :
    Noted m (m.bump f) :=
  of_eq rfl rfl rfl rfl (hf m.stats)

theorem bumpIf (m : McMesh) (rf : Bool) {f : MeshStats → MeshStats}
    (hf : ∀ s, (f s).fwdDropped = s.fwdDropped) : Noted m (m.bumpIf rf f) := by
  unfold McMesh.bumpIf
  split
  · exact bump m hf
  · exact refl m

theorem emit (m : McMesh) {e : Event} (h : e.IsReport) : Noted m (m.emit e) where
  fixed := rfl
  seen := rfl
  txq := rfl
  recorded := by simp [McMesh.emit, h.recordedOf]
  reports := by
    intro x hx
    rcases List.mem_append.mp hx with hin | hnew
    · exact .inl hin
    · rw [List.mem_singleton.mp hnew]
      exact .inr h
  drops := rfl

theorem monitor (m : McMesh) {e : Event} (h : e.IsReport) : Noted m (m.monitor e) := by
  unfold McMesh.monitor
  split
  · exact emit m h
  · exact refl m

theorem drop (m : McMesh) (pkt : McPacket) (reason : String) : Noted m (monPktDrop m pkt reason) :=
  monitor m trivial

/-- A refusal: counted, and shown on the monitors. -/
theorem bumpDrop (m : McMesh) {f : MeshStats → MeshStats} (pkt : McPacket) (reason : String)
    (hf : ∀ s, (f s).fwdDropped = s.fwdDropped) : Noted m (monPktDrop (m.bump f) pkt reason) :=
  (bump m hf).trans (drop _ pkt reason)

theorem bumpIfDrop (m : McMesh) (rf : Bool) {f : MeshStats → MeshStats} (pkt : McPacket)
    (reason : String) (hf : ∀ s, (f s).fwdDropped = s.fwdDropped) :
    Noted m (monPktDrop (m.bumpIf rf f) pkt reason) :=
  (bumpIf m rf hf).trans (drop _ pkt reason)

theorem cfg (h : Noted m m') : m'.cfg = m.cfg := congrArg MeshFixed.cfg h.fixed

theorem rxSrc (h : Noted m m') : m'.rxSrc = m.rxSrc := congrArg MeshFixed.rxSrc h.fixed

end Noted

/-- A fixed state is as silent as before. -/
theorem meshRfSilent_congr {m m' : McMesh} (h : m'.fixed = m.fixed) (now : Nat) :
    meshRfSilent m' now = meshRfSilent m now := by
  have hcfg : m'.cfg = m.cfg := congrArg MeshFixed.cfg h
  have hawake : m'.hsAwakeUntilMs = m.hsAwakeUntilMs := congrArg MeshFixed.hsAwakeUntilMs h
  rw [meshRfSilent, meshRfSilent, hcfg, hawake]

/-! ## Recording -/

/-- At most `k` absent hashes were pushed into the ring, and the events tell
which. -/
def RingLog (k : Nat) (m m' : McMesh) : Prop :=
  ∃ hashes, hashes.length ≤ k ∧ recordedOf m'.events = recordedOf m.events ++ hashes ∧
    m.seen.Fresh hashes ∧ m'.seen = m.seen.pushAll hashes

theorem RingLog.of_eq {k : Nat} {m m' : McMesh} (hs : m'.seen = m.seen)
    (hr : recordedOf m'.events = recordedOf m.events) : RingLog k m m' :=
  ⟨[], Nat.zero_le k, by simpa using hr, trivial, hs⟩

theorem RingLog.trans {j k : Nat} {m m' m'' : McMesh} (h : RingLog j m m') (h' : RingLog k m' m'') :
    RingLog (j + k) m m'' := by
  obtain ⟨hs, hlen, hrec, hfresh, hseen⟩ := h
  obtain ⟨hs', hlen', hrec', hfresh', hseen'⟩ := h'
  refine ⟨hs ++ hs', by simp only [List.length_append]; omega,
    by rw [hrec', hrec, List.append_assoc], ?_, ?_⟩
  · rw [SlotRing.fresh_append]
    exact ⟨hfresh, hseen ▸ hfresh'⟩
  · rw [hseen', hseen, SlotRing.pushAll_append]

theorem RingLog.then_eq {k : Nat} {m m' m'' : McMesh} (h : RingLog k m m') (hs : m''.seen = m'.seen)
    (hr : recordedOf m''.events = recordedOf m'.events) : RingLog k m m'' :=
  h.trans (k := 0) (.of_eq hs hr)

/-- A hash not in the ring was written into it. -/
structure Recorded (m m' : McMesh) (hash : Bytes) : Prop where
  fixed : m'.fixed = m.fixed
  txq : m'.txq = m.txq
  absent : hash ∉ m.seen
  seen : m'.seen = m.seen.push hash
  recorded : recordedOf m'.events = recordedOf m.events ++ [hash]
  reports : ∀ e ∈ m'.events, e ∈ m.events ∨ e.IsReport ∨ e = .recorded hash
  drops : m'.stats.fwdDropped = m.stats.fwdDropped

theorem Recorded.ringLog {m m' : McMesh} {hash : Bytes} (h : Recorded m m' hash) : RingLog 1 m m' :=
  ⟨[hash], le_rfl, h.recorded, ⟨h.absent, trivial⟩, h.seen⟩

/-- What `seen_check_and_add` does. -/
theorem seenCheckAndAdd_cases (m : McMesh) (hash : Bytes) :
    (hash ∈ m.seen ∧ seenCheckAndAdd m hash = (m, true)) ∨
    ∃ m', Recorded m m' hash ∧ seenCheckAndAdd m hash = (m', false) := by
  by_cases h : hash ∈ m.seen
  · exact .inl ⟨h, by simp [seenCheckAndAdd, h]⟩
  · refine .inr ⟨({ m with seen := m.seen.push hash }.emit (.recorded hash)), ?_,
      by simp [seenCheckAndAdd, h]⟩
    refine ⟨rfl, rfl, h, rfl, by simp [McMesh.emit, recordedOf], ?_, rfl⟩
    intro e he
    rcases List.mem_append.mp he with hin | hnew
    · exact .inl hin
    · exact .inr (.inr (List.mem_singleton.mp hnew))

/-- A hash is in the ring, whether it was already there or not. -/
structure Remembered (m m' : McMesh) : Prop where
  fixed : m'.fixed = m.fixed
  txq : m'.txq = m.txq
  ringLog : RingLog 1 m m'
  offers : ∀ raw own, Event.offer raw own ∈ m'.events → Event.offer raw own ∈ m.events
  drops : m'.stats.fwdDropped = m.stats.fwdDropped

theorem Remembered.rxSrc {m m' : McMesh} (h : Remembered m m') : m'.rxSrc = m.rxSrc :=
  congrArg MeshFixed.rxSrc h.fixed

theorem seenCheckAndAdd_remembered (m : McMesh) (hash : Bytes) :
    Remembered m (seenCheckAndAdd m hash).1 := by
  rcases seenCheckAndAdd_cases m hash with ⟨-, heq⟩ | ⟨m', hrec, heq⟩
  · rw [heq]
    exact ⟨rfl, rfl, .of_eq rfl rfl, fun _ _ h => h, rfl⟩
  · rw [heq]
    refine ⟨hrec.fixed, hrec.txq, hrec.ringLog, ?_, hrec.drops⟩
    intro raw own he
    rcases hrec.reports _ he with hin | hrep | hne
    · exact hin
    · cases hrep
    · cases hne

/-! ## Queueing -/

theorem freeSlot_some {txq : Fin meshTxqSize → MeshTxEntry} {i : Fin meshTxqSize} (h : freeSlot txq = some i) :
    (txq i).used = false := by
  simpa using List.find?_some h

theorem freeSlot_none {txq : Fin meshTxqSize → MeshTxEntry} (h : freeSlot txq = none) (i : Fin meshTxqSize) :
    (txq i).used = true := by
  have hall := List.find?_eq_none.mp h i (List.mem_finRange i)
  simpa using hall

/-- One entry was queued, and maybe offered to the hub. -/
structure Queued (m m' : McMesh) (e : MeshTxEntry) : Prop where
  fixed : m'.fixed = m.fixed
  seen : m'.seen = m.seen
  recorded : recordedOf m'.events = recordedOf m.events
  slot : ∃ i, freeSlot m.txq = some i ∧ m'.txq = Function.update m.txq i e
  offers : ∀ ev ∈ m'.events, ev ∈ m.events ∨ ev.IsReport ∨
    (m.rxSrc ≠ .backbone ∧ ∃ raw, pktSerialize e.pkt mcMaxTransUnit = .ok raw ∧ ev = .offer raw e.own)
  drops : m'.stats.fwdDropped = m.stats.fwdDropped

theorem Queued.note {m m' m'' : McMesh} {e : MeshTxEntry} (h : Queued m m' e) (h' : Noted m' m'') :
    Queued m m'' e where
  fixed := h'.fixed.trans h.fixed
  seen := h'.seen.trans h.seen
  recorded := h'.recorded.trans h.recorded
  slot := by
    obtain ⟨i, hslot, htxq⟩ := h.slot
    exact ⟨i, hslot, h'.txq.trans htxq⟩
  offers := by
    intro ev hev
    rcases h'.reports ev hev with hin | hrep
    · exact h.offers ev hin
    · exact .inr (.inl hrep)
  drops := h'.drops.trans h.drops

/-- What `enqueue` does: it refuses for silence or for a full queue, else the
first free slot is taken. -/
theorem enqueue_cases (hal : Hal) (m : McMesh) (pkt : McPacket) (priority delayMs : Nat)
    (power : Int) (own : Bool) :
    ((meshRfSilent m hal.millis = true ∨ freeSlot m.txq = none) ∧
      (enqueue hal m pkt priority delayMs power own).2 = false ∧
      Noted m (enqueue hal m pkt priority delayMs power own).1) ∨
    (meshRfSilent m hal.millis = false ∧
      (enqueue hal m pkt priority delayMs power own).2 = true ∧
      Queued m (enqueue hal m pkt priority delayMs power own).1
        ⟨true, pkt, hal.millis + delayMs, priority, power, own⟩) := by
  unfold enqueue
  by_cases hsilent : meshRfSilent m hal.millis = true
  · rw [if_pos hsilent]
    exact .inl ⟨.inl hsilent, rfl, Noted.bumpDrop m pkt _ fun _ => rfl⟩
  rw [if_neg hsilent]
  cases hslot : freeSlot m.txq with
  | none =>
    refine .inl ⟨.inr rfl, rfl, ?_⟩
    exact Noted.of_eq rfl rfl rfl rfl rfl
  | some i =>
    have hput : Queued m (m.putTx i ⟨true, pkt, hal.millis + delayMs, priority, power, own⟩)
        ⟨true, pkt, hal.millis + delayMs, priority, power, own⟩ :=
      ⟨rfl, rfl, rfl, ⟨i, hslot, rfl⟩, fun _ hev => .inl hev, rfl⟩
    refine .inr ⟨by simpa using hsilent, ?_⟩
    simp only
    split
    · rename_i hoffer
      have hsrc : m.rxSrc ≠ .backbone := by
        simp only [McMesh.putTx, Bool.and_eq_true, bne_iff_ne, ne_eq] at hoffer
        exact hoffer.2
      split
      · -- the offer is the only new event
        rename_i raw hraw
        refine ⟨rfl, hput.fixed, hput.seen, ?_, hput.slot, ?_, rfl⟩
        · simp [McMesh.emit, McMesh.putTx, recordedOf]
        · intro ev hev
          rcases List.mem_append.mp hev with hin | hnew
          · exact .inl hin
          · exact .inr (.inr ⟨hsrc, raw, hraw, List.mem_singleton.mp hnew⟩)
      · exact ⟨rfl, hput⟩
    · exact ⟨rfl, hput⟩

/-! ## Counting free slots -/

theorem countP_eq_succ {α : Type} [DecidableEq α] {p q : α → Bool} {l : List α} {a : α}
    (hnd : l.Nodup) (ha : a ∈ l) (hp : p a = true) (hq : q a = false)
    (h : ∀ x, x ≠ a → p x = q x) : l.countP p = l.countP q + 1 := by
  have hperm := List.perm_cons_erase ha
  have hrest : (l.erase a).countP p = (l.erase a).countP q := by
    refine List.countP_congr ?_
    intro x hx
    have hne : x ≠ a := (List.Nodup.mem_erase_iff hnd |>.mp hx).1
    rw [h x hne]
  rw [hperm.countP_eq p, hperm.countP_eq q, List.countP_cons_of_pos hp,
    List.countP_cons_of_neg (by simp [hq]), hrest]

theorem meshTxqFree_congr {m m' : McMesh} (h : m'.txq = m.txq) : meshTxqFree m' = meshTxqFree m := by
  rw [meshTxqFree, meshTxqFree, h]

/-- Queueing takes one free slot. -/
theorem Queued.meshTxqFree {m m' : McMesh} {e : MeshTxEntry} (h : Queued m m' e)
    (hused : e.used = true) : meshTxqFree m = meshTxqFree m' + 1 := by
  obtain ⟨i, hslot, htxq⟩ := h.slot
  refine countP_eq_succ (List.nodup_finRange 24) (List.mem_finRange i) ?_ ?_ ?_
  · simp [freeSlot_some hslot]
  · simp [htxq, hused]
  · intro j hj
    simp [htxq, hj]

theorem meshTxqFree_eq_zero {m : McMesh} : meshTxqFree m = 0 ↔ freeSlot m.txq = none := by
  rw [meshTxqFree, List.countP_eq_zero, freeSlot, List.find?_eq_none]

end Meshcore
