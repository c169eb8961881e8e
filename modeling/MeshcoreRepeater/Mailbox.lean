import MeshcoreRepeater.Mbox
import MeshcoreRepeater.Lib.Run
import MeshcoreRepeater.Lib.SlotRing

/-! # What the mailbox holds and hands out

The ring of `mbox.c` is the end of the list of stored messages (`mboxHeld_stored`), and a
`fetch` writes as many of a station's messages, oldest first, as fit (`mboxFormatFetch_spec`).

* `mboxHeld_stored`: the ring is the end of what was stored.
* `mboxFormatFetch_longest`: the messages a fetch shows are the longest run that fits.
* `mboxFormatFetch_spec`: both, after any stores.
-/

namespace Meshcore

open ByteLib

/-! ## The ring -/

/-- What `mbox_store` is called with. -/
structure MboxMessage where
  addressee : Bytes
  sender : Bytes
  msg : Bytes
  ts : UInt32

/-- A message as it is stored, each text cut to its array. -/
def MboxMessage.entry (x : MboxMessage) : McMboxEntry where
  addressee := snprintfS mcMboxCall x.addressee
  sender := snprintfS mcMboxCall x.sender
  msg := snprintfS mcMboxMsg x.msg
  ts := x.ts

/-- The mailbox after some calls of `mbox_store`. -/
def mboxStored (mb : McMbox) (xs : List MboxMessage) : McMbox :=
  Runs.run (fun mb x => mboxStore mb x.addressee x.sender x.msg x.ts) mb xs

/-- Storing goes on with the mailbox it finds. -/
theorem mboxStored_append (mb : McMbox) (xs ys : List MboxMessage) :
    mboxStored mb (xs ++ ys) = mboxStored (mboxStored mb xs) ys := Runs.run_append _ mb xs ys

/-- The slots, and the one written next. -/
def McMbox.ring (mb : McMbox) : SlotRing 32 McMboxEntry := ⟨mb.e, mb.head⟩

/-- Each store pushes one entry on the ring. -/
theorem ring_mboxStored (mb : McMbox) (xs : List MboxMessage) :
    (mboxStored mb xs).ring = mb.ring.pushAll (xs.map MboxMessage.entry) := by
  have hone : ∀ (mb : McMbox) (x : MboxMessage),
      (mboxStore mb x.addressee x.sender x.msg x.ts).ring = mb.ring.push x.entry := by
    intro mb x
    rw [SlotRing.push, McMbox.ring, McMbox.ring]
    congr 1
  exact Runs.run_map McMbox.ring MboxMessage.entry hone mb xs

/-- Messages are counted up to the size of the ring. -/
theorem count_mboxStored (xs : List MboxMessage) : (mboxStored mboxInit xs).count = min xs.length mcMboxMax := by
  induction xs using List.reverseRecOn with
  | nil => rfl
  | append_singleton xs x ih =>
    have hlast : (mboxStored mboxInit (xs ++ [x])).count =
        if (mboxStored mboxInit xs).count < mcMboxMax then (mboxStored mboxInit xs).count + 1
        else (mboxStored mboxInit xs).count := by
      rw [mboxStored_append]
      rfl
    rw [hlast, ih, List.length_append, List.length_singleton]
    split <;> omega

/-- The ring holds the last 32 messages, oldest first. -/
theorem mboxHeld_stored (xs : List MboxMessage) :
    mboxHeld (mboxStored mboxInit xs) = (xs.map MboxMessage.entry).drop (xs.length - mcMboxMax) := by
  have hcount := count_mboxStored xs
  have hring := ring_mboxStored mboxInit xs
  -- the place written next
  have hhead : (mboxStored mboxInit xs).head.val = xs.length % 32 := by
    have hidx := congrArg SlotRing.idx hring
    rw [SlotRing.idx_pushAll, List.length_map] at hidx
    have hval := congrArg Fin.val hidx
    simpa [SlotRing.after, McMbox.ring, mboxInit] using hval
  -- the last 32 messages are in the slots they were written to
  have hslots : ∀ i (hi : i < (xs.map MboxMessage.entry).length), xs.length ≤ i + 32 →
      (mboxStored mboxInit xs).e (Fin.ofNat 32 i) = (xs.map MboxMessage.entry)[i] := by
    intro i hi hlast
    have hslot := SlotRing.slots_pushAll_after mboxInit.ring (xs.map MboxMessage.entry) hi (by simpa using hlast)
    rw [← hring] at hslot
    rw [← hslot]
    show (mboxStored mboxInit xs).e _ = (mboxStored mboxInit xs).e _
    congr 1
    ext
    simp [SlotRing.after, McMbox.ring, mboxInit]
  unfold mboxHeld
  rw [hcount]
  simp only [mcMboxMax]
  apply List.ext_getElem
  · simp
    omega
  intro k hk hk'
  have hlen : k < min xs.length 32 := by simpa using hk
  simp only [List.getElem_map, List.getElem_range, List.getElem_drop]
  -- slot `k` of those held is message `n - 32 + k`
  have hslot := hslots (xs.length - 32 + k) (by simp; omega) (by omega)
  rw [List.getElem_map] at hslot
  rw [← hslot]
  congr 1
  ext
  rw [hhead, Fin.val_ofNat, Fin.val_ofNat]
  omega

/-! ## A fetch -/

/-- One message of a reply. -/
def entryText (e : McMboxEntry) : Bytes := [91] ++ e.sender ++ lit "] " ++ e.msg

/-- Several of them. -/
def fetchText (es : List McMboxEntry) : Bytes := (lit " | ").intercalate (es.map entryText)

/-- The message is for the station of `call`. -/
def isFor (call : Bytes) (e : McMboxEntry) : Bool :=
  strcaseEq (baseCall e.addressee mcMboxCall) (baseCall call mcMboxCall)

/-- A separator goes behind each message but the last. -/
theorem fetchText_cons (d : McMboxEntry) {rest : List McMboxEntry} (h : rest ≠ []) :
    fetchText (d :: rest) = entryText d ++ lit " | " ++ fetchText rest := by
  apply List.intercalate_cons_of_ne_nil
  simpa using h

/-- No message is without text. -/
theorem isEmpty_fetchText (es : List McMboxEntry) : (fetchText es).isEmpty = es.isEmpty := by
  cases es with
  | nil => rfl
  | cons d rest =>
    by_cases h : rest = []
    · simp [h, fetchText, entryText]
    · simp [fetchText_cons d h, entryText]

/-- As the loop writes them: a separator in front, unless nothing is there yet. -/
theorem fetchText_concat (es : List McMboxEntry) (e : McMboxEntry) :
    fetchText (es ++ [e]) = fetchText es ++ ((if (fetchText es).isEmpty then [] else lit " | ") ++ entryText e) := by
  rw [isEmpty_fetchText]
  induction es with
  | nil => simp [fetchText]
  | cons d es ih =>
    rw [List.cons_append, fetchText_cons d (by simp), ih]
    by_cases h : es = []
    · simp [h, fetchText]
    · have hne : es.isEmpty = false := by simpa using h
      simp [fetchText_cons d h, hne, List.append_assoc]

/-- More messages are no shorter. -/
theorem length_fetchText_le (es rest : List McMboxEntry) :
    (fetchText es).length ≤ (fetchText (es ++ rest)).length := by
  induction rest using List.reverseRecOn with
  | nil => rw [List.append_nil]
  | append_singleton rest e ih =>
    rw [← List.append_assoc, fetchText_concat, List.length_append]
    exact ih.trans (Nat.le_add_right _ _)

/-- What the loop has done with the messages of the station so far. -/
structure FetchInv (mine : List McMboxEntry) (outsz : Nat) (st : FetchState) : Prop where
  matched : st.matched = mine.length
  shown : st.shown ≤ mine.length
  out : st.out = fetchText (mine.take st.shown)
  fits : st.out.length < outsz
  going : st.full = false → st.shown = mine.length
  stopped : st.full = true → st.shown < mine.length ∧ outsz ≤ (fetchText (mine.take (st.shown + 1))).length

/-- One message for the station keeps the invariant. -/
theorem FetchInv.step {mine : List McMboxEntry} {outsz : Nat} {st : FetchState} (h : FetchInv mine outsz st)
    {call : Bytes} {e : McMboxEntry} (he : isFor call e = true) :
    FetchInv (mine ++ [e]) outsz (fetchEntry (baseCall call mcMboxCall) outsz st e) := by
  have hmatch : (!strcaseEq (baseCall e.addressee mcMboxCall) (baseCall call mcMboxCall)) = false := by
    simpa [isFor] using he
  have htake : (mine ++ [e]).take st.shown = mine.take st.shown := List.take_append_of_le_length h.shown
  unfold fetchEntry
  rw [hmatch]
  simp only [Bool.false_eq_true, if_false]
  cases hfull : st.full with
  | true =>
    -- it only counts
    obtain ⟨hless, hlong⟩ := h.stopped hfull
    simp only [if_true]
    constructor
    · simp [h.matched]
    · simp only [List.length_append]
      omega
    · simp only [htake, h.out]
    · exact h.fits
    · nofun
    · intro _
      simp only [List.length_append, List.length_singleton]
      rw [List.take_append_of_le_length (by omega)]
      exact ⟨by omega, hlong⟩
  | false =>
    have hall : st.shown = mine.length := h.going hfull
    have hout : st.out = fetchText mine := by rw [h.out, hall, List.take_length]
    -- all so far are shown, and this one comes next
    have hnext : fetchText (mine ++ [e]) =
        st.out ++ ((if st.out.isEmpty then [] else lit " | ") ++ entryText e) := by
      rw [fetchText_concat, hout]
    have htext : (if st.out.isEmpty then [] else lit " | ") ++ [91] ++ e.sender ++ lit "] " ++ e.msg =
        (if st.out.isEmpty then [] else lit " | ") ++ entryText e := by
      simp [entryText]
    simp only [Bool.false_eq_true, if_false, htext]
    generalize (if st.out.isEmpty then [] else lit " | ") ++ entryText e = piece at hnext
    have hlen := congrArg List.length hnext
    rw [List.length_append] at hlen
    split
    · -- it does not fit: nothing of it is written
      rename_i hlong
      constructor
      · simp [h.matched]
      · simp only [List.length_append]
        omega
      · simp only [htake, h.out]
      · exact h.fits
      · nofun
      · intro _
        have hwhole : (mine ++ [e]).take (st.shown + 1) = mine ++ [e] := by
          apply List.take_of_length_le
          simp [hall]
        simp only [List.length_append, List.length_singleton, hwhole]
        exact ⟨by omega, by omega⟩
    · rename_i hshort
      have hwhole : (mine ++ [e]).take (st.shown + 1) = mine ++ [e] := by
        apply List.take_of_length_le
        simp [hall]
      constructor
      · simp [h.matched]
      · simp [hall]
      · simp only [hwhole, hnext]
      · simp only
        rw [← hnext, hlen]
        omega
      · intro _
        simp [hall]
      · nofun

/-- Over the whole ring, where the messages for others are passed over. -/
theorem fetchInv_foldl (call : Bytes) {outsz : Nat} (hout : 1 ≤ outsz) (es : List McMboxEntry) :
    FetchInv (es.filter (isFor call)) outsz
      (es.foldl (fetchEntry (baseCall call mcMboxCall) outsz) ⟨[], 0, 0, false⟩) := by
  induction es using List.reverseRecOn with
  | nil => exact ⟨rfl, Nat.le_refl _, rfl, hout, fun _ => rfl, by nofun⟩
  | append_singleton es e ih =>
    rw [List.foldl_append, List.filter_append]
    cases he : isFor call e with
    | true =>
      have hone : [e].filter (isFor call) = [e] := by simp [he]
      rw [hone]
      exact ih.step he
    | false =>
      have hnone : [e].filter (isFor call) = [] := by simp [he]
      have hskip : ∀ st, fetchEntry (baseCall call mcMboxCall) outsz st e = st := by
        intro st
        have hmatch : (!strcaseEq (baseCall e.addressee mcMboxCall) (baseCall call mcMboxCall)) = true := by
          simpa [isFor] using he
        unfold fetchEntry
        rw [hmatch]
        rfl
      rw [hnone, List.append_nil]
      simp only [List.foldl_cons, List.foldl_nil, hskip]
      exact ih

/-- The messages for the station, oldest first. -/
def heldFor (mb : McMbox) (call : Bytes) : List McMboxEntry := (mboxHeld mb).filter (isFor call)

/-- The first `shown` of these messages, and no more of them, fit with their NUL. -/
structure LongestFit (mine : List McMboxEntry) (outsz shown : Nat) : Prop where
  le : shown ≤ mine.length
  fits : (fetchText (mine.take shown)).length + 1 ≤ outsz
  longest : ∀ k ≤ mine.length, (fetchText (mine.take k)).length + 1 ≤ outsz → k ≤ shown

/-- Any mailbox: all of the station's messages are counted, and the longest run of them from
the oldest on that fits is written, whole. -/
theorem mboxFormatFetch_longest (mb : McMbox) (call : Bytes) (outsz : Nat) (hout : 1 ≤ outsz) :
    ∃ shown, mboxFormatFetch mb call outsz =
        (fetchText ((heldFor mb call).take shown), shown, (heldFor mb call).length) ∧
      LongestFit (heldFor mb call) outsz shown := by
  have hinv := fetchInv_foldl call hout (mboxHeld mb)
  unfold mboxFormatFetch
  simp only
  change FetchInv (heldFor mb call) outsz _ at hinv
  generalize (mboxHeld mb).foldl (fetchEntry (baseCall call mcMboxCall) outsz) ⟨[], 0, 0, false⟩ = st at hinv
  have hfits := hinv.fits
  rw [hinv.out] at hfits
  refine ⟨st.shown, by rw [← hinv.out, ← hinv.matched], hinv.shown, hfits, ?_⟩
  intro k hk hkfits
  cases hfull : st.full with
  | false =>
    rw [hinv.going hfull]
    exact hk
  | true =>
    obtain ⟨-, hlong⟩ := hinv.stopped hfull
    by_contra hmore
    -- one more message is part of those `k`
    have hsplit : (heldFor mb call).take k =
        (heldFor mb call).take (st.shown + 1) ++ ((heldFor mb call).take k).drop (st.shown + 1) := by
      have htake := List.take_append_drop (st.shown + 1) ((heldFor mb call).take k)
      rw [List.take_take, Nat.min_eq_left (by omega)] at htake
      exact htake.symm
    have hle := length_fetchText_le ((heldFor mb call).take (st.shown + 1))
      (((heldFor mb call).take k).drop (st.shown + 1))
    rw [← hsplit] at hle
    omega

/-- After any stores: the ring holds the last 32 messages in order, cut to their arrays, and a
fetch counts a station's and writes as many of them from the oldest on as fit. -/
theorem mboxFormatFetch_spec (xs : List MboxMessage) (call : Bytes) {outsz : Nat} (hout : 1 ≤ outsz) :
    mboxHeld (mboxStored mboxInit xs) = (xs.map MboxMessage.entry).drop (xs.length - mcMboxMax) ∧
      ∃ shown, mboxFormatFetch (mboxStored mboxInit xs) call outsz =
          (fetchText ((heldFor (mboxStored mboxInit xs) call).take shown), shown,
            (heldFor (mboxStored mboxInit xs) call).length) ∧
        LongestFit (heldFor (mboxStored mboxInit xs) call) outsz shown :=
  ⟨mboxHeld_stored xs, mboxFormatFetch_longest (mboxStored mboxInit xs) call outsz hout⟩

/-- Two messages for one station, and one for another. -/
def threeMessages : List MboxMessage :=
  [⟨lit "ON4ABC-7", lit "OR7F-1", lit "hi", 0⟩, ⟨lit "ON0X", lit "OR7F-1", lit "later", 0⟩,
    ⟨lit "on4abc", lit "ON6A", lit "qsl?", 0⟩]

/-- Room for one message of two, asked for under another SSID. -/
theorem mboxFormatFetch_spec_three :
    mboxHeld (mboxStored mboxInit threeMessages) = (threeMessages.map MboxMessage.entry).drop (3 - mcMboxMax) ∧
      ∃ shown, mboxFormatFetch (mboxStored mboxInit threeMessages) (lit "ON4ABC-9") 20 =
          (fetchText ((heldFor (mboxStored mboxInit threeMessages) (lit "ON4ABC-9")).take shown), shown,
            (heldFor (mboxStored mboxInit threeMessages) (lit "ON4ABC-9")).length) ∧
        LongestFit (heldFor (mboxStored mboxInit threeMessages) (lit "ON4ABC-9")) 20 shown :=
  mboxFormatFetch_spec threeMessages (lit "ON4ABC-9") (by decide)

example : mboxFormatFetch (mboxStored mboxInit threeMessages) (lit "ON4ABC-9") 20 = (lit "[OR7F-1] hi", 1, 2) := by
  decide +kernel

end Meshcore
