import MeshcoreRepeater.Lib.Bytes
import MeshcoreRepeater.Lib.Delimited
import Mathlib.Data.List.Infix

/-! # Lines of the APRS-IS server

`read_server` collects what TCP delivers and hands `handle_server_line` one line at a
time. However the stream is cut into reads, the lines handled are the lines of the
stream, and what follows the last newline waits in the buffer (`reads_lines`).

* `scanLines_cut`: the loop cuts the buffer at its newlines.
* `readServer_cut`: one read, while the rest of a line is waited for.
* `reads_lines`: any number of reads.
-/

namespace Meshcore

open ByteLib Delimited

/-! ## The client -/

/-- `aprsis_state_t`. -/
inductive AprsisState where
  | disconnected
  | connecting
  | login
  | ready
deriving DecidableEq

/-- `mc_aprsis`, as far as the reader goes. `rxbuf` is its first `rxlen` bytes, `txbuf` its first
`txlen`. -/
structure McAprsis where
  fd : Int
  state : AprsisState
  nextConnectMs : Nat
  backoffS : Nat
  lastBeaconMs : Nat
  txbuf : Bytes
  rxbuf : Bytes
deriving DecidableEq

/-- `APRSIS_RXBUF`. -/
def aprsisRxbuf : Nat := 600

def goDisconnected (a : McAprsis) (now : Nat) (backoffBump : Bool) : McAprsis :=
  let backoffS :=
    if backoffBump then min (if a.backoffS < 5 then 5 else a.backoffS * 2) 300 else a.backoffS
  { a with
    fd := -1
    state := .disconnected
    txbuf := []
    rxbuf := []
    backoffS := backoffS
    nextConnectMs := now + backoffS * 1000 }

/-- `handle_server_line`. A bare `verified` would be in an `unverified` too. -/
def handleServerLine (a : McAprsis) (line : Bytes) (now : Nat) : McAprsis :=
  if line.head? ≠ some 35 then a
  else if a.state = .login ∧ lit "logresp" <:+: line then
    if lit " verified," <:+: line then { a with state := .ready, backoffS := 5, lastBeaconMs := 0 }
    else { goDisconnected a now true with backoffS := 300, nextConnectMs := now + 300000 }
  else a

/-- A line without the CR in front of its LF. -/
def dropCr (line : Bytes) : Bytes := if line.getLast? = some 13 then line.dropLast else line

/-- The loop of `read_server`, behind the unfinished `line`: the client, the lines it handled,
and what is left of the buffer, which is gone once a line disconnects. -/
def scanLines (now : Nat) : McAprsis → Bytes → Bytes → McAprsis × List Bytes × Option Bytes
  | a, line, [] => (a, [], some line)
  | a, line, c :: rest =>
    if c = 10 then
      let arg := cstr (dropCr line)
      let a := handleServerLine a arg now
      if a.state = .disconnected then (a, [arg], none)
      else
        let r := scanLines now a [] rest
        (r.1, arg :: r.2.1, r.2.2)
    else scanLines now a (line ++ [c]) rest

/-- What `recv` returns: end of file, an error, nothing yet, or data. -/
inductive RecvResult where
  | closed
  | failed
  | again
  | data (chunk : Bytes)

/-- The room `recv` is offered. -/
def rxFree (a : McAprsis) : Nat := aprsisRxbuf - 1 - a.rxbuf.length

/-- `read_server`, and the lines it handed on. -/
def readServer (a : McAprsis) (now : Nat) : RecvResult → McAprsis × List Bytes
  | .closed => (goDisconnected a now true, [])
  | .failed => (goDisconnected a now true, [])
  | .again => (a, [])
  | .data chunk =>
    let buf := a.rxbuf ++ chunk
    match scanLines now { a with rxbuf := buf } [] buf with
    | (a, lines, none) => (a, lines)
    | (a, lines, some left) =>
      if lines ≠ [] then ({ a with rxbuf := left }, lines)
      else if aprsisRxbuf - 1 ≤ buf.length then ({ a with rxbuf := [] }, lines) -- overlong line: drop
      else (a, lines)

/-! ## What a line does to the state -/

/-- Where a line takes the client. -/
def lineState (s : AprsisState) (line : Bytes) : AprsisState :=
  if line.head? = some 35 ∧ s = .login ∧ lit "logresp" <:+: line then
    if lit " verified," <:+: line then .ready else .disconnected
  else s

/-- None of the lines disconnects. -/
def StaysConnected : AprsisState → List Bytes → Prop
  | _, [] => True
  | s, line :: lines => lineState s line ≠ .disconnected ∧ StaysConnected (lineState s line) lines

theorem handleServerLine_state (a : McAprsis) (line : Bytes) (now : Nat) :
    (handleServerLine a line now).state = lineState a.state line := by
  rw [handleServerLine, lineState]
  by_cases hcomment : line.head? = some 35
  · rw [if_neg (not_not.mpr hcomment)]
    by_cases hlogin : a.state = .login ∧ lit "logresp" <:+: line
    · have hanswer : line.head? = some 35 ∧ a.state = .login ∧ lit "logresp" <:+: line := ⟨hcomment, hlogin⟩
      rw [if_pos hlogin, if_pos hanswer]
      split
      · rfl
      · rfl
    · rw [if_neg hlogin, if_neg fun h => hlogin h.2]
  · rw [if_pos hcomment, if_neg fun h => hcomment h.1]

/-- A line that does not disconnect leaves the buffer to the loop. -/
theorem handleServerLine_rxbuf {a : McAprsis} {line : Bytes} {now : Nat}
    (h : (handleServerLine a line now).state ≠ .disconnected) :
    (handleServerLine a line now).rxbuf = a.rxbuf := by
  rw [handleServerLine] at h ⊢
  split
  · rfl
  rename_i hcomment
  rw [if_neg hcomment] at h
  split
  · rename_i hlogin
    rw [if_pos hlogin] at h
    split
    · rfl
    · rename_i hverified
      rw [if_neg hverified] at h
      exact absurd rfl h
  · rfl

theorem StaysConnected.append {s : AprsisState} {xs ys : List Bytes} (h : StaysConnected s (xs ++ ys)) :
    StaysConnected s xs ∧ StaysConnected (xs.foldl lineState s) ys := by
  induction xs generalizing s with
  | nil => exact ⟨trivial, h⟩
  | cons x xs ih =>
    rcases ih h.2 with ⟨hxs, hys⟩
    exact ⟨⟨h.1, hxs⟩, hys⟩

/-! ## One read -/

theorem cstr_dropCr {line : Bytes} (h : (0 : UInt8) ∉ line) : cstr (dropCr line) = dropCr line := by
  apply cstr_of_not_mem
  intro hmem
  apply h
  rw [dropCr] at hmem
  split at hmem
  · exact List.mem_of_mem_dropLast hmem
  · exact hmem

/-- The loop cuts the buffer at its newlines. -/
theorem scanLines_cut (now : Nat) {s : Bytes} (a : McAprsis) (line : Bytes)
    (hnul : ∀ r ∈ (cutFrom 10 line s).1, (0 : UInt8) ∉ r)
    (hstay : StaysConnected a.state ((cutFrom 10 line s).1.map dropCr)) :
    ∃ b, scanLines now a line s = (b, (cutFrom 10 line s).1.map dropCr, some (cutFrom 10 line s).2) ∧
      b.state = ((cutFrom 10 line s).1.map dropCr).foldl lineState a.state ∧ b.rxbuf = a.rxbuf := by
  induction s generalizing a line with
  | nil => exact ⟨a, rfl, rfl, rfl⟩
  | cons c s ih =>
    by_cases hc : c = 10
    · rw [hc, cutFrom_sep] at hnul hstay ⊢
      have hline := hnul line List.mem_cons_self
      rw [List.map_cons] at hstay
      have hstate := handleServerLine_state a (dropCr line) now
      have hconn : (handleServerLine a (dropCr line) now).state ≠ .disconnected := by
        rw [hstate]
        exact hstay.1
      rcases ih (handleServerLine a (dropCr line) now) [] (fun r hr => hnul r (List.mem_cons_of_mem line hr))
        (by rw [hstate]; exact hstay.2) with ⟨b, hscan, hb, hbuf⟩
      refine ⟨b, ?_, ?_, ?_⟩
      · simp only [scanLines, if_true, cstr_dropCr hline, if_neg hconn, hscan]
        rfl
      · rw [hb, hstate]
        rfl
      · rw [hbuf, handleServerLine_rxbuf hconn]
    · rw [cutFrom, if_neg hc] at hnul hstay ⊢
      rw [scanLines, if_neg hc]
      exact ih a (line ++ [c]) hnul hstay

/-- One read of a client that waits for the rest of a line. -/
theorem readServer_cut {a : McAprsis} {chunk : Bytes} (now : Nat) (hbuf : (10 : UInt8) ∉ a.rxbuf)
    (hnul : ∀ r ∈ (cutFrom 10 a.rxbuf chunk).1, (0 : UInt8) ∉ r)
    (hleft : (cutFrom 10 a.rxbuf chunk).2.length < aprsisRxbuf - 1)
    (hstay : StaysConnected a.state ((cutFrom 10 a.rxbuf chunk).1.map dropCr)) :
    (readServer a now (.data chunk)).2 = (cutFrom 10 a.rxbuf chunk).1.map dropCr ∧
      (readServer a now (.data chunk)).1.rxbuf = (cutFrom 10 a.rxbuf chunk).2 ∧
      (readServer a now (.data chunk)).1.state =
        ((cutFrom 10 a.rxbuf chunk).1.map dropCr).foldl lineState a.state := by
  -- the loop starts over at the front of the buffer
  have hwhole : cutFrom 10 [] (a.rxbuf ++ chunk) = cutFrom 10 a.rxbuf chunk := cutFrom_plain hbuf chunk
  have hscan := scanLines_cut now (s := a.rxbuf ++ chunk) { a with rxbuf := a.rxbuf ++ chunk } []
  rw [hwhole] at hscan
  rcases hscan hnul hstay with ⟨b, hscan, hstate, hsame⟩
  simp only [readServer, hscan]
  by_cases hnone : (cutFrom 10 a.rxbuf chunk).1 = []
  · -- no newline yet: everything is left, and there is room for more
    have hall : (cutFrom 10 a.rxbuf chunk).2 = a.rxbuf ++ chunk := by
      rw [← hwhole] at hnone ⊢
      exact cutFrom_of_none hnone
    rw [hall] at hleft
    have hroom : ¬aprsisRxbuf - 1 ≤ (a.rxbuf ++ chunk).length := by omega
    rw [hnone, List.map_nil] at hstate ⊢
    rw [if_neg (not_not.mpr rfl), if_neg hroom]
    exact ⟨rfl, hsame.trans hall.symm, hstate⟩
  · have hsome : (cutFrom 10 a.rxbuf chunk).1.map dropCr ≠ [] := by
      intro hmap
      exact hnone (List.map_eq_nil_iff.mp hmap)
    rw [if_pos hsome]
    exact ⟨rfl, rfl, hstate⟩

/-! ## A stream of reads -/

/-- Reads of `chunks`, each as long as the buffer has room for, and the lines handed on. Between
two reads the client may do what leaves its state and its buffer alone. -/
inductive Reads (a : McAprsis) : List Bytes → McAprsis → List Bytes → Prop
  | start : Reads a [] a []
  | idle {chunks : List Bytes} {b b' : McAprsis} {lines : List Bytes} (h : Reads a chunks b lines)
      (hstate : b'.state = b.state) (hbuf : b'.rxbuf = b.rxbuf) : Reads a chunks b' lines
  | chunk {chunks : List Bytes} {b : McAprsis} {lines : List Bytes} (now : Nat) {chunk : Bytes}
      (h : Reads a chunks b lines) (hne : chunk ≠ []) (hfit : chunk.length ≤ rxFree b) :
      Reads a (chunks ++ [chunk]) (readServer b now (.data chunk)).1 (lines ++ (readServer b now (.data chunk)).2)

/-- A stream `read_server` has room for: its lines are C strings, and with their newline they
fit the buffer. -/
def LinesFit (s : Bytes) : Prop :=
  (∀ r ∈ (cutFrom 10 [] s).1, (0 : UInt8) ∉ r ∧ r.length < aprsisRxbuf - 1) ∧
    (cutFrom 10 [] s).2.length < aprsisRxbuf - 1

/-- The start of such a stream is one. -/
theorem LinesFit.of_append {s t : Bytes} (h : LinesFit (s ++ t)) : LinesFit s := by
  rcases h with ⟨hlines, hleft⟩
  rw [cutFrom_append] at hlines hleft
  constructor
  · intro r hr
    exact hlines r (List.mem_append_left _ hr)
  · have hbegun := @cutFrom_begun _ _ 10 (cutFrom 10 [] s).2 t
    rcases hbegun with ⟨r, hr, hpre⟩ | hpre
    · exact hpre.length_le.trans_lt (hlines r (List.mem_append_right _ hr)).2
    · exact hpre.length_le.trans_lt hleft

/-- After every read: the lines so far were handled, and the one begun is in the buffer. -/
theorem Reads.cut {a b : McAprsis} {chunks handled : List Bytes} (h : Reads a chunks b handled)
    (hempty : a.rxbuf = []) (hfit : LinesFit chunks.flatten)
    (hstay : StaysConnected a.state ((cutFrom 10 [] chunks.flatten).1.map dropCr)) :
    handled = (cutFrom 10 [] chunks.flatten).1.map dropCr ∧ b.rxbuf = (cutFrom 10 [] chunks.flatten).2 ∧
      b.state = handled.foldl lineState a.state := by
  induction h with
  | start => exact ⟨rfl, hempty, rfl⟩
  | idle _ hstate hbuf ih =>
    rcases ih hfit hstay with ⟨hhandled, hrx, hst⟩
    exact ⟨hhandled, hbuf.trans hrx, hstate.trans hst⟩
  | @chunk chunks b lines now data _ _ _ ih =>
    rw [List.flatten_append, List.flatten_singleton] at hfit hstay ⊢
    have hsplit := @cutFrom_append _ _ 10 [] chunks.flatten data
    have hbefore := hfit.of_append
    rcases hfit with ⟨hlines, hleft⟩
    rw [hsplit] at hlines hleft hstay ⊢
    rw [List.map_append] at hstay
    rcases hstay.append with ⟨hstay, hstay'⟩
    rcases ih hbefore hstay with ⟨hhandled, hrx, hst⟩
    rw [← hrx] at hlines hleft hstay' ⊢
    have hplain : (10 : UInt8) ∉ b.rxbuf := by
      rw [hrx]
      exact not_mem_rest List.not_mem_nil
    rw [← hhandled, ← hst] at hstay'
    rcases readServer_cut now hplain (fun r hr => (hlines r (List.mem_append_right _ hr)).1) hleft hstay' with
      ⟨hnew, hrx', hst'⟩
    refine ⟨?_, hrx', ?_⟩
    · rw [hnew, hhandled, List.map_append]
    · rw [hst', hnew, hst, List.foldl_append]

/-- However a stream of lines reaches `read_server`, each line is handled once and in order,
without its LF and one CR in front of it, and what follows the last LF stays buffered. -/
theorem reads_lines {a b : McAprsis} {chunks handled lines : List Bytes} {tail : Bytes}
    (h : Reads a chunks b handled) (hempty : a.rxbuf = [])
    (hstream : chunks.flatten = (lines.map (· ++ [10])).flatten ++ tail) (hnul : (0 : UInt8) ∉ chunks.flatten)
    (hlines : ∀ line ∈ lines, (10 : UInt8) ∉ line ∧ (line ++ [10]).length ≤ 599)
    (htail : (10 : UInt8) ∉ tail ∧ (tail ++ [10]).length ≤ 599)
    (hstay : StaysConnected a.state (lines.map dropCr)) :
    handled = lines.map dropCr ∧ b.rxbuf = tail := by
  have hcut : cutFrom 10 [] chunks.flatten = (lines, tail) := by
    rw [hstream]
    exact cutFrom_join (fun line hline => (hlines line hline).1) htail.1
  have hfit : LinesFit chunks.flatten := by
    rw [LinesFit, hcut]
    constructor
    · intro line hline
      constructor
      · intro hzero
        apply hnul
        rw [hstream]
        apply List.mem_append_left
        apply List.mem_flatten.mpr
        exact ⟨line ++ [10], List.mem_map.mpr ⟨line, hline, rfl⟩, List.mem_append_left _ hzero⟩
      · have hlen := (hlines line hline).2
        rw [List.length_append, List.length_singleton] at hlen
        exact Nat.lt_of_succ_le hlen
    · have hlen := htail.2
      rw [List.length_append, List.length_singleton] at hlen
      exact Nat.lt_of_succ_le hlen
  have hrun := h.cut hempty hfit
  rw [hcut] at hrun
  rcases hrun hstay with ⟨hhandled, hrx, -⟩
  exact ⟨hhandled, hrx⟩

/-- A client that has sent its login. -/
def freshLogin : McAprsis := ⟨7, .login, 0, 5, 0, [], []⟩

/-- Cut inside a CR LF and in the middle of a line. -/
def cutAnswer : List Bytes := [lit "# logresp N0CALL verified, server T2\r", lit "\n# ka", lit "\r\n#"]

/-- What that server said. -/
def answerLines : List Bytes := [lit "# logresp N0CALL verified, server T2\r", lit "# ka\r"]

theorem reads_cutAnswer : ∃ b handled, Reads freshLogin cutAnswer b handled := by
  refine ⟨_, _, Reads.chunk 30 (Reads.chunk 20 (Reads.chunk 10 .start ?_ ?_) ?_ ?_) ?_ ?_⟩
  all_goals decide

theorem reads_lines_cutAnswer :
    ∃ b handled, Reads freshLogin cutAnswer b handled ∧ handled = answerLines.map dropCr ∧ b.rxbuf = lit "#" := by
  rcases reads_cutAnswer with ⟨b, handled, hrun⟩
  refine ⟨b, handled, hrun, reads_lines hrun rfl (by decide) (by decide) (by decide) (by decide) ?_⟩
  refine ⟨?_, ?_, trivial⟩
  · decide
  · decide

end Meshcore
