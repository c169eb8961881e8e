import MeshcoreRepeater.Backbone.Codec
import MeshcoreRepeater.Lib.ReplayWindow
import MeshcoreRepeater.Lib.Run
import Mathlib.Data.Nat.Bitwise
import Mathlib.Data.List.Nodup

/-! # The replay window stands for the history

`bb_replay_check` keeps 64 bits below the largest sequence number. Its answers are those
of the rule about the whole history, for any numbers in any order
(`replay_window_exact`).

* `BbReplay.Represents.check`: one check.
* `replay_window_exact`: any numbers in any order.
-/

namespace Meshcore

open ReplayWindow

/-! ## Bits of a word -/

theorem toNat_one_shiftLeft {k : UInt64} (h : k.toNat < 64) : ((1 : UInt64) <<< k).toNat = 2 ^ k.toNat := by
  rw [UInt64.toNat_shiftLeft, UInt64.toNat_one, Nat.mod_eq_of_lt h, Nat.one_shiftLeft]
  exact Nat.mod_eq_of_lt (Nat.pow_lt_pow_right (by omega) h)

/-- A masked bit is zero where the bit is clear. -/
theorem and_bit_ne_zero {x k : UInt64} (h : k.toNat < 64) :
    x &&& (1 <<< k) ≠ 0 ↔ x.toNat.testBit k.toNat = true := by
  have hmask : (x &&& (1 <<< k)).toNat = (x.toNat.testBit k.toNat).toNat * 2 ^ k.toNat := by
    rw [UInt64.toNat_and, toNat_one_shiftLeft h, Nat.and_two_pow]
  rw [ne_eq, ← UInt64.toNat_inj, hmask]
  cases x.toNat.testBit k.toNat <;> simp

/-! ## One check -/

/-- Bit `i` of the window. -/
def BbReplay.bit (w : BbReplay) (i : ℕ) : Prop := w.bits.toNat.testBit i = true

/-- The window stands for the numbers taken. -/
def BbReplay.Represents (w : BbReplay) (taken : List UInt32) : Prop :=
  Tracks 64 (taken.map UInt32.toNat) w.top.toNat w.bit

theorem BbReplay.represents_zero : BbReplay.zero.Represents [] :=
  Tracks.zero 64 fun i _ => by simp [BbReplay.bit, BbReplay.zero]

variable {w : BbReplay} {taken : List UInt32} {seq : UInt32}

/-- A word moved up, with its lowest bit set. -/
theorem testBit_slid (x : UInt64) {k : ℕ} {shift : UInt64} (hk : shift.toNat = k) (hlt : k < 64) {i : ℕ}
    (hi : i < 64) :
    ((x <<< shift) ||| 1).toNat.testBit i = true ↔ i = 0 ∨ (k ≤ i ∧ x.toNat.testBit (i - k) = true) := by
  rw [UInt64.toNat_or, Nat.testBit_or, UInt64.toNat_shiftLeft, hk, Nat.mod_eq_of_lt hlt,
    Nat.testBit_mod_two_pow, Nat.testBit_shiftLeft, UInt64.toNat_one]
  simp only [hi, decide_true, Bool.true_and, Bool.or_eq_true, Bool.and_eq_true, decide_eq_true_eq,
    Nat.testBit_one_eq_true_iff_self_eq_zero]
  exact or_comm

/-- One check answers as the rule does, and the window follows the history. -/
theorem BbReplay.Represents.check (h : w.Represents taken) (seq : UInt32) :
    ((bbReplayCheck w seq).1 = true ↔ Accepts 64 (taken.map UInt32.toNat) seq.toNat) ∧
      (bbReplayCheck w seq).2.Represents
        (if (bbReplayCheck w seq).1 = true then taken ++ [seq] else taken) := by
  have hrule := h.accepts_iff seq.toNat
  rw [hrule]
  unfold bbReplayCheck
  by_cases hzero : seq = 0
  · subst hzero
    simpa using h
  rw [if_neg hzero]
  have hpos : 1 ≤ seq.toNat := by
    rw [Nat.one_le_iff_ne_zero]
    intro h0
    exact hzero (UInt32.toNat_inj.mp h0)
  by_cases hup : w.top < seq
  · -- above the top: the window slides, and is empty behind a long jump
    rw [if_pos hup]
    have hlt := UInt32.lt_iff_toNat_lt.mp hup
    refine ⟨by simp [hpos, hlt], ?_⟩
    simp only [if_true]
    have hshift : (seq - w.top).toNat = seq.toNat - w.top.toNat :=
      UInt32.toNat_sub_of_le _ _ (UInt32.le_of_lt hup)
    unfold BbReplay.Represents
    rw [List.map_append, List.map_singleton]
    refine Tracks.slide h hlt fun i hi => ?_
    rw [← hshift]
    by_cases hfar : 64 ≤ seq - w.top
    · have hfar' : 64 ≤ (seq - w.top).toNat := UInt32.le_iff_toNat_le.mp hfar
      simp only [BbReplay.bit, if_pos hfar]
      have hone : ((0 : UInt64) ||| 1).toNat.testBit i = true ↔ i = 0 := by
        rw [UInt64.zero_or, UInt64.toNat_one]
        exact Nat.testBit_one_eq_true_iff_self_eq_zero
      rw [hone]
      constructor
      · exact Or.inl
      · rintro (h0 | ⟨hle, -⟩)
        · exact h0
        · omega
    · have hnear : (seq - w.top).toNat < 64 := by
        rw [UInt32.le_iff_toNat_le] at hfar
        simpa using hfar
      simp only [BbReplay.bit, if_neg hfar]
      exact testBit_slid w.bits (UInt32.toNat_toUInt64 _) hnear hi
  rw [if_neg hup]
  have hle : seq.toNat ≤ w.top.toNat := Nat.le_of_not_lt fun hlt => hup (UInt32.lt_iff_toNat_lt.mpr hlt)
  have hback : (w.top - seq).toNat = w.top.toNat - seq.toNat := UInt32.toNat_sub_of_le _ _ (UInt32.le_iff_toNat_le.mpr hle)
  simp only
  by_cases hfar : 64 ≤ w.top - seq
  · -- below the window
    rw [if_pos hfar]
    have hfar' : 64 ≤ (w.top - seq).toNat := UInt32.le_iff_toNat_le.mp hfar
    refine ⟨?_, by simpa using h⟩
    simp only [Bool.false_eq_true, false_iff]
    omega
  rw [if_neg hfar]
  have hnear : (w.top - seq).toNat < 64 := by
    rw [UInt32.le_iff_toNat_le] at hfar
    simpa using hfar
  have hcount : (w.top - seq).toUInt64.toNat = w.top.toNat - seq.toNat := by
    rw [UInt32.toNat_toUInt64, hback]
  have hbound : (w.top - seq).toUInt64.toNat < 64 := by
    rw [UInt32.toNat_toUInt64]
    exact hnear
  by_cases hset : w.bits &&& (1 <<< (w.top - seq).toUInt64) ≠ 0
  · -- seen before
    rw [if_pos hset]
    have hbit := (and_bit_ne_zero hbound).mp hset
    rw [hcount] at hbit
    refine ⟨?_, by simpa using h⟩
    simp only [Bool.false_eq_true, false_iff, not_and, not_or, not_not]
    exact fun _ => ⟨by omega, fun _ _ => hbit⟩
  · rw [if_neg hset]
    have hbit : ¬w.bit (w.top.toNat - seq.toNat) := by
      rw [← hcount]
      exact fun hb => hset ((and_bit_ne_zero hbound).mpr hb)
    refine ⟨?_, ?_⟩
    · simp only [true_iff]
      exact ⟨hpos, Or.inr ⟨hle, by omega, hbit⟩⟩
    · simp only [if_true]
      unfold BbReplay.Represents
      rw [List.map_append, List.map_singleton]
      refine Tracks.mark h hle fun i hi => ?_
      simp only [BbReplay.bit]
      rw [UInt64.toNat_or, Nat.testBit_or, toNat_one_shiftLeft hbound, hcount, Nat.testBit_two_pow]
      simp only [Bool.or_eq_true, decide_eq_true_eq]
      refine or_congr_right ?_
      omega

/-! ## Any numbers in any order -/

/-- A window, and the numbers it took. -/
abbrev ReplayState := BbReplay × List UInt32

/-- A number is offered. -/
def replayStep (s : ReplayState) (seq : UInt32) : ReplayState :=
  ((bbReplayCheck s.1 seq).2, if (bbReplayCheck s.1 seq).1 = true then s.2 ++ [seq] else s.2)

/-- The numbers offered to a zeroed window. -/
def replayRun (seqs : List UInt32) : ReplayState := Runs.run replayStep (.zero, []) seqs

theorem replayRun_represents (seqs : List UInt32) : (replayRun seqs).1.Represents (replayRun seqs).2 := by
  refine Runs.run_invariant (fun s : ReplayState => s.1.Represents s.2) ?_ BbReplay.represents_zero seqs
  intro s seq h
  exact (h.check seq).2

theorem replayRun_nodup (seqs : List UInt32) : (replayRun seqs).2.Nodup := by
  refine (Runs.run_invariant (fun s : ReplayState => s.1.Represents s.2 ∧ s.2.Nodup) ?_
    ⟨BbReplay.represents_zero, List.nodup_nil⟩ seqs).2
  rintro s seq ⟨h, hnodup⟩
  refine ⟨(h.check seq).2, ?_⟩
  simp only [replayStep]
  split
  · rename_i htaken
    have hnew := ((h.check seq).1.mp htaken).2.1
    refine List.nodup_append.mpr ⟨hnodup, List.nodup_singleton _, ?_⟩
    rintro a ha b hb rfl
    exact hnew (List.mem_map_of_mem (List.mem_singleton.mp hb ▸ ha))
  · exact hnodup

/-- After any numbers in any order: the next one is taken exactly by the rule about all
those taken, none was taken twice, and the bits are the history below its largest. -/
theorem replay_window_exact (seqs : List UInt32) :
    (∀ seq, (bbReplayCheck (replayRun seqs).1 seq).1 = true ↔
      Accepts 64 ((replayRun seqs).2.map UInt32.toNat) seq.toNat) ∧
    (replayRun seqs).2.Nodup ∧
    ∀ i, i < 64 → ((replayRun seqs).1.bits.toNat.testBit i = true ↔
      ∃ n ∈ (replayRun seqs).2, n.toNat + i = largest ((replayRun seqs).2.map UInt32.toNat)) := by
  have h := replayRun_represents seqs
  refine ⟨fun seq => (h.check seq).1, replayRun_nodup seqs, fun i hi => ?_⟩
  have hbit := h.isBit i hi
  rw [h.isTop] at hbit
  simpa [BbReplay.bit] using hbit

example : (replayRun [5, 3, 5, 70, 6, 7, 0]).2 = [5, 3, 70, 7] := by decide

end Meshcore
