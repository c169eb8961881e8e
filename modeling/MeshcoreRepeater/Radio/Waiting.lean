import MeshcoreRepeater.Radio.Driver

/-! # The waits of the driver

Both loops of the driver, the wait for TxDone and the wait for CadDone, only poll: they read
the interrupt line and the interrupt bits, and look at the clock. Each turn takes half a
millisecond, so a wait of `n` milliseconds is over after `2 * n + 3` turns at most, whatever
the radio answers.

* `waitTxDone_spec`, `waitCadDone_spec`: the two loops.
* `halMillis_waits`: with the fuel the driver gives them.
-/

namespace Meshcore.Sx126x

open ByteLib Traced

variable {σ : Type} {B : Bus σ} {ok : BusAct → Prop} {start timeoutMs fuel : Nat}

/-! ## Polling -/

/-- The acts of a poll of the interrupt bits. -/
def Polls (acts : List BusAct) : Prop :=
  ∀ a ∈ acts, a = .busyStuck ∨ ∃ done, a = .spi [opGetIrqStatus, 0, 0, 0] done

/-- A condition that polling does not touch. -/
def Stable (I : State Sx126xCfg σ BusAct → Prop) : Prop :=
  ∀ s w acts, I s → Polls acts → I { s with world := w, acts := s.acts ++ acts }

/-- Half a millisecond has gone by since `start` for every turn that is not left of
`2 * timeoutMs + 3`, and two turns are left at least. -/
def Within (B : Bus σ) (start timeoutMs fuel : Nat) (s : State Sx126xCfg σ BusAct) : Prop :=
  ∃ turns, turns + fuel = 2 * timeoutMs + 3 ∧ turns ≤ 2 * timeoutMs + 2 ∧
    start * 1000 + 500 * turns ≤ B.clockUs s.world

variable {I : State Sx126xCfg σ BusAct → Prop}

theorem Stable.quiet (hI : Stable I) {s : State Sx126xCfg σ BusAct} (h : I s) (w : σ) :
    I { s with world := w } := by
  have hnone := hI s w [] h (by intro a ha; cases ha)
  rwa [List.append_nil] at hnone

theorem Within.later {s : State Sx126xCfg σ BusAct} (h : Within B start timeoutMs fuel s) {w : σ}
    (hclock : B.clockUs s.world ≤ B.clockUs w) (acts : List BusAct) :
    Within B start timeoutMs fuel { s with world := w, acts := acts } := by
  rcases h with ⟨turns, hturns, hle, hlate⟩
  exact ⟨turns, hturns, hle, hlate.trans hclock⟩

/-- What a wait keeps from turn to turn. -/
def Waits (B : Bus σ) (I : State Sx126xCfg σ BusAct → Prop) (start timeoutMs fuel : Nat)
    (s : State Sx126xCfg σ BusAct) : Prop := I s ∧ Within B start timeoutMs fuel s

theorem halDio1Read_polls (hI : Stable I) :
    Triple ok (Waits B I start timeoutMs fuel) (halDio1Read B) fun _ => Waits B I start timeoutMs fuel := by
  apply Triple.ask
  intro s hs _
  rw [List.append_nil]
  exact ⟨hI.quiet hs.1 _, hs.2.later (B.clock_dio1 _) _⟩

theorem sxGetIrq_polls (hI : Stable I) :
    Triple ok (Waits B I start timeoutMs fuel) (sxGetIrq B) fun _ => Waits B I start timeoutMs fuel := by
  have hbusy : Triple ok (Waits B I start timeoutMs fuel) (halWaitBusyLow B)
      fun _ => Waits B I start timeoutMs fuel := by
    apply Triple.ask
    intro s hs _
    refine ⟨hI s _ _ hs.1 ?_, hs.2.later (B.clock_busy _) _⟩
    intro a ha
    split at ha
    · cases ha
    · exact .inl (List.mem_singleton.mp ha)
  have hspi : Triple ok (Waits B I start timeoutMs fuel) (halSpiXfer B [opGetIrqStatus, 0, 0, 0])
      fun _ => Waits B I start timeoutMs fuel := by
    apply Triple.ask
    intro s hs _
    refine ⟨hI s _ _ hs.1 ?_, hs.2.later (B.clock_spi _ _) _⟩
    intro a ha
    exact .inr ⟨_, List.mem_singleton.mp ha⟩
  rw [sxGetIrq, sxReadCmd, if_neg (by omega)]
  apply Triple.bind (Q := fun _ => Waits B I start timeoutMs fuel)
  · apply hbusy.bind
    intro busy
    apply Triple.ite
    · intro _
      exact .pure fun _ h => h
    · intro _
      apply hspi.bind
      intro r
      apply Triple.ite
      · intro _
        exact .pure fun _ h => h
      · intro _
        exact .pure fun _ h => h
  · intro r
    exact .pure fun _ h => h

/-- The bits are read while the line is up. -/
theorem irqIfUp_polls (hI : Stable I) (d : Int) :
    Triple ok (Waits B I start timeoutMs fuel) (irqIfUp B d) fun _ => Waits B I start timeoutMs fuel := by
  apply Triple.ite
  · intro _
    exact sxGetIrq_polls hI
  · intro _
    exact .pure fun _ h => h

theorem halMillis_polls :
    Triple ok (Waits B I start timeoutMs fuel) (halMillis B)
      fun now s => Waits B I start timeoutMs fuel s ∧ now = B.clockUs s.world / 1000 := by
  apply Triple.ask
  intro s hs _
  rw [List.append_nil]
  exact ⟨hs, rfl⟩

/-- The turn is over: its half millisecond has gone by, and as the deadline had not passed
there were two turns left to go. -/
theorem halDelayUs_polls (hI : Stable I) {now n : Nat} (hn : 500 ≤ n)
    (hearly : ¬timeoutMs < now - start) :
    Triple ok (fun s => Waits B I start timeoutMs (fuel + 1) s ∧ now = B.clockUs s.world / 1000)
      (halDelayUs B n) fun _ => Waits B I start timeoutMs fuel := by
  apply Triple.ask
  intro s hs _
  rw [List.append_nil]
  rcases hs with ⟨⟨hinv, turns, hturns, hle, hlate⟩, hnow⟩
  have hdelay : B.clockUs s.world + n ≤ B.clockUs (B.delayUs n s.world) := B.clock_delay n s.world
  generalize B.delayUs n s.world = w at hdelay ⊢
  have hpast : start * 1000 + 500 * (turns + 1) ≤ B.clockUs w := by linarith
  have hmore : turns + 1 ≤ 2 * timeoutMs + 2 := by omega
  exact ⟨hI.quiet hinv _, turns + 1, by omega, hmore, hpast⟩

/-! ## A wait ends -/

/-- By induction on the fuel: the turns that are over have taken their time, so the deadline
passes before the last two turns are used up. -/
theorem waitTxDone_spec (hI : Stable I) :
    Triple ok (Waits B I start timeoutMs fuel) (waitTxDone B start timeoutMs fuel)
      fun r s => r.isSome ∧ I s := by
  induction fuel with
  | zero =>
    apply Triple.pure
    rintro s ⟨-, turns, hturns, hle, -⟩
    omega
  | succ fuel ih =>
    rw [waitTxDone]
    apply (halDio1Read_polls hI).bind
    intro d
    apply (irqIfUp_polls hI d).bind
    intro irq
    apply Triple.ite
    · intro _
      exact .pure fun _ h => ⟨rfl, h.1⟩
    intro _
    apply Triple.ite
    · intro _
      exact .pure fun _ h => ⟨rfl, h.1⟩
    intro _
    apply halMillis_polls.bind
    intro now
    apply Triple.ite
    · intro _
      exact .pure fun _ h => ⟨rfl, h.1.1⟩
    · intro hearly
      apply (halDelayUs_polls hI le_rfl hearly).bind
      intro _
      exact ih

theorem waitCadDone_spec (hI : Stable I) (irq : UInt16) :
    Triple ok (Waits B I start 100 fuel) (waitCadDone B start irq fuel) fun r s => r.isSome ∧ I s := by
  induction fuel generalizing irq with
  | zero =>
    apply Triple.pure
    rintro s ⟨-, turns, hturns, hle, -⟩
    omega
  | succ fuel ih =>
    rw [waitCadDone]
    apply (halDio1Read_polls hI).bind
    intro d
    apply (irqIfUp_polls hI d).bind
    intro read
    apply Triple.ite
    · intro _
      exact .pure fun _ h => ⟨rfl, h.1⟩
    intro _
    apply halMillis_polls.bind
    intro now
    apply Triple.ite
    · intro _
      exact .pure fun _ h => ⟨rfl, h.1.1⟩
    · intro hearly
      apply (halDelayUs_polls hI le_rfl hearly).bind
      intro _
      exact ih _

/-- A wait that starts now, with the fuel the driver gives it. -/
theorem halMillis_waits (timeoutMs : Nat) :
    Triple ok I (halMillis B) fun start => Waits B I start timeoutMs (2 * timeoutMs + 3) := by
  apply Triple.ask
  intro s hs _
  rw [List.append_nil]
  refine ⟨hs, 0, by omega, by omega, ?_⟩
  show B.clockUs s.world / 1000 * 1000 + 500 * 0 ≤ B.clockUs s.world
  omega

end Meshcore.Sx126x
