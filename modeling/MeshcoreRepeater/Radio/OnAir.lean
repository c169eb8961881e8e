import MeshcoreRepeater.Radio.Board

/-! # The driver refines the radio

As long as the bus does its part, every call of the driver leaves the board and the driver's
memory as the radio says: the chip holds the settings the driver remembers, after a reset
too; what was told to go on the air is the frames given to `sx126x_transmit`, each whole,
once, in order, and with the settings of its time; and the radio listens afterwards, but for
the calls that leave it deaf.

* `init_refines`: coming up.
* `drive_refines`: one call.
* `driver_refines_radio`: any calls.
-/

namespace Meshcore.Sx126x

open ByteLib Traced

section
variable {σ : Type} {B : Bus σ} {g : Sx126xCfg} {b : Board}

/-- The driver's memory and the board. -/
def View (g : Sx126xCfg) (b : Board) (s : State Sx126xCfg σ BusAct) : Prop :=
  s.mem = g ∧ Board.after s.acts = b

/-- What leaves memory and acts leaves the view. -/
theorem View.same {s s' : State Sx126xCfg σ BusAct} (h : View g b s) (hmem : s'.mem = s.mem)
    (hacts : s'.acts = s.acts) : View g b s' := ⟨hmem.trans h.1, by rw [hacts]; exact h.2⟩

/-! ## Commands -/

/-- As long as the bus does its part, BUSY goes low in time. -/
theorem halWaitBusyLow_view :
    Triple Took (View g b) (halWaitBusyLow B) fun rc s => rc = 0 ∧ View g b s := by
  apply Triple.ask
  intro s hs hok
  by_cases hrc : (B.waitBusyLow s.world).1 = 0
  · refine ⟨hrc, hs.same rfl ?_⟩
    simp [hrc]
  · rw [if_neg hrc] at hok
    exact (hok _ List.mem_cons_self).elim

/-- A transfer that goes out is what the chip executes. -/
theorem halSpiXfer_view (tx : Bytes) :
    Triple Took (View g b) (halSpiXfer B tx) fun r s => r.1 = 0 ∧ View g (b.exec tx) s := by
  apply Triple.ask
  intro s hs hok
  have hdone : ((B.spiXfer tx s.world).1.1 == 0) = true := hok _ List.mem_cons_self
  refine ⟨by simpa using hdone, hs.1, ?_⟩
  show Board.after (s.acts ++ [.spi tx _]) = _
  rw [after_concat, hdone, hs.2]
  rfl

/-- The switch is on the board, not in the chip. -/
theorem halRfSwitch_view (mode : RfSwitch) :
    Triple Took (View g b) (halRfSwitch B mode) fun _ => View g { b with switch := mode } := by
  apply Triple.push
  intro s hs _
  refine ⟨hs.1, ?_⟩
  show Board.after (s.acts ++ [_]) = _
  rw [after_concat, hs.2]
  rfl

/-- A pulse on the reset pin loses the chip's settings. -/
theorem halResetPin_view (level : Bool) :
    Triple Took (View g b) (halResetPin B level)
      fun _ => View g { b with tuning := .lost, receives := false } := by
  apply Triple.push
  intro s hs _
  refine ⟨hs.1, ?_⟩
  show Board.after (s.acts ++ [_]) = _
  rw [after_concat, hs.2]
  rfl

theorem halDelayUs_view (n : Nat) :
    Triple Took (View g b) (halDelayUs B n) fun _ => View g b := by
  apply Triple.ask
  intro s hs _
  exact hs.same rfl (List.append_nil _)

theorem halDio1Read_view : Triple Took (View g b) (halDio1Read B) fun _ => View g b := by
  apply Triple.ask
  intro s hs _
  exact hs.same rfl (List.append_nil _)

/-- The driver's memory changes, the board does not. -/
theorem store_view (g' : Sx126xCfg) :
    Triple Took (View (σ := σ) g b) (store g') fun _ => View g' b :=
  Triple.store fun _ h => ⟨rfl, h.2⟩

/-- A command that waits for BUSY and goes out. -/
theorem command_view {α : Type} {tx : Bytes} {stuck : α} {after : Int × Bytes → Drive σ α}
    {Q : α → State Sx126xCfg σ BusAct → Prop}
    (hafter : ∀ r, r.1 = 0 → Triple Took (View g (b.exec tx)) (after r) Q)
    (hgrows : ∀ r s, s.acts <+: (after r s).2.acts) :
    Triple Took (View g b) (do
      let busy ← halWaitBusyLow B
      if busy ≠ 0 then return stuck
      else
        let r ← halSpiXfer B tx
        after r) Q := by
  apply halWaitBusyLow_view.bind
  intro busy
  apply Triple.ite
  · intro hbusy
    apply Triple.pure
    rintro s ⟨hzero, -⟩
    exact absurd hzero hbusy
  · intro _
    apply ((halSpiXfer_view tx).pre fun _ h => h.2).bind
    intro r
    exact Triple.given (hafter r) (hgrows r)

/-- A command with its parameters. -/
theorem sxWriteCmd_view {op : UInt8} {params : Bytes} (hlen : params.length ≤ 16) :
    Triple Took (View g b) (sxWriteCmd B op params)
      fun rc s => rc = 0 ∧ View g (b.exec (op :: params)) s := by
  apply Triple.ite
  · intro hlong
    omega
  · intro _
    apply command_view
    · intro r hr
      exact .pure fun _ h => ⟨hr, h⟩
    · intro r s
      exact List.prefix_rfl

/-- A register of one byte. -/
theorem sxWriteRegister_view {addr : UInt16} {v : UInt8} :
    Triple Took (View g b) (sxWriteRegister B addr [v])
      fun rc s => rc = 0 ∧ View g (b.exec (opWriteRegister :: be16 addr ++ [v])) s := by
  apply Triple.ite
  · intro hlong
    exact absurd hlong (by simp)
  · intro _
    apply command_view
    · intro r hr
      exact .pure fun _ h => ⟨hr, h⟩
    · intro r s
      exact List.prefix_rfl

/-- The payload, from the start of the buffer. -/
theorem sxWriteBuffer_view {data : Bytes} (hlen : data.length ≤ 255) :
    Triple Took (View g b) (sxWriteBuffer B 0 data) fun rc s => rc = 0 ∧ View g (b.write 0 data) s := by
  apply Triple.ite
  · intro hlong
    rw [mcSpiMax] at hlong
    omega
  · intro _
    apply command_view
    · intro r hr
      exact .pure fun _ h => ⟨hr, h⟩
    · intro r s
      exact List.prefix_rfl

/-- Reading changes nothing on the board. -/
theorem sxReadCmd_view {op : UInt8} {n : Nat} (hop : op ∈ quietOps) :
    Triple Took (View g b) (sxReadCmd B op n) fun _ => View g b := by
  apply Triple.ite
  · intro _
    exact .pure fun _ h => h
  · intro _
    apply command_view
    · intro r _
      rw [exec_quiet b _ hop]
      apply Triple.ite
      · intro _
        exact .pure fun _ h => h
      · intro _
        exact .pure fun _ h => h
    · intro r s
      split
      · exact List.prefix_rfl
      · exact List.prefix_rfl

/-- A command that changes nothing on the board. -/
theorem sxWriteCmd_quiet {op : UInt8} {params : Bytes} (hop : op ∈ quietOps) (hlen : params.length ≤ 16) :
    Triple Took (View g b) (sxWriteCmd B op params) fun rc s => rc = 0 ∧ View g b s := by
  have hcmd : Triple Took (View g b) (sxWriteCmd B op params)
      fun rc s => rc = 0 ∧ View g (b.exec (op :: params)) s := sxWriteCmd_view hlen
  rwa [exec_quiet b _ hop] at hcmd

/-- While the bus does its part a command does not fail, so what follows it is reached. -/
theorem succeedsOr {α : Type} {p : Drive σ Int} {failed : Int → Drive σ α} {rest : Drive σ α}
    {P R : State Sx126xCfg σ BusAct → Prop} {Q : α → State Sx126xCfg σ BusAct → Prop}
    (hp : Triple Took P p fun rc s => rc = 0 ∧ R s)
    (hgrows : ∀ rc s, s.acts <+: (failed rc s).2.acts) (hrest : Triple Took R rest Q) :
    Triple Took P (do
      let rc ← p
      if rc ≠ 0 then failed rc else rest) Q := by
  apply hp.bind
  intro rc
  apply Triple.ite
  · intro hrc s
    refine ⟨hgrows rc s, ?_⟩
    intro hs _
    exact absurd hs.1 hrc
  · intro _
    exact hrest.pre fun _ h => h.2

/-- The same where the failure is returned at once. -/
theorem succeeds {α : Type} {p : Drive σ Int} {failed : Int → α} {rest : Drive σ α}
    {P R : State Sx126xCfg σ BusAct → Prop} {Q : α → State Sx126xCfg σ BusAct → Prop}
    (hp : Triple Took P p fun rc s => rc = 0 ∧ R s) (hrest : Triple Took R rest Q) :
    Triple Took P (do
      let rc ← p
      if rc ≠ 0 then return failed rc else rest) Q :=
  succeedsOr hp (fun _ _ => List.prefix_rfl) hrest

/-- A step of the setup does not fail. -/
theorem sxTry_view {p rest : Drive σ Int} {P R : State Sx126xCfg σ BusAct → Prop}
    {Q : Int → State Sx126xCfg σ BusAct → Prop} (hp : Triple Took P p fun rc s => rc = 0 ∧ R s)
    (hrest : Triple Took R rest Q) : Triple Took P (sxTry p rest) Q :=
  succeeds hp hrest

/-- A command whose result is not looked at. -/
theorem ignoring {α β : Type} {p : Drive σ α} {rest : Drive σ β} {c : α → Prop}
    {P R : State Sx126xCfg σ BusAct → Prop} {Q : β → State Sx126xCfg σ BusAct → Prop}
    (hp : Triple Took P p fun a s => c a ∧ R s) (hrest : Triple Took R rest Q) :
    Triple Took P (do
      let _ ← p
      rest) Q := by
  apply hp.bind
  intro _
  exact hrest.pre fun _ h => h.2

/-! ## Settings -/

/-- Image calibration, then the frequency. -/
theorem setRfFrequency_view {freqMhz : CDouble} :
    Triple Took (View g b) (setRfFrequency B freqMhz) fun rc s => rc = 0 ∧
      View g { b with tuning := { b.tuning with freq := be32 (freqWord freqMhz) } } s := by
  apply succeeds (sxWriteCmd_view (by simp [be32]))
  rw [exec_setRfFreq]
  apply sxWriteCmd_quiet (by decide)
  rw [calibrateImageParams]
  split_ifs
  all_goals decide

/-- The board with the settings of the modem. -/
def Board.withModem (b : Board) (cfg : Sx126xCfg) : Board :=
  { b with
    tuning := { b.tuning with mod := modParams cfg, pkt := (pktParams cfg 0).eraseIdx 3 }
    payloadLen := 0xFF }

/-- Modulation and packet parameters, with the longest payload. -/
theorem setModemParams_view {cfg : Sx126xCfg} :
    Triple Took (View g b) (setModemParams B cfg) fun rc s => rc = 0 ∧ View g (b.withModem cfg) s := by
  apply succeeds (sxWriteCmd_view (by simp [modParams]))
  rw [exec_setModParams]
  have hlen : (pktParams cfg 0xFF).length ≤ 16 := by simp [pktParams, be16]
  exact sxWriteCmd_view hlen

/-- The board with the payload length of the next frame. -/
def Board.withLen (b : Board) (cfg : Sx126xCfg) (len : UInt8) : Board :=
  { b with tuning := { b.tuning with pkt := (pktParams cfg 0).eraseIdx 3 }, payloadLen := len }

/-- The packet parameters once more, with the payload of the frame to send. -/
theorem setPacketParamsLen_view {len : UInt8} :
    Triple Took (View g b) (setPacketParamsLen B len) fun rc s => rc = 0 ∧ View g (b.withLen g len) s := by
  apply Triple.loaded (fun s hs => hs.1) ?_ (setPacketParamsLen_away len).grows
  exact sxWriteCmd_view (by simp [pktParams, be16])

/-! ## Bringing the chip up -/

/-- The board after a reset. -/
def Board.reset (b : Board) : Board := { b with tuning := .lost, receives := false, switch := .off }

/-- Whatever the chip held is lost. -/
theorem resetChip_view {rest : Drive σ Int} {Q : Int → State Sx126xCfg σ BusAct → Prop}
    (hrest : Triple Took (View g b.reset) rest Q) :
    Triple Took (View g b) (resetChip B rest) Q := by
  apply (halRfSwitch_view .off).bind
  intro _
  apply (halResetPin_view false).bind
  intro _
  apply (halDelayUs_view 2000).bind
  intro _
  apply (halResetPin_view true).bind
  intro _
  apply (halDelayUs_view 10000).bind
  intro _
  apply succeeds halWaitBusyLow_view
  apply succeeds (sxWriteCmd_view (by decide))
  rw [exec_setStandby]
  apply sxTry_view (sxWriteCmd_quiet (by decide) (by decide))
  exact ignoring (sxWriteCmd_quiet (by decide) (by decide)) hrest

/-- The clock changes nothing on the board; when it does not start, the sequence ends. -/
theorem startTcxo_view {v : CDouble} {rest : Drive σ Int} {Q : Int → State Sx126xCfg σ BusAct → Prop}
    (hidle : b.receives = false) (hrest : Triple Took (View g b) rest Q)
    (hstop : (CDouble.fin 0).lt v → ∀ s, View g b s → Q (-100) s) :
    Triple Took (View g b) (startTcxo B v rest) Q := by
  -- standby by command: the chip was not receiving after the reset
  have hstandby : b.exec [opSetStandby, stdbyRc] = b := by
    rw [exec_setStandby, ← hidle]
  apply Triple.ite
  · intro hv
    apply sxTry_view (sxWriteCmd_quiet (by decide) (by simp))
    apply sxTry_view (sxWriteCmd_quiet (by decide) (by decide))
    apply (halDelayUs_view 5000).bind
    intro _
    apply ignoring halWaitBusyLow_view
    apply sxTry_view (sxWriteCmd_view (by decide))
    rw [hstandby]
    apply Triple.bind (Q := fun _ => View g b)
    · apply (sxReadCmd_view (by decide)).bind
      intro _
      exact .pure fun _ h => h
    · intro errs
      apply Triple.ite
      · intro _
        exact .pure (hstop hv)
      · intro _
        exact hrest
  · intro _
    exact hrest

/-- The board with all settings of the driver. -/
def Board.tunedTo (b : Board) (cfg : Sx126xCfg) : Board :=
  { b with tuning := .of cfg, payloadLen := 0xFF, base := 0 }

/-- After the setup the chip holds everything the driver remembers. -/
theorem setUpChip_view {cfg : Sx126xCfg} :
    Triple Took (View g b) (setUpChip B cfg) fun rc s => rc = 0 ∧ View g (b.tunedTo cfg) s := by
  have hdio2 : Triple Took (View g b) (setDio2 B cfg.dio2RfSwitch) fun rc s => rc = 0 ∧ View g b s := by
    apply Triple.ite
    · intro _
      exact sxWriteCmd_quiet (by decide) (by decide)
    · intro _
      exact .pure fun _ h => ⟨rfl, h⟩
  apply sxTry_view hdio2
  apply sxTry_view (sxWriteCmd_quiet (by decide) (by decide))
  apply succeeds setRfFrequency_view
  apply sxTry_view (sxWriteCmd_quiet (by decide) (by decide))
  apply sxTry_view sxWriteRegister_view
  apply sxTry_view (sxWriteCmd_view (by simp [txParams]))
  apply succeeds setModemParams_view
  apply sxTry_view sxWriteRegister_view
  apply sxTry_view sxWriteRegister_view
  apply sxTry_view (sxWriteCmd_view (by decide))
  apply Triple.pure
  intro s hs
  refine ⟨rfl, hs.1, hs.2.trans ?_⟩
  rw [exec_setBufBase, exec_writeRegister, exec_writeRegister, exec_setTxParams, exec_writeRegister]
  rfl

/-- What the start-up sequence leaves: the board is set up, or the TCXO did not start. -/
def StartedUp (g : Sx126xCfg) (b : Board) (rc : Int) (s : State Sx126xCfg σ BusAct) : Prop :=
  (rc = -100 ∧ (CDouble.fin 0).lt g.tcxoVoltage ∧ View g b.reset s) ∨
    (rc = 0 ∧ View g (b.reset.tunedTo g) s)

/-- Reset, clock, setup. -/
theorem initSequence_view : Triple Took (View g b) (initSequence B) (StartedUp g b) := by
  apply Triple.loaded (fun s hs => hs.1) ?_ initSequence_away.grows
  apply resetChip_view
  apply startTcxo_view rfl
  · apply setUpChip_view.post
    intro rc s hs
    exact .inr hs
  · intro hv s hs
    exact .inl ⟨rfl, hv, hs⟩

/-- `sx126x_init` succeeds, with the crystal where the TCXO did not start. -/
theorem sx126xInit_view {cfg : Sx126xCfg} :
    Triple Took (View g b) (sx126xInit B cfg) fun rc s => rc = 0 ∧
      ∃ v, View { cfg with tcxoVoltage := v } (b.reset.tunedTo cfg) s := by
  apply (store_view cfg).bind
  intro _
  apply initSequence_view.bind
  intro rc
  apply Triple.ite
  · rintro ⟨hrc, -⟩
    apply Triple.pre (P := View cfg b.reset)
    · apply (store_view _).bind
      intro _
      apply initSequence_view.post
      -- without a TCXO the sequence has no other way to end
      rintro rc' s (⟨-, hv, -⟩ | ⟨hzero, hs⟩)
      · exact absurd (show (CDouble.fin 0).lt (.fin 0) = true from hv) (by decide)
      · exact ⟨hzero, .fin 0, hs⟩
    -- the first attempt ended after the reset, the settings in memory as given
    · rintro s (⟨-, -, hs⟩ | ⟨hzero, -⟩)
      · exact hs
      · omega
  · intro hnot
    apply Triple.pure
    rintro s (⟨hrc, hv, -⟩ | ⟨hzero, hs⟩)
    · exact absurd ⟨hrc, hv⟩ hnot
    · exact ⟨hzero, cfg.tcxoVoltage, hs⟩

/-! ## Receiving -/

/-- The radio listens, switch at the receiver. -/
theorem sx126xStartRx_view :
    Triple Took (View g b) (sx126xStartRx B)
      fun rc s => rc = 0 ∧ View g { b with receives := true, switch := .rx } s := by
  apply ignoring (sxWriteCmd_view (by decide))
  rw [exec_setStandby]
  apply ignoring (sxWriteCmd_quiet (by decide) (by decide))
  apply ignoring (sxWriteCmd_quiet (by decide) (by decide))
  apply (halRfSwitch_view .rx).bind
  intro _
  have hlen : ([0xFF, 0xFF, 0xFF] : Bytes).length ≤ 16 := by decide
  exact sxWriteCmd_view hlen

/-- Polling reads and clears flags; the settings stay, and so does the reception. -/
theorem sx126xPollRx_view (bufsz : Nat) :
    Triple Took (View g b) (sx126xPollRx B bufsz) fun _ => View g b := by
  have hclear : ∀ r : RxPoll, Triple Took (View g b) (do
      let _ ← sxClearIrq B irqAll
      return r) fun _ => View g b := by
    intro r
    apply ignoring (sxWriteCmd_quiet (by decide) (by decide))
    exact .pure fun _ h => h
  -- the received bytes
  have hbuffer : ∀ offset n, Triple Took (View g b) (sxReadBuffer B offset n) fun _ => View g b := by
    intro offset n
    apply Triple.ite
    · intro _
      exact .pure fun _ h => h
    · intro _
      apply command_view
      · intro r _
        have hquiet : opReadBuffer ∈ quietOps := by decide
        rw [exec_quiet b _ hquiet]
        apply Triple.ite
        · intro _
          exact .pure fun _ h => h
        · intro _
          exact .pure fun _ h => h
      · intro r s
        split
        · exact List.prefix_rfl
        · exact List.prefix_rfl
  apply halDio1Read_view.bind
  intro d
  apply Triple.ite
  · intro _
    exact .pure fun _ h => h
  intro _
  apply Triple.bind (Q := fun _ => View g b)
  · have hirq : Triple Took (View g b) (sxReadCmd B opGetIrqStatus 2) fun _ => View g b :=
      sxReadCmd_view (by decide)
    apply hirq.bind
    intro _
    exact .pure fun _ h => h
  intro irq
  cases irq with
  | none => exact .pure fun _ h => h
  | some irq =>
    apply Triple.ite
    · intro _
      apply Triple.ite
      · intro _
        apply (sxReadCmd_view (by decide)).bind
        intro _
        exact hclear _
      · intro _
        apply (sxReadCmd_view (by decide)).bind
        intro st
        cases st with
        | none => exact hclear _
        | some st =>
          apply (hbuffer _ _).bind
          intro data
          cases data with
          | none => exact hclear _
          | some data =>
            apply (sxReadCmd_view (by decide)).bind
            intro _
            exact hclear _
    · intro _
      exact hclear _

/-! ## Transmitting -/

/-- The wait's polls are quiet commands. -/
theorem stable_view : Stable (View (σ := σ) g b) := by
  intro s w acts hs hpolls
  refine ⟨hs.1, ?_⟩
  show Board.after (s.acts ++ acts) = b
  induction acts using List.reverseRecOn with
  | nil =>
    rw [List.append_nil]
    exact hs.2
  | append_singleton acts a ih =>
    rw [← List.append_assoc, after_concat, ih fun x hx => hpolls x (List.mem_append_left _ hx)]
    rcases hpolls a List.mem_concat_self with rfl | ⟨done, rfl⟩
    · rfl
    · cases done with
      | true => rfl
      | false => rfl

/-- The board after a transmission: the frame is on the air with the settings of the board. -/
def Board.afterTx (b : Board) (g : Sx126xCfg) (buf : Bytes) : Board :=
  let b := (({ b with receives := false }.withLen g (UInt8.ofNat buf.length)).exec [opSetBufBase, 0, 0]).write 0 buf
  { b with sent := b.sent ++ [(b.payload, b.tuning)], receives := true, switch := .rx }

/-- A frame that fits goes on the air once, and the radio listens again. -/
theorem sx126xTransmit_view {buf : Bytes} (timeoutMs : Nat) (hlen : ¬(buf.length = 0 ∨ 255 < buf.length)) :
    Triple Took (View g b) (sx126xTransmit B buf timeoutMs) fun _ => View g (b.afterTx g buf) := by
  rw [sx126xTransmit, if_neg hlen]
  apply ignoring (sxWriteCmd_view (by decide))
  rw [exec_setStandby]
  apply ignoring (sxWriteCmd_quiet (by decide) (by decide))
  apply ignoring setPacketParamsLen_view
  apply ignoring (sxWriteCmd_view (by decide))
  apply succeeds (sxWriteBuffer_view (by omega))
  apply ignoring (sxWriteCmd_quiet (by decide) (by decide))
  apply (halRfSwitch_view .tx).bind
  intro _
  -- a SetTx that fails ends the call, which the bus rules out
  have hstop : ∀ (rc : Int) s, s.acts <+: ((do
      halRfSwitch B .off
      let _ ← sx126xStartRx B
      return some (-12) : Drive σ (Option Int)) s).2.acts := by
    intro rc s
    have hoff := (halRfSwitch_in (B := B) (S := Away) .off).post fun _ s h => at_away (by decide) s h
    exact (hoff.bind fun _ => sx126xStartRx_away.bind fun _ => .pure fun _ h => h).grows s
  apply succeedsOr (sxWriteCmd_view (by decide)) hstop
  -- the frame is on the air
  rw [exec_setTx]
  apply (halMillis_waits timeoutMs).bind
  intro start
  apply (waitTxDone_spec stable_view).bind
  intro result
  cases result with
  | none =>
    apply Triple.pure
    rintro s ⟨hnone, -⟩
    cases hnone
  | some rc =>
    apply Triple.pre (P := View g _) ?_ fun _ h => h.2
    apply ignoring (sxWriteCmd_quiet (by decide) (by decide))
    apply (halRfSwitch_view .off).bind
    intro _
    apply ignoring sx126xStartRx_view
    exact .pure fun _ h => h

/-- The board after a channel check. -/
def Board.afterCad (b : Board) (g : Sx126xCfg) : Board :=
  if g.useCad then { b with receives := false, switch := .off } else b

/-- A channel check leaves the radio deaf, where it is made at all. -/
theorem sx126xChannelBusy_view :
    Triple Took (View g b) (sx126xChannelBusy B) fun _ => View g (b.afterCad g) := by
  apply Triple.loaded (fun s hs => hs.1) ?_ sx126xChannelBusy_away.grows
  apply Triple.ite
  · intro hcad
    apply Triple.pure
    intro s hs
    rw [Board.afterCad, if_neg (by simpa using hcad)]
    exact hs
  · intro hcad
    rw [Board.afterCad, if_pos (by simpa using hcad)]
    apply ignoring (sxWriteCmd_view (by decide))
    rw [exec_setStandby]
    apply ignoring (sxWriteCmd_quiet (by decide) (by decide))
    apply ignoring (sxWriteCmd_quiet (by decide) (by decide))
    apply ignoring (sxWriteCmd_quiet (by decide) (by simp))
    apply (halRfSwitch_view .rx).bind
    intro _
    apply ignoring (sxWriteCmd_view (by decide))
    rw [exec_setCad]
    apply (halMillis_waits 100).bind
    intro start
    apply (waitCadDone_spec stable_view 0).bind
    intro irq
    cases irq with
    | none =>
      apply Triple.pure
      rintro s ⟨hnone, -⟩
      cases hnone
    | some irq =>
      apply Triple.pre (P := View g _) ?_ fun _ h => h.2
      apply ignoring (sxWriteCmd_quiet (by decide) (by decide))
      apply (halRfSwitch_view .off).bind
      intro _
      exact .pure fun _ h => h

/-! ## Changing settings -/

/-- A change of power, and the radio is left in standby. -/
def Board.withPower (b : Board) (dbm : Int) : Board :=
  { b with tuning := { b.tuning with power := txParams dbm }, receives := false }

/-- The board in continuous reception. -/
def Board.listen (b : Board) : Board := { b with receives := true, switch := .rx }

/-- Standby, power and modem, then reception. -/
theorem sx126xSetModem_view {cfg : Sx126xCfg} :
    Triple Took (View g b) (sx126xSetModem B cfg) fun rc s => rc = 0 ∧
      View (mergeModem g cfg) ((b.withPower cfg.powerDbm).withModem (mergeModem g cfg)).listen s := by
  apply Triple.loaded (fun s hs => hs.1) ?_ (sx126xSetModem_away cfg).grows
  apply (store_view _).bind
  intro _
  apply ignoring (sxWriteCmd_view (by decide))
  rw [exec_setStandby]
  apply ignoring (sxWriteCmd_view (by simp [txParams]))
  rw [exec_setTxParams]
  apply succeeds setModemParams_view
  exact sx126xStartRx_view

/-- Standby, frequency, then reception. -/
theorem sx126xSetFrequency_view {freqMhz : CDouble} :
    Triple Took (View g b) (sx126xSetFrequency B freqMhz) fun rc s => rc = 0 ∧
      View { g with freqMhz := freqMhz }
        { b with tuning := { b.tuning with freq := be32 (freqWord freqMhz) } }.listen s := by
  apply Triple.loaded (fun s hs => hs.1) ?_ (sx126xSetFrequency_away freqMhz).grows
  apply (store_view _).bind
  intro _
  apply ignoring (sxWriteCmd_view (by decide))
  rw [exec_setStandby]
  apply succeeds setRfFrequency_view
  exact sx126xStartRx_view

/-- Both, as `mesh_apply_radio` does it. -/
theorem applyRadio_view {radio : Sx126xCfg} :
    Triple Took (View g b) (applyRadio B radio) fun rc s => rc = 0 ∧ View (mergeModem g radio)
      { (b.withPower radio.powerDbm).withModem (mergeModem g radio) with
        tuning := { ((b.withPower radio.powerDbm).withModem (mergeModem g radio)).tuning with
          freq := be32 (freqWord radio.freqMhz) } }.listen s := by
  apply succeeds sx126xSetModem_view
  exact sx126xSetFrequency_view

/-- The same power again is no command at all. -/
theorem sx126xSetTxPower_view {dbm : Int} :
    Triple Took (View g b) (sx126xSetTxPower B dbm) fun _ =>
      if clampPower dbm = g.powerDbm then View g b
      else View { g with powerDbm := clampPower dbm } (b.withPower (clampPower dbm)) := by
  have hclamp : (if (if dbm < -9 then -9 else dbm) > 22 then 22 else if dbm < -9 then -9 else dbm) =
      clampPower dbm := by
    rw [clampPower]
    split_ifs
    all_goals omega
  apply Triple.loaded (fun s hs => hs.1) ?_ (sx126xSetTxPower_away dbm).grows
  dsimp only
  rw [hclamp]
  apply Triple.ite
  · intro hsame
    rw [if_pos hsame]
    exact .pure fun _ h => h
  · intro hother
    rw [if_neg hother]
    apply (store_view _).bind
    intro _
    apply ignoring (sxWriteCmd_view (by decide))
    rw [exec_setStandby]
    apply ignoring (sxWriteCmd_view (by simp [txParams]))
    rw [exec_setTxParams]
    exact .pure fun _ h => h

/-- Standby, with the switch off. -/
theorem sx126xStandby_view :
    Triple Took (View g b) (sx126xStandby B) fun _ => View g { b with receives := false, switch := .off } := by
  apply ignoring (sxWriteCmd_view (by decide))
  rw [exec_setStandby]
  exact halRfSwitch_view .off

/-- The chip is reset and set up with what the driver remembers. -/
theorem sx126xReinit_view :
    Triple Took (View g b) (sx126xReinit B) fun _ s =>
      ∃ v, View { g with tcxoVoltage := v } (b.reset.tunedTo g).listen s := by
  apply Triple.loaded (fun s hs => hs.1) ?_ sx126xReinit_away.grows
  apply sx126xInit_view.bind
  intro rc
  apply Triple.ite
  · intro _ s
    refine ⟨sx126xStartRx_away.grows s, ?_⟩
    rintro ⟨-, v, hs⟩ hok
    exact ⟨v, (sx126xStartRx_view.run hs hok).2⟩
  · intro hrc
    apply Triple.pure
    rintro s ⟨hzero, -⟩
    exact absurd hzero hrc

end

/-! ## Every call -/

/-- A view of a board that refines the radio. -/
theorem Refines.of_view {σ : Type} {s : State Sx126xCfg σ BusAct} {g : Sx126xCfg} {b : Board} {r : Radio}
    (hs : View g b s) (h : Refines b g r) : Refines (Board.after s.acts) s.mem r := by
  rw [hs.1, hs.2]
  exact h

/-- What is on the air is the whole frame, and the settings stay. -/
theorem afterTx_sent {b : Board} {g : Sx126xCfg} {buf : Bytes} (hlen : buf.length ≤ 255)
    (htuned : b.tuning = .of g) : (b.afterTx g buf).sent = b.sent ++ [(buf, b.tuning)] ∧
      (b.afterTx g buf).tuning = b.tuning := by
  have hpkt : (pktParams g 0).eraseIdx 3 = b.tuning.pkt := by
    rw [htuned]
    rfl
  have htuning : { b.tuning with pkt := (pktParams g 0).eraseIdx 3 } = b.tuning := by rw [hpkt]
  have hpayload : ((({ b with receives := false }.withLen g (UInt8.ofNat buf.length)).exec
      [opSetBufBase, 0, 0]).write 0 buf).payload = buf := payload_write hlen rfl rfl
  refine ⟨?_, htuning⟩
  show b.sent ++ [(_, { b.tuning with pkt := (pktParams g 0).eraseIdx 3 })] = _
  rw [htuning, hpayload]

/-- A call only adds acts, so a run that ended well went well throughout. -/
theorem drive_grows {σ : Type} (B : Bus σ) (s : State Sx126xCfg σ BusAct) (x : RadioCall) :
    s.acts <+: (drive B s x).acts := by
  cases x with
  | init cfg => exact (sx126xInit_away cfg).grows s
  | startRx => exact sx126xStartRx_away.grows s
  | reinit => exact sx126xReinit_away.grows s
  | applyRadio radio => exact (applyRadio_away radio).grows s
  | setTxPower dbm => exact (sx126xSetTxPower_away dbm).grows s
  | standby => exact sx126xStandby_away.grows s
  | pollRx bufsz => exact (sx126xPollRx_away bufsz).grows s
  | transmit buf timeoutMs => exact (sx126xTransmit_away buf timeoutMs).grows s
  | channelBusy => exact sx126xChannelBusy_away.grows s

section
variable {σ : Type} (B : Bus σ) {s : State Sx126xCfg σ BusAct} {r : Radio}

/-- Coming up, from any state of the board. -/
theorem init_refines (cfg : Sx126xCfg) (hsent : (Board.after s.acts).sent = r.sent)
    (hok : ∀ e ∈ (drive B s (.init cfg)).acts, Took e) :
    Refines (Board.after (drive B s (.init cfg)).acts) (drive B s (.init cfg)).mem (r.call (.init cfg)) := by
  rcases sx126xInit_view.run ⟨rfl, rfl⟩ hok with ⟨-, v, hs⟩
  exact .of_view hs ⟨rfl, ⟨v, rfl⟩, hsent, rfl⟩

/-- One call, as long as the bus does its part. -/
theorem drive_refines (x : RadioCall) (h : Refines (Board.after s.acts) s.mem r)
    (hok : ∀ e ∈ (drive B s x).acts, Took e) :
    Refines (Board.after (drive B s x).acts) (drive B s x).mem (r.call x) := by
  have hview : View s.mem (Board.after s.acts) s := ⟨rfl, rfl⟩
  rcases h.memory with ⟨v, hmem⟩
  -- a TCXO that did not start changes the memory, not the settings of the chip
  have htuned : (Board.after s.acts).tuning = .of s.mem := by
    rw [hmem]
    exact h.tuned
  have hsettings := h.tuned
  have hsent := h.sent
  have hlistening := h.listening
  generalize hboard : Board.after s.acts = b at *
  cases x with
  | init cfg => exact init_refines B cfg (by rw [hboard]; exact hsent) hok
  | startRx =>
    have hs := (sx126xStartRx_view.run hview hok).2
    exact .of_view hs ⟨hsettings, h.memory, hsent, rfl⟩
  | reinit =>
    rcases sx126xReinit_view.run hview hok with ⟨v', hs⟩
    refine .of_view hs ⟨?_, ⟨v', ?_⟩, hsent, rfl⟩
    · rw [hmem]
      rfl
    · rw [hmem]
      rfl
  | applyRadio radio =>
    have hs := (applyRadio_view.run hview hok).2
    refine .of_view hs ⟨?_, ⟨v, ?_⟩, hsent, rfl⟩
    · rw [hmem]
      simp only [Board.listen, Board.withModem, Board.withPower, hsettings]
      rfl
    · rw [hmem]
      rfl
  | setTxPower dbm =>
    have hs := sx126xSetTxPower_view.run hview hok
    have hpower : s.mem.powerDbm = r.settings.powerDbm := by rw [hmem]
    rw [hpower] at hs
    rw [Radio.call]
    -- no change of power, no command
    by_cases hsame : clampPower dbm = r.settings.powerDbm
    · rw [if_pos hsame] at hs ⊢
      exact .of_view hs h
    · rw [if_neg hsame] at hs ⊢
      refine .of_view hs ⟨?_, ⟨v, ?_⟩, hsent, rfl⟩
      · simp only [Board.withPower, hsettings]
        rfl
      · rw [hmem]
  | standby =>
    have hs := sx126xStandby_view.run hview hok
    exact .of_view hs ⟨hsettings, h.memory, hsent, rfl⟩
  | pollRx bufsz =>
    have hs := (sx126xPollRx_view bufsz).run hview hok
    exact .of_view hs h
  | transmit buf timeoutMs =>
    rw [Radio.call]
    -- an empty or an overlong frame is refused
    by_cases hlen : buf.length = 0 ∨ 255 < buf.length
    · have hnothing : sx126xTransmit B buf timeoutMs s = (some (-10), s) := by
        rw [sx126xTransmit, if_pos hlen]
        rfl
      rw [if_pos hlen]
      show Refines (Board.after (sx126xTransmit B buf timeoutMs s).2.acts)
        (sx126xTransmit B buf timeoutMs s).2.mem r
      rw [hnothing]
      exact .of_view hview h
    · have hs := (sx126xTransmit_view timeoutMs hlen).run hview hok
      have hshort : buf.length ≤ 255 := by omega
      have hafter := afterTx_sent hshort htuned
      rw [if_neg hlen]
      refine .of_view hs ⟨hafter.2.trans hsettings, h.memory, ?_, rfl⟩
      rw [hafter.1, hsent, hsettings]
  | channelBusy =>
    have hs := sx126xChannelBusy_view.run hview hok
    have hcad : s.mem.useCad = r.settings.useCad := by rw [hmem]
    rw [Board.afterCad, hcad] at hs
    rw [Radio.call]
    -- CAD may be configured off
    by_cases huse : r.settings.useCad = true
    · rw [if_pos huse] at hs ⊢
      exact .of_view hs ⟨hsettings, h.memory, hsent, rfl⟩
    · rw [if_neg huse] at hs ⊢
      exact .of_view hs h

end

/-- Any calls after `sx126x_init`, as long as the bus does its part, whatever else the radio
answers: the board holds the settings the radio says and listens when it says so, and what was
told to go on the air is the frames it says, each with the settings of its time. -/
theorem driver_refines_radio {σ : Type} (B : Bus σ) (g cfg : Sx126xCfg) (w : σ) (xs : List RadioCall)
    (hok : ∀ e ∈ (Runs.run (drive B) ⟨g, w, []⟩ (.init cfg :: xs)).acts, Took e) :
    let s := Runs.run (drive B) ⟨g, w, []⟩ (.init cfg :: xs)
    Refines (Board.after s.acts) s.mem (Runs.run Radio.call ⟨cfg, [], false⟩ xs) := by
  intro s
  induction xs using List.reverseRecOn with
  | nil => exact init_refines (r := ⟨cfg, [], false⟩) B cfg rfl hok
  | append_singleton xs x ih =>
    have hsplit : s = drive B (Runs.run (drive B) ⟨g, w, []⟩ (.init cfg :: xs)) x := by
      show Runs.run _ _ (.init cfg :: (xs ++ [x])) = _
      rw [← List.cons_append, Runs.run_concat]
    rw [← List.cons_append, Runs.run_concat] at hok
    rw [hsplit, Runs.run_concat]
    apply drive_refines B x ?_ hok
    exact ih fun e he => hok e ((drive_grows B _ x).subset he)

/-- A bus on the bench: every transfer succeeds, and the interrupt line is up with all bits set
but the device errors and those of a packet that was received. The world is its clock. -/
def benchBus : Bus Nat where
  waitBusyLow w := (0, w)
  spiXfer tx w := ((0, if tx.head? = some opGetIrqStatus then [0, 0, 0x03, 0x9D] else tx), w)
  resetPin _ w := w
  rfSwitch _ w := w
  dio1Read w := (1, w)
  delayUs n w := w + n
  clockUs w := w
  clock_delay _ _ := le_rfl
  clock_busy _ := le_rfl
  clock_spi _ _ := le_rfl
  clock_dio1 _ := le_rfl

/-- The settings of a fresh configuration. -/
def benchCfg : Sx126xCfg where
  freqMhz := .ofRat (434890 / 1000)
  bwKhz := .ofRat (625 / 10)
  sf := 8
  cr := 8
  powerDbm := 22
  preamble := 16
  crcOn := true
  iqInverted := false
  ldro := false
  tcxoVoltage := .ofRat (16 / 10)
  syncWord := 0x1424
  ocpReg := 0x38
  useCad := true
  dio2RfSwitch := true

/-- A frame at full power, a busy channel, a retune, and a frame at low power. -/
def benchCalls : List RadioCall :=
  [.startRx, .channelBusy, .setTxPower 30, .transmit (lit "ping") 1400, .channelBusy,
    .applyRadio { benchCfg with freqMhz := .ofRat 434 }, .setTxPower 5, .transmit (lit "pong") 1400]

theorem driver_refines_radio_bench :
    let s := Runs.run (drive benchBus) ⟨benchCfg, 0, []⟩ (.init benchCfg :: benchCalls)
    (Board.after s.acts).sent =
      [(lit "ping", .of benchCfg), (lit "pong", .of { benchCfg with freqMhz := .ofRat 434, powerDbm := 5 })] ∧
      (Board.after s.acts).listening = true := by
  have h := driver_refines_radio benchBus benchCfg benchCfg 0 benchCalls (by decide +kernel)
  exact ⟨h.sent, h.listening⟩

end Meshcore.Sx126x
