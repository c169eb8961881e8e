import MeshcoreRepeater.Lib.Run
import MeshcoreRepeater.Radio.Waiting

/-! # The antenna switch

The power amplifier must not be keyed into the receiver's side of the switch, and the chip
must not be reconfigured while the amplifier is on the antenna. Both are facts about the
driver's acts alone: they hold whatever the bus answers, failed transfers and a dead radio
included, after any calls in any order.

* `sx126xTransmit_away`: the one call that keys the amplifier.
* `drive_away`: every call.
* `antenna_keyed`: any calls in any order.
-/

namespace Meshcore.Sx126x

open ByteLib Traced

/-! ## Acts in order -/

/-- Where the acts leave the switch; it starts off. -/
def switchAt (acts : List BusAct) : RfSwitch :=
  acts.foldl (fun at' a => match a with
    | .rfSwitch mode => mode
    | _ => at') .off

/-- The commands that may go out with the switch at a position. -/
def allowed : RfSwitch → UInt8 → Bool
  | .tx, op => op == opSetTx || op == opGetIrqStatus || op == opClrIrqStatus
  | .rx, op => op != opSetTx
  | .off, op => op != opSetTx && op != opSetRx && op != opSetCad

/-- Every command went out with the switch where it has to be. -/
def Keyed (acts : List BusAct) : Prop :=
  ∀ pre op params done post, acts = pre ++ .spi (op :: params) done :: post → allowed (switchAt pre) op

/-- An act that may follow with the switch at a position. -/
def Fits (mode : RfSwitch) : BusAct → Prop
  | .spi tx _ => ∀ op ∈ tx.head?, allowed mode op
  | _ => True

/-- One act more: a command has to fit where the switch is by then. -/
theorem keyed_concat {acts : List BusAct} {a : BusAct} (h : Keyed acts) (ha : Fits (switchAt acts) a) :
    Keyed (acts ++ [a]) := by
  intro pre op params done post hsplit
  -- the command is the new act, or it stands further left
  rcases List.eq_nil_or_concat post with rfl | ⟨post, last, rfl⟩
  · have hlast := List.append_inj' hsplit rfl
    rw [← hlast.1]
    have hact : a = .spi (op :: params) done := List.singleton_inj.mp hlast.2
    subst hact
    exact ha op rfl
  · rw [List.concat_eq_append, ← List.cons_append, ← List.append_assoc] at hsplit
    exact h pre op params done post (List.append_inj' hsplit rfl).1

/-- Only a turn moves the switch. -/
theorem switchAt_concat (acts : List BusAct) (a : BusAct) :
    switchAt (acts ++ [a]) = match a with
      | .rfSwitch mode => mode
      | _ => switchAt acts := by
  rw [switchAt, List.foldl_append]
  rfl

/-! ## The driver's functions -/

/-- Any act counts. -/
abbrev AnyAct : BusAct → Prop := fun _ => True

/-- Everything so far was keyed right, and the switch is at one of the positions `S`. -/
def In {σ : Type} (S : RfSwitch → Prop) (s : State Sx126xCfg σ BusAct) : Prop :=
  Keyed s.acts ∧ S (switchAt s.acts)

/-- Not at the transmitter, where no call begins or ends. -/
def Away (mode : RfSwitch) : Prop := mode ≠ .tx

/-- Off the transmitter every command may go out but the three that turn the radio on. -/
theorem away_allowed {op : UInt8} (h : op ≠ opSetTx ∧ op ≠ opSetRx ∧ op ≠ opSetCad) :
    ∀ mode, Away mode → allowed mode op := by
  intro mode hmode
  cases mode with
  | off => simp [allowed, h.1, h.2.1, h.2.2]
  | rx => simp [allowed, h.1]
  | tx => exact absurd rfl hmode

/-- At one known position it is enough to look at that one. -/
theorem at_allowed {mode : RfSwitch} {op : UInt8} (h : allowed mode op) :
    ∀ m, m = mode → allowed m op := by
  rintro m rfl
  exact h

section
variable {σ : Type} {B : Bus σ} {S : RfSwitch → Prop} {op : UInt8}

/-- An act that is not a turn of the switch. -/
theorem In.concat {s : State Sx126xCfg σ BusAct} (h : In S s) {a : BusAct} (hfits : ∀ m, S m → Fits m a)
    (hturn : ∀ mode, a ≠ .rfSwitch mode) (w : σ) : In S { s with world := w, acts := s.acts ++ [a] } := by
  refine ⟨keyed_concat h.1 (hfits _ h.2), ?_⟩
  show S (switchAt (s.acts ++ [a]))
  rw [switchAt_concat]
  cases a with
  | rfSwitch mode => exact absurd rfl (hturn mode)
  | resetPin level => exact h.2
  | spi tx done => exact h.2
  | busyStuck => exact h.2

/-- The first byte of a transfer is the command. -/
theorem fits_spi {tx : Bytes} {done : Bool} (hop : tx.head? = some op) (h : ∀ m, S m → allowed m op) :
    ∀ m, S m → Fits m (.spi tx done) := by
  intro m hm op' hop'
  rw [hop] at hop'
  cases hop'
  exact h m hm

/-- The wait polls the IRQ status, so it keeps `In S` wherever that command may go out. -/
theorem stable_in (h : ∀ m, S m → allowed m opGetIrqStatus) : Stable (In (σ := σ) S) := by
  intro s w acts hs hpolls
  induction acts generalizing s with
  | nil =>
    rw [List.append_nil]
    exact hs
  | cons a acts ih =>
    have hfirst : In S { s with world := w, acts := s.acts ++ [a] } := by
      rcases hpolls a List.mem_cons_self with rfl | ⟨done, rfl⟩
      · exact hs.concat (a := .busyStuck) (fun _ _ => trivial) (by simp) w
      · exact hs.concat (fits_spi rfl h) (by simp) w
    have hrest := ih _ hfirst fun b hb => hpolls b (List.mem_cons_of_mem a hb)
    simpa using hrest

/-- A BUSY line that stays high is reported, which moves nothing. -/
theorem halWaitBusyLow_in : Triple AnyAct (In S) (halWaitBusyLow B) fun _ => In S := by
  apply Triple.ask
  intro s hs _
  split
  · rw [List.append_nil]
    exact hs
  · exact hs.concat (a := .busyStuck) (fun _ _ => trivial) (by simp) _

/-- A transfer goes out with the switch where it stands. -/
theorem halSpiXfer_in {tx : Bytes} (hop : tx.head? = some op) (h : ∀ m, S m → allowed m op) :
    Triple AnyAct (In S) (halSpiXfer B tx) fun _ => In S := by
  apply Triple.ask
  intro s hs _
  exact hs.concat (fits_spi hop h) (by simp) _

theorem halResetPin_in (level : Bool) : Triple AnyAct (In S) (halResetPin B level) fun _ => In S := by
  apply Triple.push
  intro s hs _
  exact hs.concat (a := .resetPin level) (fun _ _ => trivial) (by simp) _

/-- A turn forgets where the switch was. -/
theorem halRfSwitch_in (mode : RfSwitch) :
    Triple AnyAct (In S) (halRfSwitch B mode) fun _ => In (· = mode) := by
  apply Triple.push
  intro s hs _
  refine ⟨keyed_concat hs.1 trivial, ?_⟩
  show switchAt (s.acts ++ [.rfSwitch mode]) = mode
  rw [switchAt_concat]

theorem halDio1Read_in : Triple AnyAct (In S) (halDio1Read B) fun _ => In S := by
  apply Triple.ask
  intro s hs _
  rw [List.append_nil]
  exact hs

theorem halDelayUs_in (n : Nat) : Triple AnyAct (In S) (halDelayUs B n) fun _ => In S := by
  apply Triple.ask
  intro s hs _
  rw [List.append_nil]
  exact hs

/-! ## Commands -/

/-- A command that waits for BUSY, goes out, and is evaluated. -/
theorem command_in {α : Type} {tx : Bytes} {stuck : α} {after : Int × Bytes → Drive σ α}
    (hop : tx.head? = some op) (h : ∀ m, S m → allowed m op)
    (hafter : ∀ r, Triple AnyAct (In S) (after r) fun _ => In S) :
    Triple AnyAct (In S) (do
      let busy ← halWaitBusyLow B
      if busy ≠ 0 then return stuck
      else
        let r ← halSpiXfer B tx
        after r) fun _ => In S := by
  apply halWaitBusyLow_in.bind
  intro busy
  apply Triple.ite
  · intro _
    exact .pure fun _ h => h
  · intro _
    apply (halSpiXfer_in hop h).bind
    exact hafter

/-- A command that may go out at every position of `S` leaves the switch in `S`. -/
theorem sxWriteCmd_in (params : Bytes) (h : ∀ m, S m → allowed m op) :
    Triple AnyAct (In S) (sxWriteCmd B op params) fun _ => In S := by
  apply Triple.ite
  · intro _
    exact .pure fun _ h => h
  · intro _
    exact command_in rfl h fun r => .pure fun _ h => h

theorem sxReadCmd_in (n : Nat) (h : ∀ m, S m → allowed m op) :
    Triple AnyAct (In S) (sxReadCmd B op n) fun _ => In S := by
  apply Triple.ite
  · intro _
    exact .pure fun _ h => h
  · intro _
    apply command_in rfl h
    intro r
    apply Triple.ite
    · intro _
      exact .pure fun _ h => h
    · intro _
      exact .pure fun _ h => h

end

section
variable {σ : Type} {B : Bus σ}

/-- Registers and the buffer are reached by commands of their own. -/
theorem sxWriteRegister_away (addr : UInt16) (data : Bytes) :
    Triple AnyAct (In Away) (sxWriteRegister B addr data) fun _ => In Away := by
  apply Triple.ite
  · intro _
    exact .pure fun _ h => h
  · intro _
    exact command_in rfl (away_allowed (by decide)) fun r => .pure fun _ h => h

theorem sxWriteBuffer_away (offset : UInt8) (data : Bytes) :
    Triple AnyAct (In Away) (sxWriteBuffer B offset data) fun _ => In Away := by
  apply Triple.ite
  · intro _
    exact .pure fun _ h => h
  · intro _
    exact command_in rfl (away_allowed (by decide)) fun r => .pure fun _ h => h

theorem sxReadBuffer_away (offset : UInt8) (n : Nat) :
    Triple AnyAct (In Away) (sxReadBuffer B offset n) fun _ => In Away := by
  apply Triple.ite
  · intro _
    exact .pure fun _ h => h
  · intro _
    apply command_in rfl (away_allowed (by decide))
    intro r
    apply Triple.ite
    · intro _
      exact .pure fun _ h => h
    · intro _
      exact .pure fun _ h => h

theorem sxWriteCmd_away (op : UInt8) (params : Bytes)
    (h : op ≠ opSetTx ∧ op ≠ opSetRx ∧ op ≠ opSetCad) :
    Triple AnyAct (In Away) (sxWriteCmd B op params) fun _ => In Away :=
  sxWriteCmd_in params (away_allowed h)

theorem setRfFrequency_away (freqMhz : CDouble) :
    Triple AnyAct (In Away) (setRfFrequency B freqMhz) fun _ => In Away := by
  apply (sxWriteCmd_away _ _ (by decide)).bind
  intro rc
  apply Triple.ite
  · intro _
    exact .pure fun _ h => h
  · intro _
    exact sxWriteCmd_away _ _ (by decide)

theorem setModemParams_away (cfg : Sx126xCfg) :
    Triple AnyAct (In Away) (setModemParams B cfg) fun _ => In Away := by
  apply (sxWriteCmd_away _ _ (by decide)).bind
  intro rc
  apply Triple.ite
  · intro _
    exact .pure fun _ h => h
  · intro _
    exact sxWriteCmd_away _ _ (by decide)

theorem setPacketParamsLen_away (len : UInt8) :
    Triple AnyAct (In Away) (setPacketParamsLen B len) fun _ => In Away := by
  apply Triple.load.bind
  intro cfg
  exact (sxWriteCmd_away _ _ (by decide)).pre fun _ h => h.2

/-- A step of a setup: the first that fails ends it. -/
theorem sxTry_away {p rest : Drive σ Int} (hp : Triple AnyAct (In Away) p fun _ => In Away)
    (hrest : Triple AnyAct (In Away) rest fun _ => In Away) :
    Triple AnyAct (In Away) (sxTry p rest) fun _ => In Away := by
  apply hp.bind
  intro rc
  apply Triple.ite
  · intro _
    exact .pure fun _ h => h
  · intro _
    exact hrest

/-! ## Calls -/

/-- Where the switch is known, and not at the transmitter. -/
theorem at_away {mode : RfSwitch} (hmode : mode ≠ .tx) (s : State Sx126xCfg σ BusAct)
    (h : In (· = mode) s) : In Away s := ⟨h.1, by rw [Away, h.2]; exact hmode⟩

/-- The reset takes the amplifier off the antenna before it pulls the pin. -/
theorem resetChip_away {rest : Drive σ Int} (hrest : Triple AnyAct (In Away) rest fun _ => In Away) :
    Triple AnyAct (In Away) (resetChip B rest) fun _ => In Away := by
  -- off, reset pin low and high, then standby by command
  apply ((halRfSwitch_in .off).post fun _ s h => at_away (by decide) s h).bind
  intro _
  apply (halResetPin_in false).bind
  intro _
  apply (halDelayUs_in 2000).bind
  intro _
  apply (halResetPin_in true).bind
  intro _
  apply (halDelayUs_in 10000).bind
  intro _
  apply halWaitBusyLow_in.bind
  intro busy
  apply Triple.ite
  · intro _
    exact .pure fun _ h => h
  intro _
  apply (sxWriteCmd_away _ _ (by decide)).bind
  intro rc
  apply Triple.ite
  · intro _
    exact .pure fun _ h => h
  intro _
  apply sxTry_away (sxWriteCmd_away _ _ (by decide))
  apply (sxWriteCmd_away _ _ (by decide)).bind
  intro _
  exact hrest

/-- The oscillator's start, only where a voltage is configured. -/
theorem startTcxo_away (v : CDouble) {rest : Drive σ Int}
    (hrest : Triple AnyAct (In Away) rest fun _ => In Away) :
    Triple AnyAct (In Away) (startTcxo B v rest) fun _ => In Away := by
  apply Triple.ite
  · intro _
    apply sxTry_away (sxWriteCmd_away _ _ (by decide))
    apply sxTry_away (sxWriteCmd_away _ _ (by decide))
    apply (halDelayUs_in 5000).bind
    intro _
    apply halWaitBusyLow_in.bind
    intro _
    apply sxTry_away (sxWriteCmd_away _ _ (by decide))
    apply Triple.bind (Q := fun _ => In Away)
    · apply (sxReadCmd_in 2 (away_allowed (by decide))).bind
      intro _
      exact .pure fun _ h => h
    · intro errs
      apply Triple.ite
      · intro _
        exact .pure fun _ h => h
      · intro _
        exact hrest
  · intro _
    exact hrest

/-- The rest of the setup, which turns nothing on. -/
theorem setUpChip_away (cfg : Sx126xCfg) :
    Triple AnyAct (In Away) (setUpChip B cfg) fun _ => In Away := by
  have hdio2 : Triple AnyAct (In Away) (setDio2 B cfg.dio2RfSwitch) fun _ => In Away := by
    apply Triple.ite
    · intro _
      exact sxWriteCmd_away _ _ (by decide)
    · intro _
      exact .pure fun _ h => h
  -- the order of the setup; each step may fail and end it
  apply sxTry_away hdio2
  apply sxTry_away (sxWriteCmd_away _ _ (by decide))
  apply (setRfFrequency_away _).bind
  intro freq
  apply Triple.ite
  · intro _
    exact .pure fun _ h => h
  intro _
  apply sxTry_away (sxWriteCmd_away _ _ (by decide))
  apply sxTry_away (sxWriteRegister_away _ _)
  apply sxTry_away (sxWriteCmd_away _ _ (by decide))
  apply (setModemParams_away _).bind
  intro modem
  apply Triple.ite
  · intro _
    exact .pure fun _ h => h
  intro _
  apply sxTry_away (sxWriteRegister_away _ _)
  apply sxTry_away (sxWriteRegister_away _ _)
  exact sxTry_away (sxWriteCmd_away _ _ (by decide)) (.pure fun _ h => h)

theorem initSequence_away : Triple AnyAct (In Away) (initSequence B) fun _ => In Away := by
  apply Triple.load.bind
  intro cfg
  exact (resetChip_away (startTcxo_away _ (setUpChip_away cfg))).pre fun _ h => h.2

theorem store_away (cfg : Sx126xCfg) :
    Triple AnyAct (In (σ := σ) Away) (store cfg) fun _ => In Away :=
  Triple.store fun _ h => h

/-- The setup, and where it fails once more with the oscillator taken for a crystal. -/
theorem sx126xInit_away (cfg : Sx126xCfg) :
    Triple AnyAct (In Away) (sx126xInit B cfg) fun _ => In Away := by
  apply (store_away cfg).bind
  intro _
  apply initSequence_away.bind
  intro rc
  apply Triple.ite
  · intro _
    apply (store_away _).bind
    intro _
    exact initSequence_away
  · intro _
    exact .pure fun _ h => h

/-- The one call that leaves the switch at the receiver, with SetRx as its last command. -/
theorem sx126xStartRx_away : Triple AnyAct (In Away) (sx126xStartRx B) fun _ => In Away := by
  apply (sxWriteCmd_away _ _ (by decide)).bind
  intro _
  apply (sxWriteCmd_away _ _ (by decide)).bind
  intro _
  apply (sxWriteCmd_away _ _ (by decide)).bind
  intro _
  -- from here the switch is at the receiver, and SetRx may go out
  apply (halRfSwitch_in .rx).bind
  intro _
  exact (sxWriteCmd_in _ (at_allowed (by decide))).post fun _ s h => at_away (by decide) s h

/-- A reset with the configuration in force. -/
theorem sx126xReinit_away : Triple AnyAct (In Away) (sx126xReinit B) fun _ => In Away := by
  apply Triple.load.bind
  intro cur
  apply ((sx126xInit_away cur).pre fun _ h => h.2).bind
  intro rc
  apply Triple.ite
  · intro _
    exact sx126xStartRx_away
  · intro _
    exact .pure fun _ h => h

theorem sx126xSetFrequency_away (freqMhz : CDouble) :
    Triple AnyAct (In Away) (sx126xSetFrequency B freqMhz) fun _ => In Away := by
  apply Triple.load.bind
  intro cfg
  apply ((store_away _).pre fun _ h => h.2).bind
  intro _
  apply (sxWriteCmd_away _ _ (by decide)).bind
  intro _
  apply (setRfFrequency_away _).bind
  intro rc
  apply Triple.ite
  · intro _
    exact .pure fun _ h => h
  · intro _
    exact sx126xStartRx_away

theorem sx126xSetModem_away (cfg : Sx126xCfg) :
    Triple AnyAct (In Away) (sx126xSetModem B cfg) fun _ => In Away := by
  apply Triple.load.bind
  intro g
  apply ((store_away _).pre fun _ h => h.2).bind
  intro _
  apply (sxWriteCmd_away _ _ (by decide)).bind
  intro _
  apply (sxWriteCmd_away _ _ (by decide)).bind
  intro _
  apply (setModemParams_away _).bind
  intro rc
  apply Triple.ite
  · intro _
    exact .pure fun _ h => h
  · intro _
    exact sx126xStartRx_away

theorem applyRadio_away (radio : Sx126xCfg) :
    Triple AnyAct (In Away) (applyRadio B radio) fun _ => In Away := by
  apply (sx126xSetModem_away radio).bind
  intro rc
  apply Triple.ite
  · intro _
    exact .pure fun _ h => h
  · intro _
    exact sx126xSetFrequency_away _

theorem sx126xSetTxPower_away (dbm : Int) :
    Triple AnyAct (In Away) (sx126xSetTxPower B dbm) fun _ => In Away := by
  apply Triple.load.bind
  intro cfg
  apply Triple.pre (P := In Away)
  · apply Triple.ite
    · intro _
      exact .pure fun _ h => h
    · intro _
      apply (store_away _).bind
      intro _
      apply (sxWriteCmd_away _ _ (by decide)).bind
      intro _
      apply (sxWriteCmd_away _ _ (by decide)).bind
      intro _
      exact .pure fun _ h => h
  · intro _ h
    exact h.2

theorem sx126xStandby_away : Triple AnyAct (In Away) (sx126xStandby B) fun _ => In Away := by
  apply (sxWriteCmd_away _ _ (by decide)).bind
  intro _
  exact (halRfSwitch_in .off).post fun _ s h => at_away (by decide) s h

/-- A poll reads what arrived and clears the flags, on every one of its ways out. -/
theorem sx126xPollRx_away (bufsz : Nat) :
    Triple AnyAct (In Away) (sx126xPollRx B bufsz) fun _ => In Away := by
  have hread : ∀ op n, op ≠ opSetTx ∧ op ≠ opSetRx ∧ op ≠ opSetCad →
      Triple AnyAct (In Away) (sxReadCmd B op n) fun _ => In Away :=
    fun op n h => sxReadCmd_in n (away_allowed h)
  -- every way out but the first clears the flags
  have hclear : ∀ r : RxPoll, Triple AnyAct (In Away) (do
      let _ ← sxClearIrq B irqAll
      return r) fun _ => In Away := by
    intro r
    apply (sxWriteCmd_away _ _ (by decide)).bind
    intro _
    exact .pure fun _ h => h
  apply halDio1Read_in.bind
  intro d
  apply Triple.ite
  · intro _
    exact .pure fun _ h => h
  intro _
  apply Triple.bind (Q := fun _ => In Away)
  · apply (hread _ 2 (by decide)).bind
    intro _
    exact .pure fun _ h => h
  intro irq
  -- the status could not be read, or these flags are set
  cases irq with
  | none => exact .pure fun _ h => h
  | some irq =>
    apply Triple.ite
    · intro _
      apply Triple.ite
      · intro _
        apply (hread _ 3 (by decide)).bind
        intro _
        exact hclear _
      · intro _
        apply (hread _ 2 (by decide)).bind
        intro st
        -- a packet of good CRC: its place and length, then its bytes
        cases st with
        | none => exact hclear _
        | some st =>
          apply (sxReadBuffer_away _ _).bind
          intro data
          cases data with
          | none => exact hclear _
          | some data =>
            apply (hread _ 3 (by decide)).bind
            intro _
            exact hclear _
    · intro _
      exact hclear _

/-- Between keying the amplifier and taking it off the antenna again there is the wait. -/
theorem sx126xTransmit_away (buf : Bytes) (timeoutMs : Nat) :
    Triple AnyAct (In Away) (sx126xTransmit B buf timeoutMs) fun r s => r.isSome ∧ In Away s := by
  apply Triple.ite
  · intro _
    exact .pure fun _ h => ⟨rfl, h⟩
  intro _
  apply (sxWriteCmd_away _ _ (by decide)).bind
  intro _
  apply (sxWriteCmd_away _ _ (by decide)).bind
  intro _
  apply (setPacketParamsLen_away _).bind
  intro _
  apply (sxWriteCmd_away _ _ (by decide)).bind
  intro _
  apply (sxWriteBuffer_away _ _).bind
  intro written
  apply Triple.ite
  · intro _
    exact .pure fun _ h => ⟨rfl, h⟩
  intro _
  apply (sxWriteCmd_away _ _ (by decide)).bind
  intro _
  -- the amplifier is on the antenna: SetTx, and nothing else
  apply (halRfSwitch_in .tx).bind
  intro _
  apply (sxWriteCmd_in _ (at_allowed (by decide))).bind
  intro started
  apply Triple.ite
  · intro _
    -- the chip refused SetTx
    apply ((halRfSwitch_in .off).post fun _ s h => at_away (by decide) s h).bind
    intro _
    apply sx126xStartRx_away.bind
    intro _
    exact .pure fun _ h => ⟨rfl, h⟩
  · intro _
    apply (halMillis_waits timeoutMs).bind
    intro start
    -- the wait polls the status only
    apply (waitTxDone_spec (stable_in (at_allowed (by decide)))).bind
    intro result
    cases result with
    | none =>
      apply Triple.pure
      rintro s ⟨hnone, -⟩
      cases hnone
    | some rc =>
      -- the flags are cleared before the switch is turned off
      apply ((sxWriteCmd_in _ (at_allowed (by decide))).pre fun _ h => h.2).bind
      intro _
      apply ((halRfSwitch_in .off).post fun _ s h => at_away (by decide) s h).bind
      intro _
      apply sx126xStartRx_away.bind
      intro _
      exact .pure fun _ h => ⟨rfl, h⟩

/-- The check listens with the switch at the receiver, waits, and leaves it off. -/
theorem sx126xChannelBusy_away :
    Triple AnyAct (In Away) (sx126xChannelBusy B) fun r s => r.isSome ∧ In Away s := by
  apply Triple.load.bind
  intro cfg
  apply Triple.pre (P := In Away)
  · apply Triple.ite
    · intro _
      exact .pure fun _ h => ⟨rfl, h⟩
    intro _
    apply (sxWriteCmd_away _ _ (by decide)).bind
    intro _
    apply (sxWriteCmd_away _ _ (by decide)).bind
    intro _
    apply (sxWriteCmd_away _ _ (by decide)).bind
    intro _
    apply (sxWriteCmd_away _ _ (by decide)).bind
    intro _
    -- listening, up to 100 ms
    apply (halRfSwitch_in .rx).bind
    intro _
    apply (sxWriteCmd_in _ (at_allowed (by decide))).bind
    intro _
    apply (halMillis_waits 100).bind
    intro start
    apply (waitCadDone_spec (stable_in (at_allowed (by decide))) 0).bind
    intro irq
    cases irq with
    | none =>
      apply Triple.pure
      rintro s ⟨hnone, -⟩
      cases hnone
    | some irq =>
      apply ((sxWriteCmd_in _ (at_allowed (by decide))).pre fun _ h => h.2).bind
      intro _
      apply ((halRfSwitch_in .off).post fun _ s h => at_away (by decide) s h).bind
      intro _
      exact .pure fun _ h => ⟨rfl, h⟩
  · intro _ h
    exact h.2

end

/-! ## Runs -/

/-- The calls of the main loop, the mesh and the command line. -/
inductive RadioCall where
  | init (cfg : Sx126xCfg)
  | startRx
  | reinit
  | applyRadio (radio : Sx126xCfg)
  | setTxPower (dbm : Int)
  | standby
  | pollRx (bufsz : Nat)
  | transmit (buf : Bytes) (timeoutMs : Nat)
  | channelBusy

/-- The state after one call. -/
def drive {σ : Type} (B : Bus σ) (s : State Sx126xCfg σ BusAct) : RadioCall → State Sx126xCfg σ BusAct
  | .init cfg => (sx126xInit B cfg s).2
  | .startRx => (sx126xStartRx B s).2
  | .reinit => (sx126xReinit B s).2
  | .applyRadio radio => (applyRadio B radio s).2
  | .setTxPower dbm => (sx126xSetTxPower B dbm s).2
  | .standby => (sx126xStandby B s).2
  | .pollRx bufsz => (sx126xPollRx B bufsz s).2
  | .transmit buf timeoutMs => (sx126xTransmit B buf timeoutMs s).2
  | .channelBusy => (sx126xChannelBusy B s).2

/-- Every call of the driver takes a state off the transmitter to such a state. -/
theorem drive_away {σ : Type} (B : Bus σ) {s : State Sx126xCfg σ BusAct} (x : RadioCall)
    (hs : In Away s) : In Away (drive B s x) := by
  have hany : ∀ {acts : List BusAct}, ∀ e ∈ acts, AnyAct e := fun _ _ => trivial
  cases x with
  | init cfg => exact (sx126xInit_away cfg).run hs hany
  | startRx => exact sx126xStartRx_away.run hs hany
  | reinit => exact sx126xReinit_away.run hs hany
  | applyRadio radio => exact (applyRadio_away radio).run hs hany
  | setTxPower dbm => exact (sx126xSetTxPower_away dbm).run hs hany
  | standby => exact sx126xStandby_away.run hs hany
  | pollRx bufsz => exact (sx126xPollRx_away bufsz).run hs hany
  | transmit buf timeoutMs => exact ((sx126xTransmit_away buf timeoutMs).run hs hany).2
  | channelBusy => exact (sx126xChannelBusy_away.run hs hany).2

/-- After any calls in any order, whatever the bus and the radio answer: SetTx went out only with
the switch at the transmitter, and with it there nothing else did but the polling of the wait;
SetRx and SetCad went out only with the switch at the receiver. The calls leave the switch off
the transmitter, and the next transmission or channel check returns. -/
theorem antenna_keyed {σ : Type} (B : Bus σ) (cfg : Sx126xCfg) (w : σ) (xs : List RadioCall) :
    let s := Runs.run (drive B) ⟨cfg, w, []⟩ xs
    (∀ pre op params done post, s.acts = pre ++ .spi (op :: params) done :: post →
      allowed (switchAt pre) op) ∧
      switchAt s.acts ≠ .tx ∧ (∀ buf timeoutMs, (sx126xTransmit B buf timeoutMs s).1.isSome) ∧
      (sx126xChannelBusy B s).1.isSome := by
  intro s
  have hs : In Away s := by
    -- before the first call nothing was sent, and the switch is off
    apply Runs.run_invariant (In Away)
    · intro s x hs
      exact drive_away B x hs
    · refine ⟨?_, RfSwitch.noConfusion⟩
      intro pre op params done post h
      exact absurd h (by simp)
  have hany : ∀ {acts : List BusAct}, ∀ e ∈ acts, AnyAct e := fun _ _ => trivial
  refine ⟨hs.1, hs.2, ?_, ?_⟩
  · intro buf timeoutMs
    exact ((sx126xTransmit_away buf timeoutMs).run hs hany).1
  · exact (sx126xChannelBusy_away.run hs hany).1

end Meshcore.Sx126x
