import MeshcoreRepeater.Radio.Antenna

/-! # What the commands do to the radio

The board is the chip and the antenna switch in front of it, as far as the driver's acts
decide them: the settings that shape a transmission, the payload buffer, whether the chip
receives, and what it was told to send. It is computed from the acts; a transfer that failed
is taken to have had no effect.

`Radio` is what the board is for: settings, frames on the air, and listening in between.

* `payload_write`: a frame that was written whole is the payload.
-/

namespace Meshcore.Sx126x

open ByteLib Traced

/-! ## The board -/

/-- The settings of the chip that shape what goes on the air, as they were written. -/
structure Tuning where
  freq : Bytes
  mod : Bytes
  /-- the packet parameters without the payload length -/
  pkt : Bytes
  power : Bytes
  ocp : UInt8
  syncMsb : UInt8
  syncLsb : UInt8
deriving DecidableEq

structure Board where
  tuning : Tuning
  payloadLen : UInt8
  base : UInt8
  buffer : UInt8 → UInt8
  /-- the chip is in continuous reception -/
  receives : Bool
  switch : RfSwitch
  sent : List (Bytes × Tuning)

/-- A chip that was reset has lost its settings. -/
def Tuning.lost : Tuning := ⟨[], [], [], [], 0, 0, 0⟩

def Board.initial : Board := ⟨.lost, 0, 0, fun _ => 0, false, .off, []⟩

/-- One byte into a register. -/
def Tuning.writeReg (t : Tuning) (addr : UInt16) (v : UInt8) : Tuning :=
  if addr = regOcp then { t with ocp := v }
  else if addr = regLoraSyncMsb then { t with syncMsb := v }
  else if addr = regLoraSyncLsb then { t with syncLsb := v }
  else t

/-- WriteRegister, the address counting up. -/
def Tuning.writeRegs (t : Tuning) (ps : Bytes) : Tuning :=
  ((ps.drop 2).zipIdx).foldl (fun t x => t.writeReg (fromBe16 ps + UInt16.ofNat x.2) x.1) t

/-- WriteBuffer, the offset counting up and round. -/
def Board.write (b : Board) (offset : UInt8) (data : Bytes) : Board :=
  { b with buffer := fun k => data.getD (k - offset).toNat (b.buffer k) }

/-- What SetTx sends: the payload from the base address. -/
def Board.payload (b : Board) : Bytes :=
  (List.range b.payloadLen.toNat).map fun i => b.buffer (b.base + UInt8.ofNat i)

/-- A command the chip took. Commands that are not listed change nothing here. -/
def Board.exec (b : Board) : Bytes → Board
  | [] => b
  | op :: ps =>
    if op = opSetStandby then { b with receives := false }
    else if op = opSetRx then { b with receives := true }
    else if op = opSetCad then { b with receives := false }
    else if op = opSetTx then { b with receives := false, sent := b.sent ++ [(b.payload, b.tuning)] }
    else if op = opSetRfFreq then { b with tuning := { b.tuning with freq := ps } }
    else if op = opSetModParams then { b with tuning := { b.tuning with mod := ps } }
    else if op = opSetPktParams then
      { b with tuning := { b.tuning with pkt := ps.eraseIdx 3 }, payloadLen := ps.getD 3 0 }
    else if op = opSetTxParams then { b with tuning := { b.tuning with power := ps } }
    else if op = opWriteRegister then { b with tuning := b.tuning.writeRegs ps }
    else if op = opSetBufBase then { b with base := ps.getD 0 0 }
    else if op = opWriteBuffer then b.write (ps.getD 0 0) (ps.drop 1)
    else b

def Board.act (b : Board) : BusAct → Board
  | .resetPin _ => { b with tuning := .lost, receives := false }
  | .rfSwitch mode => { b with switch := mode }
  | .spi tx true => b.exec tx
  | .spi _ false => b
  | .busyStuck => b

/-- The board after the acts of a run. -/
def Board.after (acts : List BusAct) : Board := acts.foldl Board.act .initial

/-- The radio hears what is on the air. -/
def Board.listening (b : Board) : Bool := b.receives && b.switch == .rx

/-- The bus did its part. -/
def Took : BusAct → Prop
  | .spi _ done => done = true
  | .busyStuck => False
  | _ => True

instance : DecidablePred Took := fun a => match a with
  | .spi _ done => inferInstanceAs (Decidable (done = true))
  | .busyStuck => inferInstanceAs (Decidable False)
  | .resetPin _ => inferInstanceAs (Decidable True)
  | .rfSwitch _ => inferInstanceAs (Decidable True)

/-- The settings of the driver, as the chip has them. -/
def Tuning.of (cfg : Sx126xCfg) : Tuning where
  freq := be32 (freqWord cfg.freqMhz)
  mod := modParams cfg
  pkt := (pktParams cfg 0).eraseIdx 3
  power := txParams cfg.powerDbm
  ocp := cfg.ocpReg
  syncMsb := (cfg.syncWord >>> 8).toUInt8
  syncLsb := cfg.syncWord.toUInt8

/-! ## The radio the rest of the program sees -/

/-- Settings, the frames that went on the air with the settings of each, and whether the radio
listens in between. -/
structure Radio where
  settings : Sx126xCfg
  sent : List (Bytes × Tuning)
  listening : Bool

/-- The power the chip is given. -/
def clampPower (dbm : Int) : Int := min (max dbm (-9)) 22

/-- One call. A channel check leaves the radio deaf, and so does a change of power until the
next transmission. -/
def Radio.call (r : Radio) : RadioCall → Radio
  | .init cfg => { r with settings := cfg, listening := false }
  | .startRx => { r with listening := true }
  | .reinit => { r with listening := true }
  | .applyRadio radio => { r with settings := mergeModem r.settings radio, listening := true }
  | .setTxPower dbm =>
    if clampPower dbm = r.settings.powerDbm then r
    else { r with settings := { r.settings with powerDbm := clampPower dbm }, listening := false }
  | .standby => { r with listening := false }
  | .pollRx _ => r
  | .transmit buf _ =>
    if buf.length = 0 ∨ 255 < buf.length then r
    else { r with sent := r.sent ++ [(buf, .of r.settings)], listening := true }
  | .channelBusy => if r.settings.useCad then { r with listening := false } else r

/-- Settings that differ in the clock alone: the crystal may have taken the TCXO's place. -/
def SameAir (g settings : Sx126xCfg) : Prop := ∃ v, g = { settings with tcxoVoltage := v }

/-- The board and the driver's memory do what the radio says. -/
structure Refines (b : Board) (g : Sx126xCfg) (r : Radio) : Prop where
  tuned : b.tuning = .of r.settings
  memory : SameAir g r.settings
  sent : b.sent = r.sent
  listening : b.listening = r.listening

/-! ## Commands on the board -/

section
variable (b : Board) (ps : Bytes)

theorem exec_setStandby : b.exec (opSetStandby :: ps) = { b with receives := false } := rfl

theorem exec_setCad : b.exec (opSetCad :: ps) = { b with receives := false } := rfl

theorem exec_setTx : b.exec (opSetTx :: ps) =
    { b with receives := false, sent := b.sent ++ [(b.payload, b.tuning)] } := rfl

theorem exec_setRfFreq : b.exec (opSetRfFreq :: ps) =
    { b with tuning := { b.tuning with freq := ps } } := rfl

theorem exec_setModParams : b.exec (opSetModParams :: ps) =
    { b with tuning := { b.tuning with mod := ps } } := rfl

theorem exec_setTxParams : b.exec (opSetTxParams :: ps) =
    { b with tuning := { b.tuning with power := ps } } := rfl

theorem exec_setBufBase : b.exec (opSetBufBase :: ps) = { b with base := ps.getD 0 0 } := rfl

theorem exec_writeRegister (addr : UInt16) (v : UInt8) :
    b.exec (opWriteRegister :: be16 addr ++ [v]) =
      { b with tuning := b.tuning.writeReg (fromBe16 (be16 addr)) v } := by
  show { b with tuning := b.tuning.writeReg (fromBe16 (be16 addr ++ [v]) + UInt16.ofNat 0) v } = _
  have hzero : fromBe16 (be16 addr ++ [v]) + UInt16.ofNat 0 = fromBe16 (be16 addr) := by
    simp [fromBe16, be16]
  rw [hzero]

/-- The other commands of the driver leave the board as it is. -/
def quietOps : List UInt8 :=
  [opSetRegulator, opSetPacketType, opCalibrate, opCalibrateImage, opSetPaConfig, opSetDioIrq,
    opGetIrqStatus, opClrIrqStatus, opSetCadParams, opGetRxBufStatus, opGetPacketStatus, opReadBuffer,
    opSetDio3Tcxo, opSetDio2RfSwitch, opGetDeviceErrors, opClrDeviceErrors]

theorem exec_quiet {op : UInt8} (h : op ∈ quietOps) : b.exec (op :: ps) = b := by
  simp only [quietOps, List.mem_cons, List.not_mem_nil, or_false] at h
  rcases h with rfl | rfl | rfl | rfl | rfl | rfl | rfl | rfl | rfl | rfl | rfl | rfl | rfl | rfl | rfl | rfl
  all_goals rfl

end

theorem after_concat (acts : List BusAct) (a : BusAct) :
    Board.after (acts ++ [a]) = (Board.after acts).act a := by
  rw [Board.after, List.foldl_append]
  rfl

/-- A frame that was written whole is the payload. -/
theorem payload_write {b : Board} {data : Bytes} (hlen : data.length ≤ 255)
    (hpayload : b.payloadLen = UInt8.ofNat data.length) (hbase : b.base = 0) :
    (b.write 0 data).payload = data := by
  have hcount : b.payloadLen.toNat = data.length := by
    rw [hpayload, UInt8.toNat_ofNat']
    exact Nat.mod_eq_of_lt (by omega)
  refine List.ext_getElem ?_ ?_
  · simp [Board.payload, Board.write, hcount]
  · intro i hi hi'
    have hsmall : i % 256 = i := Nat.mod_eq_of_lt (by omega)
    simp [Board.payload, Board.write, hbase, hsmall, hi']

end Meshcore.Sx126x
