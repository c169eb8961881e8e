import MeshcoreRepeater.Lib.DoubleArith
import MeshcoreRepeater.Lib.Traced
import MeshcoreRepeater.Config.Basic

/-! # The SX1268 driver

`sx126x.c` over the hardware layer it is written against: every command waits for BUSY,
goes out over SPI, and the driver turns the antenna switch itself. The bus answers as it
likes; what the driver did to the radio is the list of its acts.
-/

namespace Meshcore.Sx126x

open ByteLib Traced

/-! ## The hardware layer -/

/-- `rf_switch_t`. -/
inductive RfSwitch where
  | off
  | rx
  | tx
deriving DecidableEq

/-- What the driver does to the radio. A transfer is noted with the bytes that were sent and
whether it succeeded. -/
inductive BusAct where
  | resetPin (level : Bool)
  | rfSwitch (mode : RfSwitch)
  | spi (tx : Bytes) (ok : Bool)
  | busyStuck
deriving DecidableEq

/-- `hal.h`, as the driver uses it. The clock is the monotonic one: nothing turns it back, and
a delay passes in full. -/
structure Bus (σ : Type) where
  /-- `hal_wait_busy_low(BUSY_TIMEOUT_US)` -/
  waitBusyLow : σ → Int × σ
  /-- `hal_spi_xfer`: the result, and what was read meanwhile -/
  spiXfer : Bytes → σ → (Int × Bytes) × σ
  resetPin : Bool → σ → σ
  rfSwitch : RfSwitch → σ → σ
  dio1Read : σ → Int × σ
  delayUs : Nat → σ → σ
  clockUs : σ → Nat
  clock_delay : ∀ n w, clockUs w + n ≤ clockUs (delayUs n w)
  clock_busy : ∀ w, clockUs w ≤ clockUs (waitBusyLow w).2
  clock_spi : ∀ tx w, clockUs w ≤ clockUs (spiXfer tx w).2
  clock_dio1 : ∀ w, clockUs w ≤ clockUs (dio1Read w).2

/-- `sx126x_cfg_t`. -/
structure Sx126xCfg where
  freqMhz : CDouble
  bwKhz : CDouble
  sf : UInt8
  cr : UInt8
  powerDbm : Int
  preamble : UInt16
  crcOn : Bool
  iqInverted : Bool
  ldro : Bool
  tcxoVoltage : CDouble
  syncWord : UInt16
  ocpReg : UInt8
  useCad : Bool
  dio2RfSwitch : Bool

/-- The driver's memory is `g_cfg`. -/
abbrev Drive (σ α : Type) := Prog Sx126xCfg σ BusAct α

/-! ## Opcodes, registers and interrupt bits -/

def opSetStandby : UInt8 := 0x80
def opSetRegulator : UInt8 := 0x96
def opSetPacketType : UInt8 := 0x8A
def opSetRfFreq : UInt8 := 0x86
def opCalibrate : UInt8 := 0x89
def opCalibrateImage : UInt8 := 0x98
def opSetPaConfig : UInt8 := 0x95
def opSetTxParams : UInt8 := 0x8E
def opSetModParams : UInt8 := 0x8B
def opSetPktParams : UInt8 := 0x8C
def opSetBufBase : UInt8 := 0x8F
def opWriteBuffer : UInt8 := 0x0E
def opReadBuffer : UInt8 := 0x1E
def opWriteRegister : UInt8 := 0x0D
def opSetDioIrq : UInt8 := 0x08
def opGetIrqStatus : UInt8 := 0x12
def opClrIrqStatus : UInt8 := 0x02
def opSetTx : UInt8 := 0x83
def opSetRx : UInt8 := 0x82
def opSetCad : UInt8 := 0xC5
def opSetCadParams : UInt8 := 0x88
def opGetRxBufStatus : UInt8 := 0x13
def opGetPacketStatus : UInt8 := 0x14
def opSetDio3Tcxo : UInt8 := 0x97
def opSetDio2RfSwitch : UInt8 := 0x9D
def opGetDeviceErrors : UInt8 := 0x17
def opClrDeviceErrors : UInt8 := 0x07

def stdbyRc : UInt8 := 0x00

def regOcp : UInt16 := 0x08E7
def regLoraSyncMsb : UInt16 := 0x0740
def regLoraSyncLsb : UInt16 := 0x0741

def irqTxDone : UInt16 := 0x0001
def irqRxDone : UInt16 := 0x0002
def irqHeaderErr : UInt16 := 0x0020
def irqCrcErr : UInt16 := 0x0040
def irqCadDone : UInt16 := 0x0080
def irqCadDetected : UInt16 := 0x0100
def irqTimeout : UInt16 := 0x0200
def irqAll : UInt16 := 0x03FF

def errXoscStart : UInt16 := 0x0020

def mcSpiMax : Nat := 256

/-- The two bytes of a 16-bit value, most significant first. -/
def be16 (x : UInt16) : Bytes := [(x >>> 8).toUInt8, x.toUInt8]

/-- The 16-bit value of two bytes that were read. -/
def fromBe16 (r : Bytes) : UInt16 := (r.getD 0 0).toUInt16 <<< 8 ||| (r.getD 1 0).toUInt16

section
variable {σ : Type} (B : Bus σ)

/-! ## The calls of the hardware layer -/

def halWaitBusyLow : Drive σ Int := ask B.waitBusyLow fun rc => if rc = 0 then [] else [.busyStuck]

def halSpiXfer (tx : Bytes) : Drive σ (Int × Bytes) := ask (B.spiXfer tx) fun r => [.spi tx (r.1 == 0)]

def halResetPin (level : Bool) : Drive σ Unit := push (B.resetPin level) (.resetPin level)

def halRfSwitch (mode : RfSwitch) : Drive σ Unit := push (B.rfSwitch mode) (.rfSwitch mode)

def halDio1Read : Drive σ Int := ask B.dio1Read fun _ => []

def halDelayUs (n : Nat) : Drive σ Unit := ask (fun w => ((), B.delayUs n w)) fun _ => []

def halMillis : Drive σ Nat := ask (fun w => (B.clockUs w / 1000, w)) fun _ => []

/-! ## Commands -/

/-- `sx_write_cmd`. -/
def sxWriteCmd (opcode : UInt8) (params : Bytes) : Drive σ Int := do
  if 16 < params.length then return -1
  else
    let busy ← halWaitBusyLow B
    if busy ≠ 0 then return -2
    else
      let r ← halSpiXfer B (opcode :: params)
      return r.1

/-- `sx_read_cmd`: the `n` bytes behind the status byte. -/
def sxReadCmd (opcode : UInt8) (n : Nat) : Drive σ (Option Bytes) := do
  if 8 < n then return none
  else
    let busy ← halWaitBusyLow B
    if busy ≠ 0 then return none
    else
      let r ← halSpiXfer B (opcode :: List.replicate (1 + n) 0)
      if r.1 ≠ 0 then return none
      else return some ((r.2.drop 2).take n)

/-- `sx_write_register`. -/
def sxWriteRegister (addr : UInt16) (data : Bytes) : Drive σ Int := do
  if 8 < data.length then return -1
  else
    let busy ← halWaitBusyLow B
    if busy ≠ 0 then return -2
    else
      let r ← halSpiXfer B (opWriteRegister :: be16 addr ++ data)
      return r.1

/-- `sx_write_buffer`. -/
def sxWriteBuffer (offset : UInt8) (data : Bytes) : Drive σ Int := do
  if mcSpiMax < data.length then return -1
  else
    let busy ← halWaitBusyLow B
    if busy ≠ 0 then return -2
    else
      let r ← halSpiXfer B (opWriteBuffer :: offset :: data)
      return r.1

/-- `sx_read_buffer`: the data follows the offset and a NOP. -/
def sxReadBuffer (offset : UInt8) (n : Nat) : Drive σ (Option Bytes) := do
  if mcSpiMax < n then return none
  else
    let busy ← halWaitBusyLow B
    if busy ≠ 0 then return none
    else
      let r ← halSpiXfer B (opReadBuffer :: offset :: List.replicate (1 + n) 0)
      if r.1 ≠ 0 then return none
      else return some ((r.2.drop 3).take n)

/-- `sx_clear_irq`. -/
def sxClearIrq (mask : UInt16) : Drive σ Int := sxWriteCmd B opClrIrqStatus (be16 mask)

/-- `sx_get_irq`. -/
def sxGetIrq : Drive σ (Option UInt16) := do
  let r ← sxReadCmd B opGetIrqStatus 2
  return r.map fromBe16

/-- `sx_set_dio_irq`. -/
def sxSetDioIrq (irqMask dio1Mask dio2Mask dio3Mask : UInt16) : Drive σ Int :=
  sxWriteCmd B opSetDioIrq (be16 irqMask ++ be16 dio1Mask ++ be16 dio2Mask ++ be16 dio3Mask)

/-- `sx_set_standby`. -/
def sxSetStandby (mode : UInt8) : Drive σ Int := sxWriteCmd B opSetStandby [mode]

/-- `sx_get_device_errors`. -/
def sxGetDeviceErrors : Drive σ (Option UInt16) := do
  let r ← sxReadCmd B opGetDeviceErrors 2
  return r.map fromBe16

end

/-! ## Settings as the chip takes them -/

/-- `bw_code`. -/
def bwCode (bwKhz : CDouble) : UInt8 :=
  let hz := ((bwKhz.mul (.ofRat 1000)).add (.ofRat (1 / 2))).toU32
  if hz = 62500 then 0x03 else if hz = 125000 then 0x04 else if hz = 250000 then 0x05
  else if hz = 500000 then 0x06 else 0x05

/-- `tcxo_voltage_code`. -/
def tcxoVoltageCode (v : CDouble) : UInt8 :=
  if v.ge (.ofRat (33 / 10)) then 0x07 else if v.ge (.ofRat 3) then 0x06
  else if v.ge (.ofRat (27 / 10)) then 0x05 else if v.ge (.ofRat (24 / 10)) then 0x04
  else if v.ge (.ofRat (22 / 10)) then 0x03 else if v.ge (.ofRat (18 / 10)) then 0x02
  else if v.ge (.ofRat (17 / 10)) then 0x01 else 0x00

/-- `calibrate_image_params`. -/
def calibrateImageParams (freqMhz : CDouble) : Bytes :=
  if freqMhz.ge (.ofRat 430) && freqMhz.le (.ofRat 440) then [0x6B, 0x6F]
  else if freqMhz.ge (.ofRat 470) && freqMhz.le (.ofRat 510) then [0x75, 0x81]
  else if freqMhz.ge (.ofRat 779) && freqMhz.le (.ofRat 787) then [0xC1, 0xC5]
  else if freqMhz.ge (.ofRat 863) && freqMhz.le (.ofRat 870) then [0xD7, 0xDB]
  else [0xE1, 0xE9]

/-- The frequency word of `set_rf_frequency`. -/
def freqWord (freqMhz : CDouble) : UInt32 :=
  let word := ((freqMhz.mul (.ofRat 1000000)).mul (.ofRat 33554432)).div (.ofRat 32000000)
  UInt32.ofInt word.llround

def be32 (x : UInt32) : Bytes :=
  [(x >>> 24).toUInt8, (x >>> 16).toUInt8, (x >>> 8).toUInt8, x.toUInt8]

def flag (b : Bool) : UInt8 := if b then 1 else 0

/-- The modulation parameters of `set_modem_params`. -/
def modParams (cfg : Sx126xCfg) : Bytes := [cfg.sf, bwCode cfg.bwKhz, cfg.cr - 4, flag cfg.ldro]

/-- The packet parameters: explicit header, and a payload of `len` bytes. -/
def pktParams (cfg : Sx126xCfg) (len : UInt8) : Bytes :=
  be16 cfg.preamble ++ [0x00, len, flag cfg.crcOn, flag cfg.iqInverted]

/-- `(uint8_t)power_dbm` and the ramp of 160 us. -/
def txParams (powerDbm : Int) : Bytes := [UInt8.ofInt powerDbm, 0x04]

section
variable {σ : Type} (B : Bus σ)

/-- `set_rf_frequency`. -/
def setRfFrequency (freqMhz : CDouble) : Drive σ Int := do
  let rc ← sxWriteCmd B opSetRfFreq (be32 (freqWord freqMhz))
  if rc ≠ 0 then return rc
  else sxWriteCmd B opCalibrateImage (calibrateImageParams freqMhz)

/-- `set_modem_params`. -/
def setModemParams (cfg : Sx126xCfg) : Drive σ Int := do
  let rc ← sxWriteCmd B opSetModParams (modParams cfg)
  if rc ≠ 0 then return rc
  else sxWriteCmd B opSetPktParams (pktParams cfg 0xFF)

/-- `set_packet_params_len`. -/
def setPacketParamsLen (len : UInt8) : Drive σ Int := do
  let cfg ← load
  sxWriteCmd B opSetPktParams (pktParams cfg len)

/-! ## Bringing the chip up -/

/-- `SX_TRY`: a failed command ends the sequence with -20. -/
def sxTry (p : Drive σ Int) (rest : Drive σ Int) : Drive σ Int := do
  let rc ← p
  if rc ≠ 0 then return -20 else rest

/-- The start of `init_sequence` up to the clock. -/
def resetChip (rest : Drive σ Int) : Drive σ Int := do
  halRfSwitch B .off
  halResetPin B false
  halDelayUs B 2000
  halResetPin B true
  halDelayUs B 10000
  let busy ← halWaitBusyLow B
  if busy ≠ 0 then return -1
  else
    let rc ← sxSetStandby B stdbyRc
    if rc ≠ 0 then return -2
    else
      sxTry (sxWriteCmd B opSetRegulator [0x01]) do
        let _ ← sxWriteCmd B opClrDeviceErrors [0, 0]
        rest

/-- The clock of `init_sequence`: -100 when the TCXO was asked for and did not start. -/
def startTcxo (tcxoVoltage : CDouble) (rest : Drive σ Int) : Drive σ Int :=
  if (CDouble.fin 0).lt tcxoVoltage then
    sxTry (sxWriteCmd B opSetDio3Tcxo [tcxoVoltageCode tcxoVoltage, 0x00, 0x01, 0x40]) <|
    sxTry (sxWriteCmd B opCalibrate [0x7F]) do
      halDelayUs B 5000
      let _ ← halWaitBusyLow B
      sxTry (sxSetStandby B stdbyRc) do
        let errs ← sxGetDeviceErrors B
        if errs.any (fun e => e &&& errXoscStart != 0) then return -100 else rest
  else rest

/-- The antenna switch of the module is turned by the chip itself. -/
def setDio2 (dio2RfSwitch : Bool) : Drive σ Int :=
  if dio2RfSwitch then sxWriteCmd B opSetDio2RfSwitch [0x01] else pure 0

/-- The rest of `init_sequence`. -/
def setUpChip (cfg : Sx126xCfg) : Drive σ Int :=
  sxTry (setDio2 B cfg.dio2RfSwitch) <|
  sxTry (sxWriteCmd B opSetPacketType [0x01]) do
    let freq ← setRfFrequency B cfg.freqMhz
    if freq ≠ 0 then return -3
    else
      sxTry (sxWriteCmd B opSetPaConfig [0x04, 0x07, 0x00, 0x01]) <|
      sxTry (sxWriteRegister B regOcp [cfg.ocpReg]) <|
      sxTry (sxWriteCmd B opSetTxParams (txParams cfg.powerDbm)) do
        let modem ← setModemParams B cfg
        if modem ≠ 0 then return -4
        else
          sxTry (sxWriteRegister B regLoraSyncMsb [(cfg.syncWord >>> 8).toUInt8]) <|
          sxTry (sxWriteRegister B regLoraSyncLsb [cfg.syncWord.toUInt8]) <|
          sxTry (sxWriteCmd B opSetBufBase [0x00, 0x00]) (pure 0)

/-- `init_sequence`. -/
def initSequence : Drive σ Int := do
  let cfg ← load
  resetChip B <| startTcxo B cfg.tcxoVoltage <| setUpChip B cfg

/-- `sx126x_init`: a module without the TCXO it was configured for runs on its crystal. -/
def sx126xInit (cfg : Sx126xCfg) : Drive σ Int := do
  store cfg
  let rc ← initSequence B
  if rc = -100 ∧ (CDouble.fin 0).lt cfg.tcxoVoltage then
    store { cfg with tcxoVoltage := .fin 0 }
    initSequence B
  else return rc

/-- `sx126x_start_rx`. -/
def sx126xStartRx : Drive σ Int := do
  let _ ← sxSetStandby B stdbyRc
  let _ ← sxClearIrq B irqAll
  let _ ← sxSetDioIrq B (irqRxDone ||| irqCrcErr ||| irqHeaderErr)
    (irqRxDone ||| irqCrcErr ||| irqHeaderErr) 0 0
  halRfSwitch B .rx
  sxWriteCmd B opSetRx [0xFF, 0xFF, 0xFF]

/-- `sx126x_reinit`. -/
def sx126xReinit : Drive σ Int := do
  let cur ← load
  let rc ← sx126xInit B cur
  if rc = 0 then sx126xStartRx B else return rc

/-! ## Changing settings at run time -/

/-- `sx126x_set_frequency`. -/
def sx126xSetFrequency (freqMhz : CDouble) : Drive σ Int := do
  let cfg ← load
  store { cfg with freqMhz := freqMhz }
  let _ ← sxSetStandby B stdbyRc
  let rc ← setRfFrequency B freqMhz
  if rc ≠ 0 then return rc else sx126xStartRx B

/-- The settings `sx126x_set_modem` takes over; the wiring stays. -/
def mergeModem (g cfg : Sx126xCfg) : Sx126xCfg :=
  { g with
    freqMhz := cfg.freqMhz
    bwKhz := cfg.bwKhz
    sf := cfg.sf
    cr := cfg.cr
    preamble := cfg.preamble
    crcOn := cfg.crcOn
    iqInverted := cfg.iqInverted
    ldro := cfg.ldro
    powerDbm := cfg.powerDbm }

/-- `sx126x_set_modem`. -/
def sx126xSetModem (cfg : Sx126xCfg) : Drive σ Int := do
  let g ← load
  let merged := mergeModem g cfg
  store merged
  let _ ← sxSetStandby B stdbyRc
  let _ ← sxWriteCmd B opSetTxParams (txParams merged.powerDbm)
  let rc ← setModemParams B merged
  if rc ≠ 0 then return rc else sx126xStartRx B

/-- `sx126x_set_tx_power`: an unchanged power does not disturb the reception. -/
def sx126xSetTxPower (dbm : Int) : Drive σ Unit := do
  let cfg ← load
  let dbm := if dbm < -9 then -9 else dbm
  let dbm := if dbm > 22 then 22 else dbm
  if dbm = cfg.powerDbm then return ()
  else
    store { cfg with powerDbm := dbm }
    let _ ← sxSetStandby B stdbyRc
    let _ ← sxWriteCmd B opSetTxParams (txParams dbm)
    return ()

/-- `sx126x_standby`. -/
def sx126xStandby : Drive σ Unit := do
  let _ ← sxSetStandby B stdbyRc
  halRfSwitch B .off

/-! ## Receiving -/

/-- What `sx126x_poll_rx` returns and fills in. -/
structure RxPoll where
  ret : Int
  frame : Bytes
  rssiDbm : Int
  snrQ : Int
deriving DecidableEq, Repr

def RxPoll.failed (ret : Int) : RxPoll := ⟨ret, [], 0, 0⟩

/-- The signal in the answer to GetPacketStatus; a failed read leaves zeros. -/
def packetSignal (ps : Option Bytes) : Int × Int :=
  let ps := ps.getD []
  (-(((ps.getD 0 0).toNat / 2 : Nat) : Int), (ps.getD 1 0).toInt8.toInt)

/-- `sx126x_poll_rx`; `bufsz` is the size of the caller's buffer. -/
def sx126xPollRx (bufsz : Nat) : Drive σ RxPoll := do
  let d ← halDio1Read B
  if d ≤ 0 then return .failed d
  else
    let irq ← sxGetIrq B
    match irq with
    | none => return .failed (-1)
    | some irq =>
      if irq &&& irqRxDone ≠ 0 then
        if irq &&& irqCrcErr ≠ 0 then
          let ps ← sxReadCmd B opGetPacketStatus 3
          let _ ← sxClearIrq B irqAll
          return ⟨2, [], (packetSignal ps).1, (packetSignal ps).2⟩
        else
          let st ← sxReadCmd B opGetRxBufStatus 2
          match st with
          | none =>
            let _ ← sxClearIrq B irqAll
            return .failed (-2)
          | some st =>
            let payloadLen := st.getD 0 0
            let len := if bufsz < payloadLen.toNat then (UInt8.ofNat bufsz).toNat else payloadLen.toNat
            let data ← sxReadBuffer B (st.getD 1 0) len
            match data with
            | none =>
              let _ ← sxClearIrq B irqAll
              return .failed (-3)
            | some data =>
              let ps ← sxReadCmd B opGetPacketStatus 3
              let _ ← sxClearIrq B irqAll
              return ⟨1, data, (packetSignal ps).1, (packetSignal ps).2⟩
      else
        let _ ← sxClearIrq B irqAll
        return .failed (if irq &&& irqHeaderErr ≠ 0 then 3 else 0)

/-! ## Transmitting -/

/-- The interrupt bits, read while DIO1 is up. -/
def irqIfUp (d : Int) : Drive σ (Option UInt16) := if d = 1 then sxGetIrq B else pure none

/-- The wait for TxDone, at most `fuel` times round. -/
def waitTxDone (start timeoutMs : Nat) : Nat → Drive σ (Option Int)
  | 0 => return none
  | fuel + 1 => do
    let d ← halDio1Read B
    let read ← irqIfUp B d
    let irq := read.getD 0
    if irq &&& irqTxDone ≠ 0 then return some 0
    else if irq &&& irqTimeout ≠ 0 then return some (-1)
    else
      let now ← halMillis B
      if timeoutMs < now - start then return some (-1)
      else
        halDelayUs B 500
        waitTxDone start timeoutMs fuel

/-- `sx126x_transmit`. Every turn of its loop takes half a millisecond, so it ends before the
fuel does (`waitTxDone_spec`). -/
def sx126xTransmit (buf : Bytes) (timeoutMs : Nat) : Drive σ (Option Int) := do
  if buf.length = 0 ∨ 255 < buf.length then return some (-10)
  else
    let _ ← sxSetStandby B stdbyRc
    let _ ← sxClearIrq B irqAll
    let _ ← setPacketParamsLen B (UInt8.ofNat buf.length)
    let _ ← sxWriteCmd B opSetBufBase [0x00, 0x00]
    let written ← sxWriteBuffer B 0x00 buf
    if written ≠ 0 then return some (-11)
    else
      let _ ← sxSetDioIrq B (irqTxDone ||| irqTimeout) (irqTxDone ||| irqTimeout) 0 0
      halRfSwitch B .tx
      let started ← sxWriteCmd B opSetTx [0x00, 0x00, 0x00]
      if started ≠ 0 then
        halRfSwitch B .off
        let _ ← sx126xStartRx B
        return some (-12)
      else
        let start ← halMillis B
        let result ← waitTxDone B start timeoutMs (2 * timeoutMs + 3)
        match result with
        | none => return none
        | some rc =>
          let _ ← sxClearIrq B irqAll
          halRfSwitch B .off
          let _ ← sx126xStartRx B
          return some rc

/-! ## Listening before talking -/

/-- The detection peak for a spreading factor. -/
def detPeak (sf : UInt8) : UInt8 :=
  if 7 ≤ sf ∧ sf ≤ 12 then [22, 22, 23, 24, 25, 28].getD (sf - 7).toNat 0 else 24

/-- The wait for CadDone; a read that fails leaves the bits read before. -/
def waitCadDone (start : Nat) : UInt16 → Nat → Drive σ (Option UInt16)
  | _, 0 => return none
  | irq, fuel + 1 => do
    let d ← halDio1Read B
    let read ← irqIfUp B d
    let irq := read.getD irq
    if d = 1 ∧ irq &&& irqCadDone ≠ 0 then return some irq
    else
      let now ← halMillis B
      if 100 < now - start then return some 0
      else
        halDelayUs B 500
        waitCadDone start irq fuel

/-- `sx126x_channel_busy`. -/
def sx126xChannelBusy : Drive σ (Option Int) := do
  let cfg ← load
  if !cfg.useCad then return some 0
  else
    let _ ← sxSetStandby B stdbyRc
    let _ ← sxClearIrq B irqAll
    let _ ← sxSetDioIrq B (irqCadDone ||| irqCadDetected) (irqCadDone ||| irqCadDetected) 0 0
    let _ ← sxWriteCmd B opSetCadParams [0x02, detPeak cfg.sf, 0x0A, 0x00, 0x00, 0x00, 0x00]
    halRfSwitch B .rx
    let _ ← sxWriteCmd B opSetCad []
    let start ← halMillis B
    let irq ← waitCadDone B start 0 203
    match irq with
    | none => return none
    | some irq =>
      let _ ← sxClearIrq B irqAll
      halRfSwitch B .off
      return some (if irq &&& irqCadDetected ≠ 0 then 1 else 0)

/-! ## From the configuration -/

/-- `apply_radio` of the command line. -/
def applyRadio (radio : Sx126xCfg) : Drive σ Int := do
  let rc ← sx126xSetModem B radio
  if rc ≠ 0 then return rc else sx126xSetFrequency B radio.freqMhz

end

end Meshcore.Sx126x
