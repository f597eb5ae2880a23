import Vcil.Lib.Clocked
import Vcil.Rtl.Sbox

/-!
# The coprocessor `nice_core`

`nice_core.v` is one clocked process over 21 registers.  `Core` is the register file, `Pins` the
inputs sampled at a rising clock edge, and `Core.step` the next register values.

The process is a list of nonblocking assignments: all right hand sides read the old registers,
and of two assignments to one register the later wins.  Each part below therefore takes the old
registers `s` and the assignments made so far, `n`, and overwrites some of them.
-/

namespace Vcil.Rtl

/-- The state register.  The encodings above `TX_ONE` are never assigned. -/
inductive State
  | idle
  | recvInst
  | sm3Step1
  | sm3Step2
  | sm3Step3
  | sm4Step1
  | sm4Step2
  | sm4Step3
  | txData
  | txOne
  deriving DecidableEq, Repr

/-- The `localparam` encoding of the states. -/
def State.code : State → BitVec 4
  | .idle => 0
  | .recvInst => 1
  | .sm3Step1 => 2
  | .sm3Step2 => 3
  | .sm3Step3 => 4
  | .sm4Step1 => 5
  | .sm4Step2 => 6
  | .sm4Step3 => 7
  | .txData => 8
  | .txOne => 9

/-- The inputs of `nice_core`. -/
structure Pins where
  iDataRx : Byte
  iDataValid : Bool
  iState0 : Bool
  deriving DecidableEq, Repr

/-- The registers of `nice_core`, its two outputs first. -/
structure Core where
  oDataTx : Byte
  oDataValid : Bool
  state : State
  niceReqInst : BitVec 80
  opSsm3P0 : Bool
  opSsm3P1 : Bool
  sm3Rs1 : Word
  sm3Temp1 : Word
  sm3Temp2 : Word
  opSsm4Ks : Bool
  opSsm4Ed : Bool
  sm4Rs1 : Word
  sm4Rs2 : Word
  sm4SboxOut : Word
  sm4LinearTemp : Word
  sboxSel : BitVec 3
  calcDone : Bool
  stateCount : Bool
  calcResult : Word
  rxByteCnt : BitVec 4
  txByteCnt : BitVec 3
  cycleCounter : Byte
  deriving DecidableEq, Repr

namespace Core

/-- The registers while `nice_rst_n` is low. -/
def reset : Core where
  oDataTx := 0
  oDataValid := false
  state := .idle
  niceReqInst := 0
  opSsm3P0 := false
  opSsm3P1 := false
  sm3Rs1 := 0
  sm3Temp1 := 0
  sm3Temp2 := 0
  opSsm4Ks := false
  opSsm4Ed := false
  sm4Rs1 := 0
  sm4Rs2 := 0
  sm4SboxOut := 0
  sm4LinearTemp := 0
  sboxSel := 0
  calcDone := false
  stateCount := false
  calcResult := 0
  rxByteCnt := 0
  txByteCnt := 0
  cycleCounter := 0

/-! ### Wires -/

section Wires

variable (s : Core)

/-- The operation that is asked for. -/
def opcode : BitVec 16 := s.niceReqInst.extractLsb' 64 16
/-- The first operand. -/
def rs1 : Word := s.niceReqInst.extractLsb' 32 32
/-- The second operand. -/
def rs2 : Word := s.niceReqInst.extractLsb' 0 32

/-- The opcode of `P0`. -/
def custom3Sm3p0 : Bool := s.opcode == 0x7b71
/-- The opcode of `P1`. -/
def custom3Sm3p1 : Bool := s.opcode == 0x7b72
/-- The opcode of a round of the SM4 key extension. -/
def custom3Sm4ks : Bool := s.opcode == 0x7b73
/-- The opcode of a round of SM4. -/
def custom3Sm4ed : Bool := s.opcode == 0x7b74

/-- The byte of `sm4_rs2` that `sbox_sel` selects. -/
def sboxIn : Byte :=
  if s.sboxSel = 0 then s.sm4Rs2.extractLsb' 0 8
  else if s.sboxSel = 1 then s.sm4Rs2.extractLsb' 8 8
  else if s.sboxSel = 2 then s.sm4Rs2.extractLsb' 16 8
  else if s.sboxSel = 3 then s.sm4Rs2.extractLsb' 24 8
  else 0

/-- `sbox_out`, from the module `Sbox`. -/
def sboxOut : Byte := sbox s.sboxIn

/-- The value `SM4_STEP2` loads into `sm4_linear_temp`. -/
def sm4Linear : Word :=
  let b := s.sm4SboxOut
  if s.opSsm4Ks then
    b ^^^ (b.extractLsb' 0 19 ++ b.extractLsb' 19 13)
      ^^^ (b.extractLsb' 0 9 ++ b.extractLsb' 9 23)
  else if s.opSsm4Ed then
    b ^^^ (b.extractLsb' 0 30 ++ b.extractLsb' 30 2)
      ^^^ (b.extractLsb' 0 22 ++ b.extractLsb' 22 10)
      ^^^ (b.extractLsb' 0 14 ++ b.extractLsb' 14 18)
      ^^^ (b.extractLsb' 0 8 ++ b.extractLsb' 8 24)
  else 0

end Wires

/-! ### The clocked process -/

/-- The cycle counter runs in the six `STEP` states until the result is there. -/
def Counting (s : Core) : Prop := 1 < s.state.code ∧ s.state.code < 8 ∧ s.calcDone = false

/-- A poll `0xff` arrives outside `IDLE`, `TX_DATA` and `TX_ONE`, with the transmitter free. -/
def Polled (i : Pins) (s : Core) : Prop :=
  i.iDataValid = true ∧ i.iDataRx = 0xff ∧ s.state ≠ .idle ∧ s.state ≠ .txData ∧
    s.state ≠ .txOne ∧ i.iState0 = false ∧ s.stateCount = false

/-- The read command `0x00` arrives and the result is there. -/
def ReadOut (i : Pins) (s : Core) : Prop :=
  i.iDataValid = true ∧ i.iDataRx = 0x00 ∧ (s.state = .sm3Step3 ∨ s.state = .sm4Step3) ∧
    s.calcDone = true

instance (s : Core) : Decidable s.Counting := inferInstanceAs (Decidable (_ ∧ _))
instance (i : Pins) (s : Core) : Decidable (Polled i s) := inferInstanceAs (Decidable (_ ∧ _))
instance (i : Pins) (s : Core) : Decidable (ReadOut i s) := inferInstanceAs (Decidable (_ ∧ _))

/-- The cycles of a computation are counted. -/
def count (s n : Core) : Core :=
  if s.Counting then { n with cycleCounter := s.cycleCounter + 1 } else n

/-- A poll is answered with `calc_done`; without one, the handshake with the transmitter is
released once it has taken the byte. -/
def poll (i : Pins) (s n : Core) : Core :=
  if Polled i s then
    { n with
      oDataTx := if s.calcDone then 1 else 0
      oDataValid := true
      stateCount := true }
  else if i.iState0 = true then
    { n with oDataValid := false, stateCount := false }
  else n

/-- The read command sends the reply. -/
def readCommand (i : Pins) (s n : Core) : Core :=
  if ReadOut i s then { n with state := .txData } else n

/-- `IDLE`: collect the twelve request bytes, of which `b2` and `b3` are dropped. -/
def caseIdle (i : Pins) (s n : Core) : Core :=
  if i.iDataValid = true ∧ s.rxByteCnt < 12 then
    let n :=
      if s.rxByteCnt ≠ 2 ∧ s.rxByteCnt ≠ 3 then
        { n with niceReqInst := s.niceReqInst.extractLsb' 0 72 ++ i.iDataRx }
      else n
    let n :=
      if (s.rxByteCnt.toNat + 1) % 4 = 0 then { n with state := .txOne }
      else { n with state := .idle }
    { n with rxByteCnt := s.rxByteCnt + 1 }
  else if s.rxByteCnt = 12 then { n with state := .recvInst }
  else { n with state := .idle }

/-- `RECV_INST`: decode.  An unknown opcode stays here for one more clock. -/
def caseRecvInst (s n : Core) : Core :=
  if s.rxByteCnt = 12 then
    let n :=
      if s.custom3Sm3p0 || s.custom3Sm3p1 then
        { n with
          sm3Rs1 := s.rs1
          opSsm3P0 := s.custom3Sm3p0
          opSsm3P1 := s.custom3Sm3p1
          state := .sm3Step1 }
      else if s.custom3Sm4ks || s.custom3Sm4ed then
        { n with
          sm4Rs1 := s.rs1
          sm4Rs2 := s.rs2
          opSsm4Ks := s.custom3Sm4ks
          opSsm4Ed := s.custom3Sm4ed
          state := .sm4Step1 }
      else n
    { n with rxByteCnt := 0 }
  else { n with state := .idle }

/-- `SM3_STEP1`: the first rotation. -/
def caseSm3Step1 (s n : Core) : Core :=
  { n with
    sm3Temp1 :=
      if s.opSsm3P0 then (s.sm3Rs1 <<< 9) ||| (s.sm3Rs1 >>> (32 - 9))
      else if s.opSsm3P1 then (s.sm3Rs1 <<< 15) ||| (s.sm3Rs1 >>> (32 - 15))
      else 0
    state := .sm3Step2 }

/-- `SM3_STEP2`: the second rotation. -/
def caseSm3Step2 (s n : Core) : Core :=
  { n with
    sm3Temp2 :=
      if s.opSsm3P0 then (s.sm3Rs1 <<< 17) ||| (s.sm3Rs1 >>> (32 - 17))
      else if s.opSsm3P1 then (s.sm3Rs1 <<< 23) ||| (s.sm3Rs1 >>> (32 - 23))
      else 0
    state := .sm3Step3 }

/-- `SM3_STEP3`: the result. -/
def caseSm3Step3 (s n : Core) : Core :=
  { n with calcResult := s.sm3Rs1 ^^^ s.sm3Temp1 ^^^ s.sm3Temp2, calcDone := true }

/-- `SM4_STEP1`: the S-box serves one byte per clock. -/
def caseSm4Step1 (s n : Core) : Core :=
  if s.sboxSel = 4 then { n with sboxSel := 0, state := .sm4Step2 }
  else
    { n with
      sm4SboxOut := s.sboxOut ++ s.sm4SboxOut.extractLsb' 8 24
      sboxSel := s.sboxSel + 1 }

/-- `SM4_STEP2`: the linear part. -/
def caseSm4Step2 (s n : Core) : Core :=
  { n with sm4LinearTemp := s.sm4Linear, state := .sm4Step3 }

/-- `SM4_STEP3`: the result. -/
def caseSm4Step3 (s n : Core) : Core :=
  { n with calcResult := s.sm4LinearTemp ^^^ s.sm4Rs1, calcDone := true }

/-- The reply byte that `tx_byte_cnt` selects; `o_data_tx` keeps its value past the fifth. -/
def txByte (s n : Core) : Byte :=
  if s.txByteCnt = 0 then s.calcResult.extractLsb' 24 8
  else if s.txByteCnt = 1 then s.calcResult.extractLsb' 16 8
  else if s.txByteCnt = 2 then s.calcResult.extractLsb' 8 8
  else if s.txByteCnt = 3 then s.calcResult.extractLsb' 0 8
  else if s.txByteCnt = 4 then s.cycleCounter
  else n.oDataTx

/-- `TX_DATA`: hand the five reply bytes to the transmitter. -/
def caseTxData (i : Pins) (s n : Core) : Core :=
  let n := { n with calcDone := false }
  if i.iState0 = false ∧ s.stateCount = false then
    if s.txByteCnt = 5 then
      { n with oDataValid := false, txByteCnt := 0, cycleCounter := 0, state := .idle }
    else
      { n with
        oDataTx := s.txByte n
        oDataValid := true
        stateCount := true
        txByteCnt := s.txByteCnt + 1
        state := .txData }
  else if i.iState0 = true then { n with oDataValid := false, stateCount := false }
  else n

/-- `TX_ONE`: acknowledge a group of four request bytes. -/
def caseTxOne (i : Pins) (s n : Core) : Core :=
  if i.iState0 = false ∧ s.stateCount = false then
    { n with oDataTx := 1, oDataValid := true, stateCount := true }
  else if i.iState0 = true then
    { n with oDataValid := false, stateCount := false, state := .idle }
  else n

/-- The `case (state)` statement. -/
def caseState (i : Pins) (s n : Core) : Core :=
  match s.state with
  | .idle => caseIdle i s n
  | .recvInst => caseRecvInst s n
  | .sm3Step1 => caseSm3Step1 s n
  | .sm3Step2 => caseSm3Step2 s n
  | .sm3Step3 => caseSm3Step3 s n
  | .sm4Step1 => caseSm4Step1 s n
  | .sm4Step2 => caseSm4Step2 s n
  | .sm4Step3 => caseSm4Step3 s n
  | .txData => caseTxData i s n
  | .txOne => caseTxOne i s n

/-- One rising clock edge. -/
def step (s : Core) (i : Pins) : Core :=
  caseState i s (readCommand i s (poll i s (count s s)))

/-- The registers after the inputs `is`, from reset. -/
def after (is : List Pins) : Core := Clocked.run step reset is

end Core

end Vcil.Rtl
