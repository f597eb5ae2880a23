import Vcil.Rtl.UartRx

/-!
# The serial transmitter `uart_tx`

The transmitter has the same parameters as the receiver and the same five processes, of which the
baud counter, its pulse and the state register are the receiver's to the letter.

* `TxPins`: the inputs sampled at a clock edge;
* `UartTx`: the registers, with their values under reset;
* `UartTx.nextBaudCnt`, `nextBaudPulse`, `nextState`, `output`: one definition for each process;
* `UartTx.step`: one rising edge of `i_clk_sys`.
-/

namespace Vcil.Rtl

/-- The states of the transmitter. -/
inductive TxState
  | stateIdle
  | stateStart
  | stateData
  | stateParity
  | stateEnd
  deriving DecidableEq, Repr

/-- The inputs of `uart_tx`. -/
structure TxPins (w : ℕ) where
  iDataTx : BitVec w
  iDataValid : Bool
  deriving DecidableEq, Repr

/-- The registers of `uart_tx`. -/
structure UartTx (p : UartParams) where
  rCurrentState : TxState
  baudValid : Bool
  baudCnt : BitVec 16
  baudPulse : Bool
  rTxCnt : BitVec 4
  rDataTx : BitVec p.dataWidth
  rParityCheck : BitVec 1
  oUartTx : Bool
  oState0 : Bool
  deriving DecidableEq, Repr

namespace UartTx

variable {p : UartParams}

/-- The registers under `i_rst_n = 0`. -/
def reset : UartTx p where
  rCurrentState := .stateIdle
  baudValid := false
  baudCnt := 0
  baudPulse := false
  rTxCnt := 0
  rDataTx := 0
  rParityCheck := 0
  oUartTx := true
  oState0 := false

variable (s : UartTx p)

/-- The baud counter, which runs from 0 to `CYCLE - 1` while `baud_valid` is high. -/
def nextBaudCnt : BitVec 16 :=
  if !s.baudValid then 0
  else if s.baudCnt.toNat + 1 = p.cycle then 0
  else s.baudCnt + 1

/-- The pulse, one clock after the counter shows `CYCLE / 2 - 1`. -/
def nextBaudPulse : Bool := s.baudCnt.toNat + 1 = p.cycle / 2

/-- The combinational `r_next_state`. -/
def rNextState : TxState :=
  match s.rCurrentState with
  | .stateIdle => .stateStart
  | .stateStart => .stateData
  | .stateData =>
      if s.rTxCnt.toNat = p.dataWidth then
        if p.parityOn = 0 then .stateEnd else .stateParity
      else .stateData
  | .stateParity => .stateEnd
  | .stateEnd => .stateIdle

/-- The state register, which moves when the counter shows 0. -/
def nextState : TxState :=
  if !s.baudValid then .stateIdle
  else if s.baudCnt = 0 then s.rNextState
  else s.rCurrentState

/-- The output process: what it assigns in each state, all other registers unchanged. -/
def output (i : TxPins p.dataWidth) : UartTx p :=
  match s.rCurrentState with
  | .stateIdle =>
      let s' := { s with oUartTx := true, rTxCnt := 0, rParityCheck := 0, oState0 := false }
      if i.iDataValid then
        { s' with baudValid := true, rDataTx := i.iDataTx, oState0 := true }
      else s'
  | .stateStart => if s.baudPulse then { s with oUartTx := false } else s
  | .stateData =>
      if s.baudPulse then
        { s with
          rTxCnt := s.rTxCnt + 1
          oUartTx := s.rDataTx.getLsbD 0
          rParityCheck := s.rParityCheck + BitVec.ofBool (s.rDataTx.getLsbD 0)
          rDataTx := s.rDataTx >>> 1 }
      else s
  | .stateParity =>
      if s.baudPulse then
        if p.parityType = 1 then { s with oUartTx := s.rParityCheck.getLsbD 0 }
        -- the sum is assigned to one bit, so it wraps
        else { s with oUartTx := (s.rParityCheck + 1).getLsbD 0 }
      else s
  | .stateEnd => if s.baudPulse then { s with oUartTx := true, baudValid := false } else s

/-- One rising clock edge with the inputs `i`. -/
def step (i : TxPins p.dataWidth) : UartTx p :=
  { s.output i with
    baudCnt := s.nextBaudCnt
    baudPulse := s.nextBaudPulse
    rCurrentState := s.nextState }

end UartTx

end Vcil.Rtl
