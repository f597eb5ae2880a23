import Vcil.Lib.Clocked

/-!
# The serial receiver `uart_rx`

The receiver is five clocked processes over one set of registers.

* `UartParams`: the module parameters; the bit period `cycle` is `CLK_FRE * 1000000 / BAUD_RATE`;
* `UartRx`: the registers, with their values under reset;
* `UartRx.nextBaudCnt`, `nextBaudPulse`, `nextState`, `output`: one definition for each process
  beside the synchroniser, as functions of the registers before the edge;
* `UartRx.step`: one rising edge of `i_clk_sys`;
* `UartRx.pulses`: the values of `o_uart_data` in the clocks in which `o_rx_done` is high.
-/

namespace Vcil.Rtl

/-- The parameters of `uart_rx`, as far as the logic uses them. -/
structure UartParams where
  cycle : ℕ
  dataWidth : ℕ
  parityOn : ℕ
  parityType : ℕ

/-- The states of the receiver. -/
inductive RxState
  | stateIdle
  | stateStart
  | stateData
  | stateParity
  | stateEnd
  deriving DecidableEq, Repr

/-- The registers of `uart_rx`. -/
structure UartRx (p : UartParams) where
  syncUartRx : Bool
  rFlagRcvStart : BitVec 5
  rCurrentState : RxState
  baudValid : Bool
  baudCnt : BitVec 16
  baudPulse : Bool
  rRcvCnt : BitVec 4
  rDataRcv : BitVec p.dataWidth
  rParityCheck : BitVec 1
  oUartData : BitVec p.dataWidth
  oLdParity : Bool
  oRxDone : Bool
  deriving DecidableEq, Repr

namespace UartRx

variable {p : UartParams}

/-- The registers under `i_rst_n = 0`. -/
def reset : UartRx p where
  syncUartRx := true
  rFlagRcvStart := 0b11111
  rCurrentState := .stateIdle
  baudValid := false
  baudCnt := 0
  baudPulse := false
  rRcvCnt := 0
  rDataRcv := 0
  rParityCheck := 0
  oUartData := 0
  oLdParity := false
  oRxDone := false

variable (s : UartRx p)

/-- The baud counter, which runs from 0 to `CYCLE - 1` while `baud_valid` is high. -/
def nextBaudCnt : BitVec 16 :=
  if !s.baudValid then 0
  else if s.baudCnt.toNat + 1 = p.cycle then 0
  else s.baudCnt + 1

/-- The sampling pulse, one clock after the counter shows `CYCLE / 2 - 1`. -/
def nextBaudPulse : Bool := s.baudCnt.toNat + 1 = p.cycle / 2

/-- The combinational `r_next_state`. -/
def rNextState : RxState :=
  match s.rCurrentState with
  | .stateIdle => .stateStart
  | .stateStart => .stateData
  | .stateData =>
      if s.rRcvCnt.toNat = p.dataWidth then
        if p.parityOn = 0 then .stateEnd else .stateParity
      else .stateData
  | .stateParity => .stateEnd
  | .stateEnd => .stateIdle

/-- The state register, which moves when the counter shows 0. -/
def nextState : RxState :=
  if !s.baudValid then .stateIdle
  else if s.baudCnt = 0 then s.rNextState
  else s.rCurrentState

/-- `{sync_uart_rx, r_data_rcv[DATA_WIDTH-1 : 1]}`. -/
def shiftedData : BitVec p.dataWidth :=
  (BitVec.cons s.syncUartRx s.rDataRcv).extractLsb' 1 p.dataWidth

/-- The output process: what it assigns in each state, all other registers unchanged. -/
def output : UartRx p :=
  match s.rCurrentState with
  | .stateIdle =>
      { s with
        rRcvCnt := 0
        rDataRcv := 0
        rParityCheck := 0
        oRxDone := false
        baudValid := if s.rFlagRcvStart = 0 then true else s.baudValid }
  | .stateStart =>
      { s with baudValid := if s.baudPulse && s.syncUartRx then false else s.baudValid }
  | .stateData =>
      if s.baudPulse then
        { s with
          rDataRcv := s.shiftedData
          rRcvCnt := s.rRcvCnt + 1
          rParityCheck := s.rParityCheck + BitVec.ofBool s.syncUartRx }
      else s
  | .stateParity =>
      if s.baudPulse then
        -- the comparison with the 32-bit parameter is made in 32 bits, so the sum does not wrap
        { s with oLdParity := s.rParityCheck.toNat + s.syncUartRx.toNat = p.parityType }
      else s
  | .stateEnd =>
      let s' : UartRx p :=
        if s.baudPulse then
          if p.parityOn = 0 ∨ s.oLdParity then
            { s with oUartData := s.rDataRcv, oRxDone := true }
          else s
        else { s with oRxDone := false }
      { s' with baudValid := if s.baudCnt = 0 then false else s.baudValid }

/-- One rising clock edge with `i_uart_rx` at level `i`. -/
def step (i : Bool) : UartRx p :=
  { s.output with
    syncUartRx := i
    rFlagRcvStart := s.rFlagRcvStart.extractLsb' 0 4 ++ BitVec.ofBool s.syncUartRx
    baudCnt := s.nextBaudCnt
    baudPulse := s.nextBaudPulse
    rCurrentState := s.nextState }

/-- What a reader of the outputs takes in this clock: the data while `o_rx_done` is high. -/
def done? : Option (BitVec p.dataWidth) := if s.oRxDone then some s.oUartData else none

/-- The bytes shown to the reader in the clocks after each level of `line`, one entry a clock. -/
def pulses (line : List Bool) : List (BitVec p.dataWidth) := Clocked.emits step done? s line

end UartRx

end Vcil.Rtl
