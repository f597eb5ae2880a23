import Vcil.Iss.State

/-!
# Traps and interrupts

* `returnFromTrapHandler`: the three return instructions;
* `prepareTrap`, `computePendingInterrupts`, `prepareInterrupt`: where an exception or an interrupt
  goes, and its cause register;
* `switchToTrapHandler`: the entry into a handler.
-/

namespace Vcil.Iss

namespace Mip

/-- A software interrupt for user mode. -/
abbrev usip : BitField := ⟨0, 1⟩
/-- A software interrupt for supervisor mode. -/
abbrev ssip : BitField := ⟨1, 1⟩
/-- A software interrupt for machine mode. -/
abbrev msip : BitField := ⟨3, 1⟩
/-- A timer interrupt for user mode. -/
abbrev utip : BitField := ⟨4, 1⟩
/-- A timer interrupt for supervisor mode. -/
abbrev stip : BitField := ⟨5, 1⟩
/-- A timer interrupt for machine mode. -/
abbrev mtip : BitField := ⟨7, 1⟩
/-- An external interrupt for user mode. -/
abbrev ueip : BitField := ⟨8, 1⟩
/-- An external interrupt for supervisor mode. -/
abbrev seip : BitField := ⟨9, 1⟩
/-- An external interrupt for machine mode. -/
abbrev meip : BitField := ⟨11, 1⟩

end Mip

/-- `EXC_U_SOFTWARE_INTERRUPT`. -/
def excUSoftwareInterrupt : ExceptionCode := 0
/-- `EXC_S_SOFTWARE_INTERRUPT`. -/
def excSSoftwareInterrupt : ExceptionCode := 1
/-- `EXC_M_SOFTWARE_INTERRUPT`. -/
def excMSoftwareInterrupt : ExceptionCode := 3
/-- `EXC_U_TIMER_INTERRUPT`. -/
def excUTimerInterrupt : ExceptionCode := 4
/-- `EXC_S_TIMER_INTERRUPT`. -/
def excSTimerInterrupt : ExceptionCode := 5
/-- `EXC_M_TIMER_INTERRUPT`. -/
def excMTimerInterrupt : ExceptionCode := 7
/-- `EXC_U_EXTERNAL_INTERRUPT`. -/
def excUExternalInterrupt : ExceptionCode := 8
/-- `EXC_S_EXTERNAL_INTERRUPT`. -/
def excSExternalInterrupt : ExceptionCode := 9
/-- `EXC_M_EXTERNAL_INTERRUPT`. -/
def excMExternalInterrupt : ExceptionCode := 11

section

variable {W : Type}

/-- The default branch of the switches over a privilege level. -/
def unknownPrivilegeLevel (mode : PrivilegeLevel) : M W Unit :=
  throw (.runtimeError ("unknown privilege level " ++ toString mode.toNat))

/-! ### Return -/

/-- The cases `MachineMode`, `SupervisorMode` and `UserMode` of `return_from_trap_handler`. -/
def returnToMpp : M W Unit := do
  let h ← get
  setPrv (Mstatus.mpp.get h.csrs.mstatus)
  setMstatus Mstatus.mie (Mstatus.mpie.get h.csrs.mstatus)
  setMstatus Mstatus.mpie 1#1
  setPc h.csrs.mepc
  setMstatus Mstatus.mpp (if hasExt h.csrs.misa .u then userMode else machineMode)

/-- The return from a handler of supervisor mode, to the level in `SPP`. -/
def returnToSpp : M W Unit := do
  let h ← get
  setPrv ((Mstatus.spp.get h.csrs.mstatus).setWidth 2)
  setMstatus Mstatus.sie (Mstatus.spie.get h.csrs.mstatus)
  setMstatus Mstatus.spie 1#1
  setPc h.csrs.sepc
  setMstatus Mstatus.spp
    ((if hasExt h.csrs.misa .u then userMode else supervisorMode).setWidth Mstatus.spp.len)

/-- The return from a handler of user mode, which has come from user mode. -/
def returnToUser : M W Unit := do
  let h ← get
  setPrv userMode
  setMstatus Mstatus.uie (Mstatus.upie.get h.csrs.mstatus)
  setMstatus Mstatus.upie 1#1
  setPc h.csrs.uepc

/-- `return_from_trap_handler(return_mode)`. -/
def returnFromTrapHandler (returnMode : PrivilegeLevel) : M W Unit :=
  if returnMode = machineMode then returnToMpp
  else if returnMode = supervisorMode then returnToSpp
  else if returnMode = userMode then returnToUser
  else unknownPrivilegeLevel returnMode

/-! ### Exceptions -/

/-- `boost::lexical_cast<uint32_t>`. -/
def lexicalCast (x : BitVec 64) : M W Word :=
  if x.toNat < 2 ^ 32 then pure (x.setWidth 32) else throw .badLexicalCast

/-- A cause register with the two fields set. -/
def causeOf (interrupt : BitVec 1) (exc : ExceptionCode) (cause : Word) : Word :=
  Cause.exceptionCode.put (exc.setWidth 31) (Cause.interrupt.put interrupt cause)

/-- `prepare_trap(e)`: the exception is recorded in the mode that the delegation registers send it
to, which is returned. -/
def prepareTrap (e : SimulationTrap) : M W PrivilegeLevel := do
  modify fun h => { h with pc := h.lastPc }
  let h ← get
  let excBit : Word := 1 <<< e.reason.toNat
  if h.prv = machineMode ∨ excBit &&& h.csrs.medeleg = 0 then do
    setCsrs fun c => { c with mcause := causeOf 0 e.reason c.mcause }
    let mtval ← lexicalCast e.mtval
    setCsrs fun c => { c with mtval := mtval }
    return machineMode
  else if h.prv = supervisorMode ∨ excBit &&& h.csrs.sedeleg = 0 then do
    setCsrs fun c => { c with scause := causeOf 0 e.reason c.scause }
    let stval ← lexicalCast e.mtval
    setCsrs fun c => { c with stval := stval }
    return supervisorMode
  else do
    assert fun h => h.prv = userMode && excBit &&& h.csrs.medeleg != 0 &&
      excBit &&& h.csrs.sedeleg != 0
    setCsrs fun c => { c with ucause := causeOf 0 e.reason c.ucause }
    let utval ← lexicalCast e.mtval
    setCsrs fun c => { c with utval := utval }
    return userMode

/-! ### Interrupts -/

/-- `PendingInterrupts`: the mode that interrupts go to, and which of them are pending for it. -/
structure PendingInterrupts where
  targetMode : PrivilegeLevel
  pending : Word
  deriving DecidableEq, Repr

/-- `none` stands for `NoneMode`. -/
def computePendingInterrupts (h : Hart W) : Option PendingInterrupts :=
  let pending := h.csrs.mie &&& h.csrs.mip
  if pending = 0 then none
  else
    let mPending := pending &&& ~~~h.csrs.mideleg
    if mPending ≠ 0 ∧
        (h.prv < machineMode ∨ h.prv = machineMode ∧ Mstatus.mie.isSet h.csrs.mstatus) then
      some ⟨machineMode, mPending⟩
    else
      let pending := pending &&& h.csrs.mideleg
      let sPending := pending &&& ~~~h.csrs.sideleg
      if sPending ≠ 0 ∧ (h.prv < supervisorMode ∨
          h.prv = supervisorMode ∧ Mstatus.sie.isSet h.csrs.mstatus) then
        some ⟨supervisorMode, sPending⟩
      else
        let uPending := pending &&& h.csrs.sideleg
        if uPending ≠ 0 ∧ h.prv = userMode ∧ Mstatus.uie.isSet h.csrs.mstatus then
          some ⟨userMode, uPending⟩
        else none

/-- The interrupt bits in the order in which `prepare_interrupt` looks at them. -/
def interruptOrder : List (BitField × ExceptionCode) := [
  (Mip.meip, excMExternalInterrupt), (Mip.msip, excMSoftwareInterrupt),
  (Mip.mtip, excMTimerInterrupt), (Mip.seip, excSExternalInterrupt),
  (Mip.ssip, excSSoftwareInterrupt), (Mip.stip, excSTimerInterrupt),
  (Mip.ueip, excUExternalInterrupt), (Mip.usip, excUSoftwareInterrupt),
  (Mip.utip, excUTimerInterrupt)]

/-- The first pending interrupt. -/
def firstInterrupt (x : Word) : Option ExceptionCode :=
  (interruptOrder.find? fun p => p.1.isSet x).map Prod.snd

/-- `prepare_interrupt(e)`: the first of the interrupts is recorded in the mode. -/
def prepareInterrupt (e : PendingInterrupts) : M W Unit :=
  match firstInterrupt e.pending with
  | none => throw (.runtimeError "some pending interrupt must be available here")
  | some exc =>
      if e.targetMode = machineMode then
        setCsrs fun c => { c with mcause := causeOf 1 exc c.mcause }
      else if e.targetMode = supervisorMode then
        setCsrs fun c => { c with scause := causeOf 1 exc c.scause }
      else if e.targetMode = userMode then
        setCsrs fun c => { c with ucause := causeOf 1 exc c.ucause }
      else unknownPrivilegeLevel e.targetMode

/-! ### Entry -/

/-- `xtvec.get_base_address()`, plus the offset of an interrupt in vectored mode. -/
def handlerAddress (tvec cause : Word) : Word :=
  let base := tvec &&& ~~~3
  if Cause.interrupt.isSet cause ∧ tvec &&& 3 = 1 then
    base + 4 * (Cause.exceptionCode.get cause).setWidth 32
  else base

/-- The entry into a handler of machine mode. -/
def enterMachineMode (pp : PrivilegeLevel) : M W Unit := do
  let h ← get
  setCsrs fun c => { c with mepc := h.pc }
  setMstatus Mstatus.mpie (Mstatus.mie.get h.csrs.mstatus)
  setMstatus Mstatus.mie 0#1
  setMstatus Mstatus.mpp pp
  setPc (handlerAddress h.csrs.mtvec h.csrs.mcause)

/-- The entry into a handler of supervisor mode; by the assertion it does not come from machine
mode. -/
def enterSupervisorMode (pp : PrivilegeLevel) : M W Unit := do
  assert fun h => h.prv = supervisorMode || h.prv = userMode
  let h ← get
  setCsrs fun c => { c with sepc := h.pc }
  setMstatus Mstatus.spie (Mstatus.sie.get h.csrs.mstatus)
  setMstatus Mstatus.sie 0#1
  setMstatus Mstatus.spp (pp.setWidth Mstatus.spp.len)
  setPc (handlerAddress h.csrs.stvec h.csrs.scause)

/-- The entry into a handler of user mode. -/
def enterUserMode : M W Unit := do
  assert fun h => h.prv = userMode
  let h ← get
  setCsrs fun c => { c with uepc := h.pc }
  setMstatus Mstatus.upie (Mstatus.uie.get h.csrs.mstatus)
  setMstatus Mstatus.uie 0#1
  setPc (handlerAddress h.csrs.utvec h.csrs.ucause)

/-- `switch_to_trap_handler(target_mode)`. -/
def switchToTrapHandler (env : Env W) (targetMode : PrivilegeLevel) : M W Unit := do
  -- free any LR/SC bus lock before the handler runs
  releaseLrScReservation env
  let h ← get
  setPrv targetMode
  if targetMode = machineMode then enterMachineMode h.prv
  else if targetMode = supervisorMode then enterSupervisorMode h.prv
  else if targetMode = userMode then enterUserMode
  else unknownPrivilegeLevel targetMode

end

end Vcil.Iss
