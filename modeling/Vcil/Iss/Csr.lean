import Vcil.Iss.State

/-!
# Access to the control and status registers

`get_csr_value`, `set_csr_value` and the checks the CSR instructions make before them.

* `CsrName`, `csrName`: the registers the two switches single out, and the one at an address;
* `isInvalidCsrAccess`, `validateCsrCounterReadAccessRights`: the access rights;
* `getCsrValue`, `setCsrValue`: the accesses, the first with the cycle count of the build.
-/

namespace Vcil.Iss

/-- The cases of the switches in `get_csr_value` and `set_csr_value`. -/
inductive CsrName
  | time | timeh | mcycle | mcycleh | minstret | minstreth | hpmcounter
  | mstatus | sstatus | ustatus | mip | sip | uip | mie | sie | uie
  | satp | fcsr | fflags | frm
  | tselect | tdata1 | tdata2 | tdata3 | dcsr | dpc | dscratch0 | dscratch1
  | misa | mtvec | stvec | utvec | mepc | sepc | uepc
  | mideleg | medeleg | sideleg | sedeleg | mcounteren | scounteren | mcountinhibit
  | other
  deriving DecidableEq, Repr

/-- The address of `fflags`. -/
def fflagsAddr : CsrAddr := 0x001
/-- The address of `frm`. -/
def frmAddr : CsrAddr := 0x002
/-- The address of `fcsr`. -/
def fcsrAddr : CsrAddr := 0x003

/-- The addresses of the privileged architecture; `mtime` and `mtimeh` are names of `time` and
`timeh`. -/
def csrTable : List (CsrAddr × CsrName) := [
  (0xC01, .time), (0xB01, .time), (0xC81, .timeh), (0xB81, .timeh),
  (0xB00, .mcycle), (0xB80, .mcycleh), (0xB02, .minstret), (0xB82, .minstreth),
  (0x300, .mstatus), (0x100, .sstatus), (0x000, .ustatus),
  (0x344, .mip), (0x144, .sip), (0x044, .uip), (0x304, .mie), (0x104, .sie), (0x004, .uie),
  (0x180, .satp), (fcsrAddr, .fcsr), (fflagsAddr, .fflags), (frmAddr, .frm),
  (0x7A0, .tselect), (0x7A1, .tdata1), (0x7A2, .tdata2), (0x7A3, .tdata3),
  (0x7B0, .dcsr), (0x7B1, .dpc), (0x7B2, .dscratch0), (0x7B3, .dscratch1),
  (0x301, .misa), (0x305, .mtvec), (0x105, .stvec), (0x005, .utvec),
  (0x341, .mepc), (0x141, .sepc), (0x041, .uepc),
  (0x303, .mideleg), (0x302, .medeleg), (0x103, .sideleg), (0x102, .sedeleg),
  (0x306, .mcounteren), (0x106, .scounteren), (0x320, .mcountinhibit)]

section

variable {W : Type} (env : Env W)

/-- The case of the switches for an address. -/
def csrName (addr : CsrAddr) : CsrName :=
  match csrTable.lookup addr with
  | some name => name
  | none => if env.isHpmcounter addr then .hpmcounter else .other

/-! ### Access rights -/

/-- The lowest privilege level with access. -/
def csrPrv (addr : CsrAddr) : PrivilegeLevel := addr.extractLsb' 8 2

/-- The top two bits of the address are set. -/
def csrReadonly (addr : CsrAddr) : Bool := addr.extractLsb' 10 2 = 3

/-- What `is_invalid_csr_access` returns. -/
def invalidCsrAccess (h : Hart W) (addr : CsrAddr) (isWrite : Bool) : Bool :=
  let sInvalid := csrPrv addr = supervisorMode && !hasExt h.csrs.misa .s
  let uInvalid := csrPrv addr = userMode && !hasExt h.csrs.misa .u
  (isWrite && csrReadonly addr) || h.prv < csrPrv addr || sInvalid || uInvalid

/-- `csr_addr == FFLAGS_ADDR || csr_addr == FRM_ADDR || csr_addr == FCSR_ADDR`. -/
def isFcsr (addr : CsrAddr) : Bool := addr = fflagsAddr || addr = frmAddr || addr = fcsrAddr

/-- `is_invalid_csr_access(csr_addr, is_write)`. -/
def isInvalidCsrAccess (addr : CsrAddr) (isWrite : Bool) : M W Bool := do
  illegalIf fun h => isFcsr addr && !hasExt h.csrs.misa .f
  return invalidCsrAccess (← get) addr isWrite

/-- An address of the 32 counters or their upper halves. -/
def isCounter (addr : CsrAddr) : Bool :=
  (0xC00 ≤ addr && addr ≤ 0xC1F) || (0xC80 ≤ addr && addr ≤ 0xC9F)

/-- `mcounteren` or `scounteren` withholds the counter from the current mode. -/
def counterWithheld (h : Hart W) (addr : CsrAddr) : Bool :=
  let cnt := (addr &&& 0x1F).toNat
  isCounter addr &&
    ((sMode h && !h.csrs.mcounteren.getLsbD cnt) ||
      (uMode h && (!h.csrs.mcounteren.getLsbD cnt || !h.csrs.scounteren.getLsbD cnt)))

/-- `validate_csr_counter_read_access_rights(addr)`. -/
def validateCsrCounterReadAccessRights (addr : CsrAddr) : M W Unit :=
  illegalIf fun h => counterWithheld h addr

/-! ### Reading -/

/-- `clint->update_and_get_mtime()`, stored in `csrs.time`. -/
def readTime : M W (BitVec 64) := do
  let h ← get
  let mtime := (env.updateAndGetMtime h.world).1
  onWorld fun w => (env.updateAndGetMtime w).2
  setCsrs fun c => { c with time := mtime }
  return mtime

/-- The cycle count, stored in `csrs.cycle`. -/
def readCycle (currentCycles : M W (BitVec 64)) : M W (BitVec 64) := do
  let cycles ← currentCycles
  setCsrs fun c => { c with cycle := cycles }
  return cycles

/-- The lower half of a counter. -/
def low (x : BitVec 64) : Word := x.extractLsb' 0 32
/-- The upper half of a counter. -/
def high (x : BitVec 64) : Word := x.extractLsb' 32 32

/-- What follows the switch of `get_csr_value`. -/
def readDefault (addr : CsrAddr) : M W Word := do
  illegalIf fun _ => !env.isValidCsr32Addr addr
  return env.defaultRead32 (← get).csrs addr

/-- A register of `csrs`. -/
def readCsrs (f : Csrs → Word) : M W Word := do return f (← get).csrs

/-- `get_csr_value(addr)`; where the current cycles come from depends on the build. -/
def getCsrValue (currentCycles : M W (BitVec 64)) (addr : CsrAddr) : M W Word := do
  validateCsrCounterReadAccessRights addr
  match csrName env addr with
  | .time => low <$> readTime env
  | .timeh => high <$> readTime env
  | .mcycle => low <$> readCycle currentCycles
  | .mcycleh => high <$> readCycle currentCycles
  | .minstret => readCsrs fun c => low c.instret
  | .minstreth => readCsrs fun c => high c.instret
  | .hpmcounter => return 0
  | .mstatus => readCsrs fun c => c.mstatus &&& env.masks.mstatus
  | .sstatus => readCsrs fun c => c.mstatus &&& env.masks.sstatus
  | .ustatus => readCsrs fun c => c.mstatus &&& env.masks.ustatus
  | .mip => readCsrs fun c => c.mip &&& env.masks.mipRead
  | .sip => readCsrs fun c => c.mip &&& env.masks.sip
  | .uip => readCsrs fun c => c.mip &&& env.masks.uip
  | .mie => readCsrs fun c => c.mie &&& env.masks.mie
  | .sie => readCsrs fun c => c.mie &&& env.masks.sie
  | .uie => readCsrs fun c => c.mie &&& env.masks.uie
  | .satp => do
      illegalIf fun h => Mstatus.tvm.isSet h.csrs.mstatus
      readDefault env addr
  | .fcsr => readCsrs fun c => c.fcsr &&& env.masks.fcsr
  | .fflags => readCsrs fun c => (Fcsr.fflags.get c.fcsr).setWidth 32
  | .frm => readCsrs fun c => (Fcsr.frm.get c.fcsr).setWidth 32
  | .tselect => return 1
  | .tdata1 | .tdata2 | .tdata3 | .dcsr | .dpc | .dscratch0 | .dscratch1 => return 0
  | _ => readDefault env addr

/-! ### Writing -/

/-- `set_csr_value(addr, value)`. -/
def setCsrValue (addr : CsrAddr) (value : Word) : M W Unit := do
  match csrName env addr with
  -- `misa` is read-only, the counters are not implemented
  | .misa | .hpmcounter => return
  | .satp => do
      illegalIf fun h => Mstatus.tvm.isSet h.csrs.mstatus
      setCsrs fun c => { c with satp := writeMasked c.satp value env.masks.satp }
  | .mtvec => setCsrs fun c => { c with mtvec := writeMasked c.mtvec value env.masks.mtvec }
  | .stvec => setCsrs fun c => { c with stvec := writeMasked c.stvec value env.masks.mtvec }
  | .utvec => setCsrs fun c => { c with utvec := writeMasked c.utvec value env.masks.mtvec }
  | .mepc => setCsrs fun c =>
      { c with mepc := writeMasked c.mepc value (env.pcAlignmentMask c.misa) }
  | .sepc => setCsrs fun c =>
      { c with sepc := writeMasked c.sepc value (env.pcAlignmentMask c.misa) }
  | .uepc => setCsrs fun c =>
      { c with uepc := writeMasked c.uepc value (env.pcAlignmentMask c.misa) }
  | .mstatus => setCsrs fun c =>
      { c with mstatus := writeMasked c.mstatus value env.masks.mstatus }
  | .sstatus => setCsrs fun c =>
      { c with mstatus := writeMasked c.mstatus value env.masks.sstatus }
  | .ustatus => setCsrs fun c =>
      { c with mstatus := writeMasked c.mstatus value env.masks.ustatus }
  | .mip => setCsrs fun c => { c with mip := writeMasked c.mip value env.masks.mipWrite }
  | .sip => setCsrs fun c => { c with mip := writeMasked c.mip value env.masks.sip }
  | .uip => setCsrs fun c => { c with mip := writeMasked c.mip value env.masks.uip }
  | .mie => setCsrs fun c => { c with mie := writeMasked c.mie value env.masks.mie }
  | .sie => setCsrs fun c => { c with mie := writeMasked c.mie value env.masks.sie }
  | .uie => setCsrs fun c => { c with mie := writeMasked c.mie value env.masks.uie }
  | .mideleg => setCsrs fun c =>
      { c with mideleg := writeMasked c.mideleg value env.masks.mideleg }
  | .medeleg => setCsrs fun c =>
      { c with medeleg := writeMasked c.medeleg value env.masks.medeleg }
  | .sideleg => setCsrs fun c =>
      { c with sideleg := writeMasked c.sideleg value env.masks.sideleg }
  | .sedeleg => setCsrs fun c =>
      { c with sedeleg := writeMasked c.sedeleg value env.masks.sedeleg }
  | .mcounteren => setCsrs fun c =>
      { c with mcounteren := writeMasked c.mcounteren value env.masks.mcounteren }
  | .scounteren => setCsrs fun c =>
      { c with scounteren := writeMasked c.scounteren value env.masks.mcounteren }
  | .mcountinhibit => setCsrs fun c =>
      { c with mcountinhibit := writeMasked c.mcountinhibit value env.masks.mcountinhibit }
  | .fcsr => setCsrs fun c => { c with fcsr := writeMasked c.fcsr value env.masks.fcsr }
  | .fflags => setCsrs fun c => { c with fcsr := Fcsr.fflags.put (value.setWidth 5) c.fcsr }
  | .frm => setCsrs fun c => { c with fcsr := Fcsr.frm.put (value.setWidth 3) c.fcsr }
  | .tselect | .tdata1 | .tdata2 | .tdata3 | .dcsr | .dpc | .dscratch0 | .dscratch1 => return
  | _ => do
      illegalIf fun _ => !env.isValidCsr32Addr addr
      setCsrs fun c => env.defaultWrite32 c addr value

end

end Vcil.Iss
