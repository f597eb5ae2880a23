import Vcil.Host.Port

/-!
# The coprocessor driver of the simulator

`SM3_NICE` and `SM4_NICE` of `nice.h` in the build that talks to the board: each call writes ten
bytes to the port and reads the reply.  The two classes have the same members.

* `NiceUart`: the members;
* `custom3Sm3p0`, `custom3Sm3p1`, `custom3Sm4ks`, `custom3Sm4ed`: the four calls;
* `NiceUart.call`: the call for a given operation.
-/

namespace Vcil.Host

/-- The members of `SM3_NICE` and `SM4_NICE` that a call uses. -/
structure NiceUart where
  nread : BitVec 32
  writeBuff : Vector Byte 10
  readBuff : Vector Byte 5
  cycles : Byte
  deriving DecidableEq, Repr

namespace NiceUart

/-- The members of a new object. -/
def init : NiceUart := ⟨0, Vector.replicate 10 0, Vector.replicate 5 0, 0⟩

/-- The request: the two opcode bytes and the operands, each from its most significant byte. -/
def request (b0 b1 : Byte) (x y : Word) : Vector Byte 10 := #v[b0, b1] ++ wordBytes x ++ wordBytes y

/-- `write_buff` filled for a call; the ten bytes go to the port. -/
def send (u : NiceUart) (req : Vector Byte 10) : NiceUart := { u with writeBuff := req }

/-- One pass of the read loop. -/
def resume (u : NiceUart) (r : ReadResult) : NiceUart × Bool :=
  let u : NiceUart := { u with nread := Host.nread 32 r, readBuff := r.store u.readBuff }
  (u, 0 < u.nread)

/-- What follows the loop: the returned word and the cycle count. -/
def finish (u : NiceUart) : Word × NiceUart :=
  (replyWord u.readBuff, { u with nread := 0, cycles := replyCycles u.readBuff })

/-- A call that sends `req`, over the results `rs` of its `read()`s. -/
def transact (u : NiceUart) (req : Vector Byte 10) (rs : List ReadResult) :
    Option ((Word × NiceUart) × List ReadResult) :=
  (await resume (u.send req) rs).map fun p => (p.1.finish, p.2)

section Calls

variable (u : NiceUart)

/-- `custom3_sm3p0(x)`. -/
def custom3Sm3p0 (x : Word) := u.transact (request 0x7b 0x71 x 0)

/-- `custom3_sm3p1(x)`. -/
def custom3Sm3p1 (x : Word) := u.transact (request 0x7b 0x72 x 0)

/-- `custom3_sm4ks(k, tk)`. -/
def custom3Sm4ks (k tk : Word) := u.transact (request 0x7b 0x73 k tk)

/-- `custom3_sm4ed(x, tx)`. -/
def custom3Sm4ed (x tx : Word) := u.transact (request 0x7b 0x74 x tx)

/-- The call for `op`. -/
def call : Op → Word → Word → List ReadResult → Option ((Word × NiceUart) × List ReadResult)
  | .sm3p0, x, _ => u.custom3Sm3p0 x
  | .sm3p1, x, _ => u.custom3Sm3p1 x
  | .sm4ks, x, y => u.custom3Sm4ks x y
  | .sm4ed, x, y => u.custom3Sm4ed x y

/-- The ten bytes the call for `op` sends. -/
def requestFor : Op → Word → Word → Vector Byte 10
  | .sm3p0, x, _ => request 0x7b 0x71 x 0
  | .sm3p1, x, _ => request 0x7b 0x72 x 0
  | .sm4ks, x, y => request 0x7b 0x73 x y
  | .sm4ed, x, y => request 0x7b 0x74 x y

theorem call_eq_transact (op : Op) (x y : Word) (rs : List ReadResult) :
    u.call op x y rs = u.transact (requestFor op x y) rs := by
  cases op <;> rfl

end Calls

end NiceUart

end Vcil.Host
