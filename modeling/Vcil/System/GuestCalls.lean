import Vcil.Host.Replies
import Vcil.System.DeviceProgress

/-!
# The calls of the guest return

Guest, bridge and board together.  Each register write is one exchange with the board, so every
call returns, with the value of the reference function, and leaves the board as it found it.

* `On`: where a call is, with a property of the bridge and one of the board;
* `store`, `exchange`, `loop`: a register write, the wait inside it, and the loop after it;
* `call_returns`: one call; `calls_return`: any sequence of calls.
-/

namespace Vcil.System

open Vcil.Rtl Vcil.Rtl.Core Vcil.Host Progress.Machine

/-! ### Requests -/

namespace Call

/-- The twelve bytes a call sends before it polls. -/
def request (c : Call) : Request :=
  (wordBytes c.code).toList ++ (wordBytes c.rs1).toList ++ (wordBytes c.rs2).toList

/-- The operation is in the upper half of the first word. -/
theorem request_asks_of {c : Call} {op : Op} (hop : Op.decode (c.code.extractLsb' 16 16) = some op) :
    c.request.Asks op c.rs1 c.rs2 := by
  have hword : ∀ x : Word, Words.beWord 32 (wordBytes x).toList = x := fun x => by
    rw [wordBytes_eq]
    exact Words.beWord_beBytes 4 x
  have hcode : c.request.code = c.code.extractLsb' 16 16 := by
    show Words.beWord 16 ((wordBytes c.code).toList.take 2) = _
    have hfield : (Words.beWord 32 ([] ++ (wordBytes c.code).toList.take 2 ++
        (wordBytes c.code).toList.drop 2)).extractLsb' 16 16 =
          Words.beWord 16 ((wordBytes c.code).toList.take 2) :=
      Words.field_beWord _ _ _ rfl rfl (by decide)
    rw [List.nil_append, List.take_append_drop, hword] at hfield
    exact hfield.symm
  exact ⟨rfl, by rw [hcode, hop], hword c.rs1, hword c.rs2⟩

theorem request_asks (op : Op) (x y rdata : Word) :
    (Call.of op x y rdata).request.Asks op x (Call.of op x y rdata).rs2 := by
  have hrs1 : (Call.of op x y rdata).rs1 = x := by cases op <;> rfl
  have hword : (Call.of op x y rdata).code = op.code ++ 0#16 := by cases op <;> rfl
  have hcode : (op.code ++ 0#16).extractLsb' 16 16 = op.code := by cases op <;> decide
  have hop : Op.decode ((Call.of op x y rdata).code.extractLsb' 16 16) = some op := by
    rw [hword, hcode, Op.decode_code]
  have hasks := request_asks_of hop
  rwa [hrs1] at hasks

/-- SM3 does not use the second operand. -/
theorem eval_rs2 (op : Op) (x y rdata : Word) :
    op.eval x (Call.of op x y rdata).rs2 = op.eval x y := by
  cases op <;> rfl

end Call

/-! ### Where a call is -/

/-- The guest executes the call `c`, before `rest`, and is at `pc`. -/
structure On (c : Call) (rest : List Call) (res : List Word) (pc : Pc) (B : Bridge → Prop)
    (D : Device → Prop) (s : Session) : Prop where
  calls : s.guest.calls = c :: rest
  results : s.guest.results = res
  pc : s.guest.pc = pc
  bridge : B s.bridge
  device : D s.device

section Rules

variable {c : Call} {rest : List Call} {res : List Word} {pc : Pc} {B : Bridge → Prop}
  {D : Device → Prop} {Q : Session → Prop}

/-- The rule for a step of the host. -/
theorem host_ensures (hclock : ∀ d t, D d → D (d.clock 4 t)) (harrive : ∀ d, D d → D d.arrive)
    (hhost : ∀ s full kept, On c rest res pc B D s →
      On c rest res pc B D (s.hostStep full kept) ∨ Q (s.hostStep full kept))
    (hfull : ∀ s kept, On c rest res pc B D s → Q (s.hostStep true kept)) :
    (session 4).LeadsTo (fun s => s.guest.results = res) (On c rest res pc B D) Q := by
  refine LeadsTo.ensures .host (fun s h => h.results) (fun s e h => ?_) (fun s e h hfires => ?_)
  · cases e with
    | clock t => exact Or.inl ⟨h.calls, h.results, h.pc, h.bridge, hclock _ t h.device⟩
    | arrive => exact Or.inl ⟨h.calls, h.results, h.pc, h.bridge, harrive _ h.device⟩
    | host full kept => exact hhost s full kept h
  · cases e with
    | clock t => cases hfires
    | arrive => cases hfires
    | host full kept =>
      cases full with
      | true => exact hfull s kept h
      | false => cases hfires

/-- A `read()` that returns nothing leaves the guest and the board where they are. -/
theorem On.read_nothing {k : Fin 5} {w : Wait} {s : Session} {full : Bool} {kept : ℕ}
    (hB : ∀ b n, B b → B { b with nread := n }) (h : On c rest res (.waiting k w) B D s)
    (hnone : Session.readable s.device w.size full = []) :
    On c rest res (.waiting k w) B D (s.hostStep full kept) ∧
      (s.hostStep full kept).device = s.device := by
  have hresume : s.bridge.resume w (some []) =
      ⟨{ s.bridge with nread := Host.nread 8 (some []) }, [], some w⟩ := by
    unfold Bridge.resume
    simp only [nread_zero, store_nil]
    rfl
  have hstep : s.hostStep full kept =
      ⟨{ s.guest with pc := .waiting k w },
        { s.bridge with nread := Host.nread 8 (some []) }, s.device⟩ := by
    unfold Session.hostStep
    rw [h.calls]
    simp only [h.pc, hnone, hresume]
    rfl
  rw [hstep]
  exact ⟨⟨h.calls, h.results, rfl, hB _ _ h.bridge, h.device⟩, rfl⟩

theorem readable_lt {d : Device} {n : ℕ} (h : d.rx.length < n) (full : Bool) :
    Session.readable d n full = [] := by
  unfold Session.readable
  rw [if_neg fun hfull => absurd hfull.2 (by omega)]

theorem readable_full {d : Device} {bs : List Byte} (h : d.rx = bs) :
    Session.readable d bs.length true = bs := by
  unfold Session.readable
  rw [if_pos ⟨rfl, by rw [h]⟩, h, List.take_length]

/-- While the host has not got what it waits for, only the board takes steps. -/
theorem exchange {k : Fin 5} {w : Wait} {P P' : Device → Prop}
    (hB : ∀ b n, B b → B { b with nread := n })
    (h : (board 4).LeadsTo (fun d => d.rx.length < w.size) P P') :
    (session 4).LeadsTo (fun s => s.guest.results = res) (On c rest res (.waiting k w) B P)
      (On c rest res (.waiting k w) B P') := by
  have hlift : (session 4).LeadsTo (fun s => s.guest.results = res)
      (fun s => ∃ t, On c rest res (.waiting k w) B (· = t) s ∧ P t)
      fun s => ∃ t, On c rest res (.waiting k w) B (· = t) s ∧ P' t := by
    refine LeadsTo.lift h (fun _ _ hk => hk) (fun s t hs _ => hs.results) ?_
    intro s t e hs hlt
    obtain rfl : s.device = t := hs.device
    cases e with
    | clock t => exact ⟨hs.calls, hs.results, hs.pc, hs.bridge, rfl⟩
    | arrive => exact ⟨hs.calls, hs.results, hs.pc, hs.bridge, rfl⟩
    | host full kept => exact (hs.read_nothing hB (readable_lt hlt full)).1
  refine hlift.mono (fun s hs => ?_) ?_
  · exact ⟨s.device, ⟨hs.calls, hs.results, hs.pc, hs.bridge, rfl⟩, hs.device⟩
  · rintro s ⟨t, hs, ht⟩
    obtain rfl : s.device = t := hs.device
    exact ⟨hs.calls, hs.results, hs.pc, hs.bridge, ht⟩

end Rules

/-! ### Steps of a call -/

/-- A core that has nothing to say, now or later. -/
structure Steady (C : Core → Prop) : Prop where
  oDataValid : ∀ s, C s → s.oDataValid = false
  still : ∀ s, C s → C (s.step (still false))

section Steps

variable {c : Call} {rest : List Call} {res : List Word} {C : Core → Prop} {B B' : Bridge → Prop}
  {d : Device} {k : Fin 5}

theorem Steady.clock (hC : Steady C) (h : At C none q d) (t : Tick) : At C none q (d.clock 4 t) :=
  h.clock_free t (hC.oDataValid _ h.core) (hC.still _ h.core)

theorem swapReg32_mode (x : Word) : swapReg32 mode x = x := rfl

theorem At.nil (h : At C none [] d) : d.rx = [] ∧ d.up = [] := List.append_eq_nil_iff.1 h.queue

/-- Opening the port and writing to it. -/
theorem At.store (h : At C none [] d) (kept : ℕ) (bs : List Byte) :
    Incoming (fun a s => a = 0 ∧ C s) bs ((d.flush kept).write bs) := by
  have hdown : (d.flush kept).down = [] := by
    show d.down.take kept = []
    rw [h.down, List.take_nil]
  refine ⟨⟨?_, h.core⟩, h.tx, ?_, rfl, h.nil.2⟩
  · show (if (d.flush kept).down = [] then 0 else _) = 0
    rw [if_pos hdown]
  · show (d.flush kept).down ++ bs = bs
    rw [hdown, List.nil_append]

theorem At.write (h : At C none [] d) (bs : List Byte) :
    Incoming (fun a s => a = 0 ∧ C s) bs (d.write bs) := by
  refine ⟨⟨?_, h.core⟩, h.tx, ?_, h.nil.1, h.nil.2⟩
  · show (if d.down = [] then 0 else _) = 0
    rw [if_pos h.down]
  · show d.down ++ bs = bs
    rw [h.down, List.nil_append]

/-- The host has read everything. -/
theorem At.read {bs : List Byte} (h : At C none bs d) (hrx : d.rx = bs) :
    At C none [] (d.read bs.length) := by
  have hup : d.up = [] := by
    have hqueue := h.queue
    rwa [hrx, List.append_right_eq_self] at hqueue
  refine ⟨h.core, h.tx, h.down, ?_⟩
  show d.rx.drop bs.length ++ d.up = []
  rw [hrx, hup, List.drop_length]
  rfl

/-- The begin of a register write. -/
theorem store {w : Wait} {sends : List Byte} (hC : Steady C)
    (hwrite : ∀ br, B br → ∃ br', br.sm4Write (xIn k) (c.data k) = ⟨br', sends, some w⟩ ∧ B' br') :
    (session 4).LeadsTo (fun s => s.guest.results = res) (On c rest res (.store k) B (At C none []))
      (On c rest res (.waiting k w) B' (Incoming (fun a s => a = 0 ∧ C s) sends)) := by
  have hstep : ∀ s full kept, On c rest res (.store k) B (At C none []) s →
      On c rest res (.waiting k w) B' (Incoming (fun a s => a = 0 ∧ C s) sends)
        (s.hostStep full kept) := by
    intro s full kept h
    obtain ⟨br', hbr, hB'⟩ := hwrite _ h.bridge
    unfold Session.hostStep
    rw [h.calls]
    simp only [h.pc, swapReg32_mode, hbr]
    exact ⟨h.calls, h.results, rfl, hB', h.device.store kept sends⟩
  exact host_ensures (fun d t h => hC.clock h t) (fun d h => h.arrive)
    (fun s full kept h => Or.inr (hstep s full kept h)) fun s kept h => hstep s true kept h

/-- The end of a wait: all bytes are read. -/
theorem taken {w : Wait} {bs : List Byte} {Q : Session → Prop} (hC : Steady C)
    (hlen : bs.length = w.size) (hB : ∀ b n, B b → B { b with nread := n })
    (hq : ∀ s d, On c rest res (.waiting k w) B (fun _ => True) s → At C none [] d →
      Q ⟨{ s.guest with pc := .inStore k (s.bridge.resume w (some bs)) },
        (s.bridge.resume w (some bs)).bridge,
        Session.transmit d (s.bridge.resume w (some bs)).sends⟩) :
    (session 4).LeadsTo (fun s => s.guest.results = res)
      (On c rest res (.waiting k w) B fun d => At C none bs d ∧ d.rx = bs) Q := by
  have hfull : ∀ s kept,
      On c rest res (.waiting k w) B (fun d => At C none bs d ∧ d.rx = bs) s →
        Q (s.hostStep true kept) := by
    intro s kept h
    obtain ⟨hat, hrx⟩ := h.device
    have hread := readable_full hrx
    rw [hlen] at hread
    have hstep := hq s _ ⟨h.calls, h.results, h.pc, h.bridge, trivial⟩ (hat.read hrx)
    unfold Session.hostStep
    rw [h.calls]
    simp only [h.pc, hread]
    exact hstep
  refine host_ensures (fun d t h => ⟨hC.clock h.1 t, h.2⟩) ?_ (fun s full kept h => ?_) hfull
  · rintro d ⟨hat, hrx⟩
    refine ⟨hat.arrive, ?_⟩
    have hup : d.up = [] := by
      have hqueue := hat.queue
      rwa [hrx, List.append_right_eq_self] at hqueue
    show d.rx ++ d.up.head?.toList = bs
    rw [hup, hrx]
    exact List.append_nil bs
  · cases full with
    | true => exact Or.inr (hfull s kept h)
    | false => exact Or.inl (h.read_nothing hB (by simp [Session.readable])).1

/-- The loop after a register write ends: `rdata` is the state of the bridge at the latest after
one turn. -/
theorem loop (hC : Steady C) :
    (session 4).LeadsTo (fun s => s.guest.results = res)
      (On c rest res (.loop k) (fun br => br.state = BitVec.ofNat 32 (k + 1) ∧ B br) (At C none []))
      (On c rest res (.afterLoop k) B (At C none [])) := by
  set Here := On c rest res (.loop k) (fun br => br.state = BitVec.ofNat 32 (k + 1) ∧ B br)
    (At C none []) with hHere
  have hread : ∀ s full kept, Here s →
      (Here (s.hostStep full kept) ∧
          (s.hostStep full kept).guest.rdata = BitVec.ofNat 32 (k + 1)) ∨
        On c rest res (.afterLoop k) B (At C none []) (s.hostStep full kept) := by
    intro s full kept h
    unfold Session.hostStep
    rw [h.calls]
    simp only [h.pc, swapReg32_mode]
    split_ifs with hne
    · exact Or.inl ⟨⟨h.calls, h.results, rfl, h.bridge, h.device⟩, h.bridge.1⟩
    · exact Or.inr ⟨h.calls, h.results, rfl, h.bridge.2, h.device⟩
  have hleave : ∀ s full kept, Here s → s.guest.rdata = BitVec.ofNat 32 (k + 1) →
      On c rest res (.afterLoop k) B (At C none []) (s.hostStep full kept) := by
    intro s full kept h hrdata
    unfold Session.hostStep
    rw [h.calls]
    simp only [h.pc]
    rw [if_neg fun hne => hne hrdata]
    exact ⟨h.calls, h.results, rfl, h.bridge.2, h.device⟩
  have hfirst : (session 4).LeadsTo (fun s => s.guest.results = res) Here fun s =>
      (Here s ∧ s.guest.rdata = BitVec.ofNat 32 (k + 1)) ∨
        On c rest res (.afterLoop k) B (At C none []) s :=
    host_ensures (fun d t h => hC.clock h t) (fun d h => h.arrive)
      (fun s full kept h => Or.inr (hread s full kept h)) fun s kept h => hread s true kept h
  refine hfirst.trans (LeadsTo.cases ?_ (LeadsTo.of_imp fun _ h => h))
  refine LeadsTo.ensures .host (fun s h => h.1.results) ?_ ?_
  · rintro s e ⟨h, hrdata⟩
    cases e with
    | clock t =>
      exact Or.inl ⟨⟨h.calls, h.results, h.pc, h.bridge, hC.clock h.device t⟩, hrdata⟩
    | arrive => exact Or.inl ⟨⟨h.calls, h.results, h.pc, h.bridge, h.device.arrive⟩, hrdata⟩
    | host full kept => exact Or.inr (hleave s full kept h hrdata)
  · rintro s e ⟨h, hrdata⟩ hfires
    cases e with
    | clock t => cases hfires
    | arrive => cases hfires
    | host full kept => exact hleave s full kept h hrdata

/-- The result is read. -/
theorem result (hC : Steady C) {v : Word} :
    (session 4).LeadsTo (fun s => s.guest.results = res)
      (On c rest res .result (fun br => replyWord br.readBuff = v) (At C none []))
      fun s => s.guest.calls = rest ∧ s.guest.results = res ++ [v] ∧ s.guest.pc = .store 0 ∧
        At C none [] s.device := by
  have hstep : ∀ s full kept,
      On c rest res .result (fun br => replyWord br.readBuff = v) (At C none []) s →
        (s.hostStep full kept).guest.calls = rest ∧
          (s.hostStep full kept).guest.results = res ++ [v] ∧
          (s.hostStep full kept).guest.pc = .store 0 ∧
          At C none [] (s.hostStep full kept).device := by
    intro s full kept h
    unfold Session.hostStep
    rw [h.calls]
    simp only [h.pc, swapReg32_mode, h.results]
    exact ⟨trivial, congrArg (fun v => res ++ [v]) h.bridge, trivial, h.device⟩
  exact host_ensures (fun d t h => hC.clock h t) (fun d h => h.arrive)
    (fun s full kept h => Or.inr (hstep s full kept h)) fun s kept h => hstep s true kept h

end Steps

/-! ### The bridge's part -/

/-- The bridge repeats the poll byte. -/
def Polls (br : Bridge) : Prop := firstByte br.writeBuff = 0xff

theorem sm4Write_poll (br : Bridge) :
    ∃ br', br.sm4Write (xIn 3) 0xff = ⟨br', [0xff], some .poll⟩ ∧ Polls br' := by
  have hlow : Bridge.lowByte 0xff = 0xff := rfl
  have haddr : br.sm4Write (xIn 3) 0xff = Bridge.pollTest
      { br with
        readBuff := setFirstByte br.readBuff 0, writeBuff := setFirstByte br.writeBuff 0xff } := by
    rw [← hlow]
    rfl
  refine ⟨{ br with
        readBuff := setFirstByte br.readBuff 0, writeBuff := setFirstByte br.writeBuff 0xff }, ?_, ?_⟩
  · rw [haddr, Bridge.pollTest]
    simp
  · simp [Polls]

theorem sm4Write_read (br : Bridge) :
    ∃ br', br.sm4Write (xIn 4) 0 = ⟨br', [0], some .reply⟩ := ⟨_, rfl⟩

theorem nread_length (bs : List Byte) (h : bs.length = 1 ∨ bs.length = 5) :
    0 < Host.nread 8 (some bs) := by
  rcases h with h | h <;> rw [Host.nread, ReadResult.count, h] <;> decide

theorem resume_ack (br : Bridge) (state : Word) (b : Byte) :
    ∃ br', br.resume (.ack state) (some [b]) = ⟨br', [], none⟩ ∧ br'.state = state := by
  refine ⟨{ br with
    nread := Host.nread 8 (some [b])
    readBuff := ReadResult.store (some [b]) br.readBuff
    state := state }, ?_, rfl⟩
  unfold Bridge.resume
  simp only [nread_length [b] (Or.inl rfl), if_true]

theorem resume_poll (br : Bridge) (b : Byte) (h : Polls br) :
    ∃ br', Polls br' ∧
      (b = 1 → br.resume .poll (some [b]) = ⟨{ br' with state := 4 }, [], none⟩) ∧
      (b ≠ 1 → br.resume .poll (some [b]) = ⟨br', [0xff], some .poll⟩) := by
  have hfirst : firstByte (ReadResult.store (some [b]) br.readBuff) = b := by
    simp [firstByte, ReadResult.store]
  have hresume : br.resume .poll (some [b]) = Bridge.pollTest { br with
      nread := Host.nread 8 (some [b]), readBuff := ReadResult.store (some [b]) br.readBuff } := by
    unfold Bridge.resume
    simp only [nread_length [b] (Or.inl rfl), if_true]
  refine ⟨{ br with
    nread := Host.nread 8 (some [b]), readBuff := ReadResult.store (some [b]) br.readBuff },
    h, fun hb => ?_, fun hb => ?_⟩
  · rw [hresume, Bridge.pollTest, if_pos (hfirst.trans hb)]
  · rw [hresume, Bridge.pollTest, if_neg fun h1 => hb (hfirst.symm.trans h1)]
    rw [show firstByte br.writeBuff = 0xff from h]

theorem resume_reply (br : Bridge) (bs : Vector Byte 5) :
    ∃ br', br.resume .reply (some bs.toList) = ⟨br', [], none⟩ ∧ br'.state = 5 ∧
      br'.readBuff = bs := by
  refine ⟨{ br with
    nread := Host.nread 8 (some bs.toList)
    readBuff := ReadResult.store (some bs.toList) br.readBuff
    state := 5 }, ?_, rfl, store_toList _ _⟩
  unfold Bridge.resume
  simp only [nread_length bs.toList (Or.inr bs.length_toList), if_true]

/-! ### One call -/

section OneCall

variable {c : Call} {rest : List Call} {res : List Word} {C After : Core → Prop}

/-- A register write of four bytes, with its loop. -/
theorem group (k : Fin 5) (bs : List Byte) (hC : Steady C) (hAfter : Steady After)
    (hwrite : ∀ br : Bridge,
      br.sm4Write (xIn k) (c.data k) = br.sendWord (c.data k) (BitVec.ofNat 32 (k + 1)))
    (hbs : bs.length < 12 ∧ bs.length % 4 = 0) (hcollect : ∀ s, C s → Collects bs 0 s)
    (hafter : ∀ s, Gathers (bs ++ (wordBytes (c.data k)).toList) s → After s)
    (hbusy : ∀ s, After s → After (s.step (still true))) :
    (session 4).LeadsTo (fun s => s.guest.results = res)
      (On c rest res (.store k) (fun _ => True) (At C none []))
      (On c rest res (.afterLoop k) (fun _ => True) (At After none [])) := by
  have hstore : (session 4).LeadsTo (fun s => s.guest.results = res)
      (On c rest res (.store k) (fun _ => True) (At C none []))
      (On c rest res (.waiting k (.ack (BitVec.ofNat 32 (k + 1)))) (fun _ => True)
        (Incoming (fun a s => a = 0 ∧ C s) (wordBytes (c.data k)).toList)) := by
    exact store hC fun br _ => ⟨_, hwrite br, trivial⟩
  have hack : (board 4).LeadsTo (fun d => d.rx.length < 1)
      (Incoming (Collects bs) (wordBytes (c.data k)).toList)
      fun d => At After none [1] d ∧ d.rx = [1] :=
    acknowledged hbs hafter
      (fun s busy h => by
        cases busy with
        | false => exact hAfter.still s h
        | true => exact hbusy s h)
      hAfter.oDataValid
  have hwait : (session 4).LeadsTo (fun s => s.guest.results = res)
      (On c rest res (.waiting k (.ack (BitVec.ofNat 32 (k + 1)))) (fun _ => True)
        (Incoming (fun a s => a = 0 ∧ C s) (wordBytes (c.data k)).toList))
      (On c rest res (.waiting k (.ack (BitVec.ofNat 32 (k + 1)))) (fun _ => True)
        fun d => At After none [1] d ∧ d.rx = [1]) := by
    refine (exchange (w := .ack _) (fun _ _ h => h) hack).mono (fun s h => ?_) fun _ h => h
    refine ⟨h.calls, h.results, h.pc, h.bridge, ⟨?_, h.device.tx, h.device.down, h.device.rx,
      h.device.up⟩⟩
    obtain ⟨hage, hcore⟩ := h.device.core
    rw [hage]
    exact hcollect _ hcore
  have htaken : (session 4).LeadsTo (fun s => s.guest.results = res)
      (On c rest res (.waiting k (.ack (BitVec.ofNat 32 (k + 1)))) (fun _ => True)
        fun d => At After none [1] d ∧ d.rx = [1])
      (On c rest res (.loop k) (fun br => br.state = BitVec.ofNat 32 (k + 1) ∧ True)
        (At After none [])) :=
    taken hAfter rfl (fun _ _ h => h) fun s d h hd => by
      obtain ⟨br', hbr, hstate⟩ := resume_ack s.bridge (BitVec.ofNat 32 (k + 1)) 1
      rw [hbr]
      exact ⟨h.calls, h.results, rfl, ⟨hstate, trivial⟩, hd⟩
  exact hstore.trans (hwait.trans (htaken.trans (loop hAfter)))

variable {op : Op} {x y : Word} {r : Request}

theorem steady_gathers {bs : List Byte} (hbs : bs.length < 12) : Steady (Gathers bs) :=
  ⟨fun _ h => h.oDataValid, fun _ h => gathers_still h hbs false⟩

theorem worksFree_keep {s : Core} {n : ℕ} (hr : r.Asks op x y) (busy : Bool)
    (h : WorksFree r n s) : WorksFree r n (s.step (still busy)) := by
  have hnext := worksFree_still hr h busy
  have hle := hnext.remaining
  exact ⟨hnext.works, by omega, hnext.stateCount⟩

theorem steady_worksFree (hr : r.Asks op x y) (n : ℕ) : Steady (WorksFree r n) :=
  ⟨fun _ h => h.works.handshake.trans h.stateCount, fun _ h => worksFree_keep hr false h⟩

theorem steady_settles : Steady Settles :=
  ⟨fun _ h => h.oDataValid, fun _ h => Or.inl h.still⟩

/-- The polling loop of the bridge, and the guest's loop after it. -/
theorem poll (hr : r.Asks op x y) :
    (session 4).LeadsTo (fun s => s.guest.results = res)
      (On c rest res (.store 3) (fun _ => True) (At (WorksFree r 9) none []))
      (On c rest res (.store 4) (fun _ => True) (At (WorksFree r 0) none [])) := by
  have hstore : (session 4).LeadsTo (fun s => s.guest.results = res)
      (On c rest res (.store 3) (fun _ => True) (At (WorksFree r 9) none []))
      (On c rest res (.waiting 3 .poll) Polls
        (Incoming (fun a s => a = 0 ∧ WorksFree r 9 s) [0xff])) :=
    store (steady_worksFree hr 9) fun br _ => sm4Write_poll br
  have hexpects : ∀ n d, Incoming (fun a s => a = 0 ∧ WorksFree r n s) [0xff] d →
      Incoming (Expects r n) [0xff] d := by
    intro n d h
    obtain ⟨hage, hcore⟩ := h.core
    refine ⟨⟨hcore, ?_⟩, h.tx, h.down, h.rx, h.up⟩
    rw [hage]
    exact remaining_le _
  have hpolls : ∀ n, (session 4).LeadsTo (fun s => s.guest.results = res)
      (On c rest res (.waiting 3 .poll) Polls (Incoming (Expects r n) [0xff]))
      (On c rest res (.loop 3) (fun br => br.state = BitVec.ofNat 32 ((3 : Fin 5) + 1) ∧ True)
        (At (WorksFree r 0) none [])) := by
    refine LeadsTo.descend fun n => ?_
    refine (exchange (w := .poll) (fun _ _ h => h) (polled hr n)).trans ?_
    have hcase : ∀ (n' : ℕ) (b : Byte), ((b = 1 ∧ n' = 0) ∨ (b = 0 ∧ n' < n)) →
        (session 4).LeadsTo (fun s => s.guest.results = res)
          (On c rest res (.waiting 3 .poll) Polls fun d =>
            At (WorksFree r n') none [b] d ∧ d.rx = [b])
          fun s => (∃ i < n, On c rest res (.waiting 3 .poll) Polls
              (Incoming (Expects r i) [0xff]) s) ∨
            On c rest res (.loop 3) (fun br => br.state = BitVec.ofNat 32 ((3 : Fin 5) + 1) ∧ True)
              (At (WorksFree r 0) none []) s := by
      intro n' b hb
      refine taken (steady_worksFree hr n') rfl (fun _ _ h => h) fun s d h hd => ?_
      obtain ⟨br', hpolls, hone, hzero⟩ := resume_poll s.bridge b h.bridge
      rcases hb with ⟨rfl, rfl⟩ | ⟨rfl, hlt⟩
      · rw [hone rfl]
        exact Or.inr ⟨h.calls, h.results, rfl, ⟨rfl, trivial⟩, hd⟩
      · rw [hzero (by decide)]
        exact Or.inl ⟨n', hlt, h.calls, h.results, rfl, hpolls, hexpects n' _ (hd.write _)⟩
    rintro s es hfair ⟨hcalls, hresults, hpc, hbridge, n', b, hb, hd⟩
    exact hcase n' b hb s es hfair ⟨hcalls, hresults, hpc, hbridge, hd⟩
  exact (hstore.mono (fun _ h => h) fun s h =>
    ⟨h.calls, h.results, h.pc, h.bridge, hexpects 9 _ h.device⟩).trans
      ((hpolls 9).trans (loop (steady_worksFree hr 0)))

/-- The read command, and the reply in the bridge's buffer. -/
theorem read (hr : r.Asks op x y) :
    (session 4).LeadsTo (fun s => s.guest.results = res)
      (On c rest res (.store 4) (fun _ => True) (At (WorksFree r 0) none []))
      (On c rest res .result (fun br => replyWord br.readBuff = op.eval x y)
        (At Settles none [])) := by
  have hstore : (session 4).LeadsTo (fun s => s.guest.results = res)
      (On c rest res (.store 4) (fun _ => True) (At (WorksFree r 0) none []))
      (On c rest res (.waiting 4 .reply) (fun _ => True)
        (Incoming (fun a s => a = 0 ∧ WorksFree r 0 s) [0])) :=
    store (steady_worksFree hr 0) fun br _ => by
      obtain ⟨br', hbr⟩ := sm4Write_read br
      exact ⟨br', hbr, trivial⟩
  have hlen : (op.reply x y).length = 5 := by simp [Op.reply]
  have hwait : (session 4).LeadsTo (fun s => s.guest.results = res)
      (On c rest res (.waiting 4 .reply) (fun _ => True)
        (Incoming (fun a s => a = 0 ∧ WorksFree r 0 s) [0]))
      (On c rest res (.waiting 4 .reply) (fun _ => True) fun d =>
        At Settles none (op.reply x y) d ∧ d.rx = op.reply x y) := by
    refine (exchange (w := .reply) (fun _ _ h => h) (answered hr)).mono (fun s h => ?_)
      fun _ h => h
    exact ⟨h.calls, h.results, h.pc, h.bridge, h.device.core.2, h.device.tx, h.device.down,
      h.device.rx, h.device.up⟩
  obtain ⟨reply, hreply⟩ : ∃ reply : Vector Byte 5, reply.toList = op.reply x y :=
    ⟨⟨(op.reply x y).toArray, by simp [hlen]⟩, by simp⟩
  have hword : replyWord reply = op.eval x y := by
    have hfour : (op.reply x y).take 4 = Words.beBytes 4 (op.eval x y) :=
      List.take_left' (Words.length_beBytes 4 _)
    rw [replyWord_toList, hreply, hfour]
    exact Words.beWord_beBytes 4 _
  have htaken : (session 4).LeadsTo (fun s => s.guest.results = res)
      (On c rest res (.waiting 4 .reply) (fun _ => True) fun d =>
        At Settles none (op.reply x y) d ∧ d.rx = op.reply x y)
      (On c rest res (.loop 4) (fun br => br.state = BitVec.ofNat 32 ((4 : Fin 5) + 1) ∧
        replyWord br.readBuff = op.eval x y) (At Settles none [])) := by
    refine taken steady_settles hlen (fun _ _ h => h) fun s d h hd => ?_
    obtain ⟨br', hbr, hstate, hbuff⟩ := resume_reply s.bridge reply
    rw [← hreply, hbr]
    exact ⟨h.calls, h.results, rfl, ⟨hstate, by rw [hbuff, hword]⟩, hd⟩
  exact hstore.trans (hwait.trans (htaken.trans (loop steady_settles)))

/-- The guest is between two calls, or before the first or after the last. -/
structure Ready (calls : List Call) (res : List Word) (s : Session) : Prop where
  calls : s.guest.calls = calls
  results : s.guest.results = res
  pc : s.guest.pc = .store 0
  device : At Settles none [] s.device

/-- A request for an operation is served with the value of the reference function, and nothing of
it is left over. -/
theorem request_returns (hr : c.request.Asks op x y) (rest : List Call) (res : List Word) :
    (session 4).LeadsTo (fun s => s.guest.results = res) (Ready (c :: rest) res)
      (Ready rest (res ++ [op.eval x y])) := by
  set g0 := (wordBytes c.code).toList with hg0
  set g1 := (wordBytes c.rs1).toList with hg1
  set g2 := (wordBytes c.rs2).toList with hg2
  have hlen0 : g0.length = 4 := by simp [hg0]
  have hlen1 : (g0 ++ g1).length = 8 := by simp [hg0, hg1]
  have hgroup0 : (session 4).LeadsTo (fun s => s.guest.results = res)
      (On c rest res (.store 0) (fun _ => True) (At Settles none []))
      (On c rest res (.store 1) (fun _ => True) (At (Gathers g0) none [])) :=
    group 0 [] steady_settles (steady_gathers (by omega)) (fun _ => rfl) (by decide)
      (fun s h => Or.inr ⟨rfl, rfl, h⟩) (fun s h => h) fun s h => gathers_still h (by omega) true
  have hgroup1 : (session 4).LeadsTo (fun s => s.guest.results = res)
      (On c rest res (.store 1) (fun _ => True) (At (Gathers g0) none []))
      (On c rest res (.store 2) (fun _ => True) (At (Gathers (g0 ++ g1)) none [])) :=
    group 1 g0 (steady_gathers (by omega)) (steady_gathers (by omega))
      (fun _ => rfl) (by omega) (fun s h => Or.inl h) (fun s h => h)
      fun s h => gathers_still h (by omega) true
  have hgroup2 : (session 4).LeadsTo (fun s => s.guest.results = res)
      (On c rest res (.store 2) (fun _ => True) (At (Gathers (g0 ++ g1)) none []))
      (On c rest res (.store 3) (fun _ => True) (At (WorksFree c.request 9) none [])) :=
    group 2 (g0 ++ g1) (steady_gathers (by omega)) (steady_worksFree hr 9)
      (fun _ => rfl) (by omega) (fun s h => Or.inl h) (fun s h => WorksFree.of_gathers h)
      fun s h => worksFree_keep hr true h
  have hcall := hgroup0.trans (hgroup1.trans (hgroup2.trans ((poll hr).trans
    ((read hr).trans (result steady_settles)))))
  refine hcall.mono (fun s h => ⟨h.calls, h.results, h.pc, trivial, h.device⟩) ?_
  rintro s ⟨hcalls, hresults, hpc, hd⟩
  exact ⟨hcalls, hresults, hpc, hd⟩

theorem call_returns (op : Op) (x y rdata : Word) (rest : List Call) (res : List Word) :
    (session 4).LeadsTo (fun s => s.guest.results = res) (Ready (Call.of op x y rdata :: rest) res)
      (Ready rest (res ++ [op.eval x y])) := by
  have hcall := request_returns (Call.request_asks op x y rdata) rest res
  rwa [Call.eval_rs2] at hcall

end OneCall

/-! ### Sequences of calls -/

/-- A call of one of the four functions; SM3 ignores `y`, and `rdata` is what the local happens to
hold. -/
structure Asked where
  op : Op
  x : Word
  y : Word
  rdata : Word
  deriving DecidableEq, Repr

def Asked.call (a : Asked) : Call := Call.of a.op a.x a.y a.rdata

/-- The reference value. -/
def Asked.value (a : Asked) : Word := a.op.eval a.x a.y

/-- The event delivers a byte to the core. -/
def Delivers (s : Session) (e : Event) : Prop :=
  ∃ t, e = .clock t ∧ (s.device.delivery 4 t).isSome = true

section Runs

variable {s : Session} {es : ℕ → Event} {k : Fin 5}

/-- A call returns in the step after `m`. -/
def Returns (tr : ℕ → Session) (m : ℕ) : Prop := (tr (m + 1)).guest.results ≠ (tr m).guest.results

theorem guest_step (e : Event) (h : s.guest.calls = []) : (s.step 4 e).guest = s.guest := by
  cases e with
  | clock t => rfl
  | arrive => rfl
  | host full kept =>
    show (s.hostStep full kept).guest = s.guest
    rw [Session.hostStep, h]

theorem guest_trace (h : s.guest.calls = []) (n : ℕ) :
    ((session 4).trace s es n).guest = s.guest :=
  (session 4).trace_induction (P := fun t => t.guest = s.guest) rfl
    (fun t e ht => (guest_step e (by rw [ht, h])).trans ht) n

/-- Results are never taken back. -/
theorem results_step (e : Event) : s.guest.results <+: (s.step 4 e).guest.results := by
  cases e with
  | clock t => exact List.prefix_refl _
  | arrive => exact List.prefix_refl _
  | host full kept =>
    show s.guest.results <+: (s.hostStep full kept).guest.results
    unfold Session.hostStep
    cases s.guest.calls with
    | nil => exact List.prefix_refl _
    | cons c rest =>
      cases s.guest.pc with
      | store k => exact List.prefix_refl _
      | waiting k w => exact List.prefix_refl _
      | loop k =>
        dsimp only
        split_ifs <;> exact List.prefix_refl _
      | result => exact List.prefix_append _ _

theorem results_trace {n m : ℕ} (h : n ≤ m) :
    ((session 4).trace s es n).guest.results <+: ((session 4).trace s es m).guest.results := by
  induction m, h using Nat.le_induction with
  | base => exact List.prefix_refl _
  | succ m hm ih => exact ih.trans (results_step (es m))

/-- Out of a loop there is one way. -/
theorem loop_step (e : Event) (hpc : s.guest.pc = .loop k) :
    (s.step 4 e).guest.pc = .loop k ∨ (s.step 4 e).guest.pc = .afterLoop k := by
  cases e with
  | clock t => exact Or.inl hpc
  | arrive => exact Or.inl hpc
  | host full kept =>
    show (s.hostStep full kept).guest.pc = _ ∨ (s.hostStep full kept).guest.pc = _
    unfold Session.hostStep
    cases s.guest.calls with
    | nil => exact Or.inl hpc
    | cons c rest =>
      simp only [hpc]
      split_ifs
      · exact Or.inl rfl
      · exact Or.inr rfl

theorem loop_trace {n m : ℕ} (hpc : ((session 4).trace s es n).guest.pc = .loop k) (hnm : n ≤ m)
    (hm : ((session 4).trace s es m).guest.pc ≠ .loop k) :
    ∃ j > n, ((session 4).trace s es j).guest.pc = .afterLoop k ∧
      ∀ i, n ≤ i → i < j → ((session 4).trace s es i).guest.pc = .loop k := by
  classical
  -- the first time after `n` at which the guest is elsewhere
  have hex : ∃ d, ((session 4).trace s es (n + d)).guest.pc ≠ .loop k :=
    ⟨m - n, by rwa [Nat.add_sub_cancel' hnm]⟩
  obtain ⟨d, hd, hmin⟩ : ∃ d, ((session 4).trace s es (n + d)).guest.pc ≠ .loop k ∧
      ∀ i < d, ((session 4).trace s es (n + i)).guest.pc = .loop k :=
    ⟨Nat.find hex, Nat.find_spec hex, fun i hi => not_not.1 (Nat.find_min hex hi)⟩
  cases d with
  | zero => exact absurd hpc hd
  | succ d =>
    refine ⟨n + (d + 1), by omega, ?_, fun i hi hlt => ?_⟩
    · rcases loop_step (es (n + d)) (hmin d (Nat.lt_succ_self d)) with hstay | hleave
      · exact absurd hstay hd
      · exact hleave
    · have := hmin (i - n) (by omega)
      rwa [Nat.add_sub_cancel' hi] at this

/-- From one call to the next, and what the board is left in. -/
theorem serves (calls : List Asked) (res : List Word) (s : Session) (es : ℕ → Event)
    (hfair : (session 4).Fair es) (hs : Ready (calls.map Asked.call) res s) :
    (∃ n, Ready [] (res ++ calls.map Asked.value) ((session 4).trace s es n)) ∧
      ∀ m, Returns ((session 4).trace s es) m →
        At Settles none [] ((session 4).trace s es (m + 1)).device := by
  induction calls generalizing res s es with
  | nil =>
    rw [List.map_nil, List.append_nil]
    refine ⟨⟨0, hs⟩, fun m hm => absurd ?_ hm⟩
    rw [guest_trace hs.calls, guest_trace hs.calls]
  | cons a calls ih =>
    obtain ⟨n, hn, hbefore⟩ := call_returns a.op a.x a.y a.rdata _ res s es hfair hs
    obtain ⟨⟨n', hn'⟩, hreturns⟩ := ih (res ++ [a.value]) _ _ (hfair.shift n) hn
    refine ⟨⟨n + n', ?_⟩, fun m hm => ?_⟩
    · rw [trace_add]
      rwa [List.append_assoc] at hn'
    · rcases Nat.lt_trichotomy (m + 1) n with hlt | rfl | hgt
      · exact absurd ((hbefore (m + 1) hlt).trans (hbefore m (by omega)).symm) hm
      · exact hn.device
      · have hback : m = n + (m - n) := by omega
        have := hreturns (m - n)
        rw [Returns, ← trace_add, ← trace_add, ← hback,
          show n + (m - n + 1) = m + 1 by omega] at this
        exact this hm

/-- The core is at rest, or will be after the next clock, before which no byte can get to it. -/
def Settling (d : Device) : Prop :=
  Gathers [] d.core ∨ (Settles d.core ∧ d.tx = none ∧ (d.down = [] ∨ d.age = 0))

theorem Settling.of_at {d : Device} (h : At Settles none [] d) : Settling d :=
  Or.inr ⟨h.core, h.tx, Or.inl h.down⟩

/-- Writing and reading at the other end. -/
theorem Settling.write {d : Device} (h : Settling d) (bs : List Byte) : Settling (d.write bs) := by
  rcases h with h | ⟨hcore, htx, hline⟩
  · exact Or.inl h
  · refine Or.inr ⟨hcore, htx, Or.inr ?_⟩
    show (if d.down = [] then 0 else d.age) = 0
    rcases hline with hdown | hage
    · rw [if_pos hdown]
    · rw [hage, ite_self]

theorem Settling.flush {d : Device} (h : Settling d) (kept : ℕ) : Settling (d.flush kept) := by
  rcases h with h | ⟨hcore, htx, hline⟩
  · exact Or.inl h
  · refine Or.inr ⟨hcore, htx, hline.imp (fun hdown => ?_) fun hage => hage⟩
    show d.down.take kept = []
    rw [hdown, List.take_nil]

theorem Settling.host (h : Settling s.device) (full : Bool) (kept : ℕ) :
    Settling (s.hostStep full kept).device := by
  unfold Session.hostStep
  cases s.guest.calls with
  | nil => exact h
  | cons c rest =>
    cases s.guest.pc with
    | store k => exact (h.flush kept).write _
    | waiting k w =>
      simp only [Session.transmit]
      split_ifs
      · exact h
      · exact Settling.write (d := s.device.read _) h _
    | loop k =>
      dsimp only
      split_ifs <;> exact h
    | result => exact h

/-- A clock that delivers nothing brings the core to rest; a byte finds it there. -/
theorem Settling.clock (h : Settling s.device) (t : Tick)
    (hnone : s.device.delivery 4 t = none) : Gathers [] (s.device.clock 4 t).core := by
  have hpins : s.device.pins 4 t = still s.device.tx.isSome := by
    rw [Device.pins, hnone]
    rfl
  show Gathers [] (s.device.core.step (s.device.pins 4 t))
  rw [hpins]
  rcases h with h | ⟨hcore, htx, -⟩
  · exact gathers_still h (by decide) _
  · rw [htx]
    exact hcore.still

theorem Settling.delivers {e : Event} (h : Settling s.device) (he : Delivers s e) :
    s.device.core.AtRest := by
  obtain ⟨t, -, hsome⟩ := he
  rcases h with h | ⟨-, -, hline⟩
  · exact h.atRest
  · -- nothing is on the line, or has been there for long enough
    rw [Device.delivery] at hsome
    rcases hline with hdown | hage
    · rw [hdown] at hsome
      split_ifs at hsome <;> cases hsome
    · rw [hage, if_neg fun hd => absurd hd.2 (by decide)] at hsome
      cases hsome

theorem Settling.step (e : Event) (h : Settling s.device) (he : ¬Delivers s e) :
    Settling (s.step 4 e).device := by
  cases e with
  | clock t =>
    have hnone : s.device.delivery 4 t = none := by
      cases hdel : s.device.delivery 4 t with
      | none => rfl
      | some b => exact absurd ⟨t, rfl, by rw [hdel]; rfl⟩ he
    exact Or.inl (h.clock t hnone)
  | arrive => exact h
  | host full kept => exact h.host full kept

theorem settling_trace {m n : ℕ} (hm : Settling ((session 4).trace s es m).device) (h : m ≤ n)
    (hquiet : ∀ j, m ≤ j → j < n → ¬Delivers ((session 4).trace s es j) (es j)) :
    Settling ((session 4).trace s es n).device := by
  induction n, h using Nat.le_induction with
  | base => exact hm
  | succ n hn ih =>
    exact Settling.step (es n) (ih fun j hj hlt => hquiet j hj (by omega))
      (hquiet n hn (Nat.lt_succ_self n))

/-- Sooner or later the core is at rest, before a byte gets to it. -/
theorem settling_rests (hfair : (session 4).Fair es) {m : ℕ}
    (hm : Settling ((session 4).trace s es m).device) :
    ∃ n ≥ m, ((session 4).trace s es n).device.core.AtRest ∧
      ∀ j, m ≤ j → j < n → ¬Delivers ((session 4).trace s es j) (es j) := by
  classical
  by_cases hdel : ∃ d, Delivers ((session 4).trace s es (m + d)) (es (m + d))
  · -- up to the first delivery
    have hquiet : ∀ j, m ≤ j → j < m + Nat.find hdel →
        ¬Delivers ((session 4).trace s es j) (es j) := by
      intro j hj hlt
      have := Nat.find_min hdel (m := j - m) (by omega)
      rwa [Nat.add_sub_cancel' hj] at this
    exact ⟨m + Nat.find hdel, Nat.le_add_right _ _,
      (settling_trace hm (Nat.le_add_right _ _) hquiet).delivers (Nat.find_spec hdel), hquiet⟩
  · -- no byte comes, but a clock
    have hquiet : ∀ j, m ≤ j → ¬Delivers ((session 4).trace s es j) (es j) := by
      intro j hj hd
      exact hdel ⟨j - m, by rwa [Nat.add_sub_cancel' hj]⟩
    obtain ⟨n, hn, hfires⟩ := hfair .raise m
    have hset := settling_trace hm hn fun j hj _ => hquiet j hj
    refine ⟨n + 1, by omega, ?_, fun j hj _ => hquiet j hj⟩
    have hnot := hquiet n hn
    show ((((session 4).trace s es n).step 4 (es n)).device.core).AtRest
    cases he : es n with
    | clock t =>
      have hnone : ((session 4).trace s es n).device.delivery 4 t = none := by
        cases hdel' : ((session 4).trace s es n).device.delivery 4 t with
        | none => rfl
        | some b => exact absurd ⟨t, he, by rw [hdel']; rfl⟩ hnot
      exact (hset.clock t hnone).atRest
    | arrive =>
      rw [he] at hfires
      cases hfires
    | host full kept =>
      rw [he] at hfires
      cases hfires

/-! ### Main result -/

/-- What a run makes of the calls. -/
structure Served (calls : List Asked) (tr : ℕ → Session) (es : ℕ → Event) : Prop where
  /-- all calls return, with the reference values -/
  returns : ∃ n, (tr n).guest.calls = [] ∧ (tr n).guest.results = calls.map Asked.value
  /-- no call ever returns anything else -/
  values : ∀ n, (tr n).guest.results <+: calls.map Asked.value
  /-- every polling loop ends -/
  loops : ∀ n k, (tr n).guest.calls ≠ [] → (tr n).guest.pc = .loop k →
    ∃ m > n, (tr m).guest.pc = .afterLoop k ∧ ∀ j, n ≤ j → j < m → (tr j).guest.pc = .loop k
  /-- after a call the core comes to rest before any byte reaches it -/
  rests : ∀ m, Returns tr m → ∃ n > m, (tr n).device.core.AtRest ∧
    ∀ j, m < j → j < n → ¬Delivers (tr j) (es j)
  /-- and the next byte that reaches it finds it at rest -/
  undisturbed : ∀ m n, Returns tr m → m < n → Delivers (tr n) (es n) →
    (∀ j, m < j → j < n → ¬Delivers (tr j) (es j)) → (tr n).device.core.AtRest

/-- Every sequence of calls is served, whatever the timing, as long as every frame takes at least
four clocks and neither the line nor the host stops. -/
theorem calls_return (calls : List Asked) (es : ℕ → Event) (hfair : (session 4).Fair es) :
    Served calls ((session 4).trace (Session.init (calls.map Asked.call)) es) es := by
  have hcore : Gathers [] Core.reset := ⟨rfl, rfl, Monitor.start, inv_reset, rfl⟩
  have hready : Ready (calls.map Asked.call) [] (Session.init (calls.map Asked.call)) :=
    ⟨rfl, rfl, rfl, Or.inl hcore, rfl, rfl, rfl⟩
  obtain ⟨⟨N, hN⟩, hreturns⟩ := serves calls [] _ es hfair hready
  rw [List.nil_append] at hN
  -- from `N` on, the guest does not change any more
  have hlate : ∀ n ≥ N, ((session 4).trace (Session.init (calls.map Asked.call)) es n).guest =
      ((session 4).trace (Session.init (calls.map Asked.call)) es N).guest := by
    intro n hn
    rw [← Nat.add_sub_cancel' hn, trace_add]
    exact guest_trace hN.calls (n - N)
  refine ⟨⟨N, hN.calls, hN.results⟩, fun n => ?_, fun n k hcalls hpc => ?_, fun m hm => ?_,
    fun m n hm hlt hdel hquiet => ?_⟩
  · rw [← hN.results]
    rcases Nat.le_total n N with h | h
    · exact results_trace h
    · have hsame := congrArg Guest.results (hlate n h)
      exact hsame ▸ List.prefix_refl _
  · rcases Nat.le_total n N with h | h
    · exact loop_trace hpc h (by rw [hN.pc]; exact fun hf => nomatch hf)
    · exact absurd ((congrArg Guest.calls (hlate n h)).trans hN.calls) hcalls
  · obtain ⟨n, hn, hrest, hquiet⟩ := settling_rests hfair (Settling.of_at (hreturns m hm))
    exact ⟨n, by omega, hrest, fun j hj hlt => hquiet j hj hlt⟩
  · exact (settling_trace (Settling.of_at (hreturns m hm)) hlt fun j hj => hquiet j hj).delivers
      hdel

/-- A clock, a byte that arrives, a step of the host, and so on. -/
def inTurn (n : ℕ) : Event :=
  if n % 3 = 0 then .clock ⟨true, true, true⟩ else if n % 3 = 1 then .arrive else .host true 0

theorem fair_inTurn : (session 4).Fair inTurn := by
  intro k n
  cases k with
  | raise | lower | deliver =>
    refine ⟨3 * n, by omega, ?_⟩
    rw [inTurn, if_pos (by omega)]
    rfl
  | arrive =>
    refine ⟨3 * n + 1, by omega, ?_⟩
    rw [inTurn, if_neg (by omega), if_pos (by omega)]
    trivial
  | host =>
    refine ⟨3 * n + 2, by omega, ?_⟩
    rw [inTurn, if_neg (by omega), if_neg (by omega)]
    rfl

theorem calls_return_two :
    Served [⟨.sm3p0, 0x12345678, 0, 0xdeadbeef⟩, ⟨.sm4ed, 1, 2, 3⟩]
      ((session 4).trace (Session.init [Call.custom3Sm3p0 0x12345678 0xdeadbeef,
        Call.custom3Sm4ed 1 2 3]) inTurn) inTurn :=
  calls_return [⟨.sm3p0, 0x12345678, 0, 0xdeadbeef⟩, ⟨.sm4ed, 1, 2, 3⟩] inTurn fair_inTurn

end Runs

end Vcil.System
