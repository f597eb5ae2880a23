import Mathlib.Algebra.Order.Group.Unbundled.Int
import Vcil.Crypto.Software

/-!
# Reading from the serial port

The port is opened without canonical processing and with `VMIN = VTIME = 0`, so a `read()` returns
what is there, nothing, or an error, and the drivers call it in a loop.

* `ReadResult`: what one `read()` returns, and what it stores in the buffer;
* `nread`: the returned count as the unsigned variable of the given width sees it;
* `await`: the loop `while (1) { nread = read(...); if (nread > 0) break; }` of a driver whose
  state after one pass is given by `resume`;
* `Splits`: a sequence of results that delivers a reply in pieces.
-/

namespace Vcil.Host

/-- The bytes one `read()` stores, or `none` when it returns -1. -/
abbrev ReadResult := Option (List Byte)

/-- The value `read()` returns. -/
def ReadResult.count : ReadResult → ℤ
  | none => -1
  | some bs => bs.length

/-- The buffer after the read: its first bytes are overwritten. -/
def ReadResult.store {n : ℕ} (r : ReadResult) (buf : Vector Byte n) : Vector Byte n :=
  Vector.ofFn fun i => (r.getD []).getD i buf[i]

/-- `nread = read(...)` for an unsigned `nread` of `w` bits. -/
def nread (w : ℕ) (r : ReadResult) : BitVec w := BitVec.ofInt w r.count

/-- A driver's read loop over the results `rs`: the state in which it breaks and the results not
yet used, or `none` while it is still waiting. -/
def await {σ : Type} (resume : σ → ReadResult → σ × Bool) (s : σ) :
    List ReadResult → Option (σ × List ReadResult)
  | [] => none
  | r :: rs =>
      match resume s r with
      | (s', true) => some (s', rs)
      | (s', false) => await resume s' rs

/-- The word in the first four bytes of a reply buffer, as the drivers assemble it. -/
def replyWord (buf : Vector Byte 5) : Word :=
  ((buf[0].setWidth 32 <<< 24) &&& 0xff000000) + ((buf[1].setWidth 32 <<< 16) &&& 0x00ff0000) +
    ((buf[2].setWidth 32 <<< 8) &&& 0x0000ff00) + (buf[3].setWidth 32 &&& 0x000000ff)

/-- The cycle count in the last byte of a reply buffer. -/
def replyCycles (buf : Vector Byte 5) : Byte := buf[4]

/-- The first byte of a buffer. -/
def firstByte {n : ℕ} (buf : Vector Byte (n + 1)) : Byte := buf[0]

def setFirstByte {n : ℕ} (buf : Vector Byte (n + 1)) (b : Byte) : Vector Byte (n + 1) := buf.set 0 b

/-- The four bytes of a word from the most significant to the least, as the drivers send them. -/
def wordBytes (x : Word) : Vector Byte 4 :=
  #v[((x >>> 24) &&& 0xff).setWidth 8, ((x >>> 16) &&& 0xff).setWidth 8,
    ((x >>> 8) &&& 0xff).setWidth 8, (x &&& 0xff).setWidth 8]

/-! ### Bytes and words -/

theorem replyWord_eq (b0 b1 b2 b3 b4 : Byte) :
    replyWord #v[b0, b1, b2, b3, b4] = Words.beWord 32 [b0, b1, b2, b3] := by
  have h0 := Words.and_shifted_mask b0 24
  have h1 := Words.and_shifted_mask b1 16
  have h2 := Words.and_shifted_mask b2 8
  have h3 : b3.setWidth 32 &&& 0x000000ff = b3.setWidth 32 <<< 0 := by
    simpa using Words.and_shifted_mask b3 0
  rw [← Words.add_shifted, ← h0, ← h1, ← h2, ← h3]
  rfl

theorem wordBytes_eq (x : Word) : (wordBytes x).toList = Words.beBytes 4 x := by
  have hbyte := Words.shifted_byte (show 8 ≤ 32 by decide) x
  have h0 : (x &&& 0xff).setWidth 8 = x.extractLsb' 0 8 := by simpa using hbyte 0
  simp only [wordBytes, hbyte, h0]
  rfl

/-! ### Read loops -/

/-- The bytes that a sequence of results has delivered. -/
def delivered (rs : List ReadResult) : List Byte := (rs.filterMap id).flatten

/-- The results deliver the reply in pieces of at most five bytes, with any number of empty reads
and errors between them; the rest of the reply may still be on its way. -/
def Splits (reply : Vector Byte 5) (rs : List ReadResult) : Prop :=
  delivered rs <+: reply.toList ∧ ∀ r ∈ rs, r.count ≤ 5

theorem nread_zero (w : ℕ) : nread w (some []) = 0 := by
  simp [nread, ReadResult.count]

/-- An unsigned count of eight bits or more is positive for every result but 0, and also for
-1. -/
theorem nread_pos {w : ℕ} (hw : 8 ≤ w) {r : ReadResult} (hr : r.count ≤ 5) :
    0 < nread w r ↔ r ≠ some [] := by
  have hcount : r ≠ some [] ↔ r.count ≠ 0 := by
    rcases r with _ | _ | ⟨b, bs⟩
    · simp [ReadResult.count]
    · simp [ReadResult.count]
    · simp [ReadResult.count]
      omega
  have hlo : -1 ≤ r.count := by
    cases r <;> simp [ReadResult.count]
  have hpow : (256 : ℤ) ≤ 2 ^ w := by
    exact_mod_cast Nat.pow_le_pow_right (n := 2) (by decide) hw
  have hzero : (0 : BitVec w).toNat = 0 := by simp
  rw [hcount, BitVec.lt_def, nread, BitVec.toNat_ofInt, hzero, Nat.cast_pow, Nat.cast_ofNat]
  constructor
  · intro h h0
    simp [h0] at h
  · intro h
    have hmod : r.count % 2 ^ w ≠ 0 := fun hdvd =>
      h (Int.eq_zero_of_abs_lt_dvd (Int.dvd_of_emod_eq_zero hdvd) (by rw [abs_lt]; omega))
    have hnonneg : 0 ≤ r.count % 2 ^ w := Int.emod_nonneg _ (by omega)
    omega

@[simp] theorem firstByte_setFirstByte {n : ℕ} (buf : Vector Byte (n + 1)) (b : Byte) :
    firstByte (setFirstByte buf b) = b := by
  simp [firstByte, setFirstByte]

@[simp] theorem store_nil {n : ℕ} (buf : Vector Byte n) :
    ReadResult.store (some []) buf = buf := by
  ext i hi
  simp [ReadResult.store]

/-- A read of the whole buffer replaces it. -/
theorem store_toList {n : ℕ} (buf new : Vector Byte n) :
    ReadResult.store (some new.toList) buf = new := by
  ext i hi
  simp [ReadResult.store]

/-- A loop that passes over empty reads breaks at the first other result. -/
theorem await_eq {σ : Type} {resume : σ → ReadResult → σ × Bool} {s : σ} {rs : List ReadResult}
    (hskip : ∀ s, (resume s (some [])).2 = false)
    (hsame : ∀ s r, resume (resume s (some [])).1 r = resume s r)
    (hstop : ∀ s, ∀ r ∈ rs, r ≠ some [] → (resume s r).2 = true) :
    await resume s rs =
      match rs.dropWhile (· = some []) with
      | [] => none
      | r :: rest => some ((resume s r).1, rest) := by
  induction rs generalizing s with
  | nil => rfl
  | cons r rs ih =>
    by_cases hr : r = some []
    · subst hr
      have hpair : resume s (some []) = ((resume s (some [])).1, false) :=
        Prod.ext rfl (hskip s)
      rw [await, hpair, List.dropWhile_cons_of_pos (by simp)]
      simp only [ih fun s r hr => hstop s r (List.mem_cons_of_mem _ hr), hsame]
    · have hpair : resume s r = ((resume s r).1, true) :=
        Prod.ext rfl (hstop s r List.mem_cons_self hr)
      rw [await, List.dropWhile_cons_of_neg (by simpa using hr), hpair]

theorem delivered_append (rs rs' : List ReadResult) :
    delivered (rs ++ rs') = delivered rs ++ delivered rs' := by
  simp [delivered]

/-- What a loop has used when it breaks: empty reads, and one other result. -/
theorem dropWhile_eq_cons {rs rest : List ReadResult} {r : ReadResult}
    (h : rs.dropWhile (· = some []) = r :: rest) :
    ∃ skipped, rs = skipped ++ r :: rest ∧ (∀ x ∈ skipped, x = some []) ∧ r ≠ some [] := by
  induction rs with
  | nil => cases h
  | cons a rs ih =>
    by_cases ha : a = some []
    · subst ha
      rw [List.dropWhile_cons_of_pos (by simp)] at h
      obtain ⟨skipped, rfl, hskipped, hr⟩ := ih h
      refine ⟨some [] :: skipped, rfl, fun x hx => ?_, hr⟩
      rcases List.mem_cons.1 hx with rfl | hx
      · rfl
      · exact hskipped x hx
    · rw [List.dropWhile_cons_of_neg (by simpa using ha)] at h
      obtain ⟨rfl, rfl⟩ := List.cons.inj h
      exact ⟨[], rfl, by simp, ha⟩

theorem delivered_skipped {rs : List ReadResult} (h : ∀ x ∈ rs, x = some []) :
    delivered rs = [] := by
  induction rs with
  | nil => rfl
  | cons r rs ih =>
    have hr : r = some [] := h r List.mem_cons_self
    have hrest : delivered rs = [] := ih fun x hx => h x (List.mem_cons_of_mem r hx)
    rw [← List.singleton_append, delivered_append, hrest, hr]
    rfl

end Vcil.Host
