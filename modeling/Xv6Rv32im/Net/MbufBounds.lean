import Xv6Rv32im.Library.Run
import Xv6Rv32im.Net.Mbuf

/-!
# Any sequence of operations on an mbuf

`mbuf.c` with pointers of 32 bits, for lengths of any size.  `mbuf_append` bounds the length and not
the end of the data, and `mbuf_pop` never fails, so the data stay in `buf` only if the callers see
to it.
-/

namespace Xv6Rv32im.Net

open Library.Run BitVec

structure RawMbuf where
  head : BitVec 32
  len : BitVec 32

inductive MbufOp where
  | append (len : BitVec 32)
  | trim (len : BitVec 32)
  | prepend (len : BitVec 32)
  | pop (len : BitVec 32)

inductive MbufPanic where
  | append
  | prepend

namespace RawMbuf

section

variable (buf : BitVec 32) (m : RawMbuf) (len : BitVec 32)

/-- `mbuf_alloc` with a page whose `buf` is at this address; the caller checks `headroom`. -/
def alloc (headroom : BitVec 32) : RawMbuf := ⟨buf + headroom, 0⟩

def append : Except MbufPanic (BitVec 32 × RawMbuf) :=
  let ret := m.head + m.len
  let m := { m with len := m.len + len }
  if m.len.toNat > MBUF_SIZE then .error .append else .ok (ret, m)

def trim : BitVec 32 × RawMbuf :=
  if len > m.len then (0, m)
  else
    let m := { m with len := m.len - len }
    (m.head + m.len, m)

def prepend : Except MbufPanic (BitVec 32 × RawMbuf) :=
  let m := { m with head := m.head - len }
  if m.head < buf then .error .prepend else .ok (m.head, { m with len := m.len + len })

def pop : BitVec 32 × RawMbuf :=
  let ret := m.head
  let m := { m with len := m.len - len }
  if m.len < 0 then (0, m) else (ret, { m with head := m.head + len })

def step : MbufOp → Except MbufPanic RawMbuf
  | .append len => (m.append len).map Prod.snd
  | .trim len => .ok (m.trim len).2
  | .prepend len => (m.prepend buf len).map Prod.snd
  | .pop len => .ok (m.pop len).2

def InBounds : Prop :=
  buf.toNat ≤ m.head.toNat ∧ m.head.toNat + m.len.toNat ≤ buf.toNat + MBUF_SIZE

def Fits : MbufOp → Prop
  | .append len => m.head.toNat + m.len.toNat + len.toNat ≤ buf.toNat + MBUF_SIZE
  | .trim _ => True
  | .prepend len => buf.toNat + len.toNat ≤ m.head.toNat
  | .pop len => len ≤ m.len

/-- The data stay in the buffer, what is longer than the data is refused, and `mbuf_pop` undoes
`mbuf_prepend`. -/
def Behaves (op : MbufOp) : Prop :=
  ∀ m', m.step buf op = .ok m' → m'.InBounds buf ∧ match op with
    | .append _ => True
    | .trim len => m.len < len → m.trim len = (0, m)
    | .prepend len => (m'.pop len).2 = m
    | .pop len => m.len < len → m.pop len = (0, m)

theorem pop_eq : m.pop len = (m.head, ⟨m.head + len, m.len - len⟩) := by
  have unsigned : ¬m.len - len < 0#32 := not_lt_zero
  unfold pop
  exact if_neg unsigned

end

variable {buf : BitVec 32} {m : RawMbuf}

theorem InBounds.behaves (page : buf.toNat + MBUF_SIZE < 2 ^ 32) (bounds : m.InBounds buf)
    {op : MbufOp} (fits : m.Fits buf op) : m.Behaves buf op := by
  obtain ⟨low, high⟩ := bounds
  have end_ : m.head.toNat + m.len.toNat < 2 ^ 32 := Nat.lt_of_le_of_lt high page
  intro m' ran
  cases op with
  | append len =>
    simp only [step, append] at ran
    split at ran
    · cases ran
    cases ran
    refine ⟨⟨low, ?_⟩, True.intro⟩
    have room : m.head.toNat + m.len.toNat + len.toNat ≤ buf.toNat + MBUF_SIZE := fits
    rwa [toNat_add_of_lt (by omega), ← Nat.add_assoc]
  | trim len =>
    cases ran
    unfold trim
    refine ⟨?_, fun long => if_pos long⟩
    split
    · exact ⟨low, high⟩
    next fit =>
      refine ⟨low, ?_⟩
      dsimp only
      rw [BitVec.toNat_sub_of_le (BitVec.not_lt.mp fit)]
      omega
  | prepend len =>
    simp only [step, prepend] at ran
    split at ran
    · cases ran
    cases ran
    have room : buf.toNat + len.toNat ≤ m.head.toNat := fits
    refine ⟨?_, ?_⟩
    · rw [InBounds, toNat_sub_of_le (le_def.mpr (by omega)),
        toNat_add_of_lt (by omega)]
      omega
    · dsimp only
      rw [pop_eq]
      simp
  | pop len =>
    cases ran
    have short := BitVec.le_def.mp fits
    refine ⟨?_, fun long => absurd fits (BitVec.not_le.mpr long)⟩
    rw [pop_eq, InBounds, BitVec.toNat_sub_of_le fits, BitVec.toNat_add_of_lt (by omega)]
    omega

/-- Operations that stay within the buffer and the data behave, after any run of such. -/
theorem mbuf_behaves (headroom : BitVec 32) (page : buf.toNat + MBUF_SIZE < 2 ^ 32)
    (room : headroom.toNat ≤ MBUF_SIZE) (ops : List MbufOp)
    (fits : Meets (step buf) (Fits buf) (alloc buf headroom) ops)
    (ran : run (step buf) (alloc buf headroom) ops = .ok m) :
    m.InBounds buf ∧ ∀ op, m.Fits buf op → m.Behaves buf op := by
  have start : (alloc buf headroom).InBounds buf := by
    rw [InBounds, alloc, toNat_add_of_lt (by omega)]
    exact ⟨Nat.le_add_right _ _, Nat.add_le_add_left room _⟩
  have bounds : m.InBounds buf :=
    run_invariant (fun _ _ m' bounds fits ran => (bounds.behaves page fits m' ran).1) start fits ran
  exact ⟨bounds, fun _ => bounds.behaves page⟩

theorem mbuf_behaves_header : ∃ m, run (step 0x80001000) (alloc 0x80001000 128)
    [.append 28, .prepend 14] = .ok m ∧ m.InBounds 0x80001000 ∧
      ∀ op, m.Fits 0x80001000 op → m.Behaves 0x80001000 op :=
  ⟨_, rfl, mbuf_behaves 128 (by decide) (by decide) [.append 28, .prepend 14]
    ⟨by unfold Fits; decide, fun _ ran => Except.ok.inj ran ▸
      ⟨by unfold Fits; decide, fun _ _ => True.intro⟩⟩ rfl⟩

/-- A pop of one byte from an empty mbuf does not fail, and leaves a length of `2 ^ 32 - 1`. -/
theorem pop_empty_succeeds : (pop (alloc 0x80001000 128) 1).1 = 0x80001080 ∧
    (pop (alloc 0x80001000 128) 1).2.len = 0xffffffff ∧
    ¬(alloc 0x80001000 128).Behaves 0x80001000 (.pop 1) := by
  refine ⟨by decide, by decide, fun behaves => ?_⟩
  have same := (behaves _ rfl).2 (by decide)
  exact absurd (congrArg (·.2.len) same) (by decide)

end RawMbuf

end Xv6Rv32im.Net
