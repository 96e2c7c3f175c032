import Xv6Rv32im.Vm.Riscv

/-!
# Packet buffers

`mbuf.c`.  An mbuf is a page with a small header and `buf`; `head` is an address in it.
Lengths are unsigned, so `mbuf_pop` never sees a negative one.
-/

namespace Xv6Rv32im.Net

open Vm (PGSIZE)

def MBUF_SIZE : Nat := 2048

def MBUF_DEFAULT_HEADROOM : BitVec 32 := 128

def BUF_OFFSET : Nat := 12

/-- `struct mbuf`, with the number of its page.  The links of a queue are kept by the queue. -/
structure Mbuf where
  page : Nat
  head : Nat
  len : BitVec 32
  deriving DecidableEq

namespace Mbuf

def buf (m : Mbuf) : Nat := m.page * PGSIZE + BUF_OFFSET

/-- What `mbuf_alloc` makes of a page; the caller checks `headroom`. -/
def alloc (page : Nat) (headroom : BitVec 32) : Mbuf :=
  ⟨page, page * PGSIZE + BUF_OFFSET + headroom.toNat, 0⟩

/-- `mbuf_append`: the address of the new data, or a panic. -/
def append (m : Mbuf) (len : BitVec 32) : Option (Nat × Mbuf) :=
  let ret := m.head + m.len.toNat
  let m := { m with len := m.len + len }
  if m.len.toNat > MBUF_SIZE then none else some (ret, m)

def trim (m : Mbuf) (len : BitVec 32) : Option Nat × Mbuf :=
  if len > m.len then (none, m)
  else
    let m := { m with len := m.len - len }
    (some (m.head + m.len.toNat), m)

/-- `mbuf_prepend`, or a panic. -/
def prepend (m : Mbuf) (len : BitVec 32) : Option (Nat × Mbuf) :=
  if (m.head : Int) - len.toNat < m.buf then none
  else some (m.head - len.toNat, { m with head := m.head - len.toNat, len := m.len + len })

def pop (m : Mbuf) (len : BitVec 32) : Option Nat × Mbuf :=
  let ret := m.head
  let m := { m with len := m.len - len }
  if m.len < 0 then (none, m)
  else (some ret, { m with head := m.head + len.toNat })

theorem pop_eq (m : Mbuf) (len : BitVec 32) :
    m.pop len = (some m.head, { m with head := m.head + len.toNat, len := m.len - len }) := by
  have unsigned : ¬m.len - len < 0#32 := BitVec.not_lt_zero
  unfold pop
  exact if_neg unsigned

def Fits (m : Mbuf) : Prop :=
  m.page * PGSIZE ≤ m.head ∧ m.head + m.len.toNat ≤ (m.page + 1) * PGSIZE

instance (m : Mbuf) : Decidable m.Fits :=
  inferInstanceAs (Decidable (_ ∧ _))

end Mbuf

def frame (mem : Nat → BitVec 8) (addr len : Nat) : List (BitVec 8) :=
  (List.range len).map fun i => mem (addr + i)

end Xv6Rv32im.Net
