import Xv6Rv32im.Library.Monitor
import Xv6Rv32im.Library.Ring

/-!
# Output to the serial port

`uartputc` puts bytes in a ring and sleeps while it is full; `uartstart`, called from there and
from the interrupt handler, sends them as long as the transmitter is ready.  All of this is
under `uart_tx_lock`.  The bytes that entered the ring and those that were sent are recorded in
their order.
-/

namespace Xv6Rv32im.Uart

open Library Library.Monitor Library.Ring

def UART_TX_BUF_SIZE : Nat := 32

abbrev Byte := BitVec 8

structure Output where
  buf : Nat → Byte
  w : BitVec 32
  r : BitVec 32
  entered : List Byte
  thr : List Byte

namespace Output

/-- At boot. -/
def init : Output := ⟨fun _ => 0, 0, 0, [], []⟩

def Full (u : Output) : Prop := u.w = u.r + BitVec.ofNat 32 UART_TX_BUF_SIZE

instance (u : Output) : Decidable u.Full := inferInstanceAs (Decidable (_ = _))

/-- `uartstart`, and whether it wakes those who sleep on `&uart_tx_r`.  `idle` is what it finds
in `LSR` each time: the transmitter is not ready after the last one. -/
def uartstart (u : Output) : List Bool → Output × Bool
  | true :: idle =>
    if u.w = u.r then (u, false)
    else
      let c := u.buf (slot UART_TX_BUF_SIZE u.r)
      (({ u with r := u.r + 1, thr := u.thr ++ [c] }.uartstart idle).1, true)
  | _ => (u, false)

/-- `uart_tx_buf[uart_tx_w % UART_TX_BUF_SIZE] = c; uart_tx_w += 1`. -/
def put (u : Output) (c : Byte) : Output :=
  { u with
    buf := Function.update u.buf (slot UART_TX_BUF_SIZE u.w) c
    w := u.w + 1
    entered := u.entered ++ [c] }

/-- `uartputc` with the lock held, until it sleeps or returns. -/
def uartputc (c : Byte) (idle : List Bool) (u : Output) : Piece Output Byte :=
  if u.Full then ⟨u, false, some c⟩
  else
    let (u, wakes) := (u.put c).uartstart idle
    ⟨u, wakes, none⟩

/-- The ring holds what has entered it and was not sent. -/
def Fifo (u : Output) : Prop :=
  ∃ values, Holds UART_TX_BUF_SIZE u.buf u.r u.w values ∧ u.entered = u.thr ++ values

variable {u : Output}

theorem Fifo.put (fifo : u.Fifo) (room : ¬u.Full) (c : Byte) : (u.put c).Fifo := by
  obtain ⟨values, holds, order⟩ := fifo
  have fits : values.length < UART_TX_BUF_SIZE :=
    Nat.lt_of_le_of_ne holds.fits fun full => room ((holds.full_iff (by decide)).mpr full)
  refine ⟨values ++ [c], holds.push (by decide) (by decide) fits c, ?_⟩
  simp [Output.put, order]

theorem Fifo.uartstart (fifo : u.Fifo) (idle : List Bool) : (u.uartstart idle).1.Fifo := by
  induction idle generalizing u with
  | nil => exact fifo
  | cons ready idle ih =>
    cases ready with
    | false => exact fifo
    | true =>
      obtain ⟨values, holds, order⟩ := fifo
      simp only [Output.uartstart]
      split_ifs with empty
      · exact ⟨values, holds, order⟩
      · cases values with
        | nil => exact absurd (holds.empty_iff.mpr rfl).symm empty
        | cons first rest =>
          obtain ⟨here, later⟩ := holds.pop (by decide)
          refine ih ⟨rest, later, ?_⟩
          simp [order, here]

theorem uartstart_sends (u : Output) (idle : List Bool) :
    (u.uartstart idle).1.entered = u.entered ∧ u.thr <+: (u.uartstart idle).1.thr := by
  induction idle generalizing u with
  | nil => exact ⟨rfl, List.prefix_refl _⟩
  | cons ready idle ih =>
    cases ready with
    | false => exact ⟨rfl, List.prefix_refl _⟩
    | true =>
      simp only [uartstart]
      split_ifs
      · exact ⟨rfl, List.prefix_refl _⟩
      · have sent := ih { u with r := u.r + 1, thr := u.thr ++ [u.buf (slot UART_TX_BUF_SIZE u.r)] }
        exact ⟨sent.1, (List.prefix_append ..).trans sent.2⟩

/-- Whatever `uartstart` sends makes room and wakes those asleep. -/
theorem uartstart_quiet {idle : List Bool} (quiet : (u.uartstart idle).2 = false) :
    (u.uartstart idle).1 = u := by
  unfold uartstart at quiet ⊢
  split at quiet
  · split_ifs at quiet ⊢
    rfl
  · rfl

/-- The calls of `uartputc` and the part of `uartintr` that sends. -/
def ops : Ops Nat Output Byte (List Bool) (List Bool) where
  serve _ := uartputc
  handle idle u := u.uartstart idle

theorem rules : Rules ops (fun _ _ => True) Fifo Full where
  serve _ c idle u fifo := by
    simp only [ops, uartputc]
    split_ifs with full
    · exact fifo
    · exact (fifo.put full c).uartstart idle
  handle idle u fifo _ := fifo.uartstart idle
  sleeps _ c idle u _ sleeps := by
    simp only [ops, uartputc] at sleeps ⊢
    split_ifs at sleeps ⊢ with full
    · exact full
    · exact absurd rfl sleeps
  served _ c idle u _ full _ := by
    simp only [ops, uartputc, if_pos full]
    exact full
  handled idle u _ full quiet := (uartstart_quiet quiet).symm ▸ full

/-- For any number of callers of `uartputc`, in any interleaving with interrupts and whenever
the transmitter is ready, though the counters run over: the ring never holds more bytes than it
has room for, the bytes sent are the first of those that entered it, in their order, a call enters
its byte unless the ring is full, a ready transmitter sends unless it is empty, and a process sleeps
only while the ring is full. -/
theorem output_in_order (events : List (Event Nat Byte (List Bool) (List Bool))) :
    let s := State.run ops init events
    (s.data.w - s.data.r).toNat ≤ UART_TX_BUF_SIZE ∧ s.data.thr <+: s.data.entered ∧
      s.data.entered.length = s.data.thr.length + (s.data.w - s.data.r).toNat ∧
      (∀ c idle, ¬s.data.Full → (uartputc c idle s.data).data.entered = s.data.entered ++ [c]) ∧
      (∀ idle, s.data.w ≠ s.data.r →
        s.data.thr.length < (s.data.uartstart (true :: idle)).1.thr.length) ∧
      ∀ p c, s.callers p = .asleep c → s.data.Full := by
  have keeps := run_keeps rules (show init.Fifo from ⟨[], Holds.nil _ _ _, rfl⟩)
    fun _ _ _ (_ : events = _) => True.intro
  obtain ⟨values, holds, order⟩ := keeps.data
  dsimp only
  rw [holds.length]
  refine ⟨holds.fits, ⟨values, order.symm⟩, by rw [order, List.length_append],
    fun c idle room => ?_, fun idle bytes => ?_, keeps.asleep⟩
  · simp only [uartputc, if_neg room]
    exact (uartstart_sends _ idle).1
  · simp only [uartstart, if_neg bytes]
    refine lt_of_lt_of_le ?_ (uartstart_sends _ idle).2.length_le
    simp

/-- Two bytes enter the ring; the transmitter takes the first at once and the other later. -/
theorem output_in_order_two :
    let s := State.run ops init [.call 0 7 [true], .call 1 8 [], .handle [true, true]]
    s.data.thr = [7, 8] ∧ s.data.thr <+: s.data.entered :=
  ⟨by decide, (output_in_order _).2.1⟩

end Output

end Xv6Rv32im.Uart
