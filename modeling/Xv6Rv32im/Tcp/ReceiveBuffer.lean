import Xv6Rv32im.Library.Run
import Xv6Rv32im.Tcp.Steps

/-!
# The bound of the receive buffer

The room left in `cb->buf` is `rcv.wnd`; nothing compares the length of an
arriving payload with it.  A payload longer than the window leaves the buffer;
as long as every payload that is copied fits the window, no copy does.
-/

namespace Xv6Rv32im.Tcp

open Library.Run

/-! ## The window of one block -/

namespace TcpCb

def Bounded (cb : TcpCb) : Prop := cb.rcvWnd.toNat ≤ BUF_SIZE

variable {cb : TcpCb}

theorem total_toNat (bounded : cb.Bounded) : cb.total.toNat = BUF_SIZE - cb.rcvWnd.toNat := by
  unfold Bounded BUF_SIZE at *
  unfold total BUF_SIZE
  bv_omega

theorem readLen_le (cb : TcpCb) (size : BitVec 32) : (cb.readLen size).toNat ≤ cb.total.toNat := by
  unfold readLen
  split
  next less => exact le_of_lt less
  · exact le_refl _

/-- A read reopens the window by the number of bytes it returns. -/
theorem drained_rcvWnd (bounded : cb.Bounded) (size : BitVec 32) :
    (cb.drained (cb.readLen size)).rcvWnd.toNat = cb.rcvWnd.toNat + (cb.readLen size).toNat := by
  have taken := readLen_le cb size
  rw [total_toNat bounded] at taken
  unfold Bounded BUF_SIZE at *
  change (cb.rcvWnd + (cb.readLen size).setWidth 16).toNat = _
  generalize cb.readLen size = len at taken
  bv_omega

theorem Bounded.drained (bounded : cb.Bounded) (size : BitVec 32) :
    (cb.drained (cb.readLen size)).Bounded := by
  have taken := readLen_le cb size
  rw [total_toNat bounded] at taken
  unfold Bounded at *
  rw [drained_rcvWnd bounded]
  omega

/-- A payload closes the window by its length. -/
theorem filled_rcvWnd (seq : BitVec 32) (payload : Memory) {plen : BitVec 32}
    (fits : plen.toNat ≤ cb.rcvWnd.toNat) :
    (cb.filled seq payload plen).rcvWnd.toNat = cb.rcvWnd.toNat - plen.toNat := by
  change (cb.rcvWnd - plen.setWidth 16).toNat = _
  bv_omega

end TcpCb

/-! ## Steps -/

section

variable {i : Nat} {hdr : TcpHdr} {payload : Memory} {plen : BitVec 32} {cb cb' : TcpCb}
  {out : List Sent}

theorem Taken.bounded (taken : Taken i hdr payload plen cb cb' out) (bounded : cb.Bounded) :
    cb'.Bounded := by
  cases taken with
  | skipped refused => exact bounded
  | copied nonempty ready window fits taken content =>
    subst content
    have room := TcpCb.filled_rcvWnd (toggleEndian32 hdr.seq) payload fits
    change (cb.filled (toggleEndian32 hdr.seq) payload plen).rcvWnd.toNat ≤ BUF_SIZE
    omega

theorem Ended.rcvWnd (ended : Ended i hdr cb cb' out) : cb'.rcvWnd = cb.rcvWnd := by
  cases ended with
  | more unset => rfl
  | fin set => rfl

theorem Handled.bounded (handled : Handled i hdr payload plen cb cb' out)
    (bounded : cb.Bounded) : cb'.Bounded := by
  cases handled with
  | ignored | reset | unsent | closing => exact bounded
  | synSeen state syn seen content | connected state syn above below opened content =>
    subst content
    exact bounded
  | lastAck inOrder state => exact Nat.zero_le _
  | accepted inOrder acks running acceptable payload fin =>
    have after := payload.bounded bounded
    unfold TcpCb.Bounded at *
    rwa [fin.rcvWnd]
  | late inOrder state fin =>
    unfold TcpCb.Bounded at *
    rwa [fin.rcvWnd]

end

namespace TcpStack

variable {event : Event}

theorem Changed.bounded {s : TcpStack} {i : Nat} {cb : TcpCb} {out : List Sent}
    (changed : Changed s i event cb out) (bounded : (s.cb i).Bounded) : cb.Bounded := by
  cases changed with
  | opened | sent | finSent => exact bounded
  | connecting target used closed port iss opening content segment syn =>
    subst content
    exact le_refl 8192
  | closed | woken => exact Nat.zero_le _
  | read target small => exact bounded.drained _
  | segment found handled => exact handled.bounded bounded

/-- The packet's payload, if it is copied, fits the window of its block. -/
def WithinWindow (s : TcpStack) : Event → Prop
  | .tcpRx packet =>
    s.locked = false → TCP_HDR_SIZE ≤ packet.len.toNat →
    ∀ i ∈ s.findCb packet.srcIp packet.hdr,
      InOrder packet.hdr (s.cb i) → (s.cb i).rxIsReady = true →
      toggleEndian32 packet.hdr.ack ≤ (s.cb i).sndNxt →
      packet.plen.toNat ≤ (s.cb i).rcvWnd.toNat
  | _ => True

instance (s : TcpStack) : DecidablePred s.WithinWindow
  | .tcpRx _ => inferInstanceAs (Decidable (_ → _ → ∀ i ∈ _, _ → _ → _ → _ ≤ _))
  | .tcpOpen .. | .tcpConnect .. | .tcpSend .. | .tcpClose .. | .tcpCloseWake ..
  | .tcpRead .. => isTrue True.intro

structure Buffered (s : TcpStack) : Prop where
  plain : s.Plain
  bounded : ∀ i, (s.cb i).Bounded

theorem buffered_init : Buffered init :=
  ⟨plain_init, fun _ => Nat.zero_le _⟩

theorem Buffered.moved {s t : TcpStack} (buffered : s.Buffered) (moved : Moved s event t) :
    t.Buffered :=
  ⟨moved.plain buffered.plain,
    moved.forall buffered.bounded fun i _ _ changed => changed.bounded (buffered.bounded i)⟩

theorem Buffered.step {s : TcpStack} (buffered : s.Buffered) (within : s.WithinWindow event) :
    ∃ t, s.step event = .ok t ∧ t.Buffered := by
  cases stepped : s.step event with
  | ok t => exact ⟨t, rfl, buffered.moved (step_moved buffered.plain stepped)⟩
  | error fault =>
    exfalso
    obtain ⟨i, large⟩ | ⟨packet, i, rfl, found, unlocked, long, overruns⟩ :=
      step_fault buffered.plain stepped
    · rw [TcpCb.total_toNat (buffered.bounded i)] at large
      omega
    · exact overruns.outside ⟨buffered.bounded i,
        within unlocked long i found overruns.inOrder overruns.ready overruns.acceptable⟩

/-- In every run of calls and packets in which each copied payload fits the
window, no copy leaves a buffer and every window stays within `[0, 8192]`. -/
theorem receive_buffer_bound (events : List Event) (within : Meets step WithinWindow init events) :
    ∃ final, run step init events = .ok final ∧ ∀ i, (final.cb i).rcvWnd.toNat ≤ BUF_SIZE := by
  obtain ⟨final, ran, buffered⟩ :=
    run_total (fun _ _ => Buffered.step) buffered_init within
  exact ⟨final, ran, buffered.bounded⟩

/-- A connection whose peer sends a payload of `plen` bytes in one segment. -/
def oneSegment (plen : Nat) : List Event :=
  handshake ++ [.tcpRx (.make 0x0a000202 80 49152 1001 33614 5 TCP_FLG_ACK plen fun _ => 0)]

theorem receive_buffer_bound_full_window : ∃ final, run step init (oneSegment 8192) = .ok final ∧
      ∀ i, (final.cb i).rcvWnd.toNat ≤ BUF_SIZE :=
  receive_buffer_bound (oneSegment 8192) (by decide +kernel)

/-- One byte more than the window is copied beyond the buffer. -/
theorem payload_beyond_window_overruns : run step init (oneSegment 8193) = .error .bufOverrun := by
  have failed : (run step init (oneSegment 8193)).map (fun _ => ()) = .error .bufOverrun := by
    decide +kernel
  cases ran : run step init (oneSegment 8193) with
  | ok final =>
    rw [ran] at failed
    cases failed
  | error fault =>
    rw [ran] at failed
    cases failed
    rfl

end TcpStack

end Xv6Rv32im.Tcp
