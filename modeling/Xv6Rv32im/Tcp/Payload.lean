import Xv6Rv32im.Tcp.ReceiveBuffer

/-!
# Payload extraction and header options

`tcp_rx` takes the option bytes off the length before `tcp_incoming_event` takes
off the whole header, so a segment with options loses as many payload bytes as
its options have.
-/

namespace Xv6Rv32im.Tcp

open Library.Run

def Packet.dataOffset (packet : Packet) : Nat := (packet.hdr.off >>> 4).toNat

theorem TcpHdr.hlen_toNat (packet : Packet) : packet.hdr.hlen.toNat = 4 * packet.dataOffset := by
  unfold TcpHdr.hlen Packet.dataOffset
  generalize packet.hdr.off >>> 4 = offset
  bv_omega

section

variable (packet : Packet) (fixed : 5 ≤ packet.dataOffset)
    (whole : 4 * packet.dataOffset ≤ packet.len.toNat)

include packet fixed whole

/-- The computed payload length lacks the option bytes a second time. -/
theorem Packet.plen_eq : packet.plen = BitVec.ofNat 32 (packet.len.toNat - 4 * packet.dataOffset) -
      BitVec.ofNat 32 (4 * packet.dataOffset - TCP_HDR_SIZE) := by
  unfold Packet.plen TcpHdr.hlen TCP_HDR_SIZE
  unfold Packet.dataOffset at *
  generalize packet.hdr.off >>> 4 = offset at *
  bv_omega

theorem Packet.plen_eq_iff :
    packet.plen = BitVec.ofNat 32 (packet.len.toNat - 4 * packet.dataOffset) ↔
      packet.dataOffset = 5 := by
  rw [packet.plen_eq fixed whole, TCP_HDR_SIZE]
  have small : packet.dataOffset < 256 := BitVec.isLt _
  generalize packet.dataOffset = d at *
  constructor
  · intro same
    bv_omega
  · rintro rfl
    bv_omega

end

section

variable {i : Nat} {hdr : TcpHdr} {payload : Memory} {plen : BitVec 32} {cb cb' : TcpCb}
  {out : List Sent}

section

variable (taken : Taken i hdr payload plen cb cb' out) (ready : cb.rxIsReady = true)

include taken ready

/-- In the states that take data, `rcv.nxt` advances by the computed length. -/
theorem Taken.rcvNxt (seq : toggleEndian32 hdr.seq = cb.rcvNxt) :
    cb'.rcvNxt = cb.rcvNxt + plen := by
  cases taken with
  | skipped refused =>
    obtain rfl | unready := refused
    · simp
    · simp [ready] at unready
  | copied nonempty ready window fits taken content =>
    subst content
    exact congrArg (· + plen) seq

/-- In the states that take data, the payload lies behind the bytes in the buffer. -/
theorem Taken.buf (k : Nat) : cb'.buf k =
      if BUF_SIZE - cb.rcvWnd.toNat ≤ k ∧ k < BUF_SIZE - cb.rcvWnd.toNat + plen.toNat then
        payload (k - (BUF_SIZE - cb.rcvWnd.toNat))
      else cb.buf k := by
  cases taken with
  | skipped refused =>
    obtain rfl | unready := refused
    · rw [if_neg (fun lt => absurd lt.2 (not_lt.mpr lt.1))]
    · simp [ready] at unready
  | copied nonempty ready window fits taken content =>
    subst content
    rfl

theorem Taken.rcvWnd : cb'.rcvWnd.toNat = cb.rcvWnd.toNat - plen.toNat := by
  cases taken with
  | skipped refused =>
    obtain rfl | unready := refused
    · rfl
    · simp [ready] at unready
  | copied nonempty ready window fits taken content =>
    subst content
    exact TcpCb.filled_rcvWnd (toggleEndian32 hdr.seq) payload fits

end

theorem Ended.rcvNxt (ended : Ended i hdr cb cb' out) :
    cb'.rcvNxt = cb.rcvNxt + if flgIsSet hdr.flg TCP_FLG_FIN then 1 else 0 := by
  cases ended with
  | more unset => simp [unset]
  | fin set =>
    rw [if_pos set]
    rfl

theorem Ended.buf (ended : Ended i hdr cb cb' out) : cb'.buf = cb.buf := by
  cases ended with
  | more unset => rfl
  | fin set => rfl

end

namespace TcpStack

variable {s : TcpStack} {i : Nat} {packet : Packet}

section

variable (found : s.findCb packet.srcIp packet.hdr = some i)
    (unlocked : s.locked = false) (long : TCP_HDR_SIZE ≤ packet.len.toNat)
    (state : (s.cb i).state = .established) (inOrder : InOrder packet.hdr (s.cb i))
    (acceptable : toggleEndian32 packet.hdr.ack ≤ (s.cb i).sndNxt)

include found unlocked long state inOrder acceptable

/-- What is left of `tcp_rx` for an in-order segment of an established connection. -/
theorem tcpRx_established : s.tcpRx packet =
      ((s.put i ((s.cb i).acked (toggleEndian32 packet.hdr.ack)) []).eventPayload i packet.hdr
        packet.payload packet.plen).map (·.eventFin i packet.hdr) := by
  have selected : s.selectCb packet (loadTcpHdr packet.data) = some (i, s) := by
    unfold selectCb
    rw [show s.findCb packet.srcIp (loadTcpHdr packet.data) = some i from found]
  have acked : s.eventAck i (toggleEndian32 (loadTcpHdr packet.data).ack) =
      .ok (s.put i ((s.cb i).acked (toggleEndian32 packet.hdr.ack)) [], true) := by
    change s.eventAck i (toggleEndian32 packet.hdr.ack) = _
    rw [eventAck_of_acks _ (by rw [state]; rfl), ackSynchronized_of_le acceptable, state]
    rfl
  have seq : toggleEndian32 (loadTcpHdr packet.data).seq = (s.cb i).rcvNxt := inOrder.seq
  have clean : flgIsSet (loadTcpHdr packet.data).flg (TCP_FLG_RST ||| TCP_FLG_SYN) = false :=
    inOrder.clean
  have ack : flgIsSet (loadTcpHdr packet.data).flg TCP_FLG_ACK = true := inOrder.ack
  unfold tcpRx
  rw [if_neg (not_lt.mpr long), if_neg (by rw [unlocked]; nofun), selected]
  simp only [tcpIncomingEvent, state, seq, clean, ack, acked, ne_eq, not_true_eq_false,
    Bool.not_true, Bool.false_eq_true, if_false]
  rfl

/-- The packet's bytes behind its header were appended to the buffer, and
`rcv.nxt` advanced by their number and the FIN. -/
structure Delivers (s t : TcpStack) (i : Nat) (packet : Packet) : Prop where
  appended : ∀ k < packet.len.toNat - 4 * packet.dataOffset,
    (t.cb i).buf (BUF_SIZE - (s.cb i).rcvWnd.toNat + k) = packet.data (4 * packet.dataOffset + k)
  kept : ∀ k < BUF_SIZE - (s.cb i).rcvWnd.toNat, (t.cb i).buf k = (s.cb i).buf k
  window : (t.cb i).rcvWnd.toNat =
    (s.cb i).rcvWnd.toNat - (packet.len.toNat - 4 * packet.dataOffset)
  advanced : (t.cb i).rcvNxt = (s.cb i).rcvNxt +
    BitVec.ofNat 32 (packet.len.toNat - 4 * packet.dataOffset) +
      if flgIsSet packet.hdr.flg TCP_FLG_FIN then 1 else 0

/-- The packet of an established connection after which the payload and the FIN
remain to be processed either delivers or faults. -/
theorem tcpRx_established_outcome :
    (∃ taken ended out out', s.tcpRx packet = .ok (s.put i ended (out ++ out')) ∧
      Taken i packet.hdr packet.payload packet.plen
        ((s.cb i).acked (toggleEndian32 packet.hdr.ack)) taken out ∧
      Ended i packet.hdr taken ended out') ∨
    (s.tcpRx packet = .error .bufOverrun ∧ ¬((s.cb i).rcvWnd.toNat ≤ BUF_SIZE ∧
      packet.plen.toNat ≤ (s.cb i).rcvWnd.toNat)) := by
  rw [tcpRx_established found unlocked long state inOrder acceptable]
  have after := eventPayload_eventFin
    (s.put i ((s.cb i).acked (toggleEndian32 packet.hdr.ack)) []) i packet.hdr packet.payload
    packet.plen
  simp only [put_cb_self, put_put, List.nil_append] at after
  obtain ⟨taken, ended, out, out', ran, payload, fin⟩ | ⟨failed, -, -, outside⟩ := after
  · exact .inl ⟨taken, ended, out, out', ran, payload, fin⟩
  · exact .inr ⟨failed, outside⟩

end

theorem acked_rxIsReady {cb : TcpCb} (ack : BitVec 32) (state : cb.state = .established) :
    (cb.acked ack).rxIsReady = true := by
  rw [rxIsReady_acked ack (by rw [state]; rfl) (by rw [state]; nofun)]
  simp [TcpCb.rxIsReady, state]

theorem delivers_of_dataOffset (found : s.findCb packet.srcIp packet.hdr = some i)
    (unlocked : s.locked = false) (plain : packet.dataOffset = 5)
    (whole : 4 * packet.dataOffset ≤ packet.len.toNat) (state : (s.cb i).state = .established)
    (inOrder : InOrder packet.hdr (s.cb i))
    (acceptable : toggleEndian32 packet.hdr.ack ≤ (s.cb i).sndNxt)
    (window : (s.cb i).rcvWnd.toNat ≤ BUF_SIZE)
    (fits : packet.len.toNat - 4 * packet.dataOffset ≤ (s.cb i).rcvWnd.toNat) :
    ∃ t, s.tcpRx packet = .ok t ∧ Delivers s t i packet := by
  have long : TCP_HDR_SIZE ≤ packet.len.toNat := by
    unfold TCP_HDR_SIZE
    omega
  have plen := (packet.plen_eq_iff (le_of_eq plain.symm) whole).mpr plain
  have length : packet.plen.toNat = packet.len.toNat - 4 * packet.dataOffset := by
    rw [plen]
    exact Nat.mod_eq_of_lt (by omega)
  obtain ⟨taken, ended, out, out', ran, payload, fin⟩ | ⟨-, outside⟩ :=
    tcpRx_established_outcome found unlocked long state inOrder acceptable
  · refine ⟨_, ran, ?_⟩
    have ready := acked_rxIsReady (toggleEndian32 packet.hdr.ack) state
    have advanced := payload.rcvNxt ready inOrder.seq
    have contents (k : Nat) := (congrFun fin.buf k).trans (payload.buf ready k)
    change ∀ k, ended.buf k = if BUF_SIZE - (s.cb i).rcvWnd.toNat ≤ k ∧
      k < BUF_SIZE - (s.cb i).rcvWnd.toNat + packet.plen.toNat then
        packet.payload (k - (BUF_SIZE - (s.cb i).rcvWnd.toNat)) else (s.cb i).buf k at contents
    constructor
    all_goals rw [put_cb_self]
    · intro k lt
      rw [contents, if_pos ⟨Nat.le_add_right .., by omega⟩, Nat.add_sub_cancel_left,
        Packet.payload, TcpHdr.hlen_toNat]
    · intro k pre
      rw [contents, if_neg (fun lt => absurd lt.1 (not_le.mpr pre))]
    · rw [fin.rcvWnd, payload.rcvWnd ready, length]
      rfl
    · rw [fin.rcvNxt, advanced, plen]
      rfl
  · exact absurd ⟨window, by omega⟩ outside

/-- An in-order segment of an established connection that fits the window is
delivered exactly if it carries no options. -/
theorem delivers_iff_no_options (s : TcpStack) (i : Nat) (packet : Packet)
    (found : s.findCb packet.srcIp packet.hdr = some i) (unlocked : s.locked = false)
    (fixed : 5 ≤ packet.dataOffset)
    (whole : 4 * packet.dataOffset ≤ packet.len.toNat)
    (state : (s.cb i).state = .established) (inOrder : InOrder packet.hdr (s.cb i))
    (acceptable : toggleEndian32 packet.hdr.ack ≤ (s.cb i).sndNxt)
    (window : (s.cb i).rcvWnd.toNat ≤ BUF_SIZE)
    (fits : packet.len.toNat - 4 * packet.dataOffset ≤ (s.cb i).rcvWnd.toNat) :
    (∃ t, s.tcpRx packet = .ok t ∧ Delivers s t i packet) ↔ packet.dataOffset = 5 := by
  constructor
  · rintro ⟨t, received, delivers⟩
    have long : TCP_HDR_SIZE ≤ packet.len.toNat := by
      unfold TCP_HDR_SIZE
      omega
    obtain ⟨taken, ended, out, out', ran, payload, fin⟩ | ⟨failed, -⟩ :=
      tcpRx_established_outcome found unlocked long state inOrder acceptable
    · cases ran.symm.trans received
      have ready := acked_rxIsReady (toggleEndian32 packet.hdr.ack) state
      have advanced := delivers.advanced
      rw [put_cb_self, fin.rcvNxt, payload.rcvNxt ready inOrder.seq] at advanced
      exact (packet.plen_eq_iff fixed whole).mp (add_left_cancel (add_right_cancel advanced))
    · cases failed.symm.trans received
  · intro plain
    exact delivers_of_dataOffset found unlocked plain whole state inOrder acceptable window fits

/-- A table whose first block is connected to port 80 of 10.0.2.2. -/
def connected : TcpStack :=
  init.setCb 0 { TcpCb.zero with
    used := true
    state := .established
    port := toggleEndian16 49152
    peerAddr := toggleEndian32 0x0a000202
    peerPort := toggleEndian16 80
    sndNxt := 33614
    rcvNxt := 1001
    rcvWnd := BitVec.ofNat 16 BUF_SIZE }

/-- A segment with ten bytes of payload and the given data offset. -/
def tenBytes (offset : Nat) : Packet :=
  .make 0x0a000202 80 49152 1001 33614 offset TCP_FLG_ACK 10 fun _ => 7

theorem delivers_iff_no_options_ten_bytes :
    (∃ t, connected.tcpRx (tenBytes 5) = .ok t ∧ Delivers connected t 0 (tenBytes 5)) ↔
      (tenBytes 5).dataOffset = 5 :=
  delivers_iff_no_options connected 0 (tenBytes 5) (by decide +kernel) rfl (by decide +kernel)
    (by decide +kernel) rfl (by decide +kernel) (by decide +kernel) (by decide +kernel)
    (by decide +kernel)

/-- With one word of options four of the ten bytes are lost: `rcv.nxt` advances
from 1001 by 6. -/
theorem options_lose_payload : (run step init (handshake ++ [.tcpRx (tenBytes 6)])).map
      (fun t => ((t.cb 0).rcvNxt, (t.cb 0).rcvWnd, (List.range 10).map (t.cb 0).buf)) =
      .ok (1007, 8186, [7, 7, 7, 7, 7, 7, 0, 0, 0, 0]) := by
  decide +kernel

end TcpStack

end Xv6Rv32im.Tcp
