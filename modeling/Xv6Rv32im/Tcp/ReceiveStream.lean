import Xv6Rv32im.Tcp.CloseStates
import Xv6Rv32im.Tcp.Payload

/-!
# The stream that `tcp_read` returns

A peer sends slices of one byte stream, in any order and any number of times,
within the windows it was told.  The bytes accepted so far are those returned by
`tcp_read` followed by the contents of the buffer; both are slices of the stream,
and `rcv.nxt` and `rcv.wnd` count them.
-/

namespace Xv6Rv32im.Tcp

open Library.Run List Packet

/-! ## One connection observed -/

/-- The TCP layer together with what happened on one connection: the bytes that
`tcp_read` returned, the number of payload bytes accepted and of FINs taken. -/
structure Session where
  stack : TcpStack
  bytes : List (BitVec 8)
  accepted : Nat
  fins : Nat

namespace TcpStack

/-- The packet is block `i`'s and passes every check up to the payload. -/
def Accepts (s : TcpStack) (i : Nat) (packet : Packet) : Prop :=
  s.locked = false ∧ TCP_HDR_SIZE ≤ packet.len.toNat ∧
    s.findCb packet.srcIp packet.hdr = some i ∧ InOrder packet.hdr (s.cb i) ∧
    toggleEndian32 packet.hdr.ack ≤ (s.cb i).sndNxt ∧
    (s.cb i).state.acks = true ∧ (s.cb i).state ≠ .closing

instance (s : TcpStack) (i : Nat) (packet : Packet) : Decidable (s.Accepts i packet) :=
  inferInstanceAs (Decidable (_ ∧ _))

/-- The number of payload bytes that the packet adds to block `i`. -/
def acceptedBytes (s : TcpStack) (i : Nat) (packet : Packet) : Nat :=
  if s.Accepts i packet ∧ (s.cb i).rxIsReady = true then packet.plen.toNat else 0

def takenFins (s : TcpStack) (i : Nat) (packet : Packet) : Nat :=
  if s.Accepts i packet ∧ flgIsSet packet.hdr.flg TCP_FLG_FIN = true then 1 else 0

end TcpStack

/-- The bytes that a call of `tcp_read` on `soc` returned from block `i`. -/
def returnedBytes (i : Nat) (soc : Int) : ReadResult → List (BitVec 8)
  | .bytes data => if TcpStack.socket soc = some i then data else []
  | _ => []

namespace Session

/-- A step of the TCP layer, observed at block `i`. -/
def step (i : Nat) (session : Session) : Event → Except Fault Session
  | .tcpRead soc size copied => do
      let (result, stack) ← session.stack.tcpRead soc size copied
      return { session with stack, bytes := session.bytes ++ returnedBytes i soc result }
  | .tcpRx packet => do
      let stack ← session.stack.tcpRx packet
      return { session with
        stack
        accepted := session.accepted + session.stack.acceptedBytes i packet
        fins := session.fins + session.stack.takenFins i packet }
  | event => do
      let stack ← session.stack.step event
      return { session with stack }

end Session

/-! ## The peer -/

/-- The position in the stream of the packet's first payload byte. -/
def Packet.position (packet : Packet) (irs : BitVec 32) : Nat :=
  (toggleEndian32 packet.hdr.seq - (irs + 1)).toNat

/-- The right edge of the window that a segment of ours announces, as a position
in the peer's stream. -/
def Sent.edge (segment : Sent) (irs : BitVec 32) : Nat :=
  (segment.ack - (irs + 1)).toNat + segment.win.toNat

/-- A packet of a peer that starts at `irs` and sends the stream: it carries no
options, a SYN is at `irs`, and otherwise the payload is a slice of the stream,
within the window announced by some segment, and a FIN ends the stream. -/
structure Honest (stream : List (BitVec 8)) (irs : BitVec 32) (announced : List Sent)
    (packet : Packet) : Prop where
  options : packet.dataOffset = 5
  syn : flgIsSet packet.hdr.flg TCP_FLG_SYN = true → toggleEndian32 packet.hdr.seq = irs
  slice : flgIsSet packet.hdr.flg TCP_FLG_SYN = false →
    ∀ k < packet.len.toNat - 20, stream[packet.position irs + k]? = some (packet.data (20 + k))
  window : flgIsSet packet.hdr.flg TCP_FLG_SYN = false → 20 < packet.len.toNat →
    ∃ segment ∈ announced, flgIsSet segment.flg TCP_FLG_ACK = true ∧
      packet.position irs + (packet.len.toNat - 20) ≤ segment.edge irs
  fin : flgIsSet packet.hdr.flg TCP_FLG_SYN = false → flgIsSet packet.hdr.flg TCP_FLG_FIN = true →
    packet.position irs + (packet.len.toNat - 20) = stream.length

instance (stream : List (BitVec 8)) (irs : BitVec 32) (announced : List Sent)
    (packet : Packet) : Decidable (Honest stream irs announced packet) :=
  decidable_of_iff (_ ∧ _ ∧ _ ∧ _ ∧ _)
    ⟨fun ⟨options, syn, slice, window, fin⟩ => ⟨options, syn, slice, window, fin⟩,
      fun ⟨options, syn, slice, window, fin⟩ => ⟨options, syn, slice, window, fin⟩⟩

theorem syn_unset {flg : BitVec 8} (clean : flgIsSet flg (TCP_FLG_RST ||| TCP_FLG_SYN) = false) :
    flgIsSet flg TCP_FLG_SYN = false := by
  revert flg
  decide +kernel

/-! ## One block -/

section

variable (stream : List (BitVec 8)) (irs : BitVec 32)

/-- A connection that has received the peer's SYN: `accepted` bytes of the stream
are accepted, `bytes` of them returned and the others are in the buffer. -/
structure Streaming (bytes : List (BitVec 8)) (accepted fins : Nat) (cb : TcpCb) : Prop where
  origin : cb.irs = irs
  nxt : cb.rcvNxt = irs + 1 + BitVec.ofNat 32 accepted + BitVec.ofNat 32 fins
  sofar : accepted ≤ stream.length
  returned : bytes <+: stream
  read : bytes.length ≤ accepted
  window : cb.rcvWnd.toNat + (accepted - bytes.length) = BUF_SIZE
  buffer : ∀ k < accepted - bytes.length, stream[bytes.length + k]? = some (cb.buf k)
  phase : cb.state = .established ∧ fins = 0 ∨
    cb.state = .closeWait ∧ fins = 1 ∧ accepted = stream.length

structure Waiting (bytes : List (BitVec 8)) (accepted fins : Nat) (cb : TcpCb) : Prop where
  state : cb.state = .synSent
  window : cb.rcvWnd.toNat = BUF_SIZE
  bytes : bytes = []
  accepted : accepted = 0
  fins : fins = 0

/-- The segment announces `rcv.nxt` and the window of the block. -/
def Announces (cb : TcpCb) (segment : Sent) : Prop :=
  segment.ack = cb.rcvNxt ∧ segment.win = cb.rcvWnd

end

variable {stream : List (BitVec 8)} {irs : BitVec 32} {bytes : List (BitVec 8)}
  {accepted fins : Nat} {i : Nat} {cb cb' : TcpCb} {out : List Sent}

/-- The fields of a block that describe the receiving direction. -/
structure TcpCb.SameReceive (cb cb' : TcpCb) : Prop where
  irs : cb'.irs = cb.irs
  nxt : cb'.rcvNxt = cb.rcvNxt
  wnd : cb'.rcvWnd = cb.rcvWnd
  buf : cb'.buf = cb.buf
  state : cb'.state = cb.state

section

variable (streaming : Streaming stream irs bytes accepted fins cb)

include streaming

theorem Streaming.congr (same : cb.SameReceive cb') :
    Streaming stream irs bytes accepted fins cb' where
  origin := same.irs.trans streaming.origin
  nxt := same.nxt.trans streaming.nxt
  sofar := streaming.sofar
  returned := streaming.returned
  read := streaming.read
  window := by rw [same.wnd]; exact streaming.window
  buffer := by rw [same.buf]; exact streaming.buffer
  phase := by rw [same.state]; exact streaming.phase

theorem Streaming.position : (cb.rcvNxt - (irs + 1)).toNat = (accepted + fins) % 2 ^ 32 := by
  have position : cb.rcvNxt - (irs + 1) = BitVec.ofNat 32 (accepted + fins) := by
    rw [streaming.nxt, BitVec.ofNat_add, add_assoc _, add_sub_cancel_left]
  rw [position]
  rfl

/-- The window that a segment announces ends at most a buffer beyond the bytes read. -/
theorem Streaming.edge_le {segment : Sent} (announces : Announces cb segment) :
    segment.edge irs ≤ BUF_SIZE + bytes.length + fins := by
  have window := streaming.window
  have read := streaming.read
  have ahead := streaming.position
  unfold Sent.edge
  rw [announces.1, announces.2]
  omega

end

theorem Packet.plen_toNat {packet : Packet} (options : packet.dataOffset = 5)
    (long : TCP_HDR_SIZE ≤ packet.len.toNat) : packet.plen.toNat = packet.len.toNat - 20 := by
  have whole : 4 * packet.dataOffset ≤ packet.len.toNat := by
    unfold TCP_HDR_SIZE at long
    omega
  rw [(packet.plen_eq_iff (le_of_eq options.symm) whole).mpr options, options]
  exact Nat.mod_eq_of_lt (by omega)

theorem Packet.payload_eq {packet : Packet} (options : packet.dataOffset = 5) (k : Nat) :
    packet.payload k = packet.data (20 + k) := by
  rw [payload, TcpHdr.hlen_toNat, options]

section

variable {packet : Packet} {announced : List Sent}

/-- An in-order packet of an honest peer starts at the first byte not accepted. -/
theorem Streaming.packet_position (streaming : Streaming stream irs bytes accepted fins cb)
    (inOrder : InOrder packet.hdr cb) : packet.position irs = (accepted + fins) % 2 ^ 32 := by
  rw [Packet.position, inOrder.seq]
  exact streaming.position

theorem Streaming.ready_iff (streaming : Streaming stream irs bytes accepted fins cb) :
    cb.rxIsReady = true ↔ cb.state = .established ∧ fins = 0 := by
  obtain ⟨state, rfl⟩ | ⟨state, rfl, -⟩ := streaming.phase
  · simp [TcpCb.rxIsReady, state]
  · simp [TcpCb.rxIsReady, state]

section

variable (short : stream.length < 2 ^ 32) (streaming : Streaming stream irs bytes accepted fins cb)
    (honest : Honest stream irs announced packet) (inOrder : InOrder packet.hdr cb)

include short streaming honest inOrder

/-- A payload that is copied fits the window: it was announced. -/
theorem Streaming.fits (bounds : ∀ segment ∈ announced, flgIsSet segment.flg TCP_FLG_ACK = true →
      segment.edge irs ≤ BUF_SIZE + bytes.length + fins) (long : TCP_HDR_SIZE ≤ packet.len.toNat)
    (ready : cb.rxIsReady = true) : packet.plen.toNat ≤ cb.rcvWnd.toNat := by
  obtain ⟨-, rfl⟩ := streaming.ready_iff.mp ready
  have position := streaming.packet_position inOrder
  have sofar := streaming.sofar
  have window := streaming.window
  have read := streaming.read
  rw [plen_toNat honest.options long]
  by_cases empty : 20 < packet.len.toNat
  · obtain ⟨segment, mem, ack, lt⟩ := honest.window (syn_unset inOrder.clean) empty
    have edge := bounds segment mem ack
    rw [position, add_zero, Nat.mod_eq_of_lt (by omega)] at lt
    omega
  · omega

theorem Streaming.taken (long : TCP_HDR_SIZE ≤ packet.len.toNat)
    (taken : Taken i packet.hdr packet.payload packet.plen cb cb' out) :
    Streaming stream irs bytes
        (accepted + if cb.rxIsReady = true then packet.plen.toNat else 0) fins cb' ∧
      ∀ segment ∈ out, Announces cb' segment := by
  have length := plen_toNat honest.options long
  cases taken with
  | skipped refused =>
    have none_taken : (if cb.rxIsReady = true then packet.plen.toNat else 0) = 0 := by
      obtain empty | unready := refused
      · simp [empty]
      · simp [unready]
    rw [none_taken]
    exact ⟨streaming, nofun⟩
  | copied nonempty ready window fits taken content =>
    obtain ⟨state, rfl⟩ := streaming.ready_iff.mp ready
    have position := streaming.packet_position inOrder
    rw [add_zero, Nat.mod_eq_of_lt (lt_of_le_of_lt streaming.sofar short)] at position
    have slice := honest.slice (syn_unset inOrder.clean)
    rw [position, ← length] at slice
    have read := streaming.read
    have room := streaming.window
    rw [if_pos ready]
    subst content
    refine ⟨⟨streaming.origin, ?_, ?_, streaming.returned, by omega, ?_, ?_, .inl ⟨state, rfl⟩⟩, ?_⟩
    · change toggleEndian32 packet.hdr.seq + packet.plen = _
      rw [inOrder.seq, streaming.nxt]
      simp [BitVec.ofNat_add, add_assoc]
    · -- The last byte of the payload is a byte of the stream.
      have pos : 0 < packet.plen.toNat := Nat.pos_of_ne_zero fun zero =>
        nonempty (BitVec.eq_of_toNat_eq zero)
      have last := slice (packet.plen.toNat - 1) (by omega)
      have lt := (List.getElem?_eq_some_iff.mp last).1
      omega
    · have closed := TcpCb.filled_rcvWnd (toggleEndian32 packet.hdr.seq) packet.payload fits
      change (cb.filled (toggleEndian32 packet.hdr.seq) packet.payload
        packet.plen).rcvWnd.toNat + _ = _
      omega
    · intro k lt
      change _ = some (if BUF_SIZE - cb.rcvWnd.toNat ≤ k ∧
        k < BUF_SIZE - cb.rcvWnd.toNat + packet.plen.toNat then
          packet.payload (k - (BUF_SIZE - cb.rcvWnd.toNat)) else cb.buf k)
      by_cases old : k < accepted - bytes.length
      · rw [if_neg (by omega)]
        exact streaming.buffer k old
      rw [if_pos (by omega), payload_eq honest.options,
        ← slice _ (by omega)]
      congr 1
      omega
    · intro segment sent
      rw [mem_singleton.mp sent]
      exact ⟨rfl, rfl⟩

end

/-- The block after the FIN flag of a packet whose payload ends at the bytes
accepted. -/
theorem Streaming.ended (streaming : Streaming stream irs bytes accepted fins cb)
    (complete : flgIsSet packet.hdr.flg TCP_FLG_FIN = true →
      cb.state = .established ∧ fins = 0 ∧ accepted = stream.length)
    (ended : Ended i packet.hdr cb cb' out) :
    Streaming stream irs bytes accepted
        (fins + if flgIsSet packet.hdr.flg TCP_FLG_FIN = true then 1 else 0) cb' ∧
      ∀ segment ∈ out, Announces cb' segment := by
  cases ended with
  | more unset =>
    rw [if_neg (by simp [unset])]
    exact ⟨streaming, nofun⟩
  | fin set =>
    obtain ⟨state, rfl, all⟩ := complete set
    rw [if_pos set]
    refine ⟨⟨streaming.origin, ?_, streaming.sofar, streaming.returned, streaming.read,
      streaming.window, streaming.buffer, .inr ⟨?_, rfl, all⟩⟩, ?_⟩
    · change cb.rcvNxt + 1 = _
      rw [streaming.nxt]
      simp
    · change TcpStack.finState cb.state = _
      rw [state]
      rfl
    · intro segment sent
      rw [mem_singleton.mp sent]
      exact ⟨rfl, rfl⟩

theorem Streaming.acked (streaming : Streaming stream irs bytes accepted fins cb)
    (ack : BitVec 32) : Streaming stream irs bytes accepted fins (cb.acked ack) := by
  refine streaming.congr ⟨rfl, rfl, rfl, rfl, TcpCb.acked_state ack ?_ ?_⟩
  all_goals
    obtain ⟨state, -⟩ | ⟨state, -⟩ := streaming.phase
    all_goals
      rw [state]
      nofun

end

namespace TcpStack

variable {s : TcpStack} {packet : Packet} {announced : List Sent}

theorem acceptedBytes_of_not (refused : ¬s.Accepts i packet) : s.acceptedBytes i packet = 0 :=
  if_neg fun both => refused both.1

theorem takenFins_of_not (refused : ¬s.Accepts i packet) : s.takenFins i packet = 0 :=
  if_neg fun both => refused both.1

/-- The segments among `out` that carry an ACK announce windows up to `limit`. -/
def EdgesWithin (irs : BitVec 32) (limit : Nat) (out : List Sent) : Prop :=
  ∀ segment ∈ out, flgIsSet segment.flg TCP_FLG_ACK = true → segment.edge irs ≤ limit

theorem EdgesWithin.mono {limit limit' : Nat} (within : EdgesWithin irs limit out)
    (le : limit ≤ limit') : EdgesWithin irs limit' out :=
  fun segment mem ack => le_trans (within segment mem ack) le

theorem EdgesWithin.append {limit : Nat} {out' : List Sent} (first : EdgesWithin irs limit out)
    (second : EdgesWithin irs limit out') : EdgesWithin irs limit (out ++ out') := by
  intro segment mem
  exact (mem_append.mp mem).elim (first segment) (second segment)

theorem edgesWithin_of_announces (streaming : Streaming stream irs bytes accepted fins cb)
    (announces : ∀ segment ∈ out, Announces cb segment) :
    EdgesWithin irs (BUF_SIZE + bytes.length + fins) out :=
  fun segment mem _ => streaming.edge_le (announces segment mem)

/-- A packet of an honest peer keeps the connection at its stream. -/
theorem streaming_handled (short : stream.length < 2 ^ 32)
    (streaming : Streaming stream irs bytes accepted fins (s.cb i))
    (found : s.findCb packet.srcIp packet.hdr = some i) (unlocked : s.locked = false)
    (long : TCP_HDR_SIZE ≤ packet.len.toNat) (honest : Honest stream irs announced packet)
    (handled : Handled i packet.hdr packet.payload packet.plen (s.cb i) cb out) :
    Streaming stream irs bytes (accepted + s.acceptedBytes i packet)
        (fins + s.takenFins i packet) cb ∧
      EdgesWithin irs (BUF_SIZE + bytes.length + (fins + s.takenFins i packet)) out := by
  have quiet (refused : ¬s.Accepts i packet) {cb} {out}
      (same : (s.cb i).SameReceive cb) (announces : ∀ segment ∈ out, Announces cb segment) :
      Streaming stream irs bytes (accepted + s.acceptedBytes i packet)
          (fins + s.takenFins i packet) cb ∧
        EdgesWithin irs (BUF_SIZE + bytes.length + (fins + s.takenFins i packet)) out := by
    rw [acceptedBytes_of_not refused, takenFins_of_not refused]
    have kept := streaming.congr same
    exact ⟨kept, edgesWithin_of_announces kept announces⟩
  have state := streaming.phase
  cases handled with
  | ignored idle =>
    refine quiet (fun accepts => ?_) ⟨rfl, rfl, rfl, rfl, rfl⟩ nofun
    obtain (closed | waiting) | late := idle
    · simp [closed] at state
    · simp [waiting] at state
    · exact late accepts.2.2.2.1
  | reset unsynchronized segment source flg =>
    obtain closed | waiting := unsynchronized <;> simp_all
  | synSeen waiting | connected waiting => simp [waiting] at state
  | unsent inOrder acks unsent =>
    refine quiet (fun accepts => ?_) ⟨rfl, rfl, rfl, rfl, rfl⟩ ?_
    · exact absurd accepts.2.2.2.2.1 (BitVec.not_le.mpr unsent)
    · intro segment sent
      rw [mem_singleton.mp sent]
      exact ⟨rfl, rfl⟩
  | closing inOrder closing | lastAck inOrder closing | late inOrder closing =>
    simp [closing] at state
  | accepted inOrder acks running acceptable payload fin =>
    have accepts : s.Accepts i packet :=
      ⟨unlocked, long, found, inOrder, acceptable, acks, running⟩
    have ready := rxIsReady_acked (toggleEndian32 packet.hdr.ack) acks running
    have sameOrder : InOrder packet.hdr ((s.cb i).acked (toggleEndian32 packet.hdr.ack)) :=
      ⟨inOrder.seq, inOrder.clean, inOrder.ack⟩
    have bytesTaken : s.acceptedBytes i packet =
        if ((s.cb i).acked (toggleEndian32 packet.hdr.ack)).rxIsReady = true then
          packet.plen.toNat else 0 := by
      simp [acceptedBytes, accepts, ready]
    have finTaken : s.takenFins i packet =
        if flgIsSet packet.hdr.flg TCP_FLG_FIN = true then 1 else 0 := by
      simp [takenFins, accepts]
    rw [bytesTaken, finTaken]
    have acked := streaming.acked (toggleEndian32 packet.hdr.ack)
    obtain ⟨filled, announcesPayload⟩ := acked.taken short honest sameOrder long payload
    obtain ⟨ended, announcesFin⟩ := filled.ended (fun set => by
      have position := acked.packet_position sameOrder
      have last := honest.fin (syn_unset sameOrder.clean) set
      have sofar := acked.sofar
      have bound := packet.len.isLt
      obtain ⟨now, rfl⟩ | ⟨-, rfl, all⟩ := acked.phase
      · rw [if_pos (acked.ready_iff.mpr ⟨now, rfl⟩), plen_toNat honest.options long]
        exact ⟨payload.state.trans now, rfl, by omega⟩
      · -- After the FIN an in-order packet lies behind the stream.
        omega) fin
    exact ⟨ended, EdgesWithin.append
      ((edgesWithin_of_announces filled announcesPayload).mono (by omega))
      (edgesWithin_of_announces ended announcesFin)⟩

/-- A packet of an honest peer leaves a connection waiting or opens it. -/
theorem waiting_handled (waiting : Waiting bytes accepted fins (s.cb i))
    (honest : Honest stream irs announced packet)
    (handled : Handled i packet.hdr packet.payload packet.plen (s.cb i) cb out) :
    s.acceptedBytes i packet = 0 ∧ s.takenFins i packet = 0 ∧
      (Waiting bytes accepted fins cb ∨ Streaming stream irs bytes accepted fins cb) ∧
      EdgesWithin irs (BUF_SIZE + bytes.length + fins) out := by
  have refused : ¬s.Accepts i packet := by
    rintro ⟨-, -, -, -, -, acks, -⟩
    simp [waiting.state, TcpState.acks] at acks
  refine ⟨acceptedBytes_of_not refused, takenFins_of_not refused, ?_⟩
  have state := waiting.state
  obtain ⟨-, window, rfl, rfl, rfl⟩ := waiting
  -- The first window announced is the whole buffer, from the start of the stream.
  have first {segment} (ack : segment.ack = toggleEndian32 packet.hdr.seq + 1)
      (win : segment.win = (s.cb i).rcvWnd)
      (syn : flgIsSet packet.hdr.flg TCP_FLG_SYN = true) :
      EdgesWithin irs (BUF_SIZE + ([] : List (BitVec 8)).length + 0) [segment] := by
    intro sent mem _
    rw [mem_singleton.mp mem, Sent.edge, ack, win, honest.syn syn, sub_self, window]
    exact le_rfl
  cases handled with
  | ignored idle => exact ⟨.inl ⟨state, window, rfl, rfl, rfl⟩, by simp [EdgesWithin]⟩
  | reset unsynchronized segment source flg =>
    refine ⟨.inl ⟨state, window, rfl, rfl, rfl⟩, fun sent mem ack => ?_⟩
    rw [mem_singleton.mp mem, flg] at ack
    exact absurd ack (by decide)
  | synSeen waiting syn seen content segment answer =>
    subst content answer
    exact ⟨.inl ⟨state, window, rfl, rfl, rfl⟩, first rfl rfl syn⟩
  | connected waiting syn above below opened content =>
    subst content
    refine ⟨.inr ⟨honest.syn syn, ?_, Nat.zero_le _, nil_prefix, le_rfl, window,
      by simp, .inl ⟨rfl, rfl⟩⟩, first rfl rfl syn⟩
    change toggleEndian32 packet.hdr.seq + 1 = _
    rw [honest.syn syn]
    simp
  | unsent inOrder acks | accepted inOrder acks => simp [state, TcpState.acks] at acks
  | closing inOrder closing | lastAck inOrder closing | late inOrder closing =>
    simp [state] at closing

end TcpStack

/-! ## Reads -/

theorem Streaming.drained (streaming : Streaming stream irs bytes accepted fins cb)
    (size : BitVec 32) :
    Streaming stream irs (bytes ++ (List.range (cb.readLen size).toNat).map cb.buf) accepted fins
      (cb.drained (cb.readLen size)) := by
  have window := streaming.window
  have read := streaming.read
  have bounded : cb.Bounded := by
    unfold TcpCb.Bounded
    omega
  have total := TcpCb.total_toNat bounded
  have taken := cb.readLen_le size
  have grown := TcpCb.drained_rcvWnd bounded size
  have rest : (cb.total - cb.readLen size).toNat = cb.total.toNat - (cb.readLen size).toNat :=
    BitVec.toNat_sub_of_le taken
  generalize cb.readLen size = len at *
  have length : (bytes ++ (List.range len.toNat).map cb.buf).length = bytes.length + len.toNat := by
    simp
  refine ⟨streaming.origin, streaming.nxt, streaming.sofar, ?_, by omega, ?_, ?_, streaming.phase⟩
  · -- The bytes returned are the next bytes of the stream.
    rw [prefix_iff_getElem?]
    intro k lt
    by_cases old : k < bytes.length
    · rw [getElem_append_left old]
      exact prefix_iff_getElem?.mp streaming.returned k old
    have next := streaming.buffer (k - bytes.length) (by omega)
    rw [Nat.add_sub_of_le (Nat.le_of_not_lt old)] at next
    rw [next]
    simp [getElem_append_right (Nat.le_of_not_lt old)]
  · rw [length]
    omega
  · intro k lt
    rw [length] at lt ⊢
    have shifted := streaming.buffer (k + len.toNat) (by omega)
    simp only [TcpCb.drained]
    rw [if_pos (by omega), ← shifted, add_assoc, add_comm k]

theorem Waiting.drained (waiting : Waiting bytes accepted fins cb) (size : BitVec 32) :
    (List.range (cb.readLen size).toNat).map cb.buf = [] ∧
      Waiting bytes accepted fins (cb.drained (cb.readLen size)) := by
  have window := waiting.window
  have bounded : cb.Bounded := le_of_eq window
  have total := TcpCb.total_toNat bounded
  have taken := cb.readLen_le size
  have grown := TcpCb.drained_rcvWnd bounded size
  have nothing : (cb.readLen size).toNat = 0 := by omega
  generalize cb.readLen size = len at *
  have same : Waiting bytes accepted fins (cb.drained len) := by
    constructor
    · exact waiting.state
    · omega
    · exact waiting.bytes
    · exact waiting.accepted
    · exact waiting.fins
  rw [nothing]
  exact ⟨rfl, same⟩

/-! ## Runs -/

namespace Session

/-- The segments of block `i` since the first `before` segments. -/
def announced (session : Session) (i before : Nat) : List Sent :=
  (session.stack.sent.drop before).filter fun segment => segment.soc == i

/-- The packets for block `i` are those of an honest peer, other packets fit the
windows of their blocks, and nobody closes block `i`. -/
def Allowed (stream : List (BitVec 8)) (irs : BitVec 32) (i before : Nat) (session : Session) :
    Event → Prop
  | .tcpRx packet =>
    (session.stack.findCb packet.srcIp packet.hdr = some i →
      Honest stream irs (session.announced i before) packet) ∧
    (session.stack.findCb packet.srcIp packet.hdr ≠ some i →
      session.stack.WithinWindow (.tcpRx packet))
  | .tcpClose soc => TcpStack.socket soc ≠ some i
  | .tcpCloseWake j => j ≠ i
  | _ => True

instance (stream : List (BitVec 8)) (irs : BitVec 32) (i before : Nat) (session : Session) :
    DecidablePred (session.Allowed stream irs i before)
  | .tcpRx _ => inferInstanceAs (Decidable (_ ∧ _))
  | .tcpClose _ | .tcpCloseWake _ => inferInstanceAs (Decidable (_ ≠ _))
  | .tcpOpen .. | .tcpConnect .. | .tcpSend .. | .tcpRead .. => isTrue True.intro

/-- The connection of block `i` is at some point of its stream. -/
structure Tracks (stream : List (BitVec 8)) (irs : BitVec 32) (i before : Nat)
    (session : Session) : Prop where
  buffered : session.stack.Buffered
  block : Waiting session.bytes session.accepted session.fins (session.stack.cb i) ∨
    Streaming stream irs session.bytes session.accepted session.fins (session.stack.cb i)
  edges : TcpStack.EdgesWithin irs (BUF_SIZE + session.bytes.length + session.fins)
    (session.announced i before)

variable {session : Session} {pre : Nat} {event : Event} {next : Session}

theorem Tracks.within (short : stream.length < 2 ^ 32) (tracks : session.Tracks stream irs i pre)
    (allowed : session.Allowed stream irs i pre event) : session.stack.WithinWindow event := by
  cases event with
  | tcpRx packet =>
    by_cases ours : session.stack.findCb packet.srcIp packet.hdr = some i
    · intro unlocked long j found inOrder ready acceptable
      obtain rfl : i = j := Option.some.inj (ours.symm.trans found)
      obtain waiting | streaming := tracks.block
      · simp [TcpCb.rxIsReady, waiting.state] at ready
      · exact streaming.fits short (allowed.1 ours) inOrder tracks.edges long ready
    · exact allowed.2 ours
  | tcpOpen | tcpConnect | tcpSend | tcpClose | tcpCloseWake | tcpRead => exact True.intro

/-- A step that sends the segments `out` announces at most those. -/
theorem announced_of_sent (sent : next.stack.sent = session.stack.sent ++ out) {segment : Sent}
    (mem : segment ∈ next.announced i pre) :
    segment ∈ session.announced i pre ∨ segment ∈ out ∧ segment.soc = i := by
  simp only [announced, sent, drop_append, filter_append, mem_append,
    mem_filter, beq_iff_eq] at mem ⊢
  obtain earlier | ⟨new, ours⟩ := mem
  · exact .inl earlier
  · exact .inr ⟨mem_of_mem_drop new, ours⟩

section

variable (tracks : session.Tracks stream irs i pre)

include tracks

/-- The windows announced stay behind a limit that only grows. -/
theorem Tracks.edges_of_sent (sent : next.stack.sent = session.stack.sent ++ out)
    (grows : session.bytes.length + session.fins ≤ next.bytes.length + next.fins)
    (within : TcpStack.EdgesWithin irs (BUF_SIZE + next.bytes.length + next.fins)
      (out.filter fun segment => segment.soc == i)) :
    TcpStack.EdgesWithin irs (BUF_SIZE + next.bytes.length + next.fins) (next.announced i pre) := by
  intro segment mem ack
  obtain earlier | ⟨new, ours⟩ := announced_of_sent sent mem
  · have edge := tracks.edges segment earlier ack
    omega
  · exact within segment (mem_filter.mpr ⟨new, beq_iff_eq.mpr ours⟩) ack

theorem Tracks.other (buffered : next.stack.Buffered) (block : next.stack.cb i = session.stack.cb i)
    (sent : next.stack.sent = session.stack.sent ++ out) (others : ∀ segment ∈ out, segment.soc ≠ i)
    (bytes : next.bytes = session.bytes) (accepted : next.accepted = session.accepted)
    (fins : next.fins = session.fins) : next.Tracks stream irs i pre where
  buffered := buffered
  block := by
    rw [block, bytes, accepted, fins]
    exact tracks.block
  edges := by
    refine tracks.edges_of_sent sent (by rw [bytes, fins]) ?_
    intro segment mem
    obtain ⟨mem, ours⟩ := mem_filter.mp mem
    exact absurd (beq_iff_eq.mp ours) (others segment mem)

variable {t : TcpStack}

/-- A step that leaves the receiving side of block `i` alone and announces it. -/
theorem Tracks.quiet (buffered : t.Buffered) (same : (session.stack.cb i).SameReceive (t.cb i))
    (sent : t.sent = session.stack.sent ++ out)
    (announces : Streaming stream irs session.bytes session.accepted session.fins
      (session.stack.cb i) → ∀ segment ∈ out, Announces (session.stack.cb i) segment)
    (silent : (session.stack.cb i).state = .synSent → out = []) :
    { session with stack := t }.Tracks stream irs i pre := by
  obtain waiting | streaming := tracks.block
  · refine ⟨buffered, .inl ⟨same.state.trans waiting.state, ?_, waiting.bytes, waiting.accepted,
      waiting.fins⟩, tracks.edges_of_sent sent le_rfl ?_⟩
    · rw [same.wnd]
      exact waiting.window
    · rw [silent waiting.state]
      nofun
  · refine ⟨buffered, .inr (streaming.congr same), tracks.edges_of_sent sent le_rfl ?_⟩
    intro segment mem _
    exact streaming.edge_le (announces streaming segment (mem_filter.mp mem).1)

theorem Tracks.call (allowed : session.Allowed stream irs i pre event) (buffered : t.Buffered)
    (moved : TcpStack.Moved session.stack event t) (rx : ∀ packet, event ≠ .tcpRx packet)
    (read : ∀ soc size copied, event ≠ .tcpRead soc size copied) :
    { session with stack := t }.Tracks stream irs i pre := by
  cases moved with
  | nothing blocks sent =>
    exact tracks.other buffered (congrFun blocks i) (sent.trans (append_nil _).symm) nofun
      rfl rfl rfl
  | block j changed blocks sent =>
    by_cases ours : j = i
    · subst ours
      have block : t.cb j = _ := (congrFun blocks j).trans (Function.update_self ..)
      cases changed with
      | opened unused =>
        refine tracks.quiet buffered ?_ sent (fun _ => nofun) fun _ => rfl
        rw [block]
        exact ⟨rfl, rfl, rfl, rfl, rfl⟩
      | connecting target used closed port iss opening content segment syn =>
        obtain waiting | streaming := tracks.block
        · simp [waiting.state] at closed
        · obtain ⟨state, -⟩ | ⟨state, -⟩ := streaming.phase
          all_goals simp [state] at closed
      | sent target ready segment content =>
        refine tracks.quiet buffered ?_ sent ?_ ?_
        · rw [block]
          exact ⟨rfl, rfl, rfl, rfl, rfl⟩
        · intro _ segment mem
          rw [mem_singleton.mp mem, content]
          exact ⟨rfl, rfl⟩
        · intro waiting
          simp [TcpCb.txIsReady, waiting] at ready
      | finSent target | closed target => exact absurd target allowed
      | woken => exact absurd rfl allowed
      | read target bounded => exact absurd rfl (read _ _ _)
      | segment found handled => exact absurd rfl (rx _)
    · refine tracks.other buffered ?_ sent ?_ rfl rfl rfl
      · exact (congrFun blocks i).trans (Function.update_of_ne (Ne.symm ours) ..)
      · intro segment mem source
        exact ours ((changed.soc segment mem).symm.trans source)

end

theorem Tracks.packet (short : stream.length < 2 ^ 32) {packet : Packet}
    (tracks : session.Tracks stream irs i pre)
    (allowed : session.Allowed stream irs i pre (.tcpRx packet)) (buffered : t.Buffered)
    (stepped : session.stack.tcpRx packet = .ok t) :
    (Session.mk t session.bytes (session.accepted + session.stack.acceptedBytes i packet)
      (session.fins + session.stack.takenFins i packet)).Tracks stream irs i pre := by
  have refused (not : ¬session.stack.Accepts i packet) {out}
      (block : t.cb i = session.stack.cb i) (sent : t.sent = session.stack.sent ++ out)
      (others : ∀ segment ∈ out, segment.soc ≠ i) :
      (Session.mk t session.bytes (session.accepted + session.stack.acceptedBytes i packet)
        (session.fins + session.stack.takenFins i packet)).Tracks stream irs i pre := by
    rw [TcpStack.acceptedBytes_of_not not, TcpStack.takenFins_of_not not]
    exact tracks.other buffered block sent others rfl rfl rfl
  obtain ⟨ran, dropped⟩ | ⟨j, found, unlocked, long, ⟨cb, out, ran, handled⟩ | ⟨ran, -⟩⟩ :=
    TcpStack.tcpRx_spec tracks.buffered.plain packet
  · cases ran.symm.trans stepped
    refine refused (fun accepts => ?_) rfl (append_nil _).symm nofun
    obtain shortPacket | locked | lost := dropped
    · exact absurd accepts.2.1 (not_le.mpr shortPacket)
    · simp [accepts.1] at locked
    · simp [accepts.2.2.1] at lost
  · cases ran.symm.trans stepped
    by_cases ours : j = i
    · subst ours
      have honest := allowed.1 found
      obtain waiting | streaming := tracks.block
      · obtain ⟨noBytes, noFins, block, edges⟩ := TcpStack.waiting_handled waiting honest handled
        rw [noBytes, noFins]
        refine ⟨buffered, ?_, tracks.edges_of_sent rfl le_rfl ?_⟩
        · rw [TcpStack.put_cb_self]
          exact block
        · exact fun segment mem => edges segment (mem_filter.mp mem).1
      obtain ⟨block, edges⟩ :=
        TcpStack.streaming_handled short streaming found unlocked long honest handled
      refine ⟨buffered, .inr ?_, tracks.edges_of_sent rfl ?_ ?_⟩
      · rw [TcpStack.put_cb_self]
        exact block
      · dsimp only
        omega
      · exact fun segment mem => edges segment (mem_filter.mp mem).1
    · refine refused (fun accepts => ours ?_) (TcpStack.put_cb_of_ne _ _ (Ne.symm ours)) rfl ?_
      · exact Option.some.inj (found.symm.trans accepts.2.2.1)
      · intro segment mem source
        exact ours ((handled.soc segment mem).symm.trans source)
  · cases ran.symm.trans stepped

theorem Tracks.readCall {soc : Int} {size : BitVec 32} {copied : Bool} {result : ReadResult}
    (tracks : session.Tracks stream irs i pre) (buffered : t.Buffered)
    (stepped : session.stack.tcpRead soc size copied = .ok (result, t)) :
    { session with
      stack := t
      bytes := session.bytes ++ returnedBytes i soc result }.Tracks stream irs i pre := by
  obtain ⟨result', t', ran, blocks, sent, nothing⟩ | ⟨j, target, -, -, ran⟩ | ⟨j, -, ran⟩ :=
    TcpStack.tcpRead_spec session.stack soc size copied
  · cases ran.symm.trans stepped
    have none_returned : returnedBytes i soc result = [] := by
      obtain rfl | rfl | rfl := nothing
      all_goals simp [returnedBytes]
    rw [none_returned, append_nil]
    exact tracks.other buffered (congrFun blocks i) (sent.trans (append_nil _).symm) nofun
        rfl rfl rfl
  · cases ran.symm.trans stepped
    by_cases ours : j = i
    · subst ours
      simp only [returnedBytes, target, if_true]
      obtain waiting | streaming := tracks.block
      · obtain ⟨nothing, block⟩ := waiting.drained size
        rw [nothing, append_nil]
        refine ⟨buffered, .inl ?_, tracks.edges_of_sent rfl le_rfl nofun⟩
        rw [TcpStack.put_cb_self]
        exact block
      · refine ⟨buffered, .inr ?_, tracks.edges_of_sent rfl ?_ nofun⟩
        · rw [TcpStack.put_cb_self]
          exact streaming.drained size
        · simp
    · have other : TcpStack.socket soc ≠ some i := fun same =>
        ours (Option.some.inj (target.symm.trans same))
      simp only [returnedBytes, if_neg other, append_nil]
      exact tracks.other buffered (TcpStack.put_cb_of_ne _ _ (Ne.symm ours)) rfl nofun rfl rfl rfl
  · cases ran.symm.trans stepped

/-- Every allowed step of the TCP layer goes through and keeps the connection at
its stream. -/
theorem Tracks.step (short : stream.length < 2 ^ 32) (tracks : session.Tracks stream irs i pre)
    (allowed : session.Allowed stream irs i pre event) :
    ∃ next, session.step i event = .ok next ∧ next.Tracks stream irs i pre := by
  obtain ⟨t, stepped, buffered⟩ := tracks.buffered.step (tracks.within short allowed)
  have moved := TcpStack.step_moved tracks.buffered.plain stepped
  cases event with
  | tcpRx packet =>
    rw [TcpStack.step] at stepped
    refine ⟨_, ?_, tracks.packet short allowed buffered stepped⟩
    rw [Session.step, stepped]
    rfl
  | tcpRead soc size copied =>
    rw [TcpStack.step] at stepped
    cases ran : session.stack.tcpRead soc size copied with
    | error fault =>
      rw [ran] at stepped
      cases stepped
    | ok pair =>
      obtain ⟨result, u⟩ := pair
      rw [ran] at stepped
      cases stepped
      refine ⟨_, ?_, tracks.readCall buffered ran⟩
      rw [Session.step, ran]
      rfl
  | tcpOpen | tcpConnect | tcpSend | tcpClose | tcpCloseWake =>
    refine ⟨_, ?_, tracks.call allowed buffered moved (by simp) (by simp)⟩
    simp only [Session.step, stepped]
    rfl

theorem tracks_tcpConnect (stream : List (BitVec 8)) (irs : BitVec 32) {s : TcpStack} {soc : Int}
    {dstIp dstPort : BitVec 32} (buffered : s.Buffered) (target : TcpStack.socket soc = some i)
    (closed : (s.cb i).state = .closed)
    (connecting : ((s.tcpConnect soc dstIp dstPort).cb i).state = .synSent) :
    (Session.mk (s.tcpConnect soc dstIp dstPort) [] 0 0).Tracks stream irs i
      (s.tcpConnect soc dstIp dstPort).sent.length := by
  have moved := s.tcpConnect_moved soc dstIp dstPort
  refine ⟨buffered.moved moved, .inl ⟨connecting, ?_, rfl, rfl, rfl⟩, ?_⟩
  · cases moved with
    | nothing blocks sent =>
      rw [blocks, closed] at connecting
      cases connecting
    | block j changed blocks sent =>
      cases changed with
      | connecting target' used closed' port iss opening content segment syn =>
        obtain rfl : i = j := Option.some.inj (target.symm.trans target')
        rw [blocks, Function.update_self]
        subst content
        rfl
  · intro segment mem
    simp [announced] at mem

/-- A connection of `tcp_connect` to a peer that sends one byte stream. However
its packets are ordered, lost, repeated or cut, and whatever is read, sent or done
on other connections meanwhile, no step faults; the bytes that `tcp_read` returned
are a prefix of the stream, `rcv.wnd` is the buffer without the bytes accepted and
not read, and `rcv.nxt` counts the bytes accepted and the FIN. -/
theorem receive_stream (stream : List (BitVec 8)) (short : stream.length < 2 ^ 32)
    (irs : BitVec 32) (i : Nat) (s : TcpStack) (soc : Int) (dstIp dstPort : BitVec 32)
    (events : List Event) (buffered : s.Buffered) (target : TcpStack.socket soc = some i)
    (closed : (s.cb i).state = .closed)
    (connecting : ((s.tcpConnect soc dstIp dstPort).cb i).state = .synSent)
    (allowed : Meets (Session.step i)
      (Allowed stream irs i (s.tcpConnect soc dstIp dstPort).sent.length)
      ⟨s.tcpConnect soc dstIp dstPort, [], 0, 0⟩ events) :
    ∃ final, run (Session.step i) ⟨s.tcpConnect soc dstIp dstPort, [], 0, 0⟩ events = .ok final ∧
      final.bytes <+: stream ∧ final.bytes.length ≤ final.accepted ∧
      (final.stack.cb i).rcvWnd.toNat + (final.accepted - final.bytes.length) = BUF_SIZE ∧
      ((final.stack.cb i).state ≠ .synSent → (final.stack.cb i).irs = irs ∧ final.fins ≤ 1 ∧
        (final.stack.cb i).rcvNxt =
          irs + 1 + BitVec.ofNat 32 final.accepted + BitVec.ofNat 32 final.fins) := by
  obtain ⟨final, ran, tracks⟩ := run_total (fun _ _ => Tracks.step short)
    (tracks_tcpConnect stream irs buffered target closed connecting) allowed
  refine ⟨final, ran, ?_⟩
  obtain waiting | streaming := tracks.block
  · have window := waiting.window
    rw [waiting.bytes, waiting.accepted]
    exact ⟨ nil_prefix, le_refl _, window, fun open_ => absurd waiting.state open_⟩
  refine ⟨streaming.returned, streaming.read, streaming.window, fun _ =>
    ⟨streaming.origin, ?_, streaming.nxt⟩⟩
  obtain ⟨-, none_taken⟩ | ⟨-, one, -⟩ := streaming.phase
  · omega
  · omega

/-- The stream 1, 2, 3 in overlapping segments, the second one first, and a FIN. -/
def threeBytes : List Event :=
  [.tcpRx (.make 0x0a000202 80 49152 1000 33614 5 (TCP_FLG_SYN ||| TCP_FLG_ACK) 0 fun _ => 0),
    .tcpRx (.make 0x0a000202 80 49152 1002 33614 5 TCP_FLG_ACK 2 fun k => BitVec.ofNat 8 (k + 2)),
    .tcpRx (.make 0x0a000202 80 49152 1001 33614 5 TCP_FLG_ACK 2 fun k => BitVec.ofNat 8 (k + 1)),
    .tcpRead 0 1 true,
    .tcpRx (.make 0x0a000202 80 49152 1003 33614 5 (TCP_FLG_FIN ||| TCP_FLG_ACK) 1 fun _ => 3),
    .tcpRead 0 100 true]

theorem receive_stream_three_bytes : ∃ final, run (Session.step 0)
        ⟨(TcpStack.init.tcpOpen 0 0).2.tcpConnect 0 0x0a000202 80, [], 0, 0⟩ threeBytes =
          .ok final ∧
      final.bytes <+: [1, 2, 3] ∧ final.bytes.length ≤ final.accepted ∧
      (final.stack.cb 0).rcvWnd.toNat + (final.accepted - final.bytes.length) = BUF_SIZE ∧
      ((final.stack.cb 0).state ≠ .synSent → (final.stack.cb 0).irs = 1000 ∧ final.fins ≤ 1 ∧
        (final.stack.cb 0).rcvNxt =
          1000 + 1 + BitVec.ofNat 32 final.accepted + BitVec.ofNat 32 final.fins) :=
  receive_stream [1, 2, 3] (by decide) 1000 0 (TcpStack.init.tcpOpen 0 0).2 0 0x0a000202 80
    threeBytes (TcpStack.buffered_init.moved (TcpStack.tcpOpen_moved ..)) rfl (by decide +kernel)
    (by decide +kernel) (by decide +kernel)

end Session

end Xv6Rv32im.Tcp
