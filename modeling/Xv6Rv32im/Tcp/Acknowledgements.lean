import Xv6Rv32im.Tcp.Payload

/-!
# Acknowledgement numbers

A connection opens only on a segment that acknowledges its SYN.  Later acknowledgements are
compared as plain numbers, which is the order of sequence numbers while these do not wrap.
-/

namespace Xv6Rv32im.Tcp

open Library.Run

/-! ## The handshake -/

/-- A block in SYN_SENT with the numbers, the window and the buffer of another. -/
structure TcpCb.Waits (old cb : TcpCb) : Prop where
  state : cb.state = .synSent
  iss : cb.iss = old.iss
  sndNxt : cb.sndNxt = old.iss + 1
  rcvWnd : cb.rcvWnd = old.rcvWnd
  buf : cb.buf = old.buf

/-- A segment opens the connection of a block in SYN_SENT. -/
structure TcpCb.Opens (old : TcpCb) (hdr : TcpHdr) (cb : TcpCb) : Prop where
  syn : flgIsSet hdr.flg TCP_FLG_SYN = true
  ack : flgIsSet hdr.flg TCP_FLG_ACK = true
  rst : flgIsSet hdr.flg TCP_FLG_RST = false
  acks : toggleEndian32 hdr.ack = old.iss + 1
  state : cb.state = .established
  sndUna : cb.sndUna = old.iss + 1
  sndNxt : cb.sndNxt = old.iss + 1
  irs : cb.irs = toggleEndian32 hdr.seq
  rcvNxt : cb.rcvNxt = cb.irs + 1

namespace TcpStack

variable {s t : TcpStack} {i : Nat} {old : TcpCb}

/-- A segment for a block in SYN_SENT leaves it there or opens its connection. -/
theorem eventSynSent_outcome (hdr : TcpHdr) (waits : old.Waits (s.cb i)) :
    ∃ cb out, s.eventSynSent i hdr = s.put i cb out ∧ (old.Waits cb ∨ old.Opens hdr cb) := by
  unfold eventSynSent
  dsimp only
  split
  · split
    · exact ⟨_, _, (s.put_same i).symm, .inl waits⟩
    · exact ⟨_, _, rfl, .inl ⟨waits.state, waits.iss, waits.sndNxt, waits.rcvWnd, waits.buf⟩⟩
  next acceptable =>
    split
    · exact ⟨_, _, (s.put_same i).symm, .inl waits⟩
    next rst =>
      split
      next syn =>
        simp only [modifyCb_eq_put, put_cb_self, put_put, tcpTxEmpty_eq_put]
        split
        next ack =>
          simp only [ack, Bool.true_and, Bool.or_eq_true, decide_eq_true_eq, not_or,
            BitVec.not_le, gt_iff_lt, BitVec.not_lt, waits.iss, waits.sndNxt] at acceptable
          obtain ⟨above, below⟩ := acceptable
          have acks : toggleEndian32 hdr.ack = old.iss + 1 := by
            apply BitVec.eq_of_toNat_eq
            rw [BitVec.lt_def] at above
            rw [BitVec.le_def] at below
            rw [BitVec.toNat_add] at below ⊢
            change _ ≤ (old.iss.toNat + 1) % 2 ^ 32 at below
            change _ = (old.iss.toNat + 1) % 2 ^ 32
            omega
          rw [if_pos (show toggleEndian32 hdr.ack > (s.cb i).iss from waits.iss ▸ above)]
          exact ⟨_, _, rfl, .inr ⟨syn, ack, Bool.eq_false_iff.mpr rst, acks, rfl, acks,
            waits.sndNxt,
            rfl, rfl⟩⟩
        · exact ⟨_, _, rfl, .inl ⟨waits.state, waits.iss, waits.sndNxt, waits.rcvWnd, waits.buf⟩⟩
      · exact ⟨_, _, (s.put_same i).symm, .inl waits⟩

/-- A packet for any block leaves a waiting block so, or opens its connection. -/
theorem tcpRx_waits (plain : s.Plain) (waits : old.Waits (s.cb i)) {packet : Packet}
    (stepped : s.tcpRx packet = .ok t) : old.Waits (t.cb i) ∨ old.Opens packet.hdr (t.cb i) := by
  obtain ⟨ran, -⟩ | ⟨j, found, unlocked, long, outcome⟩ := tcpRx_spec plain packet
  · cases ran.symm.trans stepped
    exact .inl waits
  by_cases other : i = j
  · subst other
    obtain ⟨cb, out, opened, result⟩ := eventSynSent_outcome packet.hdr waits
    have ran : s.tcpRx packet = .ok (s.put i cb out) := by
      unfold tcpRx
      rw [if_neg (Nat.not_lt.mpr long), unlocked, selectCb_of_plain plain]
      rw [show s.findCb packet.srcIp (loadTcpHdr packet.data) = some i from found, ← opened]
      simp only [Option.map_some, tcpIncomingEvent, waits.state]
      rfl
    cases ran.symm.trans stepped
    rwa [put_cb_self]
  · obtain ⟨cb, out, ran, -⟩ | ⟨failed, -⟩ := outcome
    · cases ran.symm.trans stepped
      rw [put_cb_of_ne cb out other]
      exact .inl waits
    · cases failed.symm.trans stepped

theorem tcpRx_plain (plain : s.Plain) {packet : Packet} (stepped : s.tcpRx packet = .ok t) :
    t.Plain := by
  have moved : Moved s (.tcpRx packet) t := step_moved plain stepped
  exact moved.plain plain

/-- A waiting block goes on waiting until a segment opens its connection. -/
theorem waits_until_opened (plain : s.Plain) (waits : old.Waits (s.cb i)) {packets : List Packet}
    (ran : run tcpRx s packets = .ok t) :
    old.Waits (t.cb i) ∨ ∃ pre packet after u u', packets = pre ++ packet :: after ∧
      run tcpRx s pre = .ok u ∧ old.Waits (u.cb i) ∧ u.tcpRx packet = .ok u' ∧
      old.Opens packet.hdr (u'.cb i) := by
  induction packets generalizing s with
  | nil =>
    cases ran
    exact .inl waits
  | cons packet rest ih =>
    rw [run] at ran
    split at ran
    · cases ran
    next u stepped =>
      obtain waits' | opens := tcpRx_waits plain waits stepped
      · obtain still | ⟨pre, packet', after, v, v', rfl, first, rest⟩ :=
          ih (tcpRx_plain plain stepped) waits' ran
        · exact .inl still
        · refine .inr ⟨packet :: pre, packet', after, v, v', rfl, ?_, rest⟩
          rw [run_cons_ok pre stepped]
          exact first
      · exact .inr ⟨[], packet, rest, s, u, rfl, rfl, waits, stepped, opens⟩

/-- After any calls and arrivals, a block that `tcp_connect` leaves in SYN_SENT stays there with
its numbers and its empty buffer under any segments, until one with SYN and ACK and without RST
acknowledges `iss + 1`. -/
theorem opened_by_synAck (events : List Event) (ran : run step init events = .ok s) (soc : Int)
    (dstIp dstPort : BitVec 32) (target : socket soc = some i) (closed : (s.cb i).state = .closed)
    (left : ((s.tcpConnect soc dstIp dstPort).cb i).state = .synSent) (packets : List Packet)
    (arrived : run tcpRx (s.tcpConnect soc dstIp dstPort) packets = .ok t) :
    let old := (s.tcpConnect soc dstIp dstPort).cb i
    old.Waits (t.cb i) ∨ ∃ before packet after u u', packets = before ++ packet :: after ∧
      run tcpRx (s.tcpConnect soc dstIp dstPort) before = .ok u ∧ old.Waits (u.cb i) ∧
      u.tcpRx packet = .ok u' ∧ old.Opens packet.hdr (u'.cb i) := by
  have plain : s.Plain :=
    run_invariant (fun _ _ _ plain _ stepped => (step_moved plain stepped).plain plain) plain_init
      (Meets.of_forall (fun _ _ => True.intro) init events) ran
  have moved := s.tcpConnect_moved soc dstIp dstPort
  refine waits_until_opened (moved.plain plain) ⟨left, rfl, ?_, rfl, rfl⟩ arrived
  cases moved with
  | nothing blocks sent =>
    rw [blocks, closed] at left
    cases left
  | block j changed blocks sent =>
    cases changed with
    | connecting target' used closed' port iss opening content segment syn =>
      cases target.symm.trans target'
      rw [blocks, Function.update_self, content]
      rfl

/-- A reset, a SYN without ACK and a stale acknowledgement come before the right segment. -/
def forgedThenRight : List Packet :=
  [.make 0x0a000202 80 49152 7 33614 5 (TCP_FLG_RST ||| TCP_FLG_ACK) 0 fun _ => 0,
    .make 0x0a000202 80 49152 500 0 5 TCP_FLG_SYN 0 fun _ => 0,
    .make 0x0a000202 80 49152 600 33613 5 (TCP_FLG_SYN ||| TCP_FLG_ACK) 0 fun _ => 0,
    .make 0x0a000202 80 49152 1000 33614 5 (TCP_FLG_SYN ||| TCP_FLG_ACK) 0 fun _ => 0]

theorem opened_by_synAck_forged : ∃ s t, run step init [.tcpOpen 0 0] = .ok s ∧
      run tcpRx (s.tcpConnect 0 0x0a000202 80) forgedThenRight = .ok t ∧
      (t.cb 0).state = .established ∧
      ∃ before packet after u u', forgedThenRight = before ++ packet :: after ∧
        run tcpRx (s.tcpConnect 0 0x0a000202 80) before = .ok u ∧
        ((s.tcpConnect 0 0x0a000202 80).cb 0).Waits (u.cb 0) ∧ u.tcpRx packet = .ok u' ∧
        ((s.tcpConnect 0 0x0a000202 80).cb 0).Opens packet.hdr (u'.cb 0) := by
  have known : (run tcpRx ((init.tcpOpen 0 0).2.tcpConnect 0 0x0a000202 80) forgedThenRight).map
      (fun t => (t.cb 0).state) = .ok .established := by
    decide +kernel
  obtain ⟨t, arrived, established⟩ := of_map_eq_ok known
  obtain waits | opened := opened_by_synAck (i := 0) [.tcpOpen 0 0] rfl 0 0x0a000202 80
    (by decide) (by decide +kernel) (by decide +kernel) forgedThenRight arrived
  · cases established.symm.trans waits.state
  · exact ⟨_, t, rfl, arrived, established, opened⟩

/-! ## The order of acknowledgements -/

/-- The acknowledgement of a segment is taken, or the segment discarded for it, as the order of
numbers modulo 2^32 says. -/
def AcksInOrder (s : TcpStack) (i : Nat) (p : Memory) (len : BitVec 32) : Prop :=
  let hdr := loadTcpHdr p
  let una := (s.cb i).sndUna
  let nxt := (s.cb i).sndNxt
  let ack := toggleEndian32 hdr.ack
  ∃ result, s.eventAck i ack = .ok result ∧ (s.tcpIncomingEvent i p len = if result.2 then
        (result.1.eventPayload i hdr (fun k => p (hdr.hlen.toNat + k)) (len - hdr.hlen)).map
          (·.eventFin i hdr)
      else .ok result.1) ∧
    (((result.1.cb i).sndUna = ack ∧ ack ≠ una) ↔
      0 < (ack - una).toNat ∧ (ack - una).toNat ≤ (nxt - una).toNat) ∧
    (result = (s.tcpTxEmpty i nxt (s.cb i).rcvNxt TCP_FLG_ACK, false) ↔
      0 < (ack - nxt).toNat ∧ (ack - nxt).toNat < 2 ^ 31)

/-- Which acknowledgements move `snd.una`. -/
theorem ackSynchronized_takes (ack : BitVec 32) :
    (((s.ackSynchronized i ack).1.cb i).sndUna = ack ∧ ack ≠ (s.cb i).sndUna) ↔
      (s.cb i).sndUna < ack ∧ ack ≤ (s.cb i).sndNxt := by
  by_cases acceptable : ack ≤ (s.cb i).sndNxt
  · rw [ackSynchronized_of_le acceptable, put_cb_self]
    change (if (s.cb i).sndUna < ack then ack else (s.cb i).sndUna) = ack ∧ _ ↔ _
    split
    next fresh => exact ⟨fun _ => ⟨fresh, acceptable⟩, fun _ => ⟨rfl, (BitVec.ne_of_lt fresh).symm⟩⟩
    next old => exact ⟨fun taken => absurd taken.1.symm taken.2, fun taken => absurd taken.1 old⟩
  · rw [ackSynchronized_of_gt (BitVec.not_le.mp acceptable), put_cb_self]
    exact ⟨fun taken => absurd taken.1.symm taken.2, fun taken => absurd taken.2 acceptable⟩

/-- Which acknowledgements are of unsent data. -/
theorem ackSynchronized_discards (ack : BitVec 32) : s.ackSynchronized i ack =
        (s.tcpTxEmpty i (s.cb i).sndNxt (s.cb i).rcvNxt TCP_FLG_ACK, false) ↔
      (s.cb i).sndNxt < ack := by
  by_cases acceptable : ack ≤ (s.cb i).sndNxt
  · rw [ackSynchronized_of_le acceptable, tcpTxEmpty_eq_put]
    refine ⟨fun same => ?_, fun unsent => absurd acceptable (BitVec.not_le.mpr unsent)⟩
    -- The answer is missing from the segments sent.
    have sent := congrArg (fun result => result.1.sent.length) same
    simp at sent
  · have unsent := BitVec.not_le.mp acceptable
    rw [ackSynchronized_of_gt unsent]
    exact ⟨fun _ => unsent, fun _ => rfl⟩

/-- For the states that take acknowledgements and any window: the plain comparisons agree with
the order modulo 2^32 exactly if the window does not straddle 0, or the acknowledgement lies
outside it, and the acknowledgement is no further than 2^31 from `snd.nxt` as a plain number. -/
theorem acks_in_order_iff (s : TcpStack) (i : Nat) (p : Memory) (len : BitVec 32)
    (acks : (s.cb i).state.acks = true) (inOrder : InOrder (loadTcpHdr p) (s.cb i)) :
    let una := (s.cb i).sndUna.toNat
    let nxt := (s.cb i).sndNxt.toNat
    let ack := (toggleEndian32 (loadTcpHdr p).ack).toNat
    AcksInOrder s i p len ↔
      (una ≤ nxt ∨ nxt < ack ∧ ack ≤ una) ∧ ack < nxt + 2 ^ 31 ∧ nxt ≤ ack + 2 ^ 31 := by
  intro una nxt ack
  have acked := eventAck_of_acks (toggleEndian32 (loadTcpHdr p).ack) acks
  have takes := ackSynchronized_takes (s := s) (i := i) (toggleEndian32 (loadTcpHdr p).ack)
  have discards := ackSynchronized_discards (s := s) (i := i) (toggleEndian32 (loadTcpHdr p).ack)
  have plain : AcksInOrder s i p len ↔ ((una < ack ∧ ack ≤ nxt ↔ 0 < (2 ^ 32 - una + ack) % 2 ^ 32 ∧
          (2 ^ 32 - una + ack) % 2 ^ 32 ≤ (2 ^ 32 - una + nxt) % 2 ^ 32) ∧
        (nxt < ack ↔ 0 < (2 ^ 32 - nxt + ack) % 2 ^ 32 ∧
          (2 ^ 32 - nxt + ack) % 2 ^ 32 < 2 ^ 31)) := by
    unfold AcksInOrder
    simp only [BitVec.toNat_sub]
    constructor
    · rintro ⟨result, same, -, takes', discards'⟩
      cases acked.symm.trans same
      exact ⟨takes.symm.trans takes', discards.symm.trans discards'⟩
    · rintro ⟨takes', discards'⟩
      refine ⟨_, acked, ?_, takes.trans takes', discards.trans discards'⟩
      generalize s.ackSynchronized i (toggleEndian32 (loadTcpHdr p).ack) = result at acked ⊢
      obtain ⟨t, more⟩ := result
      unfold tcpIncomingEvent
      dsimp only
      rw [if_neg (not_not.mpr inOrder.seq), inOrder.clean, inOrder.ack]
      cases state : (s.cb i).state with
      | established | finWait1 | finWait2 | closing | closeWait =>
        simp only [acked]
        cases more <;> rfl
      | closed | listen | synSent | synRcvd | timeWait | lastAck =>
        rw [state] at acks
        cases acks
  rw [plain]
  have unaSmall : una < 2 ^ 32 := (s.cb i).sndUna.isLt
  have nxtSmall : nxt < 2 ^ 32 := (s.cb i).sndNxt.isLt
  have ackSmall : ack < 2 ^ 32 := (toggleEndian32 (loadTcpHdr p).ack).isLt
  omega

/-- A connection whose window starts at `una` and has bytes up to `nxt` in flight. -/
def inFlight (una nxt : BitVec 32) : TcpStack :=
  connected.modifyCb 0 fun cb => { cb with sndUna := una, sndNxt := nxt }

def acksAll (nxt : BitVec 32) : Memory :=
  (Packet.make 0x0a000202 80 49152 1001 nxt 5 TCP_FLG_ACK 0 fun _ => 0).data

theorem acks_in_order_iff_below_wrap : AcksInOrder (inFlight 500 600) 0 (acksAll 600) 20 :=
  (acks_in_order_iff (inFlight 500 600) 0 (acksAll 600) 20 (by decide +kernel)
    (by decide +kernel)).mpr (by decide +kernel)

/-- With bytes in flight across 2^32, the acknowledgement of all of them leaves `snd.una`. -/
theorem straddling_ack_ignored :
    ((inFlight 0xffffff00 0x100).tcpIncomingEvent 0 (acksAll 0x100) 20).map
      (fun t => ((t.cb 0).sndUna, t.sent.length)) = .ok (0xffffff00, 0) ∧
    ¬AcksInOrder (inFlight 0xffffff00 0x100) 0 (acksAll 0x100) 20 := by
  refine ⟨by decide +kernel, ?_⟩
  rintro ⟨result, acked, -, takes, -⟩
  have known : ((inFlight 0xffffff00 0x100).eventAck 0
      (toggleEndian32 (loadTcpHdr (acksAll 0x100)).ack)).map (fun result =>
        (result.1.cb 0).sndUna) = .ok 0xffffff00 := by
    decide +kernel
  rw [acked] at known
  have differ : toggleEndian32 (loadTcpHdr (acksAll 0x100)).ack ≠ 0xffffff00 := by decide +kernel
  have una := (takes.mpr (by decide +kernel)).1
  exact differ (una.symm.trans (Except.ok.inj known))

end TcpStack

end Xv6Rv32im.Tcp
