import Xv6Rv32im.Tcp.Phases

/-!
# What a step does to the table

No call puts a block into LISTEN, so every reachable block is plain: it never
listens, is not set up for a listener and has no backlog.  From a table of plain
blocks a step changes at most one block, in one of the ways of `Changed`.
-/

namespace Xv6Rv32im.Tcp

/-- A block that never listened and was not set up for a listener. -/
structure TcpCb.Plain (cb : TcpCb) : Prop where
  listening : cb.state ≠ .listen
  accepting : cb.state ≠ .synRcvd
  alone : cb.backlog = []

theorem TcpCb.plain_zero : TcpCb.zero.Plain :=
  ⟨nofun, nofun, rfl⟩

/-- A plain block stays plain under changes that leave the backlog. -/
theorem TcpCb.Plain.of_state {cb cb' : TcpCb} (plain : cb.Plain)
    (backlog : cb'.backlog = cb.backlog)
    (state : cb'.state = cb.state ∨ cb'.state ≠ .listen ∧ cb'.state ≠ .synRcvd) : cb'.Plain := by
  obtain same | ⟨listening, accepting⟩ := state
  · exact ⟨same ▸ plain.listening, same ▸ plain.accepting, backlog.trans plain.alone⟩
  · exact ⟨listening, accepting, backlog.trans plain.alone⟩

/-! ## Segments keep blocks plain -/

section

variable {i : Nat} {hdr : TcpHdr} {payload : Memory} {plen : BitVec 32} {cb cb' : TcpCb}
  {out : List Sent}

theorem TcpCb.Plain.acked (plain : cb.Plain) (ack : BitVec 32) : (cb.acked ack).Plain := by
  refine plain.of_state rfl ?_
  unfold TcpCb.acked
  by_cases all : ack = cb.sndNxt
  · cases state : cb.state
    all_goals simp [all]
  · simp [all]

theorem TcpCb.Plain.finned (plain : cb.Plain) : cb.finned.Plain := by
  refine plain.of_state rfl ?_
  unfold TcpCb.finned TcpStack.finState
  cases state : cb.state
  all_goals simp

theorem Taken.plain (taken : Taken i hdr payload plen cb cb' out) (plain : cb.Plain) :
    cb'.Plain := by
  cases taken with
  | skipped refused => exact plain
  | copied nonempty ready window fits taken content =>
    subst content
    exact plain.of_state rfl (.inl rfl)

theorem Ended.plain (ended : Ended i hdr cb cb' out) (plain : cb.Plain) : cb'.Plain := by
  cases ended with
  | more unset => exact plain
  | fin set => exact plain.finned.of_state rfl (.inl rfl)

theorem Handled.plain (handled : Handled i hdr payload plen cb cb' out) (plain : cb.Plain) :
    cb'.Plain := by
  cases handled with
  | ignored idle => exact plain
  | reset | unsent => exact plain.of_state rfl (.inl rfl)
  | synSeen state syn seen content segment answer =>
    subst content
    exact plain.of_state rfl (.inl rfl)
  | connected state syn above below opened content =>
    subst content
    exact plain.of_state rfl (.inr ⟨nofun, nofun⟩)
  | closing inOrder state acceptable => exact plain.acked _
  | lastAck inOrder state => exact TcpCb.plain_zero
  | accepted inOrder acks running acceptable payload fin =>
    exact fin.plain (payload.plain (plain.acked _))
  | late inOrder state fin => exact fin.plain plain

theorem Taken.soc (taken : Taken i hdr payload plen cb cb' out) :
    ∀ segment ∈ out, segment.soc = i := by
  cases taken with
  | skipped refused => nofun
  | copied nonempty ready window fits taken content => simp [TcpCb.ackSegment, TcpCb.segment]

theorem Ended.soc (ended : Ended i hdr cb cb' out) : ∀ segment ∈ out, segment.soc = i := by
  cases ended with
  | more unset => nofun
  | fin set => simp [TcpCb.ackSegment, TcpCb.segment]

theorem Handled.soc (handled : Handled i hdr payload plen cb cb' out) :
    ∀ segment ∈ out, segment.soc = i := by
  cases handled with
  | ignored idle => nofun
  | reset unsynchronized segment source flg => simp [source]
  | synSeen state syn seen content segment answer => simp [answer, TcpCb.segment]
  | connected | unsent => simp [TcpCb.ackSegment, TcpCb.segment]
  | closing inOrder state acceptable => nofun
  | lastAck inOrder state => nofun
  | accepted inOrder acks running acceptable payload fin =>
    intro segment sent
    exact (List.mem_append.mp sent).elim (payload.soc segment) (fin.soc segment)
  | late inOrder state fin => exact fin.soc

end

/-! ## The changes a step can make to a block -/

/-- The bytes waiting in the buffer, as `tcp_read` computes them. -/
def TcpCb.total (cb : TcpCb) : BitVec 32 := BitVec.ofNat 32 BUF_SIZE - cb.rcvWnd.setWidth 32

def TcpCb.readLen (cb : TcpCb) (size : BitVec 32) : BitVec 32 :=
  if size < cb.total then size else cb.total

def TcpCb.drained (cb : TcpCb) (len : BitVec 32) : TcpCb :=
  { cb with
    buf := fun k => if k < (cb.total - len).toNat then cb.buf (k + len.toNat) else cb.buf k
    rcvWnd := cb.rcvWnd + len.setWidth 16 }

variable {cb : TcpCb} {out : List Sent}

theorem TcpCb.Plain.drained (plain : cb.Plain) (len : BitVec 32) : (cb.drained len).Plain :=
  ⟨plain.listening, plain.accepting, plain.alone⟩

namespace Packet

def hdr (packet : Packet) : TcpHdr := loadTcpHdr packet.data

/-- The payload length that `tcp_incoming_event` computes for the packet. -/
def plen (packet : Packet) : BitVec 32 :=
  packet.len.setWidth 32 -
    ((packet.hdr.off >>> 4).setWidth 16 * 4 - BitVec.ofNat 16 TCP_HDR_SIZE).setWidth 32 -
    packet.hdr.hlen

def payload (packet : Packet) : Memory := fun k => packet.data (packet.hdr.hlen.toNat + k)

/-- The packet with these header fields (addresses, ports and numbers in host
order) and this payload. -/
def make (srcIp : BitVec 32) (srcPort dstPort : BitVec 16) (seq ack : BitVec 32)
    (offset : Nat) (flg : BitVec 8) (plen : Nat) (payload : Memory) : Packet where
  srcIp := toggleEndian32 srcIp
  len := BitVec.ofNat 16 (4 * offset + plen)
  data := fun k =>
    match k with
    | 0 => srcPort.extractLsb' 8 8
    | 1 => srcPort.extractLsb' 0 8
    | 2 => dstPort.extractLsb' 8 8
    | 3 => dstPort.extractLsb' 0 8
    | 4 => seq.extractLsb' 24 8
    | 5 => seq.extractLsb' 16 8
    | 6 => seq.extractLsb' 8 8
    | 7 => seq.extractLsb' 0 8
    | 8 => ack.extractLsb' 24 8
    | 9 => ack.extractLsb' 16 8
    | 10 => ack.extractLsb' 8 8
    | 11 => ack.extractLsb' 0 8
    | 12 => BitVec.ofNat 8 (16 * offset)
    | 13 => flg
    | k => if k < 4 * offset then 0 else payload (k - 4 * offset)

end Packet

namespace TcpStack

/-- A change of block `i` by an event: the new block and the segments sent. -/
inductive Changed (s : TcpStack) (i : Nat) : Event → TcpCb → List Sent → Prop where
  | opened {ip : BitVec 32} {port : BitVec 16} (unused : (s.cb i).used = false) :
      Changed s i (.tcpOpen ip port) { s.cb i with used := true } []
  | connecting {soc : Int} {dstIp dstPort : BitVec 32} (target : socket soc = some i)
      (used : (s.cb i).used = true) (closed : (s.cb i).state = .closed)
      (port : BitVec 16) (iss : BitVec 32) (opening : TcpCb) (content : opening = { s.cb i with
        port := port
        peerAddr := toggleEndian32 dstIp
        peerPort := toggleEndian16 (dstPort.setWidth 16)
        rcvWnd := BitVec.ofNat 16 BUF_SIZE
        iss := iss })
      (segment : Sent) (syn : segment = opening.segment i iss 0 TCP_FLG_SYN 0) :
      Changed s i (.tcpConnect soc dstIp dstPort)
        { opening.queue segment with sndNxt := iss + 1, state := .synSent } [segment]
  | sent {soc : Int} {len : BitVec 32} (target : socket soc = some i)
      (ready : (s.cb i).txIsReady = true) (segment : Sent)
      (content : segment = (s.cb i).segment i (s.cb i).sndNxt (s.cb i).rcvNxt
        (TCP_FLG_ACK ||| TCP_FLG_PSH) len) :
      Changed s i (.tcpSend soc len)
        { (s.cb i).queue segment with sndNxt := (s.cb i).sndNxt + len } [segment]
  | finSent {soc : Int} (target : socket soc = some i) (state : TcpState)
      (leaves : (s.cb i).state = .established ∧ state = .finWait1 ∨
        (s.cb i).state = .closeWait ∧ state = .lastAck)
      (segment : Sent) (content : segment = (s.cb i).segment i (s.cb i).sndNxt (s.cb i).rcvNxt
        (TCP_FLG_FIN ||| TCP_FLG_ACK) 0) :
      Changed s i (.tcpClose soc)
        { (s.cb i).queue segment with state := state, sndNxt := (s.cb i).sndNxt + 1 } [segment]
  | closed {soc : Int} (target : socket soc = some i) : Changed s i (.tcpClose soc) .zero []
  | woken : Changed s i (.tcpCloseWake i) .zero []
  | read {soc : Int} {size : BitVec 32} (target : socket soc = some i)
      (bounded : (s.cb i).total.toNat ≤ BUF_SIZE) :
      Changed s i (.tcpRead soc size true) ((s.cb i).drained ((s.cb i).readLen size)) []
  | segment {packet : Packet} (found : s.findCb packet.srcIp packet.hdr = some i)
      {cb : TcpCb} {out : List Sent}
      (handled : Handled i packet.hdr packet.payload packet.plen (s.cb i) cb out) :
      Changed s i (.tcpRx packet) cb out

/-- A step leaves every block alone, or changes one. -/
inductive Moved (s : TcpStack) (event : Event) (t : TcpStack) : Prop where
  | nothing (blocks : t.cb = s.cb) (sent : t.sent = s.sent) : Moved s event t
  | block (i : Nat) {cb : TcpCb} {out : List Sent} (changed : Changed s i event cb out)
      (blocks : t.cb = Function.update s.cb i cb) (sent : t.sent = s.sent ++ out) : Moved s event t

def Plain (s : TcpStack) : Prop := ∀ i, (s.cb i).Plain

theorem plain_init : Plain init := fun _ => TcpCb.plain_zero

variable {event : Event}

theorem Changed.plain {s : TcpStack} {i : Nat} (changed : Changed s i event cb out)
    (plain : (s.cb i).Plain) : cb.Plain := by
  cases changed with
  | opened | sent => exact plain.of_state rfl (.inl rfl)
  | connecting target used closed port iss opening content segment syn =>
    subst content
    exact plain.of_state rfl (.inr ⟨nofun, nofun⟩)
  | finSent target state leaves segment content =>
    refine plain.of_state rfl (.inr ?_)
    obtain ⟨-, rfl⟩ | ⟨-, rfl⟩ := leaves
    · exact ⟨nofun, nofun⟩
    · exact ⟨nofun, nofun⟩
  | closed | woken => exact TcpCb.plain_zero
  | read target bounded => exact plain.drained _
  | segment found handled => exact handled.plain plain

theorem Changed.soc {s : TcpStack} {i : Nat} (changed : Changed s i event cb out) :
    ∀ segment ∈ out, segment.soc = i := by
  cases changed with
  | opened unused => nofun
  | connecting target used closed port iss opening content segment syn => simp [syn, TcpCb.segment]
  | sent target ready segment content | finSent target state leaves segment content =>
    simp [content, TcpCb.segment]
  | closed target => nofun
  | woken => nofun
  | read target bounded => nofun
  | segment found handled => exact handled.soc

/-- An invariant of single blocks is kept by a step that keeps it for the block
it changes. -/
theorem Moved.forall {s t : TcpStack} {P : TcpCb → Prop} (moved : Moved s event t)
    (holds : ∀ i, P (s.cb i)) (kept : ∀ i cb out, Changed s i event cb out → P cb) :
    ∀ i, P (t.cb i) := by
  intro j
  cases moved with
  | nothing blocks sent =>
    rw [blocks]
    exact holds j
  | block i changed blocks sent =>
    rw [blocks]
    by_cases same : j = i
    · subst same
      rw [Function.update_self]
      exact kept j _ _ changed
    · rw [Function.update_of_ne same]
      exact holds j

theorem Moved.plain {s t : TcpStack} (moved : Moved s event t) (plain : s.Plain) : t.Plain :=
  moved.forall plain fun i _ _ changed => changed.plain (plain i)

/-! ## Every step is such a change -/

variable {s t : TcpStack}

theorem Moved.refl (s : TcpStack) (event : Event) : Moved s event s :=
  .nothing rfl rfl

theorem Moved.of_put {i : Nat} (changed : Changed s i event cb out) :
    Moved s event (s.put i cb out) :=
  .block i changed rfl rfl

section

variable (s)

theorem openFrom_moved (ip : BitVec 32) (port : BitVec 16) (blocks : List Nat) :
    Moved s (.tcpOpen ip port) (openFrom ip port s blocks).2 := by
  induction blocks with
  | nil => exact .refl s _
  | cons i rest ih =>
    rw [openFrom]
    split
    · split
      · exact .nothing rfl rfl
      · exact ih
    next unused =>
      rw [modifyCb_eq_put]
      exact .of_put (.opened (Bool.eq_false_iff.mpr unused))

theorem tcpOpen_moved (ip : BitVec 32) (port : BitVec 16) :
    Moved s (.tcpOpen ip port) (s.tcpOpen ip port).2 := by
  unfold tcpOpen
  split
  · exact .refl s _
  · exact openFrom_moved ..

theorem tcpConnect_moved (soc : Int) (dstIp dstPort : BitVec 32) :
    Moved s (.tcpConnect soc dstIp dstPort) (s.tcpConnect soc dstIp dstPort) := by
  unfold tcpConnect
  split
  · exact .refl s _
  next i target =>
    split
    · exact .refl s _
    split
    · exact .refl s _
    next ready =>
      simp only [Bool.or_eq_true, Bool.not_eq_true', bne_iff_ne, not_or,
        Bool.not_eq_false, not_not] at ready
      dsimp only
      generalize (if (s.cb i).port = 0 then s.freePort else (s.cb i).port) = port
      split
      · exact .refl s _
      · simp only [modifyCb_eq_put, put_cb_self, put_put, tcpTx_eq_put]
        exact .block i (.connecting target ready.1 ready.2 _ _ _ rfl _ rfl) rfl rfl

theorem tcpSend_moved (soc : Int) (len : BitVec 32) :
    Moved s (.tcpSend soc len) (s.tcpSend soc len) := by
  unfold tcpSend
  split
  · exact .refl s _
  next i target =>
    split
    · exact .refl s _
    split
    · exact .refl s _
    split
    · exact .refl s _
    next ready =>
      simp only [modifyCb_eq_put, put_cb_self, put_put, tcpTx_eq_put]
      exact .of_put (.sent target (by simpa using ready) _ rfl)

end

theorem tcpClose_moved (soc : Int) (plain : s.Plain) :
    Moved s (.tcpClose soc) (s.tcpClose soc) := by
  unfold tcpClose
  split
  · exact .refl s _
  next i target =>
    have cleared : Moved s (.tcpClose soc) (tcpCbClear TCP_CB_TABLE_SIZE s i) := by
      rw [TCP_CB_TABLE_SIZE, tcpCbClear_eq_put _ (plain i).alone]
      exact .of_put (.closed target)
    split
    · exact .refl s _
    split
    · exact .refl s _
    simp only [modifyCb_eq_put, put_cb_self, put_put, tcpTxEmpty_eq_put]
    cases state : (s.cb i).state with
    | established =>
      exact .block i (.finSent target _ (.inl ⟨state, rfl⟩) _ rfl) rfl rfl
    | closeWait => exact .block i (.finSent target _ (.inr ⟨state, rfl⟩) _ rfl) rfl rfl
    | synRcvd => exact absurd state (plain i).accepting
    | closed | listen | synSent | finWait1 | finWait2 | closing | timeWait | lastAck =>
      exact cleared

theorem tcpCloseWake_moved (i : Nat) (plain : s.Plain) :
    Moved s (.tcpCloseWake i) (s.tcpCloseWake i) := by
  unfold tcpCloseWake
  split
  · exact .refl s _
  split
  · have cleared := tcpCbClear_eq_put (s := { s with closers := s.closers.erase i }) 15
      (plain i).alone
    rw [TCP_CB_TABLE_SIZE, cleared]
    exact .block i .woken rfl rfl
  · exact .refl s _

/-- `tcp_read` blocks or fails without touching a block, or takes bytes out of
the buffer; it leaves the buffer only if the window is too large. -/
theorem tcpRead_spec (s : TcpStack) (soc : Int) (size : BitVec 32) (copied : Bool) :
    (∃ result t, s.tcpRead soc size copied = .ok (result, t) ∧ t.cb = s.cb ∧ t.sent = s.sent ∧
      (result = .blocked ∨ result = .error ∨ result = .bytes [])) ∨
    (∃ i, socket soc = some i ∧ copied = true ∧ (s.cb i).total.toNat ≤ BUF_SIZE ∧
      s.tcpRead soc size copied =
        .ok (.bytes ((List.range ((s.cb i).readLen size).toNat).map (s.cb i).buf),
          s.put i ((s.cb i).drained ((s.cb i).readLen size)) [])) ∨
    (∃ i, BUF_SIZE < (s.cb i).total.toNat ∧ s.tcpRead soc size copied = .error .bufOverrun) := by
  unfold tcpRead
  split
  · exact .inl ⟨_, _, rfl, rfl, rfl, .inr (.inl rfl)⟩
  next i target =>
    split
    · exact .inl ⟨_, _, rfl, rfl, rfl, .inl rfl⟩
    split
    · exact .inl ⟨_, _, rfl, rfl, rfl, .inr (.inl rfl)⟩
    dsimp only
    split
    · split
      · exact .inl ⟨_, _, rfl, rfl, rfl, .inl rfl⟩
      · exact .inl ⟨_, _, rfl, rfl, rfl, .inr (.inr rfl)⟩
    split
    next large => exact .inr (.inr ⟨i, large, rfl⟩)
    next small =>
      cases copied with
      | false => exact .inl ⟨_, _, rfl, rfl, rfl, .inr (.inl rfl)⟩
      | true =>
        rw [setCb_eq_put]
        exact .inr (.inl ⟨i, target, rfl, Nat.le_of_not_lt small, rfl⟩)

/-- Without a listener a packet goes to the block that its addresses name. -/
theorem selectCb_of_plain (plain : s.Plain) (packet : Packet) (hdr : TcpHdr) :
    s.selectCb packet hdr = (s.findCb packet.srcIp hdr).map fun i => (i, s) := by
  have none_listens : s.findListener hdr = none := by
    unfold findListener
    rw [List.find?_eq_none]
    intro i _
    simp [(plain i).listening]
  unfold selectCb
  cases s.findCb packet.srcIp hdr with
  | none => rw [none_listens]; rfl
  | some i => rfl

theorem tcpRx_spec (plain : s.Plain) (packet : Packet) :
    (s.tcpRx packet = .ok s ∧ (packet.len.toNat < TCP_HDR_SIZE ∨ s.locked = true ∨
        s.findCb packet.srcIp packet.hdr = none)) ∨
      ∃ i, s.findCb packet.srcIp packet.hdr = some i ∧ s.locked = false ∧
        TCP_HDR_SIZE ≤ packet.len.toNat ∧
        ((∃ cb out, s.tcpRx packet = .ok (s.put i cb out) ∧
            Handled i packet.hdr packet.payload packet.plen (s.cb i) cb out) ∨
          (s.tcpRx packet = .error .bufOverrun ∧ Overruns packet.hdr packet.plen (s.cb i))) := by
  unfold tcpRx
  dsimp only
  split
  next short => exact .inl ⟨rfl, .inl short⟩
  next long =>
    split
    next locked => exact .inl ⟨rfl, .inr (.inl locked)⟩
    next unlocked =>
      rw [selectCb_of_plain plain]
      cases found : s.findCb packet.srcIp (loadTcpHdr packet.data) with
      | none => exact .inl ⟨rfl, .inr (.inr found)⟩
      | some i =>
        exact .inr ⟨i, found, Bool.eq_false_iff.mpr unlocked, Nat.le_of_not_lt long,
          tcpIncomingEvent_spec packet.data _ (plain i).listening (plain i).accepting
            (plain i).alone⟩

/-- A connection to port 80 of 10.0.2.2 whose peer starts at 1000; the first
random number is 33613. -/
def handshake : List Event :=
  [.tcpOpen 0 0, .tcpConnect 0 0x0a000202 80,
    .tcpRx (.make 0x0a000202 80 49152 1000 33614 5 (TCP_FLG_SYN ||| TCP_FLG_ACK) 0 fun _ => 0)]

/-- Every step that does not fault is one of the changes. -/
theorem step_moved (plain : s.Plain) (stepped : s.step event = .ok t) : Moved s event t := by
  cases event with
  | tcpOpen ip port =>
    cases stepped
    exact tcpOpen_moved ..
  | tcpConnect soc dstIp dstPort =>
    cases stepped
    exact tcpConnect_moved ..
  | tcpSend soc len =>
    cases stepped
    exact tcpSend_moved ..
  | tcpClose soc =>
    cases stepped
    exact tcpClose_moved soc plain
  | tcpCloseWake i =>
    cases stepped
    exact tcpCloseWake_moved i plain
  | tcpRead soc size copied =>
    rw [step] at stepped
    obtain ⟨result, u, ran, blocks, sent, -⟩ | ⟨i, target, rfl, bounded, ran⟩ | ⟨i, -, ran⟩ :=
      tcpRead_spec s soc size copied
    · rw [ran] at stepped
      cases stepped
      exact .nothing blocks sent
    · rw [ran] at stepped
      cases stepped
      exact .of_put (.read target bounded)
    · rw [ran] at stepped
      cases stepped
  | tcpRx packet =>
    rw [step] at stepped
    obtain ⟨ran, -⟩ | ⟨i, found, -, -, ⟨cb, out, ran, handled⟩ | ⟨ran, -⟩⟩ :=
      tcpRx_spec plain packet
    · rw [ran] at stepped
      cases stepped
      exact .refl s _
    · rw [ran] at stepped
      cases stepped
      exact .of_put (.segment found handled)
    · rw [ran] at stepped
      cases stepped

/-- A step faults only in a copy beyond the buffer: a read from a block whose
window is too large, or a payload that does not fit. -/
theorem step_fault {fault : Fault} (plain : s.Plain) (failed : s.step event = .error fault) :
    (∃ i, BUF_SIZE < (s.cb i).total.toNat) ∨
      ∃ packet i, event = .tcpRx packet ∧ s.findCb packet.srcIp packet.hdr = some i ∧
        s.locked = false ∧ TCP_HDR_SIZE ≤ packet.len.toNat ∧
        Overruns packet.hdr packet.plen (s.cb i) := by
  cases event with
  | tcpOpen | tcpConnect | tcpSend | tcpClose | tcpCloseWake => cases failed
  | tcpRead soc size copied =>
    rw [step] at failed
    obtain ⟨result, u, ran, -⟩ | ⟨i, -, -, -, ran⟩ | ⟨i, large, -⟩ :=
      tcpRead_spec s soc size copied
    · rw [ran] at failed
      cases failed
    · rw [ran] at failed
      cases failed
    · exact .inl ⟨i, large⟩
  | tcpRx packet =>
    rw [step] at failed
    obtain ⟨ran, -⟩ | ⟨i, found, unlocked, long, ⟨cb, out, ran, -⟩ | ⟨-, overruns⟩⟩ :=
      tcpRx_spec plain packet
    · rw [ran] at failed
      cases failed
    · rw [ran] at failed
      cases failed
    · exact .inr ⟨packet, i, rfl, found, unlocked, long, overruns⟩

end TcpStack

end Xv6Rv32im.Tcp
