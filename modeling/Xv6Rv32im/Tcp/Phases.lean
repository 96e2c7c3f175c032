import Xv6Rv32im.Tcp.Model

/-!
# What an arriving segment does to its control block

A segment touches one control block and the list of sent segments.  Each part
of `tcp_incoming_event` is described by the block it leaves and the segments it
sends; `Handled` collects what a segment can do to a connected block.
-/

namespace Xv6Rv32im.Tcp

open TcpCb

namespace TcpCb

def segment (cb : TcpCb) (i : Nat) (seq ack : BitVec 32) (flg : BitVec 8) (len : BitVec 32) :
    Sent :=
  ⟨i, seq, ack, flg, cb.rcvWnd, len⟩

def queue (cb : TcpCb) (segment : Sent) : TcpCb := { cb with txq := cb.txq ++ [segment] }

/-- An empty ACK segment that announces `rcv.nxt` and the window. -/
def ackSegment (cb : TcpCb) (i : Nat) : Sent := cb.segment i cb.sndNxt cb.rcvNxt TCP_FLG_ACK 0

end TcpCb

namespace TcpStack

variable {s : TcpStack} {i j : Nat}

/-! ## Updates of one block -/

/-- The stack after block `i` became `cb` and the segments `out` were sent. -/
def put (s : TcpStack) (i : Nat) (cb : TcpCb) (out : List Sent) : TcpStack :=
  { s with cb := Function.update s.cb i cb, sent := s.sent ++ out }

@[simp] theorem put_cb_self (s : TcpStack) (i : Nat) (cb : TcpCb) (out : List Sent) :
    (s.put i cb out).cb i = cb :=
  Function.update_self ..

theorem put_cb_of_ne (cb : TcpCb) (out : List Sent) (ne : j ≠ i) : (s.put i cb out).cb j = s.cb j :=
  Function.update_of_ne ne ..

section

variable (s i)

@[simp] theorem put_locked (cb : TcpCb) (out : List Sent) : (s.put i cb out).locked = s.locked :=
  rfl

@[simp] theorem put_sent (cb : TcpCb) (out : List Sent) : (s.put i cb out).sent = s.sent ++ out :=
  rfl

@[simp] theorem put_put (cb cb' : TcpCb) (out out' : List Sent) :
    (s.put i cb out).put i cb' out' = s.put i cb' (out ++ out') := by
  simp [put]

theorem put_same : s.put i (s.cb i) [] = s := by
  simp [put]

@[simp] theorem setCb_eq_put (cb : TcpCb) : s.setCb i cb = s.put i cb [] := by
  simp [setCb, put]

@[simp] theorem modifyCb_eq_put (f : TcpCb → TcpCb) : s.modifyCb i f = s.put i (f (s.cb i)) [] :=
  setCb_eq_put ..

@[simp] theorem tcpTx_eq_put (seq ack : BitVec 32) (flg : BitVec 8) (len : BitVec 32) :
    s.tcpTx i seq ack flg len = s.put i ((s.cb i).queue ((s.cb i).segment i seq ack flg len))
        [(s.cb i).segment i seq ack flg len] :=
  rfl

@[simp] theorem tcpTxEmpty_eq_put (seq ack : BitVec 32) (flg : BitVec 8) :
    s.tcpTxEmpty i seq ack flg = s.put i ((s.cb i).queue ((s.cb i).segment i seq ack flg 0))
        [(s.cb i).segment i seq ack flg 0] :=
  rfl

end

theorem tcpCbClear_eq_put (fuel : Nat) (alone : (s.cb i).backlog = []) :
    tcpCbClear (fuel + 1) s i = s.put i .zero [] := by
  simp [tcpCbClear, alone]

end TcpStack

namespace TcpCb

/-! ## The parts of a segment's processing -/

def acked (cb : TcpCb) (ack : BitVec 32) : TcpCb :=
  { cb with
    sndUna := if cb.sndUna < ack then ack else cb.sndUna
    state :=
      if ack = cb.sndNxt then
        match cb.state with
        | .finWait1 => .finWait2
        | .closing => .timeWait
        | state => state
      else cb.state }

def filled (cb : TcpCb) (seq : BitVec 32) (payload : Memory) (plen : BitVec 32) : TcpCb :=
  let position := BUF_SIZE - cb.rcvWnd.toNat
  { cb with
    buf := fun k =>
      if position ≤ k ∧ k < position + plen.toNat then payload (k - position) else cb.buf k
    rcvNxt := seq + plen
    rcvWnd := cb.rcvWnd - plen.setWidth 16 }

def finned (cb : TcpCb) : TcpCb :=
  { cb with rcvNxt := cb.rcvNxt + 1, state := TcpStack.finState cb.state }

end TcpCb

def TcpHdr.hlen (hdr : TcpHdr) : BitVec 32 := (hdr.off >>> 4).setWidth 32 * 4

/-- The checks before the second switch let the segment through. -/
structure InOrder (hdr : TcpHdr) (cb : TcpCb) : Prop where
  seq : toggleEndian32 hdr.seq = cb.rcvNxt
  clean : flgIsSet hdr.flg (TCP_FLG_RST ||| TCP_FLG_SYN) = false
  ack : flgIsSet hdr.flg TCP_FLG_ACK = true

instance (hdr : TcpHdr) (cb : TcpCb) : Decidable (InOrder hdr cb) :=
  decidable_of_iff (_ ∧ _ ∧ _) ⟨fun ⟨seq, clean, ack⟩ => ⟨seq, clean, ack⟩,
      fun inOrder => ⟨inOrder.seq, inOrder.clean, inOrder.ack⟩⟩

/-- The states whose acknowledgements are processed in one common case. -/
def TcpState.acks : TcpState → Bool
  | .established | .finWait1 | .finWait2 | .closeWait | .closing => true
  | _ => false

section

variable (i : Nat) (hdr : TcpHdr) (payload : Memory) (plen : BitVec 32)

inductive Taken (cb : TcpCb) : TcpCb → List Sent → Prop where
  | skipped (refused : plen = 0 ∨ cb.rxIsReady = false) : Taken cb cb []
  | copied (nonempty : plen ≠ 0) (ready : cb.rxIsReady = true)
      (window : cb.rcvWnd.toNat ≤ BUF_SIZE) (fits : plen.toNat ≤ cb.rcvWnd.toNat)
      (taken : TcpCb) (content : taken = cb.filled (toggleEndian32 hdr.seq) payload plen) :
      Taken cb (taken.queue (taken.ackSegment i)) [taken.ackSegment i]

inductive Ended (cb : TcpCb) : TcpCb → List Sent → Prop where
  | more (unset : flgIsSet hdr.flg TCP_FLG_FIN = false) : Ended cb cb []
  | fin (set : flgIsSet hdr.flg TCP_FLG_FIN = true) :
      Ended cb (cb.finned.queue (cb.finned.ackSegment i)) [cb.finned.ackSegment i]

inductive Handled (cb : TcpCb) : TcpCb → List Sent → Prop where
  | ignored (idle : (cb.state = .closed ∨ cb.state = .synSent) ∨ ¬InOrder hdr cb) :
      Handled cb cb []
  | reset (unsynchronized : cb.state = .closed ∨ cb.state = .synSent) (segment : Sent)
      (source : segment.soc = i) (flg : segment.flg = TCP_FLG_RST) :
      Handled cb (cb.queue segment) [segment]
  | synSeen (state : cb.state = .synSent) (syn : flgIsSet hdr.flg TCP_FLG_SYN = true)
      (seen : TcpCb) (content : seen = { cb with
        rcvNxt := toggleEndian32 hdr.seq + 1
        irs := toggleEndian32 hdr.seq })
      (segment : Sent) (answer : segment = seen.segment i cb.iss seen.rcvNxt TCP_FLG_ACK 0) :
      Handled cb (seen.queue segment) [segment]
  | connected (state : cb.state = .synSent) (syn : flgIsSet hdr.flg TCP_FLG_SYN = true)
      (above : cb.iss < toggleEndian32 hdr.ack) (below : toggleEndian32 hdr.ack ≤ cb.sndNxt)
      (opened : TcpCb) (content : opened = { cb with
        rcvNxt := toggleEndian32 hdr.seq + 1
        irs := toggleEndian32 hdr.seq
        sndUna := toggleEndian32 hdr.ack
        state := .established }) :
      Handled cb (opened.queue (opened.ackSegment i)) [opened.ackSegment i]
  | unsent (inOrder : InOrder hdr cb) (acks : cb.state.acks = true)
      (unsent : cb.sndNxt < toggleEndian32 hdr.ack) :
      Handled cb (cb.queue (cb.ackSegment i)) [cb.ackSegment i]
  | closing (inOrder : InOrder hdr cb) (state : cb.state = .closing)
      (acceptable : toggleEndian32 hdr.ack ≤ cb.sndNxt) :
      Handled cb (cb.acked (toggleEndian32 hdr.ack)) []
  | lastAck (inOrder : InOrder hdr cb) (state : cb.state = .lastAck) : Handled cb .zero []
  | accepted (inOrder : InOrder hdr cb) (acks : cb.state.acks = true)
      (running : cb.state ≠ .closing) (acceptable : toggleEndian32 hdr.ack ≤ cb.sndNxt)
      {taken ended : TcpCb} {out out' : List Sent}
      (payload : Taken i hdr payload plen (cb.acked (toggleEndian32 hdr.ack)) taken out)
      (fin : Ended i hdr taken ended out') : Handled cb ended (out ++ out')
  | late (inOrder : InOrder hdr cb) (state : cb.state = .timeWait) {ended : TcpCb}
      {out : List Sent} (fin : Ended i hdr cb ended out) : Handled cb ended out

end

/-- The segment's payload is copied, to a place outside the buffer. -/
structure Overruns (hdr : TcpHdr) (plen : BitVec 32) (cb : TcpCb) : Prop where
  inOrder : InOrder hdr cb
  ready : cb.rxIsReady = true
  acceptable : toggleEndian32 hdr.ack ≤ cb.sndNxt
  nonempty : plen ≠ 0
  outside : ¬(cb.rcvWnd.toNat ≤ BUF_SIZE ∧ plen.toNat ≤ cb.rcvWnd.toNat)

namespace TcpStack

variable {s : TcpStack} {i : Nat}

/-! ## Each part of `tcp_incoming_event` -/

section

variable (hdr payload plen)

theorem eventClosed_handled (state : (s.cb i).state = .closed) :
    ∃ cb out, s.eventClosed i hdr plen = s.put i cb out ∧
      Handled i hdr payload plen (s.cb i) cb out := by
  unfold eventClosed
  split
  · exact ⟨_, _, (s.put_same i).symm, .ignored (.inl (.inl state))⟩
  · split
    · exact ⟨_, _, rfl, .reset (.inl state) _ rfl rfl⟩
    · exact ⟨_, _, rfl, .reset (.inl state) _ rfl rfl⟩

theorem eventSynSent_handled (state : (s.cb i).state = .synSent) :
    ∃ cb out, s.eventSynSent i hdr = s.put i cb out ∧
      Handled i hdr payload plen (s.cb i) cb out := by
  unfold eventSynSent
  dsimp only
  split
  · split
    · exact ⟨_, _, (s.put_same i).symm, .ignored (.inl (.inr state))⟩
    · exact ⟨_, _, rfl, .reset (.inr state) _ rfl rfl⟩
  next acceptable =>
    split
    · exact ⟨_, _, (s.put_same i).symm, .ignored (.inl (.inr state))⟩
    split
    next syn =>
      split
      next ack =>
        simp only [ack, Bool.true_and, Bool.or_eq_true, decide_eq_true_eq, not_or,
          BitVec.not_le, gt_iff_lt, BitVec.not_lt] at acceptable
        simp only [modifyCb_eq_put, put_cb_self, put_put, tcpTxEmpty_eq_put,
          gt_iff_lt, if_pos acceptable.1]
        exact ⟨_, _, rfl, .connected state syn acceptable.1 acceptable.2 _ rfl⟩
      · simp only [modifyCb_eq_put, put_cb_self, put_put, tcpTxEmpty_eq_put]
        exact ⟨_, _, rfl, .synSeen state syn _ rfl _ rfl⟩
    · exact ⟨_, _, (s.put_same i).symm, .ignored (.inl (.inr state))⟩

end

theorem ackStates_eq_put (s : TcpStack) (i : Nat) (ack : BitVec 32) : s.ackStates i ack =
      (s.put i { s.cb i with
        state :=
          if ack = (s.cb i).sndNxt then
            match (s.cb i).state with
            | .finWait1 => .finWait2
            | .closing => .timeWait
            | state => state
          else (s.cb i).state } [], decide ((s.cb i).state ≠ .closing)) := by
  have same state (is : (s.cb i).state = state) :
      s.put i { s.cb i with state := state } [] = s := by
    subst is
    exact s.put_same i
  unfold ackStates
  by_cases all : ack = (s.cb i).sndNxt
  · cases state : (s.cb i).state
    all_goals simp [all, state, same _ state]
  · cases state : (s.cb i).state
    all_goals simp [all, state, same _ state]

theorem ackSynchronized_of_le {ack : BitVec 32} (acceptable : ack ≤ (s.cb i).sndNxt) :
    s.ackSynchronized i ack =
      (s.put i ((s.cb i).acked ack) [], decide ((s.cb i).state ≠ .closing)) := by
  unfold ackSynchronized
  by_cases fresh : (s.cb i).sndUna < ack
  · rw [if_pos ⟨fresh, acceptable⟩, ackStates_eq_put]
    simp [acked, fresh]
  · rw [if_neg (fun both => fresh both.1), if_neg (BitVec.not_lt.mpr acceptable), ackStates_eq_put]
    simp [acked, fresh]

theorem ackSynchronized_of_gt {ack : BitVec 32} (unsent : (s.cb i).sndNxt < ack) :
    s.ackSynchronized i ack =
      (s.put i ((s.cb i).queue ((s.cb i).ackSegment i)) [(s.cb i).ackSegment i], false) := by
  unfold ackSynchronized
  rw [if_neg (fun both => BitVec.not_lt.mpr both.2 unsent), if_pos unsent]
  rfl

theorem eventAck_of_acks (ack : BitVec 32) (acks : (s.cb i).state.acks = true) :
    s.eventAck i ack = .ok (s.ackSynchronized i ack) := by
  unfold eventAck
  cases state : (s.cb i).state
  all_goals simp_all [TcpState.acks, pure, Except.pure]

section

variable (hdr payload)

theorem eventPayload_of_refused {plen : BitVec 32}
    (refused : plen = 0 ∨ (s.cb i).rxIsReady = false) :
    s.eventPayload i hdr payload plen = .ok s := by
  unfold eventPayload
  by_cases empty : plen = 0
  · simp [empty, pure, Except.pure]
  have unready := refused.resolve_left empty
  unfold rxIsReady at unready
  rw [if_pos empty]
  cases state : (s.cb i).state
  all_goals simp_all [pure, Except.pure]

theorem eventPayload_of_ready {plen : BitVec 32} (nonempty : plen ≠ 0)
    (ready : (s.cb i).rxIsReady = true) :
    s.eventPayload i hdr payload plen =
      if (s.cb i).rcvWnd.toNat ≤ BUF_SIZE ∧ plen.toNat ≤ (s.cb i).rcvWnd.toNat then
        let taken := (s.cb i).filled (toggleEndian32 hdr.seq) payload plen
        .ok (s.put i (taken.queue (taken.ackSegment i)) [taken.ackSegment i])
      else .error .bufOverrun := by
  have reaches : s.eventPayload i hdr payload plen = (do
      let cb ← (s.cb i).copyIn payload plen
      let s := s.setCb i { cb with
        rcvNxt := toggleEndian32 hdr.seq + plen
        rcvWnd := cb.rcvWnd - plen.setWidth 16 }
      return s.tcpTxEmpty i (s.cb i).sndNxt (s.cb i).rcvNxt TCP_FLG_ACK) := by
    unfold eventPayload
    unfold rxIsReady at ready
    rw [if_pos nonempty]
    cases state : (s.cb i).state
    all_goals simp_all
  rw [reaches]
  unfold copyIn
  by_cases fits : (s.cb i).rcvWnd.toNat ≤ BUF_SIZE ∧ plen.toNat ≤ (s.cb i).rcvWnd.toNat
  · rw [if_pos fits, if_pos ⟨fits.1, by omega⟩]
    simp [bind, Except.bind, pure, Except.pure, filled, ackSegment]
  · rw [if_neg fits, if_neg (by omega)]
    rfl

end

section

variable (s i hdr)

theorem eventFin_ended :
    ∃ cb out, s.eventFin i hdr = s.put i cb out ∧ Ended i hdr (s.cb i) cb out := by
  unfold eventFin
  split
  next set =>
    simp only [modifyCb_eq_put, put_cb_self, put_put, tcpTxEmpty_eq_put]
    exact ⟨_, _, rfl, .fin set⟩
  next unset =>
    exact ⟨_, _, (s.put_same i).symm, .more (Bool.eq_false_iff.mpr unset)⟩

/-- The payload and the FIN of a segment whose acknowledgement was processed. -/
theorem eventPayload_eventFin (payload : Memory) (plen : BitVec 32) : (∃ taken ended out out',
      (s.eventPayload i hdr payload plen).map (·.eventFin i hdr) =
        .ok (s.put i ended (out ++ out')) ∧
      Taken i hdr payload plen (s.cb i) taken out ∧ Ended i hdr taken ended out') ∨
    ((s.eventPayload i hdr payload plen).map (·.eventFin i hdr) = .error .bufOverrun ∧
      plen ≠ 0 ∧ (s.cb i).rxIsReady = true ∧
      ¬((s.cb i).rcvWnd.toNat ≤ BUF_SIZE ∧ plen.toNat ≤ (s.cb i).rcvWnd.toNat)) := by
  by_cases refused : plen = 0 ∨ (s.cb i).rxIsReady = false
  · obtain ⟨ended, out, finished, fin⟩ := eventFin_ended s i hdr
    rw [eventPayload_of_refused hdr payload refused]
    exact .inl ⟨_, ended, [], out, congrArg Except.ok finished, .skipped refused, fin⟩
  obtain ⟨nonempty, ready⟩ := not_or.mp refused
  have ready := (Bool.not_eq_false _).mp ready
  rw [eventPayload_of_ready hdr payload nonempty ready]
  split
  next fits =>
    obtain ⟨ended, out, finished, fin⟩ := eventFin_ended (s.put i
      (((s.cb i).filled (toggleEndian32 hdr.seq) payload plen).queue
        (((s.cb i).filled (toggleEndian32 hdr.seq) payload plen).ackSegment i))
      [((s.cb i).filled (toggleEndian32 hdr.seq) payload plen).ackSegment i]) i hdr
    rw [put_put] at finished
    rw [put_cb_self] at fin
    exact .inl ⟨_, ended, _, out, congrArg Except.ok finished,
      .copied nonempty ready fits.1 fits.2 _ rfl, fin⟩
  next outside => exact .inr ⟨rfl, nonempty, ready, outside⟩

end

/-- The ready states are among those whose acknowledgements are processed, and an
acknowledgement does not leave them. -/
theorem rxIsReady_acked {cb : TcpCb} (ack : BitVec 32) (acks : cb.state.acks = true)
    (running : cb.state ≠ .closing) : (cb.acked ack).rxIsReady = cb.rxIsReady := by
  unfold rxIsReady acked
  by_cases all : ack = cb.sndNxt
  · cases state : cb.state
    all_goals simp_all [TcpState.acks]
  · simp [all]

section

variable (hdr payload plen)

/-- `tcp_incoming_event` on a block that takes acknowledgements. -/
theorem synchronized_spec (inOrder : InOrder hdr (s.cb i)) (acks : (s.cb i).state.acks = true) :
    let rest : Except Fault TcpStack := do
      let (s, more) ← s.eventAck i (toggleEndian32 hdr.ack)
      if more then
        let s ← s.eventPayload i hdr payload plen
        return s.eventFin i hdr
      else return s
    (∃ cb out, rest = .ok (s.put i cb out) ∧ Handled i hdr payload plen (s.cb i) cb out) ∨
      (rest = .error .bufOverrun ∧ Overruns hdr plen (s.cb i)) := by
  rw [eventAck_of_acks _ acks]
  by_cases acceptable : toggleEndian32 hdr.ack ≤ (s.cb i).sndNxt
  · rw [ackSynchronized_of_le acceptable]
    by_cases running : (s.cb i).state = .closing
    · exact .inl ⟨_, _, by simp [running, bind, Except.bind, pure, Except.pure],
        .closing inOrder running acceptable⟩
    have continues : decide ((s.cb i).state ≠ .closing) = true := decide_eq_true running
    rw [continues]
    have ready := rxIsReady_acked (toggleEndian32 hdr.ack) acks running
    have after := eventPayload_eventFin
      (s.put i ((s.cb i).acked (toggleEndian32 hdr.ack)) []) i hdr payload plen
    simp only [put_cb_self, put_put, List.nil_append] at after
    obtain ⟨taken, ended, out, out', finished, payload, fin⟩ |
      ⟨failed, nonempty, taking, outside⟩ := after
    · exact .inl ⟨ended, out ++ out', finished,
        .accepted inOrder acks running acceptable payload fin⟩
    · exact .inr ⟨failed, inOrder, ready ▸ taking, acceptable, nonempty, outside⟩
  · have unsent := BitVec.not_le.mp acceptable
    rw [ackSynchronized_of_gt unsent]
    exact .inl ⟨_, _, rfl, .unsent inOrder acks unsent⟩

end

/-- What `tcp_incoming_event` does to a block that never listened. -/
theorem tcpIncomingEvent_spec (p : Memory) (len : BitVec 32) (listening : (s.cb i).state ≠ .listen)
    (accepting : (s.cb i).state ≠ .synRcvd) (alone : (s.cb i).backlog = []) :
    let hdr := loadTcpHdr p
    let payload : Memory := fun k => p (hdr.hlen.toNat + k)
    let plen := len - hdr.hlen
    (∃ cb out, s.tcpIncomingEvent i p len = .ok (s.put i cb out) ∧
      Handled i hdr payload plen (s.cb i) cb out) ∨
    (s.tcpIncomingEvent i p len = .error .bufOverrun ∧ Overruns hdr plen (s.cb i)) := by
  intro hdr payload plen
  have ignored (late : ¬InOrder hdr (s.cb i)) :
      ∃ cb out, (Except.ok s : Except Fault TcpStack) = .ok (s.put i cb out) ∧
        Handled i hdr payload plen (s.cb i) cb out :=
    ⟨_, _, congrArg Except.ok (s.put_same i).symm, .ignored (.inr late)⟩
  -- The checks that every synchronized state shares, before the second switch.
  have checked (body : Except Fault TcpStack) (spec : InOrder hdr (s.cb i) →
        (∃ cb out, body = .ok (s.put i cb out) ∧ Handled i hdr payload plen (s.cb i) cb out) ∨
        (body = .error .bufOverrun ∧ Overruns hdr plen (s.cb i))) :
      let result : Except Fault TcpStack :=
        if toggleEndian32 hdr.seq ≠ (s.cb i).rcvNxt then .ok s
        else if flgIsSet hdr.flg (TCP_FLG_RST ||| TCP_FLG_SYN) then .ok s
        else if !flgIsSet hdr.flg TCP_FLG_ACK then .ok s
        else body
      (∃ cb out, result = .ok (s.put i cb out) ∧ Handled i hdr payload plen (s.cb i) cb out) ∨
        (result = .error .bufOverrun ∧ Overruns hdr plen (s.cb i)) := by
    split
    next seq => exact .inl (ignored fun inOrder => seq inOrder.seq)
    next seq =>
      split
      next flagged => exact .inl (ignored fun inOrder => by simp [inOrder.clean] at flagged)
      next clean =>
        split
        next ack => exact .inl (ignored fun inOrder => by simp [inOrder.ack] at ack)
        next ack =>
          exact spec ⟨not_not.mp seq, Bool.eq_false_iff.mpr clean, by simpa using ack⟩
  cases state : (s.cb i).state with
  | closed =>
    obtain ⟨cb, out, result, handled⟩ := eventClosed_handled hdr payload plen state
    refine .inl ⟨cb, out, ?_, handled⟩
    rw [← result]
    simp only [tcpIncomingEvent, state]
    rfl
  | listen => exact absurd state listening
  | synSent =>
    obtain ⟨cb, out, result, handled⟩ := eventSynSent_handled hdr payload plen state
    refine .inl ⟨cb, out, ?_, handled⟩
    rw [← result]
    simp only [tcpIncomingEvent, state]
    rfl
  | synRcvd => exact absurd state accepting
  | lastAck =>
    have cleared : s.eventAck i (toggleEndian32 hdr.ack) = .ok (s.put i .zero [], false) := by
      simp only [eventAck, state]
      rw [TCP_CB_TABLE_SIZE, tcpCbClear_eq_put _ alone]
      rfl
    have result := checked (.ok (s.put i .zero [])) fun inOrder =>
      .inl ⟨_, _, rfl, .lastAck inOrder state⟩
    simp only [tcpIncomingEvent, state]
    rw [cleared]
    exact result
  | timeWait =>
    simp only [tcpIncomingEvent, state]
    refine checked _ fun inOrder => .inl ?_
    -- the payload is ignored
    have unready : (s.cb i).rxIsReady = false := by
      simp [rxIsReady, state]
    have acked : s.eventAck i (toggleEndian32 hdr.ack) = .ok (s, true) := by
      simp [eventAck, state, pure, Except.pure]
    obtain ⟨ended, out, finished, fin⟩ := eventFin_ended s i hdr
    rw [acked]
    refine ⟨ended, out, ?_, .late inOrder state fin⟩
    simp only [bind, Except.bind, eventPayload_of_refused _ _ (.inr unready), if_true]
    exact congrArg Except.ok finished
  | established | finWait1 | finWait2 | closing | closeWait =>
    simp only [tcpIncomingEvent, state]
    exact checked _ fun inOrder =>
      synchronized_spec hdr payload plen inOrder (by rw [state]; rfl)

end TcpStack

end Xv6Rv32im.Tcp
