import Xv6Rv32im.Library.Run
import Xv6Rv32im.Tcp.Steps

/-!
# The release of a control block

`tcp_close` sleeps with the TCP lock released and clears its block when it wakes up; a segment in
LAST_ACK clears the block as well.  `Claims` keeps the history of the claims of each block by
`tcp_open`, and `Fins` what has been heard of the FIN that `tcp_close` sent.
-/

namespace Xv6Rv32im.Tcp

open Library.Run Function TcpStack

/-! ## A sleeping close and the next owner -/

/-- The TCP layer with the number of times that `tcp_open` has claimed each block, and the calls of
`tcp_close` that sleep: their block and the number of its claims when they were made. -/
structure Claims where
  stack : TcpStack
  count : Nat → Nat
  sleeping : List (Nat × Nat)

namespace Claims

def init : Claims := ⟨.init, fun _ => 0, []⟩

/-- The number that comes with an event tells which of the sleeping calls of a block wakes up. -/
def step (c : Claims) : Event × Nat → Except Fault Claims
  | (.tcpOpen ip port, _) =>
    let (soc, stack) := c.stack.tcpOpen ip port
    if soc < 0 then .ok { c with stack := stack }
    else .ok { c with
      stack := stack
      count := update c.count soc.toNat (c.count soc.toNat + 1) }
  | (.tcpClose soc, _) =>
    let stack := c.stack.tcpClose soc
    match socket soc with
    | none => .ok { c with stack := stack }
    | some i =>
      if stack.closers = c.stack.closers then .ok { c with stack := stack }
      else .ok { c with stack := stack, sleeping := (i, c.count i) :: c.sleeping }
  | (.tcpCloseWake i, n) =>
    if (i, n) ∈ c.sleeping ∧ c.stack.locked = false then
      .ok { c with stack := c.stack.tcpCloseWake i, sleeping := c.sleeping.erase (i, n) }
    else .ok c
  | (event, _) => do
      let stack ← c.stack.step event
      return { c with stack := stack }

/-- `tcp_open` does not claim a block on which a call of `tcp_close` sleeps. -/
def Undisturbed (c : Claims) : Event × Nat → Prop
  | (.tcpOpen ip port, _) => ∀ call ∈ c.sleeping, (c.stack.tcpOpen ip port).1 ≠ call.1
  | _ => True

instance (c : Claims) : DecidablePred c.Undisturbed
  | (.tcpOpen .., _) => inferInstanceAs (Decidable (∀ call ∈ _, _))
  | (.tcpConnect .., _) | (.tcpSend .., _) | (.tcpClose .., _) | (.tcpCloseWake .., _)
  | (.tcpRead .., _) | (.tcpRx .., _) => isTrue True.intro

/-- No block has been claimed since a sleeping call was made. -/
structure Current (c : Claims) : Prop where
  plain : c.stack.Plain
  current : ∀ call ∈ c.sleeping, c.count call.1 = call.2

theorem init_current : init.Current :=
  ⟨plain_init, nofun⟩

variable {c next : Claims} {event : Event} {t : TcpStack}

theorem Current.of_stack (current : c.Current) (event : Event)
    (stepped : c.stack.step event = .ok t) : ({ c with stack := t } : Claims).Current :=
  ⟨(step_moved current.plain stepped).plain current.plain, current.current⟩

theorem Current.step {event : Event × Nat} (current : c.Current)
    (undisturbed : c.Undisturbed event) (stepped : c.step event = .ok next) : next.Current := by
  obtain ⟨event, n⟩ := event
  cases event with
  | tcpOpen ip port =>
    have kept := current.of_stack (.tcpOpen ip port) rfl
    rw [Claims.step] at stepped
    dsimp only at stepped
    split at stepped
    · cases stepped
      exact kept
    next claimed =>
      cases stepped
      refine ⟨kept.plain, fun call asleep => ?_⟩
      have ne : call.1 ≠ (c.stack.tcpOpen ip port).1.toNat := by
        have apart := undisturbed call asleep
        omega
      dsimp only
      rw [update_of_ne ne]
      exact current.current call asleep
  | tcpClose soc =>
    have kept := current.of_stack (.tcpClose soc) rfl
    rw [Claims.step] at stepped
    split at stepped
    · cases stepped
      exact kept
    split at stepped
    · cases stepped
      exact kept
    cases stepped
    refine ⟨kept.plain, fun call asleep => ?_⟩
    rcases List.mem_cons.mp asleep with new | old
    · rw [new]
    · exact current.current call old
  | tcpCloseWake i =>
    rw [Claims.step] at stepped
    split at stepped
    · cases stepped
      have kept := current.of_stack (.tcpCloseWake i) rfl
      exact ⟨kept.plain, fun call asleep =>
        current.current call (List.mem_of_mem_erase asleep)⟩
    · cases stepped
      exact current
  | tcpConnect soc dstIp dstPort =>
    cases stepped
    exact current.of_stack (.tcpConnect soc dstIp dstPort) rfl
  | tcpSend soc len =>
    cases stepped
    exact current.of_stack (.tcpSend soc len) rfl
  | tcpRead | tcpRx =>
    obtain ⟨t, ran, rest⟩ := of_bind_eq_ok stepped
    cases rest
    exact current.of_stack _ ran

/-- In every run in which `tcp_open` claims no block on which a call of `tcp_close` sleeps, a call
that wakes up changes no block but the one it closes, and that only if nobody has claimed it
since. -/
theorem close_spares_later_claims (events : List (Event × Nat)) (c : Claims)
    (undisturbed : Meets step Undisturbed init events) (ran : run step init events = .ok c)
    (i n : Nat) (asleep : (i, n) ∈ c.sleeping) (next : Claims)
    (woken : c.step (.tcpCloseWake i, n) = .ok next) (j : Nat)
    (modified : next.stack.cb j ≠ c.stack.cb j) : j = i ∧ c.count j = n := by
  have current := run_invariant (fun _ _ _ => Current.step) init_current undisturbed ran
  rw [step] at woken
  split at woken
  · cases woken
    have same : j = i := by
      cases tcpCloseWake_moved i current.plain with
      | nothing blocks sent => exact absurd (congrFun blocks j) modified
      | block i' changed blocks sent =>
        cases changed
        by_contra different
        refine modified ?_
        rw [blocks, update_of_ne different]
    exact ⟨same, same ▸ current.current _ asleep⟩
  · cases woken
    exact absurd rfl modified

def peerCloses : List Event :=
  handshake ++ [
    .tcpRx (.make 0x0a000202 80 49152 1001 33614 5 (TCP_FLG_FIN ||| TCP_FLG_ACK) 0 fun _ => 0),
    .tcpClose 0]

def closedByPeer : List (Event × Nat) := peerCloses.map (·, 0)

theorem close_spares_later_claims_alone :
    ∃ c next, run step init closedByPeer = .ok c ∧ (0, 1) ∈ c.sleeping ∧
      c.step (.tcpCloseWake 0, 1) = .ok next ∧ next.stack.cb 0 ≠ c.stack.cb 0 ∧
      c.count 0 = 1 := by
  have observed : (run step init closedByPeer).map (fun c => decide ((0, 1) ∈ c.sleeping ∧
      (c.stack.cb 0).used = true ∧ (c.step (.tcpCloseWake 0, 1)).map
        (fun next => (next.stack.cb 0).used) = .ok false)) = .ok true := by decide +kernel
  obtain ⟨c, ran, seen⟩ := of_map_eq_ok observed
  obtain ⟨asleep, used, cleared⟩ := of_decide_eq_true seen
  obtain ⟨next, woken, unused⟩ := of_map_eq_ok cleared
  have modified : next.stack.cb 0 ≠ c.stack.cb 0 := by
    intro same
    rw [same, used] at unused
    cases unused
  refine ⟨c, next, ran, asleep, woken, modified, ?_⟩
  exact (close_spares_later_claims closedByPeer c (by decide +kernel) ran 0 1 asleep next woken 0
    modified).2

/-- The peer acknowledges our FIN, which frees the block, and the block is claimed again. -/
def claimedAgain : List (Event × Nat) :=
  closedByPeer ++ [ (.tcpRx (.make 0x0a000202 80 49152 1002 33615 5 TCP_FLG_ACK 0 fun _ => 0), 0),
    (.tcpOpen 1 1, 0)]

/-- The call that still sleeps clears the block of its new owner. -/
theorem close_clears_new_owner :
    ∃ c next, run step init claimedAgain = .ok c ∧ (0, 1) ∈ c.sleeping ∧ c.count 0 = 2 ∧
      c.step (.tcpCloseWake 0, 1) = .ok next ∧ (c.stack.cb 0).used = true ∧
      (next.stack.cb 0).used = false := by
  have observed : (run step init claimedAgain).map (fun c => decide ((0, 1) ∈ c.sleeping ∧
      c.count 0 = 2 ∧ (c.stack.cb 0).used = true ∧ (c.step (.tcpCloseWake 0, 1)).map
        (fun next => (next.stack.cb 0).used) = .ok false)) = .ok true := by decide +kernel
  obtain ⟨c, ran, seen⟩ := of_map_eq_ok observed
  obtain ⟨asleep, twice, used, cleared⟩ := of_decide_eq_true seen
  obtain ⟨next, woken, unused⟩ := of_map_eq_ok cleared
  exact ⟨c, next, ran, asleep, twice, woken, used, unused⟩

end Claims

/-! ## The acknowledgement of our FIN -/

/-- What has been heard of a connection since `tcp_close` sent its FIN: nothing is known before;
then the FIN awaits the acknowledgement of `nxt`, and `woken` tells whether a segment that may wake
up the caller has come. -/
inductive FinAck where
  | none
  | awaited (nxt : BitVec 32) (woken : Bool)
  | received
  deriving DecidableEq

namespace FinAck

def receive (hdr : TcpHdr) (cb : TcpCb) : FinAck → FinAck
  | .awaited nxt woken =>
    if flgIsSet hdr.flg TCP_FLG_ACK = true ∧ toggleEndian32 hdr.ack = nxt then .received
    else .awaited nxt (woken || decide (InOrder hdr cb))
  | ack => ack

/-- If the acknowledgement is awaited, the segment is in order only if it is that one. -/
def Answers (hdr : TcpHdr) (cb : TcpCb) : FinAck → Prop
  | .awaited nxt _ => InOrder hdr cb → toggleEndian32 hdr.ack = nxt
  | _ => True

instance (hdr : TcpHdr) (cb : TcpCb) (ack : FinAck) : Decidable (ack.Answers hdr cb) :=
  match ack with
  | .awaited .. => inferInstanceAs (Decidable (_ → _))
  | .none | .received => isTrue True.intro

def isAwaited : FinAck → Bool
  | .awaited _ _ => true
  | _ => false

/-- Nothing can have woken up the caller. -/
def isQuiet : FinAck → Bool
  | .awaited _ woken => !woken
  | _ => false

end FinAck

namespace TcpStack

def receiver (s : TcpStack) (packet : Packet) : Option Nat :=
  if packet.len.toNat < TCP_HDR_SIZE ∨ s.locked = true then none
  else s.findCb packet.srcIp packet.hdr

end TcpStack

/-- The TCP layer and what has been heard of the FINs of its blocks. -/
structure Fins where
  stack : TcpStack
  fin : Nat → FinAck

namespace Fins

def init : Fins := ⟨.init, fun _ => .none⟩

def step (f : Fins) : Event → Except Fault Fins
  | .tcpOpen ip port =>
    let (soc, stack) := f.stack.tcpOpen ip port
    if soc < 0 then .ok { f with stack := stack }
    else .ok ⟨stack, update f.fin soc.toNat .none⟩
  | .tcpClose soc =>
    let stack := f.stack.tcpClose soc
    match socket soc with
    | none => .ok { f with stack := stack }
    | some i =>
      if stack.closers = f.stack.closers then .ok { f with stack := stack }
      else .ok ⟨stack, update f.fin i (.awaited (stack.cb i).sndNxt false)⟩
  | .tcpRx packet => do
      let stack ← f.stack.tcpRx packet
      match f.stack.receiver packet with
      | none => return { f with stack := stack }
      | some i =>
        let heard := (f.fin i).receive packet.hdr (f.stack.cb i)
        return ⟨stack, update f.fin i heard⟩
  | event => do
      let stack ← f.stack.step event
      return { f with stack := stack }

/-- While the acknowledgement of a FIN is awaited, every segment in order is this acknowledgement,
`tcp_close` goes on only after a segment that wakes it up, and the block is not closed again. -/
def Answered (f : Fins) : Event → Prop
  | .tcpRx packet =>
    ∀ i ∈ f.stack.receiver packet, (f.fin i).Answers packet.hdr (f.stack.cb i)
  | .tcpCloseWake i => (f.fin i).isQuiet = false
  | .tcpClose soc => ∀ i ∈ socket soc, (f.fin i).isAwaited = false
  | _ => True

instance (f : Fins) : DecidablePred f.Answered
  | .tcpRx _ | .tcpClose _ => inferInstanceAs (Decidable (∀ i ∈ _, _))
  | .tcpCloseWake _ => inferInstanceAs (Decidable (_ = _))
  | .tcpOpen .. | .tcpConnect .. | .tcpSend .. | .tcpRead .. => isTrue True.intro

/-- A block whose FIN awaits its acknowledgement is still in use, and nothing has woken up its
`tcp_close`. -/
structure Waiting (f : Fins) : Prop where
  plain : f.stack.Plain
  waiting : ∀ i nxt woken, f.fin i = .awaited nxt woken → woken = false ∧ (f.stack.cb i).used = true

theorem init_waiting : init.Waiting :=
  ⟨plain_init, nofun⟩

end Fins

section

variable {i : Nat} {hdr : TcpHdr} {payload : Memory} {plen : BitVec 32} {cb cb' : TcpCb}
  {out : List Sent}

/-- Only a segment in order can clear a block. -/
theorem Handled.used (handled : Handled i hdr payload plen cb cb' out)
    (disordered : ¬InOrder hdr cb) : cb'.used = cb.used := by
  cases handled with
  | ignored idle => rfl
  | reset unsynchronized segment source flg => rfl
  | synSeen state syn seen content | connected state syn above below opened content =>
    subst content
    rfl
  | unsent inOrder | closing inOrder | lastAck inOrder | accepted inOrder | late inOrder =>
    exact absurd inOrder disordered

end

namespace TcpStack

variable {s t : TcpStack}

/-- The calls other than `tcp_close` clear no block. -/
theorem Moved.used (moved : Moved s event t) {i : Nat} (used : (s.cb i).used = true)
    (notClose : ∀ soc, socket soc = some i → event ≠ .tcpClose soc)
    (notWoken : event ≠ .tcpCloseWake i) (notSegment : ∀ packet, event ≠ .tcpRx packet) :
    (t.cb i).used = true := by
  cases moved with
  | nothing blocks sent => rwa [blocks]
  | block j changed blocks sent =>
    rw [blocks]
    by_cases same : i = j
    · subst same
      rw [update_self]
      cases changed with
      | opened unused => rfl
      | connecting target isUsed closed port iss opening content segment syn =>
        subst content
        exact used
      | sent target ready segment content => exact used
      | finSent target | closed target => exact absurd rfl (notClose _ target)
      | woken => exact absurd rfl notWoken
      | read target bounded =>
        generalize (s.cb i).readLen _ = len
        exact used
      | segment found handled => exact absurd rfl (notSegment _)
    · rwa [update_of_ne same]

theorem tcpClose_used {soc : Int} {i : Nat} (plain : s.Plain) (target : socket soc = some i)
    (sleeps : (s.tcpClose soc).closers ≠ s.closers) : ((s.tcpClose soc).cb i).used = true := by
  have cleared : (tcpCbClear TCP_CB_TABLE_SIZE s i).closers = s.closers := by
    rw [TCP_CB_TABLE_SIZE, tcpCbClear_eq_put _ (plain i).alone]
    rfl
  unfold tcpClose at sleeps ⊢
  rw [target] at sleeps ⊢
  dsimp only at sleeps ⊢
  split at sleeps
  · exact absurd rfl sleeps
  split at sleeps
  · exact absurd rfl sleeps
  next unlocked isUsed =>
    have used : (s.cb i).used = true := by simpa using isUsed
    simp only [modifyCb_eq_put, put_cb_self, put_put, tcpTxEmpty_eq_put] at sleeps ⊢
    rw [if_neg unlocked, if_neg isUsed]
    cases state : (s.cb i).state with
    | synRcvd => exact absurd state (plain i).accepting
    | established | closeWait =>
      simp only [put, update_self]
      exact used
    | closed | listen | synSent | finWait1 | finWait2 | closing | timeWait | lastAck =>
      simp only [state] at sleeps
      exact absurd cleared sleeps

end TcpStack

namespace Fins

variable {f next : Fins}

theorem Waiting.of_moved (waiting : f.Waiting) (moved : Moved f.stack event t)
    (fin : Nat → FinAck)
    (kept : ∀ i nxt woken, fin i = .awaited nxt woken → f.fin i = .awaited nxt woken ∧
      (∀ soc, socket soc = some i → event ≠ .tcpClose soc) ∧ event ≠ .tcpCloseWake i)
    (notSegment : ∀ packet, event ≠ .tcpRx packet) : (⟨t, fin⟩ : Fins).Waiting := by
  refine ⟨moved.plain waiting.plain, fun i nxt woken awaited => ?_⟩
  obtain ⟨pre, notClose, notWoken⟩ := kept i nxt woken awaited
  obtain ⟨quiet, used⟩ := waiting.waiting i nxt woken pre
  exact ⟨quiet, moved.used used notClose notWoken notSegment⟩

theorem Waiting.segment {packet : Packet} (waiting : f.Waiting)
    (answered : f.Answered (.tcpRx packet)) (ran : f.stack.tcpRx packet = .ok t)
    (stepped : f.step (.tcpRx packet) = .ok next) : next.Waiting := by
  rw [step, ran] at stepped
  have moved : Moved f.stack (.tcpRx packet) t := step_moved waiting.plain ran
  have plain := moved.plain waiting.plain
  obtain ⟨ignored, why⟩ | ⟨i, found, unlocked, long, outcome⟩ :=
    tcpRx_spec waiting.plain packet
  · have nobody : f.stack.receiver packet = none := by
      unfold receiver
      split
      · rfl
      next through =>
        obtain short | locked | missing := why
        · exact absurd (.inl short) through
        · exact absurd (.inr locked) through
        · exact missing
    rw [ran] at ignored
    cases ignored
    rw [nobody] at stepped
    cases stepped
    exact waiting
  · have taken : f.stack.receiver packet = some i := by
      unfold receiver
      rw [if_neg (by simp [unlocked, long])]
      exact found
    rw [taken] at stepped
    cases stepped
    obtain ⟨cb, out, ran', handled⟩ | ⟨failed, -⟩ := outcome
    · rw [ran] at ran'
      cases ran'
      refine ⟨plain, fun j nxt woken awaited => ?_⟩
      dsimp only at awaited ⊢
      by_cases same : j = i
      · subst same
        rw [update_self] at awaited
        rw [put_cb_self]
        have answers := answered j taken
        cases pre : f.fin j with
        | none | received =>
          rw [pre] at awaited
          cases awaited
        | awaited nxt' woken' =>
          obtain ⟨quiet, used⟩ := waiting.waiting j nxt' woken' pre
          rw [pre] at awaited answers
          unfold FinAck.receive at awaited
          dsimp only at awaited
          -- A segment in order is the acknowledgement, and then nothing is awaited any more.
          have disordered : ¬InOrder packet.hdr (f.stack.cb j) := by
            intro inOrder
            rw [if_pos ⟨inOrder.ack, answers inOrder⟩] at awaited
            cases awaited
          split at awaited
          · cases awaited
          · cases awaited
            exact ⟨by simp [quiet, disordered], (handled.used disordered).trans used⟩
      · rw [update_of_ne same] at awaited
        rw [put_cb_of_ne _ _ same]
        exact waiting.waiting j nxt woken awaited
    · rw [ran] at failed
      cases failed

theorem Waiting.step (waiting : f.Waiting) (answered : f.Answered event)
    (stepped : f.step event = .ok next) : next.Waiting := by
  cases event with
  | tcpOpen ip port =>
    rw [Fins.step] at stepped
    dsimp only at stepped
    split at stepped
    · cases stepped
      exact waiting.of_moved (tcpOpen_moved f.stack ip port) _
        (fun _ _ _ awaited => ⟨awaited, nofun, nofun⟩) nofun
    cases stepped
    refine waiting.of_moved (tcpOpen_moved f.stack ip port) _ ?_ nofun
    intro i nxt woken awaited
    rw [update_apply] at awaited
    split at awaited
    · cases awaited
    · exact ⟨awaited, nofun, nofun⟩
  | tcpClose soc =>
    have moved := tcpClose_moved soc waiting.plain
    rw [Fins.step] at stepped
    cases target : socket soc with
    | none =>
      simp only [target] at stepped
      cases stepped
      refine waiting.of_moved moved _ (fun i nxt woken awaited => ⟨awaited, ?_, nofun⟩) nofun
      rintro soc' target' ⟨⟩
      rw [target] at target'
      cases target'
    | some i =>
      have other j nxt woken (ne : j ≠ i)
          (awaited : f.fin j = .awaited nxt woken) :
          woken = false ∧ ((f.stack.tcpClose soc).cb j).used = true := by
        obtain ⟨quiet, used⟩ := waiting.waiting j nxt woken awaited
        refine ⟨quiet, moved.used used ?_ nofun nofun⟩
        rintro soc' target' ⟨⟩
        rw [target] at target'
        cases target'
        exact ne rfl
      simp only [target] at stepped
      split at stepped
      · cases stepped
        refine ⟨moved.plain waiting.plain, fun j nxt woken awaited => ?_⟩
        refine other j nxt woken ?_ awaited
        rintro rfl
        have idle := answered j target
        rw [awaited] at idle
        cases idle
      next sleeps =>
        cases stepped
        refine ⟨moved.plain waiting.plain, fun j nxt woken awaited => ?_⟩
        dsimp only at awaited ⊢
        by_cases same : j = i
        · subst same
          rw [update_self] at awaited
          cases awaited
          exact ⟨rfl, tcpClose_used waiting.plain target sleeps⟩
        · rw [update_of_ne same] at awaited
          exact other j nxt woken same awaited
  | tcpCloseWake i =>
    cases stepped
    refine waiting.of_moved (tcpCloseWake_moved i waiting.plain) _ ?_ nofun
    rintro j nxt woken awaited
    refine ⟨awaited, nofun, ?_⟩
    rintro ⟨⟩
    have loud : (f.fin i).isQuiet = false := answered
    rw [awaited, (waiting.waiting i nxt woken awaited).1] at loud
    cases loud
  | tcpConnect soc dstIp dstPort =>
    cases stepped
    exact waiting.of_moved (tcpConnect_moved f.stack soc dstIp dstPort) _
      (fun _ _ _ awaited => ⟨awaited, nofun, nofun⟩) nofun
  | tcpSend soc len =>
    cases stepped
    exact waiting.of_moved (tcpSend_moved f.stack soc len) _
      (fun _ _ _ awaited => ⟨awaited, nofun, nofun⟩) nofun
  | tcpRead soc size copied =>
    obtain ⟨t, ran, rest⟩ := of_bind_eq_ok stepped
    cases rest
    exact waiting.of_moved (step_moved waiting.plain ran) _
      (fun _ _ _ awaited => ⟨awaited, nofun, nofun⟩) nofun
  | tcpRx packet =>
    obtain ⟨t, ran, -⟩ := of_bind_eq_ok stepped
    exact waiting.segment answered ran stepped

/-- In every run in which each segment in order that meets an unacknowledged FIN acknowledges it,
and no other event ends the sleep of `tcp_close`, a block is in use until its FIN is
acknowledged. -/
theorem released_after_fin_acked (events : List Event) (f : Fins)
    (answered : Meets step Answered init events) (ran : run step init events = .ok f) (i : Nat)
    (nxt : BitVec 32) (woken : Bool) (awaited : f.fin i = .awaited nxt woken) :
    (f.stack.cb i).used = true :=
  ((run_invariant (fun _ _ _ => Waiting.step) init_waiting answered ran).waiting i nxt woken
    awaited).2

theorem released_after_fin_acked_waiting :
    ∃ f, run step init (handshake ++ [.tcpClose 0]) = .ok f ∧
      f.fin 0 = .awaited 33615 false ∧ (f.stack.cb 0).used = true := by
  have observed : (run step init (handshake ++ [.tcpClose 0])).map
      (fun f => decide (f.fin 0 = .awaited 33615 false)) = .ok true := by decide +kernel
  obtain ⟨f, ran, seen⟩ := of_map_eq_ok observed
  have awaited := of_decide_eq_true seen
  exact ⟨f, ran, awaited,
    released_after_fin_acked _ f (by decide +kernel) ran 0 33615 false awaited⟩

/-- We close, and then data of the peer arrives that acknowledges nothing; it wakes up our
`tcp_close`. -/
def dataAfterFin : List Event :=
  handshake ++ [.tcpClose 0,
    .tcpRx (.make 0x0a000202 80 49152 1001 33614 5 TCP_FLG_ACK 3 fun _ => 0x61),
    .tcpCloseWake 0]

/-- The block is cleared while our FIN is not acknowledged. -/
theorem released_before_fin_acked :
    (run step init dataAfterFin).map (fun f => (f.fin 0, (f.stack.cb 0).used)) =
      .ok (.awaited 33615 true, false) := by
  decide +kernel

end Fins

end Xv6Rv32im.Tcp
