import Xv6Rv32im.Library.Run
import Xv6Rv32im.Tcp.Steps

/-!
# The closing states and the acknowledgement of our FIN

FIN_WAIT2 and TIME_WAIT are meant for a FIN that the peer has acknowledged.  A
FIN that arrives in FIN_WAIT1 moves the block to FIN_WAIT2 whatever it
acknowledges, and an acknowledgement is compared with `snd.una` as a plain
number.  Where neither happens the two states imply `snd.una = snd.nxt`.
-/

namespace Xv6Rv32im.Tcp

open Library.Run TcpCb

/-! ## One block -/

/-- Our FIN has been acknowledged in the states that say so, and the block is not
in CLOSING, which no transition enters. -/
structure TcpCb.TracksFin (cb : TcpCb) : Prop where
  notClosing : cb.state ≠ .closing
  acknowledged : cb.state = .finWait2 ∨ cb.state = .timeWait → cb.sndUna = cb.sndNxt

/-- A segment that is processed in FIN_WAIT1: its FIN comes with an
acknowledgement of ours, and that acknowledgement is not below `snd.una`. -/
structure FinCovered (hdr : TcpHdr) (cb : TcpCb) : Prop where
  fin : flgIsSet hdr.flg TCP_FLG_FIN = true → toggleEndian32 hdr.ack = cb.sndNxt
  ordered : toggleEndian32 hdr.ack = cb.sndNxt → cb.sndUna ≤ cb.sndNxt

instance (hdr : TcpHdr) (cb : TcpCb) : Decidable (FinCovered hdr cb) :=
  decidable_of_iff (_ ∧ _)
    ⟨fun ⟨fin, ordered⟩ => ⟨fin, ordered⟩, fun covered => ⟨covered.fin, covered.ordered⟩⟩

section

variable {i : Nat} {hdr : TcpHdr} {payload : Memory} {plen : BitVec 32} {cb cb' : TcpCb}
  {out : List Sent} {ack : BitVec 32}

theorem TcpCb.TracksFin.of_state (state : cb.state ≠ .closing ∧ cb.state ≠ .finWait2 ∧
    cb.state ≠ .timeWait) : cb.TracksFin :=
  ⟨state.1, fun final => (final.elim state.2.1 state.2.2).elim⟩

/-- An acknowledgement leaves the states other than FIN_WAIT1 and CLOSING. -/
theorem TcpCb.acked_state (ack : BitVec 32) (wait : cb.state ≠ .finWait1)
    (closing : cb.state ≠ .closing) : (cb.acked ack).state = cb.state := by
  unfold acked
  dsimp only
  split
  · split
    next state => exact absurd state wait
    next state => exact absurd state closing
    · rfl
  · rfl

theorem TcpCb.acked_state_of_finWait1 (ack : BitVec 32) (wait : cb.state = .finWait1) :
    (cb.acked ack).state = if ack = cb.sndNxt then .finWait2 else .finWait1 := by
  simp [acked, wait]

theorem TcpCb.acked_sndUna (acceptable : ack ≤ cb.sndNxt) (ordered : cb.sndUna ≤ cb.sndNxt)
    (done : cb.sndUna = cb.sndNxt ∨ ack = cb.sndNxt) : (cb.acked ack).sndUna = cb.sndNxt := by
  unfold acked
  dsimp only
  split <;> bv_omega

theorem TcpCb.TracksFin.acked (tracks : cb.TracksFin) (acceptable : ack ≤ cb.sndNxt)
    (ordered : cb.state = .finWait1 → ack = cb.sndNxt → cb.sndUna ≤ cb.sndNxt) :
    (cb.acked ack).TracksFin := by
  by_cases wait : cb.state = .finWait1
  · have state := acked_state_of_finWait1 ack wait
    by_cases all : ack = cb.sndNxt
    · rw [if_pos all] at state
      exact ⟨by rw [state]; nofun, fun _ => acked_sndUna acceptable (ordered wait all) (.inr all)⟩
    · rw [if_neg all] at state
      exact .of_state (by rw [state]; exact ⟨nofun, nofun, nofun⟩)
  · have state := acked_state ack wait tracks.notClosing
    constructor
    · exact state ▸ tracks.notClosing
    · intro final
      rw [state] at final
      have done := tracks.acknowledged final
      exact acked_sndUna acceptable (BitVec.le_of_eq done) (.inl done)

theorem TcpCb.TracksFin.finned (tracks : cb.TracksFin) (wait : cb.state ≠ .finWait1) :
    cb.finned.TracksFin := by
  unfold TcpCb.finned TcpStack.finState
  cases state : cb.state with
  | finWait1 => exact absurd state wait
  | closing => exact absurd state tracks.notClosing
  | finWait2 => exact ⟨nofun, fun _ => tracks.acknowledged (.inl state)⟩
  | timeWait => exact ⟨nofun, fun _ => tracks.acknowledged (.inr state)⟩
  | closed | listen | synSent | synRcvd | established | closeWait | lastAck =>
    exact .of_state ⟨nofun, nofun, nofun⟩

/-- The fields of a block that the closing states depend on. -/
theorem TcpCb.TracksFin.congr (tracks : cb.TracksFin) (state : cb'.state = cb.state)
    (una : cb'.sndUna = cb.sndUna) (nxt : cb'.sndNxt = cb.sndNxt) : cb'.TracksFin := by
  constructor
  · rw [state]
    exact tracks.notClosing
  · rw [state, una, nxt]
    exact tracks.acknowledged

theorem Taken.state (taken : Taken i hdr payload plen cb cb' out) : cb'.state = cb.state := by
  cases taken with
  | skipped refused => rfl
  | copied nonempty ready window fits taken content =>
    subst content
    rfl

theorem Taken.tracksFin (taken : Taken i hdr payload plen cb cb' out) (tracks : cb.TracksFin) :
    cb'.TracksFin := by
  cases taken with
  | skipped refused => exact tracks
  | copied nonempty ready window fits taken content =>
    subst content
    exact tracks.congr rfl rfl rfl

theorem Ended.tracksFin (ended : Ended i hdr cb cb' out) (tracks : cb.TracksFin)
    (wait : flgIsSet hdr.flg TCP_FLG_FIN = true → cb.state ≠ .finWait1) : cb'.TracksFin := by
  cases ended with
  | more unset => exact tracks
  | fin set => exact (tracks.finned (wait set)).congr rfl rfl rfl

theorem Handled.tracksFin (handled : Handled i hdr payload plen cb cb' out) (tracks : cb.TracksFin)
    (covered : cb.state = .finWait1 → InOrder hdr cb → toggleEndian32 hdr.ack ≤ cb.sndNxt →
      FinCovered hdr cb) : cb'.TracksFin := by
  cases handled with
  | ignored idle => exact tracks
  | reset | unsent => exact tracks.congr rfl rfl rfl
  | synSeen state syn seen content segment answer =>
    subst content
    exact tracks.congr rfl rfl rfl
  | connected state syn above below opened content =>
    subst content
    exact .of_state ⟨nofun, nofun, nofun⟩
  | closing inOrder state acceptable => exact absurd state tracks.notClosing
  | lastAck inOrder state => exact .of_state ⟨nofun, nofun, nofun⟩
  | accepted inOrder acks running acceptable payload fin =>
    have after := payload.tracksFin (tracks.acked acceptable fun wait all =>
      (covered wait inOrder acceptable).ordered all)
    refine fin.tracksFin after fun set => ?_
    rw [payload.state]
    by_cases wait : cb.state = .finWait1
    · rw [acked_state_of_finWait1 _ wait, if_pos ((covered wait inOrder acceptable).fin set)]
      nofun
    · rw [acked_state _ wait running]
      exact wait
  | late inOrder state fin =>
    exact fin.tracksFin tracks fun _ => by rw [state]; nofun

end

/-! ## Runs -/

namespace TcpStack

theorem Changed.tracksFin {s : TcpStack} {i : Nat} {event : Event} {cb : TcpCb}
    {out : List Sent} (changed : Changed s i event cb out) (tracks : (s.cb i).TracksFin)
    (covered : ∀ packet, event = .tcpRx packet → i ∈ s.findCb packet.srcIp packet.hdr →
      (s.cb i).state = .finWait1 → InOrder packet.hdr (s.cb i) →
      toggleEndian32 packet.hdr.ack ≤ (s.cb i).sndNxt → FinCovered packet.hdr (s.cb i)) :
    cb.TracksFin := by
  cases changed with
  | opened unused => exact tracks.congr rfl rfl rfl
  | connecting | closed | woken => exact .of_state ⟨nofun, nofun, nofun⟩
  | sent target ready segment content =>
    -- Data is sent in ESTABLISHED and CLOSE_WAIT only.
    refine .of_state ?_
    change (s.cb i).state ≠ _ ∧ (s.cb i).state ≠ _ ∧ (s.cb i).state ≠ _
    unfold txIsReady at ready
    cases state : (s.cb i).state
    all_goals simp_all
  | finSent target state leaves segment content =>
    obtain ⟨-, rfl⟩ | ⟨-, rfl⟩ := leaves
    · exact .of_state ⟨nofun, nofun, nofun⟩
    · exact .of_state ⟨nofun, nofun, nofun⟩
  | read target bounded =>
    generalize (s.cb i).readLen _ = len
    exact tracks.congr rfl rfl rfl
  | segment found handled => exact handled.tracksFin tracks (covered _ rfl found)

/-- A packet that is processed in FIN_WAIT1 covers our FIN if it carries one. -/
def FinsCovered (s : TcpStack) : Event → Prop
  | .tcpRx packet =>
    ∀ i ∈ s.findCb packet.srcIp packet.hdr,
      (s.cb i).state = .finWait1 → InOrder packet.hdr (s.cb i) →
      toggleEndian32 packet.hdr.ack ≤ (s.cb i).sndNxt → FinCovered packet.hdr (s.cb i)
  | _ => True

instance (s : TcpStack) : DecidablePred s.FinsCovered
  | .tcpRx _ => inferInstanceAs (Decidable (∀ i ∈ _, _ → _))
  | .tcpOpen .. | .tcpConnect .. | .tcpSend .. | .tcpClose .. | .tcpCloseWake ..
  | .tcpRead .. => isTrue True.intro

/-- Plain blocks that track the acknowledgement of their FIN. -/
structure TracksFins (s : TcpStack) : Prop where
  plain : s.Plain
  tracks : ∀ i, (s.cb i).TracksFin

theorem tracksFins_init : TracksFins init :=
  ⟨plain_init, fun _ => .of_state ⟨nofun, nofun, nofun⟩⟩

theorem TracksFins.step {s t : TcpStack} {event : Event} (tracks : s.TracksFins)
    (covered : s.FinsCovered event) (stepped : s.step event = .ok t) : t.TracksFins := by
  have moved := step_moved tracks.plain stepped
  refine ⟨moved.plain tracks.plain, moved.forall tracks.tracks fun i cb out changed => ?_⟩
  refine changed.tracksFin (tracks.tracks i) ?_
  rintro packet rfl found
  exact covered i found

/-- In every run in which the packets processed in FIN_WAIT1 cover our FIN, the
states FIN_WAIT2 and TIME_WAIT imply that it is acknowledged, and a FIN that does
not cover ours leads from FIN_WAIT1 to nothing but CLOSING. -/
theorem close_states_track_fin (events : List Event) (final : TcpStack)
    (covered : Meets step FinsCovered init events) (ran : run step init events = .ok final) :
    (∀ i, (final.cb i).state = .finWait2 ∨ (final.cb i).state = .timeWait →
      (final.cb i).sndUna = (final.cb i).sndNxt) ∧
    ∀ packet next, final.FinsCovered (.tcpRx packet) → final.step (.tcpRx packet) = .ok next →
      ∀ i ∈ final.findCb packet.srcIp packet.hdr, (final.cb i).state = .finWait1 →
        InOrder packet.hdr (final.cb i) → toggleEndian32 packet.hdr.ack < (final.cb i).sndNxt →
        flgIsSet packet.hdr.flg TCP_FLG_FIN = true → (next.cb i).state = .closing := by
  have tracks := run_invariant (fun _ _ _ => TracksFins.step) tracksFins_init covered ran
  refine ⟨fun i => (tracks.tracks i).acknowledged, ?_⟩
  intro packet next allowed _ i found wait inOrder partly set
  have whole := (allowed i found wait inOrder (BitVec.le_of_lt partly)).fin set
  exact absurd partly (whole ▸ BitVec.lt_irrefl _)

/-- Connect, close, and then a FIN of the peer that acknowledges `ack`. -/
def closedByBoth (ack : BitVec 32) : List Event :=
  handshake ++ [.tcpClose 0,
    .tcpRx (.make 0x0a000202 80 49152 1001 ack 5 (TCP_FLG_FIN ||| TCP_FLG_ACK) 0 fun _ => 0)]

theorem close_states_track_fin_covered : ∃ final, run step init (closedByBoth 33615) = .ok final ∧
      ((∀ i, (final.cb i).state = .finWait2 ∨ (final.cb i).state = .timeWait →
        (final.cb i).sndUna = (final.cb i).sndNxt) ∧
      ∀ packet next, final.FinsCovered (.tcpRx packet) → final.step (.tcpRx packet) = .ok next →
        ∀ i ∈ final.findCb packet.srcIp packet.hdr, (final.cb i).state = .finWait1 →
          InOrder packet.hdr (final.cb i) → toggleEndian32 packet.hdr.ack < (final.cb i).sndNxt →
          flgIsSet packet.hdr.flg TCP_FLG_FIN = true → (next.cb i).state = .closing) := by
  have reached : (run step init (closedByBoth 33615)).map (fun _ => ()) = .ok () := by
    decide +kernel
  cases ran : run step init (closedByBoth 33615) with
  | error fault =>
    rw [ran] at reached
    cases reached
  | ok final =>
    exact ⟨final, rfl, close_states_track_fin (closedByBoth 33615) final (by decide +kernel) ran⟩

/-- A FIN that crosses ours moves the block to FIN_WAIT2 with our FIN unacknowledged. -/
theorem crossing_fin_reaches_finWait2 : (run step init (closedByBoth 33614)).map
      (fun final => ((final.cb 0).state, (final.cb 0).sndUna, (final.cb 0).sndNxt)) =
      .ok (.finWait2, 33614, 33615) := by
  decide +kernel

end TcpStack

end Xv6Rv32im.Tcp
