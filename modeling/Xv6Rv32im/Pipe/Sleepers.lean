import Xv6Rv32im.Pipe.Model

/-!
# Who sleeps on a pipe

A reader sleeps only while the pipe is empty and a writer only while it is full, unless a writer
is killed after it has looked at `killed` for the last time before it stores a byte: it then
leaves without waking up the readers.
-/

namespace Xv6Rv32im.Pipe

open Library.Ring Library.Run

def Call.critical : Call → Bool
  | .write _ .test | .write _ .room | .write _ .full | .write _ .finish => true
  | .read _ .test | .read _ .empty | .read _ .copy | .read _ .finish => true
  | _ => false

/-- The call has stored bytes, or may have, and will wake up the readers. -/
def Call.announces : Call → Bool
  | .write _ .test | .write _ .room | .write _ .finish => true
  | _ => false

/-- The call has removed bytes, or may have, and will wake up the writers. -/
def Call.drains : Call → Bool
  | .read _ .copy | .read _ .finish => true
  | _ => false

namespace System

variable {s s' : System} {p q : Nat} {call : Call}

def Full (s : System) : Prop := s.nwrite = s.nread + BitVec.ofNat 32 PIPESIZE

/-- Nobody sleeps for a reason that is gone. -/
structure NoLostWakeup (s : System) : Prop where
  readers : ∀ q, (s.procs q).sleeping = some .nread → s.nread = s.nwrite ∧ s.writeopen = true
  writers : ∀ q, (s.procs q).sleeping = some .nwrite → s.Full ∧ s.readopen = true

/-- What holds also while a call has the lock. -/
structure Orderly (s : System) : Prop where
  critical : ∀ p, (s.procs p).call.critical = true ↔ s.holder = some p
  asleep : ∀ p chan, (s.procs p).sleeping = some chan → (s.procs p).call.critical = false
  readers : ∀ q, (s.procs q).sleeping = some .nread → s.writeopen = true ∧
    (s.nread = s.nwrite ∨ ∃ h, s.holder = some h ∧ (s.procs h).call.announces = true)
  alert : ∀ q, (s.procs q).sleeping = some .nread → ∀ h args pc,
    (s.procs h).call = .write args pc → pc = .room ∨ pc = .test ∧ s.nread ≠ s.nwrite →
      s.readopen = true ∧ (s.procs h).killed = false
  writers : ∀ q, (s.procs q).sleeping = some .nwrite → s.readopen = true ∧
    (s.Full ∨ ∃ h, s.holder = some h ∧ (s.procs h).call.drains = true)
  empty : ∀ p args, (s.procs p).call = .read args .empty → s.nread = s.nwrite ∧ s.writeopen = true
  opened : ∀ p args pc, (s.procs p).call = .write args pc → pc = .room ∨ pc = .full →
    s.readopen = true
  full : ∀ p args, (s.procs p).call = .write args .full →
    s.Full ∧ ∀ q, (s.procs q).sleeping ≠ some .nread

theorem Orderly.noLostWakeup (orderly : s.Orderly) (free : s.holder = none) : s.NoLostWakeup := by
  constructor
  · intro q asleep
    obtain ⟨opened, empty | ⟨h, held, -⟩⟩ := orderly.readers q asleep
    · exact ⟨empty, opened⟩
    · rw [free] at held
      cases held
  · intro q asleep
    obtain ⟨opened, full | ⟨h, held, -⟩⟩ := orderly.writers q asleep
    · exact ⟨full, opened⟩
    · rw [free] at held
      cases held

/-- A kill that does not hit a writer with the lock, past its test or with bytes in the pipe,
while a reader sleeps. -/
def Timely (s : System) : Event → Prop
  | .kill p => ∀ args pc, (s.procs p).call = .write args pc →
      pc = .room ∨ pc = .test ∧ s.nread ≠ s.nwrite → ∀ q, (s.procs q).sleeping ≠ some .nread
  | _ => True

section

variable (orderly : s.Orderly) (pre : (s.procs p).call = call) (critical : call.critical = true)

include orderly pre critical

theorem Orderly.alone : ∀ h, s.holder = some h → h = p := by
  intro h holds
  have holder : s.holder = some p := (orderly.critical p).mp (by rw [pre, critical])
  exact Option.some.inj (holds.symm.trans holder)

/-- While a call that stores nothing has the lock, a reader sleeps on an empty pipe. -/
theorem Orderly.readers_settled (quiet : call.announces = false) :
    ∀ q, (s.procs q).sleeping = some .nread → s.nread = s.nwrite := by
  intro q asleep
  obtain ⟨-, empty | ⟨h, holds, announces⟩⟩ := orderly.readers q asleep
  · exact empty
  · obtain rfl := orderly.alone pre critical h holds
    rw [pre, quiet] at announces
    cases announces

/-- While a call that removes nothing has the lock, a writer sleeps on a full pipe. -/
theorem Orderly.writers_settled (quiet : call.drains = false) :
    ∀ q, (s.procs q).sleeping = some .nwrite → s.Full := by
  intro q asleep
  obtain ⟨-, full | ⟨h, holds, drains⟩⟩ := orderly.writers q asleep
  · exact full
  · obtain rfl := orderly.alone pre critical h holds
    rw [pre, quiet] at drains
    cases drains

end

/-! ## Kinds of steps -/

theorem procs_setProc (s : System) (p q : Nat) (proc : Proc) :
    (s.setProc p proc).procs q = if q = p then proc else s.procs q := by
  simp [setProc, Function.update]

section

variable (orderly : s.Orderly)

include orderly

theorem Orderly.setCall {call call' : Call} (pre : (s.procs p).call = call)
    (critical : call.critical = true) (critical' : call'.critical = true)
    (announces : ∀ q, (s.procs q).sleeping = some .nread → call.announces = true →
      call'.announces = true)
    (alert : ∀ args pc, call' = .write args pc → pc = .room ∨ pc = .test ∧ s.nread ≠ s.nwrite →
      s.readopen = true ∧ (s.procs p).killed = false)
    (drains : call.drains = true → call'.drains = true)
    (empty : ∀ args, call' = .read args .empty → s.nread = s.nwrite ∧ s.writeopen = true)
    (opened : ∀ args pc, call' = .write args pc → pc = .room ∨ pc = .full → s.readopen = true)
    (full : ∀ args, call' = .write args .full →
      s.Full ∧ ∀ q, (s.procs q).sleeping ≠ some .nread) : (s.setCall p call').Orderly := by
  cases orderly
  unfold System.setCall
  constructor <;> simp only [procs_setProc]
  all_goals grind [setProc, Full]

theorem Orderly.acquire (awake : (s.procs p).sleeping = none)
    (first : ∃ args, call = .write args .test ∨ call = .read args .test) :
    (s.acquire p call).Orderly := by
  unfold System.acquire
  split
  next free =>
    have settled := orderly.noLostWakeup free
    cases orderly
    obtain ⟨readers', writers'⟩ := settled
    unfold System.setCall
    constructor <;> simp only [procs_setProc]
    all_goals grind [setProc, Full, Call.critical]
  next => exact orderly

/-- The lock is given back, and nobody sleeps for a reason that is gone. -/
theorem Orderly.leave (alone : ∀ h, s.holder = some h → h = p)
    (readers : ∀ q, (s.procs q).sleeping = some .nread → s.nread = s.nwrite)
    (writers : ∀ q, (s.procs q).sleeping = some .nwrite → s.Full) (ret : BitVec 32) :
    (s.leave p ret).Orderly := by
  cases orderly
  unfold System.leave
  constructor <;> simp only [procs_setProc]
  all_goals grind [setProc, Full, Call.critical]

theorem Orderly.sleep {chan : Chan} (critical : (s.procs p).call.critical = true)
    (call' : ∃ args, call = .write args .relock ∨ call = .read args .relock)
    (readers : chan = .nread ∨ (∃ q, (s.procs q).sleeping = some .nread) →
      s.nread = s.nwrite ∧ s.writeopen = true)
    (writers : chan = .nwrite ∨ (∃ q, (s.procs q).sleeping = some .nwrite) →
      s.Full ∧ s.readopen = true) : (s.sleep p chan call).Orderly := by
  cases orderly
  unfold System.sleep
  constructor <;> simp only [procs_setProc]
  all_goals grind [setProc, Full, Call.critical]

end

theorem procs_wakeup (s : System) (chan : Chan) (q : Nat) :
    ((s.wakeup chan).procs q).call = (s.procs q).call ∧
      ((s.wakeup chan).procs q).killed = (s.procs q).killed ∧
      ((s.wakeup chan).procs q).sleeping ≠ some chan ∧
      ∀ chan', ((s.wakeup chan).procs q).sleeping = some chan' →
        (s.procs q).sleeping = some chan' := by
  unfold wakeup
  dsimp only
  split
  · exact ⟨rfl, rfl, nofun, nofun⟩
  next awake => exact ⟨rfl, rfl, awake, fun _ same => same⟩

section

variable (orderly : s.Orderly)

include orderly

/-- Fewer processes sleep; an end may be shut at the same time, if the lock is free and those who
sleep for it to be open are woken up. -/
theorem Orderly.woken {t : System} {chan : Chan} (holder : t.holder = s.holder)
    (nread : t.nread = s.nread) (nwrite : t.nwrite = s.nwrite)
    (procs : t.procs = (s.wakeup chan).procs)
    (writeopen : t.writeopen = s.writeopen ∨ s.holder = none ∧ chan = .nread)
    (readopen : t.readopen = s.readopen ∨ s.holder = none ∧ chan = .nwrite) : t.Orderly := by
  have woken := procs_wakeup s chan
  rw [← procs] at woken
  cases orderly
  constructor
  all_goals grind [Full, Call.critical]

theorem Orderly.wakeup (chan : Chan) : (s.wakeup chan).Orderly :=
  orderly.woken rfl rfl rfl rfl (.inl rfl) (.inl rfl)

/-- A byte is stored: no writer sleeps, and the call will wake up the readers. -/
theorem Orderly.put {args args' : Args} (pre : (s.procs p).call = .write args .room)
    (room : ¬s.Full) (ch : BitVec 8) :
    ((s.put args ch).setCall p (.write args' .test)).Orderly := by
  have awake : ∀ q, (s.procs q).sleeping ≠ some .nwrite :=
    fun q asleep => room (orderly.writers_settled pre rfl rfl q asleep)
  have holder : s.holder = some p := (orderly.critical p).mp (by rw [pre]; rfl)
  cases orderly
  unfold System.setCall System.put
  constructor <;> simp only [procs_setProc]
  all_goals grind [setProc, Call.critical, Call.announces]

variable {args : Args}

/-- A byte is removed: no reader sleeps, and the call will wake up the writers. -/
theorem Orderly.take (pre : (s.procs p).call = .read args .copy) (bytes : s.nread ≠ s.nwrite)
    (after : ∃ args', call = .read args' .copy ∨ call = .read args' .finish) :
    (s.take.setCall p call).Orderly := by
  have awake : ∀ q, (s.procs q).sleeping ≠ some .nread :=
    fun q asleep => bytes (orderly.readers_settled pre rfl rfl q asleep)
  have holder : s.holder = some p := (orderly.critical p).mp (by rw [pre]; rfl)
  cases orderly
  unfold System.setCall System.take
  constructor <;> simp only [procs_setProc]
  all_goals grind [setProc, Call.critical, Call.drains]

/-! ## The calls -/

theorem Orderly.finish {pc : WritePc} (pre : (s.procs p).call = .write args pc)
    (critical : (Call.write args pc).critical = true) :
    (s.setCall p (.write args .finish)).Orderly := by
  refine orderly.setCall pre critical rfl (fun _ _ _ => rfl) ?_ nofun nofun ?_ nofun
  all_goals
    intro _ _ same pc
    cases same
    simp at pc

theorem Orderly.pipewrite {pc : WritePc} (awake : (s.procs p).sleeping = none)
    (pre : (s.procs p).call = .write args pc) (user : UserMemory) :
    (s.pipewrite p user args pc).Orderly := by
  cases pc with
  | start | relock => exact orderly.acquire awake ⟨args, .inl rfl⟩
  | test =>
    unfold System.pipewrite
    dsimp only
    split
    · split
      next refused =>
        refine orderly.leave (orderly.alone pre rfl) ?_ (orderly.writers_settled pre rfl rfl) _
        intro q asleep
        -- with bytes in the pipe the writer would have been alert
        by_contra bytes
        have alert := orderly.alert q asleep p args .test pre (.inr ⟨rfl, bytes⟩)
        simp [alert.1, alert.2] at refused
      next alert =>
        have alert' : s.readopen = true ∧ (s.procs p).killed = false := by simpa using alert
        exact orderly.setCall pre rfl rfl (fun _ _ _ => rfl) (fun _ _ _ _ => alert') nofun nofun
          (fun _ _ _ _ => alert'.1) nofun
    · exact orderly.finish pre rfl
  | room =>
    unfold System.pipewrite
    dsimp only
    split
    next full =>
      have woken := procs_wakeup s .nread
      have pre' := (woken p).1.trans pre
      have nobody : ∀ q, ((s.wakeup .nread).procs q).sleeping ≠ some .nread :=
        fun q => (woken q).2.2.1
      have opened := orderly.opened p args .room pre (.inl rfl)
      refine (orderly.wakeup .nread).setCall pre' rfl rfl (fun q asleep => absurd asleep (nobody q))
        ?_ nofun nofun (fun _ _ _ _ => opened) (fun _ _ => ⟨full, nobody⟩)
      intro _ _ same pc
      cases same
      simp at pc
    next room =>
      split
      · exact orderly.finish pre rfl
      · exact orderly.put pre room _
  | full =>
    obtain ⟨full, awake'⟩ := orderly.full p args pre
    have opened := orderly.opened p args .full pre (.inr rfl)
    refine orderly.sleep (by rw [pre]; rfl) ⟨args, .inl rfl⟩ ?_ (fun _ => ⟨full, opened⟩)
    rintro (same | ⟨q, asleep⟩)
    · cases same
    · exact absurd asleep (awake' q)
  | finish =>
    have pre' := (procs_wakeup s .nread p).1.trans pre
    have woken := orderly.wakeup .nread
    refine woken.leave (woken.alone pre' rfl) ?_ (woken.writers_settled pre' rfl rfl) _
    intro q asleep
    exact absurd asleep (procs_wakeup s .nread q).2.2.1

theorem Orderly.piperead {pc : ReadPc} (awake : (s.procs p).sleeping = none)
    (pre : (s.procs p).call = .read args pc) (user : UserMemory) :
    (s.piperead p user args pc).Orderly := by
  cases pc with
  | start | relock => exact orderly.acquire awake ⟨args, .inr rfl⟩
  | test =>
    unfold System.piperead
    dsimp only
    split
    next empty =>
      split
      · exact orderly.leave (orderly.alone pre rfl) (orderly.readers_settled pre rfl rfl)
          (orderly.writers_settled pre rfl rfl) _
      · exact orderly.setCall pre rfl rfl nofun nofun nofun (fun _ _ => empty) nofun nofun
    next => exact orderly.setCall pre rfl rfl nofun nofun nofun nofun nofun nofun
  | empty =>
    obtain ⟨empty, opened⟩ := orderly.empty p args pre
    refine orderly.sleep (by rw [pre]; rfl) ⟨args, .inr rfl⟩ (fun _ => ⟨empty, opened⟩) ?_
    rintro (same | ⟨q, asleep⟩)
    · cases same
    · exact ⟨orderly.writers_settled pre rfl rfl q asleep, (orderly.writers q asleep).1⟩
  | copy =>
    have done : (s.setCall p (.read args .finish)).Orderly :=
      orderly.setCall pre rfl rfl nofun nofun (fun _ => rfl) nofun nofun nofun
    unfold System.piperead
    dsimp only
    split
    · split
      next => exact done
      next bytes =>
        split
        · exact orderly.take pre bytes ⟨_, .inr rfl⟩
        · exact orderly.take pre bytes ⟨_, .inl rfl⟩
    · exact done
  | finish =>
    have pre' := (procs_wakeup s .nwrite p).1.trans pre
    have woken := orderly.wakeup .nwrite
    refine woken.leave (woken.alone pre' rfl) (woken.readers_settled pre' rfl rfl) ?_ _
    intro q asleep
    exact absurd asleep (procs_wakeup s .nwrite q).2.2.1

theorem Orderly.pipeclose (p : Nat) (writable : Bool) : (s.pipeclose p writable).Orderly := by
  unfold System.pipeclose
  split
  next free =>
    have alone : ∀ h, s.holder = some h → h = p := by
      intro h holds
      rw [free] at holds
      cases holds
    obtain ⟨readers, writers⟩ := orderly.noLostWakeup free
    split
    · have shut : ({ s with writeopen := false }.wakeup .nread).Orderly :=
        orderly.woken rfl rfl rfl rfl (.inr ⟨free, rfl⟩) (.inl rfl)
      refine shut.leave alone ?_ ?_ _
      · intro q asleep
        exact absurd asleep (procs_wakeup _ .nread q).2.2.1
      · intro q asleep
        exact (writers q ((procs_wakeup _ .nread q).2.2.2 _ asleep)).1
    · have shut : ({ s with readopen := false }.wakeup .nwrite).Orderly :=
        orderly.woken rfl rfl rfl rfl (.inl rfl) (.inr ⟨free, rfl⟩)
      refine shut.leave alone ?_ ?_ _
      · intro q asleep
        exact (readers q ((procs_wakeup _ .nwrite q).2.2.2 _ asleep)).1
      · intro q asleep
        exact absurd asleep (procs_wakeup _ .nwrite q).2.2.1
  next => exact orderly

theorem Orderly.enter (outside : call.critical = false) : (s.enter p call).Orderly := by
  unfold System.enter
  split
  next idle =>
    cases orderly
    unfold System.setCall
    constructor <;> simp only [procs_setProc]
    all_goals grind [setProc, Full, Call.critical]
  next => exact orderly

theorem Orderly.kill (timely : s.Timely (.kill p)) : (s.kill p).Orderly := by
  cases orderly
  unfold System.kill
  constructor <;> simp only [procs_setProc]
  all_goals grind [setProc, Full, Timely]

theorem Orderly.perform {event : Event} (timely : s.Timely event) : (s.perform event).Orderly := by
  cases event with
  | write | read | close => exact orderly.enter rfl
  | kill p => exact orderly.kill timely
  | go p user =>
    change (s.go p user).Orderly
    unfold System.go
    split
    next awake =>
      split
      · exact orderly
      next args pc call => exact orderly.pipewrite awake call user
      next args pc call => exact orderly.piperead awake call user
      next writable call => exact orderly.pipeclose p writable
    next => exact orderly

end

theorem init_orderly : init.Orderly where
  critical := fun _ => ⟨nofun, nofun⟩
  asleep := fun _ _ asleep => nomatch asleep
  readers := fun _ asleep => nomatch asleep
  alert := fun _ asleep => nomatch asleep
  writers := fun _ asleep => nomatch asleep
  empty := fun _ _ call => nomatch call
  opened := fun _ _ _ call => nomatch call
  full := fun _ _ call => nomatch call

/-- If every kill is timely, then whenever the lock is free nobody sleeps for a reason that is
gone. -/
theorem sleeps_for_a_reason {s : System} (events : List Event)
    (timely : Meets step Timely init events) (ran : run step init events = .ok s)
    (free : s.holder = none) : s.NoLostWakeup := by
  have kept (s : System) event (next : System) (orderly : s.Orderly)
      (timely : s.Timely event) (stepped : s.step event = .ok next) : next.Orderly := by
    cases stepped
    exact orderly.perform timely
  exact (run_invariant kept init_orderly timely ran).noLostWakeup free

/-- No kill hits a process that will wake up the readers. -/
def sparing (s : System) : Event → Bool
  | .kill p => !(s.procs p).call.announces
  | _ => true

theorem timely_of_sparing (event : Event) (spares : s.sparing event = true) : s.Timely event := by
  cases event with
  | kill p =>
    intro args pc call storing
    have announces : (Call.write args pc).announces = true := by
      obtain rfl | ⟨rfl, -⟩ := storing <;> rfl
    rw [sparing, call, announces] at spares
    cases spares
  | _ => trivial

/-- Two readers sleep, one is killed, and the other gets a byte and sleeps again. -/
def spared : List Event :=
  let user : UserMemory := fun _ => some 7
  [.read 0 0 1, .go 0 user, .go 0 user, .go 0 user, .read 1 0 1, .go 1 user, .go 1 user, .go 1 user,
    .kill 1, .write 2 0 1] ++ List.replicate 5 (.go 2 user) ++ List.replicate 5 (.go 0 user) ++
    [.read 0 0 1, .go 0 user, .go 0 user, .go 0 user]

theorem sleeps_for_a_reason_spared :
    ∃ s, run step init spared = .ok s ∧ s.nread = 1 ∧ (s.procs 0).sleeping = some .nread ∧
      s.NoLostWakeup := by
  have observed : (run step init spared).map (fun s => decide (s.holder = none ∧ s.nread = 1 ∧
      (s.procs 0).sleeping = some .nread)) = .ok true := by decide +kernel
  obtain ⟨s, ran, seen⟩ := of_map_eq_ok observed
  obtain ⟨free, nread, asleep⟩ := of_decide_eq_true seen
  have spares : Meets step (fun s event => s.sparing event = true) init spared := by decide +kernel
  have timely := spares.mono fun _ event => timely_of_sparing event
  exact ⟨s, ran, nread, asleep, sleeps_for_a_reason spared timely ran free⟩

/-- A writer of two bytes is killed when it has stored the first. -/
def hit : List Event :=
  let user : UserMemory := fun _ => some 7
  [.read 0 0 1, .go 0 user, .go 0 user, .go 0 user, .write 1 0 2, .go 1 user, .go 1 user,
    .go 1 user, .kill 1, .go 1 user]

/-- The lock is free, the byte is in the pipe, and the reader sleeps. -/
theorem reader_sleeps_on_a_byte :
    ∃ s, run step init hit = .ok s ∧ s.holder = none ∧ (s.procs 0).sleeping = some .nread ∧
      s.nread ≠ s.nwrite ∧ s.writeopen = true ∧ ¬s.NoLostWakeup := by
  have observed : (run step init hit).map (fun s => decide (s.holder = none ∧
      (s.procs 0).sleeping = some .nread ∧ s.nread ≠ s.nwrite ∧ s.writeopen = true)) =
        .ok true := by
    decide +kernel
  obtain ⟨s, ran, seen⟩ := of_map_eq_ok observed
  obtain ⟨free, asleep, bytes, opened⟩ := of_decide_eq_true seen
  exact ⟨s, ran, free, asleep, bytes, opened, fun settled => bytes (settled.readers 0 asleep).1⟩

end System

end Xv6Rv32im.Pipe
