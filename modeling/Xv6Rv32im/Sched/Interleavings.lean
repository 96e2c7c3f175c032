import Xv6Rv32im.Sched.Children

/-!
# Every interleaving

The steps of the scheduler, of user code and of interrupts, and what holds after any sequence
of steps of any harts: a process is the `proc` of one hart exactly when it runs, and `wait`
reports each process that has exited once, to its parent or to `initproc`.
-/

namespace Xv6Rv32im.Sched

open Process (NPROC)
open Library.Run List LockId Option

namespace Kernel

variable {n : Nat} {k k' : Kernel n} {t : Fin n → Thread} {c : Fin n} {p q i : Nat}

/-! ## The scheduler -/

section

variable {pc pc' : SchedPc} (sound : k.Sound t)

include sound

/-- The scheduler goes on without a process; one that it drops does not run. -/
theorem Sound.moveScheduler (thread : t c = .scheduler pc)
    (stack : (k.harts c).stack = [.scheduler pc]) (moved : k.Moved k' c [.scheduler pc'])
    (holder : k.KeepsLocks k' c)
    (drops : ∀ p, (k.harts c).proc = some p → (k.procs p).state ≠ .running)
    (idle : (k'.harts c).proc = none) (locks : k'.HartLocks c) (runs : k'.Runs c (.scheduler pc')) :
    k'.Sound (Function.update t c (.scheduler pc')) := by
  refine ⟨sound.sys.moveScheduler moved holder thread drops idle (.scheduler pc') locks runs,
    sound.family.moveScheduler thread moved, sound.history.move moved fun q exits => ?_⟩
  rw [stack] at exits
  cases exits

theorem Sound.dropProc (thread : t c = .scheduler pc) (stack : (k.harts c).stack = [.scheduler pc])
    (holds : pc.locks = [.proc i])
    (drops : ∀ p, (k.harts c).proc = some p → (k.procs p).state ≠ .running) :
    Goes ((k.setHart c { k.harts c with proc := none }).release c (.proc i)
      [.scheduler (.scan (i + 1))]) := by
  set dropped := k.setHart c { k.harts c with proc := none }
  have hart : dropped.harts c = { k.harts c with proc := none } := setHart_self ..
  have locks : dropped.HartLocks c :=
    (sound.sys.locks c).kept rfl (by rw [hart]) (by rw [hart])
  have held : Sched.locks (dropped.harts c).stack = [.proc i] := by
    rw [hart]
    change Sched.locks (k.harts c).stack = _
    rw [stack, ← holds]
    exact append_nil _
  have mem : .proc i ∈ Sched.locks (dropped.harts c).stack := held ▸ mem_cons_self
  have idle :
      ((dropped.released c (.proc i) [.scheduler (.scan (i + 1))]).harts c).proc = none := by
    rw [released_hart, hart]
  have moved : k.Moved (dropped.released c (.proc i) [.scheduler (.scan (i + 1))]) c
      [.scheduler (.scan (i + 1))] :=
    ⟨fun c' other => (setHart_other _ _ other).trans (setHart_other k _ other),
      by rw [released_hart], rfl, rfl, rfl, rfl, rfl⟩
  exact ⟨_, _, release_eq locks mem _, sound.moveScheduler thread stack moved
    (released_keeps ((locks.holds _).mpr mem) _) drops idle (released_locks locks (held ▸ .refl _))
    idle⟩

theorem Sound.scanStep (thread : t c = .scheduler (.scan i))
    (stack : (k.harts c).stack = [.scheduler (.scan i)]) :
    Goes (k.schedulerStep c [] (.scan i)) := by
  have runs := sound.sys.runs c
  rw [thread] at runs
  have idle : (k.harts c).proc = none := runs
  have free : Sched.locks (k.harts c).stack = [] := by
    rw [stack]
    rfl
  unfold Kernel.schedulerStep
  dsimp only
  split
  · have enabled := sound.setIntr (c := c) true fun _ => free
    have hart : (k.setIntr c true).harts c = _ := setHart_self ..
    have hart' : ((k.setIntr c true).goto c [.scheduler (.scan 0)]).harts c = _ := setHart_self ..
    have idle' : (((k.setIntr c true).goto c [.scheduler (.scan 0)]).harts c).proc = none := by
      rw [hart', hart]
      exact idle
    refine ⟨_, _, rfl, enabled.moveScheduler thread (by rw [hart]; exact stack) (goto_moved _ c _)
      (fun _ _ _ => Iff.rfl) (fun p has => ?_) idle'
      ((enabled.sys.locks c).kept rfl (by rw [hart']) ?_) idle'⟩
    · rw [hart] at has
      exact nomatch idle.symm.trans has
    · rw [hart', hart]
      exact free.symm
  · rcases acquire_eq (sound.sys.locks c) (free ▸ not_mem_nil) [.scheduler (.locked i)] with
      spins | ⟨takes, unheld⟩
    · exact ⟨k, t, spins, sound⟩
    have idle' : ((k.acquired c (.proc i) [.scheduler (.locked i)]).harts c).proc = none := by
      rw [acquired_hart]
      exact idle
    exact ⟨_, _, takes, sound.moveScheduler thread stack (acquired_moved ..)
      (acquired_keeps unheld _) (fun p has => nomatch idle.symm.trans has) idle'
      (acquired_locks (sound.sys.locks c) unheld (free ▸ .refl _)) idle'⟩

theorem Sound.lockedStep (thread : t c = .scheduler (.locked i))
    (stack : (k.harts c).stack = [.scheduler (.locked i)]) :
    Goes (k.schedulerStep c [] (.locked i)) := by
  have runs := sound.sys.runs c
  rw [thread] at runs
  have idle : (k.harts c).proc = none := runs
  unfold Kernel.schedulerStep
  dsimp only
  split
  next ready =>
    have restated : Restated (k.procs i) { k.procs i with state := .running } :=
      .of_awake (by rw [ready]; rfl) rfl rfl rfl rfl
    have moved := setHart_moved (k.setProc i { k.procs i with state := .running }) c k.holder
      { k.harts c with
        proc := some i
        stack := [.scheduler (.picked i)] }
    refine ⟨_, _, rfl, sound.sys.pick thread stack ready,
      (sound.family.restate restated).moveScheduler thread moved,
      (sound.history.restate restated).move moved fun q exits => ?_⟩
    change exiting (k.harts c).stack = some q at exits
    rw [stack] at exits
    cases exits
  · have same : k.setHart c { k.harts c with proc := none } = k := by
      rw [← idle]
      exact congrArg (fun harts => { k with harts := harts }) (Function.update_eq_self c k.harts)
    rw [← same]
    exact sound.dropProc thread stack rfl fun p has => nomatch idle.symm.trans has

theorem Sound.pickedStep (thread : t c = .scheduler (.picked i))
    (stack : (k.harts c).stack = [.scheduler (.picked i)]) :
    Goes (k.schedulerStep c [] (.picked i)) := by
  have live := sound.sys.picked_live thread
  have nowhere := sound.sys.picked_nowhere thread
  obtain ⟨calls, context, suspended⟩ := sound.sys.saved i live nowhere
  unfold Kernel.schedulerStep
  dsimp only
  rw [context]
  refine ⟨_, _, rfl, sound.sys.enter thread stack context suspended,
    sound.family.enter rfl rfl rfl (fun _ other => setHart_other _ _ other)
      (by rw [setHart_self]) (.inr ⟨live, nowhere, context⟩) ?_ _ thread, ?_⟩
  · rw [suspended.locks]
    exact fun lt => nomatch mem_singleton.mp lt
  refine sound.history.of_procs rfl rfl rfl rfl fun c' q exits => ?_
  rcases eq_or_ne c' c with rfl | other
  · rw [stack] at exits
    cases exits
  · rw [setHart_other _ _ other]
    exact exits

theorem Sound.schedulerStep (thread : t c = .scheduler pc)
    (stack : (k.harts c).stack = [.scheduler pc]) : Goes (k.schedulerStep c [] pc) := by
  cases pc with
  | scan i => exact sound.scanStep thread stack
  | locked i => exact sound.lockedStep thread stack
  | picked i => exact sound.pickedStep thread stack
  | back i =>
    have runs := sound.sys.runs c
    rw [thread] at runs
    refine sound.dropProc thread stack rfl fun p has alive => runs.2 ?_
    rw [some.inj (runs.1.symm.trans has)]
    exact alive

end

/-! ## One step -/

/-- What the callers keep to: `yield`, `exit` and `wait` are called without a spinlock, `sleep`
with the lock that it is given and no other; other locks are not taken twice and only given
back by the hart that holds them. -/
def Lawful (k : Kernel n) (event : Event n) : Prop :=
  match event.action with
  | .yield | .exit _ | .wait => (k.harts event.hart).ints.noff = 0
  | .sleep _ lock =>
    (k.harts event.hart).ints.noff = 1 ∧ k.holder (.other lock) = some event.hart
  | .acquire lock => k.holder (.other lock) ≠ some event.hart
  | .release lock => k.holder (.other lock) = some event.hart
  | _ => True

instance (k : Kernel n) : (event : Event n) → Decidable (k.Lawful event)
  | ⟨_, .yield⟩ | ⟨_, .exit _⟩ | ⟨_, .wait⟩ | ⟨_, .release _⟩ => inferInstanceAs (Decidable (_ = _))
  | ⟨_, .sleep ..⟩ => inferInstanceAs (Decidable (_ ∧ _))
  | ⟨_, .acquire _⟩ => inferInstanceAs (Decidable (_ ≠ _))
  | ⟨_, .go _⟩ | ⟨_, .trap⟩ | ⟨_, .trapret⟩ | ⟨_, .intr _⟩ | ⟨_, .wakeup _⟩ | ⟨_, .kill _⟩
  | ⟨_, .fork⟩ => isTrue True.intro

theorem Sound.go {frame : Frame} {rest : List Frame} (sound : k.Sound t)
    (stack : (k.harts c).stack = frame :: rest) (ok : Bool) : Goes (k.go c ok rest frame) := by
  have shape := sound.sys.shape c
  rw [stack] at shape
  generalize thread : t c = th at shape
  cases shape with
  | user | trap => exact ⟨k, t, rfl, sound⟩
  | scheduler pc => exact sound.schedulerStep thread stack
  | forkret p =>
    refine sound.release stack ?_ (.refl _) rfl (.pop (fun _ => id) rfl)
    rw [thread]
    exact .user p []
  | yield pc below free => exact sound.yieldStep thread stack below free
  | sleep p chan lock pc => exact sound.sleepStep thread stack (sleepsIn_user p chan lock)
  | waitSleep p chan pc => exact sound.sleepStep thread stack (sleepsIn_wait p chan)
  | wakeup chan i locked below unlocked => exact sound.wakeupStep stack (thread ▸ below) unlocked
  | kill pid i locked below unlocked => exact sound.killStep stack (thread ▸ below) unlocked
  | fork p pc held lt => exact sound.forkStep thread stack lt ok
  | exit p status pc notInit goesOn => exact sound.exitStep thread stack notInit goesOn
  | wait p pc => exact sound.waitStep thread stack ok

section

variable {held : List Nat}

/-- The locks of the caller, less the one that it gives back. -/
theorem other_perm {lock : Nat} (rest : List LockId) (mem : lock ∈ held) :
    (held.map other ++ rest).Perm
      (.other lock :: ((held.erase lock).map other ++ rest)) :=
  ((perm_cons_erase mem).map other).append_right rest

theorem mem_of_other {lock : Nat} (lt : .other lock ∈ held.map other) : lock ∈ held := by
  obtain ⟨lock', mem, same⟩ := mem_map.mp lt
  exact other.inj same ▸ mem

section

variable (sound : k.Sound t) (thread : t c = .proc p) (stack : (k.harts c).stack = [.user p held])

include sound thread stack

theorem Sound.calls {frame : Frame} {held' : List Nat}
    (shape : Shape (.proc p) [frame, .user p held'])
    (same : locks [frame, .user p held'] = locks [.user p held])
    (stands : standing [frame, .user p held'] = .running) (makes : frame.child = none)
    (claims : k.Claims frame) : Goes (.ok (k.goto c [frame, .user p held'])) := by
  refine sound.goto stack (thread ▸ shape) same stands ⟨fun i is => ?_, nofun, fun frame' mem => ?_⟩
  · unfold making at is
    rw [List.findSome?_cons, makes] at is
    cases is
  rcases mem_cons.mp mem with rfl | mem
  · exact .inr claims
  · rw [mem_singleton.mp mem]
    exact .inr trivial

theorem Sound.userStep (action : Action) (lawful : k.Lawful ⟨c, action⟩) :
    Goes (k.userStep c [] p held action) ∨ k.userStep c [] p held action = .error .initExiting := by
  obtain ⟨has, alive⟩ := sound.sys.executes thread stack rfl
  have hartLocks := sound.sys.locks c
  have unlocked (noff : (k.harts c).ints.noff = 0) : held = [] := by
    rw [hartLocks.noff, stack, user_locks, length_map] at noff
    exact length_eq_zero_iff.mp noff
  have user held : Shape (t c) [.user p held] := by
    rw [thread]
    exact .user p held
  have calls (frame : Nat → Frame) stack :
      k.call c stack frame = .ok (k.goto c (frame p :: stack)) := by
    unfold Kernel.call
    rw [has]
  unfold Kernel.userStep
  cases action with
  | go ok | trap | trapret => exact .inl ⟨k, t, rfl, sound⟩
  | intr on =>
    dsimp only
    split
    next noff =>
      refine .inl ⟨_, t, rfl, sound.setIntr on fun _ => ?_⟩
      rw [stack, unlocked noff]
      rfl
    next => exact .inl ⟨k, t, rfl, sound⟩
  | acquire lock =>
    refine .inl (sound.acquire stack (fun lt => lawful ?_) (user _) (.refl _) rfl
      (.replace rfl rfl trivial))
    rw [hartLocks.holds, stack]
    exact lt
  | release lock =>
    have lt := (hartLocks.holds _).mp lawful
    rw [stack, user_locks] at lt
    exact .inl (sound.release stack (user _) (other_perm [] (mem_of_other lt)) rfl
      (.replace rfl rfl trivial))
  | yield =>
    obtain rfl := unlocked lawful
    rw [calls]
    exact .inl (sound.calls thread stack (.yield .start (.user p []) rfl) rfl rfl rfl trivial)
  | sleep chan lock =>
    obtain ⟨one, mine⟩ := lawful
    have lt := (hartLocks.holds _).mp mine
    rw [hartLocks.noff, stack, user_locks, length_map] at one
    rw [stack, user_locks] at lt
    obtain ⟨lock', rfl⟩ := length_eq_one_iff.mp one
    obtain rfl := mem_singleton.mp (mem_of_other lt)
    dsimp only
    rw [calls, erase_cons_head]
    exact .inl (sound.calls thread stack (.sleep p chan lock .start) rfl rfl rfl trivial)
  | wakeup chan =>
    exact .inl (sound.calls thread stack
      (.wakeup (some chan) 0 false (.user p held) (user_unlocked p held)) rfl rfl rfl trivial)
  | kill pid =>
    exact .inl (sound.calls thread stack
      (.kill pid 0 false (.user p held) (user_unlocked p held)) rfl rfl rfl trivial)
  | fork =>
    dsimp only
    rw [calls]
    exact .inl (sound.calls thread stack (.fork p (.scan 0) held nofun) rfl rfl rfl trivial)
  | exit status =>
    obtain rfl := unlocked lawful
    dsimp only
    split
    next => exact .inr rfl
    next other =>
      have notInit : p ≠ INITPROC := by
        rintro rfl
        exact other has
      rw [calls]
      exact .inl (sound.calls thread stack (.exit p status .start notInit nofun) rfl rfl rfl
        trivial)
  | wait =>
    obtain rfl := unlocked lawful
    dsimp only
    rw [calls]
    exact .inl (sound.calls thread stack (.wait p .start) rfl rfl rfl trivial)

end

theorem Sound.trapStep {rest : List Frame} (sound : k.Sound t)
    (stack : (k.harts c).stack = .trap held :: rest) (below : Shape (t c) rest)
    (free : locks rest = []) (action : Action) (lawful : k.Lawful ⟨c, action⟩) :
    Goes (k.trapStep c rest held action) := by
  have hartLocks := sound.sys.locks c
  have all : locks (k.harts c).stack = held.map .other := by
    rw [stack, locks_cons, free, append_nil]
    rfl
  have unlocked q : .proc q ∉ locks rest := by
    rw [free]
    exact not_mem_nil
  have stays : Goes (.ok k) := ⟨k, t, rfl, sound⟩
  unfold Kernel.trapStep
  cases action with
  | trapret =>
    dsimp only
    split
    next none =>
      subst none
      refine (sound.setIntr true fun _ => all).goto ((setIntr_stack k c true).trans stack) below
        rfl (standing_of_unlocked below unlocked) (.pop (fun _ => id) rfl)
    next => exact stays
  | acquire lock =>
    refine sound.acquire stack (fun lt => lawful ?_) (.trap (lock :: held) below free) (.refl _)
      rfl (.replace rfl rfl trivial)
    rw [hartLocks.holds, stack]
    exact lt
  | release lock =>
    have lt := (hartLocks.holds _).mp lawful
    rw [all] at lt
    exact sound.release stack (.trap (held.erase lock) below free)
      (other_perm (locks rest) (mem_of_other lt)) rfl
      (.replace rfl rfl trivial)
  | yield =>
    dsimp only
    split
    · exact stays
    next p has =>
      split
      next alive =>
        -- the scheduler holds the lock of a process that it has as its `proc`
        have thread : t c = .proc p := by
          have runs := sound.sys.runs c
          cases thread : t c with
          | proc q =>
            rw [thread] at runs
            rw [Option.some.inj (has.symm.trans runs.1)]
          | scheduler pc =>
            rw [thread] at runs below
            cases pc with
            | scan i | locked i => exact absurd (has.symm.trans runs) (Option.some_ne_none p)
            | picked i | back i =>
              exact absurd (scheduler_holds below mem_cons_self) (unlocked i)
        have none : held = [] := by
          have noff : (k.harts c).ints.noff = 0 := lawful
          rw [hartLocks.noff, all, length_map] at noff
          exact length_eq_zero_iff.mp noff
        subst none
        rw [thread] at below
        refine sound.goto stack ?_ rfl rfl (.push rfl rfl trivial)
        rw [thread]
        exact .yield .start (.trap [] below free) free
      next => exact stays
  | wakeup chan =>
    refine sound.goto stack (.wakeup (some chan) 0 false (.trap held below free) fun q => ?_) rfl
      rfl (.push rfl rfl trivial)
    rw [← stack, all]
    exact not_mem_others nofun
  | go | trap | intr | sleep | kill | fork | exit | wait => exact stays

end

/-- A lawful step of any hart succeeds, or `initproc` exits. -/
theorem Sound.step {event : Event n} (sound : k.Sound t) (lawful : k.Lawful event) :
    Goes (k.step event) ∨ k.step event = .error .initExiting := by
  obtain ⟨c, action⟩ := event
  have stays : Goes (.ok k) := ⟨k, t, rfl, sound⟩
  unfold Kernel.step
  dsimp only
  split
  · split
    next enabled =>
      have free := (sound.sys.locks c).intr enabled
      have off := sound.setIntr (c := c) false nofun
      refine .inl (off.goto (setIntr_stack k c false) (.trap [] (sound.sys.shape c) free) rfl ?_
        (.push rfl rfl trivial))
      refine (standing_of_unlocked (sound.sys.shape c) fun q => ?_).symm
      rw [free]
      exact not_mem_nil
    next => exact .inl stays
  next stack => exact .inl (sound.go stack _)
  next _ _ _ _ stack _ _ =>
    have shape := sound.sys.shape c
    rw [stack] at shape
    generalize thread : t c = th at shape
    cases shape with
    | user => exact sound.userStep thread stack _ lawful
  next _ _ _ stack _ _ =>
    have shape := sound.sys.shape c
    rw [stack] at shape
    generalize thread : t c = th at shape
    cases shape with
    | trap held below free => exact .inl (sound.trapStep stack (thread ▸ below) free _ lawful)
  · exact .inl stays

/-! ## Runs -/

theorem boot_used (used : ((boot n).procs p).state ≠ .unused) : p = INITPROC := by
  by_contra other
  refine used ?_
  change (if p = INITPROC then _ else _ : Proc).state = _
  rw [if_neg other]

theorem boot_parent (n p : Nat) : ((boot n).procs p).parent = none := by
  change (if p = INITPROC then _ else _ : Proc).parent = _
  split <;> rfl

theorem boot_sound (n : Nat) : (boot n).Sound fun _ => .scheduler (.scan NPROC) where
  sys := by
    refine ⟨fun c => .scheduler _, fun c => ⟨nodup_nil, fun lk => ?_, rfl, nofun⟩,
      fun c => rfl, (fun c c' p has => nomatch has), fun p alive => ?_, fun p live _ => ?_,
      fun p above => ?_⟩
    · exact iff_of_false nofun not_mem_nil
    · obtain rfl := boot_used (by rw [alive]; decide)
      exact nomatch alive
    · obtain rfl := boot_used live.1
      exact ⟨_, rfl, .forkret INITPROC, rfl, rfl⟩
    · by_contra used
      obtain rfl := boot_used used
      exact absurd above (by decide)
  family := by
    refine ⟨(fun c p is => nomatch is), fun p used => ?_, fun p q used used' _ => ?_,
      fun p stack i pending makes => ?_, fun q _ => boot_parent n q, fun q p is => ?_, ⟨rfl, rfl⟩,
      fun c frame mem => ?_⟩
    · obtain rfl := boot_used used
      exact Nat.one_pos
    · exact (boot_used used).trans (boot_used used').symm
    · rcases pending with ⟨c, is, -⟩ | ⟨live, -, saved⟩
      · cases is
      · obtain rfl := boot_used live.1
        rw [← Option.some.inj saved] at makes
        cases makes
    · rw [boot_parent] at is
      cases is
    · rw [mem_singleton.mp mem]
      trivial
  history := by
    refine ⟨fun q used => ?_, nofun, fun q is => ?_, nofun, nodup_nil, nofun,
      nodup_nil, nofun, nofun,
      fun q p is => ?_⟩
    · obtain rfl := boot_used used
      exact ⟨_, rfl, rfl⟩
    · obtain rfl := boot_used (by rw [is]; decide)
      exact nomatch is
    · rw [boot_parent] at is
      cases is

theorem step_outcome (k : Kernel n) (event : Event n) (sound : ∃ t, k.Sound t)
    (lawful : k.Lawful event) : (∃ k', k.step event = .ok k' ∧ ∃ t, k'.Sound t) ∨
      ∃ fault, k.step event = .error fault ∧ fault = .initExiting := by
  obtain ⟨t, sound⟩ := sound
  rcases sound.step lawful with ⟨k', t', steps, sound'⟩ | exits
  · exact .inl ⟨k', steps, t', sound'⟩
  · exact .inr ⟨_, exits, rfl⟩

/-- Every run of lawful steps keeps the invariants, unless `initproc` exits. -/
theorem run_sound (events : List (Event n)) (lawful : Meets step Lawful (boot n) events) :
    (∃ k, run step (boot n) events = .ok k ∧ ∃ t, k.Sound t) ∨
      run step (boot n) events = .error .initExiting := by
  rcases run_outcome step_outcome ⟨_, boot_sound n⟩ lawful with reached | ⟨fault, failed, rfl⟩
  · exact .inl reached
  · exact .inr failed

/-! ## One hart for each process -/

/-- A process whose lock is free is the `proc` of one hart if it runs and of none otherwise,
and the scheduler that has found it or picked it finds its context saved, with no hart in its
thread. -/
structure OneCpu (k : Kernel n) : Prop where
  running : ∀ p, k.holder (.proc p) = none → (k.procs p).state = .running →
    ∃! c, (k.harts c).proc = some p
  idle : ∀ p, k.holder (.proc p) = none → (k.procs p).state ≠ .running →
    ∀ c, (k.harts c).proc ≠ some p
  saved : ∀ c p, (k.harts c).stack = [.scheduler (.locked p)] ∧ (k.procs p).state = .runnable ∨
      (k.harts c).stack = [.scheduler (.picked p)] →
    (∃ stack, k.context p = some stack) ∧ ∀ c', process (k.harts c').stack ≠ some p

/-- A process without a hart has a saved context and no hart executes its thread. -/
theorem Sys.saved_context (sys : k.Sys t) (live : k.Live p) (nowhere : ∀ c, t c ≠ .proc p) :
    (∃ stack, k.context p = some stack) ∧ ∀ c, process (k.harts c).stack ≠ some p := by
  obtain ⟨calls, context, -⟩ := sys.saved p live nowhere
  exact ⟨⟨calls, context⟩, fun c is => nowhere c (process_thread (sys.shape c) is)⟩

theorem Sys.scheduler_thread {pc : SchedPc} (sys : k.Sys t)
    (stack : (k.harts c).stack = [.scheduler pc]) : t c = .scheduler pc := by
  have shape := sys.shape c
  rw [stack] at shape
  generalize t c = th at shape
  cases shape with
  | scheduler => rfl

theorem Sys.oneCpu (sys : k.Sys t) : k.OneCpu where
  running := by
    intro p _ alive
    obtain ⟨c, has⟩ := sys.running p alive
    exact ⟨c, has, fun c' has' => sys.single c' c p has' has⟩
  idle := by
    intro p free idle c has
    have held := (sys.running_or_holds has).resolve_left idle
    rw [free] at held
    cases held
  saved := by
    rintro c p (⟨stack, ready⟩ | stack)
    · have runs := sys.runs c
      rw [sys.scheduler_thread stack] at runs
      have idle : (k.harts c).proc = none := runs
      have held : k.holder (.proc p) = some c := by
        rw [(sys.locks c).holds, stack]
        exact mem_cons_self
      have off := sys.off held (by rw [ready]; decide) (by rw [idle]; exact nofun)
      exact sys.saved_context ⟨by rw [ready]; decide, by rw [ready]; decide⟩ (sys.thread_off off)
    · have thread := sys.scheduler_thread stack
      exact sys.saved_context (sys.picked_live thread) (sys.picked_nowhere thread)

/-- In every interleaving of lawful steps no panic of `sched` and no stale context is reached,
and a process runs on one hart at most. -/
theorem runs_on_one_cpu (n : Nat) (events : List (Event n))
    (lawful : Meets step Lawful (boot n) events) :
    (∃ k, run step (boot n) events = .ok k ∧ k.OneCpu) ∨
      run step (boot n) events = .error .initExiting := by
  rcases run_sound events lawful with ⟨k, ran, t, sound⟩ | exits
  · exact .inl ⟨k, ran, sound.sys.oneCpu⟩
  · exact .inr exits

def on (c : Fin 2) (actions : List Action) : List (Event 2) :=
  actions.map fun action => ⟨c, action⟩

def goes (count : Nat) : List Action :=
  List.replicate count (.go true)

/-- `initproc` has set its state to sleep when an interrupt on the other hart wants to wake it
up; the handler waits for the lock until the first hart is back in its scheduler. -/
def wakeupWhileLeaving : List (Event 2) :=
  on 0 (goes 5 ++ [.acquire 7, .sleep (.other 5) 7] ++ goes 3) ++
    on 1 (goes 1 ++ [.trap, .wakeup (.other 5)] ++ goes 1) ++
    on 0 (goes 2) ++ on 1 (goes 2)

theorem runs_on_one_cpu_wakeup : Meets step Lawful (boot 2) wakeupWhileLeaving ∧
    ∃ k, run step (boot 2) wakeupWhileLeaving = .ok k ∧
      (k.procs INITPROC).state = .runnable ∧ k.holder (.proc INITPROC) = none ∧ k.OneCpu := by
  have lawful : Meets step Lawful (boot 2) wakeupWhileLeaving := by
    decide +kernel
  have reached : (run step (boot 2) wakeupWhileLeaving).map (fun k => decide
      ((k.procs INITPROC).state = .runnable ∧ k.holder (.proc INITPROC) = none)) = .ok true := by
    decide +kernel
  obtain ⟨k, ran, woken⟩ := of_map_eq_ok reached
  rcases runs_on_one_cpu 2 wakeupWhileLeaving lawful with ⟨k', ran', one⟩ | exits
  · obtain rfl := Except.ok.inj (ran.symm.trans ran')
    obtain ⟨runnable, free⟩ := of_decide_eq_true woken
    exact ⟨lawful, k, ran, runnable, free, one⟩
  · exact nomatch ran.symm.trans exits

/-- In every interleaving of lawful steps each hart holds exactly the locks that the pending calls
of its thread have taken, also when `sched` has moved the thread to another hart; `noff` is
their number, and a hart takes interrupts only if there are none.  Every process that has a
thread but no hart can be resumed: its context is saved, and holds no lock but its own. -/
theorem locks_follow_threads (n : Nat) (events : List (Event n))
    (lawful : Meets step Lawful (boot n) events) :
    (∃ k, run step (boot n) events = .ok k ∧ (∀ c, k.HartLocks c) ∧
      ∃ t : Fin n → Thread, (∀ c, Shape (t c) (k.harts c).stack) ∧
        ∀ p, k.Live p → (∀ c, t c ≠ .proc p) →
          ∃ stack, k.context p = some stack ∧ Suspended p stack) ∨
      run step (boot n) events = .error .initExiting := by
  rcases run_sound events lawful with ⟨k, ran, t, sound⟩ | exits
  · exact .inl ⟨k, ran, sound.sys.locks, t, sound.sys.shape, sound.sys.saved⟩
  · exact .inr exits

theorem locks_follow_threads_wakeup : Meets step Lawful (boot 2) wakeupWhileLeaving ∧
    ∃ k, run step (boot 2) wakeupWhileLeaving = .ok k ∧ ∀ c, k.HartLocks c := by
  have lawful : Meets step Lawful (boot 2) wakeupWhileLeaving := by
    decide +kernel
  have reached : (run step (boot 2) wakeupWhileLeaving).isOk = true := by
    decide +kernel
  rcases locks_follow_threads 2 wakeupWhileLeaving lawful with ⟨k, ran, locks, -⟩ | exits
  · exact ⟨lawful, k, ran, locks⟩
  · rw [exits] at reached
    cases reached

/-! ## Exits and reports -/

/-- A process that has exited is a zombie until `wait` reports it; it is reported once, with
its pid and status, to the process that forked it or, if that one has exited, to `initproc`,
whose birth is the first, and when no hart executes it; and only processes that have not
exited are parents. -/
structure WaitOrder (k : Kernel n) : Prop where
  zombie : ∀ exit ∈ k.exits, (∃ report ∈ k.reports, report.child = exit.birth) ∨
    ∃ q, (k.procs q).state = .zombie ∧ (k.procs q).birth = exit.birth ∧
      (k.procs q).xstate = exit.status
  exitsOnce : (k.exits.map Exit.birth).Nodup
  reportedOnce : (k.reports.map Report.child).Nodup
  truthful : ∀ report ∈ k.reports, k.Truthful report
  parents : ∀ q p, (k.procs q).state ≠ .unused → (k.procs q).parent = some p →
    (k.procs p).state ≠ .unused ∧ (k.procs p).state ≠ .zombie

/-- In every interleaving of lawful steps `exit` and `wait` keep this order. -/
theorem wait_reports_exits (n : Nat) (events : List (Event n))
    (lawful : Meets step Lawful (boot n) events) :
    (∃ k, run step (boot n) events = .ok k ∧ k.WaitOrder) ∨
      run step (boot n) events = .error .initExiting := by
  rcases run_sound events lawful with ⟨k, ran, t, sound⟩ | exits
  · refine .inl ⟨k, ran, sound.history.stays, sound.history.exitsOnce,
      sound.history.reportedOnce, sound.history.truthful, fun q p _ is => ?_⟩
    obtain ⟨used, -, alive⟩ := (ProcState.awake_iff _).mp (sound.family.tree q p is)
    exact ⟨used, alive⟩
  · exact .inr exits

/-- `initproc` forks a child, which exits on the other hart, and waits for it. -/
def forkExitWait : List (Event 2) :=
  on 0 (goes 5 ++ [.fork] ++ goes 10) ++ on 1 (goes 9 ++ [.exit 7] ++ goes 199) ++
    on 0 ([.wait] ++ goes 4)

theorem wait_reports_exits_once : Meets step Lawful (boot 2) forkExitWait ∧
    ∃ k, run step (boot 2) forkExitWait = .ok k ∧ k.exits = [⟨1, 7⟩] ∧
      k.reports = [⟨1, 0, 2, 7, false⟩] ∧ k.WaitOrder := by
  have lawful : Meets step Lawful (boot 2) forkExitWait := by
    decide +kernel
  have reached : (run step (boot 2) forkExitWait).map (fun k => decide
      (k.exits = [⟨1, 7⟩] ∧ k.reports = [⟨1, 0, 2, 7, false⟩])) = .ok true := by
    decide +kernel
  obtain ⟨k, ran, told⟩ := of_map_eq_ok reached
  rcases wait_reports_exits 2 forkExitWait lawful with ⟨k', ran', order⟩ | exits
  · obtain rfl := Except.ok.inj (ran.symm.trans ran')
    obtain ⟨exited, reported⟩ := of_decide_eq_true told
    exact ⟨lawful, k, ran, exited, reported, order⟩
  · exact nomatch ran.symm.trans exits

end Kernel

end Xv6Rv32im.Sched
