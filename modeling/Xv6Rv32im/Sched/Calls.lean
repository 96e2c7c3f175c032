import Xv6Rv32im.Sched.History

/-!
# Steps of the calls

Every step of every pending call succeeds and keeps what holds of threads, of the process tree
and of the records.  A step goes on with other calls after an acquisition, a release or a
switch; what it changes of a process comes before that.
-/

namespace Xv6Rv32im.Sched

open List Kernel

open Process (NPROC)

namespace Kernel

variable {n : Nat} {k k' : Kernel n} {t : Fin n → Thread} {c : Fin n} {p q : Nat}
  {rest : List Frame}

structure Sound (k : Kernel n) (t : Fin n → Thread) : Prop where
  sys : k.Sys t
  family : k.Family t
  history : k.History

def Goes (result : Except Fault (Kernel n)) : Prop :=
  ∃ k' t', result = .ok k' ∧ Sound k' t'

/-- The new calls make no other child, forget no exit and know nothing that is not so. -/
structure Follows (k : Kernel n) (old new : List Frame) : Prop where
  makes : ∀ i, making new = some i → making old = some i
  exits : ∀ p, exiting old = some p → exiting new = some p
  claims : ∀ frame ∈ new, frame ∈ old ∨ k.Claims frame

theorem Follows.change {frame frame' : Frame}
    (makes : ∀ i, making (frame' :: rest) = some i → making (frame :: rest) = some i)
    (exits : ∀ p, exiting (frame :: rest) = some p → exiting (frame' :: rest) = some p)
    (claims : k.Claims frame') : k.Follows (frame :: rest) (frame' :: rest) := by
  refine ⟨makes, exits, fun frame'' mem => ?_⟩
  rcases mem_cons.mp mem with rfl | below
  · exact .inr claims
  · exact .inl (mem_cons_of_mem _ below)

theorem Follows.replace {frame frame' : Frame}
    (makes : making (frame' :: rest) = making (frame :: rest))
    (exits : exiting (frame' :: rest) = exiting (frame :: rest)) (claims : k.Claims frame') :
    k.Follows (frame :: rest) (frame' :: rest) :=
  .change (fun _ => makes.symm.trans) (fun _ => exits.trans) claims

theorem Follows.push {frame : Frame} {stack : List Frame}
    (makes : making (frame :: stack) = making stack)
    (exits : exiting (frame :: stack) = exiting stack) (claims : k.Claims frame) :
    k.Follows stack (frame :: stack) := by
  refine ⟨fun _ => makes.symm.trans, fun _ => exits.trans, fun frame' mem => ?_⟩
  rcases mem_cons.mp mem with rfl | below
  · exact .inr claims
  · exact .inl below

theorem Follows.pop {frame : Frame}
    (makes : ∀ i, making rest = some i → making (frame :: rest) = some i)
    (exits : exiting (frame :: rest) = exiting rest) : k.Follows (frame :: rest) rest :=
  ⟨makes, fun _ => exits.symm.trans, fun _ mem => .inl (mem_cons_of_mem _ mem)⟩

theorem Follows.trans {old mid new : List Frame} (first : k.Follows old mid)
    (second : k.Follows mid new) : k.Follows old new := by
  refine ⟨fun i is => first.makes i (second.makes i is),
    fun p is => second.exits p (first.exits p is), fun frame mem => ?_⟩
  rcases second.claims frame mem with pre | claims
  · exact first.claims frame pre
  · exact .inr claims

theorem Follows.holds {old new : List Frame} (follows : k.Follows old new) (family : k.Family t)
    (stack : (k.harts c).stack = old) : ∀ frame ∈ new, k.Claims frame := by
  intro frame mem
  rcases follows.claims frame mem with pre | claims
  · exact family.claims c frame (stack ▸ pre)
  · exact claims

/-! ## Kinds of steps -/

section

variable {old new : List Frame} {lk : LockId}

section

variable (sound : k.Sound t) (stack : (k.harts c).stack = old)

include sound stack

theorem Sound.move (moved : k.Moved k' c new) (sys : k'.Sys t) (follows : k.Follows old new) :
    k'.Sound t := by
  have claims := follows.holds sound.family stack
  subst stack
  exact ⟨sys, sound.family.move moved follows.makes claims, sound.history.move moved follows.exits⟩

theorem Sound.goto (shape : Shape (t c) new) (same : locks new = locks old)
    (stands : standing new = standing old)
    (follows : k.Follows old new) : Goes (.ok (k.goto c new)) := by
  refine ⟨_, t, rfl, sound.move stack (goto_moved k c new) ?_ follows⟩
  subst stack
  exact sound.sys.goto shape same stands

theorem Sound.acquire (fresh : lk ∉ locks old) (shape : Shape (t c) new)
    (gains : (locks new).Perm (lk :: locks old))
    (stands : standing new = standing old) (follows : k.Follows old new) :
    Goes (k.acquire c lk new) := by
  have outcome : k.acquire c lk new = .ok k ∨
      k.acquire c lk new = .ok (k.acquired c lk new) ∧ (k.acquired c lk new).Sys t := by
    subst stack
    exact sound.sys.acquire fresh shape gains stands
  rcases outcome with spins | ⟨takes, sys⟩
  · exact ⟨k, t, spins, sound⟩
  · exact ⟨_, t, takes, sound.move stack (acquired_moved k c lk new) sys follows⟩

theorem Sound.release (shape : Shape (t c) new)
    (loses : (locks old).Perm (lk :: locks new))
    (stands : standing new = standing old) (follows : k.Follows old new) :
    Goes (k.release c lk new) := by
  have outcome : k.release c lk new = .ok (k.released c lk new) ∧ (k.released c lk new).Sys t := by
    subst stack
    exact sound.sys.release shape loses stands
  exact ⟨_, t, outcome.1, sound.move stack (released_moved k c lk new) outcome.2 follows⟩

end

theorem Sound.setInts (sound : k.Sound t) (ints : Sync.Cpu)
    (noff : ints.noff = (k.harts c).ints.noff)
    (intr : ints.intr = true → locks (k.harts c).stack = []) :
    (k.setHart c { k.harts c with ints := ints }).Sound t := by
  set k' := k.setHart c { k.harts c with ints := ints } with after
  have hart : k'.harts c = { k.harts c with ints := ints } := setHart_self ..
  have moved : k.Moved k' c (k.harts c).stack :=
    ⟨fun _ other => setHart_other k _ other, by rw [hart], rfl, rfl, rfl, rfl, rfl⟩
  refine sound.move rfl moved ?_ ⟨fun _ is => is, fun _ is => is, fun _ mem => .inl mem⟩
  refine sound.sys.move moved (fun _ _ _ => Iff.rfl) (by rw [hart]) (by rw [hart])
    (sound.sys.shape c) ?_ rfl
  refine (sound.sys.locks c).same rfl (by rw [hart]; exact noff) (by rw [hart]) fun enabled => ?_
  rw [hart] at enabled
  exact intr enabled

theorem Sound.setIntena (sound : k.Sound t) (intena : Bool) : (k.setIntena c intena).Sound t :=
  sound.setInts _ rfl (sound.sys.locks c).intr

theorem setIntena_stack (k : Kernel n) (c : Fin n) (intena : Bool) :
    ((k.setIntena c intena).harts c).stack = (k.harts c).stack := by
  unfold setIntena
  rw [setHart_self]

theorem Sound.setIntr (sound : k.Sound t) (intr : Bool)
    (free : intr = true → locks (k.harts c).stack = []) : (k.setIntr c intr).Sound t :=
  sound.setInts _ rfl free

theorem setIntr_stack (k : Kernel n) (c : Fin n) (intr : Bool) :
    ((k.setIntr c intr).harts c).stack = (k.harts c).stack := by
  unfold setIntr
  rw [setHart_self]

/-- A thread that has not given up its hart is that of a process that runs. -/
theorem Sys.executes (sys : k.Sys t) (thread : t c = .proc p) (stack : (k.harts c).stack = old)
    (stands : standing old = .running) :
    (k.harts c).proc = some p ∧ (k.procs p).state = .running := by
  have runs := sys.runs c
  rw [thread] at runs
  obtain ⟨has, -, agrees⟩ := runs
  rw [stack, stands] at agrees
  exact ⟨has, agrees⟩

theorem Sound.leave {proc : Proc} (sound : k.Sound t) (thread : t c = .proc p)
    (stack : (k.harts c).stack = old) (stands : standing old = .running)
    (restated : Restated (k.procs p) proc) (idle : proc.state ≠ .running)
    (shape : Shape (.proc p) new) (same : locks new = locks old)
    (agrees : (standing new).Agrees proc.state) (follows : k.Follows old new) :
    Goes (.ok ((k.setProc p proc).goto c new)) := by
  have alive := (sound.sys.executes thread stack stands).2
  have claims := follows.holds sound.family stack
  subst stack
  refine ⟨_, t, rfl, sound.sys.leave thread (sound.sys.inside (by rw [alive]; decide)) idle shape
    same agrees, ?_, ?_⟩
  · exact (sound.family.restate restated).move (goto_moved _ c new) follows.makes
      fun frame mem => (claims frame mem).congr (restated_parents restated)
  · exact (sound.history.restate restated).move (goto_moved _ c new) follows.exits

/-- `sched` in a thread that holds the lock of its process only. -/
theorem Sound.depart {resumed : Bool → List Frame} (sound : k.Sound t) (thread : t c = .proc p)
    (stack : (k.harts c).stack = old) (only : locks old = [.proc p])
    (leaves : standing old ≠ .running)
    (suspended : k.Live p → ∀ intena, Suspended p (resumed intena))
    (makes : ∀ intena i, making (resumed intena) = some i → making old = some i) :
    Goes (k.sched c resumed) := by
  subst stack
  obtain ⟨switches, sys⟩ := sound.sys.depart thread only leaves suspended
  refine ⟨_, _, switches, sys, sound.family.depart thread (makes _), ?_⟩
  refine sound.history.of_procs rfl rfl rfl rfl fun c' p' exits => ?_
  rcases eq_or_ne c' c with rfl | other
  · have held := exiting_holds exits
    rw [only] at held
    exact nomatch mem_singleton.mp held
  have hart : (k.departed c p (resumed (k.harts c).ints.intena)).harts c' = k.harts c' :=
    setHart_other _ _ other
  rw [hart]
  exact exits

end

/-! ## `yield` and `sleep` -/

theorem Sound.yieldStep {pc : YieldPc} (sound : k.Sound t) (thread : t c = .proc p)
    (stack : (k.harts c).stack = .yield p pc :: rest) (below : Shape (.proc p) rest)
    (free : locks rest = []) : Goes (k.yieldStep c rest p pc) := by
  have shape pc : Shape (t c) (.yield p pc :: rest) := by
    rw [thread]
    exact .yield pc below free
  cases pc with
  | start =>
    refine sound.acquire stack ?_ (shape .locked) (.refl _) rfl (.replace rfl rfl trivial)
    change _ ∉ [] ++ locks rest
    rw [free]
    exact not_mem_nil
  | locked =>
    have alive := (sound.sys.executes thread stack rfl).2
    exact sound.leave thread stack rfl (.of_awake (by rw [alive]; rfl) rfl rfl rfl rfl)
      nofun (.yield .sched below free) rfl nofun
      (.replace rfl rfl trivial)
  | sched =>
    have only pc (held : pc.locks p = [.proc p]) :
        locks (.yield p pc :: rest) = [.proc p] := by
      rw [locks_cons, free, append_nil]
      exact held
    exact sound.depart thread stack (only .sched rfl) nofun
      (fun _ _ => ⟨.yield _ below free, only _ rfl, rfl⟩) fun _ _ is => is
  | resumed intena =>
    have stands : standing rest = .running := standing_of_unlocked below fun q => by
      rw [free]
      exact not_mem_nil
    exact (sound.setIntena intena).release ((setIntena_stack k c intena).trans stack)
      (thread ▸ below) (.refl _) stands (.pop (fun _ => id) rfl)

/-- The calls below one of `sleep`: the caller, which gets the lock back. -/
structure SleepsIn (p : Nat) (chan : Chan) (lk : LockId) (rest : List Frame) : Prop where
  shape : ∀ pc, Shape (.proc p) (.sleep p chan lk pc :: rest)
  free : locks rest = []
  other : ∀ q, lk ≠ .proc q
  back : Shape (.proc p) (giveBack lk rest)
  holds : locks (giveBack lk rest) = [lk]
  stands : standing (giveBack lk rest) = .running
  makes : making (giveBack lk rest) = none
  exits : exiting rest = none
  claims : ∀ frame ∈ giveBack lk rest, ∀ {n : Nat} (k : Kernel n), k.Claims frame

theorem sleepsIn_user (p : Nat) (chan : Chan) (lock : Nat) :
    SleepsIn p chan (.other lock) [.user p []] where
  shape := .sleep p chan lock
  free := rfl
  other := nofun
  back := .user p [lock]
  holds := rfl
  stands := rfl
  makes := rfl
  exits := rfl
  claims := by
    intro frame mem n k
    rw [mem_singleton.mp mem]
    trivial

theorem sleepsIn_wait (p : Nat) (chan : Chan) :
    SleepsIn p chan .wait [.wait p .sleeping, .user p []] where
  shape := .waitSleep p chan
  free := rfl
  other := nofun
  back := .wait p (.scan 0 false)
  holds := rfl
  stands := rfl
  makes := rfl
  exits := rfl
  claims := by
    intro frame mem n k
    refine claims_pair ?_ ?_ frame mem
    all_goals trivial

theorem Sound.sleepStep {chan : Chan} {pc : SleepPc} (sound : k.Sound t) (thread : t c = .proc p)
    (stack : (k.harts c).stack = .sleep p chan lk pc :: rest) (sleeps : SleepsIn p chan lk rest) :
    Goes (k.sleepStep c rest p chan lk pc) := by
  have shape pc : Shape (t c) (.sleep p chan lk pc :: rest) := by
    rw [thread]
    exact sleeps.shape pc
  have held pc : locks (.sleep p chan lk pc :: rest) = pc.locks p lk := by
    rw [locks_cons, sleeps.free, append_nil]
    rfl
  have replace pc pc' :
      k.Follows (.sleep p chan lk pc :: rest) (.sleep p chan lk pc' :: rest) :=
    (.replace rfl rfl trivial)
  cases pc with
  | start =>
    refine sound.acquire stack ?_ (shape .locked) (.refl _) rfl (replace _ _)
    rw [held]
    exact fun lt => sleeps.other p (mem_singleton.mp lt).symm
  | locked =>
    refine sound.release stack (shape .released) ?_ rfl (replace _ _)
    rw [held, held]
    exact .swap _ _ _
  | released =>
    have alive := (sound.sys.executes thread stack rfl).2
    exact sound.leave thread stack rfl (.of_awake (by rw [alive]; rfl) rfl rfl rfl rfl)
      nofun (sleeps.shape .sched) rfl nofun (replace _ _)
  | sched =>
    exact sound.depart thread stack (held _) nofun
      (fun _ intena => ⟨sleeps.shape (.resumed intena), held _, rfl⟩) fun _ _ is => is
  | resumed intena =>
    have restated : Restated (k.procs p) { k.procs p with chan := none } :=
      .of_state rfl rfl rfl (fun _ => rfl) fun _ => rfl
    have touched : (k.setProc p { k.procs p with chan := none }).Sound t :=
      ⟨sound.sys.touch rfl, sound.family.restate restated, sound.history.restate restated⟩
    refine (touched.setIntena intena).release ((setIntena_stack _ c intena).trans stack)
      (shape .relock) ?_ rfl (.replace rfl rfl trivial)
    rw [held, held]
    exact .refl _
  | relock =>
    have back : Shape (t c) (giveBack lk rest) := by
      rw [thread]
      exact sleeps.back
    refine sound.acquire stack ?_ back ?_ sleeps.stands ⟨fun i is => ?_, fun q is => ?_,
      fun frame mem => .inr (sleeps.claims frame mem k)⟩
    · rw [held]
      exact not_mem_nil
    · rw [sleeps.holds, held]
      exact .refl _
    · rw [sleeps.makes] at is
      cases is
    · change exiting rest = some q at is
      rw [sleeps.exits] at is
      cases is

/-! ## `wakeup` and `kill` -/

/-- The scheduler returns from a process with the lock held. -/
theorem not_back (below : Shape (t c) rest) (unlocked : ∀ q, .proc q ∉ locks rest) (i : Nat) :
    t c ≠ .scheduler (.back i) := by
  intro thread
  rw [thread] at below
  exact unlocked i (scheduler_holds below mem_cons_self)

/-- What a hart has as its `proc` runs, unless the thread is about to give it up. -/
theorem Sys.proc_running (sys : k.Sys t) (stands : standing (k.harts c).stack = .running)
    (back : ∀ i, t c ≠ .scheduler (.back i)) (has : (k.harts c).proc = some q) :
    (k.procs q).state = .running := by
  have runs := sys.runs c
  cases thread : t c with
  | proc p =>
    obtain ⟨has', alive⟩ := sys.executes thread rfl stands
    rw [Option.some.inj (has.symm.trans has')]
    exact alive
  | scheduler pc =>
    rw [thread] at runs
    cases pc with
    | scan i | locked i => exact absurd (has.symm.trans runs) (Option.some_ne_none q)
    | picked i =>
      rw [Option.some.inj (has.symm.trans runs.1)]
      exact runs.2
    | back i => exact absurd thread (back i)

/-- A hart that holds the lock of a sleeping process makes it runnable. -/
theorem Sound.wake {proc : Proc} (sound : k.Sound t) (held : k.holder (.proc q) = some c)
    (sleeping : (k.procs q).state = .sleeping) (stands : standing (k.harts c).stack = .running)
    (below : Shape (t c) rest) (unlocked : ∀ q, .proc q ∉ locks rest)
    (runnable : proc.state = .runnable) (birth : proc.birth = (k.procs q).birth)
    (parent : proc.parent = (k.procs q).parent) (pid : proc.pid = (k.procs q).pid) :
    (k.setProc q proc).Sound t := by
  have here : (k.harts c).proc ≠ some q := fun has => by
    have alive := sound.sys.proc_running stands (not_back below unlocked) has
    rw [sleeping] at alive
    cases alive
  have restated : Restated (k.procs q) proc :=
    .of_awake (by rw [sleeping]; rfl) (by rw [runnable]; rfl) birth parent pid
  have idle : (k.procs q).state ≠ .running := by
    rw [sleeping]
    decide
  have off := sound.sys.off held idle here
  have live : k.Live q := ⟨by rw [sleeping]; decide, by rw [sleeping]; decide⟩
  refine ⟨sound.sys.setProc off (sound.sys.inside live.1) ?_ fun _ _ => ?_,
    sound.family.restate restated, sound.history.restate restated⟩
  · rw [runnable]
    decide
  · exact sound.sys.saved q live (sound.sys.thread_off off)

section

variable {rest : List Frame} {i : Nat} {locked : Bool}

theorem Sound.wakeupStep {chan : Option Chan} (sound : k.Sound t)
    (stack : (k.harts c).stack = .wakeup chan i locked :: rest) (below : Shape (t c) rest)
    (unlocked : ∀ q, .proc q ∉ locks rest) : Goes (k.wakeupStep c rest chan i locked) := by
  have stands := standing_of_unlocked below unlocked
  have replace (k : Kernel n) i i' locked locked' :
      k.Follows (.wakeup chan i locked :: rest) (.wakeup chan i' locked' :: rest) :=
    (.replace rfl rfl trivial)
  cases locked with
  | false =>
    unfold wakeupStep
    dsimp only
    split
    · exact sound.goto stack below rfl stands (.pop (fun _ => id) rfl)
    split
    · exact sound.goto stack (.wakeup chan (i + 1) false below unlocked) rfl rfl (replace ..)
    · exact sound.acquire stack (unlocked i) (.wakeup chan i true below unlocked) (.refl _) rfl
        (replace ..)
  | true =>
    have next := Shape.wakeup chan (i + 1) false below unlocked
    have held : k.holder (.proc i) = some c := by
      rw [(sound.sys.locks c).holds, stack]
      exact mem_cons_self
    unfold wakeupStep
    dsimp only
    split
    next sleeping =>
      refine (sound.wake held sleeping.1 (by rw [stack]; rfl) below unlocked ?_ ?_ ?_ ?_).release
        stack next (.refl _) rfl (replace ..)
      all_goals rfl
    next => exact sound.release stack next (.refl _) rfl (replace ..)

theorem Sound.killStep {pid : BitVec 32} (sound : k.Sound t)
    (stack : (k.harts c).stack = .kill pid i locked :: rest) (below : Shape (t c) rest)
    (unlocked : ∀ q, .proc q ∉ locks rest) : Goes (k.killStep c rest pid i locked) := by
  have stands := standing_of_unlocked below unlocked
  have replace (k : Kernel n) i i' locked locked' :
      k.Follows (.kill pid i locked :: rest) (.kill pid i' locked' :: rest) :=
    (.replace rfl rfl trivial)
  cases locked with
  | false =>
    unfold killStep
    dsimp only
    split
    · exact sound.goto stack below rfl stands (.pop (fun _ => id) rfl)
    · exact sound.acquire stack (unlocked i) (.kill pid i true below unlocked) (.refl _) rfl
        (replace ..)
  | true =>
    have held : k.holder (.proc i) = some c := by
      rw [(sound.sys.locks c).holds, stack]
      exact mem_cons_self
    unfold killStep
    dsimp only
    split
    · refine Sound.release (t := t) ?_ stack below (.refl _) stands (.pop (fun _ => id) rfl)
      by_cases sleeping : (k.procs i).state = .sleeping
      · rw [if_pos sleeping]
        exact sound.wake held sleeping (by rw [stack]; rfl) below unlocked rfl rfl rfl rfl
      rw [if_neg sleeping]
      have restated : Restated (k.procs i)
          { k.procs i with killed := true, state := (k.procs i).state } :=
        .of_state rfl rfl rfl (fun _ => rfl) fun _ => rfl
      exact ⟨sound.sys.touch rfl, sound.family.restate restated, sound.history.restate restated⟩
    · exact sound.release stack (.kill pid (i + 1) false below unlocked) (.refl _) rfl (replace ..)

end

end Kernel

end Xv6Rv32im.Sched
