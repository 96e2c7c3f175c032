import Xv6Rv32im.Library.Update
import Xv6Rv32im.Sched.Model

/-!
# Threads, locks and harts

What holds between any two steps: a thread holds the locks that its pending calls tell, a
hart that executes a process has it as its `proc`, and a process that no hart executes has a
saved context.  Each kind of step is shown to keep this once, whatever function takes it.
-/

namespace Xv6Rv32im.Sched

open Function Library List Option

open Process (NPROC)

/-! ## What pending calls tell -/

section

variable (p : Nat)

def YieldPc.locks : YieldPc → List LockId
  | .start => []
  | .locked | .sched | .resumed _ => [.proc p]

def SleepPc.locks (lk : LockId) : SleepPc → List LockId
  | .start => [lk]
  | .locked => [.proc p, lk]
  | .released | .sched | .resumed _ => [.proc p]
  | .relock => []

def ExitPc.locks : ExitPc → List LockId
  | .start => []
  | .reparent _ | .lock => [.wait]
  | .zombie | .unlock => [.proc p, .wait]
  | .sched | .resumed => [.proc p]

end

def ForkPc.locks : ForkPc → List LockId
  | .locked i | .copy i | .finish i => [.proc i]
  | .linked _ => [.wait]
  | .scan _ | .link _ | .ready _ => []

def WaitPc.locks : WaitPc → List LockId
  | .scan _ _ | .leave => [.wait]
  | .child i => [.proc i, .wait]
  | .start | .sleeping => []

def SchedPc.locks : SchedPc → List LockId
  | .scan _ => []
  | .locked i | .picked i | .back i => [.proc i]

/-- The locks that a call has acquired and not released. -/
def Frame.locks : Frame → List LockId
  | .user _ held | .trap held => held.map .other
  | .forkret p => [.proc p]
  | .yield p pc => pc.locks p
  | .sleep p _ lk pc => pc.locks p lk
  | .wakeup _ i locked | .kill _ i locked => if locked then [.proc i] else []
  | .fork _ pc => pc.locks
  | .exit p _ pc => pc.locks p
  | .wait _ pc => pc.locks
  | .scheduler pc => pc.locks

def locks (stack : List Frame) : List LockId := stack.flatMap Frame.locks

@[simp] theorem locks_nil : locks [] = [] :=
  rfl

@[simp] theorem locks_cons (frame : Frame) (rest : List Frame) :
    locks (frame :: rest) = frame.locks ++ locks rest :=
  rfl

/-- Whether a thread has given up its hart: its process then waits or has exited, and what is
left to do is `sched`. -/
inductive Standing where
  | running
  | leaving
  | dead
  deriving DecidableEq

def standing : List Frame → Standing
  | .yield _ .sched :: _ | .sleep _ _ _ .sched :: _ => .leaving
  | .exit _ _ .unlock :: _ | .exit _ _ .sched :: _ => .dead
  | _ => .running

/-- The state of a process with such a thread on a hart. -/
def Standing.Agrees (state : ProcState) : Standing → Prop
  | .running => state = .running
  | .leaving => state ≠ .running
  | .dead => state = .zombie

theorem Standing.Agrees.idle {state : ProcState} {standing : Standing}
    (agrees : standing.Agrees state) (gone : standing ≠ .running) : state ≠ .running := by
  cases standing with
  | running => exact absurd rfl gone
  | leaving => exact agrees
  | dead =>
    rw [show state = .zombie from agrees]
    decide

/-- Which thread a hart executes. -/
inductive Thread where
  | proc (p : Nat)
  | scheduler (pc : SchedPc)

/-- The calls that can be pending in a thread. -/
inductive Shape : Thread → List Frame → Prop where
  | user (p : Nat) (held : List Nat) : Shape (.proc p) [.user p held]
  | scheduler (pc : SchedPc) : Shape (.scheduler pc) [.scheduler pc]
  | forkret (p : Nat) : Shape (.proc p) [.forkret p, .user p []]
  | trap {thread : Thread} {rest : List Frame} (held : List Nat) (below : Shape thread rest)
      (free : locks rest = []) : Shape thread (.trap held :: rest)
  | yield {p : Nat} {rest : List Frame} (pc : YieldPc) (below : Shape (.proc p) rest)
      (free : locks rest = []) : Shape (.proc p) (.yield p pc :: rest)
  | sleep (p : Nat) (chan : Chan) (lock : Nat) (pc : SleepPc) :
      Shape (.proc p) [.sleep p chan (.other lock) pc, .user p []]
  | waitSleep (p : Nat) (chan : Chan) (pc : SleepPc) :
      Shape (.proc p) [.sleep p chan .wait pc, .wait p .sleeping, .user p []]
  | wakeup {thread : Thread} {rest : List Frame} (chan : Option Chan) (i : Nat) (locked : Bool)
      (below : Shape thread rest) (unlocked : ∀ q, .proc q ∉ locks rest) :
      Shape thread (.wakeup chan i locked :: rest)
  | kill {thread : Thread} {rest : List Frame} (pid : BitVec 32) (i : Nat) (locked : Bool)
      (below : Shape thread rest) (unlocked : ∀ q, .proc q ∉ locks rest) :
      Shape thread (.kill pid i locked :: rest)
  | fork (p : Nat) (pc : ForkPc) (held : List Nat) (inside : ∀ i, pc = .locked i → i < NPROC) :
      Shape (.proc p) [.fork p pc, .user p held]
  | exit (p : Nat) (status : BitVec 32) (pc : ExitPc) (notInit : p ≠ INITPROC)
      (goesOn : pc ≠ .resumed) :
      Shape (.proc p) [.exit p status pc, .user p []]
  | wait (p : Nat) (pc : WaitPc) : Shape (.proc p) [.wait p pc, .user p []]

/-- A thread that waits to be resumed: it will hold the lock of its process. -/
structure Suspended (p : Nat) (stack : List Frame) : Prop where
  shape : Shape (.proc p) stack
  locks : Sched.locks stack = [.proc p]
  stays : standing stack = .running

namespace Kernel

variable {n : Nat}

/-- A hart holds the locks of its thread, and takes interrupts only if there are none. -/
structure HartLocks (k : Kernel n) (c : Fin n) : Prop where
  nodup : (locks (k.harts c).stack).Nodup
  holds : ∀ lk, k.holder lk = some c ↔ lk ∈ locks (k.harts c).stack
  noff : (k.harts c).ints.noff = (locks (k.harts c).stack).length
  intr : (k.harts c).ints.intr = true → locks (k.harts c).stack = []

def Runs (k : Kernel n) (c : Fin n) : Thread → Prop
  | .proc p =>
    (k.harts c).proc = some p ∧ (k.harts c).context = some [.scheduler (.back p)] ∧
      (standing (k.harts c).stack).Agrees (k.procs p).state
  | .scheduler (.scan _) | .scheduler (.locked _) => (k.harts c).proc = none
  | .scheduler (.picked i) => (k.harts c).proc = some i ∧ (k.procs i).state = .running
  | .scheduler (.back i) => (k.harts c).proc = some i ∧ (k.procs i).state ≠ .running

/-- A process with a thread that will go on. -/
def Live (k : Kernel n) (p : Nat) : Prop :=
  (k.procs p).state ≠ .unused ∧ (k.procs p).state ≠ .zombie

structure Sys (k : Kernel n) (t : Fin n → Thread) : Prop where
  shape : ∀ c, Shape (t c) (k.harts c).stack
  locks : ∀ c, k.HartLocks c
  runs : ∀ c, k.Runs c (t c)
  single : ∀ c c' p, (k.harts c).proc = some p → (k.harts c').proc = some p → c = c'
  running : ∀ p, (k.procs p).state = .running → ∃ c, (k.harts c).proc = some p
  saved : ∀ p, k.Live p → (∀ c, t c ≠ .proc p) →
    ∃ stack, k.context p = some stack ∧ Suspended p stack
  bound : ∀ p, NPROC ≤ p → (k.procs p).state = .unused

variable {k k' : Kernel n} {t : Fin n → Thread} {c : Fin n} {p q : Nat} {stack : List Frame}
  {lk : LockId}

/-! ## Harts and processes -/

/-- A thread that gives up its hart holds the lock of its process. -/
theorem leaving_holds {thread : Thread} (shape : Shape thread stack)
    (leaves : standing stack ≠ .running) : ∃ p, .proc p ∈ Sched.locks stack ∧ thread = .proc p := by
  cases shape with
  | user | scheduler | forkret | trap | wakeup | kill | fork | wait => exact absurd rfl leaves
  | yield pc | sleep _ chan lock pc | waitSleep _ chan pc =>
    cases pc with
    | sched => exact ⟨_, mem_cons_self, rfl⟩
    | _ => exact absurd rfl leaves
  | exit _ status pc notInit goesOn =>
    cases pc with
    | unlock | sched => exact ⟨_, mem_cons_self, rfl⟩
    | _ => exact absurd rfl leaves

theorem standing_of_unlocked {thread : Thread} (shape : Shape thread stack)
    (unlocked : ∀ q, .proc q ∉ Sched.locks stack) : standing stack = .running := by
  by_contra leaves
  obtain ⟨p, held, -⟩ := leaving_holds shape leaves
  exact unlocked p held

/-- The scheduler holds the lock of the process that it has at hand. -/
theorem scheduler_holds {pc : SchedPc} (shape : Shape (.scheduler pc) stack) (mem : lk ∈ pc.locks) :
    lk ∈ Sched.locks stack := by
  generalize thread : Thread.scheduler pc = th at shape
  induction shape with
  | scheduler pc' =>
    cases thread
    exact mem_append_left _ mem
  | trap held below free ih | wakeup chan i locked below unlocked ih
  | kill pid i locked below unlocked ih => exact mem_append_right _ (ih thread)
  | user | forkret | yield | sleep | waitSleep | fork | exit | wait => cases thread

/-- A process that a hart has as its `proc` runs, or the hart holds its lock. -/
theorem Sys.running_or_holds (sys : k.Sys t) (has : (k.harts c).proc = some p) :
    (k.procs p).state = .running ∨ k.holder (.proc p) = some c := by
  have runs := sys.runs c
  have shape := sys.shape c
  have holds := (sys.locks c).holds
  cases thread : t c with
  | proc p' =>
    rw [thread] at runs shape
    obtain rfl : p' = p := some.inj (runs.1.symm.trans has)
    by_cases leaves : standing (k.harts c).stack = .running
    · have agrees := runs.2.2
      rw [leaves] at agrees
      exact .inl agrees
    · obtain ⟨q, held, same⟩ := leaving_holds shape leaves
      cases same
      exact .inr ((holds _).mpr held)
  | scheduler pc =>
    rw [thread] at runs shape
    cases pc with
    | scan i | locked i => exact absurd (has.symm.trans runs) (some_ne_none p)
    | picked i =>
      obtain rfl : i = p := some.inj (runs.1.symm.trans has)
      exact .inl runs.2
    | back i =>
      obtain rfl : i = p := some.inj (runs.1.symm.trans has)
      exact .inr ((holds _).mpr (scheduler_holds shape mem_cons_self))

/-! ## Steps of a hart on its own -/

/-- The step of a hart that goes on with these calls and changes nothing but itself and the
holders of locks. -/
structure Moved (k k' : Kernel n) (c : Fin n) (stack : List Frame) : Prop where
  others : ∀ c', c' ≠ c → k'.harts c' = k.harts c'
  stack : (k'.harts c).stack = stack
  procs : k'.procs = k.procs
  context : k'.context = k.context
  born : k'.born = k.born
  exits : k'.exits = k.exits
  reports : k'.reports = k.reports

def KeepsLocks (k k' : Kernel n) (c : Fin n) : Prop :=
  ∀ lk c', c' ≠ c → (k'.holder lk = some c' ↔ k.holder lk = some c')

theorem HartLocks.other (locks : k.HartLocks c) (same : k'.harts c = k.harts c)
    (holder : ∀ lk, k'.holder lk = some c ↔ k.holder lk = some c) : k'.HartLocks c := by
  obtain ⟨nodup, holds, noff, intr⟩ := locks
  rw [← same] at nodup holds noff intr
  exact ⟨nodup, fun lk => (holder lk).trans (holds lk), noff, intr⟩

theorem Runs.other {thread : Thread} (runs : k.Runs c thread) (same : k'.harts c = k.harts c)
    (states : ∀ p, (k.harts c).proc = some p → (k'.procs p).state = (k.procs p).state) :
    k'.Runs c thread := by
  cases thread with
  | proc p =>
    obtain ⟨proc, context, running⟩ := runs
    refine ⟨same ▸ proc, same ▸ context, ?_⟩
    rw [states p proc, same]
    exact running
  | scheduler pc =>
    cases pc with
    | scan i | locked i =>
      exact (congrArg Hart.proc same).trans runs
    | picked i | back i =>
      refine ⟨same ▸ runs.1, ?_⟩
      rw [states i runs.1]
      exact runs.2

/-- A process that no hart executes after a step of this hart, and that it did not execute
before. -/
theorem nowhere_before {thread : Thread} (here : t c ≠ .proc p)
    (nowhere : ∀ c', update t c thread c' ≠ .proc p) (c' : Fin n) : t c' ≠ .proc p := by
  rcases eq_or_ne c' c with rfl | other
  · exact here
  · exact update_of_ne other thread t ▸ nowhere c'

/-- A step of a hart that leaves the processes alone. -/
theorem Sys.of_hart {thread : Thread} (sys : k.Sys t)
    (others : ∀ c', c' ≠ c → k'.harts c' = k.harts c') (holder : k.KeepsLocks k' c)
    (procs : k'.procs = k.procs) (shape : Shape thread (k'.harts c).stack) (locks : k'.HartLocks c)
    (runs : k'.Runs c thread) (gains : ∀ p, (k'.harts c).proc = some p → (k.harts c).proc = some p)
    (keeps : ∀ p, (k.harts c).proc = some p → (k.procs p).state = .running →
      (k'.harts c).proc = some p)
    (saved : ∀ p, k.Live p → (∀ c', update t c thread c' ≠ .proc p) →
      ∃ stack, k'.context p = some stack ∧ Suspended p stack) :
    k'.Sys (update t c thread) := by
  have pre c' p (has : (k'.harts c').proc = some p) :
      (k.harts c').proc = some p := by
    rcases eq_or_ne c' c with rfl | other
    · exact gains p has
    · rw [others c' other] at has
      exact has
  refine ⟨fun c' => ?_, fun c' => ?_, fun c' => ?_, fun c₁ c₂ p has has' => ?_,
    fun p executes => ?_, fun p live => ?_, fun p above => ?_⟩
  · rcases eq_or_ne c' c with rfl | other
    · rw [update_self]
      exact shape
    · rw [update_of_ne other, others c' other]
      exact sys.shape c'
  · rcases eq_or_ne c' c with rfl | other
    · exact locks
    · exact (sys.locks c').other (others c' other) fun lk => holder lk c' other
  · rcases eq_or_ne c' c with rfl | other
    · rw [update_self]
      exact runs
    · rw [update_of_ne other]
      exact (sys.runs c').other (others c' other) fun p _ => by rw [procs]
  · exact sys.single c₁ c₂ p (pre c₁ p has) (pre c₂ p has')
  · rw [procs] at executes
    obtain ⟨c', has⟩ := sys.running p executes
    refine ⟨c', ?_⟩
    rcases eq_or_ne c' c with rfl | other
    · exact keeps p has executes
    · rw [others c' other]
      exact has
  · unfold Live at live
    rw [procs] at live
    exact saved p live
  · rw [procs]
    exact sys.bound p above

section

variable (sys : k.Sys t) (moved : k.Moved k' c stack) (holder : k.KeepsLocks k' c)

include sys moved holder

theorem Sys.move (proc : (k'.harts c).proc = (k.harts c).proc)
    (context : (k'.harts c).context = (k.harts c).context) (shape : Shape (t c) stack)
    (locks : k'.HartLocks c) (leaves : standing stack = standing (k.harts c).stack) : k'.Sys t := by
  have runs : k'.Runs c (t c) := by
    have pre := sys.runs c
    cases thread : t c with
    | proc p =>
      rw [thread] at pre
      obtain ⟨has, saved, running⟩ := pre
      refine ⟨proc.trans has, context.trans saved, ?_⟩
      rw [moved.procs, moved.stack, leaves]
      exact running
    | scheduler pc =>
      rw [thread] at pre
      cases pc with
      | scan i | locked i => exact proc.trans pre
      | picked i | back i =>
        refine ⟨proc.trans pre.1, ?_⟩
        rw [moved.procs]
        exact pre.2
  have same : update t c (t c) = t := update_eq_self c t
  rw [← same]
  refine sys.of_hart moved.others holder moved.procs (moved.stack.symm ▸ shape) locks runs
    (fun p has => proc.symm.trans has) (fun p has _ => proc.trans has) fun p live nowhere => ?_
  rw [moved.context]
  rw [same] at nowhere
  exact sys.saved p live nowhere

theorem Sys.moveScheduler {pc pc' : SchedPc} (thread : t c = .scheduler pc)
    (drops : ∀ p, (k.harts c).proc = some p → (k.procs p).state ≠ .running)
    (idle : (k'.harts c).proc = none) (shape : Shape (.scheduler pc') stack)
    (locks : k'.HartLocks c) (runs : k'.Runs c (.scheduler pc')) :
    k'.Sys (update t c (.scheduler pc')) := by
  refine sys.of_hart moved.others holder moved.procs (moved.stack.symm ▸ shape) locks runs
    (fun p has => nomatch idle.symm.trans has) (fun p has alive => absurd alive (drops p has))
    fun p live nowhere => ?_
  rw [moved.context]
  exact sys.saved p live (nowhere_before (thread ▸ nofun) nowhere)

end

/-! ## Locks -/

theorem setHart_self (k : Kernel n) (c : Fin n) (hart : Hart) : (k.setHart c hart).harts c = hart :=
  update_self ..

theorem setHart_other (k : Kernel n) (hart : Hart) {c' : Fin n} (other : c' ≠ c) :
    (k.setHart c hart).harts c' = k.harts c' :=
  update_of_ne other ..

theorem setHart_moved (k : Kernel n) (c : Fin n) (holder : LockId → Option (Fin n)) (hart : Hart) :
    k.Moved ({ k with holder := holder }.setHart c hart) c hart.stack where
  others := fun _ other => setHart_other _ _ other
  stack := congrArg Hart.stack (setHart_self ..)
  procs := rfl
  context := rfl
  born := rfl
  exits := rfl
  reports := rfl

theorem goto_moved (k : Kernel n) (c : Fin n) (stack : List Frame) :
    k.Moved (k.goto c stack) c stack :=
  setHart_moved k c k.holder _

theorem HartLocks.same (locks : k.HartLocks c) (holder : k'.holder = k.holder)
    (noff : (k'.harts c).ints.noff = (k.harts c).ints.noff)
    (stack : Sched.locks (k'.harts c).stack = Sched.locks (k.harts c).stack)
    (intr : (k'.harts c).ints.intr = true → Sched.locks (k.harts c).stack = []) :
    k'.HartLocks c := by
  refine ⟨?_, fun lk => ?_, ?_, ?_⟩
  · rw [stack]
    exact locks.nodup
  · rw [holder, stack]
    exact locks.holds lk
  · rw [noff, stack]
    exact locks.noff
  · rw [stack]
    exact intr

theorem HartLocks.kept (locks : k.HartLocks c) (holder : k'.holder = k.holder)
    (ints : (k'.harts c).ints = (k.harts c).ints)
    (stack : Sched.locks (k'.harts c).stack = Sched.locks (k.harts c).stack) : k'.HartLocks c :=
  locks.same holder (by rw [ints]) stack (ints ▸ locks.intr)

theorem Sys.goto (sys : k.Sys t) (shape : Shape (t c) stack)
    (same : Sched.locks stack = Sched.locks (k.harts c).stack)
    (leaves : standing stack = standing (k.harts c).stack) : (k.goto c stack).Sys t := by
  have hart : (k.goto c stack).harts c = { k.harts c with stack := stack } := setHart_self ..
  refine sys.move (goto_moved k c stack) (fun _ _ _ => Iff.rfl) (by rw [hart]) (by rw [hart])
    shape ?_ leaves
  exact (sys.locks c).kept rfl (by rw [hart]) (by rw [hart]; exact same)

def acquired (k : Kernel n) (c : Fin n) (lk : LockId) (stack : List Frame) : Kernel n :=
  { k with holder := update k.holder lk (some c) }.setHart c
    { k.harts c with ints := (k.harts c).ints.pushOff, stack := stack }

theorem acquired_hart (k : Kernel n) (c : Fin n) (lk : LockId) (stack : List Frame) :
    (k.acquired c lk stack).harts c =
      { k.harts c with ints := (k.harts c).ints.pushOff, stack := stack } :=
  setHart_self ..

theorem acquired_moved (k : Kernel n) (c : Fin n) (lk : LockId) (stack : List Frame) :
    k.Moved (k.acquired c lk stack) c stack :=
  setHart_moved ..

theorem acquired_keeps (free : k.holder lk = none) (stack : List Frame) :
    k.KeepsLocks (k.acquired c lk stack) c := by
  intro lk' c' other
  change update k.holder lk (some c) lk' = some c' ↔ _
  rcases eq_or_ne lk' lk with rfl | ne
  · rw [update_self, free]
    exact ⟨fun same => absurd (some.inj same).symm other, nofun⟩
  · rw [update_of_ne ne]

theorem acquired_locks (locks : k.HartLocks c) (free : k.holder lk = none)
    (gains : (Sched.locks stack).Perm (lk :: Sched.locks (k.harts c).stack)) :
    (k.acquired c lk stack).HartLocks c := by
  have hart := acquired_hart k c lk stack
  have fresh : lk ∉ Sched.locks (k.harts c).stack := by
    rw [← locks.holds, free]
    exact nofun
  refine ⟨?_, fun lk' => ?_, ?_, ?_⟩
  · rw [hart]
    exact gains.nodup_iff.mpr (nodup_cons.mpr ⟨fresh, locks.nodup⟩)
  · rw [hart]
    change update k.holder lk (some c) lk' = some c ↔ lk' ∈ Sched.locks stack
    rw [gains.mem_iff, mem_cons, ← locks.holds]
    rcases eq_or_ne lk' lk with rfl | ne
    · rw [update_self]
      exact ⟨fun _ => .inl rfl, fun _ => rfl⟩
    · rw [update_of_ne ne]
      exact ⟨.inr, fun either => either.resolve_left ne⟩
  · rw [hart]
    change (k.harts c).ints.noff + 1 = (Sched.locks stack).length
    rw [gains.length_eq, locks.noff]
    rfl
  · rw [hart]
    exact nofun

/-- `acquire` of a lock that the thread does not hold spins or takes it. -/
theorem acquire_eq (locks : k.HartLocks c) (fresh : lk ∉ Sched.locks (k.harts c).stack)
    (stack : List Frame) :
    k.acquire c lk stack = .ok k ∨
      k.acquire c lk stack = .ok (k.acquired c lk stack) ∧ k.holder lk = none := by
  have notHeld : k.holder lk ≠ some c := fun held => fresh ((locks.holds lk).mp held)
  unfold Kernel.acquire
  rw [if_neg notHeld]
  by_cases free : k.holder lk = none
  · rw [if_pos free]
    exact .inr ⟨rfl, free⟩
  · rw [if_neg free]
    exact .inl rfl

theorem Sys.acquire (sys : k.Sys t) (fresh : lk ∉ Sched.locks (k.harts c).stack)
    (shape : Shape (t c) stack)
    (gains : (Sched.locks stack).Perm (lk :: Sched.locks (k.harts c).stack))
    (leaves : standing stack = standing (k.harts c).stack) :
    k.acquire c lk stack = .ok k ∨
      k.acquire c lk stack = .ok (k.acquired c lk stack) ∧ (k.acquired c lk stack).Sys t := by
  refine (acquire_eq (sys.locks c) fresh stack).imp_right fun ⟨takes, free⟩ => ⟨takes, ?_⟩
  have hart := acquired_hart k c lk stack
  exact sys.move (acquired_moved k c lk stack) (acquired_keeps free stack) (by rw [hart])
    (by rw [hart]) shape (acquired_locks (sys.locks c) free gains) leaves

def released (k : Kernel n) (c : Fin n) (lk : LockId) (stack : List Frame) : Kernel n :=
  { k with holder := update k.holder lk none }.setHart c { k.harts c with
      ints := { (k.harts c).ints with
        noff := (k.harts c).ints.noff - 1
        intr := (k.harts c).ints.noff - 1 = 0 ∧ (k.harts c).ints.intena }
      stack := stack }

theorem released_hart (k : Kernel n) (c : Fin n) (lk : LockId) (stack : List Frame) :
    (k.released c lk stack).harts c = { k.harts c with
      ints := { (k.harts c).ints with
        noff := (k.harts c).ints.noff - 1
        intr := (k.harts c).ints.noff - 1 = 0 ∧ (k.harts c).ints.intena }
      stack := stack } :=
  setHart_self ..

theorem released_moved (k : Kernel n) (c : Fin n) (lk : LockId) (stack : List Frame) :
    k.Moved (k.released c lk stack) c stack :=
  setHart_moved ..

theorem released_keeps (held : k.holder lk = some c) (stack : List Frame) :
    k.KeepsLocks (k.released c lk stack) c := by
  intro lk' c' other
  change update k.holder lk none lk' = some c' ↔ _
  rcases eq_or_ne lk' lk with rfl | ne
  · rw [update_self, held]
    exact ⟨nofun, fun same => absurd (some.inj same).symm other⟩
  · rw [update_of_ne ne]

theorem released_locks (locks : k.HartLocks c)
    (loses : (Sched.locks (k.harts c).stack).Perm (lk :: Sched.locks stack)) :
    (k.released c lk stack).HartLocks c := by
  have hart := released_hart k c lk stack
  obtain ⟨fresh, nodup⟩ := nodup_cons.mp (loses.nodup_iff.mp locks.nodup)
  have count : (k.harts c).ints.noff - 1 = (Sched.locks stack).length := by
    rw [locks.noff, loses.length_eq]
    rfl
  refine ⟨?_, fun lk' => ?_, ?_, fun enabled => ?_⟩
  · rw [hart]
    exact nodup
  · rw [hart]
    change update k.holder lk none lk' = some c ↔ lk' ∈ Sched.locks stack
    rcases eq_or_ne lk' lk with rfl | ne
    · rw [update_self]
      exact ⟨nofun, fun lt => absurd lt fresh⟩
    · rw [update_of_ne ne, locks.holds, loses.mem_iff, mem_cons]
      exact ⟨fun either => either.resolve_left ne, .inr⟩
  · rw [hart]
    exact count
  · rw [hart] at enabled ⊢
    have none := (of_decide_eq_true enabled).1
    rw [count] at none
    exact length_eq_zero_iff.mp none

/-- `release` of a lock that the thread holds does not panic. -/
theorem release_eq (locks : k.HartLocks c) (held : lk ∈ Sched.locks (k.harts c).stack)
    (stack : List Frame) : k.release c lk stack = .ok (k.released c lk stack) := by
  have holder := (locks.holds lk).mpr held
  have disabled : (k.harts c).ints.intr = false := by
    by_contra enabled
    rw [locks.intr (Bool.of_not_eq_false enabled)] at held
    exact nomatch held
  have nested : ¬(k.harts c).ints.noff < 1 := by
    rw [locks.noff]
    exact not_lt.mpr (length_pos_of_mem held)
  unfold Kernel.release Sync.Cpu.popOff
  rw [if_neg (not_not_intro holder), disabled, if_neg Bool.false_ne_true, if_neg nested]
  rfl

theorem Sys.release (sys : k.Sys t) (shape : Shape (t c) stack)
    (loses : (Sched.locks (k.harts c).stack).Perm (lk :: Sched.locks stack))
    (leaves : standing stack = standing (k.harts c).stack) :
    k.release c lk stack = .ok (k.released c lk stack) ∧ (k.released c lk stack).Sys t := by
  have held : lk ∈ Sched.locks (k.harts c).stack := loses.mem_iff.mpr mem_cons_self
  have hart := released_hart k c lk stack
  refine ⟨release_eq (sys.locks c) held stack, ?_⟩
  exact sys.move (released_moved k c lk stack)
    (released_keeps (((sys.locks c).holds lk).mpr held) stack) (by rw [hart]) (by rw [hart]) shape
    (released_locks (sys.locks c) loses) leaves

/-! ## States of processes -/

section

variable (sys : k.Sys t)

include sys

/-- A process whose lock the hart holds in a call other than the process's own last ones is
on no hart unless it runs. -/
theorem Sys.off (held : k.holder (.proc q) = some c) (idle : (k.procs q).state ≠ .running)
    (here : (k.harts c).proc ≠ some q) (c' : Fin n) : (k.harts c').proc ≠ some q := by
  intro has
  have holds := (sys.running_or_holds has).resolve_left idle
  obtain rfl : c' = c := some.inj (holds.symm.trans held)
  exact here has

theorem Sys.thread_off (off : ∀ c, (k.harts c).proc ≠ some q) (c : Fin n) : t c ≠ .proc q := by
  intro thread
  have runs := sys.runs c
  rw [thread] at runs
  exact off c runs.1

variable {new : Proc}

/-- A process that is on no hart changes its state. -/
theorem Sys.setProc (off : ∀ c, (k.harts c).proc ≠ some q) (lt : q < NPROC)
    (idle : new.state ≠ .running) (saved : new.state ≠ .unused → new.state ≠ .zombie →
      ∃ stack, k.context q = some stack ∧ Suspended q stack) : (k.setProc q new).Sys t := by
  have slots p : (k.setProc q new).procs p = if p = q then new else k.procs p := update_apply ..
  refine ⟨sys.shape, fun c => (sys.locks c).other rfl fun _ => Iff.rfl,
    fun c => (sys.runs c).other rfl fun p has => ?_, sys.single, fun p runs => ?_,
    fun p live nowhere => ?_, fun p above => ?_⟩
  · have apart := off c
    grind
  · exact sys.running p (by grind)
  · have before live := sys.saved p live nowhere
    change ∃ stack, k.context p = some stack ∧ _
    grind [Live]
  · have bound := sys.bound p
    grind

/-- Nothing that threads and locks depend on changes. -/
theorem Sys.congr (procs : k'.procs = k.procs) (context : k'.context = k.context)
    (holder : k'.holder = k.holder) (harts : k'.harts = k.harts) : k'.Sys t where
  shape := by
    rw [harts]
    exact sys.shape
  locks := fun c => (sys.locks c).other (by rw [harts]) fun _ => by rw [holder]
  runs := fun c => (sys.runs c).other (by rw [harts]) fun _ _ => by rw [procs]
  single := by
    rw [harts]
    exact sys.single
  running := by
    rw [procs, harts]
    exact sys.running
  saved := by
    unfold Live
    rw [procs, context]
    exact sys.saved
  bound := by
    rw [procs]
    exact sys.bound

theorem Sys.setContext (dead : ¬k.Live q) (context : Option (List Frame)) :
    { k with context := update k.context q context }.Sys t := by
  refine ⟨sys.shape, fun c => (sys.locks c).other rfl fun _ => Iff.rfl,
    fun c => (sys.runs c).other rfl fun _ _ => rfl, sys.single, sys.running,
    fun p live nowhere => ?_, sys.bound⟩
  have ne : p ≠ q := by
    rintro rfl
    exact dead live
  change ∃ stack, update k.context q context p = some stack ∧ _
  rw [update_of_ne ne]
  exact sys.saved p live nowhere

/-- `allocproc` prepares a thread in `forkret`. -/
theorem Sys.allocate (unused : (k.procs q).state = .unused) (lt : q < NPROC)
    (off : ∀ c, (k.harts c).proc ≠ some q) (forker : Nat) : (k.allocate q forker).Sys t := by
  have prepared := sys.setContext (fun live => live.1 unused)
    (some [.forkret q, .user q []])
  refine (prepared.setProc off lt (fun runs => ?_) fun _ _ => ?_).congr rfl rfl rfl rfl
  · exact nomatch runs
  · exact ⟨_, update_self .., .forkret q, rfl, rfl⟩

theorem Sys.touch (same : new.state = (k.procs q).state) : (k.setProc q new).Sys t := by
  have states : ∀ p, ((k.setProc q new).procs p).state = (k.procs p).state :=
    apply_update_eq Proc.state same
  refine ⟨sys.shape, fun c => (sys.locks c).other rfl fun _ => Iff.rfl,
    fun c => (sys.runs c).other rfl fun p _ => states p, sys.single, fun p runs => ?_,
    fun p live nowhere => ?_, fun p above => ?_⟩
  · rw [states] at runs
    exact sys.running p runs
  · unfold Live at live
    rw [states] at live
    exact sys.saved p live nowhere
  · rw [states]
    exact sys.bound p above

/-- A hart changes the state of a process that no other hart has. -/
theorem Sys.change {thread : Thread} (others : ∀ c', c' ≠ c → k'.harts c' = k.harts c')
    (holder : k'.holder = k.holder) (procs : ∀ p, p ≠ q → k'.procs p = k.procs p)
    (lt : q < NPROC) (alone : ∀ c', c' ≠ c → (k.harts c').proc ≠ some q)
    (shape : Shape thread (k'.harts c).stack) (locks : k'.HartLocks c) (runs : k'.Runs c thread)
    (proc : ∀ p, (k'.harts c).proc = some p → p = q)
    (keeps : (k.harts c).proc = some q ∨ (k.harts c).proc = none)
    (executes : (k'.procs q).state = .running → (k'.harts c).proc = some q)
    (saved : ∀ p, k'.Live p → (∀ c', update t c thread c' ≠ .proc p) →
      ∃ stack, k'.context p = some stack ∧ Suspended p stack) :
    k'.Sys (update t c thread) := by
  have elsewhere c' p (other : c' ≠ c) (has : (k.harts c').proc = some p) : p ≠ q := by grind
  refine ⟨fun c' => ?_, fun c' => ?_, fun c' => ?_, fun c₁ c₂ p has has' => ?_, fun p running => ?_,
    saved, fun p above => ?_⟩
  · rcases eq_or_ne c' c with rfl | other
    · rw [update_self]
      exact shape
    · rw [update_of_ne other, others c' other]
      exact sys.shape c'
  · rcases eq_or_ne c' c with rfl | other
    · exact locks
    · exact (sys.locks c').other (others c' other) fun lk => by rw [holder]
  · rcases eq_or_ne c' c with rfl | other
    · rw [update_self]
      exact runs
    · rw [update_of_ne other]
      exact (sys.runs c').other (others c' other) fun p has => by
        rw [procs p (elsewhere c' p other has)]
  · have single := sys.single c₁ c₂ p
    grind
  · rcases eq_or_ne p q with rfl | ne
    · exact ⟨c, executes running⟩
    · rw [procs p ne] at running
      obtain ⟨c', has⟩ := sys.running p running
      exact ⟨c', by grind⟩
  · rw [procs p (ne_of_gt (lt_of_lt_of_le lt above))]
    exact sys.bound p above

theorem Sys.inside (exists_ : (k.procs p).state ≠ .unused) : p < NPROC := by
  by_contra above
  exact exists_ (sys.bound p (not_lt.mp above))

/-- A process gives up its hart: it changes its own state before `sched`. -/
theorem Sys.leave (thread : t c = .proc p) (lt : p < NPROC) (idle : new.state ≠ .running)
    (shape : Shape (.proc p) stack) (same : Sched.locks stack = Sched.locks (k.harts c).stack)
    (agrees : (standing stack).Agrees new.state) : ((k.setProc p new).goto c stack).Sys t := by
  have runs := sys.runs c
  rw [thread] at runs
  obtain ⟨has, context, -⟩ := runs
  have hart : ((k.setProc p new).goto c stack).harts c = { k.harts c with stack := stack } :=
    setHart_self ..
  have procs p' (ne : p' ≠ p) :
      ((k.setProc p new).goto c stack).procs p' = k.procs p' := update_of_ne ne ..
  have here : ((k.setProc p new).goto c stack).procs p = new := update_self ..
  have unchanged : update t c (.proc p) = t := by
    rw [← thread]
    exact update_eq_self c t
  rw [← unchanged]
  refine sys.change (fun c' other => setHart_other _ _ other) rfl procs lt
    (fun c' other has' => other (sys.single c' c p has' has)) ?_ ?_ ?_ (fun p' has' => ?_)
    (.inl has) (fun running => ?_) fun p' live nowhere => ?_
  · rw [hart]
    exact shape
  · exact (sys.locks c).kept rfl (by rw [hart]) (by rw [hart]; exact same)
  · refine ⟨by rw [hart]; exact has, by rw [hart]; exact context, ?_⟩
    rw [here, hart]
    exact agrees
  · rw [hart] at has'
    exact (some.inj (has.symm.trans has')).symm
  · rw [here] at running
    exact absurd running idle
  have ne : p' ≠ p := by
    rintro rfl
    exact nowhere c (update_self ..)
  rw [unchanged] at nowhere
  unfold Live at live
  rw [procs p' ne] at live
  exact sys.saved p' live nowhere

end

/-! ## Switches -/

section

variable {i : Nat}

theorem Sys.pick (sys : k.Sys t) (thread : t c = .scheduler (.locked i))
    (stack : (k.harts c).stack = [.scheduler (.locked i)]) (ready : (k.procs i).state = .runnable) :
    ((k.setProc i { k.procs i with state := .running }).setHart c { k.harts c with
      proc := some i
      stack := [.scheduler (.picked i)] }).Sys (update t c (.scheduler (.picked i))) := by
  have runs := sys.runs c
  rw [thread] at runs
  have free : (k.harts c).proc = none := runs
  have held : k.holder (.proc i) = some c := by
    rw [(sys.locks c).holds, stack]
    exact mem_cons_self
  have live : k.Live i := ⟨by rw [ready]; decide, by rw [ready]; decide⟩
  have off := sys.off held (by rw [ready]; decide) (by rw [free]; exact nofun)
  refine sys.change (fun c' other => setHart_other _ _ other) rfl
    (fun p ne => update_of_ne ne ..) (sys.inside live.1)
    (fun c' _ => off c') ?_ ?_ ?_ (fun p has => ?_) (.inr free) (fun _ => ?_)
    fun p live' nowhere => ?_
  · rw [setHart_self]
    exact .scheduler _
  · exact (sys.locks c).kept rfl (by rw [setHart_self]) (by rw [setHart_self, stack]; rfl)
  · have here : (k.setProc i { k.procs i with state := .running }).procs i =
        { k.procs i with state := .running } := update_self ..
    exact ⟨by rw [setHart_self], congrArg Proc.state here⟩
  · rw [setHart_self] at has
    exact (some.inj has).symm
  · rw [setHart_self]
  have pre := nowhere_before (thread ▸ nofun) nowhere
  rcases eq_or_ne p i with rfl | ne
  · exact sys.saved p live pre
  refine sys.saved p ?_ pre
  have same : (k.setProc i { k.procs i with state := .running }).procs p = k.procs p :=
    update_of_ne ne ..
  unfold Live at live' ⊢
  rw [← same]
  exact live'

section

variable (sys : k.Sys t) (thread : t c = .scheduler (.picked i))

include sys thread

/-- No hart executes a process that was picked. -/
theorem Sys.picked_nowhere (c' : Fin n) : t c' ≠ .proc i := by
  intro elsewhere
  have runs := sys.runs c
  have runs' := sys.runs c'
  rw [thread] at runs
  rw [elsewhere] at runs'
  obtain rfl := sys.single c' c i runs'.1 runs.1
  rw [thread] at elsewhere
  cases elsewhere

theorem Sys.picked_live : k.Live i := by
  have runs := sys.runs c
  rw [thread] at runs
  exact ⟨by rw [runs.2]; decide, by rw [runs.2]; decide⟩

theorem Sys.enter (here : (k.harts c).stack = [.scheduler (.picked i)])
    (context : k.context i = some stack) (suspended : Suspended i stack) :
    ({ k with context := update k.context i none }.setHart c { k.harts c with
      stack := stack
      context := some [.scheduler (.back i)] }).Sys (update t c (.proc i)) := by
  have runs := sys.runs c
  rw [thread] at runs
  refine sys.of_hart (fun c' other => setHart_other _ _ other) (fun _ _ _ => Iff.rfl) rfl ?_ ?_ ?_
    (fun p has => ?_) (fun p has _ => ?_) fun p live nowhere => ?_
  · rw [setHart_self]
    exact suspended.shape
  · exact (sys.locks c).kept rfl (by rw [setHart_self])
      (by rw [setHart_self, here]; exact suspended.locks)
  · refine ⟨by rw [setHart_self]; exact runs.1, by rw [setHart_self], ?_⟩
    rw [setHart_self]
    rw [suspended.stays]
    exact runs.2
  · rw [setHart_self] at has
    exact has
  · rw [setHart_self]
    exact has
  have ne : p ≠ i := by
    rintro rfl
    exact nowhere c (update_self ..)
  have pre := nowhere_before (thread ▸ nofun) nowhere
  obtain ⟨stack', saved, suspended'⟩ := sys.saved p live pre
  refine ⟨stack', ?_, suspended'⟩
  change update k.context i none p = _
  rw [update_of_ne ne]
  exact saved

end

end

def departed (k : Kernel n) (c : Fin n) (p : Nat) (saved : List Frame) : Kernel n :=
  { k with context := update k.context p (some saved) }.setHart c
    { k.harts c with stack := [.scheduler (.back p)], context := none }

/-- `sched` finds what it checks, and switches to the scheduler. -/
theorem Sys.depart {resumed : Bool → List Frame} (sys : k.Sys t) (thread : t c = .proc p)
    (only : Sched.locks (k.harts c).stack = [.proc p])
    (leaves : standing (k.harts c).stack ≠ .running)
    (suspended : k.Live p → ∀ intena, Suspended p (resumed intena)) :
    k.sched c resumed = .ok (k.departed c p (resumed (k.harts c).ints.intena)) ∧
      (k.departed c p (resumed (k.harts c).ints.intena)).Sys
        (update t c (.scheduler (.back p))) := by
  have runs := sys.runs c
  rw [thread] at runs
  obtain ⟨has, context, running⟩ := runs
  have locks := sys.locks c
  have held : k.holder (.proc p) = some c := by
    rw [locks.holds, only]
    exact mem_cons_self
  have noff : (k.harts c).ints.noff = 1 := by
    rw [locks.noff, only]
    rfl
  have idle : (k.procs p).state ≠ .running := running.idle leaves
  have disabled : ¬(k.harts c).ints.intr = true := by
    intro enabled
    rw [locks.intr enabled] at only
    cases only
  have hart saved : (k.departed c p saved).harts c =
      { k.harts c with stack := [.scheduler (.back p)], context := none } := setHart_self ..
  constructor
  · unfold Kernel.sched
    rw [has]
    dsimp only
    rw [if_neg (not_not_intro held), if_neg (not_not_intro noff), if_neg idle, if_neg disabled,
      context]
    rfl
  refine sys.of_hart (fun c' other => setHart_other _ _ other) (fun _ _ _ => Iff.rfl) rfl ?_ ?_
    ?_ (fun p' has' => ?_) (fun p' has' _ => ?_) fun p' live nowhere => ?_
  · rw [hart]
    exact .scheduler _
  · exact locks.kept rfl (by rw [hart]) (by rw [hart, only]; rfl)
  · exact ⟨by rw [hart]; exact has, idle⟩
  · rw [hart] at has'
    exact has'
  · rw [hart]
    exact has'
  rcases eq_or_ne p' p with rfl | ne
  · exact ⟨_, update_self .., suspended live _⟩
  have pre := nowhere_before (thread ▸ fun same => ne (Thread.proc.inj same).symm) nowhere
  obtain ⟨stack', saved, suspended'⟩ := sys.saved p' live pre
  refine ⟨stack', ?_, suspended'⟩
  change update k.context p _ p' = _
  rw [update_of_ne ne]
  exact saved

end Kernel

end Xv6Rv32im.Sched
