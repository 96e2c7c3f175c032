import Xv6Rv32im.Process.Model
import Xv6Rv32im.Sync.Spinlock

/-!
# Processes on several harts

The scheduler of `proc.c`.  Each hart executes one kernel thread, its scheduler or that of a
process, and a step of a hart is one acquisition or release of a lock together with the plain
code next to it.  A thread is the list of its pending calls, innermost first; `swtch` saves
the list in a context and loads another one.  Locks exclude one another.  Other kernel code
is any sequence of lock operations and calls; a hart that takes interrupts may trap between
any two steps.

Births, exits and reports are recorded to tell one process from the next one in its slot.
-/

namespace Xv6Rv32im.Sched

open Process (NPROC)
open Sync (Cpu LockPanic)

inductive ProcState where
  | unused
  | used
  | sleeping
  | runnable
  | running
  | zombie
  deriving DecidableEq

/-- What a process sleeps on: the address of a process or another one. -/
inductive Chan where
  | proc (p : Nat)
  | other (addr : Nat)
  deriving DecidableEq

/-- `wait_lock`, the lock of a process, or another spinlock. -/
inductive LockId where
  | wait
  | proc (p : Nat)
  | other (lock : Nat)
  deriving DecidableEq

/-- `struct proc`.  `birth` numbers the processes in the order of their allocation. -/
structure Proc where
  state : ProcState
  chan : Option Chan
  killed : Bool
  xstate : BitVec 32
  pid : BitVec 32
  parent : Option Nat
  birth : Nat
  deriving DecidableEq

/-- What `freeproc` does to a slot. -/
def Proc.freeproc (p : Proc) : Proc :=
  { p with state := .unused, chan := none, killed := false, xstate := 0, pid := 0, parent := none }

def INITPROC : Nat := 0

/-! ## Threads -/

inductive YieldPc where
  | start
  | locked
  | sched
  | resumed (intena : Bool)
  deriving DecidableEq

inductive SleepPc where
  | start
  | locked
  | released
  | sched
  | resumed (intena : Bool)
  | relock
  deriving DecidableEq

/-- `fork`, with the loop of `allocproc` in `scan` and `locked`. -/
inductive ForkPc where
  | scan (i : Nat)
  | locked (i : Nat)
  | copy (i : Nat)
  | link (i : Nat)
  | linked (i : Nat)
  | ready (i : Nat)
  | finish (i : Nat)
  deriving DecidableEq

/-- `exit` once the files are closed. -/
inductive ExitPc where
  | start
  | reparent (i : Nat)
  | lock
  | zombie
  | unlock
  | sched
  | resumed
  deriving DecidableEq

inductive WaitPc where
  | start
  | scan (i : Nat) (havekids : Bool)
  | child (i : Nat)
  | sleeping
  | leave
  deriving DecidableEq

inductive SchedPc where
  | scan (i : Nat)
  | locked (i : Nat)
  | picked (i : Nat)
  | back (i : Nat)
  deriving DecidableEq

/-- A pending call.  `user` is everything a process does outside these functions, in user
space and in the kernel, and `trap` the handler of an interrupt; both know the other locks
they hold. -/
inductive Frame where
  | user (p : Nat) (held : List Nat)
  | trap (held : List Nat)
  | forkret (p : Nat)
  | yield (p : Nat) (pc : YieldPc)
  | sleep (p : Nat) (chan : Chan) (lk : LockId) (pc : SleepPc)
  | wakeup (chan : Option Chan) (i : Nat) (locked : Bool)
  | kill (pid : BitVec 32) (i : Nat) (locked : Bool)
  | fork (p : Nat) (pc : ForkPc)
  | exit (p : Nat) (status : BitVec 32) (pc : ExitPc)
  | wait (p : Nat) (pc : WaitPc)
  | scheduler (pc : SchedPc)
  deriving DecidableEq

/-- `struct cpu`, with the thread that the hart executes. -/
structure Hart where
  proc : Option Nat
  ints : Cpu
  stack : List Frame
  context : Option (List Frame)
  deriving DecidableEq

/-- An allocated process: its pid and the birth of the process that forked it. -/
structure Birth where
  pid : BitVec 32
  forker : Option Nat
  deriving DecidableEq

structure Exit where
  birth : Nat
  status : BitVec 32
  deriving DecidableEq

/-- What a successful `wait` reported, to which process, and whether a hart still executed
the child when its slot was freed. -/
structure Report where
  child : Nat
  waiter : Nat
  pid : BitVec 32
  status : BitVec 32
  onHart : Bool
  deriving DecidableEq

/-- The calls of `panic`, a null `myproc()`, and a `swtch` to a context that is not saved. -/
inductive Fault where
  | lock (panic : LockPanic)
  | schedLock
  | schedLocks
  | schedRunning
  | schedInterruptible
  | zombieExit
  | initExiting
  | nullProc
  | staleContext
  deriving DecidableEq

structure Kernel (n : Nat) where
  procs : Nat → Proc
  context : Nat → Option (List Frame)
  holder : LockId → Option (Fin n)
  harts : Fin n → Hart
  nextpid : BitVec 32
  born : List Birth
  exits : List Exit
  reports : List Report

namespace Kernel

variable {n : Nat}

def boot (n : Nat) : Kernel n where
  procs := fun p =>
    if p = INITPROC then ⟨.runnable, none, false, 0, 1, none, 0⟩
    else ⟨.unused, none, false, 0, 0, none, 0⟩
  context := fun p => if p = INITPROC then some [.forkret p, .user p []] else none
  holder := fun _ => none
  harts := fun _ => ⟨none, ⟨0, false, false⟩, [.scheduler (.scan NPROC)], none⟩
  nextpid := 2
  born := [⟨1, none⟩]
  exits := []
  reports := []

def setHart (k : Kernel n) (c : Fin n) (hart : Hart) : Kernel n :=
  { k with harts := Function.update k.harts c hart }

def setProc (k : Kernel n) (p : Nat) (proc : Proc) : Kernel n :=
  { k with procs := Function.update k.procs p proc }

def goto (k : Kernel n) (c : Fin n) (stack : List Frame) : Kernel n :=
  k.setHart c { k.harts c with stack := stack }

/-- `acquire`, after which the hart goes on with these calls; it stays while another hart
holds the lock. -/
def acquire (k : Kernel n) (c : Fin n) (lk : LockId) (stack : List Frame) :
    Except Fault (Kernel n) :=
  if k.holder lk = some c then .error (.lock .acquire)
  else if k.holder lk = none then
    .ok ({ k with holder := Function.update k.holder lk (some c) }.setHart c
      { k.harts c with ints := (k.harts c).ints.pushOff, stack := stack })
  else .ok k

def release (k : Kernel n) (c : Fin n) (lk : LockId) (stack : List Frame) :
    Except Fault (Kernel n) :=
  if k.holder lk ≠ some c then .error (.lock .release)
  else
    match (k.harts c).ints.popOff with
    | .error panic => .error (.lock panic)
    | .ok ints =>
      .ok ({ k with holder := Function.update k.holder lk none }.setHart c
        { k.harts c with ints := ints, stack := stack })

/-- `sched`; the caller goes on with these calls when it is scheduled again, with the value
of `intena` to restore. -/
def sched (k : Kernel n) (c : Fin n) (resumed : Bool → List Frame) : Except Fault (Kernel n) :=
  match (k.harts c).proc with
  | none => .error .nullProc
  | some p =>
    if k.holder (.proc p) ≠ some c then .error .schedLock
    else if (k.harts c).ints.noff ≠ 1 then .error .schedLocks
    else if (k.procs p).state = .running then .error .schedRunning
    else if (k.harts c).ints.intr then .error .schedInterruptible
    else
      match (k.harts c).context with
      | none => .error .staleContext
      | some stack =>
        let saved := resumed (k.harts c).ints.intena
        .ok ({ k with context := Function.update k.context p (some saved) }.setHart c
          { k.harts c with stack := stack, context := none })

def setIntena (k : Kernel n) (c : Fin n) (intena : Bool) : Kernel n :=
  k.setHart c { k.harts c with ints := { (k.harts c).ints with intena := intena } }

def setIntr (k : Kernel n) (c : Fin n) (intr : Bool) : Kernel n :=
  k.setHart c { k.harts c with ints := { (k.harts c).ints with intr := intr } }

/-! ## The functions of `proc.c` -/

def yieldStep (k : Kernel n) (c : Fin n) (rest : List Frame) (p : Nat) :
    YieldPc → Except Fault (Kernel n)
  | .start => k.acquire c (.proc p) (.yield p .locked :: rest)
  | .locked =>
    .ok ((k.setProc p { k.procs p with state := .runnable }).goto c (.yield p .sched :: rest))
  | .sched => k.sched c fun intena => .yield p (.resumed intena) :: rest
  | .resumed intena => (k.setIntena c intena).release c (.proc p) rest

def giveBack (lk : LockId) : List Frame → List Frame
  | .user p held :: rest =>
    match lk with
    | .other lock => .user p (lock :: held) :: rest
    | _ => .user p held :: rest
  | .wait p .sleeping :: rest => .wait p (.scan 0 false) :: rest
  | stack => stack

def sleepStep (k : Kernel n) (c : Fin n) (rest : List Frame) (p : Nat) (chan : Chan)
    (lk : LockId) : SleepPc → Except Fault (Kernel n)
  | .start => k.acquire c (.proc p) (.sleep p chan lk .locked :: rest)
  | .locked => k.release c lk (.sleep p chan lk .released :: rest)
  | .released =>
    .ok ((k.setProc p { k.procs p with chan := some chan, state := .sleeping }).goto c
      (.sleep p chan lk .sched :: rest))
  | .sched => k.sched c fun intena => .sleep p chan lk (.resumed intena) :: rest
  | .resumed intena =>
    ((k.setProc p { k.procs p with chan := none }).setIntena c intena).release c (.proc p)
      (.sleep p chan lk .relock :: rest)
  | .relock => k.acquire c lk (giveBack lk rest)

def wakeupStep (k : Kernel n) (c : Fin n) (rest : List Frame) (chan : Option Chan) (i : Nat) :
    Bool → Except Fault (Kernel n)
  | false =>
    if i ≥ NPROC then .ok (k.goto c rest)
    else if (k.harts c).proc = some i then .ok (k.goto c (.wakeup chan (i + 1) false :: rest))
    else k.acquire c (.proc i) (.wakeup chan i true :: rest)
  | true =>
    let k :=
      if (k.procs i).state = .sleeping ∧ (k.procs i).chan = chan then
        k.setProc i { k.procs i with state := .runnable }
      else k
    k.release c (.proc i) (.wakeup chan (i + 1) false :: rest)

def killStep (k : Kernel n) (c : Fin n) (rest : List Frame) (pid : BitVec 32) (i : Nat) :
    Bool → Except Fault (Kernel n)
  | false =>
    if i ≥ NPROC then .ok (k.goto c rest)
    else k.acquire c (.proc i) (.kill pid i true :: rest)
  | true =>
    if (k.procs i).pid = pid then
      (k.setProc i { k.procs i with
        killed := true
        state := if (k.procs i).state = .sleeping then .runnable else (k.procs i).state }).release
          c (.proc i) rest
    else k.release c (.proc i) (.kill pid (i + 1) false :: rest)

/-- `allocproc` on a free slot when memory is found: a new process that will start in
`forkret`. -/
def allocate (k : Kernel n) (i : Nat) (forker : Nat) : Kernel n :=
  { k.setProc i { k.procs i with
      state := .used
      pid := k.nextpid
      birth := k.born.length } with
    context := Function.update k.context i (some [.forkret i, .user i []])
    nextpid := k.nextpid + 1
    born := k.born ++ [⟨k.nextpid, some forker⟩] }

/-- `ok` tells whether the memory for the child is found. -/
def forkStep (k : Kernel n) (c : Fin n) (ok : Bool) (rest : List Frame) (p : Nat) :
    ForkPc → Except Fault (Kernel n)
  | .scan i =>
    if i ≥ NPROC then .ok (k.goto c rest)
    else k.acquire c (.proc i) (.fork p (.locked i) :: rest)
  | .locked i =>
    if (k.procs i).state = .unused then
      if ok then .ok ((k.allocate i (k.procs p).birth).goto c (.fork p (.copy i) :: rest))
      else
        ({ k with nextpid := k.nextpid + 1 }.setProc i (k.procs i).freeproc).release c (.proc i)
          rest
    else k.release c (.proc i) (.fork p (.scan (i + 1)) :: rest)
  | .copy i =>
    if ok then k.release c (.proc i) (.fork p (.link i) :: rest)
    else (k.setProc i (k.procs i).freeproc).release c (.proc i) rest
  | .link i => k.acquire c .wait (.fork p (.linked i) :: rest)
  | .linked i =>
    (k.setProc i { k.procs i with parent := some p }).release c .wait (.fork p (.ready i) :: rest)
  | .ready i => k.acquire c (.proc i) (.fork p (.finish i) :: rest)
  | .finish i => (k.setProc i { k.procs i with state := .runnable }).release c (.proc i) rest

def exitStep (k : Kernel n) (c : Fin n) (rest : List Frame) (p : Nat) (status : BitVec 32) :
    ExitPc → Except Fault (Kernel n)
  | .start => k.acquire c .wait (.exit p status (.reparent 0) :: rest)
  | .reparent i =>
    if i ≥ NPROC then
      .ok (k.goto c (.wakeup ((k.procs p).parent.map .proc) 0 false ::
        .exit p status .lock :: rest))
    else if (k.procs i).parent = some p then
      .ok ((k.setProc i { k.procs i with parent := some INITPROC }).goto c
        (.wakeup (some (.proc INITPROC)) 0 false :: .exit p status (.reparent (i + 1)) :: rest))
    else .ok (k.goto c (.exit p status (.reparent (i + 1)) :: rest))
  | .lock => k.acquire c (.proc p) (.exit p status .zombie :: rest)
  | .zombie =>
    let exits := k.exits ++ [⟨(k.procs p).birth, status⟩]
    .ok (({ k with exits := exits }.setProc p
      { k.procs p with xstate := status, state := .zombie }).goto c
        (.exit p status .unlock :: rest))
  | .unlock => k.release c .wait (.exit p status .sched :: rest)
  | .sched => k.sched c fun _ => .exit p status .resumed :: rest
  | .resumed => .error .zombieExit

def process (stack : List Frame) : Option Nat :=
  match stack.getLast? with
  | some (.user p _) => some p
  | _ => none

def reap (k : Kernel n) (i p : Nat) : Kernel n :=
  { k.setProc i (k.procs i).freeproc with
    reports := k.reports ++ [{
      child := (k.procs i).birth
      waiter := (k.procs p).birth
      pid := (k.procs i).pid
      status := (k.procs i).xstate
      onHart := decide (∃ c, process (k.harts c).stack = some i) }] }

/-- `ok` tells whether the exit status can be copied out. -/
def waitStep (k : Kernel n) (c : Fin n) (ok : Bool) (rest : List Frame) (p : Nat) :
    WaitPc → Except Fault (Kernel n)
  | .start => k.acquire c .wait (.wait p (.scan 0 false) :: rest)
  | .scan i havekids =>
    if i ≥ NPROC then
      if !havekids || (k.procs p).killed then .ok (k.goto c (.wait p .leave :: rest))
      else .ok (k.goto c (.sleep p (.proc p) .wait .start :: .wait p .sleeping :: rest))
    else if (k.procs i).parent = some p then k.acquire c (.proc i) (.wait p (.child i) :: rest)
    else .ok (k.goto c (.wait p (.scan (i + 1) havekids) :: rest))
  | .child i =>
    if (k.procs i).state = .zombie then
      if ok then (k.reap i p).release c (.proc i) (.wait p .leave :: rest)
      else k.release c (.proc i) (.wait p .leave :: rest)
    else k.release c (.proc i) (.wait p (.scan (i + 1) true) :: rest)
  | .sleeping => .ok k
  | .leave => k.release c .wait rest

def schedulerStep (k : Kernel n) (c : Fin n) (rest : List Frame) :
    SchedPc → Except Fault (Kernel n)
  | .scan i =>
    if i ≥ NPROC then .ok ((k.setIntr c true).goto c (.scheduler (.scan 0) :: rest))
    else k.acquire c (.proc i) (.scheduler (.locked i) :: rest)
  | .locked i =>
    if (k.procs i).state = .runnable then
      .ok ((k.setProc i { k.procs i with state := .running }).setHart c { k.harts c with
        proc := some i
        stack := .scheduler (.picked i) :: rest })
    else k.release c (.proc i) (.scheduler (.scan (i + 1)) :: rest)
  | .picked i =>
    match k.context i with
    | none => .error .staleContext
    | some stack =>
      .ok ({ k with context := Function.update k.context i none }.setHart c { k.harts c with
        stack := stack
        context := some (.scheduler (.back i) :: rest) })
  | .back i =>
    (k.setHart c { k.harts c with proc := none }).release c (.proc i)
      (.scheduler (.scan (i + 1)) :: rest)

/-- The next step of the innermost call. -/
def go (k : Kernel n) (c : Fin n) (ok : Bool) (rest : List Frame) :
    Frame → Except Fault (Kernel n)
  | .user _ _ | .trap _ => .ok k
  | .forkret p => k.release c (.proc p) rest
  | .yield p pc => k.yieldStep c rest p pc
  | .sleep p chan lk pc => k.sleepStep c rest p chan lk pc
  | .wakeup chan i locked => k.wakeupStep c rest chan i locked
  | .kill pid i locked => k.killStep c rest pid i locked
  | .fork p pc => k.forkStep c ok rest p pc
  | .exit p status pc => k.exitStep c rest p status pc
  | .wait p pc => k.waitStep c ok rest p pc
  | .scheduler pc => k.schedulerStep c rest pc

end Kernel

/-! ## Runs -/

/-- What a hart does: the next step of a call, with the outcome of its memory operations, a
trap or the return from one, or, outside these functions, a lock operation or a call. -/
inductive Action where
  | go (ok : Bool)
  | trap
  | trapret
  | intr (on : Bool)
  | acquire (lock : Nat)
  | release (lock : Nat)
  | yield
  | sleep (chan : Chan) (lock : Nat)
  | wakeup (chan : Chan)
  | kill (pid : BitVec 32)
  | fork
  | exit (status : BitVec 32)
  | wait
  deriving DecidableEq

structure Event (n : Nat) where
  hart : Fin n
  action : Action
  deriving DecidableEq

namespace Kernel

variable {n : Nat}

/-- A call with `myproc()` as its process. -/
def call (k : Kernel n) (c : Fin n) (stack : List Frame) (frame : Nat → Frame) :
    Except Fault (Kernel n) :=
  match (k.harts c).proc with
  | none => .error .nullProc
  | some p => .ok (k.goto c (frame p :: stack))

def userStep (k : Kernel n) (c : Fin n) (rest : List Frame) (p : Nat) (held : List Nat) :
    Action → Except Fault (Kernel n)
  | .intr on => if (k.harts c).ints.noff = 0 then .ok (k.setIntr c on) else .ok k
  | .acquire lock => k.acquire c (.other lock) (.user p (lock :: held) :: rest)
  | .release lock => k.release c (.other lock) (.user p (held.erase lock) :: rest)
  | .yield => k.call c (.user p held :: rest) fun p => .yield p .start
  | .sleep chan lock =>
    k.call c (.user p (held.erase lock) :: rest) fun p => .sleep p chan (.other lock) .start
  | .wakeup chan => .ok (k.goto c (.wakeup (some chan) 0 false :: .user p held :: rest))
  | .kill pid => .ok (k.goto c (.kill pid 0 false :: .user p held :: rest))
  | .fork => k.call c (.user p held :: rest) fun p => .fork p (.scan 0)
  | .exit status =>
    if (k.harts c).proc = some INITPROC then .error .initExiting
    else k.call c (.user p held :: rest) fun p => .exit p status .start
  | .wait => k.call c (.user p held :: rest) fun p => .wait p .start
  | .go _ | .trap | .trapret => .ok k

/-- What `kerneltrap` does; it yields only if a process runs. -/
def trapStep (k : Kernel n) (c : Fin n) (rest : List Frame) (held : List Nat) :
    Action → Except Fault (Kernel n)
  | .trapret => if held = [] then .ok ((k.setIntr c true).goto c rest) else .ok k
  | .acquire lock => k.acquire c (.other lock) (.trap (lock :: held) :: rest)
  | .release lock => k.release c (.other lock) (.trap (held.erase lock) :: rest)
  | .yield =>
    match (k.harts c).proc with
    | none => .ok k
    | some p =>
      if (k.procs p).state = .running then
        .ok (k.goto c (.yield p .start :: .trap held :: rest))
      else .ok k
  | .wakeup chan => .ok (k.goto c (.wakeup (some chan) 0 false :: .trap held :: rest))
  | _ => .ok k

def step (k : Kernel n) (event : Event n) : Except Fault (Kernel n) :=
  let c := event.hart
  match (k.harts c).stack, event.action with
  | stack, .trap =>
    if (k.harts c).ints.intr then .ok ((k.setIntr c false).goto c (.trap [] :: stack)) else .ok k
  | frame :: rest, .go ok => k.go c ok rest frame
  | .user p held :: rest, action => k.userStep c rest p held action
  | .trap held :: rest, action => k.trapStep c rest held action
  | _, _ => .ok k

end Kernel

end Xv6Rv32im.Sched
