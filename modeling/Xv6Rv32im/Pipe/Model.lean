import Xv6Rv32im.Library.Ring
import Xv6Rv32im.Library.Run

/-!
# A pipe and its callers

`pipewrite`, `piperead` and `pipeclose` by any number of processes on one pipe.  A step is a
piece of a call between two points at which another process or `kill` can come in between: the
pipe's lock excludes other callers, but `killed` is set without it.  `sleep` gives up the lock
and the processor at once, since `wakeup` waits for the sleeper's own lock.

The bytes stored and removed are recorded in their order.
-/

namespace Xv6Rv32im.Pipe

open Library.Ring

def PIPESIZE : Nat := 512

inductive Chan where
  | nread
  | nwrite
  deriving DecidableEq

/-- The user memory of a process; where no page is mapped there is none. -/
abbrev UserMemory := BitVec 32 → Option (BitVec 8)

inductive WritePc where
  | start
  | test
  | room
  | full
  | relock
  | finish
  deriving DecidableEq

inductive ReadPc where
  | start
  | test
  | empty
  | relock
  | copy
  | finish
  deriving DecidableEq

/-- The arguments of `pipewrite` or `piperead`, and the local variable `i`.  `number` tells the
calls apart. -/
structure Args where
  number : Nat
  addr : BitVec 32
  n : BitVec 32
  i : Nat
  deriving DecidableEq

inductive Call where
  | idle
  | write (args : Args) (pc : WritePc)
  | read (args : Args) (pc : ReadPc)
  | close (writable : Bool)
  deriving DecidableEq

structure Proc where
  killed : Bool
  sleeping : Option Chan
  call : Call
  ret : BitVec 32
  deriving DecidableEq

/-- A byte that a call of `pipewrite` has stored, by its place in the caller's buffer. -/
structure Stored where
  number : Nat
  index : Nat
  byte : BitVec 8
  deriving DecidableEq

/-- `struct pipe`, its callers, and what was stored and removed. -/
structure System where
  data : Nat → BitVec 8
  nread : BitVec 32
  nwrite : BitVec 32
  readopen : Bool
  writeopen : Bool
  holder : Option Nat
  procs : Nat → Proc
  calls : Nat
  stored : List Stored
  removed : List (BitVec 8)

def System.init : System where
  data := fun _ => 0
  nread := 0
  nwrite := 0
  readopen := true
  writeopen := true
  holder := none
  procs := fun _ => ⟨false, none, .idle, 0⟩
  calls := 0
  stored := []
  removed := []

inductive Event where
  | write (p : Nat) (addr n : BitVec 32)
  | read (p : Nat) (addr n : BitVec 32)
  | close (p : Nat) (writable : Bool)
  | kill (p : Nat)
  | go (p : Nat) (user : UserMemory)

namespace System

def setProc (s : System) (p : Nat) (proc : Proc) : System :=
  { s with procs := Function.update s.procs p proc }

def setCall (s : System) (p : Nat) (call : Call) : System :=
  s.setProc p { s.procs p with call := call }

def wakeup (s : System) (chan : Chan) : System :=
  { s with procs := fun q =>
      if (s.procs q).sleeping = some chan then { s.procs q with sleeping := none } else s.procs q }

/-- `acquire`, or spin while another process has the lock. -/
def acquire (s : System) (p : Nat) (call : Call) : System :=
  if s.holder = none then { s.setCall p call with holder := some p } else s

def leave (s : System) (p : Nat) (ret : BitVec 32) : System :=
  { s.setProc p { s.procs p with call := .idle, ret := ret } with holder := none }

def sleep (s : System) (p : Nat) (chan : Chan) (call : Call) : System :=
  { s.setProc p { s.procs p with sleeping := some chan, call := call } with holder := none }

/-- `pi->data[pi->nwrite++ % PIPESIZE] = ch`, by a call of `pipewrite`. -/
def put (s : System) (args : Args) (ch : BitVec 8) : System :=
  { s with
    data := Function.update s.data (slot PIPESIZE s.nwrite) ch
    nwrite := s.nwrite + 1
    stored := s.stored ++ [⟨args.number, args.i, ch⟩] }

def take (s : System) : System :=
  { s with
    nread := s.nread + 1
    removed := s.removed ++ [s.data (slot PIPESIZE s.nread)] }

def pipewrite (s : System) (p : Nat) (user : UserMemory) (args : Args) : WritePc → System
  | .start => s.acquire p (.write args .test)
  | .test =>
    if (args.i : Int) < args.n.toInt then
      if s.readopen = false ∨ (s.procs p).killed then s.leave p (-1)
      else s.setCall p (.write args .room)
    else s.setCall p (.write args .finish)
  | .room =>
    if s.nwrite = s.nread + BitVec.ofNat 32 PIPESIZE then
      (s.wakeup .nread).setCall p (.write args .full)
    else
      match user (args.addr + BitVec.ofNat 32 args.i) with
      | none => s.setCall p (.write args .finish)
      | some ch => (s.put args ch).setCall p (.write { args with i := args.i + 1 } .test)
  | .full => s.sleep p .nwrite (.write args .relock)
  | .relock => s.acquire p (.write args .test)
  | .finish => (s.wakeup .nread).leave p (BitVec.ofNat 32 args.i)

def piperead (s : System) (p : Nat) (user : UserMemory) (args : Args) : ReadPc → System
  | .start => s.acquire p (.read args .test)
  | .test =>
    if s.nread = s.nwrite ∧ s.writeopen then
      if (s.procs p).killed then s.leave p (-1) else s.setCall p (.read args .empty)
    else s.setCall p (.read args .copy)
  | .empty => s.sleep p .nread (.read args .relock)
  | .relock => s.acquire p (.read args .test)
  | .copy =>
    if (args.i : Int) < args.n.toInt then
      if s.nread = s.nwrite then s.setCall p (.read args .finish)
      else
        match user (args.addr + BitVec.ofNat 32 args.i) with
        | none => s.take.setCall p (.read args .finish)
        | some _ => s.take.setCall p (.read { args with i := args.i + 1 } .copy)
    else s.setCall p (.read args .finish)
  | .finish => (s.wakeup .nwrite).leave p (BitVec.ofNat 32 args.i)

/-- `pipeclose`, from `acquire` to `release`.  Once both ends are closed the page is freed; no
call is in progress then, since each caller has its end open. -/
def pipeclose (s : System) (p : Nat) (writable : Bool) : System :=
  if s.holder = none then
    if writable then ({ s with writeopen := false }.wakeup .nread).leave p 0
    else ({ s with readopen := false }.wakeup .nwrite).leave p 0
  else s

def go (s : System) (p : Nat) (user : UserMemory) : System :=
  if (s.procs p).sleeping = none then
    match (s.procs p).call with
    | .idle => s
    | .write args pc => s.pipewrite p user args pc
    | .read args pc => s.piperead p user args pc
    | .close writable => s.pipeclose p writable
  else s

def enter (s : System) (p : Nat) (call : Call) : System :=
  if (s.procs p).call = .idle then { s.setCall p call with calls := s.calls + 1 } else s

def kill (s : System) (p : Nat) : System :=
  s.setProc p { s.procs p with killed := true, sleeping := none }

def perform (s : System) : Event → System
  | .write p addr n => s.enter p (.write ⟨s.calls, addr, n, 0⟩ .start)
  | .read p addr n => s.enter p (.read ⟨s.calls, addr, n, 0⟩ .start)
  | .close p writable => s.enter p (.close writable)
  | .kill p => s.kill p
  | .go p user => s.go p user

def step (s : System) (event : Event) : Except Empty System := .ok (s.perform event)

end System

end Xv6Rv32im.Pipe
