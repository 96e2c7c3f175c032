import Xv6Rv32im.Log.BufferCache
import Xv6Rv32im.Library.Run

/-!
# Concurrent operations on the log

`begin_op`, `log_write`, `end_op` and `commit` of any number of processes over the
buffer cache.  A step is a section under `log.lock` or `bcache.lock`, or taking a sleep
lock together with the disk read behind it.  A process that has to sleep does not move.
-/

namespace Xv6Rv32im.Log

/-- Where a process is in the loops of `write_log` and `install_trans`, which read a log
block and then its home block. -/
inductive CopyPc where
  | getLog
  | lockLog
  | getHome (log : Nat)
  | lockHome (log : Nat)
  | move (log home : Nat)
  | unpin (log home : Nat)
  | release (log home : Nat)
  | releaseLast (s : Nat)
  deriving DecidableEq

inductive HeadPc where
  | get
  | lock
  | write (s : Nat)
  | release (s : Nat)
  deriving DecidableEq

/-- Where a process is in `commit` and the rest of `end_op`.  The loops are those of
`write_log` and, if `installing`, of `install_trans`; the header is written before and,
if `cleared`, after the installation. -/
inductive CommitPc where
  | start
  | copy (installing : Bool) (tail : Nat) (pc : CopyPc)
  | clear
  | head (cleared : Bool) (pc : HeadPc)
  | finish
  deriving DecidableEq

/-- A process is between its operations, in one, or commits. -/
inductive Phase where
  | outside
  | operation
  | commit (pc : CommitPc)
  deriving DecidableEq

def Phase.commits : Phase → Bool
  | .commit _ => true
  | _ => false

/-- A process: `want` is the buffer whose sleep lock it waits for in `bread`, and `held` are
the buffers that it has locked. -/
structure Process where
  phase : Phase
  want : Option Nat
  held : List Nat
  deriving DecidableEq

/-- The cache, `struct log` and the processes.  `lh` are the entries of the header. -/
structure System where
  cache : Cache
  start : Nat
  size : Nat
  outstanding : Int
  committing : Bool
  lh : List Nat
  procs : Nat → Process

inductive Event where
  | beginOp (p : Nat)
  | bget (p blockno : Nat)
  | lock (p : Nat)
  | modify (p s : Nat) (data : Block)
  | logWrite (p s : Nat)
  | brelse (p s : Nat)
  | endOp (p : Nat)
  | commit (p : Nat)

def Event.proc : Event → Nat
  | .beginOp p | .bget p _ | .lock p | .modify p _ _ | .logWrite p _ | .brelse p _ | .endOp p
  | .commit p => p

namespace System

/-- After `initlog`: an empty header, an empty cache, no operation. -/
def init (disk : Nat → Block) (start size : Nat) : System where
  cache := Cache.binit disk
  start := start
  size := size
  outstanding := 0
  committing := false
  lh := []
  procs := fun _ => ⟨.outside, none, []⟩

def setProc (k : System) (p : Nat) (process : Process) : System :=
  { k with procs := Function.update k.procs p process }

def setPhase (k : System) (p : Nat) (phase : Phase) : System :=
  k.setProc p { k.procs p with phase := phase }

def Ready (k : System) (p : Nat) : Prop :=
  (k.procs p).want = none ∧ (k.procs p).phase.commits = false

instance (k : System) (p : Nat) : Decidable (k.Ready p) :=
  inferInstanceAs (Decidable (_ ∧ _))

def bget (k : System) (p blockno : Nat) : Except LogPanic System := do
  let (s, cache) ← k.cache.bget blockno
  return { k with cache := cache }.setProc p { k.procs p with want := some s }

/-- The second part of `bread`, once the sleep lock is free. -/
def lock (k : System) (p s : Nat) : System :=
  { k with cache := k.cache.acquire p s }.setProc p
    { k.procs p with want := none, held := s :: (k.procs p).held }

def brelse (k : System) (p s : Nat) : Except LogPanic System := do
  let cache ← k.cache.brelse p s
  return { k with cache := cache }.setProc p { k.procs p with held := (k.procs p).held.erase s }

/-- The round of the loop of `begin_op`; the process sleeps or is admitted. -/
def beginOp (k : System) (p : Nat) : System :=
  if k.committing then k
  else if k.lh.length + (k.outstanding + 1) * MAXOPBLOCKS > LOGSIZE then k
  else { k with outstanding := k.outstanding + 1 }.setPhase p .operation

def logWrite (k : System) (s : Nat) : Except LogPanic System :=
  if k.lh.length ≥ LOGSIZE ∨ (k.lh.length : Int) ≥ k.size - 1 then .error .tooBigATransaction
  else if k.outstanding < 1 then .error .logWriteOutsideOfTrans
  else
    match (k.cache.buf s).blockno with
    | none => .ok k
    | some b =>
      if b ∈ k.lh then .ok k
      else .ok { k with cache := k.cache.bpin s, lh := k.lh ++ [b] }

def endOp (k : System) (p : Nat) : Except LogPanic System :=
  let k := { k with outstanding := k.outstanding - 1 }
  if k.committing then .error .logCommitting
  else if k.outstanding = 0 then .ok ({ k with committing := true }.setPhase p (.commit .start))
  else .ok (k.setPhase p .outside)

/-- Change a buffer and write it to the disk. -/
def writeThrough (k : System) (p s : Nat) (data : Block) : Except LogPanic System := do
  let cache ← (k.cache.setData s data).bwrite p s
  return { k with cache := cache }

/-- Take the sleep lock that the process waits for, or go on sleeping. -/
def lockThen (k : System) (p : Nat) (next : Nat → CommitPc) : System :=
  match (k.procs p).want with
  | none => k
  | some s =>
    if (k.cache.buf s).lock ≠ none then k
    else (k.lock p s).setPhase p (.commit (next s))

/-- The round of `write_log` or `install_trans` for entry `tail`. -/
def copyStep (k : System) (p : Nat) (installing : Bool) (tail : Nat) :
    CopyPc → Except LogPanic System
  | .getLog =>
    if tail < k.lh.length then do
      return (← k.bget p (k.start + tail + 1)).setPhase p (.commit (.copy installing tail .lockLog))
    else .ok (k.setPhase p (.commit (if installing then .clear else .head false .get)))
  | .lockLog => .ok (k.lockThen p fun log => .copy installing tail (.getHome log))
  | .getHome log => do
      return (← k.bget p (k.lh.getD tail 0)).setPhase p
        (.commit (.copy installing tail (.lockHome log)))
  | .lockHome log => .ok (k.lockThen p fun home => .copy installing tail (.move log home))
  | .move log home =>
    if installing then do
      return (← k.writeThrough p home (k.cache.buf log).data).setPhase p
        (.commit (.copy installing tail (.unpin log home)))
    else do
      return (← k.writeThrough p log (k.cache.buf home).data).setPhase p
        (.commit (.copy installing tail (.release log home)))
  | .unpin log home =>
    .ok ({ k with cache := k.cache.bunpin home }.setPhase p
      (.commit (.copy installing tail (.release log home))))
  | .release log home => do
      let (first, last) := if installing then (log, home) else (home, log)
      return (← k.brelse p first).setPhase p (.commit (.copy installing tail (.releaseLast last)))
  | .releaseLast s => do
      return (← k.brelse p s).setPhase p (.commit (.copy installing (tail + 1) .getLog))

def header (lh : List Nat) (buf : Block) : Block :=
  Machine.storeHeader ⟨lh.length, fun i => BitVec.ofNat 32 (lh.getD i 0)⟩ buf

def headStep (k : System) (p : Nat) (cleared : Bool) : HeadPc → Except LogPanic System
  | .get => do
      return (← k.bget p k.start).setPhase p (.commit (.head cleared .lock))
  | .lock => .ok (k.lockThen p fun s => .head cleared (.write s))
  | .write s => do
      return (← k.writeThrough p s (header k.lh (k.cache.buf s).data)).setPhase p
        (.commit (.head cleared (.release s)))
  | .release s => do
      return (← k.brelse p s).setPhase p
        (.commit (if cleared then .finish else .copy true 0 .getLog))

def commitStep (k : System) (p : Nat) : CommitPc → Except LogPanic System
  | .start =>
    .ok (k.setPhase p (.commit (if k.lh.length > 0 then .copy false 0 .getLog else .finish)))
  | .copy installing tail pc => k.copyStep p installing tail pc
  | .clear => .ok ({ k with lh := [] }.setPhase p (.commit (.head true .get)))
  | .head cleared pc => k.headStep p cleared pc
  | .finish => .ok ({ k with committing := false }.setPhase p .outside)

def call (k : System) (p : Nat) : Event → Except LogPanic System
  | .beginOp _ => .ok (k.beginOp p)
  | .bget _ blockno => k.bget p blockno
  | .modify _ s data =>
    if s ∈ (k.procs p).held then .ok { k with cache := k.cache.setData s data } else .ok k
  | .logWrite _ s => k.logWrite s
  | .brelse _ s => k.brelse p s
  | .endOp _ => k.endOp p
  | .lock _ | .commit _ => .ok k

/-- A process that waits for a sleep lock takes it if it is free. -/
def awake (k : System) (p : Nat) : System :=
  match (k.procs p).want with
  | none => k
  | some s => if (k.cache.buf s).lock ≠ none then k else k.lock p s

def step (k : System) (event : Event) : Except LogPanic System :=
  match event, (k.procs event.proc).phase with
  | .commit p, .commit pc => k.commitStep p pc
  | .lock p, phase => if phase.commits then .ok k else .ok (k.awake p)
  | event, _ => if k.Ready event.proc then k.call event.proc event else .ok k

/-- The caller makes its writes in an operation, to buffers that it holds. -/
def Bracketed (k : System) : Event → Prop
  | .beginOp p => (k.procs p).phase = .outside
  | .endOp p => (k.procs p).phase = .operation
  | .modify p s _ | .logWrite p s => (k.procs p).phase = .operation ∧ s ∈ (k.procs p).held
  | .bget _ _ | .lock _ | .brelse _ _ | .commit _ => True

instance (k : System) (event : Event) : Decidable (k.Bracketed event) := by
  cases event <;> unfold Bracketed <;> infer_instance

end System

end Xv6Rv32im.Log
