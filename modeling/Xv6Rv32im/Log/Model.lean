import Mathlib.Data.List.Basic
import Xv6Rv32im.Library.WriteSequence

/-!
# The redo log

`log.c` over a disk whose single-block writes are atomic and reach the disk in
program order.  Every `bwrite` is recorded, so that a crash is a prefix of the
recorded writes.  A buffer that `log_write` pinned keeps its contents in the
cache until it is installed; any other `bread` returns what the disk holds.
-/

namespace Xv6Rv32im.Log

open Library.WriteSequence Function

/-- Upper bound on the blocks one file-system operation writes. -/
def MAXOPBLOCKS : Nat := 10

def LOGSIZE : Nat := MAXOPBLOCKS * 3

abbrev Block := Nat → BitVec 32

/-- `struct logheader`: the block numbers logged so far. -/
structure LogHeader where
  n : Int
  block : Nat → BitVec 32

/-- `struct log`, less its lock and its device number. -/
structure LogState where
  start : Nat
  size : Nat
  outstanding : Nat
  committing : Bool
  lh : LogHeader

/-- The disk, the pinned buffers, the in-memory log and the writes issued so far. -/
structure Machine where
  disk : Nat → Block
  bcache : Nat → Option Block
  log : LogState
  writes : List (Nat × Block)

namespace Machine

def bread (m : Machine) (blockno : Nat) : Block :=
  (m.bcache blockno).getD (m.disk blockno)

/-- Write a buffer through to the disk. A pinned buffer keeps the new contents. -/
def bwrite (m : Machine) (blockno : Nat) (data : Block) : Machine :=
  { m with
    disk := update m.disk blockno data
    bcache := update m.bcache blockno ((m.bcache blockno).map fun _ => data)
    writes := m.writes ++ [(blockno, data)] }

def bpin (m : Machine) (blockno : Nat) (data : Block) : Machine :=
  { m with bcache := update m.bcache blockno (some data) }

def bunpin (m : Machine) (blockno : Nat) : Machine :=
  { m with bcache := update m.bcache blockno none }

def installBlock (recovering : Bool) (m : Machine) (tail : Nat) : Machine :=
  let lbuf := m.bread (m.log.start + tail + 1)
  let dst := (m.log.lh.block tail).toNat
  let m := m.bwrite dst lbuf
  if recovering then m else m.bunpin dst

/-- Copy committed blocks from log to their home location. -/
def installTrans (recovering : Bool) (m : Machine) : Machine :=
  (List.range m.log.lh.n.toNat).foldl (installBlock recovering) m

/-- Copy the on-disk header's entries over the in-memory ones. -/
def loadHeader (buf : Block) (lh : LogHeader) : LogHeader :=
  let n := (buf 0).toInt
  { n := n
    block := applyWrites lh.block ((List.range n.toNat).map fun i => (i, buf (i + 1))) }

/-- Read the log header from disk into the in-memory log header. -/
def readHead (m : Machine) : Machine :=
  { m with log := { m.log with lh := loadHeader (m.bread m.log.start) m.log.lh } }

/-- Fill a header buffer; entries past `n` keep what the buffer held. -/
def storeHeader (lh : LogHeader) (buf : Block) : Block :=
  applyWrites (update buf 0 (BitVec.ofInt 32 lh.n))
    ((List.range lh.n.toNat).map fun i => (i + 1, lh.block i))

/-- Write in-memory log header to disk. This is the true point at which the
current transaction commits. -/
def writeHead (m : Machine) : Machine :=
  m.bwrite m.log.start (storeHeader m.log.lh (m.bread m.log.start))

def clearCount (m : Machine) : Machine :=
  { m with log := { m.log with lh := { m.log.lh with n := 0 } } }

def recoverFromLog (m : Machine) : Machine :=
  (installTrans true m.readHead).clearCount.writeHead

/-- Boot: an empty cache and a zeroed `struct log` over the given disk. -/
def initlog (disk : Nat → Block) (start size : Nat) : Machine :=
  recoverFromLog
    { disk := disk
      bcache := fun _ => none
      log := ⟨start, size, 0, false, ⟨0, fun _ => 0⟩⟩
      writes := [] }

def writeLogBlock (m : Machine) (tail : Nat) : Machine :=
  m.bwrite (m.log.start + tail + 1) (m.bread (m.log.lh.block tail).toNat)

/-- Copy modified blocks from cache to log. -/
def writeLog (m : Machine) : Machine :=
  (List.range m.log.lh.n.toNat).foldl writeLogBlock m

def commit (m : Machine) : Machine :=
  if 0 < m.log.lh.n then
    (installTrans false m.writeLog.writeHead).clearCount.writeHead
  else m

/-- Start of a file-system operation; `none` while the caller has to sleep. -/
def beginOp (m : Machine) : Option Machine :=
  if m.log.committing then none
  else if m.log.lh.n + (m.log.outstanding + 1) * MAXOPBLOCKS > LOGSIZE then none
  else some { m with log := { m.log with outstanding := m.log.outstanding + 1 } }

/-- End of a file-system operation; the last one commits. `none` is the panic
on a commit that is already under way. -/
def endOp (m : Machine) : Option Machine :=
  let m := { m with log := { m.log with outstanding := m.log.outstanding - 1 } }
  if m.log.committing then none
  else if m.log.outstanding = 0 then
    let m := commit { m with log := { m.log with committing := true } }
    some { m with log := { m.log with committing := false } }
  else some m

/-- The entry `log_write` fills: the one that already names the block, or the
first unused one. -/
def logSlot (lh : LogHeader) (blockno : BitVec 32) : Nat :=
  ((List.range lh.n.toNat).find? fun i => lh.block i == blockno).getD lh.n.toNat

/-- Record a modified buffer and pin it in the cache; `none` is a panic. -/
def logWrite (m : Machine) (blockno : Nat) (data : Block) : Option Machine :=
  let lh := m.log.lh
  if lh.n ≥ LOGSIZE ∨ lh.n ≥ (m.log.size : Int) - 1 then none
  else if m.log.outstanding < 1 then none
  else
    let i := logSlot lh (BitVec.ofNat 32 blockno)
    let block := update lh.block i (BitVec.ofNat 32 blockno)
    let n := if i = lh.n.toNat then lh.n + 1 else lh.n
    some { m.bpin blockno data with log := { m.log with lh := ⟨n, block⟩ } }

/-- The updates of one transaction, in the order they are logged. -/
abbrev Transaction := List (Nat × Block)

def logWrites (m : Machine) : Transaction → Option Machine
  | [] => some m
  | update :: rest => do
      let m ← m.logWrite update.1 update.2
      logWrites m rest

/-- One operation from `begin_op` to the `end_op` that commits it. -/
def transaction (m : Machine) (updates : Transaction) : Option Machine := do
  let m ← m.beginOp
  let m ← m.logWrites updates
  m.endOp

/-- Run transactions one after another; a panic stops the machine. -/
def runTransactions (m : Machine) : List Transaction → Machine
  | [] => m
  | updates :: rest =>
    match m.transaction updates with
    | none => m
    | some m => runTransactions m rest

end Machine

end Xv6Rv32im.Log
