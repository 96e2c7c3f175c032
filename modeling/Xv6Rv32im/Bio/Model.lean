import Mathlib.Algebra.GroupWithZero.Nat
import Xv6Rv32im.Library.LinkedRing
import Xv6Rv32im.Library.Run
import Xv6Rv32im.Log.BufferCache

/-!
# The buffer cache as linked buffers

`bio.c` with its links, device numbers and 32-bit reference counts.  `brelse` gives up
the sleep lock before it takes `bcache.lock`, and `bget` waits for the sleep lock after
it, so that each is two steps between which others may run.
-/

namespace Xv6Rv32im.Bio

open Library.LinkedRing Function
open Xv6Rv32im.Log (NBUF)

instance : NeZero NBUF := ⟨by decide⟩

/-- A node of the list: `bcache.head` or one of the buffers. -/
inductive Node where
  | head
  | buf (b : Fin NBUF)
  deriving DecidableEq

/-- `struct buf` without its links and its data; `lock` is the process that holds the sleep
lock. -/
structure Buf where
  valid : Bool
  dev : BitVec 32
  blockno : BitVec 32
  lock : Option Nat
  refcnt : BitVec 32
  deriving DecidableEq

structure Bcache where
  buf : Fin NBUF → Buf
  next : Node → Node
  prev : Node → Node

/-- The calls of `panic`, and a loop over the list that does not end. -/
inductive Panic where
  | bgetNoBuffers
  | brelse
  | outOfFuel
  deriving DecidableEq

namespace Bcache

def setBuf (c : Bcache) (b : Fin NBUF) (new : Buf) : Bcache :=
  { c with buf := update c.buf b new }

/-- The four assignments that put a buffer behind the head. -/
def insert (c : Bcache) (b : Fin NBUF) : Bcache :=
  let next := update c.next (.buf b) (c.next .head)
  let prev := update c.prev (.buf b) .head
  let prev := update prev (next .head) (.buf b)
  let next := update next .head (.buf b)
  { c with next := next, prev := prev }

def remove (c : Bcache) (b : Fin NBUF) : Bcache :=
  let prev := update c.prev (c.next (.buf b)) (c.prev (.buf b))
  let next := update c.next (prev (.buf b)) (c.next (.buf b))
  { c with next := next, prev := prev }

/-- Static data is zero. -/
def binit : Bcache :=
  (List.finRange NBUF).foldl insert
    { buf := fun _ => ⟨false, 0, 0, none, 0⟩
      next := fun _ => .head
      prev := fun _ => .head }

def holds (dev blockno : BitVec 32) (b : Buf) : Bool := b.dev = dev ∧ b.blockno = blockno

def unused (b : Buf) : Bool := b.refcnt = 0

def test (c : Bcache) (p : Buf → Bool) : Node → Bool
  | .head => false
  | .buf b => p (c.buf b)

/-- `bget` up to the release of `bcache.lock`. -/
def bget (c : Bcache) (dev blockno : BitVec 32) : Except Panic (Fin NBUF × Bcache) :=
  match scan c.next .head (c.test (holds dev blockno)) (NBUF + 1) (c.next .head) with
  | some (some (.buf b)) =>
    .ok (b, c.setBuf b { c.buf b with refcnt := (c.buf b).refcnt + 1 })
  | some _ =>
    match scan c.prev .head (c.test unused) (NBUF + 1) (c.prev .head) with
    | some (some (.buf b)) =>
      .ok (b, c.setBuf b { c.buf b with
        dev := dev, blockno := blockno, valid := false, refcnt := 1 })
    | some _ => .error .bgetNoBuffers
    | none => .error .outOfFuel
  | none => .error .outOfFuel

/-- One try of `acquiresleep` at the end of `bget`: process `p` takes the lock or sleeps on. -/
def acquiresleep (c : Bcache) (p : Nat) (b : Fin NBUF) : Bcache :=
  if (c.buf b).lock = none then c.setBuf b { c.buf b with lock := some p } else c

/-- `brelse` up to `releasesleep`. -/
def releasesleep (c : Bcache) (p : Nat) (b : Fin NBUF) : Except Panic Bcache :=
  if (c.buf b).lock = some p then .ok (c.setBuf b { c.buf b with lock := none })
  else .error .brelse

/-- The part of `brelse` under `bcache.lock`. -/
def brelse (c : Bcache) (b : Fin NBUF) : Bcache :=
  let c := c.setBuf b { c.buf b with refcnt := (c.buf b).refcnt - 1 }
  if (c.buf b).refcnt = 0 then (c.remove b).insert b else c

def bpin (c : Bcache) (b : Fin NBUF) : Bcache :=
  c.setBuf b { c.buf b with refcnt := (c.buf b).refcnt + 1 }

def bunpin (c : Bcache) (b : Fin NBUF) : Bcache :=
  c.setBuf b { c.buf b with refcnt := (c.buf b).refcnt - 1 }

end Bcache

inductive Event where
  | bget (dev blockno : BitVec 32)
  | acquiresleep (p : Nat) (b : Fin NBUF)
  | releasesleep (p : Nat) (b : Fin NBUF)
  | brelse (b : Fin NBUF)
  | bpin (b : Fin NBUF)
  | bunpin (b : Fin NBUF)
  deriving DecidableEq

/-- The cache and, for reasoning only, the buffers in the order of the `brelse` that brought
their count to zero, the latest first. -/
structure State where
  cache : Bcache
  released : List (Fin NBUF)

def start : State := ⟨Bcache.binit, []⟩

def step (s : State) : Event → Except Panic State
  | .bget dev blockno => (s.cache.bget dev blockno).map fun result => ⟨result.2, s.released⟩
  | .acquiresleep p b => .ok ⟨s.cache.acquiresleep p b, s.released⟩
  | .releasesleep p b => (s.cache.releasesleep p b).map fun cache => ⟨cache, s.released⟩
  | .brelse b =>
    .ok ⟨s.cache.brelse b, if (s.cache.buf b).refcnt - 1 = 0 then b :: s.released else s.released⟩
  | .bpin b => .ok ⟨s.cache.bpin b, s.released⟩
  | .bunpin b => .ok ⟨s.cache.bunpin b, s.released⟩

end Xv6Rv32im.Bio
