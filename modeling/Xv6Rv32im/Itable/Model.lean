import Xv6Rv32im.Fs.Dinode
import Xv6Rv32im.Library.Run

/-!
# References to inodes

`ialloc`, `iget`, `idup`, `ilock`, `iunlock` and `iput` on the table of inodes, by any number of
holders of references.  A holder is one reference at a time: a process that has two references
counts as two holders.  A step is a section under `itable.lock`, under the lock of a buffer, or a
part of one under the sleep-lock of an inode.

A path lookup finds the inodes that a directory entry names; `named` says which these are.  Each
allocation of an inode begins a new generation of it.
-/

namespace Xv6Rv32im.Itable

open Fs Function

def NINODE : Nat := 50

inductive Panic where
  /-- `ialloc: no inodes`. -/
  | iallocNoInodes
  /-- `iget: no inodes`. -/
  | igetNoInodes
  | ilock
  /-- `ilock: no type`. -/
  | noType
  | iunlock
  /-- `iput` sleeps while it holds `itable.lock`. -/
  | schedLocks
  deriving DecidableEq

/-- `struct inode`, with the holder of its sleep-lock and the generation it was loaded in. -/
structure Entry where
  inum : Nat
  ref : Nat
  valid : Bool
  lock : Option Nat
  inode : Dinode
  loaded : Nat

inductive Pc where
  | idle
  /-- In the loop of `ialloc`. -/
  | scan (inum : Nat) (type : FileType)
  /-- In `ialloc`, before it calls `iget`. -/
  | allocated (inum : Nat)
  /-- In `create`, before `ilock` of the new inode. -/
  | newborn (e : Nat)
  /-- In `ilock`, with the sleep-lock. -/
  | loading (e : Nat) (new : Bool)
  /-- In `create`, with the new inode locked. -/
  | fresh (e : Nat)
  | held (e : Nat)
  | locked (e : Nat)
  /-- Locked, and changed since the last `iupdate`. -/
  | dirty (e : Nat)
  /-- In `iput`, before its first section under `itable.lock`. -/
  | put (e : Nat)
  | truncate (e : Nat)
  | clear (e : Nat)
  | invalidate (e : Nat)
  | unlock (e : Nat)
  /-- In `iput`, after `releasesleep`. -/
  | drop (e : Nat)
  deriving DecidableEq

/-- A holder, and the generation of the inode when it got its reference. -/
structure Holder where
  pc : Pc
  born : Nat

structure System where
  ninodes : Nat
  disk : Nat → Dinode
  named : Nat → Bool
  itable : Nat → Entry
  holders : Nat → Holder
  generation : Nat → Nat

/-- A disk on which the named inodes are in use, and those in use have links. -/
structure Image where
  ninodes : Nat
  disk : Nat → Dinode
  named : Nat → Bool
  inUse : ∀ inum, named inum = true → (disk inum).type ≠ .free
  linked : ∀ inum, (disk inum).type ≠ .free → (disk inum).nlink ≠ 0

def System.init (image : Image) : System where
  ninodes := image.ninodes
  disk := image.disk
  named := image.named
  itable := fun _ => ⟨0, 0, false, none, .zero, 0⟩
  holders := fun _ => ⟨.idle, 0⟩
  generation := fun _ => 0

inductive Event where
  | create (a : Nat) (type : FileType)
  /-- A path lookup. -/
  | lookup (a inum : Nat)
  /-- `idup` of the reference of `a` for `b`. -/
  | dup (a b : Nat)
  | ilock (a : Nat)
  /-- `create` sets the fields of the new inode. -/
  | setup (a : Nat) (major minor : BitVec 16)
  | modify (a : Nat) (major minor : BitVec 16) (size : Nat) (addrs : Nat → Nat)
  | setNlink (a : Nat) (nlink : BitVec 16)
  /-- A directory entry for the inode is written. -/
  | name (a : Nat)
  /-- The last directory entry for the inode is cleared. -/
  | unname (a : Nat)
  | iunlock (a : Nat)
  | iput (a : Nat)
  /-- The next step of `ialloc`, `ilock`, `iupdate` or `iput`. -/
  | go (a : Nat)

namespace System

def pc (s : System) (a : Nat) : Pc := (s.holders a).pc

def setPc (s : System) (a : Nat) (pc : Pc) : System :=
  { s with holders := update s.holders a { s.holders a with pc := pc } }

def setEntry (s : System) (e : Nat) (entry : Entry) : System :=
  { s with itable := update s.itable e entry }

def setDisk (s : System) (inum : Nat) (dinode : Dinode) : System :=
  { s with disk := update s.disk inum dinode }

/-- `ialloc` marks the inode as allocated on the disk. -/
def mark (s : System) (a inum : Nat) (type : FileType) : System :=
  { s with
    disk := update s.disk inum { Dinode.zero with type := type }
    generation := update s.generation inum (s.generation inum + 1)
    holders := update s.holders a ⟨.allocated inum, s.generation inum + 1⟩ }

/-- One round of the loop of `ialloc`. -/
def ialloc (s : System) (a inum : Nat) (type : FileType) : Except Panic System :=
  if inum < s.ninodes then
    if (s.disk inum).type = .free then .ok (s.mark a inum type)
    else .ok (s.setPc a (.scan (inum + 1) type))
  else .error .iallocNoInodes

def iget (s : System) (inum : Nat) : Except Panic (Nat × System) :=
  match (List.range NINODE).find? fun e => 0 < (s.itable e).ref ∧ (s.itable e).inum = inum with
  | some e => .ok (e, s.setEntry e { s.itable e with ref := (s.itable e).ref + 1 })
  | none =>
    match (List.range NINODE).find? fun e => (s.itable e).ref = 0 with
    | none => .error .igetNoInodes
    | some e =>
      .ok (e, s.setEntry e { s.itable e with inum := inum, ref := 1, valid := false })

/-- `ilock` up to `acquiresleep`, which waits while another holder has the lock. -/
def acquire (s : System) (a e : Nat) (new : Bool) : Except Panic System :=
  if (s.itable e).ref < 1 then .error .ilock
  else if (s.itable e).lock = none then
    .ok ((s.setEntry e { s.itable e with lock := some a }).setPc a (.loading e new))
  else .ok s

def load (s : System) (a e : Nat) (new : Bool) : Except Panic System :=
  let entry := s.itable e
  let pc := if new then .fresh e else .locked e
  if entry.valid then .ok (s.setPc a pc)
  else
    let dinode := s.disk entry.inum
    if dinode.type = .free then .error .noType
    else
      let entry :=
        { entry with inode := dinode, valid := true, loaded := s.generation entry.inum }
      .ok ((s.setEntry e entry).setPc a pc)

def iupdate (s : System) (e : Nat) : System :=
  s.setDisk (s.itable e).inum (s.itable e).inode

/-- `ip->ref--` at the end of `iput`. -/
def dropRef (s : System) (a e : Nat) : System :=
  (s.setEntry e { s.itable e with ref := (s.itable e).ref - 1 }).setPc a .idle

/-- The first section of `iput` under `itable.lock`. -/
def putCheck (s : System) (a e : Nat) : Except Panic System :=
  let entry := s.itable e
  if entry.ref = 1 ∧ entry.valid ∧ entry.inode.nlink = 0 then
    if entry.lock = none then
      .ok ((s.setEntry e { entry with lock := some a }).setPc a (.truncate e))
    else .error .schedLocks
  else .ok (s.dropRef a e)

/-- `itrunc`; the blocks of the inode are not part of this model. -/
def itrunc (s : System) (e : Nat) : System :=
  let inode := { (s.itable e).inode with size := 0, addrs := fun _ => 0 }
  (s.setEntry e { s.itable e with inode := inode }).iupdate e

def go (s : System) (a : Nat) : Except Panic System :=
  match s.pc a with
  | .scan inum type => s.ialloc a inum type
  | .allocated inum => do
      let (e, s) ← s.iget inum
      .ok (s.setPc a (.newborn e))
  | .newborn e => s.acquire a e true
  | .loading e new => s.load a e new
  | .dirty e => .ok ((s.iupdate e).setPc a (.locked e))
  | .put e => s.putCheck a e
  | .truncate e => .ok ((s.itrunc e).setPc a (.clear e))
  | .clear e =>
    let inode := { (s.itable e).inode with type := .free }
    let s := s.setEntry e { s.itable e with inode := inode }
    .ok ((s.iupdate e).setPc a (.invalidate e))
  | .invalidate e =>
    .ok ((s.setEntry e { s.itable e with valid := false }).setPc a (.unlock e))
  | .unlock e => .ok ((s.setEntry e { s.itable e with lock := none }).setPc a (.drop e))
  | .drop e => .ok (s.dropRef a e)
  | _ => .ok s

def inside (s : System) (a : Nat) : Option Nat :=
  match s.pc a with
  | .locked e | .dirty e => some e
  | _ => none

def usable (s : System) (a : Nat) : Option Nat :=
  match s.pc a with
  | .held e | .locked e | .dirty e => some e
  | _ => none

def nlink (s : System) (e : Nat) : BitVec 16 :=
  if (s.itable e).valid then (s.itable e).inode.nlink else (s.disk (s.itable e).inum).nlink

def setInode (s : System) (a e : Nat) (inode : Dinode) : System :=
  (s.setEntry e { s.itable e with inode := inode }).setPc a (.dirty e)

def lookup (s : System) (a inum : Nat) : Except Panic System :=
  if s.pc a = .idle ∧ s.named inum then do
    let (e, s) ← s.iget inum
    .ok { s with holders := update s.holders a ⟨.held e, s.generation inum⟩ }
  else .ok s

def idup (s : System) (a b : Nat) : System :=
  match s.usable a with
  | none => s
  | some e =>
    if s.pc b = .idle then
      let s := s.setEntry e { s.itable e with ref := (s.itable e).ref + 1 }
      { s with holders := update s.holders b ⟨.held e, (s.holders a).born⟩ }
    else s

def setup (s : System) (a : Nat) (major minor : BitVec 16) : System :=
  match s.pc a with
  | .fresh e =>
    s.setInode a e { (s.itable e).inode with major := major, minor := minor, nlink := 1 }
  | _ => s

def modify (s : System) (a : Nat) (major minor : BitVec 16) (size : Nat) (addrs : Nat → Nat) :
    System :=
  match s.inside a with
  | none => s
  | some e =>
    let inode := (s.itable e).inode
    s.setInode a e { inode with major := major, minor := minor, size := size, addrs := addrs }

/-- While a directory entry names the inode, its link count stays above 0. -/
def setNlink (s : System) (a : Nat) (nlink : BitVec 16) : System :=
  match s.inside a with
  | none => s
  | some e =>
    if s.named (s.itable e).inum = true ∧ nlink = 0 then s
    else s.setInode a e { (s.itable e).inode with nlink := nlink }

/-- A name is given only to an inode that has a link for it, in memory and on the disk: the callers
of `dirlink` count it and call `iupdate` first. -/
def name (s : System) (a : Nat) : System :=
  match s.usable a with
  | none => s
  | some e =>
    if s.nlink e = 0 ∨ (s.disk (s.itable e).inum).nlink = 0 then s
    else { s with named := update s.named (s.itable e).inum true }

def unname (s : System) (a : Nat) : System :=
  match s.inside a with
  | none => s
  | some e => { s with named := update s.named (s.itable e).inum false }

def iunlock (s : System) (a : Nat) : Except Panic System :=
  match s.pc a with
  | .locked e =>
    if (s.itable e).lock = some a ∧ 1 ≤ (s.itable e).ref then
      .ok ((s.setEntry e { s.itable e with lock := none }).setPc a (.held e))
    else .error .iunlock
  | _ => .ok s

def iput (s : System) (a : Nat) : System :=
  match s.pc a with
  | .held e => s.setPc a (.put e)
  | _ => s

def create (s : System) (a : Nat) (type : FileType) : System :=
  if s.pc a = .idle ∧ type ≠ .free then s.setPc a (.scan 1 type) else s

def ilock (s : System) (a : Nat) : Except Panic System :=
  match s.pc a with
  | .held e => s.acquire a e false
  | _ => .ok s

def step (s : System) : Event → Except Panic System
  | .create a type => .ok (s.create a type)
  | .lookup a inum => s.lookup a inum
  | .dup a b => .ok (s.idup a b)
  | .ilock a => s.ilock a
  | .setup a major minor => .ok (s.setup a major minor)
  | .modify a major minor size addrs => .ok (s.modify a major minor size addrs)
  | .setNlink a nlink => .ok (s.setNlink a nlink)
  | .name a => .ok (s.name a)
  | .unname a => .ok (s.unname a)
  | .iunlock a => s.iunlock a
  | .iput a => .ok (s.iput a)
  | .go a => s.go a

end System

end Xv6Rv32im.Itable
