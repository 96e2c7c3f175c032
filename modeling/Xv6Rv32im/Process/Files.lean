import Xv6Rv32im.Vm.Model

/-!
# The file table and pipes

`file.c` and `pipe.c` as far as they hold pages: the reference counts of the file
table, and the pipes with their two ends.  A pipe lives in a page of its own.
-/

namespace Xv6Rv32im.Process

open Library.ByteWords Vm

def NOFILE : Nat := 16
def NFILE : Nat := 100

inductive FdType where
  | none
  | pipe
  | inode
  | device
  deriving DecidableEq

/-- `struct file`, without the fields for inodes and sockets. -/
structure File where
  type : FdType
  ref : Nat
  readable : Bool
  writable : Bool
  pipe : BitVec 32

/-- The fields `readopen` and `writeopen` of `struct pipe`, by their offset. -/
def openOffset (writable : Bool) : Nat := if writable then 536 else 532

def nreadOffset : Nat := 524

def nwriteOffset : Nat := 528

structure Ftable where
  ram : Ram
  file : Nat → File

namespace Ftable

variable [Layout]

def setFile (ft : Ftable) (f : Nat) (file : File) : Ftable :=
  { ft with file := Function.update ft.file f file }

def store (ft : Ftable) (page : BitVec 32) (offset : Nat) (word : BitVec 32) : Ftable :=
  { ft with ram := ft.ram.setPage page (store32 (ft.ram.mem page) offset word) }

def filealloc (ft : Ftable) : Option Nat × Ftable :=
  match (List.range NFILE).find? fun f => (ft.file f).ref = 0 with
  | none => (none, ft)
  | some f => (some f, ft.setFile f { ft.file f with ref := 1 })

def filedup (ft : Ftable) (f : Nat) : Except Panic Ftable :=
  if (ft.file f).ref < 1 then .error .filedup
  else .ok (ft.setFile f { ft.file f with ref := (ft.file f).ref + 1 })

def pipeclose (ft : Ftable) (page : BitVec 32) (writable : Bool) : Except Panic Ftable :=
  let ft := ft.store page (openOffset writable) 0
  if load32 (ft.ram.mem page) (openOffset false) = 0 ∧
      load32 (ft.ram.mem page) (openOffset true) = 0 then do
    let ram ← ft.ram.kfree page
    return { ft with ram := ram }
  else return ft

/-- `fileclose`; the `iput` of an inode does not concern this table. -/
def fileclose (ft : Ftable) (f : Nat) : Except Panic Ftable :=
  let ff := ft.file f
  if ff.ref < 1 then .error .fileclose
  else if ff.ref - 1 > 0 then .ok (ft.setFile f { ff with ref := ff.ref - 1 })
  else
    let ft := ft.setFile f { ff with ref := 0, type := .none }
    match ff.type with
    | .pipe => ft.pipeclose ff.pipe ff.writable
    | .inode => .ok ft
    | .device => .ok ft
    | .none => .error .filecloseUnmatched

/-- The part of `pipealloc` behind the label `bad`. -/
def pipeallocBad (ft : Ftable) (f0 f1 : Option Nat) :
    Except Panic (Option (Nat × Nat) × Ftable) :=
  match f0, f1 with
  | none, _ => return (none, ft)
  | some f0, none => do
      let ft ← ft.fileclose f0
      return (none, ft)
  | some f0, some f1 => do
      let ft ← ft.fileclose f0
      let ft ← ft.fileclose f1
      return (none, ft)

/-- `pipealloc`; the files of the two ends. -/
def pipealloc (ft : Ftable) : Except Panic (Option (Nat × Nat) × Ftable) :=
  match ft.filealloc with
  | (none, ft) => ft.pipeallocBad none none
  | (some f0, ft) =>
    match ft.filealloc with
    | (none, ft) => ft.pipeallocBad (some f0) none
    | (some f1, ft) =>
      match ft.ram.kalloc with
      | (none, ram) => { ft with ram := ram }.pipeallocBad (some f0) (some f1)
      | (some pi, ram) =>
        let ft := { ft with ram := ram }
        let ft := ft.store pi (openOffset false) 1
        let ft := ft.store pi (openOffset true) 1
        let ft := ft.store pi nwriteOffset 0
        let ft := ft.store pi nreadOffset 0
        let ft := ft.setFile f0
          { ft.file f0 with type := .pipe, readable := true, writable := false, pipe := pi }
        let ft := ft.setFile f1
          { ft.file f1 with type := .pipe, readable := false, writable := true, pipe := pi }
        return (some (f0, f1), ft)

end Ftable

end Xv6Rv32im.Process
