import Mathlib.Logic.Function.Basic

/-!
# Inodes

The fields of an inode, on the disk and in the table of inodes in memory.
-/

namespace Xv6Rv32im.Fs

/-- The field `type`; 0 is a free inode. -/
inductive FileType where
  | free
  | dir
  | file
  | device
  deriving DecidableEq

/-- `struct dinode`, and the copy of it in `struct inode`. -/
structure Dinode where
  type : FileType
  major : BitVec 16
  minor : BitVec 16
  nlink : BitVec 16
  size : Nat
  addrs : Nat → Nat

/-- What `memset(dip, 0, sizeof(*dip))` leaves. -/
def Dinode.zero : Dinode where
  type := .free
  major := 0
  minor := 0
  nlink := 0
  size := 0
  addrs := fun _ => 0

end Xv6Rv32im.Fs
