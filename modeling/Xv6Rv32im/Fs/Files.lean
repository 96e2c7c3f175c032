import Xv6Rv32im.Fs.Dinode
import Xv6Rv32im.Library.ByteWords

/-!
# Files in blocks

The part of `fs.c` that finds, allocates, reads and writes the blocks of a file.  One operation
runs at a time, under the lock of the inode.  `bread` always finds the block in the cache, and the
blocks passed to `log_write` reach the disk as they are in the cache when the transaction commits.
-/

namespace Xv6Rv32im.Fs

open Library.ByteWords Function

def BSIZE : Nat := 1024
def NDIRECT : Nat := 12
def NINDIRECT : Nat := 256
def MAXFILE : Nat := NDIRECT + NINDIRECT

def IPB : Nat := 16

def BPB : Nat := BSIZE * 8

/-- `struct superblock`, with its layout: the inode blocks and the bitmap lie before the data. -/
structure Superblock where
  size : Nat
  nblocks : Nat
  ninodes : Nat
  inodestart : Nat
  bmapstart : Nat
  small : size ≤ 2 ^ 32
  boot : 0 < size - nblocks
  inodes : ∀ i < ninodes, i / IPB + inodestart < size - nblocks
  bitmap : ∀ b < size, b / BPB + bmapstart < size - nblocks
  apart : ∀ i < ninodes, ∀ b < size, i / IPB + inodestart ≠ b / BPB + bmapstart

namespace Superblock

def dataStart (sb : Superblock) : Nat := sb.size - sb.nblocks

def iblock (sb : Superblock) (i : Nat) : Nat := i / IPB + sb.inodestart

def bblock (sb : Superblock) (b : Nat) : Nat := b / BPB + sb.bmapstart

end Superblock

inductive Panic where
  | balloc
  | bmap
  /-- A loop did not end. -/
  | rounds
  deriving DecidableEq

/-- The blocks in the cache and on the disk, the blocks passed to `log_write` in the transaction,
and the inodes in memory. -/
structure FileSystem where
  cache : Nat → Bytes
  disk : Nat → Bytes
  log : List Nat
  inode : Nat → Dinode

/-! ## Inodes in their blocks -/

def FileType.code : FileType → BitVec 16
  | .free => 0
  | .dir => 1
  | .file => 2
  | .device => 3

def Dinode.word (d : Dinode) : Nat → BitVec 32
  | 0 => d.major ++ d.type.code
  | 1 => d.nlink ++ d.minor
  | 2 => BitVec.ofNat 32 d.size
  | j + 3 => BitVec.ofNat 32 (d.addrs j)

def storeDinode (bytes : Bytes) (offset : Nat) (d : Dinode) : Bytes :=
  (List.range (NDIRECT + 4)).foldl (fun bytes j => store32 bytes (offset + 4 * j) (d.word j)) bytes

def word (bytes : Bytes) (j : Nat) : Nat := (load32 bytes (4 * j)).toNat

namespace FileSystem

/-! ## Blocks -/

def setBlock (fs : FileSystem) (b : Nat) (bytes : Bytes) : FileSystem :=
  { fs with cache := update fs.cache b bytes }

def logWrite (fs : FileSystem) (b : Nat) : FileSystem := { fs with log := fs.log ++ [b] }

def setInode (fs : FileSystem) (i : Nat) (d : Dinode) : FileSystem :=
  { fs with inode := update fs.inode i d }

def bzero (fs : FileSystem) (bno : Nat) : FileSystem := (fs.setBlock bno fun _ => 0).logWrite bno

def mask (bi : Nat) : BitVec 8 := (1 : BitVec 8) <<< (bi % 8)

def isFree (sb : Superblock) (fs : FileSystem) (b : Nat) : Bool :=
  fs.cache (sb.bblock b) (b % BPB / 8) &&& mask (b % BPB) == 0

def markUsed (sb : Superblock) (fs : FileSystem) (b : Nat) : FileSystem :=
  let bytes := fs.cache (sb.bblock b)
  let bi := b % BPB
  (fs.setBlock (sb.bblock b)
    (update bytes (bi / 8) (bytes (bi / 8) ||| mask bi))).logWrite (sb.bblock b)

/-- `balloc`, whose two loops visit the blocks in order. -/
def balloc (sb : Superblock) (fs : FileSystem) : Except Panic (Nat × FileSystem) :=
  match (List.range sb.size).find? (isFree sb fs) with
  | none => .error .balloc
  | some b => .ok (b, (markUsed sb fs b).bzero b)

/-! ## The blocks of a file -/

/-- `ip->addrs[k]`, allocated if it is zero. -/
def addrAt (sb : Superblock) (fs : FileSystem) (i k : Nat) : Except Panic (Nat × FileSystem) :=
  let ip := fs.inode i
  if ip.addrs k = 0 then
    match balloc sb fs with
    | .error panic => .error panic
    | .ok (addr, fs) =>
      .ok (addr, fs.setInode i { ip with addrs := update ip.addrs k addr })
  else .ok (ip.addrs k, fs)

/-- `a[bn]` in the indirect block, allocated if it is zero. -/
def entryAt (sb : Superblock) (fs : FileSystem) (indirect bn : Nat) :
    Except Panic (Nat × FileSystem) :=
  if word (fs.cache indirect) bn = 0 then
    match balloc sb fs with
    | .error panic => .error panic
    | .ok (addr, fs) =>
      .ok (addr, (fs.setBlock indirect
        (store32 (fs.cache indirect) (4 * bn) (BitVec.ofNat 32 addr))).logWrite indirect)
  else .ok (word (fs.cache indirect) bn, fs)

def bmap (sb : Superblock) (fs : FileSystem) (i bn : Nat) : Except Panic (Nat × FileSystem) :=
  if bn < NDIRECT then addrAt sb fs i bn
  else if bn - NDIRECT < NINDIRECT then
    match addrAt sb fs i NDIRECT with
    | .error panic => .error panic
    | .ok (indirect, fs) => entryAt sb fs indirect (bn - NDIRECT)
  else .error .bmap

def iupdate (sb : Superblock) (fs : FileSystem) (i : Nat) : FileSystem :=
  (fs.setBlock (sb.iblock i)
    (storeDinode (fs.cache (sb.iblock i)) (64 * (i % IPB)) (fs.inode i))).logWrite (sb.iblock i)

/-! ## Reading and writing -/

/-- The loop of `readi`, with the bytes copied out so far; `copied` tells which calls of
`either_copyout` succeed. -/
def readFrom (sb : Superblock) (copied : Nat → Nat → Bool) (i n : Nat) :
    Nat → FileSystem → Nat → Nat → List (BitVec 8) →
      Except Panic (Int × List (BitVec 8) × FileSystem)
  | 0, _, _, _, _ => .error .rounds
  | rounds + 1, fs, off, tot, out =>
    if tot < n then
      match bmap sb fs i (off / BSIZE) with
      | .error panic => .error panic
      | .ok (addr, fs) =>
        let m := min (n - tot) (BSIZE - off % BSIZE)
        if copied tot m then
          readFrom sb copied i n rounds fs (off + m) (tot + m)
            (out ++ (List.range m).map fun j => fs.cache addr (off % BSIZE + j))
        else .ok (-1, out, fs)
    else .ok (tot, out, fs)

/-- `readi`: what it returns and the bytes copied out. -/
def readi (sb : Superblock) (fs : FileSystem) (i : Nat) (copied : Nat → Nat → Bool)
    (off n : BitVec 32) : Except Panic (Int × List (BitVec 8) × FileSystem) :=
  let size := (fs.inode i).size
  if off.toNat > size ∨ off + n < off then .ok (0, [], fs)
  else
    let n := if (off + n).toNat > size then size - off.toNat else n.toNat
    readFrom sb copied i n (n / BSIZE + 3) fs off.toNat 0 []

/-- The source of a write: its bytes, and how many of them a call of `either_copyin` copies from a
position on.  These are fewer than it is asked for exactly if it fails. -/
structure Source where
  byte : Nat → BitVec 8
  copied : Nat → Nat → Nat
  copied_le : ∀ pos len, copied pos len ≤ len

def memmove (bytes : Bytes) (offset len : Nat) (data : Nat → BitVec 8) : Bytes := fun a =>
  if offset ≤ a ∧ a < offset + len then data (a - offset) else bytes a

/-- The loop of `writei`: the number of bytes written, the offset behind them. -/
def writeFrom (sb : Superblock) (src : Source) (i n : Nat) :
    Nat → FileSystem → Nat → Nat → Except Panic (Nat × Nat × FileSystem)
  | 0, _, _, _ => .error .rounds
  | rounds + 1, fs, off, tot =>
    if tot < n then
      match bmap sb fs i (off / BSIZE) with
      | .error panic => .error panic
      | .ok (addr, fs) =>
        let m := min (n - tot) (BSIZE - off % BSIZE)
        let copied := src.copied tot m
        let fs := fs.setBlock addr
          (memmove (fs.cache addr) (off % BSIZE) copied fun j => src.byte (tot + j))
        if copied < m then .ok (tot, off, fs)
        else writeFrom sb src i n rounds (fs.logWrite addr) (off + m) (tot + m)
    else .ok (tot, off, fs)

def finishWrite (sb : Superblock) (fs : FileSystem) (i off : Nat) : FileSystem :=
  let ip := fs.inode i
  let fs := if off > ip.size then fs.setInode i { ip with size := off } else fs
  iupdate sb fs i

def writei (sb : Superblock) (fs : FileSystem) (i : Nat) (src : Source) (off n : BitVec 32) :
    Except Panic (Int × FileSystem) :=
  if off.toNat > (fs.inode i).size ∨ off + n < off then .ok (-1, fs)
  else if (off + n).toNat > MAXFILE * BSIZE then .ok (-1, fs)
  else
    match writeFrom sb src i n.toNat (n.toNat / BSIZE + 3) fs off.toNat 0 with
    | .error panic => .error panic
    | .ok (tot, off, fs) => .ok (tot, finishWrite sb fs i off)

end FileSystem

end Xv6Rv32im.Fs
