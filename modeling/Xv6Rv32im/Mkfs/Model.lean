import Xv6Rv32im.Fs.Directory

/-!
# Building an image

`mkfs.c`.  The image is a file of blocks; reading a block behind its end makes `mkfs` exit with
status 1, and so does a failed `assert`.  The calls of `read` on an input file return its bytes in
chunks of any size up to that of the buffer.
-/

namespace Xv6Rv32im.Mkfs

open Fs FileSystem Library.ByteWords Function

def FSSIZE : Nat := 1000
def NINODES : Nat := 200
def LOGSIZE : Nat := 30
def FSMAGIC : BitVec 32 := 0x10203040

def nbitmap : Nat := FSSIZE / (BSIZE * 8) + 1
def ninodeblocks : Nat := NINODES / IPB + 1
def nmeta : Nat := 2 + LOGSIZE + ninodeblocks + nbitmap

def layout : Superblock where
  size := FSSIZE
  nblocks := FSSIZE - nmeta
  ninodes := NINODES
  inodestart := 2 + LOGSIZE
  bmapstart := 2 + LOGSIZE + ninodeblocks
  small := by decide
  boot := by decide
  inodes := by
    intro i inside
    change i / 16 + 32 < 46
    change i < 200 at inside
    omega
  bitmap := by
    intro b inside
    change b / 8192 + 45 < 46
    change b < 1000 at inside
    omega
  apart := by
    intro i isInode b isBlock
    change i / 16 + 32 ≠ b / 8192 + 45
    change i < 200 at isInode
    omega

def superblock : List (BitVec 32) :=
  [FSMAGIC, BitVec.ofNat 32 layout.size, BitVec.ofNat 32 layout.nblocks,
    BitVec.ofNat 32 layout.ninodes, BitVec.ofNat 32 LOGSIZE, 2, BitVec.ofNat 32 layout.inodestart,
    BitVec.ofNat 32 layout.bmapstart]

inductive Exit where
  | assertion
  | read
  /-- A loop did not end. -/
  | rounds
  deriving DecidableEq

structure Image where
  disk : Nat → Bytes
  length : Nat
  freeinode : Nat
  freeblock : Nat

namespace Image

/-- The block at the position `sec * BSIZE`, a number of 32 bits. -/
def position (sec : Nat) : Nat := sec % 2 ^ 22

def wsect (m : Image) (sec : Nat) (buf : Bytes) : Image :=
  { m with
    disk := update m.disk (position sec) buf
    length := max m.length (position sec + 1) }

def rsect (m : Image) (sec : Nat) : Except Exit Bytes :=
  if position sec < m.length then .ok (m.disk (position sec)) else .error .read

def winode (m : Image) (inum : Nat) (ip : Dinode) : Except Exit Image := do
  let buf ← m.rsect (layout.iblock inum)
  return m.wsect (layout.iblock inum) (storeDinode buf (64 * (inum % IPB)) ip)

def rinode (m : Image) (inum : Nat) : Except Exit Dinode := do
  let buf ← m.rsect (layout.iblock inum)
  return loadDinode buf (64 * (inum % IPB))

def ialloc (m : Image) (type : FileType) : Except Exit (Nat × Image) := do
  let inum := m.freeinode
  let m ← { m with freeinode := m.freeinode + 1 }.winode inum
    { Dinode.zero with type := type, nlink := 1 }
  return (inum, m)

def bitmap (used : Nat) : Bytes :=
  (List.range used).foldl (fun buf i =>
    update buf (i / 8) (buf (i / 8) ||| FileSystem.mask i)) fun _ => 0

def balloc (m : Image) (used : Nat) : Except Exit Image :=
  if used < BSIZE * 8 then .ok (m.wsect layout.bmapstart (bitmap used)) else .error .assertion

/-- `din.addrs[k]`, given the next free block if it is zero. -/
def address (m : Image) (din : Dinode) (k : Nat) : Dinode × Image :=
  if din.addrs k = 0 then
    ({ din with addrs := update din.addrs k m.freeblock }, { m with freeblock := m.freeblock + 1 })
  else (din, m)

/-- The entry of an indirect block, given the next free block if it is zero. -/
def entry (m : Image) (addr k : Nat) : Except Exit (Nat × Image) :=
  match m.rsect addr with
  | .error exit => .error exit
  | .ok indirect =>
    if word indirect k = 0 then
      .ok (m.freeblock, { m with freeblock := m.freeblock + 1 }.wsect addr
        (store32 indirect (4 * k) (BitVec.ofNat 32 m.freeblock)))
    else .ok (word indirect k, m)

def block (m : Image) (din : Dinode) (fbn : Nat) : Except Exit (Nat × Dinode × Image) :=
  if fbn < NDIRECT then
    let (din, m) := m.address din fbn
    .ok (din.addrs fbn, din, m)
  else
    let (din, m) := m.address din NDIRECT
    match m.entry (din.addrs NDIRECT) (fbn - NDIRECT) with
    | .error exit => .error exit
    | .ok (x, m) => .ok (x, din, m)

def appendFrom (p : Nat → BitVec 8) (n : Nat) :
    Nat → Image → Dinode → Nat → Nat → Except Exit (Image × Dinode × Nat)
  | 0, _, _, _, _ => .error .rounds
  | rounds + 1, m, din, off, tot =>
    if tot < n then
      let fbn := off / BSIZE
      if fbn < MAXFILE then
        match m.block din fbn with
        | .error exit => .error exit
        | .ok (x, din, m) =>
          let n1 := min (n - tot) ((fbn + 1) * BSIZE - off)
          match m.rsect x with
          | .error exit => .error exit
          | .ok buf =>
            appendFrom p n rounds
              (m.wsect x (FileSystem.memmove buf (off - fbn * BSIZE) n1 fun j => p (tot + j)))
              din (off + n1) (tot + n1)
      else .error .assertion
    else .ok (m, din, off)

def iappend (m : Image) (inum : Nat) (p : Nat → BitVec 8) (n : Nat) : Except Exit Image := do
  let din ← m.rinode inum
  let (m, din, off) ← appendFrom p n (n / BSIZE + 3) m din din.size 0
  m.winode inum { din with size := off }

end Image

/-! ## `main` -/

/-- An input file: its path and what the calls of `read` return. -/
structure Input where
  path : List (BitVec 8)
  chunks : List (List (BitVec 8))
  string : 0 ∉ path
  sizes : ∀ chunk ∈ chunks, 0 < chunk.length ∧ chunk.length ≤ BSIZE

/-- The bytes of `struct dirent`, with `strncpy` of the name. -/
def dirent (inum : Nat) (name : List (BitVec 8)) : Nat → BitVec 8
  | 0 => BitVec.ofNat 8 inum
  | 1 => BitVec.ofNat 8 (inum / 256)
  | k + 2 => if k < DIRSIZ then name.getD k 0 else 0

def shortname (path : List (BitVec 8)) : List (BitVec 8) :=
  if path.take 5 = [117, 115, 101, 114, 47] then path.drop 5 else path

def storedName (path : List (BitVec 8)) : List (BitVec 8) :=
  match shortname path with
  | [] => []
  | c :: rest => if c = 95 then rest else c :: rest

def superBlock : Bytes :=
  (List.range superblock.length).foldl (fun buf j => store32 buf (4 * j) (superblock.getD j 0))
    fun _ => 0

def zeroes (count : Nat) : Image :=
  (List.range count).foldl (fun (m : Image) i => m.wsect i fun _ => 0)
    { disk := fun _ _ => 0, length := 0, freeinode := 1, freeblock := nmeta }

/-- An image of zeros with the super block. -/
def format : Image := (zeroes FSSIZE).wsect 1 superBlock

def addFile (m : Image) (input : Input) : Except Exit Image :=
  if slash ∈ shortname input.path then .error .assertion
  else do
    let (inum, m) ← m.ialloc .file
    let m ← m.iappend ROOTINO (dirent inum (storedName input.path)) 16
    input.chunks.foldlM (fun m chunk => m.iappend inum (fun j => chunk.getD j 0) chunk.length) m

/-- The size of the root directory is rounded up. -/
def fixRoot (m : Image) : Except Exit Image := do
  let din ← m.rinode ROOTINO
  m.winode ROOTINO { din with size := (din.size / BSIZE + 1) * BSIZE }

/-- `main`: the image if it exits with status 0. -/
def main (inputs : List Input) : Except Exit Image := do
  let (rootino, m) ← format.ialloc .dir
  if rootino ≠ ROOTINO then throw .assertion
  let m ← m.iappend rootino (dirent rootino dot) 16
  let m ← m.iappend rootino (dirent rootino dotDot) 16
  let m ← inputs.foldlM addFile m
  let m ← fixRoot m
  m.balloc m.freeblock

end Xv6Rv32im.Mkfs
