import Xv6Rv32im.Fs.Files

/-!
# Directories and paths

How the kernel finds a file on a disk: `ilock` loads an inode, `dirlookup` scans a directory,
`namei` follows a path and `nameiparent` stops before its last element.  A string is the list of
its bytes without the final zero.
-/

namespace Xv6Rv32im.Fs

open Library.ByteWords

def ROOTINO : Nat := 1
def DIRSIZ : Nat := 14

/-- The type with a number; numbers without a type count as devices. -/
def FileType.ofCode (code : BitVec 16) : FileType :=
  if code = 0 then .free else if code = 1 then .dir else if code = 2 then .file else .device

def loadDinode (bytes : Bytes) (offset : Nat) : Dinode where
  type := .ofCode ((load32 bytes offset).extractLsb' 0 16)
  major := (load32 bytes offset).extractLsb' 16 16
  minor := (load32 bytes (offset + 4)).extractLsb' 0 16
  nlink := (load32 bytes (offset + 4)).extractLsb' 16 16
  size := (load32 bytes (offset + 8)).toNat
  addrs := fun k => if k ≤ NDIRECT then (load32 bytes (offset + 4 * (k + 3))).toNat else 0

def readsb (disk : Nat → Bytes) : List (BitVec 32) :=
  (List.range 8).map fun j => load32 (disk 1) (4 * j)

/-- The file system after `ilock` of each inode of a disk, with no transaction open. -/
def FileSystem.mount (sb : Superblock) (disk : Nat → Bytes) : FileSystem where
  cache := disk
  disk := disk
  log := []
  inode := fun i => loadDinode (disk (sb.iblock i)) (64 * (i % IPB))

/-! ## Names -/

def strncmp (p q : Nat → BitVec 8) : Nat → Nat → Int
  | 0, _ => 0
  | n + 1, k =>
    if p k ≠ 0 ∧ p k = q k then strncmp p q n (k + 1)
    else (p k).toNat - (q k).toNat

def namecmp (s t : Nat → BitVec 8) : Int := strncmp s t DIRSIZ 0

def slash : BitVec 8 := 47

/-- `skipelem`: the name, in a buffer that had some contents, and the rest of the path. -/
def skipelem (path : List (BitVec 8)) (buffer : Nat → BitVec 8) :
    Option ((Nat → BitVec 8) × List (BitVec 8)) :=
  let path := path.dropWhile (· == slash)
  if path = [] then none
  else
    let element := path.takeWhile (· != slash)
    let len := element.length
    let name := fun k =>
      if k < min len DIRSIZ then element.getD k 0
      else if k = len ∧ len < DIRSIZ then 0 else buffer k
    some (name, (path.drop len).dropWhile (· == slash))

/-! ## Lookups -/

inductive LookupPanic where
  | file (panic : Panic)
  | notDir
  | read
  /-- `ilock` of a free inode. -/
  | noType
  deriving DecidableEq

def direntInum (de : List (BitVec 8)) : Nat := (de.getD 1 0 ++ de.getD 0 0).toNat

def direntName (de : List (BitVec 8)) : Nat → BitVec 8 := fun k => de.getD (k + 2) 0

namespace FileSystem

def dot : List (BitVec 8) := [46]
def dotDot : List (BitVec 8) := [46, 46]

/-- A loop over the entries of a directory from an offset on, up to the first one of interest:
what was found, and the offset at the end.  `file` is a panic in `readi` and `short` one behind
it. -/
def scanFrom {α φ : Type} (sb : Superblock) (dp : Nat) (visit : List (BitVec 8) → Option α)
    (file : Panic → φ) (short : φ) :
    Nat → FileSystem → Nat → Except φ ((Option α × Nat) × FileSystem)
  | 0, _, _ => .error (file .rounds)
  | rounds + 1, fs, off =>
    if off < (fs.inode dp).size then
      match readi sb fs dp (fun _ _ => true) (BitVec.ofNat 32 off) 16 with
      | .error panic => .error (file panic)
      | .ok (count, de, fs) =>
        if count ≠ 16 then .error short
        else
          match visit de with
          | some a => .ok ((some a, off), fs)
          | none => scanFrom sb dp visit file short rounds fs (off + 16)
    else .ok ((none, off), fs)

def scanRounds (fs : FileSystem) (dp : Nat) : Nat := (fs.inode dp).size / 16 + 2

def visitName (name : Nat → BitVec 8) (de : List (BitVec 8)) : Option Nat :=
  if direntInum de = 0 then none
  else if namecmp name (direntName de) = 0 then some (direntInum de) else none

/-- `dirlookup`: the inode and `*poff`. -/
def dirlookup (sb : Superblock) (fs : FileSystem) (dp : Nat) (name : Nat → BitVec 8) :
    Except LookupPanic (Option (Nat × Nat) × FileSystem) :=
  if (fs.inode dp).type ≠ .dir then .error .notDir
  else
    (scanFrom sb dp (visitName name) .file .read (scanRounds fs dp) fs 0).map fun result =>
      (result.1.1.map fun inum => (inum, result.1.2), result.2)

/-- The loop of `namex`; `elements` bounds the number of path elements. -/
def namexLoop (sb : Superblock) (nameiparent : Bool) :
    Nat → FileSystem → Nat → List (BitVec 8) → (Nat → BitVec 8) →
      Except LookupPanic (Option Nat × (Nat → BitVec 8) × FileSystem)
  | 0, _, _, _, _ => .error (.file .rounds)
  | elements + 1, fs, ip, path, buffer =>
    match skipelem path buffer with
    | none => .ok (if nameiparent then none else some ip, buffer, fs)
    | some (name, path) =>
      if (fs.inode ip).type = .free then .error .noType
      else if (fs.inode ip).type ≠ .dir then .ok (none, name, fs)
      else if nameiparent ∧ path = [] then .ok (some ip, name, fs)
      else
        match dirlookup sb fs ip name with
        | .error panic => .error panic
        | .ok (none, fs) => .ok (none, name, fs)
        | .ok (some (next, _), fs) => namexLoop sb nameiparent elements fs next path name

def startOf (cwd : Nat) (path : List (BitVec 8)) : Nat :=
  if path.head? = some slash then ROOTINO else cwd

/-- `namei`, with the current directory and the contents of the buffer for the name. -/
def namei (sb : Superblock) (fs : FileSystem) (cwd : Nat) (path : List (BitVec 8))
    (buffer : Nat → BitVec 8) : Except LookupPanic (Option Nat × FileSystem) :=
  (namexLoop sb false (path.length + 1) fs (startOf cwd path) path buffer).map fun result =>
    (result.1, result.2.2)

/-- `nameiparent`: the directory and the buffer with the last element. -/
def nameiparent (sb : Superblock) (fs : FileSystem) (cwd : Nat) (path : List (BitVec 8))
    (buffer : Nat → BitVec 8) : Except LookupPanic (Option Nat × (Nat → BitVec 8) × FileSystem) :=
  namexLoop sb true (path.length + 1) fs (startOf cwd path) path buffer

end FileSystem

end Xv6Rv32im.Fs
