import Xv6Rv32im.Fs.Names
import Xv6Rv32im.Fs.ReadWrite
import Xv6Rv32im.Library.SlotMap

/-!
# The entries of a directory

`dirlookup`, `dirlink`, `isdirempty` and the part of `unlink` that removes an entry.  Each of them
scans the entries with `readi`, which fills the holes of the directory with zeros.
-/

namespace Xv6Rv32im.Fs

open Library.ByteWords Library.SlotMap Function List BitVec FileSystem Option

inductive CallPanic where
  | lookup (panic : LookupPanic)
  | dirlinkRead
  | dirlink
  | isdiremptyReadi
  | unlinkNlink
  | unlinkWritei
  | createDots
  | createDirlink
  | ialloc
  deriving DecidableEq

namespace FileSystem

/-! ## The calls -/

def direntBytes (inum : BitVec 16) (name : List (BitVec 8)) : Nat → BitVec 8
  | 0 => inum.extractLsb' 0 8
  | 1 => inum.extractLsb' 8 8
  | k + 2 => name.getD k 0

def direntSource (inum : BitVec 16) (name : List (BitVec 8)) : Source where
  byte := direntBytes inum name
  copied := fun _ len => len
  copied_le := fun _ len => le_refl len

/-- `dirlink`.  The inode that `dirlookup` finds is put back at once. -/
def dirlink (sb : Superblock) (fs : FileSystem) (dp : Nat) (name : Nat → BitVec 8) (inum : Nat) :
    Except CallPanic (Int × FileSystem) :=
  match dirlookup sb fs dp name with
  | .error panic => .error (.lookup panic)
  | .ok (some _, fs) => .ok (-1, fs)
  | .ok (none, fs) =>
    match scanFrom sb dp (fun de => if direntInum de = 0 then some () else none)
        (CallPanic.lookup ∘ .file) .dirlinkRead (scanRounds fs dp) fs 0 with
    | .error panic => .error panic
    | .ok ((_, off), fs) =>
      match writei sb fs dp (direntSource (BitVec.ofNat 16 inum) (strncpy name DIRSIZ 0))
          (BitVec.ofNat 32 off) 16 with
      | .error panic => .error (.lookup (.file panic))
      | .ok (count, fs) => if count ≠ 16 then .error .dirlink else .ok (0, fs)

def isdirempty (sb : Superblock) (fs : FileSystem) (dp : Nat) :
    Except CallPanic (Bool × FileSystem) :=
  (scanFrom sb dp (fun de => if direntInum de ≠ 0 then some () else none)
    (CallPanic.lookup ∘ .file) .isdiremptyReadi (scanRounds fs dp) fs 32).map fun result =>
      (result.1.1.isNone, result.2)

def buffer (name : List (BitVec 8)) : Nat → BitVec 8 := fun k => name.getD k 0

/-- `sys_unlink` from `ilock(dp)` on, up to the removal of the entry: the inode of the entry, or
none at `bad`. -/
def unlinkEntry (sb : Superblock) (fs : FileSystem) (dp : Nat) (name : Nat → BitVec 8) :
    Except CallPanic (Option Nat × FileSystem) :=
  if namecmp name (buffer dot) = 0 ∨ namecmp name (buffer dotDot) = 0 then .ok (none, fs)
  else
    match dirlookup sb fs dp name with
    | .error panic => .error (.lookup panic)
    | .ok (none, fs) => .ok (none, fs)
    | .ok (some (ip, off), fs) =>
      if (fs.inode ip).type = .free then .error (.lookup .noType)
      else if (fs.inode ip).nlink.toInt < 1 then .error .unlinkNlink
      else
        match if (fs.inode ip).type = .dir then isdirempty sb fs ip else .ok (true, fs) with
        | .error panic => .error panic
        | .ok (false, fs) => .ok (none, fs)
        | .ok (true, fs) =>
          match writei sb fs dp (direntSource 0 []) (BitVec.ofNat 32 off) 16 with
          | .error panic => .error (.lookup (.file panic))
          | .ok (count, fs) =>
            if count ≠ 16 then .error .unlinkWritei else .ok (some ip, fs)

/-- The entries `.` and `..` of a directory that `create` makes. -/
def createDots (sb : Superblock) (fs : FileSystem) (ip dp : Nat) : Except CallPanic FileSystem :=
  match dirlink sb fs ip (buffer dot) ip with
  | .error panic => .error panic
  | .ok (first, fs) =>
    if first < 0 then .error .createDots
    else
      match dirlink sb fs ip (buffer dotDot) dp with
      | .error panic => .error panic
      | .ok (second, fs) => if second < 0 then .error .createDots else .ok fs

/-! ## Scans change no byte -/

/-- The same files, after some holes of certain inodes may have been filled with zeros. -/
structure Scanned (sb : Superblock) (D : Nat → Prop) (fs fs' : FileSystem) : Prop where
  owned : Owned sb fs'
  inode : ∀ j, fs'.inode j = { fs.inode j with addrs := (fs'.inode j).addrs }
  bytes : ∀ j < sb.ninodes, ∀ x < MAXFILE * BSIZE, fs'.byte j x = fs.byte j x
  still : (∀ d, D d → fs.NoHoles d) → fs' = fs

variable {sb : Superblock} {fs fs' fs'' fs₁ : FileSystem} {D D' : Nat → Prop} {i j k b bn dp : Nat}
  {data : Nat → BitVec 8}

theorem Scanned.refl (owned : Owned sb fs) (D : Nat → Prop) : Scanned sb D fs fs where
  owned := owned
  inode := fun _ => rfl
  bytes := fun _ _ _ _ => rfl
  still := fun _ => rfl

theorem Scanned.trans (first : Scanned sb D fs fs') (second : Scanned sb D fs' fs'') :
    Scanned sb D fs fs'' where
  owned := second.owned
  inode := fun j => by rw [second.inode j, first.inode j]
  bytes := fun j lt x small => (second.bytes j lt x small).trans (first.bytes j lt x small)
  still := fun noHoles => by
    have same := first.still noHoles
    rw [second.still fun d isIn => same ▸ noHoles d isIn, same]

section

variable (scanned : Scanned sb D fs fs')

include scanned

theorem Scanned.mono (more : ∀ d, D d → D' d) : Scanned sb D' fs fs' :=
  { scanned with still := fun noHoles => scanned.still fun d isIn => noHoles d (more d isIn) }

theorem Scanned.size (j : Nat) : (fs'.inode j).size = (fs.inode j).size := by
  rw [scanned.inode j]

theorem Scanned.type (j : Nat) : (fs'.inode j).type = (fs.inode j).type := by
  rw [scanned.inode j]

end

theorem balloc_inode (allocated : balloc sb fs = .ok (b, fs')) : fs'.inode = fs.inode := by
  unfold balloc at allocated
  split at allocated
  · cases allocated
  · cases allocated
    rfl

theorem setInode_inode (fs : FileSystem) (i : Nat) (d : Dinode) (j : Nat) :
    (fs.setInode i d).inode j = if j = i then d else fs.inode j :=
  update_apply ..

theorem addrAt_inode (found : addrAt sb fs i k = .ok (b, fs')) (j : Nat) :
    fs'.inode j = { fs.inode j with addrs := (fs'.inode j).addrs } := by
  unfold addrAt at found
  dsimp only at found
  split at found
  · split at found
    · cases found
    next allocated =>
      cases found
      rw [setInode_inode]
      split
      next same => rw [same]
      · rw [balloc_inode allocated]
  · cases found
    rfl

theorem entryAt_inode {indirect : Nat} (found : entryAt sb fs indirect bn = .ok (b, fs')) :
    fs'.inode = fs.inode := by
  unfold entryAt at found
  split at found
  · split at found
    · cases found
    next allocated =>
      cases found
      have same := balloc_inode allocated
      exact same
  · cases found
    rfl

theorem bmap_inode (mapped : bmap sb fs i bn = .ok (b, fs')) (j : Nat) :
    fs'.inode j = { fs.inode j with addrs := (fs'.inode j).addrs } := by
  unfold bmap at mapped
  split at mapped
  · exact addrAt_inode mapped j
  split at mapped
  · split at mapped
    · cases mapped
    next found =>
      rw [entryAt_inode mapped]
      exact addrAt_inode found j
  · cases mapped

/-- What `bmap` does inside the size of a file. -/
theorem bmap_scans (owned : Owned sb fs) (lt : i < sb.ninodes)
    (limit : (fs.inode i).size ≤ MAXFILE * BSIZE) (below : bn * BSIZE < (fs.inode i).size) :
    (bmap sb fs i bn = .error .balloc ∧ ¬fs.NoHoles i) ∨
      ∃ b fs', bmap sb fs i bn = .ok (b, fs') ∧ fs'.view i bn = some (fs'.cache b) ∧
        Scanned sb (· = i) fs fs' := by
  have small : bn < MAXFILE := by
    unfold BSIZE at *
    omega
  have present (noHoles : fs.NoHoles i) : bmap sb fs i bn = .ok (fs.held i (slot bn), fs) :=
    bmap_present owned lt small fun absent =>
      noHoles.present bn below (view_eq_none.mpr absent)
  rcases bmap_spec owned lt small with ⟨failed, -⟩ | ⟨b, fs₁, fs', mapped, indirect, mapping⟩
  · refine .inl ⟨failed, fun noHoles => ?_⟩
    rw [present noHoles] at failed
    cases failed
  have valid : Slot sb i (slot bn) := ⟨lt, slot_lt small⟩
  have owned₁ := indirect.owned owned
  have views j (lt' : j < sb.ninodes) bn' (small' : bn' < MAXFILE) :
      fs'.view j bn' = if j = i ∧ bn' = bn then some ((fs.view i bn).getD fun _ => 0)
        else fs.view j bn' := by
    rw [mapping.view owned₁ lt small lt' small', indirect.view owned lt small,
      indirect.view owned lt' small']
  refine .inr ⟨b, fs', mapped, view_of_held (mapping.held_self valid) mapping.ne_zero,
    mapping.owned owned₁, bmap_inode mapped, fun j lt' x small' => ?_, fun noHoles => ?_⟩
  · unfold byte
    rw [views j lt' _ (block_lt small')]
    split
    next same =>
      obtain ⟨rfl, isBlock⟩ := same
      rw [isBlock]
      rfl
    · rfl
  · rw [present (noHoles i rfl)] at mapped
    cases mapped
    rfl

theorem entry_block {t : Nat} (small : t < 16) : (16 * k + t) / BSIZE = 16 * k / BSIZE ∧
    (16 * k + t) % BSIZE = 16 * k % BSIZE + t := by
  unfold BSIZE
  omega

theorem readi_entry (owned : Owned sb fs) (lt : i < sb.ninodes)
    (limit : (fs.inode i).size ≤ MAXFILE * BSIZE) (within : 16 * k + 16 ≤ (fs.inode i).size) :
    (readi sb fs i (fun _ _ => true) (BitVec.ofNat 32 (16 * k)) 16 = .error .balloc ∧
        ¬fs.NoHoles i) ∨
      ∃ fs', readi sb fs i (fun _ _ => true) (BitVec.ofNat 32 (16 * k)) 16 =
          .ok (16, (range 16).map (fun t => fs.byte i (16 * k + t)), fs') ∧
        Scanned sb (· = i) fs fs' := by
  have largest : MAXFILE * BSIZE < 2 ^ 32 := by decide
  have offset : (BitVec.ofNat 32 (16 * k)).toNat = 16 * k := by
    rw [toNat_ofNat]
    exact Nat.mod_eq_of_lt (by omega)
  have count : (16 : BitVec 32).toNat = 16 := rfl
  have total : (BitVec.ofNat 32 (16 * k) + 16 : BitVec 32).toNat = 16 * k + 16 := by
    rw [toNat_add, offset, count]
    exact Nat.mod_eq_of_lt (by omega)
  have oneRound : min (16 - 0) (BSIZE - 16 * k % BSIZE) = 16 := by
    unfold BSIZE
    omega
  have entered : readi sb fs i (fun _ _ => true) (BitVec.ofNat 32 (16 * k)) 16 =
      readFrom sb (fun _ _ => true) i 16 3 fs (16 * k) 0 [] := by
    unfold readi
    rw [if_neg (by rw [wraps_iff, offset, count]; omega), total, if_neg (by omega), offset]
    rfl
  rw [entered, readFrom, if_pos (by decide)]
  have inFile : 16 * k / BSIZE * BSIZE < (fs.inode i).size := by
    have below := Nat.div_mul_le_self (16 * k) BSIZE
    omega
  rcases bmap_scans owned lt limit inFile with
    ⟨failed, holes⟩ | ⟨b, fs', mapped, isView, scanned⟩
  · rw [failed]
    exact .inl ⟨rfl, holes⟩
  rw [mapped]
  dsimp only
  rw [if_pos rfl, oneRound, readFrom, if_neg (by decide)]
  refine .inr ⟨fs', ?_, scanned⟩
  have bytes : (range 16).map (fun t => fs'.cache b (16 * k % BSIZE + t)) =
      (range 16).map fun t => fs.byte i (16 * k + t) := by
    refine map_congr_left fun t isIn => ?_
    have small : t < 16 := mem_range.mp isIn
    rw [← scanned.bytes i lt _ (by omega)]
    unfold byte
    rw [(entry_block small).1, (entry_block small).2, isView]
    rfl
  rw [bytes]
  rfl

/-! ## Entries -/

def direntAt (fs : FileSystem) (dp k : Nat) : List (BitVec 8) :=
  (range 16).map fun t => fs.byte dp (16 * k + t)

/-- The name and the inode number of an entry, if it is used. -/
def entryOf (de : List (BitVec 8)) : Option (List (BitVec 8) × Nat) :=
  if direntInum de = 0 then none else some (nameOf (direntName de), direntInum de)

def entry (fs : FileSystem) (dp k : Nat) : Option (List (BitVec 8) × Nat) :=
  entryOf (fs.direntAt dp k)

def entryCount (fs : FileSystem) (dp : Nat) : Nat := (fs.inode dp).size / 16

structure Directory (sb : Superblock) (fs : FileSystem) (dp : Nat) : Prop where
  owned : Owned sb fs
  inside : dp < sb.ninodes
  whole : (fs.inode dp).size % 16 = 0
  limit : (fs.inode dp).size ≤ MAXFILE * BSIZE

theorem Scanned.directory (scanned : Scanned sb D fs fs') (directory : Directory sb fs dp) :
    Directory sb fs' dp where
  owned := scanned.owned
  inside := directory.inside
  whole := by rw [scanned.size]; exact directory.whole
  limit := by rw [scanned.size]; exact directory.limit

theorem Scanned.entryCount (scanned : Scanned sb D fs fs') (dp : Nat) :
    fs'.entryCount dp = fs.entryCount dp := by
  unfold FileSystem.entryCount
  rw [scanned.size]

theorem direntAt_congr (same : ∀ t < 16, fs'.byte dp (16 * k + t) = fs.byte dp (16 * k + t)) :
    fs'.direntAt dp k = fs.direntAt dp k :=
  map_congr_left fun t isIn => same t (mem_range.mp isIn)

theorem Directory.entry_small (directory : Directory sb fs dp) (below : k < fs.entryCount dp) :
    16 * k + 16 ≤ (fs.inode dp).size ∧ (fs.inode dp).size ≤ MAXFILE * BSIZE := by
  have limit := directory.limit
  unfold entryCount at below
  omega

section

variable (scanned : Scanned sb D fs fs') (directory : Directory sb fs dp)
    (below : k < fs.entryCount dp)

include scanned directory below

theorem Scanned.direntAt : fs'.direntAt dp k = fs.direntAt dp k :=
  direntAt_congr fun t small => scanned.bytes dp directory.inside _ (by
    have within := directory.entry_small below
    omega)

theorem Scanned.entry : fs'.entry dp k = fs.entry dp k := by
  unfold FileSystem.entry
  rw [scanned.direntAt directory below]

end

/-! ## Scanning a directory -/

/-- A loop over the entries ends at the first one of interest, and fills holes at most. -/
theorem scanFrom_spec {α φ : Type} (visit : List (BitVec 8) → Option α) (file : Panic → φ)
    (short : φ) {left rounds : Nat} (directory : Directory sb fs dp)
    (rest : left = fs.entryCount dp - k) (enough : left < rounds) :
    (scanFrom sb dp visit file short rounds fs (16 * k) = .error (file .balloc) ∧
        ¬fs.NoHoles dp) ∨
      ∃ fs', scanFrom sb dp visit file short rounds fs (16 * k) =
          .ok (((firstFrom (fun k => visit (fs.direntAt dp k)) left k).1,
            16 * (firstFrom (fun k => visit (fs.direntAt dp k)) left k).2), fs') ∧
        Scanned sb (· = dp) fs fs' := by
  induction left generalizing k rounds fs with
  | zero =>
    obtain ⟨rounds, rfl⟩ : ∃ r, rounds = r + 1 := ⟨rounds - 1, by omega⟩
    have whole := directory.whole
    unfold entryCount at rest
    rw [scanFrom, if_neg (by omega)]
    exact .inr ⟨fs, rfl, .refl directory.owned _⟩
  | succ left ih =>
    obtain ⟨rounds, rfl⟩ : ∃ r, rounds = r + 1 := ⟨rounds - 1, by omega⟩
    have below : k < fs.entryCount dp := by omega
    obtain ⟨within, limit⟩ := directory.entry_small below
    rw [scanFrom, if_pos (by omega)]
    rcases readi_entry directory.owned directory.inside limit within with
      ⟨failed, holes⟩ | ⟨fs₁, read, scanned⟩
    · rw [failed]
      exact .inl ⟨rfl, holes⟩
    rw [read]
    dsimp only
    rw [if_neg (by decide), firstFrom]
    cases isResult : visit (fs.direntAt dp k) with
    | some a =>
      change visit ((range 16).map fun t => fs.byte dp (16 * k + t)) = some a at isResult
      rw [isResult]
      exact .inr ⟨fs₁, rfl, scanned⟩
    | none =>
      change visit ((range 16).map fun t => fs.byte dp (16 * k + t)) = none at isResult
      rw [isResult]
      have agree : firstFrom (fun k => visit (fs₁.direntAt dp k)) left (k + 1) =
          firstFrom (fun k => visit (fs.direntAt dp k)) left (k + 1) :=
        firstFrom_congr fun j above small =>
          congrArg visit (scanned.direntAt directory (by omega))
      have rest' : left = fs₁.entryCount dp - (k + 1) := by
        rw [scanned.entryCount]
        omega
      rcases ih (scanned.directory directory) rest' (Nat.lt_of_succ_lt_succ enough) with
        ⟨failed, holes⟩ | ⟨fs', ran, later⟩
      · refine .inl ⟨failed, fun noHoles => holes ?_⟩
        rw [scanned.still fun d isDp => isDp ▸ noHoles]
        exact noHoles
      · rw [agree] at ran
        exact .inr ⟨fs', ran, scanned.trans later⟩

theorem scanRounds_enough (fs : FileSystem) (dp k : Nat) :
    fs.entryCount dp - k < scanRounds fs dp := by
  unfold entryCount scanRounds
  omega

theorem visitName_direntAt (name : Nat → BitVec 8) (fs : FileSystem) (dp k : Nat) :
    visitName name (fs.direntAt dp k) = valueAt (fs.entry dp) (nameOf name) k := by
  unfold visitName valueAt entry entryOf
  by_cases free : direntInum (fs.direntAt dp k) = 0
  · rw [if_pos free, if_pos free]
    rfl
  · rw [if_neg free, if_neg free]
    exact if_congr ((namecmp_nameOf _ _).trans eq_comm) rfl rfl

/-- `dirlookup` returns the inode number and the offset of the entry with a name. -/
theorem dirlookup_spec (directory : Directory sb fs dp) (isDir : (fs.inode dp).type = .dir)
    (name : Nat → BitVec 8) :
    (dirlookup sb fs dp name = .error (.file .balloc) ∧ ¬fs.NoHoles dp) ∨
      ∃ fs', dirlookup sb fs dp name =
          .ok ((find (fs.entry dp) (fs.entryCount dp) (nameOf name)).map fun found =>
            (found.2, 16 * found.1), fs') ∧ Scanned sb (· = dp) fs fs' := by
  unfold dirlookup
  rw [if_neg (not_not.mpr isDir)]
  rcases scanFrom_spec _ _ _ directory rfl
    (scanRounds_enough fs dp 0) with ⟨failed, holes⟩ | ⟨fs', ran, scanned⟩
  · rw [Nat.mul_zero] at failed
    rw [failed]
    exact .inl ⟨rfl, holes⟩
  have visits : (fun k => visitName name (fs.direntAt dp k)) =
      valueAt (fs.entry dp) (nameOf name) := funext (visitName_direntAt name fs dp)
  rw [Nat.mul_zero, visits] at ran
  rw [ran]
  refine .inr ⟨fs', ?_, scanned⟩
  unfold find
  rw [Option.map_map]
  rfl

/-- `isdirempty` looks for a used entry behind the first two. -/
theorem isdirempty_spec (directory : Directory sb fs dp) :
    (isdirempty sb fs dp = .error (.lookup (.file .balloc)) ∧ ¬fs.NoHoles dp) ∨
      ∃ empty fs', isdirempty sb fs dp = .ok (empty, fs') ∧
        (empty = true ↔ ∀ k, 2 ≤ k → k < fs.entryCount dp → fs.entry dp k = none) ∧
        Scanned sb (· = dp) fs fs' := by
  unfold isdirempty
  rcases scanFrom_spec (fun de => if direntInum de ≠ 0 then some () else none) _ _
    directory rfl (scanRounds_enough fs dp 2) with ⟨failed, holes⟩ | ⟨fs', ran, scanned⟩
  · rw [show 32 = 16 * 2 from rfl, failed]
    exact .inl ⟨rfl, holes⟩
  rw [show 32 = 16 * 2 from rfl, ran]
  refine .inr ⟨_, fs', rfl, ?_, scanned⟩
  have unused k : (if direntInum (fs.direntAt dp k) ≠ 0 then some () else none) = none ↔
      fs.entry dp k = none := by
    unfold entry entryOf
    by_cases free : direntInum (fs.direntAt dp k) = 0
    · rw [if_neg (not_not.mpr free), if_pos free]
      exact ⟨fun _ => rfl, fun _ => rfl⟩
    · rw [if_pos free, if_neg free]
      exact ⟨nofun, nofun⟩
  rw [isNone_iff_eq_none]
  rcases firstFrom_spec (fun k => if direntInum _ ≠ 0 then some () else none)
    (fs.entryCount dp - 2) 2 with ⟨nothing, -, all⟩ | ⟨_, j, found, above, below, isUsed⟩
  · refine ⟨fun _ k above below => (unused k).mp (all k above (by omega)), fun _ => nothing⟩
  rw [found]
  refine ⟨nofun, fun none => ?_⟩
  rw [(unused j).mpr (none j above (by omega))] at isUsed
  cases isUsed

/-! ## Writing an entry -/

structure Stored (sb : Superblock) (fs fs' : FileSystem) (i lo : Nat) (data : Nat → BitVec 8) :
    Prop where
  owned : Owned sb fs'
  inode : ∀ j, fs'.inode j = { fs.inode j with
    addrs := (fs'.inode j).addrs
    size := if j = i then max (fs.inode i).size (lo + 16) else (fs.inode j).size }
  bytes : ∀ j < sb.ninodes, ∀ x < MAXFILE * BSIZE, fs'.byte j x =
    if j = i ∧ lo ≤ x ∧ x < lo + 16 then data (x - lo) else fs.byte j x

theorem missing_le (fs : FileSystem) (i bn : Nat) : missing fs i bn ≤ 2 := by
  unfold missing
  split <;> split <;> omega

theorem finishWrite_inode (fs : FileSystem) (i off j : Nat) :
    (finishWrite sb fs i off).inode j = { fs.inode j with
      size := if j = i then max (fs.inode i).size off else (fs.inode j).size } := by
  unfold finishWrite
  dsimp only
  split
  next longer =>
    change (fs.setInode i _).inode j = _
    rw [setInode_inode]
    split
    next same => rw [same, max_eq_right (le_of_lt longer)]
    · rfl
  next within =>
    change fs.inode j = _
    split
    next same => rw [same, max_eq_left (not_lt.mp within)]
    · rfl

theorem writei_entry (owned : Owned sb fs) (lt : i < sb.ninodes) (src : Source)
    (readable : ∀ pos len, src.copied pos len = len) (atEnd : 16 * k ≤ (fs.inode i).size)
    (bound : 16 * k + 16 ≤ MAXFILE * BSIZE) :
    (writei sb fs i src (BitVec.ofNat 32 (16 * k)) 16 = .error .balloc ∧ freeCount sb fs < 2 ∧
        fs.view i (16 * k / BSIZE) = none) ∨
      ∃ fs', writei sb fs i src (BitVec.ofNat 32 (16 * k)) 16 = .ok (16, fs') ∧
        Stored sb fs fs' i (16 * k) src.byte := by
  have largest : MAXFILE * BSIZE < 2 ^ 32 := by decide
  have offset : (BitVec.ofNat 32 (16 * k)).toNat = 16 * k := by
    rw [toNat_ofNat]
    exact Nat.mod_eq_of_lt (by omega)
  have count : (16 : BitVec 32).toNat = 16 := rfl
  have small : 16 * k / BSIZE < MAXFILE := block_lt (by omega)
  have oneRound : min (16 - 0) (BSIZE - 16 * k % BSIZE) = 16 := by
    unfold BSIZE
    omega
  have accepted : ¬Refused (fs.inode i).size (BitVec.ofNat 32 (16 * k)) 16 := by
    unfold Refused
    rw [offset, count]
    omega
  rw [writei_accepted accepted, offset, count, writeFrom, if_pos (by decide)]
  rcases bmap_spec owned lt small with ⟨failed, few⟩ | ⟨b, fs₁, fs₂, mapped, indirect, mapping⟩
  · rw [failed]
    refine .inl ⟨rfl, lt_of_lt_of_le few (missing_le fs i _), view_eq_none.mpr ?_⟩
    by_contra present
    rw [bmap_present owned lt small present] at failed
    cases failed
  rw [mapped]
  dsimp only
  rw [oneRound, readable, if_neg (lt_irrefl _), writeFrom, if_neg (by decide)]
  have round := round_fill owned lt small indirect mapping (16 * k % BSIZE) 16
    fun j => src.byte (0 + j)
  generalize isFilled : fs₂.setBlock b (memmove (fs₂.cache b) (16 * k % BSIZE) 16
    fun j => src.byte (0 + j)) = filled at round
  have ownedLogged : Owned sb (filled.logWrite b) := round.owned.logWrite b
  obtain ⟨owned', views, -⟩ := finishWrite_spec ownedLogged lt _
  have sameInode : (filled.logWrite b).inode = fs₂.inode := by
    rw [← isFilled]
    rfl
  have isInode j : (finishWrite sb (filled.logWrite b) i (16 * k + 16)).inode j =
      { fs.inode j with
        addrs := (fs₂.inode j).addrs
        size := if j = i then max (fs.inode i).size (16 * k + 16) else (fs.inode j).size } := by
    rw [finishWrite_inode, sameInode, bmap_inode mapped j, bmap_inode mapped i]
  refine .inr ⟨finishWrite sb _ i (16 * k + 16), rfl, owned', fun j => ?_,
    fun j lt' x small' => ?_⟩
  · rw [isInode]
  unfold byte
  rw [views j _ lt' (block_lt small')]
  change filled.byte j x = _
  by_cases same : j = i
  · rw [same, round.byte lt (by unfold BSIZE; omega) small']
    simp only [zero_add, true_and]
    rfl
  · rw [if_neg fun both => same both.1]
    unfold byte
    rw [round.view j _ lt' (block_lt small'), if_neg fun both => same both.1]

theorem Stored.direntAt (stored : Stored sb fs fs' i (16 * k) data) (lt : j < sb.ninodes)
    {l : Nat} (small : 16 * l + 16 ≤ MAXFILE * BSIZE) :
    fs'.direntAt j l = if j = i ∧ l = k then (range 16).map data else fs.direntAt j l := by
  split
  next same =>
    refine map_congr_left fun t isIn => ?_
    have below : t < 16 := mem_range.mp isIn
    rw [stored.bytes j lt _ (by omega), if_pos ⟨same.1, by omega, by omega⟩]
    congr 1
    omega
  next other =>
    refine map_congr_left fun t isIn => ?_
    have below : t < 16 := mem_range.mp isIn
    rw [stored.bytes j lt _ (by omega), if_neg (by omega)]

theorem Stored.size {lo : Nat} (stored : Stored sb fs fs' i lo data) (j : Nat) :
    (fs'.inode j).size = if j = i then max (fs.inode i).size (lo + 16) else (fs.inode j).size := by
  rw [stored.inode j]

theorem Stored.type {lo : Nat} (stored : Stored sb fs fs' i lo data) (j : Nat) :
    (fs'.inode j).type = (fs.inode j).type := by
  rw [stored.inode j]

theorem Stored.entry (stored : Stored sb fs fs' dp (16 * k) data) (lt : dp < sb.ninodes)
    {l : Nat} (small : 16 * l + 16 ≤ MAXFILE * BSIZE) :
    fs'.entry dp l = update (fs.entry dp) k (entryOf ((range 16).map data)) l := by
  unfold FileSystem.entry
  rw [stored.direntAt lt small]
  by_cases same : l = k
  · rw [if_pos ⟨rfl, same⟩, same, update_self]
  · rw [if_neg fun both => same both.2, update_of_ne same]

theorem nameOf_congr {p q : Nat → BitVec 8} (same : ∀ t < DIRSIZ, p t = q t) :
    nameOf p = nameOf q := by
  refine (namecmp_nameOf p q).mp ((strncmp_eq_zero p q DIRSIZ 0).mpr fun t small _ => ?_)
  rw [zero_add]
  exact same t small

/-- The entry with the bytes of a `struct dirent`. -/
theorem entryOf_bytes (inum : BitVec 16) (name : List (BitVec 8)) :
    entryOf ((range 16).map (direntBytes inum name)) =
      if inum = 0 then none else some (nameOf fun k => name.getD k 0, inum.toNat) := by
  have isInum : direntInum ((range 16).map (direntBytes inum name)) = inum.toNat := by
    change (inum.extractLsb' 8 8 ++ inum.extractLsb' 0 8 : BitVec 16).toNat = _
    congr 1
    ext t
    grind
  have isName : nameOf (direntName ((range 16).map (direntBytes inum name))) =
      nameOf fun k => name.getD k 0 := by
    refine nameOf_congr fun t small => ?_
    unfold direntName
    have below : t + 2 < 16 := Nat.add_lt_add_right small 2
    rw [getD_eq_getElem?_getD, getElem?_map, getElem?_range below]
    rfl
  unfold entryOf
  rw [isInum, isName]
  exact if_congr (toNat_eq (y := 0)).symm rfl rfl

/-! ## Adding and removing an entry -/

theorem firstFree_visit (fs : FileSystem) (dp n : Nat) :
    (firstFrom (fun k => if direntInum (fs.direntAt dp k) = 0 then some () else none) n 0).2 =
      firstFree (fs.entry dp) n := by
  unfold firstFree
  rw [firstFrom_congr fun k _ _ => ?_]
  unfold entry entryOf
  by_cases free : direntInum (fs.direntAt dp k) = 0
  · rw [if_pos free, if_pos free, if_pos rfl]
  · rw [if_neg free, if_neg free, if_neg nofun]

def names (fs : FileSystem) (dp : Nat) : List (BitVec 8) → Option Nat :=
  binding (fs.entry dp) (fs.entryCount dp)

/-- The first free entry of a directory, or the one behind its end. -/
def freeEntry (fs : FileSystem) (dp : Nat) : Nat := firstFree (fs.entry dp) (fs.entryCount dp)

section

variable (scanned : Scanned sb D fs fs') (directory : Directory sb fs dp)

include scanned directory

theorem Scanned.names : fs'.names dp = fs.names dp := by
  unfold FileSystem.names
  rw [scanned.entryCount]
  exact binding_congr fun k below => scanned.entry directory below

theorem Scanned.freeEntry : fs'.freeEntry dp = fs.freeEntry dp := by
  unfold FileSystem.freeEntry firstFree
  rw [scanned.entryCount, firstFrom_congr fun k _ below => ?_]
  rw [scanned.entry directory (by omega)]

end

theorem freeEntry_le (fs : FileSystem) (dp : Nat) : fs.freeEntry dp ≤ fs.entryCount dp :=
  (firstFree_spec (fs.entry dp) (fs.entryCount dp)).1

theorem freeEntry_le_size (fs : FileSystem) (dp : Nat) :
    16 * fs.freeEntry dp ≤ (fs.inode dp).size := by
  have le := freeEntry_le fs dp
  unfold entryCount at le
  omega

section

variable (directory : Directory sb fs dp)

include directory

/-- `dirlink` refuses a name that is there, and writes the entry of a new one into the first free
place.  It panics if there is none and the directory cannot grow. -/
theorem dirlink_spec (isDir : (fs.inode dp).type = .dir) (name : Nat → BitVec 8) (inum : Nat) :
    (dirlink sb fs dp name inum = .error (.lookup (.file .balloc)) ∧
        (fs.NoHoles dp → freeCount sb fs < 2)) ∨
      (fs.names dp (nameOf name) ≠ none ∧
        ∃ fs', dirlink sb fs dp name inum = .ok (-1, fs') ∧ Scanned sb (· = dp) fs fs') ∨
      fs.names dp (nameOf name) = none ∧ (dirlink sb fs dp name inum = .error .dirlink ∧
            MAXFILE * BSIZE < 16 * fs.freeEntry dp + 16 ∨
          16 * fs.freeEntry dp + 16 ≤ MAXFILE * BSIZE ∧
            ∃ fs₁ fs', dirlink sb fs dp name inum = .ok (0, fs') ∧ Scanned sb (· = dp) fs fs₁ ∧
              Stored sb fs₁ fs' dp (16 * fs.freeEntry dp)
                (direntBytes (BitVec.ofNat 16 inum) (strncpy name DIRSIZ 0))) := by
  unfold dirlink
  rcases dirlookup_spec directory isDir name with ⟨failed, holes⟩ | ⟨fs₁, looked, scanned⟩
  · rw [failed]
    exact .inl ⟨rfl, fun noHoles => absurd noHoles holes⟩
  cases found : find (fs.entry dp) (fs.entryCount dp) (nameOf name) with
  | some place =>
    rw [looked, found]
    refine .inr (.inl ⟨?_, fs₁, rfl, scanned⟩)
    unfold names binding
    rw [found]
    nofun
  | none =>
    have absent : fs.names dp (nameOf name) = none := by
      unfold names binding
      rw [found]
      rfl
    have directory₁ := scanned.directory directory
    rw [found, map_none] at looked
    rw [looked]
    dsimp only
    rcases scanFrom_spec (fun de => if direntInum de = 0 then some () else none) _ _
      (k := 0) directory₁ rfl (scanRounds_enough fs₁ dp 0) with
      ⟨failed, holes⟩ | ⟨fs₂, ran, scanned₂⟩
    · rw [Nat.mul_zero] at failed
      rw [failed]
      refine .inl ⟨rfl, fun noHoles => absurd ?_ holes⟩
      rw [scanned.still fun d isDp => isDp ▸ noHoles]
      exact noHoles
    rw [Nat.mul_zero, Nat.sub_zero, firstFree_visit] at ran
    change scanFrom _ _ _ _ _ _ _ _ = .ok ((_, 16 * fs₁.freeEntry dp), fs₂) at ran
    rw [scanned.freeEntry directory] at ran
    rw [ran]
    dsimp only
    have both := scanned.trans scanned₂
    have atEnd : 16 * fs.freeEntry dp ≤ (fs₂.inode dp).size := by
      rw [both.size]
      exact freeEntry_le_size fs dp
    by_cases full : MAXFILE * BSIZE < 16 * fs.freeEntry dp + 16
    · have largest : MAXFILE * BSIZE + 16 < 2 ^ 32 := by decide
      have limit := directory.limit
      have fits := freeEntry_le_size fs dp
      have refused : Refused (fs₂.inode dp).size (BitVec.ofNat 32 (16 * fs.freeEntry dp)) 16 := by
        refine .inr (.inr ?_)
        rw [toNat_ofNat, Nat.mod_eq_of_lt (by omega)]
        exact full
      rw [(writei_refused_iff fs₂ dp _ _ _).mpr refused]
      exact .inr (.inr ⟨absent, .inl ⟨rfl, full⟩⟩)
    · rcases writei_entry both.owned directory.inside
        (direntSource _ _)
        (fun _ _ => rfl) atEnd (not_lt.mp full) with ⟨failed, few, -⟩ | ⟨fs', wrote, stored⟩
      · rw [failed]
        refine .inl ⟨rfl, fun noHoles => ?_⟩
        rwa [both.still fun d isDp => isDp ▸ noHoles] at few
      · rw [wrote]
        exact .inr (.inr ⟨absent, .inr ⟨not_lt.mp full, fs₂, fs', rfl, both, stored⟩⟩)

theorem Stored.links {name : Nat → BitVec 8} {inum : Nat} (scanned : Scanned sb D fs fs₁)
    (fits : 16 * fs.freeEntry dp + 16 ≤ MAXFILE * BSIZE)
    (stored : Stored sb fs₁ fs' dp (16 * fs.freeEntry dp)
      (direntBytes (BitVec.ofNat 16 inum) (strncpy name DIRSIZ 0))) (positive : 0 < inum)
    (small : inum < 2 ^ 16) :
    Directory sb fs' dp ∧ fs'.entryCount dp = max (fs.entryCount dp) (fs.freeEntry dp + 1) ∧
      ∀ k < fs'.entryCount dp, fs'.entry dp k =
        update (fs.entry dp) (fs.freeEntry dp) (some (nameOf name, inum)) k := by
  have sizeIs := stored.size dp
  rw [if_pos rfl, scanned.size] at sizeIs
  have limit := directory.limit
  have whole := directory.whole
  have count : fs'.entryCount dp = max (fs.entryCount dp) (fs.freeEntry dp + 1) := by
    unfold entryCount
    omega
  have nonzero : BitVec.ofNat 16 inum ≠ 0 := by
    intro zero
    have value := congrArg BitVec.toNat zero
    rw [toNat_ofNat, Nat.mod_eq_of_lt small] at value
    change inum = 0 at value
    omega
  have isEntry : entryOf ((range 16).map
      (direntBytes (BitVec.ofNat 16 inum) (strncpy name DIRSIZ 0))) = some (nameOf name, inum) := by
    rw [entryOf_bytes, if_neg nonzero, nameOf_strncpy, toNat_ofNat, Nat.mod_eq_of_lt small]
  refine ⟨⟨stored.owned, directory.inside, by omega, by omega⟩, count, fun k below => ?_⟩
  have within : 16 * k + 16 ≤ (fs'.inode dp).size := by
    unfold entryCount at below
    omega
  rw [stored.entry directory.inside (by omega), isEntry]
  by_cases same : k = fs.freeEntry dp
  · rw [same, update_self, update_self]
  · have le := freeEntry_le fs dp
    rw [update_of_ne same, update_of_ne same]
    exact scanned.entry directory (by omega)

theorem Stored.unlinks (scanned : Scanned sb D fs fs₁) (below : k < fs.entryCount dp)
    (stored : Stored sb fs₁ fs' dp (16 * k) (direntBytes 0 [])) :
    Directory sb fs' dp ∧ fs'.entryCount dp = fs.entryCount dp ∧
      ∀ l < fs'.entryCount dp, fs'.entry dp l = update (fs.entry dp) k none l := by
  obtain ⟨within, limit⟩ := directory.entry_small below
  have sizeIs := stored.size dp
  rw [if_pos rfl, scanned.size, max_eq_left within] at sizeIs
  have count : fs'.entryCount dp = fs.entryCount dp := by
    unfold entryCount
    rw [sizeIs]
  refine ⟨⟨stored.owned, directory.inside, by rw [sizeIs]; exact directory.whole,
    by rw [sizeIs]; exact limit⟩, count, fun l small => ?_⟩
  rw [count] at small
  have lt := (directory.entry_small small).1
  rw [stored.entry directory.inside (by omega), entryOf_bytes, if_pos rfl]
  by_cases same : l = k
  · rw [same, update_self, update_self]
  · rw [update_of_ne same, update_of_ne same]
    exact scanned.entry directory small

end

theorem view_of_entry (isUsed : fs.entry dp k ≠ none) : fs.view dp (16 * k / BSIZE) ≠ none := by
  intro absent
  refine isUsed ?_
  have zeros : fs.direntAt dp k = (range 16).map fun _ => 0 := by
    refine map_congr_left fun t isIn => ?_
    unfold byte
    rw [(entry_block (mem_range.mp isIn)).1, absent]
    rfl
  unfold entry
  rw [zeros]
  rfl

theorem namecmp_dot (name : Nat → BitVec 8) :
    (namecmp name (buffer dot) = 0 ∨ namecmp name (buffer dotDot) = 0) ↔
      nameOf name = dot ∨ nameOf name = dotDot := by
  have isDot : nameOf (buffer dot) = dot := by decide
  have isDotDot : nameOf (buffer dotDot) = dotDot := by decide
  rw [namecmp_nameOf, namecmp_nameOf, isDot, isDotDot]

/-- An inode to which an entry may refer: if it is a directory, it has whole entries. -/
def Target (sb : Superblock) (fs : FileSystem) (ip : Nat) : Prop :=
  ip < sb.ninodes ∧ ((fs.inode ip).type = .dir →
    (fs.inode ip).size % 16 = 0 ∧ (fs.inode ip).size ≤ MAXFILE * BSIZE)

/-- An entry in use has a block, so that it is written over without a new one. -/
theorem Scanned.removes (scanned : Scanned sb D fs fs₁) (directory : Directory sb fs dp)
    (below : k < fs.entryCount dp) (isUsed : fs.entry dp k ≠ none) :
    ∃ fs', writei sb fs₁ dp (direntSource 0 []) (BitVec.ofNat 32 (16 * k)) 16 = .ok (16, fs') ∧
      Stored sb fs₁ fs' dp (16 * k) (direntBytes 0 []) := by
  obtain ⟨within, limit⟩ := directory.entry_small below
  rcases writei_entry scanned.owned directory.inside (direntSource 0 []) (fun _ _ => rfl) (k := k)
    (by rw [scanned.size]; omega) (by omega) with ⟨-, -, absent⟩ | written
  · refine absurd absent (view_of_entry ?_)
    rwa [scanned.entry directory below]
  · exact written

/-- The removal of an entry refuses `.` and `..`, names that are not there and directories that
are not empty. -/
theorem unlinkEntry_spec (directory : Directory sb fs dp) (isDir : (fs.inode dp).type = .dir)
    (name : Nat → BitVec 8)
    (target : ∀ k < fs.entryCount dp, ∀ ip, fs.entry dp k = some (nameOf name, ip) →
      nameOf name ≠ dot → nameOf name ≠ dotDot → Target sb fs ip) :
    (unlinkEntry sb fs dp name = .error (.lookup (.file .balloc)) ∧
        ∃ d, (d = dp ∨ fs.names dp (nameOf name) = some d) ∧ ¬fs.NoHoles d) ∨
      (∃ ip, fs.names dp (nameOf name) = some ip ∧
        (unlinkEntry sb fs dp name = .error (.lookup .noType) ∧ (fs.inode ip).type = .free ∨
          unlinkEntry sb fs dp name = .error .unlinkNlink ∧ (fs.inode ip).nlink.toInt < 1)) ∨
      (∃ fs', unlinkEntry sb fs dp name = .ok (none, fs') ∧
        Scanned sb (fun d => d = dp ∨ fs.names dp (nameOf name) = some d) fs fs' ∧
        (nameOf name = dot ∨ nameOf name = dotDot ∨ fs.names dp (nameOf name) = none ∨
          ∃ ip, fs.names dp (nameOf name) = some ip ∧ (fs.inode ip).type = .dir ∧
            ∃ k, 2 ≤ k ∧ k < fs.entryCount ip ∧ fs.entry ip k ≠ none)) ∨
      ∃ k ip fs₁ fs', k < fs.entryCount dp ∧ fs.entry dp k = some (nameOf name, ip) ∧
        fs.names dp (nameOf name) = some ip ∧ nameOf name ≠ dot ∧ nameOf name ≠ dotDot ∧
        unlinkEntry sb fs dp name = .ok (some ip, fs') ∧
        Scanned sb (fun d => d = dp ∨ fs.names dp (nameOf name) = some d) fs fs₁ ∧
        Stored sb fs₁ fs' dp (16 * k) (direntBytes 0 []) := by
  unfold unlinkEntry
  by_cases dots : nameOf name = dot ∨ nameOf name = dotDot
  · rw [if_pos ((namecmp_dot name).mpr dots)]
    refine .inr (.inr (.inl ⟨fs, rfl, .refl directory.owned _, ?_⟩))
    exact dots.imp id .inl
  obtain ⟨notDot, notDotDot⟩ := not_or.mp dots
  rw [if_neg fun isDots => dots ((namecmp_dot name).mp isDots)]
  rcases dirlookup_spec directory isDir name with ⟨failed, holes⟩ | ⟨fs₁, looked, scanned⟩
  · rw [failed]
    exact .inl ⟨rfl, dp, .inl rfl, holes⟩
  have scanned' : Scanned sb (fun d => d = dp ∨ fs.names dp (nameOf name) = some d) fs fs₁ :=
    scanned.mono fun d isDp => .inl isDp
  cases found : find (fs.entry dp) (fs.entryCount dp) (nameOf name) with
  | none =>
    rw [found, map_none] at looked
    rw [looked]
    refine .inr (.inr (.inl ⟨fs₁, rfl, scanned', .inr (.inr (.inl ?_))⟩))
    unfold names binding
    rw [found]
    rfl
  | some place =>
    obtain ⟨k, ip⟩ := place
    rw [found, map_some] at looked
    rw [looked]
    dsimp only
    have isName : fs.names dp (nameOf name) = some ip := by
      unfold names binding
      rw [found]
      rfl
    obtain ⟨below, isEntry⟩ := find_some found
    obtain ⟨lt, isWhole⟩ := target k below ip isEntry notDot notDotDot
    by_cases free : (fs.inode ip).type = .free
    · rw [if_pos (by rwa [scanned.type])]
      exact .inr (.inl ⟨ip, isName, .inl ⟨rfl, free⟩⟩)
    rw [if_neg (by rwa [scanned.type])]
    have sameNlink : (fs₁.inode ip).nlink = (fs.inode ip).nlink := by rw [scanned.inode]
    by_cases few : (fs.inode ip).nlink.toInt < 1
    · rw [if_pos (by rwa [sameNlink])]
      exact .inr (.inl ⟨ip, isName, .inr ⟨rfl, few⟩⟩)
    rw [if_neg (by rwa [sameNlink])]
    have isUsed : fs.entry dp k ≠ none := isEntry ▸ nofun
    by_cases targetDir : (fs.inode ip).type = .dir
    · rw [if_pos (by rwa [scanned.type])]
      have directoryIp : Directory sb fs ip :=
        ⟨directory.owned, lt, (isWhole targetDir).1, (isWhole targetDir).2⟩
      rcases isdirempty_spec (scanned.directory directoryIp) with
        ⟨failed, holes⟩ | ⟨empty, fs₂, ran, isEmpty, scanned₂⟩
      · rw [failed]
        refine .inl ⟨rfl, ?_⟩
        by_contra none
        have noHoles d (isIn : d = dp ∨ fs.names dp (nameOf name) = some d) :
            fs.NoHoles d := by
          by_contra hole
          exact none ⟨d, isIn, hole⟩
        refine holes ?_
        rw [scanned'.still noHoles]
        exact noHoles ip (.inr isName)
      · rw [ran]
        have both : Scanned sb (fun d => d = dp ∨ fs.names dp (nameOf name) = some d) fs fs₂ :=
          scanned'.trans (scanned₂.mono fun d isIp => .inr (isIp ▸ isName))
        cases empty with
        | false =>
          refine .inr (.inr (.inl ⟨fs₂, rfl, both, .inr (.inr (.inr ⟨ip, isName, targetDir, ?_⟩))⟩))
          by_contra none
          refine Bool.false_ne_true (isEmpty.mpr fun l above small => ?_)
          rw [scanned.entryCount] at small
          rw [scanned.entry directoryIp small]
          by_contra used
          exact none ⟨l, above, small, used⟩
        | true =>
          obtain ⟨fs', wrote, stored⟩ := both.removes directory below isUsed
          dsimp only
          rw [wrote]
          exact .inr (.inr (.inr ⟨k, ip, fs₂, fs', below, isEntry, isName, notDot, notDotDot,
            rfl, both, stored⟩))
    · rw [if_neg (by rwa [scanned.type])]
      obtain ⟨fs', wrote, stored⟩ := scanned'.removes directory below isUsed
      dsimp only
      rw [wrote]
      exact .inr (.inr (.inr ⟨k, ip, fs₁, fs', below, isEntry, isName, notDot, notDotDot,
        rfl, scanned', stored⟩))

end FileSystem

end Xv6Rv32im.Fs
