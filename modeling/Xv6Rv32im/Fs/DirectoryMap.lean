import Xv6Rv32im.Fs.Entries
import Xv6Rv32im.Mkfs.Lookup

/-!
# Directories as finite maps

A directory that `create` or `mkfs` made stays a finite map from names to inode numbers under
`dirlink` and the removal of entries by `sys_unlink`.
-/

namespace Xv6Rv32im.Fs

open Library.Run Library.SlotMap FileSystem Function List Option

/-! ## The invariant -/

/-- A directory in which no name occurs twice and which begins with `.` and `..`. -/
structure IsMap (sb : Superblock) (fs : FileSystem) (dp : Nat) : Prop where
  directory : Directory sb fs dp
  isDir : (fs.inode dp).type = .dir
  unique : Unique (fs.entry dp) (fs.entryCount dp)
  two : 2 ≤ fs.entryCount dp
  first : ∃ ip, fs.entry dp 0 = some (dot, ip)
  second : ∃ ip, fs.entry dp 1 = some (dotDot, ip)
  targets : ∀ k, 2 ≤ k → k < fs.entryCount dp → ∀ name ip, fs.entry dp k = some (name, ip) →
    Target sb fs ip

variable {sb : Superblock} {fs fs' fs₁ : FileSystem} {D : Nat → Prop} {dp ip inum k : Nat}
  {name : Nat → BitVec 8}

theorem IsMap.behind_dots (isMap : IsMap sb fs dp) {nm : List (BitVec 8)}
    (isEntry : fs.entry dp k = some (nm, ip)) (notDot : nm ≠ dot) (notDotDot : nm ≠ dotDot) :
    2 ≤ k := by
  obtain ⟨_, first⟩ := isMap.first
  obtain ⟨_, second⟩ := isMap.second
  by_contra early
  have cases : k = 0 ∨ k = 1 := by omega
  rcases cases with rfl | rfl
  · rw [first] at isEntry
    cases isEntry
    exact notDot rfl
  · rw [second] at isEntry
    cases isEntry
    exact notDotDot rfl

theorem IsMap.target (isMap : IsMap sb fs dp) (name : Nat → BitVec 8) :
    ∀ k < fs.entryCount dp, ∀ ip, fs.entry dp k = some (nameOf name, ip) →
      nameOf name ≠ dot → nameOf name ≠ dotDot → Target sb fs ip :=
  fun k below ip isEntry notDot notDotDot =>
    isMap.targets k (isMap.behind_dots isEntry notDot notDotDot) below _ ip isEntry

/-- What the other calls may change: the rest of the file system. -/
structure Elsewhere (sb : Superblock) (dp : Nat) (fs fs' : FileSystem) : Prop where
  owned : Owned sb fs'
  type : (fs'.inode dp).type = (fs.inode dp).type
  size : (fs'.inode dp).size = (fs.inode dp).size
  bytes : ∀ x < MAXFILE * BSIZE, fs'.byte dp x = fs.byte dp x
  targets : ∀ k, 2 ≤ k → k < fs.entryCount dp → ∀ name ip, fs.entry dp k = some (name, ip) →
    Target sb fs' ip

theorem IsMap.elsewhere (isMap : IsMap sb fs dp) (elsewhere : Elsewhere sb dp fs fs') :
    IsMap sb fs' dp ∧ fs'.names dp = fs.names dp := by
  have count : fs'.entryCount dp = fs.entryCount dp := by
    unfold entryCount
    rw [elsewhere.size]
  have same k (below : k < fs.entryCount dp) : fs'.entry dp k = fs.entry dp k := by
    unfold entry
    rw [direntAt_congr fun t small => elsewhere.bytes _ (by
      have within := isMap.directory.entry_small below
      omega)]
  have two := isMap.two
  refine ⟨⟨⟨elsewhere.owned, isMap.directory.inside,
    by rw [elsewhere.size]; exact isMap.directory.whole,
    by rw [elsewhere.size]; exact isMap.directory.limit⟩,
    elsewhere.type.trans isMap.isDir, ?_, ?_, ?_,
    ?_, fun k above below name ip isEntry => ?_⟩, ?_⟩
  · rw [count]
    exact isMap.unique.congr same
  · rwa [count]
  · rw [same 0 (by omega)]
    exact isMap.first
  · rw [same 1 (by omega)]
    exact isMap.second
  · rw [count] at below
    rw [same k below] at isEntry
    exact elsewhere.targets k above below name ip isEntry
  · unfold names
    rw [count]
    exact binding_congr same

theorem IsMap.scanned (isMap : IsMap sb fs dp) (scanned : Scanned sb D fs fs') :
    IsMap sb fs' dp ∧ fs'.names dp = fs.names dp := by
  refine isMap.elsewhere ⟨scanned.owned, scanned.type dp, scanned.size dp,
    scanned.bytes dp isMap.directory.inside, fun k above below name ip isEntry => ?_⟩
  unfold Target
  rw [scanned.type, scanned.size]
  exact isMap.targets k above below name ip isEntry

/-- An inode with whole entries keeps them when an entry of the directory is written. -/
theorem Stored.target {data : Nat → BitVec 8} {lo : Nat} (scanned : Scanned sb D fs fs₁)
    (stored : Stored sb fs₁ fs' dp lo data) (directory : Directory sb fs' dp)
    (target : Target sb fs ip) : Target sb fs' ip := by
  refine ⟨target.1, fun isDir => ?_⟩
  by_cases same : ip = dp
  · rw [same]
    exact ⟨directory.whole, directory.limit⟩
  · rw [stored.type, scanned.type] at isDir
    rw [stored.size, if_neg same, scanned.size]
    exact target.2 isDir

theorem IsMap.two_le_freeEntry (isMap : IsMap sb fs dp) : 2 ≤ fs.freeEntry dp := by
  obtain ⟨_, first⟩ := isMap.first
  obtain ⟨_, second⟩ := isMap.second
  have two := isMap.two
  have free := (firstFree_spec (fs.entry dp) (fs.entryCount dp)).2
  change fs.freeEntry dp < _ → fs.entry dp (fs.freeEntry dp) = none at free
  by_contra early
  have isFree := free (by omega)
  have cases : fs.freeEntry dp = 0 ∨ fs.freeEntry dp = 1 := by omega
  rcases cases with isFirst | isSecond
  · rw [isFirst, first] at isFree
    cases isFree
  · rw [isSecond, second] at isFree
    cases isFree

theorem freeEntry_free (fs : FileSystem) (dp : Nat) :
    fs.freeEntry dp < fs.entryCount dp → fs.entry dp (fs.freeEntry dp) = none :=
  (firstFree_spec (fs.entry dp) (fs.entryCount dp)).2

theorem names_linked (unique : Unique (fs.entry dp) (fs.entryCount dp))
    (absent : fs.names dp (nameOf name) = none)
    (count : fs'.entryCount dp = max (fs.entryCount dp) (fs.freeEntry dp + 1))
    (entries : ∀ k < fs'.entryCount dp, fs'.entry dp k =
      update (fs.entry dp) (fs.freeEntry dp) (some (nameOf name, inum)) k) :
    Unique (fs'.entry dp) (fs'.entryCount dp) ∧
      fs'.names dp = update (fs.names dp) (nameOf name) (some inum) := by
  have isFree := freeEntry_free fs dp
  have le := freeEntry_le fs dp
  refine ⟨?_, ?_⟩
  · refine Unique.congr ?_ entries
    rw [count]
    exact unique.put absent isFree le
  · unfold names
    rw [binding_congr entries, count]
    exact unique.binding_put absent isFree le

section

variable (isMap : IsMap sb fs dp) (scanned : Scanned sb D fs fs₁)

include isMap scanned

theorem IsMap.link (absent : fs.names dp (nameOf name) = none)
    (fits : 16 * fs.freeEntry dp + 16 ≤ MAXFILE * BSIZE)
    (stored : Stored sb fs₁ fs' dp (16 * fs.freeEntry dp)
      (direntBytes (BitVec.ofNat 16 inum) (strncpy name DIRSIZ 0))) (pos : 0 < inum)
    (small : inum < 2 ^ 16) (target : Target sb fs inum) :
    IsMap sb fs' dp ∧ fs'.names dp = update (fs.names dp) (nameOf name) (some inum) := by
  obtain ⟨directory, count, entries⟩ :=
    Stored.links isMap.directory scanned fits stored pos small
  obtain ⟨unique, names⟩ := names_linked isMap.unique absent count entries
  have behind := isMap.two_le_freeEntry
  have two := isMap.two
  have old k (below : k < fs'.entryCount dp) (other : k ≠ fs.freeEntry dp) :
      fs'.entry dp k = fs.entry dp k := by
    rw [entries k below, update_of_ne other]
  refine ⟨⟨directory, ?_, unique, by omega, ?_, ?_, fun k above below nm ip isEntry => ?_⟩, names⟩
  · rw [stored.type, scanned.type]
    exact isMap.isDir
  · rw [old 0 (by omega) (by omega)]
    exact isMap.first
  · rw [old 1 (by omega) (by omega)]
    exact isMap.second
  refine Stored.target scanned stored directory ?_
  by_cases same : k = fs.freeEntry dp
  · rw [entries k below, same, update_self] at isEntry
    cases isEntry
    exact target
  · rw [old k below same] at isEntry
    have le := freeEntry_le fs dp
    exact isMap.targets k above (by omega) nm ip isEntry

theorem IsMap.unlink (below : k < fs.entryCount dp)
    (isEntry : fs.entry dp k = some (nameOf name, ip)) (notDot : nameOf name ≠ dot)
    (notDotDot : nameOf name ≠ dotDot) (stored : Stored sb fs₁ fs' dp (16 * k) (direntBytes 0 [])) :
    IsMap sb fs' dp ∧ fs'.names dp = update (fs.names dp) (nameOf name) none := by
  obtain ⟨directory, count, entries⟩ := Stored.unlinks isMap.directory scanned below stored
  have behind := isMap.behind_dots isEntry notDot notDotDot
  have two := isMap.two
  refine ⟨⟨directory, ?_, ?_, by omega, ?_, ?_, fun l above small nm ip' isEntry' => ?_⟩, ?_⟩
  · rw [stored.type, scanned.type]
    exact isMap.isDir
  · refine Unique.congr ?_ entries
    rw [count]
    exact isMap.unique.clear k
  · rw [entries 0 (by omega), update_of_ne (by omega)]
    exact isMap.first
  · rw [entries 1 (by omega), update_of_ne (by omega)]
    exact isMap.second
  · rw [entries l small] at isEntry'
    rw [count] at small
    exact Stored.target scanned stored directory
      (isMap.targets l above small nm ip' (clear_eq.mp isEntry').2)
  · unfold names
    rw [binding_congr entries, count]
    exact isMap.unique.binding_clear below isEntry

end

/-! ## New directories -/

/-- A directory that `create` made: a new inode of type `T_DIR`, with `.` and `..`. -/
def Created (sb : Superblock) (fs : FileSystem) (dp : Nat) : Prop :=
  ∃ fs₀ parent, Owned sb fs₀ ∧ 0 < dp ∧ dp < sb.ninodes ∧ (fs₀.inode dp).type = .dir ∧
    (fs₀.inode dp).size = 0 ∧ 0 < parent ∧ parent < sb.ninodes ∧
    createDots sb fs₀ dp parent = .ok fs

theorem dirlink_ok (directory : Directory sb fs dp) (isDir : (fs.inode dp).type = .dir)
    (absent : fs.names dp (nameOf name) = none) {r : Int}
    (linked : dirlink sb fs dp name inum = .ok (r, fs')) :
    r = 0 ∧ 16 * fs.freeEntry dp + 16 ≤ MAXFILE * BSIZE ∧ ∃ fs₁, Scanned sb (· = dp) fs fs₁ ∧
      Stored sb fs₁ fs' dp (16 * fs.freeEntry dp)
        (direntBytes (BitVec.ofNat 16 inum) (strncpy name DIRSIZ 0)) := by
  rcases dirlink_spec directory isDir name inum with ⟨failed, -⟩ | ⟨there, -⟩ | ⟨-, added⟩
  · rw [failed] at linked
    cases linked
  · exact absurd absent there
  rcases added with ⟨failed, -⟩ | ⟨fits, fs₁, fs₂, ran, scanned, stored⟩
  · rw [failed] at linked
    cases linked
  · rw [ran] at linked
    cases linked
    exact ⟨rfl, fits, fs₁, scanned, stored⟩

theorem Created.isMap (inodes : sb.ninodes ≤ 65536) (created : Created sb fs dp) :
    IsMap sb fs dp := by
  obtain ⟨fs₀, parent, owned, pos, lt, isDir, empty, pos', lt', made⟩ := created
  have directory₀ : Directory sb fs₀ dp :=
    ⟨owned, lt, by rw [empty], by rw [empty]; exact Nat.zero_le _⟩
  have count₀ : fs₀.entryCount dp = 0 := by
    unfold entryCount
    rw [empty]
  have free₀ : fs₀.freeEntry dp = 0 := Nat.le_zero.mp (count₀ ▸ freeEntry_le fs₀ dp)
  have absent₀ : fs₀.names dp (nameOf (buffer dot)) = none := by
    unfold names
    rw [binding_eq_none, count₀]
    nofun
  have isDot : nameOf (buffer dot) = dot := by decide
  have isDotDot : nameOf (buffer dotDot) = dotDot := by decide
  unfold createDots at made
  split at made
  · cases made
  next r fs₁ linked =>
  obtain ⟨rfl, fits, fs₂, scanned, stored⟩ := dirlink_ok directory₀ isDir absent₀ linked
  obtain ⟨directory₁, count₁, entries₁⟩ :=
    Stored.links directory₀ scanned fits stored pos (by omega)
  obtain ⟨unique₁, names₁⟩ := names_linked (fun j below => by omega) absent₀ count₁ entries₁
  rw [count₀, free₀] at count₁
  have isFirst : fs₁.entry dp 0 = some (dot, dp) := by
    rw [entries₁ 0 (by omega), free₀, update_self, isDot]
  have isDir₁ : (fs₁.inode dp).type = .dir := by
    rw [stored.type, scanned.type]
    exact isDir
  have free₁ : fs₁.freeEntry dp = 1 := by
    have le := freeEntry_le fs₁ dp
    have isFree := freeEntry_free fs₁ dp
    by_contra other
    have zero : fs₁.freeEntry dp = 0 := by omega
    rw [zero, isFirst] at isFree
    exact absurd (isFree (by omega)) nofun
  have absent₁ : fs₁.names dp (nameOf (buffer dotDot)) = none := by
    rw [names₁, isDot, isDotDot, update_of_ne (by decide)]
    unfold names
    rw [binding_eq_none, count₀]
    nofun
  rw [if_neg (by decide)] at made
  split at made
  · cases made
  next r' fs₃ linked' =>
  obtain ⟨rfl, fits', fs₄, scanned', stored'⟩ := dirlink_ok directory₁ isDir₁ absent₁ linked'
  rw [if_neg (by decide)] at made
  cases made
  obtain ⟨directory, count, entries⟩ :=
    Stored.links directory₁ scanned' fits' stored' pos' (by omega)
  obtain ⟨unique, -⟩ := names_linked unique₁ absent₁ count entries
  rw [count₁, free₁] at count
  refine ⟨directory, ?_, unique, by omega, ⟨dp, ?_⟩, ⟨parent, ?_⟩, fun k above below => by omega⟩
  · rw [stored'.type, scanned'.type]
    exact isDir₁
  · rw [entries 0 (by omega), free₁, update_of_ne (by decide)]
    exact isFirst
  · rw [entries 1 (by omega), free₁, update_self, isDotDot]

/-! ## The root directory of an image -/

/-- A root directory that `mkfs` made, in which no two names have the same first bytes. -/
def MkfsRoot (sb : Superblock) (fs : FileSystem) (dp : Nat) : Prop :=
  ∃ inputs m, Mkfs.Fits inputs ∧
    ((Mkfs.entries inputs).map fun entry => entry.2.take DIRSIZ).Nodup ∧
    Mkfs.main inputs = .ok m ∧ sb = Mkfs.layout ∧ fs = mount Mkfs.layout m.disk ∧ dp = ROOTINO

section Root

variable {inputs : List Mkfs.Input} {disk : Nat → Library.ByteWords.Bytes} {nm : List (BitVec 8)}

theorem zero_not_mem_entries {entry : Nat × List (BitVec 8)} (isIn : entry ∈ Mkfs.entries inputs) :
    0 ∉ entry.2 := by
  unfold Mkfs.entries at isIn
  rcases mem_cons.mp isIn with rfl | isIn
  · decide
  rcases mem_cons.mp isIn with rfl | isIn
  · decide
  obtain ⟨⟨input, k⟩, -, rfl⟩ := mem_map.mp isIn
  exact fun bad => input.string (Mkfs.mem_of_mem_shortname (Mkfs.mem_of_mem_storedName bad))

/-- The entries that `mkfs` wrote, and behind them free ones. -/
theorem root_entry (built : Mkfs.Built disk inputs) (inodes : inputs.length + 1 < Mkfs.NINODES)
    (below : k < (mount Mkfs.layout disk).entryCount ROOTINO) :
    (mount Mkfs.layout disk).entry ROOTINO k =
      (Mkfs.entries inputs)[k]?.map fun entry => (entry.2.take DIRSIZ, entry.1) := by
  have few : inputs.length + 1 < 200 := inodes
  have length := Mkfs.rootBytes_length inputs
  have bound : 16 * k + 16 ≤ MAXFILE * BSIZE := by
    unfold entryCount at below
    rw [built.size, length] at below
    unfold MAXFILE NDIRECT NINDIRECT BSIZE
    unfold BSIZE at below
    omega
  have bytes t (small : t < 16) : (mount Mkfs.layout disk).byte ROOTINO (16 * k + t) =
      (Mkfs.rootBytes inputs).getD (16 * k + t) 0 := built.bytes _ (by omega)
  unfold entry
  cases isEntry : (Mkfs.entries inputs)[k]? with
  | none =>
    have beyond : (Mkfs.entries inputs).length ≤ k := getElem?_eq_none_iff.mp isEntry
    rw [Mkfs.entries_length] at beyond
    have zeros : (mount Mkfs.layout disk).direntAt ROOTINO k = (range 16).map fun _ => 0 := by
      refine map_congr_left fun t isIn => ?_
      rw [bytes t (mem_range.mp isIn), getD_eq_default _ _ (by omega)]
    rw [zeros]
    rfl
  | some entry =>
    obtain ⟨inum, nm⟩ := entry
    have isIn := mem_of_getElem? isEntry
    have isDirent : (mount Mkfs.layout disk).direntAt ROOTINO k =
        (range 16).map (Mkfs.dirent inum nm) := by
      refine map_congr_left fun t isIn => ?_
      have small := mem_range.mp isIn
      rw [bytes t small, Mkfs.rootBytes_eq, Mkfs.flatMap_entryBytes _ isEntry small]
    obtain ⟨pos, small⟩ := (built.lists inodes).inums _ isIn
    have isInum : direntInum ((range 16).map (Mkfs.dirent inum nm)) = inum :=
      Mkfs.inum_bytes small
    have isName : nameOf (direntName ((range 16).map (Mkfs.dirent inum nm))) =
        nm.take DIRSIZ := by
      refine HoldsName.nameOf_eq (fun t early _ => ?_) (zero_not_mem_entries isIn)
      have within : t + 2 < 16 := Nat.add_lt_add_right early 2
      unfold direntName
      rw [getD_eq_getElem?_getD, getElem?_map, getElem?_range within]
      exact if_pos early
    rw [isDirent]
    unfold entryOf
    rw [isInum, isName, if_neg (by omega)]
    rfl

theorem MkfsRoot.isMap (root : MkfsRoot sb fs dp) : IsMap sb fs dp := by
  obtain ⟨inputs, m, fits, distinct, ran, rfl, rfl, rfl⟩ := root
  obtain ⟨built⟩ : Nonempty (Mkfs.Built m.disk inputs) := by
    rcases Mkfs.main_spec fits with ⟨-, stopped⟩ | ⟨-, m', ran', built⟩
    · rw [stopped] at ran
      cases ran
    · rw [ran'] at ran
      cases ran
      exact ⟨built⟩
  have few : inputs.length + 1 < 200 := fits.inodes
  have length := Mkfs.rootBytes_length inputs
  have size := built.size
  rw [length] at size
  have entries {k} (below : k < (mount Mkfs.layout m.disk).entryCount ROOTINO) :=
    root_entry built fits.inodes below
  have count : inputs.length + 2 ≤ (mount Mkfs.layout m.disk).entryCount ROOTINO := by
    unfold entryCount
    rw [size]
    unfold BSIZE
    omega
  refine ⟨⟨built.owned, by decide, by rw [size]; unfold BSIZE; omega, ?_⟩, built.type, ?_, by omega,
    ⟨ROOTINO, ?_⟩, ⟨ROOTINO, ?_⟩, fun k above below nm ip isEntry => ?_⟩
  · rw [size]
    unfold MAXFILE NDIRECT NINDIRECT BSIZE
    omega
  · intro j below j' below' key v v' isEntry isEntry'
    rw [entries below, map_eq_some_iff] at isEntry
    rw [entries below', map_eq_some_iff] at isEntry'
    obtain ⟨entry, isAt, same⟩ := isEntry
    obtain ⟨entry', isAt', same'⟩ := isEntry'
    obtain ⟨lt, -⟩ := List.getElem?_eq_some_iff.mp isAt
    refine (List.getElem?_inj (by rwa [length_map]) distinct).mp ?_
    rw [List.getElem?_map, List.getElem?_map, isAt, isAt']
    exact congrArg some ((congrArg Prod.fst same).trans (congrArg Prod.fst same').symm)
  · rw [entries (by omega)]
    rfl
  · rw [entries (by omega)]
    rfl
  · rw [entries below, map_eq_some_iff] at isEntry
    obtain ⟨entry, isAt, same⟩ := isEntry
    obtain ⟨lt, -⟩ := List.getElem?_eq_some_iff.mp isAt
    rw [Mkfs.entries_length] at lt
    obtain ⟨input, isInput⟩ : ∃ input, inputs[k - 2]? = some input :=
      ⟨_, getElem?_eq_getElem (by omega)⟩
    have isFile := Mkfs.entries_input isInput
    rw [Nat.sub_add_cancel above, isAt] at isFile
    cases isFile
    cases same
    refine ⟨show k < 200 by omega, fun isDir => ?_⟩
    have type := (built.files (k - 2) input isInput).type
    rw [Nat.sub_add_cancel above] at type
    rw [type] at isDir
    cases isDir

end Root

/-! ## Sequences of operations -/

/-- `dirlink` and `sys_unlink` in the directory, and what the other calls do. -/
inductive DirEvent where
  | link (name : Nat → BitVec 8) (inum : Nat)
  | unlink (name : Nat → BitVec 8)
  | elsewhere (fs : FileSystem)

def dirStep (sb : Superblock) (dp : Nat) (fs : FileSystem) :
    DirEvent → Except CallPanic FileSystem
  | .link name inum => (dirlink sb fs dp name inum).map Prod.snd
  | .unlink name => (unlinkEntry sb fs dp name).map Prod.snd
  | .elsewhere fs' => .ok fs'

/-- `dirlink` gets the number of an inode and stays below the maximal size; the other calls leave
the directory alone. -/
def Allowed (sb : Superblock) (dp : Nat) (fs : FileSystem) : DirEvent → Prop
  | .link _ inum => 0 < inum ∧ Target sb fs inum ∧ 16 * fs.freeEntry dp + 16 ≤ MAXFILE * BSIZE
  | .unlink _ => True
  | .elsewhere fs' => Elsewhere sb dp fs fs'

/-- The panics that can end a sequence: a full disk, and those for a broken inode of an entry. -/
def PanicElsewhere (panic : CallPanic) : Prop :=
  panic = .lookup (.file .balloc) ∨ panic = .lookup .noType ∨ panic = .unlinkNlink

/-- `dirlink` refuses a name that is there, and adds exactly one that is not. -/
def LinkOutcome (fs fs' : FileSystem) (dp : Nat) (name : List (BitVec 8)) (inum : Nat) (r : Int) :
    Prop :=
  fs.names dp name ≠ none ∧ r = -1 ∧ fs'.names dp = fs.names dp ∨ fs.names dp name = none ∧ r = 0 ∧
      fs'.names dp = update (fs.names dp) name (some inum)

/-- `sys_unlink` removes exactly the name, or leaves all names: `.` and `..`, a name that is not
there, and that of a directory with other entries are not removed. -/
def UnlinkOutcome (fs fs' : FileSystem) (dp : Nat) (name : List (BitVec 8))
    (removed : Option Nat) : Prop :=
  removed = none ∧ fs'.names dp = fs.names dp ∧
      (name = dot ∨ name = dotDot ∨ fs.names dp name = none ∨
        ∃ ip, fs.names dp name = some ip ∧ (fs.inode ip).type = .dir ∧
          ∃ k, 2 ≤ k ∧ k < fs.entryCount ip ∧ fs.entry ip k ≠ none) ∨
    removed ≠ none ∧ removed = fs.names dp name ∧ fs'.names dp = update (fs.names dp) name none

theorem IsMap.dirlink (inodes : sb.ninodes ≤ 65536) (isMap : IsMap sb fs dp)
    (name : Nat → BitVec 8) (allowed : Allowed sb dp fs (.link name inum)) :
    (dirlink sb fs dp name inum = .error (.lookup (.file .balloc)) ∧
        (fs.NoHoles dp → freeCount sb fs < 2)) ∨
      ∃ r fs', dirlink sb fs dp name inum = .ok (r, fs') ∧ IsMap sb fs' dp ∧
        LinkOutcome fs fs' dp (nameOf name) inum r := by
  obtain ⟨pos, target, fits⟩ := allowed
  rcases dirlink_spec isMap.directory isMap.isDir name inum with
    failed | ⟨there, fs', ran, scanned⟩ | ⟨absent, added⟩
  · exact .inl failed
  · obtain ⟨isMap', same⟩ := isMap.scanned scanned
    exact .inr ⟨-1, fs', ran, isMap', .inl ⟨there, rfl, same⟩⟩
  rcases added with ⟨-, full⟩ | ⟨-, fs₁, fs', ran, scanned, stored⟩
  · omega
  · have small := target.1
    obtain ⟨isMap', names⟩ := isMap.link scanned absent fits stored pos (by omega) target
    exact .inr ⟨0, fs', ran, isMap', .inr ⟨absent, rfl, names⟩⟩

theorem IsMap.unlinkEntry (isMap : IsMap sb fs dp) (name : Nat → BitVec 8) :
    (∃ panic, unlinkEntry sb fs dp name = .error panic ∧ PanicElsewhere panic) ∨
      ∃ removed fs', unlinkEntry sb fs dp name = .ok (removed, fs') ∧ IsMap sb fs' dp ∧
        UnlinkOutcome fs fs' dp (nameOf name) removed := by
  rcases unlinkEntry_spec isMap.directory isMap.isDir name (isMap.target name) with
    ⟨failed, -⟩ | ⟨ip, -, failed | failed⟩ | ⟨fs', ran, scanned, why⟩ |
      ⟨k, ip, fs₁, fs', below, isEntry, isName, notDot, notDotDot, ran, scanned, stored⟩
  · exact .inl ⟨_, failed, .inl rfl⟩
  · exact .inl ⟨_, failed.1, .inr (.inl rfl)⟩
  · exact .inl ⟨_, failed.1, .inr (.inr rfl)⟩
  · obtain ⟨isMap', same⟩ := isMap.scanned scanned
    exact .inr ⟨none, fs', ran, isMap', .inl ⟨rfl, same, why⟩⟩
  · obtain ⟨isMap', names⟩ := isMap.unlink scanned below isEntry notDot notDotDot stored
    exact .inr ⟨some ip, fs', ran, isMap', .inr ⟨nofun, isName.symm, names⟩⟩

/-- Each operation keeps the invariant, or panics elsewhere. -/
theorem dirStep_isMap (inodes : sb.ninodes ≤ 65536) (isMap : IsMap sb fs dp) {event : DirEvent}
    (allowed : Allowed sb dp fs event) :
    (∃ fs', dirStep sb dp fs event = .ok fs' ∧ IsMap sb fs' dp) ∨
      ∃ panic, dirStep sb dp fs event = .error panic ∧ PanicElsewhere panic := by
  cases event with
  | link name inum =>
    rcases isMap.dirlink inodes name allowed with ⟨failed, -⟩ | ⟨r, fs', ran, isMap', -⟩
    · refine .inr ⟨_, ?_, .inl rfl⟩
      rw [dirStep, failed]
      rfl
    · refine .inl ⟨fs', ?_, isMap'⟩
      rw [dirStep, ran]
      rfl
  | unlink name =>
    rcases isMap.unlinkEntry name with ⟨panic, failed, elsewhere⟩ | ⟨removed, fs', ran, isMap', -⟩
    · refine .inr ⟨panic, ?_, elsewhere⟩
      rw [dirStep, failed]
      rfl
    · refine .inl ⟨fs', ?_, isMap'⟩
      rw [dirStep, ran]
      rfl
  | elsewhere fs' => exact .inl ⟨fs', rfl, (isMap.elsewhere allowed).1⟩

/-- `dirlookup` returns the inode number and the offset of the entry with the name. -/
def LooksUp (sb : Superblock) (fs : FileSystem) (dp : Nat) (name : Nat → BitVec 8) : Prop :=
  (dirlookup sb fs dp name = .error (.file .balloc) ∧ ¬fs.NoHoles dp) ∨
    ∃ found fs', dirlookup sb fs dp name = .ok (found, fs') ∧ fs'.names dp = fs.names dp ∧
      ∀ ip off, found = some (ip, off) ↔
        ∃ k < fs.entryCount dp, off = 16 * k ∧ fs.entry dp k = some (nameOf name, ip)

/-- `isdirempty` tells whether there is another name than `.` and `..`. -/
def TellsEmpty (sb : Superblock) (fs : FileSystem) (dp : Nat) : Prop :=
  (isdirempty sb fs dp = .error (.lookup (.file .balloc)) ∧ ¬fs.NoHoles dp) ∨
    ∃ empty fs', isdirempty sb fs dp = .ok (empty, fs') ∧ fs'.names dp = fs.names dp ∧
      (empty = true ↔ ∀ nm, fs.names dp nm ≠ none → nm = dot ∨ nm = dotDot)

theorem IsMap.looksUp (isMap : IsMap sb fs dp) (name : Nat → BitVec 8) : LooksUp sb fs dp name := by
  rcases dirlookup_spec isMap.directory isMap.isDir name with failed | ⟨fs', ran, scanned⟩
  · exact .inl failed
  refine .inr ⟨_, fs', ran, scanned.names isMap.directory, fun ip off => ?_⟩
  rw [map_eq_some_iff]
  constructor
  · rintro ⟨⟨k, ip'⟩, found, same⟩
    cases same
    obtain ⟨below, isEntry⟩ := find_some found
    exact ⟨k, below, rfl, isEntry⟩
  · rintro ⟨k, below, rfl, isEntry⟩
    exact ⟨(k, ip), isMap.unique.find_eq_some.mpr ⟨below, isEntry⟩, rfl⟩

theorem IsMap.tellsEmpty (isMap : IsMap sb fs dp) : TellsEmpty sb fs dp := by
  rcases isdirempty_spec isMap.directory with failed | ⟨empty, fs', ran, isEmpty, scanned⟩
  · exact .inl failed
  refine .inr ⟨empty, fs', ran, scanned.names isMap.directory, isEmpty.trans ?_⟩
  obtain ⟨_, first⟩ := isMap.first
  obtain ⟨_, second⟩ := isMap.second
  have two := isMap.two
  constructor
  · intro none nm there
    by_contra other
    obtain ⟨notDot, notDotDot⟩ := not_or.mp other
    refine there (binding_eq_none.mpr fun k below ip isEntry => ?_)
    have behind := isMap.behind_dots isEntry notDot notDotDot
    rw [none k behind below] at isEntry
    cases isEntry
  · intro dots k above below
    cases isEntry : fs.entry dp k with
    | none => rfl
    | some entry =>
      obtain ⟨nm, ip⟩ := entry
      have there : fs.names dp nm ≠ none := fun absent =>
        binding_eq_none.mp absent k below ip isEntry
      rcases dots nm there with rfl | rfl
      · have same := isMap.unique 0 (by omega) k below _ _ _ first isEntry
        omega
      · have same := isMap.unique 1 (by omega) k below _ _ _ second isEntry
        omega

/-- A directory that `create` or `mkfs` made is a finite map after any sequence of `dirlink`,
below the maximal size, and `sys_unlink`: no name occurs twice, the first two entries are `.` and
`..`, `dirlookup` finds exactly the names that are there, `dirlink` adds one name or refuses one
that is there, `sys_unlink` removes one name or none, and `isdirempty` tells whether there are
others than `.` and `..`.  Calls end in a panic only for a full disk or a broken target. -/
theorem directories_are_maps (inodes : sb.ninodes ≤ 65536) {fs₀ : FileSystem}
    (made : Created sb fs₀ dp ∨ MkfsRoot sb fs₀ dp) (events : List DirEvent)
    (allowed : Meets (dirStep sb dp) (Allowed sb dp) fs₀ events) :
    (∃ panic, run (dirStep sb dp) fs₀ events = .error panic ∧ PanicElsewhere panic) ∨
      ∃ fs, run (dirStep sb dp) fs₀ events = .ok fs ∧ (fs.inode dp).size % 16 = 0 ∧
        (∀ j < fs.entryCount dp, ∀ k < fs.entryCount dp, ∀ name ip ip',
          fs.entry dp j = some (name, ip) → fs.entry dp k = some (name, ip') → j = k) ∧
        (∃ ip, fs.entry dp 0 = some (dot, ip)) ∧ (∃ ip, fs.entry dp 1 = some (dotDot, ip)) ∧
        (∀ name, LooksUp sb fs dp name) ∧ TellsEmpty sb fs dp ∧
        (∀ name inum, Allowed sb dp fs (.link name inum) →
          (dirlink sb fs dp name inum = .error (.lookup (.file .balloc)) ∧
            (fs.NoHoles dp → freeCount sb fs < 2)) ∨
          ∃ r fs', dirlink sb fs dp name inum = .ok (r, fs') ∧
            LinkOutcome fs fs' dp (nameOf name) inum r) ∧
        (∀ name, (∃ panic, unlinkEntry sb fs dp name = .error panic ∧ PanicElsewhere panic) ∨
          ∃ removed fs', unlinkEntry sb fs dp name = .ok (removed, fs') ∧
            UnlinkOutcome fs fs' dp (nameOf name) removed) := by
  have start : IsMap sb fs₀ dp := made.elim (Created.isMap inodes) MkfsRoot.isMap
  have stable fs event isMap
      (here : Allowed sb dp fs event) := dirStep_isMap inodes isMap here
  rcases run_outcome stable start allowed with ⟨fs, ran, isMap⟩ | panicked
  · refine .inr ⟨fs, ran, isMap.directory.whole, isMap.unique, isMap.first, isMap.second,
      isMap.looksUp, isMap.tellsEmpty, fun name inum here => ?_, fun name => ?_⟩
    · rcases isMap.dirlink inodes name here with failed | ⟨r, fs', linked, -, outcome⟩
      · exact .inl failed
      · exact .inr ⟨r, fs', linked, outcome⟩
    · rcases isMap.unlinkEntry name with failed | ⟨removed, fs', unlinked, -, outcome⟩
      · exact .inl failed
      · exact .inr ⟨removed, fs', unlinked, outcome⟩
  · exact .inl panicked

def newDirectory : FileSystem :=
  (oneBlockFile (fun _ => 7) 1020).setInode 3 { Dinode.zero with type := .dir, nlink := 1 }

/-- `create` fills it, and a name is added. -/
theorem directories_are_maps_new : ∃ fs₀, Created disk64 fs₀ 3 ∧
    ∃ fs, run (dirStep disk64 3) fs₀ [.link (buffer [97]) 1, .unlink (buffer [97])] = .ok fs ∧
      ∃ ip, fs.entry 3 1 = some (dotDot, ip) := by
  have runs : ((createDots disk64 newDirectory 3 1).bind fun fs =>
      run (dirStep disk64 3) fs [.link (buffer [97]) 1, .unlink (buffer [97])]).isOk = true ∧
      (createDots disk64 newDirectory 3 1).map (fun fs => decide ((fs.inode 1).type ≠ .dir ∧
        16 * fs.freeEntry 3 + 16 ≤ MAXFILE * BSIZE)) = .ok true := by decide +kernel
  obtain ⟨fs₀, made, isSmall⟩ := of_map_eq_ok runs.2
  obtain ⟨isFile, fits⟩ := of_decide_eq_true isSmall
  have owned : Owned disk64 newDirectory := by
    unfold newDirectory
    refine (setInode_same disk64 ?_).owned (oneBlockFile_owned _ _)
    rfl
  have created : Created disk64 fs₀ 3 :=
    ⟨newDirectory, 1, owned, by decide, by decide, rfl, rfl, by decide, by decide, made⟩
  refine ⟨fs₀, created, ?_⟩
  rcases directories_are_maps (by decide) (.inl created)
    [.link (buffer [97]) 1, .unlink (buffer [97])]
    ⟨⟨by decide, ⟨by decide, fun isDir => absurd isDir isFile⟩, fits⟩, fun _ _ =>
      ⟨True.intro, fun _ _ => True.intro⟩⟩ with ⟨panic, failed, -⟩ | ⟨fs, ran, -, -, -, second, -⟩
  · have isOk := runs.1
    rw [made] at isOk
    change (run (dirStep disk64 3) fs₀ _).isOk = true at isOk
    rw [failed] at isOk
    cases isOk
  · exact ⟨fs, ran, second⟩

end Xv6Rv32im.Fs
