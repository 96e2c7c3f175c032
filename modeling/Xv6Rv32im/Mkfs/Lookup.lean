import Xv6Rv32im.Fs.Names
import Xv6Rv32im.Mkfs.Main

/-!
# The kernel finds the files of an image

`dirlookup` scans the entries in the order in which `mkfs` appended them.  All of them lie before
the part of the root directory that only its rounded size covers.
-/

namespace Xv6Rv32im.Mkfs

open Fs Fs.FileSystem Library.ByteWords List

/-! ## Names -/

variable {path : List (BitVec 8)}

/-- The name that `skipelem` copies from a path with one element. -/
theorem skipelem_single {name : List (BitVec 8)} (plain : slash ∉ name) (nonempty : name ≠ [])
    (buffer : Nat → BitVec 8) (isPath : path = name ∨ path = slash :: name) :
    ∃ p, skipelem path buffer = some (p, []) ∧ HoldsName p name := by
  have stripped : name.dropWhile (· == slash) = name := by
    cases name with
    | nil => rfl
    | cons c rest =>
      have other : (c == slash) = false := by
        rw [beq_eq_false_iff_ne]
        rintro rfl
        exact plain mem_cons_self
      rw [dropWhile_cons, other]
      rfl
  have whole : name.takeWhile (· != slash) = name := by
    rw [takeWhile_eq_self_iff]
    intro c isIn
    rw [bne_iff_ne]
    rintro rfl
    exact plain isIn
  have leading : path.dropWhile (· == slash) = name := by
    rcases isPath with rfl | rfl
    · exact stripped
    · rw [dropWhile_cons, if_pos (beq_self_eq_true slash), stripped]
  unfold skipelem
  dsimp only
  rw [leading, if_neg nonempty, whole, drop_length]
  refine ⟨_, rfl, fun t small within => ?_⟩
  by_cases early : t < name.length
  · rw [if_pos (by omega)]
  · rw [if_neg (by omega), if_pos ⟨by omega, by omega⟩, getD_eq_default _ _ (not_lt.mp early)]

/-! ## The entries of the root directory -/

/-- The entries in the order in which `main` appends them. -/
def entries (inputs : List Input) : List (Nat × List (BitVec 8)) :=
  (ROOTINO, dot) :: (ROOTINO, dotDot) ::
    inputs.zipIdx.map fun input => (input.2 + 2, storedName input.1.path)

theorem rootBytes_eq (inputs : List Input) :
    rootBytes inputs = (entries inputs).flatMap fun entry => entryBytes entry.1 entry.2 := by
  unfold rootBytes entries
  rw [flatMap_cons, flatMap_cons, flatMap_map, append_assoc]

theorem flatMap_entryBytes (list : List (Nat × List (BitVec 8))) {k t : Nat}
    {entry : Nat × List (BitVec 8)} (isEntry : list[k]? = some entry) (small : t < 16) :
    (list.flatMap fun entry => entryBytes entry.1 entry.2).getD (16 * k + t) 0 =
      dirent entry.1 entry.2 t := by
  induction list generalizing k with
  | nil => cases isEntry
  | cons head tail ih =>
    have length := entryBytes_length head.1 head.2
    rw [flatMap_cons]
    cases k with
    | zero =>
      cases isEntry
      rw [getD_append _ _ _ _ (by omega)]
      unfold entryBytes
      rw [getD_eq_getElem?_getD, getElem?_map, getElem?_range (by omega)]
      change dirent _ _ (16 * 0 + t) = _
      rw [Nat.mul_zero, zero_add]
    | succ k =>
      rw [getD_append_right _ _ _ _ (by omega), length,
        show 16 * (k + 1) + t - 16 = 16 * k + t by omega]
      exact ih isEntry

theorem inum_bytes {inum : Nat} (small : inum < 2 ^ 16) :
    (BitVec.ofNat 8 (inum / 256) ++ BitVec.ofNat 8 inum).toNat = inum := by
  rw [BitVec.toNat_append, BitVec.toNat_ofNat, BitVec.toNat_ofNat,
    ← Nat.shiftLeft_add_eq_or_of_lt (Nat.mod_lt _ (by decide)), Nat.shiftLeft_eq]
  omega

variable {fs : FileSystem} {dp q inum : Nat} {list : List (Nat × List (BitVec 8))}
  {name nm : List (BitVec 8)} {p : Nat → BitVec 8}

/-- A directory with some entries, which may be followed by others. -/
structure Lists (fs : FileSystem) (dp : Nat) (list : List (Nat × List (BitVec 8))) : Prop where
  limit : 16 * list.length ≤ MAXFILE * BSIZE
  size : 16 * list.length ≤ (fs.inode dp).size
  blocks : ∀ bn, bn * BSIZE < 16 * list.length → fs.view dp bn ≠ none
  inums : ∀ entry ∈ list, 0 < entry.1 ∧ entry.1 < 2 ^ 16
  bytes : ∀ k entry, list[k]? = some entry → ∀ t < 16,
    fs.byte dp (16 * k + t) = dirent entry.1 entry.2 t

section

variable (lists : Lists fs dp list) (owned : Owned layout fs) (lt : dp < NINODES)

include lists owned lt

theorem scanFrom_round {k rounds : Nat} (isEntry : list[k]? = some (inum, nm)) :
    scanFrom layout dp (visitName p) LookupPanic.file .read (rounds + 1) fs (16 * k) =
      if namecmp p (fun t => dirent inum nm (t + 2)) = 0 then .ok ((some inum, 16 * k), fs)
      else scanFrom layout dp (visitName p) LookupPanic.file .read rounds fs (16 * (k + 1)) := by
  obtain ⟨isIndex, -⟩ := List.getElem?_eq_some_iff.mp isEntry
  have limit := lists.limit
  have size := lists.size
  have offset : (BitVec.ofNat 32 (16 * k)).toNat = 16 * k := by
    rw [BitVec.toNat_ofNat]
    refine Nat.mod_eq_of_lt (lt_of_lt_of_le (lt_of_lt_of_le ?_ limit) (by decide))
    omega
  have count : (16 : BitVec 32).toNat = 16 := rfl
  have isRead := readi_inside owned lt limit lists.blocks
    (BitVec.ofNat 32 _) 16 (by rw [offset, count]; omega)
    (by rw [offset, count]; omega)
  rw [offset, count] at isRead
  have bytes t : ((range 16).map fun t => fs.byte dp (16 * k + t)).getD t 0 =
      if t < 16 then dirent inum nm t else 0 := by
    rw [getD_eq_getElem?_getD, getElem?_map]
    by_cases small : t < 16
    · rw [getElem?_range small, if_pos small, ← lists.bytes k _ isEntry t small]
      rfl
    · rw [getElem?_eq_none (by rw [length_range]; omega), if_neg small]
      rfl
  have isName : direntName ((range 16).map fun t => fs.byte dp (16 * k + t)) =
      fun t => dirent inum nm (t + 2) := by
    funext t
    rw [direntName, bytes]
    split
    · rfl
    next beyond =>
      change 0 = if t < DIRSIZ then nm.getD t 0 else 0
      rw [if_neg (by unfold DIRSIZ; omega)]
  obtain ⟨pos, small⟩ := lists.inums _ (mem_of_getElem? isEntry)
  have isInum : direntInum ((range 16).map fun t => fs.byte dp (16 * k + t)) = inum := by
    rw [direntInum, bytes, bytes]
    exact inum_bytes small
  rw [scanFrom, if_pos (by omega), isRead]
  dsimp only
  rw [if_neg (by decide), visitName, isInum, if_neg (Nat.ne_of_gt pos), isName]
  by_cases same : namecmp p (fun t => dirent inum nm (t + 2)) = 0
  · rw [if_pos same, if_pos same]
  · rw [if_neg same, if_neg same]
    rfl

theorem scanFrom_finds (isEntry : list[q]? = some (inum, nm))
    (same : namecmp p (fun t => dirent inum nm (t + 2)) = 0)
    (first : ∀ k < q, ∀ entry, list[k]? = some entry →
      namecmp p (fun t => dirent entry.1 entry.2 (t + 2)) ≠ 0) {k rounds : Nat} (pre : k ≤ q)
    (enough : q < k + rounds) :
    scanFrom layout dp (visitName p) LookupPanic.file .read rounds fs (16 * k) =
      .ok ((some inum, 16 * q), fs) := by
  induction rounds generalizing k with
  | zero => omega
  | succ rounds ih =>
    rcases Nat.lt_or_eq_of_le pre with earlier | rfl
    · obtain ⟨isIndex, -⟩ := List.getElem?_eq_some_iff.mp isEntry
      obtain ⟨⟨inum', nm'⟩, other⟩ : ∃ entry, list[k]? = some entry :=
        ⟨_, List.getElem?_eq_getElem (by omega)⟩
      rw [scanFrom_round lists owned lt other, if_neg (first k earlier _ other)]
      exact ih earlier (by omega)
    · rw [scanFrom_round lists owned lt isEntry, if_pos same]

end

/-! ## The files of the image -/

variable {inputs : List Input} {input : Input} {disk : Nat → Bytes}

/-- The stored names are not empty and differ for the kernel from one another, from `.` and from
`..`. -/
structure Named (inputs : List Input) : Prop where
  nonempty : ∀ input ∈ inputs, storedName input.path ≠ []
  distinct : inputs.Pairwise fun first second =>
    (storedName first.path).take DIRSIZ ≠ (storedName second.path).take DIRSIZ
  notDot : ∀ input ∈ inputs, (storedName input.path).take DIRSIZ ≠ dot ∧
    (storedName input.path).take DIRSIZ ≠ dotDot

theorem mem_of_mem_shortname {c : BitVec 8} (isIn : c ∈ shortname path) : c ∈ path := by
  unfold shortname at isIn
  split at isIn
  · exact mem_of_mem_drop isIn
  · exact isIn

theorem mem_of_mem_storedName {c : BitVec 8} (isIn : c ∈ storedName path) : c ∈ shortname path := by
  unfold storedName at isIn
  cases split : shortname path with
  | nil =>
    rw [split] at isIn
    exact isIn
  | cons first rest =>
    rw [split] at isIn
    dsimp only at isIn
    split at isIn
    · exact mem_cons_of_mem _ isIn
    · exact isIn

theorem entries_length (inputs : List Input) : (entries inputs).length = inputs.length + 2 := by
  unfold entries
  rw [length_cons, length_cons, length_map, length_zipIdx]

theorem entries_input {k : Nat} (isInput : inputs[k]? = some input) :
    (entries inputs)[k + 2]? = some (k + 2, storedName input.path) := by
  unfold entries
  rw [getElem?_cons_succ, getElem?_cons_succ, getElem?_map, getElem?_zipIdx,
    isInput]
  simp

section

variable (built : Built disk inputs) (count : inputs.length + 1 < NINODES)

include built count

theorem Built.lists : Lists (mount layout disk) ROOTINO (entries inputs) := by
  have length := rootBytes_length inputs
  have number := entries_length inputs
  have inodes : inputs.length + 1 < 200 := count
  refine ⟨?_, ?_, fun bn below absent => ?_, fun entry isIn => ?_,
    fun k entry isEntry t small => ?_⟩
  · rw [number]
    unfold MAXFILE NDIRECT NINDIRECT BSIZE
    omega
  · rw [number, built.size, length]
    unfold BSIZE
    omega
  · rw [number, ← length] at below
    have isBlock : bn < MAXFILE := by
      rw [length] at below
      unfold MAXFILE NDIRECT NINDIRECT
      unfold BSIZE at below
      omega
    rw [view_eq_none, built.packed.data bn isBlock] at absent
    omega
  · unfold entries at isIn
    rcases mem_cons.mp isIn with rfl | isIn
    · decide
    rcases mem_cons.mp isIn with rfl | isIn
    · decide
    obtain ⟨⟨input, k⟩, isPair, rfl⟩ := mem_map.mp isIn
    have isIndex := (mem_zipIdx isPair).2.1
    change 0 < k + 2 ∧ k + 2 < 2 ^ 16
    omega
  · have isIndex := (List.getElem?_eq_some_iff.mp isEntry).1
    have bound : 16 * k + t < MAXFILE * BSIZE := by
      unfold MAXFILE NDIRECT NINDIRECT BSIZE
      omega
    rw [built.bytes _ bound, rootBytes_eq, flatMap_entryBytes _ isEntry small]

theorem Built.namei_finds (plain : ∀ input ∈ inputs, slash ∉ shortname input.path)
    (named : Named inputs) (isInput : inputs[q]? = some input) (buffer : Nat → BitVec 8) {cwd : Nat}
    (isPath : path = storedName input.path ∧ cwd = ROOTINO ∨
      path = slash :: storedName input.path) :
    namei layout (mount layout disk) cwd path buffer = .ok (some (q + 2), mount layout disk) := by
  have isIn := mem_of_getElem? isInput
  have nonempty := named.nonempty input isIn
  have plainName : slash ∉ storedName input.path := fun bad =>
    plain input isIn (mem_of_mem_storedName bad)
  have string (input : Input) : 0 ∉ storedName input.path := fun bad =>
    input.string (mem_of_mem_shortname (mem_of_mem_storedName bad))
  have holdsName inum nm :
      HoldsName (fun t => dirent inum nm (t + 2)) nm := fun t small _ => if_pos small
  obtain ⟨p, skipped, isName⟩ := skipelem_single plainName nonempty buffer (isPath.imp And.left id)
  have start : startOf cwd path = ROOTINO := by
    rcases isPath with ⟨-, rfl⟩ | rfl
    · exact ite_self _
    · exact if_pos rfl
  have lists := built.lists count
  have isIndex := (List.getElem?_eq_some_iff.mp isInput).1
  -- No earlier entry has the name.
  have first (k : Nat) (earlier : k < q + 2) (entry : Nat × List (BitVec 8))
      (isEntry : (entries inputs)[k]? = some entry) :
      namecmp p (fun t => dirent entry.1 entry.2 (t + 2)) ≠ 0 := by
    have other : 0 ∉ entry.2 ∧ (storedName input.path).take DIRSIZ ≠ entry.2.take DIRSIZ := by
      match k, earlier, isEntry with
      | 0, _, isEntry =>
        cases isEntry
        exact ⟨by decide, (named.notDot input isIn).1⟩
      | 1, _, isEntry =>
        cases isEntry
        exact ⟨by decide, (named.notDot input isIn).2⟩
      | k + 2, earlier, isEntry =>
        have pre : k < q := by omega
        obtain ⟨input', isInput'⟩ : ∃ input', inputs[k]? = some input' :=
          ⟨_, getElem?_eq_getElem (by omega)⟩
        rw [entries_input isInput'] at isEntry
        cases isEntry
        obtain ⟨isIndex', isElement'⟩ := List.getElem?_eq_some_iff.mp isInput'
        obtain ⟨isIndex, isElement⟩ := List.getElem?_eq_some_iff.mp isInput
        have differ := pairwise_iff_getElem.mp named.distinct k q isIndex' isIndex pre
        rw [isElement', isElement] at differ
        exact ⟨string input', differ.symm⟩
    rw [ne_eq, namecmp_eq_zero isName (holdsName _ _) (string input) other.1]
    exact other.2
  have found : dirlookup layout (mount layout disk) ROOTINO p =
      .ok (some (q + 2, 16 * (q + 2)), mount layout disk) := by
    have size := lists.size
    rw [entries_length] at size
    have finds := scanFrom_finds lists built.owned (by decide) (entries_input isInput)
      ((namecmp_eq_zero isName (holdsName _ _) (string input) (string input)).mpr rfl) first
      (Nat.zero_le _) (show _ < 0 + scanRounds (mount layout disk) ROOTINO by
        unfold scanRounds
        omega)
    rw [dirlookup, if_neg (not_not.mpr built.type)]
    exact congrArg (Except.map _) finds
  obtain ⟨more, isLength⟩ : ∃ more, path.length + 1 = more + 1 + 1 := by
    refine ⟨path.length - 1, ?_⟩
    have pos : 0 < path.length := by
      rcases isPath with ⟨rfl, -⟩ | rfl
      · exact length_pos_iff.mpr nonempty
      · exact Nat.succ_pos _
    omega
  unfold namei
  rw [start, isLength, namexLoop, skipped]
  dsimp only
  rw [built.type, if_neg (by decide), if_neg (by decide), if_neg (by simp), found]
  rfl

end

theorem HoldsFile.readAll {i : Nat} {content : List (BitVec 8)} {type : FileType}
    (holds : HoldsFile fs i (type, content)) (owned : Owned layout fs) (lt : i < NINODES) :
    readAll layout fs i 0 (BitVec.ofNat 32 (fs.inode i).size) =
      .ok ((content.length, content), fs) := by
  have small : content.length ≤ MAXFILE * BSIZE := holds.small
  have size : (fs.inode i).size = content.length := holds.size
  have holes : fs.NoHoles i := by
    refine ⟨by rw [size]; exact small, fun bn below absent => ?_⟩
    rw [size] at below
    have isBlock : bn < MAXFILE := by
      unfold BSIZE at *
      omega
    have beyond : content.length ≤ bn * BSIZE :=
      (holds.packed.data bn isBlock).mp (view_eq_none.mp absent)
    omega
  have number : (BitVec.ofNat 32 content.length).toNat = content.length := by
    rw [BitVec.toNat_ofNat]
    exact Nat.mod_eq_of_lt (lt_of_le_of_lt small (by decide))
  have limit : content.length < 2 ^ 32 := lt_of_le_of_lt small (by decide)
  have zero : (0 : BitVec 32).toNat = 0 := rfl
  have bytes : (range content.length).map (fun k => fs.byte i (0 + k)) = content := by
    refine ext_getElem (by rw [length_map, length_range]) fun k _ below => ?_
    rw [getElem_map, getElem_range, zero_add, holds.bytes k (lt_of_lt_of_le below small)]
    exact getD_eq_getElem _ _ below
  rw [readAll_spec owned lt holes, size]
  unfold readArray
  rw [number, zero, if_neg (by omega)]
  dsimp only
  rw [Nat.sub_zero, Nat.min_self, bytes]

/-- The kernel reads from the image what `mkfs` was given: it finds each file by its name, with its
length and its bytes.  If `mkfs` builds no image of inputs that fit, then a name has a slash. -/
theorem kernel_reads_image (fits : Fits inputs) (named : Named inputs) :
    (∃ input ∈ inputs, slash ∈ shortname input.path) ∧ main inputs = .error .assertion ∨
      ∃ m, main inputs = .ok m ∧ readsb m.disk = superblock ∧
        ∀ (q : Nat) (input : Input), inputs[q]? = some input → ∃ ip,
          (∀ buffer, namei layout (mount layout m.disk) ROOTINO (storedName input.path) buffer =
            .ok (some ip, mount layout m.disk)) ∧
          (∀ cwd buffer, namei layout (mount layout m.disk) cwd (slash :: storedName input.path)
            buffer = .ok (some ip, mount layout m.disk)) ∧
          ((mount layout m.disk).inode ip).type = .file ∧
          ((mount layout m.disk).inode ip).size = input.content.length ∧
          readAll layout (mount layout m.disk) ip 0
              (BitVec.ofNat 32 ((mount layout m.disk).inode ip).size) =
            .ok ((input.content.length, input.content), mount layout m.disk) := by
  rcases main_spec fits with stopped | ⟨plain, m, ran, built⟩
  · exact .inl stopped
  refine .inr ⟨m, ran, built.superblock, fun q input isInput => ⟨q + 2, fun buffer => ?_,
    fun cwd buffer => ?_, ?_, ?_, ?_⟩⟩
  · exact built.namei_finds fits.inodes plain named isInput buffer (.inl ⟨rfl, rfl⟩)
  · exact built.namei_finds fits.inodes plain named isInput buffer (.inr rfl)
  · exact (built.files q input isInput).type
  · exact (built.files q input isInput).size
  · have isIndex := (List.getElem?_eq_some_iff.mp isInput).1
    have count := fits.inodes
    exact (built.files q input isInput).readAll built.owned (by omega)

/-- `user/_ls` with three bytes in two chunks, and `README` with two. -/
def twoInputs : List Input :=
  [⟨[117, 115, 101, 114, 47, 95, 108, 115], [[1, 2], [3]], by decide, by decide⟩,
    ⟨[82, 69, 65, 68, 77, 69], [[4, 5]], by decide, by decide⟩]

theorem kernel_reads_image_two : ∃ m, main twoInputs = .ok m ∧ ∃ ip,
    (∀ buffer, namei layout (mount layout m.disk) ROOTINO [108, 115] buffer =
      .ok (some ip, mount layout m.disk)) ∧
    ((mount layout m.disk).inode ip).type = .file ∧
    readAll layout (mount layout m.disk) ip 0
        (BitVec.ofNat 32 ((mount layout m.disk).inode ip).size) =
      .ok ((3, [1, 2, 3]), mount layout m.disk) := by
  have fits : Fits twoInputs := ⟨by decide, by decide, by decide⟩
  have named : Named twoInputs := ⟨by decide, by decide, by decide⟩
  rcases kernel_reads_image fits named with ⟨bad, -⟩ | ⟨m, ran, -, finds⟩
  · exact absurd bad (by decide)
  · obtain ⟨ip, found, -, isFile, -, read⟩ := finds 0 _ rfl
    exact ⟨m, ran, ip, found, isFile, read⟩

end Xv6Rv32im.Mkfs
