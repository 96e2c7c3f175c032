import Xv6Rv32im.Mkfs.Build

/-!
# The image that `main` builds

The files of the table, the rounded size of the root directory and the bitmap, as the kernel finds
them on the disk.
-/

namespace Xv6Rv32im.Mkfs

open Fs Fs.FileSystem Library.ByteWords Function List Image

variable {m m' : Image} {fs fs' : FileSystem} {inputs : List Input} {b n used : Nat}

/-! ## The bitmap -/

theorem bitmap_bit (used q r : Nat) (small : r < 8) :
    (bitmap used q).getLsbD r = decide (8 * q + r < used) := by
  induction used with
  | zero =>
    rw [decide_eq_false (Nat.not_lt_zero _)]
    exact BitVec.getLsbD_zero
  | succ used ih =>
    have step : bitmap (used + 1) = update (bitmap used) (used / 8)
        (bitmap used (used / 8) ||| mask used) := by
      unfold bitmap
      rw [range_succ, foldl_append]
      rfl
    rw [step, update_apply]
    split
    next same =>
      rw [or_mask_bit, ← same, ih]
      by_cases here : r = used % 8
      · rw [decide_eq_true here, Bool.or_true, decide_eq_true (by omega)]
      · rw [decide_eq_false here, Bool.or_false, decide_eq_decide]
        omega
    next other =>
      rw [ih, decide_eq_decide]
      omega

theorem isFree_bitmap (isBitmap : fs.cache layout.bmapstart = bitmap used) (lt : b < FSSIZE) :
    isFree layout fs b = decide (used ≤ b) := by
  have block : layout.bblock b = layout.bmapstart := by
    change b / 8192 + 45 = 45
    unfold FSSIZE at lt
    omega
  have bit : b % BPB = b := Nat.mod_eq_of_lt (lt_trans lt (by decide))
  unfold isFree
  rw [block, isBitmap, and_mask, bit, bitmap_bit used _ _ (Nat.mod_lt _ (by decide)),
    Nat.div_add_mod, ← decide_not, decide_eq_decide]
  exact not_lt

/-! ## The empty image -/

theorem zeroes_spec (small : n ≤ FSSIZE) :
    (zeroes n).disk = (fun _ _ => 0) ∧ (zeroes n).length = n ∧ (zeroes n).freeinode = 1 ∧
      (zeroes n).freeblock = nmeta := by
  induction n with
  | zero => exact ⟨rfl, rfl, rfl, rfl⟩
  | succ n ih =>
    obtain ⟨disk, length, freeinode, freeblock⟩ := ih (Nat.le_of_succ_le small)
    have step : zeroes (n + 1) = (zeroes n).wsect n fun _ => 0 := by
      unfold zeroes
      rw [range_succ, foldl_append]
      rfl
    rw [step]
    refine ⟨?_, ?_, freeinode, freeblock⟩
    · rw [wsect_disk small, disk, update_eq_self_iff]
    unfold wsect
    dsimp only
    rw [position_of_lt small, length]
    omega

theorem wsect_freeblock (m : Image) (sec : Nat) (buf : Bytes) :
    (m.wsect sec buf).freeblock = m.freeblock := rfl

theorem wsect_freeinode (m : Image) (sec : Nat) (buf : Bytes) :
    (m.wsect sec buf).freeinode = m.freeinode := rfl

theorem format_disk : format.disk = update (fun _ _ => 0) 1 superBlock := by
  unfold format
  rw [wsect_disk (by decide), (zeroes_spec le_rfl).1]

/-- The empty image, with a bitmap that marks the blocks before the data. -/
def blank : FileSystem :=
  (mount layout format.disk).setBlock layout.bmapstart (Image.bitmap nmeta)

theorem blank_addrs (i : Nat) : (blank.inode i).addrs = fun _ => 0 := by
  funext k
  change (if k ≤ NDIRECT then
    (load32 (format.disk (layout.iblock i)) (64 * (i % IPB) + 4 * (k + 3))).toNat else 0) = 0
  rw [format_disk, update_of_ne (iblock_ne_one i), load32_zero]
  split <;> rfl

theorem blank_represents : Represents format blank [] := by
  obtain ⟨disk, length, freeinode, freeblock⟩ := zeroes_spec (Nat.le_refl FSSIZE)
  have held i k : blank.held i k = 0 := by
    unfold held
    rw [blank_addrs]
    split
    · rfl
    · exact if_pos rfl
  have isBitmap : blank.cache layout.bmapstart = bitmap nmeta := by
    unfold blank setBlock
    dsimp only
    rw [update_self]
  have bits b (lt : b < FSSIZE) : isFree layout blank b = decide (nmeta ≤ b) :=
    isFree_bitmap isBitmap lt
  have isFreeblock : format.freeblock = nmeta := (wsect_freeblock ..).trans freeblock
  have isFreeinode : format.freeinode = 1 := (wsect_freeinode ..).trans freeinode
  constructor
  · constructor
    · exact wsect_length length (by decide) _
    · rw [isFreeblock]
    · rw [isFreeblock]
      decide
    · exact fun b other => update_of_ne other ..
    · rwa [isFreeblock]
    · intro b above lt
      rw [isFreeblock] at above
      have other : b ≠ 1 := by
        change 46 ≤ b at above
        omega
      rw [format_disk, update_of_ne other]
    · intro i k _
      rw [blank_addrs]
  · constructor
    · intro b pre
      rw [bits b (lt_trans pre (by decide)), decide_eq_false_iff_not]
      exact not_le.mpr pre
    · exact fun i k _ present => absurd (held i k) present
    · exact fun i k _ present => absurd (held i k) present
    · exact fun i k _ _ _ _ present _ => absurd (held i k) present
  · exact fun j _ => rfl
  · rw [format_disk, update_self]
  · decide
  · exact isFreeinode
  · rw [isFreeblock]
    rfl
  · exact fun j f isFile => by cases isFile
  · exact fun j _ => blank_addrs j

/-! ## The finished image -/

theorem mount_same (mirrors : Mirrors m fs) (owned : Owned layout fs) (stored : Stored m fs)
    {disk : Nat → Bytes}
    (isDisk : disk = update m.disk layout.bmapstart (bitmap m.freeblock)) :
    SameFiles layout fs (mount layout disk) ∧
      ∀ i < NINODES, (mount layout disk).inode i = fs.inode i := by
  have inodes i (lt : i < NINODES) : (mount layout disk).inode i = fs.inode i := by
    rw [← stored i lt, isDisk]
    change loadDinode (update m.disk layout.bmapstart _ (layout.iblock i)) _ = _
    rw [update_of_ne (iblock_lt lt).2]
  have cache b (isData : layout.dataStart ≤ b) :
      (mount layout disk).cache b = fs.cache b := by
    have other : b ≠ layout.bmapstart := by
      change b ≠ 45
      change 46 ≤ b at isData
      omega
    rw [isDisk, mirrors.cache b other]
    exact update_of_ne other ..
  refine ⟨⟨fun j k valid => ?_, cache, fun b last => ?_⟩, inodes⟩
  · refine held_congr (by rw [inodes j valid.1]) (fun present => ?_) k
    exact cache _ (owned.inData j NDIRECT ⟨valid.1, by decide⟩ present).1
  rw [mirrors.bits b last]
  refine isFree_bitmap ?_ last
  change disk layout.bmapstart = _
  rw [isDisk, update_self]

structure Built (disk : Nat → Bytes) (inputs : List Input) : Prop where
  superblock : readsb disk = superblock
  owned : Owned layout (mount layout disk)
  type : ((mount layout disk).inode ROOTINO).type = .dir
  size : ((mount layout disk).inode ROOTINO).size = ((rootBytes inputs).length / BSIZE + 1) * BSIZE
  packed : Packed (mount layout disk) ROOTINO (rootBytes inputs).length
  bytes : ∀ x < MAXFILE * BSIZE, (mount layout disk).byte ROOTINO x = (rootBytes inputs).getD x 0
  files : ∀ k input, inputs[k]? = some input →
    HoldsFile (mount layout disk) (k + 2) (.file, input.content)

theorem Represents.finish (repr : Represents m fs (table inputs)) :
    ∃ m', (fixRoot m >>= fun m => m.balloc m.freeblock) = .ok m' ∧ Built m'.disk inputs := by
  have root : HoldsFile fs ROOTINO (.dir, rootBytes inputs) := repr.holds 0 _ rfl
  have lt : ROOTINO < NINODES := by decide
  have count := repr.inodes
  have length : (table inputs).length = inputs.length + 1 := by
    unfold table
    rw [length_cons, length_map]
  rw [length] at count
  have rounded : ((fs.inode ROOTINO).size / BSIZE + 1) * BSIZE < 2 ^ 32 := by
    have small := root.small
    have size : (fs.inode ROOTINO).size = (rootBytes inputs).length := root.size
    change (rootBytes inputs).length ≤ 268 * 1024 at small
    rw [size]
    unfold BSIZE
    omega
  have isRead : m.rinode ROOTINO = .ok (fs.inode ROOTINO) := by
    unfold rinode
    rw [rsect_of_lt repr.mirrors.length (by decide), ← repr.stored _ lt]
    rfl
  obtain ⟨m₁, fs₁, ran, mirrors, same, stored, -, -, inodes, disk⟩ :=
    winode_spec repr.mirrors repr.owned lt (fun j valid _ => repr.stored j valid)
      (repr.mirrors.fits repr.owned lt rounded) rfl
  have used : m₁.freeblock < BSIZE * 8 := lt_of_le_of_lt mirrors.last (by decide)
  have isDisk := wsect_disk (m := m₁) (show layout.bmapstart < FSSIZE by decide)
    (bitmap m₁.freeblock)
  obtain ⟨mounted, sameInodes⟩ := mount_same mirrors (same.owned repr.owned) stored isDisk
  have all := same.trans mounted
  have views {j x} (valid : j < NINODES) (small : x < MAXFILE * BSIZE) :
      (mount layout (m₁.wsect layout.bmapstart (bitmap m₁.freeblock)).disk).byte j x =
        fs.byte j x := by
    unfold byte
    rw [all.view repr.owned valid (block_lt small)]
  have isRoot := sameInodes ROOTINO lt
  rw [inodes, update_self] at isRoot
  refine ⟨m₁.wsect layout.bmapstart (bitmap m₁.freeblock), ?_, ?_, all.owned repr.owned,
    ?_, ?_, ?_, fun x below => ?_, fun k input isInput => ?_⟩
  · unfold fixRoot
    rw [isRead]
    change (m.winode ROOTINO _ >>= _) = _
    rw [ran]
    exact if_pos used
  · unfold readsb
    rw [isDisk, update_of_ne (by decide), disk 1 (by decide), repr.superblock]
    decide +kernel
  · rw [isRoot]
    exact root.type
  · rw [isRoot]
    change ((fs.inode ROOTINO).size / BSIZE + 1) * BSIZE = _
    rw [root.size]
  · exact root.packed.congr lt fun k valid => all.held _ k valid
  · rw [views lt below]
    exact root.bytes x below
  have isFile : (table inputs)[k + 1]? = some (.file, input.content) := by
    unfold table
    rw [List.getElem?_cons_succ, List.getElem?_map, isInput]
    rfl
  obtain ⟨isIndex, -⟩ := List.getElem?_eq_some_iff.mp isInput
  have holds := repr.holds (k + 1) _ isFile
  have valid : k + 2 < NINODES := by omega
  have other : k + 2 ≠ ROOTINO := by
    unfold ROOTINO
    omega
  have isInode := sameInodes (k + 2) valid
  rw [inodes, update_of_ne other] at isInode
  have small := holds.small
  refine ⟨?_, ?_, small, holds.packed.congr valid fun l isSlot => all.held _ l isSlot,
    fun x below => ?_⟩
  · rw [isInode]
    exact holds.type
  · rw [isInode]
    exact holds.size
  · rw [views valid below]
    exact holds.bytes x below

/-- `main` builds an image of the inputs, unless it stops at a name with a slash. -/
theorem main_spec (fits : Fits inputs) :
    (∃ input ∈ inputs, slash ∈ shortname input.path) ∧ main inputs = .error .assertion ∨
      (∀ input ∈ inputs, slash ∉ shortname input.path) ∧
        ∃ m, main inputs = .ok m ∧ Built m.disk inputs := by
  obtain ⟨m₁, fs₁, allocated, represents₁⟩ := blank_represents.ialloc .dir (by decide)
  obtain ⟨m₂, fs₂, first, represents₂⟩ := represents₁.enter ROOTINO dot (by decide) (by decide)
  obtain ⟨m₃, fs₃, second, represents₃⟩ := represents₂.enter ROOTINO dotDot (by decide) (by decide)
  have isTable : [((.dir, [] ++ entryBytes ROOTINO dot ++ entryBytes ROOTINO dotDot) : File)] =
      table [] := by
    unfold table rootBytes
    simp
  rw [isTable] at represents₃
  have start : main inputs = (inputs.foldlM addFile m₃ >>= fun m => fixRoot m >>= fun m =>
      m.balloc m.freeblock) := by
    unfold main
    rw [allocated]
    change (m₁.iappend ROOTINO (dirent ROOTINO dot) 16 >>= _) = _
    rw [first]
    change (m₂.iappend ROOTINO (dirent ROOTINO dotDot) 16 >>= _) = _
    rw [second]
    rfl
  rw [start]
  rcases addFiles_spec [] inputs represents₃ fits with ⟨bad, fails⟩ | ⟨plain, m, fs, ran, repr⟩
  · rw [fails]
    exact .inl ⟨bad, rfl⟩
  obtain ⟨m', finished, built⟩ := repr.finish
  refine .inr ⟨plain, m', ?_, built⟩
  rw [ran]
  exact finished

end Xv6Rv32im.Mkfs
