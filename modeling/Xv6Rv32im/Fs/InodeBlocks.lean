import Xv6Rv32im.Fs.Directory

/-!
# Inodes in their blocks

A block of inodes is an array of words, sixteen for each inode.  What is stored for an inode is
loaded again, and the other inodes of the block stay as they are.
-/

namespace Xv6Rv32im.Fs

open Library.ByteWords List

theorem FileType.ofCode_code (type : FileType) : FileType.ofCode type.code = type := by
  cases type <;> decide

theorem extract_low (high low : BitVec 16) : (high ++ low).extractLsb' 0 16 = low :=
  BitVec.extractLsb'_append_eq_right

theorem extract_high (high low : BitVec 16) : (high ++ low).extractLsb' 16 16 = high := by
  rw [BitVec.extractLsb'_append_eq_of_le (Nat.le_refl 16)]
  simp

/-- A `dinode` whose numbers have 32 bits and that has thirteen addresses. -/
structure Dinode.Fits (d : Dinode) : Prop where
  size : d.size < 2 ^ 32
  addrs : ∀ k ≤ NDIRECT, d.addrs k < 2 ^ 32
  rest : ∀ k, NDIRECT < k → d.addrs k = 0

theorem load_storeDinode (bytes : Bytes) (r w : Nat) (d : Dinode) :
    load32 (storeDinode bytes (64 * r) d) (4 * w) =
      if 16 * r ≤ w ∧ w < 16 * r + 16 then d.word (w - 16 * r) else load32 bytes (4 * w) := by
  have partly count : load32 ((List.range count).foldl
      (fun bytes j => store32 bytes (64 * r + 4 * j) (d.word j)) bytes) (4 * w) =
      if 16 * r ≤ w ∧ w < 16 * r + count then d.word (w - 16 * r) else load32 bytes (4 * w) := by
    induction count with
    | zero =>
      rw [if_neg (by omega)]
      rfl
    | succ count ih =>
      rw [range_succ, foldl_append, foldl_cons, foldl_nil,
        show 64 * r + 4 * count = 4 * (16 * r + count) by omega, load32_store32_array, ih]
      by_cases last : w = 16 * r + count
      · rw [if_pos last, if_pos (by omega), last, Nat.add_sub_cancel_left]
      rw [if_neg last]
      by_cases earlier : 16 * r ≤ w ∧ w < 16 * r + count
      · rw [if_pos earlier, if_pos (by omega)]
      · rw [if_neg earlier, if_neg (by omega)]
  exact partly (NDIRECT + 4)

theorem loadDinode_congr {bytes bytes' : Bytes} {r : Nat}
    (same : ∀ j < 16, load32 bytes' (4 * (16 * r + j)) = load32 bytes (4 * (16 * r + j))) :
    loadDinode bytes' (64 * r) = loadDinode bytes (64 * r) := by
  have words j (lt : j < 16) :
      load32 bytes' (64 * r + 4 * j) = load32 bytes (64 * r + 4 * j) := by
    rw [show 64 * r + 4 * j = 4 * (16 * r + j) by omega]
    exact same j lt
  have first := words 0 (by decide)
  have second := words 1 (by decide)
  have third := words 2 (by decide)
  have addresses :
      (fun k => if k ≤ NDIRECT then (load32 bytes' (64 * r + 4 * (k + 3))).toNat else 0) =
      fun k => if k ≤ NDIRECT then (load32 bytes (64 * r + 4 * (k + 3))).toNat else 0 := by
    funext k
    split
    next isAddress => rw [words (k + 3) (by unfold NDIRECT at isAddress; omega)]
    · rfl
  unfold loadDinode
  rw [addresses, third]
  change load32 bytes' (64 * r) = load32 bytes (64 * r) at first
  rw [first, second]

theorem loadDinode_storeDinode_of_ne (bytes : Bytes) {r r' : Nat} (d : Dinode) (other : r' ≠ r) :
    loadDinode (storeDinode bytes (64 * r) d) (64 * r') = loadDinode bytes (64 * r') := by
  refine loadDinode_congr fun j lt => ?_
  rw [load_storeDinode, if_neg (by omega)]

theorem loadDinode_storeDinode (bytes : Bytes) (r : Nat) {d : Dinode} (fits : d.Fits) :
    loadDinode (storeDinode bytes (64 * r) d) (64 * r) = d := by
  have words j (lt : j < 16) :
      load32 (storeDinode bytes (64 * r) d) (64 * r + 4 * j) = d.word j := by
    rw [show 64 * r + 4 * j = 4 * (16 * r + j) by omega, load_storeDinode, if_pos (by omega),
      Nat.add_sub_cancel_left]
  have first : load32 (storeDinode bytes (64 * r) d) (64 * r) = d.major ++ d.type.code :=
    words 0 (by decide)
  have second : load32 (storeDinode bytes (64 * r) d) (64 * r + 4) = d.nlink ++ d.minor :=
    words 1 (by decide)
  have third : load32 (storeDinode bytes (64 * r) d) (64 * r + 8) = BitVec.ofNat 32 d.size :=
    words 2 (by decide)
  have addresses : (fun k => if k ≤ NDIRECT then
      (load32 (storeDinode bytes (64 * r) d) (64 * r + 4 * (k + 3))).toNat else 0) = d.addrs := by
    funext k
    split
    next isAddress =>
      rw [words (k + 3) (by unfold NDIRECT at isAddress; omega)]
      change (BitVec.ofNat 32 (d.addrs k)).toNat = d.addrs k
      rw [BitVec.toNat_ofNat, Nat.mod_eq_of_lt (fits.addrs k isAddress)]
    next isRest => rw [fits.rest k (Nat.not_le.mp isRest)]
  unfold loadDinode
  rw [addresses, first, second, third, extract_low, extract_high, extract_low, extract_high,
    FileType.ofCode_code,
    BitVec.toNat_ofNat, Nat.mod_eq_of_lt fits.size]

/-- The inode block of one inode after another one was stored. -/
theorem loadDinode_iblock (sb : Superblock) {disk disk' : Nat → Bytes} {i j : Nat} {d : Dinode}
    (stored : disk' (sb.iblock i) = storeDinode (disk (sb.iblock i)) (64 * (i % IPB)) d)
    (others : ∀ b, b ≠ sb.iblock i → disk' b = disk b) (other : j ≠ i) :
    loadDinode (disk' (sb.iblock j)) (64 * (j % IPB)) =
      loadDinode (disk (sb.iblock j)) (64 * (j % IPB)) := by
  by_cases same : sb.iblock j = sb.iblock i
  · rw [same, stored]
    refine loadDinode_storeDinode_of_ne _ d ?_
    unfold Superblock.iblock IPB at *
    omega
  · rw [others _ same]

end Xv6Rv32im.Fs
