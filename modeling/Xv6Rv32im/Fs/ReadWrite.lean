import Xv6Rv32im.Fs.WriteRule
import Xv6Rv32im.Library.Run
import Xv6Rv32im.Library.Update

/-!
# Reading and writing as operations on an array of bytes

`readi` returns a part of the file, cut at its size, and `writei` replaces a part of it and may
make it longer.
-/

namespace Xv6Rv32im.Fs

open Library Library.ByteWords Function List
open Library.Run (of_map_eq_ok)

namespace FileSystem

/-- The file has a block for each of its bytes, and is not larger than the largest file. -/
structure NoHoles (fs : FileSystem) (i : Nat) : Prop where
  size : (fs.inode i).size ≤ MAXFILE * BSIZE
  present : ∀ bn, bn * BSIZE < (fs.inode i).size → fs.view i bn ≠ none

def readArray (size : Nat) (content : Nat → BitVec 8) (off n : BitVec 32) :
    Int × List (BitVec 8) :=
  if size < off.toNat ∨ 2 ^ 32 ≤ off.toNat + n.toNat then (0, [])
  else
    let len := min n.toNat (size - off.toNat)
    (len, (List.range len).map fun k => content (off.toNat + k))

def writeArray (content : Nat → BitVec 8) (off n : Nat) (data : Nat → BitVec 8) (x : Nat) :
    BitVec 8 :=
  if off ≤ x ∧ x < off + n then data (x - off) else content x

variable {sb : Superblock} {fs fs' fs₀ fs₁ fs₂ : FileSystem} {src : Source}
  {i j k b bn bn' n lo tot rounds : Nat}

/-! ## Reading -/

theorem Mapping.eq_of_present (mapping : Mapping sb fs i k b fs') (present : fs.held i k ≠ 0) :
    b = fs.held i k ∧ fs' = fs := by
  cases mapping with
  | there _ => exact ⟨rfl, rfl⟩
  | grown grows => exact absurd grows.empty present

/-- A slot in the indirect block has a block only if there is an indirect block. -/
theorem indirect_of_present (beyond : NDIRECT ≤ bn) (present : fs.held i (slot bn) ≠ 0) :
    fs.held i NDIRECT ≠ 0 := by
  intro absent
  refine present ?_
  unfold slot
  rw [if_neg (not_lt.mpr beyond), held_entry (by omega), if_pos absent]

theorem bmap_present (owned : Owned sb fs) (lt : i < sb.ninodes) (small : bn < MAXFILE)
    (present : fs.held i (slot bn) ≠ 0) : bmap sb fs i bn = .ok (fs.held i (slot bn), fs) := by
  obtain ⟨-, full⟩ | ⟨b, fs₁, fs', ran, indirect, mapping⟩ := bmap_spec owned lt small
  · unfold missing at full
    rw [if_neg present, if_neg fun both => indirect_of_present both.1 present both.2] at full
    exact absurd full (Nat.not_lt_zero _)
  have same : fs₁ = fs := by
    obtain ⟨-, same⟩ | ⟨beyond, ind, mapping₁⟩ := indirect
    · exact same
    · exact (mapping₁.eq_of_present (indirect_of_present beyond present)).2
  rw [same] at mapping
  obtain ⟨isBlock, unchanged⟩ := mapping.eq_of_present present
  rw [ran, isBlock, unchanged]

/-- The loop of `readi` in a part of the file that has its blocks. -/
theorem readFrom_spec (owned : Owned sb fs) (lt : i < sb.ninodes) {top : Nat}
    (limit : top ≤ MAXFILE * BSIZE) (blocks : ∀ bn, bn * BSIZE < top → fs.view i bn ≠ none)
    {off : Nat} (le : tot ≤ n) (bound : off + (n - tot) ≤ top)
    (enough : Enough n off tot rounds) (out : List (BitVec 8)) :
    readFrom sb (fun _ _ => true) i n rounds fs off tot out =
      .ok (n, out ++ (List.range (n - tot)).map (fun k => fs.byte i (off + k)), fs) := by
  induction rounds generalizing off tot out with
  | zero => exact absurd enough.1 (lt_irrefl _)
  | succ rounds ih =>
    rw [readFrom]
    by_cases more : tot < n
    · have small : off / BSIZE < MAXFILE := Nat.div_lt_of_lt_mul (by rw [mul_comm]; omega)
      have within : off / BSIZE * BSIZE < top :=
        lt_of_le_of_lt (Nat.div_mul_le_self ..) (by omega)
      have present : fs.held i (slot (off / BSIZE)) ≠ 0 := fun absent =>
        blocks _ within (view_eq_none.mpr absent)
      have bounded := chunk_le n off tot
      have fits := chunk_fits n off tot
      rw [if_pos more, bmap_present owned lt small present]
      dsimp only
      rw [if_pos rfl]
      change readFrom sb _ i n rounds fs (off + chunk n off tot) (tot + chunk n off tot)
        (out ++ (List.range (chunk n off tot)).map fun j => _) = _
      rw [ih (by omega) (by omega) (enough.next more), append_assoc]
      congr 4
      -- The bytes of this round and of the rest.
      have whole : n - tot = chunk n off tot + (n - (tot + chunk n off tot)) := by omega
      conv_rhs => rw [whole, range_add, map_append, map_map]
      congr 1
      · refine map_congr_left fun k isIn => ?_
        have early := mem_range.mp isIn
        have sameBlock : (off + k) / BSIZE = off / BSIZE := by
          unfold BSIZE at *
          omega
        have place : (off + k) % BSIZE = off % BSIZE + k := by
          unfold BSIZE at *
          omega
        unfold byte
        rw [sameBlock, place, view_of_held rfl present]
        rfl
      · refine map_congr_left fun k _ => ?_
        rw [comp_apply, add_assoc]
    · rw [if_neg more]
      have done : tot = n := le_antisymm le (not_lt.mp more)
      rw [done, Nat.sub_self, range_zero, map_nil, append_nil]

theorem wraps_iff (off n : BitVec 32) : off + n < off ↔ 2 ^ 32 ≤ off.toNat + n.toNat := by
  rw [BitVec.lt_def, BitVec.toNat_add]
  have offSmall := off.isLt
  have nSmall := n.isLt
  omega

/-- `readi` reads the file as an array of bytes and changes nothing. -/
theorem readi_spec (owned : Owned sb fs) (lt : i < sb.ninodes) (holes : fs.NoHoles i)
    (off n : BitVec 32) :
    readi sb fs i (fun _ _ => true) off n = .ok ((readArray (fs.inode i).size (fs.byte i) off n).1,
        (readArray (fs.inode i).size (fs.byte i) off n).2, fs) := by
  have overflow := wraps_iff off n
  unfold readi readArray
  by_cases rejected : (fs.inode i).size < off.toNat ∨ 2 ^ 32 ≤ off.toNat + n.toNat
  · rw [if_pos rejected, if_pos]
    rcases rejected with beyond | wraps
    · exact .inl beyond
    · exact .inr (overflow.mpr wraps)
  rw [if_neg rejected, if_neg]
  · have sum : (off + n).toNat = off.toNat + n.toNat := by
      rw [BitVec.toNat_add]
      omega
    have cut : (if (off + n).toNat > (fs.inode i).size then (fs.inode i).size - off.toNat
        else n.toNat) = min n.toNat ((fs.inode i).size - off.toNat) := by
      rw [sum]
      split <;> omega
    rw [cut, readFrom_spec owned lt holes.size holes.present (Nat.zero_le _) (by omega)
      (enough_initial _ _)]
    rfl
  · rw [overflow]
    omega

/-- Reading inside the size of the file, in a part that has its blocks. -/
theorem readi_inside (owned : Owned sb fs) (lt : i < sb.ninodes) {top : Nat}
    (limit : top ≤ MAXFILE * BSIZE) (blocks : ∀ bn, bn * BSIZE < top → fs.view i bn ≠ none)
    (off n : BitVec 32) (within : off.toNat + n.toNat ≤ top)
    (size : off.toNat + n.toNat ≤ (fs.inode i).size) :
    readi sb fs i (fun _ _ => true) off n =
      .ok (n.toNat, (List.range n.toNat).map (fun k => fs.byte i (off.toNat + k)), fs) := by
  have overflow := wraps_iff off n
  have small : off.toNat + n.toNat < 2 ^ 32 :=
    lt_of_le_of_lt (le_trans within limit) (by decide)
  have sum : (off + n).toNat = off.toNat + n.toNat := by
    rw [BitVec.toNat_add]
    omega
  unfold readi
  rw [if_neg (by rw [overflow]; omega), sum, if_neg (by omega),
    readFrom_spec owned lt limit blocks (Nat.zero_le _) (by omega) (enough_initial _ _)]
  rfl

/-! ## The blocks that a write needs -/

/-- The blocks among some consecutive ones that the file does not have. -/
def emptySlots (fs : FileSystem) (i : Nat) : Nat → Nat → Nat
  | 0, _ => 0
  | count + 1, bn => (if fs.held i (slot bn) = 0 then 1 else 0) + emptySlots fs i count (bn + 1)

/-- The blocks to be allocated for them, with the indirect block. -/
def needed (fs : FileSystem) (i count bn : Nat) : Nat :=
  emptySlots fs i count bn + if NDIRECT < bn + count ∧ fs.held i NDIRECT = 0 then 1 else 0

theorem emptySlots_congr {count : Nat}
    (same : ∀ bn', bn ≤ bn' → bn' < bn + count → fs'.held i (slot bn') = fs.held i (slot bn')) :
    emptySlots fs' i count bn = emptySlots fs i count bn := by
  induction count generalizing bn with
  | zero => rfl
  | succ count ih =>
    unfold emptySlots
    rw [same bn (le_refl _) (by omega),
      ih fun bn' above below => same bn' (by omega) (by omega)]

theorem needed_congr {count : Nat} (small : bn + count ≤ MAXFILE) (lt : i < sb.ninodes)
    (same : ∀ k, Slot sb i k → fs'.held i k = fs.held i k) :
    needed fs' i count bn = needed fs i count bn := by
  unfold needed
  rw [emptySlots_congr fun bn' _ below => same _ ⟨lt, slot_lt (by omega)⟩,
    same NDIRECT ⟨lt, by decide⟩]

theorem Mapping.count (mapping : Mapping sb fs i k b fs') :
    freeCount sb fs = freeCount sb fs' + if fs.held i k = 0 then 1 else 0 := by
  cases mapping with
  | there present => rw [if_neg present, add_zero]
  | grown grows =>
    rw [if_pos grows.empty]
    exact freeCount_marked grows.free grows.last grows.bits

theorem needed_mapped {count : Nat} (lt : i < sb.ninodes) (small : bn + (count + 1) ≤ MAXFILE)
    (indirect : Indirect sb fs i bn fs₁) (mapping : Mapping sb fs₁ i (slot bn) b fs₂)
    (room : needed fs i (count + 1) bn ≤ freeCount sb fs) :
    needed fs₂ i count (bn + 1) ≤ freeCount sb fs₂ := by
  have blocks : emptySlots fs₂ i count (bn + 1) = emptySlots fs₁ i count (bn + 1) := by
    refine emptySlots_congr fun bn' above below => ?_
    refine mapping.held_of_ne ⟨lt, slot_lt (by omega)⟩ fun both => ?_
    have same := slot_inj both.2
    omega
  have indirectBlock : fs₂.held i NDIRECT = fs₁.held i NDIRECT :=
    mapping.held_of_ne ⟨lt, by decide⟩ fun both => slot_ne_indirect bn both.2.symm
  have counted := mapping.count
  unfold needed emptySlots at room
  unfold needed
  rw [blocks, indirectBlock]
  obtain ⟨direct, rfl⟩ | ⟨beyond, ind, mapping₁⟩ := indirect
  · rw [show bn + 1 + count = bn + (count + 1) by omega]
    omega
  have blocks₁ : emptySlots fs₁ i count (bn + 1) = emptySlots fs i count (bn + 1) := by
    refine emptySlots_congr fun bn' above below => ?_
    exact mapping₁.held_of_ne ⟨lt, slot_lt (by omega)⟩ fun both => slot_ne_indirect bn' both.2
  have here : fs₁.held i (slot bn) = fs.held i (slot bn) :=
    mapping₁.held_of_ne ⟨lt, slot_lt (by omega)⟩ fun both => slot_ne_indirect bn both.2
  have present : fs₁.held i NDIRECT ≠ 0 := by
    rw [mapping₁.held_self ⟨lt, by decide⟩]
    exact mapping₁.ne_zero
  have counted₁ := mapping₁.count
  rw [here] at counted
  rw [blocks₁, if_neg fun both => present both.2]
  by_cases absent : fs.held i NDIRECT = 0
  · have both : NDIRECT < bn + (count + 1) ∧ fs.held i NDIRECT = 0 := ⟨by omega, absent⟩
    rw [if_pos both] at room
    rw [if_pos absent] at counted₁
    omega
  · rw [if_neg absent] at counted₁
    omega

theorem missing_le_needed (fs : FileSystem) (i count bn : Nat) :
    missing fs i bn ≤ needed fs i (count + 1) bn := by
  unfold missing needed emptySlots
  by_cases absent : NDIRECT ≤ bn ∧ fs.held i NDIRECT = 0
  · have both : NDIRECT < bn + (count + 1) ∧ fs.held i NDIRECT = 0 := ⟨by omega, absent.2⟩
    rw [if_pos absent, if_pos both]
    omega
  · rw [if_neg absent]
    omega

/-! ## Writing -/

/-- So many bytes of the source were written to the file from an offset on, and the other files
are as they were. -/
structure Wrote (sb : Superblock) (src : Source) (fs₀ fs : FileSystem) (i lo tot : Nat) : Prop where
  owned : Owned sb fs
  size : ∀ j, (fs.inode j).size = (fs₀.inode j).size
  others : ∀ j bn, j < sb.ninodes → j ≠ i → bn < MAXFILE → fs.view j bn = fs₀.view j bn
  kept : ∀ bn < MAXFILE, fs₀.view i bn ≠ none → fs.view i bn ≠ none
  covered : ∀ x, lo ≤ x → x < lo + tot → fs.view i (x / BSIZE) ≠ none
  bytes : ∀ x < MAXFILE * BSIZE, fs.byte i x = writeArray (fs₀.byte i) lo tot src.byte x

theorem Wrote.refl (owned : Owned sb fs) (i lo : Nat) : Wrote sb src fs fs i lo 0 where
  owned := owned
  size := fun _ => rfl
  others := fun _ _ _ _ _ => rfl
  kept := fun _ _ present => present
  covered := fun x above below => by omega
  bytes := fun x _ => (if_neg (by omega)).symm

theorem Wrote.round {len : Nat} (wrote : Wrote sb src fs₀ fs i lo tot) (lt : i < sb.ninodes)
    (round : Round sb fs fs' i ((lo + tot) / BSIZE) ((lo + tot) % BSIZE) len
      fun j => src.byte (tot + j))
    (fits : (lo + tot) % BSIZE + len ≤ BSIZE) (bound : lo + (tot + len) ≤ MAXFILE * BSIZE) :
    Wrote sb src fs₀ fs' i lo (tot + len) where
  owned := round.owned
  size := fun j => (round.size j).trans (wrote.size j)
  others := by
    intro j bn lt' other small
    rw [round.view j bn lt' small, if_neg fun both => other both.1,
      wrote.others j bn lt' other small]
  kept := by
    intro bn small present
    rw [round.view i bn lt small]
    split
    · nofun
    · exact wrote.kept bn small present
  covered := by
    intro x above below
    have small : x / BSIZE < MAXFILE := Nat.div_lt_of_lt_mul (by rw [mul_comm]; omega)
    rw [round.view i _ lt small]
    by_cases same : x / BSIZE = (lo + tot) / BSIZE
    · rw [if_pos ⟨rfl, same⟩]
      nofun
    rw [if_neg fun both => same both.2]
    refine wrote.covered x above ?_
    unfold BSIZE at *
    omega
  bytes := by
    intro x small
    rw [round.byte lt fits small, wrote.bytes x small]
    unfold writeArray
    by_cases new : lo + tot ≤ x ∧ x < lo + tot + len
    · rw [if_pos new, if_pos (by omega)]
      congr 1
      omega
    rw [if_neg new]
    by_cases old : lo ≤ x ∧ x < lo + tot
    · rw [if_pos old, if_pos (by omega)]
    · rw [if_neg old, if_neg (by omega)]

theorem Wrote.logWrite (wrote : Wrote sb src fs₀ fs i lo tot) (b : Nat) :
    Wrote sb src fs₀ (fs.logWrite b) i lo tot :=
  ⟨wrote.owned.logWrite b, wrote.size, wrote.others, wrote.kept, wrote.covered, wrote.bytes⟩

/-- The blocks from a byte on to the last one of a write. -/
def blocksLeft (lo n tot : Nat) : Nat := (lo + n - 1) / BSIZE + 1 - (lo + tot) / BSIZE

theorem blocksLeft_chunk (more : tot < n) (still : tot + chunk n (lo + tot) tot < n) :
    (lo + (tot + chunk n (lo + tot) tot)) / BSIZE = (lo + tot) / BSIZE + 1 ∧
      blocksLeft lo n tot = blocksLeft lo n (tot + chunk n (lo + tot) tot) + 1 := by
  unfold blocksLeft chunk BSIZE at *
  omega

theorem freeCount_setBlock (first : sb.dataStart ≤ b) (bytes : Bytes) :
    freeCount sb (fs.setBlock b bytes) = freeCount sb fs := by
  unfold freeCount
  rw [filter_congr fun x isIn => isFree_setBlock first bytes (mem_range.mp isIn)]

/-- With enough free blocks and a source that can be read, the loop writes all bytes. -/
theorem writeFrom_complete (owned : Owned sb fs) (lt : i < sb.ninodes)
    (bound : lo + n ≤ MAXFILE * BSIZE)
    (readable : ∀ pos len, pos + len ≤ n → src.copied pos len = len)
    (room : needed fs i (blocksLeft lo n 0) (lo / BSIZE) ≤ freeCount sb fs)
    (enough : Enough n lo 0 rounds) :
    ∃ fs', writeFrom sb src i n rounds fs lo 0 = .ok (n, lo + n, fs') ∧
      Wrote sb src fs fs' i lo n := by
  let Inv (fs' : FileSystem) (tot : Nat) : Prop := Wrote sb src fs fs' i lo tot ∧
    (tot < n → needed fs' i (blocksLeft lo n tot) ((lo + tot) / BSIZE) ≤ freeCount sb fs')
  have small {tot} (more : tot < n) : (lo + tot) / BSIZE < MAXFILE :=
    Nat.div_lt_of_lt_mul (by rw [mul_comm]; omega)
  have counted {tot} (more : tot < n) : ∃ count, blocksLeft lo n tot = count + 1 ∧
      (lo + tot) / BSIZE + (count + 1) ≤ MAXFILE := by
    refine ⟨blocksLeft lo n tot - 1, ?_⟩
    unfold blocksLeft BSIZE at *
    omega
  have step (fs' : FileSystem) (tot b : Nat) (fs₂ : FileSystem) (inv : Inv fs' tot) (more : tot < n)
      (mapped : bmap sb fs' i ((lo + tot) / BSIZE) = .ok (b, fs₂))
      (_ : src.copied tot (chunk n (lo + tot) tot) = chunk n (lo + tot) tot) :
      Inv ((fs₂.fill src b (lo + tot) tot (chunk n (lo + tot) tot)).logWrite b)
        (tot + chunk n (lo + tot) tot) := by
    obtain ⟨wrote, room⟩ := inv
    obtain ⟨fs₁, indirect, mapping⟩ := bmap_returns wrote.owned lt (small more) mapped
    have round := round_fill wrote.owned lt (small more) indirect mapping
      ((lo + tot) % BSIZE) (chunk n (lo + tot) tot) fun j => src.byte (tot + j)
    have bounded := chunk_le n (lo + tot) tot
    refine ⟨(wrote.round lt round (chunk_fits ..) (by omega)).logWrite b, fun still => ?_⟩
    obtain ⟨nextBlock, fewer⟩ := blocksLeft_chunk more still
    obtain ⟨count, isCount, within⟩ := counted more
    rw [isCount] at fewer
    have left := needed_mapped lt within indirect mapping (isCount ▸ room more)
    have owned₂ := mapping.owned (indirect.owned wrote.owned)
    have isHeld := mapping.held_self ⟨lt, slot_lt (small more)⟩
    have present : fs₂.held i (slot ((lo + tot) / BSIZE)) ≠ 0 := by
      rw [isHeld]
      exact mapping.ne_zero
    have isData := (owned₂.inData i _ ⟨lt, slot_lt (small more)⟩ present).1
    have slots := (owned₂.setBlock lt (small more) present (memmove (fs₂.cache b)
      ((lo + tot) % BSIZE) (chunk n (lo + tot) tot) fun j => src.byte (tot + j))).2.1
    rw [isHeld] at slots isData
    rw [nextBlock, show blocksLeft lo n _ = count by omega]
    refine le_trans (le_of_eq ?_) (le_trans left (le_of_eq ?_))
    · exact needed_congr (by omega) lt fun k isSlot => slots i k isSlot
    · exact (freeCount_setBlock isData _).symm
  have start : Inv fs 0 := ⟨.refl owned i lo, fun _ => room⟩
  obtain ⟨panic, fs', tot', -, inv, more, panics⟩ | ⟨fs', ran, inv⟩ |
      ⟨tot', fs', b, fs₁, -, -, more, -, fails⟩ := writeFrom_rule step start (Nat.zero_le _) enough
  · obtain ⟨-, full⟩ | ⟨b, fs₁, fs₂, ran, -⟩ := bmap_spec inv.1.owned lt (small more)
    · obtain ⟨count, isCount, -⟩ := counted more
      have needs := inv.2 more
      rw [isCount] at needs
      have least := missing_le_needed fs' i count ((lo + tot') / BSIZE)
      exact absurd (lt_of_lt_of_le full (le_trans least needs)) (lt_irrefl _)
    · rw [ran] at panics
      cases panics
  · exact ⟨fs', ran, inv.1⟩
  · have bounded := chunk_le n (lo + tot') tot'
    rw [readable tot' _ (by omega)] at fails
    exact absurd fails (lt_irrefl _)

structure SameFiles (sb : Superblock) (fs fs' : FileSystem) : Prop where
  held : ∀ j k, Slot sb j k → fs'.held j k = fs.held j k
  cache : ∀ b, sb.dataStart ≤ b → fs'.cache b = fs.cache b
  bits : ∀ b < sb.size, isFree sb fs' b = isFree sb fs b

theorem SameFiles.trans {fs'' : FileSystem} (first : SameFiles sb fs fs')
    (second : SameFiles sb fs' fs'') : SameFiles sb fs fs'' where
  held := fun j k valid => (second.held j k valid).trans (first.held j k valid)
  cache := fun b isData => (second.cache b isData).trans (first.cache b isData)
  bits := fun b last => (second.bits b last).trans (first.bits b last)

theorem SameFiles.owned (same : SameFiles sb fs fs') (owned : Owned sb fs) : Owned sb fs' := by
  have start : sb.dataStart ≤ sb.size := Nat.sub_le ..
  constructor
  · intro b pre
    rw [same.bits b (by omega)]
    exact owned.system b pre
  · intro j k valid present
    rw [same.held j k valid] at present ⊢
    exact owned.inData j k valid present
  · intro j k valid present
    rw [same.held j k valid] at present ⊢
    rw [same.bits _ (owned.inData j k valid present).2]
    exact owned.marked j k valid present
  · intro j k j' k' valid valid' present equal
    rw [same.held j k valid] at present equal
    rw [same.held j' k' valid'] at equal
    exact owned.only j k j' k' valid valid' present equal

theorem SameFiles.view (same : SameFiles sb fs fs') (owned : Owned sb fs) (lt : j < sb.ninodes)
    (small : bn < MAXFILE) : fs'.view j bn = fs.view j bn := by
  have valid : Slot sb j (slot bn) := ⟨lt, slot_lt small⟩
  exact view_congr (same.held j _ valid) fun present =>
    same.cache _ (owned.inData j _ valid present).1

theorem iupdate_same (owned : Owned sb fs) (lt : i < sb.ninodes) :
    SameFiles sb fs (iupdate sb fs i) := by
  have pre : sb.iblock i < sb.dataStart := sb.inodes i lt
  constructor
  · intro j k valid
    have sameInode : ((iupdate sb fs i).inode j).addrs = (fs.inode j).addrs := rfl
    refine held_congr sameInode (fun present => ?_) k
    have isData := (owned.inData j NDIRECT ⟨valid.1, by decide⟩ present).1
    exact update_of_ne (by omega) ..
  · intro b isData
    exact update_of_ne (by omega) ..
  · intro b last
    have other : sb.bblock b ≠ sb.iblock i := (sb.apart i lt b last).symm
    unfold isFree
    change (update fs.cache (sb.iblock i) _ (sb.bblock b) _ &&& _ == 0) = _
    rw [update_of_ne other]

theorem setInode_same (sb : Superblock) {d : Dinode} (sameAddrs : d.addrs = (fs.inode i).addrs) :
    SameFiles sb fs (fs.setInode i d) := by
  constructor
  · intro j k valid
    have sameInode : ((fs.setInode i d).inode j).addrs = (fs.inode j).addrs :=
      apply_update_eq Dinode.addrs sameAddrs j
    exact held_congr sameInode (fun _ => rfl) k
  · exact fun b _ => rfl
  · exact fun b _ => rfl

theorem finishWrite_same (owned : Owned sb fs) (lt : i < sb.ninodes) (off : Nat) :
    SameFiles sb fs (finishWrite sb fs i off) := by
  unfold finishWrite
  dsimp only
  split
  · have sized : SameFiles sb fs (fs.setInode i { fs.inode i with size := off }) :=
      setInode_same sb rfl
    exact sized.trans (iupdate_same (sized.owned owned) lt)
  · exact iupdate_same owned lt

theorem finishWrite_spec (owned : Owned sb fs) (lt : i < sb.ninodes) (off : Nat) :
    Owned sb (finishWrite sb fs i off) ∧ (∀ j bn, j < sb.ninodes → bn < MAXFILE →
        (finishWrite sb fs i off).view j bn = fs.view j bn) ∧
      ∀ j, ((finishWrite sb fs i off).inode j).size =
        if j = i then max (fs.inode i).size off else (fs.inode j).size := by
  have same := finishWrite_same owned lt off
  refine ⟨same.owned owned, fun j bn lt' small => same.view owned lt' small, fun j => ?_⟩
  unfold finishWrite
  dsimp only
  by_cases longer : off > (fs.inode i).size
  · rw [if_pos longer]
    change (update fs.inode i _ j).size = _
    rw [update_apply, max_eq_right (le_of_lt longer)]
    split <;> rfl
  rw [if_neg longer, max_eq_left (not_lt.mp longer)]
  change (fs.inode j).size = _
  split
  next own => rw [own]
  · rfl

theorem block_lt {x : Nat} (small : x < MAXFILE * BSIZE) : x / BSIZE < MAXFILE :=
  Nat.div_lt_of_lt_mul (by rwa [mul_comm] at small)

/-- The file at the end of `writei`, if at least the bytes that are reported were written. -/
theorem Wrote.finish {done : Nat} (wrote : Wrote sb src fs fs₁ i lo tot) (lt : i < sb.ninodes)
    (holes : fs.NoHoles i) (atEnd : lo ≤ (fs.inode i).size) (bound : lo + tot ≤ MAXFILE * BSIZE)
    (reported : done ≤ tot) :
    (finishWrite sb fs₁ i (lo + done)).NoHoles i ∧
      ((finishWrite sb fs₁ i (lo + done)).inode i).size = max (fs.inode i).size (lo + done) ∧
      ∀ x < MAXFILE * BSIZE, (finishWrite sb fs₁ i (lo + done)).byte i x = fs₁.byte i x := by
  obtain ⟨-, views, sizes⟩ := finishWrite_spec wrote.owned lt (lo + done)
  have largest := holes.size
  have sizeIs := sizes i
  rw [if_pos rfl, wrote.size] at sizeIs
  refine ⟨⟨by omega, fun bn within => ?_⟩, sizeIs, fun x small => ?_⟩
  · have small : bn < MAXFILE := by
      unfold BSIZE at *
      omega
    rw [views i bn lt small]
    by_cases old : bn * BSIZE < (fs.inode i).size
    · exact wrote.kept bn small (holes.present bn old)
    · have covered := wrote.covered (bn * BSIZE) (by omega) (by omega)
      rwa [Nat.mul_div_cancel _ (by decide)] at covered
  · unfold FileSystem.byte
    rw [views i _ lt (block_lt small)]

def Refused (size : Nat) (off n : BitVec 32) : Prop :=
  size < off.toNat ∨ 2 ^ 32 ≤ off.toNat + n.toNat ∨ MAXFILE * BSIZE < off.toNat + n.toNat

theorem writei_accepted {off n : BitVec 32} (accepted : ¬Refused (fs.inode i).size off n) :
    writei sb fs i src off n =
      (writeFrom sb src i n.toNat (n.toNat / BSIZE + 3) fs off.toNat 0).map fun result =>
        ((result.1 : Int), finishWrite sb result.2.2 i result.2.1) := by
  have overflow := wraps_iff off n
  unfold Refused at accepted
  have sum : (off + n).toNat = off.toNat + n.toNat := by
    rw [BitVec.toNat_add]
    omega
  unfold writei
  rw [if_neg (by rw [overflow]; omega), sum, if_neg (by omega)]
  cases writeFrom sb src i n.toNat (n.toNat / BSIZE + 3) fs off.toNat 0 with
  | error panic => rfl
  | ok result => rfl

theorem writei_refused_iff (fs : FileSystem) (i : Nat) (src : Source) (off n : BitVec 32) :
    writei sb fs i src off n = .ok (-1, fs) ↔ Refused (fs.inode i).size off n := by
  constructor
  · intro refused
    by_contra accepted
    rw [writei_accepted accepted] at refused
    obtain ⟨result, -, same⟩ := of_map_eq_ok refused
    have negative := congrArg Prod.fst same
    change (result.1 : Int) = -1 at negative
    omega
  · intro refused
    have overflow := wraps_iff off n
    unfold writei
    by_cases first : off.toNat > (fs.inode i).size ∨ off + n < off
    · rw [if_pos first]
    rw [if_neg first]
    rw [overflow] at first
    have sum : (off + n).toNat = off.toNat + n.toNat := by
      rw [BitVec.toNat_add]
      omega
    unfold Refused at refused
    rw [if_pos (by omega)]

theorem readArray_congr {size : Nat} {content content' : Nat → BitVec 8}
    (same : ∀ x < size, content' x = content x) (off n : BitVec 32) :
    readArray size content' off n = readArray size content off n := by
  unfold readArray
  split
  · rfl
  have bytes : (List.range (min n.toNat (size - off.toNat))).map
      (fun k => content' (off.toNat + k)) =
      (List.range (min n.toNat (size - off.toNat))).map fun k => content (off.toNat + k) := by
    refine map_congr_left fun k isIn => same _ ?_
    have early := mem_range.mp isIn
    omega
  dsimp only
  rw [bytes]

def readAll (sb : Superblock) (fs : FileSystem) (i : Nat) (off n : BitVec 32) :
    Except Panic ((Int × List (BitVec 8)) × FileSystem) :=
  (readi sb fs i (fun _ _ => true) off n).map fun result => ((result.1, result.2.1), result.2.2)

theorem readAll_spec (owned : Owned sb fs) (lt : i < sb.ninodes) (holes : fs.NoHoles i)
    (off n : BitVec 32) :
    readAll sb fs i off n = .ok (readArray (fs.inode i).size (fs.byte i) off n, fs) := by
  unfold readAll
  rw [readi_spec owned lt holes]
  rfl

/-! ## A small file system -/

/-- 64 blocks, with inodes in block 2 and the bitmap in block 3. -/
def disk64 : Superblock where
  size := 64
  nblocks := 60
  ninodes := 16
  inodestart := 2
  bmapstart := 3
  small := by decide
  boot := by decide
  inodes := by decide
  bitmap := by decide
  apart := by decide

def oneBlockFile (content : Bytes) (size : Nat) : FileSystem :=
  let blocks : Nat → Bytes := fun b =>
    if b = 3 then fun a => if a = 0 then 0x1f else 0
    else if b = 4 then content
    else fun _ => 0
  { cache := blocks
    disk := blocks
    log := []
    inode := fun i =>
      if i = 1 then
        { Dinode.zero with
          type := .file
          nlink := 1
          size := size
          addrs := fun k => if k = 0 then 4 else 0 }
      else Dinode.zero }

section

variable (content : Bytes)

include content

theorem oneBlockFile_held (size i k : Nat) :
    (oneBlockFile content size).held i k = if i = 1 ∧ k = 0 then 4 else 0 := by
  have addresses l : ((oneBlockFile content size).inode i).addrs l =
      if i = 1 ∧ l = 0 then 4 else 0 := by
    by_cases isFile : i = 1
    · simp [oneBlockFile, isFile]
    · simp [oneBlockFile, isFile, Dinode.zero]
  have noIndirect : ((oneBlockFile content size).inode i).addrs NDIRECT = 0 := by
    rw [addresses, if_neg (by simp [NDIRECT])]
  unfold held
  rw [addresses, noIndirect, if_pos rfl]
  split
  · rfl
  next isEntry => rw [if_neg fun first => isEntry (by omega)]

theorem oneBlockFile_isFree (size : Nat) {b : Nat} (lt : b < 64) :
    isFree disk64 (oneBlockFile content size) b = decide (5 ≤ b) := by
  have isBitmap : disk64.bblock b = 3 := by
    change b / 8192 + 3 = 3
    omega
  have bits : ∀ b < 64,
      ((if b % BPB / 8 = 0 then (0x1f : BitVec 8) else 0) &&& mask (b % BPB) == 0) =
      decide (5 ≤ b) := by decide +kernel
  unfold isFree
  rw [isBitmap]
  exact bits b lt

theorem oneBlockFile_owned (size : Nat) : Owned disk64 (oneBlockFile content size) := by
  have block {i k} (present : (oneBlockFile content size).held i k ≠ 0) :
      (i = 1 ∧ k = 0) ∧ (oneBlockFile content size).held i k = 4 := by
    rw [oneBlockFile_held] at present ⊢
    split at present
    next isFile => exact ⟨isFile, if_pos isFile⟩
    · exact absurd rfl present
  constructor
  · intro b pre
    change b < 4 at pre
    rw [oneBlockFile_isFree content size (by omega)]
    exact decide_eq_false (by omega)
  · intro i k _ present
    rw [(block present).2]
    decide
  · intro i k _ present
    rw [(block present).2, oneBlockFile_isFree content size (by decide)]
    rfl
  · intro i k j l _ _ present same
    have here := block present
    have there := block (same ▸ present)
    exact ⟨here.1.1.trans there.1.1.symm, here.1.2.trans there.1.2.symm⟩

theorem oneBlockFile_noHoles {size : Nat} (small : size ≤ BSIZE) :
    (oneBlockFile content size).NoHoles 1 := by
  have isSize : ((oneBlockFile content size).inode 1).size = size := rfl
  refine ⟨?_, fun bn within absent => ?_⟩
  · rw [isSize]
    exact le_trans small (by decide)
  rw [isSize] at within
  have first : bn = 0 := by
    unfold BSIZE at *
    omega
  rw [view_eq_none, first, oneBlockFile_held] at absent
  exact absurd absent (by decide)

end

def counting : Source where
  byte := fun k => BitVec.ofNat 8 (k + 1)
  copied := fun _ len => len
  copied_le := fun _ len => le_refl len

/-- A file is an array of bytes: a write that is not refused replaces a part of it, makes it as
long as it has to be and leaves the other files as they are, a read returns a part of it, and
exactly the offsets and lengths out of range are refused. -/
theorem files_are_byte_arrays (owned : Owned sb fs) (inside : i < sb.ninodes)
    (holes : fs.NoHoles i) :
    (∀ (src : Source) (off n : BitVec 32), ¬Refused (fs.inode i).size off n →
      (∀ pos len, pos + len ≤ n.toNat → src.copied pos len = len) →
      needed fs i (blocksLeft off.toNat n.toNat 0) (off.toNat / BSIZE) ≤ freeCount sb fs →
      ∃ fs', writei sb fs i src off n = .ok (n.toNat, fs') ∧ Owned sb fs' ∧ fs'.NoHoles i ∧
        (fs'.inode i).size = max (fs.inode i).size (off.toNat + n.toNat) ∧
        (∀ off' n', readAll sb fs' i off' n' = .ok (readArray
          (max (fs.inode i).size (off.toNat + n.toNat))
          (writeArray (fs.byte i) off.toNat n.toNat src.byte) off' n', fs')) ∧
        ∀ j, j < sb.ninodes → j ≠ i → fs.NoHoles j → ∀ off' n', readAll sb fs' j off' n' =
            .ok (readArray (fs.inode j).size (fs.byte j) off' n', fs')) ∧
    (∀ src off n, writei sb fs i src off n = .ok (-1, fs) ↔ Refused (fs.inode i).size off n) ∧
    ∀ off n, readAll sb fs i off n = .ok (readArray (fs.inode i).size (fs.byte i) off n, fs) := by
  refine ⟨fun src off n accepted readable room => ?_, writei_refused_iff fs i,
    readAll_spec owned inside holes⟩
  have bound : off.toNat + n.toNat ≤ MAXFILE * BSIZE := by
    unfold Refused at accepted
    omega
  have atEnd : off.toNat ≤ (fs.inode i).size := by
    unfold Refused at accepted
    omega
  have largest := holes.size
  obtain ⟨fs₁, ran, wrote⟩ := writeFrom_complete owned inside bound readable room
    (enough_initial n.toNat off.toNat)
  obtain ⟨owned', views, sizes⟩ := finishWrite_spec wrote.owned inside _
  obtain ⟨holes', sizeIs, bytes⟩ := wrote.finish inside holes atEnd bound (le_refl _)
  generalize finishing : finishWrite sb fs₁ i (off.toNat + n.toNat) = fs' at *
  refine ⟨fs', ?_, owned', holes', sizeIs, fun off' n' => ?_,
    fun j inside' other holesJ off' n' => ?_⟩
  · rw [writei_accepted accepted, ran, ← finishing]
    rfl
  · rw [readAll_spec owned' inside holes', sizeIs]
    rw [readArray_congr fun x below =>
      (bytes x (by omega)).trans (wrote.bytes x (by omega))]
  have same bn (small : bn < MAXFILE) : fs'.view j bn = fs.view j bn := by
    rw [views j bn inside' small, wrote.others j bn inside' other small]
  have sizeJ : (fs'.inode j).size = (fs.inode j).size := by
    rw [sizes, if_neg other, wrote.size]
  have largestJ := holesJ.size
  have holesJ' : fs'.NoHoles j := by
    refine ⟨by omega, fun bn within => ?_⟩
    rw [sizeJ] at within
    rw [same bn (by unfold BSIZE at *; omega)]
    exact holesJ.present bn within
  rw [readAll_spec owned' inside' holesJ', sizeJ]
  refine congrArg (fun result => Except.ok (result, fs')) (readArray_congr (fun x below => ?_) _ _)
  unfold FileSystem.byte
  rw [same _ (block_lt (by omega))]

theorem files_are_byte_arrays_second_block : ∃ fs',
    writei disk64 (oneBlockFile (fun _ => 7) 1020) 1 counting 1000 100 = .ok (100, fs') ∧
      Owned disk64 fs' ∧ fs'.NoHoles 1 ∧
      readAll disk64 fs' 1 998 4 = .ok ((4, [7, 7, 1, 2]), fs') ∧
      readAll disk64 fs' 1 1098 10 = .ok ((2, [99, 100]), fs') := by
  obtain ⟨fs', ran, owned, holes, -, reads, -⟩ := (files_are_byte_arrays
    (oneBlockFile_owned (fun _ => 7) 1020) (by decide)
    (oneBlockFile_noHoles _ (by decide))).1 counting 1000 100 (by unfold Refused; decide)
    (fun _ _ _ => rfl) (by decide +kernel)
  refine ⟨fs', ran, owned, holes, (reads 998 4).trans ?_, (reads 1098 10).trans ?_⟩
  · exact congrArg (fun result => Except.ok (result, fs')) (by decide +kernel)
  · exact congrArg (fun result => Except.ok (result, fs')) (by decide +kernel)

end FileSystem

end Xv6Rv32im.Fs
