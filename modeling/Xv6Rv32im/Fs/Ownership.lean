import Xv6Rv32im.Fs.Files

/-!
# Which blocks a file holds

An inode holds the blocks in its thirteen addresses and in its indirect block.  No two of these
slots hold the same block, and the bitmap marks every block that is held.  A block that `balloc`
finds is therefore held by no file, and it becomes the block of one slot.
-/

namespace Xv6Rv32im.Fs

open Library.ByteWords Function List Superblock

/-- The addresses of an inode and the entries of its indirect block. -/
def SLOTS : Nat := NDIRECT + 1 + NINDIRECT

def slot (bn : Nat) : Nat := if bn < NDIRECT then bn else bn + 1

theorem slot_inj {bn bn' : Nat} (same : slot bn = slot bn') : bn = bn' := by
  unfold slot at same
  split at same <;> split at same <;> omega

theorem slot_ne_indirect (bn : Nat) : slot bn ≠ NDIRECT := by
  unfold slot
  split <;> omega

theorem slot_lt {bn : Nat} (lt : bn < MAXFILE) : slot bn < SLOTS := by
  unfold slot SLOTS
  unfold MAXFILE at lt
  split <;> omega

theorem word_zero (j : Nat) : word (fun _ => 0) j = 0 := by
  unfold word
  rw [load32_zero]
  rfl

theorem word_store (bytes : Bytes) (j l b : Nat) (small : b < 2 ^ 32) :
    word (store32 bytes (4 * j) (BitVec.ofNat 32 b)) l = if l = j then b else word bytes l := by
  unfold word
  rw [load32_store32_array]
  split
  · rw [BitVec.toNat_ofNat, Nat.mod_eq_of_lt small]
  · rfl

namespace FileSystem

/-- The block in a slot of an inode; 0 stands for none. -/
def held (fs : FileSystem) (i k : Nat) : Nat :=
  if k ≤ NDIRECT then (fs.inode i).addrs k
  else if (fs.inode i).addrs NDIRECT = 0 then 0
  else word (fs.cache ((fs.inode i).addrs NDIRECT)) (k - (NDIRECT + 1))

def Slot (sb : Superblock) (i k : Nat) : Prop := i < sb.ninodes ∧ k < SLOTS

/-- The files hold different blocks, all of them data blocks and marked in the bitmap, and the
blocks before the data are marked as well. -/
structure Owned (sb : Superblock) (fs : FileSystem) : Prop where
  system : ∀ b < sb.dataStart, isFree sb fs b = false
  inData : ∀ i k, Slot sb i k → fs.held i k ≠ 0 → sb.dataStart ≤ fs.held i k ∧ fs.held i k < sb.size
  marked : ∀ i k, Slot sb i k → fs.held i k ≠ 0 → isFree sb fs (fs.held i k) = false
  only : ∀ i k j l, Slot sb i k → Slot sb j l → fs.held i k ≠ 0 → fs.held i k = fs.held j l →
    i = j ∧ k = l

variable {sb : Superblock} {fs fs' fs'' : FileSystem} {i j k l b bn : Nat}

theorem Owned.logWrite (owned : Owned sb fs) (b : Nat) : Owned sb (fs.logWrite b) :=
  ⟨owned.system, owned.inData, owned.marked, owned.only⟩

theorem held_address (isAddress : k ≤ NDIRECT) : fs.held i k = (fs.inode i).addrs k :=
  if_pos isAddress

theorem held_entry (isEntry : NDIRECT < k) : fs.held i k = if fs.held i NDIRECT = 0 then 0
    else word (fs.cache (fs.held i NDIRECT)) (k - (NDIRECT + 1)) := by
  rw [held_address le_rfl]
  exact if_neg (not_le.mpr isEntry)

theorem held_congr (inode : (fs'.inode i).addrs = (fs.inode i).addrs)
    (indirect : fs.held i NDIRECT ≠ 0 →
      fs'.cache (fs.held i NDIRECT) = fs.cache (fs.held i NDIRECT)) (k : Nat) :
    fs'.held i k = fs.held i k := by
  have addresses {l} (isAddress : l ≤ NDIRECT) : fs'.held i l = fs.held i l := by
    rw [held_address isAddress, held_address isAddress, inode]
  by_cases isAddress : k ≤ NDIRECT
  · exact addresses isAddress
  rw [held_entry (not_le.mp isAddress), held_entry (not_le.mp isAddress), addresses le_rfl]
  split
  · rfl
  next present => rw [indirect present]

/-! ## The bitmap -/

theorem mask_bit (bi : Nat) (j : Nat) : (mask bi).getLsbD j = decide (j = bi % 8) := by
  unfold mask
  rw [BitVec.getLsbD_shiftLeft]
  by_cases same : j = bi % 8
  · simp [same, Nat.mod_lt]
  · simp only [same, decide_false, Bool.and_eq_false_imp]
    grind

theorem and_mask (byte : BitVec 8) (bi : Nat) :
    (byte &&& mask bi == 0) = !byte.getLsbD (bi % 8) := by
  have small : bi % 8 < 8 := Nat.mod_lt _ (by decide)
  rw [Bool.eq_iff_iff, beq_iff_eq, Bool.not_eq_true']
  constructor
  · intro zero
    have bit := congrArg (fun v => BitVec.getLsbD v (bi % 8)) zero
    simpa [mask_bit] using bit
  intro clear
  refine BitVec.eq_of_getLsbD_eq fun l _ => ?_
  rw [BitVec.getLsbD_and, mask_bit]
  by_cases same : l = bi % 8
  · rw [same, clear]
    simp
  · simp [same]

theorem or_mask_bit (byte : BitVec 8) (bi l : Nat) :
    (byte ||| mask bi).getLsbD l = (byte.getLsbD l || decide (l = bi % 8)) := by
  rw [BitVec.getLsbD_or, mask_bit]

/-- Marking a block sets its bit and no other one. -/
theorem isFree_markUsed (x : Nat) :
    isFree sb (markUsed sb fs b) x = (isFree sb fs x && decide (x ≠ b)) := by
  unfold isFree
  rw [and_mask, and_mask]
  change (!(update fs.cache (sb.bblock b) _ (sb.bblock x) _).getLsbD _) = _
  by_cases sameBlock : sb.bblock x = sb.bblock b
  · rw [sameBlock, update_self, update_apply]
    unfold bblock at sameBlock
    split
    next sameByte =>
      rw [or_mask_bit, sameByte]
      by_cases same : x = b
      · simp [same]
      have other : x % BPB % 8 ≠ b % BPB % 8 := by
        unfold BPB BSIZE at *
        omega
      simp [same, other]
    next otherByte =>
      have ne : x ≠ b := by
        rintro rfl
        exact otherByte rfl
      simp [ne]
  · have ne : x ≠ b := by
      rintro rfl
      exact sameBlock rfl
    rw [update_of_ne sameBlock]
    simp [ne]

/-! ## Allocation -/

/-- A free block became marked and zero; nothing else among the data blocks and inodes changed. -/
structure Allocates (sb : Superblock) (fs fs' : FileSystem) (b : Nat) : Prop where
  free : isFree sb fs b = true
  first : sb.dataStart ≤ b
  last : b < sb.size
  bits : ∀ x < sb.size, isFree sb fs' x = (isFree sb fs x && decide (x ≠ b))
  zero : fs'.cache b = fun _ => 0
  cache : ∀ x, sb.dataStart ≤ x → x ≠ b → fs'.cache x = fs.cache x
  inode : fs'.inode = fs.inode
  disk : fs'.disk = fs.disk
  log : fs'.log = fs.log ++ [sb.bblock b, b]

def freeCount (sb : Superblock) (fs : FileSystem) : Nat :=
  ((range sb.size).filter (isFree sb fs)).length

theorem isFree_setBlock (first : sb.dataStart ≤ b) (bytes : Bytes) {x : Nat} (lt : x < sb.size) :
    isFree sb (fs.setBlock b bytes) x = isFree sb fs x := by
  have pre : sb.bblock x < sb.dataStart := sb.bitmap x lt
  unfold isFree setBlock
  dsimp only
  rw [update_of_ne (by omega)]

theorem allocates_of_free (owned : Owned sb fs) (free : isFree sb fs b = true)
    (last : b < sb.size) :
    Allocates sb fs ((markUsed sb fs b).bzero b) b := by
  have first : sb.dataStart ≤ b := by
    by_contra pre
    rw [owned.system b (not_le.mp pre)] at free
    cases free
  have pre : sb.bblock b < sb.dataStart := sb.bitmap b last
  refine ⟨free, first, last, fun y lt => ?_, ?_, fun y isData other => ?_, rfl, rfl, ?_⟩
  · unfold bzero
    exact (isFree_setBlock first _ lt).trans (isFree_markUsed y)
  · exact update_self ..
  · change update (update fs.cache (sb.bblock b) _) b _ y = _
    rw [update_of_ne other, update_of_ne (by omega)]
  · change fs.log ++ [sb.bblock b] ++ [b] = _
    rw [append_assoc]
    rfl

/-- `balloc` panics exactly if no block is free. -/
theorem balloc_spec (owned : Owned sb fs) : balloc sb fs = .error .balloc ∧ freeCount sb fs = 0 ∨
      ∃ b fs', balloc sb fs = .ok (b, fs') ∧ Allocates sb fs fs' b := by
  unfold balloc
  cases found : (range sb.size).find? (isFree sb fs) with
  | none =>
    refine .inl ⟨rfl, ?_⟩
    unfold freeCount
    rw [length_eq_zero_iff, filter_eq_nil_iff]
    exact find?_eq_none.mp found
  | some b =>
    have last := mem_range.mp (mem_of_find?_eq_some found)
    exact .inr ⟨b, _, rfl, allocates_of_free owned (find?_some found) last⟩

theorem freeCount_marked (free : isFree sb fs b = true) (last : b < sb.size)
    (bits : ∀ x < sb.size, isFree sb fs' x = (isFree sb fs x && decide (x ≠ b))) :
    freeCount sb fs = freeCount sb fs' + 1 := by
  have isIn : b ∈ (range sb.size).filter (isFree sb fs) :=
    mem_filter.mpr ⟨mem_range.mpr last, free⟩
  have nodup : ((range sb.size).filter (isFree sb fs)).Nodup := nodup_range.filter _
  have marked : (range sb.size).filter (isFree sb fs') =
      ((range sb.size).filter (isFree sb fs)).erase b := by
    rw [nodup.erase_eq_filter, filter_filter]
    refine filter_congr fun x lt => ?_
    rw [bits x (mem_range.mp lt), Bool.and_comm]
    by_cases same : x = b <;> simp [same]
  have pos := length_pos_of_mem isIn
  unfold freeCount
  rw [marked, length_erase_of_mem isIn]
  omega

section

variable (allocates : Allocates sb fs fs' b)

include allocates

theorem Allocates.ne_zero : b ≠ 0 := by
  have first := allocates.first
  have boot := sb.boot
  unfold dataStart at first
  omega

theorem Allocates.unheld (owned : Owned sb fs) (valid : Slot sb i k) : fs.held i k ≠ b := by
  rintro rfl
  have first := allocates.first
  have boot := sb.boot
  have marked := owned.marked i k valid (by unfold dataStart at first; omega)
  rw [allocates.free] at marked
  cases marked

theorem Allocates.held (owned : Owned sb fs) (lt : i < sb.ninodes) (k : Nat) :
    fs'.held i k = fs.held i k := by
  have valid : Slot sb i NDIRECT := ⟨lt, by decide⟩
  refine held_congr (by rw [allocates.inode]) (fun present => ?_) k
  exact allocates.cache _ (owned.inData i NDIRECT valid present).1 (allocates.unheld owned valid)

end

/-! ## A slot gets a block -/

/-- A free block became the block of an empty slot. -/
structure Grows (sb : Superblock) (fs fs' : FileSystem) (i k b : Nat) : Prop where
  free : isFree sb fs b = true
  first : sb.dataStart ≤ b
  last : b < sb.size
  empty : fs.held i k = 0
  bits : ∀ x < sb.size, isFree sb fs' x = (isFree sb fs x && decide (x ≠ b))
  zero : fs'.cache b = fun _ => 0
  cache : ∀ x, sb.dataStart ≤ x → x ≠ b → (NDIRECT < k → x ≠ fs.held i NDIRECT) →
    fs'.cache x = fs.cache x
  held : ∀ j l, Slot sb j l → fs'.held j l = if j = i ∧ l = k then b else fs.held j l
  size : ∀ j, (fs'.inode j).size = (fs.inode j).size
  disk : fs'.disk = fs.disk
  log : fs'.log = fs.log ++ [sb.bblock b, b] ++ if NDIRECT < k then [fs.held i NDIRECT] else []

section

variable (grows : Grows sb fs fs' i k b)

include grows

theorem Grows.unheld (owned : Owned sb fs) (valid : Slot sb j l) : fs.held j l ≠ b := by
  rintro rfl
  have first := grows.first
  have boot := sb.boot
  have marked := owned.marked j l valid (by unfold dataStart at first; omega)
  rw [grows.free] at marked
  cases marked

theorem Grows.ne_zero : b ≠ 0 := by
  have first := grows.first
  have boot := sb.boot
  unfold dataStart at first
  omega

theorem Grows.held_self (valid : Slot sb i k) : fs'.held i k = b := by
  rw [grows.held i k valid, if_pos ⟨rfl, rfl⟩]

theorem Grows.held_of_ne (valid : Slot sb j l) (other : ¬(j = i ∧ l = k)) :
    fs'.held j l = fs.held j l := by
  rw [grows.held j l valid, if_neg other]

theorem Grows.owned (owned : Owned sb fs) : Owned sb fs' := by
  have kept {x} (last : x < sb.size) (used : isFree sb fs x = false) :
      isFree sb fs' x = false := by
    rw [grows.bits x last, used, Bool.false_and]
  have marked : isFree sb fs' b = false := by
    rw [grows.bits b grows.last]
    simp
  have start : sb.dataStart ≤ sb.size := Nat.sub_le ..
  constructor
  · intro x pre
    exact kept (by omega) (owned.system x pre)
  · intro j l valid present
    rw [grows.held j l valid] at present ⊢
    split
    · exact ⟨grows.first, grows.last⟩
    next other =>
      rw [if_neg other] at present
      exact owned.inData j l valid present
  · intro j l valid present
    rw [grows.held j l valid] at present ⊢
    split
    · exact marked
    next other =>
      rw [if_neg other] at present
      exact kept (owned.inData j l valid present).2 (owned.marked j l valid present)
  · intro j l j' l' valid valid' present same
    rw [grows.held j l valid] at present same
    rw [grows.held j' l' valid'] at same
    by_cases isNew : j = i ∧ l = k
    · rw [if_pos isNew] at same
      by_cases isNew' : j' = i ∧ l' = k
      · exact ⟨isNew.1.trans isNew'.1.symm, isNew.2.trans isNew'.2.symm⟩
      · rw [if_neg isNew'] at same
        exact absurd same.symm (grows.unheld owned valid')
    rw [if_neg isNew] at present same
    by_cases isNew' : j' = i ∧ l' = k
    · rw [if_pos isNew'] at same
      exact absurd same (grows.unheld owned valid)
    · rw [if_neg isNew'] at same
      exact owned.only j l j' l' valid valid' present same

end

section

variable (allocates : Allocates sb fs fs' b) (owned : Owned sb fs) (lt : i < sb.ninodes)

include allocates owned lt

theorem Allocates.address (isAddress : k ≤ NDIRECT) (empty : (fs.inode i).addrs k = 0) :
    Grows sb fs (fs'.setInode i { fs.inode i with
      addrs := update (fs.inode i).addrs k b }) i k b where
  free := allocates.free
  first := allocates.first
  last := allocates.last
  empty := by
    unfold FileSystem.held
    rw [if_pos isAddress, empty]
  bits := allocates.bits
  zero := allocates.zero
  cache := fun x isData other _ => allocates.cache x isData other
  held := by
    intro j l valid
    have kept := allocates.held owned valid.1 l
    by_cases own : j = i
    · subst own
      have addresses {l} (isAddress : l ≤ NDIRECT) : (fs'.setInode j { fs.inode j with
          addrs := update (fs.inode j).addrs k b }).held j l =
          if l = k then b else fs.held j l := by
        rw [held_address isAddress, held_address isAddress]
        change (update fs'.inode j _ j).addrs l = _
        rw [update_self]
        exact update_apply ..
      by_cases direct : l ≤ NDIRECT
      · rw [addresses direct]
        simp only [true_and]
      have other : ¬(j = j ∧ l = k) := by omega
      rw [if_neg other, ← kept, held_entry (not_le.mp direct), held_entry (not_le.mp direct),
        addresses le_rfl, allocates.held owned lt NDIRECT]
      by_cases isIndirect : NDIRECT = k
      · -- The new block is the indirect one, and has no entries.
        rw [if_pos isIndirect, if_neg allocates.ne_zero, isIndirect, held_address isAddress,
          if_pos empty]
        change word (fs'.cache b) _ = 0
        rw [allocates.zero]
        exact word_zero _
      · rw [if_neg isIndirect]
        rfl
    · have sameInode : ((fs'.setInode i { fs.inode i with
          addrs := update (fs.inode i).addrs k b }).inode j).addrs = (fs'.inode j).addrs := by
        change (update fs'.inode i _ j).addrs = _
        rw [update_of_ne own]
      rw [if_neg fun both => own both.1, ← kept]
      exact held_congr sameInode (fun _ => rfl) l
  size := by
    intro j
    change (update fs'.inode i _ j).size = _
    rw [update_apply]
    split
    next own => rw [own]
    · rw [allocates.inode]
  disk := allocates.disk
  log := by
    rw [if_neg (by omega), append_nil]
    exact allocates.log

theorem Allocates.entry (present : fs.held i NDIRECT ≠ 0)
    (empty : word (fs.cache (fs.held i NDIRECT)) bn = 0) :
    Grows sb fs ((fs'.setBlock (fs.held i NDIRECT) (store32 (fs'.cache (fs.held i NDIRECT)) (4 * bn)
      (BitVec.ofNat 32 b))).logWrite (fs.held i NDIRECT)) i (NDIRECT + 1 + bn) b := by
  have valid : Slot sb i NDIRECT := ⟨lt, by decide⟩
  have isData := (owned.inData i NDIRECT valid present).1
  have other := allocates.unheld owned valid
  have small' : b < 2 ^ 32 := lt_of_lt_of_le allocates.last sb.small
  have atEntry : ¬NDIRECT + 1 + bn ≤ NDIRECT := by omega
  constructor
  · exact allocates.free
  · exact allocates.first
  · exact allocates.last
  · rw [held_entry (by omega), if_neg present, Nat.add_sub_cancel_left]
    exact empty
  · exact fun x last => (isFree_setBlock isData _ last).trans (allocates.bits x last)
  · change update fs'.cache _ _ b = _
    rw [update_of_ne other.symm, allocates.zero]
  · intro x xData xOther apart
    change update fs'.cache _ _ x = _
    rw [update_of_ne (apart (by omega)), allocates.cache x xData xOther]
  · intro j l slot
    have kept := allocates.held owned slot.1
    have sameInode : (((fs'.setBlock (fs.held i NDIRECT) (store32 (fs'.cache (fs.held i NDIRECT))
        (4 * bn) (BitVec.ofNat 32 b))).logWrite (fs.held i NDIRECT)).inode j).addrs =
        (fs'.inode j).addrs := rfl
    by_cases own : j = i
    · subst own
      by_cases direct : l ≤ NDIRECT
      · rw [if_neg (by omega), held_address direct, sameInode, ← held_address direct, kept]
      have isEntry := not_le.mp direct
      rw [held_entry isEntry, held_address le_rfl, sameInode,
        ← held_address le_rfl, kept NDIRECT, if_neg present]
      change word (update fs'.cache _ _ (fs.held j NDIRECT)) _ = _
      rw [update_self, word_store _ _ _ _ small', ← kept l, held_entry isEntry,
        kept NDIRECT, if_neg present]
      by_cases same : l = NDIRECT + 1 + bn
      · rw [if_pos (by omega), if_pos ⟨rfl, same⟩]
      · rw [if_neg (by omega), if_neg fun both => same both.2]
    · rw [if_neg fun both => own both.1, ← kept l]
      refine held_congr sameInode (fun there => ?_) l
      refine update_of_ne (fun same => own ?_) ..
      rw [kept] at there same
      exact (owned.only j NDIRECT i NDIRECT ⟨slot.1, by decide⟩ valid there same).1
  · intro j
    change (fs'.inode j).size = _
    rw [allocates.inode]
  · exact allocates.disk
  · rw [if_pos (by omega)]
    change fs'.log ++ _ = _
    rw [allocates.log]

end

/-! ## `bmap` -/

/-- The slot had a block already, or it has a new one now. -/
inductive Mapping (sb : Superblock) (fs : FileSystem) (i k : Nat) : Nat → FileSystem → Prop where
  | there (present : fs.held i k ≠ 0) : Mapping sb fs i k (fs.held i k) fs
  | grown {b : Nat} {fs' : FileSystem} (grows : Grows sb fs fs' i k b) : Mapping sb fs i k b fs'

section

variable (mapping : Mapping sb fs i k b fs')

include mapping

theorem Mapping.owned (owned : Owned sb fs) : Owned sb fs' := by
  cases mapping with
  | there present => exact owned
  | grown grows => exact grows.owned owned

theorem Mapping.held_self (valid : Slot sb i k) : fs'.held i k = b := by
  cases mapping with
  | there present => rfl
  | grown grows => exact grows.held_self valid

theorem Mapping.ne_zero : b ≠ 0 := by
  cases mapping with
  | there present => exact present
  | grown grows => exact grows.ne_zero

theorem Mapping.held_of_ne (valid : Slot sb j l) (other : ¬(j = i ∧ l = k)) :
    fs'.held j l = fs.held j l := by
  cases mapping with
  | there present => rfl
  | grown grows => exact grows.held_of_ne valid other

end

theorem addrAt_spec (owned : Owned sb fs) (lt : i < sb.ninodes) (isAddress : k ≤ NDIRECT) :
    addrAt sb fs i k = .error .balloc ∧ fs.held i k = 0 ∧ freeCount sb fs = 0 ∨
      ∃ b fs', addrAt sb fs i k = .ok (b, fs') ∧ Mapping sb fs i k b fs' := by
  have address : fs.held i k = (fs.inode i).addrs k := held_address isAddress
  unfold addrAt
  by_cases empty : (fs.inode i).addrs k = 0
  · rw [if_pos empty]
    obtain ⟨panics, full⟩ | ⟨b, fs', ran, allocates⟩ := balloc_spec owned
    · rw [panics]
      exact .inl ⟨rfl, address.trans empty, full⟩
    · rw [ran]
      exact .inr ⟨b, _, rfl, .grown (allocates.address owned lt isAddress empty)⟩
  · rw [if_neg empty, ← address]
    rw [← address] at empty
    exact .inr ⟨_, _, rfl, .there empty⟩

theorem entryAt_spec (owned : Owned sb fs) (lt : i < sb.ninodes) (present : fs.held i NDIRECT ≠ 0) :
    entryAt sb fs (fs.held i NDIRECT) bn = .error .balloc ∧
        fs.held i (NDIRECT + 1 + bn) = 0 ∧ freeCount sb fs = 0 ∨
      ∃ b fs', entryAt sb fs (fs.held i NDIRECT) bn = .ok (b, fs') ∧
        Mapping sb fs i (NDIRECT + 1 + bn) b fs' := by
  have entry : fs.held i (NDIRECT + 1 + bn) = word (fs.cache (fs.held i NDIRECT)) bn := by
    rw [held_entry (by omega), if_neg present, Nat.add_sub_cancel_left]
  unfold entryAt
  by_cases empty : word (fs.cache (fs.held i NDIRECT)) bn = 0
  · rw [if_pos empty]
    obtain ⟨panics, full⟩ | ⟨b, fs', ran, allocates⟩ := balloc_spec owned
    · rw [panics]
      exact .inl ⟨rfl, entry.trans empty, full⟩
    · rw [ran]
      exact .inr ⟨b, _, rfl, .grown (allocates.entry owned lt present empty)⟩
  · rw [if_neg empty, ← entry]
    rw [← entry] at empty
    exact .inr ⟨_, _, rfl, .there empty⟩

/-- A block of the file needs the indirect block, unless it is one of the first twelve. -/
def Indirect (sb : Superblock) (fs : FileSystem) (i bn : Nat) (fs' : FileSystem) : Prop :=
  bn < NDIRECT ∧ fs' = fs ∨ NDIRECT ≤ bn ∧ ∃ b, Mapping sb fs i NDIRECT b fs'

theorem Indirect.owned (indirect : Indirect sb fs i bn fs') (owned : Owned sb fs) :
    Owned sb fs' := by
  obtain ⟨-, rfl⟩ | ⟨-, b, mapping⟩ := indirect
  · exact owned
  · exact mapping.owned owned

def missing (fs : FileSystem) (i bn : Nat) : Nat :=
  (if fs.held i (slot bn) = 0 then 1 else 0) + if NDIRECT ≤ bn ∧ fs.held i NDIRECT = 0 then 1 else 0

section

variable (owned : Owned sb fs) (lt : i < sb.ninodes) (small : bn < MAXFILE)

include owned lt small

/-- `bmap` panics only if the blocks it needs are not free. -/
theorem bmap_spec : bmap sb fs i bn = .error .balloc ∧ freeCount sb fs < missing fs i bn ∨
      ∃ b fs₁ fs', bmap sb fs i bn = .ok (b, fs') ∧ Indirect sb fs i bn fs₁ ∧
        Mapping sb fs₁ i (slot bn) b fs' := by
  unfold missing bmap
  by_cases direct : bn < NDIRECT
  · have isSlot : slot bn = bn := if_pos direct
    rw [isSlot, if_pos direct]
    obtain ⟨panics, empty, full⟩ | ⟨b, fs', ran, mapping⟩ :=
      addrAt_spec owned lt (le_of_lt direct)
    · rw [if_pos empty]
      exact .inl ⟨panics, by omega⟩
    · exact .inr ⟨b, fs, fs', ran, .inl ⟨direct, rfl⟩, mapping⟩
  · have isSlot : slot bn = NDIRECT + 1 + (bn - NDIRECT) := by
      unfold slot
      rw [if_neg direct]
      omega
    have isEntry : bn - NDIRECT < NINDIRECT := by
      unfold MAXFILE at small
      omega
    have beyond := not_lt.mp direct
    have valid : Slot sb i NDIRECT := ⟨lt, by decide⟩
    rw [if_neg direct, if_pos isEntry]
    obtain ⟨panics, empty, full⟩ | ⟨ind, fs₁, ran₁, mapping₁⟩ :=
      addrAt_spec owned lt (Nat.le_refl NDIRECT)
    · rw [panics, if_pos (And.intro beyond empty)]
      exact .inl ⟨rfl, by omega⟩
    have indIs := mapping₁.held_self valid
    have present : fs₁.held i NDIRECT ≠ 0 := by
      rw [indIs]
      exact mapping₁.ne_zero
    rw [ran₁]
    rw [← indIs]
    obtain ⟨panics, empty, full⟩ | ⟨b, fs', ran, mapping⟩ :=
      entryAt_spec (mapping₁.owned owned) lt present
    · refine .inl ⟨panics, ?_⟩
      rw [← isSlot, mapping₁.held_of_ne ⟨lt, slot_lt small⟩
        fun both => slot_ne_indirect bn both.2] at empty
      rw [if_pos empty]
      cases mapping₁ with
      | there present => omega
      | grown grows =>
        have fewer := freeCount_marked grows.free grows.last grows.bits
        rw [if_pos ⟨beyond, grows.empty⟩]
        omega
    · rw [isSlot]
      exact .inr ⟨b, fs₁, fs', ran, .inr ⟨beyond, ind, mapping₁⟩, mapping⟩

theorem bmap_returns (mapped : bmap sb fs i bn = .ok (b, fs')) :
    ∃ fs₁, Indirect sb fs i bn fs₁ ∧ Mapping sb fs₁ i (slot bn) b fs' := by
  obtain ⟨panics, -⟩ | ⟨b', fs₁, fs'', ran, indirect, mapping⟩ := bmap_spec owned lt small
  · rw [panics] at mapped
    cases mapped
  · rw [ran] at mapped
    cases mapped
    exact ⟨fs₁, indirect, mapping⟩

end

end FileSystem

end Xv6Rv32im.Fs
