import Xv6Rv32im.Fs.Ownership

/-!
# Files as arrays of blocks

A file is a partial array of blocks.  `bmap` makes an entry present, with zeros if it was absent,
and `memmove` into the block changes bytes of that entry; neither changes another entry of any
file.  So each round of `writei` writes some bytes of the file and nothing else.
-/

namespace Xv6Rv32im.Fs

open Library.ByteWords Function

namespace FileSystem

def view (fs : FileSystem) (i bn : Nat) : Option Bytes :=
  if fs.held i (slot bn) = 0 then none else some (fs.cache (fs.held i (slot bn)))

def byte (fs : FileSystem) (i x : Nat) : BitVec 8 :=
  ((fs.view i (x / BSIZE)).getD fun _ => 0) (x % BSIZE)

variable {sb : Superblock} {fs fs' fs₀ fs₁ : FileSystem} {i j k b bn bn' : Nat}

theorem view_eq_none : fs.view i bn = none ↔ fs.held i (slot bn) = 0 := by
  unfold view
  split
  next empty => exact ⟨fun _ => empty, fun _ => rfl⟩
  next present => exact ⟨nofun, fun empty => absurd empty present⟩

theorem view_of_held (isHeld : fs.held i (slot bn) = b) (present : b ≠ 0) :
    fs.view i bn = some (fs.cache b) := by
  unfold view
  rw [isHeld, if_neg present]

theorem view_congr (sameHeld : fs'.held i (slot bn) = fs.held i (slot bn))
    (sameCache : fs.held i (slot bn) ≠ 0 →
      fs'.cache (fs.held i (slot bn)) = fs.cache (fs.held i (slot bn))) :
    fs'.view i bn = fs.view i bn := by
  unfold view
  rw [sameHeld]
  split
  · rfl
  next present => rw [sameCache present]

/-! ## What `bmap` does to the files -/

theorem Mapping.view_indirect (mapping : Mapping sb fs i NDIRECT b fs') (owned : Owned sb fs)
    (lt : j < sb.ninodes) (small : bn < MAXFILE) : fs'.view j bn = fs.view j bn := by
  have valid : Slot sb j (slot bn) := ⟨lt, slot_lt small⟩
  cases mapping with
  | there present => rfl
  | grown grows =>
    refine view_congr (grows.held_of_ne valid fun both => slot_ne_indirect bn both.2)
      fun present => ?_
    exact grows.cache _ (owned.inData j _ valid present).1 (grows.unheld owned valid)
      fun impossible => absurd impossible (Nat.lt_irrefl _)

/-- The block of a slot becomes present, the others stay as they are. -/
theorem Mapping.view (mapping : Mapping sb fs i (slot bn) b fs') (owned : Owned sb fs)
    (lt : i < sb.ninodes) (small : bn < MAXFILE) (lt' : j < sb.ninodes)
    (small' : bn' < MAXFILE) :
    fs'.view j bn' = if j = i ∧ bn' = bn then some ((fs.view i bn).getD fun _ => 0)
      else fs.view j bn' := by
  have valid : Slot sb i (slot bn) := ⟨lt, slot_lt small⟩
  have valid' : Slot sb j (slot bn') := ⟨lt', slot_lt small'⟩
  cases mapping with
  | there present =>
    split
    next same =>
      rw [same.1, same.2, view_of_held rfl present]
      rfl
    · rfl
  | grown grows =>
    split
    next same =>
      rw [same.1, same.2, view_of_held (grows.held_self valid) grows.ne_zero, grows.zero,
        view_eq_none.mpr grows.empty]
      rfl
    next other =>
      have otherSlot : ¬(j = i ∧ slot bn' = slot bn) := fun same =>
        other ⟨same.1, slot_inj same.2⟩
      refine view_congr (grows.held_of_ne valid' otherSlot) fun present => ?_
      refine grows.cache _ (owned.inData j _ valid' present).1 (grows.unheld owned valid') ?_
      intro _ same
      exact slot_ne_indirect bn' (owned.only j _ i NDIRECT valid' ⟨lt, by decide⟩ present same).2

theorem Owned.setBlock (owned : Owned sb fs) (lt : i < sb.ninodes) (small : bn < MAXFILE)
    (present : fs.held i (slot bn) ≠ 0) (bytes : Bytes) :
    Owned sb (fs.setBlock (fs.held i (slot bn)) bytes) ∧
      (∀ j k, Slot sb j k → (fs.setBlock (fs.held i (slot bn)) bytes).held j k = fs.held j k) ∧
      ∀ j bn', j < sb.ninodes → bn' < MAXFILE →
        (fs.setBlock (fs.held i (slot bn)) bytes).view j bn' =
          if j = i ∧ bn' = bn then some bytes else fs.view j bn' := by
  have valid : Slot sb i (slot bn) := ⟨lt, slot_lt small⟩
  have isData := (owned.inData i _ valid present).1
  have start : sb.dataStart ≤ sb.size := Nat.sub_le ..
  -- No indirect block is the block that changes.
  have slots j k (isSlot : Slot sb j k) :
      (fs.setBlock (fs.held i (slot bn)) bytes).held j k = fs.held j k := by
    have sameInode : ((fs.setBlock (fs.held i (slot bn)) bytes).inode j).addrs =
        (fs.inode j).addrs := rfl
    refine held_congr sameInode (fun there => ?_) k
    refine update_of_ne (fun same => ?_) ..
    exact slot_ne_indirect bn
      (owned.only j NDIRECT i _ ⟨isSlot.1, by decide⟩ valid there same).2.symm
  refine ⟨⟨fun x pre => ?_, fun j k isSlot there => ?_, fun j k isSlot there => ?_,
    fun j k j' k' isSlot isSlot' there same => ?_⟩, slots, fun j bn' lt' small' => ?_⟩
  · rw [isFree_setBlock isData _ (by omega)]
    exact owned.system x pre
  · rw [slots j k isSlot] at there ⊢
    exact owned.inData j k isSlot there
  · rw [slots j k isSlot] at there ⊢
    rw [isFree_setBlock isData _ (owned.inData j k isSlot there).2]
    exact owned.marked j k isSlot there
  · rw [slots j k isSlot] at there same
    rw [slots j' k' isSlot'] at same
    exact owned.only j k j' k' isSlot isSlot' there same
  have valid' : Slot sb j (slot bn') := ⟨lt', slot_lt small'⟩
  split
  next same =>
    rw [same.1, same.2, view_of_held (slots i _ valid) present]
    exact congrArg some (update_self ..)
  next other =>
    refine view_congr (slots j _ valid') fun there => ?_
    refine update_of_ne (fun same => other ?_) ..
    obtain ⟨sameInode, sameSlot⟩ := owned.only j _ i _ valid' valid there same
    exact ⟨sameInode, slot_inj sameSlot⟩

end FileSystem

end Xv6Rv32im.Fs
