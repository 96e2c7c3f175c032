import Xv6Rv32im.Fs.InodeBlocks
import Xv6Rv32im.Fs.ReadWrite
import Xv6Rv32im.Mkfs.Model

/-!
# The image as a file system of the kernel

`mkfs` hands out blocks in order and writes the bitmap at the end.  An image is mirrored by a file
system of the kernel whose bitmap marks the blocks handed out so far; finding a block in `iappend`
is then `bmap` of the kernel, and so appending is writing at the end of the file.
-/

namespace Xv6Rv32im.Mkfs

open Fs Fs.FileSystem Library.ByteWords Function Image

variable {m m' m'' : Image} {fs fs' fs'' fs₁ : FileSystem} {i j k b bn : Nat}

namespace Image

theorem position_of_lt (small : b < FSSIZE) : position b = b := by
  unfold position
  unfold FSSIZE at small
  omega

theorem rsect_of_lt (length : m.length = FSSIZE) (small : b < FSSIZE) :
    m.rsect b = .ok (m.disk b) := by
  unfold rsect
  rw [position_of_lt small, length, if_pos small]

theorem wsect_disk (small : b < FSSIZE) (buf : Bytes) :
    (m.wsect b buf).disk = update m.disk b buf := by
  unfold wsect
  rw [position_of_lt small]

theorem wsect_length (length : m.length = FSSIZE) (small : b < FSSIZE) (buf : Bytes) :
    (m.wsect b buf).length = FSSIZE := by
  unfold wsect
  dsimp only
  rw [position_of_lt small, length]
  omega

end Image

/-- The file system has the blocks of the image, but its bitmap marks the blocks handed out. -/
structure Mirrors (m : Image) (fs : FileSystem) : Prop where
  length : m.length = FSSIZE
  first : nmeta ≤ m.freeblock
  last : m.freeblock ≤ FSSIZE
  cache : ∀ b, b ≠ layout.bmapstart → fs.cache b = m.disk b
  bits : ∀ b < FSSIZE, isFree layout fs b = decide (m.freeblock ≤ b)
  zero : ∀ b, m.freeblock ≤ b → b < FSSIZE → m.disk b = fun _ => 0
  rest : ∀ i k, NDIRECT < k → (fs.inode i).addrs k = 0

/-- A part of appending to a file: the other files keep their inodes and blocks. -/
structure Moves (m m' : Image) (fs fs' : FileSystem) (i : Nat) : Prop where
  mirrors : Mirrors m' fs'
  owned : Owned layout fs'
  system : ∀ b < nmeta, m'.disk b = m.disk b
  freeinode : m'.freeinode = m.freeinode
  inode : ∀ j ≠ i, fs'.inode j = fs.inode j
  held : ∀ j k, Slot layout j k → j ≠ i → fs'.held j k = fs.held j k
  type : (fs'.inode i).type = (fs.inode i).type

theorem Moves.refl (mirrors : Mirrors m fs) (owned : Owned layout fs) (i : Nat) :
    Moves m m fs fs i :=
  ⟨mirrors, owned, fun _ _ => rfl, rfl, fun _ _ => rfl, fun _ _ _ _ => rfl, rfl⟩

theorem Moves.trans (first : Moves m m' fs fs' i) (second : Moves m' m'' fs' fs'' i) :
    Moves m m'' fs fs'' i where
  mirrors := second.mirrors
  owned := second.owned
  system := fun b pre => (second.system b pre).trans (first.system b pre)
  freeinode := second.freeinode.trans first.freeinode
  inode := fun j other => (second.inode j other).trans (first.inode j other)
  held := fun j k valid other => (second.held j k valid other).trans (first.held j k valid other)
  type := second.type.trans first.type

section

variable (mirrors : Mirrors m fs)

include mirrors

theorem Mirrors.held_lt (owned : Owned layout fs) (valid : Slot layout i k)
    (present : fs.held i k ≠ 0) :
    nmeta ≤ fs.held i k ∧ fs.held i k < m.freeblock ∧ fs.held i k < FSSIZE := by
  obtain ⟨first, last⟩ := owned.inData i k valid present
  have marked := owned.marked i k valid present
  rw [mirrors.bits _ last, decide_eq_false_iff_not] at marked
  exact ⟨first, not_le.mp marked, last⟩

theorem Mirrors.logWrite (b : Nat) : Mirrors m (fs.logWrite b) :=
  ⟨mirrors.length, mirrors.first, mirrors.last, mirrors.cache, mirrors.bits, mirrors.zero,
    mirrors.rest⟩

theorem Mirrors.wsect (isData : nmeta ≤ b) (used : b < m.freeblock) (bytes : Bytes) :
    Mirrors (m.wsect b bytes) (fs.setBlock b bytes) := by
  have last := mirrors.last
  have small : b < FSSIZE := by omega
  have disk := wsect_disk (m := m) small bytes
  refine ⟨wsect_length mirrors.length small bytes, mirrors.first, last, fun x other => ?_,
    fun x lt => ?_, fun x above lt => ?_, mirrors.rest⟩
  · rw [disk]
    change update fs.cache b bytes x = _
    rw [update_apply, update_apply, mirrors.cache x other]
  · rw [isFree_setBlock isData bytes lt]
    exact mirrors.bits x lt
  · change m.freeblock ≤ x at above
    rw [disk, update_of_ne (by omega)]
    exact mirrors.zero x above lt

section

variable (owned : Owned layout fs)

include owned

theorem Mirrors.allocate (room : m.freeblock < FSSIZE) :
    Allocates layout fs ((markUsed layout fs m.freeblock).bzero m.freeblock) m.freeblock ∧
      Mirrors { m with freeblock := m.freeblock + 1 }
        ((markUsed layout fs m.freeblock).bzero m.freeblock) := by
  have allocates := allocates_of_free owned
    (by rw [mirrors.bits _ room]; exact decide_eq_true le_rfl) room
  have first := mirrors.first
  refine ⟨allocates, mirrors.length, Nat.le_succ_of_le first, room, fun b other => ?_,
    fun b lt => ?_, fun b above lt => mirrors.zero b (Nat.le_of_succ_le above) lt,
    mirrors.rest⟩
  · have isBitmap : layout.bblock m.freeblock = layout.bmapstart := by
      change m.freeblock / 8192 + 45 = 45
      unfold FSSIZE at room
      omega
    by_cases isNew : b = m.freeblock
    · rw [isNew, allocates.zero, mirrors.zero _ le_rfl room]
    · change update (update fs.cache (layout.bblock m.freeblock) _) m.freeblock _ b = m.disk b
      rw [update_of_ne isNew, isBitmap, update_of_ne other, mirrors.cache b other]
  · rw [allocates.bits b lt, mirrors.bits b lt]
    by_cases isNew : b = m.freeblock
    · simp [isNew]
    · simp only [isNew, ne_eq, not_false_eq_true, decide_true, Bool.and_true, decide_eq_decide]
      omega

/-! ## Finding a block -/

theorem address_spec (lt : i < NINODES) (isAddress : k ≤ NDIRECT)
    (room : fs.held i k = 0 → m.freeblock < FSSIZE) :
    ∃ b fs', Mapping layout fs i k b fs' ∧ (m.address (fs.inode i) k).1 = fs'.inode i ∧
      Moves m (m.address (fs.inode i) k).2 fs fs' i ∧ (fs'.inode i).addrs k = b ∧
      (m.address (fs.inode i) k).2.freeblock = m.freeblock + if fs.held i k = 0 then 1 else 0 := by
  have valid : Slot layout i k := ⟨lt, by unfold SLOTS; omega⟩
  have held : fs.held i k = (fs.inode i).addrs k := held_address isAddress
  unfold address
  by_cases empty : (fs.inode i).addrs k = 0
  · rw [if_pos empty]
    obtain ⟨allocates, mirrors'⟩ := mirrors.allocate owned (room (held.trans empty))
    have grows := allocates.address owned lt isAddress empty
    have mapping := Mapping.grown grows
    refine ⟨m.freeblock, _, mapping, ?_, ⟨?_, mapping.owned owned, fun _ _ => rfl, rfl,
      fun j other => ?_, fun j l valid' other => mapping.held_of_ne valid' fun both => other both.1,
      ?_⟩, ?_, ?_⟩
    · change _ = update fs.inode i _ i
      rw [update_self]
    · refine ⟨mirrors'.length, mirrors'.first, mirrors'.last, mirrors'.cache, mirrors'.bits,
        mirrors'.zero, fun j l isRest => ?_⟩
      change (update fs.inode i _ j).addrs l = 0
      rw [update_apply]
      split
      · change update (fs.inode i).addrs k m.freeblock l = 0
        rw [update_of_ne (by omega)]
        exact mirrors.rest i l isRest
      · exact mirrors.rest j l isRest
    · exact update_of_ne other ..
    · change (update fs.inode i _ i).type = _
      rw [update_self]
    · rw [← held_address isAddress]
      exact grows.held_self valid
    · rw [if_pos (held.trans empty)]
  · rw [if_neg empty]
    rw [← held] at empty
    refine ⟨fs.held i k, fs, .there empty, rfl, .refl mirrors owned i, held.symm, ?_⟩
    rw [if_neg empty, add_zero]

theorem entry_spec (lt : i < NINODES) (present : fs.held i NDIRECT ≠ 0) (e : Nat)
    (room : fs.held i (NDIRECT + 1 + e) = 0 → m.freeblock < FSSIZE) :
    ∃ b m' fs', m.entry (fs.held i NDIRECT) e = .ok (b, m') ∧
      Mapping layout fs i (NDIRECT + 1 + e) b fs' ∧ Moves m m' fs fs' i ∧ fs'.inode = fs.inode ∧
      m'.freeblock = m.freeblock + if fs.held i (NDIRECT + 1 + e) = 0 then 1 else 0 := by
  obtain ⟨first, used, last⟩ := mirrors.held_lt owned ⟨lt, by decide⟩ present
  have notBitmap : fs.held i NDIRECT ≠ layout.bmapstart := by
    change _ ≠ 45
    change 46 ≤ _ at first
    omega
  have cached := mirrors.cache _ notBitmap
  have held : fs.held i (NDIRECT + 1 + e) = word (m.disk (fs.held i NDIRECT)) e := by
    rw [held_entry (by omega), if_neg present, Nat.add_sub_cancel_left, cached]
  unfold Image.entry
  rw [rsect_of_lt mirrors.length last]
  dsimp only
  by_cases empty : word (m.disk (fs.held i NDIRECT)) e = 0
  · rw [if_pos empty]
    obtain ⟨allocates, mirrors'⟩ := mirrors.allocate owned (room (held.trans empty))
    rw [← cached] at empty
    have mapping := Mapping.grown (allocates.entry owned lt present empty)
    have cached' := mirrors'.cache _ notBitmap
    rw [cached'] at mapping
    refine ⟨m.freeblock, _, _, rfl, mapping, ⟨(mirrors'.wsect first (by
      change _ < m.freeblock + 1
      omega) _).logWrite _, mapping.owned owned, fun x pre => ?_, rfl, fun _ _ => rfl,
      fun j l valid' other => mapping.held_of_ne valid' fun both => other both.1, rfl⟩, rfl, ?_⟩
    · rw [wsect_disk last, update_of_ne (by omega)]
    · rw [cached] at empty
      rw [if_pos (held.trans empty)]
      rfl
  · rw [if_neg empty]
    rw [← held] at empty
    refine ⟨_, m, fs, rfl, held ▸ .there empty, .refl mirrors owned i, rfl, ?_⟩
    rw [if_neg empty, add_zero]

theorem block_spec (lt : i < NINODES) (small : bn < MAXFILE)
    (room : m.freeblock + missing fs i bn ≤ FSSIZE) :
    ∃ b m' fs₁ fs', m.block (fs.inode i) bn = .ok (b, fs'.inode i, m') ∧
      Indirect layout fs i bn fs₁ ∧ Mapping layout fs₁ i (slot bn) b fs' ∧ Moves m m' fs fs' i ∧
      m'.freeblock = m.freeblock + missing fs i bn := by
  unfold missing at *
  unfold block
  by_cases direct : bn < NDIRECT
  · have isSlot : slot bn = bn := if_pos direct
    have noIndirect : ¬(NDIRECT ≤ bn ∧ fs.held i NDIRECT = 0) := fun both => by omega
    rw [isSlot, if_neg noIndirect, add_zero] at room ⊢
    obtain ⟨b, fs', mapping, isInode, moves, isBlock, counted⟩ := address_spec mirrors owned lt
      (le_of_lt direct) fun empty => by
        rw [if_pos empty] at room
        omega
    refine ⟨b, _, fs, fs', ?_, .inl ⟨direct, rfl⟩, mapping, moves, counted⟩
    rw [if_pos direct]
    dsimp only
    rw [isInode, isBlock]
  · have isSlot : slot bn = NDIRECT + 1 + (bn - NDIRECT) := by
      unfold slot
      rw [if_neg direct]
      omega
    have beyond := not_lt.mp direct
    obtain ⟨ind, fs₁, mapping₁, isInode, moves₁, isBlock, counted₁⟩ := address_spec mirrors owned
      lt (Nat.le_refl NDIRECT) fun empty => by
        rw [if_pos (And.intro beyond empty)] at room
        omega
    have indirectHeld : fs₁.held i NDIRECT = ind := mapping₁.held_self ⟨lt, by decide⟩
    have same : fs₁.held i (slot bn) = fs.held i (slot bn) :=
      mapping₁.held_of_ne ⟨lt, slot_lt small⟩ fun both => slot_ne_indirect bn both.2
    have both : (NDIRECT ≤ bn ∧ fs.held i NDIRECT = 0) ↔ fs.held i NDIRECT = 0 :=
      ⟨fun h => h.2, fun h => ⟨beyond, h⟩⟩
    simp only [both] at room ⊢
    rw [isSlot] at same room ⊢
    obtain ⟨b, m', fs', ran, mapping, moves, sameInode, counted⟩ := entry_spec moves₁.mirrors
      moves₁.owned lt (by rw [indirectHeld]; exact mapping₁.ne_zero) (bn - NDIRECT)
      fun empty => by
        rw [same] at empty
        rw [if_pos empty] at room
        omega
    refine ⟨b, m', fs₁, fs', ?_, .inr ⟨beyond, ind, mapping₁⟩, mapping, moves₁.trans moves, ?_⟩
    · rw [if_neg direct, isInode, isBlock, ← indirectHeld, ran, sameInode]
    · rw [counted, counted₁, same]
      omega

end

end

end Xv6Rv32im.Mkfs
