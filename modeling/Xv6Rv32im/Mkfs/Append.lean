import Xv6Rv32im.Mkfs.Mirror

/-!
# Appending to a file

A file of the image has a block for each of its bytes and no other block, so the size of a file
determines how many blocks it takes.  `iappend` writes behind the end of one file and leaves the
others as they are.
-/

namespace Xv6Rv32im.Mkfs

open Fs Fs.FileSystem Library.ByteWords Function Image

def blocksOf (size : Nat) : Nat :=
  (size + (BSIZE - 1)) / BSIZE + if NDIRECT * BSIZE < size then 1 else 0

theorem blocksOf_mono {size size' : Nat} (le : size ≤ size') : blocksOf size ≤ blocksOf size' := by
  unfold blocksOf BSIZE NDIRECT
  split <;> split <;> omega

structure Packed (fs : FileSystem) (i top : Nat) : Prop where
  data : ∀ bn < MAXFILE, (fs.held i (slot bn) = 0 ↔ top ≤ bn * BSIZE)
  indirect : fs.held i NDIRECT = 0 ↔ top ≤ NDIRECT * BSIZE

def source (p : Nat → BitVec 8) : Source where
  byte := p
  copied := fun _ len => len
  copied_le := fun _ len => Nat.le_refl len

variable {m m' m₀ : Image} {fs fs' fs₀ fs₁ fs₂ : FileSystem} {p : Nat → BitVec 8}
  {i j k b bn n lo tot top len rounds : Nat}

section

variable (packed : Packed fs i top)

include packed

theorem Packed.congr (lt : i < NINODES)
    (same : ∀ k, Slot layout i k → fs'.held i k = fs.held i k) : Packed fs' i top := by
  refine ⟨fun bn small => ?_, ?_⟩
  · rw [same _ ⟨lt, slot_lt small⟩]
    exact packed.data bn small
  · rw [same NDIRECT ⟨lt, by decide⟩]
    exact packed.indirect

theorem Packed.missing (small : top / BSIZE < MAXFILE) (some : 0 < len)
    (fits : top % BSIZE + len ≤ BSIZE) :
    blocksOf top + missing fs i (top / BSIZE) = blocksOf (top + len) := by
  unfold FileSystem.missing blocksOf
  simp only [packed.data _ small, packed.indirect]
  unfold BSIZE NDIRECT at *
  split <;> split <;> split <;> split <;> omega

theorem Packed.mapped (lt : i < NINODES) (small : top / BSIZE < MAXFILE) (some : 0 < len)
    (fits : top % BSIZE + len ≤ BSIZE) (indirect : Indirect layout fs i (top / BSIZE) fs₁)
    (mapping : Mapping layout fs₁ i (slot (top / BSIZE)) b fs₂) : Packed fs₂ i (top + len) := by
  constructor
  · intro bn isBlock
    have valid : Slot layout i (slot bn) := ⟨lt, slot_lt isBlock⟩
    by_cases here : bn = top / BSIZE
    · rw [here, mapping.held_self ⟨lt, slot_lt small⟩]
      have nonzero := mapping.ne_zero
      unfold BSIZE at *
      omega
    have same : fs₂.held i (slot bn) = fs.held i (slot bn) := by
      rw [mapping.held_of_ne valid fun both => here (slot_inj both.2)]
      obtain ⟨-, rfl⟩ | ⟨-, ind, mapping₁⟩ := indirect
      · rfl
      · exact mapping₁.held_of_ne valid fun both => slot_ne_indirect bn both.2
    rw [same, packed.data bn isBlock]
    unfold BSIZE at *
    omega
  · have valid : Slot layout i NDIRECT := ⟨lt, by decide⟩
    rw [mapping.held_of_ne valid fun both => slot_ne_indirect _ both.2.symm]
    obtain ⟨direct, rfl⟩ | ⟨beyond, ind, mapping₁⟩ := indirect
    · rw [packed.indirect]
      unfold BSIZE NDIRECT at *
      omega
    rw [mapping₁.held_self valid]
    have nonzero := mapping₁.ne_zero
    unfold BSIZE NDIRECT at *
    omega

end

/-! ## The loop -/

structure Appending (p : Nat → BitVec 8) (m₀ m : Image) (fs₀ fs : FileSystem) (i lo tot : Nat) :
    Prop where
  moves : Moves m₀ m fs₀ fs i
  wrote : Wrote layout (source p) fs₀ fs i lo tot
  packed : Packed fs i (lo + tot)
  counted : m.freeblock + blocksOf lo = m₀.freeblock + blocksOf (lo + tot)

theorem Appending.round (appending : Appending p m₀ m fs₀ fs i lo tot) (lt : i < NINODES)
    (bound : lo + n ≤ MAXFILE * BSIZE) (more : tot < n)
    (room : m₀.freeblock + blocksOf (lo + n) ≤ FSSIZE + blocksOf lo) :
    ∃ b m' fs' buf, m.block (fs.inode i) ((lo + tot) / BSIZE) = .ok (b, fs'.inode i, m') ∧
      m'.rsect b = .ok buf ∧
      Appending p m₀ (m'.wsect b (memmove buf ((lo + tot) % BSIZE) (chunk n (lo + tot) tot)
        fun j => p (tot + j))) fs₀ fs' i lo (tot + chunk n (lo + tot) tot) := by
  have small : (lo + tot) / BSIZE < MAXFILE := block_lt (by omega)
  have pos := chunk_pos more (lo + tot)
  have bounded := chunk_le n (lo + tot) tot
  have fits := chunk_fits n (lo + tot) tot
  have takes := appending.packed.missing small pos fits
  have counted := appending.counted
  have mono : blocksOf (lo + tot + chunk n (lo + tot) tot) ≤ blocksOf (lo + n) :=
    blocksOf_mono (by omega)
  have owned := appending.moves.owned
  obtain ⟨b, m', fs₁, fs₂, found, indirect, mapping, moves, counted'⟩ :=
    block_spec appending.moves.mirrors owned lt small (by omega)
  have valid : Slot layout i (slot ((lo + tot) / BSIZE)) := ⟨lt, slot_lt small⟩
  have isHeld := mapping.held_self valid
  have nonzero := mapping.ne_zero
  obtain ⟨first, used, last⟩ := moves.mirrors.held_lt moves.owned valid (by rwa [isHeld])
  rw [isHeld] at first used last
  have cached : fs₂.cache b = m'.disk b := moves.mirrors.cache b (by
    change _ ≠ 45
    change 46 ≤ _ at first
    omega)
  have round := round_fill owned lt small indirect mapping ((lo + tot) % BSIZE)
    (chunk n (lo + tot) tot) fun j => p (tot + j)
  have slots := (moves.owned.setBlock lt small (by rwa [isHeld]) (memmove (fs₂.cache b)
    ((lo + tot) % BSIZE) (chunk n (lo + tot) tot) fun j => p (tot + j))).2.1
  rw [isHeld] at slots
  have packed := appending.packed.mapped lt small pos fits indirect mapping
  have written := moves.mirrors.wsect first used (memmove (fs₂.cache b) ((lo + tot) % BSIZE)
    (chunk n (lo + tot) tot) fun j => p (tot + j))
  refine ⟨b, m', fs₂.setBlock b (memmove (fs₂.cache b) ((lo + tot) % BSIZE)
    (chunk n (lo + tot) tot) fun j => p (tot + j)), m'.disk b, found,
    rsect_of_lt moves.mirrors.length last, ?_⟩
  rw [← cached]
  refine ⟨(appending.moves.trans moves).trans ⟨written, round.owned, fun x pre => ?_, rfl,
    fun _ _ => rfl, fun j l valid' _ => slots j l valid', rfl⟩, ?_, ?_, ?_⟩
  · rw [wsect_disk last, update_of_ne (by omega)]
  · exact appending.wrote.round lt round fits (by omega)
  · rw [← add_assoc]
    exact packed.congr lt fun l valid' => slots i l valid'
  · change m'.freeblock + _ = _
    rw [← add_assoc]
    omega

theorem appendFrom_spec (lt : i < NINODES) (bound : lo + n ≤ MAXFILE * BSIZE)
    (room : m₀.freeblock + blocksOf (lo + n) ≤ FSSIZE + blocksOf lo)
    (appending : Appending p m₀ m fs₀ fs i lo tot) (le : tot ≤ n)
    (enough : Enough n (lo + tot) tot rounds) :
    ∃ m' fs', appendFrom p n rounds m (fs.inode i) (lo + tot) tot =
        .ok (m', fs'.inode i, lo + n) ∧ Appending p m₀ m' fs₀ fs' i lo n := by
  induction rounds generalizing m fs tot with
  | zero => exact absurd enough.1 (lt_irrefl _)
  | succ rounds ih =>
    rw [appendFrom]
    by_cases more : tot < n
    · obtain ⟨b, m', fs', buf, found, isRead, next⟩ := appending.round lt bound more room
      have bounded := chunk_le n (lo + tot) tot
      have later := enough.next more
      rw [add_assoc] at later
      obtain ⟨m'', fs'', ran, done⟩ := ih next (by omega) later
      refine ⟨m'', fs'', ?_, done⟩
      have small : (lo + tot) / BSIZE < MAXFILE := block_lt (by omega)
      have size : min (n - tot) (((lo + tot) / BSIZE + 1) * BSIZE - (lo + tot)) =
          chunk n (lo + tot) tot := by
        unfold chunk BSIZE
        omega
      have offset : lo + tot - (lo + tot) / BSIZE * BSIZE = (lo + tot) % BSIZE := by
        unfold BSIZE
        omega
      rw [if_pos more]
      rw [if_pos small, found]
      dsimp only
      rw [isRead]
      dsimp only
      rw [size, offset, add_assoc lo, ran]
    · have done : tot = n := le_antisymm le (not_lt.mp more)
      rw [if_neg more, ← done]
      exact ⟨m, fs, rfl, appending⟩

/-! ## `iappend` -/

/-- The inode blocks of the image hold the inodes of the file system. -/
def Stored (m : Image) (fs : FileSystem) : Prop :=
  ∀ j < NINODES, loadDinode (m.disk (layout.iblock j)) (64 * (j % IPB)) = fs.inode j

theorem iblock_lt (lt : j < NINODES) :
    layout.iblock j < nmeta ∧ layout.iblock j ≠ layout.bmapstart := by
  have bound : j < 200 := lt
  change j / 16 + 32 < 46 ∧ j / 16 + 32 ≠ 45
  omega

theorem iblock_ne_one (j : Nat) : layout.iblock j ≠ 1 := by
  change j / 16 + 32 ≠ 1
  omega

section

variable (mirrors : Mirrors m fs) (owned : Owned layout fs) (lt : i < NINODES)

include mirrors owned lt

theorem Mirrors.fits {size : Nat} (small : size < 2 ^ 32) :
    Dinode.Fits { fs.inode i with size := size } where
  size := small
  addrs := by
    intro k isAddress
    rw [← held_address isAddress]
    by_cases empty : fs.held i k = 0
    · rw [empty]
      decide
    · have bound := (owned.inData i k ⟨lt, by unfold SLOTS; omega⟩ empty).2
      have limit := layout.small
      omega
  rest := mirrors.rest i

theorem winode_spec (stored : ∀ j < NINODES, j ≠ i →
      loadDinode (m.disk (layout.iblock j)) (64 * (j % IPB)) = fs.inode j) {d : Dinode}
    (fits : d.Fits) (sameAddrs : d.addrs = (fs.inode i).addrs) :
    ∃ m' fs', m.winode i d = .ok m' ∧ Mirrors m' fs' ∧ SameFiles layout fs fs' ∧ Stored m' fs' ∧
      m'.freeinode = m.freeinode ∧ m'.freeblock = m.freeblock ∧
      fs'.inode = update fs.inode i d ∧
      ∀ b, b ≠ layout.iblock i → m'.disk b = m.disk b := by
  obtain ⟨pre, notBitmap⟩ := iblock_lt lt
  have small : layout.iblock i < FSSIZE := lt_trans pre (by decide)
  have disk := wsect_disk (m := m) small (storeDinode (m.disk (layout.iblock i)) (64 * (i % IPB)) d)
  have sized : SameFiles layout fs (fs.setInode i d) := setInode_same layout sameAddrs
  have same := sized.trans (iupdate_same (sized.owned owned) lt)
  have isInode : (fs.setInode i d).inode i = d := update_self ..
  refine ⟨m.wsect (layout.iblock i) (storeDinode (m.disk (layout.iblock i)) (64 * (i % IPB)) d),
    iupdate layout (fs.setInode i d) i, ?_, ?_, same, fun j valid => ?_, rfl, rfl, rfl,
    fun b other => ?_⟩
  · unfold winode
    rw [rsect_of_lt mirrors.length small]
    rfl
  · have first := mirrors.first
    refine ⟨wsect_length mirrors.length small _, first, mirrors.last, fun b other => ?_,
      fun b last => (same.bits b last).trans (mirrors.bits b last), fun b above last => ?_,
      fun j k isRest => ?_⟩
    · rw [disk]
      change update fs.cache (layout.iblock i) (storeDinode (fs.cache (layout.iblock i)) _
        ((fs.setInode i d).inode i)) b = _
      rw [isInode, mirrors.cache _ notBitmap, update_apply, update_apply, mirrors.cache b other]
    · change m.freeblock ≤ b at above
      rw [disk, update_of_ne (by omega)]
      exact mirrors.zero b above last
    change (update fs.inode i d j).addrs k = 0
    rw [update_apply]
    split
    · rw [sameAddrs]
      exact mirrors.rest i k isRest
    · exact mirrors.rest j k isRest
  · rw [disk]
    change _ = update fs.inode i d j
    by_cases own : j = i
    · rw [own, update_self, update_self, loadDinode_storeDinode _ _ fits]
    · rw [update_of_ne own, ← stored j valid own]
      exact loadDinode_iblock layout (update_self ..) (fun b other => update_of_ne other ..) own
  · rw [disk, update_of_ne other]

end

structure Appended (p : Nat → BitVec 8) (n : Nat) (m m' : Image) (fs fs' : FileSystem) (i : Nat) :
    Prop where
  mirrors : Mirrors m' fs'
  owned : Owned layout fs'
  stored : Stored m' fs'
  freeinode : m'.freeinode = m.freeinode
  superblock : m'.disk 1 = m.disk 1
  inode : ∀ j ≠ i, fs'.inode j = fs.inode j
  held : ∀ j k, Slot layout j k → j ≠ i → fs'.held j k = fs.held j k
  others : ∀ j x, j < NINODES → j ≠ i → x < MAXFILE * BSIZE → fs'.byte j x = fs.byte j x
  type : (fs'.inode i).type = (fs.inode i).type
  size : (fs'.inode i).size = (fs.inode i).size + n
  bytes : ∀ x < MAXFILE * BSIZE, fs'.byte i x = writeArray (fs.byte i) (fs.inode i).size n p x
  packed : Packed fs' i ((fs.inode i).size + n)
  counted : m'.freeblock + blocksOf (fs.inode i).size =
    m.freeblock + blocksOf ((fs.inode i).size + n)

theorem iappend_spec (mirrors : Mirrors m fs) (owned : Owned layout fs) (stored : Stored m fs)
    (lt : i < NINODES) (packed : Packed fs i (fs.inode i).size)
    (bound : (fs.inode i).size + n ≤ MAXFILE * BSIZE)
    (room : m.freeblock + blocksOf ((fs.inode i).size + n) ≤ FSSIZE + blocksOf (fs.inode i).size) :
    ∃ m' fs', m.iappend i p n = .ok m' ∧ Appended p n m m' fs fs' i := by
  obtain ⟨pre, -⟩ := iblock_lt lt
  have start : Appending p m m fs fs i (fs.inode i).size 0 :=
    ⟨.refl mirrors owned i, .refl owned i _, packed, rfl⟩
  obtain ⟨m₁, fs₁, looped, appending⟩ := appendFrom_spec lt bound room start (Nat.zero_le n)
    (enough_initial n (fs.inode i).size)
  have moves := appending.moves
  have sizes : (fs.inode i).size + n < 2 ^ 32 := lt_of_le_of_lt bound (by decide)
  obtain ⟨m', fs', ran, mirrors', same, stored', freeinode, freeblock, inodes, disk⟩ :=
    winode_spec moves.mirrors moves.owned lt (fun j valid other => by
        rw [moves.system _ (iblock_lt valid).1, stored j valid, moves.inode j other])
      (moves.mirrors.fits moves.owned lt sizes) rfl
  have isRead : m.rinode i = .ok (fs.inode i) := by
    unfold rinode
    rw [rsect_of_lt mirrors.length (lt_trans pre (by decide)), ← stored i lt]
    rfl
  have views {j x : Nat} (valid : j < NINODES) (small : x < MAXFILE * BSIZE) :
      fs'.byte j x = fs₁.byte j x := by
    unfold byte
    rw [same.view moves.owned valid (block_lt small)]
  refine ⟨m', fs', ?_, mirrors', same.owned moves.owned, stored', freeinode.trans moves.freeinode,
    ?_, fun j other => ?_, fun j k valid other => ?_, fun j x valid other small => ?_, ?_, ?_,
    fun x small => ?_, ?_, ?_⟩
  · unfold iappend
    rw [isRead]
    change (appendFrom p n _ m (fs.inode i) ((fs.inode i).size + 0) 0 >>= _) = _
    rw [looped]
    exact ran
  · rw [disk 1 (iblock_ne_one i).symm, moves.system 1 (by decide)]
  · rw [inodes, update_of_ne other, moves.inode j other]
  · rw [same.held j k valid, moves.held j k valid other]
  · rw [views valid small]
    unfold byte
    rw [appending.wrote.others j _ valid other (block_lt small)]
  · rw [inodes, update_self]
    exact moves.type
  · rw [inodes, update_self]
  · rw [views lt small]
    exact appending.wrote.bytes x small
  · exact appending.packed.congr lt fun k valid => same.held i k valid
  · rw [freeblock]
    exact appending.counted

end Xv6Rv32im.Mkfs
