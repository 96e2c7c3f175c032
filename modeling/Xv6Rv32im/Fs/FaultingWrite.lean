import Xv6Rv32im.Fs.ReadWrite

/-!
# A write whose copy fails

`either_copyin` copies page by page into the buffer of the block.  If it meets a page that is not
mapped, `writei` leaves its loop: the bytes that were copied stay in the cache, but are neither
counted nor passed to `log_write`.  Whether this can be seen depends on the block of the failing
round alone.
-/

namespace Xv6Rv32im.Fs

open Library.ByteWords Function List
open Library.Run (of_map_eq_ok)

namespace FileSystem

/-- The number of bytes that `copyin` copies from pages of user memory. -/
def copyinLength (page : Nat → Option Bytes) : Nat → Nat → Nat → Nat
  | 0, _, _ => 0
  | rounds + 1, srcva, len =>
    if len > 0 then
      match page (srcva / 4096) with
      | none => 0
      | some _ =>
        let n := min (4096 - srcva % 4096) len
        n + copyinLength page rounds ((srcva / 4096 + 1) * 4096 % 2 ^ 32) (len - n)
    else 0

theorem copyinLength_le (page : Nat → Option Bytes) (rounds srcva len : Nat) :
    copyinLength page rounds srcva len ≤ len := by
  induction rounds generalizing srcva len with
  | zero => exact Nat.zero_le _
  | succ rounds ih =>
    unfold copyinLength
    split
    · cases page (srcva / 4096) with
      | none => exact Nat.zero_le _
      | some _ =>
        have rest := ih ((srcva / 4096 + 1) * 4096 % 2 ^ 32) (len - min (4096 - srcva % 4096) len)
        dsimp only
        omega
    · exact Nat.zero_le _

/-- User memory from an address on; a page that is not mapped for the user is `none`. -/
def Source.user (page : Nat → Option Bytes) (src : BitVec 32) : Source where
  byte := fun k =>
    let va := (src + BitVec.ofNat 32 k).toNat
    ((page (va / 4096)).getD fun _ => 0) (va % 4096)
  copied := fun pos len => copyinLength page len (src + BitVec.ofNat 32 pos).toNat len
  copied_le := fun pos len => copyinLength_le page len (src + BitVec.ofNat 32 pos).toNat len

variable {sb : Superblock} {fs fs' fs₀ fs₁ fs₂ : FileSystem} {src : Source}
  {i k b bn bn' n lo tot : Nat}

/-! ## Blocks in the cache, in the log and on the disk -/

/-- The cached block will be written with the transaction, or is the one on the disk. -/
def Clean (fs : FileSystem) (b : Nat) : Prop :=
  b ∈ fs.log ∨ ∀ a < BSIZE, fs.cache b a = fs.disk b a

/-- All blocks of a file are clean, its indirect block included. -/
def CleanFile (fs : FileSystem) (i : Nat) : Prop :=
  ∀ k < SLOTS, fs.held i k ≠ 0 → fs.Clean (fs.held i k)

theorem Clean.logWrite (clean : fs.Clean b) (b' : Nat) : (fs.logWrite b').Clean b := by
  rcases clean with logged | same
  · exact .inl (mem_append_left _ logged)
  · exact .inr same

theorem clean_setBlock_of_ne {x : Nat} (other : x ≠ b) (bytes : Bytes) :
    (fs.setBlock b bytes).Clean x ↔ fs.Clean x := by
  unfold Clean setBlock
  dsimp only
  rw [update_of_ne other]

theorem Grows.clean (grows : Grows sb fs fs' i k b) (owned : Owned sb fs) (lt : i < sb.ninodes)
    (valid : Slot sb i k) (clean : fs.CleanFile i) : fs'.CleanFile i := by
  intro l isSlot present
  by_cases isNew : l = k
  · rw [isNew, grows.held_self valid]
    refine .inl ?_
    rw [grows.log]
    simp
  have other : ¬(i = i ∧ l = k) := fun both => isNew both.2
  have valid' : Slot sb i l := ⟨lt, isSlot⟩
  rw [grows.held_of_ne valid' other] at present ⊢
  by_cases isIndirect : NDIRECT < k ∧ fs.held i l = fs.held i NDIRECT
  · -- The indirect block changes, and is logged.
    refine .inl ?_
    rw [grows.log, if_pos isIndirect.1, isIndirect.2]
    simp
  rcases clean l isSlot present with logged | same
  · refine .inl ?_
    rw [grows.log]
    exact mem_append_left _ (mem_append_left _ logged)
  refine .inr fun a small => ?_
  rw [grows.cache _ (owned.inData i l valid' present).1 (grows.unheld owned valid')
    fun isEntry equal => isIndirect ⟨isEntry, equal⟩, grows.disk]
  exact same a small

theorem Mapping.clean (mapping : Mapping sb fs i k b fs') (owned : Owned sb fs)
    (lt : i < sb.ninodes) (valid : Slot sb i k) (clean : fs.CleanFile i) : fs'.CleanFile i := by
  cases mapping with
  | there present => exact clean
  | grown grows => exact grows.clean owned lt valid clean

theorem Mapping.disk (mapping : Mapping sb fs i k b fs') : fs'.disk = fs.disk := by
  cases mapping with
  | there present => rfl
  | grown grows => exact grows.disk

theorem Indirect.clean (indirect : Indirect sb fs i bn fs') (owned : Owned sb fs)
    (lt : i < sb.ninodes) (clean : fs.CleanFile i) : fs'.CleanFile i := by
  obtain ⟨-, rfl⟩ | ⟨-, b, mapping⟩ := indirect
  · exact clean
  · exact mapping.clean owned lt ⟨lt, by decide⟩ clean

theorem Indirect.disk (indirect : Indirect sb fs i bn fs') : fs'.disk = fs.disk := by
  obtain ⟨-, rfl⟩ | ⟨-, b, mapping⟩ := indirect
  · rfl
  · exact mapping.disk

/-- After a change of one of its blocks, the file is clean if this block is. -/
theorem cleanFile_setBlock (owned : Owned sb fs) (lt : i < sb.ninodes) (small : bn < MAXFILE)
    (isHeld : fs.held i (slot bn) = b) (present : b ≠ 0) (clean : fs.CleanFile i) (bytes : Bytes) :
    (fs.setBlock b bytes).CleanFile i ↔ (fs.setBlock b bytes).Clean b := by
  have slots := (owned.setBlock lt small (by rwa [isHeld]) bytes).2.1
  rw [isHeld] at slots
  constructor
  · intro cleanFile
    have here := cleanFile _ (slot_lt small)
    rw [slots i _ ⟨lt, slot_lt small⟩, isHeld] at here
    exact here present
  intro cleanBlock k isSlot there
  rw [slots i k ⟨lt, isSlot⟩] at there ⊢
  by_cases same : fs.held i k = b
  · rw [same]
    exact cleanBlock
  · exact (clean_setBlock_of_ne same bytes).mpr (clean k isSlot there)

/-- The end of `writei` keeps the blocks of a file as clean as they are. -/
theorem cleanFile_finishWrite (owned : Owned sb fs) (lt : i < sb.ninodes) (off : Nat) :
    (finishWrite sb fs i off).CleanFile i ↔ fs.CleanFile i := by
  have pre : sb.iblock i < sb.dataStart := sb.inodes i lt
  have log : (finishWrite sb fs i off).log = fs.log ++ [sb.iblock i] := by
    unfold finishWrite
    dsimp only
    split <;> rfl
  have disk : (finishWrite sb fs i off).disk = fs.disk := by
    unfold finishWrite
    dsimp only
    split <;> rfl
  have same := finishWrite_same owned lt off
  have blocks k (isSlot : k < SLOTS) (present : fs.held i k ≠ 0) :
      (finishWrite sb fs i off).Clean (fs.held i k) ↔ fs.Clean (fs.held i k) := by
    have isData := (owned.inData i k ⟨lt, isSlot⟩ present).1
    have other : fs.held i k ≠ sb.iblock i := by omega
    unfold Clean
    rw [log, disk, same.cache _ isData, mem_append, mem_singleton]
    simp only [other, or_false]
  constructor
  · intro clean k isSlot present
    have slots := same.held i k ⟨lt, isSlot⟩
    have here := clean k isSlot
    rw [slots] at here
    exact (blocks k isSlot present).mp (here present)
  · intro clean k isSlot present
    rw [same.held i k ⟨lt, isSlot⟩] at present ⊢
    exact (blocks k isSlot present).mpr (clean k isSlot present)

/-! ## Blocks that are not touched -/

/-- A block of the file is held as before, and was not logged since. -/
structure Untouched (fs₀ fs : FileSystem) (i bn : Nat) : Prop where
  held : fs.held i (slot bn) = fs₀.held i (slot bn)
  log : fs₀.held i (slot bn) ≠ 0 → (fs₀.held i (slot bn) ∈ fs.log ↔ fs₀.held i (slot bn) ∈ fs₀.log)

section

variable (untouched : Untouched fs₀ fs i bn) (owned : Owned sb fs) (lt : i < sb.ninodes)
    (small : bn < MAXFILE)

include untouched owned lt small

theorem Untouched.mapping (mapping : Mapping sb fs i k b fs') (other : slot bn ≠ k) :
    Untouched fs₀ fs' i bn := by
  cases mapping with
  | there present => exact untouched
  | grown grows =>
    have valid : Slot sb i (slot bn) := ⟨lt, slot_lt small⟩
    refine ⟨(grows.held_of_ne valid fun both => other both.2).trans untouched.held,
      fun present => ?_⟩
    rw [← untouched.log present, grows.log]
    rw [← untouched.held] at present ⊢
    have isData := (owned.inData i _ valid present).1
    have notBitmap : fs.held i (slot bn) ≠ sb.bblock b := by
      have pre : sb.bblock b < sb.dataStart := sb.bitmap b grows.last
      omega
    have notNew := grows.unheld owned valid
    have notIndirect : fs.held i (slot bn) ≠ fs.held i NDIRECT := fun same =>
      slot_ne_indirect bn (owned.only i _ i NDIRECT valid ⟨lt, by decide⟩ present same).2
    split <;> simp [notBitmap, notNew, notIndirect]

variable {len : Nat}

theorem Untouched.fill (small' : bn' < MAXFILE) (isHeld : fs.held i (slot bn') = b)
    (nonzero : b ≠ 0) (other : bn ≠ bn') (off : Nat) :
    Untouched fs₀ ((fs.fill src b off tot len).logWrite b) i bn := by
  have valid : Slot sb i (slot bn) := ⟨lt, slot_lt small⟩
  have slots := (owned.setBlock lt small' (by rwa [isHeld])
    (memmove (fs.cache b) (off % BSIZE) len fun j => src.byte (tot + j))).2.1
  rw [isHeld] at slots
  refine ⟨(slots i (slot bn) valid).trans untouched.held, fun present => ?_⟩
  rw [← untouched.log present]
  rw [← untouched.held] at present ⊢
  have notBlock : fs.held i (slot bn) ≠ b := fun same =>
    other (slot_inj (owned.only i _ i _ valid ⟨lt, slot_lt small'⟩ present
      (same.trans isHeld.symm)).2)
  change fs.held i (slot bn) ∈ fs.log ++ [b] ↔ _
  simp [notBlock]

end

/-! ## The rounds before the failing one -/

/-- The copy of each round that starts before a place is complete.  Rounds start at the offset of
the call and at the blocks behind it. -/
def CopiesUpTo (src : Source) (n lo tot : Nat) : Prop :=
  ∀ t < tot, t = 0 ∨ (lo + t) % BSIZE = 0 →
    src.copied t (chunk n (lo + t) t) = chunk n (lo + t) t

structure Progress (sb : Superblock) (src : Source) (fs₀ fs : FileSystem) (i n lo tot : Nat) :
    Prop where
  copies : CopiesUpTo src n lo tot
  wrote : Wrote sb src fs₀ fs i lo tot
  disk : fs.disk = fs₀.disk
  aligned : tot < n → tot = 0 ∨ (lo + tot) % BSIZE = 0
  clean : fs.CleanFile i
  untouched : ∀ bn < MAXFILE, (∀ x, lo ≤ x → x < lo + tot → x / BSIZE ≠ bn) → Untouched fs₀ fs i bn

theorem Progress.round (progress : Progress sb src fs₀ fs i n lo tot) (lt : i < sb.ninodes)
    (bound : lo + n ≤ MAXFILE * BSIZE) (more : tot < n)
    (mapped : bmap sb fs i ((lo + tot) / BSIZE) = .ok (b, fs₂))
    (full : src.copied tot (chunk n (lo + tot) tot) = chunk n (lo + tot) tot) :
    Progress sb src fs₀ ((fs₂.fill src b (lo + tot) tot (chunk n (lo + tot) tot)).logWrite b) i n lo
      (tot + chunk n (lo + tot) tot) := by
  have small : (lo + tot) / BSIZE < MAXFILE := block_lt (by omega)
  have owned := progress.wrote.owned
  obtain ⟨fs₁, indirect, mapping⟩ := bmap_returns owned lt small mapped
  have valid : Slot sb i (slot ((lo + tot) / BSIZE)) := ⟨lt, slot_lt small⟩
  have owned₁ := indirect.owned owned
  have owned₂ := mapping.owned owned₁
  have isHeld := mapping.held_self valid
  have nonzero := mapping.ne_zero
  have positive := chunk_pos more (lo + tot)
  have bounded := chunk_le n (lo + tot) tot
  have round := round_fill owned lt small indirect mapping
    ((lo + tot) % BSIZE) (chunk n (lo + tot) tot) fun j => src.byte (tot + j)
  constructor
  · intro t below starts
    rcases lt_trichotomy t tot with early | rfl | late
    · exact progress.copies t early starts
    · exact full
    · have fits := chunk_fits n (lo + tot) tot
      unfold BSIZE at *
      omega
  · exact (progress.wrote.round lt round (chunk_fits ..) (by omega)).logWrite b
  · exact (mapping.disk.trans indirect.disk).trans progress.disk
  · intro still
    refine .inr ?_
    unfold chunk BSIZE at *
    omega
  · have clean₂ := mapping.clean owned₁ lt valid (indirect.clean owned lt progress.clean)
    have slots := (owned₂.setBlock lt small (by rwa [isHeld]) (memmove (fs₂.cache b)
      ((lo + tot) % BSIZE) (chunk n (lo + tot) tot) fun j => src.byte (tot + j))).2.1
    rw [isHeld] at slots
    intro k isSlot present
    change (fs₂.setBlock b _).held i k ≠ 0 at present
    change (((fs₂.setBlock b _).logWrite b)).Clean ((fs₂.setBlock b _).held i k)
    rw [slots i k ⟨lt, isSlot⟩] at present ⊢
    by_cases same : fs₂.held i k = b
    · rw [same]
      exact .inl (mem_append_right _ (mem_singleton_self b))
    · exact ((clean_setBlock_of_ne same _).mpr (clean₂ k isSlot present)).logWrite b
  · intro bn small' pre
    have other : bn ≠ (lo + tot) / BSIZE :=
      fun same => pre (lo + tot) (by omega) (by omega) same.symm
    have untouched := progress.untouched bn small' fun x above below => pre x above (by omega)
    have untouched₁ : Untouched fs₀ fs₁ i bn := by
      obtain ⟨-, rfl⟩ | ⟨-, ind, mapping₁⟩ := indirect
      · exact untouched
      · exact untouched.mapping owned lt small' mapping₁ (slot_ne_indirect bn)
    have untouched₂ := untouched₁.mapping owned₁ lt small' mapping fun same =>
      other (slot_inj same)
    exact untouched₂.fill owned₂ lt small' small isHeld nonzero other (lo + tot)

/-! ## The failing round -/

/-- Nothing outside the reported bytes changed in the file, and its blocks are clean. -/
def Unchanged (fs fs' : FileSystem) (i off tot : Nat) : Prop :=
  (∀ x < (fs.inode i).size, ¬(off ≤ x ∧ x < off + tot) → fs'.byte i x = fs.byte i x) ∧
    fs'.CleanFile i

/-- The first bytes of a copy are those of the file already, as far as these are inside a bound. -/
def SameBytes (src : Source) (fs : FileSystem) (i pos tot len bound : Nat) : Prop :=
  ∀ j < len, pos + j < bound → src.byte (tot + j) = fs.byte i (pos + j)

/-- The copy of the round that starts there is the first one to fail. -/
structure FirstFault (src : Source) (n off tot : Nat) : Prop where
  starts : tot = 0 ∨ (off + tot) % BSIZE = 0
  fails : src.copied tot (chunk n (off + tot) tot) < chunk n (off + tot) tot
  copies : CopiesUpTo src n off tot

theorem FirstFault.le {tot' : Nat} (first : FirstFault src n lo tot)
    (first' : FirstFault src n lo tot') : tot ≤ tot' :=
  not_lt.mp fun early => first'.fails.ne (first.copies tot' early first'.starts)

/-- The block of the round is new, or the bytes that were copied to it are those that it has, or it
is in the log anyway and gets only such bytes before the end of the file. -/
def HarmlessAt (src : Source) (fs : FileSystem) (i n off tot : Nat) : Prop :=
  let pos := off + tot
  let len := src.copied tot (chunk n pos tot)
  fs.view i (pos / BSIZE) = none ∨ SameBytes src fs i pos tot len (pos + len) ∨
    fs.held i (slot (pos / BSIZE)) ∈ fs.log ∧ SameBytes src fs i pos tot len (fs.inode i).size

/-- The first round whose copy fails is harmless. -/
def Harmless (src : Source) (fs : FileSystem) (i n off : Nat) : Prop :=
  ∃ tot, FirstFault src n off tot ∧ HarmlessAt src fs i n off tot

section

variable (progress : Progress sb src fs₀ fs i n lo tot)

include progress

theorem Progress.fresh (more : tot < n) (x : Nat) (above : lo ≤ x) (below : x < lo + tot) :
    x / BSIZE ≠ (lo + tot) / BSIZE := by
  have aligned := progress.aligned more
  unfold BSIZE at *
  omega

theorem Progress.clean_block (bound : lo + n ≤ MAXFILE * BSIZE) (more : tot < n)
    (clean : fs₀.CleanFile i) (fits : (lo + tot) % BSIZE + len ≤ BSIZE)
    (isHeld : fs₀.held i (slot ((lo + tot) / BSIZE)) = b) (nonzero : b ≠ 0) :
    (fs.fill src b (lo + tot) tot len).Clean b ↔
      b ∈ fs₀.log ∨ SameBytes src fs₀ i (lo + tot) tot len (lo + tot + len) := by
  have small : (lo + tot) / BSIZE < MAXFILE := block_lt (by omega)
  have fresh := progress.fresh more
  have untouched := progress.untouched _ small fresh
  have logged := untouched.log (by rwa [isHeld])
  have held := untouched.held
  rw [isHeld] at logged held
  -- The bytes of the block.
  have bytes₀ x (here : x / BSIZE = (lo + tot) / BSIZE) :
      fs₀.byte i x = fs₀.cache b (x % BSIZE) := by
    unfold byte
    rw [here, view_of_held isHeld nonzero]
    rfl
  have bytes x (here : x / BSIZE = (lo + tot) / BSIZE) : fs.cache b (x % BSIZE) =
      fs₀.byte i x := by
    have inFile : x < MAXFILE * BSIZE := by
      unfold BSIZE at *
      omega
    have written := progress.wrote.bytes x inFile
    unfold writeArray at written
    rw [if_neg fun both => fresh x both.1 both.2 here] at written
    rw [← written]
    unfold byte
    rw [here, view_of_held held nonzero]
    rfl
  have onDisk (out : b ∉ fs₀.log) a (inBlock : a < BSIZE) : fs₀.cache b a = fs.disk b a := by
    rw [progress.disk]
    rcases clean _ (slot_lt small) (by rwa [isHeld]) with isLogged | same
    · rw [isHeld] at isLogged
      exact absurd isLogged out
    · rw [isHeld] at same
      exact same a inBlock
  have place {a} (inBlock : a < BSIZE) : ((lo + tot) / BSIZE * BSIZE + a) / BSIZE =
      (lo + tot) / BSIZE ∧ ((lo + tot) / BSIZE * BSIZE + a) % BSIZE = a := by
    unfold BSIZE at *
    omega
  have filled a : (fs.fill src b (lo + tot) tot len).cache b a =
      if (lo + tot) % BSIZE ≤ a ∧ a < (lo + tot) % BSIZE + len then
        src.byte (tot + (a - (lo + tot) % BSIZE)) else fs.cache b a := by
    change update fs.cache b _ b a = _
    rw [update_self]
    rfl
  have copiedTo {j} (early : j < len) : lo + tot + j =
      (lo + tot) / BSIZE * BSIZE + ((lo + tot) % BSIZE + j) := by
    rw [← add_assoc, Nat.div_add_mod']
  constructor
  · rintro (isLogged | same)
    · exact .inl (logged.mp isLogged)
    · by_cases isLogged : b ∈ fs₀.log
      · exact .inl isLogged
      · refine .inr fun j early _ => ?_
        have inBlock : (lo + tot) % BSIZE + j < BSIZE := by omega
        have here := same _ inBlock
        rw [filled, if_pos (by omega), Nat.add_sub_cancel_left] at here
        rw [here, copiedTo early, bytes₀ _ (place inBlock).1, (place inBlock).2,
          onDisk isLogged _ inBlock]
        rfl
  · rintro (isLogged | same)
    · exact .inl (logged.mpr isLogged)
    · by_cases isLogged : b ∈ fs₀.log
      · exact .inl (logged.mpr isLogged)
      · refine .inr fun a inBlock => ?_
        change _ = fs.disk b a
        rw [filled, ← onDisk isLogged a inBlock]
        have old := bytes₀ _ (place inBlock).1
        rw [(place inBlock).2] at old
        split
        next within =>
          have copied := same (a - (lo + tot) % BSIZE) (by omega) (by omega)
          rw [copied, copiedTo (by omega), Nat.add_sub_cancel' within.1, old]
        · have current := bytes _ (place inBlock).1
          rw [(place inBlock).2] at current
          rw [current, old]

theorem Progress.bytes_same (lt : i < sb.ninodes) (fits : (lo + tot) % BSIZE + len ≤ BSIZE)
    (size : (fs₀.inode i).size ≤ MAXFILE * BSIZE)
    (round : Round sb fs fs' i ((lo + tot) / BSIZE) ((lo + tot) % BSIZE) len
      fun j => src.byte (tot + j)) :
    (∀ x < (fs₀.inode i).size, ¬(lo ≤ x ∧ x < lo + tot) → fs'.byte i x = fs₀.byte i x) ↔
      SameBytes src fs₀ i (lo + tot) tot len (fs₀.inode i).size := by
  have bytes {x} (below : x < (fs₀.inode i).size) : fs'.byte i x =
      if lo + tot ≤ x ∧ x < lo + tot + len then src.byte (tot + (x - (lo + tot)))
      else writeArray (fs₀.byte i) lo tot src.byte x := by
    rw [round.byte lt fits (by omega), progress.wrote.bytes x (by omega)]
  constructor
  · intro same j early below
    have here := same _ below (by omega)
    rw [bytes below, if_pos (by omega), Nat.add_sub_cancel_left] at here
    exact here
  intro same x below outside
  rw [bytes below]
  split
  next copied =>
    have here := same (x - (lo + tot)) (by omega) (by omega)
    rw [here, Nat.add_sub_cancel' copied.1]
  · exact if_neg outside

theorem Progress.unchanged_iff (lt : i < sb.ninodes) (bound : lo + n ≤ MAXFILE * BSIZE)
    (more : tot < n) (holes : fs₀.NoHoles i) (atEnd : lo ≤ (fs₀.inode i).size)
    (clean : fs₀.CleanFile i) (mapped : bmap sb fs i ((lo + tot) / BSIZE) = .ok (b, fs₂))
    (result : finishWrite sb (fs₂.fill src b (lo + tot) tot
      (src.copied tot (chunk n (lo + tot) tot))) i (lo + tot) = fs') :
    Owned sb fs' ∧ fs'.NoHoles i ∧
      (Unchanged fs₀ fs' i lo tot ↔ HarmlessAt src fs₀ i n lo tot) := by
  have small : (lo + tot) / BSIZE < MAXFILE := block_lt (by omega)
  have owned := progress.wrote.owned
  obtain ⟨fs₁, indirect, mapping⟩ := bmap_returns owned lt small mapped
  have valid : Slot sb i (slot ((lo + tot) / BSIZE)) := ⟨lt, slot_lt small⟩
  have owned₁ := indirect.owned owned
  have clean₂ := mapping.clean owned₁ lt valid (indirect.clean owned lt progress.clean)
  have copied := src.copied_le tot (chunk n (lo + tot) tot)
  have bounded := chunk_le n (lo + tot) tot
  have fits := chunk_fits n (lo + tot) tot
  unfold HarmlessAt
  dsimp only
  generalize src.copied tot (chunk n (lo + tot) tot) = len at *
  have round : Round sb fs (fs₂.fill src b (lo + tot) tot len) i ((lo + tot) / BSIZE)
      ((lo + tot) % BSIZE) len fun j => src.byte (tot + j) :=
    round_fill owned lt small indirect mapping ..
  have wrote := progress.wrote.round lt round (by omega) (by omega)
  obtain ⟨holes', -, bytes⟩ := wrote.finish lt holes atEnd (by omega) (Nat.le_add_right tot len)
  have owned' := (finishWrite_spec wrote.owned lt (lo + tot)).1
  rw [result] at holes' owned' bytes
  have blocks : fs'.CleanFile i ↔ (fs₂.fill src b (lo + tot) tot len).Clean b := by
    rw [← result]
    exact (cleanFile_finishWrite wrote.owned lt _).trans (cleanFile_setBlock
      (mapping.owned owned₁) lt small (mapping.held_self valid) mapping.ne_zero clean₂ _)
  have contents := progress.bytes_same lt (by omega) holes.size round
  have largest := holes.size
  refine ⟨owned', holes', ?_⟩
  have unchanged : Unchanged fs₀ fs' i lo tot ↔
      SameBytes src fs₀ i (lo + tot) tot len (fs₀.inode i).size ∧
        (fs₂.fill src b (lo + tot) tot len).Clean b := by
    unfold Unchanged
    rw [blocks, ← contents]
    refine and_congr_left fun _ => forall_congr' fun x => forall_congr' fun below => ?_
    rw [bytes x (by omega)]
  rw [unchanged]
  by_cases absent : fs₀.view i ((lo + tot) / BSIZE) = none
  · refine ⟨fun _ => .inl absent, fun _ => ⟨fun j early below => ?_, .inl ?_⟩⟩
    · -- A file without holes ends before a block that it does not have.
      refine absurd absent (holes.present _ ?_)
      unfold BSIZE at *
      omega
    · have empty : fs₁.held i (slot ((lo + tot) / BSIZE)) = 0 := by
        have untouched := progress.untouched _ small (progress.fresh more)
        rw [view_eq_none, ← untouched.held] at absent
        obtain ⟨-, rfl⟩ | ⟨-, ind, mapping₁⟩ := indirect
        · exact absent
        · rw [mapping₁.held_of_ne valid fun both => slot_ne_indirect _ both.2]
          exact absent
      cases mapping with
      | there present => exact absurd empty present
      | grown grows =>
        change b ∈ fs₂.log
        rw [grows.log]
        simp
  · have isHeld := (progress.untouched _ small (progress.fresh more)).held
    have nonzero : fs₀.held i (slot ((lo + tot) / BSIZE)) ≠ 0 := fun empty =>
      absent (view_eq_none.mpr empty)
    rw [bmap_present owned lt small (by rwa [isHeld]), isHeld] at mapped
    cases mapped
    rw [progress.clean_block bound more clean (by omega) rfl nonzero]
    have whole (same : SameBytes src fs₀ i (lo + tot) tot len (lo + tot + len)) :
        SameBytes src fs₀ i (lo + tot) tot len (fs₀.inode i).size := fun j early _ =>
      same j early (by omega)
    constructor
    · rintro ⟨same, isLogged | all⟩
      · exact .inr (.inr ⟨isLogged, same⟩)
      · exact .inr (.inl all)
    rintro (isNew | all | ⟨isLogged, same⟩)
    · exact absurd isNew absent
    · exact ⟨whole all, .inr all⟩
    · exact ⟨same, .inl isLogged⟩

end

/-- A write that returns fewer bytes than it was asked for leaves no trace besides the bytes that
it reports exactly if the first round whose copy fails is harmless. -/
theorem faulting_write_unchanged_iff (owned : Owned sb fs) (inside : i < sb.ninodes)
    (holes : fs.NoHoles i) (clean : fs.CleanFile i) (off n : BitVec 32)
    (ran : writei sb fs i src off n = .ok ((tot : Int), fs')) (short : tot < n.toNat) :
    (∀ off' n', readAll sb fs' i off' n' =
      .ok (readArray (fs'.inode i).size (fs'.byte i) off' n', fs')) ∧
    (Unchanged fs fs' i off.toNat tot ↔ Harmless src fs i n.toNat off.toNat) := by
  have accepted : ¬Refused (fs.inode i).size off n := by
    intro refused
    rw [(writei_refused_iff fs i src off n).mpr refused] at ran
    cases ran
  rw [writei_accepted accepted] at ran
  obtain ⟨⟨tot', off', fs₁⟩, looped, isResult⟩ := of_map_eq_ok ran
  obtain rfl : finishWrite sb fs₁ i off' = fs' := congrArg Prod.snd isResult
  obtain rfl : tot' = tot := Int.ofNat.inj (congrArg Prod.fst isResult)
  unfold Refused at accepted
  have bound : off.toNat + n.toNat ≤ MAXFILE * BSIZE := by omega
  have start : Progress sb src fs fs i n.toNat off.toNat 0 :=
    ⟨nofun, .refl owned i _, rfl, fun _ => .inl rfl, clean, fun bn _ _ => ⟨rfl, fun _ => Iff.rfl⟩⟩
  obtain ⟨panic, fs₂, tot', panics, -⟩ | ⟨fs₂, done, -⟩ |
      ⟨tot'', fs₂, b, fs₃, stops, progress, more, mapped, fails⟩ :=
    writeFrom_rule (fun fs tot b fs₁ progress more mapped full =>
        Progress.round progress inside bound more mapped full)
      start (Nat.zero_le _) (enough_initial n.toNat off.toNat)
  · cases looped.symm.trans panics
  · cases looped.symm.trans done
    exact absurd short (lt_irrefl _)
  cases looped.symm.trans stops
  obtain ⟨owned', holes', unchanged⟩ := progress.unchanged_iff inside bound more holes (by omega)
    clean mapped rfl
  have first : FirstFault src n.toNat off.toNat _ := ⟨progress.aligned more, fails, progress.copies⟩
  refine ⟨readAll_spec owned' inside holes',
    unchanged.trans ⟨fun harmless => ⟨_, first, harmless⟩, ?_⟩⟩
  rintro ⟨tot', first', harmless⟩
  exact le_antisymm (first'.le first) (first.le first') ▸ harmless

def onePage : Nat → Option Bytes := fun page => if page = 0 then some fun _ => 9 else none

theorem oneBlockFile_clean (content : Bytes) (size : Nat) :
    (oneBlockFile content size).CleanFile 1 :=
  fun _ _ _ => .inr fun _ _ => rfl

theorem faulting_write_unchanged_iff_new_block : ∃ fs',
    writei disk64 (oneBlockFile (fun _ => 7) 1024) 1 (.user onePage 3584) 1024 1024 = .ok (0, fs') ∧
      Unchanged (oneBlockFile (fun _ => 7) 1024) fs' 1 1024 0 := by
  have runs : (writei disk64 (oneBlockFile (fun _ => 7) 1024) 1 (.user onePage 3584) 1024 1024).map
      Prod.fst = .ok 0 := by decide +kernel
  obtain ⟨⟨r, fs'⟩, ran, rfl⟩ := of_map_eq_ok runs
  have harmless : Harmless (.user onePage 3584) (oneBlockFile (fun _ => 7) 1024) 1 1024 1024 :=
    ⟨0, ⟨.inl rfl, by decide +kernel, nofun⟩, .inl (view_eq_none.mpr (oneBlockFile_held ..))⟩
  have none : writei disk64 (oneBlockFile (fun _ => 7) 1024) 1 (.user onePage 3584) 1024 1024 =
      .ok (((0 : Nat) : Int), fs') := ran
  exact ⟨fs', ran, (faulting_write_unchanged_iff (oneBlockFile_owned _ _) (by decide)
    (oneBlockFile_noHoles _ (le_refl _)) (oneBlockFile_clean _ _) 1024 1024 none
    (by decide)).2.mpr harmless⟩

/-- The first half of the source ends its page, and the next page is not mapped. -/
theorem faulting_write_changes_block :
    Owned disk64 (oneBlockFile (fun _ => 7) 1024) ∧ (oneBlockFile (fun _ => 7) 1024).NoHoles 1 ∧
      (oneBlockFile (fun _ => 7) 1024).CleanFile 1 ∧
      ∃ fs', writei disk64 (oneBlockFile (fun _ => 7) 1024) 1 (.user onePage 3584) 0 1024 =
        .ok (0, fs') ∧ fs'.byte 1 0 = 9 ∧ fs'.byte 1 512 = 7 ∧
        ¬Unchanged (oneBlockFile (fun _ => 7) 1024) fs' 1 0 0 := by
  have runs : (writei disk64 (oneBlockFile (fun _ => 7) 1024) 1 (.user onePage 3584) 0 1024).map
      (fun result => (result.1, result.2.byte 1 0, result.2.byte 1 512)) = .ok (0, 9, 7) := by
    decide +kernel
  obtain ⟨⟨r, fs'⟩, ran, isResult⟩ := of_map_eq_ok runs
  obtain ⟨rfl, first, second⟩ : r = 0 ∧ fs'.byte 1 0 = 9 ∧ fs'.byte 1 512 = 7 := by
    simpa only [Prod.mk.injEq] using isResult
  refine ⟨oneBlockFile_owned _ _, oneBlockFile_noHoles _ (le_refl _), oneBlockFile_clean _ _,
    fs', ran, first, second, fun unchanged => ?_⟩
  have same := unchanged.1 0 (by decide) (by decide)
  have before : (oneBlockFile (fun _ => 7) 1024).byte 1 0 = 7 := by decide +kernel
  rw [first, before] at same
  exact absurd same (by decide)

end FileSystem

end Xv6Rv32im.Fs
