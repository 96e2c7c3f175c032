import Xv6Rv32im.Fs.ReadWrite
import Xv6Rv32im.Log.Model

/-!
# The blocks that a chunk of a write logs

`filewrite` cuts a write into chunks, such that the blocks that `writei` passes to `log_write` fit
into the space that `begin_op` reserves.  A round of `writei` logs its data block, and if the block
is new also a block of the bitmap; the indirect block, its bitmap block and the inode block are
logged in addition.  The first round of an unaligned write finds its block in place.
-/

namespace Xv6Rv32im.Fs

open Library.ByteWords List
open Library.Run (of_map_eq_ok)
open Log (MAXOPBLOCKS)

/-- The largest chunk that `filewrite` passes to `writei`. -/
def maxChunk : Nat := ((MAXOPBLOCKS - 1 - 1 - 2) / 2) * BSIZE

namespace FileSystem

variable {sb : Superblock} {fs fs' fs₀ fs₁ fs₂ : FileSystem} {src : Source}
  {i k b x bn n lo tot : Nat} {blocks : Finset Nat}

/-- The blocks logged since a state are among the given ones, the indirect block of the file and
one more block that was logged with it. -/
def Logged (fs₀ fs : FileSystem) (i : Nat) (blocks : Finset Nat) (x : Nat) : Prop :=
  ∃ passed, fs.log = fs₀.log ++ passed ∧
    ∀ y ∈ passed, y ∈ blocks ∨ fs.held i NDIRECT ≠ 0 ∧ (y = fs.held i NDIRECT ∨ y = x)

theorem Logged.refl (fs : FileSystem) (i : Nat) : Logged fs fs i ∅ 0 :=
  ⟨[], (append_nil _).symm, nofun⟩

section

variable (logged : Logged fs₀ fs i blocks x)

include logged

theorem Logged.congr (sameLog : fs'.log = fs.log)
    (sameHeld : fs'.held i NDIRECT = fs.held i NDIRECT) : Logged fs₀ fs' i blocks x := by
  obtain ⟨passed, isLog, among⟩ := logged
  rw [← sameHeld] at among
  exact ⟨passed, sameLog.trans isLog, among⟩

theorem Logged.logWrite (isIn : b ∈ blocks) : Logged fs₀ (fs.logWrite b) i blocks x := by
  obtain ⟨passed, isLog, among⟩ := logged
  refine ⟨passed ++ [b], ?_, fun y new => ?_⟩
  · change fs.log ++ [b] = _
    rw [isLog, append_assoc]
  rcases mem_append.mp new with old | last
  · exact among y old
  · rw [mem_singleton.mp last]
    exact .inl isIn

theorem Logged.indirect (lt : i < sb.ninodes) (indirect : Indirect sb fs i bn fs') :
    ∃ x', Logged fs₀ fs' i blocks x' := by
  obtain ⟨-, rfl⟩ | ⟨-, b, mapping⟩ := indirect
  · exact ⟨x, logged⟩
  cases mapping with
  | there present => exact ⟨x, logged⟩
  | grown grows =>
    obtain ⟨passed, isLog, among⟩ := logged
    have isIndirect := grows.held_self ⟨lt, by decide⟩
    refine ⟨sb.bblock b, passed ++ [sb.bblock b, b], ?_, fun y new => ?_⟩
    · rw [grows.log, if_neg (lt_irrefl _), append_nil, isLog, append_assoc]
    rw [isIndirect]
    rcases mem_append.mp new with old | pair
    · rcases among y old with isIn | ⟨present, -⟩
      · exact .inl isIn
      · exact absurd grows.empty present
    · rcases mem_cons.mp pair with rfl | last
      · exact .inr ⟨grows.ne_zero, .inr rfl⟩
      · exact .inr ⟨grows.ne_zero, .inl (mem_singleton.mp last)⟩

theorem Logged.mapping (lt : i < sb.ninodes) (mapping : Mapping sb fs i (slot bn) b fs')
    (indirect : NDIRECT < slot bn → fs.held i NDIRECT ≠ 0) :
    ∃ blocks', blocks'.card ≤ blocks.card + (if fs.held i (slot bn) = 0 then 2 else 1) ∧
      b ∈ blocks' ∧ Logged fs₀ fs' i blocks' x := by
  obtain ⟨passed, isLog, among⟩ := logged
  cases mapping with
  | there present =>
    refine ⟨insert _ blocks, ?_, Finset.mem_insert_self .., passed, isLog,
      fun y old => ?_⟩
    · rw [if_neg present]
      exact Finset.card_insert_le ..
    · rcases among y old with isIn | isIndirect
      · exact .inl (Finset.mem_insert_of_mem isIn)
      · exact .inr isIndirect
  | grown grows =>
    have sameIndirect : fs'.held i NDIRECT = fs.held i NDIRECT :=
      grows.held_of_ne ⟨lt, by decide⟩ fun both => slot_ne_indirect bn both.2.symm
    refine ⟨insert b (insert (sb.bblock b) blocks), ?_, Finset.mem_insert_self ..,
      passed ++ ([sb.bblock b, b] ++ if NDIRECT < slot bn then [fs.held i NDIRECT] else []), ?_,
      fun y new => ?_⟩
    · rw [if_pos grows.empty]
      have inner := Finset.card_insert_le (sb.bblock b) blocks
      have outer := Finset.card_insert_le b (insert (sb.bblock b) blocks)
      omega
    · rw [grows.log, isLog, append_assoc, append_assoc]
    rw [sameIndirect]
    rcases mem_append.mp new with old | new
    · rcases among y old with isIn | isIndirect
      · exact .inl (Finset.mem_insert_of_mem (Finset.mem_insert_of_mem isIn))
      · exact .inr isIndirect
    rcases mem_append.mp new with pair | last
    · refine .inl ?_
      rcases mem_cons.mp pair with rfl | isBlock
      · exact Finset.mem_insert_of_mem (Finset.mem_insert_self ..)
      · rw [mem_singleton.mp isBlock]
        exact Finset.mem_insert_self ..
    · split at last
      next isEntry =>
        exact .inr ⟨indirect isEntry, .inl (mem_singleton.mp last)⟩
      · exact absurd last not_mem_nil

theorem Logged.finish (sb : Superblock) (off : Nat) :
    ∃ passed, (finishWrite sb fs i off).log = fs₀.log ++ passed ∧
      passed.toFinset.card ≤ blocks.card + 3 := by
  obtain ⟨passed, isLog, among⟩ := logged
  refine ⟨passed ++ [sb.iblock i], ?_, ?_⟩
  · have appended : (finishWrite sb fs i off).log = fs.log ++ [sb.iblock i] := by
      unfold finishWrite
      dsimp only
      split <;> rfl
    rw [appended, isLog, append_assoc]
  have subset : (passed ++ [sb.iblock i]).toFinset ⊆
      insert (sb.iblock i) (insert (fs.held i NDIRECT) (insert x blocks)) := by
    intro y isIn
    simp only [Finset.mem_insert]
    rcases mem_append.mp (mem_toFinset.mp isIn) with old | last
    · rcases among y old with isIn | ⟨-, isIndirect | isOther⟩
      · exact .inr (.inr (.inr isIn))
      · exact .inr (.inl isIndirect)
      · exact .inr (.inr (.inl isOther))
    · exact .inl (mem_singleton.mp last)
  have size := Finset.card_le_card subset
  have first := Finset.card_insert_le x blocks
  have second := Finset.card_insert_le (fs.held i NDIRECT) (insert x blocks)
  have third := Finset.card_insert_le (sb.iblock i) (insert (fs.held i NDIRECT) (insert x blocks))
  omega

end

/-! ## The loop -/

/-- Two blocks for each block of the file that was touched, but one for the first if the write
starts inside it. -/
def cost (lo tot : Nat) : Nat :=
  if tot = 0 then 0
  else 2 * ((lo + tot - 1) / BSIZE - lo / BSIZE + 1) - if lo % BSIZE = 0 then 0 else 1

theorem cost_round (more : tot < n) (aligned : tot = 0 ∨ (lo + tot) % BSIZE = 0) :
    cost lo tot + (if tot = 0 ∧ lo % BSIZE ≠ 0 then 1 else 2) =
      cost lo (tot + chunk n (lo + tot) tot) := by
  have pos := chunk_pos more (lo + tot)
  have fits := chunk_fits n (lo + tot) tot
  generalize chunk n (lo + tot) tot = m at pos fits
  unfold cost BSIZE at *
  rw [if_neg (show tot + m ≠ 0 by omega)]
  rcases aligned with rfl | aligned
  · have oneBlock : (lo + (0 + m) - 1) / 1024 = lo / 1024 := by omega
    rw [oneBlock, if_pos rfl]
    split <;> split <;> omega
  · have lastBlock : (lo + (tot + m) - 1) / 1024 = (lo + tot) / 1024 := by omega
    rw [lastBlock]
    split <;> split <;> split <;> omega

theorem cost_le (lo : Nat) (small : tot ≤ maxChunk) : cost lo tot + 3 ≤ MAXOPBLOCKS := by
  have limit : maxChunk = 3072 := rfl
  rw [limit] at small
  unfold cost BSIZE MAXOPBLOCKS
  split
  · omega
  · split <;> omega

structure WithinCost (sb : Superblock) (fs₀ fs : FileSystem) (i n lo tot : Nat) : Prop where
  owned : Owned sb fs
  start : tot = 0 → fs = fs₀
  aligned : tot < n → tot = 0 ∨ (lo + tot) % BSIZE = 0
  logged : ∃ blocks x, blocks.card ≤ cost lo tot ∧ Logged fs₀ fs i blocks x

section

variable (within : WithinCost sb fs₀ fs i n lo tot) (lt : i < sb.ninodes)
    (first : lo % BSIZE ≠ 0 → fs₀.held i (slot (lo / BSIZE)) ≠ 0) (more : tot < n)
    (small : (lo + tot) / BSIZE < MAXFILE)

include within lt first more small

theorem WithinCost.mapped (indirect : Indirect sb fs i ((lo + tot) / BSIZE) fs₁)
    (mapping : Mapping sb fs₁ i (slot ((lo + tot) / BSIZE)) b fs₂) :
    ∃ blocks x, blocks.card ≤ cost lo (tot + chunk n (lo + tot) tot) ∧ b ∈ blocks ∧
      Logged fs₀ fs₂ i blocks x := by
  obtain ⟨blocks, x, few, logged⟩ := within.logged
  obtain ⟨x', logged₁⟩ := logged.indirect lt indirect
  have present : NDIRECT < slot ((lo + tot) / BSIZE) → fs₁.held i NDIRECT ≠ 0 := by
    intro isEntry
    obtain ⟨direct, -⟩ | ⟨-, ind, mapping₁⟩ := indirect
    · unfold slot at isEntry
      rw [if_pos direct] at isEntry
      omega
    · rw [mapping₁.held_self ⟨lt, by decide⟩]
      exact mapping₁.ne_zero
  obtain ⟨blocks', few', isIn, logged₂⟩ := logged₁.mapping lt mapping present
  refine ⟨blocks', x', ?_, isIn, logged₂⟩
  rw [← cost_round more (within.aligned more)]
  by_cases unaligned : tot = 0 ∧ lo % BSIZE ≠ 0
  · -- The write starts inside a block of the file.
    obtain ⟨rfl, inBlock⟩ := unaligned
    have there : fs₁.held i (slot ((lo + 0) / BSIZE)) ≠ 0 := by
      have same : fs₁.held i (slot ((lo + 0) / BSIZE)) = fs.held i (slot ((lo + 0) / BSIZE)) := by
        obtain ⟨-, rfl⟩ | ⟨-, ind, mapping₁⟩ := indirect
        · rfl
        · exact mapping₁.held_of_ne ⟨lt, slot_lt small⟩ fun both => slot_ne_indirect _ both.2
      rw [same, within.start rfl]
      exact first inBlock
    rw [if_neg there] at few'
    rw [if_pos ⟨rfl, inBlock⟩]
    omega
  · rw [if_neg unaligned]
    split at few' <;> omega

theorem WithinCost.round (mapped : bmap sb fs i ((lo + tot) / BSIZE) = .ok (b, fs₂)) (len : Nat) :
    Owned sb (fs₂.fill src b (lo + tot) tot len) ∧
      ∃ blocks x, blocks.card ≤ cost lo (tot + chunk n (lo + tot) tot) ∧ b ∈ blocks ∧
        Logged fs₀ (fs₂.fill src b (lo + tot) tot len) i blocks x := by
  obtain ⟨fs₁, indirect, mapping⟩ := bmap_returns within.owned lt small mapped
  obtain ⟨blocks, x, few, isIn, logged⟩ := within.mapped lt first more small indirect mapping
  have owned₂ := mapping.owned (indirect.owned within.owned)
  have isHeld := mapping.held_self ⟨lt, slot_lt small⟩
  have changed := owned₂.setBlock lt small (by rw [isHeld]; exact mapping.ne_zero)
    (memmove (fs₂.cache b) ((lo + tot) % BSIZE) len fun j => src.byte (tot + j))
  rw [isHeld] at changed
  exact ⟨changed.1, blocks, x, few, isIn, logged.congr rfl (changed.2.1 i NDIRECT ⟨lt, by decide⟩)⟩

end

/-- A chunk of a write fits into the part of the log that its operation reserves. -/
theorem chunk_fits_log (owned : Owned sb fs) (inside : i < sb.ninodes) (holes : fs.NoHoles i)
    (off n : BitVec 32) (limit : n.toNat ≤ maxChunk) (r : Int)
    (ran : writei sb fs i src off n = .ok (r, fs')) :
    ∃ passed, fs'.log = fs.log ++ passed ∧ passed.toFinset.card ≤ MAXOPBLOCKS := by
  by_cases refused : Refused (fs.inode i).size off n
  · rw [(writei_refused_iff fs i src off n).mpr refused] at ran
    cases ran
    exact ⟨[], (append_nil _).symm, Nat.zero_le _⟩
  rw [writei_accepted refused] at ran
  obtain ⟨⟨tot, off', fs₁⟩, looped, isResult⟩ := of_map_eq_ok ran
  obtain rfl : finishWrite sb fs₁ i off' = fs' := congrArg Prod.snd isResult
  unfold Refused at refused
  have first : off.toNat % BSIZE ≠ 0 → fs.held i (slot (off.toNat / BSIZE)) ≠ 0 := by
    intro inBlock absent
    refine holes.present _ ?_ (view_eq_none.mpr absent)
    unfold BSIZE at *
    omega
  have small {tot : Nat} (more : tot < n.toNat) : (off.toNat + tot) / BSIZE < MAXFILE :=
    Nat.div_lt_of_lt_mul (by rw [mul_comm]; omega)
  have step (fs' : FileSystem) (tot b : Nat) (fs₂ : FileSystem)
      (within : WithinCost sb fs fs' i n.toNat off.toNat tot) (more : tot < n.toNat)
      (mapped : bmap sb fs' i ((off.toNat + tot) / BSIZE) = .ok (b, fs₂))
      (_ : src.copied tot (chunk n.toNat (off.toNat + tot) tot) =
        chunk n.toNat (off.toNat + tot) tot) :
      WithinCost sb fs ((fs₂.fill src b (off.toNat + tot) tot
        (chunk n.toNat (off.toNat + tot) tot)).logWrite b) i n.toNat off.toNat
        (tot + chunk n.toNat (off.toNat + tot) tot) := by
    obtain ⟨owned₂, blocks, x, few, isIn, logged⟩ := within.round inside first more (small more)
      mapped _
    have positive := chunk_pos more (off.toNat + tot)
    refine ⟨owned₂.logWrite b, by omega, fun still => .inr ?_, blocks, x, few, logged.logWrite isIn⟩
    unfold chunk BSIZE at *
    omega
  have start : WithinCost sb fs fs i n.toNat off.toNat 0 :=
    ⟨owned, fun _ => rfl, fun _ => .inl rfl, ∅, 0, Nat.zero_le _, .refl fs i⟩
  obtain ⟨panic, fs₂, tot', panics, -⟩ | ⟨fs₂, done, within⟩ |
      ⟨tot', fs₂, b, fs₃, fails, within, more, mapped, -⟩ :=
    writeFrom_rule step start (Nat.zero_le _) (enough_initial n.toNat off.toNat)
  · cases looped.symm.trans panics
  · cases looped.symm.trans done
    obtain ⟨blocks, x, few, logged⟩ := within.logged
    obtain ⟨passed, isLog, fewer⟩ := logged.finish sb _
    have bound := cost_le off.toNat limit
    exact ⟨passed, isLog, by omega⟩
  cases looped.symm.trans fails
  obtain ⟨-, blocks, x, few, -, logged⟩ := within.round inside first more (small more) mapped
    (src.copied tot _)
  obtain ⟨passed, isLog, fewer⟩ := logged.finish sb (off.toNat + tot)
  have bounded := chunk_le n.toNat (off.toNat + tot) tot
  have bound := cost_le off.toNat
    (show tot + chunk n.toNat (off.toNat + tot) tot ≤ maxChunk by omega)
  exact ⟨passed, isLog, by omega⟩

theorem chunk_fits_log_four_blocks : ∃ fs' passed,
    writei disk64 (oneBlockFile (fun _ => 7) 1000) 1 counting 1000 3072 = .ok (3072, fs') ∧
      fs'.log = [] ++ passed ∧ passed.toFinset.card ≤ MAXOPBLOCKS := by
  have runs : (writei disk64 (oneBlockFile (fun _ => 7) 1000) 1 counting 1000 3072).map Prod.fst =
      .ok 3072 := by decide +kernel
  obtain ⟨⟨r, fs'⟩, ran, rfl⟩ := of_map_eq_ok runs
  obtain ⟨passed, isLog, few⟩ := chunk_fits_log (oneBlockFile_owned (fun _ => 7) 1000) (by decide)
    (oneBlockFile_noHoles _ (by decide)) 1000 3072 (by decide) 3072 ran
  exact ⟨fs', passed, ran, isLog, few⟩

end FileSystem

end Xv6Rv32im.Fs
