import Xv6Rv32im.Fs.View

/-!
# The loop of `writei`

An invariant rule for the loop, and what a round does to the files.
-/

namespace Xv6Rv32im.Fs

open Library.ByteWords

namespace FileSystem

def chunk (n off tot : Nat) : Nat := min (n - tot) (BSIZE - off % BSIZE)

/-- The file system after some bytes of a round were copied into the block. -/
def fill (fs : FileSystem) (src : Source) (b off tot len : Nat) : FileSystem :=
  fs.setBlock b (memmove (fs.cache b) (off % BSIZE) len fun j => src.byte (tot + j))

variable {sb : Superblock} {fs fs' fs₀ fs₁ fs₂ : FileSystem} {src : Source}
  {i j k b bn bn' n lo tot rounds : Nat} {panic : Panic}

theorem chunk_pos (more : tot < n) (off : Nat) : 0 < chunk n off tot := by
  unfold chunk BSIZE
  omega

theorem chunk_le (n off tot : Nat) : chunk n off tot ≤ n - tot := Nat.min_le_left ..

theorem chunk_fits (n off tot : Nat) : off % BSIZE + chunk n off tot ≤ BSIZE := by
  unfold chunk BSIZE
  omega

def Enough (n off tot rounds : Nat) : Prop :=
  0 < rounds ∧ (tot < n → n - tot + off % BSIZE ≤ (rounds - 1) * BSIZE)

theorem Enough.next {off : Nat} (enough : Enough n off tot (rounds + 1)) (more : tot < n) :
    Enough n (off + chunk n off tot) (tot + chunk n off tot) rounds := by
  have left := enough.2 more
  rw [Nat.add_sub_cancel] at left
  unfold Enough chunk BSIZE at *
  constructor
  · by_contra none
    rw [Nat.eq_zero_of_not_pos none] at left
    omega
  intro still
  obtain ⟨fewer, rfl⟩ : ∃ fewer, rounds = fewer + 1 := by
    refine Nat.exists_eq_succ_of_ne_zero fun none => ?_
    rw [none] at left
    omega
  rw [Nat.add_sub_cancel]
  omega

theorem enough_initial (n off : Nat) : Enough n off 0 (n / BSIZE + 3) := by
  refine ⟨Nat.succ_pos _, fun _ => ?_⟩
  unfold BSIZE
  omega

/-- The loop keeps an invariant that every full round keeps.  It ends with all bytes written, in a
round whose copy fails, or with a panic of `bmap`. -/
theorem writeFrom_rule {Inv : FileSystem → Nat → Prop}
    (step : ∀ fs tot b fs₁, Inv fs tot → tot < n →
      bmap sb fs i ((lo + tot) / BSIZE) = .ok (b, fs₁) →
      src.copied tot (chunk n (lo + tot) tot) = chunk n (lo + tot) tot →
      Inv ((fs₁.fill src b (lo + tot) tot (chunk n (lo + tot) tot)).logWrite b)
        (tot + chunk n (lo + tot) tot))
    (start : Inv fs tot) (le : tot ≤ n) (enough : Enough n (lo + tot) tot rounds) :
    (∃ panic fs' tot', writeFrom sb src i n rounds fs (lo + tot) tot = .error panic ∧ Inv fs' tot' ∧
      tot' < n ∧ bmap sb fs' i ((lo + tot') / BSIZE) = .error panic) ∨
    (∃ fs', writeFrom sb src i n rounds fs (lo + tot) tot = .ok (n, lo + n, fs') ∧ Inv fs' n) ∨
    ∃ tot' fs' b fs₁, writeFrom sb src i n rounds fs (lo + tot) tot = .ok (tot', lo + tot',
        fs₁.fill src b (lo + tot') tot' (src.copied tot' (chunk n (lo + tot') tot'))) ∧
      Inv fs' tot' ∧ tot' < n ∧ bmap sb fs' i ((lo + tot') / BSIZE) = .ok (b, fs₁) ∧
      src.copied tot' (chunk n (lo + tot') tot') < chunk n (lo + tot') tot' := by
  induction rounds generalizing fs tot with
  | zero => exact absurd enough.1 (lt_irrefl _)
  | succ rounds ih =>
    rw [writeFrom]
    by_cases more : tot < n
    · rw [if_pos more]
      cases mapped : bmap sb fs i ((lo + tot) / BSIZE) with
      | error panic => exact .inl ⟨panic, fs, tot, rfl, start, more, mapped⟩
      | ok result =>
        obtain ⟨b, fs₁⟩ := result
        dsimp only
        by_cases fails : src.copied tot (chunk n (lo + tot) tot) < chunk n (lo + tot) tot
        · refine .inr (.inr ⟨tot, fs, b, fs₁, ?_, start, more, mapped, fails⟩)
          exact if_pos fails
        have whole : src.copied tot (chunk n (lo + tot) tot) = chunk n (lo + tot) tot :=
          le_antisymm (src.copied_le _ _) (not_lt.mp fails)
        have kept := step fs tot b fs₁ start more mapped whole
        have bounded := chunk_le n (lo + tot) tot
        have later := enough.next more
        rw [add_assoc] at later
        have rest := ih kept (by omega) later
        rw [← add_assoc] at rest
        have goesOn : (if src.copied tot (chunk n (lo + tot) tot) < chunk n (lo + tot) tot then
            Except.ok (tot, lo + tot, fs₁.fill src b (lo + tot) tot
              (src.copied tot (chunk n (lo + tot) tot)))
          else writeFrom sb src i n rounds ((fs₁.fill src b (lo + tot) tot
              (src.copied tot (chunk n (lo + tot) tot))).logWrite b)
            (lo + tot + chunk n (lo + tot) tot) (tot + chunk n (lo + tot) tot)) =
            writeFrom sb src i n rounds ((fs₁.fill src b (lo + tot) tot
              (chunk n (lo + tot) tot)).logWrite b) (lo + tot + chunk n (lo + tot) tot)
              (tot + chunk n (lo + tot) tot) := by
          rw [if_neg fails, whole]
        rw [← goesOn] at rest
        exact rest
    · have done : tot = n := le_antisymm le (not_lt.mp more)
      rw [if_neg more, ← done]
      exact .inr (.inl ⟨fs, rfl, start⟩)

/-! ## What a round does to the files -/

/-- A round changes some bytes of one block of the file, which it makes present. -/
structure Round (sb : Superblock) (fs fs' : FileSystem) (i bn offset len : Nat)
    (data : Nat → BitVec 8) : Prop where
  owned : Owned sb fs'
  size : ∀ j, (fs'.inode j).size = (fs.inode j).size
  view : ∀ j bn', j < sb.ninodes → bn' < MAXFILE → fs'.view j bn' = if j = i ∧ bn' = bn then
      some (memmove ((fs.view i bn).getD fun _ => 0) offset len data)
    else fs.view j bn'

theorem Mapping.size (mapping : Mapping sb fs i k b fs') (j : Nat) :
    (fs'.inode j).size = (fs.inode j).size := by
  cases mapping with
  | there present => rfl
  | grown grows => exact grows.size j

theorem Indirect.size (indirect : Indirect sb fs i bn fs') (j : Nat) :
    (fs'.inode j).size = (fs.inode j).size := by
  obtain ⟨-, rfl⟩ | ⟨-, b, mapping⟩ := indirect
  · rfl
  · exact mapping.size j

theorem Indirect.view (indirect : Indirect sb fs i bn fs') (owned : Owned sb fs)
    (lt : j < sb.ninodes) (small : bn' < MAXFILE) : fs'.view j bn' = fs.view j bn' := by
  obtain ⟨-, rfl⟩ | ⟨-, b, mapping⟩ := indirect
  · rfl
  · exact mapping.view_indirect owned lt small

theorem round_fill (owned : Owned sb fs) (lt : i < sb.ninodes) (small : bn < MAXFILE)
    (indirect : Indirect sb fs i bn fs₁) (mapping : Mapping sb fs₁ i (slot bn) b fs₂)
    (offset len : Nat) (data : Nat → BitVec 8) :
    Round sb fs (fs₂.setBlock b (memmove (fs₂.cache b) offset len data)) i bn offset len data := by
  have owned₁ := indirect.owned owned
  have owned₂ := mapping.owned owned₁
  have isHeld := mapping.held_self ⟨lt, slot_lt small⟩
  have present := mapping.ne_zero
  have mapped {j bn' : Nat} (lt' : j < sb.ninodes) (small' : bn' < MAXFILE) :
      fs₂.view j bn' = if j = i ∧ bn' = bn then some ((fs.view i bn).getD fun _ => 0)
        else fs.view j bn' := by
    rw [mapping.view owned₁ lt small lt' small', indirect.view owned lt small,
      indirect.view owned lt' small']
  have contents : fs₂.cache b = (fs.view i bn).getD fun _ => 0 := by
    have here := mapped lt small
    rw [view_of_held isHeld present, if_pos ⟨rfl, rfl⟩] at here
    exact Option.some.inj here
  have changed := owned₂.setBlock lt small (by rw [isHeld]; exact present)
    (memmove (fs₂.cache b) offset len data)
  rw [isHeld] at changed
  refine ⟨changed.1, fun j => (mapping.size j).trans (indirect.size j), fun j bn' lt' small' => ?_⟩
  rw [changed.2.2 j bn' lt' small', contents, mapped lt' small']
  split
  · rfl
  · rfl

theorem Round.byte {off len : Nat} {data : Nat → BitVec 8}
    (round : Round sb fs fs' i (off / BSIZE) (off % BSIZE) len data) (lt : i < sb.ninodes)
    (fits : off % BSIZE + len ≤ BSIZE) {x : Nat} (small : x < MAXFILE * BSIZE) :
    fs'.byte i x = if off ≤ x ∧ x < off + len then data (x - off) else fs.byte i x := by
  have blockSmall : x / BSIZE < MAXFILE := Nat.div_lt_of_lt_mul (by rwa [mul_comm] at small)
  unfold FileSystem.byte
  rw [round.view i _ lt blockSmall]
  by_cases same : x / BSIZE = off / BSIZE
  · rw [if_pos ⟨rfl, same⟩, same]
    unfold BSIZE at *
    change memmove _ _ _ _ _ = _
    unfold memmove
    by_cases within : off ≤ x ∧ x < off + len
    · rw [if_pos within, if_pos (by omega)]
      congr 1
      omega
    · rw [if_neg within, if_neg (by omega)]
  · rw [if_neg fun both => same both.2, if_neg]
    unfold BSIZE at *
    omega

end FileSystem

end Xv6Rv32im.Fs
