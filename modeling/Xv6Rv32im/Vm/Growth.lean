import Xv6Rv32im.Vm.UserMemory

/-!
# Growing is all or nothing

`uvmalloc` takes a data page and perhaps a page-table page in every round, and either
may be refused.  Whichever it is, the leaves are as before and the data pages are
free again; page-table pages may stay.
-/

namespace Xv6Rv32im.Vm

open Library.ByteWords Library.Shares Library.Run Multiset Space Ram

section

variable [Layout] {ram : Ram} {space : Space} {free : List (BitVec 32)}

theorem Ram.Balance.users_distinct (balance : ram.Balance free space.owned)
    {v w : Nat} {leaf other : Leaf} (lt : v < USERTOP) (lt' : w < USERTOP)
    (here : space.leaves v = some leaf) (there : space.leaves w = some other)
    (same : leaf.page = other.page) : v = w := by
  have nodup : space.users.Nodup := (nodup_add.mp balance.held_nodup).2.1
  refine holder_unique nodup lt lt' (show leaf.page ∈ _ from ?_) ?_
  · rw [here]
    exact mem_held.mpr rfl
  · rw [there, same]
    exact mem_held.mpr rfl

/-- `uvmalloc` from a smaller to a larger size, whichever `kalloc` is refused: it returns
0 with the leaves as before and no data page taken, or the new size with distinct
zeroed pages added, and then `uvmdealloc` restores the leaves. -/
theorem uvmalloc_all_or_nothing {oldsz newsz : BitVec 32}
    (balance : ram.Balance free (space.tables + space.users)) (holds : space.Holds ram.mem)
    (mapped : space.Mapped (pages oldsz)) (le : oldsz ≤ newsz) :
    ∃ (size : BitVec 32) (ram' : Ram) (space' : Space) (free' : List (BitVec 32)),
      ram.uvmalloc space.root oldsz newsz = .ok (size, ram') ∧
      (size = 0 ∨ size = newsz) ∧ space'.root = space.root ∧ space'.Holds ram'.mem ∧
      ram'.Balance free' (space'.tables + space'.users) ∧
      (size = 0 → 0 < newsz.toNat → space'.leaves = space.leaves ∧
        (↑free' + space'.tables : Multiset (BitVec 32)) = ↑free + space.tables) ∧
      (size = newsz → (∀ v, if pages oldsz ≤ v ∧ v < pages newsz then
            ∃ leaf, space'.leaves v = some leaf ∧ ZeroLeaf free ram'.mem v leaf
          else space'.leaves v = space.leaves v) ∧
        (∀ v < USERTOP, ∀ w < USERTOP, ∀ leaf other, space'.leaves v = some leaf →
          space'.leaves w = some other → leaf.page = other.page → v = w) ∧
        ∃ (ram'' : Ram) (space'' : Space) (free'' : List (BitVec 32)),
          ram'.uvmdealloc space.root newsz oldsz = .ok (oldsz, ram'') ∧
          space''.root = space.root ∧ space''.Holds ram''.mem ∧
          ram''.Balance free'' (space''.tables + space''.users) ∧
          space''.leaves = space.leaves) := by
  have larger : allocSize oldsz newsz = newsz := if_neg (BitVec.not_lt.mpr le)
  obtain ⟨size, space', ram', free', ran, result, holds', moves⟩ :=
    @uvmalloc_zeroes _ _ _ _ oldsz newsz balance holds mapped
  rw [larger] at result
  have balance' := balance.moves moves
  -- With size 0 nothing is added, also when the new size is 0.
  have grown : space.Grown (ZeroLeaf free ram'.mem) space' (pages oldsz)
      (if size = newsz then pages newsz else pages oldsz) ∧
      (size = newsz → pages newsz ≤ USERTOP) := by
    obtain ⟨rfl, top, grown⟩ | ⟨rfl, grown⟩ := result
    · rw [if_pos rfl]
      exact ⟨grown, fun _ => top⟩
    by_cases zero : 0 = newsz
    · have none : pages oldsz = pages newsz := by
        have few := pages_mono le
        rw [← zero] at few ⊢
        exact Nat.le_antisymm few (Nat.zero_le _)
      rw [if_pos zero, ← none]
      exact ⟨grown, fun _ => mapped.1⟩
    · rw [if_neg zero]
      exact ⟨grown, fun equal => absurd equal zero⟩
  refine ⟨size, ram', space', free', ran, ?_, grown.1.root, holds', balance', ?_, ?_⟩
  · obtain ⟨same, -⟩ | ⟨zero, -⟩ := result
    · exact .inr same
    · exact .inl zero
  · intro zero positive
    have shorter : size ≠ newsz := by
      rintro rfl
      rw [zero] at positive
      exact absurd positive (by decide)
    have leaves : space'.leaves = space.leaves := by
      have same := grown.1
      rw [if_neg shorter] at same
      exact same.leaves_eq
    have conserved := moves.conserve
    rw [owned, owned, users_congr leaves, ← add_assoc, ← add_assoc] at conserved
    exact ⟨leaves, add_right_cancel conserved⟩
  · intro done
    have added := grown.1
    rw [if_pos done] at added
    refine ⟨fun v => ?_, fun v inside w inside' leaf other here there =>
      balance'.users_distinct inside inside' here there, ?_⟩
    · by_cases new : pages oldsz ≤ v ∧ v < pages newsz
      · rw [if_pos new]
        exact added.fresh v new.1 new.2
      · rw [if_neg new]
        exact added.kept v new
    · -- what `uvmalloc` added, `uvmdealloc` removes
      have user := grown.2 done
      have there := added.mapped mapped (pages_mono le) user
      obtain ⟨ram'', free'', ran', kept, moves'⟩ := @uvmdealloc_spec _ _ _ _ newsz oldsz balance'
        holds' (there.le_maxpages balance') fun v _ below => (there.2 v (by omega)).mpr below
      have shrunk := added.unmap mapped user
      have result : (if oldsz ≥ newsz then newsz else oldsz) = oldsz := by
        by_cases equal : oldsz ≥ newsz
        · rw [if_pos equal]
          exact BitVec.le_antisymm equal le
        · rw [if_neg equal]
      rw [result, added.root] at ran'
      exact ⟨ram'', _, free'', ran', shrunk.root, kept, balance'.moves moves', shrunk.leaves_eq⟩

end

def emptyTable : Ram := smallRam.setPage 0x8000d000 fun _ => 0

theorem emptyTable_balance : @Balance smallLayout emptyTable smallPages
    ((empty 0x8000d000).tables + (empty 0x8000d000).users) := by
  rw [tables_empty, users_empty, add_zero]
  have balance : @Balance smallLayout smallRam smallPages {0x8000d000} := by
    refine @Balance.mk smallLayout _ _ _ smallRam_chain ?_ ?_
    · rw [← coe_singleton, coe_add, coe_nodup]
      decide
    intro page mem
    rw [mem_add, mem_coe, mem_singleton] at mem
    obtain listed | rfl := mem
    · exact smallPages_managed page listed
    · decide
  let _ : Layout := smallLayout
  exact balance.moves (balance.setPage (mem_singleton_self _) _)

/-- From nothing to 5000 bytes, which take two pages. -/
theorem uvmalloc_all_or_nothing_two :
    (@uvmalloc smallLayout emptyTable 0x8000d000 0 5000).map Prod.fst = .ok 5000 ∧
    ∃ (size : BitVec 32) (ram' : Ram) (space' : Space),
      @uvmalloc smallLayout emptyTable 0x8000d000 0 5000 = .ok (size, ram') ∧
      space'.Holds ram'.mem ∧
      (size = 5000 → (∀ v, if pages 0 ≤ v ∧ v < pages 5000 then
          ∃ leaf, space'.leaves v = some leaf ∧ ZeroLeaf smallPages ram'.mem v leaf
        else space'.leaves v = none) ∧
        ∃ (ram'' : Ram) (space'' : Space),
          @uvmdealloc smallLayout ram' 0x8000d000 5000 0 = .ok (0, ram'') ∧
          space''.Holds ram''.mem ∧
          space''.leaves = fun _ => none) := by
  refine ⟨by decide +kernel, ?_⟩
  obtain ⟨size, ram', space', free', ran, -, -, holds, -, -, done⟩ :=
    @uvmalloc_all_or_nothing smallLayout emptyTable (empty 0x8000d000) smallPages 0 5000
      emptyTable_balance (holds_empty (setPage_mem_self ..)) (mapped_empty _)
      (by decide)
  refine ⟨size, ram', space', ran, holds, fun same => ?_⟩
  obtain ⟨leaves, -, ram'', space'', free'', undone, -, holds', -, restored⟩ := done same
  exact ⟨leaves, ram'', space'', undone, holds', restored⟩

end Xv6Rv32im.Vm
