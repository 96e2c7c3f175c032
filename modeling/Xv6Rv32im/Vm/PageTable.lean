import Xv6Rv32im.Library.Run
import Xv6Rv32im.Vm.Space

/-!
# Walking, mapping and unmapping

What `walk`, `mappages` and `uvmunmap` do to the address space that memory holds.
-/

namespace Xv6Rv32im.Vm

open Library.ByteWords Library.Shares Library.Run Space Option

/-! ## Addresses -/

section

variable {va : BitVec 32}

theorem vpn_lt (va : BitVec 32) : vpn va < 2 ^ 20 := by
  have bound := va.isLt
  unfold vpn
  omega

theorem aligned_lt_maxva (aligned : Aligned va) : va < MAXVA := by
  unfold Aligned at aligned
  have bound := va.isLt
  unfold MAXVA
  bv_omega

theorem pgRoundDown_isAligned (va : BitVec 32) : Aligned (pgRoundDown va) := by
  unfold Aligned
  rw [pgRoundDown_toNat]
  omega

theorem pgRoundDown_aligned (aligned : Aligned va) : pgRoundDown va = va := by
  unfold Aligned at aligned
  refine BitVec.eq_of_toNat_eq ?_
  rw [pgRoundDown_toNat]
  omega

theorem pgRoundDown_last (aligned : Aligned va) : pgRoundDown (va + 4096 - 1) = va := by
  unfold Aligned at aligned
  refine BitVec.eq_of_toNat_eq ?_
  have last : (va + 4096 - 1).toNat = va.toNat + 4095 := by
    have bound := va.isLt
    bv_omega
  rw [pgRoundDown_toNat, last]
  omega

theorem vpn_add {i : Nat} (aligned : Aligned va) (lt : vpn va + i < 2 ^ 20) :
    vpn (va + 4096 * BitVec.ofNat 32 i) = vpn va + i ∧ Aligned (va + 4096 * BitVec.ofNat 32 i) := by
  unfold vpn Aligned at *
  have sum : (va + 4096 * BitVec.ofNat 32 i).toNat = va.toNat + 4096 * i := by
    bv_omega
  rw [sum]
  omega

end

/-! ## Entries -/

theorem dirEntry_valid (dir : Option (BitVec 32)) : dirEntry dir &&& PTE_V ≠ 0 ↔ dir ≠ none := by
  cases dir with
  | none => simp [dirEntry]
  | some dir =>
    have valid : dirEntry (some dir) &&& PTE_V = PTE_V := by
      unfold dirEntry
      rw [entry_and (by decide)]
      rfl
    rw [valid]
    exact ⟨fun _ => nofun, fun _ => by decide⟩

theorem dirEntry_pointer (dir : BitVec 32) :
    dirEntry (some dir) &&& (PTE_R ||| PTE_W ||| PTE_X) = 0 := by
  unfold dirEntry
  rw [entry_and (by decide)]
  rfl

theorem pte2pa_dirEntry {dir : BitVec 32} (aligned : Aligned dir) :
    pte2pa (dirEntry (some dir)) = dir :=
  pte2pa_entry aligned (by decide)

theorem leafEntry_none_valid : leafEntry none &&& PTE_V = 0 := by
  decide

section

variable {leaf : Leaf}

theorem Leaf.Ok.entry_valid (ok : leaf.Ok) : leafEntry (some leaf) &&& PTE_V ≠ 0 := by
  unfold leafEntry
  rw [entry_and (by decide)]
  exact ok.valid

theorem Leaf.Ok.entry_flags (ok : leaf.Ok) : pteFlags (leafEntry (some leaf)) = leaf.flags :=
  pteFlags_entry ok.isFlags

theorem Leaf.Ok.entry_page (ok : leaf.Ok) : pte2pa (leafEntry (some leaf)) = leaf.page :=
  pte2pa_entry ok.aligned ok.isFlags

theorem Leaf.Ok.entry_user (leaf : Leaf) : leafEntry (some leaf) &&& PTE_U = leaf.flags &&& PTE_U :=
  entry_and (by decide)

/-- A leaf is not taken for a pointer to a page-table page. -/
theorem Leaf.Ok.flags_ne (ok : leaf.Ok) : leaf.flags ≠ PTE_V := by
  intro only
  have access := ok.access
  rw [only] at access
  exact access (by decide)

end

namespace Ram

variable {ram : Ram} {space : Space} {va : BitVec 32} {dir : BitVec 32}

section

variable (holds : space.Holds ram.mem)

include holds

theorem loadPte_top (va : BitVec 32) :
    ram.loadPte ⟨space.root, px 1 va⟩ = dirEntry (space.dirs (vpn va / 1024)) := by
  have bound := va.isLt
  unfold loadPte
  rw [px_one]
  exact holds.top (va.toNat / 4096 / 1024) (by omega)

theorem loadPte_leaf {v : Nat} (lt : v < 2 ^ 20) (here : space.dirs (v / 1024) = some dir) :
    ram.loadPte ⟨dir, v % 1024⟩ = leafEntry (space.leaves v) :=
  holds.leaf_entry lt here

/-- `walk` without allocation finds the page-table page if there is one. -/
theorem walk_of_holds (lt : va < MAXVA) : ram.walk space.root va false =
      .ok ((space.dirs (vpn va / 1024)).map fun dir => ⟨dir, vpn va % 1024⟩, ram) := by
  have bound := vpn_lt va
  unfold walk
  dsimp only
  rw [if_neg (BitVec.not_le.mpr lt), loadPte_top holds]
  cases here : space.dirs (vpn va / 1024) with
  | none =>
    rw [if_neg fun valid => (dirEntry_valid none).mp valid rfl]
    rfl
  | some dir =>
    rw [if_pos ((dirEntry_valid (some dir)).mpr nofun),
      pte2pa_dirEntry (holds.aligned _ (by omega) dir here), px_zero]
    rfl

end

variable [Layout]

/-- `walk` with allocation fails without an effect, or finds the page-table page,
which may be new. -/
theorem walk_alloc {free : List (BitVec 32)} (balance : Balance ram free space.tables)
    (holds : space.Holds ram.mem) (lt : va < MAXVA) :
    (∃ ram', ram.walk space.root va true = .ok (none, ram') ∧ space.Holds ram'.mem ∧
      Moves ram free space.tables ram' free space.tables) ∨
    ∃ (dir : BitVec 32) (space' : Space) (ram' : Ram) (free' : List (BitVec 32)),
      ram.walk space.root va true = .ok (some ⟨dir, vpn va % 1024⟩, ram') ∧
      space'.root = space.root ∧ space'.leaves = space.leaves ∧
      space'.dirs (vpn va / 1024) = some dir ∧ space'.Holds ram'.mem ∧
      Moves ram free space.tables ram' free' space'.tables ∧ free' ⊆ free := by
  have bound := vpn_lt va
  have small : vpn va / 1024 < 1024 := by omega
  unfold walk
  dsimp only
  rw [if_neg (BitVec.not_le.mpr lt), loadPte_top holds]
  cases here : space.dirs (vpn va / 1024) with
  | some dir =>
    rw [if_pos ((dirEntry_valid (some dir)).mpr nofun),
      pte2pa_dirEntry (holds.aligned _ small dir here), px_zero]
    exact .inr ⟨dir, space, ram, free, rfl, rfl, rfl, here, holds, balance.refl, List.Subset.refl _⟩
  | none =>
    rw [if_neg fun valid => (dirEntry_valid none).mp valid rfl]
    obtain ⟨ram', denied, same, moves⟩ |
        ⟨page, rest, ram', rfl, given, managed, fresh, others, moves⟩ := balance.kalloc_fill
    · rw [denied]
      exact .inl ⟨ram', rfl, same ▸ holds, moves⟩
    rw [given, px_zero, px_one]
    have after := balance.moves (moves fun _ => 0)
    have stored := after.setPage (Multiset.mem_cons_of_mem space.root_mem_tables)
      (store32 ((ram'.memset page 0).mem space.root) (4 * (vpn va / 1024)) (dirEntry (some page)))
    have tables : (space.setDir (vpn va / 1024) (some page)).tables = page ::ₘ space.tables := by
      have added := space.tables_setDir small (some page)
      rw [here, held_none, add_zero, held_some] at added
      rw [added, add_comm, Multiset.singleton_add]
    have kept : space.Holds (ram'.memset page 0).mem := by
      refine holds.frame fun other member => ?_
      have ne : other ≠ page := fun same => fresh (same ▸ member)
      rw [setPage_mem_of_ne _ ne, others other ne]
    refine .inr ⟨page, space.setDir _ (some page), _, rest, rfl, rfl, rfl,
      setDir_dirs_self .., ?_, ?_, List.subset_cons_self ..⟩
    · exact kept.addDir (Multiset.nodup_cons.mp after.held_nodup).2 small here managed.1 fresh
        (setPage_mem_self ..)
    · rw [tables]
      exact (moves fun _ => 0).trans stored

/-! ## Mapping one page -/

/-- `mappages` of one page fails without an effect on the space, or adds the leaf. -/
theorem mappages_page {free : List (BitVec 32)} {pa perm : BitVec 32}
    (balance : Balance ram free space.tables) (holds : space.Holds ram.mem) (aligned : Aligned va)
    (unmapped : space.leaves (vpn va) = none) (ok : (Leaf.mk pa (perm ||| PTE_V)).Ok) :
    (∃ ram', ram.mappages space.root va 4096 pa perm = .ok (false, ram') ∧
      space.Holds ram'.mem ∧ Moves ram free space.tables ram' free space.tables) ∨
    ∃ (space' : Space) (ram' : Ram) (free' : List (BitVec 32)),
      ram.mappages space.root va 4096 pa perm = .ok (true, ram') ∧
      space'.root = space.root ∧
      space'.leaves = (space.setLeaf (vpn va) (some ⟨pa, perm ||| PTE_V⟩)).leaves ∧
      space'.Holds ram'.mem ∧ Moves ram free space.tables ram' free' space'.tables ∧
      free' ⊆ free := by
  have bound := vpn_lt va
  unfold mappages
  rw [pgRoundDown_aligned aligned, pgRoundDown_last aligned,
    show (2 ^ 20 : Nat) = 1048575 + 1 from rfl, mappagesFrom]
  obtain ⟨ram', walked, kept, moves⟩ |
    ⟨dir, space', ram', free', walked, root, leaves, here, kept, moves, fewer⟩ :=
    walk_alloc balance holds (aligned_lt_maxva aligned)
  · rw [walked]
    exact .inl ⟨ram', rfl, kept, moves⟩
  have after := balance.moves moves
  have empty : ram'.loadPte ⟨dir, vpn va % 1024⟩ &&& PTE_V = 0 := by
    rw [loadPte_leaf kept bound here, leaves, unmapped]
    exact leafEntry_none_valid
  have stored := after.setPage (dir_mem_tables (by omega) here)
    (store32 (ram'.mem dir) (4 * (vpn va % 1024)) (leafEntry (some ⟨pa, perm ||| PTE_V⟩)))
  have entry : pa2pte pa ||| perm ||| PTE_V = leafEntry (some ⟨pa, perm ||| PTE_V⟩) :=
    BitVec.or_assoc ..
  rw [walked]
  refine .inr ⟨space'.setLeaf (vpn va) (some ⟨pa, perm ||| PTE_V⟩), _, free', ?_, root, ?_, ?_,
    moves.trans stored, fewer⟩
  · simp only [bind, Except.bind, empty, ne_eq, not_true_eq_false, if_false, if_true, entry]
    rfl
  · simp only [setLeaf, leaves]
  · exact kept.setLeaf after.held_nodup bound here _ fun leaf same => some.inj same ▸ ok

/-! ## Unmapping -/

end Ram

/-- The space without the leaves of `n` virtual pages from `v` on. -/
def Space.unmap (space : Space) (v n : Nat) : Space :=
  { space with leaves := fun w => if v ≤ w ∧ w < v + n then none else space.leaves w }

theorem Space.unmap_zero (space : Space) (v : Nat) : space.unmap v 0 = space := by
  unfold unmap
  congr 1
  funext w
  rw [if_neg (by omega)]

theorem Space.unmap_leaves_of_ge {v n w : Nat} (space : Space) (above : v + n ≤ w) :
    (space.unmap v n).leaves w = space.leaves w :=
  if_neg (by omega)

theorem Space.unmap_succ (space : Space) (v n : Nat) :
    (space.setLeaf v none).unmap (v + 1) n = space.unmap v (n + 1) := by
  unfold unmap
  congr 1
  funext w
  by_cases same : w = v
  · subst same
    rw [setLeaf_leaves_self, if_neg (by omega), if_pos (by omega)]
  rw [setLeaf_leaves_of_ne _ same]
  by_cases lt : v + 1 ≤ w ∧ w < v + 1 + n
  · rw [if_pos lt, if_pos (by omega)]
  · rw [if_neg lt, if_neg (by omega)]

namespace Ram

variable {ram : Ram} {space : Space} {va : BitVec 32} [Layout]

/-- One round of `uvmunmap`: the entry is found and its page is known. -/
theorem uvmunmap_round {i : Nat} {leaf : Leaf} (holds : space.Holds ram.mem) (aligned : Aligned va)
    (mapped : space.leaves (vpn va + i) = some leaf) (doFree : Bool) (remaining : Nat) :
    ∃ dir, space.dirs ((vpn va + i) / 1024) = some dir ∧
      uvmunmapFrom space.root va doFree ram i (remaining + 1) = (do
        let ram ← if doFree then ram.kfree leaf.page else .ok ram
        uvmunmapFrom space.root va doFree (ram.storePte ⟨dir, (vpn va + i) % 1024⟩ 0) (i + 1)
          remaining) := by
  obtain ⟨lt, -, ok⟩ := holds.backed _ leaf mapped
  obtain ⟨dir, here⟩ := holds.leaf_dir mapped
  obtain ⟨number, aligned'⟩ := vpn_add aligned lt
  refine ⟨dir, here, ?_⟩
  have entry := loadPte_leaf holds lt here
  rw [mapped] at entry
  rw [uvmunmapFrom, walk_of_holds holds (aligned_lt_maxva aligned'), number, here]
  simp only [bind, Except.bind, map_some, entry, ok.entry_flags, ok.entry_page]
  rw [if_neg ok.entry_valid, if_neg ok.flags_ne]

/-- `uvmunmap` with freeing: the leaves go and their pages become free. -/
theorem uvmunmapFrom_free {free : List (BitVec 32)} {i remaining : Nat}
    (balance : Balance ram free space.owned) (holds : space.Holds ram.mem)
    (aligned : Aligned va) (user : vpn va + i + remaining ≤ USERTOP)
    (mapped : ∀ k < remaining, space.leaves (vpn va + i + k) ≠ none) :
    ∃ ram' free', uvmunmapFrom space.root va true ram i remaining = .ok ram' ∧
      (space.unmap (vpn va + i) remaining).Holds ram'.mem ∧
      Moves ram free space.owned ram' free'
        (space.tables + (space.unmap (vpn va + i) remaining).users) := by
  induction remaining generalizing ram free space i with
  | zero =>
    rw [unmap_zero]
    exact ⟨ram, free, rfl, holds, balance.refl⟩
  | succ remaining ih =>
    obtain ⟨leaf, here⟩ := ne_none_iff_exists'.mp (mapped 0 (Nat.succ_pos _))
    rw [Nat.add_zero] at here
    obtain ⟨dir, backed, round⟩ := uvmunmap_round holds aligned here true remaining
    have lt : vpn va + i < USERTOP := by omega
    -- The page leaves the users of the space for the free list.
    have split : space.users = leaf.page ::ₘ (space.setLeaf (vpn va + i) none).users := by
      have removed := space.users_setLeaf lt none
      rw [here, map_none, held_none, add_zero, map_some, held_some, add_comm,
        Multiset.singleton_add] at removed
      exact removed.symm
    have regroup : space.owned =
        leaf.page ::ₘ (space.tables + (space.setLeaf (vpn va + i) none).users) := by
      rw [owned, split, Multiset.add_cons]
    rw [regroup] at balance ⊢
    obtain ⟨freed, ran, same, moves⟩ := balance.kfree
    have after := balance.moves moves
    have member : dir ∈ space.tables := dir_mem_tables (by unfold USERTOP at lt; omega) backed
    have kept : space.Holds freed.mem := by
      refine holds.frame fun page table => same page fun equal => ?_
      exact (Multiset.nodup_cons.mp balance.held_nodup).1
        (equal ▸ Multiset.mem_add.mpr (.inl table))
    have stored := after.setPage (Multiset.mem_add.mpr (.inl member))
      (store32 (freed.mem dir) (4 * ((vpn va + i) % 1024)) (leafEntry none))
    have cleared : (space.setLeaf (vpn va + i) none).Holds
        (freed.storePte ⟨dir, (vpn va + i) % 1024⟩ 0).mem :=
      kept.setLeaf after.part.held_nodup (by unfold USERTOP at lt; omega) backed none nofun
    obtain ⟨ram', free', rest, final, moves'⟩ := @ih _ _ _
      (i + 1) (after.moves stored) cleared (by omega) (by
        intro k small
        rw [setLeaf_leaves_of_ne _ (by omega)]
        have next := mapped (k + 1) (by omega)
        rwa [show vpn va + i + (k + 1) = vpn va + (i + 1) + k by omega] at next)
    rw [show vpn va + (i + 1) = vpn va + i + 1 by omega, unmap_succ] at final moves'
    refine ⟨ram', free', ?_, final, moves.trans (stored.trans moves')⟩
    rw [round, if_pos rfl, ran]
    exact rest

theorem uvmunmap_free {free : List (BitVec 32)} {npages : BitVec 32}
    (balance : Balance ram free space.owned) (holds : space.Holds ram.mem)
    (aligned : Aligned va) (user : vpn va + npages.toNat ≤ USERTOP)
    (mapped : ∀ k < npages.toNat, space.leaves (vpn va + k) ≠ none) :
    ∃ ram' free', ram.uvmunmap space.root va npages true = .ok ram' ∧
      (space.unmap (vpn va) npages.toNat).Holds ram'.mem ∧
      Moves ram free space.owned ram' free'
        (space.tables + (space.unmap (vpn va) npages.toNat).users) := by
  unfold uvmunmap
  rw [if_neg (show ¬va.toNat % PGSIZE ≠ 0 from not_not.mpr aligned)]
  exact @uvmunmapFrom_free _ _ _ _ _ 0 _ balance holds aligned user mapped

theorem uvmunmap_keep {free : List (BitVec 32)} {leaf : Leaf}
    (balance : Balance ram free space.tables) (holds : space.Holds ram.mem)
    (aligned : Aligned va) (mapped : space.leaves (vpn va) = some leaf) :
    ∃ ram', ram.uvmunmap space.root va 1 false = .ok ram' ∧
      (space.setLeaf (vpn va) none).Holds ram'.mem ∧
      Moves ram free space.tables ram' free space.tables := by
  obtain ⟨dir, backed, round⟩ := @uvmunmap_round _ _ _ _ 0 _ holds aligned mapped false 0
  have bound := vpn_lt va
  have stored := balance.setPage (dir_mem_tables (by omega) backed)
    (store32 (ram.mem dir) (4 * (vpn va % 1024)) (leafEntry none))
  refine ⟨_, ?_, holds.setLeaf balance.held_nodup bound backed none nofun, stored⟩
  unfold uvmunmap
  rw [if_neg (show ¬va.toNat % PGSIZE ≠ 0 from not_not.mpr aligned)]
  exact round

/-! ## Freeing page-table pages -/

theorem freewalk_empty {page : BitVec 32} (depth : Nat)
    (empty : ∀ j < 1024, ram.loadPte ⟨page, j⟩ = 0) :
    freewalk (depth + 1) ram page = ram.kfree page := by
  have round j (small : j < 1024) :
      freewalkEntry (freewalk depth) page ram j = .ok ram := by
    unfold freewalkEntry
    rw [empty j small]
    rfl
  obtain ⟨_, ran, rfl⟩ := foldlM_range (freewalkEntry (freewalk depth) page)
    (fun _ after => after = ram) rfl
    (fun j small after same => ⟨ram, by rw [same, round j small], rfl⟩) (le_refl 1024)
  rw [freewalk, ran]
  rfl

end Ram

/-- The space without the page-table pages of the first `n` indices. -/
def Space.clearDirs (space : Space) (n : Nat) : Space :=
  { space with dirs := fun i => if i < n then none else space.dirs i }

theorem Space.clearDirs_succ (space : Space) (n : Nat) :
    space.clearDirs (n + 1) = (space.clearDirs n).setDir n none := by
  unfold clearDirs setDir
  congr 1
  funext i
  by_cases same : i = n
  · subst same
    rw [Function.update_self, if_pos (by omega)]
  rw [Function.update_of_ne same]
  by_cases below : i < n
  · exact (if_pos (by omega)).trans (if_pos below).symm
  · exact (if_neg (by omega)).trans (if_neg below).symm

theorem Space.clearDirs_tables (space : Space) : (space.clearDirs 1024).tables = {space.root} := by
  unfold tables
  rw [shares_eq_zero fun i lt => ?_]
  · rfl
  · simp [clearDirs, lt]

/-- Clearing the pointer to a page-table page without leaves. -/
theorem Space.Holds.dropDir {space : Space} {mem mem' : BitVec 32 → Bytes} {i : Nat}
    (holds : space.Holds mem) (nodup : space.tables.Nodup) (lt : i < 1024)
    (bare : ∀ v, space.leaves v = none)
    (root : mem' space.root = store32 (mem space.root) (4 * i) 0)
    (others : ∀ page ∈ space.tables, page ≠ space.root → some page ≠ space.dirs i →
      mem' page = mem page) : (space.setDir i none).Holds mem' where
  top := by
    intro j small
    change load32 (mem' space.root) _ = _
    rw [root, load32_store32_array]
    by_cases same : j = i
    · rw [if_pos same, same, setDir_dirs_self]
      rfl
    · rw [if_neg same, holds.top j small, setDir_dirs_of_ne _ same]
  bottom := by
    intro j small dir there k smallk
    by_cases same : j = i
    · subst same
      rw [setDir_dirs_self] at there
      cases there
    rw [setDir_dirs_of_ne _ same] at there
    rw [others dir (dir_mem_tables small there) (dir_ne_root nodup small there)
      fun here => same (dir_unique nodup small lt there here.symm)]
    exact holds.bottom j small dir there k smallk
  aligned := by
    intro j small dir there
    by_cases same : j = i
    · subst same
      rw [setDir_dirs_self] at there
      cases there
    · rw [setDir_dirs_of_ne _ same] at there
      exact holds.aligned j small dir there
  backed := by
    intro v leaf mapped
    rw [show (space.setDir i none).leaves v = none from bare v] at mapped
    cases mapped

/-- Freeing a page-table page without leaves and clearing the pointer to it. -/
theorem Ram.freewalkEntry_empties [Layout] {ram : Ram} {space : Space} {free : List (BitVec 32)}
    {i : Nat} (balance : Balance ram free space.tables) (holds : space.Holds ram.mem)
    (lt : i < 1024) (bare : ∀ v, space.leaves v = none) :
    ∃ ram' free', freewalkEntry (freewalk 1) space.root ram i = .ok ram' ∧
      (space.setDir i none).Holds ram'.mem ∧
      Moves ram free space.tables ram' free' (space.setDir i none).tables := by
  have entry : ram.loadPte ⟨space.root, i⟩ = dirEntry (space.dirs i) := holds.top i lt
  have removed := space.tables_setDir lt none
  rw [held_none, add_zero] at removed
  unfold freewalkEntry
  rw [entry]
  cases here : space.dirs i with
  | none =>
    have same : space.setDir i none = space := by
      unfold setDir
      rw [← here, Function.update_eq_self]
    rw [same]
    exact ⟨ram, free, rfl, holds, balance.refl⟩
  | some dir =>
    have empty : ∀ j < 1024, ram.loadPte ⟨dir, j⟩ = 0 := by
      intro j small
      have leaf := holds.bottom i lt dir here j small
      rw [bare] at leaf
      exact leaf
    rw [here, held_some, add_comm, Multiset.singleton_add] at removed
    rw [if_pos ⟨(dirEntry_valid _).mpr nofun, dirEntry_pointer dir⟩,
      pte2pa_dirEntry (holds.aligned i lt dir here), freewalk_empty 0 empty]
    have ne := dir_ne_root balance.held_nodup lt here
    rw [← removed] at balance ⊢
    obtain ⟨freed, ran, others, moves⟩ := balance.kfree
    have after := balance.moves moves
    have stored := after.setPage (space.setDir i none).root_mem_tables
      (store32 (freed.mem space.root) (4 * i) 0)
    rw [ran]
    refine ⟨_, _, rfl, ?_, moves.trans stored⟩
    refine holds.dropDir (removed ▸ balance.held_nodup) lt bare ?_ fun page _ top kept => ?_
    · rw [storePte, setPage_mem_self, others space.root ne.symm]
    · rw [storePte, setPage_mem_of_ne _ top]
      exact others page fun same => kept (same ▸ here.symm)

/-- `freewalk` of a page table without leaves frees all of its pages. -/
theorem Ram.freewalk_frees [Layout] {ram : Ram} {space : Space} {free : List (BitVec 32)}
    (balance : Balance ram free space.tables) (holds : space.Holds ram.mem)
    (bare : ∀ v, space.leaves v = none) :
    ∃ ram' free', freewalk 2 ram space.root = .ok ram' ∧
      Moves ram free space.tables ram' free' 0 := by
  obtain ⟨ram', ran, kept, free', moves⟩ := foldlM_range (freewalkEntry (freewalk 1) space.root)
    (fun i (after : Ram) => (space.clearDirs i).Holds after.mem ∧
      ∃ free', Moves ram free space.tables after free' (space.clearDirs i).tables)
    ⟨holds, free, balance.refl⟩
    (fun i lt after ⟨kept, free', moves⟩ => by
      obtain ⟨ram', free'', round, kept', moves'⟩ :=
        @freewalkEntry_empties _ _ _ _ _ (balance.moves moves) kept lt bare
      rw [← clearDirs_succ] at kept' moves'
      exact ⟨ram', round, kept', free'', moves.trans moves'⟩) (le_refl 1024)
  rw [clearDirs_tables, ← Multiset.cons_zero] at moves
  obtain ⟨freed, done, -, moves'⟩ := (balance.moves moves).kfree
  refine ⟨freed, _, ?_, moves.trans moves'⟩
  rw [freewalk, ran]
  exact done

end Xv6Rv32im.Vm
