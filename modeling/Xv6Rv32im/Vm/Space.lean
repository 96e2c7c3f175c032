import Xv6Rv32im.Vm.Allocator

/-!
# Address spaces

An address space as a page table describes it: which page-table pages there are
and which virtual pages are mapped where.  `Holds` says that memory holds such a
page table; it depends on the page-table pages only.
-/

namespace Xv6Rv32im.Vm

open Library.ByteWords Library.Shares Function Multiset Option

/-- A leaf entry: the page and the flags, among them PTE_V. -/
structure Leaf where
  page : BitVec 32
  flags : BitVec 32

/-- The entry is valid and is no pointer to a page table. -/
structure Leaf.Ok (leaf : Leaf) : Prop where
  aligned : Aligned leaf.page
  isFlags : IsFlags leaf.flags
  valid : leaf.flags &&& PTE_V ≠ 0
  access : leaf.flags &&& (PTE_R ||| PTE_W ||| PTE_X) ≠ 0

theorem Leaf.ok_of {page flags : BitVec 32} (aligned : Aligned page) (isFlags : IsFlags flags)
    (valid : flags &&& PTE_V ≠ 0) (access : flags &&& (PTE_R ||| PTE_W ||| PTE_X) ≠ 0) :
    (Leaf.mk page flags).Ok :=
  ⟨aligned, isFlags, valid, access⟩

/-- A two-level page table: its root, the page-table page at each index of the
root, and the leaf of each virtual page. -/
structure Space where
  root : BitVec 32
  dirs : Nat → Option (BitVec 32)
  leaves : Nat → Option Leaf

/-- The entry of the root that points to a page-table page. -/
def dirEntry : Option (BitVec 32) → BitVec 32
  | none => 0
  | some dir => pa2pte dir ||| PTE_V

def leafEntry : Option Leaf → BitVec 32
  | none => 0
  | some leaf => pa2pte leaf.page ||| leaf.flags

def vpn (va : BitVec 32) : Nat := va.toNat / 4096

/-- The page numbers below TRAPFRAME are for user memory. -/
def USERTOP : Nat := 0xffffe

namespace Space

def tables (space : Space) : Multiset (BitVec 32) :=
  space.root ::ₘ shares (fun i => held (space.dirs i)) 1024

def users (space : Space) : Multiset (BitVec 32) :=
  shares (fun v => held ((space.leaves v).map Leaf.page)) USERTOP

abbrev owned (space : Space) : Multiset (BitVec 32) := space.tables + space.users

structure Holds (space : Space) (mem : BitVec 32 → Bytes) : Prop where
  top : ∀ i < 1024, load32 (mem space.root) (4 * i) = dirEntry (space.dirs i)
  bottom : ∀ i < 1024, ∀ dir, space.dirs i = some dir →
    ∀ j < 1024, load32 (mem dir) (4 * j) = leafEntry (space.leaves (1024 * i + j))
  aligned : ∀ i < 1024, ∀ dir, space.dirs i = some dir → Aligned dir
  backed : ∀ v leaf, space.leaves v = some leaf →
    v < 2 ^ 20 ∧ space.dirs (v / 1024) ≠ none ∧ leaf.Ok

variable {space : Space} {mem mem' : BitVec 32 → Bytes} {i v : Nat} {dir : BitVec 32}

theorem root_mem_tables (space : Space) : space.root ∈ space.tables :=
  mem_cons_self ..

theorem dir_mem_tables (lt : i < 1024) (here : space.dirs i = some dir) : dir ∈ space.tables :=
  mem_cons_of_mem (mem_shares.mpr ⟨i, lt, mem_held.mpr here⟩)

theorem dir_ne_root (nodup : space.tables.Nodup) (lt : i < 1024)
    (here : space.dirs i = some dir) : dir ≠ space.root := by
  rintro rfl
  exact (nodup_cons.mp nodup).1 (mem_shares.mpr ⟨i, lt, mem_held.mpr here⟩)

theorem dir_unique {j : Nat} (nodup : space.tables.Nodup) (lt : i < 1024) (lt' : j < 1024)
    (here : space.dirs i = some dir) (there : space.dirs j = some dir) : i = j :=
  holder_unique (nodup_cons.mp nodup).2 lt lt' (mem_held.mpr here) (mem_held.mpr there)

section

variable (holds : space.Holds mem)

include holds

/-- A page table survives changes outside its pages. -/
theorem Holds.frame (same : ∀ page ∈ space.tables, mem' page = mem page) : space.Holds mem' where
  top := by
    rw [same space.root space.root_mem_tables]
    exact holds.top
  bottom := fun i lt dir here => by
    rw [same dir (dir_mem_tables lt here)]
    exact holds.bottom i lt dir here
  aligned := holds.aligned
  backed := holds.backed

theorem Holds.leaf_dir {leaf : Leaf} (mapped : space.leaves v = some leaf) :
    ∃ dir, space.dirs (v / 1024) = some dir :=
  ne_none_iff_exists'.mp (holds.backed v leaf mapped).2.1

theorem Holds.unmapped (absent : space.dirs (v / 1024) = none) : space.leaves v = none := by
  by_contra mapped
  obtain ⟨leaf, mapped⟩ := ne_none_iff_exists'.mp mapped
  exact (holds.backed v leaf mapped).2.1 absent

theorem Holds.leaf_entry (lt : v < 2 ^ 20) (here : space.dirs (v / 1024) = some dir) :
    load32 (mem dir) (4 * (v % 1024)) = leafEntry (space.leaves v) := by
  rw [holds.bottom (v / 1024) (by omega) dir here (v % 1024) (Nat.mod_lt _ (by decide)),
    Nat.div_add_mod]

end

/-! ## Changes -/

def setLeaf (space : Space) (v : Nat) (leaf : Option Leaf) : Space :=
  { space with leaves := update space.leaves v leaf }

def setDir (space : Space) (i : Nat) (dir : Option (BitVec 32)) : Space :=
  { space with dirs := update space.dirs i dir }

@[simp] theorem setLeaf_leaves_self (space : Space) (v : Nat) (leaf : Option Leaf) :
    (space.setLeaf v leaf).leaves v = leaf :=
  update_self ..

theorem setLeaf_leaves_of_ne {w : Nat} (leaf : Option Leaf) (ne : w ≠ v) :
    (space.setLeaf v leaf).leaves w = space.leaves w :=
  update_of_ne ne ..

@[simp] theorem setDir_dirs_self (space : Space) (i : Nat) (dir : Option (BitVec 32)) :
    (space.setDir i dir).dirs i = dir :=
  update_self ..

theorem setDir_dirs_of_ne {j : Nat} (dir : Option (BitVec 32)) (ne : j ≠ i) :
    (space.setDir i dir).dirs j = space.dirs j :=
  update_of_ne ne ..

theorem Holds.setLeaf (holds : space.Holds mem) (nodup : space.tables.Nodup)
    (lt : v < 2 ^ 20) (here : space.dirs (v / 1024) = some dir) (leaf : Option Leaf)
    (ok : ∀ l, leaf = some l → l.Ok) :
    (space.setLeaf v leaf).Holds
      (update mem dir (store32 (mem dir) (4 * (v % 1024)) (leafEntry leaf))) where
  top := by
    intro i small
    change load32 (update mem dir _ space.root) _ = _
    rw [update_of_ne (dir_ne_root nodup (by omega) here).symm]
    exact holds.top i small
  bottom := by
    intro i small other there j smallj
    have entry := holds.bottom i small other there j smallj
    by_cases same : i = v / 1024
    · obtain rfl : dir = other := some.inj (here.symm.trans (same ▸ there))
      rw [update_self, load32_store32_array]
      by_cases target : j = v % 1024
      · rw [if_pos target, same, target, Nat.div_add_mod, setLeaf_leaves_self]
      · rw [if_neg target, entry, setLeaf_leaves_of_ne leaf (by omega)]
    · have ne : other ≠ dir := by
        rintro rfl
        exact same (dir_unique nodup small (by omega) there here)
      rw [update_of_ne ne, entry, setLeaf_leaves_of_ne leaf (by omega)]
  aligned := holds.aligned
  backed := by
    intro w l mapped
    by_cases same : w = v
    · subst same
      rw [setLeaf_leaves_self] at mapped
      exact ⟨lt, ne_none_iff_exists'.mpr ⟨dir, here⟩, ok l mapped⟩
    · rw [setLeaf_leaves_of_ne leaf same] at mapped
      exact holds.backed w l mapped

theorem Holds.addDir (holds : space.Holds mem) (nodup : space.tables.Nodup) (lt : i < 1024)
    (absent : space.dirs i = none) (aligned : Aligned dir) (fresh : dir ∉ space.tables)
    (zero : mem dir = fun _ => 0) :
    (space.setDir i (some dir)).Holds (update mem space.root
        (store32 (mem space.root) (4 * i) (dirEntry (some dir)))) where
  top := by
    intro j small
    change load32 (update mem space.root _ space.root) _ = _
    rw [update_self, load32_store32_array]
    by_cases same : j = i
    · rw [if_pos same, same, setDir_dirs_self]
    · rw [if_neg same, holds.top j small, setDir_dirs_of_ne _ same]
  bottom := by
    intro j small other there k smallk
    by_cases same : j = i
    · subst same
      rw [setDir_dirs_self] at there
      obtain rfl : dir = other := some.inj there
      have ne : dir ≠ space.root := fun same => fresh (same ▸ space.root_mem_tables)
      have here : (1024 * j + k) / 1024 = j := by omega
      rw [update_of_ne ne, zero, load32_zero]
      change 0 = leafEntry (space.leaves (1024 * j + k))
      rw [holds.unmapped (by rw [here, absent])]
      rfl
    · rw [setDir_dirs_of_ne _ same] at there
      rw [update_of_ne (dir_ne_root nodup small there)]
      exact holds.bottom j small other there k smallk
  aligned := by
    intro j small other there
    by_cases same : j = i
    · subst same
      rw [setDir_dirs_self] at there
      exact some.inj there ▸ aligned
    · rw [setDir_dirs_of_ne _ same] at there
      exact holds.aligned j small other there
  backed := by
    intro w l mapped
    obtain ⟨bound, backed, ok⟩ := holds.backed w l mapped
    refine ⟨bound, ?_, ok⟩
    by_cases same : w / 1024 = i
    · rw [same, setDir_dirs_self]
      nofun
    · rw [setDir_dirs_of_ne _ same]
      exact backed

theorem tables_setDir (space : Space) (lt : i < 1024) (dir : Option (BitVec 32)) :
    (space.setDir i dir).tables + held (space.dirs i) = space.tables + held dir := by
  unfold tables
  rw [cons_add, cons_add]
  exact congrArg (space.root ::ₘ ·) (shares_held_update lt dir)

theorem users_setLeaf (space : Space) (lt : v < USERTOP) (leaf : Option Leaf) :
    (space.setLeaf v leaf).users + held ((space.leaves v).map Leaf.page) =
      space.users + held (leaf.map Leaf.page) := by
  have updated : (fun w => held (((space.setLeaf v leaf).leaves w).map Leaf.page)) =
      fun w => held (update (fun w => (space.leaves w).map Leaf.page) v
        (leaf.map Leaf.page) w) := by
    funext w
    by_cases same : w = v
    · subst same
      simp
    · simp [update_of_ne same, setLeaf_leaves_of_ne leaf same]
  unfold users
  rw [updated]
  exact shares_held_update lt (leaf.map Leaf.page)

theorem users_congr {space' : Space} (same : space'.leaves = space.leaves) :
    space'.users = space.users := by
  unfold users
  rw [same]

/-- Leaves outside user memory hold no user page. -/
theorem users_setLeaf_of_ge (space : Space) (outside : USERTOP ≤ v) (leaf : Option Leaf) :
    (space.setLeaf v leaf).users = space.users := by
  unfold users
  refine shares_congr fun w lt => ?_
  rw [setLeaf_leaves_of_ne leaf (by omega)]

end Space

end Xv6Rv32im.Vm
