import Xv6Rv32im.Vm.UserMemory

/-!
# Copying memory

`uvmcopy` copies the user memory of one address space into another, and `copyout`
writes to user memory through the page table.
-/

namespace Xv6Rv32im.Vm

open Library.ByteWords Library.Shares Library.Run Multiset Option

/-! ## `uvmcopy` -/

theorem valid_or {flags : BitVec 32} (valid : flags &&& PTE_V ≠ 0) : flags ||| PTE_V = flags := by
  have lowest : flags.getLsbD 0 = true := by
    by_contra clear
    refine valid (BitVec.eq_of_getLsbD_eq fun i lt => ?_)
    rw [Bool.not_eq_true] at clear
    rw [BitVec.getLsbD_and, PTE_V]
    cases i with
    | zero =>
      rw [clear]
      rfl
    | succ i => simp
  refine BitVec.eq_of_getLsbD_eq fun i lt => ?_
  rw [BitVec.getLsbD_or, PTE_V]
  cases i with
  | zero => simp [lowest]
  | succ i => simp

theorem clear_and {flags mask : BitVec 32} (other : ~~~PTE_U &&& mask = mask) :
    (flags &&& ~~~PTE_U) &&& mask = flags &&& mask := by
  rw [BitVec.and_assoc, other]

/-- The leaves that `uvmcopy` makes carry the flags of the ones copied. -/
def copiedLeaf (parent : Space) (v : Nat) (leaf : Leaf) : Prop :=
  ∃ original, parent.leaves v = some original ∧ leaf.flags = original.flags

namespace Ram

variable {ram : Ram} {base space parent : Space} {free : List (BitVec 32)}
  {rest : Multiset (BitVec 32)} {m : Nat} {va : BitVec 32}

/-- The entry of the space copied that a round of `uvmcopy` reads. -/
theorem uvmcopy_entry {leaf : Leaf} (holds : parent.Holds ram.mem) (aligned : Aligned va)
    (mapped : parent.leaves (vpn va) = some leaf) :
    ∃ pte, ram.walk parent.root va false = .ok (some pte, ram) ∧
      ram.loadPte pte = leafEntry (some leaf) := by
  obtain ⟨dir, here⟩ := holds.leaf_dir mapped
  refine ⟨⟨dir, vpn va % 1024⟩, ?_, ?_⟩
  · rw [walk_of_holds holds (aligned_lt_maxva aligned), here]
    rfl
  · rw [loadPte_leaf holds (vpn_lt va) here, mapped]

variable [Layout]

/-- `uvmcopy` gives back what it copied when memory runs out. -/
theorem uvmcopy_undo {good : Nat → Leaf → Prop} {i : BitVec 32}
    (balance : Balance ram free space.owned) (holds : space.Holds ram.mem)
    (mapped : base.Mapped 0) (grown : base.Grown good space 0 m) (address : i.toNat = 4096 * m)
    (user : m ≤ USERTOP) :
    ∃ space' ram' free',
      ram.uvmunmap base.root 0 (i / 4096) true = .ok ram' ∧ base.Grown good space' 0 0 ∧
      space'.Holds ram'.mem ∧
      Moves ram free space.owned ram' free' space'.owned := by
  have count : (i / 4096).toNat = m := by
    rw [BitVec.toNat_udiv, address]
    exact Nat.mul_div_cancel_left _ (by decide)
  have there := grown.mapped mapped (Nat.zero_le m) user
  have unmapped := @uvmunmap_free _ _ 0 _ _ (i / 4096) balance holds (by decide)
  rw [count, show vpn 0 = 0 from rfl, zero_add] at unmapped
  obtain ⟨ram', free', ran, kept, moves⟩ := unmapped user fun k lt =>
    (there.2 _ (by omega)).mpr (by omega)
  exact ⟨_, ram', free', grown.root ▸ ran, grown.unmap mapped user, kept, moves⟩

/-- The loop of `uvmcopy`: all pages are copied, or memory runs out and the space is
as before. -/
theorem uvmcopyFrom_spec {sz i : BitVec 32} {fuel : Nat}
    (balance : Balance ram free (space.owned + rest)) (holds : space.Holds ram.mem)
    (original : parent.Holds ram.mem) (apart : ∀ page ∈ parent.tables, page ∈ rest)
    (whole : parent.Mapped (pages sz)) (mapped : base.Mapped 0)
    (grown : base.Grown (copiedLeaf parent) space 0 m) (below : m ≤ pages sz)
    (address : i.toNat = 4096 * m) (few : pages sz ≤ MAXPAGES) (enough : 2 ^ 20 ≤ fuel + m) :
    ∃ done space' ram' free',
      uvmcopyFrom parent.root base.root sz fuel ram i = .ok (done, ram') ∧
      (done = true ∧ base.Grown (copiedLeaf parent) space' 0 (pages sz) ∨
        done = false ∧ base.Grown (copiedLeaf parent) space' 0 0) ∧
      space'.Holds ram'.mem ∧
      Moves ram free space.owned ram' free' space'.owned := by
  induction fuel generalizing ram free space m i with
  | zero =>
    unfold MAXPAGES at few
    omega
  | succ fuel ih =>
    have user : m ≤ USERTOP := (below.trans few).trans (by decide)
    have number : vpn i = m := by
      unfold vpn
      omega
    have aligned : Aligned i := by
      unfold Aligned
      omega
    rw [uvmcopyFrom]
    by_cases more : i < sz
    · have more' : i.toNat < sz.toNat := more
      have lt : m < pages sz := by
        unfold pages
        omega
      obtain ⟨leaf, here⟩ := ne_none_iff_exists'.mp ((whole.2 m (lt.trans_le whole.1)).mpr lt)
      obtain ⟨-, -, ok⟩ := original.backed m leaf here
      obtain ⟨pte, walked, entry⟩ := uvmcopy_entry original aligned (number.symm ▸ here)
      rw [if_pos more, walked]
      simp only [ok_bind]
      rw [entry, if_neg ok.entry_valid, ok.entry_page, ok.entry_flags]
      obtain ⟨ram₁, denied, same, moves₁⟩ |
          ⟨page, others, ram₁, rfl, given, managed, fresh, kept₁, moves₁⟩ :=
        balance.part.kalloc_fill
      · obtain ⟨space', ram', free', ran, kept, holds', moves'⟩ := uvmcopy_undo
          (balance.part.moves moves₁) (same ▸ holds) mapped grown address user
        rw [denied]
        dsimp only
        rw [ran]
        exact ⟨false, space', ram', free', rfl, .inr ⟨rfl, kept⟩, holds', moves₁.trans moves'⟩
      rw [given]
      dsimp only
      replace moves₁ := moves₁ (ram₁.mem leaf.page)
      have after := balance.part.moves moves₁
      have holds₁ : space.Holds (ram₁.setPage page (ram₁.mem leaf.page)).mem := by
        refine holds.frame fun other table => ?_
        have ne : other ≠ page := fun same =>
          fresh (same ▸ mem_add.mpr (.inl table))
        rw [setPage_mem_of_ne _ ne, kept₁ other ne]
      have unmapped : space.leaves (vpn i) = none := by
        rw [number]
        by_contra there
        exact absurd (((grown.mapped mapped (Nat.zero_le m) user).2 m
          (lt.trans_le whole.1)).mp there) (by omega)
      have fine : (Leaf.mk page (leaf.flags ||| PTE_V)).Ok := by
        rw [valid_or ok.valid]
        exact Leaf.ok_of managed.1 ok.isFlags ok.valid ok.access
      obtain ⟨ram₂, failed, holds₂, moves₂⟩ |
          ⟨space₂, ram₂, free₂, made, root, leaves, holds₂, moves₂, -⟩ :=
        mappages_user after holds₁ aligned (number.symm ▸ lt.trans_le whole.1) unmapped fine
      · obtain ⟨ram₃, freed, kept₃, moves₃⟩ := (after.moves moves₂).kfree
        have holds₃ : space.Holds ram₃.mem := holds₂.frame fun other table =>
          kept₃ other fun same => fresh (same ▸ mem_add.mpr (.inl table))
        obtain ⟨space', ram', free', ran, kept, holds', moves'⟩ := uvmcopy_undo
          ((after.moves moves₂).moves moves₃) holds₃ mapped grown address user
        rw [← grown.root, failed]
        simp only [ok_bind]
        rw [if_neg Bool.false_ne_true, freed, grown.root]
        simp only [ok_bind]
        rw [ran]
        exact ⟨false, space', ram', free', rfl, .inr ⟨rfl, kept⟩, holds',
          moves₁.trans (moves₂.trans (moves₃.trans moves'))⟩
      · have moves := moves₁.trans moves₂
        have flags : copiedLeaf parent m ⟨page, leaf.flags ||| PTE_V⟩ :=
          ⟨leaf, here, valid_or ok.valid⟩
        have grown' := grown.step (Nat.zero_le m) flags root (number ▸ leaves)
        have address' : (i + 4096).toNat = 4096 * (m + 1) := by
          unfold MAXPAGES at few
          bv_omega
        obtain ⟨done, space', ram', free', ran, result, holds', moves'⟩ := ih
          (balance.moves (moves.extend rest)) holds₂
          (original.frame fun page table => moves.rest_same balance (apart page table)) grown'
          lt address' (by omega)
        rw [← grown.root, made]
        simp only [ok_bind]
        rw [if_pos True.intro, grown.root, ran]
        exact ⟨done, space', ram', free', rfl, result, holds', moves.trans moves'⟩
    · have finished : m = pages sz := by
        have reached : sz.toNat ≤ i.toNat := BitVec.not_lt.mp more
        unfold pages at below ⊢
        omega
      rw [if_neg more]
      exact ⟨true, space, ram, free, rfl, .inl ⟨rfl, finished ▸ grown⟩, holds, balance.part.refl⟩

/-! ## `uvmclear` -/

theorem uvmclear_spec {leaf : Leaf} (balance : Balance ram free space.tables)
    (holds : space.Holds ram.mem) (aligned : Aligned va)
    (mapped : space.leaves (vpn va) = some leaf) :
    ∃ ram', ram.uvmclear space.root va = .ok ram' ∧
      (space.setLeaf (vpn va) (some ⟨leaf.page, leaf.flags &&& ~~~PTE_U⟩)).Holds ram'.mem ∧
      Moves ram free space.tables ram' free space.tables := by
  have bound := vpn_lt va
  obtain ⟨-, -, ok⟩ := holds.backed _ leaf mapped
  obtain ⟨dir, here⟩ := holds.leaf_dir mapped
  have cleared : (Leaf.mk leaf.page (leaf.flags &&& ~~~PTE_U)).Ok := by
    refine Leaf.ok_of ok.aligned (ok.isFlags.and_left _) ?_ ?_
    · rw [clear_and (by decide)]
      exact ok.valid
    · rw [clear_and (by decide)]
      exact ok.access
  have entry : ram.loadPte ⟨dir, vpn va % 1024⟩ &&& ~~~PTE_U =
      leafEntry (some ⟨leaf.page, leaf.flags &&& ~~~PTE_U⟩) := by
    rw [loadPte_leaf holds bound here, mapped]
    exact entry_clear (by decide)
  have stored := balance.setPage (Space.dir_mem_tables (by omega) here)
    (store32 (ram.mem dir) (4 * (vpn va % 1024))
      (leafEntry (some ⟨leaf.page, leaf.flags &&& ~~~PTE_U⟩)))
  refine ⟨_, ?_, holds.setLeaf balance.held_nodup bound here _ fun l same =>
    Option.some.inj same ▸ cleared, stored⟩
  unfold uvmclear
  rw [walk_of_holds holds (aligned_lt_maxva aligned), here]
  simp only [ok_bind, map_some]
  rw [entry]
  rfl

end Ram

/-! ## Access by the user -/

/-- The physical page of a virtual page that the user may access. -/
def Space.userPage (space : Space) (v : Nat) : Option (BitVec 32) :=
  match space.leaves v with
  | none => none
  | some leaf => if leaf.flags &&& PTE_U = 0 then none else some leaf.page

/-- What lies above user memory is not for the user. -/
def Space.Guarded (space : Space) : Prop :=
  ∀ v, USERTOP ≤ v → ∀ leaf, space.leaves v = some leaf → leaf.flags &&& PTE_U = 0

theorem Space.Guarded.userPage_mem {space : Space} {v : Nat} {page : BitVec 32}
    (guarded : space.Guarded) (user : space.userPage v = some page) :
    v < USERTOP ∧ page ∈ space.users := by
  unfold Space.userPage at user
  cases here : space.leaves v with
  | none =>
    rw [here] at user
    cases user
  | some leaf =>
    rw [here] at user
    dsimp only at user
    by_cases access : leaf.flags &&& PTE_U = 0
    · rw [if_pos access] at user
      cases user
    rw [if_neg access] at user
    cases user
    have below : v < USERTOP := by
      by_contra above
      exact access (guarded v (Nat.le_of_not_lt above) leaf here)
    exact ⟨below, mem_shares.mpr ⟨v, below, by rw [here]; exact mem_held.mpr rfl⟩⟩

theorem offset_lt (va : BitVec 32) : (va - pgRoundDown va).toNat < 4096 := by
  have down := pgRoundDown_toNat va
  bv_omega

namespace Ram

variable {ram : Ram} {space : Space} {free : List (BitVec 32)}

theorem walkaddr_spec (holds : space.Holds ram.mem) (aligned : Aligned va) :
    ram.walkaddr space.root va = .ok ((space.userPage (vpn va)).getD 0) := by
  have lt := aligned_lt_maxva aligned
  unfold walkaddr Space.userPage
  rw [if_neg (BitVec.not_le.mpr lt), walk_of_holds holds lt]
  cases backed : space.dirs (vpn va / 1024) with
  | none =>
    rw [holds.unmapped backed]
    rfl
  | some dir =>
    simp only [ok_bind, map_some]
    rw [loadPte_leaf holds (vpn_lt va) backed]
    cases here : space.leaves (vpn va) with
    | none => rfl
    | some leaf =>
      obtain ⟨-, -, ok⟩ := holds.backed _ leaf here
      rw [if_neg ok.entry_valid, Leaf.Ok.entry_user, ok.entry_page]
      dsimp only
      by_cases access : leaf.flags &&& PTE_U = 0
      · rw [if_pos access, if_pos access]
        rfl
      · rw [if_neg access, if_neg access]
        rfl

/-! ## Reading -/

section

variable (srcva : BitVec 32) (dst : List (BitVec 8)) (holds : space.Holds ram.mem)

include srcva dst holds

theorem copyinFrom_total {fuel len : Nat} (enough : len ≤ fuel) :
    ∃ bytes, copyinFrom ram space.root fuel srcva len dst = .ok bytes := by
  induction fuel generalizing srcva len dst with
  | zero =>
    obtain rfl : len = 0 := Nat.le_zero.mp enough
    exact ⟨_, rfl⟩
  | succ fuel ih =>
    rw [copyinFrom]
    by_cases finished : len = 0
    · rw [if_pos finished]
      exact ⟨_, rfl⟩
    rw [if_neg finished]
    dsimp only
    rw [walkaddr_spec holds (pgRoundDown_isAligned srcva)]
    simp only [ok_bind]
    generalize (space.userPage (vpn (pgRoundDown srcva))).getD 0 = page
    by_cases absent : page = 0
    · rw [if_pos absent]
      exact ⟨_, rfl⟩
    · rw [if_neg absent]
      have offset := offset_lt srcva
      exact ih _ _ (by unfold PGSIZE; omega)

theorem copyinstrFrom_total {fuel max : Nat} (enough : max ≤ fuel) :
    ∃ result, copyinstrFrom ram space.root fuel srcva max dst = .ok result := by
  induction fuel generalizing srcva max dst with
  | zero =>
    obtain rfl : max = 0 := Nat.le_zero.mp enough
    exact ⟨_, rfl⟩
  | succ fuel ih =>
    rw [copyinstrFrom]
    by_cases finished : max = 0
    · rw [if_pos finished]
      exact ⟨_, rfl⟩
    rw [if_neg finished]
    dsimp only
    rw [walkaddr_spec holds (pgRoundDown_isAligned srcva)]
    simp only [ok_bind]
    generalize (space.userPage (vpn (pgRoundDown srcva))).getD 0 = page
    by_cases absent : page = 0
    · rw [if_pos absent]
      exact ⟨_, rfl⟩
    rw [if_neg absent]
    split
    · exact ⟨_, rfl⟩
    · have offset := offset_lt srcva
      exact ih _ _ (by unfold PGSIZE; omega)

end

/-! ## The hardware -/

theorem leafPte_spec {v : Nat} (holds : space.Holds ram.mem) (lt : v < 2 ^ 20) :
    ram.leafPte space.root v = (space.leaves v).map fun leaf => leafEntry (some leaf) := by
  unfold leafPte
  have top : ram.loadPte ⟨space.root, v / 1024⟩ = dirEntry (space.dirs (v / 1024)) :=
    holds.top (v / 1024) (by omega)
  rw [top]
  cases backed : space.dirs (v / 1024) with
  | none =>
    rw [holds.unmapped backed]
    rfl
  | some dir =>
    rw [if_neg ((dirEntry_valid (some dir)).mpr nofun), if_neg (not_not.mpr (dirEntry_pointer dir)),
      pte2pa_dirEntry (holds.aligned _ (by omega) dir backed), loadPte_leaf holds lt backed]
    cases here : space.leaves v with
    | none => rfl
    | some leaf =>
      obtain ⟨-, -, ok⟩ := holds.backed _ leaf here
      exact if_neg ok.entry_valid

/-! ## Writing -/

variable [Layout]

/-- Writing to a user page keeps the page table. -/
theorem memmove_user {page : BitVec 32} (offset : Nat) (bytes : List (BitVec 8))
    (balance : Balance ram free space.owned) (holds : space.Holds ram.mem)
    (mem : page ∈ space.users) :
    space.Holds (ram.memmove page offset bytes).mem ∧
      Moves ram free space.owned (ram.memmove page offset bytes) free
        space.owned := by
  refine ⟨holds.frame fun other table => setPage_mem_of_ne _ ?_,
    balance.setPage (mem_add.mpr (.inr mem)) _⟩
  rintro rfl
  exact disjoint_left.mp (nodup_add.mp balance.held_nodup).2.2 table mem

theorem copyoutFrom_spec {fuel : Nat} {dstva : BitVec 32} {src : List (BitVec 8)}
    (balance : Balance ram free space.owned) (holds : space.Holds ram.mem)
    (guarded : space.Guarded) (enough : src.length ≤ fuel) :
    ∃ done ram', copyoutFrom space.root fuel ram dstva src = .ok (done, ram') ∧
      space.Holds ram'.mem ∧
      Moves ram free space.owned ram' free space.owned := by
  induction fuel generalizing ram dstva src with
  | zero =>
    obtain rfl : src = [] := List.length_eq_zero_iff.mp (Nat.le_zero.mp enough)
    exact ⟨true, ram, rfl, holds, balance.refl⟩
  | succ fuel ih =>
    rw [copyoutFrom]
    by_cases empty : src = []
    · rw [if_pos empty]
      exact ⟨true, ram, rfl, holds, balance.refl⟩
    rw [if_neg empty]
    dsimp only
    rw [walkaddr_spec holds (pgRoundDown_isAligned dstva)]
    simp only [ok_bind]
    cases user : space.userPage (vpn (pgRoundDown dstva)) with
    | none => exact ⟨false, ram, rfl, holds, balance.refl⟩
    | some page =>
      obtain ⟨-, mem⟩ := guarded.userPage_mem user
      have held : page ∈ space.owned := mem_add.mpr (.inr mem)
      have offset := offset_lt dstva
      have some : 0 < src.length := List.length_pos_iff.mpr empty
      rw [getD_some, if_neg (balance.held_managed held).ne_zero]
      generalize (dstva - pgRoundDown dstva).toNat = k at offset ⊢
      obtain ⟨kept, moves⟩ :=
        memmove_user k _ balance holds mem
      obtain ⟨done, ram', ran, holds', moves'⟩ := @ih _ (pgRoundDown dstva + 4096)
        (src.drop (min (PGSIZE - k) src.length)) (balance.moves moves) kept (by
          rw [List.length_drop]
          unfold PGSIZE
          omega)
      exact ⟨done, ram', ran, holds', moves.trans moves'⟩

theorem copyout_spec (dstva : BitVec 32) (src : List (BitVec 8))
    (balance : Balance ram free space.owned) (holds : space.Holds ram.mem)
    (guarded : space.Guarded) :
    ∃ done ram', ram.copyout space.root dstva src = .ok (done, ram') ∧ space.Holds ram'.mem ∧
      Moves ram free space.owned ram' free space.owned :=
  copyoutFrom_spec balance holds guarded (le_refl _)

theorem userStore_spec (va : BitVec 32) (byte : BitVec 8)
    (balance : Balance ram free space.owned) (holds : space.Holds ram.mem)
    (guarded : space.Guarded) :
    space.Holds (ram.userStore space.root va byte).mem ∧
      Moves ram free space.owned (ram.userStore space.root va byte) free
        space.owned := by
  have bound := va.isLt
  unfold userStore
  rw [leafPte_spec holds (show va.toNat / PGSIZE < 2 ^ 20 by unfold PGSIZE; omega)]
  cases here : space.leaves (va.toNat / PGSIZE) with
  | none => exact ⟨holds, balance.refl⟩
  | some leaf =>
    obtain ⟨-, -, ok⟩ := holds.backed _ leaf here
    simp only [map_some, Leaf.Ok.entry_user, ok.entry_page]
    by_cases access : leaf.flags &&& PTE_U ≠ 0 ∧ leafEntry (some leaf) &&& PTE_W ≠ 0
    · rw [if_pos access]
      refine memmove_user _ _ balance holds (guarded.userPage_mem (v := va.toNat / PGSIZE) ?_).2
      unfold Space.userPage
      rw [here]
      exact if_neg access.1
    · rw [if_neg access]
      exact ⟨holds, balance.refl⟩

end Ram

end Xv6Rv32im.Vm
