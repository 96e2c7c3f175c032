import Mathlib.Order.Interval.Finset.Nat
import Xv6Rv32im.Vm.PageTable

/-!
# User memory

What the `uvm` functions do to an address space.  A process cannot map more pages
than there are, so that sizes stay far below the end of the address space and no
address computed on the way wraps.
-/

namespace Xv6Rv32im.Vm

open Library.ByteWords Library.Shares Library.Run Space

/-! ## The number of pages -/

def MAXPAGES : Nat := 32768

theorem Ram.Balance.card_le [Layout] {ram : Ram} {free : List (BitVec 32)}
    {held : Multiset (BitVec 32)} (balance : ram.Balance free held) :
    Multiset.card held ≤ MAXPAGES := by
  have range page (member : page ∈ held) :
      page.toNat % 4096 = 0 ∧ 0x80000000 ≤ page.toNat ∧ page.toNat < 0x88000000 := by
    obtain ⟨aligned, above, below⟩ := balance.held_managed member
    have base := Layout.kernelEnd_above
    unfold KERNBASE at base
    unfold PHYSTOP KERNBASE at below
    refine ⟨aligned, ?_, ?_⟩
    · bv_omega
    · bv_omega
  have lt : ∀ page ∈ (⟨held, balance.held_nodup⟩ : Finset (BitVec 32)),
      page.toNat / 4096 ∈ Finset.Ico 0x80000 0x88000 := by
    intro page member
    have bounds := range page member
    rw [Finset.mem_Ico]
    omega
  refine (Finset.card_le_card_of_injOn (fun page : BitVec 32 => page.toNat / 4096)
    (fun page member => lt page member) ?_).trans_eq ?_
  · intro page member other member' same
    have bounds := range page member
    have bounds' := range other member'
    have same : page.toNat / 4096 = other.toNat / 4096 := same
    exact BitVec.eq_of_toNat_eq (by omega)
  · rw [Nat.card_Ico]
    rfl

def Space.Mapped (space : Space) (n : Nat) : Prop :=
  n ≤ USERTOP ∧ ∀ v < USERTOP, (space.leaves v ≠ none ↔ v < n)

theorem Space.Mapped.le_maxpages [Layout] {ram : Ram} {space : Space} {free : List (BitVec 32)}
    {n : Nat} (mapped : space.Mapped n) (balance : ram.Balance free space.owned) :
    n ≤ MAXPAGES := by
  have count : n ≤ Multiset.card space.users :=
    le_card_shares mapped.1 fun v small => by
      obtain ⟨leaf, here⟩ := Option.ne_none_iff_exists'.mp
        ((mapped.2 v (small.trans_le mapped.1)).mpr small)
      rw [here]
      nofun
  have all := balance.card_le
  rw [Multiset.card_add] at all
  omega

/-! ## Sizes in pages -/

variable {sz : BitVec 32}

theorem pgRoundUp_aligned (small : sz.toNat + 4095 < 2 ^ 32) : Aligned (pgRoundUp sz) := by
  unfold Aligned
  rw [pgRoundUp_toNat small]
  omega

theorem vpn_pgRoundUp (small : sz.toNat + 4095 < 2 ^ 32) : vpn (pgRoundUp sz) = pages sz := by
  unfold vpn
  rw [pgRoundUp_toNat small]
  omega

theorem small_of_pages (few : pages sz ≤ MAXPAGES) : sz.toNat + 4095 < 2 ^ 32 := by
  unfold pages MAXPAGES at few
  omega

theorem pages_mono {sz sz' : BitVec 32} (le : sz ≤ sz') : pages sz ≤ pages sz' := by
  have le : sz.toNat ≤ sz'.toNat := le
  unfold pages
  omega

theorem pages_mul {a : BitVec 32} {m : Nat} (address : a.toNat = 4096 * m) : pages a = m := by
  unfold pages
  omega

theorem Space.Mapped.unmap {space : Space} {n m : Nat} (mapped : space.Mapped n) (fewer : m ≤ n) :
    (space.unmap m (n - m)).Mapped m := by
  refine ⟨fewer.trans mapped.1, fun v lt => ?_⟩
  change (if m ≤ v ∧ v < m + (n - m) then none else space.leaves v) ≠ none ↔ v < m
  by_cases gone : m ≤ v ∧ v < m + (n - m)
  · rw [if_pos gone]
    exact ⟨fun absent => absurd rfl absent, fun below => by omega⟩
  · rw [if_neg gone, mapped.2 v lt]
    omega

namespace Ram

variable {ram : Ram} {space : Space} {free : List (BitVec 32)} [Layout] {oldsz newsz : BitVec 32}

theorem uvmdealloc_spec (balance : Balance ram free space.owned)
    (holds : space.Holds ram.mem) (few : pages oldsz ≤ MAXPAGES)
    (mapped : ∀ v, pages newsz ≤ v → v < pages oldsz → space.leaves v ≠ none) :
    ∃ ram' free', ram.uvmdealloc space.root oldsz newsz =
        .ok (if newsz ≥ oldsz then oldsz else newsz, ram') ∧
      (space.unmap (pages newsz) (pages oldsz - pages newsz)).Holds ram'.mem ∧
      Moves ram free space.owned ram' free'
        (space.tables + (space.unmap (pages newsz) (pages oldsz - pages newsz)).users) := by
  unfold uvmdealloc
  by_cases grows : newsz ≥ oldsz
  · rw [if_pos grows, if_pos grows, Nat.sub_eq_zero_of_le (pages_mono grows), unmap_zero]
    exact ⟨ram, free, rfl, holds, balance.refl⟩
  rw [if_neg grows, if_neg grows]
  have less : pages newsz ≤ pages oldsz := pages_mono (BitVec.le_of_lt (BitVec.not_le.mp grows))
  have small := small_of_pages few
  have small' := small_of_pages (less.trans few)
  have rounded := pgRoundUp_toNat small
  have rounded' := pgRoundUp_toNat small'
  by_cases fewer : pgRoundUp newsz < pgRoundUp oldsz
  · rw [if_pos fewer]
    have count : ((pgRoundUp oldsz - pgRoundUp newsz) / 4096).toNat =
        pages oldsz - pages newsz := by
      rw [BitVec.toNat_udiv, BitVec.toNat_sub_of_le (BitVec.le_of_lt fewer), rounded, rounded',
        ← Nat.sub_mul]
      exact Nat.mul_div_cancel _ (by decide)
    have user : pages newsz + (pages oldsz - pages newsz) ≤ USERTOP := by
      unfold MAXPAGES at few
      unfold USERTOP
      omega
    have unmapped := @uvmunmap_free _ _ (pgRoundUp newsz) _ _
      ((pgRoundUp oldsz - pgRoundUp newsz) / 4096) balance holds (pgRoundUp_aligned small')
    rw [vpn_pgRoundUp small', count] at unmapped
    obtain ⟨ram', free', ran, kept, moves⟩ :=
      unmapped user fun k lt => mapped _ (by omega) (by omega)
    dsimp only
    rw [ran]
    exact ⟨ram', free', rfl, kept, moves⟩
  · have equal : pages oldsz - pages newsz = 0 := by
      have le : (pgRoundUp oldsz).toNat ≤ (pgRoundUp newsz).toNat := BitVec.not_lt.mp fewer
      rw [rounded, rounded'] at le
      omega
    rw [if_neg fewer, equal, unmap_zero]
    exact ⟨ram, free, rfl, holds, balance.refl⟩

/-- `mappages` of a page that is held fails without an effect, or the page becomes a
user page of the space. -/
theorem mappages_user {va page perm : BitVec 32} (balance : Balance ram free (page ::ₘ space.owned))
    (holds : space.Holds ram.mem) (aligned : Aligned va) (user : vpn va < USERTOP)
    (unmapped : space.leaves (vpn va) = none) (ok : (Leaf.mk page (perm ||| PTE_V)).Ok) :
    (∃ ram', ram.mappages space.root va 4096 page perm = .ok (false, ram') ∧
      space.Holds ram'.mem ∧ Moves ram free (page ::ₘ space.owned) ram' free
        (page ::ₘ space.owned)) ∨
    ∃ (space' : Space) (ram' : Ram) (free' : List (BitVec 32)),
      ram.mappages space.root va 4096 page perm = .ok (true, ram') ∧
      space'.root = space.root ∧
      space'.leaves = (space.setLeaf (vpn va) (some ⟨page, perm ||| PTE_V⟩)).leaves ∧
      space'.Holds ram'.mem ∧
      Moves ram free (page ::ₘ space.owned) ram' free' space'.owned ∧
      free' ⊆ free ∧ ∀ other ∈ page ::ₘ space.users, ram'.mem other = ram.mem other := by
  have regroup : page ::ₘ space.owned = space.tables + (page ::ₘ space.users) := by
    rw [Multiset.add_cons]
  rw [regroup] at balance ⊢
  obtain ⟨ram', failed, kept, moves⟩ |
      ⟨space', ram', free', done, root, leaves, kept, moves, fewer⟩ :=
    mappages_page balance.part holds aligned unmapped ok
  · exact .inl ⟨ram', failed, kept, moves.extend _⟩
  refine .inr ⟨space', ram', free', done, root, leaves, kept, ?_, fewer,
    fun other member => moves.rest_same balance member⟩
  have users : space'.users = page ::ₘ space.users := by
    have added := space.users_setLeaf user (some ⟨page, perm ||| PTE_V⟩)
    rw [unmapped, Option.map_none, held_none, add_zero, Option.map_some, held_some, add_comm,
      Multiset.singleton_add] at added
    rw [← added]
    exact users_congr leaves
  rw [owned, users]
  exact moves.extend _

end Ram

/-! ## Growing -/

/-- The space has the leaves of `base`, and good leaves from `n` up to `m`. -/
structure Space.Grown (base : Space) (good : Nat → Leaf → Prop) (space : Space) (n m : Nat) :
    Prop where
  root : space.root = base.root
  kept : ∀ v, ¬(n ≤ v ∧ v < m) → space.leaves v = base.leaves v
  fresh : ∀ v, n ≤ v → v < m → ∃ leaf, space.leaves v = some leaf ∧ good v leaf

section

variable {base space space' : Space} {good : Nat → Leaf → Prop} {n m : Nat}

theorem Space.Grown.refl (space : Space) (good : Nat → Leaf → Prop) (n : Nat) :
    space.Grown good space n n :=
  ⟨rfl, fun _ _ => rfl, fun v above below => absurd above (by omega)⟩

theorem Space.Grown.leaves_eq (grown : base.Grown good space n n) : space.leaves = base.leaves :=
  funext fun v => grown.kept v (by omega)

section

variable (grown : base.Grown good space n m)

include grown

theorem Space.Grown.mapped (mapped : base.Mapped n) (le : n ≤ m) (user : m ≤ USERTOP) :
    space.Mapped m := by
  refine ⟨user, fun v lt => ?_⟩
  by_cases new : n ≤ v ∧ v < m
  · obtain ⟨leaf, here, -⟩ := grown.fresh v new.1 new.2
    rw [here]
    exact ⟨fun _ => new.2, fun _ => nofun⟩
  · rw [grown.kept v new, mapped.2 v lt]
    omega

theorem Space.Grown.unmap (mapped : base.Mapped n) (user : m ≤ USERTOP) :
    base.Grown good (space.unmap n (m - n)) n n where
  root := grown.root
  kept := by
    intro v _
    change (if n ≤ v ∧ v < n + (m - n) then none else space.leaves v) = base.leaves v
    by_cases gone : n ≤ v ∧ v < n + (m - n)
    · rw [if_pos gone]
      by_contra ne
      exact absurd ((mapped.2 v (by omega)).mp (Ne.symm ne)) (by omega)
    · rw [if_neg gone, grown.kept v (by omega)]
  fresh := fun v above below => absurd above (by omega)

theorem Space.Grown.step {leaf : Leaf} (le : n ≤ m) (fine : good m leaf)
    (root : space'.root = space.root)
    (leaves : space'.leaves = (space.setLeaf m (some leaf)).leaves) :
    base.Grown good space' n (m + 1) where
  root := root.trans grown.root
  kept := by
    intro v outside
    rw [leaves, setLeaf_leaves_of_ne _ (by omega), grown.kept v (by omega)]
  fresh := by
    intro v above below
    by_cases same : v = m
    · subst same
      rw [leaves, setLeaf_leaves_self]
      exact ⟨leaf, rfl, fine⟩
    · rw [leaves, setLeaf_leaves_of_ne _ same]
      exact grown.fresh v above (by omega)

theorem Space.Grown.imp {good' : Nat → Leaf → Prop}
    (weaker : ∀ v, n ≤ v → v < m → ∀ leaf, space.leaves v = some leaf → good v leaf →
      good' v leaf) : base.Grown good' space n m where
  root := grown.root
  kept := grown.kept
  fresh := by
    intro v above below
    obtain ⟨leaf, here, fine⟩ := grown.fresh v above below
    exact ⟨leaf, here, weaker v above below leaf here fine⟩

end

theorem Space.page_mem_users {leaf : Leaf} (lt : n < USERTOP)
    (here : space.leaves n = some leaf) : leaf.page ∈ space.users :=
  mem_shares.mpr ⟨n, lt, by rw [here]; exact mem_held.mpr rfl⟩

end

/-- The leaves that `uvmalloc` makes: for all uses by the user, with a zeroed page of
the pool. -/
structure ZeroLeaf (pool : List (BitVec 32)) (mem : BitVec 32 → Bytes) (_ : Nat) (leaf : Leaf) :
    Prop where
  flags : leaf.flags = PTE_W ||| PTE_X ||| PTE_R ||| PTE_U ||| PTE_V
  fresh : leaf.page ∈ pool
  zero : mem leaf.page = fun _ => 0

def userLeaf (_ : Nat) (leaf : Leaf) : Prop :=
  leaf.flags &&& PTE_U ≠ 0

/-- What `uvmalloc` maps is for the user. -/
theorem Space.Grown.forUser {base space : Space} {n m : Nat} {pool : List (BitVec 32)}
    {mem : BitVec 32 → Bytes} (grown : base.Grown (ZeroLeaf pool mem) space n m) :
    base.Grown userLeaf space n m := by
  refine grown.imp fun v _ _ leaf _ fine => ?_
  unfold userLeaf
  rw [fine.flags]
  decide

namespace Ram

variable {ram : Ram} {base space : Space} {good : Nat → Leaf → Prop} {free : List (BitVec 32)}
  {n m : Nat} [Layout]

/-- `uvmalloc` gives back what it allocated when memory runs out. -/
theorem uvmalloc_undo {oldsz a : BitVec 32}
    (balance : Balance ram free space.owned) (holds : space.Holds ram.mem)
    (mapped : base.Mapped n) (grown : base.Grown good space n m) (le : n ≤ m)
    (start : oldsz.toNat = 4096 * n) (address : a.toNat = 4096 * m) (few : m ≤ MAXPAGES) :
    ∃ size space' ram' free',
      ram.uvmdealloc base.root a oldsz = .ok (size, ram') ∧ base.Grown good space' n n ∧
      space'.Holds ram'.mem ∧
      Moves ram free space.owned ram' free' space'.owned := by
  have top : m ≤ USERTOP := few.trans (by decide)
  have there := grown.mapped mapped le top
  obtain ⟨ram', free', ran, kept, moves⟩ := @uvmdealloc_spec _ _ _ _ a oldsz balance holds
    (by rwa [pages_mul address]) fun v _ below =>
      (there.2 v (by rw [pages_mul address] at below; omega)).mpr
        (by rwa [pages_mul address] at below)
  rw [pages_mul address, pages_mul start] at kept moves
  exact ⟨_, _, ram', free', grown.root ▸ ran, grown.unmap mapped top, kept, moves⟩

/-- The loop of `uvmalloc`: it runs to the new size, or memory runs out and the space
is as before. -/
theorem uvmallocFrom_spec {oldsz newsz a : BitVec 32} {fuel : Nat} {pool : List (BitVec 32)}
    (balance : Balance ram free space.owned) (holds : space.Holds ram.mem)
    (mapped : base.Mapped n) (grown : base.Grown (ZeroLeaf pool ram.mem) space n m)
    (supply : free ⊆ pool) (le : n ≤ m) (below : m ≤ pages newsz) (start : oldsz.toNat = 4096 * n)
    (address : a.toNat = 4096 * m) (user : m ≤ USERTOP) (enough : 2 ^ 20 ≤ fuel + m) :
    ∃ (size : BitVec 32) (space' : Space) (ram' : Ram) (free' : List (BitVec 32)),
      uvmallocFrom base.root oldsz newsz fuel ram a = .ok (size, ram') ∧
      (size = newsz ∧ pages newsz ≤ USERTOP ∧
          base.Grown (ZeroLeaf pool ram'.mem) space' n (pages newsz) ∨
        size = 0 ∧ base.Grown (ZeroLeaf pool ram'.mem) space' n n) ∧
      space'.Holds ram'.mem ∧
      Moves ram free space.owned ram' free' space'.owned := by
  induction fuel generalizing ram free space m a with
  | zero =>
    unfold USERTOP at user
    omega
  | succ fuel ih =>
    have few := (grown.mapped mapped le user).le_maxpages balance
    have number : vpn a = m := by
      unfold vpn
      omega
    have aligned : Aligned a := by
      unfold Aligned
      omega
    rw [uvmallocFrom]
    by_cases more : a < newsz
    · rw [if_pos more]
      have more : a.toNat < newsz.toNat := more
      obtain ⟨ram₁, denied, same, moves₁⟩ |
          ⟨page, rest, ram₁, rfl, given, managed, fresh, others₁, moves₁⟩ := balance.kalloc_fill
      · rw [denied]
        obtain ⟨_, space', ram', free', ran, kept, holds', moves'⟩ := uvmalloc_undo
          (balance.moves moves₁) (same ▸ holds) mapped grown le start address few
        dsimp only
        rw [ran]
        exact ⟨0, space', ram', free', rfl, .inr ⟨rfl, kept.imp fun v above below => by omega⟩,
          holds', moves₁.trans moves'⟩
      · rw [given]
        replace moves₁ := moves₁ fun _ => 0
        have after := balance.moves moves₁
        have holds₁ : space.Holds (ram₁.memset page 0).mem := by
          refine holds.frame fun other table => ?_
          have ne : other ≠ page := fun same =>
            fresh (same ▸ Multiset.mem_add.mpr (.inl table))
          rw [setPage_mem_of_ne _ ne, others₁ other ne]
        have unmapped : space.leaves (vpn a) = none := by
          rw [number]
          by_contra there
          exact absurd (((grown.mapped mapped le user).2 m (by
            unfold MAXPAGES at few; unfold USERTOP; omega)).mp there) (by omega)
        have ok : (Leaf.mk page ((PTE_W ||| PTE_X ||| PTE_R ||| PTE_U) ||| PTE_V)).Ok :=
          Leaf.ok_of managed.1 (by decide) (by decide) (by decide)
        obtain ⟨ram₂, failed, holds₂, moves₂⟩ |
            ⟨space₂, ram₂, free₂, done, root, leaves, holds₂, moves₂, fewer, same₂⟩ :=
          mappages_user after holds₁ aligned (by
            rw [number]; unfold MAXPAGES at few; unfold USERTOP; omega) unmapped ok
        · obtain ⟨ram₃, freed, others, moves₃⟩ := (after.moves moves₂).kfree
          have holds₃ : space.Holds ram₃.mem := holds₂.frame fun other table =>
            others other fun same => fresh (same ▸ Multiset.mem_add.mpr (.inl table))
          obtain ⟨_, space', ram', free', ran, kept, holds', moves'⟩ := uvmalloc_undo
            ((after.moves moves₂).moves moves₃) holds₃ mapped grown le start address few
          dsimp only
          rw [← grown.root, failed]
          dsimp only [bind, Except.bind]
          rw [if_neg Bool.false_ne_true, freed]
          dsimp only
          rw [grown.root, ran]
          exact ⟨0, space', ram', free', rfl, .inr ⟨rfl, kept.imp fun v above below => by omega⟩,
            holds', moves₁.trans (moves₂.trans (moves₃.trans moves'))⟩
        · have zero₂ : ram₂.mem page = fun _ => 0 :=
            (same₂ page (Multiset.mem_cons_self ..)).trans (setPage_mem_self ..)
          have fine : ZeroLeaf pool ram₂.mem m
              ⟨page, (PTE_W ||| PTE_X ||| PTE_R ||| PTE_U) ||| PTE_V⟩ :=
            ⟨rfl, supply (List.mem_cons_self ..), zero₂⟩
          -- The pages mapped before stay zero.
          have still : base.Grown (ZeroLeaf pool ram₂.mem) space n m := by
            refine grown.imp fun v _ below' leaf here old => ⟨old.flags, old.fresh, ?_⟩
            have user' : leaf.page ∈ space.users :=
              page_mem_users (by unfold MAXPAGES at few; unfold USERTOP; omega) here
            have ne : leaf.page ≠ page := fun same =>
              fresh (same ▸ Multiset.mem_add.mpr (.inr user'))
            rw [same₂ _ (Multiset.mem_cons_of_mem user'), setPage_mem_of_ne _ ne, others₁ _ ne]
            exact old.zero
          have grown' := still.step le fine root (number ▸ leaves)
          have address' : (a + 4096).toNat = 4096 * (m + 1) := by
            unfold MAXPAGES at few
            bv_omega
          obtain ⟨size, space', ram', free', ran, result, holds', moves'⟩ := ih
            ((after.moves moves₂)) holds₂ grown'
            (List.Subset.trans fewer (List.Subset.trans (List.subset_cons_self ..) supply))
            (by omega)
            (by unfold pages; omega) address'
            (by unfold MAXPAGES at few; unfold USERTOP; omega) (by omega)
          dsimp only
          rw [← grown.root, done]
          dsimp only [bind, Except.bind]
          rw [if_pos rfl, grown.root, ran]
          exact ⟨size, space', ram', free', rfl, result, holds', moves₁.trans (moves₂.trans moves')⟩
    · have finished : m = pages newsz := by
        have reached : newsz.toNat ≤ a.toNat := BitVec.not_lt.mp more
        unfold pages at below ⊢
        omega
      rw [if_neg more]
      exact ⟨newsz, space, ram, free, rfl, .inl ⟨rfl, finished ▸ user, finished ▸ grown⟩, holds,
        balance.refl⟩

/-- The size that `uvmalloc` returns if memory does not run out. -/
def allocSize (oldsz newsz : BitVec 32) : BitVec 32 :=
  if newsz < oldsz then oldsz else newsz

omit [Layout] in
theorem le_allocSize (oldsz newsz : BitVec 32) :
    oldsz ≤ allocSize oldsz newsz ∧ newsz ≤ allocSize oldsz newsz := by
  unfold allocSize
  by_cases less : newsz < oldsz
  · rw [if_pos less]
    exact ⟨BitVec.le_refl _, BitVec.le_of_lt less⟩
  · rw [if_neg less]
    exact ⟨BitVec.not_lt.mp less, BitVec.le_refl _⟩

/-- `uvmalloc` of more than the old size grows the space by zeroed pages or, when
memory runs out, returns 0 with the leaves as before. -/
theorem uvmalloc_zeroes (balance : Balance ram free space.owned)
    (holds : space.Holds ram.mem) (mapped : space.Mapped (pages oldsz)) :
    ∃ size space' ram' free',
      ram.uvmalloc space.root oldsz newsz = .ok (size, ram') ∧
      (size = allocSize oldsz newsz ∧ pages size ≤ USERTOP ∧
          space.Grown (ZeroLeaf free ram'.mem) space' (pages oldsz) (pages size) ∨
        size = 0 ∧ space.Grown (ZeroLeaf free ram'.mem) space' (pages oldsz) (pages oldsz)) ∧
      space'.Holds ram'.mem ∧
      Moves ram free space.owned ram' free' space'.owned := by
  have start := pgRoundUp_toNat (small_of_pages (mapped.le_maxpages balance))
  rw [mul_comm] at start
  unfold uvmalloc allocSize
  by_cases less : newsz < oldsz
  · rw [if_pos less, if_pos less]
    exact ⟨oldsz, space, ram, free, rfl, .inl ⟨rfl, mapped.1, .refl ..⟩, holds, balance.refl⟩
  rw [if_neg less, if_neg less]
  obtain ⟨size, space', ram', free', ran, result, holds', moves⟩ := @uvmallocFrom_spec _ _ _ _
    _ _ _ _ newsz _ (2 ^ 20) free balance holds mapped (.refl ..) (List.Subset.refl _) (le_refl _)
    (pages_mono (BitVec.not_lt.mp less)) start start mapped.1 (by omega)
  refine ⟨size, space', ram', free', ran, ?_, holds', moves⟩
  obtain ⟨rfl, top, grown⟩ | failed := result
  · exact .inl ⟨rfl, top, grown⟩
  · exact .inr failed

/-! ## Freeing -/

/-- `uvmfree` frees all pages of a space without leaves above user memory. -/
theorem uvmfree_spec (balance : Balance ram free space.owned)
    (holds : space.Holds ram.mem) (mapped : space.Mapped (pages sz))
    (upper : ∀ v, USERTOP ≤ v → space.leaves v = none) :
    ∃ ram' free', ram.uvmfree space.root sz = .ok ram' ∧
      Moves ram free space.owned ram' free' 0 := by
  have small := small_of_pages (mapped.le_maxpages balance)
  have count : (pgRoundUp sz / 4096).toNat = pages sz := by
    rw [BitVec.toNat_udiv, pgRoundUp_toNat small]
    exact Nat.mul_div_cancel _ (by decide)
  -- The leaves go first, also when there is none.
  obtain ⟨ram₁, free₁, ran, holds₁, moves₁⟩ : ∃ ram₁ free₁,
      (if sz > 0 then ram.uvmunmap space.root 0 (pgRoundUp sz / 4096) true else .ok ram) =
        .ok ram₁ ∧ (space.unmap 0 (pages sz)).Holds ram₁.mem ∧
      Moves ram free space.owned ram₁ free₁ (space.tables + (space.unmap 0 (pages sz)).users) := by
    by_cases some : sz > 0
    · have unmapped := @uvmunmap_free _ _ 0 _ _ (pgRoundUp sz / 4096) balance holds (by decide)
      rw [count, show vpn 0 = 0 from rfl, zero_add] at unmapped
      rw [if_pos some]
      exact unmapped mapped.1 fun k lt =>
        (mapped.2 _ (by have := mapped.1; omega)).mpr (by omega)
    have none : pages sz = 0 := by
      have zero : sz = 0 := by bv_omega
      rw [zero]
      rfl
    rw [if_neg some, none, unmap_zero]
    exact ⟨ram, free, rfl, holds, balance.refl⟩
  have bare v : (space.unmap 0 (pages sz)).leaves v = none := by
    change (if 0 ≤ v ∧ v < 0 + pages sz then none else space.leaves v) = none
    by_cases gone : 0 ≤ v ∧ v < 0 + pages sz
    · rw [if_pos gone]
    rw [if_neg gone]
    by_cases user : v < USERTOP
    · by_contra there
      exact absurd ((mapped.2 v user).mp there) (by omega)
    · exact upper v (Nat.le_of_not_lt user)
  have users : (space.unmap 0 (pages sz)).users = 0 := by
    refine shares_eq_zero fun v _ => ?_
    rw [bare]
    rfl
  rw [users, add_zero] at moves₁
  obtain ⟨ram₂, free₂, ran₂, moves₂⟩ :=
    @freewalk_frees _ _ (space.unmap 0 (pages sz)) _ (balance.moves moves₁) holds₁ bare
  refine ⟨ram₂, free₂, ?_, moves₁.trans moves₂⟩
  unfold uvmfree
  by_cases some : sz > 0
  · rw [if_pos some] at ran
    simp only [if_pos some, ran, ok_bind]
    exact ran₂
  · rw [if_neg some] at ran
    simp only [if_neg some, ran, ok_bind]
    exact ran₂

end Ram

/-! ## Creating -/

def Space.empty (root : BitVec 32) : Space :=
  ⟨root, fun _ => none, fun _ => none⟩

theorem Space.tables_empty (root : BitVec 32) : (empty root).tables = {root} := by
  have none : shares (fun i => held ((empty root).dirs i)) 1024 = 0 :=
    shares_eq_zero fun _ _ => rfl
  unfold tables
  rw [none]
  rfl

theorem Space.users_empty (root : BitVec 32) : (empty root).users = 0 :=
  shares_eq_zero fun _ _ => rfl

theorem Space.mapped_empty (root : BitVec 32) : (empty root).Mapped 0 :=
  ⟨Nat.zero_le _, fun _ _ => ⟨fun absent => absurd rfl absent, nofun⟩⟩

theorem Space.holds_empty {root : BitVec 32} {mem : BitVec 32 → Bytes}
    (zero : mem root = fun _ => 0) : (empty root).Holds mem where
  top := fun i _ => by
    change load32 (mem root) _ = 0
    rw [zero, load32_zero]
  bottom := nofun
  aligned := nofun
  backed := nofun

namespace Ram

variable {ram : Ram} {free : List (BitVec 32)} {held : Multiset (BitVec 32)} [Layout]

theorem uvmcreate_spec (balance : Balance ram free held) :
    (∃ ram', ram.uvmcreate = (none, ram') ∧ Moves ram free held ram' free held) ∨
    ∃ root ram' free', ram.uvmcreate = (some root, ram') ∧ (empty root).Holds ram'.mem ∧
      Moves ram free held ram' free' (root ::ₘ held) := by
  unfold uvmcreate
  obtain ⟨ram', denied, -, moves⟩ | ⟨root, rest, ram', rfl, given, -, -, -, moves⟩ :=
    balance.kalloc_fill
  · rw [denied]
    exact .inl ⟨ram', rfl, moves⟩
  rw [given]
  exact .inr ⟨root, _, rest, rfl, holds_empty (setPage_mem_self ..), moves fun _ => 0⟩

end Ram

end Xv6Rv32im.Vm
