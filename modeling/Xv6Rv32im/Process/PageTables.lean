import Xv6Rv32im.Process.Model
import Xv6Rv32im.Vm.CopyMemory

/-!
# The page tables of processes

The address space of a process: user pages from 0 on, the trapframe and the
trampoline.  `proc_pagetable` makes one without user pages or leaves memory as it
was, and `proc_freepagetable` gives all of its pages back.
-/

namespace Xv6Rv32im.Vm

open Library.ByteWords Library.Shares Library.Run

theorem vpn_TRAPFRAME : vpn TRAPFRAME = USERTOP := by
  decide

theorem vpn_TRAMPOLINE : vpn TRAMPOLINE = USERTOP + 1 := by
  decide

variable [Layout]

def trapframeLeaf (trapframe : BitVec 32) : Leaf :=
  ⟨trapframe, (PTE_R ||| PTE_W) ||| PTE_V⟩

def trampolineLeaf : Leaf :=
  ⟨Layout.trampoline, (PTE_R ||| PTE_X) ||| PTE_V⟩

theorem trampolineLeaf_ok : trampolineLeaf.Ok :=
  Leaf.ok_of Layout.trampoline_aligned (by decide) (by decide) (by decide)

/-- Memory holds the address space of a process with `n` user pages. -/
structure Space.Image (space : Space) (trapframe : BitVec 32) (n : Nat)
    (mem : BitVec 32 → Bytes) : Prop where
  holds : space.Holds mem
  mapped : space.Mapped n
  trapframe : space.leaves USERTOP = some (trapframeLeaf trapframe)
  trampoline : space.leaves (USERTOP + 1) = some trampolineLeaf

namespace Space.Image

variable {space : Space} {trapframe : BitVec 32} {n : Nat} {mem mem' : BitVec 32 → Bytes}

section

variable (image : space.Image trapframe n mem)

include image

theorem frame (same : ∀ page ∈ space.tables, mem' page = mem page) : space.Image trapframe n mem' :=
  { image with holds := image.holds.frame same }

theorem upper {v : Nat} (above : USERTOP ≤ v) {leaf : Leaf} (mapped : space.leaves v = some leaf) :
    v = USERTOP ∧ leaf = trapframeLeaf trapframe ∨ v = USERTOP + 1 ∧ leaf = trampolineLeaf := by
  have bound := (image.holds.backed v leaf mapped).1
  obtain rfl | rfl : v = USERTOP ∨ v = USERTOP + 1 := by
    unfold USERTOP at above ⊢
    omega
  · exact .inl ⟨rfl, Option.some.inj (mapped.symm.trans image.trapframe)⟩
  · exact .inr ⟨rfl, Option.some.inj (mapped.symm.trans image.trampoline)⟩

theorem guarded : space.Guarded := by
  intro v above leaf mapped
  obtain ⟨-, rfl⟩ | ⟨-, rfl⟩ := image.upper above mapped
  · exact (by decide : ((PTE_R ||| PTE_W) ||| PTE_V) &&& PTE_U = 0)
  · exact (by decide : ((PTE_R ||| PTE_X) ||| PTE_V) &&& PTE_U = 0)

theorem regrown {space' : Space} {good : Nat → Leaf → Prop} {m : Nat}
    (grown : space.Grown good space' n m) (le : n ≤ m) (user : m ≤ USERTOP)
    (holds : space'.Holds mem') : space'.Image trapframe m mem' where
  holds := holds
  mapped := grown.mapped image.mapped le user
  trapframe := by rw [grown.kept _ (by omega), image.trapframe]
  trampoline := by rw [grown.kept _ (by omega), image.trampoline]

theorem setLeaf {v : Nat} {leaf new : Leaf} (user : v < USERTOP) (here : space.leaves v = some leaf)
    (holds : (space.setLeaf v (some new)).Holds mem') :
    (space.setLeaf v (some new)).Image trapframe n mem' where
  holds := holds
  mapped := by
    refine ⟨image.mapped.1, fun w lt => ?_⟩
    rw [← image.mapped.2 w lt]
    by_cases same : w = v
    · subst same
      rw [Space.setLeaf_leaves_self, here]
      exact ⟨fun _ => nofun, fun _ => nofun⟩
    · rw [Space.setLeaf_leaves_of_ne _ same]
  trapframe := by rw [Space.setLeaf_leaves_of_ne _ (by omega), image.trapframe]
  trampoline := by rw [Space.setLeaf_leaves_of_ne _ (by omega), image.trampoline]

end

end Space.Image

omit [Layout] in
theorem Space.users_setFlags {space : Space} {v : Nat} {leaf : Leaf} (user : v < USERTOP)
    (here : space.leaves v = some leaf) (flags : BitVec 32) :
    (space.setLeaf v (some ⟨leaf.page, flags⟩)).users = space.users := by
  have changed := space.users_setLeaf user (some ⟨leaf.page, flags⟩)
  rw [here] at changed
  exact add_right_cancel changed

namespace Ram

variable {ram : Ram} {free : List (BitVec 32)} {trapframe : BitVec 32}

theorem uvmfree_zero {space : Space} (balance : Balance ram free space.owned)
    (holds : space.Holds ram.mem) (bare : ∀ v, space.leaves v = none) :
    ∃ ram' free', ram.uvmfree space.root 0 = .ok ram' ∧ Moves ram free space.owned ram' free' 0 :=
  uvmfree_spec balance holds
    ⟨Nat.zero_le _, fun v _ => ⟨fun there => absurd (bare v) there, nofun⟩⟩ fun v _ => bare v

theorem procPagetable_spec (balance : Balance ram free 0) (aligned : Aligned trapframe) :
    (∃ ram' free', ram.procPagetable trapframe = .ok (none, ram') ∧ Moves ram free 0 ram' free' 0) ∨
    ∃ (space : Space) (ram' : Ram) (free' : List (BitVec 32)),
      ram.procPagetable trapframe = .ok (some space.root, ram') ∧
      space.Image trapframe 0 ram'.mem ∧
      Moves ram free 0 ram' free' space.owned := by
  unfold procPagetable
  obtain ⟨ram₁, denied, moves₁⟩ | ⟨root, ram₁, free₁, created, holds₁, moves₁⟩ :=
    uvmcreate_spec balance
  · rw [denied]
    exact .inl ⟨ram₁, free, rfl, moves₁⟩
  rw [created]
  have empty : root ::ₘ 0 = (Space.empty root).tables := (Space.tables_empty root).symm
  rw [empty] at moves₁
  have balance₁ := balance.moves moves₁
  dsimp only
  obtain ⟨ram₂, failed, holds₂, moves₂⟩ |
      ⟨space₂, ram₂, free₂, done, root₂, leaves₂, holds₂, moves₂, -⟩ :=
    @mappages_page _ _ TRAMPOLINE _ _ Layout.trampoline _ balance₁
      holds₁ (by decide) rfl trampolineLeaf_ok
  · have balance₂ := balance₁.moves moves₂
    rw [← add_zero (Space.empty root).tables, ← Space.users_empty root] at balance₂
    obtain ⟨ram₃, free₃, freed, moves₃⟩ := uvmfree_zero balance₂ holds₂ fun _ => rfl
    rw [Space.owned, Space.users_empty, add_zero] at moves₃
    rw [show root = (Space.empty root).root from rfl, failed]
    simp only [ok_bind]
    rw [if_neg Bool.false_ne_true, freed]
    exact .inl ⟨ram₃, free₃, rfl, moves₁.trans (moves₂.trans moves₃)⟩
  have balance₂ := balance₁.moves moves₂
  have unmapped₂ v (other : v ≠ USERTOP + 1) : space₂.leaves v = none := by
    rw [leaves₂, vpn_TRAMPOLINE, Space.setLeaf_leaves_of_ne _ other]
    rfl
  have users₂ : space₂.users = 0 := shares_eq_zero fun v lt => by
    rw [unmapped₂ v (by omega)]
    rfl
  rw [show root = (Space.empty root).root from rfl, done]
  simp only [ok_bind, if_true]
  rw [← root₂]
  obtain ⟨ram₃, failed, holds₃, moves₃⟩ |
      ⟨space₃, ram₃, free₃, done', root₃, leaves₃, holds₃, moves₃, -⟩ :=
    @mappages_page _ space₂ TRAPFRAME _ _ trapframe _ balance₂
      holds₂ (by decide) (unmapped₂ _ (by decide))
      (show (trapframeLeaf trapframe).Ok from
        Leaf.ok_of aligned (by decide) (by decide) (by decide))
  · have balance₃ := balance₂.moves moves₃
    have there : space₂.leaves (vpn TRAMPOLINE) = some trampolineLeaf := by
      rw [leaves₂, Space.setLeaf_leaves_self]
      rfl
    obtain ⟨ram₄, unmapped, holds₄, moves₄⟩ := uvmunmap_keep balance₃ holds₃ (by decide) there
    have users₄ : (space₂.setLeaf (vpn TRAMPOLINE) none).users = 0 := by
      rw [Space.users_setLeaf_of_ge _ (by decide), users₂]
    have balance₄ := balance₃.moves moves₄
    rw [← add_zero space₂.tables, ← users₄] at balance₄
    obtain ⟨ram₅, free₅, freed, moves₅⟩ :=
      @uvmfree_zero _ _ _ _ balance₄ holds₄ fun v => by
        by_cases same : v = vpn TRAMPOLINE
        · rw [same, Space.setLeaf_leaves_self]
        · rw [Space.setLeaf_leaves_of_ne _ same, unmapped₂ v (vpn_TRAMPOLINE ▸ same)]
    rw [Space.owned, users₄, add_zero] at moves₅
    rw [failed]
    simp only [ok_bind]
    rw [if_neg Bool.false_ne_true, unmapped]
    simp only [ok_bind]
    rw [show space₂.root = (space₂.setLeaf _ none).root from rfl, freed]
    exact .inl ⟨ram₅, free₅, rfl, moves₁.trans (moves₂.trans (moves₃.trans (moves₄.trans moves₅)))⟩
  · rw [done']
    simp only [ok_bind, if_true]
    rw [← root₃]
    have leaf v (other : v ≠ USERTOP) : space₃.leaves v = space₂.leaves v := by
      rw [leaves₃, vpn_TRAPFRAME, Space.setLeaf_leaves_of_ne _ other]
    have users₃ : space₃.users = 0 := by
      rw [Space.users_congr leaves₃, Space.users_setLeaf_of_ge _ (by decide), users₂]
    refine .inr ⟨space₃, ram₃, free₃, rfl, ⟨holds₃, ⟨Nat.zero_le _, fun v lt => ?_⟩, ?_, ?_⟩, ?_⟩
    · rw [leaf v (by omega), unmapped₂ v (by omega)]
      exact ⟨fun absent => absurd rfl absent, by simp⟩
    · rw [leaves₃, vpn_TRAPFRAME, Space.setLeaf_leaves_self]
      rfl
    · rw [leaf _ (by omega), leaves₂, vpn_TRAMPOLINE, Space.setLeaf_leaves_self]
      rfl
    · rw [Space.owned, users₃, add_zero]
      exact moves₁.trans (moves₂.trans moves₃)

theorem procFreepagetable_spec {space : Space} {sz : BitVec 32}
    (balance : Balance ram free space.owned)
    (image : space.Image trapframe (pages sz) ram.mem) :
    ∃ ram' free', ram.procFreepagetable space.root sz = .ok ram' ∧
      Moves ram free space.owned ram' free' 0 := by
  obtain ⟨ram₁, unmapped₁, holds₁, moves₁⟩ := uvmunmap_keep balance.part image.holds
    (by decide : Aligned TRAMPOLINE) (vpn_TRAMPOLINE ▸ image.trampoline)
  have balance₁ := balance.moves (moves₁.extend space.users)
  have there : (space.setLeaf (vpn TRAMPOLINE) none).leaves (vpn TRAPFRAME) =
      some (trapframeLeaf trapframe) := by
    rw [Space.setLeaf_leaves_of_ne _ (by decide), vpn_TRAPFRAME, image.trapframe]
  obtain ⟨ram₂, unmapped₂, holds₂, moves₂⟩ := @uvmunmap_keep _
    (space.setLeaf _ none) TRAPFRAME _ _ _ balance₁.part holds₁ (by decide) there
  have balance₂ := balance₁.moves (moves₂.extend space.users)
  have users : ((space.setLeaf (vpn TRAMPOLINE) none).setLeaf (vpn TRAPFRAME) none).users =
      space.users := by
    rw [Space.users_setLeaf_of_ge _ (by decide), Space.users_setLeaf_of_ge _ (by decide)]
  have leaf v (other : v ≠ USERTOP ∧ v ≠ USERTOP + 1) :
      ((space.setLeaf (vpn TRAMPOLINE) none).setLeaf (vpn TRAPFRAME) none).leaves v =
        space.leaves v := by
    rw [Space.setLeaf_leaves_of_ne _ (vpn_TRAPFRAME ▸ other.1),
      Space.setLeaf_leaves_of_ne _ (vpn_TRAMPOLINE ▸ other.2)]
  obtain ⟨ram₃, free₃, freed, moves₃⟩ := @uvmfree_spec sz _
    ((space.setLeaf _ none).setLeaf _ none) _ _
    (users.symm ▸ balance₂) holds₂
    ⟨image.mapped.1, fun v lt => by
      rw [leaf v (by omega)]
      exact image.mapped.2 v lt⟩
    fun v above => by
      by_cases first : v = vpn TRAPFRAME
      · rw [first, Space.setLeaf_leaves_self]
      rw [Space.setLeaf_leaves_of_ne _ first]
      by_cases second : v = vpn TRAMPOLINE
      · rw [second, Space.setLeaf_leaves_self]
      rw [Space.setLeaf_leaves_of_ne _ second]
      by_contra mapped
      obtain ⟨other, here⟩ := Option.ne_none_iff_exists'.mp mapped
      obtain ⟨same, -⟩ | ⟨same, -⟩ := image.upper above here
      · exact first (same.trans vpn_TRAPFRAME.symm)
      · exact second (same.trans vpn_TRAMPOLINE.symm)
  rw [Space.owned, users] at moves₃
  refine ⟨ram₃, free₃, ?_, (moves₁.extend _).trans ((moves₂.extend _).trans moves₃)⟩
  unfold procFreepagetable
  rw [unmapped₁]
  simp only [ok_bind]
  rw [show space.root = (space.setLeaf _ none).root from rfl, unmapped₂]
  exact freed

end Ram

end Xv6Rv32im.Vm
