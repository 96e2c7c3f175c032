import Xv6Rv32im.Process.Lifecycle

/-!
# The first process

`userinit` makes a sound kernel from one without processes.  It does not check whether
`uvminit` could map the page of the first process, so this is part of having booted.
-/

namespace Xv6Rv32im.Vm.Ram

open Library.ByteWords Library.Shares

variable [Layout] {ram ram' : Ram} {space : Space} {free : List (BitVec 32)}

/-- `uvminit` maps one page, or its page is lost and the address space is as it was. -/
theorem uvminit_spec (src : List (BitVec 8))
    (balance : Balance ram free space.owned) (holds : space.Holds ram.mem)
    (mapped : space.Mapped 0) (done : ram.uvminit space.root src = .ok ram') :
    space.Holds ram'.mem ∧ space.leaves 0 = none ∨
    ∃ space' free', space.Grown userLeaf space' 0 1 ∧
      space'.Holds ram'.mem ∧
      Moves ram free space.owned ram' free' space'.owned := by
  have unmapped : space.leaves 0 = none := by
    by_contra there
    exact absurd ((mapped.2 0 (by decide)).mp there) (by omega)
  unfold uvminit at done
  by_cases large : src.length ≥ PGSIZE
  · rw [if_pos large] at done
    cases done
  rw [if_neg large] at done
  obtain ⟨ram₁, denied, -⟩ | ⟨page, rest, ram₁, rfl, given, managed, fresh, others, moves⟩ :=
    balance.kalloc_fill
  · rw [denied] at done
    cases done
  rw [given] at done
  dsimp only at done
  have moves₁ := moves fun _ => 0
  have after := balance.moves moves₁
  have holds₁ : space.Holds (ram₁.memset page 0).mem := holds.frame fun other table => by
    have ne : other ≠ page := fun same =>
      fresh (same ▸ Multiset.mem_add.mpr (.inl table))
    rw [setPage_mem_of_ne _ ne, others other ne]
  obtain ⟨ram₂, failed, kept, moves₂⟩ |
      ⟨space', ram₂, free₂, made, root, leaves, holds₂, moves₂, -⟩ :=
    @mappages_user _ _ _ _ 0 page (PTE_W ||| PTE_R ||| PTE_X ||| PTE_U) after holds₁
      (by decide) (by decide) unmapped (Leaf.ok_of managed.1 (by decide) (by decide) (by decide))
  · rw [failed] at done
    cases done
    refine .inl ⟨kept.frame fun other table => setPage_mem_of_ne _ ?_, unmapped⟩
    rintro rfl
    exact fresh (Multiset.mem_add.mpr (.inl table))
  rw [made] at done
  cases done
  have fine : userLeaf 0 ⟨page, (PTE_W ||| PTE_R ||| PTE_X ||| PTE_U) ||| PTE_V⟩ :=
    show ((PTE_W ||| PTE_R ||| PTE_X ||| PTE_U) ||| PTE_V) &&& PTE_U ≠ 0 by decide
  have grown := (Space.Grown.refl space userLeaf 0).step le_rfl fine root leaves
  have mem : page ∈ space'.users := by
    refine mem_shares.mpr ⟨0, by decide, mem_held.mpr ?_⟩
    rw [leaves, show vpn 0 = 0 by decide, Space.setLeaf_leaves_self]
    rfl
  obtain ⟨holds₃, moves₃⟩ := memmove_user 0 src (after.moves moves₂) holds₂ mem
  exact .inr ⟨space', free₂, grown, holds₃, moves₁.trans (moves₂.trans moves₃)⟩

end Xv6Rv32im.Vm.Ram

namespace Xv6Rv32im.Process.Kernel

open Library.Run Library.Shares Vm Vm.Ram

variable [Layout] {free : List (BitVec 32)} {ram : Ram}

theorem boot_sound (chain : FreeChain ram.mem ram.freelist free) (nodup : free.Nodup)
    (managed : ∀ page ∈ free, Managed page) : (boot ram).Sound ↑free free (fun _ => none) 0 0 := by
  have nothing : ownedPages (boot ram).procs (fun _ => none) + 0 = 0 := by
    rw [add_zero]
    exact shares_eq_zero fun i _ => rfl
  have noHandles : allHandles (boot ram).procs = 0 :=
    shares_eq_zero fun i _ => shares_eq_zero fun fd _ => rfl
  refine ⟨?_, ?_, fun i _ => ⟨rfl, rfl, rfl, rfl, rfl, fun _ _ => rfl⟩, ?_, ?_⟩
  · rw [nothing]
    exact ⟨chain, by simpa using nodup, by simpa using managed⟩
  · rw [nothing, add_zero]
  · rw [noHandles]
    exact ⟨fun f => rfl, fun f => ⟨fun _ => rfl, fun _ => rfl⟩, fun f used => absurd rfl used⟩
  have noEnd f page writable :
      ¬((boot ram).file f).IsEnd page writable := by
    rintro ⟨⟨⟩, -⟩
  refine ⟨fun page => ⟨nofun, ?_⟩, fun page writable f g first =>
    absurd first (noEnd f page writable),
    nofun⟩
  rintro ⟨writable, f, isEnd⟩
  exact absurd isEnd (noEnd f page writable)

/-- The kernel after `userinit`, with these pages in the allocator before.  The page of
the first process is mapped. -/
structure Booted (k : Kernel) (pages : List (BitVec 32)) : Prop where
  init : ∃ ram initcode, FreeChain ram.mem ram.freelist pages ∧ (boot ram).userinit initcode = .ok k
  nodup : pages.Nodup
  managed : ∀ page ∈ pages, Managed page
  mapped : ∃ pagetable, (k.procs k.initproc).pagetable = some pagetable ∧
    k.ram.leafPte pagetable 0 ≠ none

variable {k : Kernel} {pages : List (BitVec 32)}

/-- The registers that `userinit` sets are no part of an address space. -/
theorem setRegs_frame {space : Space} {trapframe page : BitVec 32} {rest : Multiset (BitVec 32)}
    (balance : Balance ram free (space.owned + rest)) (mem : trapframe ∈ rest)
    (table : page ∈ space.tables) (epc sp : BitVec 32) (ram' : Ram) :
    ((ram'.setReg trapframe epcOffset epc).setReg trapframe spOffset sp).mem page =
      ram'.mem page := by
  have ne : page ≠ trapframe := by
    rintro rfl
    exact Multiset.disjoint_left.mp (Multiset.nodup_add.mp balance.held_nodup).2.2
      (Multiset.mem_add.mpr (.inl table)) mem
  unfold setReg
  rw [setPage_mem_of_ne _ ne, setPage_mem_of_ne _ ne]

theorem setRegs_moves {trapframe : BitVec 32} {owned : Multiset (BitVec 32)}
    (balance : Balance ram free owned) (mem : trapframe ∈ owned) (epc sp : BitVec 32) :
    Moves ram free owned ((ram.setReg trapframe epcOffset epc).setReg trapframe spOffset sp) free
      owned := by
  have first : Moves ram free owned (ram.setReg trapframe epcOffset epc) free owned :=
    balance.setPage mem _
  exact first.trans ((balance.moves first).setPage mem _)

theorem Booted.safe (booted : k.Booted pages) : k.Safe ↑pages := by
  obtain ⟨⟨ram, initcode, chain, ran⟩, nodup, managed, pagetable, given, mapped⟩ := booted
  unfold userinit at ran
  obtain ⟨k', failed, -⟩ | ⟨j, k₁, free₁, space, alloc, allocated, sound⟩ :=
    (boot_sound chain nodup managed).allocproc 0
  · rw [failed] at ran
    cases ran
  rw [alloc] at ran
  simp only [ok_bind] at ran
  have live := sound.procs j allocated.slot
  rw [Function.update_self] at live
  obtain ⟨trapframe, framed, image⟩ := live.image
  rw [allocated.sz] at image
  obtain ⟨rest, -, balance, -⟩ := sound.split allocated.slot
  rw [Function.update_self] at balance
  replace balance := balance.part
  have mem : trapframe ∈ held (k₁.procs j).trapframe + ↑((k₁.procs j).argv.getD []) :=
    Multiset.mem_add.mpr (.inl (mem_held.mpr framed))
  split at ran
  next root frame rooted framed' =>
    obtain rfl := Option.some.inj (rooted.symm.trans live.pagetable)
    obtain rfl := Option.some.inj (framed.symm.trans framed')
    cases made : k₁.ram.uvminit space.root initcode with
    | error panic =>
      rw [made] at ran
      cases ran
    | ok ram₁ =>
      rw [made] at ran
      simp only [ok_bind] at ran
      cases ran
      obtain ⟨holds, unmapped⟩ | ⟨space', free', grown, holds, moves⟩ :=
        uvminit_spec initcode balance.part image.holds image.mapped made
      · -- the page of the first process was not mapped
        have kept := holds.frame fun page table => setRegs_frame balance mem table 0 4096 ram₁
        refine absurd ?_ mapped
        change (Function.update k₁.procs j _ j).pagetable = some pagetable at given
        rw [Function.update_self] at given
        obtain rfl := Option.some.inj (live.pagetable.symm.trans given)
        change leafPte (setReg _ _ _ _) space.root 0 = none
        rw [leafPte_spec kept (by decide), unmapped]
        rfl
      · have moved := moves.extend (held (k₁.procs j).trapframe + ↑((k₁.procs j).argv.getD []))
        have after := balance.moves moved
        have written := setRegs_moves after (Multiset.mem_add.mpr (.inr mem)) 0 4096
        have image' := (image.regrown grown (by decide) (by decide) holds).frame
          fun page table => setRegs_frame after mem table 0 4096 ram₁
        rw [show 1 = Vm.pages 4096 by decide] at image'
        have result := @Sound.proc _ _ _ _ free' _ _ _ _ { k₁.procs j with
            sz := 4096
            name := [0x69, 0x6e, 0x69, 0x74, 0x63, 0x6f, 0x64, 0x65]
            state := .runnable } (some space') _ sound allocated.slot ?_
          ⟨nofun, ?_, ⟨trapframe, framed, image'⟩, nofun⟩ rfl
        · exact ⟨free', _, 0, result.balance, result.conserve, result.procs, result.files,
            result.pipes⟩
        · rw [Function.update_self]
          exact moved.trans written
        · rw [grown.root]
          exact live.pagetable
  next missing => exact absurd framed (missing _ _ live.pagetable)

end Xv6Rv32im.Process.Kernel
