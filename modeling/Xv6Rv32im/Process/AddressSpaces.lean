import Xv6Rv32im.Process.Boot
import Xv6Rv32im.Process.Safety

/-!
# The address spaces of all processes

In every state that the kernel reaches, the page table of a process maps the pages
below its size, the trapframe and the trampoline, and nothing else.  None of the
panics that a mismatch of size and page table would cause can occur.
-/

namespace Xv6Rv32im.Process.Kernel

open Library.ByteWords Library.Run Vm Vm.Ram Option

/-- What the processor finds in a page table is the address space of a process of
`sz` bytes. -/
structure AddressSpace (ram : Ram) (pagetable sz : BitVec 32) : Prop where
  leaves : ∀ v < 2 ^ 20, (ram.leafPte pagetable v).isSome ↔
    v * PGSIZE < (pgRoundUp sz).toNat ∨ v = vpn TRAPFRAME ∨ v = vpn TRAMPOLINE
  user : ∀ v < 2 ^ 20, ∀ pte, ram.leafPte pagetable v = some pte → pte &&& PTE_U ≠ 0 →
    v * PGSIZE < (pgRoundUp sz).toNat
  kernel : ∀ va ∈ [TRAPFRAME, TRAMPOLINE], ∀ pte, ram.leafPte pagetable (vpn va) = some pte →
    pte &&& PTE_U = 0

/-- The panics on a page table that does not fit the size of its process. -/
def mismatchPanics : List Panic :=
  [.remap, .uvmunmapWalk, .uvmunmapNotMapped, .uvmunmapNotALeaf, .freewalkLeaf,
    .uvmcopyPteShouldExist, .uvmcopyPageNotPresent, .loadsegAddressShouldExist]

variable [Layout]

theorem addressSpace_of_image {ram : Ram} {space : Space} {trapframe sz : BitVec 32}
    {free : List (BitVec 32)} (image : space.Image trapframe (Vm.pages sz) ram.mem)
    (balance : Balance ram free space.owned) : AddressSpace ram space.root sz := by
  have below v : v * PGSIZE < (pgRoundUp sz).toNat ↔ v < Vm.pages sz := by
    rw [pgRoundUp_toNat (small_of_pages (image.mapped.le_maxpages balance))]
    unfold PGSIZE
    omega
  have unprivileged v (lt : v < 2 ^ 20) pte
      (found : ram.leafPte space.root v = some pte) (user : pte &&& PTE_U ≠ 0) :
      v < Vm.pages sz := by
    rw [leafPte_spec image.holds lt] at found
    obtain ⟨leaf, mapped, rfl⟩ := map_eq_some_iff.mp found
    rw [Leaf.Ok.entry_user] at user
    by_cases low : v < USERTOP
    · exact (image.mapped.2 v low).mp (by rw [mapped]; nofun)
    · exact absurd (image.guarded v (by omega) leaf mapped) user
  refine ⟨fun v lt => ?_, fun v lt pte found user => ?_, fun va upper pte found => ?_⟩
  · rw [below, leafPte_spec image.holds lt, isSome_map, vpn_TRAPFRAME, vpn_TRAMPOLINE]
    by_cases low : v < USERTOP
    · rw [isSome_iff_ne_none, image.mapped.2 v low]
      omega
    obtain rfl | rfl : v = USERTOP ∨ v = USERTOP + 1 := by
      unfold USERTOP at low ⊢
      omega
    · simp [image.trapframe]
    · simp [image.trampoline]
  · exact (below v).mpr (unprivileged v lt pte found user)
  · by_contra user
    have high : USERTOP ≤ vpn va ∧ vpn va < 2 ^ 20 := by
      simp only [List.mem_cons, List.not_mem_nil, or_false] at upper
      rcases upper with rfl | rfl <;> decide
    have low := unprivileged (vpn va) high.2 pte found user
    have top := image.mapped.1
    omega

/-- In every state that the calls of all processes lead to, with any calls of `kalloc`
failing, each process in use has its address space, and no run ends in a mismatch. -/
theorem address_spaces {k₀ : Kernel} {pages : List (BitVec 32)} (booted : k₀.Booted pages)
    (events : List Event) :
    (∀ k, run step k₀ events = .ok k → ∀ i < NPROC, (k.procs i).state ≠ .unused →
      ∃ pagetable, (k.procs i).pagetable = some pagetable ∧
        AddressSpace k.ram pagetable (k.procs i).sz) ∧
    ∀ panic ∈ mismatchPanics, run step k₀ events ≠ .error panic := by
  obtain ⟨k, ran, free, spaces, pipes, sound⟩ | ⟨fault, ran, reachable⟩ :=
    run_spec events booted.safe
  · rw [ran]
    refine ⟨fun k' same i inside inUse => ?_, fun panic _ => nofun⟩
    cases same
    obtain ⟨space, here, live⟩ := sound.live inside inUse
    obtain ⟨trapframe, -, image⟩ := live.image
    exact ⟨space.root, live.pagetable,
      addressSpace_of_image image (sound.space_balance inside here)⟩
  · rw [ran]
    refine ⟨fun k' => nofun, fun panic listed same => ?_⟩
    cases same
    obtain rfl | rfl := reachable <;> revert listed <;> decide

/-! ## A small machine -/

def forkAndGrow : List Event := [⟨0, [], .fork⟩, ⟨1, [], .sbrk 100⟩]

omit [Layout] in
theorem small_boots : ∃ k₀, @userinit smallLayout (boot smallRam) [0x13] = .ok k₀ ∧
    @Booted smallLayout k₀ smallPages := by
  have boots : ((@userinit smallLayout (boot smallRam) [0x13]).map fun k₀ =>
      ((k₀.procs k₀.initproc).pagetable.bind fun root => k₀.ram.leafPte root 0).isSome) =
        .ok true := by decide +kernel
  obtain ⟨k₀, made, first⟩ := of_map_eq_ok boots
  obtain ⟨pte, found⟩ := isSome_iff_exists.mp first
  obtain ⟨pagetable, given, mapped⟩ := bind_eq_some_iff.mp found
  exact ⟨k₀, made, @Booted.mk smallLayout _ _ ⟨smallRam, [0x13], smallRam_chain, made⟩ (by decide)
    smallPages_managed ⟨pagetable, given, by rw [mapped]; nofun⟩⟩

omit [Layout] in
theorem small_runs :
    ∃ k₀ k, @Booted smallLayout k₀ smallPages ∧ run (@step smallLayout) k₀ forkAndGrow = .ok k ∧
      (k.procs 1).state ≠ .unused ∧ (k.procs 1).sz = 4196 := by
  obtain ⟨k₀, made, booted⟩ := small_boots
  have seen : ((@userinit smallLayout (boot smallRam) [0x13]).bind fun k₀ =>
      (run (@step smallLayout) k₀ forkAndGrow).map fun k =>
        ((k.procs 1).state, (k.procs 1).sz)) = .ok (.runnable, 4196) := by decide +kernel
  rw [made] at seen
  obtain ⟨k, reached, process⟩ := of_map_eq_ok seen
  obtain ⟨state, sz⟩ := Prod.mk.inj process
  exact ⟨k₀, k, booted, reached, by rw [state]; nofun, sz⟩

omit [Layout] in
theorem address_spaces_small :
    ∃ k₀ k, @Booted smallLayout k₀ smallPages ∧ run (@step smallLayout) k₀ forkAndGrow = .ok k ∧
      ∃ pagetable, (k.procs 1).pagetable = some pagetable ∧ AddressSpace k.ram pagetable 4196 := by
  obtain ⟨k₀, k, booted, ran, inUse, sz⟩ := small_runs
  have spaces := (@address_spaces smallLayout _ _ booted forkAndGrow).1 k ran 1 (by decide) inUse
  rw [sz] at spaces
  exact ⟨k₀, k, booted, ran, spaces⟩

end Xv6Rv32im.Process.Kernel
