import Xv6Rv32im.Process.AddressSpaces

/-!
# Every page is in one place

The places of a page, as they can be read off the memory and the tables of the
kernel: the free list, the page tables, user memory, trapframes and `exec` arguments
of the processes, and the open pipes.  In every state that the kernel reaches they
list each page of the allocator once.
-/

namespace Xv6Rv32im.Vm.Ram

open Library.ByteWords Library.Shares

def tablePages (ram : Ram) (pagetable : BitVec 32) : List (BitVec 32) :=
  pagetable :: (List.range 1024).filterMap fun i =>
    let top := ram.loadPte ⟨pagetable, i⟩
    if top &&& PTE_V = 0 then none else some (pte2pa top)

def userPages (ram : Ram) (pagetable : BitVec 32) : List (BitVec 32) :=
  (List.range (vpn TRAPFRAME)).filterMap fun v => (ram.leafPte pagetable v).map pte2pa

variable {ram : Ram} {space : Space}

theorem tablePages_eq (holds : space.Holds ram.mem) :
    (ram.tablePages space.root : Multiset (BitVec 32)) = space.tables := by
  unfold tablePages Space.tables
  rw [shares_held, ← Multiset.cons_coe]
  refine congrArg (fun list : List (BitVec 32) => space.root ::ₘ (list : Multiset (BitVec 32)))
    (List.filterMap_congr fun i mem => ?_)
  have lt := List.mem_range.mp mem
  have top : ram.loadPte ⟨space.root, i⟩ = dirEntry (space.dirs i) := holds.top i lt
  dsimp only
  rw [top]
  cases here : space.dirs i with
  | none => exact if_pos (not_not.mp fun valid => (dirEntry_valid none).mp valid rfl)
  | some dir =>
    rw [if_neg ((dirEntry_valid (some dir)).mpr nofun),
      pte2pa_dirEntry (holds.aligned i lt dir here)]

theorem userPages_eq (holds : space.Holds ram.mem) :
    (ram.userPages space.root : Multiset (BitVec 32)) = space.users := by
  unfold userPages Space.users
  rw [shares_held, vpn_TRAPFRAME]
  refine congrArg (fun list : List (BitVec 32) => (list : Multiset (BitVec 32)))
    (List.filterMap_congr fun v mem => ?_)
  have lt : v < 2 ^ 20 := (List.mem_range.mp mem).trans (by decide)
  rw [leafPte_spec holds lt]
  cases here : space.leaves v with
  | none => rfl
  | some leaf => exact congrArg some (holds.backed v leaf here).2.2.entry_page

end Xv6Rv32im.Vm.Ram

namespace Xv6Rv32im.Process.Kernel

open Library.ByteWords Library.Run Library.Shares Vm Vm.Ram

/-- The pages of a process: its page table, its memory, its trapframe and the arguments
of an `exec` in progress. -/
def procPages (k : Kernel) (i : Nat) : List (BitVec 32) :=
  let p := k.procs i
  (match p.pagetable with
    | none => []
    | some pagetable => k.ram.tablePages pagetable ++ k.ram.userPages pagetable) ++
    (p.trapframe.toList ++ p.argv.getD [])

/-- The pages of the pipes that a file refers to. -/
def pipePages (k : Kernel) : List (BitVec 32) :=
  ((List.range NFILE).filterMap fun f =>
    if (k.file f).type = .pipe then some (k.file f).pipe else none).dedup

/-- The process in slot `i` has the page, or has an open descriptor of a pipe in it. -/
def HasPage (k : Kernel) (i : Nat) (page : BitVec 32) : Prop :=
  page ∈ k.procPages i ∨ ∃ fd < NOFILE, ∃ f, (k.procs i).ofile fd = some f ∧
    (k.file f).type = .pipe ∧ (k.file f).pipe = page

variable [Layout] {k : Kernel} {total : Multiset (BitVec 32)} {free : List (BitVec 32)}
  {spaces : Nat → Option Space} {pipes : Multiset (BitVec 32)} {i : Nat}

section

variable (sound : k.Sound total free spaces pipes 0)

include sound

theorem procPages_eq (lt : i < NPROC) :
    (k.procPages i : Multiset (BitVec 32)) = (k.procs i).owned (spaces i) := by
  have ok := sound.procs i lt
  have frame : (((k.procs i).trapframe.toList ++ (k.procs i).argv.getD [] : List _) :
      Multiset (BitVec 32)) = held (k.procs i).trapframe + ↑((k.procs i).argv.getD []) := by
    rw [← Multiset.coe_add]
    cases (k.procs i).trapframe <;> rfl
  unfold procPages Proc.owned
  rw [← Multiset.coe_add, frame]
  congr 1
  cases here : spaces i with
  | none =>
    rw [here] at ok
    rw [ok.pagetable]
    rfl
  | some space =>
    rw [here] at ok
    obtain ⟨trapframe, -, image⟩ := ok.image
    rw [ok.pagetable]
    dsimp only
    rw [← Multiset.coe_add, tablePages_eq image.holds, userPages_eq image.holds]
    rfl

theorem pipePages_eq : (k.pipePages : Multiset (BitVec 32)) = pipes := by
  have nodup : pipes.Nodup := (Multiset.nodup_add.mp sound.balance.held_nodup).2.1
  refine (Multiset.Nodup.ext (Multiset.coe_nodup.mpr (List.nodup_dedup _)) nodup).mpr fun page => ?_
  rw [sound.pipes.listed, Multiset.mem_coe, List.mem_dedup, List.mem_filterMap]
  constructor
  · rintro ⟨f, -, named⟩
    split at named
    next isPipe => exact ⟨(k.file f).writable, f, isPipe, Option.some.inj named, rfl⟩
    · cases named
  rintro ⟨writable, f, isPipe, here, -⟩
  refine ⟨f, List.mem_range.mpr (sound.files.bounded f fun closed => ?_), ?_⟩
  · rw [(sound.files.typed f).mpr closed] at isPipe
    cases isPipe
  · rw [if_pos isPipe, here]

theorem places_eq :
    (↑(free ++ ((List.range NPROC).flatMap k.procPages ++ k.pipePages)) : Multiset (BitVec 32)) =
      total := by
  have processes : (↑((List.range NPROC).flatMap k.procPages) : Multiset (BitVec 32)) =
      ownedPages k.procs spaces := by
    rw [← shares_coe]
    exact shares_congr fun i lt => procPages_eq sound lt
  rw [← Multiset.coe_add, ← Multiset.coe_add, processes, pipePages_eq sound]
  exact sound.conserve

theorem Sound.unused_empty (lt : i < NPROC) (unused : (k.procs i).state = .unused)
    (page : BitVec 32) : ¬k.HasPage i page := by
  obtain ⟨idle, vacant⟩ := sound.idle lt unused
  rintro (own | ⟨fd, small, f, opened, -⟩)
  · have here := Multiset.mem_coe.mpr own
    rw [procPages_eq sound lt, vacant, idle.owned] at here
    exact absurd here (Multiset.notMem_zero page)
  · rw [idle.ofile fd small] at opened
    cases opened

/-- A page that is not free belongs to a process in use. -/
theorem Sound.free_or_used {page : BitVec 32} (mem : page ∈ total) :
    page ∈ free ∨ ∃ i < NPROC, (k.procs i).state ≠ .unused ∧ k.HasPage i page := by
  suffices placed : page ∈ free ∨ ∃ i < NPROC, k.HasPage i page by
    refine placed.imp_right ?_
    rintro ⟨i, lt, has⟩
    exact ⟨i, lt, fun unused => sound.unused_empty lt unused page has, has⟩
  rw [← sound.conserve, Multiset.mem_add, Multiset.mem_add] at mem
  obtain isFree | owned | pipe := mem
  · exact .inl (Multiset.mem_coe.mp isFree)
  · obtain ⟨i, lt, here⟩ := mem_shares.mp owned
    rw [← procPages_eq sound lt] at here
    exact .inr ⟨i, lt, .inl (Multiset.mem_coe.mp here)⟩
  obtain ⟨writable, f, isPipe, same, -⟩ := (sound.pipes.listed page).mp pipe
  have counted : f ∈ allHandles k.procs := by
    rw [← Multiset.count_pos, ← zero_add (allHandles k.procs), ← sound.files.counted f]
    refine Nat.pos_of_ne_zero fun closed => ?_
    rw [(sound.files.typed f).mpr closed] at isPipe
    cases isPipe
  obtain ⟨i, lt, handle⟩ := mem_shares.mp counted
  obtain ⟨fd, small, opened⟩ := mem_shares.mp handle
  exact .inr ⟨i, lt, .inr ⟨fd, small, f, mem_held.mp opened, isPipe, same⟩⟩

/-- What a process maps is the trampoline, without PTE_U, or one of its pages. -/
theorem Sound.mapped_page {pagetable pte : BitVec 32} {v : Nat} (lt : i < NPROC)
    (given : (k.procs i).pagetable = some pagetable) (small : v < 2 ^ 20)
    (found : k.ram.leafPte pagetable v = some pte) :
    pte2pa pte = Layout.trampoline ∧ pte &&& PTE_U = 0 ∨
      pte2pa pte ∈ (k.procs i).owned (spaces i) := by
  have ok := sound.procs i lt
  cases here : spaces i with
  | none =>
    rw [here] at ok
    cases ok.pagetable.symm.trans given
  | some space =>
    rw [here] at ok
    obtain ⟨trapframe, framed, image⟩ := ok.image
    obtain rfl := Option.some.inj (ok.pagetable.symm.trans given)
    rw [leafPte_spec image.holds small] at found
    obtain ⟨leaf, mapped, rfl⟩ := Option.map_eq_some_iff.mp found
    rw [(image.holds.backed v leaf mapped).2.2.entry_page, Leaf.Ok.entry_user]
    by_cases low : v < USERTOP
    · refine .inr (Multiset.mem_add.mpr (.inl (Multiset.mem_add.mpr (.inr ?_))))
      refine mem_shares.mpr ⟨v, low, mem_held.mpr ?_⟩
      rw [mapped]
      rfl
    · have unprivileged := image.guarded v (by omega) leaf mapped
      obtain ⟨-, rfl⟩ | ⟨-, rfl⟩ := image.upper (by omega) mapped
      · exact .inr (Multiset.mem_add.mpr (.inr (Multiset.mem_add.mpr (.inl (mem_held.mpr framed)))))
      · exact .inl ⟨rfl, unprivileged⟩

end

theorem trampoline_not_managed : ¬Managed Layout.trampoline :=
  fun managed => absurd managed.2.1 (BitVec.not_le.mpr Layout.trampoline_below)

/-- In every state that the calls of all processes lead to, with any calls of `kalloc`
failing, every page of the allocator is in one place.  Two processes do not map the same
page for user mode, no mapped page is free, and what no process in use has is free.  A `wait` that
returns a pid frees the slot of a child that has exited and, besides what was free before, exactly
its pages. -/
theorem page_ownership {k₀ : Kernel} {pages : List (BitVec 32)} {events : List Event}
    (booted : k₀.Booted pages) (ran : run step k₀ events = .ok k) :
    ∃ free, FreeChain k.ram.mem k.ram.freelist free ∧
      (free ++ ((List.range NPROC).flatMap k.procPages ++ k.pipePages)).Perm pages ∧
      (free ++ ((List.range NPROC).flatMap k.procPages ++ k.pipePages)).Nodup ∧
      (∀ i < NPROC, ∀ j < NPROC, i ≠ j → ∀ pagetable pagetable',
        (k.procs i).pagetable = some pagetable → (k.procs j).pagetable = some pagetable' →
        ∀ v < 2 ^ 20, ∀ w < 2 ^ 20, ∀ pte pte', k.ram.leafPte pagetable v = some pte →
          k.ram.leafPte pagetable' w = some pte' → pte &&& PTE_U ≠ 0 → pte' &&& PTE_U ≠ 0 →
          pte2pa pte ≠ pte2pa pte') ∧
      (∀ i < NPROC, ∀ pagetable, (k.procs i).pagetable = some pagetable →
        ∀ v < 2 ^ 20, ∀ pte, k.ram.leafPte pagetable v = some pte → pte2pa pte ∉ free) ∧
      (∀ i < NPROC, (k.procs i).state = .unused → ∀ page, ¬k.HasPage i page) ∧
      (∀ page ∈ pages, (∀ i < NPROC, (k.procs i).state ≠ .unused → ¬k.HasPage i page) →
        page ∈ free) ∧
      ∀ i < NPROC, (k.procs i).state = .runnable → ∀ addr pid k', k.wait i addr = .ok (pid, k') →
        pid ≠ -1 → ∃ j < NPROC, k.ZombieChild i j pid ∧ (k'.procs j).state = .unused ∧
          ∃ free', FreeChain k'.ram.mem k'.ram.freelist free' ∧
            free'.Perm (free ++ k.procPages j) := by
  obtain ⟨final, ran', free, spaces, pipes, sound⟩ | ⟨fault, failed, -⟩ :=
    run_spec events booted.safe
  · obtain rfl := Except.ok.inj (ran.symm.trans ran')
    have perm := Multiset.coe_eq_coe.mp (places_eq sound)
    refine ⟨free, sound.balance.chain, perm, perm.nodup_iff.mpr booted.nodup, ?_, ?_,
      fun i inside unused page => sound.unused_empty inside unused page, ?_, ?_⟩
    · intro i first j second different pagetable pagetable' given given' v small w small' pte pte'
        found found' user user' same
      obtain ⟨-, supervisor⟩ | mine := sound.mapped_page first given small found
      · exact user supervisor
      obtain ⟨-, supervisor⟩ | other := sound.mapped_page second given' small' found'
      · exact user' supervisor
      have nodup := (Multiset.nodup_add.mp sound.balance.held_nodup).1
      exact different (holder_unique nodup first second mine (same ▸ other))
    · intro i inside pagetable given v small pte found isFree
      obtain ⟨same, -⟩ | mine := sound.mapped_page inside given small found
      · exact trampoline_not_managed (same ▸ sound.balance.managed _
          (Multiset.mem_add.mpr (.inl (Multiset.mem_coe.mpr isFree))))
      · refine sound.balance.not_free ?_ isFree
        exact Multiset.mem_add.mpr (.inl (mem_shares.mpr ⟨i, inside, mine⟩))
    · intro page member nobody
      refine (sound.free_or_used (Multiset.mem_coe.mpr member)).resolve_right ?_
      rintro ⟨i, inside, inUse, has⟩
      exact nobody i inside inUse has
    · intro i inside runs addr pid k' waited isPid
      obtain ⟨pid', k'', waited', -, reaped⟩ := wait_spec addr sound inside runs
      cases waited.symm.trans waited'
      obtain ⟨j, slot, child, unused, free', chain, same⟩ := reaped isPid
      rw [← procPages_eq sound slot, Multiset.coe_add] at same
      exact ⟨j, slot, child, unused, free', chain, Multiset.coe_eq_coe.mp same⟩
  · cases ran.symm.trans failed

omit [Layout] in
/-- A child is forked, exits and is waited for. -/
theorem page_ownership_small : ∃ k₀ k k' free free' j, @Booted smallLayout k₀ smallPages ∧
      run (@step smallLayout) k₀ [⟨0, [], .fork⟩, ⟨1, [], .exit 7⟩] = .ok k ∧
      (free ++ ((List.range NPROC).flatMap k.procPages ++ k.pipePages)).Perm smallPages ∧
      @wait smallLayout k 0 0 = .ok (2, k') ∧ (k'.procs j).state = .unused ∧
      FreeChain k'.ram.mem k'.ram.freelist free' ∧ free'.Perm (free ++ k.procPages j) := by
  obtain ⟨k₀, made, booted⟩ := small_boots
  have seen : ((@userinit smallLayout (boot smallRam) [0x13]).bind fun k₀ =>
      (run (@step smallLayout) k₀ [⟨0, [], .fork⟩, ⟨1, [], .exit 7⟩]).map fun k =>
        ((k.procs 0).state, (@wait smallLayout k 0 0).map Prod.fst)) = .ok (.runnable, .ok 2) := by
    decide +kernel
  rw [made] at seen
  obtain ⟨k, ran, state⟩ := of_map_eq_ok seen
  obtain ⟨runs, waits⟩ := Prod.mk.inj state
  obtain ⟨⟨pid, k'⟩, waited, rfl⟩ := of_map_eq_ok waits
  obtain ⟨free, -, perm, -, -, -, -, -, reaps⟩ := @page_ownership smallLayout k k₀ _ _ booted ran
  obtain ⟨j, -, -, unused, free', chain, same⟩ := reaps 0 (by decide) runs 0 2 k' waited (by decide)
  exact ⟨k₀, k, k', free, free', j, booted, ran, perm, waited, unused, chain, same⟩

end Xv6Rv32im.Process.Kernel
