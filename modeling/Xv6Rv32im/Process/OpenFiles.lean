import Xv6Rv32im.Process.PageOwnership

/-!
# Open files

Whatever the processes open, duplicate, hand on to children and close, the reference count of a
file is the number of descriptors that refer to it, and a pipe knows which of its ends are open.
-/

namespace Xv6Rv32im.Process.Kernel

open Library.Run Vm Vm.Ram

variable [Layout]

/-- In every state that the calls of all processes lead to, with any calls of `kalloc` failing,
each file counts the descriptors of all processes that refer to it, and is free when there are
none.  Each end of a pipe has one file at most, and the flags of the pipe say which.  The pages of
the pipes that have a file are those of the allocator that are neither free nor of a process.  No
file is duplicated or closed that is not open: of the panics only `init exiting` can occur, and
`fileclose unmatched` on a file that a failing `open` or `pipe` gives back before it has a type.
-/
theorem open_files {k₀ : Kernel} {pages : List (BitVec 32)} (booted : k₀.Booted pages)
    (events : List Event) :
    (∀ k, run step k₀ events = .ok k →
      FilesOk k.file (allHandles k.procs) ∧ PipesOk k.file k.ram.mem k.pipePages ∧
        ∃ free, FreeChain k.ram.mem k.ram.freelist free ∧ ∀ page, page ∈ k.pipePages ↔
          page ∈ pages ∧ page ∉ free ∧ ∀ i < NPROC, page ∉ k.procPages i) ∧
    ∀ panic, run step k₀ events = .error panic → Reachable panic := by
  obtain ⟨k, ran, free, spaces, pipes, sound⟩ | ⟨fault, ran, reachable⟩ :=
    run_spec events booted.safe
  · rw [ran]
    refine ⟨fun k' same => ?_, nofun⟩
    obtain rfl := Except.ok.inj same
    refine ⟨zero_add (allHandles k.procs) ▸ sound.files, pipePages_eq sound ▸ sound.pipes, free,
      sound.balance.chain, fun page => ?_⟩
    have perm := Multiset.coe_eq_coe.mp (places_eq sound)
    have nodup := perm.nodup_iff.mpr booted.nodup
    rw [← perm.mem_iff]
    grind [List.nodup_append]
  · rw [ran]
    exact ⟨nofun, fun panic same => Except.error.inj same ▸ reachable⟩

omit [Layout] in
theorem open_files_small : ∃ k₀ k, @Booted smallLayout k₀ smallPages ∧
    run (@step smallLayout) k₀ forkAndGrow = .ok k ∧ FilesOk k.file (allHandles k.procs) := by
  obtain ⟨k₀, k, booted, ran, -⟩ := small_runs
  exact ⟨k₀, k, booted, ran, ((@open_files smallLayout k₀ smallPages booted forkAndGrow).1 k ran).1⟩

end Xv6Rv32im.Process.Kernel
