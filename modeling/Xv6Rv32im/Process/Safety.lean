import Xv6Rv32im.Process.ExecSafety

/-!
# Every run keeps the kernel sound

The kernel as `userinit` leaves it is sound, and so is it after every call of every
process.  A run ends early only when a process closes a descriptor that cannot be
closed or when the first process exits.
-/

namespace Xv6Rv32im.Process.Kernel

open Library.ByteWords Library.Run Library.Shares Vm Vm.Ram

variable [Layout] {k : Kernel} {total : Multiset (BitVec 32)} {i : Nat}

/-! ## Steps -/

/-- Which calls of `kalloc` will fail is no part of what is sound. -/
theorem Safe.setDenials (safe : k.Safe total) (denials : List Bool) :
    (k.setRam { k.ram with denials := denials }).Safe total := by
  obtain ⟨free, spaces, pipes, sound⟩ := safe
  exact ⟨free, spaces, pipes, ⟨sound.balance.chain, sound.balance.nodup, sound.balance.managed⟩,
    sound.conserve, sound.procs, sound.files, sound.pipes⟩

theorem store_spec (va : BitVec 32) (byte : BitVec 8) (safe : k.Safe total) (lt : i < NPROC)
    (runs : (k.procs i).state = .runnable) :
    ∃ k', k.perform i (.store va byte) = .ok k' ∧ k'.Safe total := by
  obtain ⟨free, spaces, pipes, sound⟩ := safe
  obtain ⟨space, here, live⟩ := sound.live lt (runs ▸ nofun)
  obtain ⟨trapframe, given, image⟩ := live.image
  obtain ⟨holds, moves⟩ :=
    userStore_spec va byte (sound.space_balance lt here) image.holds image.guarded
  refine ⟨k.setRam (k.ram.userStore space.root va byte), ?_, free, spaces, pipes,
    sound.written lt here holds moves⟩
  unfold perform
  dsimp only
  rw [live.pagetable]
  rfl

/-- The panics that a call of a process can end in. -/
def Reachable (panic : Panic) : Prop :=
  panic = .filecloseUnmatched ∨ panic = .initExiting

theorem returns {α : Type} {call : Except Panic (α × Kernel)}
    (done : ∃ result k', call = .ok (result, k') ∧ k'.Safe total) :
    ∃ k', (do return (← call).2 : Except Panic Kernel) = .ok k' ∧ k'.Safe total := by
  obtain ⟨result, k', rfl, safe⟩ := done
  exact ⟨k', rfl, safe⟩

theorem returns_or {α : Type} {call : Except Panic (α × Kernel)} {panic : Panic}
    (reachable : Reachable panic)
    (done : call = .error panic ∨ ∃ result k', call = .ok (result, k') ∧ k'.Safe total) :
    (∃ k', (do return (← call).2 : Except Panic Kernel) = .ok k' ∧ k'.Safe total) ∨
      ∃ fault, (do return (← call).2 : Except Panic Kernel) = .error fault ∧ Reachable fault := by
  obtain rfl | done := done
  · exact .inr ⟨panic, rfl, reachable⟩
  · exact .inl (returns done)

theorem perform_spec (call : Call) (safe : k.Safe total) (lt : i < NPROC)
    (runs : (k.procs i).state = .runnable) (ready : (k.procs i).argv = none) :
    (∃ k', k.perform i call = .ok k' ∧ k'.Safe total) ∨
      ∃ fault, k.perform i call = .error fault ∧ Reachable fault := by
  cases call with
  | fork => exact .inl (returns (fork_spec safe lt runs))
  | exit status =>
    obtain panics | done := exit_spec status safe lt runs ready
    · exact .inr ⟨_, panics, .inr rfl⟩
    · exact .inl done
  | wait addr =>
    obtain ⟨free, spaces, pipes, sound⟩ := safe
    obtain ⟨result, k', waited, safe', -⟩ := wait_spec addr sound lt runs
    exact .inl (returns ⟨result, k', waited, safe'⟩)
  | sbrk n => exact .inl (returns (sysSbrk_spec n safe lt runs))
  | execFetch uargv => exact .inl (returns (sysExecFetch_spec uargv safe lt runs ready))
  | exec path file => exact .inl ⟨k, rfl, safe⟩
  | pipe fdarray => exact returns_or (.inl rfl) (sysPipe_spec fdarray safe lt runs)
  | dup fd => exact .inl (returns (sysDup_spec fd safe lt runs))
  | close fd => exact .inl (returns (sysClose_spec fd safe lt))
  | openFile device readable writable =>
    exact returns_or (.inl rfl) (sysOpen_spec device readable writable safe lt runs)
  | store va byte => exact .inl (store_spec va byte safe lt runs)

/-- One step keeps the kernel sound or ends in one of the two panics. -/
theorem step_spec (event : Event) (safe : k.Safe total) :
    (∃ k', k.step event = .ok k' ∧ k'.Safe total) ∨
      ∃ fault, k.step event = .error fault ∧ Reachable fault := by
  have denied := safe.setDenials event.denials
  unfold step
  dsimp only
  split
  next acts =>
    obtain ⟨lt, runs⟩ := acts
    split
    next ready => exact perform_spec _ denied lt runs ready
    next argv path file busy _ => exact .inl (returns (sysExec_spec path file denied lt runs busy))
    · exact .inl ⟨_, rfl, denied⟩
  · exact .inl ⟨_, rfl, denied⟩

theorem run_spec (events : List Event) (safe : k.Safe total) :
    (∃ k', run step k events = .ok k' ∧ k'.Safe total) ∨
      ∃ fault, run step k events = .error fault ∧ Reachable fault :=
  run_outcome (fun _ event safe _ => step_spec event safe) safe
    (Meets.of_forall (fun _ _ => True.intro) k events)

end Xv6Rv32im.Process.Kernel
