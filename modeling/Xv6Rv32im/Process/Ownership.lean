import Xv6Rv32im.Process.FileRefs
import Xv6Rv32im.Process.PageTables

/-!
# Who holds which page

The invariant of the kernel: every page is free, or held by one process, or an open
pipe.  What a call does to one process or to the file table keeps it; the frame
rule of the allocator takes care of everything else.
-/

namespace Xv6Rv32im.Process

open Library.ByteWords Library.Shares Vm Vm.Ram Function Multiset

def spacePages : Option Space → Multiset (BitVec 32)
  | none => 0
  | some space => space.tables + space.users

namespace Proc

def owned (p : Proc) (space : Option Space) : Multiset (BitVec 32) :=
  spacePages space + (held p.trapframe + ↑(p.argv.getD []))

def handles (p : Proc) : Multiset Nat :=
  shares (fun fd => held (p.ofile fd)) NOFILE

structure Idle (p : Proc) : Prop where
  state : p.state = .unused
  pagetable : p.pagetable = none
  trapframe : p.trapframe = none
  sz : p.sz = 0
  argv : p.argv = none
  ofile : ∀ fd < NOFILE, p.ofile fd = none

variable [Layout]

structure Live (p : Proc) (space : Space) (mem : BitVec 32 → Bytes) : Prop where
  state : p.state ≠ .unused
  pagetable : p.pagetable = some space.root
  image : ∃ trapframe, p.trapframe = some trapframe ∧ space.Image trapframe (pages p.sz) mem
  zombie : p.state = .zombie → p.argv = none ∧ ∀ fd < NOFILE, p.ofile fd = none

def Ok (p : Proc) (space : Option Space) (mem : BitVec 32 → Bytes) : Prop :=
  match space with
  | none => p.Idle
  | some space => p.Live space mem

theorem Ok.frame {p : Proc} {space : Option Space} {mem mem' : BitVec 32 → Bytes}
    (ok : p.Ok space mem) (same : ∀ page ∈ p.owned space, mem' page = mem page) :
    p.Ok space mem' := by
  cases space with
  | none => exact ok
  | some space =>
    obtain ⟨state, pagetable, ⟨trapframe, given, image⟩, zombie⟩ := ok
    refine ⟨state, pagetable, ⟨trapframe, given, image.frame fun page table => ?_⟩, zombie⟩
    exact same page (mem_add.mpr (.inl (mem_add.mpr (.inl table))))

end Proc

namespace Kernel

variable [Layout]

def ownedPages (procs : Nat → Proc) (spaces : Nat → Option Space) : Multiset (BitVec 32) :=
  shares (fun i => (procs i).owned (spaces i)) NPROC

/-- All references from descriptors to files. -/
def allHandles (procs : Nat → Proc) : Multiset Nat :=
  shares (fun i => (procs i).handles) NPROC

/-- The kernel is sound: `total` are the pages of the allocator, of which `free` are
free; `spaces` are the address spaces; `pipes` are the open pipes; `extra` are the
references to files that a call in progress holds. -/
structure Sound (k : Kernel) (total : Multiset (BitVec 32)) (free : List (BitVec 32))
    (spaces : Nat → Option Space) (pipes : Multiset (BitVec 32)) (extra : Multiset Nat) :
    Prop where
  balance : Balance k.ram free (ownedPages k.procs spaces + pipes)
  conserve : (↑free + (ownedPages k.procs spaces + pipes) : Multiset (BitVec 32)) = total
  procs : ∀ i < NPROC, (k.procs i).Ok (spaces i) k.ram.mem
  files : FilesOk k.file (extra + allHandles k.procs)
  pipes : PipesOk k.file k.ram.mem pipes

omit [Layout] in
theorem handles_update (procs : Nat → Proc) (i : Nat) (p : Proc) :
    (fun j => (update procs i p j).handles) = update (fun j => (procs j).handles) i p.handles :=
  funext (apply_update (fun _ => Proc.handles) procs i p)

section

variable {k : Kernel} {total : Multiset (BitVec 32)} {free free' : List (BitVec 32)}
  {spaces : Nat → Option Space} {pipes pipes' : Multiset (BitVec 32)} {extra : Multiset Nat}
  {i : Nat}

theorem Sound.split (sound : k.Sound total free spaces pipes extra) (lt : i < NPROC) :
    ∃ rest, ownedPages k.procs spaces = (k.procs i).owned (spaces i) + rest ∧
      Balance k.ram free ((k.procs i).owned (spaces i) + (rest + pipes)) ∧
      (∀ p space, ownedPages (update k.procs i p) (update spaces i space) = p.owned space + rest) ∧
      ∀ j < NPROC, j ≠ i → (k.procs j).owned (spaces j) ≤ rest := by
  obtain ⟨rest, whole, updated, others⟩ :=
    shares_split (fun i => (k.procs i).owned (spaces i)) lt
  refine ⟨rest, whole, ?_, fun p space => ?_, others⟩
  · rw [← add_assoc, ← whole]
    exact sound.balance
  · unfold ownedPages
    rw [← updated]
    exact congrArg (shares · NPROC)
      (funext (apply_update₂ (fun _ => Proc.owned) k.procs spaces i p space))

/-- A call changed one process and the pages that it holds. -/
theorem Sound.proc {p : Proc} {space : Option Space} {ram : Ram}
    (sound : k.Sound total free spaces pipes extra) (lt : i < NPROC)
    (moves : Moves k.ram free ((k.procs i).owned (spaces i)) ram free' (p.owned space))
    (ok : p.Ok space ram.mem) (handles : p.handles = (k.procs i).handles) :
    ((k.setProc i p).setRam ram).Sound total free' (update spaces i space) pipes extra := by
  obtain ⟨rest, whole, balance, updated, others⟩ := sound.split lt
  have moved := moves.extend (rest + pipes)
  have regroup : ownedPages ((k.setProc i p).setRam ram).procs (update spaces i space) +
      pipes = p.owned space + (rest + pipes) := by
    rw [← add_assoc, ← updated]
    rfl
  refine ⟨?_, ?_, ?_, ?_, ?_⟩
  · rw [regroup]
    exact balance.moves moved
  · rw [regroup, moved.conserve, ← add_assoc, ← add_assoc, add_assoc _ _ rest, ← whole, add_assoc]
    exact sound.conserve
  · intro j below
    change (update k.procs i p j).Ok (update spaces i space j) ram.mem
    by_cases same : j = i
    · subst same
      rwa [update_self, update_self]
    · rw [update_of_ne same, update_of_ne same]
      refine (sound.procs j below).frame fun page member => moves.rest_same balance ?_
      exact mem_add.mpr (.inl (mem_of_le (others j below same) member))
  · change FilesOk k.file (extra + allHandles (update k.procs i p))
    have unchanged : allHandles (update k.procs i p) = allHandles k.procs := by
      unfold allHandles
      rw [handles_update, handles]
      exact congrArg (shares · NPROC) (update_eq_self i _)
    rw [unchanged]
    exact sound.files
  · exact sound.pipes.frame fun page member =>
      moves.rest_same balance (mem_add.mpr (.inr member))

/-- A call changed the file table and the open pipes. -/
theorem Sound.table {ft : Ftable} {extra' : Multiset Nat}
    (sound : k.Sound total free spaces pipes extra)
    (files : FilesOk ft.file (extra' + allHandles k.procs))
    (pipesOk : PipesOk ft.file ft.ram.mem pipes')
    (moves : Moves k.ram free pipes ft.ram free' pipes') :
    (k.setFtable ft).Sound total free' spaces pipes' extra' := by
  have balance := sound.balance
  rw [add_comm] at balance
  have moved := moves.extend (ownedPages k.procs spaces)
  refine ⟨?_, ?_, fun j below => ?_, files, pipesOk⟩
  · rw [add_comm]
    exact balance.moves moved
  · rw [add_comm (ownedPages _ _)]
    refine moved.conserve.trans ?_
    rw [add_comm pipes]
    exact sound.conserve
  · refine (sound.procs j below).frame fun page member => moves.rest_same balance ?_
    exact mem_shares.mpr ⟨j, below, member⟩

omit [Layout] in
theorem setProc_self (k : Kernel) (i : Nat) : k.setProc i (k.procs i) = k := by
  unfold setProc
  rw [update_eq_self]

section

variable (sound : k.Sound total free spaces pipes extra) (lt : i < NPROC)

include sound lt

theorem Sound.live (inUse : (k.procs i).state ≠ .unused) :
    ∃ space, spaces i = some space ∧ (k.procs i).Live space k.ram.mem := by
  have ok := sound.procs i lt
  cases here : spaces i with
  | none =>
    rw [here] at ok
    exact absurd ok.state inUse
  | some space =>
    rw [here] at ok
    exact ⟨space, rfl, ok⟩

theorem Sound.idle (unused : (k.procs i).state = .unused) : (k.procs i).Idle ∧ spaces i = none := by
  have ok := sound.procs i lt
  cases here : spaces i with
  | none =>
    rw [here] at ok
    exact ⟨ok, rfl⟩
  | some space =>
    rw [here] at ok
    exact absurd unused ok.state

/-- The memory of a process in use, and everything else. -/
theorem Sound.space_balance {space : Space} (here : spaces i = some space) :
    Balance k.ram free space.owned := by
  obtain ⟨rest, -, balance, -⟩ := sound.split lt
  rw [here] at balance
  exact balance.part.part

theorem Sound.written {space : Space} {ram : Ram} (here : spaces i = some space)
    (holds : space.Holds ram.mem)
    (moves : Moves k.ram free space.owned ram free space.owned) :
    (k.setRam ram).Sound total free spaces pipes extra := by
  have ok := sound.procs i lt
  rw [here] at ok
  obtain ⟨trapframe, given, image⟩ := ok.image
  have wrote := @Sound.proc _ _ _ _ free _ _ _ _ (k.procs i) (some space) ram sound lt ?_
    { ok with image := ⟨trapframe, given, { image with holds := holds }⟩ } rfl
  · rwa [setProc_self, ← here, update_eq_self] at wrote
  · rw [here]
    exact moves.extend _

theorem Sound.copyout (inUse : (k.procs i).state ≠ .unused) :
    ∃ pagetable, (k.procs i).pagetable = some pagetable ∧ ∀ va src, ∃ copied ram,
      k.ram.copyout pagetable va src = .ok (copied, ram) ∧
      (k.setRam ram).Sound total free spaces pipes extra := by
  obtain ⟨space, here, live⟩ := sound.live lt inUse
  obtain ⟨trapframe, given, image⟩ := live.image
  refine ⟨space.root, live.pagetable, fun va src => ?_⟩
  obtain ⟨copied, ram, ran, holds, moves⟩ :=
    copyout_spec va src (sound.space_balance lt here) image.holds image.guarded
  exact ⟨copied, ram, ran, sound.written lt here holds moves⟩

end

end

end Kernel

end Xv6Rv32im.Process
