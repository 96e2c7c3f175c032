import Xv6Rv32im.Process.Descriptors
import Xv6Rv32im.Process.ExecImage

/-!
# The life of a process

`allocproc`, `freeproc`, `growproc`, `fork`, `wait` and `exec` keep the kernel sound
and reach no panic, whichever allocations fail.
-/

namespace Xv6Rv32im.Process

open Library.ByteWords Library.Shares Library.Run Vm Vm.Ram Function Multiset

/-! ## Slots -/

namespace Proc

variable {p : Proc} {ram : Ram} {free : List (BitVec 32)}

theorem Idle.owned (idle : p.Idle) : p.owned none = 0 := by
  unfold Proc.owned
  rw [idle.trapframe, idle.argv]
  rfl

def reset (p : Proc) : Proc :=
  { p with
    state := .unused
    xstate := 0
    pid := 0
    parent := none
    sz := 0
    pagetable := none
    trapframe := none
    name := [] }

theorem reset_idle (argv : p.argv = none) (closed : ∀ fd < NOFILE, p.ofile fd = none) :
    p.reset.Idle :=
  ⟨rfl, rfl, rfl, rfl, argv, closed⟩

variable [Layout] {trapframe : BitVec 32}

theorem free_empty (trapframe : p.trapframe = none) (pagetable : p.pagetable = none) :
    p.free ram = .ok (p.reset, ram) := by
  unfold Proc.free
  rw [trapframe, pagetable]
  rfl

theorem free_trapframe (balance : Balance ram free {trapframe})
    (given : p.trapframe = some trapframe) (pagetable : p.pagetable = none) :
    ∃ ram' free', p.free ram = .ok (p.reset, ram') ∧ Moves ram free {trapframe} ram' free' 0 := by
  rw [← cons_zero] at balance ⊢
  obtain ⟨ram', freed, -, moves⟩ := balance.kfree
  refine ⟨ram', _, ?_, moves⟩
  unfold Proc.free
  rw [given, pagetable]
  dsimp only
  rw [freed]
  rfl

theorem Live.freed {space : Space} (live : p.Live space ram.mem) (argv : p.argv = none)
    (balance : Balance ram free (p.owned (some space))) :
    ∃ ram' free', p.free ram = .ok (p.reset, ram') ∧
      Moves ram free (p.owned (some space)) ram' free' 0 := by
  obtain ⟨trapframe, given, image⟩ := live.image
  have owned : p.owned (some space) = trapframe ::ₘ space.owned := by
    unfold Proc.owned
    rw [given, argv, add_comm, ← singleton_add]
    rfl
  rw [owned] at balance ⊢
  obtain ⟨ram₁, freed, others, moves₁⟩ := balance.kfree
  have fresh := (nodup_cons.mp balance.held_nodup).1
  have image₁ : space.Image trapframe (pages p.sz) ram₁.mem :=
    image.frame fun page table => others page fun same =>
      fresh (same ▸ mem_add.mpr (.inl table))
  obtain ⟨ram₂, free₂, ran, moves₂⟩ := procFreepagetable_spec (balance.moves moves₁) image₁
  refine ⟨ram₂, free₂, ?_, moves₁.trans moves₂⟩
  unfold Proc.free
  rw [given, live.pagetable]
  dsimp only
  rw [freed]
  simp only [ok_bind]
  rw [ran]
  rfl

end Proc

namespace Kernel

variable [Layout] {k : Kernel} {total : Multiset (BitVec 32)} {free : List (BitVec 32)}
  {spaces : Nat → Option Space} {pipes : Multiset (BitVec 32)} {extra : Multiset Nat} {i j : Nat}

theorem Sound.freeproc {space : Space} (sound : k.Sound total free spaces pipes 0)
    (lt : j < NPROC) (here : spaces j = some space) (argv : (k.procs j).argv = none)
    (closed : ∀ fd < NOFILE, (k.procs j).ofile fd = none) :
    ∃ k' free', k.freeproc j = .ok k' ∧ k'.Safe total ∧ (k'.procs j).state = .unused ∧
      Moves k.ram free ((k.procs j).owned (spaces j)) k'.ram free' 0 := by
  obtain ⟨rest, -, balance, -⟩ := sound.split lt
  have live := sound.procs j lt
  rw [here] at live balance ⊢
  have live : (k.procs j).Live space k.ram.mem := live
  obtain ⟨ram, free', freed, moves⟩ := live.freed argv balance.part
  have idle := Proc.reset_idle argv closed
  unfold Kernel.freeproc
  rw [freed]
  refine ⟨_, free', rfl, ⟨free', _, pipes, sound.proc lt ?_ (show Proc.Ok _ none _ from idle) rfl⟩,
    (congrArg Proc.state (update_self ..)).trans idle.state, moves⟩
  rw [here, idle.owned]
  exact moves

structure Allocated (k : Kernel) (i : Nat) (k' : Kernel) (j : Nat) : Prop where
  slot : j < NPROC
  state : (k'.procs j).state = .used
  sz : (k'.procs j).sz = 0
  argv : (k'.procs j).argv = none
  closed : ∀ fd < NOFILE, (k'.procs j).ofile fd = none
  other : (k.procs i).state ≠ .unused → j ≠ i ∧ k'.procs i = k.procs i

theorem Sound.setNextpid (sound : k.Sound total free spaces pipes extra) (pid : BitVec 32) :
    { k with nextpid := pid }.Sound total free spaces pipes extra :=
  ⟨sound.balance, sound.conserve, sound.procs, sound.files, sound.pipes⟩

theorem Sound.allocSlot (sound : k.Sound total free spaces pipes 0) (lt : j < NPROC)
    (unused : (k.procs j).state = .unused) :
    (∃ k', k.allocSlot j = .ok (none, k') ∧ k'.Safe total) ∨
    ∃ k' free' space, k.allocSlot j = .ok (some j, k') ∧ Allocated k i k' j ∧
      k'.Sound total free' (update spaces j (some space)) pipes 0 := by
  obtain ⟨idle, vacant⟩ := sound.idle lt unused
  have nothing : (k.procs j).owned (spaces j) = 0 := by
    rw [vacant, idle.owned]
  obtain ⟨rest, -, balance, -⟩ := sound.split lt
  rw [nothing] at balance
  replace balance := balance.part
  -- The slot after a failure, whatever the pages were given back from.
  have failed {p : Proc} {ram} {free'} (argv : p.argv = none)
      (ofile : p.ofile = (k.procs j).ofile) (moves : Moves k.ram free 0 ram free' 0) :
      (({ k with nextpid := k.nextpid + 1 }.setProc j p.reset).setRam ram).Safe total := by
    have empty : p.reset.Idle := Proc.reset_idle argv (ofile ▸ idle.ofile)
    refine ⟨free', _, pipes, (sound.setNextpid _).proc lt ?_ (show Proc.Ok _ none _ from empty) ?_⟩
    · rw [empty.owned]
      exact nothing.symm ▸ moves
    · unfold Proc.handles
      rw [show p.reset.ofile = (k.procs j).ofile from ofile]
  unfold Kernel.allocSlot
  dsimp only
  obtain ⟨ram₁, denied, -, moves₁⟩ | ⟨trapframe, others, ram₁, rfl, given, -, moves₁⟩ :=
    balance.kalloc
  · rw [denied]
    dsimp only
    rw [Proc.free_empty (p := { k.procs j with
      pid := k.nextpid, state := .used, trapframe := none }) rfl idle.pagetable]
    exact .inl ⟨_, rfl, failed idle.argv rfl moves₁⟩
  rw [given]
  dsimp only
  have balance₁ := balance.moves moves₁
  have aligned := (balance₁.held_managed (mem_cons_self trapframe 0)).1
  rw [cons_zero] at moves₁ balance₁
  rw [← zero_add ({trapframe} : Multiset _)] at balance₁
  obtain ⟨ram₂, free₂, ran, moves₂⟩ | ⟨space, ram₂, free₂, ran, image, moves₂⟩ :=
    procPagetable_spec balance₁.part aligned
  · have moves₂ := moves₂.extend {trapframe}
    rw [zero_add] at moves₂ balance₁
    obtain ⟨ram₃, free₃, freed, moves₃⟩ := Proc.free_trapframe (p := { k.procs j with
        pid := k.nextpid, state := .used, trapframe := some trapframe, pagetable := none })
      (balance₁.moves moves₂) rfl rfl
    rw [ran]
    simp only [ok_bind]
    rw [freed]
    exact .inl ⟨_, rfl, failed idle.argv rfl (moves₁.trans (moves₂.trans moves₃))⟩
  · have moves₂ := moves₂.extend {trapframe}
    rw [zero_add] at moves₂
    rw [ran]
    refine .inr ⟨_, free₂, space, rfl, ⟨lt, ?_, ?_, ?_, ?_, ?_⟩,
      (sound.setNextpid _).proc lt ?_ (show Proc.Ok _ _ _ from
        ⟨nofun, rfl, ⟨trapframe, rfl, ?_⟩, nofun⟩) rfl⟩
    · simp [setProc, setRam]
    · simpa [setProc, setRam] using idle.sz
    · simpa [setProc, setRam] using idle.argv
    · simpa [setProc, setRam] using idle.ofile
    · intro inUse
      have ne : j ≠ i := by
        rintro rfl
        exact inUse unused
      exact ⟨ne, update_of_ne ne.symm ..⟩
    · have owned : Proc.owned { k.procs j with
          pid := k.nextpid
          state := .used
          trapframe := some trapframe
          pagetable := some space.root } (some space) =
          space.owned + {trapframe} := by
        unfold Proc.owned
        rw [idle.argv]
        rfl
      rw [owned]
      exact nothing.symm ▸ moves₁.trans moves₂
    · exact idle.sz ▸ image

theorem Sound.allocproc (i : Nat) (sound : k.Sound total free spaces pipes 0) :
    (∃ k', k.allocproc = .ok (none, k') ∧ k'.Safe total) ∨
    ∃ j k' free' space, k.allocproc = .ok (some j, k') ∧ Allocated k i k' j ∧
      k'.Sound total free' (update spaces j (some space)) pipes 0 := by
  unfold Kernel.allocproc
  cases found : (List.range NPROC).find? fun j => (k.procs j).state = .unused with
  | none => exact .inl ⟨k, rfl, free, spaces, pipes, sound⟩
  | some j =>
    have lt := List.mem_range.mp (List.mem_of_find?_eq_some found)
    have unused : (k.procs j).state = .unused := by simpa using List.find?_some found
    obtain failed | ⟨k', free', space, done⟩ := sound.allocSlot lt unused
    · exact .inl failed
    · exact .inr ⟨j, k', free', space, done⟩

/-! ## Size -/

theorem Sound.resize {space space' : Space} {trapframe sz : BitVec 32} {ram : Ram}
    {free' : List (BitVec 32)} (sound : k.Sound total free spaces pipes extra) (lt : i < NPROC)
    (here : spaces i = some space) (given : (k.procs i).trapframe = some trapframe)
    (root : space'.root = space.root) (image : space'.Image trapframe (pages sz) ram.mem)
    (moves : Moves k.ram free space.owned ram free' space'.owned) :
    ((k.setProc i { k.procs i with sz := sz }).setRam ram).Sound total free'
      (update spaces i (some space')) pipes extra := by
  have live := sound.procs i lt
  rw [here] at live
  refine sound.proc lt ?_ (show Proc.Ok _ _ _ from
    ⟨live.state, ?_, ⟨trapframe, given, image⟩, live.zombie⟩) rfl
  · rw [here]
    exact moves.extend _
  · rw [root]
    exact live.pagetable

theorem sysSbrk_spec (n : BitVec 32) (safe : k.Safe total) (lt : i < NPROC)
    (runs : (k.procs i).state = .runnable) :
    ∃ result k', k.sysSbrk i n = .ok (result, k') ∧ k'.Safe total := by
  obtain ⟨free, spaces, pipes, sound⟩ := safe
  obtain ⟨space, here, live⟩ := sound.live lt (runs ▸ nofun)
  obtain ⟨trapframe, given, image⟩ := live.image
  have balance := sound.space_balance lt here
  suffices grew : ∃ result k', k.growproc i n = .ok (result, k') ∧ k'.Safe total by
    obtain ⟨result, k', ran, safe⟩ := grew
    unfold sysSbrk
    rw [ran]
    simp only [ok_bind]
    by_cases failed : result.toInt < 0
    · rw [if_pos failed]
      exact ⟨_, k', rfl, safe⟩
    · rw [if_neg failed]
      exact ⟨_, k', rfl, safe⟩
  unfold growproc
  dsimp only
  split
  next absent =>
    rw [live.pagetable] at absent
    cases absent
  next pagetable table =>
  obtain rfl : space.root = pagetable := Option.some.inj (live.pagetable.symm.trans table)
  by_cases more : 0 < n.toInt
  · rw [if_pos more]
    obtain ⟨size, space', ram, free', ran, result⟩ :=
      @uvmalloc_loaded _ _ _ _ _ (k.procs i).sz _ balance image
    rw [ran]
    simp only [ok_bind]
    by_cases failed : size = 0
    · -- The address space is as large as before.
      have loaded : Loaded k.ram free space trapframe ram free' space' (pages (k.procs i).sz) := by
        obtain ⟨rfl, -, loaded⟩ | ⟨-, -, loaded⟩ := result
        · have le := (le_allocSize (k.procs i).sz ((k.procs i).sz + n)).1
          rw [failed] at le loaded
          rwa [show (k.procs i).sz = 0 by bv_omega]
        · exact loaded
      have sound' := sound.resize lt here given loaded.root loaded.image loaded.moves
      rw [show { k.procs i with sz := (k.procs i).sz } = k.procs i from rfl, setProc_self] at sound'
      rw [if_pos failed]
      exact ⟨_, _, rfl, free', _, pipes, sound'⟩
    · obtain ⟨-, -, loaded⟩ | ⟨zero, -⟩ := result
      · rw [if_neg failed]
        exact ⟨_, _, rfl, free', _, pipes,
          sound.resize lt here given loaded.root loaded.image loaded.moves⟩
      · exact absurd zero failed
  rw [if_neg more]
  by_cases less : n.toInt < 0
  · obtain ⟨size, space', ram, free', ran, loaded⟩ :=
      @uvmdealloc_loaded _ _ _ _ _ (k.procs i).sz ((k.procs i).sz + n) balance image
    rw [if_pos less, ran]
    exact ⟨_, _, rfl, free', _, pipes,
      sound.resize lt here given loaded.root loaded.image loaded.moves⟩
  · rw [if_neg less]
    exact ⟨_, _, rfl, free, spaces, pipes, sound⟩

/-! ## `fork` -/

theorem Sound.writeTrapframe (bytes : Bytes) (sound : k.Sound total free spaces pipes extra)
    (lt : i < NPROC) (inUse : (k.procs i).state ≠ .unused)
    (given : (k.procs i).trapframe = some trapframe) :
    (k.setRam (k.ram.setPage trapframe bytes)).Sound total free spaces pipes extra := by
  obtain ⟨space, here, live⟩ := sound.live lt inUse
  obtain ⟨rest, -, balance, -⟩ := sound.split lt
  have member : trapframe ∈ held (k.procs i).trapframe + ↑((k.procs i).argv.getD []) :=
    mem_add.mpr (.inl (mem_held.mpr given))
  have ok : (k.procs i).Ok (some space) (k.ram.setPage trapframe bytes).mem := by
    obtain ⟨trapframe', given', image⟩ := live.image
    refine { live with image := ⟨trapframe', given', image.frame fun page table => ?_⟩ }
    refine setPage_mem_of_ne _ ?_
    rintro rfl
    rw [here] at balance
    exact disjoint_left.mp (nodup_add.mp balance.part.held_nodup).2.2
      (mem_add.mpr (.inl table)) member
  have wrote := sound.proc lt
    (balance.part.setPage (mem_add.mpr (.inr member)) bytes) (here.symm ▸ ok) rfl
  rwa [setProc_self, update_eq_self] at wrote

theorem Sound.setReg (offset : Nat) (word : BitVec 32)
    (sound : k.Sound total free spaces pipes extra) (lt : i < NPROC)
    (inUse : (k.procs i).state ≠ .unused) (given : (k.procs i).trapframe = some trapframe) :
    (k.setRam (k.ram.setReg trapframe offset word)).Sound total free spaces pipes extra :=
  sound.writeTrapframe _ lt inUse given

theorem Sound.moveTrapframe (offset : Nat) (src : List (BitVec 8))
    (sound : k.Sound total free spaces pipes extra) (lt : i < NPROC)
    (inUse : (k.procs i).state ≠ .unused) (given : (k.procs i).trapframe = some trapframe) :
    (k.setRam (k.ram.memmove trapframe offset src)).Sound total free spaces pipes extra :=
  sound.writeTrapframe _ lt inUse given

/-- What the descriptors loop of `fork` keeps, before descriptor `fd`. -/
def Forking (total : Multiset (BitVec 32)) (p : Proc) (i j fd : Nat) (k : Kernel) : Prop :=
  k.Safe total ∧ k.procs i = p ∧ (k.procs j).state = .used ∧
    ∀ fd', fd ≤ fd' → fd' < NOFILE → (k.procs j).ofile fd' = none

theorem forkFile_spec {p : Proc} {fd : Nat} (forking : Forking total p i j fd k)
    (lt : i < NPROC) (slot : j < NPROC) (ne : j ≠ i) (small : fd < NOFILE) :
    ∃ k', forkFile i j k fd = .ok k' ∧ Forking total p i j (fd + 1) k' := by
  obtain ⟨⟨free, spaces, pipes, sound⟩, same, used, vacant⟩ := forking
  unfold forkFile
  cases here : (k.procs i).ofile fd with
  | none =>
    exact ⟨k, rfl, ⟨free, spaces, pipes, sound⟩, same, used, fun fd' above => vacant fd' (by omega)⟩
  | some f =>
    obtain ⟨ft, ran, sound'⟩ := sound.filedup (mem_allHandles lt small here)
    have sound'' := sound'.setFd slot small (vacant fd (le_refl fd) small) (used ▸ nofun)
      (used ▸ nofun)
    dsimp only
    rw [ran]
    refine ⟨_, rfl, ⟨free, spaces, pipes, sound''⟩, ?_, ?_, fun fd' above below => ?_⟩
    · exact (update_of_ne ne.symm ..).trans same
    · simpa [setProc, setFtable] using used
    · have other : fd' ≠ fd := by omega
      simpa [setProc, setFtable, update_of_ne other] using vacant fd' (by omega) below

theorem fork_spec (safe : k.Safe total) (lt : i < NPROC) (runs : (k.procs i).state = .runnable) :
    ∃ result k', k.fork i = .ok (result, k') ∧ k'.Safe total := by
  obtain ⟨free, spaces, pipes, sound⟩ := safe
  unfold fork
  obtain ⟨k', failed, safe⟩ | ⟨j, k₁, free₁, child, alloc, allocated, sound₁⟩ := sound.allocproc i
  · rw [failed]
    exact ⟨_, k', rfl, safe⟩
  rw [alloc]
  simp only [ok_bind]
  obtain ⟨ne, same⟩ := allocated.other (by simp [runs])
  have runs₁ : (k₁.procs i).state = .runnable := same ▸ runs
  -- The address spaces of parent and child.
  obtain ⟨parent, here, live⟩ := sound₁.live lt (by simp [runs₁])
  obtain ⟨trapframe, given, image⟩ := live.image
  have here' : update spaces j (some child) j = some child := update_self ..
  have live' := sound₁.procs j allocated.slot
  rw [here'] at live'
  obtain ⟨trapframe', given', image'⟩ := live'.image
  rw [allocated.sz] at image'
  obtain ⟨rest, -, balance, -, others⟩ := sound₁.split allocated.slot
  rw [here'] at balance
  have balance : Balance k₁.ram free₁ (child.owned +
      (held (k₁.procs j).trapframe + ↑((k₁.procs j).argv.getD []) + (rest + pipes))) := by
    rw [← add_assoc]
    exact balance
  have apart : ∀ page ∈ parent.tables,
      page ∈ held (k₁.procs j).trapframe + ↑((k₁.procs j).argv.getD []) + (rest + pipes) := by
    intro page table
    refine mem_add.mpr (.inr (mem_add.mpr (.inl ?_)))
    refine mem_of_le (others i lt ne.symm) ?_
    rw [here]
    exact mem_add.mpr (.inl (mem_add.mpr (.inl table)))
  split
  case h_2 absent =>
    exact absurd given' (absent _ _ _ _ live.pagetable given live'.pagetable)
  case h_1 old tf new tf' table tfGiven table' tfGiven' =>
  obtain rfl : parent.root = old := Option.some.inj (live.pagetable.symm.trans table)
  obtain rfl : child.root = new := Option.some.inj (live'.pagetable.symm.trans table')
  obtain rfl : trapframe' = tf' := Option.some.inj (given'.symm.trans tfGiven')
  have few := image.mapped.le_maxpages (sound₁.space_balance lt here)
  obtain ⟨copied, space, ram, free₂, ran, result, holds, moves⟩ :=
    uvmcopyFrom_spec (i := 0) balance image'.holds image.holds apart image.mapped image'.mapped
      (.refl ..) (Nat.zero_le _) rfl few (le_refl (2 ^ 20 + 0))
  unfold uvmcopy
  rw [ran]
  simp only [ok_bind]
  obtain ⟨rfl, grown⟩ | ⟨rfl, grown⟩ := result
  · have sound₂ := sound₁.resize allocated.slot here' given' grown.root
      (image'.regrown grown (Nat.zero_le _) image.mapped.1 holds) moves
    have child₂ : (((k₁.setProc j { k₁.procs j with sz := (k₁.procs i).sz }).setRam ram).procs j) =
        { k₁.procs j with sz := (k₁.procs i).sz } := update_self ..
    have used₂ : (((k₁.setProc j { k₁.procs j with sz := (k₁.procs i).sz }).setRam ram).procs
        j).state ≠ .unused := by
      rw [child₂]
      simp [allocated.state]
    have given₂ : (((k₁.setProc j { k₁.procs j with sz := (k₁.procs i).sz }).setRam ram).procs
        j).trapframe = some trapframe' := by
      rw [child₂]
      exact given'
    have sound₃ := (sound₂.moveTrapframe 0 (ram.read tf 0 trapframeSize) allocated.slot used₂
      given₂).setReg a0Offset 0 allocated.slot used₂ given₂
    have start : Forking total (k₁.procs i) i j 0
        ((k₁.setProc j { k₁.procs j with sz := (k₁.procs i).sz }).setRam
          ((ram.memmove trapframe' 0 _).setReg trapframe' a0Offset 0)) :=
      ⟨⟨free₂, _, pipes, sound₃⟩, update_of_ne ne.symm .., by
        simpa [setProc, setRam] using allocated.state, fun fd _ small => by
        simpa [setProc, setRam] using allocated.closed fd small⟩
    obtain ⟨k₄, ran₄, ⟨free₄, spaces₄, pipes₄, sound₄⟩, -, used₄, -⟩ :=
      foldlM_range (forkFile i j) _ start
        (fun fd small k' forking => forkFile_spec forking lt allocated.slot ne small)
        (le_refl NOFILE)
    rw [if_pos rfl, ran₄]
    refine ⟨_, _, rfl, free₄, spaces₄, pipes₄,
      sound₄.rehandle allocated.slot (fun _ => rfl) (fun space mem ok => ?_) rfl⟩
    cases space with
    | none => exact absurd (used₄.symm.trans ok.state) (by simp)
    | some space => exact ⟨by simp, ok.pagetable, ok.image, by simp⟩
  · have sound₂ := sound₁.resize allocated.slot here' given' grown.root
      (show space.Image trapframe' (pages (k₁.procs j).sz) ram.mem from
        allocated.sz ▸ image'.regrown grown (Nat.zero_le _) (Nat.zero_le _) holds) moves
    rw [show { k₁.procs j with sz := (k₁.procs j).sz } = k₁.procs j from rfl, setProc_self]
      at sound₂
    obtain ⟨k₃, -, ran₃, safe₃, -⟩ :=
      sound₂.freeproc allocated.slot (update_self ..) allocated.argv allocated.closed
    rw [if_neg Bool.false_ne_true, ran₃]
    exact ⟨_, k₃, rfl, safe₃⟩

/-! ## `wait` -/

/-- A child that has exited and was not waited for. -/
def ZombieChild (k : Kernel) (i j : Nat) (pid : BitVec 32) : Prop :=
  (k.procs j).parent = some i ∧ (k.procs j).state = .zombie ∧ (k.procs j).pid = pid

/-- A pid is that of a child whose slot and whose pages are free now. -/
theorem wait_spec (addr : BitVec 32) (sound : k.Sound total free spaces pipes 0) (lt : i < NPROC)
    (runs : (k.procs i).state = .runnable) :
    ∃ result k', k.wait i addr = .ok (result, k') ∧ k'.Safe total ∧ (result ≠ -1 →
      ∃ j < NPROC, k.ZombieChild i j result ∧ (k'.procs j).state = .unused ∧
        ∃ free', FreeChain k'.ram.mem k'.ram.freelist free' ∧
          (↑free' : Multiset (BitVec 32)) = ↑free + (k.procs j).owned (spaces j)) := by
  unfold wait
  cases found : (List.range NPROC).find? fun j =>
      (k.procs j).parent = some i ∧ (k.procs j).state = .zombie with
  | none => exact ⟨_, k, rfl, ⟨free, spaces, pipes, sound⟩, (absurd rfl ·)⟩
  | some j =>
    have slot := List.mem_range.mp (List.mem_of_find?_eq_some found)
    obtain ⟨child, zombie⟩ : (k.procs j).parent = some i ∧ (k.procs j).state = .zombie := by
      simpa using List.find?_some found
    have reap {ram} (sound' : (k.setRam ram).Sound total free spaces pipes 0) :
        ∃ k', (k.setRam ram).freeproc j = .ok k' ∧ k'.Safe total ∧ (k'.procs j).state = .unused ∧
          ∃ free', FreeChain k'.ram.mem k'.ram.freelist free' ∧
            (↑free' : Multiset (BitVec 32)) = ↑free + (k.procs j).owned (spaces j) := by
      obtain ⟨space, here, live⟩ := sound'.live slot (zombie ▸ nofun)
      obtain ⟨argv, closed⟩ := live.zombie zombie
      obtain ⟨k', free', freed, safe, unused, moves⟩ := sound'.freeproc slot here argv closed
      exact ⟨k', freed, safe, unused, free', moves.chain,
        (add_zero _).symm.trans moves.conserve⟩
    obtain ⟨pagetable, table, copy⟩ := sound.copyout lt (runs ▸ nofun)
    rw [table]
    dsimp only
    by_cases report : addr ≠ 0
    · obtain ⟨copied, ram, ran, sound'⟩ := copy addr _
      rw [if_pos report, ran]
      simp only [ok_bind]
      cases copied with
      | false => exact ⟨_, _, rfl, ⟨free, spaces, pipes, sound'⟩, (absurd rfl ·)⟩
      | true =>
        obtain ⟨k', freed, safe, reaped⟩ := reap sound'
        rw [if_pos rfl, freed]
        exact ⟨_, k', rfl, safe, fun _ => ⟨j, slot, ⟨child, zombie, rfl⟩, reaped⟩⟩
    · obtain ⟨k', freed, safe, reaped⟩ := @reap k.ram sound
      rw [if_neg report, show k.freeproc j = .ok k' from freed]
      exact ⟨_, k', rfl, safe, fun _ => ⟨j, slot, ⟨child, zombie, rfl⟩, reaped⟩⟩

end Kernel

end Xv6Rv32im.Process
