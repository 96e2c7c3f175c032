import Xv6Rv32im.Process.Lifecycle

/-!
# `exec` is safe

`sys_exec` holds the argument pages and `exec` a second address space.  On every path
all of them are given back or become the new memory of the process.
-/

namespace Xv6Rv32im.Process.Kernel

open Library.ByteWords Library.Shares Library.Run Vm Vm.Ram Function Multiset

variable [Layout] {k : Kernel} {total : Multiset (BitVec 32)} {free : List (BitVec 32)}
  {spaces : Nat → Option Space} {pipes : Multiset (BitVec 32)} {extra : Multiset Nat} {i : Nat}
  {free' : List (BitVec 32)} {ram : Ram} {space : Space}

/-! ## The argument pages -/

/-- The kernel in which the pages that `sys_exec` has so far count as the process's. -/
def withArgv (k : Kernel) (i : Nat) (argv : List (BitVec 32)) : Kernel :=
  k.setProc i { k.procs i with argv := some argv }

omit [Layout] in
theorem withArgv_procs (k : Kernel) (i : Nat) (argv : List (BitVec 32)) :
    (k.withArgv i argv).procs i = { k.procs i with argv := some argv } :=
  update_self ..

/-- The pages of the arguments changed, and nothing else that the process holds. -/
theorem Sound.argv {argv argv' : List (BitVec 32)}
    (sound : (k.withArgv i argv).Sound total free spaces pipes extra) (lt : i < NPROC)
    (inUse : (k.procs i).state = .runnable)
    (moves : Moves k.ram free (((k.withArgv i argv).procs i).owned (spaces i)) ram free'
      (((k.withArgv i argv').procs i).owned (spaces i)))
    (same : ∀ page ∈ spacePages (spaces i), ram.mem page = k.ram.mem page) :
    ((k.setRam ram).withArgv i argv').Sound total free' spaces pipes extra := by
  have state : ((k.withArgv i argv).procs i).state = .runnable := by
    rw [withArgv_procs]
    exact inUse
  obtain ⟨space, here, live⟩ := sound.live lt (state ▸ nofun)
  have changed := sound.proc (p := (k.withArgv i argv').procs i) lt moves
    (show Proc.Ok _ _ ram.mem by
      rw [here] at same ⊢
      obtain ⟨trapframe, given, image⟩ := live.image
      rw [withArgv_procs] at live given ⊢
      exact ⟨live.state, live.pagetable, ⟨trapframe, given, (withArgv_procs k i argv ▸ image).frame
        fun page table => same page (mem_add.mpr (.inl table))⟩,
        fun zombie => absurd (inUse.symm.trans zombie) nofun⟩) (by
      rw [withArgv_procs, withArgv_procs]
      rfl)
  rw [update_eq_self] at changed
  convert changed using 1
  unfold withArgv setProc setRam
  simp only [update_self, update_idem]

omit [Layout] in
theorem fetchaddr_total (addr : BitVec 32) (table : (k.procs i).pagetable = some space.root)
    (holds : space.Holds k.ram.mem) : ∃ word, k.fetchaddr i addr = .ok word := by
  unfold fetchaddr
  dsimp only
  split
  · exact ⟨none, rfl⟩
  rw [table]
  obtain ⟨bytes, ran⟩ := copyinFrom_total addr [] holds (le_refl 4)
  dsimp only [copyin]
  rw [ran]
  exact ⟨_, rfl⟩

omit [Layout] in
theorem owned_withArgv (k : Kernel) (i : Nat) (argv : List (BitVec 32)) (space : Option Space) :
    ((k.withArgv i argv).procs i).owned space =
      spacePages space + held (k.procs i).trapframe + ↑argv := by
  rw [withArgv_procs, add_assoc]
  rfl

theorem fetchArgv_spec {uargv : BitVec 32} {remaining : Nat} {argv : List (BitVec 32)}
    (sound : (k.withArgv i argv).Sound total free spaces pipes 0) (lt : i < NPROC)
    (runs : (k.procs i).state = .runnable) :
    ∃ fetched argv' k' free', fetchArgv i uargv remaining k argv = .ok (fetched, argv', k') ∧
      k'.procs = k.procs ∧ (k'.withArgv i argv').Sound total free' spaces pipes 0 := by
  induction remaining generalizing k free argv with
  | zero => exact ⟨false, argv, k, free, rfl, rfl, sound⟩
  | succ remaining ih =>
    have state : ((k.withArgv i argv).procs i).state ≠ .unused := by
      rw [withArgv_procs]
      exact runs ▸ nofun
    obtain ⟨space, here, live⟩ := sound.live lt state
    obtain ⟨trapframe, -, image⟩ := live.image
    have table := live.pagetable
    rw [withArgv_procs] at table
    obtain ⟨word, fetched⟩ := fetchaddr_total _ table image.holds
    rw [fetchArgv, fetched]
    simp only [ok_bind]
    cases word with
    | none => exact ⟨false, argv, k, free, rfl, rfl, sound⟩
    | some uarg =>
      dsimp only
      by_cases last : uarg = 0
      · rw [if_pos last]
        exact ⟨true, argv, k, free, rfl, rfl, sound⟩
      rw [if_neg last]
      obtain ⟨rest, -, balance, -⟩ := sound.split lt
      obtain ⟨ram, denied, same, moves⟩ |
          ⟨page, others, ram, rfl, given, -, fresh, kept, moves⟩ := balance.part.kalloc_fill
      · have denied : k.ram.kalloc = (none, ram) := denied
        rw [denied]
        exact ⟨false, argv, k.setRam ram, free, rfl, rfl,
          sound.argv lt runs moves fun page _ => congrFun same page⟩
      have given : k.ram.kalloc = (some page, ram) := given
      have apart other (member : other ∈ spacePages (spaces i)) : other ≠ page := by
        rintro rfl
        exact fresh (mem_add.mpr (.inl member))
      have holds' : space.Holds ram.mem := image.holds.frame fun other member =>
        kept other (apart other (here ▸ mem_add.mpr (.inl member)))
      obtain ⟨⟨complete, bytes⟩, copied⟩ :=
        copyinstrFrom_total uarg [] holds' (le_refl PGSIZE)
      have grown : page ::ₘ ((k.withArgv i argv).procs i).owned (spaces i) =
          ((k.withArgv i (argv ++ [page])).procs i).owned (spaces i) := by
        rw [owned_withArgv, owned_withArgv, ← coe_add, ← add_assoc, ← singleton_add]
        exact add_comm _ _
      have sound' : ((k.setRam (ram.memmove page 0 bytes)).withArgv i (argv ++ [page])).Sound
          total others spaces pipes 0 := by
        refine sound.argv lt runs (grown ▸ moves _) fun other member => ?_
        exact (setPage_mem_of_ne _ (apart other member)).trans (kept other (apart other member))
      rw [given]
      rw [table]
      dsimp only [copyinstr]
      rw [copied]
      simp only [ok_bind]
      cases complete with
      | false => exact ⟨false, argv ++ [page], _, others, rfl, rfl, sound'⟩
      | true =>
        rw [if_pos rfl]
        exact ih sound' runs

theorem freeArgv_spec {argv : List (BitVec 32)}
    (sound : (k.withArgv i argv).Sound total free spaces pipes 0) (lt : i < NPROC)
    (runs : (k.procs i).state = .runnable) :
    ∃ ram free', k.freeArgv argv = .ok (k.setRam ram) ∧
      ((k.setRam ram).withArgv i []).Sound total free' spaces pipes 0 := by
  suffices freed : ∃ ram free', argv.foldlM Ram.kfree k.ram = .ok ram ∧
      ((k.setRam ram).withArgv i []).Sound total free' spaces pipes 0 by
    obtain ⟨ram, free', ran, sound'⟩ := freed
    refine ⟨ram, free', ?_, sound'⟩
    unfold freeArgv
    rw [ran]
    rfl
  induction argv generalizing k free with
  | nil => exact ⟨k.ram, free, rfl, sound⟩
  | cons page argv ih =>
    obtain ⟨rest, -, balance, -⟩ := sound.split lt
    have shrunk : ((k.withArgv i (page :: argv)).procs i).owned (spaces i) =
        page ::ₘ ((k.withArgv i argv).procs i).owned (spaces i) := by
      rw [owned_withArgv, owned_withArgv, ← cons_coe, add_cons]
    have balance := balance.part
    rw [shrunk] at balance
    obtain ⟨ram, freed, others, moves⟩ := balance.kfree
    have freed : k.ram.kfree page = .ok ram := freed
    have fresh := (nodup_cons.mp balance.held_nodup).1
    have sound' := sound.argv lt runs (shrunk ▸ moves) fun other member => others other (by
      rintro rfl
      exact fresh (mem_add.mpr (.inl member)))
    obtain ⟨ram', free', ran, sound''⟩ := ih sound' runs
    refine ⟨ram', free', ?_, sound''⟩
    rw [List.foldlM_cons, freed]
    exact ran

theorem Sound.noArgv (sound : (k.withArgv i []).Sound total free spaces pipes 0)
    (lt : i < NPROC) (runs : (k.procs i).state = .runnable) :
    (k.setProc i { k.procs i with argv := none }).Sound total free spaces pipes 0 := by
  have changed : ((k.withArgv i []).setProc i { k.procs i with argv := none }).Sound total free
      spaces pipes 0 := sound.rehandle lt (fun space => ?_) (fun space mem ok => ?_) ?_
  · convert changed using 1
    unfold withArgv setProc
    simp only [update_idem]
  · rw [withArgv_procs]
    rfl
  · rw [withArgv_procs] at ok
    cases space with
    | none => exact absurd (runs.symm.trans ok.state) nofun
    | some space =>
      exact ⟨ok.state, ok.pagetable, ok.image, fun zombie => absurd (runs.symm.trans zombie) nofun⟩
  · rw [withArgv_procs]
    rfl

theorem sysExecFetch_spec (uargv : BitVec 32) (safe : k.Safe total) (lt : i < NPROC)
    (runs : (k.procs i).state = .runnable) (ready : (k.procs i).argv = none) :
    ∃ result k', k.sysExecFetch i uargv = .ok (result, k') ∧ k'.Safe total := by
  obtain ⟨free, spaces, pipes, sound⟩ := safe
  have start : (k.withArgv i []).Sound total free spaces pipes 0 := by
    refine sound.rehandle lt (fun space => ?_) (fun space mem ok => ?_) rfl
    · unfold Proc.owned
      rw [ready]
      rfl
    cases space with
    | none => exact absurd (runs.symm.trans ok.state) nofun
    | some space =>
      exact ⟨ok.state, ok.pagetable, ok.image, fun zombie => absurd (runs.symm.trans zombie) nofun⟩
  obtain ⟨fetched, argv, k₁, free₁, ran, same, sound₁⟩ :=
    @fetchArgv_spec _ _ _ _ _ _ _ uargv MAXARG _ start lt runs
  have runs₁ : (k₁.procs i).state = .runnable := same ▸ runs
  unfold sysExecFetch
  rw [ran]
  simp only [ok_bind]
  cases fetched with
  | true => exact ⟨_, _, rfl, free₁, spaces, pipes, sound₁⟩
  | false =>
    obtain ⟨ram, free₂, freed, sound₂⟩ := freeArgv_spec sound₁ lt runs₁
    rw [if_neg Bool.false_ne_true, freed]
    refine ⟨_, _, rfl, free₂, spaces, pipes, ?_⟩
    have done := sound₂.noArgv lt runs₁
    have unchanged : { (k₁.setRam ram).procs i with argv := none } = (k₁.setRam ram).procs i := by
      have empty : (k₁.procs i).argv = none := same ▸ ready
      change { k₁.procs i with argv := none } = k₁.procs i
      rw [← empty]
    rwa [unchanged, setProc_self] at done

/-! ## `exec` -/

section

variable (sound : k.Sound total free spaces pipes 0) (lt : i < NPROC)

include sound lt

theorem Sound.restored (moves : Moves k.ram free 0 ram free' 0) : (k.setRam ram).Safe total := by
  obtain ⟨rest, -, balance, -⟩ := sound.split lt
  rw [← zero_add ((k.procs i).owned _), add_assoc] at balance
  have whole := moves.extend ((k.procs i).owned (spaces i))
  rw [zero_add] at whole
  have kept := sound.proc lt whole ((sound.procs i lt).frame fun page member =>
    moves.rest_same balance (mem_add.mpr (.inl member))) rfl
  rw [setProc_self, update_eq_self] at kept
  exact ⟨free', spaces, pipes, kept⟩

/-- The error path of `exec`: the new address space goes. -/
theorem Sound.execBad {trapframe sz : BitVec 32} (image : space.Image trapframe (pages sz) ram.mem)
    (moves : Moves k.ram free 0 ram free' space.owned) :
    ∃ result ram', k.execBad ram space.root sz = .ok (result, k.setRam ram') ∧
      (k.setRam ram').Safe total := by
  have balance := sound.balance
  rw [← zero_add (ownedPages _ _ + pipes)] at balance
  obtain ⟨ram', free'', freed, moves'⟩ :=
    procFreepagetable_spec (balance.part.moves moves) image
  refine ⟨-1, ram', ?_, sound.restored lt (moves.trans moves')⟩
  unfold Kernel.execBad
  rw [freed]
  rfl

end

/-- `exec` commits: the new address space replaces the old one, and the registers in the
trapframe are set. -/
theorem Sound.execCommit {trapframe sz : BitVec 32} (sp entry : BitVec 32) (name : List (BitVec 8))
    (sound : k.Sound total free spaces pipes 0) (lt : i < NPROC)
    (runs : (k.procs i).state = .runnable) (given : (k.procs i).trapframe = some trapframe)
    (image : space.Image trapframe (pages sz) ram.mem)
    (moves : Moves k.ram free 0 ram free' space.owned) :
    ∃ old ram', (k.procs i).pagetable = some old ∧
      (((ram.setReg trapframe a1Offset sp).setReg trapframe epcOffset entry).setReg trapframe
        spOffset sp).procFreepagetable old (k.procs i).sz = .ok ram' ∧
      ((k.setProc i { k.procs i with pagetable := some space.root, sz := sz, name := name }).setRam
        ram').Safe total := by
  obtain ⟨old, here, live⟩ := sound.live lt (runs ▸ nofun)
  obtain ⟨trapframe', given', oldImage⟩ := live.image
  obtain rfl : trapframe = trapframe' := Option.some.inj (given.symm.trans given')
  obtain ⟨rest, -, balance, -⟩ := sound.split lt
  have fields : (k.procs i).owned (spaces i) = old.owned +
      (held (k.procs i).trapframe + ↑((k.procs i).argv.getD [])) := by
    rw [here]
    rfl
  replace balance := balance.part
  rw [fields] at balance
  have member : trapframe ∈ held (k.procs i).trapframe + ↑((k.procs i).argv.getD []) :=
    mem_add.mpr (.inl (mem_held.mpr given))
  generalize kept : held (k.procs i).trapframe +
    (↑((k.procs i).argv.getD []) : Multiset (BitVec 32)) = others at balance fields member
  -- Both address spaces are there while the registers are set.
  have both : Balance k.ram free (0 + (old.owned + others)) := by rwa [zero_add]
  have moves₁ := moves.extend (old.owned + others)
  have balance₁ := both.moves moves₁
  have held₁ : trapframe ∈ space.owned + (old.owned + others) :=
    mem_add.mpr (.inr (mem_add.mpr (.inr member)))
  obtain ⟨ram₂, registers, moves₂, same₂⟩ : ∃ ram₂,
      ((ram.setReg trapframe a1Offset sp).setReg trapframe epcOffset entry).setReg trapframe
        spOffset sp = ram₂ ∧
      Moves ram free' (space.owned + (old.owned + others)) ram₂ free'
        (space.owned + (old.owned + others)) ∧
      ∀ page, page ≠ trapframe → ram₂.mem page = ram.mem page := by
    have first := balance₁.setPage held₁ (store32 (ram.mem trapframe) a1Offset sp)
    refine ⟨_, rfl, first.trans (((balance₁.moves first).setPage held₁ _).trans
      ((((balance₁.moves first).moves ((balance₁.moves first).setPage held₁ _))).setPage held₁ _)),
      fun page ne => ?_⟩
    unfold Ram.setReg
    rw [setPage_mem_of_ne _ ne, setPage_mem_of_ne _ ne, setPage_mem_of_ne _ ne]
  have nodup := balance₁.held_nodup
  have image₂ : space.Image trapframe (pages sz) ram₂.mem := image.frame fun page table => by
    refine same₂ page ?_
    rintro rfl
    exact disjoint_left.mp (nodup_add.mp nodup).2.2
      (mem_add.mpr (.inl table)) (mem_add.mpr (.inr member))
  have oldImage₂ : old.Image trapframe (pages (k.procs i).sz) ram₂.mem :=
    oldImage.frame fun page table => by
      have lt' : page ∈ old.owned := mem_add.mpr (.inl table)
      refine (same₂ page ?_).trans (moves.rest_same both (mem_add.mpr (.inl lt')))
      rintro rfl
      exact disjoint_left.mp (nodup_add.mp balance.held_nodup).2.2 lt' member
  have regroup : space.owned + (old.owned + others) = old.owned + (space.owned + others) := by
    ac_rfl
  have balance₂ := balance₁.moves moves₂
  rw [regroup] at balance₂
  obtain ⟨ram', free'', freed, moves₃⟩ := procFreepagetable_spec balance₂.part oldImage₂
  refine ⟨old.root, ram', live.pagetable, registers ▸ freed, free'', _, pipes,
    sound.proc lt ?_ (show Proc.Ok _ (some space) _ from
      ⟨live.state, rfl, ⟨trapframe, given, image₂.frame fun page table => ?_⟩, live.zombie⟩) rfl⟩
  · have last := moves₃.extend (space.owned + others)
    rw [← regroup, zero_add] at last
    have all := moves₁.trans (moves₂.trans last)
    rw [zero_add, ← fields, ← kept] at all
    exact all
  · exact moves₃.rest_same balance₂ (mem_add.mpr (.inl (mem_add.mpr (.inl table))))

section

variable (path : List (BitVec 8)) (file : Option (List (BitVec 8)))

include path file

theorem exec_spec (argv : List (BitVec 32)) (safe : k.Safe total) (lt : i < NPROC)
    (runs : (k.procs i).state = .runnable) :
    ∃ result k', k.exec i path file argv = .ok (result, k') ∧ k'.Safe total ∧
      (k'.procs i).argv = (k.procs i).argv ∧ (k'.procs i).state = .runnable := by
  have unchanged := safe
  obtain ⟨free, spaces, pipes, sound⟩ := safe
  unfold exec
  cases file with
  | none => exact ⟨_, k, rfl, unchanged, rfl, runs⟩
  | some file =>
    dsimp only
    generalize readi file 0 (BitVec.ofNat 32 elfhdrSize) = header
    generalize Elfhdr.ofBytes header = elf
    by_cases short : header.length ≠ elfhdrSize
    · rw [if_pos short]
      exact ⟨_, k, rfl, unchanged, rfl, runs⟩
    rw [if_neg short]
    by_cases foreign : elf.magic ≠ ELF_MAGIC
    · rw [if_pos foreign]
      exact ⟨_, k, rfl, unchanged, rfl, runs⟩
    rw [if_neg foreign]
    obtain ⟨old, here, live⟩ := sound.live lt (runs ▸ nofun)
    obtain ⟨trapframe, given, image⟩ := live.image
    split
    case h_2 absent => exact absurd live.pagetable (absent _ _ given)
    case h_1 trapframe' oldpagetable given' table =>
    obtain rfl : trapframe = trapframe' := Option.some.inj (given.symm.trans given')
    have balance := sound.balance
    rw [← zero_add (ownedPages _ _ + pipes)] at balance
    have aligned : Aligned trapframe := by
      have leaf := (image.holds.backed _ _ image.trapframe).2.2
      exact leaf.aligned
    obtain ⟨ram₁, free₁, ran₁, moves₁⟩ | ⟨space₁, ram₁, free₁, ran₁, image₁, moves₁⟩ :=
      procPagetable_spec balance.part aligned
    · rw [ran₁]
      exact ⟨_, _, rfl, sound.restored lt moves₁, rfl, runs⟩
    rw [ran₁]
    simp only [ok_bind]
    obtain ⟨loaded, sz₂, space₂, ram₂, free₂, ran₂, loaded₂⟩ :=
      @loadSegments_spec _ _ _ _ _ file elf.phnum.toNat elf.phoff 0 (balance.part.moves moves₁)
        image₁ nofun
    rw [ran₂]
    simp only [ok_bind]
    cases loaded with
    | false =>
      obtain ⟨result, ram', ran', safe'⟩ :=
        sound.execBad lt loaded₂.image (moves₁.trans loaded₂.moves)
      rw [if_neg Bool.false_ne_true, ← loaded₂.root, ran']
      exact ⟨_, _, rfl, safe', rfl, runs⟩
    | true =>
      obtain ⟨sz₃, pushed, space₃, ram₃, free₃, ran₃, loaded₃⟩ :=
        @buildStack_spec _ _ _ _ _ sz₂ argv
          ((balance.part.moves moves₁).moves loaded₂.moves) loaded₂.image
      have moves₃ := moves₁.trans (loaded₂.moves.trans loaded₃.moves)
      rw [if_pos rfl, ← loaded₂.root, ran₃]
      simp only [ok_bind]
      cases pushed with
      | none =>
        obtain ⟨result, ram', ran', safe'⟩ := sound.execBad lt loaded₃.image moves₃
        rw [← loaded₃.root, ran']
        exact ⟨_, _, rfl, safe', rfl, runs⟩
      | some pushed =>
        obtain ⟨old', ram', table', ran', safe'⟩ := sound.execCommit pushed.1 elf.entry
          ((lastComponent path path).take 15) lt runs given loaded₃.image moves₃
        obtain rfl : oldpagetable = old' := Option.some.inj (table.symm.trans table')
        dsimp only
        rw [ran', ← loaded₃.root]
        refine ⟨_, _, rfl, safe', ?_, ?_⟩
        · simp [setProc, setRam]
        · simpa [setProc, setRam] using runs

theorem sysExec_spec {argv : List (BitVec 32)} (safe : k.Safe total) (lt : i < NPROC)
    (runs : (k.procs i).state = .runnable) (busy : (k.procs i).argv = some argv) :
    ∃ result k', k.sysExec i path file argv = .ok (result, k') ∧ k'.Safe total := by
  obtain ⟨result, k₁, ran₁, ⟨free₁, spaces₁, pipes₁, sound₁⟩, argv₁, runs₁⟩ :=
    exec_spec path file argv safe lt runs
  have same : k₁.withArgv i argv = k₁ := by
    unfold withArgv
    rw [← busy, ← argv₁]
    exact setProc_self k₁ i
  rw [← same] at sound₁
  obtain ⟨ram, free₂, freed, sound₂⟩ := freeArgv_spec sound₁ lt runs₁
  have done := sound₂.noArgv lt runs₁
  unfold sysExec
  rw [ran₁]
  simp only [ok_bind]
  rw [freed]
  exact ⟨_, _, rfl, free₂, spaces₁, pipes₁, done⟩

end

end Xv6Rv32im.Process.Kernel
