import Xv6Rv32im.Process.Exec
import Xv6Rv32im.Process.PageTables

/-!
# The image that `exec` builds

Every path through the loading of a program, whatever the bytes of the file are,
ends with an address space whose size is the one that `exec` knows.
-/

namespace Xv6Rv32im.Vm

open Library.ByteWords Library.Shares Library.Run Process

/-- The user may access all of the first `n` pages. -/
def Space.Accessible (space : Space) (n : Nat) : Prop :=
  ∀ v < n, ∃ leaf, space.leaves v = some leaf ∧ userLeaf v leaf

theorem Space.Accessible.grown {base space : Space} {n m : Nat} (accessible : base.Accessible n)
    (grown : base.Grown userLeaf space n m) : space.Accessible m := by
  intro v below
  by_cases new : n ≤ v
  · exact grown.fresh v new below
  · rw [grown.kept v (by omega)]
    exact accessible v (by omega)

theorem Space.Accessible.userPage {space : Space} {n v : Nat} (accessible : space.Accessible n)
    (below : v < n) : ∃ page, space.userPage v = some page := by
  obtain ⟨leaf, here, user⟩ := accessible v below
  refine ⟨leaf.page, ?_⟩
  unfold Space.userPage
  rw [here]
  exact if_neg user

namespace Ram

variable {ram : Ram} {space : Space} {free : List (BitVec 32)} {trapframe : BitVec 32} [Layout]

/-! ## Segments -/

theorem loadsegFrom_spec {va sz i : BitVec 32} {file : List (BitVec 8)} {offset : BitVec 32}
    {fuel n m : Nat} (balance : Balance ram free space.owned)
    (holds : space.Holds ram.mem) (guarded : space.Guarded) (accessible : space.Accessible n)
    (few : n ≤ MAXPAGES) (aligned : Aligned va) (lt : va.toNat + sz.toNat ≤ 4096 * n)
    (address : i.toNat = 4096 * m) (enough : 2 ^ 20 ≤ fuel + m) :
    ∃ loaded ram', loadsegFrom space.root va file offset sz fuel ram i = .ok (loaded, ram') ∧
      space.Holds ram'.mem ∧
      Moves ram free space.owned ram' free space.owned := by
  induction fuel generalizing ram i m with
  | zero =>
    have bound := i.isLt
    omega
  | succ fuel ih =>
    rw [loadsegFrom]
    by_cases more : i < sz
    · have more' : i.toNat < sz.toNat := more
      unfold MAXPAGES at few
      have sum : (va + i).toNat = va.toNat + i.toNat := by bv_omega
      have aligned' : Aligned (va + i) := by
        unfold Aligned at aligned ⊢
        omega
      have number : vpn (va + i) < n := by
        unfold vpn
        omega
      obtain ⟨page, user⟩ := accessible.userPage number
      obtain ⟨-, mem⟩ := guarded.userPage_mem user
      have managed := balance.held_managed (Multiset.mem_add.mpr (.inr mem))
      rw [if_pos more, walkaddr_spec holds aligned', user]
      simp only [ok_bind, Option.getD_some]
      rw [if_neg managed.ne_zero]
      generalize (if sz - i < 4096 then sz - i else 4096) = count
      obtain ⟨kept, moves⟩ :=
        memmove_user 0 _ balance holds mem
      by_cases short : (readi file (offset + i) count).length ≠ count.toNat
      · rw [if_pos short]
        exact ⟨false, _, rfl, kept, moves⟩
      have address' : (i + 4096).toNat = 4096 * (m + 1) := by
        bv_omega
      obtain ⟨loaded, ram', ran, kept', moves'⟩ :=
        ih (balance.moves moves) kept address' (by omega)
      rw [if_neg short]
      exact ⟨loaded, ram', ran, kept', moves.trans moves'⟩
    · rw [if_neg more]
      exact ⟨true, ram, rfl, holds, balance.refl⟩

structure Loaded (ram : Ram) (free : List (BitVec 32)) (space : Space) (trapframe : BitVec 32)
    (ram' : Ram) (free' : List (BitVec 32)) (space' : Space) (n : Nat) : Prop where
  root : space'.root = space.root
  image : space'.Image trapframe n ram'.mem
  moves : Moves ram free (space.tables + space.users) ram' free' (space'.tables + space'.users)

theorem Loaded.refl {n : Nat} (balance : Balance ram free space.owned)
    (image : space.Image trapframe n ram.mem) : Loaded ram free space trapframe ram free space n :=
  ⟨rfl, image, balance.refl⟩

theorem Loaded.trans {ram' ram'' : Ram} {free' free'' : List (BitVec 32)} {space' space'' : Space}
    {n m : Nat} (first : Loaded ram free space trapframe ram' free' space' n)
    (second : Loaded ram' free' space' trapframe ram'' free'' space'' m) :
    Loaded ram free space trapframe ram'' free'' space'' m :=
  ⟨second.root.trans first.root, second.image, first.moves.trans second.moves⟩

section

variable {oldsz newsz : BitVec 32} (balance : Balance ram free space.owned)
  (image : space.Image trapframe (pages oldsz) ram.mem)

include balance image

theorem uvmalloc_loaded :
    ∃ size space' ram' free',
      ram.uvmalloc space.root oldsz newsz = .ok (size, ram') ∧
      (size = allocSize oldsz newsz ∧ space.Grown userLeaf space' (pages oldsz) (pages size) ∧
          Loaded ram free space trapframe ram' free' space' (pages size) ∨
        size = 0 ∧ space.Grown userLeaf space' (pages oldsz) (pages oldsz) ∧
          Loaded ram free space trapframe ram' free' space' (pages oldsz)) := by
  obtain ⟨size, space', ram', free', ran, result, holds', moves⟩ :=
    @uvmalloc_zeroes _ _ _ _ _ newsz balance image.holds image.mapped
  refine ⟨size, space', ram', free', ran, ?_⟩
  obtain ⟨rfl, top, grown⟩ | ⟨rfl, grown⟩ := result
  · have le := pages_mono (le_allocSize oldsz newsz).1
    exact .inl ⟨rfl, grown.forUser, grown.root, image.regrown grown le top holds', moves⟩
  · exact .inr ⟨rfl, grown.forUser, grown.root,
      image.regrown grown (le_refl _) image.mapped.1 holds', moves⟩

theorem uvmdealloc_loaded :
    ∃ size space' ram' free',
      ram.uvmdealloc space.root oldsz newsz = .ok (size, ram') ∧
      Loaded ram free space trapframe ram' free' space' (pages size) := by
  obtain ⟨ram', free', ran, holds, moves⟩ := @uvmdealloc_spec _ _ _ _ oldsz newsz balance
    image.holds (image.mapped.le_maxpages balance)
    fun v _ below => (image.mapped.2 v (below.trans_le image.mapped.1)).mpr below
  refine ⟨_, space.unmap _ _, ram', free', ran, rfl, ?_,
    moves⟩
  by_cases grows : newsz ≥ oldsz
  · rw [Nat.sub_eq_zero_of_le (pages_mono grows), Space.unmap_zero] at holds ⊢
    rw [if_pos grows]
    exact { image with holds := holds }
  have fewer := pages_mono (BitVec.le_of_lt (BitVec.not_le.mp grows))
  have top := image.mapped.1
  rw [if_neg grows]
  refine ⟨holds, image.mapped.unmap fewer, ?_, ?_⟩
  · rw [Space.unmap_leaves_of_ge _ (by omega), image.trapframe]
  · rw [Space.unmap_leaves_of_ge _ (by omega), image.trampoline]

end

theorem loadSegments_spec {file : List (BitVec 8)} {remaining : Nat} {off sz : BitVec 32}
    (balance : Balance ram free space.owned)
    (image : space.Image trapframe (pages sz) ram.mem) (accessible : space.Accessible (pages sz)) :
    ∃ loaded sz' space' ram' free',
      loadSegments space.root file remaining off sz ram = .ok (loaded, sz', ram') ∧
      Loaded ram free space trapframe ram' free' space' (pages sz') := by
  induction remaining generalizing ram free space off sz with
  | zero => exact ⟨true, sz, space, ram, free, rfl, .refl balance image⟩
  | succ remaining ih =>
    rw [loadSegments]
    dsimp only
    generalize readi file off (BitVec.ofNat 32 proghdrSize) = bytes
    generalize Proghdr.ofBytes bytes = ph
    by_cases short : bytes.length ≠ proghdrSize
    · rw [if_pos short]
      exact ⟨false, sz, space, ram, free, rfl, .refl balance image⟩
    rw [if_neg short]
    by_cases other : ph.type ≠ ELF_PROG_LOAD
    · rw [if_pos other]
      exact ih balance image accessible
    rw [if_neg other]
    by_cases tooSmall : ph.memsz < ph.filesz
    · rw [if_pos tooSmall]
      exact ⟨false, sz, space, ram, free, rfl, .refl balance image⟩
    rw [if_neg tooSmall]
    by_cases wraps : ph.vaddr + ph.memsz < ph.vaddr
    · rw [if_pos wraps]
      exact ⟨false, sz, space, ram, free, rfl, .refl balance image⟩
    rw [if_neg wraps]
    obtain ⟨size, space₁, ram₁, free₁, ran, result⟩ :=
      @uvmalloc_loaded _ _ _ _ _ sz _ balance image
    rw [ran]
    simp only [ok_bind]
    by_cases failed : size = 0
    · rw [if_pos failed]
      obtain ⟨given, -, loaded⟩ | ⟨-, -, loaded⟩ := result
      · -- The size asked for is 0, and so was the one before.
        have pre : sz = 0 := by
          have le := (le_allocSize sz (ph.vaddr + ph.memsz)).1
          rw [← given, failed] at le
          bv_omega
        rw [failed, ← pre] at loaded
        exact ⟨false, sz, space₁, ram₁, free₁, rfl, loaded⟩
      · exact ⟨false, sz, space₁, ram₁, free₁, rfl, loaded⟩
    rw [if_neg failed]
    obtain ⟨given, grown, loaded⟩ | ⟨zero, -, -⟩ := result
    case inr => exact absurd zero failed
    by_cases unaligned : ph.vaddr.toNat % PGSIZE ≠ 0
    · rw [if_pos unaligned]
      exact ⟨false, size, space₁, ram₁, free₁, rfl, loaded⟩
    have balance₁ := balance.moves loaded.moves
    have accessible₁ := accessible.grown grown
    have lt : ph.vaddr.toNat + ph.filesz.toNat ≤ 4096 * pages size := by
      have fits : (ph.vaddr + ph.memsz).toNat ≤ size.toNat :=
        given ▸ (le_allocSize sz _).2
      have smaller : ph.filesz.toNat ≤ ph.memsz.toNat := BitVec.not_lt.mp tooSmall
      have sum : (ph.vaddr + ph.memsz).toNat = ph.vaddr.toNat + ph.memsz.toNat := by bv_omega
      unfold pages
      omega
    obtain ⟨read, ram₂, ran₂, holds₂, moves₂⟩ :=
      @loadsegFrom_spec _ space₁ _ _ ph.vaddr ph.filesz 0 file ph.off (2 ^ 20) _ 0 balance₁
        loaded.image.holds loaded.image.guarded accessible₁
        (loaded.image.mapped.le_maxpages balance₁) (not_not.mp unaligned) lt rfl (by omega)
    have loaded₂ : Loaded ram₁ free₁ space₁ trapframe ram₂ free₁ space₁ (pages size) :=
      ⟨rfl, { loaded.image with holds := holds₂ }, moves₂⟩
    rw [if_neg unaligned, loadseg, if_neg unaligned, ← loaded.root, ran₂]
    simp only [ok_bind]
    cases read with
    | false =>
      rw [if_neg Bool.false_ne_true]
      exact ⟨false, size, space₁, ram₂, free₁, rfl, loaded.trans loaded₂⟩
    | true =>
      rw [if_pos rfl]
      obtain ⟨all, sz', space', ram', free', ran', loaded'⟩ :=
        ih (balance₁.moves moves₂) loaded₂.image accessible₁
      exact ⟨all, sz', space', ram', free', ran', (loaded.trans loaded₂).trans loaded'⟩

/-! ## The stack -/

theorem pushArgs_spec {stackbase sp : BitVec 32} {argv ustack : List (BitVec 32)}
    (balance : Balance ram free space.owned) (holds : space.Holds ram.mem)
    (guarded : space.Guarded) :
    ∃ pushed ram', pushArgs space.root stackbase argv sp ustack ram = .ok (pushed, ram') ∧
      space.Holds ram'.mem ∧
      Moves ram free space.owned ram' free space.owned := by
  induction argv generalizing ram sp ustack with
  | nil => exact ⟨some (sp, ustack), ram, rfl, holds, balance.refl⟩
  | cons arg argv ih =>
    rw [pushArgs]
    by_cases many : ustack.length ≥ MAXARG
    · rw [if_pos many]
      exact ⟨none, ram, rfl, holds, balance.refl⟩
    rw [if_neg many]
    dsimp only
    generalize push sp (ram.cstring arg ++ [0]).length = sp'
    by_cases below : sp' < stackbase
    · rw [if_pos below]
      exact ⟨none, ram, rfl, holds, balance.refl⟩
    obtain ⟨copied, ram₁, ran, holds₁, moves₁⟩ :=
      copyout_spec sp' _ balance holds guarded
    rw [if_neg below, ran]
    simp only [ok_bind]
    cases copied with
    | false =>
      rw [if_neg Bool.false_ne_true]
      exact ⟨none, ram₁, rfl, holds₁, moves₁⟩
    | true =>
      rw [if_pos rfl]
      obtain ⟨pushed, ram', ran', holds', moves'⟩ :=
        @ih _ sp' _ (balance.moves moves₁) holds₁
      exact ⟨pushed, ram', ran', holds', moves₁.trans moves'⟩

omit [Layout] in
theorem stackSize {sz : BitVec 32} (few : pages sz ≤ MAXPAGES) :
    (pgRoundUp sz).toNat = 4096 * pages sz ∧
      (pgRoundUp sz + 2 * 4096).toNat = 4096 * (pages sz + 2) := by
  have rounded := pgRoundUp_toNat (small_of_pages few)
  unfold MAXPAGES at few
  refine ⟨by omega, ?_⟩
  bv_omega

theorem buildStack_spec {sz : BitVec 32} {argv : List (BitVec 32)}
    (balance : Balance ram free space.owned)
    (image : space.Image trapframe (pages sz) ram.mem) :
    ∃ sz' pushed space' ram' free',
      ram.buildStack space.root sz argv = .ok (sz', pushed, ram') ∧
      Loaded ram free space trapframe ram' free' space' (pages sz') := by
  have few := image.mapped.le_maxpages balance
  obtain ⟨start, stop⟩ := stackSize few
  have same : pages (pgRoundUp sz) = pages sz := pages_mul start
  rw [← same] at image
  obtain ⟨size, space₁, ram₁, free₁, ran, result⟩ :=
    @uvmalloc_loaded _ _ _ _ _ _ _ balance image
  unfold buildStack
  dsimp only
  rw [ran]
  simp only [ok_bind]
  have bigger : allocSize (pgRoundUp sz) (pgRoundUp sz + 2 * 4096) = pgRoundUp sz + 2 * 4096 := by
    refine if_neg (BitVec.not_lt.mpr ?_)
    change (pgRoundUp sz).toNat ≤ (pgRoundUp sz + 2 * 4096).toNat
    omega
  rw [bigger] at result
  obtain ⟨rfl, grown, loaded⟩ | ⟨rfl, -, loaded⟩ := result
  case inr => exact ⟨pgRoundUp sz, none, space₁, ram₁, free₁, rfl, loaded⟩
  have nonzero : pgRoundUp sz + 2 * 4096 ≠ 0 := by
    intro zero
    rw [zero] at stop
    exact absurd stop (by simp)
  rw [if_neg nonzero, show pgRoundUp sz + 2 * 4096 - 2 * 4096 = pgRoundUp sz by bv_omega]
  -- The guard page below the stack.
  have balance₁ := balance.moves loaded.moves
  have number : vpn (pgRoundUp sz) = pages (pgRoundUp sz) := by
    unfold vpn pages
    omega
  have aligned : Aligned (pgRoundUp sz) := by
    unfold Aligned
    omega
  obtain ⟨leaf, here, -⟩ := grown.fresh _ (le_refl _) (by
    rw [same, pages_mul stop]
    omega)
  have user : pages (pgRoundUp sz) < USERTOP := by
    rw [same]
    exact few.trans_lt (by decide)
  obtain ⟨ram₂, cleared, holds₂, moves₂⟩ :=
    uvmclear_spec balance₁.part loaded.image.holds aligned (number.symm ▸ here)
  rw [number] at holds₂
  have image₂ := loaded.image.setLeaf user here holds₂
  have users₂ := Space.users_setFlags user here (leaf.flags &&& ~~~PTE_U)
  have loaded₂ : Loaded ram₁ free₁ space₁ trapframe ram₂ free₁
      (space₁.setLeaf (pages (pgRoundUp sz)) (some ⟨leaf.page, leaf.flags &&& ~~~PTE_U⟩))
      (pages (pgRoundUp sz + 2 * 4096)) :=
    ⟨rfl, image₂, by rw [users₂]; exact moves₂.extend _⟩
  have balance₂ := balance₁.moves loaded₂.moves
  have loaded₂ := loaded.trans loaded₂
  rw [← loaded.root, cleared]
  simp only [ok_bind]
  -- The arguments and the array of pointers to them.
  obtain ⟨pushed, ram₃, ran₃, holds₃, moves₃⟩ :=
    @pushArgs_spec _ _ _ _
      (pgRoundUp sz + 2 * 4096 - 4096) _ argv [] balance₂ holds₂
      image₂.guarded
  have loaded₃ := loaded₂.trans ⟨rfl, { image₂ with holds := holds₃ }, moves₃⟩
  rw [show space₁.root = (space₁.setLeaf _
    (some ⟨leaf.page, leaf.flags &&& ~~~PTE_U⟩)).root from rfl, ran₃]
  simp only [ok_bind]
  cases pushed with
  | none => exact ⟨_, none, _, ram₃, free₁, rfl, loaded₃⟩
  | some pushed =>
    dsimp only
    generalize push pushed.1 (4 * (pushed.2 ++ [0]).length) = sp
    by_cases below : sp < pgRoundUp sz + 2 * 4096 - 4096
    · rw [if_pos below]
      exact ⟨_, none, _, ram₃, free₁, rfl, loaded₃⟩
    obtain ⟨copied, ram₄, ran₄, holds₄, moves₄⟩ :=
      copyout_spec sp ((pushed.2 ++ [0]).flatMap Kernel.wordBytes) (balance₂.moves moves₃) holds₃
        image₂.guarded
    have loaded₄ := loaded₃.trans ⟨rfl, { image₂ with holds := holds₄ }, moves₄⟩
    rw [if_neg below, ran₄]
    simp only [ok_bind]
    cases copied with
    | false => exact ⟨_, none, _, ram₄, free₁, rfl, loaded₄⟩
    | true => exact ⟨_, some _, _, ram₄, free₁, rfl, loaded₄⟩

end Ram

end Xv6Rv32im.Vm
