import Xv6Rv32im.Library.Shares
import Xv6Rv32im.Vm.Model

/-!
# The page allocator

A computation works on the free pages and on pages that it holds.  `Moves` says
what it may do with them: pages pass between the free list and the holder, none
appears or vanishes, and the memory of all other pages stays.
-/

namespace Xv6Rv32im.Vm

open Library.ByteWords Function Multiset

def Managed [Layout] (pa : BitVec 32) : Prop :=
  Aligned pa ∧ Layout.kernelEnd ≤ pa ∧ pa < PHYSTOP

instance [Layout] (pa : BitVec 32) : Decidable (Managed pa) :=
  inferInstanceAs (Decidable (Aligned pa ∧ _ ∧ _))

theorem Managed.ne_zero [Layout] {pa : BitVec 32} (managed : Managed pa) : pa ≠ 0 := by
  rintro rfl
  have above := Layout.kernelEnd_above
  have below := managed.2.1
  unfold KERNBASE at above
  bv_omega

namespace Ram

/-- The free list that starts at `head` consists of these pages. -/
def FreeChain (mem : BitVec 32 → Bytes) : BitVec 32 → List (BitVec 32) → Prop
  | head, [] => head = 0
  | head, page :: rest => head = page ∧ FreeChain mem (load32 (mem page) 0) rest

/-- The free list is kept by any change of memory outside its pages. -/
theorem FreeChain.frame {mem mem' : BitVec 32 → Bytes} {head : BitVec 32}
    {free : List (BitVec 32)} (chain : FreeChain mem head free)
    (same : ∀ page ∈ free, mem' page = mem page) : FreeChain mem' head free := by
  induction free generalizing head with
  | nil => exact chain
  | cons page rest ih =>
    refine ⟨chain.1, ?_⟩
    rw [same page (List.mem_cons_self ..)]
    exact ih chain.2 fun other member => same other (List.mem_cons_of_mem _ member)

/-- A computation passed pages between the free list and their holder. -/
structure Moves (ram : Ram) (free : List (BitVec 32)) (held : Multiset (BitVec 32))
    (ram' : Ram) (free' : List (BitVec 32)) (held' : Multiset (BitVec 32)) : Prop where
  chain : FreeChain ram'.mem ram'.freelist free'
  conserve : (↑free' + held' : Multiset (BitVec 32)) = ↑free + held
  frame : ∀ page, page ∉ ↑free + held → ram'.mem page = ram.mem page

variable {ram ram' ram'' : Ram} {free free' free'' : List (BitVec 32)}
  {held held' held'' rest : Multiset (BitVec 32)} {page : BitVec 32}

theorem Moves.trans (first : Moves ram free held ram' free' held')
    (second : Moves ram' free' held' ram'' free'' held'') :
    Moves ram free held ram'' free'' held'' where
  chain := second.chain
  conserve := second.conserve.trans first.conserve
  frame := fun page outside =>
    (second.frame page (first.conserve.symm ▸ outside)).trans (first.frame page outside)

/-- The frame rule: what the computation does not know of, it leaves alone. -/
theorem Moves.extend (moves : Moves ram free held ram' free' held')
    (rest : Multiset (BitVec 32)) : Moves ram free (held + rest) ram' free' (held' + rest) where
  chain := moves.chain
  conserve := by rw [← add_assoc, moves.conserve, add_assoc]
  frame := fun page outside => moves.frame page fun lt => outside <| by
    rw [← add_assoc]
    exact mem_add.mpr (.inl lt)

theorem setPage_mem_self (ram : Ram) (page : BitVec 32) (bytes : Bytes) :
    (ram.setPage page bytes).mem page = bytes :=
  update_self ..

theorem setPage_mem_of_ne {other : BitVec 32} (bytes : Bytes) (ne : other ≠ page) :
    (ram.setPage page bytes).mem other = ram.mem other :=
  update_of_ne ne ..

theorem setPage_setPage (ram : Ram) (page : BitVec 32) (bytes bytes' : Bytes) :
    (ram.setPage page bytes).setPage page bytes' = ram.setPage page bytes' := by
  unfold setPage
  rw [update_idem]

variable [Layout]

/-- The free pages and the pages held are distinct pages of the allocator. -/
structure Balance (ram : Ram) (free : List (BitVec 32)) (held : Multiset (BitVec 32)) : Prop where
  chain : FreeChain ram.mem ram.freelist free
  nodup : (↑free + held).Nodup
  managed : ∀ page ∈ ↑free + held, Managed page

theorem Balance.moves (balance : Balance ram free held)
    (moves : Moves ram free held ram' free' held') : Balance ram' free' held' where
  chain := moves.chain
  nodup := moves.conserve ▸ balance.nodup
  managed := moves.conserve ▸ balance.managed

theorem Balance.refl (balance : Balance ram free held) : Moves ram free held ram free held :=
  ⟨balance.chain, rfl, fun _ _ => rfl⟩

theorem Balance.part (balance : Balance ram free (held + rest)) : Balance ram free held where
  chain := balance.chain
  nodup := by
    have nodup := balance.nodup
    rw [← add_assoc] at nodup
    exact (nodup_add.mp nodup).1
  managed := fun page member => balance.managed page <| by
    rw [← add_assoc]
    exact mem_add.mpr (.inl member)

theorem Moves.rest_same (moves : Moves ram free held ram' free' held')
    (balance : Balance ram free (held + rest)) (member : page ∈ rest) :
    ram'.mem page = ram.mem page := by
  refine moves.frame page fun lt => ?_
  have nodup := balance.nodup
  rw [← add_assoc] at nodup
  exact disjoint_left.mp (nodup_add.mp nodup).2.2 lt member

section

variable (balance : Balance ram free held)

include balance

theorem Balance.not_free (member : page ∈ held) : page ∉ free := by
  intro lt
  exact disjoint_left.mp (nodup_add.mp balance.nodup).2.2 (mem_coe.mpr lt) member

theorem Balance.held_nodup : held.Nodup :=
  (nodup_add.mp balance.nodup).2.1

theorem Balance.held_managed (member : page ∈ held) : Managed page :=
  balance.managed page (mem_add.mpr (.inr member))

/-! ## The calls -/

/-- Writing to a page that is held moves nothing. -/
theorem Balance.setPage (member : page ∈ held) (bytes : Bytes) :
    Moves ram free held (ram.setPage page bytes) free held where
  chain := balance.chain.frame fun _ lt =>
    setPage_mem_of_ne bytes fun same => balance.not_free member (same ▸ lt)
  conserve := rfl
  frame := fun _ outside => setPage_mem_of_ne bytes fun same =>
    outside (same ▸ mem_add.mpr (.inr member))

/-- `kalloc` fails without an effect or hands out the first free page. -/
theorem Balance.kalloc : (∃ ram', ram.kalloc = (none, ram') ∧ ram'.mem = ram.mem ∧
      Moves ram free held ram' free held) ∨
    ∃ page rest ram', free = page :: rest ∧ ram.kalloc = (some page, ram') ∧
      ram'.mem = update ram.mem page (fun _ => 5) ∧
      Moves ram free held ram' rest (page ::ₘ held) := by
  unfold Ram.kalloc
  dsimp only
  split
  · exact .inl ⟨_, rfl, rfl, balance.chain, rfl, fun _ _ => rfl⟩
  cases free with
  | nil =>
    rw [if_pos (show ram.freelist = 0 from balance.chain)]
    exact .inl ⟨_, rfl, rfl, balance.chain, rfl, fun _ _ => rfl⟩
  | cons page rest =>
    obtain ⟨head, chain⟩ := balance.chain
    have nonzero : ram.freelist ≠ 0 := by
      rw [head]
      exact (balance.managed page (by simp)).ne_zero
    have unlisted : page ∉ rest := by
      have nodup := (nodup_add.mp balance.nodup).1
      exact (List.nodup_cons.mp (coe_nodup.mp nodup)).1
    rw [if_neg nonzero, head]
    refine .inr ⟨page, rest, _, rfl, rfl, rfl, ?_, ?_, ?_⟩
    · exact chain.frame fun other lt =>
        setPage_mem_of_ne _ fun same => unlisted (same ▸ lt)
    · rw [← cons_coe, add_cons, cons_add]
    · intro other outside
      exact setPage_mem_of_ne _ fun same => outside (by rw [same]; simp)

theorem Balance.kalloc_fill : (∃ ram', ram.kalloc = (none, ram') ∧ ram'.mem = ram.mem ∧
      Moves ram free held ram' free held) ∨
    ∃ page rest ram', free = page :: rest ∧ ram.kalloc = (some page, ram') ∧ Managed page ∧
      page ∉ held ∧ (∀ other, other ≠ page → ram'.mem other = ram.mem other) ∧
      ∀ bytes, Moves ram free held (ram'.setPage page bytes) rest (page ::ₘ held) := by
  obtain denied | ⟨page, rest, ram', rfl, given, contents, moves⟩ := balance.kalloc
  · exact .inl denied
  have after := balance.moves moves
  refine .inr ⟨page, rest, ram', rfl, given, after.held_managed (mem_cons_self ..),
    (nodup_cons.mp after.held_nodup).1, fun other ne => ?_,
    fun bytes => moves.trans (after.setPage (mem_cons_self ..) bytes)⟩
  rw [contents, update_of_ne ne]

end

/-- `kfree` of a page that is held puts it on the free list. -/
theorem Balance.kfree (balance : Balance ram free (page ::ₘ held)) :
    ∃ ram', ram.kfree page = .ok ram' ∧ (∀ other, other ≠ page → ram'.mem other = ram.mem other) ∧
      Moves ram free (page ::ₘ held) ram' (page :: free) held := by
  obtain ⟨aligned, above, below⟩ := balance.held_managed (mem_cons_self page held)
  have allowed : ¬(page.toNat % PGSIZE ≠ 0 ∨ page < Layout.kernelEnd ∨ page ≥ PHYSTOP) := by
    rintro (unaligned | low | high)
    · exact unaligned aligned
    · exact absurd low (BitVec.not_lt.mpr above)
    · exact absurd below (BitVec.not_lt.mpr high)
  have others other (ne : other ≠ page) : ((ram.memset page 1).setPage page
        (store32 ((ram.memset page 1).mem page) 0 (ram.memset page 1).freelist)).mem other =
        ram.mem other := by
    rw [setPage_mem_of_ne _ ne]
    exact setPage_mem_of_ne _ ne
  unfold Ram.kfree
  rw [if_neg allowed]
  refine ⟨_, rfl, others, ⟨rfl, ?_⟩, ?_, ?_⟩
  · dsimp only
    rw [setPage_mem_self (ram.memset page 1), load32_store32_self]
    exact balance.chain.frame fun other lt =>
      others other fun same => balance.not_free (mem_cons_self page held) (same ▸ lt)
  · rw [← cons_coe, add_cons, cons_add]
  · intro other outside
    exact others other fun same => outside (by rw [same]; simp)

end Ram

/-! ## A small machine -/

@[reducible] def smallLayout : Layout where
  kernelEnd := 0x80001000
  trampoline := 0x80000000
  kernelEnd_above := by decide
  trampoline_aligned := by decide
  trampoline_below := by decide

def smallPages : List (BitVec 32) :=
  [0x80001000, 0x80002000, 0x80003000, 0x80004000, 0x80005000, 0x80006000, 0x80007000, 0x80008000,
    0x80009000, 0x8000a000, 0x8000b000, 0x8000c000]

def smallRam : Ram where
  mem := fun page => store32 (fun _ => 0) 0 (if page = 0x8000c000 then 0 else page + 4096)
  freelist := 0x80001000
  denials := []

theorem smallRam_chain : Ram.FreeChain smallRam.mem smallRam.freelist smallPages := by
  simp only [smallPages, Ram.FreeChain]
  decide +kernel

theorem smallPages_managed : ∀ page ∈ smallPages, @Managed smallLayout page := by
  have checked : smallPages.all fun page => decide (@Managed smallLayout page) := by
    decide +kernel
  simpa using checked

end Xv6Rv32im.Vm
