import Xv6Rv32im.Vm.Riscv

/-!
# Physical pages and page tables

`kalloc.c` and the user part of `vm.c` over a byte memory.  The free list is the
chain of `next` pointers in the free pages, and a page table is what its pages
hold.  A `panic` ends a computation.
-/

namespace Xv6Rv32im.Vm

open Library.ByteWords

/-- The addresses that the linker chooses: the first address after the kernel and
the page of the trampoline code. -/
class Layout where
  kernelEnd : BitVec 32
  trampoline : BitVec 32
  kernelEnd_above : KERNBASE ≤ kernelEnd
  trampoline_aligned : Aligned trampoline
  trampoline_below : trampoline < kernelEnd

/-- The calls of `panic` by their texts, a use of a null pointer, and a loop that
does not end. -/
inductive Panic where
  | kfree
  | walk
  | remap
  | uvmunmapNotAligned
  | uvmunmapWalk
  | uvmunmapNotMapped
  | uvmunmapNotALeaf
  | inituvmMoreThanAPage
  | freewalkLeaf
  | uvmcopyPteShouldExist
  | uvmcopyPageNotPresent
  | uvmclear
  | loadsegVaMustBePageAligned
  | loadsegAddressShouldExist
  | fileclose
  | filecloseUnmatched
  | filedup
  | initExiting
  | nullPointer
  | outOfFuel
  deriving DecidableEq

/-- Physical memory by pages, and the allocator.  `mem pa` are the bytes of the page
at `pa`; `freelist` is `kmem.freelist`; the next `kalloc` is refused, whatever
the free list holds, if `denials` starts with `true`. -/
structure Ram where
  mem : BitVec 32 → Bytes
  freelist : BitVec 32
  denials : List Bool

/-- A pointer to an entry of the page-table page at `page`. -/
structure PtePtr where
  page : BitVec 32
  index : Nat

namespace Ram

variable [Layout]

def setPage (ram : Ram) (pa : BitVec 32) (bytes : Bytes) : Ram :=
  { ram with mem := Function.update ram.mem pa bytes }

abbrev memset (ram : Ram) (pa : BitVec 32) (c : BitVec 8) : Ram := ram.setPage pa fun _ => c

/-- `memmove` of some bytes to an offset in the page at `pa`. -/
def memmove (ram : Ram) (pa : BitVec 32) (offset : Nat) (src : List (BitVec 8)) : Ram :=
  ram.setPage pa fun k =>
    if offset ≤ k ∧ k < offset + src.length then src.getD (k - offset) 0 else ram.mem pa k

def loadPte (ram : Ram) (pte : PtePtr) : BitVec 32 := load32 (ram.mem pte.page) (4 * pte.index)

def storePte (ram : Ram) (pte : PtePtr) (entry : BitVec 32) : Ram :=
  ram.setPage pte.page (store32 (ram.mem pte.page) (4 * pte.index) entry)

/-! ## `kalloc.c` -/

def kfree (ram : Ram) (pa : BitVec 32) : Except Panic Ram :=
  if pa.toNat % PGSIZE ≠ 0 ∨ pa < Layout.kernelEnd ∨ pa ≥ PHYSTOP then .error .kfree
  else
    let ram := ram.memset pa 1
    .ok { ram.setPage pa (store32 (ram.mem pa) 0 ram.freelist) with freelist := pa }

def kalloc (ram : Ram) : Option (BitVec 32) × Ram :=
  let denied := ram.denials.head? = some true
  let ram := { ram with denials := ram.denials.tail }
  if denied then (none, ram)
  else if ram.freelist = 0 then (none, ram)
  else
    let r := ram.freelist
    (some r, { ram with freelist := load32 (ram.mem r) 0 }.memset r 5)

/-! ## `vm.c` -/

/-- The loop over the levels runs once, for level 1. -/
def walk (ram : Ram) (pagetable va : BitVec 32) (alloc : Bool) :
    Except Panic (Option PtePtr × Ram) :=
  if va ≥ MAXVA then .error .walk
  else
    let pte : PtePtr := ⟨pagetable, px 1 va⟩
    if ram.loadPte pte &&& PTE_V ≠ 0 then
      .ok (some ⟨pte2pa (ram.loadPte pte), px 0 va⟩, ram)
    else if !alloc then .ok (none, ram)
    else
      match ram.kalloc with
      | (none, ram) => .ok (none, ram)
      | (some child, ram) =>
        .ok (some ⟨child, px 0 va⟩, (ram.memset child 0).storePte pte (pa2pte child ||| PTE_V))

/-- The physical page of a user address, or 0. -/
def walkaddr (ram : Ram) (pagetable va : BitVec 32) : Except Panic (BitVec 32) :=
  if va ≥ MAXVA then return 0
  else do
    let (pte, ram) ← ram.walk pagetable va false
    match pte with
    | none => return 0
    | some pte =>
      if ram.loadPte pte &&& PTE_V = 0 then return 0
      else if ram.loadPte pte &&& PTE_U = 0 then return 0
      else return pte2pa (ram.loadPte pte)

def mappagesFrom (pagetable last perm : BitVec 32) :
    Nat → Ram → BitVec 32 → BitVec 32 → Except Panic (Bool × Ram)
  | 0, _, _, _ => .error .outOfFuel
  | fuel + 1, ram, a, pa => do
      let (pte, ram) ← ram.walk pagetable a true
      match pte with
      | none => return (false, ram)
      | some pte =>
        if ram.loadPte pte &&& PTE_V ≠ 0 then .error .remap
        else
          let ram := ram.storePte pte (pa2pte pa ||| perm ||| PTE_V)
          if a = last then return (true, ram)
          else mappagesFrom pagetable last perm fuel ram (a + 4096) (pa + 4096)

/-- `mappages`; whether it succeeded. -/
def mappages (ram : Ram) (pagetable va size pa perm : BitVec 32) : Except Panic (Bool × Ram) :=
  mappagesFrom pagetable (pgRoundDown (va + size - 1)) perm (2 ^ 20) ram (pgRoundDown va) pa

/-- The loop of `uvmunmap` from index `i` on, for the pages that remain. -/
def uvmunmapFrom (pagetable va : BitVec 32) (doFree : Bool) :
    Ram → Nat → Nat → Except Panic Ram
  | ram, _, 0 => .ok ram
  | ram, i, remaining + 1 => do
      let (pte, ram) ← ram.walk pagetable (va + 4096 * BitVec.ofNat 32 i) false
      match pte with
      | none => .error .uvmunmapWalk
      | some pte =>
        let entry := ram.loadPte pte
        if entry &&& PTE_V = 0 then .error .uvmunmapNotMapped
        else if pteFlags entry = PTE_V then .error .uvmunmapNotALeaf
        else
          let ram ← if doFree then ram.kfree (pte2pa entry) else .ok ram
          uvmunmapFrom pagetable va doFree (ram.storePte pte 0) (i + 1) remaining

def uvmunmap (ram : Ram) (pagetable va npages : BitVec 32) (doFree : Bool) : Except Panic Ram :=
  if va.toNat % PGSIZE ≠ 0 then .error .uvmunmapNotAligned
  else uvmunmapFrom pagetable va doFree ram 0 npages.toNat

def uvmcreate (ram : Ram) : Option (BitVec 32) × Ram :=
  match ram.kalloc with
  | (none, ram) => (none, ram)
  | (some pagetable, ram) => (some pagetable, ram.memset pagetable 0)

/-- `uvminit`; its `kalloc` and `mappages` are not checked. -/
def uvminit (ram : Ram) (pagetable : BitVec 32) (src : List (BitVec 8)) : Except Panic Ram :=
  if src.length ≥ PGSIZE then .error .inituvmMoreThanAPage
  else
    match ram.kalloc with
    | (none, _) => .error .nullPointer
    | (some mem, ram) => do
        let ram := ram.memset mem 0
        let (_, ram) ← ram.mappages pagetable 0 4096 mem (PTE_W ||| PTE_R ||| PTE_X ||| PTE_U)
        return ram.memmove mem 0 src

def uvmdealloc (ram : Ram) (pagetable oldsz newsz : BitVec 32) :
    Except Panic (BitVec 32 × Ram) :=
  if newsz ≥ oldsz then return (oldsz, ram)
  else if pgRoundUp newsz < pgRoundUp oldsz then do
    let npages := (pgRoundUp oldsz - pgRoundUp newsz) / 4096
    let ram ← ram.uvmunmap pagetable (pgRoundUp newsz) npages true
    return (newsz, ram)
  else return (newsz, ram)

/-- The loop of `uvmalloc`, from address `a` on. -/
def uvmallocFrom (pagetable oldsz newsz : BitVec 32) :
    Nat → Ram → BitVec 32 → Except Panic (BitVec 32 × Ram)
  | 0, _, _ => .error .outOfFuel
  | fuel + 1, ram, a =>
    if a < newsz then
      match ram.kalloc with
      | (none, ram) => do
          let (_, ram) ← ram.uvmdealloc pagetable a oldsz
          return (0, ram)
      | (some mem, ram) => do
          let (mapped, ram) ← (ram.memset mem 0).mappages pagetable a 4096 mem
            (PTE_W ||| PTE_X ||| PTE_R ||| PTE_U)
          if mapped then uvmallocFrom pagetable oldsz newsz fuel ram (a + 4096)
          else
            let ram ← ram.kfree mem
            let (_, ram) ← ram.uvmdealloc pagetable a oldsz
            return (0, ram)
    else return (newsz, ram)

def uvmalloc (ram : Ram) (pagetable oldsz newsz : BitVec 32) : Except Panic (BitVec 32 × Ram) :=
  if newsz < oldsz then return (oldsz, ram)
  else uvmallocFrom pagetable (pgRoundUp oldsz) newsz (2 ^ 20) ram (pgRoundUp oldsz)

/-- The round of `freewalk` for one entry; `descend` is the recursive call. -/
def freewalkEntry (descend : Ram → BitVec 32 → Except Panic Ram) (pagetable : BitVec 32)
    (ram : Ram) (i : Nat) : Except Panic Ram :=
  let pte := ram.loadPte ⟨pagetable, i⟩
  if pte &&& PTE_V ≠ 0 ∧ pte &&& (PTE_R ||| PTE_W ||| PTE_X) = 0 then do
    let ram ← descend ram (pte2pa pte)
    return ram.storePte ⟨pagetable, i⟩ 0
  else if pte &&& PTE_V ≠ 0 then .error .freewalkLeaf
  else return ram

/-- `freewalk`; the number bounds the depth of the recursion. -/
def freewalk : Nat → Ram → BitVec 32 → Except Panic Ram
  | 0, _, _ => .error .outOfFuel
  | depth + 1, ram, pagetable => do
      let ram ← (List.range 1024).foldlM (freewalkEntry (freewalk depth) pagetable) ram
      ram.kfree pagetable

/-- A user page table has two levels. -/
def uvmfree (ram : Ram) (pagetable sz : BitVec 32) : Except Panic Ram := do
  let ram ← if sz > 0 then ram.uvmunmap pagetable 0 (pgRoundUp sz / 4096) true else .ok ram
  freewalk 2 ram pagetable

/-- The loop of `uvmcopy`, from address `i` on. -/
def uvmcopyFrom (old new sz : BitVec 32) : Nat → Ram → BitVec 32 → Except Panic (Bool × Ram)
  | 0, _, _ => .error .outOfFuel
  | fuel + 1, ram, i =>
    let err (ram : Ram) : Except Panic (Bool × Ram) := do
      let ram ← ram.uvmunmap new 0 (i / 4096) true
      return (false, ram)
    if i < sz then do
      let (pte, ram) ← ram.walk old i false
      match pte with
      | none => .error .uvmcopyPteShouldExist
      | some pte =>
        let entry := ram.loadPte pte
        if entry &&& PTE_V = 0 then .error .uvmcopyPageNotPresent
        else
          match ram.kalloc with
          | (none, ram) => err ram
          | (some mem, ram) => do
              let ram := ram.setPage mem (ram.mem (pte2pa entry))
              let (mapped, ram) ← ram.mappages new i 4096 mem (pteFlags entry)
              if mapped then uvmcopyFrom old new sz fuel ram (i + 4096)
              else
                let ram ← ram.kfree mem
                err ram
    else return (true, ram)

/-- `uvmcopy`; whether it succeeded. -/
def uvmcopy (ram : Ram) (old new sz : BitVec 32) : Except Panic (Bool × Ram) :=
  uvmcopyFrom old new sz (2 ^ 20) ram 0

def uvmclear (ram : Ram) (pagetable va : BitVec 32) : Except Panic Ram := do
  let (pte, ram) ← ram.walk pagetable va false
  match pte with
  | none => .error .uvmclear
  | some pte => return ram.storePte pte (ram.loadPte pte &&& ~~~PTE_U)

/-- The loop of `copyout`; every round copies at least one byte. -/
def copyoutFrom (pagetable : BitVec 32) :
    Nat → Ram → BitVec 32 → List (BitVec 8) → Except Panic (Bool × Ram)
  | 0, ram, _, src => if src = [] then return (true, ram) else .error .outOfFuel
  | fuel + 1, ram, dstva, src =>
    if src = [] then return (true, ram)
    else do
      let va0 := pgRoundDown dstva
      let pa0 ← ram.walkaddr pagetable va0
      if pa0 = 0 then return (false, ram)
      else
        let offset := (dstva - va0).toNat
        let n := min (PGSIZE - offset) src.length
        copyoutFrom pagetable fuel (ram.memmove pa0 offset (src.take n)) (va0 + 4096) (src.drop n)

/-- `copyout`; whether it succeeded. -/
def copyout (ram : Ram) (pagetable dstva : BitVec 32) (src : List (BitVec 8)) :
    Except Panic (Bool × Ram) :=
  copyoutFrom pagetable src.length ram dstva src

/-- `n` bytes from an offset in the page at `pa` on. -/
def read (ram : Ram) (pa : BitVec 32) (offset n : Nat) : List (BitVec 8) :=
  (List.range n).map fun k => ram.mem pa (offset + k)

/-- The loop of `copyin`, with the bytes copied so far; every round copies at least
one byte. -/
def copyinFrom (ram : Ram) (pagetable : BitVec 32) :
    Nat → BitVec 32 → Nat → List (BitVec 8) → Except Panic (Option (List (BitVec 8)))
  | 0, _, len, dst => if len = 0 then return some dst else .error .outOfFuel
  | fuel + 1, srcva, len, dst =>
    if len = 0 then return some dst
    else do
      let va0 := pgRoundDown srcva
      let pa0 ← ram.walkaddr pagetable va0
      if pa0 = 0 then return none
      else
        let offset := (srcva - va0).toNat
        let n := min (PGSIZE - offset) len
        copyinFrom ram pagetable fuel (va0 + 4096) (len - n) (dst ++ ram.read pa0 offset n)

/-- `copyin`; the bytes, or `none` on an error. -/
def copyin (ram : Ram) (pagetable srcva : BitVec 32) (len : Nat) :
    Except Panic (Option (List (BitVec 8))) :=
  copyinFrom ram pagetable len srcva len []

/-- The loop of `copyinstr`, with the bytes stored so far. -/
def copyinstrFrom (ram : Ram) (pagetable : BitVec 32) :
    Nat → BitVec 32 → Nat → List (BitVec 8) → Except Panic (Bool × List (BitVec 8))
  | 0, _, max, dst => if max = 0 then return (false, dst) else .error .outOfFuel
  | fuel + 1, srcva, max, dst =>
    if max = 0 then return (false, dst)
    else do
      let va0 := pgRoundDown srcva
      let pa0 ← ram.walkaddr pagetable va0
      if pa0 = 0 then return (false, dst)
      else
        let offset := (srcva - va0).toNat
        let n := min (PGSIZE - offset) max
        let bytes := ram.read pa0 offset n
        let chars := bytes.takeWhile (· ≠ 0)
        if chars.length < bytes.length then return (true, dst ++ chars ++ [0])
        else copyinstrFrom ram pagetable fuel (va0 + 4096) (max - n) (dst ++ bytes)

/-- `copyinstr`; whether it succeeded, and the bytes that it stored. -/
def copyinstr (ram : Ram) (pagetable srcva : BitVec 32) (max : Nat) :
    Except Panic (Bool × List (BitVec 8)) :=
  copyinstrFrom ram pagetable max srcva max []

/-! ## The hardware -/

/-- The leaf entry that the page-table walk of the processor finds for a virtual page. -/
def leafPte (ram : Ram) (pagetable : BitVec 32) (v : Nat) : Option (BitVec 32) :=
  let top := ram.loadPte ⟨pagetable, v / 1024⟩
  if top &&& PTE_V = 0 then none
  else if top &&& (PTE_R ||| PTE_W ||| PTE_X) ≠ 0 then some top
  else
    let pte := ram.loadPte ⟨pte2pa top, v % 1024⟩
    if pte &&& PTE_V = 0 then none else some pte

/-- A store of one byte in user mode; a fault has no effect on memory. -/
def userStore (ram : Ram) (pagetable va : BitVec 32) (byte : BitVec 8) : Ram :=
  match ram.leafPte pagetable (va.toNat / PGSIZE) with
  | none => ram
  | some pte =>
    if pte &&& PTE_U ≠ 0 ∧ pte &&& PTE_W ≠ 0 then
      ram.memmove (pte2pa pte) (va.toNat % PGSIZE) [byte]
    else ram

end Ram

end Xv6Rv32im.Vm
