import Xv6Rv32im.Process.Files

/-!
# Processes

`proc.c` as far as it allocates and frees memory: the process table, page tables of
processes, `growproc`, `fork`, `exit` and `wait`, and the system calls on pipes and
file descriptors.  Each call is one step; locks, the scheduler, current directories
and `killed` are left out.
-/

namespace Xv6Rv32im.Process

open Library.ByteWords Vm

def NPROC : Nat := 64

inductive ProcState where
  | unused
  | used
  | runnable
  | zombie
  deriving DecidableEq

/-- `struct proc`.  A null pointer is `none`; `argv` are the pages of an `exec` in
progress, which are a local variable of `sys_exec`. -/
structure Proc where
  state : ProcState
  xstate : BitVec 32
  pid : BitVec 32
  parent : Option Nat
  sz : BitVec 32
  pagetable : Option (BitVec 32)
  trapframe : Option (BitVec 32)
  ofile : Nat → Option Nat
  name : List (BitVec 8)
  argv : Option (List (BitVec 32))

def Proc.zero : Proc where
  state := .unused
  xstate := 0
  pid := 0
  parent := none
  sz := 0
  pagetable := none
  trapframe := none
  ofile := fun _ => none
  name := []
  argv := none

end Xv6Rv32im.Process

namespace Xv6Rv32im.Vm.Ram

open Library.ByteWords

variable [Layout]

def procPagetable (ram : Ram) (trapframe : BitVec 32) :
    Except Panic (Option (BitVec 32) × Ram) :=
  match ram.uvmcreate with
  | (none, ram) => return (none, ram)
  | (some pagetable, ram) => do
      let (mapped, ram) ← ram.mappages pagetable TRAMPOLINE 4096 Layout.trampoline (PTE_R ||| PTE_X)
      if mapped then
        let (mapped, ram) ← ram.mappages pagetable TRAPFRAME 4096 trapframe (PTE_R ||| PTE_W)
        if mapped then return (some pagetable, ram)
        else
          let ram ← ram.uvmunmap pagetable TRAMPOLINE 1 false
          let ram ← ram.uvmfree pagetable 0
          return (none, ram)
      else
        let ram ← ram.uvmfree pagetable 0
        return (none, ram)

def procFreepagetable (ram : Ram) (pagetable sz : BitVec 32) : Except Panic Ram := do
  let ram ← ram.uvmunmap pagetable TRAMPOLINE 1 false
  let ram ← ram.uvmunmap pagetable TRAPFRAME 1 false
  ram.uvmfree pagetable sz

def setReg (ram : Ram) (page : BitVec 32) (offset : Nat) (word : BitVec 32) : Ram :=
  ram.setPage page (store32 (ram.mem page) offset word)

end Xv6Rv32im.Vm.Ram

namespace Xv6Rv32im.Process

open Library.ByteWords Vm

/-- The registers of `struct trapframe`, by their offset. -/
def epcOffset : Nat := 12
def spOffset : Nat := 24
def a0Offset : Nat := 56
def a1Offset : Nat := 60

def trapframeSize : Nat := 144

def Proc.free [Layout] (p : Proc) (ram : Ram) : Except Panic (Proc × Ram) := do
  let ram ← match p.trapframe with
    | some trapframe => ram.kfree trapframe
    | none => .ok ram
  let ram ← match p.pagetable with
    | some pagetable => ram.procFreepagetable pagetable p.sz
    | none => .ok ram
  return ({ p with
    state := .unused
    xstate := 0
    pid := 0
    parent := none
    sz := 0
    pagetable := none
    trapframe := none
    name := [] }, ram)

structure Kernel extends Ftable where
  procs : Nat → Proc
  nextpid : BitVec 32
  initproc : Nat

namespace Kernel

variable [Layout]

def setProc (k : Kernel) (i : Nat) (p : Proc) : Kernel :=
  { k with procs := Function.update k.procs i p }

def setRam (k : Kernel) (ram : Ram) : Kernel := { k with ram := ram }

def setFtable (k : Kernel) (ft : Ftable) : Kernel := { k with toFtable := ft }

def allocSlot (k : Kernel) (j : Nat) : Except Panic (Option Nat × Kernel) :=
  let pid := k.nextpid
  let k := { k with nextpid := k.nextpid + 1 }
  let p := { k.procs j with pid := pid, state := .used }
  match k.ram.kalloc with
  | (none, ram) => do
      let (p, ram) ← { p with trapframe := none }.free ram
      return (none, (k.setProc j p).setRam ram)
  | (some trapframe, ram) => do
      let p := { p with trapframe := some trapframe }
      let (pagetable, ram) ← ram.procPagetable trapframe
      match pagetable with
      | none =>
        let (p, ram) ← { p with pagetable := none }.free ram
        return (none, (k.setProc j p).setRam ram)
      | some pagetable =>
        return (some j, (k.setProc j { p with pagetable := some pagetable }).setRam ram)

def allocproc (k : Kernel) : Except Panic (Option Nat × Kernel) :=
  match (List.range NPROC).find? fun j => (k.procs j).state = .unused with
  | none => return (none, k)
  | some j => k.allocSlot j

def freeproc (k : Kernel) (i : Nat) : Except Panic Kernel := do
  let (p, ram) ← (k.procs i).free k.ram
  return (k.setProc i p).setRam ram

/-- The kernel before the first process: no slot and no file is in use. -/
def boot (ram : Ram) : Kernel where
  ram := ram
  file := fun _ => ⟨.none, 0, false, false, 0⟩
  procs := fun _ => Proc.zero
  nextpid := 1
  initproc := 0

def userinit (k : Kernel) (initcode : List (BitVec 8)) : Except Panic Kernel := do
  let (slot, k) ← k.allocproc
  match slot with
  | none => .error .nullPointer
  | some i =>
    let p := k.procs i
    match p.pagetable, p.trapframe with
    | some pagetable, some trapframe =>
      let ram ← k.ram.uvminit pagetable initcode
      let ram := (ram.setReg trapframe epcOffset 0).setReg trapframe spOffset 4096
      let p := { p with
        sz := 4096
        name := [0x69, 0x6e, 0x69, 0x74, 0x63, 0x6f, 0x64, 0x65]
        state := .runnable }
      return { (k.setProc i p).setRam ram with initproc := i }
    | _, _ => .error .nullPointer

/-- `growproc`; 0, or -1 on failure. -/
def growproc (k : Kernel) (i : Nat) (n : BitVec 32) : Except Panic (BitVec 32 × Kernel) :=
  let p := k.procs i
  match p.pagetable with
  | none => .error .nullPointer
  | some pagetable =>
    if 0 < n.toInt then do
      let (sz, ram) ← k.ram.uvmalloc pagetable p.sz (p.sz + n)
      if sz = 0 then return (-1, k.setRam ram)
      else return (0, (k.setProc i { p with sz := sz }).setRam ram)
    else if n.toInt < 0 then do
      let (sz, ram) ← k.ram.uvmdealloc pagetable p.sz (p.sz + n)
      return (0, (k.setProc i { p with sz := sz }).setRam ram)
    else return (0, k)

def sysSbrk (k : Kernel) (i : Nat) (n : BitVec 32) : Except Panic (BitVec 32 × Kernel) := do
  let addr := (k.procs i).sz
  let (result, k) ← k.growproc i n
  if result.toInt < 0 then return (-1, k) else return (addr, k)

/-- The round of `fork` for one descriptor. -/
def forkFile (i j : Nat) (k : Kernel) (fd : Nat) : Except Panic Kernel :=
  match (k.procs i).ofile fd with
  | none => return k
  | some f => do
      let ft ← k.filedup f
      let np := k.procs j
      return (k.setFtable ft).setProc j { np with ofile := Function.update np.ofile fd (some f) }

def fork (k : Kernel) (i : Nat) : Except Panic (BitVec 32 × Kernel) := do
  let (slot, k) ← k.allocproc
  match slot with
  | none => return (-1, k)
  | some j =>
    let p := k.procs i
    let np := k.procs j
    match p.pagetable, p.trapframe, np.pagetable, np.trapframe with
    | some old, some trapframe, some new, some trapframe' =>
      let (copied, ram) ← k.ram.uvmcopy old new p.sz
      if copied then
        let ram := ram.memmove trapframe' 0 (ram.read trapframe 0 trapframeSize)
        let ram := ram.setReg trapframe' a0Offset 0
        let k := (k.setProc j { np with sz := p.sz }).setRam ram
        let k ← (List.range NOFILE).foldlM (forkFile i j) k
        let np := { k.procs j with name := p.name, parent := some i, state := .runnable }
        return (np.pid, k.setProc j np)
      else
        let k ← (k.setRam ram).freeproc j
        return (-1, k)
    | _, _, _, _ => .error .nullPointer

def reparent (k : Kernel) (i : Nat) : Kernel :=
  { k with procs := fun j =>
      if (k.procs j).parent = some i then { k.procs j with parent := some k.initproc }
      else k.procs j }

/-- The round of `exit` for one descriptor. -/
def exitFile (i : Nat) (k : Kernel) (fd : Nat) : Except Panic Kernel :=
  match (k.procs i).ofile fd with
  | none => return k
  | some f => do
      let ft ← k.fileclose f
      let p := k.procs i
      return (k.setFtable ft).setProc i { p with ofile := Function.update p.ofile fd none }

def exit (k : Kernel) (i : Nat) (status : BitVec 32) : Except Panic Kernel :=
  if i = k.initproc then .error .initExiting
  else do
    let k ← (List.range NOFILE).foldlM (exitFile i) k
    let k := k.reparent i
    return k.setProc i { k.procs i with xstate := status, state := .zombie }

def wordBytes (word : BitVec 32) : List (BitVec 8) :=
  [word.extractLsb' 0 8, word.extractLsb' 8 8, word.extractLsb' 16 8, word.extractLsb' 24 8]

/-- `wait`; a call that has to sleep has no effect. -/
def wait (k : Kernel) (i : Nat) (addr : BitVec 32) : Except Panic (BitVec 32 × Kernel) :=
  match (List.range NPROC).find? fun j =>
      (k.procs j).parent = some i ∧ (k.procs j).state = .zombie with
  | none => return (-1, k)
  | some j =>
    match (k.procs i).pagetable with
    | none => .error .nullPointer
    | some pagetable => do
        let pid := (k.procs j).pid
        if addr ≠ 0 then
          let (copied, ram) ← k.ram.copyout pagetable addr (wordBytes (k.procs j).xstate)
          if copied then
            let k ← (k.setRam ram).freeproc j
            return (pid, k)
          else return (-1, k.setRam ram)
        else
          let k ← k.freeproc j
          return (pid, k)

/-! ## Descriptors -/

def fdalloc (k : Kernel) (i f : Nat) : Option Nat × Kernel :=
  match (List.range NOFILE).find? fun fd => (k.procs i).ofile fd = none with
  | none => (none, k)
  | some fd =>
    (some fd, k.setProc i { k.procs i with ofile := Function.update (k.procs i).ofile fd (some f) })

/-- `argfd`; the file of a descriptor. -/
def argfd (k : Kernel) (i : Nat) (fd : BitVec 32) : Option Nat :=
  if fd.toNat < NOFILE then (k.procs i).ofile fd.toNat else none

def clearFd (k : Kernel) (i fd : Nat) : Kernel :=
  k.setProc i { k.procs i with ofile := Function.update (k.procs i).ofile fd none }

def sysDup (k : Kernel) (i : Nat) (fd : BitVec 32) : Except Panic (BitVec 32 × Kernel) :=
  match k.argfd i fd with
  | none => return (-1, k)
  | some f =>
    match k.fdalloc i f with
    | (none, k) => return (-1, k)
    | (some new, k) => do
        let ft ← k.filedup f
        return (BitVec.ofNat 32 new, k.setFtable ft)

def sysClose (k : Kernel) (i : Nat) (fd : BitVec 32) : Except Panic (BitVec 32 × Kernel) :=
  match k.argfd i fd with
  | none => return (-1, k)
  | some f => do
      let k := k.clearFd i fd.toNat
      let ft ← k.fileclose f
      return (0, k.setFtable ft)

/-- The end of `sys_open`, for an inode that is locked and may be opened. -/
def sysOpen (k : Kernel) (i : Nat) (device readable writable : Bool) :
    Except Panic (BitVec 32 × Kernel) :=
  match k.filealloc with
  | (none, ft) => return (-1, k.setFtable ft)
  | (some f, ft) =>
    match (k.setFtable ft).fdalloc i f with
    | (none, k) => do
        let ft ← k.fileclose f
        return (-1, k.setFtable ft)
    | (some fd, k) =>
      let type := if device then FdType.device else FdType.inode
      return (BitVec.ofNat 32 fd, k.setFtable (k.setFile f
        { k.file f with type := type, readable := readable, writable := writable }))

/-- `sys_pipe` after an error: the descriptors are cleared and the files closed. -/
def sysPipeBad (k : Kernel) (i : Nat) (fds : List Nat) (rf wf : Nat) :
    Except Panic (BitVec 32 × Kernel) := do
  let k := fds.foldl (fun k fd => k.clearFd i fd) k
  let ft ← k.fileclose rf
  let ft ← ft.fileclose wf
  return (-1, k.setFtable ft)

def sysPipe (k : Kernel) (i : Nat) (fdarray : BitVec 32) : Except Panic (BitVec 32 × Kernel) := do
  let (ends, ft) ← k.pipealloc
  let k := k.setFtable ft
  match ends with
  | none => return (-1, k)
  | some (rf, wf) =>
    match k.fdalloc i rf with
    | (none, k) => k.sysPipeBad i [] rf wf
    | (some fd0, k) =>
      match k.fdalloc i wf with
      | (none, k) => k.sysPipeBad i [fd0] rf wf
      | (some fd1, k) =>
        match (k.procs i).pagetable with
        | none => .error .nullPointer
        | some pagetable => do
            let (copied, ram) ← k.ram.copyout pagetable fdarray (wordBytes (BitVec.ofNat 32 fd0))
            let k := k.setRam ram
            if copied then
              let (copied, ram) ←
                k.ram.copyout pagetable (fdarray + 4) (wordBytes (BitVec.ofNat 32 fd1))
              let k := k.setRam ram
              if copied then return (0, k) else k.sysPipeBad i [fd0, fd1] rf wf
            else k.sysPipeBad i [fd0, fd1] rf wf

end Kernel

end Xv6Rv32im.Process
