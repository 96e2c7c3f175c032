import Xv6Rv32im.Process.Model

/-!
# `exec`

`exec.c` and `sys_exec`.  The program file is the list of its bytes, whatever they
are.  `sys_exec` is two steps: it first fetches the arguments into pages of their own
and then runs `exec`, during which other processes may run.
-/

namespace Xv6Rv32im.Process

open Library.ByteWords Vm

def MAXARG : Nat := 32

/-- `readi` of a file into kernel memory: the bytes read. -/
def readi (file : List (BitVec 8)) (off n : BitVec 32) : List (BitVec 8) :=
  if off.toNat > file.length ∨ off + n < off then []
  else (file.drop off.toNat).take n.toNat

def field32 (bytes : List (BitVec 8)) (offset : Nat) : BitVec 32 :=
  load32 (fun k => bytes.getD k 0) offset

def elfhdrSize : Nat := 52

def proghdrSize : Nat := 28

def ELF_MAGIC : BitVec 32 := 0x464C457F
def ELF_PROG_LOAD : BitVec 32 := 1

structure Elfhdr where
  magic : BitVec 32
  entry : BitVec 32
  phoff : BitVec 32
  phnum : BitVec 16

def Elfhdr.ofBytes (bytes : List (BitVec 8)) : Elfhdr where
  magic := field32 bytes 0
  entry := field32 bytes 24
  phoff := field32 bytes 28
  phnum := bytes.getD 45 0 ++ bytes.getD 44 0

structure Proghdr where
  type : BitVec 32
  off : BitVec 32
  vaddr : BitVec 32
  filesz : BitVec 32
  memsz : BitVec 32

def Proghdr.ofBytes (bytes : List (BitVec 8)) : Proghdr where
  type := field32 bytes 0
  off := field32 bytes 4
  vaddr := field32 bytes 8
  filesz := field32 bytes 16
  memsz := field32 bytes 20

end Xv6Rv32im.Process

namespace Xv6Rv32im.Vm.Ram

open Process

variable [Layout]

/-- The loop of `loadseg`, from offset `i` on. -/
def loadsegFrom (pagetable va : BitVec 32) (file : List (BitVec 8)) (offset sz : BitVec 32) :
    Nat → Ram → BitVec 32 → Except Panic (Bool × Ram)
  | 0, _, _ => .error .outOfFuel
  | fuel + 1, ram, i =>
    if i < sz then do
      let pa ← ram.walkaddr pagetable (va + i)
      if pa = 0 then .error .loadsegAddressShouldExist
      else
        let n := if sz - i < 4096 then sz - i else 4096
        let bytes := readi file (offset + i) n
        let ram := ram.memmove pa 0 bytes
        if bytes.length ≠ n.toNat then return (false, ram)
        else loadsegFrom pagetable va file offset sz fuel ram (i + 4096)
    else return (true, ram)

/-- `loadseg`; whether it succeeded. -/
def loadseg (ram : Ram) (pagetable va : BitVec 32) (file : List (BitVec 8))
    (offset sz : BitVec 32) : Except Panic (Bool × Ram) :=
  if va.toNat % PGSIZE ≠ 0 then .error .loadsegVaMustBePageAligned
  else loadsegFrom pagetable va file offset sz (2 ^ 20) ram 0

/-- The loop of `exec` over the program headers that remain.  Whether it went through,
and the size so far. -/
def loadSegments (pagetable : BitVec 32) (file : List (BitVec 8)) :
    Nat → BitVec 32 → BitVec 32 → Ram → Except Panic (Bool × BitVec 32 × Ram)
  | 0, _, sz, ram => return (true, sz, ram)
  | remaining + 1, off, sz, ram =>
    let bytes := readi file off (BitVec.ofNat 32 proghdrSize)
    let ph := Proghdr.ofBytes bytes
    if bytes.length ≠ proghdrSize then return (false, sz, ram)
    else if ph.type ≠ ELF_PROG_LOAD then
      loadSegments pagetable file remaining (off + BitVec.ofNat 32 proghdrSize) sz ram
    else if ph.memsz < ph.filesz then return (false, sz, ram)
    else if ph.vaddr + ph.memsz < ph.vaddr then return (false, sz, ram)
    else do
      let (sz1, ram) ← ram.uvmalloc pagetable sz (ph.vaddr + ph.memsz)
      if sz1 = 0 then return (false, sz, ram)
      else if ph.vaddr.toNat % PGSIZE ≠ 0 then return (false, sz1, ram)
      else
        let (loaded, ram) ← ram.loadseg pagetable ph.vaddr file ph.off ph.filesz
        if loaded then
          loadSegments pagetable file remaining (off + BitVec.ofNat 32 proghdrSize) sz1 ram
        else return (false, sz1, ram)

def cstring (ram : Ram) (page : BitVec 32) : List (BitVec 8) :=
  (ram.read page 0 PGSIZE).takeWhile (· ≠ 0)

def push (sp : BitVec 32) (n : Nat) : BitVec 32 :=
  let sp := sp - BitVec.ofNat 32 n
  sp - sp % 16

/-- The loop of `exec` over the arguments.  The stack pointer and `ustack`, or `none` on
an error. -/
def pushArgs (pagetable stackbase : BitVec 32) :
    List (BitVec 32) → BitVec 32 → List (BitVec 32) → Ram →
      Except Panic (Option (BitVec 32 × List (BitVec 32)) × Ram)
  | [], sp, ustack, ram => return (some (sp, ustack), ram)
  | arg :: argv, sp, ustack, ram =>
    if ustack.length ≥ MAXARG then return (none, ram)
    else
      let text := ram.cstring arg ++ [0]
      let sp := push sp text.length
      if sp < stackbase then return (none, ram)
      else do
        let (copied, ram) ← ram.copyout pagetable sp text
        if copied then pushArgs pagetable stackbase argv sp (ustack ++ [sp]) ram
        else return (none, ram)

/-- What `exec` does after the segments: the stack with the arguments.  The new size, and
the stack pointer and `argc`, or `none` on an error. -/
def buildStack (ram : Ram) (pagetable sz : BitVec 32) (argv : List (BitVec 32)) :
    Except Panic (BitVec 32 × Option (BitVec 32 × BitVec 32) × Ram) := do
  let sz := pgRoundUp sz
  let (sz1, ram) ← ram.uvmalloc pagetable sz (sz + 2 * 4096)
  if sz1 = 0 then return (sz, none, ram)
  else
    let ram ← ram.uvmclear pagetable (sz1 - 2 * 4096)
    let stackbase := sz1 - 4096
    let (pushed, ram) ← pushArgs pagetable stackbase argv sz1 [] ram
    match pushed with
    | none => return (sz1, none, ram)
    | some (sp, ustack) =>
      let words := ustack ++ [0]
      let sp := push sp (4 * words.length)
      if sp < stackbase then return (sz1, none, ram)
      else
        let (copied, ram) ← ram.copyout pagetable sp (words.flatMap Kernel.wordBytes)
        if copied then return (sz1, some (sp, BitVec.ofNat 32 ustack.length), ram)
        else return (sz1, none, ram)

end Xv6Rv32im.Vm.Ram

namespace Xv6Rv32im.Process

open Vm

def lastComponent : List (BitVec 8) → List (BitVec 8) → List (BitVec 8)
  | [], last => last
  | c :: rest, last => lastComponent rest (if c = 0x2f then rest else last)

namespace Kernel

variable [Layout]

/-- The part of `exec` behind the label `bad`. -/
def execBad (k : Kernel) (ram : Ram) (pagetable sz : BitVec 32) :
    Except Panic (BitVec 32 × Kernel) := do
  let ram ← ram.procFreepagetable pagetable sz
  return (-1, k.setRam ram)

/-- `exec`, given what `namei` finds at the path. -/
def exec (k : Kernel) (i : Nat) (path : List (BitVec 8)) (file : Option (List (BitVec 8)))
    (argv : List (BitVec 32)) : Except Panic (BitVec 32 × Kernel) :=
  match file with
  | none => return (-1, k)
  | some file =>
    let header := readi file 0 (BitVec.ofNat 32 elfhdrSize)
    let elf := Elfhdr.ofBytes header
    let p := k.procs i
    if header.length ≠ elfhdrSize then return (-1, k)
    else if elf.magic ≠ ELF_MAGIC then return (-1, k)
    else
      match p.trapframe, p.pagetable with
      | some trapframe, some oldpagetable => do
          let (created, ram) ← k.ram.procPagetable trapframe
          match created with
          | none => return (-1, k.setRam ram)
          | some pagetable =>
            let (loaded, sz, ram) ← Ram.loadSegments pagetable file elf.phnum.toNat elf.phoff 0 ram
            if loaded then
              let (sz, pushed, ram) ← ram.buildStack pagetable sz argv
              match pushed with
              | none => k.execBad ram pagetable sz
              | some (sp, argc) =>
                let ram := ram.setReg trapframe a1Offset sp
                let ram := ram.setReg trapframe epcOffset elf.entry
                let ram := ram.setReg trapframe spOffset sp
                let ram ← ram.procFreepagetable oldpagetable p.sz
                return (argc, (k.setProc i { p with
                  pagetable := some pagetable
                  sz := sz
                  name := (lastComponent path path).take 15 }).setRam ram)
            else k.execBad ram pagetable sz
      | _, _ => .error .nullPointer

def fetchaddr (k : Kernel) (i : Nat) (addr : BitVec 32) : Except Panic (Option (BitVec 32)) :=
  let p := k.procs i
  if addr ≥ p.sz ∨ addr + 4 > p.sz then return none
  else
    match p.pagetable with
    | none => .error .nullPointer
    | some pagetable => do
        let bytes ← k.ram.copyin pagetable addr 4
        return bytes.map fun bytes => field32 bytes 0

/-- The loop of `sys_exec` that fetches the arguments; `remaining` is how far `i` is
from `NELEM(argv)`.  Whether it reached the end of the array, and the pages in `argv`. -/
def fetchArgv (i : Nat) (uargv : BitVec 32) :
    Nat → Kernel → List (BitVec 32) → Except Panic (Bool × List (BitVec 32) × Kernel)
  | 0, k, argv => return (false, argv, k)
  | remaining + 1, k, argv => do
      let uarg ← k.fetchaddr i (uargv + 4 * BitVec.ofNat 32 argv.length)
      match uarg with
      | none => return (false, argv, k)
      | some uarg =>
        if uarg = 0 then return (true, argv, k)
        else
          match k.ram.kalloc with
          | (none, ram) => return (false, argv, k.setRam ram)
          | (some page, ram) =>
            match (k.procs i).pagetable with
            | none => .error .nullPointer
            | some pagetable => do
                let (fetched, bytes) ← ram.copyinstr pagetable uarg PGSIZE
                let k := k.setRam (ram.memmove page 0 bytes)
                if fetched then fetchArgv i uargv remaining k (argv ++ [page])
                else return (false, argv ++ [page], k)

def freeArgv (k : Kernel) (argv : List (BitVec 32)) : Except Panic Kernel := do
  let ram ← argv.foldlM Ram.kfree k.ram
  return k.setRam ram

/-- `sys_exec` up to the call of `exec`. -/
def sysExecFetch (k : Kernel) (i : Nat) (uargv : BitVec 32) :
    Except Panic (BitVec 32 × Kernel) := do
  let (fetched, argv, k) ← fetchArgv i uargv MAXARG k []
  if fetched then return (0, k.setProc i { k.procs i with argv := some argv })
  else
    let k ← k.freeArgv argv
    return (-1, k)

/-- `sys_exec` from the call of `exec` on. -/
def sysExec (k : Kernel) (i : Nat) (path : List (BitVec 8)) (file : Option (List (BitVec 8)))
    (argv : List (BitVec 32)) : Except Panic (BitVec 32 × Kernel) := do
  let (result, k) ← k.exec i path file argv
  let k ← k.freeArgv argv
  return (result, k.setProc i { k.procs i with argv := none })

/-! ## Steps -/

inductive Call where
  | fork
  | exit (status : BitVec 32)
  | wait (addr : BitVec 32)
  | sbrk (n : BitVec 32)
  | execFetch (uargv : BitVec 32)
  | exec (path : List (BitVec 8)) (file : Option (List (BitVec 8)))
  | pipe (fdarray : BitVec 32)
  | dup (fd : BitVec 32)
  | close (fd : BitVec 32)
  | openFile (device readable writable : Bool)
  | store (va : BitVec 32) (byte : BitVec 8)

/-- A call by the process in a slot; `denials` says which calls of `kalloc` fail. -/
structure Event where
  slot : Nat
  denials : List Bool
  call : Call

def perform (k : Kernel) (i : Nat) : Call → Except Panic Kernel
  | .fork => do return (← k.fork i).2
  | .exit status => k.exit i status
  | .wait addr => do return (← k.wait i addr).2
  | .sbrk n => do return (← k.sysSbrk i n).2
  | .execFetch uargv => do return (← k.sysExecFetch i uargv).2
  | .exec _ _ => return k
  | .pipe fdarray => do return (← k.sysPipe i fdarray).2
  | .dup fd => do return (← k.sysDup i fd).2
  | .close fd => do return (← k.sysClose i fd).2
  | .openFile device readable writable => do
      return (← k.sysOpen i device readable writable).2
  | .store va byte =>
    match (k.procs i).pagetable with
    | none => return k
    | some pagetable => return k.setRam (k.ram.userStore pagetable va byte)

/-- A step.  Only a process that runs can make a call, and one with an `exec` in progress
goes on with it. -/
def step (k : Kernel) (event : Event) : Except Panic Kernel :=
  let k := k.setRam { k.ram with denials := event.denials }
  if event.slot < NPROC ∧ (k.procs event.slot).state = .runnable then
    match (k.procs event.slot).argv, event.call with
    | none, call => k.perform event.slot call
    | some argv, .exec path file => do return (← k.sysExec event.slot path file argv).2
    | some _, _ => return k
  else return k

end Kernel

end Xv6Rv32im.Process
