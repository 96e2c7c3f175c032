import Xv6Rv32im.Library.Ring
import Xv6Rv32im.Library.Run

/-!
# The disk driver and its device

`virtio_disk_rw` by any number of processes, `virtio_disk_intr`, and a device that takes chains
of descriptors from one ring and returns their heads, in any order and with status 0, in the
other.  A step is a piece of a call between two points at which the device, the handler or another
process can come in between.  A process calls `virtio_disk_rw` with a buffer whose sleep-lock it
holds; `kill` makes a sleeping process go on although nobody woke it up.
-/

namespace Xv6Rv32im.Virtio

open Library.Ring Function

def NUM : Nat := 8

def BSIZE : Nat := 1024

inductive Panic where
  | freeDesc1
  | freeDesc2
  | intrStatus
  /-- The handler writes to a null buffer. -/
  | nullBuf
  /-- The loop of `free_chain` does not end. -/
  | endless
  deriving DecidableEq

/-- What a descriptor can point to. -/
inductive Addr where
  | null
  | op (i : Nat)
  | data (b : Nat)
  | status (i : Nat)
  deriving DecidableEq

structure Desc where
  addr : Addr
  len : Nat
  flags : BitVec 16
  next : Nat
  deriving DecidableEq

def VRING_DESC_F_NEXT : BitVec 16 := 1

def VRING_DESC_F_WRITE : BitVec 16 := 2

def VIRTIO_BLK_T_IN : BitVec 32 := 0

def VIRTIO_BLK_T_OUT : BitVec 32 := 1

structure Req where
  type : BitVec 32
  reserved : BitVec 32
  sector : BitVec 64
  deriving DecidableEq

structure Info where
  b : Option Nat
  status : BitVec 8
  deriving DecidableEq

/-- The fields of `struct buf` that the driver uses. -/
structure Buf where
  locked : Bool
  disk : Bool
  blockno : BitVec 32
  deriving DecidableEq

structure Idx where
  head : Nat
  data : Nat
  status : Nat
  deriving DecidableEq

inductive Chan where
  | free
  | buf (b : Nat)
  deriving DecidableEq

/-- Where a process is in `virtio_disk_rw`. -/
inductive Call where
  | idle
  | start (b : Nat) (write : Bool)
  | alloc (b : Nat) (write : Bool)
  | retry (b : Nat) (write : Bool)
  | format (b : Nat) (write : Bool) (idx : Idx)
  | publish (b : Nat) (idx : Idx)
  | wait (b : Nat) (idx : Idx)
  | rewait (b : Nat) (idx : Idx)
  | finish (b : Nat) (idx : Idx)
  deriving DecidableEq

structure Proc where
  sleeping : Option Chan
  call : Call
  deriving DecidableEq

inductive Owner where
  | handler
  | proc (p : Nat)
  deriving DecidableEq

/-- `struct disk` (without `pages`), the buffers, the device and the processes. -/
structure System where
  free : Nat → Bool
  desc : Nat → Desc
  ops : Nat → Req
  info : Nat → Info
  availRing : Nat → Nat
  availIdx : BitVec 16
  usedRing : Nat → Nat
  /-- `used->idx`, which the device increments. -/
  usedIdx : BitVec 16
  /-- `disk.used_idx`, how far the handler has looked. -/
  seenIdx : BitVec 16
  /-- How far the device has looked in the avail ring. -/
  fetchedIdx : BitVec 16
  /-- The chains the device is working on. -/
  pending : List Nat
  bufs : Nat → Buf
  holder : Option Owner
  procs : Nat → Proc

/-- What `virtio_disk_init` leaves. -/
def System.init : System where
  free := fun _ => true
  desc := fun _ => ⟨.null, 0, 0, 0⟩
  ops := fun _ => ⟨0, 0, 0⟩
  info := fun _ => ⟨none, 0⟩
  availRing := fun _ => 0
  availIdx := 0
  usedRing := fun _ => 0
  usedIdx := 0
  seenIdx := 0
  fetchedIdx := 0
  pending := []
  bufs := fun _ => ⟨false, false, 0⟩
  holder := none
  procs := fun _ => ⟨none, .idle⟩

inductive Event where
  /-- A process locks a buffer of a block and calls `virtio_disk_rw`. -/
  | request (p b : Nat) (blockno : BitVec 32) (write : Bool)
  | go (p : Nat)
  | kill (p : Nat)
  | interrupt
  /-- The device takes the next chain. -/
  | fetch
  /-- The device returns one of its chains. -/
  | complete (k : Nat)
  deriving DecidableEq

namespace System

def setProc (s : System) (p : Nat) (proc : Proc) : System :=
  { s with procs := update s.procs p proc }

def setCall (s : System) (p : Nat) (call : Call) : System :=
  s.setProc p { s.procs p with call := call }

def wakeup (s : System) (chan : Chan) : System :=
  { s with procs := fun q =>
      if (s.procs q).sleeping = some chan then { s.procs q with sleeping := none } else s.procs q }

/-- `acquire`, or spin while another has the lock. -/
def acquire (s : System) (p : Nat) (call : Call) : System :=
  if s.holder = none then { s.setCall p call with holder := some (.proc p) } else s

def sleep (s : System) (p : Nat) (chan : Chan) (call : Call) : System :=
  { s.setProc p ⟨some chan, call⟩ with holder := none }

def allocDesc (s : System) : Option Nat × System :=
  match (List.range NUM).find? s.free with
  | some i => (some i, { s with free := update s.free i false })
  | none => (none, s)

def freeDesc (s : System) (i : Nat) : Except Panic System :=
  if NUM ≤ i then .error .freeDesc1
  else if s.free i then .error .freeDesc2
  else
    let s := { s with
      desc := update s.desc i ⟨.null, 0, 0, 0⟩
      free := update s.free i true }
    .ok (s.wakeup .free)

/-- Each round frees a descriptor or panics, so that there are at most `NUM + 1`. -/
def freeChain : Nat → System → Nat → Except Panic System
  | 0, _, _ => .error .endless
  | rounds + 1, s, i => do
      let flag := (s.desc i).flags
      let nxt := (s.desc i).next
      let s ← s.freeDesc i
      if flag &&& VRING_DESC_F_NEXT ≠ 0 then freeChain rounds s nxt else .ok s

/-- The loop of `alloc3_desc`, with the descriptors it has so far. -/
def allocDescs : Nat → List Nat → System → Except Panic (Option (List Nat) × System)
  | 0, idx, s => .ok (some idx, s)
  | n + 1, idx, s =>
    match s.allocDesc with
    | (some i, s) => allocDescs n (idx ++ [i]) s
    | (none, s) => do
        let s ← idx.foldlM freeDesc s
        .ok (none, s)

def alloc3Desc (s : System) : Except Panic (Option (List Nat) × System) := allocDescs 3 [] s

/-- Format the three descriptors, record the buffer and store the head in the avail ring. -/
def format (s : System) (b : Nat) (write : Bool) (idx : Idx) : System :=
  let sector := (s.bufs b).blockno * BitVec.ofNat 32 (BSIZE / 512)
  let ops := update s.ops idx.head
    ⟨if write then VIRTIO_BLK_T_OUT else VIRTIO_BLK_T_IN, 0, sector.setWidth 64⟩
  let desc := update s.desc idx.head ⟨.op idx.head, 16, VRING_DESC_F_NEXT, idx.data⟩
  let desc := update desc idx.data
    ⟨.data b, BSIZE, (if write then 0 else VRING_DESC_F_WRITE) ||| VRING_DESC_F_NEXT, idx.status⟩
  let desc := update desc idx.status ⟨.status idx.head, 1, VRING_DESC_F_WRITE, 0⟩
  { s with
    ops := ops
    desc := desc
    info := update s.info idx.head ⟨some b, 0xff⟩
    bufs := update s.bufs b { s.bufs b with disk := true }
    availRing := update s.availRing (slot NUM s.availIdx) idx.head }

/-- The end of `virtio_disk_rw`.  The caller gives the buffer back. -/
def finish (s : System) (p b : Nat) (idx : Idx) : Except Panic System := do
  let info := update s.info idx.head { s.info idx.head with b := none }
  let s ← freeChain (NUM + 1) { s with info := info } idx.head
  .ok { s.setCall p .idle with
    bufs := update s.bufs b { s.bufs b with locked := false }
    holder := none }

def virtioDiskRw (s : System) (p : Nat) : Call → Except Panic System
  | .idle => .ok s
  | .start b write => .ok (s.acquire p (.alloc b write))
  | .alloc b write => do
      let (idx, s) ← s.alloc3Desc
      match idx with
      | some [head, data, status] => .ok (s.setCall p (.format b write ⟨head, data, status⟩))
      | _ => .ok (s.sleep p .free (.retry b write))
  | .retry b write => .ok (s.acquire p (.alloc b write))
  | .format b write idx => .ok ((s.format b write idx).setCall p (.publish b idx))
  | .publish b idx => .ok ({ s with availIdx := s.availIdx + 1 }.setCall p (.wait b idx))
  | .wait b idx =>
    if (s.bufs b).disk then .ok (s.sleep p (.buf b) (.rewait b idx))
    else .ok (s.setCall p (.finish b idx))
  | .rewait b idx => .ok (s.acquire p (.wait b idx))
  | .finish b idx => s.finish p b idx

/-- `b->disk = 0`, and on to the next entry of the used ring. -/
def handled (s : System) (b : Nat) : System :=
  { s with
    bufs := update s.bufs b { s.bufs b with disk := false }
    seenIdx := s.seenIdx + 1 }

/-- The handler takes the lock, treats one entry of the used ring, or returns. -/
def virtioDiskIntr (s : System) : Except Panic System :=
  match s.holder with
  | none => .ok { s with holder := some .handler }
  | some (.proc _) => .ok s
  | some .handler =>
    if s.seenIdx = s.usedIdx then .ok { s with holder := none }
    else
      let id := s.usedRing (slot NUM s.seenIdx)
      if (s.info id).status ≠ 0 then .error .intrStatus
      else
        match (s.info id).b with
        | none => .error .nullBuf
        | some b => .ok ((s.handled b).wakeup (.buf b))

/-- The device takes the next chain from the avail ring. -/
def fetch (s : System) : System :=
  if s.fetchedIdx = s.availIdx then s
  else
    { s with
      fetchedIdx := s.fetchedIdx + 1
      pending := s.pending ++ [s.availRing (slot NUM s.fetchedIdx)] }

/-- The device writes status 0 where the third descriptor of a chain says. -/
def writeStatus (s : System) (head : Nat) : System :=
  match (s.desc (s.desc (s.desc head).next).next).addr with
  | .status i => { s with info := update s.info i { s.info i with status := 0 } }
  | _ => s

def complete (s : System) (k : Nat) : System :=
  match s.pending[k]? with
  | none => s
  | some head =>
    let s := s.writeStatus head
    { s with
      usedRing := update s.usedRing (slot NUM s.usedIdx) head
      usedIdx := s.usedIdx + 1
      pending := s.pending.eraseIdx k }

def request (s : System) (p b : Nat) (blockno : BitVec 32) (write : Bool) : System :=
  if (s.procs p).call = .idle ∧ (s.bufs b).locked = false then
    { s.setCall p (.start b write) with
      bufs := update s.bufs b { s.bufs b with locked := true, blockno := blockno } }
  else s

def step (s : System) : Event → Except Panic System
  | .request p b blockno write => .ok (s.request p b blockno write)
  | .go p => if (s.procs p).sleeping = none then s.virtioDiskRw p (s.procs p).call else .ok s
  | .kill p => .ok (s.setProc p { s.procs p with sleeping := none })
  | .interrupt => s.virtioDiskIntr
  | .fetch => .ok s.fetch
  | .complete k => .ok (s.complete k)

end System

end Xv6Rv32im.Virtio
