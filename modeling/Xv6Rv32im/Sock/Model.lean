import Mathlib.Data.BitVec
import Xv6Rv32im.Library.LinkedList
import Xv6Rv32im.Library.Run

/-!
# Sockets

`socket.c` with the tables of control blocks as far as it sees them: which blocks are used.  Calls
follow one another; a call that sleeps is one call until it returns.  Whether an open is refused
because its peer is in use, and which page `kalloc` hands out, is given with the call.
-/

namespace Xv6Rv32im.Sock

def CB_TABLE_SIZE : Nat := 16

def PAGES : Nat := 32768

inductive Table where
  | tcp
  | udp
  deriving DecidableEq

def tableOf (type : BitVec 8) : Option Table :=
  if type = 0 then some .tcp
  else if type = 1 then some .udp
  else none

structure Socket where
  nxt : Option Nat
  type : BitVec 8
  cbIdx : BitVec 8
  deriving DecidableEq

inductive Fault where
  /-- A pointer to a page that holds no socket is followed. -/
  | dangling
  | null
  /-- A loop does not end. -/
  | loops
  | filedup
  | fileclose
  deriving DecidableEq

/-- The pages with sockets, the global `sockets`, and the used blocks of the two tables. -/
structure Sockets where
  page : Nat → Option Socket
  sockets : Option Nat
  used : Table → Nat → Bool

namespace Sockets

def init : Sockets := ⟨fun _ => none, none, fun _ _ => false⟩

def setPage (st : Sockets) (p : Nat) (socket : Option Socket) : Sockets :=
  { st with page := Function.update st.page p socket }

def setUsed (st : Sockets) (t : Table) (i : Nat) (value : Bool) : Sockets :=
  { st with used := Function.update st.used t (Function.update (st.used t) i value) }

def freeBlock (st : Sockets) (t : Table) (refused : Bool) : Option Nat :=
  if refused then none else (List.range CB_TABLE_SIZE).find? fun i => !st.used t i

/-- `socket_alloc` from `kalloc` on; `cb_idx` is at first what `kalloc` fills pages with. -/
def socketAlloc (st : Sockets) (p : Nat) (type : BitVec 8) (refused : Bool) : Int × Sockets :=
  let s : Socket := ⟨st.sockets, type, 5⟩
  let st := { st.setPage p (some s) with sockets := some p }
  match tableOf type with
  | none => (-1, st)
  | some t =>
    match st.freeBlock t refused with
    | none => (0, st.setPage p (some { s with cbIdx := BitVec.ofInt 8 (-1) }))
    | some i =>
      (0, (st.setUsed t i true).setPage p (some { s with cbIdx := BitVec.ofNat 8 i }))

/-- The loop of `socket_close` that looks for the predecessor of `s`. -/
def unlinkFrom (st : Sockets) (s : Socket) : Nat → Nat → Except Fault Sockets
  | 0, _ => .error .loops
  | rounds + 1, shead =>
    match st.page shead with
    | none => .error .dangling
    | some head =>
      match head.nxt with
      | none => .ok st
      | some next =>
        match st.page next with
        | none => .error .dangling
        | some node =>
          if node.type = s.type ∧ node.cbIdx = s.cbIdx then
            .ok (st.setPage shead (some { head with nxt := s.nxt }))
          else unlinkFrom st s rounds next

def unlink (st : Sockets) (p : Nat) (s : Socket) : Except Fault Sockets :=
  match st.sockets with
  | none => .error .null
  | some shead =>
    match st.page shead with
    | none => .error .dangling
    | some head => do
        let st := if head.nxt = none then { st with sockets := none } else st
        let st ← st.unlinkFrom s (PAGES + 1) shead
        return st.setPage p none

/-- The block that `tcp_close` or `udp_close` clears for the socket, unless it fails. -/
def block (st : Sockets) (s : Socket) : Option (Table × Nat) :=
  match tableOf s.type with
  | none => none
  | some t =>
    let i := s.cbIdx.toNat
    if i < CB_TABLE_SIZE ∧ st.used t i = true then some (t, i) else none

def socketClose (st : Sockets) (p : Nat) : Except Fault (Int × Sockets) :=
  match st.page p with
  | none => .error .dangling
  | some s =>
    match st.block s with
    | none => .ok (-1, st)
    | some (t, i) => do
        let st ← (st.setUsed t i false).unlink p s
        return (0, st)

end Sockets

/-- A call of `socket_alloc` that gets the page, or one of `socket_close`. -/
inductive SocketCall where
  | alloc (page : Nat) (type : BitVec 8) (refused : Bool)
  | close (page : Nat)
  deriving DecidableEq

namespace Sockets

/-- `kalloc` hands out free pages only, and only sockets are closed. -/
def step (st : Sockets) : SocketCall → Except Fault Sockets
  | .alloc p type refused =>
    if p < PAGES ∧ st.page p = none then .ok (st.socketAlloc p type refused).2 else .ok st
  | .close p => if st.page p = none then .ok st else (st.socketClose p).map Prod.snd

end Sockets

end Xv6Rv32im.Sock
