import Xv6Rv32im.Library.WeakestPre
import Xv6Rv32im.Net.Stack

/-!
# The locks of the network stack

The calls of `tcp.c` and `udp.c` with every `acquire` and `release` written out.  While a call
sleeps, other processes change the tables; what they leave is given with the call.
-/

namespace Xv6Rv32im.Net

open Library.WeakestPre Function
open Tcp (Memory TcpStack toggleEndian16 toggleEndian32)

/-- The TCP lock, the UDP lock, and the lock of a UDP control block. -/
inductive Lock where
  | tcp
  | udp
  | cb (i : Nat)
  deriving DecidableEq

/-- Why a call does not return: it waits for a lock, releases one that it does not hold, sleeps,
or panics. -/
inductive Stuck where
  | acquire
  | release
  | asleep
  | fault
  deriving DecidableEq

/-- The tables, the locks, and the tables as other processes leave them for each wakeup. -/
structure Kernel where
  net : NetStack
  held : Lock → Bool
  wakes : List NetStack

abbrev Call := StateT Kernel (Except Stuck)

namespace Kernel

def setHeld (k : Kernel) (l : Lock) (value : Bool) : Kernel :=
  { k with held := update k.held l value }

end Kernel

/-! ## Locks and tables -/

def acquire (l : Lock) : Call Unit := do
  let k ← get
  if k.held l = true then throw .acquire else set (k.setHeld l true)

def release (l : Lock) : Call Unit := do
  let k ← get
  if k.held l = true then set (k.setHeld l false) else throw .release

/-- `initlock`, and `memset` over a lock. -/
def initlock (l : Lock) : Call Unit := modify fun k => k.setHeld l false

/-- `sleep(chan, lk)` from the release of `lk` until it is held again. -/
def sleep (l : Lock) : Call Unit := do
  release l
  let k ← get
  match k.wakes with
  | [] => throw .asleep
  | net :: rest => do
      set { k with net := net, wakes := rest }
      acquire l

/-- A change of the tables, unless it panics. -/
def change (f : NetStack → NetStack) : Call Unit := do
  let k ← get
  let net := f k.net
  if net.fault = none then set { k with net := net } else throw .fault

/-- A change of the TCP table; the segments it sends go out. -/
def changeTcp (f : TcpStack → TcpStack) : Call Unit := change fun net => net.tcpStep (f net.tcp)

/-! ## TCP -/

def tcpOpenFrom (ip : BitVec 32) (port : BitVec 16) : List Nat → Call Int
  | [] => do
      release .tcp
      return -1
  | i :: rest => do
      let k ← get
      let cb := k.net.tcp.cb i
      if cb.used = true then
        if cb.peerAddr = ip ∧ cb.peerPort = port then return -1
        else tcpOpenFrom ip port rest
      else do
        changeTcp fun s => s.modifyCb i fun cb => { cb with used := true }
        release .tcp
        return i

def tcpOpen (ip : BitVec 32) (port : BitVec 16) : Call Int := do
  acquire .tcp
  tcpOpenFrom ip port (List.range Tcp.TCP_CB_TABLE_SIZE)

/-- `tcp_close` sends the FIN, changes the state and sleeps. -/
def tcpFinish (i : Nat) (state : Tcp.TcpState) : Call Unit := do
  changeTcp fun s =>
    let cb := s.cb i
    let s := s.tcpTxEmpty i cb.sndNxt cb.rcvNxt (Tcp.TCP_FLG_FIN ||| Tcp.TCP_FLG_ACK)
    s.modifyCb i fun cb => { cb with state := state, sndNxt := cb.sndNxt + 1 }
  sleep .tcp

def tcpLeave (i : Nat) : Tcp.TcpState → Call Unit
  | .synRcvd | .established => tcpFinish i .finWait1
  | .closeWait => tcpFinish i .lastAck
  | _ => return ()

def tcpClose (soc : Int) : Call Int :=
  match TcpStack.socket soc with
  | none => return -1
  | some i => do
      acquire .tcp
      let k ← get
      let cb := k.net.tcp.cb i
      if cb.used = false then do
        release .tcp
        return -1
      else do
        tcpLeave i cb.state
        changeTcp fun s => TcpStack.tcpCbClear Tcp.TCP_CB_TABLE_SIZE s i
        release .tcp
        return 0

/-- The loop at the end of `tcp_connect`.  There are no more rounds than wakeups. -/
def awaitConnection (i : Nat) : Nat → Call Unit
  | 0 => throw .asleep
  | rounds + 1 => do
      let k ← get
      if (k.net.tcp.cb i).state = .synSent then do
        sleep .tcp
        awaitConnection i rounds
      else return ()

def tcpConnect (m : Option Mbuf) (soc : Int) (dstIp dstPort : BitVec 32) : Call Int :=
  match TcpStack.socket soc with
  | none => return -1
  | some i => do
      acquire .tcp
      let k ← get
      let cb := k.net.tcp.cb i
      if cb.used = false ∨ cb.state ≠ .closed then do
        release .tcp
        return -1
      else do
        let port := if cb.port = 0 then k.net.tcp.freePort else cb.port
        if port = 0 then do
          release .tcp
          return -1
        else do
          change fun net =>
            let (iss, s) := net.tcp.rand
            let s := s.modifyCb i fun cb =>
              { cb with
                port := port
                peerAddr := toggleEndian32 dstIp
                peerPort := toggleEndian16 (dstPort.setWidth 16)
                rcvWnd := BitVec.ofNat 16 Tcp.BUF_SIZE
                iss := iss }
            let s := s.tcpTx i (s.cb i).iss 0 Tcp.TCP_FLG_SYN 0
            net.tcpSendWith m (s.modifyCb i fun cb =>
              { cb with sndNxt := cb.iss + 1, state := .synSent })
          awaitConnection i (k.wakes.length + 1)
          release .tcp
          return 0

def tcpSend (m : Mbuf) (soc : Int) (len : BitVec 32) : Call Int :=
  match TcpStack.socket soc with
  | none => return -1
  | some i => do
      acquire .tcp
      let k ← get
      let cb := k.net.tcp.cb i
      if cb.used = false then do
        release .tcp
        return -1
      else if cb.txIsReady = false then do
        release .tcp
        return -1
      else do
        change fun net =>
          let s := net.tcp.tcpTx i cb.sndNxt cb.rcvNxt (Tcp.TCP_FLG_ACK ||| Tcp.TCP_FLG_PSH) len
          net.tcpSendWith (some m) (s.modifyCb i fun cb => { cb with sndNxt := cb.sndNxt + len })
        release .tcp
        return 0

@[irreducible] def total (net : NetStack) (i : Nat) : BitVec 32 :=
  BitVec.ofNat 32 Tcp.BUF_SIZE - (net.tcp.cb i).rcvWnd.setWidth 32

/-- `tcp_read` from its loop on; `copied` tells whether its `copyout` succeeds. -/
def tcpReadFrom (i : Nat) (size : BitVec 32) (copied : Bool) : Nat → Call Int
  | 0 => throw .asleep
  | rounds + 1 => do
      let k ← get
      let total := total k.net i
      if total = 0 then
        if (k.net.tcp.cb i).rxIsReady = false then do
          release .tcp
          return 0
        else do
          sleep .tcp
          tcpReadFrom i size copied rounds
      else if total.toNat > Tcp.BUF_SIZE then throw .fault
      else
        let len := if size < total then size else total
        if copied = false then return -1
        else do
          change fun net => { net with tcp := net.tcp.modifyCb i fun cb => { cb with
            buf := fun k => if k < (total - len).toNat then cb.buf (k + len.toNat) else cb.buf k
            rcvWnd := cb.rcvWnd + len.setWidth 16 } }
          release .tcp
          return len.toNat

def tcpRead (soc : Int) (size : BitVec 32) (copied : Bool) : Call Int :=
  match TcpStack.socket soc with
  | none => return -1
  | some i => do
      acquire .tcp
      let k ← get
      if (k.net.tcp.cb i).used = false then do
        release .tcp
        return -1
      else tcpReadFrom i size copied (k.wakes.length + 1)

def tcpRx (packet : Tcp.Packet) : Call Int :=
  let hdr := Tcp.loadTcpHdr packet.data
  if packet.len.toNat < Tcp.TCP_HDR_SIZE then return 0
  else do
    acquire .tcp
    let k ← get
    match k.net.tcp.selectCb packet hdr with
    | none => do
        release .tcp
        return 0
    | some (i, s) =>
      let diff : BitVec 16 :=
        (hdr.off >>> 4).setWidth 16 * 4 - BitVec.ofNat 16 Tcp.TCP_HDR_SIZE
      match s.tcpIncomingEvent i packet.data (packet.len.setWidth 32 - diff.setWidth 32) with
      | .error _ => throw .fault
      | .ok s => do
          changeTcp fun _ => s
          release .tcp
          return 0

/-! ## UDP -/

def udpOpenFrom (ip : BitVec 32) (port : BitVec 16) : List Nat → Call Int
  | [] => do
      release .udp
      return -1
  | i :: rest => do
      let k ← get
      let cb := k.net.udp i
      if cb.used = true then
        if cb.peerAddr = ip ∧ cb.peerPort = port then return -1
        else udpOpenFrom ip port rest
      else do
        change fun net => net.setUdp i { net.udp i with used := true }
        release .udp
        return i

def udpOpen (ip : BitVec 32) (port : BitVec 16) : Call Int := do
  acquire .udp
  udpOpenFrom ip port (List.range UDP_CB_TABLE_SIZE)

def udpSocket (soc : Int) : Option Nat :=
  if soc < 0 ∨ soc ≥ UDP_CB_TABLE_SIZE then none else some soc.toNat

def udpClose (soc : Int) : Call Int :=
  match udpSocket soc with
  | none => return -1
  | some i => do
      acquire .udp
      let k ← get
      if (k.net.udp i).used = false then do
        release .udp
        return -1
      else do
        change fun net => net.setUdp i .zero
        initlock (.cb i)
        release .udp
        return 0

def setPeer (net : NetStack) (i : Nat) (dstIp dstPort : BitVec 32) : NetStack :=
  net.setUdp i { net.udp i with
    peerAddr := toggleEndian32 dstIp
    peerPort := toggleEndian16 (dstPort.setWidth 16) }

def udpConnect (soc : Int) (dstIp dstPort : BitVec 32) : Call Int :=
  match udpSocket soc with
  | none => return -1
  | some i => do
      acquire .udp
      let k ← get
      if (k.net.udp i).used = false then do
        release .udp
        return -1
      else do
        change fun net => setPeer net i dstIp dstPort
        let k ← get
        let port := if (k.net.udp i).port = 0 then k.net.udpFreePort else (k.net.udp i).port
        change fun net => net.setUdp i { net.udp i with port := port }
        if port = 0 then do
          release .udp
          return -1
        else do
          initlock (.cb i)
          release .udp
          return 0

def udpSend (m : Mbuf) (soc : Int) : Call Int :=
  match udpSocket soc with
  | none => return -1
  | some i => do
      acquire .udp
      let k ← get
      if (k.net.udp i).used = false then do
        release .udp
        return -1
      else do
        change fun net => net.udpTx m (net.udp i)
        release .udp
        return 0

/-- `udp_read` from its loop on. -/
def udpReadFrom (i : Nat) (len : BitVec 32) (copied : Bool) : Nat → Call Int
  | 0 => throw .asleep
  | rounds + 1 => do
      let k ← get
      match (k.net.udp i).mbufs with
      | [] => do
          sleep (.cb i)
          udpReadFrom i len copied rounds
      | m :: rest => do
          change fun net => net.setUdp i { net.udp i with mbufs := rest }
          let len := if len > m.len then m.len else len
          if copied = false then do
            release (.cb i)
            change fun net => net.mbufFree m
            return -1
          else do
            release (.cb i)
            change fun net => net.mbufFree m
            return len.toNat

/-- `udp_read`, which does not check the index. -/
def udpRead (soc : Nat) (len : BitVec 32) (copied : Bool) : Call Int :=
  if soc ≥ UDP_CB_TABLE_SIZE then throw .fault
  else do
    acquire (.cb soc)
    let k ← get
    udpReadFrom soc len copied (k.wakes.length + 1)

def udpRx (m : Mbuf) (len : BitVec 16) (iphdr : Nat) : Call Int :=
  if len.toNat < UDP_HDR_SIZE then return 0
  else do
    let (udphdr, m) := m.pop (BitVec.ofNat 32 UDP_HDR_SIZE)
    let udphdr := udphdr.getD 0
    let k ← get
    match k.net.findUdpCb (Tcp.load32 k.net.mem (iphdr + 12)) (Tcp.load16 k.net.mem udphdr)
        (Tcp.load16 k.net.mem (udphdr + 2)) with
    | none => do
        change fun net => net.mbufFree m
        return 0
    | some i => do
        acquire (.cb i)
        change fun net => net.setUdp i { net.udp i with mbufs := (net.udp i).mbufs ++ [m] }
        release (.cb i)
        return 0

/-! ## What each call leaves of the locks -/

inductive NetCall where
  | tcpOpen (ip : BitVec 32) (port : BitVec 16)
  | tcpConnect (m : Option Mbuf) (soc : Int) (dstIp dstPort : BitVec 32)
  | tcpClose (soc : Int)
  | tcpSend (m : Mbuf) (soc : Int) (len : BitVec 32)
  | tcpRead (soc : Int) (size : BitVec 32) (copied : Bool)
  | tcpRx (packet : Tcp.Packet)
  | udpOpen (ip : BitVec 32) (port : BitVec 16)
  | udpConnect (soc : Int) (dstIp dstPort : BitVec 32)
  | udpClose (soc : Int)
  | udpSend (m : Mbuf) (soc : Int)
  | udpRead (soc : Nat) (len : BitVec 32) (copied : Bool)
  | udpRx (m : Mbuf) (len : BitVec 16) (iphdr : Nat)

def NetCall.perform : NetCall → Call Int
  | .tcpOpen ip port => Net.tcpOpen ip port
  | .tcpConnect m soc dstIp dstPort => Net.tcpConnect m soc dstIp dstPort
  | .tcpClose soc => Net.tcpClose soc
  | .tcpSend m soc len => Net.tcpSend m soc len
  | .tcpRead soc size copied => Net.tcpRead soc size copied
  | .tcpRx packet => Net.tcpRx packet
  | .udpOpen ip port => Net.udpOpen ip port
  | .udpConnect soc dstIp dstPort => Net.udpConnect soc dstIp dstPort
  | .udpClose soc => Net.udpClose soc
  | .udpSend m soc => Net.udpSend m soc
  | .udpRead soc len copied => Net.udpRead soc len copied
  | .udpRx m len iphdr => Net.udpRx m len iphdr

def reuses (used same : Nat → Bool) : List Nat → Bool
  | [] => false
  | i :: rest => used i && (same i || reuses used same rest)

def dataArrives (i : Nat) : List NetStack → Bool
  | [] => false
  | net :: rest =>
    if total net i = 0 then (net.tcp.cb i).rxIsReady && dataArrives i rest else true

/-- The calls that return with a lock changed: an open for a peer in use, a read whose copy fails,
and those that overwrite the lock of a block while it is held. -/
def NetCall.Leaks (k : Kernel) : NetCall → Prop
  | .tcpOpen ip port => reuses (fun i => (k.net.tcp.cb i).used)
      (fun i => decide ((k.net.tcp.cb i).peerAddr = ip ∧ (k.net.tcp.cb i).peerPort = port))
      (List.range Tcp.TCP_CB_TABLE_SIZE) = true
  | .udpOpen ip port => reuses (fun i => (k.net.udp i).used)
      (fun i => decide ((k.net.udp i).peerAddr = ip ∧ (k.net.udp i).peerPort = port))
      (List.range UDP_CB_TABLE_SIZE) = true
  | .tcpRead soc _ copied => copied = false ∧ ∃ i, TcpStack.socket soc = some i ∧
      (k.net.tcp.cb i).used = true ∧ dataArrives i (k.net :: k.wakes) = true
  | .udpClose soc => ∃ i, udpSocket soc = some i ∧ (k.net.udp i).used = true ∧
      k.held (.cb i) = true
  | .udpConnect soc dstIp dstPort => ∃ i, udpSocket soc = some i ∧ (k.net.udp i).used = true ∧
      ((k.net.udp i).port ≠ 0 ∨ (setPeer k.net i dstIp dstPort).udpFreePort ≠ 0) ∧
      k.held (.cb i) = true
  | _ => False

/-! ## Rules for locks -/

/-- A call may fail to return for any reason. -/
def anyhow : Stuck → Prop := fun _ => True

section

variable {k : Kernel} {l : Lock} {α : Type} {held : Lock → Bool} {rest : Unit → Call α}
  {post : α → Kernel → Prop}

/-- What follows `acquire` runs with the lock taken. -/
theorem wp_acquire (body : ∀ k', k.held l = false → k'.held = update k.held l true →
    k'.net = k.net → k'.wakes = k.wakes → wp (rest ()) post anyhow k') :
    wp (acquire l >>= rest) post anyhow k := by
  unfold acquire
  simp only [wp_bind, wp_get, wp_ite, wp_throw, wp_set]
  split
  · exact trivial
  next free => exact body _ (Bool.eq_false_iff.mpr free) rfl rfl rfl

theorem wp_change {f : NetStack → NetStack}
    (body : ∀ k', k'.held = k.held → k'.net = f k.net → wp (rest ()) post anyhow k') :
    wp (change f >>= rest) post anyhow k := by
  unfold change
  simp only [wp_bind, wp_get, wp_ite, wp_throw, wp_set]
  split
  · exact body _ rfl rfl
  · exact trivial

theorem wp_release (took : k.held = update held l true)
    (body : ∀ k', k'.held = update held l false → k'.net = k.net → k'.wakes = k.wakes →
      wp (rest ()) post anyhow k') : wp (release l >>= rest) post anyhow k := by
  have isHeld : k.held l = true := by rw [took, update_self]
  unfold release Kernel.setHeld
  simp only [wp_bind, wp_get, isHeld, if_true, wp_set]
  refine body _ ?_ rfl rfl
  rw [took, update_idem]

/-- `release` and return, with the locks as they were before `acquire`. -/
theorem wp_release_return (value : α) (took : k.held = update held l true) (free : held l = false) :
    wp (do release l; return value) (fun _ after => after.held = held) anyhow k := by
  refine wp_release took fun k' same _ _ => ?_
  rw [wp_pure, same, ← free, update_eq_self]

/-- After `sleep` the call holds the lock again, and finds the tables of the next wakeup. -/
theorem wp_sleep (isHeld : k.held l = true)
    (body : ∀ k', k'.held = k.held → k.wakes = k'.net :: k'.wakes → wp (rest ()) post anyhow k') :
    wp (sleep l >>= rest) post anyhow k := by
  have took : k.held = update k.held l true := by
    rw [← isHeld, update_eq_self]
  unfold sleep
  rw [bind_assoc]
  refine wp_release took fun k' same net wakes => ?_
  rw [bind_assoc, wp_bind, wp_get]
  cases next : k'.wakes with
  | nil => exact trivial
  | cons net' more =>
    rw [bind_assoc, wp_bind, wp_set]
    refine wp_acquire fun k'' _ taken net'' wakes'' => ?_
    refine body k'' ?_ ?_
    · rw [taken]
      rw [same, update_idem, ← took]
    · rw [← wakes, next, net'', wakes'']

end

/-! ## The calls that restore the locks -/

/-- The call returns with the locks as they were. -/
def Restores (c : Call Int) : Prop :=
  ∀ k : Kernel, wp c (fun _ after => after.held = k.held) anyhow k

variable {k : Kernel} {i rounds : Nat}

theorem tcpFinish_held {i : Nat} {state : Tcp.TcpState} (isHeld : k.held .tcp = true) :
    wp (tcpFinish i state) (fun _ after => after.held = k.held) anyhow k := by
  refine wp_change fun k' same _ => ?_
  rw [← bind_pure (sleep .tcp)]
  refine wp_sleep (by rw [same, isHeld]) fun k'' same' _ => ?_
  exact same'.trans same

theorem tcpLeave_held {i : Nat} {state : Tcp.TcpState} (isHeld : k.held .tcp = true) :
    wp (tcpLeave i state) (fun _ after => after.held = k.held) anyhow k := by
  cases state with
  | synRcvd | established | closeWait => exact tcpFinish_held isHeld
  | closed | listen | synSent | finWait1 | finWait2 | closing | timeWait | lastAck => exact rfl

theorem tcpClose_restores (soc : Int) : Restores (tcpClose soc) := by
  intro k
  unfold tcpClose
  split
  · exact rfl
  next i target =>
    refine wp_acquire fun k' free took _ _ => ?_
    rw [wp_bind, wp_get, wp_ite]
    split
    · exact wp_release_return _ took free
    rw [wp_bind]
    have isHeld : k'.held .tcp = true := by rw [took, update_self]
    refine wp_mono (tcpLeave_held isHeld) (fun _ k'' same => ?_) (fun _ => id)
    refine wp_change fun k3 same' _ => ?_
    exact wp_release_return _ (same'.trans (same.trans took)) free

theorem awaitConnection_held (isHeld : k.held .tcp = true) :
    wp (awaitConnection i rounds) (fun _ after => after.held = k.held) anyhow k := by
  induction rounds generalizing k with
  | zero => exact trivial
  | succ rounds ih =>
    rw [awaitConnection, wp_bind, wp_get, wp_ite]
    split
    · refine wp_sleep isHeld fun k' same _ => ?_
      rw [← same] at isHeld ⊢
      exact ih isHeld
    · exact rfl

theorem tcpConnect_restores (m : Option Mbuf) (soc : Int) (dstIp dstPort : BitVec 32) :
    Restores (tcpConnect m soc dstIp dstPort) := by
  intro k
  unfold tcpConnect
  split
  · exact rfl
  next i target =>
    refine wp_acquire fun k' free took _ _ => ?_
    rw [wp_bind, wp_get, wp_ite]
    split
    · exact wp_release_return _ took free
    rw [wp_ite]
    generalize (if (k'.net.tcp.cb i).port = 0 then k'.net.tcp.freePort
      else (k'.net.tcp.cb i).port) = port
    split
    · exact wp_release_return _ took free
    refine wp_change fun k'' same _ => ?_
    rw [wp_bind]
    have isHeld : k''.held .tcp = true := by rw [same, took, update_self]
    refine wp_mono (awaitConnection_held isHeld) (fun _ k3 same' => ?_) (fun _ => id)
    exact wp_release_return _ (same'.trans (same.trans took)) free

theorem tcpSend_restores (m : Mbuf) (soc : Int) (len : BitVec 32) :
    Restores (tcpSend m soc len) := by
  intro k
  unfold tcpSend
  split
  · exact rfl
  next i target =>
    refine wp_acquire fun k' free took _ _ => ?_
    rw [wp_bind, wp_get, wp_ite]
    split
    · exact wp_release_return _ took free
    rw [wp_ite]
    split
    · exact wp_release_return _ took free
    · refine wp_change fun k'' same _ => ?_
      exact wp_release_return _ (same.trans took) free

theorem tcpRx_restores (packet : Tcp.Packet) : Restores (tcpRx packet) := by
  intro k
  unfold tcpRx
  dsimp only
  rw [wp_ite]
  split
  · exact rfl
  refine wp_acquire fun k' free took _ _ => ?_
  rw [wp_bind, wp_get]
  split
  · exact wp_release_return _ took free
  split
  · exact trivial
  · refine wp_change fun k'' same _ => ?_
    exact wp_release_return _ (same.trans took) free

theorem udpSend_restores (m : Mbuf) (soc : Int) : Restores (udpSend m soc) := by
  intro k
  unfold udpSend
  split
  · exact rfl
  next i target =>
    refine wp_acquire fun k' free took _ _ => ?_
    rw [wp_bind, wp_get, wp_ite]
    split
    · exact wp_release_return _ took free
    · refine wp_change fun k'' same _ => ?_
      exact wp_release_return _ (same.trans took) free

theorem udpReadFrom_held {len : BitVec 32} {copied : Bool} {held : Lock → Bool}
    (took : k.held = update held (.cb i) true) (free : held (.cb i) = false) :
    wp (udpReadFrom i len copied rounds) (fun _ after => after.held = held) anyhow k := by
  have restored : update held (.cb i) false = held := by
    rw [← free, update_eq_self]
  induction rounds generalizing k with
  | zero => exact trivial
  | succ rounds ih =>
    rw [udpReadFrom, wp_bind, wp_get]
    split
    · have isHeld : k.held (.cb i) = true := by rw [took, update_self]
      refine wp_sleep isHeld fun k' same _ => ?_
      exact ih (same.trans took)
    refine wp_change fun k' same _ => ?_
    rw [wp_ite]
    split
    all_goals
      refine wp_release (same.trans took) fun k'' released _ _ => ?_
      refine wp_change fun k3 same' _ => ?_
      exact same'.trans (released.trans restored)

theorem udpRead_restores (soc : Nat) (len : BitVec 32) (copied : Bool) :
    Restores (udpRead soc len copied) := by
  intro k
  unfold udpRead
  rw [wp_ite]
  split
  · exact trivial
  · refine wp_acquire fun k' free took _ _ => ?_
    rw [wp_bind, wp_get]
    exact udpReadFrom_held took free

theorem udpRx_restores (m : Mbuf) (len : BitVec 16) (iphdr : Nat) :
    Restores (udpRx m len iphdr) := by
  intro k
  unfold udpRx
  rw [wp_ite]
  split
  · exact rfl
  rw [wp_bind, wp_get]
  split
  · refine wp_change fun k' same _ => ?_
    exact same
  · refine wp_acquire fun k' free took _ _ => ?_
    refine wp_change fun k'' same _ => ?_
    exact wp_release_return _ (same.trans took) free

/-! ## The calls that can lose a lock -/

section

variable {k : Kernel} {held : Lock → Bool} {l : Lock}

/-- A call that keeps a lock which was free has changed the locks. -/
theorem held_ne (took : k.held = update held l true) (free : held l = false) : k.held ≠ held := by
  intro kept
  have changed := congrFun kept l
  rw [took, update_self, free] at changed
  cases changed

/-- `release` and return, where nothing is lost. -/
theorem wp_release_iff {leaks : Prop} (value : Int) (took : k.held = update held l true)
    (free : held l = false) (safe : ¬leaks) :
    wp (do release l; return value) (fun _ after => after.held = held ↔ ¬leaks) anyhow k :=
  wp_mono (wp_release_return value took free) (fun _ _ same => ⟨fun _ => safe, fun _ => same⟩)
    (fun _ => id)

/-- The loops of `tcp_open` and `udp_open` over their tables. -/
theorem openFrom_held (loop : List Nat → Call Int) (used : NetStack → Nat → Bool)
    (same : NetStack → Nat → Prop) [∀ net i, Decidable (same net i)]
    (took : k.held = update held l true) (free : held l = false)
    (last : loop [] = do release l; return -1)
    (round : ∀ i rest, ∃ claim : NetStack → NetStack, loop (i :: rest) = do
      let k ← get
      if used k.net i = true then if same k.net i then return -1 else loop rest
      else do change claim; release l; return i) (blocks : List Nat) :
    wp (loop blocks) (fun _ after => after.held = held ↔
      ¬reuses (used k.net) (fun i => decide (same k.net i)) blocks = true) anyhow k := by
  induction blocks with
  | nil =>
    rw [last]
    exact wp_release_iff _ took free nofun
  | cons i rest ih =>
    obtain ⟨claim, body⟩ := round i rest
    rw [body, wp_bind, wp_get, wp_ite, reuses]
    split
    next isUsed =>
      rw [isUsed, wp_ite]
      split
      next isSame =>
        rw [wp_pure, decide_eq_true isSame]
        exact ⟨fun kept => absurd kept (held_ne took free), fun differ => absurd rfl differ⟩
      next ne =>
        rw [decide_eq_false ne]
        exact ih
    next unused =>
      refine wp_change fun k' kept _ => ?_
      rw [Bool.eq_false_iff.mpr unused]
      exact wp_release_iff _ (kept.trans took) free nofun

theorem tcpReadFrom_held {size : BitVec 32} {copied : Bool}
    (took : k.held = update held .tcp true) (free : held .tcp = false)
    (enough : k.wakes.length < rounds) :
    wp (tcpReadFrom i size copied rounds) (fun _ after => after.held = held ↔
      ¬(copied = false ∧ dataArrives i (k.net :: k.wakes) = true)) anyhow k := by
  induction rounds generalizing k with
  | zero => exact trivial
  | succ rounds ih =>
    rw [tcpReadFrom, wp_bind, wp_get]
    rw [wp_ite]
    by_cases empty : total k.net i = 0
    · rw [dataArrives, if_pos empty, if_pos empty, wp_ite]
      split
      next done =>
        rw [done]
        exact wp_release_iff _ took free fun leaks => nomatch leaks.2
      next ready =>
        have isHeld : k.held .tcp = true := by rw [took, update_self]
        refine wp_sleep isHeld fun k' same wakes => ?_
        rw [wakes] at enough ⊢
        rw [Bool.not_eq_false] at ready
        rw [ready, Bool.true_and]
        exact ih (same.trans took) (Nat.lt_of_succ_lt_succ enough)
    · rw [dataArrives, if_neg empty, if_neg empty, wp_ite]
      by_cases large : (total k.net i).toNat > Tcp.BUF_SIZE
      · rw [if_pos large]
        exact trivial
      rw [if_neg large, wp_ite]
      split
      next failed =>
        rw [wp_pure]
        exact ⟨fun kept => absurd kept (held_ne took free), fun safe => absurd ⟨failed, rfl⟩ safe⟩
      next copied =>
        refine wp_change fun k' same _ => ?_
        exact wp_release_iff _ (same.trans took) free fun leaks => copied leaks.1

/-- `initlock` and `release` at the end of a call under the UDP lock. -/
theorem initlock_held {i : Nat} (took : k.held = update held .udp true) (free : held .udp = false) :
    wp (do initlock (.cb i); release .udp; return (0 : Int))
      (fun _ after => after.held = held ↔ held (.cb i) ≠ true) anyhow k := by
  unfold initlock
  rw [wp_bind, wp_modify]
  have swapped : (k.setHeld (.cb i) false).held = update (update held (.cb i) false) .udp true := by
    unfold Kernel.setHeld
    rw [took, update_comm Lock.noConfusion]
  have stillFree : update held (.cb i) false .udp = false := by
    rw [update_of_ne Lock.noConfusion, free]
  refine wp_mono (wp_release_return 0 swapped stillFree) (fun _ after same => ?_) (fun _ => id)
  rw [same, update_eq_self_iff, eq_comm, ne_eq, Bool.not_eq_true]

end

theorem udpClose_held (k : Kernel) (soc : Int) :
    wp (udpClose soc) (fun _ after => after.held = k.held ↔ ¬(NetCall.udpClose soc).Leaks k)
      anyhow k := by
  unfold udpClose NetCall.Leaks
  split
  next invalid =>
    rw [wp_pure]
    exact ⟨fun _ ⟨i, target, _⟩ => (nomatch invalid.symm.trans target), fun _ => rfl⟩
  next i target =>
    refine wp_acquire fun k' free took net _ => ?_
    rw [wp_bind, wp_get, wp_ite, net]
    split
    next unused =>
      refine wp_release_iff _ took free fun ⟨j, target', used, _⟩ => ?_
      cases target.symm.trans target'
      cases unused.symm.trans used
    next used =>
      refine wp_change fun k'' same _ => ?_
      refine wp_mono (initlock_held (same.trans took) free) (fun _ after kept => ?_) (fun _ => id)
      rw [kept]
      refine not_congr ⟨fun isHeld => ⟨i, target, by simpa using used, isHeld⟩, ?_⟩
      rintro ⟨j, target', -, isHeld⟩
      cases target.symm.trans target'
      exact isHeld

theorem choice_eq_zero (port free : BitVec 16) :
    (if port = 0 then free else port) = 0 ↔ ¬(port ≠ 0 ∨ free ≠ 0) := by
  split
  next unset => simp [unset]
  next isSet => exact ⟨fun zero => absurd zero isSet, fun no => absurd (.inl isSet) no⟩

theorem udpConnect_held (k : Kernel) (soc : Int) (dstIp dstPort : BitVec 32) :
    wp (udpConnect soc dstIp dstPort)
      (fun _ after => after.held = k.held ↔ ¬(NetCall.udpConnect soc dstIp dstPort).Leaks k)
      anyhow k := by
  unfold udpConnect NetCall.Leaks
  split
  next invalid =>
    rw [wp_pure]
    exact ⟨fun _ ⟨i, target, _⟩ => (nomatch invalid.symm.trans target), fun _ => rfl⟩
  next i target =>
    refine wp_acquire fun k' free took net _ => ?_
    rw [wp_bind, wp_get, wp_ite, net]
    split
    next unused =>
      refine wp_release_iff _ took free fun ⟨j, target', used, _⟩ => ?_
      cases target.symm.trans target'
      cases unused.symm.trans used
    next used =>
      rw [Bool.not_eq_false] at used
      refine wp_change fun k1 same1 net1 => ?_
      rw [wp_bind, wp_get]
      have port1 : (k1.net.udp i).port = (k.net.udp i).port := by
        rw [net1, net, setPeer, NetStack.setUdp]
        dsimp only
        rw [update_self]
      rw [net] at net1
      rw [port1, net1]
      refine wp_change fun k2 same2 _ => ?_
      have took2 := same2.trans (same1.trans took)
      rw [wp_ite]
      have chosen := choice_eq_zero (k.net.udp i).port (setPeer k.net i dstIp dstPort).udpFreePort
      generalize (if (k.net.udp i).port = 0 then (setPeer k.net i dstIp dstPort).udpFreePort
        else (k.net.udp i).port) = port at chosen ⊢
      split
      next full =>
        refine wp_release_iff _ took2 free fun ⟨j, target', _, any, _⟩ => ?_
        cases target.symm.trans target'
        exact chosen.mp full any
      next found =>
        refine wp_mono (initlock_held took2 free) (fun _ after kept => ?_) (fun _ => id)
        rw [kept]
        refine not_congr ⟨fun isHeld => ⟨i, target, used, ?_, isHeld⟩, ?_⟩
        · exact Decidable.of_not_not fun no => found (chosen.mpr no)
        · rintro ⟨j, target', -, -, isHeld⟩
          cases target.symm.trans target'
          exact isHeld

theorem tcpRead_held (k : Kernel) (soc : Int) (size : BitVec 32) (copied : Bool) :
    wp (tcpRead soc size copied)
      (fun _ after => after.held = k.held ↔ ¬(NetCall.tcpRead soc size copied).Leaks k)
      anyhow k := by
  unfold tcpRead NetCall.Leaks
  split
  next invalid =>
    rw [wp_pure]
    exact ⟨fun _ ⟨_, i, target, _⟩ => (nomatch invalid.symm.trans target), fun _ => rfl⟩
  next i target =>
    refine wp_acquire fun k' free took net wakes => ?_
    rw [wp_bind, wp_get, wp_ite, net]
    split
    next unused =>
      refine wp_release_iff _ took free fun ⟨_, j, target', used, _⟩ => ?_
      cases target.symm.trans target'
      cases unused.symm.trans used
    next used =>
      rw [Bool.not_eq_false] at used
      refine wp_mono (tcpReadFrom_held took free (Nat.lt_succ_self _)) (fun _ after kept => ?_)
        (fun _ => id)
      rw [kept, net, wakes]
      refine not_congr (and_congr_right fun _ => ⟨fun arrives => ⟨i, target, used, arrives⟩, ?_⟩)
      rintro ⟨j, target', -, arrives⟩
      cases target.symm.trans target'
      exact arrives

theorem tcpOpen_held (k : Kernel) (ip : BitVec 32) (port : BitVec 16) :
    wp (tcpOpen ip port) (fun _ after => after.held = k.held ↔ ¬(NetCall.tcpOpen ip port).Leaks k)
      anyhow k := by
  unfold tcpOpen NetCall.Leaks
  refine wp_acquire fun k' free took net _ => ?_
  rw [← net]
  exact openFrom_held _ (fun net i => (net.tcp.cb i).used)
    (fun net i => (net.tcp.cb i).peerAddr = ip ∧ (net.tcp.cb i).peerPort = port) took free rfl
    (fun i rest => ⟨_, rfl⟩) _

theorem udpOpen_held (k : Kernel) (ip : BitVec 32) (port : BitVec 16) :
    wp (udpOpen ip port) (fun _ after => after.held = k.held ↔ ¬(NetCall.udpOpen ip port).Leaks k)
      anyhow k := by
  unfold udpOpen NetCall.Leaks
  refine wp_acquire fun k' free took net _ => ?_
  rw [← net]
  exact openFrom_held _ (fun net i => (net.udp i).used)
    (fun net i => (net.udp i).peerAddr = ip ∧ (net.udp i).peerPort = port) took free rfl
    (fun i rest => ⟨_, rfl⟩) _

/-- A call that always restores the locks. -/
theorem restores_iff (call : NetCall) (restores : Restores call.perform) (safe : ¬call.Leaks k) :
    wp call.perform (fun _ after => after.held = k.held ↔ ¬call.Leaks k) anyhow k :=
  wp_mono (restores k) (fun _ _ same => ⟨fun _ => safe, fun _ => same⟩) (fun _ => id)

/-- A call that returns leaves every lock as it was, except exactly in the cases of `Leaks`. -/
theorem locks_restored_iff (k : Kernel) (call : NetCall) (result : Int) (after : Kernel)
    (returned : call.perform k = .ok (result, after)) :
    after.held = k.held ↔ ¬call.Leaks k := by
  suffices ends :
      wp call.perform (fun _ after => after.held = k.held ↔ ¬call.Leaks k) anyhow k from by
    have held := wp_ok ends returned
    exact held
  cases call with
  | tcpOpen ip port => exact tcpOpen_held k ip port
  | tcpConnect m soc dstIp dstPort =>
    exact restores_iff _ (tcpConnect_restores m soc dstIp dstPort) id
  | tcpClose soc => exact restores_iff (.tcpClose soc) (tcpClose_restores soc) id
  | tcpSend m soc len => exact restores_iff (.tcpSend m soc len) (tcpSend_restores m soc len) id
  | tcpRead soc size copied => exact tcpRead_held k soc size copied
  | tcpRx packet => exact restores_iff (.tcpRx packet) (tcpRx_restores packet) id
  | udpOpen ip port => exact udpOpen_held k ip port
  | udpConnect soc dstIp dstPort => exact udpConnect_held k soc dstIp dstPort
  | udpClose soc => exact udpClose_held k soc
  | udpSend m soc => exact restores_iff (.udpSend m soc) (udpSend_restores m soc) id
  | udpRead soc len copied =>
    exact restores_iff (.udpRead soc len copied) (udpRead_restores soc len copied) id
  | udpRx m len iphdr => exact restores_iff (.udpRx m len iphdr) (udpRx_restores m len iphdr) id

def booted : Kernel := ⟨.init, fun _ => false, []⟩

theorem locks_restored_iff_first_open :
    ∃ result after, (NetCall.tcpOpen 0 0).perform booted = .ok (result, after) ∧
      (after.held = booted.held ↔ ¬(NetCall.tcpOpen 0 0).Leaks booted) := by
  have observed : ((NetCall.tcpOpen 0 0).perform booted).map (fun _ => ()) = .ok () := by
    decide +kernel
  obtain ⟨⟨result, after⟩, returned, -⟩ := Library.Run.of_map_eq_ok observed
  exact ⟨result, after, returned, locks_restored_iff booted _ result after returned⟩

/-- The second of two opens for the same peer returns -1 and keeps the TCP lock. -/
theorem second_open_keeps_lock : ((do
      let first ← tcpOpen 0 0
      let second ← tcpOpen 0 0
      return (first, second) : Call (Int × Int)) booted).map
        (fun (results, after) => (results, after.held .tcp)) = .ok ((0, -1), true) := by
  decide +kernel

end Xv6Rv32im.Net
