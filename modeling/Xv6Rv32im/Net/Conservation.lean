import Xv6Rv32im.Library.Shares
import Xv6Rv32im.Net.Stack

/-!
# Conservation of packet buffers

Each mbuf is freed once or kept in one place: a slot of a ring or the queue of a UDP control
block.  While a call works on an mbuf it has it in hand.  Each layer is told with what it
takes from the hand of its caller; where a path of the source drops an mbuf, there is a
condition on the event.
-/

namespace Xv6Rv32im.Net

open Library.Run Library.Shares Function List Mbuf UdpCb
open Tcp (Memory load16 toggleEndian16 TcpStack TCP_CB_TABLE_SIZE)

/-! ## Places -/

def inReceiveRing (rxMbufs : Nat → Mbuf) : Multiset Nat :=
  shares (fun i => {(rxMbufs i).page}) RX_RING_SIZE

def inTransmitRing (txMbufs : Nat → Option Mbuf) : Multiset Nat :=
  shares (fun i => held ((txMbufs i).map Mbuf.page)) TX_RING_SIZE

def UdpCb.queued (cb : UdpCb) : Multiset Nat :=
  if cb.used then cb.mbufs.map Mbuf.page else 0

def inQueues (udp : Nat → UdpCb) : Multiset Nat :=
  shares (fun i => (udp i).queued) UDP_CB_TABLE_SIZE

variable {i : Nat} {type : BitVec 8} {soc : Nat} {data : Memory}

theorem inReceiveRing_update (rxMbufs : Nat → Mbuf) (lt : i < RX_RING_SIZE) (m : Mbuf) :
    inReceiveRing (update rxMbufs i m) + {(rxMbufs i).page} = inReceiveRing rxMbufs + {m.page} := by
  have updated : (fun j => ({(update rxMbufs i m j).page} : Multiset Nat)) =
      update (fun j => {(rxMbufs j).page}) i {m.page} := by
    funext j
    exact apply_update (fun _ m => ({page m} : Multiset Nat)) rxMbufs i m j
  unfold inReceiveRing
  rw [updated]
  exact shares_update (fun j => {(rxMbufs j).page}) lt {m.page}

theorem inTransmitRing_update (txMbufs : Nat → Option Mbuf) (lt : i < TX_RING_SIZE)
    (m : Option Mbuf) :
    inTransmitRing (update txMbufs i m) + held ((txMbufs i).map page) =
      inTransmitRing txMbufs + held (m.map page) := by
  have updated : (fun j => (update txMbufs i m j).map page) =
      update (fun j => (txMbufs j).map page) i (m.map page) := by
    funext j
    exact apply_update (fun _ m => Option.map page m) txMbufs i m j
  unfold inTransmitRing
  simp only [funext_iff] at updated
  simp only [updated]
  exact shares_held_update lt _

theorem inQueues_update (udp : Nat → UdpCb) (lt : i < UDP_CB_TABLE_SIZE) (cb : UdpCb) :
    inQueues (update udp i cb) + (udp i).queued = inQueues udp + cb.queued := by
  have updated : (fun j => (update udp i cb j).queued) =
      update (fun j => (udp j).queued) i cb.queued := by
    funext j
    exact apply_update (fun _ cb => queued cb) udp i cb j
  unfold inQueues
  rw [updated]
  exact shares_update (fun j => (udp j).queued) lt cb.queued

namespace NetStack

/-- The pages that were freed, and those in the rings and queues. -/
def places (k : NetStack) : Multiset Nat :=
  k.nic.freed + inReceiveRing k.rxMbufs + inTransmitRing k.nic.txMbufs + inQueues k.udp

/-- Every mbuf that was allocated has been freed once or is in one place. -/
def Conserved (k : NetStack) : Prop :=
  k.places = Multiset.range k.next

def Holds (k : NetStack) (hand : Multiset Nat) : Prop :=
  k.places + hand = Multiset.range k.next ∧ k.nic.tdt < TX_RING_SIZE ∧
    ∀ i < UDP_CB_TABLE_SIZE, (k.udp i).used = false → (k.udp i).mbufs = []

/-- After a panic nothing is said. -/
def Sound (k : NetStack) (hand : Multiset Nat) : Prop :=
  k.fault ≠ none ∨ k.Holds hand

variable {k : NetStack} {hand : Multiset Nat} {m : Mbuf} {headroom : BitVec 32} {k' : NetStack}
  {len : BitVec 32}

/-! ## Single steps -/

theorem panic_sound (k : NetStack) (fault : NetFault) (hand : Multiset Nat) :
    (k.panic fault).Sound hand :=
  .inl (Option.some_ne_none fault)

theorem store_sound (sound : k.Sound hand) (addr : Nat) (bytes : List (BitVec 8)) :
    (k.store addr bytes).Sound hand :=
  sound

theorem mbufFree_sound (sound : k.Sound (m.page ::ₘ hand)) : (k.mbufFree m).Sound hand := by
  rcases sound with faulted | ⟨whole, tail, idle⟩
  · exact .inl faulted
  refine .inr ⟨?_, tail, idle⟩
  refine Eq.trans ?_ whole
  have freed : ((k.nic.freed ++ [m.page] : List Nat) : Multiset Nat) = k.nic.freed + {m.page} :=
    (Multiset.coe_add ..).symm
  rw [← Multiset.singleton_add]
  change ((k.nic.freed ++ [m.page] : List Nat) : Multiset Nat) + inReceiveRing k.rxMbufs +
    inTransmitRing k.nic.txMbufs + inQueues k.udp + hand = k.places + _
  rw [freed, places]
  ac_rfl

theorem mbufAlloc_denied (sound : k.Sound hand) (denied : k.mbufAlloc headroom = (none, k')) :
    k'.Sound hand := by
  unfold mbufAlloc at denied
  split at denied
  · cases denied
    exact sound
  split at denied
  · cases denied
    exact sound
  · cases denied

theorem mbufAlloc_granted (sound : k.Sound hand) (granted : k.mbufAlloc headroom = (some m, k')) :
    k'.Sound (m.page ::ₘ hand) := by
  unfold mbufAlloc at granted
  split at granted
  · cases granted
  split at granted
  · cases granted
  cases granted
  rcases sound with faulted | ⟨whole, rest⟩
  · exact .inl faulted
  · refine .inr ⟨?_, rest⟩
    change k.places + (k.next ::ₘ hand) = Multiset.range (k.next + 1)
    rw [Multiset.range_succ, ← whole, Multiset.add_cons]

theorem mbufAlloc_allowed (granted : k.mbufAlloc headroom = (some m, k')) :
    k.denials.headD false = false := by
  unfold mbufAlloc at granted
  split at granted
  · cases granted
  · split at granted
    · cases granted
    next allowed => exact Bool.eq_false_iff.mpr allowed

/-- Everything but memory and the numbers of pages stays as it is. -/
theorem mbufAlloc_frame {result : Option Mbuf} (allocated : k.mbufAlloc headroom = (result, k')) :
    k'.rxMbufs = k.rxMbufs ∧ k'.tcp = k.tcp ∧ k'.udp = k.udp ∧ k'.udpLocked = k.udpLocked := by
  unfold mbufAlloc at allocated
  split at allocated
  · cases allocated
    exact ⟨rfl, rfl, rfl, rfl⟩
  split at allocated
  · cases allocated
    exact ⟨rfl, rfl, rfl, rfl⟩
  · cases allocated
    exact ⟨rfl, rfl, rfl, rfl⟩

/-- `e1000_send` fails, or frees what the slot held and keeps the mbuf there. -/
theorem e1000Send_cases (nic : Nic) (m : Mbuf) :
    nic.e1000Send m = (-1, nic) ∨ ∃ nic', nic.e1000Send m = (0, nic') ∧
      nic'.txMbufs = update nic.txMbufs nic.tdt (some m) ∧
      nic'.tdt = (nic.tdt + 1) % TX_RING_SIZE ∧
      (nic'.freed : Multiset Nat) = nic.freed + held ((nic.txMbufs nic.tdt).map page) := by
  unfold Nic.e1000Send
  dsimp only
  split
  · exact .inl rfl
  refine .inr ⟨_, rfl, ?_⟩
  cases slot : nic.txMbufs nic.tdt with
  | none => exact ⟨rfl, rfl, (add_zero _).symm⟩
  | some old => exact ⟨rfl, rfl, (Multiset.coe_add ..).symm⟩

/-- The mbuf stays with the caller exactly if the result is negative. -/
theorem e1000Send_sound (sound : k.Sound (m.page ::ₘ hand)) :
    ({ k with nic := (k.nic.e1000Send m).2 } : NetStack).Sound
      (if (k.nic.e1000Send m).1 < 0 then m.page ::ₘ hand else hand) := by
  rcases e1000Send_cases k.nic m with fails | ⟨nic, sends, ring, tail', freed⟩
  · rw [fails, if_pos (show (-1 : Int) < 0 by decide)]
    exact sound
  rw [sends, if_neg (show ¬(0 : Int) < 0 by decide)]
  rcases sound with faulted | ⟨whole, tail, idle⟩
  · exact .inl faulted
  refine .inr ⟨?_, ?_, idle⟩
  · have moved := inTransmitRing_update k.nic.txMbufs tail (some m)
    change (nic.freed : Multiset Nat) + inReceiveRing k.rxMbufs + inTransmitRing nic.txMbufs +
      inQueues k.udp + hand = _
    rw [← whole, freed, ring, places, ← Multiset.singleton_add]
    calc _ = ↑k.nic.freed + inReceiveRing k.rxMbufs +
          (inTransmitRing (update k.nic.txMbufs k.nic.tdt (some m)) +
            held ((k.nic.txMbufs k.nic.tdt).map page)) + inQueues k.udp + hand := by ac_rfl
      _ = _ := by
          rw [moved]
          ac_rfl
  · rw [tail']
    exact Nat.mod_lt _ (by decide)

theorem prepend_page {hdr : Nat} {m' : Mbuf} (prepended : m.prepend len = some (hdr, m')) :
    m'.page = m.page := by
  unfold prepend at prepended
  split at prepended
  · cases prepended
  · cases prepended
    rfl

theorem append_page {hdr : Nat} {m' : Mbuf} (appended : m.append len = some (hdr, m')) :
    m'.page = m.page := by
  unfold append at appended
  dsimp only at appended
  split at appended
  · cases appended
  · cases appended
    rfl

theorem trim_page (m : Mbuf) (len : BitVec 32) : (m.trim len).2.page = m.page := by
  unfold trim
  split
  · rfl
  · rfl

/-! ## Transmission -/

theorem ethernetTx_sound (sound : k.Sound (m.page ::ₘ hand)) (type : BitVec 16)
    (dstMac : List (BitVec 8)) : (k.ethernetTx m type dstMac).Sound hand := by
  unfold ethernetTx
  split
  · exact panic_sound ..
  next hdr m' prepended =>
    rw [← prepend_page prepended] at sound
    have sent := e1000Send_sound (k := k.store hdr (dstMac ++ LOCAL_MAC_ADDR ++
      bytes16 (toggleEndian16 type))) sound
    dsimp only
    split
    next fails =>
      rw [if_pos fails] at sent
      exact mbufFree_sound sent
    next succeeds =>
      rw [if_neg succeeds] at sent
      exact sent

theorem arpTx_sound (sound : k.Sound hand) (op : BitVec 16) (hwAddr dstMac : List (BitVec 8))
    (dstIp : BitVec 32) : (k.arpTx op hwAddr dstMac dstIp).Sound hand := by
  unfold arpTx
  split
  next k' denied => exact mbufAlloc_denied sound denied
  next m k' granted =>
    have taken := mbufAlloc_granted sound granted
    split
    · exact panic_sound ..
    next hdr m' appended =>
      rw [← append_page appended] at taken
      exact ethernetTx_sound (store_sound taken ..) ..

theorem arpResolve_sound (sound : k.Sound hand) (ipAddr : BitVec 32) :
    (k.arpResolve ipAddr).2.2.Sound hand := by
  unfold arpResolve
  split
  · split
    · exact arpTx_sound sound ..
    · exact sound
  · split
    · exact sound
    · exact arpTx_sound sound ..

section

variable (sound : k.Sound (m.page ::ₘ hand))

include sound

theorem ipOutput_sound (dstIp : BitVec 32) : (k.ipOutput m dstIp).Sound hand := by
  have resolved := arpResolve_sound sound dstIp
  unfold ipOutput
  split
  · revert resolved
    generalize k.arpResolve dstIp = result
    exact fun resolved => ethernetTx_sound resolved ..
  · exact ethernetTx_sound sound ..

theorem ipTx_sound (dstIp : BitVec 32) (protocol : BitVec 8) :
    (k.ipTx m dstIp protocol).Sound hand := by
  unfold ipTx
  split
  · exact panic_sound ..
  next hdr m' prepended =>
    rw [← prepend_page prepended] at sound
    exact ipOutput_sound (store_sound (store_sound sound ..) ..) dstIp

theorem udpTx_sound (cb : UdpCb) : (k.udpTx m cb).Sound hand := by
  unfold udpTx
  split
  · exact panic_sound ..
  next hdr m' prepended =>
    rw [← prepend_page prepended] at sound
    exact ipTx_sound (store_sound sound ..) ..

theorem tcpTx_sound (segment : Tcp.Sent) : (k.tcpTx m segment).Sound hand := by
  unfold tcpTx
  split
  · exact panic_sound ..
  next hdr m' prepended =>
    rw [← prepend_page prepended] at sound
    exact ipTx_sound (store_sound (store_sound sound ..) ..) ..

end

theorem tcpTxEmpty_sound (sound : k.Sound hand) (segment : Tcp.Sent) :
    (k.tcpTxEmpty segment).Sound hand := by
  unfold tcpTxEmpty
  split
  · exact panic_sound ..
  next m k' granted => exact tcpTx_sound (mbufAlloc_granted sound granted) segment

theorem tcpStep_sound (sound : k.Sound hand) (tcp : TcpStack) : (k.tcpStep tcp).Sound hand := by
  unfold tcpStep
  generalize tcp.sent.drop k.tcp.sent.length = segments
  have start : ({ k with tcp := tcp } : NetStack).Sound hand := sound
  revert start
  generalize ({ k with tcp := tcp } : NetStack) = k'
  intro start
  induction segments generalizing k' with
  | nil => exact start
  | cons segment rest ih => exact ih _ (tcpTxEmpty_sound start segment)

/-- A call that sends uses up the mbuf that it is given. -/
theorem tcpSendWith_sound {tcp : TcpStack} (sends : k.tcp.sent.length < tcp.sent.length)
    (sound : k.Sound (m.page ::ₘ hand)) : (k.tcpSendWith (some m) tcp).Sound hand := by
  unfold tcpSendWith
  split
  next none => exact absurd (drop_eq_nil_iff.mp none) (not_le.mpr sends)
  · exact panic_sound ..
  next segment _ m' _ same =>
    cases same
    exact tcpTx_sound (k := { k with tcp := tcp }) sound segment

/-! ## Control blocks -/

section

variable {s : TcpStack} {ip : BitVec 32} {port : BitVec 16}

theorem socket_of_lt (lt : soc < TCP_CB_TABLE_SIZE) : TcpStack.socket soc = some soc :=
  if_neg (by omega)

/-- What `tcp_send` needs: a used block whose connection can send. -/
def Sends (s : TcpStack) (soc : Nat) : Prop :=
  soc < TCP_CB_TABLE_SIZE ∧ s.locked = false ∧ (s.cb soc).used ∧ (s.cb soc).txIsReady

theorem Sends.sends (can : Sends s soc) (len : BitVec 32) :
    s.sent.length < (s.tcpSend soc len).sent.length := by
  obtain ⟨lt, free, used, ready⟩ := can
  simp [TcpStack.tcpSend, socket_of_lt lt, free, used, ready, TcpStack.tcpTx, TcpStack.modifyCb,
    TcpStack.setCb]

/-- What `tcp_open` and `tcp_connect` need: the first free block, in front of which no one has the
peer as it is given, is closed and has a port or finds one. -/
def Dials (s : TcpStack) (ip : BitVec 32) (port : BitVec 16) : Prop :=
  s.locked = false ∧ ∃ i < TCP_CB_TABLE_SIZE, (s.cb i).used = false ∧
    (∀ j < i, (s.cb j).used ∧ ¬((s.cb j).peerAddr = ip ∧ (s.cb j).peerPort = port)) ∧
    (s.cb i).state = .closed ∧
      ((s.cb i).port ≠ 0 ∨ (s.modifyCb i fun cb => { cb with used := true }).freePort ≠ 0)

theorem tcpConnect_sends (lt : i < TCP_CB_TABLE_SIZE) (free : s.locked = false)
    (used : (s.cb i).used = true) (closed : (s.cb i).state = .closed)
    (ports : (s.cb i).port ≠ 0 ∨ s.freePort ≠ 0) (ip port : BitVec 32) :
    s.sent.length < (s.tcpConnect i ip port).sent.length := by
  have chosen : (if (s.cb i).port = 0 then s.freePort else (s.cb i).port) ≠ 0 := by
    split
    next zero => exact ports.resolve_left (not_not.mpr zero)
    next own => exact own
  unfold TcpStack.tcpConnect
  rw [socket_of_lt lt]
  simp only [free, used, closed, if_neg chosen, TcpStack.tcpTx, TcpStack.modifyCb, TcpStack.setCb,
    TcpStack.rand]
  simp

theorem openFrom_first {before : List Nat} (rest : List Nat) (unused : (s.cb i).used = false)
    (others : ∀ j ∈ before,
      (s.cb j).used ∧ ¬((s.cb j).peerAddr = ip ∧ (s.cb j).peerPort = port)) :
    s.openFrom ip port (before ++ i :: rest) =
      (↑i, s.modifyCb i fun cb => { cb with used := true }) := by
  induction before with
  | nil => simp [TcpStack.openFrom, unused]
  | cons j before ih =>
    obtain ⟨⟨used, other⟩, later⟩ := forall_mem_cons.mp others
    rw [cons_append, TcpStack.openFrom, if_pos used, if_neg other]
    exact ih later

theorem Dials.sends (can : Dials s ip port) :
    (s.tcpOpen ip port).2.sent.length < ((s.tcpOpen ip port).2.tcpConnect
      (cbIdx (s.tcpOpen ip port).1) ip (port.setWidth 32)).sent.length := by
  obtain ⟨free, i, lt, unused, others, closed, ports⟩ := can
  have opened : s.tcpOpen ip port = (↑i, s.modifyCb i fun cb => { cb with used := true }) := by
    obtain ⟨m, size⟩ : ∃ m, TCP_CB_TABLE_SIZE = i + (m + 1) := ⟨TCP_CB_TABLE_SIZE - i - 1, by omega⟩
    rw [TcpStack.tcpOpen, free, size, range_add, range_succ_eq_map, map_cons]
    exact openFrom_first _ unused fun j isIn => others j (mem_range.mp isIn)
  have index : cbIdx i = i := by
    unfold TCP_CB_TABLE_SIZE at lt
    unfold cbIdx
    omega
  rw [opened, index]
  refine tcpConnect_sends lt ?_ ?_ ?_ ?_ ip _
  · exact free
  · simp [TcpStack.modifyCb, TcpStack.setCb]
  · simpa [TcpStack.modifyCb, TcpStack.setCb] using closed
  · obtain own | found := ports
    · exact .inl (by simpa [TcpStack.modifyCb, TcpStack.setCb] using own)
    · exact .inr found

end

/-- A control block changes; what its queue loses or gains is in hand. -/
theorem setUdp_sound {cb : UdpCb} {hand' : Multiset Nat} (lt : i < UDP_CB_TABLE_SIZE)
    (clean : cb.used = false → cb.mbufs = []) (moved : hand' + cb.queued = hand + (k.udp i).queued)
    (sound : k.Sound hand) : (k.setUdp i cb).Sound hand' := by
  rcases sound with faulted | ⟨whole, tail, idle⟩
  · exact .inl faulted
  refine .inr ⟨?_, tail, fun j below unused => ?_⟩
  · have queues := inQueues_update k.udp lt cb
    have balanced : inQueues (update k.udp i cb) + hand' = inQueues k.udp + hand := by
      refine add_right_cancel (b := (k.udp i).queued + cb.queued) ?_
      calc _ = inQueues (update k.udp i cb) + (k.udp i).queued + (hand' + cb.queued) := by
            ac_rfl
        _ = _ := by
            rw [queues, moved]
            ac_rfl
    refine Eq.trans ?_ whole
    change ↑k.nic.freed + inReceiveRing k.rxMbufs + inTransmitRing k.nic.txMbufs +
      inQueues (update k.udp i cb) + hand' = _
    rw [add_assoc _ _ hand', balanced, places, add_assoc _ _ hand]
  · change (update k.udp i cb j).used = false at unused
    change (update k.udp i cb j).mbufs = []
    rcases eq_or_ne j i with rfl | other
    · rw [update_self] at unused ⊢
      exact clean unused
    · rw [update_of_ne other] at unused ⊢
      exact idle j below unused

theorem setUdp_queue_sound {cb : UdpCb} (lt : i < UDP_CB_TABLE_SIZE)
    (used : cb.used = (k.udp i).used) (mbufs : cb.mbufs = (k.udp i).mbufs) (sound : k.Sound hand) :
    (k.setUdp i cb).Sound hand := by
  rcases sound with faulted | holds
  · exact .inl faulted
  refine setUdp_sound lt ?_ ?_ (.inr holds)
  · rw [used, mbufs]
    exact holds.2.2 i lt
  · unfold queued
    rw [used, mbufs]

theorem udpSocket_eq {soc i : Nat} (valid : udpSocket soc = some i) :
    i = soc ∧ soc < UDP_CB_TABLE_SIZE := by
  unfold udpSocket at valid
  split at valid
  · cases valid
  next below =>
    cases valid
    exact ⟨rfl, Nat.lt_of_not_le below⟩

theorem udpOpenFrom_sound (ip : BitVec 32) (port : BitVec 16) (sound : k.Sound hand)
    (table : List Nat) (lt : ∀ i ∈ table, i < UDP_CB_TABLE_SIZE) :
    (udpOpenFrom ip port k table).2.Sound hand := by
  induction table with
  | nil => exact sound
  | cons i rest ih =>
    obtain ⟨here, later⟩ := forall_mem_cons.mp lt
    rw [udpOpenFrom]
    split
    · split
      · exact sound
      · exact ih later
    next unused =>
      rcases sound with faulted | holds
      · exact .inl faulted
      · have empty := holds.2.2 i here (Bool.eq_false_iff.mpr unused)
        refine setUdp_sound here nofun ?_ (.inr holds)
        simp [queued, unused, empty]

theorem udpOpenFrom_denials (ip : BitVec 32) (port : BitVec 16) (k : NetStack)
    (table : List Nat) : (udpOpenFrom ip port k table).2.denials = k.denials := by
  induction table with
  | nil => rfl
  | cons i rest ih =>
    rw [udpOpenFrom]
    split
    · split
      · rfl
      · exact ih
    · rfl

theorem udpOpen_denials (k : NetStack) (ip : BitVec 32) (port : BitVec 16) :
    (k.udpOpen ip port).2.denials = k.denials := by
  unfold udpOpen
  split
  · rfl
  · exact udpOpenFrom_denials ..

theorem udpOpen_sound (sound : k.Sound hand) (ip : BitVec 32) (port : BitVec 16) :
    (k.udpOpen ip port).2.Sound hand := by
  unfold udpOpen
  split
  · exact sound
  · exact udpOpenFrom_sound ip port sound _ fun i member => mem_range.mp member

theorem udpConnect_sound (sound : k.Sound hand) (soc : Nat) (dstIp : BitVec 32)
    (dstPort : BitVec 16) : (k.udpConnect soc dstIp dstPort).Sound hand := by
  unfold udpConnect
  split
  · exact sound
  next i valid =>
    obtain ⟨rfl, lt⟩ := udpSocket_eq valid
    split
    · exact sound
    split
    · exact sound
    have connected : (k.setUdp i { k.udp i with
        peerAddr := Tcp.toggleEndian32 dstIp
        peerPort := toggleEndian16 dstPort }).Sound hand :=
      setUdp_queue_sound lt rfl rfl sound
    dsimp only
    split
    · exact setUdp_queue_sound lt rfl rfl connected
    · exact connected

theorem udpClose_sound (sound : k.Sound hand)
    (empty : soc < UDP_CB_TABLE_SIZE → k.udpLocked = false → (k.udp soc).mbufs = []) :
    (k.udpClose soc).Sound hand := by
  unfold udpClose
  split
  · exact sound
  next i valid =>
    obtain ⟨rfl, lt⟩ := udpSocket_eq valid
    split
    · exact sound
    next unlocked =>
      split
      · exact sound
      · refine setUdp_sound lt (fun _ => rfl) ?_ sound
        simp [queued, zero, empty lt (Bool.eq_false_iff.mpr unlocked)]

theorem udpSend_sound (valid : soc < UDP_CB_TABLE_SIZE) (unlocked : k.udpLocked = false)
    (used : (k.udp soc).used = true) (sound : k.Sound (m.page ::ₘ hand)) :
    (k.udpSend m soc).Sound hand := by
  unfold udpSend udpSocket
  rw [if_neg (not_le.mpr valid)]
  dsimp only
  rw [unlocked, used]
  exact udpTx_sound sound _

theorem udpRead_sound (sound : k.Sound hand) (soc : Nat) : (k.udpRead soc).Sound hand := by
  unfold udpRead
  split
  · exact panic_sound ..
  next valid =>
    split
    · exact sound
    next m rest queue =>
      rcases sound with faulted | holds
      · exact .inl faulted
      have lt := Nat.lt_of_not_le valid
      have used : (k.udp soc).used = true := by
        by_contra unused
        have empty := holds.2.2 soc lt (Bool.eq_false_iff.mpr unused)
        rw [queue] at empty
        exact cons_ne_nil m rest empty
      refine mbufFree_sound (setUdp_sound lt (fun unused => ?_) ?_ (.inr holds))
      · exact absurd (used.symm.trans unused) (by decide)
      · simp [queued, used, queue, ← Multiset.cons_coe]

/-! ## Reception -/

/-- The frames whose mbuf is freed or queued: those of an unknown type, and datagrams that
are long enough. -/
def Consumed (mem : Memory) (m : Mbuf) : Prop :=
  let type := toggleEndian16 (load16 mem (m.head + 12))
  let iphdr := m.head + ETH_HDR_SIZE
  type ≠ ETH_TYPE_ARP ∧ (type = ETH_TYPE_IPV4 → mem (iphdr + 9) = IP_PROTO_UDP ∧
      UDP_HDR_SIZE ≤ (toggleEndian16 (load16 mem (iphdr + 2)) - BitVec.ofNat 16 IP_HDR_SIZE).toNat)

instance (mem : Memory) (m : Mbuf) : Decidable (Consumed mem m) :=
  inferInstanceAs (Decidable (_ ∧ _))

theorem udpRx_sound {len : BitVec 16} (long : UDP_HDR_SIZE ≤ len.toNat) (iphdr : Nat)
    (sound : k.Sound (m.page ::ₘ hand)) : (k.udpRx m len iphdr).Sound hand := by
  unfold udpRx
  rw [if_neg (not_lt.mpr long), pop_eq]
  dsimp only
  split
  · exact mbufFree_sound sound
  next i found =>
    have lt := mem_range.mp (mem_of_find?_eq_some found)
    have used : (k.udp i).used = true := by
      have matched := List.find?_some found
      simp only [Bool.and_eq_true] at matched
      exact matched.1.1.1
    refine setUdp_sound lt (fun unused => ?_) ?_ sound
    · exact absurd (used.symm.trans unused) (by decide)
    have longer : (((k.udp i).mbufs ++ [{ m with
          head := m.head + (BitVec.ofNat 32 UDP_HDR_SIZE).toNat
          len := m.len - BitVec.ofNat 32 UDP_HDR_SIZE }]).map page : Multiset Nat) =
        (k.udp i).mbufs.map page + {m.page} := by
      rw [map_append, ← Multiset.coe_add]
      rfl
    change hand + (if (k.udp i).used then _ else _) = _ + if (k.udp i).used then _ else _
    rw [if_pos used, if_pos used, ← Multiset.singleton_add]
    exact (congrArg (hand + ·) longer).trans (by ac_rfl)

theorem ipRx_sound (isUdp : k.mem (m.head + 9) = IP_PROTO_UDP) (long : UDP_HDR_SIZE ≤
      (toggleEndian16 (load16 k.mem (m.head + 2)) - BitVec.ofNat 16 IP_HDR_SIZE).toNat)
    (sound : k.Sound (m.page ::ₘ hand)) : (k.ipRx m).Sound hand := by
  unfold ipRx
  rw [pop_eq]
  dsimp only [Option.getD_some]
  split
  next isTcp => exact absurd (isTcp.symm.trans isUdp) (by decide)
  split
  · refine udpRx_sound long _ ?_
    rw [trim_page]
    exact sound
  next notUdp => exact absurd isUdp notUdp

theorem ethernetRx_sound (consumed : Consumed k.mem m) (sound : k.Sound (m.page ::ₘ hand)) :
    (k.ethernetRx m).Sound hand := by
  obtain ⟨notArp, datagram⟩ := consumed
  unfold ethernetRx
  rw [pop_eq]
  dsimp only
  split
  next isIp =>
    obtain ⟨isUdp, long⟩ := datagram isIp
    exact ipRx_sound isUdp long sound
  · split
    next isArp => exact absurd isArp notArp
    · exact mbufFree_sound sound

theorem replace_sound (lt : i < RX_RING_SIZE) (sound : k.Sound (m.page ::ₘ hand)) (rdt : Nat) :
    ({ k with rxMbufs := update k.rxMbufs i m, rdt := rdt } : NetStack).Sound
      ((k.rxMbufs i).page ::ₘ hand) := by
  rcases sound with faulted | ⟨whole, rest⟩
  · exact .inl faulted
  refine .inr ⟨Eq.trans ?_ whole, rest⟩
  have ring := inReceiveRing_update k.rxMbufs lt m
  change ↑k.nic.freed + inReceiveRing (update k.rxMbufs i m) +
    inTransmitRing k.nic.txMbufs + inQueues k.udp + _ = _
  rw [← Multiset.singleton_add, ← Multiset.singleton_add, places]
  calc _ = ↑k.nic.freed + (inReceiveRing (update k.rxMbufs i m) +
        {(k.rxMbufs i).page}) + inTransmitRing k.nic.txMbufs + inQueues k.udp + hand := by ac_rfl
    _ = _ := by
        rw [ring]
        ac_rfl

section

variable (sound : k.Sound hand)

include sound

/-- The mbuf of the receive ring changes places with a new one. -/
theorem e1000Take_sound (data : Memory) (length : BitVec 16) : (k.e1000Take data length).2.Sound
      (held ((k.e1000Take data length).1.map page) + hand) := by
  unfold e1000Take
  dsimp only
  split
  · exact panic_sound ..
  next m' appended =>
    split
    · exact panic_sound ..
    next fresh k' granted =>
      have taken := mbufAlloc_granted (store_sound sound ..) granted
      have lt : (k.rdt + 1) % RX_RING_SIZE < RX_RING_SIZE := Nat.mod_lt _ (by decide)
      have slots : k'.rxMbufs = k.rxMbufs := (mbufAlloc_frame granted).1
      have replaced := replace_sound lt taken ((k.rdt + 1) % RX_RING_SIZE)
      rw [slots, ← append_page appended, ← Multiset.singleton_add] at replaced
      rw [slots]
      exact replaced

theorem e1000Recv_sound {length : BitVec 16}
    (consumed : ∀ m ∈ (k.e1000Take data length).1, Consumed (k.e1000Take data length).2.mem m) :
    (k.e1000Recv data length).Sound hand := by
  have taken := e1000Take_sound sound data length
  unfold e1000Recv
  split
  next k' panicked =>
    rw [panicked] at taken
    exact (zero_add hand ▸ taken : _)
  next m k' received =>
    rw [received] at taken consumed
    exact ethernetRx_sound (consumed m rfl) taken

/-! ## Sockets -/

theorem socketAlloc_sound {ip : BitVec 32} {port : BitVec 16}
    (tcp : type = SOCKET_TYPE_TCP → k.denials.headD false = false → Dials k.tcp ip port)
    (udp : type = SOCKET_TYPE_UDP → k.denials.headD false = true) :
    (k.socketAlloc ip port type).Sound hand := by
  unfold socketAlloc
  dsimp only
  split
  next isTcp =>
    have opened : ({ k with tcp := (k.tcp.tcpOpen ip port).2 } : NetStack).Sound hand := sound
    cases allocated : ({ k with tcp := (k.tcp.tcpOpen ip port).2 } : NetStack).mbufAlloc
        (BitVec.ofNat 32 (ETH_HDR_SIZE + IP_HDR_SIZE + Tcp.TCP_HDR_SIZE)) with
    | mk result k' =>
      have control := (mbufAlloc_frame allocated).2.1
      cases result with
      | none =>
        unfold tcpSendWith
        split
        · have kept := mbufAlloc_denied opened allocated
          exact kept
        · exact panic_sound ..
        next impossible => cases impossible
      | some m =>
        refine tcpSendWith_sound ?_ (mbufAlloc_granted opened allocated)
        have allowed := mbufAlloc_allowed allocated
        rw [control]
        exact (tcp isTcp allowed).sends
  · split
    next isUdp =>
      have opened := udpOpen_sound sound ip port
      cases allocated : (k.udpOpen ip port).2.mbufAlloc
          (BitVec.ofNat 32 (ETH_HDR_SIZE + IP_HDR_SIZE + Tcp.TCP_HDR_SIZE)) with
      | mk result k' =>
        cases result with
        | none => exact udpConnect_sound (mbufAlloc_denied opened allocated) ..
        | some m =>
          have allowed := mbufAlloc_allowed allocated
          rw [udpOpen_denials, udp isUdp] at allowed
          cases allowed
    · exact sound

theorem writeWith_sound {headroom : Nat} {send : NetStack → Mbuf → NetStack} {copied : Bool}
    (sends : copied = true → ∀ (k' : NetStack) (m : Mbuf), k'.tcp = k.tcp → k'.udp = k.udp →
      k'.udpLocked = k.udpLocked → k'.Sound (m.page ::ₘ hand) → (send k' m).Sound hand) :
    (k.writeWith headroom send data len copied).Sound hand := by
  unfold writeWith
  split
  · exact panic_sound ..
  next m k' granted =>
    have taken := mbufAlloc_granted sound granted
    obtain ⟨-, tcp, udp, locked⟩ := mbufAlloc_frame granted
    split
    · exact panic_sound ..
    next m' appended =>
      rw [← append_page appended] at taken
      split
      next copies => exact sends copies _ _ tcp udp locked (store_sound taken ..)
      · exact mbufFree_sound taken

theorem socketWrite_sound {copied : Bool}
    (tcp : type = SOCKET_TYPE_TCP → copied = true → Sends k.tcp soc)
    (udp : type = SOCKET_TYPE_UDP → copied = true →
      soc < UDP_CB_TABLE_SIZE ∧ k.udpLocked = false ∧ (k.udp soc).used = true) :
    (k.socketWrite type soc data len copied).Sound hand := by
  unfold socketWrite
  split
  next isTcp =>
    refine writeWith_sound sound fun copies k' m sameTcp _ _ taken => tcpSendWith_sound ?_ taken
    rw [sameTcp]
    exact (tcp isTcp copies).sends len
  · split
    next isUdp =>
      refine writeWith_sound sound fun copies k' m _ sameUdp sameLock taken => ?_
      obtain ⟨valid, unlocked, used⟩ := udp isUdp copies
      rw [← sameUdp] at used
      exact udpSend_sound valid (sameLock.trans unlocked) used taken
    · exact sound

theorem socketRead_sound (type : BitVec 8) (soc : Nat) (size : BitVec 32) (copied : Bool) :
    (k.socketRead type soc size copied).Sound hand := by
  unfold socketRead
  split
  · exact udpRead_sound sound soc
  split
  · split
    · exact panic_sound ..
    · exact sound
  · exact panic_sound ..

theorem socketClose_sound
    (empty : type = SOCKET_TYPE_UDP → soc < UDP_CB_TABLE_SIZE → k.udpLocked = false →
      (k.udp soc).mbufs = []) : (k.socketClose type soc).Sound hand := by
  unfold socketClose
  split
  · exact tcpStep_sound sound _
  · split
    next isUdp => exact udpClose_sound sound (empty isUdp)
    · exact sound

theorem deviceStep_sound : ({ k with nic := k.nic.deviceStep } : NetStack).Sound hand := by
  unfold Nic.deviceStep
  split
  · exact sound
  · exact sound

end

/-! ## Runs -/

/-- The events on whose path no mbuf is dropped: the frame is taken up, a call for which an
mbuf was allocated sends it, and a UDP control block is closed with an empty queue. -/
def Tidy (k : NetStack) : NetEvent → Prop
  | .frame data length denials =>
    ∀ m ∈ (({ k with denials := denials } : NetStack).e1000Take data length).1,
      Consumed (({ k with denials := denials } : NetStack).e1000Take data length).2.mem m
  | .connect ip port type denials =>
    denials.headD false = false →
      type ≠ SOCKET_TYPE_UDP ∧ (type = SOCKET_TYPE_TCP → Dials k.tcp ip port)
  | .write type soc _ _ copied _ =>
    copied = true →
      (type = SOCKET_TYPE_TCP → Sends k.tcp soc) ∧
      (type = SOCKET_TYPE_UDP →
        soc < UDP_CB_TABLE_SIZE ∧ k.udpLocked = false ∧ (k.udp soc).used = true)
  | .close type soc _ =>
    type = SOCKET_TYPE_UDP → soc < UDP_CB_TABLE_SIZE → k.udpLocked = false → (k.udp soc).mbufs = []
  | .device | .read _ _ _ _ | .closeWake _ => True

instance (k : NetStack) (event : NetEvent) : Decidable (k.Tidy event) := by
  cases event <;> unfold Tidy Dials Sends <;> infer_instance

theorem perform_sound {event : NetEvent} (sound : k.Sound 0) (tidy : k.Tidy event) :
    (k.perform event).Sound 0 := by
  cases event with
  | frame data length denials =>
    exact e1000Recv_sound (k := { k with denials := denials }) sound tidy
  | device => exact deviceStep_sound sound
  | connect ip port type denials =>
    refine socketAlloc_sound (k := { k with denials := denials }) sound
      (fun isTcp allowed => (tidy allowed).2 isTcp) fun isUdp => ?_
    by_contra allowed
    exact (tidy (Bool.eq_false_iff.mpr allowed)).1 isUdp
  | write type soc data len copied denials =>
    exact socketWrite_sound (k := { k with denials := denials }) sound
      (fun isTcp copies => (tidy copies).1 isTcp) (fun isUdp copies => (tidy copies).2 isUdp)
  | read type soc size copied => exact socketRead_sound sound ..
  | close type soc denials =>
    exact socketClose_sound sound tidy
  | closeWake soc => exact tcpStep_sound sound _

/-- Between events no mbuf is in hand. -/
def Settled (k : NetStack) : Prop := k.Holds 0

theorem step_settled {event : NetEvent} (settled : k.Settled) (tidy : k.Tidy event)
    (stepped : k.step event = .ok k') : k'.Settled := by
  unfold step at stepped
  split at stepped
  next fine =>
    cases stepped
    exact (perform_sound (.inr settled) tidy).resolve_left (not_not_intro fine)
  · cases stepped

def placesList (k : NetStack) : List Nat :=
  k.nic.freed ++ (List.range RX_RING_SIZE).filterMap (fun i => some (k.rxMbufs i).page) ++
    (List.range TX_RING_SIZE).filterMap (fun i => (k.nic.txMbufs i).map Mbuf.page) ++
    (List.range UDP_CB_TABLE_SIZE).flatMap
      (fun i => if (k.udp i).used then (k.udp i).mbufs.map Mbuf.page else [])

theorem places_eq_list (k : NetStack) : k.places = k.placesList := by
  have queues : inQueues k.udp = ↑((List.range UDP_CB_TABLE_SIZE).flatMap
      (fun i => if (k.udp i).used then (k.udp i).mbufs.map page else [])) := by
    rw [← shares_coe]
    refine shares_congr fun i _ => ?_
    unfold queued
    split
    · rfl
    · rfl
  unfold places placesList
  rw [queues, ← Multiset.coe_add, ← Multiset.coe_add, ← Multiset.coe_add, ← shares_held,
    ← shares_held]
  rfl

theorem init_settled : init.Settled := by
  refine ⟨?_, by decide, fun _ _ _ => rfl⟩
  rw [add_zero, places_eq_list]
  exact congrArg Multiset.ofList (by decide : init.placesList = List.range RX_RING_SIZE)

/-- In every run without a dropped mbuf, each mbuf is freed once or in one place. -/
theorem mbuf_conservation {k : NetStack} (events : List NetEvent)
    (tidy : Meets step Tidy init events) (ran : run step init events = .ok k) : k.Conserved := by
  have settled := run_invariant (fun _ _ _ => step_settled) init_settled tidy ran
  exact (add_zero _).symm.trans settled.1

/-- A frame at address 0 with an EtherType and the bytes after it. -/
def etherFrame (type : BitVec 16) (rest : List (BitVec 8)) : Memory :=
  storeBytes (fun _ => 0) 0
    (LOCAL_MAC_ADDR ++ GATEWAY_MAC_ADDR ++ bytes16 (toggleEndian16 type) ++ rest)

/-- A datagram from port 53 of 10.0.2.2 to the first usable port. -/
def datagram : Memory :=
  etherFrame ETH_TYPE_IPV4 ([0x45, 0, 0, 40, 0, 0, 0, 0, 64, 17, 0, 0, 10, 0, 2, 2, 10, 0, 2, 15] ++
    [0, 53, 192, 0, 0, 20, 0, 0])

def conversation : List NetEvent :=
  [.frame (etherFrame 0x86dd []) 60 [], .connect 0x0a000202 80 SOCKET_TYPE_TCP [], .device,
    .connect 0x0a000202 53 SOCKET_TYPE_UDP [true],
    .write SOCKET_TYPE_UDP 0 (fun _ => 65) 4 true [], .frame datagram 60 [],
    .read SOCKET_TYPE_UDP 0 100 true, .close SOCKET_TYPE_UDP 0 []]

theorem mbuf_conservation_conversation : Meets step Tidy init conversation ∧
      ∃ k, run step init conversation = .ok k ∧ k.next = 22 ∧ k.Conserved := by
  have tidy : Meets step Tidy init conversation := by
    decide +kernel
  have reached : (run step init conversation).map (fun k => decide (k.next = 22)) = .ok true := by
    decide +kernel
  obtain ⟨k, ran, next⟩ := of_map_eq_ok reached
  exact ⟨tidy, k, ran, of_decide_eq_true next, mbuf_conservation conversation tidy ran⟩

def arpRequest : Memory :=
  etherFrame ETH_TYPE_ARP ([0, 1, 8, 0, 6, 4, 0, 1] ++ GATEWAY_MAC_ADDR ++ [10, 0, 2, 2] ++
    ETHERNET_ADDR_ANY ++ [10, 0, 2, 15])

/-- The request is answered, and its mbuf is neither freed nor kept anywhere. -/
theorem arp_request_leaks :
    ∃ k, run step init [.frame arpRequest 60 []] = .ok k ∧ 0 < k.next ∧ 0 ∉ k.places ∧
      ¬k.Conserved := by
  have reached : (run step init [.frame arpRequest 60 []]).map
      (fun k => decide (0 < k.next ∧ 0 ∉ k.placesList)) = .ok true := by
    decide +kernel
  obtain ⟨k, ran, leaked⟩ := of_map_eq_ok reached
  obtain ⟨allocated, nowhere⟩ := of_decide_eq_true leaked
  have missing : 0 ∉ k.places := by
    rw [places_eq_list]
    exact nowhere
  refine ⟨k, ran, allocated, missing, fun conserved => missing ?_⟩
  rw [conserved]
  exact Multiset.mem_range.mpr allocated

end NetStack

end Xv6Rv32im.Net
