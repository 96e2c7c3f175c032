import Xv6Rv32im.Net.ReceiveBounds
import Xv6Rv32im.Tcp.ReceiveStream

/-!
# What is sent is what is received

The layers of a frame, from the mbuf that a process fills to the control block that gets the data.
Every layer puts its header before the data, and takes it off again; padding behind the data is
taken off by the length in the IP header.
-/

namespace Xv6Rv32im.Net

open List Mbuf

open Tcp (Memory load16 load32 toggleEndian16 toggleEndian32 toggleEndian16_twice
  toggleEndian32_twice)
open Vm (PGSIZE)

/-! ## Numbers in memory -/

section

variable {mem : Memory} {addr : Nat} {bytes : List (BitVec 8)}

theorem storeBytes_inside {i : Nat} (lt : i < bytes.length) :
    storeBytes mem addr bytes (addr + i) = bytes.getD i 0 := by
  unfold storeBytes
  rw [if_pos ⟨by omega, by omega⟩, Nat.add_sub_cancel_left]

theorem storeBytes_outside {a : Nat} (outside : a < addr ∨ addr + bytes.length ≤ a) :
    storeBytes mem addr bytes a = mem a := by
  exact if_neg (by omega)

theorem load16_bytes (v : BitVec 16) : ((v >>> 8).setWidth 8 ++ v.setWidth 8 : BitVec 16) = v := by
  ext i lt
  simp only [BitVec.getElem_append, BitVec.getElem_setWidth, BitVec.getLsbD_ushiftRight]
  grind

theorem load32_bytes (v : BitVec 32) :
    ((v >>> 24).setWidth 8 ++ (v >>> 16).setWidth 8 ++ (v >>> 8).setWidth 8 ++ v.setWidth 8 :
      BitVec 32) = v := by
  ext i lt
  simp only [BitVec.getElem_append, BitVec.getElem_setWidth, BitVec.getLsbD_ushiftRight]
  grind

theorem load16_of_bytes {v : BitVec 16} (low : mem addr = v.setWidth 8)
    (high : mem (addr + 1) = (v >>> 8).setWidth 8) : load16 mem addr = v := by
  unfold load16
  rw [low, high]
  exact load16_bytes v

theorem load32_of_bytes {v : BitVec 32} (byte0 : mem addr = v.setWidth 8)
    (byte1 : mem (addr + 1) = (v >>> 8).setWidth 8) (byte2 : mem (addr + 2) = (v >>> 16).setWidth 8)
    (byte3 : mem (addr + 3) = (v >>> 24).setWidth 8) : load32 mem addr = v := by
  unfold load32
  rw [byte0, byte1, byte2, byte3]
  exact load32_bytes v

theorem load16_congr {mem' : Memory} {a b : Nat}
    (same : ∀ i < 2, mem' (b + i) = mem (a + i)) : load16 mem' b = load16 mem a := by
  unfold load16
  rw [same 1 (by decide)]
  congr 1
  exact same 0 (by decide)

theorem load32_congr {mem' : Memory} {a b : Nat}
    (same : ∀ i < 4, mem' (b + i) = mem (a + i)) : load32 mem' b = load32 mem a := by
  unfold load32
  rw [same 1 (by decide), same 2 (by decide), same 3 (by decide)]
  congr 1
  exact same 0 (by decide)

end

/-- Two frames with the same bytes, up to padding behind the second one. -/
theorem frame_padded {mem mem' : Memory} {a b len len' : Nat} {padding : List (BitVec 8)}
    (same : frame mem' b len' = frame mem a len ++ padding) :
    len ≤ len' ∧ ∀ i < len, mem' (b + i) = mem (a + i) := by
  have lengths := congrArg List.length same
  simp only [frame, length_append, length_map, length_range] at lengths
  refine ⟨by omega, fun i lt => ?_⟩
  have bytes := congrArg (fun bytes => bytes[i]?) same
  rw [List.getElem?_append_left (by simpa [frame] using lt)] at bytes
  simpa [frame, lt, lt_of_lt_of_le lt (show len ≤ len' by omega)] using bytes

/-! ## Headers before the data -/

/-- The mbuf has room for headers before its data, and all of it lies in the page. -/
structure Mbuf.Room (m : Mbuf) (room : Nat) : Prop where
  before : m.buf + room ≤ m.head
  inside : m.head + m.len.toNat ≤ (m.page + 1) * PGSIZE
  short : m.len.toNat + room < 2 ^ 16

/-- The mbuf after a header of some size was put before its data. -/
def Mbuf.behind (m : Mbuf) (size : Nat) : Mbuf :=
  ⟨m.page, m.head - size, m.len + BitVec.ofNat 32 size⟩

section

variable {m : Mbuf} {size room : Nat}

theorem Mbuf.Room.length (has : m.Room room) (enough : size ≤ room) :
    (m.behind size).len.toNat = m.len.toNat + size := by
  have short := has.short
  change (m.len + BitVec.ofNat 32 size).toNat = _
  rw [BitVec.toNat_add, BitVec.toNat_ofNat]
  omega

theorem Mbuf.Room.prepend (has : m.Room room) (enough : size ≤ room) :
    m.prepend (BitVec.ofNat 32 size) = some (m.head - size, m.behind size) := by
  have short := has.short
  have pre := has.before
  have width : (BitVec.ofNat 32 size).toNat = size := by
    rw [BitVec.toNat_ofNat]
    omega
  unfold Mbuf.prepend
  rw [width, if_neg (by omega)]
  rfl

theorem Mbuf.Room.behind (has : m.Room (room + size)) : (m.behind size).Room room := by
  have length := has.length (Nat.le_add_left size room)
  obtain ⟨pre, lt, short⟩ := has
  refine ⟨?_, ?_, ?_⟩
  · change m.buf + room ≤ m.head - size
    omega
  · change m.head - size + (m.behind size).len.toNat ≤ (m.page + 1) * PGSIZE
    omega
  · omega

theorem Mbuf.append_alloc (page : Nat) (headroom : BitVec 32) (size : Nat)
    (fits : size ≤ MBUF_SIZE) :
    (alloc page headroom).append (BitVec.ofNat 32 size) =
      some ((alloc page headroom).head,
        ⟨page, (alloc page headroom).head, BitVec.ofNat 32 size⟩) := by
  have zero : (0 : BitVec 32) + BitVec.ofNat 32 size = BitVec.ofNat 32 size := BitVec.zero_add _
  have small : ¬(0 + BitVec.ofNat 32 size).toNat > MBUF_SIZE := by
    rw [zero, BitVec.toNat_ofNat]
    exact not_lt.mpr (le_trans (Nat.mod_le ..) fits)
  unfold append alloc
  rw [if_neg small, zero, show (0 : BitVec 32).toNat = 0 from rfl, add_zero]

end

namespace NetStack

def transmit (k : NetStack) (m : Mbuf) : NetStack :=
  let (result, nic) := k.nic.e1000Send m
  let k := { k with nic := nic }
  if result < 0 then k.mbufFree m else k

/-- The page is allocated and not in the transmit ring. -/
structure InHand (k : NetStack) (page : Nat) : Prop where
  allocated : page < k.next
  apart : ∀ i old, k.nic.txMbufs i = some old → old.page ≠ page

def SixBytes (k : NetStack) : Prop := ∀ i, (k.arp i).macAddr.length = 6

variable {k r : NetStack} {m rm : Mbuf} {len : BitVec 16} {page : Nat}

theorem ethernetTx_eq (has : m.Room ETH_HDR_SIZE) (type : BitVec 16) (dstMac : List (BitVec 8)) :
    k.ethernetTx m type dstMac = (k.store (m.head - ETH_HDR_SIZE) (dstMac ++ LOCAL_MAC_ADDR ++
        bytes16 (toggleEndian16 type))).transmit (m.behind ETH_HDR_SIZE) := by
  unfold ethernetTx
  rw [has.prepend le_rfl]
  rfl

def Keeps (k k' : NetStack) (page : Nat) : Prop := ∀ a, a / PGSIZE = page → k'.mem a = k.mem a

theorem Keeps.trans {k' k'' : NetStack} (first : k.Keeps k' page) (second : k'.Keeps k'' page) :
    k.Keeps k'' page := fun a inPage =>
  (second a inPage).trans (first a inPage)

theorem store_keeps {page addr : Nat} {bytes : List (BitVec 8)} (low : m.page * PGSIZE ≤ addr)
    (high : addr + bytes.length ≤ (m.page + 1) * PGSIZE) (other : m.page ≠ page) :
    k.Keeps (k.store addr bytes) page := by
  intro a inPage
  refine storeBytes_outside ?_
  by_contra within
  rw [not_or, not_lt, not_le] at within
  refine other ?_
  rw [← inPage]
  exact (Nat.div_eq_of_lt_le (by omega) (by omega)).symm

theorem mbufFree_keeps (other : m.page ≠ page) : k.Keeps (k.mbufFree m) page := by
  intro a inPage
  refine if_neg fun same => other ?_
  rw [← same, inPage]

theorem transmit_keeps (hand : k.InHand page) (other : m.page ≠ page) :
    k.Keeps (k.transmit m) page := by
  intro a inPage
  unfold transmit Nic.e1000Send
  dsimp only
  split
  · exact mbufFree_keeps other a inPage
  rw [if_neg (show ¬(0 : Int) < 0 by decide)]
  cases slot : k.nic.txMbufs k.nic.tdt with
  | none => rfl
  | some old =>
    have freed : k.Keeps (k.mbufFree old) page := mbufFree_keeps (hand.apart _ old slot)
    exact freed a inPage

theorem arpTx_keeps (hand : k.InHand page) {hwAddr dstMac : List (BitVec 8)} (op : BitVec 16)
    (dstIp : BitVec 32) (hwSix : hwAddr.length = 6) (macSix : dstMac.length = 6) :
    k.Keeps (k.arpTx op hwAddr dstMac dstIp) page := by
  have allocated := hand.allocated
  unfold arpTx mbufAlloc
  rw [if_neg (by decide)]
  split
  next denied =>
    split at denied
    · cases denied
      exact fun a _ => rfl
    · cases denied
  next m k' granted =>
    split at granted
    · cases granted
    cases granted
    have other : k.next ≠ page := by omega
    have appended := append_alloc k.next MBUF_DEFAULT_HEADROOM ARP_HDR_SIZE (by decide)
    have head : (alloc k.next MBUF_DEFAULT_HEADROOM).head = k.next * PGSIZE + 140 :=
      add_assoc _ BUF_OFFSET MBUF_DEFAULT_HEADROOM.toNat
    rw [head] at appended
    have has : Room ⟨k.next, k.next * PGSIZE + 140, BitVec.ofNat 32 ARP_HDR_SIZE⟩
        ETH_HDR_SIZE := by
      refine ⟨?_, ?_, show 28 + 14 < 2 ^ 16 by decide⟩
      · change k.next * PGSIZE + 12 + 14 ≤ k.next * PGSIZE + 140
        omega
      · change k.next * PGSIZE + 140 + 28 ≤ (k.next + 1) * PGSIZE
        unfold PGSIZE
        omega
    -- The page of the new mbuf is cleared, and gets its two headers.
    rw [appended]
    dsimp only
    rw [ethernetTx_eq has]
    refine Keeps.trans ?_ (Keeps.trans (store_keeps (m := ⟨k.next, 0, 0⟩) ?_ ?_ other)
      (Keeps.trans (store_keeps (m := ⟨k.next, 0, 0⟩) ?_ ?_ other) (transmit_keeps ⟨?_, ?_⟩ other)))
    · refine store_keeps (m := ⟨k.next, 0, 0⟩) ?_ ?_ other
      · change k.next * PGSIZE ≤ k.next * PGSIZE + 12
        omega
      · rw [length_replicate]
        change k.next * PGSIZE + 12 + 2048 ≤ (k.next + 1) * PGSIZE
        unfold PGSIZE
        omega
    · change k.next * PGSIZE ≤ k.next * PGSIZE + 140
      omega
    · simp only [length_append, hwSix, bytes16, bytes32, LOCAL_MAC_ADDR, length_cons, length_nil]
      unfold PGSIZE
      omega
    · change k.next * PGSIZE ≤ k.next * PGSIZE + 140 - 14
      omega
    · simp only [length_append, macSix, bytes16, LOCAL_MAC_ADDR, length_cons, length_nil]
      change k.next * PGSIZE + 140 - 14 + _ ≤ (k.next + 1) * PGSIZE
      unfold PGSIZE
      omega
    · change page < k.next + 1
      omega
    · exact hand.apart

theorem arpResolve_keeps (hand : k.InHand page) (six : k.SixBytes) (ipAddr : BitVec 32) :
    k.Keeps (k.arpResolve ipAddr).2.2 page ∧
      ((k.arpResolve ipAddr).1 = 1 → (k.arpResolve ipAddr).2.1.length = 6) := by
  unfold arpResolve
  split
  next i _ =>
    split
    · exact ⟨arpTx_keeps hand _ _ rfl rfl, nofun⟩
    · exact ⟨fun _ _ => rfl, fun _ => six i⟩
  · split
    · exact ⟨fun _ _ => rfl, nofun⟩
    · exact ⟨arpTx_keeps hand _ _ rfl rfl, nofun⟩

/-- Whatever `arp_resolve` finds, the frame goes to `ethernet_tx` with its bytes unchanged. -/
theorem ipOutput_eq (hand : k.InHand m.page) (six : k.SixBytes) (dstIp : BitVec 32) :
    ∃ k' dstMac, dstMac.length = 6 ∧ k.Keeps k' m.page ∧
      k.ipOutput m dstIp = k'.ethernetTx m ETH_TYPE_IPV4 dstMac := by
  unfold ipOutput
  split
  · obtain ⟨keeps, length⟩ := arpResolve_keeps hand six dstIp
    generalize k.arpResolve dstIp = resolved at keeps length ⊢
    refine ⟨_, _, ?_, keeps, rfl⟩
    split
    · rfl
    next found => exact length (not_not.mp found)
  · exact ⟨k, ETHERNET_ADDR_BROADCAST, rfl, fun _ _ => rfl, rfl⟩

/-! ## The IP packet -/

/-- The fields of the Ethernet and IP headers that reception looks at; `len` is the length of the
packet without its header. -/
structure Packet (mem : Memory) (addr : Nat) (len : BitVec 16) (protocol : BitVec 8) : Prop where
  type : load16 mem (addr + 12) = toggleEndian16 ETH_TYPE_IPV4
  length : load16 mem (addr + ETH_HDR_SIZE + 2) = toggleEndian16 (len + BitVec.ofNat 16 IP_HDR_SIZE)
  protocol : mem (addr + ETH_HDR_SIZE + 9) = protocol
  source : load32 mem (addr + ETH_HDR_SIZE + 12) = toggleEndian32 LOCAL_IP_ADDR

theorem Packet.congr {mem mem' : Memory} {a b : Nat} {protocol : BitVec 8}
    (packet : Packet mem a len protocol) (same : ∀ i < 34, mem' (b + i) = mem (a + i)) :
    Packet mem' b len protocol where
  type := by
    rw [← packet.type]
    refine load16_congr fun i lt => ?_
    rw [add_assoc, add_assoc]
    exact same _ (by omega)
  length := by
    rw [← packet.length]
    refine load16_congr fun i lt => ?_
    rw [add_assoc, add_assoc, add_assoc, add_assoc]
    exact same _ (by unfold ETH_HDR_SIZE; omega)
  protocol := by
    rw [← packet.protocol, add_assoc, add_assoc]
    exact same _ (by decide)
  source := by
    rw [← packet.source]
    refine load32_congr fun i lt => ?_
    rw [add_assoc, add_assoc, add_assoc, add_assoc]
    exact same _ (by unfold ETH_HDR_SIZE; omega)

/-- `ip_tx` hands a packet with the data of the mbuf to the device. -/
theorem ipTx_eq (has : m.Room (ETH_HDR_SIZE + IP_HDR_SIZE)) (hand : k.InHand m.page)
    (six : k.SixBytes) (dstIp : BitVec 32) (protocol : BitVec 8) :
    ∃ k' : NetStack,
      k.ipTx m dstIp protocol = k'.transmit ((m.behind IP_HDR_SIZE).behind ETH_HDR_SIZE) ∧
      Packet k'.mem (m.head - IP_HDR_SIZE - ETH_HDR_SIZE) (m.len.setWidth 16) protocol ∧
      ∀ a, m.head ≤ a → a < m.head + m.len.toNat → k'.mem a = k.mem a := by
  have pre : m.page * PGSIZE + 12 + 34 ≤ m.head := has.before
  have lt := has.inside
  let hdr := m.head - IP_HDR_SIZE
  have start : m.head = hdr + 20 := by
    change m.head = m.head - 20 + 20
    omega
  let written := k.store hdr (ipHdr (m.behind IP_HDR_SIZE).len dstIp protocol)
  let summed := written.store (hdr + 10)
    (bytes16 (checksum written.mem hdr (BitVec.ofNat 32 IP_HDR_SIZE) 0))
  have output : k.ipTx m dstIp protocol = summed.ipOutput (m.behind IP_HDR_SIZE) dstIp := by
    unfold ipTx
    rw [has.prepend (Nat.le_add_left ..)]
  obtain ⟨k', dstMac, macSix, keeps, resolved⟩ := ipOutput_eq (k := summed)
    (m := m.behind IP_HDR_SIZE) ⟨hand.allocated, hand.apart⟩ six dstIp
  -- The Ethernet header comes before the packet, and the page is otherwise as it was.
  have delivered a (low : hdr ≤ a) (high : a < (m.page + 1) * PGSIZE) :
      (k'.store ((m.behind IP_HDR_SIZE).head - ETH_HDR_SIZE) (dstMac ++ LOCAL_MAC_ADDR ++
        bytes16 (toggleEndian16 ETH_TYPE_IPV4))).mem a = summed.mem a := by
    have inPage : a / PGSIZE = m.page := Nat.div_eq_of_lt_le (by omega) high
    rw [← keeps a inPage]
    refine storeBytes_outside (.inr ?_)
    simp only [length_append, macSix, bytes16, LOCAL_MAC_ADDR, length_cons, length_nil]
    change hdr - 14 + _ ≤ a
    omega
  have stored i (small : i < IP_HDR_SIZE) (apart : i < 10 ∨ 12 ≤ i) :
      summed.mem (hdr + i) = (ipHdr (m.behind IP_HDR_SIZE).len dstIp protocol).getD i 0 := by
    change storeBytes (storeBytes _ _ _) _ _ (hdr + i) = _
    rw [storeBytes_outside, storeBytes_inside small]
    change hdr + i < hdr + 10 ∨ hdr + 10 + 2 ≤ hdr + i
    omega
  refine ⟨_, output.trans (resolved.trans (ethernetTx_eq has.behind _ _)), ?_, ?_⟩
  · obtain ⟨base, atBase⟩ : ∃ base, hdr = base + ETH_HDR_SIZE :=
      ⟨hdr - 14, by change hdr = hdr - 14 + 14; omega⟩
    have isBase : m.head - IP_HDR_SIZE - ETH_HDR_SIZE = base := by
      omega
    have received i (small : i < 20) (apart : i < 10 ∨ 12 ≤ i) :=
      (delivered _ (by omega) (by omega)).trans (stored i small apart)
    rw [atBase] at received
    rw [isBase]
    refine ⟨?_, ?_, received 9 (by decide) (by decide), ?_⟩
    · match dstMac, macSix with
      | [a, b, c, d, e, f], _ =>
        let header := [a, b, c, d, e, f] ++ LOCAL_MAC_ADDR ++ bytes16 (toggleEndian16 ETH_TYPE_IPV4)
        have header (i : Nat) (small : i < 14) :
            storeBytes k'.mem base header (base + i) = header.getD i 0 := storeBytes_inside small
        rw [← isBase] at header ⊢
        exact load16_of_bytes (header 12 (by decide)) (header 13 (by decide))
    · have wrap : (m.behind IP_HDR_SIZE).len.setWidth 16 =
          m.len.setWidth 16 + BitVec.ofNat 16 IP_HDR_SIZE := by
        change (m.len + BitVec.ofNat 32 IP_HDR_SIZE).setWidth 16 = _
        rw [BitVec.setWidth_add _ _ (by decide)]
        rfl
      rw [← wrap]
      exact load16_of_bytes (received 2 (by decide) (by decide))
        (received 3 (by decide) (by decide))
    · exact load32_of_bytes (received 12 (by decide) (by decide))
        (received 13 (by decide) (by decide)) (received 14 (by decide) (by decide))
        (received 15 (by decide) (by decide))
  · intro a above below
    rw [delivered a (by omega) (by omega)]
    change storeBytes (storeBytes _ _ _) _ _ a = _
    rw [storeBytes_outside (.inr ?_), storeBytes_outside (.inr ?_)]
    · rfl
    · change hdr + 20 ≤ a
      omega
    · change hdr + 10 + 2 ≤ a
      omega

@[simp] theorem see_mem (k : NetStack) (addr size : Nat) : (k.see addr size).mem = k.mem :=
  rfl

/-- `ethernet_rx` and `ip_rx` hand the packet without its padding to the next layer. -/
theorem ethernetRx_packet {protocol : BitVec 8} (packet : Packet r.mem rm.head len protocol)
    (whole : len.toNat + 34 ≤ rm.len.toNat) :
    ∃ seen, (protocol = IP_PROTO_TCP → r.ethernetRx rm = ({ r with seen := seen } : NetStack).tcpRx
        ⟨rm.page, rm.head + 34, len.setWidth 32⟩ len (rm.head + ETH_HDR_SIZE)) ∧
      (protocol = IP_PROTO_UDP → r.ethernetRx rm = ({ r with seen := seen } : NetStack).udpRx
        ⟨rm.page, rm.head + 34, len.setWidth 32⟩ len (rm.head + ETH_HDR_SIZE)) := by
  have isIp : r.ethernetRx rm = (r.see rm.head ETH_HDR_SIZE).ipRx
      ⟨rm.page, rm.head + ETH_HDR_SIZE, rm.len - BitVec.ofNat 32 ETH_HDR_SIZE⟩ := by
    unfold ethernetRx
    rw [pop_eq]
    change (if toggleEndian16 (load16 r.mem (rm.head + 12)) = ETH_TYPE_IPV4 then _ else _) = _
    rw [packet.type, toggleEndian16_twice, if_pos rfl]
    rfl
  have length : toggleEndian16 (load16 r.mem (rm.head + ETH_HDR_SIZE + 2)) -
      BitVec.ofNat 16 IP_HDR_SIZE = len := by
    rw [packet.length, toggleEndian16_twice, BitVec.add_sub_cancel]
  have trimmed : (trim ⟨rm.page, rm.head + ETH_HDR_SIZE + (BitVec.ofNat 32 IP_HDR_SIZE).toNat,
        rm.len - BitVec.ofNat 32 ETH_HDR_SIZE - BitVec.ofNat 32 IP_HDR_SIZE⟩
      (rm.len - BitVec.ofNat 32 ETH_HDR_SIZE - BitVec.ofNat 32 IP_HDR_SIZE - len.setWidth 32)).2 =
      ⟨rm.page, rm.head + 34, len.setWidth 32⟩ := by
    refine trim_exact ?_
    simp only [ETH_HDR_SIZE, IP_HDR_SIZE, BitVec.toNat_sub, BitVec.toNat_ofNat,
      BitVec.toNat_setWidth]
    omega
  rw [isIp]
  unfold ipRx
  rw [pop_eq]
  dsimp only [Option.getD_some]
  simp only [see_mem]
  rw [length, trimmed]
  refine ⟨(((r.see rm.head ETH_HDR_SIZE).see (rm.head + ETH_HDR_SIZE) IP_HDR_SIZE).see
    (rm.head + 34) len.toNat).seen, fun isTcp => ?_, fun isUdp => ?_⟩
  · exact if_pos (packet.protocol.trans isTcp)
  have notTcp : r.mem (rm.head + ETH_HDR_SIZE + 9) ≠ IP_PROTO_TCP := by
    rw [packet.protocol, isUdp]
    decide
  exact (if_neg notTcp).trans (if_pos (packet.protocol.trans isUdp))

/-! ## Segments and datagrams -/

/-- The header of the segment, as `tcp_rx` finds it, before the data of the mbuf. -/
theorem tcpTx_eq (has : m.Room (ETH_HDR_SIZE + IP_HDR_SIZE + Tcp.TCP_HDR_SIZE))
    (hand : k.InHand m.page) (six : k.SixBytes) (segment : Tcp.Sent) :
    ∃ k' : NetStack, k.tcpTx m segment =
        k'.transmit (((m.behind Tcp.TCP_HDR_SIZE).behind IP_HDR_SIZE).behind ETH_HDR_SIZE) ∧
      Packet k'.mem (m.head - Tcp.TCP_HDR_SIZE - IP_HDR_SIZE - ETH_HDR_SIZE)
        ((m.behind Tcp.TCP_HDR_SIZE).len.setWidth 16) IP_PROTO_TCP ∧
      Tcp.loadTcpHdr (fun i => k'.mem (m.head - Tcp.TCP_HDR_SIZE + i)) =
        ⟨(k.tcp.cb segment.soc).port, (k.tcp.cb segment.soc).peerPort, toggleEndian32 segment.seq,
          toggleEndian32 segment.ack, 0x50, segment.flg⟩ ∧
      ∀ a, m.head ≤ a → a < m.head + m.len.toNat → k'.mem a = k.mem a := by
  have pre : m.page * PGSIZE + 12 + 54 ≤ m.head := has.before
  have length : (m.behind Tcp.TCP_HDR_SIZE).len.toNat = m.len.toNat + 20 :=
    has.length (Nat.le_add_left ..)
  let hdr := m.head - Tcp.TCP_HDR_SIZE
  have start : m.head = hdr + 20 := by
    change m.head = m.head - 20 + 20
    omega
  let written := k.store hdr (tcpHdr (k.tcp.cb segment.soc) segment)
  let summed := written.store (hdr + 16) (bytes16 (checksum written.mem hdr
    (BitVec.ofNat 32 Tcp.TCP_HDR_SIZE + segment.len)
    (pseudo (k.tcp.cb segment.soc).peerAddr segment.len)))
  have output : k.tcpTx m segment = summed.ipTx (m.behind Tcp.TCP_HDR_SIZE)
      (toggleEndian32 (k.tcp.cb segment.soc).peerAddr) IP_PROTO_TCP := by
    unfold tcpTx
    rw [has.prepend (Nat.le_add_left ..)]
  obtain ⟨k', sent, packet, data⟩ := ipTx_eq (k := summed) has.behind
    ⟨hand.allocated, hand.apart⟩ six _ IP_PROTO_TCP
  have stored i (small : i < 16) :
      k'.mem (hdr + i) = (tcpHdr (k.tcp.cb segment.soc) segment).getD i 0 := by
    rw [data (hdr + i) (Nat.le_add_right ..) (by change _ < hdr + _; omega)]
    change storeBytes (storeBytes _ _ _) _ _ (hdr + i) = _
    rw [storeBytes_outside (.inl (by omega)), storeBytes_inside]
    change i < 20
    omega
  refine ⟨k', output.trans sent, packet, ?_, ?_⟩
  · rw [Tcp.TcpHdr.mk.injEq]
    refine ⟨?_, ?_, ?_, ?_, stored 12 (by decide), stored 13 (by decide)⟩
    · exact load16_of_bytes (stored 0 (by decide)) (stored 1 (by decide))
    · exact load16_of_bytes (stored 2 (by decide)) (stored 3 (by decide))
    · exact load32_of_bytes (stored 4 (by decide)) (stored 5 (by decide)) (stored 6 (by decide))
        (stored 7 (by decide))
    · exact load32_of_bytes (stored 8 (by decide)) (stored 9 (by decide)) (stored 10 (by decide))
        (stored 11 (by decide))
  · intro a above below
    rw [data a (by change hdr ≤ a; omega) (by change a < hdr + _; omega)]
    change storeBytes (storeBytes _ _ _) _ _ a = _
    rw [storeBytes_outside (.inr ?_), storeBytes_outside (.inr ?_)]
    · rfl
    · change hdr + 20 ≤ a
      omega
    · change hdr + 16 + 2 ≤ a
      omega

/-- The ports of the datagram before the data of the mbuf. -/
theorem udpTx_eq (has : m.Room (ETH_HDR_SIZE + IP_HDR_SIZE + UDP_HDR_SIZE))
    (hand : k.InHand m.page) (six : k.SixBytes) (cb : UdpCb) :
    ∃ k' : NetStack, k.udpTx m cb =
        k'.transmit (((m.behind UDP_HDR_SIZE).behind IP_HDR_SIZE).behind ETH_HDR_SIZE) ∧
      Packet k'.mem (m.head - UDP_HDR_SIZE - IP_HDR_SIZE - ETH_HDR_SIZE)
        ((m.behind UDP_HDR_SIZE).len.setWidth 16) IP_PROTO_UDP ∧
      load16 k'.mem (m.head - UDP_HDR_SIZE) = cb.port ∧
      load16 k'.mem (m.head - UDP_HDR_SIZE + 2) = cb.peerPort ∧
      ∀ a, m.head ≤ a → a < m.head + m.len.toNat → k'.mem a = k.mem a := by
  have pre : m.page * PGSIZE + 12 + 42 ≤ m.head := has.before
  have length : (m.behind UDP_HDR_SIZE).len.toNat = m.len.toNat + 8 :=
    has.length (Nat.le_add_left ..)
  let hdr := m.head - UDP_HDR_SIZE
  have start : m.head = hdr + 8 := by
    change m.head = m.head - 8 + 8
    omega
  let header := bytes16 cb.port ++ bytes16 cb.peerPort ++
    bytes16 (toggleEndian16 ((m.behind UDP_HDR_SIZE).len.setWidth 16)) ++ bytes16 0
  have output : k.udpTx m cb = (k.store hdr header).ipTx (m.behind UDP_HDR_SIZE)
      (toggleEndian32 cb.peerAddr) IP_PROTO_UDP := by
    unfold udpTx
    rw [has.prepend (Nat.le_add_left ..)]
  obtain ⟨k', sent, packet, data⟩ := ipTx_eq (k := k.store hdr header) has.behind
    ⟨hand.allocated, hand.apart⟩ six _ IP_PROTO_UDP
  have stored i (small : i < 8) : k'.mem (hdr + i) = header.getD i 0 := by
    rw [data (hdr + i) (Nat.le_add_right ..) (by change _ < hdr + _; omega)]
    exact storeBytes_inside small
  refine ⟨k', output.trans sent, packet, ?_, ?_, ?_⟩
  · exact load16_of_bytes (stored 0 (by decide)) (stored 1 (by decide))
  · exact load16_of_bytes (stored 2 (by decide)) (stored 3 (by decide))
  intro a above below
  rw [data a (by change hdr ≤ a; omega) (by change a < hdr + _; omega)]
  refine storeBytes_outside (.inr ?_)
  change hdr + 8 ≤ a
  omega

/-- The end of `tcp_rx`, from the look-up of the control block on. -/
def deliver (k : NetStack) (packet : Tcp.Packet) : NetStack :=
  match k.tcp.tcpRx packet with
  | .error fault => k.panic (.tcp fault)
  | .ok tcp => k.tcpStep tcp

/-- The end of `udp_rx`, likewise. -/
def enqueue (k : NetStack) (srcIp : BitVec 32) (srcPort dstPort : BitVec 16) (m : Mbuf) :
    NetStack :=
  match k.findUdpCb srcIp srcPort dstPort with
  | none => k.mbufFree m
  | some i => k.setUdp i { k.udp i with mbufs := (k.udp i).mbufs ++ [m] }

theorem loadTcpHdr_congr {p p' : Memory} (same : ∀ i < 14, p' i = p i) :
    Tcp.loadTcpHdr p' = Tcp.loadTcpHdr p := by
  unfold Tcp.loadTcpHdr load16 load32
  rw [same 0 (by decide), same 1 (by decide), same 2 (by decide), same 3 (by decide),
    same 4 (by decide), same 5 (by decide), same 6 (by decide), same 7 (by decide),
    same 8 (by decide), same 9 (by decide), same 10 (by decide), same 11 (by decide),
    same 12 (by decide), same 13 (by decide)]

theorem see_parts (hdr : Nat) (parts : List (Nat × Nat)) (k : NetStack) :
    ∃ seen, parts.foldl (fun k part => k.see (hdr + part.1) part.2) k =
      { k with seen := seen } := by
  induction parts generalizing k with
  | nil => exact ⟨k.seen, rfl⟩
  | cons part rest ih =>
    obtain ⟨seen, same⟩ := ih (k.see (hdr + part.1) part.2)
    exact ⟨seen, same⟩

theorem tcpRx_eq (r : NetStack) (rm : Mbuf) (long : Tcp.TCP_HDR_SIZE ≤ len.toNat) (iphdr : Nat) :
    ∃ seen, r.tcpRx rm len iphdr = ({ r with seen := seen } : NetStack).deliver
      ⟨load32 r.mem (iphdr + 12), len, fun i => r.mem (rm.head + i)⟩ := by
  unfold tcpRx
  rw [pop_eq]
  rw [if_neg (not_lt.mpr long)]
  obtain ⟨seen, same⟩ := see_parts rm.head (segmentSeen r.tcp
    ⟨load32 r.mem _, len, fun i => r.mem _⟩)
    ((r.see iphdr IP_HDR_SIZE).see rm.head Tcp.TCP_HDR_SIZE)
  exact ⟨seen, congrArg (fun k : NetStack => k.deliver
    ⟨load32 r.mem _, len, fun i => r.mem (rm.head + i)⟩) same⟩

theorem udpRx_eq (r : NetStack) (rm : Mbuf) (long : UDP_HDR_SIZE ≤ len.toNat) (iphdr : Nat) :
    ∃ seen, r.udpRx rm len iphdr = ({ r with seen := seen } : NetStack).enqueue
      (load32 r.mem (iphdr + 12)) (load16 r.mem rm.head) (load16 r.mem (rm.head + 2))
      ⟨rm.page, rm.head + UDP_HDR_SIZE, rm.len - BitVec.ofNat 32 UDP_HDR_SIZE⟩ := by
  unfold udpRx
  rw [if_neg (not_lt.mpr long), pop_eq]
  dsimp only [Option.getD_some]
  split
  next missing =>
    refine ⟨((r.see iphdr IP_HDR_SIZE).see rm.head UDP_HDR_SIZE).seen, Eq.symm ?_⟩
    unfold enqueue
    have unseen seen : ({ r with seen := seen } : NetStack).findUdpCb
        (load32 r.mem _) (load16 r.mem rm.head) (load16 r.mem (rm.head + 2)) = none :=
      missing
    rw [unseen]
    rfl
  next i found =>
    refine ⟨(((r.see iphdr IP_HDR_SIZE).see rm.head UDP_HDR_SIZE).see (rm.head + UDP_HDR_SIZE)
      (rm.len - BitVec.ofNat 32 UDP_HDR_SIZE).toNat).seen, Eq.symm ?_⟩
    unfold enqueue
    have unseen seen : ({ r with seen := seen } : NetStack).findUdpCb
        (load32 r.mem (iphdr + 12)) (load16 r.mem rm.head) (load16 r.mem (rm.head + 2)) = some i :=
      found
    rw [unseen]
    rfl

/-- The receiver's mbuf holds what was handed to the device, and perhaps padding behind it. -/
def Arrives (k : NetStack) (m : Mbuf) (r : NetStack) (rm : Mbuf) : Prop :=
  ∃ padding, frame r.mem rm.head rm.len.toNat = frame k.mem m.head m.len.toNat ++ padding

theorem Arrives.packet {k' : NetStack} {size : Nat} {proto : BitVec 8}
    (has : m.Room (ETH_HDR_SIZE + IP_HDR_SIZE + size))
    (arrives : k'.Arrives (((m.behind size).behind IP_HDR_SIZE).behind ETH_HDR_SIZE) r rm)
    (sent : Packet k'.mem (m.head - size - IP_HDR_SIZE - ETH_HDR_SIZE)
      ((m.behind size).len.setWidth 16) proto) :
    ∃ len, len.toNat = m.len.toNat + size ∧ Packet r.mem rm.head len proto ∧
      len.toNat + 34 ≤ rm.len.toNat ∧
      ∀ i < m.len.toNat + size, r.mem (rm.head + 34 + i) = k'.mem (m.head - size + i) := by
  have pre : m.page * PGSIZE + 12 + (34 + size) ≤ m.head := has.before
  have short : m.len.toNat + (34 + size) < 2 ^ 16 := has.short
  have length := has.length (Nat.le_add_left ..)
  obtain ⟨padding, arrived⟩ := arrives
  obtain ⟨whole, same⟩ := frame_padded arrived
  have total : (((m.behind size).behind IP_HDR_SIZE).behind ETH_HDR_SIZE).len.toNat =
      m.len.toNat + size + 34 := by
    rw [has.behind.behind.length le_rfl, has.behind.length (Nat.le_add_left ..), length]
    rfl
  have isLen : ((m.behind size).len.setWidth 16).toNat = m.len.toNat + size := by
    rw [BitVec.toNat_setWidth, length]
    omega
  rw [total] at whole same
  refine ⟨_, isLen, sent.congr fun i small => same i (by omega), by omega, fun i lt => ?_⟩
  have byte := same (34 + i) (by omega)
  rw [← add_assoc] at byte
  rw [byte]
  change k'.mem (m.head - size - 20 - 14 + (34 + i)) = _
  congr 1
  omega

/-- A segment reaches `tcp_rx` as `tcp_tx` was given it. -/
theorem tcp_round_trip (has : m.Room (ETH_HDR_SIZE + IP_HDR_SIZE + Tcp.TCP_HDR_SIZE))
    (hand : k.InHand m.page) (six : k.SixBytes) (segment : Tcp.Sent) :
    ∃ (k' : NetStack) (m' : Mbuf), k.tcpTx m segment = k'.transmit m' ∧
      ∀ r rm, k'.Arrives m' r rm → ∃ seen packet,
        r.ethernetRx rm = ({ r with seen := seen } : NetStack).deliver packet ∧
        packet.srcIp = toggleEndian32 LOCAL_IP_ADDR ∧
        packet.hdr.srcPort = (k.tcp.cb segment.soc).port ∧
        packet.hdr.dstPort = (k.tcp.cb segment.soc).peerPort ∧
        toggleEndian32 packet.hdr.seq = segment.seq ∧ toggleEndian32 packet.hdr.ack = segment.ack ∧
        packet.hdr.flg = segment.flg ∧
        frame packet.payload 0 packet.plen.toNat = frame k.mem m.head m.len.toNat := by
  have pre : m.page * PGSIZE + 12 + 54 ≤ m.head := has.before
  obtain ⟨k', sent, sentPacket, header, data⟩ := tcpTx_eq has hand six segment
  refine ⟨k', _, sent, ?_⟩
  intro r rm arrives
  obtain ⟨len, lenIs, packet, whole, bytes⟩ := arrives.packet has sentPacket
  change len.toNat = m.len.toNat + 20 at lenIs
  obtain ⟨seen, isTcp, -⟩ := ethernetRx_packet packet (by omega)
  obtain ⟨seen', handed⟩ := tcpRx_eq { r with seen := seen }
    ⟨rm.page, rm.head + 34, len.setWidth 32⟩ (by rw [lenIs]; exact Nat.le_add_left ..)
    (rm.head + ETH_HDR_SIZE)
  let received : Tcp.Packet := ⟨load32 r.mem (rm.head + ETH_HDR_SIZE + 12), len,
    fun i => r.mem (rm.head + 34 + i)⟩
  have hdr : received.hdr = ⟨(k.tcp.cb segment.soc).port, (k.tcp.cb segment.soc).peerPort,
      toggleEndian32 segment.seq, toggleEndian32 segment.ack, 0x50, segment.flg⟩ := by
    rw [← header]
    exact loadTcpHdr_congr fun i small => bytes i (by change i < m.len.toNat + 20; omega)
  have options : received.dataOffset = 5 := by
    unfold Tcp.Packet.dataOffset
    rw [hdr]
    change ((0x50 : BitVec 8) >>> 4).toNat = 5
    decide
  have plen : received.plen.toNat = m.len.toNat := by
    rw [Tcp.Packet.plen_toNat options (by change 20 ≤ len.toNat; omega)]
    change len.toNat - 20 = _
    omega
  refine ⟨seen', received, (isTcp rfl).trans handed, packet.source, ?_⟩
  rw [hdr, plen, toggleEndian32_twice, toggleEndian32_twice]
  refine ⟨rfl, rfl, rfl, rfl, rfl, map_congr_left fun i lt => ?_⟩
  have small := mem_range.mp lt
  rw [zero_add, Tcp.Packet.payload_eq options, ← data _ (Nat.le_add_right ..)
    (Nat.add_lt_add_left small _)]
  refine (bytes _ (by change _ < m.len.toNat + 20; omega)).trans ?_
  change k'.mem (m.head - 20 + (20 + i)) = _
  congr 1
  omega

/-- A datagram reaches the queue as `udp_tx` was given it. -/
theorem udp_round_trip (has : m.Room (ETH_HDR_SIZE + IP_HDR_SIZE + UDP_HDR_SIZE))
    (hand : k.InHand m.page) (six : k.SixBytes) (cb : UdpCb) :
    ∃ (k' : NetStack) (m' : Mbuf), k.udpTx m cb = k'.transmit m' ∧
      ∀ r rm, k'.Arrives m' r rm → ∃ seen datagram,
        r.ethernetRx rm = ({ r with seen := seen } : NetStack).enqueue
          (toggleEndian32 LOCAL_IP_ADDR) cb.port cb.peerPort datagram ∧
        frame r.mem datagram.head datagram.len.toNat = frame k.mem m.head m.len.toNat := by
  have pre : m.page * PGSIZE + 12 + 42 ≤ m.head := has.before
  have short : m.len.toNat + 42 < 2 ^ 16 := has.short
  obtain ⟨k', sent, sentPacket, srcPort, dstPort, data⟩ := udpTx_eq has hand six cb
  refine ⟨k', _, sent, ?_⟩
  intro r rm arrives
  obtain ⟨len, lenIs, packet, whole, bytes⟩ := arrives.packet has sentPacket
  change len.toNat = m.len.toNat + 8 at lenIs
  obtain ⟨seen, -, isUdp⟩ := ethernetRx_packet packet (by omega)
  obtain ⟨seen', handed⟩ := udpRx_eq { r with seen := seen }
    ⟨rm.page, rm.head + 34, len.setWidth 32⟩ (by rw [lenIs]; exact Nat.le_add_left ..)
    (rm.head + ETH_HDR_SIZE)
  have srcIs : load16 r.mem (rm.head + 34) = cb.port := by
    rw [← srcPort]
    exact load16_congr fun i small => bytes i (by change i < m.len.toNat + 8; omega)
  have dstIs : load16 r.mem (rm.head + 34 + 2) = cb.peerPort := by
    rw [← dstPort]
    refine load16_congr fun i small => ?_
    rw [add_assoc, add_assoc (m.head - UDP_HDR_SIZE)]
    exact bytes _ (by change _ < m.len.toNat + 8; omega)
  have left : (len.setWidth 32 - BitVec.ofNat 32 UDP_HDR_SIZE).toNat = m.len.toNat := by
    have wide : (len.setWidth 32).toNat = m.len.toNat + 8 := by
      rw [BitVec.toNat_setWidth, lenIs]
      omega
    rw [BitVec.toNat_sub, wide]
    change (2 ^ 32 - 8 + (m.len.toNat + 8)) % 2 ^ 32 = _
    omega
  refine ⟨seen', ⟨rm.page, rm.head + 34 + UDP_HDR_SIZE,
    len.setWidth 32 - BitVec.ofNat 32 UDP_HDR_SIZE⟩, ?_, ?_⟩
  · rw [isUdp rfl, handed]
    change enqueue _ (load32 r.mem _) (load16 r.mem (rm.head + 34))
      (load16 r.mem (rm.head + 34 + 2)) _ = _
    rw [packet.source, srcIs, dstIs]
  rw [left]
  refine map_congr_left fun i lt => ?_
  have small := mem_range.mp lt
  rw [← data _ (Nat.le_add_right ..) (Nat.add_lt_add_left small _), add_assoc]
  refine (bytes (8 + i) (by change _ < m.len.toNat + 8; omega)).trans ?_
  change k'.mem (m.head - 8 + (8 + i)) = _
  congr 1
  omega

/-- For every mbuf with room for the headers, whatever `tcp_tx` or `udp_tx` sends with it comes out
of `ethernet_rx` at the receiver, with or without padding: the source address, the ports, for TCP
the sequence and acknowledgement numbers and the flags, and the data. -/
theorem decodes_what_it_encodes (k : NetStack) (six : k.SixBytes) (m : Mbuf)
    (hand : k.InHand m.page) (fits : m.len.toNat ≤ MBUF_SIZE)
    (inside : m.head + m.len.toNat ≤ (m.page + 1) * PGSIZE) :
    (∀ segment, m.buf + (ETH_HDR_SIZE + IP_HDR_SIZE + Tcp.TCP_HDR_SIZE) ≤ m.head →
      ∃ (k' : NetStack) (m' : Mbuf), k.tcpTx m segment = k'.transmit m' ∧
        ∀ r rm, k'.Arrives m' r rm → ∃ seen packet,
          r.ethernetRx rm = ({ r with seen := seen } : NetStack).deliver packet ∧
          packet.srcIp = toggleEndian32 LOCAL_IP_ADDR ∧
          packet.hdr.srcPort = (k.tcp.cb segment.soc).port ∧
          packet.hdr.dstPort = (k.tcp.cb segment.soc).peerPort ∧
          toggleEndian32 packet.hdr.seq = segment.seq ∧
          toggleEndian32 packet.hdr.ack = segment.ack ∧ packet.hdr.flg = segment.flg ∧
          frame packet.payload 0 packet.plen.toNat = frame k.mem m.head m.len.toNat) ∧
    ∀ cb, m.buf + (ETH_HDR_SIZE + IP_HDR_SIZE + UDP_HDR_SIZE) ≤ m.head →
      ∃ (k' : NetStack) (m' : Mbuf), k.udpTx m cb = k'.transmit m' ∧
        ∀ r rm, k'.Arrives m' r rm → ∃ seen datagram,
          r.ethernetRx rm = ({ r with seen := seen } : NetStack).enqueue
            (toggleEndian32 LOCAL_IP_ADDR) cb.port cb.peerPort datagram ∧
          frame r.mem datagram.head datagram.len.toNat = frame k.mem m.head m.len.toNat := by
  unfold MBUF_SIZE at fits
  refine ⟨fun segment room => ?_, fun cb room => ?_⟩
  · refine tcp_round_trip ⟨room, inside, ?_⟩ hand six segment
    change m.len.toNat + 54 < 65536
    omega
  · refine udp_round_trip ⟨room, inside, ?_⟩ hand six cb
    change m.len.toNat + 42 < 65536
    omega

/-- A new mbuf with five bytes of data. -/
theorem decodes_what_it_encodes_five_bytes : ∃ (k' : NetStack) (m' : Mbuf),
      (init.mbufAlloc 54).2.tcpTx ⟨16, 65602, 5⟩ ⟨0, 7, 9, 0x18, 100, 5⟩ = k'.transmit m' ∧
        ∀ r rm, k'.Arrives m' r rm → ∃ seen packet,
          r.ethernetRx rm = ({ r with seen := seen } : NetStack).deliver packet ∧
          packet.srcIp = toggleEndian32 LOCAL_IP_ADDR ∧
          toggleEndian32 packet.hdr.seq = 7 ∧ toggleEndian32 packet.hdr.ack = 9 ∧
          packet.hdr.flg = 0x18 ∧
          frame packet.payload 0 packet.plen.toNat = frame (init.mbufAlloc 54).2.mem 65602 5 := by
  have six : (init.mbufAlloc 54).2.SixBytes := fun _ => rfl
  have hand : (init.mbufAlloc 54).2.InHand 16 := ⟨show 16 < 17 by decide, fun _ _ => nofun⟩
  obtain ⟨k', m', sent, arrives⟩ := (decodes_what_it_encodes _ six ⟨16, 65602, 5⟩ hand
    (by decide) (by decide)).1 ⟨0, 7, 9, 0x18, 100, 5⟩ (by decide)
  refine ⟨k', m', sent, fun r rm arrived => ?_⟩
  obtain ⟨seen, packet, received, source, -, -, seq, ack, flg, data⟩ := arrives r rm arrived
  exact ⟨seen, packet, received, source, seq, ack, flg, data⟩

end NetStack

end Xv6Rv32im.Net
