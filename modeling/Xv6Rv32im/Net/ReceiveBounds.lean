import Xv6Rv32im.Net.Stack
import Xv6Rv32im.Tcp.Phases

/-!
# Bounds of the receive path

What the receive path reads of a frame, and the lengths it hands from layer to layer.  The
layers do not check that their headers and lengths fit in the frame, so the reads stay
inside it for exactly the frames whose headers are complete and whose lengths are true.
-/

namespace Xv6Rv32im.Net

open List Option Tcp TcpStack Mbuf

open Tcp (Memory load16 load32 toggleEndian16 toggleEndian32 TcpStack)

/-! ## Frames whose lengths are true -/

/-- A segment of `len` bytes: if it has a header, the options lie in the segment.  The header
is subtracted twice where the payload is taken. -/
def WellFormedTcp (segment : Memory) (len : Nat) : Prop :=
  let dataOffset := (segment 12 >>> 4).toNat
  let flg := segment 13
  TCP_HDR_SIZE ≤ len → 5 ≤ dataOffset ∧ 4 * dataOffset ≤ len + TCP_HDR_SIZE ∧
      (flgIsSet flg (TCP_FLG_RST ||| TCP_FLG_SYN) = false →
        flgIsSet flg TCP_FLG_ACK = true → 8 * dataOffset ≤ len + TCP_HDR_SIZE)

/-- The length of the payload as `ip_rx` computes it. -/
def ipPayload (packet : Memory) : BitVec 16 :=
  toggleEndian16 (load16 packet 2) - BitVec.ofNat 16 IP_HDR_SIZE

def WellFormedIp (packet : Memory) (n : Nat) : Prop :=
  IP_HDR_SIZE ≤ n ∧ (packet 9 = IP_PROTO_TCP → IP_HDR_SIZE + (ipPayload packet).toNat ≤ n ∧
      WellFormedTcp (fun i => packet (IP_HDR_SIZE + i)) (ipPayload packet).toNat) ∧
    (packet 9 = IP_PROTO_UDP → IP_HDR_SIZE + (ipPayload packet).toNat ≤ n)

/-- A frame of `n` bytes that is as long as its headers say. -/
def WellFormed (data : Memory) (n : Nat) : Prop :=
  let type := toggleEndian16 (load16 data 12)
  ETH_HDR_SIZE ≤ n ∧
    (type = ETH_TYPE_IPV4 → WellFormedIp (fun i => data (ETH_HDR_SIZE + i)) (n - ETH_HDR_SIZE)) ∧
    (type = ETH_TYPE_ARP → ETH_HDR_SIZE + ARP_HDR_SIZE ≤ n)

instance (segment : Memory) (len : Nat) : Decidable (WellFormedTcp segment len) :=
  inferInstanceAs (Decidable (_ → _))

instance (packet : Memory) (n : Nat) : Decidable (WellFormedIp packet n) :=
  inferInstanceAs (Decidable (_ ∧ _))

instance (data : Memory) (n : Nat) : Decidable (WellFormed data n) :=
  inferInstanceAs (Decidable (_ ∧ _))

namespace NetStack

def ReadsWithin (k : NetStack) (low high : Nat) : Prop :=
  ∀ part ∈ k.seen, low ≤ part.1 ∧ part.1 + part.2 ≤ high

instance (k : NetStack) (low high : Nat) : Decidable (k.ReadsWithin low high) :=
  inferInstanceAs (Decidable (∀ part ∈ k.seen, _))

/-! ## Transmission reads nothing that was received -/

section

variable (k : NetStack)

include k

@[simp] theorem store_seen (addr : Nat) (bytes : List (BitVec 8)) :
    (k.store addr bytes).seen = k.seen :=
  rfl

@[simp] theorem mbufFree_seen (m : Mbuf) : (k.mbufFree m).seen = k.seen :=
  rfl

@[simp] theorem panic_seen (fault : NetFault) : (k.panic fault).seen = k.seen :=
  rfl

theorem mbufAlloc_seen (headroom : BitVec 32) : (k.mbufAlloc headroom).2.seen = k.seen := by
  unfold mbufAlloc
  split
  · rfl
  · split
    · rfl
    · rfl

theorem ethernetTx_seen (m : Mbuf) (type : BitVec 16) (dstMac : List (BitVec 8)) :
    (k.ethernetTx m type dstMac).seen = k.seen := by
  unfold ethernetTx
  split
  · rfl
  dsimp only
  split
  · rfl
  · rfl

theorem arpTx_seen (op : BitVec 16) (hwAddr dstMac : List (BitVec 8)) (dstIp : BitVec 32) :
    (k.arpTx op hwAddr dstMac dstIp).seen = k.seen := by
  have allocated := k.mbufAlloc_seen MBUF_DEFAULT_HEADROOM
  unfold arpTx
  split
  next k' denied =>
    rw [denied] at allocated
    exact allocated
  next m k' granted =>
    rw [granted] at allocated
    split
    · exact allocated
    · rw [ethernetTx_seen]
      exact allocated

theorem arpResolve_seen (ipAddr : BitVec 32) : (k.arpResolve ipAddr).2.2.seen = k.seen := by
  unfold arpResolve
  split
  · split
    · exact arpTx_seen ..
    · rfl
  · split
    · rfl
    · exact arpTx_seen ..

theorem ipTx_seen (m : Mbuf) (dstIp : BitVec 32) (protocol : BitVec 8) :
    (k.ipTx m dstIp protocol).seen = k.seen := by
  unfold ipTx
  split
  · rfl
  unfold ipOutput
  split
  · rw [ethernetTx_seen, arpResolve_seen]
    rfl
  · rw [ethernetTx_seen]
    rfl

theorem tcpTxEmpty_seen (segment : Sent) : (k.tcpTxEmpty segment).seen = k.seen := by
  have allocated := k.mbufAlloc_seen
    (BitVec.ofNat 32 (ETH_HDR_SIZE + IP_HDR_SIZE + TCP_HDR_SIZE))
  unfold tcpTxEmpty
  split
  next k' denied =>
    rw [denied] at allocated
    exact allocated
  next m k' granted =>
    rw [granted] at allocated
    unfold tcpTx
    split
    · exact allocated
    · rw [ipTx_seen]
      exact allocated

theorem tcpStep_seen (tcp : TcpStack) : (k.tcpStep tcp).seen = k.seen := by
  unfold tcpStep
  generalize tcp.sent.drop k.tcp.sent.length = segments
  suffices sends : ∀ k' : NetStack, (segments.foldl tcpTxEmpty k').seen = k'.seen from sends _
  induction segments with
  | nil => exact fun _ => rfl
  | cons segment rest ih =>
    intro k'
    rw [foldl_cons, ih, tcpTxEmpty_seen]

end

/-! ## What each layer reads -/

variable {k : NetStack} {low high : Nat} {len : BitVec 16} {m : Mbuf}

theorem see_within {addr size : Nat} : (k.see addr size).ReadsWithin low high ↔
      k.ReadsWithin low high ∧ low ≤ addr ∧ addr + size ≤ high := by
  simp only [ReadsWithin, see, forall_mem_append, forall_mem_singleton]

theorem within_of_seen {k' : NetStack} (same : k'.seen = k.seen) :
    k'.ReadsWithin low high ↔ k.ReadsWithin low high := by
  unfold ReadsWithin
  rw [same]

theorem see_parts_within (k : NetStack) (low high hdr : Nat) (parts : List (Nat × Nat)) :
    (parts.foldl (fun k part => k.see (hdr + part.1) part.2) k).ReadsWithin low high ↔
      k.ReadsWithin low high ∧
        ∀ part ∈ parts, low ≤ hdr + part.1 ∧ hdr + part.1 + part.2 ≤ high := by
  induction parts generalizing k with
  | nil => simp
  | cons part rest ih => rw [foldl_cons, ih, see_within, forall_mem_cons, and_assoc]

def packetAt (mem : Memory) (hdr : Nat) (len : BitVec 16) (iphdr : Nat) : Packet :=
  ⟨load32 mem (iphdr + 12), len, fun i => mem (hdr + i)⟩

theorem tcpRx_within {iphdr : Nat} : (k.tcpRx m len iphdr).ReadsWithin low high ↔
      k.ReadsWithin low high ∧ (TCP_HDR_SIZE ≤ len.toNat →
        (low ≤ iphdr ∧ iphdr + IP_HDR_SIZE ≤ high) ∧
        (low ≤ m.head ∧ m.head + TCP_HDR_SIZE ≤ high) ∧
        ∀ part ∈ segmentSeen k.tcp (packetAt k.mem m.head len iphdr),
          low ≤ m.head + part.1 ∧ m.head + part.1 + part.2 ≤ high) := by
  unfold tcpRx
  rw [pop_eq]
  dsimp only [getD_some]
  by_cases short : len.toNat < TCP_HDR_SIZE
  · rw [if_pos short]
    exact ⟨fun within => ⟨within, fun long => absurd short (not_lt.mpr long)⟩, And.left⟩
  rw [if_neg short, forall_prop_of_true (not_lt.mp short)]
  have parts := see_parts_within ((k.see iphdr IP_HDR_SIZE).see m.head TCP_HDR_SIZE) low high
    m.head (segmentSeen k.tcp (packetAt k.mem m.head len iphdr))
  rw [see_within, see_within, and_assoc, and_assoc] at parts
  split
  · exact (within_of_seen rfl).trans parts
  · exact (within_of_seen (tcpStep_seen ..)).trans parts

/-- A datagram of which the IP layer and the mbuf tell the same length. -/
theorem udpRx_within {iphdr : Nat} (within : k.ReadsWithin low high)
    (header : low ≤ iphdr ∧ iphdr + IP_HDR_SIZE ≤ high) (same : m.len = len.setWidth 32)
    (datagram : low ≤ m.head ∧ m.head + len.toNat ≤ high) :
    (k.udpRx m len iphdr).ReadsWithin low high := by
  unfold udpRx
  by_cases short : len.toNat < UDP_HDR_SIZE
  · rw [if_pos short]
    exact within
  rw [if_neg short, pop_eq]
  dsimp only [getD_some]
  have long : UDP_HDR_SIZE ≤ len.toNat := not_lt.mp short
  have headers : ((k.see iphdr IP_HDR_SIZE).see m.head UDP_HDR_SIZE).ReadsWithin low high :=
    see_within.mpr ⟨see_within.mpr ⟨within, header⟩, datagram.1,
      le_trans (Nat.add_le_add_left long _) datagram.2⟩
  split
  · exact headers
  refine see_within.mpr ⟨headers, ?_⟩
  have small := len.isLt
  simp only [same, UDP_HDR_SIZE, BitVec.toNat_sub, BitVec.toNat_setWidth,
    BitVec.toNat_ofNat] at long ⊢
  omega

theorem udpRx_mono {iphdr : Nat} (within : (k.udpRx m len iphdr).ReadsWithin low high) :
    k.ReadsWithin low high := by
  unfold udpRx at within
  split at within
  · exact within
  dsimp only at within
  split at within
  · exact (see_within.mp (see_within.mp within).1).1
  · exact (see_within.mp (see_within.mp (see_within.mp within).1).1).1

/-! ## What a segment needs -/

def handed (off : BitVec 8) (len : BitVec 16) : BitVec 32 :=
  let diff : BitVec 16 := (off >>> 4).setWidth 16 * 4 - BitVec.ofNat 16 TCP_HDR_SIZE
  len.setWidth 32 - diff.setWidth 32

theorem dataOffset_lt (off : BitVec 8) : (off >>> 4).toNat < 16 := by
  rw [BitVec.toNat_ushiftRight, Nat.shiftRight_eq_div_pow]
  have small := off.isLt
  omega

theorem hlen_toNat (p : Memory) : (loadTcpHdr p).hlen.toNat = 4 * (p 12 >>> 4).toNat := by
  have small := dataOffset_lt (p 12)
  simp only [TcpHdr.hlen, loadTcpHdr, BitVec.toNat_mul, BitVec.toNat_setWidth,
    BitVec.reduceToNat]
  omega

theorem handed_toNat {off : BitVec 8} (enough : 5 ≤ (off >>> 4).toNat)
    (options : 4 * (off >>> 4).toNat ≤ len.toNat + TCP_HDR_SIZE) :
    (handed off len).toNat = len.toNat + TCP_HDR_SIZE - 4 * (off >>> 4).toNat := by
  have small := dataOffset_lt off
  have short := len.isLt
  simp only [handed, TCP_HDR_SIZE, BitVec.toNat_sub, BitVec.toNat_mul, BitVec.toNat_setWidth,
    BitVec.toNat_ofNat, BitVec.reduceToNat] at options ⊢
  omega

theorem handed_wraps {off : BitVec 8} (short : len.toNat ≤ MBUF_SIZE)
    (wrong : ¬(5 ≤ (off >>> 4).toNat ∧ 4 * (off >>> 4).toNat ≤ len.toNat + TCP_HDR_SIZE)) :
    MBUF_SIZE < (handed off len).toNat := by
  have small := dataOffset_lt off
  simp only [handed, MBUF_SIZE, TCP_HDR_SIZE, BitVec.toNat_sub, BitVec.toNat_mul,
    BitVec.toNat_setWidth, BitVec.toNat_ofNat, BitVec.reduceToNat] at short wrong ⊢
  omega

theorem payload_eq (tcp : TcpStack) (i : Nat) (p : Memory) (len : BitVec 32) :
    payload tcp i p len = [] ∨ payload tcp i p len =
          [((loadTcpHdr p).hlen.toNat, (len - (loadTcpHdr p).hlen).toNat)] ∧
        flgIsSet (p 13) (TCP_FLG_RST ||| TCP_FLG_SYN) = false ∧
        flgIsSet (p 13) TCP_FLG_ACK = true := by
  unfold payload
  dsimp only
  split <;> try exact .inl rfl
  split
  · exact .inl rfl
  split
  · exact .inl rfl
  next noReset =>
    split
    · exact .inl rfl
    next acknowledges =>
      split
      · exact .inl rfl
      split
      · have set : flgIsSet (loadTcpHdr p).flg TCP_FLG_ACK = true := by
          simpa using acknowledges
        exact .inr ⟨rfl, Bool.eq_false_iff.mpr noReset, set⟩
      · exact .inl rfl

theorem segmentSeen_eq (tcp : TcpStack) (packet : Packet) :
    segmentSeen tcp packet = [] ∨ ∃ tcp' i, segmentSeen tcp packet =
      (0, (handed (packet.data 12) packet.len).toNat) ::
        payload tcp' i packet.data (handed (packet.data 12) packet.len) := by
  unfold segmentSeen
  dsimp only
  split
  · exact .inl rfl
  · split
    · exact .inl rfl
    · exact .inr ⟨_, _, rfl⟩

/-- A well formed segment is read within its length, in every state of the control blocks. -/
theorem segmentSeen_within (tcp : TcpStack) (packet : Packet)
    (formed : WellFormedTcp packet.data packet.len.toNat)
    (long : TCP_HDR_SIZE ≤ packet.len.toNat) :
    ∀ part ∈ segmentSeen tcp packet, part.1 + part.2 ≤ packet.len.toNat := by
  obtain ⟨enough, options, twice⟩ := formed long
  have handedLength := handed_toNat enough options
  have header := hlen_toNat packet.data
  have handedFits : 0 + (handed (packet.data 12) packet.len).toNat ≤ packet.len.toNat := by
    rw [handedLength]
    simp only [TCP_HDR_SIZE]
    omega
  rcases segmentSeen_eq tcp packet with none | ⟨tcp', i, some⟩
  · rw [none]
    exact fun _ member => nomatch member
  rw [some]
  rcases payload_eq tcp' i packet.data _ with
    nothing | ⟨copies, noReset, acknowledges⟩
  · rw [nothing]
    exact forall_mem_singleton.mpr handedFits
  rw [copies]
  refine forall_mem_cons.mpr ⟨handedFits, forall_mem_singleton.mpr ?_⟩
  have fits := twice noReset acknowledges
  rw [BitVec.toNat_sub, header, handedLength]
  simp only [TCP_HDR_SIZE] at options fits ⊢
  omega

/-! ## The recorded reads are all reads of a segment -/

/-- A stack with an established connection that expects just this segment. -/
def expecting (mem : Memory) (packet : Packet) : NetStack :=
  let hdr := loadTcpHdr packet.data
  let cb : TcpCb :=
    { TcpCb.zero with
      used := true
      state := .established
      port := hdr.dstPort
      peerAddr := packet.srcIp
      peerPort := hdr.srcPort
      rcvNxt := toggleEndian32 hdr.seq
      sndUna := toggleEndian32 hdr.ack
      sndNxt := toggleEndian32 hdr.ack }
  { init with
    nic := Nic.e1000TxInit mem
    tcp := { TcpStack.init with cb := Function.update TcpStack.init.cb 0 cb } }

section

variable (mem : Memory) (packet : Packet)

include mem packet

theorem expecting_selects :
    (expecting mem packet).tcp.selectCb packet (loadTcpHdr packet.data) =
      some (0, (expecting mem packet).tcp) := by
  have found : (expecting mem packet).tcp.findCb packet.srcIp (loadTcpHdr packet.data) =
      some 0 := by
    refine List.find?_cons_of_pos ?_
    simp [expecting]
  unfold selectCb
  rw [found]

theorem expecting_payload (len : BitVec 32)
    (noReset : flgIsSet (packet.data 13) (TCP_FLG_RST ||| TCP_FLG_SYN) = false)
    (acknowledges : flgIsSet (packet.data 13) TCP_FLG_ACK = true)
    (more : len - (loadTcpHdr packet.data).hlen ≠ 0) :
    ((loadTcpHdr packet.data).hlen.toNat, (len - (loadTcpHdr packet.data).hlen).toNat) ∈
      payload (expecting mem packet).tcp 0 packet.data len := by
  have acked : (expecting mem packet).tcp.eventAck 0 (toggleEndian32 (loadTcpHdr packet.data).ack) =
      .ok ((expecting mem packet).tcp, true) := by
    simp [eventAck, ackSynchronized, ackStates, expecting]
    rfl
  have synchronized : ((expecting mem packet).tcp.cb 0).state = .established := rfl
  have inOrder : toggleEndian32 (loadTcpHdr packet.data).seq =
      ((expecting mem packet).tcp.cb 0).rcvNxt := rfl
  unfold payload
  split
  next closed => exact absurd closed (by rw [synchronized]; decide)
  next listens => exact absurd listens (by rw [synchronized]; decide)
  next opening => exact absurd opening (by rw [synchronized]; decide)
  have clean : ¬flgIsSet (loadTcpHdr packet.data).flg
      (TCP_FLG_RST ||| TCP_FLG_SYN) = true := Bool.eq_false_iff.mp noReset
  have set : ¬(!flgIsSet (loadTcpHdr packet.data).flg TCP_FLG_ACK) = true := by
    change ¬(!flgIsSet (packet.data 13) TCP_FLG_ACK) = true
    rw [acknowledges]
    decide
  rw [if_neg (not_not_intro inOrder), if_neg clean, if_neg set, acked]
  have copies : (true && (len - (loadTcpHdr packet.data).hlen != 0) &&
      ((expecting mem packet).tcp.cb 0).rxIsReady) = true := by
    rw [bne_iff_ne.mpr more]
    rfl
  change _ ∈ if (true && (len - (loadTcpHdr packet.data).hlen != 0) &&
      ((expecting mem packet).tcp.cb 0).rxIsReady) = true then
    [((loadTcpHdr packet.data).hlen.toNat, (len - (loadTcpHdr packet.data).hlen).toNat)]
    else []
  rw [if_pos copies]
  exact mem_singleton_self _

/-- If the expected segment is read within the frame, it is well formed. -/
theorem wellFormedTcp_of_expecting (short : packet.len.toNat ≤ MBUF_SIZE)
    (within : ∀ part ∈ segmentSeen (expecting mem packet).tcp packet, part.2 ≤ MBUF_SIZE) :
    WellFormedTcp packet.data packet.len.toNat := by
  have seen : segmentSeen (expecting mem packet).tcp packet =
      (0, (handed (packet.data 12) packet.len).toNat) ::
        payload (expecting mem packet).tcp 0 packet.data (handed (packet.data 12) packet.len) := by
    unfold segmentSeen
    dsimp only
    rw [expecting_selects]
    rfl
  rw [seen, forall_mem_cons] at within
  obtain ⟨handedFits, payloadFits⟩ := within
  intro long
  have offset : 5 ≤ (packet.data 12 >>> 4).toNat ∧
      4 * (packet.data 12 >>> 4).toNat ≤ packet.len.toNat + TCP_HDR_SIZE := by
    by_contra wrong
    exact absurd handedFits (not_le.mpr (handed_wraps short wrong))
  refine ⟨offset.1, offset.2, fun noReset acknowledges => ?_⟩
  have handedLength := handed_toNat offset.1 offset.2
  have header := hlen_toNat packet.data
  by_contra wraps
  -- The payload length is the difference modulo 2 ^ 32.
  have wrapped : MBUF_SIZE <
      (handed (packet.data 12) packet.len - (loadTcpHdr packet.data).hlen).toNat := by
    have small := dataOffset_lt (packet.data 12)
    rw [BitVec.toNat_sub, header, handedLength]
    simp only [TCP_HDR_SIZE, MBUF_SIZE] at wraps short ⊢
    omega
  refine absurd (payloadFits _ (expecting_payload mem packet _ noReset acknowledges ?_))
    (not_le.mpr wrapped)
  intro zero
  rw [zero] at wrapped
  exact absurd wrapped (by decide)

end

/-! ## The layers together -/

theorem trim_exact {len : BitVec 32} (less : len.toNat ≤ m.len.toNat) :
    (m.trim (m.len - len)).2 = { m with len := len } := by
  have below : ¬m.len - len > m.len := by
    rw [gt_iff_lt, BitVec.not_lt, BitVec.le_def, BitVec.toNat_sub_of_le (BitVec.le_def.mpr less)]
    exact Nat.sub_le ..
  unfold trim
  rw [if_neg below]
  simp

theorem trim_head (m : Mbuf) (len : BitVec 32) : (m.trim len).2.head = m.head := by
  unfold trim
  split
  · rfl
  · rfl

theorem ipRx_within (formed : WellFormedIp (fun i => k.mem (m.head + i)) m.len.toNat)
    (within : k.ReadsWithin low high) (above : low ≤ m.head) (below : m.head + m.len.toNat ≤ high) :
    (k.ipRx m).ReadsWithin low high := by
  obtain ⟨header, tcp, udp⟩ := formed
  have long : (BitVec.ofNat 32 IP_HDR_SIZE).toNat ≤ m.len.toNat := header
  have left : (m.len - BitVec.ofNat 32 IP_HDR_SIZE).toNat = m.len.toNat - IP_HDR_SIZE :=
    BitVec.toNat_sub_of_le (BitVec.le_def.mpr long)
  have headerInside : low ≤ m.head ∧ m.head + IP_HDR_SIZE ≤ high := ⟨above, by omega⟩
  have seen := see_within.mpr ⟨within, headerInside⟩
  unfold ipRx
  rw [pop_eq]
  dsimp only [getD_some]
  split
  next isTcp =>
    obtain ⟨fits, segment⟩ := tcp isTcp
    have handedInside : low ≤ m.head + IP_HDR_SIZE ∧
        m.head + IP_HDR_SIZE + (ipPayload fun i => k.mem (m.head + i)).toNat ≤ high :=
      ⟨Nat.le_add_right_of_le above, by omega⟩
    refine tcpRx_within.mpr ⟨see_within.mpr ⟨seen, ?_⟩, fun full => ⟨headerInside, ?_, ?_⟩⟩
    · rw [trim_head]
      exact handedInside
    · rw [trim_head]
      exact ⟨handedInside.1, le_trans (Nat.add_le_add_left full _) handedInside.2⟩
    rw [trim_head]
    intro part member
    have lt := segmentSeen_within k.tcp
      (packetAt k.mem (m.head + IP_HDR_SIZE) (ipPayload fun i => k.mem (m.head + i)) m.head)
      (by simpa only [packetAt, add_assoc] using segment) full part member
    exact ⟨Nat.le_add_right_of_le handedInside.1, by
      rw [add_assoc]
      exact le_trans (Nat.add_le_add_left lt _) handedInside.2⟩
  · split
    next isUdp =>
      have fits := udp isUdp
      have handedInside : low ≤ m.head + IP_HDR_SIZE ∧
          m.head + IP_HDR_SIZE + (ipPayload fun i => k.mem (m.head + i)).toNat ≤ high :=
        ⟨Nat.le_add_right_of_le above, by omega⟩
      have less : ((ipPayload fun i => k.mem (m.head + i)).setWidth 32).toNat ≤
          (m.len - BitVec.ofNat 32 IP_HDR_SIZE).toNat := by
        rw [left, BitVec.toNat_setWidth]
        exact le_trans (Nat.mod_le ..) (Nat.le_sub_of_add_le' fits)
      refine udpRx_within (see_within.mpr ⟨seen, ?_⟩) headerInside ?_ ?_
      · rw [trim_head]
        exact handedInside
      · exact congrArg len
          (trim_exact less)
      · rw [trim_head]
        exact handedInside
    · exact seen

/-- What `ip_rx` reads in a stack that expects the segment in the packet. -/
theorem wellFormedIp_of_within (small : m.len.toNat ≤ MBUF_SIZE)
    (expects : k.tcp = (expecting k.mem (packetAt k.mem (m.head + IP_HDR_SIZE)
      (ipPayload fun i => k.mem (m.head + i)) m.head)).tcp)
    (within : (k.ipRx m).ReadsWithin low (m.head + m.len.toNat)) :
    WellFormedIp (fun i => k.mem (m.head + i)) m.len.toNat := by
  unfold ipRx at within
  rw [pop_eq] at within
  dsimp only [getD_some] at within
  split at within
  next isTcp =>
    obtain ⟨handedInside, parts⟩ := tcpRx_within.mp within
    rw [trim_head] at handedInside parts
    obtain ⟨headerInside, fits⟩ := see_within.mp handedInside
    have payloadFits : IP_HDR_SIZE + (ipPayload fun i => k.mem (m.head + i)).toNat ≤ m.len.toNat :=
      Nat.le_of_add_le_add_left (Nat.add_assoc .. ▸ fits.2)
    refine ⟨Nat.le_of_add_le_add_left (see_within.mp headerInside).2.2, fun _ => ⟨payloadFits, ?_⟩,
      fun isUdp => absurd (isTcp.symm.trans isUdp) (by decide)⟩
    have formed : TCP_HDR_SIZE ≤ (ipPayload fun i => k.mem (m.head + i)).toNat →
        WellFormedTcp (fun i => k.mem (m.head + IP_HDR_SIZE + i))
          (ipPayload fun i => k.mem (m.head + i)).toNat := by
      intro long
      refine wellFormedTcp_of_expecting k.mem
        (packetAt k.mem (m.head + IP_HDR_SIZE) (ipPayload fun i => k.mem _) m.head)
        (le_trans (Nat.le_of_add_left_le payloadFits) small) fun part member => ?_
      rw [← expects] at member
      have lt := ((parts long).2.2 part member).2
      change m.head + IP_HDR_SIZE + part.1 + part.2 ≤ m.head + m.len.toNat at lt
      omega
    simp only [add_assoc] at formed
    exact fun long => formed long long
  next notTcp =>
    split at within
    next isUdp =>
      obtain ⟨headerInside, fits⟩ := see_within.mp (udpRx_mono within)
      rw [trim_head] at fits
      exact ⟨Nat.le_of_add_le_add_left (see_within.mp headerInside).2.2,
        fun isTcp => absurd isTcp notTcp,
        fun _ => Nat.le_of_add_le_add_left (Nat.add_assoc .. ▸ fits.2)⟩
    next notUdp =>
      exact ⟨Nat.le_of_add_le_add_left (see_within.mp within).2.2,
        fun isTcp => absurd isTcp notTcp, fun isUdp => absurd isUdp notUdp⟩

theorem ipRx_mono (within : (k.ipRx m).ReadsWithin low high) : k.ReadsWithin low high := by
  unfold ipRx at within
  dsimp only at within
  split at within
  · exact (see_within.mp (see_within.mp (tcpRx_within.mp within).1).1).1
  · split at within
    · exact (see_within.mp (see_within.mp (udpRx_mono within)).1).1
    · exact (see_within.mp within).1

theorem arpRx_seen (k : NetStack) (m : Mbuf) :
    (k.arpRx m).seen = (k.see m.head ARP_HDR_SIZE).seen := by
  unfold arpRx
  rw [pop_eq]
  dsimp only [getD_some]
  split
  · exact arpTx_seen ..
  split
  · split
    · rfl
    · rfl
  · rfl

/-- The reads of every state of the stack stay inside the frame exactly if it is well formed. -/
theorem receive_bounds (mem : Memory) (m : Mbuf) (small : m.len.toNat ≤ MBUF_SIZE) :
    (∀ k : NetStack, k.mem = mem → k.seen = [] →
        (k.ethernetRx m).ReadsWithin m.head (m.head + m.len.toNat)) ↔
      WellFormed (fun i => mem (m.head + i)) m.len.toNat := by
  constructor
  · intro within
    let packet := packetAt mem (m.head + ETH_HDR_SIZE + IP_HDR_SIZE)
      (ipPayload fun i => mem (m.head + ETH_HDR_SIZE + i)) (m.head + ETH_HDR_SIZE)
    have seen := within (expecting mem packet) rfl rfl
    unfold ethernetRx at seen
    rw [pop_eq] at seen
    dsimp only at seen
    have left (header : ETH_HDR_SIZE ≤ m.len.toNat) :
        (m.len - BitVec.ofNat 32 ETH_HDR_SIZE).toNat = m.len.toNat - ETH_HDR_SIZE :=
      BitVec.toNat_sub_of_le (BitVec.le_def.mpr header)
    split at seen
    next isIp =>
      have header : ETH_HDR_SIZE ≤ m.len.toNat :=
        Nat.le_of_add_le_add_left (see_within.mp (ipRx_mono seen)).2.2
      refine ⟨header, fun _ => ?_, fun isArp => absurd (isIp.symm.trans isArp) (by decide)⟩
      have whole : m.head + ETH_HDR_SIZE + (m.len - BitVec.ofNat 32 ETH_HDR_SIZE).toNat =
          m.head + m.len.toNat := by
        rw [left header, add_assoc, Nat.add_sub_cancel' header]
      have short : (m.len - BitVec.ofNat 32 ETH_HDR_SIZE).toNat ≤ MBUF_SIZE := by
        rw [left header]
        exact le_trans (Nat.sub_le ..) small
      rw [← whole] at seen
      have formed := wellFormedIp_of_within short rfl seen
      change WellFormedIp (fun i => mem (m.head + ETH_HDR_SIZE + i))
        (m.len - BitVec.ofNat 32 ETH_HDR_SIZE).toNat at formed
      rw [left header] at formed
      simpa only [add_assoc] using formed
    next notIp =>
      split at seen
      next isArp =>
        have inside := see_within.mp ((within_of_seen (arpRx_seen ..)).mp seen)
        refine ⟨Nat.le_of_add_le_add_left (see_within.mp inside.1).2.2,
          fun isIp => absurd isIp notIp, fun _ => ?_⟩
        exact Nat.le_of_add_le_add_left (Nat.add_assoc .. ▸ inside.2.2)
      next notArp =>
        exact ⟨Nat.le_of_add_le_add_left (see_within.mp seen).2.2,
          fun isIp => absurd isIp notIp, fun isArp => absurd isArp notArp⟩
  · rintro ⟨header, ip, arp⟩ k rfl unseen
    have left : (m.len - BitVec.ofNat 32 ETH_HDR_SIZE).toNat = m.len.toNat - ETH_HDR_SIZE :=
      BitVec.toNat_sub_of_le (BitVec.le_def.mpr header)
    have seen : (k.see m.head ETH_HDR_SIZE).ReadsWithin m.head (m.head + m.len.toNat) := by
      refine see_within.mpr ⟨?_, le_refl _, Nat.add_le_add_left header _⟩
      unfold ReadsWithin
      rw [unseen]
      exact fun _ member => nomatch member
    unfold ethernetRx
    rw [pop_eq]
    dsimp only
    split
    next isIp =>
      refine ipRx_within ?_ seen (Nat.le_add_right ..) ?_
      · change WellFormedIp (fun i => k.mem (m.head + ETH_HDR_SIZE + i))
          (m.len - BitVec.ofNat 32 ETH_HDR_SIZE).toNat
        rw [left]
        simpa only [add_assoc] using ip isIp
      · change m.head + ETH_HDR_SIZE + (m.len - BitVec.ofNat 32 ETH_HDR_SIZE).toNat ≤ _
        rw [left]
        omega
    · split
      next isArp =>
        refine (within_of_seen (arpRx_seen ..)).mpr (see_within.mpr ⟨seen, Nat.le_add_right .., ?_⟩)
        rw [add_assoc]
        exact Nat.add_le_add_left (arp isArp) _
      · exact seen

/-- Memory that holds a frame at address 0: an IPv4 packet of a protocol with a total length,
and after its header these bytes. -/
def ipFrame (protocol : BitVec 8) (total : BitVec 16) (rest : List (BitVec 8)) : Memory :=
  storeBytes (fun _ => 0) 0 (GATEWAY_MAC_ADDR ++ LOCAL_MAC_ADDR ++
    bytes16 (toggleEndian16 ETH_TYPE_IPV4) ++ [0x45, 0] ++ bytes16 (toggleEndian16 total) ++
    [0, 0, 0, 0, 64, protocol] ++ List.replicate 10 0 ++ rest)

/-- A segment with six bytes of payload, of a connection to port 80. -/
def sixBytes : Memory :=
  ipFrame IP_PROTO_TCP 46 ([0, 80, 192, 0, 0, 0, 0, 7, 0, 0, 0, 9, 0x50, 0x18, 0, 0, 0, 0, 0, 0] ++
    [104, 101, 108, 108, 111, 33])

theorem receive_bounds_six_bytes :
    WellFormed sixBytes 60 ∧ ∀ k : NetStack, k.mem = sixBytes → k.seen = [] →
      (k.ethernetRx ⟨0, 0, 60⟩).ReadsWithin 0 60 := by
  have formed : WellFormed sixBytes 60 := by decide +kernel
  have bounds := receive_bounds sixBytes ⟨0, 0, 60⟩ (by decide)
  simp only [zero_add] at bounds
  exact ⟨formed, bounds.mpr formed⟩

/-- A datagram in a frame of 60 bytes whose IP header tells a length of 1500. -/
def lyingLength : NetStack :=
  { init with nic := Nic.e1000TxInit (ipFrame IP_PROTO_UDP 1500 []) }

/-- `ip_rx` hands 1480 bytes on, of which 26 are in the frame. -/
theorem lying_length_handed_on : (34, 1480) ∈ (lyingLength.ethernetRx ⟨0, 0, 60⟩).seen ∧
      ¬(lyingLength.ethernetRx ⟨0, 0, 60⟩).ReadsWithin 0 60 := by
  decide +kernel

end NetStack

end Xv6Rv32im.Net
