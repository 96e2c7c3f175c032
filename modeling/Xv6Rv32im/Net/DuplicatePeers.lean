import Xv6Rv32im.Net.Stack

/-!
# Opening a peer twice

`tcp_open` and `udp_open` compare the peer that they are given with the peers that connect stored
in network byte order, and only up to the first free entry.
-/

namespace Xv6Rv32im.Net

open Function List Tcp

/-- A TCP block as far as open reads it, which is what there is of a UDP block. -/
def peerOf (cb : TcpCb) : UdpCb := ⟨cb.used, cb.port, cb.peerAddr, cb.peerPort, []⟩

def tcpTable (s : TcpStack) (i : Nat) : UdpCb := peerOf (s.cb i)

section

variable (table : Nat → UdpCb) (ip : BitVec 32) (port : BitVec 16)

def HasFree : Prop := ∃ i < TCP_CB_TABLE_SIZE, (table i).used = false

def claim (i : Nat) : Nat → UdpCb := update table i { table i with used := true }

/-- An entry is used and has the address and port, both in host byte order, as its peer. -/
abbrev HasPeer (i : Nat) : Prop :=
  (table i).used ∧ (table i).peerAddr = toggleEndian32 ip ∧
    (table i).peerPort = toggleEndian16 port

def Connected : Prop :=
  ∃ i < TCP_CB_TABLE_SIZE, (table i).port ≠ 0 ∧ HasPeer table ip port i

/-- The open can take its lock, is refused exactly if the peer is connected, and otherwise claims
a free entry if there is one. -/
def OpensRightly (locked : Bool) (answer : Int × (Nat → UdpCb)) : Prop :=
  locked = false ∧ (Connected table ip port → answer = (-1, table)) ∧
    (¬Connected table ip port → HasFree table →
      ∃ i < TCP_CB_TABLE_SIZE, (table i).used = false ∧ answer = (↑i, claim table i))

/-- The address and port with their bytes reversed are the peer of an entry without a free one in
front of it. -/
def Reversed : Prop :=
  ∃ i < TCP_CB_TABLE_SIZE, (∀ j < i, (table j).used) ∧
    HasPeer table (toggleEndian32 ip) (toggleEndian16 port) i

/-- When an open is right, for which peers and which layouts of the table. -/
structure RightExactly (locked : Bool) (answer : Int × (Nat → UdpCb)) : Prop where
  /-- A peer is connected exactly if one with its bytes reversed is so in front of all free
  entries, or the table is full. -/
  general : OpensRightly table ip port locked answer ↔
    locked = false ∧ (HasFree table → (Connected table ip port ↔ Reversed table ip port))
  /-- For a peer that reads the same in both byte orders only the layout matters: if it is
  connected, then by an entry in front of all free ones. -/
  palindrome : toggleEndian32 ip = ip → toggleEndian16 port = port →
    (∀ i < TCP_CB_TABLE_SIZE, HasPeer table ip port i → (table i).port ≠ 0) →
    (OpensRightly table ip port locked answer ↔ locked = false ∧
      (HasFree table → Connected table ip port → Reversed table ip port))
  /-- Where none has the reversed peer, a connected peer is refused by a full table only. -/
  other : (∀ i < TCP_CB_TABLE_SIZE,
      ¬HasPeer table (toggleEndian32 ip) (toggleEndian16 port) i) →
    (OpensRightly table ip port locked answer ↔
      locked = false ∧ (HasFree table → ¬Connected table ip port))

end

/-! ## Loops as those of `tcp_open` and `udp_open` -/

section

variable {table : Nat → UdpCb} {ip : BitVec 32} {port : BitVec 16}
  (loop : List Nat → Int × (Nat → UdpCb)) (last : loop [] = (-1, table))
  (round : ∀ i rest, loop (i :: rest) = if (table i).used then
      if (table i).peerAddr = ip ∧ (table i).peerPort = port then (-1, table) else loop rest
    else (↑i, claim table i))

include last round

/-- The loop ends at the first entry that is free or has the bytes of the peer. -/
theorem loop_eq (l : List Nat) :
    loop l = (l.find? fun i => !(table i).used ||
        decide ((table i).peerAddr = ip ∧ (table i).peerPort = port)).elim (-1, table)
      fun i => if (table i).used then (-1, table) else (↑i, claim table i) := by
  induction l with
  | nil => exact last
  | cons i rest ih =>
    rw [round, ih, find?_cons]
    cases used : (table i).used with
    | false => simp [used]
    | true =>
      by_cases same : (table i).peerAddr = ip ∧ (table i).peerPort = port <;> simp [same, used]

theorem opens_rightly_of_loop {locked : Bool} {answer : Int × (Nat → UdpCb)}
    (ran : locked = false → answer = loop (range TCP_CB_TABLE_SIZE)) :
    OpensRightly table ip port locked answer ↔
      locked = false ∧ (HasFree table → (Connected table ip port ↔ Reversed table ip port)) := by
  refine and_congr_right fun unlocked => ?_
  rw [ran unlocked, loop_eq loop last round]
  cases first : (range TCP_CB_TABLE_SIZE).find? _ with
  | none =>
    have full : ¬HasFree table := by
      rintro ⟨i, lt, unused⟩
      simpa [unused] using find?_eq_none.mp first i (mem_range.mpr lt)
    exact iff_of_true ⟨fun _ => rfl, fun _ free => absurd free full⟩ fun free => absurd free full
  | some i =>
    obtain ⟨stops, lt, before⟩ := find?_range_eq_some.mp first
    have lt := mem_range.mp lt
    simp only [Bool.not_or, Bool.not_not, Bool.and_eq_true] at before
    cases used : (table i).used with
    | true =>
      have reversed : Reversed table ip port := by
        refine ⟨i, lt, fun j less => (before j less).1, used, ?_⟩
        rw [toggleEndian32_twice, toggleEndian16_twice]
        simpa [used] using stops
      simp only [Option.elim, used, if_true, iff_true_right reversed]
      refine ⟨fun right free => ?_, fun connects => ⟨fun _ => trivial, fun no free =>
        absurd (connects free) no⟩⟩
      by_contra no
      obtain ⟨_, _, _, claimed⟩ := right.2 no free
      have negative := congrArg Prod.fst claimed
      dsimp only at negative
      omega
    | false =>
      have unreversed : ¬Reversed table ip port := by
        rintro ⟨e, _, front, used', same⟩
        rw [toggleEndian32_twice, toggleEndian16_twice] at same
        obtain less | rfl | more := Nat.lt_trichotomy e i
        · simpa [same] using (before e less).2
        · cases used.symm.trans used'
        · cases used.symm.trans (front i more)
      simp only [Option.elim, used, iff_false_right unreversed]
      refine ⟨fun right _ connected => ?_, fun no => ⟨fun connected => ?_, fun _ _ =>
        ⟨i, lt, used, rfl⟩⟩⟩
      · have negative := congrArg Prod.fst (right.1 connected)
        dsimp at negative
        omega
      · exact absurd connected (no ⟨i, lt, used⟩)

theorem rightExactly {locked : Bool} {answer : Int × (Nat → UdpCb)}
    (ran : locked = false → answer = loop (range TCP_CB_TABLE_SIZE)) :
    RightExactly table ip port locked answer := by
  have general := opens_rightly_of_loop loop last round ran
  refine ⟨general, fun sameIp samePort ports => ?_, fun none => ?_⟩
  · have connects : Reversed table ip port → Connected table ip port := by
      rintro ⟨i, lt, -, peer⟩
      rw [sameIp, samePort] at peer
      exact ⟨i, lt, ports i lt peer, peer⟩
    rw [general]
    exact and_congr_right fun _ => imp_congr_right fun _ => ⟨Iff.mp, fun front => ⟨front, connects⟩⟩
  · have unreversed : ¬Reversed table ip port := by
      rintro ⟨i, lt, -, peer⟩
      exact none i lt peer
    simp only [general, unreversed, iff_false]

end

theorem tcpTable_claim (s : TcpStack) (i : Nat) :
    tcpTable (s.modifyCb i fun cb => { cb with used := true }) = claim (tcpTable s) i :=
  funext (apply_update (fun _ => peerOf) s.cb i _)

namespace NetStack

/-- An open is right if and only if no earlier open left the lock held and, unless the table is
full, the peer is connected exactly if the one with its bytes reversed is so in front of all free
entries. -/
theorem opens_rightly_iff (k : NetStack) (ip : BitVec 32) (port : BitVec 16) :
    RightExactly (tcpTable k.tcp) ip port k.tcp.locked ((k.tcp.tcpOpen ip port).map id tcpTable) ∧
      RightExactly k.udp ip port k.udpLocked ((k.udpOpen ip port).map id udp) := by
  constructor
  · refine rightExactly (fun l => (k.tcp.openFrom ip port l).map id tcpTable) rfl
      (fun i rest => ?_) fun free => by rw [TcpStack.tcpOpen, free]; rfl
    rw [← tcpTable_claim, TcpStack.openFrom]
    simp only [apply_ite (Prod.map id tcpTable)]
    rfl
  · refine rightExactly (fun l => (k.udpOpenFrom ip port l).map id udp) rfl
      (fun i rest => ?_) fun free => by rw [udpOpen, free]; rfl
    rw [udpOpenFrom]
    simp only [apply_ite (Prod.map id udp)]
    rfl

/-- A peer that is connected is opened a second time. -/
theorem connected_peer_opened : ∃ k : NetStack,
    k = (NetStack.init.udpOpen 0x0a000202 80).2.udpConnect 0 0x0a000202 80 ∧
      (k.udpOpen 0x0a000202 80).1 = 1 ∧ Connected k.udp 0x0a000202 80 :=
  ⟨_, rfl, by decide +kernel, 0, by decide, by decide +kernel⟩

end NetStack

end Xv6Rv32im.Net
