import Xv6Rv32im.Library.Run
import Xv6Rv32im.Net.Mbuf

/-!
# The transmit ring of the E1000

`e1000_send` and the device share a ring of descriptors.  The device sends what the
descriptors from `TDH` up to `TDT` point to and sets their `DD` bits.  The driver never
clears a `DD` bit, so it does not notice when the device lags a full ring behind: as long
as every send leaves a descriptor between `TDT` and `TDH`, each frame is sent once and as
it was, and otherwise frames are lost.
-/

namespace Xv6Rv32im.Net

open Library.Run Function List
open Vm (PGSIZE)

def TX_RING_SIZE : Nat := 16

def E1000_TXD_CMD_EOP : BitVec 8 := 1
def E1000_TXD_CMD_RS : BitVec 8 := 8
def E1000_TXD_STAT_DD : BitVec 8 := 1
def E1000_RXD_STAT_DD : BitVec 8 := 1

/-- The fields of `struct tx_desc` that the driver or the device uses. -/
structure TxDesc where
  addr : Nat
  length : BitVec 16
  cmd : BitVec 8
  status : BitVec 8

/-- `tx_ring`, `tx_mbufs`, the registers `TDH` and `TDT` and memory.  `freed` are the pages
passed to `mbuf_free`, and `wire` are the frames that the device has sent. -/
structure Nic where
  txRing : Nat → TxDesc
  txMbufs : Nat → Option Mbuf
  tdh : Nat
  tdt : Nat
  mem : Nat → BitVec 8
  freed : List Nat
  wire : List (List (BitVec 8))

namespace Nic

def e1000TxInit (mem : Nat → BitVec 8) : Nic where
  txRing := fun _ => ⟨0, 0, 0, E1000_TXD_STAT_DD⟩
  txMbufs := fun _ => none
  tdh := 0
  tdt := 0
  mem := mem
  freed := []
  wire := []

/-- `mbuf_free`; `kfree` fills the page with ones. -/
def mbufFree (nic : Nic) (m : Mbuf) : Nic :=
  { nic with
    mem := fun addr => if addr / PGSIZE = m.page then 1 else nic.mem addr
    freed := nic.freed ++ [m.page] }

/-- `e1000_send`, which runs under `e1000_lock`. -/
def e1000Send (nic : Nic) (m : Mbuf) : Int × Nic :=
  let descPos := nic.tdt
  let tail := nic.txRing descPos
  if tail.status &&& E1000_RXD_STAT_DD = 0 then (-1, nic)
  else
    let nic :=
      match nic.txMbufs descPos with
      | none => nic
      | some old => nic.mbufFree old
    (0, { nic with
      txMbufs := update nic.txMbufs descPos (some m)
      txRing := update nic.txRing descPos { tail with
          addr := m.head
          length := m.len.setWidth 16
          cmd := E1000_TXD_CMD_RS ||| E1000_TXD_CMD_EOP }
      tdt := (descPos + 1) % TX_RING_SIZE })

/-- The device sends the frame at `TDH`, if there is one before `TDT`. -/
def deviceStep (nic : Nic) : Nic :=
  if nic.tdh = nic.tdt then nic
  else
    let desc := nic.txRing nic.tdh
    { nic with
      wire := nic.wire ++ [frame nic.mem desc.addr desc.length.toNat]
      txRing := update nic.txRing nic.tdh { desc with status := desc.status ||| E1000_TXD_STAT_DD }
      tdh := (nic.tdh + 1) % TX_RING_SIZE }

def Outside (nic : Nic) (page : Nat) : Prop :=
  ∀ i ∈ List.range TX_RING_SIZE, ∀ m ∈ nic.txMbufs i, m.page ≠ page

instance (nic : Nic) (page : Nat) : Decidable (nic.Outside page) :=
  inferInstanceAs (Decidable (∀ i ∈ _, ∀ m ∈ _, _))

end Nic

/-- A call of `e1000_send`, a step of the device, or a write to memory by the rest of the
kernel. -/
inductive TxEvent where
  | send (m : Mbuf)
  | device
  | write (addr : Nat) (value : BitVec 8)

/-- The ring next to the mbufs for which `e1000_send` returned 0, with the bytes they held. -/
structure Transmission where
  nic : Nic
  accepted : List (Mbuf × List (BitVec 8))

namespace Transmission

def init (mem : Nat → BitVec 8) : Transmission := ⟨Nic.e1000TxInit mem, []⟩

def step (t : Transmission) : TxEvent → Except Empty Transmission
  | .send m =>
    let (result, nic) := t.nic.e1000Send m
    .ok ⟨nic, if result = 0 then t.accepted ++ [(m, frame t.nic.mem m.head m.len.toNat)]
      else t.accepted⟩
  | .device => .ok { t with nic := t.nic.deviceStep }
  | .write addr value => .ok { t with nic := { t.nic with mem := update t.nic.mem addr value } }

/-- The kernel owns what it sends and writes: the ring does not hold it. -/
def Owned (t : Transmission) : TxEvent → Prop
  | .send m => m.Fits ∧ t.nic.Outside m.page
  | .device => True
  | .write addr _ => t.nic.Outside (addr / PGSIZE)

/-- A send leaves a descriptor between `TDT` and `TDH`. -/
def Spare (t : Transmission) : TxEvent → Prop
  | .send _ => (t.nic.tdt + 1) % TX_RING_SIZE ≠ t.nic.tdh
  | .device | .write _ _ => True

def Spacious (t : Transmission) (event : TxEvent) : Prop :=
  t.Owned event ∧ t.Spare event

instance (t : Transmission) (event : TxEvent) : Decidable (t.Owned event) := by
  cases event <;> unfold Owned <;> infer_instance

instance (t : Transmission) (event : TxEvent) : Decidable (t.Spare event) := by
  cases event <;> unfold Spare <;> infer_instance

instance (t : Transmission) (event : TxEvent) : Decidable (t.Spacious event) :=
  inferInstanceAs (Decidable (_ ∧ _))

/-- What the ring promises.  `accepted.length - wire.length` frames are outstanding; a
descriptor at `TDT` is completed unless all sixteen are. -/
structure Faithful (t : Transmission) : Prop where
  sent : t.nic.wire = (t.accepted.map Prod.snd).take t.nic.wire.length
  pending : (Nic.deviceStep^[t.accepted.length - t.nic.wire.length] t.nic).wire =
    t.accepted.map Prod.snd
  freed : ∃ count ≤ t.nic.wire.length,
    t.nic.freed = (t.accepted.take count).map fun sent => sent.1.page
  refuses : t.accepted.length = t.nic.wire.length + TX_RING_SIZE → ∀ m, (t.nic.e1000Send m).1 = -1

/-! ## The invariant -/

/-- Send number `j` uses the descriptor `j % 16`. -/
structure Inv (t : Transmission) : Prop where
  head : t.nic.tdh = t.nic.wire.length % TX_RING_SIZE
  tail : t.nic.tdt = t.accepted.length % TX_RING_SIZE
  behind : t.nic.wire.length ≤ t.accepted.length
  space : t.accepted.length < t.nic.wire.length + TX_RING_SIZE
  done : ∀ i, (t.nic.txRing i).status &&& E1000_RXD_STAT_DD ≠ 0
  slots : ∀ j (inside : j < t.accepted.length), t.accepted.length ≤ j + TX_RING_SIZE →
    t.nic.txMbufs (j % TX_RING_SIZE) = some t.accepted[j].1 ∧
      (t.nic.txRing (j % TX_RING_SIZE)).addr = t.accepted[j].1.head ∧
      (t.nic.txRing (j % TX_RING_SIZE)).length = t.accepted[j].1.len.setWidth 16
  fits : ∀ j (inside : j < t.accepted.length), t.accepted[j].1.Fits
  unused : ∀ i, t.accepted.length ≤ i → i < TX_RING_SIZE → t.nic.txMbufs i = none
  apart : ∀ i j (inside : i < t.accepted.length) (inside' : j < t.accepted.length),
    t.accepted.length ≤ i + TX_RING_SIZE → t.accepted.length ≤ j + TX_RING_SIZE → i ≠ j →
      t.accepted[i].1.page ≠ t.accepted[j].1.page
  bytes : ∀ j (inside : j < t.accepted.length), t.nic.wire.length ≤ j →
    frame t.nic.mem t.accepted[j].1.head t.accepted[j].1.len.toNat = t.accepted[j].2
  sent : t.nic.wire = (t.accepted.map Prod.snd).take t.nic.wire.length
  freed : t.nic.freed =
    (t.accepted.take (t.accepted.length - TX_RING_SIZE)).map fun sent => sent.1.page

variable {t : Transmission}

theorem init_inv (mem : Nat → BitVec 8) : (init mem).Inv where
  head := rfl
  tail := rfl
  behind := Nat.le_refl 0
  space := by
    change 0 < 0 + TX_RING_SIZE
    decide
  done := by
    intro i
    change E1000_TXD_STAT_DD &&& E1000_RXD_STAT_DD ≠ 0
    decide
  slots := nofun
  fits := nofun
  unused := fun _ _ _ => rfl
  apart := nofun
  bytes := nofun
  sent := rfl
  freed := rfl

theorem frame_congr {mem mem' : Nat → BitVec 8} {m : Mbuf} (fits : m.Fits)
    (same : ∀ addr, addr / PGSIZE = m.page → mem' addr = mem addr) :
    frame mem' m.head m.len.toNat = frame mem m.head m.len.toNat := by
  obtain ⟨above, below⟩ := fits
  refine map_congr_left fun i lt => same _ ?_
  have small := mem_range.mp lt
  exact Nat.div_eq_of_lt_le (le_trans above (Nat.le_add_right ..)) (by omega)

theorem dd_set (status : BitVec 8) : (status ||| E1000_TXD_STAT_DD) &&& E1000_RXD_STAT_DD ≠ 0 := by
  revert status
  decide

section

variable (inv : t.Inv)

include inv

theorem Inv.desc_length {j : Nat} (lt : j < t.accepted.length)
    (recent : t.accepted.length ≤ j + TX_RING_SIZE) :
    (t.nic.txRing (j % TX_RING_SIZE)).length.toNat = t.accepted[j].1.len.toNat := by
  obtain ⟨above, below⟩ := inv.fits j lt
  rw [(inv.slots j lt recent).2.2, BitVec.toNat_setWidth]
  refine Nat.mod_eq_of_lt (lt_of_le_of_lt ?_ (show PGSIZE < 2 ^ 16 by decide))
  rw [Nat.add_mul, Nat.one_mul] at below
  omega

/-- The device sends the oldest outstanding frame. -/
theorem device_inv : ({ t with nic := t.nic.deviceStep } : Transmission).Inv := by
  have head := inv.head
  have tail := inv.tail
  have behind := inv.behind
  have space := inv.space
  unfold Nic.deviceStep
  by_cases empty : t.nic.tdh = t.nic.tdt
  · rw [if_pos empty]
    exact inv
  rw [if_neg empty]
  have outstanding : t.nic.wire.length < t.accepted.length := by
    refine lt_of_le_of_ne behind fun same => empty ?_
    rw [head, tail, same]
  have recent : t.accepted.length ≤ t.nic.wire.length + TX_RING_SIZE := by omega
  obtain ⟨-, addr, -⟩ := inv.slots t.nic.wire.length outstanding recent
  -- The frame on the wire is that of the oldest accepted mbuf that is outstanding.
  have sends : frame t.nic.mem (t.nic.txRing t.nic.tdh).addr
      (t.nic.txRing t.nic.tdh).length.toNat = t.accepted[t.nic.wire.length].2 := by
    rw [head, addr, inv.desc_length outstanding recent]
    exact inv.bytes _ outstanding le_rfl
  have length : (t.nic.wire ++ [frame t.nic.mem (t.nic.txRing t.nic.tdh).addr
      (t.nic.txRing t.nic.tdh).length.toNat]).length = t.nic.wire.length + 1 := by
    rw [length_append, length_singleton]
  refine ⟨?_, tail, ?_, ?_, fun i => ?_, fun j lt recent => ?_, inv.fits, inv.unused,
    inv.apart, fun j lt later => ?_, ?_, inv.freed⟩
  · rw [length, head, Nat.mod_add_mod]
  · rw [length]
    exact outstanding
  · change t.accepted.length < _ + TX_RING_SIZE
    rw [length]
    omega
  · change (update t.nic.txRing t.nic.tdh _ i).status &&& _ ≠ 0
    rcases eq_or_ne i t.nic.tdh with rfl | ne
    · rw [update_self]
      exact dd_set _
    · rw [update_of_ne ne]
      exact inv.done i
  · have pre := inv.slots j lt recent
    refine ⟨pre.1, ?_⟩
    change (update t.nic.txRing t.nic.tdh _ (j % TX_RING_SIZE)).addr = _ ∧
      (update t.nic.txRing t.nic.tdh _ (j % TX_RING_SIZE)).length = _
    rcases eq_or_ne (j % TX_RING_SIZE) t.nic.tdh with same | ne
    · rw [← same, update_self]
      exact pre.2
    · rw [update_of_ne ne]
      exact pre.2
  · rw [length] at later
    exact inv.bytes j lt (by omega)
  · change t.nic.wire ++ [_] = (t.accepted.map Prod.snd).take _
    rw [length, take_succ_eq_append_getElem (by rw [length_map]; exact outstanding),
      ← inv.sent, sends, getElem_map]

theorem write_inv {addr : Nat} {value : BitVec 8} (outside : t.nic.Outside (addr / PGSIZE)) :
    ({ t with nic := { t.nic with mem := update t.nic.mem addr value } } : Transmission).Inv := by
  refine ⟨inv.head, inv.tail, inv.behind, inv.space, inv.done, inv.slots, inv.fits, inv.unused,
    inv.apart, fun j lt later => ?_, inv.sent, inv.freed⟩
  have space := inv.space
  change j < t.accepted.length at lt
  change t.nic.wire.length ≤ j at later
  have slot := (inv.slots j lt (by omega)).1
  rw [← inv.bytes j lt later]
  refine frame_congr (inv.fits j lt) fun addr' here => update_of_ne ?_ ..
  rintro rfl
  exact outside _ (mem_range.mpr (Nat.mod_lt _ (by decide))) _ slot here.symm

/-- The pages in the ring are those of the last sixteen mbufs. -/
theorem Inv.outside_ne {page j : Nat} (outside : t.nic.Outside page)
    (lt : j < t.accepted.length) (recent : t.accepted.length ≤ j + TX_RING_SIZE) :
    t.accepted[j].1.page ≠ page :=
  outside _ (mem_range.mpr (Nat.mod_lt _ (by decide))) _ (inv.slots j lt recent).1

/-- The mbuf in the descriptor at `TDT` is the oldest of the ring. -/
theorem Inv.oldest : (∃ old, t.nic.txMbufs t.nic.tdt = some old ∧
        ∃ lt : t.accepted.length - TX_RING_SIZE < t.accepted.length,
          TX_RING_SIZE ≤ t.accepted.length ∧ t.accepted[t.accepted.length - TX_RING_SIZE].1 = old) ∨
      t.nic.txMbufs t.nic.tdt = none ∧ t.accepted.length < TX_RING_SIZE := by
  have tail := inv.tail
  by_cases full : TX_RING_SIZE ≤ t.accepted.length
  · have lt : t.accepted.length - TX_RING_SIZE < t.accepted.length :=
      Nat.sub_lt (lt_of_lt_of_le (by decide) full) (by decide)
    have slot := (inv.slots _ lt (by omega)).1
    have same : (t.accepted.length - TX_RING_SIZE) % TX_RING_SIZE = t.nic.tdt := by
      rw [tail, ← Nat.mod_eq_sub_mod full]
    rw [same] at slot
    exact .inl ⟨_, slot, lt, full, rfl⟩
  · have small : t.accepted.length < TX_RING_SIZE := Nat.lt_of_not_le full
    refine .inr ⟨?_, small⟩
    rw [tail, Nat.mod_eq_of_lt small]
    exact inv.unused _ le_rfl small

/-- What `e1000_send` does while the descriptor at `TDT` has its `DD` bit. -/
theorem Inv.send_eq (m : Mbuf) : ∃ mem freed, t.nic.e1000Send m = (0, { t.nic with
        mem := mem
        freed := freed
        txMbufs := update t.nic.txMbufs t.nic.tdt (some m)
        txRing := update t.nic.txRing t.nic.tdt { t.nic.txRing t.nic.tdt with
            addr := m.head
            length := m.len.setWidth 16
            cmd := E1000_TXD_CMD_RS ||| E1000_TXD_CMD_EOP }
        tdt := (t.nic.tdt + 1) % TX_RING_SIZE }) ∧
      freed = (t.accepted.take (t.accepted.length + 1 - TX_RING_SIZE)).map
        (fun sent => sent.1.page) ∧
      ∀ addr, (∀ lt : t.accepted.length - TX_RING_SIZE < t.accepted.length,
        TX_RING_SIZE ≤ t.accepted.length →
          t.accepted[t.accepted.length - TX_RING_SIZE].1.page ≠ addr / PGSIZE) →
        mem addr = t.nic.mem addr := by
  unfold Nic.e1000Send
  rw [if_neg (inv.done t.nic.tdt)]
  rcases inv.oldest with ⟨old, slot, lt, full, same⟩ | ⟨slot, small⟩
  · rw [slot]
    refine ⟨_, _, rfl, ?_, fun addr elsewhere => ?_⟩
    · change t.nic.freed ++ [old.page] = _
      rw [inv.freed, Nat.succ_sub full, take_succ_eq_append_getElem lt, map_append, ← same]
      rfl
    · refine if_neg fun here => elsewhere lt full ?_
      rw [same, here]
  · rw [slot]
    refine ⟨_, _, rfl, ?_, fun _ _ => rfl⟩
    rw [inv.freed, Nat.sub_eq_zero_of_le (le_of_lt small), Nat.sub_eq_zero_of_le small]

theorem send_inv {m : Mbuf} (fits : m.Fits) (outside : t.nic.Outside m.page)
    (spacious : (t.nic.tdt + 1) % TX_RING_SIZE ≠ t.nic.tdh) :
    (t.nic.e1000Send m).1 = 0 ∧
      (⟨(t.nic.e1000Send m).2, t.accepted ++ [(m, frame t.nic.mem m.head m.len.toNat)]⟩ :
        Transmission).Inv := by
  obtain ⟨mem, freed, sends, frees, keeps⟩ := inv.send_eq m
  rw [sends]
  have head := inv.head
  have tail := inv.tail
  have behind := inv.behind
  have space := inv.space
  have room : t.accepted.length + 1 < t.nic.wire.length + TX_RING_SIZE := by
    by_contra full
    have last : t.accepted.length + 1 = t.nic.wire.length + TX_RING_SIZE := by omega
    apply spacious
    rw [head, tail, Nat.mod_add_mod, last, Nat.add_mod_right]
  have length : (t.accepted ++ [(m, frame t.nic.mem m.head m.len.toNat)]).length =
      t.accepted.length + 1 := by
    rw [length_append, length_singleton]
  -- An index is that of the new mbuf or an old one.
  have old {j} (lt : j < t.accepted.length) :
      (t.accepted ++ [(m, frame t.nic.mem m.head m.len.toNat)])[j] = t.accepted[j] :=
    getElem_append_left lt
  have new : (t.accepted ++ [(m, frame t.nic.mem m.head m.len.toNat)])[t.accepted.length] =
      (m, frame t.nic.mem m.head m.len.toNat) :=
    getElem_concat_length rfl ..
  have slot {j} (lt : j < t.accepted.length)
      (recent : t.accepted.length + 1 ≤ j + TX_RING_SIZE) : j % TX_RING_SIZE ≠ t.nic.tdt := by
    rw [tail]
    simp only [TX_RING_SIZE] at recent ⊢
    omega
  refine ⟨rfl, head, ?_, ?_, ?_, fun i => ?_, fun j lt recent => ?_, fun j lt => ?_,
    fun i above below => ?_, fun i j lt lt' recent recent' ne => ?_, fun j lt later => ?_, ?_, ?_⟩
  · rw [length, tail, Nat.mod_add_mod]
  · rw [length]
    exact Nat.le_succ_of_le behind
  · rw [length]
    exact room
  · change (update t.nic.txRing t.nic.tdt _ i).status &&& _ ≠ 0
    rcases eq_or_ne i t.nic.tdt with rfl | ne
    · rw [update_self]
      exact inv.done t.nic.tdt
    · rw [update_of_ne ne]
      exact inv.done i
  · rw [length] at recent
    change update t.nic.txMbufs t.nic.tdt _ (j % TX_RING_SIZE) = _ ∧
      (update t.nic.txRing t.nic.tdt _ (j % TX_RING_SIZE)).addr = _ ∧
      (update t.nic.txRing t.nic.tdt _ (j % TX_RING_SIZE)).length = _
    rcases Nat.lt_succ_iff_lt_or_eq.mp (length ▸ lt) with pre | rfl
    · have ne := slot pre recent
      rw [update_of_ne ne, update_of_ne ne, old pre]
      exact inv.slots j pre (by omega)
    · rw [← tail, update_self, update_self, new]
      exact ⟨rfl, rfl, rfl⟩
  · rcases Nat.lt_succ_iff_lt_or_eq.mp (length ▸ lt) with pre | rfl
    · rw [old pre]
      exact inv.fits j pre
    · rw [new]
      exact fits
  · rw [length] at above
    change update t.nic.txMbufs t.nic.tdt _ i = none
    have ne : i ≠ t.nic.tdt := by
      rw [tail, Nat.mod_eq_of_lt (by omega)]
      omega
    rw [update_of_ne ne]
    exact inv.unused i (by omega) below
  · rw [length] at recent recent'
    rcases Nat.lt_succ_iff_lt_or_eq.mp (length ▸ lt) with pre | rfl <;>
      rcases Nat.lt_succ_iff_lt_or_eq.mp (length ▸ lt') with pre' | rfl
    · rw [old pre, old pre']
      exact inv.apart i j pre pre' (by omega) (by omega) ne
    · rw [old pre, new]
      exact inv.outside_ne outside pre (by omega)
    · rw [old pre', new]
      exact (inv.outside_ne outside pre' (by omega)).symm
    · exact absurd rfl ne
  · rcases Nat.lt_succ_iff_lt_or_eq.mp (length ▸ lt) with pre | rfl
    · rw [old pre, ← inv.bytes j pre later]
      refine frame_congr (inv.fits j pre) fun addr here => keeps addr fun lt full => ?_
      rw [here]
      change t.nic.wire.length ≤ j at later
      exact inv.apart _ _ lt pre (by omega) (by omega) (by omega)
    · rw [new]
      refine frame_congr fits fun addr here => keeps addr fun lt full => ?_
      rw [here]
      exact inv.outside_ne outside lt (by omega)
  · rw [map_append, take_append_of_le_length (by rw [length_map]; exact behind)]
    exact inv.sent
  · rw [frees, length, take_append_of_le_length (by simp only [TX_RING_SIZE]; omega)]

/-! ## Runs -/

theorem device_length (outstanding : t.nic.wire.length < t.accepted.length) :
    t.nic.deviceStep.wire.length = t.nic.wire.length + 1 := by
  have space := inv.space
  have ne : t.nic.tdh ≠ t.nic.tdt := by
    rw [inv.head, inv.tail]
    simp only [TX_RING_SIZE] at space ⊢
    omega
  unfold Nic.deviceStep
  rw [if_neg ne]
  rw [length_append, length_singleton]

theorem Inv.drain : (Nic.deviceStep^[t.accepted.length - t.nic.wire.length] t.nic).wire =
      t.accepted.map Prod.snd := by
  induction outstanding : t.accepted.length - t.nic.wire.length generalizing t with
  | zero =>
    have behind := inv.behind
    have same : t.nic.wire.length = t.accepted.length := by omega
    rw [iterate_zero, id, inv.sent, same]
    exact take_of_length_le (by rw [length_map])
  | succ count ih =>
    have grows := device_length inv (by omega)
    rw [iterate_succ_apply]
    refine ih (device_inv inv) ?_
    change t.accepted.length - t.nic.deviceStep.wire.length = count
    omega

theorem Inv.faithful : t.Faithful where
  sent := inv.sent
  pending := inv.drain
  freed := by
    have space := inv.space
    exact ⟨t.accepted.length - TX_RING_SIZE, by omega, inv.freed⟩
  refuses := by
    intro full
    have space := inv.space
    omega

end

theorem step_inv (t : Transmission) (event : TxEvent) (inv : t.Inv) (spacious : t.Spacious event) :
    ∃ t', t.step event = .ok t' ∧ t'.Inv := by
  obtain ⟨owned, room⟩ := spacious
  cases event with
  | send m =>
    obtain ⟨result, kept⟩ := send_inv inv owned.1 owned.2 room
    refine ⟨_, ?_, kept⟩
    change Except.ok (Transmission.mk (t.nic.e1000Send m).2
      (if (t.nic.e1000Send m).1 = 0 then _ else _)) = _
    rw [if_pos result]
  | device => exact ⟨_, rfl, device_inv inv⟩
  | write addr value => exact ⟨_, rfl, write_inv inv owned⟩

/-- If every send leaves a descriptor free, each accepted mbuf is sent once, in order and
with the bytes it held, and freed only after that. -/
theorem transmit_ring (mem : Nat → BitVec 8) (events : List TxEvent)
    (spacious : Meets step Spacious (init mem) events) :
    ∃ t, run step (init mem) events = .ok t ∧ t.Faithful := by
  obtain ⟨t, ran, inv⟩ := run_total step_inv (init_inv mem) spacious
  exact ⟨t, ran, inv.faithful⟩

def oneByte (page : Nat) : Mbuf :=
  ⟨page, page * PGSIZE + BUF_OFFSET, 1⟩

/-- Memory that holds in every byte the number of its page. -/
def pageNumbers (addr : Nat) : BitVec 8 := BitVec.ofNat 8 (addr / PGSIZE)

theorem transmit_ring_two_frames : Meets step Spacious (init pageNumbers)
        [.send (oneByte 3), .send (oneByte 5), .device, .write 0 1] ∧
      ∃ t, run step (init pageNumbers)
        [.send (oneByte 3), .send (oneByte 5), .device, .write 0 1] = .ok t ∧ t.Faithful := by
  have spacious : Meets step Spacious (init pageNumbers)
      [.send (oneByte 3), .send (oneByte 5), .device, .write 0 1] := by
    decide +kernel
  exact ⟨spacious, transmit_ring pageNumbers _ spacious⟩

/-- The device does nothing while seventeen frames are sent. -/
def laggingDevice : List TxEvent :=
  (List.range 17).map (fun i => .send (oneByte i)) ++ List.replicate 17 .device

/-- The seventeenth send returns 0 and frees the first mbuf, and only its own frame is ever
sent. -/
theorem seventeen_frames_lost : Meets step Owned (init pageNumbers) laggingDevice ∧
      (run step (init pageNumbers) laggingDevice).map
          (fun t => (t.accepted.map Prod.snd, t.nic.wire, t.nic.freed)) =
        .ok ((List.range 17).map (fun i => [BitVec.ofNat 8 i]), [[16#8]], [0]) := by
  decide +kernel

end Transmission

end Xv6Rv32im.Net
