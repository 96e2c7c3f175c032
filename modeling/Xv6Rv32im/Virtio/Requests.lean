import Xv6Rv32im.Virtio.Descriptors

/-!
# What a request owns

Each request in progress owns its three descriptors and its buffer.
-/

namespace Xv6Rv32im.Virtio

/-- What a call of `virtio_disk_rw` has done so far. -/
inductive Phase where
  | none
  | waiting (b : Nat)
  | allocated (b : Nat) (idx : Idx)
  | formatted (b : Nat) (idx : Idx)
  | submitted (b : Nat) (idx : Idx)

@[grind] def Call.phase : Call → Phase
  | .idle => .none
  | .start b _ | .alloc b _ | .retry b _ => .waiting b
  | .format b _ idx => .allocated b idx
  | .publish b idx => .formatted b idx
  | .wait b idx | .rewait b idx | .finish b idx => .submitted b idx

@[grind] def Phase.buf : Phase → Option Nat
  | .none => .none
  | .waiting b | .allocated b _ | .formatted b _ | .submitted b _ => some b

@[grind] def Phase.chain : Phase → Option Idx
  | .none | .waiting _ => .none
  | .allocated _ idx | .formatted _ idx | .submitted _ idx => some idx

/-- The buffer and the chain of a request whose descriptors are formatted. -/
@[grind] def Phase.described : Phase → Option (Nat × Idx)
  | .none | .waiting _ | .allocated _ _ => .none
  | .formatted b idx | .submitted b idx => some (b, idx)

theorem Phase.of_described {phase : Phase} {b : Nat} {idx : Idx}
    (described : phase.described = some (b, idx)) :
    phase.buf = some b ∧ phase.chain = some idx := by
  cases phase with
  | none | waiting | allocated => cases described
  | formatted | submitted =>
    cases described
    exact ⟨rfl, rfl⟩

@[grind] def Call.critical : Call → Bool
  | .alloc .. | .format .. | .publish .. | .wait .. | .finish .. => true
  | _ => false

theorem Idx.head_mem (idx : Idx) : idx.head ∈ idx.list := List.mem_cons_self ..

theorem Idx.status_mem (idx : Idx) : idx.status ∈ idx.list := by simp [Idx.list]

namespace System

variable {s t : System} {p q b : Nat} {idx : Idx} {idx' : Idx}

def phase (s : System) (p : Nat) : Phase := (s.procs p).call.phase

/-- The descriptors in use are the disjoint chains of the requests in progress. -/
structure Partition (s : System) : Prop where
  chains : ∀ p idx, (s.phase p).chain = some idx →
    idx.list.Nodup ∧ ∀ i ∈ idx.list, i < NUM ∧ s.free i = false
  apart : ∀ p q idx idx' i, (s.phase p).chain = some idx → (s.phase q).chain = some idx' →
    i ∈ idx.list → i ∈ idx'.list → p = q
  covered : ∀ i, i < NUM → s.free i = false → ∃ p idx, (s.phase p).chain = some idx ∧ i ∈ idx.list
  chained : ∀ p b idx, (s.phase p).described = some (b, idx) → s.Chained idx

/-- Each request has its buffer to itself, and device and handler find it through its chain. -/
structure Owned (s : System) : Prop extends Partition s where
  locked : ∀ p b, (s.phase p).buf = some b → (s.bufs b).locked = true
  alone : ∀ p q b, (s.phase p).buf = some b → (s.phase q).buf = some b → p = q
  status : ∀ p b idx, (s.phase p).described = some (b, idx) →
    (s.desc idx.status).addr = .status idx.head
  recorded : ∀ p b idx, (s.phase p).described = some (b, idx) → (s.info idx.head).b = some b

/-! ## The heads -/

/-- Two formatted or submitted requests with one head are one. -/
theorem Partition.head_inj (partition : s.Partition) (first : (s.phase p).chain = some idx)
    (second : (s.phase q).chain = some idx') (same : idx.head = idx'.head) : p = q := by
  refine partition.apart p q idx idx' idx.head first second idx.head_mem ?_
  rw [same]
  exact idx'.head_mem

section

variable (partition : s.Partition) (chain : (s.phase p).chain = some idx) (other : q ≠ p)

include partition chain other

/-- The chain of another request has none of the descriptors of this one. -/
theorem Partition.outside (chain' : (s.phase q).chain = some idx') {i : Nat}
    (mem : i ∈ idx'.list) : i ∉ idx.list :=
  fun mine => other (partition.apart q p idx' idx i chain' chain mem mine)

theorem Partition.head_ne (chain' : (s.phase q).chain = some idx') : idx'.head ≠ idx.head :=
  fun same => other (partition.head_inj chain' chain same)

end

/-! ## What the invariants depend on -/

theorem Chained.congr (chained : s.Chained idx) (desc : ∀ i ∈ idx.list, t.desc i = s.desc i) :
    t.Chained idx := by
  have head := desc idx.head (by simp [Idx.list])
  have data := desc idx.data (by simp [Idx.list])
  have status := desc idx.status (by simp [Idx.list])
  constructor
  · rw [head]
    exact chained.head
  · rw [data]
    exact chained.data
  · rw [status]
    exact chained.status

theorem Owned.congr (owned : s.Owned) (buf : ∀ q, (t.phase q).buf = (s.phase q).buf)
    (chain : ∀ q, (t.phase q).chain = (s.phase q).chain)
    (described : ∀ q, (t.phase q).described = (s.phase q).described)
    (free : ∀ i, t.free i = s.free i)
    (desc : ∀ p b idx, (s.phase p).described = some (b, idx) → ∀ i ∈ idx.list, t.desc i = s.desc i)
    (info : ∀ i, (t.info i).b = (s.info i).b)
    (locked : ∀ b, (t.bufs b).locked = (s.bufs b).locked) : t.Owned where
  chains := by
    simp only [chain, free]
    exact owned.chains
  apart := by
    simp only [chain]
    exact owned.apart
  covered := by
    simp only [chain, free]
    exact owned.covered
  chained := by
    simp only [described]
    exact fun p b idx is => (owned.chained p b idx is).congr (desc p b idx is)
  locked := by
    simp only [buf, locked]
    exact owned.locked
  alone := by
    simp only [buf]
    exact owned.alone
  status := by
    simp only [described]
    intro p b idx is
    rw [desc p b idx is idx.status idx.status_mem]
    exact owned.status p b idx is
  recorded := by
    simp only [described, info]
    exact owned.recorded

section

variable (s p q)

theorem procs_setProc (proc : Proc) :
    (s.setProc p proc).procs q = if q = p then proc else s.procs q := by
  simp [setProc, Function.update]

theorem phase_setProc (proc : Proc) :
    (s.setProc p proc).phase q = if q = p then proc.call.phase else s.phase q := by
  unfold phase
  rw [procs_setProc]
  split <;> rfl

theorem phase_setCall (call : Call) :
    (s.setCall p call).phase q = if q = p then call.phase else s.phase q := phase_setProc ..

end

/-! ## The phases of a request -/

section

variable (owned : s.Owned)

include owned

theorem Owned.begin (pre : s.phase p = .none)
    (after : ∀ q, t.phase q = if q = p then .waiting b else s.phase q) (free : t.free = s.free)
    (desc : t.desc = s.desc) (info : t.info = s.info) (unlocked : (s.bufs b).locked = false)
    (locked : ∀ c, (t.bufs c).locked = if c = b then true else (s.bufs c).locked) : t.Owned := by
  obtain ⟨⟨chains, apart, covered, chained⟩, locked', alone, status, recorded⟩ := owned
  have kept q c idx (described : (s.phase q).described = some (c, idx)) :
      t.Chained idx := (chained q c idx described).congr fun i _ => by rw [desc]
  refine ⟨⟨?_, ?_, ?_, ?_⟩, ?_, ?_, ?_, ?_⟩ <;> simp only [after]
  all_goals grind

theorem Owned.allocate (pre : s.phase p = .waiting b)
    (after : ∀ q, t.phase q = if q = p then .allocated b idx else s.phase q)
    (takable : s.Takable idx.list) (free : ∀ i, t.free i = (s.free i && !decide (i ∈ idx.list)))
    (desc : t.desc = s.desc) (info : t.info = s.info) (bufs : t.bufs = s.bufs) : t.Owned := by
  obtain ⟨⟨chains, apart, covered, chained⟩, locked, alone, status, recorded⟩ := owned
  obtain ⟨nodup, bound, free'⟩ := takable
  have kept q c idx (described : (s.phase q).described = some (c, idx)) :
      t.Chained idx := (chained q c idx described).congr fun i _ => by rw [desc]
  refine ⟨⟨?_, ?_, ?_, ?_⟩, ?_, ?_, ?_, ?_⟩ <;> simp only [after]
  all_goals grind

/-- What the descriptors of one chain and the record of its head leave alone. -/
theorem Owned.untouched (mine : (s.phase p).chain = some idx)
    (desc : ∀ i, i ∉ idx.list → t.desc i = s.desc i)
    (info : ∀ i, i ≠ idx.head → t.info i = s.info i) (q b : Nat) (idx' : Idx) (other : q ≠ p)
    (described : (s.phase q).described = some (b, idx')) :
    t.Chained idx' ∧ (t.desc idx'.status).addr = .status idx'.head ∧
      (t.info idx'.head).b = some b := by
  have chain := (Phase.of_described described).2
  have outside i (mem : i ∈ idx'.list) : t.desc i = s.desc i :=
    desc i (owned.outside mine other chain mem)
  refine ⟨(owned.chained q b idx' described).congr outside, ?_, ?_⟩
  · rw [outside _ idx'.status_mem]
    exact owned.status q b idx' described
  · rw [info _ (owned.head_ne mine other chain)]
    exact owned.recorded q b idx' described

theorem Owned.format (pre : s.phase p = .allocated b idx)
    (after : ∀ q, t.phase q = if q = p then .formatted b idx else s.phase q)
    (free : t.free = s.free) (locked : ∀ c, (t.bufs c).locked = (s.bufs c).locked)
    (desc : ∀ i, i ∉ idx.list → t.desc i = s.desc i)
    (info : ∀ i, i ≠ idx.head → t.info i = s.info i) (chained : t.Chained idx)
    (status : (t.desc idx.status).addr = .status idx.head)
    (recorded : (t.info idx.head).b = some b) : t.Owned := by
  have others := owned.untouched (p := p) (by rw [pre]; rfl) desc info
  obtain ⟨⟨chains, apart, covered, -⟩, locked', alone, -, -⟩ := owned
  refine ⟨⟨?_, ?_, ?_, ?_⟩, ?_, ?_, ?_, ?_⟩ <;> simp only [after]
  all_goals grind

theorem Owned.finish (pre : s.phase p = .submitted b idx)
    (after : ∀ q, t.phase q = if q = p then .none else s.phase q)
    (free : ∀ i, t.free i = (s.free i || decide (i ∈ idx.list)))
    (desc : ∀ i, i ∉ idx.list → t.desc i = s.desc i)
    (info : ∀ i, i ≠ idx.head → t.info i = s.info i)
    (locked : ∀ c, c ≠ b → (t.bufs c).locked = (s.bufs c).locked) : t.Owned := by
  have others := owned.untouched (p := p) (by rw [pre]; rfl) desc info
  obtain ⟨⟨chains, apart, covered, -⟩, locked', alone, -, -⟩ := owned
  refine ⟨⟨?_, ?_, ?_, ?_⟩, ?_, ?_, ?_, ?_⟩ <;> simp only [after]
  all_goals grind

end

end System

end Xv6Rv32im.Virtio
