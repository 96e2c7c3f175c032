import Xv6Rv32im.Virtio.Requests

/-!
# Where the heads of the chains are

The heads the device has not yet fetched, those it works on and those it has returned are the
heads of the requests whose buffer has its `disk` flag set, each of them once.
-/

namespace Xv6Rv32im.Virtio

open Library.Ring List

namespace System

variable {s t : System} {p q b : Nat} {idx : Idx} {available used : List Nat} {head : Nat}

def Flying (s : System) (head : Nat) : Prop :=
  ∃ p b idx, s.phase p = .submitted b idx ∧ idx.head = head ∧ (s.bufs b).disk = true

/-- Where the heads are. -/
structure Rings (s : System) (available used : List Nat) : Prop where
  avail : Holds NUM s.availRing s.fetchedIdx s.availIdx available
  returned : Holds NUM s.usedRing s.seenIdx s.usedIdx used
  nodup : (available ++ s.pending ++ used).Nodup
  flying : ∀ head, head ∈ available ++ s.pending ++ used ↔ s.Flying head
  status : ∀ head ∈ used, (s.info head).status = 0

theorem length_le_NUM {l : List Nat} (nodup : l.Nodup) (bound : ∀ i ∈ l, i < NUM) :
    l.length ≤ NUM := by
  have sub : l ⊆ List.range NUM := fun i mem => mem_range.mpr (bound i mem)
  have length := (subperm_of_subset nodup sub).length_le
  rwa [length_range] at length

theorem Flying.bound (partition : s.Partition) (flying : s.Flying head) : head < NUM := by
  obtain ⟨p, b, idx, phase, rfl, -⟩ := flying
  have chain : (s.phase p).chain = some idx := by rw [phase]; rfl
  exact ((partition.chains p idx chain).2 idx.head idx.head_mem).1

theorem flying_congr
    (submitted : ∀ q b idx, t.phase q = .submitted b idx ↔ s.phase q = .submitted b idx)
    (disk : ∀ q b idx, s.phase q = .submitted b idx → (t.bufs b).disk = (s.bufs b).disk)
    (head : Nat) : t.Flying head ↔ s.Flying head := by
  constructor
  · rintro ⟨q, b, idx, phase, same, flag⟩
    have phase' := (submitted q b idx).mp phase
    exact ⟨q, b, idx, phase', same, disk q b idx phase' ▸ flag⟩
  · rintro ⟨q, b, idx, phase, same, flag⟩
    exact ⟨q, b, idx, (submitted q b idx).mpr phase, same, (disk q b idx phase).trans flag⟩

/-- One call changes its phase, but is not submitted before or after. -/
theorem submitted_congr {phase : Phase}
    (after : ∀ q, t.phase q = if q = p then phase else s.phase q)
    (pre : ∀ b idx, s.phase p ≠ .submitted b idx) (new : ∀ b idx, phase ≠ .submitted b idx)
    (q b : Nat) (idx : Idx) : t.phase q = .submitted b idx ↔ s.phase q = .submitted b idx := by
  rw [after]
  split
  next same =>
    subst same
    exact ⟨fun is => absurd is (new b idx), fun is => absurd is (pre b idx)⟩
  next => rfl

theorem flying_finish (pre : s.phase p = .submitted b idx) (done : (s.bufs b).disk = false)
    (after : ∀ q, t.phase q = if q = p then .none else s.phase q)
    (disk : ∀ c, (t.bufs c).disk = (s.bufs c).disk) (head : Nat) :
    t.Flying head ↔ s.Flying head := by
  simp only [Flying, after, disk]
  constructor
  · rintro ⟨q, c, idx', phase, same, flag⟩
    split at phase
    · cases phase
    · exact ⟨q, c, idx', phase, same, flag⟩
  rintro ⟨q, c, idx', phase, same, flag⟩
  have other : q ≠ p := by
    rintro rfl
    rw [pre] at phase
    cases phase
    rw [done] at flag
    cases flag
  exact ⟨q, c, idx', by rw [if_neg other, phase], same, flag⟩

section

variable (rings : s.Rings available used)

include rings

theorem Rings.congr (exchanged : t.exchanged = s.exchanged)
    (flying : ∀ head, t.Flying head ↔ s.Flying head)
    (status : ∀ head, s.Flying head → (t.info head).status = (s.info head).status) :
    t.Rings available used := by
  simp only [System.exchanged, Prod.mk.injEq] at exchanged
  obtain ⟨availRing, availIdx, usedRing, usedIdx, seenIdx, fetchedIdx, pending⟩ := exchanged
  constructor
  · rw [availRing, fetchedIdx, availIdx]
    exact rings.avail
  · rw [usedRing, seenIdx, usedIdx]
    exact rings.returned
  · rw [pending]
    exact rings.nodup
  · intro head
    rw [pending, flying]
    exact rings.flying head
  · intro head mem
    rw [status head ((rings.flying head).mp (mem_append_right _ mem))]
    exact rings.status head mem

/-! ## The rings -/

theorem Rings.head_bound (partition : s.Partition) (mem : head ∈ available ++ s.pending ++ used) :
    head < NUM := ((rings.flying head).mp mem).bound partition

theorem Rings.room (owned : s.Owned) (chain : (s.phase p).chain = some idx)
    (unsubmitted : ∀ b idx, s.phase p ≠ .submitted b idx) :
    idx.head ∉ available ++ s.pending ++ used ∧ available.length < NUM := by
  have fresh : idx.head ∉ available ++ s.pending ++ used := by
    intro mem
    obtain ⟨q, b, idx', phase, same, -⟩ := (rings.flying idx.head).mp mem
    have chain' : (s.phase q).chain = some idx' := by rw [phase]; rfl
    obtain rfl := owned.head_inj chain chain' same.symm
    exact unsubmitted b idx' phase
  refine ⟨fresh, ?_⟩
  have bound := ((owned.chains p idx chain).2 idx.head idx.head_mem).1
  have nodup : (idx.head :: available).Nodup := by
    refine nodup_cons.mpr ⟨fun mem => fresh (by simp [mem]), ?_⟩
    exact (nodup_append.mp (nodup_append.mp rings.nodup).1).1
  refine length_le_NUM nodup fun i mem => ?_
  obtain rfl | mem := mem_cons.mp mem
  · exact bound
  · exact rings.head_bound owned.toPartition (by simp [mem])

end

theorem flying_publish (pre : s.phase p = .formatted b idx)
    (after : ∀ q, t.phase q = if q = p then .submitted b idx else s.phase q)
    (bufs : t.bufs = s.bufs) (disk : (s.bufs b).disk = true) (head : Nat) :
    t.Flying head ↔ head = idx.head ∨ s.Flying head := by
  simp only [Flying, after, bufs]
  constructor
  · rintro ⟨q, c, idx', phase, rfl, flag⟩
    split at phase
    · cases phase
      exact .inl rfl
    · exact .inr ⟨q, c, idx', phase, rfl, flag⟩
  rintro (rfl | ⟨q, c, idx', phase, rfl, flag⟩)
  · exact ⟨p, b, idx, if_pos rfl, rfl, disk⟩
  have other : q ≠ p := by
    rintro rfl
    rw [pre] at phase
    cases phase
  exact ⟨q, c, idx', by rw [if_neg other, phase], rfl, flag⟩

theorem Rings.publish (rings : s.Rings available used) (owned : s.Owned)
    (pre : s.phase p = .formatted b idx) (disk : (s.bufs b).disk = true)
    (stored : s.availRing (slot NUM s.availIdx) = idx.head) :
    ({ s with availIdx := s.availIdx + 1 }.setCall p (.wait b idx)).Rings
      (available ++ [idx.head]) used := by
  obtain ⟨fresh, room⟩ := rings.room owned (by rw [pre]; rfl) (by simp [pre])
  have moved : (available ++ [idx.head] ++ s.pending ++ used).Perm
      (idx.head :: (available ++ s.pending ++ used)) := by simp
  constructor
  · have extended := rings.avail.extend (by decide) room
    rwa [stored] at extended
  · exact rings.returned
  · exact moved.nodup_iff.mpr (nodup_cons.mpr ⟨fresh, rings.nodup⟩)
  · intro head
    have flying := flying_publish pre
      (t := { s with availIdx := s.availIdx + 1 }.setCall p (.wait b idx))
      (fun q => phase_setCall _ p q _) rfl disk head
    rw [flying, ← rings.flying head, ← mem_cons]
    exact moved.mem_iff
  · exact rings.status

/-- Clearing the flag of a buffer takes away the head of its request, and no other. -/
theorem flying_handled (owned : s.Owned) (mine : s.phase p = .submitted b idx)
    (phases : ∀ q, t.phase q = s.phase q)
    (disk : ∀ c, (t.bufs c).disk = if c = b then false else (s.bufs c).disk) (head : Nat) :
    t.Flying head ↔ head ≠ idx.head ∧ s.Flying head := by
  simp only [Flying, phases, disk]
  constructor
  · rintro ⟨q, c, idx', phase, rfl, flag⟩
    split at flag
    · cases flag
    next ne =>
      refine ⟨fun same => ne ?_, q, c, idx', phase, rfl, flag⟩
      obtain rfl := owned.head_inj (by rw [phase]; rfl) (by rw [mine]; rfl) same
      rw [mine] at phase
      cases phase
      rfl
  · rintro ⟨ne, q, c, idx', phase, rfl, flag⟩
    refine ⟨q, c, idx', phase, rfl, ?_⟩
    rw [if_neg, flag]
    rintro rfl
    obtain rfl := owned.alone p q c (by rw [mine]; rfl) (by rw [phase]; rfl)
    rw [mine] at phase
    cases phase
    exact ne rfl

theorem disk_handled (s : System) (b c : Nat) :
    ((s.handled b).bufs c).disk = if c = b then false else (s.bufs c).disk := by
  simp only [System.handled, Function.update_apply]
  split <;> rfl

theorem Rings.handled (rings : s.Rings available (idx.head :: used)) (owned : s.Owned)
    (mine : s.phase p = .submitted b idx) : (s.handled b).Rings available used := by
  obtain ⟨first, rest⟩ := rings.returned.pop (by decide)
  have moved : (available ++ s.pending ++ idx.head :: used).Perm
      (idx.head :: (available ++ s.pending ++ used)) := perm_middle
  obtain ⟨gone, nodup⟩ := nodup_cons.mp (moved.nodup_iff.mp rings.nodup)
  constructor
  · exact rings.avail
  · exact rest
  · exact nodup
  · intro head
    have flying :=
      flying_handled owned mine (t := s.handled b) (fun _ => rfl) (disk_handled s b) head
    rw [flying, ← rings.flying head, moved.mem_iff, mem_cons]
    constructor
    · intro mem
      exact ⟨fun same => gone (same ▸ mem), .inr mem⟩
    · rintro ⟨ne, same | mem⟩
      · exact absurd same ne
      · exact mem
  · exact fun head mem => rings.status head (mem_cons_of_mem _ mem)

theorem Rings.fetch (rings : s.Rings (head :: available) used) : ({ s with
      fetchedIdx := s.fetchedIdx + 1
      pending := s.pending ++ [s.availRing (slot NUM s.fetchedIdx)] } : System).Rings
        available used := by
  obtain ⟨first, rest⟩ := rings.avail.pop (by decide)
  have moved : (available ++ (s.pending ++ [head]) ++ used).Perm
      (head :: available ++ s.pending ++ used) := by
    refine perm_iff_count.mpr fun i => ?_
    simp only [count_append, count_cons, count_nil, cons_append]
    omega
  rw [first]
  constructor
  · exact rest
  · exact rings.returned
  · exact moved.nodup_iff.mpr rings.nodup
  · exact fun other => moved.mem_iff.trans (rings.flying other)
  · exact rings.status

theorem Rings.complete (rings : s.Rings available used) (owned : s.Owned) {k head : Nat}
    (working : s.pending[k]? = some head) (flying : ∀ other, t.Flying other ↔ s.Flying other)
    (status : ∀ other, (t.info other).status = if other = head then 0 else (s.info other).status)
    (availRing : t.availRing = s.availRing) (fetchedIdx : t.fetchedIdx = s.fetchedIdx)
    (availIdx : t.availIdx = s.availIdx) (seenIdx : t.seenIdx = s.seenIdx)
    (usedRing : t.usedRing = Function.update s.usedRing (slot NUM s.usedIdx) head)
    (usedIdx : t.usedIdx = s.usedIdx + 1) (pending : t.pending = s.pending.eraseIdx k) :
    t.Rings available (used ++ [head]) := by
  have taken : s.pending.Perm (head :: s.pending.eraseIdx k) := by
    obtain ⟨short, rfl⟩ := List.getElem?_eq_some_iff.mp working
    exact (getElem_cons_eraseIdx_perm short).symm
  have moved : (available ++ s.pending.eraseIdx k ++ (used ++ [head])).Perm
      (available ++ s.pending ++ used) := by
    refine perm_iff_count.mpr fun i => ?_
    have count := taken.count_eq i
    simp only [count_append, count_cons, count_nil] at count ⊢
    omega
  have room : used.length < NUM := by
    have nodup := moved.nodup_iff.mpr rings.nodup
    have short := length_le_NUM (nodup_append.mp nodup).2.1 fun i mem => by
      refine rings.head_bound owned.toPartition (moved.mem_iff.mp ?_)
      exact mem_append_right _ mem
    rw [length_append, length_singleton] at short
    exact short
  constructor
  · rw [availRing, fetchedIdx, availIdx]
    exact rings.avail
  · rw [usedRing, seenIdx, usedIdx]
    exact rings.returned.push (by decide) (by decide) room head
  · rw [pending]
    exact moved.nodup_iff.mpr rings.nodup
  · intro other
    rw [pending, flying, ← rings.flying other]
    exact moved.mem_iff
  intro other mem
  rw [status]
  split
  · rfl
  next ne =>
    obtain pre | single := mem_append.mp mem
    · exact rings.status other pre
    · exact absurd (mem_singleton.mp single) ne

end System

end Xv6Rv32im.Virtio
