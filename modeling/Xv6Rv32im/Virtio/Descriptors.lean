import Xv6Rv32im.Virtio.Model

/-!
# Taking and freeing descriptors

What `alloc3_desc` and `free_chain` do to the table of free descriptors when the descriptors they
free are in use.
-/

namespace Xv6Rv32im.Virtio

open List

def Idx.list (idx : Idx) : List Nat := [idx.head, idx.data, idx.status]

namespace System

variable {s t u : System} {l m : List Nat} {i : Nat}

def taken (s : System) (l : List Nat) : System :=
  { s with free := fun j => s.free j && !decide (j ∈ l) }

theorem taken_nil (s : System) : s.taken [] = s := by simp [taken]

structure Takable (s : System) (l : List Nat) : Prop where
  nodup : l.Nodup
  bound : ∀ i ∈ l, i < NUM
  free : ∀ i ∈ l, s.free i = true

/-- The rings, the indices and the chains in work. -/
def exchanged (s : System) :=
  (s.availRing, s.availIdx, s.usedRing, s.usedIdx, s.seenIdx, s.fetchedIdx, s.pending)

/-- What freeing the descriptors of a list changes. -/
structure Freed (s t : System) (l : List Nat) : Prop where
  free : ∀ j, t.free j = (s.free j || decide (j ∈ l))
  desc : ∀ j, j ∉ l → t.desc j = s.desc j
  call : ∀ q, (t.procs q).call = (s.procs q).call
  awake : ∀ q, (s.procs q).sleeping = none → (t.procs q).sleeping = none
  info : t.info = s.info
  exchanged : t.exchanged = s.exchanged
  bufs : t.bufs = s.bufs
  holder : t.holder = s.holder

theorem Freed.refl (s : System) : Freed s s [] := by
  constructor <;> simp

theorem Freed.trans (first : Freed s t l) (second : Freed t u m) : Freed s u (l ++ m) where
  free := by
    intro j
    rw [second.free, first.free]
    simp [Bool.or_assoc]
  desc := by
    intro j outside
    rw [mem_append, not_or] at outside
    rw [second.desc j outside.2, first.desc j outside.1]
  call := fun q => (second.call q).trans (first.call q)
  awake := fun q awake => second.awake q (first.awake q awake)
  info := second.info.trans first.info
  exchanged := second.exchanged.trans first.exchanged
  bufs := second.bufs.trans first.bufs
  holder := second.holder.trans first.holder

theorem call_wakeup (s : System) (chan : Chan) (q : Nat) :
    ((s.wakeup chan).procs q).call = (s.procs q).call := by
  unfold wakeup
  dsimp only
  split <;> rfl

theorem awake_wakeup (s : System) (chan : Chan) (q : Nat) (awake : (s.procs q).sleeping = none) :
    ((s.wakeup chan).procs q).sleeping = none := by
  unfold wakeup
  dsimp only
  split
  · rfl
  · exact awake

theorem freeDesc_freed (bound : i < NUM) (used : s.free i = false) :
    ∃ t, s.freeDesc i = .ok t ∧ Freed s t [i] := by
  unfold freeDesc
  rw [if_neg (Nat.not_le.mpr bound), if_neg (by simp [used])]
  refine ⟨_, rfl, ?_⟩
  constructor
  case free =>
    intro j
    by_cases same : j = i
    · subst same
      simp [wakeup]
    · simp [wakeup, same]
  case desc =>
    intro j outside
    have ne : j ≠ i := by simpa using outside
    exact Function.update_of_ne ne _ _
  case call => exact call_wakeup _ _
  case awake => exact awake_wakeup _ _
  all_goals rfl

theorem freeDescs_freed (nodup : l.Nodup) (used : ∀ i ∈ l, i < NUM ∧ s.free i = false) :
    ∃ t, l.foldlM freeDesc s = .ok t ∧ Freed s t l := by
  induction l generalizing s with
  | nil => exact ⟨s, rfl, .refl s⟩
  | cons i rest ih =>
    obtain ⟨fresh, distinct⟩ := nodup_cons.mp nodup
    obtain ⟨bound, here⟩ := used i (mem_cons_self ..)
    obtain ⟨t, freed, first⟩ := freeDesc_freed bound here
    have later : ∀ j ∈ rest, j < NUM ∧ t.free j = false := by
      intro j mem
      obtain ⟨below, inUse⟩ := used j (mem_cons_of_mem _ mem)
      have ne : j ≠ i := fun same => fresh (same ▸ mem)
      rw [first.free, inUse]
      exact ⟨below, by simp [ne]⟩
    obtain ⟨u, rest_freed, second⟩ := ih distinct later
    refine ⟨u, ?_, first.trans second⟩
    rw [foldlM_cons, freed]
    exact rest_freed

theorem freeChain_succ (rounds : Nat) (bound : i < NUM) (used : s.free i = false) :
    ∃ t, Freed s t [i] ∧ freeChain (rounds + 1) s i =
      if (s.desc i).flags &&& VRING_DESC_F_NEXT ≠ 0 then freeChain rounds t (s.desc i).next
      else .ok t := by
  obtain ⟨t, freed, first⟩ := freeDesc_freed bound used
  refine ⟨t, first, ?_⟩
  rw [freeChain, freed]
  rfl

structure Chained (s : System) (idx : Idx) : Prop where
  head : (s.desc idx.head).flags &&& VRING_DESC_F_NEXT ≠ 0 ∧ (s.desc idx.head).next = idx.data
  data : (s.desc idx.data).flags &&& VRING_DESC_F_NEXT ≠ 0 ∧ (s.desc idx.data).next = idx.status
  status : (s.desc idx.status).flags &&& VRING_DESC_F_NEXT = 0

theorem freeChain_freed {idx : Idx} (rounds : Nat) (chained : s.Chained idx)
    (nodup : idx.list.Nodup) (used : ∀ i ∈ idx.list, i < NUM ∧ s.free i = false) :
    ∃ t, freeChain (rounds + 3) s idx.head = .ok t ∧ Freed s t idx.list := by
  obtain ⟨head, data, status⟩ := idx
  simp only [Idx.list, nodup_cons, mem_cons, not_mem_nil, or_false, not_or,
    nodup_nil, and_true, not_false_eq_true, forall_eq_or_imp, forall_eq] at nodup used
  obtain ⟨⟨headData, headStatus⟩, dataStatus⟩ := nodup
  obtain ⟨⟨headBound, headUsed⟩, ⟨dataBound, dataUsed⟩, statusBound, statusUsed⟩ := used
  obtain ⟨t, first, firstRound⟩ := freeChain_succ (rounds + 2) headBound headUsed
  have dataDesc : t.desc data = s.desc data := first.desc data (by simp [Ne.symm headData])
  have dataUsed' : t.free data = false := by simp [first.free, dataUsed, Ne.symm headData]
  obtain ⟨u, second, secondRound⟩ := freeChain_succ (rounds + 1) dataBound dataUsed'
  have statusDesc : u.desc status = s.desc status := by
    rw [second.desc status (by simp [Ne.symm dataStatus]),
      first.desc status (by simp [Ne.symm headStatus])]
  have statusUsed' : u.free status = false := by
    simp [second.free, first.free, statusUsed, Ne.symm dataStatus, Ne.symm headStatus]
  obtain ⟨v, third, thirdRound⟩ := freeChain_succ rounds statusBound statusUsed'
  refine ⟨v, ?_, (first.trans second).trans third⟩
  rw [firstRound, if_pos chained.head.1, chained.head.2, secondRound, dataDesc,
    if_pos chained.data.1, chained.data.2, thirdRound, statusDesc,
    if_neg (not_not.mpr chained.status)]

/-! ## Allocation -/

theorem allocDesc_taken (takable : s.Takable l) :
    (∃ i, (s.taken l).allocDesc = (some i, s.taken (l ++ [i])) ∧ s.Takable (l ++ [i])) ∨
      (s.taken l).allocDesc = (none, s.taken l) := by
  unfold allocDesc
  split
  next i found =>
    refine .inl ⟨i, ?_, ?_⟩
    · have same : Function.update (s.taken l).free i false = (s.taken (l ++ [i])).free := by
        funext j
        by_cases here : j = i
        · subst here
          simp [taken]
        · simp [taken, here]
      rw [same]
      rfl
    · have isFree : s.free i = true ∧ i ∉ l := by simpa [taken] using List.find?_some found
      have bound : i < NUM := mem_range.mp (mem_of_find?_eq_some found)
      constructor
      · rw [nodup_append]
        refine ⟨takable.nodup, nodup_singleton i, ?_⟩
        rintro a mem b single rfl
        rw [mem_singleton.mp single] at mem
        exact isFree.2 mem
      · intro j mem
        obtain earlier | single := mem_append.mp mem
        · exact takable.bound j earlier
        · rw [mem_singleton.mp single]
          exact bound
      · intro j mem
        obtain earlier | single := mem_append.mp mem
        · exact takable.free j earlier
        · rw [mem_singleton.mp single]
          exact isFree.1
  next => exact .inr rfl

/-- What was taken is given back when the descriptors do not suffice. -/
theorem rollback (takable : s.Takable l) :
    ∃ t, l.foldlM freeDesc (s.taken l) = .ok t ∧ Freed (s.taken l) t l ∧
      ∀ j, t.free j = s.free j := by
  have used : ∀ i ∈ l, i < NUM ∧ (s.taken l).free i = false := by
    intro i mem
    exact ⟨takable.bound i mem, by simp [taken, mem]⟩
  obtain ⟨t, ran, freed⟩ := freeDescs_freed takable.nodup used
  refine ⟨t, ran, freed, ?_⟩
  intro j
  rw [freed.free]
  by_cases mem : j ∈ l
  · simp [mem, takable.free j mem]
  · simp [taken, mem]

theorem allocDescs_spec (n : Nat) (takable : s.Takable l) :
    (∃ m, allocDescs n l (s.taken l) = .ok (some m, s.taken m) ∧ s.Takable m ∧
      m.length = l.length + n) ∨
    ∃ m t, allocDescs n l (s.taken l) = .ok (none, t) ∧ Freed (s.taken m) t m ∧ s.Takable m ∧
      ∀ j, t.free j = s.free j := by
  induction n generalizing l with
  | zero => exact .inl ⟨l, rfl, takable, rfl⟩
  | succ n ih =>
    unfold allocDescs
    obtain ⟨i, found, more⟩ | none := allocDesc_taken takable
    · rw [found]
      obtain ⟨m, ran, takable', length⟩ | failed := ih more
      · refine .inl ⟨m, ran, takable', ?_⟩
        rw [length, length_append, length_singleton]
        omega
      · exact .inr failed
    · rw [none]
      obtain ⟨t, ran, freed, same⟩ := rollback takable
      refine .inr ⟨l, t, ?_, freed, takable, same⟩
      dsimp only
      rw [ran]
      rfl

/-- `alloc3_desc` takes three free descriptors, or leaves the table as it was. -/
theorem alloc3Desc_spec (s : System) :
    (∃ idx : Idx, s.alloc3Desc = .ok (some idx.list, s.taken idx.list) ∧ s.Takable idx.list) ∨
    ∃ m t, s.alloc3Desc = .ok (none, t) ∧ Freed (s.taken m) t m ∧ s.Takable m ∧
      ∀ j, t.free j = s.free j := by
  have nothing : s.Takable [] := ⟨nodup_nil, by simp, by simp⟩
  have spec := allocDescs_spec 3 nothing
  rw [taken_nil] at spec
  obtain ⟨m, ran, takable, length⟩ | failed := spec
  · obtain ⟨head, data, status, rfl⟩ := length_eq_three.mp length
    exact .inl ⟨⟨head, data, status⟩, ran, takable⟩
  · exact .inr failed

end System

end Xv6Rv32im.Virtio
