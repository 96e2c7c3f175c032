import Mathlib.Algebra.Order.BigOperators.Group.Finset

/-!
# Shares of a multiset

Things are handed out to numbered holders, each of which holds a multiset of
them.  That the shares of all holders together have no duplicate says that every
thing is held once.
-/

namespace Xv6Rv32im.Library.Shares

open Function Multiset

variable {α : Type*} {share : Nat → Multiset α} {n i : Nat}

/-- What the first `n` holders hold together. -/
@[irreducible] def shares (share : Nat → Multiset α) (n : Nat) : Multiset α :=
  ∑ i ∈ Finset.range n, share i

theorem mem_shares {n : Nat} {a : α} : a ∈ shares share n ↔ ∃ i < n, a ∈ share i := by
  simp [shares, mem_sum]

theorem shares_eq_add (lt : i < n) :
    shares share n = share i + ∑ j ∈ (Finset.range n).erase i, share j := by
  unfold shares
  exact (Finset.add_sum_erase _ share (Finset.mem_range.mpr lt)).symm

/-- The share of one holder, and the rest, which contains those of the others. -/
theorem shares_split (share : Nat → Multiset α) (lt : i < n) :
    ∃ rest, shares share n = share i + rest ∧ (∀ new, shares (update share i new) n = new + rest) ∧
      ∀ j < n, j ≠ i → share j ≤ rest := by
  refine ⟨∑ j ∈ (Finset.range n).erase i, share j, shares_eq_add lt, fun new => ?_,
    fun j below other => ?_⟩
  · rw [shares_eq_add lt, update_self]
    exact congrArg (new + ·) (Finset.sum_congr rfl fun j mem =>
      update_of_ne (Finset.ne_of_mem_erase mem) ..)
  · exact Finset.single_le_sum_of_canonicallyOrdered
      (Finset.mem_erase.mpr ⟨other, Finset.mem_range.mpr below⟩)

theorem shares_update (share : Nat → Multiset α) (lt : i < n) (new : Multiset α) :
    shares (update share i new) n + share i = shares share n + new := by
  obtain ⟨rest, whole, updated, -⟩ := shares_split share lt
  rw [whole, updated]
  ac_rfl

theorem shares_congr {share share' : Nat → Multiset α} {n : Nat}
    (same : ∀ i < n, share' i = share i) : shares share' n = shares share n := by
  unfold shares
  exact Finset.sum_congr rfl fun i mem => same i (Finset.mem_range.mp mem)

theorem shares_eq_zero {n : Nat} (empty : ∀ i < n, share i = 0) : shares share n = 0 := by
  unfold shares
  exact Finset.sum_eq_zero fun i mem => empty i (Finset.mem_range.mp mem)

/-- Without duplicates two holders share nothing. -/
theorem holder_unique {n i j : Nat} {a : α} (nodup : (shares share n).Nodup) (first : i < n)
    (second : j < n) (held : a ∈ share i) (held' : a ∈ share j) : i = j := by
  by_contra ne
  rw [shares_eq_add first, nodup_add] at nodup
  refine disjoint_left.mp nodup.2.2 held (mem_sum.mpr ⟨j, ?_, held'⟩)
  exact Finset.mem_erase.mpr ⟨Ne.symm ne, Finset.mem_range.mpr second⟩

/-! ## Shares of at most one thing -/

/-- The multiset of an optional thing. -/
def held : Option α → Multiset α
  | none => 0
  | some a => {a}

@[simp] theorem held_none : held (none : Option α) = 0 :=
  rfl

@[simp] theorem held_some (a : α) : held (some a) = {a} :=
  rfl

@[simp] theorem mem_held {o : Option α} {a : α} : a ∈ held o ↔ o = some a := by
  cases o with
  | none => simp [held]
  | some b => simp [held, eq_comm]

theorem shares_held_update {f : Nat → Option α} (lt : i < n) (new : Option α) :
    shares (fun j => held (update f i new j)) n + held (f i) =
      shares (fun j => held (f j)) n + held new := by
  have updated : (fun j => held (update f i new j)) =
      update (fun j => held (f j)) i (held new) := funext (apply_update (fun _ => held) f i new)
  rw [updated]
  exact shares_update (fun j => held (f j)) lt (held new)

/-- As many things are held as there are holders of one. -/
theorem le_card_shares {f : Nat → Option α} {n m : Nat} (lt : m ≤ n)
    (holders : ∀ i < m, f i ≠ none) : m ≤ Multiset.card (shares (fun i => held (f i)) n) := by
  have each : ∀ i ∈ Finset.range m, 1 ≤ Multiset.card (held (f i)) := by
    intro i mem
    obtain ⟨a, here⟩ := Option.ne_none_iff_exists'.mp (holders i (Finset.mem_range.mp mem))
    rw [here]
    rfl
  unfold shares
  rw [card_sum]
  calc m = ∑ _i ∈ Finset.range m, 1 := by simp
    _ ≤ ∑ i ∈ Finset.range m, Multiset.card (held (f i)) := Finset.sum_le_sum each
    _ ≤ ∑ i ∈ Finset.range n, Multiset.card (held (f i)) :=
        Finset.sum_le_sum_of_subset (Finset.range_subset_range.mpr lt)

/-! ## Shares as lists -/

/-- Listing what the holders hold one after the other. -/
theorem shares_coe (list : Nat → List α) (n : Nat) :
    shares (fun i => (list i : Multiset α)) n = ↑((List.range n).flatMap list) := by
  unfold shares
  induction n with
  | zero => rfl
  | succ n ih =>
    rw [Finset.sum_range_succ, ih, List.range_succ, List.flatMap_append, ← coe_add]
    simp

theorem shares_held (f : Nat → Option α) (n : Nat) :
    shares (fun i => held (f i)) n = ↑((List.range n).filterMap f) := by
  unfold shares
  induction n with
  | zero => rfl
  | succ n ih =>
    rw [Finset.sum_range_succ, ih, List.range_succ, List.filterMap_append, ← coe_add]
    cases here : f n <;> simp [here]

end Xv6Rv32im.Library.Shares
