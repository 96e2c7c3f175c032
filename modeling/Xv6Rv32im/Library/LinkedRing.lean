import Mathlib.Data.List.Nodup

/-!
# Doubly linked rings

Nodes with links in both directions, which form a cycle through a head.  `Ring` says
which nodes the cycle passes through; unlinking a node and inserting one after the
head, as four assignments to links, keep it.  `scan` follows the links of one direction
until the head comes round again.
-/

namespace Xv6Rv32im.Library.LinkedRing

open Function List

variable {α : Type*}

/-- The links lead from `a` through the nodes of the list to `b` and back. -/
def Path (next prev : α → α) : α → List α → α → Prop
  | a, [], b => next a = b ∧ prev b = a
  | a, x :: rest, b => (next a = x ∧ prev x = a) ∧ Path next prev x rest b

/-- The links form one cycle through the head and the nodes of the list. -/
structure Ring (next prev : α → α) (head : α) (l : List α) : Prop where
  path : Path next prev head l head
  nodup : (head :: l).Nodup

section

variable {next prev next' prev' : α → α} {a b d x : α} {l front back : List α}

/-- A path depends on the links along it. -/
theorem Path.congr (path : Path next prev a l b) (forward : ∀ x ∈ a :: l, next' x = next x)
    (backward : ∀ x ∈ l ++ [b], prev' x = prev x) : Path next' prev' a l b := by
  induction l generalizing a with
  | nil =>
    obtain ⟨first, second⟩ := path
    refine ⟨(forward a mem_cons_self).trans first, ?_⟩
    exact (backward b (mem_singleton_self b)).trans second
  | cons x rest ih =>
    obtain ⟨⟨first, second⟩, path⟩ := path
    refine ⟨⟨(forward a mem_cons_self).trans first, ?_⟩, ih path ?_ ?_⟩
    · exact (backward x mem_cons_self).trans second
    · exact fun y inside => forward y (mem_cons_of_mem _ inside)
    · exact fun y inside => backward y (mem_cons_of_mem _ inside)

theorem path_append : Path next prev a (front ++ x :: back) b ↔
      Path next prev a front x ∧ Path next prev x back b := by
  induction front generalizing a with
  | nil => rfl
  | cons y rest ih =>
    rw [cons_append]
    change (_ ∧ Path next prev y (rest ++ x :: back) b) ↔ (_ ∧ _) ∧ _
    rw [ih]
    exact and_assoc.symm

section

variable (path : Path next prev a l b)

include path

/-- Read backwards, a path is one of the opposite links. -/
theorem Path.reverse : Path prev next b l.reverse a := by
  induction l generalizing a with
  | nil => exact ⟨path.2, path.1⟩
  | cons x rest ih =>
    obtain ⟨⟨first, second⟩, path⟩ := path
    rw [reverse_cons]
    exact path_append.mpr ⟨ih path, second, first⟩

theorem Path.prev_mem : prev b ∈ a :: l := by
  induction l generalizing a with
  | nil =>
    rw [path.2]
    exact mem_cons_self
  | cons x rest ih => exact mem_cons_of_mem _ (ih path.2)

theorem Path.next_mem : next a ∈ l ++ [b] := by
  cases l with
  | nil =>
    rw [path.1]
    exact mem_singleton_self b
  | cons x rest =>
    rw [path.1.1]
    exact mem_cons_self

end

variable [DecidableEq α] {fuel : Nat}

/-! ## Removing a node -/

/-- The links without a node. -/
def unlinkNext (next prev : α → α) (b : α) : α → α := update next (prev b) (next b)

def unlinkPrev (next prev : α → α) (b : α) : α → α := update prev (next b) (prev b)

/-- The links around a node that is taken out. -/
theorem Path.bypass (pre : Path next prev a front b) (after : Path next prev b back d)
    (nodup : (a :: (front ++ b :: back)).Nodup) (outside : d ∉ front ++ b :: back) :
    Path (unlinkNext next prev b) (unlinkPrev next prev b) a (front ++ back) d := by
  induction front generalizing a with
  | nil =>
    obtain ⟨first, second⟩ := pre
    cases back with
    | nil =>
      obtain ⟨third, fourth⟩ := after
      unfold unlinkNext unlinkPrev
      rw [second, third]
      exact ⟨update_self .., update_self ..⟩
    | cons x rest =>
      obtain ⟨⟨third, fourth⟩, path⟩ := after
      have distinct : a ∉ x :: rest ∧ x ∉ rest := by
        simp only [nil_append, nodup_cons, mem_cons, not_or] at nodup
        exact ⟨by simp [nodup], nodup.2.2.1⟩
      have ne : x ≠ d := by
        rintro rfl
        exact outside (by simp)
      unfold unlinkNext unlinkPrev
      rw [second, third]
      refine ⟨⟨update_self .., update_self ..⟩, path.congr ?_ ?_⟩
      · intro y inside
        refine update_of_ne ?_ ..
        rintro rfl
        exact distinct.1 inside
      intro y inside
      refine update_of_ne (fun same => ?_) ..
      rcases mem_append.mp inside with inside | last
      · exact distinct.2 (same ▸ inside)
      · exact ne (same.symm.trans (mem_singleton.mp last))
  | cons y rest ih =>
    obtain ⟨⟨first, second⟩, path⟩ := pre
    have tail : (y :: (rest ++ b :: back)).Nodup := (nodup_cons.mp nodup).2
    have apart : a ≠ prev b := by
      intro same
      have inside := path.prev_mem
      rw [← same] at inside
      refine (nodup_cons.mp nodup).1 ?_
      rw [cons_append]
      rcases mem_cons.mp inside with rfl | inside
      · exact mem_cons_self
      · exact mem_cons_of_mem _ (mem_append_left _ inside)
    have apart' : y ≠ next b := by
      intro same
      have inside := after.next_mem
      rw [← same] at inside
      rcases mem_append.mp inside with inside | last
      · exact (nodup_cons.mp tail).1 (mem_append_right _ (mem_cons_of_mem _ inside))
      · rw [mem_singleton.mp last] at outside
        exact outside mem_cons_self
    refine ⟨⟨?_, ?_⟩, ih path tail fun inside => outside (mem_cons_of_mem _ inside)⟩
    · exact (update_of_ne apart ..).trans first
    · exact (update_of_ne apart' ..).trans second

theorem Ring.unlink (ring : Ring next prev a l) (inside : b ∈ l) :
    Ring (unlinkNext next prev b) (unlinkPrev next prev b) a (l.erase b) := by
  obtain ⟨front, back, rfl⟩ := append_of_mem inside
  obtain ⟨pre, after⟩ := path_append.mp ring.path
  have nodup := ring.nodup
  have absent : b ∉ front := by
    intro early
    have nodup := (nodup_append.mp (nodup_cons.mp nodup).2).2.2
    exact nodup b early b mem_cons_self rfl
  rw [erase_append_right _ absent, erase_cons_head]
  refine ⟨pre.bypass after nodup (nodup_cons.mp nodup).1, ?_⟩
  exact nodup.sublist (List.Sublist.cons_cons _
    ((List.Sublist.refl front).append (sublist_cons_self ..)))

/-! ## Adding a node after the head -/

/-- The links with a node after the head. -/
def pushNext (next : α → α) (head b : α) : α → α :=
  update (update next b (next head)) head b

def pushPrev (next prev : α → α) (head b : α) : α → α :=
  update (update prev b head) (next head) b

theorem Ring.push (ring : Ring next prev a l) (new : b ∉ a :: l) :
    Ring (pushNext next a b) (pushPrev next prev a b) a (b :: l) := by
  obtain ⟨apart, absent⟩ := not_or.mp (mem_cons.not.mp new)
  have fresh (y : α) (inside : y ∈ l) : y ≠ b := fun same => absent (same ▸ inside)
  refine ⟨⟨⟨update_self .., ?_⟩, ?_⟩, ?_⟩
  · unfold pushPrev
    have ne : b ≠ next a := by
      intro same
      have inside := ring.path.next_mem
      rw [← same] at inside
      rcases mem_append.mp inside with inside | last
      · exact absent inside
      · exact apart (mem_singleton.mp last)
    rw [update_of_ne ne, update_self]
  · have link : pushNext next a b b = next a := by
      unfold pushNext
      rw [update_of_ne apart, update_self]
    cases l with
    | nil =>
      obtain ⟨first, -⟩ := ring.path
      refine ⟨link.trans first, ?_⟩
      unfold pushPrev
      rw [first, update_self]
    | cons x rest =>
      obtain ⟨⟨first, -⟩, path⟩ := ring.path
      have nodup := ring.nodup
      refine ⟨⟨link.trans first, ?_⟩, path.congr ?_ ?_⟩
      · unfold pushPrev
        rw [first, update_self]
      · intro y inside
        unfold pushNext
        have inner : y ≠ a := fun same => (nodup_cons.mp nodup).1 (same ▸ inside)
        rw [update_of_ne inner, update_of_ne (fresh y inside)]
      intro y inside
      unfold pushPrev
      rw [first]
      rcases mem_append.mp inside with later | last
      · have inner : y ≠ x := by
          rintro rfl
          exact (nodup_cons.mp (nodup_cons.mp nodup).2).1 later
        rw [update_of_ne inner, update_of_ne (fresh y (mem_cons_of_mem _ later))]
      have final : y = a := mem_singleton.mp last
      have inner : y ≠ x := by
        rintro rfl
        rw [final] at nodup
        exact (nodup_cons.mp nodup).1 mem_cons_self
      rw [update_of_ne inner, update_of_ne fun same =>
        apart (same.symm.trans final)]
  · rw [nodup_cons, nodup_cons]
    obtain ⟨outside, nodup⟩ := nodup_cons.mp ring.nodup
    refine ⟨?_, absent, nodup⟩
    rw [mem_cons, not_or]
    exact ⟨fun same => apart same.symm, outside⟩

/-! ## Searching -/

/-- Follow the links from a node to the first that satisfies `p`; `some none` if `stop` comes
first, `none` if the fuel does not suffice. -/
def scan (link : α → α) (stop : α) (p : α → Bool) : Nat → α → Option (Option α)
  | 0, _ => none
  | fuel + 1, a =>
    if a = stop then some none else if p a then some (some a) else scan link stop p fuel (link a)

theorem Path.scan_eq (path : Path next prev a l b) (outside : b ∉ l) (p : α → Bool)
    (enough : l.length < fuel) : scan next b p fuel (next a) = some (l.find? p) := by
  induction l generalizing a fuel with
  | nil =>
    obtain ⟨fuel, rfl⟩ := Nat.exists_eq_succ_of_ne_zero (Nat.ne_of_gt enough)
    rw [scan, if_pos path.1]
    rfl
  | cons x rest ih =>
    obtain ⟨fuel, rfl⟩ := Nat.exists_eq_succ_of_ne_zero (Nat.ne_of_gt (Nat.zero_lt_of_lt enough))
    obtain ⟨⟨first, -⟩, path⟩ := path
    have apart : x ≠ b := by
      rintro rfl
      exact outside mem_cons_self
    rw [scan, first, if_neg apart, List.find?_cons]
    cases found : p x with
    | true => rfl
    | false =>
      exact ih path (fun inside => outside (mem_cons_of_mem _ inside))
        (Nat.lt_of_succ_lt_succ enough)

theorem Ring.scan_next (ring : Ring next prev a l) (p : α → Bool) (enough : l.length < fuel) :
    scan next a p fuel (next a) = some (l.find? p) :=
  ring.path.scan_eq (nodup_cons.mp ring.nodup).1 p enough

theorem Ring.scan_prev (ring : Ring next prev a l) (p : α → Bool) (enough : l.length < fuel) :
    scan prev a p fuel (prev a) = some (l.reverse.find? p) := by
  refine ring.path.reverse.scan_eq ?_ p (by rwa [length_reverse])
  rw [mem_reverse]
  exact (nodup_cons.mp ring.nodup).1

end

end Xv6Rv32im.Library.LinkedRing
