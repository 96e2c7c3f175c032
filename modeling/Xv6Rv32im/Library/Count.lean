import Mathlib.Data.List.Perm.Subperm
import Mathlib.Data.List.Nodup

/-!
# Counting the holders of a thing

A number counts those who have a property if they can be listed, each of them once.
-/

namespace Xv6Rv32im.Library.Count

open List

variable {α : Type*} {P Q : α → Prop} {n : Nat} {a : α}

/-- There are `n` of those with the property. -/
def Counts (P : α → Prop) (n : Nat) : Prop :=
  ∃ l : List α, l.Nodup ∧ (∀ a, a ∈ l ↔ P a) ∧ l.length = n

theorem Counts.congr (counts : Counts P n) (same : ∀ a, Q a ↔ P a) : Counts Q n := by
  obtain ⟨l, nodup, mem, length⟩ := counts
  exact ⟨l, nodup, fun a => (mem a).trans (same a).symm, length⟩

theorem counts_zero (nobody : ∀ a, ¬P a) : Counts P 0 :=
  ⟨[], nodup_nil, fun a => ⟨nofun, fun holds => absurd holds (nobody a)⟩, rfl⟩

theorem Counts.nobody (counts : Counts P 0) (a : α) : ¬P a := by
  obtain ⟨l, -, mem, length⟩ := counts
  rw [length_eq_zero_iff.mp length] at mem
  exact fun holds => nomatch (mem a).mpr holds

theorem Counts.pos (counts : Counts P n) (holds : P a) : 0 < n := by
  obtain ⟨l, -, mem, rfl⟩ := counts
  exact length_pos_of_mem ((mem a).mpr holds)

theorem Counts.exists (counts : Counts P n) (pos : 0 < n) : ∃ a, P a := by
  obtain ⟨l, -, mem, rfl⟩ := counts
  obtain ⟨a, member⟩ := exists_mem_of_length_pos pos
  exact ⟨a, (mem a).mp member⟩

theorem Counts.sole (counts : Counts P 1) {b : α} (first : P a) (second : P b) : a = b := by
  obtain ⟨l, -, mem, length⟩ := counts
  obtain ⟨c, rfl⟩ := length_eq_one_iff.mp length
  rw [mem_singleton.mp ((mem a).mpr first), mem_singleton.mp ((mem b).mpr second)]

theorem Counts.add (counts : Counts P n) (new : ¬P a) (same : ∀ b, Q b ↔ b = a ∨ P b) :
    Counts Q (n + 1) := by
  obtain ⟨l, nodup, mem, rfl⟩ := counts
  refine ⟨a :: l, nodup_cons.mpr ⟨fun member => new ((mem a).mp member), nodup⟩, ?_, rfl⟩
  intro b
  rw [mem_cons, mem, same]

theorem Counts.remove (counts : Counts P n) (old : P a) (same : ∀ b, Q b ↔ b ≠ a ∧ P b) :
    Counts Q (n - 1) := by
  classical
  obtain ⟨l, nodup, mem, rfl⟩ := counts
  refine ⟨l.erase a, nodup.erase a, ?_, length_erase_of_mem ((mem a).mpr old)⟩
  intro b
  rw [nodup.mem_erase_iff, mem, same]

theorem Counts.another (counts : Counts P n) (more : 1 < n) (a : α) : ∃ b, b ≠ a ∧ P b := by
  obtain ⟨l, nodup, mem, rfl⟩ := counts
  obtain ⟨b, rest, rfl⟩ : ∃ b rest, l = b :: rest := by
    cases l with
    | nil => exact absurd more (by simp)
    | cons b rest => exact ⟨b, rest, rfl⟩
  obtain ⟨c, rest, rfl⟩ : ∃ c rest', rest = c :: rest' := by
    cases rest with
    | nil => exact absurd more (by simp)
    | cons c rest => exact ⟨c, rest, rfl⟩
  by_cases same : b = a
  · refine ⟨c, ?_, (mem c).mp (by simp)⟩
    rintro rfl
    subst same
    simp at nodup
  · exact ⟨b, same, (mem b).mp (by simp)⟩

end Xv6Rv32im.Library.Count
