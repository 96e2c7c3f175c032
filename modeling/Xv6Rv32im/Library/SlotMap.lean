import Mathlib.Logic.Function.Basic

/-!
# Finite maps in slots

An array of slots, some of them free, stands for a finite map if no two used slots have the same
key.  A binding is added in the first free slot, or behind the last slot, and removed in place.
-/

namespace Xv6Rv32im.Library.SlotMap

open Function

/-! ## Scanning -/

/-- The first result of a scan of so many positions from one on, and where the scan ended. -/
def firstFrom {α : Type} (f : Nat → Option α) : Nat → Nat → Option α × Nat
  | 0, k => (none, k)
  | left + 1, k =>
    match f k with
    | none => firstFrom f left (k + 1)
    | some a => (some a, k)

variable {α : Type} {f g : Nat → Option α} {left k : Nat}

theorem firstFrom_congr (same : ∀ j, k ≤ j → j < k + left → g j = f j) :
    firstFrom g left k = firstFrom f left k := by
  induction left generalizing k with
  | zero => rfl
  | succ left ih =>
    unfold firstFrom
    rw [same k (Nat.le_refl k) (by omega), ih fun j above below => same j (by omega) (by omega)]

/-- A scan ends at the first position with a result, or behind the last one. -/
theorem firstFrom_spec (f : Nat → Option α) (left k : Nat) :
    ((firstFrom f left k).1 = none ∧ (firstFrom f left k).2 = k + left ∧
        ∀ j, k ≤ j → j < k + left → f j = none) ∨
      ∃ a j, firstFrom f left k = (some a, j) ∧ k ≤ j ∧ j < k + left ∧ f j = some a := by
  induction left generalizing k with
  | zero => exact .inl ⟨rfl, rfl, fun j above below => by omega⟩
  | succ left ih =>
    unfold firstFrom
    cases isResult : f k with
    | some a => exact .inr ⟨a, k, rfl, Nat.le_refl k, by omega, isResult⟩
    | none =>
      rcases ih (k + 1) with ⟨nothing, atEnd, all⟩ | ⟨a, j, found, above, below, isFirst⟩
      · refine .inl ⟨nothing, by rw [atEnd]; omega, fun j above below => ?_⟩
        rcases Nat.lt_or_eq_of_le above with later | rfl
        · exact all j later (by omega)
        · exact isResult
      · exact .inr ⟨a, j, found, by omega, by omega, isFirst⟩

/-! ## Slots -/

variable {κ ν : Type}

/-- The first free slot, or the position behind the slots. -/
def firstFree (slot : Nat → Option (κ × ν)) (n : Nat) : Nat :=
  (firstFrom (fun k => if slot k = none then some () else none) n 0).2

/-- No two used slots have the same key. -/
def Unique (slot : Nat → Option (κ × ν)) (n : Nat) : Prop :=
  ∀ j < n, ∀ j' < n, ∀ key v v', slot j = some (key, v) → slot j' = some (key, v') → j = j'

variable {slot slot' : Nat → Option (κ × ν)} {key : κ} {v : ν} {n j : Nat}

theorem firstFree_spec (slot : Nat → Option (κ × ν)) (n : Nat) :
    firstFree slot n ≤ n ∧ (firstFree slot n < n → slot (firstFree slot n) = none) := by
  unfold firstFree
  rcases firstFrom_spec (fun k => if slot k = none then some () else none) n 0 with
    ⟨-, atEnd, -⟩ | ⟨_, j, found, -, below, isFree⟩
  · rw [atEnd, Nat.zero_add]
    exact ⟨Nat.le_refl n, fun impossible => absurd impossible (Nat.lt_irrefl n)⟩
  rw [found]
  refine ⟨by omega, fun _ => ?_⟩
  by_contra used
  rw [if_neg used] at isFree
  cases isFree

/-! ## Changing a slot -/

theorem Unique.congr (unique : Unique slot n) (same : ∀ j < n, slot' j = slot j) :
    Unique slot' n := by
  intro j below j' below' key v v' isEntry isEntry'
  rw [same j below] at isEntry
  rw [same j' below'] at isEntry'
  exact unique j below j' below' key v v' isEntry isEntry'

theorem put_eq (isFree : j < n → slot j = none) (le : j ≤ n) {i : Nat} (below : i < max n (j + 1))
    {key' : κ} {v' : ν} : update slot j (some (key, v)) i = some (key', v') ↔
      i = j ∧ key = key' ∧ v = v' ∨ i < n ∧ slot i = some (key', v') := by
  by_cases same : i = j
  · rw [same, update_self, Option.some.injEq, Prod.mk.injEq]
    refine ⟨fun equal => .inl ⟨rfl, equal⟩, fun either => either.elim And.right fun used => ?_⟩
    rw [isFree used.1] at used
    exact absurd used.2 nofun
  · rw [update_of_ne same]
    refine ⟨fun isEntry => .inr ⟨by omega, isEntry⟩, fun either => ?_⟩
    exact either.elim (fun first => absurd first.1 same) And.right

theorem clear_eq {i : Nat} {key' : κ} {v' : ν} :
    update slot j none i = some (key', v') ↔ i ≠ j ∧ slot i = some (key', v') := by
  by_cases same : i = j
  · rw [same, update_self]
    exact ⟨nofun, fun both => absurd rfl both.1⟩
  · rw [update_of_ne same]
    exact ⟨fun isEntry => ⟨same, isEntry⟩, And.right⟩

theorem Unique.clear (unique : Unique slot n) (j : Nat) : Unique (update slot j none) n := by
  intro i below i' below' key v v' isEntry isEntry'
  exact unique i below i' below' key v v' (clear_eq.mp isEntry).2 (clear_eq.mp isEntry').2

/-! ## The map -/

variable [DecidableEq κ]

/-- The value of a slot with a key. -/
def valueAt (slot : Nat → Option (κ × ν)) (key : κ) (k : Nat) : Option ν :=
  (slot k).bind fun entry => if entry.1 = key then some entry.2 else none

/-- The first slot with a key, and its value. -/
def find (slot : Nat → Option (κ × ν)) (n : Nat) (key : κ) : Option (Nat × ν) :=
  (firstFrom (valueAt slot key) n 0).1.map fun v => ((firstFrom (valueAt slot key) n 0).2, v)

/-- The map that the slots stand for. -/
def binding (slot : Nat → Option (κ × ν)) (n : Nat) (key : κ) : Option ν :=
  (find slot n key).map Prod.snd

theorem valueAt_eq_some : valueAt slot key j = some v ↔ slot j = some (key, v) := by
  unfold valueAt
  rw [Option.bind_eq_some_iff]
  constructor
  · rintro ⟨⟨key', v'⟩, isEntry, isValue⟩
    dsimp only at isValue
    split at isValue
    next same =>
      cases isValue
      rw [isEntry, same]
    · cases isValue
  · intro isEntry
    exact ⟨(key, v), isEntry, if_pos rfl⟩

theorem find_eq_none : find slot n key = none ↔ ∀ j < n, ∀ v, slot j ≠ some (key, v) := by
  unfold find
  rcases firstFrom_spec (valueAt slot key) n 0 with ⟨nothing, -, all⟩ |
    ⟨v, j, found, -, below, isFirst⟩
  · rw [nothing]
    refine ⟨fun _ j below v isEntry => ?_, fun _ => rfl⟩
    have empty := all j (Nat.zero_le j) (by omega)
    rw [valueAt_eq_some.mpr isEntry] at empty
    cases empty
  · rw [found]
    exact ⟨nofun, fun none => absurd (valueAt_eq_some.mp isFirst) (none j (by omega) v)⟩

theorem find_some (found : find slot n key = some (j, v)) : j < n ∧ slot j = some (key, v) := by
  unfold find at found
  rcases firstFrom_spec (valueAt slot key) n 0 with ⟨nothing, -, -⟩ |
    ⟨v', j', isFirst, -, below, isValue⟩
  · rw [nothing] at found
    cases found
  · rw [isFirst] at found
    cases found
    exact ⟨by omega, valueAt_eq_some.mp isValue⟩

/-- The search finds the slot of a key, if there is one. -/
theorem Unique.find_eq_some (unique : Unique slot n) :
    find slot n key = some (j, v) ↔ j < n ∧ slot j = some (key, v) := by
  refine ⟨find_some, ?_⟩
  rintro ⟨below, isEntry⟩
  cases found : find slot n key with
  | none => exact absurd isEntry (find_eq_none.mp found j below v)
  | some result =>
    obtain ⟨j', v'⟩ := result
    obtain ⟨below', isEntry'⟩ := find_some found
    have same : j' = j := unique j' below' j below key v' v isEntry' isEntry
    rw [same, isEntry] at isEntry'
    cases isEntry'
    rw [same]

theorem find_congr (same : ∀ j < n, slot' j = slot j) (key : κ) :
    find slot' n key = find slot n key := by
  unfold find
  rw [firstFrom_congr fun j _ below => ?_]
  unfold valueAt
  rw [same j (by omega)]

theorem binding_eq_none : binding slot n key = none ↔ ∀ j < n, ∀ v, slot j ≠ some (key, v) := by
  unfold binding
  rw [Option.map_eq_none_iff, find_eq_none]

theorem Unique.binding_eq_some (unique : Unique slot n) :
    binding slot n key = some v ↔ ∃ j < n, slot j = some (key, v) := by
  unfold binding
  rw [Option.map_eq_some_iff]
  constructor
  · rintro ⟨⟨j, v'⟩, found, rfl⟩
    exact ⟨j, unique.find_eq_some.mp found⟩
  · rintro ⟨j, below, isEntry⟩
    exact ⟨(j, v), unique.find_eq_some.mpr ⟨below, isEntry⟩, rfl⟩

theorem binding_congr (same : ∀ j < n, slot' j = slot j) : binding slot' n = binding slot n := by
  funext key
  unfold binding
  rw [find_congr same]

/-! ## Adding and removing -/

section

variable (unique : Unique slot n) (absent : binding slot n key = none)
    (isFree : j < n → slot j = none) (le : j ≤ n)

include unique absent isFree le

theorem Unique.put : Unique (update slot j (some (key, v))) (max n (j + 1)) := by
  rw [binding_eq_none] at absent
  intro i below i' below' key' w w' isEntry isEntry'
  rw [put_eq isFree le below] at isEntry
  rw [put_eq isFree le below'] at isEntry'
  rcases isEntry with ⟨rfl, rfl, -⟩ | ⟨lt, isEntry⟩
  · rcases isEntry' with ⟨rfl, -, -⟩ | ⟨lt', isEntry'⟩
    · rfl
    · exact absurd isEntry' (absent i' lt' w')
  · rcases isEntry' with ⟨rfl, rfl, -⟩ | ⟨lt', isEntry'⟩
    · exact absurd isEntry (absent i lt w)
    · exact unique i lt i' lt' key' w w' isEntry isEntry'

/-- Putting a binding into a free slot adds it to the map. -/
theorem Unique.binding_put : binding (update slot j (some (key, v))) (max n (j + 1)) =
      update (binding slot n) key (some v) := by
  have unique' : Unique (update slot j (some (key, v))) (max n (j + 1)) :=
    unique.put absent isFree le
  funext key'
  by_cases same : key' = key
  · rw [same, update_self]
    exact unique'.binding_eq_some.mpr ⟨j, by omega, update_self ..⟩
  rw [update_of_ne same]
  refine Option.ext fun w => ?_
  rw [unique'.binding_eq_some, unique.binding_eq_some]
  constructor
  · rintro ⟨i, below, isEntry⟩
    rw [put_eq isFree le below] at isEntry
    rcases isEntry with ⟨-, equal, -⟩ | old
    · exact absurd equal.symm same
    · exact ⟨i, old⟩
  · rintro ⟨i, old⟩
    have below : i < max n (j + 1) := by omega
    exact ⟨i, below, (put_eq isFree le below).mpr (.inr old)⟩

end

/-- Freeing a slot removes its binding from the map. -/
theorem Unique.binding_clear (unique : Unique slot n) (below : j < n)
    (isEntry : slot j = some (key, v)) :
    binding (update slot j none) n = update (binding slot n) key none := by
  funext key'
  refine Option.ext fun w => ?_
  rw [(unique.clear j).binding_eq_some]
  by_cases same : key' = key
  · rw [same, update_self]
    refine ⟨?_, nofun⟩
    rintro ⟨i, lt, cleared⟩
    obtain ⟨other, isEntry'⟩ := clear_eq.mp cleared
    exact absurd (unique i lt j below key w v isEntry' isEntry) other
  rw [update_of_ne same, unique.binding_eq_some]
  constructor
  · rintro ⟨i, lt, cleared⟩
    exact ⟨i, lt, (clear_eq.mp cleared).2⟩
  rintro ⟨i, lt, isEntry'⟩
  refine ⟨i, lt, clear_eq.mpr ⟨?_, isEntry'⟩⟩
  rintro rfl
  rw [isEntry] at isEntry'
  cases isEntry'
  exact same rfl

end Xv6Rv32im.Library.SlotMap
