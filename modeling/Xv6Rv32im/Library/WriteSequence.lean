import Mathlib.Data.Set.Function

/-!
# Sequences of atomic writes to a store

A store maps addresses to values.  A crash keeps a prefix of the writes that
were issued, so what a crash may leave behind is described by the properties
that hold after every prefix.
-/

namespace Xv6Rv32im.Library.WriteSequence

open Function List

variable {α β : Type*} [DecidableEq α] {writes : List (α × β)} {address : α}

/-- The store after a sequence of writes; the last write to an address wins. -/
def applyWrites (store : α → β) : List (α × β) → α → β
  | [] => store
  | write :: rest => applyWrites (update store write.1 write.2) rest

section

variable (store : α → β)

include store

@[simp] theorem applyWrites_nil : applyWrites store [] = store :=
  rfl

@[simp] theorem applyWrites_cons (write : α × β) (rest : List (α × β)) :
    applyWrites store (write :: rest) = applyWrites (update store write.1 write.2) rest :=
  rfl

theorem applyWrites_append (first second : List (α × β)) :
    applyWrites store (first ++ second) = applyWrites (applyWrites store first) second := by
  induction first generalizing store with
  | nil => rfl
  | cons write rest ih => exact ih _

/-- An address that no write names keeps its value. -/
theorem applyWrites_of_forall_ne (untouched : ∀ write ∈ writes, write.1 ≠ address) :
    applyWrites store writes address = store address := by
  induction writes generalizing store with
  | nil => rfl
  | cons write rest ih =>
    rw [applyWrites_cons, ih _ (fun other mem => untouched other (mem_cons_of_mem _ mem))]
    exact update_of_ne (untouched write mem_cons_self).symm _ _

end

/-- An address that some write names forgets what the store held there. -/
theorem applyWrites_congr_of_mem (first second : α → β)
    (named : ∃ write ∈ writes, write.1 = address) :
    applyWrites first writes address = applyWrites second writes address := by
  induction writes generalizing first second with
  | nil =>
    obtain ⟨_, impossible, _⟩ := named
    cases impossible
  | cons write rest ih =>
    by_cases later : ∃ other ∈ rest, other.1 = address
    · exact ih _ _ later
    have untouched : ∀ other ∈ rest, other.1 ≠ address :=
      fun other mem same => later ⟨other, mem, same⟩
    have here : write.1 = address := by
      obtain ⟨other, mem, same⟩ := named
      rcases mem_cons.mp mem with rfl | inRest
      · exact same
      · exact absurd same (untouched other inRest)
    rw [applyWrites_cons, applyWrites_cons, applyWrites_of_forall_ne _ untouched,
      applyWrites_of_forall_ne _ untouched, here, update_self, update_self]

/-- Two stores that agree somewhere still agree there after the same writes. -/
theorem applyWrites_congr {first second : α → β} (writes : List (α × β))
    (agree : first address = second address) :
    applyWrites first writes address = applyWrites second writes address := by
  by_cases named : ∃ write ∈ writes, write.1 = address
  · exact applyWrites_congr_of_mem first second named
  · have untouched : ∀ write ∈ writes, write.1 ≠ address :=
      fun write mem same => named ⟨write, mem, same⟩
    rw [applyWrites_of_forall_ne _ untouched, applyWrites_of_forall_ne _ untouched, agree]

theorem applyWrites_eqOn {first second : α → β} {region : Set α} (writes : List (α × β))
    (agree : Set.EqOn first second region) :
    Set.EqOn (applyWrites first writes) (applyWrites second writes) region :=
  fun _ lt => applyWrites_congr writes (agree lt)

/-- Writes that stay out of a region leave it alone. -/
theorem applyWrites_eqOn_of_disjoint {region : Set α} (store : α → β)
    (outside : ∀ write ∈ writes, write.1 ∉ region) :
    Set.EqOn (applyWrites store writes) store region := by
  intro address lt
  apply applyWrites_of_forall_ne
  rintro write mem rfl
  exact outside write mem lt

/-- Replaying a whole sequence after any prefix of it is replaying it once. -/
theorem applyWrites_replay (store : α → β) (writes : List (α × β)) (count : Nat) :
    applyWrites (applyWrites store (writes.take count)) writes = applyWrites store writes := by
  funext address
  by_cases named : ∃ write ∈ writes, write.1 = address
  · exact applyWrites_congr_of_mem _ _ named
  apply applyWrites_congr
  apply applyWrites_of_forall_ne
  intro write mem same
  exact named ⟨write, mem_of_mem_take mem, same⟩

/-- Writes whose values depend on their addresses alone store those values. -/
theorem applyWrites_of_forall_value (value : α → β) (store : α → β)
    (values : ∀ write ∈ writes, write.2 = value write.1)
    (named : ∃ write ∈ writes, write.1 = address) :
    applyWrites store writes address = value address := by
  rw [applyWrites_congr_of_mem store value named]
  clear named
  induction writes with
  | nil => rfl
  | cons write rest ih =>
    rw [applyWrites_cons, values write mem_cons_self, update_eq_self]
    exact ih (fun other mem => values other (mem_cons_of_mem _ mem))

/-- A sequence with one write for each address stores the paired values. -/
theorem applyWrites_of_mem_nodup {write : α × β} (store : α → β)
    (distinct : (writes.map Prod.fst).Nodup) (mem : write ∈ writes) :
    applyWrites store writes write.1 = write.2 := by
  induction writes generalizing store with
  | nil => cases mem
  | cons first rest ih =>
    rw [map_cons, nodup_cons] at distinct
    rcases mem_cons.mp mem with rfl | inRest
    · rw [applyWrites_cons, applyWrites_of_forall_ne, update_self]
      intro other inRest same
      exact distinct.1 (same ▸ mem_map_of_mem inRest)
    · exact ih _ distinct.2 inRest

/-! ## Properties that hold after every prefix of the writes -/

/-- The property holds however many of the writes reached the store. -/
def Throughout (P : (α → β) → Prop) (store : α → β) (writes : List (α × β)) : Prop :=
  ∀ count, P (applyWrites store (writes.take count))

section Throughout

variable {P : (α → β) → Prop} {store : α → β}

theorem Throughout.final (always : Throughout P store writes) : P (applyWrites store writes) := by
  have whole := always writes.length
  rwa [take_length] at whole

theorem Throughout.append {first second : List (α × β)} (pre : Throughout P store first)
    (after : Throughout P (applyWrites store first) second) :
    Throughout P store (first ++ second) := by
  intro count
  rw [take_append, applyWrites_append]
  by_cases short : count ≤ first.length
  · rw [Nat.sub_eq_zero_of_le short, take_zero]
    exact pre count
  · rw [take_of_length_le (Nat.le_of_not_le short)]
    exact after (count - first.length)

theorem throughout_singleton {write : α × β} (pre : P store)
    (after : P (update store write.1 write.2)) : Throughout P store [write] := by
  intro count
  cases count with
  | zero => exact pre
  | succ count =>
    rw [take_succ_cons, take_nil]
    exact after

end Throughout

end Xv6Rv32im.Library.WriteSequence
