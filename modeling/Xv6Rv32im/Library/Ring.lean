import Mathlib.Data.BitVec

/-!
# Rings with free-running counters

A ring of slots whose positions are counters of a machine word.  The counters are never reduced
and run over; if the number of slots divides the number of counters, the slot of a counter is
still its remainder.
-/

namespace Xv6Rv32im.Library.Ring

open Function List

variable {α : Type*} {w size : Nat}

/-- The slot of a counter. -/
def slot (size : Nat) (counter : BitVec w) : Nat := counter.toNat % size

/-- The values in `count` slots from a counter on. -/
def window (size : Nat) (ring : Nat → α) (start : BitVec w) (count : Nat) : List α :=
  (List.range count).map fun i => ring (slot size (start + BitVec.ofNat w i))

theorem slot_add (divides : size ∣ 2 ^ w) (start : BitVec w) (i : Nat) :
    slot size (start + BitVec.ofNat w i) = (start.toNat + i) % size := by
  simp only [slot, BitVec.toNat_add, BitVec.toNat_ofNat, Nat.add_mod_mod]
  exact Nat.mod_mod_of_dvd _ divides

theorem window_succ (ring : Nat → α) (start : BitVec w) (count : Nat) :
    window size ring start (count + 1) =
      ring (slot size start) :: window size ring (start + 1) count := by
  have shift (i : Nat) : start + BitVec.ofNat w (i + 1) = start + 1 + BitVec.ofNat w i := by
    rw [BitVec.add_assoc, Nat.add_comm, BitVec.ofNat_add]
    rfl
  unfold window
  rw [range_succ_eq_map, map_cons, map_map]
  simp only [BitVec.add_zero, comp_def, shift]

/-- Storing in a slot outside a window does not change it. -/
theorem window_update (divides : size ∣ 2 ^ w) (ring : Nat → α) (start : BitVec w) {count i : Nat}
    (outside : count ≤ i) (fits : i < size) (a : α) :
    window size (update ring (slot size (start + BitVec.ofNat w i)) a) start count =
      window size ring start count := by
  refine map_congr_left fun j mem => update_of_ne ?_ ..
  have below := mem_range.mp mem
  rw [slot_add divides, slot_add divides]
  intro same
  have apart : j % size = i % size := Nat.ModEq.add_left_cancel' start.toNat same
  rw [Nat.mod_eq_of_lt (by omega), Nat.mod_eq_of_lt fits] at apart
  omega

/-- The ring holds these values between two counters. -/
structure Holds (size : Nat) (ring : Nat → α) (start stop : BitVec w) (values : List α) :
    Prop where
  length : (stop - start).toNat = values.length
  fits : values.length ≤ size
  cells : window size ring start values.length = values

section

variable {ring : Nat → α} {start stop : BitVec w} {values : List α} {a : α}

theorem Holds.nil (size : Nat) (ring : Nat → α) (start : BitVec w) :
    Holds size ring start start [] := by
  constructor
  · simp
  · exact Nat.zero_le size
  · rfl

theorem Holds.stop_eq (holds : Holds size ring start stop values) :
    stop = start + BitVec.ofNat w values.length := by
  rw [← holds.length, BitVec.ofNat_toNat, BitVec.setWidth_eq]
  exact (add_sub_cancel start stop).symm

/-- The counter `count` places on is that far away. -/
theorem distance {start : BitVec w} {count : Nat} (small : count < 2 ^ w) :
    (start + BitVec.ofNat w count - start).toNat = count := by
  rw [add_sub_cancel_left, BitVec.toNat_ofNat, Nat.mod_eq_of_lt small]

theorem Holds.of_cells {count : Nat} (small : count < 2 ^ w) (fits : count ≤ size)
    (length : values.length = count) (cells : window size ring start count = values) :
    Holds size ring start (start + BitVec.ofNat w count) values := by
  subst length
  exact ⟨distance small, fits, cells⟩

section

variable (holds : Holds size ring start stop values)

include holds

/-- The ring is empty when the counters meet. -/
theorem Holds.empty_iff : start = stop ↔ values = [] := by
  constructor
  · rintro rfl
    have length := holds.length
    rw [sub_self] at length
    exact length_eq_zero_iff.mp length.symm
  · rintro rfl
    have far := holds.stop_eq
    simpa using far.symm

/-- The ring is full when the second counter is as far ahead as there are slots. -/
theorem Holds.full_iff (small : size < 2 ^ w) :
    stop = start + BitVec.ofNat w size ↔ values.length = size := by
  constructor
  · intro full
    rw [← holds.length, full, distance small]
  · intro full
    rw [holds.stop_eq, full]

/-- Storing in the next free slot changes none of the values. -/
theorem Holds.store (divides : size ∣ 2 ^ w) (room : values.length < size) (a : α) :
    Holds size (update ring (slot size stop) a) start stop values := by
  refine ⟨holds.length, holds.fits, ?_⟩
  rw [holds.stop_eq, window_update divides ring start (Nat.le_refl values.length) room a]
  exact holds.cells

theorem Holds.extend (small : size < 2 ^ w) (room : values.length < size) :
    Holds size ring start (stop + 1) (values ++ [ring (slot size stop)]) := by
  have stop_eq := holds.stop_eq
  have next : stop + 1 = start + BitVec.ofNat w (values.length + 1) := by
    rw [stop_eq, BitVec.ofNat_add, BitVec.add_assoc]
    rfl
  have cells := holds.cells
  rw [next]
  refine .of_cells (by omega) room (by simp) ?_
  unfold window at cells ⊢
  rw [range_succ, map_append, cells, map_singleton, ← stop_eq]

theorem Holds.push (divides : size ∣ 2 ^ w) (small : size < 2 ^ w) (room : values.length < size)
    (a : α) :
    Holds size (update ring (slot size stop) a) start (stop + 1) (values ++ [a]) := by
  have extended := (holds.store divides room a).extend small room
  rwa [update_self] at extended

end

theorem Holds.pop (holds : Holds size ring start stop (a :: values)) (small : size < 2 ^ w) :
    ring (slot size start) = a ∧ Holds size ring (start + 1) stop values := by
  have fits : values.length + 1 ≤ size := holds.fits
  have cells : window size ring start (values.length + 1) = a :: values := holds.cells
  rw [window_succ] at cells
  obtain ⟨first, rest⟩ := List.cons.inj cells
  refine ⟨first, ?_⟩
  have stop_eq : stop = start + 1 + BitVec.ofNat w values.length := by
    rw [holds.stop_eq, length_cons, Nat.add_comm, BitVec.ofNat_add, BitVec.add_assoc]
    rfl
  rw [stop_eq]
  exact .of_cells (by omega) (by omega) rfl rest

end

end Xv6Rv32im.Library.Ring
