import Mathlib.Logic.Function.Basic

/-! # Updates of one value of a function -/

namespace Xv6Rv32im.Library

open Function

variable {ι α β : Type} [DecidableEq ι] (field : α → β) {f : ι → α} {i : ι} {a : α}

theorem apply_update_ite (j : ι) :
    field (update f i a j) = if j = i then field a else field (f j) := by
  rw [update_apply, apply_ite field]

/-- An update that keeps a field of the value keeps it everywhere. -/
theorem apply_update_eq (same : field a = field (f i)) (j : ι) :
    field (update f i a j) = field (f j) := by
  rw [apply_update_ite field]
  split
  next here => rw [same, here]
  next => rfl

end Xv6Rv32im.Library
