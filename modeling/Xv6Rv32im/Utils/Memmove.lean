import Mathlib.Data.BitVec

/-!
# `memmove` of the kernel and of the user library
-/

namespace Xv6Rv32im.Utils

open Function

abbrev Memory := BitVec 32 → BitVec 8

def copyUp (mem : Memory) (d s : BitVec 32) : Nat → Memory
  | 0 => mem
  | n + 1 => copyUp (update mem d (mem s)) (d + 1) (s + 1) n

def copyDown (mem : Memory) (d s : BitVec 32) : Nat → Memory
  | 0 => mem
  | n + 1 => copyDown (update mem (d - 1) (mem (s - 1))) (d - 1) (s - 1) n

/-- `memmove` of `string.c`. -/
def memmove (mem : Memory) (dst src n : BitVec 32) : Memory :=
  if src < dst ∧ src + n > dst then copyDown mem (dst + n) (src + n) n.toNat
  else copyUp mem dst src n.toNat

/-- `memmove` of `ulib.c`, where `n` is an `int`. -/
def userMemmove (mem : Memory) (dst src n : BitVec 32) : Memory :=
  if src > dst then copyUp mem dst src n.toInt.toNat
  else copyDown mem (dst + n) (src + n) n.toInt.toNat

/-- The memory with the old bytes of the source in the destination. -/
def moved (mem : Memory) (dst src : BitVec 32) (n : Nat) : Memory := fun a =>
  if (a - dst).toNat < n then mem (src + (a - dst)) else mem a

section

variable {mem : Memory} {d s : BitVec 32} {n : Nat} (fits : d.toNat + n ≤ 2 ^ 32)

include fits

theorem copyUp_eq (inside : s.toNat + n ≤ 2 ^ 32) (apart : d ≤ s ∨ s.toNat + n ≤ d.toNat) :
    copyUp mem d s n = moved mem d s n := by
  induction n generalizing mem d s with
  | zero => rfl
  | succ n ih =>
    rw [copyUp, ih (by bv_omega) (by bv_omega) (by bv_omega)]
    funext a
    unfold moved
    rw [show s + 1 + (a - (d + 1)) = s + (a - d) by bv_omega]
    by_cases first : a = d
    · rw [if_neg (by bv_omega), if_pos (by bv_omega), first, update_self, BitVec.sub_self,
        BitVec.add_zero]
    have same : (a - (d + 1)).toNat < n ↔ (a - d).toNat < n + 1 := by bv_omega
    simp only [same]
    -- a source byte that is still to be read was not overwritten
    split
    · exact update_of_ne (by bv_omega) ..
    · exact update_of_ne first ..

theorem copyDown_eq (below : s ≤ d) :
    copyDown mem (d + BitVec.ofNat 32 n) (s + BitVec.ofNat 32 n) n = moved mem d s n := by
  induction n generalizing mem with
  | zero => rfl
  | succ n ih =>
    have back (x : BitVec 32) : x + BitVec.ofNat 32 (n + 1) - 1 = x + BitVec.ofNat 32 n := by
      bv_omega
    rw [copyDown, back, back, ih (by omega)]
    funext a
    unfold moved
    by_cases last : a = d + BitVec.ofNat 32 n
    · rw [if_neg (by bv_omega), if_pos (by bv_omega), last, update_self, add_sub_cancel_left]
    have same : (a - d).toNat < n ↔ (a - d).toNat < n + 1 := by bv_omega
    simp only [same]
    split
    · exact update_of_ne (by bv_omega) ..
    · exact update_of_ne last ..

end

/-- The kernel moves all ranges; the user library those whose length is a non-negative `int`. -/
theorem memmove_moves (mem : Memory) (dst src n : BitVec 32) (fits : dst.toNat + n.toNat ≤ 2 ^ 32)
    (inside : src.toNat + n.toNat ≤ 2 ^ 32) :
    memmove mem dst src n = moved mem dst src n.toNat ∧
      (userMemmove mem dst src n = moved mem dst src n.toNat ↔
        n.toNat < 2 ^ 31 ∨ moved mem dst src n.toNat = mem) := by
  have down (below : src ≤ dst) := @copyDown_eq mem _ _ _ fits below
  rw [BitVec.ofNat_toNat, BitVec.setWidth_eq] at down
  constructor
  · unfold memmove
    split
    next overlap => exact down (BitVec.le_of_lt overlap.1)
    next apart => exact copyUp_eq fits inside (by bv_omega)
  unfold userMemmove
  by_cases small : n.toNat < 2 ^ 31
  · refine iff_of_true ?_ (.inl small)
    rw [BitVec.toInt_eq_toNat_of_lt (by omega), Int.toNat_natCast]
    split
    next up => exact copyUp_eq fits inside (.inl (BitVec.le_of_lt up))
    next => exact down (by bv_omega)
  · have none : n.toInt.toNat = 0 := by
      rw [BitVec.toInt_eq_toNat_cond]
      omega
    rw [none, or_iff_right small, copyUp, copyDown, ite_self, eq_comm]

theorem memmove_moves_overlapping :
    memmove (·.setWidth 8) 1 0 3 = moved (·.setWidth 8) 1 0 3 ∧
      userMemmove (·.setWidth 8) 1 0 3 = moved (·.setWidth 8) 1 0 3 :=
  (memmove_moves _ 1 0 3 (by decide) (by decide)).imp_right fun user => user.mpr <| .inl (by decide)

end Xv6Rv32im.Utils
