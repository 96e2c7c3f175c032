import Xv6Rv32im.Library.ByteWords

/-!
# Addresses and page-table entries

The macros of `riscv.h` and `memlayout.h` that the virtual memory code uses, and
what they compute.
-/

namespace Xv6Rv32im.Vm

open BitVec

def PGSIZE : Nat := 4096

def pgRoundUp (sz : BitVec 32) : BitVec 32 := (sz + 4096 - 1) &&& ~~~(4096 - 1 : BitVec 32)

def pgRoundDown (a : BitVec 32) : BitVec 32 := a &&& ~~~(4096 - 1 : BitVec 32)

def PTE_V : BitVec 32 := 1
def PTE_R : BitVec 32 := 2
def PTE_W : BitVec 32 := 4
def PTE_X : BitVec 32 := 8
def PTE_U : BitVec 32 := 16

def pa2pte (pa : BitVec 32) : BitVec 32 := (pa >>> 12) <<< 10

def pte2pa (pte : BitVec 32) : BitVec 32 := (pte >>> 10) <<< 12

def pteFlags (pte : BitVec 32) : BitVec 32 := pte &&& 0x3ff

def px (level : Nat) (va : BitVec 32) : Nat := ((va >>> (12 + 10 * level)) &&& 0x3ff).toNat

def MAXVA : BitVec 32 := 0xffffffff
def TRAMPOLINE : BitVec 32 := MAXVA - 4096 + 1
def TRAPFRAME : BitVec 32 := TRAMPOLINE - 4096

def KERNBASE : BitVec 32 := 0x80000000
def PHYSTOP : BitVec 32 := KERNBASE + 128 * 1024 * 1024

/-! ## Rounding -/

theorem mask_bit (i : Nat) : (~~~(4096 - 1 : BitVec 32)).getLsbD i = decide (12 ≤ i ∧ i < 32) := by
  by_cases lt : i < 32
  · have bits : ∀ i : Fin 32, (~~~(4096 - 1 : BitVec 32)).getLsbD i =
        decide (12 ≤ i.val ∧ i.val < 32) := by
      decide
    exact bits ⟨i, lt⟩
  · rw [getLsbD_of_ge _ _ (Nat.le_of_not_lt lt)]
    simp [lt]

theorem mask_toNat (a : BitVec 32) :
    (a &&& ~~~(4096 - 1 : BitVec 32)).toNat = a.toNat / 4096 * 4096 := by
  have shifted : a &&& ~~~(4096 - 1 : BitVec 32) = (a >>> 12) <<< 12 := by
    refine eq_of_getLsbD_eq fun i lt => ?_
    rw [getLsbD_and, mask_bit, getLsbD_shiftLeft, getLsbD_ushiftRight]
    by_cases low : i < 12
    · simp [low]
    · rw [show 12 + (i - 12) = i by omega]
      simp [lt, low, Nat.le_of_not_lt low]
  rw [shifted]
  simp only [toNat_shiftLeft, toNat_ushiftRight, Nat.shiftLeft_eq, Nat.shiftRight_eq_div_pow]
  have := a.isLt
  omega

theorem pgRoundDown_toNat (a : BitVec 32) : (pgRoundDown a).toNat = a.toNat / 4096 * 4096 :=
  mask_toNat a

def pages (sz : BitVec 32) : Nat := (sz.toNat + 4095) / 4096

theorem pgRoundUp_toNat {sz : BitVec 32} (small : sz.toNat + 4095 < 2 ^ 32) :
    (pgRoundUp sz).toNat = pages sz * 4096 := by
  unfold pgRoundUp pages
  rw [mask_toNat]
  have sum : (sz + 4096 - 1).toNat = sz.toNat + 4095 := by
    bv_omega
  rw [sum]

/-! ## Indices -/

theorem px_one (va : BitVec 32) : px 1 va = va.toNat / 4096 / 1024 := by
  unfold px
  simp only [toNat_and, toNat_ushiftRight, Nat.shiftRight_eq_div_pow]
  rw [show (0x3ff : BitVec 32).toNat = 2 ^ 10 - 1 from rfl, Nat.and_two_pow_sub_one_eq_mod]
  have := va.isLt
  omega

theorem px_zero (va : BitVec 32) : px 0 va = va.toNat / 4096 % 1024 := by
  unfold px
  simp only [toNat_and, toNat_ushiftRight, Nat.shiftRight_eq_div_pow]
  rw [show (0x3ff : BitVec 32).toNat = 2 ^ 10 - 1 from rfl, Nat.and_two_pow_sub_one_eq_mod]

/-! ## Entries -/

def Aligned (pa : BitVec 32) : Prop := pa.toNat % 4096 = 0

instance (pa : BitVec 32) : Decidable (Aligned pa) :=
  inferInstanceAs (Decidable (_ = _))

def IsFlags (flags : BitVec 32) : Prop := flags &&& 0x3ff = flags

instance (flags : BitVec 32) : Decidable (IsFlags flags) :=
  inferInstanceAs (Decidable (_ = _))

theorem flagMask_bit (i : Nat) : (0x3ff : BitVec 32).getLsbD i = decide (i < 10) := by
  by_cases lt : i < 32
  · have bits : ∀ i : Fin 32, (0x3ff : BitVec 32).getLsbD i = decide (i.val < 10) := by decide
    exact bits ⟨i, lt⟩
  · rw [getLsbD_of_ge _ _ (Nat.le_of_not_lt lt)]
    exact (decide_eq_false (by omega)).symm

theorem IsFlags.bit {flags : BitVec 32} (isFlags : IsFlags flags) {i : Nat} (high : 10 ≤ i) :
    flags.getLsbD i = false := by
  rw [← isFlags, getLsbD_and, flagMask_bit, decide_eq_false (by omega), Bool.and_false]

theorem IsFlags.of_bit {flags : BitVec 32} (bits : ∀ i, 10 ≤ i → flags.getLsbD i = false) :
    IsFlags flags := by
  refine eq_of_getLsbD_eq fun i _ => ?_
  rw [getLsbD_and, flagMask_bit]
  by_cases low : i < 10
  · simp [low]
  · simp [low, bits i (Nat.le_of_not_lt low)]

theorem aligned_bit {pa : BitVec 32} (aligned : Aligned pa) {i : Nat} (low : i < 12) :
    pa.getLsbD i = false := by
  have bits := Nat.testBit_mod_two_pow pa.toNat 12 i
  rw [show pa.toNat % 2 ^ 12 = 0 from aligned, Nat.zero_testBit, decide_eq_true low,
    Bool.true_and] at bits
  exact bits.symm

theorem pa2pte_bit (pa : BitVec 32) (i : Nat) :
    (pa2pte pa).getLsbD i = (decide (10 ≤ i ∧ i < 32) && pa.getLsbD (i + 2)) := by
  unfold pa2pte
  rw [getLsbD_shiftLeft, getLsbD_ushiftRight]
  by_cases low : i < 10
  · simp [low]
  · rw [show 12 + (i - 10) = i + 2 by omega]
    simp [low, Nat.le_of_not_lt low]

theorem pte2pa_entry {pa flags : BitVec 32} (aligned : Aligned pa) (isFlags : IsFlags flags) :
    pte2pa (pa2pte pa ||| flags) = pa := by
  refine eq_of_getLsbD_eq fun i lt => ?_
  unfold pte2pa
  rw [getLsbD_shiftLeft, getLsbD_ushiftRight, getLsbD_or, pa2pte_bit]
  by_cases low : i < 12
  · simp [low, aligned_bit aligned low]
  · rw [isFlags.bit (by omega), show 10 + (i - 12) + 2 = i by omega]
    simp [low, lt]
    omega

theorem entry_and {pa flags mask : BitVec 32} (isMask : IsFlags mask) :
    (pa2pte pa ||| flags) &&& mask = flags &&& mask := by
  refine eq_of_getLsbD_eq fun i _ => ?_
  rw [getLsbD_and, getLsbD_and, getLsbD_or, pa2pte_bit]
  by_cases low : i < 10
  · simp [Nat.not_le.mpr low]
  · simp [isMask.bit (Nat.le_of_not_lt low)]

theorem pteFlags_entry {pa flags : BitVec 32} (isFlags : IsFlags flags) :
    pteFlags (pa2pte pa ||| flags) = flags := by
  unfold pteFlags
  rw [entry_and (by decide : IsFlags 0x3ff)]
  exact isFlags

theorem entry_clear {pa flags mask : BitVec 32} (isMask : IsFlags mask) :
    (pa2pte pa ||| flags) &&& ~~~mask = pa2pte pa ||| (flags &&& ~~~mask) := by
  refine eq_of_getLsbD_eq fun i lt => ?_
  simp only [getLsbD_and, getLsbD_or, getLsbD_not, pa2pte_bit]
  by_cases low : i < 10
  · simp [Nat.not_le.mpr low]
  · rw [isMask.bit (Nat.le_of_not_lt low)]
    simp [lt]

theorem IsFlags.or {a b : BitVec 32} (first : IsFlags a) (second : IsFlags b) : IsFlags (a ||| b) :=
  .of_bit fun i high => by rw [getLsbD_or, first.bit high, second.bit high]; rfl

theorem IsFlags.and_left {a : BitVec 32} (isFlags : IsFlags a) (b : BitVec 32) :
    IsFlags (a &&& b) :=
  .of_bit fun i high => by rw [getLsbD_and, isFlags.bit high, Bool.false_and]

end Xv6Rv32im.Vm
