import Mathlib.Data.Int.ModEq
import Mathlib.Dynamics.PeriodicPts.Lemmas
import Xv6Rv32im.Tcp.Utils

/-!
# The random generator of `utils.c`
-/

namespace Xv6Rv32im.Tcp

open Function

/-- The value of a `long` expression, if it does not overflow. -/
def longValue (x : Int) : Option Int :=
  if -0x80000000 ≤ x ∧ x < 0x80000000 then some x else none

/-- `do_rand` with its overflows: `x` is positive, where C and Lean divide alike. -/
def checkedRand (ctx : BitVec 32) : Option (BitVec 32) := do
  let x ← longValue (ctx % 0x7ffffffe + 1).toNat
  let hi := x / 127773
  let lo := x % 127773
  let x ← longValue ((← longValue (16807 * lo)) - (← longValue (2836 * hi)))
  let x ← if x < 0 then longValue (x + 0x7fffffff) else some x
  return BitVec.ofInt 32 (← longValue (x - 1))

/-- The product modulo `2 ^ 31 - 1`, which is never 0, shifted to begin at 0. -/
def lehmer (ctx : Nat) : Nat := 16807 * (ctx % 0x7ffffffe + 1) % 0x7fffffff - 1

theorem longValue_bind {x : Int} {f : Int → Option (BitVec 32)} {y : Option (BitVec 32)}
    (fits : -0x80000000 ≤ x ∧ x < 0x80000000) (rest : f x = y) : (longValue x).bind f = y := by
  rw [longValue, if_pos fits, Option.bind_some, rest]

theorem checkedRand_eq (ctx : BitVec 32) : checkedRand ctx = some (doRand ctx) := by
  have start : (ctx % 0x7ffffffe + 1).toNat = ctx.toNat % 0x7ffffffe + 1 := by
    rw [BitVec.toNat_add, BitVec.toNat_umod]
    simp
    omega
  unfold checkedRand doRand
  rw [start]
  refine longValue_bind (by omega) (longValue_bind (by omega) ?_)
  refine longValue_bind (by omega) (longValue_bind (by omega) ?_)
  dsimp only
  rw [Nat.cast_add_one]
  split
  next => exact longValue_bind (by omega) (longValue_bind (by omega) rfl)
  next => exact longValue_bind (by omega) rfl

theorem doRand_eq (ctx : BitVec 32) : doRand ctx = BitVec.ofNat 32 (lehmer ctx.toNat) := by
  unfold doRand lehmer
  generalize isX : ctx.toNat % 0x7ffffffe = x
  have below : x < 0x7ffffffe := by omega
  clear isX
  rw [← BitVec.ofInt_natCast]
  refine congrArg (BitVec.ofInt 32) ?_
  split <;> omega

theorem lehmer_lt (ctx : Nat) : lehmer ctx < 0x7ffffffe := by
  unfold lehmer
  omega

theorem lehmer_injective {x y : Nat} (low : x < 0x7ffffffe) (high : y < 0x7ffffffe)
    (same : lehmer x = lehmer y) : x = y := by
  have prime : Nat.gcd 0x7fffffff 16807 = 1 := by decide
  have positive (z : Nat) : 0 < 16807 * (z % 0x7ffffffe + 1) % 0x7fffffff := by omega
  have product : Nat.ModEq 0x7fffffff (16807 * (x % 0x7ffffffe + 1))
      (16807 * (y % 0x7ffffffe + 1)) := Nat.sub_one_cancel (positive x) (positive y) same
  have equal := (Nat.ModEq.cancel_left_of_coprime prime product).eq_of_lt_of_lt
    (by omega) (by omega)
  omega

def randStep (x : Fin 0x7ffffffe) : Fin 0x7ffffffe := ⟨lehmer x.val, lehmer_lt x.val⟩

theorem randStep_injective : Injective randStep := by
  intro x y same
  unfold randStep at same
  exact Fin.ext (lehmer_injective x.isLt y.isLt (Fin.mk.inj same))

theorem toNat_number (x : Fin 0x7ffffffe) : (BitVec.ofNat 32 x.val).toNat = x.val :=
  Nat.mod_eq_of_lt (by omega)

theorem iterate_doRand (x : Fin 0x7ffffffe) (k : Nat) :
    doRand^[k] (BitVec.ofNat 32 x.val) = BitVec.ofNat 32 (randStep^[k] x).val := by
  induction k with
  | zero => rfl
  | succ k same =>
    rw [iterate_succ_apply', same, doRand_eq, toNat_number, iterate_succ_apply', randStep]

/-- No call overflows, the numbers are those of the Lehmer generator, and from every seed the
generator returns to that seed before any other number comes twice. -/
theorem rand_is_lehmer :
    (∀ ctx, checkedRand ctx = some (doRand ctx) ∧
      doRand ctx = BitVec.ofNat 32 (lehmer ctx.toNat) ∧ lehmer ctx.toNat ≤ 2 ^ 31 - 3) ∧
    Bijective randStep ∧
    ∀ x : Fin 0x7ffffffe, ∃ period, 0 < period ∧
      doRand^[period] (BitVec.ofNat 32 x.val) = BitVec.ofNat 32 x.val ∧
      Set.InjOn (doRand^[·] (BitVec.ofNat 32 x.val)) (Set.Iio period) := by
  refine ⟨fun ctx => ⟨checkedRand_eq ctx, doRand_eq ctx, Nat.le_of_lt_succ (lehmer_lt _)⟩,
    Finite.injective_iff_bijective.mp randStep_injective, fun x => ?_⟩
  refine ⟨minimalPeriod randStep x, minimalPeriod_pos_of_mem_periodicPts
    (randStep_injective.mem_periodicPts x), ?_, ?_⟩
  · rw [iterate_doRand, iterate_minimalPeriod]
  · intro i below j above same
    simp only [iterate_doRand] at same
    have numbers := congrArg BitVec.toNat same
    rw [toNat_number, toNat_number] at numbers
    exact iterate_injOn_Iio_minimalPeriod below above (Fin.ext numbers)

end Xv6Rv32im.Tcp
