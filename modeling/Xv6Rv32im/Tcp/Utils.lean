import Mathlib.Data.BitVec
import Mathlib.Tactic.IntervalCases

/-!
# Byte order and random numbers

The parts of `utils.c` that the TCP code uses.
-/

namespace Xv6Rv32im.Tcp

def toggleEndian16 (v : BitVec 16) : BitVec 16 :=
  ((0xff#16 &&& v) <<< 8) ||| ((0xff00#16 &&& v) >>> 8)

def toggleEndian32 (v : BitVec 32) : BitVec 32 :=
  ((v &&& 0xff#32) <<< 24) ||| ((v &&& 0xff00#32) <<< 8) |||
    ((v &&& 0xff0000#32) >>> 8) ||| ((v &&& 0xff000000#32) >>> 24)

theorem toggleEndian16_twice (v : BitVec 16) : toggleEndian16 (toggleEndian16 v) = v := by
  unfold toggleEndian16
  ext i lt
  simp only [BitVec.getElem_or, BitVec.getElem_shiftLeft, BitVec.getElem_and,
    BitVec.getElem_ushiftRight]
  interval_cases i <;> simp

theorem toggleEndian32_twice (v : BitVec 32) : toggleEndian32 (toggleEndian32 v) = v := by
  unfold toggleEndian32
  ext i lt
  simp only [BitVec.getElem_or, BitVec.getElem_shiftLeft, BitVec.getElem_and,
    BitVec.getElem_ushiftRight]
  interval_cases i <;> simp

/-- One step of the random generator: the value returned and stored in `*ctx`. -/
def doRand (ctx : BitVec 32) : BitVec 32 :=
  let x : Int := (ctx.toNat % 0x7ffffffe : Nat) + 1
  let hi := x / 127773
  let lo := x % 127773
  let x := 16807 * lo - 2836 * hi
  let x := if x < 0 then x + 0x7fffffff else x
  BitVec.ofInt 32 (x - 1)

end Xv6Rv32im.Tcp
