import Mathlib.Data.BitVec

/-!
# 32-bit words in byte memory

Little-endian words stored in a function from offsets to bytes.
-/

namespace Xv6Rv32im.Library.ByteWords

abbrev Bytes := Nat → BitVec 8

def load32 (m : Bytes) (offset : Nat) : BitVec 32 :=
  m (offset + 3) ++ m (offset + 2) ++ m (offset + 1) ++ m offset

def store32 (m : Bytes) (offset : Nat) (word : BitVec 32) : Bytes := fun k =>
  if k = offset then word.extractLsb' 0 8
  else if k = offset + 1 then word.extractLsb' 8 8
  else if k = offset + 2 then word.extractLsb' 16 8
  else if k = offset + 3 then word.extractLsb' 24 8
  else m k

theorem concat_extract (word : BitVec 32) :
    word.extractLsb' 24 8 ++ word.extractLsb' 16 8 ++ word.extractLsb' 8 8 ++
      word.extractLsb' 0 8 = word := by
  ext i lt
  simp only [BitVec.getElem_append, BitVec.getElem_extractLsb']
  grind

@[simp] theorem load32_store32_self (m : Bytes) (offset : Nat) (word : BitVec 32) :
    load32 (store32 m offset word) offset = word := by
  simp [load32, store32, concat_extract]

theorem load32_congr {m m' : Bytes} {offset : Nat}
    (same : ∀ k, offset ≤ k → k < offset + 4 → m' k = m k) :
    load32 m' offset = load32 m offset := by
  unfold load32
  rw [same offset (by omega) (by omega), same (offset + 1) (by omega) (by omega),
    same (offset + 2) (by omega) (by omega), same (offset + 3) (by omega) (by omega)]

theorem load32_store32_of_ne (m : Bytes) {offset offset' : Nat} (word : BitVec 32)
    (apart : offset' + 4 ≤ offset ∨ offset + 4 ≤ offset') :
    load32 (store32 m offset word) offset' = load32 m offset' := by
  refine load32_congr fun k above below => ?_
  unfold store32
  rw [if_neg (by omega), if_neg (by omega), if_neg (by omega), if_neg (by omega)]

theorem load32_store32_array (m : Bytes) (i j : Nat) (word : BitVec 32) :
    load32 (store32 m (4 * i) word) (4 * j) = if j = i then word else load32 m (4 * j) := by
  by_cases same : j = i
  · rw [same, if_pos rfl, load32_store32_self]
  · rw [if_neg same, load32_store32_of_ne m word (by omega)]

@[simp] theorem load32_zero (offset : Nat) : load32 (fun _ => 0) offset = 0 := by
  simp only [load32]
  decide

end Xv6Rv32im.Library.ByteWords
