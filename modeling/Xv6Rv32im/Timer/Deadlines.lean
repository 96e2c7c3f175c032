import Mathlib.Data.BitVec

/-!
# The deadlines of the machine timer

`timerinit` of `start.c` and `timervec` of `kernelvec.S` on one hart.  Memory is a function on the
addresses of words.  Only the low words of `mtime` and `mtimecmp` are ever read or written, so the
deadline keeps its high word and falls back when the low word runs over.
-/

namespace Xv6Rv32im.Timer

open Function

abbrev NCPU : Nat := 2

def CLINT : BitVec 32 := 0x2000000

def clintMtimecmp (hartid : Fin NCPU) : BitVec 32 := CLINT + 0x4000 + 8 * BitVec.ofNat 32 hartid

def CLINT_MTIME : BitVec 32 := CLINT + 0xBFF8

def interval : BitVec 32 := 1000000

/-- Where the linker puts `timer_scratch`; the kernel's data lie in RAM. -/
structure Image where
  timerScratch : BitVec 32
  start : 0x80000000 ≤ timerScratch.toNat
  stop : timerScratch.toNat + NCPU * 5 * 4 ≤ 0x88000000

structure Hart where
  a0 : BitVec 32
  a1 : BitVec 32
  a2 : BitVec 32
  a3 : BitVec 32
  mscratch : BitVec 32
  sip : BitVec 32
  mem : BitVec 32 → BitVec 32

namespace Hart

def sw (h : Hart) (value addr : BitVec 32) : Hart := { h with mem := update h.mem addr value }

/-- `timervec`, an instruction a line. -/
def timervec (h : Hart) : Hart :=
  let h := { h with a0 := h.mscratch, mscratch := h.a0 }
  let h := h.sw h.a1 h.a0
  let h := h.sw h.a2 (h.a0 + 4)
  let h := h.sw h.a3 (h.a0 + 8)
  let h := { h with a1 := h.mem (h.a0 + 12) }
  let h := { h with a2 := h.mem (h.a0 + 16) }
  let h := { h with a3 := h.mem h.a1 }
  let h := { h with a3 := h.a3 + h.a2 }
  let h := h.sw h.a3 h.a1
  let h := { h with a1 := 2 }
  let h := { h with sip := h.a1 }
  let h := { h with a3 := h.mem (h.a0 + 8) }
  let h := { h with a2 := h.mem (h.a0 + 4) }
  let h := { h with a1 := h.mem h.a0 }
  { h with a0 := h.mscratch, mscratch := h.a0 }

end Hart

section

variable (image : Image) (id : Fin NCPU)

def scratch : BitVec 32 := image.timerScratch + 20 * BitVec.ofNat 32 id

/-- `timerinit`; the registers that enable interrupts are left out. -/
def timerinit (h : Hart) : Hart :=
  let h := h.sw (h.mem CLINT_MTIME + interval) (clintMtimecmp id)
  let h := h.sw (clintMtimecmp id) (scratch image id + 12)
  let h := h.sw interval (scratch image id + 16)
  { h with mscratch := scratch image id }

def deadline (h : Hart) : BitVec 64 := h.mem (clintMtimecmp id + 4) ++ h.mem (clintMtimecmp id)

/-- The other code on the hart leaves `mscratch`, `mtimecmp` and the scratch area alone. -/
structure Elsewhere (h h' : Hart) : Prop where
  mscratch : h'.mscratch = h.mscratch
  words : ∀ a ∈ [clintMtimecmp id, clintMtimecmp id + 4, scratch image id + 12,
    scratch image id + 16], h'.mem a = h.mem a

/-- The states after `timervec` has handled a number of interrupts. -/
inductive Handled (boot : Hart) : Nat → Hart → Prop where
  | boot : Handled boot 0 boot
  | elsewhere {k : Nat} {h h' : Hart} : Handled boot k h → Elsewhere image id h h' →
    Handled boot k h'
  | interrupt {k : Nat} {h : Hart} : Handled boot k h → Handled boot (k + 1) h.timervec

/-- The deadline is as many intervals after the first one as interrupts were handled, and the next
interrupt moves it into the future. -/
def KeepsPeriod (boot : Hart) (k : Nat) (h : Hart) : Prop :=
  (deadline id h).toNat = (deadline id boot).toNat + k * interval.toNat ∧
    deadline id h < deadline id h.timervec

/-- What `timervec` relies on, and the deadline it finds. -/
structure Armed (boot : Hart) (k : Nat) (h : Hart) : Prop where
  mscratch : h.mscratch = scratch image id
  address : h.mem (scratch image id + 12) = clintMtimecmp id
  length : h.mem (scratch image id + 16) = interval
  high : h.mem (clintMtimecmp id + 4) = boot.mem (clintMtimecmp id + 4)
  low : h.mem (clintMtimecmp id) = boot.mem (clintMtimecmp id) + BitVec.ofNat 32 k * interval

end

variable {image : Image} {id : Fin NCPU} {h boot : Hart} {k : Nat}

/-! ## Addresses -/

theorem clint_lt (id : Fin NCPU) : (clintMtimecmp id).toNat < 0x80000000 ∧
    (clintMtimecmp id + 4).toNat < 0x80000000 := by
  revert id
  decide

theorem scratch_ge (image : Image) (id : Fin NCPU) {i : BitVec 32} (lt : i.toNat < 20) :
    0x80000000 ≤ (scratch image id + i).toNat := by
  have below : id.val < 2 := id.isLt
  have start := image.start
  have stop : image.timerScratch.toNat + 2 * 5 * 4 ≤ 0x88000000 := image.stop
  have number : (BitVec.ofNat 32 id.val).toNat = id.val :=
    Nat.mod_eq_of_lt (below.trans (by decide))
  have offset : (20 * BitVec.ofNat 32 id.val).toNat = 20 * id.val := by
    rw [BitVec.toNat_mul_of_lt, number]
    · rfl
    · change 20 * _ < _
      omega
  have inner : (scratch image id).toNat = image.timerScratch.toNat + 20 * id.val := by
    rw [scratch, BitVec.toNat_add_of_lt (by omega), offset]
  rw [BitVec.toNat_add_of_lt (by omega), inner]
  omega

theorem scratch_ne {a i : BitVec 32} (low : a.toNat < 0x80000000) (lt : i.toNat < 20) :
    a ≠ scratch image id + i := by
  rintro rfl
  have high := scratch_ge image id lt
  omega

/-! ## Runs -/

def Hart.saved (h : Hart) : BitVec 32 → BitVec 32 :=
  update (update (update h.mem h.mscratch h.a1) (h.mscratch + 4) h.a2) (h.mscratch + 8) h.a3

theorem Hart.timervec_mem (h : Hart) : h.timervec.mem = update h.saved (h.saved (h.mscratch + 12))
      (h.saved (h.saved (h.mscratch + 12)) + h.saved (h.mscratch + 16)) :=
  rfl

theorem saved_low {a : BitVec 32} (at_ : h.mscratch = scratch image id)
    (low : a.toNat < 0x80000000) : h.saved a = h.mem a := by
  have first : a ≠ scratch image id + 0 := scratch_ne low (by decide)
  rw [show scratch image id + 0 = scratch image id from BitVec.add_zero _] at first
  rw [Hart.saved, at_, update_of_ne (scratch_ne low (by decide)),
    update_of_ne (scratch_ne low (by decide)), update_of_ne first]

theorem saved_above (h : Hart) : h.saved (h.mscratch + 12) = h.mem (h.mscratch + 12) ∧
    h.saved (h.mscratch + 16) = h.mem (h.mscratch + 16) := by
  constructor <;> simp [Hart.saved]

/-- `timervec` adds the interval to the low word. -/
theorem Armed.timervec (armed : Armed image id boot k h) :
    Armed image id boot (k + 1) h.timervec := by
  obtain ⟨mscratch, address, length, high, low⟩ := armed
  obtain ⟨clint, clintHigh⟩ := clint_lt id
  obtain ⟨above, above'⟩ := saved_above h
  have mem := h.timervec_mem
  rw [above, above', mscratch, address, length, saved_low mscratch clint, low] at mem
  rw [mscratch] at above above'
  refine ⟨mscratch, ?_, ?_, ?_, ?_⟩
  · rw [mem, update_of_ne (scratch_ne clint (by decide)).symm, above, address]
  · rw [mem, update_of_ne (scratch_ne clint (by decide)).symm, above', length]
  · rw [mem, update_of_ne (by simp), saved_low mscratch clintHigh, high]
  · rw [mem, update_self, BitVec.ofNat_add, BitVec.add_mul, BitVec.add_assoc]
    rfl

theorem Armed.elsewhere {h' : Hart} (armed : Armed image id boot k h)
    (other : Elsewhere image id h h') : Armed image id boot k h' := by
  obtain ⟨kept, words⟩ := other
  simp only [List.mem_cons, List.not_mem_nil, or_false, forall_eq_or_imp, forall_eq] at words
  obtain ⟨low, high, address, length⟩ := words
  exact ⟨kept.trans armed.mscratch, address.trans armed.address, length.trans armed.length,
    high.trans armed.high, low.trans armed.low⟩

theorem armed_timerinit (image : Image) (id : Fin NCPU) (h : Hart) :
    Armed image id (timerinit image id h) 0 (timerinit image id h) := by
  have differ : scratch image id + 12 ≠ scratch image id + 16 := by simp
  refine ⟨rfl, ?_, ?_, rfl, ?_⟩
  · exact (update_of_ne differ ..).trans (update_self ..)
  · exact update_self ..
  · rw [BitVec.zero_mul, BitVec.add_zero]

/-- What holds of the timer after every number of interrupts. -/
theorem Handled.armed (handled : Handled image id (timerinit image id boot) k h) :
    Armed image id (timerinit image id boot) k h := by
  induction handled with
  | boot => exact armed_timerinit image id boot
  | elsewhere _ other ih => exact ih.elsewhere other
  | interrupt _ ih => exact ih.timervec

theorem deadline_toNat (id : Fin NCPU) (h : Hart) : (deadline id h).toNat =
    (h.mem (clintMtimecmp id + 4)).toNat * 2 ^ 32 + (h.mem (clintMtimecmp id)).toNat := by
  rw [deadline, BitVec.toNat_append, ← Nat.shiftLeft_add_eq_or_of_lt (BitVec.isLt _),
    Nat.shiftLeft_eq]

theorem timerinit_low (image : Image) (id : Fin NCPU) (h : Hart) :
    (timerinit image id h).mem (clintMtimecmp id) = h.mem CLINT_MTIME + interval := by
  have clint := (clint_lt id).1
  rw [timerinit]
  simp only [Hart.sw]
  rw [update_of_ne (scratch_ne clint (by decide)), update_of_ne (scratch_ne clint (by decide)),
    update_self]

/-- The period is kept exactly as long as the low word of `mtimecmp` does not run over. -/
theorem keeps_period_iff (image : Image) (id : Fin NCPU) (k : Nat) {h₀ h : Hart}
    (handled : Handled image id (timerinit image id h₀) k h) :
    KeepsPeriod id (timerinit image id h₀) k h ↔
      (h₀.mem CLINT_MTIME + interval).toNat + (k + 1) * interval.toNat < 2 ^ 32 := by
  have armed := handled.armed
  have next := armed.timervec
  have length : interval.toNat = 1000000 := rfl
  have low (n : Nat) : (h₀.mem CLINT_MTIME + interval + BitVec.ofNat 32 n * interval).toNat =
      ((h₀.mem CLINT_MTIME + interval).toNat + n * 1000000) % 2 ^ 32 := by
    rw [BitVec.toNat_add, BitVec.toNat_mul, BitVec.toNat_ofNat, length, Nat.mod_mul_mod,
      Nat.add_mod_mod]
  have below := (h₀.mem CLINT_MTIME + interval).isLt
  rw [KeepsPeriod, BitVec.lt_def, deadline_toNat, deadline_toNat, deadline_toNat, armed.high,
    next.high, armed.low, next.low, timerinit_low, low, low, length]
  omega

/-- One interrupt after a boot at `mtime` zero. -/
theorem keeps_period_iff_first : ∃ (image : Image) (h₀ h : Hart),
    Handled image 0 (timerinit image 0 h₀) 1 h ∧ KeepsPeriod 0 (timerinit image 0 h₀) 1 h := by
  let image : Image := ⟨0x80010000, by decide, by decide⟩
  let h₀ : Hart := ⟨0, 0, 0, 0, 0, 0, fun _ => 0⟩
  have handled : Handled image 0 (timerinit image 0 h₀) 1 (timerinit image 0 h₀).timervec :=
    .interrupt .boot
  exact ⟨image, h₀, _, handled, (keeps_period_iff image 0 1 handled).mpr (by decide)⟩

/-- The low word of `mtime` is close to its end at boot: the first interrupt moves the deadline
back. -/
theorem deadline_falls_back : ∃ (image : Image) (h₀ h : Hart),
    Handled image 0 (timerinit image 0 h₀) 1 h ∧ ¬KeepsPeriod 0 (timerinit image 0 h₀) 1 h ∧
      deadline 0 h < deadline 0 (timerinit image 0 h₀) := by
  refine ⟨⟨0x80010000, by decide, by decide⟩, ⟨0, 0, 0, 0, 0, 0, fun a =>
    if a = CLINT_MTIME then 0xfff00000 else 0⟩, _, .interrupt .boot, ?_, ?_⟩
  · unfold KeepsPeriod
    decide
  · decide

end Xv6Rv32im.Timer
