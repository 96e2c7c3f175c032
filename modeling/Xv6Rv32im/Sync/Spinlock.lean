import Mathlib.Data.Fintype.Pi
import Xv6Rv32im.Library.Run

/-!
# Spinlocks

`spinlock.c` on harts whose loads and stores of the lock are single, sequentially
consistent steps.  `test_and_set` is a load and a later store, so two harts can both
find the lock free; the lock excludes if no hart loads it while another one that found
it free has not stored yet.
-/

namespace Xv6Rv32im.Sync

open Library.Run Function

abbrev NCPU : Nat := 2

/-- The calls of `panic` in `spinlock.c`. -/
inductive LockPanic where
  | acquire
  | release
  | popOffInterruptible
  | popOff
  deriving DecidableEq

/-- What a hart does next.  The first group is `acquire`, the second one `release`. -/
inductive LockPc where
  | outside
  | acquireHoldingLocked
  | acquireHoldingCpu
  | testLoad
  | testStore (old : BitVec 32)
  | storeCpu
  | critical
  | releaseHoldingLocked
  | releaseHoldingCpu
  | clearCpu
  | clearLocked
  | popOff
  deriving DecidableEq

/-- The hart has found the lock free and has not yet given it back. -/
def LockPc.Owns : LockPc → Prop
  | .testStore old => old = 0
  | .storeCpu | .critical | .releaseHoldingLocked | .releaseHoldingCpu | .clearCpu
  | .clearLocked => True
  | _ => False

/-- The fields of `struct cpu` that `push_off` and `pop_off` use, and whether the hart
takes interrupts.  No other hart touches them. -/
structure Cpu where
  noff : Nat
  intena : Bool
  intr : Bool
  deriving DecidableEq

def Cpu.pushOff (cpu : Cpu) : Cpu where
  noff := cpu.noff + 1
  intena := if cpu.noff = 0 then cpu.intr else cpu.intena
  intr := false

def Cpu.popOff (cpu : Cpu) : Except LockPanic Cpu :=
  if cpu.intr then .error .popOffInterruptible
  else if cpu.noff < 1 then .error .popOff
  else .ok { cpu with
      noff := cpu.noff - 1
      intr := cpu.noff - 1 = 0 ∧ cpu.intena }

structure LockState (n : Nat) where
  locked : BitVec 32
  cpu : Option (Fin n)
  cpus : Fin n → Cpu
  pc : Fin n → LockPc

namespace LockState

variable {n : Nat}

/-- `initlock`, with no hart in `acquire` or `release`. -/
def initlock (intr : Fin n → Bool) : LockState n where
  locked := 0
  cpu := none
  cpus := fun hart => ⟨0, false, intr hart⟩
  pc := fun _ => .outside

def setPc (s : LockState n) (hart : Fin n) (pc : LockPc) : LockState n :=
  { s with pc := update s.pc hart pc }

def setCpu (s : LockState n) (hart : Fin n) (cpu : Cpu) : LockState n :=
  { s with cpus := update s.cpus hart cpu }

/-- The next load or store of a hart.  Outside it calls `acquire`, and from the critical
section it calls `release`. -/
def step (s : LockState n) (hart : Fin n) : Except LockPanic (LockState n) :=
  match s.pc hart with
  | .outside =>
    .ok ((s.setCpu hart (s.cpus hart).pushOff).setPc hart .acquireHoldingLocked)
  | .acquireHoldingLocked =>
    .ok (s.setPc hart (if s.locked ≠ 0 then .acquireHoldingCpu else .testLoad))
  | .acquireHoldingCpu =>
    if s.cpu = some hart then .error .acquire else .ok (s.setPc hart .testLoad)
  | .testLoad => .ok (s.setPc hart (.testStore s.locked))
  | .testStore old =>
    .ok ({ s with locked := 1 }.setPc hart (if old ≠ 0 then .testLoad else .storeCpu))
  | .storeCpu => .ok ({ s with cpu := some hart }.setPc hart .critical)
  | .critical => .ok (s.setPc hart .releaseHoldingLocked)
  | .releaseHoldingLocked =>
    if s.locked ≠ 0 then .ok (s.setPc hart .releaseHoldingCpu) else .error .release
  | .releaseHoldingCpu =>
    if s.cpu = some hart then .ok (s.setPc hart .clearCpu) else .error .release
  | .clearCpu => .ok ({ s with cpu := none }.setPc hart .clearLocked)
  | .clearLocked => .ok ({ s with locked := 0 }.setPc hart .popOff)
  | .popOff =>
    match (s.cpus hart).popOff with
    | .error panic => .error panic
    | .ok cpu => .ok ((s.setCpu hart cpu).setPc hart .outside)

/-- No hart loads the lock in `test_and_set` while another one has found it free and has
not stored yet. -/
def TestAndSetAlone (s : LockState n) (hart : Fin n) : Prop :=
  s.pc hart = .testLoad → ∀ other, s.pc other ≠ .testStore 0

instance (s : LockState n) (hart : Fin n) : Decidable (s.TestAndSetAlone hart) :=
  inferInstanceAs (Decidable (_ → _))

/-- One hart at most owns the lock, and from its store on the lock is taken. -/
structure Exclusive (s : LockState n) : Prop where
  unique : ∀ first second, (s.pc first).Owns → (s.pc second).Owns → first = second
  taken : ∀ hart, (s.pc hart).Owns → s.pc hart ≠ .testStore 0 → s.locked ≠ 0

theorem exclusive_initlock (intr : Fin n → Bool) : (initlock intr).Exclusive where
  unique := fun _ _ owns => owns.elim
  taken := fun _ owns => owns.elim

variable {s s' : LockState n} {hart : Fin n} {pc : LockPc}

/-- Of two harts only the one that moves has another next step. -/
theorem pc_of_ne (moved : s'.pc = update s.pc hart pc) {other : Fin n}
    (ne : other ≠ hart) : s'.pc other = s.pc other := by
  rw [moved, update_of_ne ne]

section

variable (inv : s.Exclusive)

include inv

theorem Exclusive.moved (moved : s'.pc = update s.pc hart pc) (owned : pc.Owns → (s.pc hart).Owns)
    (taken : ∀ other, (s'.pc other).Owns → s'.pc other ≠ .testStore 0 → s'.locked ≠ 0) :
    s'.Exclusive := by
  have pre other (owns : (s'.pc other).Owns) : (s.pc other).Owns := by
    rcases eq_or_ne other hart with rfl | ne
    · rw [moved, update_self] at owns
      exact owned owns
    · rwa [pc_of_ne moved ne] at owns
  exact ⟨fun first second owns owns' => inv.unique first second (pre first owns)
    (pre second owns'), taken⟩

/-- A step that leaves the lock alone and makes no new owner. -/
theorem Exclusive.local (moved : s'.pc = update s.pc hart pc) (same : s'.locked = s.locked)
    (owned : pc.Owns → (s.pc hart).Owns ∧ s.pc hart ≠ .testStore 0) : s'.Exclusive := by
  refine inv.moved moved (fun owns => (owned owns).1) fun other owns stored => ?_
  rw [same]
  rcases eq_or_ne other hart with rfl | ne
  · rw [moved, update_self] at owns
    exact inv.taken other (owned owns).1 (owned owns).2
  · rw [pc_of_ne moved ne] at owns stored
    exact inv.taken other owns stored

theorem Exclusive.load (alone : ∀ other, s.pc other ≠ .testStore 0) :
    (s.setPc hart (.testStore s.locked)).Exclusive := by
  by_cases free : s.locked = 0
  · have nobody other : ¬(s.pc other).Owns := fun owns =>
      inv.taken other owns (alone other) free
    have only (other : Fin n) (owns : ((s.setPc hart (.testStore s.locked)).pc other).Owns) :
        other = hart := by
      by_contra ne
      rw [pc_of_ne rfl ne] at owns
      exact nobody other owns
    refine ⟨fun first second owns owns' => (only first owns).trans (only second owns').symm,
      fun other owns stored => absurd ?_ stored⟩
    obtain rfl := only other owns
    rw [← free]
    exact update_self ..
  · exact inv.local rfl rfl fun owns => absurd owns free

theorem Exclusive.store {old : BitVec 32} (here : s.pc hart = .testStore old) :
    ({ s with locked := 1 }.setPc hart (if old ≠ 0 then .testLoad else .storeCpu)).Exclusive := by
  refine inv.moved rfl (fun owns => ?_) fun _ _ _ =>
    (by decide : (1 : BitVec 32) ≠ 0)
  rw [here]
  by_contra busy
  rw [if_pos (show old ≠ 0 from busy)] at owns
  exact owns

theorem Exclusive.release (here : s.pc hart = .clearLocked) :
    ({ s with locked := 0 }.setPc hart .popOff).Exclusive := by
  refine inv.moved rfl (fun owns => owns.elim) fun other owns _ => ?_
  rcases eq_or_ne other hart with rfl | ne
  · change (update s.pc other .popOff other).Owns at owns
    rw [update_self] at owns
    exact owns.elim
  change (update s.pc hart .popOff other).Owns at owns
  rw [update_of_ne ne] at owns
  refine absurd (inv.unique other hart owns ?_) ne
  rw [here]
  exact trivial

theorem step_exclusive (alone : s.TestAndSetAlone hart) (stepped : s.step hart = .ok s') :
    s'.Exclusive := by
  unfold step at stepped
  split at stepped
  next here =>
    cases stepped
    exact inv.local rfl rfl fun owns => owns.elim
  next here =>
    cases stepped
    refine inv.local rfl rfl fun owns => ?_
    split at owns <;> exact owns.elim
  next here =>
    split at stepped
    · cases stepped
    · cases stepped
      exact inv.local rfl rfl fun owns => owns.elim
  next here =>
    cases stepped
    exact inv.load (alone here)
  next old here =>
    cases stepped
    exact inv.store here
  next here =>
    cases stepped
    exact inv.local rfl rfl fun _ => here ▸ ⟨trivial, nofun⟩
  next here =>
    cases stepped
    exact inv.local rfl rfl fun _ => here ▸ ⟨trivial, nofun⟩
  next here =>
    split at stepped
    · cases stepped
      exact inv.local rfl rfl fun _ => here ▸ ⟨trivial, nofun⟩
    · cases stepped
  next here =>
    split at stepped
    · cases stepped
      exact inv.local rfl rfl fun _ => here ▸ ⟨trivial, nofun⟩
    · cases stepped
  next here =>
    cases stepped
    exact inv.local rfl rfl fun _ => here ▸ ⟨trivial, nofun⟩
  next here =>
    cases stepped
    exact inv.release here
  next here =>
    split at stepped
    · cases stepped
    · cases stepped
      exact inv.local rfl rfl fun owns => owns.elim

end

/-- In every run in which no hart loads the lock between the load and the store of another
one that found it free, two harts are never in the critical section together. -/
theorem mutual_exclusion (intr : Fin n → Bool) (harts : List (Fin n))
    (alone : Meets step TestAndSetAlone (initlock intr) harts)
    (ran : run step (initlock intr) harts = .ok s) (first second : Fin n)
    (inside : s.pc first = .critical) (inside' : s.pc second = .critical) : first = second := by
  have inv : s.Exclusive :=
    run_invariant (fun _ _ _ inv alone stepped => step_exclusive inv alone stepped)
      (exclusive_initlock intr) alone ran
  refine inv.unique first second ?_ ?_
  · rw [inside]
    exact True.intro
  · rw [inside']
    exact True.intro

/-- Hart 0 takes the lock, hart 1 spins and gets it after hart 0 has released it. -/
theorem mutual_exclusion_handover : ∃ s : LockState NCPU, run step (initlock fun _ => true)
        [0, 0, 0, 0, 0, 1, 1, 1, 1, 1, 0, 0, 0, 0, 0, 0, 1, 1, 1] = .ok s ∧
      s.pc 0 = .outside ∧ s.pc 1 = .critical ∧
      ∀ hart, s.pc hart = .critical → hart = 1 := by
  have ends : (run step (initlock (n := NCPU) fun _ => true)
      [0, 0, 0, 0, 0, 1, 1, 1, 1, 1, 0, 0, 0, 0, 0, 0, 1, 1, 1]).map
        (fun s => (s.pc 0, s.pc 1)) = .ok (.outside, .critical) := by decide
  obtain ⟨s, ran, pcs⟩ := of_map_eq_ok ends
  obtain ⟨outside, inside⟩ := Prod.mk.inj pcs
  exact ⟨s, ran, outside, inside, fun hart critical =>
    mutual_exclusion _ _ (by decide) ran hart 1 critical inside⟩

/-- Both harts load the free lock before either of them stores. -/
theorem both_harts_enter :
    (run step (initlock (n := NCPU) fun _ => true) [0, 0, 0, 1, 1, 1, 0, 0, 1, 1]).map
      (fun s => (s.pc 0, s.pc 1)) = .ok (.critical, .critical) := by
  decide

end LockState

end Xv6Rv32im.Sync
