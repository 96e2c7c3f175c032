import Mathlib.Data.BitVec
import Xv6Rv32im.Library.Monitor

/-!
# Sleep-locks

`acquiresleep` and `releasesleep` under the spinlock of the sleep-lock.  A process is known by
its pid.  Who has returned from `acquiresleep` and not yet called `releasesleep` is recorded.
-/

namespace Xv6Rv32im.Sync

open Library.Monitor

structure Sleeplock where
  locked : Bool
  pid : BitVec 32
  holders : List (BitVec 32)

namespace Sleeplock

def initsleeplock : Sleeplock := ⟨false, 0, []⟩

def holdingsleep (lk : Sleeplock) (p : BitVec 32) : Bool := lk.locked && lk.pid == p

/-- `acquiresleep`, until it sleeps or returns. -/
def acquiresleep (p : BitVec 32) (lk : Sleeplock) : Piece Sleeplock Unit :=
  if lk.locked then ⟨lk, false, some ()⟩ else ⟨⟨true, p, p :: lk.holders⟩, false, none⟩

def releasesleep (p : BitVec 32) (lk : Sleeplock) : Sleeplock := ⟨false, 0, lk.holders.erase p⟩

def ops : Ops (BitVec 32) Sleeplock Unit Unit (BitVec 32) where
  serve p _ _ := acquiresleep p
  handle p lk := (lk.releasesleep p, true)

/-- The lock tells who holds it. -/
def Owned (lk : Sleeplock) : Prop := lk.holders = if lk.locked then [lk.pid] else []

theorem rules : Rules ops (fun p lk => p ∈ lk.holders) Owned (·.locked = true) where
  serve p _ _ lk owned := by
    simp only [ops, acquiresleep]
    split_ifs with locked
    · exact owned
    · simpa [Owned, locked] using owned
  handle p lk owned holds := by
    rw [owned] at holds
    cases locked : lk.locked with
    | true => simp_all [Owned, ops, releasesleep]
    | false => simp [locked] at holds
  sleeps p _ _ lk _ sleeps := by
    simp only [ops, acquiresleep] at sleeps ⊢
    split_ifs at sleeps ⊢ with locked
    · exact locked
    · exact absurd rfl sleeps
  served p _ _ lk _ locked _ := by
    simp only [ops, acquiresleep, if_pos locked]
    exact locked
  handled p lk _ _ quiet := nomatch quiet

/-- As long as only who holds the sleep-lock releases it, in any interleaving at most one process
holds it, `holdingsleep` tells each process whether it is the one, who calls `acquiresleep` while no
one holds the lock gets it, and a process sleeps there only while the lock is held. -/
theorem sleeplock_excludes {events : List (Event (BitVec 32) Unit Unit (BitVec 32))}
    (disciplined : ∀ before p after, events = before ++ .handle p :: after →
      p ∈ (State.run ops initsleeplock before).data.holders) :
    let s := State.run ops initsleeplock events
    s.data.holders.length ≤ 1 ∧ (∀ p, s.data.holdingsleep p = true ↔ p ∈ s.data.holders) ∧
      (∀ p, s.callers p = .idle → s.data.holders = [] →
        (s.step ops (.call p () ())).data.holders = [p]) ∧
      ∀ p call, s.callers p = .asleep call → ∃ q, s.data.holders = [q] := by
  have keeps := run_keeps rules (show Owned initsleeplock from rfl) disciplined
  generalize State.run ops initsleeplock events = s at keeps ⊢
  have owned : s.data.holders = if s.data.locked then [s.data.pid] else [] := keeps.data
  dsimp only
  cases locked : s.data.locked with
  | true =>
    rw [locked, if_pos rfl] at owned
    refine ⟨by simp [owned], fun p => ?_, fun p _ empty => ?_, fun _ _ _ => ⟨_, owned⟩⟩
    · simpa [owned, holdingsleep, locked] using eq_comm
    · cases owned.symm.trans empty
  | false =>
    rw [locked, if_neg Bool.false_ne_true] at owned
    refine ⟨by simp [owned], fun p => ?_, fun p idle _ => ?_, fun p call asleep => ?_⟩
    · simp [holdingsleep, locked, owned]
    · simp [State.step, idle, State.serve, ops, acquiresleep, locked, owned]
    · cases locked.symm.trans (keeps.asleep p call asleep)

/-- One process waits until another one releases the lock. -/
theorem sleeplock_excludes_two :
    let s := State.run ops initsleeplock [.call 1 () (), .call 2 () (), .handle 1, .resume 2 ()]
    s.data.holders = [2] ∧ s.data.holdingsleep 2 = true := by
  refine ⟨by decide, ((sleeplock_excludes ?_).2.1 2).mpr (by decide)⟩
  rintro (_ | ⟨_, _ | ⟨_, _ | ⟨_, _ | ⟨_, before⟩⟩⟩⟩) p after same <;> simp at same
  obtain ⟨rfl, rfl, rfl, -⟩ := same
  decide

end Sleeplock

end Xv6Rv32im.Sync
