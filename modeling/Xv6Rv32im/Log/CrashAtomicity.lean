import Xv6Rv32im.Log.Commit

/-!
# Crash atomicity

A run of transactions is cut after any prefix of its block writes and recovered
by any number of attempts, each of which may be cut short in turn.  The home
blocks end up as after the transactions whose header write reached the disk.
-/

namespace Xv6Rv32im.Log

open Library.WriteSequence List

namespace Machine

/-- The transactions that issue writes at all. -/
def effective (transactions : List Transaction) : List Transaction :=
  transactions.filter fun updates => !updates.isEmpty

/-- The contents after the first `count` transactions that issue writes. -/
def contentsAfter (disk : Nat → Block) (transactions : List Transaction) (count : Nat) :
    Nat → Block :=
  applyWrites disk ((effective transactions).take count).flatten

variable {updates : Transaction}

theorem effective_cons (nonempty : updates ≠ []) (rest : List Transaction) :
    effective (updates :: rest) = updates :: effective rest := by
  cases updates with
  | nil => exact absurd rfl nonempty
  | cons first others => rfl

theorem contentsAfter_zero (disk : Nat → Block) (transactions : List Transaction) :
    contentsAfter disk transactions 0 = disk := by
  rw [contentsAfter, take_zero, flatten_nil, applyWrites_nil]

theorem contentsAfter_succ (nonempty : updates ≠ []) (disk : Nat → Block) (rest : List Transaction)
    (count : Nat) :
    contentsAfter disk (updates :: rest) (count + 1) =
      contentsAfter (applyWrites disk updates) rest count := by
  rw [contentsAfter, contentsAfter, effective_cons nonempty, take_succ_cons,
    flatten_cons, applyWrites_append]

/-- A completed transaction leaves its updates in their home blocks. -/
theorem Ran.home {start size : Nat} {m result : Machine} {writes : List (Nat × Block)}
    (ran : Ran start size m updates writes result) :
    Set.EqOn result.disk (applyWrites m.disk updates) (homeArea start size) := by
  have clean := ran.idle.clean
  rw [ran.disk] at clean ⊢
  have whole := ran.crash writes.length
  rw [take_length] at whole
  rcases whole with ⟨zero, repr⟩ | ⟨-, -, repr⟩
  · have empty : updates = [] := by
      by_contra nonempty
      have one := ran.whole
      rw [zero, if_neg nonempty] at one
      cases one
    rw [empty]
    exact repr.home_of_clean clean
  · exact repr.home_of_clean clean

def Fits (size : Nat) (transactions : List Transaction) : Prop :=
  ∀ updates ∈ transactions, updates.length ≤ LOGSIZE ∧ updates.length ≤ size - 1

/-- The writes of a run, and what the disk represents after any prefix of them. -/
theorem runTransactions_crash {start size : Nat} {m : Machine} {transactions : List Transaction}
    (idle : Idle start size m)
    (outside : ∀ updates ∈ transactions, HomeUpdates start size updates) :
    ∃ writes, (m.runTransactions transactions).writes = m.writes ++ writes ∧
      (∀ count, Represents start size
        (contentsAfter m.disk transactions (commitRecords start (writes.take count)))
        (applyWrites m.disk (writes.take count))) ∧
      (Fits size transactions → commitRecords start writes = (effective transactions).length) := by
  induction transactions generalizing m with
  | nil =>
    refine ⟨[], (append_nil _).symm, ?_, fun _ => rfl⟩
    intro count
    rw [take_nil, contentsAfter]
    exact Represents.of_clean idle.clean (Set.eqOn_refl _ _)
  | cons updates rest ih =>
    cases stepped : m.transaction updates with
    | none =>
      refine ⟨[], ?_, ?_, ?_⟩
      · rw [runTransactions, stepped, append_nil]
      · intro count
        rw [take_nil]
        change Represents start size (contentsAfter m.disk (updates :: rest) 0) m.disk
        rw [contentsAfter_zero]
        exact Represents.of_clean idle.clean (Set.eqOn_refl _ _)
      intro fits
      obtain ⟨small, room⟩ := fits updates mem_cons_self
      obtain ⟨result, completes⟩ :=
        transaction_isSome idle (outside updates mem_cons_self) small room
      rw [stepped] at completes
      cases completes
    | some result =>
      obtain ⟨first, ran⟩ := transaction_ran idle (outside updates mem_cons_self) stepped
      obtain ⟨second, writes, later, all⟩ := ih ran.idle
        (fun other mem => outside other (mem_cons_of_mem _ mem))
      refine ⟨first ++ second, ?_, ?_, ?_⟩
      · rw [runTransactions, stepped, ← append_assoc, ← ran.writes_eq]
        exact writes
      · intro count
        rw [take_append]
        by_cases short : count ≤ first.length
        · -- The crash falls inside this transaction.
          rw [Nat.sub_eq_zero_of_le short, take_zero, append_nil]
          rcases ran.crash count with ⟨zero, old⟩ | ⟨one, nonempty, new⟩
          · rw [zero, contentsAfter_zero]
            exact old
          · rw [one, contentsAfter_succ nonempty, contentsAfter_zero]
            exact new
        · -- This transaction is complete; the crash falls into a later one.
          rw [take_of_length_le (Nat.le_of_not_le short), commitRecords_append,
            applyWrites_append, ← ran.disk, ran.whole]
          have repr := later (count - first.length)
          by_cases empty : updates = []
          · have same := ran.home
            rw [empty] at same
            rw [if_pos empty, Nat.zero_add, empty]
            exact repr.contents_congr (applyWrites_eqOn _ same)
          · rw [if_neg empty, Nat.add_comm, contentsAfter_succ empty]
            exact repr.contents_congr (applyWrites_eqOn _ ran.home)
      · intro fits
        have counted := all (fun other mem => fits other (mem_cons_of_mem _ mem))
        rw [commitRecords_append, ran.whole, counted]
        by_cases empty : updates = []
        · rw [if_pos empty, empty, Nat.zero_add]
          rfl
        · rw [if_neg empty, effective_cons empty, length_cons, Nat.add_comm]

/-- Crash atomicity of the redo log.  The machine boots on a disk with an empty
log and runs any transactions.  After a crash that lets `count` block writes
through, any number of recovery attempts that crash after the given numbers of
writes, and a recovery that completes, the home blocks hold the updates of
exactly the transactions whose header write reached the disk.  Transactions
that fit the log all get that far when nothing crashes. -/
theorem crash_atomicity (start size : Nat) (disk : Nat → Block) (transactions : List Transaction)
    (clean : (disk start 0).toInt = 0)
    (outside : ∀ updates ∈ transactions, HomeUpdates start size updates) :
    (∀ (count : Nat) (attempts : List Nat),
      let issued := ((initlog disk start size).runTransactions transactions).writes.take count
      let crashed := applyWrites disk issued
      ∀ blockno ∈ homeArea start size,
        (initlog (attempts.foldl (crashedRecovery start size) crashed) start size).disk blockno =
          contentsAfter disk transactions (commitRecords start issued) blockno) ∧
    (Fits size transactions →
      commitRecords start ((initlog disk start size).runTransactions transactions).writes =
        (effective transactions).length) := by
  have fresh : Represents start size disk disk :=
    Represents.of_clean clean (Set.eqOn_refl _ _)
  obtain ⟨header, cleared, boot, disk_eq, idle⟩ := initlog_spec fresh
  obtain ⟨writes, run, crash, all⟩ := runTransactions_crash idle outside
  have quiet : commitRecords start (initlog disk start size).writes = 0 := by
    rw [boot, pending_of_clean clean]
    exact commitRecords_clear cleared
  refine ⟨?_, ?_⟩
  · intro count attempts issued crashed
    have represents : Represents start size
        (contentsAfter disk transactions (commitRecords start issued)) crashed := by
      have issued_eq : issued = ((initlog disk start size).writes ++ writes).take count :=
        congrArg (List.take count) run
      change Represents start size _ (applyWrites disk issued)
      rw [issued_eq, take_append]
      by_cases booting : count ≤ (initlog disk start size).writes.length
      · have none : commitRecords start ((initlog disk start size).writes.take count) = 0 := by
          rw [commitRecords, countP_eq_zero] at quiet ⊢
          exact fun write member => quiet write (mem_of_mem_take member)
        rw [Nat.sub_eq_zero_of_le booting, take_zero, append_nil, none, contentsAfter_zero]
        exact initlog_throughout fresh count
      · rw [take_of_length_le (Nat.le_of_not_le booting), commitRecords_append, quiet,
          Nat.zero_add, applyWrites_append, ← disk_eq]
        exact (crash _).contents_congr (applyWrites_eqOn _ (initlog_home fresh))
    exact initlog_home (crashedRecoveries_represents represents attempts)
  · intro fits
    rw [run, commitRecords_append, quiet, Nat.zero_add]
    exact all fits

/-- A log of thirty blocks from block 2 on, one transaction on blocks 40 and 41,
a crash after its header write and one crashed recovery. -/
theorem crash_atomicity_two_blocks : (let issued := ((initlog (fun _ _ => 0) 2 30).runTransactions
        [[(40, fun _ => 7), (41, fun _ => 9)]]).writes.take 4
      let crashed := applyWrites (fun _ _ => 0) issued
      (initlog ([1].foldl (crashedRecovery 2 30) crashed) 2 30).disk 41 =
        contentsAfter (fun _ _ => 0) [[(40, fun _ => 7), (41, fun _ => 9)]]
          (commitRecords 2 issued) 41) ∧
      commitRecords 2 ((initlog (fun _ _ => 0) 2 30).runTransactions
        [[(40, fun _ => 7), (41, fun _ => 9)]]).writes =
        (effective [[(40, fun _ => 7), (41, fun _ => 9)]]).length := by
  have outside : ∀ updates ∈ [[((40 : Nat), fun _ => (7 : BitVec 32)), (41, fun _ => 9)]],
      HomeUpdates 2 30 updates := by
    intro updates member update inside
    rw [mem_singleton] at member
    subst member
    simp only [mem_cons, not_mem_nil, or_false] at inside
    rcases inside with rfl | rfl <;> exact ⟨mem_homeArea.mpr (by decide), by decide⟩
  have fits : Fits 30 [[((40 : Nat), fun _ => (7 : BitVec 32)), (41, fun _ => 9)]] := by
    intro updates member
    rw [mem_singleton] at member
    subst member
    decide
  have atomic := crash_atomicity 2 30 (fun _ _ => 0) _ rfl outside
  exact ⟨atomic.1 4 [1] 41 (mem_homeArea.mpr (by decide)), atomic.2 fits⟩

end Machine

end Xv6Rv32im.Log
