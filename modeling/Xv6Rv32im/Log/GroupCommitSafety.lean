import Xv6Rv32im.Log.CommitCalls

/-!
# Safety of group commit

For any interleaving of operations and commits: a commit runs alone, no operation begins
and nothing is logged meanwhile, each entry of the header is pinned once until it is
installed, and callers that bracket their writes never reach the panics of `end_op` and
`log_write` that guard this.
-/

namespace Xv6Rv32im.Log

open Library.Run Library.Shares List Cache

def LogPanic.OfCache (panic : LogPanic) : Prop :=
  panic = .bgetNoBuffers ∨ panic = .bwrite ∨ panic = .brelse

def LogPanic.Overlap (panic : LogPanic) : Prop :=
  panic = .logCommitting ∨ panic = .logWriteOutsideOfTrans

variable {panic : LogPanic} {c : Cache}

theorem Cache.bget_fault {b : Nat} (failed : c.bget b = .error panic) : panic.OfCache := by
  unfold bget at failed
  split at failed
  · cases failed
  split at failed
  · cases failed
  · cases failed
    exact .inl rfl

theorem Cache.bwrite_fault {p s : Nat} (failed : c.bwrite p s = .error panic) : panic.OfCache := by
  unfold bwrite at failed
  split at failed
  · cases failed
    exact .inr (.inl rfl)
  · split at failed <;> cases failed

theorem Cache.brelse_fault {p s : Nat} (failed : c.brelse p s = .error panic) : panic.OfCache := by
  unfold brelse at failed
  dsimp only at failed
  split at failed
  · cases failed
    exact .inr (.inr rfl)
  · cases failed

namespace System

variable {k k' : System} {n p s b : Nat} {committer : Option Nat} {pinned : List Nat}
  {event : Event} {panic : LogPanic}

theorem bind_error {α β : Type} {call : Except LogPanic α} {next : α → β}
    (failed : (do return next (← call)) = Except.error panic) : call = .error panic := by
  cases called : call with
  | error other =>
    rw [called] at failed
    cases failed
    rfl
  | ok value =>
    rw [called] at failed
    cases failed

theorem bget_fault (failed : k.bget p b = .error panic) : panic.OfCache :=
  Cache.bget_fault (bind_error failed)

theorem brelse_fault (failed : k.brelse p s = .error panic) : panic.OfCache :=
  Cache.brelse_fault (bind_error failed)

def requests (k : System) : Event → Option Nat
  | .bget _ b => some b
  | .commit p =>
    match (k.procs p).phase with
    | .commit (.copy _ tail .getLog) => some (k.start + tail + 1)
    | .commit (.copy _ tail (.getHome _)) => some (k.lh.getD tail 0)
    | .commit (.head _ .get) => some k.start
    | _ => none
  | _ => none

/-- A step of a commit changes the phase, takes a lock, or goes through one call of the cache. -/
theorem commitStep_cases {pc : CommitPc} (here : (k.procs p).phase = .commit pc) :
    (∃ (k₁ : System) (phase : Phase), k.commitStep p pc = .ok (k₁.setPhase p phase) ∧
      k₁.cache.lru = k.cache.lru ∧ (pc = .finish ∨ phase.commits = true)) ∨
    (∃ next, k.commitStep p pc = .ok (k.lockThen p next)) ∨
    ∃ call pc', k.commitStep p pc = (do return (← call).setPhase p (.commit pc')) ∧
      ((∃ b, call = k.bget p b ∧ k.requests (.commit p) = some b) ∨
        (∃ s block, call = k.writeThrough p s block) ∨ ∃ s, call = k.brelse p s) := by
  unfold requests
  dsimp only
  rw [here]
  cases pc with
  | start => exact .inl ⟨_, _, rfl, rfl, .inr rfl⟩
  | copy installing tail pc =>
    cases pc with
    | getLog =>
      unfold commitStep copyStep
      dsimp only
      split
      · exact .inr (.inr ⟨_, _, rfl, .inl ⟨_, rfl, rfl⟩⟩)
      · exact .inl ⟨_, _, rfl, rfl, .inr rfl⟩
    | lockLog | lockHome => exact .inr (.inl ⟨_, rfl⟩)
    | getHome log => exact .inr (.inr ⟨_, _, rfl, .inl ⟨_, rfl, rfl⟩⟩)
    | move log home =>
      cases installing with
      | true | false => exact .inr (.inr ⟨_, _, rfl, .inr (.inl ⟨_, _, rfl⟩)⟩)
    | unpin log home => exact .inl ⟨{ k with cache := k.cache.bunpin home }, _, rfl, rfl, .inr rfl⟩
    | release | releaseLast => exact .inr (.inr ⟨_, _, rfl, .inr (.inr ⟨_, rfl⟩)⟩)
  | clear => exact .inl ⟨{ k with lh := [] }, _, rfl, rfl, .inr rfl⟩
  | head cleared pc =>
    cases pc with
    | get => exact .inr (.inr ⟨_, _, rfl, .inl ⟨_, rfl, rfl⟩⟩)
    | lock => exact .inr (.inl ⟨_, rfl⟩)
    | write s => exact .inr (.inr ⟨_, _, rfl, .inr (.inl ⟨_, _, rfl⟩)⟩)
    | release s => exact .inr (.inr ⟨_, _, rfl, .inr (.inr ⟨_, rfl⟩)⟩)
  | finish => exact .inl ⟨{ k with committing := false }, _, rfl, rfl, .inl rfl⟩

/-- A call of a process goes to the buffer cache, panics in the log, or leaves the list of
buffers and the buffer it waits for. -/
theorem call_cases (k : System) (p : Nat) (event : Event) :
    (∃ p' b, event = .bget p' b) ∨ (∃ p' s, event = .brelse p' s) ∨
    (∃ panic, k.call p event = .error panic ∧ panic ≠ .bgetNoBuffers) ∨
    ∃ k₁, k.call p event = .ok k₁ ∧ k₁.cache.lru = k.cache.lru ∧
      (k₁.procs p).want = (k.procs p).want := by
  have waits (k₁ : System) phase :
      ((k₁.setPhase p phase).procs p).want = (k₁.procs p).want := by
    change (Function.update k₁.procs p _ p).want = _
    rw [Function.update_self]
  cases event with
  | bget p' b => exact .inl ⟨p', b, rfl⟩
  | brelse p' s => exact .inr (.inl ⟨p', s, rfl⟩)
  | beginOp p' =>
    refine .inr (.inr (.inr ⟨_, rfl, ?_⟩))
    unfold beginOp
    split
    · exact ⟨rfl, rfl⟩
    · split
      · exact ⟨rfl, rfl⟩
      · exact ⟨rfl, waits ..⟩
  | modify p' s data =>
    unfold call
    dsimp only
    split <;> exact .inr (.inr (.inr ⟨_, rfl, rfl, rfl⟩))
  | logWrite p' s =>
    unfold call logWrite
    dsimp only
    split
    · exact .inr (.inr (.inl ⟨_, rfl, nofun⟩))
    split
    · exact .inr (.inr (.inl ⟨_, rfl, nofun⟩))
    · split
      · exact .inr (.inr (.inr ⟨_, rfl, rfl, rfl⟩))
      · split <;> exact .inr (.inr (.inr ⟨_, rfl, rfl, rfl⟩))
  | endOp p' =>
    unfold call endOp
    dsimp only
    split
    · exact .inr (.inr (.inl ⟨_, rfl, nofun⟩))
    · split <;> exact .inr (.inr (.inr ⟨_, rfl, rfl, waits ..⟩))
  | lock | commit => exact .inr (.inr (.inr ⟨_, rfl, rfl, rfl⟩))

/-- A commit only panics in the buffer cache. -/
theorem commitStep_fault {pc : CommitPc} (here : (k.procs p).phase = .commit pc)
    (failed : k.commitStep p pc = .error panic) : panic.OfCache := by
  obtain ⟨_, _, stepped, -⟩ | ⟨_, stepped⟩ | ⟨call, _, stepped, called⟩ := commitStep_cases here
  · cases stepped.symm.trans failed
  · cases stepped.symm.trans failed
  have fault := bind_error (stepped.symm.trans failed)
  obtain ⟨b, rfl, -⟩ | ⟨s, block, rfl⟩ | ⟨s, rfl⟩ := called
  · exact bget_fault fault
  · exact bwrite_fault (bind_error fault)
  · exact brelse_fault fault

def Full (k : System) : Prop :=
  k.lh.length ≥ LOGSIZE ∨ (k.lh.length : Int) ≥ k.size - 1

section

variable (inv : k.Inv n committer pinned) (lt : p < n) (here : (k.procs p).phase = .operation)

include inv lt here

/-- In an operation `log_write` at most runs out of log. -/
theorem logWrite_fault (failed : k.logWrite s = .error panic) :
    panic = .tooBigATransaction ∧ k.Full := by
  have one := inv.operation_counts lt here
  unfold logWrite at failed
  split at failed
  next full =>
    cases failed
    exact ⟨rfl, full⟩
  · rw [if_neg (by omega)] at failed
    split at failed
    · cases failed
    · split at failed <;> cases failed

theorem endOp_total : ∃ k', k.endOp p = .ok k' := by
  have one := inv.operation_counts lt here
  obtain rfl := inv.open_idle (by omega)
  unfold endOp
  rw [if_neg (by rw [inv.not_committing]; nofun)]
  split
  · exact ⟨_, rfl⟩
  · exact ⟨_, rfl⟩

end

/-- The panics that a step can reach: those of the buffer cache, and that of `log_write` in
an operation when the log is full. -/
theorem step_fault (inv : k.Inv n committer pinned) (lt : event.proc < n)
    (bracketed : k.Bracketed event) (failed : k.step event = .error panic) :
    panic.OfCache ∨ panic = .tooBigATransaction ∧ k.Full ∧
      (k.procs event.proc).phase = .operation := by
  rcases step_cases k event with ⟨p, pc, rfl, here, stepped⟩ | ⟨p, rfl, -, stepped⟩ |
    ⟨-, stepped⟩ | ⟨-, stepped⟩
  · exact .inl (commitStep_fault here (stepped.symm.trans failed))
  · rw [stepped] at failed
    cases failed
  · rw [stepped] at failed
    cases event with
    | bget p b => exact .inl (bget_fault failed)
    | brelse p s => exact .inl (brelse_fault failed)
    | logWrite p s =>
      obtain ⟨tooBig, full⟩ := logWrite_fault inv lt bracketed.1 failed
      exact .inr ⟨tooBig, full, bracketed.1⟩
    | endOp p =>
      obtain ⟨k', done⟩ := endOp_total inv lt bracketed
      cases done.symm.trans failed
    | modify p s data =>
      change (if s ∈ (k.procs p).held then _ else _) = _ at failed
      split at failed <;> cases failed
    | beginOp | lock | commit => cases failed
  · rw [stepped] at failed
    cases failed

/-! ## The property -/

/-- The blocks of the list are cached, and pinned once each; no other buffer is pinned.  A
reference that no process uses is a pin. -/
structure PinnedOnce (k : System) (n : Nat) (blocks : List Nat) : Prop where
  cached : ∀ b ∈ blocks, ∃! s, (k.cache.buf s).blockno = some b
  once : ∀ s, (k.cache.buf s).refcnt = (k.users n).count s +
    if ∃ b ∈ blocks, (k.cache.buf s).blockno = some b then 1 else 0

/-- What group commit means for a state of `n` processes. -/
structure GroupCommit (k : System) (n : Nat) : Prop where
  alone : ∀ p pc, (k.procs p).phase = .commit pc → k.outstanding = 0 ∧ k.committing = true
  admits : k.committing = true → ∀ p, k.beginOp p = k
  logs : k.committing = true → ∀ s, ∃ panic, k.logWrite s = .error panic
  distinct : k.lh.Nodup
  pinned : (∀ p, (k.procs p).phase.commits = false) → k.PinnedOnce n k.lh
  installing : ∀ p pc, (k.procs p).phase = .commit pc →
    k.PinnedOnce n (k.lh.drop (pc.unpinned k.lh.length))

theorem Inv.pinnedOnce (inv : k.Inv n committer pinned) (distinct : pinned.Nodup) :
    k.PinnedOnce n pinned where
  cached := by
    intro b isPinned
    obtain ⟨s, here, -⟩ := inv.cache.cached b isPinned
    exact ⟨s, here, fun s' there => inv.cache.unique s' s b there here⟩
  once := by
    intro s
    rw [inv.cache.counted s]
    congr 1
    unfold pins
    cases block : (k.cache.buf s).blockno with
    | none => simp
    | some b =>
      have counts : (pinned.countP fun b' => decide (some b = some b')) = pinned.count b := by
        refine countP_congr fun b' _ => ?_
        simp only [decide_eq_true_eq, Option.some.injEq, beq_iff_eq]
        exact eq_comm
      rw [counts]
      by_cases isPinned : b ∈ pinned
      · rw [count_eq_one_of_mem distinct isPinned, if_pos ⟨b, isPinned, rfl⟩]
      rw [count_eq_zero_of_not_mem isPinned, if_neg]
      rintro ⟨b', isPinned', same⟩
      cases same
      exact isPinned isPinned'

theorem Inv.groupCommit (inv : k.Inv n committer pinned) : k.GroupCommit n where
  alone := by
    intro p pc here
    have commits := inv.only p pc here
    refine ⟨inv.quiet (by rw [commits]; nofun), ?_⟩
    rw [inv.flag, commits]
    rfl
  admits := by
    intro commits p
    unfold beginOp
    rw [if_pos commits]
  logs := by
    intro commits s
    have quiet : k.outstanding = 0 := by
      refine inv.quiet ?_
      rintro rfl
      rw [inv.not_committing] at commits
      cases commits
    unfold logWrite
    split
    · exact ⟨_, rfl⟩
    · rw [if_pos (by omega)]
      exact ⟨_, rfl⟩
  distinct := inv.entries
  pinned := by
    intro nobody
    have idle : committer = none := by
      cases committer with
      | none => rfl
      | some q =>
        obtain ⟨pc, here, -⟩ := inv.progress q rfl
        have other := nobody q
        rw [here] at other
        cases other
    rw [← inv.idle idle]
    exact inv.pinnedOnce (inv.idle idle ▸ inv.entries)
  installing := by
    intro p pc here
    obtain ⟨pc', here', at'⟩ := inv.progress p (inv.only p pc here)
    obtain rfl := Phase.commit.inj (here.symm.trans here')
    rw [← at'.pinned]
    refine inv.pinnedOnce ?_
    rw [at'.pinned]
    exact inv.entries.sublist (drop_sublist ..)

/-- The condition under which a run of `n` processes is considered. -/
def Calls (n : Nat) (k : System) (event : Event) : Prop :=
  event.proc < n ∧ k.Bracketed event

instance (n : Nat) (k : System) (event : Event) : Decidable (Calls n k event) :=
  inferInstanceAs (Decidable (_ ∧ _))

theorem step_outcome (k : System) (event : Event)
    (inv : ∃ committer pinned, k.Inv n committer pinned) (call : Calls n k event) :
    (∃ k', k.step event = .ok k' ∧ ∃ committer pinned, k'.Inv n committer pinned) ∨
      ∃ panic, k.step event = .error panic ∧ ¬panic.Overlap := by
  obtain ⟨committer, pinned, inv⟩ := inv
  cases stepped : k.step event with
  | error panic =>
    refine .inr ⟨panic, rfl, ?_⟩
    rcases step_fault inv call.1 call.2 stepped with (rfl | rfl | rfl) | ⟨rfl, -⟩ <;>
      rintro (same | same) <;> cases same
  | ok k' =>
    obtain ⟨-, committer', pinned', inv', -⟩ := step_kept inv call.1 call.2 stepped
    exact .inl ⟨k', rfl, committer', pinned', inv'⟩

/-- For any interleaving of operations and commits of `n` processes. -/
theorem group_commit (disk : Nat → Block) (start size n : Nat) (events : List Event)
    (calls : Meets step (Calls n) (init disk start size) events) :
    (∃ k, run step (init disk start size) events = .ok k ∧ k.GroupCommit n) ∨
      ∃ panic, run step (init disk start size) events = .error panic ∧ ¬panic.Overlap := by
  obtain ⟨k, ran, committer, pinned, inv⟩ | failed :=
    run_outcome step_outcome ⟨none, [], init_inv disk start size n⟩ calls
  · exact .inl ⟨k, ran, inv.groupCommit⟩
  · exact .inr failed

/-- Two operations overlap; the second to end commits, and is installing its block. -/
def twoOperations : List Event :=
  [.beginOp 0, .bget 0 40, .beginOp 1, .lock 0, .modify 0 0 fun _ => 1, .logWrite 0 0,
    .brelse 0 0, .endOp 0, .endOp 1] ++ List.replicate 18 (.commit 1)

theorem group_commit_two_operations :
    Meets step (Calls 2) (init (fun _ _ => 0) 2 30) twoOperations ∧
      ((∃ k, run step (init (fun _ _ => 0) 2 30) twoOperations = .ok k ∧ k.GroupCommit 2) ∨
        ∃ panic, run step (init (fun _ _ => 0) 2 30) twoOperations = .error panic ∧
          ¬panic.Overlap) ∧
      (run step (init (fun _ _ => 0) 2 30) twoOperations).map
        (fun k => (k.lh, k.committing, (k.procs 1).phase)) =
          .ok ([40], true, .commit (.copy true 0 (.unpin 1 0))) := by
  have calls : Meets step (Calls 2) (init (fun _ _ => 0) 2 30) twoOperations := by
    decide +kernel
  exact ⟨calls, group_commit _ _ _ _ _ calls, by decide +kernel⟩

/-- `log.outstanding` counts the processes in an operation, `log.committing` says that a process
commits, which is one at a time and outside all operations, and a buffer is locked by the process
that holds it. -/
structure Accounted (k : System) (n : Nat) : Prop where
  count : k.outstanding = (k.opens n).card
  one : ∀ p q pc pc', (k.procs p).phase = .commit pc → (k.procs q).phase = .commit pc' → p = q
  flag : k.committing = true ↔ ∃ p pc, (k.procs p).phase = .commit pc
  quiet : k.committing = true → k.opens n = 0
  locks : ∀ p s, (k.cache.buf s).lock = some p ↔ s ∈ (k.procs p).held

theorem Inv.accounted (inv : k.Inv n committer pinned) : k.Accounted n where
  count := inv.count
  one := fun p q pc pc' first second =>
    Option.some.inj ((inv.only p pc first).symm.trans (inv.only q pc' second))
  flag := by
    rw [inv.flag, Option.isSome_iff_exists]
    constructor
    · rintro ⟨q, is⟩
      obtain ⟨pc, phase, -⟩ := inv.progress q is
      exact ⟨q, pc, phase⟩
    · rintro ⟨p, pc, phase⟩
      exact ⟨p, inv.only p pc phase⟩
  quiet := by
    rw [inv.flag, Option.isSome_iff_ne_none]
    intro commits
    have idle := inv.quiet commits
    rwa [inv.count, Int.natCast_eq_zero, Multiset.card_eq_zero] at idle
  locks := inv.locks

/-- For any interleaving of operations and commits of `n` processes. -/
theorem operations_accounted (disk : Nat → Block) (start size n : Nat) (events : List Event)
    (calls : Meets step (Calls n) (init disk start size) events) :
    (∃ k, run step (init disk start size) events = .ok k ∧ k.Accounted n) ∨
      ∃ panic, run step (init disk start size) events = .error panic ∧ ¬panic.Overlap := by
  obtain ⟨k, ran, committer, pinned, inv⟩ | failed :=
    run_outcome step_outcome ⟨none, [], init_inv disk start size n⟩ calls
  · exact .inl ⟨k, ran, inv.accounted⟩
  · exact .inr failed

theorem operations_accounted_two : Meets step (Calls 2) (init (fun _ _ => 0) 2 30) twoOperations ∧
    ((∃ k, run step (init (fun _ _ => 0) 2 30) twoOperations = .ok k ∧ k.Accounted 2) ∨
      ∃ panic, run step (init (fun _ _ => 0) 2 30) twoOperations = .error panic ∧
        ¬panic.Overlap) := by
  have calls : Meets step (Calls 2) (init (fun _ _ => 0) 2 30) twoOperations := by
    decide +kernel
  exact ⟨calls, operations_accounted _ _ _ _ _ calls⟩

end System

end Xv6Rv32im.Log
