import Mathlib.Algebra.BigOperators.Ring.Finset
import Xv6Rv32im.Log.CacheRefinement

/-!
# Log space reservation

`begin_op` admits an operation if `MAXOPBLOCKS` blocks for it and for every open
operation still fit into `LOGSIZE` entries, but the log that `mkfs` makes has `LOGSIZE`
blocks with the header, so `log_write` stops one entry earlier.  Three operations that use
their full allowance reach the panic; operations that stay one block below it never do.
-/

namespace Xv6Rv32im.Log

open Library Library.Run Library.Shares Function List

namespace System

/-- The distinct blocks that each process has logged in its operation, after an event. -/
def loggedAfter (k : System) (logged : Nat → List Nat) : Event → Nat → List Nat
  | .beginOp p | .endOp p => if k.Ready p then update logged p [] else logged
  | .logWrite p s =>
    if k.Ready p then
      match (k.cache.buf s).blockno with
      | none => logged
      | some b => update logged p ((logged p).insert b)
    else logged
  | _ => logged

def Within (bound : Nat) (k : System) (logged : Nat → List Nat) : Event → Prop
  | .logWrite p s => ∀ b ∈ (k.cache.buf s).blockno, ((logged p).insert b).length ≤ bound
  | _ => True

instance (bound : Nat) (k : System) (logged : Nat → List Nat) (event : Event) :
    Decidable (Within bound k logged event) :=
  match event with
  | .logWrite .. => inferInstanceAs (Decidable (∀ b ∈ (_ : Option Nat), _ ≤ _))
  | .beginOp _ | .endOp _ | .modify .. | .bget .. | .lock _ | .brelse .. | .commit _ =>
    isTrue True.intro

def allowance (phase : Phase) (logged : List Nat) : Nat :=
  if phase = .operation then MAXOPBLOCKS - logged.length else 0

def reserve (k : System) (logged : Nat → List Nat) (n : Nat) : Nat :=
  ∑ p ∈ Finset.range n, allowance (k.procs p).phase (logged p)

/-- Every operation stays below `MAXOPBLOCKS`, and what the open ones may log fits: one
entry stays free, or the other open operation keeps one. -/
structure Reserved (k : System) (logged : Nat → List Nat) (n : Nat) : Prop where
  modest : ∀ p, (logged p).length < MAXOPBLOCKS
  listed : ∀ p, (k.procs p).phase = .operation → ∀ b ∈ logged p, b ∈ k.lh
  calm : k.outstanding = 0 → k.committing = false → k.lh = []
  room : 1 ≤ k.outstanding → k.lh.length + k.reserve logged n + 1 ≤ LOGSIZE ∨
    2 ≤ k.outstanding ∧ k.lh.length + k.reserve logged n ≤ LOGSIZE

variable {k k' : System} {n p s b : Nat} {committer : Option Nat} {pinned : List Nat}
  {event : Event} {logged logged' : Nat → List Nat}

theorem init_reserved (disk : Nat → Block) (start size n : Nat) :
    (init disk start size).Reserved (fun _ => []) n where
  modest := fun _ => by decide
  listed := nofun
  calm := fun _ _ => rfl
  room := by
    intro some
    change (1 : Int) ≤ 0 at some
    omega

theorem reserve_split (logged : Nat → List Nat) (lt : p < n) :
    ∃ rest, k.reserve logged n = allowance (k.procs p).phase (logged p) + rest ∧
      ∀ (k' : System) logged', (∀ q ≠ p, (k'.procs q).phase = (k.procs q).phase) →
        (∀ q ≠ p, logged' q = logged q) →
        k'.reserve logged' n = allowance (k'.procs p).phase (logged' p) + rest := by
  have mem := Finset.mem_range.mpr lt
  refine ⟨∑ q ∈ (Finset.range n).erase p, allowance (k.procs q).phase _,
    (Finset.add_sum_erase _ _ mem).symm, fun k' logged' phases lists => ?_⟩
  unfold reserve
  rw [← Finset.add_sum_erase _ _ mem]
  congr 1
  refine Finset.sum_congr rfl fun q other => ?_
  rw [phases q (Finset.ne_of_mem_erase other), lists q (Finset.ne_of_mem_erase other)]

section

variable (reserved : k.Reserved logged n)

include reserved

/-- Every open operation that stays below `MAXOPBLOCKS` keeps an entry. -/
theorem Reserved.outstanding_le (inv : k.Inv n committer pinned) :
    k.outstanding ≤ k.reserve logged n := by
  rw [inv.count]
  refine Int.ofNat_le.mpr ?_
  unfold opens shares reserve
  rw [Multiset.card_sum]
  refine Finset.sum_le_sum fun p _ => ?_
  have modest := reserved.modest p
  unfold allowance
  split
  · rw [Multiset.card_singleton]
    omega
  · exact Nat.zero_le _

/-- While an operation is open, an entry is free even for `log_write`. -/
theorem Reserved.fits (inv : k.Inv n committer pinned) (lt : p < n)
    (here : (k.procs p).phase = .operation) : k.lh.length + 1 < LOGSIZE := by
  have one := inv.operation_counts lt here
  have kept := reserved.outstanding_le inv
  rcases reserved.room one with free | ⟨two, free⟩
  · omega
  · omega

theorem Reserved.congr (lh : k'.lh = k.lh) (outstanding : k'.outstanding = k.outstanding)
    (committing : k'.committing = k.committing)
    (phases : ∀ q, (k'.procs q).phase = (k.procs q).phase) : k'.Reserved logged n where
  modest := reserved.modest
  listed := by
    intro p here
    rw [phases] at here
    rw [lh]
    exact reserved.listed p here
  calm := by
    rw [lh, outstanding, committing]
    exact reserved.calm
  room := by
    have same : k'.reserve logged n = k.reserve logged n := by
      unfold reserve
      simp only [phases]
    rw [lh, outstanding, same]
    exact reserved.room

end

theorem setProc_phase {process : Process} (same : process.phase = (k.procs p).phase) (q : Nat) :
    ((k.setProc p process).procs q).phase = (k.procs q).phase :=
  apply_update_eq Process.phase same q

theorem awake_reserved (reserved : k.Reserved logged n) : (k.awake p).Reserved logged n := by
  unfold awake
  split
  · exact reserved
  · split
    · exact reserved
    · exact reserved.congr rfl rfl rfl (setProc_phase rfl)

theorem Inv.none_open (inv : k.Inv n committer pinned) (quiet : k.outstanding = 0) (q : Nat) :
    (k.procs q).phase ≠ .operation := by
  intro here
  by_cases lt : q < n
  · have one := inv.operation_counts lt here
    omega
  · rw [inv.unborn q (by omega)] at here
    cases here

/-- While a process commits no operation is open, and after the commit the log is empty. -/
theorem commitStep_reserved {pc : CommitPc} (reserved : k.Reserved logged n)
    (inv : k.Inv n committer pinned) (lt : p < n) (here : (k.procs p).phase = .commit pc)
    (done : k.commitStep p pc = .ok k') : k'.Reserved logged n := by
  obtain ⟨frame, committer', pinned', inv', -⟩ := commitStep_kept inv lt here done
  have quiet := inv.quiet (by rw [inv.only p pc here]; nofun)
  have own : (k'.procs p).phase ≠ .operation := by
    by_cases last : pc = .finish
    · subst last
      cases done
      rw [setPhase_phase]
      nofun
    · intro operation
      have commits := commitStep_commits here last done
      rw [operation] at commits
      cases commits
  have noneOpen q : (k'.procs q).phase ≠ .operation := by
    rcases eq_or_ne q p with rfl | ne
    · exact own
    · rw [frame.others q ne]
      exact inv.none_open quiet q
  have quiet' : k'.outstanding = 0 := by
    have nobody : k'.opens n = 0 := shares_eq_zero fun q _ => if_neg (noneOpen q)
    rw [inv'.count, nobody]
    rfl
  refine ⟨reserved.modest, fun q there => absurd there (noneOpen q), fun _ idle => ?_,
    fun one => ?_⟩
  · by_cases last : pc = .finish
    · subst last
      obtain ⟨pc', here', at'⟩ := inv.progress p (inv.only p _ here)
      cases here.symm.trans here'
      cases done
      exact length_eq_zero_iff.mp at'.range
    · have commits := commitStep_commits here last done
      cases phase : (k'.procs p).phase with
      | commit pc' =>
        rw [inv'.flag, inv'.only p pc' phase] at idle
        cases idle
      | outside =>
        rw [phase] at commits
        cases commits
      | operation => exact absurd phase own
  · omega

/-- A block that was not logged before takes an entry out of the allowance of its operation. -/
theorem logWrite_reserved (reserved : k.Reserved logged n) (lt : p < n)
    (here : (k.procs p).phase = .operation) (block : (k.cache.buf s).blockno = some b)
    (within : ((logged p).insert b).length < MAXOPBLOCKS) (done : k.logWrite s = .ok k') :
    k'.Reserved (update logged p ((logged p).insert b)) n := by
  obtain ⟨rest, whole, updated⟩ := reserve_split (k := k) logged lt
  -- Either way the reserve shrinks by at least the entries that the log grows by.
  have outcome : k'.procs = k.procs ∧ k'.outstanding = k.outstanding ∧
      1 ≤ k.outstanding ∧ b ∈ k'.lh ∧ (∀ x ∈ k.lh, x ∈ k'.lh) ∧
      k'.lh.length + (logged p).length ≤ k.lh.length + ((logged p).insert b).length := by
    unfold logWrite at done
    split at done
    · cases done
    split at done
    · cases done
    next opened =>
      rw [block] at done
      dsimp only at done
      split at done
      next old =>
        cases done
        have longer : (logged p).length ≤ ((logged p).insert b).length :=
          (sublist_insert b (logged p)).length_le
        exact ⟨rfl, rfl, by omega, old, fun _ => id, by omega⟩
      next fresh =>
        cases done
        have new : b ∉ logged p := fun again => fresh (reserved.listed p here b again)
        refine ⟨rfl, rfl, by omega, mem_append_right _ (mem_singleton_self b),
          fun _ => mem_append_left _, ?_⟩
        change (k.lh ++ [b]).length + _ ≤ _
        rw [length_append, length_singleton, length_insert_of_not_mem new]
        omega
  obtain ⟨procs, outstanding, one, isLogged, grows, lengths⟩ := outcome
  refine ⟨fun q => ?_, fun q there x mem => ?_, fun none => ?_, fun _ => ?_⟩
  · rcases eq_or_ne q p with rfl | ne
    · rw [update_self]
      exact within
    · rw [update_of_ne ne]
      exact reserved.modest q
  · rw [procs] at there
    rcases eq_or_ne q p with rfl | ne
    · rw [update_self] at mem
      rcases mem_insert_iff.mp mem with rfl | old
      · exact isLogged
      · exact grows x (reserved.listed q there x old)
    · rw [update_of_ne ne] at mem
      exact grows x (reserved.listed q there x mem)
  · omega
  · have smaller := updated k' (update logged p ((logged p).insert b))
      (fun q _ => by rw [procs]) fun q ne => update_of_ne ne ..
    rw [procs, here, update_self] at smaller
    rw [here] at whole
    unfold allowance at whole smaller
    rw [if_pos rfl] at whole smaller
    have modest := reserved.modest p
    have room := reserved.room one
    omega

/-- Operations that have logged nothing reserve `MAXOPBLOCKS` entries each. -/
theorem reserve_le (logged : Nat → List Nat) (inv : k.Inv n committer pinned) :
    k.reserve logged n ≤ k.outstanding * MAXOPBLOCKS := by
  rw [inv.count]
  have each : k.reserve logged n ≤ (k.opens n).card * MAXOPBLOCKS := by
    unfold opens shares reserve
    rw [Multiset.card_sum, Finset.sum_mul]
    refine Finset.sum_le_sum fun p _ => ?_
    unfold allowance
    split
    · rw [Multiset.card_singleton, one_mul]
      exact Nat.sub_le ..
    · exact Nat.zero_le _
  exact_mod_cast each

section

variable (reserved : k.Reserved logged n)

include reserved

/-- Forgetting what a process has logged that is in no operation. -/
theorem Reserved.reset (lt : p < n) (idle : (k.procs p).phase ≠ .operation) :
    k.Reserved (update logged p []) n := by
  obtain ⟨rest, whole, updated⟩ := reserve_split logged lt
  have same := updated k (update logged p []) (fun _ _ => rfl) fun q ne => update_of_ne ne ..
  unfold allowance at whole same
  rw [if_neg idle] at whole same
  refine ⟨fun q => ?_, fun q there x mem => ?_, reserved.calm, fun one => ?_⟩
  · rcases eq_or_ne q p with rfl | ne
    · rw [update_self]
      decide
    · rw [update_of_ne ne]
      exact reserved.modest q
  · rcases eq_or_ne q p with rfl | ne
    · exact absurd there idle
    · rw [update_of_ne ne] at mem
      exact reserved.listed q there x mem
  · rw [same, ← whole]
    exact reserved.room one

theorem beginOp_reserved (inv : k.Inv n committer pinned) (lt : p < n)
    (outside : (k.procs p).phase = .outside) :
    (k.beginOp p).Reserved (update logged p []) n := by
  obtain ⟨⟨others, -, -⟩, committer', pinned', inv', -⟩ := beginOp_kept inv lt outside
  have fresh := reserved.reset lt (by rw [outside]; nofun)
  have bound := reserve_le (update logged p []) inv'
  have pos : 0 ≤ k.outstanding := by
    rw [inv.count]
    omega
  unfold beginOp at others bound ⊢
  split
  · exact fresh
  next idle =>
    split
    · exact fresh
    next admitted =>
      rw [if_neg idle, if_neg admitted] at others bound
      refine ⟨fresh.modest, fun q there x mem => ?_, fun none => ?_, fun _ => ?_⟩
      · rcases eq_or_ne q p with rfl | ne
        · rw [update_self] at mem
          cases mem
        · rw [others q ne] at there
          exact fresh.listed q there x mem
      · change k.outstanding + 1 = 0 at none
        omega
      change k.lh.length + _ + 1 ≤ _ ∨ 2 ≤ k.outstanding + 1 ∧ k.lh.length + _ ≤ _
      change _ ≤ (k.outstanding + 1) * _ at bound
      simp only [MAXOPBLOCKS, LOGSIZE] at admitted bound ⊢
      by_cases first : k.outstanding = 0
      · have empty := reserved.calm first (by simpa using idle)
        have none : k.lh.length = 0 := by rw [empty, length_nil]
        omega
      · omega

/-- What a closed operation did not use is free again, at least one entry. -/
theorem endOp_reserved (lt : p < n) (here : (k.procs p).phase = .operation)
    (done : k.endOp p = .ok k') : k'.Reserved (update logged p []) n := by
  obtain ⟨rest, whole, updated⟩ := reserve_split (k := k) logged lt
  have outcome : ∃ phase committing, phase ≠ .operation ∧
      (k.outstanding - 1 = 0 → committing = true) ∧
      k' = { k with outstanding := k.outstanding - 1, committing := committing }.setPhase p
        phase := by
    unfold endOp at done
    dsimp only at done
    split at done
    · cases done
    split at done
    · cases done
      exact ⟨.commit .start, true, nofun, fun _ => rfl, rfl⟩
    next more =>
      cases done
      exact ⟨.outside, k.committing, nofun, fun last => absurd last more, rfl⟩
  obtain ⟨phase, committing, closed, last, rfl⟩ := outcome
  have others q (ne : q ≠ p) :
      (({ k with outstanding := k.outstanding - 1, committing := committing }.setPhase p
        phase).procs q).phase = (k.procs q).phase := by
    change (update k.procs p _ q).phase = _
    rw [update_of_ne ne]
  have smaller := updated _ (update logged p []) others fun q ne => update_of_ne ne ..
  rw [setPhase_phase] at smaller
  rw [here] at whole
  unfold allowance at whole smaller
  rw [if_neg closed] at smaller
  rw [if_pos rfl] at whole
  have modest := reserved.modest p
  refine ⟨fun q => ?_, fun q there x mem => ?_, fun none idle => ?_, fun one => ?_⟩
  · rcases eq_or_ne q p with rfl | ne
    · rw [update_self]
      decide
    · rw [update_of_ne ne]
      exact reserved.modest q
  · rcases eq_or_ne q p with rfl | ne
    · rw [setPhase_phase] at there
      exact absurd there closed
    · rw [others q ne] at there
      rw [update_of_ne ne] at mem
      exact reserved.listed q there x mem
  · cases (last none).symm.trans idle
  · change 1 ≤ k.outstanding - 1 at one
    change k.lh.length + _ + 1 ≤ _ ∨ _ ∧ k.lh.length + _ ≤ _
    have room := reserved.room (by omega)
    omega

theorem step_reserved (inv : k.Inv n committer pinned) (lt : event.proc < n)
    (bracketed : k.Bracketed event) (within : Within (MAXOPBLOCKS - 1) k logged event)
    (done : k.step event = .ok k') : k'.Reserved (k.loggedAfter logged event) n := by
  rcases step_cases k event with ⟨p, pc, rfl, here, stepped⟩ | ⟨p, rfl, -, stepped⟩ |
    ⟨ready, stepped⟩ | ⟨busy, stepped⟩
  · rw [stepped] at done
    exact commitStep_reserved reserved inv lt here done
  · rw [stepped] at done
    cases done
    exact awake_reserved reserved
  · rw [stepped] at done
    cases event with
    | beginOp p =>
      cases done
      have reset : k.loggedAfter logged (.beginOp p) = update logged p [] :=
        if_pos ready
      rw [reset]
      exact beginOp_reserved reserved inv lt bracketed
    | endOp p =>
      have reset : k.loggedAfter logged (.endOp p) = update logged p [] :=
        if_pos ready
      rw [reset]
      exact endOp_reserved reserved lt bracketed done
    | logWrite p s =>
      change k.Ready p at ready
      have used : s ∈ k.users n :=
        users_mem lt (Multiset.mem_add.mpr (.inr bracketed.2))
      obtain ⟨b, block⟩ := Option.ne_none_iff_exists'.mp (inv.cache.named s used)
      have grown : k.loggedAfter logged (.logWrite p s) =
          update logged p ((logged p).insert b) := by
        change (if k.Ready p then _ else _) = _
        rw [if_pos ready, block]
      have below := within b block
      rw [grown]
      refine logWrite_reserved reserved lt bracketed.1 block ?_ done
      exact Nat.lt_of_le_of_lt below (by decide)
    | bget p b =>
      obtain ⟨s, c', -, rfl⟩ := bget_ok done
      exact reserved.congr rfl rfl rfl (setProc_phase rfl)
    | modify p s block =>
      change (if s ∈ (k.procs p).held then _ else _) = _ at done
      split at done
      · cases done
        exact reserved.congr rfl rfl rfl fun _ => rfl
      · cases done
        exact reserved
    | brelse p s =>
      change k.brelse p s = _ at done
      unfold brelse at done
      obtain ⟨c', -, rfl⟩ := bind_ok done
      exact reserved.congr rfl rfl rfl (setProc_phase rfl)
    | lock | commit =>
      cases done
      exact reserved
  · rw [stepped] at done
    cases done
    have same : k.loggedAfter logged event = logged := by
      cases event with
      | beginOp | endOp | logWrite => exact if_neg busy
      | _ => rfl
    rw [same]
    exact reserved

/-- `log_write` finds room, so no step runs out of log. -/
theorem step_not_too_big (inv : k.Inv n committer pinned) (mkfs : k.size = LOGSIZE)
    (lt : event.proc < n) (bracketed : k.Bracketed event) :
    k.step event ≠ .error .tooBigATransaction := by
  intro failed
  rcases step_fault inv lt bracketed failed with (same | same | same) | ⟨-, full, here⟩
  · cases same
  · cases same
  · cases same
  have fits := reserved.fits inv lt here
  unfold Full at full
  rw [mkfs] at full
  omega

end

end System

/-- The system next to the blocks that each open operation has logged. -/
structure Meter where
  system : System
  logged : Nat → List Nat

namespace Meter

def init (disk : Nat → Block) (start : Nat) : Meter :=
  ⟨System.init disk start LOGSIZE, fun _ => []⟩

def step (m : Meter) (event : Event) : Except LogPanic Meter := do
  return ⟨← m.system.step event, m.system.loggedAfter m.logged event⟩

/-- Callers of `n` processes whose operations log at most `bound` distinct blocks. -/
def Modest (n bound : Nat) (m : Meter) (event : Event) : Prop :=
  System.Calls n m.system event ∧ System.Within bound m.system m.logged event

instance (n bound : Nat) (m : Meter) (event : Event) : Decidable (Modest n bound m event) :=
  inferInstanceAs (Decidable (_ ∧ _))

/-- The invariant of modest callers on the log that `mkfs` makes. -/
def Sound (n : Nat) (m : Meter) : Prop :=
  m.system.size = LOGSIZE ∧ m.system.Reserved m.logged n ∧
    ∃ committer pinned, m.system.Inv n committer pinned

theorem step_sound {n : Nat} (m : Meter) (event : Event) (sound : m.Sound n)
    (modest : m.Modest n (MAXOPBLOCKS - 1) event) :
    (∃ m', m.step event = .ok m' ∧ m'.Sound n) ∨
      ∃ panic, m.step event = .error panic ∧ panic ≠ .tooBigATransaction := by
  obtain ⟨mkfs, reserved, committer, pinned, inv⟩ := sound
  obtain ⟨⟨lt, bracketed⟩, within⟩ := modest
  unfold step
  cases stepped : m.system.step event with
  | error panic =>
    refine .inr ⟨panic, rfl, ?_⟩
    rintro rfl
    exact System.step_not_too_big reserved inv mkfs lt bracketed stepped
  | ok k' =>
    obtain ⟨frame, committer', pinned', inv', -⟩ :=
      System.step_kept inv lt bracketed stepped
    exact .inl ⟨_, rfl, frame.size.trans mkfs,
      System.step_reserved reserved inv lt bracketed within stepped, committer', pinned', inv'⟩

/-- Operations that log fewer than `MAXOPBLOCKS` distinct blocks each never run out of log. -/
theorem log_reservation (disk : Nat → Block) (start n : Nat) (events : List Event)
    (modest : Meets step (fun m event => m.Modest n (MAXOPBLOCKS - 1) event) (init disk start)
      events) :
    run step (init disk start) events ≠ .error .tooBigATransaction := by
  intro failed
  obtain ⟨m, ran, -⟩ | ⟨panic, ran, other⟩ :=
    run_outcome step_sound ⟨rfl, System.init_reserved disk start LOGSIZE n, none, [],
      System.init_inv disk start LOGSIZE n⟩ modest
  · cases ran.symm.trans failed
  · cases ran.symm.trans failed
    exact other rfl

/-- Process `p` logs the blocks of a list, each in the next buffer. -/
def logBlocks (p : Nat) (blocks : List Nat) : List Event :=
  blocks.flatMap fun b => [.bget p (b + 40), .lock p, .logWrite p b, .brelse p b]

/-- Three operations, of which each logs `count` distinct blocks. -/
def threeOperations (count : Nat) : List Event :=
  [.beginOp 0, .beginOp 1, .beginOp 2] ++ logBlocks 0 (List.range' 0 count) ++
    logBlocks 1 (List.range' count count) ++ logBlocks 2 (List.range' (2 * count) count)

theorem log_reservation_three_operations :
    Meets step (fun m event => m.Modest 3 (MAXOPBLOCKS - 1) event) (init (fun _ _ => 0) 2)
        (threeOperations 9) ∧
      run step (init (fun _ _ => 0) 2) (threeOperations 9) ≠ .error .tooBigATransaction ∧
      (run step (init (fun _ _ => 0) 2) (threeOperations 9)).map (fun m => m.system.lh.length) =
        .ok 27 := by
  have modest : Meets step (fun m event => m.Modest 3 (MAXOPBLOCKS - 1) event)
      (init (fun _ _ => 0) 2) (threeOperations 9) := by
    decide +kernel
  exact ⟨modest, log_reservation _ _ _ _ modest, by decide +kernel⟩

/-- With their full allowance the three operations reach the panic. -/
theorem full_allowance_too_big :
    Meets step (fun m event => m.Modest 3 MAXOPBLOCKS event) (init (fun _ _ => 0) 2)
        (threeOperations 10) ∧
      (run step (init (fun _ _ => 0) 2) (threeOperations 10)).map (fun _ => ()) =
        .error .tooBigATransaction := by
  decide +kernel

end Meter

end Xv6Rv32im.Log
