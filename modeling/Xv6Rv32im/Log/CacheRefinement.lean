import Xv6Rv32im.Log.GroupCommitSafety

/-!
# The buffer cache over the log is an array of blocks

`contents` is a plain array that only `log_write` changes.  In every run of callers that
change a buffer only between `bread` and `log_write`, `bread` returns what the array
holds: which buffers are recycled, and how far a commit has come, cannot be seen.
-/

namespace Xv6Rv32im.Log

open Library.Run Library.Shares Function

/-- The system next to the array.  `dirty` marks the buffers that were changed and not
logged since, `asked` is the block that each process asked `bread` for last. -/
structure Audit where
  system : System
  contents : Nat → Block
  dirty : Nat → Bool
  asked : Nat → Nat

namespace System

/-- The blocks that `bread` was asked for, after an event. -/
def askedAfter (k : System) (asked : Nat → Nat) : Event → Nat → Nat
  | .bget p blockno => if k.Ready p then update asked p blockno else asked
  | _ => asked

/-- Processes that sleep in `bread` wait for a buffer of the block they asked for. -/
def Asks (k : System) (asked : Nat → Nat) : Prop :=
  ∀ p s, (k.procs p).phase.commits = false → (k.procs p).want = some s →
    (k.cache.buf s).blockno = some (asked p)

variable {k k' : System} {n p s b : Nat} {committer : Option Nat} {pinned : List Nat}
  {event : Event} {asked : Nat → Nat}

@[simp] theorem setPhase_phase (k : System) (p : Nat) (phase : Phase) :
    ((k.setPhase p phase).procs p).phase = phase := by
  change (update k.procs p _ p).phase = phase
  rw [update_self]

theorem lockThen_commits {next : Nat → CommitPc} (here : (k.procs p).phase.commits = true) :
    ((k.lockThen p next).procs p).phase.commits = true := by
  unfold lockThen
  split
  · exact here
  · split
    · exact here
    · rw [setPhase_phase, Phase.commits]

theorem commitStep_commits {pc : CommitPc} (here : (k.procs p).phase = .commit pc)
    (more : pc ≠ .finish) (done : k.commitStep p pc = .ok k') :
    (k'.procs p).phase.commits = true := by
  obtain ⟨k₁, phase, stepped, -, last | commits⟩ | ⟨next, stepped⟩ | ⟨call, pc', stepped, -⟩ :=
    commitStep_cases here
  · exact absurd last more
  · cases stepped.symm.trans done
    rwa [setPhase_phase]
  · cases stepped.symm.trans done
    exact lockThen_commits (by rw [here, Phase.commits])
  · obtain ⟨k₁, -, rfl⟩ := bind_ok (stepped.symm.trans done)
    rw [setPhase_phase, Phase.commits]

theorem call_want (other : ∀ p' b, event ≠ .bget p' b) (done : k.call p event = .ok k') :
    (k'.procs p).want = (k.procs p).want := by
  obtain ⟨p', b, rfl⟩ | ⟨p', s, rfl⟩ | ⟨_, failed, -⟩ | ⟨k₁, called, -, want⟩ :=
    call_cases k p event
  · exact absurd rfl (other p' b)
  · change k.brelse p s = _ at done
    unfold brelse at done
    obtain ⟨c', -, rfl⟩ := bind_ok done
    change (update k.procs p _ p).want = _
    rw [update_self]
  · cases failed.symm.trans done
  · cases called.symm.trans done
    exact want

section

variable (inv : k.Inv n committer pinned) (lt : event.proc < n)

include inv lt

/-- What the process that acts waits for afterwards. -/
theorem step_asks_self (done : k.step event = .ok k') (asks : k.Asks asked)
    (idle : (k'.procs event.proc).phase.commits = false)
    (wanted : (k'.procs event.proc).want = some s) :
    (k'.cache.buf s).blockno = some (k.askedAfter asked event event.proc) := by
  rcases step_cases k event with ⟨p, pc, rfl, here, stepped⟩ | ⟨p, rfl, quiet, stepped⟩ |
    ⟨ready, stepped⟩ | ⟨busy, stepped⟩
  · rw [stepped] at done
    -- Only the last step of a commit leaves it, and it waits for nothing.
    by_cases last : pc = .finish
    · subst last
      obtain ⟨pc', here', at'⟩ := inv.progress p (inv.only p _ here)
      cases here.symm.trans here'
      cases done
      change (update k.procs p _ p).want = _ at wanted
      rw [update_self] at wanted
      cases (at'.awake inv lt rfl).symm.trans wanted
    · cases (commitStep_commits here last done).symm.trans idle
  · rw [stepped] at done
    cases done
    change ((k.awake p).procs p).want = some s at wanted
    unfold awake at wanted ⊢
    cases pre : (k.procs p).want with
    | none =>
      simp only [pre] at wanted
      cases wanted
    | some x =>
      simp only [pre] at wanted ⊢
      by_cases free : (k.cache.buf x).lock = none
      · rw [if_neg (not_not.mpr free)] at wanted
        change (update k.procs p _ p).want = _ at wanted
        rw [update_self] at wanted
        cases wanted
      · rw [if_pos free] at wanted ⊢
        exact asks p s quiet wanted
  · rw [stepped] at done
    cases event with
    | bget p b =>
      obtain ⟨x, c', found, rfl⟩ := bget_ok done
      obtain ⟨-, -, block, -⟩ := Cache.bget_spec inv.cache found
      change (update k.procs p _ p).want = _ at wanted
      rw [update_self] at wanted
      cases wanted
      have asks' : k.askedAfter asked (.bget p b) = update asked p b := if_pos ready
      rw [asks']
      change (c'.buf s).blockno = some (update asked p b p)
      rw [update_self]
      exact block
    | _ =>
      have same := call_want (by rintro _ _ ⟨⟩) done
      rw [ready.1, wanted] at same
      cases same
  · rw [stepped] at done
    cases done
    have same : k.askedAfter asked event = asked := by
      cases event with
      | bget p b => exact if_neg busy
      | _ => rfl
    rw [same]
    exact asks _ s idle wanted

/-- Processes go on waiting for a buffer of the block they asked for. -/
theorem step_asks (bracketed : k.Bracketed event) (done : k.step event = .ok k')
    (asks : k.Asks asked) : k'.Asks (k.askedAfter asked event) := by
  intro q s idle wanted
  by_cases own : q = event.proc
  · subst own
    exact step_asks_self inv lt done asks idle wanted
  obtain ⟨frame, -⟩ := step_kept inv lt bracketed done
  rw [frame.others q own] at idle wanted
  have below : q < n := by
    by_contra above
    rw [inv.unborn q (by omega)] at wanted
    cases wanted
  have same : k.askedAfter asked event q = asked q := by
    unfold askedAfter
    split
    next p blockno =>
      split
      · exact update_of_ne own ..
      · rfl
    · rfl
  rw [same, frame.blocks s (users_mem below (Multiset.mem_add.mpr (.inl (mem_held.mpr wanted))))]
  exact asks q s idle wanted

end

end System

namespace Audit

def init (disk : Nat → Block) (start size : Nat) : Audit :=
  ⟨System.init disk start size, disk, fun _ => false, fun _ => 0⟩

def step (a : Audit) (event : Event) : Except LogPanic Audit := do
  return ⟨← a.system.step event, a.system.contentsAfter a.contents event,
    a.system.dirtyAfter a.dirty event, a.system.askedAfter a.asked event⟩

/-- Callers of `n` processes that change buffers only between `bread` and `log_write`. -/
def Disciplined (n : Nat) (a : Audit) (event : Event) : Prop :=
  System.Calls n a.system event ∧ a.system.Tidy a.dirty event

instance (n : Nat) (a : Audit) (event : Event) : Decidable (Disciplined n a event) :=
  inferInstanceAs (Decidable (_ ∧ _))

def Refines (n : Nat) (a : Audit) : Prop :=
  a.system.Asks a.asked ∧ ∃ committer pinned view, a.system.Inv n committer pinned ∧
    a.system.Data pinned view a.dirty a.contents

variable {n : Nat} {a a' : Audit} {event : Event}

theorem init_refines (disk : Nat → Block) (start n : Nat) {size : Nat} (room : 0 < size) :
    (init disk start size).Refines n :=
  ⟨nofun, none, [], disk, System.init_inv disk start size n, System.init_data disk start room⟩

theorem step_refines (refines : a.Refines n) (disciplined : a.Disciplined n event)
    (done : a.step event = .ok a') : a'.Refines n := by
  obtain ⟨asks, committer, pinned, view, inv, data⟩ := refines
  obtain ⟨⟨lt, bracketed⟩, tidy⟩ := disciplined
  obtain ⟨k', stepped, rfl⟩ := System.bind_ok done
  obtain ⟨-, committer', pinned', inv', kept⟩ := System.step_kept inv lt bracketed stepped
  obtain ⟨view', data'⟩ := kept view a.dirty a.contents data tidy
  exact ⟨System.step_asks inv lt bracketed stepped asks, committer', pinned', view', inv', data'⟩

theorem Refines.read {p s b : Nat} (refines : a.Refines n) (isHeld : s ∈ (a.system.procs p).held)
    (block : (a.system.cache.buf s).blockno = some b) (isHome : a.system.Home b)
    (isClean : a.dirty s = false) : (a.system.cache.buf s).data = a.contents b := by
  obtain ⟨-, committer, pinned, view, inv, data⟩ := refines
  have isLocked : (a.system.cache.buf s).lock ≠ none := by
    rw [(inv.locks p s).mpr isHeld]
    nofun
  rw [← data.agrees b isHome]
  exact data.shows.clean s b block (inv.cache.locked s isLocked).2 isClean

/-- `bread` returns a buffer of the block it was asked for, with what was logged last. -/
theorem Refines.bread {p s : Nat} (refines : a.Refines n)
    (idle : (a.system.procs p).phase.commits = false)
    (wanted : (a.system.procs p).want = some s) (free : (a.system.cache.buf s).lock = none) :
    ∃ k', a.system.step (.lock p) = .ok k' ∧ s ∈ (k'.procs p).held ∧
      (k'.cache.buf s).blockno = some (a.asked p) ∧
      (a.system.Home (a.asked p) → (k'.cache.buf s).data = a.contents (a.asked p)) := by
  obtain ⟨asks, committer, pinned, view, inv, data⟩ := refines
  have lt : p < n := by
    by_contra above
    rw [inv.unborn p (by omega)] at wanted
    cases wanted
  have used : s ∈ a.system.users n :=
    System.users_mem lt (Multiset.mem_add.mpr (.inl (mem_held.mpr wanted)))
  obtain ⟨-, shows, blocks, -⟩ := Cache.acquire_spec p inv.cache used free
  have stepped : a.system.step (.lock p) = .ok (a.system.lock p s) := by
    simp only [System.step, Event.proc, idle, Bool.false_eq_true, if_false]
    unfold System.awake
    simp only [wanted]
    rw [if_neg (not_not.mpr free)]
  have isHeld : s ∈ ((a.system.lock p s).procs p).held := by
    change s ∈ (update a.system.procs p _ p).held
    rw [update_self]
    exact List.mem_cons_self ..
  have block : ((a.system.lock p s).cache.buf s).blockno = some (a.asked p) :=
    (blocks s).trans (asks p s idle wanted)
  have disciplined : Disciplined n a (.lock p) := ⟨⟨lt, trivial⟩, trivial⟩
  have next : Refines n ⟨a.system.lock p s, a.contents, a.dirty, a.asked⟩ := by
    refine step_refines ⟨asks, committer, pinned, view, inv, data⟩ disciplined ?_
    unfold step
    rw [stepped]
    rfl
  exact ⟨_, stepped, isHeld, block, fun isHome =>
    next.read isHeld block isHome (shows _ _ data.shows).2⟩

/-- Over any run of disciplined callers the cache shows the array: `bread` returns what was
logged last for its block, and a buffer shows it until its holder changes it. -/
theorem cache_refines_array (disk : Nat → Block) (start size n : Nat) (room : 0 < size)
    (events : List Event) (disciplined : Meets step (Disciplined n) (init disk start size) events)
    {a : Audit} (ran : run step (init disk start size) events = .ok a) :
    (∀ p s, (a.system.procs p).phase.commits = false → (a.system.procs p).want = some s →
      (a.system.cache.buf s).lock = none →
        ∃ k', a.system.step (.lock p) = .ok k' ∧ s ∈ (k'.procs p).held ∧
          (k'.cache.buf s).blockno = some (a.asked p) ∧
          (a.system.Home (a.asked p) → (k'.cache.buf s).data = a.contents (a.asked p))) ∧
      ∀ p s b, s ∈ (a.system.procs p).held → (a.system.cache.buf s).blockno = some b →
        a.system.Home b → a.dirty s = false → (a.system.cache.buf s).data = a.contents b := by
  have refines : a.Refines n :=
    run_invariant (fun _ _ _ refines => step_refines refines) (init_refines disk start n room)
      disciplined ran
  exact ⟨fun _ _ idle wanted free => refines.bread idle wanted free,
    fun _ _ _ isHeld block isHome isClean => refines.read isHeld block isHome isClean⟩

/-- Process 1 asks for a block that process 0 has logged and is committing. -/
def readDuringCommit : List Event :=
  [.beginOp 0, .bget 0 40, .lock 0, .modify 0 0 fun _ => 1, .logWrite 0 0, .brelse 0 0,
    .endOp 0] ++ List.replicate 10 (.commit 0) ++ [.bget 1 40]

theorem cache_refines_array_during_commit :
    ∃ a k', run step (init (fun _ _ => 0) 2 30) readDuringCommit = .ok a ∧
      a.system.step (.lock 1) = .ok k' ∧ 0 ∈ (k'.procs 1).held ∧
        (k'.cache.buf 0).blockno = some 40 ∧ (k'.cache.buf 0).data 0 = 1 := by
  have disciplined : Meets step (Disciplined 2) (init (fun _ _ => 0) 2 30) readDuringCommit := by
    decide +kernel
  have known : (run step (init (fun _ _ => 0) 2 30) readDuringCommit).map (fun a =>
      decide ((a.system.procs 1).phase = .outside ∧ (a.system.procs 1).want = some 0 ∧
        (a.system.cache.buf 0).lock = none ∧ a.asked 1 = 40 ∧ a.system.Home 40 ∧
        a.contents 40 0 = 1)) = .ok true := by
    decide +kernel
  obtain ⟨a, ran, facts⟩ := of_map_eq_ok known
  rw [decide_eq_true_eq] at facts
  obtain ⟨outside, wanted, free, asked, isHome, logged⟩ := facts
  obtain ⟨k', stepped, isHeld, block, shown⟩ :=
    (cache_refines_array _ 2 30 2 (by decide) _ disciplined ran).1 1 0
      (by rw [outside]; rfl) wanted free
  rw [asked] at block shown
  exact ⟨a, k', ran, stepped, isHeld, block, by rw [shown isHome, logged]⟩

end Audit

end Xv6Rv32im.Log
