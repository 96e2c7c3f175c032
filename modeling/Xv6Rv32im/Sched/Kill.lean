import Xv6Rv32im.Sched.Model

/-!
# Killed processes

`fork`, `exit`, `wait` and `kill` as whole calls on the process table, one after another.
`kill` compares pids and not states, and `allocproc` leaves `killed` as it is.  The pid of a
free slot is 0: `kill(0)` marks such a slot, and the next process in it is born killed.
-/

namespace Xv6Rv32im.Sched

open Library.Run Function List
open Process (NPROC)

/-- The process table between two calls. -/
structure Table where
  procs : Nat → Proc
  nextpid : BitVec 32

namespace Table

def boot : Table where
  procs := (Kernel.boot 0).procs
  nextpid := (Kernel.boot 0).nextpid

def setProc (t : Table) (i : Nat) (proc : Proc) : Table :=
  { t with procs := update t.procs i proc }

def find (t : Table) (stops : Proc → Bool) : Option Nat :=
  (range NPROC).find? fun i => stops (t.procs i)

def kill (t : Table) (pid : BitVec 32) : BitVec 32 × Table :=
  match t.find (·.pid == pid) with
  | some i =>
    (0, t.setProc i { t.procs i with
      killed := true
      state := if (t.procs i).state = .sleeping then .runnable else (t.procs i).state })
  | none => (-1, t)

/-- `found` tells whether there is memory for the trapframe and the page table. -/
def allocproc (t : Table) (found : Bool) : Option Nat × Table :=
  match t.find (·.state == .unused) with
  | none => (none, t)
  | some i =>
    let t := { t.setProc i { t.procs i with pid := t.nextpid, state := .used } with
      nextpid := t.nextpid + 1 }
    if found then (some i, t) else (none, t.setProc i (t.procs i).freeproc)

/-- `copied` tells whether there is memory for the copy of the parent. -/
def fork (t : Table) (p : Nat) (found copied : Bool) : BitVec 32 × Table :=
  match t.allocproc found with
  | (none, t) => (-1, t)
  | (some i, t) =>
    if copied then
      ((t.procs i).pid, t.setProc i { t.procs i with parent := some p, state := .runnable })
    else (-1, t.setProc i (t.procs i).freeproc)

def wakeup (t : Table) (p : Nat) (chan : Option Chan) : Table :=
  { t with procs := fun i =>
      if i ≠ p ∧ (t.procs i).state = .sleeping ∧ (t.procs i).chan = chan then
        { t.procs i with state := .runnable }
      else t.procs i }

def reparent (t : Table) (p : Nat) : Table :=
  (range NPROC).foldl (fun t i =>
    if (t.procs i).parent = some p then
      (t.setProc i { t.procs i with parent := some INITPROC }).wakeup p (some (.proc INITPROC))
    else t) t

def exit (t : Table) (p : Nat) (status : BitVec 32) : Except Fault Table :=
  if p = INITPROC then .error .initExiting
  else
    let t := t.reparent p
    let t := t.wakeup p ((t.procs p).parent.map .proc)
    .ok (t.setProc p { t.procs p with xstate := status, state := .zombie })

/-- One scan of `wait`, with no result if the process sleeps until the next scan.  `copied`
tells whether the exit status can be copied out. -/
def wait (t : Table) (p : Nat) (copied : Bool) : Option (BitVec 32) × Table :=
  -- back from `sleep`
  let t := t.setProc p { t.procs p with chan := none }
  match t.find fun np => np.parent == some p && np.state == .zombie with
  | some i =>
    if copied then (some (t.procs i).pid, t.setProc i (t.procs i).freeproc) else (some (-1), t)
  | none =>
    if (t.find (·.parent == some p)).isNone || (t.procs p).killed then (some (-1), t)
    else (none, t.setProc p { t.procs p with chan := some (.proc p), state := .sleeping })

/-- The calls, and a fault in user space. -/
inductive Call where
  | fork (found copied : Bool)
  | exit (status : BitVec 32)
  | wait (copied : Bool)
  | kill (pid : BitVec 32)
  | fault

def perform (t : Table) (p : Nat) : Call → Except Fault Table
  | .fork found copied => .ok (t.fork p found copied).2
  | .exit status => t.exit p status
  | .wait copied => .ok (t.wait p copied).2
  | .kill pid => .ok (t.kill pid).2
  | .fault => (t.setProc p { t.procs p with killed := true }).exit p (-1)

/-- A call of process `p` is a `kill` with this pid, or a fault of process `i` itself. -/
def Call.strikes (p i : Nat) (pid : BitVec 32) : Call → Bool
  | .kill pid' => pid == pid'
  | .fault => i == p
  | _ => false

/-- `kill` succeeds exactly when a process has the pid, and marks only such a process. -/
def KillsExactly (t : Table) (pid : BitVec 32) : Prop :=
  ((t.kill pid).1 = 0 ↔ ∃ i < NPROC, (t.procs i).state ≠ .unused ∧ (t.procs i).pid = pid) ∧
  ((t.kill pid).1 = 0 → ∃ i < NPROC, (t.procs i).state ≠ .unused ∧ (t.procs i).pid = pid ∧
    ∃ proc, proc.killed = true ∧ (t.kill pid).2 = t.setProc i proc) ∧
  ((t.kill pid).1 ≠ 0 → (t.kill pid).1 = -1 ∧ (t.kill pid).2 = t)

/-- `kill(0)` when no slot is free, or another pid. -/
def Harmless (t : Table) (pid : BitVec 32) : Prop :=
  pid = 0 → ∀ i < NPROC, (t.procs i).state ≠ .unused

/-! ## What a call makes of a slot -/

/-- A slot keeps its pid and its mark, and is as free as before. -/
def Kept (old new : Proc) : Prop :=
  new.pid = old.pid ∧ new.killed = old.killed ∧ (new.state = .unused ↔ old.state = .unused)

theorem Kept.refl (proc : Proc) : Kept proc proc :=
  ⟨rfl, rfl, Iff.rfl⟩

def Keeps (t t' : Table) : Prop :=
  ∀ i, Kept (t.procs i) (t'.procs i)

/-- A slot is kept, freed, taken, or struck. -/
inductive Moves (strikes : Bool) (old new : Proc) : Prop
  | kept (kept : Kept old new)
  | freed (proc : Proc) (freed : new = proc.freeproc)
  | taken (free : old.state = .unused) (state : new.state ≠ .unused)
      (killed : new.killed = old.killed)
  | struck (live : old.state ≠ .unused) (state : new.state ≠ .unused) (strikes : strikes = true)

variable {t t' : Table} {p i : Nat} {strikes : Bool} {pid : BitVec 32}

theorem find_some {stops : Proc → Bool} (found : t.find stops = some i) :
    i < NPROC ∧ stops (t.procs i) = true := by
  unfold find at found
  have stopped := find?_some found
  exact ⟨mem_range.mp (mem_of_find?_eq_some found), stopped⟩

theorem procs_setProc (t : Table) (i : Nat) (proc : Proc) (j : Nat) :
    (t.setProc i proc).procs j = if j = i then proc else t.procs j :=
  update_apply ..

theorem Keeps.trans {t'' : Table} (first : t.Keeps t') (second : t'.Keeps t'') : t.Keeps t'' :=
  fun i => ⟨(second i).1.trans (first i).1, (second i).2.1.trans (first i).2.1,
    (second i).2.2.trans (first i).2.2⟩

theorem Keeps.setProc {proc : Proc} (kept : Kept (t.procs i) proc) :
    t.Keeps (t.setProc i proc) := by
  intro j
  rw [procs_setProc]
  split
  case isTrue same => exact same ▸ kept
  case isFalse => exact .refl _

theorem wakeup_keeps (t : Table) (p : Nat) (chan : Option Chan) : t.Keeps (t.wakeup p chan) := by
  intro i
  unfold wakeup
  dsimp only
  split
  case isTrue sleeping => exact ⟨rfl, rfl, iff_of_false nofun (by rw [sleeping.2.1]; nofun)⟩
  case isFalse => exact .refl _

theorem reparent_keeps (t : Table) (p : Nat) : t.Keeps (t.reparent p) := by
  unfold reparent
  induction range NPROC generalizing t with
  | nil => exact fun _ => .refl _
  | cons i rest ih =>
    refine .trans ?_ (ih _)
    dsimp only
    split
    · refine .trans (.setProc ?_) (wakeup_keeps _ _ _)
      exact ⟨rfl, rfl, Iff.rfl⟩
    · exact fun _ => .refl _

theorem exit_keeps {status : BitVec 32} (live : (t.procs p).state ≠ .unused)
    (done : t.exit p status = .ok t') : t.Keeps t' := by
  unfold exit at done
  split at done
  · cases done
  cases done
  have woken := (reparent_keeps t p).trans
    (wakeup_keeps _ p (((t.reparent p).procs p).parent.map .proc))
  refine woken.trans (.setProc ⟨rfl, rfl, iff_of_false nofun ?_⟩)
  exact fun free => live ((woken p).2.2.mp free)

theorem fork_moves (t : Table) (p : Nat) (found copied : Bool) (i : Nat) :
    Moves strikes (t.procs i) ((t.fork p found copied).2.procs i) := by
  unfold fork allocproc
  cases slot : t.find (·.state == .unused) with
  | none => exact .kept (.refl _)
  | some j =>
    have free : (t.procs j).state = .unused := by simpa using (find_some slot).2
    by_cases same : i = j
    · subst same
      cases found
      · exact .freed _ (update_self ..)
      · cases copied
        · exact .freed _ (update_self ..)
        · exact .taken free (by simp [procs_setProc]) (by simp [procs_setProc])
    · cases found <;> cases copied <;> exact .kept (by simp [procs_setProc, same, Kept])

theorem wait_moves (live : (t.procs p).state ≠ .unused) (copied : Bool) (i : Nat) :
    Moves strikes (t.procs i) ((t.wait p copied).2.procs i) := by
  have resumed : t.Keeps (t.setProc p { t.procs p with chan := none }) :=
    .setProc ⟨rfl, rfl, Iff.rfl⟩
  unfold wait
  dsimp only
  split
  case h_1 j found =>
    split
    · rw [procs_setProc]
      split
      · exact .freed _ rfl
      · exact .kept (resumed i)
    · exact .kept (resumed i)
  case h_2 =>
    split
    · exact .kept (resumed i)
    · refine .kept (resumed.trans (.setProc ?_) i)
      exact ⟨rfl, rfl, iff_of_false nofun fun free => live ((resumed p).2.2.mp free)⟩

theorem kill_moves (live : ∀ i < NPROC, (t.procs i).pid = pid → (t.procs i).state ≠ .unused)
    (i : Nat) : Moves ((t.procs i).pid == pid) (t.procs i) ((t.kill pid).2.procs i) := by
  unfold kill
  split
  case h_1 j found =>
    obtain ⟨lt, named⟩ := find_some found
    have inUse := live j lt (by simpa using named)
    rw [procs_setProc]
    split
    case isTrue same =>
      subst same
      refine .struck inUse ?_ named
      split
      · nofun
      · exact inUse
    case isFalse => exact .kept (.refl _)
  case h_2 => exact .kept (.refl _)

theorem fault_moves (live : (t.procs p).state ≠ .unused) (done : t.perform p .fault = .ok t')
    (i : Nat) : Moves (i == p) (t.procs i) (t'.procs i) := by
  have kept := exit_keeps (by rwa [procs_setProc, if_pos rfl]) done i
  rw [procs_setProc] at kept
  split at kept
  case isTrue same =>
    subst same
    exact .struck live (fun free => live (kept.2.2.mp free)) (beq_self_eq_true i)
  case isFalse => exact .kept kept

/-- `kill` is exact when no free slot has the pid. -/
theorem killsExactly (live : ∀ i < NPROC, (t.procs i).pid = pid →
    (t.procs i).state ≠ .unused) : t.KillsExactly pid := by
  unfold KillsExactly kill
  split
  case h_1 i found =>
    obtain ⟨lt, named⟩ := find_some found
    have named : (t.procs i).pid = pid := by simpa using named
    have inUse := live i lt named
    exact ⟨iff_of_true rfl ⟨i, lt, inUse, named⟩, fun _ => ⟨i, lt, inUse, named, _, rfl, rfl⟩,
      fun no => absurd rfl no⟩
  case h_2 missing =>
    have failed : (-1 : BitVec 32) ≠ 0 := by decide
    refine ⟨iff_of_false failed ?_, fun yes => absurd yes failed, fun _ => ⟨rfl, rfl⟩⟩
    rintro ⟨i, lt, -, named⟩
    have passed := find?_eq_none.mp missing i (mem_range.mpr lt)
    simp [named] at passed

end Table

/-! ## Runs -/

/-- The table, and for each slot whether its process has been struck since it was created. -/
structure Watched where
  table : Table
  struck : Nat → Bool

namespace Watched

open Table (Call)

def boot : Watched :=
  ⟨.boot, fun _ => false⟩

def step (w : Watched) (event : Nat × Call) : Except Fault Watched :=
  if event.1 < NPROC ∧ (w.table.procs event.1).state = .runnable then
    (w.table.perform event.1 event.2).map fun table =>
      ⟨table, fun i => decide ((w.table.procs i).state ≠ .unused) &&
        (w.struck i || event.2.strikes event.1 i (w.table.procs i).pid)⟩
  else .ok w

/-- No call is a `kill(0)` that finds a free slot. -/
def KillsLive (w : Watched) : Nat × Call → Prop
  | (_, .kill pid) => w.table.Harmless pid
  | _ => True

instance (w : Watched) : DecidablePred w.KillsLive
  | (_, .kill _) => inferInstanceAs (Decidable (_ → ∀ i < NPROC, _))
  | (_, .fork ..) | (_, .exit _) | (_, .wait _) | (_, .fault) => isTrue trivial

/-- A process that is marked has been struck. -/
def Marked (w : Watched) : Prop :=
  ∀ i, (w.table.procs i).state ≠ .unused → (w.table.procs i).killed = true → w.struck i = true

/-- Moreover a free slot has pid 0 and no mark. -/
structure Sound (w : Watched) : Prop where
  free : ∀ i, (w.table.procs i).state = .unused →
    (w.table.procs i).pid = 0 ∧ (w.table.procs i).killed = false
  marked : w.Marked

theorem boot_sound : boot.Sound := by
  have init i : (boot.table.procs i).killed = false ∧
      ((boot.table.procs i).state = .unused → (boot.table.procs i).pid = 0) := by
    unfold boot Table.boot Kernel.boot
    dsimp only
    split
    · exact ⟨rfl, nofun⟩
    · exact ⟨rfl, fun _ => rfl⟩
  exact ⟨fun i free => ⟨(init i).2 free, (init i).1⟩,
    fun i _ killed => nomatch (init i).1.symm.trans killed⟩

variable {w w' : Watched} {event : Nat × Call}

/-- No free slot has the pid of a harmless `kill`. -/
theorem Sound.live (sound : w.Sound) (harmless : w.table.Harmless pid) (i : Nat)
    (lt : i < NPROC) (named : (w.table.procs i).pid = pid) :
    (w.table.procs i).state ≠ .unused :=
  fun free => harmless (named ▸ (sound.free i free).1) i lt free

theorem step_sound (sound : w.Sound) (lives : w.KillsLive event) (done : w.step event = .ok w') :
    w'.Sound := by
  obtain ⟨p, call⟩ := event
  unfold step at done
  split at done
  case isFalse => exact Except.ok.inj done ▸ sound
  case isTrue runs =>
    obtain ⟨table, performed, rfl⟩ := of_map_eq_ok done
    have live : (w.table.procs p).state ≠ .unused := by
      rw [runs.2]
      nofun
    have moves i : Table.Moves (call.strikes p i (w.table.procs i).pid) (w.table.procs i)
        (table.procs i) := by
      cases call with
      | fork found copied =>
        cases performed
        exact Table.fork_moves ..
      | exit status =>
        change w.table.exit p status = _ at performed
        exact .kept (Table.exit_keeps live performed i)
      | wait copied =>
        cases performed
        exact Table.wait_moves live copied i
      | kill pid =>
        cases performed
        exact Table.kill_moves (sound.live lives) i
      | fault => exact Table.fault_moves live performed i
    refine ⟨fun i free => ?_, fun i inUse killed => ?_⟩
    · rcases moves i with ⟨pid, same, state⟩ | ⟨proc, freed⟩ | ⟨-, state, -⟩ | ⟨-, state, -⟩
      · obtain ⟨zero, unmarked⟩ := sound.free i (state.mp free)
        exact ⟨pid.trans zero, same.trans unmarked⟩
      · rw [freed]
        exact ⟨rfl, rfl⟩
      · exact absurd free state
      · exact absurd free state
    · rcases moves i with ⟨-, same, state⟩ | ⟨proc, freed⟩ | ⟨free, -, same⟩ | ⟨pre, -, strikes⟩
      · have pre : (w.table.procs i).state ≠ .unused := fun free => inUse (state.mpr free)
        simp [pre, sound.marked i pre (same ▸ killed)]
      · exact absurd (freed ▸ rfl) inUse
      · cases ((sound.free i free).2.symm.trans same.symm).trans killed
      · simp [pre, strikes]

/-- `kill` affects only live processes: it returns 0 exactly when a process has the pid, and a
process is marked only after a `kill` with its pid or a fault of its own. -/
theorem kill_marks_live {events : List (Nat × Call)} {w : Watched}
    (lives : Meets step KillsLive boot events) (ran : run step boot events = .ok w) :
    (∀ pid, w.table.Harmless pid → w.table.KillsExactly pid) ∧ w.Marked := by
  have sound := run_invariant (fun _ _ _ => step_sound) boot_sound lives ran
  exact ⟨fun pid harmless => Table.killsExactly (sound.live harmless), sound.marked⟩

def killsChild : List (Nat × Call) :=
  [(0, .fork true true), (0, .kill 2), (0, .fork true true)]

theorem kill_marks_live_child : Meets step KillsLive boot killsChild ∧
    ∃ w, run step boot killsChild = .ok w ∧ (w.table.procs 1).killed = true ∧
      (w.table.procs 2).killed = false ∧
      (∀ pid, w.table.Harmless pid → w.table.KillsExactly pid) ∧ w.Marked := by
  have lives : Meets step KillsLive boot killsChild := by decide
  exact ⟨lives, _, rfl, rfl, rfl, kill_marks_live lives rfl⟩

/-- `kill(0)` succeeds although no process has pid 0, and the next child is born killed. -/
theorem kill_zero_marks_child :
    (boot.table.kill 0).1 = 0 ∧ (¬∃ i < NPROC, (boot.table.procs i).state ≠ .unused ∧
      (boot.table.procs i).pid = 0) ∧
    ∃ w, run step boot [(0, .kill 0), (0, .fork true true)] = .ok w ∧
      (w.table.procs 1).state = .runnable ∧ (w.table.procs 1).pid = 2 ∧
      (w.table.procs 1).killed = true ∧ w.struck 1 = false :=
  ⟨by decide, by decide, _, rfl, rfl, rfl, rfl, rfl⟩

end Watched

end Xv6Rv32im.Sched
