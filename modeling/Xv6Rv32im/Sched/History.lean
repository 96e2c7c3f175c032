import Xv6Rv32im.Sched.Family

/-!
# Births, exits and reports

The records of births, exits and reports agree with the process table: a process that has
exited is a zombie until it is reported, and a child belongs to the process that forked it or,
once that one has exited, to `initproc`.
-/

namespace Xv6Rv32im.Sched

open Function Library List Proc Option

namespace Kernel

variable {n : Nat}

/-- The process of a birth has exited, or holds `wait_lock` in `exit`. -/
def Exits (k : Kernel n) (birth : Nat) : Prop :=
  (∃ exit ∈ k.exits, exit.birth = birth) ∨
    ∃ c p, exiting (k.harts c).stack = some p ∧ (k.procs p).birth = birth

/-- The second process forked the first, or it is `initproc` and that one exits. -/
def Descends (k : Kernel n) (q p : Nat) : Prop :=
  ∃ birth, k.born[(k.procs q).birth]? = some birth ∧ (birth.forker = some (k.procs p).birth ∨
      p = INITPROC ∧ ∃ forker, birth.forker = some forker ∧ k.Exits forker)

/-- A report tells the pid and status of a process that exited, to the right process. -/
def Truthful (k : Kernel n) (report : Report) : Prop :=
  ⟨report.child, report.status⟩ ∈ k.exits ∧
    (∃ birth, k.born[report.child]? = some birth ∧ birth.pid = report.pid ∧
      (birth.forker = some report.waiter ∨
        report.waiter = 0 ∧ ∃ exit ∈ k.exits, birth.forker = some exit.birth)) ∧
    report.onHart = false

structure History (k : Kernel n) : Prop where
  pids : ∀ q, (k.procs q).state ≠ .unused →
    ∃ birth, k.born[(k.procs q).birth]? = some birth ∧ birth.pid = (k.procs q).pid
  bounded : ∀ exit ∈ k.exits, exit.birth < k.born.length
  zombies : ∀ q, (k.procs q).state = .zombie → ⟨(k.procs q).birth, (k.procs q).xstate⟩ ∈ k.exits
  alive : ∀ q, k.Live q → ∀ exit ∈ k.exits, exit.birth ≠ (k.procs q).birth
  exitsOnce : (k.exits.map Exit.birth).Nodup
  stays : ∀ exit ∈ k.exits, (∃ report ∈ k.reports, report.child = exit.birth) ∨
    ∃ q, (k.procs q).state = .zombie ∧ (k.procs q).birth = exit.birth ∧
      (k.procs q).xstate = exit.status
  reportedOnce : (k.reports.map Report.child).Nodup
  gone : ∀ report ∈ k.reports, ∀ q, (k.procs q).state ≠ .unused → (k.procs q).birth ≠ report.child
  truthful : ∀ report ∈ k.reports, k.Truthful report
  ancestry : ∀ q p, (k.procs q).parent = some p → k.Descends q p

variable {k k' : Kernel n} {t : Fin n → Thread} {c : Fin n} {p q : Nat} {stack : List Frame}

/-- An `exit` that goes on, or has made its process a zombie, is not forgotten. -/
theorem Exits.mono {birth : Nat} (exits : k.Exits birth) (grow : ∀ exit ∈ k.exits, exit ∈ k'.exits)
    (pending : ∀ c p, exiting (k.harts c).stack = some p → k'.Exits (k.procs p).birth) :
    k'.Exits birth := by
  rcases exits with ⟨exit, mem, same⟩ | ⟨c, p, exits, rfl⟩
  · exact .inl ⟨exit, grow exit mem, same⟩
  · exact pending c p exits

theorem Descends.mono {q p : Nat} (descends : k.Descends q p)
    (births : ∀ birth, k.born[(k.procs q).birth]? = some birth →
      k'.born[(k'.procs q).birth]? = some birth) (same : (k'.procs p).birth = (k.procs p).birth)
    (exits : ∀ birth, k.Exits birth → k'.Exits birth) : k'.Descends q p := by
  obtain ⟨birth, born, forker | ⟨init, forker, is, gone⟩⟩ := descends
  · exact ⟨birth, births birth born, .inl (same ▸ forker)⟩
  · exact ⟨birth, births birth born, .inr ⟨init, forker, is, exits forker gone⟩⟩

theorem exits_of_stacks (exits : k'.exits = k.exits)
    (births : ∀ p, (k'.procs p).birth = (k.procs p).birth)
    (pending : ∀ c p, exiting (k.harts c).stack = some p → exiting (k'.harts c).stack = some p)
    (birth : Nat) (gone : k.Exits birth) : k'.Exits birth :=
  gone.mono (fun _ mem => exits ▸ mem) fun c p exits =>
    .inr ⟨c, p, pending c p exits, births p⟩

section

variable (history : k.History)

include history

theorem History.of_procs (procs : k'.procs = k.procs) (born : k'.born = k.born)
    (exits : k'.exits = k.exits) (reports : k'.reports = k.reports)
    (pending : ∀ c p, exiting (k.harts c).stack = some p →
      exiting (k'.harts c).stack = some p) : k'.History where
  pids := by
    rw [procs, born]
    exact history.pids
  bounded := by
    rw [exits, born]
    exact history.bounded
  zombies := by
    rw [procs, exits]
    exact history.zombies
  alive := by
    unfold Live
    rw [procs, exits]
    exact history.alive
  exitsOnce := by
    rw [exits]
    exact history.exitsOnce
  stays := by
    rw [exits, reports, procs]
    exact history.stays
  reportedOnce := by
    rw [reports]
    exact history.reportedOnce
  gone := by
    rw [reports, procs]
    exact history.gone
  truthful := by
    unfold Truthful
    rw [reports, exits, born]
    exact history.truthful
  ancestry := by
    intro q p parent
    rw [procs] at parent
    refine (history.ancestry q p parent).mono (fun birth is => ?_) (by rw [procs])
      (exits_of_stacks exits (fun _ => by rw [procs]) pending)
    rw [born, procs]
    exact is

theorem History.move (moved : k.Moved k' c stack)
    (pending : ∀ p, exiting (k.harts c).stack = some p → exiting stack = some p) : k'.History := by
  refine history.of_procs moved.procs moved.born moved.exits moved.reports fun c' p exits => ?_
  rcases eq_or_ne c' c with rfl | other
  · rw [moved.stack]
    exact pending p exits
  · rw [moved.others c' other]
    exact exits

/-- One process changes, neither born nor turned into a zombie nor reported. -/
theorem History.change {new : Proc} (procs : k'.procs = update k.procs q new)
    (born : k'.born = k.born) (exits : k'.exits = k.exits) (reports : k'.reports = k.reports)
    (birth : new.birth = (k.procs q).birth)
    (old : new.state ≠ .unused → (k.procs q).state ≠ .unused ∧ new.pid = (k.procs q).pid)
    (zombie : new.state = .zombie ↔ (k.procs q).state = .zombie)
    (xstate : new.state = .zombie → new.xstate = (k.procs q).xstate)
    (ancestry : ∀ q p, (k'.procs q).parent = some p → k'.Descends q p) : k'.History := by
  have slots p : k'.procs p = if p = q then new else k.procs p := by
    rw [procs, update_apply]
  have births : ∀ p, (k'.procs p).birth = (k.procs p).birth :=
    procs ▸ apply_update_eq Proc.birth birth
  have zombies p : (k'.procs p).state = .zombie ↔ (k.procs p).state = .zombie := by grind
  have statuses p (is : (k'.procs p).state = .zombie) :
      (k'.procs p).xstate = (k.procs p).xstate := by grind
  have pre p (used : (k'.procs p).state ≠ .unused) :
      (k.procs p).state ≠ .unused ∧ (k'.procs p).pid = (k.procs p).pid := by grind
  refine ⟨fun p used => ?_, ?_, fun p is => ?_, fun p live => ?_, ?_, fun exit mem => ?_, ?_,
    fun report mem p used => ?_, ?_, ancestry⟩
  · obtain ⟨used', pid⟩ := pre p used
    rw [births, born, pid]
    exact history.pids p used'
  · rw [exits, born]
    exact history.bounded
  · rw [births, statuses p is, exits]
    exact history.zombies p ((zombies p).mp is)
  · rw [births, exits]
    exact history.alive p ⟨(pre p live.1).1, fun is => live.2 ((zombies p).mpr is)⟩
  · rw [exits]
    exact history.exitsOnce
  · rw [exits] at mem
    rw [reports]
    refine (history.stays exit mem).imp_right fun ⟨p, is, same, status⟩ => ?_
    have now := (zombies p).mpr is
    exact ⟨p, now, (births p).trans same, (statuses p now).trans status⟩
  · rw [reports]
    exact history.reportedOnce
  · rw [reports] at mem
    rw [births]
    exact history.gone report mem p (pre p used).1
  · unfold Truthful
    rw [reports, exits, born]
    exact history.truthful

theorem History.restate {new : Proc} (restated : Restated (k.procs q) new) :
    (k.setProc q new).History := by
  have births : ∀ p, ((k.setProc q new).procs p).birth = (k.procs p).birth :=
    apply_update_eq birth restated.birth
  refine history.change rfl rfl rfl rfl restated.birth
    (fun used => ⟨fun unused => used (restated.unused.mpr unused), restated.pid used⟩)
    restated.zombie restated.xstate fun x p is => ?_
  rw [restated_parents restated] at is
  refine (history.ancestry x p is).mono (fun birth born => ?_) (births p)
    (exits_of_stacks rfl births fun _ _ same => same)
  rw [births]
  exact born

end

/-! ## A birth -/

section

variable (k c stack) (i forker : Nat)

theorem procs_allocate (q : Nat) : ((k.allocate i forker).goto c stack).procs q =
    if q = i then { k.procs i with state := .used, pid := k.nextpid, birth := k.born.length }
    else k.procs q :=
  update_apply ..

theorem born_allocate {birth : Birth} (born : k.born[q]? = some birth) :
    ((k.allocate i forker).goto c stack).born[q]? = some birth := by
  change (k.born ++ _)[q]? = _
  rw [List.getElem?_append_left (List.getElem?_eq_some_iff.mp born).1]
  exact born

end

/-- The process in a slot that is no longer free is another one. -/
theorem Family.allocate {i : Nat} (family : k.Family t) (thread : t c = .proc p)
    (unused : (k.procs i).state = .unused) (makes : making stack = some i)
    (claims : ∀ frame ∈ stack, k.Claims frame) :
    ((k.allocate i (k.procs p).birth).goto c stack).Family t := by
  have slots := procs_allocate k c stack i (k.procs p).birth
  have old {q birth} := @born_allocate _ k c q stack i (k.procs p).birth birth
  set k' := (k.allocate i (k.procs p).birth).goto c stack
  have others c' (ne : c' ≠ c) : k'.harts c' = k.harts c' := setHart_other _ _ ne
  have hart : (k'.harts c).stack = stack := congrArg Hart.stack (setHart_self ..)
  have length : k'.born.length = k.born.length + 1 := length_append
  have parents : ∀ q, (k'.procs q).parent = (k.procs q).parent := apply_update_eq parent rfl
  have same q (used : (k.procs q).state ≠ .unused) : k'.procs q = k.procs q := by grind
  refine ⟨fun c' q is => ?_, fun q used => ?_, fun q r used used' equal => ?_,
    fun q calls j now makes' => ?_, fun q is => ?_, fun q r is => ?_, ?_,
    family.claims_same parents others (hart.symm ▸ claims)⟩
  · have used := family.occupied c' q is
    rwa [same q used]
  · have births := family.births q
    grind
  · have births := family.births
    have distinct := family.distinct q r
    grind
  · -- a call that makes another child is one from before
    have pre (pending : k.StackOf t q calls) : (k'.procs j).state = .used ∧
        ∃ birth, k'.born[(k'.procs j).birth]? = some birth ∧
          birth.forker = some (k'.procs q).birth := by
      obtain ⟨state, birth, born, forker⟩ := family.forks q calls j pending makes'
      rw [same j (by rw [state]; decide), same q (family.stack_used pending)]
      exact ⟨state, birth, old born, forker⟩
    rcases now with ⟨c', is, calls'⟩ | ⟨live, nowhere, saved⟩
    · rcases eq_or_ne c' c with rfl | ne
      · obtain rfl := Thread.proc.inj (thread.symm.trans is)
        obtain rfl : stack = calls := hart.symm.trans calls'
        obtain rfl : i = j := some.inj (makes.symm.trans makes')
        rw [slots i, if_pos rfl, same p (family.occupied c' p is)]
        exact ⟨rfl, _, List.getElem?_concat_length, rfl⟩
      · rw [others c' ne] at calls'
        exact pre (.inl ⟨c', is, calls'⟩)
    · change update k.context i (some [.forkret i, .user i []]) q = some calls at saved
      rcases eq_or_ne q i with rfl | ne
      · rw [update_self] at saved
        rw [← some.inj saved] at makes'
        exact nomatch makes'
      rw [update_of_ne ne] at saved
      unfold Live at live
      rw [slots, if_neg ne] at live
      exact pre (.inr ⟨live, nowhere, saved⟩)
  · rw [parents]
    have orphan := family.orphan q
    grind
  · rw [parents] at is
    have awake := family.tree q r is
    rwa [same r ((ProcState.awake_iff _).mp awake).1]
  · rw [same INITPROC ((ProcState.awake_iff _).mp family.init.1).1]
    exact family.init

theorem exiting_thread {thread : Thread} (shape : Shape thread stack)
    (exits : exiting stack = some p) : thread = .proc p := by
  induction shape with
  | user | scheduler | forkret => cases exits
  | trap held below free ih | yield pc below free ih | wakeup chan i locked below unlocked ih
  | kill pid i locked below unlocked ih => exact ih exits
  | sleep | waitSleep => cases exits
  | fork _ pc held lt => cases exits
  | exit q status pc notInit goesOn =>
    cases pc with
    | reparent i | lock | zombie => exact congrArg Thread.proc (some.inj exits)
    | start | unlock | sched | resumed => cases exits
  | wait _ pc => cases exits

theorem History.allocate {i : Nat} (history : k.History) (family : k.Family t) (sys : k.Sys t)
    (unused : (k.procs i).state = .unused) (forker : Nat)
    (pending : ∀ p, exiting (k.harts c).stack = some p → exiting stack = some p) :
    ((k.allocate i forker).goto c stack).History := by
  have slots := procs_allocate k c stack i forker
  have old {q birth} := @born_allocate _ k c q stack i forker birth
  set k' := (k.allocate i forker).goto c stack
  have same q (used : (k.procs q).state ≠ .unused) : k'.procs q = k.procs q := by grind
  have exits (birth : Nat) (gone : k.Exits birth) : k'.Exits birth := by
    refine gone.mono (fun _ mem => mem) fun c' p exits => ?_
    have thread := exiting_thread (sys.shape c') exits
    refine .inr ⟨c', p, ?_, by rw [same p (family.occupied c' p thread)]⟩
    rcases eq_or_ne c' c with rfl | ne
    · have hart : (k'.harts c').stack = stack := congrArg Hart.stack (setHart_self ..)
      rw [hart]
      exact pending p exits
    · have hart : k'.harts c' = k.harts c' := setHart_other _ _ ne
      rw [hart]
      exact exits
  refine ⟨fun q used => ?_, fun exit mem => ?_, fun q is => ?_, fun q live exit mem => ?_,
    history.exitsOnce, fun exit mem => ?_, history.reportedOnce,
    fun report mem q used => ?_, fun report mem => ?_, fun q p is => ?_⟩
  · rcases eq_or_ne q i with rfl | ne
    · rw [slots, if_pos rfl]
      exact ⟨_, List.getElem?_concat_length, rfl⟩
    · rw [slots, if_neg ne] at used ⊢
      obtain ⟨birth, born, pid⟩ := history.pids q used
      exact ⟨birth, old born, pid⟩
  · change exit.birth < (k.born ++ _).length
    rw [length_append]
    exact Nat.lt_add_right _ (history.bounded exit mem)
  · have ne : q ≠ i := by grind
    rw [slots, if_neg ne] at is ⊢
    exact history.zombies q is
  · have bounded := history.bounded exit mem
    have alive live := history.alive q live exit mem
    grind [Live]
  · refine (history.stays exit mem).imp_right ?_
    rintro ⟨q, is, found⟩
    refine ⟨q, ?_⟩
    rw [same q (by rw [is]; decide)]
    exact ⟨is, found⟩
  · have bounded := history.bounded _ (history.truthful report mem).1
    have gone := history.gone report mem q
    grind
  · obtain ⟨exited, ⟨birth, born, told⟩, off⟩ := history.truthful report mem
    exact ⟨exited, ⟨birth, old born, told⟩, off⟩
  have ne : q ≠ i := by
    have orphan := family.orphan q
    grind
  rw [slots, if_neg ne] at is
  refine (history.ancestry q p is).mono (fun birth born => ?_) ?_ exits
  · rw [slots, if_neg ne]
    exact old born
  · rw [same p ((ProcState.awake_iff _).mp (family.tree q p is)).1]

/-! ## An exit -/

/-- `exit` makes its process a zombie; it has no children any more. -/
def zombied (k : Kernel n) (p : Nat) (status : BitVec 32) : Kernel n :=
  let exits := k.exits ++ [⟨(k.procs p).birth, status⟩]
  { k with exits := exits }.setProc p { k.procs p with xstate := status, state := .zombie }

section

variable {status : BitVec 32}

theorem Family.exits (family : k.Family t) (alive : (k.procs p).state = .running)
    (childless : ∀ q, (k.procs q).parent ≠ some p) (notInit : p ≠ INITPROC)
    (makes : making stack = none) (claims : ∀ frame ∈ stack, k.Claims frame) :
    ((k.zombied p status).goto c stack).Family t := by
  have hart : (((k.zombied p status).goto c stack).harts c).stack = stack :=
    congrArg Hart.stack (setHart_self ..)
  have others c' (ne : c' ≠ c) :
      ((k.zombied p status).goto c stack).harts c' = k.harts c' := setHart_other _ _ ne
  have live : k.Live p := ⟨by rw [alive]; decide, by rw [alive]; decide⟩
  have parents : ∀ j, (((k.zombied p status).goto c stack).procs j).parent = (k.procs j).parent :=
    apply_update_eq parent rfl
  refine family.change rfl rfl rfl (fun _ => live.1) nofun
    (fun q calls i now makes' => ?_) nofun (fun q is => ?_)
    (fun x is => absurd is (childless x)) (fun same => absurd same notInit)
    (family.claims_same parents others (hart.symm ▸ claims))
  · have pre (alive' : ((k.zombied p status).goto c stack).Live q) : k.Live q := by
      rcases eq_or_ne q p with rfl | ne
      · exact live
      have same : ((k.zombied p status).goto c stack).procs q = k.procs q :=
        update_of_ne ne ..
      unfold Live at alive' ⊢
      rwa [same] at alive'
    rcases now.before (k := k) rfl pre with pending | ⟨c', -, here, changed⟩
    · refine ⟨calls, pending, makes', ?_⟩
      rintro rfl
      rw [(family.forks q calls i pending makes').1] at alive
      cases alive
    · rcases eq_or_ne c' c with rfl | ne
      · rw [← here, hart, makes] at makes'
        cases makes'
      · exact absurd (others c' ne) changed
  · refine ⟨?_, family.tree p q is⟩
    rintro rfl
    exact absurd is (childless q)

theorem History.exits (history : k.History) (family : k.Family t)
    (alive : (k.procs p).state = .running)
    (pending : ∀ q, exiting (k.harts c).stack = some q → q = p) :
    ((k.zombied p status).goto c stack).History := by
  set k' := (k.zombied p status).goto c stack
  have slots q : k'.procs q =
      if q = p then { k.procs p with xstate := status, state := .zombie } else k.procs q :=
    update_apply ..
  have births : ∀ q, (k'.procs q).birth = (k.procs q).birth := apply_update_eq birth rfl
  have live : k.Live p := ⟨by rw [alive]; decide, by rw [alive]; decide⟩
  have used q (used : (k'.procs q).state ≠ .unused) : (k.procs q).state ≠ .unused := by grind
  have grows exit (mem : exit ∈ k.exits) : exit ∈ k'.exits :=
    mem_append_left _ mem
  have last : (⟨(k.procs p).birth, status⟩ : Exit) ∈ k'.exits := mem_append_right _ mem_cons_self
  have new {exit} (mem : exit ∈ k'.exits) :
      exit ∈ k.exits ∨ exit = ⟨(k.procs p).birth, status⟩ :=
    (mem_append.mp mem).imp_right mem_singleton.mp
  have exits birth (gone : k.Exits birth) : k'.Exits birth := by
    refine gone.mono grows fun c' q exits => ?_
    rcases eq_or_ne c' c with rfl | ne
    · rw [pending q exits]
      exact .inl ⟨_, last, rfl⟩
    have hart : k'.harts c' = k.harts c' := setHart_other _ _ ne
    refine .inr ⟨c', q, ?_, births q⟩
    rw [hart]
    exact exits
  refine ⟨fun q is => ?_, fun exit mem => ?_, fun q is => ?_, fun q alive' exit mem => ?_, ?_,
    fun exit mem => ?_, history.reportedOnce, fun report mem q is => ?_,
    fun report mem => ?_, fun q r is => ?_⟩
  · obtain ⟨birth, born, pid⟩ := history.pids q (used q is)
    have pids : ∀ q, (k'.procs q).pid = (k.procs q).pid := apply_update_eq Proc.pid rfl
    exact ⟨birth, by rw [births]; exact born, pid.trans (pids q).symm⟩
  · rcases new mem with pre | rfl
    · exact history.bounded exit pre
    · exact family.births p live.1
  · rw [slots] at is ⊢
    split at is
    next same => rwa [if_pos same]
    next ne =>
      rw [if_neg ne]
      exact grows _ (history.zombies q is)
  · have ne : q ≠ p := by grind [Live]
    unfold Live at alive'
    rw [slots, if_neg ne] at alive' ⊢
    rcases new mem with pre | rfl
    · exact history.alive q alive' exit pre
    · exact fun same => ne (family.distinct q p alive'.1 live.1 same.symm)
  · change ((k.exits ++ [_]).map Exit.birth).Nodup
    rw [map_append]
    refine nodup_append.mpr ⟨history.exitsOnce, nodup_singleton _, ?_⟩
    intro birth mem birth' mem' same
    obtain ⟨exit, pre, rfl⟩ := mem_map.mp mem
    rw [mem_singleton.mp mem'] at same
    exact history.alive p live exit pre same
  · rcases new mem with pre | rfl
    · refine (history.stays exit pre).imp_right ?_
      rintro ⟨q, is, found⟩
      refine ⟨q, ?_⟩
      rw [slots, if_neg (by grind)]
      exact ⟨is, found⟩
    · exact .inr ⟨p, by grind⟩
  · rw [births]
    exact history.gone report mem q (used q is)
  · obtain ⟨exited, ⟨birth, born, pid, told⟩, off⟩ := history.truthful report mem
    refine ⟨grows _ exited, ⟨birth, born, pid, told.imp_right ?_⟩, off⟩
    rintro ⟨init, exit, gone, forker⟩
    exact ⟨init, exit, grows exit gone, forker⟩
  · have parents : ∀ q, (k'.procs q).parent = (k.procs q).parent := apply_update_eq parent rfl
    rw [parents] at is
    refine (history.ancestry q r is).mono (fun birth born => ?_) (births r) exits
    rw [births]
    exact born

end

/-! ## A report -/

/-- The process of a thread is the one whose user code is below the pending calls. -/
theorem process_thread {thread : Thread} (shape : Shape thread stack)
    (is : process stack = some p) :
    thread = .proc p := by
  have cons frame {rest} (below : rest ≠ []) :
      process (frame :: rest) = process rest := by
    unfold process
    rw [List.getLast?_cons_of_ne_nil below]
  have nonempty {thread : Thread} {rest : List Frame} (below : Shape thread rest) : rest ≠ [] := by
    rintro rfl
    cases below
  induction shape with
  | scheduler => cases is
  | user | forkret | sleep | waitSleep | fork | exit | wait =>
    exact congrArg Thread.proc (some.inj is)
  | trap held below free ih | yield pc below free ih | wakeup chan i locked below unlocked ih
  | kill pid i locked below unlocked ih => exact ih ((cons _ (nonempty below)).symm.trans is)

/-- Only a call that holds `wait_lock` exits. -/
theorem exiting_holds (exits : exiting stack = some p) : .wait ∈ Sched.locks stack := by
  obtain ⟨frame, mem, is⟩ := exists_of_findSome?_eq_some exits
  refine mem_flatMap.mpr ⟨frame, mem, ?_⟩
  unfold Frame.exiting at is
  split at is
  · exact mem_cons_self
  · exact mem_cons_self
  · exact mem_cons_of_mem _ mem_cons_self
  · cases is

section

variable {i : Nat}

theorem Family.reap (family : k.Family t) (sys : k.Sys t) (zombie : (k.procs i).state = .zombie)
    (held : k.holder (.proc i) = some c) (off : ∀ c, t c ≠ .proc i)
    (procs : k'.procs = update k.procs i (k.procs i).freeproc) (born : k'.born = k.born)
    (context : k'.context = k.context) (others : ∀ c', c' ≠ c → k'.harts c' = k.harts c')
    (makes : ∀ i, making (k'.harts c).stack = some i → making (k.harts c).stack = some i)
    (claims : ∀ frame ∈ (k'.harts c).stack, k'.Claims frame) : k'.Family t := by
  have asleep : ¬(k.procs i).state.awake = true := by
    rw [zombie]
    decide
  have here : k'.procs i = (k.procs i).freeproc := by
    rw [procs, update_self]
  have other j (ne : j ≠ i) : k'.procs j = k.procs j := by
    rw [procs, update_of_ne ne]
  refine family.change procs born rfl (fun used => absurd rfl used) (fun _ => off)
    (fun p stack j now makes' => ?_) (fun _ => rfl) (fun p is => nomatch is)
    (fun x is => absurd (family.tree x i is) asleep) (fun same => ?_)
    (family.claims_drop sys held others (fun j p is => ?_) (fun j ne => ?_) claims)
  · have live (alive : k'.Live p) : k.Live p := by
      rcases eq_or_ne p i with rfl | ne
      · exact absurd (congrArg state here) alive.1
      · unfold Live at alive ⊢
        rwa [other p ne] at alive
    have fresh {stack'} (pending : k.StackOf t p stack')
        (makes' : making stack' = some j) (same : j = i) :
        (k.procs i).freeproc.state = .used := by
      have used := (family.forks p stack' j pending makes').1
      rw [same, zombie] at used
      cases used
    rcases now.before context live with pending | ⟨c', thread, here', changed⟩
    · exact ⟨stack, pending, makes', fresh pending makes'⟩
    rcases eq_or_ne c' c with rfl | ne
    · rw [← here'] at makes'
      have pending : k.StackOf t p (k.harts c').stack := .inl ⟨c', thread, rfl⟩
      exact ⟨_, pending, makes j makes', fresh pending (makes j makes')⟩
    · exact absurd (others c' ne) changed
  · subst same
    exact absurd family.init.1 asleep
  · rcases eq_or_ne j i with rfl | ne
    · rw [here] at is
      cases is
    · rwa [other j ne] at is
  · rw [other j ne]

theorem History.reap (history : k.History) (family : k.Family t) (sys : k.Sys t)
    (zombie : (k.procs i).state = .zombie) (parent : (k.procs i).parent = some p)
    (held : k.holder .wait = some c) (quiet : exiting (k.harts c).stack = none)
    (off : ∀ c, t c ≠ .proc i) : (k.reap i p).History := by
  set k' := k.reap i p with after
  have slots j : k'.procs j = if j = i then (k.procs i).freeproc else k.procs j :=
    update_apply ..
  have births : ∀ q, (k'.procs q).birth = (k.procs q).birth := apply_update_eq birth rfl
  have alive q (used : (k'.procs q).state ≠ .unused) : q ≠ i ∧ k'.procs q = k.procs q := by
    grind [Proc.freeproc]
  have used : (k.procs i).state ≠ .unused := by
    rw [zombie]
    decide
  have nowhere : decide (∃ c, process (k.harts c).stack = some i) = false := by
    refine decide_eq_false ?_
    rintro ⟨c', is⟩
    exact off c' (process_thread (sys.shape c') is)
  -- no call of `exit` goes on while the hart holds `wait_lock`
  have settled {birth} (gone : k.Exits birth) : ∃ exit ∈ k.exits, exit.birth = birth := by
    refine gone.resolve_right ?_
    rintro ⟨c', q, exits, -⟩
    obtain rfl : c' = c := some.inj
      ((((sys.locks c').holds _).mpr (exiting_holds exits)).symm.trans held)
    rw [quiet] at exits
    cases exits
  have new {report} (mem : report ∈ k'.reports) : report ∈ k.reports ∨ report =
      ⟨(k.procs i).birth, (k.procs p).birth, (k.procs i).pid, (k.procs i).xstate,
        decide (∃ c, process (k.harts c).stack = some i)⟩ :=
    (mem_append.mp mem).imp_right mem_singleton.mp
  refine ⟨fun q is => ?_, history.bounded, fun q is => ?_, fun q live => ?_, history.exitsOnce,
    fun exit mem => ?_, ?_, fun report mem q is => ?_, fun report mem => ?_,
    fun q r is => ?_⟩
  · have kept := (alive q is).2
    rw [kept] at is ⊢
    exact history.pids q is
  · have kept := (alive q (by rw [is]; decide)).2
    rw [kept] at is ⊢
    exact history.zombies q is
  · unfold Live at live
    have kept := (alive q live.1).2
    rw [kept] at live ⊢
    exact history.alive q live
  · rcases history.stays exit mem with ⟨report, told, same⟩ | ⟨q, is, same, status⟩
    · exact .inl ⟨report, mem_append_left _ told, same⟩
    · rcases eq_or_ne q i with rfl | ne
      · exact .inl ⟨_, mem_append_right _ mem_cons_self, same⟩
      · refine .inr ⟨q, ?_⟩
        rw [slots, if_neg ne]
        exact ⟨is, same, status⟩
  · change ((k.reports ++ [_]).map Report.child).Nodup
    rw [map_append]
    refine nodup_append.mpr ⟨history.reportedOnce, nodup_singleton _, ?_⟩
    intro child mem child' mem' same
    obtain ⟨report, pre, rfl⟩ := mem_map.mp mem
    rw [mem_singleton.mp mem'] at same
    exact history.gone report pre i used same.symm
  · obtain ⟨ne, kept⟩ := alive q is
    rw [kept] at is ⊢
    rcases new mem with pre | rfl
    · exact history.gone report pre q is
    · exact fun same => ne (family.distinct q i is used same)
  · rcases new mem with pre | rfl
    · exact history.truthful report pre
    · obtain ⟨birth, born, pid⟩ := history.pids i used
      obtain ⟨birth', born', forker⟩ := history.ancestry i p parent
      obtain rfl : birth = birth' := some.inj (born.symm.trans born')
      refine ⟨history.zombies i zombie, ⟨birth, born, pid, forker.imp_right ?_⟩, nowhere⟩
      rintro ⟨rfl, forker, is, gone⟩
      obtain ⟨exit, mem, rfl⟩ := settled gone
      exact ⟨family.init.2, exit, mem, is⟩
  · have ne : q ≠ i := by grind [Proc.freeproc]
    rw [slots, if_neg ne] at is
    refine (history.ancestry q r is).mono (fun birth born => ?_) (births r)
      (exits_of_stacks rfl births fun _ _ same => same)
    rw [births]
    exact born

end

end Kernel

end Xv6Rv32im.Sched
