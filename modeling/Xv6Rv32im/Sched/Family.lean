import Xv6Rv32im.Sched.Threads

/-!
# Parents and children

What holds of the process tree between any two steps, and what the pending calls of `fork`,
`exit` and `wait` know of it.  A child that is being made belongs to the one call that makes
it; only a process that can go on is a parent, since `exit` gives its children away first.
-/

namespace Xv6Rv32im.Sched

open Function Library List Option

open Process (NPROC)

def ProcState.awake : ProcState → Bool
  | .sleeping | .runnable | .running => true
  | .unused | .used | .zombie => false

theorem ProcState.awake_iff (state : ProcState) :
    state.awake = true ↔ state ≠ .unused ∧ state ≠ .used ∧ state ≠ .zombie := by
  cases state <;> decide

/-- The process goes on as it is: it is not born, it does not exit, it is not reported. -/
structure Restated (old new : Proc) : Prop where
  birth : new.birth = old.birth
  parent : new.parent = old.parent
  pid : new.state ≠ .unused → new.pid = old.pid
  xstate : new.state = .zombie → new.xstate = old.xstate
  unused : new.state = .unused ↔ old.state = .unused
  used : new.state = .used ↔ old.state = .used
  zombie : new.state = .zombie ↔ old.state = .zombie

variable {old new : Proc} {frame : Frame}

theorem Restated.awake (restated : Restated old new) :
    new.state.awake = true ↔ old.state.awake = true := by
  rw [ProcState.awake_iff, ProcState.awake_iff, ne_eq, ne_eq, ne_eq, restated.unused, restated.used,
    restated.zombie]

theorem Restated.of_awake (pre : old.state.awake = true) (after : new.state.awake = true)
    (birth : new.birth = old.birth) (parent : new.parent = old.parent) (pid : new.pid = old.pid) :
    Restated old new := by
  rw [ProcState.awake_iff] at pre after
  exact ⟨birth, parent, fun _ => pid, fun is => absurd is after.2.2,
    iff_of_false after.1 pre.1, iff_of_false after.2.1 pre.2.1,
    iff_of_false after.2.2 pre.2.2⟩

theorem Restated.of_state (state : new.state = old.state) (birth : new.birth = old.birth)
    (parent : new.parent = old.parent) (pid : new.state ≠ .unused → new.pid = old.pid)
    (xstate : new.state = .zombie → new.xstate = old.xstate) : Restated old new :=
  ⟨birth, parent, pid, xstate, by rw [state], by rw [state], by rw [state]⟩

def ForkPc.child : ForkPc → Option Nat
  | .scan _ | .locked _ => none
  | .copy i | .link i | .linked i | .ready i | .finish i => some i

def Frame.child : Frame → Option Nat
  | .fork _ pc => pc.child
  | _ => none

def making (stack : List Frame) : Option Nat := stack.findSome? Frame.child

/-- The process whose `exit` holds `wait_lock` and has not yet made it a zombie. -/
def Frame.exiting : Frame → Option Nat
  | .exit p _ (.reparent _) | .exit p _ .lock | .exit p _ .zombie => some p
  | _ => none

def exiting (stack : List Frame) : Option Nat := stack.findSome? Frame.exiting

namespace Kernel

variable {n : Nat}

/-- The pending calls of a process, on a hart or in its context. -/
def StackOf (k : Kernel n) (t : Fin n → Thread) (p : Nat) (stack : List Frame) : Prop :=
  (∃ c, t c = .proc p ∧ (k.harts c).stack = stack) ∨
    (k.Live p ∧ (∀ c, t c ≠ .proc p) ∧ k.context p = some stack)

/-- What a call that holds `wait_lock` knows about parents. -/
def Claims (k : Kernel n) : Frame → Prop
  | .exit p _ (.reparent i) => ∀ j < i, (k.procs j).parent ≠ some p
  | .exit p _ .lock | .exit p _ .zombie => ∀ j, (k.procs j).parent ≠ some p
  | .wait p (.child i) => (k.procs i).parent = some p
  | _ => True

structure Family (k : Kernel n) (t : Fin n → Thread) : Prop where
  occupied : ∀ c p, t c = .proc p → (k.procs p).state ≠ .unused
  births : ∀ p, (k.procs p).state ≠ .unused → (k.procs p).birth < k.born.length
  distinct : ∀ p q, (k.procs p).state ≠ .unused → (k.procs q).state ≠ .unused →
    (k.procs p).birth = (k.procs q).birth → p = q
  forks : ∀ p stack i, k.StackOf t p stack → making stack = some i → (k.procs i).state = .used ∧
      ∃ birth, k.born[(k.procs i).birth]? = some birth ∧ birth.forker = some (k.procs p).birth
  orphan : ∀ q, (k.procs q).state = .unused → (k.procs q).parent = none
  tree : ∀ q p, (k.procs q).parent = some p → (k.procs p).state.awake = true
  init : (k.procs INITPROC).state.awake = true ∧ (k.procs INITPROC).birth = 0
  claims : ∀ c, ∀ frame ∈ (k.harts c).stack, k.Claims frame

variable {k k' : Kernel n} {t t' : Fin n → Thread} {c : Fin n} {p q : Nat} {stack : List Frame}
  {new : Proc}

theorem Family.of_stacks (family : k.Family t) (procs : k'.procs = k.procs)
    (born : k'.born = k.born) (occupied : ∀ c p, t' c = .proc p → (k.procs p).state ≠ .unused)
    (pending : ∀ p stack i, k'.StackOf t' p stack → making stack = some i →
      ∃ pre, k.StackOf t p pre ∧ making pre = some i)
    (claims : ∀ c, ∀ frame ∈ (k'.harts c).stack, k'.Claims frame) : k'.Family t' where
  occupied := by
    rw [procs]
    exact occupied
  births := by
    rw [procs, born]
    exact family.births
  distinct := by
    rw [procs]
    exact family.distinct
  forks := by
    intro p stack i now makes
    obtain ⟨pre, calls, makes'⟩ := pending p stack i now makes
    rw [procs, born]
    exact family.forks p pre i calls makes'
  orphan := by
    rw [procs]
    exact family.orphan
  tree := by
    rw [procs]
    exact family.tree
  init := by
    rw [procs]
    exact family.init
  claims := claims

/-- Fewer processes have a parent; a child at hand keeps its own. -/
theorem Claims.weaken (claims : k.Claims frame)
    (parents : ∀ j p, (k'.procs j).parent = some p → (k.procs j).parent = some p)
    (child : ∀ p i, frame = .wait p (.child i) → (k'.procs i).parent = (k.procs i).parent) :
    k'.Claims frame := by
  unfold Claims at claims ⊢
  split
  · exact fun j below is => claims j below (parents j _ is)
  · exact fun j is => claims j (parents j _ is)
  · exact fun j is => claims j (parents j _ is)
  · exact (child _ _ rfl).trans claims
  · trivial

theorem Claims.congr (claims : k.Claims frame)
    (parents : ∀ j, (k'.procs j).parent = (k.procs j).parent) : k'.Claims frame :=
  claims.weaken (fun j _ is => (parents j).symm.trans is) fun _ i _ => parents i

/-- Only calls that hold `wait_lock` know something about parents. -/
theorem claims_of_unlocked (unlocked : .wait ∉ Sched.locks stack) (mem : frame ∈ stack) :
    k.Claims frame := by
  have free : .wait ∉ frame.locks := fun held =>
    unlocked (mem_flatMap.mpr ⟨frame, mem, held⟩)
  unfold Claims
  split
  · exact absurd mem_cons_self free
  · exact absurd mem_cons_self free
  · exact absurd (mem_cons_of_mem _ mem_cons_self) free
  · exact absurd (mem_cons_of_mem _ mem_cons_self) free
  · trivial

theorem claims_pair {a b : Frame} (first : k.Claims a) (second : k.Claims b) :
    ∀ frame ∈ [a, b], k.Claims frame :=
  forall_mem_cons.mpr ⟨first, forall_mem_singleton.mpr second⟩

theorem Family.claims_same (family : k.Family t)
    (parents : ∀ j, (k'.procs j).parent = (k.procs j).parent)
    (others : ∀ c', c' ≠ c → k'.harts c' = k.harts c')
    (here : ∀ frame ∈ (k'.harts c).stack, k.Claims frame) :
    ∀ c', ∀ frame ∈ (k'.harts c').stack, k'.Claims frame := by
  intro c' frame mem
  refine Claims.congr ?_ parents
  rcases eq_or_ne c' c with rfl | other
  · exact here frame mem
  · rw [others c' other] at mem
    exact family.claims c' frame mem

theorem Family.move (family : k.Family t) (moved : k.Moved k' c stack)
    (makes : ∀ i, making stack = some i → making (k.harts c).stack = some i)
    (claims : ∀ frame ∈ stack, k.Claims frame) : k'.Family t := by
  refine family.of_stacks moved.procs moved.born family.occupied
    (fun p stack' i pending making' => ?_)
    (family.claims_same (fun j => by rw [moved.procs]) moved.others
      (by rw [moved.stack]; exact claims))
  rcases pending with ⟨c', thread, here⟩ | ⟨live, nowhere, saved⟩
  · rcases eq_or_ne c' c with rfl | other
    · rw [moved.stack] at here
      subst here
      exact ⟨_, .inl ⟨c', thread, rfl⟩, makes i making'⟩
    · rw [moved.others c' other] at here
      exact ⟨stack', .inl ⟨c', thread, here⟩, making'⟩
  · unfold Live at live
    rw [moved.procs] at live
    rw [moved.context] at saved
    exact ⟨stack', .inr ⟨live, nowhere, saved⟩, making'⟩

theorem Family.change (family : k.Family t) (procs : k'.procs = update k.procs q new)
    (born : k'.born = k.born) (birth : new.birth = (k.procs q).birth)
    (old : new.state ≠ .unused → (k.procs q).state ≠ .unused)
    (off : new.state = .unused → ∀ c, t c ≠ .proc q)
    (pending : ∀ p stack i, k'.StackOf t p stack → making stack = some i →
      ∃ pre, k.StackOf t p pre ∧ making pre = some i ∧ (i = q → new.state = .used))
    (orphan : new.state = .unused → new.parent = none) (parent : ∀ p, new.parent = some p →
      (p = q → new.state.awake = true) ∧ (k.procs p).state.awake = true)
    (children : ∀ x, (k.procs x).parent = some q → new.state.awake = true)
    (init : q = INITPROC → new.state.awake = true)
    (claims : ∀ c, ∀ frame ∈ (k'.harts c).stack, k'.Claims frame) : k'.Family t := by
  have slots p : k'.procs p = if p = q then new else k.procs p := by
    rw [procs, update_apply]
  have births : ∀ p, (k'.procs p).birth = (k.procs p).birth :=
    procs ▸ apply_update_eq Proc.birth birth
  have pre p (used : (k'.procs p).state ≠ .unused) : (k.procs p).state ≠ .unused := by
    rw [slots] at used
    split at used
    next same => exact same ▸ old used
    next => exact used
  refine ⟨fun c p thread => ?_, fun p used => ?_, fun p p' used used' same => ?_,
    fun p stack i now makes => ?_, fun x unused => ?_, fun x p is => ?_, ?_, claims⟩
  · have occupied := family.occupied c p thread
    grind
  · rw [births, born]
    exact family.births p (pre p used)
  · rw [births, births] at same
    exact family.distinct p p' (pre p used) (pre p' used') same
  · obtain ⟨stack', now', makes', used⟩ := pending p stack i now makes
    obtain ⟨state, forker⟩ := family.forks p stack' i now' makes'
    rw [births, births, born]
    exact ⟨by grind, forker⟩
  · have orphan' := family.orphan x
    grind
  · have tree := family.tree x p
    grind
  · have init' := family.init
    grind

/-! ## Steps that change a process -/

/-- The pending calls were pending before, except on a hart that went on. -/
theorem StackOf.before (now : k'.StackOf t p stack) (context : k'.context = k.context)
    (live : k'.Live p → k.Live p) :
    k.StackOf t p stack ∨
      ∃ c, t c = .proc p ∧ (k'.harts c).stack = stack ∧ k'.harts c ≠ k.harts c := by
  rcases now with ⟨c, thread, here⟩ | ⟨alive, nowhere, saved⟩
  · by_cases same : k'.harts c = k.harts c
    · exact .inl (.inl ⟨c, thread, same ▸ here⟩)
    · exact .inr ⟨c, thread, here, same⟩
  · exact .inl (.inr ⟨live alive, nowhere, context ▸ saved⟩)

theorem restated_live (restated : Restated (k.procs q) new) (p : Nat) :
    (k.setProc q new).Live p ↔ k.Live p := by
  unfold Live
  change (update k.procs q new p).state ≠ _ ∧ (update k.procs q new p).state ≠ _ ↔ _
  rcases eq_or_ne p q with rfl | ne
  · rw [update_self, ne_eq, ne_eq, restated.unused, restated.zombie]
  · rw [update_of_ne ne]

theorem restated_parents (restated : Restated (k.procs q) new) (p : Nat) :
    ((k.setProc q new).procs p).parent = (k.procs p).parent :=
  apply_update_eq Proc.parent restated.parent p

theorem Family.restate (family : k.Family t) (restated : Restated (k.procs q) new) :
    (k.setProc q new).Family t := by
  refine family.change rfl rfl restated.birth (fun used unused => used (restated.unused.mpr unused))
    (fun unused c thread => family.occupied c q thread (restated.unused.mp unused))
    (fun p stack i now makes => ?_)
    (fun unused => restated.parent.trans (family.orphan q (restated.unused.mp unused)))
    (fun p is => ?_) (fun x is => restated.awake.mpr (family.tree x q is)) (fun same => ?_)
    fun c frame mem => (family.claims c frame mem).congr (restated_parents restated)
  · rcases now.before (k := k) rfl (restated_live restated p).mp with pre | ⟨c, -, -, changed⟩
    · refine ⟨stack, pre, makes, ?_⟩
      rintro rfl
      exact restated.used.mpr (family.forks p stack i pre makes).1
    · exact absurd rfl changed
  · have awake := family.tree q p (restated.parent.symm.trans is)
    refine ⟨?_, awake⟩
    rintro rfl
    exact restated.awake.mpr awake
  · subst same
    exact restated.awake.mpr family.init.1

theorem Sys.thread_unique {c' : Fin n} (sys : k.Sys t) (thread : t c = .proc p)
    (thread' : t c' = .proc p) : c = c' := by
  have runs := sys.runs c
  have runs' := sys.runs c'
  rw [thread] at runs
  rw [thread'] at runs'
  exact sys.single c c' p runs.1 runs'.1

section

variable (family : k.Family t)

include family

theorem Family.stack_used (pending : k.StackOf t p stack) : (k.procs p).state ≠ .unused := by
  rcases pending with ⟨c, thread, -⟩ | ⟨live, -⟩
  · exact family.occupied c p thread
  · exact live.1

/-- One process makes a child. -/
theorem Family.making_unique {i : Nat} {stack stack' : List Frame} (pending : k.StackOf t p stack)
    (makes : making stack = some i) (pending' : k.StackOf t q stack')
    (makes' : making stack' = some i) : p = q := by
  obtain ⟨-, birth, born, forker⟩ := family.forks p stack i pending makes
  obtain ⟨-, birth', born', forker'⟩ := family.forks q stack' i pending' makes'
  obtain rfl : birth = birth' := some.inj (born.symm.trans born')
  exact family.distinct p q (family.stack_used pending) (family.stack_used pending')
    (some.inj (forker.symm.trans forker'))

/-- A hart that holds the lock of a process takes its parent away. -/
theorem Family.claims_drop (sys : k.Sys t) (held : k.holder (.proc q) = some c)
    (others : ∀ c', c' ≠ c → k'.harts c' = k.harts c')
    (parents : ∀ j p, (k'.procs j).parent = some p → (k.procs j).parent = some p)
    (same : ∀ j, j ≠ q → (k'.procs j).parent = (k.procs j).parent)
    (here : ∀ frame ∈ (k'.harts c).stack, k'.Claims frame) :
    ∀ c', ∀ frame ∈ (k'.harts c').stack, k'.Claims frame := by
  intro c' frame mem
  rcases eq_or_ne c' c with rfl | other
  · exact here frame mem
  rw [others c' other] at mem
  refine (family.claims c' frame mem).weaken parents fun p i is => same i ?_
  rintro rfl
  -- the other hart would hold the lock of the same child
  have lt : .proc i ∈ Sched.locks (k.harts c').stack :=
    mem_flatMap.mpr ⟨frame, mem, by rw [is]; exact mem_cons_self⟩
  exact other (some.inj ((((sys.locks c').holds _).mpr lt).symm.trans held))

theorem Family.childDone {i : Nat} (sys : k.Sys t) (thread : t c = .proc p)
    (makes : making (k.harts c).stack = some i) (held : k.holder (.proc i) = some c)
    (procs : k'.procs = update k.procs i new) (born : k'.born = k.born)
    (context : k'.context = k.context) (others : ∀ c', c' ≠ c → k'.harts c' = k.harts c')
    (done : making (k'.harts c).stack = none)
    (claims : ∀ frame ∈ (k'.harts c).stack, k'.Claims frame) (birth : new.birth = (k.procs i).birth)
    (off : new.state = .unused → ∀ c, t c ≠ .proc i)
    (orphan : new.state = .unused → new.parent = none)
    (parent : ∀ p, new.parent = some p → (k.procs i).parent = some p) : k'.Family t := by
  obtain ⟨used, -⟩ := family.forks p _ i (.inl ⟨c, thread, rfl⟩) makes
  have asleep : ¬(k.procs i).state.awake = true := by
    rw [used]
    decide
  have other j (ne : j ≠ i) : k'.procs j = k.procs j := by
    rw [procs, update_of_ne ne]
  refine family.change procs born birth (fun _ => by rw [used]; decide) off
    (fun p' stack j now makes' => ?_) orphan (fun p' is => ?_)
    (fun x is => absurd (family.tree x i is) asleep) (fun same => ?_)
    (family.claims_drop sys held others (fun j p' is => ?_) (fun j ne => ?_) claims)
  · have live : k'.Live p' → k.Live p' := fun alive => by
      rcases eq_or_ne p' i with rfl | ne
      · exact ⟨by rw [used]; decide, by rw [used]; decide⟩
      · unfold Live at alive ⊢
        rwa [other p' ne] at alive
    have elsewhere c' (thread' : t c' = .proc p') (here : (k'.harts c').stack = stack) :
        c' ≠ c := by
      rintro rfl
      rw [here, makes'] at done
      exact nomatch done
    rcases now.before context live with pre | ⟨c', thread', here, changed⟩
    · refine ⟨stack, pre, makes', ?_⟩
      rintro rfl
      -- the process that makes this child is on the hart, with other calls
      obtain rfl := family.making_unique (.inl ⟨c, thread, rfl⟩) makes pre makes'
      rcases now with ⟨c', thread', here⟩ | ⟨-, nowhere, -⟩
      · exact absurd (sys.thread_unique thread' thread) (elsewhere c' thread' here)
      · exact absurd thread (nowhere c)
    · exact absurd (others c' (elsewhere c' thread' here)) changed
  · have awake := family.tree i p' (parent p' is)
    refine ⟨?_, awake⟩
    rintro rfl
    exact absurd awake asleep
  · subst same
    exact absurd family.init.1 asleep
  · rcases eq_or_ne j i with rfl | ne
    · rw [procs, update_self] at is
      exact parent p' is
    · rwa [other j ne] at is
  · rw [other j ne]

end

/-! ## Switches -/

theorem scheduler_thread {pc : SchedPc} {c' : Fin n}
    (thread : update t c (.scheduler pc) c' = .proc p) : c' ≠ c ∧ t c' = .proc p := by
  rcases eq_or_ne c' c with rfl | other
  · rw [update_self] at thread
    cases thread
  · rw [update_of_ne other] at thread
    exact ⟨other, thread⟩

theorem Family.moveScheduler {pc pc' : SchedPc} (family : k.Family t) (thread : t c = .scheduler pc)
    (moved : k.Moved k' c [.scheduler pc']) : k'.Family (update t c (.scheduler pc')) := by
  refine family.of_stacks moved.procs moved.born
    (fun c' p is => family.occupied c' p (scheduler_thread is).2) (fun p stack i now makes => ?_)
    (family.claims_same (fun j => by rw [moved.procs]) moved.others ?_)
  · refine ⟨stack, ?_, makes⟩
    rcases now with ⟨c', is, here⟩ | ⟨live, nowhere, saved⟩
    · obtain ⟨other, pre⟩ := scheduler_thread is
      exact .inl ⟨c', pre, moved.others c' other ▸ here⟩
    refine .inr ⟨?_, fun c' pre => nowhere c' ?_, moved.context ▸ saved⟩
    · unfold Live at live
      rwa [moved.procs] at live
    rw [update_of_ne ?_]
    · exact pre
    · rintro rfl
      rw [thread] at pre
      cases pre
  · rw [moved.stack]
    intro frame mem
    rw [mem_singleton.mp mem]
    trivial

theorem Family.enter {i : Nat} (family : k.Family t) (procs : k'.procs = k.procs)
    (born : k'.born = k.born) (context : k'.context = update k.context i none)
    (others : ∀ c', c' ≠ c → k'.harts c' = k.harts c') (here : (k'.harts c).stack = stack)
    (saved : k.StackOf t i stack) (unlocked : .wait ∉ Sched.locks stack) (pc : SchedPc)
    (thread : t c = .scheduler pc) : k'.Family (update t c (.proc i)) := by
  refine family.of_stacks procs born (fun c' p is => ?_) (fun p stack' j now makes => ?_)
    (family.claims_same (fun j => by rw [procs]) others ?_)
  · rcases eq_or_ne c' c with rfl | other
    · rw [update_self] at is
      obtain rfl := Thread.proc.inj is
      exact family.stack_used saved
    · rw [update_of_ne other] at is
      exact family.occupied c' p is
  · refine ⟨stack', ?_, makes⟩
    rcases now with ⟨c', is, now⟩ | ⟨live, nowhere, now⟩
    · rcases eq_or_ne c' c with rfl | other
      · rw [update_self] at is
        obtain rfl := Thread.proc.inj is
        rw [here] at now
        exact now ▸ saved
      · rw [update_of_ne other] at is
        exact .inl ⟨c', is, others c' other ▸ now⟩
    · have ne : p ≠ i := by
        rintro rfl
        exact nowhere c (update_self ..)
      rw [context, update_of_ne ne] at now
      unfold Live at live
      rw [procs] at live
      refine .inr ⟨live, fun c' pre => nowhere c' ?_, now⟩
      rw [update_of_ne ?_]
      · exact pre
      · rintro rfl
        rw [thread] at pre
        cases pre
  · rw [here]
    exact fun frame mem => claims_of_unlocked unlocked mem

theorem Family.depart {saved : List Frame} (family : k.Family t) (thread : t c = .proc p)
    (makes : ∀ i, making saved = some i → making (k.harts c).stack = some i) :
    (k.departed c p saved).Family (update t c (.scheduler (.back p))) := by
  have others c' (other : c' ≠ c) : (k.departed c p saved).harts c' = k.harts c' :=
    setHart_other _ _ other
  refine family.of_stacks rfl rfl (fun c' q is => family.occupied c' q (scheduler_thread is).2)
    (fun q stack i now making' => ?_) (family.claims_same (fun _ => rfl) others ?_)
  · rcases now with ⟨c', is, here⟩ | ⟨live, nowhere, now⟩
    · obtain ⟨other, pre⟩ := scheduler_thread is
      rw [others c' other] at here
      exact ⟨stack, .inl ⟨c', pre, here⟩, making'⟩
    · change update k.context p (some saved) q = some stack at now
      rcases eq_or_ne q p with rfl | ne
      · rw [update_self] at now
        obtain rfl := some.inj now
        exact ⟨_, .inl ⟨c, thread, rfl⟩, makes i making'⟩
      rw [update_of_ne ne] at now
      refine ⟨stack, .inr ⟨live, fun c' pre => nowhere c' ?_, now⟩, making'⟩
      rw [update_of_ne ?_]
      · exact pre
      · rintro rfl
        exact ne (Thread.proc.inj (pre.symm.trans thread))
  · have stack : ((k.departed c p saved).harts c).stack = [.scheduler (.back p)] :=
      congrArg Hart.stack (setHart_self ..)
    rw [stack]
    intro frame mem
    rw [mem_singleton.mp mem]
    trivial

end Kernel

end Xv6Rv32im.Sched
