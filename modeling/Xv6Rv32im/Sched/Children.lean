import Xv6Rv32im.Sched.Calls

/-!
# `fork`, `exit` and `wait`

The calls that change the process tree.  `fork` works on a child that no other call knows,
`exit` gives the children away before its process becomes a zombie, and `wait` frees a zombie
whose thread has left its hart, since it holds the lock that the thread held to its last step.
-/

namespace Xv6Rv32im.Sched

open Function Library List Option

open Process (NPROC)

namespace Kernel

variable {n : Nat} {k k' : Kernel n} {t : Fin n → Thread} {c : Fin n} {p q i : Nat}

/-- A hart that holds the lock of a process that does not run, in another process. -/
theorem Sys.off_process {stack : List Frame} (sys : k.Sys t) (thread : t c = .proc p)
    (calls : (k.harts c).stack = stack) (stands : standing stack = .running)
    (held : .proc q ∈ Sched.locks stack) (idle : (k.procs q).state ≠ .running) (c' : Fin n) :
    (k.harts c').proc ≠ some q := by
  obtain ⟨has, alive⟩ := sys.executes thread calls stands
  refine sys.off (((sys.locks c).holds _).mpr (calls ▸ held)) idle (fun has' => idle ?_) c'
  rw [some.inj (has'.symm.trans has)]
  exact alive

/-- A hart that holds `wait_lock` gives a process another parent. -/
theorem Sound.setParent (sound : k.Sound t) (held : k.holder .wait = some c)
    (used : (k.procs i).state ≠ .unused) (awake : (k.procs p).state.awake = true)
    (claims : ∀ frame ∈ (k.harts c).stack,
      (k.setProc i { k.procs i with parent := some p }).Claims frame)
    (descends : k.Descends i p) : (k.setProc i { k.procs i with parent := some p }).Sound t := by
  set k' := k.setProc i { k.procs i with parent := some p } with after
  have here : k'.procs i = { k.procs i with parent := some p } := update_self ..
  have other q (ne : q ≠ i) : k'.procs q = k.procs q :=
    update_of_ne ne ..
  have births : ∀ q, (k'.procs q).birth = (k.procs q).birth := apply_update_eq Proc.birth rfl
  have live q (live : k'.Live q) : k.Live q := by
    rcases eq_or_ne q i with rfl | ne
    · unfold Live at live
      rwa [here] at live
    · unfold Live at live ⊢
      rwa [other q ne] at live
  have descends' {x r} (pre : k.Descends x r) : k'.Descends x r := by
    refine pre.mono (fun birth born => ?_) (births r)
      (exits_of_stacks rfl births fun _ _ same => same)
    rw [births]
    exact born
  refine ⟨sound.sys.touch rfl, ?_, ?_⟩
  · refine sound.family.change rfl rfl rfl (fun used => used) (fun unused => absurd unused used)
      (fun q stack j now makes => ?_) (fun unused => absurd unused used) (fun q is => ?_)
      (fun x is => sound.family.tree x i is) (fun same => ?_)
      fun c' frame mem => ?_
    · rcases now.before (k := k) rfl (live q) with pre | ⟨c', -, -, changed⟩
      · refine ⟨stack, pre, makes, ?_⟩
        rintro rfl
        exact (sound.family.forks q stack j pre makes).1
      · exact absurd rfl changed
    · obtain rfl := some.inj is
      refine ⟨?_, awake⟩
      rintro rfl
      exact awake
    · subst same
      exact sound.family.init.1
    · -- while this hart holds `wait_lock`, the others know nothing
      rcases eq_or_ne c' c with rfl | ne
      · exact claims frame mem
      · refine claims_of_unlocked (fun held' => ne ?_) mem
        exact some.inj ((((sound.sys.locks c').holds .wait).mpr held').symm.trans held)
  · refine sound.history.change rfl rfl rfl rfl rfl (fun used => ⟨used, rfl⟩) Iff.rfl
      (fun _ => rfl) fun x r is => ?_
    rcases eq_or_ne x i with rfl | ne
    · rw [here] at is
      obtain rfl := some.inj is
      exact descends' descends
    · rw [other x ne] at is
      exact descends' (sound.history.ancestry x r is)

/-! ## `fork` -/

section

variable {held : List Nat} {pc : ForkPc}

theorem not_mem_others {lk : LockId} (own : ∀ lock, .other lock ≠ lk) : lk ∉ held.map .other :=
  fun mem => by
    obtain ⟨lock, -, same⟩ := mem_map.mp mem
    exact own lock same

theorem user_locks (p : Nat) (held : List Nat) : locks [.user p held] = held.map .other := by
  rw [locks_cons, locks_nil, append_nil]
  rfl

theorem user_unlocked (p : Nat) (held : List Nat) (q : Nat) : .proc q ∉ locks [.user p held] := by
  rw [user_locks]
  exact not_mem_others nofun

theorem fork_locks (p : Nat) (pc : ForkPc) (held : List Nat) :
    locks [.fork p pc, .user p held] = pc.locks ++ held.map .other := by
  rw [locks_cons, locks_cons, locks_nil, append_nil]
  rfl

theorem Sound.childDone {new : Proc} (sound : k.Sound t) (thread : t c = .proc p)
    (stack : (k.harts c).stack = [.fork p pc, .user p held]) (child : pc.child = some i)
    (locked : pc.locks = [.proc i]) (idle : new.state ≠ .running) (alive : new.state ≠ .zombie)
    (birth : new.birth = (k.procs i).birth) (pid : new.state ≠ .unused → new.pid = (k.procs i).pid)
    (orphan : new.state = .unused → new.parent = none)
    (parent : ∀ p, new.parent = some p → (k.procs i).parent = some p) :
    Goes ((k.setProc i new).release c (.proc i) [.user p held]) := by
  have makes : making (k.harts c).stack = some i := by
    rw [stack]
    unfold making
    rw [List.findSome?_cons, show (Frame.fork p pc).child = some i from child]
  have used : (k.procs i).state = .used :=
    (sound.family.forks p _ i (.inl ⟨c, thread, rfl⟩) makes).1
  have mine : .proc i ∈ locks (k.harts c).stack := by
    rw [stack, fork_locks, locked]
    exact mem_cons_self
  have off := sound.sys.off_process thread rfl (by rw [stack]; rfl) mine (by rw [used]; decide)
  have live : k.Live i := ⟨by rw [used]; decide, by rw [used]; decide⟩
  have settled : (k.setProc i new).Sys t :=
    sound.sys.setProc off (sound.sys.inside live.1) idle
      fun _ _ => sound.sys.saved i live (sound.sys.thread_off off)
  have loses : (locks ((k.setProc i new).harts c).stack).Perm
      (.proc i :: locks [.user p held]) := by
    change (locks (k.harts c).stack).Perm _
    rw [stack, fork_locks, locked, locks_cons, locks_nil, append_nil]
    exact .refl _
  have shape : Shape (t c) [.user p held] := by
    rw [thread]
    exact .user p held
  obtain ⟨releases, sys⟩ := settled.release shape loses
    (by change _ = standing (k.harts c).stack; rw [stack]; rfl)
  have hart : (((k.setProc i new).released c (.proc i) [.user p held]).harts c).stack =
      [.user p held] := (released_moved _ c _ _).stack
  refine ⟨_, t, releases, sys, ?_, ?_⟩
  · refine sound.family.childDone sound.sys thread makes (((sound.sys.locks c).holds _).mpr mine)
      rfl rfl rfl (released_moved (k.setProc i new) c _ _).others (by rw [hart]; rfl) ?_ birth
      (fun _ => sound.sys.thread_off off) orphan parent
    rw [hart]
    intro frame mem
    rw [mem_singleton.mp mem]
    trivial
  · refine History.move ?_ (released_moved (k.setProc i new) c _ _) fun q exits => ?_
    · refine sound.history.change rfl rfl rfl rfl birth (fun is => ⟨live.1, pid is⟩)
        ⟨fun is => absurd is alive, fun is => absurd is live.2⟩ (fun is => absurd is alive)
        fun x r is => ?_
      have births : ∀ q, ((k.setProc i new).procs q).birth = (k.procs q).birth :=
        apply_update_eq Proc.birth birth
      have pre : (k.procs x).parent = some r := by
        change (update k.procs i new x).parent = some r at is
        rcases eq_or_ne x i with rfl | ne
        · rw [update_self] at is
          exact parent r is
        · rwa [update_of_ne ne] at is
      refine (sound.history.ancestry x r pre).mono (fun birth born => ?_) (births r)
        (exits_of_stacks rfl births fun _ _ same => same)
      rw [births]
      exact born
    · change exiting (k.harts c).stack = some q at exits
      rw [stack] at exits
      cases exits

theorem Sound.setNextpid (sound : k.Sound t) (nextpid : BitVec 32) :
    Sound { k with nextpid := nextpid } t :=
  ⟨sound.sys.congr rfl rfl rfl rfl, sound.family.of_stacks rfl rfl sound.family.occupied
      (fun _ stack _ pending makes => ⟨stack, pending, makes⟩)
      fun c frame mem => (sound.family.claims c frame mem).congr fun _ => rfl,
    sound.history.of_procs rfl rfl rfl rfl fun _ _ same => same⟩

theorem Sound.forkStep (sound : k.Sound t) (thread : t c = .proc p)
    (stack : (k.harts c).stack = [.fork p pc, .user p held])
    (lt : ∀ i, pc = .locked i → i < NPROC) (ok : Bool) :
    Goes (k.forkStep c ok [.user p held] p pc) := by
  have caller : Shape (t c) [.user p held] := by
    rw [thread]
    exact .user p held
  have shape pc (lt : ∀ i, pc = .locked i → i < NPROC) :
      Shape (t c) [.fork p pc, .user p held] := by
    rw [thread]
    exact .fork p pc held lt
  have returns (k : Kernel n) : k.Follows [.fork p pc, .user p held] [.user p held] :=
    .pop nofun rfl
  obtain ⟨has, alive⟩ := sound.sys.executes thread stack rfl
  cases pc with
  | scan i =>
    unfold Kernel.forkStep
    dsimp only
    split
    · exact sound.goto stack caller rfl rfl (returns k)
    next below =>
      refine sound.acquire stack (user_unlocked p held i) (shape (.locked i) fun j same => ?_)
        (.refl _) rfl (.replace rfl rfl trivial)
      obtain rfl := ForkPc.locked.inj same
      exact Nat.not_le.mp below
  | locked i =>
    have mine : .proc i ∈ locks [.fork p (.locked i), .user p held] := mem_cons_self
    unfold Kernel.forkStep
    dsimp only
    split
    next unused =>
      split
      · have off := sound.sys.off_process thread stack rfl mine (by rw [unused]; decide)
        have copies := shape (.copy i) nofun
        have allocated := sound.sys.allocate unused (lt i rfl) off (k.procs p).birth
        refine ⟨_, t, rfl, allocated.goto copies ?_ ?_, ?_, ?_⟩
        · change _ = locks (k.harts c).stack
          rw [stack]
          rfl
        · change _ = standing (k.harts c).stack
          rw [stack]
          rfl
        · exact sound.family.allocate thread unused rfl (claims_pair trivial trivial)
        · refine sound.history.allocate sound.family sound.sys unused _ fun q exits => ?_
          rw [stack] at exits
          cases exits
      · have restated : Restated (k.procs i) (k.procs i).freeproc :=
          .of_state unused.symm rfl (sound.family.orphan i unused).symm
            (fun used => absurd rfl used) nofun
        have next := sound.setNextpid (k.nextpid + 1)
        have freed : ({ k with nextpid := k.nextpid + 1 }.setProc i (k.procs i).freeproc).Sound t :=
          ⟨next.sys.touch unused.symm, next.family.restate restated, next.history.restate restated⟩
        exact freed.release stack caller (.refl _) rfl (returns _)
    · exact sound.release stack (shape (.scan (i + 1)) nofun) (.refl _) rfl
        (.replace rfl rfl trivial)
  | copy i =>
    unfold Kernel.forkStep
    dsimp only
    split
    · exact sound.release stack (shape (.link i) nofun) (.refl _) rfl (.replace rfl rfl trivial)
    · exact sound.childDone thread stack rfl rfl nofun nofun rfl
        (fun used => absurd rfl used) (fun _ => rfl) nofun
  | link i =>
    refine sound.acquire stack ?_ (shape (.linked i) nofun) (.refl _) rfl (.replace rfl rfl trivial)
    rw [fork_locks]
    exact not_mem_others nofun
  | linked i =>
    have waits : k.holder .wait = some c := by
      rw [(sound.sys.locks c).holds, stack]
      exact mem_cons_self
    obtain ⟨used, birth, born, forker⟩ :=
      sound.family.forks p _ i (.inl ⟨c, thread, stack⟩) rfl
    have linked := sound.setParent waits (by rw [used]; decide) (by rw [alive]; rfl)
      (stack ▸ claims_pair trivial trivial) ⟨birth, born, .inl forker⟩
    exact linked.release stack (shape (.ready i) nofun) (.refl _) rfl (.replace rfl rfl trivial)
  | ready i =>
    exact sound.acquire stack (user_unlocked p held i) (shape (.finish i) nofun) (.refl _) rfl
      (.replace rfl rfl trivial)
  | finish i =>
    exact sound.childDone thread stack rfl rfl nofun nofun rfl (fun _ => rfl) nofun fun _ is => is

end

/-! ## `exit` -/

section

variable {status : BitVec 32} {pc : ExitPc}

theorem wakeup_shape (chan : Option Chan) (held : pc.locks p = [.wait])
    (shape : Shape (t c) [.exit p status pc, .user p []]) :
    Shape (t c) [.wakeup chan 0 false, .exit p status pc, .user p []] := by
  refine .wakeup chan 0 false shape fun q => ?_
  rw [locks_cons]
  change _ ∉ pc.locks p ++ []
  rw [held]
  exact fun lt => nomatch mem_singleton.mp lt

/-- A call of `wakeup` above the rest of `exit`. -/
theorem wakeup_follows (chan : Option Chan)
    (exits : exiting [.exit p status pc, .user p []] = some p)
    (claims : k.Claims (.exit p status pc)) :
    k.Follows [.exit p status (.reparent i), .user p []]
      [.wakeup chan 0 false, .exit p status pc, .user p []] := by
  have goesOn : k.Follows [.exit p status (.reparent i), .user p []]
      [.exit p status pc, .user p []] := by
    refine .change (fun _ => id) (fun q is => ?_) claims
    rw [← some.inj is]
    exact exits
  exact goesOn.trans (.push rfl rfl trivial)

theorem Sound.exitStep (sound : k.Sound t) (thread : t c = .proc p)
    (stack : (k.harts c).stack = [.exit p status pc, .user p []]) (notInit : p ≠ INITPROC)
    (goesOn : pc ≠ .resumed) : Goes (k.exitStep c [.user p []] p status pc) := by
  have shape pc (goesOn : pc ≠ .resumed) : Shape (t c) [.exit p status pc, .user p []] := by
    rw [thread]
    exact .exit p status pc notInit goesOn
  have claims : k.Claims (.exit p status pc) :=
    sound.family.claims c _ (by rw [stack]; exact mem_cons_self)
  have waits (held : .wait ∈ locks [.exit p status pc, .user p []]) : k.holder .wait = some c := by
    rw [(sound.sys.locks c).holds, stack]
    exact held
  cases pc with
  | start =>
    exact sound.acquire stack not_mem_nil (shape (.reparent 0) nofun) (.refl _) rfl
      (.change (fun _ => id) nofun nofun)
  | reparent i =>
    unfold Kernel.exitStep
    dsimp only
    split
    next above =>
      have childless (j : Nat) : (k.procs j).parent ≠ some p := by
        rcases Nat.lt_or_ge j i with pre | after
        · exact claims j pre
        · rw [sound.family.orphan j (sound.sys.bound j (Nat.le_trans above after))]
          exact nofun
      exact sound.goto stack (wakeup_shape _ rfl (shape _ nofun)) rfl rfl
        (wakeup_follows _ rfl childless)
    split
    next child =>
      have used : (k.procs i).state ≠ .unused := fun unused => by
        rw [sound.family.orphan i unused] at child
        cases child
      have pending : exiting (k.harts c).stack = some p := by
        rw [stack]
        rfl
      -- a child of this process or, as before, one of `initproc`
      have descends : k.Descends i INITPROC := by
        obtain ⟨birth, born, forker | ⟨init, -⟩⟩ := sound.history.ancestry i p child
        · exact ⟨birth, born, .inr ⟨rfl, _, forker, .inr ⟨c, p, pending, rfl⟩⟩⟩
        · exact absurd init notInit
      have given (j : Nat) (bound : j < i + 1) :
          ((k.setProc i { k.procs i with parent := some INITPROC }).procs j).parent ≠ some p := by
        change (update k.procs i _ j).parent ≠ _
        rcases eq_or_ne j i with rfl | ne
        · rw [update_self]
          exact fun same => notInit (some.inj same).symm
        · rw [update_of_ne ne]
          exact claims j (Nat.lt_of_le_of_ne (Nat.le_of_lt_succ bound) ne)
      have adopted := sound.setParent (waits mem_cons_self) used sound.family.init.1
        (stack ▸ claims_pair (fun j below => given j (Nat.lt_succ_of_lt below)) trivial) descends
      exact adopted.goto stack (wakeup_shape _ rfl (shape _ nofun)) rfl rfl
        (wakeup_follows _ rfl given)
    next other =>
      refine sound.goto stack (shape (.reparent (i + 1)) nofun) rfl rfl
        (.replace rfl rfl fun j bound => ?_)
      rcases Nat.lt_or_eq_of_le (Nat.le_of_lt_succ bound) with pre | rfl
      · exact claims j pre
      · exact other
  | lock =>
    exact sound.acquire stack (fun lt => nomatch mem_singleton.mp lt)
      (shape .zombie nofun) (.refl _) rfl
      (.replace rfl rfl claims)
  | zombie =>
    have alive := (sound.sys.executes thread stack rfl).2
    have recorded : Sys { k with exits := k.exits ++ [⟨(k.procs p).birth, status⟩] } t :=
      sound.sys.congr rfl rfl rfl rfl
    have left : Shape (.proc p) [.exit p status .unlock, .user p []] :=
      .exit p status .unlock notInit nofun
    refine ⟨(k.zombied p status).goto c [.exit p status .unlock, .user p []], t, rfl, ?_, ?_, ?_⟩
    · refine recorded.leave thread (sound.sys.inside (by rw [alive]; decide)) nofun left ?_ rfl
      rw [stack]
      rfl
    · exact sound.family.exits alive claims notInit rfl (claims_pair trivial trivial)
    · refine sound.history.exits sound.family alive fun q exits => ?_
      rw [stack] at exits
      exact (some.inj exits).symm
  | unlock =>
    exact sound.release stack (shape .sched nofun) (.swap _ _ _) rfl (.replace rfl rfl trivial)
  | sched =>
    have runs := sound.sys.runs c
    rw [thread] at runs
    have dead := runs.2.2
    rw [stack] at dead
    change Goes (k.sched c fun _ => [.exit p status .resumed, .user p []])
    refine sound.depart thread stack rfl nofun (fun live => absurd dead live.2) fun _ _ is => ?_
    cases is
  | resumed => exact absurd rfl goesOn

end

/-! ## `wait` -/

theorem Sound.waitStep {pc : WaitPc} (sound : k.Sound t) (thread : t c = .proc p)
    (stack : (k.harts c).stack = [.wait p pc, .user p []]) (ok : Bool) :
    Goes (k.waitStep c ok [.user p []] p pc) := by
  have shape pc : Shape (t c) [.wait p pc, .user p []] := by
    rw [thread]
    exact .wait p pc
  have replace pc pc' (claims : k.Claims (.wait p pc')) :
      k.Follows [.wait p pc, .user p []] [.wait p pc', .user p []] :=
    .replace rfl rfl claims
  cases pc with
  | start =>
    exact sound.acquire stack not_mem_nil (shape (.scan 0 false)) (.refl _) rfl
      (replace _ _ trivial)
  | scan i havekids =>
    unfold Kernel.waitStep
    dsimp only
    split
    · split
      · exact sound.goto stack (shape .leave) rfl rfl (replace _ _ trivial)
      · refine sound.goto stack (by rw [thread]; exact .waitSleep p _ .start) rfl rfl ?_
        exact .trans (replace _ .sleeping trivial) (.push rfl rfl trivial)
    split
    next child =>
      exact sound.acquire stack (fun lt => nomatch mem_singleton.mp lt)
        (shape (.child i)) (.refl _) rfl (replace _ _ child)
    next =>
      exact sound.goto stack (shape (.scan (i + 1) havekids)) rfl rfl (replace _ _ trivial)
  | child i =>
    have parent : (k.procs i).parent = some p :=
      sound.family.claims c (.wait p (.child i)) (by rw [stack]; exact mem_cons_self)
    have holds {lk} (lt : lk ∈ locks [.wait p (.child i), .user p []]) :
        k.holder lk = some c := by
      rw [(sound.sys.locks c).holds, stack]
      exact lt
    unfold Kernel.waitStep
    dsimp only
    split
    next zombie =>
      split
      · have off := sound.sys.off_process thread stack rfl mem_cons_self (by rw [zombie]; decide)
        have nowhere := sound.sys.thread_off off
        have cleared : (k.setProc i (k.procs i).freeproc).Sys t :=
          sound.sys.setProc off (sound.sys.inside (by rw [zombie]; decide)) nofun
            fun used => absurd rfl used
        have freed : (k.reap i p).Sys t := cleared.congr rfl rfl rfl rfl
        have moved := released_moved (k.reap i p) c (.proc i) [.wait p .leave, .user p []]
        have loses : (locks ((k.reap i p).harts c).stack).Perm
            (.proc i :: locks [.wait p .leave, .user p []]) := by
          change (locks (k.harts c).stack).Perm _
          rw [stack]
          exact .refl _
        obtain ⟨releases, sys⟩ := freed.release (shape .leave) loses
          (by change _ = standing (k.harts c).stack; rw [stack]; rfl)
        refine ⟨_, t, releases, sys, ?_, ?_⟩
        · refine sound.family.reap sound.sys zombie (holds mem_cons_self) nowhere moved.procs
            moved.born moved.context moved.others (fun j is => ?_)
            (by rw [moved.stack]; exact claims_pair trivial trivial)
          rw [moved.stack] at is
          cases is
        · have quiet : exiting (k.harts c).stack = none := by
            rw [stack]
            rfl
          refine (sound.history.reap sound.family sound.sys zombie parent
            (holds (mem_cons_of_mem _ mem_cons_self)) quiet nowhere).move moved
            fun q exits => ?_
          change exiting (k.harts c).stack = some q at exits
          rw [quiet] at exits
          cases exits
      · exact sound.release stack (shape .leave) (.refl _) rfl (replace _ _ trivial)
    next =>
      exact sound.release stack (shape (.scan (i + 1) true)) (.refl _) rfl (replace _ _ trivial)
  | sleeping => exact ⟨k, t, rfl, sound⟩
  | leave =>
    refine sound.release stack ?_ (.refl _) rfl (.pop (fun _ => id) rfl)
    rw [thread]
    exact .user p []

end Kernel

end Xv6Rv32im.Sched
