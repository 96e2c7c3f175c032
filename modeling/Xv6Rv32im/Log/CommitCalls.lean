import Xv6Rv32im.Log.CommitSteps

/-!
# The calls on the log

The calls that processes make besides the steps of a commit, and with them what every
step of the system keeps.
-/

namespace Xv6Rv32im.Log.System

open Library.Run Library.Shares Function List Cache

/-- Which buffers were changed and not logged since, after an event. -/
def dirtyAfter (k : System) (dirty : Nat → Bool) : Event → Nat → Bool
  | .modify p s _ => if k.Ready p then update dirty s true else dirty
  | .logWrite p s => if k.Ready p then update dirty s false else dirty
  | _ => dirty

/-- What was logged last for each block, after an event. -/
def contentsAfter (k : System) (contents : Nat → Block) : Event → Nat → Block
  | .logWrite p s =>
    if k.Ready p then
      match (k.cache.buf s).blockno with
      | none => contents
      | some b => update contents b (k.cache.buf s).data
    else contents
  | _ => contents

variable {k : System}

theorem dirtyAfter_logWrite {p : Nat} (ready : k.Ready p) (dirty : Nat → Bool) (s : Nat) :
    k.dirtyAfter dirty (.logWrite p s) = update dirty s false :=
  if_pos ready

theorem contentsAfter_logWrite {p s b : Nat} (ready : k.Ready p)
    (block : (k.cache.buf s).blockno = some b) (contents : Nat → Block) :
    k.contentsAfter contents (.logWrite p s) = update contents b (k.cache.buf s).data := by
  unfold contentsAfter
  dsimp only
  rw [if_pos ready, block]

/-- Callers change and log home blocks only, and log a buffer that they changed before they
release it. -/
def Tidy (k : System) (dirty : Nat → Bool) : Event → Prop
  | .modify _ s _ | .logWrite _ s => ∀ b ∈ (k.cache.buf s).blockno, k.Home b
  | .brelse _ s => dirty s = false
  | _ => True

instance (k : System) (dirty : Nat → Bool) : DecidablePred (k.Tidy dirty)
  | .modify .. | .logWrite .. => inferInstanceAs (Decidable (∀ b ∈ (_ : Option Nat), k.Home b))
  | .brelse .. => inferInstanceAs (Decidable (_ = _))
  | .beginOp _ | .endOp _ | .bget .. | .lock _ | .commit _ => isTrue True.intro

/-- What a step keeps: the invariant, and the data if the callers are tidy. -/
def KeptAfter (k k' : System) (n : Nat) (pinned : List Nat) (event : Event) : Prop :=
  k.Frame k' n event.proc ∧ ∃ committer' pinned', k'.Inv n committer' pinned' ∧
    ∀ view dirty contents, k.Data pinned view dirty contents → k.Tidy dirty event →
      ∃ view', k'.Data pinned' view' (k.dirtyAfter dirty event) (k.contentsAfter contents event)

variable {k k' : System} {n p q s b : Nat} {committer : Option Nat} {pinned pinned' : List Nat}
  {view view' contents : Nat → Block} {dirty dirty' : Nat → Bool} {event : Event}

theorem Kept.after (kept : k.Kept k' n event.proc pinned)
    (marks : ∀ dirty, k.dirtyAfter dirty event = dirty)
    (logs : ∀ contents, k.contentsAfter contents event = contents) :
    k.KeptAfter k' n pinned event := by
  obtain ⟨frame, committer', pinned', inv, data⟩ := kept
  refine ⟨frame, committer', pinned', inv, fun view dirty contents pre _ => ?_⟩
  rw [marks, logs]
  exact data view dirty contents pre

section

variable (inv : k.Inv n committer pinned)

include inv

theorem KeptAfter.same (marks : ∀ dirty, k.dirtyAfter dirty event = dirty)
    (logs : ∀ contents, k.contentsAfter contents event = contents) : k.KeptAfter k n pinned event :=
  (Kept.same inv).after marks logs

theorem bget_kept (lt : p < n) (ready : k.Ready p) (done : k.bget p b = .ok k') :
    k.Kept k' n p pinned := by
  obtain ⟨s, c', found, rfl⟩ := bget_ok done
  obtain ⟨-, shows, -, disk, -⟩ := bget_spec inv.cache found
  have step := bget_step (k.procs p).phase inv lt ready.1 found
  exact ⟨step.frame, committer, pinned, inv.bystander lt step rfl ready.2,
    fun view dirty contents data => ⟨view, data.bystander inv step rfl ready.2
      (shows _ _ data.shows) disk fun _ _ _ _ => rfl⟩⟩

theorem awake_kept (lt : p < n) (notCommit : (k.procs p).phase.commits = false) :
    k.Kept (k.awake p) n p pinned := by
  unfold awake
  cases wanted : (k.procs p).want with
  | none => exact Kept.same inv
  | some s =>
    dsimp only
    by_cases free : (k.cache.buf s).lock = none
    · rw [if_neg (not_not.mpr free)]
      have used : s ∈ k.users n :=
        users_mem lt (Multiset.mem_add.mpr (.inl (mem_held.mpr wanted)))
      obtain ⟨-, shows, -, -⟩ := acquire_spec p inv.cache used free
      have step := lock_step (k.procs p).phase inv lt wanted free
      exact ⟨step.frame, committer, pinned, inv.bystander lt step rfl notCommit,
        fun view dirty contents data => ⟨view, data.bystander inv step rfl notCommit
          (shows _ _ data.shows).1 rfl fun _ _ _ _ => rfl⟩⟩
    · rw [if_pos free]
      exact Kept.same inv

theorem modify_kept {block : Block} (lt : p < n) (ready : k.Ready p)
    (isHeld : s ∈ (k.procs p).held) :
    k.KeptAfter { k with cache := k.cache.setData s block } n pinned (.modify p s block) := by
  have isLocked := (inv.locks p s).mpr isHeld
  obtain ⟨ok, shows⟩ := setData_spec block inv.cache (by rw [isLocked]; nofun)
  have kept x : ((k.cache.setData s block).buf x).lock = (k.cache.buf x).lock ∧
      ((k.cache.setData s block).buf x).blockno = (k.cache.buf x).blockno := by
    rcases eq_or_ne x s with rfl | ne
    · exact ⟨by rw [setData, setBuf_self], by rw [setData, setBuf_self]⟩
    · rw [setData, setBuf_of_ne _ _ ne]
      exact ⟨rfl, rfl⟩
  have step := cache_step (k.procs p).phase inv lt ok (fun x => (kept x).1) fun x => (kept x).2
  have same : ({ k with cache := k.cache.setData s block } : System).setProc p (k.procs p) =
      { k with cache := k.cache.setData s block } := by
    unfold setProc
    rw [update_eq_self]
  rw [← same]
  refine ⟨step.frame, committer, pinned, inv.bystander lt step rfl ready.2,
    fun view dirty contents data _ => ⟨view, ?_⟩⟩
  rw [show k.dirtyAfter dirty (.modify p s block) = _ from if_pos ready]
  refine data.bystander inv step rfl ready.2 (shows _ _ data.shows) rfl
    fun q other x isHeld' => update_of_ne ?_ ..
  rintro rfl
  exact other (Option.some.inj (((inv.locks q x).mpr isHeld').symm.trans isLocked))

/-- `brelse` panics unless the caller holds the buffer. -/
theorem brelse_kept (lt : p < n) (ready : k.Ready p) (done : k.brelse p s = .ok k') :
    k.KeptAfter k' n pinned (.brelse p s) := by
  by_cases isHeld : s ∈ (k.procs p).held
  · obtain ⟨c', released, step, shows, disk, -⟩ := brelse_step (k.procs p).phase inv lt isHeld
    unfold brelse at done
    rw [released] at done
    cases done
    exact ⟨step.frame, committer, pinned, inv.bystander lt step rfl ready.2,
      fun view dirty contents data isClean => ⟨view, data.bystander inv step rfl ready.2
        (shows _ _ isClean data.shows) disk fun _ _ _ _ => rfl⟩⟩
  · unfold brelse Cache.brelse at done
    rw [if_pos fun isLocked => isHeld ((inv.locks p s).mp isLocked)] at done
    cases done

/-! ## The calls on `struct log` -/

theorem Inv.open_idle (some : k.outstanding ≠ 0) : committer = none := by
  by_contra commits
  exact some (inv.quiet commits)

theorem Inv.operation_counts (lt : p < n) (here : (k.procs p).phase = .operation) :
    1 ≤ k.outstanding := by
  obtain ⟨rest, whole, -⟩ := opens_split lt
  rw [inv.count, whole, if_pos here]
  omega

end

theorem Inv.not_committing (inv : k.Inv n none pinned) : k.committing = false :=
  inv.flag

theorem Data.log {block : Block} (data : k.Data pinned view dirty contents)
    (nobody : ∀ q, (k'.procs q).phase.commits = false) (start : k'.start = k.start)
    (size : k'.size = k.size) (homes : ∀ x ∈ k'.lh, k.Home x)
    (shows : k'.cache.Shows (update view b block) dirty' pinned') :
    k'.Data pinned' (update view b block) dirty' (update contents b block) := by
  have home b : k'.Home b ↔ k.Home b := by
    unfold Home
    rw [start, size]
  have idle q pc (commits : (k'.procs q).phase = .commit pc) : False := by
    have other := nobody q
    rw [commits] at other
    cases other
  refine ⟨size ▸ data.room, shows, fun b' isHome => ?_, fun x entry => (home x).mpr (homes x entry),
    fun q pc commits => (idle q pc commits).elim, fun q pc commits => (idle q pc commits).elim,
    fun q tail log home commits => (idle q _ commits).elim⟩
  rcases eq_or_ne b' b with rfl | ne
  · rw [update_self, update_self]
  · rw [update_of_ne ne, update_of_ne ne]
    exact data.agrees b' ((home b').mp isHome)

theorem logWrite_kept (inv : k.Inv n committer pinned) (lt : p < n) (ready : k.Ready p)
    (isHeld : s ∈ (k.procs p).held) (done : k.logWrite s = .ok k') :
    k.KeptAfter k' n pinned (.logWrite p s) := by
  have used : s ∈ k.users n := users_mem lt (Multiset.mem_add.mpr (.inr isHeld))
  obtain ⟨b, block⟩ := Option.ne_none_iff_exists'.mp (inv.cache.named s used)
  have isLocked := (inv.locks p s).mpr isHeld
  have isValid := (inv.cache.locked s (by rw [isLocked]; nofun)).2
  unfold logWrite at done
  split at done
  · cases done
  next fits =>
    split at done
    · cases done
    next some =>
      obtain rfl := inv.open_idle (by omega)
      obtain rfl := inv.idle rfl
      rw [block] at done
      dsimp only at done
      split at done
      next logged =>
        cases done
        refine ⟨Frame.refl k n p, none, k.lh, inv, fun view dirty contents data _ =>
          ⟨update view b (k.cache.buf s).data, ?_⟩⟩
        rw [dirtyAfter_logWrite ready, contentsAfter_logWrite ready block]
        exact data.log inv.nobody rfl rfl data.homes
          (data.shows.log inv.cache block (fun _ => id) logged)
      next fresh =>
        cases done
        obtain ⟨ok, shows⟩ := bpin_spec inv.cache used block isValid
        have same x : ((k.cache.bpin s).buf x).lock = (k.cache.buf x).lock ∧
            ((k.cache.bpin s).buf x).blockno = (k.cache.buf x).blockno := by
          rcases eq_or_ne x s with rfl | ne
          · exact ⟨by rw [bpin, setBuf_self], by rw [bpin, setBuf_self]⟩
          · rw [bpin, setBuf_of_ne _ _ ne]
            exact ⟨rfl, rfl⟩
        refine ⟨⟨fun _ _ => rfl, fun x _ => (same x).2, rfl⟩, none, k.lh ++ [b],
          ⟨ok, inv.unborn, fun q x => ?_,
          inv.distinct, ?_, fun _ => ?_, inv.count, inv.flag, inv.only, inv.quiet, fun _ => rfl,
          nofun⟩, fun view dirty contents data tidy =>
            ⟨update view b (k.cache.buf s).data, ?_⟩⟩
        · rw [(same x).1]
          exact inv.locks q x
        · exact nodup_append.mpr ⟨inv.entries, nodup_singleton b, by
            rintro x entry y isLast rfl
            exact fresh (mem_singleton.mp isLast ▸ entry)⟩
        · change ((k.lh ++ [b]).length : Int) ≤ k.size - 1
          rw [length_append, length_singleton]
          push Not at fits
          omega
        rw [dirtyAfter_logWrite ready, contentsAfter_logWrite ready block]
        refine data.log inv.nobody rfl rfl (fun x entry => ?_) (shows _ _ data.shows)
        rcases mem_append.mp entry with old | new
        · exact data.homes x old
        · rw [mem_singleton.mp new]
          exact tidy b block

/-- The phases of the others, after a step that changes that of one process. -/
theorem setPhase_commits {phase : Phase} (k : System)
    (others : ∀ q, (k.procs q).phase.commits = false) (notCommit : phase.commits = false)
    (q : Nat) (pc : CommitPc) : ((k.setPhase p phase).procs q).phase ≠ .commit pc := by
  intro commits
  change (update k.procs p _ q).phase = _ at commits
  rcases eq_or_ne q p with rfl | ne
  · rw [update_self] at commits
    cases commits
    cases notCommit
  rw [update_of_ne ne] at commits
  have other := others q
  rw [commits] at other
  cases other

section

variable (inv : k.Inv n committer pinned)

include inv

theorem Inv.idle_of_not_committing (idle : ¬k.committing = true) : committer = none := by
  rw [inv.flag] at idle
  cases committer with
  | none => rfl
  | some q => exact absurd rfl idle

theorem beginOp_kept (lt : p < n) (outside : (k.procs p).phase = .outside) :
    k.Kept (k.beginOp p) n p pinned := by
  unfold beginOp
  split
  · exact Kept.same inv
  next idle =>
    split
    · exact Kept.same inv
    obtain rfl := inv.idle_of_not_committing idle
    refine ⟨Frame.of_procs _ rfl rfl rfl, none, pinned, inv.rephase
      ({ k with outstanding := k.outstanding + 1 }.setPhase p .operation) none lt rfl rfl
      inv.entries inv.fits ?_ inv.flag (fun q pc commits => ?_) (fun some => absurd rfl some)
      inv.idle nofun, fun view dirty contents data => ⟨view, data.rephase rfl rfl rfl rfl
        (List.Subset.refl _) (fun q _ => inv.nobody q) nofun⟩⟩
    · obtain ⟨rest, whole, updated⟩ := opens_split lt
      have count := inv.count
      rw [whole, outside] at count
      rw [updated _ _ rfl]
      change k.outstanding + 1 = _
      rw [count]
      simp
      omega
    · exact absurd commits (setPhase_commits _ inv.nobody rfl q pc)

theorem endOp_kept (lt : p < n) (here : (k.procs p).phase = .operation)
    (awake : (k.procs p).want = none) (done : k.endOp p = .ok k') : k.Kept k' n p pinned := by
  obtain rfl := inv.open_idle (by have := inv.operation_counts lt here; omega)
  have count := inv.count
  obtain ⟨rest, whole, updated⟩ := opens_split (k := k) lt
  rw [whole, here] at count
  unfold endOp at done
  dsimp only at done
  rw [if_neg (by rw [inv.not_committing]; nofun)] at done
  split at done
  next last =>
    cases done
    refine ⟨Frame.of_procs _ rfl rfl rfl, some p, pinned, inv.rephase
      ({ k with outstanding := k.outstanding - 1, committing := true }.setPhase p _)
      (some p) lt rfl rfl inv.entries inv.fits ?_ rfl (fun q pc commits => ?_) (fun _ => last) nofun
      fun q commits => ?_, fun view dirty contents data => ⟨view, data.rephase rfl rfl rfl rfl
        (List.Subset.refl _) (fun q _ => inv.nobody q) fun pc same => ?_⟩⟩
    · rw [updated _ _ rfl]
      change k.outstanding - 1 = _
      rw [count]
      simp
    · change (update k.procs p _ q).phase = _ at commits
      rcases eq_or_ne q p with rfl | ne
      · rfl
      rw [update_of_ne ne] at commits
      have other := inv.nobody q
      rw [commits] at other
      cases other
    · cases commits
      refine ⟨.start, ?_, nofun, nodup_nil, ?_, trivial, inv.idle rfl⟩
      · change (update k.procs p _ p).phase = _
        rw [update_self]
      · change (update k.procs p _ p).want.bind _ = _
        rw [update_self, awake]
        rfl
    · cases same
      exact ⟨rfl, rfl, nofun⟩
  next more =>
    cases done
    refine ⟨Frame.of_procs _ rfl rfl rfl, none, pinned, inv.rephase
      ({ k with outstanding := k.outstanding - 1 }.setPhase p .outside) none lt rfl rfl
      inv.entries inv.fits ?_ inv.flag (fun q pc commits => ?_) (fun some => absurd rfl some)
      inv.idle nofun, fun view dirty contents data => ⟨view, data.rephase rfl rfl rfl rfl
        (List.Subset.refl _) (fun q _ => inv.nobody q) nofun⟩⟩
    · rw [updated _ _ rfl]
      change k.outstanding - 1 = _
      rw [count]
      simp
    · exact absurd commits (setPhase_commits _ inv.nobody rfl q pc)

/-! ## One step -/

theorem call_kept (lt : p < n) (ready : k.Ready p) (own : event.proc = p)
    (bracketed : k.Bracketed event) (done : k.call p event = .ok k') :
    k.KeptAfter k' n pinned event := by
  cases event with
  | beginOp p' =>
    cases own
    cases done
    exact (beginOp_kept inv lt bracketed).after (fun _ => rfl) fun _ => rfl
  | bget p' blockno =>
    cases own
    exact (bget_kept inv lt ready done).after (fun _ => rfl) fun _ => rfl
  | lock | commit =>
    cases done
    exact KeptAfter.same inv (fun _ => rfl) fun _ => rfl
  | modify p' s block =>
    cases own
    change (if s ∈ (k.procs p').held then _ else _) = _ at done
    rw [if_pos bracketed.2] at done
    cases done
    exact modify_kept inv lt ready bracketed.2
  | logWrite p' s =>
    cases own
    exact logWrite_kept inv lt ready bracketed.2 done
  | brelse p' s =>
    cases own
    exact brelse_kept inv lt ready done
  | endOp p' =>
    cases own
    exact (endOp_kept inv lt bracketed ready.1 done).after (fun _ => rfl) fun _ => rfl

end

theorem step_cases (k : System) (event : Event) :
    (∃ p pc, event = .commit p ∧ (k.procs p).phase = .commit pc ∧
        k.step event = k.commitStep p pc) ∨
      (∃ p, event = .lock p ∧ (k.procs p).phase.commits = false ∧ k.step event = .ok (k.awake p)) ∨
      (k.Ready event.proc ∧ k.step event = k.call event.proc event) ∨
      (¬k.Ready event.proc ∧ k.step event = .ok k) := by
  have otherwise (event : Event) (stepped : k.step event =
      if k.Ready event.proc then k.call event.proc event else .ok k) :
      (k.Ready event.proc ∧ k.step event = k.call event.proc event) ∨
        (¬k.Ready event.proc ∧ k.step event = .ok k) := by
    by_cases ready : k.Ready event.proc
    · rw [if_pos ready] at stepped
      exact .inl ⟨ready, stepped⟩
    · rw [if_neg ready] at stepped
      exact .inr ⟨ready, stepped⟩
  cases event with
  | commit p =>
    cases here : (k.procs p).phase with
    | commit pc =>
      refine .inl ⟨p, pc, rfl, here, ?_⟩
      simp only [step, Event.proc, here]
    | outside =>
      refine .inr (.inr (otherwise _ ?_))
      simp only [step, Event.proc, here]
    | operation =>
      refine .inr (.inr (otherwise (.commit p) ?_))
      simp only [step, Event.proc, here]
  | lock p =>
    cases commits : (k.procs p).phase.commits with
    | true =>
      refine .inr (.inr (.inr ⟨fun ready => ?_, ?_⟩))
      · cases commits.symm.trans ready.2
      · simp only [step, Event.proc, commits, if_true]
    | false =>
      refine .inr (.inl ⟨p, rfl, commits, ?_⟩)
      simp only [step, Event.proc, commits, Bool.false_eq_true, if_false]
  | beginOp | bget | modify | logWrite | brelse | endOp => exact .inr (.inr (otherwise _ rfl))

/-- A process that is not ready marks no buffer and logs none. -/
theorem after_not_ready (busy : ¬k.Ready event.proc) (dirty : Nat → Bool) (contents : Nat → Block) :
    k.dirtyAfter dirty event = dirty ∧ k.contentsAfter contents event = contents := by
  cases event with
  | modify p s data => exact ⟨if_neg busy, rfl⟩
  | logWrite p s => exact ⟨if_neg busy, if_neg busy⟩
  | _ => exact ⟨rfl, rfl⟩

theorem step_kept (inv : k.Inv n committer pinned) (lt : event.proc < n)
    (bracketed : k.Bracketed event) (done : k.step event = .ok k') :
    k.KeptAfter k' n pinned event := by
  rcases step_cases k event with ⟨p, pc, rfl, here, stepped⟩ | ⟨p, rfl, idle, stepped⟩ |
    ⟨ready, stepped⟩ | ⟨busy, stepped⟩
  · rw [stepped] at done
    exact (commitStep_kept inv lt here done).after (fun _ => rfl) fun _ => rfl
  · rw [stepped] at done
    cases done
    exact (awake_kept inv lt idle).after (fun _ => rfl) fun _ => rfl
  · rw [stepped] at done
    exact call_kept inv lt ready rfl bracketed done
  rw [stepped] at done
  cases done
  exact KeptAfter.same inv (fun dirty => (after_not_ready busy dirty fun _ _ => 0).1)
    fun contents => (after_not_ready busy (fun _ => false) contents).2

end Xv6Rv32im.Log.System
