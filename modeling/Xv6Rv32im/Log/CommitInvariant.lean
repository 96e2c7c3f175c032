import Xv6Rv32im.Log.GroupCommit

/-!
# The invariant of group commit

At most one process commits, and then no operation is open.  Every block in the header
is pinned once until it is installed.  How far the commit has come, and which buffers
the process holds on the way, is read off its program counter.
-/

namespace Xv6Rv32im.Log

open Library Library.Run Library.Shares Function Multiset

def Process.users (process : Process) : Multiset Nat :=
  Library.Shares.held process.want + ↑process.held

namespace CommitPc

def unpinned (n : Nat) : CommitPc → Nat
  | .copy true tail (.release _ _) | .copy true tail (.releaseLast _) => tail + 1
  | .copy true tail _ => tail
  | .clear | .head true _ | .finish => n
  | _ => 0

/-- How many of `n` entries have been copied to the log. -/
def copied (n : Nat) : CommitPc → Nat
  | .copy false tail (.release _ _) | .copy false tail (.releaseLast _) => tail + 1
  | .copy false tail _ => tail
  | .start => 0
  | _ => n

def holds (start : Nat) (lh : List Nat) : CommitPc → List (Nat × Nat)
  | .copy _ tail (.getHome log) | .copy _ tail (.lockHome log) => [(log, start + tail + 1)]
  | .copy _ tail (.move log home) | .copy _ tail (.unpin log home)
  | .copy _ tail (.release log home) => [(log, start + tail + 1), (home, lh.getD tail 0)]
  | .copy installing tail (.releaseLast s) =>
    [(s, if installing then lh.getD tail 0 else start + tail + 1)]
  | .head _ (.write s) | .head _ (.release s) => [(s, start)]
  | _ => []

def awaits (start : Nat) (lh : List Nat) : CommitPc → Option Nat
  | .copy _ tail .lockLog => some (start + tail + 1)
  | .copy _ tail (.lockHome _) => some (lh.getD tail 0)
  | .head _ .lock => some start
  | _ => none

/-- The entry that the process works on exists; after the installation there is none. -/
def InRange (n : Nat) : CommitPc → Prop
  | .copy _ tail .getLog => tail ≤ n
  | .copy installing tail (.unpin _ _) => tail < n ∧ installing = true
  | .copy _ tail _ => tail < n
  | .head true _ | .finish => n = 0
  | _ => True

end CommitPc

namespace System

/-- The buffers that the first `n` processes hold or wait for. -/
def users (k : System) (n : Nat) : Multiset Nat :=
  shares (fun p => (k.procs p).users) n

def opens (k : System) (n : Nat) : Multiset Nat :=
  shares (fun p => if (k.procs p).phase = .operation then {p} else 0) n

/-- Process `q` is at this point of `commit`, with these blocks still pinned. -/
structure AtPc (k : System) (q : Nat) (pc : CommitPc) (pinned : List Nat) : Prop where
  holds : ∀ s b, (s, b) ∈ pc.holds k.start k.lh →
    s ∈ (k.procs q).held ∧ (k.cache.buf s).blockno = some b
  apart : ((pc.holds k.start k.lh).map Prod.fst).Nodup
  awaits : (k.procs q).want.bind (fun s => (k.cache.buf s).blockno) = pc.awaits k.start k.lh
  range : pc.InRange k.lh.length
  pinned : pinned = k.lh.drop (pc.unpinned k.lh.length)

/-- What holds between steps.  `committer` is the process that commits. -/
structure Inv (k : System) (n : Nat) (committer : Option Nat) (pinned : List Nat) : Prop where
  cache : k.cache.Ok (k.users n) pinned
  unborn : ∀ p, n ≤ p → k.procs p = ⟨.outside, none, []⟩
  locks : ∀ p s, (k.cache.buf s).lock = some p ↔ s ∈ (k.procs p).held
  distinct : ∀ p, (k.procs p).held.Nodup
  entries : k.lh.Nodup
  fits : k.lh ≠ [] → (k.lh.length : Int) ≤ k.size - 1
  count : k.outstanding = (k.opens n).card
  flag : k.committing = committer.isSome
  only : ∀ p pc, (k.procs p).phase = .commit pc → committer = some p
  quiet : committer ≠ none → k.outstanding = 0
  idle : committer = none → pinned = k.lh
  progress : ∀ q, committer = some q → ∃ pc, (k.procs q).phase = .commit pc ∧ k.AtPc q pc pinned

theorem init_inv (disk : Nat → Block) (start size n : Nat) :
    (init disk start size).Inv n none [] where
  cache := by
    have nobody : (init disk start size).users n = 0 := shares_eq_zero fun _ _ => rfl
    rw [nobody]
    exact Cache.binit_ok disk
  unborn := fun _ _ => rfl
  locks := fun _ _ => ⟨nofun, nofun⟩
  distinct := fun _ => List.nodup_nil
  entries := List.nodup_nil
  fits := fun some => absurd rfl some
  count := by
    have nobody : (init disk start size).opens n = 0 := shares_eq_zero fun _ _ => rfl
    rw [nobody]
    rfl
  flag := rfl
  only := nofun
  quiet := fun some => absurd rfl some
  idle := fun _ => rfl
  progress := nofun

variable {k k' : System} {n p q s : Nat} {committer : Option Nat} {pinned pinned' : List Nat}

/-- A program counter stays right as long as the buffers of its process keep their blocks. -/
theorem AtPc.frame {pc : CommitPc} (here : k.AtPc q pc pinned) (lh : k'.lh = k.lh)
    (start : k'.start = k.start) (process : k'.procs q = k.procs q)
    (blocks : ∀ s ∈ (k.procs q).users, (k'.cache.buf s).blockno = (k.cache.buf s).blockno) :
    k'.AtPc q pc pinned where
  holds := by
    rw [lh, start, process]
    intro s b mem
    obtain ⟨isHeld, block⟩ := here.holds s b mem
    exact ⟨isHeld, by rw [blocks s (mem_add.mpr (.inr isHeld)), block]⟩
  apart := by
    rw [lh, start]
    exact here.apart
  awaits := by
    rw [lh, start, process, ← here.awaits]
    cases wanted : (k.procs q).want with
    | none => rfl
    | some s => exact blocks s (mem_add.mpr (.inl (mem_held.mpr wanted)))
  range := lh ▸ here.range
  pinned := lh ▸ here.pinned

theorem users_split (lt : p < n) : ∃ rest, k.users n = (k.procs p).users + rest ∧
      (∀ (k' : System) process, k'.procs = update k.procs p process →
        k'.users n = process.users + rest) ∧
      ∀ q < n, q ≠ p → (k.procs q).users ≤ rest := by
  obtain ⟨rest, whole, updated, others⟩ := shares_split (fun p => (k.procs p).users) lt
  refine ⟨rest, whole, fun k' process changed => ?_, others⟩
  unfold users
  rw [← updated, changed]
  exact congrArg (shares · n) (funext (apply_update (fun _ => Process.users) k.procs p process))

theorem users_mem (lt : p < n) (used : s ∈ (k.procs p).users) : s ∈ k.users n :=
  mem_shares.mpr ⟨p, lt, used⟩

theorem opens_congr {process : Process} (changed : k'.procs = update k.procs p process)
    (same : process.phase = .operation ↔ (k.procs p).phase = .operation) :
    k'.opens n = k.opens n := by
  refine shares_congr fun q _ => ?_
  rcases eq_or_ne q p with rfl | ne
  · rw [changed, update_self]
    simp only [same]
  · rw [changed, update_of_ne ne]

/-- A step of one process that takes, changes or gives back buffers. -/
structure BufStep (k k' : System) (n p : Nat) (process : Process) (pinned' : List Nat) : Prop where
  changed : k'.procs = update k.procs p process
  lh : k'.lh = k.lh
  start : k'.start = k.start
  size : k'.size = k.size
  outstanding : k'.outstanding = k.outstanding
  committing : k'.committing = k.committing
  cache : k'.cache.Ok (k'.users n) pinned'
  locks : ∀ q s, (k'.cache.buf s).lock = some q ↔ s ∈ (k'.procs q).held
  distinct : process.held.Nodup
  blocks : ∀ s ∈ k.users n, (k'.cache.buf s).blockno = (k.cache.buf s).blockno

section

variable {process : Process}

theorem BufStep.self (step : k.BufStep k' n p process pinned') : k'.procs p = process := by
  rw [step.changed, update_self]

theorem BufStep.of_ne (step : k.BufStep k' n p process pinned') (ne : q ≠ p) :
    k'.procs q = k.procs q := by
  rw [step.changed, update_of_ne ne]

section

variable (inv : k.Inv n committer pinned) (lt : p < n)

include inv lt

/-- What such a step keeps, whatever it does to the program counter. -/
theorem Inv.bufStep (step : k.BufStep k' n p process pinned')
    (same : process.phase = .operation ↔ (k.procs p).phase = .operation)
    (only : ∀ pc, process.phase = .commit pc → committer = some p)
    (idle : committer = none → pinned' = k.lh) (progress : ∀ q, committer = some q →
      ∃ pc, (k'.procs q).phase = .commit pc ∧ k'.AtPc q pc pinned') :
    k'.Inv n committer pinned' := by
  refine ⟨step.cache, fun q above => ?_, step.locks, fun q => ?_, step.lh ▸ inv.entries, ?_, ?_,
    step.committing ▸ inv.flag, fun q pc => ?_, ?_, step.lh ▸ idle, progress⟩
  · rw [step.of_ne (by omega)]
    exact inv.unborn q above
  · rcases eq_or_ne q p with rfl | ne
    · rw [step.self]
      exact step.distinct
    · rw [step.of_ne ne]
      exact inv.distinct q
  · rw [step.lh, step.size]
    exact inv.fits
  · rw [step.outstanding, opens_congr step.changed same]
    exact inv.count
  · rcases eq_or_ne q p with rfl | ne
    · rw [step.self]
      exact only pc
    · rw [step.of_ne ne]
      exact inv.only q pc
  · rw [step.outstanding]
    exact inv.quiet

/-- A process that does not commit takes or gives back a buffer. -/
theorem Inv.bystander (step : k.BufStep k' n p process pinned)
    (same : process.phase = (k.procs p).phase) (notCommit : (k.procs p).phase.commits = false) :
    k'.Inv n committer pinned := by
  have other q (commits : committer = some q) : q ≠ p := by
    rintro rfl
    obtain ⟨pc, here, -⟩ := inv.progress q commits
    rw [here] at notCommit
    cases notCommit
  refine inv.bufStep lt step (by rw [same]) (fun pc here => ?_) inv.idle fun q commits => ?_
  · rw [same] at here
    rw [here] at notCommit
    cases notCommit
  obtain ⟨pc, here, at'⟩ := inv.progress q commits
  have kept := step.of_ne (other q commits)
  have below : q < n := by
    by_contra above
    rw [inv.unborn q (by omega)] at here
    cases here
  exact ⟨pc, by rw [kept, here], at'.frame step.lh step.start kept fun s used =>
    step.blocks s (users_mem below used)⟩

theorem Inv.advance {pc pc' : CommitPc} (here : (k.procs p).phase = .commit pc)
    (step : k.BufStep k' n p process pinned') (there : process.phase = .commit pc')
    (at' : k'.AtPc p pc' pinned') : k'.Inv n committer pinned' := by
  have commits := inv.only p pc here
  refine inv.bufStep lt step (by rw [there, here]; exact ⟨nofun, nofun⟩) (fun _ _ => commits)
    (fun nobody => by rw [commits] at nobody; cases nobody) fun q commits' => ?_
  obtain rfl := Option.some.inj (commits.symm.trans commits')
  exact ⟨pc', by rw [step.self, there], at'⟩

end

end

/-! ## The steps on buffers -/

section

variable {c' : Cache} {b : Nat}

section

variable (phase : Phase) (inv : k.Inv n committer pinned) (lt : p < n)

include phase inv lt

theorem bget_step (awake : (k.procs p).want = none) (done : k.cache.bget b = .ok (s, c')) :
    k.BufStep ({ k with cache := c' }.setProc p ⟨phase, some s, (k.procs p).held⟩) n p
      ⟨phase, some s, (k.procs p).held⟩ pinned := by
  obtain ⟨ok, -, -, -, locks, keeps⟩ := Cache.bget_spec inv.cache done
  obtain ⟨rest, whole, updated, -⟩ := users_split lt
  refine ⟨rfl, rfl, rfl, rfl, rfl, rfl, ?_, fun q x => ?_, inv.distinct p, fun x used =>
    (keeps x used).blockno⟩
  · have more : (Process.mk phase (some s) (k.procs p).held).users = s ::ₘ (k.procs p).users := by
      unfold Process.users
      rw [awake, held_some, held_none, zero_add, singleton_add]
    rw [updated _ _ rfl, more, cons_add, ← whole]
    exact ok
  · change (c'.buf x).lock = some q ↔ x ∈ (update k.procs p _ q).held
    rw [locks, inv.locks, apply_update_eq Process.held]
    rfl

theorem lock_step (wanted : (k.procs p).want = some s) (free : (k.cache.buf s).lock = none) :
    k.BufStep ({ k with cache := k.cache.acquire p s }.setProc p
        ⟨phase, none, s :: (k.procs p).held⟩) n p ⟨phase, none, s :: (k.procs p).held⟩ pinned := by
  have used : s ∈ k.users n :=
    users_mem lt (mem_add.mpr (.inl (mem_held.mpr wanted)))
  obtain ⟨ok, -, blocks, locks⟩ := Cache.acquire_spec p inv.cache used free
  obtain ⟨rest, whole, updated, -⟩ := users_split lt
  have fresh q : s ∉ (k.procs q).held := by
    rw [← inv.locks, free]
    nofun
  refine ⟨rfl, rfl, rfl, rfl, rfl, rfl, ?_, fun q x => ?_, List.nodup_cons.mpr
    ⟨fresh p, inv.distinct p⟩, fun x _ => blocks x⟩
  · have same : (Process.mk phase none (s :: (k.procs p).held)).users = (k.procs p).users := by
      unfold Process.users
      rw [wanted, held_none, held_some, zero_add, ← cons_coe, singleton_add]
    rw [updated _ _ rfl, same, ← whole]
    exact ok
  change ((k.cache.acquire p s).buf x).lock = some q ↔ x ∈ (update k.procs p _ q).held
  rw [locks]
  rcases eq_or_ne q p with rfl | ne
  · rw [update_self, List.mem_cons]
    rcases eq_or_ne x s with rfl | other
    · simp
    · simp [other, inv.locks]
  · rw [update_of_ne ne]
    rcases eq_or_ne x s with rfl | other
    · simp [fresh q, Ne.symm ne]
    · rw [if_neg other, inv.locks]

theorem brelse_step (isHeld : s ∈ (k.procs p).held) : ∃ c', k.cache.brelse p s = .ok c' ∧
      k.BufStep ({ k with cache := c' }.setProc p
          ⟨phase, (k.procs p).want, (k.procs p).held.erase s⟩) n p
        ⟨phase, (k.procs p).want, (k.procs p).held.erase s⟩ pinned ∧
      (∀ view dirty, dirty s = false → k.cache.Shows view dirty pinned →
        c'.Shows view dirty pinned) ∧
      c'.disk = k.cache.disk ∧ ∀ x, (c'.buf x).blockno = (k.cache.buf x).blockno := by
  obtain ⟨rest, whole, updated, -⟩ := users_split lt
  have ok := inv.cache
  have pre : (k.procs p).users = s ::ₘ (held (k.procs p).want + ↑((k.procs p).held.erase s)) := by
    unfold Process.users
    rw [← add_cons, cons_coe]
    exact congrArg (held (k.procs p).want + ·) (coe_eq_coe.mpr (List.perm_cons_erase isHeld))
  rw [whole, pre, cons_add] at ok
  obtain ⟨c', done, ok', shows, disk, locks, blocks⟩ :=
    Cache.brelse_spec ok ((inv.locks p s).mpr isHeld)
  refine ⟨c', done, ⟨rfl, rfl, rfl, rfl, rfl, rfl, ?_, fun q x => ?_, (inv.distinct p).erase s,
    fun x _ => blocks x⟩, shows, disk, blocks⟩
  · rw [updated _ _ rfl]
    exact ok'
  change (c'.buf x).lock = some q ↔ x ∈ (update k.procs p _ q).held
  rw [locks]
  rcases eq_or_ne q p with rfl | ne
  · rw [update_self, (inv.distinct q).mem_erase_iff]
    rcases eq_or_ne x s with rfl | other
    · simp
    · simp [other, inv.locks]
  rw [update_of_ne ne, ← inv.locks]
  rcases eq_or_ne x s with rfl | other
  · rw [if_pos rfl, (inv.locks p x).mpr isHeld]
    simp [Ne.symm ne]
  · rw [if_neg other]

/-- A change of the cache that leaves users and locks alone. -/
theorem cache_step (ok : c'.Ok (k.users n) pinned')
    (locks : ∀ x, (c'.buf x).lock = (k.cache.buf x).lock)
    (blocks : ∀ x, (c'.buf x).blockno = (k.cache.buf x).blockno) :
    k.BufStep ({ k with cache := c' }.setProc p { k.procs p with phase := phase }) n p
      { k.procs p with phase := phase } pinned' := by
  obtain ⟨rest, whole, updated, -⟩ := users_split (k := k) lt
  refine ⟨rfl, rfl, rfl, rfl, rfl, rfl, ?_, fun q x => ?_, inv.distinct p, fun x _ => blocks x⟩
  · rw [updated _ _ rfl]
    rw [whole] at ok
    exact ok
  change (c'.buf x).lock = some q ↔ x ∈ (update k.procs p _ q).held
  rw [locks, inv.locks, apply_update_eq Process.held]
  rfl

end

end

end System

end Xv6Rv32im.Log
