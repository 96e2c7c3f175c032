import Xv6Rv32im.Log.CommitInvariant

/-!
# The steps of a commit

`Data` adds to the invariant of group commit what the blocks hold: the cache and the
disk show one array, which on the home blocks is what was logged last, and the log holds
copies of the entries that the commit has copied.  Each step of `commit` keeps the
invariant, and keeps `Data` with it.
-/

namespace Xv6Rv32im.Log.System

open Library Library.Run Library.Shares Function List Cache

def Home (k : System) (b : Nat) : Prop :=
  b < k.start ∨ k.start + k.size ≤ b

instance (k : System) (b : Nat) : Decidable (k.Home b) :=
  inferInstanceAs (Decidable (_ ∨ _))

/-- What the blocks hold.  `contents` is what was logged last, `dirty` marks the buffers
that were changed and not logged since. -/
structure Data (k : System) (pinned : List Nat) (view : Nat → Block) (dirty : Nat → Bool)
    (contents : Nat → Block) : Prop where
  room : 0 < k.size
  shows : k.cache.Shows view dirty pinned
  agrees : ∀ b, k.Home b → view b = contents b
  homes : ∀ b ∈ k.lh, k.Home b
  copied : ∀ q pc, (k.procs q).phase = .commit pc → ∀ j < pc.copied k.lh.length,
    view (k.start + j + 1) = view (k.lh.getD j 0)
  clean : ∀ q pc, (k.procs q).phase = .commit pc → ∀ s b, (s, b) ∈ pc.holds k.start k.lh →
    dirty s = false
  written : ∀ q tail log home, (k.procs q).phase = .commit (.copy true tail (.unpin log home)) →
    k.cache.disk (k.lh.getD tail 0) = view (k.lh.getD tail 0)

variable {k k' k₁ : System} {n p q s b : Nat} {committer : Option Nat} {pinned pinned' : List Nat}
  {view view' contents : Nat → Block} {dirty : Nat → Bool} {process : Process} {c' : Cache}
  {pc pc' : CommitPc} {pc : CommitPc}

theorem init_data (disk : Nat → Block) (start : Nat) {size : Nat} (room : 0 < size) :
    (init disk start size).Data [] disk (fun _ => false) disk where
  room := room
  shows := binit_shows disk
  agrees := fun _ _ => rfl
  homes := nofun
  copied := nofun
  clean := nofun
  written := nofun

section

variable (data : k.Data pinned view dirty contents) (inv : k.Inv n committer pinned)

include data inv

theorem Data.advance (here : (k.procs p).phase = .commit pc)
    (step : k.BufStep k' n p process pinned') (there : process.phase = .commit pc')
    (shows : k'.cache.Shows view' dirty pinned') (agrees : ∀ b, k.Home b → view' b = view b)
    (copied : ∀ j < pc'.copied k.lh.length, view' (k.start + j + 1) = view' (k.lh.getD j 0))
    (clean : ∀ s b, (s, b) ∈ pc'.holds k.start k.lh → dirty s = false)
    (written : ∀ tail log home, pc' = .copy true tail (.unpin log home) →
      k'.cache.disk (k.lh.getD tail 0) = view' (k.lh.getD tail 0)) :
    k'.Data pinned' view' dirty contents := by
  have home b : k'.Home b ↔ k.Home b := by
    unfold Home
    rw [step.start, step.size]
  -- Nobody else commits.
  have alone q pc'' (commits : (k'.procs q).phase = .commit pc'') :
      pc'' = pc' := by
    have same : q = p := by
      by_contra ne
      rw [step.of_ne ne] at commits
      exact ne (Option.some.inj ((inv.only q pc'' commits).symm.trans (inv.only p pc here)))
    rw [same, step.self, there] at commits
    exact (Phase.commit.inj commits).symm
  refine ⟨step.size ▸ data.room, shows, fun b isHome => ?_, fun b entry => ?_,
    fun q pc'' commits => ?_, fun q pc'' commits => ?_, fun q tail log home commits => ?_⟩
  · rw [agrees b ((home b).mp isHome)]
    exact data.agrees b ((home b).mp isHome)
  · rw [step.lh] at entry
    exact (home b).mpr (data.homes b entry)
  · rw [alone q pc'' commits, step.lh, step.start]
    exact copied
  · rw [alone q pc'' commits, step.lh, step.start]
    exact clean
  · rw [step.lh]
    exact written tail log home (alone q _ commits).symm

theorem Data.bystander {dirty' : Nat → Bool} (step : k.BufStep k' n p process pinned)
    (same : process.phase = (k.procs p).phase) (notCommit : (k.procs p).phase.commits = false)
    (shows : k'.cache.Shows view dirty' pinned) (disk : k'.cache.disk = k.cache.disk)
    (marks : ∀ q, q ≠ p → ∀ s ∈ (k.procs q).held, dirty' s = dirty s) :
    k'.Data pinned view dirty' contents := by
  have home b : k'.Home b ↔ k.Home b := by
    unfold Home
    rw [step.start, step.size]
  have other q pc (commits : (k'.procs q).phase = .commit pc) :
      q ≠ p ∧ (k.procs q).phase = .commit pc := by
    have ne : q ≠ p := by
      rintro rfl
      rw [step.self, same] at commits
      rw [commits] at notCommit
      cases notCommit
    exact ⟨ne, by rwa [step.of_ne ne] at commits⟩
  refine ⟨step.size ▸ data.room, shows, fun b isHome => data.agrees b ((home b).mp isHome),
    fun b entry => ?_,
    fun q pc commits => ?_, fun q pc commits s b mem => ?_, fun q tail log home commits => ?_⟩
  · rw [step.lh] at entry
    exact (home b).mpr (data.homes b entry)
  · rw [step.lh, step.start]
    exact data.copied q pc (other q pc commits).2
  · rw [step.lh, step.start] at mem
    obtain ⟨ne, pre⟩ := other q pc commits
    obtain ⟨pc', here, at'⟩ := inv.progress q (inv.only q pc pre)
    obtain rfl := Phase.commit.inj (pre.symm.trans here)
    rw [marks q ne s (at'.holds s b mem).1]
    exact data.clean q pc pre s b mem
  · rw [step.lh, disk]
    exact data.written q tail log home (other q _ commits).2

end

theorem BufStep.atPc {pc' : CommitPc} (step : k.BufStep k' n p process pinned')
    (holds : ∀ s b, (s, b) ∈ pc'.holds k.start k.lh →
      s ∈ process.held ∧ (k'.cache.buf s).blockno = some b)
    (apart : ((pc'.holds k.start k.lh).map Prod.fst).Nodup)
    (awaits : process.want.bind (fun s => (k'.cache.buf s).blockno) = pc'.awaits k.start k.lh)
    (range : pc'.InRange k.lh.length)
    (isPinned : pinned' = k.lh.drop (pc'.unpinned k.lh.length)) : k'.AtPc p pc' pinned' where
  holds := by
    rw [step.lh, step.start, step.self]
    exact holds
  apart := by
    rw [step.lh, step.start]
    exact apart
  awaits := by
    rw [step.lh, step.start, step.self]
    exact awaits
  range := by
    rw [step.lh]
    exact range
  pinned := by
    rw [step.lh]
    exact isPinned

theorem setPhase_setProc (k : System) (p : Nat) (process : Process) (phase : Phase) :
    (k.setProc p process).setPhase p phase = k.setProc p { process with phase := phase } := by
  unfold setPhase setProc
  simp only [update_self, update_idem]

theorem bget_ok (done : k.bget p b = .ok k₁) : ∃ s c', k.cache.bget b = .ok (s, c') ∧
      k₁ = { k with cache := c' }.setProc p { k.procs p with want := some s } := by
  unfold bget at done
  cases found : k.cache.bget b with
  | error panic =>
    rw [found] at done
    cases done
  | ok result =>
    rw [found] at done
    cases done
    exact ⟨result.1, result.2, rfl, rfl⟩

theorem AtPc.awake (at' : k.AtPc p pc pinned) (inv : k.Inv n committer pinned) (lt : p < n)
    (nothing : pc.awaits k.start k.lh = none) : (k.procs p).want = none := by
  cases wanted : (k.procs p).want with
  | none => rfl
  | some s =>
    have named := inv.cache.named s
      (users_mem lt (Multiset.mem_add.mpr (.inl (mem_held.mpr wanted))))
    have awaits := at'.awaits
    rw [wanted, nothing] at awaits
    exact absurd awaits named

structure Frame (k k' : System) (n p : Nat) : Prop where
  others : ∀ q ≠ p, k'.procs q = k.procs q
  blocks : ∀ s ∈ k.users n, (k'.cache.buf s).blockno = (k.cache.buf s).blockno
  size : k'.size = k.size

theorem Frame.refl (k : System) (n p : Nat) : k.Frame k n p :=
  ⟨fun _ _ => rfl, fun _ _ => rfl, rfl⟩

theorem BufStep.frame (step : k.BufStep k' n p process pinned') : k.Frame k' n p :=
  ⟨fun _ => step.of_ne, step.blocks, step.size⟩

/-- A step that changes the phase of its process and `struct log`. -/
theorem Frame.of_procs {k₁ : System} (phase : Phase) (procs : k₁.procs = k.procs)
    (cache : k₁.cache = k.cache) (size : k₁.size = k.size) : k.Frame (k₁.setPhase p phase) n p := by
  refine ⟨fun q ne => ?_, fun s _ => ?_, size⟩
  · rw [← procs]
    exact update_of_ne ne ..
  · rw [← cache]
    rfl

/-- What a step of a process keeps: the invariant and the data. -/
def Kept (k k' : System) (n p : Nat) (pinned : List Nat) : Prop :=
  k.Frame k' n p ∧ ∃ committer' pinned', k'.Inv n committer' pinned' ∧ ∀ view dirty contents,
    k.Data pinned view dirty contents → ∃ view', k'.Data pinned' view' dirty contents

theorem Kept.same (inv : k.Inv n committer pinned) : k.Kept k n p pinned :=
  ⟨Frame.refl k n p, committer, pinned, inv, fun view _ _ data => ⟨view, data⟩⟩

theorem bind_ok {α β : Type} {call : Except LogPanic α} {next : α → β} {result : β}
    (done : (do return next (← call)) = Except.ok result) :
    ∃ value, call = .ok value ∧ result = next value := by
  cases called : call with
  | error panic =>
    rw [called] at done
    cases done
  | ok value =>
    rw [called] at done
    cases done
    exact ⟨value, rfl, rfl⟩

section

variable (inv : k.Inv n committer pinned) (lt : p < n)

include inv lt

section

variable (here : (k.procs p).phase = .commit pc) (at' : k.AtPc p pc pinned)

include here at'

section

variable (nothing : pc.awaits k.start k.lh = none) (range : pc'.InRange k.lh.length)
    (unpinned : pc'.unpinned k.lh.length = pc.unpinned k.lh.length)
    (copied : pc'.copied k.lh.length = pc.copied k.lh.length)
    (notUnpin : ∀ tail log home, pc' ≠ .copy true tail (.unpin log home))

include nothing range unpinned copied notUnpin

/-- The program counter moves on without a change of the buffers. -/
theorem phase_kept (holds : pc'.holds k.start k.lh = pc.holds k.start k.lh)
    (nothing' : pc'.awaits k.start k.lh = none) :
    k.Kept (k.setPhase p (.commit pc')) n p pinned := by
  have step := cache_step (.commit pc') inv lt inv.cache (fun _ => rfl) (fun _ => rfl)
  refine ⟨step.frame, committer, pinned, inv.advance lt here step rfl
    (step.atPc (fun x b' mem => ?_)
    (holds ▸ at'.apart) ?_ range ?_), fun view dirty contents data =>
      ⟨view, data.advance inv here step rfl data.shows (fun _ _ => rfl) ?_ ?_
        fun tail log home same => absurd same (notUnpin tail log home)⟩⟩
  · rw [holds] at mem
    exact at'.holds x b' mem
  · rw [nothing', at'.awake inv lt nothing]
    rfl
  · rw [unpinned]
    exact at'.pinned
  · rw [copied]
    exact data.copied p pc here
  · rw [holds]
    exact data.clean p pc here

theorem get_kept (done : k.bget p b = .ok k₁)
    (holds : pc'.holds k.start k.lh = pc.holds k.start k.lh)
    (awaits : pc'.awaits k.start k.lh = some b) :
    k.Kept (k₁.setPhase p (.commit pc')) n p pinned := by
  obtain ⟨s, c', found, rfl⟩ := bget_ok done
  rw [setPhase_setProc]
  have awake := at'.awake inv lt nothing
  have step := bget_step (.commit pc') inv lt awake found
  obtain ⟨-, shows, block, -, -, keeps⟩ := bget_spec inv.cache found
  refine ⟨step.frame, committer, pinned, inv.advance lt here step rfl
    (step.atPc (fun x b' mem => ?_)
      (holds ▸ at'.apart) ?_ range ?_), fun view dirty contents data =>
    ⟨view, data.advance inv here step rfl (shows _ _ data.shows) (fun _ _ => rfl) ?_ ?_
      fun tail log home same => absurd same (notUnpin tail log home)⟩⟩
  · rw [holds] at mem
    obtain ⟨isHeld, pre⟩ := at'.holds x b' mem
    refine ⟨isHeld, ?_⟩
    rw [← pre]
    exact (keeps x (users_mem lt (Multiset.mem_add.mpr (.inr isHeld)))).blockno
  · rw [awaits]
    exact block
  · rw [unpinned]
    exact at'.pinned
  · rw [copied]
    exact data.copied p pc here
  · rw [holds]
    exact data.clean p pc here

theorem release_kept (holds : ∃ pre after, pc.holds k.start k.lh = pre ++ (s, b) :: after ∧
      pc'.holds k.start k.lh = pre ++ after) (nothing' : pc'.awaits k.start k.lh = none)
    (done : k.brelse p s = .ok k₁) : k.Kept (k₁.setPhase p (.commit pc')) n p pinned := by
  obtain ⟨pre, after, old, new⟩ := holds
  have apart := at'.apart
  rw [old, map_append, map_cons, nodup_middle, nodup_cons, ← map_append, ← new] at apart
  have subset x b' (mem : (x, b') ∈ pc'.holds k.start k.lh) :
      (x, b') ∈ pc.holds k.start k.lh := by
    rw [new] at mem
    rw [old]
    simp only [mem_append, mem_cons] at mem ⊢
    tauto
  have mem : (s, b) ∈ pc.holds k.start k.lh := by
    rw [old]
    simp
  obtain ⟨c', released, step, shows, -, blocks⟩ :=
    brelse_step (.commit pc') inv lt (at'.holds s b mem).1
  unfold brelse at done
  rw [released] at done
  cases done
  rw [setPhase_setProc]
  refine ⟨step.frame, committer, pinned, inv.advance lt here step rfl
    (step.atPc (fun x b' inNew => ?_) apart.2 ?_
    range ?_), fun view dirty contents data => ⟨view, data.advance inv here step rfl
      (shows _ _ (data.clean p pc here s b mem) data.shows) (fun _ _ => rfl) ?_
      (fun x b' inNew => data.clean p pc here x b' (subset x b' inNew))
      fun tail log home same => absurd same (notUnpin tail log home)⟩⟩
  · obtain ⟨isHeld, block⟩ := at'.holds x b' (subset x b' inNew)
    have ne : x ≠ s := by
      rintro rfl
      exact apart.1 (mem_map.mpr ⟨(x, b'), inNew, rfl⟩)
    refine ⟨(inv.distinct p).mem_erase_iff.mpr ⟨ne, isHeld⟩, ?_⟩
    change (c'.buf x).blockno = some b'
    rw [blocks, block]
  · rw [nothing', at'.awake inv lt nothing]
    rfl
  · rw [unpinned]
    exact at'.pinned
  · rw [copied]
    exact data.copied p pc here

end

theorem lock_kept {next : Nat → CommitPc} (awaits : pc.awaits k.start k.lh = some b)
    (holds : ∀ s, ∃ pre after, pc.holds k.start k.lh = pre ++ after ∧
      (next s).holds k.start k.lh = pre ++ (s, b) :: after)
    (nothing : ∀ s, (next s).awaits k.start k.lh = none) (range : ∀ s, (next s).InRange k.lh.length)
    (unpinned : ∀ s, (next s).unpinned k.lh.length = pc.unpinned k.lh.length)
    (copied : ∀ s, (next s).copied k.lh.length = pc.copied k.lh.length)
    (notUnpin : ∀ s tail log home, next s ≠ .copy true tail (.unpin log home)) :
    k.Kept (k.lockThen p next) n p pinned := by
  unfold lockThen
  have waits := at'.awaits
  rw [awaits] at waits
  obtain ⟨s, wanted, block⟩ := Option.bind_eq_some_iff.mp waits
  rw [wanted]
  dsimp only
  by_cases free : (k.cache.buf s).lock = none
  · rw [if_neg (not_not.mpr free), lock, setPhase_setProc]
    have used : s ∈ k.users n :=
      users_mem lt (Multiset.mem_add.mpr (.inl (mem_held.mpr wanted)))
    have step := lock_step (.commit (next s)) inv lt wanted free
    obtain ⟨-, shows, blocks, -⟩ := acquire_spec p inv.cache used free
    obtain ⟨pre, after, old, new⟩ := holds s
    -- A buffer of the new program counter is the one just locked or one held before.
    have either x b' (mem : (x, b') ∈ (next s).holds k.start k.lh) :
        (x, b') = (s, b) ∨ (x, b') ∈ pc.holds k.start k.lh := by
      rw [new] at mem
      rw [old]
      simp only [mem_append, mem_cons] at mem ⊢
      tauto
    refine ⟨step.frame, committer, pinned, inv.advance lt here step rfl
      (step.atPc (fun x b' mem => ?_) ?_ ?_
      (range s) ?_), fun view dirty contents data => ⟨view, data.advance inv here step rfl
        (shows _ _ data.shows).1 (fun _ _ => rfl) ?_ (fun x b' mem => ?_)
        fun tail log home same => absurd same (notUnpin s tail log home)⟩⟩
    · change x ∈ s :: (k.procs p).held ∧ ((k.cache.acquire p s).buf x).blockno = some b'
      rw [blocks]
      rcases either x b' mem with same | old
      · cases same
        exact ⟨mem_cons_self .., block⟩
      · obtain ⟨isHeld, block'⟩ := at'.holds x b' old
        exact ⟨mem_cons_of_mem s isHeld, block'⟩
    · -- The buffer just locked is none of those held before.
      have fresh : ∀ x b', (x, b') ∈ pc.holds k.start k.lh → x ≠ s := by
        rintro x b' old rfl
        have isLocked := (inv.locks p x).mpr (at'.holds x b' old).1
        rw [free] at isLocked
        cases isLocked
      have apart := at'.apart
      rw [old] at apart fresh
      rw [new, map_append, map_cons, nodup_middle, nodup_cons, ← map_append]
      refine ⟨fun again => ?_, apart⟩
      obtain ⟨⟨x, b'⟩, mem, same⟩ := mem_map.mp again
      exact fresh x b' mem same
    · rw [nothing s]
      rfl
    · rw [unpinned s]
      exact at'.pinned
    · rw [copied s]
      exact data.copied p pc here
    · rcases either x b' mem with same | old
      · cases same
        exact (shows _ _ data.shows).2
      · exact data.clean p pc here x b' old
  · rw [if_pos free]
    exact Kept.same inv

variable {block : Block}

theorem write_kept (target : (s, b) ∈ pc.holds k.start k.lh)
    (holds : pc'.holds k.start k.lh = pc.holds k.start k.lh)
    (nothing : pc.awaits k.start k.lh = none) (nothing' : pc'.awaits k.start k.lh = none)
    (range : pc'.InRange k.lh.length)
    (unpinned : pc'.unpinned k.lh.length = pc.unpinned k.lh.length)
    (shown : ∀ view dirty contents, k.Data pinned view dirty contents →
      (∀ b', k.Home b' → update view b block b' = view b') ∧
      (∀ j < pc'.copied k.lh.length, update view b block (k.start + j + 1) =
        update view b block (k.lh.getD j 0)) ∧
      ∀ tail log home, pc' = .copy true tail (.unpin log home) → k.lh.getD tail 0 = b)
    (done : k.writeThrough p s block = .ok k₁) :
    k.Kept (k₁.setPhase p (.commit pc')) n p pinned := by
  obtain ⟨isHeld, isBlock⟩ := at'.holds s b target
  obtain ⟨c', wrote, ok, shows, disk, blocks, locks⟩ :=
    writeThrough_spec block inv.cache isBlock ((inv.locks p s).mpr isHeld)
  unfold writeThrough at done
  rw [wrote] at done
  cases done
  have step := cache_step (.commit pc') inv lt ok locks blocks
  have same : ({ k with cache := c' } : System).setPhase p _ =
      { k with cache := c' }.setProc p { k.procs p with phase := .commit pc' } := rfl
  rw [same]
  refine ⟨step.frame, committer, pinned, inv.advance lt here step rfl
    (step.atPc (fun x b' mem => ?_)
    (holds ▸ at'.apart) ?_ range ?_), fun view dirty contents data => ?_⟩
  · rw [holds] at mem
    obtain ⟨isHeld, isBlock⟩ := at'.holds x b' mem
    exact ⟨isHeld, by rw [← isBlock]; exact blocks x⟩
  · rw [nothing', at'.awake inv lt nothing]
    rfl
  · rw [unpinned]
    exact at'.pinned
  obtain ⟨agrees, copied, written⟩ := shown view dirty contents data
  refine ⟨update view b block, data.advance inv here step rfl
    (shows _ _ (data.clean p pc here s b target) data.shows) agrees copied ?_ ?_⟩
  · rw [holds]
    exact data.clean p pc here
  · intro tail log home unpins
    rw [written tail log home unpins, update_self]
    exact disk

end

end

theorem Data.held_data (data : k.Data pinned view dirty contents) (inv : k.Inv n committer pinned)
    (here : (k.procs p).phase = .commit pc) (at' : k.AtPc p pc pinned)
    (mem : (s, b) ∈ pc.holds k.start k.lh) : (k.cache.buf s).data = view b := by
  obtain ⟨isHeld, isBlock⟩ := at'.holds s b mem
  have isLocked : (k.cache.buf s).lock ≠ none := by
    rw [(inv.locks p s).mpr isHeld]
    nofun
  exact data.shows.clean s b isBlock (inv.cache.locked s isLocked).2 (data.clean p pc here s b mem)

/-- The entries are home blocks, and their copies lie in the log. -/
theorem Data.entry_home (data : k.Data pinned view dirty contents) {j : Nat}
    (lt : j < k.lh.length) : k.Home (k.lh.getD j 0) := by
  have found : k.lh.getD j 0 = k.lh[j] := by simp [lt]
  rw [found]
  exact data.homes _ (getElem_mem lt)

theorem Inv.log_not_home (inv : k.Inv n committer pinned) {j : Nat} (lt : j < k.lh.length) :
    ¬k.Home (k.start + j + 1) := by
  have fits := inv.fits (ne_nil_of_length_pos (by omega))
  unfold Home
  omega

theorem Data.agrees_update (outside : ¬k.Home b) (b' : Nat) (isHome : k.Home b') :
    update view b block b' = view b' := by
  refine update_of_ne ?_ ..
  rintro rfl
  exact outside isHome

section

variable (inv : k.Inv n committer pinned) (lt : p < n)

include inv lt

theorem unpin_kept {tail log home : Nat}
    (here : (k.procs p).phase = .commit (.copy true tail (.unpin log home)))
    (at' : k.AtPc p (.copy true tail (.unpin log home)) pinned) :
    k.Kept ({ k with cache := k.cache.bunpin home }.setPhase p
      (.commit (.copy true tail (.release log home)))) n p pinned := by
  obtain ⟨isHeld, block⟩ := at'.holds home _ (mem_cons_of_mem _ (mem_cons_self ..))
  have used : home ∈ k.users n := users_mem lt (Multiset.mem_add.mpr (.inr isHeld))
  have below := at'.range.1
  have first : pinned = k.lh.getD tail 0 :: k.lh.drop (tail + 1) := by
    rw [at'.pinned]
    have found : k.lh.getD tail 0 = k.lh[tail] := by simp [below]
    rw [found]
    exact drop_eq_getElem_cons below
  have cache := inv.cache
  rw [first] at cache
  obtain ⟨ok, shows⟩ := bunpin_spec cache used block
  have kept x : ((k.cache.bunpin home).buf x).lock = (k.cache.buf x).lock ∧
      ((k.cache.bunpin home).buf x).blockno = (k.cache.buf x).blockno := by
    rcases eq_or_ne x home with rfl | ne
    · exact ⟨by rw [bunpin, setBuf_self], by rw [bunpin, setBuf_self]⟩
    · rw [bunpin, setBuf_of_ne _ _ ne]
      exact ⟨rfl, rfl⟩
  have step := cache_step (.commit (.copy true tail (.release log home))) inv lt ok
    (fun x => (kept x).1) fun x => (kept x).2
  refine ⟨step.frame, committer, _, inv.advance lt here step rfl (step.atPc (fun x b' mem => ?_)
    at'.apart ?_ below rfl), fun view dirty contents data => ⟨view, data.advance inv here step rfl
      (shows _ _ (data.written p tail log home here) (first ▸ data.shows)) (fun _ _ => rfl)
      (data.copied p (.copy true tail (.unpin log home)) here)
      (data.clean p (.copy true tail (.unpin log home)) here) nofun⟩⟩
  · obtain ⟨isHeld, isBlock⟩ := at'.holds x b' mem
    exact ⟨isHeld, (kept x).2.trans isBlock⟩
  · rw [at'.awake inv lt rfl]
    rfl

theorem copyStep_kept {installing : Bool} {tail : Nat} {pc : CopyPc}
    (here : (k.procs p).phase = .commit (.copy installing tail pc))
    (at' : k.AtPc p (.copy installing tail pc) pinned)
    (done : k.copyStep p installing tail pc = .ok k') : k.Kept k' n p pinned := by
  have range := at'.range
  cases pc with
  | getLog =>
    unfold copyStep at done
    by_cases more : tail < k.lh.length
    · rw [if_pos more] at done
      obtain ⟨k₁, got, rfl⟩ := bind_ok done
      exact get_kept inv lt here at' rfl more (by cases installing <;> rfl)
        (by cases installing <;> rfl) nofun got rfl rfl
    rw [if_neg more] at done
    cases done
    have whole : tail = k.lh.length := le_antisymm range (by omega)
    subst whole
    cases installing with
    | true | false => exact phase_kept inv lt here at' rfl trivial rfl rfl nofun rfl rfl
  | lockLog =>
    cases done
    exact lock_kept inv lt here at' rfl (fun s => ⟨[], [], rfl, rfl⟩) (fun _ => rfl)
      (fun _ => range) (fun _ => by cases installing <;> rfl)
      (fun _ => by cases installing <;> rfl) nofun
  | getHome log =>
    obtain ⟨k₁, got, rfl⟩ := bind_ok done
    exact get_kept inv lt here at' rfl range (by cases installing <;> rfl)
      (by cases installing <;> rfl) nofun got rfl rfl
  | lockHome log =>
    cases done
    exact lock_kept inv lt here at' rfl (fun s => ⟨[_], [], rfl, rfl⟩) (fun _ => rfl)
      (fun _ => range) (fun _ => by cases installing <;> rfl)
      (fun _ => by cases installing <;> rfl) nofun
  | move log home =>
    cases installing with
    | true =>
      obtain ⟨k₁, wrote, rfl⟩ := bind_ok done
      refine write_kept inv lt here at' (mem_cons_of_mem _ (mem_cons_self ..))
        rfl rfl rfl ⟨range, rfl⟩ rfl (fun view dirty contents data => ?_) wrote
      -- The log block holds a copy of the home block, which this write does not change.
      have same : update view (k.lh.getD tail 0) (k.cache.buf log).data = view := by
        rw [data.held_data inv here at' (mem_cons_self ..),
          data.copied p _ here tail range, update_eq_self]
      rw [same]
      refine ⟨fun _ _ => rfl, data.copied p (.copy true tail (.move log home)) here, ?_⟩
      intro tail' log' home' same
      cases same
      rfl
    | false =>
      obtain ⟨k₁, wrote, rfl⟩ := bind_ok done
      refine write_kept inv lt here at' (mem_cons_self ..) rfl rfl rfl range rfl
        (fun view dirty contents data => ?_) wrote
      have copy := data.held_data inv here at' (mem_cons_of_mem _ (mem_cons_self ..))
      have inside : tail < k.lh.length := range
      have outside := inv.log_not_home inside
      refine ⟨Data.agrees_update outside, fun j (below : j < tail + 1) => ?_, nofun⟩
      rw [Data.agrees_update outside _ (data.entry_home (show j < k.lh.length by omega))]
      rcases eq_or_ne j tail with rfl | ne
      · rw [update_self, copy]
      · rw [update_of_ne (by omega)]
        exact data.copied p _ here j (show j < tail by omega)
  | unpin log home =>
    obtain ⟨below, rfl⟩ := range
    cases done
    exact unpin_kept inv lt here at'
  | release log home =>
    unfold copyStep at done
    cases installing with
    | true =>
      obtain ⟨k₁, released, rfl⟩ := bind_ok done
      exact release_kept inv lt here at' rfl range rfl rfl nofun ⟨[], [_], rfl, rfl⟩ rfl released
    | false =>
      obtain ⟨k₁, released, rfl⟩ := bind_ok done
      exact release_kept inv lt here at' rfl range rfl rfl nofun ⟨[_], [], rfl, rfl⟩ rfl released
  | releaseLast s =>
    obtain ⟨k₁, released, rfl⟩ := bind_ok done
    exact release_kept inv lt here at' rfl range (by cases installing <;> rfl)
      (by cases installing <;> rfl) nofun ⟨[], [], rfl, rfl⟩ rfl released

theorem headStep_kept {cleared : Bool} {pc : HeadPc}
    (here : (k.procs p).phase = .commit (.head cleared pc))
    (at' : k.AtPc p (.head cleared pc) pinned) (done : k.headStep p cleared pc = .ok k') :
    k.Kept k' n p pinned := by
  have range pc' : (CommitPc.head cleared pc').InRange k.lh.length := by
    have range := at'.range
    cases cleared with
    | true => exact range
    | false => trivial
  cases pc with
  | get =>
    obtain ⟨k₁, got, rfl⟩ := bind_ok done
    exact get_kept inv lt here at' rfl (range _) (by cases cleared <;> rfl) rfl nofun got rfl rfl
  | lock =>
    cases done
    exact lock_kept inv lt here at' rfl (fun s => ⟨[], [], rfl, rfl⟩) (fun _ => rfl)
      (fun _ => range _) (fun _ => by cases cleared <;> rfl) (fun _ => rfl) nofun
  | write s =>
    obtain ⟨k₁, wrote, rfl⟩ := bind_ok done
    refine write_kept inv lt here at' (mem_cons_self ..) rfl rfl rfl (range _)
      (by cases cleared <;> rfl) (fun view dirty contents data => ?_) wrote
    have outside : ¬k.Home k.start := by
      have room := data.room
      unfold Home
      omega
    refine ⟨Data.agrees_update outside, fun j below => ?_, nofun⟩
    rw [Data.agrees_update outside _ (data.entry_home below), update_of_ne (by omega)]
    exact data.copied p _ here j below
  | release s =>
    obtain ⟨k₁, released, rfl⟩ := bind_ok done
    cases cleared with
    | true =>
      exact release_kept inv lt here at' rfl (range .get) rfl rfl nofun ⟨[], [], rfl, rfl⟩ rfl
        released
    | false =>
      exact release_kept inv lt here at' rfl (Nat.zero_le _) rfl rfl nofun ⟨[], [], rfl, rfl⟩ rfl
        released

end

/-! ## Steps that change `struct log` -/

/-- What is left to show for a step that changes the phase of one process and `struct log`. -/
theorem Inv.rephase {phase : Phase} (k' : System) (committer' : Option Nat)
    (inv : k.Inv n committer pinned) (lt : p < n)
    (changed : k'.procs = update k.procs p ⟨phase, (k.procs p).want, (k.procs p).held⟩)
    (cache : k'.cache = k.cache) (entries : k'.lh.Nodup)
    (fits : k'.lh ≠ [] → (k'.lh.length : Int) ≤ k'.size - 1)
    (count : k'.outstanding = (k'.opens n).card) (flag : k'.committing = committer'.isSome)
    (only : ∀ q pc, (k'.procs q).phase = .commit pc → committer' = some q)
    (quiet : committer' ≠ none → k'.outstanding = 0) (idle : committer' = none → pinned = k'.lh)
    (progress : ∀ q, committer' = some q →
      ∃ pc, (k'.procs q).phase = .commit pc ∧ k'.AtPc q pc pinned) :
    k'.Inv n committer' pinned := by
  have held : ∀ q, (k'.procs q).held = (k.procs q).held :=
    changed ▸ apply_update_eq Process.held rfl
  refine ⟨?_, fun q above => ?_, fun q s => ?_, fun q => ?_, entries, fits, count, flag, only,
    quiet, idle, progress⟩
  · obtain ⟨rest, whole, updated, -⟩ := users_split lt
    have ok := inv.cache
    rw [whole] at ok
    rw [cache, updated _ _ changed]
    exact ok
  · rw [changed, update_of_ne (by omega)]
    exact inv.unborn q above
  · rw [cache, held]
    exact inv.locks q s
  · rw [held]
    exact inv.distinct q

theorem Data.rephase {phase : Phase} (data : k.Data pinned view dirty contents)
    (changed : k'.procs = update k.procs p ⟨phase, (k.procs p).want, (k.procs p).held⟩)
    (cache : k'.cache = k.cache) (start : k'.start = k.start) (size : k'.size = k.size)
    (lh : k'.lh ⊆ k.lh) (alone : ∀ q ≠ p, (k.procs q).phase.commits = false)
    (fresh : ∀ pc, phase = .commit pc → pc.copied k'.lh.length = 0 ∧
      pc.holds k'.start k'.lh = [] ∧ ∀ tail log home, pc ≠ .copy true tail (.unpin log home)) :
    k'.Data pinned view dirty contents := by
  have home b : k'.Home b ↔ k.Home b := by
    unfold Home
    rw [start, size]
  have only q pc (commits : (k'.procs q).phase = .commit pc) :
      phase = .commit pc := by
    rw [changed] at commits
    rcases eq_or_ne q p with rfl | ne
    · rwa [update_self] at commits
    rw [update_of_ne ne] at commits
    have other := alone q ne
    rw [commits] at other
    cases other
  refine ⟨size ▸ data.room, cache ▸ data.shows, fun b isHome => data.agrees b ((home b).mp isHome),
    fun b entry => (home b).mpr (data.homes b (lh entry)), fun q pc commits j below => ?_,
    fun q pc commits s b mem => ?_, fun q tail log home commits => ?_⟩
  · rw [(fresh pc (only q pc commits)).1] at below
    omega
  · rw [(fresh pc (only q pc commits)).2.1] at mem
    cases mem
  · exact absurd rfl ((fresh _ (only q _ commits)).2.2 tail log home)

theorem opens_split (lt : p < n) :
    ∃ rest, (k.opens n).card = (if (k.procs p).phase = .operation then 1 else 0) + rest ∧
      ∀ (k' : System) process, k'.procs = update k.procs p process →
        (k'.opens n).card = (if process.phase = .operation then 1 else 0) + rest := by
  obtain ⟨rest, whole, updated, -⟩ :=
    shares_split (fun p => if (k.procs p).phase = .operation then ({p} : Multiset Nat) else 0) lt
  refine ⟨rest.card, ?_, fun k' process changed => ?_⟩
  · unfold opens
    rw [whole, Multiset.card_add]
    split <;> rfl
  have parts : k'.opens n = (if process.phase = .operation then ({p} : Multiset Nat) else 0) +
      rest := by
    unfold opens
    rw [← updated, changed]
    exact congrArg (shares · n) (funext (apply_update (fun q (r : Process) =>
      if r.phase = .operation then ({q} : Multiset Nat) else 0) k.procs p process))
  rw [parts, Multiset.card_add]
  split <;> rfl

theorem Inv.alone (inv : k.Inv n committer pinned) (here : (k.procs p).phase = .commit pc) (q : Nat)
    (ne : q ≠ p) : (k.procs q).phase.commits = false := by
  cases there : (k.procs q).phase with
  | outside => rfl
  | operation => rfl
  | commit pc' =>
    exact absurd (Option.some.inj ((inv.only q pc' there).symm.trans (inv.only p pc here))) ne

theorem Inv.nobody (inv : k.Inv n none pinned) (q : Nat) : (k.procs q).phase.commits = false := by
  cases there : (k.procs q).phase with
  | outside => rfl
  | operation => rfl
  | commit pc => cases inv.only q pc there

section

variable (inv : k.Inv n committer pinned) (lt : p < n)

include inv lt

theorem clear_kept (here : (k.procs p).phase = .commit .clear) (at' : k.AtPc p .clear pinned) :
    k.Kept ({ k with lh := [] }.setPhase p (.commit (.head true .get))) n p pinned := by
  have commits := inv.only p _ here
  have unpinned : pinned = [] := by
    rw [at'.pinned]
    exact drop_length
  have cleared : ({ k with lh := [] }.setPhase p (.commit (.head true .get))).Inv n committer
      pinned := by
    refine inv.rephase ({ k with lh := [] }.setPhase p (.commit (.head true .get))) committer lt
      rfl rfl nodup_nil (fun some => absurd rfl some)
      ?_ inv.flag (fun q pc there => ?_) inv.quiet (fun nobody => ?_) fun q commits' => ?_
    · rw [opens_congr rfl (by rw [here]; exact ⟨nofun, nofun⟩)]
      exact inv.count
    · change (update k.procs p _ q).phase = _ at there
      rcases eq_or_ne q p with rfl | ne
      · exact commits
      · rw [update_of_ne ne] at there
        exact inv.only q pc there
    · rw [commits] at nobody
      cases nobody
    obtain rfl := Option.some.inj (commits.symm.trans commits')
    refine ⟨.head true .get, ?_, nofun, nodup_nil, ?_, rfl, unpinned⟩
    · change (update k.procs p _ p).phase = _
      rw [update_self]
    · change (update k.procs p _ p).want.bind _ = _
      rw [update_self]
      exact at'.awaits
  refine ⟨Frame.of_procs _ rfl rfl rfl, committer, pinned, cleared,
    fun view dirty contents data => ⟨view, ?_⟩⟩
  refine data.rephase rfl rfl rfl rfl (nil_subset _) (inv.alone here) fun pc same => ?_
  cases same
  exact ⟨rfl, rfl, nofun⟩

theorem finish_kept (here : (k.procs p).phase = .commit .finish) (at' : k.AtPc p .finish pinned) :
    k.Kept ({ k with committing := false }.setPhase p .outside) n p pinned := by
  have empty : k.lh = [] := length_eq_zero_iff.mp at'.range
  have finished : ({ k with committing := false }.setPhase p .outside).Inv n none pinned := by
    refine inv.rephase ({ k with committing := false }.setPhase p .outside) none lt rfl rfl
      inv.entries inv.fits ?_ rfl (fun q pc there => ?_)
      (fun some => absurd rfl some) (fun _ => ?_) nofun
    · rw [opens_congr rfl (by rw [here]; exact ⟨nofun, nofun⟩)]
      exact inv.count
    · change (update k.procs p _ q).phase = _ at there
      rcases eq_or_ne q p with rfl | ne
      · rw [update_self] at there
        cases there
      rw [update_of_ne ne] at there
      have other := inv.alone here q ne
      rw [there] at other
      cases other
    · rw [at'.pinned, empty]
      rfl
  exact ⟨Frame.of_procs _ rfl rfl rfl, none, pinned, finished, fun view dirty contents data =>
    ⟨view, data.rephase rfl rfl rfl rfl (List.Subset.refl _) (inv.alone here) nofun⟩⟩

theorem commitStep_kept (here : (k.procs p).phase = .commit pc)
    (done : k.commitStep p pc = .ok k') :
    k.Kept k' n p pinned := by
  obtain ⟨pc', here', at'⟩ := inv.progress p (inv.only p pc here)
  obtain rfl := Phase.commit.inj (here.symm.trans here')
  cases pc with
  | start =>
    cases done
    by_cases some : k.lh.length > 0
    · rw [if_pos some]
      exact phase_kept inv lt here at' rfl (Nat.zero_le _) rfl rfl nofun rfl rfl
    · rw [if_neg some]
      have empty : k.lh.length = 0 := by omega
      exact phase_kept inv lt here at' rfl empty empty empty nofun rfl rfl
  | copy installing tail pc => exact copyStep_kept inv lt here at' done
  | clear =>
    cases done
    exact clear_kept inv lt here at'
  | head cleared pc => exact headStep_kept inv lt here at' done
  | finish =>
    cases done
    exact finish_kept inv lt here at'

end

end Xv6Rv32im.Log.System
