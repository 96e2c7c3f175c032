import Xv6Rv32im.Itable.References

/-!
# An inode is freed and allocated again

Whatever the interleaving, a holder that has an inode locked sees the generation it has a reference
to, an `iput` that frees an inode writes only to its own generation of it, and the numbers of
references are those of the holders.
-/

namespace Xv6Rv32im.Itable

open Fs Library.Count Library.Run Function

/-- The tables are full: what no interleaving can rule out. -/
def Panic.Exhausted (panic : Panic) : Prop := panic = .iallocNoInodes ∨ panic = .igetNoInodes

namespace System

variable {s t : System} {a b e inum : Nat}

/-- The step keeps the invariants, or a table is full. -/
def Kept (result : Except Panic System) : Prop :=
  (∃ t, result = .ok t ∧ t.Sound) ∨ ∃ panic, result = .error panic ∧ panic.Exhausted

theorem Kept.of_sound (sound : t.Sound) : Kept (.ok t) := .inl ⟨t, rfl, sound⟩

theorem Kept.of_exists {result : Except Panic System} (kept : ∃ t, result = .ok t ∧ t.Sound) :
    Kept result := .inl kept

/-! ## The steps -/

theorem Sound.ialloc {type : FileType} (sound : s.Sound) (pre : s.pc a = .scan inum type) :
    Kept (s.ialloc a inum type) := by
  have allocates := sound.scanning a inum type pre
  unfold System.ialloc
  split
  · split
    next free => exact .of_sound (sound.mark pre free)
    next => exact .of_sound (sound.scan (by rw [pre]; rfl) allocates _)
  · exact .inr ⟨_, rfl, .inl rfl⟩

theorem Sound.adopt (sound : s.Sound) (pre : s.pc a = .allocated inum) : Kept (do
      let (e, s) ← s.iget inum
      .ok (s.setPc a (.newborn e))) := by
  obtain ⟨e, entry, found, bound, counted⟩ | full := sound.iget_spec inum
  · rw [found]
    refine .of_sound (sound.refer (sound.adopts pre counted) bound ?_)
    rw [itable_setPc, itable_setEntry, if_pos rfl]
    exact counted
  · rw [full]
    exact .inr ⟨_, rfl, .inr rfl⟩

theorem Sound.lookup (sound : s.Sound) (a inum : Nat) : Kept (s.lookup a inum) := by
  unfold System.lookup
  split
  next found =>
    obtain ⟨idle, isNamed⟩ := found
    obtain ⟨e, entry, found, bound, counted⟩ | full := sound.iget_spec inum
    · rw [found]
      refine .of_sound (sound.refer (sound.looksUp idle isNamed counted) bound ?_)
      rw [itable_setEntry, if_pos rfl]
      exact counted
    · rw [full]
      exact .inr ⟨_, rfl, .inr rfl⟩
  next => exact .of_sound sound

theorem usable_spec (usable : s.usable a = some e) :
    s.pc a = .held e ∨ s.pc a = .locked e ∨ s.pc a = .dirty e := by
  unfold System.usable at usable
  grind

theorem inside_spec (inside : s.inside a = some e) : s.pc a = .locked e ∨ s.pc a = .dirty e := by
  unfold System.inside at inside
  grind

section

variable (sound : s.Sound)

include sound

theorem Sound.idup (a b : Nat) : (s.idup a b).Sound := by
  unfold System.idup
  split
  · exact sound
  next e usable =>
    split
    next idle =>
      obtain ⟨refers, pos⟩ := sound.dups idle (usable_spec usable)
      refine sound.refer refers (sound.bounded e pos) (.inl ⟨?_, rfl, pos⟩)
      rw [itable_setEntry, if_pos rfl]
    next => exact sound

theorem Sound.rename (value : Bool) (live : (s.pc a).live = some e)
    (steady : ∀ b, s.pc b ≠ .truncate e ∧ s.pc b ≠ .clear e ∧ s.pc b ≠ .invalidate e ∧
      s.pc b ≠ .unlock e)
    (nlink : value = true → s.nlink e ≠ 0 ∧ (s.disk (s.itable e).inum).nlink ≠ 0) :
    ({ s with named := update s.named (s.itable e).inum value } : System).Sound := by
  have here := sound.entries e
  have inUse := (here.current a live).1
  have pos := here.refs.pos (Pc.entry_of_live live)
  constructor
  · intro e'
    by_cases same : e' = e
    · subst same
      refine ⟨here.refs, here.locks, here.current, here.valid, here.ready, here.loaded, here.typed,
        fun _ isValid isNamed => ?_, fun b is => (is.elim (steady b).1 (steady b).2.1).elim,
        fun b is => (is.elim (steady b).2.2.1 (steady b).2.2.2).elim⟩
      change update s.named _ value _ = true at isNamed
      rw [update_self] at isNamed
      have effective := (nlink isNamed).1
      unfold System.nlink at effective
      rwa [if_pos isValid] at effective
    · refine (sound.entries e').frame rfl (fun _ _ => rfl) (fun _ _ => rfl) fun pos' => ?_
      refine ⟨rfl, update_of_ne ?_ _ _, rfl⟩
      exact fun equal => same (sound.unique e' e pos' pos equal)
  · exact sound.bounded
  · exact sound.unique
  · intro b i is
    obtain ⟨typed, born, unnamed, dead, sole⟩ := sound.allocated b i is
    refine ⟨typed, born, ?_, dead, sole⟩
    rw [← unnamed]
    exact update_of_ne (dead a e live).symm _ _
  · exact sound.scanning
  · intro i isNamed
    change update s.named _ value i = true at isNamed
    rw [update_apply] at isNamed
    split at isNamed
    next same =>
      rw [same]
      exact ⟨inUse, (nlink isNamed).2⟩
    next => exact sound.named i isNamed

theorem Sound.go (a : Nat) : Kept (s.go a) := by
  unfold System.go
  split
  next inum type pre => exact sound.ialloc pre
  next inum pre => exact sound.adopt pre
  next e pre => exact .of_exists (sound.acquire (.inr pre))
  next e new pre => exact .of_exists (sound.load pre)
  next e pre => exact .of_sound (sound.iupdate pre)
  next e pre => exact .of_exists (sound.putCheck pre)
  next e pre => exact .of_sound (sound.itrunc pre)
  next e pre => exact .of_sound (sound.clear pre)
  next e pre => exact .of_sound (sound.invalidate pre)
  next e pre => exact .of_sound (sound.releasesleep (.inr ⟨pre, rfl⟩))
  next e pre => exact .of_sound (sound.dropRef (.inr pre))
  next => exact .of_sound sound

theorem Sound.kept (event : Event) : Kept (s.step event) := by
  cases event with
  | create a type =>
    unfold System.step System.create
    dsimp only
    split
    next possible =>
      exact .of_sound (sound.scan (by rw [possible.1]; rfl) possible.2 1)
    next => exact .of_sound sound
  | lookup a inum => exact sound.lookup a inum
  | dup a b => exact .of_sound (sound.idup a b)
  | ilock a =>
    unfold System.step System.ilock
    dsimp only
    split
    next e pre => exact .of_exists (sound.acquire (.inl pre))
    next => exact .of_sound sound
  | setup a major minor =>
    unfold System.step System.setup
    dsimp only
    split
    next e pre => exact .of_sound (sound.setInode (.inl pre) rfl (fun _ => by simp))
    next => exact .of_sound sound
  | modify a major minor size addrs =>
    unfold System.step System.modify
    dsimp only
    split
    · exact .of_sound sound
    next e inside =>
      have pre := inside_spec inside
      have here := sound.entries e
      have pos := here.refs.pos (a := a) (by grind)
      exact .of_sound (sound.setInode (.inr pre) rfl (here.cached pos (here.loaded a (by grind))))
  | setNlink a nlink =>
    unfold System.step System.setNlink
    dsimp only
    split
    · exact .of_sound sound
    next e inside =>
      split
      · exact .of_sound sound
      next allowed =>
        exact .of_sound (sound.setInode (.inr (inside_spec inside)) rfl
          fun named zero => allowed ⟨named, zero⟩)
  | name a =>
    unfold System.step System.name
    dsimp only
    split
    · exact .of_sound sound
    next e usable =>
      split
      · exact .of_sound sound
      next linked =>
        have usable' := usable_spec usable
        exact .of_sound (sound.rename (a := a) true (by grind) ((sound.entries e).steady usable')
          fun _ => not_or.mp linked)
  | unname a =>
    unfold System.step System.unname
    dsimp only
    split
    · exact .of_sound sound
    next e inside =>
      have pre := inside_spec inside
      exact .of_sound (sound.rename (a := a) false (by grind)
        ((sound.entries e).steady (.inr pre)) nofun)
  | iunlock a =>
    unfold System.step System.iunlock
    dsimp only
    split
    next e pre =>
      have here := sound.entries e
      have locks : (s.pc a).locks = some e := by rw [pre]; rfl
      rw [if_pos ⟨(here.locks a).mp locks, here.refs.pos (Pc.entry_of_locks locks)⟩]
      exact .of_sound (sound.releasesleep (.inl ⟨pre, rfl⟩))
    next => exact .of_sound sound
  | iput a => exact .of_sound (sound.iput a)
  | go a => exact sound.go a

theorem Sound.next {event : Event} (ran : s.step event = .ok t) : t.Sound := by
  obtain ⟨u, ran', kept⟩ | ⟨panic, failed, -⟩ := sound.kept event
  · rw [ran] at ran'
    cases ran'
    exact kept
  · rw [ran] at failed
    cases failed

end

/-! ## Every interleaving -/

theorem run_kept (image : Image) (events : List Event) : Kept (run step (init image) events) :=
  run_outcome (fun _ event sound _ => Sound.kept sound event) (init_sound image)
    (Meets.of_forall (fun _ _ => trivial) _ events)

/-- What the holders of references can rely on. -/
structure Safe (s : System) : Prop where
  /-- The number of references of an entry is that of its holders. -/
  refs : ∀ e, Counts (fun a => (s.pc a).entry = some e) (s.itable e).ref
  /-- Who has locked an inode sees the generation of its own reference, and what is on the disk. -/
  loads : ∀ a e, s.pc a = .fresh e ∨ s.pc a = .locked e ∨ s.pc a = .dirty e →
    (s.holders a).born = s.generation (s.itable e).inum ∧
    (s.itable e).loaded = s.generation (s.itable e).inum ∧
    (s.pc a ≠ .dirty e → (s.itable e).inode = s.disk (s.itable e).inum)
  /-- An `ilock` that has the sleep-lock succeeds, with what is on the disk for its generation. -/
  ilocks : ∀ a e new, s.pc a = .loading e new → ∃ t, s.step (.go a) = .ok t ∧
    t.pc a = (if new then .fresh e else .locked e) ∧ t.disk = s.disk ∧
    (s.holders a).born = s.generation (s.itable e).inum ∧
    (t.itable e).loaded = s.generation (s.itable e).inum ∧
    (t.itable e).inode = s.disk (s.itable e).inum
  /-- An `iput` truncates and frees the generation of its own reference, of which it is the only
  holder. -/
  frees : ∀ a e, s.pc a = .truncate e ∨ s.pc a = .clear e →
    (s.holders a).born = s.generation (s.itable e).inum ∧ ∀ b, (s.pc b).entry = some e → b = a
  /-- After it has freed the inode it writes to no inode. -/
  leaves : ∀ a e, s.pc a = .invalidate e ∨ s.pc a = .unlock e ∨ s.pc a = .drop e →
    ∃ t, s.step (.go a) = .ok t ∧ t.disk = s.disk ∧ ∀ e', (t.itable e').inode = (s.itable e').inode

theorem Sound.loads (sound : s.Sound)
    (inside : s.pc a = .fresh e ∨ s.pc a = .locked e ∨ s.pc a = .dirty e) :
    (s.holders a).born = s.generation (s.itable e).inum ∧
      (s.itable e).loaded = s.generation (s.itable e).inum ∧
      (s.pc a ≠ .dirty e → (s.itable e).inode = s.disk (s.itable e).inum) := by
  have here := sound.entries e
  have locks : (s.pc a).locks = some e := by grind
  have valid := here.loaded a (by grind)
  have lockPc := lockPc_of_some ((here.locks a).mp locks)
  have pos := here.refs.pos (Pc.entry_of_locks locks)
  obtain ⟨loaded, -⟩ := here.valid pos valid (by grind)
  refine ⟨(here.current a (by grind)).2, loaded, fun clean => ?_⟩
  exact (here.clean locks valid (by grind) clean).2

/-- The last step of `ilock` changes only the entry and its holder. -/
theorem load_frame {new : Bool} (ran : s.load a e new = .ok t) :
    t.pc a = (if new then .fresh e else .locked e) ∧ t.disk = s.disk ∧
      t.generation = s.generation ∧ (t.itable e).inum = (s.itable e).inum ∧
      (t.holders a).born = (s.holders a).born := by
  unfold System.load at ran
  dsimp only at ran
  split at ran
  · cases ran
    simp [System.pc, setPc]
  · split at ran
    · cases ran
    · cases ran
      simp [System.pc, setPc, setEntry]

theorem Sound.safe (sound : s.Sound) : s.Safe where
  refs := fun e => (sound.entries e).refs
  loads := fun a e inside => sound.loads inside
  ilocks := by
    intro a e new pre
    obtain ⟨t, ran, sound'⟩ := sound.load pre
    obtain ⟨now, disk, generation, inum, born⟩ := load_frame ran
    obtain ⟨current, loaded, copy⟩ := sound'.loads (a := a) (e := e) (by grind)
    rw [inum, generation] at loaded
    rw [inum, generation, born] at current
    refine ⟨t, ?_, now, disk, current, loaded, ?_⟩
    · simpa only [System.step, System.go, pre] using ran
    · rw [copy (by grind), inum, disk]
  frees := by
    intro a e freeing
    have here := sound.entries e
    exact ⟨(here.current a (by grind)).2, (here.freeing a freeing).2⟩
  leaves := by
    intro a e leaving
    unfold System.step System.go
    dsimp only
    rcases leaving with pre | pre | pre
    · rw [pre]
      exact ⟨_, rfl, rfl, by grind⟩
    · rw [pre]
      exact ⟨_, rfl, rfl, by grind⟩
    · rw [pre]
      exact ⟨_, rfl, rfl, by grind [System.dropRef]⟩

/-- Whatever the interleaving, freeing an inode and allocating it again do not get in each other's
way. -/
theorem reallocation_is_safe (image : Image) (events : List Event) :
    (∃ s, run step (init image) events = .ok s ∧ s.Safe) ∨
      ∃ panic, run step (init image) events = .error panic ∧ panic.Exhausted := by
  obtain ⟨s, ran, sound⟩ | failed := run_kept image events
  · exact .inl ⟨s, ran, sound.safe⟩
  · exact .inr failed

/-- A process frees an inode, and before its `iput` is done another one allocates the inode, finds
the old entry and locks it. -/
def overlapping : List Event :=
  [.create 0 .file, .go 0, .go 0, .go 0, .go 0, .setup 0 0 0, .go 0, .setNlink 0 0, .go 0,
    .iunlock 0, .iput 0, .go 0, .go 0, .go 0, .create 1 .dir, .go 1, .go 1, .go 0, .go 0, .go 1,
    .go 0, .go 1]

theorem reallocation_is_safe_overlapping :
    ∃ s, run step (init ⟨3, fun _ => .zero, fun _ => false, nofun, by simp [Dinode.zero]⟩)
        overlapping = .ok s ∧ s.Safe ∧ s.pc 0 = .idle ∧ s.pc 1 = .fresh 0 ∧ s.generation 1 = 2 ∧
      (s.itable 0).loaded = 2 ∧ (s.itable 0).inode.type = .dir ∧ (s.itable 0).ref = 1 := by
  have seen : (run step (init ⟨3, fun _ => .zero, fun _ => false, nofun, by simp [Dinode.zero]⟩)
      overlapping).map (fun s => (s.pc 0, s.pc 1, s.generation 1, (s.itable 0).loaded,
        (s.itable 0).inode.type, (s.itable 0).ref)) = .ok (.idle, .fresh 0, 2, 2, .dir, 1) := by
    decide
  obtain ⟨s, ran, safe⟩ | ⟨panic, failed, -⟩ := reallocation_is_safe _ overlapping
  · rw [ran] at seen
    exact ⟨s, ran, safe, by simpa using Except.ok.inj seen⟩
  · rw [failed] at seen
    cases seen

/-- The table caches the disk: an inode has one entry, whose sleep-lock keeps others out of it,
and whose copy is that of the disk while no one has it locked.  A name leads to an inode that is
allocated and has links. -/
structure Coherent (s : System) : Prop where
  unique : ∀ e e', 0 < (s.itable e).ref → 0 < (s.itable e').ref →
    (s.itable e).inum = (s.itable e').inum → e = e'
  locks : ∀ a e, (s.pc a).locks = some e ↔ (s.itable e).lock = some a
  copies : ∀ e, 0 < (s.itable e).ref → (s.itable e).valid = true → (s.itable e).lock = none →
    (s.itable e).inode = s.disk (s.itable e).inum ∧ (s.itable e).inode.type ≠ .free
  names : ∀ inum, s.named inum = true → (s.disk inum).type ≠ .free ∧ (s.disk inum).nlink ≠ 0

/-- Whatever the interleaving of lookups, allocations, links and the last `iput`. -/
theorem table_coherent (image : Image) (events : List Event) :
    (∃ s, run step (init image) events = .ok s ∧ s.Coherent) ∨
      ∃ panic, run step (init image) events = .error panic ∧ panic.Exhausted := by
  obtain ⟨s, ran, sound⟩ | failed := run_kept image events
  · refine .inl ⟨s, ran, sound.unique, fun a e => (sound.entries e).locks a, ?_, sound.named⟩
    intro e used valid free
    have nobody : s.lockPc e = none := by rw [lockPc, free]; rfl
    have here := sound.entries e
    have copy := (here.valid used valid (nobody ▸ nofun)).2 (nobody ▸ nofun)
    exact ⟨copy, copy ▸ here.ready used valid (nobody ▸ nofun)⟩
  · exact .inr failed

end System

end Xv6Rv32im.Itable
