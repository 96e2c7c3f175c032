import Xv6Rv32im.Itable.Reallocation

/-!
# Unlinked inodes without a holder

An allocated inode without links has a holder of its generation, whose `iput` will free it, unless
a last reference is dropped while an `iput` that has freed the generation before still has its own
to drop: the count of references then hides that it is the last.
-/

namespace Xv6Rv32im.Itable

open Fs Library.Count Library.Run Function

theorem Pc.live_of_entry {pc : Pc} {e : Nat} (entry : pc.entry = some e)
    (notInvalidate : pc ≠ .invalidate e) (notUnlock : pc ≠ .unlock e) (notDrop : pc ≠ .drop e) :
    pc.live = some e := by
  cases pc <;> grind

def Event.holder : Event → Nat
  | .create a _ | .lookup a _ | .dup _ a | .ilock a | .setup a _ _ | .modify a _ _ _ _
  | .setNlink a _ | .name a | .unname a | .iunlock a | .iput a | .go a => a

namespace System

variable {s t : System} {a b e inum : Nat}

/-- A holder that takes care of an inode: it has just allocated it, or has a reference to its
current generation. -/
def Attends (s : System) (a inum : Nat) : Prop :=
  s.pc a = .allocated inum ∨ ∃ e, (s.pc a).live = some e ∧ (s.itable e).inum = inum

structure Attended (s : System) : Prop extends Sound s where
  unloaded : ∀ a e, s.pc a = .held e ∨ s.pc a = .put e ∨ s.pc a = .loading e false →
    (s.itable e).valid = false → (s.disk (s.itable e).inum).nlink ≠ 0
  attended : ∀ inum, (s.disk inum).type ≠ .free → (s.disk inum).nlink = 0 → ∃ a, s.Attends a inum

/-- No `iput` drops a reference while another one of the entry has freed its inode and not yet
dropped its own. -/
def Prompt (s : System) : Event → Prop
  | .go a => ∀ e, s.pc a = .put e → ∀ b, s.pc b ≠ .drop e
  | _ => True

section

variable (attended : s.Attended)

include attended

/-- One holder of an entry moves on, and attends to the inode if it did before. -/
theorem Attended.move (a e : Nat) (sound : t.Sound) (holds : (s.pc a).entry = some e)
    (pcs : ∀ b, b ≠ a → t.pc b = s.pc b) (itable : ∀ e', e' ≠ e → t.itable e' = s.itable e')
    (inum : (t.itable e).inum = (s.itable e).inum)
    (disk : ∀ i, i ≠ (s.itable e).inum → t.disk i = s.disk i)
    (live : (s.pc a).live = some e → (t.pc a).live = some e ∨
      (t.disk (s.itable e).inum).type = .free ∨ (t.disk (s.itable e).inum).nlink ≠ 0 ∨
      ∃ b, b ≠ a ∧ (s.pc b).live = some e)
    (written : t.disk (s.itable e).inum = s.disk (s.itable e).inum ∨ (s.pc a).live = some e)
    (others : ∀ b, b ≠ a → s.pc b = .held e ∨ s.pc b = .put e ∨ s.pc b = .loading e false →
      (t.itable e).valid = false → (t.disk (s.itable e).inum).nlink ≠ 0)
    (mine : t.pc a = .held e ∨ t.pc a = .put e ∨ t.pc a = .loading e false →
      (t.itable e).valid = false → (t.disk (s.itable e).inum).nlink ≠ 0)
    (elsewhere : (t.pc a).entry = some e ∨ t.pc a = .idle) : t.Attended := by
  have pos := (attended.entries e).refs.pos holds
  have inums : ∀ e', (t.itable e').inum = (s.itable e').inum := by
    intro e'
    by_cases same : e' = e
    · rw [same, inum]
    · rw [itable e' same]
  refine ⟨sound, ?_, ?_⟩
  · intro b e' is unloaded
    rw [inums]
    by_cases same : e' = e
    · subst same
      by_cases mine' : b = a
      · subst mine'
        exact mine is unloaded
      · rw [pcs b mine'] at is
        exact others b mine' is unloaded
    have other : b ≠ a := by
      rintro rfl
      grind
    rw [pcs b other] at is
    rw [itable e' same] at unloaded
    have pos' := (attended.entries e').refs.pos (a := b) (by grind)
    have ne : (s.itable e').inum ≠ (s.itable e).inum :=
      fun equal => same (attended.unique e' e pos' pos equal)
    rw [disk _ ne]
    exact attended.unloaded b e' is unloaded
  · have carry : ∀ b i, b ≠ a → s.Attends b i → t.Attends b i := by
      intro b i other attends
      unfold Attends
      rw [pcs b other]
      exact attends.imp_right fun ⟨e', alive, same⟩ => ⟨e', alive, (inums e').trans same⟩
    have own : ∀ i, s.Attends a i → i = (s.itable e).inum ∧ (s.pc a).live = some e := by
      rintro i (allocated | ⟨e', alive, same⟩)
      · grind
      obtain rfl := Option.some.inj ((Pc.entry_of_live alive).symm.trans holds)
      exact ⟨same.symm, alive⟩
    intro i inUse unlinked
    by_cases here : i = (s.itable e).inum ∧ (s.pc a).live = some e
    · obtain ⟨rfl, alive⟩ := here
      rcases live alive with still | gone | linked | ⟨b, other, alive'⟩
      · exact ⟨a, .inr ⟨e, still, inum⟩⟩
      · exact absurd gone inUse
      · exact absurd unlinked linked
      · exact ⟨b, carry b _ other (.inr ⟨e, alive', rfl⟩)⟩
    have unchanged : t.disk i = s.disk i := by
      by_cases same : i = (s.itable e).inum
      · rw [same]
        exact written.resolve_right fun alive => here ⟨same, alive⟩
      · exact disk i same
    rw [unchanged] at inUse unlinked
    obtain ⟨b, attends⟩ := attended.attended i inUse unlinked
    refine ⟨b, carry b i ?_ attends⟩
    rintro rfl
    exact here (own i attends)

/-- A step that changes neither inodes nor entries, of a holder that attends to none. -/
theorem Attended.outside (sound : t.Sound) (pre : (s.pc a).entry = none)
    (notAllocated : ∀ i, s.pc a ≠ .allocated i) (after : (t.pc a).entry = none)
    (pcs : ∀ b, b ≠ a → t.pc b = s.pc b) (itable : t.itable = s.itable) (disk : t.disk = s.disk) :
    t.Attended := by
  refine ⟨sound, ?_, ?_⟩
  · intro b e is
    have other : b ≠ a := by
      rintro rfl
      grind
    rw [pcs b other] at is
    rw [itable, disk]
    exact attended.unloaded b e is
  · intro i
    rw [disk]
    intro inUse unlinked
    obtain ⟨b, attends⟩ := attended.attended i inUse unlinked
    have other : b ≠ a := by grind [Attends]
    refine ⟨b, ?_⟩
    unfold Attends
    rw [pcs b other, itable]
    exact attends

variable {pc' : Pc}

theorem Attended.refer (sound : t.Sound) (refers : Refers s t a e inum pc')
    (counted : s.Counted e inum (t.itable e)) (own : ∀ i, s.pc a = .allocated i → i = inum)
    (loaded : pc' = .held e → (t.itable e).valid = false → (s.disk inum).nlink ≠ 0) :
    t.Attended := by
  have pcs := refers.pcs
  have inum' := counted.inum_eq
  unfold Counted at counted
  have kept : ∀ b e', (s.pc b).entry = some e' → b ≠ a ∧ (t.itable e').inum = (s.itable e').inum ∧
      (t.itable e').valid = (s.itable e').valid := by
    intro b e' holds
    have pos := (attended.entries e').refs.pos holds
    have outside := refers.outside
    have itable := refers.itable e'
    refine ⟨by grind, ?_, ?_⟩ <;> grind
  refine ⟨sound, ?_, ?_⟩
  · intro b e' is unloaded
    rw [refers.disk]
    by_cases mine : b = a
    · subst mine
      rw [pcs, if_pos rfl] at is
      have inside := refers.inside
      obtain ⟨rfl, rfl⟩ : pc' = .held e ∧ e' = e := by grind
      rw [inum']
      exact loaded rfl unloaded
    · rw [pcs, if_neg mine] at is
      obtain ⟨-, same, valid⟩ := kept b e' (by grind)
      rw [same]
      rw [valid] at unloaded
      exact attended.unloaded b e' is unloaded
  · intro i
    rw [refers.disk]
    intro inUse unlinked
    obtain ⟨b, attends⟩ := attended.attended i inUse unlinked
    by_cases mine : b = a
    · subst mine
      refine ⟨b, .inr ⟨e, ?_, ?_⟩⟩
      · rw [pcs, if_pos rfl]
        rcases refers.inside with rfl | rfl <;> rfl
      · rcases attends with allocated | ⟨e', alive, -⟩
        · rw [inum', own i allocated]
        · exact absurd rfl (kept b e' (Pc.entry_of_live alive)).1
    · refine ⟨b, attends.imp (fun allocated => ?_) fun ⟨e', alive, same⟩ => ⟨e', ?_, ?_⟩⟩
      · rw [pcs, if_neg mine, allocated]
      · rw [pcs, if_neg mine, alive]
      · rw [(kept b e' (Pc.entry_of_live alive)).2.1, same]

theorem Attended.mark {type : FileType} (sound : (s.mark a inum type).Sound)
    (pre : s.pc a = .scan inum type) (free : (s.disk inum).type = .free) :
    (s.mark a inum type).Attended := by
  refine ⟨sound, ?_, ?_⟩
  · intro b e is
    rw [pc_mark] at is
    split at is
    · grind
    have alive := (attended.entries e).current b (by grind)
    have ne : (s.itable e).inum ≠ inum := by
      intro same
      exact alive.1 (by rw [same, free])
    intro unloaded
    change ((s.mark a inum type).disk (s.itable e).inum).nlink ≠ 0
    rw [disk_mark, if_neg ne]
    exact attended.unloaded b e is unloaded
  · intro i inUse unlinked
    by_cases same : i = inum
    · exact ⟨a, .inl (by rw [pc_mark, if_pos rfl, same])⟩
    rw [disk_mark, if_neg same] at inUse unlinked
    obtain ⟨b, attends⟩ := attended.attended i inUse unlinked
    have other : b ≠ a := by grind [Attends]
    refine ⟨b, ?_⟩
    unfold Attends
    rw [pc_mark, if_neg other]
    exact attends

/-- The first section of `iput`: another holder attends to the inode, or it has links. -/
theorem Attended.putCheck (sound : t.Sound) (pre : s.pc a = .put e)
    (prompt : ∀ b, s.pc b ≠ .drop e) (ran : s.putCheck a e = .ok t) : t.Attended := by
  have here := attended.entries e
  have entry : (s.pc a).entry = some e := by rw [pre]; rfl
  unfold System.putCheck at ran
  dsimp only at ran
  split at ran
  next last =>
    split at ran
    · cases ran
      refine attended.move a e sound entry (by grind) (by grind) (by grind)
        (fun _ _ => rfl) (by grind) (.inr (by grind)) ?_ (by grind) (.inl (by grind))
      intro b other is
      have unloaded := attended.unloaded b e is
      grind
    · cases ran
  next notLast =>
    cases ran
    refine attended.move a e sound entry (by grind [System.dropRef])
      (by grind [System.dropRef]) (by grind [System.dropRef]) (fun _ _ => rfl) ?_ (.inl rfl) ?_
      (by grind [System.dropRef]) (.inr (by grind [System.dropRef]))
    · intro _
      right
      right
      by_cases one : (s.itable e).ref = 1
      · left
        change (s.disk (s.itable e).inum).nlink ≠ 0
        by_cases valid : (s.itable e).valid = true
        · have lockPc := lockPc_of_none (here.put_unlocked pre one)
          obtain ⟨-, same⟩ := here.valid (by omega) valid (by simp [lockPc])
          rw [← same (by simp [lockPc])]
          exact fun unlinked => notLast ⟨one, valid, unlinked⟩
        · exact attended.unloaded a e (.inr (.inl pre)) (by simpa using valid)
      · right
        have pos := here.refs.pos entry
        obtain ⟨b, other, holds⟩ := here.refs.another (by omega) a
        have notNewborn : s.pc a ≠ .newborn e := by simp [pre]
        have present : ∀ c, s.pc c = .invalidate e ∨ s.pc c = .unlock e → c = a := by
          intro c leaving
          exact (((here.leaving c leaving).2 a entry).resolve_right notNewborn).symm
        exact ⟨b, other, Pc.live_of_entry holds (fun is => other (present b (.inl is)))
          (fun is => other (present b (.inr is))) (prompt b)⟩
    · intro b other is
      have unloaded := attended.unloaded b e is
      have same : ((s.dropRef a e).itable e).valid = (s.itable e).valid := by
        unfold System.dropRef
        rw [itable_setPc, itable_setEntry, if_pos rfl]
      rw [same]
      exact unloaded

theorem Attended.acquire {new : Bool} (sound : t.Sound)
    (pre : s.pc a = if new then .newborn e else .held e) (ran : s.acquire a e new = .ok t) :
    t.Attended := by
  have unloaded := fun b => attended.unloaded b e
  unfold System.acquire at ran
  split at ran
  · cases ran
  split at ran
  · cases ran
    apply attended.move a e sound <;> grind
  · cases ran
    exact attended

theorem Attended.load {new : Bool} (sound : t.Sound) (pre : s.pc a = .loading e new)
    (ran : s.load a e new = .ok t) : t.Attended := by
  have unloaded := fun b => attended.unloaded b e
  unfold System.load at ran
  dsimp only at ran
  split at ran
  · cases ran
    apply attended.move a e sound <;> grind
  split at ran
  · cases ran
  · cases ran
    apply attended.move a e sound <;> grind

/-- A holder that attends to the inode writes its copy to the disk, under its sleep-lock. -/
theorem Attended.write {inode : Dinode}
    (sound : (((s.setEntry e { s.itable e with inode := inode }).iupdate e).setPc a pc').Sound)
    (pre : s.pc a = .dirty e ∧ pc' = .locked e ∨ s.pc a = .truncate e ∧ pc' = .clear e ∨
      s.pc a = .clear e ∧ pc' = .invalidate e ∧ inode.type = .free) :
    (((s.setEntry e { s.itable e with inode := inode }).iupdate e).setPc a pc').Attended := by
  have isLoaded := (attended.entries e).loaded a (by grind)
  unfold System.iupdate at sound ⊢
  have alive : (s.pc a).live = some e := by
    rcases pre with ⟨pre, -⟩ | ⟨pre, -⟩ | ⟨pre, -⟩ <;> rw [pre] <;> rfl
  refine attended.move a e sound (Pc.entry_of_live alive) (by grind) (by grind)
    (by grind) (by grind) ?_ (.inr alive) (by grind) (by grind) (.inl ?_)
  · rcases pre with ⟨-, rfl⟩ | ⟨-, rfl⟩ | ⟨-, rfl, free⟩ <;> grind
  · rcases pre with ⟨-, rfl⟩ | ⟨-, rfl⟩ | ⟨-, rfl, -⟩ <;> grind

/-- The steps of `iput` after the inode is free on the disk, up to `releasesleep`. -/
theorem Attended.leave {entry : Entry} (sound : ((s.setEntry e entry).setPc a pc').Sound)
    (pre : s.pc a = .invalidate e ∧ pc' = .unlock e ∨
      s.pc a = .unlock e ∧ pc' = .drop e ∧ entry.valid = (s.itable e).valid)
    (inum : entry.inum = (s.itable e).inum) : ((s.setEntry e entry).setPc a pc').Attended := by
  have unloaded := fun b => attended.unloaded b e
  have leaving := ((attended.entries e).leaving a (by grind)).2
  rcases pre with ⟨pre, rfl⟩ | ⟨pre, rfl, valid⟩
  · apply attended.move a e sound <;> grind
  · apply attended.move a e sound <;> grind

theorem Attended.dropRef (sound : (s.dropRef a e).Sound) (pre : s.pc a = .drop e) :
    (s.dropRef a e).Attended := by
  have unloaded := fun b => attended.unloaded b e
  unfold System.dropRef at sound ⊢
  exact attended.move a e sound (by grind) (by grind) (by grind) (by grind)
    (fun _ _ => rfl) (fun alive => by rw [pre] at alive; cases alive) (.inl rfl) (by grind)
    (by grind) (.inr (by grind))

/-- The steps of `ialloc`, `ilock`, `iupdate` and `iput`. -/
theorem Attended.go (sound : t.Sound) (prompt : s.Prompt (.go a)) (ran : s.go a = .ok t) :
    t.Attended := by
  unfold System.go at ran
  split at ran
  next inum type pre =>
    unfold System.ialloc at ran
    split at ran
    · split at ran
      next free =>
        cases ran
        exact attended.mark sound pre free
      next =>
        cases ran
        exact attended.outside (a := a) sound (by grind) (by grind) (by grind) (by grind) rfl rfl
    · cases ran
  next inum pre =>
    obtain ⟨e, entry, found, -, counted⟩ | full := attended.iget_spec inum
    · rw [found] at ran
      cases ran
      refine attended.refer sound (attended.adopts pre counted) ?_ (by grind) nofun
      rw [itable_setPc, itable_setEntry, if_pos rfl]
      exact counted
    · rw [full] at ran
      cases ran
  next e pre => exact attended.acquire sound pre ran
  next e new pre => exact attended.load sound pre ran
  next e pre =>
    cases ran
    have unchanged : s.setEntry e { s.itable e with inode := (s.itable e).inode } = s := by
      unfold System.setEntry
      rw [update_eq_self]
    rw [← unchanged] at sound ⊢
    exact attended.write sound (.inl ⟨pre, rfl⟩)
  next e pre => exact attended.putCheck sound pre (prompt e pre) ran
  next e pre =>
    cases ran
    exact attended.write sound (.inr (.inl ⟨pre, rfl⟩))
  next e pre =>
    cases ran
    exact attended.write sound (.inr (.inr ⟨pre, rfl, rfl⟩))
  next e pre =>
    cases ran
    exact attended.leave sound (.inl ⟨pre, rfl⟩) rfl
  next e pre =>
    cases ran
    exact attended.leave sound (.inr ⟨pre, rfl, rfl⟩) rfl
  next e pre =>
    cases ran
    exact attended.dropRef sound pre
  next =>
    cases ran
    exact attended

theorem Attended.setInode {inode : Dinode} (sound : (s.setInode a e inode).Sound)
    (pre : s.pc a = .fresh e ∨ s.pc a = .locked e ∨ s.pc a = .dirty e) :
    (s.setInode a e inode).Attended := by
  have loaded := (attended.entries e).loaded a (by grind)
  unfold System.setInode at sound ⊢
  apply attended.move a e sound <;> grind

theorem Attended.rename {named : Nat → Bool} (sound : ({ s with named := named } : System).Sound) :
    ({ s with named := named } : System).Attended :=
  ⟨sound, attended.unloaded, attended.attended⟩

theorem Attended.lookup (sound : t.Sound) (ran : s.lookup a inum = .ok t) : t.Attended := by
  unfold System.lookup at ran
  split at ran
  next possible =>
    obtain ⟨idle, isNamed⟩ := possible
    obtain ⟨e, entry, found, -, counted⟩ | full := attended.iget_spec inum
    · rw [found] at ran
      cases ran
      refine attended.refer sound (attended.looksUp idle isNamed counted) ?_ (by grind) ?_
      · rw [itable_setEntry, if_pos rfl]
        exact counted
      · exact fun _ _ => (attended.named inum isNamed).2
    · rw [full] at ran
      cases ran
  next =>
    cases ran
    exact attended

theorem Attended.idup (sound : (s.idup a b).Sound) : (s.idup a b).Attended := by
  unfold System.idup at sound ⊢
  split
  · exact attended
  next e usable =>
    split
    next idle =>
      simp only [usable, idle, if_true] at sound
      have usable' := usable_spec usable
      obtain ⟨refers, pos⟩ := attended.dups idle usable'
      refine attended.refer sound refers (.inl ⟨?_, rfl, pos⟩) (by grind) ?_
      · rw [itable_setEntry, if_pos rfl]
      intro _ unloaded
      rw [itable_setEntry, if_pos rfl] at unloaded
      have loaded := (attended.entries e).loaded a
      have linked := attended.unloaded a e
      grind
    next => exact attended

theorem Attended.step {event : Event} (prompt : s.Prompt event) (ran : s.step event = .ok t) :
    t.Attended := by
  have sound := attended.next ran
  have stays (same : (.ok s : Except Panic System) = .ok t) : t.Attended := by
    cases same
    exact attended
  cases event with
  | create a type =>
    unfold System.step System.create at ran
    dsimp only at ran
    split at ran
    next possible =>
      cases ran
      exact attended.outside (a := a) sound (by grind) (by grind) (by grind) (by grind) rfl rfl
    next => exact stays ran
  | lookup a inum => exact attended.lookup sound ran
  | dup a b =>
    cases ran
    exact attended.idup sound
  | ilock a =>
    unfold System.step System.ilock at ran
    dsimp only at ran
    split at ran
    next e pre => exact attended.acquire sound pre ran
    next => exact stays ran
  | setup a major minor =>
    unfold System.step System.setup at ran
    dsimp only at ran
    split at ran
    next e pre =>
      cases ran
      exact attended.setInode sound (.inl pre)
    next => exact stays ran
  | modify a major minor size addrs =>
    unfold System.step System.modify at ran
    dsimp only at ran
    split at ran
    · exact stays ran
    next e inside =>
      cases ran
      exact attended.setInode sound (.inr (inside_spec inside))
  | setNlink a nlink =>
    unfold System.step System.setNlink at ran
    dsimp only at ran
    split at ran
    · exact stays ran
    next e inside =>
      split at ran
      · exact stays ran
      · cases ran
        exact attended.setInode sound (.inr (inside_spec inside))
  | name a =>
    unfold System.step System.name at ran
    dsimp only at ran
    split at ran
    · exact stays ran
    split at ran
    · exact stays ran
    · cases ran
      exact attended.rename sound
  | unname a =>
    unfold System.step System.unname at ran
    dsimp only at ran
    split at ran
    · exact stays ran
    · cases ran
      exact attended.rename sound
  | iunlock a =>
    unfold System.step System.iunlock at ran
    dsimp only at ran
    split at ran
    next e pre =>
      have loaded := (attended.entries e).loaded a (by grind)
      split at ran
      · cases ran
        apply attended.move a e sound <;> grind
      · cases ran
    next => exact stays ran
  | iput a =>
    unfold System.step System.iput at ran
    dsimp only at ran
    split at ran
    next e pre =>
      have unloaded := fun b => attended.unloaded b e
      cases ran
      apply attended.move a e sound <;> grind
    next => exact stays ran
  | go a => exact attended.go sound prompt ran

end

/-! ## Every interleaving -/

theorem init_attended (image : Image) : (init image).Attended where
  toSound := init_sound image
  unloaded := by
    intro a e is
    rcases is with is | is | is <;> cases is
  attended := fun inum inUse unlinked => absurd unlinked (image.linked inum inUse)

/-- An allocated inode to which no entry refers, and which is not just being allocated, has
links. -/
def Reclaimed (s : System) : Prop :=
  ∀ inum, (∀ a, s.pc a ≠ .allocated inum) → (∀ e, 0 < (s.itable e).ref → (s.itable e).inum ≠ inum) →
    (s.disk inum).type ≠ .free → (s.disk inum).nlink ≠ 0

theorem Attended.reclaimed (attended : s.Attended) : s.Reclaimed := by
  intro inum notAllocated unreferenced inUse unlinked
  obtain ⟨a, allocated | ⟨e, alive, same⟩⟩ := attended.attended inum inUse unlinked
  · exact notAllocated a allocated
  · exact unreferenced e ((attended.entries e).refs.pos (Pc.entry_of_live alive)) same

/-- If no `iput` drops a reference in the window of another one, an unlinked inode is freed by its
last reference. -/
theorem freed_by_last_reference {image : Image} (events : List Event)
    (prompt : Meets step Prompt (init image) events)
    (ran : run step (init image) events = .ok s) : s.Reclaimed := by
  have kept (s : System) event t (attended : s.Attended)
      (prompt : s.Prompt event) (ran : s.step event = .ok t) : t.Attended :=
    attended.step prompt ran
  exact (run_invariant kept (init_attended image) prompt ran).reclaimed

def lonely (s : System) : Event → Bool
  | .go a =>
    match s.pc a with
    | .put e => (s.itable e).ref = 1
    | _ => true
  | _ => true

theorem prompt_of_lonely (sound : s.Sound) (event : Event) (alone : s.lonely event = true) :
    s.Prompt event := by
  cases event with
  | go a =>
    intro e pre b dropping
    have one : (s.itable e).ref = 1 := by simpa [lonely, pre] using alone
    obtain rfl := (sound.entries e).sole one (by rw [dropping]; rfl) (by rw [pre]; rfl)
    rw [pre] at dropping
    cases dropping
  | _ => trivial

def emptyImage : Image where
  ninodes := 2
  disk := fun _ => .zero
  named := fun _ => false
  inUse := nofun
  linked := fun _ inUse => absurd rfl inUse

def makeAndUnlink (a : Nat) : List Event :=
  [.create a .file, .go a, .go a, .go a, .go a, .setup a 0 0, .go a, .setNlink a 0, .go a,
    .iunlock a, .iput a, .go a]

def freed : List Event := makeAndUnlink 0 ++ List.replicate 5 (.go 0)

theorem freed_by_last_reference_freed :
    ∃ s, run step (init emptyImage) freed = .ok s ∧ s.generation 1 = 1 ∧
      (s.disk 1).type = .free ∧ s.Reclaimed := by
  have observed : (run step (init emptyImage) freed).map (fun s => decide (s.generation 1 = 1 ∧
      (s.disk 1).type = .free)) = .ok true := by decide +kernel
  obtain ⟨s, ran, seen⟩ := of_map_eq_ok observed
  obtain ⟨once, free⟩ := of_decide_eq_true seen
  have alone : Meets step (fun s event => s.lonely event = true) (init emptyImage) freed := by
    decide +kernel
  have prompt : Meets step Prompt (init emptyImage) freed := by
    have kept (s : System) event t (sound : s.Sound)
        (_ : s.lonely event = true) (ran : s.step event = .ok t) : t.Sound := sound.next ran
    exact alone.of_invariant kept (fun s event sound => prompt_of_lonely sound event)
      (init_sound emptyImage)
  exact ⟨s, ran, once, free, freed_by_last_reference freed prompt ran⟩

/-! ## The window of `iput` -/

theorem iget_pc {found : Nat} (ran : s.iget inum = .ok (found, t)) (b : Nat) : t.pc b = s.pc b := by
  unfold System.iget at ran
  split at ran
  · cases ran
    rfl
  split at ran
  · cases ran
  · cases ran
    rfl

theorem go_pc (ran : s.go a = .ok t) (other : b ≠ a) : t.pc b = s.pc b := by
  unfold System.go at ran
  split at ran
  case h_2 inum pre =>
    cases found : s.iget inum with
    | error panic =>
      rw [found] at ran
      cases ran
    | ok result =>
      rw [found] at ran
      cases ran
      rw [pc_setPc, if_neg other, iget_pc found]
  all_goals grind [System.ialloc, System.acquire, System.load, System.putCheck, System.dropRef,
    System.itrunc, System.iupdate]

theorem step_pc {event : Event} (ran : s.step event = .ok t) (other : b ≠ event.holder) :
    t.pc b = s.pc b := by
  cases event with
  | lookup a inum =>
    change b ≠ a at other
    unfold System.step System.lookup at ran
    dsimp only at ran
    split at ran
    · cases found : s.iget inum with
      | error panic =>
        rw [found] at ran
        cases ran
      | ok result =>
        rw [found] at ran
        cases ran
        rw [← iget_pc found b]
        unfold System.pc
        dsimp only
        rw [update_of_ne other]
    · cases ran
      rfl
  | dup a c =>
    change b ≠ c at other
    cases ran
    unfold System.idup
    split
    · rfl
    split
    · unfold System.pc
      dsimp only
      rw [update_of_ne other]
      rfl
    · rfl
  | name a =>
    cases ran
    unfold System.name
    split
    · rfl
    · split <;> rfl
  | unname a =>
    cases ran
    unfold System.unname
    split <;> rfl
  | go a => exact go_pc ran other
  | _ => grind [System.step, Event.holder, System.create, System.ilock, System.acquire,
      System.setup, System.modify, System.setNlink, System.setInode, System.iunlock, System.iput]

/-- Holder 0 frees inode 1, and is preempted before it drops its reference.  Holder 1 makes and
unlinks a file that gets the same inode through the same entry. -/
def preempted : List Event :=
  makeAndUnlink 0 ++ List.replicate 4 (.go 0) ++ makeAndUnlink 1 ++ [.go 0]

theorem preempted_leaves_orphan :
    ∃ s, run step (init emptyImage) preempted = .ok s ∧ (∀ a, s.pc a = .idle) ∧
      (s.itable 0).inum = 1 ∧ (∀ e, (s.itable e).ref = 0) ∧ (s.disk 1).type = .file ∧
      (s.disk 1).nlink = 0 ∧ ¬s.Reclaimed := by
  have observed : (run step (init emptyImage) preempted).map (fun s => decide (s.pc 0 = .idle ∧
      s.pc 1 = .idle ∧ (s.itable 0).inum = 1 ∧ (s.disk 1).type = .file ∧ (s.disk 1).nlink = 0)) =
        .ok true := by decide +kernel
  obtain ⟨s, ran, seen⟩ := of_map_eq_ok observed
  obtain ⟨first, second, entry, inUse, unlinked⟩ := of_decide_eq_true seen
  have two : Meets step (fun _ event => event.holder < 2) (init emptyImage) preempted := by
    decide +kernel
  have kept (s : System) event t (before : s.Sound ∧ ∀ b, 2 ≤ b → s.pc b = .idle)
      (small : event.holder < 2) (ran : s.step event = .ok t) :
      t.Sound ∧ ∀ b, 2 ≤ b → t.pc b = .idle := by
    refine ⟨before.1.next ran, fun b large => ?_⟩
    rw [step_pc ran (by omega)]
    exact before.2 b large
  obtain ⟨sound, others⟩ :=
    run_invariant kept ⟨init_sound emptyImage, fun _ _ => rfl⟩ two ran
  have idle (a : Nat) : s.pc a = .idle := by
    rcases a with _ | _ | a
    · exact first
    · exact second
    · exact others _ (by omega)
  have unreferenced (e : Nat) : (s.itable e).ref = 0 := by
    by_contra positive
    obtain ⟨a, holds⟩ := (sound.entries e).refs.exists (Nat.pos_of_ne_zero positive)
    rw [idle] at holds
    cases holds
  refine ⟨s, ran, idle, entry, unreferenced, inUse, unlinked, fun reclaimed => ?_⟩
  refine reclaimed 1 (fun a => ?_) (fun e positive => ?_) ?_ unlinked
  · rw [idle]
    nofun
  · rw [unreferenced] at positive
    cases positive
  · rw [inUse]
    nofun

end System

end Xv6Rv32im.Itable
