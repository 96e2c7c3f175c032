import Xv6Rv32im.Itable.Model
import Xv6Rv32im.Library.Count
import Xv6Rv32im.Library.Update

/-!
# Generations of inodes

A holder of a reference belongs to the generation of the inode in which it got it.  An `iput` that
frees an inode is the only holder of it; once the inode is free on the disk, its number may be
allocated again, but the `iput` writes nothing more to the disk.
-/

namespace Xv6Rv32im.Itable

open Fs Library Library.Count Library.Run Function Pc Option

@[grind] def Pc.entry : Pc → Option Nat
  | .idle | .scan _ _ | .allocated _ => none
  | .newborn e | .loading e _ | .fresh e | .held e | .locked e | .dirty e | .put e | .truncate e
  | .clear e | .invalidate e | .unlock e | .drop e => some e

/-- The entry of a holder whose inode is still allocated. -/
@[grind] def Pc.live : Pc → Option Nat
  | .newborn e | .loading e _ | .fresh e | .held e | .locked e | .dirty e | .put e | .truncate e
  | .clear e => some e
  | _ => none

@[grind] def Pc.locks : Pc → Option Nat
  | .loading e _ | .fresh e | .locked e | .dirty e | .truncate e | .clear e | .invalidate e
  | .unlock e => some e
  | _ => none

@[grind] def Pc.loaded : Pc → Option Nat
  | .fresh e | .locked e | .dirty e | .truncate e | .clear e => some e
  | _ => none

@[grind →] theorem Pc.entry_of_live {pc : Pc} {e : Nat} (live : pc.live = some e) :
    pc.entry = some e := by
  cases pc <;> first | exact live | cases live

@[grind →] theorem Pc.entry_of_locks {pc : Pc} {e : Nat} (locks : pc.locks = some e) :
    pc.entry = some e := by
  cases pc <;> first | exact locks | cases locks

@[grind →] theorem Pc.locks_of_loaded {pc : Pc} {e : Nat} (loaded : pc.loaded = some e) :
    pc.locks = some e := by
  cases pc <;> first | exact loaded | cases loaded

namespace System

variable {s t : System} {a b e inum : Nat}

def lockPc (s : System) (e : Nat) : Option Pc := (s.itable e).lock.map s.pc

structure At (s : System) (e : Nat) : Prop where
  refs : Counts (fun a => (s.pc a).entry = some e) (s.itable e).ref
  locks : ∀ a, (s.pc a).locks = some e ↔ (s.itable e).lock = some a
  current : ∀ a, (s.pc a).live = some e → (s.disk (s.itable e).inum).type ≠ .free ∧
    (s.holders a).born = s.generation (s.itable e).inum
  valid : 0 < (s.itable e).ref → (s.itable e).valid = true → s.lockPc e ≠ some (.invalidate e) →
    (s.itable e).loaded = s.generation (s.itable e).inum ∧
    (s.lockPc e ≠ some (.dirty e) → (s.itable e).inode = s.disk (s.itable e).inum)
  ready : 0 < (s.itable e).ref → (s.itable e).valid = true → s.lockPc e ≠ some (.invalidate e) →
    (s.disk (s.itable e).inum).type ≠ .free
  loaded : ∀ a, (s.pc a).loaded = some e → (s.itable e).valid = true
  typed : ∀ a, s.pc a = .dirty e → (s.itable e).inode.type ≠ .free
  cached : 0 < (s.itable e).ref → (s.itable e).valid = true →
    s.named (s.itable e).inum = true → (s.itable e).inode.nlink ≠ 0
  freeing : ∀ a, s.pc a = .truncate e ∨ s.pc a = .clear e →
    s.named (s.itable e).inum = false ∧ ∀ b, (s.pc b).entry = some e → b = a
  leaving : ∀ a, s.pc a = .invalidate e ∨ s.pc a = .unlock e →
    s.named (s.itable e).inum = false ∧ ∀ b, (s.pc b).entry = some e → b = a ∨ s.pc b = .newborn e

structure Sound (s : System) : Prop where
  entries : ∀ e, s.At e
  bounded : ∀ e, 0 < (s.itable e).ref → e < NINODE
  unique : ∀ e e', 0 < (s.itable e).ref → 0 < (s.itable e').ref →
    (s.itable e).inum = (s.itable e').inum → e = e'
  allocated : ∀ a inum, s.pc a = .allocated inum → (s.disk inum).type ≠ .free ∧
    (s.holders a).born = s.generation inum ∧ s.named inum = false ∧
    (∀ b e, (s.pc b).live = some e → (s.itable e).inum ≠ inum) ∧
    ∀ b, s.pc b = .allocated inum → b = a
  scanning : ∀ a inum type, s.pc a = .scan inum type → type ≠ .free
  named : ∀ inum, s.named inum = true → (s.disk inum).type ≠ .free ∧ (s.disk inum).nlink ≠ 0

theorem init_sound (image : Image) : (init image).Sound where
  entries := fun e =>
    { refs := counts_zero nofun
      locks := fun _ => ⟨nofun, nofun⟩
      current := nofun
      valid := fun pos => absurd pos (lt_irrefl 0)
      ready := fun pos => absurd pos (lt_irrefl 0)
      loaded := nofun
      typed := nofun
      cached := fun pos => absurd pos (lt_irrefl 0)
      freeing := fun _ pc => by rcases pc with pc | pc <;> cases pc
      leaving := fun _ pc => by rcases pc with pc | pc <;> cases pc }
  bounded := fun _ pos => absurd pos (lt_irrefl 0)
  unique := fun _ _ pos => absurd pos (lt_irrefl 0)
  allocated := nofun
  scanning := nofun
  named := fun inum named => ⟨image.inUse inum named, image.linked inum (image.inUse inum named)⟩

@[grind =] theorem pc_setPc (s : System) (a b : Nat) (pc : Pc) :
    (s.setPc a pc).pc b = if b = a then pc else s.pc b := by
  unfold System.pc setPc
  dsimp only
  rw [update_apply]
  split <;> rfl

@[grind =] theorem born_setPc (s : System) (a b : Nat) (pc : Pc) :
    ((s.setPc a pc).holders b).born = (s.holders b).born := by
  refine apply_update_eq Holder.born ?_ b
  rfl

@[grind =] theorem itable_setEntry (s : System) (e e' : Nat) (entry : Entry) :
    (s.setEntry e entry).itable e' = if e' = e then entry else s.itable e' := by
  unfold setEntry
  dsimp only
  rw [update_apply]

@[grind =] theorem disk_setDisk (s : System) (inum inum' : Nat) (dinode : Dinode) :
    (s.setDisk inum dinode).disk inum' = if inum' = inum then dinode else s.disk inum' := by
  unfold setDisk
  dsimp only
  rw [update_apply]

section

variable (s : System) (a b e e' inum inum' : Nat) (pc : Pc) (entry : Entry) (dinode : Dinode)

@[grind =] theorem itable_setPc : (s.setPc a pc).itable e = s.itable e := rfl
@[grind =] theorem disk_setPc : (s.setPc a pc).disk inum = s.disk inum := rfl
@[grind =] theorem named_setPc : (s.setPc a pc).named inum = s.named inum := rfl
@[grind =] theorem generation_setPc : (s.setPc a pc).generation inum = s.generation inum := rfl
@[grind =] theorem pc_setEntry : (s.setEntry e entry).pc b = s.pc b := rfl
@[grind =] theorem holders_setEntry : (s.setEntry e entry).holders b = s.holders b := rfl
@[grind =] theorem disk_setEntry : (s.setEntry e entry).disk inum = s.disk inum := rfl
@[grind =] theorem named_setEntry : (s.setEntry e entry).named inum = s.named inum := rfl
@[grind =] theorem generation_setEntry :
    (s.setEntry e entry).generation inum = s.generation inum := rfl
@[grind =] theorem pc_setDisk : (s.setDisk inum dinode).pc b = s.pc b := rfl
@[grind =] theorem holders_setDisk : (s.setDisk inum dinode).holders b = s.holders b := rfl
@[grind =] theorem itable_setDisk : (s.setDisk inum dinode).itable e = s.itable e := rfl
@[grind =] theorem named_setDisk : (s.setDisk inum dinode).named inum' = s.named inum' := rfl
@[grind =] theorem generation_setDisk :
    (s.setDisk inum dinode).generation inum' = s.generation inum' := rfl

end

/-! ## What a step leaves alone -/

/-- An entry does not change if neither it, nor its inode, nor its holders do. -/
theorem At.frame (here : s.At e) (entry : t.itable e = s.itable e)
    (pcs : ∀ b, (s.pc b).entry = some e ∨ (t.pc b).entry = some e → t.pc b = s.pc b)
    (born : ∀ b, (s.pc b).entry = some e → (t.holders b).born = (s.holders b).born)
    (inode : 0 < (s.itable e).ref → t.disk (s.itable e).inum = s.disk (s.itable e).inum ∧
      t.named (s.itable e).inum = s.named (s.itable e).inum ∧
      t.generation (s.itable e).inum = s.generation (s.itable e).inum) : t.At e := by
  have pos : ∀ b, (s.pc b).entry = some e → 0 < (s.itable e).ref :=
    fun b holds => here.refs.pos holds
  have same : t.lockPc e = s.lockPc e := by
    unfold lockPc
    rw [entry]
    cases holder : (s.itable e).lock with
    | none => rfl
    | some a =>
      have locks := (here.locks a).mpr holder
      exact congrArg some (pcs a (.inl (entry_of_locks locks)))
  have refs := here.refs
  cases here
  constructor
  · rw [entry]
    exact refs.congr (by grind)
  all_goals
    rw [entry]
    try rw [same]
    grind

/-- Holder `a` moves, and only entry `e` and its inode change. -/
structure Touches (s t : System) (a e : Nat) : Prop where
  holds : (t.pc a).entry = some e ∨ t.pc a = .idle
  pcs : ∀ b, b ≠ a → t.pc b = s.pc b
  born : ∀ b, (t.holders b).born = (s.holders b).born
  itable : ∀ e', e' ≠ e → t.itable e' = s.itable e'
  inum : (t.itable e).inum = (s.itable e).inum
  named : t.named = s.named
  generation : t.generation = s.generation
  disk : ∀ i, i ≠ (s.itable e).inum → t.disk i = s.disk i

theorem touches_setPc {entry : Entry} {pc' : Pc} (inum : entry.inum = (s.itable e).inum)
    (holds : pc'.entry = some e ∨ pc' = .idle) :
    s.Touches ((s.setEntry e entry).setPc a pc') a e := by
  constructor <;> grind

/-- Only one entry and its inode change, by a step of one of its holders. -/
theorem Sound.step (sound : s.Sound) (here : t.At e) (holds : (s.pc a).entry = some e)
    (live : (t.pc a).live = some e → (s.pc a).live = some e)
    (owner : (s.pc a).live = some e ∨ t.disk (s.itable e).inum = s.disk (s.itable e).inum)
    (linked : s.named (s.itable e).inum = true →
      (t.disk (s.itable e).inum).type ≠ .free ∧ (t.disk (s.itable e).inum).nlink ≠ 0)
    (touches : s.Touches t a e) : t.Sound := by
  obtain ⟨holds', pcs, born, itable, inum, named, generation, disk⟩ := touches
  have pos : 0 < (s.itable e).ref := (sound.entries e).refs.pos holds
  have inums : ∀ e', (t.itable e').inum = (s.itable e').inum := by
    intro e'
    by_cases same : e' = e
    · rw [same, inum]
    · rw [itable e' same]
  have positives : ∀ e', 0 < (t.itable e').ref → 0 < (s.itable e').ref := by
    intro e' pos'
    by_cases same : e' = e
    · rw [same]
      exact pos
    · rwa [itable e' same] at pos'
  have others : ∀ b, (t.pc b).entry = none → t.pc b ≠ .idle → b ≠ a := by
    rintro b outside busy rfl
    rcases holds' with inside | idle
    · rw [outside] at inside
      cases inside
    · exact busy idle
  constructor
  · intro e'
    by_cases same : e' = e
    · exact same ▸ here
    refine (sound.entries e').frame (itable e' same) ?_ (fun b _ => born b) fun pos' => ?_
    · intro b inside
      refine pcs b ?_
      rintro rfl
      rcases inside with inside | inside
      · rw [holds] at inside
        exact same (some.inj inside).symm
      rcases holds' with still | idle
      · rw [still] at inside
        exact same (some.inj inside).symm
      · rw [idle] at inside
        cases inside
    · have ne : (s.itable e').inum ≠ (s.itable e).inum :=
        fun equal => same (sound.unique e' e pos' pos equal)
      exact ⟨disk _ ne, by rw [named], by rw [generation]⟩
  · exact fun e' pos' => sound.bounded e' (positives e' pos')
  · intro e₁ e₂ first second same
    rw [inums, inums] at same
    exact sound.unique e₁ e₂ (positives e₁ first) (positives e₂ second) same
  · intro b inum' is
    have other : b ≠ a := others b (by rw [is]; rfl) (by rw [is]; nofun)
    rw [pcs b other] at is
    obtain ⟨typed, born', unnamed, dead, sole⟩ := sound.allocated b inum' is
    grind
  · have scanning := sound.scanning
    grind
  · have linked' := sound.named
    grind

/-! ## Steps of the holder of a reference -/

theorem Sound.positive (sound : s.Sound) (holds : (s.pc a).entry = some e) :
    0 < (s.itable e).ref := (sound.entries e).refs.pos holds

@[grind →] theorem lockPc_of_some (lock : (s.itable e).lock = some a) :
    s.lockPc e = some (s.pc a) := by
  unfold lockPc
  rw [lock]
  rfl

@[grind →] theorem lockPc_of_none (lock : (s.itable e).lock = none) : s.lockPc e = none := by
  unfold lockPc
  rw [lock]
  rfl

theorem Sound.acquire {new : Bool} (sound : s.Sound)
    (pre : s.pc a = .held e ∨ s.pc a = .newborn e) :
    ∃ t, s.acquire a e new = .ok t ∧ t.Sound := by
  have holds : (s.pc a).entry = some e := by grind
  have pos := sound.positive holds
  have linked := sound.named (s.itable e).inum
  unfold System.acquire
  rw [if_neg (by omega)]
  split
  next free =>
    refine ⟨_, rfl, sound.step ?_ holds (by grind) (.inr rfl) linked
      (touches_setPc rfl (.inl rfl))⟩
    have here := sound.entries e
    have refs := here.refs
    cases here
    constructor
    · rw [itable_setPc, itable_setEntry, if_pos rfl]
      exact refs.congr (by grind)
    all_goals grind
  next => exact ⟨s, rfl, sound⟩

theorem At.inside {pc' : Pc} (here : s.At e) (locks : (s.pc a).locks = some e)
    (locks' : pc'.locks = some e) (pcs : ∀ b, t.pc b = if b = a then pc' else s.pc b)
    (born : ∀ b, (t.holders b).born = (s.holders b).born) (named : t.named = s.named)
    (generation : t.generation = s.generation) (inum : (t.itable e).inum = (s.itable e).inum)
    (ref : (t.itable e).ref = (s.itable e).ref) (lock : (t.itable e).lock = (s.itable e).lock)
    (others : ∀ b, b ≠ a → (s.pc b).live = some e → (t.disk (s.itable e).inum).type ≠ .free)
    (mine : pc'.live = some e → (s.pc a).live = some e ∧ (t.disk (s.itable e).inum).type ≠ .free)
    (valid : (t.itable e).valid = true → pc' ≠ .invalidate e →
      (t.itable e).loaded = s.generation (s.itable e).inum ∧
      (pc' ≠ .dirty e → (t.itable e).inode = t.disk (s.itable e).inum))
    (ready : (t.itable e).valid = true → pc' ≠ .invalidate e →
      (t.disk (s.itable e).inum).type ≠ .free)
    (loaded : pc'.loaded = some e → (t.itable e).valid = true)
    (typed : pc' = .dirty e → (t.itable e).inode.type ≠ .free)
    (cached : (t.itable e).valid = true → s.named (s.itable e).inum = true →
      (t.itable e).inode.nlink ≠ 0)
    (freeing : pc' = .truncate e ∨ pc' = .clear e → s.pc a = .truncate e ∨ s.pc a = .clear e)
    (leaving : pc' = .invalidate e ∨ pc' = .unlock e →
      s.pc a = .clear e ∨ s.pc a = .invalidate e) : t.At e := by
  have held : (s.itable e).lock = some a := (here.locks a).mp locks
  have lockPc : t.lockPc e = some pc' := by
    rw [lockPc_of_some (lock.trans held), pcs, if_pos rfl]
  have alone : ∀ b, (s.pc b).locks = some e → b = a := fun b locks =>
    some.inj (((here.locks b).mp locks).symm.trans held)
  have entry := entry_of_locks locks
  have entry' := entry_of_locks locks'
  have sameEntry : ∀ b, (t.pc b).entry = some e ↔ (s.pc b).entry = some e := by
    intro b
    rw [pcs]
    split
    next same => rw [same, entry, entry']
    next => rfl
  obtain ⟨refs, locked, current, -, -, loaded', typed', -, freeing', leaving'⟩ := here
  constructor
  case refs =>
    rw [ref]
    exact refs.congr sameEntry
  case valid =>
    intro _ ready notInvalid
    rw [lockPc] at notInvalid ⊢
    rw [inum, generation]
    obtain ⟨first, second⟩ := valid ready fun same => notInvalid (by rw [same])
    exact ⟨first, fun clean => second fun same => clean (by rw [same])⟩
  -- no other holder has the lock
  all_goals grind

/-- While the lock's holder has the entry valid and is not about to invalidate it, it is that of the
current generation. -/
theorem At.clean (here : s.At e) (locks : (s.pc a).locks = some e)
    (valid : (s.itable e).valid = true) (notInvalid : s.pc a ≠ .invalidate e)
    (notDirty : s.pc a ≠ .dirty e) :
    (s.itable e).loaded = s.generation (s.itable e).inum ∧
      (s.itable e).inode = s.disk (s.itable e).inum := by
  have lockPc := lockPc_of_some ((here.locks a).mp locks)
  have pos := here.refs.pos (entry_of_locks locks)
  obtain ⟨first, second⟩ := here.valid pos valid (by rw [lockPc]; simpa using notInvalid)
  exact ⟨first, second (by rw [lockPc]; simpa using notDirty)⟩

section

variable (sound : s.Sound)

include sound

theorem Sound.load {new : Bool} (pre : s.pc a = .loading e new) :
    ∃ t, s.load a e new = .ok t ∧ t.Sound := by
  have here := sound.entries e
  have locks : (s.pc a).locks = some e := by rw [pre]; rfl
  have live : (s.pc a).live = some e := by rw [pre]; rfl
  have inUse := (here.current a live).1
  have linked := sound.named (s.itable e).inum
  have pos := here.refs.pos (entry_of_locks locks)
  have after : ∀ pc', pc' = (if new then fresh e else locked e) →
      pc'.locks = some e ∧ pc'.live = some e := by
    rintro pc' rfl
    cases new <;> exact ⟨rfl, rfl⟩
  unfold System.load
  dsimp only
  split
  next ready =>
    refine ⟨_, rfl, sound.step ?_ (entry_of_live live) (fun _ => live)
      (.inr rfl) linked (by constructor <;> grind)⟩
    obtain ⟨first, second⟩ := here.clean locks ready (by simp [pre]) (by simp [pre])
    exact here.inside locks (after _ rfl).1 (pc_setPc s a · _) (born_setPc s a · _) rfl rfl rfl rfl
      rfl (fun _ _ _ => inUse) (fun _ => ⟨live, inUse⟩) (fun _ _ => ⟨first, fun _ => second⟩)
      (fun _ _ => inUse) (fun _ => ready) (by grind) (here.cached pos) (by grind) (by grind)
  next stale =>
    refine ⟨_, rfl, sound.step ?_ (entry_of_live live) (fun _ => live)
      (.inr rfl) linked (touches_setPc rfl (by grind))⟩
    exact here.inside locks (after _ rfl).1 (pc_setPc _ a · _) (born_setPc _ a · _) rfl rfl
      (by grind) (by grind) (by grind) (fun _ _ _ => inUse) (fun _ => ⟨live, inUse⟩)
      (by grind) (fun _ _ => inUse) (by grind) (by grind) (by grind) (by grind) (by grind)

theorem Sound.setInode {inode : Dinode}
    (pre : s.pc a = .fresh e ∨ s.pc a = .locked e ∨ s.pc a = .dirty e)
    (type : inode.type = (s.itable e).inode.type)
    (nlink : s.named (s.itable e).inum = true → inode.nlink ≠ 0) :
    (s.setInode a e inode).Sound := by
  have here := sound.entries e
  have locks : (s.pc a).locks = some e := by grind
  have live : (s.pc a).live = some e := by grind
  have inUse := (here.current a live).1
  have valid := here.loaded a (by grind)
  have linked := sound.named (s.itable e).inum
  have lockPc := lockPc_of_some ((here.locks a).mp locks)
  have pos := here.refs.pos (entry_of_locks locks)
  obtain ⟨loaded, -⟩ := here.valid pos valid (by grind)
  have typed : (s.itable e).inode.type ≠ .free := by
    by_cases dirty : s.pc a = .dirty e
    · exact here.typed a dirty
    · rw [(here.clean locks valid (by grind) dirty).2]
      exact inUse
  unfold System.setInode
  refine sound.step ?_ (entry_of_live live) (fun _ => live) (.inr rfl) linked
    (touches_setPc rfl (by grind))
  exact here.inside locks rfl (pc_setPc _ a · _) (born_setPc _ a · _) rfl rfl
    (by grind) (by grind) (by grind) (fun _ _ _ => inUse) (fun _ => ⟨live, inUse⟩)
    (by grind) (fun _ _ => inUse) (by grind) (by grind) (by grind) nofun nofun

theorem Sound.iupdate (pre : s.pc a = .dirty e) : ((s.iupdate e).setPc a (.locked e)).Sound := by
  have here := sound.entries e
  have locks : (s.pc a).locks = some e := by rw [pre]; rfl
  have live : (s.pc a).live = some e := by rw [pre]; rfl
  have pos := here.refs.pos (entry_of_locks locks)
  have valid := here.loaded a (by rw [pre]; rfl)
  have typed := here.typed a pre
  have lockPc := lockPc_of_some ((here.locks a).mp locks)
  obtain ⟨loaded, -⟩ := here.valid pos valid (by grind)
  unfold System.iupdate
  refine sound.step ?_ (entry_of_live live) (fun _ => live) (.inl live) ?_
    (by constructor <;> grind)
  · exact here.inside locks rfl (pc_setPc _ a · _) (born_setPc _ a · _) rfl rfl rfl rfl rfl
      (by grind) (by grind) (by grind) (by grind) (fun _ => valid) nofun (here.cached pos) nofun
      nofun
  · intro named
    rw [disk_setPc, disk_setDisk, if_pos rfl]
    exact ⟨typed, here.cached pos valid named⟩

theorem Sound.itrunc (pre : s.pc a = .truncate e) : ((s.itrunc e).setPc a (.clear e)).Sound := by
  have here := sound.entries e
  have locks : (s.pc a).locks = some e := by rw [pre]; rfl
  have live : (s.pc a).live = some e := by rw [pre]; rfl
  have inUse := (here.current a live).1
  have pos := here.refs.pos (entry_of_locks locks)
  have valid := here.loaded a (by rw [pre]; rfl)
  obtain ⟨loaded, same⟩ := here.clean locks valid (by simp [pre]) (by simp [pre])
  obtain ⟨unnamed, sole⟩ := here.freeing a (.inl pre)
  unfold System.itrunc System.iupdate
  refine sound.step ?_ (entry_of_live live) (fun _ => live)
    (.inl live) (by grind) (by constructor <;> grind)
  refine here.inside locks rfl (pc_setPc _ a · _) (born_setPc _ a · _) rfl rfl (by grind)
    (by grind) (by grind) ?_ (by grind) (by grind) (by grind) (by grind) nofun (by grind)
    (fun _ => .inl pre) nofun
  exact fun b other alive => absurd (sole b (entry_of_live alive)) other

theorem Sound.clear (pre : s.pc a = .clear e) : (((s.setEntry e { s.itable e with
      inode := { (s.itable e).inode with type := .free } }).iupdate e).setPc a
        (.invalidate e)).Sound := by
  have here := sound.entries e
  have locks : (s.pc a).locks = some e := by rw [pre]; rfl
  have live : (s.pc a).live = some e := by rw [pre]; rfl
  have pos := here.refs.pos (entry_of_locks locks)
  have valid := here.loaded a (by rw [pre]; rfl)
  obtain ⟨loaded, same⟩ := here.clean locks valid (by simp [pre]) (by simp [pre])
  obtain ⟨unnamed, sole⟩ := here.freeing a (.inr pre)
  unfold System.iupdate
  refine sound.step ?_ (entry_of_live live) (fun _ => live)
    (.inl live) (by grind) (by constructor <;> grind)
  refine here.inside locks rfl (pc_setPc _ a · _) (born_setPc _ a · _) rfl rfl (by grind)
    (by grind) (by grind) ?_ nofun (by grind) (by grind) nofun nofun (by grind) nofun
    (fun _ => .inl pre)
  exact fun b other alive => absurd (sole b (entry_of_live alive)) other

theorem Sound.invalidate (pre : s.pc a = .invalidate e) :
    ((s.setEntry e { s.itable e with valid := false }).setPc a (.unlock e)).Sound := by
  have here := sound.entries e
  have locks : (s.pc a).locks = some e := by rw [pre]; rfl
  have entry := entry_of_locks locks
  have linked := sound.named (s.itable e).inum
  refine sound.step ?_ entry (by grind) (.inr rfl) linked
    (touches_setPc rfl (.inl rfl))
  refine here.inside locks rfl (pc_setPc _ a · _) (born_setPc _ a · _) rfl rfl (by grind)
    (by grind) (by grind) ?_ nofun (by grind) (by grind) nofun nofun (by grind) nofun
    (fun _ => .inr pre)
  exact fun b _ alive => (here.current b alive).1

end

/-- A copy in memory that does not change stays that of the current generation, if a change by the
holder of the lock was written. -/
theorem At.still_valid (here : s.At e) (ref : 0 < (t.itable e).ref → 0 < (s.itable e).ref)
    (valid : (t.itable e).valid = (s.itable e).valid)
    (loaded : (t.itable e).loaded = (s.itable e).loaded)
    (inode : (t.itable e).inode = (s.itable e).inode) (inum : (t.itable e).inum = (s.itable e).inum)
    (disk : t.disk = s.disk) (generation : t.generation = s.generation)
    (holder : t.lockPc e = s.lockPc e ∨
      s.lockPc e ≠ some (.invalidate e) ∧ s.lockPc e ≠ some (.dirty e)) :
    0 < (t.itable e).ref → (t.itable e).valid = true → t.lockPc e ≠ some (.invalidate e) →
      (t.itable e).loaded = t.generation (t.itable e).inum ∧
      (t.lockPc e ≠ some (.dirty e) → (t.itable e).inode = t.disk (t.itable e).inum) := by
  intro pos ready notInvalid
  rw [loaded, inode, inum, disk, generation]
  rw [valid] at ready
  rcases holder with same | ⟨notInvalid', notDirty⟩
  · rw [same] at notInvalid ⊢
    exact here.valid (ref pos) ready notInvalid
  · obtain ⟨first, second⟩ := here.valid (ref pos) ready notInvalid'
    exact ⟨first, fun _ => second notDirty⟩

theorem At.sole (here : s.At e) (one : (s.itable e).ref = 1) (mine : (s.pc a).entry = some e)
    (holds : (s.pc b).entry = some e) : b = a := by
  have counts := here.refs
  rw [one] at counts
  exact counts.sole holds mine

theorem At.unlocked (here : s.At e) (nobody : ∀ b, (s.pc b).locks ≠ some e) :
    (s.itable e).lock = none := by
  cases held : (s.itable e).lock with
  | none => rfl
  | some b => exact absurd ((here.locks b).mpr held) (nobody b)

theorem At.put_unlocked (here : s.At e) (pre : s.pc a = .put e) (one : (s.itable e).ref = 1) :
    (s.itable e).lock = none := by
  refine here.unlocked fun b locks => ?_
  rw [here.sole one (by rw [pre]; rfl) (entry_of_locks locks), pre] at locks
  cases locks

/-- What the holder of the lock does is not changed by another one. -/
theorem At.lockPc_eq (here : s.At e) (unlocked : (s.pc a).locks ≠ some e)
    (pcs : ∀ b, b ≠ a → t.pc b = s.pc b) (lock : (t.itable e).lock = (s.itable e).lock) :
    t.lockPc e = s.lockPc e := by
  unfold lockPc
  rw [lock]
  cases held : (s.itable e).lock with
  | none => rfl
  | some b =>
    have locks := (here.locks b).mpr held
    refine congrArg some (pcs b ?_)
    rintro rfl
    exact unlocked locks

section

variable (sound : s.Sound)

include sound

theorem Sound.releasesleep {pc' : Pc}
    (step : s.pc a = .locked e ∧ pc' = .held e ∨ s.pc a = .unlock e ∧ pc' = .drop e) :
    ((s.setEntry e { s.itable e with lock := none }).setPc a pc').Sound := by
  have here := sound.entries e
  have locks : (s.pc a).locks = some e := by grind
  have held := (here.locks a).mp locks
  have alone : ∀ b, (s.pc b).locks = some e → b = a := fun b locks =>
    some.inj (((here.locks b).mp locks).symm.trans held)
  have entry := entry_of_locks locks
  have linked := sound.named (s.itable e).inum
  have lockPc := lockPc_of_some held
  refine sound.step ?_ entry (by grind) (.inr rfl) linked
    (touches_setPc rfl (by grind))
  have valid' := here.still_valid (t := (s.setEntry e { s.itable e with lock := none }).setPc a pc')
    (by grind) (by grind) (by grind) (by grind) (by grind) rfl rfl (.inr (by grind))
  have refs := here.refs
  cases here
  constructor
  · rw [itable_setPc, itable_setEntry, if_pos rfl]
    exact refs.congr (by grind)
  all_goals grind

theorem Sound.iput (a : Nat) : (s.iput a).Sound := by
  unfold System.iput
  split
  next e pre =>
    have here := sound.entries e
    have entry : (s.pc a).entry = some e := by rw [pre]; rfl
    have linked := sound.named (s.itable e).inum
    refine sound.step ?_ entry (by grind) (.inr rfl) linked
      (by constructor <;> grind)
    have valid' := here.still_valid (t := s.setPc a (.put e)) id rfl rfl rfl rfl rfl rfl
      (.inl (here.lockPc_eq (a := a) (by grind) (by grind) rfl))
    have refs := here.refs
    cases here
    constructor
    · rw [itable_setPc]
      exact refs.congr (by grind)
    all_goals grind
  next => exact sound

theorem Sound.dropRef (pre : s.pc a = .put e ∨ s.pc a = .drop e) : (s.dropRef a e).Sound := by
  have here := sound.entries e
  have entry : (s.pc a).entry = some e := by grind
  have linked := sound.named (s.itable e).inum
  have pos := here.refs.pos entry
  have sameLock := here.lockPc_eq (a := a) (t := s.dropRef a e) (by grind)
    (by grind [System.dropRef]) (by grind [System.dropRef])
  have valid' := here.still_valid (t := s.dropRef a e) (fun _ => pos)
    (by grind [System.dropRef]) (by grind [System.dropRef]) (by grind [System.dropRef])
    (by grind [System.dropRef]) rfl rfl (.inl sameLock)
  unfold System.dropRef at sameLock valid' ⊢
  refine sound.step ?_ entry (by grind) (.inr rfl) linked
    (touches_setPc rfl (.inr rfl))
  have refs := here.refs
  cases here
  constructor
  · rw [itable_setPc, itable_setEntry, if_pos rfl]
    exact refs.remove entry (by grind)
  all_goals grind

theorem Sound.putCheck (pre : s.pc a = .put e) : ∃ t, s.putCheck a e = .ok t ∧ t.Sound := by
  unfold System.putCheck
  dsimp only
  split
  next last =>
    obtain ⟨one, valid, unlinked⟩ := last
    have here := sound.entries e
    have entry : (s.pc a).entry = some e := by rw [pre]; rfl
    have linked := sound.named (s.itable e).inum
    have sole : ∀ b, (s.pc b).entry = some e → b = a := fun b => here.sole one entry
    have free := here.put_unlocked pre one
    rw [if_pos free]
    refine ⟨_, rfl, ?_⟩
    refine sound.step ?_ entry (by grind) (.inr rfl) linked
      (touches_setPc rfl (.inl rfl))
    have lockPc := lockPc_of_none free
    have refs := here.refs
    cases here
    constructor
    · rw [itable_setPc, itable_setEntry, if_pos rfl]
      exact refs.congr (by grind)
    all_goals grind
  next => exact ⟨_, rfl, sound.dropRef (.inl pre)⟩

end

end System

end Xv6Rv32im.Itable
