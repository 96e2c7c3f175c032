import Xv6Rv32im.Itable.Generations

/-!
# References are made

`ialloc` begins a new generation of a free inode; `iget` and `idup` make references to inodes in
use.
-/

namespace Xv6Rv32im.Itable

open Fs Library.Count Function List

namespace System

variable {s t : System} {a b e inum : Nat} {type : FileType} {entry : Entry} {pc' : Pc}

/-! ## `ialloc` -/

theorem Sound.scan (sound : s.Sound) (outside : (s.pc a).entry = none) (allocates : type ≠ .free)
    (inum : Nat) : (s.setPc a (.scan inum type)).Sound := by
  obtain ⟨entries, bounded, unique, allocated, scanning, named⟩ := sound
  constructor
  · intro e
    refine (entries e).frame rfl ?_ (fun b _ => born_setPc s a b _) fun _ => ⟨rfl, rfl, rfl⟩
    grind
  · exact bounded
  · exact unique
  · intro b i is
    have other : b ≠ a := by grind
    rw [pc_setPc, if_neg other] at is
    obtain ⟨typed, born, unnamed, dead, sole⟩ := allocated b i is
    grind
  · grind
  · exact named

@[grind =] theorem pc_mark (b : Nat) :
    (s.mark a inum type).pc b = if b = a then .allocated inum else s.pc b := by
  unfold System.pc mark
  dsimp only
  rw [update_apply]
  split <;> rfl

@[grind =] theorem itable_mark (e : Nat) : (s.mark a inum type).itable e = s.itable e := rfl
@[grind =] theorem named_mark (i : Nat) : (s.mark a inum type).named i = s.named i := rfl

@[grind =] theorem disk_mark (i : Nat) : (s.mark a inum type).disk i =
      if i = inum then { Dinode.zero with type := type } else s.disk i :=
  update_apply ..

@[grind =] theorem generation_mark (i : Nat) : (s.mark a inum type).generation i =
      if i = inum then s.generation inum + 1 else s.generation i :=
  update_apply ..

@[grind =] theorem born_mark (b : Nat) : ((s.mark a inum type).holders b).born =
      if b = a then s.generation inum + 1 else (s.holders b).born := by
  unfold mark
  dsimp only
  rw [update_apply]
  split <;> rfl

/-- The entry of a free inode is that of an `iput` that has freed it, and is not valid any more. -/
theorem At.mark (here : s.At e) (outside : (s.pc a).entry = none)
    (free : (s.disk inum).type = .free) (same : (s.itable e).inum = inum) :
    (s.mark a inum type).At e := by
  have dead : ∀ b, (s.pc b).live ≠ some e := by
    intro b alive
    refine (here.current b alive).1 ?_
    rw [same, free]
  have sameEntry : ∀ b, ((s.mark a inum type).pc b).entry = (s.pc b).entry := by
    intro b
    rw [pc_mark]
    split
    next mine => rw [mine, outside]; rfl
    next => rfl
  have sameLock := here.lockPc_eq (a := a) (t := s.mark a inum type)
    (fun locks => by rw [Pc.entry_of_locks locks] at outside; cases outside)
    (fun b other => by rw [pc_mark, if_neg other]) rfl
  obtain ⟨refs, locks, current, valid, ready, loaded, typed, cached, freeing, leaving⟩ := here
  have invalid : 0 < (s.itable e).ref → (s.itable e).valid = true →
      s.lockPc e = some (.invalidate e) := by
    intro pos isValid
    by_contra notInvalid
    exact ready pos isValid notInvalid (by rw [same, free])
  constructor
  case refs => exact refs.congr fun b => by rw [sameEntry]
  case valid | ready =>
    intro pos isValid notInvalid
    rw [sameLock] at notInvalid
    exact absurd (invalid pos isValid) notInvalid
  all_goals grind

theorem Sound.mark (sound : s.Sound) (pre : s.pc a = .scan inum type)
    (free : (s.disk inum).type = .free) : (s.mark a inum type).Sound := by
  have outside : (s.pc a).entry = none := by rw [pre]; rfl
  have allocates := sound.scanning a inum type pre
  have unnamed : s.named inum = false := by
    by_contra isNamed
    exact (sound.named inum (by simpa using isNamed)).1 free
  have dead : ∀ b e, (s.pc b).live = some e → (s.itable e).inum ≠ inum := by
    intro b e alive same
    refine ((sound.entries e).current b alive).1 ?_
    rw [same, free]
  constructor
  · intro e
    by_cases same : (s.itable e).inum = inum
    · exact (sound.entries e).mark outside free same
    refine (sound.entries e).frame rfl ?_ ?_ fun _ => ⟨?_, rfl, ?_⟩
    · intro b inside
      rw [pc_mark] at inside ⊢
      grind
    · grind
    · rw [disk_mark, if_neg same]
    · rw [generation_mark, if_neg same]
  · exact sound.bounded
  · exact sound.unique
  · intro b i is
    by_cases mine : b = a
    · have allocated := sound.allocated
      grind
    · rw [pc_mark, if_neg mine] at is
      obtain ⟨typed, born, unnamed', dead', sole⟩ := sound.allocated b i is
      refine ⟨by grind, by grind, unnamed', fun c e alive => dead' c e ?_, by grind⟩
      grind
  · have scanning := sound.scanning
    grind
  · have named := sound.named
    grind

/-! ## `iget` -/

structure Refers (s t : System) (a e inum : Nat) (pc' : Pc) : Prop where
  outside : (s.pc a).entry = none
  inside : pc' = .newborn e ∨ pc' = .held e
  pcs : ∀ b, t.pc b = if b = a then pc' else s.pc b
  born : ∀ b, b ≠ a → (t.holders b).born = (s.holders b).born
  mine : (t.holders a).born = s.generation inum
  itable : ∀ e', e' ≠ e → t.itable e' = s.itable e'
  disk : t.disk = s.disk
  named : t.named = s.named
  generation : t.generation = s.generation
  inUse : (s.disk inum).type ≠ .free
  steady : ∀ b, s.pc b ≠ .truncate e ∧ s.pc b ≠ .clear e ∧
    (pc' = .newborn e ∨ s.pc b ≠ .invalidate e ∧ s.pc b ≠ .unlock e)
  fresh : ∀ b i, b ≠ a → s.pc b = .allocated i → i ≠ inum

theorem At.refer (here : s.At e) (refers : Refers s t a e inum pc')
    (same : (s.itable e).inum = inum)
    (entry : t.itable e = { s.itable e with ref := (s.itable e).ref + 1 })
    (pos : 0 < (s.itable e).ref) : t.At e := by
  obtain ⟨outside, inside, pcs, born, mine, itable, disk, named, generation, inUse, steady, -⟩ :=
    refers
  have sameLock := here.lockPc_eq
    (fun locks => by rw [Pc.entry_of_locks locks] at outside; cases outside)
    (fun b other => by rw [pcs, if_neg other]) (by rw [entry])
  have inum' : (t.itable e).inum = inum := by rw [entry, same]
  have valid' := here.still_valid (fun _ => pos) (by rw [entry]) (by rw [entry])
    (by rw [entry]) (by rw [entry]) disk generation (.inl sameLock)
  have refs := here.refs
  cases here
  constructor
  · rw [entry]
    exact refs.add (by rw [outside]; nofun) (by grind)
  all_goals grind

theorem At.recycle (here : s.At e) (refers : Refers s t a e inum pc')
    (entry : t.itable e = { s.itable e with inum := inum, ref := 1, valid := false })
    (unused : (s.itable e).ref = 0) : t.At e := by
  obtain ⟨outside, inside, pcs, born, mine, itable, disk, named, generation, inUse, steady, -⟩ :=
    refers
  have refs := here.refs
  rw [unused] at refs
  have nobody : ∀ b, (s.pc b).entry ≠ some e := refs.nobody
  have free := here.unlocked fun b locks => nobody b (Pc.entry_of_locks locks)
  clear here
  constructor
  · rw [entry]
    exact refs.add (nobody a) (by grind)
  all_goals grind

/-- What `iget` makes of an entry for an inode. -/
def Counted (s : System) (e inum : Nat) (entry : Entry) : Prop :=
  entry = { s.itable e with ref := (s.itable e).ref + 1 } ∧ (s.itable e).inum = inum ∧
      0 < (s.itable e).ref ∨
    entry = { s.itable e with inum := inum, ref := 1, valid := false } ∧ (s.itable e).ref = 0 ∧
      ∀ e', 0 < (s.itable e').ref → (s.itable e').inum ≠ inum

theorem Counted.inum_eq (counted : s.Counted e inum entry) : entry.inum = inum := by
  rcases counted with ⟨rfl, same, -⟩ | ⟨rfl, -⟩
  · exact same
  · rfl

section

variable (sound : s.Sound)

include sound

/-- A new reference to an inode in use keeps everything else. -/
theorem Sound.refer (refers : Refers s t a e inum pc') (bound : e < NINODE)
    (entry : s.Counted e inum (t.itable e)) : t.Sound := by
  have pcs := refers.pcs
  have itable := refers.itable
  have inum' := entry.inum_eq
  unfold Counted at entry
  have others : ∀ b, (∃ i, t.pc b = .allocated i) ∨ (∃ i type, t.pc b = .scan i type) →
      b ≠ a ∧ t.pc b = s.pc b := by
    have inside := refers.inside
    grind
  constructor
  · intro e'
    by_cases here : e' = e
    · subst here
      rcases entry with ⟨found, same, pos⟩ | ⟨recycled, unused, -⟩
      · exact (sound.entries e').refer refers same found pos
      · exact (sound.entries e').recycle refers recycled unused
    refine (sound.entries e').frame (itable e' here) ?_ ?_ fun _ => ?_
    · have outside := refers.outside
      have inside := refers.inside
      grind
    · have outside := refers.outside
      have born := refers.born
      grind
    · rw [refers.disk, refers.named, refers.generation]
      exact ⟨rfl, rfl, rfl⟩
  · intro e' pos'
    by_cases here : e' = e
    · exact here ▸ bound
    · rw [itable e' here] at pos'
      exact sound.bounded e' pos'
  · have unique := sound.unique
    grind
  · intro b i is
    obtain ⟨other, same⟩ := others b (.inl ⟨i, is⟩)
    rw [same] at is
    obtain ⟨typed, born, unnamed, dead, sole⟩ := sound.allocated b i is
    refine ⟨by rw [refers.disk]; exact typed, by rw [refers.born b other, refers.generation, born],
      by rw [refers.named, unnamed], ?_, ?_⟩
    · intro c e' alive
      rw [pcs] at alive
      have fresh := refers.fresh b i other is
      have inside := refers.inside
      have pos := (sound.entries e').refs.pos (a := c)
      grind
    · grind
  · have scanning := sound.scanning
    grind
  · rw [refers.named, refers.disk]
    exact sound.named

/-- `iget` finds the entry of the inode or takes an unused one, or there is none. -/
theorem Sound.iget_spec (inum : Nat) :
    (∃ e entry, s.iget inum = .ok (e, s.setEntry e entry) ∧ e < NINODE ∧
      s.Counted e inum entry) ∨ s.iget inum = .error .igetNoInodes := by
  unfold System.iget
  split
  next e found =>
    have bound := mem_range.mp (mem_of_find?_eq_some found)
    obtain ⟨pos, same⟩ : 0 < (s.itable e).ref ∧ (s.itable e).inum = inum := by
      simpa using List.find?_some found
    exact .inl ⟨e, _, rfl, bound, .inl ⟨rfl, same, pos⟩⟩
  next absent =>
    split
    · exact .inr rfl
    next e found =>
      have bound := mem_range.mp (mem_of_find?_eq_some found)
      have unused : (s.itable e).ref = 0 := by simpa using List.find?_some found
      refine .inl ⟨e, _, rfl, bound, .inr ⟨rfl, unused, fun e' pos same => ?_⟩⟩
      have missing := List.find?_eq_none.mp absent e' (mem_range.mpr (sound.bounded e' pos))
      simp [pos, same] at missing

theorem Sound.adopts (pre : s.pc a = .allocated inum) (counted : s.Counted e inum entry) :
    Refers s ((s.setEntry e entry).setPc a (.newborn e)) a e inum (.newborn e) := by
  obtain ⟨inUse, born, unnamed, dead, sole⟩ := sound.allocated a inum pre
  have same : (s.itable e).inum = inum ∨ (s.itable e).ref = 0 := by
    rcases counted with ⟨-, same, -⟩ | ⟨-, unused, -⟩
    · exact .inl same
    · exact .inr unused
  constructor
  · rw [pre]; rfl
  · exact .inl rfl
  iterate 4 · grind
  iterate 3 · rfl
  · exact inUse
  · intro b
    have alive := dead b e
    have entries := (sound.entries e).refs.pos (a := b)
    grind
  · grind

theorem Sound.looksUp (idle : s.pc a = .idle) (isNamed : s.named inum = true)
    (counted : s.Counted e inum entry) :
    Refers s { s.setEntry e entry with
      holders := update s.holders a ⟨.held e, s.generation inum⟩ } a e inum (.held e) := by
  have inUse := (sound.named inum isNamed).1
  have freeing := (sound.entries e).freeing
  have leaving := (sound.entries e).leaving
  have pos := fun b => (sound.entries e).refs.pos (a := b)
  have allocated := sound.allocated
  have same : (s.itable e).inum = inum ∨ (s.itable e).ref = 0 := by
    rcases counted with ⟨-, same, -⟩ | ⟨-, unused, -⟩
    · exact .inl same
    · exact .inr unused
  constructor
  · rw [idle]; rfl
  · exact .inr rfl
  iterate 4 · grind [System.pc, setEntry, update]
  iterate 3 · rfl
  · exact inUse
  · intro b
    grind
  · grind

end

/-- A holder that may pass on its reference: nobody is freeing the inode. -/
theorem At.steady (here : s.At e)
    (usable : s.pc a = .held e ∨ s.pc a = .locked e ∨ s.pc a = .dirty e) (b : Nat) :
    s.pc b ≠ .truncate e ∧ s.pc b ≠ .clear e ∧ s.pc b ≠ .invalidate e ∧ s.pc b ≠ .unlock e := by
  have entry : (s.pc a).entry = some e := by grind
  have freeing := here.freeing b
  have leaving := here.leaving b
  grind

theorem Sound.dups (sound : s.Sound) (idle : s.pc b = .idle)
    (usable : s.pc a = .held e ∨ s.pc a = .locked e ∨ s.pc a = .dirty e) :
    Refers s { s.setEntry e { s.itable e with ref := (s.itable e).ref + 1 } with
      holders := update s.holders b ⟨.held e, (s.holders a).born⟩ } b e
        (s.itable e).inum (.held e) ∧ 0 < (s.itable e).ref := by
  have here := sound.entries e
  have live : (s.pc a).live = some e := by grind
  have pos := here.refs.pos (Pc.entry_of_live live)
  obtain ⟨inUse, born⟩ := here.current a live
  refine ⟨?_, pos⟩
  constructor
  · rw [idle]; rfl
  · exact .inr rfl
  iterate 4 · grind [System.pc, setEntry, update]
  iterate 3 · rfl
  · exact inUse
  · intro c
    have steady := here.steady usable c
    exact ⟨steady.1, steady.2.1, .inr steady.2.2⟩
  · intro c i _ is
    exact ((sound.allocated c i is).2.2.2.1 a e live).symm

end System

end Xv6Rv32im.Itable
