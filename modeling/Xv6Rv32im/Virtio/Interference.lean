import Xv6Rv32im.Library.Update
import Xv6Rv32im.Virtio.Flights

/-!
# Requests do not interfere

Every step of a process, of the handler and of the device keeps what the requests own and where
their heads are; so no interleaving mixes up two requests.
-/

namespace Xv6Rv32im.Virtio

open Library Library.Ring Library.Run Function List

namespace System

variable {s t : System} {p q b : Nat} {idx : Idx} {call : Call} {write : Bool}

theorem phase_of_call (now : (s.procs p).call = call) : s.phase p = call.phase := by
  unfold phase
  rw [now]

/-- What the holder of the lock knows. -/
structure Critical (s : System) : Prop where
  held : ∀ p, (s.procs p).call.critical = true ↔ s.holder = some (.proc p)
  awake : ∀ p, (s.procs p).call.critical = true → (s.procs p).sleeping = none
  published : ∀ p b idx, (s.procs p).call = .publish b idx →
    (s.bufs b).disk = true ∧ s.availRing (slot NUM s.availIdx) = idx.head
  finished : ∀ p b idx, (s.procs p).call = .finish b idx → (s.bufs b).disk = false

structure Sound (s : System) : Prop where
  owned : s.Owned
  critical : s.Critical
  rings : ∃ available used, s.Rings available used

section

variable (critical : s.Critical)

include critical

theorem Critical.sole (mine : (s.procs p).call.critical = true)
    (other : (s.procs q).call.critical = true) : q = p := by
  have same := ((critical.held q).mp other).symm.trans ((critical.held p).mp mine)
  exact Owner.proc.inj (Option.some.inj same)

theorem Critical.congr (call : ∀ q, (t.procs q).call = (s.procs q).call)
    (awake : ∀ q, (s.procs q).sleeping = none → (t.procs q).sleeping = none)
    (holder : t.holder = s.holder) (bufs : t.bufs = s.bufs)
    (avail : (t.availRing, t.availIdx) = (s.availRing, s.availIdx)) : t.Critical := by
  obtain ⟨held, awake', published, finished⟩ := critical
  obtain ⟨availRing, availIdx⟩ := Prod.mk.inj avail
  constructor <;> simp only [call, holder, bufs, availRing, availIdx]
  · exact held
  · exact fun q critical => awake q (awake' q critical)
  · exact published
  · exact finished

theorem Critical.move (mine : (s.procs p).call.critical = true) (inside : call.critical = true)
    (procs : ∀ q, t.procs q = if q = p then { s.procs p with call := call } else s.procs q)
    (holder : t.holder = s.holder) (published : ∀ b idx, call = .publish b idx →
      (t.bufs b).disk = true ∧ t.availRing (slot NUM t.availIdx) = idx.head)
    (finished : ∀ b idx, call = .finish b idx → (t.bufs b).disk = false) : t.Critical := by
  have sole := fun q => critical.sole (q := q) mine
  obtain ⟨held, awake, -, -⟩ := critical
  constructor <;> simp only [procs, holder]
  all_goals grind

theorem Critical.release (mine : (s.procs p).call.critical = true) (call : Call)
    (outside : call.critical = false)
    (calls : ∀ q, (t.procs q).call = if q = p then call else (s.procs q).call)
    (holder : t.holder = none) : t.Critical := by
  have nobody : ∀ q, (t.procs q).call.critical = false := by
    intro q
    rw [calls]
    split
    · exact outside
    next other =>
      rw [Bool.eq_false_iff]
      exact fun theirs => other (critical.sole mine theirs)
  constructor
  · intro q
    rw [nobody, holder]
    exact ⟨nofun, nofun⟩
  all_goals
    intro q
    have := nobody q
    grind

end

section

variable (sound : s.Sound)

include sound

/-- A step that changes no request and none of its memory. -/
theorem Sound.quiet (phase : ∀ q, t.phase q = s.phase q) (free : ∀ i, t.free i = s.free i)
    (desc : ∀ p b idx, (s.phase p).described = some (b, idx) → ∀ i ∈ idx.list, t.desc i = s.desc i)
    (info : t.info = s.info) (exchanged : t.exchanged = s.exchanged) (bufs : t.bufs = s.bufs)
    (critical : t.Critical) : t.Sound := by
  obtain ⟨available, used, rings⟩ := sound.rings
  refine ⟨?_, critical, available, used, ?_⟩
  · exact sound.owned.congr (by simp [phase]) (by simp [phase]) (by simp [phase]) free desc
      (by simp [info]) (by simp [bufs])
  · exact rings.congr exchanged (flying_congr (by simp [phase]) (by simp [bufs])) (by simp [info])

theorem Sound.replaces {proc : Proc} (holder : Option Owner) (phase : proc.call.phase = s.phase p)
    (critical : { s.setProc p proc with holder := holder }.Critical) :
    { s.setProc p proc with holder := holder }.Sound := by
  refine sound.quiet (fun q => ?_) (fun _ => rfl) (fun _ _ _ _ _ _ => rfl) rfl rfl rfl critical
  change (s.setProc p proc).phase q = _
  rw [phase_setProc]
  split
  next same => rw [same, phase]
  next => rfl

/-! ## Steps that only move a call on -/

theorem Sound.acquire (awake : (s.procs p).sleeping = none) (phase : call.phase = s.phase p)
    (waits : ∃ b, (∃ write, call = .alloc b write) ∨ ∃ idx, call = .wait b idx) :
    (s.acquire p call).Sound := by
  unfold System.acquire
  split
  next free =>
    refine sound.replaces _ phase ?_
    obtain ⟨held, awake', published, finished⟩ := sound.critical
    constructor <;> simp only [procs_setProc]
    all_goals grind [setProc]
  next => exact sound

theorem Sound.sleep {chan : Chan} (critical : (s.procs p).call.critical = true)
    (phase : call.phase = s.phase p) (outside : call.critical = false) :
    (s.sleep p chan call).Sound := by
  unfold System.sleep
  refine sound.replaces _ phase ?_
  refine sound.critical.release critical call outside (fun q => ?_) rfl
  rw [procs_setProc]
  split <;> rfl

theorem Sound.kill (p : Nat) : (s.setProc p { s.procs p with sleeping := none }).Sound := by
  refine sound.replaces s.holder (by rfl) (sound.critical.congr ?_ ?_ rfl rfl rfl)
  · exact apply_update_eq Proc.call rfl
  · intro q awake
    rw [procs_setProc]
    split
    · rfl
    · exact awake

theorem Sound.handler {holder : Option Owner} (pre : s.holder = none ∨ s.holder = some .handler)
    (after : holder = none ∨ holder = some .handler) : { s with holder := holder }.Sound := by
  refine sound.quiet (fun _ => rfl) (fun _ => rfl) (fun _ _ _ _ _ _ => rfl) rfl rfl rfl ?_
  obtain ⟨held, awake', published, finished⟩ := sound.critical
  constructor
  · grind
  · exact awake'
  · exact published
  · exact finished

theorem Sound.leaveLoop (call : (s.procs p).call = .wait b idx) (done : (s.bufs b).disk = false) :
    (s.setCall p (.finish b idx)).Sound := by
  refine sound.replaces s.holder (phase_of_call call).symm ?_
  refine sound.critical.move (by rw [call]; rfl) rfl (procs_setProc s p · _) rfl nofun ?_
  rintro b idx ⟨⟩
  exact done

/-! ## Steps of a request -/

theorem Sound.request (p b : Nat) (blockno : BitVec 32) (write : Bool) :
    (s.request p b blockno write).Sound := by
  unfold System.request
  split
  next possible =>
    obtain ⟨idle, unlocked⟩ := possible
    obtain ⟨available, used, rings⟩ := sound.rings
    have pre : s.phase p = .none := by
      unfold phase
      rw [idle]
      rfl
    refine ⟨?_, ?_, available, used, ?_⟩
    · exact sound.owned.begin pre (fun q => phase_setCall s p q _) rfl rfl rfl unlocked
        (by grind [update])
    · obtain ⟨held, awake', published, finished⟩ := sound.critical
      unfold System.setCall
      constructor <;> simp only [procs_setProc]
      all_goals grind [setProc, update]
    · refine rings.congr rfl (flying_congr ?_ ?_) (fun _ _ => rfl)
      · exact submitted_congr (fun q => phase_setCall s p q _) (by simp [pre])
          (by simp [Call.phase])
      · grind [update]
  next => exact sound

theorem Sound.allocated (call : (s.procs p).call = .alloc b write) (takable : s.Takable idx.list) :
    ((s.taken idx.list).setCall p (.format b write idx)).Sound := by
  obtain ⟨available, used, rings⟩ := sound.rings
  have pre : s.phase p = .waiting b := phase_of_call call
  have after := fun q => phase_setCall (s.taken idx.list) p q (.format b write idx)
  refine ⟨?_, ?_, available, used, ?_⟩
  · exact sound.owned.allocate pre after takable (fun _ => rfl) rfl rfl rfl
  · exact sound.critical.move (by rw [call]; rfl) rfl (procs_setProc _ p · _) rfl nofun nofun
  · refine rings.congr rfl (flying_congr ?_ (fun _ _ _ _ => rfl)) (fun _ _ => rfl)
    exact submitted_congr after (by simp [pre]) nofun

/-- The descriptors did not suffice, and those taken were freed again. -/
theorem Sound.rollback {m : List Nat} (takable : s.Takable m) (freed : Freed (s.taken m) t m)
    (same : ∀ j, t.free j = s.free j) : t.Sound := by
  refine sound.quiet (fun q => ?_) same (fun q b idx described i mem => ?_) freed.info
    freed.exchanged freed.bufs (sound.critical.congr freed.call freed.awake freed.holder freed.bufs
      (congrArg (fun rings => (rings.1, rings.2.1)) freed.exchanged))
  · unfold phase
    rw [freed.call]
    rfl
  · have used := ((sound.owned.chains q idx (Phase.of_described described).2).2 i mem).2
    refine freed.desc i fun taken => ?_
    rw [takable.free i taken] at used
    cases used

end

theorem chained_format (nodup : idx.list.Nodup) (write : Bool) :
    (s.format b write idx).Chained idx ∧
      ((s.format b write idx).desc idx.status).addr = .status idx.head := by
  obtain ⟨head, data, status⟩ := idx
  simp only [Idx.list, nodup_cons, mem_cons, not_mem_nil, or_false, not_or,
    nodup_nil, and_true, not_false_eq_true] at nodup
  obtain ⟨⟨headData, headStatus⟩, dataStatus⟩ := nodup
  refine ⟨⟨?_, ?_, ?_⟩, ?_⟩
  · simp [System.format, headData, headStatus, VRING_DESC_F_NEXT]
  · simp only [System.format, update_of_ne dataStatus, update_self]
    cases write <;> decide
  · simp [System.format, VRING_DESC_F_NEXT, VRING_DESC_F_WRITE]
  · simp [System.format]

section

variable (sound : s.Sound)

include sound

theorem Sound.format (call : (s.procs p).call = .format b write idx) :
    ((s.format b write idx).setCall p (.publish b idx)).Sound := by
  obtain ⟨available, used, rings⟩ := sound.rings
  have pre : s.phase p = .allocated b idx := phase_of_call call
  have chain : (s.phase p).chain = some idx := by rw [pre]; rfl
  have after := fun q => phase_setCall (s.format b write idx) p q (.publish b idx)
  have nodup := (sound.owned.chains p idx chain).1
  obtain ⟨chained, status⟩ := chained_format (s := s) (b := b) nodup write
  obtain ⟨fresh, room⟩ := rings.room sound.owned chain (by simp [pre])
  have alone : ∀ q c idx', s.phase q = .submitted c idx' → c ≠ b := by
    rintro q c idx' phase rfl
    obtain rfl := sound.owned.alone p q c (by rw [pre]; rfl) (by rw [phase]; rfl)
    rw [pre] at phase
    cases phase
  refine ⟨?_, ?_, available, used, ?_⟩
  · refine sound.owned.format pre after rfl ?_ ?_ ?_ (chained.congr fun _ _ => rfl) status ?_
    · exact apply_update_eq Buf.locked rfl
    · intro i outside
      simp only [Idx.list, mem_cons, not_mem_nil, or_false, not_or] at outside
      simp [System.format, setCall, setProc, outside]
    · intro i ne
      exact update_of_ne ne _ _
    · simp [System.format, setCall, setProc]
  · refine sound.critical.move (by rw [call]; rfl) rfl (procs_setProc _ p · _) rfl ?_ (by simp)
    rintro b idx ⟨⟩
    simp [System.format, setCall, setProc]
  · constructor
    · exact rings.avail.store (by decide) room idx.head
    · exact rings.returned
    · exact rings.nodup
    · intro head
      refine (rings.flying head).trans (flying_congr ?_ ?_ head).symm
      · exact submitted_congr after (by simp [pre]) (by simp [Call.phase])
      · intro q c idx' phase
        have ne := alone q c idx' phase
        simp [System.format, setCall, setProc, ne]
    · intro head mem
      have ne : head ≠ idx.head := by
        rintro rfl
        exact fresh (mem_append_right _ mem)
      have same := rings.status head mem
      rwa [show ((s.format b write idx).setCall p (.publish b idx)).info head = s.info head from
        update_of_ne ne _ _]

theorem Sound.publish (call : (s.procs p).call = .publish b idx) :
    ({ s with availIdx := s.availIdx + 1 }.setCall p (.wait b idx)).Sound := by
  obtain ⟨available, used, rings⟩ := sound.rings
  have pre : s.phase p = .formatted b idx := phase_of_call call
  have after := fun q => phase_setCall { s with availIdx := s.availIdx + 1 } p q (.wait b idx)
  obtain ⟨disk, stored⟩ := sound.critical.published p b idx call
  refine ⟨?_, ?_, available ++ [idx.head], used, ?_⟩
  · refine sound.owned.congr ?_ ?_ ?_ (fun _ => rfl) (fun _ _ _ _ _ _ => rfl) (fun _ => rfl)
      (fun _ => rfl)
    all_goals
      intro q
      rw [after]
      split
      next same => rw [same, pre]; rfl
      next => rfl
  · exact sound.critical.move (by rw [call]; rfl) rfl (procs_setProc _ p · _) rfl nofun nofun
  · exact rings.publish sound.owned pre disk stored

/-- The end of `virtio_disk_rw` frees the three descriptors of the request. -/
theorem finish_spec (call : (s.procs p).call = .finish b idx) :
    ∃ t, s.finish p b idx = .ok t ∧ t.Sound ∧
      (∀ i, t.free i = (s.free i || decide (i ∈ idx.list))) ∧
      ∀ c, (t.bufs c).disk = (s.bufs c).disk := by
  obtain ⟨available, used, rings⟩ := sound.rings
  have pre : s.phase p = .submitted b idx := phase_of_call call
  have chain : (s.phase p).chain = some idx := by rw [pre]; rfl
  have done := sound.critical.finished p b idx call
  obtain ⟨nodup, inUse⟩ := sound.owned.chains p idx chain
  have chained := sound.owned.chained p b idx (by rw [pre]; rfl)
  obtain ⟨u, ran, freed⟩ := freeChain_freed 6
    (s := { s with info := update s.info idx.head { s.info idx.head with b := none } })
    (chained.congr fun _ _ => rfl) nodup inUse
  have bufs : u.bufs = s.bufs := freed.bufs
  have calls : ∀ q, (u.procs q).call = (s.procs q).call := freed.call
  have phases : ∀ q, u.phase q = s.phase q := by
    intro q
    unfold phase
    rw [calls]
  have after : ∀ q, System.phase (u.setCall p .idle) q = if q = p then .none else s.phase q := by
    intro q
    rw [← phases q]
    exact phase_setCall u p q _
  have disk : ∀ c, (update u.bufs b { u.bufs b with locked := false } c).disk =
      (s.bufs c).disk := by
    rw [bufs]
    exact apply_update_eq Buf.disk rfl
  refine ⟨{ u.setCall p .idle with
    bufs := update u.bufs b { u.bufs b with locked := false }
    holder := none }, ?_, ⟨?_, ?_, available, used, ?_⟩, freed.free, ?_⟩
  · unfold System.finish
    dsimp only
    rw [show NUM + 1 = 6 + 3 from rfl, ran]
    rfl
  · refine sound.owned.finish pre after freed.free freed.desc ?_ ?_
    · intro i ne
      change u.info i = _
      rw [freed.info]
      exact update_of_ne ne _ _
    · intro c ne
      change (update u.bufs b _ c).locked = _
      rw [update_of_ne ne, bufs]
  · refine sound.critical.release (by rw [call]; rfl) .idle rfl (fun q => ?_) rfl
    change ((u.setProc p _).procs q).call = _
    rw [procs_setProc, ← calls q]
    split <;> rfl
  · refine rings.congr freed.exchanged (flying_finish pre done after disk) ?_
    intro head _
    change (u.info head).status = _
    rw [freed.info]
    refine apply_update_eq Info.status ?_ head
    rfl
  · exact disk

/-! ## The handler and the device -/

theorem Sound.wakeup (chan : Chan) : (s.wakeup chan).Sound := by
  have call := call_wakeup s chan
  refine sound.quiet (fun q => ?_) (fun _ => rfl) (fun _ _ _ _ _ _ => rfl) rfl rfl rfl
    (sound.critical.congr call (awake_wakeup s chan) rfl rfl rfl)
  unfold phase
  rw [call]

/-- The handler finds the request of an entry of the used ring, and clears the flag of its
buffer. -/
theorem handled_spec (holder : s.holder = some .handler) (entry : s.seenIdx ≠ s.usedIdx) :
    ∃ p b idx, s.phase p = .submitted b idx ∧ s.usedRing (slot NUM s.seenIdx) = idx.head ∧
      (s.bufs b).disk = true ∧ s.virtioDiskIntr = .ok ((s.handled b).wakeup (.buf b)) ∧
      ((s.handled b).wakeup (.buf b)).Sound := by
  obtain ⟨available, used, rings⟩ := sound.rings
  cases used with
  | nil => exact absurd (rings.returned.empty_iff.mpr rfl) entry
  | cons head used =>
    obtain ⟨first, -⟩ := rings.returned.pop (by decide)
    obtain ⟨p, b, idx, phase, rfl, disk⟩ := (rings.flying head).mp (by simp)
    have recorded := sound.owned.recorded p b idx (by rw [phase]; rfl)
    have status := rings.status idx.head (mem_cons_self ..)
    refine ⟨p, b, idx, phase, first, disk, ?_, ?_⟩
    · unfold virtioDiskIntr
      rw [holder]
      dsimp only
      rw [if_neg entry, first, status, recorded]
      rfl
    refine Sound.wakeup ⟨?_, ?_, available, used, rings.handled sound.owned phase⟩ _
    · refine sound.owned.congr (fun _ => rfl) (fun _ => rfl) (fun _ => rfl) (fun _ => rfl)
        (fun _ _ _ _ _ _ => rfl) (fun _ => rfl) (apply_update_eq Buf.locked rfl)
    obtain ⟨held, awake, published, finished⟩ := sound.critical
    constructor
    · exact held
    · exact awake
    · -- no process has the lock
      intro q c idx' (call : (s.procs q).call = _)
      have theirs := (held q).mp (by rw [call]; rfl)
      rw [holder] at theirs
      cases theirs
    · intro q c idx' call
      rw [disk_handled]
      split
      · rfl
      · exact finished q c idx' call

theorem Sound.fetch : s.fetch.Sound := by
  unfold System.fetch
  split
  · exact sound
  next entry =>
    obtain ⟨available, used, rings⟩ := sound.rings
    cases available with
    | nil => exact absurd (rings.avail.empty_iff.mpr rfl) entry
    | cons head available =>
      refine ⟨?_, sound.critical.congr (fun _ => rfl) (fun _ => id) rfl rfl rfl, available, used,
        rings.fetch⟩
      exact sound.owned.congr (fun _ => rfl) (fun _ => rfl) (fun _ => rfl) (fun _ => rfl)
        (fun _ _ _ _ _ _ => rfl) (fun _ => rfl) (fun _ => rfl)

theorem Sound.complete (k : Nat) : (s.complete k).Sound := by
  unfold System.complete
  split
  · exact sound
  next head working =>
    obtain ⟨available, used, rings⟩ := sound.rings
    have mem : head ∈ available ++ s.pending ++ used := by
      simp [mem_of_getElem? working]
    obtain ⟨p, b, idx, phase, rfl, disk⟩ := (rings.flying head).mp mem
    have described : (s.phase p).described = some (b, idx) := by rw [phase]; rfl
    have chained := sound.owned.chained p b idx described
    have served : s.writeStatus idx.head = { s with
        info := update s.info idx.head { s.info idx.head with status := 0 } } := by
      unfold writeStatus
      rw [chained.head.2, chained.data.2, sound.owned.status p b idx described]
    rw [served]
    refine ⟨?_, sound.critical.congr (fun _ => rfl) (fun _ => id) rfl rfl rfl, available,
      used ++ [idx.head], ?_⟩
    · refine sound.owned.congr (fun _ => rfl) (fun _ => rfl) (fun _ => rfl) (fun _ => rfl)
        (fun _ _ _ _ _ _ => rfl) (apply_update_eq Info.b rfl) (fun _ => rfl)
    · refine rings.complete sound.owned working (fun _ => Iff.rfl) (fun i => ?_) rfl rfl rfl rfl rfl
        rfl rfl
      dsimp only
      rw [update_apply]
      split <;> rfl

end

/-! ## Every interleaving -/

theorem init_sound : init.Sound := by
  refine ⟨⟨⟨nofun, nofun, nofun, nofun⟩, nofun, nofun, nofun, nofun⟩, ?_, [], [], ?_⟩
  · exact ⟨fun _ => ⟨nofun, nofun⟩, nofun, nofun, nofun⟩
  · refine ⟨.nil .., .nil .., nodup_nil, fun head => ⟨nofun, ?_⟩, nofun⟩
    rintro ⟨p, b, idx, phase, -⟩
    cases phase

structure Keeps (s t : System) : Prop where
  disk : ∀ b, (s.bufs b).disk = true → (t.bufs b).disk = true
  free : ∀ i, t.free i = true → s.free i = true

theorem Keeps.of_eq (disk : ∀ b, (t.bufs b).disk = (s.bufs b).disk)
    (free : ∀ i, t.free i = s.free i) :
    s.Keeps t :=
  ⟨fun b flag => (disk b).trans flag, fun i isFree => (free i).symm.trans isFree⟩

theorem Keeps.same (bufs : t.bufs = s.bufs) (free : t.free = s.free) : s.Keeps t :=
  .of_eq (fun _ => by rw [bufs]) fun _ => by rw [free]

theorem acquire_keeps (s : System) (p : Nat) (call : Call) : s.Keeps (s.acquire p call) := by
  unfold System.acquire
  split
  · exact .same rfl rfl
  · exact .same rfl rfl

theorem alloc_spec (sound : s.Sound) (call : (s.procs p).call = .alloc b write) :
    ∃ t, s.virtioDiskRw p (.alloc b write) = .ok t ∧ t.Sound ∧ s.Keeps t := by
  unfold virtioDiskRw
  obtain ⟨idx, ran, takable⟩ | ⟨m, u, ran, freed, takable, same⟩ := alloc3Desc_spec s
  · refine ⟨_, ?_, sound.allocated call takable, fun _ flag => flag, fun i isFree => ?_⟩
    · rw [ran]
      rfl
    · exact (Bool.and_eq_true_iff.mp isFree).1
  have rolled := sound.rollback takable freed same
  have call' : (u.procs p).call = .alloc b write := (freed.call p).trans call
  refine ⟨u.sleep p .free (.retry b write), ?_, ?_, ?_⟩
  · rw [ran]
    rfl
  · exact rolled.sleep (by rw [call']; rfl) (by unfold phase; rw [call']; rfl) rfl
  refine .of_eq (fun c => ?_) same
  change (u.bufs c).disk = _
  rw [freed.bufs]
  rfl

theorem virtioDiskRw_spec (sound : s.Sound) (awake : (s.procs p).sleeping = none)
    (now : (s.procs p).call = call) (pre : ∀ b idx, call ≠ .finish b idx) :
    ∃ t, s.virtioDiskRw p call = .ok t ∧ t.Sound ∧ s.Keeps t := by
  have phase := phase_of_call now
  cases call with
  | idle => exact ⟨s, rfl, sound, .same rfl rfl⟩
  | start b write | retry b write =>
    refine ⟨_, rfl, ?_, acquire_keeps ..⟩
    exact sound.acquire awake phase.symm ⟨b, .inl ⟨write, rfl⟩⟩
  | rewait b idx =>
    refine ⟨_, rfl, ?_, acquire_keeps ..⟩
    exact sound.acquire awake phase.symm ⟨b, .inr ⟨idx, rfl⟩⟩
  | alloc b write => exact alloc_spec sound now
  | format b write idx =>
    refine ⟨_, rfl, sound.format now, fun c flag => ?_, fun _ isFree => isFree⟩
    change (update s.bufs b _ c).disk = true
    rw [update_apply]
    split
    · rfl
    · exact flag
  | publish b idx => exact ⟨_, rfl, sound.publish now, .same rfl rfl⟩
  | wait b idx =>
    unfold virtioDiskRw
    dsimp only
    split
    · refine ⟨_, rfl, ?_, .same rfl rfl⟩
      exact sound.sleep (by rw [now]; rfl) phase.symm rfl
    next done =>
      refine ⟨_, rfl, ?_, .same rfl rfl⟩
      exact sound.leaveLoop now (Bool.eq_false_iff.mpr done)
  | finish b idx => exact absurd rfl (pre b idx)

theorem virtioDiskIntr_spec (sound : s.Sound) :
    ∃ t, s.virtioDiskIntr = .ok t ∧ t.Sound ∧ t.free = s.free := by
  rcases holder : s.holder with _ | _ | q
  · refine ⟨{ s with holder := some .handler }, ?_, ?_, rfl⟩
    · unfold virtioDiskIntr
      rw [holder]
    · exact sound.handler (.inl holder) (.inr rfl)
  · by_cases empty : s.seenIdx = s.usedIdx
    · refine ⟨{ s with holder := none }, ?_, ?_, rfl⟩
      · unfold virtioDiskIntr
        rw [holder]
        exact if_pos empty
      · exact sound.handler (.inr holder) (.inl rfl)
    · obtain ⟨p, b, idx, -, -, -, ran, kept⟩ := handled_spec sound holder empty
      exact ⟨_, ran, kept, rfl⟩
  · refine ⟨s, ?_, sound, rfl⟩
    unfold virtioDiskIntr
    rw [holder]

/-- The effects of a step on the flags and the free descriptors. -/
structure Effect (s : System) (event : Event) (t : System) : Prop where
  disk : ∀ b, (s.bufs b).disk = true → (t.bufs b).disk = false → event = .interrupt
  free : ∀ i, s.free i = false → t.free i = true →
    ∃ p b idx, event = .go p ∧ (s.procs p).call = .finish b idx ∧ i ∈ idx.list

theorem Keeps.effect (keeps : s.Keeps t) (event : Event) : s.Effect event t := by
  constructor
  · intro b flag cleared
    rw [keeps.disk b flag] at cleared
    cases cleared
  · intro i inUse isFree
    rw [keeps.free i isFree] at inUse
    cases inUse

theorem request_keeps (s : System) (p b : Nat) (blockno : BitVec 32) (write : Bool) :
    s.Keeps (s.request p b blockno write) := by
  unfold System.request
  split
  · exact .of_eq (apply_update_eq Buf.disk rfl) (fun _ => rfl)
  · exact .same rfl rfl

theorem fetch_keeps (s : System) : s.Keeps s.fetch := by
  unfold System.fetch
  split <;> exact .same rfl rfl

theorem complete_keeps (s : System) (k : Nat) : s.Keeps (s.complete k) := by
  unfold System.complete
  split
  · exact .same rfl rfl
  · unfold writeStatus
    split <;> exact .same rfl rfl

theorem step_spec (sound : s.Sound) (event : Event) :
    ∃ t, s.step event = .ok t ∧ t.Sound ∧ s.Effect event t := by
  cases event with
  | request p b blockno write =>
    exact ⟨_, rfl, sound.request p b blockno write, (request_keeps ..).effect _⟩
  | go p =>
    unfold step
    dsimp only
    split
    next awake =>
      by_cases last : ∃ b idx, (s.procs p).call = .finish b idx
      · obtain ⟨b, idx, call⟩ := last
        obtain ⟨t, ran, kept, free, disk⟩ := finish_spec sound call
        rw [call]
        refine ⟨t, ran, kept, ?_, ?_⟩
        · intro c flag cleared
          rw [disk c, flag] at cleared
          cases cleared
        · intro i inUse isFree
          rw [free i, inUse] at isFree
          exact ⟨p, b, idx, rfl, call, of_decide_eq_true isFree⟩
      · obtain ⟨t, ran, kept, keeps⟩ := virtioDiskRw_spec sound awake rfl
          fun b idx call => last ⟨b, idx, call⟩
        exact ⟨t, ran, kept, keeps.effect _⟩
    next => exact ⟨s, rfl, sound, Keeps.effect (.same rfl rfl) _⟩
  | kill p =>
    refine ⟨_, rfl, sound.kill p, Keeps.effect ?_ _⟩
    exact .same rfl rfl
  | interrupt =>
    obtain ⟨t, ran, kept, free⟩ := virtioDiskIntr_spec sound
    refine ⟨t, ran, kept, fun _ _ _ => rfl, fun i inUse isFree => ?_⟩
    rw [free, inUse] at isFree
    cases isFree
  | fetch => exact ⟨_, rfl, sound.fetch, (fetch_keeps s).effect _⟩
  | complete k => exact ⟨_, rfl, sound.complete k, (complete_keeps s k).effect _⟩

theorem run_sound (events : List Event) : ∃ s, run step init events = .ok s ∧ s.Sound := by
  have kept (s : System) event (sound : s.Sound) (_ : True) :
      ∃ t, s.step event = .ok t ∧ t.Sound := by
    obtain ⟨t, ran, kept, -⟩ := step_spec sound event
    exact ⟨t, ran, kept⟩
  exact run_total kept init_sound (Meets.of_forall (fun _ _ => trivial) _ events)

/-- Whatever the interleaving, the two rings and what the device has fetched hold the heads of
the requests in flight, each in one place and once, though the indices run over, and the device
has returned each head in the used ring with status 0.  A buffer belongs to one request at most
and stays locked. -/
theorem rings_hold_requests (events : List Event) :
    ∃ s, run step init events = .ok s ∧ (∃ available used, s.Rings available used) ∧
      (∀ p b, (s.phase p).buf = some b → (s.bufs b).locked = true) ∧
      ∀ p q b, (s.phase p).buf = some b → (s.phase q).buf = some b → p = q := by
  obtain ⟨s, ran, sound⟩ := run_sound events
  exact ⟨s, ran, sound.rings, sound.owned.locked, sound.owned.alone⟩

end System

end Xv6Rv32im.Virtio
