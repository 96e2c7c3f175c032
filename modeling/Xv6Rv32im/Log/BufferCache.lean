import Xv6Rv32im.Library.Shares
import Xv6Rv32im.Library.Update
import Xv6Rv32im.Log.Model

/-!
# The buffer cache

`bio.c` over a disk: buffers with reference counts and sleep locks, and the list that
orders them by their last use.  `Ok` says how reference counts, pins and block numbers
fit together; `Shows` says that the buffers and the disk show one array of blocks.  Both
are kept by every operation, whichever buffer is recycled.
-/

namespace Xv6Rv32im.Log

open Function Library List

def NBUF : Nat := MAXOPBLOCKS * 3

/-- The calls of `panic` in `bio.c` and `log.c`. -/
inductive LogPanic where
  | bgetNoBuffers
  | bwrite
  | brelse
  | tooBigATransaction
  | logWriteOutsideOfTrans
  | logCommitting
  deriving DecidableEq

/-- `struct buf`.  A buffer that was never used has no block; `lock` is the process that
holds the sleep lock. -/
structure Buf where
  blockno : Option Nat
  valid : Bool
  refcnt : Nat
  lock : Option Nat
  data : Block

/-- `bcache` and the disk.  `lru` is the list from `head.next` on. -/
structure Cache where
  buf : Nat → Buf
  lru : List Nat
  disk : Nat → Block

namespace Cache

def binit (disk : Nat → Block) : Cache where
  buf := fun _ => ⟨none, false, 0, none, fun _ => 0⟩
  lru := (List.range NBUF).reverse
  disk := disk

def setBuf (c : Cache) (s : Nat) (b : Buf) : Cache :=
  { c with buf := update c.buf s b }

/-- The part of `bget` under `bcache.lock`: the buffer, which now counts one more user. -/
def bget (c : Cache) (blockno : Nat) : Except LogPanic (Nat × Cache) :=
  match c.lru.find? fun s => (c.buf s).blockno = some blockno with
  | some s => .ok (s, c.setBuf s { c.buf s with refcnt := (c.buf s).refcnt + 1 })
  | none =>
    match c.lru.reverse.find? fun s => (c.buf s).refcnt = 0 with
    | some s =>
      .ok (s, c.setBuf s { c.buf s with blockno := some blockno, valid := false, refcnt := 1 })
    | none => .error .bgetNoBuffers

/-- The rest of `bread`, once the sleep lock is free: take it and read the block. -/
def acquire (c : Cache) (p s : Nat) : Cache :=
  let b := c.buf s
  c.setBuf s { b with
    lock := some p
    valid := true
    data := if b.valid then b.data else (b.blockno.map c.disk).getD b.data }

def bwrite (c : Cache) (p s : Nat) : Except LogPanic Cache :=
  if (c.buf s).lock ≠ some p then .error .bwrite
  else
    match (c.buf s).blockno with
    | none => .ok c
    | some n => .ok { c with disk := update c.disk n (c.buf s).data }

/-- `brelse`; a buffer that nobody uses any more moves to the front of the list. -/
def brelse (c : Cache) (p s : Nat) : Except LogPanic Cache :=
  let b := c.buf s
  if b.lock ≠ some p then .error .brelse
  else
    let c := c.setBuf s { b with lock := none, refcnt := b.refcnt - 1 }
    .ok (if b.refcnt - 1 = 0 then { c with lru := s :: c.lru.erase s } else c)

def bpin (c : Cache) (s : Nat) : Cache :=
  c.setBuf s { c.buf s with refcnt := (c.buf s).refcnt + 1 }

def bunpin (c : Cache) (s : Nat) : Cache :=
  c.setBuf s { c.buf s with refcnt := (c.buf s).refcnt - 1 }

def setData (c : Cache) (s : Nat) (data : Block) : Cache :=
  c.setBuf s { c.buf s with data := data }

/-! ## The invariants -/

def pins (c : Cache) (pinned : List Nat) (s : Nat) : Nat :=
  pinned.countP fun b => (c.buf s).blockno = some b

/-- A buffer counts its users and its pins.  `users` are the buffers that processes hold
or wait for, with multiplicity; `pinned` are the blocks pinned in the cache. -/
structure Ok (c : Cache) (users : Multiset Nat) (pinned : List Nat) : Prop where
  listed : ∀ s, (c.buf s).blockno ≠ none → s ∈ c.lru
  unique : ∀ s s' b, (c.buf s).blockno = some b → (c.buf s').blockno = some b → s = s'
  counted : ∀ s, (c.buf s).refcnt = users.count s + c.pins pinned s
  named : ∀ s ∈ users, (c.buf s).blockno ≠ none
  locked : ∀ s, (c.buf s).lock ≠ none → s ∈ users ∧ (c.buf s).valid = true
  cached : ∀ b ∈ pinned, ∃ s, (c.buf s).blockno = some b ∧ (c.buf s).valid = true

/-- The buffers and the disk show the array `view`, apart from the buffers that are being
changed. -/
structure Shows (c : Cache) (view : Nat → Block) (dirty : Nat → Bool) (pinned : List Nat) :
    Prop where
  clean : ∀ s b, (c.buf s).blockno = some b → (c.buf s).valid = true → dirty s = false →
    (c.buf s).data = view b
  stored : ∀ b, b ∉ pinned → c.disk b = view b
  held : ∀ s, dirty s = true → (c.buf s).lock ≠ none

structure Keeps (c c' : Cache) (s : Nat) : Prop where
  blockno : (c'.buf s).blockno = (c.buf s).blockno
  valid : (c'.buf s).valid = (c.buf s).valid
  lock : (c'.buf s).lock = (c.buf s).lock
  data : (c'.buf s).data = (c.buf s).data

theorem setBuf_self (c : Cache) (s : Nat) (b : Buf) : (c.setBuf s b).buf s = b :=
  update_self ..

theorem setBuf_of_ne (c : Cache) {s s' : Nat} (b : Buf) (ne : s' ≠ s) :
    (c.setBuf s b).buf s' = c.buf s' :=
  update_of_ne ne ..

section

variable {c c' : Cache} {users users' : Multiset Nat} {pinned pinned' : List Nat}
  {view : Nat → Block} {dirty : Nat → Bool} {s b p : Nat} {new : Buf}

theorem Keeps.of_ne (changed : c'.buf = update c.buf s new) {x : Nat} (ne : x ≠ s) :
    c.Keeps c' x := by
  have same : c'.buf x = c.buf x := by rw [changed, update_of_ne ne]
  exact ⟨by rw [same], by rw [same], by rw [same], by rw [same]⟩

theorem pins_congr {x : Nat} (same : (c'.buf x).blockno = (c.buf x).blockno) (pinned : List Nat) :
    c'.pins pinned x = c.pins pinned x := by
  unfold pins
  rw [same]

section

variable (ok : c.Ok users pinned)

include ok

theorem Ok.refcnt_pos (used : s ∈ users) : (c.buf s).refcnt ≠ 0 := by
  have pos := Multiset.count_pos.mpr used
  rw [ok.counted]
  omega

theorem Ok.pinned_pos (isPinned : b ∈ pinned) (here : (c.buf s).blockno = some b) :
    (c.buf s).refcnt ≠ 0 := by
  have pos : 0 < c.pins pinned s :=
    countP_pos_iff.mpr ⟨b, isPinned, by simpa using here⟩
  rw [ok.counted]
  omega

theorem Ok.change (changed : c'.buf = update c.buf s new)
    (lru : ∀ x, x ∈ c.lru → x ∈ c'.lru) (blockno : new.blockno = (c.buf s).blockno)
    (isNamed : (c.buf s).blockno ≠ none) (valid : (c.buf s).valid = true → new.valid = true)
    (counted : new.refcnt = users'.count s + c.pins pinned' s)
    (lock : new.lock ≠ none → s ∈ users' ∧ new.valid = true)
    (others : ∀ x, x ≠ s → users'.count x = users.count x ∧ c.pins pinned' x = c.pins pinned x)
    (cached : ∀ b ∈ pinned', b ∈ pinned ∨ (c.buf s).blockno = some b ∧ new.valid = true) :
    c'.Ok users' pinned' := by
  have blocks : ∀ x, (c'.buf x).blockno = (c.buf x).blockno :=
    changed ▸ apply_update_eq Buf.blockno blockno
  have self : c'.buf s = new := by rw [changed, update_self]
  have stays x (isValid : (c.buf x).valid = true) : (c'.buf x).valid = true := by
    rcases eq_or_ne x s with rfl | ne
    · rw [self]
      exact valid isValid
    · rw [(Keeps.of_ne changed ne).valid, isValid]
  have mem x (ne : x ≠ s) : x ∈ users' ↔ x ∈ users := by
    rw [← Multiset.count_pos, ← Multiset.count_pos, (others x ne).1]
  refine ⟨fun x => ?_, fun x y b => ?_, fun x => ?_, fun x used => ?_, fun x => ?_, fun b => ?_⟩
  · rw [blocks]
    exact fun isNamed => lru x (ok.listed x isNamed)
  · rw [blocks, blocks]
    exact ok.unique x y b
  · rw [pins_congr (blocks x)]
    rcases eq_or_ne x s with rfl | ne
    · rw [self, counted]
    · rw [changed, update_of_ne ne, ok.counted, (others x ne).1, (others x ne).2]
  · rw [blocks]
    rcases eq_or_ne x s with rfl | ne
    · exact isNamed
    · exact ok.named x ((mem x ne).mp used)
  · rcases eq_or_ne x s with rfl | ne
    · rw [self]
      exact lock
    · rw [(Keeps.of_ne changed ne).lock, (Keeps.of_ne changed ne).valid, mem x ne]
      exact ok.locked x
  · intro isPinned
    rcases cached b isPinned with pre | ⟨here, isValid⟩
    · obtain ⟨x, here, isValid⟩ := ok.cached b pre
      exact ⟨x, by rw [blocks, here], stays x isValid⟩
    · exact ⟨s, by rw [blocks, here], by rw [self, isValid]⟩

end

/-- One buffer changes its counts, or takes or gives back a lock. -/
theorem Shows.change (shows : c.Shows view dirty pinned)
    (changed : c'.buf = update c.buf s new) (disk : c'.disk = c.disk)
    (contents : ∀ b, new.blockno = some b → new.valid = true → dirty s = false → new.data = view b)
    (lock : dirty s = true → new.lock ≠ none) : c'.Shows view dirty pinned := by
  have self : c'.buf s = new := by rw [changed, update_self]
  refine ⟨fun x b here isValid isClean => ?_, fun b unpinned => ?_, fun x isDirty => ?_⟩
  · rcases eq_or_ne x s with rfl | ne
    · rw [self] at here isValid ⊢
      exact contents b here isValid isClean
    · have keeps := Keeps.of_ne changed ne
      rw [keeps.data]
      exact shows.clean x b (keeps.blockno ▸ here) (keeps.valid ▸ isValid) isClean
  · rw [disk]
    exact shows.stored b unpinned
  · rcases eq_or_ne x s with rfl | ne
    · rw [self]
      exact lock isDirty
    · rw [(Keeps.of_ne changed ne).lock]
      exact shows.held x isDirty

theorem binit_ok (disk : Nat → Block) : (binit disk).Ok 0 [] where
  listed := fun _ isNamed => absurd rfl isNamed
  unique := nofun
  counted := fun _ => rfl
  named := nofun
  locked := fun _ isLocked => absurd rfl isLocked
  cached := nofun

theorem binit_shows (disk : Nat → Block) : (binit disk).Shows disk (fun _ => false) [] where
  clean := nofun
  stored := fun _ _ => rfl
  held := nofun

/-! ## The calls -/

/-- A buffer without users and pins gets another block that is not in the cache. -/
theorem recycle_spec (ok : c.Ok users pinned) (inList : s ∈ c.lru)
    (idle : (c.buf s).refcnt = 0) (missing : ∀ x, (c.buf x).blockno ≠ some b)
    (made : c' = c.setBuf s { c.buf s with blockno := some b, valid := false, refcnt := 1 }) :
    c'.Ok (s ::ₘ users) pinned ∧
      (∀ view dirty, c.Shows view dirty pinned → c'.Shows view dirty pinned) ∧
      (∀ x, (c'.buf x).lock = (c.buf x).lock) ∧ ∀ x ∈ users, c.Keeps c' x := by
  have unused : s ∉ users := fun used => ok.refcnt_pos used idle
  have unpinned : b ∉ pinned := fun isPinned => by
    obtain ⟨x, here, -⟩ := ok.cached b isPinned
    exact missing x here
  have unlocked : (c.buf s).lock = none := by
    by_contra isLocked
    exact unused (ok.locked s isLocked).1
  have self : c'.buf s = { c.buf s with blockno := some b, valid := false, refcnt := 1 } := by
    rw [made, setBuf_self]
  have changed : c'.buf = update c.buf s
      { c.buf s with blockno := some b, valid := false, refcnt := 1 } := by
    rw [made]
    rfl
  have lru : c'.lru = c.lru := by
    rw [made]
    rfl
  have keeps {x} (ne : x ≠ s) : c.Keeps c' x := Keeps.of_ne changed ne
  refine ⟨⟨fun x isNamed => ?_, fun x y b' here there => ?_, fun x => ?_, fun x used => ?_,
    fun x isLocked => ?_, fun b' isPinned => ?_⟩, fun view dirty shows => ?_,
    changed ▸ apply_update_eq Buf.lock rfl, fun x used => ?_⟩
  · rw [lru]
    rcases eq_or_ne x s with rfl | ne
    · exact inList
    · exact ok.listed x ((keeps ne).blockno ▸ isNamed)
  · rcases eq_or_ne x s with rfl | ne
    · rcases eq_or_ne y x with rfl | ne'
      · rfl
      · rw [self] at here
        cases here
        exact absurd ((keeps ne').blockno ▸ there) (missing y)
    · rcases eq_or_ne y s with rfl | ne'
      · rw [self] at there
        cases there
        exact absurd ((keeps ne).blockno ▸ here) (missing x)
      · exact ok.unique x y b' ((keeps ne).blockno ▸ here) ((keeps ne').blockno ▸ there)
  · rcases eq_or_ne x s with rfl | ne
    · have none : c'.pins pinned x = 0 := by
        refine countP_eq_zero.mpr fun b' isPinned same => unpinned ?_
        rw [self] at same
        obtain rfl : b = b' := by simpa using same
        exact isPinned
      rw [self, none, Multiset.count_cons_self, Multiset.count_eq_zero.mpr unused]
    · rw [Multiset.count_cons_of_ne ne, pins_congr (keeps ne).blockno, changed,
        update_of_ne ne, ok.counted]
  · rcases eq_or_ne x s with rfl | ne
    · rw [self]
      nofun
    · rw [(keeps ne).blockno]
      exact ok.named x ((Multiset.mem_cons.mp used).resolve_left ne)
  · rcases eq_or_ne x s with rfl | ne
    · rw [self] at isLocked
      exact absurd unlocked isLocked
    · rw [(keeps ne).lock] at isLocked
      rw [(keeps ne).valid]
      exact (ok.locked x isLocked).imp_left fun used => Multiset.mem_cons_of_mem used
  · obtain ⟨x, here, isValid⟩ := ok.cached b' isPinned
    have ne : x ≠ s := by
      rintro rfl
      exact ok.pinned_pos isPinned here idle
    exact ⟨x, by rw [(keeps ne).blockno, here], by rw [(keeps ne).valid, isValid]⟩
  · refine shows.change changed (by rw [made]; rfl) (fun b' _ isValid => ?_) fun isDirty => ?_
    · cases isValid
    · exact absurd unlocked (shows.held s isDirty)
  · exact keeps fun same => unused (same ▸ used)

/-- `bget` yields the buffer of the block, and no buffer in use changes. -/
theorem bget_spec (ok : c.Ok users pinned) (done : c.bget b = .ok (s, c')) :
    c'.Ok (s ::ₘ users) pinned ∧
      (∀ view dirty, c.Shows view dirty pinned → c'.Shows view dirty pinned) ∧
      (c'.buf s).blockno = some b ∧ c'.disk = c.disk ∧ (∀ x, (c'.buf x).lock = (c.buf x).lock) ∧
      ∀ x ∈ users, c.Keeps c' x := by
  unfold bget at done
  split at done
  next found hit =>
    cases done
    have here : (c.buf s).blockno = some b := by simpa using List.find?_some hit
    refine ⟨?_, fun view dirty shows => ?_, ?_, rfl, apply_update_eq Buf.lock rfl, fun x _ => ?_⟩
    · refine ok.change rfl (fun _ => id) rfl (by rw [here]; nofun) id ?_ (fun isLocked => ?_)
        (fun x ne => ⟨Multiset.count_cons_of_ne ne .., rfl⟩) fun _ => .inl
      · rw [Multiset.count_cons_self, ok.counted]
        ac_rfl
      · exact (ok.locked s isLocked).imp_left fun used => Multiset.mem_cons_of_mem used
    · exact shows.change rfl rfl (fun b' => shows.clean s b') (shows.held s)
    · rw [setBuf_self]
      exact here
    · rcases eq_or_ne x s with rfl | ne
      · exact ⟨by rw [setBuf_self], by rw [setBuf_self], by rw [setBuf_self], by rw [setBuf_self]⟩
      · exact Keeps.of_ne rfl ne
  next miss =>
    have missing x : (c.buf x).blockno ≠ some b := by
      intro here
      have isListed := ok.listed x (by rw [here]; nofun)
      exact absurd here (by simpa using List.find?_eq_none.mp miss x isListed)
    split at done
    next found idle =>
      cases done
      have inList : s ∈ c.lru := mem_reverse.mp (mem_of_find?_eq_some idle)
      obtain ⟨ok', shows', locks, keeps⟩ := recycle_spec ok inList
        (by simpa using List.find?_some idle) missing rfl
      exact ⟨ok', shows', by rw [setBuf_self], rfl, locks, keeps⟩
    · cases done

theorem acquire_spec (p : Nat) (ok : c.Ok users pinned) (used : s ∈ users)
    (free : (c.buf s).lock = none) :
    (c.acquire p s).Ok users pinned ∧ (∀ view dirty, c.Shows view dirty pinned →
        (c.acquire p s).Shows view dirty pinned ∧ dirty s = false) ∧
      (∀ x, ((c.acquire p s).buf x).blockno = (c.buf x).blockno) ∧
      (∀ x, ((c.acquire p s).buf x).lock = if x = s then some p else (c.buf x).lock) := by
  refine ⟨?_, fun view dirty shows => ?_, apply_update_eq Buf.blockno rfl,
    apply_update_ite Buf.lock⟩
  · exact ok.change rfl (fun _ => id) rfl (ok.named s used) (fun _ => rfl) (ok.counted s)
      (fun _ => ⟨used, rfl⟩) (fun _ _ => ⟨rfl, rfl⟩) fun _ => .inl
  · have isClean : dirty s = false := by
      by_contra isDirty
      exact shows.held s (by simpa using isDirty) free
    refine ⟨shows.change rfl rfl (fun b here _ _ => ?_) fun isDirty => by simp [isClean] at isDirty,
      isClean⟩
    change (c.buf s).blockno = some b at here
    by_cases isValid : (c.buf s).valid = true
    · rw [if_pos isValid]
      exact shows.clean s b here isValid isClean
    -- The block is not pinned, since the buffer of a pinned block is valid.
    rw [if_neg isValid, here]
    refine shows.stored b fun isPinned => ?_
    obtain ⟨x, there, isValid'⟩ := ok.cached b isPinned
    obtain rfl := ok.unique x s b there here
    exact isValid isValid'

/-- `brelse` of a buffer that the caller holds.  It should not be left changed. -/
theorem brelse_spec (ok : c.Ok (s ::ₘ users) pinned) (isLocked : (c.buf s).lock = some p) :
    ∃ c', c.brelse p s = .ok c' ∧ c'.Ok users pinned ∧
      (∀ view dirty, dirty s = false → c.Shows view dirty pinned → c'.Shows view dirty pinned) ∧
      c'.disk = c.disk ∧ (∀ x, (c'.buf x).lock = if x = s then none else (c.buf x).lock) ∧
      ∀ x, (c'.buf x).blockno = (c.buf x).blockno := by
  have counted := ok.counted s
  rw [Multiset.count_cons_self] at counted
  -- Where the buffer moves in the list does not matter.
  have released {c' : Cache} (changed : c'.buf = update c.buf s
      { c.buf s with lock := none, refcnt := (c.buf s).refcnt - 1 }) (disk : c'.disk = c.disk)
      (lru : ∀ x, x ∈ c.lru → x ∈ c'.lru) :
      c'.Ok users pinned ∧ (∀ view dirty, dirty s = false → c.Shows view dirty pinned →
          c'.Shows view dirty pinned) ∧
        c'.disk = c.disk ∧ (∀ x, (c'.buf x).lock = if x = s then none else (c.buf x).lock) ∧
        ∀ x, (c'.buf x).blockno = (c.buf x).blockno := by
    refine ⟨?_, fun view dirty isClean shows => ?_, disk, changed ▸ apply_update_ite Buf.lock,
      changed ▸ apply_update_eq Buf.blockno rfl⟩
    · refine ok.change changed lru rfl (ok.named s (Multiset.mem_cons_self s users)) id ?_
        (fun isLocked => absurd rfl isLocked)
        (fun x ne => ⟨(Multiset.count_cons_of_ne ne ..).symm, rfl⟩) fun _ => .inl
      change (c.buf s).refcnt - 1 = _
      omega
    · refine shows.change changed disk (fun b => shows.clean s b) fun isDirty => ?_
      simp [isClean] at isDirty
  unfold brelse
  rw [if_neg (not_not.mpr isLocked)]
  refine ⟨_, rfl, ?_⟩
  split
  · refine released rfl rfl fun x mem => ?_
    rcases eq_or_ne x s with rfl | ne
    · exact mem_cons_self ..
    · exact mem_cons_of_mem _ ((mem_erase_of_ne ne).mpr mem)
  · exact released rfl rfl fun _ => id

theorem setData_spec (data : Block) (ok : c.Ok users pinned) (isLocked : (c.buf s).lock ≠ none) :
    (c.setData s data).Ok users pinned ∧ ∀ view dirty, c.Shows view dirty pinned →
        (c.setData s data).Shows view (update dirty s true) pinned := by
  obtain ⟨used, isValid⟩ := ok.locked s isLocked
  refine ⟨ok.change rfl (fun _ => id) rfl (ok.named s used) id (ok.counted s)
    (fun _ => ⟨used, isValid⟩) (fun _ _ => ⟨rfl, rfl⟩) fun _ => .inl, fun view dirty shows => ?_⟩
  have marked : c.Shows view (update dirty s true) pinned := by
    refine ⟨fun x b here isValid isClean => ?_, shows.stored, fun x isDirty => ?_⟩
    · rcases eq_or_ne x s with rfl | ne
      · simp at isClean
      · rw [update_of_ne ne] at isClean
        exact shows.clean x b here isValid isClean
    · rcases eq_or_ne x s with rfl | ne
      · exact isLocked
      · rw [update_of_ne ne] at isDirty
        exact shows.held x isDirty
  refine marked.change rfl rfl (fun b _ _ isClean => ?_) fun _ => isLocked
  simp at isClean

theorem Shows.log (ok : c.Ok users pinned) (shows : c.Shows view dirty pinned)
    (here : (c.buf s).blockno = some b) (more : ∀ x, x ∈ pinned → x ∈ pinned')
    (isPinned : b ∈ pinned') :
    c.Shows (update view b (c.buf s).data) (update dirty s false) pinned' := by
  refine ⟨fun x b' there isValid isClean => ?_, fun b' unpinned => ?_, fun x isDirty => ?_⟩
  · rcases eq_or_ne b' b with rfl | ne
    · rw [update_self, ok.unique x s b' there here]
    · have other : x ≠ s := by
        rintro rfl
        exact ne (Option.some.inj (there.symm.trans here))
      rw [update_of_ne other] at isClean
      rw [update_of_ne ne]
      exact shows.clean x b' there isValid isClean
  · have ne : b' ≠ b := fun same => unpinned (same ▸ isPinned)
    rw [update_of_ne ne]
    exact shows.stored b' fun pre => unpinned (more b' pre)
  · rcases eq_or_ne x s with rfl | ne
    · simp at isDirty
    · rw [update_of_ne ne] at isDirty
      exact shows.held x isDirty

theorem bpin_spec (ok : c.Ok users pinned) (used : s ∈ users)
    (here : (c.buf s).blockno = some b) (isValid : (c.buf s).valid = true) :
    (c.bpin s).Ok users (pinned ++ [b]) ∧ ∀ view dirty, c.Shows view dirty pinned →
        (c.bpin s).Shows (update view b (c.buf s).data) (update dirty s false) (pinned ++ [b]) := by
  have counts x : c.pins (pinned ++ [b]) x =
      c.pins pinned x + if (c.buf x).blockno = some b then 1 else 0 := by
    unfold pins
    rw [countP_append, countP_singleton]
    simp
  refine ⟨?_, fun view dirty shows => ?_⟩
  · refine ok.change rfl (fun _ => id) rfl (ok.named s used) id ?_
      (fun isLocked => ⟨used, isValid⟩) (fun x ne => ⟨rfl, ?_⟩) fun b' isPinned => ?_
    · rw [counts, if_pos here, ok.counted]
      ac_rfl
    · rw [counts, if_neg fun there => ne (ok.unique x s b there here), Nat.add_zero]
    · rcases mem_append.mp isPinned with pre | new
      · exact .inl pre
      · rw [mem_singleton.mp new]
        exact .inr ⟨here, isValid⟩
  · have logged := shows.log ok here (fun x => mem_append_left [b])
      (mem_append_right pinned (mem_singleton_self b))
    refine logged.change rfl rfl (fun b' => logged.clean s b') fun isDirty => ?_
    simp at isDirty

/-- `bunpin` of a buffer whose contents are on the disk. -/
theorem bunpin_spec (ok : c.Ok users (b :: pinned)) (used : s ∈ users)
    (here : (c.buf s).blockno = some b) :
    (c.bunpin s).Ok users pinned ∧
      ∀ view dirty, c.disk b = view b → c.Shows view dirty (b :: pinned) →
        (c.bunpin s).Shows view dirty pinned := by
  have counts x : c.pins (b :: pinned) x =
      c.pins pinned x + if (c.buf x).blockno = some b then 1 else 0 := by
    unfold pins
    rw [countP_cons]
    simp
  refine ⟨?_, fun view dirty written shows => ?_⟩
  · refine ok.change rfl (fun _ => id) rfl (ok.named s used) id ?_
      (fun isLocked => ok.locked s isLocked) (fun x ne => ⟨rfl, ?_⟩)
      fun b' isPinned => .inl (mem_cons_of_mem b isPinned)
    · rw [ok.counted, counts, if_pos here]
      rfl
    · rw [counts, if_neg fun there => ne (ok.unique x s b there here), Nat.add_zero]
  · have unpinned : c.Shows view dirty pinned := by
      refine ⟨shows.clean, fun b' notPinned => ?_, shows.held⟩
      rcases eq_or_ne b' b with rfl | ne
      · exact written
      · exact shows.stored b' (by simp [ne, notPinned])
    exact unpinned.change rfl rfl (fun b' => unpinned.clean s b') (unpinned.held s)

theorem writeThrough_spec (data : Block) (ok : c.Ok users pinned)
    (here : (c.buf s).blockno = some b) (isLocked : (c.buf s).lock = some p) :
    ∃ c', (c.setData s data).bwrite p s = .ok c' ∧ c'.Ok users pinned ∧
      (∀ view dirty, dirty s = false → c.Shows view dirty pinned →
        c'.Shows (update view b data) dirty pinned) ∧
      c'.disk b = data ∧
      (∀ x, (c'.buf x).blockno = (c.buf x).blockno) ∧
      ∀ x, (c'.buf x).lock = (c.buf x).lock := by
  have self : (c.setData s data).buf s = { c.buf s with data := data } := setBuf_self ..
  have others {x} (ne : x ≠ s) : (c.setData s data).buf x = c.buf x :=
    setBuf_of_ne c _ ne
  obtain ⟨ok', -⟩ := setData_spec data ok (by rw [isLocked]; nofun)
  unfold bwrite
  rw [self]
  rw [if_neg (not_not.mpr isLocked), here]
  refine ⟨_, rfl, ⟨ok'.listed, ok'.unique, ok'.counted, ok'.named, ok'.locked, ok'.cached⟩,
    fun view dirty isClean shows =>
      ⟨fun x b' there isValid isClean' => ?_, fun b' unpinned => ?_, fun x isDirty => ?_⟩,
    update_self .., apply_update_eq Buf.blockno rfl, apply_update_eq Buf.lock rfl⟩
  · change ((c.setData s data).buf x).blockno = some b' at there
    change ((c.setData s data).buf x).valid = true at isValid
    change ((c.setData s data).buf x).data = _
    rcases eq_or_ne x s with rfl | ne
    · rw [self] at there ⊢
      obtain rfl := Option.some.inj (there.symm.trans here)
      rw [update_self]
    rw [others ne] at there isValid ⊢
    have other : b' ≠ b := by
      rintro rfl
      exact ne (ok.unique x s b' there here)
    rw [update_of_ne other]
    exact shows.clean x b' there isValid isClean'
  · change update c.disk b data b' = _
    rcases eq_or_ne b' b with rfl | ne
    · rw [update_self, update_self]
    · rw [update_of_ne ne, update_of_ne ne]
      exact shows.stored b' unpinned
  · change ((c.setData s data).buf x).lock ≠ none
    have ne : x ≠ s := by
      rintro rfl
      simp [isClean] at isDirty
    rw [others ne]
    exact shows.held x isDirty

end

end Cache

end Xv6Rv32im.Log
