import Mathlib.Data.Fintype.List
import Xv6Rv32im.Bio.Model

/-!
# Links, blocks and the order of use

The links form a ring through all buffers, ordered by the last `brelse` that brought a
count to zero.  No two buffers hold the same block of a device, a buffer in use keeps its
block, and a new block gets the unused buffer whose release is the oldest.
-/

namespace Xv6Rv32im.Bio

open Library.LinkedRing Library.Run Function List
open Xv6Rv32im.Log (NBUF)

namespace Bcache

variable {c : Bcache} {order : List (Fin NBUF)} {b : Fin NBUF}

/-- The links of the cache lead through the buffers in this order. -/
def Linked (c : Bcache) (order : List (Fin NBUF)) : Prop :=
  Ring c.next c.prev .head (order.map .buf)

theorem buf_injective : Function.Injective Node.buf := fun _ _ same => Node.buf.inj same

theorem mem_nodes : Node.buf b ∈ order.map .buf ↔ b ∈ order :=
  mem_map_of_injective buf_injective

section

variable (linked : c.Linked order)

include linked

theorem Linked.nodup : order.Nodup :=
  Nodup.of_map _ (nodup_cons.mp (Ring.nodup linked)).2

theorem Linked.insert (new : b ∉ order) : (c.insert b).Linked (b :: order) := by
  have pushed := Ring.push linked (by
    rw [mem_cons, mem_nodes]
    exact not_or.mpr ⟨nofun, new⟩)
  have same : update c.next (.buf b) (c.next .head) .head = c.next .head :=
    update_of_ne (show Node.head ≠ .buf b from nofun) ..
  unfold Linked Bcache.insert
  dsimp only
  rw [same]
  exact pushed

theorem Linked.remove (lt : b ∈ order) : (c.remove b).Linked (order.erase b) := by
  have unlinked := Ring.unlink linked (mem_nodes.mpr lt)
  -- The first assignment leaves the backward link of the buffer itself.
  have same : update c.prev (c.next (.buf b)) (c.prev (.buf b)) (.buf b) = c.prev (.buf b) := by
    by_cases self : Node.buf b = c.next (.buf b)
    · rw [← self, update_self]
    · exact update_of_ne self ..
  rw [← map_erase buf_injective] at unlinked
  unfold Linked Bcache.remove
  dsimp only
  rw [same]
  exact unlinked

end

section

variable (c b)

theorem insert_buf : (c.insert b).buf = c.buf :=
  rfl

theorem remove_buf : (c.remove b).buf = c.buf :=
  rfl

theorem setBuf_buf_self (new : Buf) : (c.setBuf b new).buf b = new :=
  update_self ..

end

theorem setBuf_buf_of_ne (c : Bcache) {a b : Fin NBUF} (new : Buf) (ne : a ≠ b) :
    (c.setBuf b new).buf a = c.buf a :=
  update_of_ne ne ..

theorem binit_linked : binit.Linked (finRange NBUF).reverse := by
  have loop (rest : List (Fin NBUF)) : ∀ (c : Bcache) (done : List (Fin NBUF)), c.Linked done →
      (done ++ rest).Nodup → (rest.foldl Bcache.insert c).Linked (rest.reverse ++ done) := by
    induction rest with
    | nil => exact fun c done linked _ => linked
    | cons b rest ih =>
      intro c done linked nodup
      rw [foldl_cons, reverse_cons, append_assoc]
      have moved : (b :: done ++ rest).Nodup := (perm_middle.nodup_iff).mp nodup
      refine ih _ (b :: done) (linked.insert fun early => ?_) moved
      exact (nodup_cons.mp moved).1 (mem_append_left _ early)
  have linked := loop _
    { buf := fun _ => ⟨false, 0, 0, none, 0⟩, next := fun _ => .head, prev := fun _ => .head } []
    ⟨⟨rfl, rfl⟩, nodup_singleton _⟩ (nodup_finRange NBUF)
  rw [append_nil] at linked
  exact linked

theorem binit_buf (b : Fin NBUF) : binit.buf b = ⟨false, 0, 0, none, 0⟩ := by
  have loop (rest : List (Fin NBUF)) : ∀ c : Bcache, (rest.foldl Bcache.insert c).buf = c.buf := by
    induction rest with
    | nil => exact fun _ => rfl
    | cons b rest ih => exact fun c => (ih _).trans (insert_buf c b)
  unfold binit
  rw [loop]

/-! ## Searching the list -/

theorem find_nodes (c : Bcache) (p : Buf → Bool) (order : List (Fin NBUF)) :
    (order.map Node.buf).find? (c.test p) = (order.find? fun b => p (c.buf b)).map Node.buf := by
  rw [find?_map]
  rfl

/-- The two loops of `bget` as searches in the order of the links. -/
theorem Linked.bget (linked : c.Linked order) (dev blockno : BitVec 32) : c.bget dev blockno =
      match order.find? fun b => holds dev blockno (c.buf b) with
      | some b => .ok (b, c.setBuf b { c.buf b with refcnt := (c.buf b).refcnt + 1 })
      | none =>
        match order.reverse.find? fun b => unused (c.buf b) with
        | some b =>
          .ok (b, c.setBuf b { c.buf b with
            dev := dev, blockno := blockno, valid := false, refcnt := 1 })
        | none => .error .bgetNoBuffers := by
  have few : (order.map Node.buf).length < NBUF + 1 := by
    rw [length_map, Nat.lt_succ_iff]
    exact linked.nodup.length_le_card.trans_eq (Fintype.card_fin NBUF)
  unfold Bcache.bget
  rw [Ring.scan_next linked _ few, find_nodes]
  cases order.find? fun b => holds dev blockno (c.buf b) with
  | some b => rfl
  | none =>
    rw [Ring.scan_prev linked _ few, ← map_reverse, find_nodes]
    cases order.reverse.find? fun b => unused (c.buf b) with
    | some b => rfl
    | none => rfl

end Bcache

/-! ## The invariant -/

/-- All buffers are linked, in the order of their last release to zero, and those that hold
a block of a device hold different blocks. -/
structure Sound (s : State) : Prop where
  linked : ∃ order, s.cache.Linked order ∧ (∀ b, b ∈ order) ∧
    order.Pairwise fun a b => s.released.idxOf a ≤ s.released.idxOf b
  unique : ∀ a b, (s.cache.buf a).dev ≠ 0 → (s.cache.buf a).dev = (s.cache.buf b).dev →
    (s.cache.buf a).blockno = (s.cache.buf b).blockno → a = b

theorem start_sound : Sound start where
  linked := by
    refine ⟨_, Bcache.binit_linked, fun b => ?_, pairwise_of_forall fun _ _ => ?_⟩
    · rw [mem_reverse]
      exact mem_finRange b
    · exact le_rfl
  unique := by
    intro a b nonzero
    change (Bcache.binit.buf a).dev ≠ 0 at nonzero
    rw [Bcache.binit_buf] at nonzero
    exact absurd rfl nonzero

variable {event : Event} {s s' : State} {b : Fin NBUF}

theorem Sound.bget_cases (sound : Sound s) {dev blockno : BitVec 32} {cache : Bcache}
    (ran : s.cache.bget dev blockno = .ok (b, cache)) :
    ((s.cache.buf b).dev = dev ∧ (s.cache.buf b).blockno = blockno ∧
      cache = s.cache.setBuf b { s.cache.buf b with refcnt := (s.cache.buf b).refcnt + 1 }) ∨
    ((∀ a, ¬((s.cache.buf a).dev = dev ∧ (s.cache.buf a).blockno = blockno)) ∧
      (s.cache.buf b).refcnt = 0 ∧
      (∀ a, (s.cache.buf a).refcnt = 0 → s.released.idxOf a ≤ s.released.idxOf b) ∧
      cache = s.cache.setBuf b { s.cache.buf b with
        dev := dev, blockno := blockno, valid := false, refcnt := 1 }) := by
  obtain ⟨order, linked, all, sorted⟩ := sound.linked
  rw [linked.bget] at ran
  cases hit : order.find? fun b => Bcache.holds dev blockno (s.cache.buf b) with
  | some found =>
    rw [hit] at ran
    cases ran
    have found : Bcache.holds dev blockno (s.cache.buf b) = true :=
      find?_some (p := fun b => Bcache.holds dev blockno _) hit
    have here := of_decide_eq_true found
    exact .inl ⟨here.1, here.2, rfl⟩
  | none =>
    rw [hit] at ran
    have missed a :
        ¬((s.cache.buf a).dev = dev ∧ (s.cache.buf a).blockno = blockno) := by
      intro here
      exact find?_eq_none.mp hit a (all a) (decide_eq_true here)
    cases free : order.reverse.find? fun b => Bcache.unused (s.cache.buf b) with
    | none =>
      rw [free] at ran
      cases ran
    | some found =>
      rw [free] at ran
      cases ran
      obtain ⟨zero, later, earlier, split, busy⟩ := find?_eq_some_iff_append.mp free
      refine .inr ⟨missed, of_decide_eq_true zero, fun a unused => ?_, rfl⟩
      -- The buffers after the one found are in use, so another one comes before it.
      have whole : order = earlier.reverse ++ b :: later.reverse := by
        rw [← reverse_reverse order, split]
        simp
      have mem := all a
      rw [whole] at mem sorted
      rcases mem_append.mp mem with pre | after
      · exact (pairwise_append.mp sorted).2.2 a pre b mem_cons_self
      rcases mem_cons.mp after with rfl | after
      · exact le_rfl
      · have used := busy a (mem_reverse.mp after)
        rw [show Bcache.unused _ = true from decide_eq_true unused] at used
        cases used

structure Same (s s' : State) : Prop where
  next : s'.cache.next = s.cache.next
  prev : s'.cache.prev = s.cache.prev
  released : s'.released = s.released
  block : ∀ a, (s'.cache.buf a).dev = (s.cache.buf a).dev ∧
    (s'.cache.buf a).blockno = (s.cache.buf a).blockno

theorem Same.refl (s : State) : Same s s :=
  ⟨rfl, rfl, rfl, fun _ => ⟨rfl, rfl⟩⟩

theorem Same.setBuf (s : State) (b : Fin NBUF) (new : Buf) (dev : new.dev = (s.cache.buf b).dev)
    (blockno : new.blockno = (s.cache.buf b).blockno) :
    Same s ⟨s.cache.setBuf b new, s.released⟩ := by
  refine ⟨rfl, rfl, rfl, fun a => ?_⟩
  by_cases same : a = b
  · subst same
    rw [Bcache.setBuf_buf_self]
    exact ⟨dev, blockno⟩
  · rw [Bcache.setBuf_buf_of_ne _ new same]
    exact ⟨rfl, rfl⟩

theorem Sound.same (sound : Sound s) (same : Same s s') : Sound s' where
  linked := by
    obtain ⟨order, linked, all, sorted⟩ := sound.linked
    refine ⟨order, ?_, all, ?_⟩
    · unfold Bcache.Linked
      rw [same.next, same.prev]
      exact linked
    · rw [same.released]
      exact sorted
  unique := by
    intro a b
    rw [(same.block a).1, (same.block a).2, (same.block b).1, (same.block b).2]
    exact sound.unique a b

/-- What a step does to links and blocks: nothing, or an unused buffer gets a block that was
not cached, or a count is lowered by `brelse`. -/
theorem step_cases (sound : Sound s) (stepped : step s event = .ok s') : Same s s' ∨
    (∃ dev blockno b, (∀ a, ¬((s.cache.buf a).dev = dev ∧ (s.cache.buf a).blockno = blockno)) ∧
      (s.cache.buf b).refcnt = 0 ∧
      s' = ⟨s.cache.setBuf b { s.cache.buf b with
        dev := dev, blockno := blockno, valid := false, refcnt := 1 }, s.released⟩) ∨
    ∃ b, s' = ⟨s.cache.brelse b,
      if (s.cache.buf b).refcnt - 1 = 0 then b :: s.released else s.released⟩ := by
  cases event with
  | bget dev blockno =>
    obtain ⟨⟨b, cache⟩, ran, rfl⟩ := of_map_eq_ok stepped
    obtain ⟨-, -, rfl⟩ | ⟨missed, zero, -, rfl⟩ := sound.bget_cases ran
    · exact .inl (.setBuf s b _ rfl rfl)
    · exact .inr (.inl ⟨dev, blockno, b, missed, zero, rfl⟩)
  | acquiresleep p b =>
    cases stepped
    unfold Bcache.acquiresleep
    by_cases free : (s.cache.buf b).lock = none
    · rw [if_pos free]
      exact .inl (.setBuf s b _ rfl rfl)
    · rw [if_neg free]
      exact .inl (.refl s)
  | releasesleep p b =>
    obtain ⟨cache, ran, rfl⟩ := of_map_eq_ok stepped
    unfold Bcache.releasesleep at ran
    by_cases held : (s.cache.buf b).lock = some p
    · rw [if_pos held] at ran
      cases ran
      exact .inl (.setBuf s b _ rfl rfl)
    · rw [if_neg held] at ran
      cases ran
  | brelse b =>
    cases stepped
    exact .inr (.inr ⟨b, rfl⟩)
  | bpin b | bunpin b =>
    cases stepped
    exact .inl (.setBuf s b _ rfl rfl)

theorem Sound.reassign (sound : Sound s) {dev blockno : BitVec 32} {new : Buf}
    (missed : ∀ a, ¬((s.cache.buf a).dev = dev ∧ (s.cache.buf a).blockno = blockno))
    (hasDev : new.dev = dev) (hasBlock : new.blockno = blockno) :
    Sound ⟨s.cache.setBuf b new, s.released⟩ := by
  refine ⟨sound.linked, fun x y => ?_⟩
  by_cases first : x = b
  · by_cases second : y = b
    · exact fun _ _ _ => first.trans second.symm
    · subst first
      rw [Bcache.setBuf_buf_self, Bcache.setBuf_buf_of_ne _ _ second, hasDev, hasBlock]
      exact fun _ equal equal' => absurd ⟨equal.symm, equal'.symm⟩ (missed y)
  by_cases second : y = b
  · subst second
    rw [Bcache.setBuf_buf_self, Bcache.setBuf_buf_of_ne _ _ first, hasDev, hasBlock]
    exact fun _ equal equal' => absurd ⟨equal, equal'⟩ (missed x)
  · rw [Bcache.setBuf_buf_of_ne _ _ first, Bcache.setBuf_buf_of_ne _ _ second]
    exact sound.unique x y

theorem brelse_buf (c : Bcache) (b : Fin NBUF) :
    (c.brelse b).buf = (c.setBuf b { c.buf b with refcnt := (c.buf b).refcnt - 1 }).buf := by
  unfold Bcache.brelse
  dsimp only
  split
  · rw [Bcache.insert_buf, Bcache.remove_buf]
  · rfl

section

variable (sound : Sound s)

include sound

/-- A buffer whose count drops to zero becomes the first of the order. -/
theorem Sound.brelse (b : Fin NBUF) : Sound ⟨s.cache.brelse b,
      if (s.cache.buf b).refcnt - 1 = 0 then b :: s.released else s.released⟩ := by
  have plain := sound.same (.setBuf s b
    { s.cache.buf b with refcnt := (s.cache.buf b).refcnt - 1 } rfl rfl)
  unfold Bcache.brelse
  dsimp only
  rw [Bcache.setBuf_buf_self]
  by_cases zero : (s.cache.buf b).refcnt - 1 = 0
  · rw [if_pos zero, if_pos zero]
    refine ⟨?_, plain.unique⟩
    obtain ⟨order, linked, all, sorted⟩ := plain.linked
    refine ⟨b :: order.erase b, (linked.remove (all b)).insert linked.nodup.not_mem_erase,
      fun a => ?_, pairwise_cons.mpr ⟨fun a _ => ?_, ?_⟩⟩
    · by_cases same : a = b
      · exact same ▸ mem_cons_self
      · exact mem_cons_of_mem _ ((mem_erase_of_ne same).mpr (all a))
    · rw [idxOf_cons_self]
      exact Nat.zero_le _
    refine (sorted.sublist erase_sublist).imp_of_mem fun {x y} first second le => ?_
    have other z (lt : z ∈ order.erase b) : b ≠ z := by
      rintro rfl
      exact linked.nodup.not_mem_erase lt
    rw [idxOf_cons_ne _ (other x first), idxOf_cons_ne _ (other y second)]
    exact Nat.succ_le_succ le
  · rw [if_neg zero, if_neg zero]
    exact plain

theorem step_sound (stepped : step s event = .ok s') : Sound s' := by
  obtain same | ⟨dev, blockno, b, missed, -, rfl⟩ | ⟨b, rfl⟩ := step_cases sound stepped
  · exact sound.same same
  · exact sound.reassign missed rfl rfl
  · exact sound.brelse b

theorem step_keeps (stepped : step s event = .ok s') {a : Fin NBUF}
    (used : (s.cache.buf a).refcnt ≠ 0) :
    (s'.cache.buf a).dev = (s.cache.buf a).dev ∧
      (s'.cache.buf a).blockno = (s.cache.buf a).blockno := by
  obtain same | ⟨dev, blockno, b, -, zero, rfl⟩ | ⟨b, rfl⟩ := step_cases sound stepped
  · exact same.block a
  · have ne : a ≠ b := by
      rintro rfl
      exact used zero
    rw [Bcache.setBuf_buf_of_ne _ _ ne]
    exact ⟨rfl, rfl⟩
  · rw [brelse_buf]
    exact (Same.setBuf s b { s.cache.buf b with refcnt := (s.cache.buf b).refcnt - 1 } rfl
      rfl).block a

theorem step_ends {panic : Panic} (stepped : step s event = .error panic) : panic ≠ .outOfFuel := by
  cases event with
  | bget dev blockno =>
    obtain ⟨order, linked, -, -⟩ := sound.linked
    change (s.cache.bget dev blockno).map _ = _ at stepped
    rw [linked.bget] at stepped
    rintro rfl
    cases hit : order.find? fun b => Bcache.holds dev blockno (s.cache.buf b) with
    | some b =>
      rw [hit] at stepped
      cases stepped
    | none =>
      rw [hit] at stepped
      cases free : order.reverse.find? fun b => Bcache.unused (s.cache.buf b) with
      | some | none =>
        rw [free] at stepped
        cases stepped
  | releasesleep p b =>
    change (s.cache.releasesleep p b).map _ = _ at stepped
    unfold Bcache.releasesleep at stepped
    by_cases held : (s.cache.buf b).lock = some p
    · rw [if_pos held] at stepped
      cases stepped
    · rw [if_neg held] at stepped
      cases stepped
      nofun
  | acquiresleep | brelse | bpin | bunpin => cases stepped

theorem Sound.bget_hit (nonzero : (s.cache.buf b).dev ≠ 0) :
    s.cache.bget (s.cache.buf b).dev (s.cache.buf b).blockno =
      .ok (b, s.cache.setBuf b { s.cache.buf b with refcnt := (s.cache.buf b).refcnt + 1 }) := by
  obtain ⟨order, linked, all, -⟩ := sound.linked
  rw [linked.bget]
  cases hit : order.find? fun a =>
      Bcache.holds (s.cache.buf b).dev (s.cache.buf b).blockno (s.cache.buf a) with
  | none => exact absurd (decide_eq_true ⟨rfl, rfl⟩) (find?_eq_none.mp hit b (all b))
  | some a =>
    have found : Bcache.holds (s.cache.buf b).dev (s.cache.buf b).blockno (s.cache.buf a) = true :=
      find?_some (p := fun a =>
        Bcache.holds (s.cache.buf b).dev (s.cache.buf b).blockno _) hit
    have here := of_decide_eq_true found
    obtain rfl : b = a := sound.unique b a nonzero here.1.symm here.2.symm
    rfl

end

/-- In every run of the cache the loops end, and in every state that it reaches: the links
form one cycle through the head and all buffers; buffers of a device hold different
blocks; a step leaves the block of a buffer in use; a cached block is found; and a block
that is not cached gets the unused buffer whose release to zero is the oldest, or that has
none. -/
theorem cache_representation (events : List Event) : run step start events ≠ .error .outOfFuel ∧
    ∀ s, run step start events = .ok s →
      (∃ order : List (Fin NBUF), Ring s.cache.next s.cache.prev .head (order.map .buf) ∧
        order.length = NBUF ∧ ∀ b, b ∈ order) ∧
      (∀ a b, (s.cache.buf a).dev ≠ 0 → (s.cache.buf a).dev = (s.cache.buf b).dev →
        (s.cache.buf a).blockno = (s.cache.buf b).blockno → a = b) ∧
      (∀ event s', step s event = .ok s' → ∀ b, (s.cache.buf b).refcnt ≠ 0 →
        (s'.cache.buf b).dev = (s.cache.buf b).dev ∧
          (s'.cache.buf b).blockno = (s.cache.buf b).blockno) ∧
      (∀ b, (s.cache.buf b).dev ≠ 0 → s.cache.bget (s.cache.buf b).dev (s.cache.buf b).blockno =
          .ok (b, s.cache.setBuf b { s.cache.buf b with refcnt := (s.cache.buf b).refcnt + 1 })) ∧
      ∀ dev blockno b cache,
        (∀ a, ¬((s.cache.buf a).dev = dev ∧ (s.cache.buf a).blockno = blockno)) →
        s.cache.bget dev blockno = .ok (b, cache) →
        (s.cache.buf b).refcnt = 0 ∧
          (∀ a, (s.cache.buf a).refcnt = 0 → s.released.idxOf a ≤ s.released.idxOf b) ∧
          cache = s.cache.setBuf b { s.cache.buf b with
            dev := dev, blockno := blockno, valid := false, refcnt := 1 } := by
  have stable s event (sound : Sound s) (_ : True) :
      (∃ next, step s event = .ok next ∧ Sound next) ∨
        ∃ panic, step s event = .error panic ∧ panic ≠ Panic.outOfFuel := by
    cases stepped : step s event with
    | ok next => exact .inl ⟨next, rfl, step_sound sound stepped⟩
    | error panic => exact .inr ⟨panic, rfl, step_ends sound stepped⟩
  obtain ⟨final, ran, sound⟩ | ⟨panic, ran, ends⟩ :=
    run_outcome stable start_sound (Meets.of_forall (fun _ _ => True.intro) start events)
  · rw [ran]
    refine ⟨nofun, fun s same => ?_⟩
    cases same
    obtain ⟨order, linked, all, -⟩ := sound.linked
    refine ⟨⟨order, linked, ?_, all⟩, sound.unique, fun event s' stepped b used =>
      step_keeps sound stepped used, fun b nonzero => sound.bget_hit nonzero, ?_⟩
    · refine Nat.le_antisymm ?_ ?_
      · exact linked.nodup.length_le_card.trans_eq (Fintype.card_fin NBUF)
      · have whole := (nodup_finRange NBUF).subperm fun b _ => all b
        exact (length_finRange).symm.trans_le whole.length_le
    · intro dev blockno b cache missed got
      obtain ⟨here, here', -⟩ | ⟨-, zero, oldest, result⟩ := sound.bget_cases got
      · exact absurd ⟨here, here'⟩ (missed b)
      · exact ⟨zero, oldest, result⟩
  · rw [ran]
    exact ⟨fun same => ends (Except.error.inj same), nofun⟩

/-- Two blocks are read and released, the second one first; the third block takes the place
of neither. -/
def twoReleased : List Event :=
  [.bget 1 5, .acquiresleep 1 0, .bget 1 6, .acquiresleep 1 1, .releasesleep 1 1, .brelse 1,
    .releasesleep 1 0, .brelse 0, .bget 1 7]

theorem cache_representation_two_released :
    ∃ s, run step start twoReleased = .ok s ∧ (s.cache.buf 0).dev = 1 ∧ s.released = [0, 1] ∧
      s.cache.bget 1 5 = .ok (0, s.cache.setBuf 0
        { s.cache.buf 0 with refcnt := (s.cache.buf 0).refcnt + 1 }) := by
  have checked : (run step start twoReleased).map (fun s =>
      decide ((s.cache.buf 0).dev = 1 ∧ (s.cache.buf 0).blockno = 5 ∧ s.released = [0, 1])) =
        .ok true := by
    decide +kernel
  obtain ⟨s, ran, facts⟩ := of_map_eq_ok checked
  obtain ⟨dev, blockno, released⟩ := of_decide_eq_true facts
  obtain ⟨-, -, -, hit, -⟩ := (cache_representation twoReleased).2 s ran
  refine ⟨s, ran, dev, released, ?_⟩
  have found := hit 0 (by rw [dev]; decide)
  rwa [dev, blockno] at found

/-- Buffers that were never used all hold block 0 of device 0. -/
theorem unused_buffers_equal :
    ∃ s, run step start [.bget 1 5] = .ok s ∧ (s.cache.buf 1).dev = (s.cache.buf 2).dev ∧
      (s.cache.buf 1).blockno = (s.cache.buf 2).blockno := by
  have checked : (run step start [.bget 1 5]).map (fun s =>
      decide ((s.cache.buf 1).dev = (s.cache.buf 2).dev ∧
        (s.cache.buf 1).blockno = (s.cache.buf 2).blockno)) = .ok true := by
    decide +kernel
  obtain ⟨s, ran, facts⟩ := of_map_eq_ok checked
  exact ⟨s, ran, of_decide_eq_true facts⟩

end Xv6Rv32im.Bio
