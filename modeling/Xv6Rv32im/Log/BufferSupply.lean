import Xv6Rv32im.Log.GroupCommitSafety
import Xv6Rv32im.Process.Model

/-!
# The supply of buffers

A buffer is in use if a process holds it or waits for it, or if the current transaction
has pinned it.  `bget` finds a buffer as long as these are fewer than NBUF.  Processes
that read need no reservation in the log, so nothing keeps them below that number.
-/

namespace Xv6Rv32im.Log

open Library.Run Library.Shares List Cache

namespace Cache

variable {c c' : Cache} {users : Multiset Nat} {pinned : List Nat} {s b p : Nat}

/-! ## The list of buffers -/

theorem bget_lru (done : c.bget b = .ok (s, c')) : c'.lru = c.lru := by
  unfold bget at done
  split at done
  · cases done
    rfl
  split at done
  · cases done
    rfl
  · cases done

theorem bwrite_lru (done : c.bwrite p s = .ok c') : c'.lru = c.lru := by
  unfold bwrite at done
  split at done
  · cases done
  split at done
  · cases done
    rfl
  · cases done
    rfl

theorem brelse_lru (done : c.brelse p s = .ok c') :
    (c.buf s).lock ≠ none ∧ (c'.lru = c.lru ∨ c'.lru = s :: c.lru.erase s) := by
  unfold brelse at done
  dsimp only at done
  split at done
  · cases done
  next isHeld =>
    have locked : (c.buf s).lock ≠ none := by
      rw [not_not.mp isHeld]
      nofun
    cases done
    refine ⟨locked, ?_⟩
    split
    · exact .inr rfl
    · exact .inl rfl

/-! ## Counting -/

/-- The buffers in use are no more than the uses by processes and the pinned blocks. -/
theorem Ok.in_use_le (ok : c.Ok users pinned) (buffers : Finset Nat)
    (used : ∀ s ∈ buffers, (c.buf s).refcnt ≠ 0) : buffers.card ≤ users.card + pinned.length := by
  classical
  have cover : buffers ⊆ users.toFinset ∪
      buffers.filter fun s => ∃ b ∈ pinned, (c.buf s).blockno = some b := by
    intro s inside
    rw [Finset.mem_union, Multiset.mem_toFinset, Finset.mem_filter]
    by_cases byProcess : s ∈ users
    · exact .inl byProcess
    refine .inr ⟨inside, ?_⟩
    have counted := ok.counted s
    rw [Multiset.count_eq_zero_of_notMem byProcess, Nat.zero_add] at counted
    have pos : 0 < c.pins pinned s := Nat.pos_of_ne_zero (counted ▸ used s inside)
    obtain ⟨b, isPinned, block⟩ := countP_pos_iff.mp pos
    exact ⟨b, isPinned, of_decide_eq_true block⟩
  have blocks : (buffers.filter fun s => ∃ b ∈ pinned, (c.buf s).blockno = some b).card ≤
      pinned.toFinset.card := by
    refine Finset.card_le_card_of_injOn (fun s => ((c.buf s).blockno).getD 0) ?_ ?_
    · intro s inside
      obtain ⟨-, b, isPinned, block⟩ := Finset.mem_filter.mp inside
      dsimp only
      rw [block]
      exact mem_toFinset.mpr isPinned
    intro s inside s' inside' same
    obtain ⟨-, b, -, block⟩ := Finset.mem_filter.mp inside
    obtain ⟨-, b', -, block'⟩ := Finset.mem_filter.mp inside'
    dsimp only at same
    rw [block, block'] at same
    cases same
    exact ok.unique s s' b block block'
  calc buffers.card ≤ _ := Finset.card_le_card cover
    _ ≤ users.toFinset.card + _ := Finset.card_union_le ..
    _ ≤ users.card + pinned.length :=
        Nat.add_le_add users.toFinset_card_le (blocks.trans pinned.toFinset_card_le)

/-- `bget` succeeds while not all buffers are in use. -/
theorem Ok.bget_supplied (ok : c.Ok users pinned) (whole : c.lru.Perm (range NBUF))
    (room : users.card + pinned.length < NBUF) (b : Nat) : c.bget b ≠ .error .bgetNoBuffers := by
  intro dry
  have busy s (inside : s ∈ range NBUF) : (c.buf s).refcnt ≠ 0 := by
    intro zero
    unfold bget at dry
    split at dry
    · cases dry
    split at dry
    · cases dry
    next none =>
      have mem : s ∈ c.lru.reverse := mem_reverse.mpr (whole.mem_iff.mpr inside)
      exact find?_eq_none.mp none s mem (decide_eq_true zero)
  have all := ok.in_use_le (Finset.range NBUF) fun s inside =>
    busy s (mem_range.mpr (Finset.mem_range.mp inside))
  rw [Finset.card_range] at all
  omega

end Cache

namespace System

variable {k k' : System} {n p s b : Nat} {committer : Option Nat} {pinned : List Nat}
  {event : Event}

/-- The list of buffers is the same, or a buffer that was locked has moved to its front. -/
def Reorders (k k' : System) : Prop :=
  k'.cache.lru = k.cache.lru ∨
    ∃ s, (k.cache.buf s).lock ≠ none ∧ k'.cache.lru = s :: k.cache.lru.erase s

theorem Reorders.phase (reorders : k.Reorders k') (p : Nat) (phase : Phase) :
    k.Reorders (k'.setPhase p phase) :=
  reorders

theorem bget_reorders (done : k.bget p b = .ok k') : k.Reorders k' := by
  obtain ⟨s, c', found, rfl⟩ := bget_ok done
  exact .inl (bget_lru found)

theorem brelse_reorders (done : k.brelse p s = .ok k') : k.Reorders k' := by
  obtain ⟨c', released, rfl⟩ := bind_ok done
  obtain ⟨locked, same | moved⟩ := brelse_lru released
  · exact .inl same
  · exact .inr ⟨s, locked, moved⟩

theorem writeThrough_reorders {block : Block} (done : k.writeThrough p s block = .ok k') :
    k.Reorders k' := by
  obtain ⟨c', written, rfl⟩ := bind_ok done
  have same : c'.lru = (k.cache.setData s block).lru := bwrite_lru written
  exact .inl same

theorem lockThen_reorders (next : Nat → CommitPc) : k.Reorders (k.lockThen p next) := by
  unfold lockThen
  split
  · exact .inl rfl
  · split
    · exact .inl rfl
    · exact .inl rfl

theorem commitStep_reorders {pc : CommitPc} (here : (k.procs p).phase = .commit pc)
    (done : k.commitStep p pc = .ok k') : k.Reorders k' := by
  obtain ⟨k₁, phase, stepped, same, -⟩ | ⟨next, stepped⟩ | ⟨call, pc', stepped, called⟩ :=
    commitStep_cases here
  · cases stepped.symm.trans done
    exact .inl same
  · cases stepped.symm.trans done
    exact lockThen_reorders _
  obtain ⟨k₁, ran, rfl⟩ := bind_ok (stepped.symm.trans done)
  obtain ⟨b, rfl, -⟩ | ⟨s, block, rfl⟩ | ⟨s, rfl⟩ := called
  · exact (bget_reorders ran).phase _ _
  · exact (writeThrough_reorders ran).phase _ _
  · exact (brelse_reorders ran).phase _ _

theorem call_reorders (done : k.call p event = .ok k') : k.Reorders k' := by
  obtain ⟨p', b, rfl⟩ | ⟨p', s, rfl⟩ | ⟨_, failed, -⟩ | ⟨k₁, called, same, -⟩ :=
    call_cases k p event
  · exact bget_reorders done
  · exact brelse_reorders done
  · cases failed.symm.trans done
  · cases called.symm.trans done
    exact .inl same

theorem step_reorders (done : k.step event = .ok k') : k.Reorders k' := by
  rcases step_cases k event with ⟨p, pc, rfl, here, stepped⟩ | ⟨p, rfl, -, stepped⟩ |
    ⟨-, stepped⟩ | ⟨-, stepped⟩
  · exact commitStep_reorders here (stepped.symm.trans done)
  · rw [stepped] at done
    cases done
    unfold awake
    split
    · exact .inl rfl
    · split <;> exact .inl rfl
  · exact call_reorders (stepped.symm.trans done)
  · rw [stepped] at done
    cases done
    exact .inl rfl

theorem Inv.reorders (inv : k.Inv n committer pinned) (whole : k.cache.lru.Perm (range NBUF))
    (reorders : k.Reorders k') : k'.cache.lru.Perm (range NBUF) := by
  obtain same | ⟨s, locked, moved⟩ := reorders
  · rw [same]
    exact whole
  have listed : s ∈ k.cache.lru :=
    inv.cache.listed s (inv.cache.named s (inv.cache.locked s locked).1)
  rw [moved]
  exact (perm_cons_erase listed).symm.trans whole

/-! ## Requests -/

/-- A step that finds no buffer is a request for a block. -/
theorem step_dry (failed : k.step event = .error .bgetNoBuffers) :
    ∃ b, k.requests event = some b ∧ k.cache.bget b = .error .bgetNoBuffers := by
  have noWrite (c : Cache) p s : c.bwrite p s ≠ .error .bgetNoBuffers := by
    intro failed
    unfold bwrite at failed
    split at failed
    · cases failed
    · split at failed <;> cases failed
  have noRelease (c : Cache) (p s : Nat) : c.brelse p s ≠ .error .bgetNoBuffers := by
    intro failed
    unfold Cache.brelse at failed
    dsimp only at failed
    split at failed <;> cases failed
  rcases step_cases k event with ⟨p, pc, rfl, here, stepped⟩ | ⟨p, rfl, -, stepped⟩ |
    ⟨-, stepped⟩ | ⟨-, stepped⟩
  · obtain ⟨_, _, moved, -⟩ | ⟨_, moved⟩ | ⟨call, _, moved, called⟩ := commitStep_cases here
    · cases moved.symm.trans (stepped.symm.trans failed)
    · cases moved.symm.trans (stepped.symm.trans failed)
    · have dry := bind_error (moved.symm.trans (stepped.symm.trans failed))
      obtain ⟨b, rfl, requested⟩ | ⟨s, block, rfl⟩ | ⟨s, rfl⟩ := called
      · exact ⟨b, requested, bind_error dry⟩
      · exact absurd (bind_error dry) (noWrite _ _ _)
      · exact absurd (bind_error dry) (noRelease _ _ _)
  · rw [stepped] at failed
    cases failed
  · obtain ⟨p, b, rfl⟩ | ⟨p, s, rfl⟩ | ⟨_, called, other⟩ | ⟨_, called, -⟩ :=
      call_cases k event.proc event
    · exact ⟨b, rfl, bind_error (stepped.symm.trans failed)⟩
    · exact absurd (bind_error (stepped.symm.trans failed)) (noRelease _ _ _)
    · cases called.symm.trans (stepped.symm.trans failed)
      exact absurd rfl other
    · cases called.symm.trans (stepped.symm.trans failed)
  · rw [stepped] at failed
    cases failed

/-! ## The property -/

/-- A block is requested while it is cached, or while the buffers that the processes hold or
wait for and the blocks of the transaction are fewer than NBUF. -/
def Supplied (n : Nat) (k : System) (event : Event) : Prop :=
  ∀ b ∈ k.requests event,
    (k.cache.lru.find? fun s => (k.cache.buf s).blockno = some b).isSome = true ∨
      (k.users n).card + k.lh.length < NBUF

instance (n : Nat) (k : System) (event : Event) : Decidable (Supplied n k event) :=
  inferInstanceAs (Decidable (∀ b ∈ k.requests event, _))

theorem Inv.pinned_length (inv : k.Inv n committer pinned) : pinned.length ≤ k.lh.length := by
  cases committer with
  | none => exact (congrArg length (inv.idle rfl)).le
  | some q =>
    obtain ⟨pc, -, here⟩ := inv.progress q rfl
    rw [here.pinned, length_drop]
    exact Nat.sub_le ..

/-- A step that is supplied does not run out of buffers. -/
theorem Inv.step_supplied (inv : k.Inv n committer pinned)
    (whole : k.cache.lru.Perm (range NBUF)) (supplied : Supplied n k event) :
    k.step event ≠ .error .bgetNoBuffers := by
  intro failed
  obtain ⟨b, requested, dry⟩ := step_dry failed
  obtain cached | room := supplied b requested
  · obtain ⟨s, found⟩ := Option.isSome_iff_exists.mp cached
    unfold Cache.bget at dry
    rw [found] at dry
    cases dry
  · have few := inv.pinned_length
    exact inv.cache.bget_supplied whole (by omega) b dry

/-- In every interleaving of `n` processes in which blocks that are not cached are requested
only while fewer than NBUF buffers are in use, `bget` does not run out of buffers. -/
theorem buffers_suffice (disk : Nat → Block) (start size n : Nat) (events : List Event)
    (calls : Meets step (fun k event => Calls n k event ∧ Supplied n k event)
      (init disk start size) events) :
    run step (init disk start size) events ≠ .error .bgetNoBuffers := by
  have stable (k : System) (event : Event) (inv : ∃ committer pinned, k.Inv n committer pinned ∧
        k.cache.lru.Perm (range NBUF))
      (allowed : Calls n k event ∧ Supplied n k event) :
      (∃ k', k.step event = .ok k' ∧ ∃ committer pinned, k'.Inv n committer pinned ∧
        k'.cache.lru.Perm (range NBUF)) ∨
      ∃ panic, k.step event = .error panic ∧ panic ≠ .bgetNoBuffers := by
    obtain ⟨committer, pinned, inv, whole⟩ := inv
    obtain ⟨call, supplied⟩ := allowed
    cases stepped : k.step event with
    | ok k' =>
      obtain ⟨-, committer', pinned', inv', -⟩ := step_kept inv call.1 call.2 stepped
      exact .inl ⟨k', rfl, committer', pinned', inv', inv.reorders whole (step_reorders stepped)⟩
    | error panic =>
      refine .inr ⟨panic, rfl, ?_⟩
      rintro rfl
      exact inv.step_supplied whole supplied stepped
  obtain ⟨k, ran, -⟩ | ⟨panic, ran, other⟩ :=
    run_outcome stable ⟨none, [], init_inv disk start size n, reverse_perm _⟩ calls
  · rw [ran]
    nofun
  · rw [ran]
    exact fun same => other (Except.error.inj same)

/-- Thirty processes wait for the disk with one block each, one of them releases its buffer,
and another process takes a new block. -/
def thirtyReaders : List Event :=
  ((range 30).map fun p => .bget p (100 + p)) ++ [.lock 0, .brelse 0 0, .bget 30 130]

theorem buffers_suffice_thirty_readers :
    Meets step (fun k event => Calls Process.NPROC k event ∧ Supplied Process.NPROC k event)
      (init (fun _ _ => 0) 2 30) thirtyReaders ∧
    run step (init (fun _ _ => 0) 2 30) thirtyReaders ≠ .error .bgetNoBuffers := by
  have calls : Meets step
      (fun k event => Calls Process.NPROC k event ∧ Supplied Process.NPROC k event)
      (init (fun _ _ => 0) 2 30) thirtyReaders := by
    decide +kernel
  exact ⟨calls, buffers_suffice _ _ _ _ _ calls⟩

/-- Thirty-one processes read files of their own; each has called `bread` for a data block
and waits for the disk, except the last one, whose `bget` finds all buffers in use. -/
theorem readers_exhaust_buffers : Meets step (Calls Process.NPROC) (init (fun _ _ => 0) 2 30)
      ((range 31).map fun p => .bget p (100 + p)) ∧
    run step (init (fun _ _ => 0) 2 30) ((range 31).map fun p => .bget p (100 + p)) =
      .error .bgetNoBuffers := by
  have calls : Meets step (Calls Process.NPROC) (init (fun _ _ => 0) 2 30)
      ((range 31).map fun p => .bget p (100 + p)) := by
    decide +kernel
  have ended : (match run step (init (fun _ _ => 0) 2 30)
      ((range 31).map fun p => .bget p (100 + p)) with
    | .error panic => decide (panic = .bgetNoBuffers)
    | .ok _ => false) = true := by
    decide +kernel
  refine ⟨calls, ?_⟩
  split at ended
  next panic failed => rw [failed, of_decide_eq_true ended]
  · cases ended

end System

end Xv6Rv32im.Log
