import Xv6Rv32im.Pipe.Model

/-!
# A pipe is a bounded queue

Whatever the callers do, the ring holds the bytes that were stored and not yet removed, and each
call stores the bytes of its buffer in their order.
-/

namespace Xv6Rv32im.Pipe

open Library.Ring Library.Run Function List

namespace System

variable {s s' : System} {p : Nat} {call : Call}

/-- The places in its buffer of the bytes that a call has stored. -/
def storedBy (s : System) (number : Nat) : List Nat :=
  (s.stored.filter fun entry => entry.number = number).map Stored.index

/-- The call of a process is one of `pipewrite` with these arguments. -/
def Writes (s : System) (p : Nat) (args : Args) : Prop :=
  ∃ pc, (s.procs p).call = .write args pc

structure Queue (s : System) : Prop where
  fifo : ∃ values, Holds PIPESIZE s.data s.nread s.nwrite values ∧
    s.stored.map Stored.byte = s.removed ++ values
  ordered : ∀ number, s.storedBy number = List.range (s.storedBy number).length
  numbered : ∀ entry ∈ s.stored, entry.number < s.calls
  progress : ∀ p args, s.Writes p args →
    args.number < s.calls ∧ (s.storedBy args.number).length = args.i
  distinct : ∀ p q args args', s.Writes p args → s.Writes q args' → args.number = args'.number →
    p = q

/-- A step that does not touch the ring and begins no call. -/
structure Quiet (s s' : System) : Prop where
  data : s'.data = s.data
  nread : s'.nread = s.nread
  nwrite : s'.nwrite = s.nwrite
  stored : s'.stored = s.stored
  removed : s'.removed = s.removed
  calls : s'.calls = s.calls
  writes : ∀ p args, s'.Writes p args → s.Writes p args

theorem Quiet.refl (s : System) : Quiet s s :=
  ⟨rfl, rfl, rfl, rfl, rfl, rfl, fun _ _ writes => writes⟩

theorem Quiet.trans {s'' : System} (first : Quiet s s') (second : Quiet s' s'') : Quiet s s'' where
  data := second.data.trans first.data
  nread := second.nread.trans first.nread
  nwrite := second.nwrite.trans first.nwrite
  stored := second.stored.trans first.stored
  removed := second.removed.trans first.removed
  calls := second.calls.trans first.calls
  writes := fun p args writes => first.writes p args (second.writes p args writes)

theorem writes_setProc {proc : Proc} (same : ∀ args pc, proc.call = .write args pc →
    s.Writes p args) (q : Nat) (args : Args) (writes : (s.setProc p proc).Writes q args) :
    s.Writes q args := by
  obtain ⟨pc, call⟩ := writes
  rcases eq_or_ne q p with rfl | other
  · simp only [setProc, update_self] at call
    exact same args pc call
  · simp only [setProc, update_of_ne other] at call
    exact ⟨pc, call⟩

theorem setProc_quiet {proc : Proc} (same : ∀ args pc, proc.call = .write args pc →
    s.Writes p args) : Quiet s (s.setProc p proc) :=
  ⟨rfl, rfl, rfl, rfl, rfl, rfl, writes_setProc same⟩

theorem wakeup_quiet (s : System) (chan : Chan) : Quiet s (s.wakeup chan) := by
  refine ⟨rfl, rfl, rfl, rfl, rfl, rfl, fun q args ⟨pc, call⟩ => ⟨pc, ?_⟩⟩
  simp only [wakeup] at call
  split at call
  · exact call
  · exact call

theorem acquire_quiet (same : ∀ args pc, call = .write args pc → s.Writes p args) :
    Quiet s (s.acquire p call) := by
  unfold acquire
  split
  · exact ⟨rfl, rfl, rfl, rfl, rfl, rfl, writes_setProc same⟩
  · exact .refl s

theorem leave_quiet (s : System) (p : Nat) (ret : BitVec 32) : Quiet s (s.leave p ret) :=
  ⟨rfl, rfl, rfl, rfl, rfl, rfl, writes_setProc fun _ _ call => nomatch call⟩

theorem sleep_quiet {chan : Chan} (same : ∀ args pc, call = .write args pc → s.Writes p args) :
    Quiet s (s.sleep p chan call) :=
  ⟨rfl, rfl, rfl, rfl, rfl, rfl, writes_setProc same⟩

section

variable (queue : s.Queue)

include queue

theorem Queue.quiet (quiet : Quiet s s') : s'.Queue := by
  have storedBy number : s'.storedBy number = s.storedBy number := by
    unfold System.storedBy
    rw [quiet.stored]
  constructor
  · rw [quiet.data, quiet.nread, quiet.nwrite, quiet.stored, quiet.removed]
    exact queue.fifo
  · intro number
    rw [storedBy]
    exact queue.ordered number
  · rw [quiet.stored, quiet.calls]
    exact queue.numbered
  · intro p args writes
    rw [storedBy, quiet.calls]
    exact queue.progress p args (quiet.writes p args writes)
  · intro p q args args' writes writes'
    exact queue.distinct p q args args' (quiet.writes p args writes) (quiet.writes q args' writes')

/-! ## Bytes go in and out -/

theorem Queue.put {args : Args} (writes : s.Writes p args)
    (room : s.nwrite ≠ s.nread + BitVec.ofNat 32 PIPESIZE) (ch : BitVec 8) :
    ((s.put args ch).setCall p (.write { args with i := args.i + 1 } .test)).Queue := by
  set s' := (s.put args ch).setCall p (.write { args with i := args.i + 1 } .test) with after
  obtain ⟨values, holds, bytes⟩ := queue.fifo
  obtain ⟨below, length⟩ := queue.progress p args writes
  have here args' (now : s'.Writes p args') : args' = { args with i := args.i + 1 } := by
    obtain ⟨pc, call⟩ := now
    simp only [after, setCall, setProc, update_self] at call
    cases call
    rfl
  have elsewhere q args' (other : q ≠ p) (now : s'.Writes q args') :
      s.Writes q args' := by
    obtain ⟨pc, call⟩ := now
    simp only [after, System.put, setCall, setProc, update_of_ne other] at call
    exact ⟨pc, call⟩
  have mine : s'.storedBy args.number = s.storedBy args.number ++ [args.i] := by
    simp [storedBy, after, System.put, setCall, setProc, filter_append]
  have others number (ne : number ≠ args.number) :
      s'.storedBy number = s.storedBy number := by
    simp [storedBy, after, System.put, setCall, setProc, filter_append, ne.symm]
  constructor
  · refine ⟨values ++ [ch], ?_, ?_⟩
    · have full := (holds.full_iff (by decide)).not.mp room
      exact holds.push (by decide) (by decide) (Nat.lt_of_le_of_ne holds.fits full) ch
    · simp [after, System.put, setCall, setProc, bytes]
  · intro number
    rcases eq_or_ne number args.number with rfl | ne
    · rw [mine, length_append, length_singleton, range_succ, ← queue.ordered, length]
    · rw [others number ne]
      exact queue.ordered number
  · intro entry mem
    rcases mem_append.mp mem with pre | last
    · exact queue.numbered entry pre
    · rw [mem_singleton.mp last]
      exact below
  · intro q args' now
    rcases eq_or_ne q p with rfl | other
    · rw [here args' now]
      refine ⟨below, ?_⟩
      rw [mine, length_append, length]
      rfl
    have pre := elsewhere q args' other now
    have ne : args'.number ≠ args.number := fun same =>
      other (queue.distinct q p args' args pre writes same)
    rw [others _ ne]
    exact queue.progress q args' pre
  · -- a call keeps its number when it goes on
    have number q args' (now : s'.Writes q args') :
        ∃ args'', s.Writes q args'' ∧ args''.number = args'.number := by
      rcases eq_or_ne q p with rfl | other
      · rw [here args' now]
        exact ⟨args, writes, rfl⟩
      · exact ⟨args', elsewhere q args' other now, rfl⟩
    intro q r args₁ args₂ now now' same
    obtain ⟨pre, writes₁, same₁⟩ := number q args₁ now
    obtain ⟨pre', writes₂, same₂⟩ := number r args₂ now'
    exact queue.distinct q r pre pre' writes₁ writes₂ (same₁.trans (same.trans same₂.symm))

theorem Queue.take (filled : s.nread ≠ s.nwrite) : s.take.Queue := by
  obtain ⟨values, holds, bytes⟩ := queue.fifo
  cases values with
  | nil => exact absurd (holds.empty_iff.mpr rfl) filled
  | cons first rest =>
    obtain ⟨byte, after⟩ := holds.pop (by decide)
    refine ⟨⟨rest, after, ?_⟩, queue.ordered, queue.numbered, queue.progress, queue.distinct⟩
    simp [System.take, byte, bytes]

/-- A call begins with a number of its own and nothing stored. -/
theorem Queue.enter
    (fresh : ∀ args pc, call = .write args pc → args.number = s.calls ∧ args.i = 0) :
    (s.enter p call).Queue := by
  unfold System.enter
  split
  · have pre q args
        (writes : { s.setCall p call with calls := s.calls + 1 }.Writes q args) :
        s.Writes q args ∨ q = p ∧ args.number = s.calls ∧ args.i = 0 := by
      obtain ⟨pc, is⟩ := writes
      rcases eq_or_ne q p with rfl | other
      · simp only [setCall, setProc, update_self] at is
        exact .inr ⟨rfl, fresh args pc is⟩
      · simp only [setCall, setProc, update_of_ne other] at is
        exact .inl ⟨pc, is⟩
    have unused : s.storedBy s.calls = [] := by
      refine map_eq_nil_iff.mpr (filter_eq_nil_iff.mpr fun entry mem same => ?_)
      have below := queue.numbered entry mem
      rw [of_decide_eq_true same] at below
      exact Nat.lt_irrefl _ below
    refine ⟨queue.fifo, queue.ordered, fun entry mem => ?_, fun q args writes => ?_,
      fun q r args args' writes writes' same => ?_⟩
    · exact Nat.lt_succ_of_lt (queue.numbered entry mem)
    · rcases pre q args writes with old | ⟨-, number, zero⟩
      · obtain ⟨below, length⟩ := queue.progress q args old
        exact ⟨Nat.lt_succ_of_lt below, length⟩
      · refine ⟨number ▸ Nat.lt_succ_self _, ?_⟩
        change (s.storedBy args.number).length = args.i
        rw [number, unused, zero]
        rfl
    · have apart {q} {args} (old : s.Writes q args) : args.number ≠ s.calls :=
        Nat.ne_of_lt (queue.progress q args old).1
      rcases pre q args writes with old | ⟨rfl, number, -⟩
      · rcases pre r args' writes' with old' | ⟨-, number', -⟩
        · exact queue.distinct q r args args' old old' same
        · exact absurd (same.trans number') (apart old)
      · rcases pre r args' writes' with old' | ⟨rfl, -⟩
        · exact absurd (same.symm.trans number) (apart old')
        · rfl
  · exact queue

/-! ## Every step -/

omit queue in
/-- A step of `pipewrite` stores the next byte of the buffer, or nothing. -/
theorem pipewrite_cases {args : Args} {pc : WritePc} (call : (s.procs p).call = .write args pc)
    (user : UserMemory) : Quiet s (s.pipewrite p user args pc) ∨
      pc = .room ∧ s.nwrite ≠ s.nread + BitVec.ofNat 32 PIPESIZE ∧
        ∃ ch, user (args.addr + BitVec.ofNat 32 args.i) = some ch ∧ s.pipewrite p user args pc =
          (s.put args ch).setCall p (.write { args with i := args.i + 1 } .test) := by
  have same pc' args' pc''
      (is : Call.write args pc' = .write args' pc'') : s.Writes p args' := by
    cases is
    exact ⟨pc, call⟩
  cases pc with
  | start | relock => exact .inl (acquire_quiet (same .test))
  | test =>
    unfold System.pipewrite
    dsimp only
    split
    · split
      · exact .inl (leave_quiet ..)
      · exact .inl (setProc_quiet (same .room))
    · exact .inl (setProc_quiet (same .finish))
  | room =>
    unfold System.pipewrite
    dsimp only
    split
    · have woken := wakeup_quiet s .nread
      refine .inl (woken.trans (setProc_quiet fun args' pc' is => ?_))
      cases is
      refine ⟨.room, ?_⟩
      simp only [wakeup]
      split
      · exact call
      · exact call
    next room =>
      split
      · exact .inl (setProc_quiet (same .finish))
      next ch mapped => exact .inr ⟨rfl, room, ch, mapped, rfl⟩
  | full => exact .inl (sleep_quiet (same .relock))
  | finish => exact .inl ((wakeup_quiet s .nread).trans (leave_quiet ..))

theorem Queue.pipewrite {args : Args} {pc : WritePc} (call : (s.procs p).call = .write args pc)
    (user : UserMemory) : (s.pipewrite p user args pc).Queue := by
  obtain quiet | ⟨-, room, ch, -, stores⟩ := pipewrite_cases call user
  · exact queue.quiet quiet
  · rw [stores]
    exact queue.put ⟨pc, call⟩ room ch

omit queue in
/-- A step of `piperead` removes the next byte of the ring, or nothing. -/
theorem piperead_cases (p : Nat) (user : UserMemory) (args : Args) (pc : ReadPc) :
    Quiet s (s.piperead p user args pc) ∨
      s.nread ≠ s.nwrite ∧ Quiet s.take (s.piperead p user args pc) := by
  have other args pc args' (pc' : WritePc)
      (is : Call.read args pc = .write args' pc') {s : System} : s.Writes p args' := nomatch is
  cases pc with
  | start | relock => exact .inl (acquire_quiet (other args .test · · ·))
  | test =>
    unfold System.piperead
    dsimp only
    split
    · split
      · exact .inl (leave_quiet ..)
      · exact .inl (setProc_quiet (other args .empty · · ·))
    · exact .inl (setProc_quiet (other args .copy · · ·))
  | empty => exact .inl (sleep_quiet (other args .relock · · ·))
  | copy =>
    unfold System.piperead
    dsimp only
    split
    · split
      · exact .inl (setProc_quiet (other args .finish · · ·))
      next filled =>
        refine .inr ⟨filled, ?_⟩
        split
        · exact setProc_quiet (other args .finish · · ·)
        · exact setProc_quiet (other _ .copy · · ·)
    · exact .inl (setProc_quiet (other args .finish · · ·))
  | finish => exact .inl ((wakeup_quiet s .nwrite).trans (leave_quiet ..))

theorem Queue.piperead (user : UserMemory) (args : Args) (pc : ReadPc) :
    (s.piperead p user args pc).Queue := by
  obtain quiet | ⟨filled, quiet⟩ := piperead_cases p user args pc
  · exact queue.quiet quiet
  · exact (queue.take filled).quiet quiet

omit queue in
theorem pipeclose_quiet (s : System) (p : Nat) (writable : Bool) :
    Quiet s (s.pipeclose p writable) := by
  unfold System.pipeclose
  split
  · split
    · have closed : Quiet s { s with writeopen := false } :=
        ⟨rfl, rfl, rfl, rfl, rfl, rfl, fun _ _ writes => writes⟩
      exact closed.trans ((wakeup_quiet _ .nread).trans (leave_quiet ..))
    · have closed : Quiet s { s with readopen := false } :=
        ⟨rfl, rfl, rfl, rfl, rfl, rfl, fun _ _ writes => writes⟩
      exact closed.trans ((wakeup_quiet _ .nwrite).trans (leave_quiet ..))
  · exact .refl s

theorem Queue.perform (event : Event) : (s.perform event).Queue := by
  cases event with
  | write p addr n =>
    refine queue.enter fun args pc is => ?_
    cases is
    exact ⟨rfl, rfl⟩
  | read | close => exact queue.enter fun args pc is => nomatch is
  | kill p => exact queue.quiet (setProc_quiet fun args pc call => ⟨pc, call⟩)
  | go p user =>
    change (s.go p user).Queue
    unfold System.go
    split
    · split
      · exact queue
      next args pc call => exact queue.pipewrite call user
      next args pc call => exact queue.piperead user args pc
      next writable call => exact queue.quiet (pipeclose_quiet s p writable)
    · exact queue

end

theorem init_queue : init.Queue where
  fifo := ⟨[], .nil PIPESIZE _ 0, rfl⟩
  ordered := fun _ => rfl
  numbered := fun _ mem => nomatch mem
  progress := fun _ _ ⟨_, call⟩ => nomatch call
  distinct := fun _ _ _ _ ⟨_, call⟩ => nomatch call

/-- The counters never differ by more than the size of the ring, the bytes removed are the first
ones of those stored, the others are in the ring, and each call of `pipewrite` has stored the bytes
of its buffer in order. -/
structure BoundedFifo (s : System) : Prop where
  bounded : (s.nwrite - s.nread).toNat ≤ PIPESIZE
  removed : s.removed <+: s.stored.map Stored.byte
  counted : s.stored.length = s.removed.length + (s.nwrite - s.nread).toNat
  ordered : ∀ number, s.storedBy number = List.range (s.storedBy number).length

theorem Queue.boundedFifo (queue : s.Queue) : s.BoundedFifo := by
  obtain ⟨values, holds, bytes⟩ := queue.fifo
  constructor
  · rw [holds.length]
    exact holds.fits
  · exact ⟨values, bytes.symm⟩
  · simpa [holds.length] using congrArg length bytes
  · exact queue.ordered

/-- What a step stores is the byte of user memory behind those that its call has stored.  It is
stored if there is room, a byte that is there is removed, and a call that is done returns how many
bytes it has stored. -/
structure Transfers (s : System) : Prop where
  stored : ∀ event, (s.perform event).stored = s.stored ∨
    ∃ p user args ch, event = .go p user ∧ (s.procs p).call = .write args .room ∧
      user (args.addr + BitVec.ofNat 32 (s.storedBy args.number).length) = some ch ∧
      (s.perform event).stored =
        s.stored ++ [⟨args.number, (s.storedBy args.number).length, ch⟩]
  stores : ∀ p user args, (s.procs p).sleeping = none → (s.procs p).call = .write args .room →
    s.nwrite ≠ s.nread + BitVec.ofNat 32 PIPESIZE →
    user (args.addr + BitVec.ofNat 32 (s.storedBy args.number).length) ≠ none →
    (s.perform (.go p user)).stored ≠ s.stored
  takes : ∀ p user args, (s.procs p).sleeping = none → (s.procs p).call = .read args .copy →
    (args.i : Int) < args.n.toInt → s.nread ≠ s.nwrite →
    (s.perform (.go p user)).removed ≠ s.removed
  returns : ∀ p user args, (s.procs p).sleeping = none → (s.procs p).call = .write args .finish →
    ((s.perform (.go p user)).procs p).call = .idle ∧
      ((s.perform (.go p user)).procs p).ret = BitVec.ofNat 32 (s.storedBy args.number).length

section

variable (queue : s.Queue)

include queue

theorem Queue.go_stored (p : Nat) (user : UserMemory) : (s.go p user).stored = s.stored ∨
    ∃ args ch, (s.procs p).call = .write args .room ∧
      user (args.addr + BitVec.ofNat 32 (s.storedBy args.number).length) = some ch ∧
      (s.go p user).stored =
        s.stored ++ [⟨args.number, (s.storedBy args.number).length, ch⟩] := by
  unfold go
  split
  · split
    · exact .inl rfl
    next args pc call =>
      obtain quiet | ⟨rfl, -, ch, mapped, stores⟩ := pipewrite_cases call user
      · exact .inl quiet.stored
      · rw [← (queue.progress p args ⟨_, call⟩).2] at mapped
        refine .inr ⟨args, ch, call, mapped, ?_⟩
        rw [stores, (queue.progress p args ⟨_, call⟩).2]
        rfl
    next args pc call =>
      obtain quiet | ⟨-, quiet⟩ := piperead_cases p user args pc
      · exact .inl quiet.stored
      · exact .inl quiet.stored
    next writable call => exact .inl (pipeclose_quiet s p writable).stored
  · exact .inl rfl

theorem Queue.transfers : s.Transfers := by
  constructor
  · intro event
    cases event with
    | go p user =>
      obtain same | ⟨args, ch, step⟩ := queue.go_stored p user
      · exact .inl same
      · exact .inr ⟨p, user, args, ch, rfl, step⟩
    | kill p => exact .inl rfl
    | _ =>
      left
      simp only [System.perform, System.enter]
      split <;> rfl
  · intro p user args awake call room mapped
    obtain ⟨ch, byte⟩ := Option.ne_none_iff_exists'.mp mapped
    rw [(queue.progress p args ⟨_, call⟩).2] at byte
    simp [System.perform, go, awake, call, System.pipewrite, room, byte, setCall, setProc,
      System.put]
  · intro p user args awake call more filled
    simp only [System.perform, go, awake, call, System.piperead, more, filled, if_true, if_false]
    split <;> simp [setCall, setProc, System.take]
  · intro p user args awake call
    rw [(queue.progress p args ⟨_, call⟩).2]
    simp [System.perform, go, awake, call, System.pipewrite, leave, setProc]

end

/-- Whatever the interleaving, a pipe is a bounded queue of bytes of the writers' memory. -/
theorem pipe_fifo (events : List Event) :
    ∃ s, run step init events = .ok s ∧ s.BoundedFifo ∧ s.Transfers := by
  have kept (s : System) event (queue : s.Queue) (_ : True) :
      ∃ next, s.step event = .ok next ∧ next.Queue := ⟨_, rfl, queue.perform event⟩
  obtain ⟨s, ran, queue⟩ :=
    run_total kept init_queue (Meets.of_forall (fun _ _ => trivial) _ events)
  exact ⟨s, ran, queue.boundedFifo, queue.transfers⟩

/-- One process writes two bytes while another one reads one. -/
def twoBytes : List Event :=
  let user : UserMemory := fun a => if a < 2 then some (a.setWidth 8 + 7) else none
  .write 0 0 2 :: .read 1 0 1 :: replicate 7 (.go 0 user) ++ replicate 5 (.go 1 user)

theorem pipe_fifo_two_bytes : ∃ s, run step init twoBytes = .ok s ∧ s.BoundedFifo ∧ s.Transfers ∧
    s.stored = [⟨0, 0, 7⟩, ⟨0, 1, 8⟩] ∧ s.removed = [7] ∧
      (s.procs 0).ret = 2 ∧ (s.procs 1).ret = 1 := by
  obtain ⟨s, ran, fifo, transfers⟩ := pipe_fifo twoBytes
  have seen : (run step init twoBytes).map (fun s =>
      (s.stored, s.removed, (s.procs 0).ret, (s.procs 1).ret)) =
      .ok ([⟨0, 0, 7⟩, ⟨0, 1, 8⟩], [7], 2, 1) := by decide
  rw [ran] at seen
  exact ⟨s, ran, fifo, transfers, by simpa using Except.ok.inj seen⟩

end System

end Xv6Rv32im.Pipe
