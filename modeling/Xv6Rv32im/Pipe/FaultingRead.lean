import Xv6Rv32im.Pipe.Model

/-!
# A reader whose memory faults

`piperead` from its copy loop on, under the lock, with the user memory that `copyout` fills.  The
counter is advanced before the copy, so the byte at which it fails is gone, and a failure at the
first byte reads as the end of the file.
-/

namespace Xv6Rv32im.Pipe.System

open Library.Ring Function

def copyout (user : UserMemory) (dst : BitVec 32) (ch : BitVec 8) : Option UserMemory :=
  if user dst = none then none else some (update user dst (some ch))

/-- The loop with a number of rounds left: `i` at its end, whether a `copyout` failed, and the pipe
and the memory then. -/
def copyLoop (addr : BitVec 32) : Nat → Nat → System → UserMemory →
    Nat × Bool × System × UserMemory
  | 0, i, s, user => (i, false, s, user)
  | rounds + 1, i, s, user =>
    if s.nread = s.nwrite then (i, false, s, user)
    else
      let ch := s.data (slot PIPESIZE s.nread)
      match copyout user (addr + BitVec.ofNat 32 i) ch with
      | none => (i, true, s.take, user)
      | some user => copyLoop addr rounds (i + 1) s.take user

/-- The result of `piperead`, whether a `copyout` failed, and the pipe and the memory after it. -/
def pipereadCopy (s : System) (user : UserMemory) (addr n : BitVec 32) :
    BitVec 32 × Bool × System × UserMemory :=
  let (i, failed, s, user) := copyLoop addr n.toInt.toNat 0 s user
  (BitVec.ofNat 32 i, failed, s.wakeup .nwrite, user)

def filled (user : UserMemory) (addr : BitVec 32) (i : Nat) : List (BitVec 8) → UserMemory
  | [] => user
  | ch :: rest => filled (update user (addr + BitVec.ofNat 32 i) (some ch)) addr (i + 1) rest

/-- The bytes removed are those delivered, and the result is their number, or -1 where a `copyout`
failed at the first. -/
def LosesNothing (s : System) (user : UserMemory) (addr n : BitVec 32) : Prop :=
  let (ret, failed, s', user') := s.pipereadCopy user addr n
  ∃ delivered, s'.removed = s.removed ++ delivered ∧ user' = filled user addr 0 delivered ∧
    ret = if failed ∧ delivered = [] then -1 else BitVec.ofNat 32 delivered.length

/-- What the loop removes and delivers: one byte more is removed where a `copyout` fails. -/
theorem copyLoop_spec (addr : BitVec 32) (rounds i : Nat) (s : System) (user : UserMemory) :
    ∃ j failed s' user' taken delivered, copyLoop addr rounds i s user = (j, failed, s', user') ∧
      j = i + delivered.length ∧ s'.removed = s.removed ++ taken ∧
      user' = filled user addr i delivered ∧
      (failed = false ∧ taken = delivered ∨ failed = true ∧ ∃ ch, taken = delivered ++ [ch]) := by
  induction rounds generalizing i s user with
  | zero => exact ⟨i, _, s, user, [], [], rfl, rfl, (List.append_nil _).symm, rfl, .inl ⟨rfl, rfl⟩⟩
  | succ rounds ih =>
    rw [copyLoop]
    split
    · exact ⟨i, _, s, user, [], [], rfl, rfl, (List.append_nil _).symm, rfl, .inl ⟨rfl, rfl⟩⟩
    dsimp only [copyout]
    split
    next => exact ⟨i, _, _, user, _, [], rfl, rfl, rfl, rfl, .inr ⟨rfl, _, rfl⟩⟩
    next user₁ copied =>
      obtain rfl := Option.some.inj (Option.ite_none_left_eq_some.mp copied).2
      obtain ⟨j, failed, s', user', taken, delivered, ran, count, removed, memory, either⟩ :=
        ih (i + 1) s.take (update user (addr + BitVec.ofNat 32 i) _)
      refine ⟨j, failed, s', user', _ :: taken, _ :: delivered, ran, ?_,
        removed.trans (List.append_assoc ..), memory, ?_⟩
      · rw [count, List.length_cons, Nat.add_assoc, Nat.add_comm 1]
      · rcases either with ⟨rfl, rfl⟩ | ⟨rfl, ch, rfl⟩
        · exact .inl ⟨rfl, rfl⟩
        · exact .inr ⟨rfl, ch, rfl⟩

/-- No `copyout` fails exactly if there is memory for the bytes that are in the pipe. -/
theorem copyLoop_fails_not (addr : BitVec 32) (rounds i : Nat) (s : System) (user : UserMemory) :
    (copyLoop addr rounds i s user).2.1 = false ↔ ∀ j < min rounds (s.nwrite - s.nread).toNat,
      user (addr + BitVec.ofNat 32 (i + j)) ≠ none := by
  induction rounds generalizing i s user with
  | zero => simp [copyLoop]
  | succ rounds ih =>
    rw [copyLoop]
    split
    next empty => simp [empty]
    next bytes =>
      have count : (s.nwrite - s.nread).toNat = (s.take.nwrite - s.take.nread).toNat + 1 := by
        change _ = (s.nwrite - (s.nread + 1)).toNat + 1
        bv_omega
      rw [count, Nat.add_min_add_right, Nat.forall_lt_succ_left]
      dsimp only [copyout]
      by_cases here : user (addr + BitVec.ofNat 32 i) = none
      · simp [here]
      rw [if_neg here, ih]
      refine Iff.trans (forall₂_congr fun j _ => not_congr ?_) (and_iff_right here).symm
      rw [update_apply, Nat.add_right_comm, Nat.add_assoc]
      split
      next same => simp [same, here]
      next => rfl

/-- A read loses nothing exactly if all of its destination that the bytes in the pipe would fill is
mapped. -/
theorem loses_nothing_iff (s : System) (user : UserMemory) (addr n : BitVec 32) :
    s.LosesNothing user addr n ↔ ∀ j < min n.toInt.toNat (s.nwrite - s.nread).toNat,
      user (addr + BitVec.ofNat 32 j) ≠ none := by
  have fails := copyLoop_fails_not addr n.toInt.toNat 0 s user
  simp only [Nat.zero_add] at fails
  rw [← fails]
  obtain ⟨j, failed, s', user', taken, delivered, ran, rfl, removed, memory, either⟩ :=
    copyLoop_spec addr n.toInt.toNat 0 s user
  unfold LosesNothing pipereadCopy
  rw [ran, Nat.zero_add]
  change (∃ d, s'.removed = _ ∧ _) ↔ failed = false
  rcases either with ⟨rfl, rfl⟩ | ⟨rfl, ch, rfl⟩
  · exact ⟨fun _ => rfl, fun _ => ⟨taken, removed, memory, (if_neg (nomatch ·.1)).symm⟩⟩
  refine ⟨fun ⟨d, removed', _, ret⟩ => ?_, nofun⟩
  obtain rfl := List.append_cancel_left (removed.symm.trans removed')
  -- the result counts the bytes delivered, one less than those removed
  rw [if_neg (by simp), List.length_append, BitVec.ofNat_add] at ret
  simp at ret

/-- One byte in the pipe and no memory to store it: the byte is gone and the call returns 0. -/
theorem faulting_read_returns_zero :
    (pipereadCopy { init with nwrite := 1 } (fun _ => none) 0 1).1 = 0 ∧
      (pipereadCopy { init with nwrite := 1 } (fun _ => none) 0 1).2.2.1.nread = 1 ∧
      ¬LosesNothing { init with nwrite := 1 } (fun _ => none) 0 1 := by
  refine ⟨by decide, by decide, ?_⟩
  rintro ⟨delivered, removed, -, ret⟩
  obtain rfl : delivered = [0] := removed.symm
  exact absurd ret (by decide)

end Xv6Rv32im.Pipe.System
