import Mathlib.Data.BitVec
import Xv6Rv32im.Library.LinkedList

/-!
# Queues

`queue_push` and `queue_pop` on one queue.  A caller of `queue_pop` frees the entry, as
`tcp_cb_clear` does.  What was pushed and what was popped is recorded.
-/

namespace Xv6Rv32im.Utils

open Library.LinkedList Function List

/-- `struct queue_entry`. -/
structure QueueEntry where
  data : BitVec 32
  size : BitVec 32
  next : Option Nat

/-- `struct queue_head` and the memory. -/
structure Queue where
  next : Option Nat
  tail : Option Nat
  num : BitVec 32
  mem : Nat → QueueEntry
  free : List Nat
  pushed : List (BitVec 32 × BitVec 32)
  popped : List (BitVec 32 × BitVec 32)

inductive QueueEvent where
  | push (data size : BitVec 32) (denied : Bool)
  | pop

namespace Queue

/-- The entry is filled, and linked behind `queue->tail` if there is one. -/
def linkTail (q : Queue) (entry : Nat) (new : QueueEntry) (p : Nat) : QueueEntry :=
  let mem := update q.mem entry new
  if q.tail = some p then { mem p with next := some entry } else mem p

/-- `queue_push`, which returns 0 if there is no data or `kalloc` is `denied` a page. -/
def queuePush (q : Queue) (data size : BitVec 32) (denied : Bool) : Queue :=
  if data = 0 ∨ denied then q
  else
    match q.free with
    | [] => q
    | entry :: free =>
      { next := if q.next = none then some entry else q.next
        tail := some entry
        num := q.num + 1
        mem := q.linkTail entry ⟨data, size, none⟩
        free := free
        pushed := q.pushed ++ [(data, size)]
        popped := q.popped }

/-- `queue_pop` and `kfree` of the entry. -/
def queuePop (q : Queue) : Queue :=
  match q.next with
  | none => q
  | some entry =>
    { q with
      next := (q.mem entry).next
      tail := if (q.mem entry).next = none then none else q.tail
      num := q.num - 1
      free := entry :: q.free
      popped := q.popped ++ [((q.mem entry).data, (q.mem entry).size)] }

def step (q : Queue) : QueueEvent → Queue
  | .push data size denied => q.queuePush data size denied
  | .pop => q.queuePop

/-- An empty queue, and `n` free pages. -/
def init (mem : Nat → QueueEntry) (n : Nat) : Queue := ⟨none, none, 0, mem, range n, [], []⟩

/-- The queue consists of these entries, the first to be popped first. -/
structure Lists (q : Queue) (n : Nat) (entries : List Nat) : Prop where
  chain : Chain (fun p => some (q.mem p).next) q.next entries
  tail : q.tail = entries.getLast?
  num : q.num = BitVec.ofNat 32 entries.length
  pages : (entries ++ q.free).Perm (range n)
  order : q.pushed = q.popped ++ entries.map fun p => ((q.mem p).data, (q.mem p).size)

variable {q : Queue} {n : Nat} {entries : List Nat}

section

variable (lists : q.Lists n entries)

include lists

theorem Lists.push (data size : BitVec 32) (denied : Bool) :
    ∃ entries, (q.queuePush data size denied).Lists n entries := by
  unfold queuePush
  split
  · exact ⟨entries, lists⟩
  split
  · exact ⟨entries, lists⟩
  next entry free is =>
    have apart : (entries ++ entry :: free).Nodup := (is ▸ lists.pages).nodup_iff.mpr nodup_range
    have new p (old : p ∈ entries) : p ≠ entry := fun same =>
      disjoint_of_nodup_append apart old (same ▸ mem_cons_self)
    have notLast : q.tail ≠ some entry := fun last =>
      new entry (mem_of_getLast? (lists.tail ▸ last)) rfl
    refine ⟨entries ++ [entry], ?_, by simp, ?_, ?_, ?_⟩
    · -- `queue->next` is set in an empty queue only
      cases ends : entries.getLast? with
      | none =>
        obtain rfl := getLast?_eq_none_iff.mp ends
        rw [if_pos (lists.chain.head_iff.mpr rfl)]
        exact ⟨rfl, none, by simp [linkTail, notLast], True.intro⟩
      | some last =>
        have some : entries ≠ [] := fun none => nomatch none ▸ ends
        rw [if_neg (mt lists.chain.head_iff.mp some)]
        refine lists.chain.extend apart.of_append_left ends (fun p old other => ?_) ?_ ?_
        · simp [linkTail, lists.tail, ends, other.symm, new p old]
        · simp [linkTail, lists.tail, ends]
        · simp [linkTail, notLast]
    · simp [lists.num, BitVec.ofNat_add]
    · simpa [is] using lists.pages
    · have kept p (old : p ∈ entries) :
          ((q.linkTail entry ⟨data, size, none⟩ p).data,
            (q.linkTail entry ⟨data, size, none⟩ p).size) = ((q.mem p).data, (q.mem p).size) := by
        unfold linkTail
        split <;> simp [new p old]
      rw [map_append, map_congr_left kept, lists.order]
      simp [linkTail, notLast]

theorem Lists.pop : ∃ entries, q.queuePop.Lists n entries := by
  unfold queuePop
  split
  · exact ⟨entries, lists⟩
  next entry next =>
    obtain ⟨rest, after, rfl, linked, chain⟩ := chain_some.mp (next ▸ lists.chain)
    obtain rfl := Option.some.inj linked
    refine ⟨after, chain, ?_, ?_, ?_, ?_⟩
    · cases after with
      | nil => rw [if_pos (chain.head_iff.mpr rfl), getLast?_nil]
      | cons second after =>
        rw [if_neg (mt chain.head_iff.mp (cons_ne_nil second after)), lists.tail,
          getLast?_cons_cons]
    · simp [lists.num, BitVec.ofNat_add]
    · refine Perm.trans ?_ lists.pages
      exact perm_middle
    · simpa using lists.order

theorem Lists.step (event : QueueEvent) :
    ∃ entries, (q.step event).Lists n entries := by
  cases event with
  | push data size denied => exact lists.push data size denied
  | pop => exact lists.pop

end

/-- After any pushes and pops, with any calls of `kalloc` failing, the queue is a list of the
entries that were pushed and not popped, in their order: `num` is its length, `tail` its last
entry, what was popped is what was pushed first, and every page is in the queue or free. -/
theorem queue_is_fifo (mem : Nat → QueueEntry) (n : Nat) (events : List QueueEvent) :
    ∃ entries, (events.foldl step (init mem n)).Lists n entries := by
  refine foldlRecOn (motive := fun q => ∃ entries, q.Lists n entries) events step ?_ ?_
  · exact ⟨[], True.intro, rfl, rfl, Perm.refl (range n), rfl⟩
  · rintro q ⟨entries, lists⟩ event -
    exact lists.step event

end Queue

end Xv6Rv32im.Utils
