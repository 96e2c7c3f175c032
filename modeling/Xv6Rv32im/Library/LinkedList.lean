import Mathlib.Data.List.Nodup

/-!
# Singly linked lists in memory

A heap gives for each allocated node the link to the next one.  `Chain` says which nodes a list
that starts at some pointer passes through.
-/

namespace Xv6Rv32im.Library.LinkedList

open Function List

variable {α : Type*}

/-- The nodes from a pointer on, in the order of the links. -/
def Chain (link : α → Option (Option α)) : Option α → List α → Prop
  | none, [] => True
  | some p, q :: rest => p = q ∧ ∃ next, link p = some next ∧ Chain link next rest
  | _, _ => False

variable {link link' : α → Option (Option α)} {head : Option α} {p s : α} {l rest : List α}

theorem chain_none : Chain link none l ↔ l = [] := by
  cases l with
  | nil => exact ⟨fun _ => rfl, fun _ => True.intro⟩
  | cons p rest => exact ⟨False.elim, nofun⟩

theorem chain_some : Chain link (some p) l ↔
    ∃ next rest, l = p :: rest ∧ link p = some next ∧ Chain link next rest := by
  cases l with
  | nil =>
    constructor
    · exact False.elim
    · rintro ⟨next, rest, impossible, -⟩
      cases impossible
  | cons q rest =>
    constructor
    · rintro ⟨rfl, next, linked, chain⟩
      exact ⟨next, rest, rfl, linked, chain⟩
    · rintro ⟨next, rest', ⟨⟩, linked, chain⟩
      exact ⟨rfl, next, linked, chain⟩

theorem Chain.head_iff (chain : Chain link head l) : head = none ↔ l = [] := by
  cases head with
  | none => simpa [chain_none] using chain
  | some p =>
    obtain ⟨_, rest, rfl, -⟩ := chain_some.mp chain
    simp

/-- A list does not depend on the other nodes. -/
theorem Chain.congr (chain : Chain link head l) (same : ∀ p ∈ l, link' p = link p) :
    Chain link' head l := by
  induction l generalizing head with
  | nil =>
    cases head with
    | none => exact True.intro
    | some p => exact False.elim chain
  | cons q rest ih =>
    cases head with
    | none => exact False.elim chain
    | some p =>
      obtain ⟨rfl, next, linked, tail⟩ := chain
      refine ⟨rfl, next, ?_, ih tail fun r lt => same r (mem_cons_of_mem _ lt)⟩
      rw [same p mem_cons_self, linked]

theorem Chain.allocated (chain : Chain link head l) (lt : p ∈ l) : (link p).isSome = true := by
  induction l generalizing head with
  | nil => cases lt
  | cons q rest ih =>
    cases head with
    | none => exact False.elim chain
    | some r =>
      obtain ⟨rfl, next, linked, tail⟩ := chain
      rcases mem_cons.mp lt with rfl | later
      · rw [linked]
        rfl
      · exact ih tail later

/-- A node is linked behind the last one. -/
theorem Chain.extend {last new : α} (chain : Chain link head l) (nodup : l.Nodup)
    (ends : l.getLast? = some last) (same : ∀ p ∈ l, p ≠ last → link' p = link p)
    (linked : link' last = some (some new)) (fresh : link' new = some none) :
    Chain link' head (l ++ [new]) := by
  induction l generalizing head with
  | nil => cases ends
  | cons q rest ih =>
    cases head with
    | none => exact False.elim chain
    | some p =>
      obtain ⟨rfl, next, here, tail⟩ := chain
      obtain ⟨apart, distinct⟩ := nodup_cons.mp nodup
      cases rest with
      | nil =>
        obtain rfl := Option.some.inj ends
        exact ⟨rfl, some new, linked, rfl, none, fresh, True.intro⟩
      | cons r rest =>
        rw [getLast?_cons_cons] at ends
        have other : p ≠ last := fun is => apart (is ▸ mem_of_getLast? ends)
        refine ⟨rfl, next, (same p mem_cons_self other).trans here, ?_⟩
        exact ih tail distinct ends fun p later => same p (mem_cons_of_mem _ later)

section

variable [DecidableEq α]

theorem Chain.push (chain : Chain link head l) (new : p ∉ l) :
    Chain (update link p (some head)) (some p) (p :: l) := by
  refine ⟨rfl, head, update_self .., chain.congr fun q lt => ?_⟩
  refine update_of_ne ?_ ..
  rintro rfl
  exact new lt

theorem Chain.unlink {pre after : List α} {a : α} {next : Option α}
    (chain : Chain link head (pre ++ a :: s :: after)) (linked : link s = some next)
    (nodup : (pre ++ a :: s :: after).Nodup) :
    Chain (update link a (some next)) head (pre ++ a :: after) := by
  induction pre generalizing head with
  | nil =>
    cases head with
    | none => exact False.elim chain
    | some p =>
      obtain ⟨rfl, next', linked', tail⟩ := chain
      cases next' with
      | none => exact False.elim tail
      | some r =>
        obtain ⟨rfl, next'', linked'', tail'⟩ := tail
        rw [linked] at linked''
        cases linked''
        have distinct : p ∉ after := by
          intro lt
          exact (nodup_cons.mp nodup).1 (mem_cons_of_mem _ lt)
        refine ⟨rfl, next, update_self .., tail'.congr fun q lt => ?_⟩
        refine update_of_ne ?_ ..
        rintro rfl
        exact distinct lt
  | cons q pre ih =>
    cases head with
    | none => exact False.elim chain
    | some p =>
      obtain ⟨rfl, next', linked', tail⟩ := chain
      obtain ⟨fresh, nodup'⟩ := nodup_cons.mp nodup
      have ne : p ≠ a := by
        rintro rfl
        exact fresh (mem_append_right _ mem_cons_self)
      refine ⟨rfl, next', ?_, ih tail nodup'⟩
      rw [update_of_ne ne, linked']

end

end Xv6Rv32im.Library.LinkedList
