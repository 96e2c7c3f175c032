import Mathlib.Data.List.Range

/-!
# Runs of a machine that may fault

A machine is a step function that either yields the next state or faults.  A
run feeds it a list of events.  The invariant rules say once what an induction
over runs would say for each property.
-/

namespace Xv6Rv32im.Library.Run

variable {σ ε φ : Type*}

/-- Feed the events to the machine; the first fault ends the run. -/
def run (step : σ → ε → Except φ σ) : σ → List ε → Except φ σ
  | state, [] => .ok state
  | state, event :: rest =>
    match step state event with
    | .error fault => .error fault
    | .ok next => run step next rest

/-- Each event meets the condition in the state in which it occurs. -/
def Meets (step : σ → ε → Except φ σ) (condition : σ → ε → Prop) : σ → List ε → Prop
  | _, [] => True
  | state, event :: rest =>
    condition state event ∧ ∀ next, step state event = .ok next → Meets step condition next rest

instance Meets.decidable (step : σ → ε → Except φ σ) (condition : σ → ε → Prop)
    [∀ state event, Decidable (condition state event)] :
    (state : σ) → (events : List ε) → Decidable (Meets step condition state events)
  | _, [] => isTrue True.intro
  | state, event :: rest =>
    have : Decidable (∀ next, step state event = .ok next → Meets step condition next rest) :=
      match step state event with
      | .error _ => isTrue nofun
      | .ok next =>
        match Meets.decidable step condition next rest with
        | isTrue meets => isTrue fun _ same => Except.ok.inj same ▸ meets
        | isFalse fails => isFalse fun all => fails (all next rfl)
    inferInstanceAs (Decidable (_ ∧ _))

variable {step : σ → ε → Except φ σ} {condition : σ → ε → Prop} {Inv : σ → Prop} {events : List ε}
  {state : σ}

@[simp] theorem run_nil (state : σ) : run step state [] = .ok state :=
  rfl

theorem run_cons_ok {state next : σ} {event : ε} (rest : List ε)
    (stepped : step state event = .ok next) :
    run step state (event :: rest) = run step next rest := by
  rw [run, stepped]

/-- An invariant that every allowed step keeps holds wherever a run ends. -/
theorem run_invariant (stable : ∀ state event next, Inv state → condition state event →
      step state event = .ok next → Inv next) {state final : σ} (start : Inv state)
    (allowed : Meets step condition state events) (ran : run step state events = .ok final) :
    Inv final := by
  induction events generalizing state with
  | nil =>
    cases ran
    exact start
  | cons event rest ih =>
    obtain ⟨here, later⟩ := allowed
    rw [run] at ran
    cases stepped : step state event with
    | error fault =>
      rw [stepped] at ran
      cases ran
    | ok next =>
      rw [stepped] at ran
      exact ih (stable state event next start here stepped) (later next stepped) ran

/-- If every allowed step keeps the invariant or faults in a tolerated way, so does every run. -/
theorem run_outcome {Tolerated : φ → Prop}
    (stable : ∀ state event, Inv state → condition state event →
      (∃ next, step state event = .ok next ∧ Inv next) ∨
        ∃ fault, step state event = .error fault ∧ Tolerated fault) (start : Inv state)
    (allowed : Meets step condition state events) :
    (∃ final, run step state events = .ok final ∧ Inv final) ∨
      ∃ fault, run step state events = .error fault ∧ Tolerated fault := by
  induction events generalizing state with
  | nil => exact .inl ⟨state, rfl, start⟩
  | cons event rest ih =>
    obtain ⟨here, later⟩ := allowed
    obtain ⟨next, stepped, kept⟩ | ⟨fault, faulted, tolerated⟩ := stable state event start here
    · rw [run_cons_ok rest stepped]
      exact ih kept (later next stepped)
    · refine .inr ⟨fault, ?_, tolerated⟩
      rw [run, faulted]

/-- If no allowed step faults, a run of allowed events reaches a state. -/
theorem run_total (stable : ∀ state event, Inv state → condition state event →
      ∃ next, step state event = .ok next ∧ Inv next) (start : Inv state)
    (allowed : Meets step condition state events) :
    ∃ final, run step state events = .ok final ∧ Inv final := by
  have outcome : (∃ final, run step state events = .ok final ∧ Inv final) ∨
      ∃ fault, run step state events = .error fault ∧ False :=
    run_outcome (fun state event inv here => .inl (stable state event inv here)) start allowed
  exact outcome.resolve_right nofun

/-- A condition that always holds is met by every run. -/
theorem Meets.of_forall (always : ∀ state event, condition state event) (state : σ)
    (events : List ε) : Meets step condition state events := by
  induction events generalizing state with
  | nil => exact True.intro
  | cons event rest ih => exact ⟨always state event, fun next _ => ih next⟩

theorem Meets.mono {weaker : σ → ε → Prop}
    (implies : ∀ state event, condition state event → weaker state event)
    (meets : Meets step condition state events) : Meets step weaker state events := by
  induction events generalizing state with
  | nil => exact True.intro
  | cons event rest ih =>
    obtain ⟨here, later⟩ := meets
    exact ⟨implies _ _ here, fun next stepped => ih (later next stepped)⟩

/-- What follows a call that does not fault. -/
@[simp] theorem ok_bind {α β : Type} {φ : Type*} (value : α) (next : α → Except φ β) :
    (Except.ok value >>= next) = next value :=
  rfl

/-- A condition may be weakened with the help of an invariant. -/
theorem Meets.of_invariant {weaker : σ → ε → Prop}
    (stable : ∀ state event next, Inv state → condition state event →
      step state event = .ok next → Inv next)
    (implies : ∀ state event, Inv state → condition state event → weaker state event)
    (start : Inv state) (meets : Meets step condition state events) :
    Meets step weaker state events := by
  induction events generalizing state with
  | nil => exact True.intro
  | cons event rest ih =>
    obtain ⟨here, later⟩ := meets
    exact ⟨implies state event start here, fun next stepped =>
      ih (stable state event next start here stepped) (later next stepped)⟩

/-- A sequence of two calls that does not fault consists of two such calls. -/
theorem of_bind_eq_ok {α β : Type} {call : Except φ α} {next : α → Except φ β} {result : β}
    (known : (call >>= next) = .ok result) :
    ∃ value, call = .ok value ∧ next value = .ok result := by
  cases call with
  | error fault => cases known
  | ok value => exact ⟨value, rfl, known⟩

/-- A call whose result is known did not fault. -/
theorem of_map_eq_ok {α β : Type*} {call : Except φ α} {f : α → β} {result : β}
    (known : call.map f = .ok result) : ∃ value, call = .ok value ∧ f value = result := by
  cases call with
  | error fault => cases known
  | ok value => exact ⟨value, rfl, Except.ok.inj known⟩

/-! ## Counted loops -/

/-- The invariant rule for a loop over the first `count` numbers whose body does not fault. -/
theorem foldlM_range (body : σ → Nat → Except φ σ) (Inv : Nat → σ → Prop) (start : Inv 0 state)
    {bound : Nat}
    (round : ∀ i < bound, ∀ state, Inv i state → ∃ next, body state i = .ok next ∧ Inv (i + 1) next)
    {count : Nat} (lt : count ≤ bound) :
    ∃ final, (List.range count).foldlM body state = .ok final ∧ Inv count final := by
  induction count with
  | zero => exact ⟨state, rfl, start⟩
  | succ count ih =>
    obtain ⟨middle, ran, kept⟩ := ih (by omega)
    obtain ⟨final, stepped, kept'⟩ := round count lt middle kept
    refine ⟨final, ?_, kept'⟩
    rw [List.range_succ, List.foldlM_append, ran]
    change List.foldlM body middle [count] = Except.ok final
    rw [List.foldlM_cons, stepped]
    rfl

end Xv6Rv32im.Library.Run
