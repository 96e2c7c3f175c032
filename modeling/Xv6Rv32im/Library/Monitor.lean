import Mathlib.Data.List.Induction

/-!
# Monitors

Callers share data under a lock.  A caller that has the lock does a piece of its call: it
returns, or it sleeps and gives up the lock.  Handlers take the lock too, but do not sleep.  Who
is woken has to take the lock again and goes on with its call.
-/

namespace Xv6Rv32im.Library.Monitor

open Function

/-- After a piece of a call: the data, whether those asleep were woken, and what is left of the
call if the caller sleeps. -/
structure Piece (σ κ : Type*) where
  data : σ
  wakes : Bool
  left : Option κ

/-- The pieces of calls and the handlers.  A piece sees `ω` of the world outside. -/
structure Ops (ι σ κ ω ε : Type*) where
  serve : ι → κ → ω → σ → Piece σ κ
  handle : ε → σ → σ × Bool

inductive Caller (κ : Type*) where
  | idle
  | ready (call : κ)
  | asleep (call : κ)

structure State (ι σ κ : Type*) where
  data : σ
  callers : ι → Caller κ

inductive Event (ι κ ω ε : Type*) where
  | call (p : ι) (call : κ) (seen : ω)
  | resume (p : ι) (seen : ω)
  | wake (p : ι)
  | handle (event : ε)

variable {ι σ κ ω ε : Type*} [DecidableEq ι]

def Caller.wakeup (wakes : Bool) : Caller κ → Caller κ
  | .asleep call => if wakes then .ready call else .asleep call
  | caller => caller

namespace State

variable (ops : Ops ι σ κ ω ε) (s : State ι σ κ)

def serve (p : ι) (call : κ) (seen : ω) : State ι σ κ :=
  let piece := ops.serve p call seen s.data
  ⟨piece.data, update (fun q => (s.callers q).wakeup piece.wakes) p
    (piece.left.elim .idle .asleep)⟩

def step : Event ι κ ω ε → State ι σ κ
  | .call p call seen =>
    match s.callers p with
    | .idle => s.serve ops p call seen
    | _ => s
  | .resume p seen =>
    match s.callers p with
    | .ready call => s.serve ops p call seen
    | _ => s
  | .wake p => { s with callers := update s.callers p ((s.callers p).wakeup true) }
  | .handle event =>
    let (data, wakes) := ops.handle event s.data
    ⟨data, fun q => (s.callers q).wakeup wakes⟩

def run (data : σ) (events : List (Event ι κ ω ε)) : State ι σ κ :=
  events.foldl (step ops) ⟨data, fun _ => .idle⟩

end State

/-- The pieces keep `Inv`, and so do the handlers where they are allowed.  A caller sleeps only if
it is `blocked`, and nothing ends that without waking those asleep. -/
structure Rules (ops : Ops ι σ κ ω ε) (allowed : ε → σ → Prop) (Inv blocked : σ → Prop) :
    Prop where
  serve : ∀ p call seen data, Inv data → Inv (ops.serve p call seen data).data
  handle : ∀ event data, Inv data → allowed event data → Inv (ops.handle event data).1
  sleeps : ∀ p call seen data, Inv data → (ops.serve p call seen data).left ≠ none →
    blocked (ops.serve p call seen data).data
  served : ∀ p call seen data, Inv data → blocked data →
    (ops.serve p call seen data).wakes = false → blocked (ops.serve p call seen data).data
  handled : ∀ event data, Inv data → blocked data → (ops.handle event data).2 = false →
    blocked (ops.handle event data).1

/-- The data keep `Inv`, and no one sleeps who is not blocked. -/
structure Keeps (Inv blocked : σ → Prop) (s : State ι σ κ) : Prop where
  data : Inv s.data
  asleep : ∀ p call, s.callers p = .asleep call → blocked s.data

variable {ops : Ops ι σ κ ω ε} {allowed : ε → σ → Prop} {Inv blocked : σ → Prop} {s : State ι σ κ}

theorem Caller.asleep_of_wakeup {wakes : Bool} {caller : Caller κ} {call : κ}
    (asleep : caller.wakeup wakes = .asleep call) : wakes = false ∧ caller = .asleep call := by
  cases caller with
  | idle => cases asleep
  | ready call' => cases asleep
  | asleep call' =>
    cases wakes with
    | true => cases asleep
    | false => exact ⟨rfl, asleep⟩

theorem Keeps.serve (keeps : Keeps Inv blocked s) (rules : Rules ops allowed Inv blocked)
    (p : ι) (call : κ) (seen : ω) : Keeps Inv blocked (s.serve ops p call seen) := by
  refine ⟨rules.serve p call seen _ keeps.data, fun q call' asleep => ?_⟩
  simp only [State.serve] at asleep ⊢
  -- the caller has gone to sleep, or another one was asleep before
  rcases eq_or_ne q p with rfl | other
  · rw [update_self] at asleep
    refine rules.sleeps q call seen _ keeps.data fun returns => ?_
    rw [returns] at asleep
    cases asleep
  · rw [update_of_ne other] at asleep
    obtain ⟨quiet, before⟩ := Caller.asleep_of_wakeup asleep
    exact rules.served p call seen _ keeps.data (keeps.asleep q call' before) quiet

theorem Keeps.step (keeps : Keeps Inv blocked s) (rules : Rules ops allowed Inv blocked)
    (event : Event ι κ ω ε) (may : ∀ e, event = .handle e → allowed e s.data) :
    Keeps Inv blocked (s.step ops event) := by
  cases event with
  | call p call seen =>
    simp only [State.step]
    split
    · exact keeps.serve rules p call seen
    · exact keeps
  | resume p seen =>
    simp only [State.step]
    split
    · exact keeps.serve rules p _ seen
    · exact keeps
  | wake p =>
    refine ⟨keeps.data, fun q call asleep => ?_⟩
    simp only [State.step] at asleep
    rcases eq_or_ne q p with rfl | other
    · rw [update_self] at asleep
      cases (Caller.asleep_of_wakeup asleep).1
    · rw [update_of_ne other] at asleep
      exact keeps.asleep q call asleep
  | handle event =>
    refine ⟨rules.handle event _ keeps.data (may event rfl), fun q call asleep => ?_⟩
    obtain ⟨quiet, before⟩ := Caller.asleep_of_wakeup asleep
    exact rules.handled event _ keeps.data (keeps.asleep q call before) quiet

/-- No wakeup is lost in any run whose handlers are allowed where they are called. -/
theorem run_keeps (rules : Rules ops allowed Inv blocked) {data : σ} (start : Inv data)
    {events : List (Event ι κ ω ε)} (may : ∀ before event after,
      events = before ++ .handle event :: after → allowed event (State.run ops data before).data) :
    Keeps Inv blocked (State.run ops data events) := by
  induction events using List.reverseRecOn with
  | nil => exact ⟨start, fun _ _ asleep => nomatch asleep⟩
  | append_singleton before event ih =>
    rw [State.run, List.foldl_append]
    refine (ih fun pre e after here => ?_).step rules event fun e here => ?_
    · exact may pre e (after ++ [event]) (by simp [here])
    · exact may before e [] (by rw [here])

end Xv6Rv32im.Library.Monitor
