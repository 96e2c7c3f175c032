import Mathlib.Logic.Basic

/-!
# Weakest preconditions of programs with a state

A program changes a state and returns a value, or fails.  `wp` says what has to hold of a state so
that the program, started in it, returns in a state with the postcondition or fails in a tolerated
way.  The simp lemmas compute it backwards through a program.
-/

namespace Xv6Rv32im.Library.WeakestPre

variable {σ ε α β : Type}

/-- Started in `s`, the program ends with `post` or fails with `fails`. -/
def wp (program : StateT σ (Except ε) α) (post : α → σ → Prop) (fails : ε → Prop) (s : σ) : Prop :=
  match program s with
  | .ok (value, t) => post value t
  | .error error => fails error

variable {post : α → σ → Prop} {fails : ε → Prop} {s : σ}

@[simp] theorem wp_pure (value : α) :
    wp (pure value : StateT σ (Except ε) α) post fails s = post value s :=
  rfl

@[simp] theorem wp_bind (first : StateT σ (Except ε) β) (next : β → StateT σ (Except ε) α) :
    wp (first >>= next) post fails s =
      wp first (fun value => wp (next value) post fails) fails s := by
  unfold wp
  change (match (do let (value, t) ← first s; next value t) with
    | .ok (value, t) => post value t
    | .error error => fails error) = _
  cases first s with
  | error error => rfl
  | ok result => rfl

@[simp] theorem wp_get (post : σ → σ → Prop) :
    wp (get : StateT σ (Except ε) σ) post fails s = post s s :=
  rfl

@[simp] theorem wp_set (t : σ) (post : PUnit → σ → Prop) :
    wp (set t : StateT σ (Except ε) PUnit) post fails s = post ⟨⟩ t :=
  rfl

@[simp] theorem wp_modify (f : σ → σ) (post : PUnit → σ → Prop) :
    wp (modify f : StateT σ (Except ε) PUnit) post fails s = post ⟨⟩ (f s) :=
  rfl

@[simp] theorem wp_throw (error : ε) :
    wp (throw error : StateT σ (Except ε) α) post fails s = fails error :=
  rfl

@[simp] theorem wp_ite (condition : Prop) [Decidable condition]
    (first second : StateT σ (Except ε) α) :
    wp (if condition then first else second) post fails s =
      if condition then wp first post fails s else wp second post fails s := by
  split <;> rfl

/-- A weaker postcondition has a weaker precondition. -/
theorem wp_mono {program : StateT σ (Except ε) α} {post' : α → σ → Prop} {fails' : ε → Prop}
    (ends : wp program post fails s) (implies : ∀ value t, post value t → post' value t)
    (tolerates : ∀ error, fails error → fails' error) : wp program post' fails' s := by
  unfold wp at ends ⊢
  cases ran : program s with
  | error error =>
    rw [ran] at ends
    exact tolerates error ends
  | ok result =>
    rw [ran] at ends
    exact implies result.1 result.2 ends

theorem wp_ok {program : StateT σ (Except ε) α} {value : α} {t : σ}
    (ends : wp program post fails s) (ran : program s = .ok (value, t)) : post value t := by
  unfold wp at ends
  rw [ran] at ends
  exact ends

end Xv6Rv32im.Library.WeakestPre
