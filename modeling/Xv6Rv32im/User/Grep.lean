import Mathlib.Computability.Language

/-!
# `grep`

A C string is the list of its characters, none of them NUL; the NUL at its end is the end of the
list.  The input has no NUL either.
-/

namespace Xv6Rv32im.Grep

open Computability Language List

variable {re line text w : List Char} {c t : Char}

/-- `matchstar`, with `matchhere` on the rest of the pattern for `here`. -/
def matchstar (here : List Char → Bool) (c : Char) : List Char → Bool
  | [] => here []
  | t :: text => here (t :: text) || (t == c || c == '.') && matchstar here c text

def matchhere : List Char → List Char → Bool
  | [], _ => true
  | c :: '*' :: re, text => matchstar (matchhere re) c text
  | ['$'], text => text.isEmpty
  | _ :: _, [] => false
  | c :: re, t :: text => (c == '.' || c == t) && matchhere re text

def search (re : List Char) : List Char → Bool
  | [] => matchhere re []
  | t :: text => matchhere re (t :: text) || search re text

def matchText (re text : List Char) : Bool :=
  if re.head? = some '^' then matchhere re.tail text else search re text

/-! ## Regular expressions -/

/-- The words of one character that `c` stands for. -/
def letter (c : Char) : Language Char := {w | ∃ t, w = [t] ∧ (c = '.' ∨ c = t)}

/-- The items of a pattern, as languages, and whether it ends in an unstarred `$`. -/
def items : List Char → List (Language Char) × Bool
  | [] => ([], false)
  | c :: '*' :: re => ((letter c)∗ :: (items re).1, (items re).2)
  | ['$'] => ([], true)
  | c :: re => (letter c :: (items re).1, (items re).2)

/-- What `text` begins with is in the language of `re`; all of `text` is if `re` ends in `$`. -/
def Begins (re text : List Char) : Prop :=
  ∃ w rest, w ++ rest = text ∧ w ∈ (items re).1.prod ∧ ((items re).2 = true → rest = [])

theorem letter_mul {L : Language Char} :
    w ∈ letter c * L ↔ ∃ t v, w = t :: v ∧ (c = '.' ∨ c = t) ∧ v ∈ L := by
  rw [mem_mul]
  constructor
  · rintro ⟨_, ⟨t, rfl, stands⟩, v, isIn, rfl⟩
    exact ⟨t, v, rfl, stands, isIn⟩
  · rintro ⟨t, v, rfl, stands, isIn⟩
    exact ⟨[t], ⟨t, rfl, stands⟩, v, isIn, rfl⟩

theorem mem_star : w ∈ (letter c)∗ ↔
    w = [] ∨ ∃ t v, w = t :: v ∧ (c = '.' ∨ c = t) ∧ v ∈ (letter c)∗ := by
  rw [← letter_mul, ← mem_one, ← mem_add, one_add_self_mul_kstar_eq_kstar]

theorem stands_iff : (t == c || c == '.') = true ↔ c = '.' ∨ c = t := by
  rw [Bool.or_eq_true, beq_iff_eq, beq_iff_eq, or_comm, eq_comm (a := t)]

theorem matchstar_iff (here : List Char → Bool) (c : Char) (text : List Char) :
    matchstar here c text = true ↔
      ∃ w rest, w ++ rest = text ∧ w ∈ (letter c)∗ ∧ here rest = true := by
  induction text with
  | nil => simp [matchstar, nil_mem_kstar]
  | cons t text ih =>
    rw [matchstar, Bool.or_eq_true, Bool.and_eq_true, stands_iff, ih]
    constructor
    · rintro (now | ⟨stands, w, rest, rfl, star, later⟩)
      · exact ⟨[], _, rfl, nil_mem_kstar _, now⟩
      · exact ⟨t :: w, rest, rfl, mem_star.mpr (.inr ⟨t, w, rfl, stands, star⟩), later⟩
    · rintro ⟨w, rest, whole, star, later⟩
      rcases mem_star.mp star with rfl | ⟨t', v, rfl, stands, star⟩
      · exact .inl (whole ▸ later)
      · obtain ⟨rfl, rfl⟩ := cons.inj whole
        exact .inr ⟨stands, v, rest, rfl, star, later⟩

theorem matchhere_iff (re text : List Char) : matchhere re text = true ↔ Begins re text := by
  unfold Begins
  induction re using items.induct generalizing text with
  | case1 => simp [matchhere, items]
  | case2 c re ih =>
    rw [matchhere, matchstar_iff, items, prod_cons]
    simp only [ih, mem_mul]
    constructor
    · rintro ⟨w, _, rfl, star, v, rest, rfl, isIn, ends⟩
      exact ⟨w ++ v, rest, append_assoc .., ⟨w, star, v, isIn, rfl⟩, ends⟩
    · rintro ⟨_, rest, rfl, ⟨w, star, v, isIn, rfl⟩, ends⟩
      exact ⟨w, v ++ rest, (append_assoc ..).symm, star, v, rest, rfl, isIn, ends⟩
  | case3 => cases text <;> simp [matchhere, items]
  | case4 c re starless last ih =>
    rw [items.eq_4 c re starless last, prod_cons]
    simp only [letter_mul]
    cases text with
    | nil =>
      rw [matchhere.eq_4 c re starless last]
      simp
    | cons t text =>
      rw [matchhere.eq_5 c re t text starless last, Bool.and_eq_true, Bool.or_eq_true, beq_iff_eq,
        beq_iff_eq, ih]
      constructor
      · rintro ⟨stands, w, rest, rfl, isIn, ends⟩
        exact ⟨t :: w, rest, rfl, ⟨t, w, rfl, stands, isIn⟩, ends⟩
      · rintro ⟨_, rest, whole, ⟨t', w, rfl, stands, isIn⟩, ends⟩
        obtain ⟨rfl, rfl⟩ := cons.inj whole
        exact ⟨stands, w, rest, rfl, isIn, ends⟩

theorem search_iff (re text : List Char) :
    search re text = true ↔ ∃ before rest, before ++ rest = text ∧ Begins re rest := by
  induction text with
  | nil => simp [search, matchhere_iff]
  | cons t text ih =>
    rw [search, Bool.or_eq_true, matchhere_iff, ih]
    constructor
    · rintro (begins | ⟨before, rest, rfl, begins⟩)
      · exact ⟨[], _, rfl, begins⟩
      · exact ⟨t :: before, rest, rfl, begins⟩
    · rintro ⟨_ | ⟨t', before⟩, rest, whole, begins⟩
      · exact .inl (whole ▸ begins)
      · obtain ⟨rfl, rfl⟩ := cons.inj whole
        exact .inr ⟨before, rest, rfl, begins⟩

def body (re : List Char) : List Char := if re.head? = some '^' then re.tail else re

theorem matchText_iff (re text : List Char) : matchText re text = true ↔
    ∃ before w after, before ++ (w ++ after) = text ∧ w ∈ (items (body re)).1.prod ∧
      (re.head? = some '^' → before = []) ∧ ((items (body re)).2 = true → after = []) := by
  unfold matchText body
  split
  next anchored =>
    rw [matchhere_iff]
    constructor
    · rintro ⟨w, after, rfl, isIn, ends⟩
      exact ⟨[], w, after, rfl, isIn, fun _ => rfl, ends⟩
    · rintro ⟨before, w, after, rfl, isIn, starts, ends⟩
      rw [starts anchored]
      exact ⟨w, after, rfl, isIn, ends⟩
  next free =>
    rw [search_iff]
    constructor
    · rintro ⟨before, _, rfl, w, after, rfl, isIn, ends⟩
      exact ⟨before, w, after, rfl, isIn, fun starts => absurd starts free, ends⟩
    · rintro ⟨before, w, after, rfl, isIn, -, ends⟩
      exact ⟨before, _, rfl, w, after, rfl, isIn, ends⟩

/-! ## Lines -/

/-- The inner loop of `grep` on the characters from `p` on: what is written, and what is left.
`line` holds those that `strchr` has passed. -/
def scan (re line : List Char) : List Char → List (List Char) × List Char
  | [] => ([], line)
  | c :: buf =>
    if c = '\n' then
      let (out, left) := scan re [] buf
      (if matchText re line then (line ++ ['\n']) :: out else out, left)
    else scan re (line ++ [c]) buf

/-- `grep`, with `held` at the start of the buffer.  Call `k` of `read` returns at most `cut k + 1`
characters. -/
def grep (re : List Char) (cut : Nat → Nat) (k : Nat) (held input : List Char) :
    List (List Char) :=
  let n := min (cut k + 1) (min (1024 - held.length - 1) input.length)
  if n = 0 then []
  else
    let (out, left) := scan re [] (held ++ input.take n)
    out ++ grep re cut (k + 1) left (input.drop n)
termination_by input.length
decreasing_by
  rw [length_drop]
  omega

def lines (line : List Char) : List Char → List (List Char)
  | [] => if line = [] then [] else [line]
  | c :: text => if c = '\n' then (line ++ ['\n']) :: lines [] text else lines (line ++ [c]) text

def Selected (re line : List Char) : Prop := matchText re (line.takeWhile (· ≠ '\n')) = true

instance : Decidable (Selected re line) := inferInstanceAs (Decidable (_ = _))

/-- A line that `grep` sees: it has its newline and fits in the buffer. -/
def Seen (line : List Char) : Prop := '\n' ∈ line ∧ line.length < 1024

instance : Decidable (Seen line) := inferInstanceAs (Decidable (_ ∧ _))

def written (re line text : List Char) : List (List Char) :=
  ((lines line text).takeWhile (Seen ·)).filter (Selected re ·)

theorem selected_iff (free : '\n' ∉ line) :
    Selected re (line ++ ['\n']) ↔ matchText re line = true := by
  unfold Selected
  rw [takeWhile_append_of_pos, takeWhile_cons_of_neg, append_nil]
  · simp
  · intro c isIn
    simpa using ne_of_mem_of_not_mem isIn free

theorem scan_spec (re line buf text : List Char) (free : '\n' ∉ line)
    (fits : line.length + buf.length < 1024) : written re line (buf ++ text) =
      (scan re line buf).1 ++ written re (scan re line buf).2 text ∧
      '\n' ∉ (scan re line buf).2 ∧ (scan re line buf).2.length < 1024 := by
  induction buf generalizing line with
  | nil => exact ⟨rfl, free, fits⟩
  | cons c buf ih =>
    rw [length_cons] at fits
    by_cases newline : c = '\n'
    · obtain ⟨out, left⟩ := ih [] not_mem_nil (by simp; omega)
      have seen : Seen (line ++ ['\n']) := ⟨by simp, by simp; omega⟩
      simp only [scan, newline, if_true]
      refine ⟨?_, left⟩
      rw [written] at out ⊢
      rw [cons_append, lines, if_pos rfl, takeWhile_cons_of_pos (by simpa using seen)]
      split
      next is => rw [filter_cons_of_pos (by simpa using (selected_iff free).mpr is), out]; rfl
      next no => rw [filter_cons_of_neg (by simpa [selected_iff free] using no), out]
    · simp only [scan, newline, if_false]
      have longer := ih (line ++ [c]) (by simp [free, Ne.symm newline]) (by simp; omega)
      simpa [written, lines, newline] using longer

theorem written_nil {held : List Char} (free : '\n' ∉ held)
    (full : 1023 ≤ held.length ∨ text = []) : written re held text = [] := by
  unfold written
  induction text generalizing held with
  | nil =>
    unfold lines
    split <;> simp [Seen, free]
  | cons c text ih =>
    have long := full.resolve_right nofun
    unfold lines
    split
    · rw [takeWhile_cons_of_neg, filter_nil]
      simp [Seen, long]
    next other => exact ih (by simp [free, Ne.symm other]) (.inl (by simp; omega))

theorem lines_append {held : List Char} (free : '\n' ∉ held) (line text : List Char) :
    lines line (held ++ text) = lines (line ++ held) text := by
  induction held generalizing line with
  | nil => rw [append_nil, nil_append]
  | cons c held ih =>
    rw [mem_cons, not_or] at free
    rw [cons_append, lines, if_neg (Ne.symm free.1), ih free.2, append_assoc]
    rfl

theorem grep_eq (re : List Char) (cut : Nat → Nat) (k : Nat) (held input : List Char)
    (free : '\n' ∉ held) (fits : held.length < 1024) :
    grep re cut k held input = written re held input := by
  fun_induction grep re cut k held input with
  | case1 k held input n none =>
    refine (written_nil free ?_).symm
    rw [← length_eq_zero_iff]
    omega
  | case2 k held input n some out left scanned ih =>
    have buffer : (held ++ input.take n).length < 1024 := by
      rw [length_append, length_take]
      omega
    have spec := scan_spec re [] _ (input.drop n) not_mem_nil ((zero_add _).trans_lt buffer)
    rw [scanned] at spec
    obtain ⟨out, free', fits'⟩ := spec
    rw [ih free' fits', ← out, append_assoc, take_append_drop, written, lines_append free]
    rfl

/-- `grep` is right exactly if the pattern matches no line from the first one it does not see on. -/
theorem grep_right_iff (re input : List Char) :
    (∀ cut, grep re cut 0 [] input = (lines [] input).filter (Selected re ·)) ↔
      ∀ line ∈ (lines [] input).dropWhile (Seen ·), ¬Selected re line := by
  have always (cut : Nat → Nat) := grep_eq re cut 0 [] input not_mem_nil (by decide)
  have parts := takeWhile_append_dropWhile (p := (Seen ·)) (l := lines [] input)
  simp only [always, forall_const]
  nth_rewrite 1 [← parts]
  rw [filter_append, written, self_eq_append_right, filter_eq_nil_iff]
  simp

/-- A last line without a newline is not printed. -/
theorem last_line_lost : (lines [] ['a']).filter (Selected ['a'] ·) = [['a']] ∧
    grep ['a'] (fun _ => 0) 0 [] ['a'] = [] :=
  ⟨by decide, grep_eq _ _ _ _ _ not_mem_nil (by decide)⟩

end Xv6Rv32im.Grep
