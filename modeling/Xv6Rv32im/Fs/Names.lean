import Mathlib.Data.List.GetD
import Mathlib.Data.List.TakeWhile
import Xv6Rv32im.Fs.Directory

/-!
# Names in directories and paths

The kernel compares the first `DIRSIZ` bytes of two names, up to a zero, and takes a path apart at
its slashes.
-/

namespace Xv6Rv32im.Fs

open List

/-! ## Comparing names -/

/-- `strncmp` compares up to the first zero. -/
theorem strncmp_eq_zero (p q : Nat → BitVec 8) (n k : Nat) :
    strncmp p q n k = 0 ↔ ∀ t < n, (∀ s < t, p (k + s) ≠ 0) → p (k + t) = q (k + t) := by
  induction n generalizing k with
  | zero => exact ⟨fun _ t impossible => absurd impossible (Nat.not_lt_zero t), fun _ => rfl⟩
  | succ n ih =>
    unfold strncmp
    by_cases goesOn : p k ≠ 0 ∧ p k = q k
    · rw [if_pos goesOn, ih]
      constructor
      · intro same t early pre
        cases t with
        | zero => exact goesOn.2
        | succ t =>
          have later := same t (Nat.lt_of_succ_lt_succ early) fun s early' => by
            have nonzero := pre (s + 1) (Nat.succ_lt_succ early')
            rwa [← add_assoc, add_right_comm] at nonzero
          rwa [add_right_comm, add_assoc] at later
      · intro same t early pre
        have later := same (t + 1) (Nat.succ_lt_succ early) fun s early' => by
          cases s with
          | zero => exact goesOn.1
          | succ s =>
            have nonzero := pre s (Nat.lt_of_succ_lt_succ early')
            rwa [add_right_comm, add_assoc] at nonzero
        rwa [← add_assoc, add_right_comm] at later
    · rw [if_neg goesOn]
      constructor
      · intro zero t early pre
        cases t with
        | zero =>
          refine BitVec.eq_of_toNat_eq ?_
          change (p k).toNat = (q k).toNat
          omega
        | succ t =>
          have nonzero := pre 0 (Nat.succ_pos t)
          have same : p k = q k := BitVec.eq_of_toNat_eq (by omega)
          exact absurd ⟨nonzero, same⟩ goesOn
      · intro same
        have first : p k = q k := same 0 (Nat.succ_pos n) fun s impossible =>
          absurd impossible (Nat.not_lt_zero s)
        rw [first]
        exact sub_self _

/-- A buffer of `DIRSIZ` bytes holds a string, cut or with a final zero. -/
def HoldsName (p : Nat → BitVec 8) (name : List (BitVec 8)) : Prop :=
  ∀ t < DIRSIZ, t ≤ name.length → p t = name.getD t 0

/-- Names are equal to the kernel if their first `DIRSIZ` bytes are. -/
theorem namecmp_eq_zero {p q : Nat → BitVec 8} {name name' : List (BitVec 8)}
    (isName : HoldsName p name) (isName' : HoldsName q name') (string : 0 ∉ name)
    (string' : 0 ∉ name') : namecmp p q = 0 ↔ name.take DIRSIZ = name'.take DIRSIZ := by
  have nonzero {list : List (BitVec 8)} (string : 0 ∉ list) {t} :
      list.getD t 0 = 0 ↔ list.length ≤ t := by
    constructor
    · intro zero
      by_contra within
      rw [getD_eq_getElem _ _ (not_le.mp within)] at zero
      exact string (zero ▸ getElem_mem _)
    · exact getD_eq_default _ _
  unfold namecmp
  rw [strncmp_eq_zero]
  simp only [zero_add]
  have cut (list : List (BitVec 8)) {t : Nat} (small : t < DIRSIZ) :
      (list.take DIRSIZ).getD t 0 = list.getD t 0 := by
    rw [getD_eq_getElem?_getD, getD_eq_getElem?_getD, getElem?_take_of_lt small]
  constructor
  · intro same
    -- As long as the first name goes on, the bytes agree.
    have agree (t : Nat) (small : t < DIRSIZ) (within : t ≤ name.length) : q t = name.getD t 0 := by
      rw [← isName t small within]
      refine (same t small fun s early => ?_).symm
      rw [isName s (by omega) (by omega), ne_eq, nonzero string]
      omega
    have reaches (t : Nat) (small : t < DIRSIZ) (within : t ≤ name.length) : t ≤ name'.length := by
      induction t with
      | zero => exact Nat.zero_le _
      | succ t ih =>
        have pre := ih (by omega) (by omega)
        have byte := agree t (by omega) (by omega)
        rw [isName' t (by omega) pre] at byte
        have goesOn : ¬name'.length ≤ t := by
          rw [← nonzero string', byte, nonzero string]
          omega
        omega
    have bytes (t : Nat) (small : t < DIRSIZ) (within : t ≤ name.length) :
        name'.getD t 0 = name.getD t 0 :=
      (isName' t small (reaches t small within)).symm.trans (agree t small within)
    refine ext_getElem? fun t => ?_
    by_cases small : t < DIRSIZ
    · rw [getElem?_take_of_lt small, getElem?_take_of_lt small]
      by_cases within : t < name.length
      · have byte := bytes t small (by omega)
        have within' : t < name'.length := by
          by_contra beyond
          rw [(nonzero string').mpr (not_lt.mp beyond)] at byte
          exact absurd ((nonzero string).mp byte.symm) (not_le.mpr within)
        rw [getD_eq_getElem _ _ within', getD_eq_getElem _ _ within] at byte
        rw [getElem?_eq_getElem within, getElem?_eq_getElem within', byte]
      · have ends := bytes name.length (by omega) le_rfl
        rw [(nonzero string).mpr le_rfl, nonzero string'] at ends
        rw [getElem?_eq_none (by omega), getElem?_eq_none (by omega)]
    · rw [getElem?_eq_none (by rw [length_take]; omega),
        getElem?_eq_none (by rw [length_take]; omega)]
  · intro same t small pre
    have lengths := congrArg length same
    rw [length_take, length_take] at lengths
    have within : t ≤ name.length := by
      by_contra beyond
      have ends := pre name.length (by omega)
      rw [isName _ (by omega) le_rfl, ne_eq, nonzero string] at ends
      exact ends le_rfl
    rw [isName t small within, isName' t small (by omega), ← cut name small, ← cut name' small,
      same]

/-! ## The name in a buffer -/

/-- The bytes of a buffer up to a zero, at most so many and from a position on. -/
def nameFrom (p : Nat → BitVec 8) : Nat → Nat → List (BitVec 8)
  | 0, _ => []
  | n + 1, k => if p k = 0 then [] else p k :: nameFrom p n (k + 1)

def nameOf (p : Nat → BitVec 8) : List (BitVec 8) := nameFrom p DIRSIZ 0

variable {p : Nat → BitVec 8} {name path : List (BitVec 8)}

section

variable (p)

theorem zero_not_mem_nameFrom (n k : Nat) : 0 ∉ nameFrom p n k := by
  induction n generalizing k with
  | zero => exact not_mem_nil
  | succ n ih =>
    unfold nameFrom
    split
    · exact not_mem_nil
    next nonzero =>
      intro isIn
      rcases mem_cons.mp isIn with zero | later
      · exact nonzero zero.symm
      · exact ih (k + 1) later

theorem nameFrom_length_le (n k : Nat) : (nameFrom p n k).length ≤ n := by
  induction n generalizing k with
  | zero => exact le_refl 0
  | succ n ih =>
    unfold nameFrom
    split
    · exact Nat.zero_le _
    · exact Nat.succ_le_succ (ih (k + 1))

theorem nameFrom_getD (n k : Nat) {t : Nat} (small : t < n) (within : t ≤ (nameFrom p n k).length) :
    p (k + t) = (nameFrom p n k).getD t 0 := by
  induction n generalizing k t with
  | zero => exact absurd small (Nat.not_lt_zero t)
  | succ n ih =>
    unfold nameFrom at within ⊢
    by_cases zero : p k = 0
    · rw [if_pos zero] at within ⊢
      have isFirst : t = 0 := Nat.le_zero.mp within
      rw [isFirst]
      exact zero
    rw [if_neg zero] at within ⊢
    cases t with
    | zero => rfl
    | succ t =>
      have later := ih (k + 1) (Nat.lt_of_succ_lt_succ small) (Nat.le_of_succ_le_succ within)
      rw [add_right_comm] at later
      exact later

theorem nameOf_holds : HoldsName p (nameOf p) := by
  intro t small within
  have isByte := nameFrom_getD p DIRSIZ 0 small within
  rwa [zero_add] at isByte

theorem nameOf_length_le : (nameOf p).length ≤ DIRSIZ :=
  nameFrom_length_le p DIRSIZ 0

end

/-- `namecmp` compares the names in two buffers. -/
theorem namecmp_nameOf (p q : Nat → BitVec 8) : namecmp p q = 0 ↔ nameOf p = nameOf q := by
  rw [namecmp_eq_zero (nameOf_holds p) (nameOf_holds q) (zero_not_mem_nameFrom p _ _)
    (zero_not_mem_nameFrom q _ _), take_of_length_le (nameOf_length_le p),
    take_of_length_le (nameOf_length_le q)]

/-- A buffer that holds a string has its first bytes as the name. -/
theorem HoldsName.nameOf_eq (holds : HoldsName p name) (string : 0 ∉ name) :
    nameOf p = name.take DIRSIZ := by
  have same := (namecmp_eq_zero holds (nameOf_holds p) string (zero_not_mem_nameFrom p _ _)).mp
    ((strncmp_eq_zero p p DIRSIZ 0).mpr fun _ _ _ => rfl)
  rw [same, take_of_length_le (nameOf_length_le p)]

/-! ## Copying names -/

/-- `strncpy`, from a position on: the bytes up to a zero, filled up with zeros. -/
def strncpy (t : Nat → BitVec 8) : Nat → Nat → List (BitVec 8)
  | 0, _ => []
  | n + 1, k => if t k = 0 then replicate (n + 1) 0 else t k :: strncpy t n (k + 1)

theorem strncpy_getD (t : Nat → BitVec 8) {n k j : Nat} (small : j < n)
    (pre : ∀ s < j, t (k + s) ≠ 0) : (strncpy t n k).getD j 0 = t (k + j) := by
  induction n generalizing k j with
  | zero => exact absurd small (Nat.not_lt_zero j)
  | succ n ih =>
    unfold strncpy
    by_cases zero : t k = 0
    · have isFirst : j = 0 := by
        by_contra later
        exact pre 0 (Nat.pos_of_ne_zero later) zero
      rw [if_pos zero, isFirst]
      exact zero.symm
    rw [if_neg zero]
    cases j with
    | zero => rfl
    | succ j =>
      have later := ih (k := k + 1) (Nat.lt_of_succ_lt_succ small) fun s early => by
        have nonzero := pre (s + 1) (Nat.succ_lt_succ early)
        rwa [← add_assoc, add_right_comm] at nonzero
      rw [add_right_comm] at later
      exact later

theorem nameOf_strncpy (t : Nat → BitVec 8) :
    nameOf (fun j => (strncpy t DIRSIZ 0).getD j 0) = nameOf t := by
  refine ((namecmp_nameOf t _).mp ?_).symm
  refine (strncmp_eq_zero _ _ _ _).mpr fun j small pre => ?_
  rw [zero_add]
  refine ((strncpy_getD t small fun s early => ?_).trans (by rw [zero_add])).symm
  exact pre s early

/-! ## Paths -/

/-- The elements of a path: what stands between its slashes, cut to `DIRSIZ` bytes. -/
def components (path : List (BitVec 8)) : List (List (BitVec 8)) :=
  ((path.splitOn slash).filter (· ≠ [])).map (·.take DIRSIZ)

theorem components_slash (path : List (BitVec 8)) :
    components (slash :: path) = components path := by
  have split : (slash :: path).splitOn slash = [] :: path.splitOn slash :=
    splitOnP_append_cons [] path (beq_self_eq_true slash)
  unfold components
  rw [split]
  rfl

theorem components_dropWhile (path : List (BitVec 8)) :
    components (path.dropWhile (· == slash)) = components path := by
  induction path with
  | nil => rfl
  | cons c rest ih =>
    by_cases isSlash : c = slash
    · rw [isSlash, dropWhile_cons, if_pos (beq_self_eq_true slash), ih, components_slash]
    · rw [dropWhile_cons, if_neg (by rwa [beq_iff_eq])]

theorem components_element {element rest : List (BitVec 8)} (plain : slash ∉ element)
    (nonempty : element ≠ []) (ends : rest = [] ∨ rest.head? = some slash) :
    components (element ++ rest) = element.take DIRSIZ :: components rest := by
  have alone : element.splitOn slash = [element] := splitOn_eq_singleton plain
  have split : (element ++ rest).splitOn slash = element :: (rest.splitOn slash).tail ∧
      components rest = ((rest.splitOn slash).tail.filter (· ≠ [])).map (·.take DIRSIZ) := by
    rcases ends with rfl | isSlash
    · rw [append_nil, alone]
      exact ⟨rfl, rfl⟩
    obtain ⟨later, rfl⟩ : ∃ later, rest = slash :: later := by
      cases rest with
      | nil => cases isSlash
      | cons c later =>
        cases isSlash
        exact ⟨later, rfl⟩
    have first : (slash :: later).splitOn slash = [] :: later.splitOn slash :=
      splitOnP_append_cons [] later (beq_self_eq_true slash)
    have both : (element ++ slash :: later).splitOn slash =
        element.splitOn slash ++ later.splitOn slash :=
      splitOnP_append_cons element later (beq_self_eq_true slash)
    rw [both, alone, first, components_slash]
    exact ⟨rfl, rfl⟩
  rw [split.2]
  unfold components
  rw [split.1, filter_cons_of_pos (by simpa using nonempty)]
  rfl

section

variable (path)

/-- A path that does not consist of slashes begins, behind its slashes, with an element. -/
theorem exists_element (nonempty : path.dropWhile (· == slash) ≠ []) :
    ∃ element tail, (path.dropWhile (· == slash)).takeWhile (· != slash) = element ∧
      (path.dropWhile (· == slash)).drop element.length = tail ∧
      path.dropWhile (· == slash) = element ++ tail ∧ slash ∉ element ∧ element ≠ [] ∧
      (tail = [] ∨ tail.head? = some slash) := by
  have startsPlain : ∀ c, (path.dropWhile (· == slash)).head? = some c → c ≠ slash := by
    intro c isHead same
    have notSlash := head?_dropWhile_not (· == slash) path
    rw [isHead, same] at notSlash
    simp at notSlash
  generalize path.dropWhile (· == slash) = inner at nonempty startsPlain
  have whole : inner = inner.takeWhile (· != slash) ++
      inner.drop (inner.takeWhile (· != slash)).length :=
    Eq.symm <| prefix_iff_eq_append.mp <| takeWhile_prefix _
  refine ⟨_, _, rfl, rfl, whole, fun isIn => ?_, fun none => ?_, ?_⟩
  · have notSlash := mem_takeWhile_imp isIn
    simp at notSlash
  · cases inner with
    | nil => exact nonempty rfl
    | cons c later =>
      rw [takeWhile_cons, if_pos (bne_iff_ne.mpr (startsPlain c rfl))] at none
      cases none
  have isDrop : inner.drop (inner.takeWhile (· != slash)).length =
      inner.dropWhile (· != slash) := by
    refine append_cancel_left (whole.symm.trans ?_)
    rw [takeWhile_append_dropWhile]
  have notPlain := head?_dropWhile_not (· != slash) inner
  rw [isDrop]
  cases isTail : inner.dropWhile (· != slash) with
  | nil => exact .inl rfl
  | cons c later =>
    rw [isTail] at notPlain
    refine .inr ?_
    simpa using notPlain

theorem components_eq_nil : components path = [] ↔ path.dropWhile (· == slash) = [] := by
  constructor
  · intro none
    by_contra nonempty
    obtain ⟨element, tail, -, -, whole, plain, isElement, ends⟩ := exists_element path nonempty
    rw [← components_dropWhile, whole, components_element plain isElement ends] at none
    cases none
  · intro empty
    rw [← components_dropWhile, empty]
    rfl

/-- `skipelem` takes the first element off a path, and writes no byte behind the buffer. -/
theorem skipelem_spec (buffer : Nat → BitVec 8) :
    skipelem path buffer = none ∧ components path = [] ∨
      ∃ element name rest, skipelem path buffer = some (name, rest) ∧
        components path = element.take DIRSIZ :: components rest ∧ HoldsName name element ∧
        (∀ t, DIRSIZ ≤ t → name t = buffer t) ∧ (∀ c ∈ element, c ∈ path) ∧
        (∀ c ∈ rest, c ∈ path) ∧ rest.length < path.length ∧
        (rest = [] ↔ components rest = []) := by
  unfold skipelem
  dsimp only
  by_cases empty : path.dropWhile (· == slash) = []
  · rw [if_pos empty]
    exact .inl ⟨rfl, (components_eq_nil path).mpr empty⟩
  obtain ⟨element, tail, isElement, isTail, whole, plain, nonempty, ends⟩ :=
    exists_element path empty
  have isSuffix : element ++ tail <:+ path := whole ▸ dropWhile_suffix _
  have restSuffix : tail.dropWhile (· == slash) <:+ tail := dropWhile_suffix _
  rw [if_neg empty, isElement, isTail]
  refine .inr ⟨element, _, _, rfl, ?_, fun t small within => ?_, fun t beyond => ?_,
    fun c isIn => ?_, fun c isIn => ?_, ?_, ?_⟩
  · rw [components_dropWhile, ← components_dropWhile path, whole]
    exact components_element plain nonempty ends
  · dsimp only
    by_cases early : t < element.length
    · rw [if_pos (by omega)]
    · rw [if_neg (by omega), if_pos ⟨by omega, by omega⟩, getD_eq_default _ _ (not_lt.mp early)]
  · rw [if_neg (by omega), if_neg (by omega)]
  · exact isSuffix.mem (mem_append_left tail isIn)
  · exact isSuffix.mem (mem_append_right element (restSuffix.mem isIn))
  · have shorter := restSuffix.length_le
    have bound := isSuffix.length_le
    have pos := length_pos_iff.mpr nonempty
    rw [length_append] at bound
    omega
  · rw [components_dropWhile, components_eq_nil]

end

end Xv6Rv32im.Fs
