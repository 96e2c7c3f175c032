import Mathlib.Tactic.IntervalCases
import Xv6Rv32im.Fs.Entries

/-!
# Resolving paths

`namei` follows the elements of a path from directory to directory, and `nameiparent` stops before
the last one.
-/

namespace Xv6Rv32im.Fs

open Library.SlotMap List Option FileSystem

namespace FileSystem

variable {sb : Superblock} {fs fs' : FileSystem} {D : Nat → Prop} {dp ip cwd elements : Nat}
  {path : List (BitVec 8)} {name : List (BitVec 8)}

/-! ## Directory trees -/

/-- The entries of the directories refer to inodes that are in use. -/
structure Tree (sb : Superblock) (fs : FileSystem) : Prop where
  owned : Owned sb fs
  directories : ∀ dp < sb.ninodes, (fs.inode dp).type = .dir →
    (fs.inode dp).size % 16 = 0 ∧ (fs.inode dp).size ≤ MAXFILE * BSIZE
  entries : ∀ dp < sb.ninodes, (fs.inode dp).type = .dir → ∀ name ip, fs.names dp name = some ip →
    ip < sb.ninodes ∧ (fs.inode ip).type ≠ .free

def IsDir (sb : Superblock) (fs : FileSystem) (dp : Nat) : Prop :=
  dp < sb.ninodes ∧ (fs.inode dp).type = .dir

def HasHole (sb : Superblock) (fs : FileSystem) : Prop := ∃ dp, IsDir sb fs dp ∧ ¬fs.NoHoles dp

theorem Tree.directory (tree : Tree sb fs) (isDir : IsDir sb fs dp) : Directory sb fs dp :=
  ⟨tree.owned, isDir.1, (tree.directories dp isDir.1 isDir.2).1,
    (tree.directories dp isDir.1 isDir.2).2⟩

def resolve (fs : FileSystem) : List (List (BitVec 8)) → Nat → Option Nat
  | [], ip => some ip
  | name :: rest, ip =>
    if (fs.inode ip).type = .dir then (fs.names ip name).bind (resolve fs rest) else none

/-- The directory to which all elements but the last lead. -/
def resolveParent (fs : FileSystem) (names : List (List (BitVec 8))) (ip : Nat) : Option Nat :=
  if names = [] then none
  else (resolve fs names.dropLast ip).filter fun dp => (fs.inode dp).type = .dir

/-- A path leads nowhere exactly if it comes to an inode that is not a directory or does not have
the next name. -/
theorem resolve_eq_none (fs : FileSystem) (names : List (List (BitVec 8))) (ip : Nat) :
    resolve fs names ip = none ↔ ∃ pre name after dp, names = pre ++ name :: after ∧
      resolve fs pre ip = some dp ∧ ((fs.inode dp).type ≠ .dir ∨ fs.names dp name = none) := by
  induction names generalizing ip with
  | nil =>
    refine ⟨nofun, ?_⟩
    rintro ⟨pre, name, after, -, impossible, -⟩
    exact absurd impossible.symm (append_ne_nil_of_right_ne_nil pre nofun)
  | cons name rest ih =>
    have first (pre : List (List (BitVec 8))) (next : Nat) (isDir : (fs.inode ip).type = .dir)
        (found : fs.names ip name = some next) :
        resolve fs (name :: pre) ip = resolve fs pre next := by
      rw [resolve, if_pos isDir, found]
      rfl
    by_cases isDir : (fs.inode ip).type = .dir
    · cases found : fs.names ip name with
      | none =>
        rw [resolve, if_pos isDir, found]
        exact ⟨fun _ => ⟨[], name, rest, ip, rfl, rfl, .inr found⟩, fun _ => rfl⟩
      | some next =>
        rw [first rest next isDir found, ih]
        constructor
        · rintro ⟨pre, name', after, dp, rfl, reached, stuck⟩
          exact ⟨name :: pre, name', after, dp, rfl,
            (first pre next isDir found).trans reached, stuck⟩
        rintro ⟨pre, name', after, dp, split, reached, stuck⟩
        cases pre with
        | nil =>
          cases split
          cases reached
          rcases stuck with notDir | absent
          · exact absurd isDir notDir
          · rw [found] at absent
            cases absent
        | cons _ pre =>
          cases split
          rw [first pre next isDir found] at reached
          exact ⟨pre, name', after, dp, rfl, reached, stuck⟩
    · rw [resolve, if_neg isDir]
      exact ⟨fun _ => ⟨[], name, rest, ip, rfl, rfl, .inl isDir⟩, fun _ => rfl⟩

section

variable (scanned : Scanned sb D fs fs')

include scanned

theorem Scanned.tree (tree : Tree sb fs) : Tree sb fs' where
  owned := scanned.owned
  directories := fun dp lt isDir => by
    rw [scanned.type] at isDir
    rw [scanned.size]
    exact tree.directories dp lt isDir
  entries := fun dp lt isDir name ip found => by
    rw [scanned.type] at isDir
    rw [scanned.names (tree.directory ⟨lt, isDir⟩)] at found
    rw [scanned.type]
    exact tree.entries dp lt isDir name ip found

theorem Scanned.resolve (tree : Tree sb fs) (names : List (List (BitVec 8)))
    (lt : ip < sb.ninodes) :
    resolve fs' names ip = resolve fs names ip := by
  induction names generalizing ip with
  | nil => rfl
  | cons name rest ih =>
    rw [resolve, resolve, scanned.type]
    by_cases isDir : (fs.inode ip).type = .dir
    · rw [if_pos isDir, if_pos isDir, scanned.names (tree.directory ⟨lt, isDir⟩)]
      cases found : fs.names ip name with
      | none => rw [bind_none, bind_none]
      | some next =>
        rw [bind_some, bind_some]
        exact ih (tree.entries ip lt isDir name next found).1
    · rw [if_neg isDir, if_neg isDir]

theorem Scanned.isDir : IsDir sb fs' dp ↔ IsDir sb fs dp := by
  unfold IsDir
  rw [scanned.type]

end

theorem Scanned.hasHole (scanned : Scanned sb (IsDir sb fs) fs fs') (hole : HasHole sb fs') :
    HasHole sb fs := by
  by_contra noHole
  have same : fs' = fs := scanned.still fun d isDir => by
    by_contra holes
    exact noHole ⟨d, isDir, holes⟩
  exact noHole (same ▸ hole)

/-! ## The loop -/

def resolveFor (nameiparent : Bool) (fs : FileSystem) (names : List (List (BitVec 8))) (ip : Nat) :
    Option Nat :=
  if nameiparent then resolveParent fs names ip else resolve fs names ip

theorem resolveFor_cons {flag : Bool} {rest : List (List (BitVec 8))}
    (isDir : (fs.inode ip).type = .dir) (goesOn : ¬(flag ∧ rest = [])) :
    resolveFor flag fs (name :: rest) ip = (fs.names ip name).bind (resolveFor flag fs rest) := by
  unfold resolveFor
  cases flag with
  | false =>
    simp only [Bool.false_eq_true, if_false]
    rw [resolve, if_pos isDir]
  | true =>
    have more : rest ≠ [] := fun none => goesOn ⟨rfl, none⟩
    simp only [if_true]
    unfold resolveParent
    rw [if_neg nofun, dropLast_cons_of_ne_nil more, resolve, if_pos isDir]
    cases fs.names ip name with
    | none => rfl
    | some next =>
      change Option.filter _ (resolve fs rest.dropLast next) = if rest = [] then _ else _
      rw [if_neg more]

theorem resolveFor_notDir {flag : Bool} {rest : List (List (BitVec 8))}
    (notDir : (fs.inode ip).type ≠ .dir) : resolveFor flag fs (name :: rest) ip = none := by
  unfold resolveFor
  cases flag with
  | false =>
    simp only [Bool.false_eq_true, if_false]
    rw [resolve, if_neg notDir]
  | true =>
    simp only [if_true]
    unfold resolveParent
    rw [if_neg nofun]
    cases rest with
    | nil =>
      change Option.filter _ (some ip) = none
      rw [Option.filter_some, if_neg (by simpa using notDir)]
    | cons second rest =>
      rw [dropLast_cons_of_ne_nil (cons_ne_nil second rest), resolve, if_neg notDir]
      rfl

theorem holdsName_take {p : Nat → BitVec 8} (holds : HoldsName p name) :
    HoldsName p (name.take DIRSIZ) := by
  intro t small within
  rw [length_take] at within
  rw [holds t small (by omega), getD_eq_getElem?_getD, getD_eq_getElem?_getD,
    List.getElem?_take_of_lt small]

/-- The loop of `namex` follows the elements of the path, and leaves the last one in the buffer if
it stops there. -/
theorem namexLoop_spec (flag : Bool) (tree : Tree sb fs) (lt : ip < sb.ninodes)
    (used : (fs.inode ip).type ≠ .free) (string : 0 ∉ path) (buffer : Nat → BitVec 8)
    (enough : path.length < elements) :
    (namexLoop sb flag elements fs ip path buffer = .error (.file .balloc) ∧ HasHole sb fs) ∨
      ∃ name fs', namexLoop sb flag elements fs ip path buffer =
          .ok (resolveFor flag fs (components path) ip, name, fs') ∧
        Scanned sb (IsDir sb fs) fs fs' ∧ (∀ t, DIRSIZ ≤ t → name t = buffer t) ∧
        (flag → resolveFor flag fs (components path) ip ≠ none →
          ∀ last ∈ (components path).getLast?, HoldsName name last ∧ nameOf name = last) := by
  induction elements generalizing fs ip path buffer with
  | zero => exact absurd enough (Nat.not_lt_zero _)
  | succ elements ih =>
    rw [namexLoop]
    rcases skipelem_spec path buffer with ⟨ends, empty⟩ |
      ⟨element, name, rest, skipped, split, holds, beyond, fromPath, fromPath', shorter, isLast⟩
    · rw [ends, empty]
      refine .inr ⟨buffer, fs, ?_, .refl tree.owned _, fun _ _ => rfl, fun _ _ => nofun⟩
      unfold resolveFor resolveParent
      rw [if_pos rfl]
      rfl
    rw [skipped, split]
    dsimp only
    rw [if_neg used]
    have plain : 0 ∉ element := fun isIn => string (fromPath 0 isIn)
    by_cases notDir : (fs.inode ip).type ≠ .dir
    · rw [if_pos notDir, resolveFor_notDir notDir]
      exact .inr ⟨name, fs, rfl, .refl tree.owned _, beyond,
        fun _ impossible => absurd rfl impossible⟩
    have isDir : (fs.inode ip).type = .dir := not_not.mp notDir
    rw [if_neg notDir]
    by_cases stops : flag = true ∧ rest = []
    · rw [if_pos stops, isLast.mp stops.2]
      refine .inr ⟨name, fs, ?_, .refl tree.owned _, beyond, fun _ _ last isIn => ?_⟩
      · unfold resolveFor resolveParent
        rw [if_pos stops.1, if_neg nofun]
        change _ = Except.ok (Option.filter _ (some ip), _, _)
        rw [Option.filter_some, if_pos (by simpa using isDir)]
      · cases isIn
        exact ⟨holdsName_take holds, holds.nameOf_eq plain⟩
    rw [if_neg stops, resolveFor_cons isDir fun both => stops ⟨both.1, isLast.mpr both.2⟩,
      ← holds.nameOf_eq plain]
    rcases dirlookup_spec (tree.directory ⟨lt, isDir⟩) isDir name with
      ⟨failed, holes⟩ | ⟨fs₁, looked, scanned⟩
    · rw [failed]
      exact .inl ⟨rfl, ip, ⟨lt, isDir⟩, holes⟩
    have scannedDirs : Scanned sb (IsDir sb fs) fs fs₁ :=
      scanned.mono fun d isIp => isIp ▸ ⟨lt, isDir⟩
    rw [looked, FileSystem.names, binding]
    cases found : find (fs.entry ip) (fs.entryCount ip) (nameOf name) with
    | none =>
      exact .inr ⟨name, fs₁, rfl, scannedDirs, beyond, fun _ impossible => absurd rfl impossible⟩
    | some place =>
      obtain ⟨k, next⟩ := place
      obtain ⟨lt', used'⟩ := tree.entries ip lt isDir _ next (congrArg (Option.map Prod.snd) found)
      have sameDirs : IsDir sb fs₁ = IsDir sb fs := funext fun d => propext scannedDirs.isDir
      have sameResult : resolveFor flag fs₁ (components rest) next =
          resolveFor flag fs (components rest) next := by
        have sameType : (fun d => decide ((fs₁.inode d).type = .dir)) =
            fun d => decide ((fs.inode d).type = .dir) := by
          funext d
          rw [scanned.type]
        unfold resolveFor resolveParent
        rw [scanned.resolve tree _ lt', scanned.resolve tree _ lt', sameType]
      rcases ih (scanned.tree tree) lt' (by rwa [scanned.type])
        (fun isIn => string (fromPath' 0 isIn)) name (by omega) with
        ⟨failed, hole⟩ | ⟨name', fs', ran, later, beyond', holds'⟩
      · exact .inl ⟨failed, scannedDirs.hasHole hole⟩
      rw [sameDirs] at later
      rw [sameResult] at ran holds'
      refine .inr ⟨name', fs', ran, scannedDirs.trans later,
        fun t large => (beyond' t large).trans (beyond t large), fun isFlag reached last isIn => ?_⟩
      refine holds' isFlag reached last ?_
      have more : components rest ≠ [] := fun none => stops ⟨isFlag, isLast.mpr none⟩
      rwa [List.getLast?_cons_of_ne_nil more] at isIn

end FileSystem

open FileSystem

variable {sb : Superblock} {fs : FileSystem} {cwd : Nat} {path : List (BitVec 8)}

/-- `namei` and `nameiparent` resolve a path by its elements, cut to `DIRSIZ` bytes.  `namei` finds
nothing exactly if it comes to an inode that is not a directory or lacks the next element.
`nameiparent` needs an element, leaves the last one in the buffer, with a zero only if it is
shorter than the buffer, and writes no byte behind it.  Without holes in the directories nothing
else changes; a hole can only cost the block that fills it. -/
theorem paths_resolve (tree : Tree sb fs)
    (root : ROOTINO < sb.ninodes ∧ (fs.inode ROOTINO).type ≠ .free)
    (current : cwd < sb.ninodes ∧ (fs.inode cwd).type ≠ .free) (string : 0 ∉ path)
    (buffer : Nat → BitVec 8) :
    ((namei sb fs cwd path buffer = .error (.file .balloc) ∧ HasHole sb fs) ∨
      ∃ fs', namei sb fs cwd path buffer =
          .ok (resolve fs (components path) (startOf cwd path), fs') ∧
        Scanned sb (IsDir sb fs) fs fs') ∧
    (resolve fs (components path) (startOf cwd path) = none ↔
      ∃ before name after dp, components path = before ++ name :: after ∧
        resolve fs before (startOf cwd path) = some dp ∧
        ((fs.inode dp).type ≠ .dir ∨ fs.names dp name = none)) ∧
    ((nameiparent sb fs cwd path buffer = .error (.file .balloc) ∧ HasHole sb fs) ∨
      ∃ name fs', nameiparent sb fs cwd path buffer =
          .ok (resolveParent fs (components path) (startOf cwd path), name, fs') ∧
        Scanned sb (IsDir sb fs) fs fs' ∧ (∀ t, DIRSIZ ≤ t → name t = buffer t) ∧
        (resolveParent fs (components path) (startOf cwd path) ≠ none →
          ∃ last, (components path).getLast? = some last ∧
            (∀ t < last.length, name t = last.getD t 0) ∧
            (last.length < DIRSIZ → name last.length = 0))) := by
  have start : startOf cwd path < sb.ninodes ∧ (fs.inode (startOf cwd path)).type ≠ .free := by
    unfold startOf
    split
    · exact root
    · exact current
  refine ⟨?_, resolve_eq_none fs _ _, ?_⟩
  · unfold namei
    rcases namexLoop_spec false tree start.1 start.2 string buffer (Nat.lt_succ_self path.length)
      with ⟨failed, hole⟩ | ⟨name, fs', ran, scanned, -, -⟩
    · rw [failed]
      exact .inl ⟨rfl, hole⟩
    · rw [ran]
      exact .inr ⟨fs', rfl, scanned⟩
  rcases namexLoop_spec true tree start.1 start.2 string buffer (Nat.lt_succ_self path.length)
    with ⟨failed, hole⟩ | ⟨name, fs', ran, scanned, beyond, holds⟩
  · exact .inl ⟨failed, hole⟩
  refine .inr ⟨name, fs', ran, scanned, beyond, fun reached => ?_⟩
  obtain ⟨last, isLast⟩ : ∃ last, (components path).getLast? = some last := by
    cases isLast : (components path).getLast? with
    | some last => exact ⟨last, rfl⟩
    | none =>
      rw [List.getLast?_eq_none_iff] at isLast
      unfold resolveParent at reached
      rw [if_pos isLast] at reached
      exact absurd rfl reached
  have isName := (holds rfl reached last isLast).1
  have short : last.length ≤ DIRSIZ := by
    have isIn := mem_of_getLast? isLast
    obtain ⟨element, -, rfl⟩ := mem_map.mp isIn
    exact length_take_le _ _
  refine ⟨last, isLast, fun t within => isName t (by omega) (by omega), fun shorter => ?_⟩
  rw [isName _ shorter (Nat.le_refl _), getD_eq_default _ _ (Nat.le_refl _)]

def smallTree : FileSystem :=
  let root := oneBlockFile (fun a =>
    if a < 16 then direntBytes 1 dot a
    else if a < 32 then direntBytes 1 dotDot (a - 16)
    else if a < 48 then direntBytes 2 [97] (a - 32)
    else 0) 48
  (root.setInode 1 { root.inode 1 with type := .dir }).setInode 2
    { Dinode.zero with type := .file, nlink := 1 }

theorem smallTree_tree : Tree disk64 smallTree where
  owned := by
    refine (setInode_same disk64 ?_).owned ((setInode_same disk64 ?_).owned
      (oneBlockFile_owned _ _))
    · rfl
    · rfl
  directories := by decide +kernel
  entries := fun dp lt isDir name ip found => by
    have isRoot : dp = 1 := by
      have all : ∀ dp < 16, (smallTree.inode dp).type = .dir → dp = 1 := by decide +kernel
      exact all dp lt isDir
    subst isRoot
    unfold names binding at found
    rw [map_eq_some_iff] at found
    obtain ⟨⟨k, inum⟩, found, rfl⟩ := found
    obtain ⟨below, isEntry⟩ := find_some found
    have all : ∀ k < smallTree.entryCount 1, ∀ entry ∈ smallTree.entry 1 k,
        entry.2 < 16 ∧ (smallTree.inode entry.2).type ≠ .free := by decide +kernel
    exact all k below _ isEntry

/-- `//a/` from the root. -/
theorem paths_resolve_file : Tree disk64 smallTree ∧
    resolve smallTree (components [47, 47, 97, 47]) (startOf ROOTINO [47, 47, 97, 47]) = some 2 ∧
    ∃ fs', namei disk64 smallTree ROOTINO [47, 47, 97, 47] (fun _ => 0) = .ok (some 2, fs') := by
  have isFile : resolve smallTree (components [47, 47, 97, 47]) (startOf ROOTINO [47, 47, 97, 47]) =
      some 2 := by decide +kernel
  have root : ROOTINO < disk64.ninodes ∧ (smallTree.inode ROOTINO).type ≠ .free := by
    decide +kernel
  have string : (0 : BitVec 8) ∉ [47, 47, 97, 47] := by decide
  refine ⟨smallTree_tree, isFile, ?_⟩
  rcases (paths_resolve smallTree_tree root root string fun _ => 0).1 with
    ⟨failed, -⟩ | ⟨fs', ran, -⟩
  · have fine : (namei disk64 smallTree ROOTINO [47, 47, 97, 47] fun _ => 0).isOk = true := by
      decide +kernel
    rw [failed] at fine
    cases fine
  · rw [isFile] at ran
    exact ⟨fs', ran⟩

end Xv6Rv32im.Fs
