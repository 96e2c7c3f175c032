import Xv6Rv32im.Library.Update
import Xv6Rv32im.Process.Files
import Xv6Rv32im.Vm.Allocator

/-!
# References to files

A file's reference count is the number of handles on it, and a pipe's page is held
as long as a file for one of its ends is open.
-/

namespace Xv6Rv32im.Process

open Library Library.ByteWords Library.Shares Vm Vm.Ram Function Multiset

/-- The file is an end of the pipe in `page`. -/
def File.IsEnd (file : File) (page : BitVec 32) (writable : Bool) : Prop :=
  file.type = .pipe ∧ file.pipe = page ∧ file.writable = writable

/-- The reference counts are the numbers of handles. -/
structure FilesOk (file : Nat → File) (handles : Multiset Nat) : Prop where
  counted : ∀ f, (file f).ref = handles.count f
  typed : ∀ f, (file f).type = .none ↔ (file f).ref = 0
  bounded : ∀ f, (file f).ref ≠ 0 → f < NFILE

/-- These pages are the open pipes, and each knows which of its ends is open. -/
structure PipesOk (file : Nat → File) (mem : BitVec 32 → Bytes) (pipes : Multiset (BitVec 32)) :
    Prop where
  listed : ∀ page, page ∈ pipes ↔ ∃ writable f, (file f).IsEnd page writable
  unique : ∀ page writable f g, (file f).IsEnd page writable → (file g).IsEnd page writable → f = g
  flagged : ∀ page ∈ pipes, ∀ writable,
    load32 (mem page) (openOffset writable) ≠ 0 ↔ ∃ f, (file f).IsEnd page writable

variable {file file' : Nat → File} {handles : Multiset Nat} {mem mem' : BitVec 32 → Bytes}
  {pipes : Multiset (BitVec 32)} {f : Nat}

theorem PipesOk.frame (ok : PipesOk file mem pipes)
    (same : ∀ page ∈ pipes, mem' page = mem page) : PipesOk file mem' pipes :=
  { ok with flagged := fun page member => same page member ▸ ok.flagged page member }

/-- Only what concerns the ends of pipes matters. -/
theorem PipesOk.congr (ok : PipesOk file mem pipes)
    (same : ∀ f page writable, (file' f).IsEnd page writable ↔ (file f).IsEnd page writable) :
    PipesOk file' mem pipes where
  listed := by
    simp only [same]
    exact ok.listed
  unique := by
    simp only [same]
    exact ok.unique
  flagged := by
    simp only [same]
    exact ok.flagged

/-- A file changes its count together with its handles. -/
theorem FilesOk.update {handles' : Multiset Nat} {new : File} (ok : FilesOk file handles)
    (others : ∀ g, g ≠ f → handles'.count g = handles.count g)
    (counted : new.ref = handles'.count f)
    (typed : new.type = .none ↔ new.ref = 0) (bounded : new.ref ≠ 0 → f < NFILE) :
    FilesOk (update file f new) handles' where
  counted := (forall_update_iff file fun g new => new.ref = handles'.count g).mpr
    ⟨counted, fun g other => (ok.counted g).trans (others g other).symm⟩
  typed := (forall_update_iff file fun _ new => new.type = .none ↔ new.ref = 0).mpr
    ⟨typed, fun g _ => ok.typed g⟩
  bounded := (forall_update_iff file fun g new => new.ref ≠ 0 → g < NFILE).mpr
    ⟨bounded, fun g _ => ok.bounded g⟩

namespace Ftable

variable {ft : Ftable} {free : List (BitVec 32)}

theorem filedup_spec (files : FilesOk ft.file handles) (member : f ∈ handles) :
    ∃ ft', ft.filedup f = .ok ft' ∧ ft'.ram = ft.ram ∧ FilesOk ft'.file (f ::ₘ handles) ∧
      ∀ g page writable, (ft'.file g).IsEnd page writable ↔ (ft.file g).IsEnd page writable := by
  have pos : 0 < (ft.file f).ref := by
    rw [files.counted]
    exact count_pos.mpr member
  unfold filedup
  rw [if_neg (by omega)]
  refine ⟨_, rfl, rfl, ?_, ?_⟩
  · refine files.update (fun g other => count_cons_of_ne other _) ?_ ?_ ?_
    · rw [count_cons_self, files.counted]
    · have typed := files.typed f
      exact ⟨fun none => absurd (typed.mp none) (by omega), fun zero => absurd zero (by simp)⟩
    · intro _
      exact files.bounded f (by omega)
  · refine fun g page writable => .of_eq (apply_update_eq (File.IsEnd · page writable) ?_ g)
    rfl

theorem load_openOffset (m : Bytes) (writable other : Bool) :
    load32 (store32 m (openOffset writable) 0) (openOffset other) =
      if other = writable then 0 else load32 m (openOffset other) := by
  by_cases same : other = writable
  · rw [if_pos same, same, load32_store32_self]
  rw [if_neg same]
  refine load32_store32_of_ne m 0 ?_
  cases writable with
  | false | true => cases other <;> simp_all [openOffset]

theorem both_zero (m : Bytes) (writable : Bool) :
    (load32 (store32 m (openOffset writable) 0) (openOffset false) = 0 ∧
      load32 (store32 m (openOffset writable) 0) (openOffset true) = 0) ↔
      load32 m (openOffset !writable) = 0 := by
  rw [load_openOffset, load_openOffset]
  cases writable <;> simp

variable [Layout]

/-- `pipeclose` of one end; `file` is the table before the end was closed. -/
theorem pipeclose_spec {page : BitVec 32} {writable : Bool} (balance : Balance ft.ram free pipes)
    (pipesOk : PipesOk file ft.ram.mem pipes) (ended : (file f).IsEnd page writable)
    (closed : ∀ g page' writable', (ft.file g).IsEnd page' writable' ↔
      g ≠ f ∧ (file g).IsEnd page' writable') :
    ∃ ft' free' pipes', ft.pipeclose page writable = .ok ft' ∧ ft'.file = ft.file ∧
      PipesOk ft'.file ft'.ram.mem pipes' ∧ Moves ft.ram free pipes ft'.ram free' pipes' := by
  have member : page ∈ pipes := (pipesOk.listed page).mpr ⟨writable, f, ended⟩
  have stored := balance.setPage member (store32 (ft.ram.mem page) (openOffset writable) 0)
  have elsewhere {g} {page'} {writable'}
      (ne : ¬(page' = page ∧ writable' = writable)) :
      (ft.file g).IsEnd page' writable' ↔ (file g).IsEnd page' writable' := by
    rw [closed]
    refine ⟨And.right, fun isEnd => ⟨?_, isEnd⟩⟩
    rintro rfl
    exact ne ⟨isEnd.2.1.symm.trans ended.2.1, isEnd.2.2.symm.trans ended.2.2⟩
  have gone g : ¬(ft.file g).IsEnd page writable := by
    rw [closed]
    rintro ⟨other, isEnd⟩
    exact other (pipesOk.unique page writable g f isEnd ended)
  have unique page' writable' g h
      (first : (ft.file g).IsEnd page' writable') (second : (ft.file h).IsEnd page' writable') :
      g = h :=
    pipesOk.unique page' writable' g h ((closed g page' writable').mp first).2
      ((closed h page' writable').mp second).2
  have flag := pipesOk.flagged page member (!writable)
  unfold pipeclose store
  dsimp only
  rw [setPage_mem_self]
  by_cases last : load32 (ft.ram.mem page) (openOffset !writable) = 0
  · -- The other end is closed too, and the page goes.
    rw [if_pos ((both_zero _ _).mpr last)]
    obtain ⟨rest, rfl⟩ := exists_cons_of_mem member
    obtain ⟨fresh, -⟩ := nodup_cons.mp balance.held_nodup
    obtain ⟨ram', freed, others, moves⟩ := (balance.moves stored).kfree
    rw [freed]
    refine ⟨_, _, rest, rfl, rfl, ⟨fun page' => ?_, unique, fun page' lt writable' => ?_⟩,
      stored.trans moves⟩
    · by_cases same : page' = page
      · subst same
        refine ⟨fun lt => absurd lt fresh, ?_⟩
        rintro ⟨writable', g, isEnd⟩
        by_cases kind : writable' = writable
        · exact absurd (kind ▸ isEnd) (gone g)
        · rw [Bool.eq_not_of_ne kind] at isEnd
          exact absurd last (flag.mpr ⟨g, ((closed _ _ _).mp isEnd).2⟩)
      · have listed := pipesOk.listed page'
        rw [mem_cons, or_iff_right same] at listed
        rw [listed]
        simp only [elsewhere fun both => same both.1]
    · have ne : page' ≠ page := fun same => fresh (same ▸ lt)
      rw [others page' ne, setPage_mem_of_ne _ ne,
        pipesOk.flagged page' (mem_cons_of_mem lt) writable']
      simp only [elsewhere fun both => ne both.1]
  · rw [if_neg fun both => last ((both_zero _ _).mp both)]
    refine ⟨_, free, pipes, rfl, rfl, ⟨fun page' => ?_, unique, fun page' lt writable' => ?_⟩,
      stored⟩
    · rw [pipesOk.listed page']
      by_cases same : page' = page
      · subst same
        obtain ⟨g, isEnd⟩ := flag.mp last
        refine ⟨fun _ => ⟨!writable, g, (elsewhere (by simp)).mpr isEnd⟩, fun _ => ⟨_, f, ended⟩⟩
      · simp only [elsewhere fun both => same both.1]
    by_cases same : page' = page
    · subst same
      rw [setPage_mem_self, load_openOffset]
      by_cases kind : writable' = writable
      · rw [if_pos kind, kind]
        exact ⟨fun absurdity => absurd rfl absurdity, fun ⟨g, isEnd⟩ => absurd isEnd (gone g)⟩
      · rw [if_neg kind, pipesOk.flagged page' member writable']
        simp only [elsewhere fun both => kind both.2]
    · rw [setPage_mem_of_ne _ same, pipesOk.flagged page' lt writable']
      simp only [elsewhere fun both => same both.1]

theorem fileclose_spec (balance : Balance ft.ram free pipes)
    (files : FilesOk ft.file (f ::ₘ handles)) (pipesOk : PipesOk ft.file ft.ram.mem pipes) :
    ∃ ft' free' pipes', ft.fileclose f = .ok ft' ∧ FilesOk ft'.file handles ∧
      PipesOk ft'.file ft'.ram.mem pipes' ∧ Moves ft.ram free pipes ft'.ram free' pipes' := by
  have counted := files.counted f
  rw [count_cons_self] at counted
  have inUse : (ft.file f).type ≠ .none := fun none => by
    have zero := (files.typed f).mp none
    omega
  have others g (other : g ≠ f) : handles.count g = (f ::ₘ handles).count g :=
    (count_cons_of_ne other _).symm
  unfold fileclose
  rw [if_neg (by omega)]
  by_cases more : (ft.file f).ref - 1 > 0
  · rw [if_pos more]
    refine ⟨_, free, pipes, rfl, ?_, ?_, balance.refl⟩
    · refine files.update others (by dsimp only; omega) ?_ fun _ => files.bounded f (by omega)
      exact ⟨fun none => absurd none inUse, fun zero => absurd zero (by dsimp only; omega)⟩
    refine pipesOk.congr fun g page writable =>
      .of_eq (apply_update_eq (File.IsEnd · page writable) ?_ g)
    rfl
  · rw [if_neg more]
    have files' : FilesOk (ft.setFile f { ft.file f with ref := 0, type := .none }).file handles :=
      files.update others (by dsimp only; omega) (by simp) (by simp)
    have closed g page writable :
        ((ft.setFile f { ft.file f with ref := 0, type := .none }).file g).IsEnd page writable ↔
          g ≠ f ∧ (ft.file g).IsEnd page writable := by
      by_cases same : g = f
      · subst same
        simp only [setFile, update_self]
        exact ⟨fun isEnd => (by cases isEnd.1), fun both => absurd rfl both.1⟩
      · simp only [setFile, update_of_ne same]
        exact ⟨fun isEnd => ⟨same, isEnd⟩, And.right⟩
    have kept (other : (ft.file f).type ≠ .pipe) :
        PipesOk (ft.setFile f { ft.file f with ref := 0, type := .none }).file
          ft.ram.mem pipes := by
      refine pipesOk.congr fun g page writable => ?_
      rw [closed]
      refine ⟨And.right, fun isEnd => ⟨?_, isEnd⟩⟩
      rintro rfl
      exact other isEnd.1
    cases kind : (ft.file f).type with
    | none => exact absurd kind inUse
    | inode | device => exact ⟨_, free, pipes, rfl, files', kept (kind ▸ nofun), balance.refl⟩
    | pipe =>
      obtain ⟨ft', free', pipes', ran, same, ok, moves⟩ := @pipeclose_spec _ _ f
        (ft.setFile f { ft.file f with ref := 0, type := .none }) free _ (ft.file f).pipe
        (ft.file f).writable balance pipesOk ⟨kind, rfl, rfl⟩ closed
      exact ⟨ft', free', pipes', ran, same ▸ files', ok, moves⟩

/-! ## Making a pipe -/

theorem fileclose_untyped (ref : (ft.file f).ref = 1) (type : (ft.file f).type = .none) :
    ft.fileclose f = .error .filecloseUnmatched := by
  unfold fileclose
  dsimp only
  rw [ref, type]
  rfl

omit [Layout] in
theorem filealloc_spec (files : FilesOk ft.file handles) : ft.filealloc = (none, ft) ∨
      ∃ f < NFILE, (ft.file f).ref = 0 ∧ (ft.file f).type = .none ∧
        ft.filealloc = (some f, ft.setFile f { ft.file f with ref := 1 }) := by
  unfold filealloc
  cases found : (List.range NFILE).find? fun f => (ft.file f).ref = 0 with
  | none => exact .inl rfl
  | some f =>
    have zero : (ft.file f).ref = 0 := by simpa using List.find?_some found
    exact .inr ⟨f, List.mem_range.mp (List.mem_of_find?_eq_some found), zero,
      (files.typed f).mpr zero, rfl⟩

omit [Layout] in
/-- Two files that were closed become the ends of a new pipe. -/
theorem ends_spec {f0 f1 : Nat} {page : BitVec 32} (ne : f1 ≠ f0)
    (files : FilesOk file handles) (pipesOk : PipesOk file mem pipes) (inside₀ : f0 < NFILE)
    (inside₁ : f1 < NFILE) (closed₀ : (file f0).ref = 0) (closed₁ : (file f1).ref = 0)
    (fresh : page ∉ pipes) (others : ∀ g, g ≠ f0 → g ≠ f1 → file' g = file g)
    (first : file' f0 = ⟨.pipe, 1, true, false, page⟩)
    (second : file' f1 = ⟨.pipe, 1, false, true, page⟩)
    (same : ∀ other ∈ pipes, mem' other = mem other)
    (flags : ∀ writable, load32 (mem' page) (openOffset writable) = 1) :
    FilesOk file' (f0 ::ₘ f1 ::ₘ handles) ∧ PipesOk file' mem' (page ::ₘ pipes) := by
  have unused g (zero : (file g).ref = 0) page' writable :
      ¬(file g).IsEnd page' writable := by
    intro isEnd
    have none := (files.typed g).mpr zero
    rw [isEnd.1] at none
    cases none
  have ends g page' writable : (file' g).IsEnd page' writable ↔
      (file g).IsEnd page' writable ∨ page' = page ∧ g = (if writable then f1 else f0) := by
    by_cases isFirst : g = f0
    · subst isFirst
      rw [first]
      constructor
      · rintro ⟨-, rfl, rfl⟩
        exact .inr ⟨rfl, rfl⟩
      rintro (isEnd | ⟨rfl, this⟩)
      · exact absurd isEnd (unused g closed₀ _ _)
      · cases writable with
        | false => exact ⟨rfl, rfl, rfl⟩
        | true => exact absurd this.symm ne
    · by_cases isSecond : g = f1
      · subst isSecond
        rw [second]
        constructor
        · rintro ⟨-, rfl, rfl⟩
          exact .inr ⟨rfl, rfl⟩
        rintro (isEnd | ⟨rfl, this⟩)
        · exact absurd isEnd (unused g closed₁ _ _)
        · cases writable with
          | false => exact absurd this ne
          | true => exact ⟨rfl, rfl, rfl⟩
      · rw [others g isFirst isSecond]
        cases writable <;> simp [isFirst, isSecond]
  have nowhere g writable : ¬(file g).IsEnd page writable := fun isEnd =>
    fresh ((pipesOk.listed page).mpr ⟨writable, g, isEnd⟩)
  refine ⟨⟨fun g => ?_, fun g => ?_, fun g => ?_⟩, ⟨fun page' => ?_, ?_, fun page' lt => ?_⟩⟩
  · by_cases isFirst : g = f0
    · subst isFirst
      rw [first, count_cons_self, count_cons_of_ne ne.symm, ← files.counted, closed₀]
    · rw [count_cons_of_ne isFirst]
      by_cases isSecond : g = f1
      · subst isSecond
        rw [second, count_cons_self, ← files.counted, closed₁]
      · rw [count_cons_of_ne isSecond, others g isFirst isSecond, files.counted]
  · by_cases isFirst : g = f0
    · rw [isFirst, first]
      simp
    · by_cases isSecond : g = f1
      · rw [isSecond, second]
        simp
      · rw [others g isFirst isSecond]
        exact files.typed g
  · by_cases isFirst : g = f0
    · exact fun _ => isFirst ▸ inside₀
    · by_cases isSecond : g = f1
      · exact fun _ => isSecond ▸ inside₁
      · rw [others g isFirst isSecond]
        exact files.bounded g
  · rw [mem_cons, pipesOk.listed page']
    simp only [ends]
    constructor
    · rintro (rfl | ⟨writable, g, isEnd⟩)
      · exact ⟨true, f1, .inr ⟨rfl, rfl⟩⟩
      · exact ⟨writable, g, .inl isEnd⟩
    · rintro ⟨writable, g, isEnd | ⟨same, -⟩⟩
      · exact .inr ⟨writable, g, isEnd⟩
      · exact .inl same
  · intro page' writable g h
    rw [ends, ends]
    rintro (isEnd | ⟨rfl, this⟩) (isEnd' | ⟨same', that⟩)
    · exact pipesOk.unique page' writable g h isEnd isEnd'
    · exact absurd (same' ▸ isEnd) (nowhere g writable)
    · exact absurd isEnd' (nowhere h writable)
    · exact this.trans that.symm
  · intro writable
    by_cases new : page' = page
    · rw [new, flags writable]
      exact ⟨fun _ => ⟨_, (ends _ page writable).mpr (.inr ⟨rfl, rfl⟩)⟩, fun _ => by decide⟩
    · obtain old : page' ∈ pipes := (mem_cons.mp lt).resolve_left new
      rw [same page' old, pipesOk.flagged page' old writable]
      simp only [ends, new, false_and, or_false]

/-- `pipealloc` opens both ends of a new pipe, or there is no file at all, or it closes a
file that has no type yet, which is a panic. -/
theorem pipealloc_spec (balance : Balance ft.ram free pipes) (files : FilesOk ft.file handles)
    (pipesOk : PipesOk ft.file ft.ram.mem pipes) :
    ft.pipealloc = .ok (none, ft) ∨ ft.pipealloc = .error .filecloseUnmatched ∨
    ∃ f0 f1 ft' free' pipes', ft.pipealloc = .ok (some (f0, f1), ft') ∧
      FilesOk ft'.file (f0 ::ₘ f1 ::ₘ handles) ∧ PipesOk ft'.file ft'.ram.mem pipes' ∧
      Moves ft.ram free pipes ft'.ram free' pipes' := by
  unfold pipealloc
  obtain full | ⟨f0, inside₀, zero₀, none₀, alloc₀⟩ := filealloc_spec files
  · rw [full]
    exact .inl rfl
  rw [alloc₀]
  dsimp only
  -- The second file is another one.
  cases alloc₁ : (ft.setFile f0 { ft.file f0 with ref := 1 }).filealloc with
  | mk second ft₁ =>
  unfold filealloc at alloc₁
  cases found : (List.range NFILE).find?
      fun f => ((ft.setFile f0 { ft.file f0 with ref := 1 }).file f).ref = 0 with
  | none =>
    rw [found] at alloc₁
    cases alloc₁
    refine .inr (.inl ?_)
    dsimp only [pipeallocBad]
    rw [fileclose_untyped]
    · rfl
    · simp [setFile]
    · simpa [setFile] using none₀
  | some f1 =>
    have zero₁ : ((ft.setFile f0 { ft.file f0 with ref := 1 }).file f1).ref = 0 := by
      simpa using List.find?_some found
    have inside₁ := List.mem_range.mp (List.mem_of_find?_eq_some found)
    have ne : f1 ≠ f0 := by
      rintro rfl
      simp [setFile] at zero₁
    rw [found] at alloc₁
    cases alloc₁
    simp only [setFile, update_of_ne ne] at zero₁ ⊢
    obtain ⟨ram', denied, -, -⟩ |
        ⟨page, rest, ram', rfl, given, managed, fresh, others, moves⟩ := balance.kalloc_fill
    · rw [denied]
      refine .inr (.inl ?_)
      dsimp only [pipeallocBad]
      rw [fileclose_untyped]
      · rfl
      · simp [update_of_ne ne.symm]
      · simpa [update_of_ne ne.symm] using none₀
    · rw [given]
      dsimp only [store]
      simp only [setPage_setPage, setPage_mem_self]
      generalize bytes : store32 (store32 (store32 (store32 (ram'.mem page) (openOffset false) 1)
        (openOffset true) 1) nwriteOffset 0) nreadOffset 0 = content
      have flags writable : load32 content (openOffset writable) = 1 := by
        rw [← bytes, load32_store32_of_ne _ _ (by cases writable <;> decide),
          load32_store32_of_ne _ _ (by cases writable <;> decide)]
        cases writable with
        | true => rw [load32_store32_self]
        | false => rw [load32_store32_of_ne _ _ (by decide), load32_store32_self]
      refine .inr (.inr ⟨f0, f1, _, rest, page ::ₘ pipes, rfl, ?_⟩)
      rw [← and_assoc]
      refine ⟨ends_spec ne files pipesOk inside₀ inside₁ zero₀ zero₁ fresh ?_ ?_ ?_ ?_ ?_,
        moves content⟩
      · intro g notFirst notSecond
        simp only [update_of_ne notFirst, update_of_ne notSecond]
      · simp [update_of_ne ne.symm]
      · simp
      · intro other lt
        have apart : other ≠ page := fun same => fresh (same ▸ lt)
        rw [setPage_mem_of_ne _ apart, others other apart]
      · intro writable
        rw [setPage_mem_self, flags]

end Ftable

end Xv6Rv32im.Process
