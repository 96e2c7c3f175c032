import Xv6Rv32im.Process.Ownership

/-!
# Calls on descriptors

`dup`, `close`, `open`, `pipe` and `exit` keep the kernel sound.  The one panic that
they can reach is the closing of a file without a type, after a failed allocation.
-/

namespace Xv6Rv32im.Process.Kernel

open Library.ByteWords Library.Shares Library.Run Vm Vm.Ram Function Multiset Ftable

variable [Layout] {k : Kernel} {total : Multiset (BitVec 32)} {free free' : List (BitVec 32)}
  {spaces : Nat → Option Space} {pipes pipes' : Multiset (BitVec 32)} {extra extra' : Multiset Nat}
  {i f fd : Nat}

section

variable (sound : k.Sound total free spaces pipes extra)

include sound

/-- A call changed what the processes hold besides pages. -/
theorem Sound.reprocs {procs : Nat → Proc}
    (owned : ∀ j space, (procs j).owned space = (k.procs j).owned space)
    (ok : ∀ j space mem, (k.procs j).Ok space mem → (procs j).Ok space mem)
    (handles : extra' + allHandles procs = extra + allHandles k.procs) :
    { k with procs := procs }.Sound total free spaces pipes extra' := by
  have same : ownedPages procs spaces = ownedPages k.procs spaces :=
    shares_congr fun j _ => owned j _
  exact ⟨same ▸ sound.balance, same ▸ sound.conserve,
    fun j below => ok j _ _ (sound.procs j below), handles ▸ sound.files, sound.pipes⟩

/-- A call changed the references that a process holds and those it has itself. -/
theorem Sound.rehandle {p : Proc} (lt : i < NPROC)
    (owned : ∀ space, p.owned space = (k.procs i).owned space)
    (ok : ∀ space mem, (k.procs i).Ok space mem → p.Ok space mem)
    (handles : extra' + p.handles = extra + (k.procs i).handles) :
    (k.setProc i p).Sound total free spaces pipes extra' := by
  refine sound.reprocs (fun j space => ?_) (fun j space mem pre => ?_) ?_
  · by_cases here : j = i
    · subst here
      rw [update_self, owned]
    · rw [update_of_ne here]
  · by_cases here : j = i
    · subst here
      rw [update_self]
      exact ok space mem pre
    · rwa [update_of_ne here]
  · obtain ⟨rest, whole, updated, -⟩ := shares_split (fun j => (k.procs j).handles) lt
    unfold allHandles
    rw [whole, handles_update, updated, ← add_assoc, handles, add_assoc]

/-- `ofile[fd] = 0` passes the reference to the call. -/
theorem Sound.clearFd (lt : i < NPROC) (small : fd < NOFILE)
    (here : (k.procs i).ofile fd = some f) :
    (k.clearFd i fd).Sound total free spaces pipes (f ::ₘ extra) := by
  refine sound.rehandle lt (fun _ => rfl) (fun space mem ok => ?_) ?_
  · cases space with
    | none =>
      have idle := ok.ofile fd small
      rw [here] at idle
      cases idle
    | some space =>
      refine { ok with zombie := fun zombie => ?_ }
      have gone := (ok.zombie zombie).2 fd small
      rw [here] at gone
      cases gone
  · have updated := shares_held_update (f := (k.procs i).ofile) small none
    rw [here, held_none, add_zero, held_some] at updated
    unfold Proc.handles
    rw [← updated, cons_add, ← singleton_add]
    ac_rfl

end

/-- `ofile[fd] = f` takes the reference over from the call. -/
theorem Sound.setFd (sound : k.Sound total free spaces pipes (f ::ₘ extra)) (lt : i < NPROC)
    (small : fd < NOFILE) (vacant : (k.procs i).ofile fd = none)
    (inUse : (k.procs i).state ≠ .unused) (alive : (k.procs i).state ≠ .zombie) :
    (k.setProc i { k.procs i with
      ofile := update (k.procs i).ofile fd (some f) }).Sound total free spaces pipes
        extra := by
  refine sound.rehandle lt (fun _ => rfl) (fun space mem ok => ?_) ?_
  · cases space with
    | none => exact absurd ok.state inUse
    | some space => exact { ok with zombie := fun zombie => absurd zombie alive }
  have updated := shares_held_update (f := (k.procs i).ofile) small (some f)
  rw [vacant, held_none, add_zero, held_some] at updated
  unfold Proc.handles
  rw [updated, cons_add, ← singleton_add]
  ac_rfl

omit [Layout] in
theorem mem_allHandles (lt : i < NPROC) (small : fd < NOFILE)
    (here : (k.procs i).ofile fd = some f) : f ∈ allHandles k.procs :=
  mem_shares.mpr ⟨i, lt, mem_shares.mpr ⟨fd, small, mem_held.mpr here⟩⟩

theorem Sound.fileclose (sound : k.Sound total free spaces pipes (f ::ₘ extra)) :
    ∃ ft free' pipes', k.fileclose f = .ok ft ∧
      (k.setFtable ft).Sound total free' spaces pipes' extra := by
  have files := sound.files
  rw [cons_add] at files
  obtain ⟨ft, free', pipes', ran, files', pipesOk, moves⟩ :=
    fileclose_spec (add_comm _ pipes ▸ sound.balance).part files sound.pipes
  exact ⟨ft, free', pipes', ran, sound.table files' pipesOk moves⟩

theorem Sound.filedup (sound : k.Sound total free spaces pipes extra)
    (member : f ∈ allHandles k.procs) :
    ∃ ft, k.filedup f = .ok ft ∧ (k.setFtable ft).Sound total free spaces pipes (f ::ₘ extra) := by
  obtain ⟨ft, ran, same, files, ends⟩ :=
    filedup_spec sound.files (mem_add.mpr (.inr member))
  rw [← cons_add] at files
  refine ⟨ft, ran, sound.table files ?_ ?_⟩
  · rw [same]
    exact sound.pipes.congr ends
  · rw [same]
    exact ⟨sound.balance.chain, rfl, fun _ _ => rfl⟩

/-! ## `exit` -/

/-- The kernel is sound for some choice of the pages. -/
def Safe (k : Kernel) (total : Multiset (BitVec 32)) : Prop :=
  ∃ free spaces pipes, k.Sound total free spaces pipes 0

theorem exitFile_spec (safe : k.Safe total) (lt : i < NPROC) (small : fd < NOFILE) :
    ∃ k', exitFile i k fd = .ok k' ∧ k'.Safe total ∧
      (k'.procs i).state = (k.procs i).state ∧ (k'.procs i).argv = (k.procs i).argv ∧
      (k'.procs i).ofile = update (k.procs i).ofile fd none := by
  obtain ⟨free, spaces, pipes, sound⟩ := safe
  unfold exitFile
  cases here : (k.procs i).ofile fd with
  | none =>
    refine ⟨k, rfl, ⟨free, spaces, pipes, sound⟩, rfl, rfl, ?_⟩
    rw [← here, update_eq_self]
  | some f =>
    -- Closing the file and clearing the descriptor may be done in either order.
    obtain ⟨ft, free', pipes', ran, sound'⟩ := (sound.clearFd lt small here).fileclose
    have ran : k.fileclose f = .ok ft := ran
    dsimp only
    rw [ran]
    refine ⟨_, rfl, ⟨free', spaces, pipes', sound'⟩, ?_⟩
    simp [setProc]

omit [Layout] in
theorem reparent_procs (k : Kernel) (i j : Nat) :
    ∃ parent, (k.reparent i).procs j = { k.procs j with parent := parent } := by
  unfold Kernel.reparent
  by_cases child : (k.procs j).parent = some i
  · exact ⟨some k.initproc, if_pos child⟩
  · exact ⟨(k.procs j).parent, if_neg child⟩

theorem Sound.reparent (sound : k.Sound total free spaces pipes extra) :
    (k.reparent i).Sound total free spaces pipes extra := by
  refine sound.reprocs (fun j space => ?_) (fun j space mem ok => ?_) (congrArg (extra + ·) ?_)
  · obtain ⟨parent, same⟩ := k.reparent_procs i j
    change ((k.reparent i).procs j).owned space = _
    rw [same]
    rfl
  · obtain ⟨parent, same⟩ := k.reparent_procs i j
    change ((k.reparent i).procs j).Ok space mem
    rw [same]
    cases space with
    | none | some => exact { ok with }
  · refine shares_congr fun j _ => ?_
    obtain ⟨parent, same⟩ := k.reparent_procs i j
    change ((k.reparent i).procs j).handles = _
    rw [same]
    rfl

/-- `exit` leaves the process without descriptors for its parent to find. -/
theorem exit_spec (status : BitVec 32) (safe : k.Safe total) (lt : i < NPROC)
    (runs : (k.procs i).state = .runnable) (ready : (k.procs i).argv = none) :
    k.exit i status = .error .initExiting ∨ ∃ k', k.exit i status = .ok k' ∧ k'.Safe total := by
  unfold exit
  by_cases init : i = k.initproc
  · exact .inl (if_pos init)
  rw [if_neg init]
  obtain ⟨closed, ran, safe', runs', ready', empty⟩ := foldlM_range _
    (fun fd (k' : Kernel) => k'.Safe total ∧ (k'.procs i).state = .runnable ∧
      (k'.procs i).argv = none ∧ ∀ fd' < fd, (k'.procs i).ofile fd' = none)
    ⟨safe, runs, ready, nofun⟩
    (fun fd small k' ⟨safe', runs', ready', empty⟩ => by
      obtain ⟨next, round, safe'', state, argv, ofile⟩ := exitFile_spec safe' lt small
      refine ⟨next, round, safe'', state.trans runs', argv.trans ready', fun fd' below => ?_⟩
      rw [ofile]
      by_cases same : fd' = fd
      · rw [same, update_self]
      · rw [update_of_ne same]
        exact empty fd' (by omega)) (le_refl NOFILE)
  rw [ran]
  obtain ⟨free, spaces, pipes, sound⟩ := safe'
  obtain ⟨parent, same⟩ := closed.reparent_procs i i
  refine .inr ⟨_, rfl, free, spaces, pipes,
    sound.reparent.rehandle lt (fun _ => rfl) (fun space mem ok => ?_) rfl⟩
  cases space with
  | none =>
    have idle := ok.state
    rw [same] at idle
    exact absurd (runs'.symm.trans idle) nofun
  | some space =>
    refine ⟨nofun, ok.pagetable, ok.image, fun _ => ?_⟩
    rw [same]
    exact ⟨ready', empty⟩

/-! ## `dup`, `close` and `open` -/

omit [Layout] in
theorem argfd_spec {fd : BitVec 32} (given : k.argfd i fd = some f) :
    fd.toNat < NOFILE ∧ (k.procs i).ofile fd.toNat = some f := by
  unfold argfd at given
  by_cases small : fd.toNat < NOFILE
  · rw [if_pos small] at given
    exact ⟨small, given⟩
  · rw [if_neg small] at given
    cases given

omit [Layout] in
theorem fdalloc_spec (k : Kernel) (i f : Nat) :
    k.fdalloc i f = (none, k) ∨ ∃ fd < NOFILE, (k.procs i).ofile fd = none ∧
      k.fdalloc i f = (some fd, k.setProc i { k.procs i with
        ofile := update (k.procs i).ofile fd (some f) }) := by
  unfold fdalloc
  cases found : (List.range NOFILE).find? fun fd => (k.procs i).ofile fd = none with
  | none => exact .inl rfl
  | some fd =>
    exact .inr ⟨fd, List.mem_range.mp (List.mem_of_find?_eq_some found),
      by simpa using List.find?_some found, rfl⟩

theorem sysDup_spec (fd : BitVec 32) (safe : k.Safe total) (lt : i < NPROC)
    (runs : (k.procs i).state = .runnable) :
    ∃ result k', k.sysDup i fd = .ok (result, k') ∧ k'.Safe total := by
  obtain ⟨free, spaces, pipes, sound⟩ := safe
  unfold sysDup
  cases given : k.argfd i fd with
  | none => exact ⟨_, k, rfl, free, spaces, pipes, sound⟩
  | some f =>
    obtain ⟨small, here⟩ := argfd_spec given
    dsimp only
    obtain full | ⟨new, lt', vacant, alloc⟩ := k.fdalloc_spec i f
    · rw [full]
      exact ⟨_, k, rfl, free, spaces, pipes, sound⟩
    -- The reference is counted after the descriptor is set; the order does not matter.
    obtain ⟨ft, ran, sound'⟩ := sound.filedup (mem_allHandles lt small here)
    have sound'' := sound'.setFd lt lt' vacant (runs ▸ nofun) (runs ▸ nofun)
    rw [alloc]
    dsimp only
    rw [show (k.setProc i _).filedup f = .ok ft from ran]
    exact ⟨_, _, rfl, free, spaces, pipes, sound''⟩

theorem sysClose_spec (fd : BitVec 32) (safe : k.Safe total) (lt : i < NPROC) :
    ∃ result k', k.sysClose i fd = .ok (result, k') ∧ k'.Safe total := by
  obtain ⟨free, spaces, pipes, sound⟩ := safe
  unfold sysClose
  cases given : k.argfd i fd with
  | none => exact ⟨_, k, rfl, free, spaces, pipes, sound⟩
  | some f =>
    obtain ⟨small, here⟩ := argfd_spec given
    obtain ⟨ft, free', pipes', ran, sound'⟩ := (sound.clearFd lt small here).fileclose
    dsimp only
    rw [ran]
    exact ⟨_, _, rfl, free', spaces, pipes', sound'⟩

theorem Sound.opened (type : FdType) (readable writable : Bool)
    (sound : k.Sound total free spaces pipes extra) (small : f < NFILE)
    (closed : (k.file f).ref = 0) (kind : type ≠ .none) (other : type ≠ .pipe) :
    (k.setFtable (k.setFile f ⟨type, 1, readable, writable, (k.file f).pipe⟩)).Sound total free
      spaces pipes (f ::ₘ extra) := by
  have none : (k.file f).type = .none := (sound.files.typed f).mpr closed
  refine sound.table ?_ (sound.pipes.congr fun g page end' => ?_)
    ⟨sound.balance.chain, rfl, fun _ _ => rfl⟩
  · rw [cons_add]
    refine sound.files.update (fun g differ => count_cons_of_ne differ _) ?_ ?_ fun _ => small
    · rw [count_cons_self, ← sound.files.counted, closed]
    · exact ⟨fun absurdity => absurd absurdity kind, by simp⟩
  by_cases same : g = f
  · subst same
    simp only [setFile, update_self]
    constructor
    · exact fun isEnd => absurd isEnd.1 other
    · exact fun isEnd => absurd (isEnd.1.symm.trans none) (by simp)
  · simp only [setFile, update_of_ne same]

theorem sysOpen_spec (device readable writable : Bool) (safe : k.Safe total) (lt : i < NPROC)
    (runs : (k.procs i).state = .runnable) :
    k.sysOpen i device readable writable = .error .filecloseUnmatched ∨
      ∃ result k', k.sysOpen i device readable writable = .ok (result, k') ∧ k'.Safe total := by
  obtain ⟨free, spaces, pipes, sound⟩ := safe
  unfold sysOpen
  obtain full | ⟨f, small, closed, none, alloc⟩ := filealloc_spec sound.files
  · rw [full]
    exact .inr ⟨_, _, rfl, free, spaces, pipes, sound⟩
  rw [alloc]
  dsimp only
  obtain full | ⟨fd, lt', vacant, given⟩ :=
    (k.setFtable (k.setFile f { k.file f with ref := 1 })).fdalloc_spec i f
  · rw [full]
    refine .inl ?_
    dsimp only
    rw [fileclose_untyped]
    · rfl
    · simp [setFtable, setFile]
    · simpa [setFtable, setFile] using none
  · rw [given]
    have opened := (sound.opened (if device then .device else .inode) readable writable small
      closed (by cases device <;> simp) (by cases device <;> simp)).setFd lt lt'
      vacant (by simp [setFtable, runs]) (by simp [setFtable, runs])
    refine .inr ⟨_, _, rfl, free, spaces, pipes, ?_⟩
    convert opened using 1
    simp [setFtable, setFile, setProc]

/-! ## `pipe` -/

/-- The error path of `sys_pipe`, once both references are back with the call. -/
theorem Sound.closeBoth {rf wf : Nat} (sound : k.Sound total free spaces pipes (rf ::ₘ wf ::ₘ 0)) :
    ∃ ft ft', k.fileclose rf = .ok ft ∧ ft.fileclose wf = .ok ft' ∧
      (k.setFtable ft').Safe total := by
  obtain ⟨ft, free', pipes', ran, sound'⟩ := sound.fileclose
  obtain ⟨ft', free'', pipes'', ran', sound''⟩ := sound'.fileclose
  exact ⟨ft, ft', ran, ran', free'', spaces, pipes'', sound''⟩

theorem sysPipeBad_spec {fds : List Nat} {rf wf : Nat}
    (cleared : (fds.foldl (fun k fd => k.clearFd i fd) k).Sound total free spaces pipes
      (rf ::ₘ wf ::ₘ 0)) :
    ∃ result k', k.sysPipeBad i fds rf wf = .ok (result, k') ∧ k'.Safe total := by
  obtain ⟨ft, ft', ran, ran', safe⟩ := cleared.closeBoth
  unfold sysPipeBad
  dsimp only
  rw [ran]
  simp only [ok_bind]
  rw [ran']
  exact ⟨_, _, rfl, safe⟩

theorem sysPipe_spec (fdarray : BitVec 32) (safe : k.Safe total) (lt : i < NPROC)
    (runs : (k.procs i).state = .runnable) :
    k.sysPipe i fdarray = .error .filecloseUnmatched ∨
      ∃ result k', k.sysPipe i fdarray = .ok (result, k') ∧ k'.Safe total := by
  obtain ⟨free, spaces, pipes, sound⟩ := safe
  have balance := sound.balance
  rw [add_comm] at balance
  unfold sysPipe
  obtain full | panics | ⟨rf, wf, ft, free', pipes', made, files, pipesOk, moves⟩ :=
    pipealloc_spec balance.part sound.files sound.pipes
  · rw [full]
    exact .inr ⟨_, _, rfl, free, spaces, pipes, sound⟩
  · rw [panics]
    exact .inl rfl
  rw [made]
  simp only [ok_bind]
  have sound₁ : (k.setFtable ft).Sound total free' spaces pipes' (rf ::ₘ wf ::ₘ 0) :=
    sound.table (by rwa [cons_add, cons_add]) pipesOk moves
  have runs₁ : ((k.setFtable ft).procs i).state = .runnable := runs
  generalize k.setFtable ft = k₁ at sound₁ runs₁ ⊢
  refine .inr ?_
  obtain full | ⟨fd0, small₀, vacant₀, alloc₀⟩ := k₁.fdalloc_spec i rf
  · rw [full]
    exact sysPipeBad_spec sound₁
  rw [alloc₀]
  dsimp only
  have sound₂ := sound₁.setFd lt small₀ vacant₀ (runs₁ ▸ nofun) (runs₁ ▸ nofun)
  have runs₂ : ((k₁.setProc i { k₁.procs i with
      ofile := update (k₁.procs i).ofile fd0 (some rf) }).procs i).state = .runnable := by
    simpa [setProc] using runs₁
  have here₂ : ((k₁.setProc i { k₁.procs i with
      ofile := update (k₁.procs i).ofile fd0 (some rf) }).procs i).ofile fd0 = some rf := by
    simp [setProc]
  generalize k₁.setProc i _ = k₂ at sound₂ runs₂ here₂ ⊢
  obtain full | ⟨fd1, small₁, vacant₁, alloc₁⟩ := k₂.fdalloc_spec i wf
  · rw [full]
    exact sysPipeBad_spec (sound₂.clearFd lt small₀ here₂)
  rw [alloc₁]
  dsimp only
  have ne : fd0 ≠ fd1 := by
    rintro rfl
    rw [here₂] at vacant₁
    cases vacant₁
  have sound₃ := sound₂.setFd lt small₁ vacant₁ (runs₂ ▸ nofun) (runs₂ ▸ nofun)
  have fields₃ : ((k₂.setProc i { k₂.procs i with
      ofile := update (k₂.procs i).ofile fd1 (some wf) }).procs i).state = .runnable ∧
      ((k₂.setProc i { k₂.procs i with
        ofile := update (k₂.procs i).ofile fd1 (some wf) }).procs i).ofile fd0 = some rf ∧
      ((k₂.setProc i { k₂.procs i with
        ofile := update (k₂.procs i).ofile fd1 (some wf) }).procs i).ofile fd1 =
        some wf := by
    simpa [setProc, update_of_ne ne] using ⟨runs₂, here₂⟩
  generalize k₂.setProc i _ = k₃ at sound₃ fields₃ ⊢
  obtain ⟨runs₃, first, second⟩ := fields₃
  -- Every error from here on clears both descriptors.
  have bad {ram : Ram} (sound : (k₃.setRam ram).Sound total free' spaces pipes' 0) :
      ∃ result k', (k₃.setRam ram).sysPipeBad i [fd0, fd1] rf wf = .ok (result, k') ∧
        k'.Safe total := by
    have cleared := (sound.clearFd lt small₀ first).clearFd lt small₁ (f := wf) (by
      simpa [clearFd, setProc, setRam, update_of_ne ne.symm] using second)
    rw [cons_swap] at cleared
    exact sysPipeBad_spec cleared
  obtain ⟨pagetable, table, copy⟩ := sound₃.copyout lt (runs₃ ▸ nofun)
  rw [table]
  dsimp only
  obtain ⟨copied, ram₄, ran₄, sound₄⟩ := copy fdarray _
  rw [ran₄]
  simp only [ok_bind]
  cases copied with
  | false => exact bad sound₄
  | true =>
    rw [if_pos rfl]
    obtain ⟨pagetable', table', copy'⟩ := sound₄.copyout lt (runs₃ ▸ nofun)
    obtain rfl : pagetable = pagetable' := Option.some.inj (table.symm.trans table')
    obtain ⟨copied', ram₅, ran₅, sound₅⟩ := copy' _ _
    rw [ran₅]
    simp only [ok_bind]
    cases copied' with
    | false => exact bad sound₅
    | true => exact ⟨_, _, rfl, free', spaces, pipes', sound₅⟩

end Xv6Rv32im.Process.Kernel
