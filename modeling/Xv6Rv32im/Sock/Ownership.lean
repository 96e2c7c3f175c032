import Xv6Rv32im.Sock.SocketList

/-!
# Open files and their control blocks

`sys_connect`, the closing of descriptors, and what `fork` and `exit` do with them, over the table
of open files.  A socket that was opened with a full table, or with a type that is neither TCP nor
UDP, has no control block.
-/

namespace Xv6Rv32im.Sock

open Library.Run Function List

def NFILE : Nat := 100

def NOFILE : Nat := 16

/-- The types of files that the calls below make. -/
inductive FileType where
  | FD_NONE
  | FD_SOCKET
  deriving DecidableEq

/-- `struct file`, with the page of its socket. -/
structure File where
  type : FileType
  ref : Nat
  sock : Option Nat
  deriving DecidableEq

/-- The sockets, the table of files, and the descriptors of every process. -/
structure System where
  net : Sockets
  file : Nat → File
  ofile : Nat → Nat → Option Nat

inductive Syscall where
  /-- `sys_connect` of process `p`, with the page that `kalloc` hands out. -/
  | connect (p : Nat) (type : BitVec 32) (refused : Bool) (page : Option Nat)
  | close (p fd : Nat)
  /-- `fork` of process `p`, which makes process `q`. -/
  | fork (p q : Nat)
  | exit (p : Nat)
  deriving DecidableEq

namespace System

def init : System := ⟨Sockets.init, fun _ => ⟨.FD_NONE, 0, none⟩, fun _ _ => none⟩

def setFile (sys : System) (f : Nat) (file : File) : System :=
  { sys with file := update sys.file f file }

def setOfile (sys : System) (p fd : Nat) (f : Option Nat) : System :=
  { sys with ofile := update sys.ofile p (update (sys.ofile p) fd f) }

def filealloc (sys : System) : Option Nat :=
  (range NFILE).find? fun f => (sys.file f).ref = 0

def filedup (sys : System) (f : Nat) : Except Fault System :=
  if (sys.file f).ref < 1 then .error .filedup
  else .ok (sys.setFile f { sys.file f with ref := (sys.file f).ref + 1 })

/-- `fileclose`; what `socket_close` returns is not looked at. -/
def fileclose (sys : System) (f : Nat) : Except Fault System :=
  let ff := sys.file f
  if ff.ref < 1 then .error .fileclose
  else if 0 < ff.ref - 1 then .ok (sys.setFile f { ff with ref := ff.ref - 1 })
  else
    let sys := sys.setFile f { ff with ref := 0, type := .FD_NONE }
    match ff.type with
    | .FD_SOCKET =>
      match ff.sock with
      | none => .error .null
      | some s => (sys.net.socketClose s).map fun closed => { sys with net := closed.2 }
    | .FD_NONE => .error .fileclose

def fdalloc (sys : System) (p f : Nat) : Int × System :=
  match (range NOFILE).find? fun fd => (sys.ofile p fd).isNone with
  | none => (-1, sys)
  | some fd => (fd, sys.setOfile p fd (some f))

/-- `sys_connect`; the test of the unsigned `fd` never succeeds. -/
def sysConnect (sys : System) (p : Nat) (type : BitVec 32) (refused : Bool) (page : Option Nat) :
    Except Fault System :=
  match sys.filealloc, page with
  | some f, some s =>
    if s < PAGES ∧ sys.net.page s = none then
      let (result, net) := sys.net.socketAlloc s (type.setWidth 8) refused
      let sys := { sys.setFile f ⟨.FD_SOCKET, 1, some s⟩ with net := net }
      if result < 0 then .ok sys else .ok (sys.fdalloc p f).2
    else .ok sys
  | _, _ => .error .null

/-- One descriptor of `sys_close` or of the loop in `exit`. -/
def closeFd (p : Nat) (sys : System) (fd : Nat) : Except Fault System :=
  match sys.ofile p fd with
  | none => .ok sys
  | some f => (sys.setOfile p fd none).fileclose f

def forkFd (p q : Nat) (sys : System) (fd : Nat) : Except Fault System :=
  match sys.ofile p fd with
  | none => .ok sys
  | some f => (sys.filedup f).map fun sys => sys.setOfile q fd (some f)

/-- A call; `fork` makes a process without descriptors. -/
def step (sys : System) : Syscall → Except Fault System
  | .connect p type refused page => sys.sysConnect p type refused page
  | .close p fd => if fd < NOFILE then closeFd p sys fd else .ok sys
  | .fork p q =>
    if ∀ fd < NOFILE, sys.ofile q fd = none then run (forkFd p q) sys (range NOFILE)
    else .ok sys
  | .exit p => run (closeFd p) sys (range NOFILE)

/-! ## Every open socket owns its control block -/

def Live (sys : System) (f : Nat) : Prop :=
  (sys.file f).type = .FD_SOCKET ∧ (sys.file f).ref ≠ 0

instance (sys : System) (f : Nat) : Decidable (sys.Live f) := inferInstanceAs (Decidable (_ ∧ _))

def Holds (sys : System) (f page : Nat) (s : Socket) (t : Table) : Prop :=
  (sys.file f).sock = some page ∧ sys.net.page page = some s ∧ tableOf s.type = some t ∧
    s.cbIdx.toNat < CB_TABLE_SIZE

structure Inv (sys : System) : Prop where
  lists : ∃ l, sys.net.Lists l
  owned : sys.net.Owned
  holds : ∀ f, sys.Live f → ∃ page s t, sys.Holds f page s t
  only : ∀ f g, sys.Live f → sys.Live g → (sys.file f).sock = (sys.file g).sock → f = g

variable {sys next : System} {p q f fd : Nat} {refused : Bool} {page : Nat}

theorem init_inv : init.Inv where
  lists := ⟨[], Sockets.init_lists⟩
  owned := Sockets.init_owned
  holds := fun _ live => absurd rfl live.2
  only := fun _ _ live => absurd rfl live.2

/-- The invariant does not depend on the descriptors, nor on how many there are for a file. -/
theorem Inv.congr (inv : sys.Inv) (net : next.net = sys.net)
    (live : ∀ f, next.Live f → sys.Live f ∧ (next.file f).sock = (sys.file f).sock) : next.Inv := by
  constructor
  · rw [net]
    exact inv.lists
  · rw [net]
    exact inv.owned
  · intro f isLive
    obtain ⟨wasLive, sock⟩ := live f isLive
    obtain ⟨page, s, t, holds⟩ := inv.holds f wasLive
    refine ⟨page, s, t, ?_⟩
    unfold Holds
    rw [sock, net]
    exact holds
  · intro f g isLive isLive' same
    obtain ⟨wasLive, sock⟩ := live f isLive
    obtain ⟨wasLive', sock'⟩ := live g isLive'
    rw [sock, sock'] at same
    exact inv.only f g wasLive wasLive' same

theorem Inv.setRef {ref : Nat} {ff : File} (inv : sys.Inv)
    (same : ff = { sys.file f with ref := ref })
    (referred : (sys.file f).ref ≠ 0) : (sys.setFile f ff).Inv := by
  subst same
  refine inv.congr rfl fun g isLive => ?_
  unfold Live setFile at isLive ⊢
  dsimp only at isLive ⊢
  rw [update_apply] at isLive ⊢
  split at isLive
  next same =>
    rw [if_pos same, same]
    exact ⟨⟨isLive.1, referred⟩, rfl⟩
  next ne =>
    rw [if_neg ne]
    exact ⟨isLive, rfl⟩

theorem Inv.filedup (inv : sys.Inv) (dup : sys.filedup f = .ok next) : next.Inv := by
  unfold System.filedup at dup
  split at dup
  · cases dup
  next pos =>
    cases dup
    exact inv.setRef rfl (by omega)

theorem Inv.forkFd (inv : sys.Inv) (ran : forkFd p q sys fd = .ok next) : next.Inv := by
  unfold System.forkFd at ran
  split at ran
  · cases ran
    exact inv
  next f _ =>
    obtain ⟨middle, dup, rfl⟩ := of_map_eq_ok ran
    exact (inv.filedup dup).congr rfl fun g isLive => ⟨isLive, rfl⟩

/-! ## Closing -/

/-- The close of the file, if it is the last one, does not free the first of several sockets. -/
def TidyFile (sys : System) (f : Nat) : Prop :=
  (sys.file f).ref = 1 → ∀ page ∈ (sys.file f).sock, ∀ s ∈ sys.net.page page,
    (sys.net.block s).isSome → sys.net.Behind page s

/-- A file becomes free and its socket leaves the list: the other files keep their sockets. -/
theorem Inv.free {l : List Nat} {ff : File} (inv : sys.Inv) (lists : sys.net.Lists l)
    (wasLive : sys.Live f) (sock : (sys.file f).sock = some page) (unused : ff.ref = 0)
    (file : next.file = update sys.file f ff) (lists' : next.net.Lists (l.erase page))
    (owned' : next.net.Owned) (pages : ∀ q s', next.net.page q = some s' →
      ∃ s'', sys.net.page q = some s'' ∧ s'.type = s''.type ∧ s'.cbIdx = s''.cbIdx) : next.Inv := by
  have other g (isLive : next.Live g) : g ≠ f ∧ sys.Live g ∧ next.file g = sys.file g := by
    have ne : g ≠ f := by
      rintro rfl
      unfold Live at isLive
      rw [file, update_self] at isLive
      exact isLive.2 unused
    have same : next.file g = sys.file g := by rw [file, update_of_ne ne]
    unfold Live at isLive
    rw [same] at isLive
    exact ⟨ne, isLive, same⟩
  refine ⟨⟨_, lists'⟩, owned', fun g isLive => ?_, fun g g' isLive isLive' same => ?_⟩
  · obtain ⟨ne, wasLive', same⟩ := other g isLive
    obtain ⟨page', s', t', sock', isSock', known', small'⟩ := inv.holds g wasLive'
    have away : page' ≠ page := by
      rintro rfl
      exact ne (inv.only g f wasLive' wasLive (sock'.trans sock.symm))
    have kept : (next.net.page page').isSome = true := by
      rw [← lists'.all]
      refine (lists.nodup.mem_erase_iff).mpr ⟨away, (lists.all page').mpr ?_⟩
      rw [isSock']
      rfl
    obtain ⟨s'', isSock''⟩ := Option.isSome_iff_exists.mp kept
    obtain ⟨s₀, isOld, type, cbIdx⟩ := pages page' s'' isSock''
    rw [isSock'] at isOld
    cases isOld
    refine ⟨page', s'', t', ?_, isSock'', ?_, ?_⟩
    · rw [same]
      exact sock'
    · rw [type]
      exact known'
    · rw [cbIdx]
      exact small'
  · obtain ⟨-, wasLive₁, same₁⟩ := other g isLive
    obtain ⟨-, wasLive₂, same₂⟩ := other g' isLive'
    rw [same₁, same₂] at same
    exact inv.only g g' wasLive₁ wasLive₂ same

theorem Holds.block {s : Socket} {t : Table} (owned : sys.net.Owned)
    (holds : sys.Holds f page s t) :
    sys.net.block s = some (t, s.cbIdx.toNat) := by
  obtain ⟨-, isSock, known, small⟩ := holds
  unfold Sockets.block
  rw [known]
  exact if_pos ⟨small, owned.used page s t isSock known small⟩

theorem Inv.fileclose (inv : sys.Inv) (tidy : sys.TidyFile f)
    (closed : sys.fileclose f = .ok next) : next.Inv := by
  unfold System.fileclose at closed
  dsimp only at closed
  split at closed
  · cases closed
  next pos =>
    split at closed
    next more =>
      cases closed
      exact inv.setRef rfl (by omega)
    next last =>
      split at closed
      next isSocket =>
        have wasLive : sys.Live f := ⟨isSocket, by omega⟩
        obtain ⟨page, s, t, holds⟩ := inv.holds f wasLive
        obtain ⟨l, lists⟩ := inv.lists
        have block := holds.block inv.owned
        obtain ⟨sock, isSock, -, -⟩ := holds
        have behind := tidy (by omega) page sock s isSock (by rw [block]; rfl)
        obtain ⟨net, ran, lists', owned', freed⟩ :=
          Sockets.socketClose_spec lists inv.owned isSock block behind
        rw [sock] at closed
        change (sys.net.socketClose page).map _ = _ at closed
        rw [ran] at closed
        cases closed
        exact inv.free lists wasLive sock rfl rfl lists' owned' fun _ _ isSock =>
          (freed.old isSock).2
      · cases closed

def TidyFd (p : Nat) (sys : System) (fd : Nat) : Prop :=
  ∀ f ∈ sys.ofile p fd, sys.TidyFile f

theorem Inv.closeFd (inv : sys.Inv) (tidy : sys.TidyFd p fd) (ran : closeFd p sys fd = .ok next) :
    next.Inv := by
  unfold System.closeFd at ran
  split at ran
  · cases ran
    exact inv
  next f isOpen =>
    have same : (sys.setOfile p fd none).Inv := inv.congr rfl fun g isLive => ⟨isLive, rfl⟩
    exact same.fileclose (tidy f isOpen) ran

/-! ## Connecting -/

def Served (sys : System) (type : BitVec 32) (refused : Bool) : Prop :=
  ∃ t, tableOf (type.setWidth 8) = some t ∧ (sys.net.freeBlock t refused).isSome

theorem socketAlloc_holds {st : Sockets} {type : BitVec 8} {t : Table} (page : Nat)
    (known : tableOf type = some t) (free : (st.freeBlock t refused).isSome) :
    ∃ s, (st.socketAlloc page type refused).2.page page = some s ∧ tableOf s.type = some t ∧
      s.cbIdx.toNat < CB_TABLE_SIZE := by
  obtain ⟨i, found⟩ := Option.isSome_iff_exists.mp free
  have inTable : i < CB_TABLE_SIZE := by
    unfold Sockets.freeBlock at found
    split at found
    · cases found
    · exact mem_range.mp (mem_of_find?_eq_some found)
  have small : (BitVec.ofNat 8 i).toNat < CB_TABLE_SIZE := by
    unfold CB_TABLE_SIZE at inTable ⊢
    rw [BitVec.toNat_ofNat]
    omega
  refine ⟨⟨st.sockets, type, BitVec.ofNat 8 i⟩, ?_, known, small⟩
  unfold Sockets.socketAlloc
  rw [known]
  dsimp only
  have found' : Sockets.freeBlock { st.setPage page (some ⟨st.sockets, type, 5⟩) with
      sockets := some page } t refused = some i := found
  rw [found']
  exact update_self ..

theorem Inv.connected {type : BitVec 32} (inv : sys.Inv) (unused : (sys.file f).ref = 0)
    (lt : page < PAGES) (fresh : sys.net.page page = none) (served : sys.Served type refused)
    (net : next.net = (sys.net.socketAlloc page (type.setWidth 8) refused).2)
    (file : next.file = update sys.file f ⟨.FD_SOCKET, 1, some page⟩) : next.Inv := by
  obtain ⟨l, lists⟩ := inv.lists
  obtain ⟨t, known, free⟩ := served
  obtain ⟨cbIdx, pages, head, -⟩ := sys.net.socketAlloc_spec page (type.setWidth 8) refused
  rw [← net] at pages head
  have old g (isLive : next.Live g) (ne : g ≠ f) :
      sys.Live g ∧ next.file g = sys.file g := by
    have same : next.file g = sys.file g := by rw [file, update_of_ne ne]
    unfold Live at isLive
    rw [same] at isLive
    exact ⟨isLive, same⟩
  have new : next.file f = ⟨.FD_SOCKET, 1, some page⟩ := by rw [file, update_self]
  have away g (wasLive : sys.Live g) : (sys.file g).sock ≠ some page := by
    intro same
    obtain ⟨page', s', t', sock', isSock', -⟩ := inv.holds g wasLive
    rw [same] at sock'
    cases sock'
    rw [fresh] at isSock'
    cases isSock'
  refine ⟨⟨page :: l, lists.push fresh lt rfl pages head⟩, ?_, fun g isLive => ?_,
    fun g g' isLive isLive' same => ?_⟩
  · rw [net]
    exact inv.owned.socketAlloc fresh _ refused
  · by_cases ne : g = f
    · subst ne
      obtain ⟨s, isSock, known', small⟩ := socketAlloc_holds page known free
      refine ⟨page, s, t, by rw [new], ?_, known', small⟩
      rw [net]
      exact isSock
    · obtain ⟨wasLive, same⟩ := old g isLive ne
      obtain ⟨page', s', t', sock', isSock', known', small'⟩ := inv.holds g wasLive
      refine ⟨page', s', t', by rw [same]; exact sock', ?_, known', small'⟩
      rw [pages, update_of_ne, isSock']
      rintro rfl
      exact away g wasLive sock'
  · by_cases isNew : g = f
    · by_cases isNew' : g' = f
      · rw [isNew, isNew']
      · obtain ⟨wasLive, kept⟩ := old g' isLive' isNew'
        rw [isNew, new, kept] at same
        exact absurd same.symm (away g' wasLive)
    · obtain ⟨wasLive, kept⟩ := old g isLive isNew
      by_cases isNew' : g' = f
      · rw [isNew', new, kept] at same
        exact absurd same (away g wasLive)
      · obtain ⟨wasLive', kept'⟩ := old g' isLive' isNew'
        rw [kept, kept'] at same
        exact inv.only g g' wasLive wasLive' same

theorem Inv.sysConnect {type : BitVec 32} {page : Option Nat} (inv : sys.Inv)
    (served : sys.Served type refused) (ran : sys.sysConnect p type refused page = .ok next) :
    next.Inv := by
  unfold System.sysConnect at ran
  split at ran
  next f s found =>
    have unused : (sys.file f).ref = 0 := by
      have isFree := find?_some found
      exact of_decide_eq_true isFree
    split at ran
    next fresh =>
      have connected : Inv { sys.setFile f ⟨.FD_SOCKET, 1, some s⟩ with
          net := (sys.net.socketAlloc s (type.setWidth 8) refused).2 } :=
        inv.connected unused fresh.1 fresh.2 served rfl rfl
      dsimp only at ran
      split at ran
      · cases ran
        exact connected
      cases ran
      unfold fdalloc
      split
      · exact connected
      · exact connected.congr rfl fun g isLive => ⟨isLive, rfl⟩
    · cases ran
      exact inv
  · cases ran

/-! ## Whole runs -/

/-- Every socket that is opened gets a control block, and none is freed that is the first of
several. -/
def Orderly (sys : System) : Syscall → Prop
  | .connect _ type refused _ => sys.Served type refused
  | .close p fd => TidyFd p sys fd
  | .fork _ _ => True
  | .exit p => Meets (closeFd p) (TidyFd p) sys (range NOFILE)

instance (sys : System) (fd : Nat) : Decidable (TidyFd p sys fd) :=
  inferInstanceAs (Decidable (∀ f ∈ sys.ofile p fd, _ → ∀ page ∈ _, ∀ s ∈ _, _ → _ → _))

instance (sys : System) : DecidablePred sys.Orderly
  | .connect _ type .. => inferInstanceAs (Decidable (∃ t, t ∈ tableOf (type.setWidth 8) ∧ _))
  | .close p fd => inferInstanceAs (Decidable (TidyFd p sys fd))
  | .fork _ _ => isTrue True.intro
  | .exit _ => inferInstanceAs (Decidable (Meets _ _ _ _))

theorem step_inv (call : Syscall) (inv : sys.Inv) (orderly : sys.Orderly call)
    (ran : sys.step call = .ok next) : next.Inv := by
  cases call with
  | connect p type refused page => exact inv.sysConnect orderly ran
  | close p fd =>
    unfold step at ran
    dsimp only at ran
    split at ran
    · exact inv.closeFd orderly ran
    · cases ran
      exact inv
  | fork p q =>
    unfold step at ran
    dsimp only at ran
    split at ran
    · have always : Meets (forkFd p q) (fun _ _ => True) sys (range NOFILE) :=
        Meets.of_forall (fun _ _ => True.intro) sys _
      exact run_invariant (fun _ _ _ inv _ ran => inv.forkFd ran) inv always ran
    · cases ran
      exact inv
  | exit p => exact run_invariant (fun _ _ _ inv tidy ran => inv.closeFd tidy ran) inv orderly ran

/-- In an orderly run every open socket has a used control block inside the table of its type, and
no two share one. -/
theorem sockets_own_blocks (calls : List Syscall) (orderly : Meets step Orderly init calls)
    (sys : System) (ran : run step init calls = .ok sys) :
    (∀ f, sys.Live f → ∃ page s t, (sys.file f).sock = some page ∧ sys.net.page page = some s ∧
      tableOf s.type = some t ∧ s.cbIdx.toNat < CB_TABLE_SIZE ∧
      sys.net.used t s.cbIdx.toNat = true) ∧
    ∀ f g page page' s s', sys.Live f → sys.Live g → f ≠ g → (sys.file f).sock = some page →
      (sys.file g).sock = some page' → sys.net.page page = some s → sys.net.page page' = some s' →
      ¬(s.type = s'.type ∧ s.cbIdx = s'.cbIdx) := by
  have inv : sys.Inv := run_invariant (fun _ call _ => step_inv call) init_inv orderly ran
  refine ⟨fun f live => ?_, fun f g page page' s s' live live' different sock sock'
    isSock isSock' => ?_⟩
  · obtain ⟨page, s, t, sock, isSock, known, small⟩ := inv.holds f live
    exact ⟨page, s, t, sock, isSock, known, small, inv.owned.used page s t isSock known small⟩
  rintro ⟨sameType, sameIdx⟩
  obtain ⟨page₀, s₀, t, sock₀, isSock₀, known, small⟩ := inv.holds f live
  rw [sock] at sock₀
  cases sock₀
  rw [isSock] at isSock₀
  cases isSock₀
  have same := inv.owned.only page page' s s' t isSock isSock' known small sameType.symm
    sameIdx.symm
  subst same
  exact different (inv.only f g live live' (sock.trans sock'.symm))

/-- A process opens a socket of each type and forks; the child closes one and exits, then the parent
closes the first one it opened. -/
theorem sockets_own_blocks_forked :
    ∃ sys, run step init [.connect 0 0 false (some 0), .connect 0 1 false (some 1), .fork 0 1,
        .close 1 0, .exit 1, .close 0 0] = .ok sys ∧ sys.Live 1 ∧
      ∃ page s t, (sys.file 1).sock = some page ∧ sys.net.page page = some s ∧
        tableOf s.type = some t ∧ s.cbIdx.toNat < CB_TABLE_SIZE ∧
        sys.net.used t s.cbIdx.toNat = true := by
  have computed : (run step init [.connect 0 0 false (some 0), .connect 0 1 false (some 1),
      .fork 0 1, .close 1 0, .exit 1, .close 0 0]).map
      (fun sys => decide (sys.Live 1)) = .ok true := by
    decide +kernel
  obtain ⟨sys, ran, decided⟩ := of_map_eq_ok computed
  have live : sys.Live 1 := of_decide_eq_true decided
  exact ⟨sys, ran, live, (sockets_own_blocks _ (by decide +kernel) sys ran).1 1 live⟩

/-- The calls with which two processes open seventeen UDP sockets. -/
def manySockets : List Syscall :=
  (range 17).map fun i => .connect (i / 16) 1 false (some i)

/-- The table holds sixteen: the seventeenth socket gets the index 255. -/
theorem seventeenth_without_block :
    ∃ sys, run step init manySockets = .ok sys ∧ sys.Live 16 ∧ sys.ofile 1 0 = some 16 ∧
      (sys.file 16).sock = some 16 ∧ sys.net.page 16 = some ⟨some 15, 1, 255⟩ ∧
      ¬(255 : BitVec 8).toNat < CB_TABLE_SIZE := by
  have computed : (run step init manySockets).map (fun sys => decide
      (sys.Live 16 ∧ sys.ofile 1 0 = some 16 ∧
        (sys.file 16).sock = some 16 ∧ sys.net.page 16 = some ⟨some 15, 1, 255⟩ ∧
        ¬(255 : BitVec 8).toNat < CB_TABLE_SIZE)) = .ok true := by
    decide +kernel
  obtain ⟨sys, ran, decided⟩ := of_map_eq_ok computed
  exact ⟨sys, ran, of_decide_eq_true decided⟩

end System

end Xv6Rv32im.Sock
