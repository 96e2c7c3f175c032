import Mathlib.Algebra.Group.Nat.Defs
import Xv6Rv32im.Log.Recovery

/-!
# Logging and committing one transaction

`log_write` collects block numbers and pins the modified buffers.  `commit`
issues four groups of writes: the log copies, the header that commits them, the
installs and the cleared header.  The disk represents the old contents before
the header write and the new contents after it.
-/

namespace Xv6Rv32im.Log

open Library.WriteSequence Function List

def commitRecords (start : Nat) (writes : List (Nat × Block)) : Nat :=
  writes.countP fun write => write.1 == start && decide (0 < (write.2 0).toInt)

theorem commitRecords_append (start : Nat) (first second : List (Nat × Block)) :
    commitRecords start (first ++ second) =
      commitRecords start first + commitRecords start second :=
  countP_append

variable {start : Nat} {m : Machine}

theorem commitRecords_of_forall_ne {writes : List (Nat × Block)}
    (elsewhere : ∀ write ∈ writes, write.1 ≠ start) : commitRecords start writes = 0 := by
  rw [commitRecords, countP_eq_zero]
  intro write mem
  simp [elsewhere write mem]

variable {header : Block} {blockno : Nat} {data : Block}

theorem commitRecords_clear (cleared : (header 0).toInt = 0) :
    commitRecords start [(start, header)] = 0 := by
  simp [commitRecords, cleared]

theorem commitRecords_commit (committed : 0 < (header 0).toInt) :
    commitRecords start [(start, header)] = 1 := by
  simp [commitRecords, committed]

/-- The updates of a transaction name blocks outside the log. -/
def HomeUpdates (start size : Nat) (updates : Machine.Transaction) : Prop :=
  ∀ update ∈ updates, update.1 ∈ homeArea start size ∧ update.1 < 2 ^ 32

namespace Machine

/-! ## Logging -/

/-- The state after the given updates were logged on top of an idle machine. -/
structure Logged (start size : Nat) (base : Machine) (updates : Transaction) (m : Machine) :
    Prop where
  disk : m.disk = base.disk
  writes_eq : m.writes = base.writes
  start_eq : m.log.start = start
  size_eq : m.log.size = size
  nonneg : 0 ≤ m.log.lh.n
  room : m.log.lh.n.toNat ≤ size - 1
  fits : m.log.lh.n ≤ LOGSIZE
  bounded : m.log.lh.n.toNat ≤ updates.length
  empty : m.log.lh.n = 0 ↔ updates = []
  home : ∀ i < m.log.lh.n.toNat, (m.log.lh.block i).toNat ∈ homeArea start size
  pinned : ∀ blockno, m.bcache blockno ≠ none →
    ∃ i < m.log.lh.n.toNat, (m.log.lh.block i).toNat = blockno
  reads : ∀ blockno, m.bread blockno = applyWrites base.disk updates blockno

theorem logSlot_cases (lh : LogHeader) (blockno : BitVec 32) :
    (logSlot lh blockno < lh.n.toNat ∧ lh.block (logSlot lh blockno) = blockno) ∨
      logSlot lh blockno = lh.n.toNat := by
  unfold logSlot
  cases found : (List.range lh.n.toNat).find? fun i => lh.block i == blockno with
  | none => exact Or.inr rfl
  | some i =>
    have bound := mem_range.mp (mem_of_find?_eq_some found)
    have named := List.find?_some found
    exact Or.inl ⟨bound, eq_of_beq named⟩

variable {start size : Nat} {updates : Transaction} {m result : Machine}

theorem logWrite_some (ran : m.logWrite blockno data = some result) :
    m.log.lh.n < LOGSIZE ∧ m.log.lh.n < (m.log.size : Int) - 1 ∧
      ∃ slot n, result = { m.bpin blockno data with
          log := { m.log with lh :=
            ⟨n, update m.log.lh.block slot (BitVec.ofNat 32 blockno)⟩ } } ∧
        ((slot < m.log.lh.n.toNat ∧ n = m.log.lh.n ∧
            m.log.lh.block slot = BitVec.ofNat 32 blockno) ∨
          (slot = m.log.lh.n.toNat ∧ n = m.log.lh.n + 1)) := by
  unfold logWrite at ran
  dsimp only at ran
  split at ran
  · cases ran
  next small =>
    split at ran
    · cases ran
    have shape := Option.some.inj ran
    refine ⟨by omega, by omega, _, _, shape.symm, ?_⟩
    rcases logSlot_cases m.log.lh _ with ⟨bound, named⟩ | fresh
    · exact Or.inl ⟨bound, if_neg (ne_of_lt bound), named⟩
    · exact Or.inr ⟨fresh, if_pos fresh⟩

theorem Logged.logWrite {base m result : Machine} (logged : Logged start size base updates m)
    (outside : blockno ∈ homeArea start size) (word : blockno < 2 ^ 32)
    (ran : m.logWrite blockno data = some result) :
    Logged start size base (updates ++ [(blockno, data)]) result := by
  obtain ⟨fits, room, slot, n, rfl, choice⟩ := logWrite_some ran
  have nonneg := logged.nonneg
  have size_eq := logged.size_eq
  have back : (BitVec.ofNat 32 blockno).toNat = blockno := by
    rw [BitVec.toNat_ofNat, Nat.mod_eq_of_lt word]
  have slot_bound : slot < n.toNat := by
    rcases choice with ⟨bound, rfl, -⟩ | ⟨rfl, rfl⟩ <;> omega
  have reads : ∀ other, (update m.bcache blockno (some data) other).getD (m.disk other) =
      applyWrites base.disk (updates ++ [(blockno, data)]) other := by
    intro other
    rw [applyWrites_append, applyWrites_cons, applyWrites_nil, update_apply, update_apply]
    split
    · rfl
    · exact logged.reads other
  have old : ∀ i < n.toNat, i ≠ slot → i < m.log.lh.n.toNat := by
    intro i bound ne
    rcases choice with ⟨_, rfl, -⟩ | ⟨rfl, rfl⟩
    · exact bound
    · omega
  refine ⟨logged.disk, logged.writes_eq, logged.start_eq, logged.size_eq,
    ?_, ?_, ?_, ?_, ?_, ?_, ?_, reads⟩
  · change 0 ≤ n
    omega
  · change n.toNat ≤ size - 1
    rcases choice with ⟨_, rfl, -⟩ | ⟨_, rfl⟩ <;> omega
  · change n ≤ LOGSIZE
    rcases choice with ⟨_, rfl, -⟩ | ⟨_, rfl⟩ <;> omega
  · change n.toNat ≤ (updates ++ [(blockno, data)]).length
    have bounded := logged.bounded
    rw [length_append, length_singleton]
    rcases choice with ⟨_, rfl, -⟩ | ⟨_, rfl⟩ <;> omega
  · change n = 0 ↔ updates ++ [(blockno, data)] = []
    constructor
    · intro zero
      rw [zero] at slot_bound
      cases slot_bound
    · intro impossible
      exact absurd impossible (by simp)
  · intro i bound
    change (update m.log.lh.block slot (BitVec.ofNat 32 blockno) i).toNat ∈ _
    by_cases same : i = slot
    · rw [same, update_self, back]
      exact outside
    · rw [update_of_ne same]
      exact logged.home i (old i bound same)
  · intro other held
    change update m.bcache blockno (some data) other ≠ none at held
    change ∃ i < n.toNat, (update m.log.lh.block slot (BitVec.ofNat 32 blockno) i).toNat = other
    by_cases same : other = blockno
    · exact ⟨slot, slot_bound, by rw [update_self, back, same]⟩
    rw [update_of_ne same] at held
    obtain ⟨i, bound, named⟩ := logged.pinned other held
    have ne : i ≠ slot := by
      rintro rfl
      rcases choice with ⟨_, _, absorbed⟩ | ⟨fresh, _⟩
      · rw [absorbed, back] at named
        exact same named.symm
      · omega
    refine ⟨i, ?_, by rw [update_of_ne ne]; exact named⟩
    rcases choice with ⟨_, rfl, -⟩ | ⟨_, rfl⟩ <;> omega

theorem Logged.logWrites {base m result : Machine} {done rest : Transaction}
    (logged : Logged start size base done m) (outside : HomeUpdates start size rest)
    (ran : m.logWrites rest = some result) : Logged start size base (done ++ rest) result := by
  induction rest generalizing m done with
  | nil =>
    rw [append_nil]
    cases Option.some.inj ran
    exact logged
  | cons update rest ih =>
    obtain ⟨middle, first, ran⟩ := Option.bind_eq_some_iff.mp ran
    obtain ⟨home, word⟩ := outside update mem_cons_self
    have next := ih (logged.logWrite home word first)
      (fun other mem => outside other (mem_cons_of_mem _ mem)) ran
    rwa [append_assoc] at next

/-- A `log_write` inside a transaction with room left does not panic. -/
theorem logWrite_isSome (blockno : Nat) (data : Block) (fits : m.log.lh.n < LOGSIZE)
    (room : m.log.lh.n < (m.log.size : Int) - 1) (lt : 1 ≤ m.log.outstanding) :
    ∃ result, m.logWrite blockno data = some result := by
  unfold Machine.logWrite
  rw [if_neg (by omega), if_neg (by omega)]
  exact ⟨_, rfl⟩

/-- Logging leaves the counters of `begin_op` and `end_op` alone. -/
theorem logWrite_counters (ran : m.logWrite blockno data = some result) :
    result.log.outstanding = m.log.outstanding ∧ result.log.committing = m.log.committing := by
  obtain ⟨-, -, slot, n, rfl, -⟩ := logWrite_some ran
  exact ⟨rfl, rfl⟩

theorem logWrites_counters (ran : m.logWrites updates = some result) :
    result.log.outstanding = m.log.outstanding ∧ result.log.committing = m.log.committing := by
  induction updates generalizing m with
  | nil =>
    cases Option.some.inj ran
    exact ⟨rfl, rfl⟩
  | cons update rest ih =>
    obtain ⟨middle, first, ran⟩ := Option.bind_eq_some_iff.mp ran
    obtain ⟨outstanding, committing⟩ := logWrite_counters first
    rw [← outstanding, ← committing]
    exact ih ran

theorem Logged.logWrites_isSome {base m : Machine} {done rest : Transaction}
    (logged : Logged start size base done m) (outside : HomeUpdates start size rest)
    (lt : 1 ≤ m.log.outstanding) (fits : done.length + rest.length ≤ LOGSIZE)
    (room : done.length + rest.length ≤ size - 1) : ∃ result, m.logWrites rest = some result := by
  induction rest generalizing m done with
  | nil => exact ⟨m, rfl⟩
  | cons update rest ih =>
    have bounded := logged.bounded
    have nonneg := logged.nonneg
    rw [length_cons] at fits room
    obtain ⟨middle, first⟩ := logWrite_isSome update.1 update.2 (by omega)
      (by rw [logged.size_eq]; omega) lt
    obtain ⟨home, word⟩ := outside update mem_cons_self
    obtain ⟨result, ran⟩ := ih (logged.logWrite home word first)
      (fun other mem => outside other (mem_cons_of_mem _ mem))
      ((logWrite_counters first).1 ▸ lt)
      (by rw [length_append, length_singleton]; omega)
      (by rw [length_append, length_singleton]; omega)
    exact ⟨result, by rw [Machine.logWrites, first]; exact ran⟩

theorem Idle.logged (idle : Idle start size m) : Logged start size m [] m where
  disk := rfl
  writes_eq := rfl
  start_eq := idle.start_eq
  size_eq := idle.size_eq
  nonneg := Int.le_of_eq idle.count.symm
  room := by
    rw [idle.count]
    exact Nat.zero_le _
  fits := by
    rw [idle.count]
    decide
  bounded := by
    rw [idle.count]
    exact Nat.zero_le _
  empty := ⟨fun _ => rfl, fun _ => idle.count⟩
  home := by
    intro i bound
    rw [idle.count] at bound
    cases bound
  pinned := fun blockno held => absurd (idle.unpinned blockno) held
  reads := fun blockno => bread_of_unpinned (idle.unpinned blockno)

/-! ## The writes of a commit -/

/-- The writes of a commit: `before` fills the log, the header commits, `after`
installs the blocks and clears the header. -/
structure CommitSequence (start size : Nat) (disk : Nat → Block) (updates : Transaction)
    (before : List (Nat × Block)) (header : Block) (after : List (Nat × Block)) : Prop where
  untouched : ∀ write ∈ before, write.1 ≠ start
  committed : 0 < (header 0).toInt
  cleared : commitRecords start after = 0
  old : Throughout (Represents start size disk) disk before
  new : Throughout (Represents start size (applyWrites disk updates))
    (applyWrites disk (before ++ [(start, header)])) after

/-- A crash inside a commit leaves the old or the new contents, according to
whether the header write reached the disk. -/
theorem CommitSequence.crash {disk : Nat → Block} {pre after : List (Nat × Block)}
    (sequence : CommitSequence start size disk updates pre header after) (count : Nat) :
    (commitRecords start ((pre ++ [(start, header)] ++ after).take count) = 0 ∧
        Represents start size disk
          (applyWrites disk ((pre ++ [(start, header)] ++ after).take count))) ∨
      (commitRecords start ((pre ++ [(start, header)] ++ after).take count) = 1 ∧
        Represents start size (applyWrites disk updates)
          (applyWrites disk ((pre ++ [(start, header)] ++ after).take count))) := by
  have quiet : ∀ length, commitRecords start (pre.take length) = 0 := fun length =>
    commitRecords_of_forall_ne fun write mem =>
      sequence.untouched write (mem_of_mem_take mem)
  by_cases early : count ≤ pre.length
  · left
    rw [append_assoc, take_append_of_le_length early]
    exact ⟨quiet count, sequence.old count⟩
  right
  have past : (pre ++ [(start, header)]).length ≤ count := by
    rw [length_append, length_singleton]
    omega
  rw [take_append, take_of_length_le past]
  constructor
  · have whole := quiet pre.length
    have rest : commitRecords start
        (after.take (count - (pre ++ [(start, header)]).length)) = 0 := by
      have none := sequence.cleared
      rw [commitRecords, countP_eq_zero] at none ⊢
      exact fun write mem => none write (mem_of_mem_take mem)
    rw [take_length] at whole
    rw [commitRecords_append, commitRecords_append, whole, rest,
      commitRecords_commit sequence.committed]
  · rw [applyWrites_append]
    exact sequence.new _

namespace Logged

variable {start size : Nat} {base m : Machine} {updates : Transaction}

/-- The counters of `begin_op` and `end_op` play no part in logging. -/
theorem counters (logged : Logged start size base updates m) (outstanding : Nat)
    (committing : Bool) :
    Logged start size base updates
      { m with log := { m.log with outstanding := outstanding, committing := committing } } :=
  ⟨logged.disk, logged.writes_eq, logged.start_eq, logged.size_eq, logged.nonneg, logged.room,
    logged.fits, logged.bounded, logged.empty, logged.home, logged.pinned, logged.reads⟩

theorem loggable (logged : Logged start size base updates m) : Loggable m where
  room := by
    rw [logged.size_eq]
    exact logged.room
  home := by
    rw [logged.size_eq, logged.start_eq]
    exact logged.home
  unpinned := by
    rw [logged.size_eq, logged.start_eq]
    intro blockno area
    by_contra held
    obtain ⟨i, bound, named⟩ := logged.pinned blockno held
    exact logged.home i bound (named ▸ area)

/-- The disk once the log copies and the header are written. -/
def committedDisk (m : Machine) : Nat → Block :=
  applyWrites m.disk (logCopies m m.log.lh.n.toNat ++
    [(m.log.start, storeHeader m.log.lh
      (applyWrites m.disk (logCopies m m.log.lh.n.toNat) m.log.start))])

theorem committedDisk_header (m : Machine) : committedDisk m m.log.start =
      storeHeader m.log.lh (applyWrites m.disk (logCopies m m.log.lh.n.toNat) m.log.start) := by
  rw [committedDisk, applyWrites_append, applyWrites_cons, applyWrites_nil, update_self]

theorem committedDisk_count (logged : Logged start size base updates m) :
    (committedDisk m m.log.start 0).toInt = m.log.lh.n := by
  have nonneg := logged.nonneg
  have fits := logged.fits
  have bound : (LOGSIZE : Int) = 30 := rfl
  rw [committedDisk_header, storeHeader_count, BitVec.toInt_ofInt]
  exact Int.bmod_eq_of_le (by omega) (by omega)

theorem committedDisk_copy (m : Machine) {i : Nat} (bound : i < m.log.lh.n.toNat) :
    committedDisk m (m.log.start + i + 1) = m.bread (m.log.lh.block i).toNat := by
  have distinct : ((logCopies m m.log.lh.n.toNat).map Prod.fst).Nodup := by
    rw [logCopies, map_map]
    exact List.Nodup.map (fun i j same => by simpa using same) nodup_range
  rw [committedDisk, applyWrites_append, applyWrites_cons, applyWrites_nil, update_of_ne (by omega)]
  exact applyWrites_of_mem_nodup _ distinct (mem_map.mpr ⟨i, mem_range.mpr bound, rfl⟩)

section

variable (logged : Logged start size base updates m)

include logged

theorem committedDisk_home : Set.EqOn (committedDisk m) m.disk (homeArea start size) := by
  have room := logged.room
  intro blockno home
  apply applyWrites_of_forall_ne
  intro write mem same
  rcases mem_append.mp mem with copy | header
  · obtain ⟨i, bound, shape⟩ := logCopies_fst copy
    rw [mem_homeArea] at home
    rw [logged.start_eq] at shape
    omega
  · rw [mem_singleton] at header
    rw [header, logged.start_eq] at same
    exact homeArea_ne_start home same.symm

/-- After the header write the disk asks for exactly the logged blocks. -/
theorem pending_committedDisk : pending start (committedDisk m) =
      (List.range m.log.lh.n.toNat).map fun i =>
        ((m.log.lh.block i).toNat, m.bread (m.log.lh.block i).toNat) := by
  rw [pending, ← logged.start_eq, logged.committedDisk_count]
  apply map_congr_left
  intro i mem
  have bound := mem_range.mp mem
  rw [committedDisk_copy m bound, committedDisk_header, storeHeader_block _ _ bound]

theorem committedDisk_represents :
    Represents start size (applyWrites base.disk updates) (committedDisk m) := by
  refine ⟨?_, ?_, ?_⟩
  · have count := logged.committedDisk_count
    rw [logged.start_eq] at count
    rw [count]
    exact logged.room
  · rw [logged.pending_committedDisk]
    intro write mem
    obtain ⟨i, lt, rfl⟩ := mem_map.mp mem
    exact logged.home i (mem_range.mp lt)
  intro blockno home
  rw [logged.pending_committedDisk, ← logged.reads]
  by_cases named : ∃ i < m.log.lh.n.toNat, (m.log.lh.block i).toNat = blockno
  · apply applyWrites_of_forall_value m.bread
    · intro write mem
      obtain ⟨i, _, rfl⟩ := mem_map.mp mem
      rfl
    · obtain ⟨i, bound, same⟩ := named
      exact ⟨_, mem_map.mpr ⟨i, mem_range.mpr bound, rfl⟩, same⟩
  have unpinned : m.bcache blockno = none := by
    by_contra held
    exact named (logged.pinned blockno held)
  rw [applyWrites_of_forall_ne, logged.committedDisk_home home, bread_of_unpinned unpinned]
  intro write mem same
  obtain ⟨i, lt, rfl⟩ := mem_map.mp mem
  exact named ⟨i, mem_range.mp lt, same⟩

/-- What `commit` does to a machine with at least one logged block. -/
theorem commit_spec (clean : (base.disk start 0).toInt = 0) (nonempty : updates ≠ []) :
    ∃ pre header after, CommitSequence start size base.disk updates pre header after ∧
      (commit m).writes = base.writes ++ (pre ++ [(start, header)] ++ after) ∧
      (commit m).disk = applyWrites base.disk (pre ++ [(start, header)] ++ after) ∧
      (commit m).log = { m.log with lh := { m.log.lh with n := 0 } } ∧
      (∀ blockno, (commit m).bcache blockno = none) ∧
      ((commit m).disk start 0).toInt = 0 := by
  have pos : 0 < m.log.lh.n := by
    have nonneg := logged.nonneg
    have nonzero : m.log.lh.n ≠ 0 := fun zero => nonempty (logged.empty.mp zero)
    omega
  let copies := logCopies m m.log.lh.n.toNat
  let header := storeHeader m.log.lh (applyWrites m.disk copies m.log.start)
  let middle := m.issue (copies ++ [(m.log.start, header)])
  have loggable := logged.loggable
  have reached : m.writeLog.writeHead = middle := by
    have unpinned : (m.issue copies).bcache (m.issue copies).log.start = none :=
      loggable.unpinned_header
    rw [show m.writeLog = _ from writeLog_prefix loggable le_rfl, writeHead_eq unpinned]
    exact issue_issue m _ _
  have installed := installTrans_spec false
    (show Loggable middle from ⟨loggable.room, loggable.home, loggable.unpinned⟩)
  have asked : installs middle middle.log.lh.n.toNat = pending start (committedDisk m) := by
    rw [logged.pending_committedDisk]
    apply map_congr_left
    intro i mem
    exact congrArg _ (committedDisk_copy m (mem_range.mp mem))
  rw [asked] at installed
  let last := (installTrans false middle).clearCount
  have log_eq : last.log = { m.log with lh := { m.log.lh with n := 0 } } :=
    congrArg (fun log : LogState => { log with lh := { log.lh with n := 0 } }) installed.log
  have start_eq : last.log.start = start := by
    rw [log_eq]
    exact logged.start_eq
  have unpinned : ∀ blockno, last.bcache blockno = none := by
    intro blockno
    by_cases held : m.bcache blockno = none
    · exact installed.unpinned blockno held
    obtain ⟨i, bound, named⟩ := logged.pinned blockno held
    have mem : ((m.log.lh.block i).toNat, m.bread (m.log.lh.block i).toNat) ∈
        pending start (committedDisk m) := by
      rw [logged.pending_committedDisk]
      exact mem_map.mpr ⟨i, mem_range.mpr bound, rfl⟩
    exact named ▸ installed.released rfl _ mem
  have final : commit m = last.issue [(start, storeHeader last.log.lh (last.disk start))] := by
    rw [commit, if_pos pos, reached]
    rw [writeHead_eq (unpinned _), start_eq]
  let cleared := storeHeader last.log.lh (last.disk start)
  have cleared_count : (cleared 0).toInt = 0 := by
    apply storeHeader_clear_count
    rw [log_eq]
  let after := pending start (committedDisk m) ++ [(start, cleared)]
  have sequence : CommitSequence start size base.disk updates copies header after := by
    have disk := logged.disk
    have start_eq := logged.start_eq
    refine ⟨?_, ?_, ?_, ?_, ?_⟩
    · intro write mem same
      obtain ⟨i, bound, shape⟩ := logCopies_fst mem
      omega
    · have count := logged.committedDisk_count
      rw [committedDisk_header] at count
      exact count.symm ▸ pos
    · rw [commitRecords_append, commitRecords_clear cleared_count, commitRecords_of_forall_ne]
      intro write mem
      exact homeArea_ne_start (logged.committedDisk_represents.home write mem)
    · intro count
      have area : ∀ write ∈ copies.take count, write.1 ≠ start ∧ write.1 ∉ homeArea start size := by
        intro write mem
        obtain ⟨i, bound, shape⟩ := logCopies_fst (mem_of_mem_take mem)
        have room := logged.room
        rw [mem_homeArea]
        omega
      apply Represents.of_clean
      · rw [applyWrites_of_forall_ne _ (fun write mem => (area write mem).1)]
        exact clean
      · exact applyWrites_eqOn_of_disjoint _ (fun write mem => (area write mem).2)
    · have repr := logged.committedDisk_represents.recovery cleared_count
      have same : applyWrites base.disk (copies ++ [(start, header)]) = committedDisk m := by
        rw [← disk, ← start_eq]
        rfl
      rw [same]
      exact repr
  have writes : (commit m).writes = base.writes ++ (copies ++ [(start, header)] ++ after) := by
    rw [final]
    change (installTrans false middle).writes ++ [(start, cleared)] = _
    rw [installed.writes_eq]
    change m.writes ++ (copies ++ [(m.log.start, header)]) ++ _ ++ [(start, cleared)] = _
    rw [logged.writes_eq, logged.start_eq]
    simp only [after, append_assoc]
  have disk : (commit m).disk = applyWrites base.disk (copies ++ [(start, header)] ++ after) := by
    rw [final]
    change applyWrites (installTrans false middle).disk [(start, cleared)] = _
    rw [installed.disk]
    change applyWrites (applyWrites (applyWrites m.disk (copies ++ [(m.log.start, header)])) _)
      [(start, cleared)] = _
    rw [logged.disk, logged.start_eq, ← applyWrites_append, ← applyWrites_append]
  refine ⟨copies, header, after, sequence, writes, disk, ?_, ?_, ?_⟩
  · rw [final]
    exact log_eq
  · rw [final]
    exact unpinned
  rw [final]
  change ((applyWrites last.disk [(start, cleared)]) start 0).toInt = 0
  rw [applyWrites_cons, applyWrites_nil, update_self]
  exact cleared_count

end

end Logged

/-! ## One transaction -/

/-- A transaction on an idle machine, from `begin_op` to the end of its commit:
the machine is idle again, and a crash at any point of it is resolved by the
header write. -/
structure Ran (start size : Nat) (m : Machine) (updates : Transaction)
    (writes : List (Nat × Block)) (result : Machine) : Prop where
  writes_eq : result.writes = m.writes ++ writes
  disk : result.disk = applyWrites m.disk writes
  idle : Idle start size result
  crash : ∀ count, (commitRecords start (writes.take count) = 0 ∧
        Represents start size m.disk (applyWrites m.disk (writes.take count))) ∨
      (commitRecords start (writes.take count) = 1 ∧ updates ≠ [] ∧
        Represents start size (applyWrites m.disk updates) (applyWrites m.disk (writes.take count)))
  whole : commitRecords start writes = if updates = [] then 0 else 1

theorem transaction_some (idle : Idle start size m) (ran : m.transaction updates = some result) :
    ∃ logged, logWrites { m with log := { m.log with outstanding := 1 } } updates = some logged ∧
      logged.log.outstanding = 1 ∧
      result =
        { commit { logged with
            log := { logged.log with outstanding := 0, committing := true } } with
          log := { (commit { logged with
            log := { logged.log with outstanding := 0, committing := true } }).log with
              committing := false } } := by
  obtain ⟨begun, first, ran⟩ := Option.bind_eq_some_iff.mp ran
  obtain ⟨logged, middle, last⟩ := Option.bind_eq_some_iff.mp ran
  have begun_eq : { m with log := { m.log with outstanding := 1 } } = begun := by
    unfold beginOp at first
    rw [idle.committing, idle.outstanding] at first
    split at first
    · cases first
    · split at first
      · cases first
      · exact Option.some.inj first
  obtain ⟨outstanding, committing⟩ := logWrites_counters middle
  rw [← begun_eq] at outstanding committing
  refine ⟨logged, begun_eq ▸ middle, outstanding, ?_⟩
  have quiet : logged.log.committing = false := committing.trans idle.committing
  simp only [endOp, outstanding, quiet] at last
  exact (Option.some.inj last).symm

/-- A transaction that fits the log runs to the end of its commit. -/
theorem transaction_isSome (idle : Idle start size m) (outside : HomeUpdates start size updates)
    (fits : updates.length ≤ LOGSIZE) (room : updates.length ≤ size - 1) :
    ∃ result, m.transaction updates = some result := by
  have begun : m.beginOp = some { m with log := { m.log with outstanding := 1 } } := by
    unfold beginOp
    rw [idle.committing, idle.outstanding, idle.count]
    rfl
  obtain ⟨logged, ran⟩ := (idle.logged.counters 1 m.log.committing).logWrites_isSome outside
    (Nat.le_refl 1) (by rwa [length_nil, Nat.zero_add]) (by rwa [length_nil, Nat.zero_add])
  obtain ⟨outstanding, committing⟩ := logWrites_counters ran
  have quiet : logged.log.committing = false := committing.trans idle.committing
  have ended : ∃ result, logged.endOp = some result := by
    unfold endOp
    dsimp only
    rw [quiet, outstanding]
    exact ⟨_, rfl⟩
  obtain ⟨result, ended⟩ := ended
  refine ⟨result, ?_⟩
  rw [transaction, begun]
  change (logWrites { m with log := { m.log with outstanding := 1 } } updates).bind
    (fun m => m.endOp) = some result
  rw [ran]
  exact ended

theorem transaction_ran (idle : Idle start size m) (outside : HomeUpdates start size updates)
    (ran : m.transaction updates = some result) :
    ∃ writes, Ran start size m updates writes result := by
  obtain ⟨middle, logging, -, shape⟩ := transaction_some idle ran
  have logged :=
    ((idle.logged.counters 1 m.log.committing).logWrites outside logging).counters 0 true
  rw [nil_append] at logged
  let ready : Machine :=
    { middle with log := { middle.log with outstanding := 0, committing := true } }
  have shape : result =
      { commit ready with log := { (commit ready).log with committing := false } } := shape
  by_cases empty : updates = []
  · have zero : ready.log.lh.n = 0 := logged.empty.mpr empty
    have unchanged : commit ready = ready := by
      rw [commit, zero]
      exact if_neg (by decide)
    have disk : ready.disk = m.disk := logged.disk
    rw [unchanged] at shape
    refine ⟨[], ?_, ?_, ?_, ?_, ?_⟩
    · rw [shape, append_nil]
      exact logged.writes_eq
    · rw [shape]
      exact disk
    · rw [shape]
      refine ⟨logged.start_eq, logged.size_eq, rfl, rfl, zero, ?_, ?_⟩
      · intro blockno
        by_contra held
        obtain ⟨i, bound, -⟩ := logged.pinned blockno held
        rw [zero] at bound
        cases bound
      · exact disk ▸ idle.clean
    · intro count
      left
      rw [take_nil]
      exact ⟨rfl, Represents.of_clean idle.clean (Set.eqOn_refl _ _)⟩
    · rw [if_pos empty]
      rfl
  · obtain ⟨pre, header, after, sequence, writes, disk, log, unpinned, clean⟩ :=
      logged.commit_spec idle.clean empty
    refine ⟨pre ++ [(start, header)] ++ after, ?_, ?_, ?_, ?_, ?_⟩
    · rw [shape]
      exact writes
    · rw [shape]
      exact disk
    · rw [shape]
      refine ⟨?_, ?_, ?_, rfl, ?_, unpinned, clean⟩
      · exact (congrArg LogState.start log).trans logged.start_eq
      · exact (congrArg LogState.size log).trans logged.size_eq
      · exact congrArg LogState.outstanding log
      · exact congrArg (fun log : LogState => log.lh.n) log
    · intro count
      rcases sequence.crash count with old | ⟨one, new⟩
      · exact Or.inl old
      · exact Or.inr ⟨one, empty, new⟩
    · have quiet : commitRecords start pre = 0 := commitRecords_of_forall_ne sequence.untouched
      rw [if_neg empty, commitRecords_append, commitRecords_append, quiet, sequence.cleared,
        commitRecords_commit sequence.committed]

end Machine

end Xv6Rv32im.Log
