import Xv6Rv32im.Log.DiskWrites

/-!
# Recovery

A disk stands for the contents that installing its committed transaction would
give.  Neither the installs nor the clearing of the header changes what the
disk stands for, so recovery may be cut short anywhere and started again.
-/

namespace Xv6Rv32im.Log

open Library.WriteSequence Function List

/-- The installs that the on-disk header asks for. -/
def pending (start : Nat) (disk : Nat → Block) : List (Nat × Block) :=
  (List.range (disk start 0).toInt.toNat).map fun i =>
    ((disk start (i + 1)).toNat, disk (start + i + 1))

/-- The disk represents the given contents of the blocks outside the log. -/
structure Represents (start size : Nat) (contents disk : Nat → Block) : Prop where
  room : (disk start 0).toInt.toNat ≤ size - 1
  home : ∀ write ∈ pending start disk, write.1 ∈ homeArea start size
  installed : Set.EqOn (applyWrites disk (pending start disk)) contents (homeArea start size)

theorem pending_of_clean {start : Nat} {disk : Nat → Block} (clean : (disk start 0).toInt = 0) :
    pending start disk = [] := by
  rw [pending, clean, Int.toNat_zero, range_zero, map_nil]

variable {contents disk : Nat → Block} {start size : Nat}

/-- The pending installs depend on the blocks of the log alone. -/
theorem pending_congr {first second : Nat → Block} (room : (second start 0).toInt.toNat ≤ size - 1)
    (agree : Set.EqOn first second (logArea start size)) :
    pending start first = pending start second := by
  have header : first start = second start := agree ⟨le_rfl, Nat.le_add_right _ _⟩
  rw [pending, pending, header]
  apply map_congr_left
  intro i mem
  have bound := mem_range.mp mem
  have copy : first (start + i + 1) = second (start + i + 1) := agree ⟨by omega, by omega⟩
  rw [copy]

namespace Represents

variable {start size : Nat} {contents disk : Nat → Block}

theorem of_clean (clean : (disk start 0).toInt = 0)
    (agree : Set.EqOn disk contents (homeArea start size)) :
    Represents start size contents disk := by
  have nothing := pending_of_clean clean
  refine ⟨?_, ?_, ?_⟩
  · rw [clean, Int.toNat_zero]
    exact Nat.zero_le _
  · rw [nothing]
    intro write impossible
    cases impossible
  · rw [nothing]
    exact agree

section

variable (repr : Represents start size contents disk)

include repr

theorem home_of_clean (clean : (disk start 0).toInt = 0) :
    Set.EqOn disk contents (homeArea start size) := by
  have agree := repr.installed
  rwa [pending_of_clean clean] at agree

theorem contents_congr {other : Nat → Block}
    (agree : Set.EqOn contents other (homeArea start size)) :
    Represents start size other disk :=
  ⟨repr.room, repr.home, repr.installed.trans agree⟩

/-- Installing any prefix of the pending blocks keeps what the disk represents. -/
theorem install : Throughout (Represents start size contents) disk (pending start disk) := by
  intro count
  have outside : ∀ write ∈ (pending start disk).take count, write.1 ∉ logArea start size :=
    fun write mem => repr.home write (mem_of_mem_take mem)
  have area := applyWrites_eqOn_of_disjoint disk outside
  have header : applyWrites disk ((pending start disk).take count) start = disk start :=
    area ⟨le_rfl, Nat.le_add_right _ _⟩
  have same := pending_congr repr.room area
  refine ⟨?_, ?_, ?_⟩
  · rw [header]
    exact repr.room
  · rw [same]
    exact repr.home
  · rw [same, applyWrites_replay]
    exact repr.installed

/-- Once everything is installed the header may be cleared. -/
theorem clear {header : Block} (cleared : (header 0).toInt = 0) : Represents start size contents
      (update (applyWrites disk (pending start disk)) start header) := by
  apply of_clean
  · rw [update_self]
    exact cleared
  · intro blockno home
    rw [update_of_ne (homeArea_ne_start home)]
    exact repr.installed home

/-- The writes of a recovery keep what the disk represents. -/
theorem recovery {header : Block} (cleared : (header 0).toInt = 0) :
    Throughout (Represents start size contents) disk (pending start disk ++ [(start, header)]) :=
  repr.install.append (throughout_singleton repr.install.final (repr.clear cleared))

end

end Represents

namespace Machine

structure Idle (start size : Nat) (m : Machine) : Prop where
  start_eq : m.log.start = start
  size_eq : m.log.size = size
  outstanding : m.log.outstanding = 0
  committing : m.log.committing = false
  count : m.log.lh.n = 0
  unpinned : ∀ blockno, m.bcache blockno = none
  clean : (m.disk start 0).toInt = 0

theorem storeHeader_clear_count {lh : LogHeader} (buf : Block) (zero : lh.n = 0) :
    (storeHeader lh buf 0).toInt = 0 := by
  rw [storeHeader_count, zero]
  rfl

section

variable (repr : Represents start size contents disk)

include repr

/-- Recovery installs the pending blocks and then clears the header. -/
theorem initlog_spec : ∃ header : Block, (header 0).toInt = 0 ∧
      (initlog disk start size).writes = pending start disk ++ [(start, header)] ∧
      (initlog disk start size).disk = applyWrites disk (initlog disk start size).writes ∧
      Idle start size (initlog disk start size) := by
  let booted : Machine :=
    { disk := disk, bcache := fun _ => none, writes := []
      log := ⟨start, size, 0, false, ⟨0, fun _ => 0⟩⟩ }
  have blocks : ∀ i < (disk start 0).toInt.toNat,
      (booted.readHead.log.lh.block i) = disk start (i + 1) :=
    fun i bound => loadHeader_block _ _ bound
  have loggable : Loggable booted.readHead := by
    refine ⟨repr.room, ?_, fun _ _ => rfl⟩
    intro i bound
    rw [blocks i bound]
    exact repr.home _ (mem_map.mpr ⟨i, mem_range.mpr bound, rfl⟩)
  have asked : installs booted.readHead booted.readHead.log.lh.n.toNat = pending start disk := by
    apply map_congr_left
    intro i mem
    rw [blocks i (mem_range.mp mem)]
    rfl
  have installed := installTrans_spec true loggable
  rw [asked] at installed
  have logged : (installTrans true booted.readHead).clearCount.log.start = start := by
    change (installTrans true booted.readHead).log.start = start
    rw [installed.log]
    rfl
  have header_free : (installTrans true booted.readHead).clearCount.bcache
      (installTrans true booted.readHead).clearCount.log.start = none :=
    installed.unpinned _ rfl
  have result := writeHead_eq header_free
  rw [logged] at result
  let last := (installTrans true booted.readHead).clearCount
  let header := storeHeader last.log.lh (last.disk start)
  have cleared : (header 0).toInt = 0 := storeHeader_clear_count _ rfl
  have shape : initlog disk start size = last.issue [(start, header)] := result
  have disk_eq : last.disk = applyWrites disk (pending start disk) := installed.disk
  have writes_eq : last.writes = pending start disk := installed.writes_eq
  have log_eq : (installTrans true booted.readHead).log = booted.readHead.log := installed.log
  refine ⟨header, cleared, ?_, ?_, ?_⟩
  · rw [shape]
    change last.writes ++ [(start, header)] = _
    rw [writes_eq]
  · rw [shape]
    change applyWrites last.disk [(start, header)] =
      applyWrites disk (last.writes ++ [(start, header)])
    rw [applyWrites_append, writes_eq, disk_eq]
  rw [shape]
  refine ⟨logged, ?_, ?_, ?_, rfl, fun blockno => installed.unpinned blockno rfl, ?_⟩
  · exact congrArg LogState.size log_eq
  · exact congrArg LogState.outstanding log_eq
  · exact congrArg LogState.committing log_eq
  · change ((applyWrites last.disk [(start, header)]) start 0).toInt = 0
    rw [applyWrites_cons, applyWrites_nil, update_self]
    exact cleared

/-- However many of its writes reach the disk, a recovery keeps the contents. -/
theorem initlog_throughout :
    Throughout (Represents start size contents) disk (initlog disk start size).writes := by
  obtain ⟨header, cleared, writes, -, -⟩ := initlog_spec repr
  rw [writes]
  exact repr.recovery cleared

/-- A recovery that runs to its end leaves the contents in their home blocks. -/
theorem initlog_home : Set.EqOn (initlog disk start size).disk contents (homeArea start size) := by
  obtain ⟨-, -, -, disk_eq, idle⟩ := initlog_spec repr
  have final := (initlog_throughout repr).final
  rw [← disk_eq] at final
  exact final.home_of_clean idle.clean

end

def crashedRecovery (start size : Nat) (disk : Nat → Block) (count : Nat) : Nat → Block :=
  applyWrites disk ((initlog disk start size).writes.take count)

theorem crashedRecoveries_represents (repr : Represents start size contents disk)
    (attempts : List Nat) :
    Represents start size contents (attempts.foldl (crashedRecovery start size) disk) := by
  induction attempts generalizing disk with
  | nil => exact repr
  | cons count rest ih => exact ih (initlog_throughout repr count)

end Machine

end Xv6Rv32im.Log
