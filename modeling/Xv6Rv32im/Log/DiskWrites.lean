import Mathlib.Data.List.Nodup
import Mathlib.Order.Interval.Set.Basic
import Xv6Rv32im.Log.Model

/-!
# The block writes of the log functions

Each function of `log.c` that reaches the disk is described by the list of
block writes it issues and by what it leaves in the cache and in the log.
-/

namespace Xv6Rv32im.Log

open Library.WriteSequence Function List

/-! ## Header blocks -/

/-- The blocks that hold the log: its header and the data blocks after it. -/
def logArea (start size : Nat) : Set Nat := Set.Icc start (start + (size - 1))

def homeArea (start size : Nat) : Set Nat := (logArea start size)ᶜ

theorem mem_homeArea {start size blockno : Nat} :
    blockno ∈ homeArea start size ↔ blockno < start ∨ start + (size - 1) < blockno := by
  simp only [homeArea, logArea, Set.mem_compl_iff, Set.mem_Icc]
  omega

theorem homeArea_ne {start size blockno i : Nat} (home : blockno ∈ homeArea start size)
    (room : i ≤ size - 1) : blockno ≠ start + i := by
  rw [mem_homeArea] at home
  omega

theorem homeArea_ne_start {start size blockno : Nat} (home : blockno ∈ homeArea start size) :
    blockno ≠ start :=
  homeArea_ne home (Nat.zero_le _)

namespace Machine

theorem storeHeader_count (lh : LogHeader) (buf : Block) :
    storeHeader lh buf 0 = BitVec.ofInt 32 lh.n := by
  unfold storeHeader
  rw [applyWrites_of_forall_ne, update_self]
  intro write mem
  obtain ⟨i, _, rfl⟩ := mem_map.mp mem
  exact Nat.succ_ne_zero i

theorem storeHeader_block (lh : LogHeader) (buf : Block) {i : Nat} (bound : i < lh.n.toNat) :
    storeHeader lh buf (i + 1) = lh.block i := by
  unfold storeHeader
  have distinct : (((range lh.n.toNat).map fun i => (i + 1, lh.block i)).map Prod.fst).Nodup := by
    rw [map_map]
    exact Nodup.map Nat.succ_injective nodup_range
  exact applyWrites_of_mem_nodup _ distinct (mem_map.mpr ⟨i, mem_range.mpr bound, rfl⟩)

theorem loadHeader_block (buf : Block) (lh : LogHeader) {i : Nat}
    (bound : i < (buf 0).toInt.toNat) :
    (loadHeader buf lh).block i = buf (i + 1) := by
  have distinct :
      (((range (buf 0).toInt.toNat).map fun i => (i, buf (i + 1))).map Prod.fst).Nodup := by
    rw [map_map]
    exact Nodup.map injective_id nodup_range
  exact applyWrites_of_mem_nodup _ distinct (mem_map.mpr ⟨i, mem_range.mpr bound, rfl⟩)

/-! ## Single writes -/

variable {m : Machine} {count : Nat} {blockno : Nat}

theorem bread_of_unpinned (unpinned : m.bcache blockno = none) :
    m.bread blockno = m.disk blockno := by
  rw [bread, unpinned, Option.getD_none]

theorem bwrite_bcache_of_unpinned (data : Block) (unpinned : m.bcache blockno = none) :
    (m.bwrite blockno data).bcache = m.bcache := by
  rw [bwrite, unpinned, Option.map_none]
  exact unpinned ▸ update_eq_self blockno m.bcache

/-- The machine after block writes that leave the cache and the log alone. -/
def issue (m : Machine) (writes : List (Nat × Block)) : Machine :=
  { m with disk := applyWrites m.disk writes, writes := m.writes ++ writes }

theorem issue_nil (m : Machine) : m.issue [] = m := by
  simp only [issue, applyWrites_nil, append_nil]

theorem issue_issue (m : Machine) (first second : List (Nat × Block)) :
    (m.issue first).issue second = m.issue (first ++ second) := by
  simp only [issue, applyWrites_append, append_assoc]

theorem bwrite_of_unpinned (data : Block) (unpinned : m.bcache blockno = none) :
    m.bwrite blockno data = m.issue [(blockno, data)] := by
  have kept := bwrite_bcache_of_unpinned data unpinned
  simp only [bwrite] at kept
  simp only [bwrite, issue, applyWrites_cons, applyWrites_nil, kept]

theorem writeHead_eq (unpinned : m.bcache m.log.start = none) :
    m.writeHead = m.issue [(m.log.start, storeHeader m.log.lh (m.disk m.log.start))] := by
  rw [writeHead, bwrite_of_unpinned _ unpinned, bread_of_unpinned unpinned]

/-! ## The loop of `write_log` -/

/-- The writes of the first `count` iterations of `write_log`. -/
def logCopies (m : Machine) (count : Nat) : List (Nat × Block) :=
  (range count).map fun i => (m.log.start + i + 1, m.bread (m.log.lh.block i).toNat)

theorem logCopies_succ (m : Machine) (count : Nat) : logCopies m (count + 1) =
      logCopies m count ++ [(m.log.start + count + 1, m.bread (m.log.lh.block count).toNat)] := by
  simp only [logCopies, range_succ, map_append, map_cons, map_nil]

theorem logCopies_fst {write : Nat × Block} (mem : write ∈ logCopies m count) :
    ∃ i < count, write.1 = m.log.start + i + 1 := by
  obtain ⟨i, bound, rfl⟩ := mem_map.mp mem
  exact ⟨i, mem_range.mp bound, rfl⟩

/-- The logged blocks lie outside the log and the log's own blocks are not pinned. -/
structure Loggable (m : Machine) : Prop where
  room : m.log.lh.n.toNat ≤ m.log.size - 1
  home : ∀ i < m.log.lh.n.toNat, (m.log.lh.block i).toNat ∈ homeArea m.log.start m.log.size
  unpinned : ∀ blockno ∈ logArea m.log.start m.log.size, m.bcache blockno = none

namespace Loggable

variable {m : Machine}

theorem unpinned_log (loggable : Loggable m) {i : Nat} (bound : i < m.log.lh.n.toNat) :
    m.bcache (m.log.start + i + 1) = none := by
  have room := loggable.room
  apply loggable.unpinned
  exact ⟨by omega, by omega⟩

theorem unpinned_header (loggable : Loggable m) : m.bcache m.log.start = none :=
  loggable.unpinned _ ⟨le_rfl, Nat.le_add_right _ _⟩

theorem home_ne (loggable : Loggable m) {i j : Nat} (first : i < m.log.lh.n.toNat)
    (second : j < m.log.lh.n.toNat) : (m.log.lh.block i).toNat ≠ m.log.start + j + 1 := by
  have room := loggable.room
  rw [Nat.add_assoc]
  exact homeArea_ne (loggable.home i first) (by omega)

end Loggable

theorem writeLog_prefix (loggable : Loggable m) (bound : count ≤ m.log.lh.n.toNat) :
    (range count).foldl writeLogBlock m = m.issue (logCopies m count) := by
  induction count with
  | zero => exact (issue_nil m).symm
  | succ count ih =>
    have lt : count < m.log.lh.n.toNat := bound
    rw [range_succ, foldl_append, ih (Nat.le_of_succ_le bound), logCopies_succ,
      ← issue_issue, foldl_cons, foldl_nil, writeLogBlock]
    have kept : (m.issue (logCopies m count)).bread (m.log.lh.block count).toNat =
        m.bread (m.log.lh.block count).toNat := by
      unfold bread issue
      dsimp only
      rw [applyWrites_of_forall_ne]
      intro write mem same
      obtain ⟨i, below, shape⟩ := logCopies_fst mem
      exact loggable.home_ne lt (lt_trans below lt) (same.symm.trans shape)
    change (m.issue (logCopies m count)).bwrite (m.log.start + count + 1)
      ((m.issue (logCopies m count)).bread (m.log.lh.block count).toNat) = _
    rw [kept, bwrite_of_unpinned]
    exact loggable.unpinned_log lt

/-! ## The loop of `install_trans` -/

/-- The writes of the first `count` iterations of `install_trans`. -/
def installs (m : Machine) (count : Nat) : List (Nat × Block) :=
  (range count).map fun i => ((m.log.lh.block i).toNat, m.disk (m.log.start + i + 1))

theorem installs_succ (m : Machine) (count : Nat) : installs m (count + 1) =
      installs m count ++ [((m.log.lh.block count).toNat, m.disk (m.log.start + count + 1))] := by
  simp only [installs, range_succ, map_append, map_cons, map_nil]

/-- What a machine looks like after `install_trans` issued some writes. -/
structure Installed (recovering : Bool) (m : Machine) (writes : List (Nat × Block))
    (result : Machine) : Prop where
  disk : result.disk = applyWrites m.disk writes
  writes_eq : result.writes = m.writes ++ writes
  log : result.log = m.log
  unpinned : ∀ blockno, m.bcache blockno = none → result.bcache blockno = none
  released : recovering = false → ∀ write ∈ writes, result.bcache write.1 = none

theorem Installed.step {recovering : Bool} {m result : Machine} {writes : List (Nat × Block)}
    {tail : Nat} (loggable : Loggable m) (bound : tail < m.log.lh.n.toNat)
    (installed : Installed recovering m writes result)
    (untouched : ∀ write ∈ writes, write.1 ≠ m.log.start + tail + 1) :
    Installed recovering m
      (writes ++ [((m.log.lh.block tail).toNat, m.disk (m.log.start + tail + 1))])
      (installBlock recovering result tail) := by
  have read : result.bread (result.log.start + tail + 1) = m.disk (m.log.start + tail + 1) := by
    rw [installed.log, bread_of_unpinned (installed.unpinned _ (loggable.unpinned_log bound)),
      installed.disk, applyWrites_of_forall_ne _ untouched]
  unfold installBlock
  rw [read, installed.log]
  cases recovering with
  | true =>
    refine ⟨?_, ?_, installed.log, ?_, fun impossible => by cases impossible⟩
    · simp only [if_true, bwrite, installed.disk, applyWrites_append, applyWrites_cons,
        applyWrites_nil]
    · simp only [if_true, bwrite, installed.writes_eq, append_assoc]
    intro blockno unpinned
    have pre := installed.unpinned blockno unpinned
    simp only [if_true, bwrite, update_apply]
    split
    next same => rw [← same, pre, Option.map_none]
    · exact pre
  | false =>
    refine ⟨?_, ?_, installed.log, ?_, ?_⟩
    · simp only [Bool.false_eq_true, if_false, bunpin, bwrite, installed.disk,
        applyWrites_append, applyWrites_cons, applyWrites_nil]
    · simp only [Bool.false_eq_true, if_false, bunpin, bwrite, installed.writes_eq, append_assoc]
    · intro blockno unpinned
      simp only [Bool.false_eq_true, if_false, bunpin, bwrite, update_apply]
      split
      · rfl
      · exact installed.unpinned blockno unpinned
    intro _ write mem
    simp only [Bool.false_eq_true, if_false, bunpin, bwrite, update_apply]
    split
    · rfl
    next ne =>
      rcases mem_append.mp mem with earlier | last
      · exact installed.released rfl write earlier
      · rw [mem_singleton] at last
        exact absurd (congrArg Prod.fst last) ne

theorem installTrans_prefix (recovering : Bool) (loggable : Loggable m)
    (bound : count ≤ m.log.lh.n.toNat) :
    Installed recovering m (installs m count)
      ((range count).foldl (installBlock recovering) m) := by
  induction count with
  | zero =>
    exact ⟨rfl, (append_nil _).symm, rfl, fun _ unpinned => unpinned,
      fun _ _ impossible => by cases impossible⟩
  | succ count ih =>
    rw [range_succ, foldl_append, installs_succ, foldl_cons, foldl_nil]
    refine Installed.step loggable bound (ih (Nat.le_of_succ_le bound)) ?_
    intro write mem same
    obtain ⟨i, below, rfl⟩ := mem_map.mp mem
    exact loggable.home_ne (lt_trans (mem_range.mp below) bound) bound same

theorem installTrans_spec (recovering : Bool) (loggable : Loggable m) :
    Installed recovering m (installs m m.log.lh.n.toNat) (installTrans recovering m) :=
  installTrans_prefix recovering loggable le_rfl

end Machine

end Xv6Rv32im.Log
