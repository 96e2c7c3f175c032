import Xv6Rv32im.Vm.PageTable

/-!
# Page tables as maps

A two-level page table is read as a map from virtual pages to valid entries,
whatever its invalid entries hold.  `mappages` adds the entries of a range to this
map, `uvmunmap` removes them and `walkaddr` looks them up.
-/

namespace Xv6Rv32im.Vm

open Library.ByteWords Library.Run List Ram Option BitVec Multiset

/-! ## Reading a page table -/

def validEntry (entry : BitVec 32) : Option (BitVec 32) :=
  if entry &&& PTE_V ≠ 0 then some entry else none

variable {entry : BitVec 32}

theorem validEntry_some (valid : entry &&& PTE_V ≠ 0) : validEntry entry = some entry :=
  if_pos valid

theorem validEntry_none (invalid : entry &&& PTE_V = 0) : validEntry entry = none :=
  if_neg (not_not.mpr invalid)

theorem validEntry_eq_some {entry found : BitVec 32} :
    validEntry entry = some found ↔ entry &&& PTE_V ≠ 0 ∧ entry = found := by
  unfold validEntry
  by_cases valid : entry &&& PTE_V ≠ 0
  · rw [if_pos valid, some.injEq]
    exact (and_iff_right valid).symm
  · rw [if_neg valid]
    exact ⟨nofun, fun both => absurd both.1 valid⟩

namespace Ram

/-- The page-table page at an index of the root, if the entry there is valid. -/
def tableAt (ram : Ram) (root : BitVec 32) (i : Nat) : Option (BitVec 32) :=
  (validEntry (ram.loadPte ⟨root, i⟩)).map pte2pa

def translation (ram : Ram) (root : BitVec 32) (v : Nat) : Option (BitVec 32) :=
  (ram.tableAt root (v / 1024)).bind fun table => validEntry (ram.loadPte ⟨table, v % 1024⟩)

variable {ram ram' : Ram} {root table page va : BitVec 32} {free free' : List (BitVec 32)}
  {v w : Nat}

theorem loadPte_congr {pte : PtePtr} (same : ram'.mem pte.page = ram.mem pte.page) :
    ram'.loadPte pte = ram.loadPte pte := by
  unfold loadPte
  rw [same]

theorem loadPte_storePte (ram : Ram) (page : BitVec 32) (i j : Nat) (entry : BitVec 32) :
    (ram.storePte ⟨page, i⟩ entry).loadPte ⟨page, j⟩ =
      if j = i then entry else ram.loadPte ⟨page, j⟩ := by
  unfold loadPte storePte
  rw [setPage_mem_self]
  exact load32_store32_array ..

theorem tableAt_congr (same : ram'.mem root = ram.mem root) (i : Nat) :
    ram'.tableAt root i = ram.tableAt root i := by
  unfold tableAt
  rw [loadPte_congr same]

theorem translation_of_table (here : ram.tableAt root (v / 1024) = some table) :
    ram.translation root v = validEntry (ram.loadPte ⟨table, v % 1024⟩) := by
  unfold translation
  rw [here]
  rfl

theorem translation_of_no_table (absent : ram.tableAt root (v / 1024) = none) :
    ram.translation root v = none := by
  unfold translation
  rw [absent]
  rfl

/-- A translation depends on the root and on one page-table page. -/
theorem translation_congr (top : ram'.tableAt root (v / 1024) = ram.tableAt root (v / 1024))
    (same : ∀ table, ram.tableAt root (v / 1024) = some table → ram'.mem table = ram.mem table) :
    ram'.translation root v = ram.translation root v := by
  cases here : ram.tableAt root (v / 1024) with
  | none => rw [translation_of_no_table here, translation_of_no_table (top.trans here)]
  | some table =>
    rw [translation_of_table here, translation_of_table (top.trans here),
      loadPte_congr (same table here)]

theorem table_of_translation (mapped : ram.translation root v = some entry) :
    ∃ table, ram.tableAt root (v / 1024) = some table ∧ entry &&& PTE_V ≠ 0 ∧
      ram.loadPte ⟨table, v % 1024⟩ = entry := by
  cases here : ram.tableAt root (v / 1024) with
  | none =>
    rw [translation_of_no_table here] at mapped
    cases mapped
  | some table =>
    rw [translation_of_table here] at mapped
    obtain ⟨valid, rfl⟩ := validEntry_eq_some.mp mapped
    exact ⟨table, rfl, valid, rfl⟩

theorem walk_tableAt (lt : va < MAXVA) : ram.walk root va false =
      .ok ((ram.tableAt root (vpn va / 1024)).map fun table => ⟨table, vpn va % 1024⟩, ram) := by
  unfold walk tableAt
  rw [if_neg (BitVec.not_le.mpr lt), px_one, px_zero]
  by_cases valid : ram.loadPte ⟨root, vpn va / 1024⟩ &&& PTE_V ≠ 0
  · rw [validEntry_some valid]
    exact if_pos valid
  · rw [validEntry_none (not_not.mp valid)]
    exact if_neg valid

theorem walkaddr_translation (ram : Ram) (root : BitVec 32) (aligned : Aligned va) :
    ram.walkaddr root va = .ok (match ram.translation root (vpn va) with
      | some entry => if entry &&& PTE_U ≠ 0 then pte2pa entry else 0
      | none => 0) := by
  have lt := aligned_lt_maxva aligned
  unfold walkaddr
  rw [if_neg (BitVec.not_le.mpr lt), walk_tableAt lt]
  cases here : ram.tableAt root (vpn va / 1024) with
  | none =>
    rw [translation_of_no_table here]
    rfl
  | some table =>
    rw [translation_of_table here]
    simp only [ok_bind, map_some]
    by_cases valid : ram.loadPte ⟨table, vpn va % 1024⟩ &&& PTE_V = 0
    · rw [if_pos valid, validEntry_none valid]
      rfl
    rw [if_neg valid, validEntry_some valid]
    by_cases user : ram.loadPte ⟨table, vpn va % 1024⟩ &&& PTE_U = 0
    · rw [if_pos user]
      simp only [user, ne_eq, not_true_eq_false, if_false]
      rfl
    · rw [if_neg user]
      simp only [ne_eq, user, not_false_eq_true, if_true]
      rfl

/-! ## Tables and the allocator -/

variable [Layout]

/-- The valid entries of the root point to distinct page-table pages, which are in use. -/
structure TwoLevel (ram : Ram) (root : BitVec 32) (free : List (BitVec 32)) : Prop where
  balance : Balance ram free 0
  root_used : root ∉ free
  used : ∀ i < 1024, ∀ table, ram.tableAt root i = some table → table ≠ root ∧ table ∉ free
  distinct : ∀ i < 1024, ∀ j < 1024, ∀ table,
    ram.tableAt root i = some table → ram.tableAt root j = some table → i = j

theorem Balance.write {held : Multiset (BitVec 32)} (balance : Balance ram free held)
    (used : page ∉ free) (bytes : Bytes) : Balance (ram.setPage page bytes) free held where
  chain := balance.chain.frame fun _ lt =>
    setPage_mem_of_ne bytes fun same => used (same ▸ lt)
  nodup := balance.nodup
  managed := balance.managed

section

variable (two : TwoLevel ram root free)

include two

/-- The root decides what the page-table pages are. -/
theorem TwoLevel.frame (balance : Balance ram' free' 0) (same : ram'.mem root = ram.mem root)
    (root_used : root ∉ free')
    (used : ∀ i < 1024, ∀ table, ram.tableAt root i = some table → table ∉ free') :
    TwoLevel ram' root free' where
  balance := balance
  root_used := root_used
  used := by
    intro i lt table here
    rw [tableAt_congr same] at here
    exact ⟨(two.used i lt table here).1, used i lt table here⟩
  distinct := by
    intro i lt j lt' table here there
    rw [tableAt_congr same] at here there
    exact two.distinct i lt j lt' table here there

/-- Storing an entry of a page-table page changes one translation. -/
theorem TwoLevel.storeLeaf (lt : v < 2 ^ 20) (here : ram.tableAt root (v / 1024) = some table)
    (entry : BitVec 32) :
    TwoLevel (ram.storePte ⟨table, v % 1024⟩ entry) root free ∧
      ∀ w < 2 ^ 20, (ram.storePte ⟨table, v % 1024⟩ entry).translation root w =
        if w = v then validEntry entry else ram.translation root w := by
  obtain ⟨apart, table_used⟩ := two.used _ (by omega) table here
  have top : (ram.storePte ⟨table, v % 1024⟩ entry).mem root = ram.mem root :=
    setPage_mem_of_ne _ apart.symm
  refine ⟨two.frame (two.balance.write table_used _) top two.root_used
    fun i small other there => (two.used i small other there).2, fun w small => ?_⟩
  by_cases same : w / 1024 = v / 1024
  · have there := (tableAt_congr top _).trans (same ▸ here)
    rw [translation_of_table there, loadPte_storePte]
    by_cases target : w = v
    · rw [if_pos target, if_pos (by rw [target])]
    · rw [if_neg target, if_neg (by omega), translation_of_table (same ▸ here)]
  · rw [if_neg (by rintro rfl; exact same rfl)]
    refine translation_congr (tableAt_congr top _) fun other there => ?_
    refine setPage_mem_of_ne _ fun equal => same ?_
    have equal : other = table := equal
    exact two.distinct _ (by omega) _ (by omega) table (equal ▸ there) here

/-- `walk` with allocation fails, or finds the page-table page of the address; no
translation changes. -/
theorem TwoLevel.walk_alloc (lt : va < MAXVA) : ∃ found ram' free', ram.walk root va true =
        .ok (Option.map (fun table => ⟨table, vpn va % 1024⟩) found, ram') ∧
      TwoLevel ram' root free' ∧
      (∀ table, found = some table → ram'.tableAt root (vpn va / 1024) = some table) ∧
      ∀ w < 2 ^ 20, ram'.translation root w = ram.translation root w := by
  have bound := vpn_lt va
  unfold walk
  rw [if_neg (BitVec.not_le.mpr lt), px_one, px_zero]
  change ∃ found ram' free',
    (if ram.loadPte ⟨root, vpn va / 1024⟩ &&& PTE_V ≠ 0 then _ else _) = _ ∧ _
  by_cases valid : ram.loadPte ⟨root, vpn va / 1024⟩ &&& PTE_V ≠ 0
  · rw [if_pos valid]
    refine ⟨some _, ram, free, rfl, two, fun table same => ?_, fun _ _ => rfl⟩
    unfold tableAt
    rw [validEntry_some valid]
    exact same
  rw [if_neg valid]
  have absent : ram.tableAt root (vpn va / 1024) = none := by
    unfold tableAt
    rw [validEntry_none (not_not.mp valid)]
    rfl
  obtain ⟨ram', denied, same, moves⟩ |
      ⟨page, rest, ram', rfl, given, managed, -, others, moves⟩ := two.balance.kalloc_fill
  · rw [denied]
    refine ⟨none, ram', free, rfl, ?_, nofun, fun w _ => ?_⟩
    · exact two.frame (two.balance.moves moves) (by rw [same]) two.root_used
        fun i small table here => (two.used i small table here).2
    · exact translation_congr (tableAt_congr (by rw [same]) _) fun _ _ => by rw [same]
  rw [given]
  obtain ⟨apart, root_used⟩ := not_or.mp (mem_cons.not.mp two.root_used)
  have balance : Balance (ram'.memset page 0) rest (0 + {page}) :=
    two.balance.moves (moves fun _ => 0)
  -- The new table page is zero and the root gets one more entry.
  have used i (small : i < 1024) table
      (here : ram.tableAt root i = some table) :
      table ≠ root ∧ table ≠ page ∧ table ∉ rest := by
    obtain ⟨first, second⟩ := two.used i small table here
    exact ⟨first, not_or.mp (mem_cons.not.mp second)⟩
  have top i : ((ram'.memset page 0).storePte ⟨root, vpn va / 1024⟩
      (pa2pte page ||| PTE_V)).tableAt root i =
      if i = vpn va / 1024 then some page else ram.tableAt root i := by
    unfold tableAt
    rw [loadPte_storePte]
    by_cases same : i = vpn va / 1024
    · have isValid : (pa2pte page ||| PTE_V) &&& PTE_V ≠ 0 := by
        rw [entry_and (by decide)]
        decide
      rw [if_pos same, if_pos same, validEntry_some isValid, map_some,
        pte2pa_entry managed.1 (by decide)]
    · rw [if_neg same, if_neg same, @loadPte_congr ram _ ⟨root, i⟩]
      exact (setPage_mem_of_ne _ apart).trans (others root apart)
  refine ⟨some page, (ram'.memset page 0).storePte ⟨root, vpn va / 1024⟩
    (pa2pte page ||| PTE_V), rest, rfl,
    ⟨balance.part.write root_used _, root_used, ?_, ?_⟩, ?_, ?_⟩
  · intro i small table here
    rw [top] at here
    by_cases same : i = vpn va / 1024
    · rw [if_pos same] at here
      cases here
      have nodup := (nodup_add.mp two.balance.nodup).1
      exact ⟨Ne.symm apart, (nodup_cons.mp (coe_nodup.mp nodup)).1⟩
    · rw [if_neg same] at here
      exact ⟨(used i small table here).1, (used i small table here).2.2⟩
  · intro i small j small' table here there
    rw [top] at here there
    by_cases first : i = vpn va / 1024
    · by_cases second : j = vpn va / 1024
      · omega
      · rw [if_pos first] at here
        rw [if_neg second] at there
        cases here
        exact absurd rfl (used j small' _ there).2.1
    by_cases second : j = vpn va / 1024
    · rw [if_neg first] at here
      rw [if_pos second] at there
      cases there
      exact absurd rfl (used i small _ here).2.1
    · rw [if_neg first] at here
      rw [if_neg second] at there
      exact two.distinct i small j small' table here there
  · intro table same
    rw [top, if_pos rfl]
    exact same
  · intro w small
    by_cases same : w / 1024 = vpn va / 1024
    · have zero : ((ram'.memset page 0).storePte ⟨root, vpn va / 1024⟩
          (pa2pte page ||| PTE_V)).loadPte ⟨page, w % 1024⟩ = 0 := by
        unfold loadPte
        rw [show ((ram'.memset page 0).storePte ⟨root, vpn va / 1024⟩
          (pa2pte page ||| PTE_V)).mem page = fun _ => 0 from
            (setPage_mem_of_ne _ (Ne.symm apart)).trans (setPage_mem_self ..), load32_zero]
      have pre : ram.translation root w = none :=
        translation_of_no_table (by rw [same]; exact absent)
      rw [pre, translation_of_table ((top _).trans (if_pos same)), zero]
      rfl
    · refine translation_congr ((top _).trans (if_neg same)) fun table here => ?_
      obtain ⟨first, second, -⟩ := used _ (by omega) table here
      exact (setPage_mem_of_ne _ first).trans
        ((setPage_mem_of_ne _ second).trans (others table second))

end

/-! ## Mapping a range -/

/-- The entry of `mappages` for a page of the range that starts at page `v` and
address `pa`. -/
def rangeEntry (v : Nat) (pa perm : BitVec 32) (w : Nat) : BitVec 32 :=
  pa2pte (pa + BitVec.ofNat 32 (4096 * (w - v))) ||| perm ||| PTE_V

omit [Layout] in
theorem rangeEntry_start (v : Nat) (pa perm : BitVec 32) :
    rangeEntry v pa perm v = pa2pte pa ||| perm ||| PTE_V := by
  unfold rangeEntry
  rw [Nat.sub_self, Nat.mul_zero, BitVec.add_zero]

omit [Layout] in
theorem rangeEntry_next (pa perm : BitVec 32) (above : v + 1 ≤ w) :
    rangeEntry (v + 1) (pa + 4096) perm w = rangeEntry v pa perm w := by
  unfold rangeEntry
  rw [add_assoc]
  congr 4
  rw [show 4096 * (w - v) = 4096 + 4096 * (w - (v + 1)) by omega, BitVec.ofNat_add]
  rfl

theorem TwoLevel.map_round {a entry : BitVec 32} (two : TwoLevel ram root free)
    (aligned : Aligned a) (unmapped : ram.translation root (vpn a) = none)
    (valid : entry &&& PTE_V ≠ 0) :
    (∃ ram' free', ram.walk root a true = .ok (none, ram') ∧ TwoLevel ram' root free' ∧
      ∀ w < 2 ^ 20, ram'.translation root w = ram.translation root w) ∨
    ∃ pte ram' free', ram.walk root a true = .ok (some pte, ram') ∧
      ram'.loadPte pte &&& PTE_V = 0 ∧ TwoLevel (ram'.storePte pte entry) root free' ∧
      ∀ w < 2 ^ 20, (ram'.storePte pte entry).translation root w =
        if w = vpn a then some entry else ram.translation root w := by
  have bound := vpn_lt a
  obtain ⟨found, ram', free', walked, two', here, same⟩ :=
    two.walk_alloc (aligned_lt_maxva aligned)
  cases found with
  | none => exact .inl ⟨ram', free', walked, two', same⟩
  | some table =>
    have here := here table rfl
    obtain ⟨stored, changed⟩ := two'.storeLeaf bound here entry
    refine .inr ⟨_, ram', free', walked, ?_, stored, fun w small => ?_⟩
    · by_contra present
      have mapped := (translation_of_table here).trans (validEntry_some present)
      rw [same _ bound, unmapped] at mapped
      cases mapped
    · rw [changed w small, validEntry_some valid, same w small]

omit [Layout] in
theorem rangeEntry_valid (v : Nat) (pa perm : BitVec 32) (w : Nat) :
    rangeEntry v pa perm w &&& PTE_V ≠ 0 := by
  unfold rangeEntry
  rw [BitVec.or_assoc, entry_and (by decide)]
  intro zero
  have bit := congrArg (fun word : BitVec 32 => word.getLsbD 0) zero
  simp [PTE_V] at bit

/-- The loop of `mappages` over the `n + 1` pages from `a` to `last`. -/
theorem TwoLevel.mappagesFrom {a last pa perm : BitVec 32} {n fuel : Nat}
    (two : TwoLevel ram root free) (start : Aligned a) (stop : Aligned last)
    (range : vpn a + n = vpn last) (enough : n < fuel)
    (unmapped : ∀ w, vpn a ≤ w → w ≤ vpn last → ram.translation root w = none) :
    ∃ mapped ram' free', mappagesFrom root last perm fuel ram a pa = .ok (mapped, ram') ∧
      TwoLevel ram' root free' ∧
      (∀ w < 2 ^ 20, ¬(vpn a ≤ w ∧ w ≤ vpn last) →
        ram'.translation root w = ram.translation root w) ∧
      (mapped = true → ∀ w, vpn a ≤ w → w ≤ vpn last →
        ram'.translation root w = some (rangeEntry (vpn a) pa perm w)) := by
  induction n generalizing ram free a pa fuel with
  | zero =>
    obtain ⟨fuel, rfl⟩ := Nat.exists_eq_succ_of_ne_zero (ne_of_gt enough)
    have reached : a = last := by
      unfold vpn Aligned at *
      exact eq_of_toNat_eq (by omega)
    subst reached
    have bound := vpn_lt a
    rw [mappagesFrom, ← rangeEntry_start _]
    obtain ⟨ram', free', walked, two', same⟩ | ⟨pte, ram', free', walked, empty, two', changed⟩ :=
      two.map_round start (unmapped _ (le_refl _) (le_refl _))
        (rangeEntry_valid _ pa perm _)
    · rw [walked]
      exact ⟨false, ram', free', rfl, two', fun w small _ => same w small, by simp⟩
    rw [walked, ok_bind]
    dsimp only
    rw [if_neg (not_not.mpr empty), if_pos rfl]
    refine ⟨true, _, free', rfl, two', fun w small outside => ?_, fun _ w above below => ?_⟩
    · rw [changed w small, if_neg (by omega)]
    · obtain rfl : w = vpn a := by omega
      rw [changed _ bound, if_pos rfl]
  | succ n ih =>
    obtain ⟨fuel, rfl⟩ := Nat.exists_eq_succ_of_ne_zero (ne_of_gt (Nat.zero_lt_of_lt enough))
    have bound := vpn_lt last
    have further : a ≠ last := by
      rintro rfl
      omega
    have room : a.toNat + 4096 < 2 ^ 32 := by
      unfold vpn at range bound
      unfold Aligned at start
      omega
    have next : vpn (a + 4096) = vpn a + 1 := by
      have sum : (a + 4096).toNat = a.toNat + 4096 := by bv_omega
      unfold vpn
      omega
    rw [mappagesFrom, ← rangeEntry_start (vpn a)]
    obtain ⟨ram', free', walked, two', same⟩ | ⟨pte, ram', free', walked, empty, two', changed⟩ :=
      two.map_round start (unmapped _ (le_refl _) (by omega))
        (rangeEntry_valid (vpn a) pa perm _)
    · rw [walked]
      exact ⟨false, ram', free', rfl, two', fun w small _ => same w small, by simp⟩
    rw [walked, ok_bind]
    dsimp only
    rw [if_neg (not_not.mpr empty), if_neg further]
    have aligned : Aligned (a + 4096) := by
      unfold Aligned at *
      bv_omega
    obtain ⟨mapped, ram'', free'', ran, two'', outside, lt⟩ :=
      @ih _ free' _ _ fuel two' aligned (by omega) (by omega) (by
        intro w above below
        rw [changed w (by omega), if_neg (by omega)]
        exact unmapped w (by omega) below)
    refine ⟨mapped, ram'', free'', ran, two'', fun w small away => ?_, fun done w above below => ?_⟩
    · rw [outside w small (by omega), changed w small, if_neg (by omega)]
    · by_cases first : w = vpn a
      · rw [outside w (by omega) (by omega), changed w (by omega), if_pos first, first]
      · rw [lt done w (by omega) below, next, rangeEntry_next pa perm (by omega)]

/-! ## Unmapping a range -/

/-- The pages behind a range are distinct pages of the allocator; none is free or holds
the page table. -/
structure Releasable (ram : Ram) (root : BitVec 32) (free : List (BitVec 32)) (v n : Nat) :
    Prop where
  page : ∀ w, v ≤ w → w < v + n → ∀ entry, ram.translation root w = some entry →
    Managed (pte2pa entry) ∧ pte2pa entry ∉ free ∧ pte2pa entry ≠ root ∧
      ∀ i < 1024, ram.tableAt root i ≠ some (pte2pa entry)
  distinct : ∀ w, v ≤ w → w < v + n → ∀ w', v ≤ w' → w' < v + n →
    ∀ entry entry', ram.translation root w = some entry → ram.translation root w' = some entry' →
      pte2pa entry = pte2pa entry' → w = w'

theorem TwoLevel.unmap_round {i n : Nat} {doFree : Bool} (two : TwoLevel ram root free)
    (aligned : Aligned va) (lt : vpn va + i + (n + 1) ≤ 2 ^ 20)
    (mapped : ∃ entry, ram.translation root (vpn va + i) = some entry ∧ pteFlags entry ≠ PTE_V)
    (release : doFree = true → Releasable ram root free (vpn va + i) (n + 1)) :
    ∃ ram' free', uvmunmapFrom root va doFree ram i (n + 1) =
        uvmunmapFrom root va doFree ram' (i + 1) n ∧
      TwoLevel ram' root free' ∧
      (doFree = true → Releasable ram' root free' (vpn va + (i + 1)) n) ∧
      ∀ w < 2 ^ 20, ram'.translation root w =
        if w = vpn va + i then none else ram.translation root w := by
  obtain ⟨entry, here, leaf⟩ := mapped
  obtain ⟨table, found, valid, load⟩ := table_of_translation here
  obtain ⟨number, aligned'⟩ := @vpn_add va i aligned (by omega)
  rw [uvmunmapFrom, walk_tableAt (aligned_lt_maxva aligned'), number, found]
  simp only [ok_bind, map_some, load, if_neg valid, if_neg leaf]
  cases doFree with
  | false =>
    obtain ⟨two', changed⟩ := @TwoLevel.storeLeaf ram root table free _ _ two
      (by omega) found 0
    exact ⟨_, free, rfl, two', by simp, changed⟩
  | true =>
    have release := release rfl
    obtain ⟨managed, used, not_root, not_table⟩ :=
      release.page _ (le_refl _) (by omega) entry here
    have balance : Balance ram free (pte2pa entry ::ₘ 0) := by
      refine ⟨two.balance.chain, ?_, ?_⟩
      · rw [Multiset.add_cons, add_zero, Multiset.nodup_cons]
        exact ⟨fun mem => used (mem_coe.mp mem),
          (nodup_add.mp two.balance.nodup).1⟩
      intro other mem
      rw [Multiset.add_cons, add_zero, Multiset.mem_cons] at mem
      obtain rfl | mem := mem
      · exact managed
      · exact two.balance.managed other (by rwa [add_zero])
    obtain ⟨ram₁, freed, others, moves⟩ := balance.kfree
    -- Freeing the page changes neither the root nor a page-table page.
    have top : ram₁.mem root = ram.mem root := others root not_root.symm
    have two₁ : TwoLevel ram₁ root (pte2pa entry :: free) := by
      refine two.frame (balance.moves moves) top ?_ fun i small other there => ?_
      · exact not_mem_cons_of_ne_of_not_mem not_root.symm two.root_used
      · refine not_mem_cons_of_ne_of_not_mem ?_ (two.used i small other there).2
        rintro rfl
        exact not_table i small there
    have same w (small : w < 2 ^ 20) :
        ram₁.translation root w = ram.translation root w := by
      refine translation_congr (tableAt_congr top _) fun other there => others other ?_
      rintro rfl
      exact not_table _ (by omega) there
    have found₁ := (tableAt_congr top _).trans found
    obtain ⟨two', changed⟩ := @TwoLevel.storeLeaf ram₁ root table _ _ _ two₁
      (by omega) found₁ 0
    have tables j : (ram₁.storePte ⟨table, (vpn va + i) % 1024⟩ 0).tableAt root j =
        ram.tableAt root j := by
      refine (tableAt_congr ?_ j).trans (tableAt_congr top j)
      exact setPage_mem_of_ne _ (two.used _ (by omega) table found).1.symm
    have kept w (above : vpn va + (i + 1) ≤ w) (below : w < vpn va + (i + 1) + n) :
        (ram₁.storePte ⟨table, (vpn va + i) % 1024⟩ 0).translation root w =
          ram.translation root w := by
      rw [changed w (by omega), if_neg (by omega), same w (by omega)]
    refine ⟨_, _, ?_, two', fun _ => ⟨?_, ?_⟩, fun w small => ?_⟩
    · simp only [if_true, freed, ok_bind]
    · intro w above below other there
      rw [kept w above below] at there
      obtain ⟨managed', used', not_root', not_table'⟩ :=
        release.page w (by omega) (by omega) other there
      refine ⟨managed', not_mem_cons_of_ne_of_not_mem ?_ used', not_root', ?_⟩
      · intro equal
        have := release.distinct w (by omega) (by omega) _ (le_refl _) (by omega)
          other entry there here equal
        omega
      · intro j small
        rw [tables]
        exact not_table' j small
    · intro w above below w' above' below' other other' there there' equal
      rw [kept w above below] at there
      rw [kept w' above' below'] at there'
      exact release.distinct w (by omega) (by omega) w' (by omega) (by omega) other other'
        there there' equal
    · rw [changed w small, same w small]
      rfl

/-- The loop of `uvmunmap` removes the translations of its range. -/
theorem TwoLevel.uvmunmapFrom {i n : Nat} {doFree : Bool} (two : TwoLevel ram root free)
    (aligned : Aligned va) (lt : vpn va + i + n ≤ 2 ^ 20)
    (mapped : ∀ w, vpn va + i ≤ w → w < vpn va + i + n →
      ∃ entry, ram.translation root w = some entry ∧ pteFlags entry ≠ PTE_V)
    (release : doFree = true → Releasable ram root free (vpn va + i) n) :
    ∃ ram' free', uvmunmapFrom root va doFree ram i n = .ok ram' ∧ TwoLevel ram' root free' ∧
      ∀ w < 2 ^ 20, ram'.translation root w =
        if vpn va + i ≤ w ∧ w < vpn va + i + n then none else ram.translation root w := by
  induction n generalizing ram free i with
  | zero =>
    refine ⟨ram, free, rfl, two, fun w _ => ?_⟩
    rw [if_neg (by omega)]
  | succ n ih =>
    obtain ⟨ram₁, free₁, round, two₁, release₁, changed₁⟩ :=
      two.unmap_round aligned lt (mapped _ (le_refl _) (by omega)) release
    obtain ⟨ram', free', ran, two', changed⟩ := @ih ram₁ free₁ _ two₁ (by omega) (by
      intro w above below
      rw [changed₁ w (by omega), if_neg (by omega)]
      exact mapped w (by omega) (by omega)) release₁
    refine ⟨ram', free', round.trans ran, two', fun w small => ?_⟩
    rw [changed w small, changed₁ w small]
    by_cases first : w = vpn va + i
    · rw [if_neg (by omega), if_pos first, if_pos (by omega)]
    · rw [if_neg first]
      exact if_congr (by omega) rfl rfl

end Ram

/-! ## Page tables are maps -/

theorem pa2pte_pgRoundDown (pa : BitVec 32) : pa2pte (pgRoundDown pa) = pa2pte pa := by
  refine eq_of_getLsbD_eq fun i lt => ?_
  rw [pa2pte_bit, pa2pte_bit]
  unfold pgRoundDown
  rw [getLsbD_and, mask_bit]
  by_cases high : 10 ≤ i ∧ i < 32
  · by_cases last : i + 2 < 32
    · rw [decide_eq_true (show 12 ≤ i + 2 ∧ i + 2 < 32 by omega), Bool.and_true]
    · rw [getLsbD_of_ge _ _ (Nat.le_of_not_lt last), Bool.false_and]
  · rw [decide_eq_false high, Bool.false_and, Bool.false_and]

def pageAddress (number : Nat) : BitVec 32 := BitVec.ofNat 32 (4096 * number)

/-- The entries that `mappages` makes name the pages from `pa` on, with the permission. -/
theorem Ram.rangeEntry_page {pa perm : BitVec 32} {v w : Nat} (isFlags : IsFlags perm)
    (room : pa.toNat + 4096 * (w - v) < 2 ^ 32) :
    pte2pa (rangeEntry v pa perm w) = pageAddress (vpn pa + (w - v)) ∧
      pteFlags (rangeEntry v pa perm w) = perm ||| PTE_V := by
  have sum : (pa + BitVec.ofNat 32 (4096 * (w - v))).toNat = pa.toNat + 4096 * (w - v) := by
    rw [toNat_add, toNat_ofNat]
    omega
  have flags : IsFlags (perm ||| PTE_V) := isFlags.or (by decide)
  have address : pgRoundDown (pa + BitVec.ofNat 32 (4096 * (w - v))) =
      pageAddress (vpn pa + (w - v)) := by
    refine eq_of_toNat_eq ?_
    unfold pageAddress vpn
    rw [pgRoundDown_toNat, sum, toNat_ofNat]
    omega
  have aligned : Aligned (pageAddress (vpn pa + (w - v))) := by
    unfold Aligned
    rw [← address, pgRoundDown_toNat]
    omega
  unfold rangeEntry
  rw [BitVec.or_assoc, ← pa2pte_pgRoundDown, address]
  exact ⟨pte2pa_entry aligned flags, pteFlags_entry flags⟩

/-- Page tables are maps: `mappages` of an unmapped range ends and, if it succeeds,
maps exactly the range; `uvmunmap` of a mapped range removes exactly its pages,
freeing them or not; `walkaddr` finds the page of a user address. -/
theorem pageTables_are_maps [Layout] {ram : Ram} {root : BitVec 32} {free : List (BitVec 32)}
    (two : ram.TwoLevel root free) :
    (∀ va pa size perm : BitVec 32, va.toNat % PGSIZE = pa.toNat % PGSIZE → 0 < size.toNat →
      va.toNat + size.toNat - 1 < 2 ^ 32 → pa.toNat + size.toNat - 1 < 2 ^ 32 → IsFlags perm →
      perm &&& (PTE_R ||| PTE_W ||| PTE_X) ≠ 0 →
      (∀ v, vpn va ≤ v → v ≤ vpn (va + size - 1) → ram.translation root v = none) →
      ∃ mapped ram' free', ram.mappages root va size pa perm = .ok (mapped, ram') ∧
        ram'.TwoLevel root free' ∧
        (mapped = true → ∀ v < 2 ^ 20, if vpn va ≤ v ∧ v ≤ vpn (va + size - 1) then
            ∃ entry, ram'.translation root v = some entry ∧
              pte2pa entry = pageAddress (vpn pa + (v - vpn va)) ∧
              pteFlags entry = perm ||| PTE_V
          else ram'.translation root v = ram.translation root v)) ∧
    (∀ (va npages : BitVec 32) (doFree : Bool), Aligned va → vpn va + npages.toNat ≤ 2 ^ 20 →
      (∀ v, vpn va ≤ v → v < vpn va + npages.toNat →
        ∃ entry, ram.translation root v = some entry ∧ pteFlags entry ≠ PTE_V) →
      (doFree = true → ram.Releasable root free (vpn va) npages.toNat) →
      ∃ ram' free', ram.uvmunmap root va npages doFree = .ok ram' ∧ ram'.TwoLevel root free' ∧
        ∀ v < 2 ^ 20, ram'.translation root v =
          if vpn va ≤ v ∧ v < vpn va + npages.toNat then none else ram.translation root v) ∧
    ∀ va : BitVec 32, Aligned va → ram.walkaddr root va =
      .ok (match ram.translation root (vpn va) with
        | some entry => if entry &&& PTE_U ≠ 0 then pte2pa entry else 0
        | none => 0) := by
  refine ⟨?_, ?_, fun va aligned => ram.walkaddr_translation root aligned⟩
  · intro va pa size perm offsets positive bound bound' isFlags _ unmapped
    have last : (va + size - 1).toNat = va.toNat + size.toNat - 1 := by
      bv_omega
    have start : vpn (pgRoundDown va) = vpn va := by
      unfold vpn
      rw [pgRoundDown_toNat]
      omega
    have stop : vpn (pgRoundDown (va + size - 1)) = vpn (va + size - 1) := by
      unfold vpn
      rw [pgRoundDown_toNat]
      omega
    have le : vpn va ≤ vpn (va + size - 1) := by
      unfold vpn
      omega
    have few := vpn_lt (va + size - 1)
    have looped := @TwoLevel.mappagesFrom ram root free _ (pgRoundDown va)
      (pgRoundDown (va + size - 1)) pa perm (vpn (va + size - 1) - vpn va) (2 ^ 20) two
      (pgRoundDown_isAligned _) (pgRoundDown_isAligned _)
    rw [start, stop] at looped
    obtain ⟨mapped, ram', free', ran, two', outside, inside⟩ :=
      looped (by omega) (by omega) unmapped
    refine ⟨mapped, ram', free', ran, two', fun done v small => ?_⟩
    by_cases within : vpn va ≤ v ∧ v ≤ vpn (va + size - 1)
    · rw [if_pos within]
      refine ⟨_, inside done v within.1 within.2, rangeEntry_page isFlags ?_⟩
      have upper := within.2
      unfold vpn at upper ⊢
      unfold PGSIZE at offsets
      omega
    · rw [if_neg within]
      exact outside v small within
  · intro va npages doFree aligned inside mapped release
    unfold uvmunmap
    rw [if_neg (show ¬va.toNat % PGSIZE ≠ 0 from not_not.mpr aligned)]
    exact @TwoLevel.uvmunmapFrom ram root va free _ 0 npages.toNat doFree two aligned inside
      mapped release

theorem smallRam_tableAt (i : Nat) : smallRam.tableAt 0x80010000 i = none := by
  have invalid : smallRam.loadPte ⟨0x80010000, i⟩ &&& PTE_V = 0 := by
    change load32 (store32 (fun _ => 0) (4 * 0) 0x80011000) (4 * i) &&& PTE_V = 0
    rw [load32_store32_array, load32_zero]
    by_cases first : i = 0
    · rw [if_pos first]
      decide
    · rw [if_neg first]
      decide
  unfold tableAt
  rw [validEntry_none invalid]
  rfl

theorem smallRam_twoLevel : @TwoLevel smallLayout smallRam 0x80010000 smallPages := by
  refine @TwoLevel.mk smallLayout _ _ _
    (@Balance.mk smallLayout _ _ _ smallRam_chain ?_ ?_) (by decide) ?_ ?_
  · rw [add_zero, coe_nodup]
    decide
  · intro page mem
    rw [add_zero] at mem
    exact smallPages_managed page (mem_coe.mp mem)
  · intro i _ table here
    rw [smallRam_tableAt] at here
    cases here
  · intro i _ j _ table here
    rw [smallRam_tableAt] at here
    cases here

/-- Two pages in different page-table pages, with addresses inside the pages. -/
theorem pageTables_are_maps_two : @TwoLevel smallLayout smallRam 0x80010000 smallPages ∧
    ((smallRam.mappages 0x80010000 0x3ff800 0x1000 0x80005800 (PTE_R ||| PTE_U)).map Prod.fst) =
      .ok true ∧
    ∃ mapped ram' free', smallRam.mappages 0x80010000 0x3ff800 0x1000 0x80005800 (PTE_R ||| PTE_U) =
        .ok (mapped, ram') ∧
      @TwoLevel smallLayout ram' 0x80010000 free' ∧
      (mapped = true → ∀ v < 2 ^ 20, if vpn 0x3ff800 ≤ v ∧ v ≤ vpn (0x3ff800 + 0x1000 - 1) then
          ∃ entry, ram'.translation 0x80010000 v = some entry ∧
            pte2pa entry = pageAddress (vpn 0x80005800 + (v - vpn 0x3ff800)) ∧
            pteFlags entry = PTE_R ||| PTE_U ||| PTE_V
        else ram'.translation 0x80010000 v = smallRam.translation 0x80010000 v) := by
  refine ⟨smallRam_twoLevel, by decide +kernel, ?_⟩
  refine (@pageTables_are_maps smallLayout smallRam 0x80010000 smallPages smallRam_twoLevel).1
    0x3ff800 0x80005800 0x1000 _ (by decide) (by decide) (by decide) (by decide)
    (by decide) (by decide) fun v _ _ => ?_
  exact translation_of_no_table (smallRam_tableAt _)

end Xv6Rv32im.Vm
