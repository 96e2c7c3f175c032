import Mathlib.Data.List.GetD
import Xv6Rv32im.Fs.WriteLimit

/-!
# Writes through a shared descriptor

Several calls of `filewrite` on one `struct file`.  A step of a call is one round of its
loop, from `begin_op` to `end_op`: the offset is read, used and advanced under the lock of
the inode, so that each chunk begins where the previous one ended, whichever call it
belongs to.
-/

namespace Xv6Rv32im.Fs

open Library.ByteWords Library.Run Function List

namespace FileSystem

variable {sb : Superblock} {fs fs' : FileSystem} {src : Source} {i : Nat}

/-- `writei` of bytes that can be read, at an offset that is not out of range, writes all of
them, unless the disk is full. -/
theorem writei_whole (owned : Owned sb fs) (lt : i < sb.ninodes) {off n : BitVec 32}
    (accepted : ¬Refused (fs.inode i).size off n)
    (readable : ∀ pos len, pos + len ≤ n.toNat → src.copied pos len = len) :
    writei sb fs i src off n = .error .balloc ∨
      ∃ fs', writei sb fs i src off n = .ok (n.toNat, fs') ∧ Owned sb fs' ∧
        (fs'.inode i).size = max (fs.inode i).size (off.toNat + n.toNat) ∧
        ∀ x < MAXFILE * BSIZE,
          fs'.byte i x = writeArray (fs.byte i) off.toNat n.toNat src.byte x := by
  have bound : off.toNat + n.toNat ≤ MAXFILE * BSIZE := by
    unfold Refused at accepted
    omega
  have small {tot : Nat} (more : tot < n.toNat) : (off.toNat + tot) / BSIZE < MAXFILE :=
    block_lt (by omega)
  have step (fs' : FileSystem) (tot b : Nat) (fs₂ : FileSystem)
      (wrote : Wrote sb src fs fs' i off.toNat tot) (more : tot < n.toNat)
      (mapped : bmap sb fs' i ((off.toNat + tot) / BSIZE) = .ok (b, fs₂))
      (_ : src.copied tot (chunk n.toNat (off.toNat + tot) tot) =
        chunk n.toNat (off.toNat + tot) tot) :
      Wrote sb src fs
        ((fs₂.fill src b (off.toNat + tot) tot (chunk n.toNat (off.toNat + tot) tot)).logWrite b) i
        off.toNat (tot + chunk n.toNat (off.toNat + tot) tot) := by
    obtain ⟨fs₁, indirect, mapping⟩ := bmap_returns wrote.owned lt (small more) mapped
    have round := round_fill wrote.owned lt (small more) indirect mapping
      ((off.toNat + tot) % BSIZE) (chunk n.toNat (off.toNat + tot) tot) fun j => src.byte (tot + j)
    have bounded := chunk_le n.toNat (off.toNat + tot) tot
    exact (wrote.round lt round (chunk_fits ..) (by omega)).logWrite b
  rw [writei_accepted accepted]
  obtain ⟨panic, fs', tot', ran, wrote, more, panics⟩ | ⟨fs₁, ran, wrote⟩ |
      ⟨tot', fs', b, fs₁, -, -, more, -, fails⟩ := writeFrom_rule step
        (.refl owned i off.toNat) (Nat.zero_le _) (enough_initial n.toNat off.toNat)
  · left
    obtain ⟨full, -⟩ | ⟨b, fs₁, fs₂, mapped, -⟩ := bmap_spec wrote.owned lt (small more)
    · rw [full] at panics
      cases panics
      exact congrArg (Except.map _) ran
    · rw [mapped] at panics
      cases panics
  · right
    obtain ⟨owned', views, sizes⟩ := finishWrite_spec wrote.owned lt _
    refine ⟨_, congrArg (Except.map _) ran, owned', ?_, fun x below => ?_⟩
    · rw [sizes, if_pos rfl, wrote.size]
    · rw [← wrote.bytes x below]
      unfold byte
      rw [views i _ lt (block_lt below)]
  · have bounded := chunk_le n.toNat (off.toNat + tot') tot'
    rw [readable tot' _ (by omega)] at fails
    exact absurd fails (lt_irrefl _)

/-- The end of a transaction: the logged blocks reach the disk. -/
def commit (fs : FileSystem) : FileSystem :=
  { fs with disk := fun b => if b ∈ fs.log then fs.cache b else fs.disk b, log := [] }

theorem Owned.commit (owned : Owned sb fs) : Owned sb fs.commit :=
  ⟨owned.system, owned.inData, owned.marked, owned.only⟩

end FileSystem

open FileSystem

/-! ## The calls -/

/-- A call of `filewrite`: the bytes of the user and their number.  A number that is not
positive, for which the loop does nothing, is left out. -/
structure Request where
  src : Source
  n : Nat
  small : n < 2 ^ 31

def FileSystem.Source.after (src : Source) (pos : Nat) : Source where
  byte := fun k => src.byte (pos + k)
  copied := fun k len => src.copied (pos + k) len
  copied_le := fun k len => src.copied_le (pos + k) len

structure Chunk where
  call : Nat
  start : Nat
  bytes : List (BitVec 8)

/-- The file system, `f->off`, how many bytes each call has written, and what the calls have
returned.  `chunks` records what was written, for reasoning only. -/
structure Shared where
  fs : FileSystem
  off : BitVec 32
  done : Nat → Nat
  result : Nat → Option Int
  chunks : List Chunk

namespace Shared

def n1 (requests : Nat → Request) (s : Shared) (c : Nat) : Nat :=
  min ((requests c).n - s.done c) maxChunk

def step (sb : Superblock) (ip : Nat) (requests : Nat → Request) (s : Shared) (c : Nat) :
    Except Panic Shared :=
  if s.result c ≠ none then .ok s
  else if s.done c < (requests c).n then
    match writei sb s.fs ip ((requests c).src.after (s.done c)) s.off
        (BitVec.ofNat 32 (s.n1 requests c)) with
    | .error panic => .error panic
    | .ok (r, fs) =>
      let s' : Shared := { s with
        fs := fs.commit
        off := if r > 0 then s.off + BitVec.ofInt 32 r else s.off
        chunks := if r > 0 then
            s.chunks ++ [⟨c, s.off.toNat, (List.range r.toNat).map fun k =>
              (requests c).src.byte (s.done c + k)⟩]
          else s.chunks }
      if r ≠ s.n1 requests c then .ok { s' with result := update s.result c (some (-1)) }
      else .ok { s' with done := update s.done c (s.done c + s.n1 requests c) }
  else .ok { s with result := update s.result c (some (requests c).n) }

def Readable (request : Request) : Prop :=
  ∀ pos len, pos + len ≤ request.n → request.src.copied pos len = len

/-- The next chunk of the call stays below the maximal size of a file. -/
def Below (requests : Nat → Request) (s : Shared) (c : Nat) : Prop :=
  s.off.toNat + s.n1 requests c ≤ MAXFILE * BSIZE

instance (requests : Nat → Request) (s : Shared) (c : Nat) : Decidable (Below requests s c) :=
  inferInstanceAs (Decidable (_ ≤ _))

/-! ## The invariant -/

def contents (chunks : List Chunk) : List (BitVec 8) := chunks.flatMap Chunk.bytes

def Consecutive : Nat → List Chunk → Prop
  | _, [] => True
  | lo, chunk :: rest => chunk.start = lo ∧ Consecutive (lo + chunk.bytes.length) rest

theorem contents_append (first second : List Chunk) :
    contents (first ++ second) = contents first ++ contents second :=
  flatMap_append

theorem consecutive_append {lo : Nat} {first second : List Chunk} :
    Consecutive lo (first ++ second) ↔
      Consecutive lo first ∧ Consecutive (lo + (contents first).length) second := by
  induction first generalizing lo with
  | nil => exact ⟨fun both => ⟨True.intro, both⟩, fun both => both.2⟩
  | cons chunk rest ih =>
    change (_ ∧ Consecutive _ (rest ++ second)) ↔ (_ ∧ Consecutive _ rest) ∧ _
    rw [ih, and_assoc]
    have length : (contents (chunk :: rest)).length =
        chunk.bytes.length + (contents rest).length := by
      unfold contents
      rw [flatMap_cons, length_append]
    rw [length, add_assoc]

theorem Consecutive.disjoint {lo : Nat} {chunks : List Chunk}
    (consecutive : Consecutive lo chunks) :
    (∀ chunk ∈ chunks, lo ≤ chunk.start) ∧
      chunks.Pairwise fun a b => a.start + a.bytes.length ≤ b.start := by
  induction chunks generalizing lo with
  | nil => exact ⟨nofun, List.Pairwise.nil⟩
  | cons chunk rest ih =>
    obtain ⟨here, later⟩ := consecutive
    obtain ⟨above, apart⟩ := ih later
    refine ⟨fun other mem => ?_, pairwise_cons.mpr ⟨fun other mem => ?_, apart⟩⟩
    · rcases mem_cons.mp mem with rfl | mem
      · exact here.ge
      · have := above other mem
        omega
    · rw [here]
      exact above other mem

/-- What holds after some rounds, compared with the state before them. -/
structure Interleaved (sb : Superblock) (ip : Nat) (requests : Nat → Request) (s₀ s : Shared) :
    Prop where
  owned : Owned sb s.fs
  offset : s.off.toNat = s₀.off.toNat + (contents s.chunks).length
  consecutive : Consecutive s₀.off.toNat s.chunks
  bytes : ∀ x < MAXFILE * BSIZE, s.fs.byte ip x =
    writeArray (s₀.fs.byte ip) s₀.off.toNat (contents s.chunks).length
      (fun k => (contents s.chunks).getD k 0) x
  size : s₀.off.toNat ≤ (s₀.fs.inode ip).size → (s.fs.inode ip).size =
    max (s₀.fs.inode ip).size (s₀.off.toNat + (contents s.chunks).length)
  stuck : (s₀.fs.inode ip).size < s₀.off.toNat →
    (s.fs.inode ip).size = (s₀.fs.inode ip).size ∧ s.chunks = []
  order : ∀ c, contents (s.chunks.filter fun chunk => chunk.call = c) =
    (List.range (s.done c)).map (requests c).src.byte
  within : ∀ c, s.done c ≤ (requests c).n
  results : ∀ c r, s.result c = some r → r = (requests c).n ∧ s.done c = (requests c).n ∨
    (s₀.fs.inode ip).size < s₀.off.toNat

variable {sb : Superblock} {ip : Nat} {requests : Nat → Request} {s₀ s s' : Shared} {c : Nat}

theorem Interleaved.refl (owned : Owned sb s.fs) (fresh : ∀ c, s.done c = 0 ∧ s.result c = none)
    (none : s.chunks = []) : Interleaved sb ip requests s s where
  owned := owned
  offset := by
    rw [none]
    rfl
  consecutive := by
    rw [none]
    exact True.intro
  bytes := fun x _ => by
    rw [none]
    exact (if_neg (fun both => by
      have : x < s.off.toNat + 0 := both.2
      omega)).symm
  size := fun lt => by
    rw [none]
    exact (max_eq_left lt).symm
  stuck := fun _ => ⟨rfl, none⟩
  order := fun c => by
    rw [none, (fresh c).1]
    rfl
  within := fun c => by
    rw [(fresh c).1]
    exact Nat.zero_le _
  results := fun c r returned => by
    rw [(fresh c).2] at returned
    cases returned

theorem Interleaved.finish (inv : Interleaved sb ip requests s₀ s)
    (complete : ¬s.done c < (requests c).n) :
    Interleaved sb ip requests s₀ { s with
      result := update s.result c (some (requests c).n) } where
  owned := inv.owned
  offset := inv.offset
  consecutive := inv.consecutive
  bytes := inv.bytes
  size := inv.size
  stuck := inv.stuck
  order := inv.order
  within := inv.within
  results := by
    intro other r returned
    dsimp only at returned ⊢
    by_cases same : other = c
    · subst same
      rw [update_self] at returned
      exact .inl ⟨(Option.some.inj returned).symm,
        le_antisymm (inv.within other) (not_lt.mp complete)⟩
    · rw [update_of_ne same] at returned
      exact inv.results other r returned

def nextBytes (requests : Nat → Request) (s : Shared) (c len : Nat) : List (BitVec 8) :=
  (List.range len).map fun k => (requests c).src.byte (s.done c + k)

theorem Interleaved.write {fs : FileSystem} {len : Nat} (inv : Interleaved sb ip requests s₀ s)
    (owned : Owned sb fs) (small : s.off.toNat + len < 2 ^ 32)
    (lt : s.off.toNat ≤ (s.fs.inode ip).size) (more : s.done c + len ≤ (requests c).n)
    (running : s.result c = none)
    (size : (fs.inode ip).size = max (s.fs.inode ip).size (s.off.toNat + len))
    (bytes : ∀ x < MAXFILE * BSIZE, fs.byte ip x = writeArray (s.fs.byte ip) s.off.toNat len
      (fun k => (requests c).src.byte (s.done c + k)) x) :
    Interleaved sb ip requests s₀ { s with
      fs := fs.commit
      off := s.off + BitVec.ofNat 32 len
      done := update s.done c (s.done c + len)
      chunks := s.chunks ++ [⟨c, s.off.toNat, nextBytes requests s c len⟩] } := by
  have offset := inv.offset
  have grown : contents (s.chunks ++ [⟨c, s.off.toNat, nextBytes requests s c len⟩]) =
      contents s.chunks ++ nextBytes requests s c len := by
    rw [contents_append]
    unfold contents
    rw [flatMap_singleton]
  have length : (contents (s.chunks ++ [⟨c, s.off.toNat, nextBytes requests s c len⟩])).length =
      (contents s.chunks).length + len := by
    rw [grown, length_append, nextBytes, length_map, length_range]
  have reached : s₀.off.toNat ≤ (s₀.fs.inode ip).size := by
    by_contra beyond
    obtain ⟨sameSize, none⟩ := inv.stuck (not_le.mp beyond)
    rw [none] at offset
    have : s.off.toNat = s₀.off.toNat + 0 := offset
    omega
  refine ⟨owned.commit, ?_, ?_, ?_, ?_, ?_, ?_, ?_, ?_⟩
  · rw [length]
    rw [BitVec.toNat_add, BitVec.toNat_ofNat]
    omega
  · exact consecutive_append.mpr ⟨inv.consecutive, offset, True.intro⟩
  · intro x below
    change fs.byte ip x = writeArray _ _ (contents _).length (fun k => (contents _).getD k 0) x
    rw [bytes x below, length, grown]
    unfold writeArray
    by_cases new : s.off.toNat ≤ x ∧ x < s.off.toNat + len
    · rw [if_pos new, if_pos (by omega)]
      dsimp only
      rw [getD_append_right _ _ _ _ (by omega)]
      unfold nextBytes
      have index : x - s₀.off.toNat - (contents s.chunks).length = x - s.off.toNat := by
        omega
      rw [index, getD_eq_getElem _ _ (by rw [length_map, length_range]; omega),
        getElem_map, getElem_range]
    · rw [if_neg new, inv.bytes x below]
      unfold writeArray
      by_cases old : s₀.off.toNat ≤ x ∧ x < s₀.off.toNat + (contents s.chunks).length
      · rw [if_pos old, if_pos (by omega)]
        dsimp only
        rw [getD_append _ _ _ _ (by omega)]
      · rw [if_neg old, if_neg (by omega)]
  · intro _
    rw [length]
    change (fs.inode ip).size = _
    rw [size, inv.size reached]
    omega
  · intro beyond
    omega
  · intro other
    dsimp only
    rw [filter_append, contents_append, inv.order other]
    by_cases same : other = c
    · subst same
      have kept : [(⟨other, s.off.toNat, nextBytes requests s other len⟩ : Chunk)].filter
          (fun chunk => chunk.call = other) =
          [⟨other, s.off.toNat, nextBytes requests s other len⟩] :=
        filter_cons_of_pos (decide_eq_true rfl)
      rw [kept, update_self, range_add, map_append, map_map]
      unfold contents
      rw [flatMap_singleton]
      rfl
    · have dropped : [(⟨c, s.off.toNat, nextBytes requests s c len⟩ : Chunk)].filter
          (fun chunk => chunk.call = other) = [] := by
        rw [filter_cons_of_neg (by simpa using Ne.symm same)]
        rfl
      rw [dropped, update_of_ne same]
      exact append_nil _
  · intro other
    dsimp only
    by_cases same : other = c
    · subst same
      rw [update_self]
      exact more
    · rw [update_of_ne same]
      exact inv.within other
  · intro other r returned
    dsimp only at returned ⊢
    have ne : other ≠ c := by
      rintro rfl
      rw [running] at returned
      cases returned
    rw [update_of_ne ne]
    exact inv.results other r returned

/-- A round keeps the invariant, or the disk is full. -/
theorem step_interleaved (lt : ip < sb.ninodes) (readable : ∀ c, Readable (requests c))
    (inv : Interleaved sb ip requests s₀ s) (below : Below requests s c) :
    (∃ s', step sb ip requests s c = .ok s' ∧ Interleaved sb ip requests s₀ s') ∨
      ∃ panic, step sb ip requests s c = .error panic ∧ panic = .balloc := by
  unfold step
  by_cases running : s.result c = none
  · rw [if_neg (not_not.mpr running)]
    by_cases more : s.done c < (requests c).n
    · rw [if_pos more]
      have positive : 0 < s.n1 requests c := by
        have chunk : 0 < maxChunk := by decide
        unfold n1
        omega
      have most : s.n1 requests c ≤ (requests c).n - s.done c := Nat.min_le_left ..
      have few := (requests c).small
      have length : (BitVec.ofNat 32 (s.n1 requests c)).toNat = s.n1 requests c := by
        rw [BitVec.toNat_ofNat]
        omega
      have limit : MAXFILE * BSIZE < 2 ^ 32 := by decide
      have bound : s.off.toNat + s.n1 requests c ≤ MAXFILE * BSIZE := below
      by_cases beyond : (s.fs.inode ip).size < s.off.toNat
      · -- Only an offset behind the end of the file is refused.
        have refused : writei sb s.fs ip ((requests c).src.after (s.done c)) s.off
            (BitVec.ofNat 32 (s.n1 requests c)) = .ok (-1, s.fs) :=
          (writei_refused_iff ..).mpr (.inl beyond)
        have behind : (s₀.fs.inode ip).size < s₀.off.toNat := by
          by_contra reached
          have grown := inv.size (not_lt.mp reached)
          have offset := inv.offset
          omega
        rw [refused]
        dsimp only
        rw [if_pos (by omega)]
        exact .inl ⟨_, rfl, { inv with
          owned := inv.owned.commit
          results := fun _ _ _ => .inr behind }⟩
      · have accepted :
            ¬Refused (s.fs.inode ip).size s.off (BitVec.ofNat 32 (s.n1 requests c)) := by
          unfold Refused
          rw [length]
          omega
        have copies (pos len : Nat) (fits : pos + len ≤ (BitVec.ofNat 32 (s.n1 requests c)).toNat) :
            ((requests c).src.after (s.done c)).copied pos len = len := by
          rw [length] at fits
          exact readable c (s.done c + pos) len (by omega)
        obtain full | ⟨fs, ran, owned, size, bytes⟩ :=
          writei_whole inv.owned lt accepted copies
        · rw [full]
          exact .inr ⟨_, rfl, rfl⟩
        rw [length] at ran size bytes
        rw [ran]
        dsimp only
        rw [if_neg (not_not.mpr rfl), if_pos (by omega), if_pos (by omega)]
        refine .inl ⟨_, rfl, ?_⟩
        exact inv.write owned (by omega) (not_lt.mp beyond) (by omega) running size bytes
    · rw [if_neg more]
      exact .inl ⟨_, rfl, inv.finish more⟩
  · rw [if_pos running]
    exact .inl ⟨s, rfl, inv⟩

/-- In any interleaving of the rounds of calls that share a file, whose user copies succeed
and which stay below the maximal size: no panic but that of a full disk; the chunks begin
one where the other ends, from the initial offset on, and do not overlap; the file has
their bytes there and its old bytes elsewhere; the chunks of each call are its bytes in
order; and a call that has returned has written all of them.  If the offset lies behind
the end of the file, nothing is written. -/
theorem shared_writes_interleave (owned : Owned sb s₀.fs) (inside : ip < sb.ninodes)
    (readable : ∀ c, Readable (requests c)) (fresh : ∀ c, s₀.done c = 0 ∧ s₀.result c = none)
    (unwritten : s₀.chunks = []) (events : List Nat)
    (below : Meets (step sb ip requests) (Below requests) s₀ events) :
    (∃ s, run (step sb ip requests) s₀ events = .ok s ∧
      s.off.toNat = s₀.off.toNat + (contents s.chunks).length ∧
      Consecutive s₀.off.toNat s.chunks ∧
      s.chunks.Pairwise (fun a b => a.start + a.bytes.length ≤ b.start) ∧
      (∀ x < MAXFILE * BSIZE, s.fs.byte ip x =
        writeArray (s₀.fs.byte ip) s₀.off.toNat (contents s.chunks).length
          (fun k => (contents s.chunks).getD k 0) x) ∧
      (∀ c, contents (s.chunks.filter fun chunk => chunk.call = c) =
        (List.range (s.done c)).map (requests c).src.byte) ∧
      (s₀.off.toNat ≤ (s₀.fs.inode ip).size → (s.fs.inode ip).size =
          max (s₀.fs.inode ip).size (s₀.off.toNat + (contents s.chunks).length) ∧
        ∀ c r, s.result c = some r → r = (requests c).n ∧ s.done c = (requests c).n) ∧
      ((s₀.fs.inode ip).size < s₀.off.toNat → s.chunks = [])) ∨
    run (step sb ip requests) s₀ events = .error .balloc := by
  have start : Interleaved sb ip requests s₀ s₀ := .refl owned fresh unwritten
  obtain ⟨s, ran, inv⟩ | ⟨panic, ran, rfl⟩ :=
    run_outcome (fun s c inv below => step_interleaved inside readable inv below) start below
  · refine .inl ⟨s, ran, inv.offset, inv.consecutive, inv.consecutive.disjoint.2, inv.bytes,
      inv.order, fun reached => ⟨inv.size reached, fun c r returned => ?_⟩,
      fun beyond => (inv.stuck beyond).2⟩
    obtain complete | beyond := inv.results c r returned
    · exact complete
    · exact absurd reached (not_le.mpr beyond)
  · exact .inr ran

def twoWriters (c : Nat) : Request where
  src := ⟨fun k => BitVec.ofNat 8 (c + k), fun _ len => len, fun _ len => le_refl len⟩
  n := 4000
  small := by decide

def sharedStart : Shared where
  fs := oneBlockFile (fun _ => 7) 1020
  off := 1000
  done := fun _ => 0
  result := fun _ => none
  chunks := []

theorem shared_writes_interleave_two :
    Meets (step disk64 1 twoWriters) (Below twoWriters) sharedStart [0, 1, 0, 1, 0, 1] ∧
    ∃ s, run (step disk64 1 twoWriters) sharedStart [0, 1, 0, 1, 0, 1] = .ok s ∧
      s.chunks.map (fun chunk => (chunk.call, chunk.start, chunk.bytes.length)) =
        [(0, 1000, 3072), (1, 4072, 3072), (0, 7144, 928), (1, 8072, 928)] ∧
      s.result 0 = some 4000 ∧ s.result 1 = some 4000 ∧
      contents (s.chunks.filter fun chunk => chunk.call = 1) =
        (List.range (s.done 1)).map (twoWriters 1).src.byte := by
  have below : Meets (step disk64 1 twoWriters) (Below twoWriters) sharedStart
      [0, 1, 0, 1, 0, 1] := by
    decide +kernel
  have checked : (run (step disk64 1 twoWriters) sharedStart [0, 1, 0, 1, 0, 1]).map (fun s =>
      decide (s.chunks.map (fun chunk => (chunk.call, chunk.start, chunk.bytes.length)) =
        [(0, 1000, 3072), (1, 4072, 3072), (0, 7144, 928), (1, 8072, 928)] ∧
      s.result 0 = some 4000 ∧ s.result 1 = some 4000)) = .ok true := by
    decide +kernel
  obtain ⟨s, ran, facts⟩ := of_map_eq_ok checked
  obtain ⟨chunks, first, second⟩ := of_decide_eq_true facts
  obtain ⟨s', ran', -, -, -, -, order, -⟩ | full := shared_writes_interleave
    (oneBlockFile_owned (fun _ => 7) 1020) (by decide) (fun c pos len _ => rfl)
    (fun c => ⟨rfl, rfl⟩) rfl _ below
  · cases ran.symm.trans ran'
    exact ⟨below, s, ran, chunks, first, second, order 1⟩
  · cases ran.symm.trans full

end Shared

end Xv6Rv32im.Fs
