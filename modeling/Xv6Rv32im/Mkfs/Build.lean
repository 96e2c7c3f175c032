import Mathlib.Data.List.GetD
import Xv6Rv32im.Mkfs.Append

/-!
# The files of an image

An image represents a table of files: the root directory and behind it one file for each input.
Every operation of `mkfs` is an operation on the table, as long as the blocks suffice.
-/

namespace Xv6Rv32im.Mkfs

open Fs Fs.FileSystem Library.ByteWords Function List FileType

abbrev File := FileType × List (BitVec 8)

def total (files : List File) : Nat := (files.map fun f => blocksOf f.2.length).sum

structure HoldsFile (fs : FileSystem) (i : Nat) (f : File) : Prop where
  type : (fs.inode i).type = f.1
  size : (fs.inode i).size = f.2.length
  small : f.2.length ≤ MAXFILE * BSIZE
  packed : Packed fs i f.2.length
  bytes : ∀ x < MAXFILE * BSIZE, fs.byte i x = f.2.getD x 0

/-- The inodes from 1 on hold the files of the table, the later ones are free. -/
structure Represents (m : Image) (fs : FileSystem) (files : List File) : Prop where
  mirrors : Mirrors m fs
  owned : Owned layout fs
  stored : Stored m fs
  superblock : m.disk 1 = superBlock
  inodes : files.length < NINODES
  freeinode : m.freeinode = files.length + 1
  freeblock : m.freeblock = nmeta + total files
  holds : ∀ j f, files[j]? = some f → HoldsFile fs (j + 1) f
  unused : ∀ j, files.length < j → (fs.inode j).addrs = fun _ => 0

variable {m m' : Image} {fs fs' : FileSystem} {files : List File} {f : File} {i j k n : Nat}

theorem total_append (first second : List File) :
    total (first ++ second) = total first + total second := by
  unfold total
  rw [map_append, sum_append]

theorem total_set (isFile : files[j]? = some f) (f' : File) :
    total (files.set j f') + blocksOf f.2.length = total files + blocksOf f'.2.length := by
  induction files generalizing j with
  | nil => cases isFile
  | cons head tail ih =>
    have step list : total (head :: list) = blocksOf head.2.length + total list := rfl
    cases j with
    | zero =>
      cases isFile
      change blocksOf f'.2.length + total tail + _ = blocksOf f.2.length + total tail + _
      omega
    | succ j =>
      have rest := ih isFile
      rw [set_cons_succ, step, step]
      omega

/-! ## Operations on the table -/

theorem Represents.iappend (repr : Represents m fs files) (isFile : files[j]? = some f)
    (data : List (BitVec 8)) {p : Nat → BitVec 8} (isData : ∀ x < data.length, p x = data.getD x 0)
    (small : (f.2 ++ data).length ≤ MAXFILE * BSIZE)
    (room : nmeta + total (files.set j (f.1, f.2 ++ data)) ≤ FSSIZE) :
    ∃ m' fs', m.iappend (j + 1) p data.length = .ok m' ∧
      Represents m' fs' (files.set j (f.1, f.2 ++ data)) := by
  obtain ⟨exists_, -⟩ := List.getElem?_eq_some_iff.mp isFile
  have holds := repr.holds j f isFile
  have inodes := repr.inodes
  have lt : j + 1 < NINODES := by omega
  have counted := total_set isFile (f.1, f.2 ++ data)
  have freeblock := repr.freeblock
  have packed := holds.packed
  rw [length_append] at small counted
  obtain ⟨m', fs', ran, appended⟩ := iappend_spec (n := data.length) (p := p) repr.mirrors
    repr.owned repr.stored lt (by rwa [holds.size]) (by rwa [holds.size]) (by
      rw [holds.size]
      omega)
  have blocks := appended.counted
  rw [holds.size] at blocks
  refine ⟨m', fs', ran, appended.mirrors, appended.owned, appended.stored,
    appended.superblock.trans repr.superblock, ?_, ?_, ?_, fun k g isFile' => ?_, fun k later => ?_⟩
  · rwa [length_set]
  · rw [length_set, appended.freeinode]
    exact repr.freeinode
  · omega
  · by_cases own : k = j
    · subst own
      rw [getElem?_set_self exists_] at isFile'
      cases isFile'
      refine ⟨appended.type.trans holds.type, ?_, ?_, ?_, fun x below => ?_⟩
      · rw [appended.size, holds.size, length_append]
      · rwa [length_append]
      · have packed' := appended.packed
        rwa [holds.size, ← length_append] at packed'
      rw [appended.bytes x below, holds.size]
      unfold writeArray
      change _ = (f.2 ++ data).getD x 0
      by_cases old : x < f.2.length
      · rw [if_neg (by omega), holds.bytes x below, getD_append _ _ _ _ old]
      have new : f.2.length ≤ x := not_lt.mp old
      rw [getD_append_right _ _ _ _ new]
      by_cases within : x < f.2.length + data.length
      · rw [if_pos ⟨new, within⟩, isData _ (by omega)]
      · rw [if_neg (by omega), holds.bytes x below, getD_eq_default _ _ new,
          getD_eq_default _ _ (by omega)]
    · rw [List.getElem?_set_ne (Ne.symm own)] at isFile'
      obtain ⟨exists', -⟩ := List.getElem?_eq_some_iff.mp isFile'
      have holds' := repr.holds k g isFile'
      have other : k + 1 ≠ j + 1 := by omega
      have lt' : k + 1 < NINODES := by omega
      have bound := holds'.small
      refine ⟨?_, ?_, bound, ?_, fun x below => ?_⟩
      · rw [appended.inode _ other]
        exact holds'.type
      · rw [appended.inode _ other]
        exact holds'.size
      · exact holds'.packed.congr lt' fun l valid => appended.held _ l valid other
      · rw [appended.others _ x lt' other below]
        exact holds'.bytes x below
  · rw [length_set] at later
    rw [appended.inode k (by omega)]
    exact repr.unused k later

theorem Represents.ialloc (repr : Represents m fs files) (type : FileType)
    (room : files.length + 1 < NINODES) :
    ∃ m' fs', m.ialloc type = .ok (files.length + 1, m') ∧
      Represents m' fs' (files ++ [(type, [])]) := by
  have free := repr.unused _ (Nat.lt_succ_self _)
  have mirrors : Mirrors { m with freeinode := m.freeinode + 1 } fs :=
    ⟨repr.mirrors.length, repr.mirrors.first, repr.mirrors.last,
      repr.mirrors.cache, repr.mirrors.bits, repr.mirrors.zero,
      repr.mirrors.rest⟩
  have fits : Dinode.Fits { Dinode.zero with type := type, nlink := 1 } :=
    ⟨by change 0 < 2 ^ 32; decide, fun _ _ => by change 0 < 2 ^ 32; decide, fun _ _ => rfl⟩
  obtain ⟨m', fs', ran, mirrors', same, stored, freeinode, freeblock, inodes, disk⟩ :=
    winode_spec mirrors repr.owned room (fun k valid _ => repr.stored k valid) fits free.symm
  have others {k} (other : k ≠ files.length + 1) : fs'.inode k = fs.inode k := by
    rw [inodes, update_of_ne other]
  refine ⟨m', fs', ?_, mirrors', same.owned repr.owned, stored,
    (disk 1 (iblock_ne_one _).symm).trans repr.superblock, ?_, ?_, ?_,
    fun k g isFile => ?_, fun k later => ?_⟩
  · unfold Image.ialloc
    rw [repr.freeinode] at ran ⊢
    dsimp only
    rw [ran]
    rfl
  · rw [length_append]
    exact room
  · rw [freeinode, length_append]
    rw [repr.freeinode]
    rfl
  · have empty : total [(type, [])] = 0 := by
      change blocksOf 0 + 0 = 0
      decide
    rw [freeblock, total_append, empty]
    exact repr.freeblock
  · by_cases isNew : k < files.length
    · rw [getElem?_append_left isNew] at isFile
      have holds := repr.holds k g isFile
      have lt : k + 1 < NINODES := by omega
      have bound := holds.small
      have unchanged := others (show k + 1 ≠ files.length + 1 by omega)
      refine ⟨?_, ?_, bound, ?_, fun x below => ?_⟩
      · rw [unchanged]
        exact holds.type
      · rw [unchanged]
        exact holds.size
      · exact holds.packed.congr lt fun l valid => same.held _ l valid
      · rw [← holds.bytes x below]
        unfold byte
        rw [same.view repr.owned lt (block_lt below)]
    · have last : k = files.length := by
        have bound := (List.getElem?_eq_some_iff.mp isFile).1
        rw [length_append] at bound
        change k < files.length + 1 at bound
        omega
      subst last
      rw [getElem?_append_right le_rfl, Nat.sub_self] at isFile
      cases isFile
      have empty {l} (valid : Slot layout (files.length + 1) l) :
          fs'.held (files.length + 1) l = 0 := by
        rw [same.held _ l valid]
        unfold held
        rw [free]
        split <;> rfl
      refine ⟨?_, ?_, Nat.zero_le _, ⟨fun bn small => ?_, ?_⟩, fun x below => ?_⟩
      · rw [inodes, update_self]
      · rw [inodes, update_self]
        rfl
      · rw [empty ⟨room, slot_lt small⟩]
        exact ⟨fun _ => Nat.zero_le _, fun _ => rfl⟩
      · rw [empty ⟨room, by decide⟩]
        exact ⟨fun _ => Nat.zero_le _, fun _ => rfl⟩
      · unfold byte
        rw [view_eq_none.mpr (empty ⟨room, slot_lt (block_lt below)⟩)]
        rfl
  · rw [length_append] at later
    change files.length + 1 < k at later
    rw [others (by omega)]
    exact repr.unused k (by omega)

/-! ## `main` -/

def entryBytes (inum : Nat) (name : List (BitVec 8)) : List (BitVec 8) :=
  (range 16).map (dirent inum name)

def Input.content (input : Input) : List (BitVec 8) := input.chunks.flatten

def rootBytes (inputs : List Input) : List (BitVec 8) :=
  entryBytes ROOTINO dot ++ entryBytes ROOTINO dotDot ++
    inputs.zipIdx.flatMap fun input => entryBytes (input.2 + 2) (storedName input.1.path)

def table (inputs : List Input) : List File :=
  (.dir, rootBytes inputs) :: inputs.map fun input => (.file, input.content)

structure Fits (inputs : List Input) : Prop where
  inodes : inputs.length + 1 < NINODES
  sizes : ∀ input ∈ inputs, input.content.length ≤ MAXFILE * BSIZE
  blocks : nmeta + total (table inputs) ≤ FSSIZE

theorem entryBytes_length (inum : Nat) (name : List (BitVec 8)) :
    (entryBytes inum name).length = 16 := by
  unfold entryBytes
  rw [length_map, length_range]

theorem rootBytes_snoc (inputs : List Input) (input : Input) : rootBytes (inputs ++ [input]) =
      rootBytes inputs ++ entryBytes (inputs.length + 2) (storedName input.path) := by
  unfold rootBytes
  rw [zipIdx_append, flatMap_append, ← append_assoc, zero_add]
  simp

theorem rootBytes_length (inputs : List Input) :
    (rootBytes inputs).length = 16 * (inputs.length + 2) := by
  induction inputs using reverseRecOn with
  | nil => rfl
  | append_singleton inputs input ih =>
    rw [rootBytes_snoc, length_append, ih, entryBytes_length, length_append]
    change _ = 16 * (inputs.length + 1 + 2)
    omega

theorem total_table_le (first rest : List Input) :
    total (table first) ≤ total (table (first ++ rest)) := by
  have root : blocksOf (rootBytes first).length ≤ blocksOf (rootBytes (first ++ rest)).length := by
    refine blocksOf_mono ?_
    rw [rootBytes_length, rootBytes_length, length_append]
    omega
  have cons head tail :
      total (head :: tail) = blocksOf head.2.length + total tail := rfl
  unfold table
  rw [cons, cons, map_append, total_append]
  dsimp only
  omega

theorem Represents.chunks (chunks : List (List (BitVec 8))) {done : List (BitVec 8)}
    (repr : Represents m fs (files ++ [(.file, done)]))
    (small : (done ++ chunks.flatten).length ≤ MAXFILE * BSIZE)
    (room : nmeta + total (files ++ [(.file, done ++ chunks.flatten)]) ≤ FSSIZE) :
    ∃ m' fs', chunks.foldlM (fun (m : Image) chunk =>
        m.iappend (files.length + 1) (fun j => chunk.getD j 0) chunk.length) m = .ok m' ∧
      Represents m' fs' (files ++ [(.file, done ++ chunks.flatten)]) := by
  induction chunks generalizing m fs done with
  | nil =>
    rw [flatten_nil, append_nil] at *
    exact ⟨m, fs, rfl, repr⟩
  | cons chunk chunks ih =>
    rw [flatten_cons, ← append_assoc] at *
    have isFile : (files ++ [(file, done)])[files.length]? = some (.file, done) := by
      rw [getElem?_append_right le_rfl, Nat.sub_self]
      rfl
    have isSet : (files ++ [(file, done)]).set files.length (.file, done ++ chunk) =
        files ++ [(.file, done ++ chunk)] := by
      rw [set_append_right _ _ le_rfl, Nat.sub_self]
      rfl
    have longer : (done ++ chunk ++ chunks.flatten).length =
        (done ++ chunk).length + chunks.flatten.length := length_append
    have fewer : total (files ++ [(.file, done ++ chunk)]) ≤
        total (files ++ [(.file, done ++ chunk ++ chunks.flatten)]) := by
      rw [total_append, total_append]
      refine Nat.add_le_add_left (Nat.add_le_add_right (blocksOf_mono ?_) 0) _
      change (done ++ chunk).length ≤ (done ++ chunk ++ chunks.flatten).length
      omega
    obtain ⟨m₁, fs₁, ran, represents₁⟩ := repr.iappend isFile chunk
      (fun _ _ => rfl)
      (by change (done ++ chunk).length ≤ _; omega)
      (by rw [isSet]; omega)
    rw [isSet] at represents₁
    obtain ⟨m', fs', rest, repr'⟩ := ih represents₁ small room
    refine ⟨m', fs', ?_, repr'⟩
    rw [foldlM_cons, ran]
    exact rest

theorem Represents.enter {root : List (BitVec 8)} {rest : List File}
    (repr : Represents m fs ((.dir, root) :: rest)) (inum : Nat) (name : List (BitVec 8))
    (small : root.length + 16 ≤ MAXFILE * BSIZE)
    (room : nmeta + total ((.dir, root ++ entryBytes inum name) :: rest) ≤ FSSIZE) :
    ∃ m' fs', m.iappend ROOTINO (dirent inum name) 16 = .ok m' ∧
      Represents m' fs' ((.dir, root ++ entryBytes inum name) :: rest) := by
  have length := entryBytes_length inum name
  have isEntry x (below : x < (entryBytes inum name).length) :
      dirent inum name x = (entryBytes inum name).getD x 0 := by
    rw [length] at below
    unfold entryBytes
    rw [getD_eq_getElem?_getD, getElem?_map, getElem?_range below]
    rfl
  have entered := repr.iappend (j := 0) rfl _ isEntry (by
      change (root ++ entryBytes inum name).length ≤ _
      rw [length_append, length]
      exact small)
    room
  rw [length] at entered
  exact entered

theorem Represents.addFile {inputs : List Input} {input : Input}
    (repr : Represents m fs (table inputs)) (plain : slash ∉ shortname input.path)
    (fits : Fits (inputs ++ [input])) :
    ∃ m' fs', addFile m input = .ok m' ∧ Represents m' fs' (table (inputs ++ [input])) := by
  have count : (table inputs).length = inputs.length + 1 := by
    unfold table
    rw [length_cons, length_map]
  have inodes := fits.inodes
  rw [length_append] at inodes
  change inputs.length + 1 + 1 < NINODES at inodes
  obtain ⟨m₁, fs₁, allocated, represents₁⟩ := repr.ialloc .file (by rw [count]; exact inodes)
  rw [count] at allocated
  -- The entry of the root directory.
  let root : List File := (.dir, rootBytes (inputs ++ [input])) ::
    inputs.map fun input => (.file, input.content)
  have whole : root ++ [(.file, input.content)] = table (inputs ++ [input]) := by
    unfold table
    rw [map_append]
    rfl
  have blocks := fits.blocks
  rw [← whole, total_append] at blocks
  have isRoot : (.dir, rootBytes inputs ++ entryBytes (inputs.length + 2)
      (storedName input.path)) :: (inputs.map (fun input => (file, input.content)) ++
        [(.file, [])]) = root ++ [(.file, [])] := by
    rw [← rootBytes_snoc]
    rfl
  change Represents m₁ fs₁ ((.dir, rootBytes inputs) ::
    (inputs.map (fun input => (file, input.content)) ++ [(.file, [])])) at represents₁
  obtain ⟨m₂, fs₂, entered, represents₂⟩ := represents₁.enter _
    (storedName input.path)
    (by
      rw [rootBytes_length]
      unfold NINODES at inodes
      unfold MAXFILE NDIRECT NINDIRECT BSIZE
      omega)
    (by
      have none : total [((.file, []) : File)] = 0 := by decide
      rw [isRoot, total_append]
      omega)
  rw [isRoot] at represents₂
  have rootLength : root.length = inputs.length + 1 := by
    rw [length_cons, length_map]
  obtain ⟨m', fs', filled, repr'⟩ := represents₂.chunks input.chunks (by
      rw [nil_append]
      exact fits.sizes input (mem_append_right _ (mem_singleton_self _)))
    (by
      rw [nil_append, total_append]
      exact blocks)
  rw [nil_append] at repr'
  refine ⟨m', fs', ?_, whole ▸ repr'⟩
  unfold Mkfs.addFile
  rw [if_neg plain, allocated]
  change (m₁.iappend ROOTINO (dirent (inputs.length + 2) (storedName input.path)) 16 >>= _) = _
  rw [entered]
  rw [rootLength] at filled
  exact filled

theorem addFiles_spec (done rest : List Input) (repr : Represents m fs (table done))
    (fits : Fits (done ++ rest)) :
    (∃ input ∈ rest, slash ∈ shortname input.path) ∧ rest.foldlM addFile m = .error .assertion ∨
      (∀ input ∈ rest, slash ∉ shortname input.path) ∧
        ∃ m' fs', rest.foldlM addFile m = .ok m' ∧ Represents m' fs' (table (done ++ rest)) := by
  induction rest generalizing m fs done with
  | nil =>
    rw [append_nil]
    exact .inr ⟨nofun, m, fs, rfl, repr⟩
  | cons input rest ih =>
    have isSplit : done ++ input :: rest = done ++ [input] ++ rest := by simp
    rw [isSplit] at fits ⊢
    rw [foldlM_cons]
    by_cases plain : slash ∈ shortname input.path
    · refine .inl ⟨⟨input, mem_cons_self, plain⟩, ?_⟩
      unfold addFile
      rw [if_pos plain]
      rfl
    have firstFits : Fits (done ++ [input]) := by
      have inodes := fits.inodes
      have blocks := fits.blocks
      have fewer := total_table_le (done ++ [input]) rest
      rw [length_append] at inodes
      exact ⟨by omega, fun input' isIn => fits.sizes input' (mem_append_left _ isIn),
        by omega⟩
    obtain ⟨m₁, fs₁, added, represents₁⟩ := repr.addFile plain firstFits
    rw [added]
    rcases ih (done ++ [input]) represents₁ fits with ⟨⟨bad, isIn, hasSlash⟩, fails⟩ |
        ⟨plainRest, m', fs', ran, repr'⟩
    · exact .inl ⟨⟨bad, mem_cons_of_mem _ isIn, hasSlash⟩, fails⟩
    refine .inr ⟨fun input' isIn => ?_, m', fs', ran, repr'⟩
    rcases mem_cons.mp isIn with rfl | later
    · exact plain
    · exact plainRest input' later

end Xv6Rv32im.Mkfs
