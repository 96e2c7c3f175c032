import Xv6Rv32im.Sock.Model

/-!
# The list of sockets

The list that starts at `sockets` and the allocated sockets.  `socket_close` looks for a socket
behind the first one only, by its type and control block.
-/

namespace Xv6Rv32im.Sock

open Library.LinkedList Library.Run Function Option List

namespace Sockets

variable {st next : Sockets} {l : List Nat} {p q : Nat} {s : Socket}

def link (st : Sockets) (p : Nat) : Option (Option Nat) := (st.page p).map Socket.nxt

/-- The list is `l`, and holds exactly the allocated sockets, each once. -/
structure Lists (st : Sockets) (l : List Nat) : Prop where
  chain : Chain st.link st.sockets l
  nodup : l.Nodup
  all : ∀ p, p ∈ l ↔ (st.page p).isSome = true
  bounded : ∀ p ∈ l, p < PAGES

/-- A socket with a valid index has a used block, and no other socket has it. -/
structure Owned (st : Sockets) : Prop where
  used : ∀ p s t, st.page p = some s → tableOf s.type = some t → s.cbIdx.toNat < CB_TABLE_SIZE →
    st.used t s.cbIdx.toNat = true
  only : ∀ p q s s' t, st.page p = some s → st.page q = some s' → tableOf s.type = some t →
    s.cbIdx.toNat < CB_TABLE_SIZE → s'.type = s.type → s'.cbIdx = s.cbIdx → q = p

theorem tableOf_inj {type type' : BitVec 8} {t : Table} (known : tableOf type = some t)
    (known' : tableOf type' = some t) : type = type' := by
  unfold tableOf at known known'
  grind

theorem init_lists : init.Lists [] where
  chain := True.intro
  nodup := nodup_nil
  all := by simp [init]
  bounded := nofun

theorem init_owned : init.Owned where
  used := nofun
  only := nofun

/-! ## Allocation -/

/-- A socket that was put in front of the list, whatever its control block. -/
theorem Lists.push {sock : Socket} (lists : st.Lists l) (free : st.page p = none)
    (lt : p < PAGES) (front : sock.nxt = st.sockets)
    (page : next.page = update st.page p (some sock)) (head : next.sockets = some p) :
    next.Lists (p :: l) := by
  have new : p ∉ l := by
    rw [lists.all, free]
    nofun
  have links : next.link = update st.link p (some st.sockets) := by
    funext r
    unfold link
    rw [page, update_apply, update_apply]
    split
    · rw [← front]
      rfl
    · rfl
  constructor
  · rw [links, head]
    exact lists.chain.push new
  · exact nodup_cons.mpr ⟨new, lists.nodup⟩
  · intro r
    rw [mem_cons, page, update_apply]
    split
    next same => exact ⟨fun _ => rfl, fun _ => .inl same⟩
    next ne => rw [or_iff_right ne, lists.all]
  · intro r isIn
    rcases mem_cons.mp isIn with rfl | old
    · exact lt
    · exact lists.bounded r old

theorem socketAlloc_spec (st : Sockets) (p : Nat) (type : BitVec 8) (refused : Bool) :
    ∃ cbIdx, (st.socketAlloc p type refused).2.page =
        update st.page p (some ⟨st.sockets, type, cbIdx⟩) ∧
      (st.socketAlloc p type refused).2.sockets = some p ∧
      ((∀ t, tableOf type = some t → ¬cbIdx.toNat < CB_TABLE_SIZE) ∧
          (st.socketAlloc p type refused).2.used = st.used ∨
        ∃ t i, tableOf type = some t ∧ cbIdx = BitVec.ofNat 8 i ∧ i < CB_TABLE_SIZE ∧
          st.used t i = false ∧
          (st.socketAlloc p type refused).2.used =
            update st.used t (update (st.used t) i true)) := by
  unfold socketAlloc
  cases known : tableOf type with
  | none => exact ⟨5, rfl, rfl, .inl ⟨nofun, rfl⟩⟩
  | some t =>
    dsimp only
    unfold freeBlock
    split
    next full =>
      refine ⟨BitVec.ofInt 8 (-1), ?_, rfl, .inl ⟨fun _ _ => by decide, rfl⟩⟩
      exact update_idem ..
    next i found =>
      split at found
      · cases found
      have isFree := find?_some found
      have inTable := mem_of_find?_eq_some found
      refine ⟨BitVec.ofNat 8 i, update_idem .., rfl, .inr ⟨t, i, rfl, rfl, ?_, ?_, rfl⟩⟩
      · exact mem_range.mp inTable
      · change (!st.used t i) = true at isFree
        simpa using isFree

theorem Owned.socketAlloc (owned : st.Owned) (free : st.page p = none) (type : BitVec 8)
    (refused : Bool) : (st.socketAlloc p type refused).2.Owned := by
  obtain ⟨cbIdx, page, -, outcome⟩ := st.socketAlloc_spec p type refused
  have old r sock (isSock : (st.socketAlloc p type refused).2.page r = some sock) :
      (r = p ∧ sock = ⟨st.sockets, type, cbIdx⟩) ∨ r ≠ p ∧ st.page r = some sock := by
    rw [page, update_apply] at isSock
    split at isSock
    next same => exact .inl ⟨same, (some.inj isSock).symm⟩
    next ne => exact .inr ⟨ne, isSock⟩
  -- A valid index of the new socket was not used before.
  have fresh t (known : tableOf type = some t) (valid : cbIdx.toNat < CB_TABLE_SIZE) :
      st.used t cbIdx.toNat = false ∧
      (st.socketAlloc p type refused).2.used t cbIdx.toNat = true := by
    obtain ⟨invalid, -⟩ | ⟨t', i, known', rfl, small, unused, used⟩ := outcome
    · exact absurd valid (invalid t known)
    rw [known] at known'
    cases known'
    have same : (BitVec.ofNat 8 i).toNat = i := by
      unfold CB_TABLE_SIZE at small
      rw [BitVec.toNat_ofNat]
      omega
    rw [same, used, update_self, update_self]
    exact ⟨unused, rfl⟩
  have kept t i (isUsed : st.used t i = true) :
      (st.socketAlloc p type refused).2.used t i = true := by
    obtain ⟨-, used⟩ | ⟨t', j, -, -, -, -, used⟩ := outcome
    · rw [used]
      exact isUsed
    rw [used, update_apply]
    split
    next same =>
      rw [update_apply]
      split
      · rfl
      · rw [← same]
        exact isUsed
    · exact isUsed
  constructor
  · intro r sock t isSock known valid
    obtain ⟨-, rfl⟩ | ⟨-, pre⟩ := old r sock isSock
    · exact (fresh t known valid).2
    · exact kept t _ (owned.used r sock t pre known valid)
  intro r r' sock sock' t isSock isSock' known valid sameType sameIdx
  obtain ⟨rfl, rfl⟩ | ⟨ne, pre⟩ := old r sock isSock
  · obtain ⟨rfl, -⟩ | ⟨-, pre'⟩ := old r' sock' isSock'
    · rfl
    · have used := owned.used r' sock' t pre' (by rw [sameType]; exact known)
        (by rw [sameIdx]; exact valid)
      rw [sameIdx, (fresh t known valid).1] at used
      cases used
  obtain ⟨rfl, rfl⟩ | ⟨-, pre'⟩ := old r' sock' isSock'
  · dsimp only at sameType sameIdx
    have used := owned.used r sock t pre known valid
    rw [← sameIdx, (fresh t (by rw [sameType]; exact known) (by rw [sameIdx]; exact valid)).1]
      at used
    cases used
  · exact owned.only r r' sock sock' t pre pre' known valid sameType sameIdx

/-! ## Removal -/

/-- The loop finds the predecessor of a socket that stands behind the first one. -/
theorem unlinkFrom_spec {rounds : Nat} {shead : Nat} {rest : List Nat}
    (chain : Chain st.link (some shead) (shead :: rest)) (lt : p ∈ rest)
    (isSock : st.page p = some s)
    (only : ∀ q s', q ∈ rest → st.page q = some s' → s'.type = s.type → s'.cbIdx = s.cbIdx → q = p)
    (enough : rest.length < rounds) :
    ∃ pre a after head, shead :: rest = pre ++ a :: p :: after ∧ st.page a = some head ∧
      st.unlinkFrom s rounds shead = .ok (st.setPage a (some { head with nxt := s.nxt })) := by
  induction rest generalizing rounds shead with
  | nil => cases lt
  | cons next rest ih =>
    obtain ⟨rounds, rfl⟩ : ∃ fewer, rounds = fewer + 1 := Nat.exists_eq_succ_of_ne_zero (by omega)
    obtain ⟨-, nxt, linked, tail⟩ := chain
    obtain ⟨head, isHead, rfl⟩ := map_eq_some_iff.mp linked
    cases toNext : head.nxt with
    | none =>
      rw [toNext] at tail
      exact False.elim tail
    | some r =>
      rw [toNext] at tail
      have isNode := tail.allocated mem_cons_self
      obtain rfl := tail.1
      obtain ⟨node, isNode⟩ : ∃ node, st.page r = some node := by
        unfold link at isNode
        rw [isSome_map] at isNode
        exact isSome_iff_exists.mp isNode
      rw [unlinkFrom, isHead]
      dsimp only
      rw [toNext]
      dsimp only
      rw [isNode]
      dsimp only
      split
      next found =>
        obtain rfl := only r node mem_cons_self isNode found.1 found.2
        exact ⟨[], shead, rest, head, rfl, isHead, rfl⟩
      next other =>
        have later : p ∈ rest := by
          rcases mem_cons.mp lt with rfl | later
          · rw [isSock] at isNode
            cases isNode
            exact absurd ⟨rfl, rfl⟩ other
          · exact later
        obtain ⟨pre, a, after, found, split, isFound, ran⟩ := ih tail later
          (fun q s' isIn => only q s' (mem_cons_of_mem _ isIn))
          (Nat.lt_of_succ_lt_succ enough)
        exact ⟨shead :: pre, a, after, found, by rw [split]; rfl, isFound, ran⟩

/-- A list without repetition of pages is no longer than the memory. -/
theorem Lists.length_le (lists : st.Lists l) : l.length ≤ PAGES := by
  have inRange : l ⊆ range PAGES := fun p lt =>
    mem_range.mpr (lists.bounded p lt)
  have shorter := (lists.nodup.subperm inRange).length_le
  rwa [length_range] at shorter

def Behind (st : Sockets) (p : Nat) (s : Socket) : Prop := st.sockets = some p → s.nxt = none

theorem block_some {t : Table} {i : Nat} (found : st.block s = some (t, i)) :
    tableOf s.type = some t ∧ s.cbIdx.toNat < CB_TABLE_SIZE ∧ s.cbIdx.toNat = i := by
  unfold block at found
  split at found
  · cases found
  next known =>
    dsimp only at found
    split at found
    next valid =>
      cases found
      exact ⟨known, valid.1, rfl⟩
    · cases found

theorem setPage_page {socket : Option Socket} :
    (st.setPage p socket).page q = if q = p then socket else st.page q :=
  update_apply ..

/-- The page is freed, and the other sockets keep their control blocks. -/
structure Freed (st next : Sockets) (p : Nat) : Prop where
  page : next.page p = none
  used : next.used = st.used
  others : ∀ q ≠ p, (next.page q).map (fun s => (s.type, s.cbIdx)) =
    (st.page q).map fun s => (s.type, s.cbIdx)

theorem Freed.old {s' : Socket} (freed : Freed st next p) (isSock : next.page q = some s') :
    q ≠ p ∧ ∃ s, st.page q = some s ∧ s'.type = s.type ∧ s'.cbIdx = s.cbIdx := by
  have ne : q ≠ p := by
    rintro rfl
    cases freed.page.symm.trans isSock
  have same := freed.others q ne
  rw [isSock] at same
  obtain ⟨s, isOld, both⟩ := map_eq_some_iff.mp same.symm
  exact ⟨ne, s, isOld, (congrArg Prod.fst both).symm, (congrArg Prod.snd both).symm⟩

theorem Lists.freed (lists : st.Lists l) (freed : Freed st next p)
    (chain : Chain next.link next.sockets (l.erase p)) : next.Lists (l.erase p) where
  chain := chain
  nodup := lists.nodup.erase p
  all q := by
    rw [lists.nodup.mem_erase_iff, lists.all]
    rcases eq_or_ne q p with rfl | ne
    · simp [freed.page]
    · have same := congrArg isSome (freed.others q ne)
      rw [isSome_map, isSome_map] at same
      rw [same, and_iff_right ne]
  bounded q isIn := lists.bounded q (mem_of_mem_erase isIn)

/-- A single socket is the head, and the loop does nothing. -/
theorem Lists.unlink_only (lists : st.Lists l) (isSock : st.page p = some s)
    (head : st.sockets = some p) (last : s.nxt = none) :
    ∃ next, st.unlink p s = .ok next ∧ next.Lists (l.erase p) ∧ Freed st next p := by
  have freed : Freed st (({ st with sockets := none } : Sockets).setPage p none) p :=
    ⟨update_self .., rfl, fun q ne => by rw [setPage_page, if_neg ne]⟩
  refine ⟨_, ?_, lists.freed freed ?_, freed⟩
  · simp only [Sockets.unlink, head, isSock, last, if_pos, unlinkFrom]
    rfl
  · have chain := lists.chain
    rw [head] at chain
    obtain ⟨nxt, rest, rfl, linked, tail⟩ := chain_some.mp chain
    rw [link, isSock] at linked
    obtain rfl : s.nxt = nxt := some.inj linked
    rw [last, chain_none] at tail
    rw [tail, erase_cons_head]
    exact True.intro

/-- The predecessor of a socket is linked to its successor. -/
theorem Lists.unlink_behind {shead : Nat} {rest : List Nat} (lists : st.Lists (shead :: rest))
    (head : st.sockets = some shead) (isSock : st.page p = some s) (later : p ∈ rest)
    (only : ∀ q s', st.page q = some s' → s'.type = s.type → s'.cbIdx = s.cbIdx → q = p) :
    ∃ next, st.unlink p s = .ok next ∧ next.Lists ((shead :: rest).erase p) ∧ Freed st next p := by
  have chain := lists.chain
  rw [head] at chain
  obtain ⟨pre, a, after, found, split, isFound, ran⟩ := unlinkFrom_spec chain later isSock
    (fun q s' _ => only q s') (Nat.lt_succ_of_le (Nat.le_of_succ_le lists.length_le))
  obtain ⟨-, _, linked, tail⟩ := chain
  obtain ⟨first, isFirst, rfl⟩ := map_eq_some_iff.mp linked
  have more : first.nxt ≠ none := by
    intro last
    rw [last, chain_none] at tail
    rw [tail] at later
    cases later
  have nodup := lists.nodup
  rw [split] at nodup
  have notA : a ≠ p := by
    rintro rfl
    exact (nodup_cons.mp (nodup_append.mp nodup).2.1).1 mem_cons_self
  have erased : (shead :: rest).erase p = pre ++ a :: after := by
    rw [split, erase_append_right _ fun isIn => (disjoint_of_nodup_append nodup) isIn
        (mem_cons_of_mem _ mem_cons_self),
      erase_cons_tail (by simpa using notA), erase_cons_head]
  have freed : Freed st ((st.setPage a (some { found with nxt := s.nxt })).setPage p none) p := by
    refine ⟨update_self .., rfl, fun q ne => ?_⟩
    rw [setPage_page, if_neg ne, setPage_page]
    split
    next same =>
      rw [same, isFound]
      rfl
    next => rfl
  refine ⟨_, ?_, lists.freed freed ?_, freed⟩
  · simp only [Sockets.unlink, head, isFirst, if_neg more, ran]
    rfl
  · have chain := lists.chain
    rw [split] at chain
    rw [erased]
    refine (chain.unlink (congrArg (Option.map Socket.nxt) isSock) nodup).congr fun q isIn => ?_
    have ne : q ≠ p := (lists.nodup.mem_erase_iff.mp (erased ▸ isIn)).1
    rw [link, setPage_page, if_neg ne, setPage_page, update_apply]
    split <;> rfl

/-- The list after a socket was taken out and its page freed. -/
theorem Lists.unlink (lists : st.Lists l) (isSock : st.page p = some s) (behind : st.Behind p s)
    (only : ∀ q s', st.page q = some s' → s'.type = s.type → s'.cbIdx = s.cbIdx → q = p) :
    ∃ next, st.unlink p s = .ok next ∧ next.Lists (l.erase p) ∧ Freed st next p := by
  have isIn : p ∈ l := (lists.all p).mpr (by rw [isSock]; rfl)
  cases head : st.sockets with
  | none =>
    rw [lists.chain.head_iff.mp head] at isIn
    cases isIn
  | some shead =>
    have chain := lists.chain
    rw [head] at chain
    obtain ⟨-, rest, rfl, -⟩ := chain_some.mp chain
    rcases mem_cons.mp isIn with rfl | later
    · exact lists.unlink_only isSock head (behind head)
    · exact lists.unlink_behind head isSock later only

/-- `socket_close` of a socket with a control block that is not the first of several takes the
socket out of the list. -/
theorem socketClose_spec {t : Table} {i : Nat} (lists : st.Lists l) (owned : st.Owned)
    (isSock : st.page p = some s) (found : st.block s = some (t, i)) (behind : st.Behind p s) :
    ∃ next, st.socketClose p = .ok (0, next) ∧ next.Lists (l.erase p) ∧ next.Owned ∧
      Freed (st.setUsed t i false) next p := by
  obtain ⟨known, small, rfl⟩ := block_some found
  have only q s' (isSock' : st.page q = some s') :=
    owned.only p q s s' t isSock isSock' known small
  have cleared : (st.setUsed t s.cbIdx.toNat false).Lists l := ⟨lists.1, lists.2, lists.3, lists.4⟩
  obtain ⟨next, ran, lists', freed⟩ := cleared.unlink isSock behind only
  refine ⟨next, ?_, lists', ⟨?_, ?_⟩, freed⟩
  · simp only [socketClose, isSock, found, ran]
    rfl
  · intro q s' t' isSock' known' valid
    obtain ⟨ne, s'', isOld, sameType, sameIdx⟩ := freed.old isSock'
    rw [sameType] at known'
    rw [sameIdx] at valid
    have pre := owned.used q s'' t' isOld known' valid
    rw [freed.used, sameIdx]
    simp only [setUsed, update_apply]
    split
    next sameTable =>
      subst sameTable
      rw [update_of_ne]
      · exact pre
      · intro sameBlock
        exact ne (only q s'' isOld (tableOf_inj known' known) (BitVec.eq_of_toNat_eq sameBlock))
    · exact pre
  · intro q r s' s'' t' isSock' isSock'' known' valid sameType sameIdx
    obtain ⟨-, o, isOld, oldType, oldIdx⟩ := freed.old isSock'
    obtain ⟨-, o', isOld', oldType', oldIdx'⟩ := freed.old isSock''
    rw [oldType] at known' sameType
    rw [oldIdx] at valid sameIdx
    rw [oldType'] at sameType
    rw [oldIdx'] at sameIdx
    exact owned.only q r o o' t' isOld isOld' known' valid sameType sameIdx

/-! ## Whole runs -/

/-- What is closed has a control block and is not the first of several sockets. -/
def Tidy (st : Sockets) : SocketCall → Prop
  | .alloc .. => True
  | .close p => ∀ s, st.page p = some s → (st.block s).isSome ∧ st.Behind p s

instance (st : Sockets) : DecidablePred st.Tidy
  | .alloc .. => isTrue True.intro
  | .close p => inferInstanceAs (Decidable (∀ s ∈ st.page p, _ ∧ (_ → _)))

def relist (st : Sockets) (l : List Nat) : SocketCall → List Nat
  | .alloc p _ _ => if p < PAGES ∧ st.page p = none then p :: l else l
  | .close p => l.erase p

theorem step_lists (lists : st.Lists l) (owned : st.Owned) (call : SocketCall)
    (tidy : st.Tidy call) :
    ∃ next, st.step call = .ok next ∧ next.Lists (st.relist l call) ∧ next.Owned := by
  cases call with
  | alloc p type refused =>
    unfold step relist
    dsimp only
    by_cases fresh : p < PAGES ∧ st.page p = none
    · rw [if_pos fresh, if_pos fresh]
      obtain ⟨cbIdx, page, head, -⟩ := st.socketAlloc_spec p type refused
      exact ⟨_, rfl, lists.push fresh.2 fresh.1 rfl page head,
        owned.socketAlloc fresh.2 type refused⟩
    · rw [if_neg fresh, if_neg fresh]
      exact ⟨st, rfl, lists, owned⟩
  | close p =>
    unfold step relist
    dsimp only
    cases isSock : st.page p with
    | none =>
      refine ⟨st, if_pos rfl, ?_, owned⟩
      rwa [erase_of_not_mem fun isIn => by simpa [isSock] using (lists.all p).mp isIn]
    | some s =>
      obtain ⟨isSome, behind⟩ := tidy s isSock
      obtain ⟨⟨t, i⟩, found⟩ := isSome_iff_exists.mp isSome
      obtain ⟨next, ran, lists', owned', -⟩ := socketClose_spec lists owned isSock found behind
      rw [if_neg nofun, ran]
      exact ⟨next, rfl, lists', owned'⟩

/-- As long as no call closes the first of several sockets or one without a control block, the list
holds exactly the allocated sockets, a new one in front, and a close takes one out and keeps the
order of the others. -/
theorem list_matches_sockets (calls : List SocketCall) (tidy : Meets step Tidy init calls) :
    ∃ st l, run step init calls = .ok st ∧ st.Lists l ∧
      ∀ call, st.Tidy call → ∃ next, st.step call = .ok next ∧ next.Lists (st.relist l call) := by
  have stable (st : Sockets) call (inv : (∃ l, st.Lists l) ∧ st.Owned)
      (here : st.Tidy call) :
      ∃ next, st.step call = .ok next ∧ (∃ l, next.Lists l) ∧ next.Owned := by
    obtain ⟨⟨l, lists⟩, owned⟩ := inv
    obtain ⟨next, ran, lists', owned'⟩ := step_lists lists owned call here
    exact ⟨next, ran, ⟨_, lists'⟩, owned'⟩
  obtain ⟨st, ran, ⟨l, lists⟩, owned⟩ := run_total stable ⟨⟨[], init_lists⟩, init_owned⟩ tidy
  refine ⟨st, l, ran, lists, fun call here => ?_⟩
  obtain ⟨next, stepped, lists', -⟩ := step_lists lists owned call here
  exact ⟨next, stepped, lists'⟩

/-- Three sockets, of which the one in the middle and then the first one opened are closed. -/
theorem list_matches_sockets_inner :
    ∃ st l, run step init [.alloc 0 1 false, .alloc 1 0 false, .alloc 2 1 false, .close 1,
        .close 0] = .ok st ∧ st.Lists l ∧
      ∀ call, st.Tidy call → ∃ next, st.step call = .ok next ∧ next.Lists (st.relist l call) :=
  list_matches_sockets _ (by decide +kernel)

/-- Of two sockets the second one opened is the first of the list: closing it frees its page, and
the list still starts there. -/
theorem closed_head_dangles :
    ∃ st, run step init [.alloc 0 1 false, .alloc 1 1 false, .close 1] = .ok st ∧
      st.sockets = some 1 ∧ st.page 1 = none ∧ st.page 0 ≠ none ∧ ¬∃ l, st.Lists l := by
  have computed : (run step init [.alloc 0 1 false, .alloc 1 1 false, .close 1]).map
      (fun st => decide (st.sockets = some 1 ∧ st.page 1 = none ∧ st.page 0 ≠ none)) =
        .ok true := by
    decide +kernel
  obtain ⟨st, ran, decided⟩ := of_map_eq_ok computed
  obtain ⟨head, freed, other⟩ := of_decide_eq_true decided
  refine ⟨st, ran, head, freed, other, ?_⟩
  rintro ⟨l, lists⟩
  have chain := lists.chain
  rw [head] at chain
  obtain ⟨nxt, rest, -, linked, -⟩ := chain_some.mp chain
  unfold link at linked
  rw [freed] at linked
  cases linked

end Sockets

end Xv6Rv32im.Sock
