import Mathlib.Data.List.Basic

/-!
# Names in `dns.c`

A buffer is the list of its bytes from the cursor on; an access behind its end gives `none`.
-/

namespace Xv6Rv32im.Dns

open List

abbrev Byte := BitVec 8

mutual

def decodeQname : List Byte → Option (List Byte)
  | [] => none
  | l :: qn => if l = 0 then some (l :: qn) else shift l.toNat (l :: qn)
termination_by qn => (qn.length, 1)

/-- The inner loop of `decode_qname`, with `l` bytes of the label to go. -/
def shift : Nat → List Byte → Option (List Byte)
  | 0, _ :: qn => (decodeQname qn).map (46 :: ·)
  | l + 1, _ :: c :: qn => (shift l (c :: qn)).map (c :: ·)
  | _, _ => none
termination_by _ qn => (qn.length, 0)

end

/-- `encode_qname`: what is written to `qn`, with the bytes from `l` to `c` in `label`. -/
def encodeQname (label : List Byte) : List Byte → List Byte
  | [] => [0]
  | c :: host =>
    if c = 46 then BitVec.ofNat 8 label.length :: label ++ encodeQname [] host
    else encodeQname (label ++ [c]) host

/-- What `dns_req` writes to `obuf`, and the length it returns. -/
def dnsReq (name : List Byte) : List Byte × Nat :=
  let qname := encodeQname [] name
  let strlen := (qname.takeWhile (· ≠ 0)).length
  ([0x1a, 0xac, 1, 0, 0, 1, 0, 0, 0, 0, 0, 0] ++ qname.take (strlen + 1) ++ [0, 1, 0, 1],
    12 + (strlen + 1) + 4)

/-! ## The wire form -/

structure Label where
  bytes : List Byte
  pos : 0 < bytes.length
  short : bytes.length < 64
  undotted : 46 ∉ bytes
  nonzero : 0 ∉ bytes

/-- The wire form of a name, up to the zero byte that ends it. -/
def wire : List Label → List Byte
  | [] => []
  | l :: labels => BitVec.ofNat 8 l.bytes.length :: (l.bytes ++ wire labels)

def dotted : List Label → List Byte
  | [] => []
  | l :: labels => l.bytes ++ 46 :: dotted labels

variable (l : Label) (labels : List Label)

theorem length_byte : (BitVec.ofNat 8 l.bytes.length).toNat = l.bytes.length := by
  have short := l.short
  rw [BitVec.toNat_ofNat]
  omega

theorem length_ne_zero : BitVec.ofNat 8 l.bytes.length ≠ 0 := by
  intro zero
  have pos := l.pos
  rw [← length_byte, zero] at pos
  cases pos

theorem shift_label (first : Byte) (bytes qn : List Byte) :
    shift bytes.length (first :: (bytes ++ qn)) = (decodeQname qn).map (bytes ++ 46 :: ·) := by
  induction bytes generalizing first with
  | nil =>
    rw [length_nil, nil_append, shift]
    rfl
  | cons c bytes ih =>
    rw [length_cons, cons_append, shift, ih, Option.map_map]
    rfl

theorem decode_wire (rest : List Byte) :
    decodeQname (wire labels ++ 0 :: rest) = some (dotted labels ++ 0 :: rest) := by
  induction labels with
  | nil => rw [wire, nil_append, decodeQname, if_pos rfl, dotted, nil_append]
  | cons l labels ih =>
    rw [wire, cons_append, decodeQname, if_neg (length_ne_zero l), length_byte, append_assoc,
      shift_label, ih, Option.map_some, dotted, append_assoc, cons_append]

theorem encode_append (label host : List Byte) {bytes : List Byte} (undotted : 46 ∉ bytes) :
    encodeQname label (bytes ++ 46 :: host) =
      BitVec.ofNat 8 (label ++ bytes).length :: (label ++ bytes ++ encodeQname [] host) := by
  induction bytes generalizing label with
  | nil => rw [append_nil, nil_append, encodeQname, if_pos rfl, cons_append]
  | cons c bytes ih =>
    rw [mem_cons, not_or] at undotted
    rw [cons_append, encodeQname, if_neg (Ne.symm undotted.1), ih _ undotted.2, append_assoc]
    rfl

theorem encode_dotted :
    encodeQname [] (dotted labels) = wire labels ++ [0] := by
  induction labels with
  | nil => rfl
  | cons l labels ih =>
    rw [dotted, encode_append _ _ l.undotted, nil_append, ih, wire, cons_append, append_assoc]

theorem zero_notMem : 0 ∉ wire labels := by
  induction labels with
  | nil => exact not_mem_nil
  | cons l labels ih =>
    rw [wire, mem_cons, mem_append, not_or, not_or]
    exact ⟨(length_ne_zero l).symm, l.nonzero, ih⟩

theorem length_dotted : (dotted labels).length = (wire labels).length := by
  induction labels with
  | nil => rfl
  | cons l labels ih =>
    rw [wire, dotted, length_append, length_cons, length_cons, length_append, ih]
    rfl

/-- A name is encoded to its wire form, and the wire form is decoded to the name in its place. -/
theorem names_round_trip :
    encodeQname [] (dotted labels) = wire labels ++ [0] ∧ 0 ∉ wire labels ∧
    (dnsReq (dotted labels)).2 = 12 + (wire labels ++ [0]).length + 4 ∧
    ∀ rest, decodeQname (wire labels ++ 0 :: rest) = some (dotted labels ++ 0 :: rest) ∧
      (dotted labels).length = (wire labels).length := by
  have nonzero := zero_notMem labels
  have strlen : ((wire labels ++ [0]).takeWhile (· ≠ 0)).length = (wire labels).length := by
    rw [takeWhile_append_of_pos, length_append]
    · rfl
    · intro c isIn
      simpa using ne_of_mem_of_not_mem isIn nonzero
  refine ⟨encode_dotted _, nonzero, ?_, fun rest => ⟨decode_wire _ rest, length_dotted _⟩⟩
  rw [dnsReq, encode_dotted, strlen, length_append]
  rfl

end Xv6Rv32im.Dns
