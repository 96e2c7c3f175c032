import Mathlib.Data.List.TakeWhile

/-!
# The HTTP request of `netlib.c`

A block that `malloc` returns is the memory from its first byte on, with any contents.
-/

namespace Xv6Rv32im.Netlib

open List

variable {text buf : List Char}

def string (block : List Char) : List Char := block.takeWhile (· ≠ '\x00')

def strcpy (buf : List Char) (start : Nat) (text : List Char) : List Char :=
  buf.take start ++ text ++ '\x00' :: buf.drop (start + text.length + 1)

abbrev Url := {url : List Char // '\x00' ∉ url}

def splitUri (url hostBuf pathBuf : List Char) : List Char × List Char :=
  let p := url.dropWhile (· ≠ '/')
  if p = [] then (strcpy hostBuf 0 url, strcpy pathBuf 0 ['/'])
  else
    let n := url.length - p.length
    (url.take n ++ hostBuf.drop n, strcpy pathBuf 0 p)

def append (buf text : List Char) : List Char := strcpy buf (string buf).length text

def buildRequestLine (buf host path : List Char) : List Char :=
  ["GET ".toList, string path, " HTTP/1.1\r\nHost: ".toList, string host, "\r\n\r\n".toList].foldl
    append buf

def hostOf (url : List Char) : List Char := url.takeWhile (· ≠ '/')

def pathOf (url : List Char) : List Char :=
  if url.dropWhile (· ≠ '/') = [] then ['/'] else url.dropWhile (· ≠ '/')

def request (host path : List Char) : List Char :=
  "GET ".toList ++ path ++ " HTTP/1.1\r\nHost: ".toList ++ host ++ "\r\n\r\n".toList

theorem string_cat (clean : '\x00' ∉ text) (rest : List Char) :
    string (text ++ rest) = text ++ string rest := by
  refine takeWhile_append_of_pos fun c mem => ?_
  rw [decide_eq_true_eq]
  rintro rfl
  exact clean mem

theorem string_clean (block : List Char) : '\x00' ∉ string block :=
  fun mem => by simpa using mem_takeWhile_imp mem

theorem string_strcpy (clean : '\x00' ∉ text) : string (strcpy buf 0 text) = text := by
  rw [strcpy, take_zero, nil_append, string_cat clean]
  exact append_nil text

theorem string_append (clean : '\x00' ∉ text) : string (append buf text) = string buf ++ text := by
  have start : buf.take (string buf).length = string buf :=
    Eq.symm <| prefix_iff_eq_take.mp <| takeWhile_prefix _
  rw [append, strcpy, start, append_assoc, string_cat (string_clean buf), string_cat clean]
  exact congrArg _ (append_nil text)

theorem string_build (host path : List Char) : string (buildRequestLine buf host path) =
    string buf ++ request (string host) (string path) := by
  unfold buildRequestLine request
  simp only [foldl_cons, foldl_nil]
  rw [string_append (by decide), string_append (string_clean _), string_append (by decide),
    string_append (string_clean _), string_append (by decide)]
  simp only [append_assoc]

/-- Both are right if the request block begins with a NUL and one follows the host. -/
theorem request_iff (url : Url) (hostBuf pathBuf buf : List Char) :
    string (splitUri url hostBuf pathBuf).1 = hostOf url ∧
      string (buildRequestLine buf (splitUri url hostBuf pathBuf).1
        (splitUri url hostBuf pathBuf).2) = request (hostOf url) (pathOf url) ↔
    string buf = [] ∧ ('/' ∉ url.1 ∨ string (hostBuf.drop (hostOf url).length) = []) := by
  obtain ⟨url, clean⟩ := url
  dsimp only
  have whole : hostOf url ++ url.dropWhile (· ≠ '/') = url := takeWhile_append_dropWhile
  have host : '\x00' ∉ hostOf url := fun mem => clean (takeWhile_subset _ mem)
  have slash : url.dropWhile (· ≠ '/') = [] ↔ '/' ∉ url := by
    rw [dropWhile_eq_nil_iff]
    simp
    grind
  have path : string (splitUri url hostBuf pathBuf).2 = pathOf url := by
    simp only [splitUri, pathOf]
    split
    · exact string_strcpy (by decide)
    · exact string_strcpy fun mem => clean (dropWhile_subset _ mem)
  rw [string_build, path, ← slash]
  simp only [splitUri]
  split
  next none =>
    rw [none, append_nil] at whole
    rw [string_strcpy clean, whole, append_left_eq_self]
    exact ⟨fun right => ⟨right.2, .inl none⟩, fun empty => ⟨rfl, empty.1⟩⟩
  next some =>
    have length : url.length - (url.dropWhile (· ≠ '/')).length = (hostOf url).length := by
      have := congrArg List.length whole
      rw [length_append] at this
      omega
    have taken : url.take (hostOf url).length = hostOf url :=
      Eq.symm <| prefix_iff_eq_take.mp <| takeWhile_prefix _
    rw [length, taken, string_cat host, append_right_eq_self]
    constructor
    · rintro ⟨ends, same⟩
      rw [ends, append_nil, append_left_eq_self] at same
      exact ⟨same, .inr ends⟩
    · rintro ⟨empty, ends⟩
      have ends := ends.resolve_left some
      rw [ends, empty, append_nil]
      exact ⟨rfl, rfl⟩

/-- The host of one URL in two blocks. -/
theorem host_depends_on_block :
    string (splitUri ['a', '/'] (replicate 80 '\x00') []).1 = ['a'] ∧
      string (splitUri ['a', '/'] ('x' :: 'x' :: replicate 78 '\x00') []).1 = ['a', 'x'] := by
  decide

end Xv6Rv32im.Netlib
