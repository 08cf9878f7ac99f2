import Twinkleshine.Parser.Resumable

/-!
# Well-formed HTTP requests

What the HTTP parser is for: the requests below, and what it should make of each of them. The
definitions are independent of the parser; `Parser/Accept.lean` shows that it does so.
-/

namespace Twinkleshine

open Library

/-! ## Requests -/

/-- The line ends the parser accepts. -/
inductive LineEnd where
  | crlf
  | lf
  | cr
deriving DecidableEq, Repr

def LineEnd.bytes : LineEnd → List UInt8
  | crlf => [13, 10]
  | lf => [10]
  | cr => [13]

/-- A header field. -/
structure Header where
  name : List UInt8
  value : List UInt8
deriving DecidableEq, Repr

/-- An HTTP request. -/
structure HttpRequest where
  method : List UInt8
  resource : List UInt8
  protocol : List UInt8
  headers : List Header
  body : List UInt8
deriving DecidableEq, Repr

/-- A header field on the wire. -/
def Header.render (e : LineEnd) (header : Header) : List UInt8 :=
  header.name ++ 58 :: header.value ++ e.bytes

/-- The request line. -/
def HttpRequest.requestLine (e : LineEnd) (r : HttpRequest) : List UInt8 :=
  r.method ++ 32 :: r.resource ++ 32 :: r.protocol ++ e.bytes

/-- The request line, the header fields and an empty line. -/
def HttpRequest.head (e : LineEnd) (r : HttpRequest) : List UInt8 :=
  r.requestLine e ++ r.headers.flatMap (Header.render e) ++ e.bytes

/-- The request on the wire. -/
def HttpRequest.render (e : LineEnd) (r : HttpRequest) : List UInt8 := r.head e ++ r.body

/-! ## Header fields with a meaning -/

/-- The field has this name, whatever the case of its letters. -/
def Header.Is (header : Header) (name : String) : Prop := header.name.map lowerCase = ascii name

instance (header : Header) (name : String) : Decidable (header.Is name) :=
  inferInstanceAs (Decidable (_ = _))

/-- The number written in decimal digits. -/
def decimalValue (digits : List UInt8) : ℕ :=
  digits.foldl (fun n c => 10 * n + (c.toNat - 48)) 0

/-- A decimal number, possibly surrounded by spaces. -/
def IsPaddedDecimal (value : List UInt8) : Prop :=
  ∃ before digits after, value = List.replicate before 32 ++ digits ++ List.replicate after 32 ∧
    digits ≠ [] ∧ ∀ c ∈ digits, 48 ≤ c ∧ c ≤ 57

/-- The size of the content the field promises, if it is a `Content-Length`. -/
def Header.contentLength (header : Header) : Option ℕ :=
  if header.Is "content-length" then some (decimalValue (trimBytes header.value)) else none

/-- The last of the values some fields have. -/
def lastValue {α : Type} (f : Header → Option α) (headers : List Header) : Option α :=
  (headers.filterMap f).getLast?

/-- The size of the content: what the last `Content-Length` says. -/
def HttpRequest.contentLength (r : HttpRequest) : ℕ :=
  (lastValue Header.contentLength r.headers).getD 0

/-- The value of the field, if it is a `User-Agent`. -/
def Header.userAgent (header : Header) : Option (List UInt8) :=
  if header.Is "user-agent" then some header.value else none

/-- The field is a `Connection` that contains the token `keep-alive`. -/
def Header.keepsAlive (header : Header) : Bool :=
  header.Is "connection" && hasKeepAlive header.value

/-! ## Well-formed requests -/

/-- Every `Content-Length` of the fields, which start at `start`, promises a size that fits. -/
def SizesFit (e : LineEnd) : ℕ → List Header → Prop
  | _, [] => True
  | start, header :: headers =>
    (∀ n, header.contentLength = some n →
      start + header.name.length + 1 + header.value.length + n ≤ maxRequestSize) ∧
    SizesFit e (start + (header.render e).length) headers

/-- A non-empty token over a character class. -/
def IsToken (flag : UInt8) (token : List UInt8) : Prop :=
  token ≠ [] ∧ ∀ c ∈ token, isClass flag c = true

instance (flag : UInt8) (token : List UInt8) : Decidable (IsToken flag token) :=
  decidable_of_iff (token ≠ [] ∧ token.all (isClass flag) = true) (by
    simp only [IsToken, List.all_eq_true])

/-- A header field the parser accepts. -/
structure Header.WellFormed (header : Header) : Prop where
  name : IsToken cmName header.name
  value : ∀ c ∈ header.value, isClass cmValue c = true
  decimal : header.Is "content-length" → IsPaddedDecimal header.value

/-- A request the parser accepts, rendered with the line end `e`. -/
structure HttpRequest.WellFormed (e : LineEnd) (r : HttpRequest) : Prop where
  method : IsToken cmMethod r.method
  resource : IsToken cmResource r.resource
  protocol : IsToken cmProtocol r.protocol
  headers : ∀ header ∈ r.headers, header.WellFormed
  fit : SizesFit e (r.requestLine e).length r.headers
  body : r.body.length = r.contentLength
  size : (r.render e).length < maxRequestSize

/-! ## Numbers -/

/-- `value_to_uint` reads a decimal number that is not too large. -/
theorem valueToUintPart_eq {digits : List UInt8} (hdigits : ∀ c ∈ digits, 48 ≤ c ∧ c ≤ 57) {n : ℕ}
    (hsize : digits.foldl (fun n c => 10 * n + (c.toNat - 48)) n ≤ maxRequestSize) :
    valueToUintPart n digits = some (digits.foldl (fun n c => 10 * n + (c.toNat - 48)) n) := by
  have hmax : maxRequestSize = 1048576 := rfl
  have hle := le_foldl_decimal digits n
  have hall : digits.all isDecimal = true := by
    rw [List.all_eq_true]
    intro c hc
    rw [isDecimal, Bool.and_eq_true, decide_eq_true_iff, decide_eq_true_iff]
    exact hdigits c hc
  rw [valueToUintPart_spec (by omega), if_pos ⟨hall, by omega⟩]

/-- A list with nothing blank in it. -/
theorem dropWhile_isBlank {l : List UInt8} (hl : ∀ c ∈ l, isBlank c = false) :
    l.dropWhile isBlank = l := by
  cases l with
  | nil => rfl
  | cons c l => rw [List.dropWhile_cons_of_neg (by simp [hl c List.mem_cons_self])]

/-- Trimming a padded number leaves its digits. -/
theorem IsPaddedDecimal.digits {value : List UInt8} (h : IsPaddedDecimal value) :
    ∀ c ∈ trimBytes value, 48 ≤ c ∧ c ≤ 57 := by
  obtain ⟨before, digits, after, rfl, hne, hdigits⟩ := h
  have hblank : ∀ n, ∀ c ∈ List.replicate n (32 : UInt8), isBlank c = true := fun n c hc => by
    rw [List.eq_of_mem_replicate hc]
    rfl
  have hnot : ∀ c ∈ digits, isBlank c = false := fun c hc => by
    have hc := hdigits c hc
    simp only [isBlank, Bool.or_eq_false_iff, beq_eq_false_iff_ne]
    refine ⟨⟨⟨⟨?_, ?_⟩, ?_⟩, ?_⟩, ?_⟩ <;> rintro rfl <;> revert hc <;> decide
  have hfront : (digits ++ List.replicate after 32).dropWhile isBlank
      = digits ++ List.replicate after 32 := by
    obtain ⟨d, ds, rfl⟩ := List.exists_cons_of_ne_nil hne
    rw [List.cons_append, List.dropWhile_cons_of_neg (by simp [hnot d List.mem_cons_self])]
  have htrim : trimBytes (List.replicate before 32 ++ digits ++ List.replicate after 32)
      = digits := by
    rw [trimBytes, List.append_assoc, List.dropWhile_append_of_pos (hblank before), hfront,
      List.rdropWhile, List.reverse_append, List.reverse_replicate,
      List.dropWhile_append_of_pos (hblank after),
      dropWhile_isBlank fun c hc => hnot c (List.mem_reverse.mp hc), List.reverse_reverse]
  rw [htrim]
  exact hdigits

end Twinkleshine
