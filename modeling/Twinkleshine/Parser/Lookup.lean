import Twinkleshine.Parser.Parse

/-!
# What the parsers look up

The HTTP and Spartan parsers read fields back from the request stream. `Reads lookup w` says that
`lookup` finds every location inside `w`; what a parser does with it depends on `w` alone, not on
where the ring wraps or what follows `w`.
-/

namespace Twinkleshine

open Library

/-- Every location inside `w` is found, with the bytes `w` has there. -/
def Reads (lookup : Lookup) (w : List UInt8) : Prop :=
  ∀ location : ValueLocation, location.limit ≤ w.length →
    ∃ value, lookup location = .ok value ∧ value.bytes = segment w location false

/-- `ring_get` reads the content of its ring. -/
theorem ringLookup_reads {ring : Ring} (h : ring.Sound) (hsize : ring.size < 2 ^ 64) :
    Reads (ringLookup ring) (ringContent ring) := fun _ hloc =>
  ringLookup_spec h hsize (hloc.trans_eq h.length_content)

/-- A location inside the front of a stream selects the same bytes of the front. -/
theorem segment_append {w : List UInt8} {location : ValueLocation} (h : location.limit ≤ w.length)
    (ys : List UInt8) : segment (w ++ ys) location false = segment w location false := by
  simp only [ValueLocation.limit] at h
  simp only [segment, ValueLocation.start, Bool.false_eq_true, if_false]
  rw [List.drop_append_of_le_length (by omega),
    List.take_append_of_le_length (by rw [List.length_drop]; omega)]

/-- Whoever reads a stream reads its front. -/
theorem Reads.of_append {lookup : Lookup} {w ys : List UInt8} (h : Reads lookup (w ++ ys)) :
    Reads lookup w := fun location hloc => by
  obtain ⟨value, hvalue, hbytes⟩ := h location (by rw [List.length_append]; omega)
  exact ⟨value, hvalue, hbytes.trans (segment_append hloc ys)⟩

theorem Reads.of_front {lookup : Lookup} {w w' : List UInt8} (h : Reads lookup w)
    (hfront : w' <+: w) : Reads lookup w' := by
  obtain ⟨ys, rfl⟩ := hfront
  exact h.of_append

/-- Two lookups in the same stream find the same bytes. -/
theorem Reads.agree {lookup lookup' : Lookup} {w : List UInt8} (h : Reads lookup w)
    (h' : Reads lookup' w) {location : ValueLocation} (hloc : location.limit ≤ w.length) :
    ∃ value value', lookup location = .ok value ∧ lookup' location = .ok value' ∧
      value.bytes = value'.bytes := by
  obtain ⟨value, hvalue, hbytes⟩ := h location hloc
  obtain ⟨value', hvalue', hbytes'⟩ := h' location hloc
  exact ⟨value, value', hvalue, hvalue', hbytes.trans hbytes'.symm⟩

/-! ## The loop over a `Connection` header -/

/-- Some word of the comma-separated list is `keep-alive`, whatever its case and the blanks around
it. -/
def hasKeepAlive (bytes : List UInt8) : Bool :=
  (bytes.splitOn 44).any fun word => (trimBytes word).map lowerCase == ascii "keep-alive"

theorem splitComma_eq_none {bytes : List UInt8} (h : splitComma bytes = none) : 44 ∉ bytes := by
  induction bytes with
  | nil => exact List.not_mem_nil
  | cons c cs ih =>
    rw [splitComma] at h
    split_ifs at h with hc
    rw [List.mem_cons, not_or]
    exact ⟨Ne.symm hc, ih (Option.map_eq_none_iff.mp h)⟩

theorem splitComma_eq_some {bytes word rest : List UInt8} (h : splitComma bytes = some (word, rest)) :
    bytes = word ++ 44 :: rest ∧ 44 ∉ word := by
  induction bytes generalizing word with
  | nil => cases h
  | cons c cs ih =>
    rw [splitComma] at h
    split_ifs at h with hc
    · obtain ⟨rfl, rfl⟩ := Prod.mk.inj (Option.some.inj h)
      exact ⟨by rw [hc, List.nil_append], List.not_mem_nil⟩
    · obtain ⟨⟨word', rest'⟩, hsplit, heq⟩ := Option.map_eq_some_iff.mp h
      obtain ⟨rfl, rfl⟩ := Prod.mk.inj heq
      obtain ⟨hbytes, hword⟩ := ih hsplit
      rw [List.mem_cons, not_or]
      exact ⟨by rw [hbytes, List.cons_append], Ne.symm hc, hword⟩

/-- The words of a value that starts with a word and a comma. -/
theorem hasKeepAlive_comma {word rest : List UInt8} (hword : 44 ∉ word) :
    hasKeepAlive (word ++ 44 :: rest)
      = ((trimBytes word).map lowerCase == ascii "keep-alive" || hasKeepAlive rest) := by
  rw [hasKeepAlive, List.splitOn_append_cons_self_of_not_mem hword, List.any_cons, hasKeepAlive]

/-- A value without a comma is one word. -/
theorem hasKeepAlive_word {word : List UInt8} (hword : 44 ∉ word) :
    hasKeepAlive word = ((trimBytes word).map lowerCase == ascii "keep-alive") := by
  rw [hasKeepAlive, List.splitOn_eq_singleton hword, List.any_cons, List.any_nil, Bool.or_false]

/-- The loop of the `Connection` header ends, and finds `keep-alive` exactly when it is there. -/
theorem connectionKeepAlive_eq {fuel : ℕ} {value : ConstantValue}
    (hfuel : value.bytes.length + 2 ≤ fuel) :
    connectionKeepAlive fuel value = some (hasKeepAlive value.bytes) := by
  induction fuel generalizing value with
  | zero => omega
  | succ fuel ih =>
    rw [connectionKeepAlive]
    have hbytes := valueParseComma_bytes value
    generalize valueParseComma value = parsed at hbytes ⊢
    obtain ⟨rest, word, remaining⟩ := parsed
    simp only [parseCommaBytes] at hbytes
    have hword : valueCompareCaseMem (valueTrim word) (ascii "keep-alive")
        = ((trimBytes word.bytes).map lowerCase == ascii "keep-alive") := by
      rw [Bool.eq_iff_iff, valueCompareCaseMem_iff, valueTrim_bytes, beq_iff_eq]
    simp only [hword]
    cases hsplit : splitComma value.bytes with
    | some wr =>
      obtain ⟨w, r⟩ := wr
      obtain ⟨hvalue, hcomma⟩ := splitComma_eq_some hsplit
      obtain ⟨rfl, rfl, rfl⟩ : rest.bytes = r ∧ word.bytes = w ∧ remaining = true := by
        simpa [hsplit] using hbytes
      rw [hvalue, hasKeepAlive_comma hcomma]
      cases hfound : (trimBytes word.bytes).map lowerCase == ascii "keep-alive" with
      | true => rfl
      | false =>
        have hrest : rest.bytes.length + 2 ≤ fuel := by
          rw [hvalue, List.length_append, List.length_cons] at hfuel
          omega
        simpa using ih hrest
    | none =>
      obtain ⟨hrest, hw, hremaining⟩ : rest.bytes = [] ∧ word.bytes = value.bytes ∧
          remaining = decide (value.bytes.length > 0) := by
        simpa [hsplit] using hbytes
      rw [hasKeepAlive_word (splitComma_eq_none hsplit), hw]
      cases hfound : (trimBytes value.bytes).map lowerCase == ascii "keep-alive" with
      | true => rfl
      | false =>
        by_cases hpos : value.bytes.length > 0
        · -- one more round on the empty value
          have hempty : connectionKeepAlive fuel rest = some false := by
            rw [ih (by rw [hrest, List.length_nil]; omega), hrest]
            decide
          simpa [hremaining, hpos] using hempty
        · simp [hremaining, hpos]

/-- What is not deleted in front holds something that is not blank, where the second loop of `value_trim`
stops. -/
theorem rdropWhile_dropWhile_ne_nil {l : List UInt8} (h : l.dropWhile isBlank ≠ []) :
    (l.dropWhile isBlank).rdropWhile isBlank ≠ [] := by
  intro hnil
  have hblank := List.rdropWhile_eq_nil_iff.mp hnil
  exact h (by rw [← List.dropWhile_idempotent, List.dropWhile_eq_nil_iff.mpr hblank])

/-- `value_trim` never leaves the value, although its second loop checks no bound. -/
theorem valueTrimIndexed_eq (a : ConstantValue) : valueTrimIndexed a = some (valueTrim a) := by
  unfold valueTrimIndexed valueTrim trimEnd
  by_cases h0 : a.part0.dropWhile isBlank = []
  · by_cases h1 : a.part1.dropWhile isBlank = []
    · simp only [h0, if_pos, h1, and_self]
    · have hend := rdropWhile_dropWhile_ne_nil h1
      simp only [h0, if_pos, h1, and_false, if_false, ne_eq, hend, not_false_eq_true]
  · have hstart := rdropWhile_dropWhile_ne_nil h0
    simp only [h0, if_false, false_and, ne_eq, hstart, not_false_eq_true, if_true]
    by_cases h1 : a.part1.rdropWhile isBlank = []
    · simp only [h1, not_true_eq_false, if_false, if_true]
    · simp only [h1, not_false_eq_true, if_true, if_false]

/-- A `Connection` header of any value, in any two parts: no index leaves the value while it is trimmed, the
loop over its words ends, and `keep_alive` is set if and only if one of the words is `keep-alive`. -/
theorem parserParseHttpNameValue_connection {lookup : Lookup} {s : Progress} {name value : ConstantValue}
    (hname : lookup s.parser.currentName = .ok name)
    (hconnection : name.bytes.map lowerCase = ascii "connection")
    (hvalue : lookup s.parser.currentValue = .ok value) :
    (∀ word, valueTrimIndexed word = some (valueTrim word)) ∧
      ∃ found,
        (∀ split fuel, split.bytes = value.bytes → value.bytes.length + 2 ≤ fuel →
          connectionKeepAlive fuel split = some found) ∧
        (found = true ↔ ∃ word ∈ value.bytes.splitOn 44,
          (trimBytes word).map lowerCase = ascii "keep-alive") ∧
        parserParseHttpNameValue lookup s
          = .ok () { s with request.keepAlive := s.request.keepAlive || found } := by
  refine ⟨valueTrimIndexed_eq, hasKeepAlive value.bytes, fun split fuel hsplit hfuel => ?_, ?_, ?_⟩
  · rw [← hsplit] at hfuel ⊢
    exact connectionKeepAlive_eq hfuel
  · rw [hasKeepAlive, List.any_eq_true]
    simp only [beq_iff_eq]
  · have hlength : valueCompareCaseMem name (ascii "content-length") = false := by
      rw [Bool.eq_false_iff, Ne, valueCompareCaseMem_iff, hconnection]
      decide
    have hname' : valueCompareCaseMem name (ascii "connection") = true :=
      (valueCompareCaseMem_iff name _).mpr hconnection
    have hloop : connectionKeepAlive (valueSize value + 2) value = some (hasKeepAlive value.bytes) :=
      connectionKeepAlive_eq (Nat.le_of_eq (by rw [valueSize_eq]))
    simp only [parserParseHttpNameValue, hname, hvalue, hlength, hname', hloop]
    cases hasKeepAlive value.bytes with
    | true => simp
    | false => simp

/-- The word is divided between the parts, and there are blanks and another word around it. -/
theorem parserParseHttpNameValue_connection_split :
    ∃ found,
      (∀ split fuel, split.bytes = ascii "close,\tKeep-Alive " → 20 ≤ fuel →
        connectionKeepAlive fuel split = some found) ∧
      (found = true ↔ ∃ word ∈ (ascii "close,\tKeep-Alive ").splitOn 44,
        (trimBytes word).map lowerCase = ascii "keep-alive") := by
  let lookup : Lookup := fun location =>
    if location.offset = 0 then .ok ⟨ascii "Conn", ascii "ection"⟩
    else .ok ⟨ascii "close,\tKee", ascii "p-Alive "⟩
  let s : Progress := { Progress.zero with
    parser.currentName := ⟨0, 10⟩
    parser.currentValue := ⟨11, 18⟩ }
  have hname : lookup s.parser.currentName = .ok ⟨ascii "Conn", ascii "ection"⟩ := rfl
  have hvalue : lookup s.parser.currentValue = .ok ⟨ascii "close,\tKee", ascii "p-Alive "⟩ := rfl
  obtain ⟨-, found, hloop, hfound, -⟩ := parserParseHttpNameValue_connection hname (by decide) hvalue
  exact ⟨found, hloop, hfound⟩

/-! ## Header fields -/

/-- What a header field does depends on the bytes of its name and value alone. -/
theorem parserParseHttpNameValue_congr {lookup lookup' : Lookup} {s : Progress} {w : List UInt8}
    (h : Reads lookup w) (h' : Reads lookup' w) (hname : s.parser.currentName.limit ≤ w.length)
    (hvalue : s.parser.currentValue.limit ≤ w.length) :
    parserParseHttpNameValue lookup s = parserParseHttpNameValue lookup' s := by
  obtain ⟨name, name', hn, hn', hnbytes⟩ := h.agree h' hname
  obtain ⟨value, value', hv, hv', hvbytes⟩ := h.agree h' hvalue
  have huint : valueToUint (valueTrim value) = valueToUint (valueTrim value') := by
    rw [valueToUint_eq, valueToUint_eq, valueTrim_bytes, valueTrim_bytes, hvbytes]
  have hkeep : connectionKeepAlive (valueSize value + 2) value
      = connectionKeepAlive (valueSize value' + 2) value' := by
    rw [connectionKeepAlive_eq (by rw [valueSize_eq]), connectionKeepAlive_eq (by rw [valueSize_eq]),
      hvbytes]
  simp only [parserParseHttpNameValue, hn, hn', hv, hv', valueCompareCaseMem_congr hnbytes, huint,
    hkeep, parserParseHttpLanguage_congr hvbytes]

theorem parserParseSpartanLength_congr {lookup lookup' : Lookup} {s : Progress} {w : List UInt8}
    (h : Reads lookup w) (h' : Reads lookup' w)
    (hvalue : s.parser.currentValue.limit ≤ w.length) :
    parserParseSpartanLength lookup s = parserParseSpartanLength lookup' s := by
  obtain ⟨value, value', hv, hv', hvbytes⟩ := h.agree h' hvalue
  have huint : valueToUint value = valueToUint value' := by
    rw [valueToUint_eq, valueToUint_eq, hvbytes]
  simp only [parserParseSpartanLength, hv, hv', huint]

end Twinkleshine
