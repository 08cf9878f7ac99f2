import Twinkleshine.Parser.Language

/-!
# The language of a page

Reference: `source/language.c`; `processor_generic_normalize_slash`,
`processor_generic_normalize_question` and `processor_generic` in `source/processor/generic.c`.

A link to a page ends with the language the page is displayed in, behind a slash or a question mark,
unless the language is the one that is displayed anyway. Resolving the link gives the page and its
language back.
-/

namespace Twinkleshine

/-! ## Printing links -/

/-- `IMPLICIT_LANGUAGE`, which is `'e'` -/
def implicitLanguage : UInt8 := 101

/-- `language_explicit` -/
def languageExplicit (language explicitRequest implicitRequest : UInt8) : Bool :=
  let implicitRequest := if implicitRequest = 0 then implicitLanguage else implicitRequest
  if language ≠ implicitRequest then true -- we absolutely need to specify
  else if explicitRequest ≠ 0 ∧ explicitRequest = implicitRequest then true
  else false

/-- `language_question` -/
def languageQuestion (language explicitRequest implicitRequest : UInt8) : List UInt8 :=
  let explicit := languageExplicit language explicitRequest implicitRequest
  if language = 101 then if explicit then ascii "?lang=en" else []
  else if language = 100 then if explicit then ascii "?lang=de" else []
  else []

/-- `language_slash` -/
def languageSlash (language explicitRequest implicitRequest : UInt8) : List UInt8 :=
  let explicit := languageExplicit language explicitRequest implicitRequest
  if language = 101 then if explicit then ascii "/en" else []
  else if language = 100 then if explicit then ascii "/de" else []
  else []

/-! ## Trimming -/

def isSlash (c : UInt8) : Bool := c == 47

/-- `trim_leading_shash` -/
def trimLeadingShash (resource : ConstantValue) : ConstantValue :=
  let part0 := resource.part0.dropWhile isSlash
  ⟨part0, if part0 = [] then resource.part1.dropWhile isSlash else resource.part1⟩

/-- `trim_trailing_shash` -/
def trimTrailingShash (resource : ConstantValue) : ConstantValue :=
  let part1 := resource.part1.rdropWhile isSlash
  ⟨if part1 = [] then resource.part0.rdropWhile isSlash else resource.part0, part1⟩

/-! ## A language behind a slash -/

/-- How the loop of `processor_generic_normalize_slash` leaves a part; `word` is what it has found of
`language_str`. -/
inductive LastWord where
  /-- A slash was popped, and `part` is what is in front of it. -/
  | slash (part word : List UInt8)
  /-- The part is used up. -/
  | usedUp (word : List UInt8)
  /-- `MAX_LANGUAGE_SIZE` exceeded, it is definitely not a language -/
  | tooLong
deriving DecidableEq, Repr

/-- The loop of `processor_generic_normalize_slash` over one part, which it reads from its last byte
on. -/
def lastWordPart : List UInt8 → List UInt8 → LastWord
  | [], word => .usedUp word
  | c :: front, word =>
    if isSlash c then .slash front.reverse word
    else if word.length = maxLanguageSize then .tooLong
    else lastWordPart front (c :: word)

/-- `language_get` of a word -/
def wordLanguage (word : List UInt8) : UInt8 :=
  languageGet (word.getD 0 0) (word.getD 1 0) word.length

/-- `processor_generic_normalize_slash`: the resource, and the language, which is `'\0'` before. -/
def processorGenericNormalizeSlash (resource : ConstantValue) : ConstantValue × UInt8 :=
  -- pop last symbols
  let resource := trimTrailingShash (trimLeadingShash resource)
  let accept (localResource : ConstantValue) (word : List UInt8) : ConstantValue × UInt8 :=
    if wordLanguage word = 0 then (resource, 0) -- not a language
    else (trimTrailingShash localResource, wordLanguage word)
  match lastWordPart resource.part1.reverse [] with
  | .tooLong => (resource, 0)
  | .slash part1 word => accept ⟨resource.part0, part1⟩ word
  | .usedUp word =>
    match lastWordPart resource.part0.reverse word with
    | .tooLong => (resource, 0)
    | .slash part0 word => accept ⟨part0, []⟩ word
    | .usedUp word => accept ⟨[], []⟩ word

/-! ## A language behind a question mark -/

/-- `c == '#' || c == '?'` -/
def isMark (c : UInt8) : Bool := c == 35 || c == 63

/-- What is left of a resource where the search for `?` or `#` ends. -/
def searchMark (resource : ConstantValue) : ConstantValue :=
  let part0 := resource.part0.dropWhile (!isMark ·)
  ⟨part0, if part0 = [] then resource.part1.dropWhile (!isMark ·) else resource.part1⟩

/-- The local variables with which `processor_generic_normalize_question` parses the part behind
`?`. -/
structure LangParser where
  languageSize : ℕ
  language0 : UInt8
  language1 : UInt8
deriving DecidableEq, Repr

/-- `lang_size` -/
def langSize : ℕ := 6

/-- `language_get(language_str, language_size - lang_size)` -/
def LangParser.language (s : LangParser) : UInt8 :=
  languageGet s.language0 s.language1 (s.languageSize - langSize)

/-- The body of the loop for the character `c`. -/
def langStep (s : LangParser) (c : UInt8) : LangParser :=
  if c = 63 then { s with languageSize := 1 }
  else if s.languageSize < langSize then
    { s with languageSize :=
        if c = (ascii "?lang=").getD s.languageSize 0 then s.languageSize + 1 else 0 }
  else if s.languageSize < langSize + maxLanguageSize then
    if 97 ≤ c ∧ c ≤ 122 then
      if s.languageSize = langSize then { s with languageSize := s.languageSize + 1, language0 := c }
      else { s with languageSize := s.languageSize + 1, language1 := c }
    else { s with languageSize := 0 }
  else s

/-- Whether the loop returns at the character `c`, because a language ends in front of it. -/
def langReturns (s : LangParser) (c : UInt8) : Bool :=
  c ≠ 63 && langSize ≤ s.languageSize && s.languageSize < langSize + maxLanguageSize &&
    !(97 ≤ c && c ≤ 122) && s.language ≠ 0

/-- The loop that parses the part behind `?`. -/
def langLoop : List UInt8 → LangParser → UInt8
  | [], s => if s.languageSize ≥ langSize then s.language else 0
  | c :: rest, s => if langReturns s c then s.language else langLoop rest (langStep s c)

/-- `processor_generic_normalize_question`: the resource, and the language, which is `'\0'` before. -/
def processorGenericNormalizeQuestion (resource : ConstantValue) : ConstantValue × UInt8 :=
  -- search for `?` or `#`
  let resource := trimLeadingShash resource
  let localResource := searchMark resource
  match localResource.bytes with
  | [] => (trimTrailingShash resource, 0) -- not found
  | c :: rest =>
    let resource :=
      trimTrailingShash (valueFirst resource (valueSize resource - valueSize localResource))
    if c = 35 then (resource, 0)
    else (resource, langLoop (c :: rest) ⟨0, 0, 0⟩)

/-! ## Resolving links -/

/-- `ACCEPTING_SOCKET_IS_QUESTION` -/
def acceptingSocketIsQuestion (index : ℕ) : Bool :=
  acceptingSocketIsHttp index || acceptingSocketIsHttps index || acceptingSocketIsGemini index ||
    acceptingSocketIsGuppy index

/-- The part of `processor_generic` that resolves a resource: the page, and the language it is displayed
in. -/
def processorGenericResolve (acceptingSocket : ℕ) (requestLanguage : UInt8)
    (resource : ConstantValue) : ConstantValue × UInt8 :=
  let (resource, requestedLanguage) :=
    if acceptingSocketIsQuestion acceptingSocket then processorGenericNormalizeQuestion resource
    else processorGenericNormalizeSlash resource
  let language := requestedLanguage
  let language := if language = 0 then requestLanguage else language
  (resource, if language = 0 then implicitLanguage else language)

/-! ## Independence of the split -/

theorem rdropWhile_append (p : UInt8 → Bool) (a b : List UInt8) : (a ++ b).rdropWhile p
    = if b.rdropWhile p = [] then a.rdropWhile p else a ++ b.rdropWhile p := by
  simp only [List.rdropWhile, List.reverse_append, List.dropWhile_append, List.isEmpty_iff,
    List.reverse_eq_nil_iff]
  split_ifs <;> simp

theorem dropWhile_parts (p : UInt8 → Bool) (value : ConstantValue) :
    (⟨value.part0.dropWhile p, if value.part0.dropWhile p = [] then value.part1.dropWhile p
      else value.part1⟩ : ConstantValue).bytes = value.bytes.dropWhile p := by
  simp only [ConstantValue.bytes, List.dropWhile_append, List.isEmpty_iff]
  by_cases h : value.part0.dropWhile p = []
  · rw [if_pos h, if_pos h, h, List.nil_append]
  · rw [if_neg h, if_neg h]

theorem trimLeadingShash_bytes (resource : ConstantValue) :
    (trimLeadingShash resource).bytes = resource.bytes.dropWhile isSlash :=
  dropWhile_parts isSlash resource

theorem searchMark_bytes (resource : ConstantValue) :
    (searchMark resource).bytes = resource.bytes.dropWhile (!isMark ·) :=
  dropWhile_parts _ resource

theorem trimTrailingShash_bytes (resource : ConstantValue) :
    (trimTrailingShash resource).bytes = resource.bytes.rdropWhile isSlash := by
  simp only [trimTrailingShash, ConstantValue.bytes, rdropWhile_append]
  by_cases h : resource.part1.rdropWhile isSlash = []
  · rw [if_pos h, if_pos h, h, List.append_nil]
  · rw [if_neg h, if_neg h]

/-- The last word of both parts, one after the other. -/
theorem lastWordPart_append (a b word : List UInt8) :
    lastWordPart (a ++ b) word = match lastWordPart a word with
      | .slash part word => .slash (b.reverse ++ part) word
      | .usedUp word => lastWordPart b word
      | .tooLong => .tooLong := by
  induction a generalizing word with
  | nil => rfl
  | cons c a ih =>
    simp only [List.cons_append, lastWordPart]
    split_ifs
    · rw [List.reverse_append]
    · rfl
    · exact ih _

/-- The page and the language of a resource without slashes at its ends, read from its last byte on. -/
def slashLanguage (bytes : List UInt8) : List UInt8 × UInt8 :=
  match lastWordPart bytes.reverse [] with
  | .tooLong => (bytes, 0)
  | .slash part word =>
    if wordLanguage word = 0 then (bytes, 0) else (part.rdropWhile isSlash, wordLanguage word)
  | .usedUp word => if wordLanguage word = 0 then (bytes, 0) else ([], wordLanguage word)

/-- `processor_generic_normalize_slash` acts on the concatenation of the parts. -/
theorem processorGenericNormalizeSlash_bytes (resource : ConstantValue) :
    ((processorGenericNormalizeSlash resource).1.bytes, (processorGenericNormalizeSlash resource).2)
      = slashLanguage ((resource.bytes.dropWhile isSlash).rdropWhile isSlash) := by
  rw [processorGenericNormalizeSlash, ← trimLeadingShash_bytes, ← trimTrailingShash_bytes]
  set trimmed := trimTrailingShash (trimLeadingShash resource)
  have hreverse : trimmed.bytes.reverse = trimmed.part1.reverse ++ trimmed.part0.reverse := by
    rw [ConstantValue.bytes, List.reverse_append]
  rw [slashLanguage, hreverse, lastWordPart_append, List.reverse_reverse]
  rcases lastWordPart trimmed.part1.reverse [] with ⟨part1, word⟩ | word | _
  · dsimp only
    split_ifs
    · rfl
    · rw [trimTrailingShash_bytes]
      rfl
  · dsimp only
    rcases lastWordPart trimmed.part0.reverse word with ⟨part0, word⟩ | word | _
    · dsimp only
      split_ifs
      · rfl
      · rw [trimTrailingShash_bytes, ConstantValue.bytes, List.append_nil]
    · dsimp only
      split_ifs
      · rfl
      · rw [trimTrailingShash_bytes]
        rfl
    · rfl
  · rfl

/-- `processor_generic_normalize_question` acts on the concatenation of the parts. -/
theorem processorGenericNormalizeQuestion_bytes (resource : ConstantValue) {page rest : List UInt8}
    (hbytes : resource.bytes.dropWhile isSlash = page ++ rest) (hpage : ∀ c ∈ page, isMark c = false)
    (hrest : rest = [] ∨ ∃ text, rest = 63 :: text) :
    ((processorGenericNormalizeQuestion resource).1.bytes,
        (processorGenericNormalizeQuestion resource).2)
      = (page.rdropWhile isSlash, if rest = [] then 0 else langLoop rest ⟨0, 0, 0⟩) := by
  have hlocal : (searchMark (trimLeadingShash resource)).bytes = rest := by
    rw [searchMark_bytes, trimLeadingShash_bytes, hbytes, List.dropWhile_append_of_pos]
    · rcases hrest with rfl | ⟨text, rfl⟩ <;> rfl
    · intro c hc
      rw [hpage c hc, Bool.not_false]
  rw [processorGenericNormalizeQuestion]
  rcases hrest with rfl | ⟨text, rfl⟩
  · simp only [hlocal]
    rw [trimTrailingShash_bytes, trimLeadingShash_bytes, hbytes, List.append_nil, if_true]
  · have hcut : valueSize (trimLeadingShash resource)
        - valueSize (searchMark (trimLeadingShash resource)) = page.length := by
      rw [valueSize_eq, valueSize_eq, hlocal, trimLeadingShash_bytes, hbytes, List.length_append]
      omega
    simp only [hlocal, hcut]
    rw [if_neg (by decide), if_neg (List.cons_ne_nil _ _)]
    dsimp only
    rw [trimTrailingShash_bytes, valueFirst_bytes, trimLeadingShash_bytes, hbytes, List.take_left]

/-! ## Links and what they mean -/

/-- The bytes behind the last slash. -/
def lastSegment (path : List UInt8) : List UInt8 := (path.reverse.takeWhile (!isSlash ·)).reverse

/-- The path of a page: it has no query and no fragment, no slash at its ends, and its last segment is
not a language. -/
structure IsPage (page : List UInt8) : Prop where
  noMark : ∀ c ∈ page, isMark c = false
  leading : page.head? ≠ some 47
  trailing : page.getLast? ≠ some 47
  segment : wordLanguage (lastSegment page) = 0

theorem isSlash_iff {c : UInt8} : isSlash c = true ↔ c = 47 := by simp [isSlash]

/-- A page has no slash to trim in front. -/
theorem IsPage.dropWhile_eq {page : List UInt8} (h : IsPage page) :
    page.dropWhile isSlash = page := by
  rcases page with _ | ⟨c, page⟩
  · rfl
  · rw [List.dropWhile_cons_of_neg]
    rw [isSlash_iff]
    rintro rfl
    exact h.leading rfl

/-- A page has no slash to trim behind. -/
theorem IsPage.rdropWhile_eq {page : List UInt8} (h : IsPage page) :
    page.rdropWhile isSlash = page := by
  refine List.rdropWhile_eq_self_iff.mpr fun hne hslash => h.trailing ?_
  rw [List.getLast?_eq_getLast_of_ne_nil hne, isSlash_iff.mp hslash]

/-- The word that is found is the last segment. -/
theorem lastWordPart_word (rev word : List UInt8) :
    match lastWordPart rev word with
    | .slash _ found | .usedUp found => found = (rev.takeWhile (!isSlash ·)).reverse ++ word
    | .tooLong => True := by
  induction rev generalizing word with
  | nil => rfl
  | cons c rev ih =>
    simp only [lastWordPart]
    by_cases hslash : isSlash c = true
    · simp [hslash]
    rw [if_neg hslash]
    by_cases hlong : word.length = maxLanguageSize
    · rw [if_pos hlong]
      trivial
    rw [if_neg hlong]
    have hnext := ih (c :: word)
    rw [List.takeWhile_cons_of_pos (by simp [hslash]), List.reverse_cons, List.append_assoc]
    exact hnext

/-- A page without a language stays as it is. -/
theorem IsPage.slashLanguage_eq {page : List UInt8} (h : IsPage page) :
    slashLanguage page = (page, 0) := by
  have hword := lastWordPart_word page.reverse []
  have hsegment := h.segment
  rw [slashLanguage]
  rcases hcase : lastWordPart page.reverse [] with ⟨part, word⟩ | word | _
  · rw [hcase] at hword
    dsimp only at hword ⊢
    rw [hword, List.append_nil, ← lastSegment, if_pos hsegment]
  · rw [hcase] at hword
    dsimp only at hword ⊢
    rw [hword, List.append_nil, ← lastSegment, if_pos hsegment]
  · rfl

/-- A language behind the page is cut off with its slash. -/
theorem IsPage.slashLanguage_append {page : List UInt8} (h : IsPage page) {c d : UInt8}
    (hc : isSlash c = false) (hd : isSlash d = false) (hlanguage : wordLanguage [c, d] ≠ 0) :
    slashLanguage (((page ++ [47, c, d]).dropWhile isSlash).rdropWhile isSlash)
      = (page, wordLanguage [c, d]) := by
  have hslash : isSlash 47 = true := rfl
  rcases page with _ | ⟨first, page⟩
  · have htrim : ([] ++ [47, c, d] : List UInt8).dropWhile isSlash = [c, d] := by
      simp [hslash, hc]
    have hword : lastWordPart [c, d].reverse [] = .usedUp [c, d] := by
      simp [lastWordPart, hc, hd, maxLanguageSize]
    rw [htrim, List.rdropWhile_eq_self_iff.mpr fun _ => by simp [hd], slashLanguage, hword]
    exact if_neg hlanguage
  · have hleading := h.dropWhile_eq
    have hfirst : isSlash first ≠ true := by
      rw [Ne, isSlash_iff]
      rintro rfl
      exact h.leading rfl
    have hword : lastWordPart (first :: page ++ [47, c, d]).reverse []
        = .slash (first :: page) [c, d] := by
      simp [lastWordPart, hc, hd, hslash, maxLanguageSize]
    rw [List.cons_append, List.dropWhile_cons_of_neg hfirst, ← List.cons_append,
      List.rdropWhile_eq_self_iff.mpr fun _ => by simp [hd], slashLanguage, hword]
    dsimp only
    rw [if_neg hlanguage, h.rdropWhile_eq]

/-- What is printed behind a page: a language, or nothing for the language that is displayed anyway. -/
theorem languageExplicit_cases (language explicitRequest implicitRequest : UInt8) :
    languageExplicit language explicitRequest implicitRequest = true ∨
      languageExplicit language explicitRequest implicitRequest = false ∧
        (if implicitRequest = 0 then implicitLanguage else implicitRequest) = language := by
  unfold languageExplicit
  dsimp only
  generalize (if implicitRequest = 0 then implicitLanguage else implicitRequest) = displayed
  by_cases hlanguage : language = displayed
  · rw [if_neg (not_not_intro hlanguage)]
    by_cases hrequest : explicitRequest ≠ 0 ∧ explicitRequest = displayed
    · exact .inl (if_pos hrequest)
    · exact .inr ⟨if_neg hrequest, hlanguage.symm⟩
  · exact .inl (if_pos hlanguage)

/-- Slashes in front of a resource are trimmed. -/
theorem dropWhile_slashes (slashes : ℕ) (rest : List UInt8) :
    (List.replicate slashes 47 ++ rest).dropWhile isSlash = rest.dropWhile isSlash :=
  List.dropWhile_append_of_pos fun _ hc => isSlash_iff.mpr (List.eq_of_mem_replicate hc)

section

variable {page : List UInt8} {language explicitRequest implicitRequest : UInt8}
  {resource : ConstantValue} {slashes : ℕ}

/-- A link with a slash gives the page back, and the language unless it is left out. -/
theorem processorGenericNormalizeSlash_link (hpage : IsPage page)
    (hlanguage : language = 101 ∨ language = 100)
    (hresource : resource.bytes = List.replicate slashes 47 ++
      (page ++ languageSlash language explicitRequest implicitRequest)) :
    ((processorGenericNormalizeSlash resource).1.bytes, (processorGenericNormalizeSlash resource).2)
      = (page, if languageExplicit language explicitRequest implicitRequest then language else 0) := by
  rw [processorGenericNormalizeSlash_bytes, hresource, dropWhile_slashes, languageSlash]
  by_cases hexplicit : languageExplicit language explicitRequest implicitRequest = true
  · simp only [hexplicit, if_true]
    rcases hlanguage with rfl | rfl
    · exact hpage.slashLanguage_append (c := 101) (d := 110) rfl rfl (by decide)
    · exact hpage.slashLanguage_append (c := 100) (d := 101) rfl rfl (by decide)
  · simp only [hexplicit, Bool.false_eq_true, if_false, ite_self, List.append_nil]
    rw [hpage.dropWhile_eq, hpage.rdropWhile_eq, hpage.slashLanguage_eq]

/-- A link with a question mark gives the page back, and the language unless it is left out. -/
theorem processorGenericNormalizeQuestion_link (hpage : IsPage page)
    (hlanguage : language = 101 ∨ language = 100)
    (hresource : resource.bytes = List.replicate slashes 47 ++
      (page ++ languageQuestion language explicitRequest implicitRequest)) :
    ((processorGenericNormalizeQuestion resource).1.bytes,
        (processorGenericNormalizeQuestion resource).2)
      = (page, if languageExplicit language explicitRequest implicitRequest then language else 0) := by
  -- the language is in the question exactly when the link has to name it
  have hquestion : languageQuestion language explicitRequest implicitRequest = [] ∧
        languageExplicit language explicitRequest implicitRequest = false ∨
      (∃ text, languageQuestion language explicitRequest implicitRequest = 63 :: text) ∧
        languageExplicit language explicitRequest implicitRequest = true ∧
        langLoop (languageQuestion language explicitRequest implicitRequest) ⟨0, 0, 0⟩ = language := by
    rw [languageQuestion]
    rcases hlanguage with rfl | rfl
    · cases languageExplicit 101 explicitRequest implicitRequest
      · exact .inl ⟨rfl, rfl⟩
      · exact .inr ⟨⟨_, rfl⟩, rfl, by decide⟩
    · cases languageExplicit 100 explicitRequest implicitRequest
      · exact .inl ⟨rfl, rfl⟩
      · exact .inr ⟨⟨_, rfl⟩, rfl, by decide⟩
  -- the slashes in front are dropped, and no other
  have hbytes : resource.bytes.dropWhile isSlash
      = page ++ languageQuestion language explicitRequest implicitRequest := by
    rw [hresource, dropWhile_slashes]
    rcases hpage' : page with _ | ⟨first, rest⟩
    · rcases hquestion with ⟨hnil, -⟩ | ⟨⟨text, htext⟩, -⟩
      · rw [hnil]
        rfl
      · rw [htext]
        rfl
    · rw [List.cons_append, List.dropWhile_cons_of_neg]
      rw [isSlash_iff]
      rintro rfl
      exact hpage.leading (by rw [hpage']; rfl)
  rw [processorGenericNormalizeQuestion_bytes resource hbytes hpage.noMark
    (hquestion.imp (·.1) (·.1)), hpage.rdropWhile_eq]
  rcases hquestion with ⟨hnil, hexplicit⟩ | ⟨⟨text, htext⟩, hexplicit, hloop⟩
  · rw [hnil, hexplicit]
    rfl
  · rw [hloop, htext, hexplicit]
    rfl

end

/-- The link to a page, as it is printed for the protocols of an accepting socket. -/
def internalLink (acceptingSocket : ℕ) (page : List UInt8)
    (language explicitRequest implicitRequest : UInt8) : List UInt8 :=
  page ++
    if acceptingSocketIsQuestion acceptingSocket then
      languageQuestion language explicitRequest implicitRequest
    else languageSlash language explicitRequest implicitRequest

/-- A printed link, requested by a client with the same implicit language, gives the page in the
language it was displayed in, however the resource is split and however many slashes are in front. -/
theorem processorGenericResolve_internalLink {page : List UInt8} (hpage : IsPage page)
    {language implicitRequest : UInt8} (explicitRequest : UInt8)
    (hlanguage : language = 101 ∨ language = 100) (acceptingSocket : ℕ) {slashes : ℕ}
    {resource : ConstantValue}
    (hresource : resource.bytes = List.replicate slashes 47 ++
      internalLink acceptingSocket page language explicitRequest implicitRequest) :
    ((processorGenericResolve acceptingSocket implicitRequest resource).1.bytes,
        (processorGenericResolve acceptingSocket implicitRequest resource).2)
      = (page, language) := by
  have hlink : ∀ requested : UInt8,
      requested = (if languageExplicit language explicitRequest implicitRequest then language else 0) →
      (if (if requested = 0 then implicitRequest else requested) = 0 then implicitLanguage
        else if requested = 0 then implicitRequest else requested) = language := by
    rintro _ rfl
    rcases languageExplicit_cases language explicitRequest implicitRequest with h | ⟨h, hdisplayed⟩
    · rw [h]
      rcases hlanguage with rfl | rfl <;> rfl
    · simpa only [h, Bool.false_eq_true, if_false, if_true] using hdisplayed
  rw [internalLink] at hresource
  rw [processorGenericResolve]
  by_cases hquestion : acceptingSocketIsQuestion acceptingSocket = true
  · rw [if_pos hquestion] at hresource ⊢
    have hresolved := Prod.mk.inj (processorGenericNormalizeQuestion_link hpage hlanguage hresource)
    exact Prod.ext hresolved.1 (hlink _ hresolved.2)
  · rw [if_neg hquestion] at hresource ⊢
    have hresolved := Prod.mk.inj (processorGenericNormalizeSlash_link hpage hlanguage hresource)
    exact Prod.ext hresolved.1 (hlink _ hresolved.2)

/-- The German page about the author, requested from the socket of Gopher and split inside its
language. -/
theorem processorGenericResolve_internalLink_about :
    ((processorGenericResolve 4 0 ⟨ascii "/about/d", ascii "e"⟩).1.bytes,
        (processorGenericResolve 4 0 ⟨ascii "/about/d", ascii "e"⟩).2) = (ascii "about", 100) := by
  have hunmarked : (ascii "about").all (fun c => isMark c == false) = true := by rfl
  have hpage : IsPage (ascii "about") :=
    ⟨fun c hc => eq_of_beq (List.all_eq_true.mp hunmarked c hc), by decide, by decide, by decide⟩
  have hsplit : ascii "/about/d" ++ ascii "e"
      = List.replicate 1 47 ++ internalLink 4 (ascii "about") 100 0 0 := by rfl
  exact processorGenericResolve_internalLink hpage 0 (.inr rfl) 4 hsplit

end Twinkleshine
