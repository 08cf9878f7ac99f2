import Twinkleshine.Processor.Language

/-!
# The segment that names a language

A resource is a path of segments with slashes between them. What `processor_generic_normalize_slash`
makes of it depends on its last segment alone, and `processor_generic_normalize_question` should make
the same of what is behind `?lang=`. Reference: `source/processor/generic.c`.
-/

namespace Twinkleshine

/-- The path without the slashes at its ends. -/
def stripSlashes (path : List UInt8) : List UInt8 := (path.dropWhile isSlash).rdropWhile isSlash

/-- The path up to the last slash. -/
def withoutLastSegment (path : List UInt8) : List UInt8 := path.rdropWhile (!isSlash ·)

/-- The language a segment is the code of, or `'\0'`. -/
def segmentLanguage (segment : List UInt8) : UInt8 :=
  if segment = ascii "en" then 101 else if segment = ascii "de" then 100 else 0

/-- `language_get` compares a whole word. -/
theorem wordLanguage_eq (word : List UInt8) : wordLanguage word = segmentLanguage word := by
  have hen : ascii "en" = [101, 110] := by rfl
  have hde : ascii "de" = [100, 101] := by rfl
  rw [segmentLanguage, hen, hde]
  match word with
  | [] => rfl
  | [c] => simp [wordLanguage, languageGet]
  | [c, d] => simp [wordLanguage, languageGet]
  | c :: d :: e :: rest => simp [wordLanguage, languageGet]

/-- A longer segment names no language. -/
theorem segmentLanguage_of_long {segment : List UInt8} (h : maxLanguageSize < segment.length) :
    segmentLanguage segment = 0 := by
  rw [segmentLanguage, if_neg, if_neg]
  all_goals
    rintro rfl
    exact absurd h (by decide)

/-! ## Behind a slash -/

/-- What the loop finds from the last byte on: a word that is too long, or the last segment. -/
theorem lastWordPart_eq (rev : List UInt8) {word : List UInt8} (h : word.length ≤ maxLanguageSize) :
    lastWordPart rev word =
      if maxLanguageSize < (rev.takeWhile (!isSlash ·)).length + word.length then .tooLong
      else match rev.dropWhile (!isSlash ·) with
        | [] => .usedUp ((rev.takeWhile (!isSlash ·)).reverse ++ word)
        | _ :: front => .slash front.reverse ((rev.takeWhile (!isSlash ·)).reverse ++ word) := by
  induction rev generalizing word with
  | nil => simp [lastWordPart, Nat.not_lt.mpr h]
  | cons c rev ih =>
    rw [lastWordPart]
    by_cases hslash : isSlash c = true
    · simp [hslash, Nat.not_lt.mpr h]
    rw [if_neg hslash, List.takeWhile_cons_of_pos (by simp [hslash]),
      List.dropWhile_cons_of_pos (by simp [hslash]), List.length_cons]
    by_cases hlong : word.length = maxLanguageSize
    · rw [if_pos hlong, if_pos (by omega)]
    · rw [if_neg hlong, ih (show (c :: word).length ≤ maxLanguageSize by
        rw [List.length_cons]
        omega), List.length_cons, List.reverse_cons, List.append_assoc, List.singleton_append,
        Nat.add_right_comm, Nat.add_assoc]

/-- The last segment decides what is made of a path without slashes at its ends. -/
theorem slashLanguage_eq (path : List UInt8) :
    slashLanguage path =
      if segmentLanguage (lastSegment path) = 0 then (path, 0)
      else ((withoutLastSegment path).rdropWhile isSlash, segmentLanguage (lastSegment path)) := by
  have hlength : (lastSegment path).length = (path.reverse.takeWhile (!isSlash ·)).length :=
    List.length_reverse
  have hwithout : withoutLastSegment path = (path.reverse.dropWhile (!isSlash ·)).reverse := rfl
  rw [slashLanguage, lastWordPart_eq path.reverse (Nat.zero_le _)]
  by_cases hlong : maxLanguageSize < (path.reverse.takeWhile (!isSlash ·)).length
  · rw [if_pos (by exact hlong), if_pos (segmentLanguage_of_long (by omega))]
  rw [if_neg (by exact hlong), List.append_nil, ← lastSegment, hwithout]
  rcases hfront : path.reverse.dropWhile (!isSlash ·) with _ | ⟨c, front⟩
  · dsimp only
    rw [wordLanguage_eq]
    rfl
  · have hslash : isSlash c = true := by
      have hhead := List.head_dropWhile_not (!isSlash ·)
        (show path.reverse.dropWhile (!isSlash ·) ≠ [] by simp [hfront])
      simpa [hfront] using hhead
    dsimp only
    rw [wordLanguage_eq, List.reverse_cons, List.rdropWhile_concat_pos isSlash _ _ hslash]

theorem slashLanguage_snd (path : List UInt8) :
    (slashLanguage path).2 = segmentLanguage (lastSegment path) := by
  rw [slashLanguage_eq]
  split_ifs with h
  · exact h.symm
  · rfl

/-- A resource whose last segment names no language is stripped of the slashes at its ends. Of any other
the language is split off with the slashes in front of it. Where the resource is split makes no
difference. -/
theorem processorGenericNormalizeSlash_segment (resource : ConstantValue) :
    ((processorGenericNormalizeSlash resource).1.bytes, (processorGenericNormalizeSlash resource).2)
        = (if segmentLanguage (lastSegment (stripSlashes resource.bytes)) = 0 then
            (stripSlashes resource.bytes, 0)
          else ((withoutLastSegment (stripSlashes resource.bytes)).rdropWhile isSlash,
            segmentLanguage (lastSegment (stripSlashes resource.bytes)))) ∧
      ∀ other : ConstantValue, other.bytes = resource.bytes →
        (processorGenericNormalizeSlash other).1.bytes
            = (processorGenericNormalizeSlash resource).1.bytes ∧
          (processorGenericNormalizeSlash other).2 = (processorGenericNormalizeSlash resource).2 := by
  constructor
  · rw [processorGenericNormalizeSlash_bytes, slashLanguage_eq, stripSlashes]
  · intro other hother
    have hequal := processorGenericNormalizeSlash_bytes other
    rw [hother, ← processorGenericNormalizeSlash_bytes resource] at hequal
    exact Prod.mk.inj hequal

/-! ## Behind a question mark -/

/-- The word is at the end of the path. -/
theorem lastSegment_append {path word : List UInt8} (hword : ∀ c ∈ word, isSlash c = false) :
    lastSegment (path ++ 47 :: word) = word := by
  have hslash : isSlash 47 = true := rfl
  rw [lastSegment, List.reverse_append, List.reverse_cons, List.append_assoc,
    List.takeWhile_append_of_pos, List.singleton_append, List.takeWhile_cons_of_neg, List.append_nil,
    List.reverse_reverse]
  · simp [hslash]
  · intro c hc
    simp [hword c (List.mem_reverse.mp hc)]

/-- A word is its own last segment. -/
theorem lastSegment_word {word : List UInt8} (hword : ∀ c ∈ word, isSlash c = false) :
    lastSegment word = word := by
  rw [lastSegment, List.takeWhile_eq_self_iff.mpr, List.reverse_reverse]
  intro c hc
  simp [hword c (List.mem_reverse.mp hc)]

/-- A resource that ends with a word behind a slash selects the language the word names. -/
theorem processorGenericNormalizeSlash_word {path word : List UInt8} {resource : ConstantValue}
    (hword : ∀ c ∈ word, isSlash c = false) (hne : word ≠ [])
    (hresource : resource.bytes = path ++ 47 :: word) :
    (processorGenericNormalizeSlash resource).2 = segmentLanguage word := by
  have hself : ∀ front : List UInt8, (front ++ word).rdropWhile isSlash = front ++ word := by
    intro front
    refine List.rdropWhile_eq_self_iff.mpr fun hnil => ?_
    rw [List.getLast_append_of_ne_nil hnil hne, hword _ (List.getLast_mem hne)]
    exact Bool.false_ne_true
  have hstrip : lastSegment (stripSlashes resource.bytes) = word := by
    rw [hresource, stripSlashes, List.dropWhile_append]
    split_ifs with hpath
    · obtain ⟨first, rest, rfl⟩ := List.exists_cons_of_ne_nil hne
      have hfirst : ¬ isSlash first = true := by simp [hword first List.mem_cons_self]
      have hrest := hself []
      rw [List.nil_append] at hrest
      rw [List.dropWhile_cons_of_pos rfl, List.dropWhile_cons_of_neg hfirst, hrest,
        lastSegment_word hword]
    · have hrest := hself (path.dropWhile isSlash ++ [47])
      rw [List.append_assoc, List.singleton_append] at hrest
      rw [hrest, lastSegment_append hword]
  rw [congrArg Prod.snd (processorGenericNormalizeSlash_bytes resource), ← stripSlashes,
    slashLanguage_snd, hstrip]

/-- A letter is no question mark, and the loop goes on behind it. -/
theorem langLoop_letter {c : UInt8} (hc : 97 ≤ c ∧ c ≤ 122) (rest : List UInt8) (s : LangParser) :
    c ≠ 63 ∧ langLoop (c :: rest) s = langLoop rest (langStep s c) := by
  have hreturns : langReturns s c = false := by simp [langReturns, hc]
  refine ⟨?_, by rw [langLoop, hreturns, if_neg Bool.false_ne_true]⟩
  rintro rfl
  exact absurd hc.1 (by decide)

/-- A full buffer stays as it is. -/
theorem langLoop_full {word : List UInt8} (hword : ∀ c ∈ word, 97 ≤ c ∧ c ≤ 122)
    (language0 language1 : UInt8) :
    langLoop word ⟨langSize + maxLanguageSize, language0, language1⟩
      = languageGet language0 language1 maxLanguageSize := by
  induction word with
  | nil => rfl
  | cons c word ih =>
    obtain ⟨hmark, hloop⟩ := langLoop_letter (hword c List.mem_cons_self) word
      ⟨langSize + maxLanguageSize, language0, language1⟩
    have hstep : langStep ⟨langSize + maxLanguageSize, language0, language1⟩ c
        = ⟨langSize + maxLanguageSize, language0, language1⟩ := by
      simp [langStep, hmark, langSize, maxLanguageSize]
    rw [hloop, hstep]
    exact ih fun d hd => hword d (List.mem_cons_of_mem _ hd)

/-- The loop looks at the first two letters behind `?lang=`, and at no others. -/
theorem langLoop_word {word : List UInt8} (hword : ∀ c ∈ word, 97 ≤ c ∧ c ≤ 122) :
    langLoop (ascii "?lang=" ++ word) ⟨0, 0, 0⟩ = segmentLanguage (word.take maxLanguageSize) := by
  have hmark : langLoop (ascii "?lang=" ++ word) ⟨0, 0, 0⟩ = langLoop word ⟨langSize, 0, 0⟩ := by
    rfl
  rw [hmark, ← wordLanguage_eq]
  rcases word with _ | ⟨c, _ | ⟨d, rest⟩⟩
  · rfl
  · obtain ⟨hmark, hloop⟩ := langLoop_letter (hword c List.mem_cons_self) [] ⟨langSize, 0, 0⟩
    have hstep : langStep ⟨langSize, 0, 0⟩ c = ⟨langSize + 1, c, 0⟩ := by
      simp [langStep, hmark, hword c List.mem_cons_self, langSize, maxLanguageSize]
    rw [hloop, hstep]
    rfl
  · have hc := hword c List.mem_cons_self
    have hd := hword d (List.mem_cons_of_mem _ List.mem_cons_self)
    obtain ⟨hmark, hloop⟩ := langLoop_letter hc (d :: rest) ⟨langSize, 0, 0⟩
    obtain ⟨hmark', hloop'⟩ := langLoop_letter hd rest ⟨langSize + 1, c, 0⟩
    have hstep : langStep ⟨langSize, 0, 0⟩ c = ⟨langSize + 1, c, 0⟩ := by
      simp [langStep, hmark, hc, langSize, maxLanguageSize]
    have hstep' : langStep ⟨langSize + 1, c, 0⟩ d = ⟨langSize + maxLanguageSize, c, d⟩ := by
      simp [langStep, hmark', hd, langSize, maxLanguageSize]
    rw [hloop, hstep, hloop', hstep', langLoop_full fun e he =>
      hword e (List.mem_cons_of_mem _ (List.mem_cons_of_mem _ he))]
    rfl

/-- A query for a word selects what its first two letters are the code of. -/
theorem processorGenericNormalizeQuestion_word {path word : List UInt8} {resource : ConstantValue}
    (hpath : ∀ c ∈ path, isMark c = false) (hword : ∀ c ∈ word, 97 ≤ c ∧ c ≤ 122)
    (hresource : resource.bytes = path ++ (ascii "?lang=" ++ word)) :
    (processorGenericNormalizeQuestion resource).2 = segmentLanguage (word.take maxLanguageSize) := by
  have htext : ascii "?lang=" ++ word = 63 :: (ascii "lang=" ++ word) := by rfl
  have hbytes : resource.bytes.dropWhile isSlash
      = path.dropWhile isSlash ++ (ascii "?lang=" ++ word) := by
    rw [hresource, List.dropWhile_append]
    split_ifs with hnil
    · rw [List.isEmpty_iff.mp hnil, htext]
      rfl
    · rfl
  have hquestion := processorGenericNormalizeQuestion_bytes resource hbytes
    (fun c hc => hpath c (List.dropWhile_subset _ hc)) (.inr ⟨_, htext⟩)
  rw [(Prod.mk.inj hquestion).2, if_neg (by simp [htext]), langLoop_word hword]

/-- Both forms of a link to a word select the same language, and none for a word that is no language,
unless the word is longer than the language code it begins with. -/
theorem processorGenericNormalize_alike_iff {path word : List UInt8} {question slash : ConstantValue}
    (hpath : ∀ c ∈ path, isMark c = false) (hword : ∀ c ∈ word, 97 ≤ c ∧ c ≤ 122) (hne : word ≠ [])
    (hquestion : question.bytes = path ++ (ascii "?lang=" ++ word))
    (hslash : slash.bytes = path ++ 47 :: word) :
    ((processorGenericNormalizeQuestion question).2 = (processorGenericNormalizeSlash slash).2 ∧
        (segmentLanguage word = 0 → (processorGenericNormalizeQuestion question).2 = 0 ∧
          (processorGenericNormalizeSlash slash).2 = 0)) ↔
      ¬ (maxLanguageSize < word.length ∧ segmentLanguage (word.take maxLanguageSize) ≠ 0) := by
  have hslashless : ∀ c ∈ word, isSlash c = false := by
    intro c hc
    rw [← Bool.not_eq_true, isSlash_iff]
    rintro rfl
    exact absurd (hword 47 hc).1 (by decide)
  rw [processorGenericNormalizeQuestion_word hpath hword hquestion,
    processorGenericNormalizeSlash_word hslashless hne hslash]
  by_cases hlong : maxLanguageSize < word.length
  · simp [segmentLanguage_of_long hlong, hlong]
  · rw [List.take_of_length_le (Nat.not_lt.mp hlong)]
    simp [hlong]

/-- Both forms of a link to the German page about the author. -/
theorem processorGenericNormalize_alike_iff_german :
    (processorGenericNormalizeQuestion ⟨ascii "about?la", ascii "ng=de"⟩).2
      = (processorGenericNormalizeSlash ⟨ascii "about/", ascii "de"⟩).2 := by
  have hunmarked : (ascii "about").all (fun c => isMark c == false) = true := by rfl
  have hletters : (ascii "de").all (fun c => 97 ≤ c && c ≤ 122) = true := by rfl
  refine ((processorGenericNormalize_alike_iff
    (fun c hc => eq_of_beq (List.all_eq_true.mp hunmarked c hc)) (fun c hc => ?_) (by decide)
    (show (⟨ascii "about?la", ascii "ng=de"⟩ : ConstantValue).bytes
      = ascii "about" ++ (ascii "?lang=" ++ ascii "de") by rfl)
    (show (⟨ascii "about/", ascii "de"⟩ : ConstantValue).bytes = ascii "about" ++ 47 :: ascii "de" by
      rfl)).mpr (by decide)).1
  simpa using List.all_eq_true.mp hletters c hc

/-- A word that merely begins with a language code is a language behind a question mark, and none
behind a slash. -/
theorem processorGenericNormalize_unlike :
    (processorGenericNormalizeQuestion ⟨ascii "?lang=english", []⟩).2 = 101 ∧
      (processorGenericNormalizeSlash ⟨ascii "/english", []⟩).2 = 0 := by
  decide +kernel

end Twinkleshine
