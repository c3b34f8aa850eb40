import HeaderCodec.Proofs.Lookup

namespace HeaderCodec

/-!
# Spellings of a name

A name is kept in lower case, and whoever looks it up may spell it differently.  Two
questions are answered here.  The first is whether lower case is a form in which a name
can be kept.  Headers are lower-cased again when they are read from a block, so nothing
must change then, a name must not vanish, and no NUL must come in or get lost.

The second is which spellings are the same name.  Lower-casing is not done one character
at a time: a capital sigma at the end of a word has an image of its own.  A small sigma
in the same place stays what it is.  Hence two spellings that differ in nothing but the
case of letters can still be two names.  `capitalEnds` tells at which places of the
lowered text this matters, and `lowerCase_eq_iff` that it matters nowhere else.
-/

namespace Text

/-! ## Lower case as a form of its own -/

theorem caseRuns_positive : (caseRuns.all fun run => Nat.blt 0 run.image) = true := by
  decide +kernel

/-- NUL is the image of nothing but itself. -/
theorem separator_mem_lowerImage {character : Char} :
    separator ∈ lowerImage character <-> character = separator := by
  constructor
  · intro member
    rw [lowerImage] at member
    split at member
    · simp [separator] at member
    · have equal := List.mem_singleton.1 member
      rw [lowerChar] at equal
      rcases CaseRun.lower_cases character.toNat caseRuns with same | ⟨run, inTable, image⟩
      · rw [equal, same, Char.ofNat_toNat]
      · -- A code point of no character would be taken for NUL.
        have code := toNat_ofNat_of_valid (isValidChar_of_image inTable image)
        rw [← equal] at code
        have positive := List.all_eq_true.1 caseRuns_positive run inTable
        rw [Nat.blt_eq] at positive
        have least := image.1
        rw [← code] at least
        exact absurd (Nat.lt_of_lt_of_le positive least) (Nat.not_lt_zero 0)
  · rintro rfl
    decide +kernel

theorem separator_mem_lowerFrom (preceded : Bool) (rest : List Char) :
    separator ∈ lowerFrom preceded [] rest <-> separator ∈ rest := by
  induction rest generalizing preceded with
  | nil => rfl
  | cons character rest inductionHypothesis =>
    rw [lowerFrom_cons, List.mem_append, inductionHypothesis, List.mem_cons]
    refine or_congr_left ?_
    split
    · rename_i sigma
      subst sigma
      split <;> simp [separator]
    · rw [separator_mem_lowerImage, eq_comm]

/-- A text is in lower case when each of its characters is. -/
theorem lowerCase_eq_self_iff (text : String) :
    lowerCase text = text <-> ∀ character ∈ text.toList, Settled character := by
  constructor
  · intro same character member
    apply settled_lowerFrom false text.toList
    rw [← same, lowerCase, String.toList_ofList] at member
    exact member
  · intro settled
    rw [lowerCase, lowerFrom_settled settled, String.ofList_toList]

/-- Lower case is a normal form.  The texts in it are those without a character that
can be lowered, so a second time changes nothing.  Only the empty text becomes empty,
and NUL is found afterwards where it was before. -/
theorem lowerCase_normalForm (text : String) :
    lowerCase (lowerCase text) = lowerCase text ∧
      (lowerCase text = text <-> ∀ character ∈ text.toList, Settled character) ∧
      (lowerCase text = "" <-> text = "") ∧
      (separator ∈ (lowerCase text).toList <-> separator ∈ text.toList) := by
  refine ⟨lowerCase_lowerCase text, lowerCase_eq_self_iff text, ?_, ?_⟩
  · constructor
    · intro empty
      by_contra named
      exact lowerCase_ne_empty named empty
    · rintro rfl
      rfl
  · rw [lowerCase, String.toList_ofList, separator_mem_lowerFrom]

/-! ## Letters one by one -/

/-- A text with each character lower-cased on its own. -/
def lowerEach (text : String) : String :=
  String.ofList (text.toList.flatMap lowerImage)

/-- Two texts differ in nothing but the case of letters. -/
def CaseVariants (first second : String) : Prop :=
  lowerEach first = lowerEach second

instance (first second : String) : Decidable (CaseVariants first second) :=
  inferInstanceAs (Decidable (_ = _))

/-- A word ends between two parts of a text, as far as characters count that are not
looked past. -/
def endsWord (before after : List Char) : Bool :=
  beginsCased before.reverse && !beginsCased after

/-- For each character of the lowered text, whether it stands for a capital sigma at the
end of a word. -/
def capitalEndsFrom (before : List Char) : List Char -> List Bool
  | [] => []
  | character :: rest =>
    ((lowerImage character).map fun _ => character == 'Σ' && endsWord before rest) ++
      capitalEndsFrom (before ++ [character]) rest

def capitalEnds (text : String) : List Bool :=
  capitalEndsFrom [] text.toList

/-- Put the final form where a capital sigma ends a word. -/
def finish (image : Char) (ends : Bool) : Char :=
  if ends then 'ς' else image

theorem lowerImage_sigma : lowerImage 'Σ' = ['σ'] := by
  decide +kernel

/-- Capital sigmas are found only where the lowered text has a small one. -/
theorem forall₂_capitalEndsFrom (before rest : List Char) :
    List.Forall₂ (fun image ends => ends = true -> image = 'σ') (rest.flatMap lowerImage)
      (capitalEndsFrom before rest) := by
  induction rest generalizing before with
  | nil => exact .nil
  | cons character rest inductionHypothesis =>
    rw [List.flatMap_cons, capitalEndsFrom]
    apply List.rel_append ?_ (inductionHypothesis _)
    rw [List.forall₂_map_right_iff, List.forall₂_same]
    intro image member ends
    simp only [Bool.and_eq_true, beq_iff_eq] at ends
    rw [ends.1, lowerImage_sigma] at member
    exact List.mem_singleton.1 member

/-- Lower-casing is done one by one, apart from final sigmas. -/
theorem lowerFrom_eq_zipWith (before rest : List Char) :
    lowerFrom (beginsCased before.reverse) [] rest =
      (rest.flatMap lowerImage).zipWith finish (capitalEndsFrom before rest) := by
  induction rest generalizing before with
  | nil => rfl
  | cons character rest inductionHypothesis =>
    -- Of what stands before, only whether it ends in a cased letter is remembered.
    have onward := inductionHypothesis (before ++ [character])
    rw [List.reverse_append, List.reverse_singleton, List.singleton_append, beginsCased] at onward
    rw [lowerFrom_cons, onward, List.flatMap_cons, capitalEndsFrom,
      List.zipWith_append (List.length_map _).symm]
    refine congrArg (· ++ _) ?_
    by_cases sigma : character = 'Σ'
    · subst sigma
      rw [if_pos rfl, lowerImage_sigma]
      simp [finish, endsWord]
    · have ordinary : (character == 'Σ') = false := beq_eq_false_iff_ne.2 sigma
      simp only [if_neg sigma, ordinary, Bool.false_and, List.zipWith_map_right,
        List.zipWith_self, finish, Bool.false_eq_true, if_false, List.map_id']

theorem eq_of_zipWith_finish {images : List Char} {ends others : List Bool}
    (here : List.Forall₂ (fun image ends => ends = true -> image = 'σ') images ends)
    (there : List.Forall₂ (fun image ends => ends = true -> image = 'σ') images others)
    (same : images.zipWith finish ends = images.zipWith finish others) : ends = others := by
  induction here generalizing others with
  | nil =>
    cases there
    rfl
  | cons mark _ inductionHypothesis =>
    cases there with
    | cons markToo behind =>
      rw [List.zipWith_cons_cons, List.zipWith_cons_cons, List.cons.injEq] at same
      rw [inductionHypothesis behind same.2]
      refine congrArg (· :: _) ?_
      -- A mark that is set turns a small sigma into the final form, and nothing else does.
      rename_i first _ _ second _
      cases first <;> cases second <;> simp_all [finish]

/-- Spellings that differ in the case of letters only have the same lower case when
capital sigmas end words in the same places. -/
theorem lowerCase_eq_iff {first second : String} (variants : CaseVariants first second) :
    lowerCase first = lowerCase second <-> capitalEnds first = capitalEnds second := by
  have images : first.toList.flatMap lowerImage = second.toList.flatMap lowerImage :=
    String.ofList_injective variants
  have lowered : ∀ text : String, lowerCase text =
      String.ofList ((text.toList.flatMap lowerImage).zipWith finish (capitalEnds text)) :=
    fun text => congrArg String.ofList (lowerFrom_eq_zipWith [] text.toList)
  rw [lowered, lowered, images]
  constructor
  · intro same
    have here := forall₂_capitalEndsFrom [] first.toList
    rw [images] at here
    exact eq_of_zipWith_finish here (forall₂_capitalEndsFrom [] second.toList)
      (String.ofList_injective same)
  · intro same
    rw [same]

/-- Without capital sigmas there is nothing to tell of them. -/
theorem capitalEndsFrom_of_absent (before : List Char) {rest : List Char} (absent : 'Σ' ∉ rest) :
    capitalEndsFrom before rest = (rest.flatMap lowerImage).map fun _ => false := by
  induction rest generalizing before with
  | nil => rfl
  | cons character rest inductionHypothesis =>
    rw [List.mem_cons, not_or] at absent
    have ordinary : (character == 'Σ') = false := beq_eq_false_iff_ne.2 (Ne.symm absent.1)
    rw [capitalEndsFrom, inductionHypothesis _ absent.2, List.flatMap_cons, List.map_append]
    simp [ordinary]

theorem lowerEach_of_settled {text : String}
    (settled : ∀ character ∈ text.toList, Settled character) : lowerEach text = text := by
  have alone : text.toList.flatMap lowerImage = text.toList.flatMap fun character => [character] :=
    List.flatMap_congr fun character member => (settled character member).2
  rw [lowerEach, alone, List.flatMap_singleton', String.ofList_toList]

/-- Names in lower case differ in more than the case of letters. -/
theorem eq_of_caseVariants {first second : String} (lowered : lowerCase first = first)
    (loweredToo : lowerCase second = second) (variants : CaseVariants first second) :
    first = second := by
  have same := variants
  rwa [CaseVariants, lowerEach_of_settled ((lowerCase_eq_self_iff first).1 lowered),
    lowerEach_of_settled ((lowerCase_eq_self_iff second).1 loweredToo)] at same

end Text

/-! ## Two spellings and headers -/

namespace Headers

/-- Headers cannot tell two spellings apart. -/
structure OneName (headers : Headers) (first second : String) : Prop where
  values : headers.values first = headers.values second
  first? : headers.first? first = headers.first? second
  contains : headers.contains first = headers.contains second
  append : ∀ value, headers.append first value = headers.append second value
  insert : ∀ value, headers.insert first value = headers.insert second value
  remove : headers.remove first = headers.remove second
  /-- Values that are appended under both come to stand in one entry. -/
  together : ∀ value other,
    ((headers.append first value).append second other).values first =
      headers.values first ++ [value, other]

/-- What is done under one spelling is not seen under another. -/
structure Apart (headers : Headers) (first second : String) : Prop where
  append : ∀ value, (headers.append first value).values second = headers.values second
  insert : ∀ value, (headers.insert first value).2.values second = headers.values second
  remove : (headers.remove first).2.values second = headers.values second

variable {headers : Headers} {first second : String}

theorem oneName_iff :
    headers.OneName first second <-> Text.lowerCase first = Text.lowerCase second := by
  constructor
  · intro one
    by_contra different
    -- What is appended under the one spelling would not be seen under the other.
    have values := congrArg (fun after => Headers.values after first) (one.append "")
    simp [values_append, different] at values
  · intro same
    constructor
    · simp only [values, same]
    · simp only [first?, values, same]
    · simp only [contains, same]
    · simp only [append, alter, same, implies_true]
    · simp only [insert, alter, same, implies_true]
    · simp only [remove, same]
    · intro value other
      rw [values_append, values_append, if_pos rfl, if_pos same, List.append_assoc]
      rfl

theorem apart_of_ne (different : Text.lowerCase first ≠ Text.lowerCase second) :
    headers.Apart first second := by
  constructor
  · intro value
    rw [values_append, if_neg different.symm, List.append_nil]
  · intro value
    rw [values_insert, if_neg different.symm]
  · rw [values_remove, if_neg different.symm]

/-- How spellings of a name meet that differ in the case of letters only. -/
structure CaseVariantsMeet (headers : Headers) (first second : String) : Prop where
  /-- They are one name when capital sigmas end words in the same places. -/
  oneName_iff : headers.OneName first second <->
    Text.capitalEnds first = Text.capitalEnds second
  oneName_of_absent : 'Σ' ∉ first.toList -> 'Σ' ∉ second.toList -> headers.OneName first second
  apart : ¬ headers.OneName first second -> headers.Apart first second
  /-- Among the names that headers hold there are no such spellings of one another. -/
  none : headers.entries.Pairwise fun header other => ¬ Text.CaseVariants header.name other.name

/-- Spellings that differ in the case of letters only are one name to headers, up to
capital sigmas at the ends of words, and two names otherwise. -/
theorem caseVariants_meet (headers : Headers) (variants : Text.CaseVariants first second) :
    headers.CaseVariantsMeet first second := by
  have iff := (@oneName_iff headers first second).trans (Text.lowerCase_eq_iff variants)
  refine ⟨iff, ?_, ?_, ?_⟩
  · intro absent absentToo
    apply iff.2
    have images : first.toList.flatMap Text.lowerImage = second.toList.flatMap Text.lowerImage :=
      String.ofList_injective variants
    rw [Text.capitalEnds, Text.capitalEnds, Text.capitalEndsFrom_of_absent [] absent,
      Text.capitalEndsFrom_of_absent [] absentToo, images]
  · intro two
    exact apart_of_ne fun same => two (oneName_iff.2 same)
  · apply (List.pairwise_map.1 headers.wellFormed.ascending).imp_of_mem
    intro header other member memberToo less spelt
    have same := Text.eq_of_caseVariants (headers.wellFormed.lowered header member)
      (headers.wellFormed.lowered other memberToo) spelt
    exact Std.ne_of_lt less same

/-- A capital and a small letter elsewhere make no difference, whereas a capital and a
small sigma at the end do. -/
theorem caseVariants_meet_sigma :
    (({} : Headers).append "ΑΣ" "1").OneName "ΑΣ" "αΣ" ∧
      (({} : Headers).append "ΑΣ" "1").OneName "İ" "i̇" ∧
      (({} : Headers).append "ΑΣ" "1").Apart "ΑΣ" "ασ" := by
  have letter : Text.CaseVariants "ΑΣ" "αΣ" := by decide +kernel
  have dotted : Text.CaseVariants "İ" "i̇" := by decide +kernel
  have sigma : Text.CaseVariants "ΑΣ" "ασ" := by decide +kernel
  refine ⟨?_, ?_, ?_⟩
  · apply (caseVariants_meet _ letter).oneName_iff.2
    decide +kernel
  · apply (caseVariants_meet _ dotted).oneName_of_absent
    · decide +kernel
    · decide +kernel
  · apply (caseVariants_meet _ sigma).apart
    intro one
    have same := (caseVariants_meet _ sigma).oneName_iff.1 one
    revert same
    decide +kernel

/-- Values that were appended under a spelling with a capital sigma at its end are not
found under the same spelling with a small one. -/
theorem smallSigma_not_found :
    Text.CaseVariants "ΑΣ" "ασ" ∧
      (({} : Headers).append "ΑΣ" "1").values "ΑΣ" = ["1"] ∧
      (({} : Headers).append "ΑΣ" "1").values "ασ" = [] := by
  refine ⟨?_, ?_, ?_⟩
  · decide +kernel
  · decide +kernel
  · decide +kernel

end Headers
end HeaderCodec
