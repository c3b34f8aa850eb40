import HeaderCodec.Text.Cased

namespace HeaderCodec
namespace Text

/-!
# Lower case

Header names are compared in lower case, over all of Unicode.  Most characters
have a single image, given by a table of runs in which every character, or
every other one, moves by the same distance.  Two characters need more than the
table.  A capital I with a dot becomes two characters, and a capital sigma has
two images: the final form at the end of a word, and the ordinary one
elsewhere.  What counts as the end of a word depends on the text on both sides,
beyond any number of characters that are looked past.

What is established here is that no image can be lowered any further.  Hence
lower-casing twice is the same as once, although it depends on context: a
lowered text holds no capital sigma any more.
-/

/-- Characters from `first` to `last`, each `stride` after the one before, whose
images begin with `image` and advance in step with them. -/
structure CaseRun where
  first : Nat
  last : Nat
  stride : Nat
  image : Nat
deriving DecidableEq, Repr

/-- The characters with a single image, in ascending order. -/
def caseRuns : List CaseRun :=
  [
    ⟨0x41, 0x5A, 1, 0x61⟩, ⟨0xC0, 0xD6, 1, 0xE0⟩, ⟨0xD8, 0xDE, 1, 0xF8⟩, ⟨0x100, 0x12E, 2, 0x101⟩,
    ⟨0x132, 0x136, 2, 0x133⟩, ⟨0x139, 0x147, 2, 0x13A⟩, ⟨0x14A, 0x176, 2, 0x14B⟩,
    ⟨0x178, 0x178, 1, 0xFF⟩, ⟨0x179, 0x17D, 2, 0x17A⟩, ⟨0x181, 0x181, 1, 0x253⟩,
    ⟨0x182, 0x184, 2, 0x183⟩, ⟨0x186, 0x186, 1, 0x254⟩, ⟨0x187, 0x187, 1, 0x188⟩,
    ⟨0x189, 0x18A, 1, 0x256⟩, ⟨0x18B, 0x18B, 1, 0x18C⟩, ⟨0x18E, 0x18E, 1, 0x1DD⟩,
    ⟨0x18F, 0x18F, 1, 0x259⟩, ⟨0x190, 0x190, 1, 0x25B⟩, ⟨0x191, 0x191, 1, 0x192⟩,
    ⟨0x193, 0x193, 1, 0x260⟩, ⟨0x194, 0x194, 1, 0x263⟩, ⟨0x196, 0x196, 1, 0x269⟩,
    ⟨0x197, 0x197, 1, 0x268⟩, ⟨0x198, 0x198, 1, 0x199⟩, ⟨0x19C, 0x19C, 1, 0x26F⟩,
    ⟨0x19D, 0x19D, 1, 0x272⟩, ⟨0x19F, 0x19F, 1, 0x275⟩, ⟨0x1A0, 0x1A4, 2, 0x1A1⟩,
    ⟨0x1A6, 0x1A6, 1, 0x280⟩, ⟨0x1A7, 0x1A7, 1, 0x1A8⟩, ⟨0x1A9, 0x1A9, 1, 0x283⟩,
    ⟨0x1AC, 0x1AC, 1, 0x1AD⟩, ⟨0x1AE, 0x1AE, 1, 0x288⟩, ⟨0x1AF, 0x1AF, 1, 0x1B0⟩,
    ⟨0x1B1, 0x1B2, 1, 0x28A⟩, ⟨0x1B3, 0x1B5, 2, 0x1B4⟩, ⟨0x1B7, 0x1B7, 1, 0x292⟩,
    ⟨0x1B8, 0x1B8, 1, 0x1B9⟩, ⟨0x1BC, 0x1BC, 1, 0x1BD⟩, ⟨0x1C4, 0x1C4, 1, 0x1C6⟩,
    ⟨0x1C5, 0x1C5, 1, 0x1C6⟩, ⟨0x1C7, 0x1C7, 1, 0x1C9⟩, ⟨0x1C8, 0x1C8, 1, 0x1C9⟩,
    ⟨0x1CA, 0x1CA, 1, 0x1CC⟩, ⟨0x1CB, 0x1DB, 2, 0x1CC⟩, ⟨0x1DE, 0x1EE, 2, 0x1DF⟩,
    ⟨0x1F1, 0x1F1, 1, 0x1F3⟩, ⟨0x1F2, 0x1F4, 2, 0x1F3⟩, ⟨0x1F6, 0x1F6, 1, 0x195⟩,
    ⟨0x1F7, 0x1F7, 1, 0x1BF⟩, ⟨0x1F8, 0x21E, 2, 0x1F9⟩, ⟨0x220, 0x220, 1, 0x19E⟩,
    ⟨0x222, 0x232, 2, 0x223⟩, ⟨0x23A, 0x23A, 1, 0x2C65⟩, ⟨0x23B, 0x23B, 1, 0x23C⟩,
    ⟨0x23D, 0x23D, 1, 0x19A⟩, ⟨0x23E, 0x23E, 1, 0x2C66⟩, ⟨0x241, 0x241, 1, 0x242⟩,
    ⟨0x243, 0x243, 1, 0x180⟩, ⟨0x244, 0x244, 1, 0x289⟩, ⟨0x245, 0x245, 1, 0x28C⟩,
    ⟨0x246, 0x24E, 2, 0x247⟩, ⟨0x370, 0x372, 2, 0x371⟩, ⟨0x376, 0x376, 1, 0x377⟩,
    ⟨0x37F, 0x37F, 1, 0x3F3⟩, ⟨0x386, 0x386, 1, 0x3AC⟩, ⟨0x388, 0x38A, 1, 0x3AD⟩,
    ⟨0x38C, 0x38C, 1, 0x3CC⟩, ⟨0x38E, 0x38F, 1, 0x3CD⟩, ⟨0x391, 0x3A1, 1, 0x3B1⟩,
    ⟨0x3A3, 0x3AB, 1, 0x3C3⟩, ⟨0x3CF, 0x3CF, 1, 0x3D7⟩, ⟨0x3D8, 0x3EE, 2, 0x3D9⟩,
    ⟨0x3F4, 0x3F4, 1, 0x3B8⟩, ⟨0x3F7, 0x3F7, 1, 0x3F8⟩, ⟨0x3F9, 0x3F9, 1, 0x3F2⟩,
    ⟨0x3FA, 0x3FA, 1, 0x3FB⟩, ⟨0x3FD, 0x3FF, 1, 0x37B⟩, ⟨0x400, 0x40F, 1, 0x450⟩,
    ⟨0x410, 0x42F, 1, 0x430⟩, ⟨0x460, 0x480, 2, 0x461⟩, ⟨0x48A, 0x4BE, 2, 0x48B⟩,
    ⟨0x4C0, 0x4C0, 1, 0x4CF⟩, ⟨0x4C1, 0x4CD, 2, 0x4C2⟩, ⟨0x4D0, 0x52E, 2, 0x4D1⟩,
    ⟨0x531, 0x556, 1, 0x561⟩, ⟨0x10A0, 0x10C5, 1, 0x2D00⟩, ⟨0x10C7, 0x10C7, 1, 0x2D27⟩,
    ⟨0x10CD, 0x10CD, 1, 0x2D2D⟩, ⟨0x13A0, 0x13EF, 1, 0xAB70⟩, ⟨0x13F0, 0x13F5, 1, 0x13F8⟩,
    ⟨0x1C89, 0x1C89, 1, 0x1C8A⟩, ⟨0x1C90, 0x1CBA, 1, 0x10D0⟩, ⟨0x1CBD, 0x1CBF, 1, 0x10FD⟩,
    ⟨0x1E00, 0x1E94, 2, 0x1E01⟩, ⟨0x1E9E, 0x1E9E, 1, 0xDF⟩, ⟨0x1EA0, 0x1EFE, 2, 0x1EA1⟩,
    ⟨0x1F08, 0x1F0F, 1, 0x1F00⟩, ⟨0x1F18, 0x1F1D, 1, 0x1F10⟩, ⟨0x1F28, 0x1F2F, 1, 0x1F20⟩,
    ⟨0x1F38, 0x1F3F, 1, 0x1F30⟩, ⟨0x1F48, 0x1F4D, 1, 0x1F40⟩, ⟨0x1F59, 0x1F5F, 2, 0x1F51⟩,
    ⟨0x1F68, 0x1F6F, 1, 0x1F60⟩, ⟨0x1F88, 0x1F8F, 1, 0x1F80⟩, ⟨0x1F98, 0x1F9F, 1, 0x1F90⟩,
    ⟨0x1FA8, 0x1FAF, 1, 0x1FA0⟩, ⟨0x1FB8, 0x1FB9, 1, 0x1FB0⟩, ⟨0x1FBA, 0x1FBB, 1, 0x1F70⟩,
    ⟨0x1FBC, 0x1FBC, 1, 0x1FB3⟩, ⟨0x1FC8, 0x1FCB, 1, 0x1F72⟩, ⟨0x1FCC, 0x1FCC, 1, 0x1FC3⟩,
    ⟨0x1FD8, 0x1FD9, 1, 0x1FD0⟩, ⟨0x1FDA, 0x1FDB, 1, 0x1F76⟩, ⟨0x1FE8, 0x1FE9, 1, 0x1FE0⟩,
    ⟨0x1FEA, 0x1FEB, 1, 0x1F7A⟩, ⟨0x1FEC, 0x1FEC, 1, 0x1FE5⟩, ⟨0x1FF8, 0x1FF9, 1, 0x1F78⟩,
    ⟨0x1FFA, 0x1FFB, 1, 0x1F7C⟩, ⟨0x1FFC, 0x1FFC, 1, 0x1FF3⟩, ⟨0x2126, 0x2126, 1, 0x3C9⟩,
    ⟨0x212A, 0x212A, 1, 0x6B⟩, ⟨0x212B, 0x212B, 1, 0xE5⟩, ⟨0x2132, 0x2132, 1, 0x214E⟩,
    ⟨0x2160, 0x216F, 1, 0x2170⟩, ⟨0x2183, 0x2183, 1, 0x2184⟩, ⟨0x24B6, 0x24CF, 1, 0x24D0⟩,
    ⟨0x2C00, 0x2C2F, 1, 0x2C30⟩, ⟨0x2C60, 0x2C60, 1, 0x2C61⟩, ⟨0x2C62, 0x2C62, 1, 0x26B⟩,
    ⟨0x2C63, 0x2C63, 1, 0x1D7D⟩, ⟨0x2C64, 0x2C64, 1, 0x27D⟩, ⟨0x2C67, 0x2C6B, 2, 0x2C68⟩,
    ⟨0x2C6D, 0x2C6D, 1, 0x251⟩, ⟨0x2C6E, 0x2C6E, 1, 0x271⟩, ⟨0x2C6F, 0x2C6F, 1, 0x250⟩,
    ⟨0x2C70, 0x2C70, 1, 0x252⟩, ⟨0x2C72, 0x2C72, 1, 0x2C73⟩, ⟨0x2C75, 0x2C75, 1, 0x2C76⟩,
    ⟨0x2C7E, 0x2C7F, 1, 0x23F⟩, ⟨0x2C80, 0x2CE2, 2, 0x2C81⟩, ⟨0x2CEB, 0x2CED, 2, 0x2CEC⟩,
    ⟨0x2CF2, 0x2CF2, 1, 0x2CF3⟩, ⟨0xA640, 0xA66C, 2, 0xA641⟩, ⟨0xA680, 0xA69A, 2, 0xA681⟩,
    ⟨0xA722, 0xA72E, 2, 0xA723⟩, ⟨0xA732, 0xA76E, 2, 0xA733⟩, ⟨0xA779, 0xA77B, 2, 0xA77A⟩,
    ⟨0xA77D, 0xA77D, 1, 0x1D79⟩, ⟨0xA77E, 0xA786, 2, 0xA77F⟩, ⟨0xA78B, 0xA78B, 1, 0xA78C⟩,
    ⟨0xA78D, 0xA78D, 1, 0x265⟩, ⟨0xA790, 0xA792, 2, 0xA791⟩, ⟨0xA796, 0xA7A8, 2, 0xA797⟩,
    ⟨0xA7AA, 0xA7AA, 1, 0x266⟩, ⟨0xA7AB, 0xA7AB, 1, 0x25C⟩, ⟨0xA7AC, 0xA7AC, 1, 0x261⟩,
    ⟨0xA7AD, 0xA7AD, 1, 0x26C⟩, ⟨0xA7AE, 0xA7AE, 1, 0x26A⟩, ⟨0xA7B0, 0xA7B0, 1, 0x29E⟩,
    ⟨0xA7B1, 0xA7B1, 1, 0x287⟩, ⟨0xA7B2, 0xA7B2, 1, 0x29D⟩, ⟨0xA7B3, 0xA7B3, 1, 0xAB53⟩,
    ⟨0xA7B4, 0xA7C2, 2, 0xA7B5⟩, ⟨0xA7C4, 0xA7C4, 1, 0xA794⟩, ⟨0xA7C5, 0xA7C5, 1, 0x282⟩,
    ⟨0xA7C6, 0xA7C6, 1, 0x1D8E⟩, ⟨0xA7C7, 0xA7C9, 2, 0xA7C8⟩, ⟨0xA7CB, 0xA7CB, 1, 0x264⟩,
    ⟨0xA7CC, 0xA7DA, 2, 0xA7CD⟩, ⟨0xA7DC, 0xA7DC, 1, 0x19B⟩, ⟨0xA7F5, 0xA7F5, 1, 0xA7F6⟩,
    ⟨0xFF21, 0xFF3A, 1, 0xFF41⟩, ⟨0x10400, 0x10427, 1, 0x10428⟩, ⟨0x104B0, 0x104D3, 1, 0x104D8⟩,
    ⟨0x10570, 0x1057A, 1, 0x10597⟩, ⟨0x1057C, 0x1058A, 1, 0x105A3⟩,
    ⟨0x1058C, 0x10592, 1, 0x105B3⟩, ⟨0x10594, 0x10595, 1, 0x105BB⟩,
    ⟨0x10C80, 0x10CB2, 1, 0x10CC0⟩, ⟨0x10D50, 0x10D65, 1, 0x10D70⟩,
    ⟨0x118A0, 0x118BF, 1, 0x118C0⟩, ⟨0x16E40, 0x16E5F, 1, 0x16E60⟩,
    ⟨0x16EA0, 0x16EB8, 1, 0x16EBB⟩, ⟨0x1E900, 0x1E921, 1, 0x1E922⟩ ]

/-- The image of a code point.  Looking up stops at the first run beyond it. -/
def CaseRun.lower (code : Nat) : List CaseRun -> Nat
  | [] => code
  | run :: rest =>
    if code < run.first then code
    else if code ≤ run.last ∧ (code - run.first) % run.stride = 0 then
      run.image + (code - run.first)
    else lower code rest

/-- The image of a character that stands by itself and has a single image. -/
def lowerChar (character : Char) : Char :=
  Char.ofNat (CaseRun.lower character.toNat caseRuns)

/-- Capital I with a dot above, whose image keeps the dot as a mark of its
own. -/
def dottedCapital : Char := '\u0130'

/-- The image of a character other than capital sigma. -/
def lowerImage (character : Char) : List Char :=
  if character = dottedCapital then ['i', '\u0307'] else [lowerChar character]

/-- Whether the first character that is not looked past is a letter with
case. -/
def beginsCased : List Char -> Bool
  | [] => false
  | character :: rest => if isIgnorable character then beginsCased rest else isCased character

/-- Lower-case a text from some place on.  `preceded` tells whether the last
character that is not looked past is a letter with case, and `done` holds the
images so far in opposite order. -/
def lowerFrom (preceded : Bool) (done : List Char) : List Char -> List Char
  | [] => done.reverse
  | character :: rest =>
    let image :=
      if character = 'Σ' then [if preceded && !beginsCased rest then 'ς' else 'σ']
      else lowerImage character
    lowerFrom (if isIgnorable character then preceded else isCased character)
      (image.reverse ++ done) rest

/-- Lower-case a text. -/
def lowerCase (text : String) : String :=
  String.ofList (lowerFrom false [] text.toList)

theorem lowerFrom_eq (preceded : Bool) (done rest : List Char) :
    lowerFrom preceded done rest = done.reverse ++ lowerFrom preceded [] rest := by
  induction rest generalizing preceded done with
  | nil => simp [lowerFrom]
  | cons character rest inductionHypothesis =>
    simp only [lowerFrom]
    rw [inductionHypothesis, inductionHypothesis _ (_ ++ [])]
    simp

/-- A text is lower-cased one character after the other. -/
theorem lowerFrom_cons (preceded : Bool) (character : Char) (rest : List Char) :
    lowerFrom preceded [] (character :: rest) =
      (if character = 'Σ' then [if preceded && !beginsCased rest then 'ς' else 'σ']
        else lowerImage character) ++
        lowerFrom (if isIgnorable character then preceded else isCased character) [] rest := by
  rw [lowerFrom, lowerFrom_eq, List.append_nil, List.reverse_reverse]

/-! ## Lowered characters -/

/-- A character that lower-casing leaves alone wherever it stands. -/
def Settled (character : Char) : Prop :=
  character ≠ 'Σ' ∧ lowerImage character = [character]

instance (character : Char) : Decidable (Settled character) :=
  inferInstanceAs (Decidable (_ ∧ _))

/-- A text of settled characters is its own lower case. -/
theorem lowerFrom_settled {rest : List Char} (settled : ∀ character ∈ rest, Settled character)
    (preceded : Bool) : lowerFrom preceded [] rest = rest := by
  induction rest generalizing preceded with
  | nil => rfl
  | cons character rest inductionHypothesis =>
    obtain ⟨ordinary, fixed⟩ := settled character List.mem_cons_self
    have others := inductionHypothesis fun inner member =>
      settled inner (List.mem_cons_of_mem _ member)
    rw [lowerFrom_cons, if_neg ordinary, fixed, others]
    rfl

/-- The last image of a run. -/
def CaseRun.lastImage (run : CaseRun) : Nat :=
  run.image + (run.last - run.first)

/-- Whether no image of `images` is mapped by `run`: either one lies wholly
before the other, or the code points of `run` lie between the images. -/
def CaseRun.avoids (images run : CaseRun) : Bool :=
  Nat.blt images.lastImage run.first || Nat.blt run.last images.image ||
    (images.stride == 2 || images.lastImage == images.image) && run.stride == 2 &&
      (images.image + run.first) % 2 == 1

/-- Whether all images of a run stand for characters and none is a dotted
capital I, which the table leaves out. -/
def CaseRun.isProper (run : CaseRun) : Bool :=
  (Nat.blt run.lastImage 0xD800 || Nat.blt 0xDFFF run.image && Nat.blt run.lastImage 0x110000) &&
    run.avoids ⟨0x130, 0x130, 1, 0x130⟩

theorem caseRuns_proper : (caseRuns.all CaseRun.isProper) = true := by
  decide +kernel

theorem caseRuns_avoid :
    (caseRuns.all fun images => caseRuns.all fun run => images.avoids run) = true := by
  decide +kernel

/-- A code point is an image of a run. -/
def CaseRun.Image (run : CaseRun) (code : Nat) : Prop :=
  run.image ≤ code ∧ code ≤ run.lastImage ∧ (code - run.image) % run.stride = 0

theorem CaseRun.not_mapped_of_avoids {images run : CaseRun} {code : Nat}
    (avoids : images.avoids run = true) (image : images.Image code) :
    ¬ (run.first ≤ code ∧ code ≤ run.last ∧ (code - run.first) % run.stride = 0) := by
  obtain ⟨above, below, step⟩ := image
  simp only [CaseRun.avoids, Bool.or_eq_true, Bool.and_eq_true, Nat.blt_eq,
    beq_iff_eq] at avoids
  rintro ⟨first, last, stride⟩
  rcases avoids with (before | after) | ⟨⟨two | single, alsoTwo⟩, turns⟩
  · omega
  · omega
  · rw [two] at step
    rw [alsoTwo] at stride
    omega
  · rw [alsoTwo] at stride
    omega

theorem CaseRun.lower_of_avoids {images : CaseRun} {code : Nat} {runs : List CaseRun}
    (avoids : ∀ run ∈ runs, images.avoids run = true) (image : images.Image code) :
    lower code runs = code := by
  induction runs with
  | nil => rfl
  | cons run rest inductionHypothesis =>
    have here := not_mapped_of_avoids (avoids run List.mem_cons_self) image
    have there := inductionHypothesis fun other member =>
      avoids other (List.mem_cons_of_mem _ member)
    simp only [lower]
    split
    · rfl
    · split
      · rename_i notBefore inside
        exact absurd ⟨Nat.le_of_not_lt notBefore, inside.1, inside.2⟩ here
      · exact there

/-- Looking a code point up leaves it alone or yields an image of a run. -/
theorem CaseRun.lower_cases (code : Nat) (runs : List CaseRun) :
    lower code runs = code ∨ ∃ run ∈ runs, run.Image (lower code runs) := by
  induction runs with
  | nil => exact Or.inl rfl
  | cons run rest inductionHypothesis =>
    simp only [lower]
    split
    · exact Or.inl rfl
    · rename_i notBefore
      split
      · rename_i inside
        obtain ⟨upper, onStride⟩ := inside
        refine Or.inr ⟨run, List.mem_cons_self, Nat.le_add_right _ _, ?_, ?_⟩
        · unfold lastImage
          omega
        · rw [Nat.add_sub_cancel_left]
          exact onStride
      · rcases inductionHypothesis with same | ⟨other, member, image⟩
        · exact Or.inl same
        · exact Or.inr ⟨other, List.mem_cons_of_mem _ member, image⟩

theorem toNat_ofNat_of_valid {code : Nat} (valid : code.isValidChar) :
    (Char.ofNat code).toNat = code := by
  rw [Char.ofNat, dif_pos valid]
  rfl

/-- An image of the table is the code point of a character. -/
theorem isValidChar_of_image {run : CaseRun} {code : Nat} (inTable : run ∈ caseRuns)
    (image : run.Image code) : code.isValidChar := by
  have proper := List.all_eq_true.1 caseRuns_proper run inTable
  simp only [CaseRun.isProper, Bool.and_eq_true, Bool.or_eq_true, Nat.blt_eq] at proper
  obtain ⟨above, below, _⟩ := image
  unfold Nat.isValidChar
  omega

/-- An image of the table is a settled character. -/
theorem settled_of_image {run : CaseRun} {code : Nat} (inTable : run ∈ caseRuns)
    (image : run.Image code) : Settled (Char.ofNat code) := by
  have proper := List.all_eq_true.1 caseRuns_proper run inTable
  have avoids := List.all_eq_true.1 (List.all_eq_true.1 caseRuns_avoid run inTable)
  have fixed := CaseRun.lower_of_avoids avoids image
  simp only [CaseRun.isProper, Bool.and_eq_true] at proper
  have notDotted := proper.2
  have back := toNat_ofNat_of_valid (isValidChar_of_image inTable image)
  refine ⟨fun same => ?_, ?_⟩
  · have sigma : code = 0x3A3 := by
      rw [← back, same]; rfl
    subst sigma
    revert fixed
    decide +kernel
  · rw [lowerImage, if_neg, lowerChar, back, fixed]
    intro same
    have dotted : code = 0x130 := by
      rw [← back, same]; rfl
    subst dotted
    exact CaseRun.not_mapped_of_avoids notDotted image ⟨Nat.le_refl _, Nat.le_refl _, rfl⟩

/-- No image can be lowered any further. -/
theorem settled_lowerImage {character image : Char} (notSigma : character ≠ 'Σ')
    (member : image ∈ lowerImage character) : Settled image := by
  unfold lowerImage at member
  split at member
  · simp only [List.mem_cons, List.not_mem_nil, or_false] at member
    rcases member with rfl | rfl <;> decide +kernel
  · rename_i notDotted
    rw [List.mem_singleton] at member
    subst member
    rcases CaseRun.lower_cases character.toNat caseRuns with same | ⟨run, inTable, image⟩
    · have unchanged : lowerChar character = character := by
        rw [lowerChar, same, Char.ofNat_toNat]
      rw [unchanged]
      exact ⟨notSigma, by rw [lowerImage, if_neg notDotted, unchanged]⟩
    · exact settled_of_image inTable image

/-- A lowered text holds only settled characters. -/
theorem settled_lowerFrom (preceded : Bool) (rest : List Char) :
    ∀ image ∈ lowerFrom preceded [] rest, Settled image := by
  induction rest generalizing preceded with
  | nil => simp [lowerFrom]
  | cons character rest inductionHypothesis =>
    intro image member
    rw [lowerFrom_cons, List.mem_append] at member
    rcases member with here | later
    · split at here
      · rw [List.mem_singleton] at here
        subst here
        split <;> decide +kernel
      · rename_i notSigma
        exact settled_lowerImage notSigma here
    · exact inductionHypothesis _ image later

/-- A lowered text is its own lower case. -/
theorem lowerCase_lowerCase (text : String) : lowerCase (lowerCase text) = lowerCase text := by
  have settled := settled_lowerFrom false text.toList
  rw [lowerCase, lowerCase, String.toList_ofList, lowerFrom_settled settled]

end Text
end HeaderCodec
