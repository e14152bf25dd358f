import ConfTree.Proofs.BlockOutline
import ConfTree.Proofs.BlockUnambiguous
import ConfTree.Proofs.PatternLanguage
import ConfTree.Proofs.ProperWalk
import ConfTree.Styled.Document

namespace ConfTree

namespace Text

theorem forall_isNameLetter {property : Char → Prop}
    (h : ∀ place < 26, property (Char.ofNat (97 + place))) :
    ∀ c, isNameLetter c = true → property c := by
  intro c hc
  simp only [isNameLetter, Bool.and_eq_true, decide_eq_true_eq, Char.le_def,
    UInt32.le_iff_toNat_le] at hc
  have hlow : 97 ≤ c.toNat := hc.1
  have hhigh : c.toNat ≤ 122 := hc.2
  have hletter := h (c.toNat - 97) (by omega)
  rwa [Nat.add_sub_cancel' hlow, Char.ofNat_toNat] at hletter

end Text

namespace Styled

open Pattern

/-! Texts without certain characters. -/

theorem hasSpaceBesideBreak_eq_false {text : Text} (h : ∀ c ∈ text, isBreak c = false) :
    hasSpaceBesideBreak text = false := by
  induction text with
  | nil => rfl
  | cons first rest ih =>
      cases rest with
      | nil => rfl
      | cons second rest =>
          obtain ⟨hfirst, hrest⟩ := List.forall_mem_cons.mp h
          rw [hasSpaceBesideBreak, hfirst, (List.forall_mem_cons.mp hrest).1, ih hrest]
          simp

theorem hasInnerIndicator_eq_false {text : Text} (h : ∀ c ∈ text, c ≠ ':' ∧ c ≠ '#')
    (before : Char) : hasInnerIndicator before text = false := by
  induction text generalizing before with
  | nil => rfl
  | cons c rest ih =>
      obtain ⟨⟨hcolon, hhash⟩, hrest⟩ := List.forall_mem_cons.mp h
      rw [hasInnerIndicator, ih hrest]
      simp [hcolon, hhash]

theorem beginsWithSpaceOrBreak_eq_false {text : Text}
    (h : ∀ c ∈ text, c ≠ ' ' ∧ isBreak c = false) : beginsWithSpaceOrBreak text = false := by
  cases text with
  | nil => rfl
  | cons c rest =>
      obtain ⟨hspace, hbreak⟩ := h c (by simp)
      simp [beginsWithSpaceOrBreak, hspace, hbreak]

theorem matches_anyWord_iff {words : List String} {text : Text} :
    (anyWord words).Matches text ↔ text ∈ words.map String.toList := by
  rw [anyWord, matches_anyOf_iff, List.mem_map]
  constructor
  · rintro ⟨_, hpattern, h⟩
    obtain ⟨word, hword, rfl⟩ := List.mem_map.mp hpattern
    exact ⟨word, hword, (matches_exactly_iff.mp h).symm⟩
  · rintro ⟨word, hword, rfl⟩
    exact ⟨_, List.mem_map_of_mem hword, matches_exactly_iff.mpr rfl⟩

def truthNames : List Text :=
  ["yes", "no", "true", "false", "on", "off"].map String.toList

section

variable {key : Text} (hkey : Text.IsName key)

include hkey

theorem accepts_booleanPattern_iff : booleanPattern.accepts key = true ↔ key ∈ truthNames := by
  have hnames : ∀ word ∈ ["yes", "Yes", "YES", "no", "No", "NO", "true", "True", "TRUE", "false",
      "False", "FALSE", "on", "On", "ON", "off", "Off", "OFF"].map String.toList,
      word.all Text.isNameLetter = true → word ∈ truthNames := by decide
  have haccepts : ∀ word ∈ truthNames, booleanPattern.accepts word = true := by decide
  refine ⟨fun h => ?_, haccepts key⟩
  rw [accepts_iff, booleanPattern, matches_anyWord_iff] at h
  exact hnames key h (List.all_eq_true.mpr hkey.2)

theorem accepts_nullPattern_iff : nullPattern.accepts key = true ↔ key = "null".toList := by
  have hnames : ∀ word ∈ ["", "~", "null", "Null", "NULL"].map String.toList,
      word ≠ [] ∧ word.all Text.isNameLetter = true → word = "null".toList := by decide
  refine ⟨fun h => ?_, ?_⟩
  · rw [accepts_iff, nullPattern, matches_anyWord_iff] at h
    exact hnames key h ⟨hkey.1, List.all_eq_true.mpr hkey.2⟩
  · rintro rfl
    decide

theorem accepts_eq_false_of_isName : ∀ pattern ∈ [exactly ['<', '<'], exactly ['='], floatPattern,
    integerPattern, timestampPattern], pattern.accepts key = false := by
  have hletters : ∀ c, Text.isNameLetter c = true → ∀ pattern ∈ [exactly ['<', '<'], exactly ['='],
      floatPattern, integerPattern, timestampPattern], pattern.mayBegin c = false :=
    Text.forall_isNameLetter (by decide)
  intro pattern hpattern
  obtain ⟨c, rest, rfl, hc⟩ := Text.exists_cons_of_run hkey
  exact accepts_eq_false_of_mayBegin (hletters c hc pattern hpattern) rest

/-- A name is taken for a text, unless it is one of seven words. -/
theorem implicitType?_of_isName : implicitType? key =
    if key ∈ truthNames then some .boolean
    else if key = "null".toList then some .null
    else none := by
  have hothers := accepts_eq_false_of_isName hkey
  simp only [List.forall_mem_cons] at hothers
  obtain ⟨hmerge, hdefault, hfloat, hinteger, htimestamp, -⟩ := hothers
  have hboolean := accepts_booleanPattern_iff hkey
  have hnull := accepts_nullPattern_iff hkey
  by_cases htruth : key ∈ truthNames
  · rw [if_pos htruth]
    simp [implicitType?, implicitPatterns, hboolean.mpr htruth]
  have hnoTruth : booleanPattern.accepts key = false :=
    Bool.eq_false_iff.mpr fun h => htruth (hboolean.mp h)
  by_cases habsent : key = "null".toList
  · rw [if_neg htruth, if_pos habsent]
    simp [implicitType?, implicitPatterns, hnoTruth, hnull.mpr habsent]
  · have hnoNull : nullPattern.accepts key = false :=
      Bool.eq_false_iff.mpr fun h => habsent (hnull.mp h)
    rw [if_neg htruth, if_neg habsent]
    simp [implicitType?, implicitPatterns, hnoTruth, hnoNull, hmerge, hdefault, hfloat, hinteger,
      htimestamp]

theorem allowsSingle_of_isName : allowsSingle key = true := by
  have hletters : ∀ c, Text.isNameLetter c = true → isOrdinary c = true ∧ isBreak c = false :=
    Text.forall_isNameLetter (by decide)
  have hbeside : hasSpaceBesideBreak key = false :=
    hasSpaceBesideBreak_eq_false fun c hc => (hletters c (hkey.2 c hc)).2
  rw [allowsSingle, hbeside, Bool.and_eq_true, List.all_eq_true]
  exact ⟨fun c hc => (hletters c (hkey.2 c hc)).1, rfl⟩

theorem hasIndicator_eq_false_of_isName : hasIndicator key = false := by
  have hletters : ∀ c, Text.isNameLetter c = true →
      (c ≠ ':' ∧ c ≠ '#') ∧ c ≠ '-' ∧ c ≠ '.' ∧ c ≠ '?' ∧ c ∉ leadingIndicators :=
    Text.forall_isNameLetter (by decide)
  obtain ⟨c, rest, rfl⟩ := List.exists_cons_of_ne_nil hkey.1
  obtain ⟨⟨hcolon, -⟩, hdash, hdot, hquestion, hleading⟩ := hletters c (hkey.2 c (by simp))
  have hinner : hasInnerIndicator c rest = false := hasInnerIndicator_eq_false
    (fun d hd => (hletters d (hkey.2 d (by simp [hd]))).1) c
  simp [hasIndicator, beginsWithIndicator, hinner, hcolon, hdash, hquestion, hleading,
    List.isPrefixOf_cons_cons, hdash.symm, hdot.symm]

theorem allowsPlain_of_isName : allowsPlain key = true := by
  have hletters : ∀ c, Text.isNameLetter c = true → c ≠ ' ' ∧ isBreak c = false :=
    Text.forall_isNameLetter (by decide)
  have hbreak : key.any isBreak = false :=
    List.any_eq_false.mpr fun c hc => by simp [(hletters c (hkey.2 c hc)).2]
  have hbegin : beginsWithSpaceOrBreak key = false :=
    beginsWithSpaceOrBreak_eq_false fun c hc => hletters c (hkey.2 c hc)
  have hend : beginsWithSpaceOrBreak key.reverse = false :=
    beginsWithSpaceOrBreak_eq_false fun c hc =>
      hletters c (hkey.2 c (List.mem_reverse.mp hc))
  rw [allowsPlain, allowsSingle_of_isName hkey, hasIndicator_eq_false_of_isName hkey, hbreak,
    hbegin, hend]
  rfl

theorem styleOf_of_isName : styleOf key = if implicitType? key = none then .plain else .single := by
  rw [styleOf, allowsPlain_of_isName hkey, allowsSingle_of_isName hkey, Bool.and_true]
  simp only [Option.isNone_iff_eq_none, if_true]

end

end Styled

/-! Keys of documents. -/

theorem Value.IsProper.keysAreNames {value : Value} (h : value.IsProper) : value.KeysAreNames := by
  induction value using Value.induction with
  | null => trivial
  | number x => trivial
  | text content => trivial
  | list items ih =>
      refine keysOfItemsAreNames_iff.mpr fun item hitem => ih item hitem ?_
      exact isProper_list_iff.mp h item hitem
  | mapping entries ih =>
      have hentries := areProperEntries_iff.mp h.2
      refine keysOfEntriesAreNames_iff.mpr fun entry hentry => ?_
      exact ⟨(hentries entry hentry).1, ih entry hentry (hentries entry hentry).2⟩

theorem keysAreNames_of_readDocument {settings : Settings} {text : Text} {value : Value}
    {after : Session} (h : readDocument settings [] text = .ok value after) :
    value.KeysAreNames := by
  have hempty : (Session.start text []).constants.AreProper := by
    simp [Session.start, Constants.AreProper]
  have hkeeps := SessionReading.keeps_document settings (.start text []) hempty
  change SessionReading.document settings (.start text []) = _ at h
  rw [h] at hkeeps
  rcases hkeeps.2 with rfl | hproper
  · trivial
  · exact hproper.keysAreNames

namespace Block

theorem isNamed_of_mem_outline {value : Value} (h : value.KeysAreNames) {depth : Nat} :
    ∀ place ∈ outline depth value, place.2.IsNamed := by
  induction value using induction_members generalizing depth with
  | step value ih =>
      intro place hplace
      rw [outline_eq] at hplace
      obtain ⟨member, hmember, hplace⟩ := List.mem_flatMap.mp hplace
      obtain ⟨hnamed, hitem⟩ := areNamed_members h member hmember
      rcases List.mem_cons.mp hplace with rfl | hplace
      · exact hnamed
      · exact ih member hmember hitem place hplace

theorem Member.IsNamed.isName {key : Text} {item : Value} (h : (ofEntry (key, item)).IsNamed) :
    Text.IsName key := by
  generalize hmember : ofEntry (key, item) = member at h
  cases h with
  | item other =>
      have hheader : key ++ [':'] = ['-'] ++ [' '] := congrArg Member.header hmember
      exact absurd (List.append_inj_right' hheader rfl) (by decide)
  | entry other value hother =>
      have hheader : key ++ [':'] = other ++ [':'] := congrArg Member.header hmember
      rwa [List.append_cancel_right hheader]

theorem exists_text_of_mem_outline {value : Value} {place : Nat × Member}
    (h : place ∈ outline 0 value) (level : Nat) :
    ∃ before behind, text value level = before ++ (outlineLine level place ++ '\n' :: behind) ∧
      (before = [] ∨ before.getLast? = some '\n') := by
  have hlines : linesOf level value = (outline 0 value).map (outlineLine level) := by
    unfold linesOf Value.scalarText?
    cases hscalar : value.scalar? with
    | none => rfl
    | some scalar =>
        rw [Value.eq_of_scalar?_eq_some hscalar] at h
        cases scalar <;> exact absurd h List.not_mem_nil
  obtain ⟨front, back, hsplit⟩ := List.append_of_mem h
  refine ⟨(front.map (outlineLine level)).flatMap (· ++ ['\n']),
    (back.map (outlineLine level)).flatMap (· ++ ['\n']), ?_, ?_⟩
  · rw [text_eq_linesOf, hlines, hsplit]
    simp
  · rcases List.eq_nil_or_concat front with rfl | ⟨front, last, rfl⟩
    · exact .inl rfl
    · right
      simp

/-- A document that is read has names as keys only, and the block format writes every key as it
stands, at the start of the line of its entry.  There a key is taken for a text unless it is `null`
or one of six truth values, and the styled format puts just these in quotes. -/
theorem keys_stand_unquoted {settings : Settings} {source : Text} {value : Value} {after : Session}
    (h : readDocument settings [] source = .ok value after) {depth : Nat} {key : Text}
    {item : Value} (hplace : (depth, Member.ofEntry (key, item)) ∈ outline 0 value) :
    (∃ before behind,
      text value 0 = before ++ (Text.spaces (2 * depth) ++ (key ++ ':' :: behind)) ∧
      (before = [] ∨ before.getLast? = some '\n')) ∧
    Styled.implicitType? key =
      (if key ∈ Styled.truthNames then some .boolean
      else if key = "null".toList then some .null
      else none) ∧
    Styled.styleOf key = if Styled.implicitType? key = none then .plain else .single := by
  have hkey : Text.IsName key :=
    (isNamed_of_mem_outline (keysAreNames_of_readDocument h) _ hplace).isName
  refine ⟨?_, Styled.implicitType?_of_isName hkey, Styled.styleOf_of_isName hkey⟩
  obtain ⟨before, behind, htext, hbefore⟩ := exists_text_of_mem_outline hplace 0
  obtain ⟨tail, hline⟩ : ∃ tail, (Member.ofEntry (key, item)).lineText = key ++ ':' :: tail := by
    unfold Member.lineText
    split
    · exact ⟨_, by simp [Member.ofEntry]; rfl⟩
    · exact ⟨[], rfl⟩
  refine ⟨before, tail ++ '\n' :: behind, ?_, hbefore⟩
  have htext : text value 0 = _ := htext
  rw [htext, outlineLine, hline]
  simp

theorem keys_stand_unquoted_nested :
    ∃ value after, readDocument {} [] "[\x7bon:\x7bab:[]\x7d\x7d]".toList = .ok value after ∧
      (∃ before behind, text value 0 = before ++ (Text.spaces 4 ++ ("ab".toList ++ ':' :: behind)) ∧
        (before = [] ∨ before.getLast? = some '\n')) ∧
      Styled.styleOf "ab".toList = .plain ∧ Styled.styleOf "on".toList = .single := by
  have hread : readDocument {} [] "[\x7bon:\x7bab:[]\x7d\x7d]".toList =
      .ok (.list [.mapping [("on".toList, .mapping [("ab".toList, .list [])])]])
        ⟨⟨[], 14, ⟨1, 15⟩⟩, []⟩ := rfl
  have hinner : (2, Member.ofEntry ("ab".toList, .list [])) ∈
      outline 0 (.list [.mapping [("on".toList, .mapping [("ab".toList, .list [])])]]) := by
    simp [outline, outlineOfItems, outlineOfEntries]
  have houter : (1, Member.ofEntry ("on".toList, .mapping [("ab".toList, .list [])])) ∈
      outline 0 (.list [.mapping [("on".toList, .mapping [("ab".toList, .list [])])]]) := by
    simp [outline, outlineOfItems, outlineOfEntries]
  obtain ⟨hline, htype, hstyle⟩ := keys_stand_unquoted hread hinner
  obtain ⟨-, houterType, houterStyle⟩ := keys_stand_unquoted hread houter
  have htruth : "ab".toList ∉ Styled.truthNames ∧ "ab".toList ≠ "null".toList ∧
      "on".toList ∈ Styled.truthNames := by decide
  rw [htype, if_neg htruth.1, if_neg htruth.2.1] at hstyle
  rw [houterType, if_pos htruth.2.2] at houterStyle
  exact ⟨_, _, hread, hline, hstyle, houterStyle⟩

/-- The document `{null:@"x"}` is written as one line whose key is taken for null, and the styled
format puts the key in quotes. -/
theorem null_key_not_taken_for_text :
    ∃ after,
      readDocument {} [] "\x7bnull:@\"x\"\x7d".toList =
        .ok (.mapping [("null".toList, .text ['x'])]) after ∧
      text (.mapping [("null".toList, .text ['x'])]) 0 = "null: \"x\"\n".toList ∧
      Styled.implicitType? "null".toList = some .null ∧
      Styled.text? (.mapping [("null".toList, .text ['x'])]) = some "'null': x\n".toList := by
  have htext : text (.mapping [("null".toList, .text ['x'])]) 0 = "null: \"x\"\n".toList := by
    rw [show (0 : Int) = ((0 : Nat) : Int) from rfl, text_eq_linesOf]
    rfl
  exact ⟨⟨⟨[], 11, ⟨1, 12⟩⟩, []⟩, rfl, htext, by decide, rfl⟩

end Block

end ConfTree
