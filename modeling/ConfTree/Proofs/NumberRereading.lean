import ConfTree.Proofs.BlockLines
import ConfTree.Proofs.DocumentJoin
import ConfTree.Proofs.PositionalRange

namespace ConfTree

def Gap.spaces (count : Nat) : Gap :=
  List.replicate count (.blank ' ')

theorem Gap.text_spaces (count : Nat) : (Gap.spaces count).text = Text.spaces count := by
  simp [Gap.text, Gap.spaces, Text.spaces, Piece.text, List.flatMap_replicate]

theorem Gap.isInner_spaces (count : Nat) : (Gap.spaces count).IsInner := by
  have hspace : Text.isBlank ' ' = true := by decide
  have hblank : Gap.IsInner [.blank ' '] := ⟨⟨hspace, trivial⟩, by simp [Gap.IsClosed]⟩
  induction count with
  | zero => exact Gap.isInner_nil
  | succ count ih => exact hblank.append ih

namespace DecimalSpelling

/-- The literal with which the text of a spelling begins: all of it up to the exponent. -/
def mantissa (negative : Bool) (spelling : DecimalSpelling) : NumberLiteral where
  sign := if negative then .minus else .unmarked
  whole := spelling.whole
  fraction := some spelling.fraction

theorem signText_append_text (negative : Bool) (width : Nat) (spelling : DecimalSpelling) :
    Binary64.signText negative ++ spelling.text width =
      (spelling.mantissa negative).text ++ exponentText width spelling.exponent := by
  cases negative <;>
    simp [Binary64.signText, text, mantissa, NumberLiteral.text, Sign.text]

theorem WellFormed.mantissa {spelling : DecimalSpelling} (h : spelling.WellFormed)
    (negative : Bool) : (spelling.mantissa negative).WellFormed := by
  refine ⟨h.1, ?_⟩
  rintro _ ⟨⟩
  exact h.2

theorem isNegative_mantissa (negative : Bool) (spelling : DecimalSpelling) :
    (spelling.mantissa negative).isNegative = negative := by
  cases negative <;> rfl

theorem absolute_mantissa {spelling : DecimalSpelling} (h : spelling.exponent = none)
    (negative : Bool) : (spelling.mantissa negative).absolute = spelling.value := by
  rw [NumberLiteral.absolute_eq_div, NumberLiteral.denominator_eq, value, h, Option.getD_none,
    zero_sub, zpow_neg, zpow_natCast, ← div_eq_mul_inv, Nat.cast_pow, Nat.cast_ofNat]
  rfl

end DecimalSpelling

namespace Magnitude

def mantissa (negative : Bool) (x : Magnitude) : NumberLiteral :=
  (x.shortest.spelling .standard).mantissa negative

theorem text_finite (negative : Bool) (x : Magnitude) :
    (Binary64.finite negative x).text = (x.mantissa negative).text ++
      DecimalSpelling.exponentText 2 (x.shortest.spelling .standard).exponent := by
  rw [Binary64.text_eq, Binary64.unsignedText, Decimal.text_eq, mantissa,
    ← DecimalSpelling.signText_append_text]
  rfl

theorem wellFormed_mantissa (negative : Bool) (x : Magnitude) :
    (x.mantissa negative).WellFormed :=
  (x.shortest.wellFormed_spelling .standard).mantissa negative

theorem value_mantissa {x : Magnitude} (h : (x.shortest.spelling .standard).exponent = none)
    (negative : Bool) : (x.mantissa negative).value = .finite negative x := by
  have hnegative : (x.mantissa negative).isNegative = negative :=
    DecimalSpelling.isNegative_mantissa negative _
  have habsolute : (x.mantissa negative).absolute = x.shortest.value := by
    rw [mantissa, DecimalSpelling.absolute_mantissa h, Decimal.value_spelling]
  have hvalue : (x.mantissa negative).value = .finite (x.mantissa negative).isNegative x := by
    rw [NumberLiteral.value_eq_finite_iff, habsolute]
    exact x.value_shortest_mem
  rwa [hnegative] at hvalue

end Magnitude

namespace Reading

variable {isDeep : Prop} {settings : Settings} {constants : Constants} {rest : Text}

theorem answers_point : Answers isDeep (value settings constants) ['.'] rest
    (.error (.unexpectedCharacter '.')) := by
  have habsent : Insignificant.IsAbsent ('.' :: rest) :=
    Insignificant.isAbsent_cons _ (by decide) (by decide) (by decide)
  rw [value, valueWith_eq]
  refine (takes_skip (Gap.isInner_nil.mayPrecede _) habsent).bind_nil_answers ?_
  exact (takes_next? _).bind_nil_answers (answers_fail _)

theorem answers_signed_point (hrest : Text.EndsRun Text.isDigit rest) :
    Answers isDeep (value settings constants) ['-', '.'] rest (.error .invalidNumber) := by
  have hnumber : Answers isDeep (number settings.fractionRequired) ['-', '.'] rest
      (.error .invalidNumber) := by
    have hsign : Takes sign (Sign.text .minus) (['.'] ++ rest) .minus :=
      takes_sign (List.cons_ne_nil _ _) rfl
    have hdigits : Takes digits [] (['.'] ++ rest) [] :=
      takes_run (by simp) (Text.endsRun_cons (by decide))
    have hfraction : Takes digits [] rest [] := takes_run (by simp) hrest
    unfold number
    refine hsign.bind_answers (hdigits.bind_nil_answers ?_)
    refine (takes_next? _).bind_nil_answers ?_
    change Answers isDeep _ (['.'] ++ []) rest _
    rw [if_pos (by rfl)]
    refine (takes_advance ['.'] _).bind_answers (hfraction.bind_nil_answers ?_)
    rw [if_pos (.inl rfl)]
    exact answers_fail _
  exact answers_valueWith Gap.isInner_nil rfl (by decide) hnumber

theorem bindsNothing_sign {c : Char} (hc : c = '+' ∨ c = '-') (rest : Text) :
    BindsNothing (c :: rest) := by
  have habsent : Insignificant.IsAbsent (c :: rest) := by
    rcases hc with rfl | rfl <;>
      exact Insignificant.isAbsent_cons _ (by decide) (by decide) (by decide)
  have hcolon : (c :: rest).head? ≠ some ':' := by
    rcases hc with rfl | rfl <;> simp
  exact bindsNothing_text_append (Gap.isInner_nil.mayPrecede _) habsent hcolon

end Reading

namespace SessionReading

open Reading Document

variable {settings : Settings} {session : Session} {last : Value} {cause : Cause}

def RefusesItem (settings : Settings) (last : Value) (session : Session) (cause : Cause) : Prop :=
  ∃ cursor : Cursor, item settings last session =
    .error (.located cause cursor.position) ⟨cursor, session.constants⟩

theorem refusesItem_of_answers {text rest : Text}
    (hname : Text.EndsRun Text.isNameLetter (text ++ rest))
    (hanswer : Answers False (Reading.value settings session.constants) text rest (.error cause))
    (hrest : session.cursor.rest = text ++ rest) : RefusesItem settings last session cause := by
  have hempty : name session.cursor = .ok [] (session.cursor.advance 0) :=
    takes_run (by simp) hname session.cursor hrest
  have hnone : declaration? settings session.constants session.cursor =
      .ok none session.cursor := by
    rw [declaration?_eq, bind_of_ok hempty, Cursor.advance_zero]
    rfl
  have hstep : item settings last session = ofReading (Reading.value settings) session := by
    rw [item, bind_of_ok (declaration_of_none hnone)]
    rfl
  obtain ⟨after, hread⟩ := hanswer.exists_eq_error not_false hrest
  exact ⟨after, hstep.trans (ofReading_of_error hread)⟩

theorem refusesItem_of_add_eq_error {written : Item} {rest : Text}
    (hitem : written.IsValid settings) (hstops : written.term.StopsBefore rest)
    (hlevels : written.term.levels ≤ nestingLimit + 1) (hbinds : BindsNothing rest)
    (hadd : Meaning.add ⟨last, session.constants⟩ written = .error cause)
    (hrest : session.cursor.rest = written.written ++ rest) :
    RefusesItem settings last session cause := by
  have hanswer : AnswersItem settings written last session :=
    answersItem hitem hstops hbinds hrest
  rcases hanswer with hstep | ⟨hdeep, -⟩
  · simp only [hadd] at hstep
    exact hstep
  · omega

theorem refusesItem_exponent {cursor : Cursor} {c : Char} {rest : Text} (hc : c = '+' ∨ c = '-')
    (hrest : cursor.rest = 'e' :: c :: rest) :
    RefusesItem settings last ⟨cursor, []⟩ (.unknownName ['e']) := by
  have hname : (Item.value (.reference ['e'])).IsValid settings :=
    ⟨by simp, by simp [Text.isNameLetter]⟩
  have hends : Text.EndsRun Text.isNameLetter (c :: rest) := by
    rcases hc with rfl | rfl <;> exact Text.endsRun_cons (by decide)
  have hsession : (Session.mk cursor []).cursor.rest =
      (Item.value (.reference ['e'])).written ++ c :: rest := hrest
  exact refusesItem_of_add_eq_error hname hends (by decide) (bindsNothing_sign hc rest) rfl hsession

theorem items_of_refusesItem (bound : Nat)
    (habsent : Insignificant.IsAbsent session.cursor.rest) (hne : session.cursor.rest ≠ [])
    (h : RefusesItem settings last session cause) :
    ∃ cursor : Cursor, items settings (bound + 1) last session =
      .error (.located cause cursor.position) ⟨cursor, session.constants⟩ := by
  obtain ⟨cursor, hitem⟩ := h
  have hrest : session.cursor.rest = Gap.text [] ++ session.cursor.rest := rfl
  refine ⟨cursor, ?_⟩
  rw [items_behind_gap bound (Gap.isInner_nil.mayPrecede _) habsent hrest,
    if_neg (by simpa using hne), behind_nil, bind_of_error hitem]

theorem items_of_add_eq_ok {gap : Gap} {first : Item} {rest : Text} {next : Meaning} (bound : Nat)
    (hgap : gap.IsInner) (hfirst : first.IsValid settings) (hstops : first.term.StopsBefore rest)
    (hlevels : first.term.levels ≤ nestingLimit + 1) (hbinds : ¬BeginsBinding rest)
    (hadd : Meaning.add ⟨last, session.constants⟩ first = .ok next)
    (hrest : session.cursor.rest = gap.text ++ (first.written ++ rest)) :
    items settings (bound + 2) last session =
      items settings (bound + 1) next.last
        ⟨session.cursor.advance (gap.text ++ first.written).length, next.constants⟩ := by
  have hbehind : (behind session gap.text).cursor.rest = first.written ++ rest :=
    Cursor.rest_advance_append hrest
  have hadd : Meaning.add ⟨last, (behind session gap.text).constants⟩ first = .ok next := hadd
  rw [items_in_front _ hgap hfirst hrest,
    item_bind_items bound hfirst hstops hlevels hbinds hadd hbehind, ← Cursor.advance_append]
  rfl

end SessionReading

namespace Binary64

/-- Zeros and the numbers that are printed without an exponent. -/
def IsPositional : Binary64 → Prop
  | .nan => False
  | .infinity _ => False
  | .finite _ x => x.rational = 0 ∨ 1 / 10 ^ 4 ≤ x.rational ∧ x.rational < 10 ^ 16

/-- Why a printed number is refused that is printed in any other form. -/
def refusal : Binary64 → Cause
  | .nan => .unexpectedCharacter '.'
  | .infinity false => .unexpectedCharacter '.'
  | .infinity true => .invalidNumber
  | .finite _ _ => .unknownName ['e']

end Binary64

namespace Document

open Reading SessionReading

variable {settings : Settings} {gap : Gap} {rest : Text} {cause : Cause}

theorem readDocument_of_answers {constants : Constants} {text : Text} (hgap : gap.IsInner)
    (habsent : Insignificant.IsAbsent (text ++ rest)) (hne : text ≠ [])
    (hname : Text.EndsRun Text.isNameLetter (text ++ rest))
    (hanswer : Answers False (Reading.value settings constants) text rest (.error cause)) :
    ∃ cursor : Cursor, readDocument settings constants (gap.text ++ (text ++ rest)) =
      .error (.located cause cursor.position) ⟨cursor, constants⟩ := by
  have hrest : (Session.start (gap.text ++ (text ++ rest)) constants).cursor.rest =
      gap.text ++ (text ++ rest) := rfl
  have hmoved : (behind (.start (gap.text ++ (text ++ rest)) constants) gap.text).cursor.rest =
      text ++ rest := Cursor.rest_advance_append hrest
  rw [readDocument_eq_items, items_behind_inner _ hgap hrest]
  exact items_of_refusesItem _ (hmoved.symm ▸ habsent) (by simp [hmoved, hne])
    (refusesItem_of_answers hname hanswer hmoved)

theorem readDocument_point (hgap : gap.IsInner) (rest : Text) :
    ∃ cursor : Cursor, readDocument settings [] (gap.text ++ (['.'] ++ rest)) =
      .error (.located (.unexpectedCharacter '.') cursor.position) ⟨cursor, []⟩ :=
  readDocument_of_answers hgap (Insignificant.isAbsent_cons _ (by decide) (by decide) (by decide))
    (List.cons_ne_nil _ _) (Text.endsRun_cons (by decide)) answers_point

theorem readDocument_signed_point (hgap : gap.IsInner) (hrest : Text.EndsRun Text.isDigit rest) :
    ∃ cursor : Cursor, readDocument settings [] (gap.text ++ (['-', '.'] ++ rest)) =
      .error (.located .invalidNumber cursor.position) ⟨cursor, []⟩ :=
  readDocument_of_answers hgap (Insignificant.isAbsent_cons _ (by decide) (by decide) (by decide))
    (List.cons_ne_nil _ _) (Text.endsRun_cons (by decide)) (answers_signed_point hrest)

theorem readDocument_exponent {literal : NumberLiteral} (hgap : gap.IsInner)
    (hwell : literal.WellFormed) (hfraction : literal.fraction ≠ none) {c : Char}
    (hc : c = '+' ∨ c = '-') :
    ∃ cursor : Cursor, readDocument settings [] (gap.text ++ (literal.text ++ 'e' :: c :: rest)) =
      .error (.located (.unknownName ['e']) cursor.position) ⟨cursor, []⟩ := by
  -- The literal is an item of its own, and the next item begins with the name.
  have hliteral : (Item.value (.number literal)).IsValid settings := ⟨hwell, fun _ => hfraction⟩
  have hstops : (Term.number literal).StopsBefore ('e' :: c :: rest) :=
    ⟨Text.endsRun_cons (by decide), fun hnone => absurd hnone hfraction⟩
  have hlevels : Term.levels (.number literal) ≤ nestingLimit + 1 := by
    simp [Term.levels, nestingLimit]
  have habsent : Insignificant.IsAbsent ('e' :: c :: rest) :=
    Insignificant.isAbsent_cons _ (by decide) (by decide) (by decide)
  have hbinds : ¬BeginsBinding ('e' :: c :: rest) :=
    (bindsNothing_text_append (Gap.isInner_nil.mayPrecede _) habsent (by simp)).not_beginsBinding
  have hadd : Meaning.add ⟨.null, []⟩ (.value (.number literal)) =
      .ok ⟨.number literal.value, []⟩ := rfl
  let text : Text := gap.text ++ (literal.text ++ 'e' :: c :: rest)
  have hstart : (Session.start text []).cursor.rest = text := rfl
  have hmoved : ((Cursor.start text).advance (gap.text ++ literal.text).length).rest =
      'e' :: c :: rest := Cursor.rest_advance_append (by simp [Cursor.start, text])
  obtain ⟨bound, hbound⟩ : ∃ bound, text.length = bound + 1 :=
    Nat.exists_eq_add_one_of_ne_zero (by simp [text])
  obtain ⟨cursor, hread⟩ := items_of_refusesItem bound (hmoved.symm ▸ habsent)
    (hmoved.symm ▸ List.cons_ne_nil _ _) (refusesItem_exponent hc hmoved)
  refine ⟨cursor, ?_⟩
  rw [readDocument_eq_items, hbound,
    items_of_add_eq_ok bound hgap hliteral hstops hlevels hbinds hadd hstart]
  exact hread

theorem readDocument_positional (hgap : gap.IsInner) {x : Magnitude} (negative : Bool)
    (h : (x.shortest.spelling .standard).exponent = none) :
    readDocument settings [] (gap.text ++ ((Binary64.finite negative x).text ++ ['\n'])) =
      .ok (.number (.finite negative x))
        ⟨(Cursor.start (gap.text ++ ((Binary64.finite negative x).text ++ ['\n']))).advance
          (gap.text ++ ((Binary64.finite negative x).text ++ ['\n'])).length, []⟩ := by
  have hterm : (Term.number (x.mantissa negative)).IsValid settings :=
    ⟨x.wellFormed_mantissa negative, fun _ => Option.some_ne_none _⟩
  have hending : Gap.IsValid [.blank '\n'] := ⟨Text.isBlank_newline, trivial⟩
  have hvalue : (Term.number (x.mantissa negative)).value [] =
      .ok (.number (.finite negative x)) := by
    rw [Term.value, Magnitude.value_mantissa h]
  have htext : (Binary64.finite negative x).text ++ ['\n'] =
      (Term.number (x.mantissa negative)).written ++ Gap.text [.blank '\n'] := by
    rw [Magnitude.text_finite, h, DecimalSpelling.exponentText, List.append_nil]
    rfl
  rw [htext]
  exact readDocument_value hgap hterm hending (Nat.zero_le _) hvalue

/-- A printed number is read as itself if it is printed without an exponent, and refused
otherwise. -/
theorem readDocument_number (settings : Settings) (x : Binary64) (level : Int) :
    (x.IsPositional → readDocument settings [] (Block.text (.number x) level) =
      .ok (.number x) ⟨(Cursor.start (Block.text (.number x) level)).advance
        (Block.text (.number x) level).length, []⟩) ∧
    (¬x.IsPositional → ∃ cursor : Cursor,
      readDocument settings [] (Block.text (.number x) level) =
        .error (.located x.refusal cursor.position) ⟨cursor, []⟩) := by
  have hgap := Gap.isInner_spaces level.toNat
  have htext : Block.text (.number x) level =
      (Gap.spaces level.toNat).text ++ (x.text ++ ['\n']) := by
    rw [Block.text_eq_render_of_level, Gap.text_spaces, ← List.append_assoc]
    rfl
  rw [htext]
  cases x with
  | nan =>
      have hpoint : Binary64.nan.text ++ ['\n'] = ['.'] ++ "nan\n".toList := rfl
      rw [hpoint]
      exact ⟨False.elim, fun _ => readDocument_point hgap _⟩
  | infinity negative =>
      refine ⟨False.elim, fun _ => ?_⟩
      cases negative with
      | false =>
          have hpoint : (Binary64.infinity false).text ++ ['\n'] = ['.'] ++ "inf\n".toList := rfl
          rw [hpoint]
          exact readDocument_point hgap _
      | true =>
          have hpoint : (Binary64.infinity true).text ++ ['\n'] =
              ['-', '.'] ++ "inf\n".toList := rfl
          rw [hpoint]
          exact readDocument_signed_point hgap (Text.endsRun_cons (by decide))
  | finite negative x =>
      have hform : (Binary64.finite negative x).IsPositional ↔
          (x.shortest.spelling .standard).exponent = none := x.exponent_shortest_eq_none_iff.symm
      rw [hform]
      refine ⟨readDocument_positional hgap negative, fun hsome => ?_⟩
      obtain ⟨exponent, hexponent⟩ := Option.ne_none_iff_exists'.mp hsome
      rw [Magnitude.text_finite, hexponent, List.append_assoc]
      refine readDocument_exponent hgap (x.wellFormed_mantissa negative) (Option.some_ne_none _) ?_
      split
      · exact .inr rfl
      · exact .inl rfl

/-- The ends of the range: the number nearest to `-10 ^ (-4)` is read back, and `10 ^ 16` is
refused. -/
theorem readDocument_number_ends :
    (∃ after, readDocument {} [] (Block.text (.number (.finite true .tenThousandth)) 2) =
      .ok (.number (.finite true .tenThousandth)) after) ∧
    ∃ cursor : Cursor, readDocument {} [] (Block.text (.number (.finite false .tenQuadrillion)) 0) =
      .error (.located (.unknownName ['e']) cursor.position) ⟨cursor, []⟩ := by
  have hleast : (Binary64.finite true .tenThousandth).IsPositional :=
    (Magnitude.exponent_shortest_eq_none_iff _).mp (by decide +kernel)
  have habove : ¬(Binary64.finite false .tenQuadrillion).IsPositional :=
    mt (Magnitude.exponent_shortest_eq_none_iff _).mpr (by decide +kernel)
  exact ⟨⟨_, (readDocument_number {} _ 2).1 hleast⟩, (readDocument_number {} _ 0).2 habove⟩

end Document

end ConfTree
