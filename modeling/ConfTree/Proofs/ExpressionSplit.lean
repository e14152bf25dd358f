import ConfTree.Proofs.ExpressionLoop

namespace ConfTree.Reading

open Evaluation

variable {α : Type} {constants : Constants} {cause : ExpressionError}

/-- A reading is refused with a wording, and the cursor is left where the refusal is located. -/
def IsRefused (outcome : EStateM.Result ReadError Cursor α) (wording : Text) (stop : Cursor) :
    Prop :=
  ∃ error : ReadError, outcome = .error error stop ∧ error.message = wording ∧
    error.position? = some stop.position

theorem Settles.isRefused {reading : Reading α} {text : Text} {count : Nat} {cause : Cause}
    (h : reading.Settles text count (.error (.refused cause))) {cursor : Cursor}
    (hcursor : cursor.rest = text) :
    IsRefused (reading cursor) cause.message (cursor.advance count) :=
  ⟨.located cause (cursor.advance count).position, h cursor hcursor, rfl, rfl⟩

def StandsOnWordEnd (cursor : Cursor) : Prop :=
  ∃ delimiter ∈ cursor.rest.head?, isWordEnd delimiter = true

theorem refused_at_place {cursor : Cursor} {region tail : Text} (place : WordPlace region)
    (hrest : cursor.rest = '|' :: (region ++ tail)) (hbar : '|' ∉ region)
    (hfirst : place.IsFirstRefused constants [] cause)
    (htail : ∃ delimiter more, place.behind ++ tail = delimiter :: more ∧
      isWordEnd delimiter = true) :
    StandsOnWordEnd (cursor.advance (place.stop + 1)) ∧
      IsRefused (expression constants cursor) cause.message (cursor.advance (place.stop + 1)) := by
  constructor
  · obtain ⟨delimiter, more, hbehind, hdelimiter⟩ := htail
    have hsplit : cursor.rest = ('|' :: (place.before ++ place.word)) ++ delimiter :: more := by
      calc cursor.rest = '|' :: ((place.before ++ place.word ++ place.behind) ++ tail) := by
            rw [hrest, ← place.text_eq]
        _ = ('|' :: (place.before ++ place.word)) ++ delimiter :: more := by
            rw [List.append_assoc, hbehind, List.cons_append]
    have hstop : (cursor.advance (place.stop + 1)).rest = delimiter :: more :=
      Cursor.rest_advance_append hsplit
    exact ⟨delimiter, by rw [hstop]; rfl, hdelimiter⟩
  · exact (wordsSettle_refused hbar place hfirst htail).expression.isRefused hrest

/-- The body of an expression is split at blanks, and its words are fed to an empty stack.  The
first refused word is refused at the delimiter behind it; else the bar behind the body is taken, and
one value has to be left.  Where no bar follows, the words with a blank behind them are fed in the
same way, and if none of them is refused, the expression is refused at the end of the text. -/
theorem expression_splits (constants : Constants) {cursor : Cursor} {text : Text}
    (hbar : cursor.rest = '|' :: text) :
    (∀ body behind, text = body ++ '|' :: behind → '|' ∉ body →
      match feedAll constants (Term.wordsOf body) [] with
      | .ok _ [value] =>
          expression constants cursor = .ok value (cursor.advance (body.length + 2))
      | .ok _ stack =>
          IsRefused (expression constants cursor)
            ("malformed constant expression: ".toList ++ Text.decimal stack.length ++
              " items on stack".toList)
            (cursor.advance (body.length + 2))
      | .error cause _ =>
          ∃ place : WordPlace body, place.IsFirstRefused constants [] cause ∧
            StandsOnWordEnd (cursor.advance (place.stop + 1)) ∧
            IsRefused (expression constants cursor) cause.message
              (cursor.advance (place.stop + 1))) ∧
    ('|' ∉ text →
      match feedAll constants (Term.wordsOf text.upToLastBlank) [] with
      | .ok _ _ =>
          (cursor.advance (text.length + 1)).rest = [] ∧
            IsRefused (expression constants cursor) "unterminated constant expression".toList
              (cursor.advance (text.length + 1))
      | .error cause _ =>
          ∃ place : WordPlace text.upToLastBlank, place.IsFirstRefused constants [] cause ∧
            StandsOnWordEnd (cursor.advance (place.stop + 1)) ∧
            IsRefused (expression constants cursor) cause.message
              (cursor.advance (place.stop + 1))) := by
  constructor
  · rintro body behind rfl hbody
    cases hfeed : feedAll constants (Term.wordsOf body) [] with
    | ok _ stack =>
        have hclosed := (wordsSettle_closed behind hbody hfeed).expression
        match stack with
        | [] => exact hclosed.isRefused hbar
        | [value] => exact hclosed cursor hbar
        | _ :: _ :: _ => exact hclosed.isRefused hbar
    | error cause left =>
        obtain ⟨place, hfirst⟩ := exists_isFirstRefused hfeed
        exact ⟨place, hfirst,
          refused_at_place place hbar hbody hfirst (exists_wordEnd_behind place behind)⟩
  · intro hopen
    cases hfeed : feedAll constants (Term.wordsOf text.upToLastBlank) [] with
    | ok _ stack =>
        refine ⟨?_, (wordsSettle_unclosed hopen hfeed).expression.isRefused hbar⟩
        rw [Cursor.rest_advance, hbar, List.drop_succ_cons, List.drop_length]
    | error cause left =>
        obtain ⟨place, hfirst⟩ := exists_isFirstRefused hfeed
        obtain ⟨word, -, hsplit⟩ := text.exists_upToLastBlank_append
        have hrest : cursor.rest = '|' :: (text.upToLastBlank ++ word) := by rw [hbar, hsplit]
        have hregion : '|' ∉ text.upToLastBlank := fun hmem =>
          hopen (hsplit ▸ List.mem_append_left word hmem)
        exact ⟨place, hfirst, refused_at_place place hrest hregion hfirst
          (exists_wordEnd_behind_of_upToLastBlank place word)⟩

/-- A comment marker is a word like any other: in `|@"a" REM|` it is refused at the bar. -/
theorem expression_splits_marker :
    (Cursor.start "|@\"a\" REM|".toList).rest = '|' :: "@\"a\" REM|".toList ∧
      '|' ∉ "@\"a\" REM".toList ∧
      ∃ place : WordPlace "@\"a\" REM".toList,
        place.IsFirstRefused [] [] (.unknownWord "REM".toList) ∧
        StandsOnWordEnd ((Cursor.start "|@\"a\" REM|".toList).advance (place.stop + 1)) ∧
        IsRefused (expression [] (.start "|@\"a\" REM|".toList))
          "unknown token in constant expression: REM".toList
          ((Cursor.start "|@\"a\" REM|".toList).advance (place.stop + 1)) :=
  ⟨rfl, by decide, (@expression_splits [] (.start "|@\"a\" REM|".toList) _ rfl).1
    "@\"a\" REM".toList [] rfl (by decide)⟩

end ConfTree.Reading
