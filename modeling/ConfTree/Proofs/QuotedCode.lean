import ConfTree.Proofs.ScalarLine

namespace ConfTree

namespace Text

def lastBackslashes (text : Text) : Nat :=
  (text.reverse.takeWhile (· = '\\')).length

theorem lastBackslashes_concat (text : Text) (c : Char) :
    lastBackslashes (text ++ [c]) = if c = '\\' then lastBackslashes text + 1 else 0 := by
  by_cases hc : c = '\\'
  · simp [lastBackslashes, hc]
  · simp [lastBackslashes, hc]

theorem even_lastBackslashes_escapeCharacter {front : Text} (hfront : Even (lastBackslashes front))
    (c : Char) : Even (lastBackslashes (front ++ escapeCharacter c)) := by
  rw [escapeCharacter]
  split
  · rw [List.append_cons, lastBackslashes_concat, lastBackslashes_concat]
    exact hfront.add_one.add_one
  split
  · rw [List.append_cons, lastBackslashes_concat]
    exact Even.zero
  · rename_i hbackslash _
    rw [lastBackslashes_concat, if_neg hbackslash]
    exact Even.zero

theorem even_lastBackslashes_escape {front : Text} (hfront : Even (lastBackslashes front))
    (content : Text) : Even (lastBackslashes (front ++ escape content)) := by
  induction content generalizing front with
  | nil => simpa [escape_eq] using hfront
  | cons c content ih =>
      rw [escape_cons, ← List.append_assoc]
      exact ih (even_lastBackslashes_escapeCharacter hfront c)

theorem eq_of_escapeCharacter_eq {c : Char} {before behind : Text}
    (h : escapeCharacter c = before ++ '"' :: behind) : before = ['\\'] := by
  rw [escapeCharacter] at h
  split at h
  · have hmem : '"' ∈ ['\\', '\\'] := by simp [h]
    exact absurd hmem (by decide)
  split at h
  · rcases before with - | ⟨d, - | ⟨e, before⟩⟩
    · simp at h
    · obtain ⟨rfl, -⟩ : '\\' = d ∧ behind = [] := by simpa using h
      rfl
    · simp at h
  · rename_i hquote
    rcases before with - | ⟨d, before⟩
    · exact absurd (List.cons.inj h).1 hquote
    · simp at h

theorem odd_lastBackslashes_of_escape {front content before behind : Text}
    (hfront : Even (lastBackslashes front)) (h : escape content = before ++ '"' :: behind) :
    Odd (lastBackslashes (front ++ before)) := by
  -- On the text: the quote stands in the escape of its first character or behind that.
  induction content generalizing front before with
  | nil => simp [escape_eq] at h
  | cons c content ih =>
      have hnext := even_lastBackslashes_escapeCharacter hfront c
      rw [escape_cons] at h
      rcases List.append_eq_append_iff.mp h with ⟨more, rfl, hmore⟩ | ⟨first, hfirst, hrest⟩
      · rw [← List.append_assoc]
        exact ih hnext hmore
      · cases first with
        | nil =>
            rw [List.append_nil] at hfirst
            have hstart : escape content = [] ++ '"' :: behind := hrest.symm
            have hodd := ih hnext hstart
            rwa [List.append_nil, hfirst] at hodd
        | cons d first =>
            obtain ⟨rfl, -⟩ := List.cons.inj hrest
            rw [eq_of_escapeCharacter_eq hfirst, lastBackslashes_concat, if_pos rfl]
            exact hfront.add_one

end Text

namespace Scalar

/-- The text of a quoted scalar is one pass over its characters between two quotes, the last of
which is the first with an even number of backslashes before it.  Undoing the escapes up to there
gives the scalar and whatever stands behind, so what is written of two scalars with anything behind
them is the same only if the scalars and what stands behind them are. -/
theorem quoted_self_delimiting (content other rest otherRest : Text) :
    (text content).blockText = '"' :: Text.replaceEach '"' ['\\', '"']
      (Text.replaceEach '\\' ['\\', '\\'] content) ++ ['"'] ∧
    Text.replaceEach '"' ['\\', '"'] (Text.replaceEach '\\' ['\\', '\\'] content) =
      content.flatMap Text.escapeCharacter ∧
    (Even (Text.lastBackslashes (content.flatMap Text.escapeCharacter)) ∧
      ∀ before behind, content.flatMap Text.escapeCharacter = before ++ '"' :: behind →
        Odd (Text.lastBackslashes before)) ∧
    (∃ behind, (text content).blockText ++ rest = '"' :: behind ∧
      Text.unescape behind = some (content, rest)) ∧
    ((text content).blockText ++ rest = (text other).blockText ++ otherRest ↔
      content = other ∧ rest = otherRest) := by
  refine ⟨rfl, Text.escape_eq content, ?_, ?_, fun h => Text.eq_of_quoted_append_eq h, ?_⟩
  · rw [← Text.escape_eq]
    have hempty : Even (Text.lastBackslashes []) := Even.zero
    exact ⟨Text.even_lastBackslashes_escape hempty content,
      fun _ _ => Text.odd_lastBackslashes_of_escape hempty⟩
  · exact ⟨_, Text.quoted_append content rest, Text.unescape_escape_append content rest⟩
  · rintro ⟨rfl, rfl⟩
    rfl

theorem quoted_self_delimiting_backslash_quote :
    Odd (Text.lastBackslashes ['\\', '\\', '\\']) ∧
      ∃ behind, (text ['\\', '"']).blockText ++ ['"'] = '"' :: behind ∧
        Text.unescape behind = some (['\\', '"'], ['"']) := by
  obtain ⟨-, -, ⟨-, hquote⟩, hunescape, -⟩ := quoted_self_delimiting ['\\', '"'] [] ['"'] []
  exact ⟨hquote ['\\', '\\', '\\'] [] rfl, hunescape⟩

/-- The other way round, the backslash put before a quote would be doubled. -/
example : Text.replaceEach '\\' ['\\', '\\'] (Text.replaceEach '"' ['\\', '"'] ['"']) =
    ['\\', '\\', '"'] := by decide

end Scalar

end ConfTree
