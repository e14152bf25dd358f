import ConfTree.Block.ScalarText
import ConfTree.Proofs.PrintedNumber

namespace ConfTree

namespace Text

theorem replaceEach_cons (target : Char) (replacement : Text) (c : Char) (text : Text) :
    replaceEach target replacement (c :: text) =
      (if c = target then replacement else [c]) ++ replaceEach target replacement text :=
  List.flatMap_cons

theorem replaceEach_of_notMem {target : Char} {replacement text : Text} (h : target ∉ text) :
    replaceEach target replacement text = text := by
  induction text with
  | nil => rfl
  | cons c text ih =>
      obtain ⟨hc, htext⟩ : target ≠ c ∧ target ∉ text := by simpa using h
      rw [replaceEach_cons, if_neg (Ne.symm hc), ih htext]
      rfl

theorem notMem_replaceEach {target c : Char} {replacement text : Text}
    (hreplacement : c ∉ replacement) (htext : c ∉ text) :
    c ∉ replaceEach target replacement text := by
  induction text with
  | nil => exact htext
  | cons d text ih =>
      obtain ⟨hd, htext⟩ : c ≠ d ∧ c ∉ text := by simpa using htext
      rw [replaceEach_cons, List.mem_append, not_or]
      refine ⟨?_, ih htext⟩
      split
      · exact hreplacement
      · simpa using hd

def escapeCharacter (c : Char) : Text :=
  if c = '\\' then ['\\', '\\'] else if c = '"' then ['\\', '"'] else [c]

theorem escape_eq (text : Text) : escape text = text.flatMap escapeCharacter := by
  rw [escape, replaceEach, replaceEach, List.flatMap_assoc]
  congr 1
  funext c
  by_cases hbackslash : c = '\\'
  · subst hbackslash
    rfl
  · by_cases hquote : c = '"'
    · subst hquote
      rfl
    · simp [escapeCharacter, hbackslash, hquote]

theorem escape_cons (c : Char) (text : Text) :
    escape (c :: text) = escapeCharacter c ++ escape text := by
  rw [escape_eq, escape_eq, List.flatMap_cons]

theorem escapeCharacter_of_ne {c : Char} (hbackslash : c ≠ '\\') (hquote : c ≠ '"') :
    escapeCharacter c = [c] := by
  rw [escapeCharacter, if_neg hbackslash, if_neg hquote]

/-- What stands before the first quote that is not escaped, with the escapes undone, and what stands
behind it. -/
def unescape : Text → Option (Text × Text)
  | [] => none
  | '"' :: rest => some ([], rest)
  | '\\' :: c :: rest => (unescape rest).map fun found => (c :: found.1, found.2)
  | c :: rest => (unescape rest).map fun found => (c :: found.1, found.2)

theorem unescape_escapeCharacter_append (c : Char) (rest : Text) :
    unescape (escapeCharacter c ++ rest) =
      (unescape rest).map fun found => (c :: found.1, found.2) := by
  by_cases hbackslash : c = '\\'
  · subst hbackslash
    rfl
  · by_cases hquote : c = '"'
    · subst hquote
      rfl
    · rw [escapeCharacter_of_ne hbackslash hquote, List.singleton_append, unescape]
      · exact hquote
      · intro d tail hcontinues
        exact absurd hcontinues hbackslash

theorem unescape_escape_append (text rest : Text) :
    unescape (escape text ++ '"' :: rest) = some (text, rest) := by
  induction text with
  | nil => rfl
  | cons c text ih =>
      rw [escape_cons, List.append_assoc, unescape_escapeCharacter_append, ih]
      rfl

theorem quoted_append (text rest : Text) :
    text.quoted ++ rest = '"' :: (escape text ++ '"' :: rest) := by
  simp [quoted]

theorem eq_of_quoted_append_eq {text other rest otherRest : Text}
    (h : text.quoted ++ rest = other.quoted ++ otherRest) : text = other ∧ rest = otherRest := by
  rw [quoted_append, quoted_append] at h
  have hunescape := congrArg unescape (List.cons.inj h).2
  rw [unescape_escape_append, unescape_escape_append] at hunescape
  simpa using hunescape

end Text

namespace Binary64

def isNumberStart (c : Char) : Bool :=
  Text.isDigit c || c = '-' || c = '.'

theorem exists_cons_of_text (x : Binary64) :
    ∃ c rest, x.text = c :: rest ∧ isNumberStart c = true := by
  cases x with
  | nan => exact ⟨'.', _, rfl, by decide⟩
  | infinity negative =>
      cases negative with
      | false => exact ⟨'.', _, rfl, by decide⟩
      | true => exact ⟨'-', _, rfl, by decide⟩
  | finite negative magnitude =>
      cases negative with
      | false =>
          obtain ⟨c, rest, htext, hc⟩ := magnitude.shortest.exists_cons_of_text .standard
          exact ⟨c, rest, htext, by simp [isNumberStart, hc]⟩
      | true => exact ⟨'-', _, rfl, by decide⟩

end Binary64

namespace Scalar

/-- The class of the first character of a scalar: each kind of scalar has its own. -/
def isStart : Scalar → Char → Bool
  | .null => fun c => c = 'n'
  | .number _ => Binary64.isNumberStart
  | .text _ => fun c => c = '"'

theorem exists_cons_of_blockText (scalar : Scalar) :
    ∃ c rest, scalar.blockText = c :: rest ∧ scalar.isStart c = true := by
  cases scalar with
  | null => exact ⟨'n', _, rfl, rfl⟩
  | number x => exact x.exists_cons_of_text
  | text content => exact ⟨'"', _, rfl, rfl⟩

theorem eq_of_blockText_append_eq {first second : Scalar} {rest otherRest : Text}
    (h : first.blockText ++ '\n' :: rest = second.blockText ++ '\n' :: otherRest) :
    first = second ∧ rest = otherRest := by
  obtain ⟨c, tail, hfirst, hc⟩ := first.exists_cons_of_blockText
  obtain ⟨d, otherTail, hsecond, hd⟩ := second.exists_cons_of_blockText
  have hcd : c = d := by
    rw [hfirst, hsecond] at h
    exact (List.cons.inj h).1
  subst hcd
  have hletter : Binary64.isNumberStart 'n' = false := by decide
  have hquote : Binary64.isNumberStart '"' = false := by decide
  cases first with
  | null =>
      have hc : c = 'n' := by simpa [isStart] using hc
      subst hc
      cases second with
      | null => exact ⟨rfl, (List.cons.inj (List.append_cancel_left h)).2⟩
      | number y => simp [isStart, hletter] at hd
      | text content => simp [isStart] at hd
  | number x =>
      cases second with
      | null =>
          have hd : c = 'n' := by simpa [isStart] using hd
          simp [isStart, hd, hletter] at hc
      | number y =>
          have hnewline : Binary64.isNumberCharacter '\n' = false := by decide
          obtain ⟨htext, hrest⟩ := Text.eq_of_run_append_eq
            (fun _ => Binary64.isNumberCharacter_of_mem_text)
            (fun _ => Binary64.isNumberCharacter_of_mem_text) (Text.endsRun_cons hnewline)
            (Text.endsRun_cons hnewline) h
          exact ⟨congrArg number (Binary64.eq_of_text_eq htext), (List.cons.inj hrest).2⟩
      | text content =>
          have hd : c = '"' := by simpa [isStart] using hd
          simp [isStart, hd, hquote] at hc
  | text content =>
      have hc : c = '"' := by simpa [isStart] using hc
      subst hc
      cases second with
      | null => simp [isStart] at hd
      | number y => simp [isStart, hquote] at hd
      | text other =>
          obtain ⟨rfl, hrest⟩ := Text.eq_of_quoted_append_eq h
          exact ⟨rfl, (List.cons.inj hrest).2⟩

end Scalar

end ConfTree
