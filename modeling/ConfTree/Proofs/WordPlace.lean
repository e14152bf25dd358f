import ConfTree.Proofs.PostfixEvaluation
import ConfTree.Proofs.TextRun
import ConfTree.Source.Syntax
import Mathlib.Data.List.DropRight

namespace ConfTree

namespace Text

/-- A text is a word without blanks, or such a word and a further text with a blank between them. -/
theorem wordInduction {motive : Text → Prop}
    (single : ∀ word, (∀ c ∈ word, isBlank c = false) → motive word)
    (cons : ∀ word blank further, (∀ c ∈ word, isBlank c = false) → isBlank blank = true →
      motive further → motive (word ++ blank :: further))
    (text : Text) : motive text := by
  have hsplit : text.takeWhile (fun c => !isBlank c) ++ text.dropWhile (fun c => !isBlank c) =
      text := List.takeWhile_append_dropWhile
  have hword : ∀ c ∈ text.takeWhile (fun c => !isBlank c), isBlank c = false := by
    intro c hc
    simpa using forall_mem_takeWhile c hc
  cases hdrop : text.dropWhile fun c => !isBlank c with
  | nil =>
      rw [hdrop, List.append_nil] at hsplit
      rw [← hsplit]
      exact single _ hword
  | cons blank further =>
      have hblank : isBlank blank = true := by
        simpa using endsRun_dropWhile (fun c => !isBlank c) text blank (by simp [hdrop])
      have hshorter : further.length < text.length := by
        have hlength := congrArg List.length hsplit
        rw [hdrop, List.length_append, List.length_cons] at hlength
        omega
      rw [hdrop] at hsplit
      rw [← hsplit]
      exact cons _ blank further hword hblank (wordInduction single cons further)
termination_by text.length

/-- A text up to its last blank: what holds the words that have a blank behind them. -/
def upToLastBlank (text : Text) : Text :=
  text.rdropWhile fun c => !isBlank c

theorem isBlank_of_mem_getLast?_upToLastBlank (text : Text) :
    ∀ c ∈ text.upToLastBlank.getLast?, isBlank c = true := by
  intro c hc
  obtain ⟨hne, rfl⟩ := List.mem_getLast?_eq_getLast hc
  have hlast := List.rdropWhile_last_not (fun c => !isBlank c) text hne
  rwa [Bool.not_eq_true, Bool.not_eq_false'] at hlast

theorem exists_upToLastBlank_append (text : Text) :
    ∃ word, (∀ c ∈ word, isBlank c = false) ∧ text.upToLastBlank ++ word = text := by
  refine ⟨text.rtakeWhile fun c => !isBlank c, fun c hc => ?_, ?_⟩
  · simpa using List.mem_rtakeWhile_imp hc
  · exact List.rdropWhile_append_rtakeWhile

end Text

namespace Term

theorem wordsOf_append_blank {blank : Char} (hblank : Text.isBlank blank = true)
    (first second : Text) :
    wordsOf (first ++ blank :: second) = wordsOf first ++ wordsOf second := by
  rw [wordsOf, List.splitOnP_append_cons _ _ hblank, List.filter_append]
  rfl

theorem wordsOf_append {first : Text} (hlast : ∀ c ∈ first.getLast?, Text.isBlank c = true)
    (second : Text) : wordsOf (first ++ second) = wordsOf first ++ wordsOf second := by
  cases hblank : first.getLast? with
  | none =>
      rw [List.getLast?_eq_none_iff.mp hblank]
      rfl
  | some blank =>
      obtain ⟨start, rfl⟩ := List.getLast?_eq_some_iff.mp hblank
      have hblank : Text.isBlank blank = true := hlast blank (by simp)
      have hnil : wordsOf [] = [] := rfl
      rw [List.append_assoc, List.singleton_append, wordsOf_append_blank hblank,
        wordsOf_append_blank hblank, hnil, List.append_nil]

theorem wordsOf_word {word : Text} (h : ∀ c ∈ word, Text.isBlank c = false) :
    wordsOf word = if word = [] then [] else [word] := by
  rw [wordsOf, List.splitOnP_eq_singleton h]
  by_cases hword : word = []
  · simp [hword]
  · simp [hword]

theorem infix_of_mem_wordsOf {body word : Text} (h : word ∈ wordsOf body) : word <:+: body := by
  induction body using Text.wordInduction with
  | single first hfirst =>
      rw [wordsOf_word hfirst] at h
      split at h
      · simp at h
      · exact List.mem_singleton.mp h ▸ List.infix_rfl
  | cons first blank further hfirst hblank ih =>
      rw [wordsOf_append_blank hblank, wordsOf_word hfirst] at h
      rcases List.mem_append.mp h with h | h
      · split at h
        · simp at h
        · rw [List.mem_singleton.mp h]
          exact (List.prefix_append _ _).isInfix
      · exact (ih h).trans ⟨first ++ [blank], [], by simp⟩

end Term

/-- A word of a text, with what stands before and behind it. -/
structure WordPlace (text : Text) where
  before : Text
  word : Text
  behind : Text
  text_eq : text = before ++ word ++ behind
  word_ne_nil : word ≠ []
  isBlank_of_mem_word : ∀ c ∈ word, Text.isBlank c = false
  isBlank_of_mem_before : ∀ c ∈ before.getLast?, Text.isBlank c = true
  isBlank_of_mem_behind : ∀ c ∈ behind.head?, Text.isBlank c = true

namespace WordPlace

def stop {text : Text} (place : WordPlace text) : Nat :=
  (place.before ++ place.word).length

def whole {word : Text} (hne : word ≠ []) (hword : ∀ c ∈ word, Text.isBlank c = false) :
    WordPlace word where
  before := []
  word := word
  behind := []
  text_eq := by simp
  word_ne_nil := hne
  isBlank_of_mem_word := hword
  isBlank_of_mem_before := by simp
  isBlank_of_mem_behind := by simp

def first {word : Text} {blank : Char} (further : Text) (hne : word ≠ [])
    (hword : ∀ c ∈ word, Text.isBlank c = false) (hblank : Text.isBlank blank = true) :
    WordPlace (word ++ blank :: further) where
  before := []
  word := word
  behind := blank :: further
  text_eq := by simp
  word_ne_nil := hne
  isBlank_of_mem_word := hword
  isBlank_of_mem_before := by simp
  isBlank_of_mem_behind := by simp [hblank]

def later {further : Text} (word : Text) {blank : Char} (hblank : Text.isBlank blank = true)
    (place : WordPlace further) : WordPlace (word ++ blank :: further) where
  before := word ++ blank :: place.before
  word := place.word
  behind := place.behind
  text_eq := by
    calc word ++ blank :: further
        = word ++ blank :: (place.before ++ place.word ++ place.behind) := by rw [← place.text_eq]
      _ = word ++ blank :: place.before ++ place.word ++ place.behind := by simp
  word_ne_nil := place.word_ne_nil
  isBlank_of_mem_word := place.isBlank_of_mem_word
  isBlank_of_mem_before := by
    intro c hc
    rw [List.getLast?_append_cons] at hc
    cases hbefore : place.before with
    | nil =>
        obtain rfl : blank = c := by simpa [hbefore] using hc
        exact hblank
    | cons d before =>
        rw [hbefore, List.getLast?_cons_cons, ← hbefore] at hc
        exact place.isBlank_of_mem_before c hc
  isBlank_of_mem_behind := place.isBlank_of_mem_behind

theorem exists_behind_of_upToLastBlank {text : Text} (place : WordPlace text.upToLastBlank) :
    ∃ blank more, place.behind = blank :: more ∧ Text.isBlank blank = true := by
  cases hbehind : place.behind with
  | nil =>
      have hend : text.upToLastBlank = place.before ++ place.word := by
        rw [← List.append_nil (place.before ++ place.word), ← hbehind, ← place.text_eq]
      have hlast : text.upToLastBlank.getLast? = some (place.word.getLast place.word_ne_nil) := by
        calc text.upToLastBlank.getLast? = (place.before ++ place.word).getLast? := by rw [← hend]
          _ = some (place.word.getLast place.word_ne_nil) := by
              rw [List.getLast?_append_of_ne_nil _ place.word_ne_nil,
                List.getLast?_eq_getLast_of_ne_nil]
      have hblank := text.isBlank_of_mem_getLast?_upToLastBlank _ hlast
      rw [place.isBlank_of_mem_word _ (List.getLast_mem place.word_ne_nil)] at hblank
      cases hblank
  | cons blank more =>
      exact ⟨blank, more, rfl, place.isBlank_of_mem_behind blank (by simp [hbehind])⟩

/-- The words before a place are fed to a stack, and the word there is refused. -/
def IsFirstRefused (constants : Constants) {text : Text} (place : WordPlace text)
    (stack : OperandStack) (cause : ExpressionError) : Prop :=
  ∃ reached left, Evaluation.feedAll constants (Term.wordsOf place.before) stack = .ok () reached ∧
    Evaluation.feed constants place.word reached = .error cause left

end WordPlace

namespace Evaluation

variable {constants : Constants} {stack after : OperandStack} {cause : ExpressionError}

theorem feedAll_wordsOf_word {word : Text} (h : ∀ c ∈ word, Text.isBlank c = false) :
    feedAll constants (Term.wordsOf word) stack = feed constants word stack := by
  rw [Term.wordsOf_word h]
  by_cases hword : word = []
  · rw [if_pos hword, hword]
    rfl
  · rw [if_neg hword]
    cases hfeed : feed constants word stack with
    | ok _ after => exact feedAll_cons_of_ok constants hfeed
    | error cause left => exact feedAll_cons_of_error constants hfeed

theorem exists_of_feedAll_append_eq_ok {first second : List Text}
    (h : feedAll constants (first ++ second) stack = .ok () after) :
    ∃ between, feedAll constants first stack = .ok () between ∧
      feedAll constants second between = .ok () after := by
  cases hfirst : feedAll constants first stack with
  | ok _ between =>
      rw [feedAll_append_of_ok constants hfirst] at h
      exact ⟨between, rfl, h⟩
  | error cause left =>
      rw [feedAll_append_of_error constants hfirst] at h
      cases h

theorem exists_isFirstRefused {text : Text}
    (h : feedAll constants (Term.wordsOf text) stack = .error cause after) :
    ∃ place : WordPlace text, place.IsFirstRefused constants stack cause := by
  have hne : ∀ {word : Text} {cause : ExpressionError} {stack left : OperandStack},
      feed constants word stack = .error cause left → word ≠ [] := by
    rintro word cause stack left hfeed rfl
    cases hfeed
  induction text using Text.wordInduction generalizing stack with
  | single word hword =>
      rw [feedAll_wordsOf_word hword] at h
      exact ⟨.whole (hne h) hword, stack, after, rfl, h⟩
  | cons word blank further hword hblank ih =>
      rw [Term.wordsOf_append_blank hblank] at h
      cases hfeed : feed constants word stack with
      | ok _ between =>
          have hfirst := (feedAll_wordsOf_word hword).trans hfeed
          rw [feedAll_append_of_ok constants hfirst] at h
          obtain ⟨place, reached, left, hbefore, hrefused⟩ := ih h
          refine ⟨place.later word hblank, reached, left, ?_, hrefused⟩
          change feedAll constants (Term.wordsOf (word ++ blank :: place.before)) stack = _
          rw [Term.wordsOf_append_blank hblank, feedAll_append_of_ok constants hfirst, hbefore]
      | error early left =>
          have hfirst := (feedAll_wordsOf_word hword).trans hfeed
          rw [feedAll_append_of_error constants hfirst] at h
          cases h
          exact ⟨.first further (hne hfeed) hword hblank, stack, after, rfl, hfeed⟩

end Evaluation

end ConfTree
