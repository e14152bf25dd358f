import ConfTree.Proofs.UniformReading
import ConfTree.Proofs.WordPlace

namespace ConfTree.Reading

open Evaluation

variable {α : Type} {constants : Constants} {stack after : OperandStack}
  {cause : ExpressionError}

theorem Takes.settles {reading : Reading α} {text rest : Text} {result : α}
    (h : Takes reading text rest result) :
    reading.Settles (text ++ rest) text.length (.ok result) :=
  fun cursor hcursor => h cursor hcursor

theorem settles_fail (cause : Cause) (text : Text) :
    (fail cause : Reading α).Settles text 0 (.error (.refused cause)) := by
  intro cursor _
  rw [Cursor.advance_zero]
  rfl

def expressionOutcome :
    EStateM.Result ExpressionError OperandStack Unit → Except Cause Value
  | .ok _ [value] => .ok value
  | .ok _ stack => .error (.malformedExpression stack.length)
  | .error cause _ => .error (.expression cause)

theorem isWordEnd_of_ne_bar {c : Char} (h : c ≠ '|') : isWordEnd c = Text.isBlank c := by
  simp [isWordEnd, h]

theorem isWordEnd_of_isBlank {c : Char} (h : Text.isBlank c = true) : isWordEnd c = true := by
  simp [isWordEnd, h]

theorem isWordEnd_eq_false {word : Text} (hbar : '|' ∉ word)
    (hword : ∀ c ∈ word, Text.isBlank c = false) : ∀ c ∈ word, isWordEnd c = false := by
  intro c hc
  have hne : c ≠ '|' := fun heq => hbar (heq ▸ hc)
  rw [isWordEnd_of_ne_bar hne, hword c hc]

/-- In front of a text the loop over words settles, whatever bound suffices for the text. -/
def WordsSettle (constants : Constants) (stack : OperandStack) (text : Text) (count : Nat)
    (verdict : Except Failure Value) : Prop :=
  ∀ bound, text.length ≤ bound → (words constants bound stack).Settles text count verdict

def behindWord (constants : Constants) (bound : Nat) (stack : OperandStack) (word : Text) :
    Reading Value := do
  match ← next? with
  | none => fail .unterminatedExpression
  | some delimiter => do
      let after ← evaluateWord constants word stack
      advance 1
      if delimiter = '|' then finished after else words constants bound after

theorem words_succ (bound : Nat) :
    words constants (bound + 1) stack =
      (run fun c => !isWordEnd c) >>= behindWord constants bound stack := rfl

theorem settles_run_word {word rest : Text} (hword : ∀ c ∈ word, isWordEnd c = false)
    (hrest : ∀ c ∈ rest.head?, isWordEnd c = true) :
    (run fun c => !isWordEnd c).Settles (word ++ rest) word.length (.ok word) := by
  refine (takes_run (fun c hc => ?_) fun c hc => ?_).settles
  · simp [hword c hc]
  · simp [hrest c hc]

theorem wordsSettle_word {word more : Text} {delimiter : Char} {count : Nat}
    {verdict : Except Failure Value} (hword : ∀ c ∈ word, isWordEnd c = false)
    (hdelimiter : isWordEnd delimiter = true)
    (h : ∀ bound, more.length ≤ bound → Settles (do
      let after ← evaluateWord constants word stack
      advance 1
      if delimiter = '|' then finished after else words constants bound after)
        (delimiter :: more) count verdict) :
    WordsSettle constants stack (word ++ delimiter :: more) (word.length + count) verdict := by
  intro bound hbound
  rw [List.length_append, List.length_cons] at hbound
  obtain ⟨bound, rfl⟩ : ∃ smaller, bound = smaller + 1 := Nat.exists_eq_succ_of_ne_zero (by omega)
  have hnext : (behindWord constants bound stack word).Settles (delimiter :: more) (0 + count)
      verdict := (takes_next? _).settles.bind (h bound (by omega))
  rw [Nat.zero_add] at hnext
  rw [words_succ]
  refine (settles_run_word hword ?_).bind ?_
  · simp [hdelimiter]
  · rwa [List.drop_left]

theorem settles_accepted {word more : Text} {delimiter : Char} {count : Nat}
    {verdict : Except Failure Value} {next : OperandStack → Reading Value}
    (hfeed : feed constants word stack = .ok () after)
    (h : (next after).Settles more count verdict) :
    Settles (do
      let after ← evaluateWord constants word stack
      advance 1
      next after) (delimiter :: more) (count + 1) verdict := by
  have hevaluate : evaluateWord constants word stack = pure after := by
    rw [evaluateWord, hfeed]
  have hadvance : (advance 1 >>= fun _ => next after).Settles (delimiter :: more) (1 + count)
      verdict := (takes_advance [delimiter] more).settles.bind h
  rw [hevaluate, pure_bind, Nat.add_comm]
  exact hadvance

theorem settles_refused {word text : Text} {next : OperandStack → Reading Value}
    (hfeed : feed constants word stack = .error cause after) :
    Settles (evaluateWord constants word stack >>= next) text 0
      (.error (.refused (.expression cause))) := by
  have hevaluate : evaluateWord constants word stack = fail (.expression cause) := by
    rw [evaluateWord, hfeed]
  rw [hevaluate]
  exact (settles_fail _ text).bind_of_error next

theorem settles_finished (text : Text) :
    (finished stack).Settles text 0 ((expressionOutcome (.ok () stack)).mapError .refused) := by
  match stack with
  | [] => exact settles_fail _ text
  | [value] => exact (takes_pure value text).settles
  | _ :: _ :: _ => exact settles_fail _ text

/-- The loop goes through words with blanks behind them as their feeding goes. -/
theorem WordsSettle.behind {before text : Text} {count : Nat} {verdict : Except Failure Value}
    (h : WordsSettle constants after text count verdict) (hbar : '|' ∉ before)
    (hlast : ∀ c ∈ before.getLast?, Text.isBlank c = true)
    (hfeed : feedAll constants (Term.wordsOf before) stack = .ok () after) :
    WordsSettle constants stack (before ++ text) (before.length + count) verdict := by
  induction before using Text.wordInduction generalizing stack with
  | single word hword =>
      obtain rfl : word = [] := by
        by_contra hne
        have hmem := List.getLast_mem hne
        have hblank := hlast _ (List.getLast?_eq_getLast_of_ne_nil hne)
        rw [hword _ hmem] at hblank
        cases hblank
      obtain rfl : stack = after := by
        simpa [feed] using (feedAll_wordsOf_word hword).symm.trans hfeed
      simpa using h
  | cons word blank further hword hblank ih =>
      rw [List.mem_append, List.mem_cons, not_or, not_or] at hbar
      rw [Term.wordsOf_append_blank hblank] at hfeed
      obtain ⟨between, hfirst, hfurther⟩ := exists_of_feedAll_append_eq_ok hfeed
      rw [feedAll_wordsOf_word hword] at hfirst
      have hlast : ∀ c ∈ further.getLast?, Text.isBlank c = true := by
        intro c hc
        apply hlast c
        rw [List.getLast?_append_cons]
        cases further with
        | nil => simp at hc
        | cons d further => rwa [List.getLast?_cons_cons]
      have hnext := ih hbar.2.2 hlast hfurther
      have hpass : WordsSettle constants stack (word ++ blank :: (further ++ text))
          (word.length + (further.length + count + 1)) verdict := by
        refine wordsSettle_word (isWordEnd_eq_false hbar.1 hword) (isWordEnd_of_isBlank hblank) ?_
        intro bound hbound
        refine settles_accepted hfirst ?_
        rw [if_neg (Ne.symm hbar.2.1)]
        exact hnext bound hbound
      have hcount : (word ++ blank :: further).length + count =
          word.length + (further.length + count + 1) := by
        simp only [List.length_append, List.length_cons]
        omega
      rw [hcount, List.append_assoc, List.cons_append]
      exact hpass

theorem wordsSettle_refused {region tail : Text} (hbar : '|' ∉ region) (place : WordPlace region)
    (hfirst : place.IsFirstRefused constants stack cause)
    (htail : ∃ delimiter more, place.behind ++ tail = delimiter :: more ∧
      isWordEnd delimiter = true) :
    WordsSettle constants stack (region ++ tail) place.stop
      (.error (.refused (.expression cause))) := by
  obtain ⟨reached, left, hbefore, hrefused⟩ := hfirst
  obtain ⟨delimiter, more, hbehind, hdelimiter⟩ := htail
  have hsplit : region ++ tail = place.before ++ (place.word ++ delimiter :: more) := by
    calc region ++ tail
        = (place.before ++ place.word ++ place.behind) ++ tail := by rw [← place.text_eq]
      _ = place.before ++ (place.word ++ delimiter :: more) := by
          rw [List.append_assoc, List.append_assoc, hbehind]
  rw [place.text_eq] at hbar
  simp only [List.mem_append, not_or] at hbar
  have hword : WordsSettle constants reached (place.word ++ delimiter :: more)
      (place.word.length + 0) (.error (.refused (.expression cause))) := by
    apply wordsSettle_word (isWordEnd_eq_false hbar.1.2 place.isBlank_of_mem_word) hdelimiter
    exact fun _ _ => settles_refused hrefused
  have hall := hword.behind hbar.1.1 place.isBlank_of_mem_before hbefore
  rw [hsplit, WordPlace.stop, List.length_append]
  exact hall

theorem wordsSettle_closed {body : Text} (behind : Text) (hbar : '|' ∉ body)
    (hfeed : feedAll constants (Term.wordsOf body) stack = .ok () after) :
    WordsSettle constants stack (body ++ '|' :: behind) (body.length + 1)
      ((expressionOutcome (.ok () after)).mapError .refused) := by
  have hlast := body.isBlank_of_mem_getLast?_upToLastBlank
  obtain ⟨word, hword, hsplit⟩ := body.exists_upToLastBlank_append
  generalize body.upToLastBlank = before at hlast hsplit
  subst hsplit
  rw [List.mem_append, not_or] at hbar
  rw [Term.wordsOf_append hlast] at hfeed
  obtain ⟨between, hbefore, hfeed⟩ := exists_of_feedAll_append_eq_ok hfeed
  rw [feedAll_wordsOf_word hword] at hfeed
  have hclosed : WordsSettle constants between (word ++ '|' :: behind) (word.length + (0 + 1))
      ((expressionOutcome (.ok () after)).mapError .refused) := by
    apply wordsSettle_word (isWordEnd_eq_false hbar.2 hword) (by decide)
    exact fun _ _ => settles_accepted hfeed (settles_finished behind)
  rw [List.append_assoc, List.length_append, Nat.add_assoc]
  exact hclosed.behind hbar.1 hlast hbefore

/-- A word without a delimiter behind it is not fed. -/
theorem wordsSettle_end {word : Text} (hword : ∀ c ∈ word, isWordEnd c = false) :
    WordsSettle constants stack word word.length (.error (.refused .unterminatedExpression)) := by
  intro bound hbound
  cases bound with
  | zero =>
      obtain rfl : word = [] := List.eq_nil_of_length_eq_zero (Nat.le_zero.mp hbound)
      exact settles_fail _ []
  | succ bound =>
      have hnext : (behindWord constants bound stack word).Settles [] (0 + 0)
          (.error (.refused .unterminatedExpression)) :=
        (takes_next? []).settles.bind (settles_fail _ [])
      have hrun : (run fun c => !isWordEnd c).Settles (word ++ []) word.length (.ok word) :=
        settles_run_word hword (by simp)
      have hall : (run (fun c => !isWordEnd c) >>= behindWord constants bound stack).Settles
          (word ++ []) (word.length + 0) (.error (.refused .unterminatedExpression)) :=
        hrun.bind (by rwa [List.drop_left])
      rwa [List.append_nil] at hall

theorem wordsSettle_unclosed {text : Text} (hbar : '|' ∉ text)
    (hfeed : feedAll constants (Term.wordsOf text.upToLastBlank) stack = .ok () after) :
    WordsSettle constants stack text text.length (.error (.refused .unterminatedExpression)) := by
  have hlast := text.isBlank_of_mem_getLast?_upToLastBlank
  obtain ⟨word, hword, hsplit⟩ := text.exists_upToLastBlank_append
  generalize text.upToLastBlank = before at hlast hsplit hfeed
  subst hsplit
  rw [List.mem_append, not_or] at hbar
  rw [List.length_append]
  exact (wordsSettle_end (isWordEnd_eq_false hbar.2 hword)).behind hbar.1 hlast hfeed

theorem exists_wordEnd_behind {body : Text} (place : WordPlace body) (behind : Text) :
    ∃ delimiter more, place.behind ++ '|' :: behind = delimiter :: more ∧
      isWordEnd delimiter = true := by
  cases hbehind : place.behind with
  | nil => exact ⟨'|', behind, rfl, by decide⟩
  | cons blank more =>
      refine ⟨blank, more ++ '|' :: behind, rfl, isWordEnd_of_isBlank ?_⟩
      exact place.isBlank_of_mem_behind blank (by simp [hbehind])

theorem exists_wordEnd_behind_of_upToLastBlank {text : Text}
    (place : WordPlace text.upToLastBlank) (tail : Text) :
    ∃ delimiter more, place.behind ++ tail = delimiter :: more ∧ isWordEnd delimiter = true := by
  obtain ⟨blank, more, hbehind, hblank⟩ := place.exists_behind_of_upToLastBlank
  exact ⟨blank, more ++ tail, by rw [hbehind, List.cons_append], isWordEnd_of_isBlank hblank⟩

theorem exists_wordsSettle_closed {body : Text} (behind : Text) (hbar : '|' ∉ body) :
    ∃ count, WordsSettle constants stack (body ++ '|' :: behind) count
        ((expressionOutcome (feedAll constants (Term.wordsOf body) stack)).mapError .refused) ∧
      ∀ value, expressionOutcome (feedAll constants (Term.wordsOf body) stack) = .ok value →
        count = body.length + 1 := by
  cases hfeed : feedAll constants (Term.wordsOf body) stack with
  | ok _ after => exact ⟨_, wordsSettle_closed behind hbar hfeed, fun _ _ => rfl⟩
  | error cause left =>
      obtain ⟨place, hfirst⟩ := exists_isFirstRefused hfeed
      refine ⟨_, wordsSettle_refused hbar place hfirst (exists_wordEnd_behind place behind), ?_⟩
      intro value hvalue
      cases hvalue

theorem exists_wordsSettle_unclosed {text : Text} (hbar : '|' ∉ text) :
    ∃ count cause, WordsSettle constants stack text count (.error (.refused cause)) := by
  cases hfeed : feedAll constants (Term.wordsOf text.upToLastBlank) stack with
  | ok _ after => exact ⟨_, _, wordsSettle_unclosed hbar hfeed⟩
  | error cause left =>
      obtain ⟨place, hfirst⟩ := exists_isFirstRefused hfeed
      obtain ⟨word, -, hsplit⟩ := text.exists_upToLastBlank_append
      have hregion : '|' ∉ text.upToLastBlank := fun hmem =>
        hbar (hsplit ▸ List.mem_append_left word hmem)
      have hrefused := wordsSettle_refused hregion place hfirst
        (exists_wordEnd_behind_of_upToLastBlank place word)
      rw [hsplit] at hrefused
      exact ⟨_, _, hrefused⟩

theorem WordsSettle.expression_behind {gap : Gap} {text : Text} {count : Nat}
    {verdict : Except Failure Value} (h : WordsSettle constants [] text count verdict)
    (hgap : gap.IsInner) :
    (expression constants).Settles (gap.text ++ '|' :: text) (gap.text.length + 1 + count)
      verdict := by
  have habsent : Insignificant.IsAbsent ('|' :: text) :=
    Insignificant.isAbsent_cons _ (by decide) (by decide) (by decide)
  have hopened := (takes_expect hgap habsent).settles
  rw [List.append_assoc, List.length_append] at hopened
  unfold expression
  refine hopened.bind fun cursor hcursor => ?_
  have hrest : cursor.rest = text := by
    rw [hcursor]
    simp
  exact h cursor.rest.length (Nat.le_of_eq (congrArg _ hrest.symm)) cursor hrest

theorem WordsSettle.expression {text : Text} {count : Nat} {verdict : Except Failure Value}
    (h : WordsSettle constants [] text count verdict) :
    (expression constants).Settles ('|' :: text) (count + 1) verdict := by
  have hopened := h.expression_behind Gap.isInner_nil
  rw [Nat.add_comm]
  simpa [Gap.text] using hopened

end ConfTree.Reading
