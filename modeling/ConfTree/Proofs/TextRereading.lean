import ConfTree.Proofs.DocumentReading
import ConfTree.Proofs.ProperValue
import ConfTree.Proofs.ScalarLine

namespace ConfTree

namespace Text

variable {text : Text}

theorem length_doubled (c : Char) (text : Text) :
    (replaceEach c [c, c] text).length = text.length + text.count c := by
  induction text with
  | nil => rfl
  | cons d text ih =>
      rw [replaceEach_cons, List.length_append, ih, List.length_cons, List.count_cons]
      by_cases hd : d = c
      · simp [hd]
        omega
      · simp [hd]
        omega

def doubled (text : Text) : Text :=
  replaceEach '\\' ['\\', '\\'] text

theorem doubled_eq_self_iff : doubled text = text ↔ '\\' ∉ text := by
  constructor
  · intro h
    have hlength := congrArg List.length h
    rw [doubled, length_doubled] at hlength
    exact List.count_eq_zero.mp (by omega)
  · exact replaceEach_of_notMem

theorem quote_notMem_doubled (h : '"' ∉ text) : '"' ∉ doubled text :=
  notMem_replaceEach (by decide) h

theorem escape_of_notMem (h : '"' ∉ text) : escape text = doubled text :=
  replaceEach_of_notMem (quote_notMem_doubled h)

theorem escape_append (first second : Text) :
    escape (first ++ second) = escape first ++ escape second := by
  rw [escape_eq, escape_eq, escape_eq, List.flatMap_append]

theorem head?_escape_ne (text : Text) : (escape text).head? ≠ some '"' := by
  cases text with
  | nil => simp [escape_eq]
  | cons c text =>
      rw [escape_cons, escapeCharacter]
      split
      · simp
      · split
        · simp
        · rename_i hquote
          simpa using hquote

/-- Somewhere a quoted text begins, and the text goes on behind its first quote. -/
def OpensText (text : Text) : Prop :=
  ∃ c, ['@', '"', c] <:+: text

theorem OpensText.of_infix {part : Text} (h : OpensText part) (hpart : part <:+: text) :
    OpensText text := by
  obtain ⟨c, hc⟩ := h
  exact ⟨c, hc.trans hpart⟩

theorem opensText_cons_iff {c : Char} :
    OpensText (c :: text) ↔ (c = '@' ∧ ∃ d, ['"', d] <+: text) ∨ OpensText text := by
  simp only [OpensText, List.infix_cons_iff, List.cons_prefix_cons, exists_or, exists_and_left,
    eq_comm]

theorem opensText_quoted (content : Text) : OpensText ('@' :: '"' :: content ++ ['"']) := by
  cases content with
  | nil => exact ⟨'"', List.infix_rfl⟩
  | cons c content => exact ⟨c, [], content ++ ['"'], rfl⟩

theorem not_opensText_escape (text : Text) : ¬OpensText (escape text ++ ['"']) := by
  -- Only behind an `@` of the text itself a quote could follow, and there the last one ends all.
  induction text with
  | nil =>
      rintro ⟨c, hinfix⟩
      simpa [escape_eq] using hinfix.length_le
  | cons c text ih =>
      rw [escape_cons, List.append_assoc]
      by_cases hbackslash : c = '\\'
      · simpa [hbackslash, escapeCharacter, opensText_cons_iff] using ih
      · by_cases hquote : c = '"'
        · simpa [hquote, escapeCharacter, opensText_cons_iff] using ih
        · rw [escapeCharacter_of_ne hbackslash hquote, List.singleton_append, opensText_cons_iff]
          rintro (⟨-, d, hprefix⟩ | hopens)
          · have hhead := head?_escape_ne text
            cases htext : escape text with
            | nil => simpa [htext] using hprefix.length_le
            | cons e rest =>
                rw [htext, List.cons_append, List.cons_prefix_cons] at hprefix
                exact hhead (by simp [htext, ← hprefix.1])
          · exact ih hopens

end Text

def Constants.HoldNoText (constants : Constants) : Prop :=
  ∀ binding ∈ constants, binding.2.kind ≠ .text

namespace Operator

theorem kind_concatenate?_ne_text {left right joint : Value} (hleft : left.kind ≠ .text)
    (h : concatenate? left right = some joint) : joint.kind ≠ .text := by
  unfold concatenate? at h
  split at h
  · obtain rfl := Option.some.inj h
    simp [Value.kind]
  · exact absurd rfl hleft
  · obtain rfl := Option.some.inj h
    simp [Value.kind]
  · exact absurd rfl hleft
  · simp at h

theorem keeps_kind_ne_text : Keeps fun value => value.kind ≠ .text := by
  intro operator left right value hleft _ h
  rcases evaluate_eq_ok h with hjoint | ⟨x, rfl⟩
  · exact kind_concatenate?_ne_text hleft hjoint
  · simp [Value.kind]

end Operator

namespace Term

variable {constants : Constants} {value : Value}

theorem brings_kind_ne_text {word : Text} (hconstants : constants.HoldNoText)
    (hword : ¬word.OpensText) :
    Evaluation.Brings constants (fun value => value.kind ≠ .text) word := by
  intro operand found htoken hfound
  refine Operand.of_value (P := fun value => value.kind ≠ .text) (by simp [Value.kind]) hconstants
    ?_ hfound
  rintro content rfl
  obtain ⟨-, rfl⟩ := Token.ofWord_eq_ok_iff.mp htoken
  exact absurd (Text.opensText_quoted content) hword

theorem kind_expressionValue_ne_text {body : Text} (hconstants : constants.HoldNoText)
    (hbody : ¬body.OpensText) (h : expressionValue constants body = .ok value) :
    value.kind ≠ .text := by
  have hwords : ∀ word ∈ wordsOf body,
      Evaluation.Brings constants (fun value => value.kind ≠ .text) word := fun word hword =>
    brings_kind_ne_text hconstants fun hopens =>
      hbody (hopens.of_infix (infix_of_mem_wordsOf hword))
  exact Evaluation.forall_mem_of_feedAll Operator.keeps_kind_ne_text hwords (by simp)
    (feedAll_of_expressionValue h) value (by simp)

theorem kind_value_ne_text {term : Term} (hconstants : constants.HoldNoText)
    (hterm : ¬term.written.OpensText) (h : term.value constants = .ok value) :
    value.kind ≠ .text := by
  cases term with
  | text content => exact absurd (Text.opensText_quoted content) hterm
  | number literal =>
      obtain rfl : Value.number literal.value = value := by simpa [Term.value] using h
      simp [Value.kind]
  | reference name =>
      exact Constants.of_valueOf? (P := fun value => value.kind ≠ .text) hconstants
        (valueOf?_of_reference h)
  | expression body =>
      refine kind_expressionValue_ne_text hconstants (fun hbody => hterm ?_) h
      exact hbody.of_infix ⟨['|'], ['|'], rfl⟩
  | emptyList inner =>
      obtain rfl : Value.list [] = value := by simpa [Term.value] using h
      simp [Value.kind]
  | list first further trailing =>
      rw [value_list] at h
      obtain ⟨values, -, rfl⟩ := exists_value_of_map_eq_ok h
      simp [Value.kind]
  | emptyMapping inner =>
      obtain rfl : Value.mapping [] = value := by simpa [Term.value] using h
      simp [Value.kind]
  | mapping first further trailing =>
      rw [value_mapping] at h
      obtain ⟨entries, -, rfl⟩ := exists_value_of_map_eq_ok h
      simp [Value.kind]

end Term

namespace SessionReading

open Reading Document

variable {settings : Settings} {session : Session} {last : Value}

theorem items_behind_text {content rest : Text} (bound : Nat) (hcontent : '"' ∉ content)
    (hrest : session.cursor.rest = (Term.text content).written ++ rest) :
    items settings (bound + 1) last session =
      items settings bound (.text content)
        ⟨session.cursor.advance (Term.text content).written.length, session.constants⟩ := by
  have hitem : (Item.value (.text content)).IsValid settings := hcontent
  have hnone : declaration? settings session.constants session.cursor =
      .ok none session.cursor := by
    simpa using takes_declaration?_none_of_not_reference hitem (by simp) rest session.cursor hrest
  have hanswer : AnswersItem settings (.value (.text content)) last session :=
    answersItem_value hitem trivial hnone hrest
  rw [items_in_front bound Gap.isInner_nil hitem hrest, behind_nil]
  rcases hanswer with hstep | ⟨hdeep, -⟩
  · exact bind_of_ok hstep _
  · simp [Item.term, Term.levels] at hdeep

end SessionReading

namespace Document

variable {settings : Settings}

theorem infix_written_of_item (item : Item) : item.term.written <:+: item.written := by
  cases item with
  | declaration name beforeMarker beforeValue term => exact (List.suffix_append _ _).isInfix
  | value term => exact List.infix_rfl

theorem holdNoText_of_add {before next : Meaning} {item : Item}
    (hconstants : before.constants.HoldNoText) (hterm : ¬item.term.written.OpensText)
    (h : before.add item = .ok next) :
    next.constants.HoldNoText ∧ (next.last = before.last ∨ next.last.kind ≠ .text) := by
  cases item with
  | declaration name beforeMarker beforeValue term =>
      obtain ⟨value, hvalue, hnext⟩ := Term.exists_value_of_bind_eq_ok h
      obtain rfl := Except.ok.inj hnext
      have hkind : value.kind ≠ .text := Term.kind_value_ne_text hconstants hterm hvalue
      exact ⟨List.forall_mem_cons.mpr ⟨hkind, hconstants⟩, .inl rfl⟩
  | value term =>
      obtain ⟨value, hvalue, hnext⟩ := Term.exists_value_of_bind_eq_ok h
      obtain rfl := Except.ok.inj hnext
      exact ⟨hconstants, .inr (Term.kind_value_ne_text hconstants hterm hvalue)⟩

/-- Items in whose text no text begins keep the last value so far or give one that is no text. -/
theorem last_of_meaningFrom_of_not_opensText {items : List (Gap × Item)} {ending : Gap}
    (before : Meaning) {meaning : Meaning} (hconstants : before.constants.HoldNoText)
    (hitems : ¬(written ⟨items, ending⟩).OpensText)
    (h : meaningFrom before items = .ok meaning) :
    meaning.last = before.last ∨ meaning.last.kind ≠ .text := by
  -- On the items: none of them binds a text, so no later one can take a text from the constants.
  induction items generalizing before with
  | nil =>
      obtain rfl := Except.ok.inj h
      exact .inl rfl
  | cons first items ih =>
      rcases first with ⟨gap, item⟩
      rw [written_cons] at hitems
      have hterm : ¬item.term.written.OpensText := fun hopens => hitems
        (hopens.of_infix ((infix_written_of_item item).trans ⟨gap.text, _, List.append_assoc ..⟩))
      have hrest : ¬(written ⟨items, ending⟩).OpensText := fun hopens => hitems
        (hopens.of_infix ⟨gap.text ++ item.written, [], by simp⟩)
      cases hadd : before.add item with
      | error cause =>
          rw [meaningFrom_cons_of_error hadd] at h
          simp at h
      | ok next =>
          rw [meaningFrom_cons_of_ok hadd] at h
          obtain ⟨hnext, hlast⟩ := holdNoText_of_add hconstants hterm hadd
          rcases ih next hnext hrest h with hkept | hkind
          · rwa [hkept]
          · exact .inr hkind

theorem eq_or_kind_ne_text_of_readDocument {content rest : Text} (hcontent : '"' ∉ content)
    (hrest : ¬rest.OpensText) {value : Value} {after : Session}
    (h : readDocument settings [] ((Term.text content).written ++ rest) = .ok value after) :
    value = .text content ∨ value.kind ≠ .text := by
  have hstart : (Session.start ((Term.text content).written ++ rest) []).cursor.rest =
      (Term.text content).written ++ rest := rfl
  have hmoved : ((Cursor.start ((Term.text content).written ++ rest)).advance
      (Term.text content).written.length).rest = rest := Cursor.rest_advance_append rfl
  have hless : rest.length < ((Term.text content).written ++ rest).length := by
    simp [Term.written]
    omega
  rw [readDocument_eq_items, SessionReading.items_behind_text _ hcontent hstart] at h
  obtain ⟨found, ending, -, -, hmoves, hend, hmeaning⟩ :=
    SessionReading.exists_document h (hmoved.symm ▸ hless)
  have hwritten : written ⟨found, ending⟩ = rest := by
    have hfound := hmoves.1
    rw [hend, List.append_nil] at hfound
    exact hfound.symm.trans hmoved
  exact last_of_meaningFrom_of_not_opensText ⟨.text content, []⟩ (by simp [Constants.HoldNoText])
    (hwritten ▸ hrest) hmeaning

theorem readDocument_quoted_of_notMem {content : Text} (h : '"' ∉ content) :
    readDocument settings [] ('@' :: (Scalar.text content).blockText) =
      .ok (.text content.doubled) ⟨(Cursor.start ('@' :: (Scalar.text content).blockText)).advance
        ('@' :: (Scalar.text content).blockText).length, []⟩ := by
  have hterm : (Term.text content.doubled).IsValid settings := Text.quote_notMem_doubled h
  have htext : '@' :: (Scalar.text content).blockText =
      Gap.text [] ++ ((Term.text content.doubled).written ++ Gap.text []) := by
    rw [Scalar.blockText, Text.quoted, Text.escape_of_notMem h]
    simp [Term.written, Gap.text]
  rw [htext]
  exact readDocument_value Gap.isInner_nil hterm trivial (Nat.zero_le _) rfl

theorem quote_notMem_doubled_takeWhile (content : Text) :
    '"' ∉ Text.doubled (content.takeWhile (· ≠ '"')) ++ ['\\'] := by
  have hfirst : '"' ∉ content.takeWhile (· ≠ '"') := fun hmem => by
    simpa using List.mem_takeWhile_imp hmem
  simpa using Text.quote_notMem_doubled hfirst

/-- Up to its first quote a text is read with a backslash at its end, and no text can follow. -/
theorem readDocument_quoted_of_mem {content : Text} (hmem : '"' ∈ content) {value : Value}
    {after : Session}
    (h : readDocument settings [] ('@' :: (Scalar.text content).blockText) = .ok value after) :
    value = .text (Text.doubled (content.takeWhile (· ≠ '"')) ++ ['\\']) ∨ value.kind ≠ .text := by
  obtain ⟨before, behind, rfl, hbefore⟩ := List.eq_append_cons_of_mem hmem
  have hfirst : (before ++ '"' :: behind).takeWhile (· ≠ '"') = before :=
    Text.takeWhile_run_append (Text.forall_ne_of_notMem hbefore) (Text.endsRun_ne (.inr rfl))
  have hquote := quote_notMem_doubled_takeWhile (before ++ '"' :: behind)
  have htext : '@' :: (Scalar.text (before ++ '"' :: behind)).blockText =
      (Term.text (Text.doubled before ++ ['\\'])).written ++ (Text.escape behind ++ ['"']) := by
    rw [Scalar.blockText, Text.quoted, Text.escape_append, Text.escape_of_notMem hbefore,
      Text.escape_cons]
    simp [Term.written, Text.escapeCharacter]
  rw [hfirst] at hquote ⊢
  rw [htext] at h
  exact eq_or_kind_ne_text_of_readDocument hquote (Text.not_opensText_escape behind) h

/-- A quoted text is read back exactly if it has neither a quote nor a backslash.  Without quotes it
is read with every backslash doubled.  If it has quotes and anything is read at all, this is the
part in front of the first quote in the same form, with a backslash behind it, or no text. -/
theorem readDocument_quoted (settings : Settings) (content : Text) :
    ((∃ after, readDocument settings [] ('@' :: (Scalar.text content).blockText) =
      .ok (.text content) after) ↔ '"' ∉ content ∧ '\\' ∉ content) ∧
    ('"' ∉ content → readDocument settings [] ('@' :: (Scalar.text content).blockText) =
      .ok (.text content.doubled)
        ⟨(Cursor.start ('@' :: (Scalar.text content).blockText)).advance
          ('@' :: (Scalar.text content).blockText).length, []⟩) ∧
    ('"' ∈ content → ∀ value after,
      readDocument settings [] ('@' :: (Scalar.text content).blockText) = .ok value after →
        value = .text (Text.doubled (content.takeWhile (· ≠ '"')) ++ ['\\']) ∨
          value.kind ≠ .text) := by
  refine ⟨?_, readDocument_quoted_of_notMem, fun hmem _ _ => readDocument_quoted_of_mem hmem⟩
  constructor
  · rintro ⟨after, h⟩
    have hquote : '"' ∉ content := by
      intro hmem
      rcases readDocument_quoted_of_mem hmem h with htext | hkind
      · rw [Value.text.inj htext] at hmem
        exact quote_notMem_doubled_takeWhile content hmem
      · exact hkind rfl
    refine ⟨hquote, Text.doubled_eq_self_iff.mp ?_⟩
    rw [readDocument_quoted_of_notMem hquote] at h
    simp only [EStateM.Result.ok.injEq, Value.text.injEq] at h
    exact h.1
  · rintro ⟨hquote, hbackslash⟩
    rw [readDocument_quoted_of_notMem hquote, Text.doubled_eq_self_iff.mpr hbackslash]
    exact ⟨_, rfl⟩

theorem readDocument_quoted_comment :
    (∃ after, readDocument {} [] ('@' :: (Scalar.text "a\"REM".toList).blockText) =
      .ok (.text "a\\".toList) after) ∧
    (¬∃ after, readDocument {} [] ('@' :: (Scalar.text "a\"REM".toList).blockText) =
      .ok (.text "a\"REM".toList) after) ∧
    ∃ after, readDocument {} [] ('@' :: (Scalar.text "a\\b".toList).blockText) =
      .ok (.text "a\\\\b".toList) after := by
  refine ⟨⟨_, rfl⟩, fun hread => ?_, _, (readDocument_quoted {} "a\\b".toList).2.1 (by decide)⟩
  exact absurd ((readDocument_quoted {} _).1.mp hread).1 (by decide)

end Document

end ConfTree
