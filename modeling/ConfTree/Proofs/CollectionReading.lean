import ConfTree.Proofs.ReadingAnswer
import ConfTree.Proofs.WrittenTerm

namespace ConfTree.Reading

open Term Insignificant

variable {isDeep : Prop} {settings : Settings} {constants : Constants} {member : Reading Value}
  {rest : Text}

/-- A reader of members answers for a term, wherever the term may stand. -/
def AnswersFor (isDeep : Prop) (settings : Settings) (constants : Constants)
    (member : Reading Value) (term : Term) : Prop :=
  term.IsValid settings → ∀ (gap : Gap) (rest : Text), gap.IsInner → term.StopsBefore rest →
    Answers isDeep member (gap.text ++ term.written) rest (term.value constants)

/-! Between two members. -/

theorem takes_continues_end {separator closing : Char} (otherwise : Cause) (rest : Text)
    {after : Gap} {trailing : Option Gap} (hafter : after.IsInner)
    (htrailing : IsValidTrailing trailing) (hseparator : ∀ text, IsAbsent (separator :: text))
    (hclosing : ∀ text, IsAbsent (closing :: text)) (hne : closing ≠ separator) :
    Takes (continues separator closing otherwise)
      (after.text ++ (trailingText separator trailing ++ [closing])) rest false := by
  cases trailing with
  | none =>
      have hnone : Takes (accept separator) after.text ([closing] ++ rest) false :=
        takes_accept_of_ne (hafter.mayPrecede _) (hclosing rest) (by simpa using hne)
      have hclose : Takes (accept closing) [closing] rest true :=
        takes_accept Gap.isInner_nil (hclosing rest)
      exact hnone.bind (hclose.bind_last (takes_pure false rest))
  | some gap =>
      have hgap : gap.IsInner := htrailing gap rfl
      have hone : Takes (accept separator) (after.text ++ [separator])
          ((gap.text ++ [closing]) ++ rest) true :=
        takes_accept hafter (hseparator _)
      have hclose : Takes (accept closing) (gap.text ++ [closing]) rest true :=
        takes_accept hgap (hclosing rest)
      have hsplit : after.text ++ (trailingText separator (some gap) ++ [closing]) =
          (after.text ++ [separator]) ++ (gap.text ++ [closing]) := by
        simp [trailingText]
      rw [hsplit]
      exact hone.bind (hclose.bind_last (takes_pure false rest))

theorem takes_continues_further {separator closing : Char} (otherwise : Cause) {rest : Text}
    {after before : Gap} (hafter : after.IsInner) (hbefore : before.IsInner)
    (hseparator : ∀ text, IsAbsent (separator :: text)) (hrest : IsAbsent rest)
    (hne : rest.head? ≠ some closing) :
    Takes (continues separator closing otherwise) (after.text ++ separator :: before.text) rest
      true := by
  have hone : Takes (accept separator) (after.text ++ [separator]) (before.text ++ rest) true :=
    takes_accept hafter (hseparator _)
  have hopen : Takes (accept closing) before.text rest false :=
    takes_accept_of_ne (hbefore.mayPrecede _) hrest hne
  have hsplit : after.text ++ separator :: before.text =
      (after.text ++ [separator]) ++ before.text := by simp
  rw [hsplit]
  exact hone.bind (hopen.bind_last (takes_pure true rest))

/-! Lists. -/

theorem stopsBefore_mark {gap : Gap} {c : Char} {text : Text} (hgap : gap.IsInner)
    (hc : Text.isDigit c = false ∧ c ≠ '.' ∧ Text.isNameLetter c = false) (term : Term) :
    term.StopsBefore (gap.text ++ c :: text) :=
  stopsBefore_of_isApart (Gap.isApart_text_append hgap.1 fun _ => Text.isApart_cons hc) term

theorem stopsBefore_items {gap : Gap} (hgap : gap.IsInner) (further : List (Spaced Term))
    (trailing : Option Gap) (rest : Text) (term : Term) :
    term.StopsBefore (gap.text ++ (writtenItems further ++ (trailingText ';' trailing ++
      [']'])) ++ rest) := by
  rw [List.append_assoc]
  cases further with
  | nil =>
      cases trailing with
      | none => exact stopsBefore_mark hgap (by decide) term
      | some trailing => exact stopsBefore_mark hgap (by decide) term
  | cons item further => exact stopsBefore_mark hgap (by decide) term

theorem answers_items {further : List (Spaced Term)} {trailing : Option Gap} {bound : Nat}
    (htrailing : IsValidTrailing trailing) :
    ∀ {first : Spaced Term},
      (∀ item ∈ first :: further, AnswersFor isDeep settings constants member item.content) →
      AreValidItems settings (first :: further) → further.length < bound →
      Answers isDeep (items member bound)
        (first.content.written ++
          (first.after.text ++ (writtenItems further ++ (trailingText ';' trailing ++ [']']))))
        rest (itemValues constants (first :: further)) := by
  have hsemicolon : ∀ text, IsAbsent (';' :: text) := fun text =>
    isAbsent_cons text (by decide) (by decide) (by decide)
  have hbracket : ∀ text, IsAbsent (']' :: text) := fun text =>
    isAbsent_cons text (by decide) (by decide) (by decide)
  induction further generalizing bound with
  | nil =>
      rintro first hmember ⟨hbefore, hcontent, hafter, _⟩ hbound
      obtain ⟨bound, rfl⟩ : ∃ less, bound = less + 1 := ⟨bound - 1, by omega⟩
      have hfirst := hmember first (by simp) hcontent [] _ Gap.isInner_nil
        (stopsBefore_items hafter [] trailing rest first.content)
      refine Answers.bind hfirst fun value => ?_
      have hend := takes_continues_end .expectedListSeparator rest hafter htrailing hsemicolon
        hbracket (by decide)
      exact (hend.bind_last (takes_pure [value] rest)).answers
  | cons item further ih =>
      rintro first hmember ⟨hbefore, hcontent, hafter, hfurther⟩ hbound
      obtain ⟨bound, rfl⟩ : ∃ less, bound = less + 1 := ⟨bound - 1, by omega⟩
      have hfirst := hmember first (by simp) hcontent [] _ Gap.isInner_nil
        (stopsBefore_items hafter (item :: further) trailing rest first.content)
      refine Answers.bind hfirst fun value => ?_
      have hsplit : first.after.text ++ (writtenItems (item :: further) ++
            (trailingText ';' trailing ++ [']'])) =
          (first.after.text ++ ';' :: item.before.text) ++ (item.content.written ++
            (item.after.text ++
              (writtenItems further ++ (trailingText ';' trailing ++ [']'])))) := by
        simp [writtenItems]
      rw [hsplit]
      have hopen : Text.isValueStart ']' = false := by decide
      refine (takes_continues_further .expectedListSeparator hafter hfurther.1 hsemicolon ?_
        ?_).bind_answers (Answers.bind_last ?_ fun values => ?_)
      · rw [List.append_assoc]
        exact isAbsent_written_append hfurther.2.1 _
      · rw [List.append_assoc]
        exact head?_written_ne hfurther.2.1 _ hopen
      · exact ih (fun other hother => hmember other (List.mem_cons_of_mem first hother)) hfurther
          (by simp at hbound; omega)
      · exact (takes_pure (value :: values) rest).answers

theorem length_le_writtenItems (items : List (Spaced Term)) :
    items.length ≤ (writtenItems items).length := by
  induction items with
  | nil => simp
  | cons item items ih =>
      simp only [writtenItems, List.length_cons, List.cons_append, List.length_append]
      omega

theorem takes_emptyList {gap inner : Gap} (hgap : gap.IsInner) (hinner : inner.IsInner) :
    Takes (list member) (gap.text ++ (Term.emptyList inner).written) rest (.list []) := by
  have hopen : Takes (expect '[') (gap.text ++ ['[']) ((inner.text ++ [']']) ++ rest) () :=
    takes_expect hgap (isAbsent_cons _ (by decide) (by decide) (by decide))
  have hclose : Takes (accept ']') (inner.text ++ [']']) rest true :=
    takes_accept hinner (isAbsent_cons _ (by decide) (by decide) (by decide))
  have hsplit : gap.text ++ (Term.emptyList inner).written =
      (gap.text ++ ['[']) ++ (inner.text ++ [']']) := by simp [Term.written]
  rw [hsplit]
  exact hopen.bind (hclose.bind_last (takes_pure _ rest))

theorem answers_list {gap : Gap} {first : Spaced Term} {further : List (Spaced Term)}
    {trailing : Option Gap} (hgap : gap.IsInner)
    (hmember : ∀ item ∈ first :: further,
      AnswersFor isDeep settings constants member item.content)
    (hvalid : (Term.list first further trailing).IsValid settings) :
    Answers isDeep (list member) (gap.text ++ (Term.list first further trailing).written) rest
      ((Term.list first further trailing).value constants) := by
  rcases hvalid with ⟨hbefore, hcontent, hafter, hfurther, htrailing⟩
  have hopen : Text.isValueStart ']' = false := by decide
  have hsplit : gap.text ++ (Term.list first further trailing).written =
      (gap.text ++ ['[']) ++ (first.before.text ++ (first.content.written ++
        (first.after.text ++ (writtenItems further ++ (trailingText ';' trailing ++ [']']))))) := by
    simp [Term.written]
  rw [hsplit, value_list]
  refine (takes_expect hgap ?_).bind_answers
    ((takes_accept_of_ne (hbefore.mayPrecede _) ?_ ?_).bind_answers ?_)
  · exact isAbsent_cons _ (by decide) (by decide) (by decide)
  · rw [List.append_assoc]
    exact isAbsent_written_append hcontent _
  · rw [List.append_assoc]
    exact head?_written_ne hcontent _ hopen
  intro cursor hcursor
  have hbound : further.length < cursor.rest.length := by
    have hlength := length_le_writtenItems further
    simp only [hcursor, List.length_append, List.length_singleton]
    omega
  exact (answers_items htrailing hmember ⟨hbefore, hcontent, hafter, hfurther⟩ hbound).map
    Value.list cursor hcursor

/-! Mappings. -/

theorem stopsBefore_entries {gap : Gap} (hgap : gap.IsInner) (further : List (WrittenEntry Term))
    (trailing : Option Gap) (rest : Text) (term : Term) :
    term.StopsBefore (gap.text ++ (writtenEntries further ++ (trailingText ',' trailing ++
      ['\x7d'])) ++ rest) := by
  rw [List.append_assoc]
  cases further with
  | nil =>
      cases trailing with
      | none => exact stopsBefore_mark hgap (by decide) term
      | some trailing => exact stopsBefore_mark hgap (by decide) term
  | cons item further => exact stopsBefore_mark hgap (by decide) term

theorem answers_entry {item : WrittenEntry Term}
    (hmember : AnswersFor isDeep settings constants member item.value.content)
    (hkey : Text.IsName item.key) (hcolon : item.beforeColon.IsInner)
    (hvalue : item.value.before.IsInner) (hcontent : item.value.content.IsValid settings)
    (hstops : item.value.content.StopsBefore rest) :
    Answers isDeep (entry member)
      (item.key ++ ((item.beforeColon.text ++ [':']) ++
        (item.value.before.text ++ item.value.content.written)))
      rest (item.value.content.value constants >>= fun value => .ok (item.key, value)) := by
  have hletters : Text.EndsRun Text.isNameLetter
      (item.beforeColon.text ++ ':' :: (item.value.before.text ++ item.value.content.written ++
        rest)) := by
    have hmark : Text.isDigit ':' = false ∧ ':' ≠ '.' ∧ Text.isNameLetter ':' = false := by decide
    intro c hc
    exact (Gap.isApart_text_append hcolon.1 (fun _ => Text.isApart_cons hmark) c hc).2.2
  have hskip : Takes skip [] (item.key ++ ((item.beforeColon.text ++ [':']) ++
      (item.value.before.text ++ item.value.content.written)) ++ rest) () := by
    apply takes_skip (Gap.isInner_nil.mayPrecede _)
    rw [List.append_assoc]
    exact Text.isAbsent_append_of_isName hkey _
  unfold entry
  refine hskip.bind_nil_answers ((takes_run hkey.2 ?_).bind_answers ?_)
  · simpa using hletters
  rw [if_neg hkey.1]
  refine (takes_expect hcolon ?_).bind_answers ?_
  · exact isAbsent_cons _ (by decide) (by decide) (by decide)
  exact (hmember hcontent _ rest hvalue hstops).bind_last fun value =>
    (takes_pure (item.key, value) rest).answers

theorem answers_entries {further : List (WrittenEntry Term)} {trailing : Option Gap} {bound : Nat}
    (htrailing : IsValidTrailing trailing) :
    ∀ {first : WrittenEntry Term} (before : Entries),
      (∀ item ∈ first :: further, AnswersFor isDeep settings constants member item.value.content) →
      AreValidEntries settings (first :: further) → further.length < bound →
      Answers isDeep (entries member bound before)
        ((first.key ++ ((first.beforeColon.text ++ [':']) ++
            (first.value.before.text ++ first.value.content.written))) ++
          (first.value.after.text ++
            (writtenEntries further ++ (trailingText ',' trailing ++ ['\x7d']))))
        rest (putEntryValues constants before (first :: further)) := by
  have hcomma : ∀ text, IsAbsent (',' :: text) := fun text =>
    isAbsent_cons text (by decide) (by decide) (by decide)
  have hbracket : ∀ text, IsAbsent ('\x7d' :: text) := fun text =>
    isAbsent_cons text (by decide) (by decide) (by decide)
  induction further generalizing bound with
  | nil =>
      rintro first before hmember ⟨_, hkey, hcolon, hvalue, hcontent, hafter, _⟩ hbound
      obtain ⟨bound, rfl⟩ : ∃ less, bound = less + 1 := ⟨bound - 1, by omega⟩
      have hfirst := answers_entry (hmember first (by simp)) hkey hcolon hvalue hcontent
        (stopsBefore_entries hafter [] trailing rest first.value.content)
      rw [putEntryValues_cons]
      refine Answers.bind hfirst fun found => ?_
      have hend := takes_continues_end .expectedMappingSeparator rest hafter htrailing hcomma
        hbracket (by decide)
      exact (hend.bind_last (takes_pure (before.put found.1 found.2) rest)).answers
  | cons item further ih =>
      rintro first before hmember ⟨_, hkey, hcolon, hvalue, hcontent, hafter, hfurther⟩ hbound
      obtain ⟨bound, rfl⟩ : ∃ less, bound = less + 1 := ⟨bound - 1, by omega⟩
      have hfirst := answers_entry (hmember first (by simp)) hkey hcolon hvalue hcontent
        (stopsBefore_entries hafter (item :: further) trailing rest first.value.content)
      rw [putEntryValues_cons]
      refine Answers.bind hfirst fun found => ?_
      have hsplit : first.value.after.text ++ (writtenEntries (item :: further) ++
            (trailingText ',' trailing ++ ['\x7d'])) =
          (first.value.after.text ++ ',' :: item.beforeKey.text) ++
            ((item.key ++ ((item.beforeColon.text ++ [':']) ++
              (item.value.before.text ++ item.value.content.written))) ++
            (item.value.after.text ++
              (writtenEntries further ++ (trailingText ',' trailing ++ ['\x7d'])))) := by
        simp [writtenEntries]
      rw [hsplit]
      have hopen : Text.isValueStart '\x7d' = false := by decide
      refine (takes_continues_further .expectedMappingSeparator hafter hfurther.1 hcomma ?_
        ?_).bind_answers ?_
      · simp only [List.append_assoc]
        exact Text.isAbsent_append_of_isName hfurther.2.1 _
      · simp only [List.append_assoc]
        exact Text.head?_append_ne_of_isName hfurther.2.1 _ hopen
      · exact ih _ (fun other hother => hmember other (List.mem_cons_of_mem first hother)) hfurther
          (by simp at hbound; omega)

theorem length_le_writtenEntries (entries : List (WrittenEntry Term)) :
    entries.length ≤ (writtenEntries entries).length := by
  induction entries with
  | nil => simp
  | cons item entries ih =>
      simp only [writtenEntries, List.length_cons, List.cons_append, List.length_append]
      omega

theorem takes_emptyMapping {gap inner : Gap} (hgap : gap.IsInner) (hinner : inner.IsInner) :
    Takes (mapping member) (gap.text ++ (Term.emptyMapping inner).written) rest (.mapping []) := by
  have hopen : Takes (expect '\x7b') (gap.text ++ ['\x7b']) ((inner.text ++ ['\x7d']) ++ rest) () :=
    takes_expect hgap (isAbsent_cons _ (by decide) (by decide) (by decide))
  have hclose : Takes (accept '\x7d') (inner.text ++ ['\x7d']) rest true :=
    takes_accept hinner (isAbsent_cons _ (by decide) (by decide) (by decide))
  have hsplit : gap.text ++ (Term.emptyMapping inner).written =
      (gap.text ++ ['\x7b']) ++ (inner.text ++ ['\x7d']) := by simp [Term.written]
  rw [hsplit]
  exact hopen.bind (hclose.bind_last (takes_pure _ rest))

theorem answers_mapping {gap : Gap} {first : WrittenEntry Term}
    {further : List (WrittenEntry Term)} {trailing : Option Gap} (hgap : gap.IsInner)
    (hmember : ∀ item ∈ first :: further,
      AnswersFor isDeep settings constants member item.value.content)
    (hvalid : (Term.mapping first further trailing).IsValid settings) :
    Answers isDeep (mapping member) (gap.text ++ (Term.mapping first further trailing).written) rest
      ((Term.mapping first further trailing).value constants) := by
  rcases hvalid with ⟨hbefore, hkey, hcolon, hvalue, hcontent, hafter, hfurther, htrailing⟩
  have hopen : Text.isValueStart '\x7d' = false := by decide
  have hsplit : gap.text ++ (Term.mapping first further trailing).written =
      (gap.text ++ ['\x7b']) ++ (first.beforeKey.text ++
        ((first.key ++ ((first.beforeColon.text ++ [':']) ++
            (first.value.before.text ++ first.value.content.written))) ++
          (first.value.after.text ++
            (writtenEntries further ++ (trailingText ',' trailing ++ ['\x7d']))))) := by
    simp [Term.written]
  rw [hsplit, value_mapping]
  refine (takes_expect hgap ?_).bind_answers
    ((takes_accept_of_ne (hbefore.mayPrecede _) ?_ ?_).bind_answers ?_)
  · exact isAbsent_cons _ (by decide) (by decide) (by decide)
  · simp only [List.append_assoc]
    exact Text.isAbsent_append_of_isName hkey _
  · simp only [List.append_assoc]
    exact Text.head?_append_ne_of_isName hkey _ hopen
  intro cursor hcursor
  have hbound : further.length < cursor.rest.length := by
    have hlength := length_le_writtenEntries further
    simp only [hcursor, List.length_append, List.length_singleton]
    omega
  exact (answers_entries htrailing [] hmember
    ⟨hbefore, hkey, hcolon, hvalue, hcontent, hafter, hfurther⟩ hbound).map
    Value.mapping cursor hcursor

end ConfTree.Reading
