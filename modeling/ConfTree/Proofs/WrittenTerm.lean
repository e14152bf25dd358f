import ConfTree.Proofs.InsignificantPrefix
import ConfTree.Proofs.LiteralSpelling
import ConfTree.Source.Syntax

namespace ConfTree

namespace Text

def isValueStart (c : Char) : Bool :=
  c = '@' || c = '[' || c = '\x7b' || c = '|' || c = '+' || c = '-' || isDigit c || isNameLetter c

theorem isBlank_eq_false_of_isValueStart {c : Char} (h : isValueStart c = true) :
    isBlank c = false := by
  simp only [isValueStart, Bool.or_eq_true, decide_eq_true_eq] at h
  rcases h with ((((((rfl | rfl) | rfl) | rfl) | rfl) | rfl) | hdigit) | hletter
  · decide
  · decide
  · decide
  · decide
  · decide
  · decide
  · exact isBlank_eq_false_of_isDigit hdigit
  · exact isBlank_eq_false_of_isNameLetter hletter

theorem isValueStart_of_number {c : Char} (h : c = '+' ∨ c = '-' ∨ isDigit c = true) :
    isValueStart c = true := by
  rcases h with rfl | rfl | h
  · decide
  · decide
  · simp [isValueStart, h]

theorem isAbsent_of_isValueStart {c : Char} (h : isValueStart c = true) (rest : Text) :
    Insignificant.IsAbsent (c :: rest) :=
  Insignificant.isAbsent_cons rest (isBlank_eq_false_of_isValueStart h)
    (ne_of_class h (by decide)) (ne_of_class h (by decide))

theorem exists_cons_of_isName {name : Text} (h : IsName name) (rest : Text) :
    ∃ c tail, name ++ rest = c :: tail ∧ isValueStart c = true := by
  obtain ⟨c, tail, rfl, hc⟩ := exists_cons_of_run h
  exact ⟨c, tail ++ rest, rfl, by simp [isValueStart, hc]⟩

theorem isAbsent_append_of_isName {name : Text} (h : IsName name) (rest : Text) :
    Insignificant.IsAbsent (name ++ rest) := by
  obtain ⟨c, tail, hname, hc⟩ := exists_cons_of_isName h rest
  rw [hname]
  exact isAbsent_of_isValueStart hc tail

theorem head?_append_ne_of_isName {name : Text} (h : IsName name) (rest : Text) {c : Char}
    (hc : isValueStart c = false) : (name ++ rest).head? ≠ some c := by
  obtain ⟨d, tail, hname, hd⟩ := exists_cons_of_isName h rest
  rw [hname]
  have hne : d ≠ c := ne_of_class hd hc
  simpa using hne

/-- The start of a text continues no number and no name. -/
def IsApart (text : Text) : Prop :=
  ∀ c ∈ text.head?, isDigit c = false ∧ c ≠ '.' ∧ isNameLetter c = false

theorem isApart_nil : IsApart [] := by
  intro c hc
  simp at hc

theorem isApart_cons {c : Char} {rest : Text}
    (h : isDigit c = false ∧ c ≠ '.' ∧ isNameLetter c = false) : IsApart (c :: rest) := by
  intro d hd
  have hcd : c = d := by simpa using hd
  exact hcd ▸ h

theorem isApart_cons_blank {c : Char} {rest : Text} (h : isBlank c = true) :
    IsApart (c :: rest) := by
  refine isApart_cons ⟨Bool.eq_false_iff.mpr fun hdigit => ?_, ne_of_class h (by decide),
    Bool.eq_false_iff.mpr fun hletter => ?_⟩
  · simp [isBlank_eq_false_of_isDigit hdigit] at h
  · simp [isBlank_eq_false_of_isNameLetter hletter] at h

end Text

namespace Gap

theorem isApart_text_append {gap : Gap} {rest : Text} (hgap : gap.IsValid)
    (hrest : gap = [] → Text.IsApart rest) : Text.IsApart (gap.text ++ rest) := by
  cases gap with
  | nil => exact hrest rfl
  | cons piece gap =>
      cases piece with
      | blank c => exact Text.isApart_cons_blank hgap.1
      | lineComment body => exact Text.isApart_cons (by decide)
      | blockComment body => exact Text.isApart_cons (by decide)

end Gap

namespace Term

theorem induction {motive : Term → Prop}
    (text : ∀ content, motive (.text content))
    (number : ∀ literal, motive (.number literal))
    (reference : ∀ name, motive (.reference name))
    (expression : ∀ body, motive (.expression body))
    (emptyList : ∀ inner, motive (.emptyList inner))
    (list : ∀ first further trailing, motive first.content →
      (∀ item ∈ further, motive item.content) → motive (.list first further trailing))
    (emptyMapping : ∀ inner, motive (.emptyMapping inner))
    (mapping : ∀ first further trailing, motive first.value.content →
      (∀ entry ∈ further, motive entry.value.content) →
      motive (.mapping first further trailing)) :
    ∀ term, motive term := by
  intro term
  refine @Term.rec motive (fun item => motive item.content)
    (fun items => ∀ item ∈ items, motive item.content)
    (fun entry => motive entry.value.content)
    (fun entries => ∀ entry ∈ entries, motive entry.value.content)
    text number reference expression emptyList list emptyMapping mapping ?_ ?_ ?_ ?_ ?_ ?_ term
  · intro _ _ _ h
    exact h
  · intro item hitem
    simp at hitem
  · intro item items hitem hitems
    exact List.forall_mem_cons.mpr ⟨hitem, hitems⟩
  · intro _ _ _ _ h
    exact h
  · intro entry hentry
    simp at hentry
  · intro entry entries hentry hentries
    exact List.forall_mem_cons.mpr ⟨hentry, hentries⟩

mutual

/-- How many readers inside each other it takes to read a term: one, and for a collection one more
than for any of its members. -/
def levels : Term → Nat
  | .text _ => 1
  | .number _ => 1
  | .reference _ => 1
  | .expression _ => 1
  | .emptyList _ => 1
  | .list first further _ => max first.content.levels (levelsOfItems further) + 1
  | .emptyMapping _ => 1
  | .mapping first further _ => max first.value.content.levels (levelsOfEntries further) + 1

def levelsOfItems : List (Spaced Term) → Nat
  | [] => 0
  | item :: items => max item.content.levels (levelsOfItems items)

def levelsOfEntries : List (WrittenEntry Term) → Nat
  | [] => 0
  | entry :: entries => max entry.value.content.levels (levelsOfEntries entries)

end

theorem levels_pos (term : Term) : 0 < term.levels := by
  cases term <;> simp [levels]

theorem levelsOfItems_le_iff {limit : Nat} {items : List (Spaced Term)} :
    levelsOfItems items ≤ limit ↔ ∀ item ∈ items, item.content.levels ≤ limit := by
  induction items with
  | nil => simp [levelsOfItems]
  | cons item items ih => rw [levelsOfItems, Nat.max_le, ih, List.forall_mem_cons]

theorem levelsOfEntries_le_iff {limit : Nat} {entries : List (WrittenEntry Term)} :
    levelsOfEntries entries ≤ limit ↔ ∀ entry ∈ entries, entry.value.content.levels ≤ limit := by
  induction entries with
  | nil => simp [levelsOfEntries]
  | cons entry entries ih => rw [levelsOfEntries, Nat.max_le, ih, List.forall_mem_cons]

theorem depthOfItems_le_iff {limit : Nat} {items : List (Spaced Term)} :
    depthOfItems items ≤ limit ↔ ∀ item ∈ items, item.content.depth ≤ limit := by
  induction items with
  | nil => simp [depthOfItems]
  | cons item items ih => rw [depthOfItems, Nat.max_le, ih, List.forall_mem_cons]

theorem depthOfEntries_le_iff {limit : Nat} {entries : List (WrittenEntry Term)} :
    depthOfEntries entries ≤ limit ↔ ∀ entry ∈ entries, entry.value.content.depth ≤ limit := by
  induction entries with
  | nil => simp [depthOfEntries]
  | cons entry entries ih => rw [depthOfEntries, Nat.max_le, ih, List.forall_mem_cons]

/-- It takes at most one reader more than collections are nested; an empty collection inside all
others takes no further one. -/
theorem levels_le (term : Term) : term.levels ≤ term.depth + 1 := by
  induction term using Term.induction with
  | text content => exact Nat.le_refl 1
  | number literal => exact Nat.le_refl 1
  | reference name => exact Nat.le_refl 1
  | expression body => exact Nat.le_refl 1
  | emptyList inner => exact Nat.le_succ 1
  | list first further trailing hfirst hfurther =>
      have hlevels : ∀ item ∈ first :: further, item.content.levels ≤ item.content.depth + 1 :=
        List.forall_mem_cons.mpr ⟨hfirst, hfurther⟩
      have hdepth := depthOfItems_le_iff.mp (Nat.le_refl (depthOfItems (first :: further)))
      have hitems : levelsOfItems (first :: further) ≤ depthOfItems (first :: further) + 1 :=
        levelsOfItems_le_iff.mpr fun item hitem =>
          Nat.le_trans (hlevels item hitem) (Nat.succ_le_succ (hdepth item hitem))
      exact Nat.succ_le_succ hitems
  | emptyMapping inner => exact Nat.le_succ 1
  | mapping first further trailing hfirst hfurther =>
      have hlevels : ∀ entry ∈ first :: further,
          entry.value.content.levels ≤ entry.value.content.depth + 1 :=
        List.forall_mem_cons.mpr ⟨hfirst, hfurther⟩
      have hdepth := depthOfEntries_le_iff.mp (Nat.le_refl (depthOfEntries (first :: further)))
      have hentries : levelsOfEntries (first :: further) ≤
          depthOfEntries (first :: further) + 1 :=
        levelsOfEntries_le_iff.mpr fun entry hentry =>
          Nat.le_trans (hlevels entry hentry) (Nat.succ_le_succ (hdepth entry hentry))
      exact Nat.succ_le_succ hentries

/-- What may follow a term: nothing that continues a number or a name. -/
def StopsBefore (rest : Text) : Term → Prop
  | .number literal =>
      Text.EndsRun Text.isDigit rest ∧ (literal.fraction = none → rest.head? ≠ some '.')
  | .reference _ => Text.EndsRun Text.isNameLetter rest
  | _ => True

theorem stopsBefore_of_isApart {rest : Text} (h : Text.IsApart rest) (term : Term) :
    term.StopsBefore rest := by
  cases term with
  | number literal =>
      refine ⟨fun c hc => (h c hc).1, fun _ hpoint => ?_⟩
      exact (h '.' hpoint).2.1 rfl
  | reference name => exact fun c hc => (h c hc).2.2
  | _ => trivial

theorem exists_cons_of_number {literal : NumberLiteral} (h : literal.WellFormed) :
    ∃ c rest, literal.text = c :: rest ∧
      (c = '+' ∨ c = '-' ∨ Text.isDigit c = true) := by
  obtain ⟨c, whole, hwhole, hc⟩ := Text.exists_cons_of_run h.1
  rw [NumberLiteral.text_eq, hwhole]
  cases literal.sign with
  | unmarked => exact ⟨c, _, rfl, .inr (.inr hc)⟩
  | plus => exact ⟨'+', _, rfl, .inl rfl⟩
  | minus => exact ⟨'-', _, rfl, .inr (.inl rfl)⟩

theorem exists_cons_of_isValid {settings : Settings} {term : Term} (h : term.IsValid settings) :
    ∃ c rest, term.written = c :: rest ∧ Text.isValueStart c = true := by
  cases term with
  | text content => exact ⟨'@', _, rfl, by decide⟩
  | number literal =>
      obtain ⟨c, rest, htext, hc⟩ := exists_cons_of_number h.1
      exact ⟨c, rest, htext, Text.isValueStart_of_number hc⟩
  | reference name =>
      obtain ⟨c, rest, rfl, hc⟩ := Text.exists_cons_of_run h
      exact ⟨c, rest, rfl, by simp [Text.isValueStart, hc]⟩
  | expression body => exact ⟨'|', _, rfl, by decide⟩
  | emptyList inner => exact ⟨'[', _, rfl, by decide⟩
  | list first further trailing => exact ⟨'[', _, rfl, by decide⟩
  | emptyMapping inner => exact ⟨'\x7b', _, rfl, by decide⟩
  | mapping first further trailing => exact ⟨'\x7b', _, rfl, by decide⟩

theorem isAbsent_written_append {settings : Settings} {term : Term} (h : term.IsValid settings)
    (rest : Text) : Insignificant.IsAbsent (term.written ++ rest) := by
  obtain ⟨c, tail, hwritten, hc⟩ := exists_cons_of_isValid h
  rw [hwritten]
  exact Text.isAbsent_of_isValueStart hc _

theorem head?_written_ne {settings : Settings} {term : Term} (h : term.IsValid settings)
    (rest : Text) {c : Char} (hc : Text.isValueStart c = false) :
    (term.written ++ rest).head? ≠ some c := by
  obtain ⟨d, tail, hwritten, hd⟩ := exists_cons_of_isValid h
  rw [hwritten]
  have hne : d ≠ c := Text.ne_of_class hd hc
  simpa using hne

theorem endsRun_written_append {settings : Settings} {term : Term} (h : term.IsValid settings)
    (hreference : ∀ name, term ≠ .reference name) (rest : Text) :
    Text.EndsRun Text.isNameLetter (term.written ++ rest) := by
  cases term with
  | number literal =>
      obtain ⟨c, tail, htext, hc⟩ := exists_cons_of_number h.1
      have hletter : Text.isNameLetter c = false := by
        rcases hc with rfl | rfl | hc
        · decide
        · decide
        · apply Bool.eq_false_iff.mpr
          intro hletter
          simp [Text.isDigit_eq_false_of_isNameLetter hletter] at hc
      rw [written, htext]
      exact Text.endsRun_cons hletter
  | reference name => exact absurd rfl (hreference name)
  | _ => exact Text.endsRun_cons (by decide)

/-! What collections stand for. -/

section

variable {constants : Constants}

theorem value_list (first : Spaced Term) (further : List (Spaced Term)) (trailing : Option Gap) :
    (Term.list first further trailing).value constants =
      Value.list <$> itemValues constants (first :: further) := by
  rw [Term.value, itemValues]
  cases first.content.value constants with
  | error cause => rfl
  | ok value =>
      change (itemValues constants further >>= fun values => _) =
        Value.list <$> (itemValues constants further >>= fun values => _)
      cases itemValues constants further with
      | error cause => rfl
      | ok values => rfl

theorem putEntryValues_cons (before : Entries) (item : WrittenEntry Term)
    (further : List (WrittenEntry Term)) :
    putEntryValues constants before (item :: further) =
      ((item.value.content.value constants >>= fun value => .ok (item.key, value)) >>=
        fun found => putEntryValues constants (before.put found.1 found.2) further) := by
  rw [putEntryValues]
  cases item.value.content.value constants <;> rfl

theorem value_mapping (first : WrittenEntry Term) (further : List (WrittenEntry Term))
    (trailing : Option Gap) :
    (Term.mapping first further trailing).value constants =
      Value.mapping <$> putEntryValues constants [] (first :: further) := by
  rw [Term.value, putEntryValues]
  cases first.value.content.value constants <;> rfl

end

end Term

end ConfTree
