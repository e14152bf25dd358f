import ConfTree.Proofs.WrittenTerm

namespace ConfTree

namespace Reading

/-- The insignificant start of a text has an end, and the marker of a declaration does not stand
there. -/
def BindsNothing (text : Text) : Prop :=
  ∃ count, Insignificant.length? .between text = some count ∧ ¬bindingMarker <+: text.drop count

theorem bindsNothing_text_append {gap : Gap} {rest : Text} (hgap : gap.MayPrecede rest)
    (habsent : Insignificant.IsAbsent rest) (hcolon : rest.head? ≠ some ':') :
    BindsNothing (gap.text ++ rest) := by
  refine ⟨gap.text.length, Gap.length?_text_of_isAbsent hgap habsent, ?_⟩
  rw [List.drop_left]
  rintro ⟨tail, rfl⟩
  exact hcolon rfl

end Reading

namespace Item

theorem exists_cons_of_isValid {settings : Settings} {item : Item} (h : item.IsValid settings) :
    ∃ c rest, item.written = c :: rest ∧ Text.isValueStart c = true := by
  cases item with
  | declaration name beforeMarker beforeValue term =>
      rw [written, List.append_assoc, List.append_assoc, List.append_assoc]
      exact Text.exists_cons_of_isName h.1 _
  | value term => exact Term.exists_cons_of_isValid h

theorem isAbsent_written_append {settings : Settings} {item : Item} (h : item.IsValid settings)
    (rest : Text) : Insignificant.IsAbsent (item.written ++ rest) := by
  obtain ⟨c, tail, hwritten, hc⟩ := exists_cons_of_isValid h
  rw [hwritten]
  exact Text.isAbsent_of_isValueStart hc _

end Item

namespace Document

variable {settings : Settings} {gap ending : Gap} {item : Item} {items : List (Gap × Item)}

theorem written_cons (gap : Gap) (item : Item) (items : List (Gap × Item)) (ending : Gap) :
    written ⟨(gap, item) :: items, ending⟩ =
      gap.text ++ (item.written ++ written ⟨items, ending⟩) := by
  simp [written]

theorem isValid_cons_iff : IsValid settings ⟨(gap, item) :: items, ending⟩ ↔
    gap.IsInner ∧ item.IsValid settings ∧ IsValid settings ⟨items, ending⟩ := by
  simp [IsValid, and_assoc]

/-- The values of the items stop where the text behind them begins. -/
def AreApart (ending : Gap) : List (Gap × Item) → Prop
  | [] => True
  | (_, item) :: items =>
      item.term.StopsBefore (written ⟨items, ending⟩) ∧ AreApart ending items

def IsApart (document : Document) : Prop :=
  AreApart document.ending document.items

theorem areApart_of_separated (hvalid : IsValid settings ⟨items, ending⟩)
    (hseparated : ∀ item ∈ items.tail, item.1 ≠ []) : AreApart ending items := by
  induction items with
  | nil => trivial
  | cons item items ih =>
      obtain ⟨-, -, hvalid⟩ := isValid_cons_iff.mp hvalid
      refine ⟨Term.stopsBefore_of_isApart ?_ _, ih hvalid ?_⟩
      · cases items with
        | nil =>
            have hends := Gap.isApart_text_append hvalid.2 fun _ => Text.isApart_nil
            rwa [List.append_nil] at hends
        | cons next items =>
            obtain ⟨hnext, -, -⟩ := isValid_cons_iff.mp hvalid
            rw [written_cons]
            refine Gap.isApart_text_append hnext.1 fun hnil => ?_
            exact absurd hnil (hseparated next (by simp))
      · intro other hother
        exact hseparated other (List.mem_of_mem_tail hother)

theorem IsSeparated.isApart {document : Document} (hvalid : document.IsValid settings)
    (h : document.IsSeparated) : document.IsApart :=
  areApart_of_separated hvalid h

theorem bindsNothing_cons (hgap : gap.IsInner) (hitem : item.IsValid settings) (rest : Text) :
    Reading.BindsNothing (gap.text ++ (item.written ++ rest)) := by
  refine Reading.bindsNothing_text_append (hgap.mayPrecede _)
    (Item.isAbsent_written_append hitem rest) ?_
  obtain ⟨c, tail, hwritten, hc⟩ := Item.exists_cons_of_isValid hitem
  have hcolon : c ≠ ':' := Text.ne_of_class hc (by decide)
  simpa [hwritten] using hcolon

theorem bindsNothing_written (h : IsValid settings ⟨items, ending⟩) :
    Reading.BindsNothing (written ⟨items, ending⟩) := by
  cases items with
  | nil =>
      have hend := Reading.bindsNothing_text_append ⟨h.2, .inr rfl⟩ Insignificant.isAbsent_nil
        (by simp)
      simpa [written] using hend
  | cons item items =>
      obtain ⟨hgap, hitem, -⟩ := isValid_cons_iff.mp h
      rw [written_cons]
      exact bindsNothing_cons hgap hitem _

/-! What items give one after the other. -/

def meaningFrom (before : Meaning) (items : List (Gap × Item)) : Except Cause Meaning :=
  items.foldlM (fun meaning item => meaning.add item.2) before

/-- What items give up to the first that is refused. -/
def reachedFrom (before : Meaning) : List (Gap × Item) → Meaning
  | [] => before
  | item :: items =>
      match before.add item.2 with
      | .ok after => reachedFrom after items
      | .error _ => before

theorem meaningFrom_cons_of_ok {before after : Meaning} (h : before.add item = .ok after) :
    meaningFrom before ((gap, item) :: items) = meaningFrom after items := by
  rw [meaningFrom, List.foldlM_cons, h]
  rfl

theorem meaningFrom_cons_of_error {before : Meaning} {cause : Cause}
    (h : before.add item = .error cause) :
    meaningFrom before ((gap, item) :: items) = .error cause := by
  rw [meaningFrom, List.foldlM_cons, h]
  rfl

theorem reachedFrom_cons_of_ok {before after : Meaning} (h : before.add item = .ok after) :
    reachedFrom before ((gap, item) :: items) = reachedFrom after items := by
  simp only [reachedFrom, h]

theorem reachedFrom_cons_of_error {before : Meaning} {cause : Cause}
    (h : before.add item = .error cause) :
    reachedFrom before ((gap, item) :: items) = before := by
  simp only [reachedFrom, h]

end Document

end ConfTree
