import ConfTree.Proofs.DocumentReading
import ConfTree.Proofs.ProperValue

namespace ConfTree

def Value.orElse (value earlier : Value) : Value :=
  match value with
  | .null => earlier
  | value => value

theorem Value.orElse_of_ne_null {value : Value} (h : value ≠ .null) (earlier : Value) :
    value.orElse earlier = value := by
  cases value with
  | null => exact absurd rfl h
  | _ => rfl

theorem Value.orElse_orElse {between : Value} (h : between ≠ .null) (value earlier : Value) :
    (value.orElse between).orElse earlier = value.orElse between := by
  cases value with
  | null => exact orElse_of_ne_null h earlier
  | _ => rfl

theorem Meaning.areProper_add {settings : Settings} {meaning next : Meaning} {item : Item}
    (hconstants : meaning.constants.AreProper) (hitem : item.IsValid settings)
    (h : meaning.add item = .ok next) : next.constants.AreProper := by
  cases item with
  | declaration name beforeMarker beforeValue term =>
      obtain ⟨value, hvalue, hnext⟩ := Term.exists_value_of_bind_eq_ok h
      obtain rfl := Except.ok.inj hnext
      exact hconstants.bind name (Term.isProper_value hconstants hitem.2.2.2 hvalue)
  | value term =>
      obtain ⟨value, -, hnext⟩ := Term.exists_value_of_bind_eq_ok h
      obtain rfl := Except.ok.inj hnext
      exact hconstants

theorem Document.areProper_meaningFrom {settings : Settings} {items : List (Gap × Item)}
    {ending : Gap} {before after : Meaning} (hconstants : before.constants.AreProper)
    (hvalid : IsValid settings ⟨items, ending⟩) (h : meaningFrom before items = .ok after) :
    after.constants.AreProper := by
  induction items generalizing before with
  | nil =>
      obtain rfl : before = after := Except.ok.inj h
      exact hconstants
  | cons item items ih =>
      obtain ⟨-, hitem, hvalid⟩ := isValid_cons_iff.mp hvalid
      cases hadd : before.add item.2 with
      | ok next =>
          rw [meaningFrom_cons_of_ok hadd] at h
          exact ih (Meaning.areProper_add hconstants hitem hadd) hvalid h
      | error cause =>
          rw [meaningFrom_cons_of_error hadd] at h
          simp at h

namespace Reading

variable {settings : Settings} {constants : Constants} {cursor after : Cursor} {value : Value}

theorem isProper_of_value (hconstants : constants.AreProper)
    (h : Reading.value settings constants cursor = .ok value after) : value.IsProper := by
  obtain ⟨_, -, _, term, -, hterm, -, -, hmeaning, -⟩ :=
    ensures_value settings constants cursor after value h
  exact Term.isProper_value hconstants hterm hmeaning

theorem isProper_of_declaration? {name : Text} (hconstants : constants.AreProper)
    (h : declaration? settings constants cursor = .ok (some (name, value)) after) :
    value.IsProper := by
  obtain ⟨_, _, term, hitem, -, -, hmeaning, -⟩ := exists_item_of_declaration? h
  exact Term.isProper_value hconstants hitem.2.2.2 hmeaning

end Reading

namespace SessionReading

open Reading

variable {α : Type} {settings : Settings} {session : Session} {last : Value}

/-- What a reading comes to that gives an earlier value in place of null. -/
def withLast (last : Value) :
    EStateM.Result ReadError Session Value → EStateM.Result ReadError Session Value
  | .ok value after => .ok (value.orElse last) after
  | .error error after => .error error after

theorem withLast_withLast {between : Value} (h : between ≠ .null) (last : Value)
    (result : EStateM.Result ReadError Session Value) :
    withLast last (withLast between result) = withLast between result := by
  cases result with
  | ok value after => simp only [withLast, Value.orElse_orElse h]
  | error error after => rfl

theorem bind_eq_withLast {first : SessionReading α} {next other : α → SessionReading Value}
    (h : ∀ value between, first session = .ok value between →
      next value between = withLast last (other value between)) :
    (first >>= next) session = withLast last ((first >>= other) session) := by
  cases hfirst : first session with
  | ok value between => rw [bind_of_ok hfirst, bind_of_ok hfirst, h value between hfirst]
  | error error between => rw [bind_of_error hfirst, bind_of_error hfirst, withLast]

theorem item_keeps_or_gives (settings : Settings) (hconstants : session.constants.AreProper) :
    (∃ after : Session, after.constants.AreProper ∧
      ∀ last, item settings last session = .ok last after) ∨
    (∃ (value : Value) (after : Session), value ≠ .null ∧ after.constants.AreProper ∧
      ∀ last, item settings last session = .ok value after) ∨
    ∃ error left, ∀ last, item settings last session = .error error left := by
  cases hdeclared : declaration settings session with
  | error error left => exact .inr (.inr ⟨error, left, fun _ => bind_of_error hdeclared _⟩)
  | ok declared between =>
      have hitem : ∀ last, item settings last session =
          (if declared then pure last else ofReading (Reading.value settings)) between :=
        fun _ => bind_of_ok hdeclared _
      rcases exists_of_declaration hdeclared with
        ⟨rfl, name, value, hread, hbound⟩ | ⟨rfl, rfl⟩
      · refine .inl ⟨between, ?_, hitem⟩
        rw [hbound]
        exact hconstants.bind name (isProper_of_declaration? hconstants hread)
      · cases hread : Reading.value settings between.constants between.cursor with
        | ok value after =>
            refine .inr (.inl ⟨value, ⟨after, between.constants⟩,
              (isProper_of_value hconstants hread).ne_null, hconstants, fun last => ?_⟩)
            rw [hitem last]
            exact ofReading_of_ok hread
        | error error after =>
            refine .inr (.inr ⟨error, ⟨after, between.constants⟩, fun last => ?_⟩)
            rw [hitem last]
            exact ofReading_of_error hread

/-- The value given before items stands in for their last one if they have none. -/
theorem items_eq_withLast (bound : Nat) (last : Value)
    (hconstants : session.constants.AreProper) :
    items settings bound last session = withLast last (items settings bound .null session) := by
  induction bound generalizing last session with
  | zero => rfl
  | succ bound ih =>
      rw [items_succ, items_succ]
      refine bind_eq_withLast fun _ skipped hskip => bind_eq_withLast fun ended here hended => ?_
      have hskipped := (exists_of_ofReading_eq_ok hskip).2
      have hhere := (exists_of_ofReading_eq_ok hended).2
      have hconstants : here.constants.AreProper := by rwa [hhere, hskipped]
      cases ended with
      | true => rfl
      | false =>
          change (item settings last >>= items settings bound) here =
            withLast last ((item settings .null >>= items settings bound) here)
          rcases item_keeps_or_gives settings hconstants with ⟨after, hafter, hitem⟩ |
            ⟨value, after, hvalue, hafter, hitem⟩ | ⟨error, left, hitem⟩
          · rw [bind_of_ok (hitem last), bind_of_ok (hitem .null), ih last hafter]
          · rw [bind_of_ok (hitem last), bind_of_ok (hitem .null), ih value hafter,
              withLast_withLast hvalue]
          · rw [bind_of_error (hitem last), bind_of_error (hitem .null), withLast]

end SessionReading

end ConfTree
