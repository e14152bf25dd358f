import ConfTree.Proofs.DocumentReading
import ConfTree.Proofs.UniformReading

namespace ConfTree

namespace Reading

variable {settings : Settings} {constants : Constants}

theorem settles_name (text : Text) :
    name.Settles text (text.takeWhile Text.isNameLetter).length
      (.ok (text.takeWhile Text.isNameLetter)) := by
  rintro cursor rfl
  rfl

theorem exists_settles_afterName (settings : Settings) (constants : Constants) {name : Text}
    (hname : name ≠ []) (text : Text) :
    (∃ count ≤ text.length, ∃ verdict, ∀ start : Cursor,
      (afterName settings constants start name).Settles text count verdict) ∨
    (∀ start cursor : Cursor, cursor.rest = text →
      afterName settings constants start name cursor = .ok none start) := by
  simp only [afterName, if_neg hname]
  obtain ⟨skipped, hskipped, verdict, hskip⟩ := isUniform_skip text
  cases verdict with
  | error failure =>
      exact .inl ⟨skipped, hskipped, .error failure, fun start => hskip.bind_of_error _⟩
  | ok _ =>
      by_cases hmarker : bindingMarker <+: text.drop skipped
      · have hvalue : IsUniform (advance bindingMarker.length >>= fun _ =>
            value settings constants >>= fun value => pure (some (name, value))) :=
          (isUniform_advance _).bind fun _ => (isUniform_value settings constants).bind fun value =>
            isUniform_pure (some (name, value))
        obtain ⟨further, hfurther, verdict, hbound⟩ := hvalue (text.drop skipped)
        rw [List.length_drop] at hfurther
        refine .inl ⟨skipped + further, by omega, verdict, fun start => hskip.bind ?_⟩
        intro cursor hcursor
        rw [afterGap_of_marker start name (hcursor ▸ hmarker)]
        exact hbound cursor hcursor
      · refine .inr fun start cursor hcursor => ?_
        have hrest : (cursor.advance skipped).rest = text.drop skipped := by
          rw [Cursor.rest_advance, hcursor]
        rw [bind_of_ok (hskip cursor hcursor)]
        exact afterGap_of_not_marker start name (hrest ▸ hmarker)

theorem isUniform_declaration? (settings : Settings) (constants : Constants) :
    IsUniform (declaration? settings constants) := by
  intro text
  have hread := settles_name text
  have hlength := (List.takeWhile_prefix Text.isNameLetter (l := text)).length_le
  by_cases hname : text.takeWhile Text.isNameLetter = []
  · rw [hname] at hread
    refine ⟨0, Nat.zero_le _, .ok none, fun cursor hcursor => ?_⟩
    rw [declaration?_eq, bind_of_ok (hread cursor hcursor), List.length_nil, Cursor.advance_zero]
    rfl
  · rcases exists_settles_afterName settings constants hname
      (text.drop (text.takeWhile Text.isNameLetter).length) with
      ⟨count, hcount, verdict, hsettles⟩ | hback
    · rw [List.length_drop] at hcount
      refine ⟨_, ?_, verdict, fun cursor hcursor => hread.bind (hsettles cursor) cursor hcursor⟩
      omega
    · refine ⟨0, Nat.zero_le _, .ok none, fun cursor hcursor => ?_⟩
      have hrest := congrArg (List.drop (text.takeWhile Text.isNameLetter).length) hcursor
      rw [declaration?_eq, bind_of_ok (hread cursor hcursor), hback cursor _ hrest,
        Cursor.advance_zero]
      rfl

end Reading

namespace SessionReading

open Reading

variable {α β : Type}

/-- In front of every text, a reading moves on alike from wherever the text stands, and comes to
the same constants and the same verdict. -/
def IsUniform (reading : SessionReading α) : Prop :=
  ∀ (text : Text) (constants : Constants), ∃ count ≤ text.length,
    ∃ (after : Constants) (verdict : Except Failure α), ∀ cursor : Cursor, cursor.rest = text →
      reading ⟨cursor, constants⟩ =
        reached (cursor.advance count).position ⟨cursor.advance count, after⟩ verdict

theorem isUniform_pure (value : α) : IsUniform (pure value) := by
  refine fun text constants => ⟨0, Nat.zero_le _, constants, .ok value, fun cursor _ => ?_⟩
  rw [Cursor.advance_zero]
  rfl

theorem isUniform_bind (name : Text) (value : Value) : IsUniform (bind name value) := by
  refine fun text constants =>
    ⟨0, Nat.zero_le _, constants.bind name value, .ok (), fun cursor _ => ?_⟩
  rw [Cursor.advance_zero]
  rfl

theorem isUniform_ofReading {reading : Constants → Reading α}
    (h : ∀ constants, (reading constants).IsUniform) : IsUniform (ofReading reading) := by
  intro text constants
  obtain ⟨count, hcount, verdict, hsettles⟩ := h constants text
  refine ⟨count, hcount, constants, verdict, fun cursor hcursor => ?_⟩
  cases verdict with
  | ok value =>
      rw [ofReading, hsettles cursor hcursor]
      rfl
  | error failure =>
      rw [ofReading, hsettles cursor hcursor]
      rfl

theorem IsUniform.bind {first : SessionReading α} {next : α → SessionReading β}
    (hfirst : IsUniform first) (hnext : ∀ value, IsUniform (next value)) :
    IsUniform (first >>= next) := by
  intro text constants
  obtain ⟨count, hcount, between, verdict, hsettles⟩ := hfirst text constants
  cases verdict with
  | ok value =>
      obtain ⟨further, hfurther, after, verdict, hthen⟩ := hnext value (text.drop count) between
      rw [List.length_drop] at hfurther
      refine ⟨count + further, by omega, after, verdict, fun cursor hcursor => ?_⟩
      have hrest : (cursor.advance count).rest = text.drop count := by
        rw [Cursor.rest_advance, hcursor]
      rw [bind_of_ok (hsettles cursor hcursor), hthen _ hrest, Cursor.advance_advance]
  | error failure =>
      exact ⟨count, hcount, between, .error failure, fun cursor hcursor =>
        bind_of_error (hsettles cursor hcursor) next⟩

theorem isUniform_declaration (settings : Settings) : IsUniform (declaration settings) := by
  refine (isUniform_ofReading (isUniform_declaration? settings)).bind fun found => ?_
  cases found with
  | none => exact isUniform_pure _
  | some binding => exact (isUniform_bind _ _).bind fun _ => isUniform_pure _

theorem isUniform_item (settings : Settings) (last : Value) : IsUniform (item settings last) := by
  refine (isUniform_declaration settings).bind fun declared => ?_
  cases declared with
  | true => exact isUniform_pure last
  | false => exact isUniform_ofReading (isUniform_value settings)

theorem isUniform_items (settings : Settings) (bound : Nat) (last : Value) :
    IsUniform (items settings bound last) := by
  induction bound generalizing last with
  | zero => exact isUniform_pure last
  | succ bound ih =>
      rw [items_succ]
      refine (isUniform_ofReading fun _ => isUniform_skip).bind fun _ =>
        (isUniform_ofReading fun _ => isUniform_atEnd).bind fun ended => ?_
      cases ended with
      | true => exact isUniform_pure last
      | false => exact (isUniform_item settings last).bind ih

theorem isUniform_document (settings : Settings) : IsUniform (document settings) := by
  intro text constants
  obtain ⟨count, hcount, after, verdict, hsettles⟩ :=
    isUniform_items settings (text.length + 1) .null text constants
  refine ⟨count, hcount, after, verdict, fun cursor hcursor => ?_⟩
  rw [← hsettles cursor hcursor, ← hcursor]
  rfl

end SessionReading

end ConfTree
