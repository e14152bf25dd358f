import ConfTree.Proofs.ReadingStep
import ConfTree.Proofs.WrittenTerm

namespace ConfTree.Reading

open Term

variable {settings : Settings} {constants : Constants} {limit : Nat} {member : Reading Value}

/-- A text is a gap and a term that stands for a value, goes as far as it can and takes no more
than a number of readers. -/
def Spells (settings : Settings) (constants : Constants) (limit : Nat) (text rest : Text)
    (value : Value) : Prop :=
  ∃ (gap : Gap) (term : Term), gap.IsInner ∧ term.IsValid settings ∧ term.StopsBefore rest ∧
    text = gap.text ++ term.written ∧ term.value constants = .ok value ∧ term.levels ≤ limit

theorem ensures_continues (separator closing : Char) (otherwise : Cause) :
    Ensures (continues separator closing otherwise) fun text rest result =>
      (result = true ∧ ∃ after before : Gap, after.IsInner ∧ before.MayPrecede rest ∧
        text = after.text ++ separator :: before.text) ∨
      (result = false ∧ ∃ (after : Gap) (trailing : Option Gap), after.IsInner ∧
        IsValidTrailing trailing ∧
        text = after.text ++ (trailingText separator trailing ++ [closing])) := by
  intro cursor last result h
  obtain ⟨separated, between, hseparator, h⟩ := exists_of_bind_eq_ok h
  obtain ⟨_, hbetween, after, hafter⟩ := ensures_accept separator cursor between _ hseparator
  rcases hafter with ⟨rfl, hafter, rfl⟩ | ⟨rfl, hafter, rfl⟩
  · obtain ⟨closed, _, hclosing, h⟩ := exists_of_bind_eq_ok h
    obtain ⟨rfl, rfl⟩ := eq_of_pure h
    obtain ⟨_, hlast, gap, hgap⟩ := ensures_accept closing between _ closed hclosing
    rcases hgap with ⟨rfl, hgap, rfl⟩ | ⟨rfl, hgap, rfl⟩
    · refine ⟨_, hbetween.trans hlast, .inr ⟨rfl, after, some gap, hafter, ?_, ?_⟩⟩
      · rintro _ ⟨⟩
        exact hgap
      · simp [trailingText]
    · exact ⟨_, hbetween.trans hlast, .inl ⟨rfl, after, gap, hafter, hgap, by simp⟩⟩
  · obtain ⟨closed, behind, hclosing, h⟩ := exists_of_bind_eq_ok h
    obtain ⟨_, hlast, gap, hgap⟩ := ensures_accept closing between behind closed hclosing
    rcases hgap with ⟨rfl, hgap, rfl⟩ | ⟨rfl, hgap, rfl⟩
    · obtain ⟨rfl, rfl⟩ := eq_of_pure h
      have hne : between.rest ≠ [] := by
        rw [hlast.1]
        simp
      refine ⟨_, hbetween.trans hlast, .inr ⟨rfl, after ++ gap, none,
        (hafter.isInner hne).append hgap, by simp [IsValidTrailing], ?_⟩⟩
      simp [trailingText, Gap.text_append]
    · exact absurd h not_fail_eq_ok

/-! Lists. -/

/-- A list without its opening bracket, put as if its first item were a further one. -/
def SpellsItems (settings : Settings) (constants : Constants) (limit : Nat) (text : Text)
    (results : List Value) : Prop :=
  ∃ (first : Spaced Term) (further : List (Spaced Term)) (trailing : Option Gap),
    AreValidItems settings (first :: further) ∧ IsValidTrailing trailing ∧
      ';' :: text = writtenItems (first :: further) ++ (trailingText ';' trailing ++ [']']) ∧
      itemValues constants (first :: further) = .ok results ∧
      levelsOfItems (first :: further) ≤ limit

theorem ne_nil_of_separated {separator closing : Char} {text written rest before : Text}
    {trailing : Option Gap} (hbefore : before = text ++ rest)
    (htext : separator :: text =
      (separator :: written) ++ (trailingText separator trailing ++ [closing])) : before ≠ [] := by
  rw [hbefore, (List.cons.inj htext).2]
  simp

theorem ensures_items (hmember : Ensures member (Spells settings constants limit)) (bound : Nat) :
    Ensures (items member bound) fun text _ results =>
      SpellsItems settings constants limit text results := by
  induction bound with
  | zero =>
      intro cursor after results h
      exact absurd h not_fail_eq_ok
  | succ bound ih =>
      intro cursor last results h
      rw [items] at h
      obtain ⟨value, between, hvalue, h⟩ := exists_of_bind_eq_ok h
      obtain ⟨_, hbetween, gap, term, hgap, hterm, -, rfl, hmeaning, hlevels⟩ :=
        hmember cursor between value hvalue
      obtain ⟨further, behind, hcontinues, h⟩ := exists_of_bind_eq_ok h
      obtain ⟨_, hbehind, hafter⟩ := ensures_continues _ _ _ between behind further hcontinues
      rcases hafter with ⟨rfl, after, before, hafter, hbefore, rfl⟩ |
        ⟨rfl, after, trailing, hafter, htrailing, rfl⟩
      · obtain ⟨values, _, hitems, h⟩ := exists_of_bind_eq_ok h
        obtain ⟨rfl, rfl⟩ := eq_of_pure h
        obtain ⟨text, hlast, first, items, trailing, hvalid, htrailing, htext, hvalues,
          hitemLevels⟩ := ih behind _ values hitems
        have hbefore : before.IsInner := hbefore.isInner (ne_nil_of_separated hlast.1 htext)
        refine ⟨_, (hbetween.trans hbehind).trans hlast, ⟨gap, term, after⟩,
          { first with before := before ++ first.before } :: items, trailing,
          ⟨hgap, hterm, hafter, hbefore.append hvalid.1, hvalid.2⟩, htrailing, ?_, ?_,
          Nat.max_le.mpr ⟨hlevels, hitemLevels⟩⟩
        · simp only [writtenItems, List.cons_append, List.cons.injEq, true_and] at htext
          simp [writtenItems, Gap.text_append, htext]
        · rw [itemValues, hmeaning]
          change (itemValues constants (first :: items) >>= fun values => _) = _
          rw [hvalues]
          rfl
      · obtain ⟨rfl, rfl⟩ := eq_of_pure h
        refine ⟨_, hbetween.trans hbehind, ⟨gap, term, after⟩, [], trailing,
          ⟨hgap, hterm, hafter, trivial⟩, htrailing, ?_, ?_,
          Nat.max_le.mpr ⟨hlevels, Nat.zero_le limit⟩⟩
        · simp [writtenItems]
        · simp [itemValues, hmeaning, Bind.bind, Except.bind]

theorem ensures_list (hmember : Ensures member (Spells settings constants limit)) :
    Ensures (list member) (Spells settings constants (limit + 1)) := by
  intro cursor after result h
  obtain ⟨_, opened, hopen, h⟩ := exists_of_bind_eq_ok h
  obtain ⟨_, hopened, gap, hgap, rfl⟩ := ensures_expect '[' cursor opened _ hopen
  obtain ⟨isEmpty, inside, hclose, h⟩ := exists_of_bind_eq_ok h
  obtain ⟨_, hinside, inner, hinner⟩ := ensures_accept ']' opened inside _ hclose
  rcases hinner with ⟨rfl, hinner, rfl⟩ | ⟨rfl, hinner, rfl⟩
  · obtain ⟨rfl, rfl⟩ := eq_of_pure h
    exact ⟨_, hopened.trans hinside, gap, .emptyList inner, hgap, hinner, trivial,
      by simp [Term.written], rfl, Nat.succ_le_succ (Nat.zero_le limit)⟩
  · have h : (items member inside.rest.length >>= fun values => pure (Value.list values)) inside =
      .ok result after := h
    obtain ⟨values, _, hitems, h⟩ := exists_of_bind_eq_ok h
    obtain ⟨rfl, rfl⟩ := eq_of_pure h
    obtain ⟨text, hlast, first, further, trailing, hvalid, htrailing, htext, hvalues, hlevels⟩ :=
      ensures_items hmember _ inside _ values hitems
    have hinner : inner.IsInner := hinner.isInner (ne_nil_of_separated hlast.1 htext)
    refine ⟨_, (hopened.trans hinside).trans hlast, gap,
      .list { first with before := inner ++ first.before } further trailing, hgap,
      ⟨hinner.append hvalid.1, hvalid.2.1, hvalid.2.2.1, hvalid.2.2.2, htrailing⟩, trivial, ?_, ?_,
      Nat.succ_le_succ hlevels⟩
    · simp only [writtenItems, List.cons_append, List.cons.injEq, true_and] at htext
      simp [Term.written, Gap.text_append, htext]
    · rw [value_list]
      change Value.list <$> itemValues constants (first :: further) = _
      rw [hvalues]
      rfl

/-! Mappings. -/

def SpellsEntries (settings : Settings) (constants : Constants) (limit : Nat) (before : Entries)
    (text : Text) (results : Entries) : Prop :=
  ∃ (first : WrittenEntry Term) (further : List (WrittenEntry Term)) (trailing : Option Gap),
    AreValidEntries settings (first :: further) ∧ IsValidTrailing trailing ∧
      ',' :: text = writtenEntries (first :: further) ++ (trailingText ',' trailing ++ ['\x7d']) ∧
      putEntryValues constants before (first :: further) = .ok results ∧
      levelsOfEntries (first :: further) ≤ limit

theorem ensures_entry (hmember : Ensures member (Spells settings constants limit)) :
    Ensures (entry member) fun text _ result =>
      ∃ (beforeKey beforeColon gap : Gap) (term : Term), beforeKey.IsInner ∧
        Text.IsName result.1 ∧ beforeColon.IsInner ∧ gap.IsInner ∧ term.IsValid settings ∧
        text = beforeKey.text ++ result.1 ++ beforeColon.text ++ ':' :: gap.text ++ term.written ∧
        term.value constants = .ok result.2 ∧ term.levels ≤ limit := by
  intro cursor after result h
  obtain ⟨_, skipped, hskip, h⟩ := exists_of_bind_eq_ok h
  obtain ⟨_, hskipped, beforeKey, rfl, hbeforeKey, -⟩ := ensures_skip cursor skipped _ hskip
  obtain ⟨key, named, hname, h⟩ := exists_of_bind_eq_ok h
  obtain ⟨_, hnamed, rfl, hletters, -⟩ := ensures_run _ skipped named key hname
  by_cases hkey : key = []
  · rw [if_pos hkey] at h
    exact absurd h not_fail_eq_ok
  rw [if_neg hkey] at h
  obtain ⟨_, behind, hcolon, h⟩ := exists_of_bind_eq_ok h
  obtain ⟨_, hbehind, beforeColon, hbeforeColon, rfl⟩ := ensures_expect ':' named behind _ hcolon
  obtain ⟨value, last, hvalue, h⟩ := exists_of_bind_eq_ok h
  obtain ⟨rfl, rfl⟩ := eq_of_pure h
  obtain ⟨_, hlast, gap, term, hgap, hterm, -, rfl, hmeaning, hlevels⟩ :=
    hmember behind last value hvalue
  have hbeforeKey : beforeKey.IsInner := by
    apply hbeforeKey.isInner
    rw [hnamed.1]
    simp [hkey]
  exact ⟨_, ((hskipped.trans hnamed).trans hbehind).trans hlast, beforeKey, beforeColon, gap, term,
    hbeforeKey, ⟨hkey, hletters⟩, hbeforeColon, hgap, hterm, by simp, hmeaning, hlevels⟩

theorem ensures_entries (hmember : Ensures member (Spells settings constants limit)) (bound : Nat)
    (before : Entries) :
    Ensures (entries member bound before) fun text _ results =>
      SpellsEntries settings constants limit before text results := by
  induction bound generalizing before with
  | zero =>
      intro cursor after results h
      exact absurd h not_fail_eq_ok
  | succ bound ih =>
      intro cursor last results h
      rw [entries] at h
      obtain ⟨⟨key, value⟩, between, hentry, h⟩ := exists_of_bind_eq_ok h
      obtain ⟨_, hbetween, beforeKey, beforeColon, gap, term, hbeforeKey, hkey, hbeforeColon, hgap,
        hterm, rfl, hmeaning, hlevels⟩ := ensures_entry hmember cursor between _ hentry
      obtain ⟨further, behind, hcontinues, h⟩ := exists_of_bind_eq_ok h
      obtain ⟨_, hbehind, hafter⟩ := ensures_continues _ _ _ between behind further hcontinues
      rcases hafter with ⟨rfl, after, inner, hafter, hinner, rfl⟩ |
        ⟨rfl, after, trailing, hafter, htrailing, rfl⟩
      · obtain ⟨text, hlast, first, items, trailing, hvalid, htrailing, htext, hvalues,
          hentryLevels⟩ := ih _ behind last results h
        have hinner : inner.IsInner := hinner.isInner (ne_nil_of_separated hlast.1 htext)
        refine ⟨_, (hbetween.trans hbehind).trans hlast,
          ⟨beforeKey, key, beforeColon, ⟨gap, term, after⟩⟩,
          { first with beforeKey := inner ++ first.beforeKey } :: items, trailing,
          ⟨hbeforeKey, hkey, hbeforeColon, hgap, hterm, hafter, hinner.append hvalid.1, hvalid.2⟩,
          htrailing, ?_, ?_, Nat.max_le.mpr ⟨hlevels, hentryLevels⟩⟩
        · simp only [writtenEntries, List.cons_append, List.cons.injEq, true_and] at htext
          simp [writtenEntries, Gap.text_append, htext]
        · rw [putEntryValues_cons, hmeaning]
          exact hvalues
      · obtain ⟨rfl, rfl⟩ := eq_of_pure h
        refine ⟨_, hbetween.trans hbehind, ⟨beforeKey, key, beforeColon, ⟨gap, term, after⟩⟩, [],
          trailing, ⟨hbeforeKey, hkey, hbeforeColon, hgap, hterm, hafter, trivial⟩, htrailing,
          ?_, ?_, Nat.max_le.mpr ⟨hlevels, Nat.zero_le limit⟩⟩
        · simp [writtenEntries]
        · rw [putEntryValues_cons, hmeaning]
          rfl

theorem ensures_mapping (hmember : Ensures member (Spells settings constants limit)) :
    Ensures (mapping member) (Spells settings constants (limit + 1)) := by
  intro cursor after result h
  obtain ⟨_, opened, hopen, h⟩ := exists_of_bind_eq_ok h
  obtain ⟨_, hopened, gap, hgap, rfl⟩ := ensures_expect '\x7b' cursor opened _ hopen
  obtain ⟨isEmpty, inside, hclose, h⟩ := exists_of_bind_eq_ok h
  obtain ⟨_, hinside, inner, hinner⟩ := ensures_accept '\x7d' opened inside _ hclose
  rcases hinner with ⟨rfl, hinner, rfl⟩ | ⟨rfl, hinner, rfl⟩
  · obtain ⟨rfl, rfl⟩ := eq_of_pure h
    exact ⟨_, hopened.trans hinside, gap, .emptyMapping inner, hgap, hinner, trivial,
      by simp [Term.written], rfl, Nat.succ_le_succ (Nat.zero_le limit)⟩
  · have h : (entries member inside.rest.length [] >>= fun found => pure (Value.mapping found))
        inside = .ok result after := h
    obtain ⟨found, _, hentries, h⟩ := exists_of_bind_eq_ok h
    obtain ⟨rfl, rfl⟩ := eq_of_pure h
    obtain ⟨text, hlast, first, further, trailing, hvalid, htrailing, htext, hvalues, hlevels⟩ :=
      ensures_entries hmember _ [] inside _ found hentries
    have hinner : inner.IsInner := hinner.isInner (ne_nil_of_separated hlast.1 htext)
    rcases hvalid with ⟨hbeforeKey, hkey, hbeforeColon, hbefore, hcontent, hafter, hfurther⟩
    refine ⟨_, (hopened.trans hinside).trans hlast, gap,
      .mapping { first with beforeKey := inner ++ first.beforeKey } further trailing, hgap,
      ⟨hinner.append hbeforeKey, hkey, hbeforeColon, hbefore, hcontent, hafter, hfurther,
        htrailing⟩, trivial, ?_, ?_, Nat.succ_le_succ hlevels⟩
    · simp only [writtenEntries, List.cons_append, List.cons.injEq, true_and] at htext
      simp [Term.written, Gap.text_append, htext]
    · rw [value_mapping]
      change Value.mapping <$> putEntryValues constants [] (first :: further) = _
      rw [hvalues]
      rfl

end ConfTree.Reading
