import ConfTree.Proofs.MarkedValue
import ConfTree.Proofs.ScalarLine

namespace ConfTree.Block

/-! The first line of a member. -/

inductive Member.IsNamed : Member → Prop where
  | item (item : Value) : IsNamed (.ofItem item)
  | entry (key : Text) (value : Value) (hkey : Text.IsName key) : IsNamed (.ofEntry (key, value))

/-- What the first line of a member has behind its header, with what follows the line. -/
def afterHeader (gap : Text) (item : Value) (rest : Text) : Text :=
  match item.scalar? with
  | some scalar => gap ++ (scalar.blockText ++ '\n' :: rest)
  | none => '\n' :: rest

def Member.firstLine (member : Member) (rest : Text) : Text :=
  match member.item.scalar? with
  | some scalar => member.lead ++ (scalar.blockText ++ '\n' :: rest)
  | none => member.header ++ '\n' :: rest

theorem firstLine_ofItem (item : Value) (rest : Text) :
    (Member.ofItem item).firstLine rest = '-' :: ' ' :: afterHeader [] item rest := by
  unfold Member.firstLine afterHeader
  split
  · rename_i hscalar
    simp only [Member.ofItem] at hscalar
    simp [Member.ofItem, hscalar]
  · rename_i hscalar
    simp only [Member.ofItem] at hscalar
    simp [Member.ofItem, hscalar]

theorem firstLine_ofEntry (key : Text) (value : Value) (rest : Text) :
    (Member.ofEntry (key, value)).firstLine rest = key ++ ':' :: afterHeader [' '] value rest := by
  unfold Member.firstLine afterHeader
  split
  · rename_i hscalar
    simp only [Member.ofEntry] at hscalar
    simp [Member.ofEntry, hscalar]
  · rename_i hscalar
    simp only [Member.ofEntry] at hscalar
    simp [Member.ofEntry, hscalar]

theorem newline_ne_blockText (scalar : Scalar) (rest otherRest : Text) :
    scalar.blockText ++ rest ≠ '\n' :: otherRest := by
  obtain ⟨c, tail, htext, hc⟩ := scalar.exists_cons_of_blockText
  intro h
  rw [htext] at h
  obtain rfl : c = '\n' := (List.cons.inj h).1
  have hnumber : Binary64.isNumberStart '\n' = false := by decide
  cases scalar with
  | null => simp [Scalar.isStart] at hc
  | number x => simp [Scalar.isStart, hnumber] at hc
  | text content => simp [Scalar.isStart] at hc

theorem eq_of_afterHeader_eq {gap : Text} (hgap : gap = [] ∨ gap = [' ']) {item other : Value}
    {rest otherRest : Text} (h : afterHeader gap item rest = afterHeader gap other otherRest) :
    item.scalar? = other.scalar? ∧ rest = otherRest := by
  have hne : ∀ (scalar : Scalar) (text more : Text),
      gap ++ (scalar.blockText ++ text) ≠ '\n' :: more := by
    intro scalar text more hline
    rcases hgap with rfl | rfl
    · exact newline_ne_blockText scalar text more hline
    · simp at hline
  unfold afterHeader at h
  cases hitem : item.scalar? with
  | none =>
      cases hother : other.scalar? with
      | none =>
          rw [hitem, hother] at h
          exact ⟨rfl, (List.cons.inj h).2⟩
      | some scalar =>
          rw [hitem, hother] at h
          exact absurd h.symm (hne scalar _ _)
  | some scalar =>
      cases hother : other.scalar? with
      | none =>
          rw [hitem, hother] at h
          exact absurd h (hne scalar _ _)
      | some otherScalar =>
          rw [hitem, hother] at h
          obtain ⟨rfl, hrest⟩ := Scalar.eq_of_blockText_append_eq (List.append_cancel_left h)
          exact ⟨rfl, hrest⟩

theorem isNameLetter_colon : Text.isNameLetter ':' = false := by decide

theorem dash_ne_name {key : Text} (hkey : Text.IsName key) (rest otherRest : Text) :
    '-' :: rest ≠ key ++ otherRest := by
  obtain ⟨c, tail, rfl, hletter⟩ := Text.exists_cons_of_run hkey
  have hc : c ≠ '-' := Text.ne_of_class hletter (by decide)
  intro h
  exact hc (List.cons.inj h).1.symm

theorem eq_of_firstLine_eq {member other : Member} (hmember : member.IsNamed)
    (hother : other.IsNamed) {rest otherRest : Text}
    (h : member.firstLine rest = other.firstLine otherRest) :
    member.header = other.header ∧ member.item.scalar? = other.item.scalar? ∧
      rest = otherRest := by
  cases hmember with
  | item item =>
      cases hother with
      | item other =>
          rw [firstLine_ofItem, firstLine_ofItem] at h
          have hafter := (List.cons.inj (List.cons.inj h).2).2
          obtain ⟨hscalar, hrest⟩ := eq_of_afterHeader_eq (.inl rfl) hafter
          exact ⟨rfl, hscalar, hrest⟩
      | entry key value hkey =>
          rw [firstLine_ofItem, firstLine_ofEntry] at h
          exact absurd h (dash_ne_name hkey _ _)
  | entry key value hkey =>
      cases hother with
      | item other =>
          rw [firstLine_ofItem, firstLine_ofEntry] at h
          exact absurd h.symm (dash_ne_name hkey _ _)
      | entry otherKey otherValue hotherKey =>
          rw [firstLine_ofEntry, firstLine_ofEntry] at h
          obtain ⟨rfl, hafter⟩ := Text.eq_of_run_append_eq hkey.2 hotherKey.2
            (Text.endsRun_cons isNameLetter_colon) (Text.endsRun_cons isNameLetter_colon) h
          obtain ⟨hscalar, hrest⟩ := eq_of_afterHeader_eq (.inr rfl) (List.cons.inj hafter).2
          exact ⟨rfl, hscalar, hrest⟩

theorem exists_cons_of_firstLine {member : Member} (hmember : member.IsNamed) (rest : Text) :
    ∃ c tail, member.firstLine rest = c :: tail ∧ c ≠ ' ' := by
  cases hmember with
  | item item => exact ⟨'-', _, firstLine_ofItem item rest, by decide⟩
  | entry key value hkey =>
      obtain ⟨c, tail, rfl, hletter⟩ := Text.exists_cons_of_run hkey
      have hc : c ≠ ' ' := Text.ne_of_class hletter (by decide)
      rw [firstLine_ofEntry]
      exact ⟨c, _, rfl, hc⟩

theorem null_ne_entry {key : Text} (hkey : Text.IsName key) (rest otherRest : Text) :
    "null".toList ++ '\n' :: rest ≠ key ++ ':' :: otherRest := by
  intro h
  have hletters : ∀ c ∈ "null".toList, Text.isNameLetter c = true :=
    List.all_eq_true.mp (by decide)
  have hnewline : Text.isNameLetter '\n' = false := by decide
  obtain ⟨-, hrest⟩ := Text.eq_of_run_append_eq hletters hkey.2
    (Text.endsRun_cons hnewline) (Text.endsRun_cons isNameLetter_colon) h
  simp at hrest

theorem number_ne_name (x : Binary64) {key : Text} (hkey : Text.IsName key)
    (rest otherRest : Text) : x.text ++ rest ≠ key ++ otherRest := by
  obtain ⟨c, tail, htext, hc⟩ := x.exists_cons_of_text
  obtain ⟨d, keyTail, rfl, hd⟩ := Text.exists_cons_of_run hkey
  intro h
  rw [htext] at h
  obtain rfl : c = d := (List.cons.inj h).1
  have hminus : c ≠ '-' := Text.ne_of_class hd (by decide)
  have hpoint : c ≠ '.' := Text.ne_of_class hd (by decide)
  simp [Binary64.isNumberStart, Text.isDigit_eq_false_of_isNameLetter hd, hminus, hpoint] at hc

theorem quoted_ne_name (content : Text) {key : Text} (hkey : Text.IsName key)
    (rest otherRest : Text) : content.quoted ++ rest ≠ key ++ otherRest := by
  obtain ⟨c, keyTail, rfl, hletter⟩ := Text.exists_cons_of_run hkey
  have hc : c ≠ '"' := Text.ne_of_class hletter (by decide)
  intro h
  exact hc (List.cons.inj h).1.symm

theorem number_ne_item (x : Binary64) (rest otherRest : Text) :
    x.text ++ '\n' :: rest ≠ '-' :: ' ' :: otherRest := by
  have hspace : Binary64.isNumberCharacter ' ' = false := by decide
  intro h
  obtain ⟨c, tail, htext, -⟩ := x.exists_cons_of_text
  rw [htext] at h
  have htail : tail ++ '\n' :: rest = ' ' :: otherRest := (List.cons.inj h).2
  cases tail with
  | nil => simp at htail
  | cons d tail =>
      obtain rfl : d = ' ' := (List.cons.inj htail).1
      have hd : Binary64.isNumberCharacter ' ' = true :=
        Binary64.isNumberCharacter_of_mem_text (by rw [htext]; simp)
      simp [hspace] at hd

theorem blockText_ne_firstLine (scalar : Scalar) {member : Member} (hmember : member.IsNamed)
    (rest otherRest : Text) : scalar.blockText ++ '\n' :: rest ≠ member.firstLine otherRest := by
  cases hmember with
  | item item =>
      rw [firstLine_ofItem]
      cases scalar with
      | null => simp [Scalar.blockText]
      | number x => exact number_ne_item x rest _
      | text content => simp [Scalar.blockText, Text.quoted]
  | entry key value hkey =>
      rw [firstLine_ofEntry]
      cases scalar with
      | null => exact null_ne_entry hkey rest _
      | number x => exact number_ne_name x hkey _ _
      | text content => exact quoted_ne_name content hkey _ _

/-! The lines below. -/

/-- A text does not begin with anything that stands in by so many spaces. -/
def IsBelow (level : Nat) (text : Text) : Prop :=
  ∀ c rest, text ≠ Text.spaces level ++ c :: rest

theorem isBelow_nil (level : Nat) : IsBelow level [] := by
  intro c rest h
  simp at h

theorem spaces_add_two (level : Nat) (text : Text) :
    Text.spaces (level + 2) ++ text = Text.spaces level ++ ' ' :: ' ' :: text := by
  simp [Text.spaces, List.replicate_add]

theorem IsBelow.further {level : Nat} {text : Text} (h : IsBelow level text) :
    IsBelow (level + 2) text := by
  intro c rest htext
  rw [spaces_add_two] at htext
  exact h _ _ htext

theorem isBelow_of_firstLine {level : Nat} {member : Member} (hmember : member.IsNamed)
    (rest : Text) : IsBelow (level + 2) (Text.spaces level ++ member.firstLine rest) := by
  intro c tail h
  obtain ⟨d, line, hline, hd⟩ := exists_cons_of_firstLine hmember rest
  rw [hline, spaces_add_two] at h
  exact hd (List.cons.inj (List.append_cancel_left h)).1

theorem render_append (level : Nat) (member : Member) (rest : Text) :
    member.render level ++ rest = Text.spaces level ++
      member.firstLine (renderMembers ((level + 2 : Nat) : Int) member.item ++ rest) := by
  unfold Member.render Member.firstLine
  cases hscalar : member.item.scalar? with
  | some scalar =>
      have hnone : ∀ other, renderMembers other member.item = [] := by
        rw [Value.eq_of_scalar?_eq_some hscalar]
        cases scalar <;> exact fun _ => rfl
      simp [line, hnone]
  | none =>
      have hlevel : ((level + 2 : Nat) : Int) = (level : Int) + indentStep := by
        simp [indentStep]
      simp [line, hlevel]

/-- What the lines of members tell: their headers, and their items up to the common marker. -/
def shown (list : List Member) : List (Text × Value) :=
  list.map fun member => (member.header, member.item.markEmpty)

def AreNamed (list : List Member) : Prop :=
  ∀ member ∈ list, member.IsNamed ∧ member.item.KeysAreNames

theorem areNamed_members {value : Value} (h : value.KeysAreNames) : AreNamed (members value) := by
  intro member hmember
  cases value with
  | list items =>
      obtain ⟨item, hitem, rfl⟩ := List.mem_map.mp hmember
      exact ⟨.item item, Value.keysOfItemsAreNames_iff.mp h item hitem⟩
  | mapping entries =>
      obtain ⟨⟨key, item⟩, hentry, rfl⟩ := List.mem_map.mp hmember
      obtain ⟨hkey, hitem⟩ := Value.keysOfEntriesAreNames_iff.mp h _ hentry
      exact ⟨.entry key item hkey, hitem⟩
  | _ => simp [members] at hmember

theorem shown_items (items : List Value) :
    shown (items.map Member.ofItem) = items.map fun item => (['-', ' '], item.markEmpty) := by
  simp [shown, Member.ofItem]

theorem shown_entries (entries : List (Text × Value)) :
    shown (entries.map Member.ofEntry) =
      entries.map fun entry => (entry.1 ++ [':'], entry.2.markEmpty) := by
  simp [shown, Member.ofEntry]

theorem markEmpty_list_eq {items others : List Value}
    (h : shown (members (.list items)) = shown (members (.list others))) :
    (Value.list items).markEmpty = (Value.list others).markEmpty := by
  have hvalues := congrArg (List.map Prod.snd) h
  simp only [members, shown_items, List.map_map, Function.comp_def] at hvalues
  rw [Value.markEmpty, Value.markEmpty, Value.markEmptyItems_eq, Value.markEmptyItems_eq]
  exact congrArg Value.list hvalues

theorem markEmpty_mapping_eq {entries others : List (Text × Value)}
    (h : shown (members (.mapping entries)) = shown (members (.mapping others))) :
    (Value.mapping entries).markEmpty = (Value.mapping others).markEmpty := by
  have hentries := congrArg (List.map fun shown : Text × Value => (shown.1.dropLast, shown.2)) h
  simp only [members, shown_entries, List.map_map, Function.comp_def,
    List.dropLast_concat] at hentries
  have hempty : entries.isEmpty = others.isEmpty := by
    have hlength := congrArg List.length hentries
    simp only [List.length_map] at hlength
    cases entries <;> cases others <;> simp_all
  rw [Value.markEmpty, Value.markEmpty, Value.markEmptyEntries_eq, Value.markEmptyEntries_eq,
    hempty, hentries]

theorem markEmpty_list_eq_mapping {items : List Value} {entries : List (Text × Value)}
    (hkeys : (Value.mapping entries).KeysAreNames)
    (h : shown (members (.list items)) = shown (members (.mapping entries))) :
    (Value.list items).markEmpty = (Value.mapping entries).markEmpty := by
  simp only [members, shown_items, shown_entries] at h
  cases items with
  | nil =>
      cases entries with
      | nil => rfl
      | cons entry entries => simp at h
  | cons item items =>
      cases entries with
      | nil => simp at h
      | cons entry entries =>
          obtain ⟨hkey, -⟩ := Value.keysOfEntriesAreNames_iff.mp hkeys entry (by simp)
          simp only [List.map_cons, List.cons.injEq, Prod.mk.injEq] at h
          exact absurd h.1.1 (dash_ne_name hkey _ _)

/-- Two collections that show the same are equal up to the common marker. -/
theorem markEmpty_eq_of_shown_eq {value other : Value} (hvalue : value.KeysAreNames)
    (hother : other.KeysAreNames) (hnone : value.scalar? = none) (hotherNone : other.scalar? = none)
    (h : shown (members value) = shown (members other)) : value.markEmpty = other.markEmpty := by
  cases value with
  | list items =>
      cases other with
      | list others => exact markEmpty_list_eq h
      | mapping entries => exact markEmpty_list_eq_mapping hother h
      | _ => simp [Value.scalar?] at hotherNone
  | mapping entries =>
      cases other with
      | list items => exact (markEmpty_list_eq_mapping hvalue h.symm).symm
      | mapping others => exact markEmpty_mapping_eq h
      | _ => simp [Value.scalar?] at hotherNone
  | _ => simp [Value.scalar?] at hnone

/-- The lines of a value are told from anything that stands less far in. -/
def IsUnambiguous (value : Value) : Prop :=
  value.KeysAreNames → ∀ (other : Value) (level : Nat) (rest otherRest : Text),
    other.KeysAreNames → IsBelow level rest → IsBelow level otherRest →
    renderMembers level value ++ rest = renderMembers level other ++ otherRest →
    shown (members value) = shown (members other) ∧ rest = otherRest

theorem isBelow_renderAll {level : Nat} {list : List Member} (hlist : AreNamed list) {rest : Text}
    (hrest : IsBelow level rest) : IsBelow (level + 2) (renderAll level list ++ rest) := by
  cases list with
  | nil => exact hrest.further
  | cons member list =>
      rw [renderAll, List.flatMap_cons, List.append_assoc, render_append]
      exact isBelow_of_firstLine (hlist member (by simp)).1 _

theorem renderAll_cons_ne {level : Nat} {member : Member} (hmember : member.IsNamed)
    (list : List Member) {rest otherRest : Text} (hotherRest : IsBelow level otherRest) :
    renderAll level (member :: list) ++ rest ≠ otherRest := by
  intro h
  rw [renderAll, List.flatMap_cons, List.append_assoc, render_append] at h
  obtain ⟨c, line, hline, -⟩ := exists_cons_of_firstLine hmember
    (renderMembers ((level + 2 : Nat) : Int) member.item ++
      (list.flatMap (Member.render level) ++ rest))
  rw [hline] at h
  exact hotherRest c line h.symm

theorem shown_cons (member : Member) (list : List Member) :
    shown (member :: list) = (member.header, member.item.markEmpty) :: shown list := rfl

theorem shown_eq_of_renderAll_eq {list : List Member} (hlist : AreNamed list)
    (hitems : ∀ member ∈ list, IsUnambiguous member.item) {others : List Member}
    (hothers : AreNamed others) {level : Nat} {rest otherRest : Text} (hrest : IsBelow level rest)
    (hotherRest : IsBelow level otherRest)
    (h : renderAll level list ++ rest = renderAll level others ++ otherRest) :
    shown list = shown others ∧ rest = otherRest := by
  -- The item of the first member is told from the lines behind it: these stand less far in.
  induction list generalizing others with
  | nil =>
      cases others with
      | nil => exact ⟨rfl, h⟩
      | cons other others =>
          exact absurd h.symm (renderAll_cons_ne (hothers other (by simp)).1 others hrest)
  | cons member list ih =>
      cases others with
      | nil => exact absurd h (renderAll_cons_ne (hlist member (by simp)).1 list hotherRest)
      | cons other others =>
          obtain ⟨hmember, hlist⟩ := List.forall_mem_cons.mp hlist
          obtain ⟨hother, hothers⟩ := List.forall_mem_cons.mp hothers
          obtain ⟨hitem, hitems⟩ := List.forall_mem_cons.mp hitems
          rw [renderAll, renderAll, List.flatMap_cons, List.flatMap_cons, List.append_assoc,
            List.append_assoc, render_append, render_append] at h
          obtain ⟨hheader, hscalar, hbehind⟩ :=
            eq_of_firstLine_eq hmember.1 hother.1 (List.append_cancel_left h)
          obtain ⟨hshown, hnext⟩ := hitem hmember.2 other.item (level + 2) _ _ hother.2
            (isBelow_renderAll hlist hrest) (isBelow_renderAll hothers hotherRest) hbehind
          obtain ⟨htail, hlast⟩ := ih hlist hitems hothers hnext
          have hmark : member.item.markEmpty = other.item.markEmpty := by
            cases hfound : member.item.scalar? with
            | none =>
                exact markEmpty_eq_of_shown_eq hmember.2 hother.2 hfound
                  (hscalar.symm.trans hfound) hshown
            | some scalar =>
                rw [Value.eq_of_scalar?_eq_some hfound,
                  Value.eq_of_scalar?_eq_some (hscalar.symm.trans hfound)]
          refine ⟨?_, hlast⟩
          rw [shown_cons, shown_cons, hheader, hmark, htail]

theorem isUnambiguous_of_members {value : Value}
    (hitems : ∀ member ∈ members value, IsUnambiguous member.item) : IsUnambiguous value := by
  intro hkeys other level rest otherRest hother hrest hotherRest h
  rw [renderMembers_eq, renderMembers_eq] at h
  exact shown_eq_of_renderAll_eq (areNamed_members hkeys) hitems (areNamed_members hother)
    hrest hotherRest h

theorem isUnambiguous (value : Value) : IsUnambiguous value :=
  induction_members (fun _ => isUnambiguous_of_members) value

/-! The whole text. -/

theorem line_ne_renderMembers (level : Nat) (scalar : Scalar) {value : Value}
    (hvalue : value.KeysAreNames) :
    line level scalar.blockText ≠ renderMembers level value := by
  rw [renderMembers_eq]
  cases hlist : members value with
  | nil => simp [renderAll, line]
  | cons member list =>
      have hmember : member.IsNamed := (areNamed_members hvalue member (by simp [hlist])).1
      intro h
      rw [renderAll, List.flatMap_cons, render_append, line, List.append_assoc] at h
      exact blockText_ne_firstLine scalar hmember [] _ (List.append_cancel_left h)

theorem markEmpty_eq_of_render_eq {value other : Value} (hvalue : value.KeysAreNames)
    (hother : other.KeysAreNames) {level : Nat} (h : render level value = render level other) :
    value.markEmpty = other.markEmpty := by
  unfold render Value.scalarText? at h
  cases hscalar : value.scalar? with
  | some scalar =>
      cases hotherScalar : other.scalar? with
      | some otherScalar =>
          rw [hscalar, hotherScalar] at h
          have hline : scalar.blockText ++ ['\n'] = otherScalar.blockText ++ ['\n'] := by
            simpa [line] using h
          obtain ⟨rfl, -⟩ := Scalar.eq_of_blockText_append_eq hline
          rw [Value.eq_of_scalar?_eq_some hscalar, Value.eq_of_scalar?_eq_some hotherScalar]
      | none =>
          rw [hscalar, hotherScalar] at h
          exact absurd h (line_ne_renderMembers level scalar hother)
  | none =>
      cases hotherScalar : other.scalar? with
      | some otherScalar =>
          rw [hscalar, hotherScalar] at h
          exact absurd h.symm (line_ne_renderMembers level otherScalar hvalue)
      | none =>
          rw [hscalar, hotherScalar] at h
          obtain ⟨hshown, -⟩ := isUnambiguous value hvalue other level [] [] hother
            (isBelow_nil level) (isBelow_nil level) (congrArg (· ++ []) h)
          exact markEmpty_eq_of_shown_eq hvalue hother hscalar hotherScalar hshown

/-- The text of a value shows all of it but which kind its empty collections are of. -/
theorem text_eq_iff {value other : Value} (hvalue : value.KeysAreNames)
    (hother : other.KeysAreNames) (level : Nat) :
    text value level = text other level ↔ value.markEmpty = other.markEmpty := by
  rw [text_eq_render_of_level, text_eq_render_of_level]
  constructor
  · exact markEmpty_eq_of_render_eq hvalue hother
  · intro h
    rw [← render_markEmpty, h, render_markEmpty]

theorem text_eq_iff_of_empty :
    (text (.list [.mapping [], .text ['a']]) 0 = text (.list [.list [], .text ['a']]) 0 ↔
      (Value.list [.mapping [], .text ['a']]).markEmpty =
        (Value.list [.list [], .text ['a']]).markEmpty) ∧
      (Value.list [.mapping [], .text ['a']]).markEmpty =
        (Value.list [.list [], .text ['a']]).markEmpty :=
  ⟨text_eq_iff
    (by simp [Value.KeysAreNames, Value.KeysOfItemsAreNames, Value.KeysOfEntriesAreNames])
    (by simp [Value.KeysAreNames, Value.KeysOfItemsAreNames]) 0, rfl⟩

end ConfTree.Block
