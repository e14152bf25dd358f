import ConfTree.Proofs.MarkedValue
import ConfTree.Proofs.ScalarLine

namespace ConfTree

theorem Text.splitOn_lines {lines : List Text} (h : ∀ line ∈ lines, '\n' ∉ line) :
    (lines.flatMap (· ++ ['\n'])).splitOn '\n' = lines ++ [[]] := by
  induction lines with
  | nil => rfl
  | cons line lines ih =>
      obtain ⟨hline, hlines⟩ := List.forall_mem_cons.mp h
      have hapart : ∀ c ∈ line, (c == '\n') = false :=
        fun c hc => beq_eq_false_iff_ne.mpr fun hnewline => hline (hnewline ▸ hc)
      rw [List.flatMap_cons, List.append_assoc, List.singleton_append, List.splitOn,
        List.splitOnP_append_cons_of_forall_mem hapart '\n' rfl]
      exact congrArg (line :: ·) (ih hlines)

/-- A text on one line that does not begin with a space. -/
structure Text.StandsOut (text : Text) : Prop where
  newline_notMem : '\n' ∉ text
  exists_cons : ∃ c rest, text = c :: rest ∧ c ≠ ' '

theorem Text.StandsOut.append {first second : Text} (h : first.StandsOut) (hsecond : '\n' ∉ second) :
    StandsOut (first ++ second) where
  newline_notMem := by
    rw [List.mem_append]
    exact not_or_intro h.newline_notMem hsecond
  exists_cons := by
    obtain ⟨c, rest, rfl, hc⟩ := h.exists_cons
    exact ⟨c, rest ++ second, rfl, hc⟩

/-- A key on one line that does not begin with a space; it may be empty. -/
def Text.IsUnbrokenKey (key : Text) : Prop :=
  '\n' ∉ key ∧ key.head? ≠ some ' '

theorem Text.IsUnbrokenKey.standsOut {key : Text} (h : key.IsUnbrokenKey) :
    StandsOut (key ++ [':']) where
  newline_notMem := by simp [h.1]
  exists_cons := by
    cases key with
    | nil => exact ⟨':', [], rfl, by decide⟩
    | cons c rest => exact ⟨c, rest ++ [':'], rfl, by simpa using h.2⟩

theorem Scalar.standsOut_blockText {scalar : Scalar}
    (h : ∀ content, scalar = .text content → '\n' ∉ content) : scalar.blockText.StandsOut where
  newline_notMem := by
    cases scalar with
    | null => decide
    | number x =>
        intro hmem
        exact absurd (Binary64.isNumberCharacter_of_mem_text hmem) (by decide)
    | text content =>
        have hescape : '\n' ∉ content.escape :=
          Text.notMem_replaceEach (by decide) (Text.notMem_replaceEach (by decide) (h content rfl))
        simpa [blockText, Text.quoted] using hescape
  exists_cons := by
    obtain ⟨c, rest, htext, hc⟩ := scalar.exists_cons_of_blockText
    refine ⟨c, rest, htext, ?_⟩
    rintro rfl
    cases scalar <;> exact absurd hc Bool.false_ne_true

namespace Value

mutual

/-- No text and no key holds a newline, and no key begins with a space. -/
def IsUnbroken : Value → Prop
  | .null => True
  | .number _ => True
  | .text content => '\n' ∉ content
  | .list items => AreUnbrokenItems items
  | .mapping entries => AreUnbrokenEntries entries

def AreUnbrokenItems : List Value → Prop
  | [] => True
  | item :: items => item.IsUnbroken ∧ AreUnbrokenItems items

def AreUnbrokenEntries : List (Text × Value) → Prop
  | [] => True
  | (key, value) :: entries =>
      key.IsUnbrokenKey ∧ value.IsUnbroken ∧ AreUnbrokenEntries entries

end

mutual

def memberCount : Value → Nat
  | .null => 0
  | .number _ => 0
  | .text _ => 0
  | .list items => memberCountOfItems items
  | .mapping entries => memberCountOfEntries entries

def memberCountOfItems : List Value → Nat
  | [] => 0
  | item :: items => 1 + item.memberCount + memberCountOfItems items

def memberCountOfEntries : List (Text × Value) → Nat
  | [] => 0
  | (_, value) :: entries => 1 + value.memberCount + memberCountOfEntries entries

end

theorem areUnbrokenItems_iff {items : List Value} :
    AreUnbrokenItems items ↔ ∀ item ∈ items, item.IsUnbroken := by
  induction items with
  | nil => simp [AreUnbrokenItems]
  | cons item items ih => rw [AreUnbrokenItems, ih, List.forall_mem_cons]

theorem areUnbrokenEntries_iff {entries : List (Text × Value)} :
    AreUnbrokenEntries entries ↔
      ∀ entry ∈ entries, entry.1.IsUnbrokenKey ∧ entry.2.IsUnbroken := by
  induction entries with
  | nil => simp [AreUnbrokenEntries]
  | cons entry entries ih => rw [AreUnbrokenEntries, ih, List.forall_mem_cons, and_assoc]

theorem IsUnbroken.standsOut {value : Value} (h : value.IsUnbroken) {scalar : Scalar}
    (hscalar : value.scalar? = some scalar) : scalar.blockText.StandsOut := by
  obtain rfl := eq_of_scalar?_eq_some hscalar
  apply Scalar.standsOut_blockText
  rintro content rfl
  exact h

end Value

namespace Block

mutual

/-- The members of all collections in a value in document order, a member before its own members,
each with the number of collections around the one that it belongs to. -/
def outline (depth : Nat) : Value → List (Nat × Member)
  | .null => []
  | .number _ => []
  | .text _ => []
  | .list items => outlineOfItems depth items
  | .mapping entries => outlineOfEntries depth entries

def outlineOfItems (depth : Nat) : List Value → List (Nat × Member)
  | [] => []
  | item :: items =>
      (depth, .ofItem item) :: outline (depth + 1) item ++ outlineOfItems depth items

def outlineOfEntries (depth : Nat) : List (Text × Value) → List (Nat × Member)
  | [] => []
  | (key, value) :: entries =>
      (depth, .ofEntry (key, value)) :: outline (depth + 1) value ++ outlineOfEntries depth entries

end

def outlineOfMember (depth : Nat) (member : Member) : List (Nat × Member) :=
  (depth, member) :: outline (depth + 1) member.item

theorem outline_eq (depth : Nat) (value : Value) :
    outline depth value = (members value).flatMap (outlineOfMember depth) := by
  have hitems : ∀ items, outlineOfItems depth items =
      (items.map Member.ofItem).flatMap (outlineOfMember depth) := by
    intro items
    induction items with
    | nil => rfl
    | cons item items ih => rw [outlineOfItems, ih]; rfl
  have hentries : ∀ entries, outlineOfEntries depth entries =
      (entries.map Member.ofEntry).flatMap (outlineOfMember depth) := by
    intro entries
    induction entries with
    | nil => rfl
    | cons entry entries ih => rw [outlineOfEntries, ih]; rfl
  cases value with
  | list items => exact hitems items
  | mapping entries => exact hentries entries
  | _ => rfl

theorem memberCount_eq (value : Value) :
    value.memberCount = ((members value).map fun member => 1 + member.item.memberCount).sum := by
  have hitems : ∀ items, Value.memberCountOfItems items =
      ((items.map Member.ofItem).map fun member => 1 + member.item.memberCount).sum := by
    intro items
    induction items with
    | nil => rfl
    | cons item items ih => rw [Value.memberCountOfItems, ih]; rfl
  have hentries : ∀ entries, Value.memberCountOfEntries entries =
      ((entries.map Member.ofEntry).map fun member => 1 + member.item.memberCount).sum := by
    intro entries
    induction entries with
    | nil => rfl
    | cons entry entries ih => rw [Value.memberCountOfEntries, ih]; rfl
  cases value with
  | list items => exact hitems items
  | mapping entries => exact hentries entries
  | _ => rfl

theorem length_outline (depth : Nat) (value : Value) :
    (outline depth value).length = value.memberCount := by
  induction value using induction_members generalizing depth with
  | step value ih =>
      rw [outline_eq, memberCount_eq, List.length_flatMap]
      refine congrArg List.sum (List.map_congr_left fun member hmember => ?_)
      rw [outlineOfMember, List.length_cons, ih member hmember, Nat.add_comm]

def Member.lineText (member : Member) : Text :=
  match member.item.scalar? with
  | some scalar => member.lead ++ scalar.blockText
  | none => member.header

def outlineLine (level : Nat) (place : Nat × Member) : Text :=
  Text.spaces (level + 2 * place.1) ++ place.2.lineText

theorem render_eq_lines {level depth : Nat} {member : Member}
    (h : ∀ depth, renderMembers ((level + 2 * depth : Nat) : Int) member.item =
      ((outline depth member.item).map (outlineLine level)).flatMap (· ++ ['\n'])) :
    member.render ((level + 2 * depth : Nat) : Int) =
      ((outlineOfMember depth member).map (outlineLine level)).flatMap (· ++ ['\n']) := by
  have hlevel : ((level + 2 * depth : Nat) : Int) + indentStep =
      ((level + 2 * (depth + 1) : Nat) : Int) := by
    rw [indentStep]
    omega
  have hline : ∀ content, line ((level + 2 * depth : Nat) : Int) content =
      Text.spaces (level + 2 * depth) ++ content ++ ['\n'] := fun _ => rfl
  rw [outlineOfMember, List.map_cons, List.flatMap_cons, ← h, Member.render, outlineLine,
    Member.lineText, hlevel]
  cases hscalar : member.item.scalar? with
  | some scalar =>
      have hnone : renderMembers ((level + 2 * (depth + 1) : Nat) : Int) member.item = [] := by
        rw [Value.eq_of_scalar?_eq_some hscalar]
        cases scalar <;> rfl
      rw [hnone, List.append_nil]
      exact (hline _).trans (List.append_nil _).symm
  | none => exact congrArg (· ++ _) (hline _)

theorem renderMembers_eq_lines (level depth : Nat) (value : Value) :
    renderMembers ((level + 2 * depth : Nat) : Int) value =
      ((outline depth value).map (outlineLine level)).flatMap (· ++ ['\n']) := by
  induction value using induction_members generalizing depth with
  | step value ih =>
      rw [renderMembers_eq, outline_eq, renderAll, List.map_flatMap, List.flatMap_assoc]
      refine List.flatMap_congr fun member hmember => ?_
      exact render_eq_lines (ih member hmember)

theorem standsOut_lineText_of_members {value : Value} (h : value.IsUnbroken) :
    ∀ member ∈ members value, member.lineText.StandsOut ∧ member.item.IsUnbroken := by
  have hlineText : ∀ member : Member, member.header.StandsOut → member.lead.StandsOut →
      member.item.IsUnbroken → member.lineText.StandsOut := by
    intro member hheader hlead hitem
    unfold Member.lineText
    split
    · rename_i scalar hscalar
      exact hlead.append (hitem.standsOut hscalar).newline_notMem
    · exact hheader
  intro member hmember
  cases value with
  | list items =>
      obtain ⟨item, hmem, rfl⟩ := List.mem_map.mp hmember
      have hitem : item.IsUnbroken := Value.areUnbrokenItems_iff.mp h item hmem
      have hdash : Text.StandsOut ['-', ' '] := ⟨by decide, '-', [' '], rfl, by decide⟩
      exact ⟨hlineText _ hdash hdash hitem, hitem⟩
  | mapping entries =>
      obtain ⟨⟨key, item⟩, hmem, rfl⟩ := List.mem_map.mp hmember
      obtain ⟨hkey, hitem⟩ := Value.areUnbrokenEntries_iff.mp h _ hmem
      have hheader : Text.StandsOut (key ++ [':']) := hkey.standsOut
      have hlead : Text.StandsOut (key ++ [':', ' ']) := by
        have hspace : '\n' ∉ [' '] := by decide
        simpa using hheader.append hspace
      exact ⟨hlineText _ hheader hlead hitem, hitem⟩
  | _ => simp [members] at hmember

theorem standsOut_lineText {depth : Nat} {value : Value} (h : value.IsUnbroken) :
    ∀ place ∈ outline depth value, place.2.lineText.StandsOut := by
  induction value using induction_members generalizing depth with
  | step value ih =>
      intro place hplace
      rw [outline_eq] at hplace
      obtain ⟨member, hmember, hplace⟩ := List.mem_flatMap.mp hplace
      obtain ⟨hline, hitem⟩ := standsOut_lineText_of_members h member hmember
      rcases List.mem_cons.mp hplace with rfl | hplace
      · exact hline
      · exact ih member hmember hitem place hplace

def linesOf (level : Nat) (value : Value) : List Text :=
  match value.scalarText? with
  | some scalar => [Text.spaces level ++ scalar]
  | none => (outline 0 value).map (outlineLine level)

theorem text_eq_linesOf (value : Value) (level : Nat) :
    text value level = (linesOf level value).flatMap (· ++ ['\n']) := by
  rw [text_eq_render_of_level, render, linesOf]
  cases value.scalarText? with
  | some scalar => exact (List.append_nil _).symm
  | none => exact renderMembers_eq_lines level 0 value

theorem linesOf_add (level further : Nat) (value : Value) :
    linesOf (level + further) value = (linesOf level value).map (Text.spaces further ++ ·) := by
  have hspaces : ∀ count, Text.spaces (level + further + count) =
      Text.spaces further ++ Text.spaces (level + count) := by
    intro count
    rw [Text.spaces, Text.spaces, Text.spaces, List.replicate_append_replicate]
    congr 1
    omega
  unfold linesOf
  cases value.scalarText? with
  | some scalar =>
      rw [List.map_singleton, ← List.append_assoc]
      exact congrArg (fun spaces => [spaces ++ scalar]) (hspaces 0)
  | none =>
      rw [List.map_map]
      refine List.map_congr_left fun place _ => ?_
      rw [Function.comp_apply, outlineLine, outlineLine, hspaces, List.append_assoc]

theorem newline_notMem_linesOf {value : Value} (h : value.IsUnbroken) (level : Nat) :
    ∀ line ∈ linesOf level value, '\n' ∉ line := by
  have hspaces : ∀ {content : Text}, '\n' ∉ content → ∀ count,
      '\n' ∉ Text.spaces count ++ content := by
    intro content hcontent count hmem
    rcases List.mem_append.mp hmem with hspace | hmem
    · exact absurd (List.eq_of_mem_replicate hspace) (by decide)
    · exact hcontent hmem
  unfold linesOf Value.scalarText?
  cases hscalar : value.scalar? with
  | some scalar =>
      intro line hline
      obtain rfl := List.mem_singleton.mp hline
      exact hspaces (h.standsOut hscalar).newline_notMem level
  | none =>
      intro line hline
      obtain ⟨place, hplace, rfl⟩ := List.mem_map.mp hline
      exact hspaces (standsOut_lineText h place hplace).newline_notMem _

/-- A line is that of a member: as many spaces as its place asks for, and nothing but its own text
behind them, which does not begin with a space. -/
def IsLineOf (level : Nat) (place : Nat × Member) (line : Text) : Prop :=
  ∃ c rest, line = Text.spaces (level + 2 * place.1) ++ c :: rest ∧ c ≠ ' ' ∧
    place.2.lineText = c :: rest

theorem forall₂_outline {depth : Nat} {value : Value} (h : value.IsUnbroken) (level : Nat) :
    List.Forall₂ (IsLineOf level) (outline depth value)
      ((outline depth value).map (outlineLine level)) := by
  rw [List.forall₂_map_right_iff, List.forall₂_same]
  intro place hplace
  obtain ⟨c, rest, htext, hc⟩ := (standsOut_lineText h place hplace).exists_cons
  exact ⟨c, rest, congrArg _ htext, hc, htext⟩

/-- The text of a value whose texts and keys fit on their lines is cut by its newlines into one line
for a scalar, and otherwise into as many lines as there are members in its collections.  They are
the lines of these members in document order, each two columns further in for every collection
around that of its member.  Further in as a whole, the value has the same lines with more spaces
before each of them. -/
theorem text_lines_of_members {value : Value} (h : value.IsUnbroken) (level further : Nat) :
    ∃ lines : List Text,
      (text value level).splitOn '\n' = lines ++ [[]] ∧
      (∀ scalar, value.scalar? = some scalar →
        lines = [Text.spaces level ++ scalar.blockText] ∧ scalar.blockText.StandsOut) ∧
      (value.scalar? = none → lines.length = value.memberCount ∧
        List.Forall₂ (IsLineOf level) (outline 0 value) lines) ∧
      text value ((level + further : Nat) : Int) =
        lines.flatMap fun line => Text.spaces further ++ line ++ ['\n'] := by
  refine ⟨linesOf level value, ?_, ?_, ?_, ?_⟩
  · rw [text_eq_linesOf]
    exact Text.splitOn_lines (newline_notMem_linesOf h level)
  · intro scalar hscalar
    refine ⟨?_, h.standsOut hscalar⟩
    rw [linesOf, Value.scalarText?, hscalar]
    rfl
  · intro hscalar
    have hlines : linesOf level value = (outline 0 value).map (outlineLine level) := by
      rw [linesOf, Value.scalarText?, hscalar]
      rfl
    rw [hlines, List.length_map, length_outline]
    exact ⟨rfl, forall₂_outline h level⟩
  · rw [text_eq_linesOf, linesOf_add, List.flatMap_map]

theorem text_lines_of_members_nested :
    ∃ lines : List Text,
      (text (.list [.list [], .mapping [(['k'], .text ['"'])]]) (1 : Nat)).splitOn '\n' =
        lines ++ [[]] ∧
      lines.length = 3 ∧
      text (.list [.list [], .mapping [(['k'], .text ['"'])]]) ((1 + 2 : Nat) : Int) =
        lines.flatMap fun line => Text.spaces 2 ++ line ++ ['\n'] := by
  have hvalue : (Value.list [.list [], .mapping [(['k'], .text ['"'])]]).IsUnbroken := by
    simp [Value.IsUnbroken, Value.AreUnbrokenItems, Value.AreUnbrokenEntries, Text.IsUnbrokenKey]
  obtain ⟨lines, hsplit, -, hmembers, hfurther⟩ := text_lines_of_members hvalue 1 2
  exact ⟨lines, hsplit, (hmembers rfl).1, hfurther⟩

end Block

end ConfTree
