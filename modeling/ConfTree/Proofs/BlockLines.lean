import ConfTree.Block.Rendering
import ConfTree.Block.Writer

namespace ConfTree.Block

def Member.render (level : Int) (member : Member) : Text :=
  match member.item.scalar? with
  | some scalar => line level (member.lead ++ scalar.blockText)
  | none => line level member.header ++ renderMembers (level + indentStep) member.item

def renderAll (level : Int) (members : List Member) : Text :=
  members.flatMap (Member.render level)

theorem renderItems_eq (level : Int) (items : List Value) :
    renderItems level items = renderAll level (items.map Member.ofItem) := by
  induction items with
  | nil => rfl
  | cons item items ih =>
      rw [renderItems, ih]
      cases hscalar : item.scalar? with
      | some scalar => simp [renderAll, Member.render, Member.ofItem, Value.scalarText?, hscalar]
      | none =>
          simp [renderAll, Member.render, Member.ofItem, Value.scalarText?, hscalar, indentStep]

theorem renderEntries_eq (level : Int) (entries : List (Text × Value)) :
    renderEntries level entries = renderAll level (entries.map Member.ofEntry) := by
  induction entries with
  | nil => rfl
  | cons entry entries ih =>
      rcases entry with ⟨key, value⟩
      rw [renderEntries, ih]
      cases hscalar : value.scalar? with
      | some scalar => simp [renderAll, Member.render, Member.ofEntry, Value.scalarText?, hscalar]
      | none =>
          simp [renderAll, Member.render, Member.ofEntry, Value.scalarText?, hscalar, indentStep]

theorem renderMembers_eq (level : Int) (value : Value) :
    renderMembers level value = renderAll level (members value) := by
  cases value with
  | list items => exact renderItems_eq level items
  | mapping entries => exact renderEntries_eq level entries
  | null => rfl
  | number x => rfl
  | text content => rfl

/-- The lines that open collections still have to come. -/
def pending (frames : List Frame) : Text :=
  frames.flatMap fun frame => renderAll frame.level frame.members

theorem lines_eq_pending (frames : List Frame) : lines frames = pending frames := by
  induction frames using lines.induct with
  | case1 => rw [lines]; rfl
  | case2 level frames ih =>
      rw [lines, ih]
      rfl
  | case3 member later level frames scalar hscalar ih =>
      rw [lines]
      split
      · rename_i found hfound
        obtain rfl : scalar = found := Option.some.inj (hscalar.symm.trans hfound)
        rw [ih]
        simp [pending, renderAll, Member.render, hscalar, line, indentation]
      · rename_i hfound
        exact absurd (hscalar.symm.trans hfound) (by simp)
  | case4 member later level frames hscalar ih =>
      rw [lines]
      split
      · rename_i found hfound
        exact absurd (hscalar.symm.trans hfound) (by simp)
      · rw [ih]
        simp [pending, renderAll, Member.render, hscalar, line, indentation, renderMembers_eq]

theorem text_eq_render_of_level (value : Value) (level : Int) :
    text value level = render level value := by
  unfold text render
  cases hscalar : value.scalar? with
  | some scalar => simp [Value.scalarText?, hscalar, line, indentation]
  | none => simp [Value.scalarText?, hscalar, lines_eq_pending, pending, renderMembers_eq]

end ConfTree.Block
