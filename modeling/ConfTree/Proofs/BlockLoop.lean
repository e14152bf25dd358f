import ConfTree.Proofs.BlockLines

/-!
The loop of the block writer, pass by pass.  A pass looks at the innermost collection that is still
open and may ask for the text of a scalar, which a collection does not have.  The loop ends after
as many passes as the open collections weigh, it never asks a collection for the text of a scalar,
and it leaves the recursive rendering behind.
-/

namespace ConfTree

def Value.isCollection (value : Value) : Bool :=
  value.kind = .list || value.kind = .mapping

theorem Value.isCollection_eq (value : Value) : value.isCollection = value.scalar?.isNone := by
  cases value <;> rfl

namespace Block

/-- The loop between two passes: what is written, and the open collections, the innermost
first. -/
structure Progress where
  written : Text
  frames : List Frame

/-- One pass of the loop, none if it asks a collection for the text of a scalar.  Without open
collections nothing is left to be done. -/
def Progress.pass : Progress → Option Progress
  | ⟨written, []⟩ => some ⟨written, []⟩
  | ⟨written, ⟨[], _⟩ :: frames⟩ => some ⟨written, frames⟩
  | ⟨written, ⟨member :: later, level⟩ :: frames⟩ =>
      if member.item.isCollection then
        some ⟨written ++ line level member.header,
          ⟨members member.item, level + indentStep⟩ :: ⟨later, level⟩ :: frames⟩
      else
        member.item.scalarText?.map fun scalar =>
          ⟨written ++ line level (member.lead ++ scalar), ⟨later, level⟩ :: frames⟩

def Progress.passes : Nat → Progress → Option Progress
  | 0, progress => some progress
  | count + 1, progress => progress.pass.bind (passes count)

/-- The text of a value as the loop writes it within a number of passes, none if it fails or does
not end. -/
def writtenWithin? (bound : Nat) (value : Value) (level : Int) : Option Text :=
  if value.isCollection then
    match Progress.passes bound ⟨[], [⟨members value, level⟩]⟩ with
    | some ⟨written, []⟩ => some written
    | _ => none
  else
    value.scalarText?.map (line level)

namespace Progress

variable {written : Text} {member : Member} {later : List Member} {level : Int}
  {frames : List Frame} {count : Nat} {after : Progress}

theorem passes_finished (count : Nat) (written : Text) :
    passes count ⟨written, []⟩ = some ⟨written, []⟩ := by
  induction count with
  | zero => rfl
  | succ count ih => exact ih

theorem passes_add {progress : Progress} (h : progress.passes count = some after) (further : Nat) :
    progress.passes (count + further) = after.passes further := by
  induction count generalizing progress with
  | zero =>
      obtain rfl : progress = after := Option.some.inj h
      rw [Nat.zero_add]
  | succ count ih =>
      obtain ⟨next, hpass, hnext⟩ := Option.bind_eq_some_iff.mp h
      rw [Nat.add_right_comm, passes, hpass]
      exact ih hnext

theorem passes_succ_of_pass {progress next : Progress} (h : progress.pass = some next)
    (count : Nat) : progress.passes (count + 1) = next.passes count := by
  rw [passes, h, Option.bind_some]

theorem pass_scalar {scalar : Scalar} (h : member.item.scalar? = some scalar) :
    pass ⟨written, ⟨member :: later, level⟩ :: frames⟩ =
      some ⟨written ++ line level (member.lead ++ scalar.blockText),
        ⟨later, level⟩ :: frames⟩ := by
  simp [pass, Value.isCollection_eq, Value.scalarText?, h]

theorem pass_collection (h : member.item.scalar? = none) :
    pass ⟨written, ⟨member :: later, level⟩ :: frames⟩ =
      some ⟨written ++ line level member.header,
        ⟨members member.item, level + indentStep⟩ :: ⟨later, level⟩ :: frames⟩ := by
  simp [pass, Value.isCollection_eq, h]

theorem weight_eq_of_scalar?_eq_some {value : Value} {scalar : Scalar}
    (h : value.scalar? = some scalar) : weight value = 1 := by
  cases value with
  | null => rfl
  | number x => rfl
  | text content => rfl
  | list items => simp [Value.scalar?] at h
  | mapping entries => simp [Value.scalar?] at h

theorem weightOfFrames_cons_cons :
    weightOfFrames (⟨member :: later, level⟩ :: frames) =
      weight member.item + weightOfFrames (⟨later, level⟩ :: frames) := by
  simp [weightOfFrames, weightOfMembers, Nat.add_assoc]

/-- Every pass lowers the weight of the open collections by one and writes what is to be written
next, so the loop ends with everything written. -/
theorem passes_weightOfFrames (written : Text) (frames : List Frame) :
    passes (weightOfFrames frames) ⟨written, frames⟩ = some ⟨written ++ pending frames, []⟩ := by
  -- On the run of the loop itself, with the text written so far left open.
  induction frames using lines.induct generalizing written with
  | case1 => simp [weightOfFrames, pending, passes]
  | case2 level frames ih =>
      have hweight : weightOfFrames (⟨[], level⟩ :: frames) = weightOfFrames frames + 1 := by
        simp [weightOfFrames, weightOfMembers, Nat.add_comm]
      have hpass : pass ⟨written, ⟨[], level⟩ :: frames⟩ = some ⟨written, frames⟩ := rfl
      rw [hweight, passes_succ_of_pass hpass, ih]
      rfl
  | case3 member later level frames scalar hscalar ih =>
      have hweight : weightOfFrames (⟨member :: later, level⟩ :: frames) =
          weightOfFrames (⟨later, level⟩ :: frames) + 1 := by
        rw [weightOfFrames_cons_cons, weight_eq_of_scalar?_eq_some hscalar, Nat.add_comm]
      rw [hweight, passes_succ_of_pass (pass_scalar hscalar), ih]
      simp [pending, renderAll, Member.render, hscalar]
  | case4 member later level frames hscalar ih =>
      have hweight : weightOfFrames (⟨member :: later, level⟩ :: frames) =
          weightOfFrames (⟨members member.item, level + indentStep⟩ :: ⟨later, level⟩ :: frames)
            + 1 := by
        rw [weightOfFrames_cons_cons, weight_eq_of_scalar?_eq_none hscalar]
        simp only [weightOfFrames, List.foldr_cons]
        omega
      rw [hweight, passes_succ_of_pass (pass_collection hscalar), ih]
      simp [pending, renderAll, Member.render, hscalar, renderMembers_eq]

end Progress

theorem writtenWithin?_scalar {value : Value} {scalar : Scalar} (h : value.scalar? = some scalar)
    (bound : Nat) (level : Int) : writtenWithin? bound value level = some (render level value) := by
  simp [writtenWithin?, Value.isCollection_eq, render, Value.scalarText?, h]

theorem writtenWithin?_collection {value : Value} (h : value.scalar? = none) (level : Int)
    (further : Nat) :
    writtenWithin? (weight value + further) value level = some (render level value) := by
  have hweight : weight value = weightOfFrames [⟨members value, level⟩] + 1 := by
    rw [weight_eq_of_scalar?_eq_none h]
    simp [weightOfFrames]
  have hpasses : Progress.passes (weight value + further) ⟨[], [⟨members value, level⟩]⟩ =
      some ⟨renderMembers level value, []⟩ := by
    rw [hweight, Nat.add_assoc, Progress.passes_add (Progress.passes_weightOfFrames [] _),
      Progress.passes_finished]
    simp [pending, renderMembers_eq]
  simp [writtenWithin?, Value.isCollection_eq, h, hpasses, render, Value.scalarText?]

/-- At every level, also below zero, the loop over the open collections writes the recursive
rendering of a value.  It ends within as many passes as the value weighs, and no pass of it asks
a collection for the text of a scalar. -/
theorem loop_writes_rendering (value : Value) (level : Int) :
    text value level = render level value ∧
      ∀ further, writtenWithin? (weight value + further) value level = some (text value level) := by
  refine ⟨text_eq_render_of_level value level, fun further => ?_⟩
  rw [text_eq_render_of_level]
  cases hscalar : value.scalar? with
  | some scalar => exact writtenWithin?_scalar hscalar _ level
  | none => exact writtenWithin?_collection hscalar level further

/-- Below zero a level gives no spaces, and members still stand two columns further in. -/
example : render (-1) (.list [.mapping [(['a'], .null), (['b'], .list [])]]) =
    "- \n a: null\n b:\n".toList := by decide

end Block

end ConfTree
