import ConfTree.Expression.Stack
import Mathlib.Data.List.Chain

/-!
Chains of concatenations.  An operator joins two values and looks at their kinds, so the value of a
chain may hang on the order in which its values are joined.  It does not where all of them are
texts, and neither where no two texts are neighbours.  Of three values, the order tells exactly where
two texts stand on the same side of a list.
-/

namespace ConfTree

def Value.asItems : Value → List Value
  | .list items => items
  | value => [value]

def Value.IsJoinable (value : Value) : Prop :=
  value.kind = .list ∨ value.kind = .text

theorem Value.IsJoinable.exists_eq {value : Value} (h : value.IsJoinable) :
    (∃ items, value = .list items) ∨ ∃ content, value = .text content := by
  cases value with
  | list items => exact .inl ⟨items, rfl⟩
  | text content => exact .inr ⟨content, rfl⟩
  | null => simp [IsJoinable, kind] at h
  | number x => simp [IsJoinable, kind] at h
  | mapping entries => simp [IsJoinable, kind] at h

def NoTextsMeet (operands : List Value) : Prop :=
  operands.IsChain fun left right => ¬(left.kind = .text ∧ right.kind = .text)

/-- An order in which values are joined, two at a time. -/
inductive Grouping where
  | single (value : Value)
  | joint (left right : Grouping)

namespace Grouping

def operands : Grouping → List Value
  | .single value => [value]
  | .joint left right => left.operands ++ right.operands

/-- Pushes the values from left to right and concatenates the top two at every joint. -/
def run : Grouping → Evaluation Unit
  | .single value => Evaluation.push value
  | .joint left right => do
      left.run
      right.run
      Evaluation.apply .concat

/-- The run puts a value on any stack. -/
def Gives (grouping : Grouping) (value : Value) : Prop :=
  ∀ stack : OperandStack, grouping.run stack = .ok () (value :: stack)

variable {grouping left right : Grouping}

theorem gives_single (value : Value) : (single value).Gives value :=
  fun _ => rfl

theorem Gives.joint {leftValue rightValue value : Value} (hleft : left.Gives leftValue)
    (hright : right.Gives rightValue)
    (hvalue : Operator.concatenate? leftValue rightValue = some value) :
    (joint left right).Gives value := by
  intro stack
  have happly : Evaluation.apply .concat (rightValue :: leftValue :: stack) =
      .ok () (value :: stack) := by
    simp only [Evaluation.apply, Operator.evaluate, hvalue]
  change EStateM.bind left.run (fun _ => EStateM.bind right.run fun _ =>
    Evaluation.apply .concat) stack = _
  simp only [EStateM.bind, hleft stack, hright (leftValue :: stack), happly]

theorem gives_text {contents : List Text} (h : grouping.operands = contents.map .text) :
    grouping.Gives (.text contents.flatten) := by
  induction grouping generalizing contents with
  | single value =>
      obtain ⟨content, rest, rfl, rfl, hrest⟩ := List.map_eq_cons_iff.mp h.symm
      obtain rfl : rest = [] := List.map_eq_nil_iff.mp hrest
      simpa using gives_single (.text content)
  | joint left right ihLeft ihRight =>
      obtain ⟨first, second, rfl, hleft, hright⟩ := List.map_eq_append_iff.mp h.symm
      rw [List.flatten_append]
      exact (ihLeft hleft.symm).joint (ihRight hright.symm) rfl

theorem not_noTextsMeet_of_texts (first second : Text) :
    ¬NoTextsMeet [.text first, .text second] := by
  simp [NoTextsMeet, Value.kind]

theorem eq_single_or_gives_list (hjoinable : ∀ value ∈ grouping.operands, value.IsJoinable)
    (hmeet : NoTextsMeet grouping.operands) :
    (∃ content, grouping = .single (.text content)) ∨
      grouping.Gives (.list (grouping.operands.flatMap Value.asItems)) := by
  induction grouping with
  | single value =>
      have hvalue : value.IsJoinable := hjoinable value (by simp [operands])
      rcases hvalue.exists_eq with ⟨items, rfl⟩ | ⟨content, rfl⟩
      · right
        simpa [operands, Value.asItems] using gives_single (.list items)
      · exact .inl ⟨content, rfl⟩
  | joint left right ihLeft ihRight =>
      right
      obtain ⟨hleftMeet, hrightMeet, -⟩ := List.isChain_append.mp hmeet
      have hleft := ihLeft (fun value hvalue => hjoinable value (by simp [operands, hvalue]))
        hleftMeet
      have hright := ihRight (fun value hvalue => hjoinable value (by simp [operands, hvalue]))
        hrightMeet
      rw [operands, List.flatMap_append]
      rcases hleft with ⟨first, rfl⟩ | hleft
      · rcases hright with ⟨second, rfl⟩ | hright
        · exact absurd hmeet (not_noTextsMeet_of_texts first second)
        · exact (gives_single _).joint hright rfl
      · rcases hright with ⟨second, rfl⟩ | hright
        · exact hleft.joint (gives_single _) rfl
        · exact hleft.joint hright rfl

theorem gives_list (hjoinable : ∀ value ∈ grouping.operands, value.IsJoinable)
    (hmeet : NoTextsMeet grouping.operands) (hmany : 2 ≤ grouping.operands.length) :
    grouping.Gives (.list (grouping.operands.flatMap Value.asItems)) := by
  rcases eq_single_or_gives_list hjoinable hmeet with ⟨content, rfl⟩ | hgives
  · simp [operands] at hmany
  · exact hgives

/-! Three values. -/

def leftward (a b c : Value) : Grouping :=
  .joint (.joint (.single a) (.single b)) (.single c)

def rightward (a b c : Value) : Grouping :=
  .joint (.single a) (.joint (.single b) (.single c))

variable {a b c : Value}

theorem gives_leftward_and_rightward {first second third value : Value}
    (hfirst : Operator.concatenate? a b = some first)
    (hsecond : Operator.concatenate? first c = some second)
    (hthird : Operator.concatenate? b c = some third)
    (hvalue : Operator.concatenate? a third = some value) :
    (leftward a b c).Gives second ∧ (rightward a b c).Gives value := by
  constructor
  · exact ((gives_single a).joint (gives_single b) hfirst).joint (gives_single c) hsecond
  · exact (gives_single a).joint ((gives_single b).joint (gives_single c) hthird) hvalue

theorem gives_list_of_three (ha : a.IsJoinable) (hb : b.IsJoinable) (hc : c.IsJoinable)
    (hmeet : NoTextsMeet [a, b, c]) :
    (leftward a b c).Gives (.list ([a, b, c].flatMap Value.asItems)) ∧
      (rightward a b c).Gives (.list ([a, b, c].flatMap Value.asItems)) := by
  have hjoinable : ∀ value ∈ [a, b, c], value.IsJoinable := by simp [ha, hb, hc]
  have hmany : 2 ≤ [a, b, c].length := by simp
  constructor
  · exact gives_list hjoinable hmeet hmany
  · exact gives_list hjoinable hmeet hmany

def TextsMeetBesideList (a b c : Value) : Prop :=
  (a.kind = .text ∧ b.kind = .text ∧ c.kind = .list) ∨
    (a.kind = .list ∧ b.kind = .text ∧ c.kind = .text)

theorem not_textsMeetBesideList (h : NoTextsMeet [a, b, c]) : ¬TextsMeetBesideList a b c := by
  obtain ⟨hfirst, hrest⟩ := List.isChain_cons_cons.mp h
  obtain ⟨hsecond, -⟩ := List.isChain_cons_cons.mp hrest
  rintro (⟨ha, hb, -⟩ | ⟨-, hb, hc⟩)
  · exact hfirst ⟨ha, hb⟩
  · exact hsecond ⟨hb, hc⟩

/-- Two texts that are joined first become one text, and one that meets a list before the other does
stays an item of its own. -/
theorem exists_gives_of_three (ha : a.IsJoinable) (hb : b.IsJoinable) (hc : c.IsJoinable) :
    ∃ fromLeft fromRight, (leftward a b c).Gives fromLeft ∧ (rightward a b c).Gives fromRight ∧
      (fromLeft ≠ fromRight ↔ TextsMeetBesideList a b c) := by
  have hlist : NoTextsMeet [a, b, c] → ∃ fromLeft fromRight,
      (leftward a b c).Gives fromLeft ∧ (rightward a b c).Gives fromRight ∧
      (fromLeft ≠ fromRight ↔ TextsMeetBesideList a b c) := by
    intro hmeet
    obtain ⟨hleft, hright⟩ := gives_list_of_three ha hb hc hmeet
    exact ⟨_, _, hleft, hright, iff_of_false (not_not_intro rfl) (not_textsMeetBesideList hmeet)⟩
  rcases hb.exists_eq with ⟨items, rfl⟩ | ⟨second, rfl⟩
  · exact hlist (by simp [NoTextsMeet, Value.kind])
  · rcases ha.exists_eq with ⟨items, rfl⟩ | ⟨first, rfl⟩
    · rcases hc.exists_eq with ⟨others, rfl⟩ | ⟨third, rfl⟩
      · exact hlist (by simp [NoTextsMeet, Value.kind])
      · obtain ⟨hleft, hright⟩ := gives_leftward_and_rightward (a := .list items) (b := .text second)
          (c := .text third) rfl rfl rfl rfl
        exact ⟨_, _, hleft, hright, by simp [TextsMeetBesideList, Value.kind]⟩
    · rcases hc.exists_eq with ⟨others, rfl⟩ | ⟨third, rfl⟩
      · obtain ⟨hleft, hright⟩ := gives_leftward_and_rightward (a := .text first) (b := .text second)
          (c := .list others) rfl rfl rfl rfl
        exact ⟨_, _, hleft, hright, by simp [TextsMeetBesideList, Value.kind]⟩
      · obtain ⟨hleft, hright⟩ := gives_leftward_and_rightward (a := .text first) (b := .text second)
          (c := .text third) rfl rfl rfl rfl
        exact ⟨_, _, hleft, hright, by simp [TextsMeetBesideList, Value.kind]⟩

/-- Texts alone are joined to one text, and values between which no two texts meet to one list, in
whatever order they are joined.  Both orders of joining three values give a value, and the order
tells exactly where two of them are texts that meet beside a list. -/
theorem gives_of_any_order :
    (∀ (contents : List Text) (grouping : Grouping), grouping.operands = contents.map .text →
      grouping.Gives (.text contents.flatten)) ∧
    (∀ (values : List Value) (grouping : Grouping), 2 ≤ values.length →
      (∀ value ∈ values, value.IsJoinable) → NoTextsMeet values → grouping.operands = values →
      grouping.Gives (.list (values.flatMap Value.asItems))) ∧
    ∀ a b c : Value, a.IsJoinable → b.IsJoinable → c.IsJoinable →
      ∃ fromLeft fromRight, (leftward a b c).Gives fromLeft ∧ (rightward a b c).Gives fromRight ∧
        (fromLeft ≠ fromRight ↔ TextsMeetBesideList a b c) := by
  refine ⟨fun contents grouping h => gives_text h, ?_, ?_⟩
  · rintro _ grouping hmany hjoinable hmeet rfl
    exact gives_list hjoinable hmeet hmany
  · intro a b c ha hb hc
    exact exists_gives_of_three ha hb hc

theorem gives_of_any_order_list_between_texts :
    (rightward (.text ['a']) (.list [.null]) (.text ['b'])).Gives
      (.list [.text ['a'], .null, .text ['b']]) ∧
    (rightward (.text ['a']) (.text []) (.text ['b'])).Gives (.text ['a', 'b']) ∧
    ∃ fromLeft fromRight,
      (leftward (.text ['a']) (.text ['b']) (.list [.null])).Gives fromLeft ∧
      (rightward (.text ['a']) (.text ['b']) (.list [.null])).Gives fromRight ∧
      fromLeft ≠ fromRight := by
  obtain ⟨htexts, hlist, hthree⟩ := gives_of_any_order
  refine ⟨?_, ?_, ?_⟩
  · exact hlist [.text ['a'], .list [.null], .text ['b']] _ (by decide)
      (by simp [Value.IsJoinable, Value.kind]) (by simp [NoTextsMeet, Value.kind]) rfl
  · exact htexts [['a'], [], ['b']] _ rfl
  · obtain ⟨fromLeft, fromRight, hleft, hright, hiff⟩ :=
      hthree (.text ['a']) (.text ['b']) (.list [.null]) (.inr rfl) (.inr rfl) (.inl rfl)
    exact ⟨fromLeft, fromRight, hleft, hright, hiff.mpr (.inl ⟨rfl, rfl, rfl⟩)⟩

end Grouping

end ConfTree
