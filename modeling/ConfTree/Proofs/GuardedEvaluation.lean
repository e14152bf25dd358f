import ConfTree.Expression.Stack
import ConfTree.Proofs.LiteralSpelling
import Mathlib.Tactic.SplitIfs
import Mathlib.Tactic.Zify

namespace ConfTree

/-- Why a partial operation has nothing to give. -/
inductive Fault where
  | emptyStack
  | unknownOperator
  | noCharacter
  | noNumber
  | noInteger
  | zeroDivisor
  | unknownName

inductive Escape where
  | refused (message : Text)
  | fault (fault : Fault)

/-! Conversion of literals. -/

namespace NumberLiteral

/-- The number that a text in plain decimal notation converts to.  Digits may be missing on one side
of the point. -/
def convert (text : Text) : Except Fault Binary64 :=
  let sign := Sign.leading text
  let unsigned := text.drop sign.text.length
  let whole := unsigned.takeWhile Text.isDigit
  match unsigned.dropWhile Text.isDigit with
  | [] => if whole = [] then .error .noNumber else .ok (value ⟨sign, whole, none⟩)
  | '.' :: fraction =>
      if fraction.all Text.isDigit ∧ (whole ≠ [] ∨ fraction ≠ []) then
        .ok (value ⟨sign, whole, some fraction⟩)
      else .error .noNumber
  | _ => .error .noNumber

theorem convert_of_ofText? {text : Text} {literal : NumberLiteral}
    (h : ofText? text = some literal) : convert text = .ok literal.value := by
  simp only [ofText?] at h
  split at h
  · simp at h
  · rename_i hwhole
    split at h
    · rename_i hdrop
      cases h
      simp only [convert, hdrop, if_neg hwhole]
    · rename_i fraction hdrop
      split at h
      · rename_i hfraction
        cases h
        simp only [convert, hdrop]
        rw [if_pos ⟨hfraction.2, .inl hwhole⟩]
      · simp at h
    · simp at h

theorem convert_sign (sign : Sign) : convert sign.text = .error .noNumber := by
  cases sign <;> rfl

end NumberLiteral

/-! Cutting a number to an integer. -/

namespace Binary64

def isAtLeast (x : Binary64) (bound : Int) : Bool :=
  match x with
  | .nan => false
  | .infinity negative => !negative
  | .finite negative magnitude => bound * Magnitude.unitsPerOne ≤ signed negative magnitude.units

def isAtMost (x : Binary64) (bound : Int) : Bool :=
  match x with
  | .nan => false
  | .infinity negative => negative
  | .finite negative magnitude => signed negative magnitude.units ≤ bound * Magnitude.unitsPerOne

def integerPart : Binary64 → Except Fault Int
  | .finite negative magnitude => .ok (truncate negative magnitude)
  | _ => .error .noInteger

/-- The narrowing to a 64-bit integer: only a number between the bounds is cut. -/
def guardedLong (x : Binary64) : Except Fault Int :=
  if x = .nan then .ok 0
  else if x.isAtLeast longGreatest then .ok longGreatest
  else if x.isAtMost longLeast then .ok longLeast
  else x.integerPart

/-- The remainder of a division, which needs a divisor other than zero. -/
def guardedRemainder (dividend divisor : Int) : Except Fault Binary64 :=
  if divisor = 0 then .error .zeroDivisor
  else .ok (ofInt (signed (dividend < 0) (dividend.natAbs % divisor.natAbs)))

theorem signed_mod (dividend divisor : Int) :
    signed (dividend < 0) (dividend.natAbs % divisor.natAbs) = dividend.tmod divisor := by
  rw [← Int.natAbs_tmod, signed]
  by_cases h : dividend < 0
  · have hneg : 0 ≤ (-dividend).tmod divisor := Int.tmod_nonneg divisor (by omega)
    rw [Int.neg_tmod] at hneg
    simp only [h, decide_true, if_true]
    omega
  · have hpos : 0 ≤ dividend.tmod divisor := Int.tmod_nonneg divisor (by omega)
    simp only [h, decide_false, Bool.false_eq_true, if_false]
    omega

theorem guardedRemainder_eq {dividend divisor : Int} (h : divisor ≠ 0) :
    guardedRemainder dividend divisor = .ok (remainder dividend divisor) := by
  rw [guardedRemainder, if_neg h, signed_mod, remainder]

/-- Cutting and then clamping is clamping first and cutting only what lies between the bounds. -/
theorem clamp_signed {unit : Nat} (hunit : 0 < unit) {greatest least : Nat}
    (hgreatest : 0 < greatest) (hleast : 0 < least) (negative : Bool) (units : Nat) :
    max (-(least : Int)) (min greatest (signed negative (units / unit))) =
      if (greatest : Int) * unit ≤ signed negative units then (greatest : Int)
      else if signed negative units ≤ -(least : Int) * unit then -(least : Int)
      else signed negative (units / unit) := by
  have hhigh : greatest ≤ units / unit ↔ greatest * unit ≤ units := Nat.le_div_iff_mul_le hunit
  have hlow : least ≤ units / unit ↔ least * unit ≤ units := Nat.le_div_iff_mul_le hunit
  have hhighPos : 0 < greatest * unit := Nat.mul_pos hgreatest hunit
  have hlowPos : 0 < least * unit := Nat.mul_pos hleast hunit
  rw [Int.neg_mul]
  -- The products become plain numbers, so that what remains is linear.
  generalize units / unit = quotient at hhigh hlow ⊢
  zify at hhigh hlow hhighPos hlowPos
  generalize (greatest : Int) * unit = high at *
  generalize (least : Int) * unit = low at *
  cases negative with
  | false =>
      simp only [signed, Bool.false_eq_true, if_false]
      split_ifs <;> omega
  | true =>
      simp only [signed, if_true]
      split_ifs <;> omega

theorem guardedLong_eq (x : Binary64) : x.guardedLong = .ok x.toLong := by
  cases x with
  | nan => rfl
  | infinity negative => cases negative <;> rfl
  | finite negative magnitude =>
      have hgreatest : longGreatest = ((2 ^ 63 - 1 : Nat) : Int) := by
        rw [longGreatest]
        decide
      have hleast : longLeast = -((2 ^ 63 : Nat) : Int) := by
        rw [longLeast]
        decide
      have hclamp := clamp_signed Magnitude.unitsPerOne_pos (show 0 < 2 ^ 63 - 1 by decide)
        (show 0 < 2 ^ 63 by decide) negative magnitude.units
      rw [← hgreatest, ← hleast] at hclamp
      have hlong : toLong (.finite negative magnitude) = _ := hclamp
      rw [hlong, guardedLong, if_neg (by simp)]
      simp only [isAtLeast, isAtMost, integerPart, truncate, decide_eq_true_eq]
      split_ifs <;> rfl

end Binary64

/-! Evaluation. -/

def ofFault {α : Type} (result : Except Fault α) : Except Escape α :=
  result.mapError .fault

def refuse {α : Type} (cause : ExpressionError) : Except Escape α :=
  .error (.refused cause.message)

namespace Operator

def table : List (Text × Operator) :=
  all.map fun operator => (operator.symbol, operator)

def find (word : Text) : Except Fault Operator :=
  match table.lookup word with
  | some operator => .ok operator
  | none => .error .unknownOperator

def numbers (operator : Operator) (left right : Value) : Except Escape (Binary64 × Binary64) :=
  match left, right with
  | .number x, .number y => .ok (x, y)
  | left, right => refuse (.invalidOperands operator left.kind right.kind)

def call (operator : Operator) (left right : Value) : Except Escape Value :=
  match operator with
  | .add => do
      let (x, y) ← numbers .add left right
      pure (.number (x.add y))
  | .subtract => do
      let (x, y) ← numbers .subtract left right
      pure (.number (x.sub y))
  | .multiply => do
      let (x, y) ← numbers .multiply left right
      pure (.number (x.mul y))
  | .concat =>
      match concatenate? left right with
      | some joint => pure joint
      | none => refuse (.invalidOperands .concat left.kind right.kind)
  | .mod => do
      let (x, y) ← numbers .mod left right
      let dividend ← ofFault x.guardedLong
      let divisor ← ofFault y.guardedLong
      if divisor = 0 then
        refuse .divisionByZero
      else
        .number <$> ofFault (Binary64.guardedRemainder dividend divisor)

theorem lookup_table (word : Text) : table.lookup word = ofSymbol? word := by
  have hmap : ∀ operators : List Operator,
      (operators.map fun operator => (operator.symbol, operator)).lookup word =
        operators.find? fun operator => operator.symbol = word := by
    intro operators
    induction operators with
    | nil => rfl
    | cons operator operators ih =>
        rw [List.map_cons, List.lookup_cons, ih, List.find?_cons]
        by_cases h : operator.symbol = word
        · simp [h]
        · have hbeq : (word == operator.symbol) = false := beq_eq_false_iff_ne.mpr (Ne.symm h)
          simp [h, hbeq]
  exact hmap all

theorem call_mod_numbers (x y : Binary64) :
    call .mod (.number x) (.number y) =
      (evaluate .mod (.number x) (.number y)).mapError fun cause => .refused cause.message := by
  change (do
    let dividend ← ofFault x.guardedLong
    let divisor ← ofFault y.guardedLong
    if divisor = 0 then refuse .divisionByZero
    else .number <$> ofFault (Binary64.guardedRemainder dividend divisor) : Except Escape Value) = _
  rw [x.guardedLong_eq, y.guardedLong_eq]
  change (if y.toLong = 0 then refuse .divisionByZero
    else .number <$> ofFault (Binary64.guardedRemainder x.toLong y.toLong) : Except Escape Value) = _
  simp only [evaluate, onNumbers]
  split
  · rfl
  · rename_i hdivisor
    rw [Binary64.guardedRemainder_eq hdivisor]
    rfl

theorem call_eq (operator : Operator) (left right : Value) :
    operator.call left right =
      (operator.evaluate left right).mapError fun cause => .refused cause.message := by
  cases operator with
  | concat =>
      simp only [call, evaluate]
      cases concatenate? left right <;> rfl
  | mod =>
      cases left <;> cases right <;> first | exact call_mod_numbers _ _ | rfl
  | _ => cases left <;> cases right <;> rfl

end Operator

/-! The stack. -/

namespace Evaluation.Guarded

def ofExcept {α : Type} (result : Except Escape α) : EStateM Escape OperandStack α :=
  fun stack =>
    match result with
    | .ok value => .ok value stack
    | .error escape => .error escape stack

def pop : EStateM Escape OperandStack Value
  | value :: below => .ok value below
  | [] => .error (.fault .emptyStack) []

def push (value : Value) : EStateM Escape OperandStack Unit :=
  modify fun stack => value :: stack

def apply (word : Text) : EStateM Escape OperandStack Unit := do
  let stack ← get
  -- This test stands before both operands and before the table.
  if stack.length < 2 then
    ofExcept (.error (.refused ("insufficient operands for ".toList ++ word)))
  else
    let right ← pop
    let left ← pop
    let operator ← ofExcept (ofFault (Operator.find word))
    let value ← ofExcept (operator.call left right)
    push value

def characterAt (word : Text) (index : Nat) : Except Fault Char :=
  match word[index]? with
  | some c => .ok c
  | none => .error .noCharacter

def isQuoted (word : Text) : Except Fault Bool :=
  if word.length < 3 then
    .ok false
  else do
    if (← characterAt word 1) ≠ '"' then
      pure false
    else
      let last ← characterAt word (word.length - 1)
      pure (last = '"')

def constant (constants : Constants) (name : Text) : Except Fault Value :=
  match constants.valueOf? name with
  | some value => .ok value
  | none => .error .unknownName

def feed (constants : Constants) (word : Text) : EStateM Escape OperandStack Unit := do
  if word = [] then
    pure ()
  else if (Operator.table.lookup word).isSome then
    apply word
  else if word.head? = some '@' then
    if ← ofExcept (ofFault (isQuoted word)) then
      push (.text (word.drop 2).dropLast)
    else
      ofExcept (refuse (.malformedText word))
  else if (NumberLiteral.ofText? word).isSome then
    let x ← ofExcept (ofFault (NumberLiteral.convert word))
    push (.number x)
  else if word.all Text.isNameLetter then
    if (constants.valueOf? word).isNone then
      ofExcept (refuse (.unknownName word))
    else
      let value ← ofExcept (ofFault (constant constants word))
      push value
  else
    ofExcept (refuse (.unknownWord word))

end Evaluation.Guarded

namespace Evaluation

def worded {α : Type} :
    EStateM.Result ExpressionError OperandStack α → EStateM.Result Escape OperandStack α
  | .ok value stack => .ok value stack
  | .error cause stack => .error (.refused cause.message) stack

theorem guarded_apply_eq {word : Text} {operator : Operator}
    (h : Operator.ofSymbol? word = some operator) (stack : OperandStack) :
    Guarded.apply word stack = worded (apply operator stack) := by
  obtain rfl := Operator.ofSymbol?_eq_some_iff.mp h
  match stack with
  | [] => rfl
  | [_] => rfl
  | right :: left :: below =>
      have hfind : Operator.find operator.symbol = .ok operator := by
        rw [Operator.find, Operator.lookup_table, h]
      have hcalled : Guarded.apply operator.symbol (right :: left :: below) =
          (do
            let value ← Guarded.ofExcept (operator.call left right)
            Guarded.push value) below := by
        rw [Guarded.apply, hfind]
        rfl
      rw [hcalled, Operator.call_eq]
      simp only [apply]
      cases operator.evaluate left right <;> rfl

theorem isQuoted_eq {word : Text} (h : word.head? = some '@') :
    Guarded.isQuoted word = .ok (Operand.quotedContent? word).isSome := by
  obtain ⟨tail, rfl⟩ := List.head?_eq_some_iff.mp h
  match tail with
  | [] => rfl
  | [c] =>
      by_cases hc : c = '"'
      · subst hc
        rfl
      · simp [Guarded.isQuoted, Operand.quotedContent?, hc]
  | c :: d :: more =>
      -- Only here the word is long enough for its second and its last character to be looked at.
      have hlong : ¬('@' :: c :: d :: more).length < 3 := by simp
      have hsecond : Guarded.characterAt ('@' :: c :: d :: more) 1 = .ok c := rfl
      have hlast : Guarded.characterAt ('@' :: c :: d :: more)
          (('@' :: c :: d :: more).length - 1) = .ok ((d :: more).getLast (by simp)) := by
        rw [Guarded.characterAt, ← List.getLast?_eq_getElem?]
        simp [List.getLast?_cons, List.getLast_eq_getLastD]
      rw [Guarded.isQuoted, if_neg hlong, hsecond, hlast]
      by_cases hc : c = '"'
      · subst hc
        change Except.ok (decide ((d :: more).getLast (by simp) = '"')) = _
        rw [Operand.quotedContent?, List.getLast?_eq_some_getLast (by simp)]
        by_cases hend : (d :: more).getLast (by simp) = '"'
        · simp [hend]
        · simp [hend]
      · change (if c ≠ '"' then Except.ok false else _) = _
        rw [if_pos hc]
        simp [Operand.quotedContent?, hc]

theorem quotedContent?_eq_of_isSome {word : Text} (h : (Operand.quotedContent? word).isSome = true) :
    Operand.quotedContent? word = some (word.drop 2).dropLast := by
  unfold Operand.quotedContent? at h ⊢
  split at h
  · split at h
    · rename_i hlast
      simp [hlast]
    · cases h
  · cases h

theorem guarded_feed_eq (constants : Constants) (word : Text) (stack : OperandStack) :
    Guarded.feed constants word stack = worded (feed constants word stack) := by
  by_cases hempty : word = []
  · subst hempty
    rfl
  rw [Guarded.feed, if_neg hempty, Operator.lookup_table, feed, if_neg hempty, Token.ofWord]
  cases hoperator : Operator.ofSymbol? word with
  | some operator => exact guarded_apply_eq hoperator stack
  | none =>
      simp only [Option.isSome_none, Bool.false_eq_true, if_false, Operand.ofWord]
      by_cases hat : word.head? = some '@'
      · rw [if_pos hat, if_pos hat, isQuoted_eq hat]
        cases hcontent : Operand.quotedContent? word with
        | none => rfl
        | some content =>
            have hsome : (Operand.quotedContent? word).isSome = true := by
              rw [hcontent]
              rfl
            obtain rfl := Option.some.inj (hcontent.symm.trans (quotedContent?_eq_of_isSome hsome))
            rfl
      · rw [if_neg hat, if_neg hat]
        cases hliteral : NumberLiteral.ofText? word with
        | some literal =>
            rw [NumberLiteral.convert_of_ofText? hliteral]
            rfl
        | none =>
            simp only [Option.isSome_none, Bool.false_eq_true, if_false]
            by_cases hletters : word.all Text.isNameLetter = true
            · have hname : word ≠ [] ∧ word.all Text.isNameLetter = true := ⟨hempty, hletters⟩
              rw [if_pos hletters, if_pos hname]
              simp only [Guarded.constant]
              cases hvalue : constants.valueOf? word with
              | none =>
                  simp only [Option.isNone_none, if_true, Except.map, take, pushOperand,
                    Operand.value, hvalue]
                  rfl
              | some value =>
                  simp only [Option.isNone_some, Bool.false_eq_true, if_false, Except.map, take,
                    pushOperand, Operand.value, hvalue]
                  rfl
            · rw [if_neg hletters, if_neg fun h => hletters h.2]
              rfl

end Evaluation

end ConfTree
