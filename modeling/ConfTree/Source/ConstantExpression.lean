import ConfTree.Expression.Stack
import ConfTree.Source.Reading

namespace ConfTree.Reading

def isWordEnd (c : Char) : Bool :=
  c = '|' || Text.isBlank c

/-- Evaluates a word; a refusal is located at the cursor. -/
def evaluateWord (constants : Constants) (word : Text) (stack : OperandStack) :
    Reading OperandStack :=
  match Evaluation.feed constants word stack with
  | .ok _ after => pure after
  | .error cause _ => fail (.expression cause)

def finished (stack : OperandStack) : Reading Value :=
  match stack with
  | [value] => pure value
  | stack => fail (.malformedExpression stack.length)

/-- Reads and evaluates words up to the closing bar.  Every word but the last takes at least the
blank behind it, so the length of the text bounds the loop. -/
def words (constants : Constants) : Nat → OperandStack → Reading Value
  | 0, _ => fail .unterminatedExpression
  | bound + 1, stack => do
      let word ← run fun c => !isWordEnd c
      match ← next? with
      | none => fail .unterminatedExpression
      | some delimiter =>
          let after ← evaluateWord constants word stack
          advance 1
          if delimiter = '|' then finished after else words constants bound after

def expression (constants : Constants) : Reading Value := do
  expect '|'
  let cursor ← get
  words constants cursor.rest.length []

end ConfTree.Reading
