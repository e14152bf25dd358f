import ConfTree.Expression.Tree
import ConfTree.Proofs.ExpressionWord
import Mathlib.Data.List.Forall2

namespace ConfTree

namespace ExpressionTree

def WellFormed : ExpressionTree → Prop
  | .leaf operand => operand.WellFormed
  | .node _ left right => left.WellFormed ∧ right.WellFormed

def words (tree : ExpressionTree) : List Text :=
  tree.postorder.map Token.word

def wordsOfAll (trees : List ExpressionTree) : List Text :=
  trees.flatMap words

theorem words_node (operator : Operator) (left right : ExpressionTree) :
    (node operator left right).words = left.words ++ right.words ++ [operator.symbol] := by
  simp [words, postorder, Token.word]

theorem wellFormed_of_mem_postorder {tree : ExpressionTree} (h : tree.WellFormed) :
    ∀ token ∈ tree.postorder, token.WellFormed := by
  induction tree with
  | leaf operand =>
      intro token htoken
      obtain rfl : token = .leaf operand := by simpa [postorder] using htoken
      exact h
  | node operator left right ihLeft ihRight =>
      intro token htoken
      simp only [postorder, List.mem_append, List.mem_singleton] at htoken
      rcases htoken with (hleft | hright) | rfl
      · exact ihLeft h.1 token hleft
      · exact ihRight h.2 token hright
      · trivial

/-! The postorder of trees tells the trees: a stack of trees takes their tokens. -/

/-- Puts a token to the trees read so far, the latest first. -/
def graft : List ExpressionTree → Token → Option (List ExpressionTree)
  | trees, .leaf operand => some (.leaf operand :: trees)
  | right :: left :: below, .operation operator => some (.node operator left right :: below)
  | _, .operation _ => none

def graftAll (trees : List ExpressionTree) (tokens : List Token) : Option (List ExpressionTree) :=
  tokens.foldlM graft trees

theorem graftAll_append (trees : List ExpressionTree) (first second : List Token) :
    graftAll trees (first ++ second) = (graftAll trees first).bind (graftAll · second) := by
  simp [graftAll, List.foldlM_append]

theorem graftAll_postorder (tree : ExpressionTree) (trees : List ExpressionTree) :
    graftAll trees tree.postorder = some (tree :: trees) := by
  induction tree generalizing trees with
  | leaf operand => rfl
  | node operator left right ihLeft ihRight =>
      rw [postorder, graftAll_append, graftAll_append, ihLeft trees, Option.bind_some,
        ihRight (left :: trees), Option.bind_some]
      rfl

theorem graftAll_postorders (forest trees : List ExpressionTree) :
    graftAll trees (forest.flatMap postorder) = some (forest.reverse ++ trees) := by
  induction forest generalizing trees with
  | nil => rfl
  | cons tree forest ih =>
      rw [List.flatMap_cons, graftAll_append, graftAll_postorder, Option.bind_some, ih]
      simp

theorem eq_of_postorders_eq {trees others : List ExpressionTree}
    (h : trees.flatMap postorder = others.flatMap postorder) : trees = others := by
  have htrees := graftAll_postorders trees []
  rw [h, graftAll_postorders others []] at htrees
  simpa using htrees.symm

theorem eq_of_map_word_eq {tokens others : List Token}
    (htokens : ∀ token ∈ tokens, token.WellFormed) (hothers : ∀ token ∈ others, token.WellFormed)
    (h : tokens.map Token.word = others.map Token.word) : tokens = others := by
  induction tokens generalizing others with
  | nil =>
      have hnil : others = [] := by simpa using h.symm
      exact hnil.symm
  | cons token tokens ih =>
      cases others with
      | nil => simp at h
      | cons other others =>
          simp only [List.map_cons, List.cons.injEq] at h
          have hread := Token.ofWord_word (htokens token (by simp))
          rw [h.1, Token.ofWord_word (hothers other (by simp))] at hread
          obtain rfl : other = token := Except.ok.inj hread
          rw [ih (fun token htoken => htokens token (by simp [htoken]))
            (fun token htoken => hothers token (by simp [htoken])) h.2]

theorem eq_of_wordsOfAll_eq {trees others : List ExpressionTree}
    (htrees : ∀ tree ∈ trees, tree.WellFormed) (hothers : ∀ tree ∈ others, tree.WellFormed)
    (h : wordsOfAll trees = wordsOfAll others) : trees = others := by
  have hmap : ∀ forest : List ExpressionTree,
      wordsOfAll forest = (forest.flatMap postorder).map Token.word := by
    intro forest
    rw [wordsOfAll, List.map_flatMap]
    rfl
  have hwell : ∀ forest : List ExpressionTree, (∀ tree ∈ forest, tree.WellFormed) →
      ∀ token ∈ forest.flatMap postorder, token.WellFormed := by
    intro forest hforest token htoken
    obtain ⟨tree, htree, hmem⟩ := List.mem_flatMap.mp htoken
    exact wellFormed_of_mem_postorder (hforest tree htree) token hmem
  rw [hmap, hmap] at h
  exact eq_of_postorders_eq (eq_of_map_word_eq (hwell trees htrees) (hwell others hothers) h)

end ExpressionTree

namespace Evaluation

open ExpressionTree

variable (constants : Constants)

theorem feed_word (token : Token) (h : token.WellFormed) (stack : OperandStack) :
    feed constants token.word stack = take constants token stack := by
  simp only [feed, Token.word_ne_nil h, if_false, Token.ofWord_word h]

theorem feedAll_cons_of_ok {word : Text} {words : List Text} {stack after : OperandStack}
    (h : feed constants word stack = .ok () after) :
    feedAll constants (word :: words) stack = feedAll constants words after := by
  change EStateM.bind (feed constants word) (fun _ => feedAll constants words) stack = _
  rw [EStateM.bind, h]

theorem feedAll_cons_of_error {word : Text} {words : List Text} {stack after : OperandStack}
    {cause : ExpressionError} (h : feed constants word stack = .error cause after) :
    feedAll constants (word :: words) stack = .error cause after := by
  change EStateM.bind (feed constants word) (fun _ => feedAll constants words) stack = _
  rw [EStateM.bind, h]

theorem feedAll_append_of_ok {first second : List Text} {stack after : OperandStack}
    (h : feedAll constants first stack = .ok () after) :
    feedAll constants (first ++ second) stack = feedAll constants second after := by
  induction first generalizing stack with
  | nil =>
      obtain rfl : stack = after := by
        simpa [feedAll, pure, EStateM.pure] using h
      rfl
  | cons word first ih =>
      cases hword : feed constants word stack with
      | ok _ between =>
          rw [feedAll_cons_of_ok constants hword] at h
          rw [List.cons_append, feedAll_cons_of_ok constants hword, ih h]
      | error cause between =>
          rw [feedAll_cons_of_error constants hword] at h
          simp at h

theorem feedAll_append_of_error {first second : List Text} {stack after : OperandStack}
    {cause : ExpressionError} (h : feedAll constants first stack = .error cause after) :
    feedAll constants (first ++ second) stack = .error cause after := by
  induction first generalizing stack with
  | nil => simp [feedAll, pure, EStateM.pure] at h
  | cons word first ih =>
      cases hword : feed constants word stack with
      | ok _ between =>
          rw [feedAll_cons_of_ok constants hword] at h
          rw [List.cons_append, feedAll_cons_of_ok constants hword, ih h]
      | error cause between =>
          rw [feedAll_cons_of_error constants hword] at h
          rw [List.cons_append, feedAll_cons_of_error constants hword, h]

/-! From trees to the stack. -/

/-- What words do that stand for an outcome: they put its value on any stack, or stop for its
cause. -/
def StandFor (words : List Text) (outcome : Except ExpressionError Value) : Prop :=
  ∀ stack : OperandStack,
    match outcome with
    | .ok value => feedAll constants words stack = .ok () (value :: stack)
    | .error cause => ∃ left, feedAll constants words stack = .error cause left

theorem standFor_operand {operand : Operand} (h : operand.WellFormed) :
    StandFor constants [operand.word] (operand.value constants) := by
  intro stack
  have hfeed := feed_word constants (.leaf operand) h stack
  simp only [take, pushOperand] at hfeed
  cases hvalue : operand.value constants with
  | ok value =>
      rw [hvalue] at hfeed
      exact feedAll_cons_of_ok constants hfeed
  | error cause =>
      rw [hvalue] at hfeed
      exact ⟨stack, feedAll_cons_of_error constants hfeed⟩

theorem feedAll_operator (operator : Operator) (left right : Value) (stack : OperandStack) :
    match operator.evaluate left right with
    | .ok value =>
        feedAll constants [operator.symbol] (right :: left :: stack) = .ok () (value :: stack)
    | .error cause =>
        feedAll constants [operator.symbol] (right :: left :: stack) = .error cause stack := by
  have hfeed := feed_word constants (.operation operator) trivial
    (right :: left :: stack)
  simp only [take, apply] at hfeed
  cases hvalue : operator.evaluate left right with
  | ok value =>
      rw [hvalue] at hfeed
      exact feedAll_cons_of_ok constants hfeed
  | error cause =>
      rw [hvalue] at hfeed
      exact feedAll_cons_of_error constants hfeed

theorem StandFor.operator {left right : List Text} {leftOutcome : Except ExpressionError Value}
    {rightOutcome : Except ExpressionError Value} (operator : Operator)
    (hleft : StandFor constants left leftOutcome)
    (hright : StandFor constants right rightOutcome) :
    StandFor constants (left ++ right ++ [operator.symbol]) (do
      let leftValue ← leftOutcome
      let rightValue ← rightOutcome
      operator.evaluate leftValue rightValue) := by
  intro stack
  rw [List.append_assoc]
  have hleft := hleft stack
  cases leftOutcome with
  | error cause =>
      rcases hleft with ⟨rest, hrest⟩
      exact ⟨rest, feedAll_append_of_error constants hrest⟩
  | ok leftValue =>
      rw [feedAll_append_of_ok constants hleft]
      have hright := hright (leftValue :: stack)
      cases rightOutcome with
      | error cause =>
          rcases hright with ⟨rest, hrest⟩
          exact ⟨rest, feedAll_append_of_error constants hrest⟩
      | ok rightValue =>
          rw [feedAll_append_of_ok constants hright]
          have hoperator := feedAll_operator constants operator leftValue rightValue stack
          change match operator.evaluate leftValue rightValue with
            | .ok value => _
            | .error cause => _
          cases hvalue : operator.evaluate leftValue rightValue with
          | ok value => simpa [hvalue] using hoperator
          | error cause => exact ⟨stack, by simpa [hvalue] using hoperator⟩

theorem standFor_words {tree : ExpressionTree} (h : tree.WellFormed) :
    StandFor constants tree.words (tree.value constants) := by
  induction tree with
  | leaf operand => exact standFor_operand constants h
  | node operator left right ihLeft ihRight =>
      rw [words_node]
      exact StandFor.operator constants operator (ihLeft h.1) (ihRight h.2)

/-! From the stack to trees. -/

/-- Trees whose values are on the stack, the latest first. -/
def Holds (trees : List ExpressionTree) (stack : OperandStack) : Prop :=
  (∀ tree ∈ trees, tree.WellFormed) ∧
    List.Forall₂ (fun tree value => tree.value constants = .ok value) trees stack

theorem Holds.push {trees : List ExpressionTree} {stack : OperandStack} {tree : ExpressionTree}
    {value : Value} (h : Holds constants trees stack) (hwell : tree.WellFormed)
    (hvalue : tree.value constants = .ok value) :
    Holds constants (tree :: trees) (value :: stack) :=
  ⟨List.forall_mem_cons.mpr ⟨hwell, h.1⟩, .cons hvalue h.2⟩

/-- Whatever a token leaves on the stack is held by trees with that token behind. -/
theorem Holds.take {trees : List ExpressionTree} {stack after : OperandStack} {token : Token}
    (h : Holds constants trees stack) (hwell : token.WellFormed)
    (htake : take constants token stack = .ok () after) :
    ∃ grown, Holds constants grown after ∧
      wordsOfAll grown.reverse = wordsOfAll trees.reverse ++ [token.word] := by
  cases token with
  | leaf operand =>
      simp only [Evaluation.take, pushOperand] at htake
      split at htake
      · rename_i value hvalue
        simp only [EStateM.Result.ok.injEq, true_and] at htake
        subst htake
        refine ⟨.leaf operand :: trees, h.push constants hwell hvalue, ?_⟩
        simp [wordsOfAll, words, postorder]
      · simp at htake
  | operation operator =>
      rcases h with ⟨htrees, hvalues⟩
      cases hvalues with
      | nil => simp [Evaluation.take, apply] at htake
      | @cons right rightValue trees stack hright hvalues =>
          cases hvalues with
          | nil => simp [Evaluation.take, apply] at htake
          | @cons left leftValue below stack hleft hbelow =>
              simp only [Evaluation.take, apply] at htake
              split at htake
              · rename_i value hvalue
                simp only [EStateM.Result.ok.injEq, true_and] at htake
                subst htake
                have hbelowHolds : Holds constants below stack :=
                  ⟨fun tree htree => htrees tree (by simp [htree]), hbelow⟩
                have hnode : (node operator left right).value constants = .ok value := by
                  simp only [ExpressionTree.value, hleft, hright]
                  exact hvalue
                refine ⟨.node operator left right :: below, hbelowHolds.push constants
                  ⟨htrees left (by simp), htrees right (by simp)⟩ hnode, ?_⟩
                simp [wordsOfAll, words_node, Token.word]
              · simp at htake

theorem Holds.feedAll {trees : List ExpressionTree} {stack after : OperandStack}
    {fed : List Text} (h : Holds constants trees stack)
    (hfeed : feedAll constants fed stack = .ok () after) :
    ∃ grown, Holds constants grown after ∧
      wordsOfAll grown.reverse = wordsOfAll trees.reverse ++ fed.filter (· ≠ []) := by
  induction fed generalizing trees stack with
  | nil =>
      obtain rfl : stack = after := by
        simpa [Evaluation.feedAll, pure, EStateM.pure] using hfeed
      exact ⟨trees, h, by simp⟩
  | cons word fed ih =>
      cases hword : feed constants word stack with
      | error cause between =>
          rw [feedAll_cons_of_error constants hword] at hfeed
          simp at hfeed
      | ok _ between =>
          rw [feedAll_cons_of_ok constants hword] at hfeed
          by_cases hnil : word = []
          · subst hnil
            obtain rfl : stack = between := by
              simpa [feed, pure, EStateM.pure] using hword
            simpa using ih h hfeed
          · simp only [feed, hnil, if_false] at hword
            split at hword
            · rename_i token htoken
              obtain ⟨hwell, rfl⟩ := Token.ofWord_eq_ok_iff.mp htoken
              obtain ⟨grown, hgrown, hwords⟩ := h.take constants hwell hword
              obtain ⟨last, hlast, hall⟩ := ih hgrown hfeed
              refine ⟨last, hlast, ?_⟩
              rw [hall, hwords]
              simp [hnil]
            · simp at hword

theorem values_reverse_of_holds {trees : List ExpressionTree} {stack : OperandStack}
    (h : Holds constants trees stack) :
    values constants trees.reverse = .ok stack.reverse := by
  have hvalues : ∀ {trees : List ExpressionTree} {stack : OperandStack},
      List.Forall₂ (fun tree value => tree.value constants = .ok value) trees stack →
        values constants trees = .ok stack := by
    intro trees stack h
    induction h with
    | nil => rfl
    | cons htree _ ih =>
        simp only [values, htree, ih]
        rfl
  exact hvalues (List.rel_reverse h.2)

/-- What is fed to the empty stack with success is the postorder of trees in exactly one way, one
tree for each operand left, and their values are left in order. -/
theorem exists_trees_of_feedAll {fed : List Text} {stack : OperandStack}
    (h : feedAll constants fed [] = .ok () stack) :
    ∃ trees : List ExpressionTree, (∀ tree ∈ trees, tree.WellFormed) ∧
      wordsOfAll trees = fed.filter (· ≠ []) ∧ trees.length = stack.length ∧
      values constants trees = .ok stack.reverse ∧
      ∀ others : List ExpressionTree, (∀ tree ∈ others, tree.WellFormed) →
        wordsOfAll others = fed.filter (· ≠ []) → others = trees := by
  have hempty : Holds constants [] [] := ⟨by simp, .nil⟩
  obtain ⟨trees, hholds, hwords⟩ := hempty.feedAll constants h
  have hwell : ∀ tree ∈ trees.reverse, tree.WellFormed := by
    intro tree htree
    exact hholds.1 tree (List.mem_reverse.mp htree)
  have hall : wordsOfAll trees.reverse = fed.filter (· ≠ []) := by
    simpa [wordsOfAll] using hwords
  refine ⟨trees.reverse, hwell, hall, ?_, values_reverse_of_holds constants hholds, ?_⟩
  · rw [List.length_reverse, hholds.2.length_eq]
  · intro others hothers hspelled
    exact eq_of_wordsOfAll_eq hothers hwell (hspelled.trans hall.symm)

def outcomeOf (fed : List Text) : Evaluation Outcome := do
  feedAll constants fed
  finish

theorem outcomeOf_eq_ok {fed : List Text} {outcome : Outcome} {stack : OperandStack}
    (h : outcomeOf constants fed [] = .ok outcome stack) :
    feedAll constants fed [] = .ok () stack ∧ finish stack = .ok outcome stack := by
  change EStateM.bind (feedAll constants fed) (fun _ => finish) [] = _ at h
  rw [EStateM.bind] at h
  split at h
  · rename_i between hfeed
    obtain ⟨rfl, rfl⟩ : outcome = _ ∧ stack = between := by
      simpa [finish, eq_comm] using h
    exact ⟨hfeed, rfl⟩
  · simp at h

theorem depth_eq_one_iff {fed : List Text} {outcome : Outcome} {stack : OperandStack}
    (h : outcomeOf constants fed [] = .ok outcome stack) :
    (outcome.depth = 1 ↔
      ∃ tree : ExpressionTree, tree.WellFormed ∧ tree.words = fed.filter (· ≠ [])) ∧
    ∀ tree : ExpressionTree, tree.WellFormed → tree.words = fed.filter (· ≠ []) →
      ∃ value, tree.value constants = .ok value ∧ outcome.value? = some value := by
  obtain ⟨hfeed, hfinish⟩ := outcomeOf_eq_ok constants h
  obtain ⟨rfl, -⟩ : outcome = ⟨stack.length, if stack.length = 1 then stack.head? else none⟩ ∧
      True := by simpa [finish, eq_comm] using hfinish
  obtain ⟨trees, hwell, hwords, hlength, hvalues, hunique⟩ :=
    exists_trees_of_feedAll constants hfeed
  have hsingle : ∀ tree : ExpressionTree, tree.WellFormed →
      tree.words = fed.filter (· ≠ []) → trees = [tree] := by
    intro tree htree hspelled
    exact (hunique [tree] (by simpa using htree) (by simpa [wordsOfAll] using hspelled)).symm
  refine ⟨⟨?_, ?_⟩, ?_⟩
  · intro hdepth
    obtain ⟨tree, rfl⟩ := List.length_eq_one_iff.mp (hlength.trans hdepth)
    exact ⟨tree, hwell tree (by simp), by simpa [wordsOfAll] using hwords⟩
  · rintro ⟨tree, htree, hspelled⟩
    rw [hsingle tree htree hspelled] at hlength
    exact hlength.symm
  · intro tree htree hspelled
    rw [hsingle tree htree hspelled] at hlength hvalues
    obtain ⟨value, rfl⟩ := List.length_eq_one_iff.mp hlength.symm
    refine ⟨value, ?_, rfl⟩
    simp only [values] at hvalues
    cases hvalue : tree.value constants with
    | ok found =>
        rw [hvalue] at hvalues
        have hfound : found = value := by simpa [bind, Except.bind] using hvalues
        rw [hfound]
    | error cause =>
        rw [hvalue] at hvalues
        simp [bind, Except.bind] at hvalues

/-- Evaluation on a stack and evaluation of trees agree.  The words of a tree put its value on any
stack or stop for the cause that evaluating the tree meets first.  Conversely, words fed to the
empty stack with success are the postorder of exactly one list of trees, whose values the stack
holds in order, so they leave one operand exactly if they are the words of one tree. -/
theorem feedAll_agrees_with_trees (constants : Constants) :
    (∀ (tree : ExpressionTree) (stack : OperandStack), tree.WellFormed →
      match tree.value constants with
      | .ok value => feedAll constants tree.words stack = .ok () (value :: stack)
      | .error cause => ∃ left, feedAll constants tree.words stack = .error cause left) ∧
    (∀ (fed : List Text) (stack : OperandStack), feedAll constants fed [] = .ok () stack →
      ∃ trees : List ExpressionTree, (∀ tree ∈ trees, tree.WellFormed) ∧
        wordsOfAll trees = fed.filter (· ≠ []) ∧ trees.length = stack.length ∧
        values constants trees = .ok stack.reverse ∧
        ∀ others : List ExpressionTree, (∀ tree ∈ others, tree.WellFormed) →
          wordsOfAll others = fed.filter (· ≠ []) → others = trees) ∧
    (∀ (fed : List Text) (outcome : Outcome) (stack : OperandStack),
      outcomeOf constants fed [] = .ok outcome stack →
      (outcome.depth = 1 ↔
        ∃ tree : ExpressionTree, tree.WellFormed ∧ tree.words = fed.filter (· ≠ [])) ∧
      ∀ tree : ExpressionTree, tree.WellFormed → tree.words = fed.filter (· ≠ []) →
        ∃ value, tree.value constants = .ok value ∧ outcome.value? = some value) := by
  refine ⟨?_, ?_, ?_⟩
  · intro tree stack h
    exact standFor_words constants h stack
  · intro fed stack h
    exact exists_trees_of_feedAll constants h
  · intro fed outcome stack h
    exact depth_eq_one_iff constants h

theorem feedAll_agrees_with_trees_greeting :
    let constants : Constants := [(['x'], .text ['h', 'i'])]
    let tree := node .concat (.leaf (.constant ['x'])) (.leaf (.text ['!']))
    let fed : List Text := [['x'], [], ['@', '"', '!', '"'], Operator.concat.symbol]
    feedAll constants tree.words [.null] = .ok () [.text ['h', 'i', '!'], .null] ∧
      (∃ trees : List ExpressionTree, trees.length = 1 ∧
        wordsOfAll trees = fed.filter (· ≠ []) ∧
        values constants trees = .ok [.text ['h', 'i', '!']]) ∧
      ∃ found : ExpressionTree, found.WellFormed ∧ found.words = fed.filter (· ≠ []) := by
  intro constants tree fed
  obtain ⟨hfeed, htrees, houtcome⟩ := feedAll_agrees_with_trees constants
  have hwell : tree.WellFormed := by
    refine ⟨⟨by simp, ?_⟩, trivial⟩
    simp [Text.isNameLetter]
  have hfed : feedAll constants fed [] = .ok () [.text ['h', 'i', '!']] := rfl
  refine ⟨hfeed tree [.null] hwell, ?_, ?_⟩
  · obtain ⟨trees, -, hwords, hlength, hvalues, -⟩ := htrees fed _ hfed
    exact ⟨trees, hlength, hwords, hvalues⟩
  · exact (houtcome fed ⟨1, some (.text ['h', 'i', '!'])⟩ [.text ['h', 'i', '!']] rfl).1.mp rfl

end Evaluation

end ConfTree
