import Tacit.Proofs.Numeral

/-!
# Texts that tell formulas apart

The text of a formula can be read in one way only.  Up to its first mark it is a word: a number, or
what names an operator before its operands.  A bracket right after the word says that operands
follow, and none of them ends before a mark that closes or parts, so each is found again in turn.
-/

namespace Tacit

namespace Formula

/-- A character that ends a word. -/
def isMark (char : Char) : Bool := char = '(' || char = ')' || char = ' ' || char = ','

/-- A text without marks. -/
def IsWord (text : List Char) : Prop := ∀ char ∈ text, isMark char = false

theorem isWord_of_all {text : List Char} (all : (text.all fun char => !isMark char) = true) :
    IsWord text := by
  intro char member
  simpa using List.all_eq_true.mp all char member

end Formula

open Formula (IsWord isWord_of_all)

namespace UnaryOp

/-- What stands before the bracket around the operand. -/
def lead : UnaryOp → String
  | .negate => "-"
  | op => op.name

theorem isWord_lead (op : UnaryOp) : IsWord op.lead.toList := by
  cases op <;> exact isWord_of_all rfl

theorem lead_injective : Function.Injective lead := by
  intro op other same
  cases op <;> cases other <;> simp [lead, name] at same ⊢

end UnaryOp

namespace BinaryOp

/-- What stands before the bracket around the operands. -/
def lead (op : BinaryOp) : String := if op.standsBetween then "" else op.sign

/-- What parts the operands. -/
def joint (op : BinaryOp) : String := if op.standsBetween then " " ++ op.sign ++ " " else ", "

theorem isWord_lead (op : BinaryOp) : IsWord op.lead.toList := by
  cases op <;> exact isWord_of_all rfl

/-- An operator that stands between its operands is told by what parts them, another by what stands
before them. -/
theorem eq_of_lead_of_joint {op other : BinaryOp} {rest otherRest : List Char}
    (sameLead : op.lead = other.lead)
    (sameJoint : op.joint.toList ++ rest = other.joint.toList ++ otherRest) : op = other := by
  cases op <;> cases other <;>
    simp [lead, joint, standsBetween, sign] at sameLead sameJoint ⊢

theorem lead_ne_unary (op : BinaryOp) (other : UnaryOp) : op.lead ≠ other.lead := by
  cases op <;> cases other <;> decide

end BinaryOp

namespace Formula

/-- The word at the start of the text of a formula. -/
def word : Formula → String
  | number value => Numeral.text value
  | unary op _ => op.lead
  | binary op _ _ => op.lead

/-- What follows the word in the text of a formula. -/
def operands : Formula → List Char
  | number _ => []
  | unary _ operand => '(' :: (operand.render.toList ++ [')'])
  | binary op left right =>
      '(' :: (left.render.toList ++ (op.joint.toList ++ (right.render.toList ++ [')'])))

theorem toList_render (formula : Formula) :
    formula.render.toList = formula.word.toList ++ formula.operands := by
  cases formula with
  | number value => simp [render, word, operands]
  | unary op operand => cases op <;> simp [render, word, operands, UnaryOp.lead, UnaryOp.name]
  | binary op left right =>
      cases op <;> simp [render, word, operands, BinaryOp.lead, BinaryOp.joint,
        BinaryOp.standsBetween, BinaryOp.sign]

section Words

variable {left right leftRest rightRest : List Char}

theorem isMark_of_continuesNumber {char : Char} (continues : Lexer.continuesNumber char = true) :
    isMark char = false := by
  cases marks : isMark char with
  | false => rfl
  | true =>
      simp only [isMark, Bool.or_eq_true, decide_eq_true_eq] at marks
      obtain ((rfl | rfl) | rfl) | rfl := marks <;> contradiction

theorem isWord_magnitudeChars (code : Nat) : IsWord (Numeral.magnitudeChars code) := by
  rw [Numeral.magnitudeChars]
  split
  · exact isWord_of_all rfl
  · intro char member
    exact isMark_of_continuesNumber ((Numeral.isPlain_ofCode code).continues char member)

theorem isWord_text (value : Float) : IsWord (Numeral.text value).toList := by
  by_cases isNone : Numeral.text value = "NaN"
  · rw [isNone]
    exact isWord_of_all rfl
  · rw [Numeral.text_eq_nan_iff, Nat.not_lt] at isNone
    rw [Numeral.toList_text isNone]
    intro char member
    obtain inSign | inMagnitude := List.mem_append.mp member
    · split at inSign
      · rw [List.mem_singleton.mp inSign]
        rfl
      · cases inSign
    · exact isWord_magnitudeChars _ char inMagnitude

theorem isWord_word (formula : Formula) : IsWord formula.word.toList := by
  cases formula with
  | number value => exact isWord_text value
  | unary op operand => exact op.isWord_lead
  | binary op left right => exact op.isWord_lead

/-- A word cannot go on where a mark comes next. -/
theorem eq_nil_of_isMark {front more rest : List Char} (isWord : IsWord (front ++ more))
    (marked : ∀ char ∈ (more ++ rest).head?, isMark char = true) : more = [] := by
  cases more with
  | nil => rfl
  | cons char more =>
      have inWord := isWord char (by simp)
      rw [marked char rfl] at inWord
      contradiction

/-- Words before marks are told apart. -/
theorem words_inj (leftWord : IsWord left) (rightWord : IsWord right)
    (leftMark : ∀ char ∈ leftRest.head?, isMark char = true)
    (rightMark : ∀ char ∈ rightRest.head?, isMark char = true)
    (same : left ++ leftRest = right ++ rightRest) : left = right ∧ leftRest = rightRest := by
  obtain ⟨more, rfl, rfl⟩ | ⟨more, rfl, rfl⟩ := List.append_eq_append_iff.mp same
  · simp [eq_nil_of_isMark rightWord leftMark]
  · simp [eq_nil_of_isMark leftWord rightMark]

end Words

section Reading

variable {left right : Formula} {rest leftRest rightRest : List Char}

/-- What can follow a formula: nothing, or a mark that opens no bracket. -/
def Follows (rest : List Char) : Prop := ∀ char ∈ rest.head?, isMark char = true ∧ char ≠ '('

theorem follows_nil : Follows [] := nofun

theorem follows_close (rest : List Char) : Follows (')' :: rest) := by
  rintro char ⟨⟩
  decide

theorem follows_joint (op : BinaryOp) (rest : List Char) : Follows (op.joint.toList ++ rest) := by
  cases op <;> rintro char ⟨⟩ <;> decide

theorem not_follows_of_open {more : List Char} (opens : rest = '(' :: more) : ¬ Follows rest := by
  intro follows
  exact (follows '(' (by rw [opens]; rfl)).2 rfl

/-- After the word of a formula comes a mark, if anything. -/
theorem isMark_head_operands (formula : Formula) (follows : Follows rest) :
    ∀ char ∈ (formula.operands ++ rest).head?, isMark char = true := by
  cases formula with
  | number value => exact fun char first => (follows char first).1
  | unary op operand | binary op left right =>
      rintro char ⟨⟩
      rfl

/-- Where the texts are the same, so are the words and what follows them. -/
theorem parts_eq (leftFollows : Follows leftRest) (rightFollows : Follows rightRest)
    (same : left.render.toList ++ leftRest = right.render.toList ++ rightRest) :
    left.word = right.word ∧ left.operands ++ leftRest = right.operands ++ rightRest := by
  rw [toList_render, toList_render, List.append_assoc, List.append_assoc] at same
  obtain ⟨sameWord, sameRest⟩ := words_inj left.isWord_word right.isWord_word
    (left.isMark_head_operands leftFollows) (right.isMark_head_operands rightFollows) same
  exact ⟨String.toList_inj.mp sameWord, sameRest⟩

/-- A formula is found again at the start of a text, before anything that can follow it. -/
theorem render_append_inj (leftFollows : Follows leftRest) (rightFollows : Follows rightRest)
    (same : left.render.toList ++ leftRest = right.render.toList ++ rightRest) :
    left = right ∧ leftRest = rightRest := by
  induction left generalizing right leftRest rightRest with
  | number value =>
      obtain ⟨sameWord, sameRest⟩ := parts_eq leftFollows rightFollows same
      cases right with
      | number other => exact ⟨congrArg number (Numeral.text_injective sameWord), sameRest⟩
      | unary op operand | binary op left right =>
          -- Only the number can end here: the other word has a bracket after it.
          exact absurd leftFollows (not_follows_of_open sameRest)
  | unary op operand ih =>
      obtain ⟨sameWord, sameRest⟩ := parts_eq leftFollows rightFollows same
      cases right with
      | number value => exact absurd rightFollows (not_follows_of_open sameRest.symm)
      | unary otherOp other =>
          obtain rfl := UnaryOp.lead_injective sameWord
          obtain ⟨rfl, sameClose⟩ := ih (follows_close leftRest) (follows_close rightRest)
            (by simpa [operands] using sameRest)
          exact ⟨rfl, (List.cons.inj sameClose).2⟩
      | binary otherOp left right => exact absurd sameWord.symm (otherOp.lead_ne_unary op)
  | binary op first second ihFirst ihSecond =>
      obtain ⟨sameWord, sameRest⟩ := parts_eq leftFollows rightFollows same
      cases right with
      | number value => exact absurd rightFollows (not_follows_of_open sameRest.symm)
      | unary otherOp other => exact absurd sameWord (op.lead_ne_unary otherOp)
      | binary otherOp otherFirst otherSecond =>
          obtain ⟨rfl, sameJoint⟩ := ihFirst (follows_joint op _) (follows_joint otherOp _)
            (by simpa [operands] using sameRest)
          -- Operators between their operands have the same word, so the first operand is read
          -- before the operators are known to be the same.
          obtain rfl := BinaryOp.eq_of_lead_of_joint sameWord sameJoint
          obtain ⟨rfl, sameClose⟩ := ihSecond (follows_close leftRest) (follows_close rightRest)
            (by simpa using sameJoint)
          exact ⟨rfl, (List.cons.inj sameClose).2⟩

end Reading

/-- Two formulas have the same text exactly if they are the same.  This needs no condition on their
numbers, as all that is no number is one value. -/
theorem render_tells_apart (left right : Formula) : left.render = right.render ↔ left = right := by
  refine ⟨fun same => ?_, congrArg render⟩
  exact (render_append_inj follows_nil follows_nil (by rw [same])).1

example : (unary .negate (number 5)).render = "-(5)" ∧ (number (-5)).render = "-5" ∧
    (binary .subtract (number (-0)) (number 0)).render = "(-0 - 0)" := by
  decide +kernel

end Formula

end Tacit
