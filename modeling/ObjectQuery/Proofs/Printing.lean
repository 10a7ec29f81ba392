import ObjectQuery.Language.Parser
import ObjectQuery.Text.Decimal

/-!
Writing terms. A term has a precedence, and it is put into parentheses where a tighter one is asked
for; at most blanks follow each token. What is written this way is made of tokens that the parsers
read back: this module has the printer and the tokens, the terms are in `ReadTerms`.
-/

namespace ObjectQuery.Language

/-- The precedence of an operator. Lambdas and conditionals have 1, accesses and calls have 10, and
what needs no parentheses anywhere has 11. -/
def Op.rank : Op → Nat
  | .coalesce => 2
  | .or => 3
  | .and => 4
  | .equal | .notEqual => 5
  | .less | .lessEqual | .greater | .greaterEqual => 6
  | .plus | .minus => 7
  | .times | .divide | .modulo => 8
  | .not | .negate => 9

structure Phrase where
  rank : Nat
  text : List Char

def escaped (c : Char) : List Char := if c = '"' ∨ c = '\\' then ['\\', c] else [c]

section Printer

-- the blanks behind every token
variable (gap : List Char)

def Phrase.shown (p : Phrase) (rank : Nat) : List Char :=
  if p.rank < rank then '(' :: p.text ++ ')' :: gap else p.text

def commas : List (List Char) → List Char
  | [] => []
  | text :: texts => text ++ texts.flatMap fun text => ',' :: gap ++ text

def literalText : Literal → List Char
  | .null => "null".toList ++ gap
  | .bool b => (if b then "true" else "false").toList ++ gap
  | .int n => Nat.toDigits 10 n.toNat ++ gap
  | .float x => (Decimal.marked x).toList ++ gap
  | .text s => '"' :: s.toList.flatMap escaped ++ '"' :: gap

def paramsText : List String → List Char
  | [param] => param.toList ++ gap
  | params => '(' :: commas gap (params.map fun param => param.toList ++ gap) ++ ')' :: gap

def argumentsText (args : List Phrase) : List Char :=
  '(' :: gap ++ commas gap (args.map (·.text)) ++ ')' :: gap

def Op.phrase (op : Op) : List Phrase → Phrase
  | [operand] => ⟨op.rank, op.symbol.toList ++ gap ++ operand.shown gap op.rank⟩
  | [left, right] => ⟨op.rank, left.shown gap op.rank ++ op.symbol.toList ++ gap
      ++ right.shown gap (op.rank + 1)⟩
  | operands => ⟨11, op.symbol.toList ++ gap ++ argumentsText gap operands⟩

def fieldText (name : Option String) (value : Phrase) : List Char :=
  match name with
  | some name => name.toList ++ gap ++ '=' :: gap ++ value.text
  | none => value.text

def typeText : Option String → List Char
  | some typeName => ' ' :: typeName.toList ++ gap
  | none => gap

mutual

def Term.phrase : Term → Phrase
  | .literal l => ⟨11, literalText gap l⟩
  | .variable name => ⟨11, name.toList ++ gap⟩
  | .list items => ⟨11, '[' :: commas gap ((phrases items).map (·.text)) ++ ']' :: gap⟩
  | .get target member => ⟨10, target.phrase.shown gap 10 ++ '.' :: gap ++ member.toList ++ gap⟩
  | .method target name args => ⟨10, target.phrase.shown gap 10 ++ '.' :: gap ++ name.toList ++ gap
      ++ argumentsText gap (phrases args)⟩
  | .function name args => ⟨11, name.toList ++ gap ++ argumentsText gap (phrases args)⟩
  | .lambda params body => ⟨1, paramsText gap params ++ '=' :: '>' :: gap ++ body.phrase.text⟩
  | .construct typeName fields => ⟨11, "new".toList ++ typeText gap typeName ++ '\x7b' :: gap
      ++ commas gap (fieldTexts fields) ++ '\x7d' :: gap⟩
  | .apply op operands => op.phrase gap (phrases operands)
  | .cond test onTrue onFalse => ⟨1, test.phrase.shown gap 2 ++ '?' :: gap ++ onTrue.phrase.text
      ++ ':' :: gap ++ onFalse.phrase.text⟩

def phrases : List Term → List Phrase
  | [] => []
  | t :: ts => t.phrase :: phrases ts

def fieldTexts : List (Option String × Term) → List (List Char)
  | [] => []
  | (name, t) :: fields => fieldText gap name t.phrase :: fieldTexts fields

end

def Term.print (t : Term) : String := String.ofList (t.phrase gap).text

end Printer

example : (Term.apply .times [.apply .plus [.variable "a", .literal (.int 1)],
    .apply .negate [.get (.variable "b") "c"]]).print [' '] = "(a + 1 ) * - b . c " := by cbv

def isIdentifier (s : String) : Bool :=
  match s.toList with
  | first :: rest => (first.isAlpha || first == '_') && rest.all (fun c => c.isAlphanum || c == '_')
      && !(["new", "null", "true", "false"].contains s)
  | [] => false

/-- The terms that a text can stand for, except those with fractions. -/
inductive Term.Written : Term → Prop
  | null : Written (.literal .null)
  | bool (b : Bool) : Written (.literal (.bool b))
  | int (n : Nat) : n < 0x8000000000000000 → Written (.literal (.int n))
  | text (s : String) : Written (.literal (.text s))
  | named (name : String) : isIdentifier name → Written (.variable name)
  | list (items : List Term) : (∀ t ∈ items, Written t) → Written (.list items)
  | get (target : Term) (member : String) : Written target → isIdentifier member →
    Written (.get target member)
  | method (target : Term) (name : String) (args : List Term) : Written target → isIdentifier name →
    (∀ t ∈ args, Written t) → Written (.method target name args)
  | function (name : String) (args : List Term) : isIdentifier name → (∀ t ∈ args, Written t) →
    Written (.function name args)
  | lambda (params : List String) (body : Term) : (∀ param ∈ params, isIdentifier param) →
    Written body → Written (.lambda params body)
  | construct (typeName : Option String) (fields : List (Option String × Term)) :
    (∀ name ∈ typeName, isIdentifier name) → (∀ f ∈ fields, ∀ name ∈ f.1, isIdentifier name) →
    (∀ f ∈ fields, Written f.2) → Written (.construct typeName fields)
  | unary (op : Op) (operand : Term) : op = .not ∨ op = .negate → Written operand →
    Written (.apply op [operand])
  | binary (op : Op) (left right : Term) : op ≠ .not → op ≠ .negate → Written left → Written right →
    Written (.apply op [left, right])
  | cond (test onTrue onFalse : Term) : Written test → Written onTrue → Written onFalse →
    Written (.cond test onTrue onFalse)

end ObjectQuery.Language
