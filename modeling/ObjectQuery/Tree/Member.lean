import ObjectQuery.Tree.Aliases
import ObjectQuery.Tree.Same

/-!
Member access on bound shapes. An access is pushed through constructions and wrappers until it meets
the member's expression; where no shape answers it, it stays as it is and can still turn out to be a
navigation along an association. A select, in turn, is made to compute an expression by one of its
columns.
-/

namespace ObjectQuery

def fieldNamed? (name : String) (fields : List (Field Expr)) : Option Expr :=
  (fields.find? (·.name == name)).map (·.expr)

def Expr.bindMember (name : String) : Expr → Expr
  | .entity entityName e =>
    match e.bindMember name with
    | .member target m =>
      if target == e && m == name then .member (.entity entityName e) name else .member target m
    | resolved => resolved
  | .construct typeName fields =>
    (fieldNamed? name fields).getD (.member (.construct typeName fields) name)
  | .projection ⟨s, projector, pick⟩ =>
    .projection ⟨s, projector.bindMember name, pick⟩
  | .outerJoined test e =>
    match e.bindMember name with
    | .column c => .column c
    | resolved => .outerJoined test resolved
  | .cond test onTrue onFalse =>
    .cond test (onTrue.bindMember name) (onFalse.bindMember name)
  | .grouping key group => if name == "Key" then key else .member (.grouping key group) name
  | .const .null => .const .null
  | e => .member e name

/-- The column that computes an expression, and the columns with it: one that is there already, or a
new one at the end, named after `base`. -/
def ColumnDecl.provide (columns : List (ColumnDecl Expr)) (base : String) (e : Expr) :
    ColumnDecl Expr × List (ColumnDecl Expr) :=
  match columns.find? (·.expr == e) with
  | some d => (d, columns)
  | none =>
    let d := ColumnDecl.of (Names.available (columns.map (·.name)) base) e
    (d, columns ++ [d])

def Expr.baseName (default : String) : Expr → String
  | .column c => c.name
  | _ => default

end ObjectQuery
