import ObjectQuery.Bind.Basic

/-!
Commands that write. The mapping lays out a command over the members of an item; those members are
then looked up in the bound item, and a check on the written row is added to the filter.
-/

namespace ObjectQuery.Binding

def check (ctx : Context) (operator entity : String) (table : Table) (body : Body) :
    Binding Expr := do
  let e ← (ctx.mapping.resolve entity : Minting Mapping.Error Mapping.Entity)
  apply operator body (e.projector table)

def insert (ctx : Context) (entity : String) (item : Binding Expr) : Binding (Command Expr) := do
  let c ← ctx.mapping.insertCommand entity (← item)
  c.rebind

def update (ctx : Context) (entity : String) (item : Binding Expr) (condition : Option Body) :
    Binding (Command Expr) := do
  let c ← ctx.mapping.updateCommand entity (← item)
  match ← c.rebind, condition with
  | .update table filter assignments, some body =>
    return .update table (.both filter (← check ctx "Update" entity table body)) assignments
  | c, _ => return c

def insertOrUpdate (ctx : Context) (entity : String) (item : Binding Expr)
    (condition : Option Body) : Binding (Command Expr) := do
  let item ← item
  let p ← ctx.mapping.relation entity
  let keys ← (ctx.mapping.primaryKey entity : Minting Mapping.Error (List String))
  let terms := keys.map fun key => Expr.equals (p.projector.bindMember key) (item.bindMember key)
  let found := Select.plain (← Supply.freshAlias) [ColumnDecl.of "value" (.int 1)]
    (some (.select p.select)) (Expr.conjoin? terms)
  let onTrue ← update ctx entity item.rebind condition
  let onFalse ← insert ctx entity item.rebind
  return .conditional (.existsIn found) onTrue (some onFalse)

def delete (ctx : Context) (entity : String) (item : Option (Binding Expr))
    (predicate : Option Body) : Binding (Command Expr) := do
  let item ← item.mapM id
  let c ← ctx.mapping.deleteCommand entity item
  match ← c.rebind, predicate with
  | .delete table filter, some body =>
    let condition ← check ctx "Delete" entity table body
    return .delete table (some (match filter with
      | some filter => .both filter condition
      | none => condition))
  | c, _ => return c

/-- One command for all items; its parameter stays free and stands for each item in turn. -/
def batch (items : List (Binding Expr)) (operation : Body) : Binding (Command Expr) := do
  match operation.params with
  | [] => throw (.lambdaArity "Batch" 1)
  | item :: _ =>
    let items ← items.mapM id
    match ← operation.bind with
    | .command c => return .batch item items c
    | other => throw (.notACommand other)

end ObjectQuery.Binding
