import ObjectQuery.Tree.Basic

/-!
Writing operator trees. A `Query` stands for a sequence, so that operators are put after one another
in the order in which they apply; an operator that leaves a single value ends the chain and gives an
expression. Lambdas are written as functions of their parameters, which are new for each lambda.
-/

namespace ObjectQuery

namespace Lambda

variable {m : Type → Type} [Monad m] [MonadLiftT Mint m]

def unary (body : Expr → m Expr) : m (Lambda Expr) := do
  let p ← (Supply.freshParam : Mint Param)
  return ⟨[p], ← body (.param p)⟩

def binary (body : Expr → Expr → m Expr) : m (Lambda Expr) := do
  let p ← (Supply.freshParam : Mint Param)
  let q ← (Supply.freshParam : Mint Param)
  return ⟨[p, q], ← body (.param p) (.param q)⟩

end Lambda

structure Query where
  expr : Expr

namespace Query

def table (entity : String) : Query := ⟨.operator (.table entity)⟩

def filter (q : Query) (predicate : Lambda Expr) : Query :=
  ⟨.operator (.filter q.expr predicate)⟩

def map (q : Query) (selector : Lambda Expr) : Query :=
  ⟨.operator (.map q.expr selector)⟩

def flatMap (q : Query) (collection : Lambda Expr) (result : Option (Lambda Expr)) : Query :=
  ⟨.operator (.flatMap q.expr collection result)⟩

def join (q inner : Query) (outerKey innerKey result : Lambda Expr) : Query :=
  ⟨.operator (.join q.expr inner.expr outerKey innerKey result)⟩

def groupJoin (q inner : Query) (outerKey innerKey result : Lambda Expr) : Query :=
  ⟨.operator (.groupJoin q.expr inner.expr outerKey innerKey result)⟩

def orderBy (q : Query) (direction : Direction) (key : Lambda Expr) : Query :=
  ⟨.operator (.orderBy q.expr key direction)⟩

def thenBy (q : Query) (direction : Direction) (key : Lambda Expr) : Query :=
  ⟨.operator (.thenBy q.expr key direction)⟩

def groupBy (q : Query) (key : Lambda Expr) (element result : Option (Lambda Expr)) : Query :=
  ⟨.operator (.groupBy q.expr key element result)⟩

def distinct (q : Query) : Query := ⟨.operator (.distinct q.expr)⟩

def take (q : Query) (count : Int) : Query := ⟨.operator (.take q.expr (.int count))⟩

def skip (q : Query) (count : Int) : Query := ⟨.operator (.skip q.expr (.int count))⟩

def reverse (q : Query) : Query := ⟨.operator (.reverse q.expr)⟩

def cast (q : Query) (typeName : String) : Query := ⟨.operator (.cast q.expr typeName)⟩

def defaultIfEmpty (q : Query) : Query := ⟨.operator (.defaultIfEmpty q.expr)⟩

def combine (q : Query) (kind : SetRequest) (other : Query) : Query :=
  ⟨.operator (.setOp kind q.expr other.expr)⟩

def element (q : Query) (pick : Pick) (predicate : Option (Lambda Expr)) : Expr :=
  .operator (.element q.expr pick predicate)

def aggregate (q : Query) (kind : AggregateKind) (argument : Option (Lambda Expr)) : Expr :=
  .operator (.aggregate q.expr kind argument)

def any (q : Query) (predicate : Option (Lambda Expr)) : Expr :=
  .operator (.any q.expr predicate)

def all (q : Query) (predicate : Lambda Expr) : Expr := .operator (.all q.expr predicate)

def contains (q : Query) (item : Expr) : Expr := .operator (.contains q.expr item)

def insert (entity : String) (item : Expr) : Expr := .operator (.insert entity item)

def update (entity : String) (item : Expr) (check : Option (Lambda Expr)) : Expr :=
  .operator (.update entity item check)

def insertOrUpdate (entity : String) (item : Expr) (check : Option (Lambda Expr)) : Expr :=
  .operator (.insertOrUpdate entity item check)

def delete (entity : String) (item : Option Expr) (predicate : Option (Lambda Expr)) : Expr :=
  .operator (.delete entity item predicate)

def batch (items : List Expr) (operation : Lambda Expr) : Expr := .operator (.batch items operation)

end Query

end ObjectQuery
