import ObjectQuery.Tree.Same

/-!
Equality of trees up to the names of their relations. Two trees are alike when they have the same
shape and every alias declared in one stands where its partner is declared in the other. An alias
that neither tree declares must be the same in both, unless a correspondence given from outside says
otherwise.

The comparison threads the correspondence found so far and has no answer as soon as two nodes
differ.
-/

namespace ObjectQuery

abbrev Partners := List (Alias × Alias)

namespace Partners

def agree (partners : Partners) (a b : Alias) : Bool :=
  match partners.lookup a with
  | some partner => partner == b
  | none => a == b

def declare (partners : Partners) (a b : Alias) : Partners :=
  (a, b) :: partners

end Partners

def keepIf (test : Bool) (partners : Partners) : Option Partners :=
  if test then some partners else none

mutual

def Expr.match? (partners : Partners) : Expr → Expr → Option Partners
  | .table a, .table b => keepIf (a.name == b.name) (partners.declare a.rel b.rel)
  | .column a, .column b => keepIf (a.name == b.name && partners.agree a.rel b.rel) partners
  | .select a, .select b => matchSelect? partners a b
  | .join k a b c, .join k' a' b' c' => do
    let partners ← keepIf (k == k') partners
    let partners ← a.match? partners a'
    let partners ← b.match? partners b'
    matchOption? partners c c'
  | .setOp i k a b, .setOp i' k' a' b' => do
    let partners ← keepIf (k == k') partners
    let partners ← matchSelect? partners a a'
    let partners ← matchSelect? partners b b'
    some (partners.declare i i')
  | .binary o a b, .binary o' a' b' => do
    let partners ← keepIf (o == o') partners
    let partners ← a.match? partners a'
    b.match? partners b'
  | .unary o a, .unary o' a' => do
    let partners ← keepIf (o == o') partners
    a.match? partners a'
  | .cond a b c, .cond a' b' c' => do
    let partners ← a.match? partners a'
    let partners ← b.match? partners b'
    c.match? partners c'
  | .member a m, .member a' m' => do
    let partners ← keepIf (m == m') partners
    a.match? partners a'
  | .call f as, .call f' as' => do
    let partners ← keepIf (f == f') partners
    matchExprs? partners as as'
  | .construct t fs, .construct t' fs' => do
    let partners ← keepIf (t == t') partners
    matchFields? partners fs fs'
  | .aggregate k a d, .aggregate k' a' d' => do
    let partners ← keepIf (k == k' && d == d') partners
    matchOption? partners a a'
  | .groupAggregate _ o a s, .groupAggregate _ o' a' s' => do
    let partners ← keepIf (partners.agree o o') partners
    let partners ← a.match? partners a'
    matchSelect? partners s s'
  | .scalar s, .scalar s' => matchSelect? partners s s'
  | .existsIn s, .existsIn s' => matchSelect? partners s s'
  | .inSelect a s, .inSelect a' s' => do
    let partners ← a.match? partners a'
    matchSelect? partners s s'
  | .inValues a vs, .inValues a' vs' => do
    let partners ← a.match? partners a'
    matchExprs? partners vs vs'
  | .isNull a, .isNull a' => a.match? partners a'
  | .between a b c, .between a' b' c' => do
    let partners ← a.match? partners a'
    let partners ← b.match? partners b'
    c.match? partners c'
  | .rowNumber os, .rowNumber os' => matchOrders? partners os os'
  | .projection p, .projection p' => matchProjection? partners p p'
  | .clientJoin p as bs, .clientJoin p' as' bs' => do
    let partners ← matchExprs? partners as as'
    let partners ← matchProjection? partners p p'
    matchExprs? partners bs bs'
  | .entity n a, .entity n' a' => do
    let partners ← keepIf (n == n') partners
    a.match? partners a'
  | .outerJoined a b, .outerJoined a' b' => do
    let partners ← a.match? partners a'
    b.match? partners b'
  | .grouping a b, .grouping a' b' => do
    let partners ← a.match? partners a'
    b.match? partners b'
  | a, b => keepIf (a == b) partners
termination_by structural a => a

def matchExprs? (partners : Partners) : List Expr → List Expr → Option Partners
  | [], [] => some partners
  | a :: as, b :: bs => do matchExprs? (← a.match? partners b) as bs
  | _, _ => none
termination_by structural as => as

def matchOption? (partners : Partners) : Option Expr → Option Expr → Option Partners
  | none, none => some partners
  | some a, some b => a.match? partners b
  | _, _ => none
termination_by structural a => a

def matchFields? (partners : Partners) : List (Field Expr) → List (Field Expr) → Option Partners
  | [], [] => some partners
  | ⟨n, a⟩ :: as, ⟨n', b⟩ :: bs => do
    let partners ← keepIf (n == n') partners
    matchFields? (← a.match? partners b) as bs
  | _, _ => none
termination_by structural as => as

def matchOrders? (partners : Partners) : List (Order Expr) → List (Order Expr) → Option Partners
  | [], [] => some partners
  | ⟨d, a⟩ :: as, ⟨d', b⟩ :: bs => do
    let partners ← keepIf (d == d') partners
    matchOrders? (← a.match? partners b) as bs
  | _, _ => none
termination_by structural as => as

def matchColumns? (partners : Partners) :
    List (ColumnDecl Expr) → List (ColumnDecl Expr) → Option Partners
  | [], [] => some partners
  | ⟨n, a, _⟩ :: as, ⟨n', b, _⟩ :: bs => do
    let partners ← keepIf (n == n') partners
    matchColumns? (← a.match? partners b) as bs
  | _, _ => none
termination_by structural as => as

/-- The source comes first: it declares the aliases that the other clauses see. -/
def matchSelect? (partners : Partners) : Select Expr → Select Expr → Option Partners
  | ⟨rel, columns, source, filter, orderBy, groupBy, distinct, skip, take, reversed⟩,
    ⟨rel', columns', source', filter', orderBy', groupBy', distinct', skip', take',
      reversed'⟩ => do
    let partners ← matchOption? partners source source'
    let partners ← matchOption? partners filter filter'
    let partners ← matchOrders? partners orderBy orderBy'
    let partners ← matchExprs? partners groupBy groupBy'
    let partners ← matchOption? partners skip skip'
    let partners ← matchOption? partners take take'
    let partners ← keepIf (distinct == distinct' && reversed == reversed') partners
    let partners ← matchColumns? partners columns columns'
    some (partners.declare rel rel')
termination_by structural s => s

def matchProjection? (partners : Partners) :
    Projection Expr → Projection Expr → Option Partners
  | ⟨s, e, k⟩, ⟨s', e', k'⟩ => do
    let partners ← keepIf (k == k') partners
    let partners ← matchSelect? partners s s'
    e.match? partners e'
termination_by structural p => p

end

/-- Equality up to declared aliases, starting from a correspondence of outer aliases. -/
def Expr.alikeUnder (partners : Partners) (a b : Expr) : Bool :=
  (a.match? partners b).isSome

def Expr.alike (a b : Expr) : Bool :=
  a.alikeUnder [] b

end ObjectQuery
