import ObjectQuery.Rewrite.Pass
import ObjectQuery.Tree.Aliases
import ObjectQuery.Tree.Traverse

/-!
Comparing entities and constructed objects. Two entities are equal when their keys are, two
constructed objects when their members are, and a value from the optional side of a join is null
when its join test is. An expanded comparison is looked at again, since a member can be an object
itself; the walk ends because the objects compared get shallower each time.
-/

namespace ObjectQuery

namespace Comparisons

def entity? : Expr → Option String
  | .entity name _ | .outerJoined _ (.entity name _) => some name
  | _ => none

def members? : Expr → Option (List String)
  | .construct _ fields => some (fields.map (·.name))
  | _ => none

def joinTest? : Expr → Expr → Option Expr
  | .outerJoined test _, .const .null | .const .null, .outerJoined test _ => some test
  | _, _ => none

def negateIf (negate : Bool) (e : Expr) : Expr := if negate then .negated e else e

def memberTerm (left right : Expr) (name : String) : Expr :=
  let l := left.bindMember name
  let r := right.bindMember name
  if r.isNullConst then .isNull l else if l.isNullConst then .isNull r else .equals l r

def byMembers (left right : Expr) (names : List String) : Expr :=
  (Expr.conjoin? (names.map (memberTerm left right))).getD (.const (.bool true))

def comparedMembers (m : Mapping) (left right : Expr) :
    Except RewriteError (Option (List String)) :=
  match (entity? left).or (entity? right) with
  | some entity =>
    match m.primaryKey entity with
    | .ok keys => .ok (some keys)
    | .error e => .error (.mapping .comparisons e)
  | none =>
    match members? left, members? right with
    | none, none => .ok none
    | some names, none | none, some names => .ok (some names)
    | some names, some names' =>
      if names.all names'.contains && names'.all names.contains then .ok (some names)
      else .error (.incomparable names names')

def expand (m : Mapping) (negate : Bool) (left right : Expr) :
    Except RewriteError (Option Expr) :=
  match joinTest? left right with
  | some test => .ok (some (negateIf negate (.isNull test)))
  | none => do
    return (← comparedMembers m left right).map fun names =>
      negateIf negate (byMembers left right names)

def depth : Expr → Nat
  | .entity _ e => depth e + 1
  | .outerJoined _ e => depth e
  | .grouping key _ => depth key
  | .construct _ fields => (fields.attach.map fun ⟨f, _⟩ => depth f.expr).foldr max 0 + 1
  | _ => 0
termination_by e => (Part.expr e).weight
decreasing_by
  · exact Part.weight_lt (by simp [Part.parts])
  · exact Part.weight_lt (by simp [Part.parts])
  · exact Part.weight_lt (by simp [Part.parts])
  · exact Part.weight_lt (Expr.field_mem ‹_›)

def ownRank : Part → Nat
  | .expr (.binary .eq left right) | .expr (.binary .notEq left right) =>
    depth left + depth right + 1
  | _ => 0

/-- A bound on the expansions that can still follow one another in a tree. -/
def rank (p : Part) : Nat :=
  (p.parts.attach.map fun ⟨q, _⟩ => rank q).foldr max 0 + ownRank p
termination_by p.weight
decreasing_by exact Part.weight_lt ‹_›

theorem le_foldr_max {n : Nat} {ns : List Nat} (h : n ∈ ns) : n ≤ ns.foldr max 0 := by
  induction ns with
  | nil => simp at h
  | cons k ks ih =>
    rcases List.mem_cons.mp h with rfl | h
    · exact Nat.le_max_left _ _
    · exact Nat.le_trans (ih h) (Nat.le_max_right _ _)

theorem foldr_max_le {n : Nat} {ns : List Nat} (h : ∀ k ∈ ns, k ≤ n) : ns.foldr max 0 ≤ n := by
  induction ns with
  | nil => simp
  | cons k ks ih =>
    simp only [List.foldr_cons]
    exact Nat.max_le.mpr ⟨h k (by simp), ih fun k hk => h k (by simp [hk])⟩

theorem rank_eq (p : Part) : rank p = (p.parts.map rank).foldr max 0 + ownRank p := by
  rw [rank, List.map_attach_eq_pmap]
  simp

theorem rank_le_of_mem {p q : Part} (h : q ∈ p.parts) : rank q ≤ rank p := by
  have := le_foldr_max (List.mem_map_of_mem (f := rank) h)
  rw [rank_eq p]
  omega

/-- Without a comparison at its root a tree ranks as its parts do. -/
theorem rank_le_of_parts {p : Part} {n : Nat} (own : ownRank p = 0)
    (h : ∀ q ∈ p.parts, rank q ≤ n) : rank p ≤ n := by
  rw [rank_eq, own, Nat.add_zero]
  refine foldr_max_le fun k hk => ?_
  obtain ⟨q, hq, rfl⟩ := List.mem_map.mp hk
  exact h q hq

theorem rank_member (target : Expr) (name : String) :
    rank (.expr (.member target name)) = rank (.expr target) := by
  rw [rank_eq]
  simp [Part.parts, ownRank]

theorem fieldNamed?_mem {name : String} {fields : List (Field Expr)} {e : Expr}
    (h : fieldNamed? name fields = some e) : ∃ f ∈ fields, f.expr = e := by
  obtain ⟨f, hf, rfl⟩ := Option.map_eq_some_iff.mp h
  exact ⟨f, List.mem_of_find?_eq_some hf, rfl⟩

theorem rank_bindMember_le (name : String) (e : Expr) :
    rank (.expr (e.bindMember name)) ≤ rank (.expr e) := by
  fun_induction Expr.bindMember name e with
  | case1 => exact Nat.le_of_eq (rank_member _ _)
  | case2 _ _ _ _ bound _ ih =>
    rw [bound] at ih
    exact Nat.le_trans ih (rank_le_of_mem (by simp [Part.parts]))
  | case3 _ _ _ ih => exact Nat.le_trans ih (rank_le_of_mem (by simp [Part.parts]))
  | case4 typeName fields =>
    cases h : fieldNamed? name fields with
    | none => exact Nat.le_of_eq (rank_member _ _)
    | some e =>
      obtain ⟨f, hf, rfl⟩ := fieldNamed?_mem h
      exact rank_le_of_mem (Expr.field_mem hf)
  | case5 s projector pick ih =>
    refine rank_le_of_parts rfl fun q hq => ?_
    simp only [Part.parts, List.mem_singleton] at hq
    subst hq
    have inner : ∀ e, e = projector → rank (.expr e) ≤ rank (.projection ⟨s, projector, pick⟩) :=
      fun e he => rank_le_of_mem (by simp [Part.parts, he])
    have outer : rank (.projection ⟨s, projector, pick⟩)
        ≤ rank (.expr (.projection ⟨s, projector, pick⟩)) :=
      rank_le_of_mem (by simp [Part.parts])
    refine Nat.le_trans (rank_le_of_parts rfl fun q hq => ?_) outer
    simp only [Part.parts, List.mem_cons, List.not_mem_nil, or_false] at hq
    rcases hq with rfl | rfl
    · exact rank_le_of_mem (by simp [Part.parts])
    · exact Nat.le_trans ih (inner _ rfl)
  | case6 _ _ _ bound ih =>
    rw [bound] at ih
    exact Nat.le_trans ih (rank_le_of_mem (by simp [Part.parts]))
  | case7 test e _ ih =>
    refine rank_le_of_parts rfl fun q hq => ?_
    simp only [Part.parts, List.mem_cons, List.not_mem_nil, or_false] at hq
    rcases hq with rfl | rfl
    · exact rank_le_of_mem (by simp [Part.parts])
    · exact Nat.le_trans ih (rank_le_of_mem (by simp [Part.parts]))
  | case8 test onTrue onFalse ihTrue ihFalse =>
    refine rank_le_of_parts rfl fun q hq => ?_
    simp only [Part.parts, List.mem_cons, List.not_mem_nil, or_false] at hq
    rcases hq with rfl | rfl | rfl
    · exact rank_le_of_mem (by simp [Part.parts])
    · exact Nat.le_trans ihTrue (rank_le_of_mem (by simp [Part.parts]))
    · exact Nat.le_trans ihFalse (rank_le_of_mem (by simp [Part.parts]))
  | case9 => exact rank_le_of_mem (by simp [Part.parts])
  | case10 => exact Nat.le_of_eq (rank_member _ _)
  | case11 => exact Nat.le_refl _
  | case12 => exact Nat.le_of_eq (rank_member _ _)

theorem depth_member (target : Expr) (name : String) : depth (.member target name) = 0 := by
  simp [depth]

theorem depth_outerJoined (test e : Expr) : depth (.outerJoined test e) = depth e := by
  rw [depth]

theorem depth_field_lt {typeName : Option String} {fields : List (Field Expr)} {f : Field Expr}
    (h : f ∈ fields) : depth f.expr < depth (.construct typeName fields) := by
  rw [depth]
  exact Nat.lt_succ_of_le
    (le_foldr_max (List.mem_map.mpr ⟨⟨f, h⟩, List.mem_attach _ _, rfl⟩))

theorem depth_bindMember_le (name : String) (e : Expr) :
    depth (e.bindMember name) ≤ depth e := by
  fun_induction Expr.bindMember name e with
  | case1 => simp [depth]
  | case2 => simp [depth]
  | case3 _ _ _ ih =>
    rw [depth]
    omega
  | case4 typeName fields =>
    cases h : fieldNamed? name fields with
    | none => simp [depth]
    | some e =>
      obtain ⟨f, hf, rfl⟩ := fieldNamed?_mem h
      exact Nat.le_of_lt (depth_field_lt hf)
  | case5 => simp [depth]
  | case6 => simp [depth]
  | case7 _ _ _ ih => simpa [depth] using ih
  | case8 => simp [depth]
  | case9 => simp [depth]
  | case10 => simp [depth]
  | case11 => simp [depth]
  | case12 => simp [depth]

def isObject (e : Expr) : Bool := (entity? e).isSome || (members? e).isSome

theorem depth_bindMember_entity_lt (name entityName : String) (e : Expr) :
    depth ((Expr.entity entityName e).bindMember name) < depth (.entity entityName e) := by
  have := depth_bindMember_le name e
  rw [Expr.bindMember, depth]
  split
  · split <;> simp [depth]
  · omega

theorem depth_bindMember_lt (name : String) {e : Expr} (h : isObject e) :
    depth (e.bindMember name) < depth e := by
  unfold isObject entity? members? at h
  split at h
  · exact depth_bindMember_entity_lt _ _ _
  · rename_i test entityName e
    have := depth_bindMember_entity_lt name entityName e
    rw [Expr.bindMember, depth_outerJoined]
    split
    · rw [show ∀ c, depth (.column c) = 0 by simp [depth]]
      omega
    · rwa [depth_outerJoined]
  · split at h
    · rename_i typeName fields _ _
      rw [Expr.bindMember]
      cases found : fieldNamed? name fields with
      | none =>
        rw [Option.getD_none, depth_member, depth]
        exact Nat.succ_pos _
      | some e =>
        obtain ⟨f, hf, rfl⟩ := fieldNamed?_mem found
        exact depth_field_lt hf
    · simp at h

def pairRank (left right : Expr) : Nat :=
  max (rank (.expr left)) (rank (.expr right)) + (depth left + depth right + 1)

theorem rank_equals (left right : Expr) :
    rank (.expr (.equals left right)) = pairRank left right := by
  rw [rank_eq]
  simp [Expr.equals, Part.parts, ownRank, pairRank]

theorem rank_comparison {op : BinaryOp} (h : op = .eq ∨ op = .notEq) (left right : Expr) :
    rank (.expr (.binary op left right)) = pairRank left right := by
  rcases h with rfl | rfl <;> (rw [rank_eq]; simp [Part.parts, ownRank, pairRank])

theorem rank_isNull (e : Expr) : rank (.expr (.isNull e)) = rank (.expr e) := by
  rw [rank_eq]
  simp [Part.parts, ownRank]

theorem rank_negateIf (negate : Bool) (e : Expr) :
    rank (.expr (negateIf negate e)) = rank (.expr e) := by
  cases negate
  · rfl
  · rw [rank_eq]
    simp [negateIf, Expr.negated, Part.parts, ownRank]

theorem rank_both (a b : Expr) :
    rank (.expr (.both a b)) = max (rank (.expr a)) (rank (.expr b)) := by
  rw [rank_eq]
  simp [Expr.both, Part.parts, ownRank]

theorem rank_memberTerm_lt {left right : Expr} (name : String)
    (h : isObject left ∨ isObject right) :
    rank (.expr (memberTerm left right name)) < pairRank left right := by
  have hl := rank_bindMember_le name left
  have hr := rank_bindMember_le name right
  have dl := depth_bindMember_le name left
  have dr := depth_bindMember_le name right
  simp only [memberTerm]
  split
  · rw [rank_isNull, pairRank]
    omega
  · split
    · rw [rank_isNull, pairRank]
      omega
    · rw [rank_equals, pairRank, pairRank]
      rcases h with h | h <;> have := depth_bindMember_lt name h <;> omega

theorem rank_foldl_both_lt {n : Nat} (es : List Expr) (e : Expr) (he : rank (.expr e) < n)
    (hes : ∀ t ∈ es, rank (.expr t) < n) : rank (.expr (es.foldl .both e)) < n := by
  induction es generalizing e with
  | nil => exact he
  | cons t ts ih =>
    refine ih (.both e t) ?_ fun u hu => hes u (by simp [hu])
    rw [rank_both]
    exact Nat.max_lt.mpr ⟨he, hes t (by simp)⟩

theorem rank_byMembers_lt {left right : Expr} (names : List String)
    (h : isObject left ∨ isObject right) :
    rank (.expr (byMembers left right names)) < pairRank left right := by
  cases names with
  | nil =>
    rw [show byMembers left right [] = .const (.bool true) from rfl, rank_eq, pairRank]
    simp +arith [Part.parts, ownRank]
  | cons name names =>
    refine rank_foldl_both_lt _ _ (rank_memberTerm_lt name h) fun t ht => ?_
    obtain ⟨name, _, rfl⟩ := List.mem_map.mp ht
    exact rank_memberTerm_lt name h

theorem isObject_of_comparedMembers {m : Mapping} {left right : Expr} {names : List String}
    (h : comparedMembers m left right = .ok (some names)) : isObject left ∨ isObject right := by
  unfold comparedMembers at h
  unfold isObject
  cases hl : entity? left <;> cases hr : entity? right <;> simp_all
  cases ml : members? left <;> cases mr : members? right <;> simp_all

theorem rank_joinTest_lt {left right test : Expr} (h : joinTest? left right = some test) :
    rank (.expr test) < pairRank left right := by
  have hl : ∀ e, rank (.expr test) ≤ rank (.expr (.outerJoined test e)) := fun e =>
    rank_le_of_mem (by simp [Part.parts])
  unfold joinTest? at h
  split at h
  · rename_i t e
    obtain rfl := Option.some.inj h
    have := hl e
    rw [pairRank]
    omega
  · rename_i t e
    obtain rfl := Option.some.inj h
    have := hl e
    rw [pairRank]
    omega
  · simp at h

/-- An expanded comparison ranks below the comparison. -/
theorem rank_expand_lt {m : Mapping} {negate : Bool} {left right e : Expr}
    (h : expand m negate left right = .ok (some e)) :
    rank (.expr e) < pairRank left right := by
  unfold expand at h
  split at h
  · rename_i test found
    obtain rfl := Option.some.inj (Except.ok.inj h)
    rw [rank_negateIf, rank_isNull]
    exact rank_joinTest_lt found
  · cases compared : comparedMembers m left right with
    | error _ => simp [compared, bind, Except.bind] at h
    | ok names? =>
      cases names? with
      | none => simp [compared, bind, Except.bind, pure, Except.pure] at h
      | some names =>
        simp only [compared, bind, Except.bind, pure, Except.pure, Option.map_some,
          Except.ok.injEq, Option.some.injEq] at h
        subst h
        rw [rank_negateIf]
        exact rank_byMembers_lt names (isObject_of_comparedMembers compared)

/-- Going on to a part keeps the rank and loses weight. -/
theorem lex_of_mem {p q : Part} (h : q ∈ p.parts) :
    Prod.Lex (· < ·) (· < ·) (rank q, q.weight) (rank p, p.weight) :=
  Prod.Lex.right' _ (rank_le_of_mem h) (Part.weight_lt h)

end Comparisons

open Comparisons in
mutual

def Expr.expandComparisons (m : Mapping) : Expr → Except RewriteError Expr
  | .binary op left right => do
    if _ : op = .eq ∨ op = .notEq then
      match _ : expand m (op == .notEq) left right with
      | .error e => throw e
      | .ok (some expanded) => expanded.expandComparisons m
      | .ok none =>
        return .binary op (← left.expandComparisons m) (← right.expandComparisons m)
    else
      return .binary op (← left.expandComparisons m) (← right.expandComparisons m)
  | e => e.traverse (fun c _ => c.expandComparisons m) (fun s _ => s.expandComparisons m)
      fun p _ => p.expandComparisons m
termination_by e => (rank (.expr e), (Part.expr e).weight)
decreasing_by
  · exact Prod.Lex.left _ _ (rank_comparison ‹_› left right ▸ rank_expand_lt ‹_›)
  · exact lex_of_mem (by simp [Part.parts])
  · exact lex_of_mem (by simp [Part.parts])
  · exact lex_of_mem (by simp [Part.parts])
  · exact lex_of_mem (by simp [Part.parts])
  all_goals exact lex_of_mem ‹_›

def Select.expandComparisons (m : Mapping) (s : Select Expr) :
    Except RewriteError (Select Expr) :=
  s.traverse fun e _ => e.expandComparisons m
termination_by (rank (.select s), (Part.select s).weight)
decreasing_by all_goals exact lex_of_mem ‹_›

def Projection.expandComparisons (m : Mapping) (p : Projection Expr) :
    Except RewriteError (Projection Expr) :=
  p.traverse (fun e _ => e.expandComparisons m) fun s _ => s.expandComparisons m
termination_by (rank (.projection p), (Part.projection p).weight)
decreasing_by all_goals exact lex_of_mem ‹_›

end

end ObjectQuery
