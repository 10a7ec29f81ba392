import ObjectQuery.Language.Lower
import ObjectQuery.Proofs.Keeping
import ObjectQuery.Tree.Operands
import Mathlib.Data.List.Nodup

/-!
Where the parameters of a query are bound. Reading a query mints the parameters of its lambdas in the
order in which they are written, and a variable becomes the parameter of the innermost lambda around it
that has one of this name, or else a table. A part of a tree is always seen together with the lambdas
around it.
-/

namespace ObjectQuery

structure Piece where
  frames : List (List Param)
  part : Part

def Piece.plain (e : Expr) : Piece := ⟨[], .expr e⟩

def Lambda.piece (l : Lambda Expr) : Piece := ⟨[l.params], .expr l.body⟩

def Operator.pieces : Operator Expr → List Piece
  | .table _ => []
  | .filter source predicate => [.plain source, predicate.piece]
  | .map source selector => [.plain source, selector.piece]
  | .flatMap source collection result =>
    .plain source :: collection.piece :: result.toList.map (·.piece)
  | .join outer inner outerKey innerKey result
  | .groupJoin outer inner outerKey innerKey result =>
    [.plain outer, .plain inner, outerKey.piece, innerKey.piece, result.piece]
  | .orderBy source key _ | .thenBy source key _ => [.plain source, key.piece]
  | .groupBy source key selector result =>
    .plain source :: key.piece :: (selector.toList ++ result.toList).map (·.piece)
  | .distinct source | .reverse source | .cast source _ | .defaultIfEmpty source => [.plain source]
  | .take source count | .skip source count => [.plain source, .plain count]
  | .element source _ predicate => .plain source :: predicate.toList.map (·.piece)
  | .aggregate source _ argument => .plain source :: argument.toList.map (·.piece)
  | .any source predicate => .plain source :: predicate.toList.map (·.piece)
  | .all source predicate => [.plain source, predicate.piece]
  | .contains source item => [.plain source, .plain item]
  | .setOp _ left right => [.plain left, .plain right]
  | .insert _ item => [.plain item]
  | .update _ item check | .insertOrUpdate _ item check => .plain item :: check.toList.map (·.piece)
  | .delete _ item predicate => item.toList.map .plain ++ predicate.toList.map (·.piece)
  | .batch items operation => items.map .plain ++ [operation.piece]

theorem Operator.parts_of_pieces (op : Operator Expr) :
    op.pieces.map (·.part) = op.exprs.map .expr := by
  cases op <;> simp [pieces, exprs, Piece.plain, Lambda.piece, Function.comp_def]

namespace Part

def pieces : Part → List Piece
  | .expr (.operator op) => op.pieces
  | .expr (.lambda l) => [l.piece]
  | p => p.parts.map fun q => ⟨[], q⟩

theorem weight_lt_of_mem_pieces {p : Part} {x : Piece} (h : x ∈ p.pieces) : x.part.weight < p.weight := by
  refine weight_lt_of_mem_operands ?_
  have mem : x.part ∈ p.pieces.map (·.part) := List.mem_map_of_mem h
  unfold pieces at mem
  split at mem
  · rwa [Operator.parts_of_pieces] at mem
  · exact mem
  · unfold operands
    split
    · simp [parts] at mem
    · simpa using mem

def binders (p : Part) : List Param :=
  p.pieces.attach.flatMap fun ⟨x, _⟩ => x.frames.flatten ++ x.part.binders
termination_by p.weight
decreasing_by exact weight_lt_of_mem_pieces ‹_›

end Part

structure Use where
  frames : List (List Param)
  node : Expr

namespace Part

def ownUses (frames : List (List Param)) : Part → List Use
  | .expr (.param p) => [⟨frames, .param p⟩]
  | .expr (.operator (.table name)) => [⟨frames, .operator (.table name)⟩]
  | _ => []

def uses (frames : List (List Param)) (p : Part) : List Use :=
  p.ownUses frames ++ p.pieces.attach.flatMap fun ⟨x, _⟩ => x.part.uses (x.frames ++ frames)
termination_by p.weight
decreasing_by exact weight_lt_of_mem_pieces ‹_›

end Part

namespace Piece

def binders (x : Piece) : List Param := x.frames.flatten ++ x.part.binders

def uses (frames : List (List Param)) (x : Piece) : List Use := x.part.uses (x.frames ++ frames)

end Piece

theorem Part.binders_eq (p : Part) : p.binders = p.pieces.flatMap Piece.binders := by
  rw [binders]
  simp
  rfl

theorem Part.uses_eq (frames : List (List Param)) (p : Part) :
    p.uses frames = p.ownUses frames ++ p.pieces.flatMap (Piece.uses frames) := by
  rw [uses]
  simp
  rfl

namespace Language

structure Mention where
  frames : List (List String)
  name : String

mutual

def Term.mentions (frames : List (List String)) : Term → List Mention
  | .literal _ => []
  | .variable name => [⟨frames, name⟩]
  | .list items => mentionsAll frames items
  | .get target _ => target.mentions frames
  | .method target name args =>
    target.mentions frames ++ if name = "Cast" then [] else mentionsAll frames args
  | .function _ args => mentionsAll frames args
  | .lambda params body => body.mentions (params :: frames)
  | .construct _ fields => mentionsFields frames fields
  | .apply _ operands => mentionsAll frames operands
  | .cond test onTrue onFalse =>
    test.mentions frames ++ (onTrue.mentions frames ++ onFalse.mentions frames)
termination_by structural t => t

def mentionsAll (frames : List (List String)) : List Term → List Mention
  | [] => []
  | t :: rest => t.mentions frames ++ mentionsAll frames rest
termination_by structural ts => ts

def mentionsFields (frames : List (List String)) : List (Option String × Term) → List Mention
  | [] => []
  | (_, t) :: rest => t.mentions frames ++ mentionsFields frames rest
termination_by structural fs => fs

end

inductive Resolves (name : String) : List (List String) → List (List Param) → Expr → Prop
  | bound {params : List String} {ids : List Param} {frames : List (List String)}
    {frames' : List (List Param)} {p : Param} : params.length = ids.length →
    (params.zip ids).lookup name = some p → Resolves name (params :: frames) (ids :: frames') (.param p)
  | outer {params : List String} {ids : List Param} {frames : List (List String)}
    {frames' : List (List Param)} {node : Expr} : params.length = ids.length → name ∉ params →
    Resolves name frames frames' node → Resolves name (params :: frames) (ids :: frames') node
  | table : Resolves name [] [] (.operator (.table name))

/-- A variable became a parameter or a table. -/
def Mention.Becomes (m : Mention) (u : Use) : Prop :=
  Resolves m.name m.frames u.frames u.node

inductive InSight : List (List String) → List (List Param) → Names → Prop
  | nil : InSight [] [] []
  | cons {params : List String} {ids : List Param} {frames : List (List String)}
    {frames' : List (List Param)} {names : Names} : params.length = ids.length →
    InSight frames frames' names →
    InSight (params :: frames) (ids :: frames') (params.zip ids ++ names)

theorem not_mem_of_lookup_zip {name : String} {params : List String} {ids : List Param}
    (lengths : params.length = ids.length) (h : (params.zip ids).lookup name = none) : name ∉ params := by
  intro mem
  have zipped : (params.zip ids).map (·.1) = params := List.map_fst_zip (Nat.le_of_eq lengths)
  rw [← zipped] at mem
  obtain ⟨pair, hpair, rfl⟩ := List.mem_map.mp mem
  exact absurd rfl (bne_iff_ne.mp (List.lookup_eq_none_iff.mp h pair hpair))

def Names.node (names : Names) (name : String) : Expr :=
  match names.lookup name with
  | some p => .param p
  | none => .operator (.table name)

theorem lower_variable (names : Names) (name : String) :
    lower names (.variable name) = pure (names.node name) := by
  rw [lower, Names.node]
  cases names.lookup name <;> rfl

theorem InSight.resolves {frames : List (List String)} {frames' : List (List Param)} {names : Names}
    (h : InSight frames frames' names) (name : String) :
    Resolves name frames frames' (names.node name) := by
  induction h with
  | nil => exact .table
  | @cons params ids frames frames' names lengths _ ih =>
    rw [Names.node, List.lookup_append]
    cases found : (params.zip ids).lookup name with
    | some p => exact .bound lengths found
    | none => exact .outer lengths (not_mem_of_lookup_zip lengths found) ih

structure Made (frames : List (List Param)) (s s' : Supply) (ms : List Mention) (xs : List Piece) :
    Prop where
  le : s.next ≤ s'.next
  binders : xs.flatMap Piece.binders = (List.range' s.next (s'.next - s.next)).map Param.mk
  uses : List.Forall₂ Mention.Becomes ms (xs.flatMap (Piece.uses frames))

namespace Made

variable {frames : List (List Param)} {s s' s'' : Supply} {ms ms' : List Mention} {xs xs' : List Piece}
  {e : Expr}

theorem nil (s : Supply) : Made frames s s [] [] :=
  ⟨Nat.le_refl _, by simp, .nil⟩

theorem append (h : Made frames s s' ms xs) (h' : Made frames s' s'' ms' xs') :
    Made frames s s'' (ms ++ ms') (xs ++ xs') where
  le := Nat.le_trans h.le h'.le
  binders := by
    obtain ⟨k, hk⟩ := Nat.exists_eq_add_of_le h.le
    obtain ⟨k', hk'⟩ := Nat.exists_eq_add_of_le h'.le
    have total : s''.next - s.next = k + k' := by omega
    have first : s'.next - s.next = k := by omega
    have second : s''.next - s'.next = k' := by omega
    rw [List.flatMap_append, h.binders, h'.binders, total, first, second, hk, ← List.map_append,
      List.range'_append_1]
  uses := by
    rw [List.flatMap_append]
    exact List.rel_append h.uses h'.uses

/-- It does not matter which node the pieces are parts of. -/
theorem node (own : (Part.expr e).ownUses frames = []) :
    Made frames s s' ms [.plain e] ↔ Made frames s s' ms (Part.expr e).pieces := by
  have binders : [Piece.plain e].flatMap Piece.binders = (Part.expr e).pieces.flatMap Piece.binders := by
    simp [Piece.binders, Piece.plain, Part.binders_eq (.expr e)]
  have uses : [Piece.plain e].flatMap (Piece.uses frames)
      = (Part.expr e).pieces.flatMap (Piece.uses frames) := by
    simp [Piece.uses, Piece.plain, Part.uses_eq frames (.expr e), own]
  exact ⟨fun h => ⟨h.le, binders ▸ h.binders, uses ▸ h.uses⟩,
    fun h => ⟨h.le, binders ▸ h.binders, uses ▸ h.uses⟩⟩

theorem operator {op : Operator Expr} (own : (Part.expr (.operator op)).ownUses frames = [])
    (h : Made frames s s' ms op.pieces) : Made frames s s' ms [.plain (.operator op)] :=
  (node own).mpr h

/-- A constant is made of nothing, and a text that is a constant has no variables. -/
theorem const_iff {v : Value} : Made frames s s' ms [.plain (.const v)] ↔ Made frames s s' ms [] :=
  node rfl

end Made

/-- Lowerings that succeed one after the other. -/
theorem bind_run {α β : Type} {m : Lower α} {f : α → Lower β} {s s' : Supply} {b : β}
    (h : (m >>= f).run s = .ok (b, s')) : ∃ a s₁, m.run s = .ok (a, s₁) ∧ (f a).run s₁ = .ok (b, s') :=
  (Outcomes.ofStateOk Supply Error).bind h

theorem pure_run {α : Type} {a b : α} {s s' : Supply} (h : (pure a : Lower α).run s = .ok (b, s')) :
    b = a ∧ s' = s :=
  (Outcomes.ofStateOk Supply Error).pure h

structure Argument.Sound (frames : List (List String)) (frames' : List (List Param)) (t : Term)
    (a : Argument) : Prop where
  term : a.term = t
  asExpr : ∀ {s s' : Supply} {e : Expr}, a.asExpr.run s = .ok (e, s') →
    Made frames' s s' (t.mentions frames) [.plain e]
  asLambda : ∀ {s s' : Supply} {operator : String} {params : Nat} {l : Lambda Expr},
    (a.asLambda operator params).run s = .ok (l, s') → Made frames' s s' (t.mentions frames) [l.piece]

section Methods

variable {frames : List (List String)} {frames' : List (List Param)} {ts : List Term}
  {args : List Argument} {s s' : Supply} {name : String}

theorem mentionsAll_one (t : Term) : mentionsAll frames [t] = t.mentions frames := by
  rw [mentionsAll, mentionsAll, List.append_nil]

theorem run_oneArgument {a : Argument} (sound : List.Forall₂ (Argument.Sound frames frames') ts args)
    (h : (oneArgument name args).run s = .ok (a, s')) :
    ∃ t, ts = [t] ∧ s' = s ∧ a.Sound frames frames' t := by
  unfold oneArgument at h
  split at h
  · obtain ⟨rfl, rfl⟩ := pure_run h
    obtain _ | ⟨here, rest⟩ := sound
    cases rest
    exact ⟨_, rfl, rfl, here⟩
  · cases h

/-- The only argument, as a lambda. -/
theorem run_oneLambda {α : Type} {params : Nat} {f : Lambda Expr → Lower α} {b : α}
    (sound : List.Forall₂ (Argument.Sound frames frames') ts args)
    (h : (do f (← (← oneArgument name args).asLambda name params) : Lower α).run s = .ok (b, s')) :
    ∃ l s₁, Made frames' s s₁ (mentionsAll frames ts) [l.piece] ∧ (f l).run s₁ = .ok (b, s') := by
  obtain ⟨a, s₁, ha, rest⟩ := bind_run h
  obtain ⟨t, rfl, rfl, here⟩ := run_oneArgument sound ha
  obtain ⟨l, s₂, hl, rest⟩ := bind_run rest
  exact ⟨l, s₂, mentionsAll_one t ▸ here.asLambda hl, rest⟩

/-- The only argument, as an expression. -/
theorem run_oneExpr {α : Type} {f : Expr → Lower α} {b : α}
    (sound : List.Forall₂ (Argument.Sound frames frames') ts args)
    (h : (do f (← (← oneArgument name args).asExpr) : Lower α).run s = .ok (b, s')) :
    ∃ e s₁, Made frames' s s₁ (mentionsAll frames ts) [.plain e] ∧ (f e).run s₁ = .ok (b, s') := by
  obtain ⟨a, s₁, ha, rest⟩ := bind_run h
  obtain ⟨t, rfl, rfl, here⟩ := run_oneArgument sound ha
  obtain ⟨e, s₂, he, rest⟩ := bind_run rest
  exact ⟨e, s₂, mentionsAll_one t ▸ here.asExpr he, rest⟩

theorem run_optionalLambda {l : Option (Lambda Expr)}
    (sound : List.Forall₂ (Argument.Sound frames frames') ts args)
    (h : (optionalLambda name args).run s = .ok (l, s')) :
    Made frames' s s' (mentionsAll frames ts) (l.toList.map Lambda.piece) := by
  unfold optionalLambda at h
  split at h
  · obtain ⟨rfl, rfl⟩ := pure_run h
    cases sound
    exact .nil _
  · obtain ⟨l, s₁, hl, h⟩ := bind_run h
    obtain ⟨rfl, rfl⟩ := pure_run h
    obtain _ | ⟨here, rest⟩ := sound
    cases rest
    exact (here.asLambda hl).append (.nil _)
  · cases h

theorem run_noArguments {expected : String} {u : Unit}
    (h : (checkArity name args 0 0 expected).run s = .ok (u, s')) : args = [] ∧ s' = s := by
  unfold checkArity at h
  split at h
  · cases h
  · rename_i few
    obtain ⟨-, rfl⟩ := pure_run h
    exact ⟨by simpa using few, rfl⟩

theorem run_asExprs {es : List Expr} (sound : List.Forall₂ (Argument.Sound frames frames') ts args)
    (h : (args.mapM fun a => a.asExpr : Lower (List Expr)).run s = .ok (es, s')) :
    Made frames' s s' (mentionsAll frames ts) (es.map Piece.plain) := by
  induction sound generalizing s es with
  | nil =>
    obtain ⟨rfl, rfl⟩ := pure_run h
    exact .nil _
  | cons here _ ih =>
    rw [List.mapM_cons] at h
    obtain ⟨e, s₁, he, h⟩ := bind_run h
    obtain ⟨es, s₂, hes, h⟩ := bind_run h
    obtain ⟨rfl, rfl⟩ := pure_run h
    exact (here.asExpr he).append (ih hes)

variable {source e : Expr} {ms : List Mention} {s₀ : Supply}

theorem made_callMethod (made : Made frames' s₀ s ms [.plain source])
    (sound : List.Forall₂ (Argument.Sound frames frames') ts args)
    (h : (callMethod source name args).run s = .ok (e, s')) :
    Made frames' s₀ s' (ms ++ mentionsAll frames ts) [.plain e] := by
  obtain ⟨es, s₁, hes, h⟩ := bind_run h
  obtain ⟨rfl, rfl⟩ := pure_run h
  have pieces : (Part.expr (.call name (source :: es))).pieces = (source :: es).map Piece.plain := by
    simp [Part.pieces, Part.parts, Piece.plain]
  exact (Made.node rfl).mpr (pieces ▸ made.append (run_asExprs sound hes))

/-- The sequence that another one is joined with, the two keys and the result. -/
theorem made_joined {a b c d : Argument} {inner : Expr} {outerKey innerKey result : Lambda Expr}
    {s₁ s₂ s₃ s₄ : Supply} {n n' n'' : Nat}
    (sound : List.Forall₂ (Argument.Sound frames frames') ts [a, b, c, d])
    (hinner : a.asExpr.run s = .ok (inner, s₁)) (houter : (b.asLambda name n).run s₁ = .ok (outerKey, s₂))
    (hinnerKey : (c.asLambda name n').run s₂ = .ok (innerKey, s₃))
    (hresult : (d.asLambda name n'').run s₃ = .ok (result, s₄)) :
    Made frames' s s₄ (mentionsAll frames ts)
      [.plain inner, outerKey.piece, innerKey.piece, result.piece] := by
  obtain _ | ⟨first, _ | ⟨second, _ | ⟨third, _ | ⟨fourth, rest⟩⟩⟩⟩ := sound
  cases rest
  exact (first.asExpr hinner).append ((second.asLambda houter).append
    ((third.asLambda hinnerKey).append ((fourth.asLambda hresult).append (.nil _))))

/-- What an operator is made of. -/
theorem made_otherMethod (made : Made frames' s₀ s ms [.plain source])
    (sound : List.Forall₂ (Argument.Sound frames frames') ts args)
    (h : (otherMethod source name args).run s = .ok (e, s')) :
    Made frames' s₀ s' (ms ++ if name = "Cast" then [] else mentionsAll frames ts) [.plain e] := by
  unfold otherMethod at h
  split at h
  -- One case for each name, in the order of the definition.
  · obtain ⟨l, s₁, hl, h⟩ := run_oneLambda sound h
    obtain ⟨rfl, rfl⟩ := pure_run h
    exact .operator rfl (made.append hl)
  · obtain ⟨l, s₁, hl, h⟩ := run_oneLambda sound h
    obtain ⟨rfl, rfl⟩ := pure_run h
    exact .operator rfl (made.append hl)
  · split at h
    · obtain ⟨l, s₁, hl, h⟩ := bind_run h
      obtain ⟨rfl, rfl⟩ := pure_run h
      obtain _ | ⟨first, rest⟩ := sound
      cases rest
      exact .operator rfl (made.append ((first.asLambda hl).append (.nil _)))
    · obtain ⟨l, s₁, hl, h⟩ := bind_run h
      obtain ⟨l', s₂, hl', h⟩ := bind_run h
      obtain ⟨rfl, rfl⟩ := pure_run h
      obtain _ | ⟨first, _ | ⟨second, rest⟩⟩ := sound
      cases rest
      exact .operator rfl (made.append ((first.asLambda hl).append ((second.asLambda hl').append (.nil _))))
    · cases h
  · split at h
    · obtain ⟨inner, s₁, hinner, h⟩ := bind_run h
      obtain ⟨outerKey, s₂, houter, h⟩ := bind_run h
      obtain ⟨innerKey, s₃, hinnerKey, h⟩ := bind_run h
      obtain ⟨result, s₄, hresult, h⟩ := bind_run h
      obtain ⟨rfl, rfl⟩ := pure_run h
      exact .operator rfl (made.append (made_joined sound hinner houter hinnerKey hresult))
    · cases h
  · split at h
    · obtain ⟨inner, s₁, hinner, h⟩ := bind_run h
      obtain ⟨outerKey, s₂, houter, h⟩ := bind_run h
      obtain ⟨innerKey, s₃, hinnerKey, h⟩ := bind_run h
      obtain ⟨result, s₄, hresult, h⟩ := bind_run h
      obtain ⟨rfl, rfl⟩ := pure_run h
      exact .operator rfl (made.append (made_joined sound hinner houter hinnerKey hresult))
    · cases h
  · split at h
    · obtain ⟨key, s₁, hkey, h⟩ := bind_run h
      obtain ⟨rfl, rfl⟩ := pure_run h
      obtain _ | ⟨first, rest⟩ := sound
      cases rest
      exact .operator rfl (made.append ((first.asLambda hkey).append (.nil _)))
    · obtain ⟨key, s₁, hkey, h⟩ := bind_run h
      obtain _ | ⟨first, _ | ⟨second, rest⟩⟩ := sound
      cases rest
      split at h
      · obtain ⟨l, s₂, hl, h⟩ := bind_run h
        obtain ⟨rfl, rfl⟩ := pure_run h
        exact .operator rfl
          (made.append ((first.asLambda hkey).append ((second.asLambda hl).append (.nil _))))
      · obtain ⟨l, s₂, hl, h⟩ := bind_run h
        obtain ⟨rfl, rfl⟩ := pure_run h
        exact .operator rfl
          (made.append ((first.asLambda hkey).append ((second.asLambda hl).append (.nil _))))
    · cases h
  · obtain ⟨_, s₁, hnone, h⟩ := bind_run h
    obtain ⟨rfl, rfl⟩ := pure_run h
    obtain ⟨rfl, rfl⟩ := run_noArguments hnone
    cases sound
    exact .operator rfl (made.append (.nil _))
  · obtain ⟨_, s₁, hnone, h⟩ := bind_run h
    obtain ⟨rfl, rfl⟩ := pure_run h
    obtain ⟨rfl, rfl⟩ := run_noArguments hnone
    cases sound
    exact .operator rfl (made.append (.nil _))
  · obtain ⟨_, s₁, hnone, h⟩ := bind_run h
    obtain ⟨rfl, rfl⟩ := pure_run h
    obtain ⟨rfl, rfl⟩ := run_noArguments hnone
    cases sound
    exact .operator rfl (made.append (.nil _))
  · obtain ⟨count, s₁, hcount, h⟩ := run_oneExpr sound h
    obtain ⟨rfl, rfl⟩ := pure_run h
    exact .operator rfl (made.append hcount)
  · obtain ⟨count, s₁, hcount, h⟩ := run_oneExpr sound h
    obtain ⟨rfl, rfl⟩ := pure_run h
    exact .operator rfl (made.append hcount)
  · obtain ⟨a, s₁, ha, rest⟩ := bind_run h
    obtain ⟨t, -, rfl, -⟩ := run_oneArgument sound ha
    split at rest
    · obtain ⟨rfl, rfl⟩ := pure_run rest
      exact .operator rfl (made.append (.nil _))
    · obtain ⟨rfl, rfl⟩ := pure_run rest
      exact .operator rfl (made.append (.nil _))
    · cases rest
  · obtain ⟨l, s₁, hl, h⟩ := bind_run h
    obtain ⟨rfl, rfl⟩ := pure_run h
    exact .operator rfl (made.append (run_optionalLambda sound hl))
  · obtain ⟨l, s₁, hl, h⟩ := run_oneLambda sound h
    obtain ⟨rfl, rfl⟩ := pure_run h
    exact .operator rfl (made.append hl)
  · split at h
    · obtain ⟨item, s₁, hitem, h⟩ := run_oneExpr sound h
      obtain ⟨rfl, rfl⟩ := pure_run h
      exact .operator rfl (made.append hitem)
    · exact made_callMethod made sound h
  · rw [if_neg (show ¬ name = "Cast" from ‹name = "Cast" → False›)]
    exact made_callMethod made sound h

/-- A method call is made of its receiver and then of its arguments. -/
theorem made_method (made : Made frames' s₀ s ms [.plain source])
    (sound : List.Forall₂ (Argument.Sound frames frames') ts args)
    (h : (method source name args).run s = .ok (e, s')) :
    Made frames' s₀ s' (ms ++ if name = "Cast" then [] else mentionsAll frames ts) [.plain e] := by
  unfold method at h
  split at h
  · rename_i ordering
    have other : name ≠ "Cast" := by
      rintro rfl
      simp [orderingOf?] at ordering
    obtain ⟨l, s₁, hl, h⟩ := run_oneLambda sound h
    rw [if_neg other]
    split at h
    · obtain ⟨rfl, rfl⟩ := pure_run h
      exact .operator rfl (made.append hl)
    · obtain ⟨rfl, rfl⟩ := pure_run h
      exact .operator rfl (made.append hl)
  split at h
  · rename_i pick
    have other : name ≠ "Cast" := by
      rintro rfl
      simp [Pick.ofName?] at pick
    obtain ⟨l, s₁, hl, h⟩ := bind_run h
    obtain ⟨rfl, rfl⟩ := pure_run h
    rw [if_neg other]
    exact .operator rfl (made.append (run_optionalLambda sound hl))
  split at h
  · rename_i kind
    have other : name ≠ "Cast" := by
      rintro rfl
      simp [AggregateKind.ofName?] at kind
    obtain ⟨l, s₁, hl, h⟩ := bind_run h
    obtain ⟨rfl, rfl⟩ := pure_run h
    rw [if_neg other]
    exact .operator rfl (made.append (run_optionalLambda sound hl))
  split at h
  · rename_i request
    have other : name ≠ "Cast" := by
      rintro rfl
      simp [setRequestOf?] at request
    split at h
    · obtain ⟨item, s₁, hitem, h⟩ := run_oneExpr sound h
      obtain ⟨rfl, rfl⟩ := pure_run h
      rw [if_neg other]
      exact .operator rfl (made.append hitem)
    · exact made_otherMethod made sound h
  · exact made_otherMethod made sound h

end Methods

theorem run_freshParams (params : List String) (s : Supply) :
    (params.mapM fun _ => Supply.freshParam : Mint (List Param)).run s
      = ((List.range' s.next params.length).map Param.mk, ⟨s.next + params.length⟩) := by
  induction params generalizing s with
  | nil => rfl
  | cons _ rest ih =>
    rw [List.mapM_cons]
    change (_ :: ((rest.mapM fun _ => Supply.freshParam : Mint (List Param)).run ⟨s.next + 1⟩).1,
      ((rest.mapM fun _ => Supply.freshParam : Mint (List Param)).run ⟨s.next + 1⟩).2) = _
    rw [ih, List.length_cons, List.range'_succ, List.map_cons, Nat.add_assoc, Nat.add_comm 1]

section Terms

variable {frames : List (List String)} {frames' : List (List Param)} {names : Names}

theorem InSight.made_node (sight : InSight frames frames' names) (name : String) (s : Supply) :
    Made frames' s s [⟨frames, name⟩] [.plain (names.node name)] := by
  have binders : [Piece.plain (names.node name)].flatMap Piece.binders = [] := by
    unfold Names.node
    split <;> simp [Piece.binders, Piece.plain, Part.binders_eq, Part.pieces, Part.parts, Operator.pieces]
  have uses : [Piece.plain (names.node name)].flatMap (Piece.uses frames')
      = [⟨frames', names.node name⟩] := by
    unfold Names.node
    split <;> simp [Piece.uses, Piece.plain, Part.uses_eq, Part.ownUses, Part.pieces, Part.parts,
      Operator.pieces]
  exact ⟨Nat.le_refl _, by simp [binders], uses ▸ .cons (sight.resolves name) .nil⟩

/-- A lambda is made of its new parameters and of its body. -/
theorem Made.lambda {s s' : Supply} {k : Nat} {ms : List Mention} {body : Expr}
    (h : Made ((List.range' s.next k).map Param.mk :: frames') ⟨s.next + k⟩ s' ms [.plain body]) :
    Made frames' s s' ms [Lambda.piece ⟨(List.range' s.next k).map Param.mk, body⟩] where
  le := Nat.le_trans (Nat.le_add_right _ _) h.le
  binders := by
    obtain ⟨k', hk'⟩ := Nat.exists_eq_add_of_le h.le
    have hk' : s'.next = s.next + k + k' := hk'
    have total : s'.next - s.next = k + k' := by omega
    have own : s'.next - (s.next + k) = k' := by omega
    have binders := h.binders
    simp only [Piece.plain, Piece.binders, List.flatMap_cons, List.flatMap_nil, List.append_nil,
      List.flatten_nil, List.nil_append, own] at binders
    simp only [Lambda.piece, Piece.binders, List.flatMap_cons, List.flatMap_nil, List.append_nil,
      List.flatten_cons, List.flatten_nil, binders, total]
    rw [← List.map_append, List.range'_append_1]
  uses := h.uses

theorem pieces_call (function : String) (args : List Expr) :
    (Part.expr (.call function args)).pieces = args.map Piece.plain := by
  simp [Part.pieces, Part.parts, Piece.plain]

theorem pieces_construct (typeName : Option String) (fields : List (Field Expr)) :
    (Part.expr (.construct typeName fields)).pieces = fields.map fun f => .plain f.expr := by
  simp [Part.pieces, Part.parts, Piece.plain]

mutual

theorem made_lower {frames : List (List String)} {frames' : List (List Param)} {names : Names}
    (sight : InSight frames frames' names) : (t : Term) → {s s' : Supply} → {e : Expr} →
    (lower names t).run s = .ok (e, s') → Made frames' s s' (t.mentions frames) [.plain e]
  | .literal l, s, s', e, h => by
    obtain ⟨rfl, rfl⟩ := pure_run h
    exact Made.const_iff.mpr (.nil _)
  | .variable name, s, s', e, h => by
    rw [lower_variable] at h
    obtain ⟨rfl, rfl⟩ := pure_run h
    exact sight.made_node name _
  | .list items, s, s', e, h => by
    rw [lower] at h
    obtain ⟨vs, s₁, hvs, h⟩ := bind_run h
    obtain ⟨rfl, rfl⟩ := pure_run h
    exact Made.const_iff.mpr (made_constants sight items hvs)
  | .get target member, s, s', e, h => by
    rw [lower] at h
    obtain ⟨target', s₁, htarget, h⟩ := bind_run h
    obtain ⟨rfl, rfl⟩ := pure_run h
    exact (Made.node rfl).mpr (made_lower sight target htarget)
  | .method target name args, s, s', e, h => by
    rw [lower] at h
    obtain ⟨source, s₁, htarget, h⟩ := bind_run h
    exact made_method (made_lower sight target htarget) (sound_arguments sight args) h
  | .function name args, s, s', e, h => by
    rw [lower] at h
    split at h
    · obtain ⟨es, s₁, hes, h⟩ := bind_run h
      obtain ⟨rfl, rfl⟩ := pure_run h
      exact (Made.node rfl).mpr (pieces_call name es ▸ made_all sight args hes)
    · cases h
  | .lambda params body, s, s', e, h => by cases h
  | .construct typeName fields, s, s', e, h => by
    rw [lower] at h
    obtain ⟨fields', s₁, hfields, h⟩ := bind_run h
    obtain ⟨rfl, rfl⟩ := pure_run h
    exact (Made.node rfl).mpr (pieces_construct typeName fields' ▸ made_fields sight fields hfields)
  | .apply op operands, s, s', e, h => by
    rw [lower] at h
    exact made_apply sight op operands h
  | .cond test onTrue onFalse, s, s', e, h => by
    rw [lower] at h
    obtain ⟨test', s₁, htest, h⟩ := bind_run h
    obtain ⟨onTrue', s₂, htrue, h⟩ := bind_run h
    obtain ⟨onFalse', s₃, hfalse, h⟩ := bind_run h
    obtain ⟨rfl, rfl⟩ := pure_run h
    exact (Made.node rfl).mpr ((made_lower sight test htest).append
      ((made_lower sight onTrue htrue).append (made_lower sight onFalse hfalse)))
termination_by structural t => t

theorem made_all {frames : List (List String)} {frames' : List (List Param)} {names : Names}
    (sight : InSight frames frames' names) : (ts : List Term) → {s s' : Supply} →
    {es : List Expr} → (lowerAll names ts).run s = .ok (es, s') →
    Made frames' s s' (mentionsAll frames ts) (es.map Piece.plain)
  | [], s, s', es, h => by
    obtain ⟨rfl, rfl⟩ := pure_run h
    exact .nil _
  | t :: rest, s, s', es, h => by
    rw [lowerAll] at h
    obtain ⟨e, s₁, he, h⟩ := bind_run h
    obtain ⟨es, s₂, hes, h⟩ := bind_run h
    obtain ⟨rfl, rfl⟩ := pure_run h
    exact (made_lower sight t he).append (made_all sight rest hes)
termination_by structural ts => ts

theorem made_constants {frames : List (List String)} {frames' : List (List Param)} {names : Names}
    (sight : InSight frames frames' names) : (ts : List Term) → {s s' : Supply} →
    {vs : List Value} → (lowerConstants names ts).run s = .ok (vs, s') →
    Made frames' s s' (mentionsAll frames ts) []
  | [], s, s', vs, h => by
    obtain ⟨rfl, rfl⟩ := pure_run h
    exact .nil _
  | t :: rest, s, s', vs, h => by
    rw [lowerConstants] at h
    obtain ⟨e, s₁, he, h₁⟩ := bind_run h
    obtain ⟨v, s₂, hv, h₂⟩ := bind_run h₁
    obtain ⟨vs, s₃, hvs, h₃⟩ := bind_run h₂
    unfold constant at hv
    split at hv
    · obtain ⟨rfl, rfl⟩ := pure_run hv
      obtain ⟨rfl, rfl⟩ := pure_run h₃
      exact (Made.const_iff.mp (made_lower sight t he)).append (made_constants sight rest hvs)
    · cases hv
termination_by structural ts => ts

theorem made_fields {frames : List (List String)} {frames' : List (List Param)} {names : Names}
    (sight : InSight frames frames' names) : (fs : List (Option String × Term)) →
    {s s' : Supply} → {fields : List (Field Expr)} → (lowerFields names fs).run s = .ok (fields, s') →
    Made frames' s s' (mentionsFields frames fs) (fields.map fun f => .plain f.expr)
  | [], s, s', fields, h => by
    obtain ⟨rfl, rfl⟩ := pure_run h
    exact .nil _
  | (given, t) :: rest, s, s', fields, h => by
    rw [lowerFields] at h
    obtain ⟨name, s₁, hname, h⟩ := bind_run h
    obtain ⟨e, s₂, he, h⟩ := bind_run h
    obtain ⟨fields, s₃, hfields, h⟩ := bind_run h
    obtain ⟨rfl, rfl⟩ := pure_run h
    obtain rfl : s₁ = s := by
      unfold fieldName at hname
      split at hname <;> first | exact (pure_run hname).2 | cases hname
    exact (made_lower sight t he).append (made_fields sight rest hfields)
termination_by structural fs => fs

theorem made_apply {frames : List (List String)} {frames' : List (List Param)} {names : Names}
    (sight : InSight frames frames' names) (op : Op) : (ts : List Term) →
    {s s' : Supply} → {e : Expr} → (lowerApply names op ts).run s = .ok (e, s') →
    Made frames' s s' (mentionsAll frames ts) [.plain e]
  | [], s, s', e, h => by cases h
  | [a], s, s', e, h => by
    rw [mentionsAll_one]
    unfold lowerApply at h
    split at h
    · obtain ⟨a', s₁, ha, h⟩ := bind_run h
      obtain ⟨rfl, rfl⟩ := pure_run h
      exact (Made.node rfl).mpr (made_lower sight a ha)
    · obtain ⟨a', s₁, ha, h⟩ := bind_run h
      obtain ⟨rfl, rfl⟩ := pure_run h
      have made := made_lower sight a ha
      unfold negative
      split
      · exact Made.const_iff.mpr (Made.const_iff.mp made)
      · exact Made.const_iff.mpr (Made.const_iff.mp made)
      · exact (Made.node rfl).mpr made
    · cases h
  | [a, b], s, s', e, h => by
    unfold lowerApply at h
    split at h
    · obtain ⟨a', s₁, ha, h⟩ := bind_run h
      obtain ⟨b', s₂, hb, h⟩ := bind_run h
      obtain ⟨rfl, rfl⟩ := pure_run h
      exact (Made.node rfl).mpr ((made_lower sight a ha).append
        ((made_lower sight b hb).append (.nil _)))
    · cases h
  | _ :: _ :: _ :: _, s, s', e, h => by cases h
termination_by structural ts => ts

theorem made_lowerLambda {frames : List (List String)} {frames' : List (List Param)} {names : Names}
    (sight : InSight frames frames' names) : (t : Term) → {s s' : Supply} →
    {operator : String} → {count : Nat} → {l : Lambda Expr} →
    (lowerLambda names t operator count).run s = .ok (l, s') →
    Made frames' s s' (t.mentions frames) [l.piece]
  | .lambda params body, s, s', operator, count, l, h => by
    rw [lowerLambda] at h
    split at h
    · obtain ⟨ids, s₁, hids, h⟩ := bind_run h
      obtain ⟨body', s₂, hbody, h⟩ := bind_run h
      obtain ⟨rfl, rfl⟩ := pure_run h
      have fresh : (ids, s₁)
          = ((List.range' s.next params.length).map Param.mk, ⟨s.next + params.length⟩) :=
        (Except.ok.inj hids).symm.trans (run_freshParams params s)
      obtain ⟨rfl, rfl⟩ := Prod.mk.inj fresh
      exact Made.lambda (made_lower (.cons (by simp) sight) body hbody)
    · cases h
  | .literal _, _, _, _, _, _, h | .variable _, _, _, _, _, _, h | .list _, _, _, _, _, _, h
  | .get _ _, _, _, _, _, _, h | .method _ _ _, _, _, _, _, _, h | .function _ _, _, _, _, _, _, h
  | .construct _ _, _, _, _, _, _, h | .apply _ _, _, _, _, _, _, h
  | .cond _ _ _, _, _, _, _, _, h => by cases h
termination_by structural t => t

theorem sound_arguments {frames : List (List String)} {frames' : List (List Param)} {names : Names}
    (sight : InSight frames frames' names) : (ts : List Term) →
    List.Forall₂ (Argument.Sound frames frames') ts (lowerArguments names ts)
  | [] => .nil
  | t :: rest => .cons ⟨rfl, made_lower sight t, made_lowerLambda sight t⟩ (sound_arguments sight rest)
termination_by structural ts => ts

end

end Terms

section Whole

variable {frames : List (List Param)} {s s' : Supply} {ms : List Mention} {e : Expr}

theorem Resolves.mem {name : String} {frames : List (List String)} {frames' : List (List Param)}
    {node : Expr} (h : Resolves name frames frames' node) {p : Param} (param : node = .param p) :
    ∃ ids ∈ frames', p ∈ ids := by
  induction h with
  | bound _ found =>
    cases param
    obtain ⟨before, after, zip, -⟩ := List.lookup_eq_some_iff.mp found
    exact ⟨_, by simp, (List.of_mem_zip (zip ▸ List.mem_append_right before List.mem_cons_self)).2⟩
  | outer _ _ _ ih =>
    obtain ⟨ids, hids, mem⟩ := ih param
    exact ⟨ids, List.mem_cons_of_mem _ hids, mem⟩
  | table => cases param

namespace Made

theorem binders_one (h : Made frames s s' ms [.plain e]) :
    (Part.expr e).binders = (List.range' s.next (s'.next - s.next)).map Param.mk := by
  simpa [Piece.binders, Piece.plain] using h.binders

theorem binders_nodup (h : Made frames s s' ms [.plain e]) : (Part.expr e).binders.Nodup := by
  rw [h.binders_one]
  exact List.Nodup.map (fun _ _ same => Param.mk.inj same) List.nodup_range'

theorem binders_fresh (h : Made frames s s' ms [.plain e]) :
    ∀ p ∈ (Part.expr e).binders, s.next ≤ p.id ∧ p.id < s'.next := by
  intro p hp
  rw [h.binders_one] at hp
  obtain ⟨i, hi, rfl⟩ := List.mem_map.mp hp
  obtain ⟨least, most⟩ := List.mem_range'_1.mp hi
  have := h.le
  refine ⟨least, ?_⟩
  change i < s'.next
  omega

theorem uses_one (h : Made frames s s' ms [.plain e]) :
    List.Forall₂ Mention.Becomes ms ((Part.expr e).uses frames) := by
  simpa [Piece.uses, Piece.plain] using h.uses

/-- Every parameter is bound by a lambda around it. -/
theorem bound (h : Made frames s s' ms [.plain e]) :
    ∀ u ∈ (Part.expr e).uses frames, ∀ p, u.node = .param p → ∃ ids ∈ u.frames, p ∈ ids := by
  intro u hu p hp
  obtain ⟨m, -, becomes⟩ := exists_of_forall₂_right h.uses_one u hu
  exact becomes.mem hp

end Made

end Whole

end Language

end ObjectQuery
