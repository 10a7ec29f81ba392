import ObjectQuery.Proofs.Expansion
import ObjectQuery.Proofs.TidyNavigation

/-!
What is left of the comparisons of objects. Expanding a comparison gives new comparisons, of members,
and these are expanded in turn; what happens inside an operand never makes an object of it. So no
comparison of objects is left, however deep the objects were nested, and a second run finds nothing.
A tree that later takes an object into a comparison has to be expanded again.
-/

namespace ObjectQuery

open Outcomes

namespace Comparisons

inductive Look
  | null
  | entity
  | construct
  | joinedEntity
  | joined
  | value

def look : Expr → Look
  | .const .null => .null
  | .entity .. => .entity
  | .construct .. => .construct
  | .outerJoined _ (.entity ..) => .joinedEntity
  | .outerJoined .. => .joined
  | _ => .value

def Look.isObject : Look → Bool
  | .entity | .construct | .joinedEntity => true
  | _ => false

def Look.isJoined : Look → Bool
  | .joinedEntity | .joined => true
  | _ => false

def Look.isNull : Look → Bool
  | .null => true
  | _ => false

def Look.joinedTo : Look → Look
  | .entity => .joinedEntity
  | _ => .joined

theorem isObject_eq (e : Expr) : isObject e = (look e).isObject := by
  fun_cases look e with
  | case6 => cases e <;> first | rfl | simp_all
  | _ => simp_all [isObject, entity?, members?, Look.isObject]

theorem isJoined_look {e : Expr} : (look e).isJoined ↔ ∃ test x, e = .outerJoined test x := by
  fun_cases look e <;> simp_all [Look.isJoined]

theorem isNull_look {e : Expr} : (look e).isNull ↔ e = .const .null := by
  fun_cases look e <;> simp_all [Look.isNull]

variable {m : Mapping} {negate : Bool} {left right left' right' e e' : Expr}

theorem joinTest?_eq_none : joinTest? left right = none
    ↔ ¬((look left).isJoined ∧ (look right).isNull) ∧ ¬((look left).isNull ∧ (look right).isJoined) := by
  simp only [isJoined_look, isNull_look]
  unfold joinTest?
  split
  · simp
  · simp
  · rename_i onLeft onRight
    refine iff_of_true rfl ⟨?_, ?_⟩
    · rintro ⟨⟨test, x, rfl⟩, rfl⟩
      exact onLeft test x rfl rfl
    · rintro ⟨rfl, test, x, rfl⟩
      exact onRight test x rfl rfl

theorem comparedMembers_eq_none :
    comparedMembers m left right = .ok none ↔ isObject left = false ∧ isObject right = false := by
  unfold comparedMembers
  simp only [isObject, Bool.or_eq_false_iff, Option.isSome_eq_false_iff, Option.isNone_iff_eq_none]
  split
  · rename_i entity found
    refine iff_of_false ?_ fun plain => ?_
    · split <;> simp
    · rw [plain.1.1, plain.2.1] at found
      cases found
  · rename_i none
    rw [Option.or_eq_none_iff] at none
    split
    · simp_all
    · simp_all
    · simp_all
    · refine iff_of_false ?_ fun plain => by simp_all
      split <;> simp

def PlainOperands (left right : Expr) : Prop :=
  isObject left = false ∧ isObject right = false ∧ joinTest? left right = none

/-- What the pass leaves is the comparisons of plain operands. -/
theorem expand_eq_none : expand m negate left right = .ok none ↔ PlainOperands left right := by
  unfold expand PlainOperands
  rw [← and_assoc, ← comparedMembers_eq_none (m := m)]
  cases joinTest? left right with
  | some _ => simp
  | none =>
    cases comparedMembers m left right with
    | error _ => exact iff_of_false nofun (by simp)
    | ok names? =>
      cases names? with
      | none => exact iff_of_true rfl (by simp)
      | some _ => exact iff_of_false nofun (by simp)

/-- An operand that looks the same is compared the same way. -/
theorem PlainOperands.of_look (h : PlainOperands left right) (hl : look left' = look left) (hr : look right' = look right) :
    PlainOperands left' right' := by
  unfold PlainOperands at h ⊢
  simpa only [isObject_eq, joinTest?_eq_none, hl, hr] using h

theorem look_byMembers (left right : Expr) (names : List String) :
    look (byMembers left right names) = .value := by
  have conjoined : ∀ (es : List Expr) (e : Expr), look e = .value → look (es.foldl .both e) = .value := by
    intro es
    induction es with
    | nil => exact fun _ => id
    | cons t ts ih => exact fun e _ => ih (.both e t) rfl
  cases names with
  | nil => rfl
  | cons name names =>
    refine conjoined _ _ ?_
    simp only [memberTerm]
    split
    · rfl
    · split <;> rfl

/-- An expanded comparison is a plain value. -/
theorem look_expand (h : expand m negate left right = .ok (some e)) : look e = .value := by
  have negated : ∀ e, look e = .value → look (negateIf negate e) = .value := by
    intro e he
    cases negate
    exacts [he, rfl]
  unfold expand at h
  split at h
  · obtain rfl := Option.some.inj (Except.ok.inj h)
    exact negated _ rfl
  · cases compared : comparedMembers m left right with
    | error _ =>
      rw [compared] at h
      cases h
    | ok names? =>
      rw [compared] at h
      cases names? with
      | none => cases h
      | some names =>
        obtain rfl := Option.some.inj (Except.ok.inj h)
        exact negated _ (look_byMembers left right names)

theorem look_outerJoined {test e : Expr} : look (.outerJoined test e) = (look e).joinedTo := by
  fun_cases look e <;> simp_all [look, Look.joinedTo]

/-- A node looks like another one of its kind where its parts do. -/
theorem look_of_shaped {Q : Expr → Expr → Prop} {QS : Select Expr → Select Expr → Prop}
    {QP : Projection Expr → Projection Expr → Prop} (shaped : e.Shaped Q QS QP e')
    (parts : ∀ c c', Q c c' → look c' = look c) : look e' = look e := by
  cases shaped with
  | outerJoined _ inner => rw [look_outerJoined, look_outerJoined, parts _ _ inner]
  | _ => rfl

end Comparisons

open Comparisons

def Part.ComparesPlain : Part → Prop
  | .expr (.binary .eq left right) | .expr (.binary .notEq left right) => PlainOperands left right
  | _ => True

theorem Part.comparesPlain_binary {op : BinaryOp} {left right : Expr}
    (h : op = .eq ∨ op = .notEq → PlainOperands left right) : ComparesPlain (.expr (.binary op left right)) := by
  unfold ComparesPlain
  split
  · simp_all
  · simp_all
  · trivial

def Comparisons.Expanded (e e' : Expr) : Prop := look e' = look e ∧ (Part.expr e').Every Part.ComparesPlain

theorem Comparisons.Expanded.binary {op : BinaryOp} {left right left' right' : Expr}
    (here : op = .eq ∨ op = .notEq → PlainOperands left' right')
    (hl : (Part.expr left').Every Part.ComparesPlain) (hr : (Part.expr right').Every Part.ComparesPlain) :
    Expanded (.binary op left right) (.binary op left' right') := by
  refine ⟨rfl, .node (Part.comparesPlain_binary here) fun q hq => ?_⟩
  simp only [Part.parts, List.mem_cons, List.not_mem_nil, or_false] at hq
  rcases hq with rfl | rfl
  exacts [hl, hr]

theorem Comparisons.settled_of_plain {m : Mapping} {p : Part} (h : p.Every Part.ComparesPlain) :
    settled m p = true := by
  induction h with
  | node here sub ih =>
    clear sub
    refine settled_iff.mpr ⟨?_, ih⟩
    unfold isExpanded
    split
    · rename_i op left right
      by_cases compares : op = .eq ∨ op = .notEq
      · have plain : PlainOperands left right := by rcases compares with rfl | rfl <;> exact here
        simp [expand_eq_none.mpr plain]
      · simp_all
    · rfl

namespace Expr

/-- Nothing but comparisons of plain operands is left, and what was no object is none. -/
theorem expanded_expandComparisons {m : Mapping} {e e' : Expr} (h : e.expandComparisons m = .ok e') :
    Expanded e e' := by
  let plain (p : Part) : Prop := (walker m).Keeps (ofOk RewriteError) (fun _ => True) Part.ComparesPlain p
  revert e'
  refine (expandComparisons.mutual_induct m
    (fun e => ∀ {e'}, e.expandComparisons m = .ok e' → Expanded e e')
    (fun p => plain (.projection p)) (fun s => plain (.select s)) ?_ ?_ ?_ ?_ ?_ ?_ ?_).1 e
  · intro op left right hop error found e' run
    rw [expandComparisons.eq_1, dif_pos hop] at run
    split at run <;> simp_all
  · intro op left right hop expanded found ih e' run
    rw [expandComparisons.eq_1, dif_pos hop] at run
    split at run
    · simp_all
    · rename_i found'
      obtain rfl := Option.some.inj (Except.ok.inj (found.symm.trans found'))
      obtain ⟨same, plain⟩ := ih run
      exact ⟨same.trans (look_expand found), plain⟩
    · simp_all
  · intro op left right hop found ihl ihr e' run
    rw [expandComparisons.eq_1, dif_pos hop] at run
    split at run
    · simp_all
    · simp_all
    · obtain ⟨l, hl, run⟩ := bind_eq_ok.mp run
      obtain ⟨r, hr, run⟩ := bind_eq_ok.mp run
      obtain rfl := Except.ok.inj run
      obtain ⟨lookl, plainl⟩ := ihl hl
      obtain ⟨lookr, plainr⟩ := ihr hr
      exact .binary (fun _ => (expand_eq_none.mp found).of_look lookl lookr) plainl plainr
  · intro op left right hop ihl ihr e' run
    rw [expandComparisons.eq_1, dif_neg hop] at run
    obtain ⟨l, hl, run⟩ := bind_eq_ok.mp run
    obtain ⟨r, hr, run⟩ := bind_eq_ok.mp run
    obtain rfl := Except.ok.inj run
    exact .binary (fun h => absurd h hop) (ihl hl).2 (ihr hr).2
  · intro e other ihe ihs ihp e' run
    rw [expandComparisons.eq_2 m e other] at run
    have walked := Walker.Keeps.related (W := walker m) (O := ofOk RewriteError) (I := fun _ => True)
      (fun c hc _ _ _ _ run => ⟨ihe c hc run, trivial⟩) (fun s hs => ihs s hs) (fun p hp => ihp p hp)
    have shaped := (walked () e' () trivial run).1
    refine ⟨look_of_shaped shaped fun _ _ h => h.1, .of_matches ?_ shaped.parts (fun _ _ h => h.2)
      (fun _ _ h => h) fun _ _ h => h⟩
    cases shaped with
    | binary op => exact absurd rfl (other op _ _)
    | _ => trivial
  · intro p ihe ihs
    change Outcomes.Keeps _ _ _ (p.expandComparisons m)
    rw [Projection.expandComparisons]
    refine (Walker.Keeps.shapedProjection (W := walker m) fun q hq => ?_).mono fun _ shaped =>
      shaped.every trivial
    simp only [Part.parts, List.mem_cons, List.not_mem_nil, or_false] at hq
    rcases hq with rfl | rfl
    · exact ihs _ Projection.select_mem
    · exact fun _ _ _ _ run => ⟨(ihe _ Projection.projector_mem run).2, trivial⟩
  · intro s ihe
    change Outcomes.Keeps _ _ _ (s.expandComparisons m)
    rw [Select.expandComparisons]
    refine (Walker.Keeps.shapedSelect (W := walker m) fun q hq => ?_).mono fun _ shaped =>
      shaped.every trivial
    obtain ⟨e, he, rfl⟩ := List.mem_map.mp hq
    exact fun _ _ _ _ run => ⟨(ihe e hq run).2, trivial⟩

/-- A second run finds nothing to expand. -/
theorem expandComparisons_expanded {m : Mapping} {e e' : Expr} (h : e.expandComparisons m = .ok e') :
    e'.expandComparisons m = .ok e' :=
  e'.expandComparisons_settled m (settled_of_plain (expanded_expandComparisons h).2)

end Expr

end ObjectQuery
