import ObjectQuery.Proofs.Following
import ObjectQuery.Proofs.Members
import ObjectQuery.Sample

/-!
Members taken before and after evaluation. Among values and objects, a member bound ahead has the value that
the access has, wherever the access has one: null has null for each member, and a column may leave its outer
join as long as it is null in the rows without a match.
-/

namespace ObjectQuery

open Eval

namespace Expr

inductive IsShape : Expr → Prop
  | value {e : Expr} : isValue e = true → IsShape e
  | construct {typeName : Option String} {fields : List (Field Expr)} :
    (∀ f ∈ fields, IsShape f.expr) → IsShape (.construct typeName fields)
  | entity {name : String} {e : Expr} : IsShape e → IsShape (.entity name e)
  | outerJoined {test e : Expr} : IsShape e → IsShape (.outerJoined test e)
  | cond {test onTrue onFalse : Expr} : IsShape onTrue → IsShape onFalse →
    IsShape (.cond test onTrue onFalse)

inductive Inside (a : Expr) : Expr → Prop
  | here : Inside a a
  | field {typeName : Option String} {fields : List (Field Expr)} {f : Field Expr} : f ∈ fields →
    Inside a f.expr → Inside a (.construct typeName fields)
  | entity {name : String} {e : Expr} : Inside a e → Inside a (.entity name e)
  | outerJoined {test e : Expr} : Inside a e → Inside a (.outerJoined test e)
  | onTrue {test onTrue onFalse : Expr} : Inside a onTrue → Inside a (.cond test onTrue onFalse)
  | onFalse {test onTrue onFalse : Expr} : Inside a onFalse → Inside a (.cond test onTrue onFalse)

variable {e : Expr} {name : String}

variable (name) in
/-- A value has no members, and null has null for each. -/
theorem bindMember_value (value : isValue e = true) :
    e = .null ∨ e.bindMember name = .member e name := by
  cases e with
  | const v => cases v <;> simp [null, bindMember]
  | _ => first | exact .inr rfl | simp [isValue] at value

theorem Inside.trans {a b : Expr} (h : b.Inside e) (inner : a.Inside b) : a.Inside e := by
  induction h with
  | here => exact inner
  | field hf _ ih => exact .field hf ih
  | entity _ ih => exact .entity ih
  | outerJoined _ ih => exact .outerJoined ih
  | onTrue _ ih => exact .onTrue ih
  | onFalse _ ih => exact .onFalse ih

/-- A column that answers for a member stands in the shape itself. -/
theorem IsShape.inside_of_bindMember (shape : e.IsShape) {c : Column} (h : e.bindMember name = .column c) :
    (Expr.column c).Inside e := by
  induction shape with
  | value value =>
    rcases bindMember_value name value with rfl | member
    · simp [null, bindMember] at h
    · rw [member] at h
      cases h
  | construct _ _ =>
    rw [bindMember] at h
    cases found : fieldNamed? name _ with
    | none =>
      rw [found] at h
      cases h
    | some a =>
      rw [found, Option.getD_some] at h
      obtain ⟨f, hf, rfl⟩ := mem_of_fieldNamed? found
      exact .field hf (h ▸ .here)
  | entity _ ih =>
    rw [bindMember] at h
    split at h
    · split at h
      · cases h
      · cases h
    · exact .entity (ih h)
  | outerJoined _ ih =>
    rw [bindMember] at h
    split at h
    · rename_i same
      cases h
      exact .outerJoined (ih same)
    · cases h
  | cond => simp [bindMember] at h

end Expr

def ClientValue.access (name : String) : ClientValue → Eval.Result ClientValue
  | .null => .ok .null
  | v => match v.member? name with
    | some m => .ok m
    | none => .error (.unsupported ("member " ++ name))

namespace Eval

variable {tables : Tables} {σ : Scope} {e : Expr} {name : String}

theorem client_entity : client tables (.entity name e) σ = client tables e σ := by
  rw [client]

theorem client_outerJoined {test : Expr} : client tables (.outerJoined test e) σ
    = (do if (← scalar tables test σ).isNull then return .null else client tables e σ) := by
  rw [client]

theorem client_cond {test onTrue onFalse : Expr} : client tables (.cond test onTrue onFalse) σ
    = (do if ← holds (← scalar tables test σ) then client tables onTrue σ else client tables onFalse σ) := by
  rw [client]

theorem client_member : client tables (.member e name) σ = (do (← client tables e σ).access name) := by
  rw [client]
  congr
  funext v
  cases v with
  | object typeName members =>
    simp only [ClientValue.access]
    cases ClientValue.member? name (.object typeName members) <;> rfl
  | _ => rfl

/-- Nothing in a shape is run on its own, so its value does not depend on what was run before. -/
theorem lifted_of_isShape (shape : e.IsShape) : Lifted (client tables e σ) := by
  induction shape with
  | value value =>
    rw [client_value value]
    exact (Lifted.lift _).bind fun _ => .pure _
  | construct _ ih =>
    rw [client_construct]
    exact (Lifted.mapM fun f hf => (ih f hf).bind fun _ => .pure _).bind fun _ => .pure _
  | entity _ ih =>
    rw [client_entity]
    exact ih
  | outerJoined _ ih =>
    rw [client_outerJoined]
    refine (Lifted.lift _).bind fun v => ?_
    split
    · exact .pure _
    · exact ih
  | cond _ _ ihTrue ihFalse =>
    rw [client_cond]
    refine (Lifted.lift _).bind fun v => (Lifted.lift _).bind fun b => ?_
    split
    · exact ihTrue
    · exact ihFalse

/-- Once all members of an object have values, each of them is found under its name. -/
theorem lookup_of_members {fields : List (Field Expr)} (shapes : ∀ f ∈ fields, f.expr.IsShape)
    {a : Expr} (found : fieldNamed? name fields = some a) {s s' : List (Alias × JoinedRows)}
    {members : List (String × ClientValue)}
    (h : (fields.mapM fun f : Field Expr => do
      return (f.name, ← client tables f.expr σ)).run s = .ok (members, s')) :
    ∃ v, (client tables a σ).run s = .ok (v, s') ∧ members.lookup name = some v := by
  have same : s' = s := by
    have all : Lifted (fields.mapM fun f : Field Expr => do return (f.name, ← client tables f.expr σ)) :=
      .mapM fun f hf => (lifted_of_isShape (shapes f hf)).bind fun _ => .pure _
    exact congrArg Prod.snd (Except.ok.inj (h.symm.trans (all.run h s)))
  subst same
  induction fields generalizing members with
  | nil => cases found
  | cons f rest ih =>
    rw [List.mapM_cons, StateT.run_bind] at h
    obtain ⟨⟨m, s₁⟩, first, h⟩ := bind_eq_ok.mp h
    rw [StateT.run_bind] at first
    obtain ⟨⟨v, s₂⟩, value, first⟩ := bind_eq_ok.mp first
    cases first
    rw [StateT.run_bind] at h
    obtain ⟨⟨ms, s₃⟩, others, h⟩ := bind_eq_ok.mp h
    cases h
    obtain rfl : s₂ = _ := congrArg Prod.snd
      (Except.ok.inj (value.symm.trans ((lifted_of_isShape (shapes f (by simp))).run value _)))
    rw [fieldNamed?, List.find?_cons] at found
    split at found
    · rename_i named
      cases found
      have here : (name == f.name) = true := (BEq.comm (a := name)).trans named
      exact ⟨v, value, by rw [List.lookup_cons, here]⟩
    · rename_i named
      obtain ⟨w, hw, look⟩ := ih (fun g hg => shapes g (by simp [hg])) found others
      have other : (name == f.name) = false := (BEq.comm (a := name)).trans named
      exact ⟨w, hw, by rw [List.lookup_cons, other]; exact look⟩

/-- A column leaves its outer join when it is null in the rows without a match. -/
theorem column_follows {test : Expr} {c : Column}
    (absent : scalar tables test σ = .ok .null → σ.column c = .ok .null) :
    FollowsRun (client tables (.column c) σ) (client tables (.outerJoined test (.column c)) σ) := by
  rw [client_outerJoined]
  intro s r hr
  rw [StateT.run_bind] at hr
  obtain ⟨⟨v, s₁⟩, tested, hr⟩ := bind_eq_ok.mp hr
  obtain ⟨v', value, tested⟩ := bind_eq_ok.mp tested
  cases tested
  split at hr
  · rename_i null
    cases hr
    obtain rfl : v = .null := by
      cases v <;> first | rfl | cases null
    rw [client_value rfl, scalar, absent value]
    exact ⟨_, rfl, rfl⟩
  · exact ⟨r, hr, rfl⟩

/-- The member bound ahead follows the access. Only a column leaves its outer join. -/
theorem bindMember_follows (shape : e.IsShape)
    (absent : ∀ test inner, (Expr.outerJoined test inner).Inside e → scalar tables test σ = .ok .null →
      ∀ c, (Expr.column c).Inside inner → σ.column c = .ok .null) :
    FollowsRun (client tables (e.bindMember name) σ) (client tables (.member e name) σ) := by
  induction shape with
  | value value =>
    rcases Expr.bindMember_value name value with rfl | member
    · rw [client_member, client_value value, Expr.null, Expr.bindMember, client_value rfl, scalar]
      exact .refl _
    · rw [member]
      exact .refl _
  | @construct typeName fields shapes ih =>
    rw [Expr.bindMember]
    cases found : fieldNamed? name fields with
    | none => exact .refl _
    | some a =>
      rintro s ⟨v, s'⟩ hv
      rw [client_member, client_construct, StateT.run_bind] at hv
      obtain ⟨⟨o, s₁⟩, object, hv⟩ := bind_eq_ok.mp hv
      rw [StateT.run_bind] at object
      obtain ⟨⟨members, s₂⟩, members_run, object⟩ := bind_eq_ok.mp object
      cases object
      obtain ⟨w, value, look⟩ := lookup_of_members shapes found members_run
      refine ⟨_, value, ?_⟩
      simp only [ClientValue.access, ClientValue.member?, look] at hv
      cases hv
      rfl
  | @entity entityName e shape ih =>
    have inner := ih fun test a h => absent test a (.entity h)
    rw [client_member, client_entity, ← client_member]
    rw [Expr.bindMember]
    split
    · rename_i target m same
      rw [same] at inner
      split
      · rw [client_member, client_entity, ← client_member]
        exact .refl _
      · exact inner
    · exact inner
  | @outerJoined test e shape ih =>
    have inner := ih fun test a h => absent test a (.outerJoined h)
    have wrapped : FollowsRun (client tables (.outerJoined test (e.bindMember name)) σ)
        (client tables (.member (.outerJoined test e) name) σ) := by
      rw [client_member, client_outerJoined, client_outerJoined, bind_assoc]
      refine FollowsRun.bind (.refl _) fun v => ?_
      split
      · exact .refl _
      · rw [← client_member]
        exact inner
    rw [Expr.bindMember]
    split
    · rename_i c same
      rw [same] at wrapped
      exact (column_follows fun null => absent test e .here null c (shape.inside_of_bindMember same)).trans wrapped
    · exact wrapped
  | @cond test onTrue onFalse _ _ ihTrue ihFalse =>
    rw [Expr.bindMember, client_cond, client_member, client_cond, bind_assoc]
    refine FollowsRun.bind (.refl _) fun v => ?_
    rw [bind_assoc]
    refine FollowsRun.bind (.refl _) fun b => ?_
    split
    · rw [← client_member]
      exact ihTrue fun test a h => absent test a (.onTrue h)
    · rw [← client_member]
      exact ihFalse fun test a h => absent test a (.onFalse h)

/-- Wherever an access to a member of a shape has a value, the member bound ahead has the same. -/
theorem client_bindMember (shape : e.IsShape)
    (absent : ∀ test inner, (Expr.outerJoined test inner).Inside e → scalar tables test σ = .ok .null →
      ∀ c, (Expr.column c).Inside inner → σ.column c = .ok .null)
    {joined joined' : List (Alias × JoinedRows)} {v : ClientValue}
    (access : (client tables (.member e name) σ).run joined = .ok (v, joined')) :
    (client tables (e.bindMember name) σ).run joined = .ok (v, joined') :=
  (bindMember_follows shape absent joined).eq_ok access

end Eval

namespace Sample

def joinedCustomer : Expr :=
  .outerJoined (.column ⟨⟨1⟩, "CustomerID", .text⟩) (.entity "Customer" (.construct none
    [⟨"City", .column ⟨⟨1⟩, "City", .text⟩⟩, ⟨"Contact", .cond (.const (.bool true)) .null (.construct none [])⟩]))

theorem isShape_joinedCustomer : joinedCustomer.IsShape := by
  refine .outerJoined (.entity (.construct ?_))
  simp only [List.forall_mem_cons]
  exact ⟨.value rfl, .cond (.value rfl) (.construct (by simp)), by simp⟩

theorem inside_joinedCustomer {c : Column} (h : (Expr.column c).Inside joinedCustomer) :
    c = ⟨⟨1⟩, "City", .text⟩ := by
  cases h with | outerJoined h =>
  cases h with | entity h =>
  cases h with | field mem h =>
  simp only [List.mem_cons, List.not_mem_nil, or_false] at mem
  rcases mem with rfl | rfl
  · cases h
    rfl
  · cases h with
    | onTrue h => cases h
    | onFalse h => cases h; contradiction

/-- An order without a customer has null for the city. -/
theorem client_bindMember_unmatched :
    (Eval.client tables (joinedCustomer.bindMember "City") (Scope.root.extend [(⟨1⟩, none)])).run []
      = .ok (.null, []) := by
  refine Eval.client_bindMember isShape_joinedCustomer (fun test inner inside _ c within => ?_) ?_
  · rw [inside_joinedCustomer (inside.trans (.outerJoined within))]
    rfl
  · rw [Eval.client_member, joinedCustomer, Eval.client_outerJoined, Eval.scalar]
    rfl

end Sample

end ObjectQuery
