import ObjectQuery.Proofs.Expansion

/-!
Members that are sure to be found. A plain expression may build an object, through entities and
conditionals; a path of members that is built everywhere can be taken from it with nothing left open.
What a lambda makes is told by the paths that can be taken from its parameter.
-/

namespace ObjectQuery

inductive Reaches : Expr → List String → Prop
  | here {e : Expr} : Reaches e []
  | construct {typeName : Option String} {fields : List (Field Expr)} {e : Expr} {name : String}
    {path : List String} : fieldNamed? name fields = some e → Reaches e path →
    Reaches (.construct typeName fields) (name :: path)
  | entity {entity : String} {e : Expr} {name : String} {path : List String} :
    Reaches e (name :: path) → Reaches (.entity entity e) (name :: path)
  | cond {test onTrue onFalse : Expr} {name : String} {path : List String} :
    Reaches onTrue (name :: path) → Reaches onFalse (name :: path) →
    Reaches (.cond test onTrue onFalse) (name :: path)
  | condNull {test onTrue : Expr} {name : String} {path : List String} :
    Reaches onTrue (name :: path) → Reaches (.cond test onTrue .null) (name :: path)
  | nullCond {test onFalse : Expr} {name : String} {path : List String} :
    Reaches onFalse (name :: path) → Reaches (.cond test .null onFalse) (name :: path)

/-- The body of a lambda with the parameter `p`, put together from constants without floats, the
parameter, members, operators, conditionals, functions and new objects. The members of the path can
be taken from what it makes, where those of an `input` path can be taken from the parameter. -/
inductive Makes (p : Param) (input : List String → Prop) : Expr → List String → Prop
  | const {v : Value} : v.Exact → Makes p input (.const v) []
  | param {path : List String} : input path → Makes p input (.param p) path
  | member {target : Expr} {name : String} {path : List String} :
    Makes p input target (name :: path) → Makes p input (.member target name) path
  | binary {op : BinaryOp} {left right : Expr} : Makes p input left [] → Makes p input right [] →
    Makes p input (.binary op left right) []
  | unary {op : UnaryOp} {operand : Expr} : Makes p input operand [] →
    Makes p input (.unary op operand) []
  | isNull {operand : Expr} : Makes p input operand [] → Makes p input (.isNull operand) []
  | cond {test onTrue onFalse : Expr} {path : List String} : Makes p input test [] →
    Makes p input onTrue path → Makes p input onFalse path →
    Makes p input (.cond test onTrue onFalse) path
  | condNull {test onTrue : Expr} {path : List String} : Makes p input test [] →
    Makes p input onTrue path → Makes p input (.cond test onTrue .null) path
  | nullCond {test onFalse : Expr} {path : List String} : Makes p input test [] →
    Makes p input onFalse path → Makes p input (.cond test .null onFalse) path
  | call {function : String} {args : List Expr} : (∀ a ∈ args, Makes p input a []) →
    Makes p input (.call function args) []
  | construct {typeName : Option String} {fields : List (Field Expr)} :
    (∀ f ∈ fields, Makes p input f.expr []) → Makes p input (.construct typeName fields) []
  | field {typeName : Option String} {fields : List (Field Expr)} {e : Expr} {name : String}
    {path : List String} : (∀ f ∈ fields, Makes p input f.expr []) →
    fieldNamed? name fields = some e → Makes p input e path →
    Makes p input (.construct typeName fields) (name :: path)

variable {P : Column → Prop} {e : Expr} {name : String} {path : List String}

theorem mem_of_fieldNamed? {fields : List (Field Expr)} (h : fieldNamed? name fields = some e) :
    ∃ f ∈ fields, f.expr = e := by
  rw [fieldNamed?, Option.map_eq_some_iff] at h
  obtain ⟨f, hf, rfl⟩ := h
  exact ⟨f, List.mem_of_find?_eq_some hf, rfl⟩

/-- The member is found, whatever stands around the object. -/
theorem Reaches.bindMember (h : Reaches e (name :: path)) (plain : Plain False P e) :
    Plain False P (e.bindMember name) ∧ Reaches (e.bindMember name) path := by
  have conditional : ∀ {test a b : Expr}, (∀ name' path', path = name' :: path' →
      Reaches (.cond test a b) path) → Reaches (.cond test a b) path := by
    intro test a b h
    cases path with
    | nil => exact .here
    | cons name' path' => exact h name' path' rfl
  generalize hp : name :: path = full at h
  induction h with
  | here => cases hp
  | construct found reaches _ =>
    cases hp
    cases plain with
    | construct plain =>
      obtain ⟨f, hf, rfl⟩ := mem_of_fieldNamed? found
      rw [Expr.bindMember, found]
      exact ⟨plain f hf, reaches⟩
  | entity _ ih =>
    cases hp
    cases plain with
    | entity plain =>
      obtain ⟨inner, reaches⟩ := ih plain rfl
      rw [bindMember_entity fun t m same => ?_]
      · exact ⟨inner, reaches⟩
      · rw [same] at inner
        cases inner
        assumption
  | cond _ _ ihTrue ihFalse =>
    cases hp
    cases plain with
    | cond test onTrue onFalse =>
      obtain ⟨plainTrue, reachesTrue⟩ := ihTrue onTrue rfl
      obtain ⟨plainFalse, reachesFalse⟩ := ihFalse onFalse rfl
      refine ⟨.cond test plainTrue plainFalse, conditional ?_⟩
      rintro _ _ rfl
      exact .cond reachesTrue reachesFalse
  | condNull _ ih =>
    cases hp
    cases plain with
    | cond test onTrue onFalse =>
      obtain ⟨plainTrue, reachesTrue⟩ := ih onTrue rfl
      refine ⟨.cond test plainTrue onFalse, conditional ?_⟩
      rintro _ _ rfl
      exact .condNull reachesTrue
  | nullCond _ ih =>
    cases hp
    cases plain with
    | cond test onTrue onFalse =>
      obtain ⟨plainFalse, reachesFalse⟩ := ih onFalse rfl
      refine ⟨.cond test onTrue plainFalse, conditional ?_⟩
      rintro _ _ rfl
      exact .nullCond reachesFalse

/-- An object never becomes a single column. -/
theorem Reaches.nominate_eq (h : Reaches e (name :: path)) (affinity : Affinity)
    (sources : List Alias) (nested : Bool) :
    e.nominate affinity sources nested = ⟨.cannot, false⟩ := by
  have cannot : ∀ {test onTrue onFalse : Expr},
      (onTrue.nominate affinity sources nested = ⟨.cannot, false⟩
        ∨ onFalse.nominate affinity sources nested = ⟨.cannot, false⟩) →
      (Expr.cond test onTrue onFalse).nominate affinity sources nested = ⟨.cannot, false⟩ := by
    intro test onTrue onFalse either
    rw [Expr.nominate] <;> try simp
    simp only [Expr.mustBeColumn, Bool.false_eq_true, if_false]
    rw [if_neg]
    simp only [Expr.canBeColumn, Part.parts, Bool.true_and, Bool.and_eq_true, not_and]
    intro _ all
    rw [List.all_eq_true] at all
    rcases either with h | h
    · simpa [h, Nomination.allowsParent] using all ⟨.expr onTrue, by simp⟩ (List.mem_attach _ _)
    · simpa [h, Nomination.allowsParent] using all ⟨.expr onFalse, by simp⟩ (List.mem_attach _ _)
  generalize hp : name :: path = full at h
  induction h with
  | here => cases hp
  | construct => rw [Expr.nominate] <;> simp [Expr.mustBeColumn, Expr.canBeColumn]
  | entity => rw [Expr.nominate] <;> simp [Expr.mustBeColumn, Expr.canBeColumn]
  | cond _ _ ih _ => exact cannot (.inl (ih hp))
  | condNull _ ih => exact cannot (.inl (ih hp))
  | nullCond _ ih => exact cannot (.inr (ih hp))

end ObjectQuery
