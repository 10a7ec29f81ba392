import ObjectQuery.Compile
import ObjectQuery.Proofs.Splitting
import ObjectQuery.Proofs.StackNumbering

/-!
Chains of operators over one table, and what they are bound to: a stack of selects with one layer
for each operator, and a projector that builds an element from the columns of the outermost layer.
-/

namespace ObjectQuery

open RowNumbers Binding

variable {P : Column → Prop} {ctx : Context} {fuel : Nat} {root : Bool}

theorem Expr.bind_run (ctx : Context) (q : Expr) (supply : Supply) :
    (q.bind ctx).run supply = match (q.bindAt ctx (Part.expr q).extent true).run
        { supply, params := [], groups := [], openGroup := none, pending := [] } with
      | .ok (bound, s) => .ok (bound, s.supply)
      | .error e => .error e :=
  rfl

/-- A copy of what declares nothing is the expression itself. -/
theorem Expr.copyWithAliases_run_self {e : Expr} (aliases : (Part.expr e).ownAliases = [])
    (params : (Part.expr e).ownParams = []) (supply : Supply) :
    e.copyWithAliases.run supply = ((e, []), supply) := by
  simp only [Expr.copyWithAliases, Renaming.fresh, aliases, params]
  rfl

theorem Plain.ownAliases_eq_nil {e : Expr} (h : Plain False P e) : (Part.expr e).ownAliases = [] :=
  h.gather_eq_nil fun e he => by cases he <;> rfl

theorem Plain.ownParams_eq_nil {e : Expr} (h : Plain False P e) : (Part.expr e).ownParams = [] :=
  h.gather_eq_nil fun e he => by cases he <;> rfl

theorem mint_run {α : Type} (mint : Mint α) (s : BindState) :
    (liftM mint : Binding α).run s
      = .ok ((mint.run s.supply).1, { s with supply := (mint.run s.supply).2 }) :=
  rfl

theorem liftM_minting {α : Type} (step : Minting Mapping.Error α) (s : BindState) :
    (liftM step : Binding α).run s = match step.run s.supply with
      | .ok (a, supply) => .ok (a, { s with supply })
      | .error e => .error (.mapping e) :=
  rfl

theorem minting_run {α : Type} {step : Minting Mapping.Error α} {s : BindState} {a : α}
    {supply : Supply} (h : step.run s.supply = .ok (a, supply)) :
    (liftM step : Binding α).run s = .ok (a, { s with supply }) := by
  rw [liftM_minting, h]

theorem Binding.param_run_self {p : Param} {bound : Expr} (aliases : (Part.expr bound).ownAliases = [])
    (params : (Part.expr bound).ownParams = []) {s : BindState} (found : s.params.lookup p = some bound) :
    (param p).run s = .ok (bound, s) := by
  have copy : (liftM bound.copyWithAliases : Binding (Expr × List (Alias × Alias))).run s
      = .ok ((bound, []), s) := by
    rw [mint_run, Expr.copyWithAliases_run_self aliases params]
  simp only [param, StateT.run_bind, StateT.run_get, pure_bind, found]
  rw [copy]
  rfl

theorem Binding.param_run {p : Param} {bound : Expr} (plain : Plain False P bound)
    {s : BindState} (found : s.params.lookup p = some bound) : (param p).run s = .ok (bound, s) :=
  param_run_self plain.ownAliases_eq_nil plain.ownParams_eq_nil found

abbrev Binding.yields : Yields Binding BindState := .ofStateOk BindState BindError

/-- A member of a parameter is taken of what the parameter stands for. -/
theorem Binding.member_run {p : Param} {bound : Expr} (aliases : (Part.expr bound).ownAliases = [])
    (params : (Part.expr bound).ownParams = []) {s : BindState} (found : s.params.lookup p = some bound)
    (name : String) (root : Bool) :
    ((Expr.member (.param p) name).bindAt ctx fuel root).run s = .ok (bound.bindMember name, s) := by
  have param : ((Expr.param p).bindAt ctx fuel false).run s = .ok (bound, s) := by
    rw [Expr.bindAt]
    exact param_run_self aliases params found
  rw [Expr.bindAt]
  exact yields.bind param (yields.pure _ _)

/-- Actions that leave the state alone, run one after another. -/
theorem Binding.mapM_run_self {α β : Type} {act : α → Binding β} {Q : α → β → Prop}
    {s : BindState} {l : List α} (h : ∀ a ∈ l, ∃ b, (act a).run s = .ok (b, s) ∧ Q a b) :
    ∃ bs, (l.mapM act).run s = .ok (bs, s) ∧ List.Forall₂ Q l bs := by
  induction l with
  | nil => exact ⟨[], rfl, .nil⟩
  | cons a rest ih =>
    obtain ⟨b, run, q⟩ := h a (by simp)
    obtain ⟨bs, runs, qs⟩ := ih fun a ha => h a (by simp [ha])
    refine ⟨b :: bs, ?_, .cons q qs⟩
    rw [List.mapM_cons]
    exact yields.bind run (yields.bind runs (yields.pure _ _))

def Binds (ctx : Context) (fuel : Nat) (P : Column → Prop) (s : BindState) (body : Expr)
    (path : List String) : Prop :=
  ∀ root, ∃ e, (body.bindAt ctx fuel root).run s = .ok (e, s) ∧ Plain False P e ∧ Reaches e path

section Bodies

variable {p : Param} {bound : Expr} {input : List String → Prop} {s : BindState}

theorem bindAt_const (v : Value) :
    ((Expr.const v).bindAt ctx fuel root).run s = .ok (.const v, s) := by
  rw [Expr.bindAt] <;> try simp
  rfl

/-- The fields of a new object are bound one by one. -/
theorem Binds.construct {typeName : Option String} {fields : List (Field Expr)}
    (h : ∀ f ∈ fields, Binds ctx fuel P s f.expr []) (root : Bool) :
    ∃ fields', ((Expr.construct typeName fields).bindAt ctx fuel root).run s
        = .ok (.construct typeName fields', s) ∧ Plain False P (.construct typeName fields')
      ∧ List.Forall₂ (fun f f' => f'.name = f.name
        ∧ (f.expr.bindAt ctx fuel false).run s = .ok (f'.expr, s)) fields fields' := by
  have each : ∀ f ∈ fields, ∃ f', (do
      return { f with expr := ← f.expr.bindAt ctx fuel false } : Binding (Field Expr)).run s
        = .ok (f', s) ∧ (Plain False P f'.expr ∧ f'.name = f.name
          ∧ (f.expr.bindAt ctx fuel false).run s = .ok (f'.expr, s)) := by
    intro f hf
    obtain ⟨e, run, plain, -⟩ := h f hf false
    exact ⟨⟨f.name, e⟩, yields.bind run (yields.pure _ _), plain, rfl, run⟩
  obtain ⟨fields', run, all⟩ := mapM_run_self each
  refine ⟨fields', ?_, .construct fun f' hf' => ?_, all.imp fun _ _ h => h.2⟩
  · rw [Expr.bindAt] <;> try simp
    simp only [Expr.traverse, List.mapM_subtype, List.unattach_attach]
    exact yields.bind run (yields.pure _ _)
  · obtain ⟨f, -, h⟩ := exists_of_forall₂_right all _ hf'
    exact h.1

theorem Makes.binds {body : Expr} {path : List String} (h : Makes p input body path)
    (plain : Plain False P bound) (reaches : ∀ path, input path → Reaches bound path)
    (found : s.params.lookup p = some bound) : Binds ctx fuel P s body path := by
  induction h with
  | const exact => exact fun root => ⟨_, bindAt_const _, .const exact, .here⟩
  | @param path hp =>
    refine fun root => ⟨bound, ?_, plain, reaches _ hp⟩
    rw [Expr.bindAt]
    exact param_run plain found
  | member _ ih =>
    intro root
    obtain ⟨e, run, plain, reaches⟩ := ih false
    obtain ⟨plain', reaches'⟩ := reaches.bindMember plain
    refine ⟨_, ?_, plain', reaches'⟩
    rw [Expr.bindAt]
    exact yields.bind run (yields.pure _ _)
  | @binary op _ _ _ _ ihl ihr =>
    intro root
    obtain ⟨l, runl, plainl, -⟩ := ihl false
    obtain ⟨r, runr, plainr, -⟩ := ihr false
    refine ⟨.binary op l r, ?_, .binary plainl plainr, .here⟩
    rw [Expr.bindAt] <;> try simp
    exact yields.bind runl (yields.bind runr (yields.pure _ _))
  | @unary op _ _ ih =>
    intro root
    obtain ⟨e, run, plain, -⟩ := ih false
    refine ⟨.unary op e, ?_, .unary plain, .here⟩
    rw [Expr.bindAt] <;> try simp
    exact yields.bind run (yields.pure _ _)
  | isNull _ ih =>
    intro root
    obtain ⟨e, run, plain, -⟩ := ih false
    refine ⟨.isNull e, ?_, .isNull plain, .here⟩
    rw [Expr.bindAt] <;> try simp
    exact yields.bind run (yields.pure _ _)
  | @cond _ _ _ path _ _ _ iht iha ihb =>
    intro root
    obtain ⟨t, runt, plaint, -⟩ := iht false
    obtain ⟨a, runa, plaina, reachesa⟩ := iha false
    obtain ⟨b, runb, plainb, reachesb⟩ := ihb false
    refine ⟨.cond t a b, ?_, .cond plaint plaina plainb, ?_⟩
    · rw [Expr.bindAt] <;> try simp
      exact yields.bind runt (yields.bind runa (yields.bind runb (yields.pure _ _)))
    · cases path with
      | nil => exact .here
      | cons _ _ => exact .cond reachesa reachesb
  | @condNull _ _ path _ _ iht iha =>
    intro root
    obtain ⟨t, runt, plaint, -⟩ := iht false
    obtain ⟨a, runa, plaina, reachesa⟩ := iha false
    refine ⟨.cond t a .null, ?_, .cond plaint plaina (.const .null), ?_⟩
    · rw [Expr.bindAt] <;> try simp
      exact yields.bind runt (yields.bind runa (yields.bind (bindAt_const _) (yields.pure _ _)))
    · cases path with
      | nil => exact .here
      | cons _ _ => exact .condNull reachesa
  | @nullCond _ _ path _ _ iht ihb =>
    intro root
    obtain ⟨t, runt, plaint, -⟩ := iht false
    obtain ⟨b, runb, plainb, reachesb⟩ := ihb false
    refine ⟨.cond t .null b, ?_, .cond plaint (.const .null) plainb, ?_⟩
    · rw [Expr.bindAt] <;> try simp
      exact yields.bind runt (yields.bind (bindAt_const _) (yields.bind runb (yields.pure _ _)))
    · cases path with
      | nil => exact .here
      | cons _ _ => exact .nullCond reachesb
  | @call function args _ ih =>
    intro root
    obtain ⟨args', run, all⟩ := mapM_run_self fun a (ha : a ∈ args) =>
      ih a ha false
    refine ⟨.call function args', ?_, .call fun a' ha' => ?_, .here⟩
    · rw [Expr.bindAt] <;> try simp
      simp only [Expr.traverse, List.mapM_subtype, List.unattach_attach]
      exact yields.bind run (yields.pure _ _)
    · obtain ⟨_, -, h⟩ := exists_of_forall₂_right all _ ha'
      exact h.1
  | construct _ ih =>
    intro root
    obtain ⟨fields', run, plain, -⟩ := Binds.construct ih root
    exact ⟨_, run, plain, .here⟩
  | @field _ fields e name path _ member _ ih ihe =>
    intro root
    obtain ⟨fields', run, plain, all⟩ := Binds.construct ih root
    obtain ⟨e', found, run'⟩ := Split.fieldNamed?_of_forall₂
      (R := fun e e' => (e.bindAt ctx fuel false).run s = .ok (e', s)) all member
    obtain ⟨e'', run'', -, reaches⟩ := ihe false
    cases run'.symm.trans run''
    exact ⟨_, run, plain, .construct found reaches⟩

end Bodies

/-- Applying a lambda to an element changes nothing but what parameters stand for. -/
theorem Binding.apply_run (ctx : Context) (fuel : Nat) {p : Param} (ps : List Param)
    {body bound : Expr} {input : List String → Prop} (makes : Makes p input body []) (plain : Plain False P bound)
    (reaches : ∀ path, input path → Reaches bound path) (operator : String) (root : Bool)
    (s : BindState) :
    ∃ e params, (apply operator ⟨p :: ps, body.bindAt ctx fuel root⟩ bound).run s
        = .ok (e, { s with params }) ∧ Plain False P e
      ∧ ∀ path, Makes p input body path → Reaches e path := by
  have binds : ∀ path, Makes p input body path →
      Binds ctx fuel P { s with params := (p, bound) :: s.params } body path :=
    fun path h => h.binds plain reaches (by simp)
  obtain ⟨e, run, plain, -⟩ := binds [] makes root
  refine ⟨e, (p, bound) :: s.params, ?_, plain, fun path h => ?_⟩
  · have assigned : (assign operator (p :: ps) 0 bound).run s
        = .ok ((), { s with params := (p, bound) :: s.params }) := rfl
    exact yields.bind assigned run
  · obtain ⟨e', run', -, reaches⟩ := binds path h root
    cases run.symm.trans run'
    exact reaches

namespace Stack

def Grounded (offered : List String) : Stack → Prop
  | [] => False
  | l :: below => Grounded offered below ∨ below = [] ∧ l.filter = none
    ∧ ∀ name ∈ offered, ∃ d ∈ l.columns, ∃ c, d.expr = .column c ∧ c.name = name

structure Stacked (t : Table) (offered : List String) (l : Layer) (below : Stack) (projector : Expr)
    (supply : Supply) (offers : List String → Prop) : Prop where
  sound : Sound ⟨False, False⟩ t offered (l :: below)
  plain : Plain False (Sees t offered (l :: below)) projector
  reaches : ∀ path, offers path → Reaches projector path
  named : Unnumbered offered (l :: below)
  drawn : Drawn supply (aliases t (l :: below))
  grounded : Grounded offered (l :: below)

variable {t : Table} {offered : List String} {l : Layer} {below : Stack} {projector : Expr}
  {supply : Supply} {offers offers' : List String → Prop}

/-- Splitting a shape makes a layer that fits whatever the shape is over. -/
theorem fits_split {shape : Expr} {affinity : Affinity} {rel source : Alias}
    (plain : Plain False P shape) (inside : ∀ c, P c → c.rel = source) {filter : Option Expr}
    {orderBy : List (Order Expr)} {skip take : Option Nat} (filters : ∀ e ∈ filter, Plain False P e)
    (orders : ∀ o ∈ orderBy, Plain False P o.expr) :
    (Layer.mk rel (shape.split affinity [] rel [source]).columns filter orderBy skip take).Fits
      ⟨False, False⟩ P := by
  obtain ⟨columns, -, -⟩ := split_spec plain affinity rel [source] fun c hc => by
    simp [inside c hc]
  refine ⟨fun e he => ?_, columns.nodup, fun d hd v hv => columns.computed d hd v hv⟩
  simp only [Layer.exprs, List.mem_append, List.mem_map, Option.mem_toList] at he
  obtain (⟨d, hd, rfl⟩ | he) | ⟨o, ho, rfl⟩ := he
  · exact columns.plain d hd
  · exact filters e he
  · exact orders o ho

/-- A layer of the columns of a new shape, with clauses over what is below, goes on top. -/
theorem Stacked.push (h : Stacked t offered l below projector supply offers) {shape : Expr}
    (plain : Plain False (Sees t offered (l :: below)) shape)
    (reaches : ∀ path, offers' path → Reaches shape path) (filter : Option Expr)
    (orderBy : List (Order Expr)) (skip take : Option Nat) (affinity : Affinity)
    (filters : ∀ e ∈ filter, Plain False (Sees t offered (l :: below)) e)
    (orders : ∀ o ∈ orderBy, Plain False (Sees t offered (l :: below)) o.expr) :
    Stacked t offered
      ⟨⟨supply.next⟩, (shape.split affinity [] ⟨supply.next⟩ [l.rel]).columns, filter, orderBy, skip,
        take⟩
      (l :: below) (shape.split affinity [] ⟨supply.next⟩ [l.rel]).projector ⟨supply.next + 1⟩
      offers' := by
  obtain ⟨columns, left, keeps⟩ := split_spec plain affinity ⟨supply.next⟩ [l.rel]
    fun c hc => by simp [hc.1, top]
  refine ⟨⟨fun hr => ?_, fits_split plain (fun c hc => hc.1) filters orders, h.sound⟩, left,
    fun path hp => keeps (reaches path hp), ⟨h.named.1, ?_⟩, ?_, .inl h.grounded⟩
  · exact Nat.lt_irrefl _ (h.drawn _ hr)
  · intro l' hl'
    rcases List.mem_cons.mp hl' with rfl | hl'
    · intro hn
      obtain ⟨d, hd, hn⟩ := List.mem_map.mp hn
      refine columns.named (fun c hc same => ?_) d hd hn
      exact h.named.2 l (by simp) (same ▸ hc.2)
    · exact h.named.2 l' hl'
  · intro a ha
    rw [aliases, List.map_cons, List.mem_cons, List.mem_cons] at ha
    rcases ha with rfl | rfl | ha
    · exact Nat.lt_succ_of_lt (h.drawn _ (by simp [aliases]))
    · exact Nat.lt_succ_self _
    · exact Nat.lt_succ_of_lt (h.drawn a (List.mem_cons_of_mem _ ha))

end Stack

namespace Mapping

def Entity.Offers (e : Entity) (path : List String) : Prop :=
  path = [] ∨ ∃ member ∈ e.members, path = [member.name]

/-- No column is named as row numbers are. -/
def Ordinary (m : Mapping) : Prop :=
  ∀ e ∈ m.entities, ∀ member ∈ e.members, member.columnName ≠ columnName

theorem mem_of_resolve {m : Mapping} {name : String} {e : Entity} (h : m.resolve name = .ok e) :
    e ∈ m.entities := by
  rw [resolve, entity?] at h
  split at h
  · rename_i found
    cases h
    rcases Option.or_eq_some_iff.mp found with found | ⟨-, found⟩
    · exact List.mem_of_find?_eq_some found
    · exact List.mem_of_find?_eq_some found
  · cases h

theorem Entity.reaches_projector {e : Entity} {t : Table} {path : List String}
    (h : e.Offers path) : Reaches (e.projector t) path := by
  obtain rfl | ⟨member, mem, rfl⟩ := h
  · exact .here
  · have isSome : ((e.members.map fun m => (⟨m.name, .column (column t m)⟩ : Field Expr)).find?
        (·.name == member.name)).isSome :=
      List.find?_isSome.mpr ⟨_, List.mem_map_of_mem mem, by simp⟩
    obtain ⟨f, found⟩ := Option.isSome_iff_exists.mp isSome
    refine .entity (.construct (e := f.expr) ?_ .here)
    rw [fieldNamed?, found]
    rfl

def readName? (d : ColumnDecl Expr) : Option String :=
  match d.expr with
  | .column c => some c.name
  | _ => none

/-- An entity's table is bound to one layer that reads the columns of its members. -/
theorem relation_stacked {m : Mapping} (ordinary : m.Ordinary) {name : String} {e : Entity}
    (resolved : m.resolve name = .ok e) (supply : Supply) :
    ∃ t offered l projector supply',
      (m.relation name).run supply = .ok (Stack.projected t l [] projector, supply')
      ∧ Stack.Stacked t offered l [] projector supply' e.Offers := by
  let t : Table := ⟨⟨supply.next⟩, e.name, e.table⟩
  let P (c : Column) : Prop := c.rel = t.rel ∧ c.name ≠ columnName
  have plain : Plain False P (e.projector t) := by
    refine .entity (.construct fun f hf => ?_)
    obtain ⟨member, mem, rfl⟩ := List.mem_map.mp hf
    exact .column ⟨rfl, ordinary e (mem_of_resolve resolved) member mem⟩
  let parts := (e.projector t).split .client [] ⟨supply.next + 1⟩ [t.rel]
  have run : (m.relation name).run supply = .ok (Stack.projected t
      ⟨⟨supply.next + 1⟩, parts.columns, none, [], none, none⟩ [] parts.projector,
      ⟨supply.next + 2⟩) := by
    rw [relation, resolved]
    rfl
  obtain ⟨columns, left, keeps⟩ := split_spec plain .client ⟨supply.next + 1⟩ [t.rel]
    fun c hc => by simp [hc.1]
  -- The columns of the table that can be read are those that the layer reads.
  have reads : ∀ d ∈ parts.columns,
      ∃ c, d.expr = .column c ∧ P c ∧ readName? d = some c.name := by
    intro d hd
    obtain ⟨c, hc⟩ := columns.bare rfl d hd
    have plain := columns.plain d hd
    rw [hc] at plain
    cases plain with
    | column hp => exact ⟨c, hc, hp, by simp only [readName?, hc]⟩
  refine ⟨t, parts.columns.filterMap readName?, _, _, _, run, ⟨⟨?_, ⟨fun e he => ?_, columns.nodup, fun d hd v hv =>
    columns.computed d hd v hv⟩, trivial⟩, left, fun path h => keeps (Entity.reaches_projector h),
    ⟨?_, ?_⟩, ?_, .inr ⟨rfl, rfl, fun name hn => ?_⟩⟩⟩
  · simp [Stack.aliases, t]
  · simp only [Layer.exprs, List.map_nil, Option.toList_none, List.append_nil, List.mem_map] at he
    obtain ⟨d, hd, rfl⟩ := he
    obtain ⟨c, hc, hp, hr⟩ := reads d hd
    rw [hc]
    exact .column ⟨hp.1, List.mem_filterMap.mpr ⟨d, hd, hr⟩⟩
  · intro hn
    obtain ⟨d, hd, hn⟩ := List.mem_filterMap.mp hn
    obtain ⟨c, -, hp, hr⟩ := reads d hd
    exact hp.2 (Option.some.inj (hr.symm.trans hn))
  · intro l hl hn
    obtain rfl := List.mem_singleton.mp hl
    obtain ⟨d, hd, hn⟩ := List.mem_map.mp hn
    exact columns.named (fun c hc => hc.2) d hd hn
  · intro a ha
    simp only [Stack.aliases, List.map_cons, List.map_nil, List.mem_cons, List.not_mem_nil,
      or_false] at ha
    rcases ha with rfl | rfl
    · exact Nat.lt_succ_of_lt (Nat.lt_succ_self _)
    · exact Nat.lt_succ_self _
  · obtain ⟨d, hd, hn⟩ := List.mem_filterMap.mp hn
    obtain ⟨c, hc, -, hr⟩ := reads d hd
    exact ⟨d, hd, c, hc, Option.some.inj (hr.symm.trans hn)⟩

end Mapping

/-- A query that filters, maps, orders and pages the rows of one table. Members are only taken where
they are sure to be there: `offers` tells which can be taken from an element of the query. A secondary
ordering stands right on another ordering, for which `ordered` is kept. -/
inductive Chain (m : Mapping) : Bool → Expr → (List String → Prop) → Prop
  | table {name : String} {e : Mapping.Entity} : m.resolve name = .ok e →
    Chain m false (.operator (.table name)) e.Offers
  | filter {ordered : Bool} {source condition : Expr} {offers : List String → Prop} {p : Param}
    {ps : List Param} : Chain m ordered source offers → Makes p offers condition [] →
    Chain m false (.operator (.filter source ⟨p :: ps, condition⟩)) offers
  | map {ordered : Bool} {source shape : Expr} {offers : List String → Prop} {p : Param}
    {ps : List Param} : Chain m ordered source offers → Makes p offers shape [] →
    Chain m false (.operator (.map source ⟨p :: ps, shape⟩)) (Makes p offers shape)
  | orderBy {ordered : Bool} {source key : Expr} {offers : List String → Prop} {p : Param}
    {ps : List Param} {direction : Direction} : Chain m ordered source offers →
    Makes p offers key [] → Chain m true (.operator (.orderBy source ⟨p :: ps, key⟩ direction)) offers
  | thenBy {source key : Expr} {offers : List String → Prop} {p : Param} {ps : List Param}
    {direction : Direction} : Chain m true source offers → Makes p offers key [] →
    Chain m true (.operator (.thenBy source ⟨p :: ps, key⟩ direction)) offers
  | skip {ordered : Bool} {source : Expr} {offers : List String → Prop} (count : Nat) :
    Chain m ordered source offers → Chain m false (.operator (.skip source (.int count))) offers
  | take {ordered : Bool} {source : Expr} {offers : List String → Prop} (count : Nat) :
    Chain m ordered source offers → Chain m false (.operator (.take source (.int count))) offers

section Binding

variable {q source projector : Expr} {t : Table} {offered : List String} {l : Layer} {below : Stack}
  {s : BindState}

theorem sequence_run {s' : BindState} {p : Projection Expr}
    (h : (source.bindAt ctx fuel root).run s = .ok (.projection p, s')) :
    (sequence ctx (source.bindAt ctx fuel root)).run s = .ok (p, s') :=
  yields.bind h (yields.pure _ _)

/-- A layer of the columns of a new shape. -/
theorem selectOver_run (shape : Expr) :
    (selectOver ctx (.select (l.above (Stack.tree t below))) [l.rel] shape).run s
      = .ok (Stack.projected t
        ⟨⟨s.supply.next⟩, (shape.split ctx.affinity [] ⟨s.supply.next⟩ [l.rel]).columns, none, [],
          none, none⟩ (l :: below)
        (shape.split ctx.affinity [] ⟨s.supply.next⟩ [l.rel]).projector,
        { s with supply := ⟨s.supply.next + 1⟩ }) :=
  rfl

/-- A layer with more clauses. -/
theorem layer_run {clauses : Select Expr → Select Expr} {filter : Option Expr}
    {orderBy : List (Order Expr)} {skip take : Option Nat}
    (h : ∀ columns, clauses ((Layer.mk ⟨s.supply.next⟩ columns none [] none none).above
        (Stack.tree t (l :: below)))
      = (Layer.mk ⟨s.supply.next⟩ columns filter orderBy skip take).above
        (Stack.tree t (l :: below))) :
    (layer ctx (Stack.projected t l below projector) clauses).run s
      = .ok (Stack.projected t
        ⟨⟨s.supply.next⟩, (projector.split ctx.affinity [] ⟨s.supply.next⟩ [l.rel]).columns, filter,
          orderBy, skip, take⟩ (l :: below)
        (projector.split ctx.affinity [] ⟨s.supply.next⟩ [l.rel]).projector,
        { s with supply := ⟨s.supply.next + 1⟩ }) := by
  refine yields.bind (selectOver_run projector) ?_
  simp only [Stack.projected, h]
  exact yields.pure _ _

/-- The keys that were waiting, bound one after another. -/
theorem pending_run (ctx : Context) (fuel : Nat) {offers : List String → Prop} (plain : Plain False P projector)
    (reaches : ∀ path, offers path → Reaches projector path)
    {bindBody : Lambda Expr → Binding Expr} (binds : ∀ k, bindBody k = k.body.bindAt ctx fuel false)
    {pending : List (Lambda Expr × Direction)}
    (keys : ∀ k ∈ pending, ∃ p ps body, k.1 = ⟨p :: ps, body⟩ ∧ Makes p offers body [])
    (s : BindState) :
    ∃ orders params, (pending.mapM fun ((k, direction) : Lambda Expr × Direction) => do
          return Order.mk direction (← apply "ThenBy" ⟨k.params, bindBody k⟩ projector)).run s
        = .ok (orders, { s with params }) ∧ ∀ o ∈ orders, Plain False P o.expr := by
  induction pending generalizing s with
  | nil => exact ⟨[], s.params, yields.pure _ _, by simp⟩
  | cons k rest ih =>
    obtain ⟨p, ps, body, hk, makes⟩ := keys k (by simp)
    obtain ⟨e, params, run, plainKey, -⟩ :=
      apply_run ctx fuel ps makes plain reaches "ThenBy" false s
    obtain ⟨orders, params', runs, plains⟩ := ih (fun k hk => keys k (by simp [hk])) { s with params }
    refine ⟨⟨k.2, e⟩ :: orders, params', ?_, ?_⟩
    · rw [List.mapM_cons]
      refine yields.bind (yields.bind ?_ (yields.pure _ _)) (yields.bind runs (yields.pure _ _))
      rw [binds, hk]
      exact run
    · intro o ho
      rcases List.mem_cons.mp ho with rfl | ho
      · exact plainKey
      · exact plains o ho

end Binding

/-- A chain is bound to a stack. -/
theorem Chain.bindAt_run (fuel : Nat) {q : Expr} {ordered : Bool} {offers : List String → Prop}
    (chain : Chain ctx.mapping ordered q offers) (ordinary : ctx.mapping.Ordinary) (root : Bool)
    {s : BindState} (unordered : ordered = false → s.pending = [])
    (keys : ∀ k ∈ s.pending, ∃ p ps body, k.1 = ⟨p :: ps, body⟩ ∧ Makes p offers body []) :
    ∃ t offered l below projector s', (q.bindAt ctx (fuel + 1) root).run s
        = .ok (.projection (Stack.projected t l below projector), s')
      ∧ Stack.Stacked t offered l below projector s'.supply offers ∧ s'.pending = [] := by
  induction chain generalizing s root with
  | @table name e resolved =>
    obtain ⟨t, offered, l, projector, supply', run, stacked⟩ :=
      Mapping.relation_stacked ordinary resolved s.supply
    refine ⟨t, offered, l, [], projector, { s with supply := supply' }, ?_, stacked, unordered rfl⟩
    rw [Expr.bindAt]
    exact yields.bind (minting_run run) (yields.pure _ _)
  | @filter _ source condition offers p ps _ makes ih =>
    have waiting : s.pending = [] := unordered rfl
    obtain ⟨t, offered, l, below, projector, s', run, stacked, pending⟩ :=
      ih (s := s) false (fun _ => waiting) (by simp [waiting])
    obtain ⟨test, params, apply, plain, -⟩ := apply_run ctx (fuel + 1) ps makes
      stacked.plain stacked.reaches "Where" false s'
    refine ⟨t, offered, _, l :: below, _,
      { s' with params, supply := ⟨s'.supply.next + 1⟩ }, ?_, stacked.push
      stacked.plain stacked.reaches (some test) [] none none ctx.affinity (by simpa using plain) (by simp), pending⟩
    rw [Expr.bindAt]
    exact yields.bind (yields.bind (sequence_run run) (yields.bind apply
      (layer_run (s := { s' with params }) fun _ => rfl))) (yields.pure _ _)
  | @map _ source shape offers p ps _ makes ih =>
    have waiting : s.pending = [] := unordered rfl
    obtain ⟨t, offered, l, below, projector, s', run, stacked, pending⟩ :=
      ih (s := s) false (fun _ => waiting) (by simp [waiting])
    obtain ⟨made, params, apply, plain, reaches⟩ := apply_run ctx (fuel + 1) ps makes
      stacked.plain stacked.reaches "Select" false s'
    refine ⟨t, offered, _, l :: below, _,
      { s' with params, supply := ⟨s'.supply.next + 1⟩ }, ?_, stacked.push
      plain reaches none [] none none ctx.affinity (by simp) (by simp), pending⟩
    rw [Expr.bindAt]
    exact yields.bind (yields.bind (sequence_run run) (yields.bind apply
      (selectOver_run (s := { s' with params }) made))) (yields.pure _ _)
  | @orderBy _ source key offers p ps direction _ makes ih =>
    obtain ⟨t, offered, l, below, projector, s', run, stacked, pending⟩ :=
      ih (s := { s with pending := [] }) false (fun _ => rfl) (by simp)
    obtain ⟨first, params, apply, plain, -⟩ := apply_run ctx (fuel + 1) ps makes
      stacked.plain stacked.reaches "OrderBy" false s'
    obtain ⟨others, params', applies, plains⟩ := pending_run ctx fuel
      stacked.plain stacked.reaches (fun _ => rfl) keys { s' with params }
    refine ⟨t, offered, _, l :: below, _,
      { s' with params := params', supply := ⟨s'.supply.next + 1⟩ }, ?_, stacked.push
      stacked.plain stacked.reaches none (⟨direction, first⟩ :: others) none none ctx.affinity
      (by simp) (by simpa using ⟨plain, plains⟩), pending⟩
    have taken : (modifyGet fun s => (s.pending, { s with pending := [] }) :
        Binding (List (Lambda Expr × Direction))).run s = .ok (s.pending, { s with pending := [] }) :=
      rfl
    rw [Expr.bindAt]
    exact yields.bind (yields.bind taken
      (yields.bind (sequence_run run) (yields.bind apply
      (yields.bind applies (layer_run (s := { s' with params := params' }) fun _ => rfl)))))
      (yields.pure _ _)
  | @thenBy source key offers p ps direction _ makes ih =>
    obtain ⟨t, offered, l, below, projector, s', run, stacked, pending⟩ :=
      ih (s := { s with pending := (⟨p :: ps, key⟩, direction) :: s.pending }) false (by simp) (by
        intro k hk
        rcases List.mem_cons.mp hk with rfl | hk
        · exact ⟨p, ps, key, rfl, makes⟩
        · exact keys k hk)
    refine ⟨t, offered, l, below, projector, s', ?_, stacked, pending⟩
    have postponed : (postpone ⟨p :: ps, key⟩ direction).run s
        = .ok ((), { s with pending := (⟨p :: ps, key⟩, direction) :: s.pending }) := rfl
    rw [Expr.bindAt]
    exact yields.bind postponed run
  | @skip _ source offers count _ ih =>
    have waiting : s.pending = [] := unordered rfl
    obtain ⟨t, offered, l, below, projector, s', run, stacked, pending⟩ :=
      ih (s := s) false (fun _ => waiting) (by simp [waiting])
    refine ⟨t, offered, _, l :: below, _,
      { s' with supply := ⟨s'.supply.next + 1⟩ }, ?_, stacked.push
      stacked.plain stacked.reaches none [] (some count) none ctx.affinity (by simp) (by simp), pending⟩
    rw [Expr.bindAt]
    exact yields.bind (bindAt_const _) (yields.bind (yields.bind (sequence_run run)
      (layer_run (s := s') fun _ => rfl)) (yields.pure _ _))
  | @take _ source offers count _ ih =>
    have waiting : s.pending = [] := unordered rfl
    obtain ⟨t, offered, l, below, projector, s', run, stacked, pending⟩ :=
      ih (s := s) false (fun _ => waiting) (by simp [waiting])
    refine ⟨t, offered, _, l :: below, _,
      { s' with supply := ⟨s'.supply.next + 1⟩ }, ?_, stacked.push
      stacked.plain stacked.reaches none [] none (some count) ctx.affinity (by simp) (by simp), pending⟩
    rw [Expr.bindAt]
    exact yields.bind (bindAt_const _) (yields.bind (yields.bind (sequence_run run)
      (layer_run (s := s') fun _ => rfl)) (yields.pure _ _))

end ObjectQuery
