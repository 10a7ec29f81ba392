import ObjectQuery.Eval.Client

/-!
The equations of the evaluator, one for each kind of node and each clause of a select, free of the
evidence that its recursion needs.
-/

namespace ObjectQuery

section Success

variable {ε α β : Type}

@[simp] theorem ok_bind (a : α) (f : α → Except ε β) : (.ok a >>= f : Except ε β) = f a := rfl

theorem bind_eq_ok {x : Except ε α} {f : α → Except ε β} {b : β} :
    (x >>= f) = .ok b ↔ ∃ a, x = .ok a ∧ f a = .ok b := by
  cases x with
  | error e => simp [bind, Except.bind]
  | ok a => simp [bind, Except.bind]

theorem mapM_eq_ok {f : α → Except ε β} {g : α → β} {l : List α} (h : ∀ a ∈ l, f a = .ok (g a)) :
    l.mapM f = .ok (l.map g) := by
  induction l with
  | nil => rfl
  | cons a rest ih =>
    rw [List.mapM_cons, h a (by simp), ih fun b hb => h b (by simp [hb])]
    rfl

theorem eq_map_of_mapM {f : α → Except ε β} {g : α → β} {l : List α} {l' : List β}
    (h : l.mapM f = .ok l') (hg : ∀ a ∈ l, ∀ b, f a = .ok b → g a = b) : l' = l.map g := by
  induction l generalizing l' with
  | nil =>
    cases h
    rfl
  | cons a rest ih =>
    rw [List.mapM_cons] at h
    obtain ⟨b, hb, h⟩ := bind_eq_ok.mp h
    obtain ⟨bs, hbs, h⟩ := bind_eq_ok.mp h
    cases h
    rw [List.map_cons, hg a (by simp) b hb, ih hbs fun a ha => hg a (by simp [ha])]

/-- What succeeds goes on to succeed when every step does. -/
theorem mapM_ok_of_ok {f g : α → Except ε β} {l : List α} {l' : List β}
    (h : ∀ a ∈ l, ∀ b, f a = .ok b → g a = .ok b) (hl : l.mapM f = .ok l') : l.mapM g = .ok l' := by
  induction l generalizing l' with
  | nil => exact hl
  | cons a rest ih =>
    rw [List.mapM_cons] at hl ⊢
    obtain ⟨b, hb, hl⟩ := bind_eq_ok.mp hl
    obtain ⟨bs, hbs, hl⟩ := bind_eq_ok.mp hl
    rw [h a (by simp) b hb, ok_bind, ih (fun a ha => h a (by simp [ha])) hbs]
    exact hl

theorem mapM_run_ok_of_ok {σ : Type} {f g : α → StateT σ (Except ε) β} {l : List α} {s : σ}
    {r : List β × σ}
    (h : ∀ a ∈ l, ∀ s r, (f a).run s = .ok r → (g a).run s = .ok r) (hl : (l.mapM f).run s = .ok r) :
    (l.mapM g).run s = .ok r := by
  induction l generalizing s r with
  | nil => exact hl
  | cons a rest ih =>
    rw [List.mapM_cons, StateT.run_bind] at hl ⊢
    obtain ⟨p, hp, hl⟩ := bind_eq_ok.mp hl
    rw [StateT.run_bind] at hl
    obtain ⟨q, hq, hl⟩ := bind_eq_ok.mp hl
    rw [h a (by simp) s p hp, ok_bind, StateT.run_bind, ih (fun a ha => h a (by simp [ha])) hq]
    exact hl

theorem ok_of_mapM {f : α → Except ε β} {l : List α} {l' : List β} (h : l.mapM f = .ok l') :
    ∀ a ∈ l, ∃ b, f a = .ok b := by
  induction l generalizing l' with
  | nil => simp
  | cons a rest ih =>
    rw [List.mapM_cons] at h
    obtain ⟨b, hb, h⟩ := bind_eq_ok.mp h
    obtain ⟨bs, hbs, -⟩ := bind_eq_ok.mp h
    rw [List.forall_mem_cons]
    exact ⟨⟨b, hb⟩, ih hbs⟩

theorem filterAuxM_eq_ok {p : α → Except ε Bool} {q : α → Bool} {l acc : List α}
    (h : ∀ a ∈ l, p a = .ok (q a)) :
    l.filterAuxM p acc = .ok ((l.filter q).reverse ++ acc) := by
  induction l generalizing acc with
  | nil => rfl
  | cons a rest ih =>
    rw [List.filterAuxM, h a (by simp)]
    refine (ih fun b hb => h b (by simp [hb])).trans ?_
    cases hq : q a <;> simp [hq]

theorem filterM_eq_ok {p : α → Except ε Bool} {q : α → Bool} {l : List α}
    (h : ∀ a ∈ l, p a = .ok (q a)) : l.filterM p = .ok (l.filter q) := by
  rw [List.filterM, filterAuxM_eq_ok h]
  simp [bind, Except.bind, pure, Except.pure]

theorem ok_of_filterAuxM {p : α → Except ε Bool} {l acc l' : List α}
    (h : l.filterAuxM p acc = .ok l') : ∀ a ∈ l, ∃ b, p a = .ok b := by
  induction l generalizing acc with
  | nil => simp
  | cons a rest ih =>
    rw [List.filterAuxM] at h
    obtain ⟨b, hb, h⟩ := bind_eq_ok.mp h
    rw [List.forall_mem_cons]
    exact ⟨⟨b, hb⟩, ih h⟩

theorem ok_of_filterM {p : α → Except ε Bool} {l l' : List α} (h : l.filterM p = .ok l') :
    ∀ a ∈ l, ∃ b, p a = .ok b := by
  obtain ⟨_, h, -⟩ := bind_eq_ok.mp h
  exact ok_of_filterAuxM h

theorem eq_filter_of_filterM {p : α → Except ε Bool} {q : α → Bool} {l l' : List α}
    (h : l.filterM p = .ok l') (hq : ∀ a ∈ l, ∀ b, p a = .ok b → q a = b) : l' = l.filter q := by
  have all : ∀ a ∈ l, p a = .ok (q a) := by
    intro a ha
    obtain ⟨b, hb⟩ := ok_of_filterM h a ha
    rw [hb, hq a ha b hb]
  rw [filterM_eq_ok all] at h
  exact (Except.ok.inj h).symm

/-- Items that were made from others are kept where those are. -/
theorem filterM_map {p : α → Except ε Bool} {g : β → α} {l : List β} {l' : List α}
    (h : (l.map g).filterM p = .ok l') : ∃ k, l.filterM (fun b => p (g b)) = .ok k ∧ l' = k.map g := by
  have known : ∀ b ∈ l, p (g b) = .ok ((p (g b)).toOption.getD false) := by
    intro b hb
    obtain ⟨c, hc⟩ := ok_of_filterM h (g b) (List.mem_map_of_mem hb)
    rw [hc]
    rfl
  refine ⟨_, filterM_eq_ok known, ?_⟩
  have filtered : l' = (l.map g).filter fun a => (p a).toOption.getD false := by
    refine eq_filter_of_filterM h fun a _ b hb => ?_
    rw [hb]
    rfl
  rw [filtered, List.filter_map]
  rfl

theorem exists_ok_of_any {x : Except ε α} {f : α → Bool} (h : x.toOption.any f = true) :
    ∃ a, x = .ok a ∧ f a = true := by
  cases x with
  | error e => cases h
  | ok a => exact ⟨a, rfl, h⟩

end Success

/-- Where no two names of a row are the same, each value is found by its name. -/
theorem Row.get?_of_mem {row : Row} (nodup : (row.map (·.1)).Nodup) {x : String × Value}
    (hx : x ∈ row) : row.get? x.1 = some x.2 := by
  induction row with
  | nil => cases hx
  | cons y rest ih =>
    rw [List.map_cons, List.nodup_cons] at nodup
    rw [Row.get?, List.lookup_cons]
    rcases List.mem_cons.mp hx with rfl | hx
    · simp
    · have other : x.1 ≠ y.1 := fun same => nodup.1 (same ▸ List.mem_map_of_mem hx)
      rw [beq_false_of_ne other]
      exact ih nodup.2 hx

def Expr.rowOrders? : Expr → Option (List (Order Expr))
  | .rowNumber orders => some orders
  | _ => none

namespace Eval

variable {tables : Tables} {scope env : Scope}

section Scalars

theorem scalar_call (function : String) (args : List Expr) :
    scalar tables (.call function args) scope
      = (do Value.call function (← args.mapM fun a => scalar tables a scope)) := by
  rw [scalar]
  simp

theorem scalar_construct (typeName : Option String) (fields : List (Field Expr)) :
    scalar tables (.construct typeName fields) scope
      = .error (.unsupported (Expr.construct typeName fields).summary) := by
  rw [scalar] <;> simp

theorem scalar_entity (name : String) (e : Expr) :
    scalar tables (.entity name e) scope = .error (.unsupported (Expr.entity name e).summary) := by
  rw [scalar] <;> simp

theorem scalar_member (e : Expr) (name : String) :
    scalar tables (.member e name) scope = .error (.unsupported (Expr.member e name).summary) := by
  rw [scalar] <;> simp

end Scalars

section Clauses

variable (s : Select Expr) (ev : Expr → Scope → Result Value)

theorem filtered_eq (frames : List Frame) :
    filtered s (fun e _ => ev e) env frames = (match s.filter with
      | none => .ok frames
      | some e => frames.filterM fun frame => do holds (← ev e (env.extend frame))) := by
  rw [filtered]
  cases s
  rename_i filter _ _ _ _ _ _
  cases filter <;> rfl

theorem scopes_eq (frames : List Frame) :
    scopes s (fun e _ => ev e) env frames =
      if !s.groupBy.isEmpty || s.hasAggregates then do
        let keyed ← frames.mapM fun frame => do
          return (← s.groupBy.mapM fun e => ev e (env.extend frame), frame)
        return groupScopes s env keyed
      else .ok (frames.map env.extend) := by
  simp [scopes]

theorem numbering?_map :
    (numbering? s).map (·.1) = s.columns.findSome? fun d => d.expr.rowOrders? := by
  have attached : s.columns.findSome? (fun d => d.expr.rowOrders?)
      = s.columns.attach.findSome? fun d => d.1.expr.rowOrders? := by
    have mapped := List.findSome?_map (f := fun d : { d // d ∈ s.columns } => d.1)
      (p := fun d : ColumnDecl Expr => d.expr.rowOrders?) (l := s.columns.attach)
    rw [List.attach_map_subtype_val] at mapped
    exact mapped
  rw [attached, numbering?, List.map_findSome?]
  congr 1
  funext ⟨⟨name, e, type⟩, hd⟩
  cases e <;> rfl

theorem numbered_eq (scopes : List Scope) :
    numbered s (fun e _ => ev e) scopes =
      (match s.columns.findSome? fun d => d.expr.rowOrders? with
      | none => .ok scopes
      | some orders => do
        let keyed ← scopes.mapM fun scope => do
          return (← orders.mapM fun o => ev o.expr scope, scope)
        return numberScopes (orders.map (·.direction)) keyed) := by
  rw [← numbering?_map, numbered]
  cases numbering? s with
  | none => rfl
  | some found => simp

theorem produce_eq :
    produce s (fun e _ => ev e) scope = (do
      let row ← s.columns.mapM fun c => do return (c.name, ← ev c.expr scope)
      let keys ← s.orderBy.mapM fun o => ev o.expr scope
      return { row, keys }) := by
  simp [produce]

theorem skipped_eq (rows : List Row) :
    skipped s (fun e _ => ev e) env rows = (match s.skip with
      | none => .ok rows
      | some e => do return rows.drop (← (← ev e env).asInt).toNat) := by
  rw [skipped]
  cases s
  rename_i skip _ _
  cases skip <;> rfl

theorem taken_eq (rows : List Row) :
    taken s (fun e _ => ev e) env rows = (match s.take with
      | none => .ok rows
      | some e => do return rows.take (← (← ev e env).asInt).toNat) := by
  rw [taken]
  cases s
  rename_i take _
  cases take <;> rfl

theorem select_eq :
    select tables s env = (do
      let frames ← (match s.source with
        | none => pure [[]]
        | some e => source tables e env)
      let frames ← filtered s (fun e _ => scalar tables e) env frames
      let scopes ← scopes s (fun e _ => scalar tables e) env frames
      let scopes ← numbered s (fun e _ => scalar tables e) scopes
      let produced ← scopes.mapM (produce s fun e _ => scalar tables e)
      let rows ← skipped s (fun e _ => scalar tables e) env (arrange s produced)
      taken s (fun e _ => scalar tables e) env rows) := by
  rw [select]
  cases s
  rename_i source _ _ _ _ _ _ _
  cases source <;> rfl

end Clauses

section Objects

theorem client_construct (typeName : Option String) (fields : List (Field Expr)) :
    client tables (.construct typeName fields) scope = (do
      let members ← fields.mapM fun f => do return (f.name, ← client tables f.expr scope)
      return .object typeName members) := by
  rw [client]
  simp

def isValue : Expr → Bool
  | .const _ | .column _ | .binary .. | .unary .. | .call .. | .isNull _ | .between .. | .inValues ..
  | .inSelect .. | .existsIn _ | .scalar _ | .aggregate .. | .groupAggregate .. | .rowNumber _ => true
  | _ => false

theorem client_value {e : Expr} (h : isValue e = true) :
    client tables e scope = (do return .ofValue (← scalar tables e scope)) := by
  cases e <;> simp only [isValue, Bool.false_eq_true] at h <;> rw [client] <;> simp

end Objects

end Eval

theorem Expr.execute_eq_ok {tables : Tables} {e : Expr} {v : ClientValue} :
    e.execute tables = .ok v ↔ (∀ c, e ≠ .command c) ∧
      ∃ joined, (Eval.client tables e .root).run [] = .ok (v, joined) := by
  have unfolds : (∀ c, e ≠ .command c) → e.execute tables
      = (Eval.client tables e .root).run [] >>= fun r => .ok r.1 := by
    intro h
    cases e with
    | command c => exact absurd rfl (h c)
    | _ => rfl
  refine ⟨fun h => ?_, fun ⟨noCommand, joined, run⟩ => ?_⟩
  · have noCommand : ∀ c, e ≠ .command c := by
      rintro c rfl
      cases h
    rw [unfolds noCommand] at h
    obtain ⟨r, run, h⟩ := bind_eq_ok.mp h
    exact ⟨noCommand, r.2, by rw [run, ← Except.ok.inj h]⟩
  · rw [unfolds noCommand, run]
    rfl

end ObjectQuery
