import ObjectQuery.Proofs.NumberedPages

/-!
Rows out of order that keys can put in order. The frames of one select are compared with others that
have more columns and stand in another order: sorted by what was gathered, they are the same. This
stays so under a filter, where more is sorted by, and where a select makes rows of the frames and cuts a
page: sorting by one ordering after another is sorting by both at once, and a page is cut from rows that
are in order already.
-/

namespace ObjectQuery

open Eval Orderings

def Part.Computes (R : Alias → Prop) : Part → Prop
  | .expr (.const v) => v.Exact
  | .expr (.column c) => R c.rel
  | .expr (.param _) | .expr (.binary _ _ _) | .expr (.unary _ _) | .expr (.cond _ _ _) | .expr (.call _ _)
  | .expr (.isNull _) | .expr (.between _ _ _) | .expr (.inValues _ _) => True
  | _ => False

namespace Part

variable {R : Alias → Prop} {p : Part}

theorem Computes.exact (h : p.Computes R) : p.Exact := by
  cases p with
  | expr e =>
    cases e with
    | const _ => exact h
    | operator _ | command _ => exact h.elim
    | _ => trivial
  | _ => trivial

theorem Computes.exprs (h : p.Computes R) : ∀ q ∈ p.parts, ∃ e, q = .expr e := by
  intro q hq
  cases p with
  | expr e =>
    cases e with
    | binary _ _ _ | unary _ _ | cond _ _ _ | call _ _ | isNull _ | between _ _ _ | inValues _ _ =>
      simp only [parts, List.mem_cons, List.mem_map, List.not_mem_nil, or_false] at hq
      grind
    | const _ | param _ | column _ => cases hq
    | _ => exact h.elim
  | _ => exact h.elim

theorem Every.unaggregated (h : p.Every (Computes R)) : p.aggregates = false := by
  induction h with
  | @node p here _ ih =>
    have head : p.isAggregate = false := by
      cases p with
      | expr e => cases e <;> first | rfl | exact here.elim
      | _ => rfl
    have below : p.parts.any aggregates = false := by
      rw [List.any_eq_false]
      exact fun q hq => by simp [ih q hq]
    rw [aggregates_eq, head, below]
    simp

/-- What is computed holds no select. -/
theorem Every.selects_eq (h : p.Every (Computes R)) : p.selects = [] := by
  induction h with
  | @node p here _ ih =>
    cases p with
    | expr e => exact gather_eq_nil rfl ih
    | _ => exact here.elim

end Part

/-- A value is computed alike where there is more to see. -/
theorem Eval.scalar_covers {tables : Tables} {R : Alias → Prop} {e : Expr}
    (h : (Part.expr e).Every (Part.Computes R)) {σ σ' : Scope}
    (covers : Frame.Covers (fun _ => True) σ.rows σ'.rows) :
    Follows Eq (scalar tables e σ) (scalar tables e σ') := by
  have all : ∀ p : Part, p.Every (Part.Computes R) → ∀ e, p = .expr e →
      Follows Eq (scalar tables e σ) (scalar tables e σ') := by
    intro p h
    induction h with
    | @node p here _ ih =>
      rintro e rfl
      by_cases column : ∃ c, e = .column c
      · obtain ⟨c, rfl⟩ := column
        exact Correspondence.covering_column trivial covers
      have shaped : e.Shaped (fun c c' => c = c' ∧ Part.expr c ∈ (Part.expr e).parts)
          (fun _ _ => False) (fun _ _ => False) e := by
        refine (Expr.Shaped.refl e).imp ?_ ?_ ?_
        · rintro c _ hc rfl
          exact ⟨rfl, hc⟩
        · rintro s _ hs rfl
          obtain ⟨c, hc⟩ := here.exprs _ hs
          cases hc
        · rintro q _ hq rfl
          obtain ⟨c, hc⟩ := here.exprs _ hq
          cases hc
      refine scalar_follows shaped (fun c hc => column ⟨c, hc⟩) ?_ (fun _ _ h => h.elim)
        (fun _ _ _ h => h.elim) ?_ ?_
      · rintro c _ ⟨rfl, hc⟩
        exact ih _ hc c rfl
      · rintro _ _ _ rfl
        exact here.elim
      · rintro _ rfl
        exact here.elim
  exact all _ h e rfl

namespace Select

theorem page_map {α β : Type} (g : α → β) (skip : Int) (take : Option Int) (items : List α) :
    page skip take (items.map g) = (page skip take items).map g := by
  cases take <;> simp [page, List.map_drop, List.map_take]

theorem page_sublist {α : Type} (skip : Int) (take : Option Int) (items : List α) :
    (page skip take items).Sublist items := by
  cases take with
  | none => exact List.drop_sublist _ _
  | some n => exact (List.take_sublist _ _).trans (List.drop_sublist _ _)

end Select

namespace Orderings

variable {tables : Tables} {env : Scope} {gathered : List (Order Expr)} {narrow : Frame → Frame}
  {wide frames : List Frame} {R : Alias → Prop}

/-- A column is read by its relation and its name, whatever its type. -/
theorem valueIn_column (c : Column) (f : Frame) :
    valueIn tables env (.column c) f = valueIn tables env (.column ⟨c.rel, c.name, .unknown⟩) f := by
  simp only [valueIn, scalar]
  rfl

/-- Orderings in front decide first. -/
theorem byKeys_valueIn (first gathered : List (Order Expr)) (f g : Frame) :
    byKeys (keysBy (valueIn tables env) (inFront first gathered)) f g
      = (byKeys (keysBy (valueIn tables env) first) f g).then (byKeys (keysBy (valueIn tables env) gathered) f g) :=
  keysBy_inFront (fun k => valueIn tables env (.column ⟨k.1, k.2, .unknown⟩)) fun o _ c hc => by
    rw [hc]
    exact ⟨valueIn_column c f, valueIn_column c g⟩

abbrev sorted (tables : Tables) (env : Scope) (orders : List (Order Expr)) (frames : List Frame) : List Frame :=
  sortWith (byKeys (keysBy (valueIn tables env) orders)) frames

structure Straightens (tables : Tables) (env : Scope) (gathered : List (Order Expr))
    (narrow : Frame → Frame) (wide frames : List Frame) : Prop where
  frames : frames = (sorted tables env gathered wide).map narrow
  covers : ∀ f ∈ wide, Frame.Covers (fun _ => True) f (narrow f)
  known : ∀ o ∈ gathered, ∀ f ∈ wide, scalar tables o.expr (env.extend f) = .ok (valueIn tables env o.expr f)
  typed : ∀ o ∈ gathered, ∃ type : KeyType, ∀ f ∈ wide, type.admits (valueIn tables env o.expr f)

namespace Straightens

theorem refl (frames : List Frame) : Straightens tables env [] id frames frames where
  frames := by
    rw [List.map_id]
    exact (sortWith_eq_self_of_tied fun _ _ _ _ => rfl).symm
  covers := fun f _ => Frame.Covers.refl f
  known := by simp
  typed := by simp

theorem narrow_mem (h : Straightens tables env gathered narrow wide frames) {f : Frame} (hf : f ∈ wide) :
    narrow f ∈ frames := by
  rw [h.frames]
  exact List.mem_map_of_mem (mem_sortWith.mpr hf)

/-- What is computed from the others is computed from the wide frames. -/
theorem scalar_eq (h : Straightens tables env gathered narrow wide frames) {e : Expr}
    (computed : (Part.expr e).Every (Part.Computes R)) {f : Frame} (hf : f ∈ wide) {v : Value}
    (hv : scalar tables e (env.extend (narrow f)) = .ok v) : scalar tables e (env.extend f) = .ok v :=
  (scalar_covers computed (List.rel_append (List.rel_reverse (h.covers f hf)) (Frame.Covers.refl _))).eq_ok hv

theorem valueIn_eq (h : Straightens tables env gathered narrow wide frames) {e : Expr}
    (computed : (Part.expr e).Every (Part.Computes R)) {f : Frame} (hf : f ∈ wide)
    (known : scalar tables e (env.extend (narrow f)) = .ok (valueIn tables env e (narrow f))) :
    scalar tables e (env.extend f) = .ok (valueIn tables env e f)
      ∧ valueIn tables env e f = valueIn tables env e (narrow f) := by
  have same := h.scalar_eq computed hf known
  have value : valueIn tables env e f = valueIn tables env e (narrow f) := by
    rw [valueIn, same]
    rfl
  exact ⟨value ▸ same, value⟩

theorem filter (h : Straightens tables env gathered narrow wide frames) {keep keep' : Frame → Bool}
    (same : ∀ f ∈ wide, keep' f = keep (narrow f)) :
    Straightens tables env gathered narrow (wide.filter keep') (frames.filter keep) where
  frames := by
    rw [h.frames, List.filter_map, sorted, sorted, sortWith_filter]
    congr 1
    exact List.filter_congr fun f hf => (same f (mem_sortWith.mp hf)).symm
  covers := fun f hf => h.covers f (List.mem_of_mem_filter hf)
  known := fun o ho f hf => h.known o ho f (List.mem_of_mem_filter hf)
  typed := fun o ho => (h.typed o ho).imp fun _ admits f hf => admits f (List.mem_of_mem_filter hf)

theorem filtered (h : Straightens tables env gathered narrow wide frames) {s : Select Expr}
    (computed : ∀ e, s.filter = some e → (Part.expr e).Every (Part.Computes R)) {kept : List Frame}
    (hkept : filtered s (fun e _ => scalar tables e) env frames = .ok kept) :
    ∃ kept', Eval.filtered s (fun e _ => scalar tables e) env wide = .ok kept'
      ∧ Straightens tables env gathered narrow kept' kept := by
  rw [filtered_eq] at hkept ⊢
  cases hfilter : s.filter with
  | none =>
    rw [hfilter] at hkept
    cases hkept
    exact ⟨wide, rfl, h⟩
  | some e =>
    rw [hfilter] at hkept
    let passes (f : Frame) : Result Bool := do holds (← scalar tables e (env.extend f))
    let keep (f : Frame) : Bool := (passes f).toOption.getD false
    have kept_eq : kept = frames.filter keep := eq_filter_of_filterM hkept fun f _ b hb => by
      have hb : passes f = .ok b := hb
      simp only [keep, hb]
      rfl
    have same : ∀ f ∈ wide, passes f = .ok (keep (narrow f)) := by
      intro f hf
      obtain ⟨b, hb⟩ := ok_of_filterM hkept _ (h.narrow_mem hf)
      have hb' : passes (narrow f) = .ok b := hb
      obtain ⟨v, hv, holding⟩ := bind_eq_ok.mp hb
      have value : keep (narrow f) = b := by
        simp only [keep, hb']
        rfl
      rw [value]
      exact bind_eq_ok.mpr ⟨v, h.scalar_eq (computed e hfilter) hf hv, holding⟩
    refine ⟨wide.filter fun f => keep (narrow f), filterM_eq_ok same, ?_⟩
    rw [kept_eq]
    exact h.filter fun _ _ => rfl

/-- With the orderings of a select in front, what was gathered puts the frames in the order that the
select gives them. -/
theorem inFront (h : Straightens tables env gathered narrow wide frames) {orders : List (Order Expr)}
    (computed : ∀ o ∈ orders, (Part.expr o.expr).Every (Part.Computes R))
    (known : ∀ o ∈ orders, ∀ f ∈ frames, scalar tables o.expr (env.extend f) = .ok (valueIn tables env o.expr f))
    (typed : ∀ o ∈ orders, ∃ type : KeyType, ∀ f ∈ frames, type.admits (valueIn tables env o.expr f)) :
    Straightens tables env (inFront orders gathered) narrow wide
      (sorted tables env orders frames) := by
  have value : ∀ o ∈ orders, ∀ f ∈ wide, scalar tables o.expr (env.extend f) = .ok (valueIn tables env o.expr f)
      ∧ valueIn tables env o.expr f = valueIn tables env o.expr (narrow f) := fun o ho f hf =>
    h.valueIn_eq (computed o ho) hf (known o ho _ (h.narrow_mem hf))
  have own : ∀ f ∈ wide, ∀ g ∈ wide, byKeys (keysBy (valueIn tables env) orders) (narrow f) (narrow g)
      = byKeys (keysBy (valueIn tables env) orders) f g := by
    intro f hf g hg
    refine byKeys_congr (List.forall₂_same.mpr fun k hk => ?_)
    obtain ⟨o, ho, rfl⟩ := List.mem_map.mp hk
    exact ⟨rfl, (value o ho f hf).2.symm, (value o ho g hg).2.symm⟩
  refine ⟨?_, h.covers, fun o ho f hf => ?_, fun o ho => ?_⟩
  · have again : ∀ fs : List Frame, (∀ f ∈ fs, f ∈ wide) →
        sortWith (fun f g => byKeys (keysBy (valueIn tables env) orders) (narrow f) (narrow g)) fs
          = sorted tables env orders fs := fun fs sub =>
      sortWith_congr fun f hf g hg => own f (sub f hf) g (sub g hg)
    rw [h.frames, sorted, sorted, sortWith_map, again _ fun f hf => mem_sortWith.mp hf, sorted,
      sortWith_sortWith]
    exact congrArg _ (sortWith_congr fun f _ g _ => (byKeys_valueIn orders gathered f g).symm)
  · rcases List.mem_append.mp (mem_of_mem_inFront ho) with ho | ho
    · exact (value o ho f hf).1
    · exact h.known o ho f hf
  · rcases List.mem_append.mp (mem_of_mem_inFront ho) with ho | ho
    · obtain ⟨type, admits⟩ := typed o ho
      exact ⟨type, fun f hf => (value o ho f hf).2 ▸ admits _ (h.narrow_mem hf)⟩
    · exact h.typed o ho

end Straightens

def rowFrame (rel : Alias) (row : Row) : Frame := [(rel, some row)]

def firstColumns (n : Nat) (f : Frame) : Frame := f.map fun x => (x.1, x.2.map fun row => row.take n)

theorem covers_firstColumns (n : Nat) (f : Frame) : Frame.Covers (fun _ => True) f (firstColumns n f) := by
  refine List.forall₂_map_right_iff.mpr (List.forall₂_same.mpr fun x _ => ⟨rfl, ?_⟩)
  obtain ⟨rel, row⟩ := x
  cases row with
  | none => exact .none
  | some row =>
    refine .some fun c _ _ v hv => ?_
    rw [Row.get?, ← List.take_append_drop n row, List.lookup_append]
    have hv : (row.take n).lookup c.name = some v := hv
    rw [hv]
    rfl

section Passing

variable {rel : Alias} {columns extra : List (ColumnDecl Expr)} {given : List (Order Expr)}

/-- A passed ordering reads from a row the key that the column was computed from. -/
theorem valueIn_passed (nodup : (columns.map (·.name)).Nodup) {d : ColumnDecl Expr} (hd : d ∈ columns)
    (type : ColumnType) (f : Frame) :
    scalar tables (.column ⟨rel, d.name, type⟩) (env.extend (rowFrame rel (rowIn tables env columns f)))
      = .ok (valueIn tables env d.expr f) := by
  have found : (rowIn tables env columns f).get? d.name = some (valueIn tables env d.expr f) :=
    get?_rowIn nodup f hd
  simp only [scalar, Scope.column, Scope.extend, rowFrame, List.reverse_singleton, List.singleton_append,
    List.lookup_cons, beq_self_eq_true, found]

theorem ReadFrom.value (tables : Tables) (env : Scope) (reads : ReadFrom rel columns given gathered)
    (nodup : (columns.map (·.name)).Nodup) :
    List.Forall₂ (fun p o => p.direction = o.direction ∧ ∀ f,
      scalar tables p.expr (env.extend (rowFrame rel (rowIn tables env columns f)))
        = .ok (valueIn tables env o.expr f)) given gathered := by
  refine reads.imp fun p o h => ?_
  obtain ⟨direction, d, hd, type, expr, target⟩ := h
  exact ⟨direction, fun f => target ▸ expr ▸ valueIn_passed nodup hd type f⟩

/-- Rows with more columns, in whatever order, are put in order by what is passed on. -/
theorem Straightens.pass (h : Straightens tables env gathered narrow wide frames)
    (nodup : ((columns ++ extra).map (·.name)).Nodup) (reads : ReadFrom rel (columns ++ extra) given gathered)
    (same : ∀ f ∈ wide, ∀ d ∈ columns, valueIn tables env d.expr f = valueIn tables env d.expr (narrow f))
    {items : List Frame} (sub : ∀ f ∈ items, f ∈ wide) {skip : Int} {take : Option Int}
    (paged : sorted tables env gathered items
      = Select.page skip take (sorted tables env gathered wide)) :
    Straightens tables env (Orderings.inFront given []) (firstColumns columns.length)
      ((items.map (rowIn tables env (columns ++ extra))).map (rowFrame rel))
      ((Select.page skip take (frames.map (rowIn tables env columns))).map (rowFrame rel)) := by
  have value := reads.value tables env nodup
  have given_iff : ∀ p ∈ Orderings.inFront given [], p ∈ given := fun p hp => by
    simpa using mem_of_mem_inFront hp
  have order : ∀ f g, byKeys (keysBy (valueIn tables env) (Orderings.inFront given []))
        (rowFrame rel (rowIn tables env (columns ++ extra) f)) (rowFrame rel (rowIn tables env (columns ++ extra) g))
      = byKeys (keysBy (valueIn tables env) gathered) f g := by
    intro f g
    rw [byKeys_valueIn]
    have last : ∀ x : Ordering, x.then (byKeys (keysBy (valueIn tables env) [])
        (rowFrame rel (rowIn tables env (columns ++ extra) f))
        (rowFrame rel (rowIn tables env (columns ++ extra) g))) = x := fun x => by cases x <;> rfl
    rw [last]
    refine byKeys_congr (List.forall₂_map_left_iff.mpr (List.forall₂_map_right_iff.mpr (value.imp ?_)))
    rintro p o ⟨direction, reads⟩
    refine ⟨direction, ?_, ?_⟩ <;> simp only [valueIn, reads] <;> rfl
  have first : ∀ f, firstColumns columns.length (rowFrame rel (rowIn tables env (columns ++ extra) f))
      = rowFrame rel (rowIn tables env columns f) := by
    intro f
    simp [firstColumns, rowFrame, rowIn]
  have again : sorted tables env (Orderings.inFront given [])
        ((items.map (rowIn tables env (columns ++ extra))).map (rowFrame rel))
      = ((Select.page skip take (sorted tables env gathered wide)).map
          (rowIn tables env (columns ++ extra))).map (rowFrame rel) := by
    rw [sorted, sortWith_map, sortWith_map, sortWith_congr fun f _ g _ => order f g, ← paged]
  refine ⟨?_, ?_, ?_, ?_⟩
  · rw [h.frames, again]
    simp only [Select.page_map, List.map_map]
    refine List.map_congr_left fun f hf => ?_
    have hf : f ∈ wide := mem_sortWith.mp ((Select.page_sublist _ _ _).mem hf)
    have row : rowIn tables env columns (narrow f) = rowIn tables env columns f :=
      List.map_congr_left fun d hd => by rw [same f hf d hd]
    simp only [Function.comp_apply, first, row]
  · intro f _
    exact covers_firstColumns _ f
  · intro p hp f hf
    obtain ⟨row, hrow, rfl⟩ := List.mem_map.mp hf
    obtain ⟨g, -, rfl⟩ := List.mem_map.mp hrow
    obtain ⟨o, -, -, read⟩ := exists_of_forall₂_right value.flip p (given_iff p hp)
    exact scalar_eq_valueIn (read g)
  · intro p hp
    obtain ⟨o, ho, -, read⟩ := exists_of_forall₂_right value.flip p (given_iff p hp)
    obtain ⟨type, admits⟩ := h.typed o ho
    refine ⟨type, fun f hf => ?_⟩
    obtain ⟨row, hrow, rfl⟩ := List.mem_map.mp hf
    obtain ⟨g, hg, rfl⟩ := List.mem_map.mp hrow
    rw [valueIn, read g]
    exact admits g (sub g hg)

end Passing

end Orderings

end ObjectQuery
