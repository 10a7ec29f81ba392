import ObjectQuery.Proofs.StackSimulation
import ObjectQuery.Proofs.StackWalk

/-!
Columns that are dropped from a stack: those that nobody reads, and those that compute what another
column of the layer computes. What is left tracks the stack, and carries every column that is read.
-/

namespace ObjectQuery

open Eval

namespace UsedColumns

def growing : Yields Walk State where
  gives s x a s' := x.run s = (a, s') ∧ s'.keepAll = s.keepAll ∧ s.used ⊆ s'.used
  pure _ _ := ⟨rfl, rfl, List.Subset.refl _⟩
  bind := by
    rintro α β s s' s'' x f a b ⟨hx, kx, ux⟩ ⟨hf, kf, uf⟩
    refine ⟨?_, kf.trans kx, List.Subset.trans ux uf⟩
    rw [StateT.run_bind, hx]
    exact hf

variable {α β : Type}

/-- What is noted on the way stays noted. -/
theorem mapM_growing {l : List α} {act : α → Walk β} {f : α → β} {Q : α → State → Prop}
    (h : ∀ a ∈ l, ∀ s, ∃ s', growing.gives s (act a) (f a) s' ∧ Q a s')
    (mono : ∀ {a s s'}, Q a s → s.used ⊆ s'.used → Q a s') (s : State) :
    ∃ s', growing.gives s (l.mapM act) (l.map f) s' ∧ ∀ a ∈ l, Q a s' := by
  induction l generalizing s with
  | nil => exact ⟨s, growing.pure _ _, by simp⟩
  | cons a rest ih =>
    obtain ⟨s₁, h₁, q₁⟩ := h a (by simp) s
    obtain ⟨s₂, h₂, q₂⟩ := ih (fun b hb => h b (by simp [hb])) s₁
    refine ⟨s₂, ?_, ?_⟩
    · rw [List.mapM_cons]
      exact growing.bind h₁ (growing.bind h₂ (growing.pure _ _))
    · rw [List.forall_mem_cons]
      exact ⟨mono q₁ h₂.2.2, q₂⟩

def State.reads (s : State) (c : Column) : Prop := (c.rel, c.name) ∈ s.used

end UsedColumns

open UsedColumns in
theorem Plain.keepUsed_gives {members : Prop} {P : Column → Prop} {e : Expr}
    (h : Plain members P e) (s : State) :
    ∃ s', growing.gives s e.keepUsed e s' ∧ Plain members (fun c => P c ∧ s'.reads c) e := by
  have later : ∀ {e : Expr} {s s' : State}, Plain members (fun c => P c ∧ s.reads c) e →
      s.used ⊆ s'.used → Plain members (fun c => P c ∧ s'.reads c) e :=
    fun h sub => h.mono id fun c hc => ⟨hc.1, sub hc.2⟩
  induction h generalizing s with
  | const hv =>
    refine ⟨s, ?_, .const hv⟩
    rw [Expr.keepUsed] <;> first | exact growing.pure _ _ | simp
  | @column c hc =>
    refine ⟨{ s with used := (c.rel, c.name) :: s.used }, ?_, .column ⟨hc, List.mem_cons_self⟩⟩
    rw [Expr.keepUsed]
    · exact ⟨rfl, rfl, List.subset_cons_self _ _⟩
    all_goals simp
  | binary _ _ hl hr =>
    obtain ⟨s₁, h₁, p₁⟩ := hl s
    obtain ⟨s₂, h₂, p₂⟩ := hr s₁
    refine ⟨s₂, ?_, .binary (later p₁ h₂.2.2) p₂⟩
    rw [Expr.keepUsed]
    · exact growing.bind (growing.pure _ _) (growing.bind h₁ (growing.bind h₂ (growing.pure _ _)))
    all_goals simp
  | unary _ h =>
    obtain ⟨s₁, h₁, p₁⟩ := h s
    refine ⟨s₁, ?_, .unary p₁⟩
    rw [Expr.keepUsed]
    · exact growing.bind (growing.pure _ _) (growing.bind h₁ (growing.pure _ _))
    all_goals simp
  | entity _ h =>
    obtain ⟨s₁, h₁, p₁⟩ := h s
    refine ⟨s₁, ?_, .entity p₁⟩
    rw [Expr.keepUsed]
    · exact growing.bind (growing.pure _ _) (growing.bind h₁ (growing.pure _ _))
    all_goals simp
  | isNull _ h =>
    obtain ⟨s₁, h₁, p₁⟩ := h s
    refine ⟨s₁, ?_, .isNull p₁⟩
    rw [Expr.keepUsed]
    · exact growing.bind (growing.pure _ _) (growing.bind h₁ (growing.pure _ _))
    all_goals simp
  | member open_ _ h =>
    obtain ⟨s₁, h₁, p₁⟩ := h s
    refine ⟨s₁, ?_, .member open_ p₁⟩
    rw [Expr.keepUsed]
    · exact growing.bind (growing.pure _ _) (growing.bind h₁ (growing.pure _ _))
    all_goals simp
  | cond _ _ _ ht hl hr =>
    obtain ⟨s₁, h₁, p₁⟩ := ht s
    obtain ⟨s₂, h₂, p₂⟩ := hl s₁
    obtain ⟨s₃, h₃, p₃⟩ := hr s₂
    refine ⟨s₃, ?_, .cond (later (later p₁ h₂.2.2) h₃.2.2) (later p₂ h₃.2.2) p₃⟩
    rw [Expr.keepUsed]
    · exact growing.bind (growing.pure _ _)
        (growing.bind h₁ (growing.bind h₂ (growing.bind h₃ (growing.pure _ _))))
    all_goals simp
  | call _ h =>
    obtain ⟨s₁, h₁, p₁⟩ := mapM_growing h later s
    rw [List.map_id'] at h₁
    refine ⟨s₁, ?_, .call p₁⟩
    rw [Expr.keepUsed]
    · simp only [Expr.traverse, List.mapM_subtype, List.unattach_attach]
      exact growing.bind (growing.pure _ _) (growing.bind h₁ (growing.pure _ _))
    all_goals simp
  | @construct typeName fields _ h =>
    have each : ∀ f ∈ fields, ∀ s, ∃ s', growing.gives s (do
        return { f with expr := ← f.expr.keepUsed }) f s'
        ∧ Plain members (fun c => P c ∧ s'.reads c) f.expr := by
      intro f hf s
      obtain ⟨s₁, h₁, p₁⟩ := h f hf s
      exact ⟨s₁, growing.bind h₁ (growing.pure _ _), p₁⟩
    obtain ⟨s₁, h₁, p₁⟩ := mapM_growing each later s
    rw [List.map_id'] at h₁
    refine ⟨s₁, ?_, .construct p₁⟩
    rw [Expr.keepUsed]
    · simp only [Expr.traverse, List.mapM_subtype, List.unattach_attach]
      exact growing.bind (growing.pure _ _) (growing.bind h₁ (growing.pure _ _))
    all_goals simp

namespace Layer

def keep (l : Layer) (kept : String → Bool) : Layer :=
  { l with columns := l.columns.filter fun d => kept d.name }

end Layer

open UsedColumns in
/-- A layer keeps the columns that were read before, and notes what its clauses read before it goes
on to its source. -/
theorem Layer.keepUsed_run {tables : Tables} {M : Meaning tables} {P : Column → Prop} {l : Layer}
    (fits : l.Fits M.toGrammar P) (source : Expr) (s : State) (all : s.keepAll = false) :
    ∃ s₁ : State, s₁.keepAll = false ∧
      (∀ e ∈ (l.keep fun n => s.used.contains (l.rel, n)).exprs,
        Plain M.members (fun c => P c ∧ s₁.reads c) e) ∧
      ∀ source' s₂, source.keepUsed.run s₁ = (source', s₂) →
        ∃ s', (l.above source).keepUsed.run s
          = ((l.keep fun n => s.used.contains (l.rel, n)).above source', s') := by
  have later : ∀ {e : Expr} {s s' : State}, Plain M.members (fun c => P c ∧ s.reads c) e →
      s.used ⊆ s'.used → Plain M.members (fun c => P c ∧ s'.reads c) e :=
    fun h sub => h.mono id fun c hc => ⟨hc.1, sub hc.2⟩
  have count : ∀ (o : Option Nat) (s : State),
      growing.gives s ((o.map count).mapM Expr.keepUsed) (o.map count) s := by
    intro o s
    cases o with
    | none => exact growing.pure _ _
    | some n =>
      refine growing.map some ?_
      rw [count, Expr.int, Expr.keepUsed] <;> first | exact growing.pure _ _ | simp
  have onColumn : ∀ d ∈ (l.keep fun n => s.used.contains (l.rel, n)).columns, ∀ s, ∃ s',
      growing.gives s (do return { d with expr := ← d.expr.keepUsed }) d s'
        ∧ Plain M.members (fun c => P c ∧ s'.reads c) d.expr := by
    intro d hd s
    obtain ⟨s₁, h₁, p₁⟩ := (fits.column (List.mem_of_mem_filter hd)).keepUsed_gives s
    exact ⟨s₁, growing.bind h₁ (growing.pure _ _), p₁⟩
  have onOrder : ∀ o ∈ l.orderBy, ∀ s, ∃ s',
      growing.gives s (do return { o with expr := ← o.expr.keepUsed }) o s'
        ∧ Plain M.members (fun c => P c ∧ s'.reads c) o.expr := by
    intro o ho s
    obtain ⟨s₁, h₁, p₁⟩ := (fits.order ho).keepUsed_gives s
    exact ⟨s₁, growing.bind h₁ (growing.pure _ _), p₁⟩
  have onFilter : ∀ s, ∃ s', growing.gives s (l.filter.mapM Expr.keepUsed) l.filter s'
      ∧ ∀ e ∈ l.filter, Plain M.members (fun c => P c ∧ s'.reads c) e := by
    intro s
    cases hf : l.filter with
    | none => exact ⟨s, growing.pure _ _, by simp⟩
    | some e =>
      obtain ⟨s₁, h₁, p₁⟩ := (fits.filter hf).keepUsed_gives s
      exact ⟨s₁, growing.map some h₁, by simpa using p₁⟩
  obtain ⟨s₁, h₁, p₁⟩ := mapM_growing onColumn later s
  obtain ⟨s₂, h₂, p₂⟩ := mapM_growing onOrder later s₁
  obtain ⟨s₃, h₃, p₃⟩ := onFilter s₂
  rw [List.map_id'] at h₁ h₂
  refine ⟨s₃, ?_, ?_, fun source' s₄ hsource => ?_⟩
  · rw [h₃.2.1, h₂.2.1, h₁.2.1, all]
  · intro e he
    simp only [exprs, List.mem_append, List.mem_map, Option.mem_toList] at he
    rcases he with (⟨d, hd, rfl⟩ | he) | ⟨o, ho, rfl⟩
    · exact later (later (p₁ d hd) h₂.2.2) h₃.2.2
    · exact p₃ e he
    · exact later (p₂ o ho) h₃.2.2
  · let Y := Yields.ofState State
    have start : Y.gives s (modifyGet fun state : State =>
        (state, { state with keepAll := false })) s s := by
      obtain ⟨used, keepAll⟩ := s
      cases all
      rfl
    have finish : Y.gives s₄ (modify fun state : State =>
        { used := state.used.filter (·.1 ≠ l.rel), keepAll := s.keepAll }) ⟨⟩
        { used := s₄.used.filter (·.1 ≠ l.rel), keepAll := s.keepAll } := rfl
    have columns : l.columns.filter (keeps s (l.above source))
        = (l.keep fun n => s.used.contains (l.rel, n)).columns :=
      List.filter_congr fun d _ => by simp [keeps, all, above]
    rw [Select.keepUsed]
    simp only [optionMapM_attach, List.mapM_subtype, List.unattach_attach, List.unattach_filter]
    refine ⟨_, Y.bind start (?_ : Y.gives s _ _ { used := s₄.used.filter (·.1 ≠ l.rel), keepAll := s.keepAll })⟩
    rw [show (l.above source).columns = l.columns from rfl, columns]
    refine Y.bind h₁.1 (Y.bind (count l.take s₁).1 (Y.bind (count l.skip s₁).1 ?_))
    refine Y.bind (Y.pure _ _) (Y.bind h₂.1 (Y.bind h₃.1 ?_))
    exact Y.bind (Y.map some hsource) (Y.bind finish (Y.pure _ _))

namespace Stack

open UsedColumns

variable {tables : Tables} {M : Meaning tables} {t : Table} {offered : List String}
  {base : List Row} {l : Layer} {below : Stack}

theorem keep_standsIn (full : ∀ row ∈ base, Full offered row) {below' : Stack} {s s₁ : State}
    (sound : Sound M.toGrammar t offered (l :: below))
    (plain : ∀ e ∈ (l.keep fun n => s.used.contains (l.rel, n)).exprs,
      Plain M.members (fun c => Sees t offered below c ∧ s₁.reads c) e)
    (h : StandsIn M t offered base below below'
      (fun c => Sees t offered below c ∧ s₁.reads c) .column) :
    StandsIn M t offered base (l :: below) ((l.keep fun n => s.used.contains (l.rel, n)) :: below')
      (fun c => Sees t offered (l :: below) c ∧ s.reads c) .column := by
  have self := Layer.mapExprs_self fun e he => (plain e he).replace_self
  have column : ∀ d ∈ (l.keep fun n => s.used.contains (l.rel, n)).columns,
      d ∈ l.columns ∧ Plain M.members (fun c => Sees t offered below c ∧ s₁.reads c) d.expr
        ∧ d.expr = d.expr.replace .column := fun d hd =>
    have plain := plain _ (Layer.mem_exprs_of_column hd)
    ⟨List.mem_of_mem_filter hd, plain, plain.replace_self.symm⟩
  refine h.cons full sound.2.1 sound.1 rfl (fun e he => plain e (Layer.mem_exprs_of_filter he))
    (fun o ho => plain _ (Layer.mem_exprs_of_order ho)) (congrArg Layer.filter self).symm
    (congrArg Layer.orderBy self).symm rfl rfl
    (sound.2.1.nodup.sublist (List.filter_sublist.map _)) (fun d hd => ⟨d, (column d hd).1, rfl, (column d hd).2⟩) ?_
  rintro c ⟨⟨rel, name⟩, reads⟩
  obtain ⟨d, hd, hn⟩ := List.mem_map.mp name
  have kept : d ∈ (l.keep fun n => s.used.contains (l.rel, n)).columns := by
    refine List.mem_filter.mpr ⟨hd, ?_⟩
    simpa [hn, ← (show c.rel = l.rel from rel), State.reads] using reads
  refine ⟨d, hd, d, kept, c.type, rel, hn.symm, (column d kept).2.1, (column d kept).2.2, ?_⟩
  rw [hn, show (l.keep _).rel = c.rel from rel.symm]

theorem keepUsed_tree (full : ∀ row ∈ base, Full offered row) {stack : Stack}
    (sound : Sound M.toGrammar t offered stack) (s : State) (all : s.keepAll = false) :
    ∃ stack' s', (tree t stack).keepUsed.run s = (tree t stack', s')
      ∧ StandsIn M t offered base stack stack' (fun c => Sees t offered stack c ∧ s.reads c) .column := by
  induction stack generalizing s with
  | nil =>
    refine ⟨[], s, ?_, (StandsIn.refl base sound).mono fun _ hc => hc.1⟩
    rw [tree, Expr.keepUsed] <;> first | rfl | simp
  | cons l below ih =>
    obtain ⟨s₁, all₁, plain, run⟩ := Layer.keepUsed_run sound.2.1 (tree t below) s all
    obtain ⟨below', s₂, hbelow, stands⟩ := ih sound.2.2 s₁ all₁
    obtain ⟨s', hrun⟩ := run _ _ hbelow
    refine ⟨_ :: below', s', ?_, keep_standsIn full sound plain stands⟩
    rw [tree, Expr.keepUsed]
    · exact (Yields.ofState State).bind ((Yields.ofState State).pure _ _)
        ((Yields.ofState State).bind hrun ((Yields.ofState State).pure _ _))
    all_goals simp

/-- A projection without its unused columns makes the same objects. -/
theorem dropUnusedColumns_agrees (full : ∀ row ∈ base, Full offered row) {projector : Expr}
    (sound : Sound M.toGrammar t offered (l :: below))
    (plain : Plain M.members (Sees t offered (l :: below)) projector) :
    ∃ l' below', (Expr.projection (projected t l below projector)).dropUnusedColumns
        = .projection (projected t l' below' projector)
      ∧ Agrees M t offered base (l :: below) projector (l' :: below') projector := by
  let Y := Yields.ofState State
  obtain ⟨s₁, h₁, plain₁⟩ := plain.keepUsed_gives ⟨[], false⟩
  obtain ⟨s₂, all₂, plain₂, run⟩ := Layer.keepUsed_run sound.2.1 (tree t below) s₁ h₁.2.1
  obtain ⟨below', s₃, hbelow, stands⟩ := keepUsed_tree full sound.2.2 s₂ all₂
  obtain ⟨s₄, hrun⟩ := run _ _ hbelow
  refine ⟨l.keep fun n => s₁.used.contains (l.rel, n), below', ?_, ?_⟩
  · have walk : Y.gives ⟨[], false⟩ (Expr.projection (projected t l below projector)).keepUsed
        (.projection (projected t (l.keep fun n => s₁.used.contains (l.rel, n)) below' projector))
        s₄ := by
      rw [Expr.keepUsed]
      · refine Y.bind (Y.pure _ _)
          (Y.bind (?_ : Y.gives _ (Projection.keepUsed _) _ _) (Y.pure _ _))
        rw [Projection.keepUsed]
        exact Y.bind h₁.1 (Y.bind hrun (Y.pure _ _))
      all_goals simp
    exact congrArg Prod.fst walk
  · have := (keep_standsIn full sound plain₂ stands).agrees full plain₁
    rwa [plain.replace_self] at this

end Stack

namespace RepeatedColumns

variable {members : Prop} {P : Column → Prop} {rel : Alias} {kept rest : List (ColumnDecl Expr)}
  {replaced : Replaced}

theorem fold_sublist : (fold rel kept rest replaced).1.Sublist (kept ++ rest) := by
  fun_induction fold rel kept rest replaced with
  | case1 => simp
  | case2 kept d rest replaced first _ ih =>
    exact ih.trans ((List.sublist_cons_self _ _).append_left _)
  | case3 kept d rest replaced _ ih => simpa using ih

theorem mem_fold_of_mem {d : ColumnDecl Expr} (h : d ∈ kept) :
    d ∈ (fold rel kept rest replaced).1 := by
  fun_induction fold rel kept rest replaced with
  | case1 => exact h
  | case2 _ _ _ _ _ _ ih => exact ih h
  | case3 _ _ _ _ _ ih => exact ih (by simp [h])

theorem rel_of_mem_fold {entry : (Alias × String) × Column}
    (h : entry ∈ (fold rel kept rest replaced).2) : entry ∈ replaced ∨ entry.1.1 = rel := by
  fun_induction fold rel kept rest replaced with
  | case1 => exact .inl h
  | case2 _ _ _ _ _ _ ih =>
    rcases ih h with h | h
    · rcases List.mem_cons.mp h with rfl | h
      · exact .inr rfl
      · exact .inl h
    · exact .inr h
  | case3 _ _ _ _ _ ih => exact ih h

theorem lookup_fold {name : String} (h : name ∉ rest.map (·.name)) :
    (fold rel kept rest replaced).2.lookup (rel, name) = replaced.lookup (rel, name) := by
  fun_induction fold rel kept rest replaced with
  | case1 => rfl
  | case2 _ d _ _ _ _ ih =>
    rw [List.map_cons, List.mem_cons, not_or] at h
    rw [ih h.2, List.lookup_cons, beq_false_of_ne (by simpa using h.1)]
  | case3 _ d _ _ _ ih =>
    rw [List.map_cons, List.mem_cons, not_or] at h
    exact ih h.2

/-- Every column is read from a kept one that compares equal to it, or is kept itself. -/
theorem fold_stands (nodup : (rest.map (·.name)).Nodup)
    (fresh : ∀ d ∈ rest, replaced.lookup (rel, d.name) = none) :
    ∀ d ∈ rest, ∃ d' ∈ (fold rel kept rest replaced).1, (d'.expr.same d.expr = true
        ∧ (fold rel kept rest replaced).2.lookup (rel, d.name) = some ⟨rel, d'.name, d'.type⟩)
      ∨ (fold rel kept rest replaced).2.lookup (rel, d.name) = none ∧ d' = d := by
  fun_induction fold rel kept rest replaced with
  | case1 => simp
  | case2 kept d rest replaced first found ih =>
    rw [List.map_cons, List.nodup_cons] at nodup
    rw [List.forall_mem_cons]
    have mem := List.mem_of_find?_eq_some found
    have same := List.find?_some found
    refine ⟨⟨first, mem_fold_of_mem mem, .inl ⟨same, ?_⟩⟩, ih nodup.2 ?_⟩
    · rw [lookup_fold nodup.1]
      simp
    · intro d' hd'
      have other : d'.name ≠ d.name := fun h => nodup.1 (h ▸ List.mem_map_of_mem hd')
      rw [List.lookup_cons, beq_false_of_ne (by simpa using other)]
      exact fresh d' (by simp [hd'])
  | case3 kept d rest replaced _ ih =>
    rw [List.map_cons, List.nodup_cons] at nodup
    rw [List.forall_mem_cons]
    refine ⟨⟨d, mem_fold_of_mem (by simp), .inr ⟨?_, rfl⟩⟩, ih nodup.2 ?_⟩
    · rw [lookup_fold nodup.1]
      exact fresh d (by simp)
    · exact fun d' hd' => fresh d' (by simp [hd'])

/-- Every column is kept, or read from a kept one that computes the same. -/
theorem fold_reads (plain : ∀ d ∈ kept ++ rest, Plain members P d.expr)
    (nodup : (rest.map (·.name)).Nodup)
    (fresh : ∀ d ∈ rest, replaced.lookup (rel, d.name) = none) :
    ∀ d ∈ rest, ∃ d' ∈ (fold rel kept rest replaced).1, d'.expr = d.expr
      ∧ ((fold rel kept rest replaced).2.lookup (rel, d.name) = some ⟨rel, d'.name, d'.type⟩
        ∨ (fold rel kept rest replaced).2.lookup (rel, d.name) = none ∧ d' = d) := by
  intro d hd
  obtain ⟨d', hd', ⟨same, found⟩ | ⟨missing, rfl⟩⟩ := fold_stands nodup fresh d hd
  · exact ⟨d', hd', (plain d' (fold_sublist.subset hd')).eq_of_same same, .inl found⟩
  · exact ⟨d', hd', rfl, .inr ⟨missing, rfl⟩⟩

def Replaced.read (replaced : Replaced) (c : Column) : Expr :=
  .column ((replaced.lookup (c.rel, c.name)).getD c)

end RepeatedColumns

open RepeatedColumns

theorem Plain.foldColumns_run {members : Prop} {P : Column → Prop} {e : Expr}
    (h : Plain members P e) (replaced : Replaced) :
    e.foldColumns.run replaced = (e.replace replaced.read, replaced) :=
  h.walk (Yields.ofState _) _ Select.foldColumns Projection.foldColumns
    (fun c _ => by
      rw [Expr.foldColumns]
      rfl)
    fun e he inner h => by
      cases he with
      | column _ => exact absurd rfl (inner _)
      | _ => rw [Expr.foldColumns] <;> first | exact h | simp

namespace Layer

def folded (l : Layer) (replaced : Replaced) : Layer :=
  let l' := l.mapExprs (Expr.replace replaced.read)
  { l' with columns := (fold l.rel [] l'.columns replaced).1 }

def replacedAfter (l : Layer) (replaced : Replaced) : Replaced :=
  (fold l.rel [] (l.mapExprs (Expr.replace replaced.read)).columns replaced).2

theorem foldColumns_run {tables : Tables} {M : Meaning tables} {P : Column → Prop} {l : Layer}
    (fits : l.Fits M.toGrammar P) {source source' : Expr} {replaced : Replaced}
    (below : source.foldColumns.run [] = (source', replaced)) :
    (l.above source).foldColumns.run []
      = ((l.folded replaced).above source', l.replacedAfter replaced) := by
  let Y := Yields.ofState Replaced
  have counts : ∀ n, Plain M.members (fun _ => False) (count n) := fun n => .const (.int n)
  have walk := traverse_gives Y _ (f := Expr.replace replaced.read) below
    (fun e he => (fits.plain e he).foldColumns_run replaced)
    fun n => by
      have run := (counts n).foldColumns_run replaced
      rwa [count, Expr.int, Expr.replace_const] at run
  rw [Select.foldColumns]
  exact Y.bind walk rfl

end Layer

namespace Stack

variable {tables : Tables} {M : Meaning tables} {t : Table} {offered : List String}
  {base : List Row} {l : Layer} {below : Stack}

theorem folded_standsIn (full : ∀ row ∈ base, Full offered row) {below' : Stack}
    {replaced : Replaced} (sound : Sound M.toGrammar t offered (l :: below))
    (h : StandsIn M t offered base below below' (Sees t offered below) replaced.read)
    (older : ∀ entry ∈ replaced, entry.1.1 ∈ aliases t below) :
    StandsIn M t offered base (l :: below) (l.folded replaced :: below')
      (Sees t offered (l :: below)) (l.replacedAfter replaced).read := by
  set columns := (l.mapExprs (Expr.replace replaced.read)).columns with hcolumns
  have names : columns.map (·.name) = l.names := by
    simp [hcolumns, Layer.mapExprs, Layer.names, Function.comp_def]
  have origin : ∀ d' ∈ columns, ∃ d ∈ l.columns, d'.name = d.name ∧ d'.expr = d.expr.replace replaced.read := by
    intro d' hd'
    obtain ⟨d, hd, rfl⟩ := List.mem_map.mp hd'
    exact ⟨d, hd, rfl, rfl⟩
  have plain : ∀ d ∈ [] ++ columns, Plain M.members (Sees t offered below') d.expr := by
    intro d' hd'
    obtain ⟨d, hd, -, expr⟩ := origin d' hd'
    exact expr ▸ (sound.2.1.column hd).replace h.plain
  have fresh : ∀ d ∈ columns, replaced.lookup (l.rel, d.name) = none := by
    intro d _
    rw [List.lookup_eq_none_iff]
    intro entry hentry
    simp only [bne_iff_ne, ne_eq]
    intro h
    have known := older entry hentry
    rw [← h] at known
    exact sound.1 known
  have reads := fold_reads plain (names ▸ sound.2.1.nodup) fresh
  refine h.cons full sound.2.1 sound.1 rfl (fun e he => sound.2.1.filter he)
    (fun o ho => sound.2.1.order ho) rfl rfl rfl rfl ?_ ?_ ?_
  · exact (names ▸ sound.2.1.nodup : (columns.map (·.name)).Nodup).sublist (fold_sublist.map _)
  · intro d' hd'
    obtain ⟨d, hd, name, expr⟩ := origin d' (by simpa using fold_sublist.subset hd')
    exact ⟨d, hd, name, sound.2.1.column hd, expr⟩
  · rintro c ⟨rel, name⟩
    obtain ⟨d, hd, hn⟩ := List.mem_map.mp (names ▸ name : c.name ∈ columns.map (·.name))
    obtain ⟨d₀, hd₀, hn₀, expr₀⟩ := origin d hd
    obtain ⟨d', hd', expr, target⟩ := reads d hd
    have read : ∃ type, (l.replacedAfter replaced).read c = .column ⟨l.rel, d'.name, type⟩ := by
      rw [Replaced.read, ← hn, show c.rel = l.rel from rel, Layer.replacedAfter, ← hcolumns]
      rcases target with target | ⟨target, rfl⟩
      · exact ⟨d'.type, by rw [target]; rfl⟩
      · refine ⟨c.type, ?_⟩
        rw [target, hn, Option.getD_none, ← (show c.rel = l.rel from rel)]
    obtain ⟨type, read⟩ := read
    exact ⟨d₀, hd₀, d', hd', type, rel, hn.symm.trans hn₀, sound.2.1.column hd₀,
      expr.trans expr₀, read⟩

theorem foldColumns_tree (full : ∀ row ∈ base, Full offered row) {stack : Stack}
    (sound : Sound M.toGrammar t offered stack) :
    ∃ stack' replaced, (tree t stack).foldColumns.run [] = (tree t stack', replaced)
      ∧ StandsIn M t offered base stack stack' (Sees t offered stack) replaced.read
      ∧ ∀ entry ∈ replaced, entry.1.1 ∈ aliases t stack := by
  induction stack with
  | nil =>
    refine ⟨[], [], ?_, StandsIn.refl base sound, by simp⟩
    rw [tree, Expr.foldColumns] <;> first | rfl | simp
  | cons l below ih =>
    obtain ⟨below', replaced, hbelow, stands, older⟩ := ih sound.2.2
    refine ⟨l.folded replaced :: below', l.replacedAfter replaced, ?_,
      folded_standsIn full sound stands older, fun entry hentry => ?_⟩
    · rw [tree, Expr.foldColumns]
      · exact (Yields.ofState Replaced).bind (Layer.foldColumns_run sound.2.1 hbelow)
          ((Yields.ofState Replaced).pure _ _)
      all_goals simp
    · rcases rel_of_mem_fold hentry with h | h
      · have := older entry h
        simp only [aliases, List.map_cons, List.mem_cons] at this ⊢
        grind
      · simp [aliases, h]

/-- A projection without its repeated columns makes the same objects. -/
theorem dropRepeatedColumns_agrees (full : ∀ row ∈ base, Full offered row) {projector : Expr}
    (sound : Sound M.toGrammar t offered (l :: below))
    (plain : Plain M.members (Sees t offered (l :: below)) projector) :
    ∃ l' below' projector', (Expr.projection (projected t l below projector)).dropRepeatedColumns
        = .projection (projected t l' below' projector')
      ∧ Agrees M t offered base (l :: below) projector (l' :: below') projector' := by
  let Y := Yields.ofState Replaced
  obtain ⟨below', replaced, hbelow, stands, older⟩ := foldColumns_tree full sound.2.2
  refine ⟨l.folded replaced, below', projector.replace (l.replacedAfter replaced).read, ?_,
    (folded_standsIn full sound stands older).agrees full plain⟩
  have walk : Y.gives [] (Expr.projection (projected t l below projector)).foldColumns
      (.projection (projected t (l.folded replaced) below'
        (projector.replace (l.replacedAfter replaced).read))) (l.replacedAfter replaced) := by
    rw [Expr.foldColumns]
    · refine Y.bind (?_ : Y.gives _ (Projection.foldColumns _) _ _) (Y.pure _ _)
      rw [Projection.foldColumns]
      exact Y.bind (Layer.foldColumns_run sound.2.1 hbelow)
        (Y.bind (plain.foldColumns_run _) (Y.pure _ _))
    all_goals simp
  exact congrArg Prod.fst walk

end Stack

end ObjectQuery
