import ObjectQuery.Proofs.Stack

/-!
One stack in place of another. A stack tracks another one if it picks the same rows in the same
order; it carries columns of the other one if their values can be read from it, perhaps under other
names. Both are kept when layers that say the same are put on top.
-/

namespace ObjectQuery.Stack

open Eval

variable {tables : Tables} {M : Meaning tables} {t : Table} {offered : List String}
  {base : List Row} {s s' s'' : Stack} {l l' : Layer} {S S' : Column → Prop} {σ τ : Column → Expr}

def Carries (M : Meaning tables) (t : Table) (offered : List String) (s s' : Stack)
    (S : Column → Prop) (σ : Column → Expr) : Prop :=
  ∀ row, Full offered row → ∀ c, S c →
    ∃ v, (view M t s row).column c = .ok v ∧ Reads M.constants (view M t s' row) (σ c) v

def Refined (M : Meaning tables) (t : Table) (offered : List String) : Stack → Prop
  | [] => True
  | l :: below =>
    (l.isPaged → ∀ row row', Full offered row → Full offered row' →
      byKeys (keys M t l below) row row' = .eq → order M t below row row' = .eq)
    ∧ Refined M t offered below

structure Tracks (M : Meaning tables) (t : Table) (offered : List String) (base : List Row)
    (s s' : Stack) : Prop where
  picked : picked M t base s' = picked M t base s
  order : ∀ row row', Full offered row → Full offered row' →
    order M t s' row row' = order M t s row row'
  uniform : Uniform M t base s → Uniform M t base s'
  refined : Refined M t offered s → Refined M t offered s'

theorem sortWith_nil {α : Type} (items : List α) :
    sortWith (byKeys ([] : List (Direction × (α → Value)))) items = items :=
  sortWith_eq_self_of_tied fun _ _ _ _ => rfl

theorem page_of_unpaged {α : Type} (h : l.isPaged = false) (items : List α) :
    l.page items = items := by
  simp only [Layer.isPaged, Bool.or_eq_false_iff, Option.isSome_eq_false_iff, Option.isNone_iff_eq_none] at h
  simp [Layer.page, h.1, h.2]

theorem mem_of_mem_picked {row : Row} (h : row ∈ picked M t base s) : row ∈ base := by
  induction s with
  | nil => exact h
  | cons l below ih =>
    have sorted : row ∈ sortWith (byKeys (keys M t l below))
        ((Stack.picked M t base below).filter (passes M t l below)) := by
      rw [Stack.picked, Layer.page] at h
      split at h
      · exact List.mem_of_mem_drop h
      · exact List.mem_of_mem_drop (List.mem_of_mem_take h)
    exact ih (List.mem_of_mem_filter (mem_sortWith.mp sorted))

theorem order_eq_iff {row row' : Row} : order M t (l :: s) row row' = .eq ↔
    byKeys (keys M t l s) row row' = .eq ∧ order M t s row row' = .eq := by
  rw [order, compareLex, Ordering.then_eq_eq]

namespace Carries

variable {row : Row} {e : Expr}

theorem value (h : Carries M t offered s s' S σ) (full : Full offered row)
    (plain : Plain M.members S e) :
    M.value (e.replace σ) (view M t s' row) = M.value e (view M t s row) :=
  M.value_replace plain (h row full)

theorem object (h : Carries M t offered s s' S σ) (full : Full offered row)
    (plain : Plain M.members S e) :
    M.object (e.replace σ) (view M t s' row) = M.object e (view M t s row) :=
  M.object_replace plain (h row full)

theorem mono (h : Carries M t offered s s' S σ) (hS : ∀ c, S' c → S c) :
    Carries M t offered s s' S' σ := fun row full c hc => h row full c (hS c hc)

theorem refl (sound : Sound M.toGrammar t offered s) :
    Carries M t offered s s (Sees t offered s) .column := fun row full c hc => by
  obtain ⟨v, hv⟩ := column_view sound full hc
  exact ⟨v, hv, .inl ⟨c, rfl, hv⟩⟩

theorem trans (h : Carries M t offered s s' S σ) (h' : Carries M t offered s' s'' S' τ)
    (hσ : ∀ c, S c → Plain M.members S' (σ c)) :
    Carries M t offered s s'' S fun c => (σ c).replace τ := fun row full c hc => by
  obtain ⟨v, hv, ⟨c', e, hc'⟩ | ⟨allowed, e⟩⟩ := h row full c hc
  · have plain := hσ c hc
    rw [e] at plain
    cases plain with
    | column hS' =>
      obtain ⟨v', hv', reads⟩ := h' row full c' hS'
      rw [hc'] at hv'
      cases hv'
      exact ⟨v, hv, by simpa [e] using reads⟩
  · exact ⟨v, hv, .inr ⟨allowed, by simp [e]⟩⟩

/-- A filter that says the same lets the same rows through. -/
theorem passes (h : Carries M t offered s s' S σ) (plain : ∀ e ∈ l.filter, Plain M.members S e)
    (same : l'.filter = l.filter.map (Expr.replace σ)) (full : Full offered row) :
    passes M t l' s' row = passes M t l s row := by
  rw [Stack.passes, Stack.passes, same]
  cases hf : l.filter with
  | none => rfl
  | some e =>
    have := h.value full (plain e hf)
    simpa [Option.all] using congrArg Value.isTrue this

theorem keys (h : Carries M t offered s s' S σ) (plain : ∀ o ∈ l.orderBy, Plain M.members S o.expr)
    (same : l'.orderBy = l.orderBy.map fun o => { o with expr := o.expr.replace σ }) :
    List.Forall₂ (fun k k' => k.1 = k'.1 ∧ ∀ row, Full offered row → k.2 row = k'.2 row)
      (keys M t l' s') (keys M t l s) := by
  rw [Stack.keys, Stack.keys, same, List.map_map, List.forall₂_map_left_iff,
    List.forall₂_map_right_iff, List.forall₂_same]
  exact fun o ho => ⟨rfl, fun row full => h.value full (plain o ho)⟩

/-- A column is carried by a column that computes the same. -/
theorem layer (h : Carries M t offered s s' S σ) (nodup : l.names.Nodup) (nodup' : l'.names.Nodup)
    (same : ∀ c, S' c → ∃ d ∈ l.columns, ∃ d' ∈ l'.columns, ∃ type, c.rel = l.rel ∧ c.name = d.name
      ∧ Plain M.members S d.expr ∧ d'.expr = d.expr.replace σ ∧ τ c = .column ⟨l'.rel, d'.name, type⟩) :
    Carries M t offered (l :: s) (l' :: s') S' τ := fun row full c hc => by
  obtain ⟨d, hd, d', hd', type, rel, name, plain, expr, target⟩ := same c hc
  refine ⟨_, Feed.column_bind rel (name ▸ get?_trace nodup hd row), .inl ⟨_, target, ?_⟩⟩
  refine Feed.column_bind rfl ?_
  rw [← h.value full plain, ← expr]
  exact get?_trace nodup' hd' row

end Carries

theorem exists_of_forall₂ {α β : Type} {R : α → β → Prop} {as : List α} {bs : List β}
    (h : List.Forall₂ R as bs) : ∀ a ∈ as, ∃ b ∈ bs, R a b := by
  induction h with
  | nil => simp
  | cons hab _ ih =>
    rintro a (_ | ⟨_, ha⟩)
    · exact ⟨_, by simp, hab⟩
    · obtain ⟨b, hb, hr⟩ := ih a ha
      exact ⟨b, by simp [hb], hr⟩

theorem byKeys_of_same {ks ks' : List (Direction × (Row → Value))}
    (h : List.Forall₂ (fun k k' => k.1 = k'.1 ∧ ∀ row, Full offered row → k.2 row = k'.2 row) ks ks')
    {row row' : Row} (full : Full offered row) (full' : Full offered row') :
    byKeys ks row row' = byKeys ks' row row' :=
  byKeys_congr (h.imp fun _ _ hk => ⟨hk.1, hk.2 row full, hk.2 row' full'⟩)

namespace Tracks

theorem refl (s : Stack) : Tracks M t offered base s s :=
  ⟨rfl, fun _ _ _ _ => rfl, id, id⟩

theorem trans (h : Tracks M t offered base s s') (h' : Tracks M t offered base s' s'') :
    Tracks M t offered base s s'' where
  picked := h'.picked.trans h.picked
  order row row' full full' := (h'.order row row' full full').trans (h.order row row' full full')
  uniform u := h'.uniform (h.uniform u)
  refined r := h'.refined (h.refined r)

/-- Layers that say the same over what they see keep on tracking. -/
theorem cons (full : ∀ row ∈ base, Full offered row) (h : Tracks M t offered base s s')
    (carries : Carries M t offered s s' S σ)
    (filters : ∀ e ∈ l.filter, Plain M.members S e)
    (orders : ∀ o ∈ l.orderBy, Plain M.members S o.expr)
    (filter : l'.filter = l.filter.map (Expr.replace σ))
    (orderBy : l'.orderBy = l.orderBy.map fun o => { o with expr := o.expr.replace σ })
    (skip : l'.skip = l.skip) (take : l'.take = l.take) :
    Tracks M t offered base (l :: s) (l' :: s') := by
  have same := carries.keys orders orderBy
  have rows : (Stack.picked M t base s').filter (passes M t l' s')
      = (Stack.picked M t base s).filter (passes M t l s) := by
    rw [h.picked]
    exact List.filter_congr fun row hrow =>
      carries.passes filters filter (full row (mem_of_mem_picked hrow))
  have inBase : ∀ row ∈ (Stack.picked M t base s).filter (passes M t l s), Full offered row :=
    fun row hrow => full row (mem_of_mem_picked (List.mem_of_mem_filter hrow))
  refine ⟨?_, fun row row' hr hr' => ?_, fun u => ⟨?_, h.uniform u.2⟩, fun r => ⟨?_, h.refined r.2⟩⟩
  · rw [Stack.picked, Stack.picked, rows, sortWith_congr fun a ha b hb =>
      byKeys_of_same same (inBase a ha) (inBase b hb)]
    simp [Layer.page, skip, take]
  · simp only [Stack.order, compareLex, byKeys_of_same same hr hr', h.order row row' hr hr']
  · rw [rows]
    intro k hk
    obtain ⟨k', hk', -, values⟩ := exists_of_forall₂ same k hk
    obtain ⟨type, admits⟩ := u.1 k' hk'
    exact ⟨type, fun row hrow => values row (inBase row hrow) ▸ admits row hrow⟩
  · intro paged row row' hr hr' tie
    rw [h.order row row' hr hr']
    refine r.1 ?_ row row' hr hr' ?_
    · simpa [Layer.isPaged, skip, take] using paged
    · rw [← byKeys_of_same same hr hr']
      exact tie

end Tracks

def NamesWithin (s s' : Stack) : Prop := ∀ l' ∈ s', ∃ l ∈ s, l'.names ⊆ l.names

theorem NamesWithin.refl (s : Stack) : NamesWithin s s := fun l hl => ⟨l, hl, List.Subset.refl _⟩

theorem NamesWithin.trans (h : NamesWithin s s') (h' : NamesWithin s' s'') : NamesWithin s s'' := by
  intro l'' hl''
  obtain ⟨l', hl', sub'⟩ := h' l'' hl''
  obtain ⟨l, hl, sub⟩ := h l' hl'
  exact ⟨l, hl, List.Subset.trans sub' sub⟩

structure StandsIn (M : Meaning tables) (t : Table) (offered : List String) (base : List Row)
    (s s' : Stack) (S : Column → Prop) (σ : Column → Expr) : Prop where
  sound : Sound M.toGrammar t offered s'
  aliases : aliases t s' ⊆ aliases t s
  names : NamesWithin s s'
  plain : ∀ c, S c → Plain M.members (Sees t offered s') (σ c)
  constants : ∀ c, S c → ∀ v, σ c = .const v → M.constants
  carries : Carries M t offered s s' S σ
  tracks : Tracks M t offered base s s'

namespace StandsIn

theorem refl (base : List Row) (sound : Sound M.toGrammar t offered s) :
    StandsIn M t offered base s s (Sees t offered s) .column :=
  ⟨sound, List.Subset.refl _, .refl s, fun _ => .column, nofun, .refl sound, .refl s⟩

theorem mono (h : StandsIn M t offered base s s' S σ) (hS : ∀ c, S' c → S c) :
    StandsIn M t offered base s s' S' σ where
  sound := h.sound
  aliases := h.aliases
  names := h.names
  plain c hc := h.plain c (hS c hc)
  constants c hc := h.constants c (hS c hc)
  carries := h.carries.mono hS
  tracks := h.tracks

theorem trans (h : StandsIn M t offered base s s' S σ) (h' : StandsIn M t offered base s' s'' S' τ)
    (hσ : ∀ c, S c → Plain M.members S' (σ c)) :
    StandsIn M t offered base s s'' S fun c => (σ c).replace τ where
  sound := h'.sound
  aliases := List.Subset.trans h'.aliases h.aliases
  names := h.names.trans h'.names
  plain c hc := (hσ c hc).replace h'.plain
  constants c hc v hv := by
    rcases (hσ c hc).of_replace_eq_const hv with hv | ⟨c', -, hc', hv⟩
    · exact h.constants c hc v hv
    · exact h'.constants c' hc' v hv
  carries := h.carries.trans h'.carries hσ
  tracks := h.tracks.trans h'.tracks

/-- Stacks that keep the names of their columns follow each other. -/
theorem trans_column (h : StandsIn M t offered base s s' (Sees t offered s) .column)
    (h' : StandsIn M t offered base s' s'' (Sees t offered s') .column) :
    StandsIn M t offered base s s'' (Sees t offered s) .column := by
  have := h.trans h' h.plain
  simpa using this

/-- A projector makes the same objects. -/
theorem objects (h : StandsIn M t offered base s s' S σ) (full : ∀ row ∈ base, Full offered row)
    {projector : Expr} (plain : Plain M.members S projector) :
    objects M t base s' (projector.replace σ) = objects M t base s projector := by
  rw [Stack.objects, Stack.objects, h.tracks.picked]
  exact List.map_congr_left fun row hrow => h.carries.object (full row (mem_of_mem_picked hrow)) plain

/-- Layers that say the same can be put on top. Not all columns need to be there any more, only
those that are read. -/
theorem cons (h : StandsIn M t offered base s s' S σ) (full : ∀ row ∈ base, Full offered row)
    {P : Column → Prop} (fits : l.Fits M.toGrammar P) (fresh : l.rel ∉ Stack.aliases t s) (rel : l'.rel = l.rel)
    (filters : ∀ e ∈ l.filter, Plain M.members S e)
    (orders : ∀ o ∈ l.orderBy, Plain M.members S o.expr)
    (filter : l'.filter = l.filter.map (Expr.replace σ))
    (orderBy : l'.orderBy = l.orderBy.map fun o => { o with expr := o.expr.replace σ })
    (skip : l'.skip = l.skip) (take : l'.take = l.take) (nodup : l'.names.Nodup)
    (columns : ∀ d' ∈ l'.columns, ∃ d ∈ l.columns, d'.name = d.name ∧ Plain M.members S d.expr
      ∧ d'.expr = d.expr.replace σ)
    (read : ∀ c, S' c → ∃ d ∈ l.columns, ∃ d' ∈ l'.columns, ∃ type, c.rel = l.rel ∧ c.name = d.name
      ∧ Plain M.members S d.expr ∧ d'.expr = d.expr.replace σ
      ∧ τ c = .column ⟨l'.rel, d'.name, type⟩) :
    StandsIn M t offered base (l :: s) (l' :: s') S' τ where
  sound := by
    refine ⟨fun hr => fresh (h.aliases (rel ▸ hr)), ⟨fun e he => ?_, nodup, ?_⟩, h.sound⟩
    · simp only [Layer.exprs, List.mem_append, List.mem_map, Option.mem_toList] at he
      rcases he with (⟨d', hd', rfl⟩ | he) | ⟨o', ho', rfl⟩
      · obtain ⟨d, -, -, plain, expr⟩ := columns d' hd'
        exact expr ▸ plain.replace h.plain
      · rw [filter] at he
        obtain ⟨e, hf, rfl⟩ := Option.map_eq_some_iff.mp he
        exact (filters e hf).replace h.plain
      · rw [orderBy] at ho'
        obtain ⟨o, ho, rfl⟩ := List.mem_map.mp ho'
        exact (orders o ho).replace h.plain
    · intro d' hd' v hv
      obtain ⟨d, hd, -, plain, expr⟩ := columns d' hd'
      rcases plain.of_replace_eq_const (expr.symm.trans hv) with hd' | ⟨c, -, hc, hσ⟩
      · exact fits.constants d hd v hd'
      · exact h.constants c hc v hσ
  aliases := by
    have sub := h.aliases
    simp only [Stack.aliases, List.map_cons, List.cons_subset, rel] at sub ⊢
    grind
  names := by
    rintro k (_ | ⟨_, hk⟩)
    · refine ⟨l, by simp, fun n hn => ?_⟩
      obtain ⟨d', hd', rfl⟩ := List.mem_map.mp hn
      obtain ⟨d, hd, name, -⟩ := columns d' hd'
      exact name ▸ List.mem_map_of_mem hd
    · obtain ⟨k', hk', sub⟩ := h.names k hk
      exact ⟨k', by simp [hk'], sub⟩
  plain c hc := by
    obtain ⟨d, -, d', hd', type, -, -, -, -, target⟩ := read c hc
    rw [target]
    exact .column ⟨rfl, List.mem_map_of_mem hd'⟩
  constants c hc v hv := by
    obtain ⟨d, -, d', hd', type, -, -, -, -, target⟩ := read c hc
    cases target.symm.trans hv
  carries := h.carries.layer fits.nodup nodup read
  tracks := h.tracks.cons full h.carries filters orders filter orderBy skip take

/-- The same layer on top of a stack that keeps the names of its columns. -/
theorem cons_column (h : StandsIn M t offered base s s' (Sees t offered s) .column)
    (full : ∀ row ∈ base, Full offered row) (sound : Sound M.toGrammar t offered (l :: s)) :
    StandsIn M t offered base (l :: s) (l :: s') (Sees t offered (l :: s)) .column := by
  have self := Layer.mapExprs_self fun e he => (sound.2.1.plain e he).replace_self
  have column : ∀ d ∈ l.columns, d.expr = d.expr.replace .column := fun d hd =>
    (sound.2.1.column hd).replace_self.symm
  refine h.cons full sound.2.1 sound.1 rfl (fun e he => sound.2.1.filter he)
    (fun o ho => sound.2.1.order ho) (congrArg Layer.filter self).symm
    (congrArg Layer.orderBy self).symm rfl rfl sound.2.1.nodup
    (fun d hd => ⟨d, hd, rfl, sound.2.1.column hd, column d hd⟩) ?_
  rintro c ⟨rel, name⟩
  obtain ⟨d, hd, hn⟩ := List.mem_map.mp name
  exact ⟨d, hd, d, hd, c.type, rel, hn.symm, sound.2.1.column hd, column d hd, by
    rw [hn, show l.rel = c.rel from rel.symm]⟩

end StandsIn

structure Agrees (M : Meaning tables) (t : Table) (offered : List String) (base : List Row)
    (s : Stack) (projector : Expr) (s' : Stack) (projector' : Expr) : Prop where
  sound : Sound M.toGrammar t offered s'
  plain : Plain M.members (Sees t offered s') projector'
  aliases : aliases t s' ⊆ aliases t s
  names : NamesWithin s s'
  objects : objects M t base s' projector' = objects M t base s projector
  uniform : Uniform M t base s → Uniform M t base s'
  refined : Refined M t offered s → Refined M t offered s'

theorem Agrees.trans {p p' p'' : Expr} (h : Agrees M t offered base s p s' p')
    (h' : Agrees M t offered base s' p' s'' p'') : Agrees M t offered base s p s'' p'' where
  sound := h'.sound
  plain := h'.plain
  aliases := List.Subset.trans h'.aliases h.aliases
  names := h.names.trans h'.names
  objects := h'.objects.trans h.objects
  uniform u := h'.uniform (h.uniform u)
  refined r := h'.refined (h.refined r)

theorem StandsIn.agrees (h : StandsIn M t offered base s s' S σ)
    (full : ∀ row ∈ base, Full offered row) {projector : Expr} (plain : Plain M.members S projector) :
    Agrees M t offered base s projector s' (projector.replace σ) where
  sound := h.sound
  plain := plain.replace h.plain
  aliases := h.aliases
  names := h.names
  objects := h.objects full plain
  uniform := h.tracks.uniform
  refined := h.tracks.refined

end ObjectQuery.Stack
