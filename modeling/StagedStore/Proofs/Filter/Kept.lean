import StagedStore.Proofs.Filter.Matched
import StagedStore.Proofs.Filter.Own
import StagedStore.Proofs.Filter.Read

/-!
# Text of the caller's own keeps its meaning

A condition in which texts of the caller's own stand means what its tree says of what they mean by
themselves, wherever they stand: the text of the condition is read so, and so are the rows chosen
that a filter's query gives.  The one place where a text must not stand is beside an `AND` if it is
an alternative, which gets no parentheses there.
-/

namespace StagedStore

open Memory Sql

variable {s : Schema} {t : Table} {r : Resolver}

/-! ## Meaning -/

namespace Condition

mutual

/-- Whether a condition is true of a row, its texts of the caller's own taken by themselves. -/
def judged (r : Resolver) (s : Schema) (e : Entry) : Condition → Truth
  | .all cs => Truth.conjunction (judgedAll r s e cs)
  | .any cs => Truth.disjunction (judgedAll r s e cs)
  | .not c => (judged r s e c).negate
  | .template sql values => r.ownTruth sql values e
  | .raw sql => r.ownTruth sql [] e
  | c => c.verdict s e

/-- The truth values of the members of a group in which a test stands. -/
def judgedAll (r : Resolver) (s : Schema) (e : Entry) : List Condition → List Truth
  | [] => []
  | c :: cs => if c.isEmpty then judgedAll r s e cs else judged r s e c :: judgedAll r s e cs

end

theorem judgedAll_eq (r : Resolver) (s : Schema) (e : Entry) (cs : List Condition) :
    judgedAll r s e cs = (cs.filter fun c => !c.isEmpty).map (judged r s e) := by
  induction cs with
  | nil => rfl
  | cons c cs ih =>
      rw [judgedAll, ih]
      cases hc : c.isEmpty <;> simp [hc]

mutual

/-- Without text of the caller's own this is the verdict. -/
theorem judged_of_free (e : Entry) (c : Condition) (h : c.hasFragment = false) :
    c.judged r s e = c.verdict s e := by
  cases c with
  | all cs => rw [judged, verdict, judgedAll_of_free e cs h]
  | any cs => rw [judged, verdict, judgedAll_of_free e cs h]
  | not c => rw [judged, verdict, judged_of_free e c h]
  | template sql values => simp [hasFragment] at h
  | raw sql => simp [hasFragment] at h
  | _ => rfl

theorem judgedAll_of_free (e : Entry) (cs : List Condition) (h : anyFragment cs = false) :
    judgedAll r s e cs = verdicts s e cs := by
  cases cs with
  | nil => rfl
  | cons c cs =>
      obtain ⟨hc, hcs⟩ := Bool.or_eq_false_iff.1 h
      rw [judgedAll, verdicts, judged_of_free e c hc, judgedAll_of_free e cs hcs]

end

/-- Text of the caller's own that is an alternative outside of parentheses. -/
def isAlternative : Condition → Bool
  | .template sql _ | .raw sql =>
    match ownExpr? sql with
    | some (.or _ _) => true
    | _ => false
  | _ => false

mutual

/-- Every text of the caller's own stands alone, and none that is an alternative is a member of a
conjunction of several. -/
def Guarded (r : Resolver) : Condition → Prop
  | .all cs => AllGuarded r cs ∧ ((cs.filter fun c => !c.isEmpty).length ≤ 1 ∨
      ∀ c ∈ cs, c.isAlternative = false)
  | .any cs => AllGuarded r cs
  | .not c => Guarded r c
  | .template sql values => r.StandsAlone sql values
  | .raw sql => r.StandsAlone sql []
  | _ => True

def AllGuarded (r : Resolver) : List Condition → Prop
  | [] => True
  | c :: cs => Guarded r c ∧ AllGuarded r cs

end

theorem guarded_of_mem {cs : List Condition} {c : Condition} (h : AllGuarded r cs) (hc : c ∈ cs) :
    c.Guarded r := by
  induction cs with
  | nil => simp at hc
  | cons d cs ih =>
      rcases List.mem_cons.1 hc with rfl | hc
      · exact h.1
      · exact ih h.2 hc

/-! ## What is built -/

theorem ownExpr?_ne_or {sql : String} {c : Condition} (h : c.isAlternative = false)
    (hc : c = .raw sql ∨ ∃ values, c = .template sql values) (a b : Expr) :
    ownExpr? sql ≠ some (.or a b) := by
  intro hown
  rcases hc with rfl | ⟨values, rfl⟩ <;> simp [isAlternative, hown] at h

/-- An expression is read as judging what a condition does, also beside an `AND` if the condition is
no alternative. -/
def Placed (r : Resolver) (s : Schema) (t : Table) (c : Condition) (q : Params) (y : Expr) : Prop :=
  y.ReadsAs { r with params := q } t Disjoined (fun e => c.judged r s e) ∧
    (c.isAlternative = false →
      y.ReadsAs { r with params := q } t Conjoined fun e => c.judged r s e)

/-- What is built for a condition is read as judging what the condition does; beside an `AND` it
needs parentheses only if it is a group or an alternative of the caller's own. -/
def IsBuilt (r : Resolver) (s : Schema) (t : Table) (c : Condition) (q : Params)
    (x : Option Expr) : Prop :=
  ∃ y, x = some y ∧ y.ReadsAs { r with params := q } t Disjoined (fun e => c.judged r s e) ∧
    (c.isGroup = false → c.Placed r s t q y)

theorem IsBuilt.not {c : Condition} {q : Params} {x : Option Expr} (h : c.IsBuilt r s t q x) :
    (Condition.not c).IsBuilt r s t q (x.map fun y => .not (.paren y)) := by
  obtain ⟨y, rfl, hy, -⟩ := h
  have hnot := hy.paren.not
  simp only [IsBuilt, Placed, judged]
  exact ⟨_, rfl, hnot.imp fun _ _ h => .one (.one h), fun _ =>
    ⟨hnot.imp fun _ _ h => .one (.one h), fun _ => hnot.imp fun _ _ h => .one h⟩⟩

theorem isBuilt_fragment {c : Condition} {text : String} {q : Params}
    (hread : (Expr.fragment text).ReadsAs { r with params := q } t Disjoined
      fun e => c.judged r s e)
    (hbare : c.isAlternative = false → (Expr.fragment text).ReadsAs { r with params := q } t
      Conjoined fun e => c.judged r s e) :
    c.IsBuilt r s t q (fragment? text) :=
  ⟨_, if_neg hread.render_ne_empty, hread, fun _ => ⟨hread, hbare⟩⟩

/-- A test with no text of the caller's own is written by the library alone, so the meaning of what
is built for it is known already. -/
theorem build_isBuilt_of_test (h : s.Fits t) {source : String} (hslots : r.slots = t.slots source)
    {c : Condition} (hcolumns : ∀ n ∈ c.columns, ∃ f, s.requireField n = .ok f)
    (htests : c.isEmpty = false) (hfree : c.hasFragment = false) (hgroup : c.isGroup = false) :
    Binds c.build (c.IsBuilt r s t) := by
  intro p
  obtain ⟨hext, hgives⟩ := c.build_gives h hcolumns hfree htests p
  obtain ⟨-, hwritten⟩ := c.build_written (fun n hn => (hcolumns n hn).elim fun f hf =>
    Schema.nul_notMem_field hf) hfree htests p
  refine ⟨hext, fun q hq => ?_⟩
  obtain ⟨y, hy, hv⟩ := hgives q hq
  obtain ⟨z, hz, hw, hsole⟩ := hwritten q hq
  obtain rfl := Option.some.inj (hy.symm.trans hz)
  simp only [IsBuilt, Placed, judged_of_free _ c hfree]
  have hread : y.ReadsAs { r with params := q } t Sole fun e => c.verdict s e :=
    (hsole hgroup).readsAs hslots hv
  exact ⟨y, hy, hw.readsAs hslots hv, fun _ => ⟨hw.readsAs hslots hv,
    fun _ => hread.imp fun _ _ h => .one h⟩⟩

/-- The members of a group that test something stand in it in their order, the groups among them in
parentheses. -/
theorem binds_members {cs : List Condition}
    (hall : ∀ c ∈ cs, c.isEmpty = false → Binds c.build (c.IsBuilt r s t)) :
    Binds (buildAll cs) fun q xs => List.Forall₂ (fun c x => c.Placed r s t q x)
      (cs.filter fun c => !c.isEmpty) xs := by
  refine binds_buildAll fun c hc hne => (hall c hc hne).imp fun q x => ?_
  rintro ⟨y, rfl, hy, hplaced⟩
  refine ⟨y, rfl, ?_⟩
  split
  · exact ⟨hy.paren.imp fun _ _ h => .one (.one h), fun _ => hy.paren.imp fun _ _ h => .one h⟩
  · rename_i hgroup
    exact hplaced (Bool.eq_false_iff.2 hgroup)

theorem isBuilt_all {cs : List Condition} {q : Params} {xs : List Expr}
    (htests : (Condition.all cs).isEmpty = false)
    (hguard : (cs.filter fun c => !c.isEmpty).length ≤ 1 ∨ ∀ c ∈ cs, c.isAlternative = false)
    (hxs : List.Forall₂ (fun c x => c.Placed r s t q x) (cs.filter fun c => !c.isEmpty) xs) :
    (Condition.all cs).IsBuilt r s t q (joinBy .and xs) := by
  obtain ⟨y, hy⟩ := joinBy_eq_some .and (ne_nil_of_members htests hxs)
  simp only [IsBuilt, judged, judgedAll_eq]
  refine ⟨y, hy, ?_, fun hgroup => absurd hgroup (by simp [isGroup])⟩
  rcases hguard with hone | hplain
  · -- a single member stands there as it is
    generalize (cs.filter fun c => !c.isEmpty) = ms at hxs hone ⊢
    cases hxs with
    | nil => simp [joinBy] at hy
    | @cons m x ms xs hx hrest =>
        obtain rfl : ms = [] :=
          List.eq_nil_of_length_eq_zero (Nat.le_zero.1 (Nat.le_of_succ_le_succ hone))
        obtain rfl := List.forall₂_nil_left_iff.1 hrest
        obtain rfl := Option.some.inj hy
        simpa using hx.1
  · have hbare := (List.forall₂_and_left _ _).2
      ⟨fun c hc => hplain c (List.mem_filter.1 hc).1, hxs⟩
    have hjoined := joinBy_gives
      (G := fun x v => x.ReadsAs { r with params := q } t Conjoined v)
      Truth.conjunction_singleton .and (hbare.imp fun c x hx => hx.2.2 hx.1) hy
    exact hjoined.imp fun _ _ h => .one h

theorem isBuilt_any {cs : List Condition} {q : Params} {xs : List Expr}
    (htests : (Condition.any cs).isEmpty = false)
    (hxs : List.Forall₂ (fun c x => c.Placed r s t q x) (cs.filter fun c => !c.isEmpty) xs) :
    (Condition.any cs).IsBuilt r s t q (joinBy .or xs) := by
  obtain ⟨y, hy⟩ := joinBy_eq_some .or (ne_nil_of_members htests hxs)
  simp only [IsBuilt, judged, judgedAll_eq]
  exact ⟨y, hy, joinBy_gives (G := fun x v => x.ReadsAs { r with params := q } t Disjoined v)
    Truth.disjunction_singleton .or (hxs.imp fun c x hx => hx.1) hy,
    fun hgroup => absurd hgroup (by simp [isGroup])⟩

theorem build_isBuilt (h : s.Fits t) {source : String} (hslots : r.slots = t.slots source)
    (c : Condition) (hcolumns : ∀ n ∈ c.columns, ∃ f, s.requireField n = .ok f)
    (hguard : c.Guarded r) (htests : c.isEmpty = false) :
    Binds c.build (c.IsBuilt r s t) := by
  cases c with
  | all cs =>
      rw [build]
      exact binds_map (binds_members fun c hc => build_isBuilt h hslots c
        (fun n hn => hcolumns n (mem_allColumns hc hn)) (guarded_of_mem hguard.1 hc))
        fun q xs hxs => isBuilt_all htests hguard.2 hxs
  | any cs =>
      rw [build]
      exact binds_map (binds_members fun c hc => build_isBuilt h hslots c
        (fun n hn => hcolumns n (mem_allColumns hc hn)) (guarded_of_mem hguard hc))
        fun q xs hxs => isBuilt_any htests hxs
  | not c =>
      rw [build]
      exact binds_map (build_isBuilt h hslots c hcolumns hguard htests) fun q x hx => hx.not
  | template sql values =>
      rw [build]
      intro p
      refine ⟨(binds_fillTemplate sql.toList values p).1, fun q hq => ?_⟩
      obtain ⟨hread, hbare⟩ := Resolver.StandsAlone.readsAs (t := t) hguard hq
      exact isBuilt_fragment hread fun halone => hbare (ownExpr?_ne_or halone (.inr ⟨values, rfl⟩))
  | raw sql =>
      rw [build]
      intro p
      refine ⟨.refl p, fun q hq => ?_⟩
      have hown := Resolver.StandsAlone.readsAs (t := t) (p := p) (q := q) hguard
        (by rwa [fillTemplate_nil])
      rw [fillTemplate_nil, String.ofList_toList] at hown
      exact isBuilt_fragment hown.1 fun halone => hown.2 (ownExpr?_ne_or halone (.inl rfl))
  | _ => exact build_isBuilt_of_test h hslots hcolumns htests rfl rfl

/-- The text of a condition is empty if no test stands in it, and else judges what it does. -/
theorem render_says (h : s.Fits t) {source : String} (hslots : r.slots = t.slots source)
    (c : Condition) (hcolumns : ∀ n ∈ c.columns, ∃ f, s.requireField n = .ok f)
    (hguard : c.Guarded r) (p : Params) :
    p.Extends (c.render p).2 ∧ ((c.render p).1 = "" ↔ c.isEmpty = true) ∧
      (c.isEmpty = false → ∀ q, (c.render p).2.Extends q →
        Says (c.render p).1 { r with params := q } t fun e => c.judged r s e) := by
  refine c.render_of_build
    (P := fun q text => Says text { r with params := q } t fun e => c.judged r s e)
    (fun htests => (c.build_isBuilt h hslots hcolumns hguard htests).imp fun q x => ?_) p
  rintro ⟨y, rfl, hread, -⟩
  exact ⟨y, rfl, hread.render_ne_empty, hread.says⟩

end Condition

/-! ## Queries -/

namespace Memory

/-- In a store names mean the columns of a table. -/
def Context.over (ctx : Context) (t : Table) : Resolver :=
  ctx.resolver (t.slots t.name)

end Memory

namespace Filter

variable {f : Filter} {ctx : Context} {a : Area} {fields : List String}

theorem exists_outputs (h : s.Fits t) (hfields : ∀ n ∈ fields, ∃ g, s.requireField n = .ok g)
    (ctx : Context) : ∃ results, (columnsOf fields).mapM (outputs (ctx.over t)) = .ok results := by
  refine Except.exists_mapM_eq_ok fun c hc => ?_
  unfold columnsOf at hc
  split at hc
  · obtain rfl := List.mem_singleton.1 hc
    exact ⟨_, rfl⟩
  · obtain ⟨n, hn, rfl⟩ := List.mem_map.1 hc
    obtain ⟨g, hg⟩ := hfields n hn
    exact ⟨_, outputs_expr (h.resolve_ofName hg (r := ctx.over t) rfl) none⟩

theorem aliasesOf_columnsOf (results : List (List Output)) :
    aliasesOf (columnsOf fields) results = [] := by
  refine List.filterMap_eq_nil_iff.2 ?_
  rintro ⟨c, os⟩ hc
  have hmem := (List.of_mem_zip hc).1
  unfold columnsOf at hmem
  split at hmem
  · obtain rfl := List.mem_singleton.1 hmem
    rfl
  · obtain ⟨n, -, rfl⟩ := List.mem_map.1 hmem
    rfl

theorem any_isCount_columnsOf : (columnsOf fields).any isCount = false := by
  unfold columnsOf
  split
  · rfl
  · rw [List.any_map, List.any_eq_false]
    exact fun _ _ => Bool.false_ne_true

/-- A query of a filter whose condition judges the rows gives those that it judges true, in the
order of the filter and within its limit. -/
theorem evalSelect_judged (h : s.Fits t) (hfind : ctx.catalog.find s.table.allQuoted = .ok (a, t))
    (horder : ∀ c ∈ f.order, ∃ g, s.requireField c.1 = .ok g)
    (hfields : ∀ n ∈ fields, ∃ g, s.requireField n = .ok g) (p : Params) (x? : Option Expr)
    {v : Entry → Truth} (hnone : x? = none → ∀ e, v e = some true)
    (hjudges : ∀ x ∈ x?, Resolver.Judges { ctx.over t with params := p } t x v) :
    ∃ results, (columnsOf fields).mapM (outputs { ctx.over t with params := p }) = .ok results ∧
      evalSelect { ctx with params := p } (.mk (columnsOf fields)
        (some (.table s.table.allQuoted none)) x? (f.terms s) f.sqlLimit?) =
          .ok (results.flatten, project results.flatten
            ((f.cut (f.arrange s (t.entries.reverse.filter fun e => v e = some true))).map
              Table.rowOf)) := by
  obtain ⟨results, hresults⟩ := exists_outputs h hfields { ctx with params := p }
  have hsource : evalFrom { ctx with params := p } (some (.table s.table.allQuoted none)) =
      .ok ⟨t.slots t.name, t.scan⟩ := by
    rw [evalFrom, evalSource, hfind]
    rfl
  obtain ⟨c, hc, hholds⟩ : ∃ c,
      Resolver.resolveCondition { ctx.over t with params := p } x? = .ok c ∧
      ∀ e ∈ t.entries, c.holds (Table.rowOf e) = decide (v e = some true) := by
    cases x? with
    | none => exact ⟨_, rfl, fun e _ => by rw [hnone rfl e]; rfl⟩
    | some x =>
        obtain ⟨b, hb, hv⟩ := hjudges x rfl
        exact ⟨b.term, by rw [Resolver.resolveCondition, hb]; rfl, fun e he => by
          rw [Term.holds, Storage.holds, hv e he]⟩
  have hterms : orderTerms { ctx.over t with params := p } (f.terms s) = .ok (f.orderSlots s) :=
    orderTerms_eq h (Catalog.name_of_find_allQuoted hfind) horder rfl
  -- no result has an alias
  have haliases : ({ ctx.over t with
      params := p, aliases := aliasesOf (columnsOf fields) results } : Resolver) =
        { ctx.over t with params := p } := by
    rw [aliasesOf_columnsOf]
    rfl
  rw [← haliases] at hc hterms
  refine ⟨results, hresults, ?_⟩
  rw [evalSelect_rows hsource hresults hc hterms any_isCount_columnsOf]
  dsimp only
  rw [scan_filter hholds, sortRows_map, cutRows_map]

end Filter

/-! ## Meaning kept -/

/-- Texts of the caller's own keep their meaning.  A text that by itself is an expression whose first
question marks are its parameters may stand anywhere in a condition, but beside an `AND` only if it
is no alternative.  Then the text of the condition is read as one expression, which judges every row
as the tree does from what the texts judge by themselves, each with its own values for parameters.
The statement of a filter's query is read as a query with such a condition, and gives the rows for
which it is true. -/
theorem fragments_keep_their_meaning {b : SchemaBuilder} (hb : b.build = .ok s)
    (hstate : s.TableState t) {ctx : Context} {a : Area}
    (hfind : ctx.catalog.find s.table.allQuoted = .ok (a, t)) :
    (∀ c : Condition, (∀ n ∈ c.columns, ∃ f, s.requireField n = .ok f) → c.Guarded (ctx.over t) →
      ∀ p : Params, p.Extends (c.render p).2 ∧ ((c.render p).1 = "" ↔ c.isEmpty = true) ∧
        (c.isEmpty = false → ∀ q, (c.render p).2.Extends q →
          Says (c.render p).1 { ctx.over t with params := q } t
            fun e => c.judged (ctx.over t) s e)) ∧
    ∀ (f : Filter) (fields : List String), (∀ n ∈ f.columns, ∃ g, s.requireField n = .ok g) →
      (Condition.all f.conditions).Guarded (ctx.over t) →
      (∀ n ∈ fields, ∃ g, s.requireField n = .ok g) →
      ∃ q ps ts x? results, f.select s fields = .ok (q, ps) ∧
        Token.scan q.render = ts.map Token.limited ∧ numberParams 0 ts = ts ∧
        ofTokens? ts = some (.select (.mk (Filter.columnsOf fields)
          (some (.table s.table.allQuoted none)) x? (f.terms s) f.sqlLimit?)) ∧
        (x? = none ↔ ∀ c ∈ f.conditions, c.isEmpty = true) ∧
        (∀ x ∈ x?, Resolver.Judges { ctx.over t with params := ps } t x fun e =>
          Truth.conjunction (Condition.judgedAll (ctx.over t) s e f.conditions)) ∧
        (Filter.columnsOf fields).mapM (outputs { ctx.over t with params := ps }) = .ok results ∧
        evalSelect { ctx with params := ps } (.mk (Filter.columnsOf fields)
          (some (.table s.table.allQuoted none)) x? (f.terms s) f.sqlLimit?) =
            .ok (results.flatten, project results.flatten
              ((f.cut (f.arrange s (t.entries.reverse.filter fun e => Truth.conjunction
                (Condition.judgedAll (ctx.over t) s e f.conditions) = some true))).map
                  Table.rowOf)) := by
  have hfits := Schema.fits_of_tableState hstate
  refine ⟨fun c hcolumns hguard p => c.render_says hfits rfl hcolumns hguard p, ?_⟩
  intro f fields hcolumns hguard hfields
  have hparts := Schema.length_parts_of_tableState hstate
  have hnul {n : String} (hn : ∃ g, s.requireField n = .ok g) : '\x00' ∉ n.toList :=
    hn.elim fun g hg => Schema.nul_notMem_field hg
  have hordered : ∀ c ∈ f.order, ∃ g, s.requireField c.1 = .ok g := fun c hc =>
    hcolumns c.1 (List.mem_append_right _ (List.mem_map_of_mem hc))
  have hempty : (Condition.all f.conditions).isEmpty = true ↔ ∀ c ∈ f.conditions,
      c.isEmpty = true := by
    rw [Condition.isEmpty, Condition.allEmpty_eq, List.all_eq_true]
  have hreads {y? x? : Option Expr} {ts? : Option (List Token)} := @Filter.select_reads s f fields
    y? x? ts? hparts (SchemaBuilder.nul_notMem_table hb) (fun n hn => hnul (hfields n hn))
    (fun c hc => hnul (hordered c hc))
  have hselect := Filter.select_ok hcolumns fields
  cases htests : (Condition.all f.conditions).isEmpty with
  | true =>
      have hbuilt : f.build #[] = (none, #[]) := Condition.build_of_isEmpty _ htests #[]
      have hjudged (e : Entry) : Truth.conjunction
          (Condition.judgedAll (ctx.over t) s e f.conditions) = some true := by
        rw [Condition.judgedAll_eq,
          List.filter_eq_nil_iff.2 fun c hc => by simp [hempty.1 htests c hc]]
        rfl
      rw [hbuilt] at hselect
      obtain ⟨ts, hscan, hnumbers, hread⟩ := @hreads none none none .none (by simp) .none
      obtain ⟨results, hresults, hrows⟩ := Filter.evalSelect_judged hfits hfind hordered hfields
        #[] none (fun _ => hjudged) nofun
      exact ⟨_, _, ts, none, results, hselect, hscan, hnumbers, hread,
        by simp [← hempty, htests], nofun, hresults, hrows⟩
  | false =>
      obtain ⟨y, hy, ⟨x, us, hlex, hclosed, hform, hjudges⟩, -⟩ :=
        ((Condition.all f.conditions).build_isBuilt hfits (r := ctx.over t) rfl
          (fun n hn => hcolumns n (List.mem_append_left _ hn)) hguard htests #[]).2 _ (.refl _)
      have hbuilt : (f.build #[]).1 = some y := hy
      rw [hbuilt] at hselect
      simp only [Condition.judged] at hjudges
      obtain ⟨ts, hscan, hnumbers, hread⟩ := @hreads (some y) (some x) (some us) (.some hlex)
        (by simpa using hclosed) (.some hform)
      obtain ⟨results, hresults, hrows⟩ := Filter.evalSelect_judged hfits hfind hordered hfields
        (f.build #[]).2 (some x) nofun (by rintro _ ⟨⟩; exact hjudges)
      refine ⟨_, _, ts, some x, results, hselect, hscan, hnumbers, hread,
        by simp [← hempty, htests], ?_, hresults, hrows⟩
      rintro _ ⟨⟩
      exact hjudges

/-! ## Three rows -/

namespace ThreeRows

/-- An alternative with a question mark in a literal behind those that are parameters. -/
def alternative : String :=
  "\"id\" = ? OR \"id\" = ? OR \"x\" = '?'"

def alternativeTokens : List Token :=
  [.name "id", .equal, .param none, .keyword .or, .name "id", .equal, .param none, .keyword .or,
    .name "x", .equal, .text "?"]

theorem lexes_alternative : Lexes alternative alternativeTokens := by
  have hequal : Separates " = " [.equal] := separates_comparison .eq
  have hid : Lexes (quoteName "id" ++ (" = " ++ "?")) [.name "id", .equal, .param none] :=
    (lexes_quoteName (by decide)).append (hequal.append_lexes lexes_question) rfl
  have hx : Lexes (quoteName "x" ++ (" = " ++ (Expr.literal (.text "?")).render))
      [.name "x", .equal, .text "?"] :=
    (lexes_quoteName (by decide)).append (hequal.append_lexes (Expr.lexes_text (by decide)))
      rfl
  have htext : alternative = quoteName "id" ++ (" = " ++ "?") ++ " OR " ++
      (quoteName "id" ++ (" = " ++ "?")) ++ " OR " ++
      (quoteName "x" ++ (" = " ++ (Expr.literal (.text "?")).render)) := by
    decide +kernel
  rw [htext]
  exact (hid.or hid).or hx

def alternativeExpr : Expr :=
  .or (.or (.compare .eq (.ofName "id") (.param (some 1)))
    (.compare .eq (.ofName "id") (.param (some 2))))
    (.compare .eq (.ofName "x") (.literal (.text "?")))

theorem isUnit_alternative : IsUnit alternative 2 alternativeExpr := by
  have hscan := lexes_alternative.scan_eq
  refine ⟨?_, hscan.symm ▸ lexes_alternative, ?_, ?_, ?_, ?_⟩
  · unfold ownExpr?
    rw [hscan]
    rfl
  · rw [hscan]
    decide
  · rw [hscan]
    simp [alternativeTokens]
  · rw [hscan]
    rfl
  · refine ⟨"\"id\" = ? OR \"id\" = ?".toList, " OR \"x\" = '?'".toList, rfl, .inr rfl, rfl, ?_,
      by simp⟩
    unfold Token.Tight
    decide +kernel

/-- The store with the table and nothing else. -/
def context : Context :=
  ⟨⟨[table 3 entries], []⟩, #[], 0⟩

/-- A row with `x` equal to five for which the alternative is true, whose group gives it
parentheses. -/
def chosen : Filter :=
  ⟨[.test "x" .eq (.integer 5), .any [.template alternative [.integer 1, .integer 2]]], [], none,
    none⟩

theorem find_table :
    context.catalog.find schema.table.allQuoted = .ok (.main, table 3 entries) := by
  with_unfolding_all rfl

def alternativeTerm : Term :=
  .or (.or (.compare .eq .integer (.slot 1) (.cell (.integer 1)))
    (.compare .eq .integer (.slot 1) (.cell (.integer 2))))
    (.compare .eq .integer (.slot 2) (.cell (.text "?")))

theorem guarded_chosen :
    (Condition.all chosen.conditions).Guarded (context.over (table 3 entries)) := by
  have halone : (context.over (table 3 entries)).StandsAlone alternative [.integer 1, .integer 2] :=
    ⟨alternativeExpr, ⟨alternativeTerm, .none⟩, isUnit_alternative, by with_unfolding_all rfl⟩
  exact ⟨⟨trivial, ⟨halone, trivial⟩, trivial⟩, .inr (by simp [chosen, Condition.isAlternative])⟩

end ThreeRows

open ThreeRows in
/-- The alternative in its group: the row with the key two passes it, but not the other condition. -/
theorem fragments_keep_their_meaning_of_three :
    ∃ q ps ts x? results, chosen.select schema [] = .ok (q, ps) ∧
      q.render = "SELECT * FROM \"t\" WHERE \"x\" = ?1 AND " ++
        "(\"id\" = ?2 OR \"id\" = ?3 OR \"x\" = '?')" ∧
      Token.scan q.render = ts.map Token.limited ∧
      ofTokens? ts = some (.select (.mk [.all] (some (.table schema.table.allQuoted none)) x? []
        none)) ∧
      evalSelect { context with params := ps } (.mk [.all]
        (some (.table schema.table.allQuoted none)) x? [] none) =
          .ok (results, [#[.integer 1, .integer 5]]) := by
  have hcolumns : ∀ n ∈ chosen.columns, ∃ g, schema.requireField n = .ok g :=
    fun n hn => declared n ((show chosen.columns ⊆ ["id", "x"] by decide) hn)
  obtain ⟨q, ps, ts, x?, results, hselect, hscan, -, hread, -, -, hresults, hrows⟩ :=
    (fragments_keep_their_meaning build_builder tableState find_table).2 chosen [] hcolumns
      guarded_chosen nofun
  obtain rfl : results = [[⟨"id", .slot 1, .integer⟩, ⟨"x", .slot 2, .integer⟩]] :=
    Except.ok.inj (hresults.symm.trans rfl)
  refine ⟨q, ps, ts, x?, _, hselect, ?_, hscan, hread,
    hrows.trans (congrArg (fun rows => Except.ok (_, rows)) ?_)⟩
  · have hq := Except.ok.inj (hselect.symm.trans (Filter.select_ok hcolumns []))
    obtain ⟨rfl, rfl⟩ := Prod.mk.inj hq
    decide +kernel
  · decide +kernel

end StagedStore
