import StagedStore.Proofs.Filter.Meaning
import StagedStore.Proofs.Memory.Query

/-!
# Conditions on rows

The expression that is built for a condition gives the condition's verdict on every row of the
table, under whatever parameters begin with those bound so far.
-/

namespace StagedStore

open Memory

variable {s : Schema} {t : Table}

/-- An expression gives truth values on the rows of a table, in whatever query its names mean the
table's columns. -/
def Sql.Expr.Gives (x : Sql.Expr) (t : Table) (q : Sql.Params) (v : Entry → Truth) : Prop :=
  ∀ (r : Resolver) (source : String), r.slots = t.slots source → r.params = q →
    ∃ a, r.resolve x = .ok a ∧ ∀ e ∈ t.entries, a.term.eval (Table.rowOf e) = .ofTruth (v e)

theorem Affinity.forComparison_none (f : Affinity) : f.forComparison .none = f := by
  cases f <;> rfl

theorem Term.eval_negatedIf {a : Term} {row : Array Storage} {v : Truth}
    (h : a.eval row = .ofTruth v) (negated : Bool) :
    (Term.negatedIf negated a).eval row = .ofTruth (v.negateIf negated) := by
  cases negated with
  | false => exact h
  | true =>
      change (a.eval row).negate = _
      rw [h, Storage.negate_ofTruth]
      rfl

/-! ## Columns -/

theorem Schema.fieldAffinity_eq {name : String} {f : Field} (h : s.requireField name = .ok f) :
    s.fieldAffinity name = f.affinity := by
  unfold requireField at h
  split at h
  · rename_i g hg
    rw [fieldAffinity, hg, Except.ok.inj h]
    rfl
  · simp at h

theorem Schema.eval_slot (s : Schema) (name : String) (e : Entry) :
    (Term.slot (1 + s.fieldIndex name)).eval (Table.rowOf e) = s.fieldCell name e := by
  have h := Table.getElem?_append_rowOf (l := #[]) (n := 0) rfl e (s.fieldIndex name)
  simp only [Array.empty_append, Nat.zero_add] at h
  rw [Term.eval, h]
  rfl

namespace Schema.Fits

variable (h : s.Fits t) {name : String} {f : Field} (hf : s.requireField name = .ok f)

include h hf

/-- The name of a field means its column. -/
theorem resolve_ofName {r : Resolver} {source : String} (hr : r.slots = t.slots source) :
    r.resolve (.ofName name) = .ok ⟨.slot (1 + s.fieldIndex name), s.fieldAffinity name⟩ := by
  rw [fieldAffinity_eq hf]
  obtain ⟨hi, rfl⟩ := getElem?_fieldIndex hf
  refine (h.resolve_field (q := none) [] [] source (by simpa using hr) (by simp) (by simp)
    (by simp) hi).trans ?_
  simp

/-- A cell is in the form in which its column keeps it. -/
theorem store_fieldCell {e : Entry} (he : e ∈ t.entries) :
    (s.fieldAffinity name).store (s.fieldCell name e) = s.fieldCell name e := by
  rw [fieldAffinity_eq hf]
  exact (h.rows e he).stored _ f (getElem?_fieldIndex hf).1

end Schema.Fits

/-- A comparison of a field's cell. -/
theorem Schema.eval_compare (s : Schema) (c : Sql.Comparison) (name : String) (v : Storage)
    (e : Entry) :
    (Term.compare c (s.fieldAffinity name) (.slot (1 + s.fieldIndex name)) (.cell v)).eval
      (Table.rowOf e) =
        .ofTruth ((s.fieldCell name e).compareBy c (s.fieldAffinity name) v).truth? := by
  rw [Term.eval, s.eval_slot, Term.eval, Storage.ofTruth_compareBy]

/-! ## Tests -/

theorem Resolver.resolve_param {r : Resolver} {q : Sql.Params} {n : Nat} {v : Storage}
    (hparams : r.params = q) (hv : Sql.paramValue q n = v) :
    r.resolve (.param (some n)) = .ok ⟨.cell v, .none⟩ := by
  rw [resolve, param, hparams, ← hv, Sql.paramValue]

namespace Sql.Expr

variable (h : s.Fits t) {name : String} {f : Field} (hf : s.requireField name = .ok f)
  {q : Params} {n : Nat} {v : Storage}

include h hf

theorem gives_test (op : TestOp) (hv : paramValue q n = v) :
    (op.apply (.ofName name) (.param (some n))).Gives t q fun e =>
      op.verdict (s.fieldAffinity name) (s.fieldCell name e) v := by
  intro r source hr hparams
  have hname := h.resolve_ofName hf hr
  have hparam := Resolver.resolve_param hparams hv
  have hcompare (c : Comparison) : r.resolve (.compare c (.ofName name) (.param (some n))) =
      .ok ⟨.compare c (s.fieldAffinity name) (.slot (1 + s.fieldIndex name)) (.cell v), .none⟩ := by
    rw [Resolver.resolve, hname, Except.ok_bind, hparam, Except.ok_bind]
    simp only [Affinity.forComparison_none]
    rfl
  have hlike (negated : Bool) : r.resolve (.like negated (.ofName name) (.param (some n))) =
      .ok ⟨.negatedIf negated (.like (.slot (1 + s.fieldIndex name)) (.cell v)), .none⟩ := by
    rw [Resolver.resolve, hname, Except.ok_bind, hparam, Except.ok_bind]
    rfl
  have hliked (e : Entry) :
      (Term.like (.slot (1 + s.fieldIndex name)) (.cell v)).eval (Table.rowOf e) =
        .ofTruth ((s.fieldCell name e).like v).truth? := by
    rw [Term.eval, s.eval_slot, Term.eval, Storage.ofTruth_like]
  cases op with
  | like => exact ⟨_, hlike false, fun e _ => Term.eval_negatedIf (hliked e) false⟩
  | notLike => exact ⟨_, hlike true, fun e _ => Term.eval_negatedIf (hliked e) true⟩
  | _ => exact ⟨_, hcompare _, fun e _ => s.eval_compare _ name v e⟩

theorem gives_nullCheck (negated : Bool) :
    (nullCheck negated (.ofName name)).Gives t q fun e =>
      Truth.negateIf negated (some (s.fieldCell name e).isNull) := by
  intro r source hr _
  refine ⟨⟨.negatedIf negated (.isNull (.slot (1 + s.fieldIndex name))), .none⟩, ?_, ?_⟩
  · rw [Resolver.resolve, h.resolve_ofName hf hr]
    rfl
  · refine fun e _ => Term.eval_negatedIf ?_ negated
    rw [Term.eval, s.eval_slot]
    rfl

theorem gives_between {m : Nat} {w : Storage} (hv : paramValue q n = v) (hw : paramValue q m = w)
    (negated : Bool) :
    (between negated (.ofName name) (.param (some n)) (.param (some m))).Gives t q fun e =>
      Truth.negateIf negated (Truth.conjunction
        [TestOp.ge.verdict (s.fieldAffinity name) (s.fieldCell name e) v,
          TestOp.le.verdict (s.fieldAffinity name) (s.fieldCell name e) w]) := by
  intro r source hr hparams
  refine ⟨⟨.negatedIf negated (.and
    (.compare .ge (s.fieldAffinity name) (.slot (1 + s.fieldIndex name)) (.cell v))
    (.compare .le (s.fieldAffinity name) (.slot (1 + s.fieldIndex name)) (.cell w))), .none⟩, ?_,
    fun e _ => Term.eval_negatedIf ?_ negated⟩
  · rw [Resolver.resolve, h.resolve_ofName hf hr, Except.ok_bind,
      Resolver.resolve_param hparams hv, Except.ok_bind, Resolver.resolve_param hparams hw,
      Except.ok_bind]
    simp only [Affinity.forComparison_none]
    rfl
  · rw [Term.eval, s.eval_compare, s.eval_compare,
      ← Truth.conjunction_singleton ((s.fieldCell name e).compareBy .ge _ v).truth?]
    exact Storage.conjoin_ofTruth _ _

theorem gives_inList {es : List Expr} {vs : List Storage}
    (hvs : List.Forall₂ (fun v x => ∃ n, x = .param (some n) ∧ paramValue q n = v) vs es)
    (negated : Bool) :
    (inList negated (.ofName name) es).Gives t q fun e =>
      Truth.negateIf negated (Truth.disjunction (vs.map fun v =>
        TestOp.eq.verdict (s.fieldAffinity name) (s.fieldCell name e) v)) := by
  intro r source hr hparams
  have hmembers : r.resolveAll es = .ok (vs.map Term.cell) := by
    refine Resolver.resolveAll_eq (List.forall₂_map_right_iff.2 (hvs.flip.imp ?_))
    rintro _ v ⟨n, rfl, hv⟩
    exact ⟨.none, Resolver.resolve_param hparams hv⟩
  refine ⟨⟨.negatedIf negated (.inSet (s.fieldAffinity name) (.slot (1 + s.fieldIndex name))
    (.ofList (s.fieldAffinity name) vs)), .none⟩, ?_, fun e he => Term.eval_negatedIf ?_ negated⟩
  · rw [Resolver.resolve, h.resolve_ofName hf hr, Except.ok_bind, hmembers, Except.ok_bind]
    simp only [Term.ofMembers_cells]
    rfl
  · rw [Term.eval, s.eval_slot, CellSet.member_ofList (h.store_fieldCell hf he)]
    rfl

end Sql.Expr

/-! ## Combinations -/

namespace Sql.Expr

variable {q : Params} {x y : Expr} {v w : Entry → Truth}

theorem gives_truth (b : Bool) : (Condition.truth b).Gives t q fun _ => some b := by
  intro r source _ _
  refine ⟨⟨.compare .eq .none (.cell (.integer 1)) (.cell (.integer (if b then 1 else 0))), .none⟩,
    rfl, fun e _ => ?_⟩
  cases b <;> rfl

theorem Gives.paren (h : x.Gives t q v) : (paren x).Gives t q v := by
  intro r source hr hparams
  rw [Resolver.resolve]
  exact h r source hr hparams

theorem Gives.not (h : x.Gives t q v) : (not x).Gives t q fun e => (v e).negate := by
  intro r source hr hparams
  obtain ⟨a, ha, hv⟩ := h r source hr hparams
  refine ⟨⟨.not a.term, .none⟩, by rw [Resolver.resolve, ha]; rfl, fun e he => ?_⟩
  rw [Term.eval, hv e he, Storage.negate_ofTruth]

variable {vs : Entry → List Truth}

theorem Gives.and (h : x.Gives t q fun e => Truth.conjunction (vs e)) (h' : y.Gives t q w) :
    (and x y).Gives t q fun e => Truth.conjunction (vs e ++ [w e]) := by
  intro r source hr hparams
  obtain ⟨a, ha, hv⟩ := h r source hr hparams
  obtain ⟨b, hb, hw⟩ := h' r source hr hparams
  refine ⟨_, Resolver.resolve_and ha hb, fun e he => ?_⟩
  rw [Term.eval, hv e he, hw e he, Storage.conjoin_ofTruth]

theorem Gives.or (h : x.Gives t q fun e => Truth.disjunction (vs e)) (h' : y.Gives t q w) :
    (or x y).Gives t q fun e => Truth.disjunction (vs e ++ [w e]) := by
  intro r source hr hparams
  obtain ⟨a, ha, hv⟩ := h r source hr hparams
  obtain ⟨b, hb, hw⟩ := h' r source hr hparams
  refine ⟨_, Resolver.resolve_or ha hb, fun e he => ?_⟩
  rw [Term.eval, hv e he, hw e he, Storage.disjoin_ofTruth]

end Sql.Expr

/-- Joined expressions give what an operator makes of all that the single ones give, whatever giving
means. -/
theorem Condition.joinBy_gives {op : Sql.Expr → Sql.Expr → Sql.Expr} {g : List Truth → Truth}
    {G : Sql.Expr → (Entry → Truth) → Prop} (hone : ∀ v, g [v] = v)
    (hop : ∀ {x y : Sql.Expr} {vs : Entry → List Truth} {w : Entry → Truth},
      G x (fun e => g (vs e)) → G y w → G (op x y) fun e => g (vs e ++ [w e]))
    {α : Type} {ms : List α} {verdict : α → Entry → Truth} {es : List Sql.Expr}
    (h : List.Forall₂ (fun m x => G x (verdict m)) ms es) {x : Sql.Expr}
    (hx : joinBy op es = some x) : G x fun e => g (ms.map fun m => verdict m e) := by
  have hfold {ms : List α} {es : List Sql.Expr}
      (h : List.Forall₂ (fun m x => G x (verdict m)) ms es) {x : Sql.Expr}
      (vs : Entry → List Truth) (hvs : G x fun e => g (vs e)) :
      G (es.foldl op x) fun e => g (vs e ++ ms.map fun m => verdict m e) := by
    induction h generalizing x vs with
    | nil => simpa using hvs
    | @cons m y ms es hy _ ih =>
        simpa using ih _ (hop hvs hy)
  cases h with
  | nil => simp [joinBy] at hx
  | @cons m y ms es hy h =>
      obtain rfl := Option.some.inj hx
      refine hfold h (fun e => [verdict m e]) ?_
      simpa only [hone] using hy

/-! ## Conditions -/

/-- What is built for a condition gives its verdict. -/
theorem Condition.build_gives (h : s.Fits t) (c : Condition)
    (hcolumns : ∀ n ∈ c.columns, ∃ f, s.requireField n = .ok f) (hfree : c.hasFragment = false)
    (htests : c.isEmpty = false) :
    Sql.Binds c.build fun q x => ∃ y, x = some y ∧ y.Gives t q fun e => c.verdict s e := by
  have hmembers {cs : List Condition} (hall : ∀ c ∈ cs, c.isEmpty = false →
      Sql.Binds c.build fun q x => ∃ y, x = some y ∧ y.Gives t q fun e => c.verdict s e) :
      Sql.Binds (buildAll cs) fun q xs => List.Forall₂
        (fun c x => x.Gives t q fun e => c.verdict s e) (cs.filter fun c => !c.isEmpty) xs := by
    refine binds_buildAll fun c hc hne => (hall c hc hne).imp fun q x => ?_
    rintro ⟨y, rfl, hy⟩
    refine ⟨y, rfl, ?_⟩
    split
    · exact hy.paren
    · exact hy
  cases c with
  | all cs =>
      rw [build]
      refine Sql.binds_map (hmembers fun c hc => build_gives h c
        (fun n hn => hcolumns n (mem_allColumns hc hn)) (hasFragment_of_mem hfree hc)) ?_
      intro q xs hxs
      obtain ⟨y, hy⟩ := joinBy_eq_some .and (ne_nil_of_members htests hxs)
      simp only [verdict, verdicts_eq]
      exact ⟨y, hy, joinBy_gives (G := fun x v => x.Gives t q v)
        Truth.conjunction_singleton .and hxs hy⟩
  | any cs =>
      rw [build]
      refine Sql.binds_map (hmembers fun c hc => build_gives h c
        (fun n hn => hcolumns n (mem_allColumns hc hn)) (hasFragment_of_mem hfree hc)) ?_
      intro q xs hxs
      obtain ⟨y, hy⟩ := joinBy_eq_some .or (ne_nil_of_members htests hxs)
      simp only [verdict, verdicts_eq]
      exact ⟨y, hy, joinBy_gives (G := fun x v => x.Gives t q v)
        Truth.disjunction_singleton .or hxs hy⟩
  | not c =>
      rw [build]
      refine Sql.binds_map (build_gives h c hcolumns hfree htests) fun q x hx => ?_
      obtain ⟨y, rfl, hy⟩ := hx
      exact ⟨_, rfl, by simpa only [verdict] using hy.paren.not⟩
  | test column op v =>
      obtain ⟨f, hf⟩ := hcolumns column (by simp [columns])
      rw [build]
      refine Sql.binds_bind (Sql.binds_bindValue _) fun x => Sql.binds_pure fun q hx => ?_
      obtain ⟨n, rfl, hn⟩ := hx
      simp only [verdict]
      exact ⟨_, rfl, Sql.Expr.gives_test h hf op hn⟩
  | null column negated =>
      obtain ⟨f, hf⟩ := hcolumns column (by simp [columns])
      rw [build]
      simp only [verdict]
      exact Sql.binds_pure fun q => ⟨_, rfl, Sql.Expr.gives_nullCheck h hf negated⟩
  | member column values negated =>
      obtain ⟨f, hf⟩ := hcolumns column (by simp [columns])
      rw [build]
      simp only [verdict]
      cases values with
      | nil =>
          refine Sql.binds_pure fun q => ⟨_, rfl, ?_⟩
          cases negated <;> exact Sql.Expr.gives_truth _
      | cons v vs =>
          refine Sql.binds_map (Sql.binds_mapM fun v _ => Sql.binds_bindValue _) fun q xs hxs => ?_
          have hcells : List.Forall₂ (fun v x => ∃ n, x = .param (some n) ∧ Sql.paramValue q n = v)
              ((v :: vs).map Value.boundCell) xs := List.forall₂_map_left_iff.2 hxs
          have hgives := Sql.Expr.gives_inList h hf hcells negated
          simp only [List.map_map] at hgives
          exact ⟨_, rfl, hgives⟩
  | between column low high negated =>
      obtain ⟨f, hf⟩ := hcolumns column (by simp [columns])
      rw [build]
      refine Sql.binds_bind (Sql.binds_bindValue _) fun l =>
        Sql.binds_bind (Sql.binds_bindValue _) fun u => Sql.binds_pure fun q hu hl => ?_
      obtain ⟨n, rfl, hn⟩ := hl
      obtain ⟨m, rfl, hm⟩ := hu
      simp only [verdict]
      exact ⟨_, rfl, Sql.Expr.gives_between h hf hn hm negated⟩
  | template sql values => simp [hasFragment] at hfree
  | raw sql => simp [hasFragment] at hfree
  | always =>
      rw [build]
      simp only [verdict]
      exact Sql.binds_pure fun q => ⟨_, rfl, Sql.Expr.gives_truth true⟩
  | never =>
      rw [build]
      simp only [verdict]
      exact Sql.binds_pure fun q => ⟨_, rfl, Sql.Expr.gives_truth false⟩
termination_by sizeOf c

end StagedStore
