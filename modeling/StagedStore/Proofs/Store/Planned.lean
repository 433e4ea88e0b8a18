import StagedStore.Proofs.Filter.Statements
import StagedStore.Proofs.Update.Compile
import StagedStore.Proofs.Update.RowWise
import StagedStore.Store.Patch

/-!
# Planned patches

The query of a patch takes the key, then the new value of each field that changes, and then the
further fields that are told. The amounts are its first parameters, and the filter's values stand
behind them.
-/

namespace StagedStore

open Memory Sql

/-! ## New values as columns -/

/-- The columns of the new values of fields, with the parameters before and behind them. -/
inductive Assigns (s : Schema) :
    Params → List (String × Delta) → List ResultColumn → Params → Prop
  | nil (p : Params) : Assigns s p [] [] p
  | set {p q : Params} {n : String} {f : Field} {v : Value} {w : Storage}
      {ds : List (String × Delta)} {cs : List ResultColumn} (hf : s.requireField n = .ok f)
      (hw : f.encode v = .ok w) (h : Assigns s (p.push w) ds cs q) :
      Assigns s p ((n, .set v) :: ds)
        (.expr (.param (some (p.size + 1))) (some (.quoted n)) :: cs) q
  | unset {p q : Params} {n : String} {f : Field} {ds : List (String × Delta)}
      {cs : List ResultColumn} (hf : s.requireField n = .ok f) (h : Assigns s p ds cs q) :
      Assigns s p ((n, .unset) :: ds) (.expr (.literal .null) (some (.quoted n)) :: cs) q
  | increment {p q : Params} {n : String} {f : Field} {v : Value} {w : Storage}
      {ds : List (String × Delta)} {cs : List ResultColumn} (hf : s.requireField n = .ok f)
      (hw : f.encode v = .ok w) (h : Assigns s (p.push w) ds cs q) :
      Assigns s p ((n, .increment v) :: ds)
        (.expr (.add (.ofName n) (.param (some (p.size + 1)))) (some (.quoted n)) :: cs) q

namespace Assigns

variable {s : Schema} {t : Table} {p q : Params} {ds : List (String × Delta)}
  {cs : List ResultColumn}

theorem bindValue_ok {f : Field} {v : Value} {x : Expr} (h : (bindValue f v).run p = .ok (x, q)) :
    ∃ w, f.encode v = .ok w ∧ x = .param (some (p.size + 1)) ∧ q = p.push w := by
  obtain ⟨⟨w, p'⟩, hw, h⟩ := Except.bind_eq_ok_iff.1 h
  obtain ⟨w', hw', hpair⟩ := Except.bind_eq_ok_iff.1 hw
  obtain ⟨rfl, rfl⟩ := Prod.mk.inj (Except.ok.inj hpair)
  obtain ⟨rfl, rfl⟩ := Prod.mk.inj (Except.ok.inj h)
  exact ⟨w', hw', rfl, rfl⟩

theorem of_run (h : (ds.mapM (patchColumn s)).run p = .ok (cs, q)) : Assigns s p ds cs q := by
  induction ds generalizing p cs with
  | nil =>
      obtain ⟨rfl, rfl⟩ := Prod.mk.inj (Except.ok.inj h)
      exact .nil p
  | cons d ds ih =>
      rw [List.mapM_cons, StateT.run_bind] at h
      obtain ⟨⟨c, p₁⟩, hc, h⟩ := Except.bind_eq_ok_iff.1 h
      rw [StateT.run_bind] at h
      obtain ⟨⟨cs', p₂⟩, hcs, h⟩ := Except.bind_eq_ok_iff.1 h
      obtain ⟨rfl, rfl⟩ := Prod.mk.inj (Except.ok.inj h)
      have hrest := ih hcs
      obtain ⟨n, d⟩ := d
      obtain ⟨⟨f, p'⟩, hf, hc⟩ := Except.bind_eq_ok_iff.1 hc
      obtain ⟨f', hf', hpair⟩ := Except.bind_eq_ok_iff.1 hf
      obtain ⟨rfl, rfl⟩ := Prod.mk.inj (Except.ok.inj hpair)
      obtain ⟨⟨x, p''⟩, hx, hc⟩ := Except.bind_eq_ok_iff.1 hc
      obtain ⟨rfl, rfl⟩ := Prod.mk.inj (Except.ok.inj hc)
      cases d with
      | set v =>
          obtain ⟨w, hw, rfl, rfl⟩ := bindValue_ok hx
          exact .set hf' hw hrest
      | unset =>
          obtain ⟨rfl, rfl⟩ := Prod.mk.inj (Except.ok.inj hx)
          exact .unset hf' hrest
      | increment v =>
          obtain ⟨⟨y, p₃⟩, hy, hx⟩ := Except.bind_eq_ok_iff.1 hx
          obtain ⟨w, hw, rfl, rfl⟩ := bindValue_ok hy
          obtain ⟨rfl, rfl⟩ := Prod.mk.inj (Except.ok.inj hx)
          rw [(Schema.getElem?_fieldIndex hf').2]
          exact .increment hf' hw hrest

theorem params_extends (h : Assigns s p ds cs q) : p.Extends q := by
  induction h with
  | nil p => exact .refl p
  | set _ _ _ ih => exact (Params.extends_push _ _).trans ih
  | unset _ _ ih => exact ih
  | increment _ _ _ ih => exact (Params.extends_push _ _).trans ih

theorem declared (h : Assigns s p ds cs q) : ∀ d ∈ ds, ∃ f, s.requireField d.1 = .ok f := by
  induction h with
  | nil => simp
  | set hf _ _ ih => exact List.forall_mem_cons.2 ⟨⟨_, hf⟩, ih⟩
  | unset hf _ ih => exact List.forall_mem_cons.2 ⟨⟨_, hf⟩, ih⟩
  | increment hf _ _ ih => exact List.forall_mem_cons.2 ⟨⟨_, hf⟩, ih⟩

/-- The columns and their tokens, in which the parameters are numbered one after the other. -/
theorem exists_columns (h : Assigns s p ds cs q) :
    ∃ css, List.Forall₂ (Filter.Column s) css cs ∧ css.foldl largestParam p.size = q.size := by
  induction h with
  | nil p => exact ⟨[], .nil, rfl⟩
  | @set p q n f v w ds cs hf _ _ ih =>
      obtain ⟨css, hcss, hlast⟩ := ih
      refine ⟨[.param (some (p.size + 1)), .keyword .as, .name n] :: css, .cons ?_ hcss, ?_⟩
      · exact Filter.column_labelled [.param (some (p.size + 1))] hf
          (.one (.one ((readAgain 20).negation rfl))) (lexes_param _) (by simp)
          (by simp [Expr.leaves, Expr.isPlainLeaf]) (by simp)
      · rw [← hlast, Array.size_push]
        simp [largestParam]
  | @unset p q n f ds cs hf _ ih =>
      obtain ⟨css, hcss, hlast⟩ := ih
      refine ⟨[.keyword .null, .keyword .as, .name n] :: css, .cons ?_ hcss, hlast⟩
      exact Filter.column_labelled [.keyword .null] hf
        (.one (.one ((readAgain 20).negation rfl))) (lexes_keyword (by decide)) (by simp)
        (by simp [Expr.leaves, Expr.isPlainLeaf]) (by simp)
  | @increment p q n f v w ds cs hf _ _ ih =>
      obtain ⟨css, hcss, hlast⟩ := ih
      have hmark : Separates "+" [.symbol '+'] := separates_mark '+' rfl (by decide) fun _ => rfl
      have hplus : Separates (" " ++ ("+" ++ " ")) [.symbol '+'] :=
        separates_blank.append (hmark.append separates_blank)
      have htext : " + " = " " ++ ("+" ++ " ") := rfl
      refine ⟨[.name n, .symbol '+', .param (some (p.size + 1)), .keyword .as, .name n] :: css,
        .cons ?_ hcss, ?_⟩
      · refine Filter.column_labelled [.name n, .symbol '+', .param (some (p.size + 1))] hf
          (.one (.one ((readAgain 20).negation rfl))) ?_ (by simp)
          (by simp [Expr.leaves, Expr.isPlainLeaf, Expr.ofName]) (by simp)
        rw [Expr.render, String.append_assoc, htext]
        exact (Expr.lexes_ofName (Schema.nul_notMem_field hf)).append
          (hplus.append_lexes (lexes_param _)) (by simp [startsApart])
      · rw [← hlast, Array.size_push]
        simp [largestParam]

end Assigns

/-- The parameters that changes take in a query. -/
def Changes.bound (s : Schema) (c : Changes) : Params :=
  match (c.entries.mapM (patchColumn s)).run #[] with
  | .ok (_, q) => q
  | .error _ => #[]

/-! ## Names put behind others -/

theorem prefix_appendNew (names ns : List String) : names <+: appendNew names ns := by
  induction ns generalizing names with
  | nil => exact List.prefix_rfl
  | cons n ns ih =>
      refine List.IsPrefix.trans ?_ (ih _)
      split
      · exact List.prefix_rfl
      · exact List.prefix_append _ _

theorem mem_appendNew {names ns : List String} {m : String} :
    m ∈ appendNew names ns ↔ m ∈ names ∨ m ∈ ns := by
  induction ns generalizing names with
  | nil => simp [appendNew]
  | cons n ns ih =>
      rw [appendNew, ih, List.mem_cons]
      split
      · rename_i hn
        have hmem : n ∈ names := by simpa using hn
        constructor
        · rintro (h | h)
          · exact .inl h
          · exact .inr (.inr h)
        · rintro (h | rfl | h)
          · exact .inl h
          · exact .inl hmem
          · exact .inr h
      · rw [List.mem_append, List.mem_singleton, or_assoc]

theorem nodup_appendNew {names : List String} (ns : List String) (h : names.Nodup) :
    (appendNew names ns).Nodup := by
  induction ns generalizing names with
  | nil => exact h
  | cons n ns ih =>
      refine ih ?_
      split
      · exact h
      · rename_i hn
        refine List.nodup_append.2 ⟨h, by simp, fun a ha b hb => ?_⟩
        rintro rfl
        simp_all

/-! ## The plan -/

namespace PatchPlan

variable {s : Schema} {f : Filter} {c : Changes} {returning : List String} {plan : PatchPlan}

/-- The names of the staged columns. -/
def stagedNames (s : Schema) (c : Changes) (returning : List String) : List String :=
  appendNew (s.primaryKey.name :: c.entries.map Prod.fst) returning

/-- The fields that are told but do not change. -/
def furtherNames (s : Schema) (c : Changes) (returning : List String) : List String :=
  (stagedNames s c returning).drop (c.entries.length + 1)

theorem stagedNames_eq (s : Schema) (c : Changes) (returning : List String) :
    stagedNames s c returning =
      s.primaryKey.name :: (c.entries.map Prod.fst ++ furtherNames s c returning) := by
  obtain ⟨further, hfurther⟩ := prefix_appendNew (s.primaryKey.name :: c.entries.map Prod.fst)
    returning
  have hlength : (s.primaryKey.name :: c.entries.map Prod.fst).length = c.entries.length + 1 := by
    simp
  unfold furtherNames stagedNames
  rw [← hfurther, ← hlength, List.drop_left, List.cons_append]

theorem mem_stagedNames {n : String} (hn : n ∈ furtherNames s c returning) :
    n ∈ stagedNames s c returning :=
  List.mem_of_mem_drop hn

/-- The columns of the query of a patch, given those of the new values. -/
def selected (s : Schema) (c : Changes) (returning : List String) (cs : List ResultColumn) :
    List ResultColumn :=
  .expr (.ofName s.primaryKey.name) none :: (cs ++
    (furtherNames s c returning).map fun n => ResultColumn.expr (.ofName n) (some (.quoted n)))

/-- What a plan is made of. -/
structure Planned (s : Schema) (f : Filter) (c : Changes) (returning : List String)
    (plan : PatchPlan) (cs : List ResultColumn) : Prop where
  checked : c.check s = .ok ()
  columns : ∀ n ∈ f.columns, ∃ g, s.requireField n = .ok g
  told : ∀ n ∈ returning, ∃ g, s.requireField n = .ok g
  assigns : Assigns s #[] c.entries cs (c.bound s)
  query : plan.query = f.query s (selected s c returning cs) (f.build (c.bound s)).1
  params : plan.params = (f.build (c.bound s)).2
  staged : plan.staged = stagedNames s c returning
  touched : plan.touched = c.entries.map Prod.fst
  reported : plan.reported = appendNew c.incremented returning

theorem planned_of_compile (h : compile s f c returning = .ok plan) :
    ∃ cs, Planned s f c returning plan cs := by
  obtain ⟨⟨⟩, hcheck, h⟩ := Except.bind_eq_ok_iff.1 h
  obtain ⟨⟨cs, q⟩, hcs, h⟩ := Except.bind_eq_ok_iff.1 h
  obtain ⟨⟨⟩, hreturning, h⟩ := Except.bind_eq_ok_iff.1 h
  obtain ⟨⟨query, params⟩, hselect, h⟩ := Except.bind_eq_ok_iff.1 h
  obtain ⟨⟨⟩, hcolumns, hselect⟩ := Except.bind_eq_ok_iff.1 hselect
  obtain ⟨rfl, rfl⟩ := Prod.mk.inj (Except.ok.inj hselect)
  obtain rfl := Except.ok.inj h
  have hbound : c.bound s = q := by
    unfold Changes.bound
    rw [hcs]
  refine ⟨cs, hcheck, ?_, ?_, ?_, ?_, ?_, rfl, rfl, rfl⟩
  · exact fun n hn => Filter.declared_of_check hcolumns hn
  · intro n hn
    obtain ⟨g, hg, -⟩ := Except.bind_eq_ok_iff.1 (Except.forM_eq_ok_iff.1 hreturning n hn)
    exact ⟨g, hg⟩
  · rw [hbound]
    exact .of_run hcs
  · rw [hbound]
    have hlength : (s.primaryKey.name :: c.entries.map Prod.fst).length = c.entries.length + 1 := by
      simp
    dsimp only
    rw [hlength]
    rfl
  · rw [hbound]
    rfl

namespace Planned

variable {cs : List ResultColumn} (h : Planned s f c returning plan cs)

include h

theorem key_notMem : s.primaryKey.name ∉ c.entries.map Prod.fst := by
  intro hin
  obtain ⟨d, hd, hname⟩ := List.mem_map.1 hin
  exact (Changes.check_ok h.checked d hd).1 hname

theorem nodup_stagedNames : (stagedNames s c returning).Nodup :=
  nodup_appendNew returning (List.nodup_cons.2 ⟨h.key_notMem, c.names_nodup⟩)

theorem declared {n : String} (hn : n ∈ stagedNames s c returning) :
    ∃ g, s.requireField n = .ok g := by
  rcases mem_appendNew.1 hn with hn | hn
  · rcases List.mem_cons.1 hn with rfl | hn
    · exact ⟨_, Schema.requireField_eq s.getElem?_keyIndex⟩
    · obtain ⟨d, hd, rfl⟩ := List.mem_map.1 hn
      exact h.assigns.declared d hd
  · exact h.told n hn

/-- The columns of the query may be taken. -/
theorem exists_takes :
    ∃ css, Filter.Takes s (c.bound s).size css (selected s c returning cs) := by
  have hnul {n : String} (hn : n ∈ stagedNames s c returning) : '\x00' ∉ n.toList :=
    (h.declared hn).elim fun g hg => Schema.nul_notMem_field hg
  have hkey : s.primaryKey.name ∈ stagedNames s c returning := by
    rw [stagedNames_eq]
    exact List.mem_cons_self
  obtain ⟨css, hcss, hlast⟩ := h.assigns.exists_columns
  refine ⟨[.name s.primaryKey.name] :: (css ++ (furtherNames s c returning).map fun n =>
    [Token.name n, .keyword .as, .name n]), .of_columns ?_ (by simp) ?_⟩
  · refine .cons (Filter.column_name (hnul hkey)) (List.rel_append hcss ?_)
    rw [List.forall₂_map_left_iff, List.forall₂_map_right_iff, List.forall₂_same]
    intro n hn
    obtain ⟨g, hg⟩ := h.declared (mem_stagedNames hn)
    exact Filter.column_labelled [.name n] hg (.one (.one ((readAgain 20).negation rfl)))
      (Expr.lexes_ofName (hnul (mem_stagedNames hn))) (by simp)
      (by simp [Expr.ofName, Expr.leaves, Expr.isPlainLeaf]) nofun
  · have hkey : largestParam 0 [.name s.primaryKey.name] = (#[] : Params).size := rfl
    rw [List.foldl_cons, hkey, List.foldl_append, hlast, List.foldl_map]
    exact List.foldl_fixed' (fun _ => rfl) _

end Planned

end PatchPlan

end StagedStore
