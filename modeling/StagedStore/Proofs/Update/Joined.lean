import StagedStore.Proofs.Update.Planned

/-!
# Planned rows joined with origin rows

The second half of a plan's query.  On a pair of a planned row and the origin row with its key, the
term of every field gives what the planned row's cell comes to.
-/

namespace StagedStore

open Memory

namespace Plan

variable {s : Schema} {p : Plan} {t : Table} {ctx : Context}

/-- The resolver of names behind the join. -/
def joined (ctx : Context) (p : Plan) (t : Table) : Resolver :=
  ctx.resolver (p.plannedSlots ++ t.slots "_origin")

/-- A planned row beside a row of the origin table. -/
def pair (p : Plan) (r : PlanRow) (e : Entry) : Array Storage :=
  (r.planned p).toArray ++ Table.rowOf e

theorem size_planned (p : Plan) (r : PlanRow) : (r.planned p).toArray.size = p.columns.length := by
  rw [List.size_toArray, length_planned]

theorem length_plannedSlots (p : Plan) : p.plannedSlots.length = p.columns.length := by
  rw [plannedSlots, List.length_map]

theorem source_of_mem_plannedSlots {x : Slot} (h : x ∈ p.plannedSlots) :
    x.source = some (foldName "_rows") := by
  obtain ⟨c, -, rfl⟩ := List.mem_map.1 h
  rfl

theorem foldName_rows_ne_origin : foldName "_rows" ≠ foldName "_origin" := by
  decide +kernel

namespace Laid

variable (h : p.Laid s t)

include h

theorem exists_of_mem_columns {c : String} (hc : c ∈ p.columns) :
    ∃ f, s.requireField c = .ok f := by
  rcases List.mem_cons.1 hc with rfl | hc
  · rw [h.key]
    exact ⟨s.primaryKey, Schema.requireField_eq s.getElem?_keyIndex⟩
  · exact h.declared c hc

theorem columns_nodup : (p.columns.map foldName).Nodup := by
  have hnodup : p.columns.Nodup := by
    unfold columns
    rw [List.nodup_cons, h.key]
    exact ⟨h.key_notMem, h.fields_nodup⟩
  refine List.Nodup.map_on (fun m hm n hn he => ?_) hnodup
  obtain ⟨f, hf⟩ := h.exists_of_mem_columns hm
  obtain ⟨g, hg⟩ := h.exists_of_mem_columns hn
  exact h.fits.foldName_inj hf hg he

theorem run_plannedSlots : Resolver.Run (some planned) p.plannedSlots where
  keys_nodup := by
    unfold plannedSlots
    rw [List.map_map]
    exact h.columns_nodup
  visible x hx := by
    obtain ⟨c, -, rfl⟩ := List.mem_map.1 hx
    rfl
  inSource x hx := by
    obtain ⟨c, -, rfl⟩ := List.mem_map.1 hx
    simp [Resolver.inSource, Slot.ofColumn, planned, Part.name]

theorem resolve_planned {i : Nat} {c : String} (hc : p.columns[i]? = some c) :
    (joined ctx p t).resolve (.qualified planned c) = .ok ⟨.slot i, .none⟩ := by
  have hslot : p.plannedSlots[i]? = some (.ofColumn (some "_rows") c .none) := by
    rw [plannedSlots, List.getElem?_map, hc, Option.map_some]
  have hres := Resolver.resolveName_eq (r := joined ctx p t) (q := some planned)
    (.quoted c) [] (t.slots "_origin") (List.nil_append _).symm h.run_plannedSlots (by simp)
    (fun x hx => Resolver.picks_other ?_) hslot rfl
  · rw [Sql.Expr.qualified, Resolver.resolve, hres]
    simp [Slot.ofColumn]
  · rw [Table.source_of_mem_slots hx]
    exact fun he => foldName_rows_ne_origin (Option.some.inj he).symm

theorem resolve_origin {i : Nat} {f : Field} (hf : s.fields[i]? = some f) :
    (joined ctx p t).resolve (.qualified origin f.name) =
      .ok ⟨.slot (p.columns.length + 1 + i), f.affinity⟩ := by
  have hres := h.fits.resolve_field (r := joined ctx p t) (q := some origin)
    p.plannedSlots [] "_origin" (by rw [List.append_nil]; rfl)
    (by simp [origin, Part.name]) (fun x hx => Resolver.picks_other ?_) (by simp) hf
  · rw [length_plannedSlots] at hres
    exact hres
  · rw [source_of_mem_plannedSlots hx]
    exact fun he => foldName_rows_ne_origin (Option.some.inj he)

theorem resolve_originKey :
    (joined ctx p t).resolve (.qualified origin p.key) =
      .ok ⟨.slot (p.columns.length + 1 + s.keyIndex), s.primaryKey.affinity⟩ := by
  rw [h.key]
  exact h.resolve_origin s.getElem?_keyIndex

variable (ctx) in
theorem resolve_originField {n : String} (hn : n ∈ p.fields) :
    ∃ f, (joined ctx p t).resolve (.qualified origin n) =
      .ok ⟨.slot (p.columns.length + 1 + s.fieldIndex n), f⟩ := by
  obtain ⟨f, hf⟩ := h.declared n hn
  obtain ⟨hi, rfl⟩ := Schema.getElem?_fieldIndex hf
  exact ⟨f.affinity, h.resolve_origin hi⟩

end Laid

/-! ## Fields -/

theorem getElem?_pair_planned {r : PlanRow} {e : Entry} {i : Nat} (hi : i < p.columns.length) :
    (p.pair r e)[i]? = (r.planned p)[i]? := by
  rw [pair, Array.getElem?_append_left (by rw [size_planned]; exact hi), List.getElem?_toArray]

theorem getElem?_pair_origin (r : PlanRow) (e : Entry) (i : Nat) :
    (p.pair r e)[p.columns.length + 1 + i]? = e.cells[i]? :=
  Table.getElem?_append_rowOf (size_planned p r) e i

theorem getElem?_pair_key (r : PlanRow) (e : Entry) : (p.pair r e)[0]? = some r.key.bound := by
  rw [getElem?_pair_planned (by simp [columns])]
  rfl

/-- The arm of a row that increments a field, its names resolved. -/
def incrementTerm? (s : Schema) (p : Plan) (field : String) (r : PlanRow) :
    Option (Term × Term) :=
  match r.cell field with
  | .increment a =>
    some (.compare .eq .none (.slot 0) (.cell r.key),
      .add (.slot (p.columns.length + 1 + s.fieldIndex field)) (.cell a))
  | _ => none

/-- The key of a row that leaves a field untouched. -/
def untouchedCell? (field : String) (r : PlanRow) : Option Storage :=
  match r.cell field with
  | .untouched => some r.key
  | _ => none

/-- The arm of the rows that leave a field untouched, its names resolved. -/
def keepTerms (s : Schema) (p : Plan) (field : String) (rows : List PlanRow) :
    List (Term × Term) :=
  match rows.filterMap (untouchedCell? field) with
  | [] => []
  | keys =>
    [(.inSet .none (.slot 0) (.ofList .none keys),
      .slot (p.columns.length + 1 + s.fieldIndex field))]

/-- The arms of a field, their names resolved. -/
def armTerms (s : Schema) (p : Plan) (field : String) (rows : List PlanRow) : List (Term × Term) :=
  rows.filterMap (incrementTerm? s p field) ++ keepTerms s p field rows

/-- The arm that keeps a field in the rows that leave it untouched. -/
def keepArms (p : Plan) (field : String) (rows : List PlanRow) : List (Sql.Expr × Sql.Expr) :=
  match rows.filterMap (untouchedKey? field) with
  | [] => []
  | keys => [(.inList false (.qualified planned p.key) keys, .qualified origin field)]

theorem resolveField_eq (p : Plan) (rows : List PlanRow) (field : String) :
    p.resolveField rows field =
      match rows.filterMap (p.incrementArm? field) ++ p.keepArms field rows with
      | [] => .qualified planned field
      | arms => .choose arms (.qualified planned field) :=
  rfl

/-- What holds of columns and literals, and of all that is put together from such, holds of the new
value of a field. -/
theorem resolveField_induction {P : Sql.Expr → Prop}
    (column : ∀ q ∈ [planned, origin], ∀ n, P (.qualified q n)) (literal : ∀ v, P (.ofStorage v))
    (compare : ∀ a b, P a → P b → P (.compare .eq a b)) (add : ∀ a b, P a → P b → P (.add a b))
    (list : ∀ a es, P a → (∀ e ∈ es, P e) → P (.inList false a es))
    (choose : ∀ arms e, (∀ a ∈ arms, P a.1 ∧ P a.2) → P e → P (.choose arms e))
    (p : Plan) (rows : List PlanRow) (field : String) : P (p.resolveField rows field) := by
  have hplanned (n : String) : P (.qualified planned n) := column planned (by simp) n
  have horigin (n : String) : P (.qualified origin n) := column origin (by simp) n
  have harms : ∀ a ∈ rows.filterMap (p.incrementArm? field) ++ p.keepArms field rows,
      P a.1 ∧ P a.2 := by
    intro a ha
    rcases List.mem_append.1 ha with ha | ha
    · obtain ⟨r, -, ha⟩ := List.mem_filterMap.1 ha
      unfold incrementArm? at ha
      split at ha
      · obtain rfl := Option.some.inj ha
        exact ⟨compare _ _ (hplanned _) (literal _), add _ _ (horigin _) (literal _)⟩
      · cases ha
    · unfold keepArms at ha
      split at ha
      · cases ha
      · obtain rfl := List.mem_singleton.1 ha
        refine ⟨list _ _ (hplanned _) fun k hk => ?_, horigin _⟩
        obtain ⟨r, -, hk⟩ := List.mem_filterMap.1 hk
        unfold untouchedKey? at hk
        split at hk
        · obtain rfl := Option.some.inj hk
          exact literal _
        · cases hk
  rw [resolveField_eq]
  split
  · exact hplanned _
  · exact choose _ _ harms (hplanned _)

theorem forall₂_filterMap {α β γ : Type} {R : β → γ → Prop} {f : α → Option β} {g : α → Option γ}
    {xs : List α} (h : ∀ x ∈ xs, (f x = none ∧ g x = none) ∨
      ∃ b c, f x = some b ∧ g x = some c ∧ R b c) :
    List.Forall₂ R (xs.filterMap f) (xs.filterMap g) := by
  induction xs with
  | nil => exact .nil
  | cons x xs ih =>
      have ih := ih fun y hy => h y (by simp [hy])
      rcases h x (by simp) with ⟨hf, hg⟩ | ⟨b, c, hf, hg, hR⟩
      · rw [List.filterMap_cons_none hf, List.filterMap_cons_none hg]
        exact ih
      · rw [List.filterMap_cons_some hf, List.filterMap_cons_some hg]
        exact .cons hR ih

section Resolved

variable {rows : List PlanRow} {n : String}

theorem Ready.resolve_plannedKey (h : p.Ready s t) :
    (joined ctx p t).resolve (.qualified planned p.key) = .ok ⟨.slot 0, .none⟩ :=
  h.resolve_planned rfl

variable (ctx) in
theorem Ready.forall₂_increments (h : p.Ready s t) (hrows : ∀ r ∈ rows, r ∈ p.rows)
    (hn : n ∈ p.fields) :
    List.Forall₂ (fun a u => (∃ f, (joined ctx p t).resolve a.1 = .ok ⟨u.1, f⟩) ∧
        ∃ f, (joined ctx p t).resolve a.2 = .ok ⟨u.2, f⟩)
      (rows.filterMap (p.incrementArm? n)) (rows.filterMap (incrementTerm? s p n)) := by
  refine forall₂_filterMap fun r hr => ?_
  unfold incrementArm? incrementTerm?
  cases hc : r.cell n with
  | value v => exact .inl ⟨rfl, rfl⟩
  | untouched => exact .inl ⟨rfl, rfl⟩
  | increment a =>
      obtain ⟨f, hf⟩ := h.resolve_originField ctx hn
      refine .inr ⟨_, _, rfl, rfl, ⟨.none, ?_⟩, ⟨.none, ?_⟩⟩
      · rw [h.literal_key r (hrows r hr) n hn (by simp [hc]), Resolver.resolve,
          h.resolve_plannedKey]
        rfl
      · rw [h.finite r (hrows r hr) n a hc, Resolver.resolve, hf]
        rfl

theorem Ready.untouchedKeys_eq (h : p.Ready s t) (hrows : ∀ r ∈ rows, r ∈ p.rows)
    (hn : n ∈ p.fields) :
    rows.filterMap (untouchedKey? n) =
      (rows.filterMap (untouchedCell? n)).map Sql.Expr.literal := by
  rw [List.map_filterMap]
  refine List.filterMap_congr fun r hr => ?_
  unfold untouchedKey? untouchedCell?
  cases hc : r.cell n with
  | untouched => simp [h.literal_key r (hrows r hr) n hn (by simp [hc])]
  | _ => rfl

theorem Ready.forall₂_keep (h : p.Ready s t) (hrows : ∀ r ∈ rows, r ∈ p.rows)
    (hn : n ∈ p.fields) :
    List.Forall₂ (fun a u => (∃ f, (joined ctx p t).resolve a.1 = .ok ⟨u.1, f⟩) ∧
        ∃ f, (joined ctx p t).resolve a.2 = .ok ⟨u.2, f⟩)
      (p.keepArms n rows) (keepTerms s p n rows) := by
  unfold keepArms keepTerms
  rw [h.untouchedKeys_eq hrows hn]
  cases rows.filterMap (untouchedCell? n) with
  | nil => exact .nil
  | cons k ks =>
      refine .cons ⟨⟨.none, ?_⟩, h.resolve_originField ctx hn⟩ .nil
      have hliterals : (joined ctx p t).resolveAll ((k :: ks).map Sql.Expr.literal) =
          .ok ((k :: ks).map Term.cell) := by
        refine Resolver.resolveAll_eq ?_
        rw [List.forall₂_map_left_iff, List.forall₂_map_right_iff, List.forall₂_same]
        exact fun v _ => ⟨.none, rfl⟩
      change (joined ctx p t).resolve
        (.inList false (.qualified planned p.key) ((k :: ks).map Sql.Expr.literal)) = _
      rw [Resolver.resolve, h.resolve_plannedKey, Except.ok_bind, hliterals, Except.ok_bind,
        Term.ofMembers_cells]
      rfl

variable (ctx) in
/-- The expression of a field chooses among its arms, the planned cell being what is left. -/
theorem Ready.resolve_resolveField (h : p.Ready s t) (hrows : ∀ r ∈ rows, r ∈ p.rows)
    (hn : n ∈ p.fields) {i : Nat} (hi : p.columns[i]? = some n) :
    ∃ u, (joined ctx p t).resolve (p.resolveField rows n) = .ok ⟨u, .none⟩ ∧
      ∀ row, u.eval row =
        (Term.evalArms row (armTerms s p n rows)).getD (row[i]?.getD .null) := by
  have harms : List.Forall₂ _ (rows.filterMap (p.incrementArm? n) ++ p.keepArms n rows)
      (armTerms s p n rows) :=
    List.rel_append (h.forall₂_increments ctx hrows hn) (h.forall₂_keep hrows hn)
  rw [resolveField_eq]
  generalize rows.filterMap (p.incrementArm? n) ++ p.keepArms n rows = arms at harms
  cases arms with
  | nil =>
      rw [List.forall₂_nil_left_iff.1 harms]
      exact ⟨.slot i, h.resolve_planned hi, fun row => rfl⟩
  | cons a arms =>
      refine ⟨.choose (armTerms s p n rows) (.slot i), ?_, fun row => rfl⟩
      change (joined ctx p t).resolve (.choose (a :: arms) _) = _
      rw [Resolver.resolve, Resolver.resolveArms_eq harms, Except.ok_bind, h.resolve_planned hi]
      rfl

/-! ## The cells of a pair -/

variable {r : PlanRow} {e : Entry}

theorem Ready.row_eq_of_normal_eq (h : p.Ready s t) {r' : PlanRow} (hr : r ∈ p.rows)
    (hr' : r' ∈ p.rows) (he : r.key.normal = r'.key.normal) : r = r' :=
  List.inj_on_of_nodup_map h.normals_nodup hr hr' he

theorem Ready.normal_kept (h : p.Ready s t) (hr : r ∈ p.rows) :
    r.key.kept.normal = r.key.normal := by
  rw [Storage.normal_kept, h.bound_key r hr]

theorem Ready.row_eq_of_kept_eq (h : p.Ready s t) {r' : PlanRow} (hr : r ∈ p.rows)
    (hr' : r' ∈ p.rows) (he : r.key.kept = r'.key.kept) : r = r' := by
  refine h.row_eq_of_normal_eq hr hr' ?_
  rw [← h.normal_kept hr, ← h.normal_kept hr', he]

theorem Ready.kept_nodup (h : p.Ready s t) : (p.rows.map fun r => r.key.kept).Nodup := by
  refine List.Nodup.of_map Storage.normal ?_
  rw [List.map_map]
  exact (List.map_congr_left fun r hr => h.normal_kept hr) ▸ h.normals_nodup

theorem Ready.key_not_null (h : p.Ready s t) (hr : r ∈ p.rows) : r.key.isNull = false :=
  (h.writes r hr).isNull_eq

/-- A planned row's key is found equal to no other row's. -/
theorem Ready.holds_compareKeys (h : p.Ready s t) {r' : PlanRow} (hr : r ∈ p.rows)
    (hr' : r' ∈ p.rows) : (r.key.compareBy .eq .none r'.key).holds = true ↔ r = r' := by
  constructor
  · intro hholds
    exact h.row_eq_of_normal_eq hr hr' (Storage.normal_eq_of_holds rfl rfl hholds)
  · rintro rfl
    exact Storage.holds_compareBy_self rfl (h.key_not_null hr)

theorem Ready.holds_incrementTerm (h : p.Ready s t) (hrows : ∀ r ∈ rows, r ∈ p.rows)
    (hr : r ∈ p.rows) {a : Term × Term} (ha : a ∈ rows.filterMap (incrementTerm? s p n))
    (hholds : (a.1.eval (p.pair r e)).holds = true) : incrementTerm? s p n r = some a := by
  obtain ⟨r', hr', ha⟩ := List.mem_filterMap.1 ha
  have hsame : r = r' := by
    unfold incrementTerm? at ha
    split at ha
    · obtain rfl := Option.some.inj ha
      simp only [Term.eval, getElem?_pair_key, Option.getD_some, h.bound_key r hr] at hholds
      exact (h.holds_compareKeys hr (hrows r' hr')).1 hholds
    · simp at ha
  rw [hsame, ha]

theorem Ready.holds_keepTerm (h : p.Ready s t) (hrows : ∀ r ∈ rows, r ∈ p.rows) (hr : r ∈ rows)
    {a : Term × Term} (ha : a ∈ keepTerms s p n rows) :
    (a.1.eval (p.pair r e)).holds = true ↔ r.cell n = .untouched := by
  have hnull := h.key_not_null (hrows r hr)
  have hcond : a.1 = .inSet .none (.slot 0) (.ofList .none (rows.filterMap (untouchedCell? n))) := by
    unfold keepTerms at ha
    split at ha
    · simp at ha
    · rw [List.mem_singleton.1 ha]
  rw [hcond, Term.eval, Term.eval, getElem?_pair_key, Option.getD_some,
    h.bound_key r (hrows r hr), CellSet.holds_member]
  constructor
  · rintro ⟨-, w, hw, -, hnormal⟩
    obtain ⟨r', hr', hw⟩ := List.mem_filterMap.1 hw
    unfold untouchedCell? at hw
    split at hw
    · rename_i hcell
      obtain rfl := Option.some.inj hw
      rw [← h.row_eq_of_normal_eq (hrows r' hr') (hrows r hr) hnormal]
      exact hcell
    · simp at hw
  · intro hcell
    refine ⟨hnull, r.key, List.mem_filterMap.2 ⟨r, hr, ?_⟩, hnull, rfl⟩
    simp [untouchedCell?, hcell]

theorem incrementTerm?_of_ne {c : Cell} (hc : r.cell n = c) (hne : ∀ a, c ≠ .increment a) :
    incrementTerm? s p n r = none := by
  unfold incrementTerm?
  rw [hc]
  cases c with
  | increment a => exact absurd rfl (hne a)
  | _ => rfl

/-- The arms of a field give what the row's own cell comes to, whatever the other rows do. -/
theorem Ready.evalArms_armTerms (h : p.Ready s t) (hrows : ∀ r ∈ rows, r ∈ p.rows)
    (hr : r ∈ rows) {i : Nat} (hi : p.fields[i]? = some n) :
    (Term.evalArms (p.pair r e) (armTerms s p n rows)).getD ((p.pair r e)[i + 1]?.getD .null) =
      (r.cell n).resolved (s.fieldCell n e) := by
  unfold armTerms
  have horigin : (p.pair r e)[p.columns.length + 1 + s.fieldIndex n]?.getD .null =
      s.fieldCell n e := by
    rw [getElem?_pair_origin]
    rfl
  cases hc : r.cell n with
  | value v =>
      rw [Term.evalArms_eq_none]
      · have hlt : i + 1 < p.columns.length := by
          have := (List.getElem?_eq_some_iff.1 hi).1
          simp only [columns, List.length_cons]
          omega
        rw [Option.getD_none, getElem?_pair_planned hlt, PlanRow.planned,
          List.getElem?_cons_succ, List.getElem?_map, hi, Option.map_some, Option.getD_some, hc]
        rfl
      · intro a ha
        rw [← Bool.not_eq_true]
        intro hholds
        rcases List.mem_append.1 ha with ha | ha
        · have := h.holds_incrementTerm hrows (hrows r hr) ha hholds
          rw [incrementTerm?_of_ne hc (by simp)] at this
          simp at this
        · have := (h.holds_keepTerm hrows hr ha).1 hholds
          rw [hc] at this
          cases this
  | increment a =>
      have hterm : incrementTerm? s p n r = some (.compare .eq .none (.slot 0) (.cell r.key),
          .add (.slot (p.columns.length + 1 + s.fieldIndex n)) (.cell a)) := by
        simp [incrementTerm?, hc]
      rw [Term.evalArms_eq_some (List.mem_append_left _ (List.mem_filterMap.2 ⟨r, hr, hterm⟩))]
      · simp only [Option.getD_some, Term.eval, horigin]
        rfl
      · simp only [Term.eval, getElem?_pair_key, Option.getD_some, h.bound_key r (hrows r hr)]
        exact (h.holds_compareKeys (hrows r hr) (hrows r hr)).2 rfl
      · intro b hb hholds
        rcases List.mem_append.1 hb with hb | hb
        · have := h.holds_incrementTerm hrows (hrows r hr) hb hholds
          exact (Option.some.inj (this.symm.trans hterm))
        · have := (h.holds_keepTerm hrows hr hb).1 hholds
          rw [hc] at this
          cases this
  | untouched =>
      have hmem : r.key ∈ rows.filterMap (untouchedCell? n) :=
        List.mem_filterMap.2 ⟨r, hr, by simp [untouchedCell?, hc]⟩
      obtain ⟨a, ha, hvalue⟩ : ∃ a, keepTerms s p n rows = [a] ∧
          a.2 = .slot (p.columns.length + 1 + s.fieldIndex n) := by
        unfold keepTerms
        cases hkeys : rows.filterMap (untouchedCell? n) with
        | nil => simp [hkeys] at hmem
        | cons k ks => exact ⟨_, rfl, rfl⟩
      have hin : a ∈ keepTerms s p n rows := by simp [ha]
      rw [Term.evalArms_eq_some (List.mem_append_right _ hin)]
      · rw [hvalue, Option.getD_some, Term.eval, horigin]
        rfl
      · exact (h.holds_keepTerm hrows hr hin).2 hc
      · intro b hb hholds
        rcases List.mem_append.1 hb with hb | hb
        · have := h.holds_incrementTerm hrows (hrows r hr) hb hholds
          rw [incrementTerm?_of_ne hc (by simp)] at this
          simp at this
        · rw [ha] at hb
          exact List.mem_singleton.1 hb

/-! ## The staged rows -/

/-- The rows of the origin table with the key of a planned row. -/
def matching (s : Schema) (t : Table) (r : PlanRow) : List Entry :=
  t.entries.reverse.filter fun e => decide (s.keyCell e = r.key)

theorem mem_matching {r : PlanRow} {e : Entry} :
    e ∈ matching s t r ↔ e ∈ t.entries ∧ s.keyCell e = r.key := by
  rw [matching, List.mem_filter, List.mem_reverse, decide_eq_true_iff]

/-- The rows that some rows of a plan stage. -/
def stagedRows (s : Schema) (p : Plan) (t : Table) (rows : List PlanRow) :
    List (Array Storage) :=
  rows.flatMap fun r => (matching s t r.kept).map fun e => (r.staged s p e).toArray

/-- Every planned row is joined with the rows that have its key. -/
theorem Ready.evalSource_join (h : p.Ready s t) (hrows : ∀ r ∈ rows, r ∈ p.rows) (hne : rows ≠ [])
    {a : Area} (hfind : ctx.catalog.find s.table.allQuoted = .ok (a, t))
    {tuples : List (List Sql.Expr)}
    (ht : List.Forall₂ (fun r es => (ctx.resolver []).resolveAll es =
      .ok ((r.planned p).map Term.cell)) rows tuples) :
    evalSource ctx (.join (p.plannedSource tuples) (.table s.table.allQuoted (some origin))
        (.compare .eq (.qualified origin p.key) (.qualified planned p.key))) =
      .ok ⟨p.plannedSlots ++ t.slots "_origin",
        rows.flatMap fun r => (matching s t r.kept).map (p.pair r)⟩ := by
  have horigin : evalSource ctx (.table s.table.allQuoted (some origin)) =
      .ok ⟨t.slots "_origin", t.scan⟩ := by
    rw [evalSource, hfind]
    rfl
  have hcond : (joined ctx p t).resolve
      (.compare .eq (.qualified origin p.key) (.qualified planned p.key)) =
      .ok ⟨.compare .eq (s.primaryKey.affinity.forComparison .none)
        (.slot (p.columns.length + 1 + s.keyIndex)) (.slot 0), .none⟩ := by
    rw [Resolver.resolve, h.resolve_originKey, Except.ok_bind, h.resolve_plannedKey]
    rfl
  rw [evalSource, evalSource_planned hne ht, Except.ok_bind, horigin, Except.ok_bind]
  change (joined ctx p t).resolve _ >>= _ = _
  rw [hcond, Except.ok_bind]
  refine congrArg (fun rows => Except.ok (Relation.mk _ rows)) ?_
  rw [joinRows_eq, List.flatMap_map]
  · refine List.flatMap_congr fun r hr => ?_
    rw [Table.scan_eq, ← List.map_reverse, List.map_map, List.filter_map]
    refine congrArg (List.map _) (List.filter_congr fun e he => ?_)
    have he : e ∈ t.entries := by simpa using he
    have hiff := h.fits.holds_keyCell_iff_kept he (h.writes r (hrows r hr))
      (h.bound_key r (hrows r hr)) (Affinity.compares_forComparison s.primaryKey.affinity (.inl rfl)).1
    change Term.holds _ (p.pair r e) = _
    simp only [Term.holds, Term.eval, getElem?_pair_origin, getElem?_pair_key, Option.getD_some,
      h.bound_key r (hrows r hr)]
    change ((s.keyCell e).compareBy .eq _ r.key).holds = _
    rw [Bool.eq_iff_iff, hiff, decide_eq_true_iff]
    rfl
  · intro l hl
    obtain ⟨r, -, rfl⟩ := List.mem_map.1 hl
    rw [size_planned, length_plannedSlots]

/-- What a result column of a field is. -/
structure Resolves (ctx : Context) (s : Schema) (p : Plan) (t : Table) (rows : List PlanRow)
    (n : String) (o : Output) : Prop where
  outputs : outputs (joined ctx p t) (.expr (p.resolveField rows n) (some (.quoted n))) = .ok [o]
  name : o.name = n
  affinity : o.affinity = .none
  eval : ∀ r ∈ rows, ∀ e, o.term.eval (p.pair r e) = (r.cell n).resolved (s.fieldCell n e)

variable (ctx) in
theorem Ready.exists_resolves (h : p.Ready s t) (hrows : ∀ r ∈ rows, r ∈ p.rows)
    (hn : n ∈ p.fields) : ∃ o, Resolves ctx s p t rows n o := by
  obtain ⟨i, hi⟩ := List.getElem?_of_mem hn
  obtain ⟨u, hu, heval⟩ := h.resolve_resolveField ctx (i := i + 1) hrows hn hi
  refine ⟨⟨n, u, .none⟩, outputs_labelled hu, rfl, rfl, fun r hr e => ?_⟩
  rw [heval, h.evalArms_armTerms hrows hr hi]

theorem isCount_resolveField (p : Plan) (rows : List PlanRow) (n : String) (label : Option Part) :
    isCount (.expr (p.resolveField rows n) label) = false := by
  rw [resolveField_eq]
  split <;> rfl

/-- The rows of values in the query of a plan are its planned rows. -/
theorem resolveAll_tuples (hparams : ctx.params = (p.select s rows).2) :
    List.Forall₂ (fun r es => (ctx.resolver []).resolveAll es =
      .ok ((r.planned p).map Term.cell)) rows (rows.mapM p.bindRow #[]).1 := by
  have hbinds := ((Sql.binds_mapM fun r (_ : r ∈ rows) => binds_bindRow p r) #[]).2
    (rows.mapM p.bindRow #[]).2 (.refl _)
  exact hbinds.imp fun r es hes => hes ctx hparams

variable (ctx) in
/-- The query of a plan gives the rows that it is to stage. -/
theorem Ready.evalSelect_select (h : p.Ready s t) (hrows : ∀ r ∈ rows, r ∈ p.rows) (hne : rows ≠ [])
    {a : Area} (hfind : ctx.catalog.find s.table.allQuoted = .ok (a, t))
    (hparams : ctx.params = (p.select s rows).2) :
    ∃ os, evalSelect ctx (p.select s rows).1 = .ok (os, stagedRows s p t rows) ∧
      os.map Output.name = p.columns ∧ ∀ o ∈ os, o.affinity = .none := by
  have ht := resolveAll_tuples hparams
  obtain ⟨os, hos⟩ := List.exists_forall₂ fun n hn => h.exists_resolves ctx (n := n) hrows hn
  have hkey : outputs (joined ctx p t) (.expr (.qualified planned p.key) (some (.quoted p.key))) =
      .ok [⟨p.key, .slot 0, .none⟩] := outputs_labelled h.resolve_plannedKey
  have hresults : ((.expr (.qualified planned p.key) (some (.quoted p.key)) : Sql.ResultColumn) ::
      p.fields.map fun f => .expr (p.resolveField rows f) (some (.quoted f))).mapM
        (outputs (joined ctx p t)) =
      .ok ([⟨p.key, .slot 0, .none⟩] :: os.map fun o => [o]) := by
    refine Except.mapM_eq_ok (.cons hkey ?_)
    rw [List.forall₂_map_left_iff, List.forall₂_map_right_iff]
    exact hos.imp fun n o ho => ho.outputs
  have hflat : (([⟨p.key, .slot 0, .none⟩] :: os.map fun o => [o]) : List (List Output)).flatten =
      ⟨p.key, .slot 0, .none⟩ :: os := by
    rw [List.flatten_cons]
    exact congrArg (_ :: ·) ((flatten_singletons id os).trans (List.map_id os))
  refine ⟨⟨p.key, .slot 0, .none⟩ :: os, ?_, ?_, ?_⟩
  · have hfrom : evalFrom ctx (some (.join (p.plannedSource (rows.mapM p.bindRow #[]).1)
        (.table s.table.allQuoted (some origin))
        (.compare .eq (.qualified origin p.key) (.qualified planned p.key)))) = _ :=
      h.evalSource_join hrows hne hfind ht
    have hselect := evalSelect_results hfrom hresults ?_
    · rw [hflat] at hselect
      refine hselect.trans (congrArg (fun rows => Except.ok (_, rows)) ?_)
      unfold project stagedRows
      rw [List.map_flatMap]
      refine List.flatMap_congr fun r hr => ?_
      rw [List.map_map]
      refine List.map_congr_left fun e _ => ?_
      rw [Function.comp_apply, List.map_cons, PlanRow.staged]
      congr 2
      · simp [Term.eval, getElem?_pair_key, h.bound_key r (hrows r hr)]
      · refine List.ext_getElem ?_ fun i hi hi' => ?_
        · rw [List.length_map, List.length_map, hos.length_eq]
        · rw [List.getElem_map, List.getElem_map]
          exact (hos.get (by simpa using hi') (by simpa using hi)).eval r hr e
    · rw [List.any_cons, List.any_map]
      refine Bool.or_eq_false_iff.2 ⟨rfl, List.any_eq_false.2 fun n _ => ?_⟩
      rw [Function.comp_apply, isCount_resolveField]
      exact Bool.false_ne_true
  · rw [List.map_cons, columns]
    congr 1
    refine List.ext_getElem ?_ fun i hi hi' => ?_
    · rw [List.length_map, hos.length_eq]
    · rw [List.getElem_map]
      exact (hos.get hi' (by simpa using hi)).name
  · intro o ho
    rcases List.mem_cons.1 ho with rfl | ho
    · rfl
    · obtain ⟨i, hi, rfl⟩ := List.getElem_of_mem ho
      exact (hos.get (by rw [hos.length_eq]; exact hi) hi).affinity

end Resolved

end Plan

end StagedStore
