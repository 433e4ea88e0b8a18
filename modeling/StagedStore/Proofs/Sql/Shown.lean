import StagedStore.Proofs.Sql.Leaves
import StagedStore.Proofs.Sql.Marks

/-!
# Marks of expressions and queries

The text of an expression or a query shows the names and the placeholders of its tree, from left to
right, if its bare words are words and its fragments leave no quote and no comment open.
-/

namespace StagedStore

namespace Sql

/-- A text of the caller's own that leaves no quote and no comment open. -/
def EndsOutside (text : String) : Prop :=
  (Place.plain.after text.toList).isOutside = true

instance (text : String) : Decidable (EndsOutside text) :=
  inferInstanceAs (Decidable (_ = true))

end Sql

/-- Quoted, or a bare word. -/
def Part.IsInert : Part → Prop
  | .bare n => n.toList.all Sql.isInert = true
  | .quoted _ => True

instance : DecidablePred Part.IsInert
  | .bare n => inferInstanceAs (Decidable (n.toList.all Sql.isInert = true))
  | .quoted _ => inferInstanceAs (Decidable True)

def Part.marks : Part → List Sql.Mark
  | .bare _ => []
  | .quoted n => [.name n]

def Identifier.marks (i : Identifier) : List Sql.Mark :=
  i.parts.flatMap Part.marks

@[simp] theorem Part.placeholders_marks (p : Part) :
    p.marks.filterMap Sql.Mark.placeholder? = [] := by
  cases p <;> rfl

@[simp] theorem Identifier.placeholders_marks (i : Identifier) :
    i.marks.filterMap Sql.Mark.placeholder? = [] := by
  exact Sql.placeholders_flatMap fun p _ => p.placeholders_marks

namespace Sql

namespace Expr

mutual

/-- The names and placeholders of an expression, from left to right. -/
def marks : Expr → List Mark
  | .literal _ | .countAll => []
  | .param (some n) => [.placeholder (toString n)]
  | .param none => [.placeholder ""]
  | .column none n => n.marks
  | .column (some q) n => q.marks ++ n.marks
  | .paren e | .not e | .nullCheck _ e => marks e
  | .add a b | .compare _ a b | .like _ a b | .and a b | .or a b => marks a ++ marks b
  | .between _ a l h => marks a ++ marks l ++ marks h
  | .inList _ a ms => marks a ++ marksAll ms
  | .inTable _ a c t => marks a ++ c.marks ++ t.marks
  | .choose arms e => marksArms arms ++ marks e
  | .call _ args => marksAll args
  | .fragment t => Sql.marks t.toList

def marksAll : List Expr → List Mark
  | [] => []
  | e :: es => marks e ++ marksAll es

def marksArms : List (Expr × Expr) → List Mark
  | [] => []
  | (c, r) :: arms => marks c ++ marks r ++ marksArms arms

end

theorem marksAll_eq (es : List Expr) : marksAll es = es.flatMap marks := by
  induction es with
  | nil => rfl
  | cons e es ih => rw [marksAll, List.flatMap_cons, ih]

theorem marksArms_eq (arms : List (Expr × Expr)) :
    marksArms arms = arms.flatMap fun a => marks a.1 ++ marks a.2 := by
  induction arms with
  | nil => rfl
  | cons a arms ih =>
      obtain ⟨c, r⟩ := a
      rw [marksArms, List.flatMap_cons, ih]

mutual

/-- Bare words are words, and fragments leave no quote and no comment open. -/
def Legible : Expr → Prop
  | .literal _ | .countAll | .param _ => True
  | .column none n => n.IsInert
  | .column (some q) n => q.IsInert ∧ n.IsInert
  | .paren e | .not e | .nullCheck _ e => Legible e
  | .add a b | .compare _ a b | .like _ a b | .and a b | .or a b => Legible a ∧ Legible b
  | .between _ a l h => Legible a ∧ Legible l ∧ Legible h
  | .inList _ a ms => Legible a ∧ LegibleAll ms
  | .inTable _ a c t => Legible a ∧ c.IsInert ∧ ∀ p ∈ t.parts, p.IsInert
  | .choose arms e => LegibleArms arms ∧ Legible e
  | .call f args => f.toList.all isInert = true ∧ LegibleAll args
  | .fragment t => EndsOutside t

def LegibleAll : List Expr → Prop
  | [] => True
  | e :: es => Legible e ∧ LegibleAll es

def LegibleArms : List (Expr × Expr) → Prop
  | [] => True
  | (c, r) :: arms => (Legible c ∧ Legible r) ∧ LegibleArms arms

end

theorem legibleAll_iff {es : List Expr} : LegibleAll es ↔ ∀ e ∈ es, e.Legible := by
  induction es with
  | nil => simp [LegibleAll]
  | cons e es ih => rw [LegibleAll, List.forall_mem_cons, ih]

theorem legibleArms_iff {arms : List (Expr × Expr)} :
    LegibleArms arms ↔ ∀ a ∈ arms, a.1.Legible ∧ a.2.Legible := by
  induction arms with
  | nil => simp [LegibleArms]
  | cons a arms ih => rw [LegibleArms, List.forall_mem_cons, ih]

end Expr

/-! ## Names -/

theorem shows_part {p : Part} (h : p.IsInert) : Shows p.render p.marks := by
  cases p with
  | bare n => exact shows_of_all h
  | quoted n => exact shows_quoteName n

theorem shows_identifier {i : Identifier} (h : ∀ p ∈ i.parts, p.IsInert) :
    Shows i.render i.marks :=
  shows_intercalate "." rfl fun p hp => shows_part (h p hp)

theorem isInert_allQuoted {i : Identifier} : ∀ p ∈ i.allQuoted.parts, p.IsInert := by
  intro p hp
  obtain ⟨q, -, rfl⟩ := List.mem_map.1 hp
  trivial

/-! ## Expressions -/

namespace Expr

theorem shows_listed {es : List Expr} (h : ∀ e ∈ es, Shows e.render e.marks) :
    Shows (", ".intercalate (renderAll es)) (marksAll es) := by
  rw [renderAll_eq, marksAll_eq]
  exact shows_intercalate ", " rfl h

mutual

/-- The text of an expression shows the marks of its tree. -/
theorem shows_render (x : Expr) (h : x.Legible) : Shows x.render x.marks := by
  cases x with
  | literal v => exact shows_literal v
  | param n =>
      cases n with
      | none => exact shows_of_isOutside rfl
      | some n => exact shows_placeholder n
  | column q n =>
      cases q with
      | none => exact shows_part h
      | some q => exact (shows_part h.1).join "." rfl (shows_part h.2)
  | paren e => exact ((shows_render e h).behind "(" rfl).before ")" rfl
  | add a b => exact (shows_render a h.1).join " + " rfl (shows_render b h.2)
  | compare op a b =>
      have ha := shows_render a h.1
      have hb := shows_render b h.2
      rw [render]
      split
      · exact ha.join op.text (by cases op <;> rfl) hb
      · have hspaced := ha.join (" " ++ op.text ++ " ") (by cases op <;> rfl) hb
        simpa only [render, marks, String.append_assoc] using hspaced
  | like negated a p =>
      have hlike := (shows_render a h.1).join (" " ++ notWord negated ++ "LIKE ")
        (by cases negated <;> rfl) (shows_render p h.2)
      simpa only [render, marks, String.append_assoc] using hlike
  | nullCheck negated a =>
      have hnull := (shows_render a h).before (" IS " ++ notWord negated ++ "NULL")
        (by cases negated <;> rfl)
      simpa only [render, marks, String.append_assoc] using hnull
  | between negated a l u =>
      have hlow := (shows_render a h.1).join (" " ++ notWord negated ++ "BETWEEN ")
        (by cases negated <;> rfl) (shows_render l h.2.1)
      have hboth := hlow.join " AND " rfl (shows_render u h.2.2)
      simpa only [render, marks, String.append_assoc] using hboth
  | inList negated a es =>
      have hlist := shows_listed (shows_renderAll es h.2)
      have hmember := ((shows_render a h.1).join (" " ++ notWord negated ++ "IN (")
        (by cases negated <;> rfl) hlist).before ")" rfl
      simpa only [render, marks, String.append_assoc] using hmember
  | inTable negated a c t =>
      have hcolumn := (shows_render a h.1).join (" " ++ notWord negated ++ "IN (SELECT ")
        (by cases negated <;> rfl) (shows_part h.2.1)
      have htable := (hcolumn.join " FROM " rfl (shows_identifier h.2.2)).before ")" rfl
      simpa only [render, marks, String.append_assoc] using htable
  | not e => exact (shows_render e h).behind "NOT " rfl
  | and a b => exact (shows_render a h.1).join " AND " rfl (shows_render b h.2)
  | or a b => exact (shows_render a h.1).join " OR " rfl (shows_render b h.2)
  | choose arms e =>
      have harms := (shows_renderArms arms h.1).behind "CASE " rfl
      exact (harms.join " ELSE " rfl (shows_render e h.2)).before " END" rfl
  | call f args =>
      have hlist := shows_listed (shows_renderAll args h.2)
      have hopen : (f ++ "(").toList.all isInert = true := by
        rw [String.toList_append, List.all_append, h.1]
        rfl
      exact (hlist.behind (f ++ "(") hopen).before ")" rfl
  | countAll => exact shows_of_all rfl
  | fragment t => exact shows_of_isOutside h

theorem shows_renderAll (es : List Expr) (h : LegibleAll es) :
    ∀ e ∈ es, Shows e.render e.marks := by
  cases es with
  | nil => exact nofun
  | cons e es => exact List.forall_mem_cons.2 ⟨shows_render e h.1, shows_renderAll es h.2⟩

theorem shows_renderArms (arms : List (Expr × Expr)) (h : LegibleArms arms) :
    Shows (" ".intercalate (renderArms arms)) (marksArms arms) := by
  match arms with
  | [] => exact shows_empty
  | [(c, r)] =>
      have harm := ((shows_render c h.1.1).behind "WHEN " rfl).join " THEN " rfl
        (shows_render r h.1.2)
      simpa [renderArms, marksArms] using harm
  | (c, r) :: d :: arms =>
      have harm := ((shows_render c h.1.1).behind "WHEN " rfl).join " THEN " rfl
        (shows_render r h.1.2)
      have htext : " ".intercalate (renderArms ((c, r) :: d :: arms)) =
          "WHEN " ++ render c ++ " THEN " ++ render r ++ " " ++
            " ".intercalate (renderArms (d :: arms)) := by
        obtain ⟨c', r'⟩ := d
        rw [renderArms, renderArms, String.intercalate_cons_cons]
      rw [htext]
      exact harm.join " " rfl (shows_renderArms (d :: arms) h.2)

end

end Expr

/-! ## Queries -/

/-- The marks of an alias. -/
def aliasMarks (a : Option Part) : List Mark :=
  a.elim [] Part.marks

@[simp] theorem placeholders_aliasMarks (a : Option Part) :
    (aliasMarks a).filterMap Mark.placeholder? = [] := by
  cases a with
  | none => rfl
  | some p => exact p.placeholders_marks

theorem shows_alias {s : String} {ms : List Mark} {a : Option Part} (h : Shows s ms)
    (ha : ∀ p ∈ a, p.IsInert) : Shows (s ++ renderAlias a) (ms ++ aliasMarks a) := by
  cases a with
  | none => simpa [renderAlias, aliasMarks] using h
  | some p =>
      have hjoin := h.join " AS " rfl (shows_part (ha p rfl))
      rwa [String.append_assoc] at hjoin

def ResultColumn.marks : ResultColumn → List Mark
  | .all => []
  | .expr e a => e.marks ++ aliasMarks a

def ResultColumn.Legible : ResultColumn → Prop
  | .all => True
  | .expr e a => e.Legible ∧ ∀ p ∈ a, p.IsInert

theorem ResultColumn.shows_render {c : ResultColumn} (h : c.Legible) : Shows c.render c.marks := by
  cases c with
  | all => exact shows_of_all rfl
  | expr e a => exact shows_alias (e.shows_render h.1) h.2

theorem shows_columns {cs : List ResultColumn} (h : ∀ c ∈ cs, c.Legible) :
    Shows (", ".intercalate (cs.map ResultColumn.render)) (cs.flatMap ResultColumn.marks) :=
  shows_intercalate ", " rfl fun c hc => ResultColumn.shows_render (h c hc)

/-- An expression that shows names only. -/
def Expr.OnlyNames (x : Expr) : Prop :=
  x.Legible ∧ x.marks.filterMap Mark.placeholder? = []

/-- A result column that shows names only. -/
def ResultColumn.OnlyNames (c : ResultColumn) : Prop :=
  c.Legible ∧ c.marks.filterMap Mark.placeholder? = []

theorem Expr.OnlyNames.named {x : Expr} (h : x.OnlyNames) (n : String) :
    (ResultColumn.expr x (some (.quoted n))).OnlyNames := by
  refine ⟨⟨h.1, by simp [Part.IsInert]⟩, ?_⟩
  rw [ResultColumn.marks, List.filterMap_append, h.2, placeholders_aliasMarks]
  rfl

theorem placeholders_columns {cs : List ResultColumn} (h : ∀ c ∈ cs, c.OnlyNames) :
    (cs.flatMap ResultColumn.marks).filterMap Mark.placeholder? = [] :=
  placeholders_flatMap fun c hc => (h c hc).2

/-- Rows of values in parentheses show the marks of the values, row by row. -/
theorem shows_tuples {rows : List (List Expr)} (h : ∀ r ∈ rows, ∀ e ∈ r, e.Legible) :
    Shows (renderTuples rows) (rows.flatMap Expr.marksAll) := by
  refine shows_intercalate ", " rfl fun r hr => ?_
  have hlist := Expr.shows_listed fun e he => e.shows_render (h r hr e he)
  exact (hlist.behind "(" rfl).before ")" rfl

/-- The marks of a condition that may be missing. -/
def conditionMarks (c : Option Expr) : List Mark :=
  c.elim [] Expr.marks

theorem shows_where {s : String} {ms : List Mark} {c : Option Expr} (h : Shows s ms)
    (hc : ∀ x ∈ c, x.Legible) : Shows (s ++ renderWhere c) (ms ++ conditionMarks c) := by
  cases c with
  | none => simpa [renderWhere, conditionMarks] using h
  | some x =>
      have hjoin := h.join " WHERE " rfl (x.shows_render (hc x rfl))
      rwa [String.append_assoc] at hjoin

theorem OrderTerm.shows_render {t : OrderTerm} (h : t.term.Legible) :
    Shows t.render t.term.marks := by
  have hterm := t.term.shows_render h
  rw [render]
  cases t.direction with
  | none => simpa using hterm
  | some d => exact hterm.before (" " ++ d.text) (by cases d <;> rfl)

theorem shows_order {s : String} {ms : List Mark} {order : List OrderTerm} (h : Shows s ms)
    (horder : ∀ t ∈ order, t.term.Legible) :
    Shows (s ++ (if order.isEmpty then "" else
      " ORDER BY " ++ ", ".intercalate (order.map OrderTerm.render)))
      (ms ++ order.flatMap fun t => t.term.marks) := by
  cases order with
  | nil => simpa using h
  | cons t order =>
      have hterms := shows_intercalate ", " rfl fun u hu => OrderTerm.shows_render (horder u hu)
      have hjoin := h.join " ORDER BY " rfl hterms
      rwa [String.append_assoc] at hjoin

theorem shows_limit {s : String} {ms : List Mark} {l : Option Limit} (h : Shows s ms) :
    Shows (s ++ (match l with | none => "" | some l => l.render)) ms := by
  cases l with
  | none => simpa using h
  | some l =>
      have hcount := h.join " LIMIT " rfl (shows_toString l.count)
      rw [List.append_nil, String.append_assoc] at hcount
      dsimp only
      rw [Limit.render]
      cases l.offset with
      | none => simpa using hcount
      | some o =>
          have hjoin := hcount.join " OFFSET " rfl (shows_toString o)
          rw [List.append_nil] at hjoin
          simpa only [String.append_assoc] using hjoin

mutual

/-- The names and placeholders of a source, from left to right. -/
def Source.marks : Source → List Mark
  | .table name a => name.marks ++ aliasMarks a
  | .values rows => rows.flatMap Expr.marksAll
  | .query q a => q.marks ++ aliasMarks a
  | .join l r c => l.marks ++ r.marks ++ c.marks

def marksFromSource : Option Source → List Mark
  | none => []
  | some s => s.marks

def Select.marks : Select → List Mark
  | .mk columns source condition order _ =>
    columns.flatMap ResultColumn.marks ++ marksFromSource source ++ conditionMarks condition ++
      order.flatMap fun t => t.term.marks

end

mutual

/-- Bare words are words, and fragments leave no quote and no comment open. -/
def Source.Legible : Source → Prop
  | .table name a => (∀ p ∈ name.parts, p.IsInert) ∧ ∀ p ∈ a, p.IsInert
  | .values rows => ∀ r ∈ rows, ∀ e ∈ r, e.Legible
  | .query q a => q.Legible ∧ ∀ p ∈ a, p.IsInert
  | .join l r c => l.Legible ∧ r.Legible ∧ c.Legible

def LegibleFrom : Option Source → Prop
  | none => True
  | some s => s.Legible

def Select.Legible : Select → Prop
  | .mk columns source condition order _ =>
    (∀ c ∈ columns, c.Legible) ∧ LegibleFrom source ∧ (∀ x ∈ condition, x.Legible) ∧
      ∀ t ∈ order, t.term.Legible

end

mutual

theorem Source.shows_render (s : Source) (h : s.Legible) : Shows s.render s.marks := by
  cases s with
  | table name a => exact shows_alias (shows_identifier h.1) h.2
  | values rows => exact ((shows_tuples h).behind "(VALUES " rfl).before ")" rfl
  | query q a =>
      exact shows_alias (((Select.shows_render q h.1).behind "(" rfl).before ")" rfl) h.2
  | join l r c =>
      have hsides := (Source.shows_render l h.1).join " INNER JOIN " rfl
        (Source.shows_render r h.2.1)
      exact hsides.join " ON " rfl (c.shows_render h.2.2)

theorem shows_renderFrom (s : Option Source) (h : LegibleFrom s) {t : String} {ms : List Mark}
    (ht : Shows t ms) : Shows (t ++ renderFrom s) (ms ++ marksFromSource s) := by
  cases s with
  | none => simpa [renderFrom, marksFromSource] using ht
  | some s =>
      have hjoin := ht.join " FROM " rfl (Source.shows_render s h)
      rw [String.append_assoc] at hjoin
      simpa only [renderFrom, marksFromSource] using hjoin

/-- The text of a query shows the marks of its tree. -/
theorem Select.shows_render (q : Select) (h : q.Legible) : Shows q.render q.marks := by
  cases q with
  | mk columns source condition order limit =>
      have hsource := shows_renderFrom source h.2.1 ((shows_columns h.1).behind "SELECT " rfl)
      have horder := shows_order (shows_where hsource h.2.2.1) h.2.2.2
      have hlimit := shows_limit (l := limit) horder
      unfold Select.render Select.marks
      exact hlimit

end

end Sql

end StagedStore
