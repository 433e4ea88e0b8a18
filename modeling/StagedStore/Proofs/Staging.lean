import StagedStore.Proofs.Memory.Catalog
import StagedStore.Proofs.Memory.Prepared
import StagedStore.Proofs.Memory.Session

/-!
# Staging tables in memory

What the steps of a staging table that succeed have done to a database in memory: dropping the
table, filling it with the rows of a query, adding rows and reading them back.
-/

namespace StagedStore

open Memory MemoryDatabase

/-- One catalog is the other without the temporary table of a name. -/
structure Memory.Catalog.Dropped (n : String) (c c' : Catalog) : Prop where
  gone : c'.findIn? .temp n = none
  main : c'.main = c.main
  others : ∀ a m, foldName m ≠ foldName n → c'.findIn? a m = c.findIn? a m

theorem Memory.Catalog.dropped_drop (n : String) (c : Catalog) : c.Dropped n (c.drop .temp n) :=
  ⟨findIn?_drop_self rfl, rfl, fun _ _ hm => findIn?_drop_ne hm⟩

theorem Memory.Catalog.Dropped.beside {n : String} {c c' : Catalog} (h : c.Dropped n c') :
    c.Beside n c' := by
  rintro a m (rfl | hm)
  · exact congrArg (List.find? fun t => foldName t.name = foldName m) h.main
  · exact h.others a m hm

theorem Memory.Catalog.Dropped.find {n : String} {c c' : Catalog} (h : c.Dropped n c')
    {i : Identifier} (hi : i.Clear n) : c'.find i = c.find i :=
  h.beside.find hi

/-- One catalog is the other with another state of a table, and without the temporary table of a
name. -/
structure Memory.Catalog.Rewritten (n : String) (a : Area) (i : Identifier) (t : Table)
    (c c' : Catalog) : Prop where
  origin : c'.find i = .ok (a, t)
  gone : c'.findIn? .temp n = none
  others : ∀ b m, foldName m ≠ foldName n → b ≠ a ∨ foldName m ≠ foldName i.name →
    c'.findIn? b m = c.findIn? b m

/-- A table is rewritten beside a staging table that is dropped in the end. -/
theorem Memory.Catalog.Beside.rewritten {n : String} {a : Area} {i : Identifier} {t t' : Table}
    {c₀ c c' : Catalog} (h : c₀.Beside n c) (hi : i.Clear n) (hfind : c₀.find i = .ok (a, t))
    (ht : t'.name = t.name) (hlast : (c.replace a t').Dropped n c') : Rewritten n a i t' c₀ c' := by
  refine ⟨?_, hlast.gone, fun b m hm hother => ?_⟩
  · rw [hlast.find hi]
    exact Catalog.find_replace ((h.find hi).trans hfind) (by rw [ht])
  · rw [hlast.others b m hm, ← h b m (.inr hm)]
    rcases hother with hb | hname
    · exact Catalog.findIn?_replace_other hb
    · refine Catalog.findIn?_replace_ne fun he => hname ?_
      rw [← he, ht, Catalog.name_of_find hfind]

/-- A table stays as it is beside a staging table that is dropped in the end. -/
theorem Memory.Catalog.Beside.rewritten_same {n : String} {a : Area} {i : Identifier} {t : Table}
    {c₀ c c' : Catalog} (h : c₀.Beside n c) (hi : i.Clear n) (hfind : c₀.find i = .ok (a, t))
    (hlast : c.Dropped n c') : Rewritten n a i t c₀ c' := by
  refine ⟨?_, hlast.gone, fun b m hm _ => (hlast.others b m hm).trans (h b m (.inr hm))⟩
  rw [hlast.find hi, h.find hi]
  exact hfind

namespace StagingTable

variable {t : StagingTable} {s s' : Session MemoryDatabase}

theorem prepare_drop (t : StagingTable) (ctx : Context) :
    prepare ctx (.dropTable true t.table) = .ok (match ctx.catalog.findIn? .temp t.name with
      | some u => .drop .temp u.name
      | none => .nothing) := by
  change prepareDrop ctx true t.table = _
  unfold prepareDrop
  rw [Catalog.find?_staging]
  cases ctx.catalog.findIn? .temp t.name <;> rfl

/-- Dropping a staging table cannot fail, and drops it whether it is there or not. -/
theorem script_drop (t : StagingTable) (m : MemoryDatabase) :
    outcome (Database.script t.dropScript) m =
      (.ok (), { m with catalog := m.catalog.drop .temp t.name }) := by
  have hread : t.dropScript.statements.flatMap readings = [some (.dropTable true t.table)] := by
    change readings (.dropTable true t.table) ++ [] = _
    rw [readings_of_isPlain (by rw [Sql.Statement.isPlain_eq]; rfl), List.append_nil]
  change m.executeAll (t.dropScript.statements.flatMap readings) = _
  rw [hread, executeAll, execute, prepare_drop]
  simp only [context]
  cases hfind : m.catalog.findIn? .temp t.name with
  | none =>
      rw [Catalog.drop_of_findIn?_none hfind]
      rfl
  | some u =>
      rw [← Catalog.drop_congr (Catalog.name_of_findIn? hfind)]
      rfl

theorem discard_eq (h : outcome t.discard s = (.ok (), s')) :
    s'.database = { s.database with catalog := s.database.catalog.drop .temp t.name } := by
  obtain ⟨⟨⟩, s₁, hexec, h⟩ := Action.outcome_bind_eq_ok_iff.1 h
  have hdrop := (t.script_drop s.database).symm.trans (Session.exec_ok hexec)
  rw [(Session.report_ok h).1]
  exact (Prod.mk.inj hdrop).2.symm

/-- The staging table is gone, and nothing else has happened to the tables. -/
theorem discard_ok (h : outcome t.discard s = (.ok (), s')) :
    ∃ c, s'.database = { s.database with catalog := c } ∧
      s.database.catalog.Dropped t.name c :=
  ⟨_, discard_eq h, Catalog.dropped_drop ..⟩

/-- A query leaves the database as it is. -/
theorem executeFirst_select {m m' : MemoryDatabase} {q : Sql.Select} {params : Sql.Params}
    {p : Prepared} {statement : Sql.Statement} {rest : List (Option Sql.Statement)}
    (hread : readings statement = some (.select q) :: rest)
    (h : m.executeFirst statement params = (.ok p, m')) :
    m' = m ∧ ∃ os rows, evalSelect (m.context params) q = .ok (os, rows) ∧ p = .rows os rows := by
  obtain ⟨s, rest', hr, hp, hperform⟩ := executeFirst_ok h
  obtain ⟨⟨rfl⟩, -⟩ := List.cons.inj (hr.symm.trans hread)
  obtain ⟨⟨os, rows⟩, hq, hp⟩ := Except.bind_eq_ok_iff.1 hp
  obtain rfl := Except.ok.inj hp
  exact ⟨(Prod.mk.inj hperform).2.symm, os, rows, hq, rfl⟩

/-- What the statement that fills the staging table reads as is run where the table was dropped. -/
theorem create_run {q : Sql.Query} {params : Sql.Params} {n : UInt64}
    (h : outcome (t.create q params) s = (.ok n, s')) :
    ∃ statement rest p,
      readings (.createTemporary (.quoted t.name) q) = some statement :: rest ∧
      prepare ⟨s.database.catalog.drop .temp t.name, params, s.database.lastKey⟩ statement = .ok p ∧
      { s.database with catalog := s.database.catalog.drop .temp t.name }.perform p =
        (.ok (), s'.database) := by
  obtain ⟨⟨⟩, s₁, hdiscard, h⟩ := Action.outcome_bind_eq_ok_iff.1 h
  obtain ⟨n₁, s₂, hrun, h⟩ := Action.outcome_bind_eq_ok_iff.1 h
  obtain ⟨r, s₃, hquery, h⟩ := Action.outcome_bind_eq_ok_iff.1 h
  obtain ⟨k, s₄, hk, h⟩ := Action.outcome_bind_eq_ok_iff.1 h
  obtain ⟨⟨⟩, s₅, hreport, h⟩ := Action.outcome_bind_eq_ok_iff.1 h
  obtain ⟨-, rfl⟩ := Prod.mk.inj h
  have hc := discard_eq hdiscard
  obtain ⟨p, hp, -, -⟩ := Session.run_ok hrun
  obtain ⟨statement, rest, hr, hprepare, hperform⟩ := executeFirst_ok hp
  have hcount : readings t.countQuery = some t.countQuery :: [] :=
    readings_of_isPlain (by rw [Sql.Statement.isPlain_eq]; rfl)
  obtain ⟨p', rest', hfirst, -, -⟩ := Session.querySingle_ok hquery
  have hsame := (executeFirst_select hcount hfirst).1
  refine ⟨statement, rest, p, hr, ?_, ?_⟩
  · simpa only [hc, context] using hprepare
  · rw [(Session.report_ok hreport).1, (Session.ofExcept_ok hk).2, hsame, ← hc]
    exact hperform

/-- The staging table holds the rows of the query, run where the table was dropped. -/
theorem create_ok {q : Sql.Query} {q' : Sql.Select} {params : Sql.Params} {n : UInt64}
    {rest : List (Option Sql.Statement)}
    (hread : readings (.createTemporary (.quoted t.name) q) =
      some (.createTemporary (.quoted t.name) (.select q')) :: rest)
    (h : outcome (t.create q params) s = (.ok n, s')) :
    ∃ os rows,
      evalSelect ⟨s.database.catalog.drop .temp t.name, params, s.database.lastKey⟩ q' =
        .ok (os, rows) ∧
      s'.database = { s.database with
        catalog := (s.database.catalog.drop .temp t.name).add .temp
          (tableOfRows t.name os rows) } := by
  obtain ⟨statement, rest', p, hr, hprepare, hperform⟩ := create_run h
  obtain ⟨⟨rfl⟩, -⟩ := List.cons.inj (hr.symm.trans hread)
  obtain ⟨⟨⟩, -, hprepare⟩ := Except.bind_eq_ok_iff.1 hprepare
  split at hprepare
  · simp at hprepare
  · obtain ⟨⟨os, rows⟩, hq, hprepare⟩ := Except.bind_eq_ok_iff.1 hprepare
    obtain rfl := Except.ok.inj hprepare
    exact ⟨os, rows, hq, (Prod.mk.inj hperform).2.symm⟩

/-- A query of the library's own that fills the staging table is plain. -/
theorem create_made {q : Sql.Select} {params : Sql.Params} {n : UInt64}
    (hmade : ∀ e ∈ q.leaves, e.isMade = true)
    (h : outcome (t.create (.select q) params) s = (.ok n, s')) :
    ∃ os rows,
      evalSelect ⟨s.database.catalog.drop .temp t.name, params, s.database.lastKey⟩ q =
        .ok (os, rows) ∧
      s'.database = { s.database with
        catalog := (s.database.catalog.drop .temp t.name).add .temp
          (tableOfRows t.name os rows) } := by
  have hleaves : ∀ e ∈ (Sql.Statement.createTemporary (.quoted t.name) (.select q)).leaves,
      e.isMade = true := hmade
  rcases Sql.Statement.isPlain_or_endsEarly hleaves with hplain | ⟨hplain, hends⟩
  · exact create_ok (readings_of_isPlain hplain) h
  · obtain ⟨statement, rest, p, hr, -⟩ := create_run h
    unfold readings at hr
    rw [if_neg (by simp [hplain]), if_pos hends] at hr
    simp at hr

/-- The rows of a query stand among those staged before. -/
theorem append_ok {q : Sql.Select} {params : Sql.Params} {n : Nat}
    (hmade : ∀ e ∈ q.leaves, e.isMade = true)
    (h : outcome (t.append (.select q) params) s = (.ok n, s')) :
    ∃ a u os rows i lastKey, s.database.catalog.find t.table = .ok (a, u) ∧
      evalSelect (s.database.context params) q = .ok (os, rows) ∧
      (Insertion.start u).insertAll (rows.map Array.toList) = (i, none) ∧
      s'.database = { s.database with
        catalog := s.database.catalog.replace a i.table, lastKey, changes := rows.length } := by
  obtain ⟨n₁, s₁, hrun, h⟩ := Action.outcome_bind_eq_ok_iff.1 h
  obtain ⟨⟨⟩, s₂, hreport, h⟩ := Action.outcome_bind_eq_ok_iff.1 h
  obtain ⟨-, rfl⟩ := Prod.mk.inj h
  obtain ⟨p, hp, -, -⟩ := Session.run_ok hrun
  obtain ⟨-, hprepare, hperform⟩ := executeFirst_made
    (show ∀ e ∈ (Sql.Statement.insertQuery t.table (.select q)).leaves, e.isMade = true from hmade)
    hp
  obtain ⟨⟨a, u⟩, hfind, hprepare⟩ := Except.bind_eq_ok_iff.1 hprepare
  obtain ⟨⟨os, rows⟩, hq, hprepare⟩ := Except.bind_eq_ok_iff.1 hprepare
  dsimp only at hprepare
  split at hprepare
  · simp at hprepare
  · obtain ⟨⟨⟩, -, hprepare⟩ := Except.bind_eq_ok_iff.1 hprepare
    obtain rfl := Except.ok.inj hprepare
    obtain ⟨i, hi, hm⟩ := perform_insert_ok hperform
    refine ⟨a, u, os, rows, i, i.last.getD s.database.lastKey, hfind, hq, hi, ?_⟩
    rw [(Session.report_ok hreport).1, hm, List.length_map]

theorem isPlain_readBackQuery (t : StagingTable) (columns : List String) :
    (t.readBackQuery columns).isPlain = true := by
  rw [Sql.Statement.isPlain_eq, List.all_eq_true]
  intro e he
  simp [readBackQuery, Sql.Statement.leaves, Sql.Select.leaves, Sql.ResultColumn.leaves,
    Sql.leavesFrom, Sql.Source.leaves, Sql.leaves?, Sql.Expr.leaves, Sql.Expr.ofName,
    List.flatMap_map] at he
  rcases he with ⟨c, -, rfl⟩ | rfl <;> rfl

/-- Reading the staged rows changes nothing. -/
theorem readBack_keeps {columns : List String} {rows : List Row}
    (h : outcome (t.readBack columns) s = (.ok rows, s')) : s'.database = s.database := by
  obtain ⟨p, hp, -, -⟩ := Session.queryAll_ok h
  exact (executeFirst_select (readings_of_isPlain (t.isPlain_readBackQuery columns)) hp).1

/-- The origin table is updated as the statement says. -/
theorem applyUpdate_ok {o : Schema} {fields : List String} {n : Nat}
    (h : outcome (t.applyUpdate o fields) s = (.ok n, s')) :
    ∃ a u changesKey values u', prepare (s.database.context #[]) (t.updateOrigin o fields) =
        .ok (.update a u changesKey values) ∧
      Revision.updateAll u changesKey values = .ok (u', n) ∧
      s'.database = { s.database with
        catalog := s.database.catalog.replace a u', changes := n } := by
  obtain ⟨n₁, s₁, hrun, h⟩ := Action.outcome_bind_eq_ok_iff.1 h
  obtain ⟨rfl, hlast⟩ := Session.lastChanges_ok h
  obtain ⟨p, hp, hn, hchanges⟩ := Session.run_ok hrun
  have hmade : ∀ e ∈ (t.updateOrigin o fields).leaves, e.isMade = true := by
    intro e he
    simp [updateOrigin, Sql.Statement.leaves, Sql.leaves?, Sql.Expr.leaves, Sql.Expr.qualified] at he
    rcases he with ⟨_, _, rfl⟩ | rfl | rfl <;> rfl
  obtain ⟨-, hprepare, hperform⟩ := executeFirst_made hmade hp
  obtain ⟨⟨a, u⟩, hfind, hrest⟩ := Except.bind_eq_ok_iff.1 hprepare
  obtain ⟨columns, -, hrest⟩ := Except.bind_eq_ok_iff.1 hrest
  obtain ⟨src, -, hrest⟩ := Except.bind_eq_ok_iff.1 hrest
  obtain ⟨terms, -, hrest⟩ := Except.bind_eq_ok_iff.1 hrest
  obtain ⟨c, -, hrest⟩ := Except.bind_eq_ok_iff.1 hrest
  obtain ⟨⟨⟩, -, hrest⟩ := Except.bind_eq_ok_iff.1 hrest
  obtain rfl := Except.ok.inj hrest
  obtain ⟨u', k, hu, hm⟩ := perform_update_ok hperform
  have hk : n = k := by rw [hlast, hchanges, hn, hm]
  exact ⟨a, u, _, _, u', hprepare, hk ▸ hu, hk ▸ hm⟩

end StagingTable

end StagedStore
