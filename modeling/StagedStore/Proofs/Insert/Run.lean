import StagedStore.Proofs.Insert.Stored
import StagedStore.Proofs.Staging

/-!
# Insertions in a transaction

What the statements of an insertion have done to the table.  Each of them extends the table by rows;
where keys are generated, the rows are numbered over all statements, and what is reported of a
chunk is the number of its last row.
-/

namespace StagedStore

open Memory MemoryDatabase

theorem Storage.eq_integer_of_bound {v : Storage} {k : Int64} (h : v.bound = .integer k) :
    v = .integer k := by
  cases v with
  | real x => cases x <;> simp [bound] at h
  | _ => exact h

/-- Rows under consecutive keys were added to a table, and nothing else has changed. -/
structure Memory.Table.Numbers {α : Type} (P : α → Entry → Prop) (t t' : Table) (xs : List α)
    (es : List Entry) : Prop where
  numbered : Numbered P (t.lastUsed.toInt + 1) xs es
  alike : t.Alike t'
  entries : t'.entries = es.reverse ++ t.entries
  used : t'.lastUsed.toInt = t.lastUsed.toInt + xs.length

namespace Memory.Table.Numbers

variable {α : Type} {P : α → Entry → Prop} {t t' t'' : Table} {xs ys : List α} {es fs : List Entry}

theorem refl (t : Table) : t.Numbers P t [] [] :=
  ⟨.nil _, .refl t, rfl, by simp⟩

theorem trans (h : t.Numbers P t' xs es) (h' : t'.Numbers P t'' ys fs) :
    t.Numbers P t'' (xs ++ ys) (es ++ fs) where
  numbered := by
    refine h.numbered.append ?_
    have hfirst : t.lastUsed.toInt + 1 + xs.length = t'.lastUsed.toInt + 1 := by
      rw [h.used]
      omega
    rw [hfirst]
    exact h'.numbered
  alike := h.alike.trans h'.alike
  entries := by rw [h'.entries, h.entries, List.reverse_append, List.append_assoc]
  used := by
    rw [h'.used, h.used, List.length_append]
    push_cast
    omega

end Memory.Table.Numbers

namespace Schema

/-- A table of the schema that numbers its rows. -/
structure Counts (s : Schema) (t : Table) : Prop where
  fits : s.Fits t
  rowKey : s.hasRowKey = true
  autoIncrement : t.autoIncrement = true

variable {s : Schema} {t : Table} {fields : List Field} {rows : List (List Storage)} {i : Insertion}

theorem Counts.key (h : s.Counts t) : t.key = some s.keyIndex := by
  rw [h.fits.key, if_pos h.rowKey]

theorem length_spreadRow (h : s.Fits t) (row : List Storage) :
    (s.spreadRow fields row).length = t.columns.length := by
  unfold spreadRow
  rw [length_spread, h.columns, List.length_map]

theorem Counts.insertAll (h : s.Counts t)
    (hi : (Insertion.start t).insertAll (rows.map (s.spreadRow fields)) = (i, none)) :
    s.Counts i.table where
  fits := by
    refine fits_insertAll h.fits (covers_ofTable h.fits) ?_ hi
    intro r hr
    obtain ⟨row, -, rfl⟩ := List.mem_map.1 hr
    exact length_spreadRow h.fits row
  rowKey := h.rowKey
  autoIncrement := by
    rw [Insertion.insertAll_alike hi]
    exact h.autoIncrement

/-- Rows without keys are numbered, and the last of them has the key that is told. -/
theorem Counts.numbers (h : s.Counts t) (hsub : fields.Sublist s.fields)
    (hkey : s.primaryKey ∉ fields) (hlen : ∀ row ∈ rows, row.length = fields.length)
    (hi : (Insertion.start t).insertAll (rows.map (s.spreadRow fields)) = (i, none)) :
    ∃ es, t.Numbers (s.Holds fields) i.table rows es ∧
      (rows ≠ [] → i.last = some i.table.lastUsed) := by
  have hnull : ∀ cells ∈ rows.map (s.spreadRow fields),
      (cells[s.keyIndex]?.getD .null).isNull = true := by
    intro cells hcells
    obtain ⟨row, -, rfl⟩ := List.mem_map.1 hcells
    rw [getElem?_spreadRow_other s.keyIndex_lt]
    · rfl
    · intro f hf he
      rw [← fieldIndex_primaryKey] at he
      exact hkey (fieldIndex_inj (hsub.subset hf) s.key_mem he ▸ hf)
  obtain ⟨es, hnum, hes, hused, hlast⟩ :=
    Insertion.insertAll_generated (i := .start t) h.key h.autoIncrement h.fits.sorted hnull hi
  have hmade : List.Forall₂ (fun row cells => row.length = fields.length ∧
      cells = s.spreadRow fields row) rows (rows.map (s.spreadRow fields)) := by
    rw [List.forall₂_map_right_iff, List.forall₂_same]
    exact fun row hrow => ⟨hlen row hrow, rfl⟩
  refine ⟨es, ⟨hnum.trade hmade ?_, Insertion.insertAll_alike hi, hes, ?_⟩, ?_⟩
  · rintro row cells e ⟨hrow, rfl⟩ he
    refine holds_of_convert h.fits hsub hrow (fun w hw => ?_) h.rowKey he
    exact absurd (List.of_mem_zip hw).1 hkey
  · rw [hused, List.length_map]
    rfl
  · simpa using hlast

/-- Rows that bring their keys along stand under them. -/
theorem Counts.holds (h : s.Counts t) (hlen : ∀ row ∈ rows, row.length = s.fields.length)
    (hgiven : ∀ row ∈ rows, ∃ k : Int64, (s.primaryKey, .integer k) ∈ s.fields.zip row)
    (hi : (Insertion.start t).insertAll (rows.map (s.spreadRow s.fields)) = (i, none)) :
    ∃ es, List.Forall₂ (s.Holds s.fields) rows es ∧ t.Alike i.table ∧
      i.table.entries.Perm (es ++ t.entries) := by
  have hcell : ∀ row ∈ rows, ∀ w, (s.primaryKey, w) ∈ s.fields.zip row →
      (s.spreadRow s.fields row)[s.keyIndex]? = some w.bound := by
    intro row hrow w hw
    rw [← fieldIndex_primaryKey]
    exact getElem?_spreadRow (.refl _) (hlen row hrow) hw
  obtain ⟨es, hes, hperm⟩ := Insertion.insertAll_given (i := .start t) h.key (fun cells hcells => by
    obtain ⟨row, hrow, rfl⟩ := List.mem_map.1 hcells
    obtain ⟨k, hk⟩ := hgiven row hrow
    exact ⟨k, hcell row hrow _ hk⟩) hi
  refine ⟨es, ?_, Insertion.insertAll_alike hi, hperm⟩
  rw [List.forall₂_map_left_iff] at hes
  refine (List.forall₂_iff_get.2 ⟨hes.length_eq, fun j hj hj' => ?_⟩)
  obtain ⟨hid, hcells⟩ := hes.get hj hj'
  have hrow := List.get_mem rows ⟨j, hj⟩
  refine holds_of_convert h.fits (.refl _) (hlen _ hrow) (fun w hw => ?_) h.rowKey hcells
  exact Storage.eq_integer_of_bound (Option.some.inj ((hcell _ hrow w hw).symm.trans hid))

end Schema

/-! ## Statements -/

section Statements

variable {s : Schema} {t : Table} {a : Area} {fields : List Field} {rows : List (List Storage)}
  {σ σ' : Session MemoryDatabase}

/-- A statement that inserts rows was prepared to do so, and has done so. -/
theorem Session.run_insert_prepared {statement : Sql.Statement} {params : Sql.Params}
    {cells : List (List Storage)} {n : Nat}
    (hfind : σ.database.catalog.find s.table.allQuoted = .ok (a, t))
    (hmade : ∀ e ∈ statement.leaves, e.isMade = true)
    (hprepare : ∀ p, prepare (σ.database.context params) statement = .ok p →
      ∃ many, p = .insert a t many cells)
    (h : outcome (Connection.run statement params) σ = (.ok n, σ')) :
    ∃ many i, prepare (σ.database.context params) statement = .ok (.insert a t many cells) ∧
      (Insertion.start t).insertAll cells = (i, none) ∧
      σ'.database.catalog.find s.table.allQuoted = .ok (a, i.table) ∧
      σ'.database.lastKey = i.last.getD σ.database.lastKey := by
  obtain ⟨p, hp, -, -⟩ := Session.run_ok h
  obtain ⟨-, hprep, hperform⟩ := executeFirst_made hmade hp
  obtain ⟨many, rfl⟩ := hprepare p hprep
  obtain ⟨i, hi, hm⟩ := perform_insert_ok hperform
  have hname : foldName i.table.name = foldName t.name := by rw [Insertion.insertAll_alike hi]; rfl
  refine ⟨many, i, hprep, hi, ?_⟩
  rw [hm]
  exact ⟨Catalog.find_replace hfind hname, rfl⟩

/-- A statement that inserts rows has done so. -/
theorem Session.run_insert_ok {statement : Sql.Statement} {params : Sql.Params}
    {cells : List (List Storage)} {n : Nat}
    (hfind : σ.database.catalog.find s.table.allQuoted = .ok (a, t))
    (hmade : ∀ e ∈ statement.leaves, e.isMade = true)
    (hprepare : ∀ p, prepare (σ.database.context params) statement = .ok p →
      ∃ many, p = .insert a t many cells)
    (h : outcome (Connection.run statement params) σ = (.ok n, σ')) :
    ∃ i, (Insertion.start t).insertAll cells = (i, none) ∧
      σ'.database.catalog.find s.table.allQuoted = .ok (a, i.table) ∧
      σ'.database.lastKey = i.last.getD σ.database.lastKey := by
  obtain ⟨_, i, -, hi⟩ := run_insert_prepared hfind hmade hprepare h
  exact ⟨i, hi⟩

theorem Schema.isMade_statement (s : Schema) (fields : List Field) (rows : List (List Storage)) :
    ∀ e ∈ (Inserts.statement s fields rows).1.leaves, e.isMade = true := by
  obtain ⟨tuples, hstatement, htuples⟩ := Schema.tuples_statement s fields rows
  rw [hstatement]
  intro e he
  simp only [Sql.Statement.leaves, Sql.Expr.leavesAll_eq, List.mem_flatMap] at he
  obtain ⟨es, hes, x, hx, he⟩ := he
  obtain ⟨j, hj, rfl⟩ := List.getElem_of_mem hes
  have hj' : j < rows.length := by rw [htuples.length_eq]; exact hj
  have hrow := htuples.get hj' hj
  obtain ⟨l, hl, rfl⟩ := List.getElem_of_mem hx
  have hl' : l < (rows.get ⟨j, hj'⟩).length := by rw [hrow.length_eq]; exact hl
  obtain ⟨n, hn, -⟩ := hrow.get hl' hl
  simp only [List.get_eq_getElem] at hn
  rw [hn] at he
  rw [List.mem_singleton.1 he]
  rfl

theorem isPlain_lastInsertedKeyQuery : Connection.lastInsertedKeyQuery.isPlain = true := by
  rw [Sql.Statement.isPlain_eq]
  rfl

/-- The query for the key of the row inserted last has one row, and the key in it. -/
theorem MemoryDatabase.evalSelect_lastInsertedKey (m : MemoryDatabase) :
    evalSelect (m.context #[])
        (.mk [.expr (.call "last_insert_rowid" []) (some (.bare "rowid"))] none none [] none) =
      .ok ([⟨"rowid", .cell (.integer m.lastKey), .none⟩], [#[.integer m.lastKey]]) := by
  have hcall : foldName "last_insert_rowid" = "last_insert_rowid" := by decide +kernel
  have houtputs : [Sql.ResultColumn.expr (.call "last_insert_rowid" []) (some (.bare "rowid"))].mapM
      (outputs ((m.context #[]).resolver [])) =
        .ok [[⟨"rowid", .cell (.integer m.lastKey), .none⟩]] := by
    simp [outputs, Resolver.resolve, hcall, Context.resolver, context, Part.name]
  have hfrom : evalFrom (m.context #[]) none = .ok ⟨[], [#[]]⟩ := by rw [evalFrom]
  exact evalSelect_results hfrom houtputs rfl

/-- The key of the row inserted last is asked for, and nothing else is done. -/
theorem Session.lastInsertedKey_ok {k : Int64}
    (h : outcome Connection.lastInsertedKey σ = (.ok k, σ')) :
    σ'.database = σ.database ∧ k = σ.database.lastKey := by
  obtain ⟨r, σ₁, hquery, h⟩ := Action.outcome_bind_eq_ok_iff.1 h
  obtain ⟨hk, rfl⟩ := Session.ofExcept_ok h
  obtain ⟨p, rest, hfirst, hrows, -⟩ := Session.querySingle_ok hquery
  obtain ⟨hdb, os, out, heval, rfl⟩ :=
    StagingTable.executeFirst_select (readings_of_isPlain isPlain_lastInsertedKeyQuery) hfirst
  have hresult := σ.database.evalSelect_lastInsertedKey
  obtain ⟨rfl, rfl⟩ := Prod.mk.inj (Except.ok.inj (heval.symm.trans hresult))
  obtain ⟨rfl, -⟩ := List.cons.inj hrows
  exact ⟨hdb, (Except.ok.inj hk).symm⟩

/-- Rows without any cell are inserted by a statement for each. -/
theorem Schema.Counts.insertDefaults_ok (h : s.Counts t)
    (hfind : σ.database.catalog.find s.table.allQuoted = .ok (a, t))
    (hlen : ∀ row ∈ rows, row = [])
    (hrun : outcome (rows.forM fun _ => do
      let _ ← Connection.run (.insertDefault s.table.allQuoted) #[]) σ = (.ok (), σ')) :
    ∃ t' es, σ'.database.catalog.find s.table.allQuoted = .ok (a, t') ∧ s.Counts t' ∧
      t.Numbers (s.Holds []) t' rows es ∧
      (rows ≠ [] ∨ σ.database.lastKey = t.lastUsed → σ'.database.lastKey = t'.lastUsed) := by
  induction rows generalizing σ t with
  | nil =>
      obtain ⟨-, rfl⟩ := Prod.mk.inj hrun
      exact ⟨t, [], hfind, h, .refl t, by simp⟩
  | cons row rows ih =>
      rw [List.forM_eq_forM, List.forM_cons] at hrun
      obtain ⟨⟨⟩, σ₁, hone, hrest⟩ := Action.outcome_bind_eq_ok_iff.1 hrun
      obtain ⟨n, σ₂, hinsert, hpure⟩ := Action.outcome_bind_eq_ok_iff.1 hone
      obtain ⟨-, rfl⟩ := Prod.mk.inj hpure
      obtain rfl : row = [] := hlen row (by simp)
      obtain ⟨i, hi, hfind₁, hlast⟩ := Session.run_insert_ok hfind (by simp [Sql.Statement.leaves])
        (fun p hp => ⟨false, Schema.prepare_insertDefault h.fits hfind hp⟩) hinsert
      have hi : (Insertion.start t).insertAll ([[]].map (s.spreadRow [])) = (i, none) := hi
      obtain ⟨es, hnum, hkeyed⟩ := h.numbers (List.nil_sublist _) (by simp) (by simp) hi
      obtain ⟨t', fs, hfind', h', hnum', hlast'⟩ := ih (h.insertAll hi) hfind₁
        (fun r hr => hlen r (by simp [hr])) hrest
      refine ⟨t', es ++ fs, hfind', h', hnum.trans hnum', fun _ => hlast' (.inr ?_)⟩
      rw [hlast, hkeyed (by simp), Option.getD_some]

/-- Rows without keys are inserted, by one statement or by one for each. -/
theorem Schema.Counts.insertRows_ok (h : s.Counts t)
    (hfind : σ.database.catalog.find s.table.allQuoted = .ok (a, t))
    (hsub : fields.Sublist s.fields) (hkey : s.primaryKey ∉ fields)
    (hlen : ∀ row ∈ rows, row.length = fields.length) (hrows : rows ≠ [])
    (hrun : outcome (Inserts.insertRows s fields rows) σ = (.ok (), σ')) :
    ∃ t' es, σ'.database.catalog.find s.table.allQuoted = .ok (a, t') ∧ s.Counts t' ∧
      t.Numbers (s.Holds fields) t' rows es ∧ σ'.database.lastKey = t'.lastUsed := by
  unfold Inserts.insertRows at hrun
  split at hrun
  · obtain rfl : fields = [] := List.isEmpty_iff.1 ‹_›
    obtain ⟨t', es, hfind', h', hnum, hlast⟩ := h.insertDefaults_ok hfind
      (fun row hrow => List.length_eq_zero_iff.1 (hlen row hrow)) hrun
    exact ⟨t', es, hfind', h', hnum, hlast (.inl hrows)⟩
  · obtain ⟨n, σ₁, hinsert, hpure⟩ := Action.outcome_bind_eq_ok_iff.1 hrun
    obtain ⟨-, rfl⟩ := Prod.mk.inj hpure
    have hne : fields ≠ [] := by simpa using ‹¬fields.isEmpty = true›
    obtain ⟨i, hi, hfind', hlast⟩ := Session.run_insert_ok hfind
      (Schema.isMade_statement s fields rows)
      (fun p hp => Schema.prepare_statement h.fits hfind hne hsub rfl hp) hinsert
    obtain ⟨es, hnum, hkeyed⟩ := h.numbers hsub hkey hlen hi
    refine ⟨i.table, es, hfind', h.insertAll hi, hnum, ?_⟩
    rw [hlast, hkeyed hrows, Option.getD_some]

end Statements

/-! ## Chunks -/

/-- What is reported of chunks of rows that were numbered on from a first key: how long each is, and
the key of its last row. -/
inductive Reported {α : Type} : Int → List (List α) → List (Nat × Int64) → Prop
  | nil (first : Int) : Reported first [] []
  | cons {first : Int} {c : List α} {cs : List (List α)} {last : Int64}
      {lasts : List (Nat × Int64)} (hlast : last.toInt + 1 = first + c.length)
      (hrest : Reported (first + c.length) cs lasts) :
      Reported first (c :: cs) ((c.length, last) :: lasts)

section Chunks

variable {s : Schema} {t : Table} {a : Area} {ins : Inserts} {σ σ' : Session MemoryDatabase}
  {chunks : List (List (List Storage))}

/-- Chunks of rows without keys are numbered on and on. -/
theorem Schema.Counts.insertChunks_ok {told : List (Option (Nat × Int64))} (h : s.Counts t)
    (hfind : σ.database.catalog.find s.table.allQuoted = .ok (a, t))
    (hgen : ins.generated = true) (hsub : ins.fields.Sublist s.fields)
    (hkey : s.primaryKey ∉ ins.fields)
    (hlen : ∀ c ∈ chunks, c ≠ [] ∧ ∀ row ∈ c, row.length = ins.fields.length)
    (hrun : outcome (chunks.mapM (ins.insertChunk s)) σ = (.ok told, σ')) :
    ∃ t' es, σ'.database.catalog.find s.table.allQuoted = .ok (a, t') ∧
      t.Numbers (s.Holds ins.fields) t' chunks.flatten es ∧
      Reported (t.lastUsed.toInt + 1) chunks (told.filterMap id) := by
  induction chunks generalizing σ t told with
  | nil =>
      obtain ⟨htold, rfl⟩ := Prod.mk.inj hrun
      obtain rfl := Except.ok.inj htold
      exact ⟨t, [], hfind, .refl t, .nil _⟩
  | cons c chunks ih =>
      rw [List.mapM_cons] at hrun
      obtain ⟨one, σ₁, hone, hrun⟩ := Action.outcome_bind_eq_ok_iff.1 hrun
      obtain ⟨rest, σ₂, hrest, hpure⟩ := Action.outcome_bind_eq_ok_iff.1 hrun
      obtain ⟨htold, rfl⟩ := Prod.mk.inj hpure
      obtain rfl := Except.ok.inj htold
      unfold Inserts.insertChunk at hone
      rw [if_pos hgen] at hone
      obtain ⟨⟨⟩, σ₃, hrows, hone⟩ := Action.outcome_bind_eq_ok_iff.1 hone
      obtain ⟨last, σ₄, hlast, hpure⟩ := Action.outcome_bind_eq_ok_iff.1 hone
      obtain ⟨htold, rfl⟩ := Prod.mk.inj hpure
      obtain rfl := Except.ok.inj htold
      obtain ⟨hc, hclen⟩ := hlen c (by simp)
      obtain ⟨t₁, es, hfind₁, h₁, hnum, hused⟩ :=
        h.insertRows_ok hfind hsub hkey hclen hc hrows
      obtain ⟨hdb, hlast⟩ := Session.lastInsertedKey_ok hlast
      obtain ⟨t', fs, hfind', hnum', hreported⟩ := ih h₁ (by rw [hdb]; exact hfind₁)
        (fun d hd => hlen d (by simp [hd])) hrest
      refine ⟨t', es ++ fs, hfind', ?_, ?_⟩
      · rw [List.flatten_cons]
        exact hnum.trans hnum'
      · refine .cons ?_ ?_
        · rw [hlast, hused, hnum.used]
          omega
        · rw [hnum.used] at hreported
          have hfirst : t.lastUsed.toInt + 1 + c.length = t.lastUsed.toInt + c.length + 1 := by
            omega
          rw [hfirst]
          exact hreported

/-- Chunks of rows with keys are inserted, and nothing is reported of them. -/
theorem Schema.Counts.insertGiven_ok {told : List (Option (Nat × Int64))} (h : s.Counts t)
    (hfind : σ.database.catalog.find s.table.allQuoted = .ok (a, t))
    (hgen : ins.generated = false) (hfields : ins.fields = s.fields)
    (hlen : ∀ c ∈ chunks, ∀ row ∈ c, row.length = s.fields.length ∧
      ∃ k : Int64, (s.primaryKey, .integer k) ∈ s.fields.zip row)
    (hrun : outcome (chunks.mapM (ins.insertChunk s)) σ = (.ok told, σ')) :
    ∃ t' es, σ'.database.catalog.find s.table.allQuoted = .ok (a, t') ∧
      List.Forall₂ (s.Holds s.fields) chunks.flatten es ∧ t.Alike t' ∧
      t'.entries.Perm (es ++ t.entries) ∧ told.filterMap id = [] := by
  induction chunks generalizing σ t told with
  | nil =>
      obtain ⟨htold, rfl⟩ := Prod.mk.inj hrun
      obtain rfl := Except.ok.inj htold
      exact ⟨t, [], hfind, .nil, .refl t, .refl _, rfl⟩
  | cons c chunks ih =>
      rw [List.mapM_cons] at hrun
      obtain ⟨one, σ₁, hone, hrun⟩ := Action.outcome_bind_eq_ok_iff.1 hrun
      obtain ⟨rest, σ₂, hrest, hpure⟩ := Action.outcome_bind_eq_ok_iff.1 hrun
      obtain ⟨htold, rfl⟩ := Prod.mk.inj hpure
      obtain rfl := Except.ok.inj htold
      unfold Inserts.insertChunk at hone
      rw [if_neg (by simp [hgen])] at hone
      obtain ⟨⟨⟩, σ₃, hrows, hpure⟩ := Action.outcome_bind_eq_ok_iff.1 hone
      obtain ⟨htold, rfl⟩ := Prod.mk.inj hpure
      obtain rfl := Except.ok.inj htold
      have hne : s.fields ≠ [] := List.ne_nil_of_mem s.key_mem
      unfold Inserts.insertRows at hrows
      rw [hfields, if_neg (by simpa using hne)] at hrows
      obtain ⟨n, σ₄, hinsert, hpure⟩ := Action.outcome_bind_eq_ok_iff.1 hrows
      obtain ⟨-, rfl⟩ := Prod.mk.inj hpure
      obtain ⟨i, hi, hfind₁, -⟩ := Session.run_insert_ok hfind
        (Schema.isMade_statement s s.fields c)
        (fun p hp => Schema.prepare_statement h.fits hfind hne (.refl _) rfl hp) hinsert
      have hc := hlen c (by simp)
      obtain ⟨es, hes, halike, hperm⟩ := h.holds (fun row hrow => (hc row hrow).1)
        (fun row hrow => (hc row hrow).2) hi
      obtain ⟨t', fs, hfind', hfs, halike', hperm', htold⟩ := ih (h.insertAll hi) hfind₁
        (fun d hd => hlen d (by simp [hd])) hrest
      refine ⟨t', es ++ fs, hfind', ?_, halike.trans halike', ?_, by simpa using htold⟩
      · rw [List.flatten_cons]
        exact List.rel_append hes hfs
      · refine hperm'.trans ((hperm.append_left fs).trans ?_)
        rw [← List.append_assoc]
        exact List.perm_append_comm.append_right _

end Chunks

end StagedStore
