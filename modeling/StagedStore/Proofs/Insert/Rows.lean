import StagedStore.Proofs.Insert.Entities

/-!
# Rows of an insertion

What an insertion leaves in a table, whatever the schema and its key: the rows that there were, and
rows whose cells are what the columns keep of written ones.
-/

namespace StagedStore

open Memory MemoryDatabase

namespace Memory

/-- A row that a table makes of inserted cells. Its key is the one that they give, if they do. -/
structure Table.Makes (t : Table) (cells : List Storage) (e : Entry) : Prop where
  stored : e.cells = match t.key with
    | none => t.convert cells
    | some k => (t.convert cells).setIfInBounds k (.integer e.id)
  given : ∀ k, t.key = some k → (cells[k]?.getD .null).isNull = false →
    Affinity.integer.store (cells[k]?.getD .null) = .integer e.id

theorem Table.Alike.makes_iff {t t' : Table} (h : t.Alike t') {cells : List Storage} {e : Entry} :
    t'.Makes cells e ↔ t.Makes cells e := by
  have hkey : t'.key = t.key := by rw [h]
  constructor
  · rintro ⟨hcells, hgiven⟩
    exact ⟨by rw [hcells, hkey, h.convert_eq], hkey ▸ hgiven⟩
  · rintro ⟨hcells, hgiven⟩
    exact ⟨by rw [hcells, hkey, h.convert_eq], hkey ▸ hgiven⟩

namespace Insertion

variable {i i' : Insertion}

theorem makes_of_complete {t : Table} {cells : List Storage} {e : Entry} {isGiven : Bool}
    (h : complete t cells = .ok (e, isGiven)) : t.Makes cells e := by
  refine ⟨complete_ok h, fun k hk hnull => ?_⟩
  unfold complete at h
  rw [hk] at h
  dsimp only at h
  rw [hnull, if_neg Bool.false_ne_true] at h
  unfold Table.keyOfCell? at h
  split at h
  · rename_i n hn
    split at hn
    · rename_i k' hstore
      obtain ⟨rfl, -⟩ := Prod.mk.inj (Except.ok.inj h)
      rw [hstore, Option.some.inj hn]
    · cases hn
  · cases h

/-- Behind an insertion stand the rows that there were and rows made of the inserted cells, at least
one of each. -/
theorem makes_insertAll {rows : List (List Storage)} (h : i.insertAll rows = (i', none)) :
    (∀ e ∈ i.table.entries, e ∈ i'.table.entries) ∧
    (∀ e ∈ i'.table.entries, e ∈ i.table.entries ∨ ∃ cells ∈ rows, i.table.Makes cells e) ∧
    ∀ cells ∈ rows, ∃ e ∈ i'.table.entries, i.table.Makes cells e := by
  induction rows generalizing i with
  | nil =>
      obtain ⟨rfl, -⟩ := Prod.mk.inj h
      exact ⟨fun _ he => he, fun e he => .inl he, by simp⟩
  | cons cells rows ih =>
      rw [insertAll] at h
      split at h
      · rename_i i₁ hi₁
        have halike := insert_alike hi₁
        obtain ⟨new, isGiven, hcomplete, -, -, -, hi₁⟩ := insert_ok hi₁
        have hentries (e : Entry) : e ∈ i₁.table.entries ↔ e = new ∨ e ∈ i.table.entries := by
          rw [hi₁, ← List.mem_cons]
          exact (Table.place_perm new _).mem_iff
        obtain ⟨hkept, hgrown, hmade⟩ := ih h
        simp only [halike.makes_iff] at hgrown hmade
        refine ⟨fun e he => hkept e ((hentries e).2 (.inr he)), fun e he => ?_,
          List.forall_mem_cons.2 ⟨⟨new, hkept new ((hentries new).2 (.inl rfl)),
            makes_of_complete hcomplete⟩, hmade⟩⟩
        rcases hgrown e he with he | ⟨made, hin, he⟩
        · rcases (hentries e).1 he with rfl | he
          · exact .inr ⟨cells, List.mem_cons_self, makes_of_complete hcomplete⟩
          · exact .inl he
        · exact .inr ⟨made, List.mem_cons_of_mem _ hin, he⟩
      · simp at h

end Insertion

end Memory

variable {s : Schema} {t t' t'' : Table} {fields : List Field} {row : List Storage}
  {rows rows' : List (List Storage)} {e : Entry}

/-- A row that was made of written cells: but for a key that the table itself keeps, a field has
null or what its column keeps of its cell. -/
def Schema.MadeOf (s : Schema) (fields : List Field) (row : List Storage) (e : Entry) : Prop :=
  ∀ f ∈ s.fields, (s.hasRowKey = true → f ≠ s.primaryKey) →
    s.fieldCell f.name e = f.affinity.store .null ∨
      ∃ w, (f, w) ∈ fields.zip row ∧ s.fieldCell f.name e = f.affinity.store w.bound

theorem Schema.madeOf_of_convert (h : s.Fits t) (hsub : fields.Sublist s.fields)
    (hlen : row.length = fields.length)
    (he : e.cells = match t.key with
      | none => t.convert (s.spreadRow fields row)
      | some k => (t.convert (s.spreadRow fields row)).setIfInBounds k (.integer e.id)) :
    s.MadeOf fields row e := by
  intro f hf hkey
  have hplace := getElem?_fieldIndex_of_mem hf
  have hcells : e.cells[s.fieldIndex f.name]? =
      (t.convert (s.spreadRow fields row))[s.fieldIndex f.name]? := by
    rw [he, h.key]
    split
    · rfl
    · rename_i k hk
      split at hk
      · rename_i hrow
        obtain rfl := Option.some.inj hk
        refine Array.getElem?_setIfInBounds_ne fun hsame => hkey hrow ?_
        rw [← fieldIndex_primaryKey] at hsame
        exact (fieldIndex_inj s.key_mem hf hsame).symm
      · cases hk
  have hstored {v : Storage} (hv : (s.spreadRow fields row)[s.fieldIndex f.name]? = some v) :
      s.fieldCell f.name e = f.affinity.store v := by
    rw [fieldCell, hcells, getElem?_convert h hplace hv, Option.getD_some]
  by_cases hin : f ∈ fields
  · right
    have hall : List.Forall₂ (fun _ _ => True) fields row :=
      List.forall₂_iff_get.2 ⟨hlen.symm, fun _ _ _ => trivial⟩
    obtain ⟨w, hw, -⟩ := exists_zip_of_forall₂ hall hin
    exact ⟨w, hw, hstored (getElem?_spreadRow hsub hlen hw)⟩
  · left
    refine hstored (getElem?_spreadRow_other (List.getElem?_eq_some_iff.1 hplace).1 fun g hg he => ?_)
    exact hin (fieldIndex_inj (hsub.subset hg) hf he ▸ hg)

/-- A row carries written cells: its fields have what their columns keep of those that are not null,
the key included. -/
def Schema.Carries (s : Schema) (fields : List Field) (row : List Storage) (e : Entry) : Prop :=
  ∀ f w, (f, w) ∈ fields.zip row → w.bound.isNull = false →
    s.fieldCell f.name e = f.affinity.store w.bound

theorem Schema.carries_of_makes (h : s.Fits t) (hsub : fields.Sublist s.fields)
    (hlen : row.length = fields.length) (he : t.Makes (s.spreadRow fields row) e) :
    s.Carries fields row e := by
  intro f w hw hnull
  have hf := hsub.subset (List.of_mem_zip hw).1
  have hplace := getElem?_fieldIndex_of_mem hf
  have hcell := getElem?_spreadRow hsub hlen hw
  have hconvert := getElem?_convert h hplace hcell
  have hcells := he.stored
  cases hrow : s.hasRowKey with
  | false =>
      have hkey : t.key = none := by rw [h.key, hrow]; rfl
      rw [hkey] at hcells
      rw [fieldCell, hcells, hconvert, Option.getD_some]
  | true =>
      have hkey : t.key = some s.keyIndex := by rw [h.key, hrow]; rfl
      rw [hkey] at hcells
      replace hcells : e.cells = (t.convert (s.spreadRow fields row)).setIfInBounds s.keyIndex
        (.integer e.id) := hcells
      by_cases hfk : f = s.primaryKey
      · subst hfk
        rw [fieldIndex_primaryKey] at hcell hconvert
        have hlt := (Array.getElem?_eq_some_iff.1 hconvert).1
        have haff : s.primaryKey.affinity = .integer := of_decide_eq_true hrow
        have hgiven := he.given _ hkey (by rw [hcell]; exact hnull)
        rw [hcell, Option.getD_some] at hgiven
        rw [fieldCell_primaryKey, keyCell, hcells, Array.getElem?_setIfInBounds_self_of_lt hlt, haff,
          hgiven, Option.getD_some]
      · have hne : s.keyIndex ≠ s.fieldIndex f.name := by
          rw [← fieldIndex_primaryKey]
          exact fun he => hfk (fieldIndex_inj s.key_mem hf he).symm
        rw [fieldCell, hcells, Array.getElem?_setIfInBounds_ne hne, hconvert, Option.getD_some]

/-! ## Tables that are extended -/

/-- A state of a table to which rows were added. -/
structure Schema.Extends (s : Schema) (fields : List Field) (rows : List (List Storage))
    (t t' : Table) : Prop where
  state : s.TableState t'
  entries : ∀ e ∈ t'.entries, e ∈ t.entries ∨ ∃ row ∈ rows, s.MadeOf fields row e

/-- A state of a table that has every row of another and one for each of some written rows. -/
structure Schema.Grows (s : Schema) (fields : List Field) (rows : List (List Storage))
    (t t' : Table) : Prop extends s.Extends fields rows t t' where
  kept : ∀ e ∈ t.entries, e ∈ t'.entries
  grown : ∀ e ∈ t'.entries, e ∈ t.entries ∨ ∃ row ∈ rows, s.Carries fields row e
  carried : ∀ row ∈ rows, ∃ e ∈ t'.entries, s.Carries fields row e

namespace Schema.Grows

theorem refl (h : s.TableState t) : s.Grows fields [] t t where
  state := h
  entries := fun _ he => .inl he
  kept := fun _ he => he
  grown := fun _ he => .inl he
  carried := by simp

theorem trans (h : s.Grows fields rows t t') (h' : s.Grows fields rows' t' t'') :
    s.Grows fields (rows ++ rows') t t'' where
  state := h'.state
  entries := fun e he => by
    rcases h'.entries e he with he | ⟨row, hrow, he⟩
    · rcases h.entries e he with he | ⟨row, hrow, he⟩
      · exact .inl he
      · exact .inr ⟨row, List.mem_append_left _ hrow, he⟩
    · exact .inr ⟨row, List.mem_append_right _ hrow, he⟩
  kept := fun e he => h'.kept e (h.kept e he)
  grown := fun e he => by
    rcases h'.grown e he with he | ⟨row, hrow, he⟩
    · rcases h.grown e he with he | ⟨row, hrow, he⟩
      · exact .inl he
      · exact .inr ⟨row, List.mem_append_left _ hrow, he⟩
    · exact .inr ⟨row, List.mem_append_right _ hrow, he⟩
  carried := fun row hrow => by
    rcases List.mem_append.1 hrow with hrow | hrow
    · obtain ⟨e, he, hcarries⟩ := h.carried row hrow
      exact ⟨e, h'.kept e he, hcarries⟩
    · exact h'.carried row hrow

theorem of_insertAll (h : s.TableState t) (hsub : fields.Sublist s.fields)
    (hlen : ∀ row ∈ rows, row.length = fields.length) {ctx : Context} {statement : Sql.Statement}
    {a : Area} {many : Bool} {i : Insertion}
    (hp : prepare ctx statement = .ok (.insert a t many (rows.map (s.spreadRow fields))))
    (hi : (Insertion.start t).insertAll (rows.map (s.spreadRow fields)) = (i, none)) :
    s.Grows fields rows t i.table := by
  have hfits := fits_of_tableState h
  obtain ⟨hkept, hgrown, hmade⟩ := Insertion.makes_insertAll hi
  refine ⟨⟨.inserted h hp hi, fun e he => ?_⟩, hkept, fun e he => ?_, fun row hrow => ?_⟩
  · rcases hgrown e he with he | ⟨cells, hcells, he⟩
    · exact .inl he
    · obtain ⟨row, hrow, rfl⟩ := List.mem_map.1 hcells
      exact .inr ⟨row, hrow, madeOf_of_convert hfits hsub (hlen row hrow) he.stored⟩
  · rcases hgrown e he with he | ⟨cells, hcells, he⟩
    · exact .inl he
    · obtain ⟨row, hrow, rfl⟩ := List.mem_map.1 hcells
      exact .inr ⟨row, hrow, carries_of_makes hfits hsub (hlen row hrow) he⟩
  · obtain ⟨e, he, hmakes⟩ := hmade _ (List.mem_map_of_mem hrow)
    exact ⟨e, he, carries_of_makes hfits hsub (hlen row hrow) hmakes⟩

end Schema.Grows

/-! ## Statements and chunks -/

section Run

variable {a : Area} {σ σ' : Session MemoryDatabase} {ins : Inserts}

theorem Schema.grows_insertDefaults (h : s.TableState t)
    (hfind : σ.database.catalog.find s.table.allQuoted = .ok (a, t))
    (hlen : ∀ row ∈ rows, row = [])
    (hrun : outcome (rows.forM fun _ => do
      let _ ← Connection.run (.insertDefault s.table.allQuoted) #[]) σ = (.ok (), σ')) :
    ∃ t', σ'.database.catalog.find s.table.allQuoted = .ok (a, t') ∧ s.Grows [] rows t t' := by
  induction rows generalizing σ t with
  | nil =>
      obtain ⟨-, rfl⟩ := Prod.mk.inj hrun
      exact ⟨t, hfind, .refl h⟩
  | cons row rows ih =>
      rw [List.forM_eq_forM, List.forM_cons] at hrun
      obtain ⟨⟨⟩, σ₁, hone, hrest⟩ := Action.outcome_bind_eq_ok_iff.1 hrun
      obtain ⟨n, σ₂, hinsert, hpure⟩ := Action.outcome_bind_eq_ok_iff.1 hone
      obtain ⟨-, rfl⟩ := Prod.mk.inj hpure
      obtain rfl : row = [] := hlen row (by simp)
      obtain ⟨many, i, hp, hi, hfind₁, -⟩ := Session.run_insert_prepared hfind
        (by simp [Sql.Statement.leaves])
        (fun p hp => ⟨false, Schema.prepare_insertDefault (fits_of_tableState h) hfind hp⟩) hinsert
      have hone : s.Grows [] [[]] t i.table :=
        .of_insertAll h (List.nil_sublist _) (by simp) hp hi
      obtain ⟨t', hfind', hrest⟩ := ih hone.state hfind₁ (fun r hr => hlen r (by simp [hr])) hrest
      exact ⟨t', hfind', hone.trans hrest⟩

theorem Schema.grows_insertRows (h : s.TableState t)
    (hfind : σ.database.catalog.find s.table.allQuoted = .ok (a, t))
    (hsub : fields.Sublist s.fields) (hlen : ∀ row ∈ rows, row.length = fields.length)
    (hrun : outcome (Inserts.insertRows s fields rows) σ = (.ok (), σ')) :
    ∃ t', σ'.database.catalog.find s.table.allQuoted = .ok (a, t') ∧
      s.Grows fields rows t t' := by
  unfold Inserts.insertRows at hrun
  split at hrun
  · obtain rfl : fields = [] := List.isEmpty_iff.1 ‹_›
    exact grows_insertDefaults h hfind
      (fun row hrow => List.length_eq_zero_iff.1 (hlen row hrow)) hrun
  · obtain ⟨n, σ₁, hinsert, hpure⟩ := Action.outcome_bind_eq_ok_iff.1 hrun
    obtain ⟨-, rfl⟩ := Prod.mk.inj hpure
    have hne : fields ≠ [] := by simpa using ‹¬fields.isEmpty = true›
    obtain ⟨many, i, hp, hi, hfind', -⟩ := Session.run_insert_prepared hfind
      (isMade_statement s fields rows)
      (fun p hp => prepare_statement (fits_of_tableState h) hfind hne hsub rfl hp) hinsert
    exact ⟨i.table, hfind', .of_insertAll h hsub hlen hp hi⟩

theorem Inserts.grows_insertChunk (h : s.TableState t)
    (hfind : σ.database.catalog.find s.table.allQuoted = .ok (a, t))
    (hsub : ins.fields.Sublist s.fields) (hlen : ∀ row ∈ rows, row.length = ins.fields.length)
    {told : Option (Nat × Int64)}
    (hrun : outcome (ins.insertChunk s rows) σ = (.ok told, σ')) :
    ∃ t', σ'.database.catalog.find s.table.allQuoted = .ok (a, t') ∧
      s.Grows ins.fields rows t t' := by
  obtain ⟨⟨⟩, σ₁, hrows, hrest⟩ := Action.outcome_bind_eq_ok_iff.1 hrun
  have hsame : σ'.database = σ₁.database := by
    split at hrest
    · obtain ⟨k, σ₂, hlast, hpure⟩ := Action.outcome_bind_eq_ok_iff.1 hrest
      obtain ⟨-, rfl⟩ := Prod.mk.inj hpure
      exact (Session.lastInsertedKey_ok hlast).1
    · obtain ⟨-, rfl⟩ := Prod.mk.inj hrest
      rfl
  rw [hsame]
  exact Schema.grows_insertRows h hfind hsub hlen hrows

theorem Inserts.grows_insertChunks {chunks : List (List (List Storage))} (h : s.TableState t)
    (hfind : σ.database.catalog.find s.table.allQuoted = .ok (a, t))
    (hsub : ins.fields.Sublist s.fields)
    (hlen : ∀ c ∈ chunks, ∀ row ∈ c, row.length = ins.fields.length)
    {told : List (Option (Nat × Int64))}
    (hrun : outcome (chunks.mapM (ins.insertChunk s)) σ = (.ok told, σ')) :
    ∃ t', σ'.database.catalog.find s.table.allQuoted = .ok (a, t') ∧
      s.Grows ins.fields chunks.flatten t t' := by
  induction chunks generalizing σ t told with
  | nil =>
      obtain ⟨-, rfl⟩ := Prod.mk.inj hrun
      exact ⟨t, hfind, .refl h⟩
  | cons c chunks ih =>
      rw [List.mapM_cons] at hrun
      obtain ⟨one, σ₁, hone, hrun⟩ := Action.outcome_bind_eq_ok_iff.1 hrun
      obtain ⟨rest, σ₂, hrest, hpure⟩ := Action.outcome_bind_eq_ok_iff.1 hrun
      obtain ⟨-, rfl⟩ := Prod.mk.inj hpure
      obtain ⟨t₁, hfind₁, hone⟩ := grows_insertChunk h hfind hsub (hlen c (by simp)) hone
      obtain ⟨t', hfind', hrest⟩ := ih hone.state hfind₁ (fun d hd => hlen d (by simp [hd])) hrest
      exact ⟨t', hfind', by rw [List.flatten_cons]; exact hone.trans hrest⟩

end Run

/-! ## Insertions that succeed -/

/-- No entity has a key where keys are generated. -/
theorem Inserts.isNull_of_generates {ε : Type} [Entity ε] {items : List ε}
    (h : generates s items = .ok true) {item : ε} (hitem : item ∈ items) :
    (Entity.fieldOrNull item s.primaryKey.name).isNull = true := by
  cases hauto : s.autoIncrement with
  | false => simp [generates, Schema.generatedKey?, hauto] at h
  | true =>
      rw [generates_eq hauto] at h
      split at h
      · cases h
      · exact List.countP_eq_length.1 (of_decide_eq_true (Except.ok.inj h)) item hitem

section Succeeds

variable {ε : Type} [Entity ε] {items : List ε} {pool pool' : Pool MemoryDatabase}
  {m : MemoryDatabase} {a : Area} {b : Batch ε Nat} {n : Nat}

/-- An insertion that succeeds adds a row for each entity, which carries what its fields are written as.
A field is written if some entity has a value for it. -/
theorem Pool.insert_grows (hm : pool.database = some m)
    (ht : m.catalog.find s.table.allQuoted = .ok (a, t)) (hstate : s.TableState t)
    (h : Pool.insert s items pool = (b, pool')) (hok : b.result = .ok n) :
    ∃ m' t' fields rows, pool'.database = some m' ∧
      m'.catalog.find s.table.allQuoted = .ok (a, t') ∧ s.Grows fields rows t t' ∧
      List.Forall₂ (fun item row => List.Forall₂
        (fun f w => f.encode (Entity.fieldOrNull item f.name) = .ok w) fields row) items rows ∧
      ∀ item ∈ items, ∀ f ∈ s.fields, (Entity.fieldOrNull item f.name).isNull = false →
        f ∈ fields := by
  by_cases hne : items = []
  · subst hne
    obtain ⟨-, rfl⟩ := Prod.mk.inj h
    exact ⟨m, t, [], [], hm, ht, .refl hstate, .nil, nofun⟩
  · obtain ⟨i, lasts, σ, m', hi, hrun, hm', hcatalog, -, -⟩ := Pool.insert_ok hne hm h hok
    obtain ⟨hgenerates, hfields, hrows⟩ := Inserts.ofItems_ok hi
    obtain ⟨told, hchunks, -, hflat⟩ := Inserts.insertAll_ok hrun
    obtain ⟨t', hfind, hgrows⟩ := Inserts.grows_insertChunks hstate ht
      (hfields ▸ List.filter_sublist) (fun c hc row hrow => by
        have hin : row ∈ i.rows := hflat ▸ List.mem_flatten.2 ⟨c, hc, hrow⟩
        obtain ⟨item, -, hencoded⟩ := hrows.exists_left hin
        exact hencoded.length_eq.symm) hchunks
    rw [hflat] at hgrows
    refine ⟨m', t', i.fields, i.rows, hm', hcatalog ▸ hfind, hgrows, hrows,
      fun item hitem f hf hv => ?_⟩
    rw [hfields, List.mem_filter]
    refine ⟨hf, ?_⟩
    by_cases hkey : f.name = s.primaryKey.name
    · rw [hkey] at hv
      cases hgenerated : i.generated with
      | false => rfl
      | true =>
          rw [hgenerated] at hgenerates
          rw [Inserts.isNull_of_generates hgenerates hitem] at hv
          cases hv
    · simp [hkey]

/-- The rows behind an insertion that succeeds are those before it and rows made of what the fields
of the entities are written as. -/
theorem Pool.insert_extends (hm : pool.database = some m)
    (ht : m.catalog.find s.table.allQuoted = .ok (a, t)) (hstate : s.TableState t)
    (h : Pool.insert s items pool = (b, pool')) (hok : b.result = .ok n) :
    ∃ m' t' fields rows, pool'.database = some m' ∧
      m'.catalog.find s.table.allQuoted = .ok (a, t') ∧ s.Extends fields rows t t' ∧
      ∀ row ∈ rows, ∃ item ∈ items,
        List.Forall₂ (fun f w => f.encode (Entity.fieldOrNull item f.name) = .ok w) fields row := by
  obtain ⟨m', t', fields, rows, hm', ht', hgrows, hrows, -⟩ := insert_grows hm ht hstate h hok
  exact ⟨m', t', fields, rows, hm', ht', hgrows.toExtends, fun row hrow => hrows.exists_left hrow⟩

end Succeeds

end StagedStore
