import StagedStore.Proofs.Insert.Assigned
import StagedStore.Proofs.Memory.Succeeds

/-!
# Inserted entities

What an insertion of entities does where the store generates keys.  Entities that leave their keys
open get those of the rows that store them, all entities with keys stay as they are, and a mixture
of both is refused before anything is done.
-/

namespace StagedStore

open Memory

variable {ε : Type} [Entity ε] {s : Schema} {items : List ε}

/-! ## Storage forms -/

namespace Inserts

theorem ofItems_ok {i : Inserts} (h : ofItems s items = .ok i) :
    generates s items = .ok i.generated ∧
      i.fields = s.fields.filter (fun f => !(i.generated && f.name = s.primaryKey.name)) ∧
      List.Forall₂ (fun item row => List.Forall₂
        (fun f w => f.encode (Entity.fieldOrNull item f.name) = .ok w) i.fields row) items i.rows := by
  obtain ⟨generated, hgen, h⟩ := Except.bind_eq_ok_iff.1 h
  obtain ⟨rows, hrows, h⟩ := Except.bind_eq_ok_iff.1 h
  rw [← Except.ok.inj h]
  refine ⟨hgen, rfl, (Except.mapM_eq_ok_iff.1 hrows).imp fun item row hrow => ?_⟩
  exact Except.mapM_eq_ok_iff.1 hrow

/-- Whether an entity leaves the key open. -/
def keyless (s : Schema) (item : ε) : Bool :=
  (Entity.fieldOrNull item s.primaryKey.name).isNull

theorem generates_eq (hauto : s.autoIncrement = true) :
    generates s items =
      if items.countP (keyless s) ≠ 0 ∧ items.countP (keyless s) ≠ items.length then
        .error (.validation (.mixedKeys s.primaryKey.name))
      else .ok (decide (items.countP (keyless s) = items.length)) := by
  unfold generates Schema.generatedKey?
  rw [if_pos hauto]
  rfl

theorem generates_of_all (hauto : s.autoIncrement = true)
    (h : ∀ item ∈ items, keyless s item = true) : generates s items = .ok true := by
  rw [generates_eq hauto, List.countP_eq_length.2 h]
  simp

theorem generates_of_none (hauto : s.autoIncrement = true) (hne : items ≠ [])
    (h : ∀ item ∈ items, keyless s item = false) : generates s items = .ok false := by
  have hzero : items.countP (keyless s) = 0 := List.countP_eq_zero.2 fun item hi => by simp [h item hi]
  rw [generates_eq hauto, hzero]
  simpa using Ne.symm (mt List.length_eq_zero_iff.1 hne)

theorem generates_of_mixed (hauto : s.autoIncrement = true) (hopen : ∃ item ∈ items, keyless s item)
    (hset : ∃ item ∈ items, keyless s item = false) :
    generates s items = .error (.validation (.mixedKeys s.primaryKey.name)) := by
  rw [generates_eq hauto, if_pos]
  obtain ⟨x, hx, hxopen⟩ := hopen
  obtain ⟨y, hy, hyset⟩ := hset
  refine ⟨fun hzero => ?_, fun hall => ?_⟩
  · exact absurd hxopen (List.countP_eq_zero.1 hzero x hx)
  · rw [List.countP_eq_length.1 hall y hy] at hyset
    exact Bool.noConfusion hyset

/-- The fields that are written when keys are generated: all but the key. -/
theorem fields_generated :
    (s.fields.filter fun f => !(true && f.name = s.primaryKey.name)) =
      s.fields.filter (· ≠ s.primaryKey) := by
  refine List.filter_congr fun f hf => ?_
  by_cases h : f = s.primaryKey
  · simp [h]
  · have hname : f.name ≠ s.primaryKey.name := fun he =>
      h (List.inj_on_of_nodup_map s.names_nodup hf s.key_mem he)
    simp [h, hname]

end Inserts

/-- A row keeps what an entity's values for some fields are written as, and its key is its own. -/
structure Schema.Stores (s : Schema) (fields : List Field) (item : ε) (e : Entry) : Prop where
  key : s.keyCell e = .integer e.id
  fields : ∀ f ∈ fields, ∃ w, f.encode (Entity.fieldOrNull item f.name) = .ok w ∧
    s.fieldCell f.name e = w.kept

theorem exists_zip_of_forall₂ {α β : Type} {R : α → β → Prop} {xs : List α} {ys : List β}
    (h : List.Forall₂ R xs ys) {x : α} (hx : x ∈ xs) : ∃ y, (x, y) ∈ xs.zip ys ∧ R x y := by
  rw [← List.map_fst_zip (Nat.le_of_eq h.length_eq)] at hx
  obtain ⟨⟨x, y⟩, hy, rfl⟩ := List.mem_map.1 hx
  exact ⟨y, hy, (List.forall₂_iff_zip.1 h).2 hy⟩

/-- A key that the store can generate is an integer. -/
theorem Inserts.integer_of_encode (hauto : s.autoIncrement = true) {v : Value} {w : Storage}
    (h : s.primaryKey.encode v = .ok w) : ∃ k, w = .integer k := by
  rcases Field.encode_ok h with ⟨-, hnull, -⟩ | ⟨-, h⟩
  · rw [s.key_required] at hnull
    exact Bool.noConfusion hnull
  · have hwrites := Field.writes_of_encodeKind? h
    rw [s.generated_integer hauto] at hwrites
    exact hwrites

theorem Schema.Holds.stores {fields : List Field} {row : List Storage} {e : Entry} {item : ε}
    (h : s.Holds fields row e)
    (hrow : List.Forall₂ (fun f w => f.encode (Entity.fieldOrNull item f.name) = .ok w) fields row) :
    s.Stores fields item e where
  key := h.key
  fields := by
    intro f hf
    obtain ⟨w, hw, hencode⟩ := exists_zip_of_forall₂ hrow hf
    exact ⟨w, hencode, by rw [h.cells f w hw, Field.store_encode hencode]⟩

/-! ## The table -/

/-- A table that generates keys goes on doing so. -/
theorem Schema.autoIncrement_of_tableState {t : Table} (hauto : s.autoIncrement = true)
    (h : s.TableState t) : t.autoIncrement = true := by
  induction h with
  | created h =>
      obtain ⟨-, name, rfl⟩ := created_ok h
      have hint : foldName s.primaryKey.kind.columnType = "integer" := by
        rw [s.generated_integer hauto]
        decide +kernel
      rw [tableOf_columnDefs]
      simp only [addConstraint, columnDef, hint, if_true]
      exact hauto
  | inserted _ _ hi ih => rw [Insertion.insertAll_alike hi]; exact ih
  | updated _ _ hu ih =>
      obtain ⟨r, -, hr⟩ := Except.bind_eq_ok_iff.1 hu
      obtain ⟨rfl, -⟩ := Prod.mk.inj (Except.ok.inj hr)
      exact ih
  | deleted _ _ ih => exact ih

theorem Schema.hasRowKey_of_autoIncrement (hauto : s.autoIncrement = true) :
    s.hasRowKey = true := by
  have hkind := s.generated_integer hauto
  exact decide_eq_true (by rw [Field.affinity_eq, hkind])

/-! ## Insertions that succeed -/

section Succeeds

variable {pool pool' : Pool MemoryDatabase} {m : MemoryDatabase} {a : Area} {t : Table}
  {b : Batch ε Nat} {n : Nat}

/-- All that an insertion that succeeds does: the rows are inserted, then keys are written. -/
theorem Pool.insert_ok (hne : items ≠ []) (hm : pool.database = some m)
    (h : Pool.insert s items pool = (b, pool')) (hok : b.result = .ok n) :
    ∃ i lasts σ m', Inserts.ofItems s items = .ok i ∧
      outcome (i.insertAll s) (Session.start { m with saved := some m.catalog } pool.logLimit) =
        (.ok lasts, σ) ∧
      pool'.database = some m' ∧ m'.catalog = σ.database.catalog ∧
      assignGenerated s.primaryKey.name items lasts = (b.items, .ok ()) ∧ n = b.items.length := by
  unfold Pool.insert at h
  rw [if_neg (by simpa using hne)] at h
  split at h
  · obtain ⟨rfl, -⟩ := Prod.mk.inj h
    simp at hok
  · rename_i i hi
    split at h
    · obtain ⟨rfl, -⟩ := Prod.mk.inj h
      simp at hok
    · rename_i lasts p hrun
      obtain ⟨m₁, σ, m', hm₁, hrun, hm', hcatalog⟩ := Pool.transaction_ok hrun
      obtain rfl := Option.some.inj (hm.symm.trans hm₁)
      split at h
      · obtain ⟨rfl, -⟩ := Prod.mk.inj h
        simp at hok
      · rename_i items' hassign
        obtain ⟨rfl, rfl⟩ := Prod.mk.inj h
        exact ⟨i, lasts, σ, m', hi, hrun, hm', hcatalog, hassign, (Except.ok.inj hok).symm⟩

/-- The storage form of a batch, and the chunks it is inserted in. -/
theorem Inserts.insertAll_ok {i : Inserts} {σ σ' : Session MemoryDatabase}
    {lasts : List (Nat × Int64)} (hrun : outcome (i.insertAll s) σ = (.ok lasts, σ')) :
    ∃ told, outcome ((chunksOf i.chunkSize i.rows).mapM (i.insertChunk s)) σ = (.ok told, σ') ∧
      lasts = told.filterMap id ∧ (chunksOf i.chunkSize i.rows).flatten = i.rows := by
  obtain ⟨told, σ₁, hchunks, hpure⟩ := Action.outcome_bind_eq_ok_iff.1 hrun
  obtain ⟨hlasts, rfl⟩ := Prod.mk.inj hpure
  exact ⟨told, hchunks, (Except.ok.inj hlasts).symm, flatten_chunksOf _ i.chunkSize_ne_zero _⟩

/-- Entities that leave their keys open and the rows that store them are numbered alike. -/
theorem Schema.Counts.insert_open (h : s.Counts t) (hauto : s.autoIncrement = true)
    (hne : items ≠ []) (hm : pool.database = some m)
    (ht : m.catalog.find s.table.allQuoted = .ok (a, t))
    (hopen : ∀ item ∈ items, Inserts.keyless s item = true)
    (hrun : Pool.insert s items pool = (b, pool')) (hok : b.result = .ok n) :
    ∃ m' t' es, pool'.database = some m' ∧ m'.catalog.find s.table.allQuoted = .ok (a, t') ∧
      t.Numbers (s.Stores (s.fields.filter (· ≠ s.primaryKey))) t' items es ∧
      Assigned s.primaryKey.name (t.lastUsed.toInt + 1) items b.items ∧ n = b.items.length := by
  obtain ⟨i, lasts, σ, m', hi, hrun, hm', hcatalog, hassign, rfl⟩ := Pool.insert_ok hne hm hrun hok
  obtain ⟨hgen, hfields, hrows⟩ := Inserts.ofItems_ok hi
  have hgen : i.generated = true :=
    (Except.ok.inj ((Inserts.generates_of_all hauto hopen).symm.trans hgen)).symm
  rw [hgen, Inserts.fields_generated] at hfields
  obtain ⟨told, hchunks, rfl, hflat⟩ := Inserts.insertAll_ok hrun
  have hchunk : ∀ c ∈ chunksOf i.chunkSize i.rows,
      c ≠ [] ∧ ∀ row ∈ c, row.length = i.fields.length := by
    intro c hc
    refine ⟨ne_nil_of_mem_chunksOf hc, fun row hrow => ?_⟩
    have hmem : row ∈ i.rows := hflat ▸ List.mem_flatten.2 ⟨c, hc, hrow⟩
    obtain ⟨j, hj, rfl⟩ := List.getElem_of_mem hmem
    exact (hrows.get (hrows.length_eq ▸ hj) hj).length_eq.symm
  obtain ⟨t', es, hfind, hnum, hreported⟩ := h.insertChunks_ok ht hgen
    (by rw [hfields]; exact List.filter_sublist) (by simp [hfields]) hchunk hchunks
  have hcounts : ∀ c ∈ chunksOf i.chunkSize i.rows, c.length < 2 ^ 63 := fun c hc =>
    Nat.lt_of_le_of_lt (Nat.le_trans (length_le_of_mem_chunksOf hc) i.chunkSize_le) (by decide)
  have hassigned := assignGenerated_ok hreported hcounts (by rw [hflat, hrows.length_eq]) hassign
  rw [hflat] at hnum
  refine ⟨m', t', es, hm', hcatalog ▸ hfind, ?_, hassigned, rfl⟩
  refine ⟨hnum.numbered.trade hrows fun item row e hrow he => hfields ▸ he.stores hrow, hnum.alike,
    hnum.entries, ?_⟩
  rw [hnum.used, hrows.length_eq]

/-- Entities with keys are stored under them, and no key is generated. -/
theorem Schema.Counts.insert_keyed (h : s.Counts t) (hauto : s.autoIncrement = true)
    (hne : items ≠ []) (hm : pool.database = some m)
    (ht : m.catalog.find s.table.allQuoted = .ok (a, t))
    (hkeyed : ∀ item ∈ items, Inserts.keyless s item = false)
    (hrun : Pool.insert s items pool = (b, pool')) (hok : b.result = .ok n) :
    ∃ m' t' es, pool'.database = some m' ∧ m'.catalog.find s.table.allQuoted = .ok (a, t') ∧
      t.Alike t' ∧ t'.entries.Perm (es ++ t.entries) ∧
      List.Forall₂ (s.Stores s.fields) items es ∧ b.items = items ∧ n = items.length := by
  obtain ⟨i, lasts, σ, m', hi, hrun, hm', hcatalog, hassign, rfl⟩ := Pool.insert_ok hne hm hrun hok
  obtain ⟨hgen, hfields, hrows⟩ := Inserts.ofItems_ok hi
  have hgen : i.generated = false :=
    (Except.ok.inj ((Inserts.generates_of_none hauto hne hkeyed).symm.trans hgen)).symm
  rw [hgen] at hfields
  obtain hfields : i.fields = s.fields := by simpa using hfields
  rw [hfields] at hrows
  obtain ⟨told, hchunks, rfl, hflat⟩ := Inserts.insertAll_ok hrun
  have hrow : ∀ row ∈ i.rows, row.length = s.fields.length ∧
      ∃ k : Int64, (s.primaryKey, .integer k) ∈ s.fields.zip row := by
    intro row hrow
    obtain ⟨j, hj, rfl⟩ := List.getElem_of_mem hrow
    have hencoded := hrows.get (hrows.length_eq ▸ hj) hj
    refine ⟨hencoded.length_eq.symm, ?_⟩
    obtain ⟨w, hw, hencode⟩ := exists_zip_of_forall₂ hencoded s.key_mem
    obtain ⟨k, rfl⟩ := Inserts.integer_of_encode hauto hencode
    exact ⟨k, hw⟩
  have hchunk : ∀ c ∈ chunksOf i.chunkSize i.rows, ∀ row ∈ c, row.length = s.fields.length ∧
      ∃ k : Int64, (s.primaryKey, .integer k) ∈ s.fields.zip row :=
    fun c hc row hmem => hrow row (hflat ▸ List.mem_flatten.2 ⟨c, hc, hmem⟩)
  obtain ⟨t', es, hfind, hes, halike, hperm, htold⟩ := h.insertGiven_ok ht hgen hfields hchunk hchunks
  rw [htold] at hassign
  obtain ⟨hitems, -⟩ := Prod.mk.inj hassign
  rw [hflat] at hes
  refine ⟨m', t', es, hm', hcatalog ▸ hfind, halike, hperm, ?_, hitems.symm, by rw [hitems]⟩
  refine List.forall₂_iff_get.2 ⟨hrows.length_eq.trans hes.length_eq, fun j hj hj' => ?_⟩
  exact (hes.get (hrows.length_eq ▸ hj) hj').stores (hrows.get hj (hrows.length_eq ▸ hj))

/-- Where a schema generates keys, entities that leave theirs open get those of their own rows, in
one run of numbers above all keys before; entities that all have keys are stored under them and
stay as they are; of a mixture nothing is stored. -/
theorem insert_numbers_items (hauto : s.autoIncrement = true) (hne : items ≠ [])
    (hm : pool.database = some m) (ht : m.catalog.find s.table.allQuoted = .ok (a, t))
    (hstate : s.TableState t) (h : Pool.insert s items pool = (b, pool')) :
    ((∀ item ∈ items, Inserts.keyless s item = true) → ∀ n, b.result = .ok n →
      n = items.length ∧ b.items.length = items.length ∧
      ∃ (m' : MemoryDatabase) (t' : Table) (first : Int) (rows : List Entry),
        pool'.database = some m' ∧ m'.catalog.find s.table.allQuoted = .ok (a, t') ∧
        t.Alike t' ∧ t'.entries = rows.reverse ++ t.entries ∧ rows.length = items.length ∧
        (∀ e ∈ t.entries, e.id.toInt < first) ∧
        ∀ (i : Nat) (item : ε), items[i]? = some item → ∃ e item', rows[i]? = some e ∧
          b.items[i]? = some item' ∧ e.id.toInt = first + i ∧
          s.Stores (s.fields.filter (· ≠ s.primaryKey)) item e ∧
          Entity.setField item s.primaryKey.name (.integer e.id) = .ok item') ∧
    ((∀ item ∈ items, Inserts.keyless s item = false) → ∀ n, b.result = .ok n →
      n = items.length ∧ b.items = items ∧
      ∃ (m' : MemoryDatabase) (t' : Table) (rows : List Entry),
        pool'.database = some m' ∧ m'.catalog.find s.table.allQuoted = .ok (a, t') ∧
        t.Alike t' ∧ t'.entries.Perm (rows ++ t.entries) ∧
        List.Forall₂ (s.Stores s.fields) items rows) ∧
    ((∃ item ∈ items, Inserts.keyless s item = true) →
      (∃ item ∈ items, Inserts.keyless s item = false) →
      b.result = .error (.validation (.mixedKeys s.primaryKey.name)) ∧ b.items = items ∧
      pool' = pool) := by
  have hcounts : s.Counts t := ⟨Schema.fits_of_tableState hstate,
    Schema.hasRowKey_of_autoIncrement hauto, Schema.autoIncrement_of_tableState hauto hstate⟩
  refine ⟨fun hopen n hok => ?_, fun hkeyed n hok => ?_, fun hopen hset => ?_⟩
  · obtain ⟨m', t', es, hm', hfind, hnum, hassigned, rfl⟩ :=
      hcounts.insert_open hauto hne hm ht hopen h hok
    refine ⟨hassigned.length_eq, hassigned.length_eq, m', t', t.lastUsed.toInt + 1, es, hm', hfind,
      hnum.alike, hnum.entries, hnum.numbered.length_eq, fun e he => ?_, fun j item hj => ?_⟩
    · have hle := Table.le_lastUsed hcounts.fits.sorted he
      omega
    · obtain ⟨item', k, hitem', hk, hset⟩ := hassigned.get hj
      obtain ⟨e, he, hid, hstores⟩ := hnum.numbered.get hj
      obtain rfl : k = e.id := Int64.toInt_inj.1 (hk.trans hid.symm)
      exact ⟨e, item', he, hitem', hid, hstores, hset⟩
  · obtain ⟨m', t', es, hm', hfind, halike, hperm, hstores, hitems, hn⟩ :=
      hcounts.insert_keyed hauto hne hm ht hkeyed h hok
    exact ⟨hn, hitems, m', t', es, hm', hfind, halike, hperm, hstores⟩
  · have hmixed : Inserts.ofItems s items = .error (.validation (.mixedKeys s.primaryKey.name)) := by
      unfold Inserts.ofItems
      rw [Inserts.generates_of_mixed hauto hopen hset]
      rfl
    unfold Pool.insert at h
    rw [if_neg (by simpa using hne), hmixed] at h
    obtain ⟨rfl, rfl⟩ := Prod.mk.inj h
    exact ⟨rfl, rfl, rfl⟩

end Succeeds

/-! ## Two entities behind a gap -/

namespace Gap

def schema : Schema where
  table := .ofPart (.bare "t")
  fields := [⟨"id", .integer, false⟩, ⟨"x", .text, true⟩]
  primaryKey := ⟨"id", .integer, false⟩
  autoIncrement := true
  names_nodup := by decide
  names_valid := by decide +kernel
  key_mem := by decide
  key_required := Eq.refl false
  generated_integer := fun _ => Eq.refl FieldKind.integer

/-- The table of the schema with some rows. -/
def table (sequence : Int64) (entries : List Entry) : Table :=
  ⟨"t", [⟨"id", .integer, true⟩, ⟨"x", .text, false⟩], some 0, true, [], [], [], sequence, entries⟩

/-- The row that stays. -/
def kept : Entry :=
  ⟨3, #[.integer 3, .null]⟩

theorem prepare_createTable : prepare ⟨.empty, #[], 0⟩ schema.createTable =
    .ok (.create .main (table 0 [])) := by
  with_unfolding_all rfl

def insertion : Sql.Statement :=
  .insert schema.table.allQuoted [.quoted "id"] [[.literal (.integer 3)], [.literal (.integer 7)]]

theorem prepare_insertion : prepare ⟨⟨[table 0 []], []⟩, #[], 0⟩ insertion =
    .ok (.insert .main (table 0 []) true [[.integer 3, .null], [.integer 7, .null]]) := by
  with_unfolding_all rfl

theorem insertAll_rows :
    (Insertion.start (table 0 [])).insertAll [[.integer 3, .null], [.integer 7, .null]] =
      (⟨table 7 [⟨7, #[.integer 7, .null]⟩, kept], [], some 7⟩, none) := by
  with_unfolding_all rfl

def deletion : Sql.Statement :=
  .delete schema.table.allQuoted
    (some (.compare .eq (.column none (.quoted "id")) (.literal (.integer 7))))

theorem prepare_deletion :
    prepare ⟨⟨[table 7 [⟨7, #[.integer 7, .null]⟩, kept]], []⟩, #[], 7⟩ deletion =
      .ok (.delete .main (table 7 [⟨7, #[.integer 7, .null]⟩, kept]) fun e =>
        (Term.compare .eq .numeric (.slot 1) (.cell (.integer 7))).holds (Table.rowOf e)) := by
  with_unfolding_all rfl

/-- The row with the largest key is gone, but the key is remembered. -/
theorem tableState : schema.TableState (table 7 [kept]) :=
  .deleted (.inserted (.created prepare_createTable) prepare_insertion insertAll_rows)
    prepare_deletion

def pool : Pool MemoryDatabase :=
  .ofDatabase ⟨⟨[table 7 [kept]], []⟩, none, 7, 1⟩ none

def records : List Record :=
  [.ofList [("x", .text "p")], .ofList [("x", .text "q")]]

theorem insert_records : (Pool.insert schema records pool).1.result = .ok 2 := by
  with_unfolding_all rfl

end Gap

open Gap in
/-- Two entities are stored behind the largest key that there ever was, and get their keys. -/
theorem insert_numbers_items_of_two :
    (Pool.insert schema records pool).1.result = .ok 2 ∧
      (∀ item ∈ records, Inserts.keyless schema item = true) ∧
      ∃ (m' : MemoryDatabase) (t' : Table) (first : Int) (rows : List Entry),
        (Pool.insert schema records pool).2.database = some m' ∧
        m'.catalog.find schema.table.allQuoted = .ok (.main, t') ∧
        (table 7 [kept]).Alike t' ∧ t'.entries = rows.reverse ++ [kept] ∧
        rows.length = 2 ∧ (∀ e ∈ [kept], e.id.toInt < first) ∧
        ∀ (i : Nat) (item : Record), records[i]? = some item → ∃ e item', rows[i]? = some e ∧
          (Pool.insert schema records pool).1.items[i]? = some item' ∧ e.id.toInt = first + i ∧
          schema.Stores (schema.fields.filter (· ≠ schema.primaryKey)) item e ∧
          Entity.setField item schema.primaryKey.name (.integer e.id) = .ok item' := by
  have hopen : ∀ item ∈ records, Inserts.keyless schema item = true := by
    with_unfolding_all decide
  have h := insert_numbers_items rfl (by simp [records]) (show pool.database = some _ from rfl)
    (by with_unfolding_all rfl) tableState (show Pool.insert schema records pool = (_, _) from rfl)
  obtain ⟨-, -, hrows⟩ := h.1 hopen 2 insert_records
  exact ⟨insert_records, hopen, hrows⟩

end StagedStore
