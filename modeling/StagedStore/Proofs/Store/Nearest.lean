import StagedStore.Proofs.Schema.Whole
import StagedStore.Proofs.Store.Told

/-!
# Integers that are told

A sum may leave the integers of 64 bits, and the store then keeps it as a real. An integer field reads
such a real as a bound of these integers: what a patch reports and what an update writes back is the
number that the table holds as long as it has 64 bits, and the nearest that has otherwise.
-/

namespace StagedStore

open Memory MemoryDatabase

variable {s : Schema} {n : String} {e : Entry} {v : Value}

/-- A value is what an integer field reads from a row. -/
def Schema.ReadsInteger (s : Schema) (n : String) (e : Entry) (v : Value) : Prop :=
  ∀ f, s.requireField n = .ok f → f.kind = .integer → (s.fieldCell n e).ReadsAs v

theorem Schema.HoldsValue.readsInteger (h : s.HoldsValue n e v) : s.ReadsInteger n e v := by
  intro f hf hkind
  obtain ⟨g, w, hg, hdecode, hsame⟩ := h
  obtain rfl := Except.ok.inj (hf.symm.trans hg)
  have hreads := (Field.decode_eq_ok_iff hkind).1 hdecode
  rcases hsame with rfl | ⟨x, y, -, rfl, -⟩
  · exact hreads
  -- No integer field reads a real.
  · rcases hreads with ⟨-, hw⟩ | ⟨k, -, hw⟩ <;> cases hw

variable {ε : Type} [Entity ε] {b : SchemaBuilder} {t : Table} {a : Area} {m : MemoryDatabase}
  {p : Pool MemoryDatabase} {stg : StagingTable} {name : String}

/-- Integer fields read whole numbers as the nearest of 64 bits, which is the number itself if and
only if it has 64 bits. In this way a patch tells the integers that the matched rows hold behind it,
and an update writes back those of the rows with the entities' keys. -/
theorem integers_are_told_as_nearest (hb : b.build = .ok s) (hstate : s.TableState t)
    (hstg : StagingTable.new name = .ok stg) (hname : foldName s.table.name ≠ foldName stg.name)
    (halias : foldName s.table.name ≠ "_staged")
    (hfind : m.catalog.find s.table.allQuoted = .ok (a, t)) (hp : p.database = some m) :
    (∀ (f : Field) (w : Storage), f.kind = .integer →
      (∀ v, f.decode w = .ok v ↔ w.ReadsAs v) ∧
      (w.isNull = false → w.wholeNumber? = none →
        f.decode w = .error (.decode f.name (.mismatch .integer w.className)))) ∧
    (∀ (w : Storage) (k : Int), w.wholeNumber? = some k →
      (clampInt64 k).toInt = max Int64.minValue.toInt (min k Int64.maxValue.toInt) ∧
      (w.cmp (.integer (clampInt64 k)) = .eq ↔ fitsInt64 k = true)) ∧
    (∀ f c returning r p', Condition.AllComplete f.conditions →
      outcome (Pool.patch s stg f c returning) p = (.ok r, p') →
      ∃ es m', es.Perm (f.matched s t (c.bound s)) ∧ p'.database = some m' ∧
        m'.catalog.find s.table.allQuoted = .ok (a, c.applyToRows s es t) ∧
        ∀ n vs, (n, vs) ∈ r.returning →
          List.Forall₂ (fun e v => s.ReadsInteger n (c.applyTo s e) v) es vs) ∧
    (s.primaryKey.kind ≠ .real → ∀ (sets : List (ChangeSet ε)) (u : Batch ε Nat) p',
      (∀ c ∈ sets, ∃ key changes item, ChangeSet.new s key changes item = .ok c) →
      Pool.update s stg sets p = (u, p') →
      u.items = sets.map ChangeSet.item ∧
          ((∃ e, u.result = .error e) ∨ ∀ c ∈ sets, c.changes.isEmpty = true) ∨
        ∃ bs m' t', assignWriteBacks (sets.map ChangeSet.item).toArray bs =
            (u.items.toArray, u.result.map fun _ => ()) ∧
          p'.database = some m' ∧ m'.catalog.find s.table.allQuoted = .ok (a, t') ∧
          (∀ w ∈ bs, ∃ c, sets[w.1]? = some c ∧ w.2.map Prod.fst = c.changes.incremented ∧
            ∀ x ∈ w.2, ∀ e ∈ t'.entries, c.concerns s e = true → s.ReadsInteger x.1 e x.2) ∧
          WriteBack.Complete s sets t' bs) := by
  refine ⟨fun f w hkind => ⟨fun v => Field.decode_eq_ok_iff hkind, Field.decode_eq_error hkind⟩,
    fun w k hk => ⟨toInt_clampInt64 k, Storage.cmp_clampInt64_iff hk⟩, ?_, ?_⟩
  · intro f c returning r p' hcomplete h
    obtain ⟨⟨es, hes, htells⟩, m', hm', hrewritten⟩ := Pool.patch_ok
      ⟨⟨b, hb⟩, hstate, Filter.declared_of_patch h, hcomplete⟩
      (StagingTable.nul_notMem_of_new hstg) (.inl hname) (fun _ => halias) hfind hp h
    have hsame : c.applyToRows s (f.matched s t (c.bound s)) t = c.applyToRows s es t := by
      simp only [Changes.applyToRows, hes.mem_iff]
    refine ⟨es, m', hes, hm', hsame ▸ hrewritten.origin, fun n vs hin => ?_⟩
    exact (htells.values n vs hin).imp fun _ _ htold => Schema.HoldsValue.readsInteger htold
  · intro hkind sets u p' hsets h
    have hchecked := ChangeSet.forall_checked hsets
    rcases Pool.update_tells hkind hchecked (.inl hname) halias hp hfind hstate h with
      hkept | ⟨bs, m', t', hassign, hm', ht', htells, hcomplete⟩
    · exact .inl hkept
    · refine .inr ⟨bs, m', t', hassign, hm', ht', fun w hw => ?_, hcomplete⟩
      obtain ⟨c, hc, hnames, hholds⟩ := htells w hw
      exact ⟨c, hc, hnames, fun x hx e he hconcerns => (hholds x hx e he hconcerns).readsInteger⟩

/-- The least integer that 64 bits cannot hold. -/
def beyondInt64 : Storage := .real (.ofInt (2 ^ 63))

open FirstRow ThreeRows in
/-- Ten is added to two rows by a patch, and to the first by an update. A number beyond 64 bits is
told as another. -/
theorem integers_are_told_as_nearest_of_three :
    (Field.decode ⟨"x", .integer, true⟩ beyondInt64 = .ok (.integer Int64.maxValue) ∧
      beyondInt64.cmp (.integer Int64.maxValue) ≠ .eq) ∧
    (∃ p' es m', outcome (Pool.patch schema staging below raise ["id"]) pool = (.ok report, p') ∧
      es.Perm (below.matched schema (table 3 entries) (raise.bound schema)) ∧
      p'.database = some m' ∧
      m'.catalog.find schema.table.allQuoted =
        .ok (.main, raise.applyToRows schema es (table 3 entries)) ∧
      List.Forall₂ (fun e v => schema.ReadsInteger "x" (raise.applyTo schema e) v) es
        [.integer 15, .integer 17]) ∧
    ∃ u p' bs m' t', Pool.update schema staging [one] pool = (u, p') ∧
      assignWriteBacks #[item] bs = (u.items.toArray, .ok ()) ∧ p'.database = some m' ∧
      m'.catalog.find schema.table.allQuoted = .ok (.main, t') ∧
      (∀ w ∈ bs, ∃ c, [one][w.1]? = some c ∧ w.2.map Prod.fst = c.changes.incremented ∧
        ∀ x ∈ w.2, ∀ e ∈ t'.entries, c.concerns schema e = true →
          schema.ReadsInteger x.1 e x.2) ∧
      WriteBack.Complete schema [one] t' bs := by
  obtain ⟨hread, hnear, hpatch, hupdate⟩ := integers_are_told_as_nearest (ε := Record)
    (t := table 3 entries) (m := ⟨⟨[table 3 entries], []⟩, none, 3, 3⟩) (p := pool)
    build_builder tableState new_staging (by with_unfolding_all decide)
    (by with_unfolding_all decide) (by with_unfolding_all rfl) rfl
  have hbeyond : beyondInt64.wholeNumber? = some (2 ^ 63) := by decide +kernel
  have hclamp : clampInt64 (2 ^ 63) = Int64.maxValue := by decide
  refine ⟨⟨((hread ⟨"x", .integer, true⟩ beyondInt64 rfl).1 _).2 (.inr ⟨2 ^ 63, hbeyond, ?_⟩), ?_⟩,
    ?_, ?_⟩
  · rw [hclamp]
  · rw [← hclamp, (hnear beyondInt64 _ hbeyond).2.ne]
    decide
  · obtain ⟨p', hrun, -⟩ := patch_raise
    obtain ⟨es, m', hes, hm', hfind, htold⟩ :=
      hpatch below raise ["id"] report p' ⟨trivial, trivial⟩ hrun
    exact ⟨p', es, m', hrun, hes, hm', hfind, htold "x" _ (by simp [report])⟩
  · obtain ⟨u, p', hrun, hok⟩ := update_one
    have hone : ∀ c ∈ [one], ∃ key changes item, ChangeSet.new schema key changes item = .ok c :=
      List.forall_mem_singleton.2 ⟨_, _, _, new_one⟩
    rcases hupdate (by decide) [one] u p' hone hrun with
      ⟨-, ⟨e, he⟩ | hempty⟩ | ⟨bs, m', t', hassign, hrest⟩
    · rw [hok] at he
      cases he
    · exact absurd (hempty one (by simp)) (by decide)
    · rw [hok] at hassign
      exact ⟨u, p', bs, m', t', hrun, hassign, hrest⟩

end StagedStore
