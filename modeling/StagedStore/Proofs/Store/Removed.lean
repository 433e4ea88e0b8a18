import StagedStore.Proofs.Recovery.Removal
import StagedStore.Proofs.Store.Agreement
import StagedStore.Proofs.Store.OneRow

/-!
# Removing entities

A removal asks for the rows of its keys in chunks.  Each chunk deletes the rows of its keys that the
chunks before have left, so a key that is given again finds nothing, and all chunks together delete
every row of a key once.
-/

namespace StagedStore

open Memory MemoryDatabase Sql

variable {ε : Type} {s : Schema} {t : Table} {e : Entry} {vs ws : List Value} {a : Area}

/-! ## The rows of some keys -/

/-- The filter that asks for some keys. -/
def Filter.byKeys (s : Schema) (keys : List Value) : Filter :=
  Filter.all.isIn s.primaryKey.name keys

theorem Truth.disjunction_eq_true {vs : List Truth} :
    disjunction vs = some true ↔ some true ∈ vs := by
  unfold disjunction
  split
  · rename_i h
    exact iff_of_true rfl (List.contains_iff_mem.1 h)
  · rename_i h
    refine iff_of_false ?_ fun hin => h (List.contains_iff_mem.2 hin)
    split <;> simp

/-- Being in a list is being equal to one of its values, also where the list is empty. -/
theorem Condition.verdict_isIn (n : String) (vs : List Value) :
    verdict s e (isIn n vs) = Truth.disjunction (vs.map fun v =>
      (s.fieldCell n e).equals (s.fieldAffinity n) v.boundCell) := by
  cases vs with
  | nil => rfl
  | cons v vs => rfl

namespace Schema

/-- Whether a row has one of the keys. -/
def isKeyed (s : Schema) (vs : List Value) (e : Entry) : Bool :=
  vs.any fun v => match s.primaryKey.encode v with
    | .ok k => decide (s.keyCell e = k)
    | .error _ => false

theorem isKeyed_iff :
    s.isKeyed vs e = true ↔ ∃ v ∈ vs, s.primaryKey.encode v = .ok (s.keyCell e) := by
  rw [isKeyed, List.any_eq_true]
  refine exists_congr fun v => and_congr_right fun _ => ?_
  cases s.primaryKey.encode v with
  | error _ => simp
  | ok k => simp [eq_comm]

theorem isKeyed_append : s.isKeyed (vs ++ ws) e = (s.isKeyed vs e || s.isKeyed ws e) :=
  List.any_append

/-- The rows that have one of the keys. -/
def keyed (s : Schema) (vs : List Value) (es : List Entry) : List Entry :=
  es.filter (s.isKeyed vs)

/-- The rows that have none of the keys. -/
def unkeyed (s : Schema) (vs : List Value) (es : List Entry) : List Entry :=
  es.filter fun e => !s.isKeyed vs e

theorem mem_keyed {es : List Entry} : e ∈ s.keyed vs es ↔ e ∈ es ∧ s.isKeyed vs e = true :=
  List.mem_filter

theorem mem_unkeyed {es : List Entry} : e ∈ s.unkeyed vs es ↔ e ∈ es ∧ ¬s.isKeyed vs e = true := by
  rw [unkeyed, List.mem_filter, Bool.not_eq_true', Bool.not_eq_true]

@[simp] theorem keyed_nil (es : List Entry) : s.keyed [] es = [] :=
  List.filter_eq_nil_iff.2 fun _ _ => Bool.false_ne_true

@[simp] theorem unkeyed_nil (es : List Entry) : s.unkeyed [] es = es :=
  List.filter_eq_self.2 fun _ _ => rfl

theorem unkeyed_append {es : List Entry} :
    s.unkeyed ws (s.unkeyed vs es) = s.unkeyed (vs ++ ws) es := by
  simp only [unkeyed, List.filter_filter, isKeyed_append, Bool.not_or, Bool.and_comm]

/-- The rows that have one of the first keys, and then those of the others that have one of the
rest. -/
theorem keyed_append_perm {es : List Entry} :
    (s.keyed vs es ++ s.keyed ws (s.unkeyed vs es)).Perm (s.keyed (vs ++ ws) es) := by
  have hfirst : s.keyed vs es = (s.keyed (vs ++ ws) es).filter (s.isKeyed vs) := by
    unfold keyed
    rw [List.filter_filter]
    refine List.filter_congr fun e _ => ?_
    rw [isKeyed_append]
    cases s.isKeyed vs e <;> simp
  have hrest : s.keyed ws (s.unkeyed vs es) =
      (s.keyed (vs ++ ws) es).filter fun e => !s.isKeyed vs e := by
    unfold keyed unkeyed
    rw [List.filter_filter, List.filter_filter]
    refine List.filter_congr fun e _ => ?_
    rw [isKeyed_append]
    cases s.isKeyed vs e <;> simp
  rw [hfirst, hrest]
  exact List.filter_append_perm _ _

theorem declared_byKeys : ∀ n ∈ (Filter.byKeys s vs).columns, ∃ g, s.requireField n = .ok g := by
  intro n hn
  obtain rfl : n = s.primaryKey.name := by
    cases vs <;> simp [Filter.byKeys, Filter.isIn, Filter.columns, Filter.and, Filter.all,
      Condition.isIn, Condition.allColumns, Condition.columns] at hn
    exact hn
  exact ⟨_, requireField_eq s.getElem?_keyIndex⟩

/-- The rows of some keys are matched by the filter that asks for them, and no others are. -/
theorem Fits.mem_matched_byKeys (h : s.Fits t) (hkind : s.primaryKey.kind ≠ .real)
    (hkeys : ∀ v ∈ vs, ∃ k, s.primaryKey.encode v = .ok k) (q : Params) :
    e ∈ (Filter.byKeys s vs).matched s t q ↔ e ∈ s.keyed vs t.entries := by
  have hfree : Condition.anyFragment (Filter.byKeys s vs).conditions = false := by
    cases vs <;> rfl
  rw [Filter.mem_matched rfl rfl, mem_keyed]
  refine and_congr_right fun he => ?_
  have hverdicts : Condition.verdicts s e (Filter.byKeys s vs).conditions =
      [Condition.verdict s e (Condition.isIn s.primaryKey.name vs)] := by
    cases vs <;> rfl
  rw [Filter.passes_of_free h declared_byKeys hfree q he, hverdicts, Truth.conjunction_singleton,
    Condition.verdict_isIn, Truth.disjunction_eq_true, List.mem_map, isKeyed_iff]
  refine exists_congr fun v => and_congr_right fun hv => ?_
  obtain ⟨k, hk⟩ := hkeys v hv
  rw [h.equals_key_iff hkind he hk, hk]
  exact ⟨fun heq => by rw [heq], fun heq => (Except.ok.inj heq).symm⟩

end Schema

/-! ## Chunks of keys -/

/-- What the removal of some keys has done to a table: the rows of the keys are gone, their keys are
told, and no other table has changed but the staging table. -/
structure Schema.Removes (s : Schema) (stg : StagingTable) (a : Area) (t : Table) (vs : List Value)
    (c c' : Catalog) (d : Deleted) : Prop where
  origin : c'.find s.table.allQuoted = .ok (a, { t with entries := s.unkeyed vs t.entries })
  others : ∀ b n, foldName n ≠ foldName stg.name → b ≠ a ∨ foldName n ≠ foldName s.table.name →
    c'.findIn? b n = c.findIn? b n
  keys : ∃ es : List Entry, es.Perm (s.keyed vs t.entries) ∧ es.mapM s.keyOf = .ok d.keys
  modified : d.modified = (s.keyed vs t.entries).length

namespace Schema.Removes

variable {stg : StagingTable} {c c' c'' : Catalog} {d d' : Deleted}

theorem refl (hfind : c.find s.table.allQuoted = .ok (a, t)) :
    s.Removes stg a t [] c c .none where
  origin := by rwa [unkeyed_nil]
  others _ _ _ _ := rfl
  keys := ⟨[], by simp, rfl⟩
  modified := by simp [Deleted.none]

theorem trans (h : s.Removes stg a t vs c c' d)
    (h' : s.Removes stg a { t with entries := s.unkeyed vs t.entries } ws c' c'' d') :
    s.Removes stg a t (vs ++ ws) c c'' (d.append d') where
  origin := by rw [← unkeyed_append]; exact h'.origin
  others b n hn hother := (h'.others b n hn hother).trans (h.others b n hn hother)
  keys := by
    obtain ⟨es, hes, hkeys⟩ := h.keys
    obtain ⟨es', hes', hkeys'⟩ := h'.keys
    refine ⟨es ++ es', (hes.append hes').trans keyed_append_perm, ?_⟩
    rw [List.mapM_append, hkeys, hkeys']
    rfl
  modified := by
    rw [← keyed_append_perm.length_eq, List.length_append, ← h.modified, ← h'.modified]
    rfl

end Schema.Removes

section Removals

variable {b : SchemaBuilder} {m : MemoryDatabase} {p p' : Pool MemoryDatabase} {stg : StagingTable}
  {name : String} {d : Deleted}

/-- A table of the schema that a removal works on. -/
structure Schema.Removable (s : Schema) (stg : StagingTable) (t : Table) : Prop where
  built : ∃ b : SchemaBuilder, b.build = .ok s
  kind : s.primaryKey.kind ≠ .real
  state : s.TableState t
  nul : '\x00' ∉ stg.name.toList
  apart : foldName s.table.name ≠ foldName stg.name

theorem Schema.Removable.suits (h : s.Removable stg t) (vs : List Value) :
    (Filter.byKeys s vs).Suits s t :=
  ⟨h.built, h.state, Schema.declared_byKeys, Condition.allComplete_of_free _ (by cases vs <;> rfl)⟩

/-- Rows of a table are told by their members. -/
theorem Schema.Fits.eq_of_mem_iff (h : s.Fits t) {es fs : List Entry} (hes : es.Sublist t.entries)
    (hfs : fs.Sublist t.entries) (hmem : ∀ e, e ∈ es ↔ e ∈ fs) : es = fs := by
  have hperm := (List.perm_ext_iff_of_nodup (hes.nodup h.nodup_entries)
    (hfs.nodup h.nodup_entries)).2 hmem
  exact hperm.eq_of_pairwise (fun e f _ _ hlt hgt => absurd hlt (Int64.lt_asymm hgt))
    (h.sorted.sublist hes) (h.sorted.sublist hfs)

/-- One chunk of keys. -/
theorem Schema.Removable.deleteSelected_ok (h : s.Removable stg t)
    (hkeys : ∀ v ∈ vs, ∃ k, s.primaryKey.encode v = .ok k)
    (hfind : m.catalog.find s.table.allQuoted = .ok (a, t)) (hp : p.database = some m)
    (hrun : outcome (Pool.transaction (stg.deleteSelected s
      ((Filter.byKeys s vs).query s (Filter.columnsOf [s.primaryKey.name])
        ((Filter.byKeys s vs).build #[]).1) ((Filter.byKeys s vs).build #[]).2)) p = (.ok d, p')) :
    ∃ m', p'.database = some m' ∧ s.Removes stg a t vs m.catalog m'.catalog d ∧
      s.TableState { t with entries := s.unkeyed vs t.entries } := by
  have hfits := Schema.fits_of_tableState h.state
  obtain ⟨m₁, σ, m', hm, hdelete, hm', hcatalog⟩ := Pool.transaction_ok hrun
  obtain rfl : m = m₁ := Option.some.inj (hp.symm.trans hm)
  obtain ⟨hkeys', hmodified, rest, hsub, hmem, hstate, hrewritten⟩ :=
    StagingTable.deleteSelected_ok (h.suits vs) h.nul (.inl h.apart) hfind hdelete
  have hmember (e : Entry) := hfits.mem_matched_byKeys (e := e) h.kind hkeys #[]
  have hmatched : ((Filter.byKeys s vs).matched s t #[]).Perm (s.keyed vs t.entries) :=
    (List.perm_ext_iff_of_nodup (Filter.nodup_matched hfits _ _)
      (hfits.nodup_entries.filter _)).2 hmember
  obtain rfl : rest = s.unkeyed vs t.entries := by
    refine hfits.eq_of_mem_iff hsub List.filter_sublist fun e => ?_
    rw [hmem, hmember, Schema.mem_keyed, Schema.mem_unkeyed]
    tauto
  refine ⟨m', hm', ⟨?_, ?_, ?_, ?_⟩, hstate⟩
  · rw [hcatalog]
    exact hrewritten.origin
  · intro b n hn hother
    rw [hcatalog]
    exact hrewritten.others b n hn (by rwa [Identifier.name_allQuoted])
  · obtain ⟨es, hes, hd⟩ := hkeys'
    exact ⟨es, hes.perm.trans hmatched, hd⟩
  · rw [hmodified, hmatched.length_eq]

/-- The chunks of a removal, done one after another. -/
theorem removeChunks_ok {chunks : List (List Value)} {done : Deleted} (h : s.Removable stg t)
    (hkeys : ∀ v ∈ chunks.flatten, ∃ k, s.primaryKey.encode v = .ok k)
    (hfind : m.catalog.find s.table.allQuoted = .ok (a, t)) (hp : p.database = some m)
    (hrun : outcome (Pool.removeChunks s stg done chunks) p = (.ok d, p')) :
    ∃ m' part, p'.database = some m' ∧ d = done.append part ∧
      s.Removes stg a t chunks.flatten m.catalog m'.catalog part := by
  induction chunks generalizing p t m done with
  | nil =>
      obtain ⟨hd, rfl⟩ := Prod.mk.inj hrun
      exact ⟨m, .none, hp, by rw [← Except.ok.inj hd]; simp [Deleted.append, Deleted.none],
        Schema.Removes.refl hfind⟩
  | cons vs rest ih =>
      rw [List.flatten_cons, List.forall_mem_append] at hkeys
      rw [Pool.removeChunks] at hrun
      replace hrun := (Filter.outcome_select (h.suits vs) _ _ _).symm.trans hrun
      obtain ⟨part, p₁, hpart, hrun⟩ := Action.outcome_bind_eq_ok_iff.1 hrun
      obtain ⟨m₁, hm₁, hremoves, hstate⟩ := h.deleteSelected_ok hkeys.1 hfind hp hpart
      obtain ⟨m', parts, hm', hd, hremoves'⟩ :=
        ih { h with state := hstate } hkeys.2 hremoves.origin hm₁ hrun
      refine ⟨m', part.append parts, hm', ?_, hremoves.trans hremoves'⟩
      rw [hd]
      simp [Deleted.append, Nat.add_assoc]

theorem keysOf_ok [Entity ε] {items : List ε} {keys : List Value} (h : keysOf s items = .ok keys) :
    keys = items.map fun item => Entity.fieldOrNull item s.primaryKey.name := by
  have hkeys := Except.mapM_eq_ok_iff.1 h
  clear h
  induction hkeys with
  | nil => rfl
  | cons hkey _ ih =>
      rw [List.map_cons, ← ih]
      dsimp only at hkey
      split at hkey
      · simp at hkey
      · rw [← Except.ok.inj hkey]

/-- A removal deletes the rows whose key is that of some item and no others, and tells the key of
each of them once; in however many chunks the keys are, and whether they repeat or have no row. -/
theorem remove_deletes_given_keys [Entity ε] {items : List ε} (hb : b.build = .ok s)
    (hkind : s.primaryKey.kind ≠ .real) (hstate : s.TableState t)
    (hkeys : ∀ item ∈ items, ∃ k,
      s.primaryKey.encode (Entity.fieldOrNull item s.primaryKey.name) = .ok k)
    (hstg : StagingTable.new name = .ok stg) (hname : foldName s.table.name ≠ foldName stg.name)
    (hfind : m.catalog.find s.table.allQuoted = .ok (a, t)) (hp : p.database = some m)
    (h : outcome (Pool.remove s stg items) p = (.ok d, p')) :
    ∃ (m' : MemoryDatabase) (rest gone : List Entry), p'.database = some m' ∧
      m'.catalog.find s.table.allQuoted = .ok (a, { t with entries := rest }) ∧
      rest.Sublist t.entries ∧
      (∀ e, e ∈ rest ↔ e ∈ t.entries ∧ ¬∃ item ∈ items,
        s.primaryKey.encode (Entity.fieldOrNull item s.primaryKey.name) = .ok (s.keyCell e)) ∧
      gone.Nodup ∧
      (∀ e, e ∈ gone ↔ e ∈ t.entries ∧ ∃ item ∈ items,
        s.primaryKey.encode (Entity.fieldOrNull item s.primaryKey.name) = .ok (s.keyCell e)) ∧
      gone.mapM s.keyOf = .ok d.keys ∧ d.modified = gone.length ∧
      ∀ a' n, foldName n ≠ foldName stg.name → a' ≠ a ∨ foldName n ≠ foldName s.table.name →
        m'.catalog.findIn? a' n = m.catalog.findIn? a' n := by
  have hfits := Schema.fits_of_tableState hstate
  obtain ⟨vs, p₁, hof, hrun⟩ := Action.outcome_bind_eq_ok_iff.1 h
  obtain ⟨hvs, rfl⟩ := Prod.mk.inj hof
  obtain rfl := keysOf_ok hvs
  have hflatten := flatten_chunksOf Plan.maxParams (by decide)
    (items.map fun item => Entity.fieldOrNull item s.primaryKey.name)
  obtain ⟨m', part, hm', hd, hremoves⟩ := removeChunks_ok
    ⟨⟨b, hb⟩, hkind, hstate, StagingTable.nul_notMem_of_new hstg, hname⟩
    (by rw [hflatten]; simpa using hkeys) hfind hp hrun
  rw [hflatten] at hremoves
  obtain rfl : d = part := by
    rw [hd]
    simp [Deleted.append, Deleted.none]
  obtain ⟨gone, hgone, hkeys'⟩ := hremoves.keys
  have hkeyed (e : Entry) : s.isKeyed (items.map fun item =>
      Entity.fieldOrNull item s.primaryKey.name) e = true ↔ ∃ item ∈ items,
        s.primaryKey.encode (Entity.fieldOrNull item s.primaryKey.name) = .ok (s.keyCell e) := by
    simp [Schema.isKeyed_iff]
  refine ⟨m', _, gone, hm', hremoves.origin, List.filter_sublist, fun e => ?_,
    hgone.nodup_iff.2 (hfits.nodup_entries.filter _), fun e => ?_, hkeys',
    hremoves.modified.trans hgone.length_eq.symm, hremoves.others⟩
  · rw [Schema.mem_unkeyed, hkeyed]
  · rw [hgone.mem_iff, Schema.mem_keyed, hkeyed]

end Removals

/-! ## A key twice, and one without a row -/

namespace ThreeRows

def doomed : List Record :=
  [.ofList [("id", .integer 3)], .ofList [("id", .integer 9)], .ofList [("id", .integer 3)]]

def doomedKeys : List Value := [.integer 3, .integer 9, .integer 3]

def doomedQuery : Select :=
  (Filter.byKeys schema doomedKeys).query schema (Filter.columnsOf ["id"])
    ((Filter.byKeys schema doomedKeys).build #[]).1

def fillingDoomed : Sql.Statement := .createTemporary (.quoted "stage") (.select doomedQuery)

def doomedContext : Context :=
  (during entries [] 3).context #[.integer 3, .integer 9, .integer 3]

theorem evalSelect_doomed : evalSelect doomedContext doomedQuery =
    .ok ([schema.keyResult], [#[.integer 3]]) := by
  have hsource : evalFrom doomedContext (some (.table schema.table.allQuoted none)) =
      .ok ⟨(table 3 entries).slots "t", (table 3 entries).scan⟩ := by
    with_unfolding_all rfl
  have hresults : (Filter.columnsOf ["id"]).mapM
      (outputs (doomedContext.resolver ((table 3 entries).slots "t"))) =
        .ok [[schema.keyResult]] := by
    with_unfolding_all rfl
  have hcondition : Resolver.resolveCondition
      { doomedContext.resolver ((table 3 entries).slots "t") with
        aliases := aliasesOf (Filter.columnsOf ["id"]) [[schema.keyResult]] }
      ((Filter.byKeys schema doomedKeys).build #[]).1 =
        .ok (.inSet .integer (.slot 1) (.ofList .integer [.integer 3, .integer 9, .integer 3])) := by
    with_unfolding_all rfl
  have hrows : (table 3 entries).scan.filter (Term.inSet .integer (.slot 1)
      (.ofList .integer [.integer 3, .integer 9, .integer 3])).holds =
        [Table.rowOf ⟨3, #[.integer 3, .integer 7]⟩] := by
    have hstored : ∀ row ∈ (table 3 entries).scan,
        Affinity.integer.store ((Term.slot 1).eval row) = (Term.slot 1).eval row := by
      decide
    refine (List.filter_congr fun row hrow => (congrArg Storage.holds
      (CellSet.member_ofList (hstored row hrow)) :
        (Term.inSet .integer (.slot 1) _).holds row = _)).trans ?_
    decide
  have hterms : orderTerms
      { doomedContext.resolver ((table 3 entries).slots "t") with
        aliases := aliasesOf (Filter.columnsOf ["id"]) [[schema.keyResult]] }
      ((Filter.byKeys schema doomedKeys).terms schema) = .ok [] := rfl
  refine (evalSelect_rows hsource hresults hcondition hterms rfl).trans ?_
  rw [hrows]
  with_unfolding_all rfl

theorem runs_createDoomed :
    Session.Runs (staging.create (.select doomedQuery) #[.integer 3, .integer 9, .integer 3])
      (during entries [] 3) 1 (during entries [keys] 3) := by
  have hprepare : prepare doomedContext fillingDoomed = .ok (.create .temp keys) := by
    refine (prepare_createTemporary (by with_unfolding_all rfl) (by with_unfolding_all rfl)
      evalSelect_doomed).trans ?_
    with_unfolding_all rfl
  have hfill : (Database.run fillingDoomed #[.integer 3, .integer 9, .integer 3] :
      Step MemoryDatabase Nat).run (during entries [] 3) = (.ok 3, during entries [keys] 3) :=
    run_eq (by decide) hprepare (by decide) rfl rfl
  exact StagingTable.runs_create run_drop hfill run_countKeys

theorem remove_doomed : ∃ p', outcome (Pool.remove schema staging doomed) pool =
    (.ok ⟨1, [.integer 3]⟩, p') := by
  obtain ⟨q, hrun, -⟩ := Pool.transaction_eq (p := pool) rfl rfl (runs_deleteKeys runs_createDoomed)
    rfl rfl
  have hkeys : keysOf schema doomed = .ok doomedKeys := by with_unfolding_all rfl
  have hchunks : chunksOf Plan.maxParams doomedKeys = [doomedKeys] := by
    rw [chunksOf, if_neg (by decide), List.take_of_length_le (by decide),
      List.drop_of_length_le (by decide), chunksOf, if_pos (.inr rfl)]
  rw [removed_of_keysOf hkeys, hchunks]
  exact ⟨q, Action.outcome_bind_eq_ok_iff.2 ⟨_, pool, rfl,
    Action.outcome_bind_eq_ok_iff.2 ⟨_, q, hrun, rfl⟩⟩⟩

end ThreeRows

open ThreeRows in
/-- The row is deleted once, and the key without a row is passed over. -/
theorem remove_deletes_given_keys_of_three :
    ∃ p' m' rest, ∃ gone : List Entry, outcome (Pool.remove schema staging doomed) pool =
        (.ok ⟨1, [.integer 3]⟩, p') ∧
      p'.database = some m' ∧
      m'.catalog.find schema.table.allQuoted = .ok (.main, table 3 rest) ∧
      (∀ e, e ∈ rest ↔ e ∈ entries ∧ ¬∃ item ∈ doomed,
        schema.primaryKey.encode (Entity.fieldOrNull item "id") = .ok (schema.keyCell e)) ∧
      gone.length = 1 ∧ gone.mapM schema.keyOf = .ok [.integer 3] := by
  obtain ⟨p', hrun⟩ := remove_doomed
  have hkeys : ∀ item ∈ doomed, ∃ k,
      schema.primaryKey.encode (Entity.fieldOrNull item "id") = .ok k := by
    simp only [doomed, List.forall_mem_cons]
    exact ⟨⟨_, rfl⟩, ⟨_, rfl⟩, ⟨_, rfl⟩, by simp⟩
  obtain ⟨m', rest, gone, hm', hfind, -, hrest, -, -, hgone, hcount, -⟩ :=
    remove_deletes_given_keys build_builder (by decide) tableState hkeys new_staging
      (by with_unfolding_all decide) (by with_unfolding_all rfl) rfl hrun
  exact ⟨p', m', rest, gone, hrun, hm', hfind, hrest, hcount.symm, hgone⟩

end StagedStore
