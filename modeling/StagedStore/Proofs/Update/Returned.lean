import StagedStore.Proofs.Entity
import StagedStore.Proofs.Update.Layout

/-!
# What comes back from the staged rows

Incremented values come back under the literal of their key. The literals of keys that are not real
tell the keys apart, so a row reaches the entity of the change set with its key and no other.
-/

namespace StagedStore

section

variable {ε : Type} {s : Schema} {p : Plan} {sets : List (ChangeSet ε)} {row : Row} {i : Nat}
  {c : ChangeSet ε}

/-! ## Rows and the change sets they are for -/

/-- A row carries the key of the change set at a place, which increments a field. -/
structure Row.Routes (s : Schema) (sets : List (ChangeSet ε)) (row : Row) (i : Nat)
    (c : ChangeSet ε) : Prop where
  member : sets[i]? = some c
  increments : c.changes.incremented ≠ []
  key : ∃ k, s.primaryKey.encode c.key = .ok k ∧ row.get? s.primaryKey.name = some k

/-- A field reads a value from its cell in a row. -/
def Row.Reads (s : Schema) (row : Row) (name : String) (v : Value) : Prop :=
  ∃ f w, s.requireField name = .ok f ∧ row.get? name = some w ∧ f.decode w = .ok v

/-- What a row gives back: nothing, or the values of the fields that its change set increments, in
the order of the change set. -/
inductive Row.GivesBack (s : Schema) (sets : List (ChangeSet ε)) (row : Row) :
    Option WriteBack → Prop
  | nothing (h : ∀ i c, ¬ row.Routes s sets i c) : GivesBack s sets row none
  | values {i : Nat} {c : ChangeSet ε} {values : List (String × Value)}
      (h : row.Routes s sets i c)
      (hreads : List.Forall₂ (fun name x => x.1 = name ∧ row.Reads s name x.2)
        c.changes.incremented values) : GivesBack s sets row (some (i, values))

/-- The cell of a field that the row's change set increments is refused by the field. -/
def Row.Undecodable (s : Schema) (sets : List (ChangeSet ε)) (row : Row) (e : Error) : Prop :=
  ∃ i c, row.Routes s sets i c ∧ ∃ name ∈ c.changes.incremented, ∃ f w,
    s.requireField name = .ok f ∧ row.get? name = some w ∧ f.decode w = .error e

/-- The last row that carries a key. -/
def lastOf (s : Schema) (k : Storage) (rows : List Row) : Option Row :=
  rows.reverse.find? fun row => row.get? s.primaryKey.name = some k

theorem lastOf_cons (s : Schema) (k : Storage) (row : Row) (rows : List Row) :
    lastOf s k (row :: rows) =
      (lastOf s k rows).or (if row.get? s.primaryKey.name = some k then some row else none) := by
  rw [lastOf, List.reverse_cons, List.find?_append, lastOf]
  by_cases h : row.get? s.primaryKey.name = some k <;> simp [h]

theorem Row.get_of_get? {name : String} {w : Storage} (h : row.get? name = some w) :
    row.get name = .ok w := by
  rw [get, h]

theorem Row.get?_of_get {name : String} {w : Storage} (h : row.get name = .ok w) :
    row.get? name = some w := by
  unfold get at h
  split at h
  · rename_i hw
    exact hw.trans (congrArg some (Except.ok.inj h))
  · cases h

namespace Plan

/-! ## The places of literals -/

/-- A row that increments a field is kept under its literal, with its place. -/
def keepPlace (m : Std.HashMap String (Nat × List String)) (x : PlanRow × Nat) :
    Std.HashMap String (Nat × List String) :=
  if x.1.incremented.isEmpty then m else m.insert x.1.key.literal (x.2, x.1.incremented)

theorem getElem?_keepPlace (m : Std.HashMap String (Nat × List String)) (x : PlanRow × Nat)
    (literal : String) : (keepPlace m x)[literal]? =
      if x.1.incremented ≠ [] ∧ x.1.key.literal = literal then some (x.2, x.1.incremented)
      else m[literal]? := by
  unfold keepPlace
  by_cases hnil : x.1.incremented = []
  · simp [hnil]
  · have hne : x.1.incremented.isEmpty = false := by simpa using hnil
    by_cases hliteral : x.1.key.literal = literal
    · simp [hne, hnil, hliteral]
    · simp [hne, hliteral, Std.HashMap.getElem?_insert]

/-- What is kept under a literal is the place of a row with that literal. -/
theorem exists_of_returning {literal : String} {fields : List String}
    (h : p.returning[literal]? = some (i, fields)) :
    ∃ r, p.rows[i]? = some r ∧ r.key.literal = literal ∧ r.incremented = fields ∧ fields ≠ [] := by
  have hfold (rows : List (PlanRow × Nat)) (m : Std.HashMap String (Nat × List String))
      (h : (rows.foldl keepPlace m)[literal]? = some (i, fields)) :
      m[literal]? = some (i, fields) ∨ ∃ r, (r, i) ∈ rows ∧ r.key.literal = literal ∧
        r.incremented = fields ∧ fields ≠ [] := by
    induction rows generalizing m with
    | nil => exact .inl h
    | cons x rows ih =>
        rcases ih _ h with hkept | ⟨r, hr, hrest⟩
        · rw [getElem?_keepPlace] at hkept
          split at hkept
          · rename_i hx
            obtain ⟨rfl, rfl⟩ := Prod.mk.inj (Option.some.inj hkept)
            exact .inr ⟨x.1, List.mem_cons_self, hx.2, rfl, hx.1⟩
          · exact .inl hkept
        · exact .inr ⟨r, List.mem_cons_of_mem _ hr, hrest⟩
  rcases hfold p.rows.zipIdx ∅ h with hnone | ⟨r, hr, hrest⟩
  · simp at hnone
  · exact ⟨r, List.mem_zipIdx_iff_getElem?.1 hr, hrest⟩

/-- A row that increments a field is found under its literal, if no other row has the literal. -/
theorem getElem?_returning (hnodup : (p.rows.map fun r => r.key.literal).Nodup) {r : PlanRow}
    (hr : p.rows[i]? = some r) (hne : r.incremented ≠ []) :
    p.returning[r.key.literal]? = some (i, r.incremented) := by
  have hkept (rows : List (PlanRow × Nat)) (m : Std.HashMap String (Nat × List String))
      (hnot : ∀ x ∈ rows, x.1.key.literal ≠ r.key.literal) :
      (rows.foldl keepPlace m)[r.key.literal]? = m[r.key.literal]? := by
    induction rows generalizing m with
    | nil => rfl
    | cons x rows ih =>
        obtain ⟨hx, hnot⟩ := List.forall_mem_cons.1 hnot
        rw [List.foldl_cons, ih _ hnot, getElem?_keepPlace, if_neg fun h => hx h.2]
  have hfold (rows : List (PlanRow × Nat)) (m : Std.HashMap String (Nat × List String))
      (hnodup : (rows.map fun x => x.1.key.literal).Nodup) (hin : (r, i) ∈ rows) :
      (rows.foldl keepPlace m)[r.key.literal]? = some (i, r.incremented) := by
    induction rows generalizing m with
    | nil => cases hin
    | cons x rows ih =>
        rw [List.map_cons, List.nodup_cons] at hnodup
        rw [List.foldl_cons]
        rcases List.mem_cons.1 hin with rfl | hin
        · have hothers : ∀ x ∈ rows, x.1.key.literal ≠ r.key.literal := fun x hx he =>
            hnodup.1 (List.mem_map.2 ⟨x, hx, he⟩)
          rw [hkept rows _ hothers, getElem?_keepPlace, if_pos ⟨hne, rfl⟩]
        · exact ih _ hnodup.2 hin
  refine hfold p.rows.zipIdx ∅ ?_ (List.mem_zipIdx_iff_getElem?.2 hr)
  have hliterals : (p.rows.zipIdx.map fun x => x.1.key.literal) =
      (p.rows.zipIdx.map Prod.fst).map fun r => r.key.literal := by
    rw [List.map_map]
    rfl
  rwa [hliterals, List.zipIdx_map_fst]

/-! ## Decoding -/

/-- A key at two places is one place. -/
theorem Compiled.place_unique (h : p.Compiled s sets) {j : Nat} {d : ChangeSet ε} {k : Storage}
    (hc : sets[i]? = some c) (hd : sets[j]? = some d) (hck : s.primaryKey.encode c.key = .ok k)
    (hdk : s.primaryKey.encode d.key = .ok k) : i = j := by
  have hrow {i : Nat} {c : ChangeSet ε} (hc : sets[i]? = some c)
      (hck : s.primaryKey.encode c.key = .ok k) : (p.rows.map PlanRow.key)[i]? = some k := by
    obtain ⟨r, hr, hof⟩ := h.rows.getElem?_right hc
    rw [List.getElem?_map, hr]
    exact congrArg some (Except.ok.inj (hof.key.symm.trans hck))
  have hi : i < (p.rows.map PlanRow.key).length := (List.getElem?_eq_some_iff.1 (hrow hc hck)).1
  exact (List.getElem?_inj hi h.keys_nodup).1 ((hrow hc hck).trans (hrow hd hdk).symm)

/-- The place that is found under the literal of a row's key is that of its change set. -/
theorem Compiled.routes_iff (h : p.Compiled s sets) (hkind : s.primaryKey.kind ≠ .real)
    {key : Storage} (hkey : row.get? s.primaryKey.name = some key) {fields : List String} :
    p.returning[key.literal]? = some (i, fields) ↔
      ∃ c, row.Routes s sets i c ∧ c.changes.incremented = fields := by
  constructor
  · intro hplace
    obtain ⟨r, hr, hliteral, rfl, hne⟩ := exists_of_returning hplace
    obtain ⟨c, hc, hof⟩ := h.rows.getElem?_left hr
    have hwrites := Schema.store_of_writes hkind (Schema.writes_of_encode hof.key)
    obtain rfl := Storage.eq_of_literal_eq hwrites.2.1 hwrites.1 hliteral.symm
    rw [hof.incremented_eq] at hne ⊢
    exact ⟨c, ⟨hc, hne, _, hof.key, hkey⟩, rfl⟩
  · rintro ⟨c, hroutes, rfl⟩
    obtain ⟨k, hk, hcarries⟩ := hroutes.key
    obtain rfl := Option.some.inj (hkey.symm.trans hcarries)
    obtain ⟨r, hr, hof⟩ := h.rows.getElem?_right hroutes.member
    obtain rfl := Except.ok.inj (hof.key.symm.trans hk)
    have hne := hroutes.increments
    rw [← hof.incremented_eq] at hne ⊢
    exact getElem?_returning h.literals_nodup hr hne

/-- The fields that a change set increments are declared, and a row with the columns of the plan has
their cells. -/
theorem Compiled.reads (h : p.Compiled s sets) (hrow : ∀ n ∈ p.columns, ∃ w, row.get? n = some w)
    (hc : sets[i]? = some c) {name : String} (hname : name ∈ c.changes.incremented) :
    ∃ f w, s.requireField name = .ok f ∧ row.get? name = some w := by
  obtain ⟨r, hr, hof⟩ := h.rows.getElem?_right hc
  obtain ⟨a, ha⟩ := Changes.mem_incremented.1 hname
  have hin : name ∈ r.cells.map Prod.fst := by
    rw [hof.map_fst]
    exact List.mem_map_of_mem ha
  have hfield : name ∈ p.fields := (h.mem_fields name).2 ⟨r, List.mem_of_getElem? hr, hin⟩
  obtain ⟨x, -, -, f, hf, -⟩ := hof.cells.exists_right ha
  obtain ⟨w, hw⟩ := hrow name (List.mem_cons_of_mem _ hfield)
  exact ⟨f, w, hf, hw⟩

theorem decodeRow_eq_ok (h : p.Compiled s sets) (hkind : s.primaryKey.kind ≠ .real)
    {back : Option WriteBack} (hback : decodeRow s p.returning row = .ok back) :
    row.GivesBack s sets back := by
  obtain ⟨key, hkey, hback⟩ := Except.bind_eq_ok_iff.1 hback
  have hkey := Row.get?_of_get hkey
  split at hback
  · rename_i hplace
    obtain rfl := Except.ok.inj hback
    refine .nothing fun i c hroutes => ?_
    rw [(h.routes_iff hkind hkey).2 ⟨c, hroutes, rfl⟩] at hplace
    cases hplace
  · rename_i i fields hplace
    obtain ⟨c, hroutes, rfl⟩ := (h.routes_iff hkind hkey).1 hplace
    obtain ⟨values, hvalues, hback⟩ := Except.bind_eq_ok_iff.1 hback
    obtain rfl := Except.ok.inj hback
    refine .values hroutes ((Except.mapM_eq_ok_iff.1 hvalues).imp fun name x hx => ?_)
    obtain ⟨f, hf, hx⟩ := Except.bind_eq_ok_iff.1 hx
    obtain ⟨w, hw, hx⟩ := Except.bind_eq_ok_iff.1 hx
    obtain ⟨v, hv, hx⟩ := Except.bind_eq_ok_iff.1 hx
    obtain rfl := Except.ok.inj hx
    exact ⟨rfl, f, w, hf, Row.get?_of_get hw, hv⟩

theorem decodeRow_eq_error (h : p.Compiled s sets) (hkind : s.primaryKey.kind ≠ .real)
    (hrow : ∀ n ∈ p.columns, ∃ w, row.get? n = some w) {e : Error}
    (herror : decodeRow s p.returning row = .error e) : row.Undecodable s sets e := by
  obtain ⟨key, hkey⟩ := hrow s.primaryKey.name (by rw [columns, h.key]; exact List.mem_cons_self)
  unfold decodeRow at herror
  rw [Row.get_of_get? hkey, Except.ok_bind] at herror
  split at herror
  · cases herror
  · rename_i i fields hplace
    obtain ⟨c, hroutes, rfl⟩ := (h.routes_iff hkind hkey).1 hplace
    have hvalues : (c.changes.incremented.mapM fun name => do
        let f ← s.requireField name
        return (name, ← f.decode (← row.get name))) = .error e := by
      cases hvalues : (c.changes.incremented.mapM fun name => do
          let f ← s.requireField name
          return (name, ← f.decode (← row.get name)) : Except Error (List (String × Value))) with
      | error e' =>
          rw [hvalues] at herror
          exact congrArg _ (Except.error.inj herror)
      | ok values =>
          rw [hvalues] at herror
          cases herror
    obtain ⟨name, hname, hvalue⟩ := Except.mapM_eq_error hvalues
    obtain ⟨f, w, hf, hw⟩ := h.reads hrow hroutes.member hname
    rw [hf, Except.ok_bind, Row.get_of_get? hw, Except.ok_bind] at hvalue
    refine ⟨i, c, hroutes, name, hname, f, w, hf, hw, ?_⟩
    cases hdecode : f.decode w with
    | error e' =>
        rw [hdecode] at hvalue
        exact congrArg _ (Except.error.inj hvalue)
    | ok v =>
        rw [hdecode] at hvalue
        cases hvalue

theorem decodeReturning_eq_ok (h : p.Compiled s sets) (hkind : s.primaryKey.kind ≠ .real)
    {rows : List Row} {backs : List WriteBack} (hbacks : p.decodeReturning s rows = .ok backs) :
    ∃ told, List.Forall₂ (fun row => row.GivesBack s sets) rows told ∧
      backs = told.filterMap id := by
  obtain ⟨told, htold, hbacks⟩ := Except.bind_eq_ok_iff.1 hbacks
  refine ⟨told, ?_, (Except.ok.inj hbacks).symm⟩
  exact (Except.mapM_eq_ok_iff.1 htold).imp fun row back hback => decodeRow_eq_ok h hkind hback

theorem decodeReturning_eq_error (h : p.Compiled s sets) (hkind : s.primaryKey.kind ≠ .real)
    {rows : List Row} (hrows : ∀ row ∈ rows, ∀ n ∈ p.columns, ∃ w, row.get? n = some w) {e : Error}
    (herror : p.decodeReturning s rows = .error e) :
    ∃ row ∈ rows, row.Undecodable s sets e := by
  have hmap : rows.mapM (decodeRow s p.returning) = .error e := by
    unfold decodeReturning at herror
    cases hmap : rows.mapM (decodeRow s p.returning) with
    | error e' =>
        rw [hmap] at herror
        exact congrArg _ (Except.error.inj herror)
    | ok told =>
        rw [hmap] at herror
        cases herror
  obtain ⟨row, hrow, hone⟩ := Except.mapM_eq_error hmap
  exact ⟨row, hrow, decodeRow_eq_error h hkind (hrows row hrow) hone⟩

/-- A row that gives something back has no increment that is refused. -/
theorem Compiled.not_undecodable (h : p.Compiled s sets) {back : Option WriteBack}
    (hback : row.GivesBack s sets back) (e : Error) : ¬ row.Undecodable s sets e := by
  rintro ⟨i, c, hroutes, name, hname, f, w, hf, hw, herror⟩
  cases hback with
  | nothing hnone => exact hnone i c hroutes
  | @values j d values hroutes' hreads =>
      obtain ⟨k, hk, hkey⟩ := hroutes.key
      obtain ⟨k', hk', hkey'⟩ := hroutes'.key
      obtain rfl := Option.some.inj (hkey.symm.trans hkey')
      obtain rfl := h.place_unique hroutes.member hroutes'.member hk hk'
      obtain rfl := Option.some.inj (hroutes.member.symm.trans hroutes'.member)
      obtain ⟨x, -, -, f', w', hf', hw', hdecode⟩ := hreads.exists_right hname
      obtain rfl := Except.ok.inj (hf.symm.trans hf')
      obtain rfl := Option.some.inj (hw.symm.trans hw')
      rw [herror] at hdecode
      cases hdecode

/-! ## Values for one entity -/

/-- The values that rows give back to one entity, one after the other. -/
structure LastValues (s : Schema) (c : ChangeSet ε) (last : Option Row)
    (values : List (String × Value)) : Prop where
  nothing : c.changes.incremented = [] ∨ last = none → values = []
  others : ∀ name ∉ c.changes.incremented, values.reverse.lookup name = none
  incremented : ∀ row, last = some row → ∀ name ∈ c.changes.incremented,
    ∃ v, row.Reads s name v ∧ values.reverse.lookup name = some v

/-- The values of a row, in front of those that later rows give back. -/
theorem LastValues.cons {last : Option Row} {before values : List (String × Value)}
    (h : LastValues s c last values) (hne : c.changes.incremented ≠ [])
    (hreads : List.Forall₂ (fun name x => x.1 = name ∧ row.Reads s name x.2)
      c.changes.incremented before) :
    LastValues s c (last.or (some row)) (before ++ values) where
  nothing hnone := by
    rcases hnone with hnone | hnone
    · exact absurd hnone hne
    · cases last <;> cases hnone
  others name hname := by
    rw [List.reverse_append, List.lookup_append, h.others name hname, Option.none_or,
      List.lookup_eq_none_iff]
    intro x hx
    obtain ⟨n, hn, rfl, -⟩ := hreads.exists_left (List.mem_reverse.1 hx)
    exact bne_iff_ne.2 fun he => hname (he ▸ hn)
  incremented row' hrow' name hname := by
    rw [List.reverse_append, List.lookup_append]
    cases hlast : last with
    | some row₁ =>
        rw [hlast] at hrow'
        obtain ⟨v, hv, hlookup⟩ := h.incremented row' (hlast.trans hrow') name hname
        exact ⟨v, hv, by rw [hlookup]; rfl⟩
    | none =>
        rw [hlast] at hrow'
        obtain rfl := Option.some.inj hrow'
        rw [h.nothing (.inr hlast)]
        cases hlookup : before.reverse.lookup name with
        | none =>
            obtain ⟨x, hx, rfl, -⟩ := hreads.exists_right hname
            have hno := List.lookup_eq_none_iff.1 hlookup x (List.mem_reverse.2 hx)
            simp at hno
        | some v =>
            obtain ⟨front, back, hsplit, -⟩ := List.lookup_eq_some_iff.1 hlookup
            have hin : (name, v) ∈ before := List.mem_reverse.1 (hsplit ▸ by simp)
            obtain ⟨n, -, rfl, hv⟩ := hreads.exists_left hin
            exact ⟨v, hv, rfl⟩

/-- The values for the entity at a place are those of the rows with its key. -/
theorem Compiled.lastValues (h : p.Compiled s sets) {k : Storage} (hc : sets[i]? = some c)
    (hk : s.primaryKey.encode c.key = .ok k) {rows : List Row} {told : List (Option WriteBack)}
    (htold : List.Forall₂ (fun row => row.GivesBack s sets) rows told) :
    LastValues s c (lastOf s k rows) (valuesAt i (told.filterMap id)) := by
  induction htold with
  | nil => exact ⟨fun _ => rfl, fun _ _ => rfl, nofun⟩
  | @cons row back rows told hback _ ih =>
      rw [lastOf_cons]
      -- A row without the key leaves everything as it is, as does a set without an increment.
      have hskip (hno : row.get? s.primaryKey.name = some k → c.changes.incremented = []) :
          LastValues s c ((lastOf s k rows).or
            (if row.get? s.primaryKey.name = some k then some row else none))
            (valuesAt i (told.filterMap id)) := by
        by_cases hkey : row.get? s.primaryKey.name = some k
        · have hnil := hno hkey
          have hvalues := ih.nothing (.inl hnil)
          exact ⟨fun _ => hvalues, ih.others, fun _ _ name hname => by simp [hnil] at hname⟩
        · rwa [if_neg hkey, Option.or_none]
      cases hback with
      | nothing hnone =>
          refine hskip fun hkey => ?_
          by_contra hne
          exact hnone i c ⟨hc, hne, k, hk, hkey⟩
      | @values j d values hroutes hreads =>
          obtain ⟨l, hl, hkey⟩ := hroutes.key
          rw [List.filterMap_cons_some (show id (some (j, values)) = some (j, values) from rfl)]
          by_cases hj : j = i
          · subst hj
            obtain rfl := Option.some.inj (hroutes.member.symm.trans hc)
            obtain rfl := Except.ok.inj (hl.symm.trans hk)
            rw [if_pos hkey, valuesAt_cons_self]
            exact ih.cons hroutes.increments hreads
          · rw [valuesAt_cons_of_ne hj]
            refine hskip fun hkey' => ?_
            obtain rfl := Option.some.inj (hkey.symm.trans hkey')
            exact absurd (h.place_unique hroutes.member hc hl hk) hj

end Plan

/-! ## Entities after the rows were written back -/

/-- An entity of a batch after rows were written back: the fields that its change set increments
have the values of the last row with its key, and nothing else has changed. -/
structure WrittenBack [Entity ε] (s : Schema) (rows : List Row) (c : ChangeSet ε) (item : ε) :
    Prop where
  kept : ∀ k, s.primaryKey.encode c.key = .ok k →
    c.changes.incremented = [] ∨ lastOf s k rows = none → item = c.item
  others : ∀ name ∉ c.changes.incremented, Entity.field? item name = Entity.field? c.item name
  incremented : ∀ k row, s.primaryKey.encode c.key = .ok k → lastOf s k rows = some row →
    ∀ name ∈ c.changes.incremented, ∃ v, row.Reads s name v ∧ Entity.field? item name = some v

theorem Plan.Compiled.writtenBack [Entity ε] (h : p.Compiled s sets) {P : ε → Prop}
    (hopen : Entity.Open P) (hc : sets[i]? = some c) (hitem : P c.item) {rows : List Row}
    {told : List (Option WriteBack)}
    (htold : List.Forall₂ (fun row => row.GivesBack s sets) rows told) {item : ε}
    (hassign : assignFields c.item (valuesAt i (told.filterMap id)) = (item, .ok ())) :
    WrittenBack s rows c item := by
  obtain ⟨item', hassign', -, hfields⟩ :=
    hopen.assignFields hitem (valuesAt i (told.filterMap id))
  obtain rfl : item = item' := (Prod.mk.inj (hassign.symm.trans hassign')).1
  obtain ⟨r, -, hof⟩ := h.rows.getElem?_right hc
  have hvalues {k : Storage} (hk : s.primaryKey.encode c.key = .ok k) :=
    h.lastValues hc hk htold
  refine ⟨fun k hk hnone => ?_, fun name hname => ?_, fun k row hk hlast name hname => ?_⟩
  · rw [(hvalues hk).nothing hnone] at hassign
    exact (Prod.mk.inj hassign).1.symm
  · rw [hfields, (hvalues hof.key).others name hname, Option.none_or]
  · obtain ⟨v, hv, hlookup⟩ := (hvalues hk).incremented row hlast name hname
    exact ⟨v, hv, by rw [hfields, hlookup]; rfl⟩

theorem Plan.Compiled.writtenBacks [Entity ε] (h : p.Compiled s sets) {P : ε → Prop}
    (hopen : Entity.Open P) (hitems : ∀ c ∈ sets, P c.item) {rows : List Row}
    {told : List (Option WriteBack)}
    (htold : List.Forall₂ (fun row => row.GivesBack s sets) rows told) :
    ∃ items : List ε, assignWriteBacks (sets.map ChangeSet.item).toArray (told.filterMap id) =
        (items.toArray, .ok ()) ∧
      List.Forall₂ (WrittenBack s rows) sets items := by
  have hall : ∀ item ∈ sets.map ChangeSet.item, P item := by
    simpa using hitems
  obtain ⟨items, hassign, hlength, hfields⟩ := hopen.assignWriteBacks (told.filterMap id) hall
  refine ⟨items, hassign, List.forall₂_iff_get.2 ⟨by rw [hlength, List.length_map], ?_⟩⟩
  intro i hi hi'
  have hc : sets[i]? = some sets[i] := List.getElem?_eq_getElem hi
  obtain ⟨item, hitem, hone⟩ := hfields i sets[i].item (by rw [List.getElem?_map, hc]; rfl)
  obtain rfl := Option.some.inj ((List.getElem?_eq_getElem hi').symm.trans hitem)
  exact h.writtenBack hopen hc (hitems _ (List.getElem_mem hi)) htold hone

/-- Write-backs reach the entities of the rows' keys, and no others. Decoding fails only over an
increment of such a row. -/
theorem Plan.write_back_reaches_keys [Entity ε] (hkind : s.primaryKey.kind ≠ .real)
    (hcompile : compile s sets = .ok p) {rows : List Row}
    (hrows : ∀ row ∈ rows, ∀ n ∈ p.columns, ∃ w, row.get? n = some w) :
    ((∃ e, p.decodeReturning s rows = .error e) ↔
      ∃ row ∈ rows, ∃ e, row.Undecodable s sets e) ∧
    (∀ e, p.decodeReturning s rows = .error e → ∃ row ∈ rows, row.Undecodable s sets e) ∧
    ∀ backs, p.decodeReturning s rows = .ok backs →
      (∃ told, List.Forall₂ (fun row => row.GivesBack s sets) rows told ∧
        backs = told.filterMap id) ∧
      ∀ P : ε → Prop, Entity.Open P → (∀ c ∈ sets, P c.item) →
        ∃ items : List ε,
          assignWriteBacks (sets.map ChangeSet.item).toArray backs = (items.toArray, .ok ()) ∧
          List.Forall₂ (WrittenBack s rows) sets items := by
  have h := compiled_of_compile hcompile
  refine ⟨⟨?_, ?_⟩, fun e => decodeReturning_eq_error h hkind hrows, fun backs hbacks => ?_⟩
  · rintro ⟨e, herror⟩
    obtain ⟨row, hrow, hundecodable⟩ := decodeReturning_eq_error h hkind hrows herror
    exact ⟨row, hrow, e, hundecodable⟩
  · rintro ⟨row, hrow, e, hundecodable⟩
    cases hbacks : p.decodeReturning s rows with
    | error e' => exact ⟨e', rfl⟩
    | ok backs =>
        obtain ⟨told, htold, -⟩ := decodeReturning_eq_ok h hkind hbacks
        obtain ⟨back, -, hback⟩ := htold.exists_right hrow
        exact absurd hundecodable (h.not_undecodable hback e)
  · obtain ⟨told, htold, rfl⟩ := decodeReturning_eq_ok h hkind hbacks
    exact ⟨⟨told, htold, rfl⟩, fun P hopen hitems => h.writtenBacks hopen hitems htold⟩

end

namespace Padded

def sets : List (ChangeSet Record) := [set first, set second]

/-- The columns in any order, keys twice, and a key of no change set. -/
def rows : List Row :=
  [⟨["y", "id", "x"], [.null, .integer 2, .integer 4]⟩,
    ⟨["id", "x", "y"], [.integer 1, .integer 7, .null]⟩,
    ⟨["id", "y", "x"], [.integer 9, .null, .text "no number"]⟩,
    ⟨["id", "y", "x"], [.integer 2, .null, .integer 5]⟩]

theorem exists_plan : ∃ p, Plan.compile schema sets = .ok p ∧ p.columns = ["id", "y", "x"] := by
  have hbatch : List.Forall₂ (Called.Builds schema) [first, second] sets :=
    (Except.mapM_eq_ok_iff.1 build_two).imp fun x c h => Called.builds_of_build h
  have hmade : ∀ c ∈ sets, c.Checked schema ∧ ∃ k, schema.primaryKey.encode c.key = .ok k := by
    intro c hc
    obtain ⟨x, -, hx⟩ := hbatch.exists_left hc
    exact ⟨hx.checked, hx.key ▸ hx.encodes⟩
  obtain ⟨p, hp⟩ := Plan.exists_compile (by decide) hmade fun ⟨k, hk⟩ => not_keyTwice k hk
  refine ⟨p, hp, ?_⟩
  rw [((Plan.compiled_of_compile hp).laysOut hbatch).columns]
  decide

theorem not_undecodable : ¬ ∃ row ∈ rows, ∃ e, row.Undecodable schema sets e := by
  rintro ⟨row, hrow, e, i, c, hroutes, name, hname, f, w, hf, hw, herror⟩
  have hc := List.mem_of_getElem? hroutes.member
  have hfirst : c = set first := by
    rcases List.mem_pair.1 hc with rfl | rfl
    · rfl
    · exact absurd rfl hroutes.increments
  subst hfirst
  obtain ⟨k, hk, hkey⟩ := hroutes.key
  obtain rfl : Storage.integer 2 = k := Except.ok.inj hk
  obtain rfl : name = "x" := List.mem_singleton.1 hname
  obtain rfl : (⟨"x", .integer, true⟩ : Field) = f := Except.ok.inj hf
  rw [rows, List.mem_cons, List.mem_cons, List.mem_cons, List.mem_singleton] at hrow
  rcases hrow with rfl | rfl | rfl | rfl
  · obtain rfl : Storage.integer 4 = w := Option.some.inj hw
    cases herror
  · cases hkey
  · cases hkey
  · obtain rfl : Storage.integer 5 = w := Option.some.inj hw
    cases herror

theorem rows_carry : ∀ row ∈ rows, ∀ n ∈ ["id", "y", "x"], ∃ w, row.get? n = some w := by
  simp only [rows, List.forall_mem_cons, List.not_mem_nil, false_implies, implies_true, and_true]
  exact ⟨⟨⟨_, rfl⟩, ⟨_, rfl⟩, ⟨_, rfl⟩⟩, ⟨⟨_, rfl⟩, ⟨_, rfl⟩, ⟨_, rfl⟩⟩,
    ⟨⟨_, rfl⟩, ⟨_, rfl⟩, ⟨_, rfl⟩⟩, ⟨_, rfl⟩, ⟨_, rfl⟩, ⟨_, rfl⟩⟩

end Padded

open Padded in
/-- The entity whose key comes twice has the value of its last row, and the entity without an
increment is as it was, although its row was read as well. -/
theorem Plan.write_back_reaches_keys_of_four :
    ∃ p backs item, compile schema Padded.sets = .ok p ∧
      p.decodeReturning schema Padded.rows = .ok backs ∧
      assignWriteBacks #[first.item, second.item] backs = (#[item, second.item], .ok ()) ∧
      Entity.field? item "x" = some (.integer 5) ∧ Entity.field? item "y" = none := by
  obtain ⟨p, hp, hcolumns⟩ := exists_plan
  have hkind : schema.primaryKey.kind ≠ .real := by decide
  obtain ⟨hiff, -, hok⟩ := write_back_reaches_keys hkind hp (hcolumns ▸ rows_carry)
  cases hbacks : p.decodeReturning schema Padded.rows with
  | error e => exact absurd (hiff.1 ⟨e, hbacks⟩) not_undecodable
  | ok backs =>
      obtain ⟨-, hassign⟩ := hok backs hbacks
      obtain ⟨items, hitems, hwritten⟩ := hassign _ Record.isOpen (by decide)
      cases hwritten with
      | @cons _ item _ _ hfirst hrest =>
      cases hrest with
      | @cons _ item' _ _ hsecond hrest =>
      cases hrest
      obtain rfl : item' = second.item := hsecond.kept (.integer 1) rfl (.inl rfl)
      obtain ⟨v, ⟨f, w, hf, hw, hv⟩, hx⟩ := hfirst.incremented (.integer 2) _ rfl rfl "x"
        (by decide)
      obtain rfl := Except.ok.inj hf
      obtain rfl := Option.some.inj hw
      obtain rfl := Except.ok.inj hv
      exact ⟨p, backs, item, hp, hbacks, hitems, hx, hfirst.others "y" (by decide)⟩

end StagedStore
