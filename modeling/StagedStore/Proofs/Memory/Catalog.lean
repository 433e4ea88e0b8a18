import StagedStore.Memory.Table
import StagedStore.Staging

/-!
# Catalogs

What looking a table up finds after tables were added, replaced and dropped.  Tables of other names
are not concerned.
-/

namespace StagedStore

theorem Identifier.name_allQuoted (i : Identifier) : i.allQuoted.name = i.name := by
  unfold name allQuoted
  rw [List.getLast_map]
  rfl

/-- Whether an identifier asks for a main table. -/
def Identifier.isMain (i : Identifier) : Bool :=
  match i.parts with
  | [q, _] => foldName q.name = "main"
  | _ => false

theorem Identifier.isMain_allQuoted (i : Identifier) : i.allQuoted.isMain = i.isMain := by
  obtain ⟨parts, hne⟩ := i
  match parts, hne with
  | [_], _ => rfl
  | [_, _], _ => rfl
  | _ :: _ :: _ :: _, _ => rfl

/-- An identifier that never means the temporary table of a name. -/
def Identifier.Clear (i : Identifier) (n : String) : Prop :=
  foldName i.name ≠ foldName n ∨ i.isMain = true

instance (i : Identifier) (n : String) : Decidable (i.Clear n) := by
  unfold Identifier.Clear
  infer_instance

theorem Identifier.clear_allQuoted {i : Identifier} {n : String} :
    i.allQuoted.Clear n ↔ i.Clear n := by
  unfold Clear
  rw [name_allQuoted, isMain_allQuoted]

namespace Memory.Catalog

variable {c c' : Catalog} {a b : Area} {t u : Table} {n m : String} {i : Identifier}

theorem area_modifyArea {f : List Table → List Table} :
    (c.modifyArea a f).area b = if b = a then f (c.area b) else c.area b := by
  cases a <;> cases b <;> rfl

theorem name_of_findIn? (h : c.findIn? a n = some t) : foldName t.name = foldName n := by
  simpa using List.find?_some h

theorem drop_congr (h : foldName n = foldName m) : c.drop a n = c.drop a m := by
  unfold drop
  rw [h]

/-- Without a table of the name there is nothing to drop. -/
theorem drop_of_findIn?_none (h : c.findIn? .temp n = none) : c.drop .temp n = c := by
  have hkept : c.temp.filter (fun t => foldName t.name ≠ foldName n) = c.temp := by
    refine List.filter_eq_self.2 fun t ht => ?_
    simpa using List.find?_eq_none.1 h t ht
  change (⟨c.main, c.temp.filter fun t => foldName t.name ≠ foldName n⟩ : Catalog) = c
  rw [hkept]

theorem findIn?_drop_ne (h : foldName m ≠ foldName n) :
    (c.drop a n).findIn? b m = c.findIn? b m := by
  unfold findIn? drop
  rw [area_modifyArea]
  split
  · rw [List.find?_filter]
    congr 1
    funext t
    by_cases ht : foldName t.name = foldName m
    · simp [ht, h]
    · simp [ht]
  · rfl

theorem findIn?_drop_self (h : foldName m = foldName n) : (c.drop a n).findIn? a m = none := by
  unfold findIn? drop
  rw [area_modifyArea, if_pos rfl, List.find?_filter, List.find?_eq_none]
  intro t _
  simp only [ne_eq, decide_not, h]
  simp

theorem findIn?_add_ne (h : foldName t.name ≠ foldName m) :
    (c.add a t).findIn? b m = c.findIn? b m := by
  unfold findIn? add
  rw [area_modifyArea]
  split
  · rw [List.find?_append]
    simp [h]
  · rfl

theorem findIn?_add_self (h : foldName t.name = foldName m) (hm : c.findIn? a m = none) :
    (c.add a t).findIn? a m = some t := by
  unfold findIn? at hm
  unfold findIn? add
  rw [area_modifyArea, if_pos rfl, List.find?_append, hm]
  simp [h]

theorem findIn?_replace_ne (h : foldName t.name ≠ foldName m) :
    (c.replace a t).findIn? b m = c.findIn? b m := by
  unfold findIn? replace
  rw [area_modifyArea]
  split
  · induction c.area b with
    | nil => rfl
    | cons u us ih =>
        simp only [List.map_cons, List.find?_cons]
        by_cases hu : foldName u.name = foldName t.name
        · simp [hu, h, ih]
        · simp only [hu, if_false, ih]
  · rfl

theorem findIn?_replace_other (h : b ≠ a) : (c.replace a t).findIn? b m = c.findIn? b m := by
  unfold findIn? replace
  rw [area_modifyArea, if_neg h]

theorem findIn?_replace_self (h : foldName t.name = foldName m) (hm : c.findIn? a m = some u) :
    (c.replace a t).findIn? a m = some t := by
  unfold findIn? at hm
  unfold findIn? replace
  rw [area_modifyArea, if_pos rfl]
  generalize c.area a = us at hm ⊢
  induction us with
  | nil => simp at hm
  | cons v vs ih =>
      simp only [List.map_cons, List.find?_cons]
      by_cases hv : foldName v.name = foldName m
      · simp [hv, h]
      · rw [List.find?_cons, decide_eq_false hv] at hm
        rw [h] at ih ⊢
        rw [if_neg hv, decide_eq_false hv]
        exact ih hm

/-- Looking an identifier up only depends on the tables of its name. -/
theorem find?_congr (h : ∀ a, c'.findIn? a i.name = c.findIn? a i.name) :
    c'.find? i = c.find? i := by
  obtain ⟨parts, hne⟩ := i
  unfold find?
  match parts, hne with
  | [p], _ =>
      have hp : ∀ a, c'.findIn? a p.name = c.findIn? a p.name := h
      dsimp only
      rw [hp .temp, hp .main]
  | [q, p], _ =>
      have hp : (fun a => c'.findIn? a p.name) = fun a => c.findIn? a p.name := funext h
      dsimp only
      exact congrArg (fun f => areaOf? q.name >>= fun a => f a >>= fun t => some (a, t)) hp
  | _ :: _ :: _ :: _, _ => rfl

theorem find_congr (h : ∀ a, c'.findIn? a i.name = c.findIn? a i.name) : c'.find i = c.find i := by
  unfold find
  rw [find?_congr h]

theorem find_eq_ok_iff : c.find i = .ok (a, t) ↔ c.find? i = some (a, t) := by
  unfold find
  split <;> simp_all

theorem findIn?_of_find (h : c.find i = .ok (a, t)) : c.findIn? a i.name = some t := by
  rw [find_eq_ok_iff] at h
  obtain ⟨parts, hne⟩ := i
  unfold find? at h
  match parts, hne with
  | [p], _ =>
      change c.findIn? a p.name = some t
      simp only at h
      split at h
      · rename_i u hu
        obtain ⟨rfl, rfl⟩ := Prod.mk.inj (Option.some.inj h)
        exact hu
      · obtain ⟨u, hu, he⟩ := Option.map_eq_some_iff.1 h
        obtain ⟨rfl, rfl⟩ := Prod.mk.inj he
        exact hu
  | [q, p], _ =>
      change c.findIn? a p.name = some t
      simp only [Option.bind_eq_bind, Option.bind_eq_some_iff, Option.pure_def, Option.some.injEq,
        Prod.mk.injEq] at h
      obtain ⟨b, -, u, hu, rfl, rfl⟩ := h
      exact hu
  | _ :: _ :: _ :: _, _ => simp at h

theorem name_of_find (h : c.find i = .ok (a, t)) : foldName t.name = foldName i.name :=
  name_of_findIn? (findIn?_of_find h)

theorem name_of_find_allQuoted (h : c.find i.allQuoted = .ok (a, t)) :
    foldName t.name = foldName i.name := by
  rw [name_of_find h, Identifier.name_allQuoted]

/-- A table that is replaced is found in its new state. -/
theorem find_replace (h : c.find i = .ok (a, t)) (hn : foldName u.name = foldName t.name) :
    (c.replace a u).find i = .ok (a, u) := by
  have hin := findIn?_of_find h
  have hname := name_of_find h
  have hself : (c.replace a u).findIn? a i.name = some u :=
    findIn?_replace_self (hn.trans hname) hin
  rw [find_eq_ok_iff] at h ⊢
  obtain ⟨parts, hne⟩ := i
  unfold find? at h ⊢
  match parts, hne with
  | [p], _ =>
      have hself : (c.replace a u).findIn? a p.name = some u := hself
      simp only at h ⊢
      cases a with
      | temp => rw [hself]
      | main =>
          rw [findIn?_replace_other (by simp)]
          split at h
          · simp at h
          · rename_i hnone
            rw [hself]
            simp
  | [q, p], _ =>
      have hself : (c.replace a u).findIn? a p.name = some u := hself
      simp only [Option.bind_eq_bind, Option.bind_eq_some_iff, Option.pure_def, Option.some.injEq,
        Prod.mk.injEq] at h ⊢
      obtain ⟨b, hb, v, -, rfl, rfl⟩ := h
      exact ⟨b, hb, u, hself, rfl, rfl⟩
  | _ :: _ :: _ :: _, _ => simp at h

/-! ## Beside a temporary table -/

theorem areaOf?_main {q : String} (h : foldName q = "main") : areaOf? q = some .main := by
  unfold areaOf?
  rw [if_pos h]

theorem find?_main (hi : i.isMain = true) :
    c.find? i = (c.findIn? .main i.name).map (Area.main, ·) := by
  obtain ⟨parts, hne⟩ := i
  match parts, hne with
  | [q, p], _ =>
      have hq : foldName q.name = "main" := of_decide_eq_true hi
      unfold find?
      dsimp only
      rw [areaOf?_main hq]
      change (c.findIn? .main p.name >>= fun t => some (Area.main, t)) =
        (c.findIn? .main p.name).map _
      cases c.findIn? .main p.name <;> rfl

/-- One catalog is the other, but for the temporary table of a name. -/
def Beside (n : String) (c c' : Catalog) : Prop :=
  ∀ a m, a = .main ∨ foldName m ≠ foldName n → c'.findIn? a m = c.findIn? a m

theorem Beside.trans {c₀ : Catalog} (h : c₀.Beside n c) (h' : c.Beside n c') : c₀.Beside n c' :=
  fun a m hm => (h' a m hm).trans (h a m hm)

theorem beside_add (ht : foldName t.name = foldName n) : c.Beside n (c.add .temp t) := by
  rintro a m (rfl | hm)
  · unfold findIn? add
    rw [area_modifyArea, if_neg (by decide)]
  · exact findIn?_add_ne (ht ▸ hm.symm)

theorem beside_replace (ht : foldName t.name = foldName n) : c.Beside n (c.replace .temp t) := by
  rintro a m (rfl | hm)
  · exact findIn?_replace_other (by decide)
  · exact findIn?_replace_ne (ht ▸ hm.symm)

/-- What never means the temporary table of a name means the same with it and without it. -/
theorem Beside.find (h : c.Beside n c') (hi : i.Clear n) : c'.find i = c.find i := by
  rcases hi with hi | hi
  · exact find_congr fun a => h a i.name (.inr hi)
  · unfold Catalog.find
    rw [find?_main hi, find?_main hi, h .main i.name (.inl rfl)]

/-- The table that it means is another one. -/
theorem other_of_clear (hi : i.Clear n) (h : c.find i = .ok (a, t)) :
    a = .main ∨ foldName t.name ≠ foldName n := by
  rcases hi with hi | hi
  · exact .inr (name_of_find h ▸ hi)
  · rw [find_eq_ok_iff, find?_main hi] at h
    obtain ⟨u, -, he⟩ := Option.map_eq_some_iff.1 h
    exact .inl (Prod.mk.inj he).1.symm

/-- A temporary table stays as another table is replaced. -/
theorem findIn?_temp_replace (h : a = .main ∨ foldName t.name ≠ foldName n) :
    (c.replace a t).findIn? .temp n = c.findIn? .temp n := by
  rcases h with rfl | h
  · exact findIn?_replace_other (by decide)
  · exact findIn?_replace_ne h

/-! ## The staging table -/

theorem find?_staging (s : StagingTable) :
    c.find? s.table = (c.findIn? .temp s.name).map (Area.temp, ·) := by
  have harea : areaOf? "temp" = some .temp := by decide +kernel
  unfold find?
  change (do
    let a ← areaOf? "temp"
    let t ← c.findIn? a s.name
    return (a, t)) = _
  rw [harea]
  cases h : c.findIn? .temp s.name <;> simp [h]

theorem find_staging_iff {s : StagingTable} :
    c.find s.table = .ok (a, t) ↔ a = .temp ∧ c.findIn? .temp s.name = some t := by
  rw [find_eq_ok_iff, find?_staging, Option.map_eq_some_iff]
  constructor
  · rintro ⟨u, hu, hpair⟩
    obtain ⟨rfl, rfl⟩ := Prod.mk.inj hpair
    exact ⟨rfl, hu⟩
  · rintro ⟨rfl, ht⟩
    exact ⟨t, ht, rfl⟩

theorem find_staging {s : StagingTable} (h : c.findIn? .temp s.name = some t) :
    c.find s.table = .ok (.temp, t) :=
  find_staging_iff.2 ⟨rfl, h⟩

end Memory.Catalog

end StagedStore
