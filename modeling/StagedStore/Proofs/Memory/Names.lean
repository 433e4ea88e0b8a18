import StagedStore.Memory.Query

/-!
# Names

Which place a name means.  A name means the only column in scope that has it; the lemmas say so for
a run of columns `mid` that stands among places of other sources.
-/

namespace StagedStore

namespace Resolver

theorem placesFrom_eq_nil {p : Slot → Bool} {i : Nat} {slots : List Slot}
    (h : ∀ s ∈ slots, p s = false) : placesFrom p i slots = [] := by
  induction slots generalizing i with
  | nil => rfl
  | cons s slots ih =>
      rw [placesFrom, h s (by simp), if_neg Bool.false_ne_true]
      exact ih fun t ht => h t (by simp [ht])

theorem placesFrom_append {p : Slot → Bool} {i : Nat} {xs ys : List Slot} :
    placesFrom p i (xs ++ ys) = placesFrom p i xs ++ placesFrom p (i + xs.length) ys := by
  induction xs generalizing i with
  | nil => rfl
  | cons x xs ih =>
      simp only [List.cons_append, placesFrom, ih, List.length_cons, Nat.add_assoc,
        Nat.add_comm 1]
      split <;> rfl

theorem placesFrom_eq_singleton {p : Slot → Bool} {i j : Nat} {slots : List Slot} {s : Slot}
    (hj : slots[j]? = some s) (hs : p s = true)
    (hu : ∀ k t, slots[k]? = some t → p t = true → k = j) :
    placesFrom p i slots = [(s, i + j)] := by
  induction slots generalizing i j with
  | nil => simp at hj
  | cons x slots ih =>
      cases j with
      | zero =>
          obtain rfl : x = s := by simpa using hj
          have hrest : placesFrom p (i + 1) slots = [] := by
            refine placesFrom_eq_nil fun t ht => ?_
            obtain ⟨k, hk⟩ := List.getElem?_of_mem ht
            cases hp : p t with
            | false => rfl
            | true => exact absurd (hu (k + 1) t (by simpa using hk) hp) (by omega)
          rw [placesFrom, hs, if_pos rfl, hrest]
          rfl
      | succ j =>
          have hx : p x = false := by
            cases hp : p x with
            | false => rfl
            | true => exact absurd (hu 0 x (by simp) hp) (by omega)
          rw [placesFrom, hx, if_neg Bool.false_ne_true,
            ih (j := j) (by simpa using hj) fun k t hk hp => by
              have := hu (k + 1) t (by simpa using hk) hp
              omega,
            Nat.add_assoc, Nat.add_comm 1]

/-- The test that picks the columns of a name. -/
def picks (q : Option Part) (name : String) (s : Slot) : Bool :=
  s.key = foldName name && !s.isHidden && inSource (q.map fun q => foldName q.name) s

/-- A run of columns, all of a source that a qualifier means, with distinct names. -/
structure Run (q : Option Part) (mid : List Slot) : Prop where
  keys_nodup : (mid.map Slot.key).Nodup
  visible : ∀ s ∈ mid, s.isHidden = false
  inSource : ∀ s ∈ mid, inSource (q.map fun q => foldName q.name) s = true

theorem place?_of_singleton {r : Resolver} {q : Option Part} {name : String} {p : Slot × Nat}
    (h : placesFrom (picks q name) 0 r.slots = [p]) : r.place? q name = .ok (some p) := by
  unfold picks at h
  unfold place?
  dsimp only
  rw [h]

theorem place?_of_cons_cons {r : Resolver} {q : Option Part} {name : String} {p p' : Slot × Nat}
    {ps : List (Slot × Nat)} (h : placesFrom (picks q name) 0 r.slots = p :: p' :: ps) :
    r.place? q name = .error (.ambiguousName name) := by
  unfold picks at h
  unfold place?
  dsimp only
  rw [h]

theorem place?_eq {r : Resolver} {q : Option Part} {name : String} {pre mid post : List Slot}
    {i : Nat} {s : Slot} (hslots : r.slots = pre ++ (mid ++ post)) (hmid : Run q mid)
    (hpre : ∀ t ∈ pre, picks q name t = false) (hpost : ∀ t ∈ post, picks q name t = false)
    (hi : mid[i]? = some s) (hname : s.key = foldName name) :
    r.place? q name = .ok (some (s, pre.length + i)) := by
  have hmem : s ∈ mid := List.mem_of_getElem? hi
  have hs : picks q name s = true := by
    simp [picks, hname, hmid.visible s hmem, hmid.inSource s hmem]
  have hu : ∀ k t, mid[k]? = some t → picks q name t = true → k = i := by
    intro k t hk ht
    have hkey : t.key = foldName name := by
      simp only [picks, Bool.and_eq_true, decide_eq_true_eq] at ht
      exact ht.1.1
    have hk' : (mid.map Slot.key)[k]? = some (foldName name) := by
      rw [List.getElem?_map, hk, ← hkey, Option.map_some]
    have hi' : (mid.map Slot.key)[i]? = some (foldName name) := by
      rw [List.getElem?_map, hi, ← hname, Option.map_some]
    have hlt : k < (mid.map Slot.key).length := (List.getElem?_eq_some_iff.1 hk').1
    exact (List.getElem?_inj hlt hmid.keys_nodup).1 (hk'.trans hi'.symm)
  have hplaces : placesFrom (picks q name) 0 r.slots = [(s, pre.length + i)] := by
    rw [hslots, placesFrom_append, placesFrom_append, placesFrom_eq_nil hpre,
      placesFrom_eq_nil hpost, placesFrom_eq_singleton hi hs hu]
    simp
  exact place?_of_singleton hplaces

theorem resolveName_eq {r : Resolver} {q : Option Part} (name : Part) (pre : List Slot)
    {mid : List Slot} (post : List Slot) {i : Nat} {s : Slot}
    (hslots : r.slots = pre ++ (mid ++ post)) (hmid : Run q mid)
    (hpre : ∀ t ∈ pre, picks q name.name t = false)
    (hpost : ∀ t ∈ post, picks q name.name t = false)
    (hi : mid[i]? = some s) (hname : s.key = foldName name.name) :
    r.resolveName q name = .ok ⟨.slot (pre.length + i), s.affinity⟩ := by
  unfold resolveName
  rw [place?_eq hslots hmid hpre hpost hi hname]
  rfl

theorem picks_hidden {q : Option Part} {name : String} {s : Slot} (h : s.isHidden = true) :
    picks q name s = false := by
  simp [picks, h]

theorem picks_other {q : Part} {name : String} {s : Slot}
    (h : s.source ≠ some (foldName q.name)) : picks (some q) name s = false := by
  simp [picks, Resolver.inSource, h]

theorem mem_placesFrom {p : Slot → Bool} {i j : Nat} {slots : List Slot} {s : Slot}
    (hj : slots[j]? = some s) (hs : p s = true) : (s, i + j) ∈ placesFrom p i slots := by
  induction slots generalizing i j with
  | nil => simp at hj
  | cons x slots ih =>
      cases j with
      | zero =>
          obtain rfl : x = s := by simpa using hj
          rw [placesFrom, if_pos hs]
          exact List.mem_cons_self
      | succ j =>
          have hrest : (s, i + 1 + j) ∈ placesFrom p (i + 1) slots := ih (by simpa using hj)
          rw [Nat.add_assoc, Nat.add_comm 1] at hrest
          rw [placesFrom]
          split
          · exact List.mem_cons_of_mem _ hrest
          · exact hrest

/-- A name that two places have means neither of them. -/
theorem resolveName_ambiguous {r : Resolver} {q : Option Part} {n : Part} {i j : Nat} {s t : Slot}
    (hi : r.slots[i]? = some s) (hj : r.slots[j]? = some t) (hij : i ≠ j)
    (hs : picks q n.name s = true) (ht : picks q n.name t = true) :
    r.resolveName q n = .error (.ambiguousName n.name) := by
  have hplace : r.place? q n.name = .error (.ambiguousName n.name) := by
    have hi' := mem_placesFrom (i := 0) hi hs
    have hj' := mem_placesFrom (i := 0) hj ht
    rcases hplaces : placesFrom (picks q n.name) 0 r.slots with _ | ⟨p, _ | ⟨p', ps⟩⟩
    · simp [hplaces] at hi'
    · rw [hplaces] at hi' hj'
      have hsame := (List.mem_singleton.1 hi').trans (List.mem_singleton.1 hj').symm
      have hat := (Prod.mk.inj hsame).2
      omega
    · exact place?_of_cons_cons hplaces
  unfold resolveName
  rw [hplace]
  rfl

/-- A qualified column means a place. -/
def Finds (r : Resolver) (q : Part) (n : String) (i : Nat) : Prop :=
  ∃ f, r.resolve (.qualified q n) = .ok ⟨.slot i, f⟩

theorem not_finds_of_ambiguous {r : Resolver} {q : Part} {n : String} {i j k : Nat} {s t : Slot}
    (hi : r.slots[i]? = some s) (hj : r.slots[j]? = some t) (hij : i ≠ j)
    (hs : picks (some q) n s = true) (ht : picks (some q) n t = true) : ¬r.Finds q n k := by
  rintro ⟨f, hf⟩
  have hname : r.resolve (.qualified q n) = .error (.ambiguousName n) :=
    resolveName_ambiguous (n := .quoted n) hi hj hij hs ht
  rw [hname] at hf
  cases hf

end Resolver

namespace Memory.Table

/-- The places of the columns of a table. -/
def columnSlots (t : Table) (source : String) : List Slot :=
  t.columns.map fun c => .ofColumn (some source) c.name c.affinity

theorem slots_eq (t : Table) (source : String) :
    t.slots source = [Slot.hidden source] ++ (t.columnSlots source ++ []) := by
  rw [List.append_nil]
  rfl

theorem getElem?_slots {t : Table} {i : Nat} {c : Column} (hc : t.columns[i]? = some c)
    (source : String) :
    (t.slots source)[1 + i]? = some (.ofColumn (some source) c.name c.affinity) := by
  rw [slots, Nat.add_comm, List.getElem?_cons_succ, List.getElem?_map, hc]
  rfl

theorem source_of_mem_slots {t : Table} {source : String} {x : Slot} (h : x ∈ t.slots source) :
    x.source = some (foldName source) := by
  rcases List.mem_cons.1 h with rfl | h
  · rfl
  · obtain ⟨c, -, rfl⟩ := List.mem_map.1 h
    rfl

theorem run_columnSlots {t : Table} {source : String} {q : Option Part}
    (hq : ∀ p ∈ q, foldName p.name = foldName source)
    (hn : (t.columns.map fun c => foldName c.name).Nodup) :
    Resolver.Run q (t.columnSlots source) where
  keys_nodup := by
    unfold columnSlots
    rw [List.map_map]
    exact hn
  visible s hs := by
    obtain ⟨c, -, rfl⟩ := List.mem_map.1 hs
    rfl
  inSource s hs := by
    obtain ⟨c, -, rfl⟩ := List.mem_map.1 hs
    cases q with
    | none => rfl
    | some p => simp [Resolver.inSource, Slot.ofColumn, hq p rfl]

theorem columnIndex?_eq {t : Table} {name : String} {i : Nat} {c : Column}
    (hn : (t.columns.map fun c => foldName c.name).Nodup) (hi : t.columns[i]? = some c)
    (hname : foldName c.name = foldName name) : t.columnIndex? name = some i := by
  unfold columnIndex?
  have hlt := (List.getElem?_eq_some_iff.1 hi).1
  rw [List.findIdx?_eq_some_iff_getElem]
  refine ⟨hlt, ?_, ?_⟩
  · rw [(List.getElem?_eq_some_iff.1 hi).2]
    exact decide_eq_true hname
  · intro j hj
    have hjlt : j < t.columns.length := by omega
    simp only [decide_eq_true_eq]
    intro he
    have hj' : (t.columns.map fun c => foldName c.name)[j]? = some (foldName name) := by
      rw [List.getElem?_map, List.getElem?_eq_getElem hjlt, Option.map_some, he]
    have hi' : (t.columns.map fun c => foldName c.name)[i]? = some (foldName name) := by
      rw [List.getElem?_map, hi, Option.map_some, hname]
    have := (List.getElem?_inj (by simpa using hjlt) hn).1 (hj'.trans hi'.symm)
    omega

end Memory.Table

end StagedStore
