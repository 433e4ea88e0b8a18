import Mathlib.Algebra.GroupWithZero.Nat
import StagedStore.Proofs.Action
import StagedStore.Proofs.Keyed
import StagedStore.Store.Insert

/-!
# Writes to entities

What a write gives back to the entities of a batch is a list of writes to their fields, made in order.
Where an entity refuses one of them, those before it have been made and nothing else has changed.
-/

namespace StagedStore

/-- A value for a field of the entity at a place of a batch. -/
structure FieldWrite where
  place : Nat
  field : String
  value : Value

variable {ε : Type} [Entity ε] {items items' items₁ : List ε} {ws ws' : List FieldWrite}
  {w : FieldWrite} {item item' : ε} {e : Error} {r : Except Error Unit}

/-- An entity refuses a value with this error. -/
def RaisedByEntity (ε : Type) [Entity ε] (e : Error) : Prop :=
  ∃ (item : ε) (name : String) (v : Value), Entity.setField item name v = .error e

/-- The entities after all of the writes were made. -/
inductive Written : List FieldWrite → List ε → List ε → Prop
  | nil (items : List ε) : Written [] items items
  | cons {w : FieldWrite} {ws : List FieldWrite} {items items' : List ε} {item item' : ε}
      (hitem : items[w.place]? = some item) (hset : Entity.setField item w.field w.value = .ok item')
      (hrest : Written ws (items.set w.place item') items') : Written (w :: ws) items items'

/-- The entities after one of the writes was refused: those before it were made. -/
def Refused (ws : List FieldWrite) (items items' : List ε) (e : Error) : Prop :=
  ∃ before w after item, ws = before ++ w :: after ∧ Written before items items' ∧
    items'[w.place]? = some item ∧ Entity.setField item w.field w.value = .error e

/-- The entities after the writes were made up to the first that is refused, if one is. -/
def Ends (ws : List FieldWrite) (items items' : List ε) : Except Error Unit → Prop
  | .ok _ => Written ws items items'
  | .error e => Refused ws items items' e

theorem Refused.raisedByEntity (h : Refused ws items items' e) : RaisedByEntity ε e := by
  obtain ⟨_, w, _, item, -, -, -, hset⟩ := h
  exact ⟨item, w.field, w.value, hset⟩

theorem Ends.refused (hitem : items[w.place]? = some item)
    (hset : Entity.setField item w.field w.value = .error e) :
    Ends (w :: ws) items items (.error e) :=
  ⟨[], w, ws, item, rfl, .nil items, hitem, hset⟩

theorem Ends.cons (hitem : items[w.place]? = some item)
    (hset : Entity.setField item w.field w.value = .ok item')
    (h : Ends ws (items.set w.place item') items' r) : Ends (w :: ws) items items' r := by
  cases r with
  | ok _ => exact .cons hitem hset h
  | error e =>
      obtain ⟨before, w', after, x, rfl, hbefore, hx, hrefused⟩ := h
      exact ⟨w :: before, w', after, x, rfl, .cons hitem hset hbefore, hx, hrefused⟩

theorem Written.ends_append (h : Written ws items items₁) (h' : Ends ws' items₁ items' r) :
    Ends (ws ++ ws') items items' r := by
  induction h with
  | nil => exact h'
  | cons hitem hset _ ih => exact .cons hitem hset (ih h')

theorem Written.length_eq (h : Written ws items items') : items'.length = items.length := by
  induction h with
  | nil => rfl
  | cons _ _ _ ih => rw [ih, List.length_set]

theorem Refused.append (h : Refused ws items items' e) (ws' : List FieldWrite) :
    Refused (ws ++ ws') items items' e := by
  obtain ⟨before, w, after, item, rfl, h⟩ := h
  exact ⟨before, w, after ++ ws', item, by simp, h⟩

/-! ## Values that were read back -/

/-- The writes of the values that decoding gives back. -/
def WriteBack.writes (back : WriteBack) : List FieldWrite :=
  back.2.map fun (name, v) => ⟨back.1, name, v⟩

theorem set_eq_self {α : Type} {xs : List α} {i : Nat} {x : α} (h : xs[i]? = some x) :
    xs.set i x = xs := by
  obtain ⟨hi, rfl⟩ := List.getElem?_eq_some_iff.1 h
  exact List.set_getElem_self hi

theorem assignFields_ends {i : Nat} {values : List (String × Value)}
    (hitem : items[i]? = some item) (h : assignFields item values = (item', r)) :
    Ends (WriteBack.writes (i, values)) items (items.set i item') r := by
  induction values generalizing items item with
  | nil =>
      obtain ⟨rfl, rfl⟩ := Prod.mk.inj h
      rw [set_eq_self hitem]
      exact .nil items
  | cons nv values ih =>
      obtain ⟨name, v⟩ := nv
      have hi : i < items.length := (List.getElem?_eq_some_iff.1 hitem).1
      rw [assignFields] at h
      split at h
      · rename_i item₁ hset
        refine Ends.cons (w := ⟨i, name, v⟩) hitem hset ?_
        have hitem₁ : (items.set i item₁)[i]? = some item₁ := by simp [hi]
        have hrest := ih hitem₁ h
        rwa [List.set_set] at hrest
      · rename_i e hset
        obtain ⟨rfl, rfl⟩ := Prod.mk.inj h
        rw [set_eq_self hitem]
        exact Ends.refused (w := ⟨i, name, v⟩) hitem hset

theorem assignWriteBacks_ends {xs xs' : Array ε} {backs : List WriteBack}
    (hplaces : ∀ back ∈ backs, back.1 < xs.size) (h : assignWriteBacks xs backs = (xs', r)) :
    Ends (backs.flatMap WriteBack.writes) xs.toList xs'.toList r := by
  induction backs generalizing xs with
  | nil =>
      obtain ⟨rfl, rfl⟩ := Prod.mk.inj h
      exact .nil _
  | cons back backs ih =>
      obtain ⟨i, values⟩ := back
      obtain ⟨hi, hplaces⟩ := List.forall_mem_cons.1 hplaces
      rw [assignWriteBacks] at h
      split at h
      · rename_i hnone
        exact absurd hi (by simpa using hnone)
      · rename_i item hitem
        have hitem : xs.toList[i]? = some item := by simpa using hitem
        rw [List.flatMap_cons]
        split at h
        · rename_i item' hfields
          have hwritten : Written _ _ _ := assignFields_ends hitem hfields
          refine hwritten.ends_append ?_
          have hsize : (xs.setIfInBounds i item').size = xs.size := by simp
          have hrest := ih (hsize ▸ hplaces) h
          rwa [Array.toList_setIfInBounds] at hrest
        · rename_i item' e hfields
          obtain ⟨rfl, rfl⟩ := Prod.mk.inj h
          have hrefused : Refused _ _ _ _ := assignFields_ends hitem hfields
          rw [Array.toList_setIfInBounds]
          exact hrefused.append _

/-! ## Entities that take every write -/

/-- Entities that take every value for every field. The field then has the value, and no other field
changes. -/
structure Entity.Open (P : ε → Prop) : Prop where
  accepts : ∀ (item : ε) (name : String) (v : Value), P item →
    ∃ item', Entity.setField item name v = .ok item' ∧ P item'
  assigned : ∀ (item item' : ε) (name : String) (v : Value), P item →
    Entity.setField item name v = .ok item' →
      ∀ m, Entity.field? item' m = if m = name then some v else Entity.field? item m

theorem assignFields_append (item : ε) (vs ws : List (String × Value)) {item' : ε}
    (h : assignFields item vs = (item', .ok ())) :
    assignFields item (vs ++ ws) = assignFields item' ws := by
  induction vs generalizing item with
  | nil =>
      obtain ⟨rfl, -⟩ := Prod.mk.inj h
      rfl
  | cons nv vs ih =>
      obtain ⟨name, v⟩ := nv
      rw [assignFields] at h
      rw [List.cons_append, assignFields]
      split at h
      · exact ih _ h
      · cases (Prod.mk.inj h).2

/-- The last value for a field stays. -/
theorem Entity.Open.assignFields {P : ε → Prop} (h : Entity.Open P) {item : ε} (hitem : P item)
    (values : List (String × Value)) :
    ∃ item', StagedStore.assignFields item values = (item', .ok ()) ∧ P item' ∧
      ∀ name, Entity.field? item' name =
        (values.reverse.lookup name).or (Entity.field? item name) := by
  induction values generalizing item with
  | nil => exact ⟨item, rfl, hitem, fun _ => rfl⟩
  | cons nv values ih =>
      obtain ⟨n, v⟩ := nv
      obtain ⟨item₁, hset, hitem₁⟩ := h.accepts item n v hitem
      obtain ⟨item', hassign, hitem', hfields⟩ := ih hitem₁
      refine ⟨item', by rw [StagedStore.assignFields, hset]; exact hassign, hitem', fun name => ?_⟩
      rw [hfields, h.assigned item item₁ n v hitem hset, List.reverse_cons, List.lookup_append,
        Keyed.lookup_cons_eq]
      by_cases hname : name = n <;> simp [hname]

/-- Records that know every name are such entities. -/
theorem Record.isOpen : Entity.Open fun r : Record => r.only = none where
  accepts item name v hitem := by
    have hknows : item.knows name = true := by rw [knows, hitem]
    exact ⟨item.insert name v, if_pos hknows, hitem⟩
  assigned item item' name v hitem hset m := by
    have hknows (n : String) : item.knows n = true := by rw [knows, hitem]
    simp only [Entity.setField, hknows, if_true] at hset
    obtain rfl := Except.ok.inj hset
    have hknows' : (item.insert name v).knows m = true := hknows m
    simp only [Entity.field?, hknows, hknows', if_true]
    exact Keyed.lookup_insert name m v item.fields

/-- The values that are given back to the entity at a place. -/
def valuesAt (i : Nat) (backs : List WriteBack) : List (String × Value) :=
  (backs.filter fun back => back.1 = i).flatMap Prod.snd

theorem valuesAt_cons_self (i : Nat) (values : List (String × Value)) (backs : List WriteBack) :
    valuesAt i ((i, values) :: backs) = values ++ valuesAt i backs := by
  simp [valuesAt]

theorem valuesAt_cons_of_ne {i j : Nat} (h : j ≠ i) (values : List (String × Value))
    (backs : List WriteBack) : valuesAt i ((j, values) :: backs) = valuesAt i backs := by
  simp [valuesAt, h]

/-- Each entity gets the values for its place, and they are all that it gets. -/
theorem Entity.Open.assignWriteBacks {P : ε → Prop} (h : Entity.Open P) (backs : List WriteBack)
    {items : List ε} (hitems : ∀ item ∈ items, P item) :
    ∃ items' : List ε,
      StagedStore.assignWriteBacks items.toArray backs = (items'.toArray, .ok ()) ∧
      items'.length = items.length ∧
      ∀ (i : Nat) (item : ε), items[i]? = some item → ∃ item', items'[i]? = some item' ∧
        StagedStore.assignFields item (valuesAt i backs) = (item', .ok ()) := by
  induction backs generalizing items with
  | nil => exact ⟨items, rfl, rfl, fun i item hi => ⟨item, hi, rfl⟩⟩
  | cons back backs ih =>
      obtain ⟨j, values⟩ := back
      rw [StagedStore.assignWriteBacks, List.getElem?_toArray]
      cases hj : items[j]? with
      | none =>
          obtain ⟨items', hassign, hlength, hall⟩ := ih hitems
          refine ⟨items', hassign, hlength, fun i item hi => ?_⟩
          have hne : j ≠ i := by
            rintro rfl
            rw [hj] at hi
            cases hi
          rw [valuesAt_cons_of_ne hne]
          exact hall i item hi
      | some itemj =>
          obtain ⟨item₁, hfields, hitem₁, -⟩ :=
            h.assignFields (hitems itemj (List.mem_of_getElem? hj)) values
          have hset : ∀ item ∈ items.set j item₁, P item := by
            intro item hin
            rcases List.mem_or_eq_of_mem_set hin with hin | rfl
            · exact hitems item hin
            · exact hitem₁
          obtain ⟨items', hassign, hlength, hall⟩ := ih hset
          refine ⟨items', ?_, by rw [hlength, List.length_set], fun i item hi => ?_⟩
          · dsimp only
            rw [hfields]
            dsimp only
            rw [List.setIfInBounds_toArray]
            exact hassign
          · by_cases hji : j = i
            · subst hji
              obtain rfl := Option.some.inj (hj.symm.trans hi)
              have hlt : j < items.length := (List.getElem?_eq_some_iff.1 hj).1
              rw [valuesAt_cons_self, assignFields_append _ _ _ hfields]
              exact hall j item₁ (by simp [hlt])
            · rw [valuesAt_cons_of_ne hji]
              exact hall i item (by rw [List.getElem?_set_ne hji]; exact hi)

/-! ## Generated keys -/

/-- A step to generated keys that leaves the range of integers stops the program; every other error
is returned to the caller. -/
def Error.isReturned : Error → Bool
  | .keysOutOfRange _ _ => false
  | _ => true

/-- The consecutive keys of a chunk, the last of which is given. -/
def keysUpTo (last : Int64) (count : Nat) : List Int64 :=
  (List.range count).map fun (i : Nat) => Int64.ofInt (last.toInt - count + 1 + i)

@[simp] theorem length_keysUpTo (last : Int64) (count : Nat) :
    (keysUpTo last count).length = count := by
  simp [keysUpTo]

/-- The keys count up to the last one as long as the first is an integer of 64 bits. -/
theorem map_toInt_keysUpTo {last : Int64} {count : Nat}
    (h : count = 0 ∨ Int64.minValue.toInt ≤ last.toInt - count + 1) :
    (keysUpTo last count).map Int64.toInt =
      (List.range count).map fun i : Nat => last.toInt - count + 1 + i := by
  rw [keysUpTo, List.map_map]
  refine List.map_congr_left fun i hi => ?_
  have hi := List.mem_range.1 hi
  have hlt := Int64.toInt_lt last
  have hmin : Int64.minValue.toInt = -2 ^ 63 := by decide
  exact Int64.toInt_ofInt_of_le (by omega) (by omega)

theorem keysBetween_eq {first last : Int64} {count : Nat}
    (h : first.toInt = last.toInt - count + 1) : keysBetween first last = keysUpTo last count := by
  have hcount : (last.toInt + 1 - first.toInt).toNat = count := by omega
  rw [keysBetween, keysUpTo, hcount, h]

/-- The steps to the first key: the count is taken away from the last one, then one is added. -/
theorem firstKey?_eq_some_iff {first last : Int64} {count : Nat} :
    firstKey? last count = some first ↔ ∃ before : Int64,
      before.toInt = last.toInt - (Int64.ofNat count).toInt ∧ first.toInt = before.toInt + 1 := by
  change (int64? _).bind _ = some first ↔ _
  simp only [Option.bind_eq_some_iff, int64?_eq_some_iff]

/-- A count of 63 bits is taken away as it is. -/
theorem toInt_firstKey {first last : Int64} {count : Nat} (hcount : count < 2 ^ 63)
    (h : firstKey? last count = some first) : first.toInt = last.toInt - count + 1 := by
  obtain ⟨before, hbefore, hfirst⟩ := firstKey?_eq_some_iff.1 h
  rw [hfirst, hbefore, Int64.toInt_ofNat_of_lt hcount]

theorem generatedKeys_eq (last : Int64) {count : Nat} (hcount : count < 2 ^ 63) :
    generatedKeys last count = .error (.keysOutOfRange last count) ∨
      generatedKeys last count = .ok (keysUpTo last count) := by
  rw [generatedKeys]
  cases hfirst : firstKey? last count with
  | none => exact .inl rfl
  | some first => exact .inr (congrArg Except.ok (keysBetween_eq (toInt_firstKey hcount hfirst)))

/-- The writes of the keys of the entities from a place on, the length of each chunk and its last
key given. -/
def keyWrites (key : String) (start : Nat) : List (Nat × Int64) → List FieldWrite
  | [] => []
  | (count, last) :: rest =>
    (keysUpTo last count).mapIdx (fun i k => ⟨start + i, key, .integer k⟩) ++
      keyWrites key (start + count) rest

theorem assignKeys_ends {key : String} {keys : List Int64} (before after : List ε)
    (hlength : items.length = keys.length) (h : assignKeys key items keys = (items', r)) :
    Ends (keys.mapIdx fun i k => ⟨before.length + i, key, .integer k⟩)
      (before ++ (items ++ after)) (before ++ (items' ++ after)) r := by
  induction items generalizing keys items' before with
  | nil =>
      obtain rfl : keys = [] := List.length_eq_zero_iff.1 hlength.symm
      obtain ⟨rfl, rfl⟩ := Prod.mk.inj h
      exact .nil _
  | cons item items ih =>
      obtain ⟨k, keys, rfl⟩ := List.exists_cons_of_length_eq_add_one hlength.symm
      have hitem : (before ++ (item :: items ++ after))[before.length]? = some item := by simp
      rw [List.mapIdx_cons]
      rw [assignKeys] at h
      split at h
      · rename_i e hset
        obtain ⟨rfl, rfl⟩ := Prod.mk.inj h
        exact Ends.refused (w := ⟨before.length + 0, key, .integer k⟩) hitem hset
      · rename_i item' hset
        rcases hrest : assignKeys key items keys with ⟨rest, r⟩
        rw [hrest] at h
        obtain ⟨rfl, rfl⟩ := Prod.mk.inj h
        refine Ends.cons (w := ⟨before.length + 0, key, .integer k⟩) hitem hset ?_
        have hends := ih (before ++ [item']) (Nat.succ.inj hlength) hrest
        simpa [Nat.add_assoc, Nat.add_comm 1] using hends

/-- Keys that are written chunk by chunk, behind entities that have theirs. -/
theorem assignGenerated_refused {key : String} {lasts : List (Nat × Int64)} (before : List ε)
    (hlength : (lasts.map Prod.fst).sum ≤ items.length) (hcounts : ∀ cl ∈ lasts, cl.1 < 2 ^ 63)
    (hret : e.isReturned = true) (h : assignGenerated key items lasts = (items', .error e)) :
    Refused (keyWrites key before.length lasts) (before ++ items) (before ++ items') e := by
  induction lasts generalizing items items' before with
  | nil => simp [assignGenerated] at h
  | cons cl rest ih =>
      obtain ⟨count, last⟩ := cl
      obtain ⟨hcount, hcounts⟩ := List.forall_mem_cons.1 hcounts
      rw [List.map_cons, List.sum_cons] at hlength
      have htake : (items.take count).length = (keysUpTo last count).length := by
        rw [List.length_take, length_keysUpTo]
        omega
      have hfront {front : List ε} {r : Except Error Unit}
          (hassign : assignKeys key (items.take count) (keysUpTo last count) = (front, r)) :
          Ends ((keysUpTo last count).mapIdx fun i k => ⟨before.length + i, key, .integer k⟩)
            (before ++ items) (before ++ (front ++ items.drop count)) r := by
        have hends := assignKeys_ends before (items.drop count) htake hassign
        rwa [List.take_append_drop] at hends
      rw [assignGenerated] at h
      rcases generatedKeys_eq last hcount with hkeys | hkeys
      · rw [hkeys] at h
        obtain rfl := Except.error.inj (Prod.mk.inj h).2
        exact absurd hret (by simp [Error.isReturned])
      · rw [hkeys] at h
        dsimp only at h
        split at h
        · rename_i front e' hassign
          obtain ⟨rfl, he⟩ := Prod.mk.inj h
          obtain rfl := Except.error.inj he
          have hrefused : Refused _ _ _ _ := hfront hassign
          exact hrefused.append _
        · rename_i front hassign
          rcases hback : assignGenerated key (items.drop count) rest with ⟨back, r⟩
          rw [hback] at h
          obtain ⟨rfl, rfl⟩ := Prod.mk.inj h
          have hwritten : Written _ _ _ := hfront hassign
          have hlen : (before ++ front).length = before.length + count := by
            have := hwritten.length_eq
            simp only [List.length_append, List.length_drop] at this ⊢
            omega
          have hrest := ih (before ++ front) (by rw [List.length_drop]; omega) hcounts hback
          rw [hlen, List.append_assoc, List.append_assoc] at hrest
          exact hwritten.ends_append (r := .error e) hrest

end StagedStore
