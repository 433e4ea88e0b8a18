import StagedStore.Proofs.Entity
import StagedStore.Proofs.Insert.Run
import StagedStore.Proofs.Memory.Transaction

/-!
# Generated keys of entities

An insertion of entities that leave their keys open: each gets the key of the row that stores it.
The keys are found from what is reported of the chunks, so the rows and the entities are numbered
from the same first key.
-/

namespace StagedStore

open Memory

variable {ε : Type} [Entity ε] {s : Schema} {items : List ε}

/-! ## Numbered entities -/

/-- Entities after consecutive keys were written to them. -/
inductive Assigned (key : String) : Int → List ε → List ε → Prop
  | nil (first : Int) : Assigned key first [] []
  | cons {first : Int} {item item' : ε} {items items' : List ε} {k : Int64} (hk : k.toInt = first)
      (hset : Entity.setField item key (.integer k) = .ok item')
      (hrest : Assigned key (first + 1) items items') :
      Assigned key first (item :: items) (item' :: items')

namespace Assigned

variable {key : String} {first : Int} {items' more more' : List ε}

theorem length_eq (h : Assigned key first items items') : items'.length = items.length := by
  induction h with
  | nil => rfl
  | cons _ _ _ ih => simp [ih]

theorem append (h : Assigned key first items items')
    (h' : Assigned key (first + items.length) more more') :
    Assigned key first (items ++ more) (items' ++ more') := by
  induction h with
  | nil => simpa using h'
  | @cons first item item' items items' k hk hset _ ih =>
      refine .cons hk hset (ih ?_)
      have hnext : first + 1 + (items.length : Int) = first + ((item :: items).length : Nat) := by
        simp only [List.length_cons]
        omega
      rwa [hnext]

theorem get (h : Assigned key first items items') {i : Nat} {item : ε} (hi : items[i]? = some item) :
    ∃ item' k, items'[i]? = some item' ∧ k.toInt = first + i ∧
      Entity.setField item key (.integer k) = .ok item' := by
  induction h generalizing i with
  | nil => simp at hi
  | @cons first head head' items items' k hk hset _ ih =>
      cases i with
      | zero =>
          obtain rfl : head = item := by simpa using hi
          exact ⟨head', k, rfl, by simpa using hk, hset⟩
      | succ i =>
          obtain ⟨item', k', hitem', hk', hset'⟩ := ih (by simpa using hi)
          exact ⟨item', k', by simpa using hitem', by rw [hk']; push_cast; omega, hset'⟩

end Assigned

/-- The keys that end at the last one are numbered from the first one on. -/
theorem generatedKeys_ok {first : Int} {last : Int64} {count : Nat} {keys : List Int64}
    (hlast : last.toInt + 1 = first + count) (hcount : count < 2 ^ 63)
    (h : generatedKeys last count = .ok keys) :
    keys.map Int64.toInt = (List.range count).map fun i : Nat => first + i := by
  rw [generatedKeys] at h
  split at h
  · simp at h
  · rename_i k hk
    have hfirst := toInt_firstKey hcount hk
    have hmin := Int64.minValue_le_toInt k
    have hnumber : last.toInt - count + 1 = first := by omega
    rw [← Except.ok.inj h, keysBetween_eq hfirst, map_toInt_keysUpTo (.inr (by omega)), hnumber]

/-- Keys that are written to as many entities. -/
theorem assignKeys_ok {key : String} {first : Int} {keys : List Int64} {items' : List ε}
    (hkeys : keys.map Int64.toInt = (List.range items.length).map fun i : Nat => first + i)
    (h : assignKeys key items keys = (items', .ok ())) : Assigned key first items items' := by
  induction items generalizing first keys items' with
  | nil =>
      obtain rfl : keys = [] := by simpa using hkeys
      obtain ⟨rfl, -⟩ := Prod.mk.inj h
      exact .nil _
  | cons item items ih =>
      rw [List.length_cons, List.range_succ_eq_map, List.map_cons] at hkeys
      obtain ⟨k, keys, rfl, hk, hkeys⟩ := List.map_eq_cons_iff.1 hkeys
      rw [assignKeys] at h
      split at h
      · simp at h
      · rename_i item' hset
        rcases hrest : assignKeys key items keys with ⟨rest, r⟩
        rw [hrest] at h
        obtain ⟨rfl, rfl⟩ := Prod.mk.inj h
        refine .cons (by simpa using hk) hset (ih ?_ hrest)
        rw [hkeys, List.map_map]
        refine List.map_congr_left fun i _ => ?_
        simp only [Function.comp_apply]
        push_cast
        omega

/-- From what is reported of all chunks every entity gets its own number. -/
theorem assignGenerated_ok {α : Type} {key : String} {first : Int} {chunks : List (List α)}
    {lasts : List (Nat × Int64)} {items' : List ε} (hreported : Reported first chunks lasts)
    (hcounts : ∀ c ∈ chunks, c.length < 2 ^ 63)
    (hlen : items.length = chunks.flatten.length)
    (h : assignGenerated key items lasts = (items', .ok ())) :
    Assigned key first items items' := by
  induction hreported generalizing items items' with
  | nil first =>
      obtain ⟨rfl, -⟩ := Prod.mk.inj h
      obtain rfl : items = [] := by simpa using hlen
      exact .nil _
  | @cons first c chunks last lasts hlast _ ih =>
      obtain ⟨hcount, hcounts⟩ := List.forall_mem_cons.1 hcounts
      rw [List.flatten_cons, List.length_append] at hlen
      have htake : (items.take c.length).length = c.length := by simp [hlen]
      rw [assignGenerated] at h
      split at h
      · simp at h
      · rename_i keys hkeys
        split at h
        · simp at h
        · rename_i front hfront
          rcases hback : assignGenerated key (items.drop c.length) lasts with ⟨back, r⟩
          rw [hback] at h
          obtain ⟨rfl, rfl⟩ := Prod.mk.inj h
          have hassigned := assignKeys_ok (htake.symm ▸ generatedKeys_ok hlast hcount hkeys) hfront
          have hrest := ih hcounts (by simp [hlen]) hback
          rw [← htake] at hrest
          rw [← List.take_append_drop c.length items]
          exact hassigned.append (by simpa [htake] using hrest)

end StagedStore
