import StagedStore.Proofs.Schema.Fields
import StagedStore.Proofs.Update.RowWise

/-!
# Keys compared

Cells of primary keys are compared under whatever affinity a statement gives them: that of the key's
column, or one that a second column changes it to.  No such comparison converts them, and two keys
that it finds equal belong to the same row.
-/

namespace StagedStore

open Memory

/-- What a column keeps as it is, a comparison under its affinity keeps too. -/
theorem Affinity.forMember_of_store {f g : Affinity} {v : Storage} (hv : g.store v = v)
    (hnumeric : f.isNumeric = true → g.isNumeric = true) (htext : f = .text → g = .text) :
    f.forMember v = v := by
  unfold forMember
  split
  · rename_i hf
    rcases Storage.textToNumber_eq_or v with h | h
    · exact h
    · refine Storage.textToNumber_of_notText ?_
      rw [← hv]
      have hg := hnumeric hf
      cases g <;> simp only [isNumeric, Bool.false_eq_true] at hg
      · rw [store, Storage.isText_realToInteger, h]
      · rw [store, Storage.isText_realToInteger, h]
      · rw [store, Storage.isText_integerToReal, h]
  · split
    · rename_i hf
      rw [htext hf] at hv
      exact hv
    · rfl

theorem Storage.normal_eq_of_holds {f : Affinity} {a b : Storage} (ha : f.forMember a = a)
    (hb : f.forMember b = b) (h : (a.compareBy .eq f b).holds = true) : a.normal = b.normal := by
  rw [holds_compareBy_eq, Affinity.unify_eq_self ha hb] at h
  exact normal_eq_of_cmp_eq h.2.2

theorem Storage.holds_compareBy_self {f : Affinity} {a : Storage} (ha : f.forMember a = a)
    (hnull : a.isNull = false) : (a.compareBy .eq f a).holds = true := by
  rw [holds_compareBy_eq, Affinity.unify_eq_self ha ha]
  exact ⟨hnull, hnull, a.cmp_self⟩

theorem Storage.normal_real_eq_or (x : Binary64) :
    (∃ n, (Storage.real x).normal = .integer n) ∨ (Storage.real x).normal = .real x := by
  simp only [normal]
  split
  · split
    · exact .inl ⟨_, rfl⟩
    · exact .inr rfl
  · exact .inr rfl

/-- Reals that compare as equal are kept alike. -/
theorem Storage.kept_eq_of_cmp {x y : Binary64} (hx : x ≠ .nan) (h : x.cmp y = .eq) :
    (Storage.real x).kept = (Storage.real y).kept := by
  rcases Binary64.eq_or_zeros_of_cmp hx h with rfl | ⟨s, t, rfl, rfl⟩
  · rfl
  · cases s <;> cases t <;> rfl

/-- What a column of reals stores is a real as the column keeps it, if it is equal to one. -/
theorem Storage.eq_kept_of_normal_eq {v : Storage} {x : Binary64} (hx : x ≠ .nan)
    (hv : Affinity.real.store v = v) (h : v.normal = (Storage.real x).normal) :
    v = (Storage.real x).kept := by
  cases v with
  | real y =>
      have hcmp := cmp_real_of_normal_eq h
      have hy : y ≠ .nan := by
        rintro rfl
        cases x <;> first | exact hx rfl | cases hcmp
      rw [← kept_eq_of_cmp hy hcmp, ← Affinity.store_real, bound_real hy, hv]
  | integer n =>
      have hreal : (Storage.integer n).integerToReal = .integer n := hv
      simp only [integerToReal] at hreal
      cases hreal
  | _ => rcases normal_real_eq_or x with ⟨n, hn⟩ | hn <;> rw [hn] at h <;> cases h

/-- An affinity that keys of a column may be compared under. -/
structure Affinity.Compares (f g : Affinity) : Prop where
  numeric : f.isNumeric = true → g.isNumeric = true
  text : f = .text → g = .text

theorem Affinity.compares_forComparison (g : Affinity) {h : Affinity}
    (hh : h = .none ∨ h = .blob ∨ h = g) :
    (g.forComparison h).Compares g ∧ (h.forComparison g).Compares g := by
  refine ⟨⟨?_, ?_⟩, ⟨?_, ?_⟩⟩ <;> cases g <;> cases h <;> simp [forComparison, isNumeric] at hh ⊢

namespace Schema

variable {s : Schema} {t : Table} {e : Entry} {f : Affinity}

theorem Fits.forMember_keyCell (h : s.Fits t) (he : e ∈ t.entries)
    (hf : f.Compares s.primaryKey.affinity) : f.forMember (s.keyCell e) = s.keyCell e :=
  Affinity.forMember_of_store ((h.rows e he).stored s.keyIndex s.primaryKey s.getElem?_keyIndex)
    hf.numeric hf.text

/-- Cells that a key which is not real is written as. -/
theorem store_of_writes {k : Storage} (hkind : s.primaryKey.kind ≠ .real)
    (hk : s.primaryKey.kind.Writes k) :
    (∀ x, k ≠ .real x) ∧ k.isNull = false ∧ s.primaryKey.affinity.store k = k := by
  rw [Field.affinity_eq]
  cases hkey : s.primaryKey.kind <;> rw [hkey] at hk
  case real => exact absurd hkey hkind
  all_goals
    obtain ⟨x, rfl⟩ := hk
    exact ⟨fun _ => nofun, rfl, rfl⟩

theorem forMember_of_writes {k : Storage} (hkind : s.primaryKey.kind ≠ .real)
    (hk : s.primaryKey.kind.Writes k) (hf : f.Compares s.primaryKey.affinity) :
    f.forMember k = k :=
  Affinity.forMember_of_store (store_of_writes hkind hk).2.2 hf.numeric hf.text

/-- A key that is not real is equal to another only in the row that has it. -/
theorem eq_of_normal_eq {k v : Storage} (hkind : s.primaryKey.kind ≠ .real)
    (hk : s.primaryKey.kind.Writes k)
    (hv : s.primaryKey.affinity.store v = v) (hrow : s.hasRowKey = true → ∃ n, v = .integer n)
    (h : v.normal = k.normal) : v = k := by
  rw [Storage.normal_eq_self (store_of_writes hkind hk).1] at h
  cases v with
  | real x =>
      rcases Storage.normal_real_eq_or x with ⟨n, hn⟩ | hn
      · have hint : s.hasRowKey = true := by
          unfold hasRowKey
          rw [Field.affinity_eq]
          rw [hn] at h
          subst h
          cases hkey : s.primaryKey.kind <;> rw [hkey] at hk <;> obtain ⟨x, hx⟩ := hk <;>
            simp at hx ⊢
        obtain ⟨m, hm⟩ := hrow hint
        simp at hm
      · rw [hn] at h
        exact h
  | _ => exact h

theorem Fits.holds_keyCell_iff (h : s.Fits t) (he : e ∈ t.entries)
    (hkind : s.primaryKey.kind ≠ .real) {k : Storage} (hk : s.primaryKey.kind.Writes k)
    (hf : f.Compares s.primaryKey.affinity) :
    ((s.keyCell e).compareBy .eq f k).holds = true ↔ s.keyCell e = k := by
  have hcell := h.forMember_keyCell he hf
  have hrow := h.rows e he
  constructor
  · intro hholds
    exact eq_of_normal_eq hkind hk
      (hrow.stored s.keyIndex s.primaryKey s.getElem?_keyIndex)
      (fun hint => ⟨e.id, keyCell_eq_integer hint hrow⟩)
      (Storage.normal_eq_of_holds hcell (forMember_of_writes hkind hk hf) hholds)
  · rintro rfl
    exact Storage.holds_compareBy_self hcell (keyCell_not_null hrow)

/-- A key that is a number is equal only to itself as its column keeps it. -/
theorem Fits.holds_keyCell_iff_kept (h : s.Fits t) (he : e ∈ t.entries) {k : Storage}
    (hk : s.primaryKey.kind.Writes k) (hbound : k.bound = k)
    (hf : f.Compares s.primaryKey.affinity) :
    ((s.keyCell e).compareBy .eq f k).holds = true ↔ s.keyCell e = k.kept := by
  by_cases hkind : s.primaryKey.kind = .real
  · rw [hkind] at hk
    obtain ⟨x, rfl⟩ := hk
    have hx : x ≠ .nan := by
      rintro rfl
      cases hbound
    have hreal : s.primaryKey.affinity = .real := by rw [Field.affinity_eq, hkind]
    have hcell := h.forMember_keyCell he hf
    have hmember : f.forMember (.real x) = .real x := by
      unfold Affinity.forMember
      split
      · rfl
      · rw [if_neg]
        intro htext
        have := hf.text htext
        rw [hreal] at this
        cases this
    have hstored := (h.rows e he).stored s.keyIndex s.primaryKey s.getElem?_keyIndex
    rw [hreal] at hstored
    constructor
    · intro hholds
      exact Storage.eq_kept_of_normal_eq hx hstored
        (Storage.normal_eq_of_holds hcell hmember hholds)
    · intro hkept
      rw [Storage.holds_compareBy_eq, Affinity.unify_eq_self hcell hmember]
      refine ⟨keyCell_not_null (h.rows e he), rfl, Storage.cmp_eq_of_normal_eq ?_⟩
      rw [hkept, Storage.normal_kept, hbound]
  · rw [h.holds_keyCell_iff he hkind hk hf,
      Storage.kept_of_notReal (store_of_writes hkind hk).1]

end Schema

end StagedStore
