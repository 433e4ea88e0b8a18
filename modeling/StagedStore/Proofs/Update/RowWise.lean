import StagedStore.Changes
import StagedStore.Proofs.Schema.Table

/-!
# Change sets one at a time

What a change set does on its own to the row with its key.  This is what a batch is measured by:
`ChangeSet.applyTo` changes one row of a table, and change sets for different keys do not meet.
-/

namespace StagedStore

open Memory

/-- A cell as it is kept: a number that is none becomes null, and a zero loses its sign. -/
def Storage.kept : Storage → Storage
  | .real .nan => .null
  | .real x => if x.isFinite && x.magnitude = 0 then .real (.zero false) else .real x
  | v => v

/-- A value as it is kept: a zero loses its sign. -/
def Value.kept : Value → Value
  | .real x => if x.isFinite && x.magnitude = 0 then .real (.zero false) else .real x
  | v => v

/-- The cell that a delta leaves in a field. -/
def Delta.cellAfter (f : Field) (old : Storage) : Delta → Storage
  | .set v => ((f.encode v).toOption.getD .null).kept
  | .unset => .null
  | .increment a => f.affinity.store (old.add ((f.encode a).toOption.getD .null))

namespace Changes

/-- The cell that changes leave in a field; a field they do not touch keeps its cell. -/
def cellAfter (c : Changes) (f : Field) (old : Storage) : Storage :=
  match c.get? f.name with
  | some d => d.cellAfter f old
  | none => old

/-- A row after changes. -/
def applyTo (c : Changes) (s : Schema) (e : Entry) : Entry :=
  { e with
    cells := e.cells.mapIdx fun i v =>
      match s.fields[i]? with
      | some f => c.cellAfter f v
      | none => v }

theorem getElem?_applyTo {c : Changes} {s : Schema} {e : Entry} {i : Nat} {f : Field}
    (hf : s.fields[i]? = some f) :
    (c.applyTo s e).cells[i]? = e.cells[i]?.map (c.cellAfter f) := by
  simp [applyTo, Array.getElem?_mapIdx, hf]

/-- Changes that leave the key field alone leave the key alone. -/
theorem keyCell_applyTo {c : Changes} {s : Schema} {e : Entry}
    (h : c.get? s.primaryKey.name = none) : s.keyCell (c.applyTo s e) = s.keyCell e := by
  have hid : c.cellAfter s.primaryKey = id := by
    funext v
    simp [cellAfter, h]
  simp [Schema.keyCell, getElem?_applyTo s.getElem?_keyIndex, hid]

theorem applyTo_of_isEmpty {c : Changes} {s : Schema} {e : Entry} (h : c.isEmpty = true) :
    c.applyTo s e = e := by
  have hentries : c.entries = [] := List.isEmpty_iff.1 h
  have hget : ∀ name, c.get? name = none := by
    intro name
    simp [get?, hentries]
  have hcell : ∀ f : Field, c.cellAfter f = id := by
    intro f
    funext v
    simp [cellAfter, hget]
  unfold applyTo
  congr 1
  apply Array.ext_getElem?
  intro i
  rw [Array.getElem?_mapIdx]
  cases s.fields[i]? <;> simp [hcell]

end Changes

namespace ChangeSet

variable {ε : Type}

/-- A change set under its key as the column of the key keeps it. -/
def kept (c : ChangeSet ε) : ChangeSet ε :=
  { c with key := c.key.kept }

/-- Whether a row has the key of a change set. -/
def concerns (s : Schema) (c : ChangeSet ε) (e : Entry) : Bool :=
  match s.primaryKey.encode c.key with
  | .ok k => decide (s.keyCell e = k)
  | .error _ => false

/-- Apply a change set to the row with its key; without one nothing happens. -/
def applyTo (s : Schema) (t : Table) (c : ChangeSet ε) : Table :=
  { t with entries := t.entries.map fun e => if c.concerns s e then c.changes.applyTo s e else e }

/-- No row has the keys of both. -/
def Apart (s : Schema) (c d : ChangeSet ε) : Prop :=
  ∀ e, c.concerns s e = true → d.concerns s e = false

/-- A row after the change set among several that concerns it. -/
def revise (s : Schema) (sets : List (ChangeSet ε)) (e : Entry) : Entry :=
  match sets.find? (·.concerns s e) with
  | some c => c.changes.applyTo s e
  | none => e

theorem concerns_applyTo {s : Schema} {c d : ChangeSet ε} {e : Entry}
    (h : c.changes.get? s.primaryKey.name = none) :
    d.concerns s (c.changes.applyTo s e) = d.concerns s e := by
  unfold concerns
  rw [Changes.keyCell_applyTo h]

/-- Change sets for different keys, one after the other, change each row at most once. -/
theorem foldl_applyTo {s : Schema} {sets : List (ChangeSet ε)} {t : Table}
    (hapart : sets.Pairwise (Apart s))
    (hkey : ∀ c ∈ sets, c.changes.get? s.primaryKey.name = none) :
    sets.foldl (applyTo s) t = { t with entries := t.entries.map (revise s sets) } := by
  induction sets generalizing t with
  | nil =>
      have hnone : revise s ([] : List (ChangeSet ε)) = id := rfl
      rw [hnone, List.map_id]
      rfl
  | cons c sets ih =>
      obtain ⟨hc, hapart⟩ := List.pairwise_cons.1 hapart
      rw [List.foldl_cons, ih hapart fun d hd => hkey d (by simp [hd])]
      simp only [applyTo, List.map_map]
      congr 1
      refine List.map_congr_left fun e _ => ?_
      rw [Function.comp_apply]
      cases he : c.concerns s e with
      | true =>
          have hnone : sets.find? (·.concerns s (c.changes.applyTo s e)) = none := by
            rw [List.find?_eq_none]
            intro d hd
            rw [concerns_applyTo (hkey c (by simp)), hc d hd e he]
            exact Bool.false_ne_true
          simp [revise, he, hnone]
      | false => simp [revise, he]

end ChangeSet

/-! ## Kept cells -/

namespace Storage

theorem bound_of_notReal {v : Storage} (h : ∀ x, v ≠ .real x) : v.bound = v := by
  cases v with
  | real x => exact absurd rfl (h x)
  | _ => rfl

theorem kept_of_notReal {v : Storage} (h : ∀ x, v ≠ .real x) : v.kept = v := by
  cases v with
  | real x => exact absurd rfl (h x)
  | _ => rfl

theorem kept_real {x : Binary64} (h : x ≠ .nan) :
    (Storage.real x).kept = .real x ∨ x.isFinite = true ∧ x.magnitude = 0 ∧
      (Storage.real x).kept = .real (.zero false) := by
  rw [kept]
  · split
    · rename_i hzero
      obtain ⟨hfinite, hmagnitude⟩ := Bool.and_eq_true_iff.1 hzero
      exact .inr ⟨hfinite, of_decide_eq_true hmagnitude, rfl⟩
    · exact .inl rfl
  · exact h

theorem bound_real {x : Binary64} (h : x ≠ .nan) : (Storage.real x).bound = .real x := by
  rw [bound]
  rintro ⟨⟩
  exact h rfl

theorem isNull_kept {w : Storage} (h : w.bound.isNull = false) : w.kept.isNull = false := by
  cases w with
  | real x =>
      have hx : x ≠ .nan := by
        rintro rfl
        cases h
      rcases kept_real hx with hkept | ⟨-, -, hkept⟩ <;> rw [hkept] <;> rfl
  | _ => exact h

/-- A zero that loses its sign remains equal to the zero. -/
theorem normal_kept (w : Storage) : w.kept.normal = w.bound.normal := by
  cases w with
  | real x =>
      by_cases hx : x = .nan
      · rw [hx]
        rfl
      · rw [bound_real hx]
        rcases kept_real hx with hkept | ⟨hfinite, hmagnitude, hkept⟩ <;> rw [hkept]
        refine normal_real_eq_of_cmp (cmp_of_toInt? ?_
          (Binary64.toInt?_of_magnitude_eq_zero hfinite hmagnitude))
        exact Binary64.toInt?_of_magnitude_eq_zero rfl (Nat.zero_mul _)
  | _ => rfl

/-- The real of an integer is kept as it is, as the only zero among such reals has no sign. -/
theorem kept_ofInt (n : Int64) :
    (Storage.real (.ofInt n.toInt)).kept = .real (.ofInt n.toInt) := by
  rcases kept_real (Binary64.ofInt_ne_nan n) with hkept | ⟨-, hmagnitude, hkept⟩
  · exact hkept
  · rw [hkept, Binary64.ofInt_of_magnitude_eq_zero hmagnitude (Binary64.isFinite_ofInt n)]

end Storage

/-- The cells that values other than null of a kind of field are written as. -/
def FieldKind.Writes (kind : FieldKind) (w : Storage) : Prop :=
  match kind with
  | .integer | .bool => ∃ n, w = .integer n
  | .real => ∃ x, w = .real x
  | .blob => ∃ bytes, w = .blob bytes
  | .text | .json | .timestamp | .uuid => ∃ text, w = .text text

theorem FieldKind.Writes.isNull_eq {kind : FieldKind} {w : Storage} (h : kind.Writes w) :
    w.isNull = false := by
  cases kind <;> obtain ⟨x, rfl⟩ := h <;> rfl

theorem Field.writes_of_encodeKind? {kind : FieldKind} {v : Value} {w : Storage}
    (h : encodeKind? kind v = some w) : kind.Writes w := by
  cases kind <;> cases v <;> simp only [encodeKind?] at h <;>
    first
    | exact ⟨_, (Option.some.inj h).symm⟩
    | cases h

/-- A field stores null if it may, and values of its kind. -/
theorem Field.encode_ok {f : Field} {v : Value} {w : Storage} (h : f.encode v = .ok w) :
    (v = .null ∧ f.nullable = true ∧ w = .null) ∨
      (v.isNull = false ∧ encodeKind? f.kind v = some w) := by
  unfold encode at h
  split at h
  · rename_i hnull
    split at h
    · cases h
      cases v <;> simp_all [Value.isNull]
    · cases h
  · rename_i hnull
    split at h
    · cases h
      exact .inr ⟨by simpa using hnull, ‹_›⟩
    · cases h

theorem Schema.writes_of_encode {s : Schema} {key : Value} {w : Storage}
    (h : s.primaryKey.encode key = .ok w) : s.primaryKey.kind.Writes w := by
  rcases Field.encode_ok h with ⟨-, hnull, -⟩ | ⟨-, h⟩
  · rw [s.key_required] at hnull
    cases hnull
  · exact Field.writes_of_encodeKind? h

/-- A value is kept like the cell that it is written as. -/
theorem Field.encode_kept {f : Field} {v : Value} {w : Storage} (h : f.encode v = .ok w)
    (hbound : w.bound = w) : f.encode v.kept = .ok w.kept := by
  cases v with
  | real x =>
      obtain ⟨hk, rfl⟩ : f.kind = .real ∧ w = .real x := by
        rcases encode_ok h with ⟨hv, -⟩ | ⟨-, hw⟩
        · cases hv
        · cases hk : f.kind <;> rw [hk] at hw <;> cases hw
          exact ⟨rfl, rfl⟩
      have hencode (y : Binary64) : f.encode (.real y) = .ok (.real y) := by
        unfold encode
        rw [hk]
        rfl
      cases x with
      | nan => cases hbound
      | infinite _ => exact hencode _
      | finite s m e hc =>
          unfold Value.kept Storage.kept
          dsimp only
          split <;> exact hencode _
  | integer n =>
      rcases encode_ok h with ⟨hv, -⟩ | ⟨-, hw⟩
      · cases hv
      · cases hk : f.kind <;> rw [hk] at hw <;> cases hw
        · exact h
        · rw [Storage.kept_ofInt]
          exact h
  | _ =>
      rw [Storage.kept_of_notReal]
      · exact h
      · rintro x rfl
        rcases encode_ok h with ⟨hv, -, hw⟩ | ⟨-, hw⟩
        · cases hw
        · cases hk : f.kind <;> rw [hk] at hw <;> cases hw

/-- A key that is not real has no sign to lose. -/
theorem ChangeSet.kept_eq {ε : Type} {s : Schema} {c : ChangeSet ε} {k : Storage}
    (hkind : s.primaryKey.kind ≠ .real) (h : s.primaryKey.encode c.key = .ok k) : c.kept = c := by
  obtain ⟨key, changes, item⟩ := c
  unfold kept Value.kept
  dsimp only at h ⊢
  cases key with
  | real x =>
      rcases Field.encode_ok h with ⟨hv, -⟩ | ⟨-, hw⟩
      · cases hv
      · cases hk : s.primaryKey.kind <;> rw [hk] at hw <;> cases hw
        exact absurd hk hkind
  | _ => rfl

theorem Affinity.store_real (x : Binary64) :
    Affinity.real.store (Storage.real x).bound = (Storage.real x).kept := by
  cases x with
  | nan => rfl
  | infinite _ => rfl
  | finite s m e hc =>
      simp only [store, Storage.bound, Storage.textToNumber, Storage.integerToReal, Storage.kept,
        Bool.and_comm]

/-- The column of a field keeps what the field's values are written as. -/
theorem Field.store_encode {f : Field} {v : Value} {w : Storage} (h : f.encode v = .ok w) :
    f.affinity.store w.bound = w.kept := by
  rcases encode_ok h with ⟨-, -, rfl⟩ | ⟨-, h⟩
  · cases f.affinity <;> rfl
  · have h := writes_of_encodeKind? h
    rw [affinity_eq]
    cases hk : f.kind <;> rw [hk] at h <;> obtain ⟨x, rfl⟩ := h <;>
      first
      | rfl
      | exact Affinity.store_real x

end StagedStore
