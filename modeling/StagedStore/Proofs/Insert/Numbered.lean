import StagedStore.Proofs.Schema.Invariant

/-!
# Consecutive keys

A table that never uses a key again numbers the rows it is given one behind the other, from the
largest key it ever had on.  `Numbered` says so of a list of things and the rows that stand for
them; it is what one insertion extends by a row, and what insertions in a row join.
-/

namespace StagedStore

open Memory

variable {α β : Type}

/-- The rows stand for the things one by one, under consecutive keys from the first one on. -/
inductive Numbered (P : α → Entry → Prop) : Int → List α → List Entry → Prop
  | nil (first : Int) : Numbered P first [] []
  | cons {first : Int} {x : α} {e : Entry} {xs : List α} {es : List Entry}
      (hid : e.id.toInt = first) (hx : P x e) (hrest : Numbered P (first + 1) xs es) :
      Numbered P first (x :: xs) (e :: es)

namespace Numbered

variable {P : α → Entry → Prop} {first : Int} {xs ys : List α} {es fs : List Entry}

theorem length_eq (h : Numbered P first xs es) : es.length = xs.length := by
  induction h with
  | nil => rfl
  | cons _ _ _ ih => simp [ih]

theorem append (h : Numbered P first xs es) (h' : Numbered P (first + xs.length) ys fs) :
    Numbered P first (xs ++ ys) (es ++ fs) := by
  induction h with
  | nil => simpa using h'
  | @cons first x e xs es hid hx _ ih =>
      refine .cons hid hx (ih ?_)
      have hnext : first + 1 + (xs.length : Int) = first + ((x :: xs).length : Nat) := by
        simp only [List.length_cons]
        omega
      rwa [hnext]

/-- The rows stand for other things, of which those they stand for were made. -/
theorem trade {Q : β → Entry → Prop} {R : β → α → Prop} {zs : List β} (h : Numbered P first xs es)
    (hR : List.Forall₂ R zs xs) (hQ : ∀ z x e, R z x → P x e → Q z e) :
    Numbered Q first zs es := by
  induction h generalizing zs with
  | nil =>
      cases hR
      exact .nil _
  | cons hid hx _ ih =>
      cases hR with
      | cons hz hzs => exact .cons hid (hQ _ _ _ hz hx) (ih hzs)

theorem get (h : Numbered P first xs es) {i : Nat} {x : α} (hi : xs[i]? = some x) :
    ∃ e, es[i]? = some e ∧ e.id.toInt = first + i ∧ P x e := by
  induction h generalizing i with
  | nil => simp at hi
  | @cons first y e xs es hid hx _ ih =>
      cases i with
      | zero =>
          obtain rfl : y = x := by simpa using hi
          exact ⟨e, rfl, by simpa using hid, hx⟩
      | succ i =>
          obtain ⟨e', he', hid', hP⟩ := ih (by simpa using hi)
          exact ⟨e', by simpa using he', by rw [hid']; push_cast; omega, hP⟩

end Numbered

namespace Memory

/-- The largest key that a table has or remembers. -/
def Table.lastUsed (t : Table) : Int64 :=
  max (t.largest?.getD 0) t.sequence

/-- One table is the other with other rows and another largest key to remember. -/
def Table.Alike (t t' : Table) : Prop :=
  t' = { t with entries := t'.entries, sequence := t'.sequence }

theorem toInt_max (a b : Int64) : (max a b).toInt = max a.toInt b.toInt := by
  change (if a ≤ b then b else a).toInt = _
  split
  · rename_i hle
    have hle := Int64.le_iff_toInt_le.1 hle
    omega
  · rename_i hlt
    have hlt := Int64.lt_iff_toInt_lt.1 (Int64.not_le.1 hlt)
    omega

namespace Table

variable {t t' t'' : Table}

theorem Alike.refl (t : Table) : t.Alike t := rfl

theorem Alike.trans (h : t.Alike t') (h' : t'.Alike t'') : t.Alike t'' := by
  unfold Alike at *
  rw [h', h]

theorem Alike.convert_eq (h : t.Alike t') : t'.convert = t.convert := by
  rw [h]
  rfl

theorem le_lastUsed (hsorted : t.entries.Pairwise fun a b => b.id < a.id) {e : Entry}
    (he : e ∈ t.entries) : e.id.toInt ≤ t.lastUsed.toInt := by
  unfold lastUsed largest?
  cases hes : t.entries with
  | nil => simp [hes] at he
  | cons x es =>
      rw [hes] at he hsorted
      have hx : e.id.toInt ≤ x.id.toInt := by
        rcases List.mem_cons.1 he with rfl | he
        · exact Int.le_refl _
        · have hlt := Int64.lt_iff_toInt_lt.1 ((List.pairwise_cons.1 hsorted).1 e he)
          omega
      simp only [List.head?_cons, Option.map_some, Option.getD_some, toInt_max]
      omega

/-- The next key of a table that never uses one again. -/
theorem nextKey_ok {k : Int64} (hauto : t.autoIncrement = true) (h : t.nextKey = .ok k) :
    k.toInt = t.lastUsed.toInt + 1 := by
  unfold nextKey at h
  rw [if_pos hauto] at h
  change (if t.lastUsed = Int64.maxValue then Except.error Fault.full
    else .ok (t.lastUsed + 1)) = _ at h
  split at h
  · simp at h
  · rename_i hne
    rw [← Except.ok.inj h, Int64.toInt_add]
    have hle := Int64.toInt_le t.lastUsed
    have hge := Int64.le_toInt t.lastUsed
    have hmax : Int64.maxValue.toInt = 2 ^ 63 - 1 := by decide
    have hone : (1 : Int64).toInt = 1 := by decide
    have hne : t.lastUsed.toInt ≠ Int64.maxValue.toInt := fun he => hne (Int64.toInt_inj.1 he)
    rw [hone]
    exact Int.bmod_eq_of_le (by omega) (by omega)

end Table

namespace Insertion

variable {i i' : Insertion} {key : Nat}

theorem insert_alike {cells : List Storage} (h : i.insert cells = .ok i') :
    i.table.Alike i'.table := by
  obtain ⟨e, isGiven, -, -, -, -, rfl⟩ := insert_ok h
  rfl

theorem insertAll_alike {rows : List (List Storage)} (h : i.insertAll rows = (i', none)) :
    i.table.Alike i'.table := by
  induction rows generalizing i with
  | nil =>
      obtain ⟨rfl, -⟩ := Prod.mk.inj h
      exact .refl _
  | cons cells rows ih =>
      rw [insertAll] at h
      split at h
      · rename_i i₁ hi₁
        exact (insert_alike hi₁).trans (ih h)
      · simp at h

/-- A row without a key comes in front of the rows that there are, under the next key. -/
theorem insert_generated {cells : List Storage} (hkey : i.table.key = some key)
    (hauto : i.table.autoIncrement = true)
    (hsorted : i.table.entries.Pairwise fun a b => b.id < a.id)
    (hnull : (cells[key]?.getD .null).isNull = true) (h : i.insert cells = .ok i') :
    ∃ e : Entry, e.id.toInt = i.table.lastUsed.toInt + 1 ∧
      e.cells = (i.table.convert cells).setIfInBounds key (.integer e.id) ∧
      i'.table.entries = e :: i.table.entries ∧
      i'.table.lastUsed = e.id ∧ i'.last = some e.id := by
  obtain ⟨e, isGiven, hcomplete, -, -, -, rfl⟩ := insert_ok h
  have hcells := complete_ok hcomplete
  rw [hkey] at hcells
  have hid : e.id.toInt = i.table.lastUsed.toInt + 1 := by
    unfold complete at hcomplete
    rw [hkey] at hcomplete
    dsimp only at hcomplete
    rw [if_pos hnull] at hcomplete
    obtain ⟨k, hnext, hcomplete⟩ := Except.bind_eq_ok_iff.1 hcomplete
    obtain ⟨rfl, -⟩ := Prod.mk.inj (Except.ok.inj hcomplete)
    exact Table.nextKey_ok hauto hnext
  have hplace : Table.place e i.table.entries = e :: i.table.entries := by
    refine Table.place_eq_cons fun x hx => Int64.lt_iff_toInt_lt.2 ?_
    have hle := Table.le_lastUsed hsorted hx
    omega
  refine ⟨e, hid, hcells, hplace, ?_, rfl⟩
  have hseq : i.table.sequence.toInt ≤ i.table.lastUsed.toInt := by
    unfold Table.lastUsed
    rw [toInt_max]
    omega
  rw [← Int64.toInt_inj]
  unfold Table.lastUsed Table.largest?
  dsimp only
  rw [hplace]
  simp only [List.head?_cons, Option.map_some, Option.getD_some, toInt_max]
  omega

/-- Rows without keys are numbered. -/
theorem insertAll_generated {rows : List (List Storage)} (hkey : i.table.key = some key)
    (hauto : i.table.autoIncrement = true)
    (hsorted : i.table.entries.Pairwise fun a b => b.id < a.id)
    (hnull : ∀ cells ∈ rows, (cells[key]?.getD .null).isNull = true)
    (h : i.insertAll rows = (i', none)) :
    ∃ es, Numbered (fun cells e =>
        e.cells = (i.table.convert cells).setIfInBounds key (.integer e.id))
        (i.table.lastUsed.toInt + 1) rows es ∧
      i'.table.entries = es.reverse ++ i.table.entries ∧
      i'.table.lastUsed.toInt = i.table.lastUsed.toInt + rows.length ∧
      (rows ≠ [] → i'.last = some i'.table.lastUsed) := by
  induction rows generalizing i with
  | nil =>
      obtain ⟨rfl, -⟩ := Prod.mk.inj h
      exact ⟨[], .nil _, rfl, by simp, fun hne => absurd rfl hne⟩
  | cons cells rows ih =>
      rw [insertAll] at h
      split at h
      · rename_i i₁ hi₁
        obtain ⟨e, hid, hcells, hentries, hlast₁, hlast⟩ :=
          insert_generated hkey hauto hsorted (hnull cells (by simp)) hi₁
        have hsorted₁ : i₁.table.entries.Pairwise fun a b => b.id < a.id := by
          rw [hentries]
          refine List.pairwise_cons.2 ⟨fun x hx => ?_, hsorted⟩
          rw [Int64.lt_iff_toInt_lt, hid]
          have hle := Table.le_lastUsed hsorted hx
          omega
        have halike := insert_alike hi₁
        have hcongr : i₁.table.key = i.table.key ∧ i₁.table.autoIncrement = i.table.autoIncrement := by
          rw [halike]
          exact ⟨rfl, rfl⟩
        obtain ⟨es, hnum, hes, hused, hlast'⟩ := ih (by rw [hcongr.1, hkey])
          (by rw [hcongr.2, hauto]) hsorted₁ (fun c hc => hnull c (by simp [hc])) h
        rw [hlast₁, halike.convert_eq, hid] at hnum
        refine ⟨e :: es, .cons hid hcells hnum, ?_, ?_, fun _ => ?_⟩
        · rw [hes, hentries, List.reverse_cons, List.append_assoc]
          rfl
        · rw [hused, hlast₁, hid, List.length_cons]
          push_cast
          omega
        · cases rows with
          | nil =>
              obtain ⟨rfl, -⟩ := Prod.mk.inj h
              rw [hlast, hlast₁]
          | cons c rows => exact hlast' (by simp)
      · simp at h

/-- Rows with keys stand under these. -/
theorem insertAll_given {rows : List (List Storage)} (hkey : i.table.key = some key)
    (hgiven : ∀ cells ∈ rows, ∃ k : Int64, cells[key]? = some (.integer k))
    (h : i.insertAll rows = (i', none)) :
    ∃ es, List.Forall₂ (fun cells e => cells[key]? = some (.integer e.id) ∧
        e.cells = (i.table.convert cells).setIfInBounds key (.integer e.id)) rows es ∧
      i'.table.entries.Perm (es ++ i.table.entries) := by
  induction rows generalizing i with
  | nil =>
      obtain ⟨rfl, -⟩ := Prod.mk.inj h
      exact ⟨[], .nil, .refl _⟩
  | cons cells rows ih =>
      rw [insertAll] at h
      split at h
      · rename_i i₁ hi₁
        have halike := insert_alike hi₁
        obtain ⟨e, isGiven, hcomplete, -, -, -, hi₁⟩ := insert_ok hi₁
        have hcells := complete_ok hcomplete
        rw [hkey] at hcells
        obtain ⟨k, hk⟩ := hgiven cells (by simp)
        have hid : e.id = k := by
          unfold complete at hcomplete
          rw [hkey] at hcomplete
          dsimp only at hcomplete
          rw [hk] at hcomplete
          obtain ⟨rfl, -⟩ := Prod.mk.inj (Except.ok.inj hcomplete)
          rfl
        obtain ⟨es, hes, hperm⟩ := ih (by rw [hi₁]; exact hkey)
          (fun c hc => hgiven c (by simp [hc])) h
        rw [halike.convert_eq] at hes
        refine ⟨e :: es, .cons ⟨by rw [hk, hid], hcells⟩ hes, ?_⟩
        rw [hi₁] at hperm
        exact (hperm.trans ((Table.place_perm e _).append_left es)).trans List.perm_middle
      · simp at h

end Insertion

end Memory

end StagedStore
