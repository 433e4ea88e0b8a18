import StagedStore.Proofs.Filter.Built
import StagedStore.Proofs.Memory.Cells
import StagedStore.Proofs.Schema.Fields

/-!
# What conditions say

A condition is true of a row, false of it, or unknown. `Condition.verdict` reads this off the tree
alone: members of groups in which no test stands are left out, a list is the alternative of its
equalities, and a test compares as the store does.
-/

namespace StagedStore

open Memory

/-- True or false; unknown without a value. -/
abbrev Truth := Option Bool

namespace Truth

def negate (v : Truth) : Truth :=
  v.map not

def negateIf (negated : Bool) (v : Truth) : Truth :=
  if negated then v.negate else v

/-- False if one is false, else unknown if one is unknown. -/
def conjunction (vs : List Truth) : Truth :=
  if vs.contains (some false) then some false
  else if vs.contains none then none
  else some true

/-- True if one is true, else unknown if one is unknown. -/
def disjunction (vs : List Truth) : Truth :=
  if vs.contains (some true) then some true
  else if vs.contains none then none
  else some false

@[simp] theorem conjunction_singleton (v : Truth) : conjunction [v] = v := by
  rcases v with _ | _ | _ <;> rfl

@[simp] theorem disjunction_singleton (v : Truth) : disjunction [v] = v := by
  rcases v with _ | _ | _ <;> rfl

end Truth

/-! ## Cells that are truth values -/

namespace Storage

@[simp] theorem truth?_ofTruth (v : Truth) : (ofTruth v).truth? = v := by
  rcases v with _ | _ | _ <;> rfl

theorem negate_ofTruth (v : Truth) : (ofTruth v).negate = ofTruth v.negate := by
  rw [negate, truth?_ofTruth, Truth.negate]

theorem conjoin_ofTruth (vs : List Truth) (v : Truth) :
    (ofTruth (Truth.conjunction vs)).conjoin (ofTruth v) = ofTruth (Truth.conjunction (vs ++ [v])) := by
  simp only [conjoin, truth?_ofTruth, Truth.conjunction, List.contains_append]
  cases vs.contains (some false) <;> cases vs.contains none <;> rcases v with _ | _ | _ <;> rfl

theorem disjoin_ofTruth (vs : List Truth) (v : Truth) :
    (ofTruth (Truth.disjunction vs)).disjoin (ofTruth v) = ofTruth (Truth.disjunction (vs ++ [v])) := by
  simp only [disjoin, truth?_ofTruth, Truth.disjunction, List.contains_append]
  cases vs.contains (some true) <;> cases vs.contains none <;> rcases v with _ | _ | _ <;> rfl

theorem ofTruth_compareBy (op : Sql.Comparison) (f : Affinity) (a b : Storage) :
    ofTruth (a.compareBy op f b).truth? = a.compareBy op f b := by
  unfold compareBy
  split
  · rfl
  · exact congrArg ofTruth (truth?_ofTruth (some _))

theorem ofTruth_like (a p : Storage) : ofTruth (a.like p).truth? = a.like p := by
  unfold like
  split
  · exact congrArg ofTruth (truth?_ofTruth (some _))
  · rfl

end Storage

/-! ## Lists of cells -/

namespace Storage

/-- Whether two cells are equal as a column of an affinity compares them. -/
def equals (f : Affinity) (a b : Storage) : Truth :=
  (a.compareBy .eq f b).truth?

theorem isNull_forMember (f : Affinity) (v : Storage) : (f.forMember v).isNull = v.isNull := by
  unfold Affinity.forMember
  split
  · exact v.isNull_textToNumber
  · split <;> cases v <;> rfl

theorem cmp_eq_iff_normal_eq {a b : Storage} : a.cmp b = .eq ↔ a.normal = b.normal :=
  ⟨normal_eq_of_cmp_eq, cmp_eq_of_normal_eq⟩

/-- A cell as its column keeps it is compared as a member of a list is, but for a blob in a column
of texts, which is compared with a number as it is. -/
theorem unify_eq_or {f : Affinity} {a : Storage} (ha : f.store a = a) (hnull : a.isNull = false)
    (b : Storage) : f.unify a b = (f.forMember a, f.forMember b) ∨
      (f.unify a b).1.cmp (f.unify a b).2 ≠ .eq ∧
        (f.forMember a).normal ≠ (f.forMember b).normal := by
  cases f with
  | text =>
      cases a with
      | null => simp [isNull] at hnull
      | integer n => simp [Affinity.store, numberToText] at ha
      | real x => simp [Affinity.store, numberToText] at ha
      | text t => exact .inl rfl
      | blob bytes =>
          cases b with
          | integer n => exact .inr ⟨by simp [Affinity.unify, Affinity.isNumeric, isText, cmp, rank,
              compare, compareOfLessAndEq], by simp [Affinity.forMember, Affinity.isNumeric, normal,
              numberToText]⟩
          | real x => exact .inr ⟨by simp [Affinity.unify, Affinity.isNumeric, isText, cmp, rank,
              compare, compareOfLessAndEq], by simp [Affinity.forMember, Affinity.isNumeric, normal,
              numberToText]⟩
          | _ => exact .inl rfl
  | _ => exact .inl rfl

/-- A cell as its column keeps it equals another if they have one form as members of a list. -/
theorem equals_eq {f : Affinity} {a b : Storage} (ha : f.store a = a) :
    equals f a b = if a.isNull || b.isNull then none
      else some (decide ((f.forMember a).normal = (f.forMember b).normal)) := by
  unfold equals compareBy
  split
  · rfl
  · rename_i hnull
    have hnull : a.isNull = false ∧ b.isNull = false := by simpa using hnull
    have hiff : (f.unify a b).1.cmp (f.unify a b).2 = .eq ↔
        (f.forMember a).normal = (f.forMember b).normal := by
      rcases unify_eq_or ha hnull.1 b with h | ⟨h, h'⟩
      · rw [h, cmp_eq_iff_normal_eq]
      · exact iff_of_false h h'
    have haccepts (o : Ordering) : Sql.Comparison.eq.accepts o = decide (o = .eq) := by
      cases o <;> rfl
    refine (truth?_ofTruth (some _)).trans (congrArg some ?_)
    exact (haccepts _).trans (decide_eq_decide.2 hiff)

end Storage

namespace CellSet

theorem hasNull_ofList {f : Affinity} {vs : List Storage} :
    (ofList f vs).hasNull = vs.any Storage.isNull := by
  have hfold (s : CellSet) : (vs.foldl (fun s v => s.insert (f.forMember v)) s).hasNull =
      (s.hasNull || vs.any Storage.isNull) := by
    induction vs generalizing s with
    | nil => simp
    | cons v vs ih =>
        rw [List.foldl_cons, ih, List.any_cons, insert, Storage.isNull_forMember]
        cases v.isNull <;> simp
  exact (hfold empty).trans (Bool.false_or _)

theorem isEmpty_cells_ofList {f : Affinity} {vs : List Storage} :
    (ofList f vs).cells.isEmpty = vs.all Storage.isNull := by
  have hfold (s : CellSet) : (vs.foldl (fun s v => s.insert (f.forMember v)) s).cells.isEmpty =
      (s.cells.isEmpty && vs.all Storage.isNull) := by
    induction vs generalizing s with
    | nil => simp
    | cons v vs ih =>
        rw [List.foldl_cons, ih, List.all_cons, insert, Storage.isNull_forMember]
        cases v.isNull <;> simp
  exact (hfold empty).trans (by simp [empty])

/-- Being in a list is being equal to one of its cells. -/
theorem member_ofList {f : Affinity} {vs : List Storage} {v : Storage} (hv : f.store v = v) :
    (ofList f vs).member f v = .ofTruth (Truth.disjunction (vs.map (v.equals f))) := by
  cases vs with
  | nil => simp [member, isEmpty_cells_ofList, hasNull_ofList, Truth.disjunction, Storage.ofTruth]
  | cons w ws =>
      have hfound : ((w :: ws).map (v.equals f)).contains (some true) =
          (!v.isNull && (ofList f (w :: ws)).cells.contains (f.forMember v).normal) := by
        rw [Bool.eq_iff_iff, Bool.and_eq_true, contains_ofList]
        simp only [List.contains_iff_mem, List.mem_map, Storage.equals_eq hv,
          Storage.isNull_forMember, @eq_comm _ (f.forMember v).normal]
        cases v.isNull <;> simp
      have hunknown : ((w :: ws).map (v.equals f)).contains none =
          (v.isNull || (w :: ws).any Storage.isNull) := by
        rw [Bool.eq_iff_iff]
        simp only [List.contains_iff_mem, List.mem_map, Storage.equals_eq hv]
        cases v.isNull <;> simp
      have hsome : ((w :: ws).all Storage.isNull && !(w :: ws).any Storage.isNull) = false := by
        cases hw : w.isNull <;> simp [hw]
      rw [member, Truth.disjunction, hfound, hunknown, isEmpty_cells_ofList, hasNull_ofList, hsome]
      cases v.isNull <;> cases (ofList f (w :: ws)).cells.contains (f.forMember v).normal <;>
        cases (w :: ws).any Storage.isNull <;> rfl

end CellSet

/-! ## Conditions -/

/-- The affinity of the column of a field. -/
def Schema.fieldAffinity (s : Schema) (name : String) : Affinity :=
  ((s.field? name).map Field.affinity).getD .none

/-- A value as the store is given it. -/
def Value.boundCell (v : Value) : Storage :=
  v.toStorage.bound

/-- The outcome of a test of a cell, compared with an operand under an affinity. -/
def TestOp.verdict (op : TestOp) (f : Affinity) (cell operand : Storage) : Truth :=
  match op with
  | .eq => cell.equals f operand
  | .ne => (cell.compareBy .ne f operand).truth?
  | .gt => (cell.compareBy .gt f operand).truth?
  | .ge => (cell.compareBy .ge f operand).truth?
  | .lt => (cell.compareBy .lt f operand).truth?
  | .le => (cell.compareBy .le f operand).truth?
  | .like => (cell.like operand).truth?
  | .notLike => Truth.negate (cell.like operand).truth?

namespace Condition

mutual

/-- Whether a condition without text of the caller's own is true of a row. -/
def verdict (s : Schema) (e : Entry) : Condition → Truth
  | .all cs => Truth.conjunction (verdicts s e cs)
  | .any cs => Truth.disjunction (verdicts s e cs)
  | .not c => (verdict s e c).negate
  | .test column op v => op.verdict (s.fieldAffinity column) (s.fieldCell column e) v.boundCell
  | .null column negated => Truth.negateIf negated (some (s.fieldCell column e).isNull)
  | .member column values negated =>
    Truth.negateIf negated (Truth.disjunction (values.map fun v =>
      TestOp.eq.verdict (s.fieldAffinity column) (s.fieldCell column e) v.boundCell))
  | .between column low high negated =>
    Truth.negateIf negated (Truth.conjunction
      [TestOp.ge.verdict (s.fieldAffinity column) (s.fieldCell column e) low.boundCell,
        TestOp.le.verdict (s.fieldAffinity column) (s.fieldCell column e) high.boundCell])
  | .template _ _ | .raw _ => none
  | .always => some true
  | .never => some false

/-- The verdicts of the members of a group in which a test stands. -/
def verdicts (s : Schema) (e : Entry) : List Condition → List Truth
  | [] => []
  | c :: cs => if c.isEmpty then verdicts s e cs else verdict s e c :: verdicts s e cs

end

theorem verdicts_eq (s : Schema) (e : Entry) (cs : List Condition) :
    verdicts s e cs = (cs.filter fun c => !c.isEmpty).map (verdict s e) := by
  induction cs with
  | nil => rfl
  | cons c cs ih =>
      rw [verdicts, ih]
      cases hc : c.isEmpty <;> simp [hc]

end Condition

end StagedStore
