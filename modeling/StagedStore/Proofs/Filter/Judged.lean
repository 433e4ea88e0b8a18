import StagedStore.Proofs.Filter.Evaluated
import StagedStore.Proofs.Sql.Clause

/-!
# Expressions as judgements of rows

What an expression gives for a row is taken as a truth value, whatever cell it is.  A clause that is
grouped from the left gives the same truth values as one that is grouped by its parts.
-/

namespace StagedStore

open Memory

namespace Storage

theorem conjoin_eq (a b : Storage) :
    a.conjoin b = (ofTruth a.truth?).conjoin (ofTruth b.truth?) := by
  simp only [conjoin, truth?_ofTruth]

theorem disjoin_eq (a b : Storage) :
    a.disjoin b = (ofTruth a.truth?).disjoin (ofTruth b.truth?) := by
  simp only [disjoin, truth?_ofTruth]

theorem conjoin_assoc (a b c : Storage) : (a.conjoin b).conjoin c = a.conjoin (b.conjoin c) := by
  unfold conjoin
  rcases a.truth? with _ | _ | _ <;> rcases b.truth? with _ | _ | _ <;>
    rcases c.truth? with _ | _ | _ <;> rfl

theorem disjoin_assoc (a b c : Storage) : (a.disjoin b).disjoin c = a.disjoin (b.disjoin c) := by
  unfold disjoin
  rcases a.truth? with _ | _ | _ <;> rcases b.truth? with _ | _ | _ <;>
    rcases c.truth? with _ | _ | _ <;> rfl

variable {a b : Storage} {vs : List Truth} {v : Truth}

theorem truth?_conjoin (ha : a.truth? = Truth.conjunction vs) (hb : b.truth? = v) :
    (a.conjoin b).truth? = Truth.conjunction (vs ++ [v]) := by
  rw [conjoin_eq, ha, hb, conjoin_ofTruth, truth?_ofTruth]

theorem truth?_disjoin (ha : a.truth? = Truth.disjunction vs) (hb : b.truth? = v) :
    (a.disjoin b).truth? = Truth.disjunction (vs ++ [v]) := by
  rw [disjoin_eq, ha, hb, disjoin_ofTruth, truth?_ofTruth]

end Storage

namespace Resolver

variable {r : Resolver} {t : Table} {x y z : Sql.Expr} {v w : Entry → Truth}

theorem resolve_and_ok {a : Resolved} (h : r.resolve (.and x y) = .ok a) :
    ∃ b c, r.resolve x = .ok b ∧ r.resolve y = .ok c ∧ a = ⟨.and b.term c.term, .none⟩ := by
  rw [resolve] at h
  obtain ⟨b, hb, h⟩ := Except.bind_eq_ok_iff.1 h
  obtain ⟨c, hc, h⟩ := Except.bind_eq_ok_iff.1 h
  exact ⟨b, c, hb, hc, (Except.ok.inj h).symm⟩

theorem resolve_or_ok {a : Resolved} (h : r.resolve (.or x y) = .ok a) :
    ∃ b c, r.resolve x = .ok b ∧ r.resolve y = .ok c ∧ a = ⟨.or b.term c.term, .none⟩ := by
  rw [resolve] at h
  obtain ⟨b, hb, h⟩ := Except.bind_eq_ok_iff.1 h
  obtain ⟨c, hc, h⟩ := Except.bind_eq_ok_iff.1 h
  exact ⟨b, c, hb, hc, (Except.ok.inj h).symm⟩

/-- Grouping a chain of one operator from the left changes nothing that it gives. -/
theorem resolve_regroups {a : Resolved} (h : x.Regroups y) (hy : r.resolve y = .ok a) :
    ∃ b, r.resolve x = .ok b ∧ ∀ row, b.term.eval row = a.term.eval row := by
  induction h generalizing a with
  | refl x => exact ⟨a, hy, fun _ => rfl⟩
  | and h ih =>
      obtain ⟨a', bc, ha, hbc, rfl⟩ := resolve_and_ok hy
      obtain ⟨b, c, hb, hc, rfl⟩ := resolve_and_ok hbc
      obtain ⟨x', hx, heval⟩ := ih (resolve_and ha hb)
      refine ⟨_, resolve_and hx hc, fun row => ?_⟩
      simp only [Term.eval, heval, Storage.conjoin_assoc]
  | or h ih =>
      obtain ⟨a', bc, ha, hbc, rfl⟩ := resolve_or_ok hy
      obtain ⟨b, c, hb, hc, rfl⟩ := resolve_or_ok hbc
      obtain ⟨x', hx, heval⟩ := ih (resolve_or ha hb)
      refine ⟨_, resolve_or hx hc, fun row => ?_⟩
      simp only [Term.eval, heval, Storage.disjoin_assoc]

/-- An expression is resolved, and what it gives for each row of a table counts as the truth value of
the row. -/
def Judges (r : Resolver) (t : Table) (x : Sql.Expr) (v : Entry → Truth) : Prop :=
  ∃ a, r.resolve x = .ok a ∧ ∀ e ∈ t.entries, (a.term.eval (Table.rowOf e)).truth? = v e

theorem judges_of_gives {source : String} (hslots : r.slots = t.slots source)
    (h : x.Gives t r.params v) : r.Judges t x v := by
  obtain ⟨a, ha, hv⟩ := h r source hslots rfl
  exact ⟨a, ha, fun e he => by rw [hv e he, Storage.truth?_ofTruth]⟩

theorem Judges.regroups (h : r.Judges t y v) (hx : x.Regroups y) : r.Judges t x v := by
  obtain ⟨a, ha, hv⟩ := h
  obtain ⟨b, hb, heval⟩ := resolve_regroups hx ha
  exact ⟨b, hb, fun e he => by rw [heval, hv e he]⟩

theorem Judges.paren (h : r.Judges t x v) : r.Judges t (.paren x) v := by
  obtain ⟨a, ha, hv⟩ := h
  exact ⟨a, by rw [resolve, ha], hv⟩

theorem Judges.not (h : r.Judges t x v) : r.Judges t (.not x) fun e => (v e).negate := by
  obtain ⟨a, ha, hv⟩ := h
  refine ⟨⟨.not a.term, .none⟩, by rw [resolve, ha]; rfl, fun e he => ?_⟩
  rw [Term.eval, Storage.negate, Storage.truth?_ofTruth, hv e he]
  rfl

variable {vs : Entry → List Truth}

theorem Judges.and (h : r.Judges t x fun e => Truth.conjunction (vs e)) (h' : r.Judges t y w) :
    r.Judges t (.and x y) fun e => Truth.conjunction (vs e ++ [w e]) := by
  obtain ⟨a, ha, hv⟩ := h
  obtain ⟨b, hb, hw⟩ := h'
  refine ⟨_, resolve_and ha hb, fun e he => ?_⟩
  rw [Term.eval, Storage.truth?_conjoin (hv e he) (hw e he)]

theorem Judges.or (h : r.Judges t x fun e => Truth.disjunction (vs e)) (h' : r.Judges t y w) :
    r.Judges t (.or x y) fun e => Truth.disjunction (vs e ++ [w e]) := by
  obtain ⟨a, ha, hv⟩ := h
  obtain ⟨b, hb, hw⟩ := h'
  refine ⟨_, resolve_or ha hb, fun e he => ?_⟩
  rw [Term.eval, Storage.truth?_disjoin (hv e he) (hw e he)]

end Resolver

end StagedStore
