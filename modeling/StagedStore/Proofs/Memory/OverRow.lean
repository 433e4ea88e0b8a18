import StagedStore.Proofs.Action
import StagedStore.Proofs.Memory.Names
import StagedStore.Proofs.Sql.Clause

/-!
# Expressions over a row

What an expression over a row means depends on the places in scope and on the parameters. Neither
the rest of the database nor results with the names of columns matter to it.
-/

namespace StagedStore.Resolver

/-- Results have the names of columns in scope only, so they are never meant. -/
def Shadowed (r : Resolver) : Prop :=
  ∀ k a, r.aliases.lookup k = some a → ∃ s ∈ r.slots, s.key = k ∧ s.isHidden = false

variable {r r' : Resolver}

theorem ne_nil_of_placesFrom {p : Slot → Bool} {i : Nat} {slots : List Slot} {s : Slot}
    (hs : s ∈ slots) (hp : p s = true) : placesFrom p i slots ≠ [] := by
  induction slots generalizing i with
  | nil => simp at hs
  | cons x slots ih =>
      rw [placesFrom]
      rcases List.mem_cons.1 hs with rfl | hs
      · simp [hp]
      · split
        · simp
        · exact ih hs

/-- A name that means no place is no result's name either. -/
theorem lookup_eq_none (h : r.Shadowed) {name : String} (hplace : r.place? none name = .ok none) :
    r.aliases.lookup (foldName name) = none := by
  cases ha : r.aliases.lookup (foldName name) with
  | none => rfl
  | some a =>
      obtain ⟨s, hs, hkey, hvisible⟩ := h _ a ha
      have hne : placesFrom (fun s => s.key = foldName name && !s.isHidden && inSource none s) 0
          r.slots ≠ [] :=
        ne_nil_of_placesFrom hs (by simp [hkey, hvisible, inSource])
      unfold place? at hplace
      simp only [Option.map_none] at hplace
      split at hplace
      · simp at hplace
      · simp at hplace
      · rename_i hnil
        exact absurd hnil hne

/-- The same places in scope and the same parameters, and results that are never meant. -/
structure Alike (r r' : Resolver) : Prop where
  slots : r.slots = r'.slots
  params : r.params = r'.params
  shadowed : r.Shadowed
  shadowed' : r'.Shadowed

theorem resolveName_alike (h : r.Alike r') (q : Option Part) (name : Part) :
    r.resolveName q name = r'.resolveName q name := by
  have hplace : r.place? q name.name = r'.place? q name.name := by
    unfold place?
    rw [h.slots]
  unfold resolveName
  rw [hplace]
  cases hp : r'.place? q name.name with
  | error f => rfl
  | ok p =>
      cases p with
      | some p => rfl
      | none =>
          cases q with
          | some q => rfl
          | none =>
              rw [Except.ok_bind, Except.ok_bind]
              dsimp only
              rw [lookup_eq_none h.shadowed (hplace.trans hp), lookup_eq_none h.shadowed' hp]

mutual

theorem resolve_alike (h : r.Alike r') (x : Sql.Expr) (hx : x.overRow = true) :
    r.resolve x = r'.resolve x := by
  cases x with
  | literal v => rfl
  | param n =>
      cases n with
      | none => rfl
      | some n => rw [resolve, resolve, param, param, h.params]
  | column q n => exact resolveName_alike h q n
  | paren e => exact resolve_alike h e hx
  | not e => rw [resolve, resolve, resolve_alike h e hx]
  | nullCheck b e => rw [resolve, resolve, resolve_alike h e hx]
  | add a b =>
      obtain ⟨ha, hb⟩ := Bool.and_eq_true_iff.1 hx
      rw [resolve, resolve, resolve_alike h a ha, resolve_alike h b hb]
  | compare op a b =>
      obtain ⟨ha, hb⟩ := Bool.and_eq_true_iff.1 hx
      rw [resolve, resolve, resolve_alike h a ha, resolve_alike h b hb]
  | like n a b =>
      obtain ⟨ha, hb⟩ := Bool.and_eq_true_iff.1 hx
      rw [resolve, resolve, resolve_alike h a ha, resolve_alike h b hb]
  | and a b =>
      obtain ⟨ha, hb⟩ := Bool.and_eq_true_iff.1 hx
      rw [resolve, resolve, resolve_alike h a ha, resolve_alike h b hb]
  | or a b =>
      obtain ⟨ha, hb⟩ := Bool.and_eq_true_iff.1 hx
      rw [resolve, resolve, resolve_alike h a ha, resolve_alike h b hb]
  | between n a l u =>
      obtain ⟨hal, hu⟩ := Bool.and_eq_true_iff.1 hx
      obtain ⟨ha, hl⟩ := Bool.and_eq_true_iff.1 hal
      rw [resolve, resolve, resolve_alike h a ha, resolve_alike h l hl, resolve_alike h u hu]
  | inList n a ms =>
      obtain ⟨ha, hms⟩ := Bool.and_eq_true_iff.1 hx
      rw [resolve, resolve, resolve_alike h a ha, resolveAll_alike h ms hms]
  | choose arms e =>
      obtain ⟨harms, he⟩ := Bool.and_eq_true_iff.1 hx
      rw [resolve, resolve, resolve_alike h e he, resolveArms_alike h arms harms]
  | _ => simp [Sql.Expr.overRow] at hx

theorem resolveAll_alike (h : r.Alike r') (es : List Sql.Expr)
    (hes : Sql.Expr.overRowAll es = true) : r.resolveAll es = r'.resolveAll es := by
  cases es with
  | nil => rfl
  | cons e es =>
      obtain ⟨he, hes⟩ := Bool.and_eq_true_iff.1 hes
      rw [resolveAll, resolveAll, resolve_alike h e he, resolveAll_alike h es hes]

theorem resolveArms_alike (h : r.Alike r') (arms : List (Sql.Expr × Sql.Expr))
    (harms : Sql.Expr.overRowArms arms = true) : r.resolveArms arms = r'.resolveArms arms := by
  match arms with
  | [] => rfl
  | (c, e) :: arms =>
      obtain ⟨hce, harms⟩ := Bool.and_eq_true_iff.1 harms
      obtain ⟨hc, he⟩ := Bool.and_eq_true_iff.1 hce
      rw [resolveArms, resolveArms, resolve_alike h c hc, resolve_alike h e he,
        resolveArms_alike h arms harms]

end

end StagedStore.Resolver
