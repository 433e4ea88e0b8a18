import StagedStore.Memory.Resolve
import StagedStore.Proofs.Action
import StagedStore.Proofs.Sql.Renumbered

/-!
# Parameters under other numbers, resolved

An expression whose parameters have other numbers means the same where these numbers have the same
values.
-/

namespace StagedStore.Resolver

variable {r : Resolver} {q : Array Storage} {f : Nat → Nat}

mutual

theorem resolve_renumber (h : ∀ n, r.param (f n) = param { r with params := q } n)
    (x : Sql.Expr) : r.resolve (x.renumber f) = resolve { r with params := q } x := by
  cases x with
  | param n =>
      cases n with
      | none => rfl
      | some n =>
          change Except.ok (Resolved.mk (.cell (r.param (f n))) .none) = _
          rw [h, resolve]
  | paren e => exact resolve_renumber h e
  | not e => rw [Sql.Expr.renumber, resolve, resolve, resolve_renumber h e]
  | nullCheck b e => rw [Sql.Expr.renumber, resolve, resolve, resolve_renumber h e]
  | add a b =>
      rw [Sql.Expr.renumber, resolve, resolve, resolve_renumber h a, resolve_renumber h b]
  | compare op a b =>
      rw [Sql.Expr.renumber, resolve, resolve, resolve_renumber h a, resolve_renumber h b]
  | like n a b =>
      rw [Sql.Expr.renumber, resolve, resolve, resolve_renumber h a, resolve_renumber h b]
  | and a b =>
      rw [Sql.Expr.renumber, resolve, resolve, resolve_renumber h a, resolve_renumber h b]
  | or a b =>
      rw [Sql.Expr.renumber, resolve, resolve, resolve_renumber h a, resolve_renumber h b]
  | between n a l u =>
      rw [Sql.Expr.renumber, resolve, resolve, resolve_renumber h a, resolve_renumber h l,
        resolve_renumber h u]
  | inList n a ms =>
      rw [Sql.Expr.renumber, resolve, resolve, resolve_renumber h a, resolveAll_renumber h ms]
  | inTable n a c t =>
      rw [Sql.Expr.renumber, resolve, resolve, resolve_renumber h a]
  | choose arms e =>
      rw [Sql.Expr.renumber, resolve, resolve, resolve_renumber h e, resolveArms_renumber h arms]
  | call g args =>
      rw [Sql.Expr.renumber, resolve, resolve, Sql.Expr.renumberAll_eq, List.isEmpty_map]
  | _ => rfl

theorem resolveAll_renumber (h : ∀ n, r.param (f n) = param { r with params := q } n)
    (es : List Sql.Expr) :
    r.resolveAll (Sql.Expr.renumberAll f es) = resolveAll { r with params := q } es := by
  cases es with
  | nil => rfl
  | cons e es =>
      rw [Sql.Expr.renumberAll, resolveAll, resolveAll, resolve_renumber h e,
        resolveAll_renumber h es]

theorem resolveArms_renumber (h : ∀ n, r.param (f n) = param { r with params := q } n)
    (arms : List (Sql.Expr × Sql.Expr)) :
    r.resolveArms (Sql.Expr.renumberArms f arms) = resolveArms { r with params := q } arms := by
  match arms with
  | [] => rfl
  | (c, e) :: arms =>
      rw [Sql.Expr.renumberArms, resolveArms, resolveArms, resolve_renumber h c,
        resolve_renumber h e, resolveArms_renumber h arms]

end

end StagedStore.Resolver
