import Mathlib.Data.List.Forall2
import StagedStore.Memory.Query

/-!
# Binding

Building a part of a statement only adds parameters behind those already bound.  So a parameter that
was bound early means the same value under the parameters of the whole statement; `Binds` says what
a part means under them.
-/

namespace StagedStore.Sql

variable {α β : Type}

/-- Parameters that begin with others. -/
def Params.Extends (p q : Params) : Prop :=
  ∀ (i : Nat) (v : Storage), p[i]? = some v → q[i]? = some v

theorem Params.Extends.refl (p : Params) : p.Extends p :=
  fun _ _ h => h

theorem Params.Extends.trans {p q r : Params} (h : p.Extends q) (h' : q.Extends r) : p.Extends r :=
  fun i v hi => h' i v (h i v hi)

theorem Params.extends_push (p : Params) (v : Storage) : p.Extends (p.push v) := by
  intro i w h
  have hlt : i < p.size := (Array.getElem?_eq_some_iff.1 h).1
  rw [Array.getElem?_push, if_neg (by omega)]
  exact h

/-- Whatever is bound before and behind, what is built means `P` under the parameters of the whole
statement. -/
def Binds (b : Binding α) (P : Params → α → Prop) : Prop :=
  ∀ p : Params, p.Extends (b p).2 ∧ ∀ q, (b p).2.Extends q → P q (b p).1

theorem binds_pure {P : Params → α → Prop} {a : α} (h : ∀ q, P q a) : Binds (pure a) P :=
  fun p => ⟨.refl p, fun q _ => h q⟩

theorem Binds.imp {b : Binding α} {P Q : Params → α → Prop} (hb : Binds b P)
    (h : ∀ q a, P q a → Q q a) : Binds b Q :=
  fun p => ⟨(hb p).1, fun q hq => h q _ ((hb p).2 q hq)⟩

theorem binds_bind {b : Binding α} {f : α → Binding β} {P : Params → α → Prop}
    {Q : Params → β → Prop} (hb : Binds b P)
    (hf : ∀ a, Binds (f a) fun q x => P q a → Q q x) : Binds (b >>= f) Q := by
  intro p
  obtain ⟨hext, hP⟩ := hb p
  obtain ⟨hext', hQ⟩ := hf (b p).1 (b p).2
  exact ⟨hext.trans hext', fun q hq => hQ q hq (hP q (hext'.trans hq))⟩

theorem binds_map {b : Binding α} {g : α → β} {P : Params → α → Prop} {Q : Params → β → Prop}
    (hb : Binds b P) (hg : ∀ q a, P q a → Q q (g a)) : Binds (return g (← b)) Q :=
  binds_bind hb fun a => binds_pure fun q => hg q a

/-- The value of a parameter. -/
def paramValue (q : Params) (n : Nat) : Storage :=
  ((q[n - 1]?).getD .null).bound

/-- A bound value is a parameter with that value. -/
theorem binds_bindValue (v : Storage) :
    Binds (bind v) fun q e => ∃ n, e = .param (some n) ∧ paramValue q n = v.bound := by
  intro p
  refine ⟨p.extends_push v, fun q hq => ⟨p.size + 1, rfl, ?_⟩⟩
  have hv : q[p.size]? = some v := hq p.size v (by simp [bind])
  rw [paramValue, Nat.add_sub_cancel, hv, Option.getD_some]

/-- Parameters, by their numbers. -/
theorem exists_numbers {P : α → Nat → Prop} {vs : List α} {es : List Expr}
    (h : List.Forall₂ (fun v x => ∃ n, x = .param (some n) ∧ P v n) vs es) :
    ∃ ns : List Nat, ns.length = vs.length ∧ es = ns.map fun n => .param (some n) := by
  induction h with
  | nil => exact ⟨[], rfl, rfl⟩
  | cons hx _ ih =>
      obtain ⟨n, rfl, -⟩ := hx
      obtain ⟨ns, hlen, rfl⟩ := ih
      exact ⟨n :: ns, by rw [List.length_cons, hlen, List.length_cons], rfl⟩

theorem binds_mapM {γ : Type} {f : γ → Binding α} {P : γ → Params → α → Prop} {xs : List γ}
    (h : ∀ x ∈ xs, Binds (f x) (P x)) :
    Binds (xs.mapM f) fun q ys => List.Forall₂ (fun x y => P x q y) xs ys := by
  induction xs with
  | nil => exact binds_pure fun _ => .nil
  | cons x xs ih =>
      rw [List.mapM_cons]
      refine binds_bind (h x (by simp)) fun y => ?_
      refine binds_bind (ih fun z hz => h z (by simp [hz])) fun ys => binds_pure fun q => ?_
      exact fun hys hy => .cons hy hys

end StagedStore.Sql
