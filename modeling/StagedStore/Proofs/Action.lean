import Mathlib.Data.List.Forall2
import StagedStore.Connection.Basic

/-!
# Runs of actions

How the run of an action follows from the runs of its parts.  The `iff` lemmas take a run apart, so
that a proof about a store can follow its statements one by one.
-/

theorem List.exists_forall₂ {α β : Type} {R : α → β → Prop} {xs : List α}
    (h : ∀ x ∈ xs, ∃ y, R x y) : ∃ ys, List.Forall₂ R xs ys := by
  induction xs with
  | nil => exact ⟨[], .nil⟩
  | cons x xs ih =>
      obtain ⟨y, hy⟩ := h x (by simp)
      obtain ⟨ys, hys⟩ := ih fun z hz => h z (by simp [hz])
      exact ⟨y :: ys, .cons hy hys⟩

theorem List.Forall₂.comp {α β γ : Type} {R : α → β → Prop} {S : β → γ → Prop} {xs : List α}
    {ys : List β} {zs : List γ} (h : List.Forall₂ R xs ys) (h' : List.Forall₂ S ys zs) :
    List.Forall₂ (fun x z => ∃ y ∈ ys, R x y ∧ S y z) xs zs := by
  induction h generalizing zs with
  | nil =>
      cases h'
      exact .nil
  | @cons x y xs ys hxy _ ih =>
      cases h' with
      | @cons _ z _ zs hyz hrest =>
          refine .cons ⟨y, List.mem_cons_self, hxy, hyz⟩ ((ih hrest).imp ?_)
          rintro x z ⟨y, hy, hpair⟩
          exact ⟨y, List.mem_cons_of_mem _ hy, hpair⟩

theorem List.Forall₂.map_eq_map {α β γ : Type} {f : α → γ} {g : β → γ} {xs : List α} {ys : List β}
    (h : List.Forall₂ (fun x y => f x = g y) xs ys) : xs.map f = ys.map g := by
  induction h with
  | nil => rfl
  | cons hxy _ ih => rw [List.map_cons, List.map_cons, hxy, ih]

theorem List.Forall₂.getElem?_right {α β : Type} {R : α → β → Prop} {xs : List α} {ys : List β}
    (h : List.Forall₂ R xs ys) {i : Nat} {x : α} (hx : xs[i]? = some x) :
    ∃ y, ys[i]? = some y ∧ R x y := by
  obtain ⟨hi, rfl⟩ := List.getElem?_eq_some_iff.1 hx
  have hi' : i < ys.length := h.length_eq ▸ hi
  exact ⟨ys[i], List.getElem?_eq_getElem hi', h.get hi hi'⟩

theorem List.Forall₂.getElem?_left {α β : Type} {R : α → β → Prop} {xs : List α} {ys : List β}
    (h : List.Forall₂ R xs ys) {i : Nat} {y : β} (hy : ys[i]? = some y) :
    ∃ x, xs[i]? = some x ∧ R x y := by
  obtain ⟨hi, rfl⟩ := List.getElem?_eq_some_iff.1 hy
  have hi' : i < xs.length := h.length_eq ▸ hi
  exact ⟨xs[i], List.getElem?_eq_getElem hi', h.get hi' hi⟩

theorem List.Forall₂.exists_left {α β : Type} {R : α → β → Prop} {xs : List α} {ys : List β}
    (h : List.Forall₂ R xs ys) {y : β} (hy : y ∈ ys) : ∃ x ∈ xs, R x y := by
  obtain ⟨i, hi⟩ := List.getElem?_of_mem hy
  obtain ⟨x, hx, hxy⟩ := h.getElem?_left hi
  exact ⟨x, List.mem_of_getElem? hx, hxy⟩

theorem List.Forall₂.exists_right {α β : Type} {R : α → β → Prop} {xs : List α} {ys : List β}
    (h : List.Forall₂ R xs ys) {x : α} (hx : x ∈ xs) : ∃ y ∈ ys, R x y := by
  obtain ⟨i, hi⟩ := List.getElem?_of_mem hx
  obtain ⟨y, hy, hxy⟩ := h.getElem?_right hi
  exact ⟨y, List.mem_of_getElem? hy, hxy⟩

namespace Except

variable {ε α β : Type}

@[simp] theorem throw_eq (e : ε) : (throw e : Except ε α) = .error e := rfl

@[simp] theorem pure_eq (a : α) : (pure a : Except ε α) = .ok a := rfl

@[simp] theorem error_bind (e : ε) (f : α → Except ε β) : (.error e >>= f) = .error e := rfl

@[simp] theorem ok_bind (a : α) (f : α → Except ε β) : (.ok a >>= f) = f a := rfl

theorem bind_eq_ok_iff {x : Except ε α} {f : α → Except ε β} {b : β} :
    (x >>= f) = .ok b ↔ ∃ a, x = .ok a ∧ f a = .ok b := by
  cases x with
  | error e => simp [bind, Except.bind]
  | ok a => simp [bind, Except.bind]

theorem bind_eq_error_iff {x : Except ε α} {f : α → Except ε β} {e : ε} :
    (x >>= f) = .error e ↔ x = .error e ∨ ∃ a, x = .ok a ∧ f a = .error e := by
  cases x with
  | error e' => simp [bind, Except.bind]
  | ok a => simp [bind, Except.bind]

/-- What every result of a computation has, if there is one. -/
def Ensures (x : Except ε α) (P : α → Prop) : Prop :=
  ∀ a, x = .ok a → P a

theorem ensures_ok {P : α → Prop} {a : α} (h : P a) : Ensures (.ok a : Except ε α) P := by
  rintro _ ⟨⟩
  exact h

theorem ensures_error {P : α → Prop} (e : ε) : Ensures (.error e : Except ε α) P := by
  rintro _ ⟨⟩

theorem ensures_bind {P : β → Prop} {x : Except ε α} {f : α → Except ε β}
    (h : ∀ a, x = .ok a → Ensures (f a) P) : Ensures (x >>= f) P := by
  intro b hb
  obtain ⟨a, ha, hb⟩ := bind_eq_ok_iff.1 hb
  exact h a ha b hb

theorem mapM_eq_ok {f : α → Except ε β} {xs : List α} {ys : List β}
    (h : List.Forall₂ (fun x y => f x = .ok y) xs ys) : xs.mapM f = .ok ys := by
  induction h with
  | nil => rfl
  | cons hx _ ih => rw [List.mapM_cons, hx, ih]; rfl

theorem mapM_eq_ok_iff {f : α → Except ε β} {xs : List α} {ys : List β} :
    xs.mapM f = .ok ys ↔ List.Forall₂ (fun x y => f x = .ok y) xs ys := by
  refine ⟨?_, mapM_eq_ok⟩
  induction xs generalizing ys with
  | nil =>
      intro h
      obtain rfl := Except.ok.inj h
      exact .nil
  | cons x xs ih =>
      intro h
      rw [List.mapM_cons] at h
      obtain ⟨y, hy, h⟩ := bind_eq_ok_iff.1 h
      obtain ⟨zs, hzs, h⟩ := bind_eq_ok_iff.1 h
      obtain rfl := Except.ok.inj h
      exact .cons hy (ih hzs)

/-- A computation for each of several things fails as one of them fails. -/
theorem mapM_eq_error {f : α → Except ε β} {xs : List α} {e : ε} (h : xs.mapM f = .error e) :
    ∃ x ∈ xs, f x = .error e := by
  induction xs with
  | nil => cases h
  | cons x xs ih =>
      rw [List.mapM_cons] at h
      rcases bind_eq_error_iff.1 h with hx | ⟨y, -, h⟩
      · exact ⟨x, List.mem_cons_self, hx⟩
      · rcases bind_eq_error_iff.1 h with hxs | ⟨ys, -, h⟩
        · obtain ⟨z, hz, he⟩ := ih hxs
          exact ⟨z, List.mem_cons_of_mem x hz, he⟩
        · cases h

/-- Where nothing is left out, what is taken over is what the elements give. -/
theorem filterMapM_map {γ : Type} {f : α → Except ε γ} {g : β → Except ε (Option γ)} {k : α → β}
    {xs : List α} (h : ∀ x ∈ xs, g (k x) = f x >>= fun y => .ok (some y)) :
    (xs.map k).filterMapM g = xs.mapM f := by
  induction xs with
  | nil => rfl
  | cons x xs ih =>
      obtain ⟨hx, hxs⟩ := List.forall_mem_cons.1 h
      rw [List.map_cons, List.filterMapM_cons, List.mapM_cons, hx, ih hxs]
      cases f x <;> rfl

theorem mapM_eq_ok_map {f : α → Except ε β} {g : α → β} {xs : List α}
    (h : ∀ x ∈ xs, f x = .ok (g x)) : xs.mapM f = .ok (xs.map g) := by
  refine mapM_eq_ok (List.forall₂_iff_get.2 ⟨(List.length_map ..).symm, ?_⟩)
  intro i hi hi'
  simpa using h _ (List.get_mem xs ⟨i, hi⟩)

theorem ensures_mapM {P : β → Prop} {f : α → Except ε β} (h : ∀ x, Ensures (f x) P) (xs : List α) :
    Ensures (xs.mapM f) fun ys => ∀ y ∈ ys, P y := by
  induction xs with
  | nil => exact ensures_ok (by simp)
  | cons x xs ih =>
      rw [List.mapM_cons]
      refine ensures_bind fun y hy => ensures_bind fun ys hys => ensures_ok ?_
      exact List.forall_mem_cons.2 ⟨h x y hy, ih ys hys⟩

/-- A computation for each of several things succeeds if each of them succeeds. -/
theorem exists_mapM_eq_ok {f : α → Except ε β} {xs : List α} (h : ∀ x ∈ xs, ∃ y, f x = .ok y) :
    ∃ ys, xs.mapM f = .ok ys := by
  obtain ⟨ys, hys⟩ := List.exists_forall₂ h
  exact ⟨ys, mapM_eq_ok hys⟩

theorem forM_eq_ok_iff {f : α → Except ε Unit} {xs : List α} :
    xs.forM f = .ok () ↔ ∀ x ∈ xs, f x = .ok () := by
  induction xs with
  | nil => simp
  | cons x xs ih =>
      change (f x >>= fun _ => xs.forM f) = .ok () ↔ _
      rw [bind_eq_ok_iff, List.forall_mem_cons, ← ih]
      constructor
      · rintro ⟨⟨⟩, hx, hxs⟩
        exact ⟨hx, hxs⟩
      · exact fun h => ⟨(), h⟩

end Except

namespace StagedStore

/-- What a step that may fail gives, and the state it leaves. -/
def outcome {ε σ α : Type} (f : ExceptT ε (StateM σ) α) (s : σ) : Except ε α × σ :=
  f.run s

namespace Action

variable {ε σ α β : Type}

theorem run_eq (f : ExceptT ε (StateM σ) α) (s : σ) : f.run s = outcome f s := rfl

@[simp] theorem outcome_pure (a : α) (s : σ) :
    outcome (pure a : ExceptT ε (StateM σ) α) s = (.ok a, s) := rfl

@[simp] theorem outcome_throw (e : ε) (s : σ) :
    outcome (throw e : ExceptT ε (StateM σ) α) s = (.error e, s) := rfl

@[simp] theorem outcome_ofExcept (r : Except Error α) (s : σ) :
    outcome (ofExcept r) s = (r, s) := rfl

@[simp] theorem outcome_get (s : σ) :
    outcome (get : ExceptT ε (StateM σ) σ) s = (.ok s, s) := rfl

@[simp] theorem outcome_modify (f : σ → σ) (s : σ) :
    outcome (modify f : ExceptT ε (StateM σ) Unit) s = (.ok (), f s) := rfl

theorem outcome_bind (f : ExceptT ε (StateM σ) α) (g : α → ExceptT ε (StateM σ) β) (s : σ) :
    outcome (f >>= g) s =
      match outcome f s with
      | (.ok a, s') => outcome (g a) s'
      | (.error e, s') => (.error e, s') := by
  unfold outcome ExceptT.run
  simp only [bind, ExceptT.bind, ExceptT.mk, StateT.bind, ExceptT.bindCont]
  change (match f s with | (a, s') => _ : Except ε β × σ) = _
  rcases f s with ⟨_ | a, s'⟩ <;> rfl

theorem outcome_bind_eq_ok_iff {f : ExceptT ε (StateM σ) α} {g : α → ExceptT ε (StateM σ) β}
    {s s' : σ} {b : β} :
    outcome (f >>= g) s = (.ok b, s') ↔
      ∃ a s₁, outcome f s = (.ok a, s₁) ∧ outcome (g a) s₁ = (.ok b, s') := by
  rw [outcome_bind]
  rcases outcome f s with ⟨_ | a, s₁⟩
  · simp
  · exact ⟨fun h => ⟨a, s₁, rfl, h⟩, by rintro ⟨_, _, ⟨⟩, h⟩; exact h⟩

theorem outcome_bind_eq_error_iff {f : ExceptT ε (StateM σ) α}
    {g : α → ExceptT ε (StateM σ) β} {s s' : σ} {e : ε} :
    outcome (f >>= g) s = (.error e, s') ↔
      outcome f s = (.error e, s') ∨
        ∃ a s₁, outcome f s = (.ok a, s₁) ∧ outcome (g a) s₁ = (.error e, s') := by
  rw [outcome_bind]
  rcases outcome f s with ⟨_ | a, s₁⟩
  · simp
  · constructor
    · exact fun h => .inr ⟨a, s₁, rfl, h⟩
    · rintro (⟨⟨⟩⟩ | ⟨_, _, ⟨⟩, h⟩)
      exact h

/-- What every result of an action has, whatever the state. -/
def Ensures (f : ExceptT ε (StateM σ) α) (P : α → Prop) : Prop :=
  ∀ s a s', outcome f s = (.ok a, s') → P a

theorem ensures_pure {P : α → Prop} {a : α} (h : P a) :
    Ensures (pure a : ExceptT ε (StateM σ) α) P := by
  rintro s _ _ ⟨⟩
  exact h

theorem ensures_ofExcept {P : α → Prop} {r : Except Error α} (h : r.Ensures P) :
    Ensures (ofExcept r : Action σ α) P := by
  intro s a s' hrun
  exact h a (Prod.mk.inj hrun).1

theorem ensures_bind {P : β → Prop} {f : ExceptT ε (StateM σ) α}
    {g : α → ExceptT ε (StateM σ) β} (h : ∀ a, Ensures (g a) P) : Ensures (f >>= g) P := by
  intro s b s' hrun
  obtain ⟨a, s₁, -, hrun⟩ := outcome_bind_eq_ok_iff.1 hrun
  exact h a s₁ b s' hrun

theorem Ensures.bind {P : α → Prop} {Q : β → Prop} {f : ExceptT ε (StateM σ) α}
    {g : α → ExceptT ε (StateM σ) β} (hf : Ensures f P) (hg : ∀ a, P a → Ensures (g a) Q) :
    Ensures (f >>= g) Q := by
  intro s b s' hrun
  obtain ⟨a, s₁, ha, hrun⟩ := outcome_bind_eq_ok_iff.1 hrun
  exact hg a (hf s a s₁ ha) s₁ b s' hrun

theorem ensures_mapM {R : α → β → Prop} {f : α → ExceptT ε (StateM σ) β}
    (h : ∀ x, Ensures (f x) (R x)) (xs : List α) : Ensures (xs.mapM f) (List.Forall₂ R xs) := by
  induction xs with
  | nil => exact ensures_pure .nil
  | cons x xs ih =>
      rw [List.mapM_cons]
      exact (h x).bind fun y hy => ih.bind fun ys hys => ensures_pure (.cons hy hys)

end Action

/-! ## Two runs -/

section Agree

variable {ε σ α β : Type} {P Q : σ → σ → Prop} {x y : Except ε α × σ}

/-- Two runs give the same, and their states are related: by `P` where they succeed, by `Q` where
they fail. -/
inductive Agree (P Q : σ → σ → Prop) : Except ε α × σ → Except ε α × σ → Prop
  | ok (a : α) {s s' : σ} (h : P s s') : Agree P Q (.ok a, s) (.ok a, s')
  | error (e : ε) {s s' : σ} (h : Q s s') : Agree P Q (.error e, s) (.error e, s')

theorem Agree.cases (h : Agree P Q x y) :
    (∃ a s s', x = (.ok a, s) ∧ y = (.ok a, s') ∧ P s s') ∨
      ∃ e s s', x = (.error e, s) ∧ y = (.error e, s') ∧ Q s s' := by
  cases h with
  | ok a h => exact .inl ⟨a, _, _, rfl, rfl, h⟩
  | error e h => exact .inr ⟨e, _, _, rfl, rfl, h⟩

theorem Agree.fst_eq (h : Agree P Q x y) : x.1 = y.1 := by
  cases h <;> rfl

theorem Agree.snd (h : Agree P P x y) : P x.2 y.2 := by
  cases h <;> assumption

theorem agree_of_eq {r : Except ε α} {s s' : σ} (h : P s s') : Agree P P (r, s) (r, s') := by
  cases r with
  | ok a => exact .ok a h
  | error e => exact .error e h

theorem Agree.bind {R : σ → σ → Prop} {f : ExceptT ε (StateM σ) α}
    {g : α → ExceptT ε (StateM σ) β} {s s' : σ} (hf : Agree R Q (outcome f s) (outcome f s'))
    (hg : ∀ a s s', R s s' → Agree P Q (outcome (g a) s) (outcome (g a) s')) :
    Agree P Q (outcome (f >>= g) s) (outcome (f >>= g) s') := by
  rw [Action.outcome_bind, Action.outcome_bind]
  obtain ⟨a, s₁, s₁', hs, hs', h⟩ | ⟨e, s₁, s₁', hs, hs', h⟩ := hf.cases
  · rw [hs, hs']
    exact hg a s₁ s₁' h
  · rw [hs, hs']
    exact .error e h

end Agree

end StagedStore
