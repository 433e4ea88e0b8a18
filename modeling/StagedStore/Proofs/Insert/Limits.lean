import Mathlib.Algebra.Group.Int.Defs
import StagedStore.Proofs.Insert.Entities

/-!
# Keys at the limits

The first key of a batch is computed from the last one in two steps.  Next to an end of the range of
integers a step can leave it although every key lies inside: `AtLimit` says where.  Everywhere else
the keys of a batch are exactly those that end at the last one, and entities get them in order.
-/

namespace StagedStore

open Memory

variable {ε δ : Type} {last : Int64} {count : Nat}

/-- Every key of a batch that ends at the last one is an integer of 64 bits. -/
def KeysFit (last : Int64) (count : Nat) : Prop :=
  ∀ n : Int, last.toInt - count < n → n ≤ last.toInt →
    Int64.minValue.toInt ≤ n ∧ n ≤ Int64.maxValue.toInt

/-- A step to the first key of a batch leaves the range: the batch is empty behind the largest
integer, it starts at the smallest one, or its count has more than 63 bits. -/
def AtLimit (last : Int64) (count : Nat) : Prop :=
  (count = 0 ∧ last = Int64.maxValue) ∨ last.toInt - count + 1 = Int64.minValue.toInt ∨
    2 ^ 63 ≤ count

instance (last : Int64) (count : Nat) : Decidable (AtLimit last count) :=
  inferInstanceAs (Decidable (_ ∨ _ ∨ _))

/-! ## The first key -/

theorem keysFit_iff :
    KeysFit last count ↔ count = 0 ∨ Int64.minValue.toInt ≤ last.toInt - count + 1 := by
  constructor
  · intro h
    rcases Nat.eq_zero_or_pos count with hzero | hpos
    · exact .inl hzero
    · exact .inr (h _ (by omega) (by omega)).1
  · intro h n hlt hle
    have hmax := Int64.toInt_le last
    omega

theorem exists_toInt_eq {n : Int} (hmin : Int64.minValue.toInt ≤ n)
    (hmax : n ≤ Int64.maxValue.toInt) : ∃ k : Int64, k.toInt = n := by
  rw [Int64.toInt_minValue] at hmin
  rw [Int64.toInt_maxValue] at hmax
  exact ⟨.ofInt n, Int64.toInt_ofInt_of_le hmin (by omega)⟩

/-- A count of 64 bits that does not have 63 is negative once it is cut. -/
theorem toInt_ofNat_of_ge (hwide : 2 ^ 63 ≤ count) (hle : count ≤ 2 ^ 64) :
    (Int64.ofNat count).toInt = count - 2 ^ 64 := by
  have hsize : Int64.size = 2 ^ 64 := rfl
  rw [Int64.toInt_ofNat', hsize, Int.bmod_def]
  omega

theorem firstKey?_eq_none_of_atLimit (hfit : KeysFit last count) (h : AtLimit last count) :
    firstKey? last count = none := by
  refine Option.eq_none_iff_forall_ne_some.2 fun first hfirst => ?_
  obtain ⟨before, hbefore, hstep⟩ := firstKey?_eq_some_iff.1 hfirst
  have hmin := Int64.minValue_le_toInt before
  have hmax := Int64.toInt_le first
  have hlast := Int64.toInt_le last
  have hfit := keysFit_iff.1 hfit
  rw [Int64.toInt_minValue] at hmin hfit
  rw [Int64.toInt_maxValue] at hmax hlast
  rcases Nat.lt_or_ge count (2 ^ 63) with hcount | hwide
  · rw [Int64.toInt_ofNat_of_lt hcount] at hbefore
    obtain ⟨rfl, rfl⟩ | hsmallest | hwide := h
    · rw [Int64.toInt_maxValue] at hbefore
      omega
    · rw [Int64.toInt_minValue] at hsmallest
      omega
    · omega
  · -- the cut count is added to the last key instead of taken away
    rw [toInt_ofNat_of_ge hwide (by omega)] at hbefore
    omega

theorem exists_firstKey_of_not_atLimit (hfit : KeysFit last count) (h : ¬AtLimit last count) :
    ∃ first, firstKey? last count = some first := by
  rw [AtLimit, not_or, not_or, not_and, Nat.not_le] at h
  obtain ⟨hempty, hsmallest, hcount⟩ := h
  have hlast := Int64.toInt_le last
  have hmin : Int64.minValue.toInt ≤ last.toInt - count := by
    have hfit := keysFit_iff.1 hfit
    have hlow := Int64.minValue_le_toInt last
    omega
  have hmax : last.toInt - count + 1 ≤ Int64.maxValue.toInt := by
    rcases Nat.eq_zero_or_pos count with hzero | hpos
    · have hne : last.toInt ≠ Int64.maxValue.toInt := mt Int64.toInt_inj.1 (hempty hzero)
      omega
    · omega
  obtain ⟨before, hbefore⟩ := exists_toInt_eq hmin (by omega)
  obtain ⟨first, hfirst⟩ := exists_toInt_eq (Int.le_add_one hmin) hmax
  refine ⟨first, firstKey?_eq_some_iff.2 ⟨before, ?_, ?_⟩⟩
  · rw [Int64.toInt_ofNat_of_lt hcount, hbefore]
  · rw [hfirst, hbefore]

/-! ## The keys -/

theorem generatedKeys_of_atLimit (hfit : KeysFit last count) (h : AtLimit last count) :
    generatedKeys last count = .error (.keysOutOfRange last count) := by
  rw [generatedKeys, firstKey?_eq_none_of_atLimit hfit h]

theorem count_lt_of_not_atLimit (h : ¬AtLimit last count) : count < 2 ^ 63 :=
  Nat.lt_of_not_le fun hwide => h (.inr (.inr hwide))

theorem generatedKeys_of_not_atLimit (hfit : KeysFit last count) (h : ¬AtLimit last count) :
    generatedKeys last count = .ok (keysUpTo last count) := by
  obtain ⟨first, hfirst⟩ := exists_firstKey_of_not_atLimit hfit h
  rw [generatedKeys, hfirst, ← keysBetween_eq (toInt_firstKey (count_lt_of_not_atLimit h) hfirst)]

theorem toInt_of_getElem?_keysUpTo (hfit : KeysFit last count) {k : Nat} {key : Int64}
    (h : (keysUpTo last count)[k]? = some key) : key.toInt = last.toInt - count + 1 + k := by
  have hk : k < count := length_keysUpTo last count ▸ (List.getElem?_eq_some_iff.1 h).1
  have hmap : ((keysUpTo last count).map Int64.toInt)[k]? =
      some (last.toInt - count + 1 + k) := by
    rw [map_toInt_keysUpTo (keysFit_iff.1 hfit), List.getElem?_map, List.getElem?_range hk]
    rfl
  rw [List.getElem?_map, h] at hmap
  exact Option.some.inj hmap

/-! ## Entities -/

section Entities

variable [Entity ε] {items : List ε} {key : String}

/-- Entities that take their keys are given as many as there are. -/
theorem assignKeys_eq_ok {keys : List Int64} (hlength : keys.length = items.length)
    (haccepts : ∀ item ∈ items, ∀ v, ∃ item', Entity.setField item key v = .ok item') :
    ∃ items', assignKeys key items keys = (items', .ok ()) := by
  induction items generalizing keys with
  | nil => exact ⟨[], by rw [assignKeys]; simp⟩
  | cons item items ih =>
      obtain ⟨k, keys, rfl⟩ := List.exists_cons_of_length_eq_add_one hlength
      obtain ⟨hitem, haccepts⟩ := List.forall_mem_cons.1 haccepts
      obtain ⟨item', hset⟩ := hitem (.integer k)
      obtain ⟨items', hrest⟩ := ih (Nat.succ.inj hlength) haccepts
      exact ⟨item' :: items', by rw [assignKeys, hset]; dsimp only; rw [hrest]⟩

theorem assignGenerated_of_atLimit (hfit : KeysFit last items.length)
    (h : AtLimit last items.length) :
    assignGenerated key items [(items.length, last)] =
      (items, .error (.keysOutOfRange last items.length)) := by
  rw [assignGenerated, generatedKeys_of_atLimit hfit h]

theorem assignGenerated_of_not_atLimit (hfit : KeysFit last items.length)
    (h : ¬AtLimit last items.length)
    (haccepts : ∀ item ∈ items, ∀ v, ∃ item', Entity.setField item key v = .ok item') :
    ∃ items', assignGenerated key items [(items.length, last)] = (items', .ok ()) ∧
      Assigned key (last.toInt - items.length + 1) items items' := by
  obtain ⟨items', hassign⟩ := assignKeys_eq_ok (length_keysUpTo last items.length) haccepts
  refine ⟨items', ?_, assignKeys_ok (map_toInt_keysUpTo (keysFit_iff.1 hfit)) hassign⟩
  rw [assignGenerated, generatedKeys_of_not_atLimit hfit h]
  dsimp only
  rw [List.take_length, hassign, List.drop_length]
  simp [assignGenerated]

variable [Database δ] {s : Schema} {p p' : Pool δ}

/-- Once the last key is told, populating entities writes their keys and does nothing else. -/
theorem Pool.populate_of_told (hauto : s.autoIncrement = true) (hne : items ≠ [])
    (htold : outcome (Pool.transaction Connection.lastInsertedKey) p = (.ok last, p')) :
    Pool.populate s items p =
      (⟨(assignGenerated s.primaryKey.name items [(items.length, last)]).1,
        (assignGenerated s.primaryKey.name items [(items.length, last)]).2⟩, p') := by
  have hrun : (Pool.transaction Connection.lastInsertedKey).run p = (.ok last, p') := htold
  unfold Pool.populate
  rw [if_neg (by simp [hauto, hne]), hrun]

end Entities

/-! ## Databases in memory -/

section Told

variable {m : MemoryDatabase}

theorem Session.runs_lastInsertedKey (m : MemoryDatabase) :
    Session.Runs Connection.lastInsertedKey m m.lastKey m := by
  have hquery := MemoryDatabase.query_eq isPlain_lastInsertedKeyQuery m.evalSelect_lastInsertedKey
    rfl
  exact Session.runs_bind (Session.runs_querySingle hquery) (Session.runs_ofExcept rfl)

/-- A database that no transaction is open on tells its last key, and stays as it is. -/
theorem Pool.transaction_lastInsertedKey {p : Pool MemoryDatabase} (hm : p.database = some m)
    (hfree : m.saved = none) (hholds : m.catalog.consistent true = true) :
    ∃ events, outcome (Pool.transaction Connection.lastInsertedKey) p =
      (.ok m.lastKey, { p with events }) := by
  obtain ⟨p', hrun, hdatabase⟩ :=
    Pool.transaction_eq hm hfree (Session.runs_lastInsertedKey _) rfl hholds
  have hpool := hrun
  rw [outcome_transaction, hm] at hpool
  obtain ⟨-, rfl⟩ := Prod.mk.inj hpool
  have hsame : ({ m with saved := none } : MemoryDatabase) = m := by rw [← hfree]
  have hkept : _ = p.database := hdatabase.trans ((congrArg some hsame).trans hm.symm)
  exact ⟨_, hrun.trans (by rw [← hkept])⟩

end Told

/-- The keys of a batch that lie in the range are exactly those that end at the last one, unless a
step to the first of them leaves it: then there is none at all.  Entities are given them in order and
are changed in nothing else, and the database that is asked for the last key stays as it is. -/
theorem generated_keys_are_exact_off_limits [Entity ε] [Database δ] :
    (∀ (last : Int64) (count : Nat), KeysFit last count →
      (AtLimit last count → generatedKeys last count = .error (.keysOutOfRange last count)) ∧
      (¬AtLimit last count → ∃ first keys, firstKey? last count = some first ∧
        first.toInt = last.toInt - count + 1 ∧ generatedKeys last count = .ok keys ∧
        keys.length = count ∧ ∀ (k : Nat) (key : Int64), keys[k]? = some key →
          key.toInt = last.toInt - count + 1 + k)) ∧
    (∀ (s : Schema) (p : Pool δ), Pool.populate s ([] : List ε) p = (⟨[], .ok ()⟩, p)) ∧
    (∀ (s : Schema) (items : List ε) (p p' : Pool δ) (last : Int64), s.autoIncrement = true →
      items ≠ [] → outcome (Pool.transaction Connection.lastInsertedKey) p = (.ok last, p') →
      KeysFit last items.length →
      (AtLimit last items.length → Pool.populate s items p =
        (⟨items, .error (.keysOutOfRange last items.length)⟩, p')) ∧
      (¬AtLimit last items.length →
        (∀ item ∈ items, ∀ v, ∃ item', Entity.setField item s.primaryKey.name v = .ok item') →
        ∃ items', Pool.populate s items p = (⟨items', .ok ()⟩, p') ∧
          items'.length = items.length ∧
          ∀ (k : Nat) (item : ε), items[k]? = some item → ∃ item' key, items'[k]? = some item' ∧
            key.toInt = last.toInt - items.length + 1 + k ∧
            Entity.setField item s.primaryKey.name (.integer key) = .ok item' ∧
            ∀ P : ε → Prop, Entity.Open P → P item → ∀ name, Entity.field? item' name =
              if name = s.primaryKey.name then some (.integer key)
              else Entity.field? item name)) ∧
    ∀ (p : Pool MemoryDatabase) (m : MemoryDatabase), p.database = some m → m.saved = none →
      m.catalog.consistent true = true → ∃ events,
        outcome (Pool.transaction Connection.lastInsertedKey) p =
          (.ok m.lastKey, { p with events }) := by
  refine ⟨fun last count hfit => ⟨generatedKeys_of_atLimit hfit, fun hlimit => ?keys⟩,
    fun s p => ?empty, fun s items p p' last hauto hne htold hfit => ⟨fun hlimit => ?refused,
      fun hlimit haccepts => ?written⟩, fun p m => Pool.transaction_lastInsertedKey⟩
  case keys =>
    obtain ⟨first, hfirst⟩ := exists_firstKey_of_not_atLimit hfit hlimit
    exact ⟨first, keysUpTo last count, hfirst,
      (toInt_firstKey (count_lt_of_not_atLimit hlimit) hfirst).trans (by omega),
      generatedKeys_of_not_atLimit hfit hlimit, length_keysUpTo last count,
      fun k key hkey => toInt_of_getElem?_keysUpTo hfit hkey⟩
  case empty =>
    unfold Pool.populate
    rw [if_pos (by simp)]
  case refused =>
    rw [Pool.populate_of_told hauto hne htold, assignGenerated_of_atLimit hfit hlimit]
  case written =>
    obtain ⟨items', hassign, hassigned⟩ := assignGenerated_of_not_atLimit hfit hlimit haccepts
    refine ⟨items', ?_, hassigned.length_eq, fun k item hitem => ?_⟩
    · rw [Pool.populate_of_told hauto hne htold, hassign]
    · obtain ⟨item', key, hitem', hkey, hset⟩ := hassigned.get hitem
      exact ⟨item', key, hitem', hkey, hset, fun P hopen hP =>
        hopen.assigned item item' _ _ hP hset⟩

namespace Lowest

/-- The last of two keys, the first of which is one more than the smallest integer. -/
def lastOfTwo : Int64 := Int64.minValue + 2

def pool : Pool MemoryDatabase :=
  .ofDatabase ⟨.empty, none, lastOfTwo, 0⟩ none

end Lowest

open Lowest in
/-- Two entities are given the lowest keys that can be computed, and there is none for an empty batch
behind the largest integer. -/
theorem generated_keys_are_exact_off_limits_of_two :
    (∃ items' events, Pool.populate Gap.schema Gap.records pool =
        (⟨items', .ok ()⟩, { pool with events }) ∧ items'.length = 2 ∧
      ∃ item, items'[0]? = some item ∧
        Entity.field? item "id" = some (.integer (Int64.minValue + 1)) ∧
        Entity.field? item "x" = some (.text "p")) ∧
    AtLimit Int64.maxValue 0 ∧
    generatedKeys Int64.maxValue 0 = .error (.keysOutOfRange Int64.maxValue 0) := by
  obtain ⟨hkeys, -, hpopulate, htells⟩ :=
    generated_keys_are_exact_off_limits (ε := Record) (δ := MemoryDatabase)
  constructor
  · obtain ⟨events, htold⟩ := htells pool _ rfl rfl (by decide)
    have hfit : KeysFit lastOfTwo 2 := keysFit_iff.2 (.inr (by decide))
    have hknows : ∀ item ∈ Gap.records, item.only = none := by decide
    obtain ⟨items', hrun, hlength, hitems⟩ := (hpopulate Gap.schema Gap.records pool _ lastOfTwo rfl
      (by simp [Gap.records]) htold hfit).2 (by decide) fun item hitem v =>
        (Record.isOpen.accepts item _ v (hknows item hitem)).imp fun _ h => h.1
    obtain ⟨item, key, hitem, hkey, -, hfields⟩ := hitems 0 _ rfl
    obtain rfl : key = Int64.minValue + 1 := Int64.toInt_inj.1 (hkey.trans (by decide))
    have hfield := hfields _ Record.isOpen rfl
    exact ⟨items', events, hrun, hlength, item, hitem, hfield "id", hfield "x"⟩
  · have hlimit : AtLimit Int64.maxValue 0 := by decide
    exact ⟨hlimit, (hkeys Int64.maxValue 0 (keysFit_iff.2 (.inl rfl))).1 hlimit⟩

/-- At either end of the range a batch has no keys although all that it asks for lie inside. -/
theorem batches_at_both_ends_have_no_keys :
    (KeysFit Int64.maxValue 0 ∧ ∀ keys, generatedKeys Int64.maxValue 0 ≠ .ok keys) ∧
    (KeysFit Int64.minValue 1 ∧ ∀ keys, generatedKeys Int64.minValue 1 ≠ .ok keys) := by
  have hempty : KeysFit Int64.maxValue 0 := keysFit_iff.2 (.inl rfl)
  have hlowest : KeysFit Int64.minValue 1 := keysFit_iff.2 (.inr (by decide))
  refine ⟨⟨hempty, fun keys => ?_⟩, hlowest, fun keys => ?_⟩
  · rw [generatedKeys_of_atLimit hempty (by decide)]
    simp
  · rw [generatedKeys_of_atLimit hlowest (by decide)]
    simp

end StagedStore
