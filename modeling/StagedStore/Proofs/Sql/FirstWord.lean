import StagedStore.Proofs.Recovery.Basic
import StagedStore.Proofs.Sql.Scan
import StagedStore.Sql.Reader

/-!
# The first word of a statement

The text of a statement begins with the word that its tree begins with, and so does what is read
from the text.  Hence no text that a caller puts into a condition turns a query or a write into a
statement about transactions.
-/

namespace StagedStore

namespace Sql

open Token

/-- The word that a statement begins with. -/
def Statement.firstWord : Statement → List Char
  | .createTable .. | .createTemporary .. => ['C', 'R', 'E', 'A', 'T', 'E']
  | .dropTable .. => ['D', 'R', 'O', 'P']
  | .insert .. | .insertDefault _ | .insertQuery .. => ['I', 'N', 'S', 'E', 'R', 'T']
  | .update .. => ['U', 'P', 'D', 'A', 'T', 'E']
  | .delete .. => ['D', 'E', 'L', 'E', 'T', 'E']
  | .select _ => ['S', 'E', 'L', 'E', 'C', 'T']
  | .begin | .commit | .rollback | .fragment _ => []

theorem firstWord_prefix {s : Statement} (h : s.isControl = false) :
    s.firstWord ++ [' '] <+: s.render.toList := by
  have append {w p : List Char} {r : String} (hp : w <+: p) : w <+: p ++ r.toList :=
    hp.trans (List.prefix_append _ _)
  cases s with
  | select q =>
      obtain ⟨columns, source, condition, order, limit⟩ := q
      change _ <+: (Select.mk columns source condition order limit).render.toList
      simp only [Statement.firstWord, Select.render, String.toList_append]
      exact append (append (append (append (append (by decide)))))
  | begin => simp [Statement.isControl] at h
  | commit => simp [Statement.isControl] at h
  | rollback => simp [Statement.isControl] at h
  | fragment t => simp [Statement.isControl] at h
  | createTable u t columns =>
      unfold Statement.render
      simp only [Statement.firstWord, String.toList_append]
      exact append (append (append (append (append (by decide)))))
  | createTemporary t q =>
      unfold Statement.render
      simp only [Statement.firstWord, String.toList_append]
      exact append (append (append (by decide)))
  | dropTable u t =>
      unfold Statement.render
      simp only [Statement.firstWord, String.toList_append]
      exact append (append (by decide))
  | insert t columns rows =>
      unfold Statement.render
      simp only [Statement.firstWord, String.toList_append]
      exact append (append (append (append (append (by decide)))))
  | insertDefault t =>
      unfold Statement.render
      simp only [Statement.firstWord, String.toList_append]
      exact append (append (by decide))
  | insertQuery t q =>
      unfold Statement.render
      simp only [Statement.firstWord, String.toList_append]
      exact append (append (append (by decide)))
  | update t assignments source condition =>
      unfold Statement.render
      simp only [Statement.firstWord, String.toList_append]
      exact append (append (append (append (append (by decide)))))
  | delete t condition =>
      unfold Statement.render
      simp only [Statement.firstWord, String.toList_append]
      exact append (append (by decide))

/-- Words that begin no statement about transactions. -/
def Keyword.beginsWork : Keyword → Bool
  | .create | .drop | .insert | .update | .delete | .select => true
  | _ => false

theorem scan_of_not_isControl {s : Statement} (h : s.isControl = false) :
    ∃ k ts, Token.scan s.render = .keyword k :: ts ∧ k.beginsWork = true := by
  obtain ⟨r, hr⟩ := firstWord_prefix h
  have hword (c : Char) (w : List Char) (k : Keyword) (hs : s.firstWord = c :: w)
      (hnul : (c :: w).all (· ≠ '\x00') = true) (hc : startsWord c = true)
      (hw : w.all continuesWord = true) (hk : ofWord (c :: w) = .keyword k) :
      ∃ ts, Token.scan s.render = .keyword k :: ts := by
    refine ⟨tokens (' ' :: r.takeWhile (· ≠ '\x00')), ?_⟩
    rw [scan_eq_tokens, ← hr, hs, List.append_assoc, List.takeWhile_append_of_pos (by simpa using hnul)]
    rw [← hk, ← tokens_word hc hw rfl]
    rfl
  cases s with
  | select =>
      obtain ⟨ts, hts⟩ := hword _ _ .select rfl (by decide) (by decide) (by decide) (by decide +kernel)
      exact ⟨_, ts, hts, rfl⟩
  | begin => simp [Statement.isControl] at h
  | commit => simp [Statement.isControl] at h
  | rollback => simp [Statement.isControl] at h
  | fragment t => simp [Statement.isControl] at h
  | createTable | createTemporary =>
      obtain ⟨ts, hts⟩ := hword _ _ .create rfl (by decide) (by decide) (by decide) (by decide +kernel)
      exact ⟨_, ts, hts, rfl⟩
  | dropTable =>
      obtain ⟨ts, hts⟩ := hword _ _ .drop rfl (by decide) (by decide) (by decide) (by decide +kernel)
      exact ⟨_, ts, hts, rfl⟩
  | insert | insertDefault | insertQuery =>
      obtain ⟨ts, hts⟩ := hword _ _ .insert rfl (by decide) (by decide) (by decide) (by decide +kernel)
      exact ⟨_, ts, hts, rfl⟩
  | update =>
      obtain ⟨ts, hts⟩ := hword _ _ .update rfl (by decide) (by decide) (by decide) (by decide +kernel)
      exact ⟨_, ts, hts, rfl⟩
  | delete =>
      obtain ⟨ts, hts⟩ := hword _ _ .delete rfl (by decide) (by decide) (by decide) (by decide +kernel)
      exact ⟨_, ts, hts, rfl⟩

theorem splitStatements_of_begun (t : Token) (begun ts : List Token) :
    ∃ piece rest, splitStatements (begun ++ [t]) ts = (t :: piece) :: rest := by
  induction ts generalizing begun with
  | nil => exact ⟨begun.reverse, [], by simp [splitStatements]⟩
  | cons u ts ih =>
      by_cases hu : u = .symbol ';'
      · subst hu
        exact ⟨begun.reverse, splitStatements [] ts, by simp [splitStatements]⟩
      · obtain ⟨piece, rest, h⟩ := ih (u :: begun)
        refine ⟨piece, rest, ?_⟩
        rw [← h, splitStatements]
        · rfl
        · rintro ⟨⟩
          exact hu rfl

/-- What follows a successful reader succeeds on what it gave. -/
private theorem some_of_bind {α β : Type} {x : Option α} {f : α → Option β} {b : β}
    (h : (x >>= f) = some b) : ∃ a, f a = some b := by
  obtain ⟨a, -, h⟩ := Option.bind_eq_some_iff.1 h
  exact ⟨a, h⟩

private theorem statement_eq {s s' : Statement} {r r' : List Token}
    (h : (pure (s, r) : Option (Statement × List Token)) = some (s', r')) : s' = s :=
  (congrArg Prod.fst (Option.some.inj h)).symm

theorem isControl_of_readNewTable? {fuel : Nat} {unlessExists : Bool} {ts rest : List Token}
    {s : Statement} (h : readNewTable? fuel unlessExists ts = some (s, rest)) :
    s.isControl = false := by
  unfold readNewTable? at h
  obtain ⟨⟨t, r⟩, h⟩ := some_of_bind h
  obtain ⟨r, h⟩ := some_of_bind h
  obtain ⟨⟨columns, r⟩, h⟩ := some_of_bind h
  obtain ⟨r, h⟩ := some_of_bind h
  rw [statement_eq h]
  rfl

theorem isControl_of_readInsertion? {fuel : Nat} {t : Identifier} {ts rest : List Token}
    {s : Statement} (h : readInsertion? fuel t ts = some (s, rest)) : s.isControl = false := by
  unfold readInsertion? at h
  split at h
  · rw [statement_eq h]
    rfl
  · obtain ⟨⟨q, r⟩, h⟩ := some_of_bind h
    rw [statement_eq h]
    rfl
  · obtain ⟨⟨rows, r⟩, h⟩ := some_of_bind h
    rw [statement_eq h]
    rfl
  · obtain ⟨⟨columns, r⟩, h⟩ := some_of_bind h
    obtain ⟨r, h⟩ := some_of_bind h
    obtain ⟨r, h⟩ := some_of_bind h
    obtain ⟨⟨rows, r⟩, h⟩ := some_of_bind h
    rw [statement_eq h]
    rfl
  · simp at h

theorem isControl_of_readStatement? {fuel : Nat} {k : Keyword} {ts rest : List Token}
    {s : Statement} (hk : k.beginsWork = true)
    (h : readStatement? fuel (.keyword k :: ts) = some (s, rest)) : s.isControl = false := by
  have control (k' : Keyword) (ts' : List Token) (hk' : k'.beginsWork = false)
      (he : Token.keyword k :: ts = .keyword k' :: ts') : s.isControl = false := by
    obtain rfl : k = k' := by simpa using (List.cons.inj he).1
    rw [hk] at hk'
    exact Bool.noConfusion hk'
  unfold readStatement? at h
  split at h
  · obtain ⟨⟨q, r⟩, h⟩ := some_of_bind h
    rw [statement_eq h]
    rfl
  · obtain ⟨⟨t, r⟩, h⟩ := some_of_bind h
    exact isControl_of_readInsertion? h
  · obtain ⟨⟨t, r⟩, h⟩ := some_of_bind h
    obtain ⟨r, h⟩ := some_of_bind h
    obtain ⟨⟨assignments, r⟩, h⟩ := some_of_bind h
    dsimp only at h
    split at h
    · obtain ⟨⟨s, r⟩, h⟩ := some_of_bind h
      obtain ⟨r, h⟩ := some_of_bind h
      obtain ⟨⟨a, r⟩, h⟩ := some_of_bind h
      obtain ⟨⟨source, r⟩, h⟩ := some_of_bind h
      obtain ⟨⟨condition, r⟩, h⟩ := some_of_bind h
      rw [statement_eq h]
      rfl
    · obtain ⟨⟨source, r⟩, h⟩ := some_of_bind h
      obtain ⟨⟨condition, r⟩, h⟩ := some_of_bind h
      rw [statement_eq h]
      rfl
  · obtain ⟨⟨t, r⟩, h⟩ := some_of_bind h
    obtain ⟨⟨condition, r⟩, h⟩ := some_of_bind h
    rw [statement_eq h]
    rfl
  · exact isControl_of_readNewTable? h
  · exact isControl_of_readNewTable? h
  · split at h
    · simp at h
    · obtain ⟨⟨t, r⟩, h⟩ := some_of_bind h
      obtain ⟨r, h⟩ := some_of_bind h
      obtain ⟨⟨q, r⟩, h⟩ := some_of_bind h
      rw [statement_eq h]
      rfl
  · obtain ⟨⟨t, r⟩, h⟩ := some_of_bind h
    rw [statement_eq h]
    rfl
  · obtain ⟨⟨t, r⟩, h⟩ := some_of_bind h
    rw [statement_eq h]
    rfl
  · exact control _ _ rfl ‹_›
  · exact control _ _ rfl ‹_›
  · exact control _ _ rfl ‹_›
  · exact control _ _ rfl ‹_›
  · exact control _ _ rfl ‹_›
  · simp at h

/-- What the text of a statement reads as begins no transaction and ends none, if the statement
itself does not. -/
theorem isControl_of_readScript {s s' : Statement} {rest : List (Option Statement)}
    (hs : s.isControl = false) (h : readScript s.render = some s' :: rest) :
    s'.isControl = false := by
  obtain ⟨k, ts, hscan, hk⟩ := scan_of_not_isControl hs
  obtain ⟨piece, pieces, hsplit⟩ := splitStatements_of_begun (.keyword k) [] ts
  have hsplit' : splitStatements [] (Token.scan s.render) = (.keyword k :: piece) :: pieces := by
    rw [hscan, splitStatements]
    · exact hsplit
    · rintro ⟨⟩
  unfold readScript at h
  rw [hsplit', List.map_cons, List.cons.injEq] at h
  have h := h.1
  unfold ofTokens? at h
  split at h
  · rename_i s₁ hread
    obtain rfl := Option.some.inj h
    exact isControl_of_readStatement? hk hread
  · simp at h

end Sql

end StagedStore
