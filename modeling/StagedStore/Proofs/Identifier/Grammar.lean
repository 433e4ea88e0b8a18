import StagedStore.Proofs.Action
import StagedStore.Proofs.Text.Quoted
import StagedStore.Identifier

/-!
# The grammar of identifiers

Reading an identifier and writing it are inverse to each other. `Identifier.Dotted` is the grammar of
the texts that can be read: parts with dots between them, each a bare word or a name in quotes.
-/

namespace StagedStore

namespace Part

/-- The words of `[A-Za-z_][A-Za-z0-9_$]*`. -/
def IsWord : List Char → Prop
  | [] => False
  | c :: r => (c.isAlpha = true ∨ c = '_') ∧ ∀ d ∈ r, d.isAlphanum = true ∨ d = '_' ∨ d = '$'

/-- A part that can be read: a bare name is a word, and a quoted one has a character and none of its
characters is null. -/
def IsValid : Part → Prop
  | .bare n => IsWord n.toList
  | .quoted n => n ≠ "" ∧ '\x00' ∉ n.toList

instance : DecidablePred IsWord
  | [] => inferInstanceAs (Decidable False)
  -- The list is walked, not the finite type of all characters.
  | c :: r => @instDecidableAnd (c.isAlpha = true ∨ c = '_') _ inferInstance
      (List.decidableBAll (fun d => d.isAlphanum = true ∨ d = '_' ∨ d = '$') r)

instance : DecidablePred IsValid
  | .bare n => inferInstanceAs (Decidable (IsWord n.toList))
  | .quoted n => inferInstanceAs (Decidable (n ≠ "" ∧ '\x00' ∉ n.toList))

variable {p : Part} {c : Char} {cs rest : List Char}

theorem isInner_iff : isInner c = true ↔ c.isAlphanum = true ∨ c = '_' ∨ c = '$' := by
  simp [isInner, or_assoc]

theorem IsWord.isInner (h : IsWord cs) : ∀ c ∈ cs, isInner c = true := by
  cases cs with
  | nil => exact h.elim
  | cons c r =>
      rintro d (_ | ⟨_, hd⟩)
      · rcases h.1 with hc | rfl
        · simp [isInner_iff, Char.isAlphanum, hc]
        · rfl
      · exact isInner_iff.2 (h.2 d hd)

/-- A character of a word ends no part and is not null. -/
theorem ne_of_isInner (h : isInner c = true) : c ≠ '.' ∧ c ≠ '"' ∧ c ≠ '\x00' := by
  refine ⟨?_, ?_, ?_⟩ <;>
    · rintro rfl
      revert h
      decide

theorem ofWord_eq_ok_iff : ofWord cs = .ok p ↔ IsWord cs ∧ p = .bare (String.ofList cs) := by
  cases cs with
  | nil => simp [ofWord, IsWord]
  | cons c r =>
      have hstart : isStart c = true ↔ c.isAlpha = true ∨ c = '_' := by simp [isStart]
      have hinner : r.find? (fun d => !isInner d) = none ↔
          ∀ d ∈ r, d.isAlphanum = true ∨ d = '_' ∨ d = '$' := by
        simp only [List.find?_eq_none, Bool.not_eq_true', Bool.not_eq_false, isInner_iff]
      rw [ofWord, IsWord, ← hstart, ← hinner]
      split
      · rename_i hc
        split
        · rename_i hfind
          simp [hfind]
        · rename_i hfind
          simp [hc, hfind, eq_comm]
      · rename_i hc
        simp [hc]

/-- A part is read from its own text. -/
theorem eq_of_read (hnul : '\x00' ∉ cs) (h : read cs = .ok (p, rest)) :
    p.IsValid ∧ cs = p.render.toList ++ rest := by
  unfold read at h
  split at h
  · rename_i body
    split at h
    · simp at h
    · simp at h
    · rename_i name rest hname hread
      obtain ⟨rfl, rfl⟩ := Prod.mk.inj (Except.ok.inj h)
      obtain ⟨rfl, -⟩ := Quoted.eq_of_read? hread
      refine ⟨⟨fun he => hname ?_, ?_⟩, ?_⟩
      · simpa using congrArg String.toList he
      · intro hin
        rw [String.toList_ofList] at hin
        exact hnul (by simp [Quoted.mem_double, hin])
      · simp [render, quoteName, Quoted.wrap]
  · obtain ⟨q, hq, hp⟩ := Except.bind_eq_ok_iff.1 h
    obtain ⟨rfl, rfl⟩ := Prod.mk.inj (Except.ok.inj hp)
    obtain ⟨hword, rfl⟩ := ofWord_eq_ok_iff.1 hq
    refine ⟨by rwa [IsValid, String.toList_ofList], ?_⟩
    rw [render, String.toList_ofList, List.takeWhile_append_dropWhile]

/-- The text of a part is read as the part, up to its end or the next dot. -/
theorem read_render (hp : p.IsValid) (hrest : ∀ c ∈ rest.head?, c = '.') :
    read (p.render.toList ++ rest) = .ok (p, rest) := by
  cases p with
  | bare n =>
      have hinner := hp.isInner
      have hdot : ∀ c ∈ n.toList, decide (c ≠ '.') = true := fun c hc => by
        simpa using (ne_of_isInner (hinner c hc)).1
      have htake : rest.takeWhile (· ≠ '.') = [] := by
        cases rest with
        | nil => rfl
        | cons c r => simp [hrest c rfl]
      have hdrop : rest.dropWhile (· ≠ '.') = rest := by
        cases rest with
        | nil => rfl
        | cons c r => simp [hrest c rfl]
      have hword : ofWord n.toList = .ok (.bare n) :=
        ofWord_eq_ok_iff.2 ⟨hp, by rw [String.ofList_toList]⟩
      rw [render, read]
      · rw [List.takeWhile_append_of_pos hdot, List.dropWhile_append_of_pos hdot, htake, hdrop,
          List.append_nil, hword]
        rfl
      · intro body hbody
        cases hn : n.toList with
        | nil => exact absurd hp (by simp [IsValid, IsWord, hn])
        | cons c r =>
            rw [hn, List.cons_append] at hbody
            exact (ne_of_isInner (hinner c (by simp [hn]))).2.1 (List.cons.inj hbody).1
  | quoted n =>
      have hquote : rest.head? ≠ some '"' := fun h => absurd (hrest _ h) (by decide)
      have hname : n.toList ≠ [] := fun h => hp.1 (by simpa using h)
      have htext : (Part.quoted n).render.toList ++ rest =
          '"' :: (Quoted.double '"' n.toList ++ '"' :: rest) := by
        simp [render, quoteName, Quoted.wrap]
      rw [htext, read, Quoted.read?_double hquote]
      cases hn : n.toList with
      | nil => exact absurd hn hname
      | cons c r =>
          have hsame : String.ofList (c :: r) = n := hn ▸ String.ofList_toList
          simp only [hsame]

theorem length_render_pos (hp : p.IsValid) : 0 < p.render.toList.length := by
  rw [List.length_pos_iff]
  cases p with
  | bare n =>
      intro hn
      rw [IsValid, show n.toList = [] from hn] at hp
      exact hp
  | quoted n => simp [render, quoteName, Quoted.wrap]

theorem nul_notMem_render (hp : p.IsValid) : '\x00' ∉ p.render.toList := by
  cases p with
  | bare n => exact fun hin => (ne_of_isInner (hp.isInner _ hin)).2.2 rfl
  | quoted n => simp [render, quoteName, Quoted.wrap, Quoted.mem_double, hp.2]

theorem isValid_quoted (hp : p.IsValid) : (Part.quoted p.name).IsValid := by
  cases p with
  | bare n =>
      refine ⟨?_, fun hin => (ne_of_isInner (hp.isInner _ hin)).2.2 rfl⟩
      rintro rfl
      exact hp
  | quoted n => exact hp

end Part

namespace Identifier

variable {i : Identifier} {p : Part} {s : String} {cs : List Char} {fuel : Nat}

/-- An identifier is a part, or a part in front of an identifier. -/
@[elab_as_elim]
theorem parts_induction {motive : Identifier → Prop} (one : ∀ p, motive (ofPart p))
    (cons : ∀ p i, motive i → motive (cons p i)) (i : Identifier) : motive i := by
  obtain ⟨parts, hne⟩ := i
  induction parts with
  | nil => exact absurd rfl hne
  | cons p ps ih =>
      cases ps with
      | nil => exact one p
      | cons q qs => exact cons p ⟨q :: qs, by simp⟩ (ih _)

theorem render_ofPart (p : Part) : (ofPart p).render = p.render := by
  simp [render, ofPart]

theorem render_cons (p : Part) (i : Identifier) : (cons p i).render = p.render ++ "." ++ i.render := by
  obtain ⟨parts, hne⟩ := i
  cases parts with
  | nil => exact absurd rfl hne
  | cons q qs => simp [render, cons, String.intercalate_cons_cons]

/-- The grammar of the texts that identifiers are read from. -/
inductive Dotted : String → Prop
  | one {p : Part} (hp : p.IsValid) : Dotted p.render
  | more {p : Part} {s : String} (hp : p.IsValid) (hs : Dotted s) : Dotted (p.render ++ "." ++ s)

theorem dotted_iff : Dotted s ↔ ∃ i : Identifier, (∀ p ∈ i.parts, p.IsValid) ∧ i.render = s := by
  constructor
  · intro h
    induction h with
    | @one p hp => exact ⟨ofPart p, by simpa [ofPart] using hp, render_ofPart p⟩
    | @more p s hp _ ih =>
        obtain ⟨i, hi, rfl⟩ := ih
        exact ⟨cons p i, List.forall_mem_cons.2 ⟨hp, hi⟩, render_cons p i⟩
  · rintro ⟨i, hi, rfl⟩
    induction i using parts_induction with
    | one p =>
        rw [render_ofPart]
        exact .one (hi p (by simp [ofPart]))
    | cons p i ih =>
        obtain ⟨hp, hi⟩ := List.forall_mem_cons.1 hi
        rw [render_cons]
        exact .more hp (ih hi)

theorem eq_of_readParts (hnul : '\x00' ∉ cs) (h : readParts fuel cs = .ok i) :
    (∀ p ∈ i.parts, p.IsValid) ∧ cs = i.render.toList := by
  induction fuel generalizing cs i with
  | zero => simp [readParts] at h
  | succ n ih =>
      obtain ⟨⟨p, rest⟩, hp, hrest⟩ := Except.bind_eq_ok_iff.1 h
      obtain ⟨hvalid, rfl⟩ := Part.eq_of_read hnul hp
      dsimp only at hrest
      split at hrest
      · obtain rfl := Except.ok.inj hrest
        exact ⟨by simpa [ofPart] using hvalid, by simp [render_ofPart]⟩
      · simp at hrest
      · rename_i next _
        obtain ⟨j, hj, hi⟩ := Except.bind_eq_ok_iff.1 hrest
        obtain rfl := Except.ok.inj hi
        obtain ⟨hparts, rfl⟩ := ih (fun hin => hnul (by simp [hin])) hj
        exact ⟨List.forall_mem_cons.2 ⟨hvalid, hparts⟩, by simp [render_cons]⟩
      · simp at hrest

/-- Each part has a character of its own in the text. -/
theorem length_parts_le (hi : ∀ p ∈ i.parts, p.IsValid) :
    i.parts.length ≤ i.render.toList.length := by
  induction i using parts_induction with
  | one p =>
      rw [render_ofPart]
      exact Part.length_render_pos (hi p (by simp [ofPart]))
  | cons p i ih =>
      obtain ⟨hp, hi⟩ := List.forall_mem_cons.1 hi
      have hlength := ih hi
      have hparts : (cons p i).parts.length = i.parts.length + 1 := rfl
      have htext : (cons p i).render.toList.length =
          p.render.toList.length + (i.render.toList.length + 1) := by
        simp [render_cons, Nat.add_comm]
      omega

theorem nul_notMem_render (hi : ∀ p ∈ i.parts, p.IsValid) : '\x00' ∉ i.render.toList := by
  induction i using parts_induction with
  | one p =>
      rw [render_ofPart]
      exact Part.nul_notMem_render (hi p (by simp [ofPart]))
  | cons p i ih =>
      obtain ⟨hp, hi⟩ := List.forall_mem_cons.1 hi
      simp [render_cons, Part.nul_notMem_render hp, ih hi]

theorem readParts_render (hi : ∀ p ∈ i.parts, p.IsValid) (hfuel : i.parts.length ≤ fuel) :
    readParts fuel i.render.toList = .ok i := by
  induction i using parts_induction generalizing fuel with
  | one p =>
      obtain ⟨n, rfl⟩ : ∃ n, fuel = n + 1 := ⟨fuel - 1, by simp [ofPart] at hfuel; omega⟩
      have hread : Part.read (p.render.toList ++ []) = .ok (p, []) :=
        Part.read_render (hi p (by simp [ofPart])) (by simp)
      rw [List.append_nil] at hread
      rw [render_ofPart, readParts, hread]
      rfl
  | cons p i ih =>
      obtain ⟨n, rfl⟩ : ∃ n, fuel = n + 1 := ⟨fuel - 1, by simp [cons] at hfuel; omega⟩
      obtain ⟨hp, hi⟩ := List.forall_mem_cons.1 hi
      have htext : (cons p i).render.toList = p.render.toList ++ '.' :: i.render.toList := by
        simp [render_cons]
      have htail : 0 < i.render.toList.length :=
        Nat.lt_of_lt_of_le (List.length_pos_iff.2 i.nonempty) (length_parts_le hi)
      obtain ⟨c, r, hcs⟩ := List.exists_cons_of_length_pos htail
      have hrest : readParts n i.render.toList = .ok i := ih hi (by simpa [cons] using hfuel)
      rw [htext, readParts, Part.read_render hp (by simp), Except.ok_bind]
      rw [hcs] at hrest ⊢
      change (do return cons p (← readParts n (c :: r))) = _
      rw [hrest]
      rfl

theorem parse_eq_ok_iff :
    parse s = .ok i ↔ (∀ p ∈ i.parts, p.IsValid) ∧ i.render = s := by
  have hparse : parse s = .ok i ↔ read s = .ok i := by
    unfold parse
    cases read s <;> simp [Except.mapError]
  rw [hparse, read]
  split
  · rename_i hs
    refine iff_of_false (by simp) ?_
    rintro ⟨hi, hrender⟩
    have hlength := length_parts_le hi
    rw [hrender, hs] at hlength
    exact i.nonempty (List.length_eq_zero_iff.1 (Nat.le_zero.1 hlength))
  · split
    · rename_i hnul
      refine iff_of_false (by simp) ?_
      rintro ⟨hi, rfl⟩
      exact nul_notMem_render hi (List.contains_iff_mem.1 hnul)
    · rename_i hnul
      constructor
      · intro h
        obtain ⟨hi, hs⟩ := eq_of_readParts (by simpa using hnul) h
        exact ⟨hi, (String.toList_inj.1 hs).symm⟩
      · rintro ⟨hi, rfl⟩
        exact readParts_render hi (Nat.le_succ_of_le (length_parts_le hi))

/-- An identifier whose parts are all in quotes. -/
theorem parse_renderQuoted (hi : ∀ p ∈ i.parts, p.IsValid) :
    parse i.renderQuoted = .ok i.allQuoted := by
  refine parse_eq_ok_iff.2 ⟨fun q hq => ?_, rfl⟩
  obtain ⟨p, hp, rfl⟩ := List.mem_map.1 hq
  exact Part.isValid_quoted (hi p hp)

/-- Reading and writing are inverse: the parts read from a text are the parts that can be read and
are written as the text. So the texts of the grammar are the ones that can be read, no two of them
give the same identifier, and an identifier in quotes is read with the names it had. -/
theorem parse_inverts_render (s : String) :
    (∀ ps : List Part, (∃ hne : ps ≠ [], parse s = .ok ⟨ps, hne⟩) ↔
      ps ≠ [] ∧ (∀ p ∈ ps, p.IsValid) ∧ ".".intercalate (ps.map Part.render) = s) ∧
    ((∃ i, parse s = .ok i) ↔ Dotted s) ∧
    (∀ s' i, parse s = .ok i → parse s' = .ok i → s = s') ∧
    ∀ i, parse s = .ok i → ∃ j, parse i.renderQuoted = .ok j ∧
      j.parts = i.parts.map fun p => .quoted p.name := by
  refine ⟨fun ps => ?_, ?_, fun s' i h h' => ?_, fun i h => ?_⟩
  · constructor
    · rintro ⟨hne, h⟩
      exact ⟨hne, parse_eq_ok_iff.1 h⟩
    · rintro ⟨hne, h⟩
      exact ⟨hne, parse_eq_ok_iff.2 h⟩
  · simp only [dotted_iff, parse_eq_ok_iff]
  · exact (parse_eq_ok_iff.1 h).2.symm.trans (parse_eq_ok_iff.1 h').2
  · exact ⟨i.allQuoted, parse_renderQuoted (parse_eq_ok_iff.1 h).1, rfl⟩

/-- A bare schema and a table's name with a quote and a dot in it. -/
theorem parse_inverts_render_of_two :
    (∃ hne, parse "main.\"a\"\"b.c\"" = .ok ⟨[.bare "main", .quoted "a\"b.c"], hne⟩) ∧
    Dotted "main.\"a\"\"b.c\"" ∧
    ∃ j, parse "\"main\".\"a\"\"b.c\"" = .ok j ∧ j.parts = [.quoted "main", .quoted "a\"b.c"] := by
  obtain ⟨hparts, haccepted, -, hquoted⟩ := parse_inverts_render "main.\"a\"\"b.c\""
  have hparse := (hparts [.bare "main", .quoted "a\"b.c"]).2 (by decide +kernel)
  obtain ⟨hne, h⟩ := hparse
  have hagain := hquoted _ h
  have htext : renderQuoted ⟨[.bare "main", .quoted "a\"b.c"], hne⟩ =
      "\"main\".\"a\"\"b.c\"" := by rfl
  rw [htext] at hagain
  exact ⟨⟨hne, h⟩, haccepted.1 ⟨_, h⟩, hagain⟩

end Identifier

end StagedStore
