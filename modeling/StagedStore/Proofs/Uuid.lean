import StagedStore.Uuid

/-!
# Identifiers as texts

Bytes are read from the digits they are written in, and an identifier from its hyphenated form.
-/

namespace StagedStore

namespace Hex

theorem digitValue?_digit {n : Nat} (hn : n < 16) (upper : Bool) :
    digitValue? (digit upper n) = some n := by
  have hall : ∀ upper, ∀ n : Fin 16, digitValue? (digit upper n) = some n.val := by decide
  exact hall upper ⟨n, hn⟩

theorem length_encode (upper : Bool) (bytes : List UInt8) :
    (encode upper bytes).length = 2 * bytes.length := by
  induction bytes with
  | nil => rfl
  | cons b bytes ih =>
      rw [encode, List.flatMap_cons, List.length_append, ← encode, ih, List.length_cons]
      simp
      omega

theorem encode_append (upper : Bool) (bytes bytes' : List UInt8) :
    encode upper (bytes ++ bytes') = encode upper bytes ++ encode upper bytes' :=
  List.flatMap_append

theorem decode?_encode (upper : Bool) (bytes : List UInt8) :
    decode? (encode upper bytes) = some bytes := by
  induction bytes with
  | nil => rfl
  | cons b bytes ih =>
      have hlt := b.toNat_lt
      have hbyte : UInt8.ofNat (16 * (b.toNat / 16) + b.toNat % 16) = b := by
        rw [Nat.div_add_mod, UInt8.ofNat_toNat]
      change decode? (digit upper (b.toNat / 16) :: digit upper (b.toNat % 16) ::
        encode upper bytes) = _
      rw [decode?, digitValue?_digit (by omega), digitValue?_digit (by omega), ih]
      exact congrArg (fun b => some (b :: bytes)) hbyte

theorem notMem_encode {c : Char} (hdigit : ∀ n < 16, digit true n ≠ c) (bytes : List UInt8) :
    c ∉ encode true bytes := by
  intro h
  obtain ⟨b, -, hb⟩ := List.mem_flatMap.1 h
  simp only [List.mem_cons, List.not_mem_nil, or_false] at hb
  rcases hb with hb | hb
  · exact hdigit _ (Nat.div_lt_of_lt_mul b.toNat_lt) hb.symm
  · exact hdigit _ (Nat.mod_lt _ (by decide)) hb.symm

theorem quote_notMem_encode (bytes : List UInt8) : '\'' ∉ encode true bytes :=
  notMem_encode (by decide) bytes

end Hex

namespace Uuid

theorem ofDigits?_encode (u : Uuid) : ofDigits? (Hex.encode false u.bytes) = some u := by
  unfold ofDigits?
  rw [Hex.decode?_encode]
  exact dif_pos u.length_eq

theorem ofHyphenated?_parts {a b c d e : List Char} (ha : a.length = 8) (hb : b.length = 4)
    (hc : c.length = 4) (hd : d.length = 4) :
    ofHyphenated? (a ++ '-' :: (b ++ '-' :: (c ++ '-' :: (d ++ '-' :: e)))) =
      ofDigits? (a ++ b ++ c ++ d ++ e) := by
  simp only [ofHyphenated?, List.drop_left' ha, List.drop_left' hb, List.drop_left' hc,
    List.drop_left' hd, List.take_left' ha, List.take_left' hb, List.take_left' hc,
    List.take_left' hd, dropHyphen?, Option.bind_eq_bind, Option.bind_some]

theorem ofText?_toText (u : Uuid) : ofText? u.toText = some u := by
  have hpart {i n : Nat} (h : i + n ≤ 16) :
      (Hex.encode false ((u.bytes.drop i).take n)).length = 2 * n := by
    rw [Hex.length_encode, List.length_take, List.length_drop, u.length_eq]
    omega
  have hwhole : Hex.encode false ((u.bytes.drop 0).take 4) ++ Hex.encode false ((u.bytes.drop 4).take 2)
      ++ Hex.encode false ((u.bytes.drop 6).take 2) ++ Hex.encode false ((u.bytes.drop 8).take 2)
      ++ Hex.encode false ((u.bytes.drop 10).take 6) = Hex.encode false u.bytes := by
    have hbytes : (u.bytes.drop 0).take 4 ++ (u.bytes.drop 4).take 2 ++ (u.bytes.drop 6).take 2 ++
        (u.bytes.drop 8).take 2 ++ (u.bytes.drop 10).take 6 = u.bytes := by
      have hlast : (u.bytes.drop 10).take 6 = u.bytes.drop 10 :=
        List.take_of_length_le (by have := u.length_eq; rw [List.length_drop]; omega)
      rw [hlast, List.drop_zero, ← List.take_add, ← List.take_add, ← List.take_add,
        List.take_append_drop]
    rw [← Hex.encode_append, ← Hex.encode_append, ← Hex.encode_append, ← Hex.encode_append, hbytes]
  have htext : u.toText.toList = Hex.encode false ((u.bytes.drop 0).take 4) ++
      '-' :: (Hex.encode false ((u.bytes.drop 4).take 2) ++
      '-' :: (Hex.encode false ((u.bytes.drop 6).take 2) ++
      '-' :: (Hex.encode false ((u.bytes.drop 8).take 2) ++
      '-' :: Hex.encode false ((u.bytes.drop 10).take 6)))) := by
    rw [toText, String.toList_ofList]
    simp only [List.append_assoc, List.cons_append]
  have hlength : u.toText.toList.length = 36 := by
    simp only [htext, List.length_append, List.length_cons, hpart (show 0 + 4 ≤ 16 by decide),
      hpart (show 4 + 2 ≤ 16 by decide), hpart (show 6 + 2 ≤ 16 by decide),
      hpart (show 8 + 2 ≤ 16 by decide), hpart (show 10 + 6 ≤ 16 by decide)]
  unfold ofText?
  dsimp only
  rw [hlength, if_neg (by decide), if_pos rfl, htext, ofHyphenated?_parts (hpart (by decide))
    (hpart (by decide)) (hpart (by decide)) (hpart (by decide)), hwhole, ofDigits?_encode]

end Uuid

end StagedStore
