import ShaderAssembly.Bytes
/-!
# Reading bytes

A read from the front of a byte string takes away what a write would have put there, and fails only
for want of bytes.

* `Bytes.take?_eq_some`, `Bytes.take?_eq_none`: reading some bytes;
* `Bytes.word_wordOf`, `Bytes.wordOf_word`: a word and its four bytes;
* `Bytes.word?_eq_some`, `Bytes.word?_eq_none`: reading a word;
* `Bytes.text?_ofText`: reading a text.
-/

namespace ShaderAssembly.Bytes

/-! ## Reading a number of bytes -/

theorem take?_append (front rest : Bytes) : take? front.length (front ++ rest) = some (front, rest) := by
  induction front with
  | nil => rfl
  | cons b front ih => rw [List.length_cons, List.cons_append, take?, ih, Option.map_some]

theorem take?_eq_some {n : Nat} {bs front rest : Bytes} :
    take? n bs = some (front, rest) ↔ front.length = n ∧ bs = front ++ rest := by
  constructor
  · intro h
    fun_induction take? n bs generalizing front with
    | case1 bs =>
      cases h
      exact ⟨rfl, rfl⟩
    | case2 => cases h
    | case3 n b bs ih =>
      obtain ⟨⟨front, rest⟩, hread, ⟨⟩⟩ := Option.map_eq_some_iff.1 h
      obtain ⟨hlength, hbytes⟩ := ih hread
      exact ⟨by rw [List.length_cons, hlength], by rw [hbytes, List.cons_append]⟩
  · rintro ⟨rfl, rfl⟩
    exact take?_append front rest

theorem take?_eq_none {n : Nat} {bs : Bytes} : take? n bs = none ↔ bs.length < n := by
  fun_induction take? n bs with
  | case1 => simp
  | case2 => simp
  | case3 n b bs ih => rw [Option.map_eq_none_iff, ih, List.length_cons, Nat.add_lt_add_iff_right]

/-! ## Words -/

@[simp] theorem length_word (n : UInt32) : (word n).length = 4 := rfl

theorem wordOf_word (n : UInt32) : wordOf (UInt8.ofNat n.toNat) (UInt8.ofNat (n.toNat / 0x100))
    (UInt8.ofNat (n.toNat / 0x10000)) (UInt8.ofNat (n.toNat / 0x1000000)) = n := by
  have hn := n.toNat_lt
  rw [wordOf, ← UInt32.toNat_inj]
  simp only [UInt8.toNat_ofNat', UInt32.toNat_ofNat']
  omega

theorem word_wordOf (a b c d : UInt8) : word (wordOf a b c d) = [a, b, c, d] := by
  have ha := a.toNat_lt
  have hb := b.toNat_lt
  have hc := c.toNat_lt
  have hd := d.toNat_lt
  have byte {n : Nat} {e : UInt8} (h : n % 256 = e.toNat) : UInt8.ofNat n = e := by
    rw [← UInt8.toNat_inj, UInt8.toNat_ofNat', h]
  have hword : (wordOf a b c d).toNat =
      a.toNat + 0x100 * b.toNat + 0x10000 * c.toNat + 0x1000000 * d.toNat := by
    rw [wordOf, UInt32.toNat_ofNat']
    omega
  rw [word, hword, byte (e := a) (by omega), byte (e := b) (by omega), byte (e := c) (by omega),
    byte (e := d) (by omega)]

theorem word?_append (n : UInt32) (rest : Bytes) : word? (word n ++ rest) = some (n, rest) := by
  rw [word, List.cons_append, List.cons_append, List.cons_append, List.cons_append, List.nil_append,
    word?, wordOf_word]

theorem word?_eq_some {bs rest : Bytes} {n : UInt32} :
    word? bs = some (n, rest) ↔ bs = word n ++ rest := by
  constructor
  · intro h
    unfold word? at h
    split at h
    · cases h
      rw [word_wordOf]
      rfl
    · cases h
  · rintro rfl
    exact word?_append n rest

theorem word?_eq_none {bs : Bytes} : word? bs = none ↔ bs.length < 4 := by
  match bs with
  | [] | [_] | [_, _] | [_, _, _] => simp [word?]
  | a :: b :: c :: d :: rest => simp [word?]

/-! ## Reading a text -/

theorem toList_loop (bs : ByteArray) (i : Nat) (r : List UInt8) :
    ByteArray.toList.loop bs i r = r.reverse ++ bs.data.toList.drop i := by
  fun_induction ByteArray.toList.loop bs i r with
  | case1 i r h ih =>
    have hi : i < bs.data.toList.length := by simpa using h
    rw [ih, List.drop_eq_getElem_cons hi]
    simp [ByteArray.get!, h]
  | case2 i r h =>
    rw [List.drop_eq_nil_of_le (by simpa using Nat.le_of_not_lt h), List.append_nil]

/-- The bytes of a text are read as that text. -/
theorem text?_ofText (s : String) : text? (ofText s) = some s := by
  have hbytes : (⟨(ofText s).toArray⟩ : ByteArray) = s.toUTF8 := by
    rw [ofText, ByteArray.toList, toList_loop, List.reverse_nil, List.nil_append, List.drop_zero]
  rw [text?, hbytes, String.fromUTF8?]
  exact dif_pos s.isValidUTF8

end ShaderAssembly.Bytes
