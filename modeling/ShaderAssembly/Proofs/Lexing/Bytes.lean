import ShaderAssembly.Proofs.Bytes
import ShaderAssembly.Proofs.Parsing.Extent
/-!
# Texts as bytes

What the lexer looks for are characters of one byte. A byte is read as the character with its number;
one that belongs to a longer character is none of those.

* `Text.octets`: the bytes of a text, read this way;
* `Bytes.octets_ofText`: they are the bytes of its UTF-8 form;
* `Text.IsAscii`: a class that holds characters of one byte only;
* `Text.takeWhile_octets`, `blanks_octets`, `restOfLine_octets`, `fractionPart_octets`,
  `exponentPart_octets`: the runs and the parts of a number are found in the bytes as in the text;
* `Text.splitBytes?`, `Text.slice?`: cutting a text, which fails inside a character.
-/

namespace ShaderAssembly

namespace Text

/-! ## Bytes as characters -/

/-- The bytes of a text, each read as the character with its number. -/
def octets (cs : List Char) : List Char := cs.flatMap fun c => (String.utf8EncodeChar c).map Char.ofUInt8

@[simp] theorem octets_nil : octets [] = [] := rfl

theorem octets_cons (c : Char) (cs : List Char) :
    octets (c :: cs) = (String.utf8EncodeChar c).map Char.ofUInt8 ++ octets cs := rfl

@[simp] theorem octets_append (as bs : List Char) : octets (as ++ bs) = octets as ++ octets bs :=
  List.flatMap_append

@[simp] theorem length_octets (cs : List Char) : (octets cs).length = byteLength cs := by
  induction cs with
  | nil => rfl
  | cons c cs ih =>
    rw [octets_cons, List.length_append, List.length_map, String.length_utf8EncodeChar, ih,
      byteLength_cons]

theorem toNat_ofUInt8 (b : UInt8) : (Char.ofUInt8 b).toNat = b.toNat := UInt8.toNat_toUInt32 b

/-- A character of one byte is that byte. -/
theorem octets_cons_of_lt {c : Char} (hc : c.toNat < 128) (cs : List Char) :
    octets (c :: cs) = c :: octets cs := by
  have hle : c.val.toNat ≤ 127 := Nat.le_of_lt_succ hc
  have hbyte : Char.ofUInt8 (UInt8.ofNat c.val.toNat) = c := by
    apply Char.ext
    apply UInt32.toNat_inj.1
    refine (toNat_ofUInt8 _).trans ?_
    rw [UInt8.toNat_ofNat']
    exact Nat.mod_eq_of_lt (by omega)
  simp only [octets_cons, String.utf8EncodeChar, hle, if_true, List.map_cons, List.map_nil, hbyte]
  rfl

/-- The bytes of a longer character are no characters of one byte. -/
theorem exists_octets_of_not_lt {c : Char} (hc : ¬ c.toNat < 128) :
    ∃ d ds, (String.utf8EncodeChar c).map Char.ofUInt8 = d :: ds ∧
      ∀ x ∈ d :: ds, ¬ x.toNat < 128 := by
  have hlarge : ¬ c.val.toNat ≤ 127 := fun hle => hc (Nat.lt_succ_of_le hle)
  simp only [String.utf8EncodeChar, hlarge, if_false]
  split
  · refine ⟨_, _, rfl, ?_⟩
    simp [toNat_ofUInt8]
    omega
  split
  · refine ⟨_, _, rfl, ?_⟩
    simp [toNat_ofUInt8]
    omega
  · refine ⟨_, _, rfl, ?_⟩
    simp [toNat_ofUInt8]
    omega

end Text

namespace Bytes

/-- The UTF-8 form of a text is that of its characters, one behind the other. -/
theorem ofText_eq (s : String) : ofText s = s.toList.flatMap String.utf8EncodeChar := by
  have hencode : s.toUTF8 = (s.toList.flatMap String.utf8EncodeChar).toByteArray := by
    obtain ⟨cs, rfl⟩ : ∃ cs, s = String.ofList cs := ⟨_, String.ofList_toList.symm⟩
    rw [String.toList_ofList]
    exact String.toByteArray_ofList
  rw [ofText, hencode, ByteArray.toList, toList_loop, List.toList_data_toByteArray]
  rfl

/-- The bytes of the UTF-8 form of a text behind another one. -/
theorem octets_ofText (before body : String) :
    ((ofText (before ++ body)).drop before.utf8ByteSize).map Char.ofUInt8 = Text.octets body.toList := by
  have hsize : before.utf8ByteSize = (before.toList.flatMap String.utf8EncodeChar).length := by
    rw [← Text.byteLength_toList, ← Text.length_octets, Text.octets, List.length_flatMap,
      List.length_flatMap]
    simp only [List.length_map]
  rw [ofText_eq, String.toList_append, List.flatMap_append, hsize, List.drop_left, Text.octets,
    List.map_flatMap]

end Bytes

namespace Text

/-! ## Runs in the bytes of a text -/

/-- The class holds characters of one byte only. -/
def IsAscii (p : Char → Bool) : Prop := ∀ c, p c = true → c.toNat < 128

variable {p : Char → Bool} {cs : List Char}

theorem isAscii_between {first last : UInt32} (hlast : last.toNat < 128) :
    IsAscii fun c => decide (c.val ≥ first) && decide (c.val ≤ last) := by
  intro c hc
  simp only [Bool.and_eq_true, decide_eq_true_eq, UInt32.le_iff_toNat_le] at hc
  exact Nat.lt_of_le_of_lt hc.2 hlast

theorem isAscii_isDigit : IsAscii Char.isDigit := isAscii_between (by decide)

theorem isAscii_beq {d : Char} (hd : d.toNat < 128) : IsAscii (· == d) := by
  intro c hc
  rwa [beq_iff_eq.1 hc]

theorem IsAscii.or {q : Char → Bool} (hp : IsAscii p) (hq : IsAscii q) :
    IsAscii fun c => p c || q c := by
  intro c hc
  rw [Bool.or_eq_true] at hc
  exact hc.elim (hp c) (hq c)

theorem isAscii_isUpper : IsAscii Char.isUpper := fun _ hc =>
  Nat.lt_of_le_of_lt (of_decide_eq_true hc).2 (by decide)

theorem isAscii_isLower : IsAscii Char.isLower := isAscii_between (by decide)

theorem isAscii_isAlpha : IsAscii Char.isAlpha := isAscii_isUpper.or isAscii_isLower

theorem isAscii_isWordStart : IsAscii isWordStart :=
  (isAscii_isAlpha.or (isAscii_beq (by decide))).or (isAscii_beq (by decide))

theorem isAscii_isWordChar : IsAscii isWordChar := isAscii_isWordStart.or isAscii_isDigit

theorem isAscii_isBlank : IsAscii isBlank :=
  ((isAscii_beq (by decide)).or (isAscii_beq (by decide))).or (isAscii_beq (by decide))

/-- The first byte is in the same classes as the first character. -/
theorem exists_octets_cons (c : Char) (cs : List Char) : ∃ d ds, octets (c :: cs) = d :: ds ∧
    (∀ p, IsAscii p → p d = p c) := by
  by_cases hc : c.toNat < 128
  · exact ⟨c, octets cs, octets_cons_of_lt hc cs, fun _ _ => rfl⟩
  · obtain ⟨d, ds, hbytes, hlarge⟩ := exists_octets_of_not_lt hc
    refine ⟨d, ds ++ octets cs, by rw [octets_cons, hbytes, List.cons_append], fun p hp => ?_⟩
    have hfirst : p d = false := Bool.eq_false_iff.2 fun h => hlarge d List.mem_cons_self (hp d h)
    have hother : p c = false := Bool.eq_false_iff.2 fun h => hc (hp c h)
    exact hfirst.trans hother.symm

theorem startsWith_octets (hp : IsAscii p) : startsWith p (octets cs) = startsWith p cs := by
  cases cs with
  | nil => rfl
  | cons c cs =>
    obtain ⟨d, ds, hbytes, hsame⟩ := exists_octets_cons c cs
    rw [hbytes]
    exact hsame p hp

/-- A run of characters of one byte is found in the bytes as in the text. -/
theorem takeWhile_octets (hp : IsAscii p) (cs : List Char) :
    (octets cs).takeWhile p = cs.takeWhile p ∧ (octets cs).dropWhile p = octets (cs.dropWhile p) := by
  induction cs with
  | nil => exact ⟨rfl, rfl⟩
  | cons c cs ih =>
    by_cases hc : p c = true
    · rw [octets_cons_of_lt (hp c hc), List.takeWhile_cons_of_pos hc, List.takeWhile_cons_of_pos hc,
        List.dropWhile_cons_of_pos hc, List.dropWhile_cons_of_pos hc, ih.1]
      exact ⟨rfl, ih.2⟩
    · obtain ⟨d, ds, hbytes, hsame⟩ := exists_octets_cons c cs
      have hd : ¬ p d = true := by rwa [hsame p hp]
      rw [List.takeWhile_cons_of_neg hc, List.dropWhile_cons_of_neg hc, hbytes]
      exact ⟨List.takeWhile_cons_of_neg hd, List.dropWhile_cons_of_neg hd⟩

theorem isAscii_newline : IsAscii (· == '\n') := isAscii_beq (by decide)

theorem isAscii_return : IsAscii (· == '\r') := isAscii_beq (by decide)

theorem isAscii_point : IsAscii (· == '.') := isAscii_beq (by decide)

end Text

open Text

/-! ## What the lexer looks for -/

theorem blanks_octets (cs : List Char) : blanks (octets cs) = ((blanks cs).1, octets (blanks cs).2) := by
  induction cs with
  | nil => rfl
  | cons c cs ih =>
    by_cases hc : (isBlank c || (c == '\r' && !startsWith (· == '\n') cs)) = true
    · have hascii : c.toNat < 128 := by
        refine (isAscii_isBlank.or isAscii_return) c ?_
        rw [Bool.or_eq_true, Bool.and_eq_true] at hc
        rw [Bool.or_eq_true]
        exact hc.imp_right And.left
      rw [octets_cons_of_lt hascii, blanks, blanks, startsWith_octets isAscii_newline, if_pos hc,
        if_pos hc, ih]
    · obtain ⟨d, ds, hbytes, hsame⟩ := exists_octets_cons c cs
      have hstop : blanks (octets (c :: cs)) = ([], octets (c :: cs)) := by
        by_cases hreturn : c == '\r'
        · have hascii := isAscii_return c hreturn
          rw [octets_cons_of_lt hascii, blanks, startsWith_octets isAscii_newline, if_neg hc]
        · rw [hbytes, blanks, hsame _ isAscii_isBlank, hsame _ isAscii_return]
          rw [Bool.not_eq_true] at hreturn
          rw [hreturn, Bool.false_and] at hc ⊢
          rw [if_neg hc]
      rw [hstop, blanks, if_neg hc]

theorem restOfLine_append_of_not_lt {ds : List Char} (h : ∀ d ∈ ds, ¬ d.toNat < 128)
    (cs : List Char) : restOfLine (ds ++ cs) = (ds ++ (restOfLine cs).1, (restOfLine cs).2) := by
  induction ds with
  | nil => rfl
  | cons d ds ih =>
    have hd := h d List.mem_cons_self
    have hnewline : (d == '\n') = false := Bool.eq_false_iff.2 fun hd' => hd (isAscii_newline d hd')
    have hreturn : (d == '\r') = false := Bool.eq_false_iff.2 fun hd' => hd (isAscii_return d hd')
    rw [List.cons_append, restOfLine, hnewline, hreturn,
      ih fun x hx => h x (List.mem_cons_of_mem _ hx)]
    rfl

theorem restOfLine_octets (cs : List Char) :
    restOfLine (octets cs) = (octets (restOfLine cs).1, octets (restOfLine cs).2) := by
  induction cs with
  | nil => rfl
  | cons c cs ih =>
    by_cases hc : c.toNat < 128
    · rw [octets_cons_of_lt hc, restOfLine, restOfLine, startsWith_octets isAscii_newline]
      split
      · rw [octets_cons_of_lt hc]
        rfl
      · rw [ih]
        dsimp only
        rw [octets_cons_of_lt hc]
    · obtain ⟨d, ds, hbytes, hlarge⟩ := exists_octets_of_not_lt hc
      have hsingle : ∀ d ∈ [c], ¬ d.toNat < 128 := by simpa using hc
      have hline : restOfLine (c :: cs) = (c :: (restOfLine cs).1, (restOfLine cs).2) :=
        restOfLine_append_of_not_lt hsingle cs
      rw [octets_cons, hbytes, restOfLine_append_of_not_lt hlarge, ih, hline, ← hbytes]
      rfl

theorem pointContinues_eq (cs : List Char) :
    pointContinues cs = !startsWith (fun c => c == '.' || isWordStart c) cs := by
  cases cs with
  | nil => rfl
  | cons c cs => simp [pointContinues, startsWith, bne]

theorem fractionPart_octets (cs : List Char) :
    fractionPart (octets cs) = ((fractionPart cs).1, octets (fractionPart cs).2) := by
  cases cs with
  | nil => rfl
  | cons c cs =>
    obtain ⟨d, ds, hbytes, hsame⟩ := exists_octets_cons c cs
    cases hpoint : c == '.' with
    | false =>
      rw [hbytes, fractionPart, fractionPart, hsame _ isAscii_point, hpoint]
      exact Prod.ext rfl hbytes.symm
    | true =>
      have hascii := isAscii_point c hpoint
      have hnext : pointContinues (octets cs) = pointContinues cs := by
        rw [pointContinues_eq, pointContinues_eq,
          startsWith_octets (isAscii_point.or isAscii_isWordStart)]
      obtain ⟨htake, hdrop⟩ := takeWhile_octets isAscii_isDigit cs
      rw [octets_cons_of_lt hascii, fractionPart, fractionPart, hpoint, hnext, htake, hdrop]
      split
      · rfl
      · rw [octets_cons_of_lt hascii]

theorem signPart_octets (cs : List Char) :
    signPart (octets cs) = ((signPart cs).1, octets (signPart cs).2) := by
  cases cs with
  | nil => rfl
  | cons c cs =>
    obtain ⟨d, ds, hbytes, hsame⟩ := exists_octets_cons c cs
    have hsign : IsAscii fun c => c == '+' || c == '-' :=
      (isAscii_beq (by decide)).or (isAscii_beq (by decide))
    cases hc : (c == '+' || c == '-') with
    | false =>
      rw [hbytes, signPart, signPart, hsame _ hsign, hc]
      exact Prod.ext rfl hbytes.symm
    | true =>
      rw [octets_cons_of_lt (hsign c hc), signPart, signPart, if_pos hc, if_pos hc]

theorem exponentPart_octets (cs : List Char) :
    exponentPart (octets cs) = ((exponentPart cs).1, octets (exponentPart cs).2) := by
  cases cs with
  | nil => rfl
  | cons c cs =>
    obtain ⟨d, ds, hbytes, hsame⟩ := exists_octets_cons c cs
    have hmark : IsAscii fun c => c == 'e' || c == 'E' :=
      (isAscii_beq (by decide)).or (isAscii_beq (by decide))
    cases hc : (c == 'e' || c == 'E') with
    | false =>
      rw [hbytes, exponentPart, exponentPart]
      simp only [hsame _ hmark, hc]
      exact Prod.ext rfl hbytes.symm
    | true =>
      obtain ⟨htake, hdrop⟩ := takeWhile_octets isAscii_isDigit (signPart cs).2
      rw [octets_cons_of_lt (hmark c hc), exponentPart, exponentPart, signPart_octets]
      simp only [startsWith_octets isAscii_isDigit, htake, hdrop]
      split
      · rfl
      · rw [octets_cons_of_lt (hmark c hc)]

/-! ## Cutting a text -/

namespace Text

/-- The text before and after byte `n`, if a character starts there or the text ends. -/
def splitBytes? : Nat → List Char → Option (List Char × List Char)
  | 0, cs => some ([], cs)
  | _ + 1, [] => none
  | n + 1, c :: cs =>
    if c.utf8Size ≤ n + 1 then
      (splitBytes? (n + 1 - c.utf8Size) cs).map fun (before, after) => (c :: before, after)
    else none

/-- The text from byte `start` up to byte `stop`, if characters start at both or the text ends. -/
def slice? (start stop : Nat) (cs : List Char) : Option (List Char) :=
  (splitBytes? stop cs).bind fun (before, _) => (splitBytes? start before).map Prod.snd

theorem splitBytes?_append (as bs : List Char) :
    splitBytes? (byteLength as) (as ++ bs) = some (as, bs) := by
  induction as with
  | nil => cases bs <;> rfl
  | cons c as ih =>
    obtain ⟨n, hn⟩ : ∃ n, byteLength (c :: as) = n + 1 :=
      Nat.exists_eq_add_one.2 (Nat.add_pos_left c.utf8Size_pos _)
    have hle : c.utf8Size ≤ n + 1 := hn ▸ Nat.le_add_right _ _
    have hrest : n + 1 - c.utf8Size = byteLength as := by
      rw [← hn, byteLength_cons, Nat.add_sub_cancel_left]
    rw [List.cons_append, hn, splitBytes?, if_pos hle, hrest, ih]
    rfl

theorem slice?_append (before part after : List Char) :
    slice? (byteLength before) (byteLength before + byteLength part) (before ++ (part ++ after)) =
      some part := by
  rw [slice?, ← byteLength_append, ← List.append_assoc, splitBytes?_append, Option.bind_some]
  dsimp only
  rw [splitBytes?_append]
  rfl

end Text

end ShaderAssembly
