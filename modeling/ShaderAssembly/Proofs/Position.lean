import Mathlib.Data.List.Induction
import ShaderAssembly.KeyOrder
import ShaderAssembly.Proofs.Parsing.Extent
/-!
# Lines and columns

The position of a place in a text grows from character to character, so that it tells the place.

* `Position.after_concat`: how a character moves the position behind a text;
* `Position.after_lt_after_append`: the position grows with the text;
* `Position.exists_lines`: the lines that end in front of a place, and the begin of its own line;
* `Text.leadingLines`, `offsetOf`: from a position back to the place;
* `Text.splitBytes_spec`: to which place an offset belongs;
* **`locate_embeds`**: positions tell places, and are in the same order.
-/

namespace ShaderAssembly

namespace Position

/-! ## Order -/

/-- Positions are in reading order. -/
instance : LT Position := ⟨fun p q => p.line < q.line ∨ p.line = q.line ∧ p.column < q.column⟩

theorem lt_iff {p q : Position} : p < q ↔ p.line < q.line ∨ p.line = q.line ∧ p.column < q.column :=
  Iff.rfl

instance : KeyOrder Position where
  irrefl p h := by
    rw [lt_iff] at h
    omega
  trans {p q r} h h' := by
    rw [lt_iff] at h h' ⊢
    omega
  connected {p q} h hne := by
    obtain ⟨line, column⟩ := p
    obtain ⟨line', column'⟩ := q
    have : ¬ (line = line' ∧ column = column') := fun he => hne (by rw [he.1, he.2])
    rw [lt_iff] at h ⊢
    dsimp only at h ⊢
    omega

/-! ## The position behind a text -/

theorem after_concat (cs : List Char) (c : Char) : after (cs ++ [c]) =
    if c = '\n' then ⟨(after cs).line + 1, 1⟩ else ⟨(after cs).line, (after cs).column + 1⟩ := by
  simp only [after, List.count_append, List.reverse_append, List.reverse_singleton,
    List.singleton_append, List.takeWhile_cons]
  by_cases h : c = '\n'
  · subst h
    simp
  · simp [h]

theorem after_lt_after_concat (cs : List Char) (c : Char) : after cs < after (cs ++ [c]) := by
  rw [after_concat, lt_iff]
  split
  · exact .inl (Nat.lt_succ_self _)
  · exact .inr ⟨rfl, Nat.lt_succ_self _⟩

theorem after_lt_after_append (cs : List Char) {ds : List Char} (h : ds ≠ []) :
    after cs < after (cs ++ ds) := by
  induction ds generalizing cs with
  | nil => exact absurd rfl h
  | cons d ds ih =>
    have hstep := after_lt_after_concat cs d
    cases ds with
    | nil => exact hstep
    | cons e es =>
      have hrest := ih (cs ++ [d]) (List.cons_ne_nil e es)
      rw [List.append_assoc, List.singleton_append] at hrest
      exact KeyOrder.trans hstep hrest

/-! ## Lines -/

/-- The text is empty or ends with a line feed. -/
def EndsLine (cs : List Char) : Prop := cs = [] ∨ ∃ ds, cs = ds ++ ['\n']

/-- A text consists of lines that end in it and the begin of one more line, and the position behind
it counts the former and the characters of the latter. -/
theorem exists_lines (cs : List Char) : ∃ lines last, cs = lines ++ last ∧ EndsLine lines ∧
    '\n' ∉ last ∧ after cs = ⟨lines.count '\n' + 1, last.length + 1⟩ := by
  induction cs using List.reverseRecOn with
  | nil => exact ⟨[], [], rfl, .inl rfl, List.not_mem_nil, rfl⟩
  | append_singleton cs c ih =>
    obtain ⟨lines, last, hcs, hlines, hlast, hafter⟩ := ih
    rw [after_concat]
    by_cases hc : c = '\n'
    · rw [if_pos hc]
      refine ⟨cs ++ [c], [], (List.append_nil _).symm, .inr ⟨cs, by rw [hc]⟩, List.not_mem_nil, ?_⟩
      rw [hc, List.count_append, List.count_singleton_self]
      rfl
    · rw [if_neg hc, hafter]
      refine ⟨lines, last ++ [c], by rw [hcs, List.append_assoc], hlines, ?_, ?_⟩
      · simpa [hlast] using Ne.symm hc
      · rw [List.length_append, List.length_singleton]

theorem EndsLine.of_cons {c : Char} {cs : List Char} (h : EndsLine (c :: cs)) :
    EndsLine cs ∧ (c ≠ '\n' → 0 < cs.count '\n') := by
  obtain h | ⟨ds, hds⟩ := h
  · cases h
  cases ds with
  | nil =>
    obtain ⟨rfl, rfl⟩ := List.cons.inj hds
    exact ⟨.inl rfl, fun hc => absurd rfl hc⟩
  | cons d ds =>
    obtain ⟨-, rfl⟩ := List.cons.inj hds
    exact ⟨.inr ⟨ds, rfl⟩, fun _ => List.count_pos_iff.2 (List.mem_append_right ds List.mem_cons_self)⟩

end Position

/-! ## From a position to the place -/

namespace Text

/-- The first `n` lines of a text, and the rest. -/
def leadingLines : Nat → List Char → List Char × List Char
  | 0, cs => ([], cs)
  | _ + 1, [] => ([], [])
  | n + 1, c :: cs =>
    let (lines, rest) := leadingLines (if c = '\n' then n else n + 1) cs
    (c :: lines, rest)

theorem leadingLines_append {lines : List Char} (h : Position.EndsLine lines) (rest : List Char) :
    leadingLines (lines.count '\n') (lines ++ rest) = (lines, rest) := by
  induction lines with
  | nil => exact leadingLines.eq_1 rest
  | cons c cs ih =>
    obtain ⟨hcs, hpos⟩ := h.of_cons
    by_cases hc : c = '\n'
    · rw [hc, List.count_cons_self, List.cons_append, leadingLines, if_pos rfl, ih hcs]
    · obtain ⟨n, hn⟩ := Nat.exists_eq_succ_of_ne_zero (Nat.ne_of_gt (hpos hc))
      have hrest := ih hcs
      rw [hn] at hrest
      rw [List.count_cons_of_ne hc, hn, List.cons_append, leadingLines, if_neg hc, hrest]

/-! ## Offsets -/

/-- An offset belongs to the last place that it reaches. -/
theorem splitBytes_spec (n : Nat) (cs : List Char) : byteLength (splitBytes n cs).1 ≤ n ∧
    ∀ before after, cs = before ++ after → byteLength before ≤ n →
      byteLength before ≤ byteLength (splitBytes n cs).1 := by
  fun_induction splitBytes n cs with
  | case1 n =>
    refine ⟨Nat.zero_le n, fun before after h _ => ?_⟩
    obtain ⟨rfl, -⟩ := List.append_eq_nil_iff.1 h.symm
    exact Nat.le_refl _
  | case2 n c cs hc front rest heq ih =>
    rw [heq] at ih
    obtain ⟨hle, hlast⟩ := ih
    dsimp only at hle hlast ⊢
    rw [byteLength_cons]
    refine ⟨by omega, fun before after h hn => ?_⟩
    cases before with
    | nil => exact Nat.zero_le _
    | cons d ds =>
      obtain ⟨rfl, hcs⟩ := List.cons.inj h
      rw [byteLength_cons] at hn ⊢
      have := hlast ds after hcs (by omega)
      omega
  | case3 n c cs hc =>
    refine ⟨Nat.zero_le n, fun before after h hn => ?_⟩
    cases before with
    | nil => exact Nat.le_refl _
    | cons d ds =>
      obtain ⟨rfl, -⟩ := List.cons.inj h
      rw [byteLength_cons] at hn
      omega

/-- All offsets inside a character belong to the place in front of it. -/
theorem splitBytes_inside {k : Nat} (before : List Char) {c : Char} (h : k < c.utf8Size)
    (after : List Char) :
    splitBytes (byteLength before + k) (before ++ c :: after) = (before, c :: after) := by
  induction before with
  | nil => rw [byteLength_nil, Nat.zero_add, List.nil_append, splitBytes, if_neg (Nat.not_le.2 h)]
  | cons d ds ih =>
    rw [List.cons_append, byteLength_cons, splitBytes, if_pos (by omega), Nat.add_assoc,
      Nat.add_sub_cancel_left, ih]

theorem splitBytes_of_le {n : Nat} {cs : List Char} (h : byteLength cs ≤ n) :
    splitBytes n cs = (cs, []) := by
  induction cs generalizing n with
  | nil => rw [splitBytes]
  | cons c cs ih =>
    rw [byteLength_cons] at h
    rw [splitBytes, if_pos (by omega), ih (by omega)]

end Text

/-- The byte offset of a position: that of the first characters of a line, behind the lines before. -/
def offsetOf (source : String) (p : Position) : Nat :=
  let (lines, rest) := Text.leadingLines (p.line - 1) source.toList
  Text.byteLength lines + Text.byteLength (rest.take (p.column - 1))

variable {source : String} {before after : List Char}

theorem offsetOf_after (h : source.toList = before ++ after) :
    offsetOf source (.after before) = Text.byteLength before := by
  obtain ⟨lines, last, rfl, hlines, -, hafter⟩ := Position.exists_lines before
  rw [offsetOf, hafter, h, List.append_assoc, Nat.add_sub_cancel, Text.leadingLines_append hlines,
    Text.byteLength_append]
  dsimp only
  rw [Nat.add_sub_cancel, List.take_left]

theorem locate_of_append (h : source.toList = before ++ after) :
    locate source (Text.byteLength before) = .after before := by
  rw [locate, h, Text.splitBytes_append_left]

theorem isValid_iff {o : Nat} : (⟨o⟩ : String.Pos.Raw).IsValid source ↔
    ∃ before after, source.toList = before ++ after ∧ Text.byteLength before = o := by
  rw [String.Pos.Raw.isValid_iff_exists_append]
  constructor
  · rintro ⟨s, t, rfl, ho⟩
    refine ⟨s.toList, t.toList, String.toList_append, ?_⟩
    rw [Text.byteLength_toList]
    exact (congrArg String.Pos.Raw.byteIdx ho).symm
  · rintro ⟨before, after, hsource, rfl⟩
    refine ⟨.ofList before, .ofList after, ?_, ?_⟩
    · rw [← String.ofList_append, ← hsource, String.ofList_toList]
    · rw [String.Pos.Raw.ext_iff, String.byteIdx_rawEndPos, ← Text.byteLength_toList, String.toList_ofList]

theorem locate_lt_locate {o o' : Nat} (ho : (⟨o⟩ : String.Pos.Raw).IsValid source)
    (ho' : (⟨o'⟩ : String.Pos.Raw).IsValid source) (h : o < o') : locate source o < locate source o' := by
  obtain ⟨before, after, hsource, rfl⟩ := isValid_iff.1 ho
  obtain ⟨before', after', hsource', rfl⟩ := isValid_iff.1 ho'
  rw [locate_of_append hsource, locate_of_append hsource']
  obtain ⟨more, rfl, -⟩ | ⟨less, rfl, -⟩ := List.append_eq_append_iff.1 (hsource.symm.trans hsource')
  · refine Position.after_lt_after_append before ?_
    rintro rfl
    rw [List.append_nil] at h
    exact Nat.lt_irrefl _ h
  · rw [Text.byteLength_append] at h
    omega

/-- **Positions tell places, and are in the same order.** Of two places between characters the later
one has the later position. All offsets inside a character have the position of its first byte, and
those behind the text that of its end. So every offset belongs to a place, the last one that it
reaches, and its position counts the line feeds in front of that place and the characters behind the
last of them; from the two numbers the place can be found again. -/
theorem locate_embeds (source : String) :
    (∀ o o' : Nat, (⟨o⟩ : String.Pos.Raw).IsValid source → (⟨o'⟩ : String.Pos.Raw).IsValid source →
      (o < o' ↔ locate source o < locate source o') ∧ (locate source o = locate source o' → o = o')) ∧
    (∀ before c after k, source.toList = before ++ c :: after → k < c.utf8Size →
      locate source (Text.byteLength before + k) = locate source (Text.byteLength before)) ∧
    (∀ o, source.utf8ByteSize ≤ o → locate source o = locate source source.utf8ByteSize) ∧
    ∀ o, ∃ before after, source.toList = before ++ after ∧ Text.byteLength before ≤ o ∧
      (∀ o' : Nat, (⟨o'⟩ : String.Pos.Raw).IsValid source → o' ≤ o → o' ≤ Text.byteLength before) ∧
      (locate source o).line = before.count '\n' + 1 ∧
      (∃ lines last, before = lines ++ last ∧ Position.EndsLine lines ∧ '\n' ∉ last ∧
        (locate source o).column = last.length + 1) ∧
      offsetOf source (locate source o) = Text.byteLength before := by
  refine ⟨fun o o' ho ho' => ⟨⟨locate_lt_locate ho ho', fun h => ?back⟩, fun h => ?same⟩,
    fun before c after k hsource hk => ?inside, fun o ho => ?behind, fun o => ?place⟩
  case back =>
    by_cases hle : o' ≤ o
    · obtain hlt | rfl := Nat.lt_or_eq_of_le hle
      · exact absurd (locate_lt_locate ho' ho hlt) (KeyOrder.lt_asymm h)
      · exact absurd h (KeyOrder.irrefl _)
    · omega
  case same =>
    obtain ⟨before, after, hsource, rfl⟩ := isValid_iff.1 ho
    obtain ⟨before', after', hsource', rfl⟩ := isValid_iff.1 ho'
    rw [locate_of_append hsource, locate_of_append hsource'] at h
    rw [← offsetOf_after hsource, h, offsetOf_after hsource']
  case inside => rw [locate_of_append hsource, locate, hsource, Text.splitBytes_inside before hk]
  case behind =>
    rw [locate, locate, Text.splitBytes_of_le (by rwa [Text.byteLength_toList]),
      Text.splitBytes_of_le (Nat.le_of_eq (Text.byteLength_toList source))]
  case place =>
    obtain ⟨hle, hlast⟩ := Text.splitBytes_spec o source.toList
    have hsource := (Text.splitBytes_append o source.toList).symm
    obtain ⟨lines, last, hbefore, hlines, hnone, hafter⟩ :=
      Position.exists_lines (Text.splitBytes o source.toList).1
    refine ⟨_, _, hsource, hle, fun o' ho' hle' => ?_, rfl, ⟨lines, last, hbefore, hlines, hnone, ?_⟩,
      offsetOf_after hsource⟩
    · obtain ⟨before, after, hsplit, rfl⟩ := isValid_iff.1 ho'
      exact hlast before after hsplit hle'
    · rw [locate, hafter]

/-- The line feed in a text with a character of two bytes is at byte 2, and what follows it at byte 3. -/
theorem locate_embeds_accented :
    (⟨2⟩ : String.Pos.Raw).IsValid "é\nb" ∧ (⟨3⟩ : String.Pos.Raw).IsValid "é\nb" ∧
      locate "é\nb" 2 < locate "é\nb" 3 ∧ 1 < 'é'.utf8Size ∧ locate "é\nb" (0 + 1) = locate "é\nb" 0 ∧
      "é\nb".utf8ByteSize ≤ 9 ∧ locate "é\nb" 9 = locate "é\nb" "é\nb".utf8ByteSize := by
  obtain ⟨hembeds, hinside, hbehind, -⟩ := locate_embeds "é\nb"
  have hfeed : (⟨2⟩ : String.Pos.Raw).IsValid "é\nb" := isValid_iff.2 ⟨['é'], ['\n', 'b'], by decide, rfl⟩
  have hnext : (⟨3⟩ : String.Pos.Raw).IsValid "é\nb" := isValid_iff.2 ⟨['é', '\n'], ['b'], by decide, rfl⟩
  exact ⟨hfeed, hnext, (hembeds 2 3 hfeed hnext).1.1 (by decide), by decide,
    hinside [] 'é' ['\n', 'b'] 1 (by decide) (by decide), by decide, hbehind 9 (by decide)⟩

end ShaderAssembly
