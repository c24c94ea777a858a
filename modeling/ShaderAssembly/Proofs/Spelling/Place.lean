import ShaderAssembly.Proofs.Parsing.Extent
/-!
# Where texts stand

* **`Text.StandsAt`**: a text stands at a byte of another one;
* `Text.standsAt_slice`: a slice from the start of one text to the end of another one;
* `Token.pairwise_significant`: each token starts behind the ones before it;
* **`Token.standsAt_of_mem_significant`**: each token has the text that stands at its byte.
-/

namespace ShaderAssembly

/-! ## Texts in texts -/

namespace Text

/-- The text `part` stands at byte `offset`. -/
def StandsAt (cs : List Char) (offset : Nat) (part : List Char) : Prop :=
  ∃ before after, cs = before ++ part ++ after ∧ byteLength before = offset

theorem eq_nil_of_byteLength {cs : List Char} (h : byteLength cs = 0) : cs = [] := by
  cases cs with
  | nil => rfl
  | cons c cs =>
    have := c.utf8Size_pos
    rw [byteLength_cons] at h
    omega

theorem exists_append_of_byteLength_le {as bs as' bs' : List Char} (h : as ++ bs = as' ++ bs')
    (hle : byteLength as ≤ byteLength as') : ∃ cs, as' = as ++ cs := by
  obtain ⟨cs, hcs, -⟩ | ⟨cs, hcs, -⟩ := List.append_eq_append_iff.1 h
  · exact ⟨cs, hcs⟩
  · have hnil : cs = [] := eq_nil_of_byteLength (by
      have := congrArg byteLength hcs
      rw [byteLength_append] at this
      omega)
    exact ⟨[], by rw [hcs, hnil, List.append_nil, List.append_nil]⟩

/-- **A slice from the start of one text to the end of another one** that stands no further ahead. -/
theorem standsAt_slice {cs part part' : List Char} {i j : Nat} (h : StandsAt cs i part)
    (h' : StandsAt cs j part') (hle : i ≤ j + byteLength part') :
    StandsAt cs i (slice i (j + byteLength part') cs) ∧
      i + byteLength (slice i (j + byteLength part') cs) = j + byteLength part' := by
  obtain ⟨before, after, hcs, rfl⟩ := h
  obtain ⟨before', after', hcs', rfl⟩ := h'
  rw [List.append_assoc] at hcs
  have hlength : byteLength (before' ++ part') = byteLength before' + byteLength part' :=
    byteLength_append _ _
  obtain ⟨inside, hinside⟩ := exists_append_of_byteLength_le (hcs.symm.trans hcs') (hlength ▸ hle)
  have hslice : slice (byteLength before) (byteLength before' + byteLength part') cs = inside := by
    rw [slice, hcs', ← hlength, splitBytes_append_left, hinside, splitBytes_append_left]
  rw [hslice]
  refine ⟨⟨before, after', by rw [← hinside, hcs'], rfl⟩, ?_⟩
  rw [← hlength, hinside, byteLength_append]

end Text

/-! ## Tokens in texts -/

namespace Token

theorem exists_scan_of_mem_scanFrom {offset : Nat} {cs : List Char} {t : Token}
    (h : t ∈ scanFrom offset cs) : ∃ before c after,
      cs = before ++ c :: after ∧ offset + Text.byteLength before = t.offset ∧
        (Lexeme.scan c after).kind = t.kind ∧ (Lexeme.scan c after).text = t.text.toList := by
  fun_induction scanFrom offset cs with
  | case1 => cases h
  | case2 offset c cs lexeme ih =>
    cases h with
    | head => exact ⟨[], c, cs, rfl, rfl, rfl, by rw [String.toList_ofList]⟩
    | tail _ h =>
      obtain ⟨before, d, after, hrest, hoffset, hscan⟩ := ih h
      refine ⟨lexeme.text ++ before, d, after, ?_, ?_, hscan⟩
      · rw [List.append_assoc, ← hrest]
        exact (Lexeme.text_append_rest c cs).symm
      · rw [Text.byteLength_append, ← Nat.add_assoc, hoffset]

theorem pairwise_scanFrom (offset : Nat) (cs : List Char) :
    (scanFrom offset cs).Pairwise (·.offset < ·.offset) := by
  fun_induction scanFrom offset cs with
  | case1 => exact .nil
  | case2 offset c cs lexeme ih =>
    have htext : 0 < Text.byteLength lexeme.text :=
      Nat.pos_of_ne_zero fun h => Lexeme.text_ne_nil c cs (Text.eq_nil_of_byteLength h)
    refine List.pairwise_cons.2 ⟨fun t ht => ?_, ih⟩
    have := (place_of_mem_scanFrom ht).1
    dsimp only
    omega

theorem ofSource_append (before body : String) :
    ofSource (before ++ body) before.utf8ByteSize = scanFrom before.utf8ByteSize body.toList := by
  have hsize : before.utf8ByteSize = Text.byteLength before.toList := (Text.byteLength_toList _).symm
  rw [ofSource, String.toList_append, hsize, Text.splitBytes_append_left]

variable {source : String} {start : Nat}

theorem exists_scan_of_mem_ofSource {t : Token} (h : t ∈ ofSource source start) :
    ∃ before c after, source.toList = before ++ c :: after ∧ Text.byteLength before = t.offset ∧
      (Lexeme.scan c after).kind = t.kind ∧ (Lexeme.scan c after).text = t.text.toList := by
  rw [ofSource] at h
  obtain ⟨before, c, after, hrest, hoffset, hscan⟩ := exists_scan_of_mem_scanFrom h
  refine ⟨(Text.splitBytes start source.toList).1 ++ before, c, after, ?_, ?_, hscan⟩
  · rw [List.append_assoc, ← hrest, Text.splitBytes_append]
  · rw [Text.byteLength_append, hoffset]

theorem standsAt_of_mem_ofSource {t : Token} (h : t ∈ ofSource source start) :
    Text.StandsAt source.toList t.offset t.text.toList := by
  obtain ⟨before, c, after, hsource, hoffset, -, htext⟩ := exists_scan_of_mem_ofSource h
  refine ⟨before, (Lexeme.scan c after).rest, ?_, hoffset⟩
  rw [hsource, List.append_assoc, ← htext, Lexeme.text_append_rest]

/-- **Each token that is read has the text that stands at its byte.** -/
theorem standsAt_of_mem_significant {t : Token} (h : t ∈ significant source start) :
    Text.StandsAt source.toList t.offset t.text.toList :=
  standsAt_of_mem_ofSource (List.mem_filter.1 h).1

/-- **Each token that is read starts behind the ones before it.** -/
theorem pairwise_significant (source : String) (start : Nat) :
    (significant source start).Pairwise (·.offset < ·.offset) := by
  rw [significant, ofSource]
  exact (pairwise_scanFrom _ _).filter _

end Token

end ShaderAssembly
