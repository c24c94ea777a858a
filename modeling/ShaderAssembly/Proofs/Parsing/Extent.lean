import ShaderAssembly.Header
import ShaderAssembly.Token.Lexer
/-!
# Where tokens stand

* `Text.cutAt?_eq_some`, `Text.splitBytes_append_left`: cutting a text where a pattern occurs and at
  a byte offset;
* `Header.exists_of_classify`: the text behind a signature;
* `Token.significant`: the tokens that are read;
* **`Token.place_of_mem_ofSource`**, **`Token.length_ofSource`**: every token starts inside the text
  behind the signature, which has no fewer bytes than tokens.
-/

namespace ShaderAssembly

/-! ## Cutting texts -/

namespace Text

theorem byteLength_toList (s : String) : byteLength s.toList = s.utf8ByteSize := by
  have ofList (cs : List Char) : (String.ofList cs).utf8ByteSize = byteLength cs := by
    induction cs with
    | nil => rfl
    | cons c cs ih => simp [String.ofList_cons, ih]
  rw [← ofList, String.ofList_toList]

theorem dropPrefix?_eq_some {pattern cs after : List Char}
    (h : dropPrefix? pattern cs = some after) : cs = pattern ++ after := by
  fun_induction dropPrefix? pattern cs with
  | case1 => exact Option.some.inj h
  | case2 => cases h
  | case3 ps c cs ih => rw [ih h, List.cons_append]
  | case4 => cases h

theorem cutAt?_eq_some {pattern cs before after : List Char}
    (h : cutAt? pattern cs = some (before, after)) : cs = before ++ pattern ++ after := by
  induction cs generalizing before with
  | nil =>
    obtain ⟨_, hdrop, ⟨⟩⟩ := Option.map_eq_some_iff.1 h
    exact dropPrefix?_eq_some hdrop
  | cons c cs ih =>
    rw [cutAt?] at h
    split at h
    · cases h
      exact dropPrefix?_eq_some ‹_›
    · obtain ⟨⟨before, after⟩, hcut, ⟨⟩⟩ := Option.map_eq_some_iff.1 h
      rw [ih hcut]
      rfl

theorem splitBytes_append_left (as bs : List Char) :
    splitBytes (byteLength as) (as ++ bs) = (as, bs) := by
  induction as with
  | nil =>
    cases bs with
    | nil => rfl
    | cons c cs =>
      have := c.utf8Size_pos
      rw [List.nil_append, byteLength_nil, splitBytes, if_neg (by omega)]
  | cons c cs ih =>
    rw [List.cons_append, byteLength_cons, splitBytes, if_pos (by omega), Nat.add_sub_cancel_left, ih]

end Text

theorem Header.exists_of_classify {source : String} {kind : ProgramKind} {start : Nat}
    (h : classify source kind = .ok start) :
    ∃ before body, source.toList = before ++ body ∧ Text.byteLength before = start := by
  unfold classify at h
  split at h
  · rename_i place hfind
    cases h
    obtain ⟨⟨before, after⟩, hcut, rfl⟩ := Option.map_eq_some_iff.1 hfind
    exact ⟨before ++ kind.signature.toList, after, Text.cutAt?_eq_some hcut,
      by rw [Text.byteLength_append, Text.byteLength_toList]⟩
  · split at h
    · cases h
    · cases h

/-! ## Tokens of a text -/

namespace Token

theorem place_of_mem_scanFrom {offset : Nat} {cs : List Char} {t : Token}
    (h : t ∈ scanFrom offset cs) :
    offset ≤ t.offset ∧ t.offset < offset + Text.byteLength cs := by
  fun_induction scanFrom offset cs with
  | case1 => cases h
  | case2 offset c cs lexeme ih =>
    have hsize : Text.byteLength (lexeme.text ++ lexeme.rest) = Text.byteLength (c :: cs) :=
      congrArg Text.byteLength (Lexeme.text_append_rest c cs)
    rw [Text.byteLength_append] at hsize
    cases h with
    | head =>
      have := c.utf8Size_pos
      rw [Text.byteLength_cons]
      dsimp only
      omega
    | tail _ h =>
      have := ih h
      omega

theorem length_scanFrom (offset : Nat) (cs : List Char) :
    (scanFrom offset cs).length ≤ Text.byteLength cs := by
  fun_induction scanFrom offset cs with
  | case1 => exact Nat.le_refl _
  | case2 offset c cs lexeme ih =>
    have hsize : Text.byteLength (lexeme.text ++ lexeme.rest) = Text.byteLength (c :: cs) :=
      congrArg Text.byteLength (Lexeme.text_append_rest c cs)
    rw [Text.byteLength_append] at hsize
    have htext : 0 < Text.byteLength lexeme.text := by
      cases e : lexeme.text with
      | nil => exact absurd e (Lexeme.text_ne_nil c cs)
      | cons d ds =>
        have := d.utf8Size_pos
        rw [Text.byteLength_cons]
        omega
    rw [List.length_cons]
    omega

/-- The tokens of a text from byte `start` on, without blanks, comments and line ends. -/
def significant (source : String) (start : Nat) : List Token :=
  (ofSource source start).filter (!·.isTrivia)

variable {source : String} {kind : ProgramKind} {start : Nat}

theorem ofSource_eq (h : Header.classify source kind = .ok start) :
    ∃ body, ofSource source start = scanFrom start body ∧
      start + Text.byteLength body = source.utf8ByteSize := by
  obtain ⟨before, body, hsource, rfl⟩ := Header.exists_of_classify h
  refine ⟨body, by rw [ofSource, hsource, Text.splitBytes_append_left], ?_⟩
  rw [← Text.byteLength_toList, hsource, Text.byteLength_append]

/-- **A token of a program starts behind the signature and before the end of the text.** -/
theorem place_of_mem_ofSource (h : Header.classify source kind = .ok start) {t : Token}
    (ht : t ∈ ofSource source start) : start ≤ t.offset ∧ t.offset < source.utf8ByteSize := by
  obtain ⟨body, htokens, hsize⟩ := ofSource_eq h
  rw [htokens] at ht
  rw [← hsize]
  exact place_of_mem_scanFrom ht

theorem place_of_mem_significant (h : Header.classify source kind = .ok start) {t : Token}
    (ht : t ∈ significant source start) : start ≤ t.offset ∧ t.offset < source.utf8ByteSize :=
  place_of_mem_ofSource h (List.mem_filter.1 ht).1

/-- **A program has no more tokens than bytes behind the signature.** -/
theorem length_ofSource (h : Header.classify source kind = .ok start) :
    start + (ofSource source start).length ≤ source.utf8ByteSize := by
  obtain ⟨body, htokens, hsize⟩ := ofSource_eq h
  rw [htokens, ← hsize]
  exact Nat.add_le_add_left (length_scanFrom start body) start

end Token

end ShaderAssembly
