import ShaderAssembly.Proofs.Comparison.Shader
import ShaderAssembly.Proofs.Parsing.Characters
import ShaderAssembly.Proofs.Parsing.Text
/-!
# Layout

What stands before the signature, blanks, comments, line ends and whatever follows `END` change
nothing but the places that errors name.

* `SameProgram`: texts with the same significant tokens, entirely or up to the `END` that finishes
  the program;
* `Comparison.layouts`, `ProgramReader.atEnd_of_sameReader`: two layouts of one program, and runs that
  come to `END` in both;
* `SameProgram.run`: the runs over such texts;
* **`translate_sameTranslation`**: their shaders are the same, and so are their errors, at tokens with
  one number.
-/

namespace ShaderAssembly

/-! ## Texts of one program -/

/-- Tokens of one class with one text. -/
def Token.Matches (t t' : Token) : Prop := t'.kind = t.kind ∧ t'.text = t.text

theorem Token.Matches.eq {t t' : Token} (h : t.Matches t') : t' = { t with offset := t'.offset } := by
  obtain ⟨kind, offset, text, word⟩ := t'
  obtain ⟨rfl, rfl⟩ := h
  rfl

/-- Texts whose significant tokens match, entirely or up to the statement `END` at which the run over
the first one stops, with some tokens left. -/
inductive SameProgram (kind : ProgramKind) (limits : Limits) (source : String) (start : Nat)
    (source' : String) (start' : Nat) : Prop
  | entire (h : List.Forall₂ Token.Matches (Token.significant source start)
      (Token.significant source' start'))
  | upToEnd {used left used' left' : List Token} (h : List.Forall₂ Token.Matches used used')
      (hsource : Token.significant source start = used ++ left)
      (hsource' : Token.significant source' start' = used' ++ left') (n : Nat)
      (hend : ((ProgramReader.ofSource source start).runWithin kind limits n).AtEnd)
      (hleft : ((ProgramReader.ofSource source start).runWithin kind limits
        n).progress.cursor.rest = left)

/-- Bytes at which significant tokens with one number start. -/
def SameStart (source : String) (start : Nat) (source' : String) (start' : Nat)
    (byte byte' : Nat) : Prop :=
  ∃ (i : Nat) (t t' : Token), (Token.significant source start)[i]? = some t ∧
    (Token.significant source' start')[i]? = some t' ∧ byte = t.offset ∧ byte' = t'.offset

/-- What becomes of two texts: one shader; or runs that refuse something for one reason, at tokens
with one number or at the ends of the texts, which count as their last bytes; or one reason, at
tokens with one number, why there is no shader. -/
inductive SameTranslation (kind : ProgramKind) (limits : Limits) (source : String) (start : Nat)
    (source' : String) (start' : Nat) :
    Except TranslationError String → Except TranslationError String → Prop
  | shader (text : String) :
    SameTranslation kind limits source start source' start' (.ok text) (.ok text)
  | refused {fault fault' : Fault}
      (h : ((ProgramReader.ofSource source start).run kind limits).status = .failed fault)
      (h' : ((ProgramReader.ofSource source' start').run kind limits).status = .failed fault')
      (place : SameStart source start source' start' fault.offset fault'.offset) (reason : String) :
    SameTranslation kind limits source start source' start'
      (.error (.malformed reason fault.offset)) (.error (.malformed reason fault'.offset))
  | cutShort {fault fault' : Fault}
      (h : ((ProgramReader.ofSource source start).run kind limits).status = .failed fault)
      (h' : ((ProgramReader.ofSource source' start').run kind limits).status = .failed fault')
      (place : fault.offset = source.utf8ByteSize ∧ fault'.offset = source'.utf8ByteSize)
      (reason : String) :
    SameTranslation kind limits source start source' start'
      (.error (.malformed reason (source.utf8ByteSize - 1)))
      (.error (.malformed reason (source'.utf8ByteSize - 1)))
  | faulty {byte byte' : Nat} (place : SameStart source start source' start' byte byte')
      (reason : String) :
    SameTranslation kind limits source start source' start'
      (.error (.generation reason (.offset byte))) (.error (.generation reason (.offset byte')))

/-! ## Two layouts side by side -/

/-- Two layouts of one program. Tokens with one number correspond, and so do the ends of the texts;
the names of implicit variables may differ in their blanks. -/
def Comparison.layouts (limits : Limits) (source : String) (start : Nat) (source' : String)
    (start' : Nat) : Comparison where
  limits := limits
  limits' := limits
  le := limits.le_refl
  place byte byte' := SameStart source start source' start' byte byte' ∨
    (byte = source.utf8ByteSize ∧ byte' = source'.utf8ByteSize)
  word := SameStart source start source' start'
  place_of_word := .inl
  sameText := False
  eq_of_place h := h.elim

variable {source source' : String} {start start' : Nat} {limits : Limits} {kind : ProgramKind}

theorem Comparison.layouts_alike {used left used' left' : List Token}
    (h : List.Forall₂ Token.Matches used used')
    (hsource : Token.significant source start = used ++ left)
    (hsource' : Token.significant source' start' = used' ++ left') :
    List.Forall₂ (layouts limits source start source' start').Alike used used' := by
  refine List.forall₂_iff_get.2 ⟨h.length_eq, fun i hi hi' => ?_⟩
  have hstart : SameStart source start source' start' used[i].offset used'[i].offset := by
    refine ⟨i, used[i], used'[i], ?_, ?_, rfl, rfl⟩
    · rw [hsource, List.getElem?_append_left hi, List.getElem?_eq_getElem hi]
    · rw [hsource', List.getElem?_append_left hi', List.getElem?_eq_getElem hi']
  exact ⟨used'[i].offset, (h.get hi hi').eq, .inl hstart, fun _ => hstart⟩

theorem Comparison.layouts_sameTokens (h : List.Forall₂ Token.Matches
    (Token.significant source start) (Token.significant source' start')) :
    (layouts limits source start source' start').SameTokens source start source' start' where
  tokens := layouts_alike h (List.append_nil _).symm (List.append_nil _).symm
  stop := .inr ⟨rfl, rfl⟩
  source h := h.elim

/-! ## Up to the end of the program -/

variable {Γ : Comparison} {r r' : ProgramReader}

theorem Comparison.SameReader.atEnd (h : Γ.SameReader r r') (hr : r.AtEnd) :
    r'.AtEnd ∧ Γ.SameProgress r.progress r'.progress := by
  cases h with
  | running h =>
    have hcurrent := h.cursor.current
    exact ⟨⟨rfl, hcurrent.kind.trans hr.kind, hcurrent.text.trans hr.text⟩, h⟩
  | done h => exact nomatch hr.status
  | failed p h => exact nomatch hr.status

/-- **What follows the tokens that a run has read up to `END` is of no account.** -/
theorem ProgramReader.atEnd_of_sameReader {n : Nat} {used used' left left' : List Token}
    (hend : (r.runWithin kind Γ.limits n).AtEnd)
    (hleft : (r.runWithin kind Γ.limits n).progress.cursor.rest = left)
    (hrest : r.progress.cursor.rest = used ++ left)
    (hrest' : r'.progress.cursor.rest = used' ++ left')
    (hsame : Γ.SameReader (r.withRest used) (r'.withRest used')) :
    (r'.runWithin kind Γ.limits' n).AtEnd ∧
      Γ.SameDraft (r.runWithin kind Γ.limits n).progress.draft
        (r'.runWithin kind Γ.limits' n).progress.draft := by
  obtain ⟨-, read, hread, again⟩ := runWithin_reads hend.status hend.kind
  obtain rfl : read = used := List.append_cancel_right (hread.symm.trans (hleft ▸ hrest))
  -- both runs stop at `END` if nothing follows it
  have hrun := hsame.runWithin kind n
  have hcut := again []
  rw [List.append_nil] at hcut
  rw [hcut] at hrun
  obtain ⟨hend', hprogress⟩ := hrun.atEnd ⟨hend.status, hend.kind, hend.text⟩
  -- and the second one stops there whatever follows
  obtain ⟨-, read', hread', again'⟩ := runWithin_reads hend'.status hend'.kind
  obtain rfl : used' = read' := by
    have hnil := hprogress.cursor.rest.length_eq
    rw [List.length_eq_zero_iff.1 hnil.symm, List.append_nil] at hread'
    exact hread'
  have hrun' := again' left'
  rw [← hrest'] at hrun'
  change r'.runWithin kind Γ.limits' n = _ at hrun'
  rw [hrun']
  exact ⟨⟨hend'.status, hend'.kind, hend'.text⟩, hprogress.draft⟩

/-- A reader that stands on a word stands on the first significant token. -/
theorem ProgramReader.significant_eq (h : (ofSource source start).current.kind = .identifier) :
    Token.significant source start =
      (ofSource source start).current :: (ofSource source start).progress.cursor.rest := by
  let c : Cursor := ⟨source.toList, Token.endAt start, Token.significant source start⟩
  change c.upcoming.kind = _ at h
  exact Cursor.rest_of_upcoming (c := c) (by rw [h]; exact nofun)

theorem ProgramReader.ofSource_eq {t : Token} {ts : List Token}
    (h : Token.significant source start = t :: ts) :
    (ofSource source start).current = t ∧ (ofSource source start).progress.cursor.rest = ts := by
  let c : Cursor := ⟨source.toList, Token.endAt start, Token.significant source start⟩
  have hc : c.rest = t :: ts := h
  exact ⟨by change c.upcoming = t; rw [Cursor.upcoming, hc]; rfl,
    by change c.rest.tail = ts; rw [hc, List.tail_cons]⟩

/-- A run up to `END` over one text, and the run over another one that starts with the same tokens. -/
theorem ProgramReader.atEnd_ofSource {n : Nat} {used used' left left' : List Token}
    (h : List.Forall₂ Token.Matches used used')
    (hsource : Token.significant source start = used ++ left)
    (hsource' : Token.significant source' start' = used' ++ left')
    (hend : ((ofSource source start).runWithin kind limits n).AtEnd)
    (hleft : ((ofSource source start).runWithin kind limits n).progress.cursor.rest = left) :
    ((ofSource source' start').runWithin kind limits n).AtEnd ∧
      (Comparison.layouts limits source start source' start').SameDraft
        ((ofSource source start).runWithin kind limits n).progress.draft
        ((ofSource source' start').runWithin kind limits n).progress.draft := by
  have halike : List.Forall₂ (Comparison.layouts limits source start source' start').Alike used
    used' := Comparison.layouts_alike h hsource hsource'
  -- the text starts with a word, so the first of its tokens is the current one
  obtain ⟨hword, read, hread, -⟩ := runWithin_reads hend.status hend.kind
  have hfirst := significant_eq hword
  rw [hread, hleft, hsource, ← List.cons_append] at hfirst
  obtain rfl := List.append_cancel_right hfirst
  rw [hleft] at hread
  cases halike with
  | @cons _ t' _ read' hcurrent hrest =>
    obtain ⟨rfl, hread'⟩ := ofSource_eq hsource'
    refine atEnd_of_sameReader hend hleft hread hread' (.running ⟨⟨hcurrent, hrest, ?_, False.elim⟩, ?_⟩)
    · exact Comparison.alike_endAt (.inr ⟨rfl, rfl⟩)
    · exact .empty

/-- The ends of two runs: programs that are alike, or refusals for one reason at places that
correspond. -/
theorem SameProgram.run (h : SameProgram kind limits source start source' start') :
    let Γ := Comparison.layouts limits source start source' start'
    let r := (ProgramReader.ofSource source start).run kind limits
    let r' := (ProgramReader.ofSource source' start').run kind limits
    (r.status = .done ∧ r'.status = .done ∧ Γ.SameDraft r.progress.draft r'.progress.draft) ∨
      ∃ fault fault', r.status = .failed fault ∧ r'.status = .failed fault' ∧
        Γ.Blames fault fault' := by
  intro Γ r r'
  cases h with
  | entire htokens =>
    have hsame : Γ.SameReader r r' := (Comparison.layouts_sameTokens htokens).run kind
    cases hstatus : r.status with
    | running => exact absurd hstatus (ProgramReader.stopped_run _)
    | done =>
      obtain ⟨hdone', hprogress⟩ := hsame.done_of_done hstatus
      exact .inl ⟨rfl, hdone', hprogress.draft⟩
    | failed fault =>
      obtain ⟨fault', hfailed', hblames⟩ := hsame.failed_of_failed rfl hstatus
      exact .inr ⟨fault, fault', rfl, hfailed', hblames⟩
  | upToEnd hused hsource hsource' n hend hleft =>
    obtain ⟨hend', hdraft⟩ := ProgramReader.atEnd_ofSource hused hsource hsource' hend hleft
    obtain ⟨hdone, hd⟩ := ProgramReader.run_of_atEnd hend
    obtain ⟨hdone', hd'⟩ := ProgramReader.run_of_atEnd hend'
    refine .inl ⟨hdone, hdone', ?_⟩
    change Γ.SameDraft ((ProgramReader.ofSource source start).run kind limits).progress.draft
      ((ProgramReader.ofSource source' start').run kind limits).progress.draft
    rw [hd, hd']
    exact hdraft

variable {settings : TranslatorSettings}

/-- **Layout changes nothing but places.** Texts whose tokens match behind their signatures, entirely
or up to the `END` that finishes the program, have one shader, or one error, which names tokens with
one number or the ends of the texts. -/
theorem translate_sameTranslation (h : Header.classify source kind = .ok start)
    (h' : Header.classify source' kind = .ok start') (hframed : isFramed source start = true)
    (hframed' : isFramed source' start' = true)
    (hsame : SameProgram kind (settings.limits kind) source start source' start') :
    SameTranslation kind (settings.limits kind) source start source' start'
      (translate settings source kind) (translate settings source' kind) := by
  obtain ⟨hdone, hdone', hdraft⟩ | ⟨fault, fault', hfailed, hfailed', hreason, hplace⟩ := hsame.run
  · have hread := readProgram_of_done h hframed hdone
    have hread' := readProgram_of_done h' hframed' hdone'
    rw [translate_eq hread, translate_eq hread']
    obtain ⟨text, e, e'⟩ | ⟨reason, byte, byte', e, e', hword⟩ := (hdraft.toModel kind).generate
      (wellFormed_of_readProgram hread).2 (wellFormed_of_readProgram hread').2
    · rw [e, e']
      exact .shader text
    · rw [e, e']
      exact .faulty hword reason
  · rw [translate, translate, readProgram_of_failed h hframed hfailed,
      readProgram_of_failed h' hframed' hfailed', ← hreason]
    unfold clampOffset
    obtain hstart | hends := hplace
    · obtain ⟨i, t, t', ht, ht', hbyte, hbyte'⟩ := hstart
      have hlt := (Token.place_of_mem_significant h (List.mem_of_getElem? ht)).2
      have hlt' := (Token.place_of_mem_significant h' (List.mem_of_getElem? ht')).2
      rw [if_neg (by omega), if_neg (by omega)]
      exact .refused hfailed hfailed' ⟨i, t, t', ht, ht', hbyte, hbyte'⟩ _
    · rw [if_pos (Nat.le_of_eq hends.1.symm), if_pos (Nat.le_of_eq hends.2.symm)]
      exact .cutShort hfailed hfailed' hends _

/-- A program on one line, with some tokens behind its end. -/
def dense : String := "!!ARBvp1.0 TEMP a;MOV a,vertex.position;END MOV ;"

/-- The same program on many lines. -/
def sparse : String :=
  "# twice\n!!ARBvp1.0\nTEMP a;\n\nMOV a, vertex . position; # as it is\nEND\n"

/-- A program that names nothing declared, and the same with a blank line. -/
def unnamed : String := "!!ARBvp1.0 MOV a, b; END"

def unnamedBelow : String := "!!ARBvp1.0\n\nMOV a,b;END"

instance (t t' : Token) : Decidable (t.Matches t') := inferInstanceAs (Decidable (_ ∧ _))

theorem sameProgram_sparse :
    SameProgram .vertex (TranslatorSettings.limits {} .vertex) dense 10 sparse 18 := by
  have hused : List.Forall₂ Token.Matches ((Token.significant dense 10).take 11)
      (Token.significant sparse 18) := by
    rw [Token.significant, Token.significant, dense, sparse, Token.ofSource_ofList,
      Token.ofSource_ofList]
    decide +kernel
  let r := (ProgramReader.ofSource dense 10).runWithin .vertex (TranslatorSettings.limits {} .vertex) 2
  obtain ⟨hrunning, hkind, hend, hleft⟩ : r.status = .running ∧
      r.current.kind = .identifier ∧ r.current.text = "END" ∧
      r.progress.cursor.rest = (Token.significant dense 10).drop 11 := by
    unfold r
    rw [Token.significant, dense, ProgramReader.ofSource_ofList, Token.ofSource_ofList]
    decide +kernel
  exact .upToEnd hused (List.take_append_drop _ _).symm (List.append_nil _).symm 2
    ⟨hrunning, hkind, hend⟩ hleft

theorem translate_sparse :
    (SameTranslation .vertex (TranslatorSettings.limits {} .vertex) dense 10 sparse 18
      (translate {} dense .vertex) (translate {} sparse .vertex) ∧
      (translate {} dense .vertex).toOption.isSome = true) ∧
    SameTranslation .vertex (TranslatorSettings.limits {} .vertex) unnamed 10 unnamedBelow 10
      (translate {} unnamed .vertex) (translate {} unnamedBelow .vertex) := by
  have hentire : List.Forall₂ Token.Matches (Token.significant unnamed 10)
      (Token.significant unnamedBelow 10) := by
    rw [Token.significant, Token.significant, unnamed, unnamedBelow, Token.ofSource_ofList,
      Token.ofSource_ofList]
    decide +kernel
  have hok : (translate {} dense .vertex).toOption.isSome = true := by
    rw [dense, toOption_translate_ofList]
    decide +kernel
  obtain ⟨hdense, hdense'⟩ : Header.classify dense .vertex = .ok 10 ∧ isFramed dense 10 = true := by
    rw [dense, Header.classify_ofList, isFramed_ofList]
    decide +kernel
  obtain ⟨hsparse, hsparse'⟩ : Header.classify sparse .vertex = .ok 18 ∧ isFramed sparse 18 = true := by
    rw [sparse, Header.classify_ofList, isFramed_ofList]
    decide +kernel
  obtain ⟨hunnamed, hunnamed'⟩ :
      Header.classify unnamed .vertex = .ok 10 ∧ isFramed unnamed 10 = true := by
    rw [unnamed, Header.classify_ofList, isFramed_ofList]
    decide +kernel
  obtain ⟨hbelow, hbelow'⟩ :
      Header.classify unnamedBelow .vertex = .ok 10 ∧ isFramed unnamedBelow 10 = true := by
    rw [unnamedBelow, Header.classify_ofList, isFramed_ofList]
    decide +kernel
  exact ⟨⟨translate_sameTranslation hdense hsparse hdense' hsparse' sameProgram_sparse, hok⟩,
    translate_sameTranslation hunnamed hbelow hunnamed' hbelow' (.entire hentire)⟩

end ShaderAssembly
