import ShaderAssembly.Proofs.Parsing.Reachable
import ShaderAssembly.Proofs.Printing.Piece
/-!
# Instructions as text

How an instruction over declared variables is written.

* `nameAt`: the name of a variable;
* `Register.pieces`, `Source.pieces`, `Destination.pieces`, `SignedSelection.pieces`,
  `TextureOperand.pieces`: operands;
* **`Instruction.text`**: a whole instruction, up to its semicolon;
* `Register.Over`, `Instruction.Over`: what can be written this way over some variables;
* `Piece.Closed`, `Piece.Follows`: operands, and what stands behind one;
* **`Instruction.stand_pieces`**: an instruction is written so that its pieces are read back.
-/

namespace ShaderAssembly

/-- The name of the variable at a place. -/
def nameAt (vars : List Variable) (i : Nat) : String := (vars[i]?.map (·.name)).getD ""

/-! ## The text of an operand -/

open Piece

/-- A mask: its components behind a point. -/
def WriteMask.pieces (m : WriteMask) : List Piece := [mark '.', word m.text]

/-- A swizzle: its four components behind a point. -/
def Swizzle.pieces (s : Swizzle) : List Piece := [mark '.', word s.text]

/-- Zero, one, or the letter of a component. -/
def Selection.piece : Selection → Piece
  | .zero => integer 0
  | .one => integer 1
  | .component c => word (Component.text [c])

/-- A place of an extended swizzle, behind its sign. -/
def SignedSelection.pieces (s : SignedSelection) : List Piece :=
  if s.negate then [mark '-', s.select.piece] else [s.select.piece]

/-- A texture: its unit as a subscript, and its shape. -/
def TextureOperand.pieces (t : TextureOperand) : List Piece :=
  [word "texture", mark '[', integer t.unit, mark ']', mark ',', (word t.target.name).behindSpace]

variable (vars : List Variable)

/-- A register by its name, with a subscript if it is part of an array. A constant has no name. -/
def Register.pieces : Register → List Piece
  | .whole i => [word (nameAt vars i)]
  | .element i n => [word (nameAt vars i), mark '[', integer n, mark ']']
  | .relative i addr offset =>
    [word (nameAt vars i), mark '[', word (nameAt vars addr), mark '.', word "x",
      (mark (if offset < 0 then '-' else '+')).behindSpace, (integer offset.natAbs).behindSpace,
      mark ']']
  | .literal _ => []

/-- A source: its sign, its register, and its swizzle unless it is bare. -/
def Source.pieces (bare : Bool) (s : Source) : List Piece :=
  (if s.negate then [mark '-'] else []) ++ s.register.pieces vars ++
    (if bare then [] else s.swizzle.pieces)

/-- A destination: its name and its mask. -/
def Destination.pieces (d : Destination) : List Piece := word (nameAt vars d.var) :: d.mask.pieces

/-! ## The text of an instruction -/

namespace Piece

/-- Pieces behind a space. -/
def setOff (ps : List Piece) : List Piece := ps.modifyHead behindSpace

/-- Pieces behind a comma and a space. -/
def listed (ps : List Piece) : List Piece := mark ',' :: setOff ps

end Piece

namespace Instruction

/-- The mnemonic, with its suffix if the result is clamped. -/
def mnemonic (i : Instruction) : String := i.opcode.mnemonic ++ if i.saturate then "_SAT" else ""

/-- The destination and the comma behind it, if there is one. -/
def destinationPieces : Option Destination → List Piece
  | none => []
  | some d => setOff (d.pieces vars) ++ [mark ',']

/-- The sources, with commas between them. -/
def sourcePieces (bare : Bool) : List Source → List Piece
  | [] => []
  | s :: ss => setOff (s.pieces vars bare) ++ ss.flatMap fun s => listed (s.pieces vars bare)

/-- The places of an extended swizzle, if there is one. -/
def extendedPieces : Option ExtendedSwizzle → List Piece
  | none => []
  | some e => e.toList.flatMap fun s => listed s.pieces

/-- The texture, if there is one. -/
def texturePieces : Option TextureOperand → List Piece
  | none => []
  | some t => listed t.pieces

/-- The pieces of an instruction behind its mnemonic. -/
def operandPieces (i : Instruction) : List Piece :=
  destinationPieces vars i.destination ++ (sourcePieces vars (i.opcode == .swz) i.sources ++
    (extendedPieces i.extended ++ (texturePieces i.texture ++ [mark ';'])))

/-- The pieces of an instruction. -/
def pieces (i : Instruction) : List Piece := word i.mnemonic :: i.operandPieces vars

/-- An instruction as text. -/
def text (i : Instruction) : String := String.ofList (render (i.pieces vars))

example :
    let p : Variable := { name := "p", kind := .paramArray [.env 0, .env 1] }
    let vars := [p, { name := "a", kind := .address }, { name := "r", kind := .temporary }]
    let sources := [{ register := .relative 0 1 (-2) },
      { register := .element 0 1, negate := true, swizzle := .replicate .y }]
    let i : Instruction := ⟨.add, false, some ⟨2, ⟨true, true, false, false⟩⟩, sources, none, none, 0⟩
    i.text vars = "ADD r.xy, p[a.x - 2].xyzw, -p[1].yyyy;" := by decide +kernel

example :
    let vars := [{ name := "r", kind := .temporary }]
    let e : ExtendedSwizzle :=
      ⟨⟨true, .component .y⟩, ⟨false, .zero⟩, ⟨true, .one⟩, ⟨false, .component .w⟩⟩
    let i : Instruction := ⟨.swz, true, some { var := 0 }, [{ register := .whole 0 }], some e, none, 0⟩
    i.text vars = "SWZ_SAT r.xyzw, r, -y, 0, -1, w;" := by decide +kernel

end Instruction

/-! ## What can be written -/

/-- A register of variables with the property `P`; its subscript is a number of the language. -/
def Register.Over (P : Nat → Prop) : Register → Prop
  | .whole i => P i
  | .element i n => P i ∧ n < UInt32.size
  | .relative i addr _ => P i ∧ P addr
  | .literal _ => False

/-- An instruction over variables with the property `P`. -/
structure Instruction.Over (P : Nat → Prop) (i : Instruction) : Prop where
  destination : ∀ d ∈ i.destination, P d.var
  sources : ∀ s ∈ i.sources, s.register.Over P

theorem Register.Over.mono {P Q : Nat → Prop} (hPQ : ∀ i, P i → Q i) {r : Register} (h : r.Over P) :
    r.Over Q := by
  cases r with
  | whole i => exact hPQ i h
  | element i n => exact ⟨hPQ i h.1, h.2⟩
  | relative i addr offset => exact ⟨hPQ i h.1, hPQ addr h.2⟩
  | literal v => exact h

theorem Instruction.Over.mono {P Q : Nat → Prop} (hPQ : ∀ i, P i → Q i) {i : Instruction}
    (h : i.Over P) : i.Over Q where
  destination d hd := hPQ _ (h.destination d hd)
  sources s hs := (h.sources s hs).mono hPQ

/-! ## Words that an instruction holds -/

namespace Lexeme

theorem isWord_of_all {c : Char} {cs : List Char} (hc : isWordStart c = true)
    (hcs : cs.all isWordChar = true) : IsWord (c :: cs) := by
  refine ⟨c, cs, ?_, ?_⟩ <;> rw [scan_wordStart hc]
  have hnone : ∀ d ∈ ([] : List Char).head?, isWordChar d = false := nofun
  have htake := (takeWhile_append_of_all hcs hnone).1
  rw [List.append_nil] at htake
  rw [htake]

end Lexeme

theorem Component.isWordStart_letter (c : Component) : isWordStart c.letter = true := by
  cases c <;> decide

theorem Component.toList_text (cs : List Component) : (text cs).toList = cs.map letter :=
  String.toList_ofList

theorem Component.isWord_text {cs : List Component} (h : cs ≠ []) :
    Lexeme.IsWord (text cs).toList := by
  rw [toList_text]
  cases cs with
  | nil => exact absurd rfl h
  | cons c cs =>
    refine Lexeme.isWord_of_all c.isWordStart_letter (List.all_eq_true.2 fun x hx => ?_)
    obtain ⟨d, -, rfl⟩ := List.mem_map.1 hx
    simp [isWordChar, d.isWordStart_letter]

theorem Component.endsPoint_text (cs : List Component) {rest : List Char} (h : cs ≠ []) :
    EndsPoint ((text cs).toList ++ rest) := by
  rw [toList_text]
  cases cs with
  | nil => exact absurd rfl h
  | cons c cs => cases c <;> exact (endsPoint_cons _ _).2 (by decide)

theorem WriteMask.components_ne_nil {m : WriteMask} (h : m ≠ .none) : m.components ≠ [] := by
  obtain ⟨x, y, z, w⟩ := m
  revert h
  cases x <;> cases y <;> cases z <;> cases w <;> decide

theorem TextureTarget.isWord_name (t : TextureTarget) : Lexeme.IsWord t.name.toList := by
  cases t with
  | tex1D => exact ⟨'1', ['D'], by decide, by decide⟩
  | tex2D => exact ⟨'2', ['D'], by decide, by decide⟩
  | tex3D => exact ⟨'3', ['D'], by decide, by decide⟩
  | cube | rect => exact Lexeme.isWord_of_all (by decide) (by decide)

theorem Instruction.isWord_mnemonic (i : Instruction) : Lexeme.IsWord i.mnemonic.toList := by
  unfold mnemonic
  cases i.saturate <;> cases i.opcode <;>
    exact Lexeme.isWord_of_all (by decide +kernel) (by decide +kernel)

/-! ## Operands stand -/

namespace Piece

variable {rest : List Char} {ps qs : List Piece} {α : Type}

@[simp] theorem chars_word (s : String) : (word s).chars = s.toList := rfl

@[simp] theorem chars_mark (c : Char) : (mark c).chars = [c] := by simp [chars, mark]

/-- Pieces that stand before a comma and before a semicolon. -/
def Closed (ps : List Piece) : Prop := ∀ c cs, c = ',' ∨ c = ';' → Stand (c :: cs) ps

/-- Pieces that stand, the first of them a comma or a semicolon. -/
def Follows (rest : List Char) (ps : List Piece) : Prop :=
  Stand rest ps ∧ ∃ c cs, (c = ',' ∨ c = ';') ∧ render ps ++ rest = c :: cs

theorem closed_of_endsWord (h : ∀ rest, EndsWord rest → Stand rest ps) : Closed ps := by
  rintro c cs (rfl | rfl)
  · exact h _ ((endsWord_cons _ _).2 (by decide))
  · exact h _ ((endsWord_cons _ _).2 (by decide))

theorem stand_setOff : Stand rest (setOff ps) ↔ Stand rest ps := by
  cases ps <;> exact Iff.rfl

theorem Follows.stand_setOff (hqs : Follows rest qs) (hps : Closed ps) :
    Stand rest (setOff ps ++ qs) := by
  obtain ⟨hstand, c, cs, hc, hrender⟩ := hqs
  rw [stand_append, Piece.stand_setOff, hrender]
  exact ⟨hps c cs hc, hstand⟩

theorem Follows.listed (hqs : Follows rest qs) (hps : Closed ps) :
    Follows rest (listed ps ++ qs) :=
  ⟨⟨stands_mark (by decide) nofun, hqs.stand_setOff hps⟩, ',', _, .inl rfl, by
    simp only [Piece.listed, List.cons_append, render_cons, chars_mark, List.nil_append]
    rfl⟩

theorem Follows.flatMap_listed (hqs : Follows rest qs) {f : α → List Piece} {as : List α}
    (h : ∀ a ∈ as, Closed (f a)) : Follows rest ((as.flatMap fun a => Piece.listed (f a)) ++ qs) := by
  induction as with
  | nil => exact hqs
  | cons a as ih =>
    rw [List.flatMap_cons, List.append_assoc]
    exact (ih fun b hb => h b (List.mem_cons_of_mem _ hb)).listed (h a List.mem_cons_self)

theorem endsWord_setOff (hps : ps ≠ []) : EndsWord (render (setOff ps ++ qs) ++ rest) := by
  cases ps with
  | nil => exact absurd rfl hps
  | cons p ps => exact (endsWord_cons _ _).2 (by decide)

theorem stand_selector {cs : List Component} (hcs : cs ≠ []) (hrest : EndsWord rest) :
    Stand rest [mark '.', word (Component.text cs)] :=
  ⟨stands_mark (by decide) fun _ => by simpa using Component.endsPoint_text cs hcs,
    stands_word (Component.isWord_text hcs) hrest, trivial⟩

theorem stands_word_mark {text : String} {c : Char} (htext : Lexeme.IsWord text.toList)
    (hc : isWordChar c = false ∧ c ≠ '+' ∧ c ≠ '-') :
    (word text).StandsBefore (render (mark c :: ps) ++ rest) :=
  stands_word htext (by simpa using hc)

theorem stands_integer_mark {n : Nat} (hn : n < UInt32.size) :
    (integer n).StandsBefore (render (mark ']' :: ps) ++ rest) :=
  stands_integer hn (by simp; decide)

end Piece

section Operands

variable {vars : List Variable} {m : Model} {opcode : Opcode} {rest : List Char}

theorem Register.stand_pieces {r : Register} (hr : r.Readable m opcode)
    (hover : r.Over fun i => Lexeme.IsWord (nameAt vars i).toList) (hrest : EndsWord rest) :
    Stand rest (r.pieces vars) := by
  cases r with
  | whole i => exact ⟨stands_word hover hrest, trivial⟩
  | element i n =>
    exact ⟨stands_word_mark hover.1 (by decide), stands_mark (by decide) nofun,
      stands_integer_mark hover.2, stands_mark (by decide) nofun, trivial⟩
  | relative i addr offset =>
    obtain ⟨-, -, -, -, hlow, hhigh⟩ := hr
    have hsign : (if offset < 0 then '-' else '+') ∈ Lexeme.marks ∧
        (if offset < 0 then '-' else '+') ≠ '.' := by
      split <;> decide
    have hsize : offset.natAbs < UInt32.size := by
      unfold UInt32.size
      omega
    refine ⟨stands_word_mark hover.1 (by decide), stands_mark (by decide) nofun,
      stands_word_mark hover.2 (by decide), stands_mark (by decide) fun _ => ?_,
      stands_word (Lexeme.isWord_of_all (by decide) (by decide)) ?_,
      stands_mark hsign.1 fun h => absurd h hsign.2,
      stands_behindSpace.2 (stands_integer_mark hsize), stands_mark (by decide) nofun, trivial⟩
    · exact (endsPoint_cons _ _).2 (by decide)
    · exact (endsWord_cons _ _).2 (by decide)
  | literal v => exact absurd hover id

theorem Register.pieces_ne_nil {r : Register} {P : Nat → Prop} (hover : r.Over P) :
    r.pieces vars ≠ [] := by
  cases r with
  | whole i | element i n | relative i addr offset => exact List.cons_ne_nil _ _
  | literal v => exact absurd hover id

theorem Source.closed_pieces {s : Source} {bare : Bool} (hr : s.register.Readable m opcode)
    (hover : s.register.Over fun i => Lexeme.IsWord (nameAt vars i).toList) :
    Closed (s.pieces vars bare) := by
  refine closed_of_endsWord fun rest hrest => ?_
  have hsign (rest : List Char) : Stand rest (if s.negate then [mark '-'] else []) := by
    split
    · exact ⟨stands_mark (by decide) nofun, trivial⟩
    · trivial
  have hselector : Stand rest (if bare then [] else s.swizzle.pieces) := by
    split
    · trivial
    · exact stand_selector (List.cons_ne_nil _ _) hrest
  have hends : EndsWord (render (if bare then [] else s.swizzle.pieces) ++ rest) := by
    split
    · exact hrest
    · exact (endsWord_cons _ _).2 (by decide)
  rw [pieces, stand_append, stand_append]
  exact ⟨⟨hsign _, Register.stand_pieces hr hover hends⟩, hselector⟩

theorem Source.pieces_ne_nil {s : Source} {bare : Bool} {P : Nat → Prop}
    (hover : s.register.Over P) : s.pieces vars bare ≠ [] := by
  simp [pieces, Register.pieces_ne_nil hover]

theorem Destination.closed_pieces {d : Destination} (hmask : d.mask ≠ .none)
    (hname : Lexeme.IsWord (nameAt vars d.var).toList) : Closed (d.pieces vars) :=
  closed_of_endsWord fun _ hrest => ⟨stands_word_mark hname (by decide),
    stand_selector (WriteMask.components_ne_nil hmask) hrest⟩

theorem Selection.closed_piece (s : Selection) : Closed [s.piece] := by
  rintro c cs hc
  have hrest : EndsWord (c :: cs) ∧ EndsNumber (c :: cs) := by
    rw [endsWord_cons, endsNumber_cons]
    rcases hc with rfl | rfl <;> decide
  cases s with
  | zero => exact ⟨stands_integer (by decide) hrest.2, trivial⟩
  | one => exact ⟨stands_integer (by decide) hrest.2, trivial⟩
  | component d => exact ⟨stands_word (Component.isWord_text (List.cons_ne_nil _ _)) hrest.1, trivial⟩

theorem SignedSelection.closed_pieces (s : SignedSelection) : Closed s.pieces := by
  intro c cs hc
  have hpiece := s.select.closed_piece c cs hc
  unfold pieces
  split
  · exact ⟨stands_mark (by decide) nofun, hpiece⟩
  · exact hpiece

theorem TextureOperand.closed_pieces {t : TextureOperand} (ht : t.unit < UInt32.size) : Closed t.pieces :=
  closed_of_endsWord fun _ hrest =>
    ⟨stands_word_mark (Lexeme.isWord_of_all (by decide) (by decide)) (by decide),
      stands_mark (by decide) nofun, stands_integer_mark ht, stands_mark (by decide) nofun,
      stands_mark (by decide) nofun, stands_behindSpace.2 (stands_word t.target.isWord_name hrest),
      trivial⟩

end Operands

/-! ## Instructions stand -/

namespace Instruction

variable {m : Model} {i : Instruction}

theorem sources_pos (op : Opcode) : 0 < op.shape.sources := by
  cases op <;> decide

theorem follows_comma {rest : List Char} {ps : List Piece} (h : Stand rest ps) :
    Follows rest (mark ',' :: ps) :=
  ⟨⟨stands_mark (by decide) nofun, h⟩, ',', _, .inl rfl, rfl⟩

/-- The operands stand, and they end the mnemonic, if the sources and what is behind them do. -/
theorem stand_operandPieces {vars : List Variable} {rest : List Char} {P : Nat → Prop}
    (hdestination : ∀ d ∈ i.destination, Closed (d.pieces vars))
    (hsources : ∃ s ss, i.sources = s :: ss ∧ s.register.Over P)
    (hstand : Stand rest (sourcePieces vars (i.opcode == .swz) i.sources ++
      (extendedPieces i.extended ++ (texturePieces i.texture ++ [mark ';'])))) :
    Stand rest (i.operandPieces vars) ∧ EndsWord (render (i.operandPieces vars) ++ rest) := by
  unfold operandPieces
  cases e : i.destination with
  | none =>
    refine ⟨hstand, ?_⟩
    obtain ⟨s, ss, hsources, hs⟩ := hsources
    rw [hsources, destinationPieces, List.nil_append, sourcePieces, List.append_assoc]
    exact endsWord_setOff (Source.pieces_ne_nil hs)
  | some d =>
    rw [destinationPieces, List.append_assoc]
    exact ⟨(follows_comma hstand).stand_setOff (hdestination d e),
      endsWord_setOff (List.cons_ne_nil _ _)⟩

/-- **An instruction is written so that its pieces are read back**, whatever follows it. -/
theorem stand_pieces (hi : i.Sound m)
    (hover : i.Over fun n => Lexeme.IsWord (nameAt m.vars n).toList)
    (htexture : ∀ t ∈ i.texture, t.unit < UInt32.size) (rest : List Char) :
    Stand rest (i.pieces m.vars) := by
  have hend : Follows rest [mark ';'] :=
    ⟨⟨stands_mark (by decide) nofun, trivial⟩, ';', _, .inr rfl, rfl⟩
  have htail : Follows rest (texturePieces i.texture ++ [mark ';']) := by
    cases e : i.texture with
    | none => exact hend
    | some t => exact hend.listed (TextureOperand.closed_pieces (htexture t e))
  have htail : Follows rest (extendedPieces i.extended ++ (texturePieces i.texture ++ [mark ';'])) := by
    cases i.extended with
    | none => exact htail
    | some e => exact htail.flatMap_listed fun s _ => s.closed_pieces
  have hclosed (s : Source) (hs : s ∈ i.sources) : Closed (s.pieces m.vars (i.opcode == .swz)) :=
    Source.closed_pieces (hi.sources s hs) (hover.sources s hs)
  have hdestination (d : Destination) (hd : d ∈ i.destination) : Closed (d.pieces m.vars) :=
    Destination.closed_pieces (hi.destination d hd).1 (hover.destination d hd)
  obtain ⟨s, ss, hsources⟩ :=
    List.exists_cons_of_length_pos (hi.sources_length ▸ sources_pos i.opcode)
  have hs : s ∈ i.sources := hsources ▸ List.mem_cons_self
  have hstand : Stand rest (sourcePieces m.vars (i.opcode == .swz) i.sources ++
      (extendedPieces i.extended ++ (texturePieces i.texture ++ [mark ';']))) := by
    rw [hsources, sourcePieces, List.append_assoc]
    refine (htail.flatMap_listed fun s' hs' => hclosed s' ?_).stand_setOff (hclosed s hs)
    exact hsources ▸ List.mem_cons_of_mem _ hs'
  obtain ⟨hoperands, hends⟩ :=
    stand_operandPieces hdestination ⟨s, ss, hsources, hover.sources s hs⟩ hstand
  exact ⟨stands_word i.isWord_mnemonic hends, hoperands⟩

end Instruction

end ShaderAssembly
