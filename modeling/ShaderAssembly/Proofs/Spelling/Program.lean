import Mathlib.Data.List.Nodup
import ShaderAssembly.Proofs.Framing.Program
import ShaderAssembly.Proofs.Naming.Mention
import ShaderAssembly.Proofs.Printing.Text
import ShaderAssembly.Proofs.Spelling.Place
import ShaderAssembly.Proofs.Spelling.Statement
/-!
# Places in a program are those of its text

* `Instruction.text_of_ofWord?`: the word of an instruction is its mnemonic;
* `Parse.Accepts.spelled`, `Parse.Accepts.found`: an accepted statement brings up variables as it
  spells them, an implicit one at the first of its bindings;
* `Draft.SpelledOut`: all variables are spelled by the statements of a program, and an implicit one
  by the first instruction that names it, where its binding is first read there;
* `Model.PlacedIn`: the places of a program are those of a text;
* **`placedIn_of_readProgram`**: so it is for every program that is read.
-/

namespace ShaderAssembly

variable {kind : ProgramKind} {limits : Limits}

/-! ## Instructions -/

theorem ofMnemonic?_eq_some {text : String} {op : Opcode} (h : Opcode.ofMnemonic? text = some op) :
    text = op.mnemonic := by
  have hfound := List.find?_some h
  exact (beq_iff_eq.1 hfound).symm

theorem withoutSaturation?_eq_some {text base : String} (h : withoutSaturation? text = some base) :
    text = base ++ "_SAT" := by
  unfold withoutSaturation? at h
  split at h
  · rename_i cs hcs
    cases h
    rw [← String.toList_inj, ← List.reverse_inj, hcs]
    simp
  · cases h

theorem Instruction.text_of_ofWord? {text : String} {i : Instruction}
    (h : ofWord? kind text = some (i.opcode, i.saturate)) : text = i.mnemonic := by
  unfold ofWord? at h
  split at h
  rename_i base saturate hbase
  obtain ⟨rfl, rfl⟩ : base = i.opcode.mnemonic ∧ saturate = i.saturate := by
    split at h
    · cases h
    rename_i opcode hmnemonic
    split at h <;> cases h
    exact ⟨ofMnemonic?_eq_some hmnemonic, rfl⟩
  unfold mnemonic
  split at hbase
  · rename_i base hsuffix
    obtain ⟨rfl, hsaturate⟩ := Prod.mk.inj hbase
    rw [withoutSaturation?_eq_some hsuffix, ← hsaturate]
    rfl
  · obtain ⟨rfl, hsaturate⟩ := Prod.mk.inj hbase
    rw [← hsaturate]
    exact String.append_empty.symm

/-! ## Places -/

/-- The cursor stands on one of the tokens of a text. -/
def Cursor.StandsIn (c : Cursor) (source : List Char) (tokens : List Token) : Prop :=
  c.source = source ∧ c.current :: c.rest <:+ tokens

/-- Cursors that stand on one token are one. -/
theorem Token.eq_of_suffix {tokens ts ts' : List Token} {t : Token}
    (htokens : tokens.Pairwise (·.offset < ·.offset)) (h : t :: ts <:+ tokens)
    (h' : t :: ts' <:+ tokens) : ts = ts' := by
  have hne {us us' : List Token} (hus : t :: us' <:+ tokens) (hsuffix : t :: us <:+ t :: us') :
      us = us' := by
    obtain hsame | hinner := List.suffix_cons_iff.1 hsuffix
    · exact (List.cons.inj hsame).2
    · have hlt := (List.pairwise_cons.1 (htokens.sublist hus.sublist)).1 t (hinner.subset List.mem_cons_self)
      exact absurd hlt (Nat.lt_irrefl _)
  obtain hsuffix | hsuffix := List.suffix_or_suffix_of_suffix h h'
  · exact hne h' hsuffix
  · exact (hne h hsuffix).symm

/-! ## Statements -/

section

variable {source : List Char}

/-- The semicolon of a statement spells nothing. -/
theorem Variable.SpelledBy.before {run rest : List Token} {stop : Token} {v : Variable}
    (hstop : stop.Terminates) (h : v.SpelledBy kind limits source (run ++ [stop]) rest) :
    v.SpelledBy kind limits source run (stop :: rest) := by
  have hne {t : Token} (ht : t.kind = .identifier) : t ≠ stop := by
    rintro rfl
    cases ht.symm.trans hstop.1
  cases h with
  | @declared name k hmem hword =>
    refine .declared k ((List.mem_append.1 hmem).resolve_right fun hmem => ?_) hword
    exact hne hword (List.mem_singleton.1 hmem)
  | @implicit before inner after c d k hparts hsource hrest htakes hread =>
    obtain rfl | ⟨after, u, rfl⟩ := List.eq_nil_or_concat' after
    · -- the semicolon would be the last token of a binding
      have hmem : stop ∈ c.current :: inner := by
        rw [List.append_nil] at hparts
        have hlast : (c.current :: inner).getLast? = some stop := by
          rw [← List.getLast?_append_of_ne_nil before (List.cons_ne_nil _ _), ← hparts,
            List.getLast?_concat]
        exact List.mem_of_getLast? hlast
      obtain rfl | hmem := List.mem_cons.1 hmem
      · exact absurd rfl (hne hread.1)
      · exact absurd hstop.isForeign (hread.inside htakes stop hmem)
    · rw [← List.append_assoc] at hparts
      obtain ⟨rfl, hu⟩ := List.append_inj' hparts rfl
      obtain rfl : stop = u := (List.cons.inj hu).1
      exact .implicit before inner after rfl hsource (by simp [hrest]) htakes hread

namespace Parse.Accepts

variable {p q : Progress} {run : List Token}

theorem accounts {R : Account} (hspells : Spells R [] (openedBy kind limits p.cursor.current))
    (h : Accepts kind limits p run q) :
    q.cursor.source = p.cursor.source ∧ ∃ more, q.draft.vars = p.draft.vars ++ more ∧
      R p.cursor.source p.draft.vars (run ++ [q.cursor.current]) q.cursor.rest more := by
  obtain ⟨used, more, htakes, hvars, hmore⟩ | hover := hspells.spells h.step (by simp)
  · have hrest : p.cursor.rest = run ++ [q.cursor.current] ++ q.cursor.rest := by
      rw [h.rest, List.append_assoc, List.singleton_append]
    have hused : used = run ++ [q.cursor.current] :=
      List.append_cancel_right (htakes.1.symm.trans hrest)
    rw [List.nil_append, hused] at hmore
    exact ⟨htakes.source_current.1, more, hvars, hmore⟩
  · have hstop := h.stop
    rw [hover.2] at hstop
    cases hstop

/-- **An accepted statement brings up variables as it spells them.** -/
theorem spelled (h : Accepts kind limits p run q)
    (hlexed : ∀ t ∈ p.cursor.rest, t.kind = .semicolon → t.Terminates) :
    q.cursor.source = p.cursor.source ∧ ∃ more, q.draft.vars = p.draft.vars ++ more ∧
      SpelledInOrder kind limits p.cursor.source (p.cursor.current :: run)
        (q.cursor.current :: q.cursor.rest) more := by
  obtain ⟨hsource, more, hvars, hmore⟩ := h.accounts (R := .spelled kind limits) inferInstance
  have hstop : q.cursor.current.Terminates := hlexed _ (by simp [h.rest]) h.stop
  refine ⟨hsource, more, hvars, ?_, fun v hv => ?_⟩
  · have horder := hmore.order
    rw [List.filter_append, List.filter_cons_of_neg (by simp [h.stop]), List.filter_nil,
      List.append_nil] at horder
    refine horder.trans (.map _ ?_)
    exact (List.sublist_cons_self _ _).filter _
  · exact ((hmore.spelled v hv).before hstop).append_left [p.cursor.current]

/-- **Wherever an accepted instruction spells a binding, its variable is there**, and a new one stands no
further ahead. -/
theorem found (h : Accepts kind limits p run q)
    (hinstruction : openedBy kind limits p.cursor.current = instruction kind limits p.cursor.current)
    {before after : List Token} {t : Token} (hrun : run = before ++ t :: after) {k : VariableKind}
    {d : Cursor}
    (hread : k.ReadAt kind limits ⟨p.cursor.source, t, after ++ q.cursor.current :: q.cursor.rest⟩ d) :
    ∃ v ∈ q.draft.vars, v.implicit = true ∧ v.kind = k ∧
      (v ∈ p.draft.vars ∨ v.offset ∈ (before ++ [t]).map (·.offset)) := by
  have hspells : Spells (.found kind limits) [] (openedBy kind limits p.cursor.current) := by
    rw [hinstruction]
    infer_instance
  obtain ⟨-, more, hvars, -, hmore⟩ := h.accounts hspells
  rw [hvars]
  refine hmore before t (after ++ [q.cursor.current]) (by simp [hrun]) k d ?_
  rwa [List.append_assoc]

theorem wellNamed (h : Accepts kind limits p run q) (hp : p.draft.WellNamed) : q.draft.WellNamed := by
  have hedits : Edits limits p.cursor.rest (Draft.Edit kind limits p.cursor.rest)
    (openedBy kind limits p.cursor.current) := inferInstance
  exact hp.edits ((hedits.ends (List.suffix_refl _)).ok h.step)

end Parse.Accepts

theorem Token.not_isRoot_of_heading? {word : Token} {run : List Token} {heading : Opcode × Bool × Nat}
    (h : heading? kind (word :: run) = some heading) : ¬ word.IsRoot := by
  intro hroot
  have hnone : ∀ text ∈ bindingRoots, Instruction.ofWord? kind text = none := by
    cases kind <;> decide
  rw [heading?, hnone _ hroot.2] at h
  cases h

theorem Parse.openedBy_of_heading? {word : Token} {run : List Token} {heading : Opcode × Bool × Nat}
    (h : Token.heading? kind (word :: run) = some heading) :
    openedBy kind limits word = instruction kind limits word := by
  have hword : word.text ∉ ["OPTION", "TEMP", "ADDRESS", "ATTRIB", "PARAM", "OUTPUT", "ALIAS"] := by
    intro hword
    rw [Token.heading?, ofWord?_of_opening hword] at h
    cases h
  unfold openedBy
  split
  case h_8 => rfl
  all_goals exact absurd (by simp [*]) hword

/-! ## Programs -/

/-- A draft whose variables are spelled by statements among tokens, in their order, and where an implicit
variable is spelled by the first instruction that names it, where its binding is first read there. -/
structure Draft.SpelledOut (kind : ProgramKind) (limits : Limits) (source : List Char)
    (tokens : List Token) (ss : List (List Token)) (d : Draft) : Prop where
  order : (d.vars.map (·.offset)).Sublist ((ss.flatten.filter (·.kind == .identifier)).map (·.offset))
  spelled : ∀ v ∈ d.vars, ∃ s ∈ ss, ∃ rest, s ++ rest <:+ tokens ∧ v.SpelledBy kind limits source s rest
  firstUse : ∀ i v, d.vars[i]? = some v → v.implicit = true → ∃ s ∈ ss,
    (∃ rest, s ++ rest <:+ tokens ∧ v.SpelledBy kind limits source s rest) ∧
    (∀ c e, c.StandsIn source tokens → c.current ∈ s → v.kind.ReadAt kind limits c e →
      v.offset ≤ c.current.offset) ∧
    ∃ n j, d.instructions[n]? = some j ∧ Token.heading? kind s = some j.heading ∧ i ∈ j.places ∧
      ∀ j' ∈ d.instructions.take n, i ∉ j'.places

theorem Draft.spelledOut_empty (tokens : List Token) : SpelledOut kind limits source tokens [] {} where
  order := List.nil_sublist _
  spelled _ h := nomatch h
  firstUse _ _ h := nomatch h

/-- In an instruction, a new variable stands where its binding is first read. -/
theorem Parse.Accepts.offset_le {p q : Progress} {run tokens : List Token}
    (h : Accepts kind limits p run q) (htokens : tokens.Pairwise (·.offset < ·.offset))
    (hp : p.cursor.StandsIn source tokens) (hnamed : p.draft.WellNamed)
    {heading : Opcode × Bool × Nat}
    (hheading : Token.heading? kind (p.cursor.current :: run) = some heading) {i : Nat} {v : Variable}
    (hnew : p.draft.vars.length ≤ i) (hv : q.draft.vars[i]? = some v) (himplicit : v.implicit = true)
    {c d : Cursor} (hc : c.StandsIn source tokens) (hmem : c.current ∈ p.cursor.current :: run)
    (hread : v.kind.ReadAt kind limits c d) : v.offset ≤ c.current.offset := by
  obtain hfirst | hmem := List.mem_cons.1 hmem
  · exact absurd (hfirst ▸ hread.isRoot) (Token.not_isRoot_of_heading? hheading)
  obtain ⟨before, after, hrun⟩ := List.append_of_mem hmem
  have hrest : p.cursor.rest = before ++ c.current :: (after ++ q.cursor.current :: q.cursor.rest) := by
    rw [h.rest, hrun, List.append_assoc, List.cons_append]
  have hsame : c.rest = after ++ q.cursor.current :: q.cursor.rest := by
    refine Token.eq_of_suffix htokens hc.2 (.trans ⟨p.cursor.current :: before, ?_⟩ hp.2)
    rw [hrest, List.cons_append]
  have hcursor : c = ⟨p.cursor.source, c.current, after ++ q.cursor.current :: q.cursor.rest⟩ := by
    rw [← hsame, hp.1, ← hc.1]
  rw [hcursor] at hread
  obtain ⟨w, hw, himplicit', hkind, hplace⟩ := h.found (openedBy_of_heading? hheading) hrun hread
  obtain ⟨-, more, hvars, -⟩ := h.accounts (R := .spelled kind limits) inferInstance
  have hnamed' := h.wellNamed hnamed
  obtain ⟨j, hj⟩ := List.mem_iff_getElem?.1 hw
  obtain rfl : j = i := hnamed'.eq_of_kind hj hv himplicit' himplicit hkind
  obtain rfl : w = v := Option.some.inj (hj.symm.trans hv)
  obtain hold | hoffset := hplace
  · -- the variable would have been there before
    obtain ⟨j', hj'⟩ := List.mem_iff_getElem?.1 hold
    have hlt : j' < p.draft.vars.length := (List.getElem?_eq_some_iff.1 hj').1
    have hj'' : q.draft.vars[j']? = some w := by rw [hvars, List.getElem?_append_left hlt, hj']
    have hsame : j' = j := hnamed'.eq_of_kind hj'' hv himplicit himplicit rfl
    omega
  · obtain ⟨u, hu, hoffset⟩ := List.mem_map.1 hoffset
    rw [← hoffset]
    obtain hu | hu := List.mem_append.1 hu
    · have hpairwise := (List.pairwise_cons.1 (htokens.sublist hp.2.sublist)).2
      rw [hrest] at hpairwise
      exact Nat.le_of_lt ((List.pairwise_append.1 hpairwise).2.2 u hu _ List.mem_cons_self)
    · exact Nat.le_of_eq (congrArg Token.offset (List.mem_singleton.1 hu))

theorem Parse.Accepts.spelledOut {p q : Progress} {run tokens : List Token} {ss : List (List Token)}
    (h : Accepts kind limits p run q)
    (hlexed : ∀ t ∈ p.cursor.rest, t.kind = .semicolon → t.Terminates)
    (htokens : tokens.Pairwise (·.offset < ·.offset)) (hcursor : p.cursor.StandsIn source tokens)
    (hw : p.draft.WellFormed kind limits) (hnamed : p.draft.WellNamed)
    (hp : p.draft.SpelledOut kind limits source tokens ss) :
    q.draft.SpelledOut kind limits source tokens (ss ++ [p.cursor.current :: run]) := by
  obtain ⟨-, more, hvars, hmore⟩ := h.spelled hlexed
  obtain ⟨added, hinstructions, -⟩ := instructions_of_ok h.step
  rw [hcursor.1] at hmore
  have hstatement : p.cursor.current :: run ++ q.cursor.current :: q.cursor.rest <:+ tokens := by
    rw [List.cons_append, ← h.rest]
    exact hcursor.2
  refine ⟨?_, fun v hv => ?_, fun i v hv himplicit => ?_⟩
  · rw [hvars, List.map_append, List.flatten_append, List.flatten_singleton, List.filter_append,
      List.map_append]
    exact hp.order.append hmore.order
  · rw [hvars] at hv
    obtain hv | hv := List.mem_append.1 hv
    · obtain ⟨s, hs, hspelled⟩ := hp.spelled v hv
      exact ⟨s, List.mem_append_left _ hs, hspelled⟩
    · exact ⟨_, List.mem_append_right _ (List.mem_singleton_self _), _, hstatement, hmore.spelled v hv⟩
  by_cases hi : i < p.draft.vars.length
  · rw [hvars, List.getElem?_append_left hi] at hv
    obtain ⟨s, hs, hspelled, hfirst, n, j, hj, hheading, hplaces, hbefore⟩ := hp.firstUse i v hv himplicit
    have hn : n < p.draft.instructions.length := (List.getElem?_eq_some_iff.1 hj).1
    refine ⟨s, List.mem_append_left _ hs, hspelled, hfirst, n, j, ?_, hheading, hplaces, ?_⟩
    · rw [hinstructions, List.getElem?_append_left hn, hj]
    · rwa [hinstructions, List.take_append_of_le_length (Nat.le_of_lt hn)]
  · have hnew := Nat.not_lt.1 hi
    obtain ⟨j, hj, hplaces⟩ := openedBy_mentions h.step hnew hv himplicit
    have hheading : Token.heading? kind (p.cursor.current :: run) = some j.heading := by
      have hheadings := h.headings
      rw [hj, List.map_append, List.append_cancel_left_eq] at hheadings
      exact Option.toList_eq_singleton_iff.1 hheadings.symm
    have hspelled : v ∈ more := by
      rw [hvars, List.getElem?_append_right hnew] at hv
      exact List.mem_of_getElem? hv
    refine ⟨_, List.mem_append_right _ (List.mem_singleton_self _),
      ⟨_, hstatement, hmore.spelled v hspelled⟩, fun c e hc hmem hread => ?_,
      p.draft.instructions.length, j, by simp [hj], hheading, hplaces, ?_⟩
    · exact h.offset_le htokens hcursor hnamed hheading hnew hv himplicit hc hmem hread
    · rw [hj, List.take_left]
      exact fun j' hj' hplaces => hi ((hw.model.instructions j' hj').lt_of_mem_places i hplaces)

end

theorem Token.Framed.flatten_sublist {runs : List (List Token)} {ts : List Token} (h : Framed runs ts) :
    runs.flatten.Sublist ts := by
  induction h with
  | done => exact List.nil_sublist _
  | statement _ _ _ _ _ ih => exact (List.Sublist.refl _).append (ih.cons _)

theorem Token.Framed.identifier {runs : List (List Token)} {ts : List Token} (h : Framed runs ts) :
    ∀ s ∈ runs, ∀ word ∈ s.head?, word.kind = .identifier := by
  induction h with
  | done => exact List.forall_mem_nil _
  | statement hword _ _ _ _ ih =>
    refine List.forall_mem_cons.2 ⟨?_, ih⟩
    rintro _ ⟨⟩
    exact hword

theorem offsets_sublist (runs : List (List Token)) :
    ((runs.filterMap (Token.heading? kind)).map (·.2.2)).Sublist (runs.flatten.map (·.offset)) := by
  induction runs with
  | nil => exact List.nil_sublist _
  | cons s runs ih =>
    rw [List.flatten_cons, List.map_append]
    cases s with
    | nil => exact ih
    | cons word run =>
      cases e : Token.heading? kind (word :: run) with
      | none =>
        rw [List.filterMap_cons_none e]
        exact ih.trans (List.sublist_append_right _ _)
      | some heading =>
        obtain ⟨_, -, rfl⟩ := Option.map_eq_some_iff.1 e
        rw [List.filterMap_cons_some e]
        exact (ih.trans (List.sublist_append_right _ _)).cons_cons _

/-- What a cursor takes from a text stands from its first token up to the end of its last one. -/
theorem Cursor.StandsIn.textFrom {source : String} {start : Nat} {c d : Cursor} {inner : List Token}
    (hc : c.StandsIn source.toList (Token.significant source start)) (htakes : c.Takes inner d) :
    Text.StandsAt source.toList c.current.offset (d.textFrom c.current.offset).toList ∧
      c.current.offset + (d.textFrom c.current.offset).utf8ByteSize = d.current.stop := by
  obtain ⟨hsource, hcurrent⟩ := htakes.source_current
  have hts : (c.current :: inner).Sublist (Token.significant source start) := by
    refine .trans ?_ hc.2.sublist
    rw [htakes.1]
    exact (List.sublist_append_left _ _).cons_cons _
  have hlast : d.current ∈ c.current :: inner := hcurrent ▸ List.getLast_mem _
  have hle : c.current.offset ≤ d.current.offset + Text.byteLength d.current.text.toList := by
    have hpairwise := (Token.pairwise_significant source start).sublist hts
    obtain hsame | hinner := List.mem_cons.1 hlast
    · rw [hsame]
      exact Nat.le_add_right _ _
    · have hlt : c.current.offset < d.current.offset := (List.pairwise_cons.1 hpairwise).1 _ hinner
      omega
  have hslice := Text.standsAt_slice
    (Token.standsAt_of_mem_significant (hts.subset List.mem_cons_self))
    (Token.standsAt_of_mem_significant (hts.subset hlast)) hle
  have hstop : d.current.stop = d.current.offset + Text.byteLength d.current.text.toList := by
    rw [Token.stop, Token.length, Text.byteLength_toList]
  have hname : (d.textFrom c.current.offset).toList =
      Text.slice c.current.offset (d.current.offset + Text.byteLength d.current.text.toList)
        source.toList := by
    rw [← hstop, Cursor.textFrom, hsource, hc.1]
    exact String.toList_ofList
  rw [hname, hstop, ← Text.byteLength_toList, hname]
  exact hslice

theorem Variable.SpelledBy.exists_readAt {source : List Char} {s rest tokens : List Token} {v : Variable}
    (h : v.SpelledBy kind limits source s rest) (himplicit : v.implicit = true)
    (hs : s ++ rest <:+ tokens) :
    ∃ c d inner, c.StandsIn source tokens ∧ c.current :: inner <:+: s ∧ c.Takes inner d ∧
      v.kind.ReadAt kind limits c d ∧ v.offset = c.current.offset ∧
      v.name = d.textFrom c.current.offset := by
  cases h with
  | declared => cases himplicit
  | @implicit before inner after c d k hparts hsource hrest htakes hread =>
    refine ⟨c, d, inner, ⟨hsource, .trans ⟨before, ?_⟩ hs⟩, ⟨before, after, ?_⟩, htakes, hread, rfl, rfl⟩
    · rw [hparts, hrest]
      simp
    · rw [hparts]

theorem Token.eq_of_offset {tokens : List Token} (htokens : tokens.Pairwise (·.offset < ·.offset))
    {t u : Token} (ht : t ∈ tokens) (hu : u ∈ tokens) (h : t.offset = u.offset) : t = u :=
  List.inj_on_of_nodup_map ((List.pairwise_map.2 htokens).imp Nat.ne_of_lt) ht hu h

/-- A program whose places are those of its text, of which the statements are `runs`. -/
structure Model.PlacedIn (kind : ProgramKind) (limits : Limits) (source : String) (start : Nat)
    (runs : List (List Token)) (m : Model) : Prop where
  /-- Each instruction stands behind the ones before it. -/
  instructions_order : (m.instructions.map (·.offset)).Pairwise (· < ·)
  /-- An instruction stands where its mnemonic opens a statement. -/
  instruction : ∀ i ∈ m.instructions, ∃ s ∈ runs, ∃ word ∈ s.head?, word.kind = .identifier ∧
    word.offset = i.offset ∧ word.text = i.opcode.mnemonic ++ (if i.saturate then "_SAT" else "") ∧
    Text.StandsAt source.toList i.offset word.text.toList
  /-- Each variable stands behind the ones before it. -/
  vars_order : (m.vars.map (·.offset)).Pairwise (· < ·)
  /-- The name of a variable stands at its place. -/
  name : ∀ v ∈ m.vars, Text.StandsAt source.toList v.offset v.name.toList
  /-- The declared variables stand, in order, at the words that declare their names. -/
  declared_eq : declaredPlaces m.vars = (runs.flatMap Token.declaringWords).map Token.place
  /-- A declared variable stands at the word that is its name, in the statement that declares it. -/
  declared : ∀ v ∈ m.vars, v.implicit = false → ∃ s ∈ runs, ∃ t ∈ Token.declaringWords s, t ∈ s ∧
    t.kind = .identifier ∧ t.offset = v.offset ∧ t.text = v.name
  /-- The name of an implicit variable is its binding, from the first token to the last one, where it is
  first read in the first instruction that names the variable. -/
  implicit : ∀ i v, m.vars[i]? = some v → v.implicit = true → ∃ s ∈ runs,
    (∃ c d inner, c.StandsIn source.toList (Token.significant source start) ∧
      c.current :: inner <:+: s ∧ c.Takes inner d ∧ v.kind.ReadAt kind limits c d ∧
      v.offset = c.current.offset ∧ v.offset + v.name.utf8ByteSize = d.current.stop) ∧
    (∀ c d, c.StandsIn source.toList (Token.significant source start) → c.current ∈ s →
      v.kind.ReadAt kind limits c d → v.offset ≤ c.current.offset) ∧
    ∃ n j, m.instructions[n]? = some j ∧ Token.heading? kind s = some j.heading ∧ i ∈ j.places ∧
      ∀ j' ∈ m.instructions.take n, i ∉ j'.places

theorem Token.word_of_heading? {s : List Token} {i : Instruction}
    (h : heading? kind s = some i.heading) :
    ∃ word ∈ s.head?, word.offset = i.offset ∧ word.text = i.mnemonic := by
  cases s with
  | nil => cases h
  | cons word run =>
    obtain ⟨⟨opcode, saturate⟩, hword, hheading⟩ := Option.map_eq_some_iff.1 h
    obtain ⟨rfl, rfl, hoffset⟩ : opcode = i.opcode ∧ saturate = i.saturate ∧ word.offset = i.offset := by
      simpa [Instruction.heading] using hheading
    exact ⟨word, rfl, hoffset, Instruction.text_of_ofWord? hword⟩

theorem Draft.SpelledOut.placedIn {d : Draft} {source : String} {start : Nat}
    {runs : List (List Token)}
    (h : d.SpelledOut kind limits source.toList (Token.significant source start) runs)
    (hframed : Token.Framed runs (Token.significant source start))
    (hheadings : d.instructions.map Instruction.heading = runs.filterMap (Token.heading? kind))
    (hplaces : declaredPlaces d.vars = (runs.flatMap Token.declaringWords).map Token.place) :
    (d.toModel kind).PlacedIn kind limits source start runs := by
  have hsublist := hframed.flatten_sublist
  have hsignificant := Token.pairwise_significant source start
  have hpairwise : (runs.flatten.map (·.offset)).Pairwise (· < ·) :=
    List.pairwise_map.2 (hsignificant.sublist hsublist)
  have hstatement {s : List Token} (hs : s ∈ runs) : s ⊆ Token.significant source start :=
    ((List.sublist_flatten_of_mem hs).trans hsublist).subset
  refine ⟨?_, fun i hi => ?_, ?_, fun v hv => ?_, hplaces, fun v hv hdeclared => ?_,
    fun i v hv himplicit => ?_⟩
  · have hoffsets : d.instructions.map (·.offset) =
        (runs.filterMap (Token.heading? kind)).map (·.2.2) := by
      rw [← hheadings, List.map_map]
      rfl
    change (d.instructions.map (·.offset)).Pairwise (· < ·)
    rw [hoffsets]
    exact hpairwise.sublist (offsets_sublist runs)
  · have hmem : i.heading ∈ runs.filterMap (Token.heading? kind) :=
      hheadings ▸ List.mem_map_of_mem hi
    obtain ⟨s, hs, hheading⟩ := List.mem_filterMap.1 hmem
    obtain ⟨word, hword, hoffset, htext⟩ := Token.word_of_heading? hheading
    have hwords : word ∈ Token.significant source start := hstatement hs (List.mem_of_mem_head? hword)
    refine ⟨s, hs, word, hword, hframed.identifier s hs word hword, hoffset, htext, ?_⟩
    rw [← hoffset]
    exact Token.standsAt_of_mem_significant hwords
  · have horder := h.order.trans (List.filter_sublist.map _)
    exact hpairwise.sublist horder
  · obtain ⟨s, hs, rest, hrest, hspelled⟩ := h.spelled v hv
    cases himplicit : v.implicit with
    | true =>
      obtain ⟨c, e, inner, hc, -, htakes, -, hoffset, hname⟩ := hspelled.exists_readAt himplicit hrest
      rw [hoffset, hname]
      exact (hc.textFrom htakes).1
    | false =>
      cases hspelled with
      | declared k hmem _ => exact Token.standsAt_of_mem_significant (hstatement hs hmem)
      | implicit => cases himplicit
  · have hmem : (v.name, v.offset) ∈ declaredPlaces d.vars :=
      List.mem_map.2 ⟨v, List.mem_filter.2 ⟨hv, by simp [hdeclared]⟩, rfl⟩
    rw [hplaces] at hmem
    obtain ⟨t, ht, hplace⟩ := List.mem_map.1 hmem
    obtain ⟨htext, hoffset⟩ := Prod.mk.inj hplace
    obtain ⟨s, hs, ht⟩ := List.mem_flatMap.1 ht
    have hts := Token.declaringWords_subset s ht
    refine ⟨s, hs, t, ht, hts, ?_, hoffset, htext⟩
    -- the word that spells the variable stands in the same place
    obtain ⟨s', hs', rest, -, hspelled⟩ := h.spelled v hv
    cases hspelled with
    | @declared name k hname hword =>
      rwa [Token.eq_of_offset hsignificant (hstatement hs hts) (hstatement hs' hname) hoffset]
    | implicit => cases hdeclared
  · obtain ⟨s, hs, ⟨rest, hrest, hspelled⟩, hfirst, huse⟩ := h.firstUse i v hv himplicit
    obtain ⟨c, e, inner, hc, hinner, htakes, hread, hoffset, hname⟩ :=
      hspelled.exists_readAt himplicit hrest
    refine ⟨s, hs, ⟨c, e, inner, hc, hinner, htakes, hread, hoffset, ?_⟩, hfirst, huse⟩
    rw [hoffset, hname]
    exact (hc.textFrom htakes).2

/-- **The places in a program are those of its text.** -/
theorem placedIn_of_readProgram {settings : TranslatorSettings} {source : String} {m : Model}
    (h : readProgram settings source kind = .ok m) :
    ∃ start runs, Header.classify source kind = .ok start ∧
      Token.Framed runs (Token.significant source start) ∧
      m.PlacedIn kind (settings.limits kind) source start runs := by
  obtain ⟨start, hstart, -, hdone⟩ := done_of_readProgram h
  let tokens := Token.significant source start
  let I (p : Progress) (ss : List (List Token)) : Prop :=
    p.cursor.source = source.toList ∧ p.cursor.rest <:+ tokens ∧
      (p.cursor.current.kind ≠ .endOfText → p.cursor.current :: p.cursor.rest <:+ tokens) ∧
      p.draft.WellFormed kind (settings.limits kind) ∧ p.draft.WellNamed ∧
      p.draft.SpelledOut kind (settings.limits kind) source.toList tokens ss ∧
      p.draft.instructions.map Instruction.heading = ss.filterMap (Token.heading? kind) ∧
      declaredPlaces p.draft.vars = (ss.flatMap Token.declaringWords).map Token.place
  have hadvance (c : Cursor) (hrest : c.rest <:+ tokens) : c.advance.rest <:+ tokens ∧
      (c.advance.current.kind ≠ .endOfText → c.advance.current :: c.advance.rest <:+ tokens) := by
    refine ⟨(List.tail_suffix _).trans hrest, fun hkind => ?_⟩
    have hnext : c.rest = c.advance.current :: c.advance.rest := Cursor.rest_of_upcoming hkind
    rwa [hnext] at hrest
  obtain ⟨start', p, hstart', rfl, -, -, -, -, -, hspelled, hheadings, hplaces⟩ : ∃ start' p,
      Header.classify source kind = .ok start' ∧ m = p.draft.toModel kind ∧
        I p (Token.statements (Token.significant source start')) := by
    refine progress_of_readProgram h (fun start' hstart' => ?_) (fun p q run ss haccepts hlexed hI => ?_)
      fun p ss hI => ?_
    · obtain rfl := Except.ok.inj (hstart.symm.trans hstart')
      have hcursor := hadvance ⟨source.toList, Token.endAt start, tokens⟩ (List.suffix_refl _)
      exact ⟨rfl, hcursor.1, hcursor.2, Draft.wellFormed_empty, Draft.wellNamed_empty,
        Draft.spelledOut_empty _, rfl, rfl⟩
    · obtain ⟨hsource, hrest, hcurrent, hw, hnamed, hspelled, hannounced⟩ := hI
      have hcursor : p.cursor.StandsIn source.toList tokens :=
        ⟨hsource, hcurrent (by simp [haccepts.word])⟩
      have hstop : q.cursor.current :: q.cursor.rest <:+ tokens :=
        .trans ⟨run, haccepts.rest.symm⟩ hrest
      exact ⟨(haccepts.spelled hlexed).1.trans hsource, (List.suffix_cons _ _).trans hstop,
        fun _ => hstop, haccepts.wellFormed hw, haccepts.wellNamed hnamed,
        haccepts.spelledOut hlexed (Token.pairwise_significant _ _) hcursor hw hnamed hspelled,
        haccepts.announced hannounced⟩
    · obtain ⟨hsource, hrest, -, hdraft⟩ := hI
      exact ⟨hsource, (hadvance p.cursor hrest).1, (hadvance p.cursor hrest).2, hdraft⟩
  obtain rfl := Except.ok.inj (hstart.symm.trans hstart')
  obtain ⟨runs, hframed, -⟩ := framed_of_done hdone
  rw [hframed.statements_eq] at hspelled hheadings hplaces
  exact ⟨start, runs, hstart, hframed, hspelled.placedIn hframed hheadings hplaces⟩

/-- A program with blanks inside a binding, which the same instruction spells once more without them. -/
def blanksInside : String :=
  "!!ARBfp1.0\nTEMP a;\nMUL a, fragment.color . primary, fragment.color;\n" ++
    "ADD_SAT result.color, fragment.color, a;\nEND\n"

theorem placedIn_blanksInside : ∃ m start runs, readProgram {} blanksInside .fragment = .ok m ∧
    Token.Framed runs (Token.significant blanksInside start) ∧
    m.PlacedIn .fragment (Limits.ofKind .fragment) blanksInside start runs ∧
    m.vars.map (fun v => (v.name, v.offset, v.implicit)) =
      [("a", 16, false), ("fragment.color . primary", 26, true), ("result.color", 76, true)] ∧
    m.instructions.map (fun i => (i.mnemonic, i.offset)) = [("MUL", 19), ("ADD_SAT", 68)] := by
  have hok : (readProgram {} blanksInside .fragment).toOption.map (fun m =>
      (m.vars.map (fun v => (v.name, v.offset, v.implicit)),
        m.instructions.map (fun i => (i.mnemonic, i.offset)))) =
      some ([("a", 16, false), ("fragment.color . primary", 26, true), ("result.color", 76, true)],
        [("MUL", 19), ("ADD_SAT", 68)]) := by
    rw [show blanksInside = String.ofList _ from String.ofList_append.symm, toOption_readProgram_ofList]
    decide +kernel
  obtain ⟨m, hm, hplaces⟩ := Option.map_eq_some_iff.1 hok
  obtain ⟨hvars, hinstructions⟩ := Prod.mk.inj hplaces
  have hread := eq_ok_of_toOption hm
  obtain ⟨start, runs, -, hframed, hplaced⟩ := placedIn_of_readProgram hread
  exact ⟨m, start, runs, hread, hframed, hplaced, hvars, hinstructions⟩

end ShaderAssembly
