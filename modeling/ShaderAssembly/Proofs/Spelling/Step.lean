import ShaderAssembly.Proofs.Editing.Statement
import ShaderAssembly.Proofs.Spelling.Binding
/-!
# Variables as the text spells them

A step adds variables for the tokens that it reads, in the order of these tokens.

* **`Variable.SpelledBy`**: a declared variable has the name and the place of a word, an implicit one
  those of a binding;
* `Account`: what new variables are to tokens; `Account.spelled`: the tokens spell the variables, in
  their order; `Account.found`: and wherever they spell a binding, its variable is there;
* **`Parse.Spells`**: a step whose tokens account for its new variables;
* one rule for each way of putting steps together.
-/

namespace ShaderAssembly

variable {α β : Type}

/-! ## Variables in the text -/

section

variable (kind : ProgramKind) (limits : Limits) (source : List Char)

/-- A variable that the tokens `ts` of a text bring up before the tokens `rest`: under the name and at
the place of a word that is declared, or under the text and at the place of a binding. -/
inductive Variable.SpelledBy (ts rest : List Token) : Variable → Prop
  | declared {name : Token} (k : VariableKind) :
    name ∈ ts → name.kind = .identifier →
      SpelledBy ts rest { name := name.text, kind := k, offset := name.offset }
  | implicit (before inner after : List Token) {c d : Cursor} {k : VariableKind} :
    ts = before ++ c.current :: inner ++ after → c.source = source → c.rest = inner ++ after ++ rest →
      c.Takes inner d → k.ReadAt kind limits c d →
      SpelledBy ts rest
        { name := d.textFrom c.current.offset
          kind := k
          offset := c.current.offset
          implicit := true }

/-- Variables that tokens bring up, in the order of the words that they start with. -/
structure SpelledInOrder (ts rest : List Token) (vs : List Variable) : Prop where
  order : (vs.map (·.offset)).Sublist ((ts.filter (·.kind == .identifier)).map (·.offset))
  spelled : ∀ v ∈ vs, v.SpelledBy kind limits source ts rest

/-- Wherever a binding is read among the tokens `ts`, it has an implicit variable, which is `known` or
among the new ones `vs`. A new one stands no further ahead. -/
def FoundIn (known : List Variable) (ts rest : List Token) (vs : List Variable) : Prop :=
  ∀ before t after, ts = before ++ t :: after →
    ∀ k d, k.ReadAt kind limits ⟨source, t, after ++ rest⟩ d →
      ∃ v ∈ known ++ vs, v.implicit = true ∧ v.kind = k ∧
        (v ∈ known ∨ v.offset ∈ (before ++ [t]).map (·.offset))

end

/-! ## Accounts -/

/-- What the variables `vs`, new behind the variables `known`, are to the tokens `ts` of a text before
the tokens `rest`. -/
abbrev Account :=
  (source : List Char) → (known : List Variable) → (ts rest : List Token) → (vs : List Variable) → Prop

namespace Account

/-- An account of tokens is one of its parts. -/
class Composes (R : Account) : Prop where
  nil (source : List Char) (known : List Variable) (rest : List Token) : R source known [] rest []
  append {source : List Char} {known vs ws : List Variable} {ts us rest : List Token} :
    R source known ts (us ++ rest) vs → R source (known ++ vs) us rest ws →
      R source known (ts ++ us) rest (vs ++ ws)

/-- Tokens that need not bring up anything. -/
class Silent (R : Account) (ts : List Token) : Prop where
  silent (source : List Char) (known : List Variable) (rest : List Token) : R source known ts rest []

variable (kind : ProgramKind) (limits : Limits)

/-- The tokens spell the variables, in their order. -/
def spelled : Account := fun source _ => SpelledInOrder kind limits source

/-- The tokens spell the variables, in their order, and wherever they spell a binding its variable is
there. -/
def found : Account := fun source known ts rest vs =>
  SpelledInOrder kind limits source ts rest vs ∧ FoundIn kind limits source known ts rest vs

end Account

open Account (Composes Silent)

variable {kind : ProgramKind} {limits : Limits} {source : List Char} {ts us rest : List Token}
  {known vs ws : List Variable}

namespace Variable.SpelledBy

variable {v : Variable}

theorem append_left (h : v.SpelledBy kind limits source us rest) (ts : List Token) :
    v.SpelledBy kind limits source (ts ++ us) rest := by
  cases h with
  | declared k hmem hword => exact .declared k (List.mem_append_right _ hmem) hword
  | implicit before inner after hparts hsource hrest htakes hread =>
    exact .implicit (ts ++ before) inner after (by simp [hparts]) hsource hrest htakes hread

theorem append_right (h : v.SpelledBy kind limits source ts (us ++ rest)) :
    v.SpelledBy kind limits source (ts ++ us) rest := by
  cases h with
  | declared k hmem hword => exact .declared k (List.mem_append_left _ hmem) hword
  | implicit before inner after hparts hsource hrest htakes hread =>
    exact .implicit before inner (after ++ us) (by simp [hparts]) hsource (by simp [hrest]) htakes hread

end Variable.SpelledBy

namespace SpelledInOrder

theorem nil (ts rest : List Token) : SpelledInOrder kind limits source ts rest [] where
  order := List.nil_sublist _
  spelled _ h := nomatch h

theorem append (h : SpelledInOrder kind limits source ts (us ++ rest) vs)
    (h' : SpelledInOrder kind limits source us rest ws) :
    SpelledInOrder kind limits source (ts ++ us) rest (vs ++ ws) where
  order := by
    rw [List.map_append, List.filter_append, List.map_append]
    exact h.order.append h'.order
  spelled := List.forall_mem_append.2
    ⟨fun v hv => (h.spelled v hv).append_right, fun v hv => (h'.spelled v hv).append_left ts⟩

theorem single {v : Variable} {t : Token} (ht : t ∈ ts) (hword : t.kind = .identifier)
    (hoffset : v.offset = t.offset) (hv : v.SpelledBy kind limits source ts rest) :
    SpelledInOrder kind limits source ts rest [v] where
  order := List.singleton_sublist.2
    (List.mem_map.2 ⟨t, List.mem_filter.2 ⟨ht, by simp [hword]⟩, hoffset.symm⟩)
  spelled := List.forall_mem_singleton.2 hv

theorem offset_mem (h : SpelledInOrder kind limits source ts rest vs) {v : Variable} (hv : v ∈ vs) :
    v.offset ∈ ts.map (·.offset) :=
  (List.filter_sublist.map _).subset (h.order.subset (List.mem_map_of_mem hv))

end SpelledInOrder

namespace FoundIn

theorem of_forall_not_isRoot (h : ∀ t ∈ ts, ¬ t.IsRoot) : FoundIn kind limits source known ts rest [] := by
  rintro before t after rfl k d hread
  exact absurd hread.isRoot (h t (by simp))

theorem append (hspelled : SpelledInOrder kind limits source ts (us ++ rest) vs)
    (h : FoundIn kind limits source known ts (us ++ rest) vs)
    (h' : FoundIn kind limits source (known ++ vs) us rest ws) :
    FoundIn kind limits source known (ts ++ us) rest (vs ++ ws) := by
  intro before t after hparts k d hread
  rw [← List.append_assoc known]
  have second (inside : List Token) (hbefore : before = ts ++ inside) (hus : us = inside ++ t :: after) :
      ∃ v ∈ known ++ vs ++ ws, v.implicit = true ∧ v.kind = k ∧
        (v ∈ known ∨ v.offset ∈ (before ++ [t]).map (·.offset)) := by
    obtain ⟨v, hv, himplicit, hkind, hplace⟩ := h' inside t after hus k d hread
    refine ⟨v, hv, himplicit, hkind, ?_⟩
    rw [hbefore, List.append_assoc, List.map_append, List.mem_append]
    -- a variable that the first tokens have brought up stands among them
    obtain hold | hoffset := hplace
    · exact (List.mem_append.1 hold).imp_right fun hnew => .inl (hspelled.offset_mem hnew)
    · exact .inr (.inr hoffset)
  obtain ⟨inside, hbefore, hus⟩ | ⟨inside, hts, hinside⟩ := List.append_eq_append_iff.1 hparts
  · exact second inside hbefore hus
  cases inside with
  | nil => exact second [] (by simpa using hts.symm) hinside.symm
  | cons u inside =>
    rw [List.cons_append] at hinside
    obtain ⟨rfl, hafter⟩ := List.cons.inj hinside
    rw [hafter, List.append_assoc] at hread
    obtain ⟨v, hv, hrest⟩ := h before t inside hts k d hread
    exact ⟨v, List.mem_append_left _ hv, hrest⟩

theorem binding {c d : Cursor} {inner : List Token} {k : VariableKind}
    (hread : k.ReadAt kind limits c d) (htakes : c.Takes inner d) {v : Variable}
    (hv : v ∈ known ++ vs) (himplicit : v.implicit = true) (hkind : v.kind = k)
    (hplace : v ∈ known ∨ v.offset = c.current.offset) :
    FoundIn kind limits c.source known (c.current :: inner) d.rest vs := by
  intro before t after hparts k' d' hread'
  cases before with
  | nil =>
    obtain ⟨rfl, rfl⟩ := List.cons.inj hparts
    rw [← htakes.1] at hread'
    exact ⟨v, hv, himplicit, hkind.trans (hread'.unique hread), by simpa using hplace⟩
  | cons u before =>
    have ht : t ∈ inner := by simp [(List.cons.inj hparts).2]
    exact absurd hread'.isRoot.isForeign (hread.inside htakes t ht)

end FoundIn

namespace Account

instance : Composes (spelled kind limits) where
  nil _ _ _ := .nil _ _
  append := .append

instance : Composes (found kind limits) where
  nil _ _ _ := ⟨.nil _ _, .of_forall_not_isRoot (List.forall_mem_nil _)⟩
  append h h' := ⟨h.1.append h'.1, .append h.1 h.2 h'.2⟩

instance (R : Account) [Composes R] : Silent R [] where
  silent source known rest := Composes.nil source known rest

instance (ts : List Token) : Silent (spelled kind limits) ts where
  silent _ _ _ := .nil _ _

end Account

/-! ## Steps -/

namespace Parse

/-- Behind the tokens `opened` a step leads from `p` to `q`. These tokens and those that it reads account
for the new variables, unless the text is over. -/
def SpellsTo (R : Account) (opened : List Token) (p q : Progress) : Prop :=
  (∃ used more, p.cursor.Takes used q.cursor ∧ q.draft.vars = p.draft.vars ++ more ∧
    R p.cursor.source p.draft.vars (opened ++ used) q.cursor.rest more) ∨ q.cursor.IsOver

/-- A step behind the tokens `opened`. These and the tokens that it reads account for its new
variables. -/
class Spells (R : Account) (opened : List Token) (step : Parse α) : Prop where
  moves {p q : Progress} {a : α} : step p = .ok a q → p.cursor.LeadsTo q.cursor
  spells {p q : Progress} {a : α} : step p = .ok a q →
    (∀ t ∈ opened.getLast?, t = p.cursor.current) → SpellsTo R opened p q

variable {R : Account} {opened : List Token}

theorem Spells.of_still [Silent R opened] {step : Parse α} [h : StandsStill step]
    (hvars : ∀ p a q, step p = .ok a q → q.draft.vars = p.draft.vars) : Spells R opened step where
  moves {p q a} e := by
    have hcursor : q.cursor = p.cursor := h.cursor_eq e
    rw [hcursor]
    exact .refl _
  spells {p q a} e _ := by
    have hcursor : q.cursor = p.cursor := h.cursor_eq e
    refine .inl ⟨[], [], hcursor ▸ .refl _, by rw [hvars p a q e, List.append_nil], ?_⟩
    rw [List.append_nil]
    exact Silent.silent _ _ _

theorem Spells.of_same {step : Parse α} [h : IsLocal step]
    (hvars : ∀ p a q, step p = .ok a q → q.draft.vars = p.draft.vars) :
    Spells (.spelled kind limits) opened step where
  moves e := h.moves e
  spells {p q a} e _ := by
    obtain ⟨used, htakes⟩ | hover := (h.moves e).takes_or_isOver
    · exact .inl ⟨used, [], htakes, by rw [hvars p a q e, List.append_nil], .nil _ _⟩
    · exact .inr hover

instance (scan : Scan α) [scan.IsLocal] : Spells (.spelled kind limits) opened (liftM scan : Parse α) :=
  .of_same fun p _ _ e => by
    obtain ⟨c, -, rfl⟩ := lift_eq_ok.1 e
    rfl

/-- A scan that passes no root of a binding. -/
instance (scan : Scan α) [h : scan.IsLocal] [havoids : Avoids Token.IsRoot scan] :
    Spells (.found kind limits) [] (liftM scan : Parse α) where
  moves e := IsLocal.moves e
  spells {p q a} e _ := by
    obtain ⟨d, hd, rfl⟩ := lift_eq_ok.1 e
    obtain ⟨used, htakes⟩ | hover := (h.moves hd).takes_or_isOver
    · obtain ⟨used', hused', hnone⟩ := havoids.reads hd
      have hsame : used' = used := List.append_cancel_right (hused'.symm.trans htakes.1)
      rw [hsame] at hnone
      exact .inl ⟨used, [], htakes, (List.append_nil _).symm, .nil _ _, .of_forall_not_isRoot hnone⟩
    · exact .inr hover

instance (a : α) [Silent R opened] : Spells R opened (pure a : Parse α) :=
  .of_still fun p _ _ e => by
    cases e
    rfl

instance (cause : Cause) (offset : Nat) : Spells R opened (refuse cause offset : Parse α) where
  moves e := nomatch e
  spells e := nomatch e

/-- Nothing follows a refusal. -/
instance (cause : Cause) (offset : Nat) (f : α → Parse β) :
    Spells R opened (refuse cause offset >>= f) where
  moves e := nomatch e
  spells e := nomatch e

instance (wanted : String) (found : Token) :
    Spells R opened (liftM (Scan.unexpected wanted found : Scan α) : Parse α) where
  moves e := nomatch e
  spells e := nomatch e

instance (wanted : String) (found : Token) (f : α → Parse β) :
    Spells R opened (liftM (Scan.unexpected wanted found : Scan α) >>= f) where
  moves e := nomatch e
  spells e := nomatch e

instance (c : Prop) [Decidable c] (step step' : Parse α) [Spells R opened step]
    [Spells R opened step'] : Spells R opened (if c then step else step') := by
  split <;> assumption

/-- Where every binding has its variable, the variables are spelled in their order. -/
theorem Spells.of_found {step : Parse α} [h : Spells (.found kind limits) opened step] :
    Spells (.spelled kind limits) opened step where
  moves := h.moves
  spells e hopened := (h.spells e hopened).imp_left
    fun ⟨used, more, htakes, hvars, hmore⟩ => ⟨used, more, htakes, hvars, hmore.1⟩

/-! ## Putting steps together -/

instance (step : Parse α) (f : α → Parse β) [Composes R] [hs : Spells R opened step]
    [hf : ∀ a, Spells R [] (f a)] : Spells R opened (step >>= f) where
  moves e := by
    obtain ⟨a, p₁, e₁, e₂⟩ := bind_eq_ok.1 e
    exact (hs.moves e₁).trans ((hf a).moves e₂)
  spells e hopened := by
    obtain ⟨a, p₁, e₁, e₂⟩ := bind_eq_ok.1 e
    obtain ⟨used, more, htakes, hvars, hmore⟩ | hover := hs.spells e₁ hopened
    · obtain ⟨used', more', htakes', hvars', hmore'⟩ | hover := (hf a).spells e₂ nofun
      · rw [htakes.source_current.1, hvars] at hmore'
        rw [htakes'.1] at hmore
        refine .inl ⟨used ++ used', more ++ more', htakes.trans htakes', ?_, ?_⟩
        · rw [hvars', hvars, List.append_assoc]
        · rw [← List.append_assoc]
          exact Composes.append hmore hmore'
      · exact .inr hover
    · exact .inr (hover.eq_of_leadsTo ((hf a).moves e₂) ▸ hover)

/-- A step behind another one, where the cases of what follows are still to be told apart. -/
theorem Spells.andThen {step : Parse α} {f : α → Parse β} [Composes R] [Spells R opened step]
    (hf : ∀ a, Spells R [] (f a)) : Spells R opened (step >>= f) := inferInstance

/-- A step behind a token at which no binding is read. -/
theorem Spells.behind {t : Token} {step : Parse α} (h : Spells (.found kind limits) [] step)
    (hnone : ∀ p a q k d, step p = .ok a q → p.cursor.current = t →
      ¬ VariableKind.ReadAt kind limits p.cursor d k) : Spells (.found kind limits) [t] step where
  moves := h.moves
  spells {p q a} e hopened := by
    obtain ⟨used, more, htakes, hvars, hmore⟩ | hover := h.spells e nofun
    · have hcurrent : t = p.cursor.current := hopened t rfl
      refine .inl ⟨used, more, htakes, hvars, ?_⟩
      have ht : Account.found kind limits p.cursor.source p.draft.vars [t] (used ++ q.cursor.rest) [] := by
        refine ⟨.nil _ _, fun before u after hparts k d hread => ?_⟩
        obtain ⟨rfl, rfl, rfl⟩ : before = [] ∧ u = t ∧ after = [] := by
          simpa [List.singleton_eq_append_iff] using hparts
        rw [List.nil_append, ← htakes.1, hcurrent] at hread
        exact absurd hread (hnone p a q k d e hcurrent.symm)
      rw [List.nil_append, ← List.append_nil p.draft.vars] at hmore
      exact Composes.append ht hmore
    · exact .inr hover

theorem Spells.behind_of_not_isRoot {t : Token} {step : Parse α} [Spells (.found kind limits) [] step]
    (ht : ¬ t.IsRoot) : Spells (.found kind limits) [t] step :=
  .behind inferInstance fun _ _ _ _ _ _ hcurrent hread => ht (hcurrent ▸ hread.isRoot)

theorem Spells.behind_of_kind {t : Token} {step : Parse α} [Spells (.found kind limits) [] step]
    (ht : t.kind ≠ .identifier) : Spells (.found kind limits) [t] step :=
  .behind_of_not_isRoot fun h => ht h.1

theorem getLast?_of_takes {c d : Cursor} {used : List Token} (h : c.Takes used d)
    (hopened : ∀ t ∈ opened.getLast?, t = c.current) :
    ∀ t ∈ (opened ++ used).getLast?, t = d.current := by
  have hcurrent := h.source_current.2
  cases used with
  | nil =>
    rw [List.append_nil]
    exact fun t ht => (hopened t ht).trans hcurrent.symm
  | cons u used =>
    intro t ht
    rw [List.getLast?_append, List.getLast?_eq_some_getLast (List.cons_ne_nil _ _), Option.some_or] at ht
    rw [hcurrent, List.getLast_cons (List.cons_ne_nil _ _)]
    exact (Option.some.inj ht).symm

/-- A step behind a scan, whose tokens may spell a variable that is still to come. -/
theorem Spells.behindScan {scan : Scan α} {f : α → Parse β} [hs : scan.IsLocal]
    (hmoves : ∀ a c d, scan c = .ok a d → ∀ p q b, f a p = .ok b q → p.cursor.LeadsTo q.cursor)
    (hf : ∀ a c d used, scan c = .ok a d → c.Takes used d → Spells R (opened ++ used) (f a)) :
    Spells R opened (liftM scan >>= f) where
  moves e := by
    obtain ⟨a, p₁, e₁, e₂⟩ := bind_eq_ok.1 e
    obtain ⟨d, hd, rfl⟩ := lift_eq_ok.1 e₁
    exact (hs.moves hd).trans (hmoves a _ d hd _ _ _ e₂)
  spells {p q b} e hopened := by
    obtain ⟨a, p₁, e₁, e₂⟩ := bind_eq_ok.1 e
    obtain ⟨d, hd, rfl⟩ := lift_eq_ok.1 e₁
    obtain ⟨used, htakes⟩ | hover := (hs.moves hd).takes_or_isOver
    · obtain ⟨used', more, htakes', hvars, hmore⟩ | hover :=
        (hf a p.cursor d used hd htakes).spells e₂ (getLast?_of_takes htakes hopened)
      · refine .inl ⟨used ++ used', more, htakes.trans htakes', hvars, ?_⟩
        rw [← List.append_assoc, ← htakes.source_current.1]
        exact hmore
      · exact .inr hover
    · exact .inr (hover.eq_of_leadsTo (hmoves a _ d hd _ _ _ e₂) ▸ hover)

theorem Spells.next [Composes R] [Silent R opened] {f : Token → Parse β}
    (hf : ∀ t, Spells R [t] (f t)) : Spells R opened (liftM Scan.next >>= f) where
  moves e := by
    obtain ⟨t, p₁, e₁, e₂⟩ := bind_eq_ok.1 e
    cases e₁
    exact (Cursor.leadsTo_advance _).trans ((hf _).moves e₂)
  spells {p q b} e _ := by
    obtain ⟨t, p₁, e₁, e₂⟩ := bind_eq_ok.1 e
    cases e₁
    obtain ⟨t, htakes, rfl⟩ | hover := p.cursor.takes_or_isOver_advance
    · have hcurrent : ∀ t ∈ [p.cursor.upcoming].getLast?, t = p.cursor.advance.current := by
        rintro _ ⟨⟩
        rfl
      obtain ⟨used, more, htakes', hvars, hmore⟩ | hover := (hf _).spells e₂ hcurrent
      · refine .inl ⟨_, more, htakes.trans htakes', hvars, ?_⟩
        rw [← List.append_nil (_ : Progress).draft.vars] at hmore
        exact Composes.append (Silent.silent _ _ _) hmore
      · exact .inr hover
    · exact .inr (hover.eq_of_leadsTo ((hf _).moves e₂) ▸ hover)

theorem takes_word {wanted : String} {c d : Cursor} {name : Token} {used : List Token}
    (e : Scan.word wanted c = .ok name d) (htakes : c.Takes used d) : used = [name] := by
  have hsame := htakes.1
  rw [(Scan.rest_of_word e).1, ← List.singleton_append] at hsame
  exact (List.append_cancel_right hsame).symm

/-- A step behind a word that it refuses if it is the root of a binding. -/
theorem Spells.word {wanted : String} {f : Token → Parse β}
    (hf : ∀ name, Spells (.found kind limits) [] (f name))
    (hroot : ∀ name, name.IsRoot → ∀ p a q, f name p ≠ .ok a q) :
    Spells (.found kind limits) [] (liftM (Scan.word wanted) >>= f) := by
  refine .behindScan (fun name _ _ _ _ _ _ => (hf name).moves) fun name c d used e htakes => ?_
  rw [takes_word e htakes]
  exact .behind (hf name) fun p a q k d e hcurrent hread =>
    hroot name (hcurrent ▸ hread.isRoot) p a q e

/-! ## Variables -/

instance [Silent R opened] : Spells R opened draft :=
  .of_still fun p _ _ e => by
    cases e
    rfl

instance [Silent R opened] (name : Token) : Spells R opened (resolve name) :=
  .of_still fun p _ _ e => by
    obtain ⟨-, rfl⟩ := resolve_eq_ok.1 e
    rfl

theorem edit_spells [Silent R opened] {change : Draft → Except Cause Draft} {offset : Nat}
    (h : ∀ d d', change d = .ok d' → d'.vars = d.vars) : Spells R opened (edit change offset) :=
  .of_still fun p _ _ e => by
    rw [edit_eq] at e
    split at e
    · rename_i hd
      cases e
      exact h _ _ hd
    · cases e

/-- A binding that is read behind its first word has the variable that is there for it, or spells the one
that is added. -/
theorem binding_spells {scan : Scan α} [hs : scan.IsLocal] {k : α → VariableKind}
    {f : α → Nat → β} {first : Token} (hword : first.kind = .identifier)
    (hread : ∀ c b d, c.current = first → scan c = .ok b d → (k b).ReadAt kind limits c d) :
    Spells (.found kind limits) [first]
      (liftM scan >>= fun b => do return f b (← implicit (k b) first.offset)) where
  moves e := IsLocal.moves e
  spells {p q r} e hopened := by
    obtain ⟨b, p₁, e₁, e⟩ := bind_eq_ok.1 e
    obtain ⟨d, hd, rfl⟩ := lift_eq_ok.1 e₁
    obtain ⟨i, q, e₂, ⟨⟩⟩ := bind_eq_ok.1 e
    obtain rfl : first = p.cursor.current := hopened first rfl
    have hbinding := hread p.cursor b d rfl hd
    rw [implicit_eq] at e₂
    obtain ⟨used, htakes⟩ | hover := (hs.moves hd).takes_or_isOver
    · cases himplied : p.draft.implied? (k b) with
      | some j =>
        simp only [himplied] at e₂
        cases e₂
        obtain ⟨v, hv, himplicit, hkind⟩ := Draft.exists_of_implied? himplied
        refine .inl ⟨used, [], htakes, (List.append_nil _).symm, .nil _ _, ?_⟩
        exact .binding hbinding htakes (List.mem_append_left _ hv) himplicit hkind (.inl hv)
      | none =>
        simp only [himplied] at e₂
        cases e₂
        refine .inl ⟨used, _, htakes, rfl, .single List.mem_cons_self hword rfl ?_, ?_⟩
        · exact .implicit [] used [] (by simp) rfl (by simp [htakes.1]) htakes hbinding
        · exact .binding hbinding htakes (List.mem_append_right _ (List.mem_singleton_self _)) rfl rfl
            (.inr rfl)
    · split at e₂ <;> cases e₂ <;> exact .inr hover

/-! ## Declarations -/

variable (kind limits) in
/-- A step whose only variable has the name and the place of a word that has been read. -/
class SpellsName (name : Token) (step : Parse α) : Prop where
  spells {opened : List Token} : name ∈ opened → name.kind = .identifier →
    Spells (.spelled kind limits) opened step

instance (name : Token) (k : VariableKind) :
    SpellsName kind limits name (edit (·.declare limits name.text k name.offset) name.offset) where
  spells {opened} hmem hword := ⟨fun e => IsLocal.moves e, fun {p q u} e _ => by
    rw [edit_eq] at e
    split at e
    · rename_i d hdeclare
      cases e
      obtain ⟨-, -, rfl⟩ := Draft.declare_eq_ok hdeclare
      have hmem' : name ∈ opened ++ [] := List.mem_append_left _ hmem
      exact .inl ⟨[], _, .refl _, rfl, .single hmem' hword rfl (.declared k hmem' hword)⟩
    · cases e⟩

instance (name : Token) (cause : Cause) (offset : Nat) (f : α → Parse β) :
    SpellsName kind limits name (refuse cause offset >>= f) where
  spells _ _ := inferInstance

instance (name found : Token) (wanted : String) (f : α → Parse β) :
    SpellsName kind limits name (liftM (Scan.unexpected wanted found : Scan α) >>= f) where
  spells _ _ := inferInstance

instance (name : Token) (c : Prop) [Decidable c] (step step' : Parse α)
    [SpellsName kind limits name step] [SpellsName kind limits name step'] :
    SpellsName kind limits name (if c then step else step') := by
  split <;> assumption

instance (name : Token) (step : Parse α) (f : α → Parse β) [hs : SpellsName kind limits name step]
    [∀ a, Spells (.spelled kind limits) [] (f a)] : SpellsName kind limits name (step >>= f) where
  spells hmem hword :=
    have := hs.spells hmem hword
    inferInstance

instance (name : Token) (scan : Scan α) (f : α → Parse β) [scan.IsLocal]
    [hf : ∀ a, SpellsName kind limits name (f a)] : SpellsName kind limits name (liftM scan >>= f) where
  spells hmem hword := .behindScan (fun a _ _ _ _ _ _ => ((hf a).spells hmem hword).moves)
    fun a _ _ _ _ _ => (hf a).spells (List.mem_append_left _ hmem) hword

/-- A scan before a declaration, where the cases of what follows are still to be told apart. -/
theorem SpellsName.andThen {name : Token} {scan : Scan α} {f : α → Parse β} [scan.IsLocal]
    (hf : ∀ a, SpellsName kind limits name (f a)) :
    SpellsName kind limits name (liftM scan >>= f) := inferInstance

theorem Spells.of_word {wanted : String} {f : Token → Parse α}
    (hf : ∀ name, SpellsName kind limits name (f name)) :
    Spells (.spelled kind limits) opened (liftM (Scan.word wanted) >>= f) := by
  refine .behindScan (fun name c d e _ _ _ => ?_) fun name c d used e htakes => ?_
  · have hname : name ∈ [name] := List.mem_singleton_self _
    exact ((hf name).spells hname (Scan.rest_of_word e).2).moves
  · exact (hf name).spells (by simp [takes_word e htakes]) (Scan.rest_of_word e).2

end Parse

end ShaderAssembly
