import Mathlib.Data.List.Sort
import ShaderAssembly.Proofs.Lexing.Kind
import ShaderAssembly.Proofs.Locality.Step
import ShaderAssembly.Proofs.Parsing.Binding
import ShaderAssembly.Proofs.Printing.Text
/-!
# Selectors

Behind a point stand the letters of components: for a destination some of them in their order, for a
source one or four. A program for fragments may take color letters for them, but in no selector both.

* `Component.families`: the letters that may stand together;
* `Selector.NamesMask`, `Selector.NamesSwizzle`: what letters stand for;
* `Selector.components?_eq_some`, `Selector.mask?_eq_some`: the components of a text, and their mask;
* `Token.identifier_of_letters`: letters are always words;
* `Scan.selector?_bind_eq_ok`, `Scan.selector?_bind_eq_error`: what a scan makes of the token behind a
  point;
* **`Scan.accepts_selectors`**: a mask and a swizzle are read from the texts that name one, and any other
  token is refused.
-/

namespace ShaderAssembly

/-! ## Letters of components -/

namespace Component

/-- The color letter of a component. -/
def colorLetter : Component → Char
  | x => 'r'
  | y => 'g'
  | z => 'b'
  | w => 'a'

/-- The letters for components of which one selector takes only one kind. -/
def families : ProgramKind → List (Component → Char)
  | .vertex => [letter]
  | .fragment => [letter, colorLetter]

variable {kind : ProgramKind} {f : Component → Char} {l : Char} {d : Component}

theorem letter_injective : Function.Injective letter := by
  intro c d h
  cases c <;> cases d <;> first | rfl | exact absurd h (by decide)

theorem colorLetter_injective : Function.Injective colorLetter := by
  intro c d h
  cases c <;> cases d <;> first | rfl | exact absurd h (by decide)

theorem letter_mem_families (kind : ProgramKind) : letter ∈ families kind := by
  cases kind <;> exact List.mem_cons_self

theorem letter_or_colorLetter (h : f ∈ families kind) : f = letter ∨ f = colorLetter := by
  cases kind with
  | vertex => exact .inl (List.mem_singleton.1 h)
  | fragment => simpa [families] using h

theorem injective_of_mem_families (h : f ∈ families kind) : Function.Injective f := by
  obtain rfl | rfl := letter_or_colorLetter h
  · exact letter_injective
  · exact colorLetter_injective

theorem ofLetter?_eq_some {colors : Bool} {c : Component} : ofLetter? colors l = some c ↔
    l = c.letter ∨ colors = true ∧ l = c.colorLetter := by
  constructor
  · have hcolors (h : ¬ (!colors) = true) : colors = true := by simpa using h
    fun_cases ofLetter? colors l <;> rintro ⟨⟩
    · exact .inl ‹l = 'x'›
    · exact .inl ‹l = 'y'›
    · exact .inl ‹l = 'z'›
    · exact .inl ‹l = 'w'›
    · exact .inr ⟨hcolors ‹_›, ‹l = 'r'›⟩
    · exact .inr ⟨hcolors ‹_›, ‹l = 'g'›⟩
    · exact .inr ⟨hcolors ‹_›, ‹l = 'b'›⟩
    · exact .inr ⟨hcolors ‹_›, ‹l = 'a'›⟩
  · rintro (rfl | ⟨rfl, rfl⟩) <;> cases c <;> rfl

theorem ofLetter?_of_mem_families (h : f ∈ families kind) (c : Component) :
    ofLetter? (kind == .fragment) (f c) = some c := by
  rw [ofLetter?_eq_some]
  cases kind with
  | vertex => exact .inl (by rw [List.mem_singleton.1 h])
  | fragment =>
    obtain rfl | h := List.mem_cons.1 h
    · exact .inl rfl
    · exact .inr ⟨rfl, by rw [List.mem_singleton.1 h]⟩

theorem isWordStart_of_mem_families (h : f ∈ families kind) (c : Component) :
    isWordStart (f c) = true := by
  obtain rfl | rfl := letter_or_colorLetter h <;> cases c <;> decide

theorem eq_map_of_mapM {colors : Bool} {letters : List Char} {cs : List Component}
    (hf : ∀ l ∈ letters, ∀ c, ofLetter? colors l = some c → l = f c)
    (h : letters.mapM (ofLetter? colors) = some cs) : letters = cs.map f := by
  induction letters generalizing cs with
  | nil =>
    cases h
    rfl
  | cons l ls ih =>
    rw [List.mapM_cons] at h
    obtain ⟨c, hc, h⟩ := Option.bind_eq_some_iff.1 h
    obtain ⟨cs, hcs, ⟨⟩⟩ := Option.bind_eq_some_iff.1 h
    rw [List.map_cons, ← hf l List.mem_cons_self c hc,
      ← ih (fun l hl => hf l (List.mem_cons_of_mem _ hl)) hcs]

theorem mapM_map {colors : Bool} (hf : ∀ c, ofLetter? colors (f c) = some c) (cs : List Component) :
    (cs.map f).mapM (ofLetter? colors) = some cs := by
  induction cs with
  | nil => rfl
  | cons c cs ih =>
    rw [List.map_cons, List.mapM_cons, hf, ih]
    rfl

theorem mem_all (c : Component) : c ∈ all := by cases c <;> decide

end Component

/-! ## What letters stand for -/

namespace Selector

/-- Letters of one family in their order, those of the components of the mask. -/
structure NamesMask (kind : ProgramKind) (letters : List Char) (m : WriteMask) : Prop where
  nonempty : letters ≠ []
  family : ∃ f ∈ Component.families kind, letters.Sublist (Component.all.map f) ∧
    ∀ d, m.contains d = true ↔ f d ∈ letters

/-- One letter for all places of the swizzle, or a letter for each of them, of one family. -/
def NamesSwizzle (kind : ProgramKind) (letters : List Char) (s : Swizzle) : Prop :=
  ∃ f ∈ Component.families kind,
    (∃ d, letters = [f d] ∧ s = .replicate d) ∨ letters = s.toList.map f

variable {kind : ProgramKind} {text : String} {cs : List Component} {m : WriteMask} {s : Swizzle}

/-- **The components of a text are those of its letters, all of one family.** -/
theorem components?_eq_some : components? kind text = some cs ↔
    cs ≠ [] ∧ ∃ f ∈ Component.families kind, text.toList = cs.map f := by
  constructor
  · intro h
    refine ⟨Scan.components?_ne_nil kind h, ?_⟩
    simp only [components?] at h
    split at h
    · cases h
    rename_i hfamily
    simp only [Bool.or_eq_true, Bool.not_eq_true', not_or, Bool.not_eq_false] at hfamily
    cases kind with
    | vertex =>
      refine ⟨_, List.mem_singleton_self _, Component.eq_map_of_mapM (fun l _ c hc => ?_) h⟩
      exact (Component.ofLetter?_eq_some.1 hc).resolve_right (by simp)
    | fragment =>
      -- the letters of one family do not stand for components in the other one
      obtain ⟨-, hletters | hcolors⟩ := hfamily
      · refine ⟨_, List.mem_cons_self, Component.eq_map_of_mapM (fun l hl c hc => ?_) h⟩
        have hl := List.all_eq_true.1 hletters l hl
        obtain hc | ⟨-, rfl⟩ := Component.ofLetter?_eq_some.1 hc
        · exact hc
        · cases c <;> exact absurd hl (by decide)
      · refine ⟨_, List.mem_cons_of_mem _ List.mem_cons_self,
          Component.eq_map_of_mapM (fun l hl c hc => ?_) h⟩
        have hl := List.all_eq_true.1 hcolors l hl
        obtain rfl | ⟨-, hc⟩ := Component.ofLetter?_eq_some.1 hc
        · cases c <;> exact absurd hl (by decide)
        · exact hc
  · rintro ⟨hne, f, hf, htext⟩
    have hempty : text.toList.isEmpty = false := by simpa [htext] using hne
    have hfamily : (text.toList.all "xyzw".toList.contains ||
        text.toList.all "rgba".toList.contains) = true := by
      rw [htext, List.all_map, List.all_map, Bool.or_eq_true]
      obtain rfl | rfl := Component.letter_or_colorLetter hf
      · exact .inl (List.all_eq_true.2 fun c _ => by cases c <;> decide)
      · exact .inr (List.all_eq_true.2 fun c _ => by cases c <;> decide)
    rw [components?, hempty, hfamily, if_neg (by decide), htext]
    exact Component.mapM_map (Component.ofLetter?_of_mem_families hf) cs

theorem isOrdered_iff_pairwise :
    isOrdered cs = true ↔ cs.Pairwise (fun c d => c.index < d.index) := by
  have : IsTrans Component (fun c d => c.index < d.index) := ⟨fun _ _ _ => Nat.lt_trans⟩
  rw [← List.isChain_iff_pairwise]
  fun_induction isOrdered cs with
  | case1 => exact iff_of_true rfl .nil
  | case2 c => exact iff_of_true rfl (.singleton c)
  | case3 c d cs ih =>
    rw [Bool.and_eq_true, decide_eq_true_eq, List.isChain_cons_cons]
    exact and_congr_right fun _ => ih

theorem isOrdered_iff_sublist : isOrdered cs = true ↔ cs.Sublist Component.all := by
  have hall : Component.all.Pairwise (fun c d => c.index < d.index) := by decide
  have : Std.Antisymm (fun c d : Component => c.index < d.index) :=
    ⟨fun _ _ h h' => absurd h (Nat.lt_asymm h')⟩
  rw [isOrdered_iff_pairwise]
  refine ⟨fun h => List.sublist_of_subperm_of_pairwise ?_ h hall, fun h => hall.sublist h⟩
  have hnodup : cs.Nodup := h.imp fun hlt he => absurd (congrArg Component.index he) (Nat.ne_of_lt hlt)
  exact List.subperm_of_subset hnodup fun c _ => c.mem_all

theorem contains_insert {m : WriteMask} {c d : Component} :
    (m.insert c).contains d = true ↔ m.contains d = true ∨ d = c := by
  cases c <;> cases d <;> simp [WriteMask.insert, WriteMask.contains]

theorem contains_ofList {d : Component} : (WriteMask.ofList cs).contains d = true ↔ d ∈ cs := by
  have fold (m : WriteMask) : (cs.foldl .insert m).contains d = true ↔ m.contains d = true ∨ d ∈ cs := by
    induction cs generalizing m with
    | nil => simp
    | cons c cs ih => rw [List.foldl_cons, ih, contains_insert, List.mem_cons, or_assoc]
  have hnone : WriteMask.none.contains d = false := by cases d <;> rfl
  rw [WriteMask.ofList, fold, hnone]
  simp

theorem eq_of_contains {m m' : WriteMask}
    (h : ∀ d, m.contains d = true ↔ m'.contains d = true) : m = m' := by
  obtain ⟨x, y, z, w⟩ := m
  obtain ⟨x', y', z', w'⟩ := m'
  have h (d : Component) := Bool.eq_iff_iff.2 (h d)
  rw [WriteMask.mk.injEq]
  exact ⟨h .x, h .y, h .z, h .w⟩

theorem mask?_eq_some : mask? cs = some m ↔
    cs.Sublist Component.all ∧ ∀ d, m.contains d = true ↔ d ∈ cs := by
  rw [mask?, ← isOrdered_iff_sublist]
  split
  · rename_i h
    rw [and_iff_right h, Option.some.injEq]
    constructor
    · rintro rfl d
      exact contains_ofList
    · intro hm
      exact eq_of_contains fun d => contains_ofList.trans (hm d).symm
  · rename_i h
    exact ⟨nofun, fun hm => absurd hm.1 h⟩

theorem swizzle?_eq_some :
    swizzle? cs = some s ↔ (∃ d, cs = [d] ∧ s = .replicate d) ∨ cs = s.toList := by
  constructor
  · intro h
    unfold swizzle? at h
    split at h
    · cases h
      exact .inl ⟨_, rfl, rfl⟩
    · cases h
      exact .inr rfl
    · cases h
  · rintro (⟨d, rfl, rfl⟩ | rfl) <;> rfl

/-- **The mask of a text is the one that its letters name.** -/
theorem mask_of_text :
    (components? kind text).bind mask? = some m ↔ NamesMask kind text.toList m := by
  rw [Option.bind_eq_some_iff]
  constructor
  · rintro ⟨cs, hcs, hm⟩
    obtain ⟨hne, f, hf, htext⟩ := components?_eq_some.1 hcs
    obtain ⟨hsublist, hcontains⟩ := mask?_eq_some.1 hm
    refine ⟨by simpa [htext] using hne, f, hf, htext ▸ hsublist.map f, fun d => ?_⟩
    rw [hcontains, htext, List.mem_map_of_injective (Component.injective_of_mem_families hf)]
  · rintro ⟨hne, f, hf, hsublist, hcontains⟩
    obtain ⟨cs, hcs, htext⟩ := List.sublist_map_iff.1 hsublist
    have hcs' : cs ≠ [] := by simpa [htext] using hne
    refine ⟨cs, components?_eq_some.2 ⟨hcs', f, hf, htext⟩, mask?_eq_some.2 ⟨hcs, fun d => ?_⟩⟩
    rw [hcontains, htext, List.mem_map_of_injective (Component.injective_of_mem_families hf)]

/-- **The swizzle of a text is the one that its letters name.** -/
theorem swizzle_of_text :
    (components? kind text).bind swizzle? = some s ↔ NamesSwizzle kind text.toList s := by
  rw [Option.bind_eq_some_iff]
  constructor
  · rintro ⟨cs, hcs, hs⟩
    obtain ⟨-, f, hf, htext⟩ := components?_eq_some.1 hcs
    refine ⟨f, hf, (swizzle?_eq_some.1 hs).imp ?_ ?_⟩
    · rintro ⟨d, rfl, rfl⟩
      exact ⟨d, htext, rfl⟩
    · rintro rfl
      exact htext
  · rintro ⟨f, hf, ⟨d, htext, rfl⟩ | htext⟩
    · exact ⟨[d], components?_eq_some.2 ⟨List.cons_ne_nil _ _, f, hf, htext⟩, rfl⟩
    · exact ⟨s.toList, components?_eq_some.2 ⟨List.cons_ne_nil _ _, f, hf, htext⟩, rfl⟩

theorem namesMask_text (kind : ProgramKind) (hm : m ≠ .none) : NamesMask kind m.text.toList m := by
  rw [WriteMask.text, Component.text, String.toList_ofList]
  refine ⟨by simpa using WriteMask.components_ne_nil hm, _, Component.letter_mem_families kind,
    List.filter_sublist.map _, fun d => ?_⟩
  rw [List.mem_map_of_injective Component.letter_injective, WriteMask.components, List.mem_filter,
    and_iff_right d.mem_all]

theorem NamesMask.all_isWordStart {letters : List Char} (h : NamesMask kind letters m) :
    letters ≠ [] ∧ ∀ l ∈ letters, isWordStart l = true := by
  obtain ⟨f, hf, hsublist, -⟩ := h.family
  refine ⟨h.nonempty, fun l hl => ?_⟩
  obtain ⟨d, -, rfl⟩ := List.mem_map.1 (hsublist.subset hl)
  exact Component.isWordStart_of_mem_families hf d

theorem NamesSwizzle.all_isWordStart {letters : List Char} (h : NamesSwizzle kind letters s) :
    letters ≠ [] ∧ ∀ l ∈ letters, isWordStart l = true := by
  obtain ⟨f, hf, h⟩ := h
  have hletters : ∃ cs : List Component, cs ≠ [] ∧ letters = cs.map f := by
    obtain ⟨d, rfl, -⟩ | rfl := h
    · exact ⟨[d], List.cons_ne_nil _ _, rfl⟩
    · exact ⟨s.toList, List.cons_ne_nil _ _, rfl⟩
  obtain ⟨cs, hne, rfl⟩ := hletters
  refine ⟨by simpa using hne, fun l hl => ?_⟩
  obtain ⟨d, -, rfl⟩ := List.mem_map.1 hl
  exact Component.isWordStart_of_mem_families hf d

end Selector

/-! ## Letters are words -/

theorem Token.identifier_of_letters {source : String} {start : Nat} {t : Token}
    (ht : t ∈ ofSource source start)
    (h : t.text.toList ≠ [] ∧ ∀ l ∈ t.text.toList, isWordStart l = true) : t.kind = .identifier := by
  obtain ⟨_, c, cs, -, -, hkind, htext⟩ := exists_scan_of_mem_ofSource ht
  have hshape := Lexeme.shape_scan c cs
  rw [hkind, htext] at hshape
  obtain ⟨hne, hletters⟩ := h
  have hdigit {d : Char} {ds : List Char} (hds : t.text.toList = d :: ds) : d.isDigit = false :=
    Lexeme.isDigit_of_isWordStart (hletters d (by simp [hds]))
  refine hshape.identifier_iff.2 ⟨⟨hne, List.all_eq_true.2 fun l hl => ?_⟩, fun hdigits => ?_, ?_⟩
  · rw [isWordChar, hletters l hl, Bool.true_or]
  · obtain ⟨d, ds, hds, hd⟩ := hdigits.exists_cons
    rw [hdigit hds] at hd
    cases hd
  · rintro ⟨whole, e, hwhole, hds⟩
    obtain ⟨d, ds, rfl, hd⟩ := hwhole.exists_cons
    rw [hdigit hds] at hd
    cases hd

theorem Cursor.LeadsTo.rest_suffix {c d : Cursor} (h : c.LeadsTo d) : d.rest <:+ c.rest := by
  obtain ⟨n, rfl⟩ := h
  induction n with
  | zero => exact List.suffix_refl _
  | succ n ih =>
    rw [Function.iterate_succ_apply']
    exact (List.tail_suffix _).trans ih

/-- What comes next is a token of the text, or its end. -/
theorem Cursor.upcoming_of_leadsTo {source : String} {start : Nat} {c : Cursor}
    (h : (ofSource source start).LeadsTo c) :
    c.upcoming ∈ Token.ofSource source start ∨ c.upcoming.text = "" := by
  unfold upcoming
  cases hrest : c.rest with
  | nil => exact .inr rfl
  | cons t ts =>
    have ht : t ∈ (ofSource source start).rest := h.rest_suffix.subset (by simp [hrest])
    exact .inl (List.mem_filter.1 (List.mem_of_mem_tail ht)).1

/-- Behind a place in a text, letters are a word. -/
theorem Cursor.identifier_of_leadsTo {source : String} {start : Nat} {c : Cursor}
    (h : (ofSource source start).LeadsTo c) (hletters : c.upcoming.text.toList ≠ [] ∧
      ∀ l ∈ c.upcoming.text.toList, isWordStart l = true) : c.upcoming.kind = .identifier := by
  obtain hmem | hend := c.upcoming_of_leadsTo h
  · exact Token.identifier_of_letters hmem hletters
  · rw [hend] at hletters
    exact absurd rfl hletters.1

/-! ## Scans -/

namespace Scan

variable {kind : ProgramKind} {c d : Cursor}

theorem selector?_of_ne (h : c.upcoming.kind ≠ .dot) : selector? kind c = .ok none c := by
  rw [selector?, Reading.bind_of_ok (peek_eq c), if_pos (by simpa using h)]
  rfl

theorem mask_of_ne (h : c.upcoming.kind ≠ .dot) : mask kind c = .ok .all c := by
  rw [mask, Reading.bind_of_ok (selector?_of_ne h)]
  rfl

theorem swizzle_of_ne (h : c.upcoming.kind ≠ .dot) : swizzle kind c = .ok .identity c := by
  rw [swizzle, Reading.bind_of_ok (selector?_of_ne h)]
  rfl

theorem selector?_of_dot (h : c.upcoming.kind = .dot) : selector? kind c =
    match Selector.components? kind c.advance.upcoming.text with
    | some cs => .ok (some (c.advance.upcoming, cs)) c.advance.advance
    | none => .error ⟨.selector c.advance.upcoming.text, c.advance.upcoming.offset⟩ c.advance.advance := by
  rw [selector?, Reading.bind_of_ok (peek_eq c), if_neg (by simp [h])]
  rw [Reading.bind_of_ok (next_eq c), Reading.bind_of_ok (next_eq _)]
  cases Selector.components? kind c.advance.upcoming.text <;> rfl

section Reads

-- Masks and swizzles differ in what they make of the components, and in how they refuse them.
variable {α : Type} {f : Option (Token × List Component) → Scan α}
  {read? : List Component → Option α} (unread : String → Cause)
  (hf : ∀ t cs, f (some (t, cs)) =
    match read? cs with
    | some a => pure a
    | none => refuse (unread t.text) t.offset)
  (h : c.upcoming.kind = .dot)

include hf h

theorem selector?_bind_eq_ok {a : α} : (selector? kind >>= f) c = .ok a d ↔
    (Selector.components? kind c.advance.upcoming.text).bind read? = some a ∧
      d = c.advance.advance := by
  have hselector := @selector?_of_dot kind c h
  cases hcs : Selector.components? kind c.advance.upcoming.text with
  | none =>
    rw [hcs] at hselector
    rw [Reading.bind_of_error hselector]
    simp
  | some cs =>
    rw [hcs] at hselector
    rw [Reading.bind_of_ok hselector, hf, Option.bind_some]
    cases read? cs with
    | none =>
      refine iff_of_false ?_ (by simp)
      rintro ⟨⟩
    | some a' =>
      constructor
      · rintro ⟨⟩
        exact ⟨rfl, rfl⟩
      · rintro ⟨⟨⟩, rfl⟩
        rfl

theorem selector?_bind_eq_error
    (hnone : ∀ a, (Selector.components? kind c.advance.upcoming.text).bind read? ≠ some a) :
    ∃ cause ∈ [Cause.selector c.advance.upcoming.text, unread c.advance.upcoming.text],
      (selector? kind >>= f) c = .error ⟨cause, c.advance.upcoming.offset⟩ c.advance.advance := by
  have hselector := @selector?_of_dot kind c h
  cases hcs : Selector.components? kind c.advance.upcoming.text with
  | none =>
    rw [hcs] at hselector
    exact ⟨_, List.mem_cons_self, Reading.bind_of_error hselector⟩
  | some cs =>
    rw [hcs] at hselector hnone
    refine ⟨_, List.mem_cons_of_mem _ List.mem_cons_self, ?_⟩
    rw [Reading.bind_of_ok hselector, hf]
    cases hread : read? cs with
    | none => rfl
    | some a => exact absurd hread (hnone a)

end Reads

theorem mask_eq_ok (h : c.upcoming.kind = .dot) {m : WriteMask} : mask kind c = .ok m d ↔
    Selector.NamesMask kind c.advance.upcoming.text.toList m ∧ d = c.advance.advance := by
  rw [← Selector.mask_of_text]
  exact selector?_bind_eq_ok .maskOrder (fun _ cs => by dsimp only; cases Selector.mask? cs <;> rfl) h

theorem mask_eq_error (h : c.upcoming.kind = .dot)
    (hnone : ∀ m, ¬ Selector.NamesMask kind c.advance.upcoming.text.toList m) :
    ∃ cause ∈ [Cause.selector c.advance.upcoming.text, .maskOrder c.advance.upcoming.text],
      mask kind c = .error ⟨cause, c.advance.upcoming.offset⟩ c.advance.advance :=
  selector?_bind_eq_error .maskOrder (fun _ cs => by dsimp only; cases Selector.mask? cs <;> rfl) h
    fun m hm => hnone m (Selector.mask_of_text.1 hm)

theorem swizzle_eq_ok (h : c.upcoming.kind = .dot) {s : Swizzle} : swizzle kind c = .ok s d ↔
    Selector.NamesSwizzle kind c.advance.upcoming.text.toList s ∧ d = c.advance.advance := by
  rw [← Selector.swizzle_of_text]
  exact selector?_bind_eq_ok .swizzleLength
    (fun _ cs => by dsimp only; cases Selector.swizzle? cs <;> rfl) h

theorem swizzle_eq_error (h : c.upcoming.kind = .dot)
    (hnone : ∀ s, ¬ Selector.NamesSwizzle kind c.advance.upcoming.text.toList s) :
    ∃ cause ∈ [Cause.selector c.advance.upcoming.text, .swizzleLength c.advance.upcoming.text],
      swizzle kind c = .error ⟨cause, c.advance.upcoming.offset⟩ c.advance.advance :=
  selector?_bind_eq_error .swizzleLength
    (fun _ cs => by dsimp only; cases Selector.swizzle? cs <;> rfl) h
    fun s hs => hnone s (Selector.swizzle_of_text.1 hs)

/-- **A selector is read from the texts that name one, and from no others.** Behind a point a mask is
read from a word of some letters of components in their order, and a swizzle from a word of one letter
or four, all of one family; both are what the letters name. Any other token is refused, whatever its
class, also where the text is over. Without a point everything is meant. So the letters that a shader
shows for a mask are read as that mask. -/
theorem accepts_selectors {source : String} {start : Nat} (kind : ProgramKind)
    (hc : (Cursor.ofSource source start).LeadsTo c) :
    (c.upcoming.kind ≠ .dot → mask kind c = .ok .all c ∧ swizzle kind c = .ok .identity c) ∧
    (c.upcoming.kind = .dot →
      let t := c.advance.upcoming
      let behind := c.advance.advance
      (∀ m d, mask kind c = .ok m d ↔
        t.kind = .identifier ∧ Selector.NamesMask kind t.text.toList m ∧ d = behind) ∧
      (∀ s d, swizzle kind c = .ok s d ↔
        t.kind = .identifier ∧ Selector.NamesSwizzle kind t.text.toList s ∧ d = behind) ∧
      ((∀ m, t.kind = .identifier → ¬ Selector.NamesMask kind t.text.toList m) →
        ∃ cause ∈ [Cause.selector t.text, .maskOrder t.text],
          mask kind c = .error ⟨cause, t.offset⟩ behind) ∧
      ((∀ s, t.kind = .identifier → ¬ Selector.NamesSwizzle kind t.text.toList s) →
        ∃ cause ∈ [Cause.selector t.text, .swizzleLength t.text],
          swizzle kind c = .error ⟨cause, t.offset⟩ behind) ∧
      ∀ m, m ≠ .none → t.text = m.text → mask kind c = .ok m behind) := by
  refine ⟨fun h => ⟨mask_of_ne h, swizzle_of_ne h⟩, fun h => ?_⟩
  intro t behind
  have hword : t.text.toList ≠ [] ∧ (∀ l ∈ t.text.toList, isWordStart l = true) → t.kind = .identifier :=
    Cursor.identifier_of_leadsTo (hc.trans c.leadsTo_advance)
  have hmask {m : WriteMask} (hm : Selector.NamesMask kind t.text.toList m) : t.kind = .identifier :=
    hword hm.all_isWordStart
  have hswizzle {s : Swizzle} (hs : Selector.NamesSwizzle kind t.text.toList s) : t.kind = .identifier :=
    hword hs.all_isWordStart
  refine ⟨fun m d => ?_, fun s d => ?_, fun hnone => mask_eq_error h fun m hm => hnone m (hmask hm) hm,
    fun hnone => swizzle_eq_error h fun s hs => hnone s (hswizzle hs) hs, fun m hm htext => ?_⟩
  · rw [mask_eq_ok h]
    exact ⟨fun hm => ⟨hmask hm.1, hm⟩, And.right⟩
  · rw [swizzle_eq_ok h]
    exact ⟨fun hs => ⟨hswizzle hs.1, hs⟩, And.right⟩
  · have hshown : Selector.NamesMask kind t.text.toList m := htext ▸ Selector.namesMask_text kind hm
    exact (mask_eq_ok h).2 ⟨hshown, rfl⟩

/-- The cursor behind some tokens of an instruction: a mask of color letters, and a swizzle of two
letters behind a blank. -/
def inColors (n : Nat) : Cursor := Cursor.advance^[n + 1] (.ofSource "MOV c.rga, -d. xz;" 0)

theorem accepts_selectors_inColors :
    (∀ n, (Cursor.ofSource "MOV c.rga, -d. xz;" 0).LeadsTo (inColors n)) ∧
    ((inColors 0).upcoming.kind = .dot ∧
      mask .fragment (inColors 0) = .ok ⟨true, true, false, true⟩ (inColors 2) ∧
      (∀ m, ¬ Selector.NamesMask .vertex "rga".toList m) ∧
      ∃ cause ∈ [Cause.selector "rga", .maskOrder "rga"],
        mask .vertex (inColors 0) = .error ⟨cause, 6⟩ (inColors 2)) ∧
    ((inColors 2).upcoming.kind ≠ .dot ∧ mask .vertex (inColors 2) = .ok .all (inColors 2)) ∧
    ((inColors 5).upcoming.kind = .dot ∧ (⟨true, false, true, false⟩ : WriteMask).text = "xz" ∧
      mask .vertex (inColors 5) = .ok ⟨true, false, true, false⟩ (inColors 7) ∧
      (∀ s, ¬ Selector.NamesSwizzle .vertex "xz".toList s) ∧
      ∃ cause ∈ [Cause.selector "xz", .swizzleLength "xz"],
        swizzle .vertex (inColors 5) = .error ⟨cause, 15⟩ (inColors 7)) := by
  have hleads (n : Nat) : (Cursor.ofSource "MOV c.rga, -d. xz;" 0).LeadsTo (inColors n) := ⟨n + 1, rfl⟩
  have hpoint : (inColors 0).upcoming.kind = .dot := by decide +kernel
  have hcolors : (inColors 0).advance.upcoming = ⟨.identifier, 6, "rga", by decide⟩ := by decide +kernel
  have hcomma : (inColors 2).upcoming.kind ≠ .dot := by decide +kernel
  have hpoint' : (inColors 5).upcoming.kind = .dot := by decide +kernel
  have hletters : (inColors 5).advance.upcoming = ⟨.identifier, 15, "xz", by decide⟩ := by decide +kernel
  obtain ⟨hmask, -⟩ := (accepts_selectors .fragment (hleads 0)).2 hpoint
  obtain ⟨-, -, hrefused, -⟩ := (accepts_selectors .vertex (hleads 0)).2 hpoint
  obtain ⟨-, -, -, hrefused', hshown⟩ := (accepts_selectors .vertex (hleads 5)).2 hpoint'
  rw [hcolors] at hmask hrefused
  rw [hletters] at hrefused' hshown
  have hnamed : Selector.NamesMask .fragment "rga".toList ⟨true, true, false, true⟩ :=
    Selector.mask_of_text.1 (by decide)
  have hunnamed (m : WriteMask) : ¬ Selector.NamesMask .vertex "rga".toList m := fun hm =>
    absurd (Selector.mask_of_text.2 hm) (by simp [show Selector.components? .vertex "rga" = none by decide])
  have hunnamed' (s : Swizzle) : ¬ Selector.NamesSwizzle .vertex "xz".toList s := fun hs =>
    absurd (Selector.swizzle_of_text.2 hs)
      (by simp [show Selector.components? .vertex "xz" = some [.x, .z] by decide, Selector.swizzle?])
  exact ⟨hleads, ⟨hpoint, (hmask _ _).2 ⟨rfl, hnamed, rfl⟩, hunnamed, hrefused fun m _ => hunnamed m⟩,
    ⟨hcomma, ((accepts_selectors .vertex (hleads 2)).1 hcomma).1⟩,
    hpoint', by decide, hshown _ (by decide) (by decide), hunnamed', hrefused' fun s _ => hunnamed' s⟩

end Scan

end ShaderAssembly
