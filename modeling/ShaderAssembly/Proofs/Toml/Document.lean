import Mathlib.Data.List.Basic
import ShaderAssembly.Proofs.Toml.Tree
import ShaderAssembly.Proofs.Toml.Value
/-!
# Documents that are read back

* `readNames?_intercalate`: a path, from its bare names;
* `DocumentReader.readLine?_header`, `DocumentReader.readLine?_entry`: what the lines of a table say;
* `DocumentReader.readAll?_section`: what a whole table says;
* **`parse?_print`**: a text is read as the tables that were written, one after the other.
-/

namespace ShaderAssembly.Toml

/-! ## Names -/

/-- A name that needs no quotes. -/
def IsBare (name : String) : Prop := name ≠ "" ∧ name.toList.all isNameChar = true

instance (name : String) : Decidable (IsBare name) := inferInstanceAs (Decidable (_ ∧ _))

section Names

variable {name : String} {names : List String} {rest : List Char}

theorem IsBare.exists_cons (h : IsBare name) :
    ∃ c cs, name.toList = c :: cs ∧ isNameChar c = true := by
  cases e : name.toList with
  | nil => exact absurd (String.toList_eq_nil_iff.1 e) h.1
  | cons c cs =>
    have hall := h.2
    rw [e, List.all_cons, Bool.and_eq_true] at hall
    exact ⟨c, cs, rfl, hall.1⟩

/-- No bare name starts with a character of another class. -/
theorem IsBare.ne_cons (h : IsBare name) {c : Char} (hc : isNameChar c = false) (cs ds : List Char) :
    name.toList ++ cs ≠ c :: ds := by
  obtain ⟨d, tail, e, hd⟩ := h.exists_cons
  rw [e, List.cons_append]
  rintro ⟨⟩
  rw [hc] at hd
  cases hd

theorem skipSpace_of_head? {cs : List Char} (h : ∀ c ∈ cs.head?, isSpace c = false) :
    skipSpace cs = cs := by
  cases cs with
  | nil => rfl
  | cons c cs => simp [skipSpace, h c rfl]

theorem isSpace_of_isNameChar {c : Char} (h : isNameChar c = true) : isSpace c = false := by
  rw [isSpace, Bool.or_eq_false_iff]
  constructor
  · exact beq_eq_false_of_class (p := isNameChar) (by rw [h]; decide)
  · exact beq_eq_false_of_class (p := isNameChar) (by rw [h]; decide)

theorem readName?_bare (h : IsBare name) (hrest : ∀ c ∈ rest.head?, isNameChar c = false) :
    readName? (skipSpace (name.toList ++ rest)) = some (name, rest) := by
  obtain ⟨htake, hdrop⟩ := takeWhile_append_of_all h.2 hrest
  obtain ⟨c, cs, e, hc⟩ := h.exists_cons
  rw [skipSpace_of_head?, readName?, htake, hdrop, if_neg, String.ofList_toList]
  · simp [e]
  · rw [e]
    rintro _ ⟨⟩
    exact isSpace_of_isNameChar hc

/-- A path is read up to what follows the space behind it. -/
theorem readNames?_intercalate {limit : Nat} (hnames : ∀ name ∈ names, IsBare name)
    (hne : names ≠ []) (hlimit : names.length ≤ limit)
    (hrest : ∀ c ∈ rest.head?, isNameChar c = false)
    (hpoint : ∀ c ∈ (skipSpace rest).head?, c ≠ '.') :
    readNames? limit ((".".intercalate names).toList ++ rest) = some (names, skipSpace rest) := by
  induction names generalizing limit with
  | nil => exact absurd rfl hne
  | cons name names ih =>
    obtain ⟨hname, htail⟩ := List.forall_mem_cons.1 hnames
    obtain ⟨limit, rfl⟩ : ∃ n, limit = n + 1 := ⟨limit - 1, by simp at hlimit; omega⟩
    rw [readNames?]
    cases names with
    | nil =>
      rw [String.intercalate_singleton, readName?_bare hname hrest]
      simp only [Option.bind_eq_bind, Option.bind_some]
      split
      · rename_i h
        exact absurd rfl (hpoint '.' (by rw [h]; rfl))
      · rfl
    | cons next names =>
      have htext : (".".intercalate (name :: next :: names)).toList ++ rest =
          name.toList ++ '.' :: ((".".intercalate (next :: names)).toList ++ rest) := by
        rw [String.intercalate_cons_cons, String.toList_append, String.toList_append,
          List.append_assoc, List.append_assoc]
        rfl
      have hlimit : (next :: names).length ≤ limit := Nat.le_of_succ_le_succ hlimit
      rw [htext, readName?_bare hname (by simp; decide)]
      simp only [Option.bind_eq_bind, Option.bind_some]
      rw [skipSpace_of_head? (by simp; decide)]
      change (readNames? limit _).bind _ = _
      rw [ih htail (List.cons_ne_nil _ _) hlimit]
      rfl

theorem exists_intercalate (name : String) (names : List String) :
    ∃ cs, (".".intercalate (name :: names)).toList = name.toList ++ cs := by
  cases names with
  | nil => exact ⟨[], by rw [String.intercalate_singleton, List.append_nil]⟩
  | cons next names =>
    exact ⟨_, by rw [String.intercalate_cons_cons, String.toList_append, String.toList_append,
      List.append_assoc]⟩

end Names

/-! ## Lines -/

/-- A table whose text is read back: all names are bare, and all values are denoted by what is written
for them. -/
structure Section.IsStorable (s : Section) : Prop where
  ne_nil : s.path ≠ []
  length_path : s.path.length ≤ greatestDepth
  path : ∀ name ∈ s.path, IsBare name
  names : ∀ e ∈ s.entries, IsBare e.1
  values : ∀ e ∈ s.entries, e.2.IsStorable

namespace DocumentReader

variable {d : DocumentReader} {rest : List Char}

theorem readLine?_blank (d : DocumentReader) (rest : List Char) :
    d.readLine? ('\n' :: rest) = some (d, rest) := rfl

theorem readLine?_of_readEntry? {cs : List Char} {o : Option DocumentReader}
    (h : d.readEntry? (skipSpace cs) = o.map fun d => (d, '\n' :: rest)) :
    d.readLine? cs = o.map fun d => (d, rest) := by
  rw [readLine?, h]
  cases o <;> rfl

theorem readLine?_header {path : List String} (hpath : ∀ name ∈ path, IsBare name)
    (hne : path ≠ []) (hlength : path.length ≤ greatestDepth) (d : DocumentReader)
    (rest : List Char) :
    d.readLine? ('[' :: (".".intercalate path).toList ++ [']', '\n'] ++ rest) =
      (d.enter? Entries.openTable? path).map fun d => (d, rest) := by
  have hkey : readKey? ((".".intercalate path).toList ++ ']' :: '\n' :: rest) =
      some (path, ']' :: '\n' :: rest) := by
    have hbracket : skipSpace (']' :: '\n' :: rest) = ']' :: '\n' :: rest :=
      skipSpace_of_head? (by simp; decide)
    rw [readKey?, readNames?_intercalate hpath hne hlength (by simp; decide)
      (by rw [hbracket]; simp), hbracket]
  obtain ⟨name, names, rfl⟩ := List.exists_cons_of_ne_nil hne
  obtain ⟨cs, hcs⟩ := exists_intercalate name names
  have hsingle (ds : List Char) :
      (".".intercalate (name :: names)).toList ++ ']' :: '\n' :: rest ≠ '[' :: ds := by
    rw [hcs, List.append_assoc]
    exact (hpath name List.mem_cons_self).ne_cons (by decide) _ _
  apply readLine?_of_readEntry?
  rw [List.append_assoc, skipSpace_of_head? (by simp; decide), List.cons_append, readEntry?]
  · change (readKey? (_ ++ ']' :: '\n' :: rest)).bind _ = _
    simp only [hkey, Option.bind_some, Option.map_eq_bind]
    rfl
  · exact hsingle

theorem printEntry_append (name : String) (value : Scalar) (rest : List Char) :
    printEntry name value ++ rest =
      name.toList ++ ' ' :: '=' :: ' ' :: (value.print ++ '\n' :: rest) := by
  simp [printEntry]

theorem readPair?_entry {name : String} {value : Scalar} (hname : IsBare name)
    (hvalue : value.IsStorable) (depth : Nat) (rest : List Char) :
    readPair? (readValue? depth) (printEntry name value ++ rest) =
      some (([name], .scalar value), '\n' :: rest) := by
  have hkey (cs : List Char) :
      readKey? (name.toList ++ ' ' :: '=' :: cs) = some ([name], '=' :: cs) := by
    have hequals : skipSpace (' ' :: '=' :: cs) = '=' :: cs := rfl
    have hpath : readNames? greatestDepth ((".".intercalate [name]).toList ++ ' ' :: '=' :: cs) =
        some ([name], skipSpace (' ' :: '=' :: cs)) :=
      readNames?_intercalate (List.forall_mem_singleton.2 hname) (List.cons_ne_nil _ _)
        (by decide : 1 ≤ greatestDepth) (by simp; decide) (by rw [hequals]; simp)
    rwa [String.intercalate_singleton, hequals] at hpath
  have hspace : skipSpace (' ' :: (value.print ++ '\n' :: rest)) = value.print ++ '\n' :: rest := by
    obtain ⟨c, cs, e, hc⟩ := exists_print hvalue
    refine (List.dropWhile_cons_of_pos (by decide)).trans (skipSpace_of_head? ?_)
    rw [e]
    rintro _ ⟨⟩
    exact hc
  rw [printEntry_append, readPair?, hkey]
  simp only [Option.bind_eq_bind, Option.bind_some, hspace, readValue?_print hvalue]
  rfl

theorem readLine?_entry {name : String} {value : Scalar} (hname : IsBare name)
    (hvalue : value.IsStorable) (d : DocumentReader) (rest : List Char) :
    d.readLine? (printEntry name value ++ rest) =
      (d.insert? [name] (.scalar value)).map fun d => (d, rest) := by
  have hother {c : Char} (hc : isNameChar c = false) (ds : List Char) :
      printEntry name value ++ rest ≠ c :: ds := by
    rw [printEntry_append]
    exact hname.ne_cons hc _ _
  have hspace : skipSpace (printEntry name value ++ rest) = printEntry name value ++ rest := by
    obtain ⟨c, cs, e, hc⟩ := hname.exists_cons
    refine skipSpace_of_head? ?_
    rw [printEntry_append, e]
    rintro _ ⟨⟩
    exact isSpace_of_isNameChar hc
  apply readLine?_of_readEntry?
  rw [hspace, readEntry?, readPair?_entry hname hvalue]
  · simp only [Option.bind_eq_bind, Option.bind_some, Option.map_eq_bind]
    rfl
  · rw [printEntry_append]
    simp
  all_goals exact fun _ => hother (by decide) _

/-! ## Tables -/

theorem readAll?_append {line : List Char} {o : Option DocumentReader} (hne : line ≠ [])
    (h : d.readLine? (line ++ rest) = o.map fun d => (d, rest)) :
    d.readAll? (line ++ rest) = o.bind fun d => d.readAll? rest := by
  have hlength : rest.length < (line ++ rest).length := by
    rw [List.length_append]
    exact Nat.lt_add_of_pos_left (List.length_pos_iff.2 hne)
  rw [readAll?, if_neg (by simp [hne]), h]
  cases o with
  | none => rfl
  | some d => exact if_pos hlength

/-- The document with values under their names. -/
def insertAll? (d : DocumentReader) : List (String × Scalar) → Option DocumentReader
  | [] => some d
  | (name, value) :: values =>
    (d.insert? [name] (.scalar value)).bind fun d => d.insertAll? values

theorem readAll?_entries {values : List (String × Scalar)} (hnames : ∀ e ∈ values, IsBare e.1)
    (hvalues : ∀ e ∈ values, e.2.IsStorable) (d : DocumentReader) (rest : List Char) :
    d.readAll? ((values.flatMap fun (name, value) => printEntry name value) ++ rest) =
      (d.insertAll? values).bind fun d => d.readAll? rest := by
  induction values generalizing d with
  | nil => rfl
  | cons e values ih =>
    obtain ⟨name, value⟩ := e
    obtain ⟨hname, hnames⟩ := List.forall_mem_cons.1 hnames
    obtain ⟨hvalue, hvalues⟩ := List.forall_mem_cons.1 hvalues
    have hne : printEntry name value ≠ [] := by simp [printEntry]
    rw [List.flatMap_cons, List.append_assoc, readAll?_append hne (readLine?_entry hname hvalue d _),
      insertAll?, Option.bind_assoc, funext (ih hnames hvalues)]

/-- What is put into the table of the last header is put into it when it is opened. -/
theorem insertAll?_of_openWith? (name : String) (parent : List String)
    (before values : List (String × Scalar)) (t : Entries) :
    ((Entries.changeAt? (Entries.openWith? name before) parent t).bind fun root =>
        insertAll? ⟨root, parent ++ [name]⟩ values) =
      (Entries.changeAt? (Entries.openWith? name (before ++ values)) parent t).map fun root =>
        ⟨root, parent ++ [name]⟩ := by
  induction values generalizing before with
  | nil =>
    rw [List.append_nil, Option.map_eq_bind]
    rfl
  | cons e values ih =>
    obtain ⟨key, value⟩ := e
    have hstep : (Entries.changeAt? (Entries.openWith? name before) parent t).bind
        (Entries.changeAt? (Entries.insert? (.scalar value) [key]) (parent ++ [name])) =
        Entries.changeAt? (Entries.openWith? name (before ++ [(key, value)])) parent t := by
      rw [funext (Entries.changeAt?_append _ parent [name]), Entries.changeAt?_bind,
        funext (Entries.openWith?_bind name before key value)]
    have hinsert (root : Entries) :
        insertAll? ⟨root, parent ++ [name]⟩ ((key, value) :: values) =
          (Entries.changeAt? (Entries.insert? (.scalar value) [key]) (parent ++ [name]) root).bind
            fun root => insertAll? ⟨root, parent ++ [name]⟩ values := by
      rw [insertAll?, insert?]
      exact Option.bind_assoc ..
    rw [funext hinsert, ← Option.bind_assoc, hstep, ih, List.append_assoc]
    rfl

theorem enter?_concat (opened : String → Entries → Option Entries) (d : DocumentReader)
    (parent : List String) (name : String) :
    d.enter? opened (parent ++ [name]) =
      (Entries.changeAt? (opened name) parent d.root).map fun root => ⟨root, parent ++ [name]⟩ := by
  rw [enter?, List.getLast?_concat, List.dropLast_concat, Option.map_eq_bind]
  rfl

theorem readAll?_section {s : Section} (hs : s.IsStorable) (d : DocumentReader)
    (rest : List Char) :
    d.readAll? (s.print ++ rest) =
      (s.addTo? d.root).bind fun root => readAll? ⟨root, s.path⟩ rest := by
  obtain ⟨parent, name, hpath⟩ : ∃ parent name, s.path = parent ++ [name] :=
    ⟨_, _, (List.dropLast_append_getLast hs.ne_nil).symm⟩
  have hopen : s.addTo? d.root =
      Entries.changeAt? (Entries.openWith? name ([] ++ s.entries)) parent d.root := by
    rw [Section.addTo?, hpath, List.getLast?_concat, List.dropLast_concat]
    rfl
  rw [Section.print, List.append_assoc,
    readAll?_append (by simp) (readLine?_header hs.path hs.ne_nil hs.length_path d _), hpath,
    enter?_concat, funext (Entries.openTable?_eq name),
    funext fun d => readAll?_entries hs.names hs.values d rest, ← Option.bind_assoc,
    Option.bind_map]
  refine (congrArg (Option.bind · _) (insertAll?_of_openWith? name parent [] s.entries _)).trans ?_
  rw [← hopen, Option.bind_map]
  rfl

theorem readAll?_intercalate {sections : List Section} (h : ∀ s ∈ sections, s.IsStorable)
    (d : DocumentReader) :
    (d.readAll? (List.intercalate ['\n'] (sections.map Section.print))).map root =
      sections.foldlM (fun t s => s.addTo? t) d.root := by
  induction sections generalizing d with
  | nil =>
    rw [List.map_nil, List.intercalate_nil, readAll?]
    rfl
  | cons s sections ih =>
    obtain ⟨hs, h⟩ := List.forall_mem_cons.1 h
    rw [List.foldlM_cons]
    cases sections with
    | nil =>
      have hsection := readAll?_section hs d []
      rw [List.append_nil] at hsection
      rw [List.map_singleton, List.intercalate_singleton, hsection, Option.map_bind]
      refine congrArg _ (funext fun root => ?_)
      exact ih h ⟨root, s.path⟩
    | cons next sections =>
      have hblank (d : DocumentReader) (rest : List Char) :
          d.readAll? (['\n'] ++ rest) = d.readAll? rest :=
        readAll?_append (List.cons_ne_nil _ _) (readLine?_blank d rest : _ = (some d).map _)
      rw [List.map_cons, List.map_cons, List.intercalate_cons_cons, List.append_assoc,
        readAll?_section hs, Option.map_bind]
      refine congrArg _ (funext fun root => ?_)
      rw [Function.comp_apply, hblank]
      exact ih h ⟨root, s.path⟩

end DocumentReader

theorem parse?_print {sections : List Section} (h : ∀ s ∈ sections, s.IsStorable) :
    parse? (print sections) = sections.foldlM (fun t s => s.addTo? t) [] := by
  have htext : (print sections).toList = List.intercalate ['\n'] (sections.map Section.print) :=
    String.toList_ofList
  -- The first character is the bracket of a header, and no mark of the byte order.
  have hmark (cs : List Char) : (print sections).toList ≠ '\ufeff' :: cs := by
    rw [htext]
    intro hcs
    rcases sections with - | ⟨s, - | ⟨next, sections⟩⟩
    · cases hcs
    · rw [List.map_singleton, List.intercalate_singleton] at hcs
      exact absurd (List.cons.inj hcs).1 (by decide)
    · rw [List.map_cons, List.map_cons, List.intercalate_cons_cons] at hcs
      exact absurd (List.cons.inj hcs).1 (by decide)
  rw [parse?]
  split
  · exact absurd ‹_› (hmark _)
  · rw [htext]
    exact DocumentReader.readAll?_intercalate h {}

end ShaderAssembly.Toml
