import Mathlib.Data.List.Basic
import ShaderAssembly.Toml.Document
/-!
# Trees that grow

* `Entries.changeAt?_bind`, `Entries.changeAt?_append`: changes at one place, one after the other,
  and changes at a place within a place;
* `Entries.openWith?`: a table opened by its header, with values under their names;
* `Section.addTo?`: the document that a table with its path makes of one.
-/

namespace ShaderAssembly.Toml

namespace Entries

section Changes

variable {name : String} {f g : Option Node → Option Node} {t : Entries}

theorem alter?_bind (t : Entries) :
    (alter? name f t).bind (alter? name g) =
      alter? name (fun o => (f o).bind fun node => g (some node)) t := by
  induction t with
  | nil =>
    rw [alter?, alter?]
    cases f none <;> simp [alter?]
  | cons e rest ih =>
    obtain ⟨key, node⟩ := e
    rw [alter?, alter?]
    by_cases h : key = name
    · rw [if_pos h, if_pos h]
      cases f (some node) <;> simp [alter?, h]
    · rw [if_neg h, if_neg h, ← ih]
      cases alter? name f rest <;> simp [alter?, h]

theorem alter?_of_get?_eq_none (h : get? t name = none) :
    alter? name f t = (f none).map fun node => t ++ [(name, node)] := by
  induction t with
  | nil => rfl
  | cons e rest ih =>
    obtain ⟨key, node⟩ := e
    rw [get?] at h
    split at h
    · cases h
    · rw [alter?, if_neg ‹_›, ih h, Option.map_map]
      rfl

theorem ne_nil_of_changeLast? {α : Type} {f : α → Option α} {as bs : List α}
    (h : changeLast? f as = some bs) : bs ≠ [] := by
  rintro rfl
  fun_cases changeLast? f as with
  | case1 => cases h
  | case2 a => simp [changeLast?] at h
  | case3 a as hne => simp [changeLast?] at h

theorem changeLast?_bind {α : Type} (f g : α → Option α) (as : List α) :
    (changeLast? f as).bind (changeLast? g) = changeLast? (fun a => (f a).bind g) as := by
  fun_induction changeLast? f as with
  | case1 => rfl
  | case2 a => cases h : f a <;> simp [changeLast?, h]
  | case3 a as hne ih =>
    rw [changeLast?, ← ih]
    · cases h : changeLast? f as with
      | none => rfl
      | some bs =>
        rw [Option.map_some, Option.bind_some, changeLast?, Option.bind_some]
        exact ne_nil_of_changeLast? h
    · exact hne

/-- What stands under a name, with the table that it is, or a new one, changed. -/
def within? (f : Entries → Option Entries) : Option Node → Option Node
  | none => (f []).map (.table .parent)
  | some (.table .braces _) => none
  | some (.table origin inner) => (f inner).map (.table origin)
  | some (.tables items) => (changeLast? f items).map .tables
  | some _ => none

theorem changeAt?_cons (f : Entries → Option Entries) (name : String) (path : List String)
    (t : Entries) : changeAt? f (name :: path) t = alter? name (within? (changeAt? f path)) t := rfl

/-- A missing table is made by the first of two changes, and all others keep their sort. -/
theorem within?_bind (f g : Entries → Option Entries) (o : Option Node) :
    ((within? f o).bind fun node => within? g (some node)) = within? (fun t => (f t).bind g) o := by
  rcases o with - | (- | - | ⟨origin, inner⟩ | items)
  · cases h : f [] <;> simp [within?, h]
  · rfl
  · rfl
  · cases origin
    case braces => rfl
    all_goals cases h : f inner <;> simp [within?, h]
  · rw [within?, within?, ← changeLast?_bind]
    cases changeLast? f items <;> simp [within?]

theorem changeAt?_bind (f g : Entries → Option Entries) (path : List String) (t : Entries) :
    (changeAt? f path t).bind (changeAt? g path) = changeAt? (fun t => (f t).bind g) path t := by
  induction path generalizing t with
  | nil => rfl
  | cons name path ih =>
    rw [changeAt?_cons, funext (changeAt?_cons g name path), alter?_bind, changeAt?_cons,
      ← funext ih, funext (within?_bind _ _)]

theorem changeAt?_append (f : Entries → Option Entries) (p q : List String) (t : Entries) :
    changeAt? f (p ++ q) t = changeAt? (changeAt? f q) p t := by
  induction p generalizing t with
  | nil => rfl
  | cons name p ih =>
    rw [List.cons_append, changeAt?_cons, changeAt?_cons, funext ih]

end Changes

/-! ## Tables with values -/

section Tables

variable {name : String} {t : Entries}

/-- The contents of a table that holds nothing but values. -/
def scalars (values : List (String × Scalar)) : Entries :=
  values.map fun (name, value) => (name, .scalar value)

/-- The entries with values under their names. -/
def fill? (values : List (String × Scalar)) (t : Entries) : Option Entries :=
  values.foldlM (fun t (name, value) => insert? (.scalar value) [name] t) t

/-- The entries with a table opened by its header, and filled with values. -/
def openWith? (name : String) (values : List (String × Scalar)) : Entries → Option Entries :=
  alter? name fun
    | none => (fill? values []).map (.table .header)
    | some (.table .parent inner) => (fill? values inner).map (.table .header)
    | some _ => none

theorem openTable?_eq (name : String) (t : Entries) : openTable? name t = openWith? name [] t := by
  rw [openTable?, openWith?]
  congr 1

/-- One more value in a table that was opened and filled. -/
theorem openWith?_bind (name : String) (values : List (String × Scalar)) (key : String)
    (value : Scalar) (t : Entries) :
    (openWith? name values t).bind (changeAt? (insert? (.scalar value) [key]) [name]) =
      openWith? name (values ++ [(key, value)]) t := by
  have hfill (t : Entries) :
      fill? (values ++ [(key, value)]) t = (fill? values t).bind (insert? (.scalar value) [key]) := by
    rw [fill?, List.foldlM_append]
    simp [fill?]
  rw [openWith?, funext (changeAt?_cons _ name []), alter?_bind, openWith?]
  congr 1
  funext o
  rcases o with - | (- | - | ⟨origin, inner⟩ | items)
  · dsimp only
    rw [hfill]
    cases fill? values [] <;> rfl
  · rfl
  · rfl
  · cases origin
    case parent =>
      dsimp only
      rw [hfill]
      cases fill? values inner <;> rfl
    all_goals rfl
  · rfl

theorem insert?_of_get?_eq_none (h : get? t name = none) (node : Node) :
    insert? node [name] t = some (t ++ [(name, node)]) := by
  rw [insert?, alter?_of_get?_eq_none h]
  rfl

theorem get?_append (t u : Entries) (name : String) :
    get? (t ++ u) name = (get? t name).or (get? u name) := by
  induction t with
  | nil => rfl
  | cons e rest ih =>
    obtain ⟨key, node⟩ := e
    rw [List.cons_append, get?, get?]
    split
    · rfl
    · exact ih

/-- Values under names that are not there yet are put behind the others. -/
theorem fill?_of_nodup {values : List (String × Scalar)} (hnodup : (values.map Prod.fst).Nodup)
    (hfresh : ∀ name ∈ values.map Prod.fst, get? t name = none) :
    fill? values t = some (t ++ scalars values) := by
  induction values generalizing t with
  | nil => simp [fill?, scalars]
  | cons e values ih =>
    obtain ⟨key, value⟩ := e
    rw [List.map_cons, List.nodup_cons] at hnodup
    obtain ⟨hkey, htail⟩ := List.forall_mem_cons.1 hfresh
    have hnext : ∀ name ∈ values.map Prod.fst, get? (t ++ [(key, .scalar value)]) name = none := by
      intro name hname
      rw [get?_append, htail name hname, Option.none_or, get?, if_neg]
      · rfl
      · rintro rfl
        exact hnodup.1 hname
    rw [fill?, List.foldlM_cons]
    dsimp only at hkey ⊢
    rw [insert?_of_get?_eq_none hkey]
    refine (ih hnodup.2 hnext).trans ?_
    simp [scalars]

theorem openWith?_of_nodup {values : List (String × Scalar)}
    (hnodup : (values.map Prod.fst).Nodup) (h : get? t name = none) :
    openWith? name values t = some (t ++ [(name, .table .header (scalars values))]) := by
  rw [openWith?, alter?_of_get?_eq_none h]
  dsimp only
  rw [fill?_of_nodup hnodup fun _ _ => rfl]
  rfl

end Tables

end Entries

namespace Section

open Entries

/-- The document with a table and its values. -/
def addTo? (s : Section) (t : Entries) : Option Entries :=
  s.path.getLast?.bind fun name => changeAt? (openWith? name s.entries) s.path.dropLast t

variable {values : List (String × Scalar)} {name parent : String} {t inner : Entries}

theorem addTo?_single (hnodup : (values.map Prod.fst).Nodup) (h : get? t name = none) :
    addTo? ⟨[name], values⟩ t = some (t ++ [(name, .table .header (scalars values))]) :=
  openWith?_of_nodup hnodup h

theorem addTo?_child (hnodup : (values.map Prod.fst).Nodup) (h : get? t parent = none) :
    addTo? ⟨[parent, name], values⟩ t =
      some (t ++ [(parent, .table .parent [(name, .table .header (scalars values))])]) := by
  change changeAt? (openWith? name values) [parent] t = _
  rw [changeAt?_cons, alter?_of_get?_eq_none h]
  change ((openWith? name values []).map (Node.table .parent)).map _ = _
  rw [openWith?_of_nodup hnodup rfl]
  rfl

theorem addTo?_sibling (hnodup : (values.map Prod.fst).Nodup) (h : get? inner name = none) :
    addTo? ⟨[parent, name], values⟩ [(parent, .table .parent inner)] =
      some [(parent, .table .parent (inner ++ [(name, .table .header (scalars values))]))] := by
  change changeAt? (openWith? name values) [parent] _ = _
  rw [changeAt?_cons, alter?, if_pos rfl]
  change ((openWith? name values inner).map (Node.table .parent)).map _ = _
  rw [openWith?_of_nodup hnodup h]
  rfl

end Section

end ShaderAssembly.Toml
