import Mathlib.Data.List.Chain
import ShaderAssembly.Proofs.Generation.Name
/-!
# Hygiene of generated names

* `Apart`: no two underscores in a row; an escaped name keeps them apart, whatever the name is;
* `variableName_ne_of_mark`: a variable shares its name with nothing that carries another mark;
* **`names_hygienic`**: distinct names stay distinct, in words of the language of shaders and without
  a clash with samplers, shadows and banks, in every program whose declared names are distinct.
-/

namespace ShaderAssembly.Glsl

/-! ## Underscores -/

/-- Of two neighbours, at most one is an underscore. -/
def Apart (c d : Char) : Prop := c = '_' → d ≠ '_'

instance (c d : Char) : Decidable (Apart c d) :=
  inferInstanceAs (Decidable (c = '_' → d ≠ '_'))

theorem isChain_flatMap_escape {c : Char} (hc : c ≠ '_') (cs : List Char) :
    (c :: cs.flatMap escape).IsChain Apart := by
  -- The character before the rest is generalised: each escape ends with one that is no underscore.
  induction cs generalizing c with
  | nil => exact .singleton c
  | cons d ds ih =>
    have hcd : Apart c d := fun h => absurd h hc
    rw [List.flatMap_cons]
    by_cases hunderscore : d = '_'
    · subst hunderscore
      exact .cons_cons hcd (.cons_cons (by decide) (ih (by decide)))
    by_cases hdollar : d = '$'
    · subst hdollar
      exact .cons_cons (fun h => absurd h hc) (.cons_cons (by decide) (ih (by decide)))
    · rw [escape, if_neg hunderscore, if_neg hdollar]
      exact .cons_cons hcd (ih hunderscore)

/-- No name has two underscores in a row once it is escaped. -/
theorem not_doubleUnderscore_userName (name : String) :
    ¬ ['_', '_'] <:+: (userName name).toList := by
  have hchain : (userName name).toList.IsChain Apart := by
    simp only [userName, String.toList_append, String.toList_ofList]
    change ('a' :: 'r' :: 'b' :: '_' :: 'u' :: name.toList.flatMap escape).IsChain Apart
    have hrest := isChain_flatMap_escape (c := 'u') (by decide) name.toList
    exact .cons_cons (by decide) (.cons_cons (by decide) (.cons_cons (by decide)
      (.cons_cons (by decide) hrest)))
  rintro ⟨front, back, h⟩
  rw [List.append_assoc] at h
  exact List.isChain_iff_forall_rel_of_append_cons_cons.1 hchain h.symm rfl rfl

/-! ## Other names -/

theorem variableName_ne_of_mark (m : Model) (i : Nat) {name : String} {c : Char}
    (hmark : mark name = some c) (hu : c ≠ 'u') (hi : c ≠ 'i') : variableName m i ≠ name := by
  rintro rfl
  obtain h | h := mark_variableName m i
  · exact hu (Option.some.inj (hmark.symm.trans h))
  · exact hi (Option.some.inj (hmark.symm.trans h))

theorem variableName_ne_bank (m : Model) (i : Nat) (kind : ProgramKind) :
    variableName m i ≠ envName kind ∧ variableName m i ≠ localName kind := by
  cases kind with
  | vertex =>
    exact ⟨variableName_ne_of_mark m i (c := 'v') rfl (by decide) (by decide),
      variableName_ne_of_mark m i (c := 'v') rfl (by decide) (by decide)⟩
  | fragment =>
    exact ⟨variableName_ne_of_mark m i (c := 'f') rfl (by decide) (by decide),
      variableName_ne_of_mark m i (c := 'f') rfl (by decide) (by decide)⟩

/-! ## All of them -/

/-- **Generated names are hygienic.** Escaping keeps all names distinct, puts no two underscores in
a row and makes a word of the language of shaders out of every word of a program. In every program,
read or made by hand, whose declared names are distinct, the names of the variables are distinct too,
and none is that of a sampler, of a shadow or of a bank. -/
theorem names_hygienic :
    (∀ a b, userName a = userName b → a = b) ∧
    (∀ a, ¬ ['_', '_'] <:+: (userName a).toList) ∧
    (∀ a : String, a.toList.all isWordChar = true → (userName a).toList.all isNameChar = true) ∧
    ∀ m : Model, (m.vars.Pairwise fun v w => ¬ v.SameName w) →
      (∀ i j, variableName m i = variableName m j → i = j) ∧
      ∀ i, (∀ unit, variableName m i ≠ samplerName unit) ∧
        variableName m i ≠ fogCoordName ∧ variableName m i ≠ depthName ∧
        ∀ kind, variableName m i ≠ envName kind ∧ variableName m i ≠ localName kind := by
  refine ⟨fun _ _ => userName_injective, not_doubleUnderscore_userName,
    fun a ha => all_isNameChar_of_isWord (userName_spec ha).1, fun m hm =>
    ⟨fun _ _ => variableName_injective_of_names hm, fun i => ⟨fun unit => ?_, ?_, ?_,
      variableName_ne_bank m i⟩⟩⟩
  · exact variableName_ne_of_mark m i (mark_samplerName unit) (by decide) (by decide)
  · exact variableName_ne_of_mark m i (c := 'F') rfl (by decide) (by decide)
  · exact variableName_ne_of_mark m i (c := 'F') rfl (by decide) (by decide)

/-- A program made by hand, whose variables are named like escapes and like generated names. Three
of them are implied, and two of those have the name of a declared one. -/
def lookalikes : Model where
  kind := .vertex
  vars := [⟨"_u", .temporary, 0, false⟩, ⟨"uu", .temporary, 0, false⟩, ⟨"$", .temporary, 0, false⟩,
    ⟨"_d", .temporary, 0, false⟩, ⟨"$", .temporary, 0, true⟩, ⟨"implicit4", .temporary, 0, false⟩,
    ⟨"$", .temporary, 0, true⟩, ⟨"a b", .temporary, 0, true⟩]

theorem names_hygienic_lookalikes :
    (lookalikes.vars.Pairwise fun v w => ¬ v.SameName w) ∧
    (List.range 9).map (variableName lookalikes) =
      ["arb_u_uu", "arb_uuu", "arb_u_d", "arb_u_ud", "arb_implicit4", "arb_uimplicit4",
        "arb_implicit6", "arb_implicit7", "arb_implicit8"] ∧
    (∀ i j, variableName lookalikes i = variableName lookalikes j → i = j) ∧
    ∀ i unit, variableName lookalikes i ≠ samplerName unit :=
  have hnames : lookalikes.vars.Pairwise fun v w => ¬ v.SameName w := by
    simp [lookalikes, Variable.SameName]
  have h := names_hygienic.2.2.2 lookalikes hnames
  ⟨hnames, by decide +kernel, h.1, fun i => (h.2 i).1⟩

end ShaderAssembly.Glsl
