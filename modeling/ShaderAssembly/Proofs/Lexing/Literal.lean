import ShaderAssembly.Proofs.Printing.Piece
import ShaderAssembly.Proofs.Single.Rounding
/-!
# Literals

A literal is `digits`, `digits.digits`, `.digits` or `digits.`, each with an optional exponent.

* `Exponent`, `Literal`: what a literal is made of;
* `Literal.value`: the number that it denotes;
* `Decimal.exponent?_eq_ite`, `Single.ofText?_eq_ite`: numbers are read behind their signs;
* `Literal.ofText?_text`, `Literal.rounds_single`: its text is read as that number, rounded;
* `Literal.Severed`: the one form that the lexer takes apart, `digits.` with an exponent;
* **`Lexeme.scan_literal`**: any other literal is one token, where no number goes on behind it;
* **`Lexeme.literal_of_scanNumber`**: every number that is read is a literal of another form;
* `Lexeme.scan_severed`: of a literal that is taken apart, the digits before the point are read.
-/

namespace ShaderAssembly

/-! ## What a literal is made of -/

/-- A run of digits. -/
def IsDigits (cs : List Char) : Prop := cs ≠ [] ∧ cs.all Char.isDigit = true

/-- The exponent of a literal: a letter, a sign or none, and digits. -/
structure Exponent where
  letter : Char
  sign : Option Char
  digits : List Char
  isLetter : letter = 'e' ∨ letter = 'E'
  isSign : ∀ c ∈ sign, c = '+' ∨ c = '-'
  isDigits : IsDigits digits

namespace Exponent

/-- The text of an exponent. -/
def text (e : Exponent) : List Char := e.letter :: (e.sign.toList ++ e.digits)

/-- The whole number that an exponent denotes. -/
def value (e : Exponent) : Int :=
  if e.sign = some '-' then -(Decimal.ofDigits e.digits : Int) else Decimal.ofDigits e.digits

end Exponent

/-- A literal: digits before the point, those behind it where there is a point, and an exponent where
there is one; it has a digit on one side of the point at least. -/
structure Literal where
  whole : List Char
  fraction : Option (List Char)
  exponent : Option Exponent
  isDigits : IsDigits (whole ++ fraction.getD [])

namespace Literal

/-- The point and the digits behind it. -/
def fractionText (ℓ : Literal) : List Char := ℓ.fraction.elim [] ('.' :: ·)

/-- The text of the exponent. -/
def exponentText (ℓ : Literal) : List Char := ℓ.exponent.elim [] Exponent.text

/-- The text of a literal. -/
def text (ℓ : Literal) : List Char := ℓ.whole ++ ℓ.fractionText ++ ℓ.exponentText

/-- Digits only. -/
def IsWhole (ℓ : Literal) : Prop := ℓ.fraction = none ∧ ℓ.exponent = none

instance (ℓ : Literal) : Decidable ℓ.IsWhole :=
  decidable_of_iff (ℓ.fraction.isNone = true ∧ ℓ.exponent.isNone = true) (by simp [IsWhole])

/-- A point without digits behind it, and an exponent. -/
def Severed (ℓ : Literal) : Prop := ℓ.fraction = some [] ∧ ℓ.exponent ≠ none

/-- The power of ten in the exponent. -/
def power (ℓ : Literal) : Int := ℓ.exponent.elim 0 Exponent.value

/-- The number that a literal denotes. -/
def value (ℓ : Literal) : ℚ :=
  (Decimal.ofDigits ℓ.whole + Decimal.ofDigits (ℓ.fraction.getD []) / 10 ^ (ℓ.fraction.getD []).length) *
    10 ^ ℓ.power

/-- That number, rounded. -/
def single (ℓ : Literal) : Single :=
  .ofDecimal false (Decimal.ofDigits (ℓ.whole ++ ℓ.fraction.getD []))
    (ℓ.power - (ℓ.fraction.getD []).length)

/-- The class of the token that a literal is. -/
def kind (ℓ : Literal) : TokenKind :=
  if ℓ.IsWhole ∧ Decimal.ofDigits ℓ.whole < UInt32.size then .integer (Decimal.ofDigits ℓ.whole)
  else .float ℓ.single

end Literal

/-! ## Digits -/

theorem Decimal.ofDigits_append (as bs : List Char) :
    ofDigits (as ++ bs) = ofDigits as * 10 ^ bs.length + ofDigits bs := by
  have hfold : ∀ (n : Nat), bs.foldl (fun n c => 10 * n + (c.toNat - '0'.toNat)) n =
      n * 10 ^ bs.length + ofDigits bs := by
    unfold ofDigits
    induction bs with
    | nil => simp
    | cons b bs ih =>
      intro n
      rw [List.foldl_cons, List.foldl_cons, ih, ih (10 * 0 + _), List.length_cons]
      ring
  rw [ofDigits, List.foldl_append, hfold]
  rfl

theorem isDigit_eq_false {c : Char} (hc : c = 'e' ∨ c = 'E') : c.isDigit = false := by
  obtain rfl | rfl := hc <;> rfl

theorem toLower_of_isDigit {c : Char} (h : c.isDigit = true) : c.toLower = c := by
  simp only [Char.isDigit, Bool.and_eq_true, decide_eq_true_eq, UInt32.le_iff_toNat_le] at h
  refine dif_neg fun hupper => ?_
  have hle : 65 ≤ c.val.toNat := UInt32.le_iff_toNat_le.1 hupper.1
  have hlast : c.val.toNat ≤ 57 := h.2
  omega

namespace IsDigits

variable {cs : List Char}

theorem exists_cons (h : IsDigits cs) : ∃ d ds, cs = d :: ds ∧ d.isDigit = true := by
  obtain ⟨hne, hall⟩ := h
  obtain ⟨d, ds, rfl⟩ := List.exists_cons_of_ne_nil hne
  exact ⟨d, ds, rfl, List.all_eq_true.1 hall d List.mem_cons_self⟩

theorem head_ne (h : IsDigits cs) : ∀ c ∈ cs.head?, c ≠ '+' ∧ c ≠ '-' := by
  obtain ⟨d, ds, rfl, hd⟩ := h.exists_cons
  rintro _ ⟨⟩
  constructor <;> (rintro rfl; exact absurd hd (by decide))

end IsDigits

theorem signPart_append_of {sign : Option Char} (hsign : ∀ c ∈ sign, c = '+' ∨ c = '-') {cs : List Char}
    (hcs : ∀ c ∈ cs.head?, c ≠ '+' ∧ c ≠ '-') : signPart (sign.toList ++ cs) = (sign.toList, cs) := by
  cases sign with
  | some c => obtain rfl | rfl := hsign c rfl <;> rfl
  | none =>
    cases cs with
    | nil => rfl
    | cons c cs =>
      obtain ⟨hplus, hminus⟩ := hcs c rfl
      simp [signPart, hplus, hminus]

theorem exists_sign_of_signPart (cs : List Char) :
    ∃ sign : Option Char, (signPart cs).1 = sign.toList ∧ ∀ c ∈ sign, c = '+' ∨ c = '-' := by
  cases cs with
  | nil => exact ⟨none, rfl, by simp⟩
  | cons s cs =>
    simp only [signPart]
    split
    · rename_i hs
      exact ⟨some s, rfl, by rintro _ ⟨⟩; simpa using hs⟩
    · exact ⟨none, rfl, by simp⟩

/-- The sign is told apart from the rest in the same way wherever a number is read. -/
theorem signed_eq (cs : List Char) :
    (match cs with
      | '+' :: ds => (false, ds)
      | '-' :: ds => (true, ds)
      | ds => (false, ds)) = (decide ((signPart cs).1 = ['-']), (signPart cs).2) := by
  split
  · rfl
  · rfl
  · rename_i hplus hminus
    have hcs : signPart cs = ([], cs) := by
      refine signPart_append_of (show ∀ c ∈ none, c = '+' ∨ c = '-' by simp) fun c hc => ?_
      obtain ⟨ds, rfl⟩ := List.head?_eq_some_iff.1 hc
      exact ⟨fun h => hplus ds (h ▸ rfl), fun h => hminus ds (h ▸ rfl)⟩
    rw [hcs]
    rfl

theorem Decimal.exponent?_eq_ite (cs : List Char) :
    exponent? cs =
      if (signPart cs).2.isEmpty || !(signPart cs).2.all Char.isDigit then none
      else some (if (signPart cs).1 = ['-'] then -(ofDigits (signPart cs).2 : Int)
        else ofDigits (signPart cs).2) := by
  have h := congrArg (fun p : Bool × List Char =>
    if p.2.isEmpty || !p.2.all Char.isDigit then none
    else some (if p.1 then -(ofDigits p.2 : Int) else ofDigits p.2)) (signed_eq cs)
  simp only [decide_eq_true_eq] at h
  exact h

theorem Single.ofText?_eq_ite (cs : List Char) :
    ofText? cs =
      if String.ofList ((signPart cs).2.map Char.toLower) = "inf" ||
          String.ofList ((signPart cs).2.map Char.toLower) = "infinity" then
        some (.infinite (decide ((signPart cs).1 = ['-'])))
      else if String.ofList ((signPart cs).2.map Char.toLower) = "nan" then some .nan
      else (Decimal.ofText? (signPart cs).2).map fun d =>
        .ofDecimal (decide ((signPart cs).1 = ['-'])) d.digits d.exponent :=
  congrArg (fun p : Bool × List Char =>
    if String.ofList (p.2.map Char.toLower) = "inf" || String.ofList (p.2.map Char.toLower) = "infinity"
    then some (Single.infinite p.1)
    else if String.ofList (p.2.map Char.toLower) = "nan" then some Single.nan
    else (Decimal.ofText? p.2).map fun d : Decimal => Single.ofDecimal p.1 d.digits d.exponent)
    (signed_eq cs)

namespace Exponent

variable (e : Exponent)

theorem exponent?_eq : Decimal.exponent? (e.sign.toList ++ e.digits) = some e.value := by
  have hsign := signPart_append_of e.isSign e.isDigits.head_ne
  obtain ⟨hne, hall⟩ := e.isDigits
  rw [Decimal.exponent?_eq_ite, hsign]
  cases hsign' : e.sign with
  | none => simp [value, hsign', hne, hall]
  | some c => simp [value, hsign', hne, hall]

theorem exponentPart_append {rest : List Char} (hrest : ∀ c ∈ rest.head?, c.isDigit = false) :
    exponentPart (e.text ++ rest) = (e.text, rest) := by
  obtain ⟨htake, hdrop⟩ := takeWhile_append_of_all e.isDigits.2 hrest
  obtain ⟨d, ds, hds, hd⟩ := e.isDigits.exists_cons
  have hstart : startsWith Char.isDigit (e.digits ++ rest) = true := by rw [hds]; exact hd
  have hhead : ∀ c ∈ (e.digits ++ rest).head?, c ≠ '+' ∧ c ≠ '-' := by
    have h := e.isDigits.head_ne
    rw [hds] at h ⊢
    exact h
  have hsign := signPart_append_of e.isSign hhead
  have hletter : (e.letter == 'e' || e.letter == 'E') = true := by simpa using e.isLetter
  rw [text, List.cons_append, List.append_assoc, exponentPart, hsign]
  simp only [hletter, hstart, htake, hdrop]
  rfl

end Exponent

theorem exists_exponent_of_exponentPart {cs : List Char} (h : (exponentPart cs).1 ≠ []) :
    ∃ e : Exponent, (exponentPart cs).1 = e.text := by
  cases cs with
  | nil => exact absurd rfl h
  | cons c cs =>
    simp only [exponentPart] at h ⊢
    split at h
    case isFalse => exact absurd rfl h
    rename_i hmark
    rw [if_pos hmark]
    simp only [Bool.and_eq_true, Bool.or_eq_true, beq_iff_eq] at hmark
    obtain ⟨d, ds, hds, hd⟩ := Lexeme.startsWith_eq _ _ hmark.2
    have hdigits : IsDigits ((signPart cs).2.takeWhile Char.isDigit) :=
      ⟨by rw [hds]; simp [hd], List.all_takeWhile⟩
    obtain ⟨sign, hsigned, hsign⟩ := exists_sign_of_signPart cs
    exact ⟨⟨c, sign, _, hmark.1, hsign, hdigits⟩, by rw [hsigned]; rfl⟩

/-! ## The value of a literal -/

namespace Literal

variable (ℓ : Literal)

theorem all_whole : ℓ.whole.all Char.isDigit = true :=
  List.all_eq_true.2 fun c hc => List.all_eq_true.1 ℓ.isDigits.2 c (List.mem_append_left _ hc)

theorem all_fraction : (ℓ.fraction.getD []).all Char.isDigit = true :=
  List.all_eq_true.2 fun c hc => List.all_eq_true.1 ℓ.isDigits.2 c (List.mem_append_right _ hc)

theorem exists_cons : ∃ c cs, ℓ.text = c :: cs ∧
    (c.isDigit = true ∨ c = '.' ∧ startsWith Char.isDigit cs = true) := by
  have hall := ℓ.all_whole
  cases hwhole : ℓ.whole with
  | cons d ds =>
    rw [hwhole] at hall
    refine ⟨d, ds ++ ℓ.fractionText ++ ℓ.exponentText, by rw [text, hwhole]; rfl, .inl ?_⟩
    exact List.all_eq_true.1 hall d List.mem_cons_self
  | nil =>
    have hdigits := ℓ.isDigits
    rw [hwhole, List.nil_append] at hdigits
    obtain ⟨d, ds, hds, hd⟩ := hdigits.exists_cons
    cases hfraction : ℓ.fraction with
    | none => rw [hfraction] at hds; cases hds
    | some part =>
      rw [hfraction] at hds
      obtain rfl : part = d :: ds := hds
      refine ⟨'.', d :: ds ++ ℓ.exponentText, ?_, .inr ⟨rfl, hd⟩⟩
      rw [text, hwhole, fractionText, hfraction]
      rfl

theorem exponentText_head : ∀ c ∈ ℓ.exponentText.head?, c = 'e' ∨ c = 'E' := by
  unfold exponentText
  cases hexponent : ℓ.exponent with
  | none => simp
  | some e =>
    rintro _ ⟨⟩
    exact e.isLetter

/-- What stands behind the digits of the fraction is no digit, also where `rest` follows. -/
theorem exponentText_append_head {rest : List Char} (hrest : EndsNumber rest) :
    ∀ c ∈ (ℓ.exponentText ++ rest).head?, c.isDigit = false ∧ c ≠ '.' := by
  have hhead := ℓ.exponentText_head
  cases htext : ℓ.exponentText with
  | nil => exact fun c hc => ⟨isDigit_of_isWordChar (hrest c hc).1, (hrest c hc).2⟩
  | cons c cs =>
    rw [htext] at hhead
    rintro _ ⟨⟩
    obtain rfl | rfl := hhead c rfl <;> decide

theorem fractionText_append_head {rest : List Char} (hrest : EndsNumber rest) :
    ∀ c ∈ (ℓ.fractionText ++ (ℓ.exponentText ++ rest)).head?, c.isDigit = false := by
  unfold fractionText
  cases ℓ.fraction with
  | none => exact fun c hc => (ℓ.exponentText_append_head hrest c hc).1
  | some part =>
    rintro _ ⟨⟩
    rfl

theorem decimal_ofText?_text : Decimal.ofText? ℓ.text =
    some ⟨Decimal.ofDigits (ℓ.whole ++ ℓ.fraction.getD []), ℓ.power - (ℓ.fraction.getD []).length⟩ := by
  have hpoint := ℓ.fractionText_append_head endsNumber_nil
  have hend := ℓ.exponentText_append_head endsNumber_nil
  rw [List.append_nil] at hpoint hend
  obtain ⟨htake, hdrop⟩ := takeWhile_append_of_all ℓ.all_whole hpoint
  obtain ⟨htake', hdrop'⟩ := takeWhile_append_of_all ℓ.all_fraction fun c hc => (hend c hc).1
  have hdigits : ¬ (ℓ.whole.isEmpty && (ℓ.fraction.getD []).isEmpty) = true := by
    simpa using ℓ.isDigits.1
  unfold Decimal.ofText? text
  simp only [List.append_assoc, htake, hdrop]
  unfold fractionText
  cases hfraction : ℓ.fraction
  case' none =>
    rw [hfraction] at hdigits
    split
    next heq => exact absurd rfl (hend '.' (by rw [show ℓ.exponentText = _ from heq]; rfl)).2
    refine (if_neg hdigits).trans ?_
  case' some part =>
    rw [hfraction] at hdigits htake' hdrop'
    rw [Option.getD_some] at hdigits htake' hdrop'
    simp only [Option.elim_some, List.cons_append, htake', hdrop']
    refine (if_neg hdigits).trans ?_
  -- The fraction is read; the exponent is read in the same way behind one as behind none.
  all_goals
    unfold exponentText power
    cases ℓ.exponent with
    | none => rfl
    | some e =>
      have hletter : (decide (e.letter = 'e') || decide (e.letter = 'E')) = true := by
        simpa using e.isLetter
      simp [Exponent.text, hletter, e.exponent?_eq]

theorem head_text_ne {d : Char} (hd : d.isDigit = false ∧ d ≠ '.') : ∀ c ∈ ℓ.text.head?, c ≠ d := by
  obtain ⟨c, cs, htext, hc⟩ := ℓ.exists_cons
  rw [htext]
  rintro _ ⟨⟩ rfl
  obtain h | ⟨h, -⟩ := hc
  · rw [hd.1] at h
    cases h
  · exact hd.2 h

theorem head_text_ne_sign : ∀ c ∈ ℓ.text.head?, c ≠ '+' ∧ c ≠ '-' := fun c hc =>
  ⟨ℓ.head_text_ne (by decide) c hc, ℓ.head_text_ne (by decide) c hc⟩

theorem lower_text_ne {name : String} {d : Char} (hname : name.toList.head? = some d)
    (hd : d.isDigit = false ∧ d ≠ '.') : String.ofList (ℓ.text.map Char.toLower) ≠ name := by
  obtain ⟨c, cs, htext, hc⟩ := ℓ.exists_cons
  have hlower : c.toLower = c := by
    obtain h | ⟨rfl, -⟩ := hc
    · exact toLower_of_isDigit h
    · rfl
  rintro rfl
  rw [String.toList_ofList, htext, List.map_cons, List.head?_cons, hlower] at hname
  exact ℓ.head_text_ne hd c (by rw [htext]; rfl) (Option.some.inj hname)

theorem ofText?_text : Single.ofText? ℓ.text = some ℓ.single := by
  have hsign := signPart_append_of (show ∀ c ∈ none, c = '+' ∨ c = '-' by simp) ℓ.head_text_ne_sign
  rw [Option.toList_none, List.nil_append] at hsign
  have hinf : String.ofList (ℓ.text.map Char.toLower) ≠ "inf" :=
    ℓ.lower_text_ne (d := 'i') rfl (by decide)
  have hinfinity : String.ofList (ℓ.text.map Char.toLower) ≠ "infinity" :=
    ℓ.lower_text_ne (d := 'i') rfl (by decide)
  have hnan : String.ofList (ℓ.text.map Char.toLower) ≠ "nan" :=
    ℓ.lower_text_ne (d := 'n') rfl (by decide)
  rw [Single.ofText?_eq_ite, hsign, if_neg (by simp [hinf, hinfinity]), if_neg hnan,
    ℓ.decimal_ofText?_text]
  rfl

theorem value_eq : ℓ.value = Decimal.ofDigits (ℓ.whole ++ ℓ.fraction.getD []) *
    10 ^ (ℓ.power - (ℓ.fraction.getD []).length) := by
  rw [value, Decimal.ofDigits_append, zpow_sub₀ (by norm_num), zpow_natCast]
  push_cast
  field_simp

theorem rounds_single : Single.Rounds false ℓ.value ℓ.single := by
  rw [value_eq]
  exact Single.ofDecimal_rounds false _ _

/-! ## Literals that are read -/

theorem isWhole_iff : ℓ.IsWhole ↔ ℓ.fractionText = [] ∧ ℓ.exponentText = [] := by
  unfold IsWhole fractionText exponentText
  cases ℓ.fraction <;> cases ℓ.exponent <;> simp [Exponent.text]

theorem numberKind_text :
    numberKind (ℓ.fractionText.isEmpty && ℓ.exponentText.isEmpty) ℓ.text = ℓ.kind := by
  have htest : (ℓ.fractionText.isEmpty && ℓ.exponentText.isEmpty) = decide ℓ.IsWhole := by
    rw [Bool.eq_iff_iff]
    simp [isWhole_iff]
  rw [htest, numberKind, ofText?_text, kind]
  by_cases hwhole : ℓ.IsWhole
  · obtain ⟨hfraction, hexponent⟩ := ℓ.isWhole_iff.1 hwhole
    have htext : ℓ.text = ℓ.whole := by rw [text, hfraction, hexponent, List.append_nil, List.append_nil]
    simp [hwhole, htext, UInt32.size]
  · simp [hwhole]

/-- The point and the digits behind it belong to the number, unless an exponent follows the point. -/
theorem fractionPart_append (h : ¬ ℓ.Severed) {rest : List Char} (hrest : EndsNumber rest) :
    fractionPart (ℓ.fractionText ++ (ℓ.exponentText ++ rest)) =
      (ℓ.fractionText, ℓ.exponentText ++ rest) := by
  have hend := ℓ.exponentText_append_head hrest
  have hall := ℓ.all_fraction
  unfold fractionText
  cases hfraction : ℓ.fraction with
  | none =>
    rw [Option.elim_none, List.nil_append]
    cases htail : ℓ.exponentText ++ rest with
    | nil => rfl
    | cons c cs => exact fractionPart_of_ne (hend c (by rw [htail]; rfl)).2 cs
  | some part =>
    rw [hfraction, Option.getD_some] at hall
    obtain ⟨htake, hdrop⟩ := takeWhile_append_of_all hall fun c hc => (hend c hc).1
    have hpoint : pointContinues (part ++ (ℓ.exponentText ++ rest)) = true := by
      cases part with
      | cons d ds =>
        have hd : d.isDigit = true := List.all_eq_true.1 hall d List.mem_cons_self
        have hne : d ≠ '.' := by
          rintro rfl
          cases hd
        simp [pointContinues, hne, Lexeme.isWordStart_of_isDigit hd]
      | nil =>
        have hexponent : ℓ.exponent = none := by
          by_contra hsome
          exact h ⟨hfraction, hsome⟩
        rw [exponentText, hexponent]
        cases rest with
        | nil => rfl
        | cons c cs =>
          obtain ⟨hc, hne⟩ := hrest c rfl
          simp only [isWordChar, Bool.or_eq_false_iff] at hc
          simp [pointContinues, hne, hc.1]
    simp [fractionPart, hpoint, htake, hdrop]

theorem exponentPart_append {rest : List Char} (hrest : EndsNumber rest) :
    exponentPart (ℓ.exponentText ++ rest) = (ℓ.exponentText, rest) := by
  unfold exponentText
  cases ℓ.exponent with
  | none => exact exponentPart_of_endsNumber hrest
  | some e => exact e.exponentPart_append fun c hc => isDigit_of_isWordChar (hrest c hc).1

end Literal

theorem startsWith_isWordStart {rest : List Char} (hrest : EndsNumber rest) :
    startsWith isWordStart rest = false := by
  cases rest with
  | nil => rfl
  | cons c cs =>
    have hc := (hrest c rfl).1
    simp only [isWordChar, Bool.or_eq_false_iff] at hc
    exact hc.1

namespace Lexeme

theorem scanNumber_literal {ℓ : Literal} (h : ¬ ℓ.Severed) {rest : List Char}
    (hrest : EndsNumber rest) : scanNumber (ℓ.text ++ rest) = ⟨ℓ.kind, ℓ.text, rest⟩ := by
  obtain ⟨htake, hdrop⟩ :=
    takeWhile_append_of_all ℓ.all_whole (ℓ.fractionText_append_head hrest)
  have htext : ℓ.text ++ rest = ℓ.whole ++ (ℓ.fractionText ++ (ℓ.exponentText ++ rest)) := by
    simp [Literal.text]
  rw [htext, scanNumber]
  simp only [htake, hdrop, ℓ.fractionPart_append h hrest, ℓ.exponentPart_append hrest,
    startsWith_isWordStart hrest]
  rw [← ℓ.numberKind_text]
  simp [Literal.text]

theorem scan_number {c : Char} {cs : List Char}
    (h : c.isDigit = true ∨ c = '.' ∧ startsWith Char.isDigit cs = true) :
    scan c cs = scanNumber (c :: cs) := by
  obtain h | ⟨rfl, h⟩ := h
  · exact scan_digit h cs
  · simp [scan, isBlank, isWordStart, h]

theorem startsWith_append {p : Char → Bool} {cs : List Char} (h : startsWith p cs = true)
    (rest : List Char) : startsWith p (cs ++ rest) = true := by
  obtain ⟨d, ds, rfl, hd⟩ := startsWith_eq p cs h
  exact hd

/-- **A literal is one token**, unless it is taken apart, where no number goes on behind it. -/
theorem scan_literal {ℓ : Literal} (h : ¬ ℓ.Severed) {rest : List Char} (hrest : EndsNumber rest) :
    ∃ c cs, ℓ.text = c :: cs ∧ scan c (cs ++ rest) = ⟨ℓ.kind, ℓ.text, rest⟩ := by
  obtain ⟨c, cs, htext, hc⟩ := ℓ.exists_cons
  refine ⟨c, cs, htext, ?_⟩
  rw [scan_number (hc.imp_right fun hc => ⟨hc.1, startsWith_append hc.2 rest⟩), ← List.cons_append,
    ← htext]
  exact scanNumber_literal h hrest

theorem scan_severed {ℓ : Literal} (h : ℓ.Severed) (rest : List Char) :
    ∃ c cs, ℓ.text = c :: cs ∧ (scan c (cs ++ rest)).text = ℓ.whole := by
  obtain ⟨hfraction, hexponent⟩ := h
  obtain ⟨e, he⟩ := Option.ne_none_iff_exists'.1 hexponent
  have hdigits := ℓ.isDigits
  rw [hfraction, Option.getD_some, List.append_nil] at hdigits
  obtain ⟨d, ds, hds, hd⟩ := hdigits.exists_cons
  have htext : ℓ.text ++ rest = ℓ.whole ++ ('.' :: e.text ++ rest) := by
    simp [Literal.text, Literal.fractionText, Literal.exponentText, hfraction, he]
  have hstop : ∀ c ∈ ('.' :: e.text ++ rest).head?, c.isDigit = false := by
    rintro _ ⟨⟩
    rfl
  obtain ⟨htake, hdrop⟩ := takeWhile_append_of_all hdigits.2 hstop
  have hletter : isWordStart e.letter = true := by
    obtain h | h := e.isLetter <;> rw [h] <;> rfl
  have hpoint : fractionPart ('.' :: e.text ++ rest) = ([], '.' :: e.text ++ rest) := by
    simp [fractionPart, pointContinues, Exponent.text, hletter]
  refine ⟨d, ds ++ '.' :: e.text, ?_, ?_⟩
  · have h := htext
    rw [← List.append_assoc, List.append_left_inj, hds] at h
    exact h
  · rw [scan_digit hd, ← List.cons_append, ← List.cons_append, ← hds, List.append_assoc, scanNumber]
    simp only [htake, hdrop, hpoint]
    simp [exponentPart, startsWith, isWordStart]

/-- A fraction that is read. No exponent is read behind a point without digits. -/
theorem exists_fraction_of_fractionPart (cs : List Char) :
    ∃ fraction : Option (List Char), (fractionPart cs).1 = fraction.elim [] ('.' :: ·) ∧
      (fraction.getD []).all Char.isDigit = true ∧
      (fraction = some [] → (exponentPart (fractionPart cs).2).1 = []) := by
  cases cs with
  | nil => exact ⟨none, rfl, rfl, by simp⟩
  | cons c cs =>
    simp only [fractionPart]
    split
    case isFalse => exact ⟨none, rfl, rfl, by simp⟩
    rename_i hpoint
    refine ⟨some (cs.takeWhile Char.isDigit), rfl, List.all_takeWhile, fun hnone => ?_⟩
    simp only [Bool.and_eq_true] at hpoint
    have hnext : cs.dropWhile Char.isDigit = cs := by
      have h := List.takeWhile_append_dropWhile (p := Char.isDigit) (l := cs)
      rwa [Option.some.inj hnone, List.nil_append] at h
    dsimp only
    rw [hnext]
    cases cs with
    | nil => rfl
    | cons d ds =>
      have hstart : isWordStart d = false := by
        have h := hpoint.2
        simp only [pointContinues, Bool.and_eq_true, Bool.not_eq_true'] at h
        exact h.2
      have hne (x : Char) (hx : isWordStart x = true) : (d == x) = false :=
        beq_eq_false_of_class (p := isWordStart) (by rw [hstart, hx]; rfl)
      simp [exponentPart, hne 'e' (by decide), hne 'E' (by decide)]

theorem exists_option_of_exponentPart (cs : List Char) :
    ∃ exponent : Option Exponent, (exponentPart cs).1 = exponent.elim [] Exponent.text ∧
      (exponent ≠ none → (exponentPart cs).1 ≠ []) := by
  by_cases h : (exponentPart cs).1 = []
  · exact ⟨none, h, fun hnone => absurd rfl hnone⟩
  · obtain ⟨e, he⟩ := exists_exponent_of_exponentPart h
    exact ⟨some e, he, fun _ => h⟩

theorem isDigits_of_fractionPart {c : Char} {cs : List Char} {fraction : Option (List Char)}
    (hc : c.isDigit = true ∨ c = '.' ∧ startsWith Char.isDigit cs = true)
    (hfraction : (fractionPart ((c :: cs).dropWhile Char.isDigit)).1 = fraction.elim [] ('.' :: ·))
    (hpart : (fraction.getD []).all Char.isDigit = true) :
    IsDigits ((c :: cs).takeWhile Char.isDigit ++ fraction.getD []) := by
  refine ⟨?_, by rw [List.all_append, List.all_takeWhile, hpart]; rfl⟩
  obtain hc | ⟨rfl, hc⟩ := hc
  · simp [hc]
  · obtain ⟨d, ds, rfl, hd⟩ := startsWith_eq _ _ hc
    have hne : d ≠ '.' := by
      rintro rfl
      cases hd
    have hpoint : pointContinues (d :: ds) = true := by
      simp [pointContinues, hne, isWordStart_of_isDigit hd]
    cases fraction with
    | none => simp [fractionPart, hpoint] at hfraction
    | some part =>
      have heq : '.' :: (d :: ds).takeWhile Char.isDigit = '.' :: part := by
        simpa [fractionPart, hpoint] using hfraction
      obtain rfl := (List.cons.inj heq).2
      simp [hd]

/-- The parts of a number make up a literal, and none that is taken apart. -/
theorem exists_literal_of_parts {c : Char} {cs : List Char}
    (hc : c.isDigit = true ∨ c = '.' ∧ startsWith Char.isDigit cs = true) :
    ∃ ℓ : Literal, ¬ ℓ.Severed ∧ ℓ.whole = (c :: cs).takeWhile Char.isDigit ∧
      ℓ.fractionText = (fractionPart ((c :: cs).dropWhile Char.isDigit)).1 ∧
      ℓ.exponentText = (exponentPart (fractionPart ((c :: cs).dropWhile Char.isDigit)).2).1 := by
  obtain ⟨fraction, hfraction, hpart, hsevered⟩ :=
    exists_fraction_of_fractionPart ((c :: cs).dropWhile Char.isDigit)
  obtain ⟨exponent, hexponent, hpower⟩ :=
    exists_option_of_exponentPart (fractionPart ((c :: cs).dropWhile Char.isDigit)).2
  exact ⟨⟨_, fraction, exponent, isDigits_of_fractionPart hc hfraction hpart⟩,
    fun h => hpower h.2 (hsevered h.1), rfl, hfraction.symm, hexponent.symm⟩

/-- **Every number that is read is a literal**, and none that is taken apart. -/
theorem literal_of_scanNumber {c : Char} {cs : List Char}
    (hc : c.isDigit = true ∨ c = '.' ∧ startsWith Char.isDigit cs = true)
    (hkind : (scanNumber (c :: cs)).kind ≠ .identifier) :
    ∃ ℓ : Literal, ¬ ℓ.Severed ∧ (scanNumber (c :: cs)).kind = ℓ.kind ∧
      (scanNumber (c :: cs)).text = ℓ.text := by
  obtain ⟨ℓ, hℓ, hwhole, hfraction, hexponent⟩ := exists_literal_of_parts hc
  have hkind' := ℓ.numberKind_text
  rw [Literal.text, hwhole, hfraction, hexponent] at hkind'
  refine ⟨ℓ, hℓ, ?_⟩
  rw [Literal.text, hwhole, hfraction, hexponent]
  simp only [scanNumber] at hkind ⊢
  split at hkind
  case isTrue => exact absurd rfl hkind
  rename_i hnumber
  rw [if_neg hnumber]
  exact ⟨hkind', rfl⟩

end Lexeme

end ShaderAssembly
