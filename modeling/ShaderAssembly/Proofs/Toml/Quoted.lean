import Mathlib.Data.List.Basic
import ShaderAssembly.Toml.Quoted
/-!
# Strings that are read back

* `unescape?_escape`: escapes mean the characters that they were written for;
* `Fits`: texts that quotes around them can hold, with so many closing quotes in a row at most;
* `QuoteStyle.IsBody`: what stands between the quotes of a style for a string;
* **`readString?_quoted`**: a string is read back in whichever style it was written.
-/

namespace ShaderAssembly.Toml

/-! ## Escapes -/

section Escapes

variable {multiline : Bool} {c d : Char}

theorem unescape?_plain (hne : c ≠ '\\') (hc : isPlain c = true ∨ multiline = true ∧ c = '\n')
    (cs : List Char) : unescape? multiline (c :: cs) = (unescape? multiline cs).map (c :: ·) := by
  rw [unescape?]
  · rw [if_pos (by simpa using hc)]
  · exact hne

/-- Only space up to a line break would be taken away by the backslash before it. -/
theorem joinsLines_eq_false (hspace : isSpace d = false) (hbreak : d ≠ '\n') (cs : List Char) :
    (multiline && (skipSpace (d :: cs)).head? == some '\n') = false := by
  simp [skipSpace, hspace, hbreak]

theorem unescape?_letter (h : unescapeLetter? d = some c) (cs : List Char) :
    unescape? multiline ('\\' :: d :: cs) = (unescape? multiline cs).map (c :: ·) := by
  have hother : isSpace d = false ∧ d ≠ '\n' ∧ d ≠ 'u' ∧ d ≠ 'U' := by
    revert h
    fun_cases unescapeLetter? d <;> simp [isSpace]
  obtain ⟨hspace, hbreak, hu, hU⟩ := hother
  rw [unescape?, joinsLines_eq_false hspace hbreak, if_neg (by decide), h, Option.map_eq_bind]
  · rfl
  · exact hu
  · exact hU

theorem unescape?_code {digits : List Char} (hlength : digits.length = 4)
    (h : codePoint? 4 digits = some c) (cs : List Char) :
    unescape? multiline ('\\' :: 'u' :: (digits ++ cs)) =
      (unescape? multiline cs).map (c :: ·) := by
  have hfront : codePoint? 4 (digits ++ cs) = some c := by
    rw [← h, codePoint?, codePoint?, List.take_append_of_le_length (Nat.le_of_eq hlength.symm)]
  rw [unescape?, joinsLines_eq_false (by decide) (by decide), if_neg (by decide), hfront,
    List.drop_left' hlength, Option.map_eq_bind]
  rfl

/-- Only characters below 128 are no plain ones, so that two digits are enough. -/
theorem toNat_lt_of_isPlain (h : isPlain c = false) : c.toNat < 128 := by
  simp only [isPlain, Bool.or_eq_false_iff, Bool.and_eq_false_iff, decide_eq_false_iff_not,
    bne_eq_false_iff_eq] at h
  obtain h | rfl := h.2
  · have hblank : c.toNat < ' '.toNat := UInt32.lt_iff_toNat_lt.1 (Char.not_le.1 h)
    exact Nat.lt_trans hblank (by decide)
  · decide

theorem codePoint?_hexDigit (hc : c.toNat < 128) :
    codePoint? 4 ['0', '0', hexDigit (c.toNat / 16), hexDigit (c.toNat % 16)] = some c := by
  have hall : ∀ n < 128, codePoint? 4 ['0', '0', hexDigit (n / 16), hexDigit (n % 16)] =
      some (Char.ofNat n) := by decide +kernel
  rw [hall _ hc, Char.ofNat_toNat]

theorem unescape?_escapeOf {front : List Char} (h : escapeOf? c = some front) (cs : List Char) :
    unescape? multiline (front ++ cs) = (unescape? multiline cs).map (c :: ·) := by
  revert h
  fun_cases escapeOf? c
  case case9 hplain =>
    rintro ⟨⟩
    exact unescape?_code rfl (codePoint?_hexDigit (toNat_lt_of_isPlain (by simpa using hplain))) cs
  case case8 => exact fun h => nomatch h
  all_goals
    rintro ⟨⟩
    exact unescape?_letter rfl cs

/-- What has no escape is plain, and neither a backslash nor a double quote. -/
theorem isPlain_of_escapeOf (h : escapeOf? c = none) :
    isPlain c = true ∧ c ≠ '\\' ∧ c ≠ '"' := by
  revert h
  fun_cases escapeOf? c
  case case8 hquote hslash hplain => exact fun _ => ⟨hplain, hslash, hquote⟩
  all_goals exact fun h => nomatch h

theorem unescape?_escape (multiline : Bool) (run : Nat) (cs : List Char) :
    unescape? multiline (escape multiline run cs) = some cs := by
  fun_induction escape multiline run cs with
  | case1 => rw [unescape?]
  | case2 run c cs h ih =>
    obtain ⟨⟨-, hc⟩, -⟩ : (multiline = true ∧ c = '"') ∧ run < 2 := by simpa using h
    rw [unescape?_plain (by decide) (.inl (by decide)), ih, Option.map_some, hc]
  | case3 run c cs h h' ih =>
    obtain ⟨hlines, hc⟩ : multiline = true ∧ c = '\n' := by simpa using h'
    rw [unescape?_plain (by decide) (.inr ⟨hlines, rfl⟩), ih, Option.map_some, hc]
  | case4 run c cs h h' ih =>
    cases e : escapeOf? c with
    | none =>
      obtain ⟨hplain, hne, -⟩ := isPlain_of_escapeOf e
      rw [Option.getD_none, List.singleton_append, unescape?_plain hne (.inl hplain), ih,
        Option.map_some]
    | some front => rw [Option.getD_some, unescape?_escapeOf e, ih, Option.map_some]

end Escapes

/-! ## What quotes can hold -/

/-- A text that quotes of one kind can hold, where `run` of them stand before it: at most `limit`
stand in a row, those that a backslash takes with it apart. -/
inductive Fits (mark : Char) (escapes : Bool) (limit : Nat) : Nat → List Char → Prop
  | nil {run : Nat} : run ≤ limit → Fits mark escapes limit run []
  | mark {run : Nat} {cs : List Char} :
      Fits mark escapes limit (run + 1) cs → Fits mark escapes limit run (mark :: cs)
  | other {run : Nat} {c : Char} {cs : List Char} : run ≤ limit → c ≠ mark →
      (escapes = true → c ≠ '\\') → Fits mark escapes limit 0 cs →
      Fits mark escapes limit run (c :: cs)
  | escape {run : Nat} {d : Char} {cs : List Char} : run ≤ limit → escapes = true →
      Fits mark escapes limit 0 cs → Fits mark escapes limit run ('\\' :: d :: cs)

section Fits

variable {mark : Char} {escapes : Bool} {limit run : Nat} {cs rest : List Char}

theorem Fits.run_le (h : Fits mark escapes limit run cs) : run ≤ limit := by
  induction h with
  | mark _ ih => exact Nat.le_of_succ_le ih
  | _ => assumption

theorem Fits.head_ne {c : Char} (hmark : mark ≠ '\\') (h : Fits mark escapes 0 0 (c :: cs)) :
    c ≠ mark := by
  cases h with
  | mark h => exact absurd h.run_le (by omega)
  | other _ hc => exact hc
  | escape => exact hmark.symm

theorem untilQuote?_of_fits (hmark : mark ≠ '\\') (h : Fits mark escapes 0 run cs) :
    untilQuote? mark escapes (cs ++ mark :: rest) = some (cs, rest) := by
  induction h with
  | nil =>
    rw [List.nil_append, untilQuote?.eq_def]
    exact if_pos rfl
  | mark h => exact absurd h.run_le (by omega)
  | other _ hc hslash _ ih =>
    rw [List.cons_append, untilQuote?.eq_def]
    dsimp only
    rw [if_neg hc, if_neg (by simpa using fun h he => hslash he h), ih]
    rfl
  | escape _ hescapes _ ih =>
    rw [List.cons_append, List.cons_append, untilQuote?.eq_def]
    dsimp only
    rw [if_neg hmark.symm, if_pos (by simpa using hescapes), ih]
    rfl

/-- One character that neither closes the text nor takes the next one with it. -/
theorem untilTripleQuote?_cons {c : Char} (hquotes : [mark, mark, mark].isPrefixOf (c :: cs) = false)
    (hc : escapes = true → c ≠ '\\') :
    untilTripleQuote? mark escapes (c :: cs) =
      (untilTripleQuote? mark escapes cs).map fun (body, rest) => (c :: body, rest) := by
  rw [untilTripleQuote?.eq_def]
  dsimp only
  rw [hquotes, if_neg (by decide), if_neg (by simpa using fun h he => hc he h)]

theorem isPrefixOf_marks_eq_false {c : Char} (hc : c ≠ mark) (run : Nat) (marks cs : List Char) :
    (List.replicate run mark ++ mark :: marks).isPrefixOf (List.replicate run mark ++ c :: cs) =
      false := by
  induction run with
  | zero => simp [List.isPrefixOf_cons_cons, hc.symm]
  | succ run ih => simpa [List.replicate_succ, List.isPrefixOf_cons_cons] using ih

/-- Up to two quotes before another character are part of the text. -/
theorem untilTripleQuote?_replicate (hmark : mark ≠ '\\') {c : Char} (hc : c ≠ mark)
    (hrun : run ≤ 2) :
    untilTripleQuote? mark escapes (List.replicate run mark ++ c :: cs) =
      (untilTripleQuote? mark escapes (c :: cs)).map fun (body, rest) =>
        (List.replicate run mark ++ body, rest) := by
  induction run with
  | zero => simp
  | succ run ih =>
    have hquotes : [mark, mark, mark].isPrefixOf
        (List.replicate (run + 1) mark ++ c :: cs) = false := by
      obtain rfl | rfl : run = 0 ∨ run = 1 := by omega
      · exact isPrefixOf_marks_eq_false hc 1 [mark] cs
      · exact isPrefixOf_marks_eq_false hc 2 [] cs
    rw [List.replicate_succ, List.cons_append] at hquotes ⊢
    rw [untilTripleQuote?_cons hquotes fun _ => hmark, ih (by omega), Option.map_map]
    rfl

theorem untilTripleQuote?_closing (hrun : run ≤ 2) (hrest : rest.head? ≠ some mark) :
    untilTripleQuote? mark escapes (List.replicate run mark ++ mark :: mark :: mark :: rest) =
      some (List.replicate run mark, rest) := by
  have hbehind (n : Nat) : (rest.take n).takeWhile (· == mark) = [] := by
    cases rest with
    | nil => simp
    | cons c cs => cases n <;> simp_all
  have hquotes (cs : List Char) : [mark, mark, mark].isPrefixOf (mark :: mark :: mark :: cs) = true := by
    simp
  obtain rfl | rfl | rfl : run = 0 ∨ run = 1 ∨ run = 2 := by omega
  all_goals
    simp only [List.replicate, List.cons_append, List.nil_append]
    rw [untilTripleQuote?.eq_def]
    dsimp only
    rw [if_pos (hquotes _)]
    simp [hbehind]

theorem untilTripleQuote?_of_fits (hmark : mark ≠ '\\') (h : Fits mark escapes 2 run cs)
    (hrest : rest.head? ≠ some mark) :
    untilTripleQuote? mark escapes (List.replicate run mark ++ cs ++ mark :: mark :: mark :: rest) =
      some (List.replicate run mark ++ cs, rest) := by
  -- The quotes right before are part of the text read: only what follows shows that they are.
  induction h with
  | nil hrun => rw [List.append_nil, untilTripleQuote?_closing hrun hrest]
  | @mark run cs _ ih =>
    have hrow : List.replicate run mark ++ mark :: cs = List.replicate (run + 1) mark ++ cs := by
      rw [List.replicate_succ', List.append_assoc]
      rfl
    rw [hrow, ih]
  | @other run c cs hrun hc hslash _ ih =>
    have hquotes (ds : List Char) : [mark, mark, mark].isPrefixOf (c :: ds) = false :=
      isPrefixOf_marks_eq_false hc 0 [mark, mark] ds
    rw [List.append_assoc, List.cons_append, untilTripleQuote?_replicate hmark hc hrun,
      untilTripleQuote?_cons (hquotes _) hslash]
    simp only [List.replicate_zero, List.nil_append] at ih
    rw [ih]
    rfl
  | @escape run d cs hrun he _ ih =>
    have hquotes (ds : List Char) : [mark, mark, mark].isPrefixOf ('\\' :: ds) = false :=
      isPrefixOf_marks_eq_false hmark.symm 0 [mark, mark] ds
    rw [List.append_assoc, List.cons_append, untilTripleQuote?_replicate hmark hmark.symm hrun,
      untilTripleQuote?.eq_def]
    dsimp only
    rw [hquotes, if_neg (by decide), if_pos (by simpa using he)]
    simp only [List.replicate_zero, List.nil_append] at ih
    dsimp only [List.cons_append]
    rw [ih]
    rfl

end Fits

/-! ## Bodies -/

section Bodies

variable {mark : Char} {escapes multiline : Bool} {limit run : Nat} {c : Char}
  {cs front body rest : List Char}

theorem Fits.append_other (hfront : ∀ c ∈ front, c ≠ mark ∧ (escapes = true → c ≠ '\\'))
    (h : Fits mark escapes limit 0 cs) : Fits mark escapes limit 0 (front ++ cs) := by
  induction front with
  | nil => exact h
  | cons c front ih =>
    obtain ⟨⟨hc, hslash⟩, htail⟩ := List.forall_mem_cons.1 hfront
    exact .other (Nat.zero_le _) hc hslash (ih htail)

theorem fits_of_longestRun (h : longestRun mark run cs ≤ limit) : Fits mark false limit run cs := by
  fun_induction longestRun mark run cs with
  | case1 run => exact .nil h
  | case2 run cs ih => exact .mark (ih h)
  | case3 run c cs hc ih =>
    exact .other (Nat.le_trans (Nat.le_max_left ..) h) hc (fun he => nomatch he)
      (ih (Nat.le_trans (Nat.le_max_right ..) h))

theorem plain_hexDigit : ∀ n < 16,
    isPlain (hexDigit n) = true ∧ hexDigit n ≠ '"' ∧ hexDigit n ≠ '\\' := by
  decide +kernel

theorem exists_of_escapeOf (h : escapeOf? c = some front) :
    ∃ d tail, front = '\\' :: d :: tail ∧ isPlain d = true ∧
      ∀ x ∈ tail, isPlain x = true ∧ x ≠ '"' ∧ x ≠ '\\' := by
  revert h
  fun_cases escapeOf? c
  case case9 hplain =>
    rintro ⟨⟩
    have hc : c.toNat < 16 * 16 :=
      Nat.lt_trans (toNat_lt_of_isPlain (by simpa using hplain)) (by decide)
    refine ⟨_, _, rfl, by decide, ?_⟩
    simp only [List.forall_mem_cons, List.not_mem_nil, false_imp_iff, implies_true, and_true]
    exact ⟨plain_hexDigit 0 (by decide), plain_hexDigit 0 (by decide),
      plain_hexDigit _ (Nat.div_lt_of_lt_mul hc), plain_hexDigit _ (Nat.mod_lt _ (by decide))⟩
  case case8 => exact fun h => nomatch h
  all_goals
    rintro ⟨⟩
    exact ⟨_, [], rfl, by decide, fun x hx => nomatch hx⟩

theorem fits_escape (hrun : run ≤ bif multiline then 2 else 0) :
    Fits '"' true (bif multiline then 2 else 0) run (escape multiline run cs) := by
  fun_induction escape multiline run cs with
  | case1 => exact .nil hrun
  | case2 run c cs h ih =>
    obtain ⟨⟨rfl, -⟩, hlt⟩ : (multiline = true ∧ c = '"') ∧ run < 2 := by simpa using h
    exact .mark (ih (Nat.succ_le_of_lt hlt))
  | case3 run c cs h h' ih =>
    exact .other hrun (by decide) (fun _ => by decide) (ih (Nat.zero_le _))
  | case4 run c cs h h' ih =>
    have ih := ih (Nat.zero_le _)
    cases e : escapeOf? c with
    | none =>
      obtain ⟨-, hslash, hquote⟩ := isPlain_of_escapeOf e
      exact .other hrun hquote (fun _ => hslash) ih
    | some front =>
      obtain ⟨d, tail, rfl, -, htail⟩ := exists_of_escapeOf e
      exact .escape hrun rfl (ih.append_other fun x hx => ⟨(htail x hx).2.1, fun _ => (htail x hx).2.2⟩)

theorem isPlain_of_mem_escapeOf {d : Char} (h : d ∈ (escapeOf? c).getD [c]) : isPlain d = true := by
  cases e : escapeOf? c with
  | none =>
    rw [e, Option.getD_none, List.mem_singleton] at h
    exact h ▸ (isPlain_of_escapeOf e).1
  | some front =>
    obtain ⟨x, tail, rfl, hx, htail⟩ := exists_of_escapeOf e
    rw [e, Option.getD_some] at h
    obtain rfl | h := List.mem_cons.1 h
    · decide
    obtain rfl | h := List.mem_cons.1 h
    · exact hx
    · exact (htail d h).1

/-- An escaped text is plain but for line breaks that stand for themselves. -/
theorem plain_of_mem_escape {d : Char} (h : d ∈ escape multiline run cs) :
    isPlain d = true ∨ d = '\n' ∧ multiline = true ∧ '\n' ∈ cs := by
  fun_induction escape multiline run cs with
  | case1 => cases h
  | case2 run c cs _ ih =>
    obtain rfl | h := List.mem_cons.1 h
    · exact .inl (by decide)
    · exact (ih h).imp_right (.imp_right (.imp_right (List.mem_cons_of_mem _)))
  | case3 run c cs _ h' ih =>
    obtain ⟨hlines, rfl⟩ : multiline = true ∧ c = '\n' := by simpa using h'
    obtain rfl | h := List.mem_cons.1 h
    · exact .inr ⟨rfl, hlines, List.mem_cons_self⟩
    · exact (ih h).imp_right (.imp_right (.imp_right (List.mem_cons_of_mem _)))
  | case4 run c cs _ _ ih =>
    obtain h | h := List.mem_append.1 h
    · exact .inl (isPlain_of_mem_escapeOf h)
    · exact (ih h).imp_right (.imp_right (.imp_right (List.mem_cons_of_mem _)))

/-- What stands between the quotes of a style for the characters of a string. -/
structure QuoteStyle.IsBody (style : QuoteStyle) (cs body : List Char) : Prop where
  mark : style.mark = '"' ∨ style.mark = '\''
  fits : Fits style.mark (style.mark == '"') (bif style.multiline then 2 else 0) 0 body
  plain : ∀ c ∈ body, isPlain c = true ∨ c = '\n' ∧ style.multiline = true ∧ '\n' ∈ cs
  content : content? style.mark style.multiline body = some (String.ofList cs)

theorem isBody_escape (multiline : Bool) (cs : List Char) :
    (⟨'"', multiline⟩ : QuoteStyle).IsBody cs (escape multiline 0 cs) where
  mark := .inl rfl
  fits := fits_escape (Nat.zero_le _)
  plain _ := plain_of_mem_escape
  content := by rw [content?, if_pos rfl, unescape?_escape, Option.map_some]

theorem isBody_literal (hbare : cs.any needsEscape = false) (hlines : '\n' ∈ cs → multiline = true)
    (hfits : Fits '\'' false (bif multiline then 2 else 0) 0 cs) :
    (⟨'\'', multiline⟩ : QuoteStyle).IsBody cs cs := by
  have hplain : ∀ c ∈ cs, isPlain c = true ∨ c = '\n' ∧ multiline = true ∧ '\n' ∈ cs := by
    intro c hc
    have hescape : needsEscape c = false := Bool.eq_false_iff.2 (List.any_eq_false.1 hbare c hc)
    simp only [needsEscape, Bool.and_eq_false_iff, Bool.not_eq_false', bne_eq_false_iff_eq] at hescape
    refine hescape.imp_right ?_
    rintro rfl
    exact ⟨rfl, hlines hc, hc⟩
  refine ⟨.inr rfl, hfits, hplain, ?_⟩
  rw [content?, if_neg (by decide : '\'' ≠ '"'), if_pos]
  refine List.all_eq_true.2 fun c hc => ?_
  obtain h | ⟨rfl, h, -⟩ := hplain c hc <;> simp [h]

theorem lineFeeds?_of_forall (h : ∀ c ∈ cs, c ≠ '\r') : lineFeeds? cs = some cs := by
  induction cs with
  | nil => rfl
  | cons c cs ih =>
    obtain ⟨hc, htail⟩ := List.forall_mem_cons.1 h
    rw [lineFeeds?.eq_3 _ _ (fun ds h _ => hc h), if_neg hc, ih htail, Option.map_some]

end Bodies

/-! ## Whole strings -/

section Strings

variable {style : QuoteStyle} {mark : Char} {cs body rest : List Char}

theorem QuoteStyle.IsBody.ne_slash (h : style.IsBody cs body) : style.mark ≠ '\\' := by
  obtain h | h := h.mark <;> rw [h] <;> decide

theorem readString?_line (h : (⟨mark, false⟩ : QuoteStyle).IsBody cs body)
    (hrest : rest.head? ≠ some mark) :
    readString? (mark :: (body ++ mark :: rest)) = some (String.ofList cs, rest) := by
  -- Two quotes at the front are all of an empty string, and no third one follows them.
  have hmarks (ds : List Char) : body ++ mark :: rest ≠ mark :: mark :: ds := by
    intro he
    cases body with
    | nil =>
      rw [List.nil_append, List.cons.injEq] at he
      exact hrest (by rw [he.2]; rfl)
    | cons c body => exact h.fits.head_ne h.ne_slash (List.cons.inj he).1
  rw [readString?]
  · rw [readLine?, if_pos (by simpa using h.mark), untilQuote?_of_fits h.ne_slash h.fits]
    simp [h.content]
  all_goals
    intro ds he
    obtain ⟨rfl, he⟩ := List.cons.inj he
    exact hmarks ds he

theorem readString?_lines (h : (⟨mark, true⟩ : QuoteStyle).IsBody cs body)
    (hrest : rest.head? ≠ some mark) :
    readString? (mark :: mark :: mark :: ((if '\n' ∈ cs then ['\n'] else []) ++ body ++
      mark :: mark :: mark :: rest)) = some (String.ofList cs, rest) := by
  have hmark : mark = '"' ∨ mark = '\'' := h.mark
  have hread (ds : List Char) : readString? (mark :: mark :: mark :: ds) = readLines? mark ds := by
    obtain rfl | rfl := hmark <;> rfl
  have hcontent : content? mark true body = some (String.ofList cs) := h.content
  have hbreaks {c : Char} (hc : c ∈ body) (hplain : isPlain c = false) : c = '\n' ∧ '\n' ∈ cs := by
    obtain h | ⟨hbreak, -, hmem⟩ := h.plain c hc
    · rw [hplain] at h
      cases h
    · exact ⟨hbreak, hmem⟩
  generalize hgap : (if '\n' ∈ cs then ['\n'] else []) = gap
  have hfits : Fits mark (mark == '"') 2 0 (gap ++ body) := by
    rw [← hgap]
    split
    · refine .other (Nat.zero_le _) ?_ (fun _ => by decide) h.fits
      obtain rfl | rfl := hmark <;> decide
    · exact h.fits
  have hfeeds : lineFeeds? (gap ++ body) = some (gap ++ body) := by
    refine lineFeeds?_of_forall fun c hc => ?_
    rintro rfl
    obtain hc | hc := List.mem_append.1 hc
    · rw [← hgap] at hc
      split at hc <;> simp at hc
    · exact absurd (hbreaks hc (by decide)).1 (by decide)
  -- Without a gap there is no line break in the text, and so none at its front.
  have hbody : (if (gap ++ body).head? == some '\n' then (gap ++ body).drop 1 else gap ++ body) =
      body := by
    rw [← hgap]
    split
    · rfl
    · rename_i hnone
      refine if_neg fun hhead => hnone ?_
      have hc : '\n' ∈ body := List.mem_of_head? (by simpa using hhead)
      exact (hbreaks hc (by decide)).2
  have huntil : untilTripleQuote? mark (mark == '"')
      (gap ++ body ++ mark :: mark :: mark :: rest) = some (gap ++ body, rest) :=
    untilTripleQuote?_of_fits h.ne_slash hfits hrest
  rw [hread, readLines?, huntil]
  simp only [Option.bind_eq_bind, Option.bind_some, hfeeds, hbody, hcontent]
  rfl

theorem readString?_write
    (h : style.IsBody cs (if style.mark = '"' then escape style.multiline 0 cs else cs))
    (hrest : rest.head? ≠ some style.mark) :
    readString? (style.write cs ++ rest) = some (String.ofList cs, rest) := by
  obtain ⟨mark, multiline⟩ := style
  cases multiline with
  | false => simpa [QuoteStyle.write] using readString?_line h hrest
  | true => simpa [QuoteStyle.write, List.replicate] using readString?_lines h hrest

theorem isBody_of (cs : List Char) :
    (QuoteStyle.of cs).IsBody cs
      (if (QuoteStyle.of cs).mark = '"' then escape (QuoteStyle.of cs).multiline 0 cs else cs) := by
  -- In double quotes all that needs an escape has one; single ones are chosen where nothing does.
  unfold QuoteStyle.of
  extract_lets bare oneLine
  split
  · exact isBody_escape _ cs
  split
  · rename_i h
    obtain ⟨⟨hbare, hline⟩, hmark⟩ : (bare = true ∧ oneLine = true) ∧ '\'' ∉ cs := by simpa using h
    have hline : '\n' ∉ cs := by simpa [oneLine] using hline
    have hfits : Fits '\'' false 0 0 (cs ++ []) :=
      (Fits.nil (Nat.zero_le _)).append_other fun c hc =>
        ⟨fun he => hmark (he ▸ hc), fun he => nomatch he⟩
    rw [List.append_nil] at hfits
    exact isBody_literal (by simpa [bare] using hbare) (fun hc => absurd hc hline) hfits
  split
  · exact isBody_escape _ cs
  split
  · rename_i h
    obtain ⟨hbare, hrun⟩ : bare = true ∧ longestRun '\'' 0 cs ≤ 2 := by simpa using h
    exact isBody_literal (by simpa [bare] using hbare) (fun _ => rfl) (fits_of_longestRun hrun)
  · exact isBody_escape _ cs

theorem exists_quoted (s : String) :
    ∃ mark cs, quoted s = mark :: cs ∧ (mark = '"' ∨ mark = '\'') := by
  have hmark := (isBody_of s.toList).mark
  rw [quoted]
  generalize QuoteStyle.of s.toList = style at hmark
  obtain ⟨mark, multiline⟩ := style
  cases multiline <;> exact ⟨mark, _, rfl, hmark⟩

theorem readString?_quoted (s : String) (hrest : ∀ c ∈ rest.head?, c ≠ '"' ∧ c ≠ '\'') :
    readString? (quoted s ++ rest) = some (s, rest) := by
  have hbody := isBody_of s.toList
  have hmark : rest.head? ≠ some (QuoteStyle.of s.toList).mark := by
    intro h
    obtain hm | hm := hbody.mark
    · exact (hrest _ h).1 hm
    · exact (hrest _ h).2 hm
  rw [quoted, readString?_write hbody hmark, String.ofList_toList]

end Strings

end ShaderAssembly.Toml
