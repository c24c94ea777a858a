import ShaderAssembly.Proofs.Comparison.Step
import ShaderAssembly.Statement.Binding
import ShaderAssembly.Statement.Selector
/-!
# Scans side by side

Two scans of one kind read the same from texts that are alike: subscripts, constants, selectors and
bindings.
-/

namespace ShaderAssembly.Scan

variable {Γ : Comparison}

/-! ## Subscripts -/

theorem integer_follows (wanted : String) :
    Follows Γ (integer wanted) (integer wanted) Γ.Located := by
  refine next_follows.bind fun t t' h => ?_
  rw [h.kind]
  split
  · exact .of_pure ⟨rfl, h.place⟩
  · exact .of_unexpected h

theorem index_follows : Follows Γ index index Γ.Located := by
  refine (expect_follows _ _).bindEq fun _ => (integer_follows _).bind fun n n' h => ?_
  exact (expect_follows _ _).bindEq fun _ => .of_pure h

theorem index?_follows : Follows Γ index? index? (Option.Rel Γ.Located) := by
  refine peek_follows.bind fun t t' h => ?_
  rw [h.kind]
  split
  · exact index_follows.bind fun n n' hn => .of_pure (.some hn)
  · exact .of_pure .none

theorem range_follows : Follows Γ range range Γ.Located := by
  refine (expect_follows _ _).bindEq fun _ => (integer_follows _).bind fun start start' hs => ?_
  refine next_follows.bind fun t t' h => ?_
  rw [h.kind]
  split
  · exact .of_pure ⟨by rw [hs.1], hs.2⟩
  · refine (integer_follows _).bind fun stop stop' he => (expect_follows _ _).bindEq fun _ => ?_
    rw [← hs.1, ← he.1]
    exact .check rfl hs.2 (.of_pure ⟨rfl, hs.2⟩)
  · exact .of_unexpected h

/-- A check against a limit, which the second reading passes if the first one does. -/
theorem below_follows {limit limit' : Nat} (hle : limit ≤ limit')
    (heq : Γ.limits = Γ.limits' → limit = limit') (what : String) {n n' : Located Nat}
    (h : Γ.Located n n') : Follows Γ (below limit what n) (below limit' what n') Eq := by
  unfold below
  rw [← h.1]
  by_cases hn : limit ≤ n.value
  · rw [if_pos hn]
    intro c c' hc hl
    obtain rfl := heq hl
    rw [if_pos hn]
    exact ⟨_, c', rfl, rfl, h.2⟩
  · rw [if_neg hn, if_neg fun hn' => hn (Nat.le_trans hle hn')]
    exact .of_eq ()

/-! ## Constants -/

theorem number_follows {first first' : Token} (h : Γ.Alike first first') :
    Follows Γ (number first) (number first') Eq := by
  have hn : first'.number? = first.number? := by simp only [Token.number?, h.kind]
  unfold number
  rw [hn]
  split
  · exact .of_unexpected h
  · split
    · exact .of_eq _
    · exact .of_refuse (fun _ => rfl) h.place

theorem signedNumber_follows {first first' : Token} (h : Γ.Alike first first') :
    Follows Γ (signedNumber first) (signedNumber first') Eq := by
  unfold signedNumber
  rw [h.kind]
  split
  · exact next_follows.bind fun t t' ht => (number_follows ht).bindEq fun v => .of_eq _
  · exact next_follows.bind fun t t' ht => number_follows ht
  · exact number_follows h

theorem components_follows (room : Nat) :
    Follows Γ (components room) (components room) Eq := by
  induction room with
  | zero => exact next_follows.bind fun t t' ht => .of_unexpected ht
  | succ room ih =>
    refine next_follows.bind fun first first' h => (signedNumber_follows h).bindEq fun v => ?_
    refine next_follows.bind fun t t' ht => ?_
    rw [ht.kind]
    split
    · exact ih.bindEq fun vs => .of_eq _
    · exact .of_eq _
    · exact .of_unexpected ht

theorem vector_follows : Follows Γ vector vector Eq :=
  (components_follows 4).bindEq fun _ => .of_eq _

/-! ## Selectors -/

variable (kind : ProgramKind)

theorem selector?_follows : Follows Γ (selector? kind) (selector? kind)
    (Option.Rel fun s s' => Γ.Alike s.1 s'.1 ∧ s.2 = s'.2) := by
  refine peek_follows.bind fun point point' hp => ?_
  rw [hp.kind]
  split
  · exact .of_pure .none
  refine next_follows.bind fun _ _ _ => next_follows.bind fun t t' h => ?_
  rw [h.text]
  split
  · exact .of_pure (.some ⟨h, rfl⟩)
  · exact .of_refuse (fun _ => rfl) h.place

theorem swizzle_follows : Follows Γ (swizzle kind) (swizzle kind) Eq := by
  refine (selector?_follows kind).bind fun s s' h => ?_
  cases h with
  | none => exact .of_eq _
  | some h =>
    obtain ⟨ht, hcs⟩ := h
    dsimp only
    rw [← hcs]
    split
    · exact .of_eq _
    · exact .of_refuse (fun _ => by rw [ht.text]) ht.place

theorem mask_follows : Follows Γ (mask kind) (mask kind) Eq := by
  refine (selector?_follows kind).bind fun s s' h => ?_
  cases h with
  | none => exact .of_eq _
  | some h =>
    obtain ⟨ht, hcs⟩ := h
    dsimp only
    rw [← hcs]
    split
    · exact .of_eq _
    · exact .of_refuse (fun _ => by rw [ht.text]) ht.place

theorem selection_follows {t t' : Token} (h : Γ.Alike t t') :
    Follows Γ (selection kind t) (selection kind t') Eq := by
  unfold selection
  rw [h.kind, h.text]
  split
  · exact .of_eq _
  · exact .of_eq _
  · split
    · split
      · exact .of_eq _
      · exact .of_unexpected h
    · exact .of_unexpected h
  · exact .of_unexpected h

theorem signedSelection_follows :
    Follows Γ (signedSelection kind) (signedSelection kind) Eq := by
  refine (expect_follows _ _).bindEq fun _ => next_follows.bind fun t t' h => ?_
  rw [h.kind]
  split
  · refine next_follows.bind fun u u' hu => ?_
    exact (selection_follows kind hu).bindEq fun _ => .of_eq _
  · refine next_follows.bind fun u u' hu => ?_
    exact (selection_follows kind hu).bindEq fun _ => .of_eq _
  · exact (selection_follows kind h).bindEq fun _ => .of_eq _

theorem extendedSwizzle_follows :
    Follows Γ (extendedSwizzle kind) (extendedSwizzle kind) Eq := by
  refine (signedSelection_follows kind).bindEq fun x => ?_
  refine (signedSelection_follows kind).bindEq fun y => ?_
  refine (signedSelection_follows kind).bindEq fun z => ?_
  exact (signedSelection_follows kind).bindEq fun w => .of_eq _

/-! ## Attributes and results -/

theorem colorSet_follows : Follows Γ colorSet colorSet Eq :=
  (suffix?_follows _).bindEq fun _ => .of_eq _

theorem face_follows : Follows Γ face face Eq :=
  (suffix?_follows _).bindEq fun _ => .of_eq _

theorem texCoord_follows {name name' : Token} (h : Γ.Alike name name') :
    Follows Γ (texCoord Γ.limits name) (texCoord Γ.limits' name') Eq := by
  refine index?_follows.bind fun n n' hn => ?_
  have hn : Γ.Located (n.getD ⟨0, name.offset⟩) (n'.getD ⟨0, name'.offset⟩) := by
    cases hn with
    | none => exact ⟨rfl, h.place⟩
    | some hn => exact hn
  refine (below_follows Γ.le.maxTextureCoords (fun e => by rw [e]) _ hn).bindEq fun _ => ?_
  exact .of_pure hn.1

theorem inputBinding_follows {root root' : Token} (h : Γ.Alike root root') :
    Follows Γ (inputBinding kind Γ.limits root) (inputBinding kind Γ.limits' root') Eq := by
  unfold inputBinding
  rw [h.text]
  refine .check rfl h.place ((expect_follows _ _).bindEq fun _ => ?_)
  refine (word_follows _).bind fun name name' hname => ?_
  rw [hname.text]
  split
  case h_4 | h_9 => exact colorSet_follows.bindEq fun _ => .of_eq _
  case h_5 | h_10 => exact (texCoord_follows hname).bindEq fun _ => .of_eq _
  case h_6 =>
    refine index_follows.bind fun n n' hn => ?_
    rw [← hn.1]
    split
    · exact .of_eq _
    · exact .of_refuse (fun _ => rfl) hn.2
  case h_11 => exact .of_refuse (fun _ => rfl) hname.place
  all_goals exact .of_eq _

theorem outputBinding_follows :
    Follows Γ (outputBinding kind Γ.limits) (outputBinding kind Γ.limits') Eq := by
  refine (expect_follows _ _).bindEq fun _ => (word_follows _).bind fun name name' h => ?_
  rw [h.text]
  split
  case h_4 => exact (texCoord_follows h).bindEq fun _ => .of_eq _
  case h_5 => exact face_follows.bindEq fun _ => colorSet_follows.bindEq fun _ => .of_eq _
  case h_8 => exact .of_refuse (fun _ => rfl) h.place
  all_goals exact .of_eq _

/-! ## State of the fixed pipeline -/

theorem materialProperty_follows : Follows Γ materialProperty materialProperty Eq := by
  refine (word_follows _).bind fun name name' h => ?_
  rw [h.text]
  split
  case h_6 => exact .of_unexpected h
  all_goals exact .of_eq _

theorem productProperty_follows : Follows Γ productProperty productProperty Eq := by
  refine (word_follows _).bind fun name name' h => ?_
  rw [h.text]
  split
  case h_4 => exact .of_unexpected h
  all_goals exact .of_eq _

/-- The number of something of which there are always as many. -/
theorem count_follows (count : Nat) (what : String) {n n' : Located Nat} (h : Γ.Located n n') :
    Follows Γ (below count what n) (below count what n') Eq :=
  below_follows (Nat.le_refl _) (fun _ => rfl) what h

theorem lightIndex_follows : Follows Γ lightIndex lightIndex Eq :=
  index_follows.bind fun _ _ h => (count_follows _ _ h).bindEq fun _ => .of_pure h.1

theorem lightProperty_follows : Follows Γ lightProperty lightProperty Eq := by
  refine (word_follows _).bind fun name name' h => ?_
  rw [h.text]
  split
  case h_6 =>
    exact (expect_follows _ _).bindEq fun _ => (keyword_follows _).bindEq fun _ => .of_eq _
  case h_8 => exact .of_unexpected h
  all_goals exact .of_eq _

theorem coordUnit_follows (what : String) :
    Follows Γ (coordUnit Γ.limits what) (coordUnit Γ.limits' what) Eq := by
  refine index?_follows.bind fun n n' h => ?_
  cases h with
  | none => exact .of_eq _
  | some h =>
    refine (below_follows Γ.le.maxTextureCoords (fun e => by rw [e]) _ h).bindEq fun _ => ?_
    exact .of_pure h.1

theorem matrixName_follows :
    Follows Γ (matrixName Γ.limits) (matrixName Γ.limits') Eq := by
  refine (word_follows _).bind fun name name' h => ?_
  rw [h.text]
  split
  case h_1 =>
    refine index?_follows.bind fun n n' hn => ?_
    cases hn with
    | none => exact .of_eq _
    | some hn =>
      dsimp only
      rw [← hn.1]
      split
      · exact .of_eq _
      · exact .of_refuse (fun _ => rfl) hn.2
  case h_4 => exact (coordUnit_follows _).bindEq fun _ => .of_eq _
  case h_5 => exact .of_refuse (fun _ => rfl) h.place
  all_goals exact .of_eq _

theorem matrixModifier_follows : Follows Γ matrixModifier matrixModifier Eq := by
  refine (suffix?_follows _).bindEq fun modifier => ?_
  split <;> exact .of_eq _

theorem matrixRows_follows : Follows Γ matrixRows matrixRows Eq := by
  refine (suffix?_follows _).bindEq fun row => ?_
  split
  · exact .of_eq _
  · refine range_follows.bind fun rows rows' h => ?_
    refine (count_follows _ _ ⟨by rw [h.1], h.2⟩).bindEq fun _ => .of_pure h.1

theorem matrixBinding_follows :
    Follows Γ (matrixBinding Γ.limits) (matrixBinding Γ.limits') Eq := by
  refine (expect_follows _ _).bindEq fun _ => matrixName_follows.bindEq fun matrix => ?_
  exact matrixModifier_follows.bindEq fun modifier => matrixRows_follows.bindEq fun rows => .of_eq _

theorem stateBinding_follows :
    Follows Γ (stateBinding Γ.limits) (stateBinding Γ.limits') Eq := by
  have dot : Follows Γ (expect .dot "'.'") (expect .dot "'.'") Eq := expect_follows _ _
  have final (text : String) (b : StateBinding) : Follows Γ (do
      expect .dot "'.'"
      keyword text
      return [b]) (do
      expect .dot "'.'"
      keyword text
      return [b]) Eq :=
    dot.bindEq fun _ => (keyword_follows text).bindEq fun _ => .of_eq _
  refine dot.bindEq fun _ => (word_follows _).bind fun group group' h => ?_
  rw [h.text]
  split
  · exact matrixBinding_follows
  · refine face_follows.bindEq fun side => dot.bindEq fun _ => ?_
    exact materialProperty_follows.bindEq fun _ => .of_eq _
  · refine lightIndex_follows.bindEq fun light => dot.bindEq fun _ => ?_
    exact lightProperty_follows.bindEq fun _ => .of_eq _
  · refine dot.bindEq fun _ => (word_follows _).bind fun name name' hname => ?_
    rw [hname.text]
    split
    · exact .of_eq _
    · exact .of_eq _
    · exact final _ _
    · exact final _ _
    · exact .of_unexpected hname
  · refine lightIndex_follows.bindEq fun light => face_follows.bindEq fun side => ?_
    exact dot.bindEq fun _ => productProperty_follows.bindEq fun _ => .of_eq _
  · refine dot.bindEq fun _ => (word_follows _).bind fun name name' hname => ?_
    rw [hname.text]
    split
    · exact .of_eq _
    · exact .of_eq _
    · exact .of_unexpected hname
  · refine index_follows.bind fun n n' hn => (count_follows _ _ hn).bindEq fun _ => ?_
    rw [← hn.1]
    exact final _ _
  · refine dot.bindEq fun _ => (word_follows _).bind fun name name' hname => ?_
    rw [hname.text]
    split
    · exact .of_eq _
    · exact .of_eq _
    · exact .of_unexpected hname
  · exact (coordUnit_follows _).bindEq fun unit => final _ _
  · exact final _ _
  · exact .of_refuse (fun _ => rfl) h.place

/-! ## Parameters -/

theorem bankBinding_follows {root root' : Token} (h : Γ.Alike root root') (multiple : Bool) :
    Follows Γ (bankBinding Γ.limits root multiple) (bankBinding Γ.limits' root' multiple) Eq := by
  have places (place : Nat → ParamBinding) (bank : String) {limit limit' : Nat}
      (hle : limit ≤ limit') (heq : Γ.limits = Γ.limits' → limit = limit') :
      Follows Γ (do
        let places ← range
        if !multiple && places.value.1 != places.value.2 then
          refuse .bankRangeOutsideArray root.offset
        if limit ≤ places.value.2 then
          refuse (.bankLimit bank places.value.2 limit) places.offset
        return (span places.value.1 places.value.2).map place) (do
        let places ← range
        if !multiple && places.value.1 != places.value.2 then
          refuse .bankRangeOutsideArray root'.offset
        if limit' ≤ places.value.2 then
          refuse (.bankLimit bank places.value.2 limit') places.offset
        return (span places.value.1 places.value.2).map place) Eq := by
    refine range_follows.bind fun places places' hp => ?_
    rw [← hp.1]
    refine .check rfl h.place (.guard (Nat.le_trans hle) (fun e hl => ?_) hp.2 (.of_eq _))
    rw [← heq e]
    exact ⟨hl, rfl⟩
  refine (expect_follows _ _).bindEq fun _ => (word_follows _).bind fun bank bank' hbank => ?_
  rw [hbank.text]
  dsimp only
  split
  · exact places .env _ Γ.le.maxEnvParams fun e => by rw [e]
  · exact places .localParam _ Γ.le.maxLocalParams fun e => by rw [e]
  · exact (Follows.of_unexpected hbank).bind (R := fun _ _ => False) fun _ _ h => h.elim

theorem paramItem_follows {first first' : Token} (h : Γ.Alike first first') (multiple : Bool) :
    Follows Γ (paramItem Γ.limits first multiple) (paramItem Γ.limits' first' multiple) Eq := by
  unfold paramItem
  rw [h.kind, h.text]
  split
  case h_1 => exact vector_follows.bindEq fun _ => .of_eq _
  case h_6 =>
    split
    · refine stateBinding_follows.bindEq fun items => .check rfl h.place (.of_eq _)
    · exact bankBinding_follows h multiple
    · exact .of_unexpected h
  case h_7 => exact .of_unexpected h
  all_goals exact (signedNumber_follows h).bindEq fun _ => .of_eq _

theorem singleParam_follows {first first' : Token} (h : Γ.Alike first first') :
    Follows Γ (singleParam Γ.limits first) (singleParam Γ.limits' first') Eq := by
  refine (paramItem_follows h false).bindEq fun items => ?_
  split
  · exact .of_eq _
  · exact .of_refuse (fun _ => rfl) h.place

theorem paramItemsWithin_follows (bound : Nat) :
    Follows Γ (paramItemsWithin Γ.limits bound) (paramItemsWithin Γ.limits' bound) Eq := by
  induction bound with
  | zero => exact next_follows.bind fun _ _ h => .of_unexpected h
  | succ bound ih =>
    refine next_follows.bind fun _ _ hf => (paramItem_follows hf true).bindEq fun items => ?_
    refine next_follows.bind fun t t' h => ?_
    rw [h.kind]
    split
    · exact ih.bindEq fun _ => .of_eq _
    · exact .of_eq _
    · exact .of_unexpected h

/-- Texts that are alike have as many tokens, so as many rounds are allowed. -/
theorem paramItems_follows :
    Follows Γ (paramItems Γ.limits) (paramItems Γ.limits') Eq := by
  intro c c' hc
  have h := paramItemsWithin_follows (Γ := Γ) (c.rest.length + 1) c c' hc
  rw [show paramItems Γ.limits' c' = paramItemsWithin Γ.limits' (c.rest.length + 1) c' by
    rw [hc.rest.length_eq]; rfl]
  exact h

end ShaderAssembly.Scan
