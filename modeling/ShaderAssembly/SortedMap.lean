import ShaderAssembly.KeyOrder
/-!
# Maps in key order

A finite map kept as its entries in increasing order of the keys, so that maps with the same entries
are the same value and need no further order to be written out.

* `SortedMap.get?`: the value of a key;
* `SortedMap.insert`: adds an entry in place of the one with the same key, if any;
* `SortedMap.get?_insert`: what an insertion does to the values;
* `SortedMap.get?_ofList`: the values of a map given by a list;
* `SortedMap.ext_get?`: maps with the same values are the same.
-/

namespace ShaderAssembly

/-- A finite map as a list of entries with increasing keys. -/
structure SortedMap (κ : Type) (ν : Type) [LT κ] where
  entries : List (κ × ν) := []
  sorted : entries.Pairwise (fun e e' => e.1 < e'.1) := by exact List.Pairwise.nil
deriving DecidableEq

namespace SortedMap

variable {κ ν : Type} [LT κ]

/-- The map with no entries. -/
def empty : SortedMap κ ν := {}

instance : Inhabited (SortedMap κ ν) := ⟨empty⟩

/-- The entries, by increasing key. -/
def toList (m : SortedMap κ ν) : List (κ × ν) := m.entries

/-- The number of entries. -/
def size (m : SortedMap κ ν) : Nat := m.entries.length

/-- The values, by increasing key. -/
def values (m : SortedMap κ ν) : List ν := m.entries.map (·.2)

/-! ## Reading -/

section Search

variable [DecidableEq κ]

/-- The value that a list of entries holds for a key. -/
def find? (k : κ) : List (κ × ν) → Option ν
  | [] => none
  | (k', v) :: es => if k' = k then some v else find? k es

omit [LT κ] in
theorem find?_eq_lookup (k : κ) (es : List (κ × ν)) : find? k es = es.lookup k := by
  induction es with
  | nil => rfl
  | cons e es ih =>
    rw [find?, List.lookup_cons, ih]
    by_cases h : e.1 = k
    · simp [h]
    · simp [h, beq_eq_false_iff_ne.2 (Ne.symm h)]

/-- The value of a key. -/
def get? (m : SortedMap κ ν) (k : κ) : Option ν := find? k m.entries

/-- A value that is found is that of an entry. -/
theorem mem_of_get? {m : SortedMap κ ν} {k : κ} {v : ν} (h : m.get? k = some v) :
    (k, v) ∈ m.toList := by
  rw [get?] at h
  rw [toList]
  generalize m.entries = es at h ⊢
  induction es with
  | nil => cases h
  | cons e es ih =>
    rw [find?] at h
    split at h
    · rename_i hk
      cases h
      subst hk
      exact List.mem_cons_self
    · exact List.mem_cons_of_mem _ (ih h)

end Search

/-! ## Equality -/

section Equality

variable [DecidableEq κ] [KeyOrder κ]

theorem find?_eq_none {k : κ} {es : List (κ × ν)} (h : ∀ e ∈ es, k < e.1) : find? k es = none := by
  induction es with
  | nil => rfl
  | cons e es ih =>
    have hne : e.1 ≠ k := fun he => KeyOrder.ne_of_lt (h e List.mem_cons_self) he.symm
    rw [find?, if_neg hne, ih fun e' h' => h e' (List.mem_cons_of_mem _ h')]

/-- No key stands in two entries of a map, so the last entry with a key is the first one. -/
theorem lookup_reverse {es : List (κ × ν)} (h : es.Pairwise fun e e' => e.1 < e'.1) (k : κ) :
    es.reverse.lookup k = find? k es := by
  induction es with
  | nil => rfl
  | cons e es ih =>
    obtain ⟨he, hs⟩ := List.pairwise_cons.1 h
    rw [List.reverse_cons, List.lookup_append, ih hs, ← find?_eq_lookup k [e]]
    simp only [find?]
    split
    · rename_i hk
      rw [find?_eq_none fun e' h' => hk ▸ he e' h', Option.none_or]
    · exact Option.or_none

theorem eq_of_find?_eq : ∀ {es es' : List (κ × ν)}, es.Pairwise (fun e e' => e.1 < e'.1) →
    es'.Pairwise (fun e e' => e.1 < e'.1) → (∀ k, find? k es = find? k es') → es = es'
  | [], [], _, _, _ => rfl
  | [], e :: _, _, _, h => by simpa [find?] using h e.1
  | e :: _, [], _, _, h => by simpa [find?] using h e.1
  | (k, v) :: es, (k', v') :: es', hs, hs', h => by
    obtain ⟨he, hr⟩ := List.pairwise_cons.1 hs
    obtain ⟨he', hr'⟩ := List.pairwise_cons.1 hs'
    have hk : k = k' := by
      by_cases hne : k = k'
      · exact hne
      · by_cases hlt : k < k'
        · have hn : find? k es' = none :=
            find?_eq_none fun e h' => KeyOrder.trans hlt (he' e h')
          simpa [find?, Ne.symm hne, hn] using h k
        · have hn : find? k' es = none :=
            find?_eq_none fun e h' => KeyOrder.trans (KeyOrder.connected hlt hne) (he e h')
          simpa [find?, hne, hn] using h k'
    subst hk
    have hv : v = v' := by simpa [find?] using h k
    subst hv
    have ht : ∀ j, find? j es = find? j es' := fun j => by
      by_cases hj : k = j
      · subst hj
        rw [find?_eq_none he, find?_eq_none he']
      · simpa [find?, hj] using h j
    rw [eq_of_find?_eq hr hr' ht]

/-- The value of an entry is found by its key, since no other entry has the key. -/
theorem get?_of_mem {m : SortedMap κ ν} {e : κ × ν} (h : e ∈ m.toList) : m.get? e.1 = some e.2 := by
  obtain ⟨es, hs⟩ := m
  rw [get?]
  dsimp only [toList] at h ⊢
  induction es with
  | nil => cases h
  | cons e' es ih =>
    obtain ⟨hfirst, hrest⟩ := List.pairwise_cons.1 hs
    rw [find?]
    obtain rfl | h := List.mem_cons.1 h
    · rw [if_pos rfl]
    · rw [if_neg (KeyOrder.ne_of_lt (hfirst e h)), ih hrest h]

omit [DecidableEq κ] in
theorem nodup_toList (m : SortedMap κ ν) : m.toList.Nodup :=
  m.sorted.imp fun hlt he => KeyOrder.ne_of_lt hlt (congrArg Prod.fst he)

/-- Maps with the same values are the same. -/
theorem ext_get? {m m' : SortedMap κ ν} (h : ∀ k, m.get? k = m'.get? k) : m = m' := by
  obtain ⟨es, hs⟩ := m
  obtain ⟨es', hs'⟩ := m'
  cases eq_of_find?_eq hs hs' h
  rfl

end Equality

/-! ## Writing -/

section Insert

variable [DecidableLT κ] [DecidableEq κ]

/-- Puts an entry in front of the first greater key, or in place of the entry with the same key. -/
def put (k : κ) (v : ν) : List (κ × ν) → List (κ × ν)
  | [] => [(k, v)]
  | (k', v') :: es =>
    if k < k' then (k, v) :: (k', v') :: es
    else if k' = k then (k, v) :: es
    else (k', v') :: put k v es

theorem mem_put {k : κ} {v : ν} {es : List (κ × ν)} {e : κ × ν} (h : e ∈ put k v es) :
    e = (k, v) ∨ e ∈ es := by
  induction es with
  | nil => exact .inl (List.mem_singleton.1 h)
  | cons e' es ih =>
    simp only [put] at h
    split at h
    · exact List.mem_cons.1 h
    split at h
    · exact (List.mem_cons.1 h).imp_right fun h => List.mem_cons_of_mem _ h
    · rcases List.mem_cons.1 h with rfl | h
      · exact .inr List.mem_cons_self
      · exact (ih h).imp_right fun h => List.mem_cons_of_mem _ h

theorem find?_put (k k' : κ) (v : ν) (es : List (κ × ν)) :
    find? k' (put k v es) = if k = k' then some v else find? k' es := by
  induction es with
  | nil => rfl
  | cons e es ih =>
    simp only [put]
    split
    · rfl
    split
    · rename_i _ he
      subst he
      simp only [find?]
      split <;> rfl
    · rename_i _ he
      simp only [find?, ih]
      split
      · rename_i he'
        rw [if_neg fun h => he (he'.trans h.symm)]
      · rfl

variable [KeyOrder κ]

theorem sorted_put (k : κ) (v : ν) {es : List (κ × ν)}
    (h : es.Pairwise fun e e' => e.1 < e'.1) :
    (put k v es).Pairwise fun e e' => e.1 < e'.1 := by
  induction es with
  | nil => exact List.pairwise_singleton _ _
  | cons e es ih =>
    obtain ⟨he, hs⟩ := List.pairwise_cons.1 h
    simp only [put]
    split
    · rename_i hlt
      refine List.pairwise_cons.2 ⟨fun e' h' => ?_, h⟩
      rcases List.mem_cons.1 h' with rfl | h'
      · exact hlt
      · exact KeyOrder.trans hlt (he e' h')
    split
    · rename_i _ heq
      exact List.pairwise_cons.2 ⟨fun e' h' => heq ▸ he e' h', hs⟩
    · rename_i hlt hne
      refine List.pairwise_cons.2 ⟨fun e' h' => ?_, ih hs⟩
      rcases mem_put h' with rfl | h'
      · exact KeyOrder.connected hlt (Ne.symm hne)
      · exact he e' h'

/-- The map with a new value for a key. -/
def insert (m : SortedMap κ ν) (k : κ) (v : ν) : SortedMap κ ν :=
  ⟨put k v m.entries, sorted_put k v m.sorted⟩

/-- An insertion changes the value of its key only. -/
@[simp] theorem get?_insert (m : SortedMap κ ν) (k k' : κ) (v : ν) :
    (m.insert k v).get? k' = if k = k' then some v else m.get? k' :=
  find?_put k k' v m.entries

/-- The map of a list of entries, of which a later one replaces an earlier one. -/
def ofList (es : List (κ × ν)) : SortedMap κ ν := es.foldl (fun m e => m.insert e.1 e.2) empty

theorem get?_foldl_insert (es : List (κ × ν)) (m : SortedMap κ ν) (k : κ) :
    (es.foldl (fun m e => m.insert e.1 e.2) m).get? k = (es.reverse.lookup k).or (m.get? k) := by
  induction es generalizing m with
  | nil => rfl
  | cons e es ih =>
    rw [List.foldl_cons, ih, List.reverse_cons, List.lookup_append, Option.or_assoc, get?_insert,
      ← find?_eq_lookup k [e], find?]
    split <;> simp [find?]

/-- The value of a key is that of the last entry with the key. -/
theorem get?_ofList (es : List (κ × ν)) (k : κ) : (ofList es).get? k = es.reverse.lookup k := by
  rw [ofList, get?_foldl_insert]
  exact Option.or_none

theorem mem_foldl_insert {es : List (κ × ν)} {m : SortedMap κ ν} {e : κ × ν}
    (h : e ∈ (es.foldl (fun m e => m.insert e.1 e.2) m).toList) : e ∈ es ∨ e ∈ m.toList := by
  induction es generalizing m with
  | nil => exact .inr h
  | cons e' es ih =>
    obtain hes | hm := ih h
    · exact .inl (List.mem_cons_of_mem _ hes)
    · obtain rfl | hm := mem_put hm
      · exact .inl List.mem_cons_self
      · exact .inr hm

/-- A map is the map of its entries. -/
theorem ofList_toList (m : SortedMap κ ν) : ofList m.toList = m :=
  ext_get? fun k => by rw [get?_ofList, toList, lookup_reverse m.sorted, get?]

/-- Entries with increasing keys are all kept, in their order. -/
theorem toList_ofList {es : List (κ × ν)} (h : es.Pairwise fun e e' => e.1 < e'.1) :
    (ofList es).toList = es :=
  congrArg toList (ofList_toList ⟨es, h⟩)

end Insert

end SortedMap

end ShaderAssembly
