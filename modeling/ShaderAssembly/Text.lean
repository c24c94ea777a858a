/-!
# Program text

A text is a list of characters; places in it are byte offsets into its UTF-8 form.

* `byteLength`: the size of a text in bytes;
* `splitBytes`: the text before and after a byte offset, moved back to the start of a character
  and forward no further than the end;
* `slice`: the text between two byte offsets;
* `cutAt?`: the text before and after the leftmost occurrence of a pattern;
* `locate`: the line and column of a byte offset;
* `takeWhile_append_of_all`: runs of characters of a class.
-/

namespace ShaderAssembly

namespace Text

/-- The size of a text in bytes. -/
def byteLength : List Char → Nat
  | [] => 0
  | c :: cs => c.utf8Size + byteLength cs

@[simp] theorem byteLength_nil : byteLength [] = 0 := rfl

@[simp] theorem byteLength_cons (c : Char) (cs : List Char) :
    byteLength (c :: cs) = c.utf8Size + byteLength cs := rfl

@[simp] theorem byteLength_append (as bs : List Char) :
    byteLength (as ++ bs) = byteLength as + byteLength bs := by
  induction as with
  | nil => simp
  | cons c cs ih => simp [ih, Nat.add_assoc]

/-- The text before and after byte `n`. An offset inside a character counts as the start of that
character, and one past the end as the end. -/
def splitBytes : Nat → List Char → List Char × List Char
  | _, [] => ([], [])
  | n, c :: cs =>
    if c.utf8Size ≤ n then
      let (before, after) := splitBytes (n - c.utf8Size) cs
      (c :: before, after)
    else ([], c :: cs)

/-- A split loses nothing. -/
theorem splitBytes_append (n : Nat) (cs : List Char) :
    (splitBytes n cs).1 ++ (splitBytes n cs).2 = cs := by
  fun_induction splitBytes n cs with
  | case1 => rfl
  | case2 n c cs _ before after heq ih => simp [heq] at ih; simp [ih]
  | case3 => rfl

/-- The text from byte `start` up to byte `stop`. -/
def slice (start stop : Nat) (cs : List Char) : List Char :=
  (splitBytes start (splitBytes stop cs).1).2

/-- The text after `pattern`, if the text starts with it. -/
def dropPrefix? : List Char → List Char → Option (List Char)
  | [], cs => some cs
  | _ :: _, [] => none
  | p :: ps, c :: cs => if p = c then dropPrefix? ps cs else none

/-- The text before and after the leftmost occurrence of `pattern`. -/
def cutAt? (pattern : List Char) : List Char → Option (List Char × List Char)
  | [] => (dropPrefix? pattern []).map fun after => ([], after)
  | c :: cs =>
    match dropPrefix? pattern (c :: cs) with
    | some after => some ([], after)
    | none => (cutAt? pattern cs).map fun (before, after) => (c :: before, after)

/-- Whether `pattern` occurs in the text. -/
def contains (pattern cs : List Char) : Bool := (cutAt? pattern cs).isSome

/-- The byte offset at which `pattern` first occurs. -/
def find? (pattern cs : List Char) : Option Nat :=
  (cutAt? pattern cs).map fun (before, _) => byteLength before

end Text

/-- A place in a text as people count it: lines and columns from one, columns in characters. -/
structure Position where
  line : Nat
  column : Nat
deriving DecidableEq, Repr

/-- The position just behind a text. -/
def Position.after (cs : List Char) : Position where
  line := cs.count '\n' + 1
  column := (cs.reverse.takeWhile (· != '\n')).length + 1

/-- The position of a byte offset. -/
def locate (source : String) (offset : Nat) : Position :=
  Position.after (Text.splitBytes offset source.toList).1

/-! ## Runs of characters -/

/-- A run of characters of a class ends where a character outside of it follows. -/
theorem takeWhile_append_of_all {p : Char → Bool} {cs rest : List Char} (hcs : cs.all p = true)
    (hrest : ∀ c ∈ rest.head?, p c = false) :
    (cs ++ rest).takeWhile p = cs ∧ (cs ++ rest).dropWhile p = rest := by
  have hstop : rest.takeWhile p = [] ∧ rest.dropWhile p = rest := by
    cases rest with
    | nil => exact ⟨rfl, rfl⟩
    | cons c rest => simp [hrest c rfl]
  rw [List.takeWhile_append_of_pos (List.all_eq_true.1 hcs), hstop.1,
    List.dropWhile_append_of_pos (List.all_eq_true.1 hcs), hstop.2]
  exact ⟨List.append_nil _, rfl⟩

/-- Characters of which one is in a class and the other one is not are different. -/
theorem beq_eq_false_of_class {p : Char → Bool} {c d : Char} (hc : p c = !p d) : (c == d) = false := by
  rw [beq_eq_false_iff_ne]
  rintro rfl
  simp at hc

end ShaderAssembly
