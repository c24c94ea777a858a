import ShaderAssembly.Glsl.Shader
/-!
# The layout of a shader

* `layout`: the text of some lines, each behind its blanks and before a line feed;
* `textOf_eq`: what a writer without a limit collects from items;
* **`generate_eq`**: the text of a shader is the layout of its lines, unless one of them is a fault;
  the first fault is then the reason why there is no text.
-/

namespace ShaderAssembly.Glsl

/-! ## Lines at their depth -/

/-- The blanks before a line at a depth. -/
def marginText : Nat → String
  | 0 => ""
  | n + 1 => "    " ++ marginText n

/-- The depth at which a line stands, if the line before it leaves off at depth `n`. -/
def Line.depth (n : Nat) : Line → Nat
  | .closeMain => n - 1
  | _ => n

/-- The depth of what follows a line. -/
def Line.depthBehind (n : Nat) : Line → Nat
  | .openMain => n + 1
  | .closeMain => n - 1
  | _ => n

/-- A line with its blanks and its line feed. -/
def Line.laidOut (n : Nat) (l : Line) : String := marginText (l.depth n) ++ l.text ++ "\n"

/-- The text of lines from depth `n` on. -/
def layout : Nat → List Line → String
  | _, [] => ""
  | n, l :: ls => l.laidOut n ++ layout (l.depthBehind n) ls

/-! ## Writers without a limit -/

/-- A writer with more text. -/
def Writer.add (w : Writer) (text : String) : Writer := { w with text := w.text ++ text }

/-- A writer behind a line. -/
def Writer.behind (w : Writer) (l : Line) : Writer :=
  { w.add (l.laidOut w.depth) with depth := l.depthBehind w.depth }

namespace Write

variable {w : Writer}

theorem bind_run {α β : Type} {step : Write α} {f : α → Write β} {a : α} {w' : Writer}
    (h : step w = .ok a w') : (step >>= f) w = f a w' := by
  simp only [bind, EStateM.bind, h]

theorem push_run (h : w.limit = none) (piece : String) : push piece w = .ok () (w.add piece) := by
  cases w
  cases h
  rfl

theorem margin_run (h : w.limit = none) (n : Nat) :
    margin n w = .ok () (w.add (marginText n)) := by
  induction n generalizing w with
  | zero => simp [margin, marginText, Writer.add, pure, EStateM.pure]
  | succ n ih =>
    have e : margin n (w.add "    ") = .ok () ((w.add "    ").add (marginText n)) := ih h
    rw [margin, bind_run (push_run h _), e, marginText]
    simp only [Writer.add, String.append_assoc]

theorem line_run (h : w.limit = none) (text : String) :
    line text w = .ok () (w.add (marginText w.depth ++ text ++ "\n")) := by
  have h₀ : (get : Write Writer) w = .ok w w := rfl
  rw [line, bind_run h₀, bind_run (margin_run h _), bind_run (push_run (by exact h) _),
    push_run (by exact h)]
  simp only [Writer.add, String.append_assoc]

theorem put_run (h : w.limit = none) (l : Line) : put l w = .ok () (w.behind l) := by
  cases l with
  | openMain =>
    rw [put, bind_run (line_run h _)]
    rfl
  | closeMain =>
    have h₀ : dedent w = .ok () { w with depth := w.depth - 1 } := rfl
    rw [put, bind_run h₀, line_run (by exact h)]
    rfl
  | version | rectangleExtension | addressType | bank | sampler | declare | declareArray
  | assign | discardIf => exact line_run h _

end Write

/-- A writer without a limit lays out the items before the first fault. -/
theorem textOf_eq (items : List Item) {w : Writer} (h : w.limit = none) :
    textOf w items = match items.mapM id with
      | .ok lines => .ok (w.text ++ layout w.depth lines)
      | .error fault => .error fault.toError := by
  induction items generalizing w with
  | nil => simp [textOf, Write.items, layout, pure, EStateM.pure, Except.pure]
  | cons item rest ih =>
    cases item with
    | error fault => rfl
    | ok line =>
      have e : textOf w (.ok line :: rest) = textOf (w.behind line) rest := by
        rw [textOf, Write.items, Write.bind_run (Write.put_run h line)]
        rfl
      rw [e, ih (w := w.behind line) h, List.mapM_cons]
      cases rest.mapM id with
      | error fault => rfl
      | ok lines => simp [bind, Except.bind, pure, Except.pure, layout, Writer.behind, Writer.add,
          String.append_assoc]

/-- **The text of a shader is the layout of its lines; a fault stands in for all of it.** -/
theorem generate_eq (m : Model) (limits : Limits) :
    generate m limits = match (shader m limits).mapM id with
      | .ok lines => .ok (layout 0 lines)
      | .error fault => .error fault.toError := by
  rw [generate, textOf_eq _ rfl]
  cases (shader m limits).mapM id with
  | error fault => rfl
  | ok lines => simp only [String.empty_append]

end ShaderAssembly.Glsl
