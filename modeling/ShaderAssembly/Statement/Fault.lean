import ShaderAssembly.ProgramKind
import ShaderAssembly.Token
/-!
# Faults

* `Cause`: what is wrong with a statement, and `Cause.message`, its wording;
* `Fault`: a cause and the byte to blame for it.
-/

namespace ShaderAssembly

/-- What is wrong with a statement. -/
inductive Cause where
  | unexpected (wanted : String) (found : Token)
  | missingEnd
  | addressInFragment
  | lateOption
  | unknownOption (name : String)
  | conflictingFog
  | conflictingPrecision
  | manyVectors
  | noVector
  | emptyArray
  | arraySize (name : String) (declared bound : Nat)
  | unknownInstruction (text : String) (kind : ProgramKind)
  | tooManyInstructions (limit : Nat)
  | tooManyTemporaries (limit : Nat)
  | tooManyAddressRegisters (limit : Nat)
  | relativeAddressSource
  | addressWrittenElsewhere
  | addressNotWritten
  | addressComponent
  | positionWritten
  | unreadable (name : String)
  | readOnly (name : String)
  | notArray (name : String)
  | arrayWithoutIndex (name : String)
  | elementRange (index length : Nat)
  | relativeInFragment
  | notAddress (name : String)
  | relativeOffset (offset : Int)
  | swizzleLength (text : String)
  | maskOrder (text : String)
  | selector (text : String)
  | textureUnit (unit limit : Nat)
  | conflictingTargets (unit : Nat)
  | resultRead
  | bindingWritten (root : String)
  | bindingKind (root : String) (kind : ProgramKind)
  | genericAttribute (n : Nat)
  | unknownAttribute (name : String)
  | unknownResult (name : String) (kind : ProgramKind)
  | bankRangeOutsideArray
  | bankLimit (bank : String) (index limit : Nat)
  | indexLimit (what : String) (index limit : Nat)
  | unsupportedState (group : String)
  | unsupportedMatrix (name : String)
  | modelviewIndex
  | reversedRange (start stop : Nat)
  | constantRange
  | reserved (name : String)
  | redeclared (name : String)
  | undeclared (name : String)
deriving DecidableEq, Inhabited

/-- A token as an error message shows it. -/
def Token.describe (t : Token) : String :=
  match t.kind with
  | .endOfText => "end of program"
  | .newline => "end of line"
  | _ => s!"'{t.text}'"

/-- The wording of a cause. -/
def Cause.message : Cause → String
  | unexpected wanted found => s!"expected {wanted} but found {found.describe}"
  | missingEnd => "unexpected end of program (missing END)"
  | addressInFragment => "ADDRESS registers are only available in vertex programs"
  | lateOption => "OPTION must precede all declarations and instructions"
  | unknownOption name => s!"unknown option `{name}`"
  | conflictingFog => "conflicting fog options"
  | conflictingPrecision => "conflicting precision hints"
  | manyVectors => "binding names more than one vector; use a PARAM array"
  | noVector => "binding produced no value"
  | emptyArray => "parameter array must bind at least one element"
  | arraySize name declared bound =>
    s!"parameter array `{name}` declares {declared} elements but binds {bound}"
  | unknownInstruction text kind => s!"unknown instruction `{text}` in {kind.name} program"
  | tooManyInstructions limit => s!"too many instructions (max {limit})"
  | tooManyTemporaries limit => s!"too many temporaries (max {limit})"
  | tooManyAddressRegisters limit => s!"too many address registers (max {limit})"
  | relativeAddressSource => "ARL source cannot use relative addressing"
  | addressWrittenElsewhere => "address registers can only be written by ARL"
  | addressNotWritten => "ARL must write an address register"
  | addressComponent => "address registers only have an x component"
  | positionWritten => "position-invariant programs cannot write result.position"
  | unreadable name => s!"`{name}` cannot be used as a source operand"
  | readOnly name => s!"`{name}` is read-only"
  | notArray name => s!"`{name}` is not an array"
  | arrayWithoutIndex name => s!"array `{name}` must be indexed"
  | elementRange index length => s!"index {index} out of range for array of {length}"
  | relativeInFragment => "relative addressing is only available in vertex programs"
  | notAddress name => s!"`{name}` is not an address register"
  | relativeOffset offset => s!"relative offset {offset} out of range"
  | swizzleLength text => s!"invalid swizzle `{text}`"
  | maskOrder text => s!"invalid write mask `{text}`"
  | selector text => s!"invalid component selector `{text}`"
  | textureUnit unit limit => s!"texture unit {unit} out of range (max {limit})"
  | conflictingTargets unit => s!"texture unit {unit} used with conflicting targets"
  | resultRead => "result registers cannot be read"
  | bindingWritten root => s!"`{root}` bindings are read-only"
  | bindingKind root kind => s!"`{root}` bindings are not available in {kind.name} programs"
  | genericAttribute n => s!"generic vertex attribute {n} is not supported"
  | unknownAttribute name => s!"unknown attribute binding `{name}`"
  | unknownResult name kind => s!"unknown result binding `{name}` in {kind.name} program"
  | bankRangeOutsideArray => "parameter ranges are only allowed in PARAM arrays"
  | bankLimit bank index limit => s!"program.{bank}[{index}] out of range (max {limit})"
  | indexLimit what index limit => s!"{what} index {index} out of range (max {limit})"
  | unsupportedState group => s!"unsupported state binding `state.{group}`"
  | unsupportedMatrix name => s!"unsupported matrix `{name}`"
  | modelviewIndex => "only modelview matrix 0 is supported"
  | reversedRange start stop => s!"invalid index range {start}..{stop}"
  | constantRange => "constant out of range"
  | reserved name => s!"`{name}` is a reserved word"
  | redeclared name => s!"redeclaration of `{name}`"
  | undeclared name => s!"undeclared identifier `{name}`"

/-- A cause and the byte to blame for it. -/
structure Fault where
  cause : Cause
  offset : Nat
deriving DecidableEq, Inhabited

end ShaderAssembly
