import ShaderAssembly.ProgramKind
/-!
# Resource limits

* `Limits`: how much of each resource a program may use;
* `Limits.ofKind`: the built-in limits of a kind;
* `LimitOverrides`: limits to use in place of some built-in ones, for each kind in
  `TranslatorSettings`.
-/

namespace ShaderAssembly

/-- How much of each resource a program may use. A count may reach its limit; an index may not. -/
structure Limits where
  maxInstructions : Nat
  maxTemporaries : Nat
  maxAddressRegisters : Nat
  maxEnvParams : Nat
  maxLocalParams : Nat
  maxTextureUnits : Nat
  maxTextureCoords : Nat
deriving DecidableEq, Repr, Inhabited

/-- The built-in limits of a kind. -/
def Limits.ofKind : ProgramKind → Limits
  | .vertex =>
    { maxInstructions := 1024
      maxTemporaries := 32
      maxAddressRegisters := 1
      maxEnvParams := 256
      maxLocalParams := 256
      maxTextureUnits := 0
      maxTextureCoords := 8 }
  | .fragment =>
    { maxInstructions := 1024
      maxTemporaries := 32
      maxAddressRegisters := 0
      maxEnvParams := 64
      maxLocalParams := 64
      maxTextureUnits := 16
      maxTextureCoords := 8 }

/-- Limits to use in place of the built-in ones; an absent one leaves the built-in limit. -/
structure LimitOverrides where
  maxInstructions : Option Nat := none
  maxTemporaries : Option Nat := none
  maxAddressRegisters : Option Nat := none
  maxEnvParams : Option Nat := none
  maxLocalParams : Option Nat := none
  maxTextureUnits : Option Nat := none
  maxTextureCoords : Option Nat := none
deriving DecidableEq, Repr, Inhabited

/-- The limits with the given ones replaced. -/
def Limits.override (l : Limits) (o : LimitOverrides) : Limits where
  maxInstructions := o.maxInstructions.getD l.maxInstructions
  maxTemporaries := o.maxTemporaries.getD l.maxTemporaries
  maxAddressRegisters := o.maxAddressRegisters.getD l.maxAddressRegisters
  maxEnvParams := o.maxEnvParams.getD l.maxEnvParams
  maxLocalParams := o.maxLocalParams.getD l.maxLocalParams
  maxTextureUnits := o.maxTextureUnits.getD l.maxTextureUnits
  maxTextureCoords := o.maxTextureCoords.getD l.maxTextureCoords

/-- The overrides for each kind of program. -/
structure TranslatorSettings where
  vertex : LimitOverrides := {}
  fragment : LimitOverrides := {}
deriving DecidableEq, Repr, Inhabited

namespace TranslatorSettings

/-- The overrides for one kind. -/
def overrides (s : TranslatorSettings) : ProgramKind → LimitOverrides
  | .vertex => s.vertex
  | .fragment => s.fragment

/-- The limits of programs of one kind. -/
def limits (s : TranslatorSettings) (kind : ProgramKind) : Limits :=
  (Limits.ofKind kind).override (s.overrides kind)

end TranslatorSettings

end ShaderAssembly
