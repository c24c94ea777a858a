import ShaderAssembly.Bytes
import ShaderAssembly.KeyOrder
/-!
# States of the fixed pipeline

The state of the fixed pipeline selects the program that stands in for it, so its bytes are the key
under which a compiled program is kept.

* `PipelineFlag`, `PipelineFlags`: the switches, and sets of them;
* `PipelineState`: the switches and modes of the pipeline and of its eight texture units;
* `PipelineState.key`, `PipelineState.ofBytes?`: the state as 76 bytes, and back;
* `PipelineState.normalize`: clears the bytes that mean nothing.
-/

namespace ShaderAssembly

/-! ## Switches -/

/-- A switch of the pipeline. -/
inductive PipelineFlag where
  | lighting
  | twoSided
  | colorMaterial
  | separateSpecular
  | normalize
  | rescaleNormal
  | fog
  | alphaTest
  | pointSprite
  | flatShading
deriving DecidableEq, Repr, Inhabited

namespace PipelineFlag

/-- The switches, from bit zero on. -/
def all : List PipelineFlag :=
  [lighting, twoSided, colorMaterial, separateSpecular, normalize, rescaleNormal, fog, alphaTest,
    pointSprite, flatShading]

/-- The bit of a switch. -/
def bit : PipelineFlag → Nat
  | lighting => 0
  | twoSided => 1
  | colorMaterial => 2
  | separateSpecular => 3
  | normalize => 4
  | rescaleNormal => 5
  | fog => 6
  | alphaTest => 7
  | pointSprite => 8
  | flatShading => 9

/-- The name of a switch. -/
def name : PipelineFlag → String
  | lighting => "LIGHTING"
  | twoSided => "TWO_SIDED"
  | colorMaterial => "COLOR_MATERIAL"
  | separateSpecular => "SEPARATE_SPECULAR"
  | normalize => "NORMALIZE"
  | rescaleNormal => "RESCALE_NORMAL"
  | fog => "FOG"
  | alphaTest => "ALPHA_TEST"
  | pointSprite => "POINT_SPRITE"
  | flatShading => "FLAT_SHADING"

/-- The bits that belong to switches. -/
def mask : UInt32 := 1023

end PipelineFlag

/-- A set of switches: a word with no bits but theirs. -/
structure PipelineFlags where
  bits : UInt32
  known : bits &&& PipelineFlag.mask = bits
deriving DecidableEq

namespace PipelineFlags

/-- The switches among the bits of a word. -/
def ofBits (bits : UInt32) : PipelineFlags where
  bits := bits &&& PipelineFlag.mask
  known := by rw [UInt32.and_assoc, UInt32.and_self]

/-- Whether a switch is in a set. -/
def contains (fs : PipelineFlags) (f : PipelineFlag) : Bool := fs.bits.toNat.testBit f.bit

end PipelineFlags

/-! ## States -/

/-- The state of a texture unit, with two bytes that mean nothing. -/
structure TextureUnit where
  target : UInt8 := 0
  envMode : UInt8 := 0
  combineRgb : UInt8 := 0
  combineAlpha : UInt8 := 0
  texgen : UInt8 := 0
  textureMatrix : UInt8 := 0
  pad0 : UInt8 := 0
  pad1 : UInt8 := 0
deriving DecidableEq, Repr, Inhabited

namespace TextureUnit

/-- The number of bytes of a texture unit. -/
def size : Nat := 8

/-- A texture unit as bytes. -/
def bytes (u : TextureUnit) : Bytes :=
  [u.target, u.envMode, u.combineRgb, u.combineAlpha, u.texgen, u.textureMatrix, u.pad0, u.pad1]

/-- The unit with the bytes that mean nothing cleared. -/
def normalize (u : TextureUnit) : TextureUnit := { u with pad0 := 0, pad1 := 0 }

/-- The units that a byte string consists of. -/
def ofBytes? : Bytes → Option (List TextureUnit)
  | [] => some []
  | a :: b :: c :: d :: e :: f :: g :: h :: rest =>
    (ofBytes? rest).map (⟨a, b, c, d, e, f, g, h⟩ :: ·)
  | _ => none

end TextureUnit

/-- The number of texture units of the pipeline. -/
def textureUnitCount : Nat := 8

/-- A state of the fixed pipeline, with two bytes that mean nothing. The switches are the bits of
`flags`; bits of no switch are kept as they are. -/
structure PipelineState where
  flags : UInt32 := 0
  fogMode : UInt8 := 0
  fogSource : UInt8 := 0
  alphaFunc : UInt8 := 0
  colorMaterialMode : UInt8 := 0
  lights : UInt8 := 0
  clipPlanes : UInt8 := 0
  pad0 : UInt8 := 0
  pad1 : UInt8 := 0
  textures : Vector TextureUnit textureUnitCount := Vector.replicate textureUnitCount {}
deriving DecidableEq, Inhabited

namespace PipelineState

/-- The number of bytes of a state. -/
def size : Nat := 76

/-- The set of the switches that are on. -/
def flagSet (s : PipelineState) : PipelineFlags := .ofBits s.flags

/-- The switches of a state, as bits. -/
def knownFlags (s : PipelineState) : UInt32 := s.flagSet.bits

/-- The switches that are on. -/
def switches (s : PipelineState) : List PipelineFlag :=
  PipelineFlag.all.filter fun f => s.flags.toNat.testBit f.bit

/-- The state with the given switches on, and all other bits off. -/
def setFlags (s : PipelineState) (fs : PipelineFlags) : PipelineState :=
  { s with flags := fs.bits }

/-- The state with another texture unit; there is nothing to change at a unit it does not have. -/
def setTexture (s : PipelineState) (unit : Nat) (u : TextureUnit) : PipelineState :=
  { s with textures := s.textures.setIfInBounds unit u }

/-- The state with the bytes that mean nothing cleared, so that states with the same meaning have
the same key. -/
def normalize (s : PipelineState) : PipelineState :=
  { s with pad0 := 0, pad1 := 0, textures := s.textures.map TextureUnit.normalize }

/-- A state as bytes. -/
def bytes (s : PipelineState) : Bytes :=
  Bytes.word s.flags
  ++ [s.fogMode, s.fogSource, s.alphaFunc, s.colorMaterialMode, s.lights, s.clipPlanes,
    s.pad0, s.pad1]
  ++ s.textures.toList.flatMap TextureUnit.bytes

/-- The state that a byte string denotes: any string of the right size denotes one. -/
def ofBytes? : Bytes → Option PipelineState
  | f0 :: f1 :: f2 :: f3 :: fogMode :: fogSource :: alphaFunc :: colorMaterialMode :: lights ::
      clipPlanes :: pad0 :: pad1 :: rest =>
    match TextureUnit.ofBytes? rest with
    | some units =>
      if h : units.length = textureUnitCount then
        some { flags := Bytes.wordOf f0 f1 f2 f3, fogMode, fogSource, alphaFunc, colorMaterialMode,
               lights, clipPlanes, pad0, pad1, textures := ⟨units.toArray, by simp [h]⟩ }
      else none
    | none => none
  | _ => none

/-- Texture units as bytes take eight bytes each. -/
theorem length_flatMap_bytes (us : List TextureUnit) :
    (us.flatMap TextureUnit.bytes).length = TextureUnit.size * us.length := by
  induction us with
  | nil => rfl
  | cons u us ih =>
    simp only [List.flatMap_cons, List.length_append, ih, List.length_cons]
    simp [TextureUnit.bytes, TextureUnit.size]
    omega

/-- A state has a fixed number of bytes. -/
theorem length_bytes (s : PipelineState) : s.bytes.length = size := by
  simp only [bytes, List.length_append, length_flatMap_bytes, Vector.length_toList]
  rfl

end PipelineState

/-! ## Keys -/

/-- The key of a state: its bytes. -/
structure PipelineKey where
  bytes : Bytes
  length_eq : bytes.length = PipelineState.size
deriving DecidableEq

namespace PipelineKey

/-- Keys are ordered by their bytes. -/
instance : LT PipelineKey := ⟨fun a b => a.bytes < b.bytes⟩

instance : DecidableLT PipelineKey :=
  fun a b => inferInstanceAs (Decidable (a.bytes < b.bytes))

theorem bytes_injective {a b : PipelineKey} (h : a.bytes = b.bytes) : a = b := by
  cases a
  cases b
  simpa using h

instance : KeyOrder PipelineKey where
  irrefl a := KeyOrder.irrefl a.bytes
  trans {_ b _} h h' := KeyOrder.trans (b := b.bytes) h h'
  connected {a _} h hne := KeyOrder.connected (a := a.bytes) h fun he => hne (bytes_injective he)

end PipelineKey

/-- The key of a state. -/
def PipelineState.key (s : PipelineState) : PipelineKey := ⟨s.bytes, s.length_bytes⟩

end ShaderAssembly
