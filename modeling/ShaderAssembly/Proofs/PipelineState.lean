import ShaderAssembly.Archive
import ShaderAssembly.Proofs.Bytes
/-!
# States and their keys

A state can be read off its key, so that each state has a key of its own. Clearing the padding
forgets what the padding holds and nothing else.

* `PipelineState.ofBytes?_eq_some`, `PipelineState.exists_bytes_eq`: the byte strings that are the
  bytes of a state, and of which one;
* `PipelineState.SameMeaning`: states that differ in the padding only;
* `PipelineState.isPadding`, `PipelineState.bytes_normalize`: where the padding stands, and what
  clearing does to the bytes;
* `PipelineFlag.IsSet`: words that are sets of switches;
* **`PipelineState.key_identifies`**: keys, padding and switches together.
-/

namespace ShaderAssembly

/-! ## Texture units -/

namespace TextureUnit

theorem ofBytes?_eq_some {bs : Bytes} {us : List TextureUnit} :
    ofBytes? bs = some us ↔ bs = us.flatMap bytes := by
  constructor
  · intro h
    fun_induction ofBytes? bs generalizing us with
    | case1 =>
      cases h
      rfl
    | case2 a b c d e f g p rest ih =>
      obtain ⟨us, hus, rfl⟩ := Option.map_eq_some_iff.1 h
      rw [ih hus]
      rfl
    | case3 => cases h
  · rintro rfl
    induction us with
    | nil => rfl
    | cons u us ih =>
      rw [List.flatMap_cons, bytes]
      simp only [List.cons_append, List.nil_append, ofBytes?, ih, Option.map_some]

theorem exists_flatMap_eq (n : Nat) {bs : Bytes} (h : bs.length = size * n) :
    ∃ us : List TextureUnit, us.length = n ∧ us.flatMap bytes = bs := by
  induction n generalizing bs with
  | zero => exact ⟨[], rfl, (List.length_eq_zero_iff.1 h).symm⟩
  | succ n ih =>
    match bs, h with
    | a :: b :: c :: d :: e :: f :: g :: p :: rest, h =>
      have hrest : rest.length = size * n := by
        simp only [List.length_cons, size] at h ⊢
        omega
      obtain ⟨us, hus, rfl⟩ := ih hrest
      exact ⟨⟨a, b, c, d, e, f, g, p⟩ :: us, by rw [List.length_cons, hus], rfl⟩
    | [], h | [_], h | [_, _], h | [_, _, _], h | [_, _, _, _], h | [_, _, _, _, _], h
    | [_, _, _, _, _, _], h | [_, _, _, _, _, _, _], h => simp [size, Nat.mul_succ] at h

/-- The units agree in every byte that means something. -/
structure SameMeaning (u v : TextureUnit) : Prop where
  target : u.target = v.target
  envMode : u.envMode = v.envMode
  combineRgb : u.combineRgb = v.combineRgb
  combineAlpha : u.combineAlpha = v.combineAlpha
  texgen : u.texgen = v.texgen
  textureMatrix : u.textureMatrix = v.textureMatrix

theorem normalize_eq_normalize {u v : TextureUnit} : u.normalize = v.normalize ↔ u.SameMeaning v := by
  constructor
  · intro h
    simp only [normalize, mk.injEq] at h
    obtain ⟨h₁, h₂, h₃, h₄, h₅, h₆, -⟩ := h
    exact ⟨h₁, h₂, h₃, h₄, h₅, h₆⟩
  · rintro ⟨h₁, h₂, h₃, h₄, h₅, h₆⟩
    simp only [normalize, h₁, h₂, h₃, h₄, h₅, h₆]

end TextureUnit

/-! ## Switches -/

namespace PipelineFlag

/-- The word is a set of switches: it has no bits but theirs. -/
def IsSet (flags : UInt32) : Prop := ∀ n, flags.toNat.testBit n → ∃ f : PipelineFlag, f.bit = n

theorem exists_bit_eq : ∀ n : Fin 10, ∃ f ∈ all, f.bit = n := by decide

theorem testBit_mask (n : Nat) : mask.toNat.testBit n ↔ ∃ f : PipelineFlag, f.bit = n := by
  rw [show mask.toNat = 2 ^ 10 - 1 from rfl, Nat.testBit_two_pow_sub_one, decide_eq_true_iff]
  constructor
  · intro h
    obtain ⟨f, -, hf⟩ := exists_bit_eq ⟨n, h⟩
    exact ⟨f, hf⟩
  · rintro ⟨f, rfl⟩
    cases f <;> decide

theorem isSet_iff {flags : UInt32} : IsSet flags ↔ flags &&& mask = flags := by
  rw [← UInt32.toNat_inj, UInt32.toNat_and]
  constructor
  · refine fun h => Nat.eq_of_testBit_eq fun n => ?_
    rw [Nat.testBit_and]
    cases hn : flags.toNat.testBit n with
    | false => rfl
    | true => rw [(testBit_mask n).2 (h n hn), Bool.and_self]
  · intro h n hn
    rw [← h, Nat.testBit_and, Bool.and_eq_true] at hn
    exact (testBit_mask n).1 hn.2

end PipelineFlag

theorem PipelineFlags.exists_bits_eq {flags : UInt32} :
    (∃ fs : PipelineFlags, fs.bits = flags) ↔ PipelineFlag.IsSet flags := by
  rw [PipelineFlag.isSet_iff]
  exact ⟨fun ⟨fs, h⟩ => h ▸ fs.known, fun h => ⟨⟨flags, h⟩, rfl⟩⟩

theorem PipelineFlags.ofBits_bits (fs : PipelineFlags) : ofBits fs.bits = fs := by
  obtain ⟨bits, known⟩ := fs
  rw [ofBits, mk.injEq]
  exact known

/-! ## States -/

namespace PipelineState

open PipelineFlag (IsSet)

variable {s t : PipelineState}

theorem ofBytes?_eq_some {bs : Bytes} : ofBytes? bs = some s ↔ bs = s.bytes := by
  constructor
  · intro h
    unfold ofBytes? at h
    split at h
    · split at h
      · rename_i units hunits
        split at h
        · cases h
          rw [bytes, Bytes.word_wordOf, TextureUnit.ofBytes?_eq_some.1 hunits]
          rfl
        · cases h
      · cases h
    · cases h
  · rintro rfl
    have hunits := TextureUnit.ofBytes?_eq_some.2 (rfl : s.textures.toList.flatMap _ = _)
    have hlength : s.textures.toList.length = textureUnitCount := Vector.length_toList
    simp only [bytes, Bytes.word, List.cons_append, List.nil_append, ofBytes?, hunits, hlength,
      dif_pos, Bytes.wordOf_word]
    rfl

/-- A state has as many bytes as any other, and so many bytes are those of a state. -/
theorem exists_bytes_eq {bs : Bytes} : (∃ s : PipelineState, s.bytes = bs) ↔ bs.length = size := by
  refine ⟨?_, fun h => ?_⟩
  · rintro ⟨s, rfl⟩
    exact s.length_bytes
  match bs, h with
  | f0 :: f1 :: f2 :: f3 :: fogMode :: fogSource :: alphaFunc :: colorMaterialMode :: lights ::
      clipPlanes :: pad0 :: pad1 :: rest, h =>
    have hrest : rest.length = TextureUnit.size * textureUnitCount := by
      simp only [List.length_cons, size, TextureUnit.size, textureUnitCount] at h ⊢
      omega
    obtain ⟨us, hlength, rfl⟩ := TextureUnit.exists_flatMap_eq textureUnitCount hrest
    refine ⟨{ flags := Bytes.wordOf f0 f1 f2 f3, fogMode, fogSource, alphaFunc, colorMaterialMode,
              lights, clipPlanes, pad0, pad1, textures := ⟨us.toArray, by simp [hlength]⟩ }, ?_⟩
    rw [bytes, Bytes.word_wordOf]
    rfl

theorem bytes_injective (h : s.bytes = t.bytes) : s = t :=
  Option.some.inj ((ofBytes?_eq_some.2 rfl).symm.trans (ofBytes?_eq_some.2 h))

theorem key_inj : s.key = t.key ↔ s = t :=
  ⟨fun h => bytes_injective (congrArg PipelineKey.bytes h), congrArg key⟩

theorem exists_key_eq (k : PipelineKey) : ∃ s : PipelineState, s.key = k := by
  obtain ⟨s, hs⟩ := exists_bytes_eq.2 k.length_eq
  exact ⟨s, PipelineKey.bytes_injective hs⟩

/-! ## Padding -/

/-- The states agree in everything that means something, bits of no switch included. -/
structure SameMeaning (s t : PipelineState) : Prop where
  flags : s.flags = t.flags
  fogMode : s.fogMode = t.fogMode
  fogSource : s.fogSource = t.fogSource
  alphaFunc : s.alphaFunc = t.alphaFunc
  colorMaterialMode : s.colorMaterialMode = t.colorMaterialMode
  lights : s.lights = t.lights
  clipPlanes : s.clipPlanes = t.clipPlanes
  textures : ∀ (i : Nat) (h : i < textureUnitCount), (s.textures[i]).SameMeaning t.textures[i]

theorem normalize_eq_normalize : s.normalize = t.normalize ↔ s.SameMeaning t := by
  constructor
  · intro h
    simp only [normalize, mk.injEq, true_and] at h
    obtain ⟨h₁, h₂, h₃, h₄, h₅, h₆, h₇, htextures⟩ := h
    refine ⟨h₁, h₂, h₃, h₄, h₅, h₆, h₇, fun i hi => ?_⟩
    have hi' := congrArg (fun us : Vector TextureUnit textureUnitCount => us[i]) htextures
    simp only [Vector.getElem_map] at hi'
    exact TextureUnit.normalize_eq_normalize.1 hi'
  · rintro ⟨h₁, h₂, h₃, h₄, h₅, h₆, h₇, htextures⟩
    have htextures' : s.textures.map TextureUnit.normalize = t.textures.map TextureUnit.normalize := by
      ext i hi : 1
      rw [Vector.getElem_map, Vector.getElem_map]
      exact TextureUnit.normalize_eq_normalize.2 (htextures i hi)
    simp only [normalize, h₁, h₂, h₃, h₄, h₅, h₆, h₇, htextures']

/-- Whether a byte of a key means nothing: two behind the modes, and the last two of each unit. -/
def isPadding (i : Nat) : Bool := i = 10 || i = 11 || (12 ≤ i && 6 ≤ (i - 12) % TextureUnit.size)

/-- The byte at a place, or zero where it means nothing. -/
def cleared (i : Nat) (b : UInt8) : UInt8 := if isPadding i then 0 else b

theorem isPadding_unit (k j : Nat) (hj : j < TextureUnit.size) :
    isPadding (j + (12 + TextureUnit.size * k)) = decide (6 ≤ j) := by
  have hmod : (j + (12 + TextureUnit.size * k) - 12) % TextureUnit.size = j := by
    rw [show j + (12 + TextureUnit.size * k) - 12 = j + TextureUnit.size * k by omega,
      Nat.add_mul_mod_self_left, Nat.mod_eq_of_lt hj]
  rw [isPadding, hmod]
  simp only [TextureUnit.size] at hj ⊢
  grind

theorem mapIdx_bytes (u : TextureUnit) (k : Nat) :
    u.bytes.mapIdx (fun i => cleared (i + (12 + TextureUnit.size * k))) = u.normalize.bytes := by
  have hunit (j : Nat) (hj : j < TextureUnit.size) (b : UInt8) :
      cleared (j + (12 + TextureUnit.size * k)) b = if 6 ≤ j then 0 else b := by
    simp only [cleared, isPadding_unit k j hj, decide_eq_true_eq]
  rw [TextureUnit.bytes]
  simp only [List.mapIdx_cons, List.mapIdx_nil, Nat.reduceAdd]
  simp (disch := decide) only [hunit]
  rfl

theorem mapIdx_units (us : List TextureUnit) (k : Nat) :
    (us.flatMap TextureUnit.bytes).mapIdx (fun i => cleared (i + (12 + TextureUnit.size * k))) =
      (us.map TextureUnit.normalize).flatMap TextureUnit.bytes := by
  induction us generalizing k with
  | nil => rfl
  | cons u us ih =>
    have hnext (i : Nat) : i + u.bytes.length + (12 + TextureUnit.size * k) =
        i + (12 + TextureUnit.size * (k + 1)) := by
      simp only [TextureUnit.bytes, TextureUnit.size, List.length_cons, List.length_nil]
      omega
    rw [List.flatMap_cons, List.mapIdx_append, mapIdx_bytes, List.map_cons, List.flatMap_cons]
    simp only [hnext, ih]

/-- Clearing the padding clears the bytes that mean nothing, and no others. -/
theorem bytes_normalize (s : PipelineState) : s.normalize.bytes = s.bytes.mapIdx cleared := by
  have hunits := mapIdx_units s.textures.toList 0
  have hheader (j : Nat) (hj : j < 12) (b : UInt8) : cleared j b = if 10 ≤ j then 0 else b := by
    have hpadding : isPadding j = decide (10 ≤ j) := by
      unfold isPadding
      grind
    simp only [cleared, hpadding, decide_eq_true_eq]
  rw [bytes, bytes, List.mapIdx_append]
  simp only [normalize, Vector.toList_map, ← hunits, Bytes.word, List.cons_append, List.nil_append,
    List.mapIdx_cons, List.mapIdx_nil, Nat.reduceAdd, Nat.zero_add]
  simp (disch := decide) only [hheader]
  rfl

theorem normalize_normalize (s : PipelineState) : s.normalize.normalize = s.normalize := by
  refine bytes_injective ?_
  rw [bytes_normalize, bytes_normalize, List.mapIdx_mapIdx]
  congr 1
  funext i b
  simp only [Function.comp, cleared]
  split <;> rfl

/-! ## Setting switches -/

theorem mem_switches_setFlags {fs : PipelineFlags} {f : PipelineFlag} :
    f ∈ (s.setFlags fs).switches ↔ fs.contains f := by
  have hf : f ∈ PipelineFlag.all := by cases f <;> decide
  rw [switches, List.mem_filter]
  exact and_iff_right hf

/-! ## Main statement -/

/-- **Keys identify states.** The byte strings of the right size are the keys, each of one state, so
that no two states share a program in an archive. With the padding cleared, states have the same key
if they mean the same, bits of no switch included; clearing changes the padding only, and nothing the
second time. The sets of switches are the words without other bits; setting the switches sets them,
and changes the first four bytes of the key only. -/
theorem key_identifies :
    (∀ bs : Bytes, ((ofBytes? bs).isSome ↔ bs.length = size) ∧
      ∀ s, ofBytes? bs = some s ↔ s.key.bytes = bs) ∧
    (∀ s : PipelineState, s.key.bytes.length = size ∧ ofBytes? s.key.bytes = some s) ∧
    (∀ (a : Archive) (s s' : PipelineState) (b : ProgramBinary),
      (a.insert s b).lookup? s' = if s = s' then some b else a.lookup? s') ∧
    (∀ s t : PipelineState, s.normalize.key = t.normalize.key ↔ s.SameMeaning t) ∧
    (∀ s : PipelineState, s.normalize.normalize = s.normalize ∧
      s.normalize.key.bytes = s.key.bytes.mapIdx cleared) ∧
    (∀ flags : UInt32, (∃ fs : PipelineFlags, fs.bits = flags) ↔ IsSet flags) ∧
    ∀ (s : PipelineState) (fs : PipelineFlags), (s.setFlags fs).flagSet = fs ∧
      (∀ f, f ∈ (s.setFlags fs).switches ↔ fs.contains f) ∧
      (s.setFlags fs).key.bytes = Bytes.word fs.bits ++ s.key.bytes.drop 4 := by
  refine ⟨fun bs => ⟨?accepted, fun s => ?denoted⟩, fun s => ⟨s.length_bytes, ?back⟩,
    fun a s s' b => ?apart, fun s t => ?meaning, fun s => ⟨s.normalize_normalize, s.bytes_normalize⟩,
    fun _ => PipelineFlags.exists_bits_eq,
    fun s fs => ⟨fs.ofBits_bits, fun f => mem_switches_setFlags, rfl⟩⟩
  case accepted =>
    rw [Option.isSome_iff_exists, ← exists_bytes_eq]
    exact exists_congr fun s => ofBytes?_eq_some.trans eq_comm
  case denoted => exact ofBytes?_eq_some.trans eq_comm
  case back => exact ofBytes?_eq_some.2 rfl
  case apart => simp only [Archive.lookup?, Archive.insert, SortedMap.get?_insert, key_inj]
  case meaning => rw [key_inj, normalize_eq_normalize]

/-- A state with a bit of no switch and with bytes in its padding. -/
def noisy : PipelineState := { flags := 0x80000002, lights := 5, pad1 := 7 }

theorem key_identifies_noisy :
    noisy.bytes.length = size ∧ ofBytes? noisy.bytes = some noisy ∧
      noisy.normalize.key ≠ (noisy.setFlags ⟨2, rfl⟩).normalize.key ∧ IsSet 0x41 ∧
      ∃ fs : PipelineFlags, fs.bits = 0x41 ∧ (noisy.setFlags fs).flagSet = fs ∧
        .fog ∈ (noisy.setFlags fs).switches ∧
        (noisy.setFlags fs).key.bytes = [0x41, 0, 0, 0] ++ noisy.key.bytes.drop 4 := by
  obtain ⟨-, hback, -, hmeaning, -, hsets, hswitched⟩ := key_identifies
  obtain ⟨hflags, hmem, hbytes⟩ := hswitched noisy ⟨0x41, rfl⟩
  refine ⟨(hback noisy).1, (hback noisy).2, fun h => ?_, (hsets _).1 ⟨⟨0x41, rfl⟩, rfl⟩,
    ⟨0x41, rfl⟩, rfl, hflags, (hmem _).2 (by decide), hbytes⟩
  exact absurd ((hmeaning _ _).1 h).flags (by decide)

end PipelineState

end ShaderAssembly
