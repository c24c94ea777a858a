import ShaderAssembly.Archive
/-!
# The archive format

An archive file is a signature, the words version, count and key size, and as many entries in the
order of their keys: the key, the words format and length, and the data.

* `Archive.encode`: the bytes of an archive;
* `Archive.decode`: the programs in a byte string, or what is wrong with it. Bytes behind the last
  entry are ignored, and a later entry replaces an earlier one with the same key.
-/

namespace ShaderAssembly

/-- What is wrong with the bytes of an archive. -/
inductive ArchiveError where
  | badSignature
  | versionMismatch (found expected : UInt32)
  | keySizeMismatch (found expected : UInt32)
  | truncated (size : Nat)
deriving DecidableEq, Repr, Inhabited

/-- The wording of an error. -/
def ArchiveError.message : ArchiveError → String
  | badSignature => "Invalid archive signature"
  | versionMismatch found expected =>
    s!"Archive version mismatch: found {found.toNat}, expected {expected.toNat}"
  | keySizeMismatch found expected =>
    s!"Archive key size mismatch: found {found.toNat}, expected {expected.toNat}"
  | truncated size => s!"Archive truncated at byte {size}"

namespace Archive

/-- The bytes with which an archive begins. -/
def signature : Bytes := Bytes.ofText "glshim PrecompiledShaderArchive\x00"

/-- The number of bytes of the signature. -/
def signatureSize : Nat := 32

/-- The version of the format. -/
def version : UInt32 := 1

/-- The number of bytes of a key, as a word. -/
def keySize : UInt32 := UInt32.ofNat PipelineState.size

/-! ## Writing -/

/-- An entry as bytes. -/
def encodeEntry (e : PipelineKey × ProgramBinary) : Bytes :=
  e.1.bytes ++ Bytes.word e.2.format ++ Bytes.word (UInt32.ofNat e.2.data.length) ++ e.2.data

/-- An archive as bytes. -/
def encode (a : Archive) : Bytes :=
  signature ++ Bytes.word version ++ Bytes.word (UInt32.ofNat a.size) ++ Bytes.word keySize
  ++ a.entries.toList.flatMap encodeEntry

/-! ## Reading -/

/-- The first key and the rest, if there are enough bytes. -/
def key? (bs : Bytes) : Option (PipelineKey × Bytes) :=
  match Bytes.take? PipelineState.size bs with
  | some (front, rest) =>
    if h : front.length = PipelineState.size then some (⟨front, h⟩, rest) else none
  | none => none

/-- The first entry and the rest, if there are enough bytes. -/
def entry? (bs : Bytes) : Option ((PipelineKey × ProgramBinary) × Bytes) := do
  let (key, bs) ← key? bs
  let (format, bs) ← Bytes.word? bs
  let (length, bs) ← Bytes.word? bs
  let (data, bs) ← Bytes.take? length.toNat bs
  return ((key, ⟨format, data⟩), bs)

/-- The first `n` entries, if there are enough bytes. -/
def entries? : Nat → Bytes → Option (List (PipelineKey × ProgramBinary))
  | 0, _ => some []
  | n + 1, bs => do
    let (e, bs) ← entry? bs
    return e :: (← entries? n bs)

/-- The programs in a byte string, or the first thing in it that is wrong. -/
def decodeEntries (bs : Bytes) : Except ArchiveError ArchiveEntries := do
  let complete {α : Type} (read : Option α) : Except ArchiveError α :=
    match read with
    | some a => .ok a
    | none => .error (.truncated bs.length)
  let (front, rest) ← complete (Bytes.take? signatureSize bs)
  if front ≠ signature then throw .badSignature
  let (found, rest) ← complete (Bytes.word? rest)
  if found ≠ version then throw (.versionMismatch found version)
  let (count, rest) ← complete (Bytes.word? rest)
  let (found, rest) ← complete (Bytes.word? rest)
  if found ≠ keySize then throw (.keySizeMismatch found keySize)
  return SortedMap.ofList (← complete (entries? count.toNat rest))

/-- The archive in a byte string; it has not changed since it was read. -/
def decode (bs : Bytes) : Except ArchiveError Archive := do
  return { entries := ← decodeEntries bs }

end Archive

end ShaderAssembly
