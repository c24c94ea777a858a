import ShaderAssembly.PipelineState
import ShaderAssembly.SortedMap
/-!
# Archives of compiled programs

An archive keeps a compiled program for each state of the fixed pipeline that has been met.

* `Archive.lookup?`, `Archive.insert`, `Archive.clear`: its contents;
* `Archive.isDirty`: whether they have changed since they were last read or written.
-/

namespace ShaderAssembly

/-- A compiled program, in a format that its maker understands. -/
structure ProgramBinary where
  format : UInt32
  data : Bytes
deriving DecidableEq, Inhabited

/-- Compiled programs by the key of the pipeline state. -/
abbrev ArchiveEntries := SortedMap PipelineKey ProgramBinary

/-- Compiled programs, and whether they have changed since they were last read or written. -/
structure Archive where
  entries : ArchiveEntries := .empty
  isDirty : Bool := false
deriving DecidableEq

namespace Archive

/-- The archive without programs. -/
def empty : Archive := {}

/-- The number of programs. -/
def size (a : Archive) : Nat := a.entries.size

/-- Whether there are no programs. -/
def isEmpty (a : Archive) : Bool := a.entries.entries.isEmpty

/-- The program kept for a state. -/
def lookup? (a : Archive) (s : PipelineState) : Option ProgramBinary := a.entries.get? s.key

/-- Keeps a program for a state, in place of the one kept before. -/
def insert (a : Archive) (s : PipelineState) (b : ProgramBinary) : Archive where
  entries := a.entries.insert s.key b
  isDirty := true

/-- Removes all programs; where there are none, nothing changes. -/
def clear (a : Archive) : Archive where
  entries := .empty
  isDirty := a.isDirty || !a.isEmpty

end Archive

end ShaderAssembly
