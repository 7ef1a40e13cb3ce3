import ArtPi.Lib.Listing
import Mathlib.Data.List.Pairwise

set_option autoImplicit false

/-! # The memory of a process, as the kernel lists it

A line for each region: the range, the columns with the rights, the offset, the device and the inode, and a name, which
for a file is its path. The path of a file that has been deleted has a mark behind it. -/

namespace ArtPi.Lib.ProcMaps

open Listing

def ascii (s : String) : Text := s.toList.map (fun c => UInt8.ofNat c.toNat)

/-- A literal, by its characters: to evaluate the text it need not be decoded. -/
theorem ascii_ofList (l : List Char) : ascii (String.ofList l) = l.map (fun c => UInt8.ofNat c.toNat) := by
  rw [ascii, String.toList_ofList]

def slash : UInt8 := 0x2f
def hyphen : UInt8 := 0x2d

def deletedMark : Text := ascii " (deleted)"

/-- A line of the listing: the range, the columns up to the name, and what the kernel writes for a name. -/
structure Region where
  start : UInt64
  stop : UInt64
  columns : Text
  name : Text
  deriving DecidableEq

def Region.line (r : Region) : Text := hex r.start ++ hyphen :: (hex r.stop ++ (r.columns ++ r.name))

def listing (regions : List Region) : Text := unlines (regions.map Region.line)

/-- The address is in the region. -/
def Region.Contains (r : Region) (addr : UInt64) : Prop := r.start ≤ addr ∧ addr < r.stop

instance (r : Region) (addr : UInt64) : Decidable (r.Contains addr) := instDecidableAnd

/-- The file that is mapped. -/
def Region.file (r : Region) : Option Text :=
  if r.name.head? = some slash then
    some (if deletedMark <:+ r.name then r.name.take (r.name.length - deletedMark.length) else r.name)
  else none

/-- The columns begin with a blank and have no slash, and the name has no line break, for which the kernel writes
`\012`. -/
structure Region.Plain (r : Region) : Prop where
  blank : r.columns.head? = some 0x20
  columns : slash ∉ r.columns ∧ newline ∉ r.columns
  name : newline ∉ r.name

/-- The regions of a process, in the order of their addresses. -/
structure MemoryMap where
  regions : List Region
  plain : ∀ r ∈ regions, r.Plain
  ordered : regions.Pairwise fun a b => a.stop ≤ b.start

def MemoryMap.text (mm : MemoryMap) : Text := listing mm.regions

end ArtPi.Lib.ProcMaps
