import ArtPi.Hash.Checksums
import ArtPi.Lib.Bytes
import ArtPi.Lib.ProcMaps
import ArtPi.Lib.Segments

set_option autoImplicit false

/-! # Dumps of DEX files (`src/agent/agent_java_decompile.cpp`)

`DumpDexFromArtMethod` writes the DEX of a method to a file that is named by its size and the checksum of its header,
and takes a file of that name and size that is there already for the DEX. `JsDumpAllDex` goes through the DEX files of
the elements of a class loader and drops those whose size and checksum it has seen. -/

namespace ArtPi.Agent.DumpDex

open Lib Lib.Listing Lib.ProcMaps Hash

/-! ## Memory -/

/-- What can be read at each address. -/
abbrev Mem := UInt64 → Option UInt8

namespace Mem

variable (m : Mem)

/-- The bytes from an address on, up to one that cannot be read. -/
def readable (a : UInt64) : Nat → List UInt8
  | 0 => []
  | n + 1 =>
    match m a with
    | none => []
    | some b => b :: readable (a + 1) n

def read (a : UInt64) (n : Nat) : Option (List UInt8) :=
  if (readable m a n).length = n then some (readable m a n) else none

/-- A little-endian number of `n` bytes. -/
def number (a : UInt64) (n : Nat) : Option Nat := (read m a n).map Bytes.leNat

def pointer (a : UInt64) (n : Nat) : Option UInt64 := (number m a n).map UInt64.ofNat

end Mem

/-! ## Files -/

abbrev Files := Text → Option (List UInt8)

def Files.put (fs : Files) (path : Text) (content : List UInt8) : Files := fun p => if p = path then some content else fs p

/-- The loop around `write`, by what the calls return; behind the last of them a call fails. Of `size` bytes that are to
be written `avail` can be read. -/
def writeLoop (avail size written : Nat) : List Int → Nat × Bool
  | [] => (written, decide (size ≤ written))
  | w :: ws =>
    if size ≤ written then (written, true)
    else if min w.toNat (avail - written) = 0 then (written, false)
    else writeLoop avail size (written + min w.toNat (avail - written)) ws

/-- What `open` and `write` do; `none` where `open` fails. -/
abbrev Io := Option (List Int)

def Io.completes (io : Io) (avail size : Nat) : Bool :=
  match io with
  | none => false
  | some ws => (writeLoop avail size 0 ws).2

/-- `open` with `O_TRUNC` and the loop. -/
def writeFile (fs : Files) (path : Text) (data : List UInt8) (size : Nat) (io : Io) : Files × Bool :=
  match io with
  | none => (fs, false)
  | some ws => (fs.put path (data.take (writeLoop data.length size 0 ws).1), (writeLoop data.length size 0 ws).2)

/-! ## One method -/

def maxDexSize : Nat := 0x10000000

/-- What a DEX file object has: where it begins, where its data begins, and its size, with the checksum in the header. -/
structure Dex where
  dexBegin : UInt64
  data : UInt64
  size : Nat
  checksum : UInt32
deriving DecidableEq

def dexMagic : List UInt8 := ascii "dex\n"
def cdexMagic : List UInt8 := ascii "cdex"

/-- A size that is out of range is taken from the header. -/
def checkedSize (m : Mem) (data : UInt64) (size : Nat) : Option Nat :=
  if size = 0 ∨ maxDexSize < size then do
    let magic ← m.read data 4
    if magic = dexMagic ∨ magic = cdexMagic then m.number (data + 0x20) 4 else some size
  else some size

/-- The DEX of a method. The outer `none` is a read that faults, the inner one stands for a return of false. -/
def resolveDex (m : Mem) (art : UInt64) : Option (Option Dex) :=
  if art = 0 then some none
  else do
    let klass ← m.pointer art 4
    if klass = 0 then some none
    else do
      let dexCache ← m.pointer (klass + 0x10) 4
      if dexCache = 0 then some none
      else do
        let dexFile ← m.pointer (dexCache + 0x10) 8
        if dexFile = 0 then some none
        else do
          let dexBegin ← m.pointer (dexFile + 0x08) 8
          let size ← m.number (dexFile + 0x10) 8
          let field ← m.pointer (dexFile + 0x18) 8
          let data := if field = 0 then dexBegin else field
          if data = 0 then some none
          else do
            let size ← checkedSize m data size
            if size = 0 ∨ maxDexSize < size then some none
            else do
              let checksum ← if 16 ≤ size then m.number (data + 8) 4 else some 0
              some (some ⟨dexBegin, data, size, UInt32.ofNat checksum⟩)

def underscore : UInt8 := 0x5f

/-- The name of the file. -/
def Dex.path (d : Dex) : Text :=
  ascii "/data/local/tmp/jtmp/dex_" ++
    (Numerals.spell 16 d.size ++ underscore :: (Numerals.padded 16 8 d.checksum.toNat ++ ascii ".dex"))

/-- A file of the name and the size of the DEX. -/
def Dex.found (d : Dex) (fs : Files) : Option (List UInt8) := (fs d.path).filter fun file => file.length = d.size

structure Dumped where
  ok : Bool
  path : Text
  fs : Files

/-- `DumpDexFromArtMethod` -/
def dumpDexFromArtMethod (m : Mem) (art : UInt64) (io : Io) (fs : Files) : Option Dumped :=
  match resolveDex m art with
  | none => none
  | some none => some ⟨false, [], fs⟩
  | some (some d) =>
    if (d.found fs).isSome = true then some ⟨true, d.path, fs⟩
    else
      let r := writeFile fs d.path (m.readable d.data d.size) d.size io
      some ⟨r.2, d.path, r.1⟩

/-! ## All DEX files -/

/-- `SafeDexMagic` -/
def safeDexMagic (m : Mem) (p : UInt64) : Bool :=
  p ≠ 0 && match m.read p 8 with
    | none => false
    | some magic => magic.take 4 = dexMagic || magic.take 4 = cdexMagic

/-- `DexMemoryFromArtDexFile`: where the DEX is, and its size. -/
def dexMemoryFromArtDexFile (m : Mem) (dexFile : UInt64) : Option (UInt64 × Nat) :=
  match m.read dexFile 0x20 with
  | none => none
  | some fields =>
    let dexBegin := UInt64.ofNat (Bytes.leNat ((fields.drop 0x08).take 8))
    let size := Bytes.leNat ((fields.drop 0x10).take 8)
    let field := UInt64.ofNat (Bytes.leNat ((fields.drop 0x18).take 8))
    let data := if field = 0 then dexBegin else field
    let base := if safeDexMagic m dexBegin = true then dexBegin else if safeDexMagic m data = true then data else 0
    if base = 0 then none
    else
      let size := match m.number (base + 0x20) 4 with
        | none => size
        | some headerSize => if 0x70 ≤ headerSize ∧ headerSize < maxDexSize then headerSize else size
      if size < 0x70 ∨ maxDexSize < size then none else some (base, size)

/-- A number of four bytes, the least significant first. -/
def le32 (v : UInt32) : List UInt8 := (List.range 4).map fun i => UInt8.ofNat (v.toNat >>> (8 * i) &&& 0xff)

def stored (bytes : List UInt8) : UInt32 := UInt32.ofNat (Bytes.leNat ((bytes.drop 8).take 4))

/-- The checksum of the bytes behind its field. -/
def calculated (bytes : List UInt8) : UInt32 := dexAdler32 (bytes.drop 12)

structure Repaired where
  out : List UInt8
  repaired : Bool
  kind : Text

/-- `BuildRepairedDex`, of the bytes of at least 0x70. -/
def buildRepairedDex (bytes : List UInt8) : Repaired :=
  ⟨if stored bytes ≠ calculated bytes then bytes.take 8 ++ (le32 (calculated bytes) ++ bytes.drop 12) else bytes,
    stored bytes ≠ calculated bytes, if bytes.take 4 = cdexMagic then ascii "CompactDex" else ascii "StandardDex"⟩

def isAlnum (b : UInt8) : Bool :=
  (0x30 ≤ b && b ≤ 0x39) || (0x41 ≤ b && b ≤ 0x5a) || (0x61 ≤ b && b ≤ 0x7a)

def sanitizeByte (b : UInt8) : UInt8 := if isAlnum b || b = 0x2e || b = underscore || b = 0x2d then b else underscore

/-- `SanitizeName` -/
def sanitizeName (s : Text) : Text := if s = [] then ascii "classes" else s.map sanitizeByte

/-- `StripDexExt` -/
def stripDexExt (n : Text) : Text :=
  match [".dex", ".apk", ".jar", ".zip"].find? (fun ext => ext.length < n.length && ascii ext <:+ n) with
  | some ext => n.take (n.length - ext.length)
  | none => n

/-- `BaseNameOf` -/
def baseNameOf (p : Text) : Text :=
  match splitLast slash p with
  | some (_, name) => name
  | none => p

/-- An element of the class loader: its path, if it has one, and the native DEX files of its cookies, or of its first
method where the cookies have none. -/
structure Element where
  path : Option Text
  dexPtrs : List UInt64

def Element.origName (e : Element) : Text := e.path.elim (ascii "classes") baseNameOf

/-- The key of a file of that size and checksum. -/
def keyOf (buf : List UInt8) : UInt64 := (UInt64.ofNat buf.length <<< 32) ^^^ (stored buf).toUInt64

/-- The name of the file with that index. -/
def fileName (index : Nat) (origName : Text) (crc : UInt32) : Text :=
  Numerals.padded 10 4 index ++
    underscore :: (stripDexExt (sanitizeName origName) ++ underscore :: (Numerals.padded 16 8 crc.toNat ++ ascii ".dex"))

/-- A line of the details: a file that has been written. -/
structure Written where
  path : Text
  content : List UInt8
  repaired : Bool
  kind : Text

structure AllState where
  seen : List UInt64
  seenPtrs : List UInt64
  index : Nat
  written : List Written
  skipped : Nat
  fs : Files

def AllState.start (fs : Files) : AllState := ⟨[], [], 0, [], 0, fs⟩

/-- One native DEX file; `none` where the copy of its bytes faults. -/
def dumpOne (m : Mem) (outDir : Text) (ios : Nat → Io) (origName : Text) (s : AllState) (dfp : UInt64) :
    Option AllState :=
  if dfp = 0 ∨ dfp ∈ s.seenPtrs then some s
  else
    let s := { s with seenPtrs := s.seenPtrs ++ [dfp] }
    match dexMemoryFromArtDexFile m dfp with
    | none => some { s with skipped := s.skipped + 1 }
    | some (base, size) =>
      match m.read base size with
      | none => none
      | some bytes =>
        let r := buildRepairedDex bytes
        if keyOf r.out ∈ s.seen then some s
        else
          let s := { s with seen := s.seen ++ [keyOf r.out], index := s.index + 1 }
          let path := outDir ++ slash :: fileName s.index origName (stored r.out)
          let w := writeFile s.fs path r.out r.out.length (ios s.index)
          if w.2 = true then some { s with written := s.written ++ [⟨path, r.out, r.repaired, r.kind⟩], fs := w.1 }
          else some { s with skipped := s.skipped + 1, fs := w.1 }

/-- The DEX files with the names of their elements, in the order of the loops. -/
def candidates (elements : List Element) : List (Text × UInt64) :=
  elements.flatMap fun e => e.dexPtrs.map fun dfp => (e.origName, dfp)

/-- The loops of `JsDumpAllDex`; `ios` is what becomes of the file of each index. -/
def dumpAllDex (m : Mem) (outDir : Text) (ios : Nat → Io) (elements : List Element) (fs : Files) : Option AllState :=
  (candidates elements).foldlM (fun s c => dumpOne m outDir ios c.1 s c.2) (.start fs)

end ArtPi.Agent.DumpDex
