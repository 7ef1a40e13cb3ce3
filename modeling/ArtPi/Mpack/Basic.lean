import ArtPi.Lib.Bytes

set_option autoImplicit false

/-! # MessagePack values, writer and reader (`engine/mpack/mpack.h`)

`Value` is the source's tagged struct, one constructor per `Type` with the one field that type
uses (the other fields of the struct are never read for that tag). Strings are byte strings, a
`double` is its 64-bit pattern: the writer and the reader only `memcpy` it.

The writer's methods append to `buffer`; each is modelled by the bytes it appends. The reader keeps
the whole buffer and `pos`, and every `data[i]` goes through `byteAt`, so that a read outside the
buffer is a result of its own (`Fault.outOfBounds`) and not silently excluded. -/

namespace ArtPi.Mpack

inductive Value where
  | nil
  | bool (b : Bool)
  | int (i64 : Int64)
  | uint (u64 : UInt64)
  | float (f64 : UInt64)
  | double (f64 : UInt64)
  | str (str : List UInt8)
  | bin (bin : List UInt8)
  | array (arr : List Value)
  | map (map : List (List UInt8 × Value))

/-- `Value::makeMap`. -/
def Value.makeMap : Value := .map []

/-- Replace the value of the first entry with key `key`, or append a new entry. -/
def setEntry (key : List UInt8) (val : Value) :
    List (List UInt8 × Value) → List (List UInt8 × Value)
  | [] => [(key, val)]
  | (k, v) :: rest => if k = key then (k, val) :: rest else (k, v) :: setEntry key val rest

/-- `Value::set`: a value of another type becomes a map first. -/
def Value.set (v : Value) (key : List UInt8) (val : Value) : Value :=
  match v with
  | .map m => .map (setEntry key val m)
  | _ => .map (setEntry key val [])

/-- `Value::get`: the first entry with the key. -/
def Value.get (v : Value) (key : List UInt8) : Option Value :=
  match v with
  | .map m => (m.find? (fun p => p.1 = key)).map Prod.snd
  | _ => none

def Value.getString (v : Value) (key : List UInt8) (dflt : List UInt8) : List UInt8 :=
  match v.get key with
  | some (.str s) => s
  | _ => dflt

def Value.getInt (v : Value) (key : List UInt8) (dflt : Int64) : Int64 :=
  match v.get key with
  | some (.int i) => i
  | some (.uint u) => u.toInt64
  | _ => dflt

def Value.getBool (v : Value) (key : List UInt8) (dflt : Bool) : Bool :=
  match v.get key with
  | some (.bool b) => b
  | _ => dflt

/-! ## Writer -/

def write16 (v : UInt16) : List UInt8 := [(v >>> 8).toUInt8, v.toUInt8]

def write32 (v : UInt32) : List UInt8 :=
  [(v >>> 24).toUInt8, (v >>> 16).toUInt8, (v >>> 8).toUInt8, v.toUInt8]

def write64 (v : UInt64) : List UInt8 :=
  ([7, 6, 5, 4, 3, 2, 1, 0] : List UInt64).map (fun i => (v >>> (i * 8)).toUInt8)

def writeNil : List UInt8 := [0xc0]

def writeBool (b : Bool) : List UInt8 := [if b then 0xc3 else 0xc2]

def writeInt (v : Int64) : List UInt8 :=
  if -32 ≤ v ∧ v ≤ 127 then [v.toUInt64.toUInt8]
  else if -128 ≤ v ∧ v ≤ 127 then [0xd0, v.toUInt64.toUInt8]
  else if -32768 ≤ v ∧ v ≤ 32767 then 0xd1 :: write16 v.toUInt64.toUInt16
  else if -2147483648 ≤ v ∧ v ≤ 2147483647 then 0xd2 :: write32 v.toUInt64.toUInt32
  else 0xd3 :: write64 v.toUInt64

def writeUInt (v : UInt64) : List UInt8 :=
  if v ≤ 127 then [v.toUInt8]
  else if v ≤ 0xff then [0xcc, v.toUInt8]
  else if v ≤ 0xffff then 0xcd :: write16 v.toUInt16
  else if v ≤ 0xffffffff then 0xce :: write32 v.toUInt32
  else 0xcf :: write64 v

def writeDouble (v : UInt64) : List UInt8 := 0xcb :: write64 v

/-- The tag and length in front of a string's bytes. -/
def writeStringHeader (len : Nat) : List UInt8 :=
  if len ≤ 31 then [UInt8.ofNat (0xa0 ||| len)]
  else if len ≤ 0xff then [0xd9, UInt8.ofNat len]
  else if len ≤ 0xffff then 0xda :: write16 (UInt16.ofNat len)
  else 0xdb :: write32 (UInt32.ofNat len)

def writeString (s : List UInt8) : List UInt8 := writeStringHeader s.length ++ s

def writeBinary (bin : List UInt8) : List UInt8 :=
  let len := bin.length
  (if len ≤ 0xff then [0xc4, UInt8.ofNat len]
    else if len ≤ 0xffff then 0xc5 :: write16 (UInt16.ofNat len)
    else 0xc6 :: write32 (UInt32.ofNat len)) ++ bin

def writeArrayHeader (size : Nat) : List UInt8 :=
  if size ≤ 15 then [UInt8.ofNat (0x90 ||| size)]
  else if size ≤ 0xffff then 0xdc :: write16 (UInt16.ofNat size)
  else 0xdd :: write32 (UInt32.ofNat size)

def writeMapHeader (size : Nat) : List UInt8 :=
  if size ≤ 15 then [UInt8.ofNat (0x80 ||| size)]
  else if size ≤ 0xffff then 0xde :: write16 (UInt16.ofNat size)
  else 0xdf :: write32 (UInt32.ofNat size)

mutual

def writeValue : Value → List UInt8
  | .nil => writeNil
  | .bool b => writeBool b
  | .int i => writeInt i
  | .uint u => writeUInt u
  | .float f => writeDouble f
  | .double f => writeDouble f
  | .str s => writeString s
  | .bin b => writeBinary b
  | .array arr => writeArrayHeader arr.length ++ writeItems arr
  | .map m => writeMapHeader m.length ++ writeEntries m

/-- The loop over `v.arr`. -/
def writeItems : List Value → List UInt8
  | [] => []
  | v :: vs => writeValue v ++ writeItems vs

/-- The loop over `v.map`. -/
def writeEntries : List (List UInt8 × Value) → List UInt8
  | [] => []
  | (k, v) :: rest => writeString k ++ (writeValue v ++ writeEntries rest)

end

/-! ## Reader -/

/-- The reader object: the buffer and the read position. -/
structure Reader where
  data : List UInt8
  pos : Nat := 0

def Reader.size (r : Reader) : Nat := r.data.length

def Reader.advance (r : Reader) (n : Nat) : Reader := { r with pos := r.pos + n }

/-- How a read can end other than with a value: `return false`, a `data[i]` with `i ≥ size`, or the
    recursion bound of the model. -/
inductive Fault where
  | reject
  | outOfBounds
  | tooDeep
  deriving DecidableEq

/-- A reading method: its answer and the reader it leaves. -/
def Read (α : Type) : Type := Reader → Except Fault α × Reader

instance : Monad Read where
  pure a := fun r => (.ok a, r)
  bind x f := fun r => match x r with
    | (.ok a, r') => f a r'
    | (.error e, r') => (.error e, r')

def fail {α : Type} (e : Fault) : Read α := fun r => (.error e, r)

/-- `data[i]`. -/
def byteAt (i : Nat) : Read UInt8 := fun r =>
  match r.data[i]? with
  | some b => (.ok b, r)
  | none => (.error .outOfBounds, r)

/-- `pos += n`. -/
def advance (n : Nat) : Read Unit := fun r => (.ok (), r.advance n)

def read8 : Read UInt8 := fun r =>
  if r.pos ≥ r.size then fail .reject r
  else (do
    let b ← byteAt r.pos
    advance 1
    pure b : Read UInt8) r

def read16 : Read UInt16 := fun r =>
  if r.pos + 2 > r.size then fail .reject r
  else (do
    let b0 ← byteAt r.pos
    let b1 ← byteAt (r.pos + 1)
    advance 2
    pure (b0.toUInt16 <<< 8 ||| b1.toUInt16) : Read UInt16) r

def read32 : Read UInt32 := fun r =>
  if r.pos + 4 > r.size then fail .reject r
  else (do
    let b0 ← byteAt r.pos
    let b1 ← byteAt (r.pos + 1)
    let b2 ← byteAt (r.pos + 2)
    let b3 ← byteAt (r.pos + 3)
    advance 4
    pure (b0.toUInt32 <<< 24 ||| b1.toUInt32 <<< 16 ||| b2.toUInt32 <<< 8 ||| b3.toUInt32) :
      Read UInt32) r

/-- `n` bytes from index `i` on. -/
def bytesAt (i : Nat) : Nat → Read (List UInt8)
  | 0 => pure []
  | n + 1 => do
    let b ← byteAt i
    let bs ← bytesAt (i + 1) n
    pure (b :: bs)

def read64 : Read UInt64 := fun r =>
  if r.pos + 8 > r.size then fail .reject r
  else (do
    let bs ← bytesAt r.pos 8
    advance 8
    pure (bs.foldl (fun out b => out <<< 8 ||| b.toUInt64) 0) : Read UInt64) r

def readStringContent (len : Nat) : Read Value := fun r =>
  if r.pos + len > r.size then fail .reject r
  else (do
    let s ← bytesAt r.pos len
    advance len
    pure (.str s) : Read Value) r

/-- The loop of `readArray`, over the recursive call `rv`. -/
def readItems (rv : Read Value) : Nat → Read (List Value)
  | 0 => pure []
  | n + 1 => do
    let item ← rv
    let rest ← readItems rv n
    pure (item :: rest)

/-- The memory for `arr.reserve(count)`, in front of the loop, is taken to be there: where it is not,
    the process ends before an element is read. The same in `readMap`. -/
def readArray (rv : Read Value) (count : Nat) : Read Value := do
  let arr ← readItems rv count
  pure (.array arr)

/-- The loop of `readMap`: a key that is not a string rejects the map. -/
def readEntries (rv : Read Value) : Nat → Read (List (List UInt8 × Value))
  | 0 => pure []
  | n + 1 => do
    let key ← rv
    match key with
    | .str k => do
      let val ← rv
      let rest ← readEntries rv n
      pure ((k, val) :: rest)
    | _ => fail .reject

def readMap (rv : Read Value) (count : Nat) : Read Value := do
  let m ← readEntries rv count
  pure (.map m)

/-- The tag switch of `readValue`; `rv` is the recursive call. -/
def readTagged (rv : Read Value) (tag : UInt8) : Read Value :=
  if tag ≤ 0x7f then pure (.int tag.toUInt64.toInt64)
  else if tag &&& 0xf0 = 0x80 then readMap rv (tag &&& 0x0f).toNat
  else if tag &&& 0xf0 = 0x90 then readArray rv (tag &&& 0x0f).toNat
  else if tag &&& 0xe0 = 0xa0 then readStringContent (tag &&& 0x1f).toNat
  else if tag &&& 0xe0 = 0xe0 then pure (.int tag.toInt8.toInt64)
  else match tag.toNat with
    | 0xc0 => pure .nil
    | 0xc2 => pure (.bool false)
    | 0xc3 => pure (.bool true)
    | 0xcc => do let v ← read8; pure (.uint v.toUInt64)
    | 0xcd => do let v ← read16; pure (.uint v.toUInt64)
    | 0xce => do let v ← read32; pure (.uint v.toUInt64)
    | 0xcf => do let v ← read64; pure (.uint v)
    | 0xd0 => do let v ← read8; pure (.int v.toInt8.toInt64)
    | 0xd1 => do let v ← read16; pure (.int v.toInt16.toInt64)
    | 0xd2 => do let v ← read32; pure (.int v.toInt32.toInt64)
    | 0xd3 => do let v ← read64; pure (.int v.toInt64)
    | 0xcb => do let u ← read64; pure (.double u)
    | 0xd9 => do let len ← read8; readStringContent len.toNat
    | 0xda => do let len ← read16; readStringContent len.toNat
    | 0xdb => do let len ← read32; readStringContent len.toNat
    | 0xdc => do let count ← read16; readArray rv count.toNat
    | 0xdd => do let count ← read32; readArray rv count.toNat
    | 0xde => do let count ← read16; readMap rv count.toNat
    | 0xdf => do let count ← read32; readMap rv count.toNat
    | _ => fail .reject

/-- `readValue` with its recursion depth bounded by the first argument. -/
def readValueN : Nat → Read Value
  | 0 => fail .tooDeep
  | fuel + 1 => do
    -- the tag is fetched like `read8` does: `pos >= size` rejects
    let tag ← read8
    readTagged (readValueN fuel) tag

/-- `Reader::readValue`. Every level of the recursion consumes its tag, so the bytes left bound the
    depth. -/
def readValue : Read Value := fun r => readValueN (r.size - r.pos + 1) r

end ArtPi.Mpack
