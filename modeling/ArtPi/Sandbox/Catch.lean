import ArtPi.Lib.Bytes
import ArtPi.Lib.Search

set_option autoImplicit false

/-! # Exception tables (`src/sandbox/pi_code_provider.cpp`, `vm/DexCatch.h`, `vm/Leb128.h`)

`buildStandardCodeItem` copies the try items and the handler list of a code item into the layout
that the interpreter wants, and the interpreter looks handlers up in the copy. Memory is the list of
bytes from the code item on; a function that reads bytes is `none` where it would read past them. -/

namespace ArtPi.Sandbox

/-! ## The readers of `measureCatchHandlerList` -/

/-- The loop of `readUleb`, of which `rounds` rounds are left before `shift` reaches 35. -/
def readUlebLoop : Nat → Nat → Nat → List UInt8 → Option (Nat × List UInt8)
  | 0, _, result, s => some (result, s)
  | _ + 1, _, _, [] => none
  | rounds + 1, shift, result, b :: s =>
    let result := result ||| ((b.toNat &&& 0x7f) <<< shift) % 2 ^ 32
    if b.toNat &&& 0x80 = 0 then some (result, s)
    else readUlebLoop rounds (shift + 7) result s

def readUleb (s : List UInt8) : Option (Nat × List UInt8) := readUlebLoop 5 0 0 s

/-- `int32_t`: the signed reading of 32 bits. -/
def i32 (n : Nat) : Int := if n < 2 ^ 31 then n else (n : Int) - 2 ^ 32

/-- The loop of `readSleb`. It has no bound; a shift by 32 or more is undefined. -/
def readSlebLoop : Nat → Nat → List UInt8 → Option (Int × List UInt8)
  | _, _, [] => none
  | shift, result, b :: s =>
    if 32 ≤ shift then none
    else
      let result := result ||| ((b.toNat &&& 0x7f) <<< shift) % 2 ^ 32
      if b.toNat &&& 0x80 ≠ 0 then readSlebLoop (shift + 7) result s
      else if shift + 7 < 32 ∧ b.toNat &&& 0x40 ≠ 0 then
        some (i32 (result ||| (2 ^ 32 - 2 ^ (shift + 7))), s)
      else some (i32 result, s)

def readSleb (s : List UInt8) : Option (Int × List UInt8) := readSlebLoop 0 0 s

def skipPairs : Nat → List UInt8 → Option (List UInt8)
  | 0, s => some s
  | n + 1, s => do
    let (_, s) ← readUleb s
    let (_, s) ← readUleb s
    skipPairs n s

/-- The loop over the handlers: what is left behind them, or `some none` if a handler has more than
    `0x10000` pairs. -/
def skipHandlers : Nat → List UInt8 → Option (Option (List UInt8))
  | 0, s => some (some s)
  | handlers + 1, s => do
    let (count, s) ← readSleb s
    if count.natAbs > 0x10000 then some none
    else
      let s ← skipPairs count.natAbs s
      let s ← if count ≤ 0 then (readUleb s).map Prod.snd else some s
      skipHandlers handlers s

def measureCatchHandlerList (p : List UInt8) : Option Nat := do
  let (handlers, s) ← readUleb p
  if handlers > 0x10000 then some 0
  else
    match ← skipHandlers handlers s with
    | none => some 0
    | some s => some (p.length - s.length)

/-! ## `buildStandardCodeItem` -/

/-- A little-endian number of `n` bytes at an offset. -/
def readLe (n off : Nat) (mem : List UInt8) : Option Nat :=
  if off + n ≤ mem.length then some (Bytes.beNat ((mem.drop off).take n).reverse) else none

/-- The fields of `InterpCode` that are filled in. `insns` is the offset of the code units, and
    `tries` the buffer that `triesPtr` points to if `hasTries`. -/
structure InterpCode where
  registersSize : Nat
  insSize : Nat
  outsSize : Nat
  insnsCount : Nat
  insns : Nat
  tries : Option (List UInt8)

/-- `addr` is the address of the code item. The result is `some none` where the source returns
    false. -/
def buildStandardCodeItem (addr : Nat) (mem : List UInt8) : Option (Option InterpCode) := do
  let registersSize ← readLe 2 0 mem
  let insSize ← readLe 2 2 mem
  let outsSize ← readLe 2 4 mem
  let triesSize ← readLe 2 6 mem
  let insnsCount ← readLe 4 12 mem
  let out : InterpCode := ⟨registersSize, insSize, outsSize, insnsCount, 16, none⟩
  if insnsCount = 0 ∨ registersSize = 0 then some none
  else if triesSize = 0 then some (some out)
  else
    -- the mask `~3` rounds down to a multiple of four
    let triesAddr := (addr + 16 + insnsCount * 2 + 3) / 4 * 4
    let tryItems := mem.drop (triesAddr - addr)
    let handlerList := tryItems.drop (triesSize * 8)
    let handlerBytes ← measureCatchHandlerList handlerList
    if handlerBytes = 0 then some (some out)
    else
      let header := [UInt8.ofNat triesSize, UInt8.ofNat (triesSize / 256), 0, 0]
      some (some { out with
        tries := some (header ++ tryItems.take (triesSize * 8) ++ handlerList.take handlerBytes) })

/-! ## Looking up handlers -/

structure TryItem where
  startAddr : Nat
  insnCount : Nat
  handlerOff : Nat

/-- `TryCatchHandler`, and what `vmGetCatchHandlerData` points to. -/
structure TryCatchHandler where
  tryItems : List TryItem
  handlerData : List UInt8

def readTryItems (buf : List UInt8) : Nat → Nat → Option (List TryItem)
  | 0, _ => some []
  | n + 1, off => do
    let startAddr ← readLe 4 off buf
    let insnCount ← readLe 2 (off + 4) buf
    let handlerOff ← readLe 2 (off + 6) buf
    let items ← readTryItems buf n (off + 8)
    some (⟨startAddr, insnCount, handlerOff⟩ :: items)

/-- The cast of `triesPtr` to `TryCatchHandler *`. -/
def asTryCatchHandler (buf : List UInt8) : Option TryCatchHandler := do
  let triesSize ← readLe 2 0 buf
  let tryItems ← readTryItems buf triesSize 4
  some ⟨tryItems, buf.drop (4 + triesSize * 8)⟩

/-- On which side of the try item an address lies; the end is a `u4`. -/
def TryItem.side (address : Nat) (t : TryItem) : Ordering :=
  if address < t.startAddr then .lt
  else if address ≥ (t.startAddr + t.insnCount) % 2 ^ 32 then .gt
  else .eq

def vmFindCatchHandlerOffset0 (tries : List TryItem) (address : Nat) : Option Nat :=
  ((Search.bisect (fun guess => (tries[guess]?.map (TryItem.side address)).getD .eq) 0
    ((tries.length : Int) - 1)).bind (tries[·]?)).map TryItem.handlerOff

/-- The first half of `vmFindCatchHandler`, with -1 as `none`. -/
def findOffset (tries : List TryItem) (address : Nat) : Option Nat :=
  match tries with
  | [] => none
  | [t] =>
    if address < t.startAddr then none
    else if address ≥ (t.startAddr + t.insnCount) % 2 ^ 32 then none
    else some t.handlerOff
  | _ => vmFindCatchHandlerOffset0 tries address

def kNoIndex : Nat := 0xffffffff

structure VmCatchHandler where
  typeIdx : Nat
  address : Nat
  deriving DecidableEq

structure VmCatchIterator where
  pEncodedData : List UInt8
  catchesAll : Bool
  countRemaining : Nat

/-- `*(ptr++)` -/
def nextByte : List UInt8 → Option (Nat × List UInt8)
  | [] => none
  | b :: s => some (b.toNat, s)

def readUnsignedLeb128 (s : List UInt8) : Option (Nat × List UInt8) := do
  let (result, s) ← nextByte s
  if result > 0x7f then
    let (cur, s) ← nextByte s
    let result := (result &&& 0x7f) ||| ((cur &&& 0x7f) <<< 7) % 2 ^ 32
    if cur > 0x7f then
      let (cur, s) ← nextByte s
      let result := result ||| ((cur &&& 0x7f) <<< 14) % 2 ^ 32
      if cur > 0x7f then
        let (cur, s) ← nextByte s
        let result := result ||| ((cur &&& 0x7f) <<< 21) % 2 ^ 32
        if cur > 0x7f then
          let (cur, s) ← nextByte s
          some (result ||| (cur <<< 28) % 2 ^ 32, s)
        else some (result, s)
      else some (result, s)
    else some (result, s)
  else some (result, s)

/-- `(result << k) >> k` on an `int`. -/
def signExtend (result k : Nat) : Int := i32 ((result <<< k) % 2 ^ 32) >>> k

def readSignedLeb128 (s : List UInt8) : Option (Int × List UInt8) := do
  let (result, s) ← nextByte s
  if result ≤ 0x7f then some (signExtend result 25, s)
  else
    let (cur, s) ← nextByte s
    let result := (result &&& 0x7f) ||| ((cur &&& 0x7f) <<< 7) % 2 ^ 32
    if cur ≤ 0x7f then some (signExtend result 18, s)
    else
      let (cur, s) ← nextByte s
      let result := result ||| ((cur &&& 0x7f) <<< 14) % 2 ^ 32
      if cur ≤ 0x7f then some (signExtend result 11, s)
      else
        let (cur, s) ← nextByte s
        let result := result ||| ((cur &&& 0x7f) <<< 21) % 2 ^ 32
        if cur ≤ 0x7f then some (signExtend result 4, s)
        else
          let (cur, s) ← nextByte s
          some (i32 (result ||| (cur <<< 28) % 2 ^ 32), s)

def vmCatchIteratorInitToPointer (pEncodedData : List UInt8) : Option VmCatchIterator := do
  let (count, s) ← readSignedLeb128 pEncodedData
  some ⟨s, count ≤ 0, count.natAbs⟩

/-- `some none` at the end of the handlers. -/
def vmCatchIteratorNext (it : VmCatchIterator) : Option (Option (VmCatchHandler × VmCatchIterator)) :=
  match it.countRemaining with
  | 0 =>
    if !it.catchesAll then some none
    else do
      let (address, s) ← readUnsignedLeb128 it.pEncodedData
      some (some (⟨kNoIndex, address⟩, ⟨s, false, 0⟩))
  | n + 1 => do
    let (typeIdx, s) ← readUnsignedLeb128 it.pEncodedData
    let (address, s) ← readUnsignedLeb128 s
    some (some (⟨typeIdx, address⟩, ⟨s, it.catchesAll, n⟩))

/-- All handlers the iterator gives, in their order; `fuel` is the number of calls allowed. -/
def iterate : Nat → VmCatchIterator → Option (List VmCatchHandler)
  | 0, _ => none
  | fuel + 1, it => do
    match ← vmCatchIteratorNext it with
    | none => some []
    | some (h, it') => do
      let hs ← iterate fuel it'
      some (h :: hs)

/-- `vmFindCatchHandler` and the iteration of `findCatchInMethod` over its result: `some none` if no
    try item covers the address. An iterator gives at most one handler more than its count. -/
def findHandlers (pHandler : TryCatchHandler) (address : Nat) :
    Option (Option (List VmCatchHandler)) :=
  match findOffset pHandler.tryItems address with
  | none => some none
  | some offset => do
    let it ← vmCatchIteratorInitToPointer (pHandler.handlerData.drop offset)
    let hs ← iterate (it.countRemaining + 2) it
    some (some hs)

/-- `dvmFindCatchBlock` up to the choice among the handlers: without tries nothing is found. -/
def lookup (code : InterpCode) (address : Nat) : Option (Option (List VmCatchHandler)) :=
  match code.tries with
  | none => some none
  | some buf => do
    let pHandler ← asTryCatchHandler buf
    findHandlers pHandler address

end ArtPi.Sandbox
