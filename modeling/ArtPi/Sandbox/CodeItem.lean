import ArtPi.Sandbox.Leb
import Mathlib.Data.List.Find

set_option autoImplicit false

/-! # Code items and what the repacked table finds

`CodeItem` is a well-formed standard code item with its spelling in bytes, and `CodeItem.scan` the
handlers of an address by a linear scan. `lookup_eq_scan` says that the interpreter finds the same
handlers in the table that `buildStandardCodeItem` makes of the bytes. -/

namespace ArtPi.Sandbox

/-! ## Handler lists -/

/-- `encoded_catch_handler`: the count is negative or zero if there is a catch-all address. -/
structure EncodedHandler where
  size : Leb
  pairs : List (Leb × Leb)
  catchAll : Option Leb
  size_eq : size.toI32 = if catchAll.isSome then -(pairs.length : Int) else pairs.length
  pairs_pos : catchAll = none → 0 < pairs.length

namespace EncodedHandler

variable (h : EncodedHandler)

def pairBytes (pairs : List (Leb × Leb)) : List UInt8 :=
  pairs.flatMap (fun p => p.1.bytes ++ p.2.bytes)

def bytes : List UInt8 :=
  h.size.bytes ++ (pairBytes h.pairs ++ (h.catchAll.map Leb.bytes).getD [])

/-- The handlers in their order, the catch-all last. -/
def entries : List VmCatchHandler :=
  h.pairs.map (fun p => ⟨p.1.toU32, p.2.toU32⟩) ++
    (h.catchAll.map (fun l => ⟨kNoIndex, l.toU32⟩)).toList

end EncodedHandler

/-- `encoded_catch_handler_list` -/
structure HandlerList where
  size : Leb
  handlers : List EncodedHandler
  size_eq : size.toU32 = handlers.length

def handlerBytes (hs : List EncodedHandler) : List UInt8 := hs.flatMap EncodedHandler.bytes

/-- The handler that starts at byte `off`, when the first one starts at `pos`. -/
def handlerAt : Nat → List EncodedHandler → Nat → Option EncodedHandler
  | _, [], _ => none
  | pos, h :: hs, off => if off = pos then some h else handlerAt (pos + h.bytes.length) hs off

namespace HandlerList

variable (l : HandlerList)

def bytes : List UInt8 := l.size.bytes ++ handlerBytes l.handlers

def startingAt (off : Nat) : Option EncodedHandler := handlerAt l.size.bytes.length l.handlers off

/-- The sizes that `measureCatchHandlerList` takes for sane. -/
structure Sane : Prop where
  handlers : l.handlers.length ≤ 0x10000
  pairs : ∀ h ∈ l.handlers, h.pairs.length ≤ 0x10000

end HandlerList

/-! ## Code items -/

/-- The `n` little-endian bytes of a number. -/
def leBytes (n v : Nat) : List UInt8 := (Bytes.beBytes n v).reverse

def TryItem.bytes (t : TryItem) : List UInt8 :=
  leBytes 4 t.startAddr ++ (leBytes 2 t.insnCount ++ leBytes 2 t.handlerOff)

def TryItem.covers (address : Nat) (t : TryItem) : Bool :=
  t.startAddr ≤ address && address < t.startAddr + t.insnCount

/-- A well-formed standard `code_item`. -/
structure CodeItem where
  registersSize : UInt16
  insSize : UInt16
  outsSize : UInt16
  debugInfoOff : UInt32
  insns : List UInt16
  padding : List UInt8
  tries : List TryItem
  handlers : HandlerList
  insns_lt : insns.length < 2 ^ 32
  padding_eq : padding.length = 2 * (insns.length % 2)
  tries_lt : tries.length < 2 ^ 16
  insnCount_lt : ∀ t ∈ tries, t.insnCount < 2 ^ 16
  inside : ∀ t ∈ tries, t.startAddr + t.insnCount ≤ insns.length
  sorted : tries.Pairwise (fun t u => t.startAddr + t.insnCount ≤ u.startAddr)
  handlerOff_lt : ∀ t ∈ tries, t.handlerOff < 2 ^ 16
  handlerOff_at : ∀ t ∈ tries, (handlers.startingAt t.handlerOff).isSome

namespace CodeItem

variable (c : CodeItem)

def header : List UInt8 :=
  leBytes 2 c.registersSize.toNat ++ (leBytes 2 c.insSize.toNat ++ (leBytes 2 c.outsSize.toNat ++
    (leBytes 2 c.tries.length ++ (leBytes 4 c.debugInfoOff.toNat ++ leBytes 4 c.insns.length))))

def insnBytes : List UInt8 := c.insns.flatMap (fun u => leBytes 2 u.toNat)

def triesBytes : List UInt8 := c.tries.flatMap TryItem.bytes

/-- A code item without tries has no padding and no handler list. -/
def bytes : List UInt8 :=
  c.header ++ (c.insnBytes ++
    if c.tries = [] then [] else c.padding ++ (c.triesBytes ++ c.handlers.bytes))

/-- The handlers of an address: those of the first try item that covers it. -/
def scan (address : Nat) : Option (List VmCatchHandler) :=
  (c.tries.find? (TryItem.covers address)).bind (fun t =>
    (c.handlers.startingAt t.handlerOff).map EncodedHandler.entries)

end CodeItem

/-! ## Measuring and iterating -/

theorem skipPairs_append (pairs : List (Leb × Leb)) (rest : List UInt8) :
    skipPairs pairs.length (EncodedHandler.pairBytes pairs ++ rest) = some rest := by
  induction pairs with
  | nil => rfl
  | cons p pairs ih =>
    simp only [EncodedHandler.pairBytes, List.flatMap_cons, List.append_assoc, List.length_cons,
      skipPairs, Leb.readUleb_append, Option.bind_eq_bind, Option.bind_some]
    exact ih

theorem EncodedHandler.size_natAbs (h : EncodedHandler) :
    h.size.toI32.natAbs = h.pairs.length := by
  rw [h.size_eq]
  split <;> omega

theorem EncodedHandler.size_nonpos (h : EncodedHandler) :
    h.size.toI32 ≤ 0 ↔ h.catchAll.isSome := by
  rw [h.size_eq]
  cases hc : h.catchAll with
  | none =>
    have := h.pairs_pos hc
    simp only [Option.isSome_none, Bool.false_eq_true, if_false, iff_false]
    omega
  | some l => simp

/-- The loop over the handlers skips them all, or stops at the first one that is too long. -/
theorem skipHandlers_append (hs : List EncodedHandler) (rest : List UInt8)
    (hsane : ∀ h ∈ hs, h.pairs.length ≤ 0x10000) :
    skipHandlers hs.length (handlerBytes hs ++ rest) = some (some rest) := by
  induction hs with
  | nil => rfl
  | cons h hs ih =>
    have hle := hsane h List.mem_cons_self
    have ih := ih (fun h' hh' => hsane h' (List.mem_cons_of_mem _ hh'))
    simp only [handlerBytes, List.flatMap_cons, EncodedHandler.bytes, List.append_assoc,
      List.length_cons, skipHandlers, Leb.readSleb_append, Option.bind_eq_bind,
      Option.bind_some, h.size_natAbs]
    rw [if_neg (by omega), skipPairs_append, Option.bind_some]
    cases hc : h.catchAll with
    | none =>
      rw [if_neg (by rw [h.size_nonpos, hc]; simp)]
      exact ih
    | some l =>
      rw [if_pos (by rw [h.size_nonpos, hc]; rfl)]
      simp only [Option.map_some, Option.getD_some, Leb.readUleb_append, Option.bind_some]
      exact ih

theorem HandlerList.Sane.measure {l : HandlerList} (h : l.Sane) (rest : List UInt8) :
    measureCatchHandlerList (l.bytes ++ rest) = some l.bytes.length := by
  have hle := h.handlers
  rw [measureCatchHandlerList, HandlerList.bytes, List.append_assoc, Leb.readUleb_append]
  simp only [Option.bind_eq_bind, Option.bind_some, l.size_eq]
  rw [if_neg (by omega), skipHandlers_append _ _ h.pairs]
  simp only [Option.bind_some, List.length_append, Option.some.injEq]
  omega

theorem iterate_pairs (pairs : List (Leb × Leb)) (all : Bool) (rest : List UInt8) (fuel : Nat)
    (tail : List VmCatchHandler) (h : iterate fuel ⟨rest, all, 0⟩ = some tail) :
    iterate (fuel + pairs.length)
        ⟨EncodedHandler.pairBytes pairs ++ rest, all, pairs.length⟩
      = some (pairs.map (fun p => ⟨p.1.toU32, p.2.toU32⟩) ++ tail) := by
  induction pairs with
  | nil => exact h
  | cons p pairs ih =>
    rw [List.length_cons, ← Nat.add_assoc, iterate]
    simp only [vmCatchIteratorNext, EncodedHandler.pairBytes, List.flatMap_cons,
      List.append_assoc, Leb.readUnsignedLeb128_append, Option.bind_eq_bind, Option.bind_some]
    rw [EncodedHandler.pairBytes] at ih
    rw [ih]
    rfl

theorem iterate_handler (h : EncodedHandler) (rest : List UInt8) :
    ((vmCatchIteratorInitToPointer (h.bytes ++ rest)).bind fun it =>
      iterate (it.countRemaining + 2) it) = some h.entries := by
  simp only [vmCatchIteratorInitToPointer, EncodedHandler.bytes, List.append_assoc,
    Leb.readSignedLeb128_append, Option.bind_eq_bind, Option.bind_some, h.size_natAbs,
    h.size_nonpos]
  rw [Nat.add_comm, EncodedHandler.entries]
  cases hc : h.catchAll with
  | none =>
    exact iterate_pairs h.pairs _ _ 2 [] rfl
  | some l =>
    refine iterate_pairs h.pairs _ _ 2 [⟨kNoIndex, l.toU32⟩] ?_
    simp [iterate, vmCatchIteratorNext, Leb.readUnsignedLeb128_append]

theorem handlerAt_split {hs : List EncodedHandler} {h : EncodedHandler} {pos off : Nat}
    (hat : handlerAt pos hs off = some h) (rest : List UInt8) :
    ∃ before behind, handlerBytes hs ++ rest = before ++ (h.bytes ++ behind) ∧
      off = pos + before.length := by
  induction hs generalizing pos with
  | nil => exact absurd hat (by simp [handlerAt])
  | cons h' hs ih =>
    rw [handlerAt] at hat
    split at hat
    · obtain rfl := Option.some.inj hat
      refine ⟨[], handlerBytes hs ++ rest, ?_, by simpa⟩
      simp [handlerBytes]
    · obtain ⟨before, behind, heq, hoff⟩ := ih hat
      refine ⟨h'.bytes ++ before, behind, ?_, ?_⟩
      · rw [handlerBytes, List.flatMap_cons, List.append_assoc, List.append_assoc]
        exact congrArg (h'.bytes ++ ·) heq
      · rw [List.length_append]
        omega

theorem HandlerList.drop_startingAt {l : HandlerList} {h : EncodedHandler} {off : Nat}
    (hat : l.startingAt off = some h) : ∃ behind, l.bytes.drop off = h.bytes ++ behind := by
  obtain ⟨before, behind, heq, rfl⟩ := handlerAt_split hat []
  rw [List.append_nil] at heq
  refine ⟨behind, ?_⟩
  rw [HandlerList.bytes, heq, ← List.append_assoc, ← List.length_append, List.drop_left]

/-! ## The try items -/

@[simp] theorem length_leBytes (n v : Nat) : (leBytes n v).length = n := by
  rw [leBytes, List.length_reverse, Bytes.length_beBytes]

theorem readLe_of_append {n v off : Nat} {mem pre post : List UInt8}
    (hmem : mem = pre ++ (leBytes n v ++ post)) (hoff : pre.length = off) (hv : v < 256 ^ n) :
    readLe n off mem = some v := by
  subst hmem hoff
  rw [readLe, if_pos (by simp), List.drop_left, List.take_left' (length_leBytes n v), leBytes,
    List.reverse_reverse, Bytes.beNat_beBytes hv]

theorem readTryItems_append (tries : List TryItem) (post : List UInt8)
    (hstart : ∀ t ∈ tries, t.startAddr < 2 ^ 32) (hcount : ∀ t ∈ tries, t.insnCount < 2 ^ 16)
    (hoff : ∀ t ∈ tries, t.handlerOff < 2 ^ 16) (pre : List UInt8) :
    readTryItems (pre ++ (tries.flatMap TryItem.bytes ++ post)) tries.length pre.length
      = some tries := by
  induction tries generalizing pre with
  | nil => rfl
  | cons t tries ih =>
    have hbuf : pre ++ ((t :: tries).flatMap TryItem.bytes ++ post)
        = pre ++ (t.bytes ++ (tries.flatMap TryItem.bytes ++ post)) := by
      rw [List.flatMap_cons, List.append_assoc]
    have hlen : (pre ++ t.bytes).length = pre.length + 8 := by
      simp [TryItem.bytes]
    have h1 := readLe_of_append
      (show pre ++ (t.bytes ++ (tries.flatMap TryItem.bytes ++ post))
        = pre ++ (leBytes 4 t.startAddr ++ (leBytes 2 t.insnCount ++ (leBytes 2 t.handlerOff ++
            (tries.flatMap TryItem.bytes ++ post)))) by simp [TryItem.bytes])
      rfl (hstart t List.mem_cons_self)
    have h2 := readLe_of_append
      (show pre ++ (t.bytes ++ (tries.flatMap TryItem.bytes ++ post))
        = (pre ++ leBytes 4 t.startAddr) ++ (leBytes 2 t.insnCount ++ (leBytes 2 t.handlerOff ++
            (tries.flatMap TryItem.bytes ++ post))) by simp [TryItem.bytes])
      (show _ = pre.length + 4 by simp) (hcount t List.mem_cons_self)
    have h3 := readLe_of_append
      (show pre ++ (t.bytes ++ (tries.flatMap TryItem.bytes ++ post))
        = (pre ++ (leBytes 4 t.startAddr ++ leBytes 2 t.insnCount)) ++ (leBytes 2 t.handlerOff ++
            (tries.flatMap TryItem.bytes ++ post)) by simp [TryItem.bytes])
      (show _ = pre.length + 6 by simp) (hoff t List.mem_cons_self)
    have ih := ih (fun u hu => hstart u (List.mem_cons_of_mem _ hu))
      (fun u hu => hcount u (List.mem_cons_of_mem _ hu))
      (fun u hu => hoff u (List.mem_cons_of_mem _ hu)) (pre ++ t.bytes)
    rw [List.append_assoc, hlen] at ih
    rw [hbuf, List.length_cons, readTryItems, h1, h2, h3, ih]
    rfl

theorem TryItem.side_eq {t : TryItem} (h : t.startAddr + t.insnCount < 2 ^ 32) (address : Nat) :
    t.side address = if address < t.startAddr then .lt
      else if address ≥ t.startAddr + t.insnCount then .gt else .eq := by
  rw [TryItem.side, Nat.mod_eq_of_lt h]

theorem TryItem.side_covers {t : TryItem} (h : t.startAddr + t.insnCount < 2 ^ 32)
    (address : Nat) : t.side address = .eq ↔ t.covers address = true := by
  rw [t.side_eq h, TryItem.covers, Bool.and_eq_true, decide_eq_true_eq, decide_eq_true_eq]
  split
  · exact iff_of_false (by simp) (by omega)
  split
  · exact iff_of_false (by simp) (by omega)
  · exact iff_of_true rfl (by omega)

/-- Try items in their order are ordered for the search of any address. -/
theorem TryItem.ordered {t u : TryItem} (ht : t.startAddr + t.insnCount < 2 ^ 32)
    (hu : u.startAddr + u.insnCount < 2 ^ 32) (h : t.startAddr + t.insnCount ≤ u.startAddr)
    (address : Nat) : Search.Ordered (TryItem.side address) t u := by
  refine ⟨?_, ?_, ?_⟩
  · rw [t.side_eq ht, u.side_eq hu]
    intro hlt
    rw [if_pos]
    by_contra hge
    rw [if_neg (by omega)] at hlt
    split at hlt <;> exact absurd hlt (by simp)
  · rw [t.side_eq ht, u.side_eq hu]
    intro hgt
    have hge : u.startAddr + u.insnCount ≤ address := by
      by_contra hlt
      rw [if_neg (show ¬ address ≥ u.startAddr + u.insnCount by omega)] at hgt
      split at hgt <;> exact absurd hgt (by simp)
    rw [if_neg (by omega), if_pos (by omega)]
  · intro ht' hu'
    rw [TryItem.side_covers ht, TryItem.covers] at ht'
    rw [TryItem.side_covers hu, TryItem.covers] at hu'
    simp only [Bool.and_eq_true, decide_eq_true_eq] at ht' hu'
    omega

theorem findOffset_eq (tries : List TryItem)
    (hend : ∀ t ∈ tries, t.startAddr + t.insnCount < 2 ^ 32)
    (hsorted : tries.Pairwise (fun t u => t.startAddr + t.insnCount ≤ u.startAddr))
    (address : Nat) :
    findOffset tries address
      = (tries.find? (TryItem.covers address)).map TryItem.handlerOff := by
  have hside : ∀ t ∈ tries, decide (t.side address = .eq) = t.covers address := by
    intro t ht
    rw [Bool.eq_iff_iff, decide_eq_true_eq]
    exact TryItem.side_covers (hend t ht) address
  match tries with
  | [] => rfl
  | [t] =>
    have ht := hside t List.mem_cons_self
    rw [List.find?_cons, List.find?_nil, ← ht, findOffset, TryItem.side]
    split
    · rfl
    split
    · rfl
    · rfl
  | t :: u :: ts =>
    have hfind := Search.bisect_eq_find? (TryItem.side address)
      (hsorted.imp_of_mem fun ht hu h => TryItem.ordered (hend _ ht) (hend _ hu) h address) .eq
    rw [List.find?_congr hside] at hfind
    rw [findOffset, vmFindCatchHandlerOffset0, hfind]
    all_goals simp

/-! ## The repacked table -/

namespace CodeItem

variable (c : CodeItem)

theorem length_insnBytes : c.insnBytes.length = 2 * c.insns.length := by
  rw [insnBytes]
  induction c.insns with
  | nil => rfl
  | cons u us ih =>
    rw [List.flatMap_cons, List.length_append, ih, length_leBytes, List.length_cons]
    omega

theorem length_triesBytes : c.triesBytes.length = c.tries.length * 8 := by
  rw [triesBytes]
  induction c.tries with
  | nil => rfl
  | cons t ts ih =>
    rw [List.flatMap_cons, List.length_append, ih, List.length_cons]
    simp [TryItem.bytes]
    omega

/-- The buffer that `buildStandardCodeItem` makes. -/
def repacked : List UInt8 := leBytes 2 c.tries.length ++ ([0, 0] ++ (c.triesBytes ++ c.handlers.bytes))

theorem end_lt {t : TryItem} (ht : t ∈ c.tries) : t.startAddr + t.insnCount < 2 ^ 32 := by
  have := c.inside t ht
  have := c.insns_lt
  omega

theorem asTryCatchHandler_repacked :
    asTryCatchHandler c.repacked = some ⟨c.tries, c.handlers.bytes⟩ := by
  have hsize : readLe 2 0 c.repacked = some c.tries.length :=
    readLe_of_append (List.nil_append _).symm rfl c.tries_lt
  have htries := readTryItems_append c.tries c.handlers.bytes
    (fun t ht => by have := c.end_lt ht; omega) c.insnCount_lt c.handlerOff_lt
    (leBytes 2 c.tries.length ++ [0, 0])
  have hdrop : c.repacked.drop (4 + c.tries.length * 8) = c.handlers.bytes := by
    have hlen : (leBytes 2 c.tries.length ++ ([0, 0] ++ c.triesBytes)).length
        = 4 + c.tries.length * 8 := by
      simp only [List.length_append, length_leBytes, c.length_triesBytes, List.length_cons,
        List.length_nil]
      omega
    have hbuf : c.repacked
        = leBytes 2 c.tries.length ++ ([0, 0] ++ c.triesBytes) ++ c.handlers.bytes := by
      simp only [repacked, List.append_assoc]
    rw [hbuf, ← hlen, List.drop_left]
  rw [List.append_assoc, List.length_append, length_leBytes] at htries
  rw [asTryCatchHandler, hsize]
  simp only [Option.bind_eq_bind, Option.bind_some, hdrop]
  rw [show readTryItems c.repacked c.tries.length 4 = some c.tries from htries, Option.bind_some]

theorem lookup_repacked (code : InterpCode) (hcode : code.tries = some c.repacked)
    (address : Nat) : lookup code address = some (c.scan address) := by
  rw [lookup, hcode]
  simp only [c.asTryCatchHandler_repacked, Option.bind_eq_bind, Option.bind_some]
  rw [findHandlers, findOffset_eq c.tries (fun t ht => c.end_lt ht) c.sorted, scan]
  cases hfind : c.tries.find? (TryItem.covers address) with
  | none => rfl
  | some t =>
    obtain ⟨h, hh⟩ := Option.isSome_iff_exists.mp
      (c.handlerOff_at t (List.mem_of_find?_eq_some hfind))
    obtain ⟨behind, hdrop⟩ := HandlerList.drop_startingAt hh
    have hiter := iterate_handler h behind
    simp only [Option.map_some, Option.bind_some, hh, hdrop]
    cases hinit : vmCatchIteratorInitToPointer (h.bytes ++ behind) with
    | none => rw [hinit] at hiter; exact absurd hiter (by simp)
    | some it =>
      rw [hinit, Option.bind_some] at hiter
      simp [hiter]

/-- The fields read from the header. -/
def built (tries : Option (List UInt8)) : InterpCode where
  registersSize := c.registersSize.toNat
  insSize := c.insSize.toNat
  outsSize := c.outsSize.toNat
  insnsCount := c.insns.length
  insns := 16
  tries := tries

/-- The fields are where `buildStandardCodeItem` reads them. -/
theorem readLe_header (rest : List UInt8) :
    readLe 2 0 (c.bytes ++ rest) = some c.registersSize.toNat ∧
      readLe 2 2 (c.bytes ++ rest) = some c.insSize.toNat ∧
      readLe 2 4 (c.bytes ++ rest) = some c.outsSize.toNat ∧
      readLe 2 6 (c.bytes ++ rest) = some c.tries.length ∧
      readLe 4 12 (c.bytes ++ rest) = some c.insns.length := by
  obtain ⟨tail, htail⟩ : ∃ tail, c.bytes ++ rest = c.header ++ tail := by
    rw [bytes, List.append_assoc]
    exact ⟨_, rfl⟩
  have hfield {n v off : Nat} (pre post : List UInt8)
      (h : c.header = pre ++ (leBytes n v ++ post)) (hoff : pre.length = off)
      (hv : v < 256 ^ n) : readLe n off (c.bytes ++ rest) = some v :=
    readLe_of_append (by rw [htail, h, List.append_assoc, List.append_assoc]) hoff hv
  have hregisters : readLe 2 0 (c.bytes ++ rest) = some c.registersSize.toNat :=
    hfield [] _ rfl rfl c.registersSize.toNat_lt
  have hins : readLe 2 2 (c.bytes ++ rest) = some c.insSize.toNat :=
    hfield (leBytes 2 c.registersSize.toNat) _ rfl rfl c.insSize.toNat_lt
  have houts : readLe 2 4 (c.bytes ++ rest) = some c.outsSize.toNat :=
    hfield (leBytes 2 c.registersSize.toNat ++ leBytes 2 c.insSize.toNat) _
      (by simp only [header, List.append_assoc]; rfl) rfl c.outsSize.toNat_lt
  have htries : readLe 2 6 (c.bytes ++ rest) = some c.tries.length :=
    hfield (leBytes 2 c.registersSize.toNat ++ leBytes 2 c.insSize.toNat ++
      leBytes 2 c.outsSize.toNat) _ (by simp only [header, List.append_assoc]; rfl) rfl c.tries_lt
  have hcount : readLe 4 12 (c.bytes ++ rest) = some c.insns.length :=
    hfield (leBytes 2 c.registersSize.toNat ++ leBytes 2 c.insSize.toNat ++
      leBytes 2 c.outsSize.toNat ++ leBytes 2 c.tries.length ++ leBytes 4 c.debugInfoOff.toNat) []
      (by simp only [header, List.append_assoc, List.append_nil]) rfl c.insns_lt
  exact ⟨hregisters, hins, houts, htries, hcount⟩

theorem build_noRegisters (addr : Nat) (hregs : c.registersSize = 0) (rest : List UInt8) :
    buildStandardCodeItem addr (c.bytes ++ rest) = some none := by
  obtain ⟨hregisters, hins, houts, htries, hcount⟩ := c.readLe_header rest
  rw [buildStandardCodeItem, hregisters, hins, houts, htries, hcount]
  simp [hregs]

/-- Behind the header `buildStandardCodeItem` looks at the handler list of a code item with
    tries. -/
theorem build_eq {addr : Nat} (haddr : addr % 4 = 0) (hregs : c.registersSize ≠ 0)
    (hinsns : c.insns ≠ []) (rest : List UInt8) :
    buildStandardCodeItem addr (c.bytes ++ rest)
      = if c.tries = [] then some (some (c.built none))
        else (measureCatchHandlerList (c.handlers.bytes ++ rest)).bind (fun n =>
          if n = 0 then some (some (c.built none))
          else some (some (c.built (some (leBytes 2 c.tries.length ++ ([0, 0] ++
            (c.triesBytes ++ (c.handlers.bytes ++ rest).take n))))))) := by
  obtain ⟨hregisters, hins, houts, htries, hcount⟩ := c.readLe_header rest
  have hpos : ¬ (c.insns.length = 0 ∨ c.registersSize.toNat = 0) := by
    rintro (h | h)
    · exact hinsns (List.length_eq_zero_iff.mp h)
    · exact hregs (UInt16.toNat_inj.mp h)
  rw [buildStandardCodeItem, hregisters, hins, houts, htries, hcount]
  simp only [Option.bind_eq_bind, Option.bind_some]
  rw [if_neg hpos]
  by_cases hnil : c.tries = []
  · rw [if_pos hnil, if_pos (by rw [hnil]; rfl)]
    rfl
  · -- the tries begin at the next multiple of four, which is where the padding ends
    have hoff : (addr + 16 + c.insns.length * 2 + 3) / 4 * 4 - addr
        = (c.header ++ (c.insnBytes ++ c.padding)).length := by
      have hheader : c.header.length = 16 := by simp [header]
      rw [List.length_append, List.length_append, hheader, c.length_insnBytes, c.padding_eq]
      omega
    have hdrop : (c.bytes ++ rest).drop ((addr + 16 + c.insns.length * 2 + 3) / 4 * 4 - addr)
        = c.triesBytes ++ (c.handlers.bytes ++ rest) := by
      have hbytes : c.bytes ++ rest = c.header ++ (c.insnBytes ++ c.padding) ++
          (c.triesBytes ++ (c.handlers.bytes ++ rest)) := by
        simp only [bytes, if_neg hnil, List.append_assoc]
      rw [hoff, hbytes, List.drop_left]
    have hle : [UInt8.ofNat c.tries.length, UInt8.ofNat (c.tries.length / 256), 0, 0]
        = leBytes 2 c.tries.length ++ [0, 0] := by
      simp [leBytes, Bytes.beBytes]
    rw [if_neg hnil, if_neg (fun h => hnil (List.length_eq_zero_iff.mp h)), hdrop,
      ← c.length_triesBytes, List.drop_left, List.take_left, hle]
    simp only [List.append_assoc]
    rfl

/-- A code item with sane handlers: the handler list is measured exactly, and the table that is
    built of it gives every address the handlers of a linear scan. -/
theorem lookup_eq_scan {addr : Nat} (haddr : addr % 4 = 0) (hregs : c.registersSize ≠ 0)
    (hinsns : c.insns ≠ []) (hsane : c.handlers.Sane) (rest : List UInt8) :
    measureCatchHandlerList (c.handlers.bytes ++ rest) = some c.handlers.bytes.length ∧
      ∃ code, buildStandardCodeItem addr (c.bytes ++ rest) = some (some code) ∧
        ∀ address, lookup code address = some (c.scan address) := by
  have hmeasure := hsane.measure rest
  refine ⟨hmeasure, ?_⟩
  rw [c.build_eq haddr hregs hinsns]
  by_cases hnil : c.tries = []
  · rw [if_pos hnil]
    refine ⟨_, rfl, fun address => ?_⟩
    rw [scan, hnil]
    rfl
  · have hpos : c.handlers.bytes.length ≠ 0 := by
      have hspelled := c.handlers.size.spelled
      intro hzero
      rw [HandlerList.bytes, List.length_append] at hzero
      rw [List.length_eq_zero_iff.mp (show c.handlers.size.bytes.length = 0 by omega)] at hspelled
      exact hspelled
    rw [if_neg hnil, hmeasure, Option.bind_some, if_neg hpos, List.take_left]
    exact ⟨_, rfl, fun address => c.lookup_repacked _ rfl address⟩

end CodeItem

/-! ## Two code items -/

def Leb.one (b : UInt8) (h : b.toNat < 128) : Leb := ⟨[b], h, by simp⟩

/-- Two try items, of which the second one has a typed handler, with its type in two bytes, and a
    catch-all. -/
def twoTries : CodeItem where
  registersSize := 1
  insSize := 0
  outsSize := 0
  debugInfoOff := 0
  insns := [0, 0, 0x0e]
  padding := [0, 0]
  tries := [⟨0, 1, 1⟩, ⟨1, 2, 3⟩]
  handlers :=
    { size := .one 2 (by decide)
      handlers :=
        [{ size := .one 0 (by decide)
           pairs := []
           catchAll := some (.one 2 (by decide))
           size_eq := by decide
           pairs_pos := by simp },
         { size := .one 0x7f (by decide)
           pairs := [(⟨[0x83, 0x01], by decide, by decide⟩, .one 2 (by decide))]
           catchAll := some (.one 0 (by decide))
           size_eq := by decide
           pairs_pos := by simp }]
      size_eq := by decide }
  insns_lt := by decide
  padding_eq := by decide
  tries_lt := by decide
  insnCount_lt := by decide
  inside := by decide
  sorted := by decide
  handlerOff_lt := by decide
  handlerOff_at := by decide

theorem lookup_twoTries :
    ∃ code, buildStandardCodeItem 0x1000 (twoTries.bytes ++ []) = some (some code) ∧
      lookup code 1 = some (some [⟨131, 2⟩, ⟨kNoIndex, 0⟩]) := by
  obtain ⟨-, code, hcode, hlookup⟩ := twoTries.lookup_eq_scan (show 0x1000 % 4 = 0 from rfl)
    (by decide) (by decide) ⟨by decide, by decide⟩ []
  exact ⟨code, hcode, (hlookup 1).trans (by decide)⟩

/-- A handler with `n` types. -/
def typed (n : Nat) (size : Leb) (hsize : size.toI32 = n) (hpos : 0 < n) : EncodedHandler where
  size := size
  pairs := List.replicate n (.one 0 (by decide), .one 0 (by decide))
  catchAll := none
  size_eq := by
    rw [List.length_replicate]
    exact hsize
  pairs_pos := by
    rw [List.length_replicate]
    exact fun _ => hpos

/-- A return inside a try item whose handler is `h`. -/
def oneTry (h : EncodedHandler) : CodeItem where
  registersSize := 1
  insSize := 0
  outsSize := 0
  debugInfoOff := 0
  insns := [0x0e]
  padding := [0, 0]
  tries := [⟨0, 1, 1⟩]
  handlers := { size := .one 1 (by decide), handlers := [h], size_eq := rfl }
  insns_lt := by decide
  padding_eq := by decide
  tries_lt := by decide
  insnCount_lt := by decide
  inside := by decide
  sorted := by decide
  handlerOff_lt := by decide
  handlerOff_at := by
    intro t ht
    rw [List.mem_singleton.mp ht]
    rfl

theorem skipHandlers_too_long {h : EncodedHandler} (hlong : 0x10000 < h.pairs.length) (n : Nat)
    (rest : List UInt8) : skipHandlers (n + 1) (h.bytes ++ rest) = some none := by
  simp only [skipHandlers, EncodedHandler.bytes, List.append_assoc, Leb.readSleb_append,
    Option.bind_eq_bind, Option.bind_some, h.size_natAbs]
  rw [if_pos (by omega)]

/-- The code item's tries are dropped when its handler has too many types. -/
theorem oneTry_dropped {h : EncodedHandler} (hlong : 0x10000 < h.pairs.length) :
    measureCatchHandlerList ((oneTry h).handlers.bytes ++ []) = some 0 ∧
      (oneTry h).handlers.bytes.length ≠ 0 ∧
      ∃ code, buildStandardCodeItem 0x1000 ((oneTry h).bytes ++ []) = some (some code) ∧
        lookup code 0 = some none ∧ (oneTry h).scan 0 ≠ none := by
  have hmeasure : measureCatchHandlerList ((oneTry h).handlers.bytes ++ []) = some 0 := by
    have hskip := skipHandlers_too_long hlong 0 []
    have hbytes : (oneTry h).handlers.bytes ++ []
        = (Leb.one 1 (by decide)).bytes ++ (h.bytes ++ []) := by
      simp [HandlerList.bytes, oneTry, handlerBytes]
    rw [hbytes, measureCatchHandlerList, Leb.readUleb_append,
      show (Leb.one 1 (by decide)).toU32 = 0 + 1 from rfl]
    simp only [Option.bind_eq_bind, Option.bind_some]
    rw [if_neg (by omega), hskip]
    rfl
  refine ⟨hmeasure, ?_, ?_⟩
  · simp [HandlerList.bytes, oneTry, Leb.one]
  · rw [(oneTry h).build_eq rfl (show (1 : UInt16) ≠ 0 by decide) (List.cons_ne_nil _ _), hmeasure]
    refine ⟨_, rfl, rfl, ?_⟩
    simp [CodeItem.scan, oneTry, TryItem.covers, HandlerList.startingAt, handlerAt, Leb.one]

/-- One more typed handler than `measureCatchHandlerList` takes for sane. -/
def manyTypes : EncodedHandler :=
  typed 65537 ⟨[0x81, 0x80, 0x04], by decide, by decide⟩ (by decide) (by decide)

def noRegisters : CodeItem := { twoTries with registersSize := 0 }

/-- The list is not measured, the tries are dropped, and handlers that the code item has are not
    found; and where there are no registers nothing is built. -/
theorem manyTypes_dropped :
    (measureCatchHandlerList ((oneTry manyTypes).handlers.bytes ++ []) = some 0 ∧
      (oneTry manyTypes).handlers.bytes.length ≠ 0 ∧
      ∃ code, buildStandardCodeItem 0x1000 ((oneTry manyTypes).bytes ++ []) = some (some code) ∧
        lookup code 0 = some none ∧ (oneTry manyTypes).scan 0 ≠ none) ∧
      buildStandardCodeItem 0x1000 (noRegisters.bytes ++ []) = some none ∧ noRegisters.scan 0 ≠ none :=
  ⟨oneTry_dropped (by
    rw [manyTypes, typed, List.length_replicate]
    decide), noRegisters.build_noRegisters 0x1000 rfl [], by decide⟩

end ArtPi.Sandbox
