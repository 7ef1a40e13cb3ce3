import ArtPi.Unity.Values

set_option autoImplicit false

/-! # Writes to fields

A field of a type that `WriteValue` has no name for gets eight bytes whatever its size is, and is read back from eight
bytes without a sign. `Kept` says by the type, the value and the bytes behind the field when that is right. -/

namespace ArtPi.Unity

open Lib

/-! ## What a write should do -/

/-- A value of a type, as the engine should have it. -/
inductive Converted where
  | bool (b : Bool)
  | int (v : Int)
  | float (bits : UInt64)
  | text (units : List UInt16)
  | floats (fields : List (String × UInt64))

/-- The value that a result stands for. A BigInt and a number are the same integer. -/
def JsResult.value : JsResult → Option Converted
  | .bool b => some (.bool b)
  | .number v | .bigint v => some (.int v)
  | .float bits => some (.float bits)
  | .string units => some (.text units)
  | .object fields => some (.floats fields)
  | .undefined | .null | .typeError => none

/-- A value of the engine converted to a type. A struct of eight bytes is a pointer, as `ReadValue` has it; a struct of
another size is no number. -/
def Engine.converted (e : Engine) (k : Kind) (v : JsValue) : Option Converted :=
  match k with
  | .boolean => some (.bool (e.toBool v))
  | .integer t | .enum t => some (.int (t.wrap (e.toI64 v).toNat))
  | .address => some (.int (e.toI64 v).toNat)
  | .single => some (.float (e.widen (e.narrow (e.toFloat64 v))))
  | .double => some (.float (e.toFloat64 v))
  | .string => some (.text (e.toStr v))
  | .floats names => some (.floats (names.map fun name => (name, e.widen (e.component v name))))
  | .reference => some (.int (e.parsePtr v).toNat)
  | .struct size => if size = 8 then some (.int (e.parsePtr v).toNat) else none

/-- Where the field is. -/
def Field.place (f : Field) (obj : Nat) : Nat := if f.static_field = true then f.storage else obj + f.offset

/-- The write touches only the field, and a read gives the value. -/
def WriteRight (e : Engine) (rt : Runtime) (p : Proc) (f : Field) (obj : Nat) (v : JsValue) : Prop :=
  ∃ p', writeField e rt p f obj v = some (true, p') ∧
    (∀ a, a < f.place obj ∨ f.place obj + f.size ≤ a → p'.mem a = p.mem a) ∧
      ∃ c r, e.converted f.type.kind v = some c ∧ readField e p' f obj = some r ∧ r.value = some c

/-- Integers of eight bytes are not negative. A string is plain. A static field is not larger than eight bytes. The
number for an enumeration is what `ParsePtr` makes of the value, and behind a field of one that is smaller than eight
bytes there are zeros up to there. Another struct has eight bytes. -/
def Kept (e : Engine) (p : Proc) (f : Field) (obj : Nat) (v : JsValue) : Prop :=
  match f.type.kind with
  | .boolean | .address | .single | .double | .reference => True
  | .integer t => t.bytes = 8 → 0 ≤ t.wrap (e.toI64 v).toNat
  | .string => PlainUnits (e.toStr v)
  | .floats names => f.static_field = true → 4 * names.length ≤ 8
  | .enum t =>
    if f.static_field = true then (((e.parsePtr v).toNat % 256 ^ t.bytes : Nat) : Int) = t.wrap (e.toI64 v).toNat
    else ((e.parsePtr v).toNat : Int) = t.wrap (e.toI64 v).toNat ∧
      ∀ i, t.bytes ≤ i → i < 8 → p.mem (f.place obj + i) = 0
  | .struct size => size = 8

/-! ## Numbers in bytes -/

@[simp] theorem length_leBytes (n v : Nat) : (leBytes n v).length = n := by
  unfold leBytes
  rw [List.length_map, List.length_range]

theorem leNat_leBytes (n v : Nat) : Bytes.leNat (leBytes n v) = v % 256 ^ n := Bytes.leNat_map_shr n v

theorem leNat_leBytes_of_lt {n v : Nat} (h : v < 256 ^ n) : Bytes.leNat (leBytes n v) = v := by
  rw [leNat_leBytes, Nat.mod_eq_of_lt h]

theorem take_leBytes {k n : Nat} (h : k ≤ n) (v : Nat) : (leBytes n v).take k = leBytes k v := by
  unfold leBytes
  rw [← List.map_take, List.take_range, Nat.min_eq_left h]

theorem leNat_append_zeros (bs : List UInt8) (k : Nat) : Bytes.leNat (bs ++ List.replicate k 0) = Bytes.leNat bs := by
  induction k with
  | zero => rw [List.replicate_zero, List.append_nil]
  | succ k ih =>
    rw [List.replicate_succ', ← List.append_assoc, Bytes.leNat_concat, ih]
    simp

theorem getElem?_leBytes_eq_zero {n k v i : Nat} (hv : v < 256 ^ k) (hk : k ≤ i) (hi : i < n) :
    (leBytes n v)[i]? = some 0 := by
  have hpow : 256 ^ k ≤ 2 ^ (8 * i) := by
    rw [show 256 = 2 ^ 8 from rfl, ← Nat.pow_mul]
    exact Nat.pow_le_pow_right (by decide) (by omega)
  unfold leBytes
  rw [List.getElem?_map, List.getElem?_range hi, Option.map_some, Nat.shiftRight_eq_div_pow,
    Nat.div_eq_of_lt (Nat.lt_of_lt_of_le hv hpow)]
  rfl

theorem toNat_lt_256 (n : UInt64) : n.toNat < 256 ^ 8 := n.toNat_lt

namespace IntType

variable (t : IntType)

theorem wrap_lt (n : Nat) : t.wrap n < 256 ^ t.bytes := by
  have hlt : n % 256 ^ t.bytes < 256 ^ t.bytes := Nat.mod_lt n (Nat.pow_pos (by decide))
  unfold wrap
  split_ifs
  · push_cast
    omega
  · exact_mod_cast hlt

/-- A value that is not negative is the number in the low bytes. -/
theorem wrap_eq_iff (n : Nat) : ((n % 256 ^ t.bytes : Nat) : Int) = t.wrap n ↔ 0 ≤ t.wrap n := by
  have hlt : n % 256 ^ t.bytes < 256 ^ t.bytes := Nat.mod_lt n (Nat.pow_pos (by decide))
  have hcast : ((256 ^ t.bytes : Nat) : Int) = 256 ^ t.bytes := by push_cast; rfl
  unfold wrap
  split_ifs
  · omega
  · exact iff_of_true rfl (by omega)

theorem wrap_mod (n : Nat) : t.wrap (n % 256 ^ t.bytes) = t.wrap n := by
  unfold wrap
  rw [Nat.mod_mod]

end IntType

/-! ## Accesses -/

section Access

variable {e : Engine} {rt : Runtime} {p : Proc} {f : Field} {obj : Nat} {v : JsValue}

theorem length_encode (strings : Strings) {k : Kind} {w : Writer} (h : k.writer = some w) :
    (e.encode rt strings w v).1.length = k.size := by
  cases k with
  | floats names =>
    obtain rfl := Option.some.inj h
    unfold Engine.encode Kind.size
    dsimp only
    rw [List.length_flatMap]
    simp [Nat.mul_comm]
  | enum _ => cases h
  | struct _ => cases h
  | reference => cases h
  | _ =>
    obtain rfl := Option.some.inj h
    simp [Engine.encode, Kind.size]

theorem width_reader {k : Kind} {r : Reader} (h : k.reader = some r) : r.width = k.size := by
  cases k with
  | integer t =>
    obtain rfl := Option.some.inj h
    unfold Kind.size
    dsimp only
    split_ifs with hbytes
    · exact hbytes.symm
    · rfl
  | enum _ => cases h
  | struct _ => cases h
  | reference => cases h
  | _ =>
    obtain rfl := Option.some.inj h
    rfl

theorem putFront_zeros (bs : List UInt8) : putFront (List.replicate 8 0) bs =
    if bs.length ≤ 8 then some (bs ++ List.replicate (8 - bs.length) 0) else none := by
  unfold putFront
  rw [List.length_replicate, List.drop_replicate]

theorem takeFront_append (bs rest : List UInt8) {n : Nat} (h : bs.length = n) : takeFront (bs ++ rest) n = some bs := by
  unfold takeFront
  rw [if_pos (by rw [List.length_append]; omega), ← h, List.take_left]

/-- A field with an access in both lists is right if it fits the buffer and the bytes of the value are read as it. -/
theorem writeRight_iff_of_access {r : Reader} {w : Writer} (hobj : obj ≠ 0) (hr : f.type.kind.reader = some r)
    (hw : f.type.kind.writer = some w) : WriteRight e rt p f obj v ↔
      (f.static_field = true → f.size ≤ 8) ∧
        ∃ c, e.converted f.type.kind v = some c ∧
          (e.present (e.encode rt p.strings w v).2 r (e.encode rt p.strings w v).1).value = some c := by
  have hlen : (e.encode rt p.strings w v).1.length = f.size := length_encode p.strings hw
  have hwidth : r.width = f.size := width_reader hr
  have hwrite : e.writeValue rt p.strings f.type.toUnityType v = e.encode rt p.strings w v := by
    unfold Engine.writeValue
    rw [f.type.lookup_eq.2, hw]
  have hread (strings : Strings) (load : Nat → Option (List UInt8)) :
      e.readValue strings f.type.toUnityType load = (load f.size).map (e.present strings r) := by
    unfold Engine.readValue
    rw [f.type.lookup_eq.1, hr, ← hwidth]
  generalize e.encode rt p.strings w v = written at hlen hwrite ⊢
  have hback : (p.mem.write (f.place obj) written.1).read (f.place obj) f.size = written.1 := by
    rw [← hlen]
    exact Memory.read_write _ _ _
  have hframe (a : Nat) (ha : a < f.place obj ∨ f.place obj + f.size ≤ a) :
      p.mem.write (f.place obj) written.1 a = p.mem a := by
    rw [Memory.write_apply]
    unfold Memory.put
    split_ifs with hle
    · rw [List.getElem?_eq_none (by omega), Option.getD_none]
    · rfl
  unfold WriteRight writeField readField
  simp only [hwrite, hread]
  unfold Field.place at hback hframe ⊢
  cases hstatic : f.static_field with
  | true =>
    simp only [hstatic, if_true, f.type.rawSize_eq, putFront_zeros, hlen] at hback hframe ⊢
    by_cases hsize : f.size ≤ 8
    · simp only [hsize, if_true, Option.bind_eq_bind, Option.bind_some, takeFront_append written.1 _ hlen,
        Option.some.injEq, Prod.mk.injEq, true_and, forall_const]
      constructor
      · rintro ⟨p', rfl, -, c, res, hc, hres, hvalue⟩
        rw [hback, hlen, if_pos hsize, Option.bind_some, takeFront_append written.1 _ hlen, Option.map_some] at hres
        exact ⟨c, hc, Option.some.inj hres ▸ hvalue⟩
      · rintro ⟨c, hc, hvalue⟩
        refine ⟨_, rfl, hframe, c, _, hc, ?_, hvalue⟩
        rw [hback, hlen, if_pos hsize, Option.bind_some, takeFront_append written.1 _ hlen, Option.map_some]
    · simp only [hsize, if_false, Option.bind_eq_bind, Option.bind_none]
      refine iff_of_false ?_ fun h => h.1 trivial
      rintro ⟨p', hp', -⟩
      cases hp'
  | false =>
    simp only [hstatic, Bool.false_eq_true, if_false, hobj, Option.some.injEq, Prod.mk.injEq, true_and,
      false_implies] at hback hframe ⊢
    constructor
    · rintro ⟨p', rfl, -, c, res, hc, hres, hvalue⟩
      rw [hback, Option.map_some] at hres
      exact ⟨c, hc, Option.some.inj hres ▸ hvalue⟩
    · rintro ⟨c, hc, hvalue⟩
      refine ⟨_, rfl, hframe, c, _, hc, ?_, hvalue⟩
      rw [hback, Option.map_some]

/-- An enumeration, a reference or a struct of eight bytes has none of the names. -/
theorem isValueTypeName_eq_false (h : f.type.kind.reader = none) (hstruct : ∀ n, f.type.kind = .struct n → n = 8) :
    isValueTypeName f.type.name = false := by
  have hsub : ∀ n ∈ kValueTypes, n ∈ builtins.map Prod.fst := by decide
  have hsizes : ∀ x ∈ builtins, x.2.reader = none → ∃ n, n ≠ 8 ∧ x.2 = .struct n := by
    have hall : ∀ x ∈ builtins, x.2.reader = none → x.2 = .struct 16 ∨ x.2 = .struct 4 ∨ x.2 = .struct 24 := by
      decide
    intro x hx hnone
    rcases hall x hx hnone with hk | hk | hk
    · exact ⟨16, by decide, hk⟩
    · exact ⟨4, by decide, hk⟩
    · exact ⟨24, by decide, hk⟩
  have hnone : builtins.lookup f.type.name = none := by
    cases hlookup : builtins.lookup f.type.name with
    | none => rfl
    | some k =>
      have hkind := f.type.builtin k hlookup
      obtain ⟨n, hn, hk⟩ := hsizes _ (f.type.mem_builtins hlookup) (hkind ▸ h)
      exact absurd (hstruct n (hkind.trans hk)) hn
  have hlookup : ∀ y ∈ builtins, f.type.name ≠ y.1 := by
    simpa using List.lookup_eq_none_iff.mp hnone
  unfold isValueTypeName
  rw [← Bool.not_eq_true, List.contains_iff_mem]
  intro hmem
  obtain ⟨y, hy, hname⟩ := List.mem_map.mp (hsub _ hmem)
  exact hlookup y hy hname.symm

/-- A write of eight bytes outside of a field leaves what is there if it writes the same. -/
theorem write_frame_iff (m : Memory) (a n : Nat) {bs : List UInt8} (hlen : bs.length = 8) :
    (∀ x, x < a ∨ a + n ≤ x → m.write a bs x = m x) ↔ ∀ i, n ≤ i → i < 8 → bs[i]? = some (m (a + i)) := by
  constructor
  · intro h i hn hi
    have hx := h (a + i) (.inr (by omega))
    rw [Memory.write_apply, Memory.put, if_pos (Nat.le_add_right a i), Nat.add_sub_cancel_left] at hx
    have hsome : bs[i]? = some bs[i] := List.getElem?_eq_getElem (by omega)
    rw [hsome, Option.getD_some] at hx
    rw [hsome, hx]
  · intro h x hx
    rw [Memory.write_apply, Memory.put]
    split_ifs with hle
    · by_cases hlt : x - a < 8
      · rw [h (x - a) (by omega) hlt, Option.getD_some, show a + (x - a) = x by omega]
      · rw [List.getElem?_eq_none (by omega), Option.getD_none]
    · rfl

/-- Without an access an instance field gets the eight bytes of a pointer, and they are read back. -/
theorem writeRight_iff_of_instance (hobj : obj ≠ 0) (hr : f.type.kind.reader = none) (hw : f.type.kind.writer = none)
    (hname : isValueTypeName f.type.name = false) (hstatic : f.static_field = false) : WriteRight e rt p f obj v ↔
      (∀ i, f.size ≤ i → i < 8 → (leBytes 8 (e.parsePtr v).toNat)[i]? = some (p.mem (f.place obj + i))) ∧
        e.converted f.type.kind v = some (.int (e.parsePtr v).toNat) := by
  have hwrite : writeField e rt p f obj v =
      some (true, ⟨p.mem.write (f.place obj) (leBytes 8 (e.parsePtr v).toNat), p.strings⟩) := by
    unfold writeField Engine.writeValue Field.place
    simp only [f.type.lookup_eq.2, hw, hstatic, Bool.false_eq_true, if_false, hobj]
  have hback := Memory.read_write p.mem (f.place obj) (leBytes 8 (e.parsePtr v).toNat)
  rw [length_leBytes] at hback
  have hread : readField e ⟨p.mem.write (f.place obj) (leBytes 8 (e.parsePtr v).toNat), p.strings⟩ f obj =
      some (.bigint (e.parsePtr v).toNat) := by
    unfold readField Engine.readValue
    unfold Field.place at hback ⊢
    simp only [hstatic, Bool.false_eq_true, if_false] at hback ⊢
    simp only [f.type.lookup_eq.1, hr, hobj, if_false, hname, or_true, if_true, hback, Option.map_some,
      Engine.present, leNat_leBytes_of_lt (toNat_lt_256 _)]
  unfold WriteRight
  rw [hwrite, ← write_frame_iff p.mem (f.place obj) f.size (length_leBytes 8 _)]
  constructor
  · rintro ⟨p', hp', hframe, c, r, hc, hr, hvalue⟩
    obtain rfl := (Prod.mk.inj (Option.some.inj hp')).2
    obtain rfl := Option.some.inj (hread.symm.trans hr)
    exact ⟨hframe, hc.trans (hvalue.symm)⟩
  · rintro ⟨hframe, hc⟩
    exact ⟨_, rfl, hframe, _, _, hc, hread, rfl⟩

/-- Without an access a static field of up to eight bytes gets the low bytes of a pointer, and they are read back. -/
theorem writeRight_iff_of_static (hr : f.type.kind.reader = none) (hw : f.type.kind.writer = none)
    (hname : isValueTypeName f.type.name = false) (hstatic : f.static_field = true) (hsize : f.size ≤ 8) :
    WriteRight e rt p f obj v ↔
      e.converted f.type.kind v = some (.int ((e.parsePtr v).toNat % 256 ^ f.size : Nat)) := by
  have hwrite : writeField e rt p f obj v =
      some (true, ⟨p.mem.write (f.place obj) (leBytes f.size (e.parsePtr v).toNat), p.strings⟩) := by
    unfold writeField Engine.writeValue Field.place
    simp only [f.type.lookup_eq.2, hw, hstatic, if_true, f.type.rawSize_eq, putFront_zeros, length_leBytes,
      Nat.le_refl, Option.bind_eq_bind, Option.bind_some, Nat.sub_self, List.replicate_zero, List.append_nil]
    unfold takeFront
    rw [length_leBytes, if_pos hsize, Option.bind_some, take_leBytes hsize]
  have hback := Memory.read_write p.mem (f.place obj) (leBytes f.size (e.parsePtr v).toNat)
  rw [length_leBytes] at hback
  have hread : readField e ⟨p.mem.write (f.place obj) (leBytes f.size (e.parsePtr v).toNat), p.strings⟩ f obj =
      some (.bigint ((e.parsePtr v).toNat % 256 ^ f.size : Nat)) := by
    have hbuf : (leBytes f.size (e.parsePtr v).toNat ++ List.replicate (8 - f.size) 0).length = 8 := by
      rw [List.length_append, length_leBytes, List.length_replicate]
      omega
    unfold readField Engine.readValue
    unfold Field.place at hback ⊢
    simp only [hstatic, if_true] at hback ⊢
    simp only [f.type.lookup_eq.1, hr, f.type.rawSize_eq, putFront_zeros, hback, length_leBytes, hsize, if_true,
      Option.bind_eq_bind, Option.bind_some, hname, or_true]
    unfold takeFront
    rw [hbuf, if_pos (Nat.le_refl 8), List.take_of_length_le (Nat.le_of_eq hbuf), Option.map_some, Engine.present,
      leNat_append_zeros, leNat_leBytes]
  have hframe (a : Nat) (ha : a < f.place obj ∨ f.place obj + f.size ≤ a) :
      p.mem.write (f.place obj) (leBytes f.size (e.parsePtr v).toNat) a = p.mem a := by
    rw [Memory.write_apply, Memory.put]
    split_ifs with hle
    · rw [List.getElem?_eq_none (by rw [length_leBytes]; omega), Option.getD_none]
    · rfl
  unfold WriteRight
  rw [hwrite]
  constructor
  · rintro ⟨p', hp', -, c, r, hc, hr, hvalue⟩
    obtain rfl := (Prod.mk.inj (Option.some.inj hp')).2
    obtain rfl := Option.some.inj (hread.symm.trans hr)
    exact hc.trans (hvalue.symm)
  · intro hc
    exact ⟨_, rfl, hframe, _, _, hc, hread, rfl⟩

end Access

/-! ## The accesses of the lists -/

section Values

variable (e : Engine) (rt : Runtime) (strings : Strings) (v : JsValue)

/-- What is read of what has been written. -/
def roundTrip (r : Reader) (w : Writer) : Option Converted :=
  (e.present (e.encode rt strings w v).2 r (e.encode rt strings w v).1).value

theorem roundTrip_bool : roundTrip e rt strings v .bool .bool = some (.bool (e.toBool v)) := by
  unfold roundTrip Engine.encode Engine.present
  dsimp only
  cases e.toBool v <;> rfl

theorem roundTrip_number (t : IntType) :
    roundTrip e rt strings v (.number t) (.int t.bytes) = some (.int (t.wrap (e.toI64 v).toNat)) := by
  unfold roundTrip Engine.encode Engine.present
  dsimp only
  rw [leNat_leBytes, IntType.wrap_mod]
  rfl

theorem roundTrip_big : roundTrip e rt strings v .big (.int 8) = some (.int (e.toI64 v).toNat) := by
  unfold roundTrip Engine.encode Engine.present
  dsimp only
  rw [leNat_leBytes_of_lt (toNat_lt_256 _)]
  rfl

theorem roundTrip_single :
    roundTrip e rt strings v .single .single = some (.float (e.widen (e.narrow (e.toFloat64 v)))) := by
  unfold roundTrip Engine.encode Engine.present
  dsimp only
  rw [leNat_leBytes_of_lt (e.narrow (e.toFloat64 v)).toNat_lt, UInt32.ofNat_toNat]
  rfl

theorem roundTrip_double : roundTrip e rt strings v .double .double = some (.float (e.toFloat64 v)) := by
  unfold roundTrip Engine.encode Engine.present
  dsimp only
  rw [leNat_leBytes_of_lt (toNat_lt_256 _), UInt64.ofNat_toNat]
  rfl

theorem floatsOf_flatMap (names : List String) (g : String → UInt32) :
    e.floatsOf names (names.flatMap fun name => leBytes 4 (g name).toNat) =
      names.map fun name => (name, e.widen (g name)) := by
  induction names with
  | nil => rfl
  | cons name names ih =>
    have hlen := length_leBytes 4 (g name).toNat
    rw [List.flatMap_cons, Engine.floatsOf, List.take_append_of_le_length (Nat.le_of_eq hlen.symm),
      List.take_of_length_le (Nat.le_of_eq hlen), List.drop_append_of_le_length (Nat.le_of_eq hlen.symm),
      List.drop_of_length_le (Nat.le_of_eq hlen), List.nil_append, ih,
      leNat_leBytes_of_lt (g name).toNat_lt, UInt32.ofNat_toNat, List.map_cons]

theorem roundTrip_floats (names : List String) : roundTrip e rt strings v (.floats names) (.floats names) =
    some (.floats (names.map fun name => (name, e.widen (e.component v name)))) := by
  unfold roundTrip Engine.encode Engine.present
  dsimp only
  rw [floatsOf_flatMap]
  rfl

theorem roundTrip_string : roundTrip e rt strings v .string .string =
    some (.text (textOf e.malformed (newUnits e.wideBytes rt.malformed (e.toStr v)))) := by
  have hplace := rt.place_ne strings (cstr (bytesOf e.wideBytes (e.toStr v)))
  unfold roundTrip Engine.encode Engine.present Runtime.stringNew newUnits
  dsimp only
  rw [leNat_leBytes_of_lt (toNat_lt_256 _), UInt64.ofNat_toNat, if_neg hplace, if_pos rfl]
  rfl

end Values

section Right

variable {e : Engine} {rt : Runtime} {p : Proc} {f : Field} {obj : Nat} {v : JsValue}

/-- A field with an access in both lists, by what is read of what has been written. -/
theorem writeRight_iff_roundTrip {r : Reader} {w : Writer} (hobj : obj ≠ 0) (hr : f.type.kind.reader = some r)
    (hw : f.type.kind.writer = some w) {c c' : Converted} (hc : e.converted f.type.kind v = some c)
    (htrip : roundTrip e rt p.strings v r w = some c') : WriteRight e rt p f obj v ↔
      (f.static_field = true → f.size ≤ 8) ∧ c' = c := by
  rw [writeRight_iff_of_access hobj hr hw]
  unfold roundTrip at htrip
  rw [htrip, hc]
  refine and_congr_right fun _ => ⟨?_, fun h => ⟨c, rfl, congrArg some h⟩⟩
  rintro ⟨d, hd, hsame⟩
  exact (Option.some.inj hsame).trans (Option.some.inj hd).symm

/-- Where such a field has at most eight bytes and what is read is the value, the write is right. -/
theorem writeRight_of_roundTrip {r : Reader} {w : Writer} (hobj : obj ≠ 0) (hr : f.type.kind.reader = some r)
    (hw : f.type.kind.writer = some w) {c : Converted} (hc : e.converted f.type.kind v = some c)
    (htrip : roundTrip e rt p.strings v r w = some c) (hsize : f.size ≤ 8) : WriteRight e rt p f obj v :=
  (writeRight_iff_roundTrip hobj hr hw hc htrip).mpr ⟨fun _ => hsize, rfl⟩

/-- An integer is read with its sign where it has less than eight bytes. -/
theorem writeRight_integer_iff (hobj : obj ≠ 0) {t : IntType} (hk : f.type.kind = .integer t) :
    WriteRight e rt p f obj v ↔ (t.bytes = 8 → 0 ≤ t.wrap (e.toI64 v).toNat) := by
  have hr : f.type.kind.reader = some (if t.bytes = 8 then .big else .number t) := by rw [hk]; rfl
  have hw : f.type.kind.writer = some (.int t.bytes) := by rw [hk]; rfl
  have hc : e.converted f.type.kind v = some (.int (t.wrap (e.toI64 v).toNat)) := by rw [hk]; rfl
  have hsize : f.size ≤ 8 := by
    unfold Field.size
    rw [hk]
    exact t.bytes_le
  by_cases hbytes : t.bytes = 8
  · rw [if_pos hbytes] at hr
    rw [hbytes] at hw
    have hsign := t.wrap_eq_iff (e.toI64 v).toNat
    rw [hbytes, Nat.mod_eq_of_lt (toNat_lt_256 _)] at hsign
    rw [writeRight_iff_roundTrip hobj hr hw hc (roundTrip_big e rt p.strings v), ← hsign, Converted.int.injEq]
    exact ⟨fun h _ => h.2, fun h => ⟨fun _ => hsize, h hbytes⟩⟩
  · rw [if_neg hbytes] at hr
    exact iff_of_true (writeRight_of_roundTrip hobj hr hw hc (roundTrip_number e rt p.strings v t) hsize)
      fun h => absurd h hbytes

theorem writeRight_enum_iff (hobj : obj ≠ 0) {t : IntType} (hk : f.type.kind = .enum t) :
    WriteRight e rt p f obj v ↔
      if f.static_field = true then (((e.parsePtr v).toNat % 256 ^ t.bytes : Nat) : Int) = t.wrap (e.toI64 v).toNat
      else ((e.parsePtr v).toNat : Int) = t.wrap (e.toI64 v).toNat ∧
        ∀ i, t.bytes ≤ i → i < 8 → p.mem (f.place obj + i) = 0 := by
  have hr : f.type.kind.reader = none := by rw [hk]; rfl
  have hw : f.type.kind.writer = none := by rw [hk]; rfl
  have hname := isValueTypeName_eq_false hr fun n hn => by
    rw [hk] at hn
    cases hn
  have hc : e.converted f.type.kind v = some (.int (t.wrap (e.toI64 v).toNat)) := by rw [hk]; rfl
  have hsize : f.size = t.bytes := by
    unfold Field.size
    rw [hk]
    rfl
  cases hstatic : f.static_field with
  | true =>
    rw [if_pos rfl, writeRight_iff_of_static hr hw hname hstatic (by rw [hsize]; exact t.bytes_le), hc, hsize,
      Option.some.injEq, Converted.int.injEq]
    exact eq_comm
  | false =>
    rw [if_neg nofun, writeRight_iff_of_instance hobj hr hw hname hstatic, hc, hsize, Option.some.injEq,
      Converted.int.injEq, and_comm, eq_comm]
    refine and_congr_right fun hvalue => ?_
    -- the number has no more bytes than the type, so what is written behind the field is zero
    have hlt : (e.parsePtr v).toNat < 256 ^ t.bytes := by
      have hwrap := t.wrap_lt (e.toI64 v).toNat
      rw [← hvalue] at hwrap
      exact_mod_cast hwrap
    refine forall_congr' fun i => forall_congr' fun hi => forall_congr' fun hi8 => ?_
    rw [getElem?_leBytes_eq_zero hlt hi hi8, Option.some.injEq, eq_comm]

theorem writeRight_of_pointer (hobj : obj ≠ 0) (hr : f.type.kind.reader = none) (hw : f.type.kind.writer = none)
    (hname : isValueTypeName f.type.name = false) (hc : e.converted f.type.kind v = some (.int (e.parsePtr v).toNat))
    (hsize : f.size = 8) : WriteRight e rt p f obj v := by
  cases hstatic : f.static_field with
  | true =>
    rw [writeRight_iff_of_static hr hw hname hstatic (Nat.le_of_eq hsize), hc, hsize,
      Nat.mod_eq_of_lt (toNat_lt_256 _)]
  | false =>
    rw [writeRight_iff_of_instance hobj hr hw hname hstatic, hsize]
    exact ⟨fun i hi hi8 => absurd hi8 (Nat.not_lt.mpr hi), hc⟩

end Right

/-- A write touches only the field, and is read back, exactly in these cases. -/
theorem writeField_right_iff (e : Engine) (rt : Runtime) (p : Proc) (f : Field) (obj : Ptr) (v : JsValue) :
    WriteRight e rt p f obj v ↔ Kept e p f obj v := by
  have hobj : obj.1 ≠ 0 := Nat.pos_iff_ne_zero.mp obj.2
  have hsize {k : Kind} (hk : f.type.kind = k) (hle : k.size ≤ 8) : f.size ≤ 8 := by
    unfold Field.size
    rw [hk]
    exact hle
  unfold Kept
  cases hk : f.type.kind with
  | boolean =>
    exact iff_of_true (writeRight_of_roundTrip hobj (by rw [hk]; rfl) (by rw [hk]; rfl) (by rw [hk]; rfl)
      (roundTrip_bool e rt p.strings v) (hsize hk (by decide))) trivial
  | integer t => exact writeRight_integer_iff hobj hk
  | address =>
    exact iff_of_true (writeRight_of_roundTrip hobj (by rw [hk]; rfl) (by rw [hk]; rfl) (by rw [hk]; rfl)
      (roundTrip_big e rt p.strings v) (hsize hk (by decide))) trivial
  | single =>
    exact iff_of_true (writeRight_of_roundTrip hobj (by rw [hk]; rfl) (by rw [hk]; rfl) (by rw [hk]; rfl)
      (roundTrip_single e rt p.strings v) (hsize hk (by decide))) trivial
  | double =>
    exact iff_of_true (writeRight_of_roundTrip hobj (by rw [hk]; rfl) (by rw [hk]; rfl) (by rw [hk]; rfl)
      (roundTrip_double e rt p.strings v) (hsize hk (by decide))) trivial
  | string =>
    have hfit := hsize hk (by decide)
    rw [writeRight_iff_roundTrip hobj (by rw [hk]; rfl) (by rw [hk]; rfl) (by rw [hk]; rfl)
      (roundTrip_string e rt p.strings v), Converted.text.injEq, textOf_newUnits_iff]
    exact ⟨fun h => h.2, fun h => ⟨fun _ => hfit, h⟩⟩
  | floats names =>
    rw [writeRight_iff_roundTrip hobj (by rw [hk]; rfl) (by rw [hk]; rfl) (by rw [hk]; rfl)
      (roundTrip_floats e rt p.strings v names)]
    unfold Field.size
    rw [hk]
    exact ⟨fun h => h.1, fun h => ⟨h, rfl⟩⟩
  | enum t => exact writeRight_enum_iff hobj hk
  | reference =>
    have hr : f.type.kind.reader = none := by rw [hk]; rfl
    have hname := isValueTypeName_eq_false hr fun n hn => by
      rw [hk] at hn
      cases hn
    exact iff_of_true (writeRight_of_pointer hobj hr (by rw [hk]; rfl) hname (by rw [hk]; rfl)
      (by unfold Field.size; rw [hk]; rfl)) trivial
  | struct size =>
    constructor
    · rintro ⟨p', -, -, c, r, hc, -⟩
      rw [hk, Engine.converted] at hc
      by_contra hsize8
      rw [if_neg hsize8] at hc
      cases hc
    · rintro rfl
      have hr : f.type.kind.reader = none := by rw [hk]; rfl
      have hname := isValueTypeName_eq_false hr fun n hn => by
        rw [hk] at hn
        exact (Kind.struct.inj hn).symm
      exact writeRight_of_pointer hobj hr (by rw [hk]; rfl) hname (by rw [hk]; rfl) (by unfold Field.size; rw [hk]; rfl)

/-- An engine that is only asked for BigInts. -/
def plainEngine : Engine where
  toBool _ := false
  toInt64 _ := 0
  toFloat64 _ := 0
  toStr
    | .string units => units
    | _ => []
  property _ _ := .other 0
  wideBytes _ := []
  malformed _ := []
  narrow _ := 0
  widen _ := 0
  castInt64 _ := 0

def plainRuntime : Runtime := ⟨fun _ _ => 0x1000, fun _ _ => by decide, fun _ => []⟩

/-- An enumeration of four bytes. -/
def dayOfWeek : RuntimeType where
  name := "System.DayOfWeek"
  size := -1
  kind := .enum s32
  builtin k h := absurd h (by rw [show builtins.lookup "System.DayOfWeek" = none by decide]; nofun)
  other _ := trivial
  size_eq := unknown_size

/-- The four bytes behind it are overwritten. -/
theorem not_writeField_right : ¬ ∀ (e : Engine) (rt : Runtime) (p : Proc) (f : Field) (obj : Ptr) (v : JsValue),
    WriteRight e rt p f obj v := by
  intro h
  have hright := (writeRight_enum_iff (show 0x1000 ≠ 0 by decide) rfl).mp (h plainEngine plainRuntime ⟨fun _ => 1, fun _ => []⟩
    ⟨dayOfWeek, 16, false, 0⟩ ⟨0x1000, by decide⟩ (.bigint 5))
  rw [if_neg nofun] at hright
  exact absurd (hright.2 4 (by decide) (by decide)) (by decide)

end ArtPi.Unity
