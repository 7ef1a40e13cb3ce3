import ArtPi.Jni.Bridge

set_option autoImplicit false

/-! # Stepping into a native method (`src/src/agent/agent_debug.cpp`)

`RunNativeStepped` puts the arguments of a native method into registers by itself, with a scan of the signature, and
has the engine run it instruction by instruction. The loop ends where the general registers do, and gives the engine
no vector registers at all; the engine then leaves these as they are. -/

namespace ArtPi.Debug.NativeStep

open Lib.Aapcs Jni.Bridge Dex Sandbox

/-- What the function uses of an `InvokeEvent`; zero is null. -/
structure InvokeEvent where
  env : UInt64
  artMethod : UInt64
  isStatic : Bool
  receiver : UInt64
  signature : List Char
  args : List UInt64

/-- What the runtime answers: the method by its name, its native code by `resolveNativeMethod` and by its entry
    point, and `FindClass`. -/
structure Runtime where
  resolved : UInt64
  nativeMethod : UInt64
  entryPointFromJni : UInt64
  findClass : UInt64

/-- The part of the signature that the loop goes over. -/
def paramChars (sig : List Char) : List Char :=
  if '(' ∈ sig ∧ ')' ∈ sig then ((sig.takeWhile (· ≠ ')')).dropWhile (· ≠ '(')).tail else []

/-- The loop over the parameters, with the arguments that are left and the next register. -/
def stepLoop : List Char → List UInt64 → Nat → (Nat → UInt64) → Nat → UInt64
  | t :: rest, v :: args, xi, gprs =>
    if 8 ≤ xi then gprs
    else if t = 'L' then
      stepLoop (rest.dropWhile (· ≠ ';')).tail args (xi + 1) (Function.update gprs xi v)
    else if t = '[' then
      stepLoop (skipElement (rest.dropWhile (· = '['))) args (xi + 1) (Function.update gprs xi v)
    else if t = 'J' then stepLoop rest args (xi + 1) (Function.update gprs xi v)
    else if IsFp t then stepLoop rest args xi gprs
    else stepLoop rest args (xi + 1) (Function.update gprs xi (low v))
  | _, _, _, gprs => gprs

/-- The class or the receiver, for `x1`. -/
def self (ie : InvokeEvent) (rt : Runtime) : UInt64 := if ie.isStatic then rt.findClass else ie.receiver

def methodOf (ie : InvokeEvent) (rt : Runtime) : UInt64 := if ie.artMethod = 0 then rt.resolved else ie.artMethod

def codeOf (rt : Runtime) : UInt64 := if rt.nativeMethod = 0 then rt.entryPointFromJni else rt.nativeMethod

/-- `gprs` with the environment and the class or receiver, and zeros behind. -/
def firstTwo (ie : InvokeEvent) (rt : Runtime) : Nat → UInt64 :=
  Function.update (Function.update (fun _ => 0) 0 ie.env) 1 (self ie rt)

/-- The code that is run and the registers it starts with; `v` is what the engine has in the vector registers. -/
def runNativeStepped (ie : InvokeEvent) (rt : Runtime) (v : Nat → UInt64) : Option (UInt64 × Regs) :=
  if ie.env = 0 then none
  else if methodOf ie rt = 0 then none
  else if codeOf rt = 0 then none
  else
    some (codeOf rt, engineStart (eight (stepLoop (paramChars ie.signature) ie.args 2 (firstTwo ie rt))) [] v)

/-! ## What the loop places -/

theorem stepLoop_full {s : List Char} {args : List UInt64} {xi : Nat} {gprs : Nat → UInt64} (h : 8 ≤ xi) :
    stepLoop s args xi gprs = gprs := by
  unfold stepLoop
  split
  · rw [if_pos h]
  · rfl

theorem stepLoop_general {t : List Char} (ht : FieldType t) (hfp : ¬ IsFp (kindOf t)) (rest : List Char)
    {v : UInt64} {args : List UInt64} {xi : Nat} {gprs : Nat → UInt64} (hxi : xi < 8) :
    stepLoop (t ++ rest) (v :: args) xi gprs = stepLoop rest args (xi + 1)
      (Function.update gprs xi (if kindOf t = 'J' ∨ kindOf t = 'L' then v else low v)) := by
  have hfull : ¬ 8 ≤ xi := Nat.not_le.2 hxi
  cases ht with
  | @primitive c hc =>
    have hbracket : c ≠ '[' := ne_of_mem_fieldPrimitives hc (by decide)
    have hclass : c ≠ 'L' := ne_of_mem_fieldPrimitives hc (by decide)
    rw [kindOf_primitive hc] at hfp ⊢
    rw [List.singleton_append, stepLoop, if_neg hfull, if_neg hclass, if_neg hbracket]
    by_cases hJ : c = 'J'
    · rw [if_pos hJ, if_pos (.inl hJ)]
    · rw [if_neg hJ, if_neg hfp, if_neg (not_or.2 ⟨hJ, hclass⟩)]
  | @object name _ hsemi =>
    rw [List.cons_append, stepLoop, if_neg hfull, if_pos rfl, List.append_assoc, List.singleton_append,
      Lib.dropWhile_ne_append_cons hsemi]
    rfl
  | @array t ht =>
    rw [List.cons_append, stepLoop, if_neg hfull, if_neg (by decide), if_pos rfl, skipElement_array ht]
    rfl

theorem stepLoop_floating {t : List Char} (ht : FieldType t) (hfp : IsFp (kindOf t)) (rest : List Char)
    {v : UInt64} {args : List UInt64} {xi : Nat} {gprs : Nat → UInt64} (hxi : xi < 8) :
    stepLoop (t ++ rest) (v :: args) xi gprs = stepLoop rest args xi gprs := by
  have hfull : ¬ 8 ≤ xi := Nat.not_le.2 hxi
  cases ht with
  | @primitive c hc =>
    have hbracket : c ≠ '[' := ne_of_mem_fieldPrimitives hc (by decide)
    have hclass : c ≠ 'L' := ne_of_mem_fieldPrimitives hc (by decide)
    rw [kindOf_primitive hc] at hfp
    have hJ : c ≠ 'J' := by
      rintro rfl
      exact absurd hfp (by decide)
    rw [List.singleton_append, stepLoop, if_neg hfull, if_neg hclass, if_neg hbracket, if_neg hJ, if_pos hfp]
  | object => exact absurd hfp (show ¬ IsFp 'L' by decide)
  | array => exact absurd hfp (show ¬ IsFp 'L' by decide)

/-- The loop leaves the registers in front of it, and has every argument of its file in order just if there are
    registers for all of them. -/
theorem stepLoop_spec {params : List (List Char)} (hparams : ∀ t ∈ params, FieldType t) {args : List UInt64}
    (hargs : args.length = params.length) {xi : Nat} {gprs : Nat → UInt64} :
    (∀ n, n < xi → stepLoop params.flatten args xi gprs n = gprs n) ∧
      (xi + (general (typed (params.map kindOf) args)).length ≤ 8 →
        InOrder (stepLoop params.flatten args xi gprs) xi (general (typed (params.map kindOf) args))) := by
  induction params generalizing args xi gprs with
  | nil =>
    obtain rfl := List.length_eq_zero_iff.1 hargs
    exact ⟨fun _ _ => rfl, fun _ => trivial⟩
  | cons t params ih =>
    obtain ⟨ht, hparams⟩ := List.forall_mem_cons.1 hparams
    cases args with
    | nil => cases hargs
    | cons v args =>
      have hargs : args.length = params.length := Nat.succ_inj.1 hargs
      have htyped : typed ((t :: params).map kindOf) (v :: args) =
        (param (kindOf t), v) :: typed (params.map kindOf) args := rfl
      rw [htyped, List.flatten_cons]
      by_cases hxi : xi < 8
      · by_cases hfp : IsFp (kindOf t)
        · rw [general_cons_fp (isFp_param.2 hfp), stepLoop_floating ht hfp _ hxi]
          exact ih hparams hargs
        · obtain ⟨hframe, hplaced⟩ := @ih hparams args hargs (xi + 1)
            (Function.update gprs xi (if kindOf t = 'J' ∨ kindOf t = 'L' then v else low v))
          rw [general_cons_gp (isFp_param_false.2 hfp), stepLoop_general ht hfp _ hxi, List.length_cons]
          refine ⟨fun n hn => ?_, fun hfit => ⟨hxi, ?_, hplaced (by omega)⟩⟩
          · rw [hframe n (by omega), Function.update_of_ne (by omega)]
          · rw [hframe xi (Nat.lt_succ_self xi), Function.update_self]
            exact agree_general (kindOf_mem_kinds ht) hfp v
      · rw [stepLoop_full (Nat.not_lt.1 hxi)]
        refine ⟨fun _ _ => rfl, fun hfit => ?_⟩
        have hnil : general ((param (kindOf t), v) :: typed (params.map kindOf) args) = [] :=
          List.length_eq_zero_iff.1 (by omega)
        rw [hnil]
        trivial

theorem paramChars_describe {sig : Signature} (h : sig.Valid) : paramChars (describe sig) = sig.params.flatten := by
  unfold paramChars describe
  rw [if_pos (by simp), List.takeWhile_cons_of_pos (by decide), Lib.takeWhile_ne_append_cons h.noParen,
    List.dropWhile_cons_of_neg (by decide), List.tail_cons]

/-- The registers of a call: environment, receiver or class, and the parameters. -/
structure Marshalled (sig : Signature) (args : List UInt64) (env thiz : UInt64) (r : Regs) : Prop where
  x0 : r.x 0 = env
  x1 : r.x 1 = thiz
  placed : r.Placed 2 0 (typed (sig.params.map kindOf) args)

/-- What the vector registers have to hold beforehand, for a parameter in them to arrive. -/
def LeftOver (sig : Signature) (args : List UInt64) (v : Nat → UInt64) : Prop :=
  InOrder v 0 (floating (typed (sig.params.map kindOf) args))

theorem runNativeStepped_some {ie : InvokeEvent} {rt : Runtime} {v : Nat → UInt64} {fn : UInt64} {r : Regs}
    (h : runNativeStepped ie rt v = some (fn, r)) :
    r = engineStart (eight (stepLoop (paramChars ie.signature) ie.args 2 (firstTwo ie rt))) [] v := by
  unfold runNativeStepped at h
  split_ifs at h
  exact (Prod.mk.inj (Option.some.inj h)).2.symm

theorem runNativeStepped_marshalled {sig : Signature} (h : sig.Valid) {ie : InvokeEvent} {rt : Runtime}
    {v : Nat → UInt64} {fn : UInt64} {r : Regs} (hsig : ie.signature = describe sig)
    (hargs : ie.args.length = sig.params.length) (hrun : runNativeStepped ie rt v = some (fn, r)) :
    Marshalled sig ie.args ie.env (self ie rt) r ↔
      generalParams sig.params ≤ 6 ∧ LeftOver sig ie.args v := by
  obtain ⟨hframe, hplaced⟩ := @stepLoop_spec sig.params h.proper.1 ie.args hargs 2 (firstTwo ie rt)
  have hr := runNativeStepped_some hrun
  rw [hsig, paramChars_describe h] at hr
  have hlen := length_general_typed hargs
  have hfloat : InOrder r.v 0 (floating (typed (sig.params.map kindOf) ie.args)) ↔ LeftOver sig ie.args v := by
    rw [hr]
    rfl
  constructor
  · intro hm
    refine ⟨?_, hfloat.1 hm.placed.floating⟩
    have := hm.placed.general.length_le (by decide)
    omega
  · rintro ⟨hfit, hleft⟩
    refine ⟨?_, ?_, ?_, hfloat.2 hleft⟩
    · rw [hr, engineStart_x _ _ _ (by decide), hframe 0 (by decide)]
      rfl
    · rw [hr, engineStart_x _ _ _ (by decide), hframe 1 (by decide)]
      rfl
    · rw [hr]
      exact (hplaced (by omega)).congr fun n hn => (engineStart_x _ _ _ hn).symm

/-- `packArgs` puts every parameter in its register whenever it succeeds. `RunNativeStepped` starts the function
    with all of them just if six general registers are enough, the vector registers happen to hold the others, and
    the class of a static method is found. -/
theorem native_marshalling {sig : Signature} (h : sig.Valid) {args : List UInt64}
    (hargs : args.length = sig.params.length) :
    (∀ env receiver staticClazz isStatic s v,
      packArgs (kindOf sig.ret :: sig.params.map kindOf) env receiver staticClazz sig.params.length args false
        isStatic = some s →
      Marshalled sig args env (if isStatic then staticClazz else receiver)
        (engineStart (eight s.x) (eight s.d) v)) ∧
    (∀ ie rt v fn r, ie.signature = describe sig → ie.args = args → runNativeStepped ie rt v = some (fn, r) →
      ((Marshalled sig args ie.env (self ie rt) r ∧ (ie.isStatic = true → r.x 1 ≠ 0)) ↔
        generalParams sig.params ≤ 6 ∧ LeftOver sig args v ∧ (ie.isStatic = true → rt.findClass ≠ 0))) := by
  refine ⟨fun env receiver staticClazz isStatic s v hpack => ?_, fun ie rt v fn r hsig hie hrun => ?_⟩
  · have hkinds : ∀ t ∈ sig.params.map kindOf, t ∈ kinds := by
      intro t ht
      obtain ⟨t, hmem, rfl⟩ := List.mem_map.1 ht
      exact kindOf_mem_kinds (h.proper.1 t hmem)
    rw [show sig.params.length = (sig.params.map kindOf).length from (List.length_map _).symm] at hpack
    obtain ⟨henv, hself, hplaced⟩ := packArgs_placed hkinds hpack v
    exact ⟨henv, hself, hplaced⟩
  · subst hie
    rw [runNativeStepped_marshalled h hsig hargs hrun, and_assoc]
    refine and_congr_right fun hfit => and_congr_right fun hleft => ?_
    have hm := (runNativeStepped_marshalled h hsig hargs hrun).2 ⟨hfit, hleft⟩
    rw [hm.x1]
    refine forall_congr' fun hstatic => ?_
    rw [self, if_pos hstatic]

/-- A static call with no more than its arguments. -/
def staticCall (sig : Signature) (args : List UInt64) : InvokeEvent :=
  ⟨0x7100, 0x7200, true, 0, describe sig, args⟩

def nativeCode : Runtime := ⟨0x7200, 0x9000, 0, 0x15⟩

/-- `(I[La;)V`, with 5 and an array. -/
theorem native_marshalling_int_array : ∃ r,
    runNativeStepped (staticCall ⟨[['I'], ['[', 'L', 'a', ';']], ['V']⟩ [5, 0x25]) nativeCode (fun _ => 0) =
      some (0x9000, r) ∧
    Marshalled ⟨[['I'], ['[', 'L', 'a', ';']], ['V']⟩ [5, 0x25] 0x7100 0x15 r := by
  have hvalid : Signature.Valid ⟨[['I'], ['[', 'L', 'a', ';']], ['V']⟩ := by
    refine ⟨⟨?_, .inl rfl⟩, by decide⟩
    rw [List.forall_mem_cons, List.forall_mem_singleton]
    exact ⟨.primitive (by decide), .array (.object (List.cons_ne_nil 'a' []) (by decide))⟩
  have hiff := (native_marshalling hvalid (show [5, 0x25].length = 2 from rfl)).2
    (staticCall ⟨[['I'], ['[', 'L', 'a', ';']], ['V']⟩ [5, 0x25]) nativeCode (fun _ => 0) 0x9000 _ rfl rfl rfl
  exact ⟨_, rfl, (hiff.2 ⟨by decide, trivial, by decide⟩).1⟩

/-- `(D)V` with 1.5 runs with what `d0` has left over, `(IIIIIII)V` without its last argument. -/
theorem stepping_loses_arguments :
    (∃ r, runNativeStepped (staticCall ⟨[['D']], ['V']⟩ [0x3FF8000000000000]) nativeCode (fun _ => 0) =
        some (0x9000, r) ∧ ¬ Marshalled ⟨[['D']], ['V']⟩ [0x3FF8000000000000] 0x7100 0x15 r) ∧
    (∃ r, runNativeStepped (staticCall ⟨List.replicate 7 ['I'], ['V']⟩ [1, 2, 3, 4, 5, 6, 7]) nativeCode
        (fun _ => 0) = some (0x9000, r) ∧
      ¬ Marshalled ⟨List.replicate 7 ['I'], ['V']⟩ [1, 2, 3, 4, 5, 6, 7] 0x7100 0x15 r) := by
  refine ⟨⟨_, rfl, fun h => ?_⟩, ⟨_, rfl, fun h => ?_⟩⟩
  · exact absurd h.placed.floating (by decide)
  · exact absurd h.placed.general (by decide)

end ArtPi.Debug.NativeStep
