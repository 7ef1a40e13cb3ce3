import ArtPi.Dex.Scanners
import Mathlib.Logic.Function.Basic

set_option autoImplicit false

/-! # Registering a hook (`src/engine/pine/pine_native.cpp`)

`registerMethodHookEx`, `registerStaticMethodHookEx` and `registerArtMethodHookDirect` put their entry into
`g_method_hooks` and then have the trampoline installed. What JNI, `ArtMethod::Require` and the installer answer
is a parameter. The entry stays where it is when there is no trampoline, also in the place of an earlier one. -/

namespace ArtPi.Hook.Registry

variable {κ : Type}

/-- A reference and a method id are numbers, zero for null. -/
structure MethodHookEntry (κ : Type) where
  className : List Char
  methodName : List Char
  signature : List Char
  isStatic : Bool
  argCount : Nat
  argTypes : List (List Char)
  returnType : Char
  clazz : Nat
  mid : Nat
  onEnter : κ
  onLeave : Option κ
  deriving DecidableEq

/-- `g_pine_native_initialized` and `g_method_hooks`. -/
structure State (κ : Type) where
  initialized : Bool
  hooks : Nat → Option (MethodHookEntry κ)

/-- `TrampolineInstaller`: what it says of the method, and the backups it returns. -/
structure Installer where
  isReplacementOnly : Bool
  cannotSafeInlineHook : Bool
  inlineTrampoline : Option Nat
  replacementTrampoline : Option Nat

/-- The backup of the inline trampoline, and that of the replacement if there is none. -/
def Installer.backup (i : Installer) : Option Nat :=
  match if !i.isReplacementOnly && !i.cannotSafeInlineHook then i.inlineTrampoline else none with
  | some backup => some backup
  | none => i.replacementTrampoline

/-- What a call meets: the environment, the class and its name, the answers of `GetMethodID` or
    `GetStaticMethodID` and of `NewGlobalRef`, `Require` for the registration and for `PineNative_Hook`, and the
    installer. -/
structure Vm where
  env : Bool
  clazz : Nat
  className : List Char
  methodId : Option Nat
  globalRef : Nat
  require : Option Nat
  requireToHook : Option Nat
  installer : Option Installer

/-- `PineNative_IsInitialized` or `PineNative_Init`. -/
def pineNativeInit (v : Vm) (s : State κ) : Bool × State κ :=
  if s.initialized then (true, s) else if v.env then (true, { s with initialized := true }) else (false, s)

/-- The character behind the last `)`, or `V`. -/
def returnType (sig : List Char) : Char :=
  if ')' ∈ sig then (sig.reverse.takeWhile (· ≠ ')')).getLast?.getD 'V' else 'V'

def State.register (s : State κ) (target : Nat) (entry : MethodHookEntry κ) : State κ :=
  { s with hooks := Function.update s.hooks target (some entry) }

def pineNativeHook (v : Vm) (s : State κ) : Bool × State κ :=
  let (ready, s) := pineNativeInit v s
  if !ready then (false, s)
  else if !v.env || v.clazz = 0 then (false, s)
  else
    match v.requireToHook, v.installer with
    | some _, some installer => (installer.backup.isSome, s)
    | _, _ => (false, s)

/-- The entry of a method that is found by its name. -/
def namedEntry (isStatic : Bool) (v : Vm) (mid : Nat) (methodName methodSig : List Char) (callback : κ) :
    MethodHookEntry κ where
  className := v.className
  methodName := methodName
  signature := methodSig
  isStatic := isStatic
  argCount := (Dex.parseJavaArgTypes methodSig).length
  argTypes := Dex.parseJavaArgTypes methodSig
  returnType := returnType methodSig
  clazz := v.globalRef
  mid := mid
  onEnter := callback
  onLeave := none

/-- The body that the functions for instance methods and for static ones share. -/
def registerNamed (isStatic : Bool) (v : Vm) (methodName methodSig : List Char) (callback : κ) (s : State κ) :
    Bool × State κ :=
  let (ready, s) := pineNativeInit v s
  if !ready then (false, s)
  else if !v.env || v.clazz = 0 then (false, s)
  else
    match v.methodId with
    | none => (false, s)
    | some mid =>
      match v.require with
      | none => (false, s)
      | some target =>
        pineNativeHook v (s.register target (namedEntry isStatic v mid methodName methodSig callback))

def registerMethodHookEx (v : Vm) (methodName methodSig : List Char) (callback : κ) (s : State κ) :
    Bool × State κ :=
  registerNamed false v methodName methodSig callback s

def registerStaticMethodHookEx (v : Vm) (methodName methodSig : List Char) (callback : κ) (s : State κ) :
    Bool × State κ :=
  registerNamed true v methodName methodSig callback s

/-- The entry of a method that is given. -/
def directEntry (v : Vm) (className methodName methodSig : List Char) (isStatic : Bool) (mid : Nat)
    (callback : κ) : MethodHookEntry κ where
  className := className
  methodName := if methodName = [] then "unknown".toList else methodName
  signature := methodSig
  isStatic := isStatic
  argCount := (Dex.parseJavaArgTypes methodSig).length
  argTypes := Dex.parseJavaArgTypes methodSig
  returnType := returnType methodSig
  clazz := if v.clazz ≠ 0 ∧ v.env then v.globalRef else 0
  mid := mid
  onEnter := callback
  onLeave := none

def registerArtMethodHookDirect (v : Vm) (target : Nat) (className methodName methodSig : List Char)
    (isStatic : Bool) (mid : Nat) (callback : κ) (s : State κ) : Bool × State κ :=
  if target = 0 then (false, s)
  else
    let (ready, s) := pineNativeInit v s
    if !ready then (false, s)
    else
      match v.installer with
      | none => (false, s)
      | some installer =>
        (installer.backup.isSome,
          s.register target (directEntry v className methodName methodSig isStatic mid callback))

/-! ## What a call leaves -/

@[simp] theorem hooks_pineNativeInit (v : Vm) (s : State κ) : (pineNativeInit v s).2.hooks = s.hooks := by
  unfold pineNativeInit
  split_ifs <;> rfl

theorem hooks_register (s : State κ) (target : Nat) (entry : MethodHookEntry κ) :
    (s.register target entry).hooks = s.hooks ↔ s.hooks target = some entry := by
  rw [State.register, Function.update_eq_self_iff, eq_comm]

/-- What `PineNative_Hook` needs to return true. -/
def Vm.Installs (v : Vm) : Prop :=
  v.requireToHook ≠ none ∧ ∃ installer, v.installer = some installer ∧ installer.backup ≠ none

/-- A method that is found by its name is registered: there are an environment and a class, and JNI and the
    runtime find it. -/
def Vm.Finds (v : Vm) (mid target : Nat) : Prop :=
  v.env = true ∧ v.clazz ≠ 0 ∧ v.methodId = some mid ∧ v.require = some target

theorem pineNativeInit_of_env {v : Vm} (henv : v.env = true) (s : State κ) :
    pineNativeInit v s = (true, { s with initialized := true }) := by
  unfold pineNativeInit
  split_ifs with h
  · rw [← h]
  · rfl

theorem pineNativeHook_eq {v : Vm} (henv : v.env = true) (hclazz : v.clazz ≠ 0) (s : State κ) :
    ((pineNativeHook v s).1 = true ↔ v.Installs) ∧ (pineNativeHook v s).2.hooks = s.hooks := by
  rw [pineNativeHook, pineNativeInit_of_env henv, Vm.Installs]
  cases hreq : v.requireToHook with
  | none => simp [henv, hclazz]
  | some m =>
    cases hinst : v.installer with
    | none => simp [henv, hclazz]
    | some i => simp [henv, hclazz, Option.isSome_iff_ne_none]

/-- A call either leaves the registry as it is and fails, or puts its entry in and returns what the installation
    does. -/
theorem registerNamed_cases (isStatic : Bool) (v : Vm) (methodName methodSig : List Char) (callback : κ)
    (s : State κ) :
    ((∀ mid target, ¬ v.Finds mid target) ∧
      (registerNamed isStatic v methodName methodSig callback s).1 = false ∧
      (registerNamed isStatic v methodName methodSig callback s).2.hooks = s.hooks) ∨
    ∃ mid target, v.Finds mid target ∧
      ((registerNamed isStatic v methodName methodSig callback s).1 = true ↔ v.Installs) ∧
      (registerNamed isStatic v methodName methodSig callback s).2.hooks =
        (s.register target (namedEntry isStatic v mid methodName methodSig callback)).hooks := by
  unfold registerNamed
  by_cases henv : v.env = true
  · by_cases hclazz : v.clazz = 0
    · refine .inl ⟨fun mid target h => h.2.1 hclazz, ?_⟩
      simp [pineNativeInit_of_env henv, hclazz]
    · cases hmid : v.methodId with
      | none =>
        refine .inl ⟨fun mid target h => absurd (hmid.symm.trans h.2.2.1) (by simp), ?_⟩
        simp [pineNativeInit_of_env henv, henv, hclazz]
      | some mid =>
        cases hreq : v.require with
        | none =>
          refine .inl ⟨fun mid target h => absurd (hreq.symm.trans h.2.2.2) (by simp), ?_⟩
          simp [pineNativeInit_of_env henv, henv, hclazz]
        | some target =>
          refine .inr ⟨mid, target, ⟨henv, hclazz, hmid, hreq⟩, ?_⟩
          have h := pineNativeHook_eq henv hclazz
            (State.register { s with initialized := true } target
              (namedEntry isStatic v mid methodName methodSig callback))
          simp only [pineNativeInit_of_env henv, henv, hclazz, Bool.not_true, Bool.false_eq_true, if_false,
            decide_false, Bool.or_self]
          exact h
  · refine .inl ⟨fun mid target h => henv h.1, ?_⟩
    rw [Bool.not_eq_true] at henv
    unfold pineNativeInit
    split_ifs <;> simp_all

theorem registerNamed_failed (isStatic : Bool) (v : Vm) (methodName methodSig : List Char) (callback : κ)
    (s : State κ) :
    ((registerNamed isStatic v methodName methodSig callback s).1 = false →
        (registerNamed isStatic v methodName methodSig callback s).2.hooks = s.hooks) ↔
      ∀ mid target, v.Finds mid target → v.Installs ∨
        s.hooks target = some (namedEntry isStatic v mid methodName methodSig callback) := by
  rcases registerNamed_cases isStatic v methodName methodSig callback s with
    ⟨hfinds, hfalse, hhooks⟩ | ⟨mid, target, hfinds, hresult, hhooks⟩
  · exact iff_of_true (fun _ => hhooks) fun mid target h => absurd h (hfinds mid target)
  · rw [hhooks, hooks_register, ← Bool.not_eq_true, hresult]
    constructor
    · intro h mid' target' hfinds'
      cases hfinds.2.2.1.symm.trans hfinds'.2.2.1
      cases hfinds.2.2.2.symm.trans hfinds'.2.2.2
      exact (em v.Installs).imp_right h
    · intro h hnot
      exact (h mid target hfinds).resolve_left hnot

theorem registerArtMethodHookDirect_failed (v : Vm) (target : Nat) (className methodName methodSig : List Char)
    (isStatic : Bool) (mid : Nat) (callback : κ) (s : State κ) :
    ((registerArtMethodHookDirect v target className methodName methodSig isStatic mid callback s).1 = false →
        (registerArtMethodHookDirect v target className methodName methodSig isStatic mid callback s).2.hooks =
          s.hooks) ↔
      (target ≠ 0 → (s.initialized = true ∨ v.env = true) → ∀ installer, v.installer = some installer →
        installer.backup ≠ none ∨
          s.hooks target = some (directEntry v className methodName methodSig isStatic mid callback)) := by
  unfold registerArtMethodHookDirect
  by_cases htarget : target = 0
  · simp [htarget]
  · rw [if_neg htarget]
    by_cases hready : s.initialized = true ∨ v.env = true
    · obtain ⟨s', hs', hhooks⟩ : ∃ s', pineNativeInit v s = (true, s') ∧ s'.hooks = s.hooks := by
        refine ⟨(pineNativeInit v s).2, Prod.ext ?_ rfl, hooks_pineNativeInit v s⟩
        unfold pineNativeInit
        split_ifs <;> simp_all
      rw [hs']
      cases hinst : v.installer with
      | none => simp [hhooks]
      | some installer =>
        simp only [Bool.not_true, Bool.false_eq_true, if_false]
        rw [← hhooks, hooks_register]
        simp only [Option.isSome_eq_false_iff, Option.isNone_iff_eq_none, Option.some.injEq, forall_eq', htarget,
          hready, ne_eq, not_false_eq_true, forall_const, ← imp_iff_not_or]
    · have hs' : pineNativeInit v s = (false, s) := by
        unfold pineNativeInit
        split_ifs <;> simp_all
      simp [hs', hready]

/-- The registry is the same after a call that fails just if the call ends in front of the registration, or has its
    trampoline, or registers what the method has already. -/
theorem register_failed (v : Vm) (target : Nat) (className methodName methodSig : List Char) (isStatic : Bool)
    (mid : Nat) (callback : κ) (s : State κ) :
    (((registerMethodHookEx v methodName methodSig callback s).1 = false →
        (registerMethodHookEx v methodName methodSig callback s).2.hooks = s.hooks) ↔
      ∀ mid target, v.Finds mid target → v.Installs ∨
        s.hooks target = some (namedEntry false v mid methodName methodSig callback)) ∧
    (((registerStaticMethodHookEx v methodName methodSig callback s).1 = false →
        (registerStaticMethodHookEx v methodName methodSig callback s).2.hooks = s.hooks) ↔
      ∀ mid target, v.Finds mid target → v.Installs ∨
        s.hooks target = some (namedEntry true v mid methodName methodSig callback)) ∧
    (((registerArtMethodHookDirect v target className methodName methodSig isStatic mid callback s).1 = false →
        (registerArtMethodHookDirect v target className methodName methodSig isStatic mid callback s).2.hooks =
          s.hooks) ↔
      (target ≠ 0 → (s.initialized = true ∨ v.env = true) → ∀ installer, v.installer = some installer →
        installer.backup ≠ none ∨
          s.hooks target = some (directEntry v className methodName methodSig isStatic mid callback))) :=
  ⟨registerNamed_failed false v methodName methodSig callback s,
    registerNamed_failed true v methodName methodSig callback s,
    registerArtMethodHookDirect_failed v target className methodName methodSig isStatic mid callback s⟩

/-! ## A second hook without a trampoline -/

/-- The method at 8 is found, and no trampoline can be made for it. -/
def outOfMemory : Vm where
  env := true
  clazz := 3
  className := "com.app.Foo".toList
  methodId := some 5
  globalRef := 11
  require := some 8
  requireToHook := some 8
  installer := some ⟨false, false, none, none⟩

/-- The method at 8 has the callback 1. -/
def hookedOnce : State Nat where
  initialized := true
  hooks := fun m => if m = 8 then
    some (namedEntry false { outOfMemory with globalRef := 9 } 5 "run".toList "()V".toList 1) else none

/-- The second hook fails and its callback takes the place of the first one, on all three paths. -/
theorem second_hook_replaces :
    (registerMethodHookEx outOfMemory "run".toList "()V".toList 2 hookedOnce).1 = false ∧
    ((registerMethodHookEx outOfMemory "run".toList "()V".toList 2 hookedOnce).2.hooks 8).map (·.onEnter) ≠
      (hookedOnce.hooks 8).map (·.onEnter) ∧
    (registerStaticMethodHookEx outOfMemory "run".toList "()V".toList 2 hookedOnce).1 = false ∧
    ((registerStaticMethodHookEx outOfMemory "run".toList "()V".toList 2 hookedOnce).2.hooks 8).map (·.onEnter) ≠
      (hookedOnce.hooks 8).map (·.onEnter) ∧
    (registerArtMethodHookDirect outOfMemory 8 [] "run".toList "()V".toList false 5 2 hookedOnce).1 = false ∧
    ((registerArtMethodHookDirect outOfMemory 8 [] "run".toList "()V".toList false 5 2 hookedOnce).2.hooks 8).map
      (·.onEnter) ≠ (hookedOnce.hooks 8).map (·.onEnter) := by
  decide

end ArtPi.Hook.Registry
