import ArtPi.Lib.Bytes
import ArtPi.Lib.Memory
import ArtPi.Lib.Runs

set_option autoImplicit false

/-! # Hooking a method (`src/core/pi_method.cpp`, `src/core/pi_hook_handle.cpp`)

`Method::hook` saves what it is about to change, registers the callback in `g_method_hooks` and then
installs a trampoline to `MethodHookDispatcher`: inline, over the first bytes of the compiled code,
or by replacing the entry point. `HookHandle::unhook` puts the saved state back and erases the
registry entry of the method, of which there is only one.

Handles of one method that live at the same time share that entry, and a handle remembers which kind
of trampoline was decided on, not which one was installed. `run_restoresAndReaches` says for which
runs the two still fit together. -/

namespace ArtPi.Hook

open ArtPi.Lib

/-! ## The trampolines of arm64 -/

def kDirectJumpTrampolineSize : Nat := 16

/-- `ldr x17, 8; br x17` and the address that is loaded. -/
def directJumpTrampoline (jumpTo : Nat) : List UInt8 :=
  [0x51, 0x00, 0x00, 0x58, 0x20, 0x02, 0x1F, 0xD6] ++ (Bytes.beBytes 8 jumpTo).reverse

/-- The masks and values of `IsPCRelatedInst`. -/
def pcRelatedInsts : List (Nat × Nat) :=
  [(0xff000010, 0x54000000), (0x7c000000, 0x14000000), (0x7e000000, 0x34000000),
    (0x7e000000, 0x36000000), (0x3b000000, 0x18000000), (0x1f000000, 0x10000000)]

def isPCRelatedInst (inst : Nat) : Bool :=
  pcRelatedInsts.any (fun c => inst &&& c.1 == c.2)

/-- The first instructions of the code cannot run at another address. -/
def cannotBackup (code : Memory) (entry : Ptr) : Bool :=
  (List.range (kDirectJumpTrampolineSize / 4)).any
    (fun k => isPCRelatedInst (Bytes.leNat (code.read (entry.val + 4 * k) 4)))

/-! ## The method and its handles -/

variable {κ : Type}

/-- `HookHandle::Impl`. The callback is not part of it in the source; it says which call of `hook`
    made the handle. -/
structure Impl (κ : Type) where
  backup : Ptr
  isHooked : Bool
  isInline : Bool
  targetCodeAddr : Ptr
  origBytes : List UInt8
  origEntryPoint : Ptr
  origAccessFlags : UInt32
  callback : κ

/-- The `ArtMethod`, the memory with its code, the bridge trampolines made for it with the entry each
    of them has for the original, the entry of `g_method_hooks` and the handles given out. -/
structure Target (κ : Type) where
  entryPoint : Ptr
  accessFlags : UInt32
  code : Memory
  bridges : List (Ptr × Ptr)
  registry : Option κ
  handles : List (Impl κ)

/-- What the calls of one attempt to install a trampoline return: `Memory::Unprotect`, and
    `AllocUnprotected` for the backup, for the bridge of the inline trampoline and for the bridge of
    the replacement. -/
structure Attempt where
  unprotected : Bool
  backup : Option Ptr
  inlineBridge : Option Ptr
  replacementBridge : Option Ptr

/-- What a call of `hook` meets: whether it gets as far as the registration, `IsReplacementOnly`,
    whether the method has compiled code of its own that is long enough, whether the method is found
    by its name (`registerMethodHookEx`), and the attempts behind that path and behind
    `registerArtMethodHookDirect`. -/
structure Situation where
  ready : Bool
  replacementOnly : Bool
  compiled : Bool
  found : Bool
  first : Attempt
  second : Attempt

section Operations

variable (afterHook : Bool → UInt32 → UInt32)

namespace Target

def willInline (t : Target κ) (e : Situation) : Bool :=
  !e.replacementOnly && (e.compiled && !cannotBackup t.code t.entryPoint)

def installNativeInlineTrampoline (t : Target κ) (a : Attempt) : Option (Ptr × Target κ) :=
  if a.unprotected then
    match a.backup, a.inlineBridge with
    | some backup, some bridge => some (backup,
        { t with
          code := t.code.write t.entryPoint.val (directJumpTrampoline bridge.val)
          bridges := (bridge, backup) :: t.bridges
          accessFlags := afterHook true t.accessFlags })
    | _, _ => none
  else none

def installNativeReplacementTrampoline (t : Target κ) (a : Attempt) : Option (Ptr × Target κ) :=
  match a.replacementBridge with
  | some bridge => some (t.entryPoint,
      { t with
        entryPoint := bridge
        bridges := (bridge, t.entryPoint) :: t.bridges
        accessFlags := afterHook false t.accessFlags })
  | none => none

/-- The end of `PineNative_Hook` and of `registerArtMethodHookDirect`. -/
def install (t : Target κ) (e : Situation) (a : Attempt) : Option (Ptr × Target κ) :=
  match if t.willInline e then t.installNativeInlineTrampoline afterHook a else none with
  | some installed => some installed
  | none => t.installNativeReplacementTrampoline afterHook a

def register (t : Target κ) (callback : κ) : Target κ := { t with registry := some callback }

/-- Both ways to register a hook, the second one when the first one fails. -/
def registerMethodHook (t : Target κ) (e : Situation) : Option (Ptr × Target κ) :=
  match if e.found then t.install afterHook e e.first else none with
  | some installed => some installed
  | none => t.install afterHook e e.second

/-- The handle `hook` fills in before it registers the callback. -/
def newHandle (t : Target κ) (e : Situation) (callback : κ) (backup : Ptr) : Impl κ where
  backup := backup
  isHooked := true
  isInline := t.willInline e
  targetCodeAddr := t.entryPoint
  origBytes := if t.willInline e then t.code.read t.entryPoint.val kDirectJumpTrampolineSize else []
  origEntryPoint := t.entryPoint
  origAccessFlags := t.accessFlags
  callback := callback

/-- `Method::hook`. The registration stays when nothing could be installed. -/
def hook (t : Target κ) (callback : κ) (e : Situation) : Target κ :=
  if e.ready then
    match (t.register callback).registerMethodHook afterHook e with
    | some (backup, t') => { t' with handles := t.handles ++ [t.newHandle e callback backup] }
    | none => t.register callback
  else t

def restore (t : Target κ) (h : Impl κ) : Target κ :=
  -- `isInline` is what was decided before the attempt, not what the attempt has installed
  if h.isInline then
    if 0 < h.origBytes.length then
      { t with code := t.code.write h.targetCodeAddr.val h.origBytes }
    else t
  else { t with entryPoint := h.origEntryPoint }

/-- `HookHandle::unhook` of the `i`-th handle. -/
def unhook (t : Target κ) (i : Nat) : Target κ :=
  match t.handles[i]? with
  | some h =>
    if h.isHooked then
      -- the entry of the method goes, whichever handle has registered it
      { t.restore h with
        accessFlags := h.origAccessFlags
        registry := none
        handles := t.handles.set i { h with isHooked := false } }
    else t
  | none => t

/-- A call of the method gets to a bridge trampoline, and so to the dispatcher. -/
def Dispatches (t : Target κ) : Prop :=
  ∃ bridge ∈ t.bridges, t.entryPoint = bridge.1 ∨
    t.code.read t.entryPoint.val kDirectJumpTrampolineSize = directJumpTrampoline bridge.1.val

def HookedAt (t : Target κ) (i : Nat) : Prop := ∃ h, t.handles[i]? = some h ∧ h.isHooked = true

end Target

inductive Op (κ : Type) where
  | hook (callback : κ) (e : Situation)
  | unhook (i : Nat)

def step (t : Target κ) : Op κ → Target κ
  | .hook callback e => t.hook afterHook callback e
  | .unhook i => t.unhook i

end Operations

/-! ## The property and its condition -/

/-- With all handles unhooked, the method is as it was; with one hooked, a call gets to the
    dispatcher, which finds the callback of a hooked handle. -/
def RestoresAndReaches (t₀ t : Target κ) : Prop :=
  ((∀ i, ¬ t.HookedAt i) →
    t.entryPoint = t₀.entryPoint ∧ t.code = t₀.code ∧ t.registry = t₀.registry) ∧
  ((∃ i, t.HookedAt i) →
    t.Dispatches ∧ ∃ h ∈ t.handles, h.isHooked = true ∧ t.registry = some h.callback)

inductive Kind where
  | inline
  | replacement
  deriving DecidableEq

/-- The trampoline an attempt ends with. -/
def Attempt.kind (a : Attempt) (willInline : Bool) : Option Kind :=
  if willInline ∧ a.unprotected ∧ a.backup.isSome ∧ a.inlineBridge.isSome then some .inline
  else if a.replacementBridge.isSome then some .replacement
  else none

/-- The trampoline a call of `hook` ends with. -/
def Situation.kind (e : Situation) (willInline : Bool) : Option Kind :=
  match if e.found then e.first.kind willInline else none with
  | some kind => some kind
  | none => e.second.kind willInline

/-- `hook` installs the kind of trampoline it decided on, and `unhook` only finds a hooked handle
    when no other handle of the method is hooked. -/
def Op.Alone (t : Target κ) : Op κ → Prop
  | .hook _ e => e.ready = true →
      e.kind (t.willInline e) = some (if t.willInline e then .inline else .replacement)
  | .unhook i => t.HookedAt i → ∀ j, j ≠ i → ¬ t.HookedAt j

/-! ## What is installed -/

/-- What a trampoline of a kind changes. -/
structure Installed (kind : Kind) (t t' : Target κ) : Prop where
  registry : t'.registry = t.registry
  dispatches : t'.Dispatches
  inline : kind = .inline → t'.entryPoint = t.entryPoint ∧ ∃ bridge : Ptr,
    t'.code = t.code.write t.entryPoint.val (directJumpTrampoline bridge.val)
  replacement : kind = .replacement → t'.code = t.code

@[simp] theorem length_directJumpTrampoline (jumpTo : Nat) :
    (directJumpTrampoline jumpTo).length = kDirectJumpTrampolineSize := by
  unfold directJumpTrampoline
  simp [kDirectJumpTrampolineSize]

theorem read_write_directJump (code : Memory) (a jumpTo : Nat) :
    (code.write a (directJumpTrampoline jumpTo)).read a kDirectJumpTrampolineSize
      = directJumpTrampoline jumpTo := by
  rw [← length_directJumpTrampoline jumpTo]
  exact Memory.read_write code a _

section Proofs

variable (afterHook : Bool → UInt32 → UInt32)

namespace Target

theorem installNativeInlineTrampoline_some (t : Target κ) {a : Attempt}
    (h : a.unprotected = true ∧ a.backup.isSome ∧ a.inlineBridge.isSome) :
    ∃ backup t', t.installNativeInlineTrampoline afterHook a = some (backup, t') ∧
      Installed .inline t t' := by
  obtain ⟨hunprotected, hbackup, hbridge⟩ := h
  obtain ⟨backup, hbackup⟩ := Option.isSome_iff_exists.1 hbackup
  obtain ⟨bridge, hbridge⟩ := Option.isSome_iff_exists.1 hbridge
  unfold installNativeInlineTrampoline
  rw [if_pos hunprotected, hbackup, hbridge]
  refine ⟨backup, _, rfl, rfl, ?_, fun _ => ⟨rfl, bridge, rfl⟩, fun h => absurd h (by simp)⟩
  exact ⟨_, List.mem_cons_self, Or.inr (read_write_directJump _ _ _)⟩

theorem installNativeInlineTrampoline_none (t : Target κ) {a : Attempt}
    (h : ¬ (a.unprotected = true ∧ a.backup.isSome ∧ a.inlineBridge.isSome)) :
    t.installNativeInlineTrampoline afterHook a = none := by
  unfold installNativeInlineTrampoline
  split
  · rename_i hunprotected
    split
    · rename_i hbackup hbridge
      exact absurd ⟨hunprotected, by simp [hbackup], by simp [hbridge]⟩ h
    · rfl
  · rfl

theorem installNativeReplacementTrampoline_some (t : Target κ) {a : Attempt}
    (h : a.replacementBridge.isSome) :
    ∃ backup t', t.installNativeReplacementTrampoline afterHook a = some (backup, t') ∧
      Installed .replacement t t' := by
  obtain ⟨bridge, hbridge⟩ := Option.isSome_iff_exists.1 h
  unfold installNativeReplacementTrampoline
  rw [hbridge]
  refine ⟨_, _, rfl, rfl, ?_, fun h => absurd h (by simp), fun _ => rfl⟩
  exact ⟨_, List.mem_cons_self, Or.inl rfl⟩

/-- An attempt ends with the trampoline `Attempt.kind` says, or with none. -/
theorem install_spec (t : Target κ) (e : Situation) (a : Attempt) :
    (∀ kind, a.kind (t.willInline e) = some kind →
      ∃ backup t', t.install afterHook e a = some (backup, t') ∧ Installed kind t t') ∧
    (a.kind (t.willInline e) = none → t.install afterHook e a = none) := by
  unfold install Attempt.kind
  by_cases hinline : t.willInline e = true ∧ a.unprotected = true ∧ a.backup.isSome ∧
      a.inlineBridge.isSome
  · obtain ⟨backup, t', heq, hinst⟩ := t.installNativeInlineTrampoline_some afterHook hinline.2
    rw [if_pos hinline, if_pos hinline.1, heq]
    refine ⟨?_, fun h => absurd h (by simp)⟩
    rintro kind hkind
    obtain rfl : Kind.inline = kind := Option.some.inj hkind
    exact ⟨backup, t', rfl, hinst⟩
  · have hnone : (if t.willInline e then t.installNativeInlineTrampoline afterHook a else none)
        = none := by
      split
      · rename_i hwill
        exact t.installNativeInlineTrampoline_none afterHook (fun h => hinline ⟨hwill, h⟩)
      · rfl
    rw [if_neg hinline, hnone]
    by_cases hbridge : a.replacementBridge.isSome
    · rw [if_pos hbridge]
      refine ⟨?_, fun h => absurd h (by simp)⟩
      rintro kind hkind
      obtain rfl : Kind.replacement = kind := Option.some.inj hkind
      exact t.installNativeReplacementTrampoline_some afterHook hbridge
    · rw [if_neg hbridge]
      refine ⟨fun kind h => absurd h (by simp), fun _ => ?_⟩
      unfold installNativeReplacementTrampoline
      rw [Option.not_isSome_iff_eq_none.1 hbridge]

theorem registerMethodHook_spec (t : Target κ) (e : Situation) (kind : Kind)
    (hkind : e.kind (t.willInline e) = some kind) :
    ∃ backup t', t.registerMethodHook afterHook e = some (backup, t') ∧ Installed kind t t' := by
  unfold Situation.kind at hkind
  unfold registerMethodHook
  -- the second attempt only counts when the first one has installed nothing
  cases hfound : e.found with
  | false =>
    rw [hfound] at hkind
    exact (t.install_spec afterHook e e.second).1 kind hkind
  | true =>
    rw [hfound] at hkind
    simp only [if_true] at hkind ⊢
    cases hfirst : e.first.kind (t.willInline e) with
    | some k =>
      rw [hfirst] at hkind
      obtain rfl : k = kind := Option.some.inj hkind
      obtain ⟨backup, t', heq, hinst⟩ := (t.install_spec afterHook e e.first).1 k hfirst
      rw [heq]
      exact ⟨backup, t', rfl, hinst⟩
    | none =>
      rw [hfirst] at hkind
      rw [(t.install_spec afterHook e e.first).2 hfirst]
      exact (t.install_spec afterHook e e.second).1 kind hkind

/-- What a call of `hook` does that ends with a trampoline. -/
theorem hook_spec (t : Target κ) (callback : κ) (e : Situation) (hready : e.ready = true)
    (kind : Kind) (hkind : e.kind (t.willInline e) = some kind) :
    ∃ backup t', t.hook afterHook callback e
        = { t' with handles := t.handles ++ [t.newHandle e callback backup] } ∧
      Installed kind (t.register callback) t' := by
  obtain ⟨backup, t', heq, hinst⟩ :=
    (t.register callback).registerMethodHook_spec afterHook e kind hkind
  refine ⟨backup, t', ?_, hinst⟩
  unfold hook
  rw [if_pos hready, heq]

theorem unhook_of_hookedAt {t : Target κ} {i : Nat} {h : Impl κ} (hget : t.handles[i]? = some h)
    (hhooked : h.isHooked = true) :
    t.unhook i = { t.restore h with
      accessFlags := h.origAccessFlags
      registry := none
      handles := t.handles.set i { h with isHooked := false } } := by
  unfold unhook
  rw [hget]
  exact if_pos hhooked

theorem unhook_of_not_hookedAt {t : Target κ} {i : Nat} (h : ¬ t.HookedAt i) : t.unhook i = t := by
  unfold unhook
  split
  · rename_i g hget
    exact if_neg (fun hhooked => h ⟨g, hget, hhooked⟩)
  · rfl

/-! ## The invariant -/

/-- Unhooking the handle makes the method what it was. -/
def Undoes (t₀ t : Target κ) (h : Impl κ) : Prop :=
  (t.restore h).entryPoint = t₀.entryPoint ∧ (t.restore h).code = t₀.code

structure Inv (t₀ t : Target κ) : Prop where
  restored : (∀ i, ¬ t.HookedAt i) →
    t.entryPoint = t₀.entryPoint ∧ t.code = t₀.code ∧ t.registry = none
  alone : ∀ i h, t.handles[i]? = some h → h.isHooked = true → (∀ j, j ≠ i → ¬ t.HookedAt j) →
    Undoes t₀ t h
  reaches : (∃ i, t.HookedAt i) →
    t.Dispatches ∧ ∃ h ∈ t.handles, h.isHooked = true ∧ t.registry = some h.callback

/-- The handle of a trampoline of the kind that was decided on undoes it. -/
theorem undoes_newHandle {t₀ t t' : Target κ} {callback : κ} {e : Situation} {backup : Ptr}
    {handles : List (Impl κ)}
    (hinst : Installed (if t.willInline e then .inline else .replacement) (t.register callback) t')
    (hentry : t.entryPoint = t₀.entryPoint) (hcode : t.code = t₀.code) :
    Undoes t₀ { t' with handles := handles } (t.newHandle e callback backup) := by
  unfold Undoes restore newHandle
  cases hwill : t.willInline e with
  | true =>
    rw [hwill] at hinst
    obtain ⟨hsame, bridge, hbridge⟩ := hinst.inline rfl
    have hundo := Memory.write_restore t.code t.entryPoint.val (directJumpTrampoline bridge.val)
    rw [length_directJumpTrampoline] at hundo
    have hlen : 0 < (t.code.read t.entryPoint.val kDirectJumpTrampolineSize).length := by
      rw [Memory.length_read]
      decide
    simp only [if_true, if_pos hlen]
    refine ⟨hsame.trans hentry, ?_⟩
    rw [hbridge]
    exact hundo.trans hcode
  | false =>
    rw [hwill] at hinst
    exact ⟨hentry, (hinst.replacement rfl).trans hcode⟩

theorem hookedAt_append {t t' : Target κ} {h : Impl κ} (hhandles : t'.handles = t.handles ++ [h])
    {i : Nat} (hi : t.HookedAt i) : t'.HookedAt i := by
  obtain ⟨g, hget, hhooked⟩ := hi
  have hlt := (List.getElem?_eq_some_iff.1 hget).1
  exact ⟨g, by rw [hhandles, List.getElem?_append_left hlt, hget], hhooked⟩

theorem Inv.hook {t₀ t : Target κ} (hinv : Inv t₀ t) (callback : κ) (e : Situation)
    (hkind : e.ready = true →
      e.kind (t.willInline e) = some (if t.willInline e then .inline else .replacement)) :
    Inv t₀ (t.hook afterHook callback e) := by
  by_cases hready : e.ready = true
  · obtain ⟨backup, t', heq, hinst⟩ := t.hook_spec afterHook callback e hready _ (hkind hready)
    rw [heq]
    have hnew : ({ t' with handles := t.handles ++ [t.newHandle e callback backup] }
        : Target κ).HookedAt t.handles.length :=
      ⟨t.newHandle e callback backup, by simp, rfl⟩
    constructor
    · exact fun hnone => absurd hnew (hnone _)
    · intro i h hget hhooked hothers
      -- only the new handle can be alone, and then none was hooked before it
      have hi : i = t.handles.length := by
        by_contra hne
        exact hothers _ (Ne.symm hne) hnew
      have hh : t.newHandle e callback backup = h := by
        rw [hi] at hget
        simpa using hget
      rw [← hh]
      have hnone : ∀ j, ¬ t.HookedAt j := by
        intro j hj
        have hlt : j < t.handles.length := by
          obtain ⟨g, hg, -⟩ := hj
          exact (List.getElem?_eq_some_iff.1 hg).1
        exact hothers j (by omega) (hookedAt_append rfl hj)
      obtain ⟨hentry, hcode, -⟩ := hinv.restored hnone
      exact undoes_newHandle hinst hentry hcode
    · intro _
      refine ⟨hinst.dispatches, t.newHandle e callback backup, by simp, rfl, ?_⟩
      exact hinst.registry
  · unfold Target.hook
    rw [if_neg hready]
    exact hinv

theorem Inv.unhook {t₀ t : Target κ} (hinv : Inv t₀ t) (i : Nat)
    (halone : t.HookedAt i → ∀ j, j ≠ i → ¬ t.HookedAt j) : Inv t₀ (t.unhook i) := by
  by_cases hi : t.HookedAt i
  · obtain ⟨h, hget, hhooked⟩ := hi
    have hothers := halone ⟨h, hget, hhooked⟩
    have hundoes := hinv.alone i h hget hhooked hothers
    rw [unhook_of_hookedAt hget hhooked]
    have hnone : ∀ j, ¬ ({ t.restore h with
        accessFlags := h.origAccessFlags
        registry := none
        handles := t.handles.set i { h with isHooked := false } } : Target κ).HookedAt j := by
      rintro j ⟨g, hg, hghooked⟩
      by_cases hji : j = i
      · subst hji
        have hlt := (List.getElem?_eq_some_iff.1 hget).1
        rw [List.getElem?_set_self hlt] at hg
        rw [← Option.some.inj hg] at hghooked
        exact absurd hghooked (by simp)
      · rw [List.getElem?_set_ne (Ne.symm hji)] at hg
        exact hothers j hji ⟨g, hg, hghooked⟩
    refine ⟨fun _ => ⟨hundoes.1, hundoes.2, rfl⟩, ?_, ?_⟩
    · exact fun j g hg hghooked => absurd ⟨g, hg, hghooked⟩ (hnone j)
    · rintro ⟨j, hj⟩
      exact absurd hj (hnone j)
  · rw [unhook_of_not_hookedAt hi]
    exact hinv

end Target

open Target

theorem Target.Inv.step {t₀ t : Target κ} (op : Op κ) (hinv : Inv t₀ t) (hop : op.Alone t) :
    Inv t₀ (step afterHook t op) := by
  cases op with
  | hook callback e => exact hinv.hook afterHook callback e hop
  | unhook i => exact hinv.unhook i hop

/-- Behind every run from a method that is not hooked, in which every `hook` installs what it
    decided on and every `unhook` is of the only hooked handle, the method is restored or reaches a
    registered callback. -/
theorem run_restoresAndReaches (t₀ : Target κ) (hregistry : t₀.registry = none)
    (hhandles : t₀.handles = []) (ops : List (Op κ))
    (halone : Along (step afterHook) Op.Alone t₀ ops) :
    RestoresAndReaches t₀ (run (step afterHook) t₀ ops) := by
  have hnone : ∀ i, ¬ t₀.HookedAt i := by
    rintro i ⟨h, hget, -⟩
    rw [hhandles] at hget
    exact absurd hget (by simp)
  have hinit : Inv t₀ t₀ :=
    ⟨fun _ => ⟨rfl, rfl, hregistry⟩, fun i h hget hhooked _ => absurd ⟨h, hget, hhooked⟩ (hnone i),
      fun ⟨i, hi⟩ => absurd hi (hnone i)⟩
  have hinv := Along.invariant (fun t op hinv hop => hinv.step afterHook op hop) hinit halone
  refine ⟨fun h => ?_, hinv.reaches⟩
  obtain ⟨hentry, hcode, hreg⟩ := hinv.restored h
  exact ⟨hentry, hcode, hreg.trans hregistry.symm⟩

end Proofs

/-! ## Runs -/

/-- A method with compiled code, all of it `nop`. -/
def compiledMethod : Target Nat where
  entryPoint := ⟨0x7000, by decide⟩
  accessFlags := 1
  code := fun a => [0x1F, 0x20, 0x03, 0xD5].getD (a % 4) 0
  bridges := []
  registry := none
  handles := []

/-- An attempt in which every allocation succeeds; `unprotected` says whether the code can be made
    writable. -/
def attempt (unprotected : Bool) (addr : Nat) (h : 0 < addr) : Attempt where
  unprotected := unprotected
  backup := some ⟨addr, h⟩
  inlineBridge := some ⟨addr + 0x100, by omega⟩
  replacementBridge := some ⟨addr + 0x100, by omega⟩

def situation (compiled unprotected : Bool) (addr : Nat) (h : 0 < addr) : Situation where
  ready := true
  replacementOnly := false
  compiled := compiled
  found := true
  first := attempt unprotected addr h
  second := attempt unprotected addr h

def dontBother : Bool → UInt32 → UInt32 := fun _ flags => flags ||| 0x02000000

/-- The calls of a hook that is taken back. -/
def hookAndUnhook (unprotected : Bool) : List (Op Nat) :=
  [.hook 1 (situation true unprotected 0x9000 (by decide)), .unhook 0]

theorem hookAndUnhook_restores :
    compiledMethod.registry = none ∧ Along (step dontBother) Op.Alone compiledMethod
        (hookAndUnhook true) ∧
      RestoresAndReaches compiledMethod (run (step dontBother) compiledMethod (hookAndUnhook true)) := by
  have halone : Along (step dontBother) Op.Alone compiledMethod (hookAndUnhook true) := by
    refine ⟨fun _ => by decide, fun _ j hj => ?_, trivial⟩
    rintro ⟨h, hget, -⟩
    have hlen : (step dontBother compiledMethod
        (.hook 1 (situation true true 0x9000 (by decide)))).handles.length = 1 := by decide
    have hlt := (List.getElem?_eq_some_iff.1 hget).1
    omega
  exact ⟨rfl, halone, run_restoresAndReaches dontBother compiledMethod rfl rfl _ halone⟩

/-- Two hooks by replacement, of which the second one is taken back. -/
def hookTwice : List (Op Nat) :=
  [.hook 1 (situation false true 0x9000 (by decide)),
    .hook 2 (situation false true 0xA000 (by decide)), .unhook 1]

/-- With two handles, unhooking one of them leaves the other without a registered callback; and when
    the code cannot be made writable, the handle of the replacement does not take it back. -/
theorem hookTwice_not_restoresAndReaches :
    ¬ RestoresAndReaches compiledMethod (run (step dontBother) compiledMethod hookTwice) ∧
      ¬ RestoresAndReaches compiledMethod
        (run (step dontBother) compiledMethod (hookAndUnhook false)) := by
  constructor
  · intro h
    have hempty : (run (step dontBother) compiledMethod hookTwice).registry = none := by decide
    obtain ⟨-, g, -, -, hreg⟩ := h.2 ⟨0, _, rfl, rfl⟩
    exact absurd (hempty.symm.trans hreg) (by simp)
  · intro h
    have hnone : ∀ i, ¬ (run (step dontBother) compiledMethod (hookAndUnhook false)).HookedAt i := by
      have hall : (run (step dontBother) compiledMethod (hookAndUnhook false)).handles.all
          (fun g => !g.isHooked) = true := by decide
      rintro i ⟨g, hget, hhooked⟩
      have hg := List.all_eq_true.1 hall g (List.mem_of_getElem? hget)
      rw [hhooked] at hg
      exact absurd hg (by simp)
    have hentry := (h.1 hnone).1
    exact absurd hentry (by decide)

end ArtPi.Hook
