import ArtPi.Lib.Memory

set_option autoImplicit false

/-! # The scratch buffer of an injection (`cli/injector/ptrace_inject.cpp`)

`InjectLibrary` maps a buffer in the target and pokes the arguments of its remote calls into it, each at a fixed offset:
the path of the library, the name of a namespace, two lists of directories and the extended parameters of the linker.
The room behind an offset is smaller than what the check of the path's length lets through. -/

namespace ArtPi.Inject

open Lib

/-! ## Pokes -/

/-- The loop of `PokeBytes`: whole words, the last one filled up with zeros. -/
def pokeBytes (m : Memory) (addr : Nat) (data : List UInt8) : Memory :=
  let n8 := (data.length + 7) / 8
  let buf := data ++ List.replicate (8 * n8 - data.length) 0
  (List.range n8).foldl (fun m i => m.write (addr + 8 * i) ((buf.drop (8 * i)).take 8)) m

def text (s : String) : List UInt8 := s.toList.map (fun c => UInt8.ofNat c.toNat)

/-- The string and its terminator. -/
def pokeString (m : Memory) (addr : Nat) (s : List UInt8) : Memory := pokeBytes m addr (s ++ [0])

/-! ## The injection -/

/-- `android_dlextinfo` -/
structure DlExtInfo where
  flags : Nat
  libraryFd : Nat := 0
  libraryNamespace : Nat := 0

/-- Little-endian, the fields that are not set are zero. -/
def DlExtInfo.bytes (x : DlExtInfo) : List UInt8 :=
  (Bytes.beBytes 8 x.flags).reverse ++ List.replicate 20 0 ++ (Bytes.beBytes 4 x.libraryFd).reverse ++
    List.replicate 8 0 ++ (Bytes.beBytes 8 x.libraryNamespace).reverse

inductive Func where
  | androidDlopenExt
  | androidCreateNamespace
  | open
  | close
  deriving DecidableEq

/-- An argument of a remote call: a number, or an address with what is meant to be there. -/
inductive Arg where
  | word (v : Nat)
  | string (addr : Nat) (s : List UInt8)
  | struct (addr : Nat) (bytes : List UInt8)

/-- A remote call, with the memory of the target at that time. -/
structure Call where
  func : Func
  args : List Arg
  mem : Memory

/-- What the injector finds out: the buffer that `mmap` has returned, whether there is a caller in the app, the offsets
    of the symbols, and how each remote call ends. -/
structure Env where
  mem : Memory
  remoteBuf : Nat
  hasAppCaller : Bool
  callerAddr : Nat
  offCreateNs : Nat
  offOpen : Nat
  offClose : Nat
  /-- `ret` behind the first `dlopen`, and behind the one into the new namespace -/
  dlopenRet : Nat
  dlopenNsRet : Nat
  /-- what `RemoteCall` returns for `android_create_namespace`, and `nsRet` -/
  createNsOk : Bool
  nsRet : Nat
  /-- whether `RemoteCall` for `open` succeeds with a descriptor, and which -/
  openOk : Bool
  fdRet : Nat

variable (e : Env) (soPath : CStr)

def nsName : List UInt8 := text "artpi_ns"

/-- Up to the last slash. -/
def libDir : List UInt8 :=
  if 0x2F ∈ soPath.val then (soPath.val.reverse.dropWhile (· ≠ 0x2F)).tail.reverse else text "/data/local/tmp"

def permitted : List UInt8 :=
  libDir soPath ++ text ":/data/app:/data/user/0:/data/data:/data/local/tmp"

def addrNsName : Nat := e.remoteBuf + 0x400
def addrLibDir : Nat := e.remoteBuf + 0x500
def addrPermitted : Nat := e.remoteBuf + 0x800
def addrExtInfo : Nat := e.remoteBuf + 0x1800

/-- The memory, the calls so far and `ret`. -/
structure Progress where
  mem : Memory
  calls : List Call
  ret : Nat

def rtldNow : Nat := 2

/-- `ANDROID_DLEXT_USE_LIBRARY_FD` -/
def useLibraryFd : Nat := 0x10

/-- `O_RDONLY | O_CLOEXEC` -/
def openFlags : Nat := 0x80000

/-- Step 3: a caller in the app selects the namespace. -/
def viaCaller (p : Progress) : Progress :=
  if e.hasAppCaller then
    { p with
      calls := p.calls ++ [⟨.androidDlopenExt,
        [.string e.remoteBuf soPath.val, .word rtldNow, .word 0, .word e.callerAddr], p.mem⟩]
      ret := e.dlopenRet }
  else p

/-- The three pokes for `android_create_namespace`. -/
def pokeNamespace (m : Memory) : Memory :=
  let m := pokeString m (addrNsName e) nsName
  let m := pokeString m (addrLibDir e) (libDir soPath)
  pokeString m (addrPermitted e) (permitted soPath)

/-- Step 4: a namespace of its own. -/
def viaNamespace (p : Progress) : Progress :=
  if p.ret = 0 ∧ e.offCreateNs ≠ 0 then
    let m := pokeNamespace e soPath p.mem
    let calls := p.calls ++ [⟨.androidCreateNamespace,
      [.string (addrNsName e) nsName, .string (addrLibDir e) (libDir soPath),
        .string (addrLibDir e) (libDir soPath), .word 2, .string (addrPermitted e) (permitted soPath), .word 0,
        .word e.callerAddr], m⟩]
    if e.createNsOk ∧ e.nsRet ≠ 0 then
      let extinfo : DlExtInfo := { flags := 0x200, libraryNamespace := e.nsRet }
      let m := pokeBytes m (addrExtInfo e) extinfo.bytes
      ⟨m, calls ++ [⟨.androidDlopenExt,
        [.string e.remoteBuf soPath.val, .word rtldNow, .struct (addrExtInfo e) extinfo.bytes, .word e.callerAddr],
        m⟩], e.dlopenNsRet⟩
    else ⟨m, calls, p.ret⟩
  else p

/-- Step 5: a descriptor of the file. -/
def viaFd (p : Progress) : Progress :=
  if p.ret = 0 ∧ e.offOpen ≠ 0 ∧ e.offClose ≠ 0 then
    let calls := p.calls ++ [⟨.open, [.string e.remoteBuf soPath.val, .word openFlags, .word 0], p.mem⟩]
    if e.openOk then
      let extinfo : DlExtInfo := { flags := useLibraryFd, libraryFd := e.fdRet }
      let m := pokeBytes p.mem (addrExtInfo e) extinfo.bytes
      { p with
        mem := m
        calls := calls ++ [⟨.androidDlopenExt,
          [.string e.remoteBuf soPath.val, .word rtldNow, .struct (addrExtInfo e) extinfo.bytes,
            .word e.callerAddr], m⟩, ⟨.close, [.word e.fdRet], m⟩] }
    else { p with calls := calls }
  else p

/-- The remote calls of `InjectLibrary` behind `mmap`; `none` where it refuses the path. -/
def injectLibrary : Option (List Call) :=
  if 0x1000 < soPath.val.length + 1 then none
  else
    let p : Progress := ⟨pokeString e.mem e.remoteBuf soPath.val, [], 0⟩
    some (viaFd e soPath (viaNamespace e soPath (viaCaller e soPath p))).calls

/-! ## Intact arguments -/

def Arg.Intact (m : Memory) : Arg → Prop
  | .word _ => True
  | .string addr s => m.Holds addr s
  | .struct addr bytes => m.read addr bytes.length = bytes

def Call.Intact (c : Call) : Prop := ∀ a ∈ c.args, a.Intact c.mem

/-! ## What a poke writes -/

/-- The words of `PokeBytes`. -/
def padded (data : List UInt8) : List UInt8 :=
  data ++ List.replicate (8 * ((data.length + 7) / 8) - data.length) 0

theorem length_padded (data : List UInt8) : (padded data).length = 8 * ((data.length + 7) / 8) := by
  unfold padded
  rw [List.length_append, List.length_replicate]
  omega

theorem pokeBytes_eq (m : Memory) (addr : Nat) (data : List UInt8) :
    pokeBytes m addr data = m.write addr (padded data) := by
  have hlen := length_padded data
  have hchunks := m.write_chunks addr 8 ((data.length + 7) / 8) (le_of_eq hlen.symm)
  rw [← hlen, List.take_length] at hchunks
  exact hchunks

theorem read_pokeBytes (m : Memory) (addr : Nat) (data : List UInt8) :
    (pokeBytes m addr data).read addr data.length = data := by
  rw [pokeBytes_eq]
  exact m.read_write_append addr data _

theorem holds_pokeString (m : Memory) (addr : Nat) (s : List UInt8) : (pokeString m addr s).Holds addr s := by
  have hread := read_pokeBytes m addr (s ++ [0])
  rw [List.length_append] at hread
  exact hread

theorem holds_pokeBytes (m : Memory) {addr b : Nat} {data s : List UInt8}
    (h : b + 8 * ((data.length + 7) / 8) ≤ addr ∨ addr + s.length < b) :
    (pokeBytes m b data).Holds addr s ↔ m.Holds addr s := by
  have hlen := length_padded data
  rw [pokeBytes_eq]
  exact Memory.holds_write_of_disjoint m (by omega)

theorem holds_pokeString_of_disjoint (m : Memory) {addr b : Nat} {t s : List UInt8}
    (h : b + 8 * ((t.length + 8) / 8) ≤ addr ∨ addr + s.length < b) :
    (pokeString m b t).Holds addr s ↔ m.Holds addr s := by
  refine holds_pokeBytes m ?_
  rw [List.length_append]
  exact h

/-! ## The strings behind the pokes for the namespace -/

theorem length_nsName : nsName.length = 8 := by decide

theorem zero_not_mem_nsName : 0 ∉ nsName := by decide

theorem length_permitted : (libDir soPath).length < (permitted soPath).length := by
  unfold permitted
  have hpos : 0 < (text ":/data/app:/data/user/0:/data/data:/data/local/tmp").length := by decide
  rw [List.length_append]
  omega

theorem zero_not_mem_libDir : 0 ∉ libDir soPath := by
  unfold libDir
  split
  · intro hmem
    have htail := List.mem_of_mem_tail (List.mem_reverse.1 hmem)
    exact soPath.property (List.mem_reverse.1 ((List.dropWhile_sublist _).mem htail))
  · decide

theorem zero_not_mem_permitted : 0 ∉ permitted soPath := by
  intro hmem
  rcases List.mem_append.1 hmem with hdir | hrest
  · exact zero_not_mem_libDir soPath hdir
  · exact absurd hrest (by decide)

variable {e} {soPath} {m : Memory}

theorem holds_nsName : (pokeNamespace e soPath m).Holds (addrNsName e) nsName := by
  have hlen := length_nsName
  unfold pokeNamespace
  rw [holds_pokeString_of_disjoint _ (.inr (by unfold addrNsName addrPermitted; omega)),
    holds_pokeString_of_disjoint _ (.inr (by unfold addrNsName addrLibDir; omega))]
  exact holds_pokeString m _ _

theorem holds_permitted : (pokeNamespace e soPath m).Holds (addrPermitted e) (permitted soPath) :=
  holds_pokeString _ _ _

/-- The list of permitted directories begins with the directory of the library, so a directory that reaches it goes on
    behind its end. -/
theorem holds_libDir_iff :
    (pokeNamespace e soPath m).Holds (addrLibDir e) (libDir soPath) ↔ (libDir soPath).length < 0x300 := by
  have haddr : addrLibDir e + 0x300 = addrPermitted e := rfl
  constructor
  · intro h
    by_contra hlong
    have hrest := ((Memory.holds_iff_drop (Nat.le_of_not_lt hlong)).1 h).2
    rw [haddr] at hrest
    have heq := hrest.unique holds_permitted (fun hmem => zero_not_mem_libDir soPath (List.mem_of_mem_drop hmem))
      (zero_not_mem_permitted soPath)
    have hlen := congrArg List.length heq
    have hlt := length_permitted soPath
    rw [List.length_drop] at hlen
    omega
  · intro hshort
    unfold pokeNamespace
    rw [holds_pokeString_of_disjoint _ (.inr (by omega))]
    exact holds_pokeString _ _ _

/-- The path stays if it ends before the name of the namespace, or with it. -/
theorem holds_path_iff (hpath : m.Holds e.remoteBuf soPath.val) :
    (pokeNamespace e soPath m).Holds e.remoteBuf soPath.val ↔
      soPath.val.length < 0x400 ∨ soPath.val.drop 0x400 = nsName := by
  have hname : (pokeNamespace e soPath m).Holds (e.remoteBuf + 0x400) nsName := holds_nsName
  by_cases hshort : soPath.val.length < 0x400
  · refine iff_of_true ?_ (.inl hshort)
    unfold pokeNamespace
    rw [holds_pokeString_of_disjoint _ (.inr (by unfold addrPermitted; omega)),
      holds_pokeString_of_disjoint _ (.inr (by unfold addrLibDir; omega)),
      holds_pokeString_of_disjoint _ (.inr (by unfold addrNsName; omega))]
    exact hpath
  · have hle : 0x400 ≤ soPath.val.length := Nat.le_of_not_lt hshort
    rw [Memory.holds_iff_drop hle, or_iff_right hshort]
    constructor
    · rintro ⟨-, hrest⟩
      exact hrest.unique hname (fun hmem => soPath.property (List.mem_of_mem_drop hmem)) zero_not_mem_nsName
    · intro heq
      rw [heq]
      refine ⟨?_, hname⟩
      unfold pokeNamespace pokeString
      rw [pokeBytes_eq, pokeBytes_eq, pokeBytes_eq,
        Memory.read_write_of_disjoint _ (.inr (by unfold addrPermitted; omega)),
        Memory.read_write_of_disjoint _ (.inr (by unfold addrLibDir; omega)),
        Memory.read_write_of_disjoint _ (.inr (by unfold addrNsName; omega))]
      exact ((Memory.holds_iff_drop hle).1 hpath).1

/-! ## The calls -/

def Progress.Intact (p : Progress) : Prop := ∀ c ∈ p.calls, c.Intact

theorem Progress.intact_append {p : Progress} {cs : List Call} {m : Memory} {r : Nat} :
    Progress.Intact ⟨m, p.calls ++ cs, r⟩ ↔ p.Intact ∧ ∀ c ∈ cs, c.Intact := by
  unfold Progress.Intact
  rw [List.forall_mem_append]

variable (e) (soPath)

/-- The first `dlopen` has no handle, and the linker can make namespaces. -/
def usesNamespace : Prop := (e.hasAppCaller → e.dlopenRet = 0) ∧ e.offCreateNs ≠ 0

/-- A later call receives the path once more. -/
def passesPathAgain : Prop := (e.createNsOk ∧ e.nsRet ≠ 0) ∨ (e.offOpen ≠ 0 ∧ e.offClose ≠ 0)

def pathFits : Prop := soPath.val.length < 0x400 ∨ soPath.val.drop 0x400 = nsName

/-- Every string that a call receives has the room it needs. -/
def argsFit : Prop := usesNamespace e → (libDir soPath).length < 0x300 ∧ (passesPathAgain e → pathFits soPath)

variable {e} {soPath} {p : Progress}

theorem viaCaller_intact (hpath : p.mem.Holds e.remoteBuf soPath.val) (hp : p.Intact) :
    (viaCaller e soPath p).Intact := by
  unfold viaCaller
  split
  · rw [Progress.intact_append]
    refine ⟨hp, ?_⟩
    simpa [Call.Intact, Arg.Intact] using hpath
  · exact hp

theorem viaCaller_mem : (viaCaller e soPath p).mem = p.mem := by
  unfold viaCaller
  split <;> rfl

theorem viaCaller_ret (hp : p.ret = 0) :
    (viaCaller e soPath p).ret = 0 ↔ (e.hasAppCaller → e.dlopenRet = 0) := by
  unfold viaCaller
  split
  next h => exact ⟨fun hret _ => hret, fun hret => hret h⟩
  next h => exact ⟨fun _ hcaller => absurd hcaller h, fun _ => hp⟩

theorem holds_path_pokeExtInfo {m : Memory} (x : DlExtInfo) (hlen : soPath.val.length < 0x1000) :
    (pokeBytes m (addrExtInfo e) x.bytes).Holds e.remoteBuf soPath.val ↔ m.Holds e.remoteBuf soPath.val :=
  holds_pokeBytes m (.inr (by unfold addrExtInfo; omega))

theorem viaNamespace_of_skip (h : ¬(p.ret = 0 ∧ e.offCreateNs ≠ 0)) : viaNamespace e soPath p = p := by
  unfold viaNamespace
  rw [if_neg h]

theorem createNamespace_intact {m : Memory} :
    Call.Intact ⟨.androidCreateNamespace,
      [.string (addrNsName e) nsName, .string (addrLibDir e) (libDir soPath),
        .string (addrLibDir e) (libDir soPath), .word 2, .string (addrPermitted e) (permitted soPath), .word 0,
        .word e.callerAddr], pokeNamespace e soPath m⟩ ↔ (libDir soPath).length < 0x300 := by
  rw [← holds_libDir_iff (e := e) (m := m)]
  simp [Call.Intact, Arg.Intact, holds_nsName, holds_permitted]

theorem dlopenExt_intact {m : Memory} {x : DlExtInfo} (hlen : soPath.val.length < 0x1000) :
    Call.Intact ⟨.androidDlopenExt,
      [.string e.remoteBuf soPath.val, .word rtldNow, .struct (addrExtInfo e) x.bytes, .word e.callerAddr],
      pokeBytes m (addrExtInfo e) x.bytes⟩ ↔ m.Holds e.remoteBuf soPath.val := by
  rw [← holds_path_pokeExtInfo x hlen]
  simp [Call.Intact, Arg.Intact, read_pokeBytes]

theorem viaNamespace_intact (h : p.ret = 0 ∧ e.offCreateNs ≠ 0) (hlen : soPath.val.length < 0x1000)
    (hpath : p.mem.Holds e.remoteBuf soPath.val) (hp : p.Intact) :
    (viaNamespace e soPath p).Intact ↔
      (libDir soPath).length < 0x300 ∧ (e.createNsOk ∧ e.nsRet ≠ 0 → pathFits soPath) := by
  have hfits : (pokeNamespace e soPath p.mem).Holds e.remoteBuf soPath.val ↔ pathFits soPath := holds_path_iff hpath
  unfold viaNamespace
  rw [if_pos h]
  split
  next hns =>
    dsimp only
    rw [List.append_assoc, Progress.intact_append, and_iff_right hp, forall_prop_of_true hns, ← hfits]
    rw [List.forall_mem_append, List.forall_mem_singleton, List.forall_mem_singleton, createNamespace_intact,
      dlopenExt_intact hlen]
  next hns =>
    rw [Progress.intact_append, and_iff_right hp, List.forall_mem_singleton, createNamespace_intact]
    exact (and_iff_left fun hns' => absurd hns' hns).symm

theorem viaNamespace_holds (h : p.ret = 0 ∧ e.offCreateNs ≠ 0) (hlen : soPath.val.length < 0x1000)
    (hpath : p.mem.Holds e.remoteBuf soPath.val) :
    (viaNamespace e soPath p).mem.Holds e.remoteBuf soPath.val ↔ pathFits soPath := by
  have hfits : (pokeNamespace e soPath p.mem).Holds e.remoteBuf soPath.val ↔ pathFits soPath := holds_path_iff hpath
  unfold viaNamespace
  rw [if_pos h]
  split
  · rw [← hfits]
    exact holds_path_pokeExtInfo _ hlen
  · exact hfits

theorem viaNamespace_ret (h : p.ret = 0) (hns : ¬(e.createNsOk ∧ e.nsRet ≠ 0)) :
    (viaNamespace e soPath p).ret = 0 := by
  unfold viaNamespace
  rw [if_neg hns]
  split <;> exact h

theorem viaFd_intact (hlen : soPath.val.length < 0x1000) :
    (viaFd e soPath p).Intact ↔
      p.Intact ∧ (p.ret = 0 ∧ e.offOpen ≠ 0 ∧ e.offClose ≠ 0 → p.mem.Holds e.remoteBuf soPath.val) := by
  have hopen : Call.Intact ⟨.open, [.string e.remoteBuf soPath.val, .word openFlags, .word 0], p.mem⟩ ↔
      p.mem.Holds e.remoteBuf soPath.val := by simp [Call.Intact, Arg.Intact]
  have hclose (m : Memory) : Call.Intact ⟨.close, [.word e.fdRet], m⟩ := by simp [Call.Intact, Arg.Intact]
  unfold viaFd
  split
  next h =>
    rw [forall_prop_of_true h]
    split
    · dsimp only
      rw [List.append_assoc, Progress.intact_append, List.forall_mem_append, List.forall_mem_singleton, hopen,
        List.forall_mem_cons, List.forall_mem_singleton, dlopenExt_intact hlen, and_iff_left (hclose _), and_self_iff]
    · rw [Progress.intact_append, List.forall_mem_singleton, hopen]
  next h => exact (and_iff_left fun h' => absurd h' h).symm

/-- What every remote call receives is what was poked for it exactly if everything has its room. -/
theorem calls_intact_iff_argsFit {calls : List Call} (h : injectLibrary e soPath = some calls) :
    (∀ c ∈ calls, c.Intact) ↔ argsFit e soPath := by
  unfold injectLibrary at h
  split at h
  · cases h
  next hshort =>
    have hlen : soPath.val.length < 0x1000 := by omega
    rw [← Option.some.inj h]
    generalize hp0 : (⟨pokeString e.mem e.remoteBuf soPath.val, [], 0⟩ : Progress) = p0
    have hpath0 : p0.mem.Holds e.remoteBuf soPath.val := by
      rw [← hp0]
      exact holds_pokeString _ _ _
    have hret : (viaCaller e soPath p0).ret = 0 ↔ (e.hasAppCaller → e.dlopenRet = 0) :=
      viaCaller_ret (by rw [← hp0])
    have hpath : (viaCaller e soPath p0).mem.Holds e.remoteBuf soPath.val := by
      rw [viaCaller_mem]
      exact hpath0
    have hp : (viaCaller e soPath p0).Intact := by
      refine viaCaller_intact hpath0 ?_
      rw [← hp0]
      exact List.forall_mem_nil _
    generalize viaCaller e soPath p0 = p1 at hret hpath hp ⊢
    refine (viaFd_intact hlen).trans ?_
    unfold argsFit usesNamespace
    rw [← hret]
    by_cases hns : p1.ret = 0 ∧ e.offCreateNs ≠ 0
    · rw [viaNamespace_intact hns hlen hpath hp, viaNamespace_holds hns hlen hpath, forall_prop_of_true hns]
      unfold passesPathAgain
      constructor
      · rintro ⟨⟨hdir, hcreated⟩, hfd⟩
        refine ⟨hdir, fun hagain => ?_⟩
        by_cases hok : e.createNsOk ∧ e.nsRet ≠ 0
        · exact hcreated hok
        · exact hfd ⟨viaNamespace_ret hns.1 hok, hagain.resolve_left hok⟩
      · rintro ⟨hdir, hagain⟩
        exact ⟨⟨hdir, fun hok => hagain (.inl hok)⟩, fun hfd => hagain (.inr hfd.2)⟩
    · rw [viaNamespace_of_skip hns]
      exact iff_of_true ⟨hp, fun _ => hpath⟩ (fun hns' => absurd hns' hns)

def deployed : CStr := ⟨text "/data/local/tmp/libartpi_agent.so", by decide⟩

/-- No caller in the app; the linker makes the namespace and loads the library into it. -/
def early : Env :=
  { mem := fun _ => 0, remoteBuf := 0x7000000000, hasAppCaller := false, callerAddr := 0x7100001000,
    offCreateNs := 0x100, offOpen := 0x200, offClose := 0x300, dlopenRet := 0, dlopenNsRet := 1, createNsOk := true,
    nsRet := 0x7200000000, openOk := false, fdRet := 0 }

theorem calls_intact_deployed :
    ∃ calls, injectLibrary early deployed = some calls ∧
      ((∀ c ∈ calls, c.Intact) ↔ argsFit early deployed) :=
  ⟨_, rfl, calls_intact_iff_argsFit rfl⟩

set_option maxRecDepth 8192 in
/-- Four directories of 200 letters, one in the other. -/
def deep : CStr :=
  ⟨(List.replicate 4 (0x2F :: List.replicate 200 0x64)).flatten ++ text "/x.so", by decide⟩

set_option maxRecDepth 8192 in
/-- The directory of the library runs into the list of the permitted ones. -/
theorem not_calls_intact_deep :
    ¬ ∀ (e : Env) (soPath : CStr) (calls : List Call), injectLibrary e soPath = some calls →
      ∀ c ∈ calls, c.Intact := by
  intro h
  have hlen : deep.val.length < 0x1000 := by decide
  have hcalls : injectLibrary { early with createNsOk := false, offOpen := 0 } deep = some _ :=
    if_neg (by omega)
  have hintact := h _ _ _ hcalls _ List.mem_cons_self
  exact absurd (createNamespace_intact.1 hintact) (by decide)

end ArtPi.Inject
