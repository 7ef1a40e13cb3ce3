import ArtPi.Agent.CtorRelay

set_option autoImplicit false

/-! # Constructors of nested libraries

One thread loads libraries: the linker enters `call_constructors`, initialises the dependencies of the
library and calls its constructors one after the other, and each of them may load more libraries. The
thread runs into the breakpoints of the relay, also into one that was set at the very address at
which it goes on: then a constructor that runs once is taken for two entries, or a library for
finished whose last constructor still runs. The relay reports what happens exactly where no
breakpoint is set at such an address. -/

namespace ArtPi.CtorRelay

mutual

/-- A library with its dependencies and its constructors. -/
inductive Library where
  | mk (soName : String) (deps : Loads) (ctors : Ctors)

/-- Constructors, each with the return address of its call and the libraries that it loads. -/
inductive Ctors where
  | nil
  | cons (ctor : Ctor) (ret : CodeAddr) (loads : Loads) (rest : Ctors)

inductive Loads where
  | nil
  | cons (lib : Library) (rest : Loads)

end

def Ctors.list : Ctors → List Ctor
  | .nil => []
  | .cons ctor _ _ rest => ctor :: rest.list

/-- The address of the first one. -/
def Ctors.first : Ctors → Option Nat
  | .nil => none
  | .cons ctor _ _ _ => some (clear ctor.addr)

/-- What happens, in order: what is reported, that the linker calls a constructor, that one that was run
    returns, and that a library is initialised, with the libraries on the stack and what is armed. -/
inductive Event where
  | report (e : Report)
  | entered (soName : String) (idx : Nat)
  | returned (soName : String) (idx : Nat)
  | initialised (stack : List String) (armed : List Nat)
  deriving DecidableEq

structure World where
  relay : Relay := {}
  trace : List Event := []
  deriving DecidableEq

namespace World

variable (w : World)

/-- The relay goes on, and its reports are seen. -/
def see (r : Relay) : World where
  relay := r
  trace := w.trace ++ (r.log.drop w.relay.log.length).map (fun e => .report e.2)

def note (e : Event) : World := { w with trace := w.trace ++ [e] }

/-- More than the breakpoints that are left to hit. -/
def fuel : Nat := (w.relay.sessions.map (fun s => s.ctors.length + 1)).sum + 1

/-- The thread comes to an address and runs into breakpoints until there is none where it goes on;
    whether it went on at `lr`. -/
def arriveN (tid : Nat) : Nat → World → Nat → CodeAddr → World × Bool
  | 0, w, _, _ => (w, false)
  | n + 1, w, pc, lr =>
    if (w.relay.hookAt tid pc).isSome then
      let out := w.relay.trap tid pc lr []
      let rest := arriveN tid n (w.see out.1) (if out.2 then clear lr else pc) lr
      (rest.1, out.2 || rest.2)
    else (w, false)

def arrive (tid pc : Nat) (lr : CodeAddr) : World × Bool := arriveN tid w.fuel w pc lr

/-- The linker calls a constructor, which runs if the thread does not go on at `lr`. -/
def call (tid : Nat) (soName : String) (idx : Nat) (ctor : Ctor) (ret : CodeAddr)
    (body : World → World) : World :=
  let out := (w.note (.entered soName idx)).arrive tid (clear ctor.addr) ret
  if out.2 then out.1
  else (((body out.1).note (.returned soName idx)).arrive tid (clear ret) ret).1

/-- A library is initialised. -/
def done : World :=
  w.note (.initialised
    (w.relay.stack.filterMap (fun ref => w.relay.sessions[ref]?.map CtorRelaySession.soName))
    (w.relay.hooks.map Hook.address))

end World

mutual

/-- The linker initialises a library. -/
def Library.run (tid : Nat) : Library → World → World
  | .mk soName deps ctors, w =>
    let w := w.see (w.relay.callConstructors tid soName ctors.list [])
    (ctors.run tid soName 0 (deps.run tid w)).done

/-- The linker calls the constructors from one on. -/
def Ctors.run (tid : Nat) (soName : String) (idx : Nat) : Ctors → World → World
  | .nil, w => w
  | .cons ctor ret loads rest, w =>
    rest.run tid soName (idx + 1) (w.call tid soName idx ctor ret (loads.run tid))

def Loads.run (tid : Nat) : Loads → World → World
  | .nil, w => w
  | .cons lib rest, w => rest.run tid (lib.run tid w)

end

mutual

/-- What is to be reported of a library, inside of others on the stack and with an address armed for
    the innermost of them. -/
def Library.expected (stack : List String) (armed : Option Nat) : Library → List Event
  | .mk soName deps ctors =>
    .report (.found soName ctors.list.length) ::
      (deps.expected (if ctors.first.isSome then soName :: stack else stack) (ctors.first <|> armed) ++
        ctors.expected soName stack 0 ++ [.initialised stack armed.toList])

/-- Each constructor is reported when it is called and before it runs, with its own index, and as
    finished when the next one is called; all are done when the last one has returned. -/
def Ctors.expected (soName : String) (stack : List String) (idx : Nat) : Ctors → List Event
  | .nil => []
  | .cons ctor ret loads rest =>
    .entered soName idx :: (enters soName idx).map .report ++
      (if ctor.bypass then []
        else loads.expected (soName :: stack) (rest.first <|> some (clear ret)) ++
          [.returned soName idx]) ++
      (if rest.first.isSome then [] else [.report (.allDone soName)]) ++
      rest.expected soName stack (idx + 1)

def Loads.expected (stack : List String) (armed : Option Nat) : Loads → List Event
  | .nil => []
  | .cons lib rest => lib.expected stack armed ++ rest.expected stack armed

end

/-- The relay reports what happens on a thread that loads some libraries. -/
def Relayed (tid : Nat) (libs : Loads) : Prop := (libs.run tid {}).trace = libs.expected [] none

mutual

/-- No breakpoint is set at an address at which the thread goes on, where an address is armed for the
    library around. -/
def Library.apart (armed : Option Nat) : Library → Bool
  | .mk _ deps ctors => deps.apart (ctors.first <|> armed) && ctors.apart armed

/-- What is armed behind a constructor is not the address of the constructor if this is run, and what is
    armed when it has returned is not its return address. -/
def Ctors.apart (armed : Option Nat) : Ctors → Bool
  | .nil => true
  | .cons ctor ret loads rest =>
    (ctor.bypass || ((rest.first <|> some (clear ret)) ≠ some (clear ctor.addr) &&
      loads.apart (rest.first <|> some (clear ret)))) &&
    ((rest.first <|> armed) ≠ some (clear ret) : Bool) && rest.apart armed

def Loads.apart (armed : Option Nat) : Loads → Bool
  | .nil => true
  | .cons lib rest => lib.apart armed && rest.apart armed

end

/-! ## What has happened stays -/

section

variable {w w' : World} {tid : Nat}

theorem trace_see (w : World) (r : Relay) : w.trace <+: (w.see r).trace := List.prefix_append _ _

theorem trace_note (w : World) (e : Event) : w.trace <+: (w.note e).trace := List.prefix_append _ _

theorem trace_arriveN (tid n : Nat) (lr : CodeAddr) :
    ∀ (w : World) (pc : Nat), w.trace <+: (w.arriveN tid n pc lr).1.trace := by
  induction n with
  | zero => exact fun w _ => List.prefix_refl w.trace
  | succ n ih =>
    intro w pc
    rw [World.arriveN]
    split
    · exact (trace_see w _).trans (ih _ _)
    · exact List.prefix_refl w.trace

theorem trace_arrive (w : World) (tid pc : Nat) (lr : CodeAddr) :
    w.trace <+: (w.arrive tid pc lr).1.trace :=
  trace_arriveN tid w.fuel lr w pc

theorem trace_call (w : World) (tid : Nat) (soName : String) (idx : Nat) (ctor : Ctor) (ret : CodeAddr)
    {body : World → World} (hbody : ∀ w, w.trace <+: (body w).trace) :
    ((w.note (.entered soName idx)).arrive tid (clear ctor.addr) ret).1.trace <+:
      (w.call tid soName idx ctor ret body).trace := by
  rw [World.call]
  split
  · exact List.prefix_refl _
  · exact (hbody _).trans ((trace_note _ _).trans (trace_arrive _ tid (clear ret) ret))

mutual

theorem trace_library (tid : Nat) : ∀ (lib : Library) (w : World), w.trace <+: (lib.run tid w).trace
  | .mk soName deps ctors, w => by
    rw [Library.run]
    exact (trace_see w _).trans ((trace_loads tid deps _).trans
      ((trace_ctors tid soName 0 ctors _).trans (trace_note _ _)))

theorem trace_ctors (tid : Nat) (soName : String) (idx : Nat) :
    ∀ (ctors : Ctors) (w : World), w.trace <+: (ctors.run tid soName idx w).trace
  | .nil, w => List.prefix_refl w.trace
  | .cons ctor ret loads rest, w => by
    rw [Ctors.run]
    exact (trace_note w (.entered soName idx)).trans ((trace_arrive _ tid (clear ctor.addr) ret).trans
      ((trace_call w tid soName idx ctor ret (trace_loads tid loads)).trans
        (trace_ctors tid soName (idx + 1) rest _)))

theorem trace_loads (tid : Nat) : ∀ (libs : Loads) (w : World), w.trace <+: (libs.run tid w).trace
  | .nil, w => List.prefix_refl w.trace
  | .cons lib rest, w => by
    rw [Loads.run]
    exact (trace_library tid lib w).trans (trace_loads tid rest _)

end

/-! ## Following what is expected -/

/-- The report of a hit. -/
def Event.isHit : Event → Bool
  | .report (.found _ _) => false
  | .report _ => true
  | _ => false

/-- The trace has an event where another one is expected. -/
def Strays (trace expected : List Event) : Prop :=
  ∃ past x y more more', trace = past ++ x :: more ∧ expected = past ++ y :: more' ∧ x ≠ y

theorem Strays.not_prefix {trace expected : List Event} (h : Strays trace expected) :
    ¬ trace <+: expected := by
  obtain ⟨past, x, y, more, more', rfl, rfl, hne⟩ := h
  rintro ⟨later, heq⟩
  rw [List.append_assoc, List.cons_append] at heq
  exact hne (List.cons.inj (List.append_cancel_left heq)).1

theorem Strays.mono {trace trace' expected : List Event} (h : Strays trace expected)
    (hp : trace <+: trace') : Strays trace' expected := by
  obtain ⟨past, x, y, more, more', rfl, rfl, hne⟩ := h
  obtain ⟨later, rfl⟩ := hp
  exact ⟨past, x, y, more ++ later, more', by simp, rfl, hne⟩

/-- What the relay armed for a stack of frames. -/
def armedOf (fs : List Frame) : Option Nat := fs.head?.map Frame.armed

/-- If all is well the frames are as given and the events have happened; if not, a hit has happened
    where something else is expected. -/
structure Follows (w w' : World) (tid : Nat) (fs : List Frame) (events : List Event) (ok : Bool) :
    Prop where
  well : ok = true → Refines w'.relay tid fs ∧ w'.trace = w.trace ++ events
  stray : ok = false → ∀ y ys, y.isHit = false → Strays w'.trace (w.trace ++ events ++ y :: ys)

theorem Follows.refl {fs : List Frame} (h : Refines w.relay tid fs) : Follows w w tid fs [] true :=
  ⟨fun _ => ⟨h, (List.append_nil _).symm⟩, fun hno => absurd hno (by simp)⟩

/-- One part of a run behind another one, if what is expected of it does not begin with a hit. -/
theorem Follows.trans {w₁ w₂ : World} {fs₁ fs₂ : List Frame} {events₁ events₂ : List Event}
    {ok₁ ok₂ : Bool} (h : Follows w w₁ tid fs₁ events₁ ok₁)
    (hnext : ok₁ = true → Refines w₁.relay tid fs₁ → Follows w₁ w₂ tid fs₂ events₂ ok₂)
    (hgrow : w₁.trace <+: w₂.trace) (hhead : ∀ y ∈ events₂.head?, y.isHit = false) :
    Follows w w₂ tid fs₂ (events₁ ++ events₂) (ok₁ && ok₂) := by
  cases hok : ok₁ with
  | true =>
    obtain ⟨hrefines, htrace⟩ := h.well hok
    have hsecond := hnext hok hrefines
    rw [Bool.true_and]
    refine ⟨fun hok₂ => ?_, fun hno y ys hy => ?_⟩
    · obtain ⟨hrefines₂, htrace₂⟩ := hsecond.well hok₂
      exact ⟨hrefines₂, by rw [htrace₂, htrace, List.append_assoc]⟩
    · have hstray := hsecond.stray hno y ys hy
      rwa [htrace, List.append_assoc w.trace] at hstray
  | false =>
    rw [Bool.false_and]
    refine ⟨fun hno => absurd hno (by simp), fun _ y ys hy => ?_⟩
    cases events₂ with
    | nil =>
      rw [List.append_nil]
      exact (h.stray hok y ys hy).mono hgrow
    | cons z zs =>
      have hstray := h.stray hok z (zs ++ y :: ys) (hhead z rfl)
      refine Strays.mono ?_ hgrow
      simpa using hstray

end

/-! ## Coming to an address -/

section

variable {w : World} {tid pc n : Nat} {f : Frame} {fs : List Frame}

theorem settle_nil (fs : List Frame) : settle [] fs = some fs := by
  cases fs <;> rfl

theorem trace_see_of_log {r : Relay} {reports : List Report}
    (h : r.log = w.relay.log ++ reports.map (fun e => (tid, e))) :
    (w.see r).trace = w.trace ++ reports.map .report := by
  rw [World.see, h, List.drop_left, List.map_map]
  rfl

theorem trace_see_report (tid : Nat) {r : Relay} {e : Report} (h : r.log = w.relay.log ++ [(tid, e)]) :
    (w.see r).trace = w.trace ++ [.report e] := by
  rw [World.see, h, List.drop_left]
  rfl

theorem isHit_reports (f : Frame) :
    ∃ x more, f.reports = x :: more ∧ (Event.report x).isHit = true := by
  unfold Frame.reports
  cases f.ctors[f.index]? with
  | none => exact ⟨_, _, rfl, rfl⟩
  | some c =>
    unfold enters
    by_cases hpos : 0 < f.index
    · rw [if_pos hpos]
      exact ⟨_, _, rfl, rfl⟩
    · rw [if_neg hpos]
      exact ⟨_, _, rfl, rfl⟩

theorem hookAt_iff (h : Refines w.relay tid fs) :
    (w.relay.hookAt tid pc).isSome ↔ armedOf fs = some pc := by
  rw [hookAt_refines h]
  cases fs with
  | nil => simp [armedOf]
  | cons f fs => simp [armedOf]

theorem arriveN_quiet (h : Refines w.relay tid fs) (hpc : armedOf fs ≠ some pc) (n : Nat)
    (lr : CodeAddr) : w.arriveN tid n pc lr = (w, false) := by
  cases n with
  | zero => rfl
  | succ n => rw [World.arriveN, if_neg (fun hsome => hpc ((hookAt_iff h).mp hsome))]

theorem arriveN_hit (h : Refines w.relay tid (f :: fs)) (n : Nat) (lr : CodeAddr) :
    ∃ w' : World, Refines w'.relay tid ((f.after lr).toList ++ fs) ∧
      w'.trace = w.trace ++ f.reports.map .report ∧
      w.arriveN tid (n + 1) f.armed lr =
        ((w'.arriveN tid n (if f.bypassed then clear lr else f.armed) lr).1,
          f.bypassed || (w'.arriveN tid n (if f.bypassed then clear lr else f.armed) lr).2) := by
  obtain ⟨hby, hlog, hsettled⟩ := trap_spec h lr []
  rw [settle_nil] at hsettled
  refine ⟨w.see (w.relay.trap tid f.armed lr []).1, hsettled, trace_see_of_log hlog, ?_⟩
  have hsome : (w.relay.hookAt tid f.armed).isSome := (hookAt_iff h).mpr rfl
  rw [World.arriveN, if_pos hsome]
  simp only [hby]

theorem arriveN_strays (h : Refines w.relay tid fs) (hpc : armedOf fs = some pc) (n : Nat)
    (lr : CodeAddr) {y : Event} (hy : y.isHit = false) (ys : List Event) :
    Strays (w.arriveN tid (n + 1) pc lr).1.trace (w.trace ++ y :: ys) := by
  cases fs with
  | nil => exact absurd hpc (by simp [armedOf])
  | cons f fs =>
    obtain rfl : f.armed = pc := by simpa [armedOf] using hpc
    obtain ⟨w', -, htrace, harrive⟩ := arriveN_hit h n lr
    obtain ⟨x, more, hreports, hx⟩ := isHit_reports f
    rw [harrive]
    refine Strays.mono ?_ (trace_arriveN tid n lr w' _)
    refine ⟨w.trace, .report x, y, more.map .report, ys, by rw [htrace, hreports]; rfl, rfl, ?_⟩
    intro heq
    rw [heq, hy] at hx
    exact absurd hx (by simp)

theorem fuel_of_refines (h : Refines w.relay tid (f :: fs)) : ∃ n, w.fuel = n + 2 := by
  obtain ⟨ref, rest, id, -, -, hsession, -⟩ := h
  have hpos : 0 < (w.relay.sessions.map (fun s => s.ctors.length + 1)).sum := by
    refine List.sum_pos_iff_exists_pos_nat.mpr ?_
    exact ⟨(f.session tid id).ctors.length + 1,
      List.mem_map_of_mem (List.mem_of_getElem? hsession), Nat.succ_pos _⟩
  exact ⟨(w.relay.sessions.map (fun s => s.ctors.length + 1)).sum - 1, by unfold World.fuel; omega⟩

theorem arrive_follows (h : Refines w.relay tid (f :: fs)) (lr : CodeAddr) :
    Follows w (w.arrive tid f.armed lr).1 tid ((f.after lr).toList ++ fs) (f.reports.map .report)
        (armedOf ((f.after lr).toList ++ fs) ≠ some (if f.bypassed then clear lr else f.armed) : Bool) ∧
      (armedOf ((f.after lr).toList ++ fs) ≠ some (if f.bypassed then clear lr else f.armed) →
        (w.arrive tid f.armed lr).2 = f.bypassed) := by
  obtain ⟨n, hfuel⟩ := fuel_of_refines h
  obtain ⟨w', hrefines, htrace, harrive⟩ := arriveN_hit h (n + 1) lr
  rw [World.arrive, hfuel, harrive]
  refine ⟨⟨fun hok => ?_, fun hno y ys hy => ?_⟩, fun hok => ?_⟩
  · rw [arriveN_quiet hrefines (by simpa using hok)]
    exact ⟨hrefines, htrace⟩
  · rw [← htrace]
    exact arriveN_strays hrefines (by simpa using hno) n lr hy ys
  · rw [arriveN_quiet hrefines hok, Bool.or_false]

/-- The thread comes to an address at which nothing is to be hit. -/
theorem arrive_past (h : Refines w.relay tid fs) (pc : Nat) (lr : CodeAddr) :
    Follows w (w.arrive tid pc lr).1 tid fs [] (armedOf fs ≠ some pc : Bool) := by
  refine ⟨fun hok => ?_, fun hno y ys hy => ?_⟩
  · rw [World.arrive, arriveN_quiet h (by simpa using hok), List.append_nil]
    exact ⟨h, rfl⟩
  · have hpc : armedOf fs = some pc := by simpa using hno
    rw [World.arrive, List.append_nil]
    exact arriveN_strays h hpc _ lr hy ys

end

/-! ## Libraries -/

section

variable {w w' : World} {tid : Nat} {f : Frame} {fs : List Frame}

theorem names_refines {r : Relay} (h : Refines r tid fs) :
    r.stack.filterMap (fun x => r.sessions[x]?.map CtorRelaySession.soName) = fs.map Frame.soName ∧
      r.hooks.map Hook.address = (armedOf fs).toList := by
  cases fs with
  | nil =>
    refine ⟨filterMap_frames CtorRelaySession.soName h.frames, ?_⟩
    rw [h.hooks]
    rfl
  | cons f fs =>
    obtain ⟨ref, rest, id, hstack, -, hsession, hhooks, hidle⟩ := h
    refine ⟨?_, by rw [hhooks]; rfl⟩
    refine Eq.trans ?_ (filterMap_frames CtorRelaySession.soName hidle.frames)
    -- the session that is armed has its name all the same
    refine List.filterMap_congr (fun x _ => ?_)
    by_cases hx : ref = x
    · subst hx
      obtain ⟨hlt, -⟩ := List.getElem?_eq_some_iff.mp hsession
      rw [hsession, List.getElem?_set_self hlt]
      rfl
    · rw [List.getElem?_set_ne hx]

theorem done_follows (h : Refines w.relay tid fs) :
    Follows w w.done tid fs [.initialised (fs.map Frame.soName) (armedOf fs).toList] true := by
  obtain ⟨hnames, harmed⟩ := names_refines h
  refine ⟨fun _ => ⟨h, ?_⟩, fun hno => absurd hno (by simp)⟩
  rw [World.done, World.note, hnames, harmed]

theorem Follows.note {e : Event} {events : List Event} {ok : Bool}
    (h : Follows (w.note e) w' tid fs events ok) : Follows w w' tid fs (e :: events) ok := by
  refine ⟨fun hok => ?_, fun hno y ys hy => ?_⟩
  · obtain ⟨hrefines, htrace⟩ := h.well hok
    exact ⟨hrefines, by rw [htrace, World.note]; simp⟩
  · have hstray := h.stray hno y ys hy
    simpa [World.note] using hstray

theorem Follows.congr {events events' : List Event} {ok ok' : Bool}
    (h : Follows w w' tid fs events ok) (he : events = events') (hok : ok = ok') :
    Follows w w' tid fs events' ok' := by
  subst he hok
  exact h

theorem isHit_head_ctors (soName : String) (stack : List String) (idx : Nat) (ctors : Ctors) :
    ∀ y ∈ (ctors.expected soName stack idx).head?, y.isHit = false := by
  cases ctors with
  | nil => simp [Ctors.expected]
  | cons ctor ret loads rest =>
    intro y hy
    simp only [Ctors.expected, List.cons_append, List.head?_cons, Option.mem_def,
      Option.some.injEq] at hy
    rw [← hy]
    rfl

theorem isHit_head_loads (stack : List String) (armed : Option Nat) (libs : Loads) :
    ∀ y ∈ (libs.expected stack armed).head?, y.isHit = false := by
  cases libs with
  | nil => simp [Loads.expected]
  | cons lib rest =>
    cases lib with
    | mk soName deps ctors =>
      intro y hy
      simp only [Loads.expected, Library.expected, List.cons_append, List.head?_cons, Option.mem_def,
        Option.some.injEq] at hy
      rw [← hy]
      rfl

theorem isHit_head_append {xs ys : List Event} (hxs : ∀ y ∈ xs.head?, y.isHit = false)
    (hys : ∀ y ∈ ys.head?, y.isHit = false) : ∀ y ∈ (xs ++ ys).head?, y.isHit = false := by
  cases xs with
  | nil => exact hys
  | cons x xs => exact hxs

theorem first_isSome (ctors : Ctors) : ctors.first.isSome = true ↔ ctors.list ≠ [] := by
  cases ctors <;> simp [Ctors.first, Ctors.list]

/-- The frame at the back waits for the first of some constructors. -/
structure Waits (f : Frame) (soName : String) (idx : Nat) (ctors : Ctors) : Prop where
  soName : f.soName = soName
  index : f.index = idx
  ctors : f.ctors.drop idx = ctors.list

theorem Waits.armed {soName : String} {idx : Nat} {ctors : Ctors} (h : Waits f soName idx ctors)
    (hne : ctors.first.isSome) : some f.armed = ctors.first := by
  cases ctors with
  | nil => exact absurd hne (by simp [Ctors.first])
  | cons ctor ret loads rest =>
    have hc : f.ctors[f.index]? = some ctor := by
      rw [h.index, ← List.head?_drop, h.ctors]
      rfl
    rw [Frame.armed_of hc]
    rfl

theorem Waits.after {soName : String} {idx : Nat} {ctor : Ctor} {ret : CodeAddr} {loads : Loads}
    {rest : Ctors} (h : Waits f soName idx (.cons ctor ret loads rest)) :
    f.bypassed = ctor.bypass ∧
      f.reports = enters soName idx ++
        (if rest.first.isSome then [] else if ctor.bypass then [.allDone soName] else []) ∧
      (rest.first.isSome → ∃ f', f.after ret = some f' ∧ Waits f' soName (idx + 1) rest) ∧
      (rest.first = none → ctor.bypass = true → f.after ret = none) ∧
      (rest.first = none → ctor.bypass = false → ∃ f' : Frame, f.after ret = some f' ∧
        f'.soName = soName ∧ f'.armed = clear ret ∧ f'.after ret = none ∧
        f'.reports = [.allDone soName] ∧ f'.bypassed = false) := by
  obtain ⟨rfl, rfl, hdrop⟩ := h
  have hc : f.ctors[f.index]? = some ctor := by
    rw [← List.head?_drop, hdrop]
    rfl
  have hrest : f.ctors.drop (f.index + 1) = rest.list := by
    rw [← List.tail_drop, hdrop]
    rfl
  have hmore : f.index + 1 < f.ctors.length ↔ rest.first.isSome = true := by
    rw [first_isSome, ← hrest, ne_eq, List.drop_eq_nil_iff]
    omega
  refine ⟨Frame.bypassed_of hc, ?_, fun hsome => ?_, fun hnone hb => ?_, fun hnone hb => ?_⟩
  · by_cases hsome : rest.first.isSome = true
    · rw [(Frame.after_of_more ret hc (hmore.mpr hsome)).2, if_pos hsome, List.append_nil]
    · have hlast : ¬ f.index + 1 < f.ctors.length := fun hlt => hsome (hmore.mp hlt)
      rw [if_neg hsome]
      cases hb : ctor.bypass with
      | true => rw [(Frame.after_of_bypass ret hc hlast hb).2, if_pos rfl]
      | false =>
        rw [(Frame.after_of_last hc hlast hb (.inr (clear_ge ret.property))).2, if_neg (by simp),
          List.append_nil]
  · exact ⟨_, (Frame.after_of_more ret hc (hmore.mpr hsome)).1, rfl, rfl, hrest⟩
  · have hlast : ¬ f.index + 1 < f.ctors.length := fun hlt => by
      rw [hmore, hnone] at hlt
      exact absurd hlt (by simp)
    exact (Frame.after_of_bypass ret hc hlast hb).1
  · have hlast : ¬ f.index + 1 < f.ctors.length := fun hlt => by
      rw [hmore, hnone] at hlt
      exact absurd hlt (by simp)
    have hlive : f.index + 1 < f.ctors.length ∨ 0x1000 ≤ clear ret := .inr (clear_ge ret.property)
    have hend : f.ctors[f.index + 1]? = none := List.getElem?_eq_none_iff.mpr (Nat.not_lt.mp hlast)
    obtain ⟨hafter, hreports, hby, harmed⟩ := Frame.after_of_ret
      (f := { f with index := f.index + 1, pending := clear ret, live := hlive }) ret hend
    exact ⟨_, (Frame.after_of_last hc hlast hb hlive).1, rfl, harmed, hafter, hreports, hby⟩

theorem call_bypassed {soName : String} {idx : Nat} {ctor : Ctor} {ret : CodeAddr} {loads : Loads}
    {rest : Ctors} (hw : Waits f soName idx (.cons ctor ret loads rest)) (hb : ctor.bypass = true)
    (h : Refines w.relay tid (f :: fs)) :
    Follows w (w.call tid soName idx ctor ret (loads.run tid)) tid ((f.after ret).toList ++ fs)
      (.entered soName idx :: f.reports.map .report)
      (armedOf ((f.after ret).toList ++ fs) ≠ some (clear ret) : Bool) := by
  have harmed : f.armed = clear ctor.addr := Option.some.inj (hw.armed rfl)
  have hstart : Refines (w.note (.entered soName idx)).relay tid (f :: fs) := h
  obtain ⟨hfollows, hout⟩ := arrive_follows hstart ret
  simp only [harmed, hw.after.1, hb, if_true] at hfollows hout
  have hnext : (armedOf ((f.after ret).toList ++ fs) ≠ some (clear ret) : Bool) = true →
      Refines ((w.note (.entered soName idx)).arrive tid (clear ctor.addr) ret).1.relay tid
        ((f.after ret).toList ++ fs) →
      Follows ((w.note (.entered soName idx)).arrive tid (clear ctor.addr) ret).1
        (w.call tid soName idx ctor ret (loads.run tid)) tid ((f.after ret).toList ++ fs) [] true := by
    intro hok hrefines
    rw [World.call, if_pos (hout (by simpa using hok))]
    exact Follows.refl hrefines
  exact (hfollows.note.trans hnext
    (trace_call w tid soName idx ctor ret (trace_loads tid loads)) (by simp)).congr
    (List.append_nil _) (Bool.and_true _)

theorem call_run {soName : String} {idx : Nat} {ctor : Ctor} {ret : CodeAddr} {loads : Loads}
    {rest : Ctors} {g : Frame} (hw : Waits f soName idx (.cons ctor ret loads rest))
    (hb : ctor.bypass = false) (hg : f.after ret = some g) (h : Refines w.relay tid (f :: fs))
    (hloads : ∀ {w₁ : World} {fs₁ : List Frame}, Refines w₁.relay tid fs₁ →
      Follows w₁ (loads.run tid w₁) tid fs₁ (loads.expected (fs₁.map Frame.soName) (armedOf fs₁))
        (loads.apart (armedOf fs₁)))
    {fs₂ : List Frame} {events : List Event} {ok : Bool}
    (hret : ∀ {w₁ : World}, Refines w₁.relay tid (g :: fs) →
      Follows w₁ (w₁.arrive tid (clear ret) ret).1 tid fs₂ events ok) :
    Follows w (w.call tid soName idx ctor ret (loads.run tid)) tid fs₂
      (.entered soName idx :: f.reports.map .report ++
        (loads.expected (g.soName :: fs.map Frame.soName) (some g.armed) ++
          (.returned soName idx :: events)))
      ((some g.armed ≠ some (clear ctor.addr) : Bool) && (loads.apart (some g.armed) && ok)) := by
  have harmed : f.armed = clear ctor.addr := Option.some.inj (hw.armed rfl)
  have hstart : Refines (w.note (.entered soName idx)).relay tid (f :: fs) := h
  obtain ⟨hfollows, hout⟩ := arrive_follows hstart ret
  simp only [harmed, hw.after.1, hb, hg, Bool.false_eq_true, if_false, Option.toList_some,
    List.singleton_append] at hfollows hout
  have hnext : (armedOf (g :: fs) ≠ some (clear ctor.addr) : Bool) = true →
      Refines ((w.note (.entered soName idx)).arrive tid (clear ctor.addr) ret).1.relay tid (g :: fs) →
      Follows ((w.note (.entered soName idx)).arrive tid (clear ctor.addr) ret).1
        (w.call tid soName idx ctor ret (loads.run tid)) tid fs₂
        (loads.expected (g.soName :: fs.map Frame.soName) (some g.armed) ++
          (.returned soName idx :: events)) (loads.apart (some g.armed) && ok) := by
    intro hok hrefines
    have hthere : ((w.note (.entered soName idx)).arrive tid (clear ctor.addr) ret).2 = false :=
      hout (by simpa using hok)
    rw [World.call, if_neg (by simp [hthere])]
    refine (hloads hrefines).trans (fun _ hback => ?_) ((trace_note _ _).trans (trace_arrive _ _ _ _))
      (by simp [Event.isHit])
    have hnoted : Refines ((loads.run tid ((w.note (.entered soName idx)).arrive tid
        (clear ctor.addr) ret).1).note (.returned soName idx)).relay tid (g :: fs) := hback
    exact (hret hnoted).note
  exact hfollows.note.trans hnext
    (trace_call w tid soName idx ctor ret (trace_loads tid loads))
    (isHit_head_append (isHit_head_loads _ _ loads) (by simp [Event.isHit]))

/-- The stack with the library whose constructors from one on are left to call, or without it. -/
structure Left (next : List Frame) (soName : String) (fs : List Frame) (idx : Nat) (ctors : Ctors) :
    Prop where
  more : ctors.first.isSome → ∃ f, next = f :: fs ∧ Waits f soName idx ctors
  none : ctors.first = none → next = fs

theorem Left.armed {next : List Frame} {soName : String} {idx : Nat} {ctors : Ctors}
    (h : Left next soName fs idx ctors) : armedOf next = (ctors.first <|> armedOf fs) := by
  cases hfirst : ctors.first with
  | none =>
    rw [h.none hfirst]
    rfl
  | some a =>
    have hsome : ctors.first.isSome := by rw [hfirst]; rfl
    obtain ⟨f, rfl, hwaits⟩ := h.more hsome
    exact (hwaits.armed hsome).trans hfirst

theorem call_follows {soName : String} {idx : Nat} {ctor : Ctor} {ret : CodeAddr} {loads : Loads}
    {rest : Ctors} (hw : Waits f soName idx (.cons ctor ret loads rest))
    (h : Refines w.relay tid (f :: fs))
    (hloads : ∀ {w₁ : World} {fs₁ : List Frame}, Refines w₁.relay tid fs₁ →
      Follows w₁ (loads.run tid w₁) tid fs₁ (loads.expected (fs₁.map Frame.soName) (armedOf fs₁))
        (loads.apart (armedOf fs₁))) :
    ∃ next, Left next soName fs (idx + 1) rest ∧
      Follows w (w.call tid soName idx ctor ret (loads.run tid)) tid next
        (.entered soName idx :: (enters soName idx).map .report ++
          (if ctor.bypass then []
            else loads.expected (soName :: fs.map Frame.soName) (rest.first <|> some (clear ret)) ++
              [.returned soName idx]) ++
          (if rest.first.isSome then [] else [.report (.allDone soName)]))
        ((ctor.bypass || ((rest.first <|> some (clear ret)) ≠ some (clear ctor.addr) &&
          loads.apart (rest.first <|> some (clear ret)))) &&
          ((rest.first <|> armedOf fs) ≠ some (clear ret) : Bool)) := by
  obtain ⟨-, hreports, hmore, hbypass, hlast⟩ := hw.after
  cases hfirst : rest.first with
  | some a =>
    have hsome : rest.first.isSome := by rw [hfirst]; rfl
    obtain ⟨g, hg, hwaits⟩ := hmore hsome
    have harmed : some g.armed = some a := (hwaits.armed hsome).trans hfirst
    refine ⟨g :: fs, ⟨fun _ => ⟨g, rfl, hwaits⟩, fun hnone => absurd hnone (by simp [hfirst])⟩, ?_⟩
    rw [if_pos hsome, List.append_nil] at hreports
    cases hb : ctor.bypass with
    | true =>
      have hcall := call_bypassed hw hb h
      rw [hg] at hcall
      refine hcall.congr (by simp [hreports]) ?_
      simp [armedOf, Option.some.inj harmed]
    | false =>
      have hcall := call_run hw hb hg h hloads (fun h₁ => arrive_past h₁ (clear ret) ret)
      rw [harmed, hwaits.soName] at hcall
      refine hcall.congr (by simp [hreports]) ?_
      simp [armedOf, Option.some.inj harmed, Bool.and_assoc]
  | none =>
    refine ⟨fs, ⟨fun hsome => absurd hsome (by simp [hfirst]), fun _ => rfl⟩, ?_⟩
    rw [hfirst, if_neg (by simp)] at hreports
    cases hb : ctor.bypass with
    | true =>
      have hcall := call_bypassed hw hb h
      rw [hbypass hfirst hb] at hcall
      exact hcall.congr (by simp [hreports, hb]) rfl
    | false =>
      obtain ⟨g, hg, hname, harmed, hafter, hgreports, hgby⟩ := hlast hfirst hb
      have hret : ∀ {w₁ : World}, Refines w₁.relay tid (g :: fs) →
          Follows w₁ (w₁.arrive tid (clear ret) ret).1 tid fs [.report (.allDone soName)]
            (armedOf fs ≠ some (clear ret) : Bool) := by
        intro w₁ h₁
        have harrive := (arrive_follows h₁ ret).1
        rw [hafter, harmed, hgreports, hgby] at harrive
        exact harrive
      have hcall := call_run hw hb hg h hloads hret
      rw [harmed, hname] at hcall
      exact hcall.congr (by simp [hreports, hb]) (by simp [Bool.and_assoc])

/-- The linker enters `call_constructors` of a library. -/
theorem enter_follows (h : Refines w.relay tid fs) (soName : String) (ctors : Ctors) :
    ∃ next, Left next soName fs 0 ctors ∧
      next.map Frame.soName = (if ctors.first.isSome then soName :: fs.map Frame.soName
        else fs.map Frame.soName) ∧
      Follows w (w.see (w.relay.callConstructors tid soName ctors.list [])) tid next
        [.report (.found soName ctors.list.length)] true := by
  cases hfirst : ctors.first with
  | none =>
    have hnil : ctors.list = [] := by
      by_contra hne
      have hsome := (first_isSome ctors).mpr hne
      simp [hfirst] at hsome
    refine ⟨fs, ⟨fun hsome => absurd hsome (by simp [hfirst]), fun _ => rfl⟩, rfl,
      fun _ => ⟨?_, trace_see_report tid ?_⟩,
      fun hno => absurd hno (by simp)⟩
    · rw [hnil, Relay.callConstructors, if_pos rfl]
      exact h.logs tid _
    · rw [hnil, Relay.callConstructors, if_pos rfl]
      rfl
  | some a =>
    have hne : ctors.list ≠ [] := (first_isSome ctors).mp (by rw [hfirst]; rfl)
    obtain ⟨hlog, hsettled⟩ := call_spec h soName hne []
    rw [settle_nil] at hsettled
    exact ⟨Frame.start soName ctors.list hne :: fs,
      ⟨fun _ => ⟨_, rfl, rfl, rfl, rfl⟩, fun hnone => absurd hnone (by simp [hfirst])⟩, rfl,
      fun _ => ⟨hsettled, trace_see_report tid hlog⟩, fun hno => absurd hno (by simp)⟩

mutual

/-- A library is initialised inside of those on the stack, and these are as before. -/
theorem library_follows (tid : Nat) : ∀ (lib : Library) {w : World} {fs : List Frame},
    Refines w.relay tid fs →
      Follows w (lib.run tid w) tid fs (lib.expected (fs.map Frame.soName) (armedOf fs))
        (lib.apart (armedOf fs))
  | .mk soName deps ctors, w, fs, h => by
    obtain ⟨next, hleft, hnames, henter⟩ := enter_follows h soName ctors
    rw [Library.run, Library.expected, Library.apart, ← hleft.armed, ← hnames]
    have hrun : Follows w
        (ctors.run tid soName 0
          (deps.run tid (w.see (w.relay.callConstructors tid soName ctors.list []))))
        tid fs _ (true && (deps.apart (armedOf next) && ctors.apart (armedOf fs))) :=
      henter.trans (fun _ hnext => (loads_follows tid deps hnext).trans
          (fun _ hback => ctors_follows tid soName 0 ctors hleft hback)
          (trace_ctors tid soName 0 ctors _) (isHit_head_ctors soName _ 0 ctors))
        ((trace_loads tid deps _).trans (trace_ctors tid soName 0 ctors _))
        (isHit_head_append (isHit_head_loads _ _ deps) (isHit_head_ctors soName _ 0 ctors))
    exact (hrun.trans (fun _ hback => done_follows hback) (trace_note _ _)
      (by simp [Event.isHit])).congr (by simp) (by simp)

/-- The constructors of a library from one on, until it is off the stack. -/
theorem ctors_follows (tid : Nat) (soName : String) (idx : Nat) :
    ∀ (ctors : Ctors) {w : World} {next fs : List Frame}, Left next soName fs idx ctors →
      Refines w.relay tid next →
        Follows w (ctors.run tid soName idx w) tid fs (ctors.expected soName (fs.map Frame.soName) idx)
          (ctors.apart (armedOf fs))
  | .nil, w, next, fs, hleft, h => by
    rw [Ctors.run, Ctors.expected, Ctors.apart]
    rw [hleft.none rfl] at h
    exact Follows.refl h
  | .cons ctor ret loads rest, w, next, fs, hleft, h => by
    rw [Ctors.run, Ctors.expected, Ctors.apart]
    obtain ⟨f, rfl, hwaits⟩ := hleft.more rfl
    obtain ⟨next', hleft', hcall⟩ := call_follows hwaits h (fun h₁ => loads_follows tid loads h₁)
    exact hcall.trans (fun _ hnext => ctors_follows tid soName (idx + 1) rest hleft' hnext)
      (trace_ctors tid soName (idx + 1) rest _) (isHit_head_ctors soName _ (idx + 1) rest)

theorem loads_follows (tid : Nat) : ∀ (libs : Loads) {w : World} {fs : List Frame},
    Refines w.relay tid fs →
      Follows w (libs.run tid w) tid fs (libs.expected (fs.map Frame.soName) (armedOf fs))
        (libs.apart (armedOf fs))
  | .nil, w, fs, h => by
    rw [Loads.run, Loads.expected, Loads.apart]
    exact Follows.refl h
  | .cons lib rest, w, fs, h => by
    rw [Loads.run, Loads.expected, Loads.apart]
    exact (library_follows tid lib h).trans (fun _ hback => loads_follows tid rest hback)
      (trace_loads tid rest _) (isHit_head_loads _ _ rest)

end

/-- The relay reports what happens on a thread, for every nesting of libraries, exactly if no breakpoint
    is set at an address at which the thread goes on. -/
theorem relayed_iff (tid : Nat) (libs : Loads) : Relayed tid libs ↔ libs.apart none = true := by
  have hinit : Refines ({} : World).relay tid [] := refines_init tid
  have hfollows := loads_follows tid libs hinit
  constructor
  · intro hrelayed
    by_contra hnot
    -- behind what is expected there may be anything but the report of a hit
    have hstray := hfollows.stray (Bool.eq_false_iff.mpr hnot) (.entered "" 0) [] rfl
    rw [hrelayed] at hstray
    exact hstray.not_prefix (List.prefix_append (libs.expected [] none) _)
  · intro hapart
    exact (hfollows.well hapart).2

end

instance (tid : Nat) (libs : Loads) : Decidable (Relayed tid libs) :=
  inferInstanceAs (Decidable (_ = _))

/-- A library with two entries of one address that is run, and one that is loaded in the last
    constructor of another one, where the linker calls them all from one place. -/
theorem not_relayed :
    let ret : CodeAddr := ⟨0x9000, by decide⟩
    let twice : Ctor := { addr := ⟨0x2000, by decide⟩ }
    let inner : Ctor := { addr := ⟨0x4000, by decide⟩ }
    ¬ Relayed 1 (.cons (.mk "lib" .nil (.cons twice ret .nil (.cons twice ret .nil .nil))) .nil) ∧
      ¬ Relayed 1 (.cons (.mk "outer" .nil (.cons twice ret
        (.cons (.mk "inner" .nil (.cons inner ret .nil .nil)) .nil) .nil)) .nil) := by
  decide +kernel

end ArtPi.CtorRelay
