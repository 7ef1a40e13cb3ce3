import ArtPi.Cli.Requests
import ArtPi.Lib.Prefixed

set_option autoImplicit false

/-! # The receive loops of the client (`cli/injector/repl_client.cpp`)

The receiver of the REPL and `EvalScript` append what `recv` returns to `rbuf` and take the complete frames off its
front; `EvalScript` stops behind its response. The test for a complete frame adds 4 to the length in 32 bits, so a
length of `2 ^ 32 - 4` or more passes it in any buffer. What is taken off goes to the msgpack reader; the memory
that it reserves for the elements that a frame announces is taken to be there, as in `readArray`. -/

namespace ArtPi.Cli.Receive

open Bytes Framing Mpack Net Lib.Prefixed

/-- How a loop has left off: it waits for more, or it has handed bytes behind the end of `rbuf` to the reader and to
    `erase`, or it has met the frame it ends with. -/
inductive Ended where
  | waiting (rbuf : List UInt8)
  | overrun
  | answered
  deriving DecidableEq

/-- The loop over the frames in `rbuf`: their payloads, up to one that ends the loop. -/
def extractFrames (isLast : List UInt8 → Bool) (rbuf : List UInt8) : List (List UInt8) × Ended :=
  if rbuf.length ≥ 4 then
    -- the sum is a `uint32_t`
    if rbuf.length < (4 + frameLen rbuf) % 2 ^ 32 then ([], .waiting rbuf)
    else if rbuf.length < 4 + frameLen rbuf then ([], .overrun)
    else
      let frame := (rbuf.drop 4).take (frameLen rbuf)
      if isLast frame then ([frame], .answered)
      else
        let out := extractFrames isLast (rbuf.drop (4 + frameLen rbuf))
        (frame :: out.1, out.2)
  else ([], .waiting rbuf)
termination_by rbuf.length
decreasing_by simp only [List.length_drop]; omega

/-- A chunk arrives. -/
def receive (isLast : List UInt8 → Bool) (e : Ended) (chunk : List UInt8) : List (List UInt8) × Ended :=
  match e with
  | .waiting rbuf => extractFrames isLast (rbuf ++ chunk)
  | e => ([], e)

def receiveAll (isLast : List UInt8 → Bool) (e : Ended) : List (List UInt8) → List (List UInt8) × Ended
  | [] => ([], e)
  | c :: cs =>
    let out := receive isLast e c
    let out' := receiveAll isLast out.2 cs
    (out.1 ++ out'.1, out'.2)

/-- The chunks of a stream that `recv` returns in these rounds. -/
def arrivals : List Round → List UInt8 → List (List UInt8)
  | [], _ => []
  | .quiet :: rounds, s => arrivals rounds s
  | .took n :: rounds, s =>
    if s = [] then []
    else s.take (min (n + 1) 4096) :: arrivals rounds (s.drop (min (n + 1) 4096))

/-- The receiver of the REPL goes on until the connection ends. -/
def replReceiver (rounds : List Round) (s : List UInt8) : List (List UInt8) × Ended :=
  receiveAll (fun _ => false) (.waiting []) (arrivals rounds s)

/-- The frame that `EvalScript` waits for. -/
def isResponse (body : List UInt8) : Bool :=
  match decodeRequest body with
  | some frame => frame.getInt (ascii "t") 0 = 2 && frame.getInt (ascii "seq") 0 = 1
  | none => false

/-- `EvalScript` goes on for 500 rounds. -/
def evalReceiver (rounds : List Round) (s : List UInt8) : List (List UInt8) × Ended :=
  receiveAll isResponse (.waiting []) (arrivals (rounds.take 500) s)

/-! ## The stream, parsed once -/

/-- Four bytes, the most significant one first. -/
def lengths : Header UInt8 where
  width := 4
  bound := 2 ^ 32
  len := beNat
  write := beBytes 4
  len_lt {s} h := by
    have hlt := beNat_lt s
    rwa [h] at hlt
  length_write := length_beBytes 4
  len_write h := beNat_beBytes h
  write_len {s} h := by
    have heq := beBytes_beNat s
    rwa [h] at heq
  width_pos := by decide

/-- The payloads of a stream. -/
def oneShot (s : List UInt8) : List (List UInt8) := (drain (lengths.framer (2 ^ 32)) s).1

/-- The client can take the length. -/
abbrev limit : Nat := 2 ^ 32 - 4

/-- Behind complete frames of which none ends the loop there is no length that the client cannot take. -/
def SmallLengths (isLast : List UInt8 → Bool) (s : List UInt8) : Prop :=
  ∀ (bodies : List (List UInt8)) (rest : List UInt8), s = bodies.flatMap lengths.encode ++ rest →
    (∀ b ∈ bodies, b.length < limit ∧ isLast b = false) → 4 ≤ rest.length → frameLen rest < limit

/-- Up to the first item of a kind, with it. -/
def takeThrough {α : Type} (p : α → Bool) : List α → List α
  | [] => []
  | a :: as => if p a then [a] else a :: takeThrough p as

/-- What the loop makes of a stream that was parsed up to the first length it cannot take. -/
def cut (isLast : List UInt8 → Bool) (d : List (List UInt8) × Option (List UInt8)) : List (List UInt8) × Ended :=
  if d.1.any isLast then (takeThrough isLast d.1, .answered)
  else (d.1, match d.2 with
    | some rbuf => .waiting rbuf
    | none => .overrun)

theorem cut_cons (isLast : List UInt8 → Bool) (b : List UInt8) (d : List (List UInt8) × Option (List UInt8)) :
    cut isLast (b :: d.1, d.2) =
      if isLast b then ([b], .answered) else (b :: (cut isLast d).1, (cut isLast d).2) := by
  unfold cut
  by_cases hb : isLast b = true
  · simp [takeThrough, hb]
  · by_cases hany : d.1.any isLast = true <;> simp [takeThrough, hb, hany]

theorem takeThrough_append {α : Type} (p : α → Bool) (as bs : List α) :
    takeThrough p (as ++ bs) = if as.any p then takeThrough p as else as ++ takeThrough p bs := by
  induction as with
  | nil => rfl
  | cons a as ih =>
    by_cases ha : p a = true
    · simp [takeThrough, ha]
    · by_cases hany : as.any p = true <;> simp [takeThrough, ha, ih, hany]

theorem takeThrough_of_not_any {α : Type} {p : α → Bool} {as : List α} (h : as.any p = false) :
    takeThrough p as = as := by
  have happend := takeThrough_append p as []
  simpa [h, takeThrough] using happend

theorem cut_append (isLast : List UInt8 → Bool) (bodies : List (List UInt8))
    (d : List (List UInt8) × Option (List UInt8)) :
    cut isLast (bodies ++ d.1, d.2) =
      if bodies.any isLast then (takeThrough isLast bodies, .answered)
      else (bodies ++ (cut isLast d).1, (cut isLast d).2) := by
  induction bodies with
  | nil => rfl
  | cons b bodies ih =>
    rw [List.cons_append, cut_cons isLast b (bodies ++ d.1, d.2), ih]
    by_cases hb : isLast b = true
    · simp [takeThrough, hb]
    · by_cases hany : bodies.any isLast = true <;> simp [takeThrough, hb, hany]

/-! ## One chunk -/

theorem extractFrames_waiting (isLast : List UInt8 → Bool) {rbuf : List UInt8}
    (h : rbuf.length < 4 ∨ rbuf.length < (4 + frameLen rbuf) % 2 ^ 32) :
    extractFrames isLast rbuf = ([], .waiting rbuf) := by
  rw [extractFrames]
  split_ifs <;> first | rfl | omega

theorem extractFrames_item (isLast : List UInt8 → Bool) {rbuf b rest : List UInt8}
    (h : lengths.next limit rbuf = .item b rest) :
    extractFrames isLast rbuf =
      if isLast b then ([b], .answered) else (b :: (extractFrames isLast rest).1, (extractFrames isLast rest).2) := by
  obtain ⟨hlen, hlimit, rfl, rfl⟩ := Header.next_item h
  change 4 + frameLen rbuf ≤ rbuf.length at hlen
  change frameLen rbuf < 2 ^ 32 - 4 at hlimit
  rw [extractFrames, if_pos (by omega), if_neg (by omega), if_neg (by omega)]
  rfl

theorem extractFrames_eq (isLast : List UInt8 → Bool) {rbuf : List UInt8} (h : rbuf.length < 2 ^ 32) :
    extractFrames isLast rbuf = cut isLast (drain (lengths.framer limit) rbuf) := by
  induction hn : rbuf.length using Nat.strongRecOn generalizing rbuf with
  | ind n ih =>
    match hnext : (lengths.framer limit).next rbuf with
    | .more =>
      rw [drain_more _ hnext, extractFrames_waiting isLast]
      · rfl
      · by_contra hc
        rw [not_or, Nat.not_lt] at hc
        obtain ⟨hlimit, hbody⟩ := Header.next_more hnext hc.1
        change frameLen rbuf < 2 ^ 32 - 4 at hlimit
        change rbuf.length < 4 + frameLen rbuf at hbody
        omega
    | .stop =>
      obtain ⟨hheader, hlimit⟩ := Header.next_stop.1 hnext
      change 4 ≤ rbuf.length at hheader
      change 2 ^ 32 - 4 ≤ frameLen rbuf at hlimit
      have hlt : frameLen rbuf < 2 ^ 32 := @Header.size_lt _ lengths rbuf hheader
      rw [drain_stop _ hnext, extractFrames, if_pos hheader, if_neg (by omega), if_pos (by omega)]
      rfl
    | .item b rest =>
      have hlt := (lengths.framer limit).item_lt hnext
      rw [drain_item _ hnext, cut_cons, extractFrames_item isLast hnext,
        ih rest.length (by omega) (by omega) rfl]

/-- The buffer is below 4 GiB where a frame begins in the chunk, and the length of a frame that began before has been
    looked at. -/
theorem receive_eq (isLast : List UInt8 → Bool) {rbuf : List UInt8} (h : lengths.next limit rbuf = .more)
    {chunk : List UInt8} (hchunk : chunk.length ≤ 4096) :
    receive isLast (.waiting rbuf) chunk = cut isLast (drain (lengths.framer limit) (rbuf ++ chunk)) := by
  by_cases hheader : 4 ≤ rbuf.length
  · obtain ⟨hlimit, hbody⟩ := Header.next_more h hheader
    change rbuf.length < 4 + frameLen rbuf at hbody
    have hsize : frameLen (rbuf ++ chunk) = frameLen rbuf := frameLen_append hheader chunk
    change frameLen rbuf < 2 ^ 32 - 4 at hlimit
    rw [receive]
    match hnext : (lengths.framer limit).next (rbuf ++ chunk) with
    | .more =>
      have hheader' : 4 ≤ (rbuf ++ chunk).length := by
        rw [List.length_append]
        exact Nat.le_add_right_of_le hheader
      obtain ⟨-, hbody'⟩ := Header.next_more hnext hheader'
      change (rbuf ++ chunk).length < 4 + frameLen (rbuf ++ chunk) at hbody'
      rw [drain_more _ hnext, extractFrames_waiting isLast (.inr (by omega))]
      rfl
    | .stop =>
      have hstop := (Header.next_stop.1 hnext).2
      change 2 ^ 32 - 4 ≤ frameLen (rbuf ++ chunk) at hstop
      omega
    | .item b rest =>
      obtain ⟨-, -, -, hrest⟩ := Header.next_item hnext
      change rest = (rbuf ++ chunk).drop (4 + frameLen (rbuf ++ chunk)) at hrest
      have hlen : rest.length < 2 ^ 32 := by
        rw [hrest, List.length_drop, List.length_append]
        omega
      rw [drain_item _ hnext, cut_cons, extractFrames_item isLast hnext, extractFrames_eq isLast hlen]
  · refine extractFrames_eq isLast ?_
    rw [List.length_append]
    omega

/-! ## All chunks -/

theorem receiveAll_ended (isLast : List UInt8 → Bool) {e : Ended} (h : e = .answered ∨ e = .overrun)
    (cs : List (List UInt8)) : receiveAll isLast e cs = ([], e) := by
  induction cs with
  | nil => rfl
  | cons c cs ih =>
    have hreceive : receive isLast e c = ([], e) := by
      rcases h with rfl | rfl <;> rfl
    rw [receiveAll, hreceive, ih]
    rfl

/-- Whatever the chunks are, the loop does what it would do with all of the stream at once. -/
theorem receiveAll_eq (isLast : List UInt8 → Bool) {rbuf : List UInt8} (h : lengths.next limit rbuf = .more)
    {cs : List (List UInt8)} (hcs : ∀ c ∈ cs, c.length ≤ 4096) :
    receiveAll isLast (.waiting rbuf) cs = cut isLast (drain (lengths.framer limit) (rbuf ++ cs.flatten)) := by
  induction cs generalizing rbuf with
  | nil =>
    rw [List.flatten_nil, List.append_nil, drain_more _ h]
    rfl
  | cons c cs ih =>
    obtain ⟨hc, hcs⟩ := List.forall_mem_cons.1 hcs
    rw [receiveAll, receive_eq isLast h hc, List.flatten_cons, ← List.append_assoc,
      drain_append _ (rbuf ++ c) cs.flatten, cut_append]
    match hd : drain (lengths.framer limit) (rbuf ++ c) with
    | (bodies, none) =>
      by_cases hany : bodies.any isLast = true
      · simp [cut, hany, receiveAll_ended]
      · simp [cut, hany, receiveAll_ended, feed]
    | (bodies, some left) =>
      have hleft := drain_left (lengths.framer limit) (rbuf ++ c) (congrArg Prod.snd hd)
      by_cases hany : bodies.any isLast = true
      · simp [cut, hany, receiveAll_ended]
      · have hcut : cut isLast (bodies, some left) = (bodies, .waiting left) := by
          simp [cut, hany]
        simp only [hcut, ih hleft hcs, hany, feed, Bool.false_eq_true, if_false]

theorem length_arrivals (rounds : List Round) (s : List UInt8) : ∀ c ∈ arrivals rounds s, c.length ≤ 4096 := by
  induction rounds generalizing s with
  | nil => simp [arrivals]
  | cons round rounds ih =>
    cases round with
    | quiet => exact ih s
    | took n =>
      rw [arrivals]
      split_ifs with hs
      · simp
      · refine List.forall_mem_cons.2 ⟨?_, ih _⟩
        rw [List.length_take]
        omega

theorem arrivals_take (rounds : List Round) (n : Nat) (s : List UInt8) :
    ∃ more, arrivals rounds s = arrivals (rounds.take n) s ++ more := by
  induction rounds generalizing n s with
  | nil => exact ⟨[], by simp [arrivals]⟩
  | cons round rounds ih =>
    cases n with
    | zero => exact ⟨_, rfl⟩
    | succ n =>
      rw [List.take_succ_cons]
      cases round with
      | quiet => exact ih n s
      | took k =>
        rw [arrivals, arrivals]
        split_ifs with hs
        · exact ⟨[], rfl⟩
        · obtain ⟨more, hmore⟩ := ih n (s.drop (min (k + 1) 4096))
          exact ⟨more, by rw [hmore]; rfl⟩

/-! ## Exactness -/

/-- The loop has extracted the frames of the stream, and nothing from behind the bytes received. -/
structure Exact (out : List (List UInt8) × Ended) (s : List UInt8) : Prop where
  frames : out.1 = oneShot s
  inBounds : out.2 ≠ .overrun

/-- The parse gives up just at a length that the client cannot take. -/
theorem smallLengths_iff (isLast : List UInt8 → Bool) (s : List UInt8) :
    SmallLengths isLast s ↔ (cut isLast (drain (lengths.framer limit) s)).2 ≠ .overrun := by
  obtain ⟨tail, hcover, hall, hleft⟩ := @Header.drain_spec UInt8 lengths limit s
  constructor
  · intro hsmall hoverrun
    unfold cut at hoverrun
    split_ifs at hoverrun with hany
    match hnone : (drain (lengths.framer limit) s).2 with
    | some left =>
      rw [hnone] at hoverrun
      cases hoverrun
    | none =>
      rw [hnone] at hleft
      obtain ⟨hheader, hlimit⟩ := Header.next_stop.1 hleft
      have hlt := hsmall _ tail hcover (fun b hb => ⟨(hall b hb).1, ?_⟩) hheader
      · exact absurd hlt (Nat.not_lt.2 hlimit)
      · rw [Bool.not_eq_true, List.any_eq_false] at hany
        exact Bool.eq_false_of_not_eq_true (hany b hb)
  · intro hcut bodies rest hs hbodies hheader
    by_contra hlimit
    have hstop : (lengths.framer limit).next rest = .stop := Header.next_stop.2 ⟨hheader, Nat.not_lt.1 hlimit⟩
    have hdrain := @Header.drain_encode UInt8 lengths limit bodies
      (fun b hb => ⟨(hbodies b hb).1, Nat.lt_of_lt_of_le (hbodies b hb).1 (by decide)⟩) rest
    rw [drain_stop _ hstop, ← hs, List.append_nil] at hdrain
    have hany : bodies.any isLast = false := by
      rw [List.any_eq_false]
      exact fun b hb => by simp [(hbodies b hb).2]
    rw [hdrain, cut, hany] at hcut
    exact hcut rfl

/-- Without such a length the loop finds the frames of the stream, up to the one that ends it. -/
theorem cut_frames {isLast : List UInt8 → Bool} {s : List UInt8}
    (h : (cut isLast (drain (lengths.framer limit) s)).2 ≠ .overrun) :
    (cut isLast (drain (lengths.framer limit) s)).1 = takeThrough isLast (oneShot s) := by
  obtain ⟨⟨more, hmore⟩, heq⟩ := @Header.drain_of_le UInt8 lengths limit (2 ^ 32) (by decide) s
  rw [oneShot]
  unfold cut at h ⊢
  split_ifs with hany
  · rw [hmore, takeThrough_append, if_pos hany]
  · rw [if_neg hany] at h
    rw [heq (fun hnone => h (by rw [hnone])), takeThrough_of_not_any (Bool.eq_false_of_not_eq_true hany)]

theorem takeThrough_eq_self_iff {α : Type} (p : α → Bool) (as : List α) :
    takeThrough p as = as ↔ ∀ a ∈ as.dropLast, p a = false := by
  induction as with
  | nil => simp [takeThrough]
  | cons a as ih =>
    cases as with
    | nil => simp [takeThrough]
    | cons b as =>
      rw [takeThrough, List.dropLast_cons_of_ne_nil (List.cons_ne_nil b as), List.forall_mem_cons, ← ih]
      by_cases ha : p a = true
      · simp [ha]
      · simp [ha]

theorem length_takeThrough_le {α : Type} (p : α → Bool) (as : List α) : (takeThrough p as).length ≤ as.length := by
  induction as with
  | nil => exact Nat.le_refl 0
  | cons a as ih =>
    rw [takeThrough]
    split_ifs
    · exact Nat.succ_le_succ (Nat.zero_le _)
    · exact Nat.succ_le_succ ih

theorem oneShot_append (s t : List UInt8) : ∃ more, oneShot (s ++ t) = oneShot s ++ more :=
  ⟨_, congrArg Prod.fst (drain_append (lengths.framer (2 ^ 32)) s t)⟩

theorem replReceiver_eq (rounds : List Round) (s : List UInt8) :
    replReceiver rounds s =
      cut (fun _ => false) (drain (lengths.framer limit) (arrivals rounds s).flatten) :=
  receiveAll_eq _ rfl (length_arrivals rounds s)

theorem evalReceiver_eq (rounds : List Round) (s : List UInt8) :
    evalReceiver rounds s =
      cut isResponse (drain (lengths.framer limit) (arrivals (rounds.take 500) s).flatten) :=
  receiveAll_eq _ rfl (length_arrivals _ s)

/-- The receiver of the REPL is exact just as long as no length is in the last four. `EvalScript` is if that is so up
    to the response, the response is the last frame, and all frames are there after 500 rounds. -/
theorem receivers_exact (rounds : List Round) (s : List UInt8) :
    (Exact (replReceiver rounds s) (arrivals rounds s).flatten ↔
      SmallLengths (fun _ => false) (arrivals rounds s).flatten) ∧
    (Exact (evalReceiver rounds s) (arrivals rounds s).flatten ↔
      SmallLengths isResponse (arrivals (rounds.take 500) s).flatten ∧
        oneShot (arrivals (rounds.take 500) s).flatten = oneShot (arrivals rounds s).flatten ∧
        ∀ b ∈ (oneShot (arrivals rounds s).flatten).dropLast, isResponse b = false) := by
  constructor
  · rw [replReceiver_eq, smallLengths_iff]
    constructor
    · exact fun h => h.inBounds
    · intro h
      refine ⟨?_, h⟩
      rw [cut_frames h, takeThrough_of_not_any]
      rw [List.any_eq_false]
      exact fun _ _ => Bool.false_ne_true
  · rw [evalReceiver_eq, smallLengths_iff, ← takeThrough_eq_self_iff]
    obtain ⟨later, hlater⟩ := arrivals_take rounds 500 s
    obtain ⟨more, hmore⟩ := oneShot_append (arrivals (rounds.take 500) s).flatten later.flatten
    rw [← List.flatten_append, ← hlater] at hmore
    constructor
    · rintro ⟨hframes, hbounds⟩
      have hcut := cut_frames hbounds
      rw [hframes] at hcut
      -- what was extracted is no more than what the first rounds have
      have hnil : more = [] := by
        have hle := length_takeThrough_le isResponse (oneShot (arrivals (rounds.take 500) s).flatten)
        rw [← hcut, hmore, List.length_append] at hle
        exact List.length_eq_zero_iff.1 (by omega)
      rw [hnil, List.append_nil] at hmore
      exact ⟨hbounds, hmore.symm, by rw [hmore]; rw [hmore] at hcut; exact hcut.symm⟩
    · rintro ⟨hbounds, hall, hlast⟩
      refine ⟨?_, hbounds⟩
      rw [cut_frames hbounds, hall, hlast]

/-- A header alone, with a length of `2 ^ 32 - 4`, makes both loops go behind the end of the buffer. -/
theorem length_wraps :
    ¬ Exact (replReceiver [.took 3] [0xFF, 0xFF, 0xFF, 0xFC]) [0xFF, 0xFF, 0xFF, 0xFC] ∧
      ¬ Exact (evalReceiver [.took 3] [0xFF, 0xFF, 0xFF, 0xFC]) [0xFF, 0xFF, 0xFF, 0xFC] := by
  have hoverrun (isLast : List UInt8 → Bool) :
      extractFrames isLast [0xFF, 0xFF, 0xFF, 0xFC] = ([], .overrun) := by
    rw [extractFrames, if_pos (by decide), if_neg (by decide), if_pos (by decide)]
  constructor
  · intro h
    exact h.inBounds (congrArg Prod.snd (hoverrun fun _ => false))
  · intro h
    exact h.inBounds (congrArg Prod.snd (hoverrun isResponse))

/-! ## What `EvalScript` makes of its frames -/

/-- A frame that cannot be decoded is dropped. -/
def onBody (out : Eval) (body : List UInt8) : Eval :=
  match decodeRequest body with
  | some frame => out.onFrame frame
  | none => out

theorem gotResp_onBody {out : Eval} (h : out.gotResp = false) (body : List UInt8) :
    (onBody out body).gotResp = isResponse body := by
  unfold onBody isResponse
  cases decodeRequest body with
  | none => exact h
  | some frame =>
    simp only [Eval.onFrame]
    split_ifs <;> simp_all

/-- What the frame loop of `EvalScript` leaves, by what it has extracted. -/
def Scanned (r : List (List UInt8) × Ended) (out : Eval) (res : Option (List UInt8 × Eval)) : Prop :=
  match r.2 with
  | .waiting rbuf => res = some (rbuf, r.1.foldl onBody out) ∧ (r.1.foldl onBody out).gotResp = false
  | .overrun => res = none
  | .answered => (∃ rbuf, res = some (rbuf, r.1.foldl onBody out)) ∧ (r.1.foldl onBody out).gotResp = true

theorem scanned_scan {out : Eval} (h : out.gotResp = false) (rbuf : List UInt8) :
    Scanned (cut isResponse (drain (lengths.framer limit) rbuf)) out (scan rbuf out) := by
  induction hn : rbuf.length using Nat.strongRecOn generalizing rbuf out with
  | ind n ih =>
    match hnext : (lengths.framer limit).next rbuf with
    | .more =>
      have hscan : scan rbuf out = some (rbuf, out) := by
        rw [scan]
        by_cases hheader : rbuf.length ≥ 4
        · obtain ⟨hlimit, hbody⟩ := Header.next_more hnext hheader
          change frameLen rbuf < 2 ^ 32 - 4 at hlimit
          change rbuf.length < 4 + frameLen rbuf at hbody
          rw [if_pos hheader, if_neg (by omega), if_pos hbody]
        · rw [if_neg hheader]
      rw [drain_more _ hnext]
      exact ⟨hscan, h⟩
    | .stop =>
      obtain ⟨hheader, hlimit⟩ := Header.next_stop.1 hnext
      change 4 ≤ rbuf.length at hheader
      change 2 ^ 32 - 4 ≤ frameLen rbuf at hlimit
      have hscan : scan rbuf out = none := by
        rw [scan, if_pos hheader, if_pos (by omega)]
      rw [drain_stop _ hnext]
      exact hscan
    | .item b rest =>
      have hlt := (lengths.framer limit).item_lt hnext
      obtain ⟨hlen, hlimit, hb, hrest⟩ := Header.next_item hnext
      change 4 + frameLen rbuf ≤ rbuf.length at hlen
      change frameLen rbuf < 2 ^ 32 - 4 at hlimit
      have hscan : scan rbuf out =
          if (onBody out b).gotResp then some (rbuf, onBody out b) else scan rest (onBody out b) := by
        rw [scan, if_pos (by omega), if_neg (by omega), if_neg (by omega), hb, hrest]
        rfl
      have hgot := gotResp_onBody h b
      rw [drain_item _ hnext, cut_cons, hscan, hgot]
      by_cases hresp : isResponse b = true
      · rw [if_pos hresp, if_pos hresp]
        exact ⟨⟨rbuf, rfl⟩, hgot.trans hresp⟩
      · rw [if_neg hresp, if_neg hresp]
        exact ih rest.length (by omega) (hgot.trans (Bool.eq_false_of_not_eq_true hresp)) rest rfl

/-- A loop that waits for more has no whole frame left. -/
theorem more_of_waiting {rbuf : List UInt8} (hmore : lengths.next limit rbuf = .more) {chunk : List UInt8}
    (hchunk : chunk.length ≤ 4096) {left : List UInt8}
    (hwait : (receive isResponse (.waiting rbuf) chunk).2 = .waiting left) : lengths.next limit left = .more := by
  rw [receive_eq isResponse hmore hchunk] at hwait
  unfold cut at hwait
  split_ifs at hwait
  cases hd : (drain (lengths.framer limit) (rbuf ++ chunk)).2 with
  | none =>
    rw [hd] at hwait
    cases hwait
  | some l =>
    rw [hd] at hwait
    cases hwait
    exact drain_left (lengths.framer limit) _ hd

theorem turns_eq {out : Eval} (h : out.gotResp = false) (rounds : List Round) (s : List UInt8)
    {rbuf : List UInt8} (hmore : lengths.next limit rbuf = .more) :
    turns rounds s rbuf out =
      if (receiveAll isResponse (.waiting rbuf) (arrivals rounds s)).2 = .overrun then none
      else some ((receiveAll isResponse (.waiting rbuf) (arrivals rounds s)).1.foldl onBody out) := by
  induction rounds generalizing s rbuf out with
  | nil => rfl
  | cons round rounds ih =>
    cases round with
    | quiet => exact ih h s hmore
    | took n =>
      rw [turns, arrivals]
      by_cases hs : s = []
      · rw [if_pos hs, if_pos hs]
        rfl
      · rw [if_neg hs, if_neg hs]
        have hchunk : (s.take (min (n + 1) 4096)).length ≤ 4096 := by
          rw [List.length_take]
          omega
        have hscan := scanned_scan h (rbuf ++ s.take (min (n + 1) 4096))
        rw [← receive_eq isResponse hmore hchunk] at hscan
        rw [receiveAll]
        rcases hr : receive isResponse (.waiting rbuf) (s.take (min (n + 1) 4096)) with
          ⟨bodies, left | _ | _⟩
        · rw [hr] at hscan
          obtain ⟨hres, hgot⟩ := hscan
          simp only [hres, hgot, Bool.false_eq_true, if_false, List.foldl_append]
          exact ih hgot _ (more_of_waiting hmore hchunk (congrArg Prod.snd hr))
        · rw [hr] at hscan
          change scan _ out = none at hscan
          simp only [hscan, receiveAll_ended isResponse (.inr rfl), if_true]
        · rw [hr] at hscan
          obtain ⟨⟨left, hres⟩, hgot⟩ := hscan
          simp only [hres, hgot, receiveAll_ended isResponse (.inl rfl), if_true, List.append_nil, reduceCtorEq,
            if_false]

/-- `EvalScript` is its receive loop, with each frame handed on. -/
theorem evalScript_eq (rounds : List Round) (s : List UInt8) :
    evalScript rounds s =
      if (evalReceiver rounds s).2 = .overrun then none
      else
        let out := (evalReceiver rounds s).1.foldl onBody {}
        some (out.gotResp && out.success, out.finish) := by
  rw [evalScript, turns_eq rfl (rounds.take 500) s rfl]
  change Option.map _ (if (evalReceiver rounds s).2 = .overrun then none
    else some ((evalReceiver rounds s).1.foldl onBody {})) = _
  split_ifs <;> rfl

end ArtPi.Cli.Receive
