import ArtPi.Cli.Complete
import ArtPi.Lib.Runs

set_option autoImplicit false

/-! # The line editor of the REPL (`cli/injector/repl_client.cpp`)

`ReadInteractiveLine` reads a byte at a time. The state says at which of its `read`s it is, and a step is what it does
with the next byte, up to the next `read`; the session calls it again for the next line. The agent may answer a
completion with anything. -/

namespace ArtPi.Cli.LineEditor

open Complete
open Net (ascii)

/-- Where the thread waits: for a key, for what may follow an ESC within 30 ms, for the byte behind `ESC [`, for the
    `~` of Delete; or the session is over. -/
inductive Waiting where
  | key
  | poll
  | seq (seq0 : UInt8)
  | tilde
  | ended
  deriving DecidableEq

structure Editor where
  currentLine : List UInt8 := []
  currentPos : Nat := 0
  currentGhost : List UInt8 := []
  menuLines : Nat := 0
  selectedMenuIndex : Int := 0
  menuItems : List (List UInt8) := []
  menuTokenStart : Nat := 0
  pendingInput : List UInt8 := []
  history : List (List UInt8)
  historyIndex : Int
  savedCurrent : List UInt8 := []
  waiting : Waiting := .key

/-- What `GetCandidatesForContext` says. -/
abbrev Candidates := CompletionContext → List (List UInt8)

/-- A byte, 30 ms without one, or a frame of the agent that is printed between two keys. -/
inductive Event where
  | byte (c : UInt8)
  | pause
  | frame
  deriving DecidableEq

/-- An event, with the answers of the agent at that time. -/
structure Input where
  event : Event
  candidates : Candidates

namespace Editor

variable (e : Editor) (cand : Candidates)

def Open : Prop := 0 < e.menuLines ∧ e.menuItems ≠ []

instance instDecidableOpen : Decidable e.Open := inferInstanceAs (Decidable (_ ∧ _))

/-! ## Drawing -/

/-- `ClearMenuLocked` -/
def clearMenu : Editor := { e with menuLines := 0, menuItems := [], selectedMenuIndex := 0 }

/-- `ComputeGhostTextLocked` -/
def computeGhostText : List UInt8 :=
  if e.currentLine = [] ∨ e.currentPos ≠ e.currentLine.length then []
  else
    let ctx := findCompletionContext e.currentLine e.currentPos
    if ctx.pfx = [] ∧ ctx.isMemberAccess = false then []
    else
      match cand ctx with
      | [] => []
      | c :: _ => if ctx.pfx.length < c.length then c.drop ctx.pfx.length else []

/-- `RefreshLineLocked` -/
def refreshLine : Editor := { e with currentGhost := e.computeGhostText cand }

/-- `RenderDropdownMenuLocked`, with at most eight lines. -/
def renderDropdownMenu (candidates : List (List UInt8)) (selectedIdx : Nat) : Editor :=
  if candidates = [] then e.clearMenu
  else
    let n := candidates.length
    let selectedIdx := if n ≤ selectedIdx then n - 1 else selectedIdx
    { e with menuItems := candidates, menuLines := min n 8, selectedMenuIndex := selectedIdx }

/-- The token up to the cursor is replaced. -/
def replaceToken (tokenStart : Nat) (choice : List UInt8) : Editor :=
  { e with
    currentLine := e.currentLine.take tokenStart ++ choice ++ e.currentLine.drop e.currentPos
    currentPos := tokenStart + choice.length }

/-! ## The menu -/

/-- `g_selectedMenuIndex` in the range of the items. -/
def clampedIndex : Int :=
  let index := if e.selectedMenuIndex < 0 then 0 else e.selectedMenuIndex
  if e.menuItems.length ≤ index then e.menuItems.length - 1 else index

/-- `ApplyMenuSelectionLocked` -/
def applyMenuSelection : Editor :=
  if e.menuItems = [] then e
  else
    let choice := e.menuItems.getD e.clampedIndex.toNat []
    ((e.replaceToken e.menuTokenStart choice).refreshLine cand).renderDropdownMenu e.menuItems e.clampedIndex.toNat

/-- The item with an index. -/
def select (index : Int) : Editor := ({ e with selectedMenuIndex := index }).applyMenuSelection cand

/-- The next item, in a circle. -/
def selectNext : Editor := e.select cand ((e.selectedMenuIndex + 1).tmod e.menuItems.length)

def selectPrevious : Editor :=
  e.select cand ((e.selectedMenuIndex - 1 + e.menuItems.length).tmod e.menuItems.length)

/-- The selected item is taken. -/
def confirm : Editor := ((e.applyMenuSelection cand).clearMenu).refreshLine cand

def handleTabCompletion : Editor :=
  if e.Open then e.selectNext cand
  else
    let ctx := findCompletionContext e.currentLine e.currentPos
    let e := { e with menuTokenStart := ctx.tokenStart }
    if ctx.pfx = [] ∧ ctx.isMemberAccess = false then e.renderDropdownMenu basics 0
    else
      match cand ctx with
      | [] => e
      | [choice] => (e.replaceToken ctx.tokenStart choice).refreshLine cand
      | choices =>
        let lcp := findLongestCommonPrefix choices
        let e := if ctx.pfx.length < lcp.length then (e.replaceToken ctx.tokenStart lcp).refreshLine cand else e
        e.renderDropdownMenu choices 0

/-! ## The keys -/

/-- The line as it was. -/
def setLine (line : List UInt8) (pos : Nat) : Editor :=
  ({ e with currentLine := line, currentPos := pos }).refreshLine cand

/-- `ReadInteractiveLine` begins. -/
def readInteractiveLine : Editor :=
  { e.clearMenu.setLine cand [] 0 with
    historyIndex := e.history.length
    savedCurrent := []
    waiting := .key }

/-- The session with a line: it goes on, or it is told to end. -/
def session (outLine : List UInt8) : Editor :=
  if outLine = ascii "exit" ∨ outLine = ascii "quit" ∨ outLine = ascii "q" then { e with waiting := .ended }
  else e.readInteractiveLine cand

def enter : Editor :=
  if e.Open then e.confirm cand
  else
    let e := e.clearMenu
    let joined := if e.pendingInput = [] then e.currentLine else e.pendingInput ++ 0x0A :: e.currentLine
    if isJsInputComplete joined then
      let outLine := trimTrailingBackslash joined
      let history := if outLine ≠ [] ∧ e.history.getLast? ≠ some outLine then e.history ++ [outLine] else e.history
      ({ e with pendingInput := [], history := history, currentLine := [], currentPos := 0 }).session cand outLine
    else
      let pendingInput := if trailingBackslash joined then trimTrailingBackslash joined else joined
      ({ e with pendingInput := pendingInput }).setLine cand [] 0

def ctrlC : Editor := ({ e.clearMenu with pendingInput := [] }).setLine cand [] 0

def ctrlD : Editor :=
  let e := e.clearMenu
  if e.currentLine = [] ∧ e.pendingInput ≠ [] then ({ e with pendingInput := [] }).refreshLine cand
  else if e.currentLine = [] then e.session cand (ascii "exit")
  else e

def backspace : Editor :=
  let e := e.clearMenu
  if 0 < e.currentPos then e.setLine cand (e.currentLine.eraseIdx (e.currentPos - 1)) (e.currentPos - 1) else e

def delete : Editor :=
  let e := e.clearMenu
  if e.currentPos < e.currentLine.length then e.setLine cand (e.currentLine.eraseIdx e.currentPos) e.currentPos else e

def insert (c : UInt8) : Editor :=
  e.clearMenu.setLine cand (e.currentLine.insertIdx e.currentPos c) (e.currentPos + 1)

/-- The line of the history at an index. -/
def historyLine (index : Int) : List UInt8 := e.history.getD index.toNat []

def up : Editor :=
  if e.Open then e.selectPrevious cand
  else if e.history ≠ [] ∧ 0 < e.historyIndex then
    let saved := if e.historyIndex = e.history.length then e.currentLine else e.savedCurrent
    let line := e.historyLine (e.historyIndex - 1)
    ({ e.clearMenu with savedCurrent := saved, historyIndex := e.historyIndex - 1 }).setLine cand line line.length
  else e

def down : Editor :=
  if e.Open then e.selectNext cand
  else if e.historyIndex < e.history.length then
    let line := if e.historyIndex + 1 = e.history.length then e.savedCurrent else e.historyLine (e.historyIndex + 1)
    ({ e.clearMenu with historyIndex := e.historyIndex + 1 }).setLine cand line line.length
  else e

def right : Editor :=
  if e.Open then e.confirm cand
  else
    let e := e.clearMenu
    if e.currentPos = e.currentLine.length ∧ e.currentGhost ≠ [] then
      e.setLine cand (e.currentLine ++ e.currentGhost) (e.currentLine ++ e.currentGhost).length
    else if e.currentPos < e.currentLine.length then e.setLine cand e.currentLine (e.currentPos + 1)
    else e

def left : Editor :=
  let e := e.clearMenu
  if 0 < e.currentPos then e.setLine cand e.currentLine (e.currentPos - 1) else e

def home : Editor := e.clearMenu.setLine cand e.currentLine 0

def endKey : Editor := e.clearMenu.setLine cand e.currentLine e.currentLine.length

/-- The byte behind `ESC [`. -/
def arrow (c : UInt8) : Editor :=
  if c = 0x41 then e.up cand
  else if c = 0x42 then e.down cand
  else if c = 0x43 then e.right cand
  else if c = 0x44 then e.left cand
  else if c = 0x48 then e.home cand
  else if c = 0x46 then e.endKey cand
  else if c = 0x33 then { e with waiting := .tilde }
  else e

/-- The byte at the head of the loop. -/
def key (c : UInt8) : Editor :=
  if c = 0x0D ∨ c = 0x0A then e.enter cand
  else if c = 0x09 then e.handleTabCompletion cand
  else if c = 3 then e.ctrlC cand
  else if c = 4 then e.ctrlD cand
  else if c = 127 ∨ c = 8 then e.backspace cand
  else if c = 27 then { e with waiting := .poll }
  else if 32 ≤ c then e.insert cand c
  else e

/-- The step of the editor. The receiver has to wait for `g_termMutex`, which is held behind an ESC. -/
def step (i : Input) : Editor :=
  match e.waiting, i.event with
  | .key, .byte c => e.key i.candidates c
  | .key, .frame => e.clearMenu.refreshLine i.candidates
  | .poll, .byte c => { e with waiting := .seq c }
  | .poll, .pause => { e.clearMenu.refreshLine i.candidates with waiting := .key }
  | .seq seq0, .byte c =>
    let e := { e with waiting := .key }
    if seq0 = 0x5B then e.arrow i.candidates c else e
  | .tilde, .byte c =>
    let e := { e with waiting := .key }
    if c = 0x7E then e.delete i.candidates else e
  | _, _ => e

/-- The session begins. -/
def start (history : List (List UInt8)) : Editor :=
  Editor.readInteractiveLine { history := history, historyIndex := 0 } (fun _ => [])

end Editor

/-! ## The invariant -/

namespace Editor

variable {e : Editor} {cand : Candidates}

/-- What holds whether a menu is open or not. -/
structure Base (e : Editor) : Prop where
  pos_le : e.currentPos ≤ e.currentLine.length
  index_nonneg : 0 ≤ e.historyIndex
  index_le : e.historyIndex ≤ e.history.length

/-- The cursor is in the line and the index in the history; the token of an open menu begins at the cursor or in front
    of it, and its selection is one of the candidates. -/
structure Inv (e : Editor) : Prop extends Base e where
  token_le : e.Open → e.menuTokenStart ≤ e.currentPos
  selected_nonneg : e.Open → 0 ≤ e.selectedMenuIndex
  selected_lt : e.Open → e.selectedMenuIndex < e.menuItems.length

theorem not_open_clearMenu (e : Editor) : ¬ e.clearMenu.Open := fun h => absurd h.1 (Nat.lt_irrefl 0)

theorem Base.inv (h : e.Base) (hclosed : ¬ e.Open) : e.Inv :=
  ⟨h, fun hopen => absurd hopen hclosed, fun hopen => absurd hopen hclosed, fun hopen => absurd hopen hclosed⟩

theorem Base.clearMenu (h : e.Base) : e.clearMenu.Inv :=
  Base.inv (e := e.clearMenu) ⟨h.pos_le, h.index_nonneg, h.index_le⟩ (not_open_clearMenu e)

theorem Inv.refreshLine (h : e.Inv) : (e.refreshLine cand).Inv :=
  ⟨⟨h.pos_le, h.index_nonneg, h.index_le⟩, h.token_le, h.selected_nonneg, h.selected_lt⟩

theorem Base.setLine (h : e.Base) (hclosed : ¬ e.Open) {line : List UInt8} {pos : Nat} (hpos : pos ≤ line.length) :
    (e.setLine cand line pos).Inv :=
  Base.inv (e := e.setLine cand line pos) ⟨hpos, h.index_nonneg, h.index_le⟩ hclosed

theorem Base.renderDropdownMenu (h : e.Base) (htoken : e.menuTokenStart ≤ e.currentPos)
    (candidates : List (List UInt8)) (selectedIdx : Nat) : (e.renderDropdownMenu candidates selectedIdx).Inv := by
  unfold Editor.renderDropdownMenu
  split_ifs with hnil
  · exact h.clearMenu
  · have hpos := List.length_pos_of_ne_nil hnil
    refine ⟨⟨h.pos_le, h.index_nonneg, h.index_le⟩, fun _ => htoken, fun _ => Int.natCast_nonneg _, fun _ => ?_⟩
    change ((if candidates.length ≤ selectedIdx then candidates.length - 1 else selectedIdx : Nat) : Int) <
      candidates.length
    split_ifs <;> omega

/-- Behind a replacement the cursor is at the end of what was put in. -/
theorem Base.replaceToken (h : e.Base) {tokenStart : Nat} (htoken : tokenStart ≤ e.currentPos)
    (choice : List UInt8) : (e.replaceToken tokenStart choice).Base := by
  refine ⟨?_, h.index_nonneg, h.index_le⟩
  have hpos := h.pos_le
  change tokenStart + choice.length ≤
    (e.currentLine.take tokenStart ++ choice ++ e.currentLine.drop e.currentPos).length
  rw [List.length_append, List.length_append, List.length_take, Nat.min_eq_left (by omega)]
  omega

theorem clampedIndex_lt (h : e.menuItems ≠ []) : e.clampedIndex.toNat < e.menuItems.length := by
  have hpos := List.length_pos_of_ne_nil h
  unfold Editor.clampedIndex
  simp only
  split_ifs <;> omega

theorem applyMenuSelection_eq (h : e.menuItems ≠ []) :
    e.applyMenuSelection cand =
      { (e.replaceToken e.menuTokenStart (e.menuItems.getD e.clampedIndex.toNat [])).refreshLine cand with
        menuLines := min e.menuItems.length 8
        selectedMenuIndex := e.clampedIndex.toNat } := by
  have hlt := clampedIndex_lt h
  unfold Editor.applyMenuSelection Editor.renderDropdownMenu
  rw [if_neg h, if_neg h]
  simp only [if_neg (Nat.not_le.2 hlt)]
  rfl

theorem Inv.applyMenuSelection (h : e.Base) (htoken : e.menuTokenStart ≤ e.currentPos) (hitems : e.menuItems ≠ []) :
    (e.applyMenuSelection cand).Inv := by
  have hlt := clampedIndex_lt hitems
  have hbase := h.replaceToken htoken (e.menuItems.getD e.clampedIndex.toNat [])
  rw [applyMenuSelection_eq hitems]
  refine ⟨⟨hbase.pos_le, h.index_nonneg, h.index_le⟩, fun _ => Nat.le_add_right _ _, fun _ => Int.natCast_nonneg _,
    fun _ => ?_⟩
  exact Int.ofNat_lt.2 hlt

theorem Inv.select (h : e.Inv) (hopen : e.Open) (index : Int) : (e.select cand index).Inv :=
  Inv.applyMenuSelection (e := { e with selectedMenuIndex := index }) ⟨h.pos_le, h.index_nonneg, h.index_le⟩
    (h.token_le hopen) hopen.2

theorem Inv.confirm (h : e.Inv) (hopen : e.Open) : (e.confirm cand).Inv :=
  (Inv.applyMenuSelection h.toBase (h.token_le hopen) hopen.2).toBase.clearMenu.refreshLine

theorem Inv.handleTabCompletion (h : e.Inv) : (e.handleTabCompletion cand).Inv := by
  unfold Editor.handleTabCompletion
  split_ifs with hopen
  · exact h.select hopen _
  · generalize hctx : findCompletionContext e.currentLine e.currentPos = ctx
    have htoken : ctx.tokenStart ≤ e.currentPos := hctx ▸ tokenStart_le e.currentLine e.currentPos
    generalize he' : { e with menuTokenStart := ctx.tokenStart } = e'
    have hbase : e'.Base := he' ▸ ⟨h.pos_le, h.index_nonneg, h.index_le⟩
    have hpos : e'.currentPos = e.currentPos := he' ▸ rfl
    have hstart : e'.menuTokenStart = ctx.tokenStart := he' ▸ rfl
    have hclosed : ¬ e'.Open := he' ▸ hopen
    have htoken' : e'.menuTokenStart ≤ e'.currentPos := by rw [hstart, hpos]; exact htoken
    simp only [he']
    split_ifs with hbasics
    · exact hbase.renderDropdownMenu htoken' basics 0
    · have hreplace : ∀ choice, (e'.replaceToken ctx.tokenStart choice).Base :=
        fun choice => hbase.replaceToken (hpos ▸ htoken) choice
      rcases cand ctx with _ | ⟨c, _ | ⟨d, rest⟩⟩
      · exact hbase.inv hclosed
      · exact ((hreplace c).inv hclosed).refreshLine
      · change ((if ctx.pfx.length < (findLongestCommonPrefix (c :: d :: rest)).length
          then (e'.replaceToken ctx.tokenStart (findLongestCommonPrefix (c :: d :: rest))).refreshLine cand
          else e').renderDropdownMenu (c :: d :: rest) 0).Inv
        split_ifs
        · refine Base.renderDropdownMenu ((hreplace _).inv hclosed).refreshLine.toBase ?_ _ _
          change e'.menuTokenStart ≤ ctx.tokenStart + _
          rw [hstart]
          exact Nat.le_add_right _ _
        · exact hbase.renderDropdownMenu htoken' _ 0

/-! ### The other keys -/

theorem inv_readInteractiveLine (e : Editor) (cand : Candidates) : (e.readInteractiveLine cand).Inv :=
  Base.inv ⟨Nat.le_refl 0, Int.natCast_nonneg _, Int.le_refl _⟩ (not_open_clearMenu e)

theorem Base.session (h : e.Base) (hclosed : ¬ e.Open) (outLine : List UInt8) : (e.session cand outLine).Inv := by
  unfold Editor.session
  split_ifs
  · exact Base.inv ⟨h.pos_le, h.index_nonneg, h.index_le⟩ hclosed
  · exact inv_readInteractiveLine e cand

theorem Base.taken (h : e.Base) {history : List (List UInt8)} (hlen : e.history.length ≤ history.length)
    (outLine : List UInt8) :
    (Editor.session { e.clearMenu with
      pendingInput := []
      history := history
      currentLine := []
      currentPos := 0 } cand outLine).Inv := by
  refine Base.session (e := { e.clearMenu with
      pendingInput := []
      history := history
      currentLine := []
      currentPos := 0 }) ⟨Nat.le_refl 0, h.index_nonneg, ?_⟩ (not_open_clearMenu e) outLine
  have hindex := h.index_le
  change e.historyIndex ≤ history.length
  omega

theorem Base.emptied (h : e.Base) (pendingInput : List UInt8) :
    (Editor.setLine { e.clearMenu with pendingInput := pendingInput } cand [] 0).Inv :=
  Base.setLine (e := { e.clearMenu with pendingInput := pendingInput }) ⟨h.pos_le, h.index_nonneg, h.index_le⟩
    (not_open_clearMenu e) (Nat.le_refl 0)

theorem Inv.enter (h : e.Inv) : (e.enter cand).Inv := by
  unfold Editor.enter
  by_cases hopen : e.Open
  · rw [if_pos hopen]
    exact h.confirm hopen
  · rw [if_neg hopen]
    dsimp only
    generalize (if e.clearMenu.pendingInput = [] then e.clearMenu.currentLine
      else e.clearMenu.pendingInput ++ 0x0A :: e.clearMenu.currentLine) = joined
    by_cases hcomplete : isJsInputComplete joined = true
    · rw [if_pos hcomplete]
      refine h.toBase.taken ?_ _
      split_ifs
      · exact Nat.le_of_lt_succ (by rw [List.length_append]; exact Nat.lt_succ_of_lt (Nat.lt_succ_self _))
      · exact Nat.le_refl _
    · rw [if_neg hcomplete]
      exact h.toBase.emptied _

theorem Inv.ctrlC (h : e.Inv) : (e.ctrlC cand).Inv := h.toBase.emptied []

theorem Inv.ctrlD (h : e.Inv) : (e.ctrlD cand).Inv := by
  unfold Editor.ctrlD
  simp only
  split_ifs
  · exact Inv.refreshLine (e := { e.clearMenu with pendingInput := [] })
      (Base.inv ⟨h.pos_le, h.index_nonneg, h.index_le⟩ (not_open_clearMenu e))
  · exact h.toBase.clearMenu.toBase.session (not_open_clearMenu e) _
  · exact h.toBase.clearMenu

theorem Inv.backspace (h : e.Inv) : (e.backspace cand).Inv := by
  have hpos : e.clearMenu.currentPos ≤ e.clearMenu.currentLine.length := h.pos_le
  unfold Editor.backspace
  simp only
  split_ifs with hleft
  · refine h.toBase.clearMenu.toBase.setLine (not_open_clearMenu e) ?_
    rw [List.length_eraseIdx_of_lt (by omega)]
    omega
  · exact h.toBase.clearMenu

theorem Inv.delete (h : e.Inv) : (e.delete cand).Inv := by
  unfold Editor.delete
  simp only
  split_ifs with hright
  · refine h.toBase.clearMenu.toBase.setLine (not_open_clearMenu e) ?_
    rw [List.length_eraseIdx_of_lt hright]
    omega
  · exact h.toBase.clearMenu

theorem Inv.insert (h : e.Inv) (c : UInt8) : (e.insert cand c).Inv := by
  refine h.toBase.clearMenu.toBase.setLine (not_open_clearMenu e) ?_
  rw [List.length_insertIdx_of_le_length h.pos_le]
  exact Nat.succ_le_succ h.pos_le

theorem Base.recalled (h : e.Base) {index : Int} (hnonneg : 0 ≤ index) (hle : index ≤ e.history.length)
    (saved line : List UInt8) :
    (Editor.setLine { e.clearMenu with savedCurrent := saved, historyIndex := index } cand line line.length).Inv :=
  Base.setLine (e := { e.clearMenu with savedCurrent := saved, historyIndex := index }) ⟨h.pos_le, hnonneg, hle⟩
    (not_open_clearMenu e) (Nat.le_refl _)

theorem Inv.up (h : e.Inv) : (e.up cand).Inv := by
  have hindex := h.index_le
  unfold Editor.up
  by_cases hopen : e.Open
  · rw [if_pos hopen]
    exact h.select hopen _
  · rw [if_neg hopen]
    by_cases hback : e.history ≠ [] ∧ 0 < e.historyIndex
    · rw [if_pos hback]
      exact h.toBase.recalled (by omega) (by omega) _ _
    · rw [if_neg hback]
      exact h

theorem Inv.down (h : e.Inv) : (e.down cand).Inv := by
  have hindex := h.index_nonneg
  unfold Editor.down
  by_cases hopen : e.Open
  · rw [if_pos hopen]
    exact h.select hopen _
  · rw [if_neg hopen]
    by_cases hforth : e.historyIndex < e.history.length
    · rw [if_pos hforth]
      exact h.toBase.recalled (by omega) (by omega) e.savedCurrent _
    · rw [if_neg hforth]
      exact h

theorem Inv.right (h : e.Inv) : (e.right cand).Inv := by
  unfold Editor.right
  split_ifs with hopen
  · exact h.confirm hopen
  · have hbase := h.toBase.clearMenu.toBase
    simp only
    split_ifs with hghost hinside
    · exact hbase.setLine (not_open_clearMenu e) (Nat.le_refl _)
    · exact hbase.setLine (not_open_clearMenu e) hinside
    · exact h.toBase.clearMenu

theorem Inv.left (h : e.Inv) : (e.left cand).Inv := by
  unfold Editor.left
  simp only
  split_ifs
  · exact h.toBase.clearMenu.toBase.setLine (not_open_clearMenu e) (Nat.le_trans (Nat.sub_le _ 1) h.pos_le)
  · exact h.toBase.clearMenu

theorem Inv.arrow (h : e.Inv) (c : UInt8) : (e.arrow cand c).Inv := by
  have hbase := h.toBase.clearMenu.toBase
  unfold Editor.arrow
  split_ifs
  · exact h.up
  · exact h.down
  · exact h.right
  · exact h.left
  · exact hbase.setLine (not_open_clearMenu e) (Nat.zero_le _)
  · exact hbase.setLine (not_open_clearMenu e) (Nat.le_refl _)
  · exact ⟨⟨h.pos_le, h.index_nonneg, h.index_le⟩, h.token_le, h.selected_nonneg, h.selected_lt⟩
  · exact h

theorem Inv.key (h : e.Inv) (c : UInt8) : (e.key cand c).Inv := by
  unfold Editor.key
  split_ifs
  · exact h.enter
  · exact h.handleTabCompletion
  · exact h.ctrlC
  · exact h.ctrlD
  · exact h.backspace
  · exact ⟨⟨h.pos_le, h.index_nonneg, h.index_le⟩, h.token_le, h.selected_nonneg, h.selected_lt⟩
  · exact h.insert c
  · exact h

theorem Inv.withWaiting (h : e.Inv) (w : Waiting) : Inv { e with waiting := w } :=
  ⟨⟨h.pos_le, h.index_nonneg, h.index_le⟩, h.token_le, h.selected_nonneg, h.selected_lt⟩

theorem Inv.step (h : e.Inv) (i : Input) : (e.step i).Inv := by
  unfold Editor.step
  cases e.waiting with
  | key =>
    cases i.event with
    | byte c => exact h.key c
    | pause => exact h
    | frame => exact h.toBase.clearMenu.refreshLine
  | poll =>
    cases i.event with
    | byte c => exact h.withWaiting (.seq c)
    | pause => exact h.toBase.clearMenu.refreshLine.withWaiting .key
    | frame => exact h
  | seq seq0 =>
    cases i.event with
    | byte c =>
      simp only
      split_ifs
      · exact (h.withWaiting .key).arrow c
      · exact h.withWaiting .key
    | pause => exact h
    | frame => exact h
  | tilde =>
    cases i.event with
    | byte c =>
      simp only
      split_ifs
      · exact (h.withWaiting .key).delete
      · exact h.withWaiting .key
    | pause => exact h
    | frame => exact h
  | ended => exact h

/-! ## Going round the menu -/

/-- The text around the token is as it was. -/
structure Around (e e' : Editor) : Prop where
  token : e'.menuTokenStart = e.menuTokenStart
  before : e'.currentLine.take e'.menuTokenStart = e.currentLine.take e.menuTokenStart
  after : e'.currentLine.drop e'.currentPos = e.currentLine.drop e.currentPos

theorem Around.trans {e e' e'' : Editor} (h : Around e e') (h' : Around e' e'') : Around e e'' :=
  ⟨h'.token.trans h.token, h'.before.trans h.before, h'.after.trans h.after⟩

/-- The menu stays open when another item is selected, and the text around the token stays. -/
theorem around_select (h : e.Inv) (hopen : e.Open) (index : Int) :
    Around e (e.select cand index) ∧ (e.select cand index).Open ∧ (e.select cand index).waiting = e.waiting := by
  have htoken := h.token_le hopen
  have hpos := h.pos_le
  have hlen := List.length_pos_of_ne_nil hopen.2
  unfold Editor.select
  rw [applyMenuSelection_eq (e := { e with selectedMenuIndex := index }) hopen.2]
  generalize e.menuItems.getD _ [] = choice
  have htake : (e.currentLine.take e.menuTokenStart).length = e.menuTokenStart := by
    rw [List.length_take]
    omega
  refine ⟨⟨rfl, ?_, ?_⟩, ⟨?_, hopen.2⟩, rfl⟩
  · change (e.currentLine.take e.menuTokenStart ++ choice ++ e.currentLine.drop e.currentPos).take e.menuTokenStart = _
    rw [List.append_assoc, List.take_left' htake]
  · change (e.currentLine.take e.menuTokenStart ++ choice ++ e.currentLine.drop e.currentPos).drop
      (e.menuTokenStart + choice.length) = _
    exact List.drop_left' (by rw [List.length_append, htake])
  · change 0 < min e.menuItems.length 8
    omega

/-- A key that goes to another item. -/
inductive Cycle where
  | tab
  | up
  | down

def Cycle.events : Cycle → List Event
  | .tab => [.byte 0x09]
  | .up => [.byte 27, .byte 0x5B, .byte 0x41]
  | .down => [.byte 27, .byte 0x5B, .byte 0x42]

theorem around_cycle (h : e.Inv) (hopen : e.Open) (hkey : e.waiting = .key) (k : Cycle) {is : List Input}
    (his : is.map Input.event = k.events) :
    Around e (Lib.run step e is) ∧ (Lib.run step e is).Open ∧ (Lib.run step e is).waiting = .key := by
  have hself : { e with waiting := .key } = e := by rw [← hkey]
  have hesc (i : Input) (hi : i.event = .byte 27) : e.step i = { e with waiting := .poll } := by
    unfold Editor.step
    rw [hkey, hi]
    rfl
  have hbracket (i : Input) (hi : i.event = .byte 0x5B) :
      ({ e with waiting := .poll } : Editor).step i = { e with waiting := .seq 0x5B } := by
    unfold Editor.step
    rw [hi]
  cases k with
  | tab =>
    obtain ⟨i, rest, rfl, hi, hrest⟩ := List.map_eq_cons_iff.1 his
    rw [List.map_eq_nil_iff.1 hrest]
    have hstep : e.step i = e.selectNext i.candidates := by
      unfold Editor.step
      rw [hkey, hi]
      exact if_pos hopen
    change Around e (e.step i) ∧ (e.step i).Open ∧ (e.step i).waiting = .key
    rw [hstep, ← hkey]
    exact around_select h hopen _
  | up =>
    obtain ⟨i, rest, rfl, hi, hrest⟩ := List.map_eq_cons_iff.1 his
    obtain ⟨j, rest, rfl, hj, hrest⟩ := List.map_eq_cons_iff.1 hrest
    obtain ⟨k, rest, rfl, hk, hrest⟩ := List.map_eq_cons_iff.1 hrest
    rw [List.map_eq_nil_iff.1 hrest]
    have hstep : ({ e with waiting := .seq 0x5B } : Editor).step k = e.selectPrevious k.candidates := by
      unfold Editor.step
      rw [hk]
      simp only [if_true, hself]
      exact if_pos hopen
    change Around e (((e.step i).step j).step k) ∧ (((e.step i).step j).step k).Open ∧
      (((e.step i).step j).step k).waiting = .key
    rw [hesc i hi, hbracket j hj, hstep, ← hkey]
    exact around_select h hopen _
  | down =>
    obtain ⟨i, rest, rfl, hi, hrest⟩ := List.map_eq_cons_iff.1 his
    obtain ⟨j, rest, rfl, hj, hrest⟩ := List.map_eq_cons_iff.1 hrest
    obtain ⟨k, rest, rfl, hk, hrest⟩ := List.map_eq_cons_iff.1 hrest
    rw [List.map_eq_nil_iff.1 hrest]
    have hstep : ({ e with waiting := .seq 0x5B } : Editor).step k = e.selectNext k.candidates := by
      unfold Editor.step
      rw [hk]
      simp only [if_true, hself]
      exact if_pos hopen
    change Around e (((e.step i).step j).step k) ∧ (((e.step i).step j).step k).Open ∧
      (((e.step i).step j).step k).waiting = .key
    rw [hesc i hi, hbracket j hj, hstep, ← hkey]
    exact around_select h hopen _

theorem Inv.run (h : e.Inv) (is : List Input) : (Lib.run Editor.step e is).Inv := by
  induction is generalizing e with
  | nil => exact h
  | cons i is ih => exact ih (h.step i)

theorem around_cycles (h : e.Inv) (hopen : e.Open) (hkey : e.waiting = .key) (ks : List Cycle) {is : List Input}
    (his : is.map Input.event = ks.flatMap Cycle.events) :
    Around e (Lib.run step e is) ∧ (Lib.run step e is).Open := by
  induction ks generalizing e is with
  | nil =>
    rw [List.map_eq_nil_iff.1 his]
    exact ⟨⟨rfl, rfl, rfl⟩, hopen⟩
  | cons k ks ih =>
    obtain ⟨is, js, rfl, his, hjs⟩ := List.map_eq_append_iff.1 his
    obtain ⟨haround, hopen', hkey'⟩ := around_cycle h hopen hkey k his
    obtain ⟨haround', hopen''⟩ := ih (h.run is) hopen' hkey' hjs
    have hrun : Lib.run step e (is ++ js) = Lib.run step (Lib.run step e is) js := List.foldl_append
    rw [hrun]
    exact ⟨haround.trans haround', hopen''⟩

/-- Whatever keys come, and whatever the agent answers, the invariant holds at every read, and going round a menu
    leaves the text around the token. -/
theorem editor_invariant (history : List (List UInt8)) (is : List Input) :
    (Lib.run step (start history) is).Inv ∧
      ∀ (ks : List Cycle) (js : List Input), (Lib.run step (start history) is).Open →
        (Lib.run step (start history) is).waiting = .key → js.map Input.event = ks.flatMap Cycle.events →
        Around (Lib.run step (start history) is) (Lib.run step (start history) (is ++ js)) ∧
          (Lib.run step (start history) (is ++ js)).Open := by
  have hinv : (Lib.run step (start history) is).Inv := (inv_readInteractiveLine _ _).run is
  refine ⟨hinv, fun ks js hopen hkey hjs => ?_⟩
  have hrun : Lib.run step (start history) (is ++ js) = Lib.run step (Lib.run step (start history) is) js :=
    List.foldl_append
  rw [hrun]
  exact around_cycles hinv hopen hkey ks hjs

def offers : Candidates := fun _ => [ascii "Java.", ascii "Json."]

/-- `f(J)`, and Tab behind the `J`. -/
def insideParens : List Input :=
  ([0x66, 0x28, 0x4a, 0x29, 0x1b, 0x5b, 0x44, 0x09] : List UInt8).map fun c => ⟨.byte c, offers⟩

def roundTheMenu : List Input := (Cycle.events .tab ++ Cycle.events .up).map fun ev => ⟨ev, offers⟩

/-- Tab opens the menu, and Tab and Up go round it between the parentheses. -/
theorem editor_invariant_basics :
    Around (Lib.run step (start []) insideParens) (Lib.run step (start []) (insideParens ++ roundTheMenu)) ∧
      (Lib.run step (start []) (insideParens ++ roundTheMenu)).currentLine = ascii "f(Java.)" := by
  refine ⟨((editor_invariant [] insideParens).2 [.tab, .up] roundTheMenu ?_ (by decide) rfl).1, by decide⟩
  exact ⟨by decide, by decide⟩

end Editor

end ArtPi.Cli.LineEditor
