import Mathlib.Data.List.DropRight
import CoWrite.Lib.Runs
import CoWrite.Ss.Net

/-!
# The line editor

While Up and Down go through the history, `cli_input_readline` keeps a copy of the line that was being typed. It makes
the copy on the first Up only.

* `lines_of_remember`: the history is the latest lines.
* `Valid.step`: the buffer always holds a text that ends before its last byte.
* `restores_iff`: from the line, a way up and down again restores it unless the copy is an older one.
* `trips_restore_iff`: in a run every such way restores the line exactly when the line is not edited once there is a
  copy.
-/

namespace CoWrite.Client.Input

open CoWrite.Lib
open CoWrite.Lib.System (Meets Throughout)
open CoWrite.Ss.Net (strlen)

def CLI_HISTORY_MAX : Nat := 128

/-- The lines that `g_history` points at. -/
structure History where
  lines : List Text
  nul : ∀ line ∈ lines, '\x00' ∉ line
  room : lines.length ≤ CLI_HISTORY_MAX

/-- A copy of a line, up to its terminator, may be put behind the lines. -/
theorem not_nul_concat {lines : List Text} (h : ∀ line ∈ lines, '\x00' ∉ line) (line : Text) :
    ∀ l ∈ lines ++ [line.takeWhile (· != '\x00')], '\x00' ∉ l := by
  intro l hl hmem
  rcases List.mem_append.1 hl with hl | hl
  · exact h l hl hmem
  · rw [List.mem_singleton.1 hl] at hmem
    have hnul := List.all_eq_true.1 List.all_takeWhile _ hmem
    simp at hnul

/-- `cli_input_remember`; `strdup` copies the line up to its terminator, if there is `memory`. -/
def cliInputRemember (memory : Bool) (h : History) (line : Text) : History :=
  let copy := line.takeWhile (· != '\x00')
  if copy = [] then h
  else if !memory then h
  else if hfull : h.lines.length = CLI_HISTORY_MAX then
    { lines := h.lines.tail ++ [copy]
      nul := not_nul_concat (fun l hl => h.nul l (List.mem_of_mem_tail hl)) line
      room := by
        rw [List.length_append, List.length_tail, hfull]
        exact Nat.le_refl CLI_HISTORY_MAX }
  else
    { lines := h.lines ++ [copy]
      nul := not_nul_concat h.nul line
      room := by
        rw [List.length_append]
        exact Nat.lt_of_le_of_ne h.room hfull }

/-- Before the first line. -/
def History.empty : History := ⟨[], by simp, by simp⟩

theorem cliInputRemember_lines {h : History} {lines : List Text} (hlines : h.lines = lines.rtake CLI_HISTORY_MAX)
    {line : Text} (hne : line.takeWhile (· != '\x00') ≠ []) :
    (cliInputRemember true h line).lines = (lines ++ [line.takeWhile (· != '\x00')]).rtake CLI_HISTORY_MAX := by
  have hlength : h.lines.length = min CLI_HISTORY_MAX lines.length := by
    rw [hlines, List.rtake, List.length_drop]
    omega
  have hmax : 0 < CLI_HISTORY_MAX := by decide
  rw [List.rtake, List.length_append, List.length_singleton]
  unfold cliInputRemember
  dsimp only
  rw [if_neg hne, Bool.not_true, if_neg Bool.false_ne_true]
  split
  · next hfull =>
    -- the oldest line gives way
    have hdrop : lines.length - CLI_HISTORY_MAX + 1 = lines.length + 1 - CLI_HISTORY_MAX := by omega
    show h.lines.tail ++ _ = _
    rw [hlines, List.rtake, List.tail_drop, hdrop, List.drop_append_of_le_length (by omega)]
  · next hfull =>
    have hlt : lines.length < CLI_HISTORY_MAX := by omega
    show h.lines ++ _ = _
    rw [hlines, List.rtake, Nat.sub_eq_zero_of_le hlt.le, Nat.sub_eq_zero_of_le hlt, List.drop_zero, List.drop_zero]

/-- **The history holds the latest lines that are not empty**, as many as there is room for. -/
theorem lines_of_remember (lines : List Text) :
    (lines.foldl (cliInputRemember true) .empty).lines =
      ((lines.map (·.takeWhile (· != '\x00'))).filter (· ≠ [])).rtake CLI_HISTORY_MAX := by
  induction lines using List.reverseRecOn with
  | nil => rfl
  | append_singleton lines line ih =>
    rw [List.foldl_concat, List.map_append, List.map_singleton, List.filter_append]
    by_cases hne : line.takeWhile (· != '\x00') = []
    · simpa [cliInputRemember, hne] using ih
    · rw [cliInputRemember_lines ih hne, List.filter_cons_of_pos (by simpa using hne), List.filter_nil]

/-! ## The loop -/

/-- The variables of the loop. -/
structure Editor where
  buf : Text
  len : Nat
  scratch : Text
  scratchLen : Nat
  haveScratch : Bool
  historyIndex : Nat
deriving DecidableEq, Repr

/-- An array with other bytes at its front. -/
def store (array bytes : Text) : Text := bytes ++ array.drop bytes.length

/-- `load_history_entry`, with the length that it stores. -/
def loadHistoryEntry (h : History) (index : Nat) (buf : Text) (size : Nat) : Text × Nat :=
  match h.lines[index]? with
  | none => (store buf ['\x00'], 0)
  | some line =>
    let buf := store buf (Text.copyTo size line ++ ['\x00'])
    (buf, if size ≤ strlen buf then size - 1 else strlen buf)

/-- The length that `reset_line` stores. -/
def resetLine (buf : Text) (size : Nat) : Nat :=
  if size ≤ strlen buf then size - 1 else strlen buf

/-- Up. -/
def Editor.up (h : History) (size : Nat) (e : Editor) : Editor :=
  if 0 < e.historyIndex then
    let e :=
      if e.haveScratch then e
      else
        { e with
          scratch := store e.scratch (e.buf.take (e.len + 1))
          scratchLen := e.len
          haveScratch := true }
    let index := e.historyIndex - 1
    let loaded := loadHistoryEntry h index e.buf size
    -- the length is computed once more from the buffer
    { e with historyIndex := index, buf := loaded.1, len := resetLine loaded.1 size }
  else e

/-- Down. -/
def Editor.down (h : History) (size : Nat) (e : Editor) : Editor :=
  if e.historyIndex < h.lines.length then
    let index := e.historyIndex + 1
    let loaded :=
      if index = h.lines.length then
        if e.haveScratch then (store e.buf (e.scratch.take (e.scratchLen + 1)), e.scratchLen)
        else (store e.buf ['\x00'], 0)
      else loadHistoryEntry h index e.buf size
    { e with historyIndex := index, buf := loaded.1, len := resetLine loaded.1 size }
  else e

/-- Backspace. -/
def Editor.backspace (e : Editor) : Editor :=
  if 0 < e.len then { e with buf := e.buf.set (e.len - 1) '\x00', len := e.len - 1 } else e

/-- A printable character. -/
def Editor.append (size : Nat) (ch : Char) (e : Editor) : Editor :=
  if e.len + 1 < size then { e with buf := (e.buf.set e.len ch).set (e.len + 1) '\x00', len := e.len + 1 } else e

/-- Enter. -/
def Editor.newline (size : Nat) (e : Editor) : Editor :=
  let e := if e.len + 1 < size then { e with buf := e.buf.set e.len '\n', len := e.len + 1 } else e
  { e with buf := e.buf.set e.len '\x00' }

/-- `isprint` in the C locale. -/
def isPrint (ch : Char) : Bool := decide (0x20 ≤ ch.toNat) && decide (ch.toNat ≤ 0x7e)

/-- The byte at the head of a pass of the loop, and behind an escape what the second `read` delivers. -/
structure Key where
  ch : Char
  seq : Text
deriving DecidableEq, Repr

inductive Outcome where
  | more (e : Editor)
  | done (rc : Int) (e : Editor)
deriving DecidableEq, Repr

def Outcome.editor : Outcome → Editor
  | .more e => e
  | .done _ e => e

/-- The editor at the head of the next pass. -/
def Outcome.next? : Outcome → Option Editor
  | .more e => some e
  | .done _ _ => none

/-- One pass of the loop. -/
def step (h : History) (size : Nat) (e : Editor) (key : Key) : Outcome :=
  if key.ch = '\n' ∨ key.ch = '\r' then .done 1 (e.newline size)
  else if key.ch = '\x04' then
    if e.len = 0 then .done 0 e else .more e
  else if key.ch = '\x7f' ∨ key.ch = '\x08' then .more e.backspace
  else if key.ch = '\x1b' then
    if key.seq = ['[', 'A'] then .more (e.up h size)
    else if key.seq = ['[', 'B'] then .more (e.down h size)
    else .more e
  else if isPrint key.ch then .more (e.append size key.ch)
  else .more e

/-- What the function returns, and its variables then; without a key a `read` has failed. -/
def edit (h : History) (size : Nat) (e : Editor) : List Key → Int × Editor
  | [] => (0, e)
  | key :: keys =>
    match step h size e key with
    | .more e => edit h size e keys
    | .done rc e => (rc, e)

/-- The keys that calls of `read` come to; each call is given by what it delivers, nothing if it fails. -/
def readKeys : List Text → List Key
  | [] => []
  | [] :: _ => []
  | (ch :: _) :: calls =>
    if ch = '\x1b' then
      match calls with
      | [] => [⟨ch, []⟩]
      | seq :: calls => ⟨ch, seq.take 2⟩ :: readKeys calls
    else ⟨ch, []⟩ :: readKeys calls

/-- `fgets` into a buffer, from what is left of the input. -/
def fgets (buf stdin : Text) : Option Text :=
  if buf.length = 1 then some ['\x00']
  else if stdin = [] then none
  else
    let line := stdin.takeWhile (· != '\n') ++ (stdin.dropWhile (· != '\n')).take 1
    some (store buf (Text.copyTo buf.length line ++ ['\x00']))

/-- The variables before the first key; `buf` and `scratch` are what stands in memory. -/
def Editor.start (h : History) (buf scratch : Text) : Editor :=
  { buf := store buf ['\x00'], len := 0, scratch := scratch, scratchLen := 0, haveScratch := false,
    historyIndex := h.lines.length }

/-- `cli_input_readline` on a buffer: what it returns and leaves there. On a terminal, `raw` tells whether the mode
can be set. -/
def cliInputReadline (tty raw : Bool) (h : History) (buf scratch : Text) (calls : List Text) : Int × Text :=
  if buf.length = 0 then (-1, buf)
  else if !tty then
    match fgets buf calls.flatten with
    | none => (0, buf)
    | some buf => (1, buf)
  else if !raw then (-1, buf)
  else
    let read := edit h buf.length (.start h buf scratch) (readKeys calls)
    (read.1, read.2.buf)

/-! ## The text in the buffer -/

/-- The length is the one of a text in the buffer, which is terminated behind it. -/
structure Keeps (size : Nat) (buf : Text) (len : Nat) : Prop where
  length : buf.length = size
  lt : len < size
  nul : buf[len]? = some '\x00'
  text : '\x00' ∉ buf.take len

section Buffer

variable {size len : Nat} {buf text : Text}

theorem keeps_of_append {rest : Text} (h : (text ++ '\x00' :: rest).length = size) (htext : '\x00' ∉ text) :
    Keeps size (text ++ '\x00' :: rest) text.length := by
  refine ⟨h, ?_, by simp, by simpa using htext⟩
  rw [List.length_append, List.length_cons] at h
  omega

/-- A terminated text that was stored in the buffer. -/
theorem store_text (hlen : text.length < buf.length) (htext : '\x00' ∉ text) :
    Keeps buf.length (store buf (text ++ ['\x00'])) text.length ∧
      (store buf (text ++ ['\x00'])).take text.length = text := by
  unfold store
  rw [List.append_assoc, List.singleton_append]
  refine ⟨keeps_of_append ?_ htext, List.take_left⟩
  simp only [List.length_append, List.length_cons, List.length_drop, List.length_nil]
  omega

theorem store_nul (h : 0 < buf.length) : Keeps buf.length (store buf ['\x00']) 0 :=
  (@store_text buf [] h List.not_mem_nil).1

/-- What `fgets` leaves. -/
theorem store_copy (h : 0 < buf.length) (line : Text) :
    (store buf (Text.copyTo buf.length line ++ ['\x00'])).length = buf.length ∧
      '\x00' ∈ store buf (Text.copyTo buf.length line ++ ['\x00']) := by
  have hlen := Text.length_copyTo_lt line h
  unfold store
  refine ⟨?_, by simp⟩
  simp only [List.length_append, List.length_drop, List.length_cons, List.length_nil]
  omega

theorem Keeps.take_succ (h : Keeps size buf len) : buf.take (len + 1) = buf.take len ++ ['\x00'] := by
  rw [List.take_add_one, h.nul]
  rfl

theorem Keeps.length_take (h : Keeps size buf len) : (buf.take len).length = len := by
  have := h.lt
  rw [List.length_take, h.length]
  omega

theorem Keeps.strlen (h : Keeps size buf len) : strlen buf = len := by
  have hbuf : buf = buf.take len ++ '\x00' :: buf.drop (len + 1) := by
    rw [← List.singleton_append, ← List.append_assoc, ← h.take_succ, List.take_append_drop]
  rw [Ss.Net.strlen, hbuf, List.takeWhile_append_of_pos, List.takeWhile_cons_of_neg (by simp), List.append_nil,
    h.length_take]
  intro c hc
  rw [bne_iff_ne]
  rintro rfl
  exact h.text hc

theorem Keeps.resetLine (h : Keeps size buf len) : resetLine buf size = len := by
  rw [Input.resetLine, h.strlen, if_neg (Nat.not_le.2 h.lt)]

/-- Another array takes the text. -/
theorem Keeps.store {array : Text} (h : Keeps size buf len) (harray : array.length = size) :
    Keeps size (store array (buf.take (len + 1))) len ∧
      (Input.store array (buf.take (len + 1))).take len = buf.take len := by
  have hlen : (buf.take len).length < array.length := by
    rw [h.length_take, harray]
    exact h.lt
  have hstored := store_text hlen h.text
  rwa [h.length_take, harray, ← h.take_succ] at hstored

theorem Keeps.append (h : Keeps size buf len) (hroom : len + 1 < size) {ch : Char} (hch : ch ≠ '\x00') :
    Keeps size ((buf.set len ch).set (len + 1) '\x00') (len + 1) ∧
      ((buf.set len ch).set (len + 1) '\x00').take (len + 1) = buf.take len ++ [ch] := by
  have hlength := h.length
  have htake : ((buf.set len ch).set (len + 1) '\x00').take (len + 1) = buf.take len ++ [ch] := by
    rw [List.take_set_of_le (Nat.le_refl _), List.take_add_one, List.take_set_of_le (Nat.le_refl _),
      List.getElem?_set_self (by omega)]
    rfl
  refine ⟨⟨by simpa using hlength, hroom, ?_, ?_⟩, htake⟩
  · rw [List.getElem?_set_self]
    rw [List.length_set]
    omega
  · rw [htake, List.mem_append, List.mem_singleton, not_or]
    exact ⟨h.text, hch.symm⟩

theorem Keeps.backspace (h : Keeps size buf (len + 1)) :
    Keeps size (buf.set len '\x00') len ∧ (buf.set len '\x00').take len = buf.take len := by
  have hlength := h.length
  have hlt := h.lt
  have htake : (buf.set len '\x00').take len = buf.take len := List.take_set_of_le (Nat.le_refl _)
  refine ⟨⟨by simpa using hlength, by omega, List.getElem?_set_self (by omega), ?_⟩, htake⟩
  rw [htake]
  intro hmem
  exact h.text ((List.take_prefix_take_left (Nat.le_succ len)).subset hmem)

/-- An entry of the history is loaded as far as there is room. -/
theorem keeps_loadHistoryEntry (h : History) (index : Nat) (hsize : 0 < size) (hbuf : buf.length = size) :
    Keeps size (loadHistoryEntry h index buf size).1 (Input.resetLine (loadHistoryEntry h index buf size).1 size) := by
  subst hbuf
  unfold loadHistoryEntry
  cases hline : h.lines[index]? with
  | none =>
    have hkeeps := store_nul hsize
    rw [hkeeps.resetLine]
    exact hkeeps
  | some line =>
    have hnul : '\x00' ∉ Text.copyTo buf.length line := by
      intro hmem
      exact h.nul line (List.mem_of_getElem? hline) (List.mem_of_mem_take hmem)
    have hkeeps := (store_text (Text.length_copyTo_lt line hsize) hnul).1
    dsimp only
    rw [hkeeps.resetLine]
    exact hkeeps

end Buffer

/-! ## One key -/

/-- What is typed. -/
def Editor.line (e : Editor) : Text := e.buf.take e.len

/-- The copy. -/
def Editor.saved (e : Editor) : Text := e.scratch.take e.scratchLen

/-- The cursor is on the line being typed, behind the history. -/
def Editor.OnLine (h : History) (e : Editor) : Prop := e.historyIndex = h.lines.length

/-- The length is below the size of the buffer, and the line ends there. -/
structure Editor.Terminated (size : Nat) (e : Editor) : Prop where
  length : e.buf.length = size
  lt : e.len < size
  nul : e.buf[e.len]? = some '\x00'

/-- The variables at the head of a pass. -/
structure Valid (h : History) (size : Nat) (e : Editor) : Prop where
  line : Keeps size e.buf e.len
  room : e.scratch.length = size
  index : e.historyIndex ≤ h.lines.length
  away : e.historyIndex < h.lines.length → e.haveScratch = true
  saved : e.haveScratch = true → 0 < h.lines.length ∧ Keeps size e.scratch e.scratchLen

section Step

variable {h : History} {size : Nat} {e : Editor}

theorem Keeps.terminated (hkeeps : Keeps size e.buf e.len) : e.Terminated size :=
  ⟨hkeeps.length, hkeeps.lt, hkeeps.nul⟩

theorem valid_start {buf scratch : Text} (hsize : 0 < size) (hbuf : buf.length = size)
    (hscratch : scratch.length = size) : Valid h size (.start h buf scratch) where
  line := by
    subst hbuf
    exact store_nul hsize
  room := hscratch
  index := Nat.le_refl _
  away hlt := absurd hlt (Nat.lt_irrefl _)
  saved hsaved := by cases hsaved

/-- An Up that goes to the entry before, with a copy of the line if there was none. -/
structure GoneUp (h : History) (size : Nat) (e e' : Editor) : Prop where
  valid : Valid h size e'
  index : e'.historyIndex + 1 = e.historyIndex
  haveScratch : e'.haveScratch = true
  saved : e'.saved = if e.haveScratch then e.saved else e.line

/-- A Down that goes to the entry behind, and from the last one to the copy. -/
structure GoneDown (h : History) (size : Nat) (e e' : Editor) : Prop where
  valid : Valid h size e'
  index : e'.historyIndex = e.historyIndex + 1
  haveScratch : e.haveScratch = true ∧ e'.haveScratch = true
  saved : e'.saved = e.saved
  line : e'.OnLine h → e'.line = e.saved

theorem Valid.up (hv : Valid h size e) :
    (e.historyIndex = 0 ∧ e.up h size = e) ∨ GoneUp h size e (e.up h size) := by
  unfold Editor.up
  split
  swap
  · next hindex => exact .inl ⟨Nat.eq_zero_of_not_pos hindex, rfl⟩
  · next hindex =>
    have hle : e.historyIndex - 1 ≤ h.lines.length := (Nat.sub_le _ _).trans hv.index
    have hcursor : e.historyIndex - 1 + 1 = e.historyIndex := Nat.sub_add_cancel hindex
    have hloaded := keeps_loadHistoryEntry h (e.historyIndex - 1) (Nat.zero_lt_of_lt hv.line.lt) hv.line.length
    right
    dsimp only
    cases hhave : e.haveScratch with
    | true => exact ⟨⟨hloaded, hv.room, hle, fun _ => hhave, hv.saved⟩, hcursor, hhave, by rw [hhave]; rfl⟩
    | false =>
      obtain ⟨hkeeps, htext⟩ := hv.line.store hv.room
      have hne : 0 < h.lines.length := hindex.trans_le hv.index
      exact ⟨⟨hloaded, hkeeps.length, hle, fun _ => rfl, fun _ => ⟨hne, hkeeps⟩⟩, hcursor, rfl,
        by rw [hhave]; exact htext⟩

theorem GoneUp.not_onLine {e' : Editor} (hv : Valid h size e) (hgone : GoneUp h size e e') : ¬ e'.OnLine h := by
  intro honLine
  have hle := hv.index
  rw [← hgone.index, honLine] at hle
  exact absurd hle (Nat.not_succ_le_self _)

theorem Valid.down (hv : Valid h size e) :
    (e.OnLine h ∧ e.down h size = e) ∨ GoneDown h size e (e.down h size) := by
  unfold Editor.down
  split
  swap
  · next hindex => exact .inl ⟨Nat.le_antisymm hv.index (Nat.not_lt.1 hindex), rfl⟩
  · next hindex =>
    have hhave := hv.away hindex
    obtain ⟨-, hkeeps⟩ := hv.saved hhave
    right
    rw [if_pos hhave]
    dsimp only
    by_cases hlast : e.historyIndex + 1 = h.lines.length
    · obtain ⟨hline, htext⟩ := hkeeps.store hv.line.length
      rw [if_pos hlast, hline.resetLine]
      exact ⟨⟨hline, hv.room, hlast.le, fun _ => hhave, hv.saved⟩, rfl, ⟨hhave, hhave⟩, rfl, fun _ => htext⟩
    · have hloaded := keeps_loadHistoryEntry h (e.historyIndex + 1) (Nat.zero_lt_of_lt hv.line.lt) hv.line.length
      rw [if_neg hlast]
      exact ⟨⟨hloaded, hv.room, hindex, fun _ => hhave, hv.saved⟩, rfl, ⟨hhave, hhave⟩, rfl,
        fun honLine => absurd honLine hlast⟩

/-- A key edits the line: it is printable and there is room, or it is Backspace and there is something to delete. -/
def Edits (size : Nat) (e : Editor) (key : Key) : Prop :=
  (isPrint key.ch = true ∧ e.len + 1 < size) ∨ ((key.ch = '\x7f' ∨ key.ch = '\x08') ∧ 0 < e.len)

/-- Another line in the buffer. -/
structure Edited (size : Nat) (e e' : Editor) : Prop where
  line : Keeps size e'.buf e'.len
  room : e'.scratch = e.scratch
  scratchLen : e'.scratchLen = e.scratchLen
  haveScratch : e'.haveScratch = e.haveScratch
  historyIndex : e'.historyIndex = e.historyIndex
  changed : e'.line ≠ e.line

theorem Valid.edited {e' : Editor} (hv : Valid h size e) (hedited : Edited size e e') : Valid h size e' where
  line := hedited.line
  room := by rw [hedited.room]; exact hv.room
  index := by rw [hedited.historyIndex]; exact hv.index
  away := by rw [hedited.historyIndex, hedited.haveScratch]; exact hv.away
  saved := by rw [hedited.haveScratch, hedited.room, hedited.scratchLen]; exact hv.saved

theorem Valid.append (hv : Valid h size e) (hroom : e.len + 1 < size) {ch : Char} (hch : isPrint ch = true) :
    Edited size e (e.append size ch) := by
  have hne : ch ≠ '\x00' := by
    rintro rfl
    exact absurd hch (by decide)
  obtain ⟨hkeeps, htext⟩ := hv.line.append hroom hne
  unfold Editor.append
  rw [if_pos hroom]
  refine ⟨hkeeps, rfl, rfl, rfl, rfl, ?_⟩
  intro heq
  have hlen := congrArg List.length (htext.symm.trans heq)
  simp only [List.length_append, List.length_singleton, Editor.line] at hlen
  omega

theorem Valid.backspace (hv : Valid h size e) (hlen : 0 < e.len) : Edited size e e.backspace := by
  obtain ⟨n, hn⟩ : ∃ n, e.len = n + 1 := ⟨e.len - 1, by omega⟩
  have hline := hv.line
  rw [hn] at hline
  obtain ⟨hkeeps, htext⟩ := hline.backspace
  unfold Editor.backspace
  rw [if_pos hlen, hn, Nat.add_sub_cancel]
  refine ⟨hkeeps, rfl, rfl, rfl, rfl, ?_⟩
  intro heq
  have hshort := congrArg List.length (htext.symm.trans heq)
  rw [Editor.line, hn, hline.length_take, List.length_take, hline.length] at hshort
  have := hline.lt
  omega

/-- **Every key** that does not end the function is Up, is Down, edits the line, or changes nothing. -/
theorem Valid.step_cases (hv : Valid h size e) {key : Key} {e' : Editor} (hstep : (step h size e key).next? = some e') :
    (¬ Edits size e key ∧ (e' = e.up h size ∨ e' = e.down h size ∨ e' = e)) ∨ (Edits size e key ∧ Edited size e e') := by
  unfold step at hstep
  split_ifs at hstep with hend heof hempty hback hesc hup hdown hprint <;> cases hstep
  · -- Ctrl-D behind something
    refine .inl ⟨?_, .inr (.inr rfl)⟩
    rw [Edits, heof]
    simp [isPrint]
  · rcases Nat.eq_zero_or_pos e.len with hlen | hlen
    · refine .inl ⟨?_, .inr (.inr (if_neg (Nat.not_lt.2 hlen.le)))⟩
      rcases hback with hback | hback <;> simp [Edits, hback, isPrint, hlen]
    · exact .inr ⟨.inr ⟨hback, hlen⟩, hv.backspace hlen⟩
  · exact .inl ⟨by simp [Edits, hesc, isPrint], .inl rfl⟩
  · exact .inl ⟨by simp [Edits, hesc, isPrint], .inr (.inl rfl)⟩
  · exact .inl ⟨by simp [Edits, hesc, isPrint], .inr (.inr rfl)⟩
  · by_cases hroom : e.len + 1 < size
    · exact .inr ⟨.inl ⟨hprint, hroom⟩, hv.append hroom hprint⟩
    · exact .inl ⟨by simp [Edits, hback, hroom], .inr (.inr (if_neg hroom))⟩
  · exact .inl ⟨by simp [Edits, hback, hprint], .inr (.inr rfl)⟩

theorem Valid.step (hv : Valid h size e) {key : Key} {e' : Editor} (hstep : (step h size e key).next? = some e') :
    Valid h size e' := by
  rcases hv.step_cases hstep with ⟨-, rfl | rfl | rfl⟩ | ⟨-, hedited⟩
  · rcases hv.up with ⟨-, hsame⟩ | hgone
    · rwa [hsame]
    · exact hgone.valid
  · rcases hv.down with ⟨-, hsame⟩ | hgone
    · rwa [hsame]
    · exact hgone.valid
  · exact hv
  · exact hv.edited hedited

/-- Enter ends the line inside the buffer. -/
theorem Valid.newline (hv : Valid h size e) : (e.newline size).Terminated size := by
  have hlength := hv.line.length
  have hlt := hv.line.lt
  unfold Editor.newline
  by_cases hroom : e.len + 1 < size
  · rw [if_pos hroom]
    have hset : e.len + 1 < (e.buf.set e.len '\n').length := by
      rw [List.length_set, hlength]
      exact hroom
    exact ⟨by simpa using hlength, hroom, List.getElem?_set_self hset⟩
  · rw [if_neg hroom]
    exact ⟨by simpa using hlength, hlt, List.getElem?_set_self (by omega)⟩

/-- After every key the line is terminated, also where the function returns. -/
theorem Valid.terminated (hv : Valid h size e) (key : Key) : (Input.step h size e key).editor.Terminated size := by
  cases hstep : Input.step h size e key with
  | more e' => exact (hv.step (by rw [hstep]; rfl)).line.terminated
  | done rc e' =>
    unfold Input.step at hstep
    split_ifs at hstep <;> cases hstep
    · exact hv.newline
    · exact hv.line.terminated

end Step

/-! ## Up and down again -/

def UP : Key := ⟨'\x1b', ['[', 'A']⟩

def DOWN : Key := ⟨'\x1b', ['[', 'B']⟩

/-- The editor after a key. -/
def press (h : History) (size : Nat) (key : Key) (e : Editor) : Editor := (step h size e key).editor

/-- From the line, Up any number of times and Down until the cursor is back lead to the line as it was; and enough
times Down lead back. -/
def Restores (h : History) (size : Nat) (e : Editor) : Prop :=
  e.OnLine h → ∀ k, (∃ d, ((press h size DOWN)^[d] ((press h size UP)^[k] e)).OnLine h) ∧
    ∀ d, ((press h size DOWN)^[d] ((press h size UP)^[k] e)).OnLine h →
      ((press h size DOWN)^[d] ((press h size UP)^[k] e)).line = e.line

section Trip

variable {h : History} {size : Nat} {e : Editor}

theorem press_up : press h size UP e = e.up h size := rfl

theorem press_down : press h size DOWN e = e.down h size := rfl

/-- A copy of the text is kept, or the text is in the line. -/
structure Tripping (h : History) (size : Nat) (text : Text) (e : Editor) : Prop where
  valid : Valid h size e
  saved : e.haveScratch = true → e.saved = text
  line : e.OnLine h → e.line = text

theorem Tripping.up {text : Text} (ht : Tripping h size text e) : Tripping h size text (press h size UP e) := by
  rw [press_up]
  rcases ht.valid.up with ⟨-, hsame⟩ | hgone
  · rwa [hsame]
  refine ⟨hgone.valid, ?_, ?_⟩
  · intro _
    rw [hgone.saved]
    cases hhave : e.haveScratch with
    | true => exact ht.saved hhave
    | false =>
      -- without a copy the cursor has not left the line
      apply ht.line
      by_contra haway
      have := ht.valid.away (Nat.lt_of_le_of_ne ht.valid.index haway)
      rw [hhave] at this
      cases this
  · intro honLine
    exact absurd honLine (hgone.not_onLine ht.valid)

theorem Tripping.down {text : Text} (ht : Tripping h size text e) : Tripping h size text (press h size DOWN e) := by
  rw [press_down]
  rcases ht.valid.down with ⟨-, hsame⟩ | hgone
  · rwa [hsame]
  have hsaved := ht.saved hgone.haveScratch.1
  refine ⟨hgone.valid, ?_, ?_⟩
  · intro _
    rw [hgone.saved, hsaved]
  · intro honLine
    rw [hgone.line honLine, hsaved]

theorem Tripping.iterate {text : Text} {key : Key}
    (hkey : ∀ e, Tripping h size text e → Tripping h size text (press h size key e)) (ht : Tripping h size text e)
    (n : Nat) : Tripping h size text ((press h size key)^[n] e) := by
  induction n with
  | zero => exact ht
  | succ n ih =>
    rw [Function.iterate_succ_apply']
    exact hkey _ ih

/-- Down leads back to the line. -/
theorem Valid.back (hv : Valid h size e) : ∃ d, ((press h size DOWN)^[d] e).OnLine h := by
  obtain ⟨n, hn⟩ := Nat.exists_eq_add_of_le hv.index
  induction n generalizing e with
  | zero => exact ⟨0, hn.symm⟩
  | succ n ih =>
    rcases hv.down with ⟨honLine, -⟩ | hgone
    · exact ⟨0, honLine⟩
    · have hn' : h.lines.length = (e.down h size).historyIndex + n := by
        rw [hn, hgone.index]
        omega
      obtain ⟨d, hd⟩ := ih hgone.valid hn'
      exact ⟨d + 1, hd⟩

theorem Valid.ups (hv : Valid h size e) (k : Nat) : Valid h size ((press h size UP)^[k] e) := by
  induction k with
  | zero => exact hv
  | succ k ih =>
    rw [Function.iterate_succ_apply']
    have hstep : (Input.step h size ((press h size UP)^[k] e) UP).next? =
      some (press h size UP ((press h size UP)^[k] e)) := rfl
    exact ih.step hstep

/-- **From the line the way up and down restores it** exactly when a copy that is there is one of it. -/
theorem restores_iff (hv : Valid h size e) :
    Restores h size e ↔ (e.OnLine h → e.haveScratch = true → e.saved = e.line) := by
  constructor
  · intro hrestores honLine hhave
    obtain ⟨hne, -⟩ := hv.saved hhave
    -- once up and once down
    rcases hv.up with ⟨hzero, -⟩ | hup
    · rw [honLine] at hzero
      omega
    rcases hup.valid.down with ⟨haway, -⟩ | hdown
    · have hindex := hup.index
      rw [haway, honLine] at hindex
      omega
    have hback : ((e.up h size).down h size).OnLine h := by
      rw [Editor.OnLine, hdown.index, hup.index, honLine]
    have hline := (hrestores honLine 1).2 1 hback
    change ((e.up h size).down h size).line = e.line at hline
    rw [← hline, hdown.line hback, hup.saved, hhave, if_pos rfl]
  · intro hcopy honLine k
    have ht : Tripping h size e.line e := ⟨hv, hcopy honLine, fun _ => rfl⟩
    refine ⟨(hv.ups k).back, ?_⟩
    intro d hback
    exact ((ht.iterate (fun _ => Tripping.up) k).iterate (fun _ => Tripping.down) d).line hback

end Trip

/-! ## All keys -/

/-- The passes of the loop, from whatever stands in the two arrays. -/
def editing (h : History) (size : Nat) : System Editor Key :=
  .ofStep (fun e => ∃ buf scratch : Text, buf.length = size ∧ scratch.length = size ∧ e = .start h buf scratch)
    fun e key => (step h size e key).next?

/-- The function returns from the end of a run, at a key or where no key is read. -/
theorem edit_of_run {h : History} {size : Nat} {tr : List (Editor × Key)} {e : Editor}
    (hrun : (editing h size).Run tr e) (keys : List Key) : ∃ tr' e', (editing h size).Run tr' e' ∧
      (edit h size e keys = (0, e') ∨ ∃ key rc, step h size e' key = .done rc (edit h size e keys).2) := by
  induction keys generalizing tr e with
  | nil => exact ⟨tr, e, hrun, .inl rfl⟩
  | cons key keys ih =>
    rw [edit]
    cases hstep : step h size e key with
    | more e' => exact ih (hrun.step (congrArg Outcome.next? hstep))
    | done rc e' => exact ⟨tr, e, hrun, .inr ⟨key, rc, hstep⟩⟩

/-- The key does not edit the line while there is a copy. -/
def Untouched (h : History) (size : Nat) (e : Editor) (key : Key) : Prop :=
  ¬ (e.OnLine h ∧ e.haveScratch = true ∧ Edits size e key)

instance (h : History) (e : Editor) : Decidable (e.OnLine h) := inferInstanceAs (Decidable (_ = _))

instance (size : Nat) (e : Editor) (key : Key) : Decidable (Edits size e key) := inferInstanceAs (Decidable (_ ∨ _))

instance (h : History) (size : Nat) (e : Editor) (key : Key) : Decidable (Untouched h size e key) :=
  inferInstanceAs (Decidable (¬ _))

section Runs

variable {h : History} {size : Nat}

theorem valid_of_run (hsize : 0 < size) {tr : List (Editor × Key)} {e : Editor} (hrun : (editing h size).Run tr e) :
    Throughout (Valid h size) tr e := by
  apply hrun.throughout
  · rintro _ ⟨buf, scratch, hbuf, hscratch, rfl⟩
    exact valid_start hsize hbuf hscratch
  · intro e key e' hv hstep
    exact hv.step hstep

/-- On the line, the copy that is there is one of it. -/
def Fresh (h : History) (size : Nat) (e : Editor) : Prop :=
  Valid h size e ∧ (e.OnLine h → e.haveScratch = true → e.saved = e.line)

theorem Fresh.step {e e' : Editor} {key : Key} (hfresh : Fresh h size e) (hkey : Untouched h size e key)
    (hstep : (step h size e key).next? = some e') : Fresh h size e' := by
  obtain ⟨hv, hcopy⟩ := hfresh
  refine ⟨hv.step hstep, ?_⟩
  rcases hv.step_cases hstep with ⟨-, rfl | rfl | rfl⟩ | ⟨hedits, hedited⟩
  · rcases hv.up with ⟨-, hsame⟩ | hgone
    · rwa [hsame]
    · intro honLine
      exact absurd honLine (hgone.not_onLine hv)
  · rcases hv.down with ⟨-, hsame⟩ | hgone
    · rwa [hsame]
    · intro honLine _
      rw [hgone.line honLine, hgone.saved]
  · exact hcopy
  · intro honLine hhave
    rw [Editor.OnLine, hedited.historyIndex] at honLine
    rw [hedited.haveScratch] at hhave
    exact absurd ⟨honLine, hhave, hedits⟩ hkey

/-- Where the line is edited while there is a copy, it is not restored. -/
theorem not_restores_of_edited {e e' : Editor} {key : Key} (hfresh : Fresh h size e) (hkey : ¬ Untouched h size e key)
    (hstep : (step h size e key).next? = some e') : ¬ Restores h size e' := by
  obtain ⟨hv, hcopy⟩ := hfresh
  obtain ⟨honLine, hhave, hedits⟩ := not_not.1 hkey
  rcases hv.step_cases hstep with ⟨hnot, -⟩ | ⟨-, hedited⟩
  · exact absurd hedits hnot
  rw [restores_iff (hv.step hstep)]
  intro hcopy'
  apply hedited.changed
  rw [← hcopy honLine hhave, ← hcopy' (by rw [Editor.OnLine, hedited.historyIndex]; exact honLine)
    (by rw [hedited.haveScratch]; exact hhave), Editor.saved, Editor.saved, hedited.room, hedited.scratchLen]

/-- Whatever the keys, the line ends inside the buffer when the function returns. -/
theorem terminated_of_edit {buf scratch : Text} (hsize : 0 < size) (hbuf : buf.length = size)
    (hscratch : scratch.length = size) (keys : List Key) :
    (edit h size (.start h buf scratch) keys).2.Terminated size := by
  have hstart : (editing h size).Run [] (.start h buf scratch) := .start ⟨buf, scratch, hbuf, hscratch, rfl⟩
  obtain ⟨tr, e, hrun, hends⟩ := edit_of_run hstart keys
  have hv := (valid_of_run hsize hrun).1
  rcases hends with hread | ⟨key, rc, hdone⟩
  · rw [hread]
    exact hv.line.terminated
  · have hterminated := hv.terminated key
    rwa [hdone] at hterminated

/-- The buffer keeps its size, and with 1 the caller gets a terminated text. -/
theorem cliInputReadline_text (tty raw : Bool) {buf scratch : Text} (calls : List Text)
    (hscratch : scratch.length = buf.length) :
    (cliInputReadline tty raw h buf scratch calls).2.length = buf.length ∧
      ((cliInputReadline tty raw h buf scratch calls).1 = 1 →
        '\x00' ∈ (cliInputReadline tty raw h buf scratch calls).2) := by
  have hunchanged (rc : Int) (hrc : rc ≠ 1) : buf.length = buf.length ∧ (rc = 1 → '\x00' ∈ buf) :=
    ⟨rfl, fun h => absurd h hrc⟩
  unfold cliInputReadline fgets
  split_ifs with hsize htty hone hempty hraw
  · exact hunchanged (-1) (by decide)
  · exact ⟨hone.symm, fun _ => List.mem_singleton_self _⟩
  · exact hunchanged 0 (by decide)
  · obtain ⟨hlength, hnul⟩ := store_copy (Nat.pos_of_ne_zero hsize) _
    exact ⟨hlength, fun _ => hnul⟩
  · exact hunchanged (-1) (by decide)
  · have hterminated := terminated_of_edit (h := h) (Nat.pos_of_ne_zero hsize) rfl hscratch (readKeys calls)
    exact ⟨hterminated.length, fun _ => List.mem_of_getElem? hterminated.nul⟩

/-- **The line editor.** The line always ends inside the buffer, also where the function returns; and in a run every way
up and down from the line restores it, exactly when no key edits the line while there is a copy. -/
theorem trips_restore_iff (h : History) {size : Nat} (hsize : 0 < size) :
    (∀ (buf scratch : Text) (calls : List Text), buf.length = size → scratch.length = size →
      (edit h size (.start h buf scratch) (readKeys calls)).2.Terminated size) ∧
    ∀ tr e, (editing h size).Run tr e →
      Throughout (Editor.Terminated size) tr e ∧ (∀ key, (step h size e key).editor.Terminated size) ∧
        (Throughout (Restores h size) tr e ↔ Meets (Untouched h size) tr) := by
  refine ⟨?_, ?_⟩
  · intro buf scratch calls hbuf hscratch
    exact terminated_of_edit hsize hbuf hscratch _
  · intro tr e hrun
    have hvalid := valid_of_run hsize hrun
    refine ⟨⟨hvalid.1.line.terminated, fun p hp => (hvalid.2 p hp).line.terminated⟩, hvalid.1.terminated, ?_⟩
    apply System.Run.holds_iff (I := Fresh h size) ?_ ?_ ?_ ?_ hrun
    · rintro _ ⟨buf, scratch, hbuf, hscratch, rfl⟩
      exact ⟨valid_start hsize hbuf hscratch, fun _ hhave => by cases hhave⟩
    · intro e key e' hfresh hkey hstep
      exact hfresh.step hkey hstep
    · intro e hfresh
      exact (restores_iff hfresh.1).2 hfresh.2
    · intro e key e' hfresh hkey hstep
      exact not_restores_of_edited hfresh hkey hstep

end Runs

/-- A history of one command. -/
def oneCommand : History := ⟨["VIEW".toList], by decide, by decide⟩

/-- The variables before the first key, in two arrays of eight blanks. -/
def blank : Editor := .start oneCommand (List.replicate 8 ' ') (List.replicate 8 ' ')

/-- What was typed before the first trip is restored. -/
theorem first_trip_restores : ∃ tr e, (editing oneCommand 8).Run tr e ∧ e.line = ['a'] ∧ e.haveScratch = true ∧
    Throughout (Restores oneCommand 8) tr e := by
  have hstart : (editing oneCommand 8).Run [] blank := .start ⟨_, _, rfl, rfl, rfl⟩
  have hexec : System.exec (fun e key => (step oneCommand 8 e key).next?) [] blank [⟨'a', []⟩, UP, DOWN] =
    some (_, _) := rfl
  have hrun := hstart.exec hexec
  refine ⟨_, _, hrun, by decide, by decide, (((trips_restore_iff oneCommand (by decide)).2 _ _ hrun).2.2).2 ?_⟩
  unfold Meets
  decide

/-- What is typed behind it is not: from the line `ab`, the way up and down leads to `a`. -/
theorem second_trip_forgets : ∃ tr e, (editing oneCommand 8).Run tr e ∧ e.OnLine oneCommand ∧ e.line = ['a', 'b'] ∧
    (press oneCommand 8 DOWN (press oneCommand 8 UP e)).OnLine oneCommand ∧
    (press oneCommand 8 DOWN (press oneCommand 8 UP e)).line = ['a'] ∧ ¬ Restores oneCommand 8 e := by
  have hstart : (editing oneCommand 8).Run [] blank := .start ⟨_, _, rfl, rfl, rfl⟩
  have hexec : System.exec (fun e key => (step oneCommand 8 e key).next?) [] blank [⟨'a', []⟩, UP, DOWN, ⟨'b', []⟩] =
    some (_, _) := rfl
  have hrun := hstart.exec hexec
  refine ⟨_, _, hrun, by decide, by decide, by decide, by decide, ?_⟩
  intro hrestores
  exact absurd ((hrestores (by decide) 1).2 1 (by decide)) (by decide)

end CoWrite.Client.Input
