import CoWrite.Client.Requests
import CoWrite.Ss.Counts

/-!
# Streaming words

`handle_stream` sends a frame for each word, and leaves out a word that is too long for its message. `ss_stream` leaves
out one that is too long for its buffer, a quarter of the message. `stream_delivers_iff` says when all the words of a
text arrive.
-/

namespace CoWrite.Client

open CoWrite.Cluster (isOk isOk_error jsonGetString_status)
open CoWrite.Ss

/-- What the loop of `ss_stream` prints for a frame. -/
inductive Streamed where
  | word (text : Text)
  | done
  | refused
deriving DecidableEq, Repr

/-- The loop of `ss_stream`. -/
def streamLoop : List Text → List Streamed
  | [] => []
  | chunk :: chunks =>
    match jsonGetString chunk (Text.lit "status") 16 with
    | none => streamLoop chunks
    | some status =>
      if status = Text.lit "DATA" then
        match jsonGetString chunk (Text.lit "word") 256 with
        | some word => .word word :: streamLoop chunks
        | none => streamLoop chunks
      else if status = Text.lit "DONE" then [.done]
      else [.refused]

/-- `ss_stream` after it has sent the request. -/
def ssStream : List Text → Option (List Streamed)
  | [] => none
  | response :: chunks => if !isOk response then none else some (streamLoop chunks)

/-- The frame behind the last word. -/
def doneFrame : Text := printMessage [(Text.lit "status", .string (Text.lit "DONE"))]

theorem streamLoop_done (chunks : List Text) : streamLoop (doneFrame :: chunks) = [.done] := by
  have hstatus : jsonGetString doneFrame (Text.lit "status") 16 = some (Text.lit "DONE") := by decide
  rw [streamLoop, hstatus]
  dsimp only
  rw [if_neg (by decide), if_pos rfl]

/-- A word is printed if it is shorter than the client's buffer. -/
theorem streamLoop_frame (word : Text) (chunks : List Text) :
    streamLoop (streamFrame word :: chunks) =
      (if word.length < 256 then [.word word] else []) ++ streamLoop chunks := by
  have hstatus : jsonGetString (streamFrame word) (Text.lit "status") 16 = some (Text.lit "DATA") :=
    jsonGetString_status _ (by decide) (by decide) _
  have hpre : WellFormed [(Text.lit "status", .string (Text.lit "DATA"))] := by
    intro f hf
    cases List.mem_singleton.1 hf
    decide
  obtain ⟨rest, hword⟩ := exists_jsonGetString (show IsKey (Text.lit "word") by decide) (by decide) (n := 256) (by decide)
    hpre (by simp [NoString, Text.lit]) (jsonEscape word) []
  obtain ⟨hescaped, hunescape⟩ := escaped_jsonEscape word
  rw [scanString_escaped hescaped, hunescape] at hword
  rw [streamLoop, hstatus]
  dsimp only
  rw [if_pos rfl, streamFrame]
  rw [List.singleton_append] at hword
  rw [hword]
  by_cases hlen : word.length < 256
  · rw [if_pos (by omega), if_pos hlen]
    rfl
  · rw [if_neg (by omega), if_neg hlen]
    rfl

/-- The words that arrive, from the one with index `i` on. -/
def deliveredWords (env : DataEnv) : Nat → List Text → List Text
  | _, [] => []
  | i, word :: words =>
    if env.wordEscaped i = true ∧ word.length < 256 then word :: deliveredWords env (i + 1) words
    else deliveredWords env (i + 1) words

theorem length_streamFrame (word : Text) : (streamFrame word).length = (jsonEscape word).length + 27 := by
  simp [streamFrame, printMessage, printFields, printField, Value.print, Text.lit]

/-- The client prints the words that arrive. -/
theorem streamLoop_words {env : DataEnv} (hsent : ∀ n, env.sent n = true) (n i : Nat) (words chunks : List Text) :
    streamLoop (streamWords env n i words ++ chunks) = (deliveredWords env i words).map .word ++ streamLoop chunks := by
  induction words generalizing n i with
  | nil => rfl
  | cons word words ih =>
    unfold streamWords deliveredWords
    cases hescaped : env.wordEscaped i with
    | false => simpa [hescaped] using ih n (i + 1)
    | true =>
      rw [Bool.not_true, if_neg Bool.false_ne_true]
      by_cases hlong : (streamFrame word).length ≥ 1024
      · have hword : ¬ word.length < 256 := by
          have := Nm.length_jsonEscape_le word
          rw [length_streamFrame] at hlong
          omega
        rw [if_pos hlong, if_neg (fun h => hword h.2)]
        exact ih n (i + 1)
      · rw [if_neg hlong, hsent n, if_pos rfl, List.cons_append, streamLoop_frame, ih (n + 1) (i + 1)]
        by_cases hword : word.length < 256
        · rw [if_pos hword, if_pos ⟨rfl, hword⟩]
          rfl
        · rw [if_neg hword, if_neg (fun h => hword h.2)]
          rfl

theorem length_deliveredWords_le (env : DataEnv) (i : Nat) (words : List Text) :
    (deliveredWords env i words).length ≤ words.length := by
  induction words generalizing i with
  | nil => exact Nat.le_refl _
  | cons word words ih =>
    have := ih (i + 1)
    unfold deliveredWords
    split
    · simpa using this
    · exact this.trans (Nat.le_succ _)

/-- All the words arrive if every one of them is escaped and short. -/
theorem deliveredWords_eq_iff (env : DataEnv) (i : Nat) (words : List Text) :
    deliveredWords env i words = words ↔
      (∀ k < words.length, env.wordEscaped (i + k) = true) ∧ ∀ word ∈ words, word.length < 256 := by
  induction words generalizing i with
  | nil => simp [deliveredWords]
  | cons word words ih =>
    have hindex : (∀ k < (word :: words).length, env.wordEscaped (i + k) = true) ↔
        env.wordEscaped i = true ∧ ∀ k < words.length, env.wordEscaped (i + 1 + k) = true := by
      constructor
      · intro h
        refine ⟨h 0 (by simp), fun k hk => ?_⟩
        rw [Nat.add_assoc, Nat.add_comm 1 k]
        exact h (k + 1) (by simpa using hk)
      · rintro ⟨hfirst, h⟩ k hk
        cases k with
        | zero => exact hfirst
        | succ k =>
          rw [Nat.add_comm k 1, ← Nat.add_assoc]
          exact h k (by simpa using hk)
    rw [hindex, List.forall_mem_cons]
    unfold deliveredWords
    split
    · next h =>
      rw [List.cons.injEq, ih (i + 1)]
      exact ⟨fun h' => ⟨⟨h.1, h'.2.1⟩, h.2, h'.2.2⟩, fun h' => ⟨rfl, h'.1.2, h'.2.2⟩⟩
    · next h =>
      refine iff_of_false ?_ fun h' => h ⟨h'.1.1, h'.2.1⟩
      intro heq
      have := length_deliveredWords_le env (i + 1) words
      rw [heq, List.length_cons] at this
      omega

/-- The fields of the opening reply fit both buffers. -/
theorem length_streamExtra {n : Nat} (h : n < 2 ^ 64) : (streamExtra n).length ≤ 50 := by
  have := length_printNat_le (k := 20) (by decide) (h.trans (by decide))
  simp [streamExtra, printFields, printField, Value.print, Text.lit]
  omega

theorem isOk_streamExtra {n : Nat} (h : n < 2 ^ 64) : ∃ response, sendOk (streamExtra n) = [response] ∧ isOk response = true := by
  refine ⟨printMessage ((Text.lit "status", .string (Text.lit "OK")) ::
    [(Text.lit "mode", .string (Text.lit "STREAM")), (Text.lit "words", .number (printNat n))]), ?_, ?_⟩
  · have hlen := length_streamExtra h
    rw [streamExtra] at hlen ⊢
    rw [sendOk_printFields (by simp), if_pos (by unfold MAX_JSON; omega)]
  · have hstatus : jsonGetString (printMessage ((Text.lit "status", .string (Text.lit "OK")) ::
        [(Text.lit "mode", .string (Text.lit "STREAM")), (Text.lit "words", .number (printNat n))]))
        (Text.lit "status") 16 = some (Text.lit "OK") :=
      jsonGetString_status _ (by decide) (by decide) _
    unfold isOk
    rw [hstatus]
    rfl

/-- The client prints the words and the end, and the opening reply has announced as many. -/
def Delivers (frames words : List Text) : Prop :=
  ∃ response chunks, frames = response :: chunks ∧ response ∈ sendOk (streamExtra words.length) ∧
    ssStream frames = some (words.map .word ++ [.done])

/-- A request that is refused delivers nothing. -/
theorem not_delivers_error (code : ErrorCode) (message : Text) (words : List Text) :
    ¬ Delivers (sendErrorResponse code message) words := by
  rintro ⟨response, chunks, hframes, -, hstream⟩
  rw [hframes, ssStream] at hstream
  unfold sendErrorResponse at hframes
  dsimp only at hframes
  split at hframes
  · cases hframes
  · cases hframes
    rw [isOk_error] at hstream
    cases hstream

section Frames

variable {env : DataEnv} (hsent : ∀ n, env.sent n = true) {loaded words : List Text}

include hsent

theorem ssStream_frames (hcount : loaded.length < 2 ^ 64) :
    ∃ response, sendOk (streamExtra loaded.length) = [response] ∧
      ssStream (response :: (streamWords env 1 0 loaded ++ [doneFrame])) =
        some ((deliveredWords env 0 loaded).map .word ++ [.done]) := by
  obtain ⟨response, hresponse, hok⟩ := isOk_streamExtra hcount
  refine ⟨response, hresponse, ?_⟩
  rw [ssStream, hok, Bool.not_true, if_neg Bool.false_ne_true, streamLoop_words hsent, streamLoop_done]

/-- The frames deliver the words that arrive. -/
theorem delivers_frames_iff (hcount : loaded.length < 2 ^ 64) (hlen : deliveredWords env 0 loaded = words → loaded.length = words.length) :
    Delivers (sendOk (streamExtra loaded.length) ++ streamWords env 1 0 loaded ++ [doneFrame]) words ↔
      deliveredWords env 0 loaded = words := by
  obtain ⟨response, hresponse, hstream⟩ := ssStream_frames hsent hcount
  have hframes : sendOk (streamExtra loaded.length) ++ streamWords env 1 0 loaded ++ [doneFrame] =
      response :: (streamWords env 1 0 loaded ++ [doneFrame]) := by
    rw [hresponse]
    rfl
  constructor
  · rintro ⟨-, -, -, -, hshown⟩
    rw [hframes, hstream] at hshown
    have hwords := List.append_cancel_right (Option.some.inj hshown)
    exact List.map_injective_iff.2 (fun _ _ h => Streamed.word.inj h) hwords
  · intro heq
    refine ⟨response, _, hframes, ?_, ?_⟩
    · rw [← hlen heq, hresponse]
      exact List.mem_singleton_self _
    · rw [hframes, hstream, heq]

/-- What is sent of a text that was loaded and split. -/
theorem handleStream_frames {srv : Server} {fileName text : Text} {view : SsFile} (user : Text)
    (hview : (ssStateFind srv.state fileName).1 = some view)
    (hcurrent : currentText env.toEnv srv.fs view.dataPath = some text) (hallocated : env.allocated = true)
    (hcount : (splitWords text).length < 2 ^ 64) :
    (handleStream env srv fileName user).2.client =
      sendOk (streamExtra (splitWords text).length) ++ streamWords env 1 0 (splitWords text) ++ [doneFrame] := by
  have hextra := length_streamExtra hcount
  unfold handleStream
  rw [hview]
  dsimp only
  rw [hcurrent]
  dsimp only
  rw [hallocated, Bool.not_true, if_neg Bool.false_ne_true, if_neg (by omega), hsent 0, Bool.not_true,
    if_neg Bool.false_ne_true]
  rfl

end Frames

/-- What is loaded of a file that has a text: the text, or an empty copy, or nothing. -/
theorem currentText_of_text {env : Env} {fs : Fs} {path text : Text} (htext : fs path = some text) :
    currentText env fs path = if env.dataLoad then some text else if env.dup then some [] else none := by
  unfold currentText loadText
  cases env.dataLoad with
  | true => rw [if_pos rfl, htext, if_pos rfl]
  | false => rfl

/-- **When a stream delivers its text**: it could be loaded and split, and each of its words could be escaped and is
shorter than 256 characters. -/
theorem stream_delivers_iff {env : DataEnv} {srv : Server} {fileName : Text} {view : SsFile} {text : Text} (user : Text)
    (hsent : ∀ n, env.sent n = true) (hview : (ssStateFind srv.state fileName).1 = some view)
    (htext : srv.fs view.dataPath = some text) (hsize : text.length < 2 ^ 64) :
    Delivers (handleStream env srv fileName user).2.client (splitWords text) ↔
      (env.dataLoad = true ∨ env.dup = true ∧ splitWords text = []) ∧ env.allocated = true ∧
        (∀ i < (splitWords text).length, env.wordEscaped i = true) ∧ ∀ word ∈ splitWords text, word.length < 256 := by
  have hloads := @currentText_of_text env.toEnv srv.fs view.dataPath text htext
  cases hcurrent : currentText env.toEnv srv.fs view.dataPath with
  | none =>
    have hframes : (handleStream env srv fileName user).2.client =
        sendErrorResponse .INTERNAL (Text.lit "stream failed") := by
      unfold handleStream
      rw [hview]
      dsimp only
      rw [hcurrent]
    rw [hframes]
    refine iff_of_false (not_delivers_error _ _ _) ?_
    rw [hcurrent] at hloads
    rintro ⟨hdata | ⟨hdup, -⟩, -⟩
    · rw [if_pos hdata] at hloads
      cases hloads
    · rw [if_pos hdup] at hloads
      split at hloads
      · cases hloads
      · cases hloads
  | some loaded =>
    cases hallocated : env.allocated with
    | false =>
      have hframes : (handleStream env srv fileName user).2.client =
          sendErrorResponse .INTERNAL (Text.lit "tokenize failed") := by
        unfold handleStream
        rw [hview]
        dsimp only
        rw [hcurrent]
        dsimp only
        rw [hallocated, Bool.not_false, if_pos rfl]
      rw [hframes]
      refine iff_of_false (not_delivers_error _ _ _) ?_
      rintro ⟨-, h, -⟩
      cases h
    | true =>
      have hloaded : env.dataLoad = true ∧ loaded = text ∨ env.dataLoad = false ∧ env.dup = true ∧ loaded = [] := by
        rw [hcurrent] at hloads
        cases hdata : env.dataLoad with
        | true =>
          rw [hdata, if_pos rfl] at hloads
          exact .inl ⟨rfl, Option.some.inj hloads⟩
        | false =>
          rw [hdata, if_neg Bool.false_ne_true] at hloads
          obtain ⟨hdup, hnil⟩ := Option.ite_none_right_eq_some.1 hloads.symm
          exact .inr ⟨rfl, hdup, (Option.some.inj hnil).symm⟩
      have hcount : (splitWords loaded).length < 2 ^ 64 := by
        rw [length_splitWords]
        refine Nat.lt_of_le_of_lt (countWords_le loaded) ?_
        rcases hloaded with ⟨-, rfl⟩ | ⟨-, -, rfl⟩
        · exact hsize
        · decide
      rw [handleStream_frames hsent user hview hcurrent hallocated hcount]
      rcases hloaded with ⟨hdata, rfl⟩ | ⟨hdata, hdup, rfl⟩
      · refine (delivers_frames_iff hsent hcount fun _ => rfl).trans ((deliveredWords_eq_iff env 0 _).trans ?_)
        simp [hdata]
      · -- nothing was loaded, and nothing is sent but the end
        have hnil : splitWords [] = [] := rfl
        rw [hnil] at hcount ⊢
        refine (delivers_frames_iff hsent hcount fun h => congrArg List.length h).trans ?_
        constructor
        · intro h
          rw [← h]
          simp [deliveredWords, hdup]
        · rintro ⟨h | ⟨-, h⟩, -⟩
          · rw [hdata] at h
            cases h
          · rw [h]
            rfl

/-- A server with one file. -/
def oneFile (text : Text) : Server :=
  let state := ssStateInit (Text.lit "/s")
  { state := { state with files := [newFile state (Text.lit "f") (Text.lit "alice") 0] }
    fs := fun path => if path = Text.lit "/s/files/f" then some text else none
    tickets := [] }

theorem stream_delivers_two :
    Delivers (handleStream (.allOk 0) (oneFile (Text.lit "Two words")) (Text.lit "f") (Text.lit "bob")).2.client
      [Text.lit "Two", Text.lit "words"] := by
  have hview : (ssStateFind (oneFile (Text.lit "Two words")).state (Text.lit "f")).1 =
      some (newFile (ssStateInit (Text.lit "/s")) (Text.lit "f") (Text.lit "alice") 0) := by decide
  have htext : (oneFile (Text.lit "Two words")).fs
      (newFile (ssStateInit (Text.lit "/s")) (Text.lit "f") (Text.lit "alice") 0).dataPath = some (Text.lit "Two words") := by
    decide
  exact (stream_delivers_iff (Text.lit "bob") (fun _ => rfl) hview htext (by decide)).2
    ⟨.inl rfl, rfl, fun _ _ => rfl, by decide⟩

/-- A word that fills the client's buffer does not arrive. -/
theorem long_word_lost : let text := List.replicate 256 'a'
    ¬ Delivers (handleStream (.allOk 0) (oneFile text) (Text.lit "f") (Text.lit "bob")).2.client (splitWords text) := by
  intro text
  have hview : (ssStateFind (oneFile text).state (Text.lit "f")).1 =
      some (newFile (ssStateInit (Text.lit "/s")) (Text.lit "f") (Text.lit "alice") 0) := by decide
  have hcurrent : currentText (Env.allOk 0) (oneFile text).fs
      (newFile (ssStateInit (Text.lit "/s")) (Text.lit "f") (Text.lit "alice") 0).dataPath = some text := rfl
  have hsent : ∀ n, (DataEnv.allOk 0).sent n = true := fun _ => rfl
  have hcount : (splitWords text).length < 2 ^ 64 := by
    rw [length_splitWords]
    exact Nat.lt_of_le_of_lt (countWords_le text) (by rw [List.length_replicate]; decide)
  rw [handleStream_frames hsent (Text.lit "bob") hview hcurrent rfl hcount,
    delivers_frames_iff hsent hcount fun _ => rfl, deliveredWords_eq_iff]
  rintro ⟨-, hshort⟩
  exact absurd hshort (by decide +kernel)

end CoWrite.Client
