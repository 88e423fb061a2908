import CoWrite.Lib.Frames
import CoWrite.Lib.Runs
import CoWrite.Ss.Client

/-!
# The connection that the threads share

The main thread replies to commands and the threads of the clients report their updates on one connection
to the name manager. `net_send_json` is two calls of `send_all`, the length and then the text, and no lock
covers both: the header of one frame can come between the header and the text of another.

* `Wire.reads_iff`: when every call has returned, the stream is read as the frames that were sent exactly
  when no call wrote its header inside the frame of another.
* `Wire.torn_reply`: a report inside a reply, and the stream is not read as the two.
-/

namespace CoWrite.Ss

open CoWrite.Lib

/-! ## Frames on the connection -/

/-- The bytes of `htonl`. -/
def htonl (n : Nat) : Text :=
  [Char.ofNat (n / 2 ^ 24 % 256), Char.ofNat (n / 2 ^ 16 % 256), Char.ofNat (n / 2 ^ 8 % 256), Char.ofNat (n % 256)]

def ntohl (bytes : Text) : Nat := bytes.foldl (fun n c => n * 256 + c.toNat) 0

theorem toNat_ofNat_byte {n : Nat} (h : n < 256) : (Char.ofNat n).toNat = n := by
  have hv : n.isValidChar := .inl (by omega)
  rw [Char.ofNat, dif_pos hv]
  rfl

theorem ntohl_htonl {n : Nat} (h : n < 2 ^ 32) : ntohl (htonl n) = n := by
  simp only [htonl, ntohl, List.foldl_cons, List.foldl_nil]
  rw [toNat_ofNat_byte (Nat.mod_lt _ (by decide)), toNat_ofNat_byte (Nat.mod_lt _ (by decide)),
    toNat_ofNat_byte (Nat.mod_lt _ (by decide)), toNat_ofNat_byte (Nat.mod_lt _ (by decide))]
  omega

/-- How `net_send_json` and `net_recv_json` write lengths. -/
def netCoding : Coding Char where
  width := 4
  header := htonl
  size := ntohl
  limit := 2 ^ 32
  length_header _ := rfl
  size_header _ h := ntohl_htonl h

/-- `recv_all` of `len` bytes, from a stream that ends where the list does. -/
def recvAll (stream : Text) (len : Nat) : Option (Text × Text) :=
  if stream.length < len then none else some (stream.take len, stream.drop len)

/-- `net_recv_json`, with memory for the text. -/
def netRecvJson (stream : Text) : Option (Text × Text) :=
  (recvAll stream 4).bind fun (lenBe, stream) => recvAll stream (ntohl lenBe)

theorem netRecvJson_eq (stream : Text) : netRecvJson stream = netCoding.next stream := rfl

/-- The stream is used up by calls of `net_recv_json` that return these texts. -/
abbrev Received : Text → List Text → Prop := netCoding.Reads

/-! ## Threads that send -/

/-- What the callers of `net_send_json` pass: an object they formatted in a buffer of `MAX_JSON`, as a C
string. -/
structure Sendable (json : Text) : Prop where
  ne_nil : json ≠ []
  length : json.length < MAX_JSON
  nul : '\x00' ∉ json

instance (json : Text) : Decidable (Sendable json) :=
  decidable_of_iff (json ≠ [] ∧ json.length < MAX_JSON ∧ '\x00' ∉ json)
    ⟨fun h => ⟨h.1, h.2.1, h.2.2⟩, fun h => ⟨h.ne_nil, h.length, h.nul⟩⟩

theorem Sendable.mod_length {json : Text} (h : Sendable json) : json.length % 2 ^ 32 = json.length := by
  have hlen : json.length < 4096 := h.length
  exact Nat.mod_eq_of_lt (by omega)

section Senders

theorem nul_not_mem_printNat (n : Nat) : '\x00' ∉ printNat n := by
  intro h
  exact absurd (isDigit_of_mem_printNat h) (by decide)

theorem nul_not_mem_printInt (z : Int) : '\x00' ∉ printInt z := by
  cases z with
  | ofNat n => exact nul_not_mem_printNat n
  | negSucc n =>
    rw [printInt, List.mem_cons, not_or]
    exact ⟨by decide, nul_not_mem_printNat (n + 1)⟩

theorem nul_not_mem_jsonEscape {v : Text} (h : '\x00' ∉ v) : '\x00' ∉ jsonEscape v := by
  intro hmem
  obtain ⟨c, hc, hmem⟩ := List.mem_flatMap.1 hmem
  by_cases hspecial : c ∈ ['"', '\\', '\n', '\r', '\t']
  · simp only [List.mem_cons, List.not_mem_nil, or_false] at hspecial
    rcases hspecial with rfl | rfl | rfl | rfl | rfl <;> simp [escapeChar] at hmem
  · rw [escapeChar_of_ne hspecial, List.mem_singleton] at hmem
    exact h (hmem ▸ hc)

theorem nul_not_mem_printMessage {fs : List Field} (h : ∀ f ∈ fs, '\x00' ∉ f.1 ∧ '\x00' ∉ f.2.print) :
    '\x00' ∉ printMessage fs := by
  have hfield : ∀ f ∈ fs, '\x00' ∉ printField f := by
    intro f hf
    simp [printField, h f hf]
  have hfields : '\x00' ∉ printFields fs := by
    clear h
    induction fs with
    | nil => simp [printFields]
    | cons f fs ih =>
      have hf := hfield f List.mem_cons_self
      have hfs := ih fun g hg => hfield g (List.mem_cons_of_mem _ hg)
      cases fs with
      | nil => simpa [printFields] using hf
      | cons g fs =>
        rw [printFields_cons_cons, List.mem_append, List.mem_cons]
        rintro (hmem | hmem | hmem)
        · exact hf hmem
        · cases hmem
        · exact hfs hmem
  simp [printMessage, hfields]

/-- A frame that fits the buffer is sent. -/
theorem sendable_of_fits {buf : Text} (hne : buf ≠ []) (hnul : '\x00' ∉ buf) :
    ∀ json ∈ (if buf.length ≥ MAX_JSON then [] else [buf]), Sendable json := by
  intro json hjson
  split at hjson
  · cases hjson
  · next hlen =>
    rw [List.mem_singleton.1 hjson]
    exact ⟨hne, Nat.lt_of_not_le hlen, hnul⟩

theorem sendable_sendOk {extra : Text} (h : '\x00' ∉ extra) : ∀ json ∈ sendOk extra, Sendable json := by
  refine sendable_of_fits ?_ ?_
  · split <;> simp [Text.lit]
  · split
    · decide
    · simp [Text.lit, h]

theorem sendable_sendErrorResponse (code : ErrorCode) {message : Text} (h : '\x00' ∉ message) :
    ∀ json ∈ sendErrorResponse code message, Sendable json := by
  refine sendable_of_fits (by simp [printMessage]) (nul_not_mem_printMessage ?_)
  have hcode : '\x00' ∉ errorCodeName code := by cases code <;> decide
  simp [errorFields, Value.print, Text.lit, h, hcode]

/-- Every report of an update, on a file whose strings are C strings. -/
theorem sendable_notifyNmFileUpdate {file : SsFile} (hname : '\x00' ∉ file.name) (howner : '\x00' ∉ file.owner)
    (hlast : '\x00' ∉ file.lastAccessUser) : ∀ json ∈ notifyNmFileUpdate file, Sendable json := by
  have hescape {n : Nat} {v e : Text} (hv : '\x00' ∉ v) (he : jsonEscapeString n v = some e) : '\x00' ∉ e := by
    rw [jsonEscapeString] at he
    split at he
    · cases he
      exact nul_not_mem_jsonEscape hv
    · cases he
  unfold notifyNmFileUpdate
  split
  · next name owner last hn ho hl =>
    have h1 := hescape hname hn
    have h2 := hescape howner ho
    have h3 := hescape hlast hl
    refine sendable_of_fits (by simp [printMessage]) (nul_not_mem_printMessage ?_)
    simp [fileUpdateFields, Value.print, Text.lit, h1, h2, h3, nul_not_mem_printNat, nul_not_mem_printInt]
  · intro json hjson
    cases hjson

end Senders

structure Wire where
  /-- The bytes sent, in order. -/
  stream : Text
  /-- What a thread still has to send: its header is sent, its text is not. -/
  pending : Nat → Option Text
  /-- What the calls that returned have sent, latest first. -/
  sent : List Text

/-- The two calls of `send_all` in `net_send_json`. -/
inductive Send where
  | header (thread : Nat) (json : Text)
  | payload (thread : Nat)

namespace Wire

def step (s : Wire) : Send → Option Wire
  | .header thread json =>
    if (s.pending thread).isSome ∨ ¬ Sendable json then none
    else some { s with
      stream := s.stream ++ htonl (json.length % 2 ^ 32)
      pending := Function.update s.pending thread (some json) }
  | .payload thread =>
    (s.pending thread).map fun json =>
      { stream := s.stream ++ json.take (json.length % 2 ^ 32)
        pending := Function.update s.pending thread none
        sent := json :: s.sent }

def Started (s : Wire) : Prop := s.stream = [] ∧ (∀ thread, s.pending thread = none) ∧ s.sent = []

def system : System Wire Send := .ofStep Started step

/-- No other thread is between its header and its text when one sends a header. -/
def Alone (s : Wire) : Send → Prop
  | .header _ _ => ∀ thread, s.pending thread = none
  | .payload _ => True

/-! ## Whole frames -/

/-- Every text that is sent or being sent is `Sendable`. -/
structure Orderly (s : Wire) : Prop where
  sent : ∀ json ∈ s.sent, Sendable json
  pending : ∀ thread json, s.pending thread = some json → Sendable json

/-- The stream is the frames sent, and the header of the call that still has to send its text. -/
inductive Framed (s : Wire) : Prop where
  | idle (hpending : ∀ thread, s.pending thread = none) (hstream : s.stream = netCoding.frames s.sent.reverse)
  | busy (thread : Nat) (json : Text) (hjson : s.pending thread = some json)
      (hpending : ∀ other, other ≠ thread → s.pending other = none)
      (hstream : s.stream = netCoding.frames s.sent.reverse ++ htonl json.length)

/-- Behind the header of some frame there is a byte that no text has. -/
def Torn (s : Wire) : Prop :=
  ∃ texts json rest, (∀ text ∈ texts, Sendable text) ∧ Sendable json ∧
    s.stream = netCoding.frames texts ++ (htonl json.length ++ '\x00' :: rest)

theorem orderly_started {s : Wire} (h : s.Started) : s.Orderly where
  sent json hjson := by
    rw [h.2.2] at hjson
    cases hjson
  pending thread json hjson := by
    rw [h.2.1 thread] at hjson
    cases hjson

theorem framed_started {s : Wire} (h : s.Started) : s.Framed := by
  refine .idle h.2.1 ?_
  rw [h.1, h.2.2]
  rfl

section Step

variable {s t : Wire} {e : Send}

/-- What a step that sends a header does. -/
theorem step_header {thread : Nat} {json : Text} (h : s.step (.header thread json) = some t) :
    s.pending thread = none ∧ Sendable json ∧
      t = { s with
        stream := s.stream ++ htonl json.length, pending := Function.update s.pending thread (some json) } := by
  rw [step] at h
  split at h
  · cases h
  · next hcond =>
    obtain ⟨hfree, hsend⟩ := not_or.1 hcond
    have hsend : Sendable json := not_not.1 hsend
    rw [hsend.mod_length] at h
    exact ⟨by simpa using hfree, hsend, (Option.some.inj h).symm⟩

/-- What a step that sends a text does. -/
theorem step_payload (hs : s.Orderly) {thread : Nat} (h : s.step (.payload thread) = some t) :
    ∃ json, s.pending thread = some json ∧ Sendable json ∧
      t = { stream := s.stream ++ json, pending := Function.update s.pending thread none, sent := json :: s.sent } := by
  obtain ⟨json, hjson, rfl⟩ := Option.map_eq_some_iff.1 h
  have hsend := hs.pending thread json hjson
  refine ⟨json, hjson, hsend, ?_⟩
  rw [hsend.mod_length, List.take_length]

theorem Orderly.step (hs : s.Orderly) (h : s.step e = some t) : t.Orderly := by
  cases e with
  | header thread json =>
    obtain ⟨-, hsend, rfl⟩ := step_header h
    refine ⟨hs.sent, ?_⟩
    intro other json' hjson'
    by_cases ho : other = thread
    · subst ho
      simp only [Function.update_self, Option.some.injEq] at hjson'
      exact hjson' ▸ hsend
    · simp only [Function.update_of_ne ho] at hjson'
      exact hs.pending other json' hjson'
  | payload thread =>
    obtain ⟨json, hjson, hsend, rfl⟩ := step_payload hs h
    constructor
    · intro json' hjson'
      rcases List.mem_cons.1 hjson' with rfl | hmem
      · exact hsend
      · exact hs.sent json' hmem
    · intro other json' hjson'
      by_cases ho : other = thread
      · subst ho
        simp only [Function.update_self] at hjson'
        cases hjson'
      · simp only [Function.update_of_ne ho] at hjson'
        exact hs.pending other json' hjson'

theorem Framed.step (hf : s.Framed) (hs : s.Orderly) (hg : Alone s e) (h : s.step e = some t) : t.Framed := by
  cases e with
  | header thread json =>
    obtain ⟨hfree, -, rfl⟩ := step_header h
    cases hf with
    | busy thread' json' hjson' _ _ =>
      rw [hg thread'] at hjson'
      cases hjson'
    | idle hpending hstream =>
      refine .busy thread json (Function.update_self ..) ?_ ?_
      · intro other ho
        simp only [Function.update_of_ne ho, hpending other]
      · rw [hstream]
  | payload thread =>
    obtain ⟨json, hjson, -, rfl⟩ := step_payload hs h
    cases hf with
    | idle hpending _ =>
      rw [hpending thread] at hjson
      cases hjson
    | busy thread' json' hjson' hpending hstream =>
      have hsame : thread = thread' := by
        by_contra hne
        rw [hpending thread hne] at hjson
        cases hjson
      subst hsame
      cases hjson.symm.trans hjson'
      refine .idle ?_ ?_
      · intro other
        by_cases ho : other = thread
        · simp only [ho, Function.update_self]
        · simp only [Function.update_of_ne ho, hpending other ho]
      · rw [hstream, List.reverse_cons, netCoding.frames_concat, List.append_assoc]
        rfl

/-- A header inside a frame starts with a byte that no text has. -/
theorem torn_of_not_alone (hf : s.Framed) (hs : s.Orderly) (hg : ¬ Alone s e) (h : s.step e = some t) : t.Torn := by
  cases e with
  | payload thread => exact absurd trivial hg
  | header thread json =>
    obtain ⟨-, hsend, rfl⟩ := step_header h
    cases hf with
    | idle hpending _ => exact absurd hpending hg
    | busy thread' json' hjson' _ hstream =>
      have hlen : json.length < 4096 := hsend.length
      have hfirst : htonl json.length = '\x00' :: (htonl json.length).tail := by
        have hzero : json.length / 2 ^ 24 % 256 = 0 := by omega
        rw [htonl, hzero]
        rfl
      refine ⟨s.sent.reverse, json', (htonl json.length).tail, ?_, hs.pending thread' json' hjson', ?_⟩
      · intro text htext
        exact hs.sent text (List.mem_reverse.1 htext)
      · rw [hstream, List.append_assoc, ← hfirst]

/-- The stream only grows. -/
theorem Torn.step (ht : s.Torn) (hs : s.Orderly) (h : s.step e = some t) : t.Torn := by
  obtain ⟨texts, json, rest, htexts, hjson, hstream⟩ := ht
  have hgrow : ∃ more, t.stream = s.stream ++ more := by
    cases e with
    | header thread json' =>
      obtain ⟨-, -, rfl⟩ := step_header h
      exact ⟨_, rfl⟩
    | payload thread =>
      obtain ⟨json', -, -, rfl⟩ := step_payload hs h
      exact ⟨_, rfl⟩
  obtain ⟨more, hmore⟩ := hgrow
  refine ⟨texts, json, rest ++ more, htexts, hjson, ?_⟩
  rw [hmore, hstream]
  simp only [List.append_assoc, List.cons_append]

/-- A torn stream is not read as texts. -/
theorem Torn.not_received (ht : s.Torn) {texts : List Text} (htexts : ∀ text ∈ texts, Sendable text) :
    ¬ Received s.stream texts := by
  obtain ⟨before, json, rest, hbefore, hjson, hstream⟩ := ht
  intro hr
  have hshort {text : Text} (h : Sendable text) : text.length < netCoding.limit := by
    have hlen : text.length < 4096 := h.length
    exact Nat.lt_trans hlen (by decide)
  rw [hstream] at hr
  obtain ⟨text, htext, hnul⟩ := Coding.Reads.exists_mem (c := netCoding) (by decide)
    (fun m hm => hshort (hbefore m hm)) (List.length_pos_of_ne_nil hjson.ne_nil) (hshort hjson) hr
  exact (htexts text htext).nul hnul

/-- Whole frames are read as the texts sent. -/
theorem received_of_idle (hs : s.Orderly) (hstream : s.stream = netCoding.frames s.sent.reverse) :
    Received s.stream s.sent.reverse := by
  rw [hstream]
  refine netCoding.reads_frames ?_
  intro text htext
  have hlen : text.length < 4096 := (hs.sent text (List.mem_reverse.1 htext)).length
  exact Nat.lt_trans hlen (by decide)

theorem Framed.not_torn (hf : s.Framed) (hs : s.Orderly) : ¬ s.Torn := by
  have hidle {u : Wire} (hu : u.Orderly) (hstream : u.stream = netCoding.frames u.sent.reverse) : ¬ u.Torn := by
    intro ht
    refine ht.not_received ?_ (received_of_idle hu hstream)
    intro text htext
    exact hu.sent text (List.mem_reverse.1 htext)
  cases hf with
  | idle _ hstream => exact hidle hs hstream
  | busy thread json hjson hpending hstream =>
    -- the text that is still to come makes the last frame whole
    intro ht
    obtain ⟨u, hu⟩ : ∃ u, s.step (.payload thread) = some u := ⟨_, by rw [Wire.step, hjson, Option.map_some]⟩
    have hframed : u.Framed := (Framed.busy thread json hjson hpending hstream).step hs (show Alone s (.payload thread) from trivial) hu
    have hfree : ∀ other, u.pending other = none := by
      obtain ⟨json', hjson', -, rfl⟩ := step_payload hs hu
      intro other
      by_cases ho : other = thread
      · simp only [ho, Function.update_self]
      · simp only [Function.update_of_ne ho, hpending other ho]
    cases hframed with
    | idle _ hstream' => exact hidle (hs.step hu) hstream' (ht.step hs hu)
    | busy thread' json' hjson' _ _ =>
      rw [hfree thread'] at hjson'
      cases hjson'

end Step

/-! ## Runs -/

section Run

variable {tr : List (Wire × Send)} {s : Wire} (h : system.Run tr s)

include h

theorem orderly_of_run : s.Orderly :=
  h.invariant (G := fun _ _ => True) (fun _ => orderly_started) (fun _ _ _ hs _ ht => hs.step ht) fun _ _ => trivial

/-- A run tears no frame exactly when every header was sent alone. -/
theorem throughout_not_torn_iff : System.Throughout (fun s => ¬ s.Torn) tr s ↔ System.Meets Alone tr := by
  refine System.Run.holds_iff (I := fun s => s.Framed ∧ s.Orderly) ?_ ?_ ?_ ?_ h
  · intro s hs
    exact ⟨framed_started hs, orderly_started hs⟩
  · intro s e t hI hg ht
    exact ⟨hI.1.step hI.2 hg ht, hI.2.step ht⟩
  · intro s hI
    exact hI.1.not_torn hI.2
  · intro s e t hI hg ht
    exact not_not.2 (torn_of_not_alone hI.1 hI.2 hg ht)

/-- **The stream is read as the frames sent, in some order, exactly when no header was sent inside another
frame**, once every call has returned. -/
theorem reads_iff (hidle : ∀ thread, s.pending thread = none) :
    (∃ texts, Received s.stream texts ∧ texts.Perm s.sent) ↔ System.Meets Alone tr := by
  have hs := orderly_of_run h
  constructor
  · rintro ⟨texts, hreceived, hperm⟩
    refine (throughout_not_torn_iff h).1 ?_
    have hlast : ¬ s.Torn := by
      intro ht
      refine ht.not_received ?_ hreceived
      intro text htext
      exact hs.sent text (hperm.mem_iff.1 htext)
    have hall : System.Throughout (fun s => s.Orderly → ¬ s.Torn) tr s := by
      refine h.throughout_of_last ?_ fun _ => hlast
      intro s e t hstep ht hs htorn
      exact ht (hs.step hstep) (htorn.step hs hstep)
    have horderly : System.Throughout Orderly tr s :=
      h.throughout (fun _ => orderly_started) fun _ _ _ hs ht => hs.step ht
    exact ⟨hall.1 horderly.1, fun p hp => hall.2 p hp (horderly.2 p hp)⟩
  · intro hmeets
    have hframed : s.Framed :=
      (h.invariant (I := fun s => s.Framed ∧ s.Orderly) (fun s hs => ⟨framed_started hs, orderly_started hs⟩)
        (fun s e t hI hg ht => ⟨hI.1.step hI.2 hg ht, hI.2.step ht⟩) hmeets).1
    cases hframed with
    | idle _ hstream => exact ⟨_, received_of_idle hs hstream, List.reverse_perm _⟩
    | busy thread json hjson _ _ =>
      rw [hidle thread] at hjson
      cases hjson

end Run

/-! ## Two threads -/

theorem step_header_of_free {s : Wire} {thread : Nat} (hfree : s.pending thread = none) {json : Text}
    (hsend : Sendable json) :
    s.step (.header thread json) = some { s with
      stream := s.stream ++ htonl json.length, pending := Function.update s.pending thread (some json) } := by
  have hcond : ¬ ((s.pending thread).isSome ∨ ¬ Sendable json) := by
    rintro (h | h)
    · rw [hfree] at h
      cases h
    · exact h hsend
  rw [step, if_neg hcond, hsend.mod_length]

theorem step_payload_of_pending {s : Wire} {thread : Nat} {json : Text} (hjson : s.pending thread = some json)
    (hsend : Sendable json) :
    s.step (.payload thread) = some
      { stream := s.stream ++ json, pending := Function.update s.pending thread none, sent := json :: s.sent } := by
  rw [step, hjson, Option.map_some, hsend.mod_length, List.take_length]

/-- Calls that do not overlap. -/
theorem exists_run_alone {texts : List Text} (htexts : ∀ text ∈ texts, Sendable text) :
    ∃ tr s, system.Run tr s ∧ System.Meets Alone tr ∧ (∀ thread, s.pending thread = none) ∧ s.sent = texts := by
  induction texts with
  | nil =>
    exact ⟨[], ⟨[], fun _ => none, []⟩, .start ⟨rfl, fun _ => rfl, rfl⟩, by simp [System.Meets], fun _ => rfl, rfl⟩
  | cons text texts ih =>
    obtain ⟨tr, s, hrun, hmeets, hidle, hsent⟩ := ih fun t ht => htexts t (List.mem_cons_of_mem _ ht)
    have hsend : Sendable text := htexts text List.mem_cons_self
    have hheader := hrun.step (step_header_of_free (hidle 0) hsend)
    have hpayload := hheader.step (step_payload_of_pending (Function.update_self ..) hsend)
    refine ⟨_, _, hpayload, ?_, ?_, ?_⟩
    · exact System.meets_cons.2 ⟨trivial, System.meets_cons.2 ⟨hidle, hmeets⟩⟩
    · intro thread
      by_cases ht : thread = 0
      · simp only [ht, Function.update_self]
      · simp only [Function.update_of_ne ht, hidle thread]
    · simp only [hsent]

/-- A report behind a reply. -/
theorem reads_in_turn : ∃ (s : Wire) (texts : List Text), Received s.stream texts ∧
    texts.Perm [Text.lit "\x7b\"type\":\"SS_FILE_UPDATE\"\x7d", Text.lit "\x7b\"status\":\"OK\"\x7d"] := by
  obtain ⟨tr, s, hrun, hmeets, hidle, hsent⟩ := @exists_run_alone
    [Text.lit "\x7b\"type\":\"SS_FILE_UPDATE\"\x7d", Text.lit "\x7b\"status\":\"OK\"\x7d"] (by decide)
  obtain ⟨texts, hreceived, hperm⟩ := (reads_iff hrun hidle).2 hmeets
  exact ⟨s, texts, hreceived, hsent ▸ hperm⟩

/-- A report whose header comes between the header and the text of a reply. -/
theorem torn_reply : ∃ tr s, system.Run tr s ∧ (∀ thread, s.pending thread = none) ∧
    ∀ texts, Received s.stream texts → ¬ texts.Perm s.sent := by
  have hreply : Sendable (Text.lit "\x7b\"status\":\"OK\"\x7d") := by decide
  have hreport : Sendable (Text.lit "\x7b\"type\":\"SS_FILE_UPDATE\"\x7d") := by decide
  have hstart : Started ⟨[], fun _ => none, []⟩ := ⟨rfl, fun _ => rfl, rfl⟩
  have hone := (System.Run.start (S := system) hstart).step (@step_header_of_free _ 0 rfl _ hreply)
  have htwo := hone.step (@step_header_of_free _ 1 rfl _ hreport)
  have hthree := htwo.step (@step_payload_of_pending _ 0 _ rfl hreply)
  have hrun := hthree.step (@step_payload_of_pending _ 1 _ rfl hreport)
  refine ⟨_, _, hrun, ?_, ?_⟩
  · intro thread
    by_cases h1 : thread = 1
    · subst h1
      rfl
    by_cases h0 : thread = 0
    · subst h0
      rfl
    simp only [Function.update_of_ne h1, Function.update_of_ne h0]
  · intro texts hreceived hperm
    refine absurd hreceived (Torn.not_received ?_ ?_)
    · exact ⟨[], Text.lit "\x7b\"status\":\"OK\"\x7d", _, by simp, hreply, rfl⟩
    · intro text htext
      exact (orderly_of_run hrun).sent text (hperm.mem_iff.1 htext)

end Wire

end CoWrite.Ss
