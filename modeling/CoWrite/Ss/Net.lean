import CoWrite.Lib.Transfer
import CoWrite.Ss.Wire

/-!
# Sending and receiving call by call

`send_all` and `recv_all` ask the kernel again until all bytes are moved; `net_send_json` writes a length and
a text with them, `net_recv_json` reads them back. The kernel may move any part of what it is asked to move,
and a signal may interrupt any call.

* `Net.received_messages`: on every schedule of both sides the messages arrive as they were sent.
-/

namespace CoWrite.Ss.Net

open CoWrite.Lib

/-! ## The calls -/

/-- `strlen` of what is stored at a pointer. -/
def strlen (s : Text) : Nat := (s.takeWhile (· != '\x00')).length

/-- `send_all`. -/
def sendAll (calls : List Ret) (buf : Text) (len : Nat) : Option (Transferred Char) := transfer calls len buf

/-- `recv_all`, from a stream that ends where the list does. -/
def recvAll (calls : List Ret) (stream : Text) (len : Nat) : Option (Transferred Char) := transfer calls len stream

structure Sent where
  ok : Bool
  /-- The bytes written to the stream. -/
  stream : Text
  calls : List Ret

def netSendJson (calls : List Ret) (json : Text) : Option Sent :=
  let len := strlen json % 2 ^ 32
  (sendAll calls (htonl len) 4).bind fun header =>
    if header.ok then
      (sendAll header.calls json len).map fun body => ⟨body.ok, header.moved ++ body.moved, body.calls⟩
    else some ⟨false, header.moved, header.calls⟩

/-- What `net_recv_json` leaves at `out_json`, as a C string. -/
structure Received where
  ok : Bool
  json : Text
  rest : Text
  calls : List Ret

/-- `memory n`: `malloc(n)` succeeds. Where the length is `2 ^ 32 - 1` the size wraps to 0 and the text is
written behind the allocation: nothing is known of the rest. -/
def netRecvJson (memory : Nat → Bool) (calls : List Ret) (stream : Text) : Option Received :=
  (recvAll calls stream 4).bind fun header =>
    if header.ok then
      let len := ntohl header.moved
      let size := (len + 1) % 2 ^ 32
      if !memory size then some ⟨false, [], header.rest, header.calls⟩
      else if size ≤ len then none
      else (recvAll header.calls header.rest len).map fun body =>
        ⟨body.ok, if body.ok then body.moved.takeWhile (· != '\x00') else [], body.rest, body.calls⟩
    else some ⟨false, [], header.rest, header.calls⟩

/-- One `net_send_json` after the other, until one fails. -/
def sendJsons : List Ret → List Text → Option Sent
  | calls, [] => some ⟨true, [], calls⟩
  | calls, json :: jsons =>
    (netSendJson calls json).bind fun first =>
      if first.ok then
        (sendJsons first.calls jsons).map fun rest => ⟨rest.ok, first.stream ++ rest.stream, rest.calls⟩
      else some first

/-- What `n` calls of `net_recv_json` yield. -/
structure Yield where
  ok : Bool
  jsons : List Text
  rest : Text
  calls : List Ret

def recvJsons (memory : Nat → Bool) : Nat → List Ret → Text → Option Yield
  | 0, calls, stream => some ⟨true, [], stream, calls⟩
  | n + 1, calls, stream =>
    (netRecvJson memory calls stream).bind fun first =>
      if first.ok then
        (recvJsons memory n first.calls first.rest).map fun rest =>
          ⟨rest.ok, first.json :: rest.jsons, rest.rest, rest.calls⟩
      else some ⟨false, [], first.rest, first.calls⟩

/-! ## One message -/

/-- The messages that the length and the allocation can take. -/
structure Message (json : Text) : Prop where
  nul : '\x00' ∉ json
  length : json.length < 2 ^ 32 - 1

theorem takeWhile_of_nul {s : Text} (h : '\x00' ∉ s) : s.takeWhile (· != '\x00') = s := by
  apply List.takeWhile_eq_self_iff.2
  intro c hc
  rw [bne_iff_ne]
  rintro rfl
  exact h hc

theorem Message.strlen {json : Text} (h : Message json) : strlen json % 2 ^ 32 = json.length := by
  have hlen := h.length
  rw [Net.strlen, takeWhile_of_nul h.nul]
  exact Nat.mod_eq_of_lt (by omega)

theorem length_frame (json : Text) : (netCoding.frame json).length = 4 + json.length := List.length_append

section Calls

variable {calls : List Ret} (hcalls : ∀ c ∈ calls, c.Moves) {json : Text} (hjson : Message json)
  {memory : Nat → Bool} (hmemory : ∀ n, memory n = true)

include hcalls

include hjson in
/-- `net_send_json` writes the frame of the message. -/
theorem returns_netSendJson :
    Returns Sent.calls calls (netCoding.frame json).length (netSendJson calls json)
      fun s => s.ok = true ∧ s.stream = netCoding.frame json := by
  rw [length_frame, netSendJson, hjson.strlen]
  apply Returns.bind hcalls (returns_transfer hcalls (Nat.le_refl 4))
  intro header hheader hleft
  rw [if_pos hheader.ok]
  apply (returns_transfer hleft (Nat.le_refl json.length)).map
  · intro body
    rfl
  · intro body hbody
    refine ⟨hbody.ok, ?_⟩
    show header.moved ++ body.moved = netCoding.frame json
    rw [hheader.moved, hbody.moved, List.take_length]
    rfl

include hjson hmemory in
/-- `net_recv_json` reads the message of the first frame and leaves the others in the stream. -/
theorem returns_netRecvJson (rest : Text) :
    Returns Received.calls calls (netCoding.frame json).length
      (netRecvJson memory calls (netCoding.frame json ++ rest))
      fun r => r.ok = true ∧ r.json = json ∧ r.rest = rest := by
  have hlen := hjson.length
  have hstream : netCoding.frame json ++ rest = htonl json.length ++ (json ++ rest) := List.append_assoc _ _ _
  rw [length_frame, netRecvJson, hstream]
  apply Returns.bind hcalls
  · apply returns_transfer hcalls
    rw [List.length_append]
    exact Nat.le_add_right 4 _
  · intro header hheader hleft
    have hmoved : header.moved = htonl json.length := hheader.moved
    have hrest : header.rest = json ++ rest := hheader.rest
    have hsize : (json.length + 1) % 2 ^ 32 = json.length + 1 := Nat.mod_eq_of_lt (by omega)
    simp only [if_pos hheader.ok, hmoved, ntohl_htonl (show json.length < 2 ^ 32 by omega), hsize, hmemory,
      Bool.not_true, Bool.false_eq_true, if_false, if_neg (show ¬ json.length + 1 ≤ json.length by omega), hrest]
    apply (returns_transfer hleft (show json.length ≤ (json ++ rest).length by simp)).map
    · intro body
      rfl
    · intro body hbody
      refine ⟨hbody.ok, ?_, ?_⟩
      · simp only [hbody.ok, if_true, hbody.moved, List.take_left, takeWhile_of_nul hjson.nul]
      · exact hbody.rest.trans List.drop_left

end Calls

/-! ## A list of messages -/

section Lists

variable {calls : List Ret} {jsons : List Text}

theorem returns_sendJsons (hcalls : ∀ c ∈ calls, c.Moves) (hjsons : ∀ json ∈ jsons, Message json) :
    Returns Sent.calls calls (netCoding.frames jsons).length (sendJsons calls jsons)
      fun s => s.ok = true ∧ s.stream = netCoding.frames jsons := by
  induction jsons generalizing calls with
  | nil => exact returns_pure rfl ⟨rfl, rfl⟩
  | cons json jsons ih =>
    rw [netCoding.frames_cons, List.length_append, sendJsons]
    apply Returns.bind hcalls (returns_netSendJson hcalls (hjsons json List.mem_cons_self))
    rintro first ⟨hok, hstream⟩ hleft
    rw [if_pos hok]
    apply (ih hleft fun json hjson => hjsons json (List.mem_cons_of_mem _ hjson)).map
    · intro rest
      rfl
    · rintro rest ⟨hok', hstream'⟩
      refine ⟨hok', ?_⟩
      show first.stream ++ rest.stream = _
      rw [hstream, hstream']

theorem returns_recvJsons {memory : Nat → Bool} (hmemory : ∀ n, memory n = true) (hcalls : ∀ c ∈ calls, c.Moves)
    (hjsons : ∀ json ∈ jsons, Message json) :
    Returns Yield.calls calls (netCoding.frames jsons).length
      (recvJsons memory jsons.length calls (netCoding.frames jsons))
      fun y => y.ok = true ∧ y.jsons = jsons ∧ y.rest = [] := by
  induction jsons generalizing calls with
  | nil => exact returns_pure rfl ⟨rfl, rfl, rfl⟩
  | cons json jsons ih =>
    rw [netCoding.frames_cons, List.length_append, List.length_cons, recvJsons]
    apply Returns.bind hcalls (returns_netRecvJson hcalls (hjsons json List.mem_cons_self) hmemory _)
    rintro first ⟨hok, hjson, hrest⟩ hleft
    rw [if_pos hok, hrest]
    apply (ih hleft fun json hjson => hjsons json (List.mem_cons_of_mem _ hjson)).map
    · intro rest
      rfl
    · rintro rest ⟨hok', hjsons', hrest'⟩
      exact ⟨hok', by rw [hjson, hjsons'], hrest'⟩

/-- **The messages arrive as they were sent.** Whatever the calls of both sides move, what the sender returns
is success, what the receiver returns is the list of the messages, and each returns when it has made as many
calls that move bytes as there are bytes. -/
theorem received_messages (hjsons : ∀ json ∈ jsons, '\x00' ∉ json ∧ json.length < 2 ^ 32 - 1)
    {memory : Nat → Bool} (hmemory : ∀ n, memory n = true) {sends recvs : List Ret}
    (hsends : ∀ c ∈ sends, c.Moves) (hrecvs : ∀ c ∈ recvs, c.Moves) :
    (∀ s, sendJsons sends jsons = some s → s.ok = true ∧
      (∀ y, recvJsons memory jsons.length recvs s.stream = some y →
        y.ok = true ∧ y.jsons = jsons ∧ y.rest = []) ∧
      (s.stream.length ≤ Ret.counted recvs → (recvJsons memory jsons.length recvs s.stream).isSome)) ∧
    ((jsons.map fun json => 4 + json.length).sum ≤ Ret.counted sends → (sendJsons sends jsons).isSome) := by
  have hmessages : ∀ json ∈ jsons, Message json := fun json hjson => ⟨(hjsons json hjson).1, (hjsons json hjson).2⟩
  have hsend := returns_sendJsons hsends hmessages
  have hrecv := returns_recvJsons hmemory hrecvs hmessages
  have hlength : (netCoding.frames jsons).length = (jsons.map fun json => 4 + json.length).sum := by
    rw [Coding.frames, List.length_flatMap]
    exact congrArg List.sum (List.map_congr_left fun json _ => length_frame json)
  constructor
  · intro s hs
    obtain ⟨⟨hok, hstream⟩, -⟩ := hsend.spec s hs
    rw [hstream]
    refine ⟨hok, ?_, ?_⟩
    · intro y hy
      exact (hrecv.spec y hy).1
    · exact hrecv.isSome
  · intro hcounted
    exact hsend.isSome (hlength ▸ hcounted)

/-- Two messages, one of them empty; the header of the first arrives in two parts. -/
theorem received_messages_split :
    (∀ json ∈ [Text.lit "ok", []], '\x00' ∉ json ∧ json.length < 2 ^ 32 - 1) ∧
    (sendJsons [.count 3, .eintr, .count 9, .count 9, .count 9] [Text.lit "ok", []]).map Sent.ok = some true ∧
    ∀ s, sendJsons [.count 3, .eintr, .count 9, .count 9, .count 9] [Text.lit "ok", []] = some s →
      ∀ y, recvJsons (fun _ => true) 2 [.count 1, .count 3, .eintr, .count 5, .count 4] s.stream = some y →
        y.jsons = [Text.lit "ok", []] := by
  have hjsons : ∀ json ∈ [Text.lit "ok", []], '\x00' ∉ json ∧ json.length < 2 ^ 32 - 1 := by
    decide
  refine ⟨hjsons, by decide, ?_⟩
  intro s hs y hy
  have hsends : ∀ c ∈ [Ret.count 3, .eintr, .count 9, .count 9, .count 9], c.Moves := by
    simp [Ret.Moves]
  have hrecvs : ∀ c ∈ [Ret.count 1, .count 3, .eintr, .count 5, .count 4], c.Moves := by
    simp [Ret.Moves]
  obtain ⟨-, hyield, -⟩ := (received_messages hjsons (fun _ => rfl) hsends hrecvs).1 s hs
  exact (hyield y hy).2.1

end Lists

end CoWrite.Ss.Net
