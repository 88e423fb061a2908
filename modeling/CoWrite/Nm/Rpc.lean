import Mathlib.Logic.Function.Basic
import CoWrite.Common.Text
import CoWrite.Lib.Runs

/-!
# The RPC slot of a storage-server peer

`forward_command` and the peer thread share one slot per storage server: the flag `rpc_waiting`, the
buffer `rpc_response` and one condition variable. Each critical section under `io_lock` is one step,
as is each send of a payload and each frame the peer thread reads. A waiter goes on whenever its loop
guard is false (the condition variable only says when it looks).

* `claim` and `collect` are the two critical sections of `forward_command`, `release` the one after a
  failed send, `refuse` the early return at shutdown.
* `noPeer` is the early return when `find_server_peer` finds nothing.
* `reply` is the peer thread at a frame without type, `lost` its section after a failed receive,
  `dispatchFailed` its way out of the loop at a typed frame and `close` the section of `peer_close`.
* A call is named by a number of its own, so a reply names the call whose payload it answers.

The first section frees a reply that is still in the slot. `replies_matched_iff` shows that this is
all that can go wrong: the calls of a run get their own replies exactly when no step of the run frees
the reply of a call that is still waiting for it.
-/

namespace CoWrite.Nm.Rpc

open CoWrite.Lib

/-- A payload on its way to the server, with the call that sent it. -/
structure Command where
  call : Nat
  payload : Text
deriving DecidableEq, Repr

/-- The server's reply to one command. -/
structure Reply where
  command : Command
  body : Text
deriving DecidableEq, Repr

/-- Where a call of `forward_command` is. -/
inductive Call where
  | absent
  /-- Before or in the loop that waits for the slot. -/
  | entering (payload : Text)
  /-- Owns the slot, payload not sent yet. -/
  | claimed (payload : Text)
  /-- `net_send_json` failed, slot not given back yet. -/
  | sendFailed (payload : Text)
  /-- Payload sent; before or in the loop that waits for the reply. -/
  | sent (payload : Text)
  /-- Returned: `0` with a reply, or `-1`. -/
  | returned (payload : Text) (response : Option Reply)
deriving DecidableEq, Repr

/-- The peer with all calls on it. `wire` holds the commands the server has not answered, `freed` the
replies that were freed before a call took them. -/
structure Peer where
  rpcWaiting : Bool
  rpcResponse : Option Reply
  shuttingDown : Bool
  closed : Bool
  wire : List Command
  calls : Nat → Call
  freed : List Reply

/-- The slot after `peer_slot_setup`, no call made. -/
def Peer.fresh : Peer where
  rpcWaiting := false
  rpcResponse := none
  shuttingDown := false
  closed := false
  wire := []
  calls := fun _ => .absent
  freed := []

inductive Event where
  | enter (c : Nat) (payload : Text)
  | noPeer (c : Nat) (payload : Text)
  | claim (c : Nat)
  | refuse (c : Nat)
  | send (c : Nat) (ok : Bool)
  | release (c : Nat)
  | collect (c : Nat)
  | reply (body : Text)
  | lost
  | dispatchFailed
  | close
  | shutdown
deriving DecidableEq, Repr

def Peer.setCall (s : Peer) (c : Nat) (k : Call) : Peer :=
  { s with calls := Function.update s.calls c k }

/-- `free(rpc_response); rpc_response = NULL`. -/
def Peer.freeResponse (s : Peer) : Peer :=
  { s with rpcResponse := none, freed := s.rpcResponse.toList ++ s.freed }

/-- One step, where the event is possible. -/
def step (s : Peer) : Event → Option Peer
  | .enter c payload =>
    match s.calls c with
    | .absent => some (s.setCall c (.entering payload))
    | _ => none
  | .noPeer c payload =>
    match s.calls c with
    | .absent => some (s.setCall c (.returned payload none))
    | _ => none
  | .claim c =>
    match s.calls c with
    | .entering payload =>
      if s.rpcWaiting || s.shuttingDown then none
      else some ({ s.freeResponse with rpcWaiting := true }.setCall c (.claimed payload))
    | _ => none
  | .refuse c =>
    match s.calls c with
    | .entering payload =>
      if s.shuttingDown then some (s.setCall c (.returned payload none)) else none
    | _ => none
  | .send c ok =>
    match s.calls c with
    | .claimed payload =>
      if ok then some ({ s with wire := s.wire ++ [Command.mk c payload] }.setCall c (.sent payload))
      else some (s.setCall c (.sendFailed payload))
    | _ => none
  | .release c =>
    match s.calls c with
    | .sendFailed payload =>
      some ({ s with rpcWaiting := false }.setCall c (.returned payload none))
    | _ => none
  | .collect c =>
    match s.calls c with
    | .sent payload =>
      if s.rpcWaiting && !s.shuttingDown then none
      else some ({ s with rpcResponse := none }.setCall c (.returned payload s.rpcResponse))
    | _ => none
  | .reply body =>
    match s.closed, s.wire with
    | false, cmd :: wire =>
      -- a frame that no call waits for is freed at once
      if s.rpcWaiting then
        some { s with wire := wire, rpcResponse := some ⟨cmd, body⟩, rpcWaiting := false }
      else some { s with wire := wire, freed := ⟨cmd, body⟩ :: s.freed }
    | _, _ => none
  | .lost =>
    if s.closed then none
    else if s.rpcWaiting then some { s.freeResponse with rpcWaiting := false, closed := true }
    else some { s with closed := true }
  | .dispatchFailed => some { s with closed := true }
  | .close =>
    if s.closed then some { s.freeResponse with rpcWaiting := false } else none
  | .shutdown => some { s with shuttingDown := true }

/-- Any number of calls on one peer, in any order of their steps. -/
def system : System Peer Event :=
  .ofStep (· = .fresh) step

/-! ## What is asked of the slot -/

/-- Every call that returned `0` returned the reply to its own payload, no reply went to two calls,
and no reply was freed whose call still waits for it. -/
structure Matched (s : Peer) : Prop where
  own : ∀ c p r, s.calls c = .returned p (some r) → r.command = ⟨c, p⟩
  once : ∀ c c' p p' r, s.calls c = .returned p (some r) → s.calls c' = .returned p' (some r) → c = c'
  kept : ∀ r ∈ s.freed, ∀ p, s.calls r.command.call ≠ .sent p

/-- The step frees no reply that its call still waits for: when a call takes the slot, and when the
peer is closed, the last reply has been collected. -/
def Collected (s : Peer) : Event → Prop
  | .claim _ | .close => ∀ r, s.rpcResponse = some r → ∀ p, s.calls r.command.call ≠ .sent p
  | _ => True

/-! ## The invariant of runs whose steps free no awaited reply -/

section Calls

variable (s : Peer) (c : Nat) (k : Call)

@[simp, grind =] theorem setCall_calls :
    (s.setCall c k).calls = Function.update s.calls c k := rfl

@[grind =] theorem setCall_calls_apply (x : Nat) :
    (s.setCall c k).calls x = if x = c then k else s.calls x :=
  Function.update_apply ..

@[simp, grind =] theorem setCall_rpcWaiting : (s.setCall c k).rpcWaiting = s.rpcWaiting := rfl
@[simp, grind =] theorem setCall_rpcResponse : (s.setCall c k).rpcResponse = s.rpcResponse := rfl
@[simp, grind =] theorem setCall_closed : (s.setCall c k).closed = s.closed := rfl
@[simp, grind =] theorem setCall_wire : (s.setCall c k).wire = s.wire := rfl
@[simp, grind =] theorem setCall_freed : (s.setCall c k).freed = s.freed := rfl

end Calls

/-- The call owns the slot: it has taken it and has neither its reply nor given up. -/
@[grind =] def Call.owning : Call → Bool
  | .claimed _ | .sendFailed _ | .sent _ => true
  | _ => false

/-- The call has sent its command and either waits for the reply or gave up at shutdown. -/
@[grind =] def Asked (calls : Nat → Call) (cmd : Command) : Prop :=
  calls cmd.call = .sent cmd.payload ∨ calls cmd.call = .returned cmd.payload none

structure Inv (s : Peer) : Prop where
  own : ∀ c p r, s.calls c = .returned p (some r) → r.command = ⟨c, p⟩
  freed : ∀ r ∈ s.freed, ∃ p k, s.calls r.command.call = .returned p k
  /-- An uncollected reply answers the only call that owns the slot. -/
  slot : ∀ r, s.rpcResponse = some r → s.rpcWaiting = false ∧ Asked s.calls r.command ∧
    ∀ c, (s.calls c).owning → c = r.command.call
  /-- While the peer is open, the one command under way is that of the call the slot waits for. -/
  wire : s.closed = false → ∀ cmd ∈ s.wire, s.wire = [cmd] ∧ s.rpcWaiting = true ∧
    Asked s.calls cmd ∧ ∀ c, (s.calls c).owning → c = cmd.call
  /-- While the peer is open, a call owns the slot only if the slot waits or holds its reply. -/
  idle : s.closed = false → s.rpcWaiting = false → s.rpcResponse = none →
    ∀ c, (s.calls c).owning = false
  single : s.closed = false → ∀ c c', (s.calls c).owning → (s.calls c').owning → c = c'

theorem Inv.matched {s : Peer} (h : Inv s) : Matched s where
  own := h.own
  once c c' p p' r hc hc' := by
    have e := (h.own _ _ _ hc).symm.trans (h.own _ _ _ hc')
    exact congrArg Command.call e
  kept r hr p := by
    obtain ⟨_, _, e⟩ := h.freed r hr
    simp [e]

theorem inv_fresh : Inv Peer.fresh := by
  constructor <;> simp [Peer.fresh, Call.owning]

section Steps

variable {s : Peer} (h : Inv s) {c : Nat} {p : Text}

include h

/-- A call that does not own the slot may move without touching it. -/
theorem Inv.setCall_outside {k : Call} (hc : s.calls c = .absent ∨ s.calls c = .entering p)
    (hk : k = .entering p ∨ k = .returned p none) : Inv (s.setCall c k) where
  own c' p' r := by have := h.own c' p' r; grind
  freed r hr := by have := h.freed r hr; grind
  slot r hr := by
    obtain ⟨hw, ha, ho⟩ := h.slot r hr
    exact ⟨hw, by grind, by grind⟩
  wire hcl cmd hcmd := by
    obtain ⟨hw, hr, ha, ho⟩ := h.wire hcl cmd hcmd
    exact ⟨hw, hr, by grind, by grind⟩
  idle hcl hw hr c' := by have := h.idle hcl hw hr c'; grind
  single hcl c₁ c₂ := by have := h.single hcl c₁ c₂; grind

/-- Where a call may take the slot, no other call owns it. -/
theorem Inv.unowned (hw : s.rpcWaiting = false) (hcl : s.closed = false)
    (hG : ∀ r, s.rpcResponse = some r → ∀ p, s.calls r.command.call ≠ .sent p) (c' : Nat) :
    (s.calls c').owning = false := by
  cases hr : s.rpcResponse with
  | none => exact h.idle hcl hw hr c'
  | some r =>
    obtain ⟨-, ha, hu⟩ := h.slot r hr
    have := hu c'
    have := hG r hr
    grind

/-- A reply that no call waits for may be freed. -/
theorem Inv.freed_freeResponse
    (hG : ∀ r, s.rpcResponse = some r → ∀ p, s.calls r.command.call ≠ .sent p) :
    ∀ r ∈ s.freeResponse.freed, ∃ p k, s.calls r.command.call = .returned p k := by
  intro r hr
  simp only [Peer.freeResponse, List.mem_append, Option.mem_toList] at hr
  rcases hr with hr | hr
  · have ha := (h.slot r hr).2.1
    have := hG r hr
    exact ⟨r.command.payload, none, by grind⟩
  · exact h.freed r hr

theorem Inv.claim (hc : s.calls c = .entering p) (hw : s.rpcWaiting = false)
    (hG : Collected s (.claim c)) :
    Inv ({ s.freeResponse with rpcWaiting := true }.setCall c (.claimed p)) where
  own c' p' r := by have := h.own c' p' r; grind [Peer.freeResponse]
  freed r hr := by have := h.freed_freeResponse hG r hr; grind [Peer.freeResponse]
  slot r hr := by simp [Peer.freeResponse] at hr
  wire hcl cmd hcmd := by
    have := (h.wire hcl cmd hcmd).2.1
    grind
  idle _ hw' := by simp at hw'
  single hcl c₁ c₂ := by
    have hno := h.unowned hw hcl hG
    have h₁ := hno c₁
    have h₂ := hno c₂
    grind [Peer.freeResponse]

/-- A call that has yet to send its command finds nothing else under way and the slot waiting. -/
theorem Inv.wire_of_claimed (hc : s.calls c = .claimed p) (hcl : s.closed = false) :
    s.wire = [] ∧ s.rpcWaiting = true := by
  have ho : (s.calls c).owning := by simp [hc, Call.owning]
  constructor
  · -- the call of a command under way would own the slot too
    rw [List.eq_nil_iff_forall_not_mem]
    intro cmd hcmd
    obtain ⟨-, -, ha, hu⟩ := h.wire hcl cmd hcmd
    have := hu _ ho
    grind
  · by_contra hw
    cases hr : s.rpcResponse with
    | none => simp [h.idle hcl (by simpa using hw) hr c] at ho
    | some r =>
      obtain ⟨-, ha, hu⟩ := h.slot r hr
      have := hu _ ho
      grind

theorem Inv.send (hc : s.calls c = .claimed p) :
    Inv ({ s with wire := s.wire ++ [Command.mk c p] }.setCall c (.sent p)) where
  own c' p' r := by have := h.own c' p' r; grind
  freed r hr := by have := h.freed r hr; grind
  slot r hr := by
    obtain ⟨hw, ha, ho⟩ := h.slot r hr
    exact ⟨hw, by grind, by grind⟩
  wire hcl cmd hcmd := by
    obtain ⟨hnil, hw⟩ := h.wire_of_claimed hc hcl
    simp only [setCall_wire, hnil, List.nil_append, List.mem_singleton] at hcmd
    subst hcmd
    have hs := h.single hcl c
    exact ⟨by simp [hnil], hw, by grind, by grind⟩
  idle hcl hw hr c' := by
    have := h.idle hcl hw hr
    grind
  single hcl c₁ c₂ := by have := h.single hcl c₁ c₂; grind

theorem Inv.sendFailed (hc : s.calls c = .claimed p) : Inv (s.setCall c (.sendFailed p)) where
  own c' p' r := by have := h.own c' p' r; grind
  freed r hr := by have := h.freed r hr; grind
  slot r hr := by
    obtain ⟨hw, ha, ho⟩ := h.slot r hr
    exact ⟨hw, by grind, by grind⟩
  wire hcl cmd hcmd := by
    obtain ⟨hw, hr, ha, ho⟩ := h.wire hcl cmd hcmd
    exact ⟨hw, hr, by grind, by grind⟩
  idle hcl hw hr c' := by
    have := h.idle hcl hw hr
    grind
  single hcl c₁ c₂ := by have := h.single hcl c₁ c₂; grind

theorem Inv.release (hc : s.calls c = .sendFailed p) :
    Inv ({ s with rpcWaiting := false }.setCall c (.returned p none)) where
  own c' p' r := by have := h.own c' p' r; grind
  freed r hr := by have := h.freed r hr; grind
  slot r hr := by
    obtain ⟨hw, ha, ho⟩ := h.slot r hr
    exact ⟨rfl, by grind, by grind⟩
  wire hcl cmd hcmd := by
    obtain ⟨-, -, ha, ho⟩ := h.wire hcl cmd hcmd
    have := ho c
    grind
  idle hcl hw hr c' := by
    have := h.single hcl c c'
    grind
  single hcl c₁ c₂ := by have := h.single hcl c₁ c₂; grind

theorem Inv.collect (hc : s.calls c = .sent p) :
    Inv ({ s with rpcResponse := none }.setCall c (.returned p s.rpcResponse)) where
  own c' p' r := by
    have := h.own c' p' r
    have := h.slot r
    cases r with | mk cmd body => cases cmd; grind
  freed r hr := by have := h.freed r hr; grind
  slot r hr := by simp at hr
  wire hcl cmd hcmd := by
    obtain ⟨hw, hr, ha, ho⟩ := h.wire hcl cmd hcmd
    have hnone : s.rpcResponse = none := by
      cases hr' : s.rpcResponse with
      | none => rfl
      | some r => exact absurd (h.slot r hr').1 (by simp [hr])
    exact ⟨hw, hr, by grind, by grind⟩
  idle hcl hw hr c' := by
    have := h.single hcl c c'
    grind
  single hcl c₁ c₂ := by have := h.single hcl c₁ c₂; grind

theorem Inv.reply {cmd : Command} {wire : List Command} (body : Text) (hcl : s.closed = false)
    (hw : s.wire = cmd :: wire) :
    Inv { s with wire := wire, rpcResponse := some ⟨cmd, body⟩, rpcWaiting := false } := by
  obtain ⟨h1, -, ha, ho⟩ := h.wire hcl cmd (by simp [hw])
  obtain rfl : wire = [] := by simpa [hw] using h1
  exact
    { own := h.own
      freed := h.freed
      slot := by rintro r ⟨⟩; exact ⟨rfl, ha, ho⟩
      wire := by simp
      idle := by simp
      single := h.single }

theorem Inv.lost : Inv { s with closed := true } where
  own := h.own
  freed := h.freed
  slot := h.slot
  wire := by simp
  idle := by simp
  single := by simp

/-- The slot of a closed peer may be cleared of a reply that no call waits for. -/
theorem Inv.close (hcl : s.closed = true)
    (hG : ∀ r, s.rpcResponse = some r → ∀ p, s.calls r.command.call ≠ .sent p) :
    Inv { s.freeResponse with rpcWaiting := false } where
  own := h.own
  freed := h.freed_freeResponse hG
  slot := by simp [Peer.freeResponse]
  wire := by simp [Peer.freeResponse, hcl]
  idle := by simp [Peer.freeResponse, hcl]
  single := by simp [Peer.freeResponse, hcl]

end Steps

/-- **Step lemma.** -/
theorem Inv.step {s t : Peer} {e : Event} (h : Inv s) (hG : Collected s e)
    (hs : step s e = some t) : Inv t := by
  cases e with
  | enter c p =>
    simp only [Rpc.step] at hs
    split at hs <;> cases hs
    exact h.setCall_outside (p := p) (.inl ‹_›) (.inl rfl)
  | noPeer c p =>
    simp only [Rpc.step] at hs
    split at hs <;> cases hs
    exact h.setCall_outside (p := p) (.inl ‹_›) (.inr rfl)
  | claim c =>
    simp only [Rpc.step] at hs
    split at hs <;> try cases hs
    split at hs <;> cases hs
    exact h.claim ‹_› (by simp_all) hG
  | refuse c =>
    simp only [Rpc.step] at hs
    split at hs <;> try cases hs
    split at hs <;> cases hs
    exact h.setCall_outside (.inr ‹_›) (.inr rfl)
  | send c ok =>
    simp only [Rpc.step] at hs
    split at hs <;> try cases hs
    split at hs <;> cases hs
    · exact h.send ‹_›
    · exact h.sendFailed ‹_›
  | release c =>
    simp only [Rpc.step] at hs
    split at hs <;> cases hs
    exact h.release ‹_›
  | collect c =>
    simp only [Rpc.step] at hs
    split at hs <;> try cases hs
    split at hs <;> cases hs
    exact h.collect ‹_›
  | reply body =>
    simp only [Rpc.step] at hs
    split at hs <;> try cases hs
    split at hs <;> cases hs
    · exact h.reply body ‹_› ‹_›
    · -- a frame that the slot does not wait for would contradict the invariant
      have := h.wire ‹_› _ (by rw [‹s.wire = _›]; exact List.mem_cons_self)
      simp_all
  | lost =>
    simp only [Rpc.step] at hs
    split at hs <;> try cases hs
    split at hs <;> cases hs
    · exact h.lost.close rfl fun r hr => by have := (h.slot r hr).1; simp_all
    · exact h.lost
  | dispatchFailed =>
    cases hs
    exact h.lost
  | close =>
    simp only [Rpc.step] at hs
    split at hs <;> cases hs
    exact h.close ‹_› hG
  | shutdown =>
    cases hs
    exact ⟨h.own, h.freed, h.slot, h.wire, h.idle, h.single⟩

/-- A step that frees the reply of a waiting call breaks the matching. -/
theorem not_matched_of_not_collected {s t : Peer} {e : Event} (hG : ¬ Collected s e)
    (hs : step s e = some t) : ¬ Matched t := by
  intro hm
  cases e with
  | claim c =>
    simp only [Collected, not_forall, not_not] at hG
    obtain ⟨r, hr, p, hp⟩ := hG
    simp only [Rpc.step] at hs
    split at hs <;> try cases hs
    split at hs <;> cases hs
    refine hm.kept r (by simp [Peer.freeResponse, hr]) p ?_
    grind [Peer.freeResponse]
  | close =>
    simp only [Collected, not_forall, not_not] at hG
    obtain ⟨r, hr, p, hp⟩ := hG
    simp only [Rpc.step] at hs
    split at hs <;> cases hs
    exact hm.kept r (by simp [Peer.freeResponse, hr]) p hp
  | _ => exact hG trivial

/-! ## The result -/

/-- **The calls of a run get their own replies exactly when no step of the run frees the reply of a
waiting call.** -/
theorem replies_matched_iff {tr : List (Peer × Event)} {s : Peer} (h : system.Run tr s) :
    System.Throughout Matched tr s ↔ System.Meets Collected tr :=
  h.holds_iff (I := Inv) (by rintro _ rfl; exact inv_fresh) (fun _ _ _ hI hG hs => hI.step hG hs)
    (fun _ hI => hI.matched) (fun _ _ _ _ hG hs => not_matched_of_not_collected hG hs)

theorem run_of_events (es : List Event) {tr : List (Peer × Event)} {s : Peer}
    (h : System.exec step [] .fresh es = some (tr, s)) : system.Run tr s :=
  System.Run.exec (.start rfl) h

/-- One call at a time: its own reply comes back. -/
theorem replies_matched_single : ∃ tr s, system.Run tr s ∧
    s.calls 0 = .returned ['a'] (some ⟨⟨0, ['a']⟩, ['r']⟩) ∧ System.Throughout Matched tr s := by
  refine ⟨_, _, run_of_events [.enter 0 ['a'], .claim 0, .send 0 true, .reply ['r'],
    .collect 0] rfl, rfl, ?_⟩
  refine (replies_matched_iff (run_of_events [.enter 0 ['a'], .claim 0, .send 0 true,
    .reply ['r'], .collect 0] rfl)).2 ?_
  simp [System.Meets, Collected, Peer.fresh, Peer.setCall, Peer.freeResponse]

/-- A call that takes the slot after the reply of call `0` arrived and before call `0` looks frees
that reply, and call `0` returns the reply to the other payload. -/
theorem reply_of_other_call : ∃ tr s, system.Run tr s ∧
    s.calls 0 = .returned ['a'] (some ⟨⟨1, ['b']⟩, ['r', 'b']⟩) ∧
      ¬ System.Throughout Matched tr s := by
  refine ⟨_, _, run_of_events [.enter 0 ['a'], .claim 0, .send 0 true, .enter 1 ['b'],
    .reply ['r', 'a'], .claim 1, .send 1 true, .reply ['r', 'b'], .collect 0] rfl, rfl, ?_⟩
  intro h
  have := h.1.own 0 _ _ rfl
  simp at this

end CoWrite.Nm.Rpc
