import CoWrite.Ss.Net

/-!
# The buffer of a message

`net_recv_json` allocates one byte more than the length in the header, computed in 32 bits, and `recv_all` writes what
the peer sends into it.

* `recvAllAt_eq`: the stores of `recv_all`, and how it ends.
* `recv_within_iff`: all stores stay inside the allocation, unless the length is `2 ^ 32 - 1` and a byte follows it.
-/

namespace CoWrite.Ss.Net

open CoWrite.Lib

/-! ## The stores -/

/-- Bytes that are stored behind each other. -/
structure Store where
  offset : Nat
  count : Nat
deriving DecidableEq, Repr

structure Reception where
  /-- What `recv_all` returns; nothing when it still waits at the end of the schedule. -/
  ok : Option Bool
  stores : List Store
  rest : Text
  calls : List Ret

/-- The loop of `recv_all` from `total` on, with the stores of its calls of `recv`. -/
def recvAllAt : List Ret → Nat → Nat → Text → Reception
  | [], len, total, stream => ⟨if total < len then none else some true, [], stream, []⟩
  | call :: calls, len, total, stream =>
    if total < len then
      match call with
      | .eintr => recvAllAt calls len total stream
      | .error => ⟨some false, [], stream, calls⟩
      | .count n =>
        let recvd := (stream.take (min n (len - total))).length
        if recvd = 0 then ⟨some false, [], stream, calls⟩
        else
          let later := recvAllAt calls len (total + recvd) (stream.drop recvd)
          { later with stores := ⟨total, recvd⟩ :: later.stores }
    else ⟨some true, [], stream, call :: calls⟩

/-- How many bytes are stored. -/
def stored (stores : List Store) : Nat := (stores.map Store.count).sum

@[simp] theorem stored_nil : stored [] = 0 := rfl

@[simp] theorem stored_cons (w : Store) (stores : List Store) : stored (w :: stores) = w.count + stored stores := rfl

@[simp] theorem stored_append (stores stores' : List Store) : stored (stores ++ stores') = stored stores + stored stores' := by
  rw [stored, List.map_append, List.sum_append]
  rfl

/-- What `net_recv_json` allocates for a message and stores there. -/
structure Buffering where
  allocated : Nat
  stores : List Store
deriving DecidableEq, Repr

/-- `net_recv_json`: its allocation, if there is one, and the stores into it, the terminator the last. `len` is a
`uint32_t`, and so is `len + 1`. -/
def netRecvBuffer (memory : Nat → Bool) (calls : List Ret) (stream : Text) : Option Buffering :=
  let header := recvAllAt calls 4 0 stream
  if header.ok = some true then
    let len := ntohl (stream.take 4) % 2 ^ 32
    let size := (len + 1) % 2 ^ 32
    if memory size then
      let body := recvAllAt header.calls len 0 header.rest
      some ⟨size, body.stores ++ if body.ok = some true then [⟨len, 1⟩] else []⟩
    else none
  else none

/-- Every byte is stored inside the allocation, and there are no more bytes than it has. -/
structure Buffering.Within (b : Buffering) : Prop where
  inside : ∀ w ∈ b.stores, w.offset + w.count ≤ b.allocated
  bytes : stored b.stores ≤ b.allocated

/-- The next call that is not interrupted receives a byte. -/
def arrives : List Ret → Text → Bool
  | .eintr :: calls, stream => arrives calls stream
  | .count n :: _, stream => decide (0 < n) && !stream.isEmpty
  | _, _ => false

/-- The length is the largest there is, `malloc(0)` returns a block, and a byte of the message arrives. -/
def Overflows (memory : Nat → Bool) (calls : List Ret) (stream : Text) : Prop :=
  let header := recvAllAt calls 4 0 stream
  header.ok = some true ∧ ntohl (stream.take 4) % 2 ^ 32 = 2 ^ 32 - 1 ∧ memory 0 = true ∧
    arrives header.calls header.rest = true

/-! ## One message -/

theorem length_take_min (stream : Text) (n m : Nat) : (stream.take (min n m)).length ≤ m := by
  rw [List.length_take]
  omega

section Loop

variable {calls : List Ret} {len total : Nat} {stream : Text}

theorem recvAllAt_done : recvAllAt calls len len stream = ⟨some true, [], stream, calls⟩ := by
  cases calls with
  | nil => simp [recvAllAt]
  | cons call calls => cases call <;> simp [recvAllAt]

/-- `recv_all` is the transfer of the bytes that it stores. -/
theorem recvAllAt_eq (h : total ≤ len) :
    recvAll calls stream (len - total) = (recvAllAt calls len total stream).ok.map fun ok =>
      ⟨ok, stream.take (stored (recvAllAt calls len total stream).stores), (recvAllAt calls len total stream).rest,
        (recvAllAt calls len total stream).calls⟩ := by
  unfold recvAll
  induction calls generalizing total stream with
  | nil =>
    rcases Nat.eq_or_lt_of_le h with rfl | hlt
    · rw [recvAllAt_done, Nat.sub_self, transfer_zero]
      rfl
    · obtain ⟨left, hleft⟩ : ∃ left, len - total = left + 1 := ⟨len - total - 1, by omega⟩
      rw [hleft, transfer, recvAllAt, if_pos hlt]
      rfl
  | cons call calls ih =>
    rcases Nat.eq_or_lt_of_le h with rfl | hlt
    · rw [recvAllAt_done, Nat.sub_self, transfer_zero]
      rfl
    obtain ⟨left, hleft⟩ : ∃ left, len - total = left + 1 := ⟨len - total - 1, by omega⟩
    cases call with
    | eintr =>
      rw [hleft, transfer, ← hleft, recvAllAt, if_pos hlt]
      exact ih h
    | error =>
      rw [hleft, transfer, recvAllAt, if_pos hlt]
      rfl
    | count n =>
      rw [hleft, transfer, recvAllAt, if_pos hlt, hleft]
      generalize hfirst : stream.take (min n (left + 1)) = first
      have hcount : first.length ≤ left + 1 := by
        rw [← hfirst]
        exact length_take_min stream n (left + 1)
      dsimp only
      by_cases hnone : first.length = 0
      · rw [if_pos hnone, List.length_eq_zero_iff.1 hnone]
        rfl
      · have hne : first.isEmpty = false := by
          rw [List.isEmpty_eq_false_iff]
          rintro rfl
          exact hnone rfl
        have hleft' : left + 1 - first.length = len - (total + first.length) := by omega
        rw [if_neg hnone, hne, if_neg Bool.false_ne_true, hleft', ih (by omega)]
        have htake : first = stream.take first.length := by
          rw [← hfirst, List.length_take, List.take_eq_take_iff]
          omega
        cases (recvAllAt calls len (total + first.length) (stream.drop first.length)).ok with
        | none => rfl
        | some ok =>
          simp only [Option.map_some, Transferred.after, stored_cons, List.take_add, Option.some.injEq,
            Transferred.mk.injEq, and_true, true_and]
          rw [← htake]

/-- The stores lie behind each other, up to the length at most. -/
theorem recvAllAt_inside (h : total ≤ len) :
    (∀ w ∈ (recvAllAt calls len total stream).stores, w.offset + w.count ≤ len) ∧
      total + stored (recvAllAt calls len total stream).stores ≤ len := by
  induction calls generalizing total stream with
  | nil => exact ⟨by simp [recvAllAt], h⟩
  | cons call calls ih =>
    have hnone : (∀ w ∈ ([] : List Store), w.offset + w.count ≤ len) ∧ total + stored [] ≤ len := ⟨by simp, h⟩
    by_cases hlt : total < len
    swap
    · cases call <;> simpa only [recvAllAt, if_neg hlt] using hnone
    cases call with
    | eintr =>
      rw [recvAllAt, if_pos hlt]
      exact ih h
    | error =>
      rw [recvAllAt, if_pos hlt]
      exact hnone
    | count n =>
      have hrecvd := length_take_min stream n (len - total)
      rw [recvAllAt, if_pos hlt]
      dsimp only
      split
      · exact hnone
      · obtain ⟨hinside, hbytes⟩ := @ih (total + (stream.take (min n (len - total))).length)
          (stream.drop (stream.take (min n (len - total))).length) (by omega)
        refine ⟨?_, ?_⟩
        · rw [List.forall_mem_cons]
          refine ⟨?_, hinside⟩
          show total + (stream.take (min n (len - total))).length ≤ len
          omega
        · rw [stored_cons]
          dsimp only
          omega

/-- Where a byte is awaited, one is stored or the function fails. -/
theorem recvAllAt_waiting (h : total < len) :
    if arrives calls stream then ∃ w ∈ (recvAllAt calls len total stream).stores, 0 < w.count
    else (recvAllAt calls len total stream).stores = [] ∧ (recvAllAt calls len total stream).ok ≠ some true := by
  induction calls with
  | nil => simp [arrives, recvAllAt, h]
  | cons call calls ih =>
    cases call with
    | eintr =>
      rw [recvAllAt, if_pos h]
      exact ih
    | error =>
      rw [recvAllAt, if_pos h]
      simp [arrives]
    | count n =>
      have hlength : (stream.take (min n (len - total))).length = 0 ↔ n = 0 ∨ stream = [] := by
        rw [List.length_take, ← List.length_eq_zero_iff]
        omega
      rw [recvAllAt, if_pos h]
      simp only [arrives, Bool.and_eq_true, decide_eq_true_eq, Bool.not_eq_true', List.isEmpty_eq_false_iff]
      split
      · next harrives =>
        have hne : ¬ (stream.take (min n (len - total))).length = 0 := by
          rw [hlength]
          rintro (hn | hs)
          · exact absurd harrives.1 (by omega)
          · exact harrives.2 hs
        rw [if_neg hne]
        exact ⟨_, List.mem_cons_self, Nat.pos_of_ne_zero hne⟩
      · next harrives =>
        have hzero : (stream.take (min n (len - total))).length = 0 := by
          rw [hlength]
          by_contra hnone
          rw [not_or] at hnone
          exact harrives ⟨Nat.pos_of_ne_zero hnone.1, hnone.2⟩
        rw [if_pos hzero]
        exact ⟨rfl, by simp⟩

end Loop

/-- **The stores stay inside the allocation**, unless its size has wrapped to zero and a byte arrives. -/
theorem recv_within_iff (memory : Nat → Bool) (calls : List Ret) (stream : Text) :
    (∀ b, netRecvBuffer memory calls stream = some b → b.Within) ↔ ¬ Overflows memory calls stream := by
  unfold netRecvBuffer Overflows
  dsimp only
  generalize recvAllAt calls 4 0 stream = header
  have hlen := Nat.mod_lt (ntohl (stream.take 4)) (show 0 < 2 ^ 32 by decide)
  generalize ntohl (stream.take 4) % 2 ^ 32 = len at hlen ⊢
  by_cases hok : header.ok = some true
  swap
  · simp [hok]
  rw [if_pos hok]
  by_cases hmax : len = 2 ^ 32 - 1
  · -- nothing is allocated, so nothing may be stored
    subst hmax
    have hwaiting := @recvAllAt_waiting header.calls (2 ^ 32 - 1) 0 header.rest (by decide)
    have hsize : (2 ^ 32 - 1 + 1) % 2 ^ 32 = 0 := rfl
    rw [hsize]
    cases harrives : arrives header.calls header.rest with
    | true =>
      rw [harrives, if_pos rfl] at hwaiting
      obtain ⟨w, hw, hcount⟩ := hwaiting
      cases memory 0 with
      | false => simp
      | true =>
        simp only [if_true, Option.some.injEq, forall_eq', hok, and_self, not_true, iff_false]
        intro hwithin
        have hinside : w.offset + w.count ≤ 0 := hwithin.inside w (List.mem_append_left _ hw)
        omega
    | false =>
      rw [harrives, if_neg Bool.false_ne_true] at hwaiting
      obtain ⟨hstores, hfailed⟩ := hwaiting
      rw [hstores, if_neg hfailed]
      simp only [Bool.false_eq_true, and_false, not_false_eq_true, iff_true]
      intro b hb
      obtain ⟨-, hb⟩ := Option.ite_none_right_eq_some.1 hb
      cases hb
      exact ⟨by simp, Nat.le_refl 0⟩
  · have hsize : (len + 1) % 2 ^ 32 = len + 1 := Nat.mod_eq_of_lt (by omega)
    obtain ⟨hinside, hbytes⟩ := @recvAllAt_inside header.calls len 0 header.rest (Nat.zero_le _)
    rw [hsize]
    simp only [hmax, false_and, and_false, not_false_eq_true, iff_true]
    intro b hb
    obtain ⟨-, hb⟩ := Option.ite_none_right_eq_some.1 hb
    cases hb
    refine ⟨?_, ?_⟩
    · intro w hw
      rcases List.mem_append.1 hw with hw | hw
      · exact (hinside w hw).trans (Nat.le_succ len)
      · split at hw
        · obtain rfl := List.mem_singleton.1 hw
          exact Nat.le_refl _
        · cases hw
    · have hlast : stored (if (recvAllAt header.calls len 0 header.rest).ok = some true then [⟨len, 1⟩] else []) ≤ 1 := by
        split <;> simp
      show stored (_ ++ _) ≤ len + 1
      rw [stored_append]
      omega

/-- The header is four bytes 255, and one byte of the message follows. -/
theorem largest_length_overflows :
    netRecvBuffer (fun _ => true) [.count 4, .count 1] (List.replicate 4 'ÿ' ++ ['x']) = some ⟨0, [⟨0, 1⟩]⟩ ∧
      ¬ Buffering.Within ⟨0, [⟨0, 1⟩]⟩ := by
  refine ⟨by decide +kernel, ?_⟩
  intro hwithin
  exact absurd hwithin.bytes (by decide)

end CoWrite.Ss.Net
