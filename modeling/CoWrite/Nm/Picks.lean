import CoWrite.Lib.Rotation
import CoWrite.Nm.Availability

/-!
# Which server gets the next file

`nm_pick_server` starts behind the server it returned last, wherever the cursor stands by then.

* `nmPickServer_spec`: an available server if there is one, and the next one from the cursor on.
* `quiet_of_steps`: what the name manager does between two calls, as long as availability is the same behind it, leaves
  the turn as it is.
* `picks_rotate`: while availability does not change, as many calls as there are available servers return each of them
  once.
-/

namespace CoWrite.Nm

open CoWrite.Lib

/-- The server at the index is available. -/
def NmState.Up (s : NmState) (i : Nat) : Prop := s.available i = true

instance (s : NmState) : DecidablePred s.Up := fun i => inferInstanceAs (Decidable (s.available i = true))

/-- How many servers are available. -/
def NmState.upCount (s : NmState) : Nat := Nat.count s.Up s.servers.length

theorem NmState.Up.lt {s : NmState} {i : Nat} (h : s.Up i) : i < s.servers.length := by
  obtain ⟨-, ss, hget, -⟩ := available_iff.1 h
  exact (List.getElem?_eq_some_iff.1 hget).1

/-! ## One call -/

/-- The first offset at which a server is available is the next server. -/
theorem next_of_offset {p : Nat → Prop} {n start offset : Nat} (hp : ∀ i, p i → i < n) (hstart : start < n)
    (hoffset : offset < n) (hholds : p ((start + offset) % n)) (hfirst : ∀ j < offset, ¬ p ((start + j) % n)) :
    Next p start ((start + offset) % n) := by
  by_cases hwrap : start + offset < n
  · rw [Nat.mod_eq_of_lt hwrap] at hholds ⊢
    refine ⟨hholds, .inl ⟨Nat.le_add_right _ _, ?_⟩⟩
    intro j hj hlt hpj
    have hnot := hfirst (j - start) (by omega)
    rw [Nat.add_sub_cancel' hj, Nat.mod_eq_of_lt (by omega)] at hnot
    exact hnot hpj
  · have hmod : (start + offset) % n = start + offset - n := by
      rw [Nat.mod_eq_sub_mod (by omega), Nat.mod_eq_of_lt (by omega)]
    rw [hmod] at hholds ⊢
    refine ⟨hholds, .inr ⟨?_, ?_⟩⟩
    · intro j hj hpj
      have hlt := hp j hpj
      have hnot := hfirst (j - start) (by omega)
      rw [Nat.add_sub_cancel' hj, Nat.mod_eq_of_lt hlt] at hnot
      exact hnot hpj
    · intro j hlt hpj
      have hnot := hfirst (n - start + j) (by omega)
      rw [show start + (n - start + j) = n + j by omega, Nat.add_mod_left, Nat.mod_eq_of_lt (by omega)] at hnot
      exact hnot hpj

/-- **One call of `nm_pick_server`.** -/
theorem nmPickServer_spec (s : NmState) :
    ((nmPickServer s).1 = none ∧ (nmPickServer s).2 = s ∧ ∀ i, ¬ s.Up i) ∨
    ∃ i, (nmPickServer s).1 = some i ∧ (nmPickServer s).2 = { s with nextPrimaryIndex := (i + 1) % s.servers.length } ∧
      Next s.Up (s.nextPrimaryIndex % s.servers.length) i := by
  unfold nmPickServer
  dsimp only
  split
  · next hnone =>
    refine .inl ⟨rfl, rfl, ?_⟩
    intro i hi
    have hlt := hi.lt
    have hstart := Nat.mod_lt s.nextPrimaryIndex (Nat.zero_lt_of_lt hlt)
    rw [List.find?_eq_none] at hnone
    -- the offset at which the loop comes to the server
    have hoffset := hnone ((i + s.servers.length - s.nextPrimaryIndex % s.servers.length) % s.servers.length)
      (List.mem_range.2 (Nat.mod_lt _ (Nat.zero_lt_of_lt hlt)))
    rw [Nat.add_mod_mod, Nat.add_sub_cancel' (by omega), Nat.add_mod_right, Nat.mod_eq_of_lt hlt] at hoffset
    exact hoffset hi
  · next offset hsome =>
    rw [List.find?_range_eq_some] at hsome
    obtain ⟨hholds, hmem, hfirst⟩ := hsome
    have hoffset := List.mem_range.1 hmem
    refine .inr ⟨_, rfl, rfl, ?_⟩
    apply next_of_offset (fun i hi => hi.lt) (Nat.mod_lt _ (Nat.zero_lt_of_lt hoffset)) hoffset hholds
    intro j hj
    simpa [NmState.Up] using hfirst j hj

/-! ## Calls in a row -/

/-- What goes on between two calls while availability does not change; there may be more servers than before. -/
structure Quiet (s t : NmState) : Prop where
  available : ∀ i : Nat, t.available i = s.available i
  cursor : t.nextPrimaryIndex = s.nextPrimaryIndex
  servers : s.servers.length ≤ t.servers.length

/-- The results of calls of `nm_pick_server` from the state on. -/
inductive Picks : NmState → List (Option Nat) → Prop where
  | none (s : NmState) : Picks s []
  | call {s t : NmState} {rs : List (Option Nat)} (h : Quiet (nmPickServer s).2 t) (hrest : Picks t rs) :
      Picks s ((nmPickServer s).1 :: rs)

/-- Sections without a call of `nm_pick_server` are quiet if availability is what it was. -/
theorem quiet_of_steps {s t : NmState}
    (h : Relation.ReflTransGen (fun s t => ∃ e : Event, (∀ user json, e ≠ .createBegin user json) ∧
      tablesStep s e = some t) s t)
    (hup : ∀ i : Nat, t.available i = s.available i) : Quiet s t := by
  suffices hframe : t.nextPrimaryIndex = s.nextPrimaryIndex ∧ s.servers.length ≤ t.servers.length from
    ⟨hup, hframe.1, hframe.2⟩
  clear hup
  induction h with
  | refl => exact ⟨rfl, Nat.le_refl _⟩
  | tail _ hstep ih =>
    obtain ⟨e, he, hstep⟩ := hstep
    exact ⟨(cursor_frame hstep he).trans ih.1, ih.2.trans (servers_length_le hstep)⟩

theorem Quiet.up {s t : NmState} (h : Quiet s t) : t.Up = s.Up := by
  funext i
  unfold NmState.Up
  rw [h.available]

/-- The cursor behind a server is as good as its successor. -/
theorem next_of_cursor {p : Nat → Prop} {n n' i j : Nat} (hp : ∀ k, p k → k < n) (hn : n ≤ n') (hi : i < n)
    (h : Next p ((i + 1) % n % n') j) : Next p (i + 1) j := by
  have hlt : (i + 1) % n < n := Nat.mod_lt _ (Nat.zero_lt_of_lt hi)
  rw [Nat.mod_eq_of_lt (hlt.trans_le hn)] at h
  rcases Nat.lt_or_ge (i + 1) n with hsucc | hsucc
  · rwa [Nat.mod_eq_of_lt hsucc] at h
  · obtain rfl : i + 1 = n := by omega
    rw [Nat.mod_self] at h
    refine ⟨h.holds, .inr ⟨fun k hk hpk => absurd (hp k hpk) (Nat.not_lt.2 hk), ?_⟩⟩
    rcases h.first with ⟨-, hnone⟩ | ⟨hnone, -⟩
    · exact fun k hk => hnone k (Nat.zero_le k) hk
    · exact absurd h.holds (hnone j (Nat.zero_le j))

/-- While a server is available every call returns the next one. -/
theorem rotates_of_picks {s : NmState} {rs : List (Option Nat)} (h : Picks s rs) (hup : ∃ i, s.Up i) :
    ∃ l : List Nat, rs = l.map some ∧ Rotates s.Up (s.nextPrimaryIndex % s.servers.length) l := by
  induction h with
  | none s => exact ⟨[], rfl, trivial⟩
  | @call s t rs hquiet hrest ih =>
    rcases nmPickServer_spec s with ⟨-, -, hnone⟩ | ⟨i, hresult, hstate, hnext⟩
    · obtain ⟨i, hi⟩ := hup
      exact absurd hi (hnone i)
    · rw [hstate] at hquiet
      have hsame : t.Up = s.Up := hquiet.up
      rw [hsame] at ih
      obtain ⟨l, rfl, hl⟩ := ih hup
      refine ⟨i :: l, by rw [hresult]; rfl, hnext, ?_⟩
      cases l with
      | nil => trivial
      | cons j l =>
        refine ⟨?_, hl.2⟩
        have hfirst := hl.1
        rw [hquiet.cursor] at hfirst
        exact next_of_cursor (fun k hk => hk.lt) hquiet.servers hnext.holds.lt hfirst

/-- **The servers take turns.** A call returns an available server whenever there is one, and nothing otherwise; and of
any calls in a row, while availability does not change, as many as there are available servers return each of them
once. -/
theorem picks_rotate (s : NmState) :
    (∀ i, (nmPickServer s).1 = some i → s.Up i) ∧ ((nmPickServer s).1 = none ↔ ∀ i, ¬ s.Up i) ∧
    ∀ before rs after, Picks s (before ++ rs ++ after) → rs.length = s.upCount →
      ∃ l : List Nat, rs = l.map some ∧ l.Nodup ∧ ∀ i, i ∈ l ↔ s.Up i := by
  refine ⟨?_, ?_, ?_⟩
  · intro i hi
    rcases nmPickServer_spec s with ⟨hnone, -⟩ | ⟨j, hsome, -, hnext⟩
    · rw [hnone] at hi
      cases hi
    · rw [hsome] at hi
      cases hi
      exact hnext.holds
  · rcases nmPickServer_spec s with ⟨hnone, -, hdown⟩ | ⟨j, hsome, -, hnext⟩
    · exact iff_of_true hnone hdown
    · rw [hsome]
      exact iff_of_false (by simp) fun hdown => hdown j hnext.holds
  · intro before rs after hpicks hlen
    have hbound : ∀ j, s.servers.length ≤ j → ¬ s.Up j := fun j hj hup => absurd hup.lt (Nat.not_lt.2 hj)
    by_cases hup : ∃ i, s.Up i
    · obtain ⟨l, hl, hrotates⟩ := rotates_of_picks hpicks hup
      obtain ⟨firsts, l₃, rfl, hfirsts, -⟩ := List.map_eq_append_iff.1 hl.symm
      obtain ⟨l₁, l₂, rfl, -, rfl⟩ := List.map_eq_append_iff.1 hfirsts
      obtain ⟨-, c, hturns⟩ := hrotates.of_append.1.of_append
      rw [List.length_map] at hlen
      refine ⟨l₂, rfl, hturns.nodup hbound hlen.le, ?_⟩
      intro i
      exact ⟨hturns.holds i, hturns.mem hbound hlen⟩
    · have hzero : s.upCount = 0 := Nat.count_iff_forall_not.2 fun i _ hi => hup ⟨i, hi⟩
      rw [hzero, List.length_eq_zero_iff] at hlen
      exact ⟨[], hlen, List.nodup_nil, fun i => iff_of_false (by simp) fun hi => hup ⟨i, hi⟩⟩

end CoWrite.Nm
