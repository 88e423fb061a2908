import Mathlib.Data.List.Nodup
import Mathlib.Data.List.Perm.Subperm
import Mathlib.Logic.Function.Basic

/-!
# Chains of array indices

Hash chains as C programs keep them in an array: every bucket has a link to the index of its first
slot, every slot a link to the next one, and a negative link ends the chain. `Chains` holds the links,
`Linked` says which indices a chain runs through, and `Threads` that every live slot is on the chain of
its bucket, once, and that nothing else is on a chain.

* `Threads.insert`, `Threads.unlink`: a slot can be put in front of its chain and taken out again.
* `Threads.search`: looking through a chain ends, and finds a live slot of the bucket with the property
  if there is one.
-/

namespace CoWrite.Lib

universe u

/-- The links of all buckets and slots. -/
structure Chains (β : Type u) where
  heads : β → Int
  next : Nat → Int

/-- Where a link is kept. -/
inductive Link (β : Type u) where
  | head (b : β)
  | next (i : Nat)

namespace Chains

variable {β : Type u} [DecidableEq β]

def get (c : Chains β) : Link β → Int
  | .head b => c.heads b
  | .next i => c.next i

def set (c : Chains β) (v : Int) : Link β → Chains β
  | .head b => { c with heads := Function.update c.heads b v }
  | .next i => { c with next := Function.update c.next i v }

/-- The slot `i` goes in front of the chain of `b`. -/
def insert (c : Chains β) (b : β) (i : Nat) : Chains β where
  heads := Function.update c.heads b i
  next := Function.update c.next i (c.heads b)

/-- From the link on, look for the one that leads to `i` and make it skip `i`; nothing if `fuel` links
are too few. -/
def unlinkFrom (c : Chains β) (i : Nat) : Nat → Link β → Option (Chains β)
  | 0, _ => none
  | fuel + 1, link =>
    if c.get link < 0 then some c
    else if c.get link = i then some (c.set (c.next i) link)
    else unlinkFrom c i fuel (.next (c.get link).toNat)

/-- The first slot with `p` from the link `v` on. -/
def search (c : Chains β) (p : Nat → Bool) : Nat → Int → Option (Option Nat)
  | 0, _ => none
  | fuel + 1, v =>
    if v < 0 then some none
    else if p v.toNat then some (some v.toNat)
    else search c p fuel (c.next v.toNat)

/-! ## One chain -/

/-- From the link `v` the slots `l` follow, and `-1`. -/
def Linked (next : Nat → Int) : Int → List Nat → Prop
  | v, [] => v = -1
  | v, i :: l => v = i ∧ Linked next (next i) l

theorem Linked.congr {next next' : Nat → Int} {v : Int} {l : List Nat} (h : Linked next v l)
    (heq : ∀ i ∈ l, next' i = next i) : Linked next' v l := by
  induction l generalizing v with
  | nil => exact h
  | cons i l ih =>
    rw [List.forall_mem_cons] at heq
    obtain ⟨hv, hl⟩ := h
    refine ⟨hv, ?_⟩
    rw [heq.1]
    exact ih hl heq.2

omit [DecidableEq β] in
theorem search_linked {c : Chains β} (p : Nat → Bool) {v : Int} {l : List Nat} (h : Linked c.next v l)
    {fuel : Nat} (hf : l.length < fuel) : c.search p fuel v = some (l.find? p) := by
  induction l generalizing v fuel with
  | nil =>
    obtain ⟨fuel, rfl⟩ : ∃ k, fuel = k + 1 := ⟨fuel - 1, by omega⟩
    have hv : v = -1 := h
    simp [search, hv]
  | cons i l ih =>
    obtain ⟨fuel, rfl⟩ : ∃ k, fuel = k + 1 := ⟨fuel - 1, by omega⟩
    obtain ⟨rfl, hl⟩ := h
    have hfuel : l.length < fuel := by simpa using hf
    rw [search, if_neg (by omega), Int.toNat_natCast, List.find?_cons]
    cases p i with
    | true => simp
    | false => simpa using ih hl hfuel

theorem get_set_of_ne {c : Chains β} {v : Int} {link link' : Link β} (h : link ≠ link') :
    (c.set v link').get link = c.get link := by
  cases link with
  | head b =>
    cases link' with
    | head b' =>
      have hb : b ≠ b' := fun e => h (by rw [e])
      simp [set, get, hb]
    | next j => rfl
  | next i =>
    cases link' with
    | head b' => rfl
    | next j =>
      have hij : i ≠ j := fun e => h (by rw [e])
      simp [set, get, hij]

theorem get_set_self (c : Chains β) (v : Int) (link : Link β) : (c.set v link).get link = v := by
  cases link <;> simp [set, get]

theorem next_set_of_ne {c : Chains β} {v : Int} {link : Link β} {i : Nat} (h : Link.next i ≠ link) :
    (c.set v link).next i = c.next i :=
  get_set_of_ne h

/-- Unlinking along a chain: one link changes, the first one of the chain or that of another slot on
it, and the chain goes on without `i`. -/
theorem unlinkFrom_linked {c : Chains β} {i : Nat} {l : List Nat} (hl : l.Nodup) (hi : i ∈ l)
    {link : Link β} (h : Linked c.next (c.get link) l) (hlink : ∀ j ∈ l, Link.next j ≠ link) {fuel : Nat}
    (hf : l.length < fuel) :
    ∃ cut : Link β, (cut = link ∨ ∃ j ∈ l, j ≠ i ∧ cut = .next j) ∧
      c.unlinkFrom i fuel link = some (c.set (c.next i) cut) ∧
      Linked (c.set (c.next i) cut).next ((c.set (c.next i) cut).get link) (l.erase i) := by
  induction l generalizing link fuel with
  | nil => simp at hi
  | cons j l ih =>
    obtain ⟨fuel, rfl⟩ : ∃ k, fuel = k + 1 := ⟨fuel - 1, by omega⟩
    rw [List.forall_mem_cons] at hlink
    obtain ⟨hjl, hl⟩ := List.nodup_cons.1 hl
    obtain ⟨hv, hrest⟩ := h
    rw [unlinkFrom, if_neg (by omega), hv]
    by_cases hji : j = i
    · subst hji
      refine ⟨link, .inl rfl, by simp, ?_⟩
      rw [List.erase_cons_head, get_set_self]
      exact hrest.congr fun k hk => next_set_of_ne (hlink.2 k hk)
    · have hil : i ∈ l := by
        rcases List.mem_cons.1 hi with rfl | hil
        · exact absurd rfl hji
        · exact hil
      have hnext : ∀ k ∈ l, Link.next k ≠ (.next j : Link β) := by
        intro k hk e
        cases e
        exact hjl hk
      obtain ⟨cut, hcut, hrun, hlinked⟩ := @ih hl hil (.next j) hrest hnext fuel (by simpa using hf)
      have hne : link ≠ cut := by
        rcases hcut with rfl | ⟨k, hk, -, rfl⟩
        · exact (hlink.1).symm
        · exact (hlink.2 k hk).symm
      refine ⟨cut, .inr ?_, ?_, ?_⟩
      · rcases hcut with rfl | ⟨k, hk, hki, rfl⟩
        · exact ⟨j, by simp, hji, rfl⟩
        · exact ⟨k, by simp [hk], hki, rfl⟩
      · rw [if_neg (by omega), Int.toNat_natCast]
        exact hrun
      · rw [List.erase_cons_tail (by simpa using hji), get_set_of_ne hne, hv]
        exact ⟨rfl, hlinked⟩

/-! ## All chains -/

/-- The slots with a bucket are the ones on the chains, each once, on the chain of its bucket. -/
def Threads (c : Chains β) (bucket : Nat → Option β) : Prop :=
  ∃ chain : β → List Nat, ∀ b, Linked c.next (c.heads b) (chain b) ∧ (chain b).Nodup ∧
    ∀ i, i ∈ chain b ↔ bucket i = some b

omit [DecidableEq β] in
/-- No more slots are on a chain than have a bucket. -/
theorem length_chain_le {bucket : Nat → Option β} {l : List Nat} (hl : l.Nodup) {b : β}
    (h : ∀ i, i ∈ l ↔ bucket i = some b) {n : Nat} (hn : ∀ i, bucket i ≠ none → i < n) : l.length ≤ n := by
  have hsub : l ⊆ List.range n := fun i hi => by
    have := hn i (by rw [(h i).1 hi]; simp)
    simpa using this
  simpa using (List.subperm_of_subset hl hsub).length_le

theorem linked_insert {c : Chains β} {chain : β → List Nat} (h : ∀ b, Linked c.next (c.heads b) (chain b)) (b : β)
    {i : Nat} (hi : ∀ b, i ∉ chain b) (b' : β) :
    Linked (c.insert b i).next ((c.insert b i).heads b') (Function.update chain b (i :: chain b) b') := by
  have hkeep : Linked (c.insert b i).next (c.heads b') (chain b') :=
    (h b').congr fun j hj => Function.update_of_ne (ne_of_mem_of_not_mem hj (hi b')) _ _
  by_cases hb : b' = b
  · subst hb
    simp only [Chains.insert, Function.update_self, Linked, true_and]
    exact hkeep
  · rw [Function.update_of_ne hb, show (c.insert b i).heads b' = c.heads b' from Function.update_of_ne hb _ _]
    exact hkeep

theorem linked_setNext {c : Chains β} {chain : β → List Nat} (h : ∀ b, Linked c.next (c.heads b) (chain b)) {i : Nat}
    (hi : ∀ b, i ∉ chain b) (v : Int) (b : β) :
    Linked (c.set v (.next i)).next ((c.set v (.next i)).heads b) (chain b) := by
  refine (h b).congr fun j hj => next_set_of_ne fun e => ?_
  cases e
  exact hi b hj

theorem Threads.insert {c : Chains β} {bucket : Nat → Option β} (h : Threads c bucket) (b : β) {i : Nat}
    (hi : bucket i = none) : Threads (c.insert b i) (Function.update bucket i (some b)) := by
  obtain ⟨chain, h⟩ := h
  have hfree (b' : β) : i ∉ chain b' := fun hm => by
    rw [((h b').2.2 i).1 hm] at hi
    cases hi
  refine ⟨Function.update chain b (i :: chain b), fun b' => ⟨linked_insert (fun b => (h b).1) b hfree b', ?_⟩⟩
  obtain ⟨-, hnodup, hmem⟩ := h b'
  by_cases hb : b' = b
  · subst hb
    rw [Function.update_self]
    refine ⟨List.nodup_cons.2 ⟨hfree b', hnodup⟩, fun j => ?_⟩
    by_cases hj : j = i
    · subst hj
      simp
    · rw [Function.update_of_ne hj, ← hmem j]
      simp [hj]
  · rw [Function.update_of_ne hb]
    refine ⟨hnodup, fun j => ?_⟩
    by_cases hj : j = i
    · subst hj
      simpa [Function.update_self, hfree b'] using fun e => hb (by simpa using e.symm)
    · rw [Function.update_of_ne hj]
      exact hmem j

/-- The link of a slot that is on no chain does not matter. -/
theorem Threads.setNext {c : Chains β} {bucket : Nat → Option β} (h : Threads c bucket) {i : Nat}
    (hi : bucket i = none) (v : Int) : Threads (c.set v (.next i)) bucket := by
  obtain ⟨chain, h⟩ := h
  refine ⟨chain, fun b => ⟨linked_setNext (fun b => (h b).1) (fun b hm => ?_) v b, (h b).2⟩⟩
  rw [((h b).2.2 _).1 hm] at hi
  cases hi

theorem Threads.unlink {c : Chains β} {bucket : Nat → Option β} (h : Threads c bucket) {b : β} {i n : Nat}
    (hi : bucket i = some b) (hn : ∀ i, bucket i ≠ none → i < n) :
    ∃ c', c.unlinkFrom i (n + 1) (.head b) = some c' ∧ Threads c' (Function.update bucket i none) := by
  obtain ⟨chain, h⟩ := h
  obtain ⟨hlinked, hnodup, hmem⟩ := h b
  have hhead : Linked c.next (c.get (.head b)) (chain b) := hlinked
  have hlen := length_chain_le hnodup hmem hn
  obtain ⟨cut, hcut, hrun, hnew⟩ := unlinkFrom_linked hnodup ((hmem i).2 hi) hhead
    (fun j _ e => by cases e) (Nat.lt_succ_of_le hlen)
  refine ⟨_, hrun, Function.update chain b ((chain b).erase i), fun b' => ?_⟩
  by_cases hb : b' = b
  · subst hb
    rw [Function.update_self]
    refine ⟨hnew, hnodup.erase i, fun j => ?_⟩
    rw [hnodup.mem_erase_iff]
    by_cases hj : j = i
    · subst hj
      simp
    · rw [Function.update_of_ne hj, hmem j]
      simp [hj]
  · obtain ⟨hlinked', hnodup', hmem'⟩ := h b'
    rw [Function.update_of_ne hb]
    have hhead : Link.head b' ≠ cut := by
      rcases hcut with rfl | ⟨j, -, -, rfl⟩
      · exact fun e => hb (by cases e; rfl)
      · exact fun e => by cases e
    have hnext : ∀ j ∈ chain b', Link.next j ≠ cut := by
      intro j hj e
      rcases hcut with rfl | ⟨k, hk, -, rfl⟩
      · cases e
      · cases e
        have := ((hmem j).1 hk).symm.trans ((hmem' j).1 hj)
        exact hb (by simpa using this.symm)
    refine ⟨?_, hnodup', fun j => ?_⟩
    · rw [show (c.set (c.next i) cut).heads b' = c.heads b' from get_set_of_ne hhead]
      exact hlinked'.congr fun j hj => next_set_of_ne (hnext j hj)
    · by_cases hj : j = i
      · subst hj
        have hne : ¬ j ∈ chain b' := fun hm => hb (by simpa using (((hmem' j).1 hm).symm.trans hi))
        simpa using hne
      · rw [Function.update_of_ne hj]
        exact hmem' j

omit [DecidableEq β] in
/-- Looking through a chain ends, with a live slot of the bucket that has `p` if there is one. -/
theorem Threads.search {c : Chains β} {bucket : Nat → Option β} (h : Threads c bucket) (p : Nat → Bool) (b : β)
    {n : Nat} (hn : ∀ i, bucket i ≠ none → i < n) :
    ∃ r, c.search p (n + 1) (c.heads b) = some r ∧
      (∀ i, r = some i → bucket i = some b ∧ p i = true) ∧
      (r = none → ∀ i, bucket i = some b → p i = false) := by
  obtain ⟨chain, h⟩ := h
  obtain ⟨hlinked, hnodup, hmem⟩ := h b
  have hlen := length_chain_le hnodup hmem hn
  refine ⟨_, search_linked p hlinked (Nat.lt_succ_of_le hlen), fun i hi => ?_, fun hnone i hi => ?_⟩
  · exact ⟨(hmem i).1 (List.mem_of_find?_eq_some hi), List.find?_some hi⟩
  · simpa using List.find?_eq_none.1 hnone i ((hmem i).2 hi)

end Chains

end CoWrite.Lib
