import CoWrite.Nm.Payload
import CoWrite.Nm.Stored
import CoWrite.Ss.Updates

/-!
# Notices of entries

`notify_nm_file_update` prints an entry, and `handle_ss_file_update` reads what it was sent. The notice of an entry
that is `Sized` and `Countable` fits the buffers (`notify_of_sized`) and is read as it was meant
(`readFileUpdate_updateMessage`).
-/

namespace CoWrite.Cluster

open CoWrite.Nm
open CoWrite.Ss (SsFile SS_NAME_MAX SS_USER_MAX MAX_JSON fileUpdateFields notifyNmFileUpdate)

/-- What the buffers of an entry hold, and its times. -/
structure Sized (file : SsFile) : Prop where
  name : file.name.length < SS_NAME_MAX
  owner : file.owner.length < SS_USER_MAX
  lastAccessUser : file.lastAccessUser.length < SS_USER_MAX
  modified : LONG_MIN ≤ file.modified ∧ file.modified ≤ LONG_MAX
  lastAccess : LONG_MIN ≤ file.lastAccess ∧ file.lastAccess ≤ LONG_MAX

/-- Counts that an `int` holds. -/
structure Countable (file : SsFile) : Prop where
  words : file.wordCount < 2 ^ 31
  chars : file.charCount < 2 ^ 31

theorem sized_newFile (state : Ss.SsState) (f : FileName) (owner : Text) {now : Int} (hnow : IsTime now) :
    Sized (Ss.newFile state f.text owner now) := by
  have hname : (Ss.newFile state f.text owner now).name = f.text := Text.copyTo_eq_self f.short
  refine ⟨?_, Text.length_copyTo_lt _ (by decide), Text.length_copyTo_lt _ (by decide), hnow, hnow⟩
  rw [hname]
  exact f.short

/-- The entry of a text that was replaced. -/
theorem sized_of_restamped {text user : Text} {now : Int} (hnow : IsTime now) {file view : SsFile} (hsized : Sized file)
    (hview : Ss.Restamped text user now file view) : Sized view := by
  refine ⟨?_, ?_, ?_, ?_, ?_⟩
  · rw [hview.name]
    exact hsized.name
  · rw [hview.owner]
    exact hsized.owner
  · rw [hview.lastAccessUser]
    exact Text.length_copyTo_lt _ (by decide)
  · rw [hview.modified]
    exact hnow
  · rw [hview.lastAccess]
    exact hnow

/-- The notice of an entry. -/
def updateMessage (file : SsFile) : Text :=
  printMessage (fileUpdateFields file (jsonEscape file.name) (jsonEscape file.owner) (jsonEscape file.lastAccessUser))

/-- A notice is about the file of the entry. -/
theorem file_of_notice {file : SsFile} (hname : file.name.length < SS_NAME_MAX) {frame : Text}
    (hframe : frame ∈ notifyNmFileUpdate file) {u : FileUpdate} (hread : readFileUpdate frame = some u) :
    u.file = file.name := by
  have htype : WellFormed [(Text.lit "type", .string (Text.lit "SS_FILE_UPDATE"))] := by
    intro f hf
    rw [List.mem_singleton.1 hf]
    decide
  unfold notifyNmFileUpdate at hframe
  split at hframe
  · next name owner last hescape _ _ =>
    have hescaped : name = jsonEscape file.name := by
      rw [jsonEscapeString_of_length hname] at hescape
      exact (Option.some.inj hescape).symm
    dsimp only at hframe
    split at hframe
    · cases hframe
    rw [List.mem_singleton.1 hframe, hescaped] at hread
    have hfile := @jsonGetString_escaped (Text.lit "file") (by decide) (by decide) _ _ htype
      (by simp [NoString, Text.lit]) _ hname (fileUpdateFields file (jsonEscape file.name) owner last |>.drop 2)
    unfold readFileUpdate at hread
    split at hread
    · next name' _ hname' _ =>
      cases hread
      exact Option.some.inj (hname'.symm.trans hfile)
    · cases hread
  · cases hframe

section Notice

variable {file : SsFile} (h : Sized file)

include h

/-- Whatever its counts, the notice of an entry is sent. -/
theorem notify_of_sizes (hcountWords : file.wordCount < 2 ^ 64) (hcountChars : file.charCount < 2 ^ 64) :
    notifyNmFileUpdate file = [updateMessage file] := by
  have hnat {n : Nat} (hn : n < 2 ^ 64) : (printNat n).length ≤ 20 := length_printNat_le (by decide) (by omega)
  have hname := h.name
  have howner := h.owner
  have hlast := h.lastAccessUser
  have hname' := length_jsonEscape_le file.name
  have howner' := length_jsonEscape_le file.owner
  have hlast' := length_jsonEscape_le file.lastAccessUser
  have hwords := hnat hcountWords
  have hchars := hnat hcountChars
  have hmodified := length_printInt_le h.modified
  have hlastAccess := length_printInt_le h.lastAccess
  have hfits : ¬ (updateMessage file).length ≥ MAX_JSON := by
    simp only [SS_NAME_MAX, SS_USER_MAX, MAX_JSON] at hname howner hlast ⊢
    simp [updateMessage, printMessage, fileUpdateFields, printFields, printField, Value.print, Text.lit]
    omega
  unfold notifyNmFileUpdate
  rw [jsonEscapeString_of_length h.name, jsonEscapeString_of_length h.owner, jsonEscapeString_of_length h.lastAccessUser]
  exact if_neg hfits

/-- What `handle_ss_file_update` reads in a notice: each number comes through a `long` and an `int`. -/
theorem readFileUpdate_notice : readFileUpdate (updateMessage file) =
    some ⟨file.name, (toInt32 (clampLong file.wordCount)).toNat, (toInt32 (clampLong file.charCount)).toNat,
      toInt32 file.modified, toInt32 file.lastAccess, file.lastAccessUser⟩ := by
  have hstring (key : String) (v : Text) (hkey : IsKey (Text.lit key)) :
      IsKey (Text.lit key) ∧ (Value.string (jsonEscape v)).WellFormed := ⟨hkey, (escaped_jsonEscape v).1⟩
  have hnumber (key : String) (z : Int) (hkey : IsKey (Text.lit key)) :
      IsKey (Text.lit key) ∧ (Value.number (printInt z)).WellFormed := ⟨hkey, quote_not_mem_printInt z⟩
  have htype : IsKey (Text.lit "type") ∧ (Value.string (Text.lit "SS_FILE_UPDATE")).WellFormed := by decide
  -- the message, cut before each field that is read
  obtain ⟨fields, hfields⟩ : ∃ fields, fields =
    fileUpdateFields file (jsonEscape file.name) (jsonEscape file.owner) (jsonEscape file.lastAccessUser) := ⟨_, rfl⟩
  have hmessage : updateMessage file = printMessage fields := by
    rw [updateMessage, hfields]
  have hwell : WellFormed fields := by
    intro f hf
    simp only [hfields, fileUpdateFields, List.mem_cons, List.not_mem_nil, or_false] at hf
    rcases hf with rfl | rfl | rfl | rfl | rfl | rfl | rfl | rfl
    · exact htype
    · exact hstring "file" _ (by decide)
    · exact hstring "owner" _ (by decide)
    · exact hnumber "words" file.wordCount (by decide)
    · exact hnumber "chars" file.charCount (by decide)
    · exact hnumber "modified" _ (by decide)
    · exact hnumber "lastAccess" _ (by decide)
    · exact hstring "lastAccessUser" _ (by decide)
  have hpre (n : Nat) : WellFormed (fields.take n) := fun f hf => hwell f (List.mem_of_mem_take hf)
  have hread (i : Nat) {key : Text} {v : Text} {n : Nat}
      (hat : fields = fields.take i ++ (key, .string (jsonEscape v)) :: fields.drop (i + 1)) (hkey : IsKey key)
      (hlen : key.length < 124) (hno : NoString key (fields.take i)) (hv : v.length < n) :
      jsonGetString (updateMessage file) key n = some v := by
    rw [hmessage, hat]
    exact jsonGetString_escaped hkey hlen (hpre i) hno hv _
  have hreadInt (i : Nat) {key : Text} {z : Int}
      (hat : fields = fields.take i ++ (key, .number (printInt z)) :: fields.drop (i + 1)) (hkey : IsKey key)
      (hlen : key.length < 124) (hne : ∀ f ∈ fields.take i, f.1 ≠ key) :
      jsonGetInt (updateMessage file) key = some (toInt32 (clampLong z)) := by
    rw [hmessage, hat]
    exact jsonGetInt_printed hkey hlen (hpre i) hne z _
  have hfile : jsonFile (updateMessage file) = some file.name := by
    refine hread 1 ?_ (by decide) (by decide) ?_ h.name
    · rw [hfields]
      rfl
    · simp [hfields, fileUpdateFields, NoString, Text.lit]
  have hlast : jsonGetString (updateMessage file) (Text.lit "lastAccessUser") NM_MAX_USER = some file.lastAccessUser := by
    refine hread 7 ?_ (by decide) (by decide) ?_ h.lastAccessUser
    · rw [hfields]
      rfl
    · simp [hfields, fileUpdateFields, NoString, Text.lit]
  have hwordsRead : jsonGetInt (updateMessage file) (Text.lit "words") =
      some (toInt32 (clampLong file.wordCount)) := by
    refine hreadInt 3 ?_ (by decide) (by decide) ?_
    · rw [hfields]
      rfl
    · simp [hfields, fileUpdateFields, Text.lit]
  have hcharsRead : jsonGetInt (updateMessage file) (Text.lit "chars") =
      some (toInt32 (clampLong file.charCount)) := by
    refine hreadInt 4 ?_ (by decide) (by decide) ?_
    · rw [hfields]
      rfl
    · simp [hfields, fileUpdateFields, Text.lit]
  have hmodified : jsonGetInt (updateMessage file) (Text.lit "modified") = some (toInt32 file.modified) := by
    rw [← clampLong_eq_self h.modified]
    refine hreadInt 5 ?_ (by decide) (by decide) ?_
    · rw [hfields]
      rfl
    · simp [hfields, fileUpdateFields, Text.lit]
  have hlastAccess : jsonGetInt (updateMessage file) (Text.lit "lastAccess") = some (toInt32 file.lastAccess) := by
    rw [← clampLong_eq_self h.lastAccess]
    refine hreadInt 6 ?_ (by decide) (by decide) ?_
    · rw [hfields]
      rfl
    · simp [hfields, fileUpdateFields, Text.lit]
  unfold readFileUpdate updateCount
  rw [hfile, hlast, hwordsRead, hcharsRead, hmodified, hlastAccess]
  rfl

section Countable

variable (hcounts : Countable file)

include hcounts

theorem notify_of_sized : notifyNmFileUpdate file = [updateMessage file] :=
  notify_of_sizes h (hcounts.words.trans (by decide)) (hcounts.chars.trans (by decide))

/-- **A notice is read as it was meant.** -/
theorem readFileUpdate_updateMessage : readFileUpdate (updateMessage file) =
    some ⟨file.name, file.wordCount, file.charCount, toInt32 file.modified, toInt32 file.lastAccess, file.lastAccessUser⟩ := by
  have hcount {n : Nat} (hn : n < 2 ^ 31) : (toInt32 (clampLong n)).toNat = n := by
    rw [toInt32_clampLong_natCast hn]
    rfl
  rw [readFileUpdate_notice h, hcount hcounts.words, hcount hcounts.chars]

end Countable

end Notice

end CoWrite.Cluster
