import CoWrite.Client.Cut

/-!
# The client's listings

`handle_view`, `handle_list_users` and `print_checkpoint_list` as scans of the reply, and what they make of a list of
entries.

* `scan_eq_iff`: a parser that takes the entries one by one.
* `length_scanFiles_le`: no file gives two lines, whatever stands in its names.
-/

namespace CoWrite.Client

open CoWrite.Nm
open CoWrite.Cluster (isOk)
open CoWrite.Cluster.Handlers

/-! ## The parsers -/

/-- What is shown of a file with `-l`, before the servers are described. -/
structure ViewDetails where
  owner : Text
  words : Int
  chars : Int
  lastUser : Text
  primary : Text
  primaryStatus : Text
  backup : Text
  backupStatus : Text
deriving DecidableEq, Repr

structure ViewLine where
  name : Text
  details : Option ViewDetails
deriving DecidableEq, Repr

/-- What is printed of one chunk. -/
def viewLine (chunk : Text) : Option ViewLine :=
  (jsonGetString chunk (Text.lit "name") 128).map fun name =>
    { name
      details :=
        match jsonGetString chunk (Text.lit "owner") 128, jsonGetInt chunk (Text.lit "words"),
          jsonGetInt chunk (Text.lit "chars"), jsonGetString chunk (Text.lit "lastAccessUser") 128 with
        | some owner, some words, some chars, some lastUser =>
          some
            { owner, words, chars, lastUser
              primary := readInto [] chunk (Text.lit "primaryServer") 128
              backup := readInto [] chunk (Text.lit "backupServer") 128
              primaryStatus := readInto [] chunk (Text.lit "primaryStatus") 32
              backupStatus := readInto [] chunk (Text.lit "backupStatus") 32 }
        | _, _, _, _ => none }

/-- The loop of `handle_view`; a chunk has 512 bytes. -/
def scanFiles : Text → List ViewLine
  | [] => []
  | c :: s =>
    if c = '{' then
      match h : strchr '}' (c :: s) with
      | none => []
      | some (lead, rest) =>
        have : rest.length ≤ s.length := Nat.le_of_lt_succ (length_strchr h)
        (viewLine ((lead ++ ['}']).take 511)).toList ++ scanFiles rest
    else if c = ']' then []
    else scanFiles s
termination_by s => s.length

/-- `handle_view` after the call: the lines it prints, where the reply is a list. -/
def handleView (response : Text) : Option (List ViewLine) :=
  if !isOk response then none
  else
    match strstr (Text.lit "\"files\":[") response with
    | none => some []
    | some pos => some (scanFiles pos)

/-- The loop of `handle_list_users`. -/
def scanUsers : Text → List Text
  | [] => []
  | c :: s =>
    if c = ']' then []
    else if c = '"' then
      match h : strchr '"' s with
      | none => []
      | some (name, rest) =>
        have := length_strchr h
        name :: scanUsers rest
    else scanUsers s
termination_by s => s.length

/-- `handle_list_users` after the call. -/
def handleListUsers (response : Text) : Option (List Text) :=
  if !isOk response then none
  else
    match strstr (Text.lit "\"users\":[") response with
    | none => some []
    | some pos => some (scanUsers pos)

/-- A checkpoint as it is read; no timestamp is shown as an unknown one. -/
structure CheckpointLine where
  tag : Text
  user : Text
  timestamp : Option Int
deriving DecidableEq, Repr

/-- What is read from one object. -/
def checkpointLine (obj : Text) : CheckpointLine where
  tag := readInto [] obj (Text.lit "tag") 128
  user := readInto [] obj (Text.lit "user") 128
  timestamp :=
    let timestamp := readInto [] obj (Text.lit "timestamp") 32
    if timestamp.isEmpty then none else some (toInt32 (atol timestamp))

/-- The loop of `print_checkpoint_list`. -/
def scanCheckpoints (p : Text) : List CheckpointLine :=
  match hp : p.dropWhile fun c => isSpace c || c == ',' with
  | [] => []
  | c :: s =>
    have : (c :: s).length ≤ p.length := hp ▸ (List.dropWhile_suffix _).length_le
    if c ≠ '{' then []
    else
      match h : strchr '}' (c :: s) with
      | none => []
      | some (lead, rest) =>
        have := length_strchr h
        checkpointLine (lead ++ ['}']) :: scanCheckpoints rest
termination_by p.length

/-- `print_checkpoint_list`. -/
def printCheckpointList (response : Text) : List CheckpointLine :=
  match strstr (Text.lit "\"checkpoints\":") response with
  | none => []
  | some marker =>
    match marker.dropWhile (· ≠ '[') with
    | [] => []
    | _ :: p => scanCheckpoints p
/-! ## Lists of entries -/

/-- Entries with commas, before each one or before each one but the first. -/
def separated (first : Bool) (entries : List Text) : Text :=
  if first then List.intercalate [','] entries else (entries.map fun s => ',' :: s).flatten

theorem separated_nil (first : Bool) : separated first [] = [] := by
  cases first <;> rfl

theorem separated_cons (first : Bool) (s : Text) (entries : List Text) :
    separated first (s :: entries) = (if first then [] else [',']) ++ (s ++ separated false entries) := by
  cases first with
  | true => exact intercalate_comma s entries
  | false => simp [separated]

/-- A parser that takes the entries one by one, each of them as it was encoded or not, recovers a list when it takes
each entry so. -/
theorem scan_eq_iff {α β : Type} {scan : Text → List β} {text : α → Text} (line : α → β) {good : α → Prop}
    (hend : ∀ s, scan (']' :: s) = []) (as : List α)
    (hstep : ∀ a ∈ as, ∀ first s, ∃ shown rest, scan ((if first = true then [] else [',']) ++ (text a ++ s)) = shown :: rest ∧
      (shown = line a ↔ good a) ∧ (good a → rest = scan s)) (first : Bool) (s : Text) :
    scan (separated first (as.map text) ++ ']' :: s) = as.map line ↔ ∀ a ∈ as, good a := by
  induction as generalizing first with
  | nil => simp [separated_nil, hend]
  | cons a as ih =>
    obtain ⟨ha, has⟩ := List.forall_mem_cons.1 hstep
    obtain ⟨shown, rest, hscan, hshown, hrest⟩ := ha first (separated false (as.map text) ++ ']' :: s)
    rw [List.map_cons, separated_cons, List.append_assoc, List.append_assoc, hscan, List.forall_mem_cons,
      ← ih has false, List.map_cons]
    constructor
    · intro h
      obtain ⟨hline, htail⟩ := List.cons.inj h
      exact ⟨hshown.1 hline, (hrest (hshown.1 hline)).symm.trans htail⟩
    · rintro ⟨hgood, htail⟩
      rw [hshown.2 hgood, hrest hgood, htail]

/-! ### The users -/

theorem scanUsers_comma (s : Text) : scanUsers (',' :: s) = scanUsers s := by
  rw [scanUsers, if_neg (by decide), if_neg (by decide)]

theorem scanUsers_end (s : Text) : scanUsers (']' :: s) = [] := by
  rw [scanUsers, if_pos rfl]

theorem scanUsers_quote {name : Text} (h : '"' ∉ name) (s : Text) :
    scanUsers ('"' :: (name ++ '"' :: s)) = name :: scanUsers s := by
  have hfound := strchr_append h s
  rw [scanUsers, if_neg (by decide), if_pos rfl]
  split
  · next hnone => cases hnone.symm.trans hfound
  · next hsome =>
    cases hsome.symm.trans hfound
    rfl

/-- The name is printed as it is. -/
def Unescaped (name : Text) : Prop := ∀ c ∈ name, c ∉ ['"', '\\', '\n', '\r', '\t']

instance (name : Text) : Decidable (Unescaped name) :=
  decidable_of_iff ((name.all fun c => decide (c ∉ ['"', '\\', '\n', '\r', '\t'])) = true) (by simp [Unescaped])

theorem length_escapeChar (c : Char) :
    (escapeChar c).length = if c ∈ ['"', '\\', '\n', '\r', '\t'] then 2 else 1 := by
  split
  · next h =>
    simp only [List.mem_cons, List.not_mem_nil, or_false] at h
    rcases h with rfl | rfl | rfl | rfl | rfl <;> rfl
  · next h => rw [escapeChar_of_ne h]; rfl

theorem jsonEscape_eq_self {name : Text} : jsonEscape name = name ↔ Unescaped name := by
  have hle (s : Text) : s.length ≤ (jsonEscape s).length := by
    induction s with
    | nil => exact Nat.le_refl _
    | cons c s ih =>
      rw [jsonEscape_cons, List.length_append, length_escapeChar, List.length_cons]
      split <;> omega
  constructor
  · intro h
    induction name with
    | nil => simp [Unescaped]
    | cons c name ih =>
      have hlen := congrArg List.length h
      rw [jsonEscape_cons, List.length_append, length_escapeChar, List.length_cons] at hlen
      have := hle name
      by_cases hc : c ∈ ['"', '\\', '\n', '\r', '\t']
      · rw [if_pos hc] at hlen
        omega
      · rw [jsonEscape_cons, escapeChar_of_ne hc] at h
        exact List.forall_mem_cons.2 ⟨hc, ih (List.cons.inj h).2⟩
  · intro h
    induction name with
    | nil => rfl
    | cons c name ih =>
      obtain ⟨hc, h⟩ := List.forall_mem_cons.1 h
      rw [jsonEscape_cons, escapeChar_of_ne hc, ih h]
      rfl

/-- A name is shown as it is printed, up to the first quote. -/
theorem scanUsers_name (name s : Text) :
    ∃ shown rest, scanUsers ((Value.string (jsonEscape name)).print ++ s) = shown :: rest ∧
      (shown = name ↔ Unescaped name) ∧ (Unescaped name → rest = scanUsers s) := by
  have hprint (e : Text) : (Value.string e).print ++ s = '"' :: (e ++ '"' :: s) := by simp [Value.print]
  by_cases hname : Unescaped name
  · have hquote : '"' ∉ name := fun h => hname '"' h (by simp)
    refine ⟨name, scanUsers s, ?_, iff_of_true rfl hname, fun _ => rfl⟩
    rw [jsonEscape_eq_self.2 hname, hprint]
    exact scanUsers_quote hquote s
  · obtain ⟨lead, rest, hsplit, hlead⟩ := List.eq_append_cons_of_mem
      (show '"' ∈ jsonEscape name ++ '"' :: s from List.mem_append_right _ List.mem_cons_self)
    refine ⟨lead, scanUsers rest, ?_, iff_of_false ?_ hname, fun h => absurd h hname⟩
    · rw [hprint, hsplit]
      exact scanUsers_quote hlead rest
    · rintro rfl
      -- without a quote the whole printed name is shown, and it is not the name
      have hno : '"' ∉ jsonEscape lead := by
        intro h
        obtain ⟨c, hc, hquote⟩ := List.mem_flatMap.1 h
        have hc' : c ∉ ['"', '\\', '\n', '\r', '\t'] ∨ c = '"' := by
          by_cases hmem : c ∈ ['"', '\\', '\n', '\r', '\t']
          · simp only [List.mem_cons, List.not_mem_nil, or_false] at hmem
            rcases hmem with rfl | rfl | rfl | rfl | rfl <;> simp [escapeChar] at hquote ⊢
          · exact .inl hmem
        rcases hc' with hc' | rfl
        · rw [escapeChar_of_ne hc', List.mem_singleton] at hquote
          exact hc' (by simp [← hquote])
        · exact hlead hc
      have hshown := strchr_append hno s
      have hlead' := strchr_append hlead rest
      rw [← hsplit, hshown] at hlead'
      exact hname (jsonEscape_eq_self.1 (Prod.mk.inj (Option.some.inj hlead')).1)

/-- The users that are shown are the ones of the table when all of them are printed as they are. -/
theorem scanUsers_eq_iff (names : List Text) (first : Bool) (s : Text) :
    scanUsers (separated first (names.map fun name => (Value.string (jsonEscape name)).print) ++ ']' :: s) = names ↔
      ∀ name ∈ names, Unescaped name := by
  have h := scan_eq_iff id scanUsers_end names (fun name _ first s => by
    have hlead (t : Text) : scanUsers ((if first = true then [] else [',']) ++ t) = scanUsers t := by
      cases first with
      | true => rfl
      | false => exact scanUsers_comma t
    rw [hlead]
    exact scanUsers_name name s) first s
  rwa [List.map_id] at h

/-! ### The files -/

/-- The pattern for a name. -/
def namePattern : Text := keyColon (Text.lit "name") ++ ['"']

/-- An entry of the listing: a name is found at its beginning and nowhere else, and a brace ends it. -/
def IsViewEntry (entry : Text) : Prop :=
  ∃ tail, entry = '{' :: (namePattern ++ tail) ∧ strstr namePattern tail = none ∧ tail.getLast? = some '}'

theorem scanFiles_end (s : Text) : scanFiles (']' :: s) = [] := by
  rw [scanFiles, if_neg (by decide), if_pos rfl]

theorem scanFiles_skip {c : Char} (hopen : c ≠ '{') (hclose : c ≠ ']') (s : Text) : scanFiles (c :: s) = scanFiles s := by
  rw [scanFiles, if_neg hopen, if_neg hclose]

theorem scanFiles_chunk {lead : Text} (h : '}' ∉ lead) (hopen : lead.head? = some '{') (s : Text) :
    scanFiles (lead ++ '}' :: s) = (viewLine ((lead ++ ['}']).take 511)).toList ++ scanFiles s := by
  have hfound := strchr_append h s
  obtain ⟨lead, rfl⟩ : ∃ t, lead = '{' :: t := by
    cases lead with
    | nil => cases hopen
    | cons c t => exact ⟨t, by rw [Option.some.inj hopen]⟩
  rw [List.cons_append, scanFiles, if_pos rfl]
  rw [List.cons_append] at hfound
  split
  · next hnone => cases hnone.symm.trans hfound
  · next hsome =>
    cases hsome.symm.trans hfound
    rfl

/-- A chunk without a name prints nothing. -/
theorem viewLine_none {chunk : Text} (h : strstr namePattern chunk = none) : viewLine chunk = none := by
  have hnone : jsonGetString chunk (Text.lit "name") 128 = none := by
    unfold jsonGetString
    rw [if_neg (by decide), keyPattern_eq (by decide) _ (by decide), Option.bind_some]
    rw [namePattern] at h
    rw [h, Option.bind_none]
  unfold viewLine
  rw [hnone]
  rfl

/-- What is left of an entry behind its first brace gives no line. -/
theorem scanFiles_rest {rest : Text} (hend : rest = [] ∨ rest.getLast? = some '}')
    (hname : strstr namePattern rest = none) (s : Text) :
    scanFiles (rest ++ s) = scanFiles s ∨ scanFiles (rest ++ s) = [] := by
  induction hn : rest.length using Nat.strongRecOn generalizing rest with
  | ind n ih =>
    subst hn
    cases rest with
    | nil => exact .inl rfl
    | cons c rest =>
      have hmem : '}' ∈ c :: rest := by
        obtain hend | hend := hend
        · cases hend
        · exact List.mem_of_getLast? hend
      have hshorter (lead : Text) {t : Text} (hsplit : c :: rest = lead ++ t) (hlead : lead ≠ []) :
          scanFiles (t ++ s) = scanFiles s ∨ scanFiles (t ++ s) = [] := by
        refine ih t.length ?_ ?_ ?_ rfl
        · rw [hsplit, List.length_append]
          have := List.length_pos_iff.2 hlead
          omega
        · by_cases ht : t = []
          · exact .inl ht
          · obtain hend | hend := hend
            · cases hend
            · rw [hsplit, List.getLast?_append_of_ne_nil _ ht] at hend
              exact .inr hend
        · rw [hsplit] at hname
          exact (strstr_none_of_append hname).2
      by_cases hopen : c = '{'
      · subst hopen
        obtain ⟨lead, t, hsplit, hlead⟩ := List.eq_append_cons_of_mem hmem
        have hhead : lead.head? = some '{' := by
          cases lead with
          | nil => cases hsplit
          | cons d lead => rw [(List.cons.inj hsplit).1]; rfl
        have hchunk : strstr namePattern ((lead ++ ['}']).take 511) = none := by
          rw [hsplit, ← List.singleton_append, ← List.append_assoc, ← List.take_append_drop 511 (lead ++ ['}']),
            List.append_assoc] at hname
          exact (strstr_none_of_append hname).1
        have hscan : scanFiles ('{' :: rest ++ s) = scanFiles (t ++ s) := by
          rw [hsplit, List.append_assoc, List.cons_append, scanFiles_chunk hlead hhead, viewLine_none hchunk]
          rfl
        rw [hscan]
        exact hshorter (lead ++ ['}']) (by simpa using hsplit) (by simp)
      · by_cases hclose : c = ']'
        · subst hclose
          exact .inr (scanFiles_end _)
        · rw [List.cons_append, scanFiles_skip hopen hclose]
          exact hshorter [c] rfl (by simp)

/-- An entry gives the line of its chunk, and what is behind it is looked at or not. -/
theorem scanFiles_entry {entry : Text} (h : IsViewEntry entry) (s : Text) :
    ∃ rest, scanFiles (entry ++ s) = (viewLine (chunkOf entry)).toList ++ rest ∧
      (rest = scanFiles s ∨ rest = []) ∧ ('}' ∉ entry.dropLast → rest = scanFiles s) := by
  obtain ⟨tail, rfl, hname, hend⟩ := h
  have hfixed : '}' ∉ '{' :: namePattern := by decide
  obtain ⟨lead, rest, rfl, hlead⟩ := List.eq_append_cons_of_mem (List.mem_of_getLast? hend)
  have hsplit : '{' :: (namePattern ++ (lead ++ '}' :: rest)) = ('{' :: namePattern ++ lead) ++ '}' :: rest := by simp
  have hlead' : '}' ∉ '{' :: namePattern ++ lead := by
    rw [List.mem_append]
    exact not_or.2 ⟨hfixed, hlead⟩
  have hchunk : chunkOf ('{' :: (namePattern ++ (lead ++ '}' :: rest))) =
      (('{' :: namePattern ++ lead) ++ ['}']).take 511 := by
    unfold chunkOf
    rw [hsplit, strchr_append hlead']
  refine ⟨scanFiles (rest ++ s), ?_, ?_, ?_⟩
  · rw [hchunk, hsplit, List.append_assoc, List.cons_append]
    exact scanFiles_chunk hlead' rfl _
  · refine scanFiles_rest ?_ ?_ s
    · by_cases hrest : rest = []
      · exact .inl hrest
      · have hne : '}' :: rest ≠ [] := by simp
        rw [List.getLast?_append_of_ne_nil _ hne, ← List.singleton_append, List.getLast?_append_of_ne_nil _ hrest] at hend
        exact .inr hend
    · rw [← List.singleton_append] at hname
      exact (strstr_none_of_append (strstr_none_of_append hname).2).2
  · intro hwhole
    by_cases hrest : rest = []
    · rw [hrest, List.nil_append]
    · refine absurd ?_ hwhole
      rw [hsplit, List.dropLast_append_of_ne_nil (List.cons_ne_nil _ _), List.dropLast_cons_of_ne_nil hrest]
      exact List.mem_append_right _ List.mem_cons_self

theorem length_scanFiles_le {entries : List Text} (h : ∀ entry ∈ entries, IsViewEntry entry) (first : Bool) (s : Text) :
    (scanFiles (separated first entries ++ ']' :: s)).length ≤ entries.length := by
  induction entries generalizing first with
  | nil => simp [separated_nil, scanFiles_end]
  | cons entry entries ih =>
    obtain ⟨hentry, h⟩ := List.forall_mem_cons.1 h
    have hlead (t : Text) : scanFiles ((if first then [] else [',']) ++ t) = scanFiles t := by
      cases first with
      | true => rfl
      | false => exact scanFiles_skip (by decide) (by decide) t
    obtain ⟨rest, hscan, hrest, -⟩ := scanFiles_entry hentry (separated false entries ++ ']' :: s)
    have hline : (viewLine (chunkOf entry)).toList.length ≤ 1 := by
      cases viewLine (chunkOf entry) <;> simp
    have htail : rest.length ≤ entries.length := by
      obtain rfl | rfl := hrest
      · exact ih h false
      · exact Nat.zero_le _
    rw [separated_cons, List.append_assoc, hlead, List.append_assoc, hscan, List.length_append, List.length_cons]
    omega

/-- **The listing is what was encoded when each chunk is read as its entry.** -/
theorem scanFiles_eq_iff {text : FileEntry → Text} (line : FileEntry → ViewLine) (files : List FileEntry)
    (h : ∀ file ∈ files, IsViewEntry (text file))
    (hwhole : ∀ file ∈ files, viewLine (chunkOf (text file)) = some (line file) → '}' ∉ (text file).dropLast)
    (first : Bool) (s : Text) :
    scanFiles (separated first (files.map text) ++ ']' :: s) = files.map line ↔
      ∀ file ∈ files, viewLine (chunkOf (text file)) = some (line file) := by
  induction files generalizing first with
  | nil => simp [separated_nil, scanFiles_end]
  | cons file files ih =>
    obtain ⟨hentry, h⟩ := List.forall_mem_cons.1 h
    obtain ⟨hfile, hwhole⟩ := List.forall_mem_cons.1 hwhole
    have hlead (t : Text) : scanFiles ((if first then [] else [',']) ++ t) = scanFiles t := by
      cases first with
      | true => rfl
      | false => exact scanFiles_skip (by decide) (by decide) t
    obtain ⟨rest, hscan, hrest, hgood⟩ := scanFiles_entry hentry (separated false (files.map text) ++ ']' :: s)
    rw [List.map_cons, separated_cons, List.append_assoc, hlead, List.append_assoc, hscan, List.forall_mem_cons,
      ← ih h hwhole false, List.map_cons]
    constructor
    · intro heq
      cases hline : viewLine (chunkOf (text file)) with
      | none =>
        -- a line is missing, and the others are too few
        rw [hline, Option.toList_none, List.nil_append] at heq
        have hlen := length_scanFiles_le (List.forall_mem_map.2 h) false s
        have hcount := congrArg List.length heq
        rw [List.length_cons, List.length_map] at hcount
        rw [List.length_map] at hlen
        obtain rfl | rfl := hrest
        · omega
        · simp at hcount
      | some shown =>
        rw [hline, Option.toList_some, List.singleton_append] at heq
        obtain ⟨rfl, htail⟩ := List.cons.inj heq
        exact ⟨rfl, (hgood (hfile hline)).symm.trans htail⟩
    · rintro ⟨hline, htail⟩
      rw [hline, hgood (hfile hline), htail]
      rfl

end CoWrite.Client
