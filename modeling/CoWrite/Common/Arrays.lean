import CoWrite.Lib.Cells
import CoWrite.Lib.Runs

/-!
# Growing arrays

`struct array` keeps elements of one size in a block of bytes, and its offsets are computed in `size_t`. An operation
has no result where `array_grow` does not return or a byte outside the block is moved.

`array_refines`: as long as the requests are below `2 ^ 62` bytes every operation has its result, and the array is the
list of its elements.
-/

namespace CoWrite.Arrays

open CoWrite.Lib

variable {β : Type}

/-! ## The array -/

/-- `struct array`, with the bytes of the block at `data`. -/
structure StructArray (β : Type) where
  data : List β
  len : Nat
  cap : Nat
  elemSize : Nat

/-- `array_init`. -/
def arrayInit (elemSize : Nat) : StructArray β := ⟨[], 0, 0, elemSize⟩

/-- How an allocation ends: it fails, or the new block has these bytes behind the old ones. -/
abbrev Alloc (β : Type) := Option (Nat → β)

def realloc (alloc : Alloc β) (data : List β) (size : Nat) : Option (List β) :=
  alloc.map fun fresh => data.take size ++ (List.range (size - data.length)).map fresh

/-- The loop of `array_grow`. A capacity that is doubled 64 times is zero, and then the loop goes on for ever
(`growLoop_none`). -/
def growLoop : Nat → Nat → Nat → Option Nat
  | 0, _, _ => none
  | fuel + 1, newCap, minCapacity =>
    if newCap < minCapacity then growLoop fuel (newCap * 2 % 2 ^ 64) minCapacity else some newCap

/-- `array_grow`. -/
def arrayGrow (alloc : Alloc β) (arr : StructArray β) (minCapacity : Nat) : Option (Bool × StructArray β) :=
  if arr.cap ≥ minCapacity then some (true, arr)
  else (growLoop 65 (if arr.cap ≠ 0 then arr.cap * 2 % 2 ^ 64 else 8) minCapacity).map fun newCap =>
    match realloc alloc arr.data (newCap * arr.elemSize % 2 ^ 64) with
    | none => (false, arr)
    | some newData => (true, { arr with data := newData, cap := newCap })

/-- `array_reserve`. -/
def arrayReserve (alloc : Alloc β) (arr : StructArray β) (capacity : Nat) : Option (Bool × StructArray β) :=
  arrayGrow alloc arr capacity

/-- `array_get`: the offset of the element. -/
def arrayGet (arr : StructArray β) (index : Nat) : Option Nat :=
  if index ≥ arr.len then none else some (index * arr.elemSize % 2 ^ 64)

/-- `array_push`. -/
def arrayPush (alloc : Alloc β) (arr : StructArray β) (value : List β) : Option (Bool × StructArray β) :=
  (arrayGrow alloc arr ((arr.len + 1) % 2 ^ 64)).bind fun (ok, arr) =>
    if !ok then some (false, arr)
    else
      (memcpy arr.data (arr.len * arr.elemSize % 2 ^ 64) value arr.elemSize).map fun data =>
        (true, { arr with data := data, len := (arr.len + 1) % 2 ^ 64 })

/-- `array_insert`. -/
def arrayInsert (alloc : Alloc β) (arr : StructArray β) (index : Nat) (value : List β) : Option (Bool × StructArray β) :=
  if index > arr.len then some (false, arr)
  else
    (arrayGrow alloc arr ((arr.len + 1) % 2 ^ 64)).bind fun (ok, arr) =>
      if !ok then some (false, arr)
      else
        let dest := index * arr.elemSize % 2 ^ 64
        (memmove arr.data (dest + arr.elemSize) dest ((arr.len - index) * arr.elemSize % 2 ^ 64)).bind fun data =>
          (memcpy data dest value arr.elemSize).map fun data =>
            (true, { arr with data := data, len := (arr.len + 1) % 2 ^ 64 })

/-- `array_remove`. -/
def arrayRemove (arr : StructArray β) (index : Nat) : Option (StructArray β) :=
  if index ≥ arr.len then some arr
  else
    let dest := index * arr.elemSize % 2 ^ 64
    (memmove arr.data dest (dest + arr.elemSize) ((arr.len - index - 1) * arr.elemSize % 2 ^ 64)).map fun data =>
      { arr with data := data, len := arr.len - 1 }

/-! ## Growth -/

theorem growLoop_zero {minCapacity : Nat} (h : 0 < minCapacity) (fuel : Nat) : growLoop fuel 0 minCapacity = none := by
  induction fuel with
  | zero => rfl
  | succ fuel ih =>
    rw [growLoop, if_pos h]
    exact ih

theorem growLoop_none_of_dvd {fuel c minCapacity k : Nat} (hk : fuel ≤ 64) (hc : c < 2 ^ 64) (hdvd : 2 ^ (64 - fuel) ∣ c)
    (h : growLoop (fuel + 1) c minCapacity = none) : growLoop k c minCapacity = none := by
  induction fuel generalizing c k with
  | zero =>
    obtain rfl : c = 0 := Nat.eq_zero_of_dvd_of_lt hdvd hc
    rw [growLoop] at h
    split at h
    · next hmin => exact growLoop_zero hmin k
    · cases h
  | succ fuel ih =>
    rw [growLoop] at h
    split at h
    · next hmin =>
      cases k with
      | zero => rfl
      | succ k =>
        rw [growLoop, if_pos hmin]
        refine ih (by omega) (Nat.mod_lt _ (by decide)) ?_ h
        have hpow : (2 : Nat) ^ (64 - fuel) = 2 ^ (64 - (fuel + 1)) * 2 := by
          rw [← Nat.pow_succ]
          congr 1
          omega
        rw [Nat.dvd_mod_iff (Nat.pow_dvd_pow 2 (by omega)), hpow]
        exact Nat.mul_dvd_mul_right hdvd 2
    · cases h

/-- A loop that has not ended when it has looked 65 times never ends. -/
theorem growLoop_none {c minCapacity : Nat} (hc : c < 2 ^ 64) (h : growLoop 65 c minCapacity = none) (fuel : Nat) :
    growLoop fuel c minCapacity = none :=
  growLoop_none_of_dvd (Nat.le_refl 64) hc (Nat.one_dvd _) h

theorem growLoop_some {fuel c minCapacity : Nat} (hc : 0 < c) (hmin : minCapacity ≤ 2 ^ 63)
    (hfuel : minCapacity ≤ c * 2 ^ fuel) : ∃ newCap, growLoop (fuel + 1) c minCapacity = some newCap ∧
      minCapacity ≤ newCap ∧ c ≤ newCap ∧ (newCap = c ∨ newCap < 2 * minCapacity) := by
  induction fuel generalizing c with
  | zero =>
    rw [Nat.pow_zero, Nat.mul_one] at hfuel
    rw [growLoop, if_neg (Nat.not_lt.2 hfuel)]
    exact ⟨c, rfl, hfuel, Nat.le_refl c, .inl rfl⟩
  | succ fuel ih =>
    rw [growLoop]
    split
    · next hlt =>
      have hdouble : c * 2 % 2 ^ 64 = c * 2 := Nat.mod_eq_of_lt (by omega)
      rw [hdouble]
      have hpow : minCapacity ≤ c * 2 * 2 ^ fuel := by
        rw [Nat.mul_assoc, ← Nat.pow_succ']
        exact hfuel
      obtain ⟨newCap, hloop, hge, hc', hbound⟩ := ih (by omega) hpow
      exact ⟨newCap, hloop, hge, by omega, .inr (by omega)⟩
    · next hge => exact ⟨c, rfl, by omega, Nat.le_refl c, .inl rfl⟩

/-- The sizes of an array, and its block. -/
structure Valid (size : Nat) (arr : StructArray β) : Prop where
  elemSize : arr.elemSize = size
  len : arr.len ≤ arr.cap
  block : arr.data.length = arr.cap * size
  bytes : arr.cap * size < 2 ^ 64

theorem valid_arrayInit (size : Nat) : Valid size (arrayInit size : StructArray β) :=
  ⟨rfl, Nat.le_refl 0, by simp [arrayInit], by simp [arrayInit]⟩

/-- What is left of an array when it was asked to grow. -/
structure Grown (size minCapacity : Nat) (alloc : Alloc β) (arr arr' : StructArray β) (ok : Bool) : Prop where
  valid : Valid size arr'
  len : arr'.len = arr.len
  data : arr.data <+: arr'.data
  room : ok = true → minCapacity ≤ arr'.cap
  failed : ok = false → arr' = arr ∧ alloc = none

section Grow

variable {size : Nat} {arr : StructArray β}

/-- **`array_grow` returns.** -/
theorem arrayGrow_spec (hsize : 0 < size) (h : Valid size arr) (alloc : Alloc β) {minCapacity : Nat}
    (hfits : arr.cap < minCapacity → minCapacity * size < 2 ^ 62 ∧ (arr.cap = 0 → 8 * size < 2 ^ 64)) :
    ∃ ok arr', arrayGrow alloc arr minCapacity = some (ok, arr') ∧ Grown size minCapacity alloc arr arr' ok := by
  unfold arrayGrow
  split
  · next hcap => exact ⟨true, arr, rfl, h, rfl, List.prefix_refl _, fun _ => hcap, fun h => by cases h⟩
  next hcap =>
  obtain ⟨hmin, hfirst⟩ := hfits (by omega)
  have hcount : minCapacity ≤ minCapacity * size := Nat.le_mul_of_pos_right _ hsize
  -- the capacity that the loop starts with
  obtain ⟨c, hc, hpos, hge, hbytes⟩ : ∃ c, (if arr.cap ≠ 0 then arr.cap * 2 % 2 ^ 64 else 8) = c ∧ 0 < c ∧ arr.cap ≤ c ∧
      c * size < 2 ^ 64 := by
    split
    · next hne =>
      have hdouble : arr.cap * 2 * size ≤ 2 * (minCapacity * size) := by
        rw [Nat.mul_comm arr.cap, Nat.mul_assoc]
        exact Nat.mul_le_mul_left 2 (Nat.mul_le_mul_right size (by omega))
      exact ⟨_, Nat.mod_eq_of_lt (by omega), by omega, by omega, by omega⟩
    · next hzero => exact ⟨8, rfl, by decide, by omega, hfirst (by omega)⟩
  rw [hc]
  obtain ⟨newCap, hloop, hroom, hle, hbound⟩ := @growLoop_some 64 c minCapacity hpos (by omega)
    (by calc minCapacity ≤ 2 ^ 64 := by omega
          _ ≤ c * 2 ^ 64 := Nat.le_mul_of_pos_left _ hpos)
  have hnew : newCap * size < 2 ^ 64 := by
    rcases hbound with rfl | hlt
    · exact hbytes
    · have hle' : newCap * size ≤ 2 * (minCapacity * size) := by
        rw [← Nat.mul_assoc]
        exact Nat.mul_le_mul_right size hlt.le
      omega
  rw [hloop, Option.map_some, h.elemSize, Nat.mod_eq_of_lt hnew]
  cases alloc with
  | none => exact ⟨false, arr, rfl, h, rfl, List.prefix_refl _, (fun hok => by cases hok), fun _ => ⟨rfl, rfl⟩⟩
  | some fresh =>
    have hkept : arr.data.length ≤ newCap * size := by
      rw [h.block]
      exact Nat.mul_le_mul_right size (by omega)
    refine ⟨true, _, rfl, ⟨rfl, ?_, ?_, hnew⟩, rfl, ?_, fun _ => hroom, fun hok => by cases hok⟩
    · have := h.len
      show arr.len ≤ newCap
      omega
    · show (arr.data.take (newCap * size) ++ _).length = newCap * size
      rw [List.take_of_length_le hkept, List.length_append, List.length_map, List.length_range]
      omega
    · show arr.data <+: arr.data.take (newCap * size) ++ _
      rw [List.take_of_length_le hkept]
      exact List.prefix_append _ _

end Grow

/-! ## The operations of a caller -/

/-- A value of the type that the array is used for. -/
abbrev Elem (β : Type) (size : Nat) := { value : List β // value.length = size }

inductive Op (β : Type) (size : Nat) where
  | push (alloc : Alloc β) (value : Elem β size)
  | insert (alloc : Alloc β) (index : Nat) (value : Elem β size)
  | remove (index : Nat)
  | reserve (alloc : Alloc β) (capacity : Nat)
  /-- The element is read at the pointer that is returned. -/
  | get (index : Nat)

inductive Reply (β : Type) where
  | status (ok : Bool)
  | done
  | element (value : Option (List β))

def step {size : Nat} (arr : StructArray β) : Op β size → Option (Reply β × StructArray β)
  | .push alloc value => (arrayPush alloc arr value.1).map fun (ok, arr) => (.status ok, arr)
  | .insert alloc index value => (arrayInsert alloc arr index value.1).map fun (ok, arr) => (.status ok, arr)
  | .remove index => (arrayRemove arr index).map fun arr => (.done, arr)
  | .reserve alloc capacity => (arrayReserve alloc arr capacity).map fun (ok, arr) => (.status ok, arr)
  | .get index =>
    match arrayGet arr index with
    | none => some (.element none, arr)
    | some p => (load arr.data p arr.elemSize).map fun value => (.element (some value), arr)

/-- The capacity that the operation asks `array_grow` for. -/
def Op.minCapacity {size : Nat} (arr : StructArray β) : Op β size → Nat
  | .push .. => arr.len + 1
  | .insert _ index _ => if index > arr.len then 0 else arr.len + 1
  | .reserve _ capacity => capacity
  | _ => 0

/-- If the array has to grow, the elements it is asked to hold take less than `2 ^ 62` bytes, and the eight elements
of a first block can be counted in `size_t`. -/
def Fits {size : Nat} (arr : StructArray β) (op : Op β size) : Prop :=
  arr.cap < op.minCapacity arr → op.minCapacity arr * arr.elemSize < 2 ^ 62 ∧ (arr.cap = 0 → 8 * arr.elemSize < 2 ^ 64)

instance {size : Nat} (arr : StructArray β) (op : Op β size) : Decidable (Fits arr op) :=
  inferInstanceAs (Decidable (_ → _))

/-- The elements that are stored. -/
def StructArray.elements (arr : StructArray β) : List (List β) := cells arr.elemSize arr.len arr.data

/-- What the operations do to a list; one that needs memory may fail where there is none. -/
inductive Performs {size : Nat} (l : List (List β)) : Op β size → Reply β → List (List β) → Prop where
  | push {alloc : Alloc β} {value : Elem β size} : Performs l (.push alloc value) (.status true) (l ++ [value.1])
  | pushFailed {value : Elem β size} : Performs l (.push none value) (.status false) l
  | insert {alloc : Alloc β} {index : Nat} {value : Elem β size} (h : index ≤ l.length) :
      Performs l (.insert alloc index value) (.status true) (l.insertIdx index value.1)
  | insertFailed {index : Nat} {value : Elem β size} : Performs l (.insert none index value) (.status false) l
  | insertOutside {alloc : Alloc β} {index : Nat} {value : Elem β size} (h : l.length < index) :
      Performs l (.insert alloc index value) (.status false) l
  | remove {index : Nat} (h : index < l.length) : Performs l (.remove index) .done (l.eraseIdx index)
  | removeOutside {index : Nat} (h : l.length ≤ index) : Performs l (.remove index) .done l
  | reserve {alloc : Alloc β} {capacity : Nat} : Performs l (.reserve alloc capacity) (.status true) l
  | reserveFailed {capacity : Nat} : Performs l (.reserve none capacity) (.status false) l
  | get {index : Nat} {value : List β} (h : l[index]? = some value) : Performs l (.get index) (.element (some value)) l
  | getOutside {index : Nat} (h : l.length ≤ index) : Performs l (.get index) (.element none) l

variable (β) in
/-- An array from its `array_init` on. -/
def arrays (size : Nat) : System (StructArray β) (Op β size) :=
  System.ofStep (fun arr => arr = arrayInit size) fun arr op => (step arr op).map Prod.snd

variable (β) in
/-- A list of elements. -/
def lists (size : Nat) : System (List (List β)) (Op β size × Reply β) where
  init l := l = []
  step l e l' := Performs l e.1 e.2 l'

/-! ## The operations -/

section Operations

variable {size : Nat} {arr : StructArray β}

theorem length_elements (arr : StructArray β) : arr.elements.length = arr.len := length_cells ..

theorem Valid.holds (h : Valid size arr) : Holds size arr.data arr.elements := by
  unfold StructArray.elements
  rw [h.elemSize]
  apply holds_cells
  rw [h.block]
  exact Nat.mul_le_mul_right size h.len

theorem Valid.elements_eq (h : Valid size arr) {l : List (List β)} (hl : Holds size arr.data l) (hlen : l.length = arr.len) :
    arr.elements = l := by
  unfold StructArray.elements
  rw [h.elemSize, ← hlen]
  exact hl.cells_eq

/-- Offsets inside the block are computed without overflow. -/
theorem Valid.offset (h : Valid size arr) {i : Nat} (hi : i ≤ arr.cap) : i * size % 2 ^ 64 = i * size :=
  Nat.mod_eq_of_lt (Nat.lt_of_le_of_lt (Nat.mul_le_mul_right size hi) h.bytes)

theorem Grown.holds {minCapacity : Nat} {alloc : Alloc β} {arr' : StructArray β} {ok : Bool} (h : Valid size arr)
    (hgrown : Grown size minCapacity alloc arr arr' ok) : Holds size arr'.data arr.elements :=
  ⟨h.holds.size, h.holds.front.trans hgrown.data⟩

theorem Grown.elements_eq {minCapacity : Nat} {alloc : Alloc β} {arr' : StructArray β} {ok : Bool} (h : Valid size arr)
    (hgrown : Grown size minCapacity alloc arr arr' ok) : arr'.elements = arr.elements :=
  hgrown.valid.elements_eq (hgrown.holds h) ((length_elements arr).trans hgrown.len.symm)

/-- An array whose elements were moved inside its block. -/
theorem Valid.moved (h : Valid size arr) {data : List β} {l : List (List β)} (hblock : data.length = arr.data.length)
    (hheld : Holds size data l) (hroom : l.length ≤ arr.cap) :
    Valid size { arr with data := data, len := l.length, elemSize := size } ∧
      { arr with data := data, len := l.length, elemSize := size : StructArray β }.elements = l := by
  have hvalid : Valid size { arr with data := data, len := l.length, elemSize := size } :=
    ⟨rfl, hroom, hblock.trans h.block, h.bytes⟩
  exact ⟨hvalid, hvalid.elements_eq hheld rfl⟩

/-- There is room for the element that the array has grown for. -/
theorem Grown.cell {alloc : Alloc β} {arr' : StructArray β} (hgrown : Grown size (arr.len + 1) alloc arr arr' true) :
    (arr.elements.length + 1) * size ≤ arr'.data.length := by
  rw [length_elements, hgrown.valid.block]
  exact Nat.mul_le_mul_right size (hgrown.room rfl)

/-- `array_grow` for one element more. -/
theorem arrayGrow_one (hsize : 0 < size) (h : Valid size arr) (alloc : Alloc β)
    (hfits : arr.cap < arr.len + 1 → (arr.len + 1) * size < 2 ^ 62 ∧ (arr.cap = 0 → 8 * size < 2 ^ 64)) :
    (arr.len + 1) % 2 ^ 64 = arr.len + 1 ∧
      ∃ ok arr', arrayGrow alloc arr (arr.len + 1) = some (ok, arr') ∧ Grown size (arr.len + 1) alloc arr arr' ok := by
  refine ⟨Nat.mod_eq_of_lt ?_, arrayGrow_spec hsize h alloc hfits⟩
  by_cases hroom : arr.cap < arr.len + 1
  · have hbytes := (hfits hroom).1
    have hcount : arr.len + 1 ≤ (arr.len + 1) * size := Nat.le_mul_of_pos_right _ hsize
    omega
  · have hbytes := h.bytes
    have hcount : arr.cap ≤ arr.cap * size := Nat.le_mul_of_pos_right _ hsize
    omega

theorem arrayPush_spec (hsize : 0 < size) (h : Valid size arr) (alloc : Alloc β) (value : Elem β size)
    (hfits : Fits arr (.push alloc value)) : ∃ reply arr', step arr (.push alloc value) = some (reply, arr') ∧
      Valid size arr' ∧ Performs arr.elements (.push alloc value) reply arr'.elements := by
  simp only [Fits, Op.minCapacity, h.elemSize] at hfits
  obtain ⟨hlen, ok, grown, hgrow, hgrown⟩ := arrayGrow_one hsize h alloc hfits
  simp only [step, arrayPush]
  rw [hlen, hgrow, Option.bind_some]
  cases ok with
  | false =>
    obtain ⟨rfl, rfl⟩ := hgrown.failed rfl
    exact ⟨_, _, rfl, h, .pushFailed⟩
  | true =>
    have hroom := hgrown.room rfl
    obtain ⟨data, hput, hheld⟩ := (hgrown.holds h).push value.2 hgrown.cell
    have hcount : (arr.elements ++ [value.1]).length = arr.len + 1 := by
      rw [List.length_append, length_elements, List.length_singleton]
    obtain ⟨hvalid, helements⟩ := hgrown.valid.moved (length_memcpy hput) hheld (by omega)
    rw [hcount] at hvalid helements
    rw [length_elements] at hput
    simp only [Bool.not_true, Bool.false_eq_true, if_false, hgrown.len, hgrown.valid.elemSize,
      hgrown.valid.offset (show arr.len ≤ grown.cap by omega), hput, hlen, Option.map_some]
    refine ⟨_, _, rfl, hvalid, ?_⟩
    rw [helements]
    exact .push

theorem arrayInsert_spec (hsize : 0 < size) (h : Valid size arr) (alloc : Alloc β) (index : Nat) (value : Elem β size)
    (hfits : Fits arr (.insert alloc index value)) : ∃ reply arr', step arr (.insert alloc index value) = some (reply, arr') ∧
      Valid size arr' ∧ Performs arr.elements (.insert alloc index value) reply arr'.elements := by
  simp only [Fits, Op.minCapacity, h.elemSize] at hfits
  simp only [step, arrayInsert]
  split
  · next hout => exact ⟨_, _, rfl, h, .insertOutside (by rwa [length_elements])⟩
  next hin =>
  rw [if_neg hin] at hfits
  obtain ⟨hlen, ok, grown, hgrow, hgrown⟩ := arrayGrow_one hsize h alloc hfits
  rw [hlen, hgrow, Option.bind_some]
  cases ok with
  | false =>
    obtain ⟨rfl, rfl⟩ := hgrown.failed rfl
    exact ⟨_, _, rfl, h, .insertFailed⟩
  | true =>
    have hroom := hgrown.room rfl
    have hindex : index ≤ arr.elements.length := by
      rw [length_elements]
      omega
    obtain ⟨moved, data, hmove, hput, hheld⟩ := (hgrown.holds h).insert hindex value.2 hgrown.cell
    have hcount : (arr.elements.insertIdx index value.1).length = arr.len + 1 := by
      rw [List.length_insertIdx_of_le_length hindex, length_elements]
    obtain ⟨hvalid, helements⟩ := hgrown.valid.moved ((length_memcpy hput).trans (length_memmove hmove)) hheld (by omega)
    rw [hcount] at hvalid helements
    rw [length_elements] at hmove
    simp only [Bool.not_true, Bool.false_eq_true, if_false, hgrown.len, hgrown.valid.elemSize,
      hgrown.valid.offset (show index ≤ grown.cap by omega), hgrown.valid.offset (show arr.len - index ≤ grown.cap by omega),
      hmove, hput, hlen, Option.bind_some, Option.map_some]
    refine ⟨_, _, rfl, hvalid, ?_⟩
    rw [helements]
    exact .insert hindex

theorem arrayRemove_spec (h : Valid size arr) (index : Nat) :
    ∃ reply arr', step arr (.remove index : Op β size) = some (reply, arr') ∧
      Valid size arr' ∧ Performs arr.elements (.remove index : Op β size) reply arr'.elements := by
  simp only [step, arrayRemove]
  split
  · next hout => exact ⟨_, _, rfl, h, .removeOutside (by rwa [length_elements])⟩
  next hin =>
  have hcap := h.len
  have hindex : index < arr.elements.length := by
    rw [length_elements]
    omega
  obtain ⟨data, hmove, hheld⟩ := h.holds.remove hindex
  have hcount : (arr.elements.eraseIdx index).length = arr.len - 1 := by
    rw [List.length_eraseIdx_of_lt hindex, length_elements]
  obtain ⟨hvalid, helements⟩ := h.moved (length_memmove hmove) hheld (by omega)
  rw [hcount] at hvalid helements
  rw [length_elements] at hmove
  simp only [h.elemSize, h.offset (show index ≤ arr.cap by omega), h.offset (show arr.len - index - 1 ≤ arr.cap by omega),
    hmove, Option.map_some]
  refine ⟨_, _, rfl, hvalid, ?_⟩
  rw [helements]
  exact .remove hindex

theorem arrayReserve_spec (hsize : 0 < size) (h : Valid size arr) (alloc : Alloc β) (capacity : Nat)
    (hfits : Fits arr (.reserve alloc capacity : Op β size)) :
    ∃ reply arr', step arr (.reserve alloc capacity : Op β size) = some (reply, arr') ∧
      Valid size arr' ∧ Performs arr.elements (.reserve alloc capacity : Op β size) reply arr'.elements := by
  simp only [Fits, Op.minCapacity, h.elemSize] at hfits
  obtain ⟨ok, grown, hgrow, hgrown⟩ := arrayGrow_spec hsize h alloc hfits
  simp only [step, arrayReserve]
  rw [hgrow]
  refine ⟨_, grown, rfl, hgrown.valid, ?_⟩
  rw [hgrown.elements_eq h]
  cases ok with
  | false =>
    obtain ⟨-, rfl⟩ := hgrown.failed rfl
    exact .reserveFailed
  | true => exact .reserve

theorem arrayGet_spec (h : Valid size arr) (index : Nat) :
    ∃ reply arr', step arr (.get index : Op β size) = some (reply, arr') ∧
      Valid size arr' ∧ Performs arr.elements (.get index : Op β size) reply arr'.elements := by
  simp only [step, arrayGet]
  by_cases hout : index ≥ arr.len
  · rw [if_pos hout]
    exact ⟨_, _, rfl, h, .getOutside (by rwa [length_elements])⟩
  · have hcap := h.len
    have hindex : index < arr.elements.length := by
      rw [length_elements]
      omega
    have hvalue := List.getElem?_eq_getElem hindex
    simp only [if_neg hout, h.elemSize, h.offset (show index ≤ arr.cap by omega), h.holds.get hvalue, Option.map_some]
    exact ⟨_, _, rfl, h, .get hvalue⟩

/-- **Every operation that fits has its result**, which is that of the list. -/
theorem step_spec (hsize : 0 < size) (h : Valid size arr) (op : Op β size) (hfits : Fits arr op) :
    ∃ reply arr', step arr op = some (reply, arr') ∧ Valid size arr' ∧ Performs arr.elements op reply arr'.elements := by
  cases op with
  | push alloc value => exact arrayPush_spec hsize h alloc value hfits
  | insert alloc index value => exact arrayInsert_spec hsize h alloc index value hfits
  | remove index => exact arrayRemove_spec h index
  | reserve alloc capacity => exact arrayReserve_spec hsize h alloc capacity hfits
  | get index => exact arrayGet_spec h index

end Operations

/-- What the caller learns. -/
def replied {size : Nat} (arr : StructArray β) (op : Op β size) : Reply β := ((step arr op).map Prod.fst).getD .done

/-- **The array is a list.** In a run whose operations fit, every operation has its result and is the one of the list,
and the length never exceeds the capacity of the block. -/
theorem array_refines {size : Nat} (hsize : 0 < size) {tr : List (StructArray β × Op β size)} {arr : StructArray β}
    (h : (arrays β size).Run tr arr) (hfits : System.Meets Fits tr) :
    Valid size arr ∧ (lists β size).Run (tr.map fun p => (p.1.elements, p.2, replied p.1 p.2)) arr.elements ∧
      ∀ op : Op β size, Fits arr op → ∃ reply arr', step arr op = some (reply, arr') ∧
        Performs arr.elements op reply arr'.elements := by
  have hinit : ∀ arr, (arrays β size).init arr → Valid size arr ∧ (lists β size).init arr.elements := by
    rintro arr rfl
    exact ⟨valid_arrayInit size, rfl⟩
  have hstep : ∀ arr op arr', Valid size arr → Fits arr op → (arrays β size).step arr op arr' →
      Valid size arr' ∧ (lists β size).step arr.elements (op, replied arr op) arr'.elements := by
    intro arr op arr' hvalid hop hs
    obtain ⟨reply, next, hresult, hnext, hperforms⟩ := step_spec hsize hvalid op hop
    have hs : (step arr op).map Prod.snd = some arr' := hs
    rw [hresult] at hs
    cases hs
    refine ⟨hnext, ?_⟩
    show Performs _ _ (replied arr op) _
    unfold replied
    rw [hresult]
    exact hperforms
  have hvalid := System.Run.invariant (fun arr hs => (hinit arr hs).1)
    (fun arr op arr' hI hG hs => (hstep arr op arr' hI hG hs).1) h hfits
  refine ⟨hvalid, System.Run.image StructArray.elements (fun arr op => (op, replied arr op)) hinit hstep h hfits, ?_⟩
  intro op hop
  obtain ⟨reply, arr', hresult, -, hperforms⟩ := step_spec hsize hvalid op hop
  exact ⟨reply, arr', hresult, hperforms⟩

/-- Two letters an element; the block is allocated once, and a later request for more fails. -/
def someOps : List (Op Char 2) :=
  [.push (some fun _ => 'z') ⟨['a', 'b'], rfl⟩, .push none ⟨['c', 'd'], rfl⟩, .insert none 1 ⟨['e', 'f'], rfl⟩,
    .reserve none 9, .remove 0, .get 1]

theorem array_refines_two : ∃ tr arr, (arrays Char 2).Run tr arr ∧ arr.elements = [['e', 'f'], ['c', 'd']] ∧
    (lists Char 2).Run (tr.map fun p => (p.1.elements, p.2, replied p.1 p.2)) arr.elements := by
  obtain ⟨⟨tr, arr⟩, hexec, hcheck⟩ := Option.map_eq_some_iff.1
    (show (System.exec (fun arr op => (step arr op).map Prod.snd) [] (arrayInit 2) someOps).map
        (fun r => (r.2.elements, decide (∀ p ∈ r.1, Fits p.1 p.2))) = some ([['e', 'f'], ['c', 'd']], true) by
      decide +kernel)
  rw [Prod.mk.injEq] at hcheck
  have hrun : (arrays Char 2).Run tr arr := System.Run.exec (.start rfl) hexec
  have hfits : ∀ p ∈ tr, Fits p.1 p.2 := of_decide_eq_true hcheck.2
  exact ⟨tr, arr, hrun, hcheck.1, (array_refines (by decide) hrun hfits).2.1⟩

end CoWrite.Arrays
