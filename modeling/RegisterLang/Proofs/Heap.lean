import Mathlib.Data.List.Nodup
import RegisterLang.Machine.ArrayHeap

/-! # Arrays and their slots

A heap is consistent when its free slots are exactly those without an array. Creating, writing and destroying
arrays keeps it so, and each of the three concerns one handle only. An operation that fails changes nothing that a
handle names, and nothing at all as long as there is a handle for every slot. Main statements: `creates_of_create`,
`writes_of_set` and `destroys_of_destroy`, `fails_of_create` and the like, and `exists_destroyAll` for several arrays
in a row.
-/

namespace RegisterLang.ArrayHeap

open Array

variable {h h' : ArrayHeap} {handle other : UInt32} {slot : Nat}

/-- The free slots are those without an array, each of them listed once, and each of them has a handle. -/
structure Consistent (h : ArrayHeap) : Prop where
  nodup : h.free.Nodup
  mem_free : ∀ slot, slot ∈ h.free ↔ h.slots[slot]? = some none
  small : ∀ slot ∈ h.free, slot + 1 < UInt32.size

theorem consistent_empty : empty.Consistent where
  nodup := List.nodup_nil
  mem_free := by simp [empty]
  small := nofun

/-- A handle names an array. -/
def Live (h : ArrayHeap) (handle : UInt32) : Prop :=
  ∃ array, h.array? handle = .ok array

/-! ## Handles and slots -/

theorem array?_eq_ok {array : Array Value} : h.array? handle = .ok array ↔
    handle ≠ 0 ∧ h.slots[handle.toNat - 1]? = some (some array) := by
  unfold array?
  by_cases null : handle = 0
  · simp [null]
  · rw [if_neg null]
    constructor
    · intro found
      split at found
      · next stored =>
        cases found
        exact ⟨null, stored⟩
      · cases found
    · rintro ⟨-, stored⟩
      rw [stored]

theorem toNat_of_ne_zero (nonzero : handle ≠ 0) : handle.toNat = handle.toNat - 1 + 1 := by
  have pos : handle.toNat ≠ 0 := fun zero => nonzero (UInt32.toNat.inj zero)
  omega

theorem array?_congr (same : ∀ slot, handle.toNat = slot + 1 → h'.slots[slot]? = h.slots[slot]?) :
    h'.array? handle = h.array? handle := by
  unfold array?
  by_cases null : handle = 0
  · rw [if_pos null, if_pos null]
  · rw [if_neg null, if_neg null, same (handle.toNat - 1) (toNat_of_ne_zero null)]

theorem toNat_handle (small : slot + 1 < UInt32.size) : (UInt32.ofNat (slot + 1)).toNat = slot + 1 :=
  UInt32.toNat_ofNat_of_lt' small

theorem ne_slot_of_ne {slot' : Nat} (apart : other ≠ handle) (here : handle.toNat = slot + 1)
    (there : other.toNat = slot' + 1) : slot ≠ slot' := by
  rintro rfl
  exact apart (UInt32.toNat.inj (there.trans here.symm))

theorem live_setIfInBounds {slots : Array (Option (Array Value))} {old new : Option (Array Value)}
    (stored : slots[slot]? = some old) : (slots.setIfInBounds slot new).countP Option.isSome + old.isSome.toNat =
      slots.countP Option.isSome + new.isSome.toNat := by
  obtain ⟨inside, rfl⟩ := Array.getElem?_eq_some_iff.1 stored
  rw [setIfInBounds_def, dif_pos inside, countP_set]
  have counted : slots[slot].isSome.toNat ≤ slots.countP Option.isSome := by
    cases some : slots[slot].isSome with
    | false => exact Nat.zero_le _
    | true => exact countP_pos_iff.2 ⟨slots[slot], getElem_mem inside, some⟩
  generalize slots[slot] = old at counted
  cases old <;> cases new <;> simp only [Option.isSome_none, Option.isSome_some, Bool.toNat_false,
    Bool.toNat_true, Bool.false_eq_true, reduceIte] at counted ⊢ <;> omega

/-! ## Creating -/

/-- What creating an array does. -/
structure Creates (h : ArrayHeap) (length : Nat) (handle : UInt32) (h' : ArrayHeap) : Prop where
  fresh : ¬ h.Live handle
  array : h'.array? handle = .ok (replicate length 0)
  others : ∀ other, other ≠ handle → h'.array? other = h.array? other
  live : h'.live = h.live + 1
  consistent : h'.Consistent

theorem ofNat_succ_ne_zero (small : slot + 1 < UInt32.size) : UInt32.ofNat (slot + 1) ≠ 0 := by
  intro null
  have number := toNat_handle small
  rw [null] at number
  cases number

theorem creates_reuse (consistent : h.Consistent) {free : List Nat} (listed : h.free = slot :: free) (length : Nat) :
    Creates h length (UInt32.ofNat (slot + 1))
      ⟨h.slots.setIfInBounds slot (some (replicate length 0)), free⟩ := by
  have here : slot ∈ h.free := listed ▸ List.mem_cons_self
  have empty := (consistent.mem_free slot).1 here
  obtain ⟨inside, -⟩ := Array.getElem?_eq_some_iff.1 empty
  have small := consistent.small slot here
  have number := toNat_handle small
  have nodup := consistent.nodup
  rw [listed, List.nodup_cons] at nodup
  refine ⟨?_, ?_, fun other apart => ?_, live_setIfInBounds empty, ⟨nodup.2, fun slot' => ?_, ?_⟩⟩
  · rintro ⟨array, found⟩
    rw [array?_eq_ok, number, Nat.add_sub_cancel, empty] at found
    cases found.2
  · rw [array?_eq_ok, number, Nat.add_sub_cancel, getElem?_setIfInBounds, if_pos rfl, if_pos inside]
    exact ⟨ofNat_succ_ne_zero small, rfl⟩
  · apply array?_congr
    intro slot' there
    rw [getElem?_setIfInBounds, if_neg (ne_slot_of_ne apart number there)]
  · have before := consistent.mem_free slot'
    rw [listed] at before
    rw [getElem?_setIfInBounds]
    by_cases same : slot = slot'
    · subst same
      simp [nodup.1, inside]
    · rw [if_neg same, ← before]
      simp [Ne.symm same]
  · exact fun slot' member => consistent.small slot' (listed ▸ List.mem_cons_of_mem slot member)

theorem Consistent.push (consistent : h.Consistent) (listed : h.free = []) (array : Array Value) :
    Consistent ⟨h.slots.push (some array), []⟩ := by
  refine ⟨List.nodup_nil, fun slot => ?_, nofun⟩
  have before := consistent.mem_free slot
  rw [listed] at before
  rw [getElem?_push]
  by_cases last : slot = h.slots.size
  · simp [last]
  · rw [if_neg last, ← before]

theorem creates_push (consistent : h.Consistent) (listed : h.free = [])
    (small : h.slots.size + 1 < UInt32.size) (length : Nat) : Creates h length (UInt32.ofNat (h.slots.size + 1))
      ⟨h.slots.push (some (replicate length 0)), []⟩ := by
  have number := toNat_handle small
  refine ⟨?_, ?_, fun other apart => ?_, countP_push, consistent.push listed _⟩
  · rintro ⟨array, found⟩
    rw [array?_eq_ok, number, Nat.add_sub_cancel, getElem?_eq_none (Nat.le_refl _)] at found
    cases found.2
  · rw [array?_eq_ok, number, Nat.add_sub_cancel, getElem?_push, if_pos rfl]
    exact ⟨ofNat_succ_ne_zero small, rfl⟩
  · apply array?_congr
    intro slot there
    rw [getElem?_push, if_neg (ne_slot_of_ne apart number there).symm]

/-- What an operation that fails does. A heap may have got a slot that no handle names. -/
structure Fails (h h' : ArrayHeap) : Prop where
  arrays : ∀ handle, h'.array? handle = h.array? handle
  consistent : h.Consistent → h'.Consistent
  same : h'.slots.size < UInt32.size → h' = h

theorem Fails.refl (h : ArrayHeap) : Fails h h :=
  ⟨fun _ => rfl, id, fun _ => rfl⟩

theorem fails_push (listed : h.free = []) (full : ¬ h.slots.size + 1 < UInt32.size) (array : Array Value) :
    Fails h ⟨h.slots.push (some array), []⟩ := by
  refine ⟨fun handle => array?_congr fun slot here => ?_, fun consistent => consistent.push listed array,
    fun small => ?_⟩
  · have small := handle.toNat_lt_size
    rw [getElem?_push, if_neg (by omega)]
  · rw [size_push] at small
    exact absurd small full

/-- An array is created, or no handle is left for it. -/
theorem create_cases (consistent : h.Consistent) {length : UInt64} (fits : length.toNat ≤ maxLength) :
    (∃ handle h', h.create length = (.ok handle, h') ∧ Creates h length.toNat handle h') ∨
      ∃ h', h.create length = (.error (.arrayTooLarge length maxLength), h') ∧ Fails h h' ∧
        UInt32.size ≤ h.slots.size + 1 := by
  unfold create store
  rw [if_neg (Nat.not_lt.2 fits)]
  cases listed : h.free with
  | cons slot free =>
    exact .inl ⟨_, _, if_pos (consistent.small slot (listed ▸ List.mem_cons_self)),
      creates_reuse consistent listed length.toNat⟩
  | nil =>
    by_cases small : h.slots.size + 1 < UInt32.size
    · exact .inl ⟨_, _, if_pos small, creates_push consistent listed small length.toNat⟩
    · exact .inr ⟨_, if_neg small, fails_push listed small _, Nat.le_of_not_lt small⟩

theorem create_of_large {length : UInt64} (large : maxLength < length.toNat) :
    h.create length = (.error (.arrayTooLarge length maxLength), h) :=
  if_pos large

theorem create_error {length : UInt64} {fault : Fault} (failed : h.create length = (.error fault, h')) :
    fault = .arrayTooLarge length maxLength := by
  unfold create at failed
  split at failed
  · cases failed
    rfl
  · dsimp only at failed
    split at failed
    · cases failed
    · cases failed
      rfl

theorem creates_of_create {length : UInt64} (consistent : h.Consistent)
    (created : h.create length = (.ok handle, h')) : Creates h length.toNat handle h' := by
  rcases Nat.lt_or_ge maxLength length.toNat with large | fits
  · cases created.symm.trans (create_of_large large)
  rcases create_cases consistent fits with ⟨_, _, made, creates⟩ | ⟨_, failed, -⟩
  · cases created.symm.trans made
    exact creates
  · cases created.symm.trans failed

theorem fails_of_create {length : UInt64} {fault : Fault} (consistent : h.Consistent)
    (failed : h.create length = (.error fault, h')) : Fails h h' := by
  rcases Nat.lt_or_ge maxLength length.toNat with large | fits
  · cases failed.symm.trans (create_of_large large)
    exact .refl h
  rcases create_cases consistent fits with ⟨_, _, made, -⟩ | ⟨_, refused, fails, -⟩
  · cases failed.symm.trans made
  · cases failed.symm.trans refused
    exact fails

theorem Consistent.create_snd (consistent : h.Consistent) (length : UInt64) : (h.create length).2.Consistent := by
  rcases created : h.create length with ⟨fault | handle, h'⟩
  · exact (fails_of_create consistent created).consistent consistent
  · exact (creates_of_create consistent created).consistent

/-! ## Reading and writing -/

theorem get_snd (h : ArrayHeap) (handle : UInt32) (index : UInt64) : (h.get handle index).2 = h := by
  unfold get
  split
  · rfl
  · split <;> rfl

/-- What writing an element does. -/
structure Writes (h : ArrayHeap) (handle : UInt32) (index : Nat) (v : Value) (h' : ArrayHeap) :
    Prop where
  array : ∃ array, h.array? handle = .ok array ∧ index < array.size ∧
    h'.array? handle = .ok (array.setIfInBounds index v)
  others : ∀ other, other ≠ handle → h'.array? other = h.array? other
  live : h'.live = h.live
  consistent : h.Consistent → h'.Consistent

theorem set_error {index : UInt64} {v : Value} {fault : Fault} (failed : h.set handle index v = (.error fault, h')) :
    h' = h := by
  unfold set at failed
  split at failed
  · cases failed
    rfl
  · split at failed
    · cases failed
    · cases failed
      rfl

theorem writes_of_set {index : UInt64} {v : Value} (written : h.set handle index v = (.ok (), h')) :
    Writes h handle index.toNat v h' := by
  unfold set at written
  cases found : h.array? handle with
  | error fault =>
    rw [length, found] at written
    cases written
  | ok array =>
    rw [length, found] at written
    change (if index.toNat < array.size then _ else _) = _ at written
    by_cases inside : index.toNat < array.size
    · rw [if_pos inside] at written
      cases written
      obtain ⟨nonzero, stored⟩ := array?_eq_ok.1 found
      have number := toNat_of_ne_zero nonzero
      -- Whether a slot has an array stays as it is.
      have filled : ∀ write : Array Value → Array Value,
          (h.slots.modify (handle.toNat - 1) (Option.map write)).map Option.isSome =
            h.slots.map Option.isSome := by
        intro write
        refine ext_getElem? fun slot => ?_
        rw [getElem?_map, getElem?_modify, getElem?_map]
        split
        · cases h.slots[slot]? <;> simp
        · rfl
      refine ⟨⟨array, found, inside, ?_⟩, fun other apart => ?_, ?_, fun consistent => ?_⟩
      · rw [array?_eq_ok, getElem?_modify, if_pos rfl, stored]
        exact ⟨nonzero, rfl⟩
      · apply array?_congr
        intro slot there
        rw [getElem?_modify, if_neg (ne_slot_of_ne apart number there)]
      · have counted := congrArg (countP id)
          (filled fun array => array.setIfInBounds index.toNat v)
        rw [countP_map, countP_map] at counted
        exact counted
      · refine ⟨consistent.nodup, fun slot => ?_, ?_⟩
        · rw [consistent.mem_free, getElem?_modify]
          split
          · cases h.slots[slot]? with
            | none => rfl
            | some content => cases content <;> simp
          · rfl
        · exact consistent.small
    · rw [if_neg inside] at written
      cases written

theorem Consistent.set_snd (consistent : h.Consistent) (handle : UInt32) (index : UInt64) (v : Value) :
    (h.set handle index v).2.Consistent := by
  rcases written : h.set handle index v with ⟨fault | _, h'⟩
  · exact set_error written ▸ consistent
  · exact (writes_of_set written).consistent consistent

/-! ## Destroying -/

/-- What destroying an array does. -/
structure Destroys (h : ArrayHeap) (handle : UInt32) (h' : ArrayHeap) : Prop where
  stale : h'.array? handle = .error (.staleArray handle)
  others : ∀ other, other ≠ handle → h'.array? other = h.array? other
  live : h'.live + 1 = h.live
  consistent : h.Consistent → h'.Consistent

theorem exists_destroys (live : h.Live handle) : ∃ h', h.destroy handle = (.ok (), h') ∧ Destroys h handle h' := by
  obtain ⟨array, found⟩ := live
  obtain ⟨nonzero, stored⟩ := array?_eq_ok.1 found
  obtain ⟨inside, -⟩ := Array.getElem?_eq_some_iff.1 stored
  have number := toNat_of_ne_zero nonzero
  refine ⟨⟨h.slots.setIfInBounds (handle.toNat - 1) none, (handle.toNat - 1) :: h.free⟩, ?_,
    ⟨?_, fun other apart => ?_, live_setIfInBounds stored, fun consistent => ?_⟩⟩
  · unfold destroy
    rw [if_neg nonzero, length, found]
    rfl
  · unfold array?
    rw [if_neg nonzero, getElem?_setIfInBounds, if_pos rfl, if_pos inside]
  · apply array?_congr
    intro slot there
    rw [getElem?_setIfInBounds, if_neg (ne_slot_of_ne apart number there)]
  · refine ⟨List.nodup_cons.2 ⟨?_, consistent.nodup⟩, fun slot => ?_, ?_⟩
    · rw [consistent.mem_free, stored]
      simp
    · rw [List.mem_cons, consistent.mem_free, getElem?_setIfInBounds]
      by_cases same : handle.toNat - 1 = slot
      · simp [← same, inside]
      · rw [if_neg same]
        simp [Ne.symm same]
    · refine List.forall_mem_cons.2 ⟨?_, consistent.small⟩
      have small := handle.toNat_lt_size
      omega

theorem destroy_zero (h : ArrayHeap) : h.destroy 0 = (.ok (), h) :=
  rfl

theorem destroy_error {fault : Fault} (failed : h.destroy handle = (.error fault, h')) : h' = h := by
  unfold destroy at failed
  split at failed
  · cases failed
  · split at failed
    · cases failed
      rfl
    · cases failed

theorem live_of_destroy (nonzero : handle ≠ 0) (destroyed : h.destroy handle = (.ok (), h')) : h.Live handle := by
  unfold destroy at destroyed
  rw [if_neg nonzero, length] at destroyed
  cases found : h.array? handle with
  | error fault =>
    rw [found] at destroyed
    cases destroyed
  | ok array => exact ⟨array, found⟩

theorem destroys_of_destroy (nonzero : handle ≠ 0) (destroyed : h.destroy handle = (.ok (), h')) :
    Destroys h handle h' := by
  obtain ⟨h'', destroyed', destroys⟩ := exists_destroys (live_of_destroy nonzero destroyed)
  cases destroyed.symm.trans destroyed'
  exact destroys

theorem Consistent.destroy (consistent : h.Consistent) (destroyed : h.destroy handle = (.ok (), h')) :
    h'.Consistent := by
  by_cases null : handle = 0
  · subst null
    cases destroyed
    exact consistent
  · exact (destroys_of_destroy null destroyed).consistent consistent

theorem Consistent.destroy_snd (consistent : h.Consistent) (handle : UInt32) : (h.destroy handle).2.Consistent := by
  rcases destroyed : h.destroy handle with ⟨fault | _, h'⟩
  · exact destroy_error destroyed ▸ consistent
  · exact consistent.destroy destroyed

/-- Destroy arrays one after the other, all of them or none. -/
def destroyAll? (h : ArrayHeap) : List UInt32 → Option ArrayHeap
  | [] => some h
  | handle :: handles =>
    match h.destroy handle with
    | (.ok _, h) => h.destroyAll? handles
    | (.error _, _) => none

theorem destroyAll?_cons {first : UInt32} {handles : List UInt32} : h.destroyAll? (first :: handles) = some h' ↔
    ∃ h₁, h.destroy first = (.ok (), h₁) ∧ h₁.destroyAll? handles = some h' := by
  rw [destroyAll?]
  rcases h.destroy first with ⟨fault | ⟨⟩, h₁⟩ <;> simp

/-- Different arrays can be destroyed one after the other; a handle that names no array is passed over. -/
theorem exists_destroyAll {handles : List UInt32}
    (live : ∀ handle ∈ handles, handle ≠ 0 → h.Live handle) (nodup : (handles.filter (· ≠ 0)).Nodup) :
    ∃ h', h.destroyAll? handles = some h' ∧ (h.Consistent → h'.Consistent) ∧
      (∀ other, other ∉ handles → h'.array? other = h.array? other) ∧
      h'.live + (handles.filter (· ≠ 0)).length = h.live := by
  induction handles generalizing h with
  | nil => exact ⟨h, rfl, id, fun _ _ => rfl, rfl⟩
  | cons handle handles ih =>
    by_cases null : handle = 0
    · rw [List.filter_cons_of_neg (by simp [null])] at nodup ⊢
      obtain ⟨h', ran, consistent, others, count⟩ :=
        ih (fun other member => live other (List.mem_cons_of_mem _ member)) nodup
      refine ⟨h', ?_, consistent, fun other absent => others other ?_, count⟩
      · exact destroyAll?_cons.2 ⟨h, null ▸ destroy_zero h, ran⟩
      · exact fun member => absent (List.mem_cons_of_mem _ member)
    · rw [List.filter_cons_of_pos (by simp [null])] at nodup ⊢
      obtain ⟨apart, nodup⟩ := List.nodup_cons.1 nodup
      obtain ⟨h1, destroyed, destroys⟩ := exists_destroys (live handle List.mem_cons_self null)
      have kept : ∀ other ∈ handles, other ≠ 0 → h1.Live other := by
        intro other member nonzero
        have different : other ≠ handle := by
          rintro rfl
          exact apart (List.mem_filter.2 ⟨member, by simp [nonzero]⟩)
        unfold Live
        rw [destroys.others other different]
        exact live other (List.mem_cons_of_mem _ member) nonzero
      obtain ⟨h', ran, consistent, others, count⟩ := ih kept nodup
      have counted := destroys.live
      refine ⟨h', ?_, consistent ∘ destroys.consistent, fun other absent => ?_, ?_⟩
      · exact destroyAll?_cons.2 ⟨h1, destroyed, ran⟩
      · rw [List.mem_cons, not_or] at absent
        rw [others other absent.2, destroys.others other absent.1]
      · rw [List.length_cons]
        omega

end RegisterLang.ArrayHeap
