import RegisterLang.Machine.Run
import RegisterLang.Proofs.Finding

/-! # Histories of the heap

What the heap is after any operations can be told from what they did: which handles name an array, how long it is, and
what was written last to each of its elements since it was created. Main statements: `array?_after`, that the heap is
as its history tells it; `sound_after`, that it never lists a free slot twice, mixes two arrays up or loses count of
them; and `stale_until_created`, that the handle of an array that was destroyed names nothing until an array is created
under it.
-/

namespace RegisterLang.ArrayHeap

open List

/-! ## Operations -/

/-- An operation on the arrays. -/
inductive Operation where
  | create (length : UInt64)
  | get (handle : UInt32) (index : UInt64)
  | set (handle : UInt32) (index : UInt64) (v : Value)
  | destroy (handle : UInt32)
  deriving DecidableEq, Repr

/-- What an operation replies when it does not fail. -/
inductive Reply where
  | handle (handle : UInt32)
  | value (v : Value)
  | done
  deriving DecidableEq, Repr

/-- Perform an operation. -/
def perform (h : ArrayHeap) : Operation → Except Fault Reply × ArrayHeap
  | .create length => (h.create length).map (Except.map .handle) id
  | .get handle index => (h.get handle index).map (Except.map .value) id
  | .set handle index v => (h.set handle index v).map (Except.map fun _ => .done) id
  | .destroy handle => (h.destroy handle).map (Except.map fun _ => .done) id

/-- The heap after some operations, of which the last one stands first. -/
def after : List Operation → ArrayHeap
  | [] => .empty
  | op :: before => ((after before).perform op).2

/-- What an operation replies after others. -/
def reply (op : Operation) (before : List Operation) : Except Fault Reply :=
  ((after before).perform op).1

/-! ## What happened to a handle -/

/-- What can happen to the array that a handle names. -/
inductive Event where
  | created (length : Nat)
  | written (index : Nat) (v : Value)
  | destroyed
  deriving DecidableEq, Repr

/-- What an operation did to which handle, as its reply tells it. -/
def Operation.event? : Operation → Except Fault Reply → Option (UInt32 × Event)
  | .create length, .ok (.handle handle) => some (handle, .created length.toNat)
  | .set handle index v, .ok _ => some (handle, .written index.toNat v)
  | .destroy handle, .ok _ => some (handle, .destroyed)
  | _, _ => none

/-- What happened, of which the last stands first. -/
def history : List Operation → List (UInt32 × Event)
  | [] => []
  | op :: before => (op.event? (reply op before)).toList ++ history before

/-- What happened to one handle. -/
def about (handle : UInt32) (events : List (UInt32 × Event)) : List Event :=
  events.filterMap fun event => if event.1 = handle then some event.2 else none

/-- How many arrays were created. -/
def creations (events : List (UInt32 × Event)) : Nat :=
  events.countP fun event => event.2 matches .created _

/-- How many arrays were destroyed; destroying no array does not count. -/
def destructions (events : List (UInt32 × Event)) : Nat :=
  events.countP fun event => event.1 ≠ 0 ∧ event.2 = .destroyed

namespace Event

/-- The length of the array, if there is one. -/
def length? : List Event → Option Nat
  | [] => none
  | .created length :: _ => some length
  | .written _ _ :: before => length? before
  | .destroyed :: _ => none

/-- What was written last to an element since the array was created. -/
def written? (index : Nat) : List Event → Option Value
  | .written i v :: before => if i = index then some v else written? index before
  | _ => none

/-- An element that was never written to is zero. -/
def element (events : List Event) (index : Nat) : Value :=
  (written? index events).getD 0

end Event

/-- The array that a handle names, as what happened to it tells. -/
def told (events : List (UInt32 × Event)) (handle : UInt32) : Except Fault (Array Value) :=
  match Event.length? (about handle events) with
  | some length => .ok (Array.ofFn fun i : Fin length => Event.element (about handle events) i)
  | none => .error (if handle = 0 then .nullArray else .staleArray handle)

/-! ## What one operation does -/

variable {h h' : ArrayHeap} {handle other : UInt32} {event : Option (UInt32 × Event)}
  {events : List (UInt32 × Event)}

/-- What can happen to a consistent heap. -/
inductive Happens (h : ArrayHeap) : Option (UInt32 × Event) → ArrayHeap → Prop where
  | nothing {h' : ArrayHeap} (fails : Fails h h') : Happens h none h'
  | created {handle : UInt32} {length : Nat} {h' : ArrayHeap} (creates : Creates h length handle h') :
      Happens h (some (handle, .created length)) h'
  | written {handle : UInt32} {index : Nat} {v : Value} {h' : ArrayHeap} (writes : Writes h handle index v h') :
      Happens h (some (handle, .written index v)) h'
  | passed : Happens h (some (0, .destroyed)) h
  | destroyed {handle : UInt32} {h' : ArrayHeap} (nonzero : handle ≠ 0) (destroys : Destroys h handle h') :
      Happens h (some (handle, .destroyed)) h'

theorem happens_of_perform (consistent : h.Consistent) (op : Operation) :
    Happens h (op.event? (h.perform op).1) (h.perform op).2 := by
  cases op with
  | create length =>
    rw [perform]
    rcases made : h.create length with ⟨fault | handle, h'⟩
    · exact .nothing (fails_of_create consistent made)
    · exact .created (creates_of_create consistent made)
  | get handle index =>
    refine .nothing ?_
    rw [perform, Prod.map_snd, get_snd]
    exact .refl h
  | set handle index v =>
    rw [perform]
    rcases stored : h.set handle index v with ⟨fault | _, h'⟩
    · exact .nothing (set_error stored ▸ .refl h)
    · exact .written (writes_of_set stored)
  | destroy handle =>
    rw [perform]
    by_cases null : handle = 0
    · subst null
      exact .passed
    · rcases gone : h.destroy handle with ⟨fault | _, h'⟩
      · exact .nothing (destroy_error gone ▸ .refl h)
      · exact .destroyed null (destroys_of_destroy null gone)

theorem Happens.consistent (happens : Happens h event h') (consistent : h.Consistent) : h'.Consistent := by
  cases happens with
  | nothing fails => exact fails.consistent consistent
  | created creates => exact creates.consistent
  | written writes => exact writes.consistent consistent
  | passed => exact consistent
  | destroyed _ destroys => exact destroys.consistent consistent

theorem Happens.others (happens : Happens h event h') (apart : ∀ e, event ≠ some (other, e)) :
    h'.array? other = h.array? other := by
  have different : ∀ {handle e}, event = some (handle, e) → other ≠ handle := by
    intro handle e same equal
    subst equal
    exact apart e same
  cases happens with
  | nothing fails => exact fails.arrays other
  | created creates => exact creates.others other (different rfl)
  | written writes => exact writes.others other (different rfl)
  | passed => rfl
  | destroyed _ destroys => exact destroys.others other (different rfl)

theorem Happens.count (happens : Happens h event h') (few : h'.slots.size < UInt32.size)
    (counted : h.live + destructions events = creations events) :
    h'.live + destructions (event.toList ++ events) = creations (event.toList ++ events) := by
  unfold destructions creations at *
  cases happens with
  | nothing fails =>
    rw [fails.same few]
    exact counted
  | created creates =>
    have more := creates.live
    rw [Option.toList_some, singleton_append, countP_cons_of_neg (by simp), countP_cons_of_pos rfl]
    omega
  | written writes =>
    rw [Option.toList_some, singleton_append, countP_cons_of_neg (by simp), writes.live]
    exact counted
  | passed =>
    exact counted
  | destroyed nonzero destroys =>
    have fewer := destroys.live
    rw [Option.toList_some, singleton_append, countP_cons_of_pos (by simpa using nonzero),
      countP_cons_of_neg (by simp)]
    omega

/-! ## The history tells the heap -/

theorem about_cons_self (e : Event) : about handle ((handle, e) :: events) = e :: about handle events :=
  filterMap_cons_some (if_pos rfl)

theorem about_cons_of_ne (e : Event) (apart : handle ≠ other) :
    about other ((handle, e) :: events) = about other events :=
  filterMap_cons_none (if_neg apart)

theorem about_append (recent old : List (UInt32 × Event)) :
    about handle (recent ++ old) = about handle recent ++ about handle old :=
  filterMap_append

theorem told_cons_of_ne (e : Event) (apart : handle ≠ other) :
    told ((handle, e) :: events) other = told events other := by
  unfold told
  rw [about_cons_of_ne e apart]

theorem ofFn_element_written {index : Nat} {v : Value} (events : List Event) (length : Nat) :
    (Array.ofFn fun i : Fin length => Event.element (.written index v :: events) i) =
      (Array.ofFn fun i : Fin length => Event.element events i).setIfInBounds index v := by
  apply Array.ext_getElem?
  intro i
  rw [Array.getElem?_setIfInBounds, Array.getElem?_ofFn, Array.size_ofFn]
  by_cases inside : i < length
  · by_cases same : index = i
    · simp [same, inside, Event.element, Event.written?]
    · simp [same, inside, Event.element, Event.written?]
  · by_cases same : index = i
    · simp [same, inside]
    · simp [same, inside]

theorem Happens.tells (happens : Happens h event h') (tells : ∀ handle, h.array? handle = told events handle)
    (handle : UInt32) : h'.array? handle = told (event.toList ++ events) handle := by
  -- A handle that nothing happens to is told as before.
  by_cases apart : ∀ e, event ≠ some (handle, e)
  · rw [happens.others apart, tells]
    cases event with
    | none => rfl
    | some happened =>
      obtain ⟨other, e⟩ := happened
      have different : other ≠ handle := fun same => apart e (by rw [same])
      exact (told_cons_of_ne e different).symm
  push Not at apart
  obtain ⟨e, rfl⟩ := apart
  unfold told
  rw [Option.toList_some, singleton_append, about_cons_self]
  cases happens with
  | created creates =>
    rw [creates.array]
    exact congrArg Except.ok (Array.ext (by simp) (by simp [Event.element, Event.written?]))
  | written writes =>
    obtain ⟨array, found, -, written⟩ := writes.array
    rw [tells, told] at found
    rw [written, Event.length?]
    cases long : Event.length? (about handle events) with
    | none =>
      rw [long] at found
      cases found
    | some length =>
      rw [long] at found
      cases found
      exact congrArg Except.ok (ofFn_element_written _ length).symm
  | passed => rfl
  | destroyed nonzero destroys =>
    rw [destroys.stale]
    simp [Event.length?, nonzero]

/-! ## Every run of operations -/

variable {op : Operation} {ops : List Operation}

theorem consistent_after (ops : List Operation) : (after ops).Consistent := by
  induction ops with
  | nil => exact consistent_empty
  | cons op before ih => exact (happens_of_perform ih op).consistent ih

theorem happens_after (op : Operation) (before : List Operation) :
    Happens (after before) (op.event? (reply op before)) (after (op :: before)) :=
  happens_of_perform (consistent_after before) op

theorem array?_after (ops : List Operation) (handle : UInt32) :
    (after ops).array? handle = told (history ops) handle := by
  induction ops generalizing handle with
  | nil =>
    unfold array? told
    by_cases null : handle = 0
    · simp [null, history, about, Event.length?]
    · simp [null, history, about, Event.length?, after, empty]
  | cons op before ih => exact (happens_after op before).tells ih handle

/-- There was a handle for every slot all the time. -/
def Fits (ops : List Operation) : Prop :=
  ∀ earlier, earlier <:+ ops → (after earlier).slots.size < UInt32.size

theorem live_after (fits : Fits ops) : (after ops).live + destructions (history ops) = creations (history ops) := by
  induction ops with
  | nil => rfl
  | cons op before ih =>
    have counted := ih fun earlier suffix => fits earlier (suffix.trans (suffix_cons op before))
    exact (happens_after op before).count (fits _ suffix_rfl) counted

theorem live_after_iff : (after ops).Live handle ↔ (Event.length? (about handle (history ops))).isSome := by
  unfold Live
  rw [array?_after, told]
  cases Event.length? (about handle (history ops)) with
  | none | some _ => simp

theorem after_cons_of_error {fault : Fault} (few : (after (op :: ops)).slots.size < UInt32.size)
    (failed : reply op ops = .error fault) : after (op :: ops) = after ops := by
  have happens := happens_after op ops
  rw [failed] at happens
  generalize after (op :: ops) = left at happens few
  cases op with
  | create _ | get _ _ | set _ _ _ | destroy _ =>
    cases happens with
    | nothing fails => exact fails.same few

/-- The handle that an operation is about: the one it was given, or the one it replied. -/
def Operation.target? : Operation → Except Fault Reply → Option UInt32
  | .create _, .ok (.handle handle) => some handle
  | .create _, _ => none
  | .get handle _, _ | .set handle _ _, _ | .destroy handle, _ => some handle

theorem Operation.target?_of_event? {r : Except Fault Reply} {e : Event} (happened : op.event? r = some (handle, e)) :
    op.target? r = some handle := by
  cases op with
  | create length =>
    rcases r with fault | reply
    · cases happened
    · cases reply with
      | handle made =>
        cases happened
        rfl
      | value _ | done => cases happened
  | get _ _ => cases happened
  | set _ _ _ =>
    cases r with
    | error fault => cases happened
    | ok reply =>
      cases happened
      rfl
  | destroy _ =>
    cases r with
    | error fault => cases happened
    | ok reply =>
      cases happened
      rfl

theorem reply_create_iff (room : (after ops).slots.size ≤ UInt32.size - 2) (length : UInt64) :
    (∃ handle, reply (.create length) ops = .ok (.handle handle)) ↔ length.toNat ≤ maxLength := by
  rw [reply, perform]
  rcases Nat.lt_or_ge maxLength length.toNat with large | fits
  · rw [create_of_large large]
    simp [Except.map, large]
  rcases create_cases (consistent_after ops) fits with ⟨handle, h', made, -⟩ | ⟨h', -, -, full⟩
  · rw [made]
    exact ⟨fun _ => fits, fun _ => ⟨handle, rfl⟩⟩
  · rw [UInt32.size] at room full
    omega

theorem reply_get {length : Nat} (long : Event.length? (about handle (history ops)) = some length) (index : UInt64) :
    reply (.get handle index) ops =
      if index.toNat < length then .ok (.value (Event.element (about handle (history ops)) index.toNat))
      else .error (.arrayIndexOutOfBounds index length) := by
  have found := array?_after ops handle
  rw [told, long] at found
  rw [reply, perform, ArrayHeap.get, found]
  dsimp only
  rw [Array.getElem?_ofFn, Array.size_ofFn]
  by_cases inside : index.toNat < length
  · rw [dif_pos inside, if_pos inside]
    rfl
  · rw [dif_neg inside, if_neg inside]
    rfl

end RegisterLang.ArrayHeap

namespace RegisterLang.Machine

open ArrayHeap

variable {σ : Type}

/-- The operation on the arrays that an instruction performs. -/
def State.operation? (s : State σ) : Instruction → Option Operation
  | .arrayNew _ len => some (.create (s.reg len))
  | .arrayGet _ array index => some (.get (s.reg array).handle (s.reg index))
  | .arraySet array index value => some (.set (s.reg array).handle (s.reg index) (s.reg value))
  | .arrayDestroy reg => some (.destroy (s.reg reg).handle)
  | _ => none

/-- An instruction does to the arrays what its operation does, and faults when that fails. -/
theorem step_of_operation (env : Env σ) (frame : Frame) (offset next : Nat) {i : Instruction} {s : State σ}
    {op : Operation} (performed : s.operation? i = some op) :
    (step env frame offset next i s).2.arrays = (s.arrays.perform op).2 ∧
      ∀ fault, (step env frame offset next i s).1 = .error fault ↔ (s.arrays.perform op).1 = .error fault := by
  have steps {α : Type} (result : Except Fault α × ArrayHeap) (answer : α → Reply) {go : α → State σ → State σ}
      (still : ∀ a s, (go a s).arrays = s.arrays) :
      (onArrays result go s).2.arrays = (result.map (Except.map answer) id).2 ∧ ∀ fault,
        (onArrays result go s).1 = .error fault ↔ (result.map (Except.map answer) id).1 = .error fault := by
    refine ⟨arrays_onArrays still s, fun fault => onArrays_eq_error.trans ?_⟩
    rcases result with ⟨_ | _, _⟩ <;> simp [Except.map]
  cases i with
  | arrayNew dst len =>
    cases performed
    exact steps _ .handle fun _ _ => rfl
  | arrayGet dst array index =>
    cases performed
    exact steps _ .value fun _ _ => rfl
  | arraySet array index value =>
    cases performed
    exact steps _ (fun _ => .done) fun _ _ => rfl
  | arrayDestroy reg =>
    cases performed
    exact steps _ (fun _ => .done) fun _ _ => rfl
  | _ => cases performed

end RegisterLang.Machine

namespace RegisterLang.ArrayHeap

variable {h : ArrayHeap} {handle : UInt32} {op : Operation} {ops : List Operation}

/-- What holds of the heap after some operations, and of the operation that comes next. -/
structure Sound (ops : List Operation) : Prop where
  free_nodup : (after ops).free.Nodup
  mem_free : ∀ slot, slot ∈ (after ops).free ↔ (after ops).slots[slot]? = some none
  live : Fits ops → (after ops).live + destructions (history ops) = creations (history ops)
  live_iff : ∀ handle, (after ops).Live handle ↔ (Event.length? (about handle (history ops))).isSome
  created : ∀ length handle, reply (.create length) ops = .ok (.handle handle) →
    handle ≠ 0 ∧ ¬ (after ops).Live handle ∧
      (after (.create length :: ops)).array? handle = .ok (Array.replicate length.toNat 0)
  creates : (after ops).slots.size ≤ UInt32.size - 2 → ∀ length,
    (∃ handle, reply (.create length) ops = .ok (.handle handle)) ↔ length.toNat ≤ maxLength
  /-- A read gives what was written last since the array was created. -/
  get : ∀ handle index length, Event.length? (about handle (history ops)) = some length →
    reply (.get handle index) ops =
      if index.toNat < length then .ok (.value (Event.element (about handle (history ops)) index.toNat))
      else .error (.arrayIndexOutOfBounds index length)
  others : ∀ (op : Operation) other, op.target? (reply op ops) ≠ some other →
    (after (op :: ops)).array? other = (after ops).array? other
  failed : ∀ op fault, Fits (op :: ops) → reply op ops = .error fault → after (op :: ops) = after ops
  /-- The instructions of the machine perform these operations, and fault when they fail. -/
  executed : ∀ {σ : Type} (env : Machine.Env σ) frame offset next i (s : Machine.State σ) op,
    s.arrays = after ops → s.operation? i = some op →
      (Machine.step env frame offset next i s).2.arrays = after (op :: ops) ∧
        ∀ fault, (Machine.step env frame offset next i s).1 = .error fault ↔ reply op ops = .error fault

theorem sound_after (ops : List Operation) : Sound ops where
  free_nodup := (consistent_after ops).nodup
  mem_free := (consistent_after ops).mem_free
  live := live_after
  live_iff := fun _ => live_after_iff
  created := by
    intro length handle replied
    have happens := happens_after (.create length) ops
    rw [replied] at happens
    cases happens with
    | created creates => exact ⟨(array?_eq_ok.1 creates.array).1, creates.fresh, creates.array⟩
  creates := reply_create_iff
  get := fun _ index _ long => reply_get long index
  others := by
    intro op other apart
    apply (happens_after op ops).others
    intro e happened
    exact apart (op.target?_of_event? happened)
  failed := fun _ _ fits => after_cons_of_error (fits _ List.suffix_rfl)
  executed := by
    intro σ env frame offset next i s op same performed
    have steps := Machine.step_of_operation env frame offset next performed
    rw [same] at steps
    exact steps

/-! ## Handles of arrays that were destroyed -/

/-- The handle that an operation is given. -/
def Operation.given? : Operation → Option UInt32
  | .create _ => none
  | .get handle _ | .set handle _ _ | .destroy handle => some handle

/-- What later operations did after some earlier ones. -/
def since (earlier : List Operation) : List Operation → List (UInt32 × Event)
  | [] => []
  | op :: before => (op.event? (reply op (before ++ earlier))).toList ++ since earlier before

theorem history_append (later earlier : List Operation) :
    history (later ++ earlier) = since earlier later ++ history earlier := by
  induction later with
  | nil => rfl
  | cons op before ih => rw [List.cons_append, history, since, ih, List.append_assoc]

/-- What happened before an array was destroyed says nothing about its handle any more. -/
theorem Event.length?_append_destroyed (recent old : List Event) :
    length? (recent ++ .destroyed :: old) = length? recent := by
  induction recent with
  | nil => rfl
  | cons e recent ih =>
    cases e with
    | created length => rfl
    | written index v => exact ih
    | destroyed => rfl

theorem Event.length?_eq_none {recent : List Event} (none : ∀ length, .created length ∉ recent) :
    length? recent = Option.none := by
  induction recent with
  | nil => rfl
  | cons e recent ih =>
    cases e with
    | created length => exact absurd List.mem_cons_self (none length)
    | written index v => exact ih fun length member => none length (List.mem_cons_of_mem _ member)
    | destroyed => rfl

theorem perform_of_error {fault : Fault} (nonzero : handle ≠ 0) (missing : h.array? handle = .error fault)
    (given : op.given? = some handle) : (h.perform op).1 = .error fault := by
  cases op with
  | create length => cases given
  | get _ index =>
    cases given
    rw [perform, ArrayHeap.get, missing]
    rfl
  | set _ index v =>
    cases given
    rw [perform, ArrayHeap.set, length, missing]
    rfl
  | destroy _ =>
    cases given
    rw [perform, ArrayHeap.destroy, if_neg nonzero, length, missing]
    rfl

theorem perform_ne_stale {array : Array Value} (found : h.array? handle = .ok array)
    (given : op.given? = some handle) : (h.perform op).1 ≠ .error (.staleArray handle) := by
  cases op with
  | create length => cases given
  | get _ index =>
    cases given
    rw [perform, ArrayHeap.get, found]
    dsimp only
    cases array[index.toNat]? with
    | none | some v => simp [Except.map]
  | set _ index v =>
    cases given
    rw [perform, ArrayHeap.set, length, found]
    by_cases inside : index.toNat < array.size
    · simp [Except.map, inside]
    · simp [Except.map, inside]
  | destroy _ =>
    cases given
    obtain ⟨h', destroyed, -⟩ := exists_destroys ⟨array, found⟩
    rw [perform, destroyed]
    simp [Except.map]

theorem reply_eq_stale_iff (nonzero : handle ≠ 0) (given : op.given? = some handle) :
    reply op ops = .error (.staleArray handle) ↔ Event.length? (about handle (history ops)) = none := by
  have found := array?_after ops handle
  rw [told] at found
  rw [reply]
  cases long : Event.length? (about handle (history ops)) with
  | none =>
    rw [long, if_neg nonzero] at found
    rw [perform_of_error nonzero found given]
    exact ⟨fun _ => rfl, fun _ => rfl⟩
  | some length =>
    rw [long] at found
    simp [perform_ne_stale found given]

/-- The handle of an array that was destroyed is stale as long as the last array that was created under it since is
destroyed as well; in particular as long as there is none. -/
theorem stale_until_created {earlier later : List Operation} (nonzero : handle ≠ 0)
    (gone : reply (.destroy handle) earlier = .ok .done) (given : op.given? = some handle) :
    (reply op (later ++ .destroy handle :: earlier) = .error (.staleArray handle) ↔
        Event.length? (about handle (since (.destroy handle :: earlier) later)) = none) ∧
      ((∀ length, .created length ∉ about handle (since (.destroy handle :: earlier) later)) →
        reply op (later ++ .destroy handle :: earlier) = .error (.staleArray handle)) := by
  have destroying : history (.destroy handle :: earlier) = (handle, .destroyed) :: history earlier := by
    rw [history, gone]
    rfl
  have stale : reply op (later ++ .destroy handle :: earlier) = .error (.staleArray handle) ↔ _ :=
    reply_eq_stale_iff nonzero given
  rw [history_append, destroying, about_append, about_cons_self, Event.length?_append_destroyed] at stale
  exact ⟨stale, fun none => stale.2 (Event.length?_eq_none none)⟩

/-- An array is created under the handle again, written to and destroyed as well. -/
theorem stale_until_created_again : reply (.destroy 1) [.create 2, .create 1] = .ok .done ∧
      reply (.get 1 0) ([.destroy 1, .set 1 0 7, .create 3] ++ .destroy 1 :: [.create 2, .create 1]) =
        .error (.staleArray 1) := by
  have gone : reply (.destroy 1) [.create 2, .create 1] = .ok .done := rfl
  exact ⟨gone, (stale_until_created (by decide) gone rfl).1.2 rfl⟩

/-- An array that is created takes over the handle of the one that was destroyed last. -/
theorem exists_reused_handle : reply (.destroy 1) [.create 1] = .ok .done ∧
      reply (.create 1) [.destroy 1, .create 1] = .ok (.handle 1) ∧
      reply (.get 1 0) ([.create 1] ++ .destroy 1 :: [.create 1]) = .ok (.value 0) :=
  ⟨rfl, rfl, rfl⟩

end RegisterLang.ArrayHeap
