import Mathlib.Tactic.Common
import MinimalWatch.Lib.Machine
import MinimalWatch.Ui.Pages

/-! The keys of the watch, from encoder.c: an input event leaves its key in a slot for one
key, and LVGL empties the slot when it polls. Events and polls come in any order, each of
them whole. A press is over for LVGL when it reads a release. -/

namespace MinimalWatch.Ui
open Firmware

/-- The configurations that `input_cb` is compiled for. -/
structure Platform where
  socEsp32s3 : Bool
  archPosix : Bool
  deriving DecidableEq, Repr

inductive InputType
  | key
  | rel
  | other (type : UInt8)
  deriving DecidableEq, Repr

inductive InputCode
  | wheel
  | left
  | right
  | enter
  | esc
  | other (code : UInt16)
  deriving DecidableEq, Repr

structure InputEvent where
  type : InputType
  code : InputCode
  value : Int32
  deriving DecidableEq, Repr

inductive IndevState
  | pressed
  | released
  deriving DecidableEq, Repr

structure IndevData where
  key : LvKey
  state : IndevState
  deriving DecidableEq, Repr

structure Keypad where
  pendingKey : LvKey
  keyPending : Bool
  deriving DecidableEq, Repr

namespace Keypad

def start : Keypad := ⟨.other 0, false⟩

/-- The callback with the data that LVGL hands in, and what it leaves there. -/
def keypadReadCallback (p : Keypad) (data : IndevData) : Keypad × IndevData :=
  if p.keyPending then ({ p with keyPending := false }, ⟨p.pendingKey, .pressed⟩)
  else (p, { data with state := .released })

def press (_ : Keypad) (key : LvKey) : Keypad := ⟨key, true⟩

/-- The wheel of the watch. -/
def wheelCb (platform : Platform) (p : Keypad) (evt : InputEvent) : Keypad :=
  if platform.socEsp32s3 ∧ evt.type = .rel ∧ evt.code = .wheel then
    if evt.value > 0 then p.press .right
    else if evt.value < 0 then p.press .left
    else p
  else p

/-- The arrow keys of the simulator. -/
def arrowCb (platform : Platform) (p : Keypad) (evt : InputEvent) : Keypad :=
  if platform.archPosix ∧ evt.type = .key ∧ evt.value ≠ 0 then
    match evt.code with
    | .left => p.press .left
    | .right => p.press .right
    | _ => p
  else p

def buttonCb (p : Keypad) (evt : InputEvent) : Keypad :=
  if evt.type = .key then
    if evt.value ≠ 0 then
      match evt.code with
      | .enter => p.press .enter
      | .esc => p.press .esc
      | _ => p
    else p
  else p

/-- The three parts of the callback, one after the other. -/
def inputCb (platform : Platform) (p : Keypad) (evt : InputEvent) : Keypad :=
  ((p.wheelCb platform evt).arrowCb platform evt).buttonCb evt

inductive KeyAction
  | input (evt : InputEvent)
  | poll (data : IndevData)
  deriving DecidableEq, Repr

/-- A poll has the reading as its answer. -/
def act (platform : Platform) (p : Keypad) : KeyAction → Keypad × Option IndevData
  | .input evt => (p.inputCb platform evt, none)
  | .poll data => ((p.keypadReadCallback data).1, some (p.keypadReadCallback data).2)

def readings (platform : Platform) (p : Keypad) (actions : List KeyAction) : List IndevData :=
  (Machine.answers (act platform) p actions).2.filterMap id

/-! ### What LVGL should read -/

/-- The key that an event is accepted as, whatever is in the slot. -/
def acceptedAs (platform : Platform) (evt : InputEvent) : Option LvKey :=
  match evt.type, evt.code with
  | .rel, .wheel =>
    if platform.socEsp32s3 = false then none
    else if evt.value > 0 then some .right
    else if evt.value < 0 then some .left
    else none
  | .key, .left => if platform.archPosix ∧ evt.value ≠ 0 then some .left else none
  | .key, .right => if platform.archPosix ∧ evt.value ≠ 0 then some .right else none
  | .key, .enter => if evt.value ≠ 0 then some .enter else none
  | .key, .esc => if evt.value ≠ 0 then some .esc else none
  | _, _ => none

theorem inputCb_eq (platform : Platform) (p : Keypad) (evt : InputEvent) :
    p.inputCb platform evt = (acceptedAs platform evt).elim p p.press := by
  obtain ⟨type, code, value⟩ := evt
  cases type with
  | key =>
    cases code with
    | left | right | enter | esc =>
      simp only [inputCb, wheelCb, arrowCb, buttonCb, acceptedAs, reduceCtorEq, and_false,
        if_false, true_and, if_true]
      split_ifs <;> rfl
    | wheel | other code => simp [inputCb, wheelCb, arrowCb, buttonCb, acceptedAs]
  | rel =>
    cases code with
    | wheel =>
      simp only [inputCb, wheelCb, arrowCb, buttonCb, acceptedAs, reduceCtorEq, false_and,
        and_false, if_false, and_true]
      split_ifs <;> first | rfl | simp_all
    | _ => simp [inputCb, wheelCb, arrowCb, buttonCb, acceptedAs]
  | other type => simp [inputCb, wheelCb, arrowCb, buttonCb, acceptedAs]

def acceptedKeys (platform : Platform) (actions : List KeyAction) : List LvKey :=
  actions.filterMap fun
    | .input evt => acceptedAs platform evt
    | .poll _ => none

def pressedKeys (readings : List IndevData) : List LvKey :=
  readings.filterMap fun data => if data.state = .pressed then some data.key else none

/-- Every pressed reading is followed by a released one. -/
def ReleasedNext (readings : List IndevData) : Prop :=
  ∀ before data after, readings = before ++ data :: after → data.state = .pressed →
    ∃ next rest, after = next :: rest ∧ next.state = .released

/-- LVGL goes on with two polls more and has read every accepted key as a press of its own,
in the order of the events. -/
def NoKeyLost (platform : Platform) (actions : List KeyAction) : Prop :=
  ∀ data data',
    let read := start.readings platform (actions ++ [.poll data, .poll data'])
    pressedKeys read = acceptedKeys platform actions ∧ ReleasedNext read

def isPoll : KeyAction → Bool
  | .poll _ => true
  | .input _ => false

/-- Between any two accepted events there are two polls or more. -/
def TwoPollsBetween (platform : Platform) (actions : List KeyAction) : Prop :=
  ∀ before evt between evt' after,
    actions = before ++ .input evt :: (between ++ .input evt' :: after) →
    (acceptedAs platform evt).isSome → (acceptedAs platform evt').isSome →
    2 ≤ between.countP isPoll

/-! ### The two properties by recursion -/

/-- The same with a press perhaps just read. -/
def Alternates : Bool → List IndevData → Prop
  | last, [] => last = false
  | true, data :: rest => data.state = .released ∧ Alternates false rest
  | false, data :: rest => Alternates (data.state = .pressed) rest

/-- The same with polls still to come before the next accepted event. -/
def Spaced (platform : Platform) : Nat → List KeyAction → Prop
  | _, [] => True
  | owed, .poll _ :: rest => Spaced platform (owed - 1) rest
  | owed, .input evt :: rest =>
    match acceptedAs platform evt with
    | none => Spaced platform owed rest
    | some _ => owed = 0 ∧ Spaced platform 2 rest

variable {platform : Platform}

theorem releasedNext_cons {data : IndevData} {rest : List IndevData} :
    ReleasedNext (data :: rest) ↔
      (data.state = .pressed → ∃ next rest', rest = next :: rest' ∧ next.state = .released) ∧
        ReleasedNext rest := by
  constructor
  · intro h
    refine ⟨h [] data rest rfl, fun before d after hsplit => ?_⟩
    exact h (data :: before) d after (by rw [hsplit]; rfl)
  · rintro ⟨hfirst, hrest⟩ before d after hsplit
    cases before with
    | nil =>
      obtain ⟨rfl, rfl⟩ := List.cons.inj hsplit
      exact hfirst
    | cons b before => exact hrest before d after (List.cons.inj hsplit).2

theorem alternates_iff (last : Bool) (readings : List IndevData) :
    Alternates last readings ↔
      (last = true → ∃ next rest, readings = next :: rest ∧ next.state = .released) ∧
        ReleasedNext readings := by
  induction readings generalizing last with
  | nil =>
    have hnil : ReleasedNext [] := fun before data after hsplit => by simp at hsplit
    cases last <;> simp [Alternates, hnil]
  | cons data rest ih =>
    rw [releasedNext_cons]
    cases last with
    | true =>
      rw [Alternates, ih false]
      constructor
      · rintro ⟨hreleased, -, hrest⟩
        refine ⟨fun _ => ⟨data, rest, rfl, hreleased⟩, fun hpressed => ?_, hrest⟩
        rw [hreleased] at hpressed
        cases hpressed
      · rintro ⟨hfirst, -, hrest⟩
        obtain ⟨next, rest', hsplit, hreleased⟩ := hfirst rfl
        obtain ⟨rfl, rfl⟩ := List.cons.inj hsplit
        exact ⟨hreleased, fun h => (Bool.false_ne_true h).elim, hrest⟩
    | false =>
      rw [Alternates, ih, decide_eq_true_eq]
      exact ⟨fun h => ⟨fun hlast => (Bool.false_ne_true hlast).elim, h⟩, fun h => h.2⟩

/-- So many polls come before the first accepted event. -/
def PollsFirst (platform : Platform) (owed : Nat) (actions : List KeyAction) : Prop :=
  ∀ between evt after, actions = between ++ .input evt :: after →
    (acceptedAs platform evt).isSome → owed ≤ between.countP isPoll

theorem pollsFirst_poll (owed : Nat) (data : IndevData) (rest : List KeyAction) :
    PollsFirst platform owed (.poll data :: rest) ↔ PollsFirst platform (owed - 1) rest := by
  have hcount : ∀ between, (KeyAction.poll data :: between).countP isPoll =
      between.countP isPoll + 1 := fun between => List.countP_cons_of_pos rfl
  constructor
  · intro h between evt after hsplit haccepted
    have hle := h (.poll data :: between) evt after (by rw [hsplit]; rfl) haccepted
    rw [hcount] at hle
    omega
  · intro h between evt after hsplit haccepted
    cases between with
    | nil => cases hsplit
    | cons action between =>
      obtain ⟨rfl, hrest⟩ := List.cons.inj hsplit
      have hle := h between evt after hrest haccepted
      rw [hcount]
      omega

theorem pollsFirst_input (owed : Nat) (evt : InputEvent) (rest : List KeyAction) :
    PollsFirst platform owed (.input evt :: rest) ↔
      ((acceptedAs platform evt).isSome → owed = 0) ∧ PollsFirst platform owed rest := by
  have hcount : ∀ between, (KeyAction.input evt :: between).countP isPoll =
      between.countP isPoll := fun between => List.countP_cons_of_neg (by simp [isPoll])
  constructor
  · intro h
    refine ⟨fun haccepted => Nat.le_zero.mp (h [] evt rest rfl haccepted),
      fun between evt' after hsplit haccepted => ?_⟩
    have hle := h (.input evt :: between) evt' after (by rw [hsplit]; rfl) haccepted
    rwa [hcount] at hle
  · rintro ⟨hfirst, hrest⟩ between evt' after hsplit haccepted
    cases between with
    | nil =>
      cases hsplit
      rw [hfirst haccepted]
      exact Nat.zero_le _
    | cons action between =>
      obtain ⟨rfl, hsplit'⟩ := List.cons.inj hsplit
      rw [hcount]
      exact hrest between evt' after hsplit' haccepted

theorem twoPollsBetween_cons (action : KeyAction) (rest : List KeyAction) :
    TwoPollsBetween platform (action :: rest) ↔
      (∀ evt, action = .input evt → (acceptedAs platform evt).isSome →
        PollsFirst platform 2 rest) ∧ TwoPollsBetween platform rest := by
  constructor
  · intro h
    refine ⟨?_, fun before evt between evt' after hsplit => ?_⟩
    · rintro evt rfl haccepted between evt' after hsplit
      exact h [] evt between evt' after (by rw [hsplit]; rfl) haccepted
    · exact h (action :: before) evt between evt' after (by rw [hsplit]; rfl)
  · rintro ⟨hfirst, hrest⟩ before evt between evt' after hsplit haccepted haccepted'
    cases before with
    | nil =>
      obtain ⟨rfl, hsplit'⟩ := List.cons.inj hsplit
      exact hfirst evt rfl haccepted between evt' after hsplit' haccepted'
    | cons b before =>
      exact hrest before evt between evt' after (List.cons.inj hsplit).2 haccepted haccepted'

theorem spaced_iff (owed : Nat) (actions : List KeyAction) :
    Spaced platform owed actions ↔
      PollsFirst platform owed actions ∧ TwoPollsBetween platform actions := by
  induction actions generalizing owed with
  | nil =>
    refine ⟨fun _ => ⟨fun between evt after hsplit => ?_, fun before evt between evt' after
      hsplit => ?_⟩, fun _ => trivial⟩ <;> simp at hsplit
  | cons action rest ih =>
    rw [twoPollsBetween_cons]
    cases action with
    | poll data =>
      rw [Spaced, ih, pollsFirst_poll]
      simp
    | input evt =>
      rw [pollsFirst_input]
      cases haccepted : acceptedAs platform evt with
      | none =>
        simp only [Spaced, haccepted, ih]
        simp [haccepted]
      | some key =>
        simp only [Spaced, haccepted, ih]
        constructor
        · rintro ⟨rfl, hfirst, hrest⟩
          refine ⟨⟨fun _ => rfl, fun _ _ _ _ _ => Nat.zero_le _⟩, fun _ _ _ => hfirst, hrest⟩
        · rintro ⟨⟨howed, -⟩, hfirst, hrest⟩
          exact ⟨howed rfl, hfirst evt rfl (by rw [haccepted]; rfl), hrest⟩

/-! ### One action -/

@[simp] theorem readings_input (p : Keypad) (evt : InputEvent) (rest : List KeyAction) :
    p.readings platform (.input evt :: rest) = (p.inputCb platform evt).readings platform rest :=
  rfl

@[simp] theorem readings_poll (p : Keypad) (data : IndevData) (rest : List KeyAction) :
    p.readings platform (.poll data :: rest) =
      (p.keypadReadCallback data).2 :: (p.keypadReadCallback data).1.readings platform rest :=
  rfl

theorem poll_pending {p : Keypad} (h : p.keyPending = true) (data : IndevData) :
    p.keypadReadCallback data = ({ p with keyPending := false }, ⟨p.pendingKey, .pressed⟩) :=
  if_pos h

theorem poll_idle {p : Keypad} (h : p.keyPending = false) (data : IndevData) :
    p.keypadReadCallback data = (p, { data with state := .released }) :=
  if_neg (by rw [h]; exact Bool.false_ne_true)

theorem inputCb_accepted {p : Keypad} {evt : InputEvent} {key : LvKey}
    (h : acceptedAs platform evt = some key) : p.inputCb platform evt = ⟨key, true⟩ := by
  rw [inputCb_eq, h]
  rfl

theorem inputCb_ignored {p : Keypad} {evt : InputEvent} (h : acceptedAs platform evt = none) :
    p.inputCb platform evt = p := by
  rw [inputCb_eq, h]
  rfl

theorem acceptedKeys_poll (data : IndevData) (rest : List KeyAction) :
    acceptedKeys platform (.poll data :: rest) = acceptedKeys platform rest := rfl

theorem acceptedKeys_input (evt : InputEvent) (rest : List KeyAction) :
    acceptedKeys platform (.input evt :: rest) =
      (acceptedAs platform evt).toList ++ acceptedKeys platform rest := by
  simp only [acceptedKeys, List.filterMap_cons]
  cases acceptedAs platform evt <;> rfl

/-- The key that is still in the slot. -/
def pendingKeys (p : Keypad) : List LvKey := if p.keyPending then [p.pendingKey] else []

/-- The slot holds one key, so no more presses can be read than were accepted. -/
theorem pressedKeys_length_le (actions : List KeyAction) (p : Keypad) :
    (pressedKeys (p.readings platform actions)).length ≤
      p.pendingKeys.length + (acceptedKeys platform actions).length := by
  induction actions generalizing p with
  | nil => exact Nat.zero_le _
  | cons action rest ih =>
    cases action with
    | poll data =>
      rw [readings_poll, acceptedKeys_poll]
      cases hpending : p.keyPending with
      | true =>
        have hle := ih { p with keyPending := false }
        rw [poll_pending hpending]
        simp only [pendingKeys, hpending, pressedKeys, List.filterMap_cons, if_true,
          List.length_cons, List.length_nil, Bool.false_eq_true, if_false] at hle ⊢
        omega
      | false =>
        have hle := ih p
        rw [poll_idle hpending]
        simpa [pressedKeys] using hle
    | input evt =>
      rw [readings_input, acceptedKeys_input]
      cases haccepted : acceptedAs platform evt with
      | none =>
        rw [inputCb_ignored haccepted]
        exact ih p
      | some key =>
        have hle := ih ⟨key, true⟩
        have hone : (pendingKeys ⟨key, true⟩).length = 1 := rfl
        rw [inputCb_accepted haccepted]
        simp only [Option.toList_some, List.singleton_append, List.length_cons]
        omega

/-- A key in the slot is read by the next poll, whatever comes in before it. -/
theorem readings_pending {p : Keypad} (h : p.keyPending = true) (actions : List KeyAction)
    (data data' : IndevData) :
    ∃ first rest, p.readings platform (actions ++ [.poll data, .poll data']) = first :: rest ∧
      first.state = .pressed := by
  induction actions generalizing p with
  | nil => exact ⟨_, _, readings_poll p data _, by rw [poll_pending h]⟩
  | cons action rest ih =>
    cases action with
    | poll d => exact ⟨_, _, readings_poll p d _, by rw [poll_pending h]⟩
    | input evt =>
      rw [List.cons_append, readings_input]
      cases haccepted : acceptedAs platform evt with
      | none =>
        rw [inputCb_ignored haccepted]
        exact ih h
      | some key =>
        rw [inputCb_accepted haccepted]
        exact ih rfl

/-! ### All actions -/

/-- The readings from a state on, with a press perhaps just read. -/
def ReadsAll (platform : Platform) (p : Keypad) (last : Bool) (actions : List KeyAction)
    (data data' : IndevData) : Prop :=
  let read := p.readings platform (actions ++ [.poll data, .poll data'])
  pressedKeys read = p.pendingKeys ++ acceptedKeys platform actions ∧ Alternates last read

/-- The polls that the slot and the last reading ask for before the next accepted event. -/
def owed (p : Keypad) (last : Bool) : Nat :=
  if p.keyPending then 2 else if last then 1 else 0

theorem last_of_pending {p : Keypad} {last : Bool} (hlast : last = true → p.keyPending = false)
    (hpending : p.keyPending = true) : last = false := by
  cases last with
  | false => rfl
  | true =>
    rw [hlast rfl] at hpending
    cases hpending

theorem readsAll_poll {p : Keypad} {last : Bool} (hlast : last = true → p.keyPending = false)
    (d : IndevData) (rest : List KeyAction) (data data' : IndevData) :
    ReadsAll platform p last (.poll d :: rest) data data' ↔
      ReadsAll platform { p with keyPending := false } p.keyPending rest data data' := by
  rw [ReadsAll, ReadsAll, List.cons_append, readings_poll, acceptedKeys_poll]
  cases hpending : p.keyPending with
  | true =>
    rw [poll_pending hpending, last_of_pending hlast hpending]
    simp [pressedKeys, pendingKeys, hpending, Alternates]
  | false =>
    have hsame : ({ p with keyPending := false } : Keypad) = p := by rw [← hpending]
    rw [poll_idle hpending, hsame]
    cases last <;> simp [pressedKeys, Alternates]

/-- An event that fills a slot that is full, or that comes right after a press, is lost or
runs into the press before it. -/
theorem not_readsAll_input {p : Keypad} {last : Bool} {evt : InputEvent} {key : LvKey}
    (haccepted : acceptedAs platform evt = some key) (howed : p.owed last ≠ 0)
    (hlast : last = true → p.keyPending = false) (rest : List KeyAction) (data data' : IndevData) :
    ¬ ReadsAll platform p last (.input evt :: rest) data data' := by
  rintro ⟨hkeys, hreleased⟩
  rw [List.cons_append, readings_input, inputCb_accepted haccepted] at hkeys hreleased
  cases hpending : p.keyPending with
  | true =>
    have hle := @pressedKeys_length_le platform (rest ++ [.poll data, .poll data']) ⟨key, true⟩
    have hpolls : acceptedKeys platform (rest ++ [.poll data, .poll data']) =
        acceptedKeys platform rest := by
      simp [acceptedKeys]
    have hone : (pendingKeys ⟨key, true⟩).length = 1 := rfl
    rw [hkeys, hpolls, hone, acceptedKeys_input, haccepted, pendingKeys, if_pos hpending] at hle
    simp only [Option.toList_some, List.length_append, List.length_singleton] at hle
    omega
  | false =>
    have htrue : last = true := by
      cases last with
      | true => rfl
      | false => simp [owed, hpending] at howed
    obtain ⟨first, later, hfirst, hpressed⟩ :=
      @readings_pending platform ⟨key, true⟩ rfl rest data data'
    rw [hfirst, htrue, Alternates, hpressed] at hreleased
    exact absurd hreleased.1 (by decide)

theorem readsAll_input {p : Keypad} {evt : InputEvent} {key : LvKey}
    (haccepted : acceptedAs platform evt = some key) (hidle : p.keyPending = false)
    (rest : List KeyAction) (data data' : IndevData) :
    ReadsAll platform p false (.input evt :: rest) data data' ↔
      ReadsAll platform ⟨key, true⟩ false rest data data' := by
  have hnone : p.pendingKeys = [] := by simp [pendingKeys, hidle]
  have hone : pendingKeys ⟨key, true⟩ = [key] := rfl
  simp only [ReadsAll, List.cons_append, readings_input, inputCb_accepted haccepted,
    acceptedKeys_input, haccepted, hnone, hone, Option.toList_some, List.nil_append]

theorem readsAll_nil {p : Keypad} {last : Bool} (hlast : last = true → p.keyPending = false)
    (data data' : IndevData) : ReadsAll platform p last [] data data' := by
  rw [ReadsAll, List.nil_append, readings_poll, readings_poll]
  cases hpending : p.keyPending with
  | true =>
    rw [poll_pending hpending, poll_idle rfl, last_of_pending hlast hpending]
    simp [pressedKeys, pendingKeys, hpending, Alternates, acceptedKeys, readings, Machine.answers]
  | false =>
    rw [poll_idle hpending, poll_idle hpending]
    cases last <;>
      simp [pressedKeys, pendingKeys, hpending, Alternates, acceptedKeys, readings,
        Machine.answers]

theorem readsAll_iff (actions : List KeyAction) {p : Keypad} {last : Bool}
    (hlast : last = true → p.keyPending = false) (data data' : IndevData) :
    ReadsAll platform p last actions data data' ↔ Spaced platform (p.owed last) actions := by
  induction actions generalizing p last with
  | nil => exact ⟨fun _ => trivial, fun _ => readsAll_nil hlast data data'⟩
  | cons action rest ih =>
    cases action with
    | poll d =>
      have howed : owed { p with keyPending := false } p.keyPending = p.owed last - 1 := by
        cases hpending : p.keyPending <;> cases last <;> simp [owed, hpending]
      rw [readsAll_poll hlast, ih (fun _ => rfl), howed, Spaced]
    | input evt =>
      cases haccepted : acceptedAs platform evt with
      | none =>
        have hrest := ih hlast
        simp only [Spaced, haccepted, ← hrest, ReadsAll, List.cons_append, readings_input,
          inputCb_ignored haccepted, acceptedKeys_input]
        rfl
      | some key =>
        simp only [Spaced, haccepted]
        by_cases howed : p.owed last = 0
        · have hidle : p.keyPending = false ∧ last = false := by
            cases hpending : p.keyPending <;> cases last <;> simp [owed, hpending] at howed ⊢
          obtain ⟨hpending, rfl⟩ := hidle
          rw [readsAll_input haccepted hpending, ih (fun h => (Bool.false_ne_true h).elim)]
          exact (and_iff_right howed).symm
        · exact ⟨fun h => (not_readsAll_input haccepted howed hlast rest data data' h).elim,
            fun h => absurd h.1 howed⟩

/-- In any order of events and polls, no key press is lost or merged exactly when two polls
come between every two accepted events. -/
theorem noKeyLost_iff (platform : Platform) (actions : List KeyAction) :
    NoKeyLost platform actions ↔ TwoPollsBetween platform actions := by
  have hstart : ∀ data data', ReadsAll platform start false actions data data' ↔
      TwoPollsBetween platform actions := by
    intro data data'
    rw [readsAll_iff actions (fun h => (Bool.false_ne_true h).elim), spaced_iff]
    exact and_iff_right fun _ _ _ _ _ => Nat.zero_le _
  have hreads : ∀ data data', ReadsAll platform start false actions data data' ↔
      pressedKeys (start.readings platform (actions ++ [.poll data, .poll data'])) =
        acceptedKeys platform actions ∧
      ReleasedNext (start.readings platform (actions ++ [.poll data, .poll data'])) := by
    intro data data'
    rw [ReadsAll, alternates_iff]
    simp [pendingKeys, start]
  constructor
  · intro h
    exact (hstart ⟨.other 0, .released⟩ ⟨.other 0, .released⟩).mp
      ((hreads _ _).mpr (h ⟨.other 0, .released⟩ ⟨.other 0, .released⟩))
  · intro h data data'
    exact (hreads data data').mp ((hstart data data').mpr h)

/-- ENTER and ESC before a poll: ESC alone is read. -/
theorem key_lost_unpolled :
    let enter : KeyAction := .input ⟨.key, .enter, 1⟩
    let esc : KeyAction := .input ⟨.key, .esc, 1⟩
    pressedKeys (start.readings ⟨true, false⟩ [enter, esc, .poll ⟨.other 0, .released⟩]) =
      [.esc] ∧
    ¬ ∀ actions, NoKeyLost ⟨true, false⟩ actions := by
  intro enter esc
  refine ⟨by decide, fun h => ?_⟩
  have hkeys := (h [enter, esc] ⟨.other 0, .released⟩ ⟨.other 0, .released⟩).1
  exact absurd hkeys (by decide)

end Keypad

end MinimalWatch.Ui
