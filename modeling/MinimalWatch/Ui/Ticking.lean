import MinimalWatch.Lib.DelayableWork
import MinimalWatch.Ui.Pages
import MinimalWatch.Ui.WatchfaceText

/-! The tick of the watchface, from timers.c, event_manager.c, ui_manager.c and wf2_ui.c. The
queue of the kernel handles it once a second while the pages change on the thread of the
screen; the statements of the two come in any order. The labels belong to the page: they go
when it is cleaned, and the pointers of wf2_ui.c stay. -/

namespace MinimalWatch.Ui
open Firmware
open App (DateTimeT getDateTime)
open Ble (HourlyWeather TimeSync WeatherSync)

/-- The pointers to the labels, which are set and lost together. -/
inductive Labels
  | null
  | live (texts : WfTexts)
  | freed
  deriving DecidableEq, Repr

/-! ### ui_manager.c -/

/-- The statements of `close_curr_page`, `show_page` and their callers that the tick or a
later call can tell. A wait for the handler is a statement of its own. -/
inductive UiOp
  | stopTimer
  | awaitTimer
  | cleanWf
  | deselectWf
  | leaveApps
  | setWatchState (page : UiState)
  | selectWf
  | drawWatchface
  | startTimer
  | showApps
  | setDisplay (d : DisplayState)
  | setFirstRender (first : Bool)
  deriving DecidableEq, Repr

/-- What the calls of the screen's thread work on. -/
structure Screen where
  watch : Watch
  isFirstRender : Bool
  labels : Labels

namespace Screen

def closeCurrPage (c : Screen) : List UiOp :=
  match c.watch.currWatchState with
  | .watchface =>
    (if c.isFirstRender then [] else [.stopTimer, .awaitTimer]) ++ [.cleanWf, .deselectWf]
  | .app => [.leaveApps]
  | _ => []

def showPage (page : UiState) : List UiOp :=
  match page with
  | .watchface => [.selectWf, .drawWatchface, .startTimer]
  | .app => [.showApps]
  | _ => []

end Screen

inductive UiCall
  | initUi
  | deinitUi
  | handleRightActionOnRoot
  | handleLeftActionOnRoot
  deriving DecidableEq, Repr

/-- The statements that a call comes to. -/
def UiCall.ops (c : Screen) : UiCall → List UiOp
  | .initUi =>
    if c.watch.dState = .on then []
    else [.setDisplay .on, .setWatchState .watchface] ++ Screen.showPage .watchface ++
      [.setFirstRender false]
  | .deinitUi =>
    if c.watch.dState = .on then
      c.closeCurrPage ++ [.setFirstRender true, .setDisplay .off, .setWatchState .start]
    else []
  | .handleRightActionOnRoot =>
    if c.watch.currWatchState = .app then []
    else c.closeCurrPage ++ [.setWatchState c.watch.currWatchState.next] ++
      Screen.showPage c.watch.currWatchState.next
  | .handleLeftActionOnRoot =>
    if c.watch.currWatchState = .notify then []
    else c.closeCurrPage ++ [.setWatchState c.watch.currWatchState.prev] ++
      Screen.showPage c.watch.currWatchState.prev

/-- What a statement does on its own thread. -/
def UiOp.act (c : Screen) : UiOp → Screen
  | .cleanWf => { c with labels := match c.labels with | .null => .null | _ => .freed }
  | .deselectWf => { c with watch := { c.watch with selectedWf := none } }
  | .leaveApps => { c with watch := { c.watch.cleanAppPage with appRootCont := false } }
  | .setWatchState page => { c with watch := { c.watch with currWatchState := page } }
  | .selectWf => { c with watch := { c.watch with selectedWf := c.watch.selectWf } }
  | .drawWatchface => { c with labels := .live .drawn }
  | .showApps => { c with watch := { c.watch with appRootCont := true } }
  | .setDisplay d => { c with watch := { c.watch with dState := d } }
  | .setFirstRender first => { c with isFirstRender := first }
  | _ => c

/-- A call through the NULL that `select_wf` gives without a second watchface does not
return. -/
def UiOp.returns (c : Screen) : UiOp → Bool
  | .selectWf => c.watch.selectWf.isSome
  | _ => true

/-! ### timers.c and event_manager.c -/

/-- The hour is one of the day. -/
def getCurrWeather (weatherState : WeatherSync) (time : DateTimeT) : HourlyWeather :=
  weatherState.hourlyToday.cells.getD time.hr.toNat ⟨0, 0, 0, 0, 0⟩

/-- Where `publish_tick_event` is. -/
inductive TickPc
  | begun
  | dated (time : DateTimeT)
  | loaded (p : WfUpdatePayload)
  | writing (p : WfUpdatePayload) (rest : List (WfLabel × String))
  | forwarded
  | rescheduled
  deriving DecidableEq, Repr

structure Ticking where
  screen : Screen
  /-- What is left of the call that the thread of the screen is in. -/
  todo : List UiOp
  /-- `wf_1s_refresh_work` -/
  work : DelayableWork
  tick : Option TickPc
  uptime : Nat
  timeState : TimeSync
  weatherState : WeatherSync
  /-- A label has been written after it was freed. -/
  usedFreed : Bool

namespace Ticking

def start (allWfs : List Watchface) (timeState : TimeSync) (weatherState : WeatherSync) :
    Ticking where
  screen := ⟨.boot allWfs, true, .null⟩
  todo := []
  work := .idle
  tick := none
  uptime := 0
  timeState := timeState
  weatherState := weatherState
  usedFreed := false

def setText (s : Ticking) (write : WfLabel × String) : Ticking :=
  match s.screen.labels with
  | .null => s
  | .live texts => { s with screen := { s.screen with labels := .live (texts.set write) } }
  | .freed => { s with usedFreed := true }

/-- `K_SECONDS(1)`, in ms. -/
def tickPeriod : Nat := 1000

theorem tickPeriod_pos : 0 < tickPeriod := by decide

/-- The next statement of the queue's thread. -/
def publishTickEvent (rejects : Bool) (s : Ticking) : Option Ticking :=
  match s.tick with
  | none => s.work.take.map fun work => { s with work := work, tick := some .begun }
  | some .begun => some { s with tick := some (.dated (getDateTime s.timeState s.uptime).2) }
  | some (.dated time) =>
    some { s with
      tick := some (.loaded
        ⟨time, getCurrWeather s.weatherState (getDateTime s.timeState s.uptime).2⟩) }
  | some (.loaded p) =>
    some { s with
      tick := some (if s.screen.watch.selectedWf.isSome then .writing p (wf2Update p)
        else .forwarded) }
  | some (.writing p (write :: rest)) =>
    some { s.setText write with tick := some (.writing p rest) }
  | some (.writing _ []) => some { s with tick := some .forwarded }
  | some .forwarded =>
    some { s with
      work := s.work.reschedule rejects s.uptime tickPeriod
      tick := some .rescheduled }
  | some .rescheduled => some { s with work := s.work.finish, tick := none }

/-- The next statement of the screen's thread. -/
def uiOp (rejects : Bool) (s : Ticking) : Option Ticking :=
  match s.todo with
  | [] => none
  | .stopTimer :: rest => some { s with work := s.work.cancel, todo := rest }
  | .awaitTimer :: rest => if s.work.running then none else some { s with todo := rest }
  | .startTimer :: rest =>
    some { s with
      work := if s.work.isPending then s.work else s.work.reschedule rejects s.uptime 0
      todo := rest }
  | op :: rest =>
    if op.returns s.screen then some { s with screen := op.act s.screen, todo := rest } else none

end Ticking

inductive TickingAction
  | call (c : UiCall)
  | ui
  | tick
  | pass
  | sync (timeState : TimeSync) (weatherState : WeatherSync)
  deriving DecidableEq, Repr

/-- The root acts only while the display is on. -/
def UiCall.Comes (c : Screen) (call : UiCall) : Prop :=
  call = .initUi ∨ call = .deinitUi ∨ c.watch.dState = .on

instance (c : Screen) (call : UiCall) : Decidable (call.Comes c) :=
  inferInstanceAs (Decidable (_ ∨ _ ∨ _))

def tickingStep (rejects : Bool) (s : Ticking) : TickingAction → Option Ticking
  | .call c =>
    if s.todo = [] ∧ c.Comes s.screen then some { s with todo := c.ops s.screen } else none
  | .ui => s.uiOp rejects
  | .tick => s.publishTickEvent rejects
  | .pass =>
    some { s with uptime := s.uptime + 1, work := s.work.advance (s.uptime + 1) }
  | .sync timeState weatherState =>
    some { s with timeState := timeState, weatherState := weatherState }

/-! ### What the face should show -/

/-- The update whose last label has been written. -/
def TickPc.done : TickPc → Option WfUpdatePayload
  | .writing p [] => some p
  | _ => none

/-- The payload of the last update since the watchface was drawn. -/
def updatedNext (s : Ticking) (action : TickingAction) (_ : Ticking)
    (updated : Option WfUpdatePayload) : Option WfUpdatePayload :=
  match action with
  | .tick => s.tick.elim updated fun pc => pc.done.or updated
  | .ui => if s.todo.head? = some .drawWatchface then none else updated
  | _ => updated

abbrev faceStep (rejects : Bool) :
    Ticking × Option WfUpdatePayload → TickingAction →
      Option (Ticking × Option WfUpdatePayload) :=
  Machine.recording (tickingStep rejects) updatedNext

/-- No label is written that is not there; between updates the labels say what the last one
was about; on the page of the watchface the next tick is at most a second off, on another
page, and with the display off, there is none. -/
structure FaceRight (s : Ticking × Option WfUpdatePayload) : Prop where
  notFreed : s.1.usedFreed = false
  texts : ∀ texts, s.1.screen.labels = .live texts →
    (∀ p rest, s.1.tick ≠ some (.writing p rest)) → texts = s.2.elim .drawn wf2Texts
  ticking : s.1.todo = [] → s.1.screen.watch.currWatchState = .watchface →
    (∃ texts, s.1.screen.labels = .live texts) ∧ s.1.screen.watch.selectedWf.isSome = true ∧
      (s.1.work.Scheduled s.1.uptime Ticking.tickPeriod ∨ s.1.work.running = true)
  quiet : s.1.todo = [] →
    s.1.screen.watch.currWatchState ≠ .watchface ∨ s.1.screen.watch.dState ≠ .on →
    s.1.work = .idle ∧ s.1.tick = none

/-- A page is not left while the tick's handler has yet to schedule the next, unless the kernel
then refuses that. The thread of the queue is cooperative: on one core the handler is over
before another thread goes on. -/
def StopsClear (rejects : Bool) (s : Ticking × Option WfUpdatePayload) (action : TickingAction) :
    Prop :=
  action = .ui → s.1.todo.head? = some .stopTimer →
    rejects = true ∨ s.1.tick = none ∨ s.1.tick = some .rescheduled

instance (rejects : Bool) (s : Ticking × Option WfUpdatePayload) (action : TickingAction) :
    Decidable (StopsClear rejects s action) :=
  inferInstanceAs (Decidable (_ → _ → _))

/-! ### The calls as statements -/

/-- The call in one step. -/
def UiCall.whole (w : Watch) : UiCall → Except Fault Watch
  | .initUi => w.initUi
  | .deinitUi => .ok w.deinitUi
  | .handleRightActionOnRoot => w.handleRightActionOnRoot
  | .handleLeftActionOnRoot => w.handleLeftActionOnRoot

theorem closeCurrPage_watch (c : Screen) :
    (c.closeCurrPage.foldl UiOp.act c).watch = c.watch.closeCurrPage := by
  obtain ⟨⟨dState, page⟩, first, labels⟩ := c
  cases page with
  | watchface => cases first <;> rfl
  | _ => rfl

theorem showPage_watch {c : Screen} (h : c.watch.selectWf.isSome = true) (page : UiState) :
    .ok ((Screen.showPage page).foldl UiOp.act c).watch = c.watch.showPage page := by
  cases page with
  | watchface =>
    obtain ⟨wf, hwf⟩ := Option.isSome_iff_exists.mp h
    simp only [Screen.showPage, Watch.showPage, List.foldl_cons, List.foldl_nil, UiOp.act, hwf]
  | _ => rfl

@[simp] theorem closeCurrPage_selectWf (w : Watch) : w.closeCurrPage.selectWf = w.selectWf := by
  rw [Watch.closeCurrPage]
  split <;> rfl

/-- With a second watchface the statements of a call, one after the other, are the call. -/
theorem ops_whole {c : Screen} (h : c.watch.selectWf.isSome = true) (call : UiCall) :
    .ok ((call.ops c).foldl UiOp.act c).watch = call.whole c.watch := by
  have hturn : ∀ page, Except.ok ((c.closeCurrPage ++ [UiOp.setWatchState page] ++
      Screen.showPage page).foldl UiOp.act c).watch =
        { c.watch.closeCurrPage with currWatchState := page }.showPage page := by
    intro page
    rw [List.foldl_append, List.foldl_append, showPage_watch]
    · simp only [List.foldl_cons, List.foldl_nil, UiOp.act, closeCurrPage_watch]
    · simp only [List.foldl_cons, List.foldl_nil, UiOp.act, closeCurrPage_watch]
      exact (congrArg Option.isSome (closeCurrPage_selectWf c.watch)).trans h
  cases call with
  | initUi =>
    rw [UiCall.ops, UiCall.whole, Watch.initUi]
    split_ifs
    · rfl
    · rw [List.foldl_append, List.foldl_append]
      exact @showPage_watch ([UiOp.setDisplay .on, .setWatchState .watchface].foldl UiOp.act c)
        h .watchface
  | deinitUi =>
    rw [UiCall.ops, UiCall.whole, Watch.deinitUi]
    split_ifs
    · rw [List.foldl_append]
      simp only [List.foldl_cons, List.foldl_nil, UiOp.act, closeCurrPage_watch]
    · rfl
  | handleRightActionOnRoot =>
    rw [UiCall.ops, UiCall.whole, Watch.handleRightActionOnRoot]
    split_ifs
    · rfl
    · exact hturn _
  | handleLeftActionOnRoot =>
    rw [UiCall.ops, UiCall.whole, Watch.handleLeftActionOnRoot]
    split_ifs
    · rfl
    · exact hturn _

/-! ### What a call may do -/

/-- The timer as the thread of the screen sees it. -/
inductive TimerPhase
  | off
  | on
  | stopping
  deriving DecidableEq, Repr

def UiOp.phase (phase : TimerPhase) : UiOp → TimerPhase
  | .stopTimer => .stopping
  | .awaitTimer => .off
  | .startTimer => .on
  | _ => phase

/-- The labels are there, and a watchface to update them. -/
structure Screen.Shown (c : Screen) : Prop where
  live : ∃ texts, c.labels = .live texts
  selected : c.watch.selectedWf.isSome = true

/-- The page and its labels are touched only while the timer is off. -/
def UiOp.Allowed (c : Screen) (phase : TimerPhase) : UiOp → Prop
  | .stopTimer => phase = .on
  | .awaitTimer => phase = .stopping
  | .cleanWf | .deselectWf | .selectWf | .drawWatchface => phase = .off
  | .startTimer => phase = .off ∧ c.Shown
  | _ => True

/-- Between the calls. -/
structure Screen.AtRest (c : Screen) (phase : TimerPhase) : Prop where
  watchface : c.watch.currWatchState = .watchface → phase = .on
  other : c.watch.currWatchState ≠ .watchface → phase = .off
  display : c.watch.dState ≠ .on → c.watch.currWatchState = .start
  rendered : c.watch.dState = .on → c.isFirstRender = false ∧
    c.watch.currWatchState ∈ [UiState.notify, .watchface, .app]

/-- Every statement is allowed when its turn comes, and the call ends at rest. -/
def Screen.Goes (c : Screen) (phase : TimerPhase) : List UiOp → Prop
  | [] => c.AtRest phase
  | op :: rest =>
    op.Allowed c phase ∧ (op.returns c = true → (op.act c).Goes (op.phase phase) rest)

/-- A page is closed with the timer off, or after it was stopped. -/
theorem goes_closeCurrPage {c : Screen} {phase : TimerPhase} {rest : List UiOp}
    (h : c.AtRest phase)
    (hrest : ∀ c' : Screen, c'.watch = c.watch.closeCurrPage →
      c'.isFirstRender = c.isFirstRender → c'.Goes .off rest) :
    c.Goes phase (c.closeCurrPage ++ rest) := by
  have hwatch := closeCurrPage_watch c
  by_cases hface : c.watch.currWatchState = .watchface
  · have hon : c.watch.dState = .on := by
      by_contra hoff
      rw [h.display hoff] at hface
      cases hface
    have hfirst := (h.rendered hon).1
    simp only [Screen.closeCurrPage, hface, hfirst] at hwatch ⊢
    refine ⟨h.watchface hface, fun _ => ⟨rfl, fun _ => ⟨rfl, fun _ => ⟨rfl, fun _ => ?_⟩⟩⟩⟩
    exact hrest _ hwatch rfl
  · rw [h.other hface]
    rw [Screen.closeCurrPage] at hwatch ⊢
    split at hwatch
    · exact absurd (by assumption) hface
    · exact ⟨trivial, fun _ => hrest _ hwatch rfl⟩
    · exact hrest c hwatch rfl

/-- A page is shown with the timer off, and the watchface starts it. -/
theorem goes_showPage {c : Screen} {page : UiState} {rest : List UiOp}
    (hrest : ∀ (c' : Screen) (phase : TimerPhase), (page = .watchface → phase = .on) →
      (page ≠ .watchface → phase = .off) → c'.watch.dState = c.watch.dState →
      c'.watch.currWatchState = c.watch.currWatchState →
      c'.isFirstRender = c.isFirstRender → c'.Goes phase rest) :
    c.Goes .off (Screen.showPage page ++ rest) := by
  cases page with
  | watchface =>
    refine ⟨rfl, fun hreturns => ⟨rfl, fun _ => ⟨⟨rfl, ⟨.drawn, rfl⟩, hreturns⟩, fun _ => ?_⟩⟩⟩
    exact hrest _ .on (fun _ => rfl) (fun hne => absurd rfl hne) rfl rfl rfl
  | app =>
    refine ⟨trivial, fun _ => ?_⟩
    exact hrest _ .off (fun hface => by cases hface) (fun _ => rfl) rfl rfl rfl
  | start | notify | end_ =>
    exact hrest c .off (fun hface => by cases hface) (fun _ => rfl) rfl rfl rfl

@[simp] theorem closeCurrPage_dState (w : Watch) : w.closeCurrPage.dState = w.dState := by
  rw [Watch.closeCurrPage]
  split <;> rfl

theorem goes_turn {c : Screen} {phase : TimerPhase} (h : c.AtRest phase)
    (hon : c.watch.dState = .on) {page : UiState}
    (hpage : page ∈ [UiState.notify, .watchface, .app]) :
    c.Goes phase (c.closeCurrPage ++ [.setWatchState page] ++ Screen.showPage page) := by
  rw [List.append_assoc, ← List.append_nil (Screen.showPage page)]
  refine goes_closeCurrPage h fun c' hwatch hfirst => ⟨trivial, fun _ => goes_showPage ?_⟩
  intro c'' phase' hface hother hdState hcurr hfirst'
  have hcurr' : c''.watch.currWatchState = page := hcurr
  have hon' : c''.watch.dState = .on := by
    rw [hdState, UiOp.act, hwatch, closeCurrPage_dState, hon]
  refine ⟨fun heq => hface (hcurr' ▸ heq), fun hne => hother (hcurr' ▸ hne),
    fun hoff => absurd hon' hoff, fun _ => ⟨?_, hcurr' ▸ hpage⟩⟩
  exact (hfirst'.trans hfirst).trans (h.rendered hon).1

/-- Every call that begins at rest touches the page with the timer off, and ends at rest. -/
theorem goes_call {c : Screen} {phase : TimerPhase} (h : c.AtRest phase) {call : UiCall}
    (hcomes : call.Comes c) : c.Goes phase (call.ops c) := by
  cases call with
  | initUi =>
    rw [UiCall.ops]
    split_ifs with hon
    · exact h
    · have hoff : phase = .off := h.other (by rw [h.display hon]; decide)
      rw [hoff]
      refine ⟨trivial, fun _ => ⟨trivial, fun _ => goes_showPage ?_⟩⟩
      intro c' phase' hface _ hdState hcurr _
      have hcurr' : c'.watch.currWatchState = .watchface := hcurr
      refine ⟨trivial, fun _ => ⟨fun _ => hface rfl, fun hne => absurd hcurr' hne,
        fun hoff' => absurd hdState hoff', fun _ => ⟨rfl, ?_⟩⟩⟩
      rw [UiOp.act, hcurr']
      decide
  | deinitUi =>
    rw [UiCall.ops]
    split_ifs with hon
    · refine goes_closeCurrPage h fun c' _ _ =>
        ⟨trivial, fun _ => ⟨trivial, fun _ => ⟨trivial, fun _ => ?_⟩⟩⟩
      exact ⟨fun hface => (by cases hface), fun _ => rfl, fun _ => rfl, fun hon' => (by cases hon')⟩
    · exact h
  | handleRightActionOnRoot =>
    have hon : c.watch.dState = .on := by simpa [UiCall.Comes] using hcomes
    have hpage := (h.rendered hon).2
    rw [UiCall.ops]
    split_ifs with hlast
    · exact h
    · refine goes_turn h hon ?_
      revert hpage hlast
      cases c.watch.currWatchState <;> decide
  | handleLeftActionOnRoot =>
    have hon : c.watch.dState = .on := by simpa [UiCall.Comes] using hcomes
    have hpage := (h.rendered hon).2
    rw [UiCall.ops]
    split_ifs with hlast
    · exact h
    · refine goes_turn h hon ?_
      revert hpage hlast
      cases c.watch.currWatchState <;> decide

/-- What the labels say does not matter to the calls. -/
theorem goes_texts {c : Screen} {phase : TimerPhase} {ops : List UiOp} {texts : WfTexts}
    (hlive : c.labels = .live texts) (h : c.Goes phase ops) (texts' : WfTexts) :
    { c with labels := .live texts' }.Goes phase ops := by
  induction ops generalizing c phase with
  | nil => exact ⟨h.watchface, h.other, h.display, h.rendered⟩
  | cons op rest ih =>
    obtain ⟨hallowed, hrest⟩ := h
    cases op with
    | cleanWf =>
      refine ⟨hallowed, fun hreturns => ?_⟩
      have hgoes := hrest hreturns
      rw [UiOp.act, hlive] at hgoes
      exact hgoes
    | drawWatchface => exact ⟨hallowed, hrest⟩
    | startTimer =>
      refine ⟨⟨hallowed.1, ⟨texts', rfl⟩, hallowed.2.selected⟩, fun hreturns => ?_⟩
      exact ih hlive (hrest hreturns)
    | _ => exact ⟨hallowed, fun hreturns => ih (by exact hlive) (hrest hreturns)⟩

/-! ### The tick between the statements -/

/-- The handler has yet to schedule the next tick. -/
def TickPc.early : TickPc → Bool
  | .rescheduled => false
  | _ => true

/-- The work item in a phase of the screen's thread. -/
def WorkIs (rejects : Bool) (s : Ticking) : TimerPhase → Prop
  | .off => s.work = .idle
  | .on => s.work.canceling = false ∧
      (s.work.Scheduled s.uptime Ticking.tickPeriod ∨ s.tick.any TickPc.early = true)
  | .stopping => s.work.deadline = none ∧ s.work.queued = false ∧
      s.work.canceling = s.work.running ∧
      (rejects = true ∨ s.tick.any TickPc.early = false)

/-- What the labels say, and during an update what they will say after it. -/
def TextsAre (updated : Option WfUpdatePayload) (texts : WfTexts) : Option TickPc → Prop
  | some (.writing p rest) => rest.foldl WfTexts.set texts = wf2Texts p
  | _ => texts = updated.elim .drawn wf2Texts

structure TickingInv (rejects : Bool) (s : Ticking × Option WfUpdatePayload)
    (phase : TimerPhase) : Prop where
  goes : s.1.screen.Goes phase s.1.todo
  shown : phase ≠ .off → s.1.screen.Shown
  work : WorkIs rejects s.1 phase
  running : s.1.work.running = s.1.tick.isSome
  notFreed : s.1.usedFreed = false
  texts : ∀ texts, s.1.screen.labels = .live texts → TextsAre s.2 texts s.1.tick

theorem tickingInv_start (rejects : Bool) (allWfs : List Watchface) (timeState : TimeSync)
    (weatherState : WeatherSync) :
    TickingInv rejects (.start allWfs timeState weatherState, none) .off where
  goes := ⟨fun hface => (by cases hface), fun _ => rfl, fun _ => rfl, fun hon => (by cases hon)⟩
  shown := fun hoff => absurd rfl hoff
  work := rfl
  running := rfl
  notFreed := rfl
  texts := fun _ hlive => by cases hlive

section Inv
variable {rejects : Bool} {s : Ticking × Option WfUpdatePayload} {phase : TimerPhase}

/-- With the timer off the handler does not run. -/
theorem TickingInv.tick_none (h : TickingInv rejects s .off) : s.1.tick = none := by
  have hidle : s.1.work = .idle := h.work
  have hrunning := h.running
  rw [hidle] at hrunning
  exact Option.isNone_iff_eq_none.mp (Option.isSome_eq_false_iff.mp hrunning.symm)

/-- A handler that is running finds the labels. -/
theorem TickingInv.shown_of_tick (h : TickingInv rejects s phase) (htick : s.1.tick ≠ none) :
    s.1.screen.Shown := by
  refine h.shown fun hoff => htick ?_
  rw [hoff] at h
  exact h.tick_none

theorem TickingInv.faceRight (h : TickingInv rejects s phase) : FaceRight s where
  notFreed := h.notFreed
  texts := by
    intro texts hlive hwriting
    have htexts := h.texts texts hlive
    revert htexts hwriting
    cases s.1.tick with
    | none => exact fun _ htexts => htexts
    | some pc =>
      cases pc with
      | writing p rest => exact fun hwriting => absurd rfl (hwriting p rest)
      | _ => exact fun _ htexts => htexts
  ticking := by
    intro hrest hface
    have hgoes := h.goes
    rw [hrest] at hgoes
    have hon : phase = .on := hgoes.watchface hface
    have hshown := h.shown (by rw [hon]; decide)
    have hwork := h.work
    rw [hon] at hwork
    refine ⟨hshown.live, hshown.selected, hwork.2.imp_right fun hearly => ?_⟩
    rw [h.running]
    exact Option.isSome_of_any hearly
  quiet := by
    intro hrest haway
    have hgoes := h.goes
    rw [hrest] at hgoes
    have hface : s.1.screen.watch.currWatchState ≠ .watchface := by
      rcases haway with hface | hoff
      · exact hface
      · rw [hgoes.display hoff]
        exact UiState.noConfusion
    rw [hgoes.other hface] at h
    exact ⟨h.work, h.tick_none⟩

/-! ### Steps -/

theorem inv_call (h : TickingInv rejects s phase) {call : UiCall} (hrest : s.1.todo = [])
    (hcomes : call.Comes s.1.screen) :
    TickingInv rejects ({ s.1 with todo := call.ops s.1.screen }, s.2) phase := by
  have hgoes := h.goes
  rw [hrest] at hgoes
  exact ⟨goes_call hgoes hcomes, h.shown, h.work, h.running, h.notFreed, h.texts⟩

theorem inv_sync (h : TickingInv rejects s phase) (timeState : TimeSync)
    (weatherState : WeatherSync) :
    TickingInv rejects ({ s.1 with timeState := timeState, weatherState := weatherState }, s.2)
      phase :=
  ⟨h.goes, h.shown, h.work, h.running, h.notFreed, h.texts⟩

theorem inv_pass (h : TickingInv rejects s phase) :
    TickingInv rejects ({ s.1 with
      uptime := s.1.uptime + 1
      work := s.1.work.advance (s.1.uptime + 1) }, s.2) phase := by
  refine ⟨h.goes, h.shown, ?_, ?_, h.notFreed, h.texts⟩
  · have hwork := h.work
    cases phase with
    | off =>
      have hidle : s.1.work = .idle := hwork
      exact (congrArg (DelayableWork.advance · _) hidle).trans rfl
    | on =>
      refine ⟨(DelayableWork.advance_canceling _ _).trans hwork.1, ?_⟩
      exact hwork.2.imp_left fun hsoon => hsoon.advance
    | stopping =>
      obtain ⟨hdeadline, hrest⟩ := hwork
      rw [WorkIs, DelayableWork.advance_of_none hdeadline]
      exact ⟨hdeadline, hrest⟩
  · exact (DelayableWork.advance_running _ _).trans h.running

/-- The handler goes on from one place to the next without the work item. -/
theorem inv_goOn (h : TickingInv rejects s phase) {pc pc' : TickPc} {labels : Labels}
    {updated : Option WfUpdatePayload} (htick : s.1.tick = some pc) (hearly : pc.early = true)
    (hearly' : pc'.early = true) (hlive : (∃ texts, labels = .live texts))
    (hgoes : { s.1.screen with labels := labels }.Goes phase s.1.todo)
    (htexts : ∀ texts, labels = .live texts → TextsAre updated texts (some pc')) :
    TickingInv rejects ({ s.1 with
      screen := { s.1.screen with labels := labels }
      tick := some pc' }, updated) phase := by
  have hshown := h.shown_of_tick (by rw [htick]; exact Option.some_ne_none pc)
  refine ⟨hgoes, fun _ => ⟨hlive, hshown.selected⟩, ?_, ?_, h.notFreed, htexts⟩
  · have hwork := h.work
    cases phase with
    | off => exact hwork
    | on => exact ⟨hwork.1, .inr hearly'⟩
    | stopping =>
      obtain ⟨hdeadline, hqueued, hcanceling, hrejects⟩ := hwork
      refine ⟨hdeadline, hqueued, hcanceling, hrejects.imp_right fun hnot => ?_⟩
      rw [htick, Option.any_some, hearly] at hnot
      cases hnot
  · have hrunning := h.running
    rw [htick] at hrunning
    exact hrunning

/-- The handler goes on without a label. -/
theorem inv_read (h : TickingInv rejects s phase) {pc pc' : TickPc}
    (htick : s.1.tick = some pc) (hearly : pc.early = true) (hearly' : pc'.early = true)
    {updated : Option WfUpdatePayload}
    (htexts : ∀ texts, TextsAre s.2 texts (some pc) → TextsAre updated texts (some pc')) :
    TickingInv rejects ({ s.1 with tick := some pc' }, updated) phase := by
  have hlive := (h.shown_of_tick (by rw [htick]; exact Option.some_ne_none pc)).live
  refine inv_goOn h htick hearly hearly' hlive h.goes fun texts hl => htexts texts ?_
  rw [← htick]
  exact h.texts texts hl

theorem inv_setText (h : TickingInv rejects s phase) {p : WfUpdatePayload}
    {write : WfLabel × String} {rest : List (WfLabel × String)}
    (htick : s.1.tick = some (.writing p (write :: rest))) :
    TickingInv rejects ({ s.1.setText write with tick := some (.writing p rest) }, s.2) phase := by
  obtain ⟨texts, hlive⟩ :=
    (h.shown_of_tick (by rw [htick]; exact Option.some_ne_none _)).live
  have htexts := h.texts texts hlive
  rw [htick] at htexts
  have hset : s.1.setText write =
      { s.1 with screen := { s.1.screen with labels := .live (texts.set write) } } := by
    rw [Ticking.setText, hlive]
  rw [hset]
  refine inv_goOn h htick rfl rfl ⟨_, rfl⟩ (goes_texts hlive h.goes _) fun texts' hl => ?_
  rw [← Labels.live.inj hl]
  exact htexts

theorem inv_rescheduled (h : TickingInv rejects s phase) (htick : s.1.tick = some .forwarded) :
    TickingInv rejects ({ s.1 with
      work := s.1.work.reschedule rejects s.1.uptime Ticking.tickPeriod
      tick := some .rescheduled }, s.2) phase := by
  refine ⟨h.goes, h.shown, ?_, ?_, h.notFreed, fun texts hl => ?_⟩
  · have hwork := h.work
    cases phase with
    | off =>
      rw [h.tick_none] at htick
      cases htick
    | on =>
      refine ⟨(DelayableWork.reschedule_canceling _ _ _ _).trans hwork.1, .inl ?_⟩
      exact DelayableWork.scheduled_reschedule rejects s.1.uptime Ticking.tickPeriod hwork.1
    | stopping =>
      obtain ⟨hdeadline, hqueued, hcanceling, hrejects⟩ := hwork
      have hrunning := h.running
      rw [htick] at hrunning hrejects
      have hkernel : rejects = true := hrejects.resolve_right (by decide)
      have hrejected := DelayableWork.reschedule_rejected s.1.uptime hdeadline
        (hcanceling.trans hrunning) Ticking.tickPeriod_pos
      rw [WorkIs, hkernel, hrejected]
      exact ⟨hdeadline, hqueued, hcanceling, .inr rfl⟩
  · have hrunning := h.running
    rw [htick] at hrunning
    exact (DelayableWork.reschedule_running _ _ _ _).trans hrunning
  · have htexts := h.texts texts hl
    rw [htick] at htexts
    exact htexts

theorem inv_finish (h : TickingInv rejects s phase) (htick : s.1.tick = some .rescheduled) :
    TickingInv rejects ({ s.1 with work := s.1.work.finish, tick := none }, s.2) phase := by
  refine ⟨h.goes, h.shown, ?_, rfl, h.notFreed, fun texts hl => ?_⟩
  · have hwork := h.work
    cases phase with
    | off =>
      rw [h.tick_none] at htick
      cases htick
    | on =>
      refine ⟨rfl, .inl ⟨rfl, ?_⟩⟩
      rw [WorkIs, htick] at hwork
      exact (hwork.2.resolve_right (by decide)).soon
    | stopping => exact ⟨hwork.1, hwork.2.1, rfl, .inr rfl⟩
  · have htexts := h.texts texts hl
    rw [htick] at htexts
    exact htexts

theorem inv_take (h : TickingInv rejects s phase) (htick : s.1.tick = none) {work : DelayableWork}
    (htake : s.1.work.take = some work) :
    TickingInv rejects ({ s.1 with work := work, tick := some .begun }, s.2) phase := by
  rw [DelayableWork.take] at htake
  obtain ⟨hready, htake⟩ := Option.ite_none_right_eq_some.mp htake
  rw [Bool.and_eq_true] at hready
  rw [← Option.some.inj htake]
  refine ⟨h.goes, h.shown, ?_, rfl, h.notFreed, fun texts hl => ?_⟩
  · have hwork := h.work
    cases phase with
    | off =>
      have hidle : s.1.work = .idle := hwork
      rw [hidle] at hready
      cases hready.1
    | on => exact ⟨hwork.1, .inr rfl⟩
    | stopping =>
      rw [hwork.2.1] at hready
      cases hready.1
  · have htexts := h.texts texts hl
    rw [htick] at htexts
    exact htexts

theorem inv_tick (h : TickingInv rejects s phase) {t : Ticking}
    (hstep : s.1.publishTickEvent rejects = some t) :
    TickingInv rejects (t, updatedNext s.1 .tick t s.2) phase := by
  rw [Ticking.publishTickEvent] at hstep
  cases htick : s.1.tick with
  | none =>
    rw [htick] at hstep
    obtain ⟨work, htake, rfl⟩ := Option.map_eq_some_iff.mp hstep
    rw [updatedNext, htick, Option.elim_none]
    exact inv_take h htick htake
  | some pc =>
    rw [htick] at hstep
    rw [updatedNext, htick, Option.elim_some]
    cases pc with
    | begun =>
      rw [← Option.some.inj hstep]
      exact inv_read h htick rfl rfl fun _ htexts => htexts
    | dated time =>
      rw [← Option.some.inj hstep]
      exact inv_read h htick rfl rfl fun _ htexts => htexts
    | loaded p =>
      have hshown := h.shown_of_tick (by rw [htick]; exact Option.some_ne_none _)
      rw [← Option.some.inj hstep, if_pos hshown.selected]
      have hearly : (TickPc.writing p (wf2Update p)).early = true := rfl
      exact inv_read h htick rfl hearly fun texts _ => wf2Update_texts p texts
    | writing p rest =>
      cases rest with
      | nil =>
        have hdone : (TickPc.writing p []).done.or s.2 = some p := rfl
        rw [← Option.some.inj hstep, hdone]
        refine inv_read h htick rfl rfl fun texts htexts => ?_
        simpa only [TextsAre, Option.elim_some, List.foldl_nil] using htexts
      | cons write rest =>
        rw [← Option.some.inj hstep]
        exact inv_setText h htick
    | forwarded =>
      rw [← Option.some.inj hstep]
      exact inv_rescheduled h htick
    | rescheduled =>
      rw [← Option.some.inj hstep]
      exact inv_finish h htick

theorem inv_stopTimer (h : TickingInv rejects s phase) {rest : List UiOp}
    (htodo : s.1.todo = .stopTimer :: rest)
    (hclear : rejects = true ∨ s.1.tick = none ∨ s.1.tick = some .rescheduled) :
    TickingInv rejects ({ s.1 with work := s.1.work.cancel, todo := rest }, s.2) .stopping := by
  have hgoes := h.goes
  rw [htodo] at hgoes
  obtain ⟨hon, hgoes⟩ := hgoes
  refine ⟨hgoes rfl, fun _ => h.shown ?_, ⟨rfl, rfl, rfl, hclear.imp_right ?_⟩, h.running,
    h.notFreed, h.texts⟩
  · rw [show phase = .on from hon]
    decide
  · rintro (hnone | hlate)
    · rw [hnone]
      rfl
    · rw [hlate]
      rfl

theorem inv_awaitTimer (h : TickingInv rejects s phase) {rest : List UiOp}
    (htodo : s.1.todo = .awaitTimer :: rest) (hidle : s.1.work.running = false) :
    TickingInv rejects ({ s.1 with todo := rest }, s.2) .off := by
  have hgoes := h.goes
  have hwork := h.work
  rw [htodo] at hgoes
  obtain ⟨hstopping, hgoes⟩ := hgoes
  rw [show phase = .stopping from hstopping] at hwork
  obtain ⟨hdeadline, hqueued, hcanceling, -⟩ := hwork
  refine ⟨hgoes rfl, fun hoff => absurd rfl hoff, ?_, h.running, h.notFreed, h.texts⟩
  rw [hidle] at hcanceling
  exact DelayableWork.ext hdeadline hqueued hidle hcanceling

theorem inv_startTimer (h : TickingInv rejects s phase) {rest : List UiOp}
    (htodo : s.1.todo = .startTimer :: rest) :
    TickingInv rejects ({ s.1 with
      work := if s.1.work.isPending then s.1.work else s.1.work.reschedule rejects s.1.uptime 0
      todo := rest }, s.2) .on := by
  have hgoes := h.goes
  rw [htodo] at hgoes
  obtain ⟨⟨hoff, hshown⟩, hgoes⟩ := hgoes
  have hidle := h.work
  rw [hoff] at h hidle
  have hidle' : s.1.work = .idle := hidle
  refine ⟨hgoes rfl, fun _ => hshown, ?_, ?_, h.notFreed, h.texts⟩
  · rw [hidle', if_neg (by decide)]
    exact ⟨rfl, .inl ⟨rfl, .inr rfl⟩⟩
  · rw [h.tick_none, hidle', if_neg (by decide)]
    rfl

/-- A statement that leaves the timer alone. With the timer off it may put new labels up. -/
theorem inv_act (h : TickingInv rejects s phase) {op : UiOp} {rest : List UiOp}
    (htodo : s.1.todo = op :: rest) (hphase : op.phase phase = phase)
    (hreturns : op.returns s.1.screen = true)
    (hkeeps : phase ≠ .off → (op.act s.1.screen).Shown)
    (htexts : ∀ texts, (op.act s.1.screen).labels = .live texts →
      op = .drawWatchface ∧ texts = .drawn ∨ op ≠ .drawWatchface ∧ s.1.screen.labels = .live texts) :
    TickingInv rejects ({ s.1 with screen := op.act s.1.screen, todo := rest },
      if s.1.todo.head? = some .drawWatchface then none else s.2) phase := by
  have hgoes := h.goes
  rw [htodo] at hgoes
  obtain ⟨hallowed, hgoes⟩ := hgoes
  have hgo := hgoes hreturns
  rw [hphase] at hgo
  refine ⟨hgo, hkeeps, h.work, h.running, h.notFreed, fun texts hl => ?_⟩
  rw [htodo, List.head?_cons]
  rcases htexts texts hl with ⟨rfl, rfl⟩ | ⟨hne, hold⟩
  · have hoff : phase = .off := hallowed
    rw [hoff] at h
    rw [if_pos rfl, h.tick_none]
    rfl
  · rw [if_neg fun heq => hne (Option.some.inj heq)]
    exact h.texts texts hold

theorem inv_ui (h : TickingInv rejects s phase) (hclear : StopsClear rejects s .ui) {t : Ticking}
    (hstep : s.1.uiOp rejects = some t) :
    ∃ phase', TickingInv rejects (t, updatedNext s.1 .ui t s.2) phase' := by
  rw [Ticking.uiOp] at hstep
  rw [updatedNext]
  have hgoes := h.goes
  cases htodo : s.1.todo with
  | nil =>
    rw [htodo] at hstep
    cases hstep
  | cons op rest =>
    have hact := @inv_act rejects s phase h op rest htodo
    rw [htodo] at hstep hgoes hact
    cases op with
    | stopTimer =>
      rw [← Option.some.inj hstep]
      exact ⟨.stopping, inv_stopTimer h htodo (hclear rfl (by rw [htodo]; rfl))⟩
    | awaitTimer =>
      obtain ⟨hrunning, hstep⟩ := Option.ite_none_left_eq_some.mp hstep
      rw [← Option.some.inj hstep]
      exact ⟨.off, inv_awaitTimer h htodo (Bool.eq_false_iff.mpr hrunning)⟩
    | startTimer =>
      rw [← Option.some.inj hstep]
      exact ⟨.on, inv_startTimer h htodo⟩
    | cleanWf =>
      rw [← Option.some.inj hstep]
      refine ⟨phase, hact rfl rfl (fun hne => absurd hgoes.1 hne) fun texts hl => ?_⟩
      rw [UiOp.act] at hl
      split at hl <;> cases hl
    | drawWatchface =>
      rw [← Option.some.inj hstep]
      refine ⟨phase, hact rfl rfl (fun hne => absurd hgoes.1 hne) fun texts hl => .inl ⟨rfl, ?_⟩⟩
      exact (Labels.live.inj hl).symm
    | selectWf =>
      obtain ⟨hreturns, hstep⟩ := Option.ite_none_right_eq_some.mp hstep
      rw [← Option.some.inj hstep]
      exact ⟨phase, hact rfl hreturns (fun hne => absurd hgoes.1 hne)
        fun texts hl => .inr ⟨by decide, hl⟩⟩
    | deselectWf =>
      rw [← Option.some.inj hstep]
      exact ⟨phase, hact rfl rfl (fun hne => absurd hgoes.1 hne)
        fun texts hl => .inr ⟨by decide, hl⟩⟩
    | leaveApps | setWatchState _ | showApps | setDisplay _ | setFirstRender _ =>
      rw [← Option.some.inj hstep]
      exact ⟨phase, hact rfl rfl (fun hne => ⟨(h.shown hne).live, (h.shown hne).selected⟩)
        fun texts hl => .inr ⟨(by intro heq; cases heq), hl⟩⟩

theorem inv_step (h : TickingInv rejects s phase) {action : TickingAction}
    (hclear : StopsClear rejects s action) {s' : Ticking × Option WfUpdatePayload}
    (hstep : faceStep rejects s action = some s') :
    ∃ phase', TickingInv rejects s' phase' := by
  obtain ⟨t, ht, rfl⟩ := Machine.recording_some _ _ hstep
  cases action with
  | call c =>
    obtain ⟨⟨hrest, hcomes⟩, ht⟩ := Option.ite_none_right_eq_some.mp ht
    rw [← Option.some.inj ht]
    exact ⟨phase, inv_call h hrest hcomes⟩
  | ui => exact inv_ui h hclear ht
  | tick => exact ⟨phase, inv_tick h ht⟩
  | pass =>
    rw [← Option.some.inj ht]
    exact ⟨phase, inv_pass h⟩
  | sync timeState weatherState =>
    rw [← Option.some.inj ht]
    exact ⟨phase, inv_sync h timeState weatherState⟩

end Inv

/-- However the ticks fall between the statements of the pages, the watchface is updated while
it is there and at no other time. -/
theorem face_right (rejects : Bool) (allWfs : List Watchface) (timeState : TimeSync)
    (weatherState : WeatherSync) (actions : List TickingAction)
    (hclear : Machine.EachStep (faceStep rejects) (StopsClear rejects)
      (.start allWfs timeState weatherState, none) actions) :
    Machine.Always (faceStep rejects) FaceRight (.start allWfs timeState weatherState, none)
      actions := by
  have hinv : Machine.Always (faceStep rejects) (fun s => ∃ phase, TickingInv rejects s phase)
      (.start allWfs timeState weatherState, none) actions :=
    Machine.always_of_eachStep ⟨.off, tickingInv_start rejects allWfs timeState weatherState⟩
      (fun _ _ _ ⟨_, h⟩ hclear hstep => inv_step h hclear hstep) hclear
  exact hinv.mono fun _ ⟨_, h⟩ => h.faceRight

/-- Right is pressed while the tick writes its second label, on 7 August; the kernel refuses
the next tick. -/
theorem face_right_turned :
    let wfs : List Watchface := [⟨0⟩, ⟨1⟩]
    let clock : TimeSync := ⟨1786107900, 0, 1⟩
    let weather : WeatherSync := ⟨0, .fill Ble.hoursPerDay ⟨-57, 81, 30, 61, 12⟩⟩
    let actions : List TickingAction := .call .initUi :: .replicate 6 .ui ++ .replicate 12 .tick ++
      .replicate 1000 .pass ++ .replicate 5 .tick ++ [.call .handleRightActionOnRoot, .ui] ++
      .replicate 7 .tick ++ .replicate 5 .ui
    ∃ s, Machine.run (faceStep true) (.start wfs clock weather, none) actions = some s ∧
      s.1.todo = [] ∧ s.1.work = .idle ∧ s.1.screen.labels = .freed ∧
      s.2.map wf2Texts = some ⟨"13:05", "07", "SEPTEMBER", "FRIDAY", "-5C"⟩ ∧ FaceRight s := by
  intro wfs clock weather actions
  have hrun : ∃ s ∈ Machine.run (faceStep true) (.start wfs clock weather, none) actions,
      s.1.todo = [] ∧ s.1.work = .idle ∧ s.1.screen.labels = .freed ∧
        s.2.map wf2Texts = some ⟨"13:05", "07", "SEPTEMBER", "FRIDAY", "-5C"⟩ := by
    decide +kernel
  obtain ⟨s, hs, htodo, hwork, hlabels, hupdated⟩ := hrun
  have hclear : Machine.EachStep (faceStep true) (StopsClear true)
      (.start wfs clock weather, none) actions :=
    fun _ _ _ _ _ _ _ _ _ _ => .inl rfl
  exact ⟨s, hs, htodo, hwork, hlabels, hupdated,
    face_right true wfs clock weather actions hclear actions [] s (List.append_nil _).symm hs⟩

/-- With a kernel that takes the new delay, the tick outlives the page that it was on; it finds
the watchface selected again before it is drawn. -/
theorem face_written_freed :
    let wfs : List Watchface := [⟨0⟩, ⟨1⟩]
    let weather : WeatherSync := ⟨0, .fill Ble.hoursPerDay ⟨-57, 81, 30, 61, 12⟩⟩
    let actions : List TickingAction := .call .initUi :: .replicate 6 .ui ++ .replicate 5 .tick ++
      [.call .handleRightActionOnRoot, .ui] ++ .replicate 7 .tick ++ .replicate 5 .ui ++
      .call .handleLeftActionOnRoot :: .replicate 3 .ui ++ .replicate 1000 .pass ++
      .replicate 5 .tick
    ∃ s ∈ Machine.run (faceStep false) (.start wfs ⟨0, 0, 0⟩ weather, none) actions,
      s.1.usedFreed = true := by
  decide +kernel

end MinimalWatch.Ui
