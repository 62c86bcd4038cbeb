import MinimalWatch.Ble.Request
import MinimalWatch.App.Update

/-! The page that is shown, the watchface and the app on it, from ui_manager.c,
wf_picker.c, app_manager.c and appmgr_ui.c. A function that dereferences NULL has the
fault as its result. What is only drawn is left out, apart from the screen of an app: an LVGL
object counts when the code looks whether it is there. -/

namespace MinimalWatch.Ui
open App (AppUpdate)
open Ble (BleFifos)

inductive UiState
  | start
  | notify
  | watchface
  | app
  | end_
  deriving DecidableEq, Repr

namespace UiState

/-- `curr_watch_state++`; not made at the end. -/
def next : UiState → UiState
  | start => notify
  | notify => watchface
  | watchface => app
  | app => end_
  | end_ => end_

/-- `curr_watch_state--`; not made at the start. -/
def prev : UiState → UiState
  | start => start
  | notify => start
  | watchface => notify
  | app => watchface
  | end_ => app

end UiState

inductive DisplayState
  | disInvalid
  | off
  | on
  deriving DecidableEq, Repr

structure Watchface where
  wfId : UInt8
  deriving DecidableEq, Repr

/-- `handleEvent` is the address of the app's handler, if it has one. -/
structure Application where
  appId : UInt8
  handleEvent : Option Nat
  deriving DecidableEq, Repr

inductive LvKey
  | enter
  | esc
  | left
  | right
  | other (code : UInt32)
  deriving DecidableEq, Repr

inductive Fault
  | nullPointer
  deriving DecidableEq, Repr

/-- The static state of the four files, with the TX FIFO that requests go to. -/
structure Watch where
  dState : DisplayState
  currWatchState : UiState
  /-- `selected_wf` of ui_manager.c -/
  selectedWf : Option Watchface
  /-- The registered part of `all_wfs`. -/
  allWfs : List Watchface
  currApp : Option Application
  isAppRunning : Bool
  /-- `app_root_cont` is not NULL. -/
  appRootCont : Bool
  /-- `app_scr` is not NULL. -/
  appScr : Bool
  /-- The application whose screen is on the app page. -/
  drawnApp : Option Application
  fifos : BleFifos
  /-- The calls of `handle_event` of an application. -/
  handled : List (Application × AppUpdate)

namespace Watch

/-- After the registrations, before `init_ui`. -/
def boot (allWfs : List Watchface) : Watch where
  dState := .disInvalid
  currWatchState := .start
  selectedWf := none
  allWfs := allWfs
  currApp := none
  isAppRunning := false
  appRootCont := false
  appScr := false
  drawnApp := none
  fifos := .init
  handled := []

/-! ### app_manager.c and appmgr_ui.c -/

def createAppScreen (w : Watch) : Watch :=
  if w.appRootCont then { w with appScr := true } else w

/-- `draw_app` draws on the screen that it gets, if it gets one. -/
def drawApp (w : Watch) (app : Application) : Watch :=
  if w.appRootCont then { w with drawnApp := some app } else w

def openApp (w : Watch) (key : LvKey) (app : Application) : Watch :=
  if key = .enter then
    (createAppScreen { w with currApp := some app, isAppRunning := true }).drawApp app
  else w

def closeCurrApp (w : Watch) : Watch :=
  if w.isAppRunning = false then w
  else { w with isAppRunning := false, currApp := none }

def handleAppScrClose (w : Watch) : Watch :=
  if w.appScr then { w.closeCurrApp with appScr := false, drawnApp := none } else w

/-! ### ui_manager.c -/

/-- `all_wfs[1]` -/
def selectWf (w : Watch) : Option Watchface := w.allWfs[1]?

/-- `lv_obj_clean(app_page)` deletes what is on the page, the screen of an app as well. -/
def cleanAppPage (w : Watch) : Watch := { w with drawnApp := none }

def closeCurrPage (w : Watch) : Watch :=
  match w.currWatchState with
  | .watchface => { w with selectedWf := none }
  | .app => { w.cleanAppPage with appRootCont := false }
  | _ => w

def showPage (w : Watch) (page : UiState) : Except Fault Watch :=
  match page with
  | .watchface =>
    match w.selectWf with
    | none => .error .nullPointer
    | some wf => .ok { w with selectedWf := some wf }
  | .app => .ok { w with appRootCont := true }
  | _ => .ok w

def handleRightActionOnRoot (w : Watch) : Except Fault Watch :=
  if w.currWatchState = .app then .ok w
  else
    { w.closeCurrPage with currWatchState := w.currWatchState.next }.showPage
      w.currWatchState.next

def handleLeftActionOnRoot (w : Watch) : Except Fault Watch :=
  if w.currWatchState = .notify then .ok w
  else
    { w.closeCurrPage with currWatchState := w.currWatchState.prev }.showPage
      w.currWatchState.prev

def initUi (w : Watch) : Except Fault Watch :=
  if w.dState = .on then .ok w
  else { w with dState := .on, currWatchState := .watchface }.showPage .watchface

def deinitUi (w : Watch) : Watch :=
  if w.dState = .on then
    { w.closeCurrPage with dState := .off, currWatchState := .start }
  else w

end Watch

end MinimalWatch.Ui
