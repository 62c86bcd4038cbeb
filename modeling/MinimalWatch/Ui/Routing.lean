import MinimalWatch.Lib.Machine
import MinimalWatch.Ui.Pages

/-! Where the answers of the phone go. Requests and answers carry the id of what is on
the screen; `send_app_update` compares the id before it looks whether an app is there. -/

namespace MinimalWatch.Ui
open Firmware
open App (AppUpdate)
open Ble (BleReq submitBleRequest)

def maxWatchfaces : Nat := 10

/-- The id of an application in requests, a byte. -/
def Application.requestId (app : Application) : UInt8 :=
  UInt8.ofNat (maxWatchfaces + 1 + app.appId.toNat)

def Watchface.requestId (wf : Watchface) : UInt8 := UInt8.ofNat (wf.wfId.toNat + 1)

namespace Watch

def generateCurrAppId (w : Watch) : Except Fault UInt8 :=
  match w.currWatchState with
  | .watchface =>
    match w.selectedWf with
    | none => .ok 0
    | some wf => .ok wf.requestId
  | .app =>
    match w.currApp with
    | none => .error .nullPointer
    | some app => .ok app.requestId
  | _ => .ok 0

def sendAppUpdate (w : Watch) (update : AppUpdate) : Except Fault Watch :=
  match w.generateCurrAppId with
  | .error fault => .error fault
  | .ok id =>
    if id ≠ update.reqApp then .ok w
    else
      match w.currApp with
      | none => .ok w
      | some app =>
        match app.handleEvent with
        | none => .ok w
        | some _ => .ok { w with handled := w.handled ++ [(app, update)] }

def requestBleAction (w : Watch) (req : Option BleReq) : Except Fault (Watch × Bool) :=
  match w.generateCurrAppId with
  | .error fault => .error fault
  | .ok id =>
    if id = 0 then .ok (w, false)
    else
      let (fifos, success) := submitBleRequest w.fifos req id
      .ok ({ w with fifos := fifos }, success)

/-! ### Where an update belongs -/

/-- The application that is open on the visible app page, with its screen there. -/
def visibleApp (w : Watch) : Option Application :=
  if w.currWatchState = .app ∧ w.isAppRunning = true ∧ w.drawnApp = w.currApp then w.currApp
  else none

def handOver (w : Watch) (app : Application) (update : AppUpdate) : Watch :=
  if app.handleEvent.isSome then { w with handled := w.handled ++ [(app, update)] } else w

/-- The update goes to the visible application if it is the one that asked; else nothing
changes. -/
def routed (w : Watch) (update : AppUpdate) : Watch :=
  match w.visibleApp with
  | some app => if app.requestId = update.reqApp then w.handOver app update else w
  | none => w

/-- The app page, where it is shown, has an open application. -/
def AppThere (w : Watch) : Prop := w.currWatchState = .app → w.currApp ≠ none

/-- The id of what is shown, where it has one. -/
def shownId (w : Watch) : UInt8 :=
  match w.currWatchState with
  | .watchface => w.selectedWf.elim 0 Watchface.requestId
  | .app => w.currApp.elim 0 Application.requestId
  | _ => 0

/-- An application is open behind another page, or without its screen on the app page. -/
def OutOfSight (w : Watch) (app : Application) : Prop :=
  w.currApp = some app ∧ (w.currWatchState = .app → w.drawnApp ≠ some app)

/-- No application with a handler is open out of sight while the update has the id of what is
shown. -/
def NoneBehind (w : Watch) (update : AppUpdate) : Prop :=
  ∀ app, w.OutOfSight app → app.handleEvent.isSome = true → w.shownId ≠ update.reqApp

/-- An application is open exactly while one is running. -/
def Consistent (w : Watch) : Prop := w.isAppRunning = w.currApp.isSome

theorem generateCurrAppId_app {w : Watch} (h : w.currWatchState = .app) :
    w.generateCurrAppId = w.currApp.elim (.error .nullPointer) fun app => .ok app.requestId := by
  rw [generateCurrAppId, h]
  cases w.currApp <;> rfl

theorem generateCurrAppId_there {w : Watch} (h : w.AppThere) :
    w.generateCurrAppId = .ok w.shownId := by
  rw [generateCurrAppId, shownId]
  cases hpage : w.currWatchState with
  | watchface => cases w.selectedWf <;> rfl
  | app =>
    obtain ⟨app, happ⟩ := Option.ne_none_iff_exists'.mp (h hpage)
    rw [happ]
    rfl
  | _ => rfl

theorem generateCurrAppId_missing {w : Watch} (h : ¬ w.AppThere) :
    w.generateCurrAppId = .error .nullPointer := by
  rw [AppThere, Classical.not_imp, not_not] at h
  rw [generateCurrAppId_app h.1, h.2]
  rfl

theorem sendAppUpdate_id {w : Watch} {id : UInt8} (h : w.generateCurrAppId = .ok id)
    (update : AppUpdate) :
    w.sendAppUpdate update = .ok (if id = update.reqApp then
      w.currApp.elim w fun app => w.handOver app update else w) := by
  rw [sendAppUpdate, h]
  by_cases hid : id = update.reqApp
  · simp only [hid, ne_eq, not_true_eq_false, if_false, if_true, handOver]
    cases w.currApp with
    | none => rfl
    | some app =>
      simp only [Option.elim_some]
      cases app.handleEvent <;> rfl
  · simp [hid]

theorem handOver_eq_self_iff (w : Watch) (app : Application) (update : AppUpdate) :
    w.handOver app update = w ↔ app.handleEvent.isSome = false := by
  unfold handOver
  cases hhandler : app.handleEvent.isSome with
  | false => simp
  | true =>
    simp only [if_true]
    constructor
    · intro h
      have hlen := congrArg (fun w : Watch => w.handled.length) h
      simp at hlen
    · intro h
      cases h

/-- An open application is visible, with its id shown, or out of sight. -/
theorem visible_or_outOfSight {w : Watch} (hw : w.Consistent) {app : Application}
    (happ : w.currApp = some app) :
    (w.visibleApp = some app ∧ w.shownId = app.requestId ∧ ¬ w.OutOfSight app) ∨
      (w.visibleApp = none ∧ w.OutOfSight app) := by
  have hrunning : w.isAppRunning = true := by
    rw [hw, happ]
    rfl
  by_cases hseen : w.currWatchState = .app ∧ w.drawnApp = some app
  · obtain ⟨hpage, hdrawn⟩ := hseen
    refine Or.inl ⟨?_, ?_, fun hout => hout.2 hpage hdrawn⟩
    · rw [visibleApp, if_pos ⟨hpage, hrunning, hdrawn.trans happ.symm⟩, happ]
    · rw [shownId, hpage, happ]
      rfl
  · refine Or.inr ⟨?_, happ, fun hpage hdrawn => hseen ⟨hpage, hdrawn⟩⟩
    rw [visibleApp, if_neg fun h => hseen ⟨h.1, h.2.2.trans happ⟩]

/-- `send_app_update` does what it is for exactly when the app page has its app and no app
out of sight takes the update. -/
theorem sendAppUpdate_routed_iff {w : Watch} (hw : w.Consistent) (update : AppUpdate) :
    w.sendAppUpdate update = .ok (w.routed update) ↔ w.AppThere ∧ w.NoneBehind update := by
  by_cases hthere : w.AppThere
  · rw [sendAppUpdate_id (generateCurrAppId_there hthere), routed, and_iff_right hthere,
      Except.ok.injEq]
    cases happ : w.currApp with
    | none => simp [visibleApp, NoneBehind, OutOfSight, happ]
    | some app =>
      have hnone : w.NoneBehind update ↔ (w.OutOfSight app → app.handleEvent.isSome = true →
          w.shownId ≠ update.reqApp) := by
        refine ⟨fun h => h app, fun h app' hout => ?_⟩
        cases Option.some.inj (happ.symm.trans hout.1)
        exact h hout
      rw [hnone, Option.elim_some]
      rcases visible_or_outOfSight hw happ with ⟨hvisible, hid, hseen⟩ | ⟨hvisible, hout⟩
      · simp [hvisible, hid, hseen]
      · by_cases hid : w.shownId = update.reqApp
        · simp [hvisible, hout, hid, handOver_eq_self_iff]
        · simp [hvisible, hid]
  · simp [sendAppUpdate, generateCurrAppId_missing hthere, hthere]

theorem requestBleAction_ok_iff (w : Watch) (req : Option BleReq) :
    (∃ r, w.requestBleAction req = .ok r) ↔ w.AppThere := by
  by_cases hthere : w.AppThere
  · rw [requestBleAction, generateCurrAppId_there hthere]
    by_cases hzero : w.shownId = 0 <;> simp [hzero, hthere]
  · simp [requestBleAction, generateCurrAppId_missing hthere, hthere]

end Watch

/-! ### Runs -/

inductive UiAction
  | initUi
  | deinitUi
  | handleRightActionOnRoot
  | handleLeftActionOnRoot
  | openApp (key : LvKey) (app : Application)
  | closeCurrApp
  | handleAppScrClose
  | sendAppUpdate (update : AppUpdate)
  | requestBleAction (req : Option BleReq)
  deriving DecidableEq, Repr

structure UpdateCall where
  before : Watch
  update : AppUpdate
  after : Watch

/-- The watch, unless a fault has stopped it, and the calls of `send_app_update` that
returned. -/
structure UiRun where
  watch : Except Fault Watch
  calls : List UpdateCall

namespace UiRun

def boot (allWfs : List Watchface) : UiRun := ⟨.ok (.boot allWfs), []⟩

def sendAppUpdate (s : UiRun) (w : Watch) (update : AppUpdate) : UiRun :=
  match w.sendAppUpdate update with
  | .error fault => ⟨.error fault, s.calls⟩
  | .ok after => ⟨.ok after, s.calls ++ [⟨w, update, after⟩]⟩

end UiRun

/-- The actions of the LVGL thread; the root acts only while the display is on. -/
def lvglStep (w : Watch) : UiAction → Option Watch
  | .initUi => w.initUi.toOption
  | .deinitUi => some w.deinitUi
  | .handleRightActionOnRoot =>
    if w.dState = .on then w.handleRightActionOnRoot.toOption else none
  | .handleLeftActionOnRoot =>
    if w.dState = .on then w.handleLeftActionOnRoot.toOption else none
  | .openApp key app => some (w.openApp key app)
  | .closeCurrApp => some w.closeCurrApp
  | .handleAppScrClose => some w.handleAppScrClose
  | _ => none

def uiStep (s : UiRun) (action : UiAction) : Option UiRun :=
  match s.watch with
  | .error _ => none
  | .ok w =>
    match action with
    | .sendAppUpdate update => some (s.sendAppUpdate w update)
    | .requestBleAction req => some { s with watch := (w.requestBleAction req).map Prod.fst }
    | action => (lvglStep w action).map fun w' => { s with watch := .ok w' }

/-- No fault has stopped the watch, and every update went where it belonged. -/
structure UiRun.Routed (s : UiRun) : Prop where
  running : ∃ w, s.watch = .ok w
  calls : ∀ c ∈ s.calls, c.after = c.before.routed c.update

/-- When an update or a request comes, the screen has an id, and an update finds no app
out of sight. -/
def Watch.ScreenKnown (w : Watch) : UiAction → Prop
  | .sendAppUpdate update => w.AppThere ∧ w.NoneBehind update
  | .requestBleAction _ => w.AppThere
  | _ => True

def ScreenKnown (s : UiRun) (action : UiAction) : Prop :=
  ∀ w, s.watch = .ok w → w.ScreenKnown action

theorem showPage_consistent {w w' : Watch} {page : UiState} (h : w.showPage page = .ok w')
    (hw : w.Consistent) : w'.Consistent := by
  unfold Watch.showPage at h
  split at h
  · split at h
    · cases h
    · rw [← Except.ok.inj h]
      exact hw
  · rw [← Except.ok.inj h]
    exact hw
  · rw [← Except.ok.inj h]
    exact hw

theorem closeCurrPage_consistent {w : Watch} (hw : w.Consistent) :
    w.closeCurrPage.Consistent := by
  unfold Watch.closeCurrPage
  split <;> exact hw

theorem closeCurrApp_consistent {w : Watch} (hw : w.Consistent) :
    w.closeCurrApp.Consistent := by
  unfold Watch.closeCurrApp
  split_ifs
  · exact hw
  · rfl

theorem toOption_some {w : Except Fault Watch} {w' : Watch} (h : w.toOption = some w') :
    w = .ok w' := by
  cases w with
  | error fault => cases h
  | ok x => rw [Option.some.inj h]

theorem lvglStep_consistent {w w' : Watch} {action : UiAction} (hw : w.Consistent)
    (h : lvglStep w action = some w') : w'.Consistent := by
  cases action with
  | initUi =>
    have hshow := toOption_some h
    unfold Watch.initUi at hshow
    split_ifs at hshow
    · exact Except.ok.inj hshow ▸ hw
    · exact showPage_consistent hshow hw
  | deinitUi =>
    rw [← Option.some.inj h, Watch.deinitUi]
    split_ifs
    · exact closeCurrPage_consistent hw
    · exact hw
  | handleRightActionOnRoot =>
    have hshow := toOption_some (Option.ite_none_right_eq_some.mp h).2
    unfold Watch.handleRightActionOnRoot at hshow
    split_ifs at hshow
    · exact Except.ok.inj hshow ▸ hw
    · exact showPage_consistent hshow (closeCurrPage_consistent hw)
  | handleLeftActionOnRoot =>
    have hshow := toOption_some (Option.ite_none_right_eq_some.mp h).2
    unfold Watch.handleLeftActionOnRoot at hshow
    split_ifs at hshow
    · exact Except.ok.inj hshow ▸ hw
    · exact showPage_consistent hshow (closeCurrPage_consistent hw)
  | openApp key app =>
    rw [← Option.some.inj h, Watch.openApp]
    split_ifs
    · unfold Watch.createAppScreen Watch.drawApp
      split_ifs <;> rfl
    · exact hw
  | closeCurrApp =>
    rw [← Option.some.inj h]
    exact closeCurrApp_consistent hw
  | handleAppScrClose =>
    rw [← Option.some.inj h, Watch.handleAppScrClose]
    split_ifs
    · exact closeCurrApp_consistent hw
    · exact hw
  | sendAppUpdate update => cases h
  | requestBleAction req => cases h

theorem sendAppUpdate_consistent {w w' : Watch} {update : AppUpdate} (hw : w.Consistent)
    (h : w.sendAppUpdate update = .ok w') : w'.Consistent := by
  cases hid : w.generateCurrAppId with
  | error fault =>
    rw [Watch.sendAppUpdate, hid] at h
    cases h
  | ok id =>
    rw [Watch.sendAppUpdate_id hid] at h
    rw [← Except.ok.inj h]
    split_ifs
    · cases happ : w.currApp with
      | none => exact hw
      | some app =>
        simp only [Option.elim_some, Watch.handOver]
        split_ifs <;> exact hw
    · exact hw

theorem requestBleAction_consistent {w : Watch} {req : Option BleReq} {r : Watch × Bool}
    (hw : w.Consistent) (h : w.requestBleAction req = .ok r) : r.1.Consistent := by
  unfold Watch.requestBleAction at h
  split at h
  · cases h
  · split_ifs at h
    · rw [← Except.ok.inj h]
      exact hw
    · rw [← Except.ok.inj h]
      exact hw

/-- What a run can do next: an action of the LVGL thread, an update or a request. -/
theorem uiStep_cases {s s' : UiRun} {action : UiAction} (h : uiStep s action = some s') :
    ∃ w, s.watch = .ok w ∧
      ((∃ update, action = .sendAppUpdate update ∧ s' = s.sendAppUpdate w update) ∨
        (∃ req, action = .requestBleAction req ∧
          s' = { s with watch := (w.requestBleAction req).map Prod.fst }) ∨
        ∃ w', lvglStep w action = some w' ∧ s' = { s with watch := .ok w' }) := by
  unfold uiStep at h
  split at h
  · cases h
  next w hw =>
    refine ⟨w, hw, ?_⟩
    split at h
    next update => exact Or.inl ⟨update, rfl, (Option.some.inj h).symm⟩
    next req => exact Or.inr (Or.inl ⟨req, rfl, (Option.some.inj h).symm⟩)
    next =>
      obtain ⟨w', hw', hs'⟩ := Option.map_eq_some_iff.mp h
      exact Or.inr (Or.inr ⟨w', hw', hs'.symm⟩)

def UiRun.Consistent (s : UiRun) : Prop := ∀ w, s.watch = .ok w → w.Consistent

theorem consistent_step {s s' : UiRun} {action : UiAction} (hs : s.Consistent)
    (h : uiStep s action = some s') : s'.Consistent := by
  obtain ⟨w, hw, ⟨update, rfl, rfl⟩ | ⟨req, rfl, rfl⟩ | ⟨w', hw', rfl⟩⟩ := uiStep_cases h
  · intro after hafter
    unfold UiRun.sendAppUpdate at hafter
    split at hafter
    · cases hafter
    next x hx =>
      rw [← Except.ok.inj hafter]
      exact sendAppUpdate_consistent (hs w hw) hx
  · intro after hafter
    cases hreq : w.requestBleAction req with
    | error fault =>
      rw [hreq] at hafter
      cases hafter
    | ok r =>
      rw [hreq] at hafter
      rw [← Except.ok.inj hafter]
      exact requestBleAction_consistent (hs w hw) hreq
  · intro after hafter
    rw [← Except.ok.inj hafter]
    exact lvglStep_consistent (hs w hw) hw'

theorem sendAppUpdate_run_iff {s : UiRun} (hs : s.Routed) {w : Watch} (hw : w.Consistent)
    (update : AppUpdate) :
    (s.sendAppUpdate w update).Routed ↔ w.AppThere ∧ w.NoneBehind update := by
  rw [← w.sendAppUpdate_routed_iff hw update]
  unfold UiRun.sendAppUpdate
  constructor
  · intro h
    split at h
    · obtain ⟨x, hx⟩ := h.running
      cases hx
    next after hafter =>
      have hcall := h.calls ⟨w, update, after⟩ (List.mem_append_right _ List.mem_cons_self)
      rw [hafter]
      exact congrArg _ hcall
  · intro h
    rw [h]
    refine ⟨⟨_, rfl⟩, fun c hc => ?_⟩
    rcases List.mem_append.mp hc with hold | hnew
    · exact hs.calls c hold
    · rw [List.mem_singleton.mp hnew]

theorem routed_step_iff {s s' : UiRun} {action : UiAction} (hs : s.Routed)
    (hcons : s.Consistent) (h : uiStep s action = some s') :
    s'.Routed ↔ ScreenKnown s action := by
  obtain ⟨w, hw, hcases⟩ := uiStep_cases h
  have hknown : ScreenKnown s action ↔ w.ScreenKnown action :=
    ⟨fun hk => hk w hw, fun hk x hx => by rwa [← Except.ok.inj (hw.symm.trans hx)]⟩
  rw [hknown]
  rcases hcases with ⟨update, rfl, rfl⟩ | ⟨req, rfl, rfl⟩ | ⟨w', hw', rfl⟩
  · exact sendAppUpdate_run_iff hs (hcons w hw) update
  · rw [Watch.ScreenKnown, ← w.requestBleAction_ok_iff req]
    constructor
    · intro hrouted
      obtain ⟨x, hx⟩ := hrouted.running
      cases hreq : w.requestBleAction req with
      | error fault =>
        simp only [hreq] at hx
        cases hx
      | ok r => exact ⟨r, rfl⟩
    · rintro ⟨r, hr⟩
      exact ⟨⟨r.1, by rw [hr]; rfl⟩, hs.calls⟩
  · have hrouted : UiRun.Routed { s with watch := .ok w' } := ⟨⟨w', rfl⟩, hs.calls⟩
    cases action with
    | sendAppUpdate update => cases hw'
    | requestBleAction req => cases hw'
    | _ => exact iff_of_true hrouted trivial

/-- Along any run, no fault comes and every update goes where it belongs exactly when each
update and each request finds an app on the app page, and no update comes with the id of what
is shown while an app is open out of sight. -/
theorem updates_routed_iff (allWfs : List Watchface) (actions : List UiAction) :
    Machine.Always uiStep UiRun.Routed (.boot allWfs) actions ↔
      Machine.EachStep uiStep ScreenKnown (.boot allWfs) actions := by
  have hrouted : (UiRun.boot allWfs).Routed := ⟨⟨_, rfl⟩, fun c hc => by cases hc⟩
  have hcons : (UiRun.boot allWfs).Consistent := by
    intro w hw
    rw [← Except.ok.inj hw]
    rfl
  refine @Machine.always_iff_eachStep _ _ uiStep _ (fun s => s.Routed ∧ s.Consistent) _ _ _
    ⟨hrouted, hcons⟩ (fun s h => h.1) (fun s action s' h hknown hstep => ?_)
    (fun s action s' h hunknown hstep => ?_)
  · exact ⟨(routed_step_iff h.1 h.2 hstep).mpr hknown, consistent_step h.2 hstep⟩
  · exact mt (routed_step_iff h.1 h.2 hstep).mp hunknown

/-- An answer that comes when the app page is shown without an app stops the watch. One
with the id of the watchface goes to an app that is still open behind it, and one with the id
of an app goes to it although the page was drawn anew without it. -/
theorem update_without_app_faults :
    let wfs : List Watchface := [⟨0⟩, ⟨1⟩]
    let weather : Application := ⟨1, some 4096⟩
    let update (app : UInt8) : AppUpdate := ⟨App.datedWeatherRequest, app, .fill _ 0⟩
    let opened := [.initUi, .handleRightActionOnRoot, .openApp .enter weather]
    let closed := opened ++ [.closeCurrApp, .sendAppUpdate (update 12)]
    let behind := opened ++ [.handleLeftActionOnRoot, .sendAppUpdate (update 2)]
    let redrawn := opened ++ [.handleLeftActionOnRoot, .handleRightActionOnRoot,
      .sendAppUpdate (update 12)]
    (∃ s, Machine.run uiStep (.boot wfs) closed = some s ∧ s.watch = .error .nullPointer ∧
        ¬ s.Routed) ∧
      (∃ s w, Machine.run uiStep (.boot wfs) behind = some s ∧ s.watch = .ok w ∧
        w.currWatchState = .watchface ∧ w.handled = [(weather, update 2)] ∧ ¬ s.Routed) ∧
      ∃ s w, Machine.run uiStep (.boot wfs) redrawn = some s ∧ s.watch = .ok w ∧
        w.currWatchState = .app ∧ w.drawnApp = none ∧ w.handled = [(weather, update 12)] ∧
        ¬ s.Routed := by
  intro wfs weather update opened closed behind redrawn
  refine ⟨⟨_, rfl, rfl, fun h => ?_⟩, ⟨_, _, rfl, rfl, rfl, rfl, fun h => ?_⟩,
    ⟨_, _, rfl, rfl, rfl, rfl, rfl, fun h => ?_⟩⟩
  · obtain ⟨w, hw⟩ := h.running
    cases hw
  · have hcall := congrArg Watch.handled (h.calls _ List.mem_cons_self)
    cases hcall
  · have hcall := congrArg Watch.handled (h.calls _ List.mem_cons_self)
    cases hcall

end MinimalWatch.Ui
