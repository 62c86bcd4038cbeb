import MinimalWatch.Lib.Heap
import MinimalWatch.Ui.Registry

/-! The picker of the app page, from appmgr_ui.c with the page changes of ui_manager.c. It is a
grid with a button for every registered application; the rows of the grid are described by an
array that is allocated for the page, and that LVGL reads whenever it lays the grid out. -/

namespace MinimalWatch.Ui
open Firmware

/-- A track of a grid; `LV_GRID_TEMPLATE_LAST` ends the description. -/
inductive GridTrack
  | px (height : Nat)
  | templateLast
  deriving DecidableEq, Repr

def GridTrack.isLast : GridTrack → Bool
  | .px _ => false
  | .templateLast => true

def gridColumnsPerRow : Nat := 2
def gridRowHeightPx : Nat := 80

/-- A button in its cell, with the application that `open_app` is given for it. -/
structure AppButton where
  col : UInt8
  row : UInt8
  app : Application
  deriving DecidableEq, Repr

/-- `cont`, with the description of its rows. -/
structure AppGrid where
  rowDsc : Nat
  buttons : List AppButton

/-- A pointer that is NULL is used, or memory that is not allocated or not written. -/
inductive PickerFault
  | nullPointer
  | memory
  deriving DecidableEq, Repr

structure Picker where
  watch : Watch
  /-- The registered part of `all_apps`. -/
  allApps : List Application
  heap : Heap GridTrack
  rowDsc : Option Nat
  /-- The grid, while it is on the app page. -/
  cont : Option AppGrid

def appButtons (apps : List Application) : List AppButton :=
  apps.mapIdx fun i app =>
    ⟨UInt8.ofNat (i % gridColumnsPerRow), UInt8.ofNat (i / gridColumnsPerRow), app⟩

def totalRows (apps : List Application) : Nat := (apps.length + 1) / gridColumnsPerRow

namespace Picker

def boot (r : Registry) : Picker := ⟨.boot r.wfs, r.apps, .empty, none, none⟩

/-- `lv_obj_update_layout`, which LVGL also calls by itself. -/
def updateLayout (p : Picker) : Except PickerFault Picker :=
  match p.cont with
  | none => .ok p
  | some cont =>
    match p.heap.readTo GridTrack.isLast cont.rowDsc with
    | none => .error .memory
    | some _ => .ok p

/-- `malloc` is what `lv_malloc` answers; the answer is not looked at. -/
def drawAppManagerUi (p : Picker) (malloc : Option Nat) : Except PickerFault Picker :=
  match malloc with
  | none => .error .nullPointer
  | some rowDsc =>
    let rows := totalRows p.allApps
    match ((p.heap.alloc rowDsc (rows + 1)).fill rowDsc rows (.px gridRowHeightPx)).bind
        fun heap => heap.write rowDsc rows .templateLast with
    | none => .error .memory
    | some heap =>
      { p with
        watch := { p.watch with appRootCont := true }
        heap := heap
        rowDsc := some rowDsc
        cont := some ⟨rowDsc, appButtons p.allApps⟩ }.updateLayout

/-- `lv_free` does nothing with NULL. -/
def delAppManagerUi (p : Picker) : Except PickerFault Picker :=
  let p := { p with watch := { p.watch with appRootCont := false } }
  match p.rowDsc with
  | none => .ok p
  | some rowDsc =>
    match p.heap.free rowDsc with
    | none => .error .memory
    | some heap => .ok { p with heap := heap }

/-! ### ui_manager.c -/

def closeCurrPage (p : Picker) : Except PickerFault Picker :=
  match p.watch.currWatchState with
  | .app => { p with watch := p.watch.cleanAppPage, cont := none }.delAppManagerUi
  | _ => .ok { p with watch := p.watch.closeCurrPage }

def showPage (p : Picker) (page : UiState) (malloc : Option Nat) : Except PickerFault Picker :=
  match page with
  | .app => p.drawAppManagerUi malloc
  | page =>
    match p.watch.showPage page with
    | .error .nullPointer => .error .nullPointer
    | .ok watch => .ok { p with watch := watch }

/-- What the two actions on the root do to get to a page. -/
def changePage (p : Picker) (page : UiState) (malloc : Option Nat) : Except PickerFault Picker :=
  match p.closeCurrPage with
  | .error fault => .error fault
  | .ok p => { p with watch := { p.watch with currWatchState := page } }.showPage page malloc

def handleRightActionOnRoot (p : Picker) (malloc : Option Nat) : Except PickerFault Picker :=
  if p.watch.currWatchState = .app then .ok p
  else p.changePage p.watch.currWatchState.next malloc

def handleLeftActionOnRoot (p : Picker) (malloc : Option Nat) : Except PickerFault Picker :=
  if p.watch.currWatchState = .notify then .ok p
  else p.changePage p.watch.currWatchState.prev malloc

def initUi (p : Picker) (malloc : Option Nat) : Except PickerFault Picker :=
  if p.watch.dState = .on then .ok p
  else
    { p with watch := { p.watch with dState := .on, currWatchState := .watchface } }.showPage
      .watchface malloc

def deinitUi (p : Picker) : Except PickerFault Picker :=
  if p.watch.dState = .on then
    match p.closeCurrPage with
    | .error fault => .error fault
    | .ok p => .ok { p with watch := { p.watch with dState := .off, currWatchState := .start } }
  else .ok p

/-- A key on a button of the grid. -/
def pressButton (p : Picker) (k : Nat) (key : LvKey) : Option Picker :=
  p.cont.bind fun cont => cont.buttons[k]?.map fun b =>
    { p with watch := p.watch.openApp key b.app }

end Picker

/-- A page change comes with what `lv_malloc` would answer. -/
inductive PickerAction
  | initUi (malloc : Option Nat)
  | deinitUi
  | handleRightActionOnRoot (malloc : Option Nat)
  | handleLeftActionOnRoot (malloc : Option Nat)
  | pressButton (k : Nat) (key : LvKey)
  | handleAppScrClose
  | updateLayout
  deriving DecidableEq, Repr

/-- A fault ends the run; the root acts only while the display is on. -/
def pickerStep (s : Except PickerFault Picker) (action : PickerAction) :
    Option (Except PickerFault Picker) :=
  match s with
  | .error _ => none
  | .ok p =>
    match action with
    | .initUi malloc => some (p.initUi malloc)
    | .deinitUi => some p.deinitUi
    | .handleRightActionOnRoot malloc =>
      if p.watch.dState = .on then some (p.handleRightActionOnRoot malloc) else none
    | .handleLeftActionOnRoot malloc =>
      if p.watch.dState = .on then some (p.handleLeftActionOnRoot malloc) else none
    | .pressButton k key => (p.pressButton k key).map .ok
    | .handleAppScrClose => some (.ok { p with watch := p.watch.handleAppScrClose })
    | .updateLayout => some p.updateLayout

/-! ### What the picker is for -/

/-- The number that a cell stands for in requests. -/
def AppButton.requestId (b : AppButton) : UInt8 :=
  UInt8.ofNat (maxWatchfaces + 1) + UInt8.ofNat gridColumnsPerRow * b.row + b.col

/-- The grid is there while the app page is, with one button for every application, each in
a cell of its own within the columns and the rows that LVGL reads, and no two with one number.
The description of the rows is allocated as long, and nothing else is. An open application is
one of the grid's: it asks with the number of its cell, and gets the answers with that number
and no others. It is never drawn without a container. -/
structure PickerRight (p : Picker) : Prop where
  shown : p.cont.isSome = true ↔ p.watch.currWatchState = .app
  root : p.watch.appRootCont = p.cont.isSome
  allocated : ∀ addr, (p.heap.blocks addr).isSome = true ↔
    p.cont.map AppGrid.rowDsc = some addr
  buttons : ∀ cont, p.cont = some cont →
    cont.buttons.map AppButton.app = p.allApps ∧
      (cont.buttons.map fun b => (b.row, b.col)).Nodup ∧
      (cont.buttons.map AppButton.requestId).Nodup ∧
      ∃ rows, p.heap.readTo GridTrack.isLast cont.rowDsc = some rows ∧
        ∀ b ∈ cont.buttons, b.row.toNat < rows.length ∧ b.col.toNat < gridColumnsPerRow
  opened : ∀ app, p.watch.currApp = some app → app ∈ p.allApps
  asks : ∀ cont app, p.cont = some cont → p.watch.currApp = some app →
    ∃ b ∈ cont.buttons, b.app = app ∧ p.watch.generateCurrAppId = .ok b.requestId ∧
      ∀ update, p.watch.sendAppUpdate update =
        .ok (if b.requestId = update.reqApp then p.watch.handOver app update else p.watch)

/-- No fault has ended the run. -/
def StaysRight (s : Except PickerFault Picker) : Prop := ∃ p, s = .ok p ∧ PickerRight p

/-- There is memory when the app page is drawn. -/
def MallocServes (s : Except PickerFault Picker) (action : PickerAction) : Prop :=
  action = .handleRightActionOnRoot none →
    ∀ p, s = .ok p → p.watch.currWatchState ≠ .watchface

instance (s : Except PickerFault Picker) (action : PickerAction) :
    Decidable (MallocServes s action) :=
  match s with
  | .error _ => .isTrue fun _ _ hp => nomatch hp
  | .ok p =>
    decidable_of_iff (action = .handleRightActionOnRoot none →
        p.watch.currWatchState ≠ .watchface)
      ⟨fun h hnone _ hq => Except.ok.inj hq ▸ h hnone, fun h hnone => h hnone p rfl⟩

/-! ### The buttons -/

/-- The applications are numbered as they stand in the table. -/
structure AppsNumbered (apps : List Application) : Prop where
  numbered : apps.map (·.appId.toNat) = List.range apps.length
  room : apps.length ≤ maxApps

theorem getElem?_appButtons (apps : List Application) (k : Nat) :
    (appButtons apps)[k]? = apps[k]?.map fun app =>
      ⟨UInt8.ofNat (k % gridColumnsPerRow), UInt8.ofNat (k / gridColumnsPerRow), app⟩ :=
  List.getElem?_mapIdx

theorem appButtons_apps (apps : List Application) :
    (appButtons apps).map AppButton.app = apps := by
  apply List.ext_getElem?
  intro k
  rw [List.getElem?_map, getElem?_appButtons, Option.map_map]
  cases apps[k]? <;> rfl

/-- What tells the places in the table differs from button to button. -/
theorem nodup_appButtons {apps : List Application} {β : Type*} {f : AppButton → β}
    (hf : ∀ (i j : Nat) a b, (appButtons apps)[i]? = some a → (appButtons apps)[j]? = some b →
      f a = f b → i = j) : ((appButtons apps).map f).Nodup := by
  refine List.pairwise_map.mpr (List.pairwise_iff_getElem.mpr fun i j hi hj hlt heq => ?_)
  exact absurd (hf i j _ _ (List.getElem?_eq_getElem hi) (List.getElem?_eq_getElem hj) heq)
    (Nat.ne_of_lt hlt)

namespace AppsNumbered
variable {apps : List Application}

/-- Where a button is in the grid. -/
theorem cell (h : AppsNumbered apps) {k : Nat} {b : AppButton}
    (hb : (appButtons apps)[k]? = some b) :
    k < apps.length ∧ b.row.toNat = k / 2 ∧ b.col.toNat = k % 2 ∧ apps[k]? = some b.app := by
  rw [getElem?_appButtons] at hb
  obtain ⟨app, happ, rfl⟩ := Option.map_eq_some_iff.mp hb
  have hlt := (List.getElem?_eq_some_iff.mp happ).1
  have hroom := h.room
  have hmax : maxApps = 15 := rfl
  refine ⟨hlt, ?_, ?_, happ⟩
  · change k / 2 % 256 = k / 2
    omega
  · change k % 2 % 256 = k % 2
    omega

theorem appId (h : AppsNumbered apps) {k : Nat} {app : Application} (happ : apps[k]? = some app) :
    app.appId.toNat = k := by
  have hk := congrArg (·[k]?) h.numbered
  have hlt := (List.getElem?_eq_some_iff.mp happ).1
  simp only [List.getElem?_map, happ, List.getElem?_range hlt, Option.map_some,
    Option.some.injEq] at hk
  exact hk

theorem requestId_toNat (h : AppsNumbered apps) {k : Nat} {b : AppButton}
    (hb : (appButtons apps)[k]? = some b) : b.requestId.toNat = maxWatchfaces + 1 + k := by
  obtain ⟨hlt, hrow, hcol, -⟩ := h.cell hb
  have hroom := h.room
  have hmax : maxApps = 15 := rfl
  simp only [AppButton.requestId, UInt8.toNat_add, UInt8.toNat_mul, UInt8.toNat_ofNat', hrow,
    hcol, maxWatchfaces, gridColumnsPerRow]
  omega

/-- The application's own number in requests is that of its cell. -/
theorem requestId_eq (h : AppsNumbered apps) {b : AppButton} (hb : b ∈ appButtons apps) :
    b.app.requestId = b.requestId := by
  obtain ⟨k, hk⟩ := List.mem_iff_getElem?.mp hb
  obtain ⟨hlt, -, -, happ⟩ := h.cell hk
  have hroom := h.room
  have hmax : maxApps = 15 := rfl
  rw [← UInt8.toNat_inj, h.requestId_toNat hk, Application.requestId, h.appId happ,
    UInt8.toNat_ofNat', maxWatchfaces]
  omega

theorem cells_nodup (h : AppsNumbered apps) :
    ((appButtons apps).map fun b => (b.row, b.col)).Nodup := by
  refine nodup_appButtons fun i j a b ha hb heq => ?_
  obtain ⟨-, hrow, hcol, -⟩ := h.cell ha
  obtain ⟨-, hrow', hcol', -⟩ := h.cell hb
  obtain ⟨hrows, hcols⟩ := Prod.mk.inj heq
  rw [hrows] at hrow
  rw [hcols] at hcol
  omega

theorem requestIds_nodup (h : AppsNumbered apps) :
    ((appButtons apps).map AppButton.requestId).Nodup := by
  refine nodup_appButtons fun i j a b ha hb heq => ?_
  have hi := h.requestId_toNat ha
  have hj := h.requestId_toNat hb
  rw [heq] at hi
  omega

theorem inside (h : AppsNumbered apps) {b : AppButton} (hb : b ∈ appButtons apps) :
    b.row.toNat < totalRows apps ∧ b.col.toNat < gridColumnsPerRow := by
  obtain ⟨k, hk⟩ := List.mem_iff_getElem?.mp hb
  obtain ⟨hlt, hrow, hcol, -⟩ := h.cell hk
  rw [hrow, hcol, totalRows, gridColumnsPerRow]
  omega

end AppsNumbered

/-! ### The pages -/

/-- The description of the rows, and nothing else. -/
def rowBlock (apps : List Application) (addr : Nat) : Heap GridTrack :=
  Heap.empty.put addr
    (.replicate (totalRows apps) (some (.px gridRowHeightPx)) ++ [some .templateLast])

theorem readTo_rowBlock (apps : List Application) (addr : Nat) :
    (rowBlock apps addr).readTo GridTrack.isLast addr =
      some (.replicate (totalRows apps) (.px gridRowHeightPx)) :=
  Heap.readTo_terminated _ _ _ rfl rfl

/-- What holds on every page, and between two. -/
structure Bare (p : Picker) : Prop where
  numbered : AppsNumbered p.allApps
  wf : p.watch.selectWf.isSome = true
  opened : ∀ app, p.watch.currApp = some app → app ∈ p.allApps

structure PickerInv (p : Picker) : Prop extends Bare p where
  page : p.watch.currWatchState ≠ .end_
  off : p.watch.dState ≠ .on → p.watch.currWatchState = .start
  root : p.watch.appRootCont = p.cont.isSome
  drawn : p.watch.currWatchState = .app → ∃ addr, p.rowDsc = some addr ∧
    p.heap = rowBlock p.allApps addr ∧ p.cont = some ⟨addr, appButtons p.allApps⟩
  away : p.watch.currWatchState ≠ .app → p.heap = .empty ∧ p.cont = none

theorem PickerInv.right {p : Picker} (h : PickerInv p) : PickerRight p := by
  by_cases hpage : p.watch.currWatchState = .app
  · obtain ⟨addr, -, hheap, hcont⟩ := h.drawn hpage
    refine ⟨?_, h.root, fun a => ?_, fun cont hsome => ?_, h.opened,
      fun cont app hsome happ => ?_⟩
    · simp [hcont, hpage]
    · rw [hheap, hcont, rowBlock, Heap.isSome_put_empty, Option.map_some, Option.some.injEq]
    · cases hcont.symm.trans hsome
      refine ⟨appButtons_apps _, h.numbered.cells_nodup, h.numbered.requestIds_nodup,
        .replicate (totalRows p.allApps) (.px gridRowHeightPx), ?_, fun b hb => ?_⟩
      · rw [hheap]
        exact readTo_rowBlock _ _
      · rw [List.length_replicate]
        exact h.numbered.inside hb
    · cases hcont.symm.trans hsome
      have hmem := h.opened app happ
      rw [← appButtons_apps p.allApps, List.mem_map] at hmem
      obtain ⟨b, hb, rfl⟩ := hmem
      have hid : p.watch.generateCurrAppId = .ok b.requestId := by
        rw [Watch.generateCurrAppId_app hpage, happ, ← h.numbered.requestId_eq hb]
        rfl
      refine ⟨b, hb, rfl, hid, fun update => ?_⟩
      rw [Watch.sendAppUpdate_id hid, happ, Option.elim_some]
  · obtain ⟨hheap, hcont⟩ := h.away hpage
    refine ⟨?_, h.root, fun a => ?_, fun cont hsome => ?_, h.opened, fun cont app hsome => ?_⟩
    · simp [hcont, hpage]
    · simp [hcont, hheap, Heap.empty]
    · cases hcont.symm.trans hsome
    · cases hcont.symm.trans hsome

namespace Picker
variable {p : Picker}

theorem drawAppManagerUi_some (h : p.heap = .empty) (addr : Nat) :
    p.drawAppManagerUi (some addr) = .ok { p with
      watch := { p.watch with appRootCont := true }
      heap := rowBlock p.allApps addr
      rowDsc := some addr
      cont := some ⟨addr, appButtons p.allApps⟩ } := by
  simp only [drawAppManagerUi, h, Heap.fill_terminated, updateLayout]
  rw [← rowBlock, readTo_rowBlock]

theorem closeCurrPage_ok (h : PickerInv p) :
    p.closeCurrPage =
      .ok { p with watch := p.watch.closeCurrPage, heap := .empty, cont := none } := by
  by_cases hpage : p.watch.currWatchState = .app
  · obtain ⟨addr, hrow, hheap, -⟩ := h.drawn hpage
    have hfree : p.heap.free addr = some .empty := by
      rw [hheap]
      exact Heap.free_put _ rfl
    simp only [closeCurrPage, hpage, delAppManagerUi, hrow, hfree, Watch.closeCurrPage]
  · obtain ⟨hheap, hcont⟩ := h.away hpage
    rw [← hheap, ← hcont, closeCurrPage]
    split
    · exact absurd ‹_› hpage
    · rfl

end Picker

/-- A page is shown after the last one has been closed. -/
theorem Bare.showPage {p : Picker} (h : Bare p) (hheap : p.heap = .empty) (hcont : p.cont = none)
    (hroot : p.watch.appRootCont = false) (hon : p.watch.dState = .on) {page : UiState}
    (hpage : p.watch.currWatchState = page) (hend : page ≠ .end_) {malloc : Option Nat}
    (hmalloc : page = .app → malloc ≠ none) :
    ∃ p', p.showPage page malloc = .ok p' ∧ PickerInv p' := by
  cases page with
  | app =>
    obtain ⟨addr, rfl⟩ := Option.ne_none_iff_exists'.mp (hmalloc rfl)
    refine ⟨_, Picker.drawAppManagerUi_some hheap addr, ⟨h.numbered, h.wf, h.opened⟩, ?_,
      absurd hon, rfl, fun _ => ⟨addr, rfl, rfl, rfl⟩, absurd hpage⟩
    simp [hpage]
  | watchface =>
    obtain ⟨wf, hwf⟩ := Option.isSome_iff_exists.mp h.wf
    refine ⟨{ p with watch := { p.watch with selectedWf := some wf } }, ?_,
      ⟨h.numbered, h.wf, h.opened⟩, ?_, absurd hon, ?_, ?_, fun _ => ⟨hheap, hcont⟩⟩
    · simp [Picker.showPage, Watch.showPage, hwf]
    · simp [hpage]
    · simp [hroot, hcont]
    · simp [hpage]
  | start | notify =>
    refine ⟨p, rfl, h, ?_, absurd hon, ?_, ?_, fun _ => ⟨hheap, hcont⟩⟩
    · simp [hpage]
    · simp [hroot, hcont]
    · simp [hpage]
  | end_ => exact absurd rfl hend

/-! ### Steps -/

theorem UiState.next_app {page : UiState} (h : page.next = .app) : page = .watchface := by
  cases page <;> first | rfl | cases h

theorem UiState.next_ne_end {page : UiState} (happ : page ≠ .app) (hend : page ≠ .end_) :
    page.next ≠ .end_ := by
  cases page with
  | app => exact absurd rfl happ
  | end_ => exact absurd rfl hend
  | _ => exact UiState.noConfusion

theorem UiState.prev_app {page : UiState} (h : page.prev = .app) : page = .end_ := by
  cases page <;> first | rfl | cases h

theorem UiState.prev_ne_end (page : UiState) : page.prev ≠ .end_ := by
  cases page <;> exact UiState.noConfusion

theorem closeCurrPage_spares (w : Watch) :
    w.closeCurrPage.allWfs = w.allWfs ∧ w.closeCurrPage.currApp = w.currApp ∧
      w.closeCurrPage.dState = w.dState := by
  rw [Watch.closeCurrPage]
  split <;> exact ⟨rfl, rfl, rfl⟩

theorem openApp_spares (w : Watch) (app : Application) :
    (w.openApp .enter app).allWfs = w.allWfs ∧
      (w.openApp .enter app).currWatchState = w.currWatchState ∧
      (w.openApp .enter app).dState = w.dState ∧
      (w.openApp .enter app).appRootCont = w.appRootCont ∧
      (w.openApp .enter app).currApp = some app := by
  rw [Watch.openApp, if_pos rfl, Watch.createAppScreen, Watch.drawApp]
  split_ifs <;> exact ⟨rfl, rfl, rfl, rfl, rfl⟩

theorem selectWf_congr {w w' : Watch} (h : w.allWfs = w'.allWfs) : w.selectWf = w'.selectWf :=
  congrArg (·[1]?) h

namespace PickerInv
variable {p : Picker}

/-- The page stays, and an application that is then open is one of the table. -/
theorem sameWatch (h : PickerInv p) {w : Watch} (hwfs : w.allWfs = p.watch.allWfs)
    (hpage : w.currWatchState = p.watch.currWatchState) (hdisplay : w.dState = p.watch.dState)
    (hroot : w.appRootCont = p.watch.appRootCont)
    (hopened : ∀ app, w.currApp = some app → app ∈ p.allApps) :
    PickerInv { p with watch := w } := by
  have hwf : w.selectWf.isSome = true := selectWf_congr hwfs ▸ h.wf
  refine ⟨⟨h.numbered, hwf, hopened⟩, ?_, ?_, hroot.trans h.root, ?_, ?_⟩
  · rw [hpage]
    exact h.page
  · rw [hpage, hdisplay]
    exact h.off
  · rw [hpage]
    exact h.drawn
  · rw [hpage]
    exact h.away

/-- What is left when the page has been closed. -/
theorem bare_closed (h : PickerInv p) (d : DisplayState) (page : UiState) :
    Bare { p with
      watch := { p.watch.closeCurrPage with dState := d, currWatchState := page }
      heap := .empty
      cont := none } := by
  obtain ⟨hwfs, happ, -⟩ := closeCurrPage_spares p.watch
  refine ⟨h.numbered, ?_, fun app hopen => h.opened app (happ ▸ hopen)⟩
  exact (congrArg Option.isSome (selectWf_congr hwfs)).trans h.wf

theorem closed_root (h : PickerInv p) : p.watch.closeCurrPage.appRootCont = false := by
  have haway : p.watch.currWatchState ≠ .app → p.watch.appRootCont = false := by
    intro hpage
    rw [h.root, (h.away hpage).2]
    rfl
  rw [Watch.closeCurrPage]
  split
  next hpage => exact haway (by rw [hpage]; exact UiState.noConfusion)
  next => rfl
  next hpage => exact haway hpage

theorem changePage (h : PickerInv p) (hon : p.watch.dState = .on) {page : UiState}
    (hend : page ≠ .end_) {malloc : Option Nat} (hmalloc : page = .app → malloc ≠ none) :
    ∃ p', p.changePage page malloc = .ok p' ∧ PickerInv p' := by
  obtain ⟨-, -, hdisplay⟩ := closeCurrPage_spares p.watch
  have hbare := h.bare_closed p.watch.closeCurrPage.dState page
  rw [Picker.changePage, p.closeCurrPage_ok h]
  exact hbare.showPage rfl rfl h.closed_root (hdisplay.trans hon) rfl hend hmalloc

theorem initUi (h : PickerInv p) (malloc : Option Nat) :
    ∃ p', p.initUi malloc = .ok p' ∧ PickerInv p' := by
  by_cases hon : p.watch.dState = .on
  · exact ⟨p, if_pos hon, h⟩
  · have hpage := h.off hon
    obtain ⟨hheap, hcont⟩ := h.away (by rw [hpage]; exact UiState.noConfusion)
    have hbare : Bare { p with
        watch := { p.watch with dState := .on, currWatchState := .watchface } } :=
      ⟨h.numbered, h.wf, h.opened⟩
    rw [Picker.initUi, if_neg hon]
    have hroot : p.watch.appRootCont = false := by
      rw [h.root, hcont]
      rfl
    exact hbare.showPage hheap hcont hroot rfl rfl UiState.noConfusion (fun happ => nomatch happ)

theorem deinitUi (h : PickerInv p) : ∃ p', p.deinitUi = .ok p' ∧ PickerInv p' := by
  by_cases hon : p.watch.dState = .on
  · rw [Picker.deinitUi, if_pos hon, p.closeCurrPage_ok h]
    exact ⟨_, rfl, h.bare_closed .off .start, UiState.noConfusion, fun _ => rfl, h.closed_root,
      (fun happ => nomatch happ), fun _ => ⟨rfl, rfl⟩⟩
  · exact ⟨p, if_neg hon, h⟩

theorem handleRightActionOnRoot (h : PickerInv p) (hon : p.watch.dState = .on)
    {malloc : Option Nat} (hmalloc : malloc = none → p.watch.currWatchState ≠ .watchface) :
    ∃ p', p.handleRightActionOnRoot malloc = .ok p' ∧ PickerInv p' := by
  rw [Picker.handleRightActionOnRoot]
  split_ifs with happ
  · exact ⟨p, rfl, h⟩
  · refine h.changePage hon ?_ fun hnext hnone => hmalloc hnone ?_
    · exact UiState.next_ne_end happ h.page
    · exact UiState.next_app hnext

theorem handleLeftActionOnRoot (h : PickerInv p) (hon : p.watch.dState = .on)
    (malloc : Option Nat) : ∃ p', p.handleLeftActionOnRoot malloc = .ok p' ∧ PickerInv p' := by
  rw [Picker.handleLeftActionOnRoot]
  split_ifs with hnotify
  · exact ⟨p, rfl, h⟩
  · exact h.changePage hon (UiState.prev_ne_end _) fun hprev =>
      absurd (UiState.prev_app hprev) h.page

theorem pressButton (h : PickerInv p) {k : Nat} {key : LvKey} {p' : Picker}
    (hpress : p.pressButton k key = some p') : PickerInv p' := by
  obtain ⟨cont, hcont, hmap⟩ := Option.bind_eq_some_iff.mp hpress
  obtain ⟨b, hb, rfl⟩ := Option.map_eq_some_iff.mp hmap
  have happs := (h.right.buttons cont hcont).1
  have hmem : b.app ∈ p.allApps :=
    happs ▸ List.mem_map_of_mem (List.mem_of_getElem? hb)
  by_cases hkey : key = .enter
  · subst hkey
    obtain ⟨hwfs, hpage, hdisplay, hroot, happ⟩ := openApp_spares p.watch b.app
    refine h.sameWatch hwfs hpage hdisplay hroot fun app hopen => ?_
    cases Option.some.inj (happ.symm.trans hopen)
    exact hmem
  · have hsame : p.watch.openApp key b.app = p.watch := if_neg hkey
    rw [hsame]
    exact h

theorem handleAppScrClose (h : PickerInv p) :
    PickerInv { p with watch := p.watch.handleAppScrClose } := by
  unfold Watch.handleAppScrClose
  split_ifs
  · unfold Watch.closeCurrApp
    split_ifs
    · exact h.sameWatch rfl rfl rfl rfl h.opened
    · exact h.sameWatch rfl rfl rfl rfl fun app hopen => nomatch hopen
  · exact h

theorem updateLayout (h : PickerInv p) : p.updateLayout = .ok p := by
  rw [Picker.updateLayout]
  cases hcont : p.cont with
  | none => rfl
  | some cont =>
    obtain ⟨-, -, -, rows, hrows, -⟩ := h.right.buttons cont hcont
    simp only [hrows]

end PickerInv

/-! ### Without the grid -/

namespace Picker
variable {p p' : Picker}

theorem updateLayout_eq (h : p.updateLayout = .ok p') : p' = p := by
  unfold updateLayout at h
  split at h
  · exact (Except.ok.inj h).symm
  · split at h
    · cases h
    · exact (Except.ok.inj h).symm

theorem drawAppManagerUi_watch {malloc : Option Nat} (h : p.drawAppManagerUi malloc = .ok p') :
    p'.watch = { p.watch with appRootCont := true } := by
  cases malloc with
  | none => cases h
  | some addr =>
    simp only [drawAppManagerUi] at h
    split at h
    · cases h
    · rw [updateLayout_eq h]

theorem delAppManagerUi_watch (h : p.delAppManagerUi = .ok p') :
    p'.watch = { p.watch with appRootCont := false } := by
  simp only [delAppManagerUi] at h
  split at h
  · rw [← Except.ok.inj h]
  · split at h
    · cases h
    · rw [← Except.ok.inj h]

theorem closeCurrPage_watch (h : p.closeCurrPage = .ok p') :
    p'.watch = p.watch.closeCurrPage := by
  unfold closeCurrPage at h
  split at h
  next happ =>
    rw [delAppManagerUi_watch h]
    simp only [Watch.closeCurrPage, happ]
  next => rw [← Except.ok.inj h]

theorem showPage_watch {page : UiState} {malloc : Option Nat}
    (h : p.showPage page malloc = .ok p') : p.watch.showPage page = .ok p'.watch := by
  unfold showPage at h
  split at h
  · rw [drawAppManagerUi_watch h]
    rfl
  · split at h
    · cases h
    next watch hwatch =>
      rw [hwatch, ← Except.ok.inj h]

theorem changePage_watch {page : UiState} {malloc : Option Nat}
    (h : p.changePage page malloc = .ok p') :
    { p.watch.closeCurrPage with currWatchState := page }.showPage page = .ok p'.watch := by
  unfold changePage at h
  split at h
  · cases h
  next closed hclosed =>
    rw [← closeCurrPage_watch hclosed]
    exact showPage_watch h

theorem handleRightActionOnRoot_watch {malloc : Option Nat}
    (h : p.handleRightActionOnRoot malloc = .ok p') :
    p.watch.handleRightActionOnRoot = .ok p'.watch := by
  unfold handleRightActionOnRoot at h
  rw [Watch.handleRightActionOnRoot]
  split_ifs at h ⊢ with happ
  · rw [Except.ok.inj h]
  · exact changePage_watch h

theorem handleLeftActionOnRoot_watch {malloc : Option Nat}
    (h : p.handleLeftActionOnRoot malloc = .ok p') :
    p.watch.handleLeftActionOnRoot = .ok p'.watch := by
  unfold handleLeftActionOnRoot at h
  rw [Watch.handleLeftActionOnRoot]
  split_ifs at h ⊢ with hnotify
  · rw [Except.ok.inj h]
  · exact changePage_watch h

theorem initUi_watch {malloc : Option Nat} (h : p.initUi malloc = .ok p') :
    p.watch.initUi = .ok p'.watch := by
  unfold initUi at h
  rw [Watch.initUi]
  split_ifs at h ⊢ with hon
  · rw [Except.ok.inj h]
  · exact showPage_watch h

theorem deinitUi_watch (h : p.deinitUi = .ok p') : p.watch.deinitUi = p'.watch := by
  unfold deinitUi at h
  rw [Watch.deinitUi]
  split_ifs at h ⊢ with hon
  · split at h
    · cases h
    next closed hclosed =>
      rw [← Except.ok.inj h, ← closeCurrPage_watch hclosed]
  · rw [Except.ok.inj h]

end Picker

/-- What an action of the picker is for the pages. -/
def PickerAction.uiAction (p : Picker) : PickerAction → Option UiAction
  | .initUi _ => some .initUi
  | .deinitUi => some .deinitUi
  | .handleRightActionOnRoot _ => some .handleRightActionOnRoot
  | .handleLeftActionOnRoot _ => some .handleLeftActionOnRoot
  | .pressButton k key =>
    (p.cont.bind fun cont => cont.buttons[k]?).map fun b => .openApp key b.app
  | .handleAppScrClose => some .handleAppScrClose
  | .updateLayout => none

theorem pickerStep_watch {p p' : Picker} {action : PickerAction}
    (h : pickerStep (.ok p) action = some (.ok p')) :
    Machine.run lvglStep p.watch (action.uiAction p).toList = some p'.watch := by
  have hrun : ∀ {ui w}, lvglStep p.watch ui = some w →
      Machine.run lvglStep p.watch [ui] = some w :=
    fun hw => (Machine.run_cons_eq_some lvglStep).mpr ⟨_, hw, rfl⟩
  cases action with
  | initUi malloc =>
    have hinit := Picker.initUi_watch (Option.some.inj h)
    exact hrun (congrArg Except.toOption hinit)
  | deinitUi => exact hrun (congrArg some (Picker.deinitUi_watch (Option.some.inj h)))
  | handleRightActionOnRoot malloc =>
    obtain ⟨hon, hright⟩ := Option.ite_none_right_eq_some.mp h
    have hwatch := Picker.handleRightActionOnRoot_watch (Option.some.inj hright)
    exact hrun ((if_pos hon).trans (congrArg Except.toOption hwatch))
  | handleLeftActionOnRoot malloc =>
    obtain ⟨hon, hleft⟩ := Option.ite_none_right_eq_some.mp h
    have hwatch := Picker.handleLeftActionOnRoot_watch (Option.some.inj hleft)
    exact hrun ((if_pos hon).trans (congrArg Except.toOption hwatch))
  | pressButton k key =>
    obtain ⟨q, hpress, hq⟩ := Option.map_eq_some_iff.mp h
    cases hq
    obtain ⟨cont, hcont, hmap⟩ := Option.bind_eq_some_iff.mp hpress
    obtain ⟨b, hb, rfl⟩ := Option.map_eq_some_iff.mp hmap
    rw [PickerAction.uiAction, hcont, Option.bind_some, hb]
    exact hrun rfl
  | handleAppScrClose =>
    cases Option.some.inj h
    exact hrun rfl
  | updateLayout =>
    rw [Picker.updateLayout_eq (Option.some.inj h)]
    rfl

/-- Every run of the picker is a run of the pages. -/
theorem picker_run_watch {p p' : Picker} {actions : List PickerAction}
    (h : Machine.run pickerStep (.ok p) actions = some (.ok p')) :
    ∃ uiActions, Machine.run lvglStep p.watch uiActions = some p'.watch := by
  induction actions generalizing p with
  | nil =>
    cases h
    exact ⟨[], rfl⟩
  | cons action rest ih =>
    obtain ⟨s, hstep, hrest⟩ := (Machine.run_cons_eq_some pickerStep).mp h
    cases s with
    | error fault =>
      cases rest with
      | nil => cases hrest
      | cons next rest =>
        obtain ⟨t, hnext, -⟩ := (Machine.run_cons_eq_some pickerStep).mp hrest
        cases hnext
    | ok q =>
      obtain ⟨uiActions, hui⟩ := ih hrest
      exact ⟨_, by rw [Machine.run_append, pickerStep_watch hstep, Option.bind_some, hui]⟩

theorem pickerInv_boot {r : Registry} {wfs apps : List Nat} (h : r.Holds wfs apps)
    (hroom : apps.length ≤ maxApps) (hwfs : 1 < r.wfs.length) : PickerInv (.boot r) := by
  have hids := h.appsNumbered.registered
  rw [← h.numApps, ← Registry.apps] at hids
  have hlen := congrArg List.length hids
  rw [List.length_map, List.length_range, h.numApps] at hlen
  refine ⟨⟨⟨?_, hlen ▸ hroom⟩, ?_, ?_⟩, UiState.noConfusion, fun _ => rfl, rfl, ?_,
    fun _ => ⟨rfl, rfl⟩⟩
  · exact hids.trans (congrArg List.range (h.numApps.trans hlen.symm))
  · exact congrArg Option.isSome (List.getElem?_eq_getElem hwfs)
  · intro app hopen
    cases hopen
  · intro happ
    cases happ

theorem pickerStep_inv {p : Picker} {action : PickerAction} {s' : Except PickerFault Picker}
    (h : PickerInv p) (hmalloc : MallocServes (.ok p) action)
    (hstep : pickerStep (.ok p) action = some s') : ∃ p', s' = .ok p' ∧ PickerInv p' := by
  cases action with
  | initUi malloc => exact Option.some.inj hstep ▸ h.initUi malloc
  | deinitUi => exact Option.some.inj hstep ▸ h.deinitUi
  | handleRightActionOnRoot malloc =>
    obtain ⟨hon, hright⟩ := Option.ite_none_right_eq_some.mp hstep
    refine Option.some.inj hright ▸ h.handleRightActionOnRoot hon fun hnone => ?_
    exact hmalloc (congrArg _ hnone) p rfl
  | handleLeftActionOnRoot malloc =>
    obtain ⟨hon, hleft⟩ := Option.ite_none_right_eq_some.mp hstep
    exact Option.some.inj hleft ▸ h.handleLeftActionOnRoot hon malloc
  | pressButton k key =>
    obtain ⟨p', hpress, rfl⟩ := Option.map_eq_some_iff.mp hstep
    exact ⟨p', rfl, h.pressButton hpress⟩
  | handleAppScrClose => exact ⟨_, (Option.some.inj hstep).symm, h.handleAppScrClose⟩
  | updateLayout => exact ⟨p, (Option.some.inj hstep).symm.trans h.updateLayout, h⟩

/-- Without memory the description of the rows is written through NULL. -/
theorem pickerStep_noMalloc {p : Picker} {action : PickerAction} {s' : Except PickerFault Picker}
    (h : PickerInv p) (hmalloc : ¬ MallocServes (.ok p) action)
    (hstep : pickerStep (.ok p) action = some s') : s' = .error .nullPointer := by
  obtain ⟨rfl, hp⟩ := Classical.not_imp.mp hmalloc
  have hpage : p.watch.currWatchState = .watchface := by
    by_contra hnot
    exact hp fun q hq => Except.ok.inj hq ▸ hnot
  obtain ⟨-, hright⟩ := Option.ite_none_right_eq_some.mp hstep
  rw [← Option.some.inj hright, Picker.handleRightActionOnRoot, hpage,
    if_neg UiState.noConfusion, Picker.changePage, p.closeCurrPage_ok h]
  rfl

/-- After the registrations, in any number and order within the tables and with a second
watchface, every run of the pages and of the keys on the picker leaves the picker right and has
no fault, exactly when there is memory each time the app page is drawn. -/
theorem picker_right_iff {calls : List Registry.RegisterCall} (hdistinct : calls.Nodup)
    (hroom : (Registry.appCalls calls).length ≤ maxApps) {wfs : Nat → Watchface}
    {apps : Nat → Application} {r : Registry}
    (hrun : Machine.run Registry.step (.boot wfs apps) calls = some r) (hwfs : 1 < r.wfs.length)
    (actions : List PickerAction) :
    Machine.Always pickerStep StaysRight (.ok (.boot r)) actions ↔
      Machine.EachStep pickerStep MallocServes (.ok (.boot r)) actions := by
  obtain ⟨wfs', apps', hholds, hlen⟩ := (Registry.holds_boot wfs apps).run hdistinct
    (fun _ ha => nomatch ha) (fun _ ha => nomatch ha) (by simpa using hroom) hrun
  refine @Machine.always_iff_eachStep _ _ pickerStep _ (fun s => ∃ p, s = .ok p ∧ PickerInv p)
    _ _ _ ⟨_, rfl, pickerInv_boot hholds hlen hwfs⟩ ?_ ?_ ?_
  · rintro s ⟨p, rfl, h⟩
    exact ⟨p, rfl, h.right⟩
  · rintro s action s' ⟨p, rfl, h⟩ hmalloc hstep
    exact pickerStep_inv h hmalloc hstep
  · rintro s action s' ⟨p, rfl, h⟩ hmalloc hstep ⟨q, hq, -⟩
    rw [pickerStep_noMalloc h hmalloc hstep] at hq
    cases hq

/-- The page is drawn twice at the same address, and an application is opened from it. -/
theorem picker_right_twice :
    let booted := Registry.boot (fun _ => ⟨0⟩) fun _ => ⟨0, none⟩
    let r := (((booted.addWf 0).addWf 1).addApp 4).addApp 5
    Machine.Always pickerStep StaysRight (.ok (.boot r))
      [.initUi none, .handleRightActionOnRoot (some 64), .pressButton 1 .enter, .updateLayout,
        .handleAppScrClose, .handleLeftActionOnRoot none, .handleRightActionOnRoot (some 64),
        .pressButton 0 .enter, .deinitUi] := by
  intro booted r
  have hrun : Machine.run Registry.step booted
      [.addWf 0, .addWf 1, .addApp 4, .addApp 5] = some r := rfl
  exact (picker_right_iff (by decide) (by decide) hrun (by decide) _).mpr (by decide)

end MinimalWatch.Ui
