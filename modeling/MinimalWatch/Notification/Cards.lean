import Mathlib.Tactic.Common
import MinimalWatch.Ble.NotificationPayload
import MinimalWatch.Ui.Pages

/-! The notification page of notification_ui.c: at most three cards on a window of the
store that begins at `noti_curr_base_idx`. A card keeps a pointer into the array of the
store and its place in the window; its labels keep the text they were drawn with. -/

namespace MinimalWatch.Notification
open Firmware
open Ble (cString)
open Ui (UiState DisplayState LvKey)

def visibleCards : UInt32 := 3

/-- `get_all_notifications` with the slot that the pointer is to; `none` is NULL. -/
def getAllNotificationsAt (s : Store) : UInt32 × Option Nat :=
  (UInt32.ofNat s.notiLen, if s.writeIdx ≥ maxNotification then none else some s.writeIdx)

structure CardText where
  title : List UInt8
  body : List UInt8
  deriving DecidableEq, Repr

def cardText (n : NotificationT) : CardText := ⟨cString n.appName, cString n.body⟩

def readSlot (s : Store) (pointer : Option Nat) : Option NotificationT :=
  pointer.bind fun slot => s.allNoti[slot]?

/-- A card with the entry of `card_data` that its callbacks are given. -/
structure Card where
  n : Option Nat
  idx : UInt32
  text : Option CardText
  deriving DecidableEq, Repr

structure Page where
  store : Store
  dState : DisplayState
  currWatchState : UiState
  /-- The cards on it; `none` is NULL. -/
  scrollContainer : Option (List Card)
  notiSnapshotLen : UInt32
  notiCurrBaseIdx : UInt32
  notifList : Option Nat

namespace Page

/-- Before `init_ui`. -/
def boot : Page where
  store := Store.init
  dState := .disInvalid
  currWatchState := .start
  scrollContainer := none
  notiSnapshotLen := 0
  notiCurrBaseIdx := 0
  notifList := none

/-! ### notification_ui.c -/

def displayCardLen (p : Page) : UInt32 :=
  if p.notiSnapshotLen < p.notiCurrBaseIdx + visibleCards then p.notiSnapshotLen
  else visibleCards + p.notiCurrBaseIdx

def card (p : Page) (i : Nat) : Card :=
  let data := p.notifList.map (· + i)
  { n := data
    idx := UInt32.ofNat i - p.notiCurrBaseIdx
    text := (readSlot p.store data).map cardText }

/-- The loop from `noti_curr_base_idx` up to `display_card_len`. -/
def cards (p : Page) : List Card :=
  (List.range' p.notiCurrBaseIdx.toNat
    (p.displayCardLen.toNat - p.notiCurrBaseIdx.toNat)).map p.card

/-- On a container that is empty. -/
def populateCards (p : Page) : Page := { p with scrollContainer := some p.cards }

def takeSnapshot (p : Page) : Page :=
  { p with
    notiSnapshotLen := (getAllNotificationsAt p.store).1
    notifList := (getAllNotificationsAt p.store).2 }

def notificationUiInvalidate (p : Page) : Page :=
  match p.scrollContainer with
  | none => p
  | some _ => p.takeSnapshot.populateCards

def drawNotificationUi (p : Page) : Page := p.takeSnapshot.populateCards

def delNotificationUi (p : Page) : Page := { p with scrollContainer := none }

def rebaseAndPopulateCards (p : Page) (idx : UInt32) : Page :=
  if idx = 0 then
    if p.notiCurrBaseIdx = 0 then p
    else { p with notiCurrBaseIdx := p.notiCurrBaseIdx - 1 }.populateCards
  else if idx = visibleCards - 1 then
    if idx + p.notiCurrBaseIdx + 1 ≥ p.notiSnapshotLen then p
    else { p with notiCurrBaseIdx := p.notiCurrBaseIdx + 1 }.populateCards
  else p.populateCards

def cardActionCb (p : Page) (card : Card) : LvKey → Page
  | .right => if card.idx = visibleCards - 1 then p.rebaseAndPopulateCards card.idx else p
  | .left => if card.idx = 0 then p.rebaseAndPopulateCards card.idx else p
  | _ => p

/-- A call through `dismiss_handler`; `none` for NULL and for code that is not known. -/
def callDismissHandler (s : Store) (idx : UInt32) : Option Handler → Option Store
  | some .dismissNotification => some (dismissNotification s idx.toNat)
  | some .notificationInit => some s
  | _ => none

/-- The base index that `dismiss_handler_cb` leaves; the clamp compares an unsigned value
with zero. -/
def dismissedBase (p : Page) : UInt32 :=
  let base :=
    if p.notiCurrBaseIdx + visibleCards ≥ p.notiSnapshotLen then
      if p.notiCurrBaseIdx - 1 < 0 then 0 else p.notiCurrBaseIdx - 1
    else p.notiCurrBaseIdx
  if p.notiSnapshotLen ≤ visibleCards then 0 else base

def dismissHandlerCb (p : Page) (data : Card) : Option Page :=
  (readSlot p.store data.n).bind fun n =>
    (callDismissHandler p.store (data.idx + p.notiCurrBaseIdx) n.dismissHandler).map fun store =>
      { p with store := store, notiCurrBaseIdx := p.dismissedBase }.notificationUiInvalidate

/-! ### ui_manager.c -/

def updateNotificationUi (p : Page) : Page :=
  if p.currWatchState = .notify then p.notificationUiInvalidate else p

def closeCurrPage (p : Page) : Page :=
  if p.currWatchState = .notify then p.delNotificationUi else p

def showPage (p : Page) (page : UiState) : Page :=
  if page = .notify then p.drawNotificationUi else p

def changePage (p : Page) (page : UiState) : Page :=
  { p.closeCurrPage with currWatchState := page }.showPage page

def handleRightActionOnRoot (p : Page) : Page :=
  if p.currWatchState = .app then p else p.changePage p.currWatchState.next

def handleLeftActionOnRoot (p : Page) : Page :=
  if p.currWatchState = .notify then p else p.changePage p.currWatchState.prev

def initUi (p : Page) : Page :=
  if p.dState = .on then p
  else { p with dState := .on, currWatchState := .watchface }.showPage .watchface

def deinitUi (p : Page) : Page :=
  if p.dState = .on then { p.closeCurrPage with dState := .off, currWatchState := .start } else p

/-! ### Steps -/

/-- `key` and `dismiss` are on the card at a position of the container. -/
inductive LvglAction
  | initUi
  | deinitUi
  | rightOnRoot
  | leftOnRoot
  | key (position : Nat) (key : LvKey)
  | dismiss (position : Nat)
  deriving DecidableEq, Repr

def drawnCards (p : Page) : List Card := p.scrollContainer.getD []

/-- The root screen is there while the display is on. -/
def lvglStep (p : Page) : LvglAction → Option Page
  | .initUi => some p.initUi
  | .deinitUi => some p.deinitUi
  | .rightOnRoot => if p.dState = .on then some p.handleRightActionOnRoot else none
  | .leftOnRoot => if p.dState = .on then some p.handleLeftActionOnRoot else none
  | .key position key => p.drawnCards[position]?.map fun card => p.cardActionCb card key
  | .dismiss position => p.drawnCards[position]?.bind p.dismissHandlerCb

def receive (p : Page) (noti : NotificationT) : Page :=
  { p with store := receiveNotification p.store noti }

inductive PageAction
  | arrive (noti : NotificationT)
  | lvgl (action : LvglAction)

/-- An arrival updates the store and the page in one step. -/
def pageStep (p : Page) : PageAction → Option Page
  | .arrive noti => some (p.receive noti).updateNotificationUi
  | .lvgl action => p.lvglStep action

/-! ### The window -/

/-- A base index for a list of `len` entries: at its start, or with a full window behind. -/
def Based (base : UInt32) (len : Nat) : Prop := base = 0 ∨ base.toNat + visibleCards.toNat ≤ len

/-- Where a list of `len` entries begins in the array, filled from the top down. -/
def pointerTo (len : Nat) : Option Nat := if len = 0 then none else some (maxNotification - len)

/-- What holds of the page at all times, also while its cards are out of date. -/
structure Sound (p : Page) : Prop where
  shown : p.scrollContainer ≠ none ↔ p.currWatchState = .notify
  off : p.dState ≠ .on → p.currWatchState ≠ .notify
  handled : ∀ n ∈ notifications p.store, n.dismissHandler = some .dismissNotification
  counted : p.notiSnapshotLen.toNat ≤ p.store.notiLen
  listed : p.notifList = pointerTo p.notiSnapshotLen.toNat
  based : Based p.notiCurrBaseIdx p.notiSnapshotLen.toNat

/-- The length and the pointer that the page keeps are those of the store. -/
structure Current (p : Page) : Prop where
  len : p.notiSnapshotLen = (getAllNotificationsAt p.store).1
  list : p.notifList = (getAllNotificationsAt p.store).2

/-- The page is closed, or its cards are those that a refresh would draw. -/
def Fresh (p : Page) : Prop :=
  p.scrollContainer ≠ none → p.Current ∧ p.scrollContainer = some p.cards

theorem current_takeSnapshot (p : Page) : p.takeSnapshot.Current := ⟨rfl, rfl⟩

theorem fresh_populate {p : Page} (h : p.Current) : p.populateCards.Fresh :=
  fun _ => ⟨⟨h.len, h.list⟩, rfl⟩

theorem invalidate_drawn {p : Page} (h : p.scrollContainer ≠ none) :
    p.notificationUiInvalidate = p.takeSnapshot.populateCards := by
  rw [notificationUiInvalidate]
  cases hcards : p.scrollContainer with
  | none => exact absurd hcards h
  | some cards => rfl

theorem fresh_invalidate (p : Page) : p.notificationUiInvalidate.Fresh := by
  rw [notificationUiInvalidate]
  cases hcards : p.scrollContainer with
  | none => exact fun h => absurd hcards h
  | some cards => exact fresh_populate p.current_takeSnapshot

theorem store_len_le (s : Store) : s.notiLen ≤ 20 := by
  have hb := s.balanced
  have hmax : maxNotification = 20 := rfl
  omega

theorem snapshotLen_toNat (s : Store) : (getAllNotificationsAt s).1.toNat = s.notiLen := by
  have hlen := store_len_le s
  exact UInt32.toNat_ofNat_of_lt' (by change s.notiLen < 4294967296; omega)

/-- The list that the store hands out is what lies behind the pointer. -/
theorem getAllNotifications_eq (s : Store) :
    getAllNotifications s = ((getAllNotificationsAt s).1.toNat,
      (getAllNotificationsAt s).2.map (Slots.live s.allNoti)) := by
  rw [snapshotLen_toNat, getAllNotifications, getAllNotificationsAt]
  split_ifs <;> rfl

theorem notiList_eq (s : Store) : (getAllNotificationsAt s).2 = pointerTo s.notiLen := by
  have hb := s.balanced
  simp only [getAllNotificationsAt, pointerTo]
  by_cases hempty : s.notiLen = 0
  · have hnull : s.writeIdx ≥ maxNotification := by omega
    rw [if_pos hnull, if_pos hempty]
  · have hslot : ¬ s.writeIdx ≥ maxNotification := by omega
    rw [if_neg hslot, if_neg hempty]
    congr 1
    omega

theorem pointerTo_inj {len len' : Nat} (hlen : len ≤ 20) (hlen' : len' ≤ 20)
    (h : pointerTo len = pointerTo len') : len = len' := by
  have hmax : maxNotification = 20 := rfl
  rw [pointerTo, pointerTo] at h
  split_ifs at h with hzero hzero'
  · rw [hzero, hzero']
  · have hsub := Option.some.inj h
    omega

/-- The pointer alone tells whether both are those of the store. -/
theorem Sound.current {p : Page} (h : p.Sound)
    (hlist : p.notifList = (getAllNotificationsAt p.store).2) : p.Current := by
  have hle := store_len_le p.store
  have hcounted := h.counted
  refine ⟨?_, hlist⟩
  rw [← UInt32.toNat_inj, snapshotLen_toNat]
  rw [h.listed, notiList_eq] at hlist
  exact pointerTo_inj (by omega) hle hlist

theorem based_bound {base : UInt32} {len : Nat} (h : Based base len) (hlen : len ≤ 20) :
    base.toNat ≤ 17 := by
  rcases h with rfl | h
  · exact Nat.zero_le _
  · have hthree : visibleCards.toNat = 3 := rfl
    omega

/-- How many cards there are. -/
theorem displayCardLen_toNat {p : Page} (h : Based p.notiCurrBaseIdx p.notiSnapshotLen.toNat)
    (hlen : p.notiSnapshotLen.toNat ≤ 20) :
    p.displayCardLen.toNat = min p.notiSnapshotLen.toNat (p.notiCurrBaseIdx.toNat + 3) := by
  have hbase := based_bound h hlen
  have hend : (p.notiCurrBaseIdx + visibleCards).toNat = p.notiCurrBaseIdx.toNat + 3 := by
    rw [UInt32.toNat_add, Nat.mod_eq_of_lt]
    · rfl
    · change p.notiCurrBaseIdx.toNat + 3 < 4294967296
      omega
  rw [displayCardLen, UInt32.add_comm visibleCards]
  split_ifs with hfew
  · rw [UInt32.lt_iff_toNat_lt] at hfew
    omega
  · rw [UInt32.lt_iff_toNat_lt] at hfew
    omega

/-- The drawn notifications. -/
def shownNotifications (p : Page) : List NotificationT :=
  ((notifications p.store).drop p.notiCurrBaseIdx.toNat).take 3

/-- A card for a place of the list: it points to the entry there and shows its text. -/
structure CardOf (p : Page) (position : Nat) (n : NotificationT) (card : Card) : Prop where
  data : readSlot p.store card.n = some n
  idx : card.idx.toNat = position
  text : card.text = some (cardText n)

theorem card_of {p : Page} (hlist : p.notifList = pointerTo p.store.notiLen)
    (hbase : p.notiCurrBaseIdx.toNat ≤ 17) {k : Nat} {n : NotificationT}
    (hn : (notifications p.store)[p.notiCurrBaseIdx.toNat + k]? = some n) :
    p.CardOf k n (p.card (p.notiCurrBaseIdx.toNat + k)) := by
  have hb := p.store.balanced
  have hmax : maxNotification = 20 := rfl
  obtain ⟨hk, -⟩ := List.getElem?_eq_some_iff.mp hn
  rw [notifications_length] at hk
  have hdata : readSlot p.store (p.card (p.notiCurrBaseIdx.toNat + k)).n = some n := by
    rw [getElem?_notifications] at hn
    rw [card, hlist, pointerTo, if_neg (by omega), readSlot, Option.map_some, Option.bind_some,
      ← hn]
    congr 1
    omega
  refine ⟨hdata, ?_, congrArg (Option.map cardText) hdata⟩
  have hplace : (UInt32.ofNat (p.notiCurrBaseIdx.toNat + k)).toNat = p.notiCurrBaseIdx.toNat + k :=
    UInt32.toNat_ofNat_of_lt' (by change _ < 4294967296; omega)
  rw [card, UInt32.toNat_sub_of_le, hplace]
  · omega
  · rw [UInt32.le_iff_toNat_le, hplace]
    exact Nat.le_add_right _ k

theorem getElem?_shown (p : Page) {k : Nat} (hk : k < 3) :
    p.shownNotifications[k]? = (notifications p.store)[p.notiCurrBaseIdx.toNat + k]? := by
  rw [shownNotifications, List.getElem?_take_of_lt hk, List.getElem?_drop]

theorem shown_length (p : Page) :
    p.shownNotifications.length = min 3 (p.store.notiLen - p.notiCurrBaseIdx.toNat) := by
  rw [shownNotifications, List.length_take, List.length_drop, notifications_length]

/-- Cards that are up to date are those of the notifications in the window. -/
theorem cards_shown {p : Page} (h : p.Sound) (hcurrent : p.Current) :
    p.cards.length = p.shownNotifications.length ∧
      ∀ k card, p.cards[k]? = some card →
        ∃ n, p.shownNotifications[k]? = some n ∧ p.CardOf k n card := by
  have hlen : p.notiSnapshotLen.toNat = p.store.notiLen := by
    rw [hcurrent.len, snapshotLen_toNat]
  have hle := store_len_le p.store
  have hbase := based_bound h.based (by omega)
  have hend := displayCardLen_toNat h.based (by omega)
  have hlist : p.notifList = pointerTo p.store.notiLen := by rw [hcurrent.list, notiList_eq]
  have hcount : p.displayCardLen.toNat - p.notiCurrBaseIdx.toNat =
      min 3 (p.store.notiLen - p.notiCurrBaseIdx.toNat) := by
    omega
  have hlength : p.cards.length = min 3 (p.store.notiLen - p.notiCurrBaseIdx.toNat) := by
    rw [cards, List.length_map, List.length_range', hcount]
  refine ⟨by rw [hlength, shown_length], fun k card hcard => ?_⟩
  have hk := (List.getElem?_eq_some_iff.mp hcard).1
  rw [hlength] at hk
  have hn : p.notiCurrBaseIdx.toNat + k < (notifications p.store).length := by
    rw [notifications_length]
    omega
  refine ⟨(notifications p.store)[p.notiCurrBaseIdx.toNat + k], ?_, ?_⟩
  · rw [getElem?_shown p (by omega), List.getElem?_eq_getElem hn]
  · rw [cards, List.getElem?_map, List.getElem?_range' (by omega), Option.map_some, one_mul]
      at hcard
    rw [← Option.some.inj hcard]
    exact card_of hlist hbase (List.getElem?_eq_getElem hn)

/-! ### What the callbacks do -/

/-- A refresh of an open page. -/
theorem Sound.redraw {p : Page} (hshown : p.currWatchState = .notify)
    (hoff : p.dState ≠ .on → p.currWatchState ≠ .notify)
    (hhandled : ∀ n ∈ notifications p.store, n.dismissHandler = some .dismissNotification)
    (hbased : Based p.notiCurrBaseIdx p.store.notiLen) : p.takeSnapshot.populateCards.Sound where
  shown := ⟨fun _ => hshown, fun _ => Option.some_ne_none _⟩
  off := hoff
  handled := hhandled
  counted := Nat.le_of_eq (snapshotLen_toNat p.store)
  listed := by
    change (getAllNotificationsAt p.store).2 = pointerTo (getAllNotificationsAt p.store).1.toNat
    rw [snapshotLen_toNat, notiList_eq]
  based := by
    change Based p.notiCurrBaseIdx (getAllNotificationsAt p.store).1.toNat
    rwa [snapshotLen_toNat]

theorem Based.mono {base : UInt32} {len len' : Nat} (h : Based base len) (hle : len ≤ len') :
    Based base len' := by
  rcases h with h | h
  · exact .inl h
  · exact .inr (Nat.le_trans h hle)

theorem Sound.invalidate {p : Page} (h : p.Sound) : p.notificationUiInvalidate.Sound := by
  rw [notificationUiInvalidate]
  cases hcards : p.scrollContainer with
  | none => exact h
  | some cards =>
    have hshown := h.shown.mp (hcards ▸ Option.some_ne_none cards)
    exact Sound.redraw hshown h.off h.handled (h.based.mono h.counted)

/-- Moving the base index by a card. -/
theorem Sound.rebase {p : Page} (h : p.Sound) (hdrawn : p.scrollContainer ≠ none) {base : UInt32}
    (hbased : Based base p.notiSnapshotLen.toNat) :
    { p with notiCurrBaseIdx := base }.populateCards.Sound where
  shown := ⟨fun _ => h.shown.mp hdrawn, fun _ => Option.some_ne_none _⟩
  off := h.off
  handled := h.handled
  counted := h.counted
  listed := h.listed
  based := hbased

theorem based_pred {base : UInt32} {len : Nat} (h : Based base len) (hbase : base ≠ 0)
    (hlen : len ≤ 20) : Based (base - 1) (len - 1) := by
  rcases h with h | h
  · exact absurd h hbase
  · refine .inr ?_
    have hthree : visibleCards.toNat = 3 := rfl
    have hone : (1 : UInt32).toNat = 1 := rfl
    have hpos : base.toNat ≠ 0 := fun hzero => hbase (UInt32.toNat_inj.mp hzero)
    rw [UInt32.toNat_sub_of_le _ _ (UInt32.le_iff_toNat_le.mpr (by omega))]
    omega

theorem based_succ {base len : UInt32} (h : Based base len.toNat) (hlen : len.toNat ≤ 20)
    (hroom : ¬ visibleCards - 1 + base + 1 ≥ len) : Based (base + 1) len.toNat := by
  have hbase := based_bound h hlen
  have hthree : visibleCards.toNat = 3 := rfl
  have hone : (1 : UInt32).toNat = 1 := rfl
  have htwo : (visibleCards - 1).toNat = 2 := rfl
  refine .inr ?_
  rw [ge_iff_le, UInt32.le_iff_toNat_le] at hroom
  simp only [UInt32.toNat_add, hone, htwo] at hroom ⊢
  omega

theorem dismissedBase_based {p : Page} (h : Based p.notiCurrBaseIdx p.notiSnapshotLen.toNat)
    (hlen : p.notiSnapshotLen.toNat ≤ 20) :
    Based p.dismissedBase (p.notiSnapshotLen.toNat - 1) := by
  have hbase := based_bound h hlen
  have hthree : visibleCards.toNat = 3 := rfl
  rw [dismissedBase, if_neg UInt32.not_lt_zero]
  by_cases hfew : p.notiSnapshotLen ≤ visibleCards
  · rw [if_pos hfew]
    exact .inl rfl
  · rw [if_neg hfew]
    rw [UInt32.le_iff_toNat_le] at hfew
    by_cases hlast : p.notiCurrBaseIdx + visibleCards ≥ p.notiSnapshotLen
    · rw [if_pos hlast]
      rw [ge_iff_le, UInt32.le_iff_toNat_le, UInt32.toNat_add] at hlast
      refine based_pred h (fun hzero => ?_) hlen
      rw [hzero, UInt32.toNat_zero] at hlast
      omega
    · rw [if_neg hlast]
      rw [ge_iff_le, UInt32.le_iff_toNat_le, UInt32.toNat_add] at hlast
      exact .inr (by omega)

theorem invalidate_store (p : Page) : p.notificationUiInvalidate.store = p.store := by
  rw [notificationUiInvalidate]
  cases p.scrollContainer <;> rfl

/-- A card that is up to date calls `dismiss_notification` with the index of its own entry. -/
theorem dismissHandlerCb_eq {p : Page} (h : p.Sound) {k : Nat} {n : NotificationT} {card : Card}
    (hcard : p.CardOf k n card)
    (hn : (notifications p.store)[p.notiCurrBaseIdx.toNat + k]? = some n) :
    p.dismissHandlerCb card = some
      { p with
        store := dismissNotification p.store (p.notiCurrBaseIdx.toNat + k)
        notiCurrBaseIdx := p.dismissedBase }.notificationUiInvalidate := by
  have hlt := (List.getElem?_eq_some_iff.mp hn).1
  have hle := store_len_le p.store
  rw [notifications_length] at hlt
  have hindex : (card.idx + p.notiCurrBaseIdx).toNat = p.notiCurrBaseIdx.toNat + k := by
    rw [UInt32.toNat_add, hcard.idx]
    omega
  rw [dismissHandlerCb, hcard.data, Option.bind_some, h.handled n (List.mem_of_getElem? hn),
    callDismissHandler, hindex, Option.map_some]

theorem dismiss_erases {s : Store} {idx : Nat} {n : NotificationT}
    (hn : (notifications s)[idx]? = some n) :
    notifications (dismissNotification s idx) = (notifications s).eraseIdx idx := by
  rw [notifications_dismiss, specDismiss, if_pos (List.getElem?_eq_some_iff.mp hn).1]

/-- A dismissal that removes an entry leaves a page that is in order and up to date. -/
theorem Sound.dismissed {p : Page} (h : p.Sound) (hcurrent : p.Current)
    (hdrawn : p.scrollContainer ≠ none) {idx : Nat} {n : NotificationT}
    (hn : (notifications p.store)[idx]? = some n) :
    { p with
      store := dismissNotification p.store idx
      notiCurrBaseIdx := p.dismissedBase }.notificationUiInvalidate.Sound := by
  have hlen : p.notiSnapshotLen.toNat = p.store.notiLen := by
    rw [hcurrent.len, snapshotLen_toNat]
  have hle := store_len_le p.store
  have herased := dismiss_erases hn
  rw [invalidate_drawn (by exact hdrawn)]
  refine Sound.redraw (h.shown.mp hdrawn) h.off (fun m hm => ?_) ?_
  · rw [herased] at hm
    exact h.handled m (List.mem_of_mem_eraseIdx hm)
  · have hlength := congrArg List.length herased
    rw [List.length_eraseIdx_of_lt (List.getElem?_eq_some_iff.mp hn).1, notifications_length,
      notifications_length] at hlength
    rw [hlength, ← hlen]
    exact dismissedBase_based h.based (by omega)

theorem assignHandlers_dismissHandler (n : NotificationT) :
    (assignHandlers n).dismissHandler = some .dismissNotification := by
  rw [assignHandlers]
  split <;> rfl

theorem receive_handled {s : Store} {noti : NotificationT}
    (h : ∀ n ∈ notifications s, n.dismissHandler = some .dismissNotification) :
    ∀ n ∈ notifications (receiveNotification s noti),
      n.dismissHandler = some .dismissNotification := by
  intro n hn
  by_cases hfull : s.notiLen = maxNotification
  · rw [notifications_receive_full s noti hfull, List.mem_cons, List.mem_append] at hn
    rcases hn with rfl | hn | hn
    · exact assignHandlers_dismissHandler noti
    · exact h n (List.mem_of_mem_drop hn)
    · exact h n (List.mem_of_mem_drop hn)
  · have hb := s.balanced
    rw [notifications_receive_room s noti (by omega), specReceive] at hn
    rcases List.mem_cons.mp (List.mem_of_mem_take hn) with rfl | hn
    · exact assignHandlers_dismissHandler noti
    · exact h n hn

theorem receive_len (s : Store) (noti : NotificationT) :
    s.notiLen ≤ (receiveNotification s noti).notiLen := by
  have hb := s.balanced
  have hpos := dropLastNotification_writeIdx s
  have hb' := (dropLastNotification s).balanced
  change s.notiLen ≤ (dropLastNotification s).notiLen + 1
  rw [dropLastNotification] at *
  split_ifs at * with hfull
  · simp only
    omega
  · omega

theorem Sound.receive {p : Page} (h : p.Sound) (noti : NotificationT) : (p.receive noti).Sound where
  shown := h.shown
  off := h.off
  handled := receive_handled h.handled
  counted := Nat.le_trans h.counted (receive_len p.store noti)
  listed := h.listed
  based := h.based

theorem Sound.update {p : Page} (h : p.Sound) : p.updateNotificationUi.Sound := by
  rw [updateNotificationUi]
  split_ifs
  · exact h.invalidate
  · exact h

theorem Sound.fresh_update {p : Page} (h : p.Sound) : p.updateNotificationUi.Fresh := by
  rw [updateNotificationUi]
  split_ifs with hnotify
  · exact fresh_invalidate p
  · exact fun hdrawn => absurd (h.shown.mp hdrawn) hnotify

/-! ### Pages opened and left -/

theorem Sound.closed {p : Page} (h : p.Sound) :
    p.closeCurrPage = { p with scrollContainer := none } := by
  rw [closeCurrPage]
  split_ifs with hnotify
  · rfl
  · have hnone : p.scrollContainer = none := by
      by_contra hdrawn
      exact hnotify (h.shown.mp hdrawn)
    rw [← hnone]

/-- What a callback leaves: a page in order, up to date if it was so before, and unless it
is the same page, up to date as soon as its pointer is. -/
structure Follows (p p' : Page) : Prop where
  sound : p'.Sound
  fresh : p.Fresh → p'.Fresh
  redrawn : p' = p ∨ (p'.Current → p'.Fresh)

theorem Follows.same {p : Page} (h : p.Sound) : p.Follows p := ⟨h, id, .inl rfl⟩

theorem Follows.drawn {p p' : Page} (h : p'.Sound) (hfresh : p'.Fresh) : p.Follows p' :=
  ⟨h, fun _ => hfresh, .inr fun _ => hfresh⟩

theorem Follows.closed {p p' : Page} (h : p'.Sound) (hclosed : p'.scrollContainer = none) :
    p.Follows p' := Follows.drawn h fun hdrawn => absurd hclosed hdrawn

theorem follows_changePage {p : Page} (h : p.Sound) (hon : p.dState = .on) (page : UiState) :
    p.Follows (p.changePage page) := by
  have hbased := h.based.mono h.counted
  rw [changePage, h.closed, showPage]
  split_ifs with hnotify
  · refine Follows.drawn ?_ (fresh_populate (current_takeSnapshot _))
    exact Sound.redraw hnotify (fun hoff => absurd hon hoff) h.handled hbased
  · refine Follows.closed ⟨?_, fun hoff => absurd hon hoff, h.handled, h.counted, h.listed,
      h.based⟩ rfl
    exact ⟨fun hdrawn => absurd rfl hdrawn, fun heq => absurd heq hnotify⟩

theorem follows_initUi {p : Page} (h : p.Sound) : p.Follows p.initUi := by
  rw [initUi]
  split_ifs with hon
  · exact Follows.same h
  · have hclosed : p.scrollContainer = none := by
      by_contra hdrawn
      exact h.off hon (h.shown.mp hdrawn)
    refine Follows.closed ⟨?_, fun hoff => absurd rfl hoff, h.handled, h.counted, h.listed,
      h.based⟩ hclosed
    exact ⟨fun hdrawn => absurd hclosed hdrawn, fun heq => nomatch heq⟩

theorem follows_deinitUi {p : Page} (h : p.Sound) : p.Follows p.deinitUi := by
  rw [deinitUi]
  split_ifs with hon
  · rw [h.closed]
    refine Follows.closed ⟨?_, fun _ => UiState.noConfusion, h.handled, h.counted, h.listed,
      h.based⟩ rfl
    exact ⟨fun hdrawn => absurd rfl hdrawn, fun heq => nomatch heq⟩
  · exact Follows.same h

theorem follows_rebased {p : Page} (h : p.Sound) (hdrawn : p.scrollContainer ≠ none)
    {base : UInt32} (hbased : Based base p.notiSnapshotLen.toNat) :
    p.Follows { p with notiCurrBaseIdx := base }.populateCards where
  sound := h.rebase hdrawn hbased
  fresh := fun hfresh =>
    fresh_populate ⟨(hfresh hdrawn).1.len, (hfresh hdrawn).1.list⟩
  redrawn := .inr fun hcurrent => fresh_populate ⟨hcurrent.len, hcurrent.list⟩

theorem follows_rebase {p : Page} (h : p.Sound) (hdrawn : p.scrollContainer ≠ none)
    (idx : UInt32) : p.Follows (p.rebaseAndPopulateCards idx) := by
  have hlen := store_len_le p.store
  have hcounted := h.counted
  rw [rebaseAndPopulateCards]
  split_ifs with hfirst hzero hlast hend
  · exact Follows.same h
  · refine follows_rebased h hdrawn ?_
    exact (based_pred h.based hzero (by omega)).mono (Nat.sub_le _ 1)
  · exact Follows.same h
  · rw [hlast] at hend
    exact follows_rebased h hdrawn (based_succ h.based (by omega) hend)
  · exact follows_rebased h hdrawn h.based

theorem follows_key {p : Page} (h : p.Sound) (hdrawn : p.scrollContainer ≠ none) (card : Card)
    (key : LvKey) : p.Follows (p.cardActionCb card key) := by
  cases key with
  | right =>
    rw [cardActionCb]
    split_ifs
    · exact follows_rebase h hdrawn card.idx
    · exact Follows.same h
  | left =>
    rw [cardActionCb]
    split_ifs
    · exact follows_rebase h hdrawn card.idx
    · exact Follows.same h
  | enter => exact Follows.same h
  | esc => exact Follows.same h
  | other code => exact Follows.same h

theorem drawnCards_drawn {p : Page} {position : Nat} {card : Card}
    (h : p.drawnCards[position]? = some card) :
    p.scrollContainer ≠ none ∧ p.scrollContainer = some p.drawnCards := by
  rw [drawnCards] at h ⊢
  cases hcards : p.scrollContainer with
  | none =>
    rw [hcards] at h
    cases h
  | some cards => exact ⟨Option.some_ne_none cards, rfl⟩

/-- A dismissal on a card of a page that is up to date removes the entry the card shows. -/
theorem dismiss_fresh {p : Page} (h : p.Sound) (hfresh : p.Fresh) {position : Nat} {card : Card}
    (hcard : p.drawnCards[position]? = some card) :
    ∃ n p', (notifications p.store)[p.notiCurrBaseIdx.toNat + position]? = some n ∧
      card.text = some (cardText n) ∧ p.dismissHandlerCb card = some p' ∧
      notifications p'.store =
        (notifications p.store).eraseIdx (p.notiCurrBaseIdx.toNat + position) ∧
      p.Follows p' := by
  obtain ⟨hdrawn, hcards⟩ := drawnCards_drawn hcard
  obtain ⟨hcurrent, hwindow⟩ := hfresh hdrawn
  have hsame : p.drawnCards = p.cards := Option.some.inj (hcards.symm.trans hwindow)
  rw [hsame] at hcard
  obtain ⟨n, hshown, hof⟩ := (cards_shown h hcurrent).2 position card hcard
  have hlt := (List.getElem?_eq_some_iff.mp hshown).1
  rw [shown_length] at hlt
  rw [getElem?_shown p (by omega)] at hshown
  refine ⟨n, _, hshown, hof.text, dismissHandlerCb_eq h hof hshown, ?_, ?_⟩
  · rw [invalidate_store]
    exact dismiss_erases hshown
  · exact Follows.drawn (h.dismissed hcurrent hdrawn hshown) (fresh_invalidate _)

/-- Every callback, with dismissals only on pages that are up to date. -/
theorem follows_lvglStep {p p' : Page} {action : LvglAction} (h : p.Sound)
    (hdismiss : ∀ position, action = .dismiss position → p.Fresh)
    (hstep : p.lvglStep action = some p') : p.Follows p' := by
  cases action with
  | initUi =>
    cases hstep
    exact follows_initUi h
  | deinitUi =>
    cases hstep
    exact follows_deinitUi h
  | rightOnRoot =>
    rw [lvglStep] at hstep
    split_ifs at hstep with hon
    rw [← Option.some.inj hstep, handleRightActionOnRoot]
    split_ifs
    · exact Follows.same h
    · exact follows_changePage h hon _
  | leftOnRoot =>
    rw [lvglStep] at hstep
    split_ifs at hstep with hon
    rw [← Option.some.inj hstep, handleLeftActionOnRoot]
    split_ifs
    · exact Follows.same h
    · exact follows_changePage h hon _
  | key position key =>
    obtain ⟨card, hcard, rfl⟩ := Option.map_eq_some_iff.mp hstep
    exact follows_key h (drawnCards_drawn hcard).1 card key
  | dismiss position =>
    obtain ⟨card, hcard, hcb⟩ := Option.bind_eq_some_iff.mp hstep
    obtain ⟨n, q, -, -, hq, -, hfollows⟩ := dismiss_fresh h (hdismiss position rfl) hcard
    rw [hcb] at hq
    exact Option.some.inj hq ▸ hfollows

/-! ### Runs with arrivals in one step -/

/-- The page is in range: its cards are for the entries of the store from the base index on,
in order, and each removes its own. -/
structure InRange (p : Page) (cards : List Card) : Prop where
  snapshot : p.notiSnapshotLen.toNat = p.store.notiLen
  base : p.notiCurrBaseIdx = 0 ∨
    p.notiCurrBaseIdx.toNat + visibleCards.toNat ≤ p.notiSnapshotLen.toNat
  drawn : cards.map Card.text = p.shownNotifications.map fun n => some (cardText n)
  dismisses : ∀ position < cards.length, ∃ p', p.lvglStep (.dismiss position) = some p' ∧
    notifications p'.store =
      (notifications p.store).eraseIdx (p.notiCurrBaseIdx.toNat + position)

theorem cards_text {p : Page} (h : p.Sound) (hcurrent : p.Current) :
    p.cards.map Card.text = p.shownNotifications.map fun n => some (cardText n) := by
  obtain ⟨hlength, hof⟩ := cards_shown h hcurrent
  apply List.ext_getElem?
  intro k
  rw [List.getElem?_map, List.getElem?_map]
  cases hcard : p.cards[k]? with
  | none =>
    rw [List.getElem?_eq_none_iff, hlength, ← List.getElem?_eq_none_iff] at hcard
    rw [hcard]
    rfl
  | some card =>
    obtain ⟨n, hn, hcardOf⟩ := hof k card hcard
    rw [hn, Option.map_some, Option.map_some, hcardOf.text]

theorem Sound.inRange {p : Page} (h : p.Sound) (hfresh : p.Fresh) {cards : List Card}
    (hdrawn : p.scrollContainer = some cards) : p.InRange cards := by
  obtain ⟨hcurrent, hwindow⟩ := hfresh (hdrawn ▸ Option.some_ne_none cards)
  have hcards : cards = p.cards := Option.some.inj (hdrawn.symm.trans hwindow)
  have hdrawnCards : p.drawnCards = cards := by rw [drawnCards, hdrawn, Option.getD_some]
  refine ⟨?_, h.based, ?_, fun position hposition => ?_⟩
  · rw [hcurrent.len, snapshotLen_toNat]
  · rw [hcards]
    exact cards_text h hcurrent
  · have hcard : p.drawnCards[position]? = some cards[position] := by
      rw [hdrawnCards, List.getElem?_eq_getElem hposition]
    obtain ⟨n, p', -, -, hcb, herased, -⟩ := dismiss_fresh h hfresh hcard
    refine ⟨p', ?_, herased⟩
    rw [lvglStep, hcard, Option.bind_some, hcb]

theorem sound_boot : boot.Sound where
  shown := ⟨fun hdrawn => absurd rfl hdrawn, fun heq => nomatch heq⟩
  off := fun _ => UiState.noConfusion
  handled := fun n hn => by
    rw [List.eq_nil_of_length_eq_zero (notifications_length boot.store)] at hn
    cases hn
  counted := Nat.le_refl 0
  listed := rfl
  based := .inl rfl

theorem pageStep_sound {p p' : Page} {action : PageAction} (h : p.Sound ∧ p.Fresh)
    (hstep : p.pageStep action = some p') : p'.Sound ∧ p'.Fresh := by
  cases action with
  | arrive noti =>
    have hreceived := h.1.receive noti
    rw [← Option.some.inj hstep]
    exact ⟨hreceived.update, hreceived.fresh_update⟩
  | lvgl action =>
    have hfollows := follows_lvglStep h.1 (fun _ _ => h.2) hstep
    exact ⟨hfollows.sound, hfollows.fresh h.2⟩

/-- Along every sequence of arrivals, pages opened and left, scrolls and dismissals, the cards
are drawn exactly while the page is shown, and in range. -/
theorem paging_in_range (actions : List PageAction) :
    Machine.Always pageStep
      (fun p => (p.scrollContainer ≠ none ↔ p.currWatchState = .notify) ∧
        ∀ cards, p.scrollContainer = some cards → p.InRange cards) boot actions := by
  have hinv := @Machine.always_of_invariant Page PageAction pageStep
    (fun p => p.Sound ∧ p.Fresh) boot actions
    ⟨sound_boot, fun hdrawn => absurd rfl hdrawn⟩ fun p action p' h hstep => pageStep_sound h hstep
  exact hinv.mono fun p h => ⟨h.1.shown, fun cards hdrawn => h.1.inRange h.2 hdrawn⟩

/-- Five notifications are scrolled by one card, and the card in the middle is dismissed. -/
theorem paging_in_range_scrolled :
    let noti (first : UInt8) : NotificationT :=
      { NotificationT.zero with app := .message, body := NotificationT.zero.body.blit 0 [first] }
    let actions : List PageAction := ([65, 66, 67, 68, 69].map fun first => .arrive (noti first)) ++
      [.lvgl .initUi, .lvgl .leftOnRoot, .lvgl (.key 2 .right), .lvgl (.dismiss 1)]
    ∃ p cards, Machine.run pageStep boot actions = some p ∧ p.scrollContainer = some cards ∧
      p.notiCurrBaseIdx = 1 ∧ cards.map (fun card => card.text.map CardText.body) =
        [some [68], some [66], some [65]] ∧ p.InRange cards := by
  intro noti actions
  have hrun : ∃ p ∈ Machine.run pageStep boot actions, ∃ cards ∈ p.scrollContainer,
      p.notiCurrBaseIdx = 1 ∧ cards.map (fun card => card.text.map CardText.body) =
        [some [68], some [66], some [65]] := by
    decide +kernel
  obtain ⟨p, hp, cards, hcards, hbase, htexts⟩ := hrun
  have hrange := paging_in_range actions actions [] p (List.append_nil _).symm hp
  exact ⟨p, cards, hp, hcards, hbase, htexts, hrange.2 cards hcards⟩

end Page

end MinimalWatch.Notification
