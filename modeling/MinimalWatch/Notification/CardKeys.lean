import MinimalWatch.Notification.Cards
import MinimalWatch.Notification.PageObjs

/-! The keys on the notification page. Three cards are drawn at most, and a detail screen is an
object beside them; to the one who presses the keys the page is a menu of all notifications,
each with its title and its close button, and the detail screen is the menu of the title. -/

namespace MinimalWatch.Notification
open Firmware
open Ui (LvKey LvObjs)

/-- A detail screen with what its callback was given, and how often the cards had been drawn
when it was opened. -/
structure Detail where
  id : Nat
  prevFocused : NotiObj
  drawing : Nat
  action : Bool
  deriving DecidableEq, Repr

/-- The page while it is shown; `drawing` counts how often its cards have been drawn. -/
structure NotiScreen where
  page : Page
  drawing : Nat
  details : List Detail
  opened : Nat
  focused : NotiObj
  /-- The focus was given to an object of cards that are gone. -/
  usedFreed : Bool
  distinct : (details.map Detail.id).Nodup
  numbered : ∀ d ∈ details, d.id < opened

namespace NotiScreen

/-- `draw_notification_ui` has focused the page. -/
def shown (p : Page) : NotiScreen where
  page := p
  drawing := 0
  details := []
  opened := 0
  focused := .notificationScr
  usedFreed := false
  distinct := List.nodup_nil
  numbered := nofun

abbrev cards (s : NotiScreen) : Nat := s.page.drawnCards.length

abbrev base (s : NotiScreen) : Nat := s.page.notiCurrBaseIdx.toNat

def hasAction (s : NotiScreen) (id : Nat) : Bool := s.details.any fun d => d.id = id && d.action

def objs (s : NotiScreen) : LvObjs NotiObj Unit :=
  pageObjs s.cards (s.details.map Detail.id) s.hasAction s.distinct

def focusObj (s : NotiScreen) (obj : Option NotiObj) : NotiScreen :=
  { s with focused := obj.getD s.focused }

/-! ### The callbacks

`none` where the event goes up to the next object. -/

/-- The user data of an object. -/
def cardData (s : NotiScreen) : NotiObj → Option Card
  | .card idx => s.page.drawnCards[idx]?
  | _ => none

theorem distinct_open (s : NotiScreen) (d : Detail) (hd : d.id = s.opened) :
    ((s.details ++ [d]).map Detail.id).Nodup := by
  rw [List.map_append, List.map_singleton, List.nodup_append]
  refine ⟨s.distinct, List.nodup_singleton _, ?_⟩
  intro id hid id' hid' heq
  obtain ⟨d', hd', rfl⟩ := List.mem_map.mp hid
  have hlt := s.numbered d' hd'
  rw [List.mem_singleton.mp hid', hd] at heq
  omega

theorem numbered_open (s : NotiScreen) (d : Detail) (hd : d.id = s.opened) :
    ∀ d' ∈ s.details ++ [d], d'.id < s.opened + 1 := by
  intro d' hd'
  rcases List.mem_append.mp hd' with hold | hnew
  · exact Nat.lt_succ_of_lt (s.numbered d' hold)
  · rw [List.mem_singleton.mp hnew, hd]
    exact Nat.lt_succ_self _

/-- The detail screen of `title_key_cb`. -/
def openDetail (s : NotiScreen) (data : NotificationT) : NotiScreen :=
  let d : Detail := ⟨s.opened, s.focused, s.drawing, data.actionHandler.isSome⟩
  { s with
    details := s.details ++ [d]
    opened := s.opened + 1
    focused := .detailScr s.opened
    distinct := s.distinct_open d rfl
    numbered := s.numbered_open d rfl }

def titleKeyCb (s : NotiScreen) (key : LvKey) : Option NotiScreen :=
  if key = .enter then
    (s.objs.findFirstFocusableParentDfs s.focused).bind fun parent =>
      (s.cardData parent).bind fun cd => (readSlot s.page.store cd.n).map s.openDetail
  else none

def deleteDetail (s : NotiScreen) (id : Nat) : NotiScreen :=
  { s with
    details := s.details.filter fun d => d.id ≠ id
    distinct := s.distinct.sublist (List.filter_sublist.map _)
    numbered := fun d hd => s.numbered d (List.mem_of_mem_filter hd) }

def detailScreenKeyCb (s : NotiScreen) (id : Nat) (key : LvKey) : Option NotiScreen :=
  if key = .esc then
    (s.details.find? fun d => d.id = id).map fun d =>
      (if d.drawing = s.drawing then s.focusObj (some d.prevFocused)
        else { s with usedFreed := true }).deleteDetail id
  else none

/-- Whether `rebase_and_populate_cards` comes to draw the cards. -/
def rebases (p : Page) (idx : UInt32) : Bool :=
  if idx = 0 then p.notiCurrBaseIdx ≠ 0
  else if idx = visibleCards - 1 then ¬ idx + p.notiCurrBaseIdx + 1 ≥ p.notiSnapshotLen
  else true

/-- The cards are drawn with the one of the same place focused. -/
def rebaseAndPopulateCards (s : NotiScreen) (idx : UInt32) : NotiScreen :=
  if rebases s.page idx then
    { s with
      page := s.page.rebaseAndPopulateCards idx
      drawing := s.drawing + 1
      focused := .card idx.toNat }
  else s

def cardActionCb (s : NotiScreen) (card : Card) : LvKey → Option NotiScreen
  | .right =>
    if card.idx = visibleCards - 1 then some (s.rebaseAndPopulateCards card.idx) else none
  | .left => if card.idx = 0 then some (s.rebaseAndPopulateCards card.idx) else none
  | _ => none

def handleNotificationScreenKeysCb (s : NotiScreen) : LvKey → Option NotiScreen
  | .esc =>
    if s.focused = .notificationScr then some s
    else some (s.focusObj (s.objs.findFirstFocusableParentDfs s.focused))
  | .enter => some (s.focusObj (s.objs.findFirstFocusableChildDfs (some s.focused)))
  | .right =>
    if s.focused = .notificationScr then none
    else some (s.focusObj (s.objs.findNextFocusableSibling (some s.focused)))
  | .left =>
    if s.focused = .notificationScr then none
    else some (s.focusObj (s.objs.findPrevFocusableSibling (some s.focused)))
  | .other _ => some s

/-- `handle_root_scr_actions` of the keys that come up to it; `none` once the page is left. -/
def handleRootScrActions (s : NotiScreen) (key : LvKey) : Option NotiScreen :=
  let page := match key with
    | .right => s.page.handleRightActionOnRoot
    | .left => s.page.handleLeftActionOnRoot
    | _ => s.page
  if page.currWatchState = .notify then some { s with page := page } else none

/-- The callback of the focused object itself. `card_action_cb` is above the title too, but only
acts on its own events. -/
def ownKeyCb (s : NotiScreen) (key : LvKey) : Option NotiScreen :=
  match s.focused with
  | .lblTitle _ => s.titleKeyCb key
  | .card idx => s.page.drawnCards[idx]?.bind fun card => s.cardActionCb card key
  | .detailScr id => s.detailScreenKeyCb id key
  | _ => none

def keyEvent (s : NotiScreen) (key : LvKey) : Option NotiScreen :=
  ((s.ownKeyCb key).or (s.handleNotificationScreenKeysCb key)).or (s.handleRootScrActions key)

/-- `none` once the page is left; after a use of a freed object nothing is said. -/
def keyStep (s : Option NotiScreen) (key : LvKey) : Option (Option NotiScreen) :=
  s.bind fun s => if s.usedFreed then none else some (s.keyEvent key)

end NotiScreen

/-! ### The menu -/

/-- A place in the menu of all notifications, and the first of the three that are in view. -/
structure Menu where
  top : Nat
  place : Place
  deriving DecidableEq, Repr

namespace Menu

/-- The notifications; title and close button of each; the detail screen below the title; and
its buttons. -/
def count (list : List NotificationT) : Place → Nat
  | [] => list.length
  | [_] => 2
  | [which, _] => if which = 0 then 1 else 0
  | [_, _, i] => list[i]?.elim 0 fun n => if n.actionHandler.isSome then 2 else 1
  | _ => 0

/-- The view follows the place. -/
def goTo (m : Menu) (p : Place) : Menu :=
  ⟨p.getLast?.elim m.top (Place.keepInView visibleCards.toNat m.top), p⟩

/-- ENTER on the page goes to the first notification in view; RIGHT there leaves the page. -/
def key (list : List NotificationT) (m : Menu) : LvKey → Option Menu
  | .enter =>
    if m.place = [] then if list = [] then some m else some (m.goTo [m.top])
    else some (m.goTo (Place.first (count list) m.place))
  | .esc => some (m.goTo m.place.tail)
  | .right => if m.place = [] then none else some (m.goTo (Place.next (count list) m.place))
  | .left => some (m.goTo (Place.prev m.place))
  | .other _ => some m

def step (list : List NotificationT) (m : Option Menu) (key : LvKey) : Option (Option Menu) :=
  m.map fun m => m.key list key

end Menu

/-! ### The focus as a place -/

namespace NotiScreen

/-- The detail screen of the card at `k`, which is still drawn as it was. -/
structure DetailOf (s : NotiScreen) (d : Detail) (k : Nat) : Prop where
  opened : s.details = [d]
  prev : d.prevFocused = .lblTitle k
  drawing : d.drawing = s.drawing
  action : (notifications s.page.store)[s.base + k]?.map (·.actionHandler.isSome) = some d.action

/-- The focused object stands for the place in the menu. -/
inductive FocusAt (s : NotiScreen) : Place → Prop
  | screen (hclosed : s.details = []) (hfocus : s.focused = .notificationScr) : FocusAt s []
  | card {k : Nat} (hk : k < s.cards) (hclosed : s.details = []) (hfocus : s.focused = .card k) :
    FocusAt s [s.base + k]
  | title {k : Nat} (hk : k < s.cards) (hclosed : s.details = [])
    (hfocus : s.focused = .lblTitle k) : FocusAt s [0, s.base + k]
  | close {k : Nat} (hk : k < s.cards) (hclosed : s.details = [])
    (hfocus : s.focused = .btnCl k) : FocusAt s [1, s.base + k]
  | detail {k : Nat} {d : Detail} (hk : k < s.cards) (hof : s.DetailOf d k)
    (hfocus : s.focused = .detailScr d.id) : FocusAt s [0, 0, s.base + k]
  | button {k i : Nat} {d : Detail} (hk : k < s.cards) (hof : s.DetailOf d k)
    (hfocus : (NotiObj.bottomButtons d.action d.id)[i]? = some s.focused) :
    FocusAt s [i, 0, 0, s.base + k]

/-- The page is drawn for these notifications. -/
structure DrawnFor (list : List NotificationT) (p : Page) : Prop where
  sound : p.Sound
  fresh : p.Fresh
  drawn : p.scrollContainer ≠ none
  list : notifications p.store = list

/-- The focus is where the menu has it. -/
structure InMenu (list : List NotificationT) (s : NotiScreen) (m : Menu) : Prop where
  page : DrawnFor list s.page
  top : m.top = s.base
  focus : s.FocusAt m.place
  clean : s.usedFreed = false

section Levels
variable {s : NotiScreen}

theorem navigable_of_made {obj : NotiObj} (h : obj.madeNavigable = true) :
    s.objs.navigable obj = true := (PageObjs.navigable_eq obj).trans h

theorem level_notificationScr (hclosed : s.details = []) :
    s.objs.level s.objs.navigable .notificationScr = (List.range s.cards).map .card := by
  refine PageObjs.levelOf_notificationScr.trans ?_
  rw [hclosed, List.map_nil, List.map_nil, List.append_nil]

theorem level_notificationScr_open {d : Detail} (hopen : s.details = [d]) :
    s.objs.level s.objs.navigable .notificationScr =
      (List.range s.cards).map .card ++ [.detailScr d.id] := by
  refine PageObjs.levelOf_notificationScr.trans ?_
  rw [hopen]
  rfl

theorem level_card (idx : Nat) :
    s.objs.level s.objs.navigable (.card idx) = [.lblTitle idx, .btnCl idx] :=
  PageObjs.levelOf_card idx

theorem level_detailScr {d : Detail} (hopen : s.details = [d]) :
    s.objs.level s.objs.navigable (.detailScr d.id) = NotiObj.bottomButtons d.action d.id := by
  refine (PageObjs.levelOf_detailScr d.id).trans ?_
  rw [hasAction, hopen]
  simp

variable (s) in
/-- Where the screen's keys go from the entry `b`, at `i`, of the level below `a`. -/
def keyGoal (a b : NotiObj) (i : Nat) : LvKey → Option NotiObj
  | .esc => some a
  | .enter => (s.objs.level s.objs.navigable b).head?
  | .right => (s.objs.level s.objs.navigable a)[i + 1]?
  | .left => if i = 0 then none else (s.objs.level s.objs.navigable a)[i - 1]?
  | .other _ => none

variable (s) in
structure FocusEntry (a b : NotiObj) (i : Nat) : Prop where
  focus : s.focused = b
  below : b ≠ .notificationScr
  made : a.madeNavigable = true
  entry : (s.objs.level s.objs.navigable a)[i]? = some b

theorem FocusEntry.parent {a b : NotiObj} {i : Nat} (h : s.FocusEntry a b i) :
    s.objs.findFirstFocusableParentDfs s.focused = some a := by
  rw [h.focus, s.objs.findFirstFocusableParentDfs_eq]
  exact (LvObjs.nearest_at (navigable_of_made h.made) h.entry).2

theorem FocusEntry.screenKeys {a b : NotiObj} {i : Nat} (h : s.FocusEntry a b i) (key : LvKey) :
    s.handleNotificationScreenKeysCb key = some (s.focusObj (s.keyGoal a b i key)) := by
  have hnav := navigable_of_made (s := s) h.made
  have hne : s.focused ≠ .notificationScr := h.focus ▸ h.below
  cases key with
  | esc => rw [handleNotificationScreenKeysCb, if_neg hne, h.parent, keyGoal]
  | enter =>
    rw [handleNotificationScreenKeysCb, h.focus,
      s.objs.findFirstFocusableChildDfs_eq (Option.some_ne_none ()), keyGoal]
  | right =>
    rw [handleNotificationScreenKeysCb, if_neg hne, h.focus,
      LvObjs.findNextFocusableSibling_at hnav h.entry, keyGoal]
  | left =>
    rw [handleNotificationScreenKeysCb, if_neg hne, h.focus,
      LvObjs.findPrevFocusableSibling_at hnav h.entry, keyGoal]
  | other code => rfl

theorem entry_card {k : Nat} (hk : k < s.cards) (hclosed : s.details = [])
    (hfocus : s.focused = .card k) : s.FocusEntry .notificationScr (.card k) k where
  focus := hfocus
  below := NotiObj.noConfusion
  made := rfl
  entry := by
    rw [level_notificationScr hclosed, List.getElem?_map, List.getElem?_range hk, Option.map_some]

theorem entry_lblTitle {k : Nat} (hfocus : s.focused = .lblTitle k) :
    s.FocusEntry (.card k) (.lblTitle k) 0 where
  focus := hfocus
  below := NotiObj.noConfusion
  made := rfl
  entry := by rw [level_card, List.getElem?_cons_zero]

theorem entry_btnCl {k : Nat} (hfocus : s.focused = .btnCl k) :
    s.FocusEntry (.card k) (.btnCl k) 1 where
  focus := hfocus
  below := NotiObj.noConfusion
  made := rfl
  entry := by rw [level_card, List.getElem?_cons_succ, List.getElem?_cons_zero]

theorem entry_detailScr {d : Detail} (hopen : s.details = [d])
    (hfocus : s.focused = .detailScr d.id) :
    s.FocusEntry .notificationScr (.detailScr d.id) s.cards where
  focus := hfocus
  below := NotiObj.noConfusion
  made := rfl
  entry := by
    rw [level_notificationScr_open hopen, List.getElem?_append_right (by simp), List.length_map,
      List.length_range, Nat.sub_self, List.getElem?_cons_zero]

theorem entry_button {d : Detail} {i : Nat} (hopen : s.details = [d])
    (hfocus : (NotiObj.bottomButtons d.action d.id)[i]? = some s.focused) :
    s.FocusEntry (.detailScr d.id) s.focused i where
  focus := rfl
  below := by
    intro heq
    rw [heq] at hfocus
    simpa [NotiObj.mem_bottomButtons] using List.mem_of_getElem? hfocus
  made := rfl
  entry := by rw [level_detailScr hopen, hfocus]

end Levels

section Drawn
variable {list : List NotificationT} {p : Page}

theorem DrawnFor.cards_eq (h : DrawnFor list p) :
    p.drawnCards.length = min 3 (list.length - p.notiCurrBaseIdx.toNat) := by
  obtain ⟨cards, hcards⟩ := Option.ne_none_iff_exists'.mp h.drawn
  have hlength := congrArg List.length (h.sound.inRange h.fresh hcards).drawn
  rw [List.length_map, List.length_map, Page.shown_length, ← notifications_length, h.list]
    at hlength
  rw [Page.drawnCards, hcards]
  exact hlength

theorem DrawnFor.snapshot (h : DrawnFor list p) : p.notiSnapshotLen.toNat = list.length := by
  obtain ⟨cards, hcards⟩ := Option.ne_none_iff_exists'.mp h.drawn
  rw [(h.sound.inRange h.fresh hcards).snapshot, ← notifications_length, h.list]

theorem DrawnFor.length_le (h : DrawnFor list p) : list.length ≤ 20 := by
  rw [← h.list, notifications_length]
  exact Page.store_len_le p.store

theorem DrawnFor.based (h : DrawnFor list p) :
    p.notiCurrBaseIdx.toNat = 0 ∨ p.notiCurrBaseIdx.toNat + 3 ≤ list.length := by
  rw [← h.snapshot]
  refine h.sound.based.imp_left fun hzero => ?_
  rw [hzero]
  rfl

/-- The card at a place, and the notification that it is for. -/
theorem DrawnFor.cardOf (h : DrawnFor list p) {k : Nat} (hk : k < p.drawnCards.length) :
    ∃ card n, p.drawnCards[k]? = some card ∧ p.CardOf k n card ∧
      list[p.notiCurrBaseIdx.toNat + k]? = some n := by
  obtain ⟨hcurrent, hwindow⟩ := h.fresh h.drawn
  have hsame : p.drawnCards = p.cards := by rw [Page.drawnCards, hwindow, Option.getD_some]
  obtain ⟨card, hcard⟩ : ∃ card, p.drawnCards[k]? = some card := ⟨_, List.getElem?_eq_getElem hk⟩
  obtain ⟨n, hshown, hof⟩ := (Page.cards_shown h.sound hcurrent).2 k card (hsame ▸ hcard)
  have hlt := h.cards_eq
  rw [Page.getElem?_shown _ (by omega), h.list] at hshown
  exact ⟨card, n, hcard, hof, hshown⟩

theorem DrawnFor.rebase (h : DrawnFor list p) (idx : UInt32) :
    DrawnFor list (p.rebaseAndPopulateCards idx) := by
  have hfollows := Page.follows_rebase h.sound h.drawn idx
  refine ⟨hfollows.sound, hfollows.fresh h.fresh, ?_, ?_⟩
  · rw [Page.rebaseAndPopulateCards]
    split_ifs <;> first | exact h.drawn | exact Option.some_ne_none _
  · rw [Page.rebaseAndPopulateCards]
    split_ifs <;> exact h.list

theorem DrawnFor.window_end (h : DrawnFor list p) :
    visibleCards - 1 + p.notiCurrBaseIdx + 1 ≥ p.notiSnapshotLen ↔
      list.length ≤ p.notiCurrBaseIdx.toNat + 3 := by
  have hlen := h.length_le
  have hsnap := h.snapshot
  have hbase := Page.based_bound h.sound.based (by omega)
  have htwo : (visibleCards - 1).toNat = 2 := rfl
  have hone : (1 : UInt32).toNat = 1 := rfl
  rw [ge_iff_le, UInt32.le_iff_toNat_le, UInt32.toNat_add, UInt32.toNat_add, htwo, hone]
  omega

/-- RIGHT on the third card moves the window on, as long as there is one behind. -/
theorem DrawnFor.rebase_last (h : DrawnFor list p)
    (hmore : p.notiCurrBaseIdx.toNat + 3 < list.length) :
    rebases p (visibleCards - 1) = true ∧
      (p.rebaseAndPopulateCards (visibleCards - 1)).notiCurrBaseIdx.toNat =
        p.notiCurrBaseIdx.toNat + 1 := by
  have hne : visibleCards - 1 ≠ (0 : UInt32) := by decide
  have hroom := mt h.window_end.mp (Nat.not_le_of_lt hmore)
  refine ⟨by rw [rebases, if_neg hne, if_pos rfl, decide_eq_true hroom], ?_⟩
  rw [Page.rebaseAndPopulateCards, if_neg hne, if_pos rfl, if_neg hroom]
  change (p.notiCurrBaseIdx + 1).toNat = _
  have hlen := h.length_le
  have hone : (1 : UInt32).toNat = 1 := rfl
  rw [UInt32.toNat_add, hone]
  omega

theorem DrawnFor.rebase_last_end (h : DrawnFor list p)
    (hend : list.length ≤ p.notiCurrBaseIdx.toNat + 3) :
    rebases p (visibleCards - 1) = false := by
  have hne : visibleCards - 1 ≠ (0 : UInt32) := by decide
  rw [rebases, if_neg hne, if_pos rfl, decide_eq_false (not_not_intro (h.window_end.mpr hend))]

/-- LEFT on the first moves it back. -/
theorem rebase_first (hne : p.notiCurrBaseIdx.toNat ≠ 0) :
    rebases p 0 = true ∧
      (p.rebaseAndPopulateCards 0).notiCurrBaseIdx.toNat = p.notiCurrBaseIdx.toNat - 1 := by
  have hback : ¬ p.notiCurrBaseIdx = 0 := by
    intro heq
    rw [heq] at hne
    exact hne rfl
  refine ⟨by rw [rebases, if_pos rfl, decide_eq_true hback], ?_⟩
  rw [Page.rebaseAndPopulateCards, if_pos rfl, if_neg hback]
  change (p.notiCurrBaseIdx - 1).toNat = _
  have hone : (1 : UInt32).toNat = 1 := rfl
  rw [UInt32.toNat_sub_of_le _ _ (UInt32.le_iff_toNat_le.mpr (by omega)), hone]

theorem rebase_first_end (hzero : p.notiCurrBaseIdx.toNat = 0) : rebases p 0 = false := by
  have hbase : p.notiCurrBaseIdx = 0 := UInt32.toNat_inj.mp hzero
  rw [rebases, if_pos rfl, decide_eq_false (not_not_intro hbase)]

end Drawn

section Keys
variable {list : List NotificationT} {s : NotiScreen}

theorem InMenu.cards_eq {m : Menu} (h : s.InMenu list m) :
    s.cards = min 3 (list.length - s.base) := h.page.cards_eq

/-- The focus moves on the page as it is drawn. -/
theorem InMenu.move {p q : Place} (h : s.InMenu list ⟨s.base, p⟩) {obj : NotiObj}
    (hfocus : FocusAt { s with focused := obj } q) :
    InMenu list { s with focused := obj } ⟨s.base, q⟩ :=
  ⟨h.page, rfl, hfocus, h.clean⟩

/-- The menu goes on below the same notification. -/
theorem InMenu.goTo_eq {p q : Place} (h : s.InMenu list ⟨s.base, p⟩) {k : Nat}
    (hk : k < s.cards) (hq : q.getLast? = some (s.base + k)) :
    (⟨s.base, p⟩ : Menu).goTo q = ⟨s.base, q⟩ := by
  have hcards := h.cards_eq
  have hthree : visibleCards.toNat = 3 := rfl
  have hview : Place.keepInView visibleCards.toNat s.base (s.base + k) = s.base :=
    Place.keepInView_inside (by omega) (by omega)
  rw [Menu.goTo, hq, Option.elim_some, hview]

theorem InMenu.key_screen (h : s.InMenu list ⟨s.base, []⟩) (hclosed : s.details = [])
    (hfocus : s.focused = .notificationScr) (key : LvKey) :
    Option.Rel (InMenu list) (s.keyEvent key) (Menu.key list ⟨s.base, []⟩ key) := by
  have hown : s.ownKeyCb key = none := by rw [ownKeyCb, hfocus]
  have hnotify : s.page.currWatchState = .notify := h.page.sound.shown.mp h.page.drawn
  rw [keyEvent, hown, Option.none_or]
  cases key with
  | esc =>
    rw [handleNotificationScreenKeysCb, if_pos hfocus]
    exact .some h
  | enter =>
    rw [handleNotificationScreenKeysCb, hfocus,
      s.objs.findFirstFocusableChildDfs_eq (Option.some_ne_none ()), level_notificationScr hclosed,
      List.head?_map, List.head?_range, Menu.key, if_pos rfl]
    have hcards := h.cards_eq
    have hbased : s.base = 0 ∨ s.base + 3 ≤ list.length := h.page.based
    by_cases hnone : list = []
    · have hzero : s.cards = 0 := by
        rw [hcards, hnone, List.length_nil, Nat.zero_sub, Nat.min_zero]
      rw [if_pos hzero, if_pos hnone]
      exact .some h
    · have hlen := List.length_pos_iff.mpr hnone
      have hpos : 0 < s.cards := by omega
      rw [if_neg (Nat.ne_of_gt hpos), if_neg hnone, h.goTo_eq (k := 0) hpos rfl]
      exact .some (h.move (.card (s := { s with focused := .card 0 }) hpos hclosed rfl))
  | right =>
    have hleft : s.page.handleRightActionOnRoot.currWatchState ≠ .notify := by
      rw [Page.handleRightActionOnRoot, hnotify]
      exact Ui.UiState.noConfusion
    rw [handleNotificationScreenKeysCb, if_pos hfocus, Option.none_or, Menu.key, if_pos rfl,
      handleRootScrActions]
    simp only [if_neg hleft]
    exact .none
  | left =>
    have hstays : s.page.handleLeftActionOnRoot = s.page := by
      rw [Page.handleLeftActionOnRoot, if_pos hnotify]
    rw [handleNotificationScreenKeysCb, if_pos hfocus, Option.none_or, handleRootScrActions]
    simp only [hstays, if_pos hnotify]
    exact .some h
  | other code => exact .some h

theorem InMenu.rebased {m : Menu} (h : s.InMenu list m) (hclosed : s.details = []) {idx : UInt32}
    {base : Nat} (hrebases : rebases s.page idx = true)
    (hbase : (s.page.rebaseAndPopulateCards idx).notiCurrBaseIdx.toNat = base)
    (hidx : idx.toNat < min 3 (list.length - base)) :
    InMenu list (s.rebaseAndPopulateCards idx) ⟨base, [base + idx.toNat]⟩ := by
  have hdrawn := h.page.rebase idx
  have hcards := hdrawn.cards_eq
  rw [rebaseAndPopulateCards, if_pos hrebases]
  refine ⟨hdrawn, hbase.symm, ?_, h.clean⟩
  rw [← hbase] at hidx ⊢
  exact .card (by rw [NotiScreen.cards, hcards]; exact hidx) hclosed rfl

/-- RIGHT on the third card. -/
theorem InMenu.right_last (h : s.InMenu list ⟨s.base, [s.base + 2]⟩) (hk : 2 < s.cards)
    (hclosed : s.details = []) :
    Option.Rel (InMenu list) (some (s.rebaseAndPopulateCards (visibleCards - 1)))
      (Menu.key list ⟨s.base, [s.base + 2]⟩ .right) := by
  rw [Menu.key, if_neg (List.cons_ne_nil _ _)]
  by_cases hmore : s.base + 3 < list.length
  · obtain ⟨hrebases, hbase⟩ := h.page.rebase_last hmore
    have hplace : Place.next (Menu.count list) [s.base + 2] = [s.base + 3] := if_pos hmore
    have hview : Place.keepInView 3 s.base (s.base + 3) = s.base + 1 :=
      Place.keepInView_below (Nat.le_refl _)
    have hgo : (⟨s.base, [s.base + 2]⟩ : Menu).goTo [s.base + 3] = ⟨s.base + 1, [s.base + 3]⟩ :=
      congrArg (Menu.mk · _) hview
    have htwo : (visibleCards - 1).toNat = 2 := rfl
    rw [hplace, hgo]
    exact .some (h.rebased hclosed hrebases hbase (by omega))
  · have hplace : Place.next (Menu.count list) [s.base + 2] = [s.base + 2] := if_neg hmore
    have hsame : s.rebaseAndPopulateCards (visibleCards - 1) = s := by
      rw [rebaseAndPopulateCards, h.page.rebase_last_end (Nat.le_of_not_lt hmore),
        if_neg Bool.false_ne_true]
    rw [hplace, hsame, h.goTo_eq hk rfl]
    exact .some h

/-- LEFT on the first card. -/
theorem InMenu.left_first (h : s.InMenu list ⟨s.base, [s.base]⟩) (hk : 0 < s.cards)
    (hclosed : s.details = []) :
    Option.Rel (InMenu list) (some (s.rebaseAndPopulateCards 0))
      (Menu.key list ⟨s.base, [s.base]⟩ .left) := by
  have hcards := h.cards_eq
  rw [Menu.key]
  by_cases hzero : s.base = 0
  · have hsame : s.rebaseAndPopulateCards 0 = s := by
      rw [rebaseAndPopulateCards, rebase_first_end hzero, if_neg Bool.false_ne_true]
    have hplace : Place.prev [s.base] = [s.base] := by
      rw [hzero]
      rfl
    rw [hplace, hsame, h.goTo_eq (k := 0) hk rfl]
    exact .some h
  · obtain ⟨hrebases, hbase⟩ := rebase_first hzero
    have hview : Place.keepInView 3 s.base (s.base - 1) = s.base - 1 :=
      Place.keepInView_above (by omega)
    have hgo : (⟨s.base, [s.base]⟩ : Menu).goTo (Place.prev [s.base]) =
        ⟨s.base - 1, [s.base - 1]⟩ := congrArg (Menu.mk · _) hview
    rw [hgo]
    exact .some (h.rebased hclosed hrebases hbase (by rw [UInt32.toNat_zero]; omega))

/-- A key that the focused object leaves to the screen, and that goes somewhere. -/
theorem InMenu.goes {p q : Place} {a b obj : NotiObj} {i k : Nat} {key : LvKey}
    (h : s.InMenu list ⟨s.base, p⟩) (hentry : s.FocusEntry a b i) (hown : s.ownKeyCb key = none)
    (hgoal : s.keyGoal a b i key = some obj) (hfocus : FocusAt { s with focused := obj } q)
    (hkey : Menu.key list ⟨s.base, p⟩ key = some ((⟨s.base, p⟩ : Menu).goTo q))
    (hk : k < s.cards) (hq : q.getLast? = some (s.base + k)) :
    Option.Rel (InMenu list) (s.keyEvent key) (Menu.key list ⟨s.base, p⟩ key) := by
  rw [keyEvent, hown, hentry.screenKeys, hgoal, hkey, h.goTo_eq hk hq]
  exact .some (h.move hfocus)

/-- A key that goes nowhere. -/
theorem InMenu.stays {p : Place} {a b : NotiObj} {i k : Nat} {key : LvKey}
    (h : s.InMenu list ⟨s.base, p⟩) (hentry : s.FocusEntry a b i) (hown : s.ownKeyCb key = none)
    (hgoal : s.keyGoal a b i key = none)
    (hkey : Menu.key list ⟨s.base, p⟩ key = some ((⟨s.base, p⟩ : Menu).goTo p))
    (hk : k < s.cards) (hp : p.getLast? = some (s.base + k)) :
    Option.Rel (InMenu list) (s.keyEvent key) (Menu.key list ⟨s.base, p⟩ key) := by
  rw [keyEvent, hown, hentry.screenKeys, hgoal, hkey, h.goTo_eq hk hp]
  exact .some h

theorem InMenu.key_card {k : Nat} (h : s.InMenu list ⟨s.base, [s.base + k]⟩) (hk : k < s.cards)
    (hclosed : s.details = []) (hfocus : s.focused = .card k) (key : LvKey) :
    Option.Rel (InMenu list) (s.keyEvent key) (Menu.key list ⟨s.base, [s.base + k]⟩ key) := by
  obtain ⟨card, n, hcard, hof, -⟩ := h.page.cardOf hk
  have hcards := h.cards_eq
  have hown : s.ownKeyCb key = s.cardActionCb card key := by
    rw [ownKeyCb, hfocus]
    exact congrArg (Option.bind · _) hcard
  have hentry := entry_card hk hclosed hfocus
  have hthird : card.idx = visibleCards - 1 ↔ k = 2 := by
    rw [← UInt32.toNat_inj, hof.idx]
    rfl
  have hzeroth : card.idx = 0 ↔ k = 0 := by
    rw [← UInt32.toNat_inj, hof.idx, UInt32.toNat_zero]
  cases key with
  | esc =>
    rw [keyEvent, hown, hentry.screenKeys]
    exact .some (h.move (.screen (s := { s with focused := .notificationScr }) hclosed rfl))
  | enter =>
    have hgoal : s.keyGoal .notificationScr (.card k) k .enter = some (.lblTitle k) := by
      rw [keyGoal, level_card, List.head?_cons]
    exact h.goes hentry hown hgoal (.title (s := { s with focused := .lblTitle k }) hk hclosed rfl)
      rfl hk rfl
  | right =>
    by_cases hlast : k = 2
    · subst hlast
      rw [keyEvent, hown, cardActionCb, hthird.mpr rfl, if_pos rfl]
      exact h.right_last hk hclosed
    · have hpass : s.cardActionCb card .right = none :=
        if_neg (mt hthird.mp hlast)
      have hgoal : s.keyGoal .notificationScr (.card k) k .right =
          (List.range s.cards)[k + 1]?.map .card := by
        rw [keyGoal, level_notificationScr hclosed, List.getElem?_map]
      by_cases hnext : k + 1 < s.cards
      · have hplace : Place.next (Menu.count list) [s.base + k] = [s.base + (k + 1)] :=
          if_pos (show s.base + k + 1 < list.length by omega)
        rw [List.getElem?_range hnext] at hgoal
        exact h.goes hentry (hown.trans hpass) hgoal
          (.card (s := { s with focused := .card (k + 1) }) hnext hclosed rfl)
          (congrArg (fun q => some (Menu.goTo _ q)) hplace) hnext rfl
      · have hplace : Place.next (Menu.count list) [s.base + k] = [s.base + k] :=
          if_neg (show ¬ s.base + k + 1 < list.length by omega)
        rw [List.getElem?_eq_none (by rw [List.length_range]; omega)] at hgoal
        exact h.stays hentry (hown.trans hpass) hgoal
          (congrArg (fun q => some (Menu.goTo _ q)) hplace) hk rfl
  | left =>
    by_cases hfirst : k = 0
    · subst hfirst
      rw [keyEvent, hown, cardActionCb, hzeroth.mpr rfl, if_pos rfl]
      exact h.left_first hk hclosed
    · have hpass : s.cardActionCb card .left = none := if_neg (mt hzeroth.mp hfirst)
      have hprev : k - 1 < s.cards := by omega
      have hplace : Place.prev [s.base + k] = [s.base + (k - 1)] := by
        rw [Place.prev, Nat.add_sub_assoc (Nat.pos_of_ne_zero hfirst)]
      have hgoal : s.keyGoal .notificationScr (.card k) k .left = some (.card (k - 1)) := by
        rw [keyGoal, if_neg hfirst, level_notificationScr hclosed, List.getElem?_map,
          List.getElem?_range hprev, Option.map_some]
      exact h.goes hentry (hown.trans hpass) hgoal
        (.card (s := { s with focused := .card (k - 1) }) hprev hclosed rfl)
        (congrArg (fun q => some (Menu.goTo _ q)) hplace) hprev rfl
  | other code =>
    rw [keyEvent, hown, hentry.screenKeys]
    exact .some h

/-- The detail screen is the menu below the title. -/
theorem InMenu.opens {k : Nat} (h : s.InMenu list ⟨s.base, [0, s.base + k]⟩) (hk : k < s.cards)
    (hclosed : s.details = []) (hfocus : s.focused = .lblTitle k) :
    ∃ s', s.titleKeyCb .enter = some s' ∧ InMenu list s' ⟨s.base, [0, 0, s.base + k]⟩ := by
  obtain ⟨card, n, hcard, hof, hn⟩ := h.page.cardOf hk
  have hdata : s.cardData (.card k) = some card := hcard
  refine ⟨s.openDetail n, ?_, h.page, rfl, ?_, h.clean⟩
  · rw [titleKeyCb, if_pos rfl, (entry_lblTitle hfocus).parent, Option.bind_some, hdata,
      Option.bind_some, hof.data, Option.map_some]
  · have hopened : (s.openDetail n).details =
        [⟨s.opened, s.focused, s.drawing, n.actionHandler.isSome⟩] :=
      congrArg (· ++ [_]) hclosed
    refine .detail (s := s.openDetail n) hk ⟨hopened, hfocus, rfl, ?_⟩ rfl
    rw [show notifications (s.openDetail n).page.store = list from h.page.list]
    exact congrArg _ hn

theorem InMenu.key_title {k : Nat} (h : s.InMenu list ⟨s.base, [0, s.base + k]⟩) (hk : k < s.cards)
    (hclosed : s.details = []) (hfocus : s.focused = .lblTitle k) (key : LvKey) :
    Option.Rel (InMenu list) (s.keyEvent key) (Menu.key list ⟨s.base, [0, s.base + k]⟩ key) := by
  have hown : s.ownKeyCb key = s.titleKeyCb key := by rw [ownKeyCb, hfocus]
  have hentry := entry_lblTitle hfocus
  cases key with
  | enter =>
    obtain ⟨s', htitle, hin⟩ := h.opens hk hclosed hfocus
    have hkey : Menu.key list ⟨s.base, [0, s.base + k]⟩ .enter =
        some ((⟨s.base, [0, s.base + k]⟩ : Menu).goTo [0, 0, s.base + k]) := rfl
    rw [keyEvent, hown, htitle, hkey, h.goTo_eq hk rfl]
    exact .some hin
  | esc =>
    exact h.goes hentry hown rfl (.card (s := { s with focused := .card k }) hk hclosed rfl)
      rfl hk rfl
  | right =>
    have hgoal : s.keyGoal (.card k) (.lblTitle k) 0 .right = some (.btnCl k) := by
      rw [keyGoal, level_card]
      rfl
    exact h.goes hentry hown hgoal (.close (s := { s with focused := .btnCl k }) hk hclosed rfl)
      rfl hk rfl
  | left => exact h.stays hentry hown rfl rfl hk rfl
  | other code =>
    rw [keyEvent, hown, hentry.screenKeys]
    exact .some h

theorem InMenu.key_close {k : Nat} (h : s.InMenu list ⟨s.base, [1, s.base + k]⟩) (hk : k < s.cards)
    (hclosed : s.details = []) (hfocus : s.focused = .btnCl k) (key : LvKey) :
    Option.Rel (InMenu list) (s.keyEvent key) (Menu.key list ⟨s.base, [1, s.base + k]⟩ key) := by
  have hown : s.ownKeyCb key = none := by rw [ownKeyCb, hfocus]
  have hentry := entry_btnCl hfocus
  cases key with
  | enter =>
    have hgoal : s.keyGoal (.card k) (.btnCl k) 1 .enter = none := by
      have hleaf : s.objs.level s.objs.navigable (.btnCl k) = [] := PageObjs.levelOf_leaf rfl
      rw [keyGoal, hleaf, List.head?_nil]
    exact h.stays hentry hown hgoal rfl hk rfl
  | esc =>
    exact h.goes hentry hown rfl (.card (s := { s with focused := .card k }) hk hclosed rfl)
      rfl hk rfl
  | right =>
    have hgoal : s.keyGoal (.card k) (.btnCl k) 1 .right = none := by
      rw [keyGoal, level_card]
      rfl
    exact h.stays hentry hown hgoal rfl hk rfl
  | left =>
    have hgoal : s.keyGoal (.card k) (.btnCl k) 1 .left = some (.lblTitle k) := by
      rw [keyGoal, level_card]
      rfl
    exact h.goes hentry hown hgoal (.title (s := { s with focused := .lblTitle k }) hk hclosed rfl)
      rfl hk rfl
  | other code =>
    rw [keyEvent, hown, hentry.screenKeys]
    exact .some h

/-- The buttons are as many as the menu has below the detail screen. -/
theorem InMenu.count_detail {m : Menu} (h : s.InMenu list m) {d : Detail} {k : Nat}
    (hof : s.DetailOf d k) :
    Menu.count list [0, 0, s.base + k] = (NotiObj.bottomButtons d.action d.id).length := by
  have haction := hof.action
  rw [h.page.list] at haction
  obtain ⟨n, hn, hsome⟩ := Option.map_eq_some_iff.mp haction
  rw [Menu.count, hn, Option.elim_some, hsome]
  cases d.action <;> rfl

theorem InMenu.closes {k : Nat} {d : Detail} (h : s.InMenu list ⟨s.base, [0, 0, s.base + k]⟩)
    (hk : k < s.cards) (hof : s.DetailOf d k) :
    ∃ s', s.detailScreenKeyCb d.id .esc = some s' ∧ InMenu list s' ⟨s.base, [0, s.base + k]⟩ := by
  have hfound : s.details.find? (fun d' => d'.id = d.id) = some d := by
    rw [hof.opened, List.find?_cons_of_pos (by simp)]
  have hnone : s.details.filter (fun d' => d'.id ≠ d.id) = [] := by
    rw [hof.opened]
    simp
  refine ⟨(s.focusObj (some d.prevFocused)).deleteDetail d.id, ?_, h.page, rfl, ?_, h.clean⟩
  · rw [detailScreenKeyCb, if_pos rfl, hfound, Option.map_some, if_pos hof.drawing]
  · exact .title (s := (s.focusObj (some d.prevFocused)).deleteDetail d.id) hk hnone hof.prev

/-- LEFT apart, by which the focus would go to a card that the detail screen covers. -/
theorem InMenu.key_detail {k : Nat} {d : Detail} (h : s.InMenu list ⟨s.base, [0, 0, s.base + k]⟩)
    (hk : k < s.cards) (hof : s.DetailOf d k) (hfocus : s.focused = .detailScr d.id)
    {key : LvKey} (hkey : key ≠ .left) :
    Option.Rel (InMenu list) (s.keyEvent key)
      (Menu.key list ⟨s.base, [0, 0, s.base + k]⟩ key) := by
  have hown : s.ownKeyCb key = s.detailScreenKeyCb d.id key := by rw [ownKeyCb, hfocus]
  have hentry := entry_detailScr hof.opened hfocus
  cases key with
  | enter =>
    have hcount := h.count_detail hof
    have hbuttons : ∃ obj rest, NotiObj.bottomButtons d.action d.id = obj :: rest := by
      cases d.action <;> exact ⟨_, _, rfl⟩
    obtain ⟨obj, rest, hlist⟩ := hbuttons
    have hgoal : s.keyGoal .notificationScr (.detailScr d.id) s.cards .enter = some obj := by
      rw [keyGoal, level_detailScr hof.opened, hlist, List.head?_cons]
    have hplace : Place.first (Menu.count list) [0, 0, s.base + k] = [0, 0, 0, s.base + k] := by
      rw [Place.first, hcount, hlist, List.length_cons, if_pos (Nat.succ_pos _)]
    have hbutton : FocusAt { s with focused := obj } [0, 0, 0, s.base + k] :=
      .button (s := { s with focused := obj }) hk ⟨hof.opened, hof.prev, hof.drawing, hof.action⟩
        (by rw [hlist]; rfl)
    exact h.goes hentry hown hgoal hbutton (congrArg (fun q => some (Menu.goTo _ q)) hplace) hk rfl
  | esc =>
    obtain ⟨s', hdelete, hin⟩ := h.closes hk hof
    have hmenu : Menu.key list ⟨s.base, [0, 0, s.base + k]⟩ .esc =
        some ((⟨s.base, [0, 0, s.base + k]⟩ : Menu).goTo [0, s.base + k]) := rfl
    rw [keyEvent, hown, hdelete, hmenu, h.goTo_eq hk rfl]
    exact .some hin
  | right =>
    have hgoal : s.keyGoal .notificationScr (.detailScr d.id) s.cards .right = none := by
      rw [keyGoal, level_notificationScr_open hof.opened]
      exact List.getElem?_eq_none (by simp)
    exact h.stays hentry hown hgoal rfl hk rfl
  | left => exact absurd rfl hkey
  | other code =>
    rw [keyEvent, hown, hentry.screenKeys]
    exact .some h

theorem InMenu.key_button {k i : Nat} {d : Detail}
    (h : s.InMenu list ⟨s.base, [i, 0, 0, s.base + k]⟩) (hk : k < s.cards) (hof : s.DetailOf d k)
    (hfocus : (NotiObj.bottomButtons d.action d.id)[i]? = some s.focused) (key : LvKey) :
    Option.Rel (InMenu list) (s.keyEvent key)
      (Menu.key list ⟨s.base, [i, 0, 0, s.base + k]⟩ key) := by
  have hcount := h.count_detail hof
  have hentry := entry_button hof.opened hfocus
  have hbutton : s.focused = .detailBtnOk d.id ∨ s.focused = .detailBtnCl d.id :=
    (NotiObj.mem_bottomButtons.mp (List.mem_of_getElem? hfocus)).imp_left And.right
  have hown : s.ownKeyCb key = none := by
    rw [ownKeyCb]
    rcases hbutton with heq | heq <;> rw [heq]
  have hmoved {obj : NotiObj} {j : Nat}
      (hobj : (NotiObj.bottomButtons d.action d.id)[j]? = some obj) :
      FocusAt { s with focused := obj } [j, 0, 0, s.base + k] :=
    .button (s := { s with focused := obj }) hk ⟨hof.opened, hof.prev, hof.drawing, hof.action⟩ hobj
  have hi := (List.getElem?_eq_some_iff.mp hfocus).1
  cases key with
  | enter =>
    have hgoal : s.keyGoal (.detailScr d.id) s.focused i .enter = none := by
      have hleaf : s.objs.level s.objs.navigable s.focused = [] := by
        refine PageObjs.levelOf_leaf ?_
        rcases hbutton with heq | heq <;> rw [heq] <;> rfl
      rw [keyGoal, hleaf, List.head?_nil]
    exact h.stays hentry hown hgoal rfl hk rfl
  | esc =>
    exact h.goes hentry hown rfl
      (.detail (s := { s with focused := .detailScr d.id }) hk
        ⟨hof.opened, hof.prev, hof.drawing, hof.action⟩ rfl) rfl hk rfl
  | right =>
    have hgoal : s.keyGoal (.detailScr d.id) s.focused i .right =
        (NotiObj.bottomButtons d.action d.id)[i + 1]? := by
      rw [keyGoal, level_detailScr hof.opened]
    by_cases hnext : i + 1 < (NotiObj.bottomButtons d.action d.id).length
    · have hplace : Place.next (Menu.count list) [i, 0, 0, s.base + k] =
          [i + 1, 0, 0, s.base + k] := if_pos (hcount ▸ hnext)
      have hobj := List.getElem?_eq_getElem hnext
      exact h.goes hentry hown (hgoal.trans hobj) (hmoved hobj)
        (congrArg (fun q => some (Menu.goTo _ q)) hplace) hk rfl
    · have hplace : Place.next (Menu.count list) [i, 0, 0, s.base + k] =
          [i, 0, 0, s.base + k] := if_neg (hcount ▸ hnext)
      exact h.stays hentry hown
        (hgoal.trans (List.getElem?_eq_none (Nat.le_of_not_lt hnext)))
        (congrArg (fun q => some (Menu.goTo _ q)) hplace) hk rfl
  | left =>
    by_cases hfirst : i = 0
    · have hplace : Place.prev [i, 0, 0, s.base + k] = [i, 0, 0, s.base + k] := by
        rw [hfirst]
        rfl
      exact h.stays hentry hown (if_pos hfirst)
        (congrArg (fun q => some (Menu.goTo _ q)) hplace) hk rfl
    · have hprev : i - 1 < (NotiObj.bottomButtons d.action d.id).length := by omega
      have hobj := List.getElem?_eq_getElem hprev
      have hgoal : s.keyGoal (.detailScr d.id) s.focused i .left =
          (NotiObj.bottomButtons d.action d.id)[i - 1]? := by
        rw [keyGoal, if_neg hfirst, level_detailScr hof.opened]
      exact h.goes hentry hown (hgoal.trans hobj) (hmoved hobj) rfl hk rfl
  | other code =>
    rw [keyEvent, hown, hentry.screenKeys]
    exact .some h

end Keys

/-! ### Runs -/

/-- LEFT is not pressed on an open detail screen. -/
def DetailCovers (s : Option NotiScreen) (key : LvKey) : Prop :=
  key = .left → ∀ t ∈ s, t.focused.isDetailScr = false

instance (s : Option NotiScreen) (key : LvKey) : Decidable (DetailCovers s key) :=
  inferInstanceAs (Decidable (_ → ∀ t ∈ s, t.focused.isDetailScr = false))

/-- The notification `i` is drawn, and its close button dismisses it. -/
def Draws (list : List NotificationT) (s : NotiScreen) (i : Nat) : Prop :=
  ∃ card n p, s.page.drawnCards[i - s.base]? = some card ∧ list[i]? = some n ∧
    card.text = some (cardText n) ∧ s.page.dismissHandlerCb card = some p ∧
    notifications p.store = list.eraseIdx i

/-- The page shows the menu: the focus is at its place, on the card of the notification that
this is of. -/
structure Shows (list : List NotificationT) (s : NotiScreen) (m : Menu) : Prop where
  top : m.top = s.base
  focus : s.FocusAt m.place
  entry : ∀ i ∈ m.place.getLast?, Draws list s i
  clean : s.usedFreed = false

section Runs
variable {list : List NotificationT}

theorem inMenu_keyEvent {s : NotiScreen} {m : Menu} (h : s.InMenu list m) {key : LvKey}
    (hcovers : DetailCovers (some s) key) :
    Option.Rel (InMenu list) (s.keyEvent key) (m.key list key) := by
  obtain ⟨top, place⟩ := m
  have htop : top = s.base := h.top
  have hfocus : s.FocusAt place := h.focus
  subst htop
  cases hfocus with
  | screen hclosed hfocus => exact h.key_screen hclosed hfocus key
  | card hk hclosed hfocus => exact h.key_card hk hclosed hfocus key
  | title hk hclosed hfocus => exact h.key_title hk hclosed hfocus key
  | close hk hclosed hfocus => exact h.key_close hk hclosed hfocus key
  | detail hk hof hfocus =>
    refine h.key_detail hk hof hfocus fun heq => ?_
    have hcovered := hcovers heq s rfl
    rw [hfocus] at hcovered
    cases hcovered
  | button hk hof hfocus => exact h.key_button hk hof hfocus key

theorem inMenu_run {s : Option NotiScreen} {m : Option Menu} (h : Option.Rel (InMenu list) s m)
    {keys : List LvKey} (hcovers : Machine.EachStep keyStep DetailCovers s keys)
    {t : Option NotiScreen} (hrun : Machine.run keyStep s keys = some t) :
    ∃ q, Machine.run (Menu.step list) m keys = some q ∧ Option.Rel (InMenu list) t q := by
  induction keys generalizing s m with
  | nil =>
    cases hrun
    exact ⟨m, rfl, h⟩
  | cons key rest ih =>
    obtain ⟨s', hs, hrun⟩ := (Machine.run_cons_eq_some _).mp hrun
    cases h with
    | none => cases hs
    | @some s m h =>
      have hkey : keyStep (some s) key = some (s.keyEvent key) := by
        rw [keyStep, Option.bind_some, h.clean, if_neg Bool.false_ne_true]
      rw [hkey] at hs
      cases hs
      obtain ⟨q, hq, hrel⟩ := ih (inMenu_keyEvent h (hcovers.head hkey)) (hcovers.tail hkey) hrun
      exact ⟨q, (Machine.run_cons _ _ rfl).trans hq, hrel⟩

theorem DrawnFor.draws {s : NotiScreen} (h : DrawnFor list s.page) {k : Nat} (hk : k < s.cards) :
    Draws list s (s.base + k) := by
  obtain ⟨card, -, hcard, -⟩ := h.cardOf hk
  obtain ⟨n, p, hn, htext, hcb, herased, -⟩ := Page.dismiss_fresh h.sound h.fresh hcard
  rw [h.list] at hn herased
  refine ⟨card, n, p, ?_, hn, htext, hcb, herased⟩
  rw [Nat.add_sub_cancel_left, hcard]

theorem InMenu.shows {s : NotiScreen} {m : Menu} (h : s.InMenu list m) : s.Shows list m := by
  refine ⟨h.top, h.focus, fun i hi => ?_, h.clean⟩
  cases hplace : m.place with
  | nil =>
    rw [hplace] at hi
    cases hi
  | cons j up =>
    have hfocus := h.focus
    rw [hplace] at hi hfocus
    cases hfocus with
    | card hk hclosed hfocus | title hk hclosed hfocus | close hk hclosed hfocus
    | detail hk hof hfocus | button hk hof hfocus =>
      cases hi
      exact h.page.draws hk

theorem drawnFor_reached {before : List Page.PageAction} {p : Page}
    (hp : Machine.run Page.pageStep Page.boot before = some p) (hnotify : p.currWatchState = .notify) :
    DrawnFor (notifications p.store) p := by
  have hinv := @Machine.always_of_invariant Page Page.PageAction Page.pageStep
    (fun p => p.Sound ∧ p.Fresh) Page.boot before
    ⟨Page.sound_boot, fun hdrawn => absurd rfl hdrawn⟩ fun p action p' h hstep =>
      Page.pageStep_sound h hstep
  obtain ⟨hsound, hfresh⟩ := hinv before [] p (List.append_nil _).symm hp
  exact ⟨hsound, hfresh, hsound.shown.mpr hnotify, rfl⟩

/-- Five notifications, the second oldest a call. -/
def fiveArrived : List Page.PageAction :=
  let noti (app : PhoneApp) : NotificationT := { NotificationT.zero with app := app }
  [.lvgl .initUi, .arrive (noti .message), .arrive (noti .call), .arrive (noti .message),
    .arrive (noti .message), .arrive (noti .message), .lvgl .leftOnRoot]

/-- LEFT on a detail screen puts the focus on the third card behind it; the cards are drawn
again, and when ESC closes that detail screen in the end, the title it gives the focus to is
gone. -/
theorem esc_uses_freed :
    ∃ p ∈ Machine.run Page.pageStep Page.boot fiveArrived,
      ∃ s ∈ Machine.run keyStep (some (shown p))
        [.enter, .enter, .enter, .left, .right, .enter, .enter, .left, .esc],
      ∃ t ∈ s, t.usedFreed = true := by
  decide +kernel

end Runs

end NotiScreen

end MinimalWatch.Notification
