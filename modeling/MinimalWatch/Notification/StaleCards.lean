import MinimalWatch.Lib.Machine
import MinimalWatch.Notification.Cards

/-! Dismissals while the maintenance thread is between storing a notification and having the
page drawn again. The callback counts from the top of the store as it is now; a card was
drawn from the store as it was. -/

namespace MinimalWatch.Notification
open Firmware
open Page (LvglAction lvglStep)

/-- `refreshDue`: the maintenance thread has returned from `receive_notification` and not yet
called `update_notification_ui`. -/
structure Threads where
  page : Page
  refreshDue : Bool

inductive ThreadAction
  | receiveNotification (noti : NotificationT)
  | updateNotificationUi
  | lvgl (action : LvglAction)

namespace Threads

def boot : Threads := ⟨Page.boot, false⟩

def step (t : Threads) : ThreadAction → Option Threads
  | .receiveNotification noti => if t.refreshDue then none else some ⟨t.page.receive noti, true⟩
  | .updateNotificationUi => if t.refreshDue then some ⟨t.page.updateNotificationUi, false⟩ else none
  | .lvgl action => (t.page.lvglStep action).map fun page => { t with page := page }

/-- The dismissal on the card at a position removes one entry, with the text of the card. -/
def RemovesShown (p : Page) (position : Nat) : Prop :=
  ∀ card ∈ p.drawnCards[position]?, ∃ p' ∈ p.dismissHandlerCb card, ∃ j < p.store.notiLen,
    (notifications p.store)[j]?.map cardText = card.text ∧
    notifications p'.store = (notifications p.store).eraseIdx j

instance (p : Page) (position : Nat) : Decidable (RemovesShown p position) :=
  inferInstanceAs (Decidable (∀ card ∈ p.drawnCards[position]?,
    ∃ p' ∈ p.dismissHandlerCb card, ∃ j < p.store.notiLen,
      (notifications p.store)[j]?.map cardText = card.text ∧
      notifications p'.store = (notifications p.store).eraseIdx j))

def dismissal : ThreadAction → Option Nat
  | .lvgl (.dismiss position) => some position
  | _ => none

def DismissesShown (t : Threads) (action : ThreadAction) : Prop :=
  ∀ position ∈ dismissal action, RemovesShown t.page position

instance (t : Threads) (action : ThreadAction) : Decidable (DismissesShown t action) :=
  inferInstanceAs (Decidable (∀ position ∈ dismissal action, RemovesShown t.page position))

/-! ### Cards that are drawn again -/

/-- Whether the cards have been drawn since the last arrival. -/
def redrawn (t : Threads) (action : ThreadAction) (t' : Threads) (drawn : Bool) : Bool :=
  match action with
  | .receiveNotification _ => false
  | .lvgl (.dismiss _) => true
  | .updateNotificationUi => drawn || t.page.currWatchState = .notify
  | .lvgl _ =>
    drawn || t'.page.notiCurrBaseIdx ≠ t.page.notiCurrBaseIdx ||
      t'.page.currWatchState ≠ t.page.currWatchState

def recorded : Threads × Bool → ThreadAction → Option (Threads × Bool) :=
  Machine.recording step redrawn

/-- A dismissed card was drawn since the last arrival, and the pointer of the page is the one
that `get_all_notifications` returns now. -/
def DrawnSince (s : Threads × Bool) (action : ThreadAction) : Prop :=
  dismissal action ≠ none →
    s.2 = true ∧ s.1.page.notifList = (getAllNotificationsAt s.1.page.store).2

instance (s : Threads × Bool) (action : ThreadAction) : Decidable (DrawnSince s action) :=
  inferInstanceAs (Decidable (dismissal action ≠ none → _))

/-- Between the steps the page is in order, and up to date when drawn since the last arrival. -/
structure Kept (s : Threads × Bool) : Prop where
  sound : s.1.page.Sound
  fresh : s.2 = true → s.1.page.Current → s.1.page.Fresh

theorem Kept.fresh_dismiss {s : Threads × Bool} {position : Nat} (h : Kept s)
    (hdrawn : DrawnSince s (.lvgl (.dismiss position))) : s.1.page.Fresh := by
  obtain ⟨hrecord, hlist⟩ := hdrawn (Option.some_ne_none position)
  exact h.fresh hrecord (h.sound.current hlist)

theorem removesShown_of_fresh {p : Page} (h : p.Sound) (hfresh : p.Fresh) (position : Nat) :
    RemovesShown p position := by
  intro card hcard
  obtain ⟨n, p', hn, htext, hcb, herased, -⟩ := Page.dismiss_fresh h hfresh hcard
  have hlt := (List.getElem?_eq_some_iff.mp hn).1
  rw [notifications_length] at hlt
  refine ⟨p', hcb, p.notiCurrBaseIdx.toNat + position, hlt, ?_, herased⟩
  rw [hn, htext, Option.map_some]

/-- A callback of the LVGL thread. -/
theorem Kept.lvgl {t t' : Threads} {drawn : Bool} {action : LvglAction} (h : Kept (t, drawn))
    (hdismiss : ∀ position, action = .dismiss position → t.page.Fresh)
    (hstep : step t (.lvgl action) = some t') :
    Kept (t', redrawn t (.lvgl action) t' drawn) := by
  obtain ⟨page, hpage, rfl⟩ := Option.map_eq_some_iff.mp hstep
  have hfollows := Page.follows_lvglStep h.sound hdismiss hpage
  refine ⟨hfollows.sound, fun hrecord hcurrent => ?_⟩
  rcases hfollows.redrawn with rfl | hfresh
  · cases action with
    | dismiss position => exact hdismiss position rfl
    | _ =>
      simp only [redrawn, ne_eq, not_true_eq_false, decide_false, Bool.or_false] at hrecord
      exact h.fresh hrecord hcurrent
  · exact hfresh hcurrent

theorem Kept.step {s s' : Threads × Bool} {action : ThreadAction} (h : Kept s)
    (hdrawn : DrawnSince s action) (hstep : recorded s action = some s') :
    Kept s' ∧ DismissesShown s.1 action := by
  obtain ⟨t', ht, rfl⟩ := Machine.recording_some _ _ hstep
  cases action with
  | receiveNotification noti =>
    rw [Threads.step] at ht
    split_ifs at ht
    rw [← Option.some.inj ht]
    exact ⟨⟨h.sound.receive noti, fun hrecord => by cases hrecord⟩, fun _ hnone => nomatch hnone⟩
  | updateNotificationUi =>
    rw [Threads.step] at ht
    split_ifs at ht
    rw [← Option.some.inj ht]
    exact ⟨⟨h.sound.update, fun _ _ => h.sound.fresh_update⟩, fun _ hnone => nomatch hnone⟩
  | lvgl action =>
    have hfresh : ∀ position, action = .dismiss position → s.1.page.Fresh := by
      rintro position rfl
      exact h.fresh_dismiss hdrawn
    refine ⟨Kept.lvgl h hfresh ht, fun position hposition => ?_⟩
    cases action with
    | dismiss position =>
      rw [← Option.some.inj hposition]
      exact removesShown_of_fresh h.sound (hfresh position rfl) position
    | _ => cases hposition

/-- Every dismissal removes what its card shows, along every interleaving whose dismissals
are on cards drawn since the last arrival. -/
theorem dismisses_shown_when_drawn {actions : List ThreadAction}
    (h : Machine.EachStep recorded DrawnSince (boot, true) actions) :
    Machine.EachStep recorded (fun s action => DismissesShown s.1 action) (boot, true) actions := by
  have hboot : Kept (boot, true) := ⟨Page.sound_boot, fun _ _ hdrawn => absurd rfl hdrawn⟩
  exact @Machine.EachStep.imp (Threads × Bool) ThreadAction recorded Kept
    (fun s action => DismissesShown s.1 action) DrawnSince (boot, true) actions hboot
    (fun s action s' hkept hdrawn hstep => hkept.step hdrawn hstep) h

def titled (letter : UInt8) : NotificationT :=
  { NotificationT.zero with appName := (Memory.Buffer.fill 14 0).blit 0 [letter] }

/-- The page is opened on `first`; then `second` is stored. -/
def storedWhileOpen (first second : NotificationT) : List ThreadAction :=
  [.lvgl .initUi, .receiveNotification first, .updateNotificationUi, .lvgl .leftOnRoot,
    .receiveNotification second]

theorem dismisses_shown_after_refresh :
    Machine.EachStep recorded (fun s action => DismissesShown s.1 action) (boot, true)
      (storedWhileOpen (titled 65) (titled 66) ++ [.updateNotificationUi, .lvgl (.dismiss 1)]) :=
  dismisses_shown_when_drawn (by decide +kernel)

/-- The only card shows `A`; dismissed before the refresh, it removes `B`. -/
theorem dismiss_removes_arrived :
    let actions := storedWhileOpen (titled 65) (titled 66) ++ [.lvgl (.dismiss 0)]
    ((Machine.run step boot actions).map fun t => (notifications t.page.store).map cardText) =
      some [cardText (titled 65)] ∧
    ¬ Machine.EachStep step DismissesShown boot actions := by
  decide +kernel

end Threads

end MinimalWatch.Notification
