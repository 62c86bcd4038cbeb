import Mathlib.Algebra.GroupWithZero.Nat
import Mathlib.Data.Nat.Init
import MinimalWatch.Lib.Buffer
import MinimalWatch.Lib.Machine
import MinimalWatch.Lib.Slots

/-! The notification store of notification_manager.c: an array filled from the top
down, the newest entry at `writeIdx`. The store carries the balance of its two
counters. Against it stands a newest-first list of at most 20 entries. A dismissal
is the list's removal; an arrival in a full store shifts the array the wrong way. -/

namespace MinimalWatch.Notification
open Firmware Firmware.Memory Firmware.Slots

def maxNotification : Nat := 20

/-- `phone_app_t`; the enumeration is read from a byte, so other values occur. -/
inductive PhoneApp
  | whatsapp
  | message
  | navigation
  | call
  | unknown
  | other (code : UInt8)
  deriving DecidableEq, Repr

inductive Handler
  | notificationInit
  | dismissNotification
  | other (address : Nat)
  deriving DecidableEq, Repr

structure NotificationT where
  app : PhoneApp
  appName : Buffer UInt8 14
  body : Buffer UInt8 100
  actionName : Buffer UInt8 15
  dismissText : Buffer UInt8 15
  actionHandler : Option Handler
  dismissHandler : Option Handler
  deriving DecidableEq, Repr

def NotificationT.zero : NotificationT :=
  ⟨.whatsapp, .fill 14 0, .fill 100 0, .fill 15 0, .fill 15 0, none, none⟩

def assignHandlers (notification : NotificationT) : NotificationT :=
  match notification.app with
  | .navigation =>
    { notification with
      actionHandler := some .notificationInit, dismissHandler := some .dismissNotification }
  | .call =>
    { notification with
      actionHandler := some .notificationInit, dismissHandler := some .dismissNotification }
  | _ => { notification with dismissHandler := some .dismissNotification }

structure Store where
  allNoti : Vector NotificationT maxNotification
  notiLen : Nat
  writeIdx : Nat
  balanced : writeIdx + notiLen = maxNotification

def Store.init : Store := ⟨Vector.replicate maxNotification .zero, 0, maxNotification, rfl⟩

/-- The shift at the start of an arrival in a full store. -/
def dropLastNotification (s : Store) : Store :=
  if h : s.writeIdx = 0 then
    { allNoti := closeDown s.allNoti (maxNotification - 1)
      notiLen := s.notiLen - 1
      writeIdx := s.writeIdx + 1
      balanced := by
        have hb := s.balanced
        have hmax : maxNotification = 20 := rfl
        omega }
  else s

theorem dropLastNotification_writeIdx (s : Store) : 0 < (dropLastNotification s).writeIdx := by
  rw [dropLastNotification]
  split_ifs with h
  · exact Nat.succ_pos _
  · exact Nat.pos_of_ne_zero h

/-- The rest of an arrival, with a slot free below the newest entry. -/
def storeNotification (s : Store) (h : 0 < s.writeIdx) (noti : NotificationT) : Store where
  allNoti := s.allNoti.setIfInBounds (s.writeIdx - 1) (assignHandlers noti)
  notiLen := s.notiLen + 1
  writeIdx := s.writeIdx - 1
  balanced := by
    have hb := s.balanced
    omega

def receiveNotification (s : Store) (noti : NotificationT) : Store :=
  storeNotification (dropLastNotification s) (dropLastNotification_writeIdx s) noti

/-- The length and the entries from `all_noti[write_idx]` on; `none` is NULL. -/
def getAllNotifications (s : Store) : Nat × Option (List NotificationT) :=
  (s.notiLen, if s.writeIdx ≥ maxNotification then none else some (live s.allNoti s.writeIdx))

def getTotalNotifications (s : Store) : Nat := s.notiLen

/-- The sum of the two unsigned values wraps at 32 bits. -/
def retreiveNotification (s : Store) (idx : UInt32) : Option NotificationT :=
  let slot := (idx.toNat + s.writeIdx) % 2 ^ 32
  if slot ≥ maxNotification then none else s.allNoti[slot]?

def dismissNotification (s : Store) (idx : Nat) : Store :=
  if h : idx ≥ s.notiLen then s
  else
    { allNoti := openUp s.allNoti (s.writeIdx + idx) idx
      notiLen := s.notiLen - 1
      writeIdx := s.writeIdx + 1
      balanced := by
        have hb := s.balanced
        omega }

/-! ### What the calls do to the list -/

/-- The `noti_len` entries read through the pointer. -/
def notifications (s : Store) : List NotificationT :=
  ((getAllNotifications s).2.getD []).take (getAllNotifications s).1

theorem notifications_eq (s : Store) : notifications s = live s.allNoti s.writeIdx := by
  have hb := s.balanced
  have hlen := live_length s.allNoti s.writeIdx
  simp only [notifications, getAllNotifications]
  split_ifs with hw
  · have hnil : live s.allNoti s.writeIdx = [] := List.eq_nil_of_length_eq_zero (by omega)
    simp [hnil]
  · rw [Option.getD_some]
    exact List.take_of_length_le (by omega)

@[simp] theorem notifications_length (s : Store) : (notifications s).length = s.notiLen := by
  have hb := s.balanced
  rw [notifications_eq, live_length]
  omega

theorem getElem?_notifications (s : Store) (k : Nat) :
    (notifications s)[k]? = s.allNoti[s.writeIdx + k]? := by
  rw [notifications_eq, getElem?_live]

/-- The intended meaning of an arrival: in front, and the oldest of 20 goes. -/
def specReceive (list : List NotificationT) (noti : NotificationT) : List NotificationT :=
  (assignHandlers noti :: list).take maxNotification

/-- The intended meaning of a dismissal. -/
def specDismiss (list : List NotificationT) (idx : Nat) : List NotificationT :=
  if idx < list.length then list.eraseIdx idx else list

theorem notifications_dismiss (s : Store) (idx : Nat) :
    notifications (dismissNotification s idx) = specDismiss (notifications s) idx := by
  have hb := s.balanced
  rw [specDismiss, notifications_length]
  by_cases hidx : idx ≥ s.notiLen
  · rw [dismissNotification, dif_pos hidx, if_neg (by omega)]
  · rw [if_pos (by omega)]
    apply List.ext_getElem?
    intro k
    have hshift := @getElem?_openUp _ _ s.allNoti (s.writeIdx + idx) idx (by omega) (by omega)
    rw [getElem?_notifications, List.getElem?_eraseIdx, getElem?_notifications,
      getElem?_notifications, dismissNotification, dif_neg hidx]
    simp only [hshift]
    by_cases hk : k < idx
    · rw [if_pos (by omega), if_pos hk]
      congr 1
      omega
    · rw [if_neg (by omega), if_neg hk]
      congr 1
      omega

theorem notifications_store (s : Store) (h : 0 < s.writeIdx) (noti : NotificationT) :
    notifications (storeNotification s h noti) = assignHandlers noti :: notifications s := by
  have hb := s.balanced
  apply List.ext_getElem?
  intro k
  rw [getElem?_notifications]
  simp only [storeNotification, Vector.getElem?_setIfInBounds]
  cases k with
  | zero => rw [if_pos (by omega), if_pos (by omega), List.getElem?_cons_zero]
  | succ k =>
    rw [if_neg (by omega), List.getElem?_cons_succ, getElem?_notifications]
    congr 1
    omega

theorem notifications_receive_room (s : Store) (noti : NotificationT)
    (hroom : s.notiLen < maxNotification) :
    notifications (receiveNotification s noti) = specReceive (notifications s) noti := by
  have hb := s.balanced
  have hdrop : dropLastNotification s = s := by rw [dropLastNotification, dif_neg (by omega)]
  rw [receiveNotification, notifications_store, hdrop, specReceive, List.take_of_length_le]
  rw [List.length_cons, notifications_length]
  omega

/-- The shift of a full store loses its newest entry and has the oldest one twice; the
slot of the second newest is the one that is then overwritten. -/
theorem notifications_dropLast (s : Store) (hfull : s.notiLen = maxNotification) :
    notifications (dropLastNotification s) =
      (notifications s).drop 2 ++ (notifications s).drop 19 := by
  have hb := s.balanced
  have hw : s.writeIdx = 0 := by omega
  have hmax : maxNotification = 20 := rfl
  have hlen := notifications_length s
  apply List.ext_getElem?
  intro k
  have hslot := @getElem?_closeDown _ _ s.allNoti (maxNotification - 1) (by omega)
  rw [getElem?_notifications, dropLastNotification, dif_pos hw]
  simp only [hslot, hw, List.getElem?_append, List.getElem?_drop, List.length_drop,
    getElem?_notifications, Nat.zero_add]
  split_ifs with hk hk'
  · congr 1
    omega
  · omega
  · omega
  · congr 1
    omega

theorem notifications_receive_full (s : Store) (noti : NotificationT)
    (hfull : s.notiLen = maxNotification) :
    notifications (receiveNotification s noti) =
      assignHandlers noti :: ((notifications s).drop 2 ++ (notifications s).drop 19) := by
  rw [receiveNotification, notifications_store, notifications_dropLast s hfull]

/-- What an arrival leaves of the entries that are there: all of them while there is room, and
of a full store what the shift leaves. -/
def keptEntries (s : Store) : List NotificationT :=
  if s.notiLen = maxNotification then (notifications s).drop 2 ++ (notifications s).drop 19
  else notifications s

theorem notifications_receive (s : Store) (noti : NotificationT) :
    notifications (receiveNotification s noti) = assignHandlers noti :: keptEntries s := by
  have hb := s.balanced
  rw [keptEntries]
  split_ifs with hfull
  · exact notifications_receive_full s noti hfull
  · rw [notifications_receive_room s noti (by omega), specReceive, List.take_of_length_le]
    rw [List.length_cons, notifications_length]
    omega

/-! ### Runs -/

/-- All entries are the same, so that it does not matter which of them go. -/
def AllSame (list : List NotificationT) : Prop := ∀ x ∈ list, ∀ y ∈ list, x = y

instance (list : List NotificationT) : Decidable (AllSame list) :=
  inferInstanceAs (Decidable (∀ x ∈ list, ∀ y ∈ list, x = y))

theorem allSame_of_getElem? {list : List NotificationT} {last : Option NotificationT}
    (h : ∀ i < list.length, list[i]? = last) : AllSame list := by
  intro x hx y hy
  obtain ⟨i, hi, rfl⟩ := List.mem_iff_getElem.mp hx
  obtain ⟨j, hj, rfl⟩ := List.mem_iff_getElem.mp hy
  have hsame := (h i hi).trans (h j hj).symm
  rw [List.getElem?_eq_getElem hi, List.getElem?_eq_getElem hj] at hsame
  exact Option.some.inj hsame

theorem AllSame.getElem? {list : List NotificationT} (h : AllSame list) {i j : Nat}
    (hi : i < list.length) (hj : j < list.length) : list[i]? = list[j]? := by
  rw [List.getElem?_eq_getElem hi, List.getElem?_eq_getElem hj,
    h _ (List.getElem_mem hi) _ (List.getElem_mem hj)]

/-- Moving every entry by two places changes nothing only when all are the same. -/
theorem shifted_eq_iff {list : List NotificationT} (hlen : list.length = 20) :
    list.drop 2 ++ list.drop 19 = list.take 19 ↔ AllSame list := by
  constructor
  · intro h
    have hstep : ∀ i, i < 19 → list[i]? = if i < 18 then list[i + 2]? else list[19]? := by
      intro i hi
      have hi' := congrArg (fun l => l[i]?) h
      simp only [List.getElem?_append, List.length_drop, hlen, List.getElem?_drop,
        List.getElem?_take_of_lt hi] at hi'
      rw [← hi']
      split_ifs
      · congr 1
        omega
      · congr 1
        omega
    have hback : ∀ k, k ≤ 19 → list[19 - k]? = list[19]? := by
      intro k
      induction k using Nat.twoStepInduction with
      | zero =>
        intro _
        rfl
      | one =>
        intro _
        exact hstep 18 (by omega)
      | more k ih _ =>
        intro hk
        have hk' := hstep (19 - (k + 2)) (by omega)
        rw [if_pos (by omega), show 19 - (k + 2) + 2 = 19 - k by omega, ih (by omega)] at hk'
        exact hk'
    have hall : ∀ i < list.length, list[i]? = list[19]? := by
      intro i hi
      have hi' := hback (19 - i) (by omega)
      rwa [show 19 - (19 - i) = i by omega] at hi'
    exact allSame_of_getElem? hall
  · intro h
    apply List.ext_getElem?
    intro i
    simp only [List.getElem?_append, List.length_drop, hlen, List.getElem?_drop,
      List.getElem?_take]
    split_ifs
    · exact h.getElem? (by omega) (by omega)
    · omega
    · exact h.getElem? (by omega) (by omega)
    · exact List.getElem?_eq_none (by omega)

theorem notifications_receive_iff (s : Store) (noti : NotificationT) :
    notifications (receiveNotification s noti) = specReceive (notifications s) noti ↔
      (s.notiLen = maxNotification → AllSame (notifications s)) := by
  have hb := s.balanced
  by_cases hfull : s.notiLen = maxNotification
  · have hlen : (notifications s).length = 20 := by rw [notifications_length, hfull]; rfl
    rw [notifications_receive_full s noti hfull, specReceive, ← shifted_eq_iff hlen]
    simp [maxNotification, hfull]
  · have hroom := notifications_receive_room s noti (by omega)
    simp [hroom, hfull]

inductive StoreCall
  | receive (noti : NotificationT)
  | dismiss (idx : Nat)

def storeCall (s : Store) : StoreCall → Store
  | .receive noti => receiveNotification s noti
  | .dismiss idx => dismissNotification s idx

def specCall (list : List NotificationT) : StoreCall → List NotificationT
  | .receive noti => specReceive list noti
  | .dismiss idx => specDismiss list idx

/-- The store and the list side by side, under the same calls. -/
def bothCall (s : Store × List NotificationT) (call : StoreCall) :
    Option (Store × List NotificationT) :=
  some (storeCall s.1 call, specCall s.2 call)

/-- An arrival does not meet a full store, unless with all its entries the same. -/
def Harmless (s : Store × List NotificationT) : StoreCall → Prop
  | .receive _ => s.1.notiLen = maxNotification → AllSame (notifications s.1)
  | .dismiss _ => True

theorem bothCall_iff {s s' : Store × List NotificationT} {call : StoreCall}
    (h : notifications s.1 = s.2) (hcall : bothCall s call = some s') :
    notifications s'.1 = s'.2 ↔ Harmless s call := by
  rw [← Option.some.inj hcall]
  cases call with
  | receive noti =>
    simp only [storeCall, specCall, ← h]
    exact notifications_receive_iff s.1 noti
  | dismiss idx =>
    simp only [storeCall, specCall, ← h, Harmless, iff_true]
    exact notifications_dismiss s.1 idx

/-- From the start, the store is the newest-first list of at most 20 entries all along
a sequence of arrivals and dismissals exactly when no arrival of it meets a full
store with different entries. -/
theorem store_refines_iff (calls : List StoreCall) :
    Machine.Always bothCall (fun s => notifications s.1 = s.2) (Store.init, []) calls ↔
      Machine.EachStep bothCall Harmless (Store.init, []) calls := by
  have hstart : notifications Store.init = [] :=
    List.eq_nil_of_length_eq_zero (notifications_length Store.init)
  exact Machine.always_iff_eachStep hstart (fun _ h => h)
    (fun _ _ _ h hharmless hcall => (bothCall_iff h hcall).mpr hharmless)
    (fun _ _ _ h hharm hcall hsame => hharm ((bothCall_iff h hcall).mp hsame))

/-- Twenty-one arrivals: the store keeps the last one and the eighteen oldest, with the
oldest of all twice. -/
theorem store_drops_newest :
    let calls := (List.range 21).map fun k =>
      StoreCall.receive { NotificationT.zero with app := .other (UInt8.ofNat k) }
    ((notifications (calls.foldl storeCall Store.init)).map NotificationT.app =
      [20, 17, 16, 15, 14, 13, 12, 11, 10, 9, 8, 7, 6, 5, 4, 3, 2, 1, 0, 0].map .other) ∧
    notifications (calls.foldl storeCall Store.init) ≠ calls.foldl specCall [] := by
  decide +kernel

end MinimalWatch.Notification
