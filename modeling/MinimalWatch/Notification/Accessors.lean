import Mathlib.Tactic.Common
import MinimalWatch.Lib.Loop
import MinimalWatch.Notification.Cards

/-! The calls of notification_manager.c in the widths of the source. The accessors hand out
slots of the array: one bounds its index by a sum that wraps at 32 bits, the others by the
two counters. A dismissal shifts the newer entries with a loop over an `int` that is compared
with an `unsigned`; beside it runs a record of the slots it touches. -/

namespace MinimalWatch.Notification
open Firmware Firmware.Slots

/-! ### The accessors -/

/-- `retreive_notification` with the slot that the pointer is to; `none` is NULL. -/
def retreiveNotificationAt (s : Store) (idx : UInt32) : Option Nat :=
  let slot := (idx + UInt32.ofNat s.writeIdx).toNat
  if slot ≥ maxNotification then none else some slot

theorem retreiveNotificationAt_slot (s : Store) (idx : UInt32) :
    (idx + UInt32.ofNat s.writeIdx).toNat = (idx.toNat + s.writeIdx) % 2 ^ 32 := by
  rw [UInt32.toNat_add, UInt32.toNat_ofNat', Nat.add_mod_mod]

theorem retreiveNotification_eq (s : Store) (idx : UInt32) :
    retreiveNotification s idx =
      (retreiveNotificationAt s idx).bind fun slot => s.allNoti[slot]? := by
  simp only [retreiveNotification, retreiveNotificationAt, retreiveNotificationAt_slot]
  split_ifs <;> rfl

/-- What the read accessors say of one index: they have the same length, the same entries
and only slots of entries that are there. -/
structure AccessorsAgree (s : Store) (idx : UInt32) : Prop where
  length : (getAllNotificationsAt s).1.toNat = getTotalNotifications s
  null : (getAllNotificationsAt s).2 = none ↔ getTotalNotifications s = 0
  nonNull : (retreiveNotificationAt s idx).isSome ↔ idx.toNat < getTotalNotifications s
  entry : idx.toNat < getTotalNotifications s →
    retreiveNotificationAt s idx = (getAllNotificationsAt s).2.map (· + idx.toNat) ∧
      retreiveNotification s idx = (notifications s)[idx.toNat]?
  live : ∀ slot, retreiveNotificationAt s idx = some slot ∨
    (getAllNotificationsAt s).2 = some slot → s.writeIdx ≤ slot ∧ slot < maxNotification

theorem getAllNotificationsAt_none (s : Store) :
    (getAllNotificationsAt s).2 = none ↔ getTotalNotifications s = 0 := by
  have hb := s.balanced
  rw [getAllNotificationsAt, getTotalNotifications]
  split_ifs with hw
  · exact ⟨fun _ => by omega, fun _ => rfl⟩
  · exact ⟨False.elim, fun h => absurd h (by omega)⟩

theorem getAllNotificationsAt_some {s : Store} {slot : Nat}
    (h : (getAllNotificationsAt s).2 = some slot) :
    slot = s.writeIdx ∧ s.writeIdx < maxNotification := by
  rw [getAllNotificationsAt] at h
  split_ifs at h with hw
  exact ⟨(Option.some.inj h).symm, Nat.lt_of_not_le hw⟩

/-- Without a wrap the sum is the slot, and its bound is that of the length. -/
theorem retreiveNotificationAt_fits {s : Store} {idx : UInt32}
    (h : idx.toNat + s.writeIdx < 2 ^ 32) :
    retreiveNotificationAt s idx =
      if idx.toNat < s.notiLen then some (s.writeIdx + idx.toNat) else none := by
  have hb := s.balanced
  simp only [retreiveNotificationAt, retreiveNotificationAt_slot, Nat.mod_eq_of_lt h]
  by_cases hidx : idx.toNat < s.notiLen
  · rw [if_neg (by omega), if_pos hidx, Nat.add_comm]
  · rw [if_pos (by omega), if_neg hidx]

/-- After a wrap there is always a slot, and it is below the newest entry. -/
theorem retreiveNotificationAt_wraps {s : Store} {idx : UInt32}
    (h : 2 ^ 32 ≤ idx.toNat + s.writeIdx) :
    ∃ slot, retreiveNotificationAt s idx = some slot ∧ slot < s.writeIdx := by
  have hb := s.balanced
  have hidx := idx.toNat_lt
  simp only [retreiveNotificationAt, retreiveNotificationAt_slot]
  refine ⟨_, if_neg ?_, ?_⟩ <;> omega

/-- For every store, the accessors agree on an index exactly when its sum with `write_idx`
does not wrap. -/
theorem accessors_agree_iff (s : Store) (idx : UInt32) :
    AccessorsAgree s idx ↔ idx.toNat + s.writeIdx < 2 ^ 32 := by
  have hb := s.balanced
  constructor
  · intro h
    by_contra hwrap
    obtain ⟨slot, hslot, hlow⟩ := retreiveNotificationAt_wraps (Nat.le_of_not_lt hwrap)
    have hlive := (h.live slot (Or.inl hslot)).1
    omega
  · intro h
    have hret := retreiveNotificationAt_fits h
    refine ⟨Page.snapshotLen_toNat s, getAllNotificationsAt_none s, ?_, fun hidx => ?_,
      fun slot hslot => ?_⟩
    · rw [hret, getTotalNotifications]
      split_ifs with hidx <;> simp [hidx]
    · rw [getTotalNotifications] at hidx
      have hsome : (getAllNotificationsAt s).2 = some s.writeIdx := by
        rw [getAllNotificationsAt, if_neg (by omega)]
      rw [retreiveNotification_eq, hret, if_pos hidx, hsome, getElem?_notifications]
      exact ⟨rfl, rfl⟩
    · rcases hslot with hslot | hslot
      · rw [hret] at hslot
        split_ifs at hslot with hidx
        have hsum := Option.some.inj hslot
        omega
      · obtain ⟨rfl, hw⟩ := getAllNotificationsAt_some hslot
        exact ⟨Nat.le_refl _, hw⟩

/-- The last index of all gives a slot of the store that nothing has come into yet. -/
theorem accessors_disagree_empty :
    retreiveNotificationAt Store.init 4294967295 = some 19 ∧
    getTotalNotifications Store.init = 0 ∧
    ¬ ∀ (calls : List StoreCall) (idx : UInt32),
      AccessorsAgree (calls.foldl storeCall Store.init) idx := by
  refine ⟨by decide, rfl, fun h => ?_⟩
  have hlive := ((h [] 4294967295).live 19 (Or.inl (by decide))).1
  exact absurd hlive (by decide)

/-! ### A dismissal in the widths of the source -/

/-- The three variables of the store as they are declared. -/
structure StoreVars where
  allNoti : Vector NotificationT maxNotification
  notiLen : UInt32
  writeIdx : UInt32

def Store.vars (s : Store) : StoreVars :=
  ⟨s.allNoti, UInt32.ofNat s.notiLen, UInt32.ofNat s.writeIdx⟩

theorem Store.vars_notiLen_toNat (s : Store) : s.vars.notiLen.toNat = s.notiLen := by
  have hb := s.balanced
  have hmax : maxNotification = 20 := rfl
  exact UInt32.toNat_ofNat_of_lt' (by rw [UInt32.size]; omega)

theorem Store.vars_writeIdx_toNat (s : Store) : s.vars.writeIdx.toNat = s.writeIdx := by
  have hb := s.balanced
  have hmax : maxNotification = 20 := rfl
  exact UInt32.toNat_ofNat_of_lt' (by rw [UInt32.size]; omega)

/-- The loop of a dismissal: its `int`, the array, and the indices used so far. -/
structure DismissLoop where
  i : Int32
  allNoti : Vector NotificationT maxNotification
  accessed : List Int

/-- `i > write_idx` compares as `unsigned int`; a pass reads slot `i - 1` and writes `i`. -/
def dismissIteration (writeIdx : UInt32) (l : DismissLoop) : DismissLoop ⊕ DismissLoop :=
  if l.i.toUInt32 > writeIdx then
    .inl
      { i := l.i - 1
        allNoti := copySlot l.allNoti l.i.toInt.toNat (l.i - 1).toInt.toNat
        accessed := l.accessed ++ [(l.i - 1).toInt, l.i.toInt] }
  else .inr l

/-- The store after the call with the indices used; `none` is a loop that does not end. -/
def dismissVars (v : StoreVars) (idx : UInt32) : Option (StoreVars × List Int) :=
  if idx ≥ v.notiLen then some (v, [])
  else
    (Loop.loop (dismissIteration v.writeIdx) (maxNotification + 1)
        ⟨(v.writeIdx + idx).toInt32, v.allNoti, []⟩).map fun l =>
      ({ allNoti := l.allNoti, notiLen := v.notiLen - 1, writeIdx := v.writeIdx + 1 },
        l.accessed)

def InArray (i : Int) : Prop := 0 ≤ i ∧ i < maxNotification

theorem toUInt32_of_toInt {i : Int32} {k : Nat} (h : i.toInt = k) : i.toUInt32.toNat = k := by
  have hnonneg : 0 ≤ i := by
    rw [Int32.le_iff_toInt_le, h]
    exact Int.natCast_nonneg k
  rw [Int32.toNat_toUInt32_of_le hnonneg, Int32.toNatClampNeg, h, Int.toNat_natCast]

theorem pred_toInt {i : Int32} {k : Nat} (h : i.toInt = (k + 1 : Nat)) :
    (i - 1).toInt = k := by
  have hlt := i.toInt_lt
  rw [Int32.toInt_sub, h, Int32.toInt_one, Int.bmod_eq_of_le] <;> omega

/-- After `m` passes over the `idx` newer entries. -/
structure DismissLoop.Shifted (s : Store) (idx m : Nat) (l : DismissLoop) : Prop where
  passes : m ≤ idx
  counter : l.i.toInt = (s.writeIdx + (idx - m) : Nat)
  slots : l.allNoti = openUp s.allNoti (s.writeIdx + idx) m
  inside : ∀ k ∈ l.accessed, InArray k

/-- A pass is made exactly when an entry is still to be moved, and moves one. -/
theorem dismissIteration_shifted {s : Store} {idx m : Nat} {l : DismissLoop}
    (h : l.Shifted s idx m) (hidx : idx < s.notiLen) :
    (m = idx ∧ dismissIteration s.vars.writeIdx l = .inr l) ∨
      ∃ l', dismissIteration s.vars.writeIdx l = .inl l' ∧ l'.Shifted s idx (m + 1) := by
  have hb := s.balanced
  have hmax : maxNotification = 20 := rfl
  have hpasses := h.passes
  have hcompare : l.i.toUInt32 > s.vars.writeIdx ↔ m < idx := by
    rw [gt_iff_lt, UInt32.lt_iff_toNat_lt, s.vars_writeIdx_toNat, toUInt32_of_toInt h.counter]
    omega
  by_cases hm : m < idx
  · have hcounter : l.i.toInt = (s.writeIdx + (idx - (m + 1)) + 1 : Nat) := by
      rw [h.counter]
      congr 1
      omega
    have hpred := pred_toInt hcounter
    refine Or.inr ⟨_, if_pos (hcompare.mpr hm), hm, hpred, ?_, ?_⟩
    · simp only [h.counter, hpred, h.slots, Int.toNat_natCast]
      rw [openUp_succ]
      congr 1 <;> omega
    · intro k hk
      rcases List.mem_append.mp hk with hk | hk
      · exact h.inside k hk
      · simp only [List.mem_cons, List.not_mem_nil, or_false, hpred, hcounter] at hk
        rw [InArray, hmax]
        omega
  · exact Or.inl ⟨by omega, if_neg (mt hcompare.mp hm)⟩

theorem Store.vars_writeIdx_add (s : Store) (idx : UInt32) (hidx : idx.toNat < s.notiLen) :
    (s.vars.writeIdx + idx).toInt32.toInt = (s.writeIdx + (idx.toNat - 0) : Nat) := by
  have hb := s.balanced
  have hmax : maxNotification = 20 := rfl
  have hsum : s.vars.writeIdx + idx = UInt32.ofNat (s.writeIdx + idx.toNat) := by
    rw [UInt32.ofNat_add, UInt32.ofNat_toNat]
    rfl
  have hsize : Int32.size = 4294967296 := rfl
  rw [hsum, UInt32.toInt32_ofNat', Int32.toInt_ofNat', hsize, Int.bmod_eq_of_le] <;> omega

/-- The loop ends with all the newer entries moved. -/
theorem dismissLoop_total (s : Store) (idx : UInt32) (hidx : idx.toNat < s.notiLen) :
    ∃ final, Loop.loop (dismissIteration s.vars.writeIdx) (maxNotification + 1)
        ⟨(s.vars.writeIdx + idx).toInt32, s.vars.allNoti, []⟩ = some final ∧
      final.Shifted s idx.toNat idx.toNat := by
  have hb := s.balanced
  have hstart : DismissLoop.Shifted s idx.toNat 0
      ⟨(s.vars.writeIdx + idx).toInt32, s.vars.allNoti, []⟩ :=
    ⟨Nat.zero_le _, s.vars_writeIdx_add idx hidx, rfl, fun k hk => nomatch hk⟩
  refine @Loop.loop_total DismissLoop DismissLoop (dismissIteration s.vars.writeIdx)
    (fun l => ∃ m, l.Shifted s idx.toNat m) (fun l => l.Shifted s idx.toNat idx.toNat)
    (fun l => l.i.toInt.toNat) (fun l l' hinv hgo => ?_) (fun l r hinv hout => ?_) _
    (maxNotification + 1) ⟨0, hstart⟩ ?_
  · obtain ⟨m, hl⟩ := hinv
    obtain ⟨-, hend⟩ | ⟨l'', hnext, hl''⟩ := dismissIteration_shifted hl hidx
    · rw [hend] at hgo
      cases hgo
    · rw [hnext] at hgo
      cases hgo
      have hpasses := hl''.passes
      refine ⟨⟨m + 1, hl''⟩, ?_⟩
      rw [hl.counter, hl''.counter, Int.toNat_natCast, Int.toNat_natCast]
      omega
  · obtain ⟨m, hl⟩ := hinv
    obtain ⟨rfl, hend⟩ | ⟨l'', hnext, -⟩ := dismissIteration_shifted hl hidx
    · rw [hend] at hout
      cases hout
      exact hl
    · rw [hnext] at hout
      cases hout
  · rw [hstart.counter, Int.toNat_natCast]
    omega

/-- The call in the widths of the source does what `dismissNotification` does, its loop
ends, and all the indices it uses are in the array. -/
theorem dismissVars_eq (s : Store) (idx : UInt32) :
    ∃ accessed, dismissVars s.vars idx = some ((dismissNotification s idx.toNat).vars, accessed) ∧
      ∀ k ∈ accessed, InArray k := by
  have hguard : idx ≥ s.vars.notiLen ↔ idx.toNat ≥ s.notiLen := by
    rw [ge_iff_le, UInt32.le_iff_toNat_le, s.vars_notiLen_toNat]
  by_cases hidx : idx.toNat ≥ s.notiLen
  · refine ⟨[], ?_, fun k hk => nomatch hk⟩
    rw [dismissVars, if_pos (hguard.mpr hidx), dismissNotification, dif_pos hidx]
  · obtain ⟨final, hloop, hfinal⟩ := dismissLoop_total s idx (Nat.lt_of_not_le hidx)
    refine ⟨final.accessed, ?_, hfinal.inside⟩
    have hdec : UInt32.ofNat (s.notiLen - 1) = s.vars.notiLen - 1 :=
      UInt32.ofNat_sub (by omega)
    have hinc : UInt32.ofNat (s.writeIdx + 1) = s.vars.writeIdx + 1 := UInt32.ofNat_add _ _
    rw [dismissVars, if_neg (mt hguard.mp hidx), hloop, dismissNotification, dif_neg hidx,
      Option.map_some, hfinal.slots, ← hdec, ← hinc]
    rfl

/-- After any calls, a dismissal takes its entry out of the list and leaves all others as
they are and in their order; any other index leaves the store alone. The call of the source
ends with that store, inside the array, and the counters stay in balance. -/
theorem dismissal_exact (calls : List StoreCall) (idx : UInt32) :
    let s := calls.foldl storeCall Store.init
    let dismissed := dismissNotification s idx.toNat
    (idx.toNat < s.notiLen →
      notifications dismissed = (notifications s).eraseIdx idx.toNat) ∧
    (s.notiLen ≤ idx.toNat → dismissed = s) ∧
    (∃ accessed, dismissVars s.vars idx = some (dismissed.vars, accessed) ∧
      ∀ k ∈ accessed, InArray k) ∧
    s.writeIdx + s.notiLen = maxNotification ∧
    dismissed.writeIdx + dismissed.notiLen = maxNotification := by
  intro s dismissed
  refine ⟨fun hidx => ?_, fun hidx => ?_, dismissVars_eq s idx, s.balanced, dismissed.balanced⟩
  · rw [notifications_dismiss, specDismiss, notifications_length, if_pos hidx]
  · simp only [dismissed, dismissNotification, dif_pos hidx]

end MinimalWatch.Notification
