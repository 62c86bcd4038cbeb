import Mathlib.Data.List.Basic
import Mathlib.Tactic.Common

/-! A table of pointers to objects that carry their own number: an object is entered in a
slot and given a number at once. While the objects are different and the slots are filled in
order, every object has the number of its slot. -/

namespace Firmware

/-- The pointers are addresses of objects; an empty slot is NULL. -/
structure IdTable (β : Type*) (n : Nat) where
  slots : Vector (Option Nat) n
  objects : Nat → β

namespace IdTable
variable {β : Type*} {n : Nat}

/-- The object at the address is changed and the slot points to it. -/
def put (t : IdTable β n) (slot address : Nat) (change : β → β) : IdTable β n where
  slots := t.slots.setIfInBounds slot (some address)
  objects := fun a => if a = address then change (t.objects a) else t.objects a

/-- The objects of the first `count` slots. -/
def registered (t : IdTable β n) (count : Nat) : List β :=
  (t.slots.toList.take count).filterMap fun pointer => pointer.map t.objects

/-- The objects at these addresses are in the first slots and have their numbers. -/
def Numbered (t : IdTable β n) (id : β → Nat) (addresses : List Nat) : Prop :=
  ∀ k a, addresses[k]? = some a → t.slots[k]? = some (some a) ∧ id (t.objects a) = k

theorem numbered_nil (t : IdTable β n) (id : β → Nat) : t.Numbered id [] :=
  fun _ _ h => nomatch h

theorem Numbered.put {t : IdTable β n} {id : β → Nat} {addresses : List Nat} {address : Nat}
    {change : β → β} (h : t.Numbered id addresses) (hnew : address ∉ addresses)
    (hroom : addresses.length < n) (hid : id (change (t.objects address)) = addresses.length) :
    (t.put addresses.length address change).Numbered id (addresses ++ [address]) := by
  intro k a hk
  obtain hlt | rfl | hgt := Nat.lt_trichotomy k addresses.length
  · rw [List.getElem?_append_left hlt] at hk
    obtain ⟨hslot, hnumber⟩ := h k a hk
    have hother : a ≠ address := by
      rintro rfl
      exact hnew (List.mem_of_getElem? hk)
    simp only [IdTable.put, Vector.getElem?_setIfInBounds, if_neg hother,
      if_neg (Nat.ne_of_gt hlt)]
    exact ⟨hslot, hnumber⟩
  · rw [List.getElem?_concat_length] at hk
    obtain rfl := Option.some.inj hk
    simp only [IdTable.put, Vector.getElem?_setIfInBounds, if_true, if_pos hroom, true_and]
    exact hid
  · rw [List.getElem?_eq_none] at hk
    · cases hk
    · rw [List.length_append, List.length_singleton]
      exact hgt

theorem Numbered.registered {t : IdTable β n} {id : β → Nat} {addresses : List Nat}
    (h : t.Numbered id addresses) :
    (t.registered addresses.length).map id = List.range addresses.length := by
  have hslots : t.slots.toList.take addresses.length = addresses.map some := by
    apply List.ext_getElem?
    intro k
    rw [List.getElem?_map]
    by_cases hk : k < addresses.length
    · obtain ⟨hslot, -⟩ := h k _ (List.getElem?_eq_getElem hk)
      rw [List.getElem?_take_of_lt hk, Vector.getElem?_toList, hslot,
        List.getElem?_eq_getElem hk]
      rfl
    · rw [List.getElem?_eq_none (by rw [List.length_take]; omega),
        List.getElem?_eq_none (by omega)]
      rfl
  have hids : addresses.map (fun a => id (t.objects a)) = List.range addresses.length := by
    apply List.ext_getElem?
    intro k
    rw [List.getElem?_map]
    by_cases hk : k < addresses.length
    · obtain ⟨-, hnumber⟩ := h k _ (List.getElem?_eq_getElem hk)
      rw [List.getElem?_eq_getElem hk, List.getElem?_range hk, Option.map_some, hnumber]
    · rw [List.getElem?_eq_none (by omega), List.getElem?_eq_none (by rw [List.length_range]; omega)]
      rfl
  rw [← hids, IdTable.registered, hslots, List.filterMap_map, List.map_filterMap]
  rw [← List.filterMap_eq_map]
  rfl

end IdTable

end Firmware
