import MinimalWatch.Ui.AppKeys

/-! The objects of the notification page, as notification_ui.c nests them: the cards, and the
detail screens that are opened over them. Labels and icons that cannot be focused, and have
nothing below them, are left out. -/

namespace MinimalWatch.Notification
open Firmware
open Ui (LvObjs)

/-- Of a card by its place on the page, of a detail screen by the number it was opened with. -/
inductive NotiObj
  | notificationScr
  | scrollContainer
  | card (idx : Nat)
  | textWrapper (idx : Nat)
  | lblTitle (idx : Nat)
  | btnWrapper (idx : Nat)
  | btnCl (idx : Nat)
  | detailScr (id : Nat)
  | bottomBar (id : Nat)
  | detailBtnOk (id : Nat)
  | detailBtnCl (id : Nat)
  deriving DecidableEq, Repr

namespace NotiObj

/-- `make_obj_navigable` is called for it. -/
def madeNavigable : NotiObj → Bool
  | .scrollContainer | .textWrapper _ | .btnWrapper _ | .bottomBar _ => false
  | _ => true

def isDetailScr : NotiObj → Bool
  | .detailScr _ => true
  | _ => false

/-- The buttons of a detail screen; there is one for the action if the notification has one. -/
def bottomButtons (action : Bool) (id : Nat) : List NotiObj :=
  if action then [.detailBtnOk id, .detailBtnCl id] else [.detailBtnCl id]

theorem mem_bottomButtons {action : Bool} {id : Nat} {obj : NotiObj} :
    obj ∈ bottomButtons action id ↔
      action = true ∧ obj = .detailBtnOk id ∨ obj = .detailBtnCl id := by
  cases action <;> simp [bottomButtons]

section Links
variable (cards : Nat) (details : List Nat) (action : Nat → Bool)

/-- In the order in which they are created. -/
def children : NotiObj → List NotiObj
  | .notificationScr => .scrollContainer :: details.map .detailScr
  | .scrollContainer => (List.range cards).map .card
  | .card idx => [.textWrapper idx, .btnWrapper idx]
  | .textWrapper idx => [.lblTitle idx]
  | .btnWrapper idx => [.btnCl idx]
  | .detailScr id => [.bottomBar id]
  | .bottomBar id => bottomButtons (action id) id
  | _ => []

def parent : NotiObj → Option NotiObj
  | .notificationScr => none
  | .scrollContainer => some .notificationScr
  | .card idx => if idx < cards then some .scrollContainer else none
  | .textWrapper idx | .btnWrapper idx => some (.card idx)
  | .lblTitle idx => some (.textWrapper idx)
  | .btnCl idx => some (.btnWrapper idx)
  | .detailScr id => if id ∈ details then some .notificationScr else none
  | .bottomBar id => some (.detailScr id)
  | .detailBtnOk id => if action id then some (.bottomBar id) else none
  | .detailBtnCl id => some (.bottomBar id)

def depth : NotiObj → Nat
  | .notificationScr => 0
  | .scrollContainer | .detailScr _ => 1
  | .card _ | .bottomBar _ => 2
  | .textWrapper _ | .btnWrapper _ | .detailBtnOk _ | .detailBtnCl _ => 3
  | .lblTitle _ | .btnCl _ => 4

variable {cards details action}

theorem mem_children_iff (a b : NotiObj) :
    b ∈ children cards details action a ↔ parent cards details action b = some a := by
  cases b with
  | detailBtnOk id =>
    cases a with
    | bottomBar id' =>
      simp only [children, parent, mem_bottomButtons, Option.ite_none_right_eq_some]
      grind
    | _ => simp [children, parent]
  | _ => cases a <;> simp [children, parent, mem_bottomButtons]

theorem children_nodup (h : details.Nodup) (a : NotiObj) :
    (children cards details action a).Nodup := by
  cases a with
  | notificationScr =>
    refine List.nodup_cons.mpr ⟨by simp, h.map fun id id' heq => ?_⟩
    exact NotiObj.detailScr.inj heq
  | scrollContainer => exact List.nodup_range.map fun idx idx' heq => NotiObj.card.inj heq
  | bottomBar id =>
    rw [children, bottomButtons]
    split <;> simp
  | _ => simp [children]

theorem depth_parent (a b : NotiObj) (h : parent cards details action b = some a) :
    depth b = depth a + 1 := by
  cases b with
  | notificationScr => cases h
  | card idx | detailScr id | detailBtnOk id =>
    obtain ⟨-, ha⟩ := Option.ite_none_right_eq_some.mp h
    rw [← Option.some.inj ha]
    rfl
  | _ =>
    rw [← Option.some.inj h]
    rfl

end Links

end NotiObj

/-- The objects with so many cards and these detail screens; there is one group. -/
def pageObjs (cards : Nat) (details : List Nat) (action : Nat → Bool) (h : details.Nodup) :
    LvObjs NotiObj Unit where
  children := NotiObj.children cards details action
  parent := NotiObj.parent cards details action
  linked := NotiObj.mem_children_iff
  distinct := NotiObj.children_nodup h
  depth := NotiObj.depth
  depth_child := NotiObj.depth_parent
  levels := 5
  depth_lt := fun a => by cases a <;> simp [NotiObj.depth]
  group := fun obj => if obj.madeNavigable then some () else none
  currentGroup := some ()

namespace PageObjs
variable {cards : Nat} {details : List Nat} {action : Nat → Bool} {h : details.Nodup}

theorem navigable_eq (obj : NotiObj) :
    (pageObjs cards details action h).navigable obj = obj.madeNavigable := by
  cases obj <;> simp [LvObjs.navigable, pageObjs, NotiObj.madeNavigable]

variable (cards details action h) in
/-- What can be focused next below an object. -/
def levelOf (obj : NotiObj) : List NotiObj :=
  (pageObjs cards details action h).level (pageObjs cards details action h).navigable obj

theorem levelOf_eq (obj : NotiObj) :
    levelOf cards details action h obj =
      (NotiObj.children cards details action obj).flatMap fun c =>
        if c.madeNavigable then [c] else levelOf cards details action h c := by
  rw [levelOf, ← LinkedTree.frontier_eq_level, LinkedTree.frontier_eq]
  refine List.flatMap_congr fun c _ => ?_
  rw [navigable_eq, LinkedTree.frontier_eq_level]
  rfl

theorem levelOf_scrollContainer :
    levelOf cards details action h .scrollContainer = (List.range cards).map .card := by
  rw [levelOf_eq, NotiObj.children, List.flatMap_map]
  exact List.flatMap_pure_eq_map NotiObj.card _

theorem levelOf_notificationScr :
    levelOf cards details action h .notificationScr =
      (List.range cards).map .card ++ details.map .detailScr := by
  rw [levelOf_eq, NotiObj.children, List.flatMap_cons, levelOf_scrollContainer, List.flatMap_map]
  exact congrArg _ (List.flatMap_pure_eq_map NotiObj.detailScr details)

theorem levelOf_card (idx : Nat) :
    levelOf cards details action h (.card idx) = [.lblTitle idx, .btnCl idx] := by
  have htitle : levelOf cards details action h (.textWrapper idx) = [.lblTitle idx] :=
    levelOf_eq _
  have hbutton : levelOf cards details action h (.btnWrapper idx) = [.btnCl idx] := levelOf_eq _
  rw [levelOf_eq, NotiObj.children, List.flatMap_cons, List.flatMap_singleton, htitle, hbutton]
  rfl

theorem levelOf_detailScr (id : Nat) :
    levelOf cards details action h (.detailScr id) = NotiObj.bottomButtons (action id) id := by
  have hbar : levelOf cards details action h (.bottomBar id) =
      NotiObj.bottomButtons (action id) id := by
    rw [levelOf_eq, NotiObj.children]
    cases action id <;> rfl
  rw [levelOf_eq, NotiObj.children, List.flatMap_singleton, hbar]
  rfl

theorem levelOf_leaf {obj : NotiObj} (hleaf : NotiObj.children cards details action obj = []) :
    levelOf cards details action h obj = [] := by
  rw [levelOf_eq, hleaf, List.flatMap_nil]

end PageObjs

end MinimalWatch.Notification
