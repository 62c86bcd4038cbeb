import Mathlib.Tactic.Common
import MinimalWatch.Lib.Tree
import MinimalWatch.Lib.Machine
import MinimalWatch.Ui.Pages

/-! The walk of the focus over the objects on the screen, from util.c. An object is
navigable if it is in the current group. -/

namespace MinimalWatch.Ui
open Firmware

/-- The objects of LVGL with the group each is in, and the group that
`get_current_group` returns. -/
structure LvObjs (α γ : Type*) extends LinkedTree α where
  group : α → Option γ
  currentGroup : Option γ

namespace LvObjs
variable {α γ : Type*} [DecidableEq γ] (lv : LvObjs α γ)

def navigable (obj : α) : Bool := lv.group obj = lv.currentGroup

/-! ### util.c -/

/-- `levels` bounds the depth of the recursion; `height` is enough of it. -/
def firstFocusableChild : Nat → α → Option α
  | 0, _ => none
  | levels + 1, root =>
    match lv.currentGroup with
    | none => none
    | some _ =>
      (lv.children root).findSome? fun child =>
        if lv.navigable child then some child else firstFocusableChild levels child

def findFirstFocusableChildDfs (root : Option α) : Option α :=
  root.bind fun root => lv.firstFocusableChild (lv.height root) root

def firstFocusableParent : Nat → α → Option α
  | 0, _ => none
  | steps + 1, obj =>
    match lv.parent obj with
    | none => none
    | some parent => if lv.navigable parent then some parent else firstFocusableParent steps parent

def findFirstFocusableParentDfs (obj : α) : Option α :=
  lv.firstFocusableParent (lv.depth obj) obj

/-- What `scan_subtree_focus_sequence` writes through its pointers. -/
structure ScanState (α : Type*) where
  lastFoundNav : Option α
  originNodePassed : Bool

section Scan
variable [DecidableEq α] (currentFocus : α) (isForwardSearch : Bool)

/-- The loop over the children; `scan` is the call for a child that is not navigable. -/
def scanChildren (scan : α → ScanState α → Option α × ScanState α) :
    List α → ScanState α → Option α × ScanState α
  | [], s => (none, s)
  | child :: rest, s =>
    if lv.navigable child then
      if isForwardSearch then
        if s.originNodePassed then (some child, s)
        else if child = currentFocus then scanChildren scan rest { s with originNodePassed := true }
        else scanChildren scan rest s
      else if child = currentFocus then (s.lastFoundNav, s)
      else scanChildren scan rest { s with lastFoundNav := some child }
    else
      match scan child s with
      | (some target, s') => (some target, s')
      | (none, s') => scanChildren scan rest s'

def scanSubtree : Nat → α → ScanState α → Option α × ScanState α
  | 0, _, s => (none, s)
  | levels + 1, root, s =>
    lv.scanChildren currentFocus isForwardSearch (scanSubtree levels) (lv.children root) s

def scanSubtreeFocusSequence (root : α) (s : ScanState α) : Option α × ScanState α :=
  lv.scanSubtree currentFocus isForwardSearch (lv.height root) root s

end Scan

def findFocusableSibling [DecidableEq α] (isForwardSearch : Bool) (obj : Option α) : Option α :=
  match obj with
  | none => none
  | some obj =>
    match lv.findFirstFocusableParentDfs obj with
    | none => none
    | some boundaryRoof =>
      (lv.scanSubtreeFocusSequence obj isForwardSearch boundaryRoof ⟨none, false⟩).1

def findNextFocusableSibling [DecidableEq α] : Option α → Option α := lv.findFocusableSibling true

def findPrevFocusableSibling [DecidableEq α] : Option α → Option α := lv.findFocusableSibling false

/-! ### Down and up -/

/-- What the descents come by, under the same bound on their depth. -/
def sequenceFrom : Nat → α → List α :=
  lv.collectFrom fun child below => if lv.navigable child then [child] else below

theorem sequenceFrom_height [DecidableEq α] (root : α) :
    lv.sequenceFrom (lv.height root) root = lv.level lv.navigable root :=
  lv.frontier_eq_level lv.navigable root

theorem firstFocusableChild_eq (hgroup : lv.currentGroup ≠ none) (levels : Nat) (root : α) :
    lv.firstFocusableChild levels root = (lv.sequenceFrom levels root).head? := by
  induction levels generalizing root with
  | zero => rfl
  | succ levels ih =>
    obtain ⟨g, hg⟩ := Option.ne_none_iff_exists'.mp hgroup
    rw [firstFocusableChild, hg, sequenceFrom, LinkedTree.collectFrom, List.head?_flatMap]
    refine congrArg (fun f => List.findSome? f (lv.children root)) (funext fun child => ?_)
    split
    · rfl
    · rw [ih child]
      rfl

theorem findFirstFocusableChildDfs_eq [DecidableEq α] (hgroup : lv.currentGroup ≠ none)
    (root : α) :
    lv.findFirstFocusableChildDfs (some root) = (lv.level lv.navigable root).head? := by
  rw [findFirstFocusableChildDfs, Option.bind_some, lv.firstFocusableChild_eq hgroup,
    sequenceFrom_height]

theorem firstFocusableParent_eq (steps : Nat) (obj : α) :
    lv.firstFocusableParent steps obj = (lv.climb steps obj).find? lv.navigable := by
  induction steps generalizing obj with
  | zero => rfl
  | succ steps ih =>
    rw [firstFocusableParent, LinkedTree.climb]
    cases lv.parent obj with
    | none => rfl
    | some parent =>
      rw [List.find?_cons]
      cases hnav : lv.navigable parent with
      | true => simp [hnav]
      | false => simp [hnav, ih]

theorem findFirstFocusableParentDfs_eq (obj : α) :
    lv.findFirstFocusableParentDfs obj = lv.nearest lv.navigable obj :=
  lv.firstFocusableParent_eq _ obj

/-! ### Along a level -/

section Back
variable (currentFocus : α)

/-- One part scanned, then the next unless the first has found something. -/
def thenScan {σ : Type*} (r : Option α × σ) (next : σ → Option α × σ) : Option α × σ :=
  match r with
  | (some target, s) => (some target, s)
  | (none, s) => next s

/-- The backward scan of a list. An origin met with nothing before it gives the same NULL as
an origin not met, and the scan goes on behind it; hence the two cases. -/
structure ScansBack (r : Option α × ScanState α) (level : List α) (s : ScanState α) : Prop where
  absent : currentFocus ∉ level →
    r = (none, { s with lastFoundNav := level.getLast?.or s.lastFoundNav })
  met : ∀ before after, level = before ++ currentFocus :: after → currentFocus ∉ before →
    currentFocus ∉ after → r.1 = before.getLast?.or s.lastFoundNav

theorem ScansBack.append {first second : List α} {s : ScanState α} {r : Option α × ScanState α}
    {next : ScanState α → Option α × ScanState α} (h : ScansBack currentFocus r first s)
    (hnext : ∀ s', ScansBack currentFocus (next s') second s') :
    ScansBack currentFocus (thenScan r next) (first ++ second) s := by
  constructor
  · intro hnot
    rw [List.mem_append, not_or] at hnot
    rw [h.absent hnot.1, List.getLast?_append, Option.or_assoc]
    exact (hnext _).absent hnot.2
  · intro before after hsplit hbefore hafter
    rcases List.append_eq_append_iff.mp hsplit with ⟨middle, rfl, hsecond⟩ | ⟨middle, hfirst, hrest⟩
    · rw [List.mem_append, not_or] at hbefore
      rw [h.absent hbefore.1, List.getLast?_append, Option.or_assoc]
      exact (hnext _).met middle after hsecond hbefore.2 hafter
    · cases middle with
      | nil =>
        rw [List.append_nil] at hfirst
        rw [List.nil_append] at hrest
        rw [h.absent (hfirst ▸ hbefore), hfirst]
        exact (hnext _).met [] after hrest.symm List.not_mem_nil hafter
      | cons origin middle =>
        obtain ⟨rfl, rfl⟩ := List.cons.inj hrest
        have hafter' := not_or.mp (mt List.mem_append.mpr hafter)
        have hmet := h.met before middle hfirst hbefore hafter'.1
        obtain ⟨target, s'⟩ := r
        cases target with
        | some target => exact hmet
        | none =>
          rw [thenScan, (hnext s').absent hafter'.2]
          exact hmet

theorem scansBack_nil (s : ScanState α) : ScansBack currentFocus (none, s) [] s := by
  refine ⟨fun _ => rfl, fun before after hsplit => ?_⟩
  simp at hsplit

theorem scansBack_other {child : α} (s : ScanState α) (h : child ≠ currentFocus) :
    ScansBack currentFocus (none, { s with lastFoundNav := some child }) [child] s := by
  refine ⟨fun _ => rfl, fun before after hsplit => ?_⟩
  rcases List.singleton_eq_append_iff.mp hsplit with ⟨-, hcons⟩ | ⟨-, hnil⟩
  · exact absurd (List.cons.inj hcons).1.symm h
  · cases hnil

theorem scansBack_origin (rest : List α) (s : ScanState α) :
    ScansBack currentFocus (s.lastFoundNav, s) (currentFocus :: rest) s := by
  refine ⟨fun hnot => absurd List.mem_cons_self hnot, fun before after hsplit hbefore _ => ?_⟩
  cases before with
  | nil => rfl
  | cons child before =>
    rw [(List.cons.inj hsplit).1] at hbefore
    exact absurd List.mem_cons_self hbefore

end Back

section Scan
variable [DecidableEq α] (currentFocus : α)

theorem scanChildren_container {isForwardSearch : Bool}
    (scan : α → ScanState α → Option α × ScanState α) {child : α} (rest : List α)
    (s : ScanState α) (h : lv.navigable child = false) :
    lv.scanChildren currentFocus isForwardSearch scan (child :: rest) s =
      thenScan (scan child s) (lv.scanChildren currentFocus isForwardSearch scan rest) := by
  rw [scanChildren, h, if_neg Bool.false_ne_true]
  cases scan child s with
  | mk target s' => cases target <;> rfl

/-- The forward scan of a list: what it stops at, and the flag behind it. -/
def goForward : List α → Bool → Option α × Bool
  | [], passed => (none, passed)
  | child :: rest, passed =>
    if passed then (some child, passed) else goForward rest (child = currentFocus)

theorem goForward_append (first second : List α) (passed : Bool) :
    goForward currentFocus (first ++ second) passed =
      thenScan (goForward currentFocus first passed) (goForward currentFocus second) := by
  induction first generalizing passed with
  | nil => rfl
  | cons child rest ih =>
    cases passed with
    | true => rfl
    | false => exact ih _

theorem goForward_passed (level : List α) :
    goForward currentFocus level true = (level.head?, true) := by
  cases level <;> rfl

theorem goForward_before {level : List α} (h : currentFocus ∉ level) :
    goForward currentFocus level false = (none, false) := by
  induction level with
  | nil => rfl
  | cons child rest ih =>
    have hne : child ≠ currentFocus := (List.ne_of_not_mem_cons h).symm
    rw [goForward, if_neg Bool.false_ne_true, decide_eq_false hne]
    exact ih (List.not_mem_of_not_mem_cons h)

theorem goForward_split {before after : List α} (h : currentFocus ∉ before) :
    (goForward currentFocus (before ++ currentFocus :: after) false).1 = after.head? := by
  rw [goForward_append, goForward_before currentFocus h, thenScan, goForward,
    if_neg Bool.false_ne_true, decide_eq_true rfl, goForward_passed]

/-- The forward scan of a subtree is the scan of the list, the flag apart. -/
def ScansForward (r : Option α × ScanState α) (level : List α) (s : ScanState α) : Prop :=
  r = ((goForward currentFocus level s.originNodePassed).1,
    { s with originNodePassed := (goForward currentFocus level s.originNodePassed).2 })

theorem ScansForward.append {first second : List α} {s : ScanState α}
    {r : Option α × ScanState α} {next : ScanState α → Option α × ScanState α}
    (h : ScansForward currentFocus r first s)
    (hnext : ∀ s', ScansForward currentFocus (next s') second s') :
    ScansForward currentFocus (thenScan r next) (first ++ second) s := by
  rw [ScansForward] at h
  rw [ScansForward, goForward_append, h]
  cases goForward currentFocus first s.originNodePassed with
  | mk target passed =>
    cases target with
    | some target => rfl
    | none => exact hnext { s with originNodePassed := passed }

theorem scanSubtree_forward (levels : Nat) (root : α) (s : ScanState α) :
    ScansForward currentFocus (lv.scanSubtree currentFocus true levels root s)
      (lv.sequenceFrom levels root) s := by
  induction levels generalizing root s with
  | zero => rfl
  | succ levels ih =>
    rw [scanSubtree, sequenceFrom, LinkedTree.collectFrom]
    generalize lv.children root = children
    induction children generalizing s with
    | nil => rfl
    | cons child rest ihrest =>
      rw [List.flatMap_cons]
      cases hnav : lv.navigable child with
      | true =>
        rw [scanChildren, hnav]
        cases hpassed : s.originNodePassed with
        | true => simp [ScansForward, goForward, ← hpassed]
        | false =>
          by_cases hchild : child = currentFocus
          · have hrest := ihrest { s with originNodePassed := true }
            rw [ScansForward] at hrest
            simp [ScansForward, goForward, hpassed, hchild, hrest]
          · have hrest := ihrest s
            rw [ScansForward, hpassed] at hrest
            simp [ScansForward, goForward, hpassed, hchild, hrest]
      | false =>
        rw [scanChildren_container lv currentFocus _ rest s hnav]
        exact (ih child s).append currentFocus ihrest

theorem scanSubtree_back (levels : Nat) (root : α) (s : ScanState α) :
    ScansBack currentFocus (lv.scanSubtree currentFocus false levels root s)
      (lv.sequenceFrom levels root) s := by
  induction levels generalizing root s with
  | zero => exact scansBack_nil currentFocus s
  | succ levels ih =>
    rw [scanSubtree, sequenceFrom, LinkedTree.collectFrom]
    generalize lv.children root = children
    induction children generalizing s with
    | nil => exact scansBack_nil currentFocus s
    | cons child rest ihrest =>
      rw [List.flatMap_cons]
      cases hnav : lv.navigable child with
      | true =>
        rw [scanChildren, hnav, if_pos rfl, if_pos rfl, if_neg Bool.false_ne_true]
        by_cases hchild : child = currentFocus
        · rw [if_pos hchild, hchild]
          exact scansBack_origin currentFocus _ s
        · rw [if_neg hchild]
          exact (scansBack_other currentFocus s hchild).append currentFocus ihrest
      | false =>
        rw [scanChildren_container lv currentFocus _ rest s hnav]
        exact (ih child s).append currentFocus ihrest

end Scan

theorem nearest_navigable {x a : α} (h : lv.nearest lv.navigable x = some a) :
    lv.navigable a = true := List.find?_some h

section Keys
variable [DecidableEq α]

theorem findFocusableSibling_none {x : α} (isForwardSearch : Bool)
    (h : lv.nearest lv.navigable x = none) :
    lv.findFocusableSibling isForwardSearch (some x) = none := by
  rw [findFocusableSibling, findFirstFocusableParentDfs_eq, h]

theorem findFocusableSibling_roof {x a : α} (isForwardSearch : Bool)
    (h : lv.nearest lv.navigable x = some a) :
    lv.findFocusableSibling isForwardSearch (some x) =
      (lv.scanSubtree x isForwardSearch (lv.height a) a ⟨none, false⟩).1 := by
  rw [findFocusableSibling, findFirstFocusableParentDfs_eq, h]
  rfl

theorem level_split_fresh {x a : α} {before after : List α}
    (h : lv.level lv.navigable a = before ++ x :: after) : x ∉ before ∧ x ∉ after := by
  have hnodup := lv.level_nodup lv.navigable a
  rw [h, List.nodup_middle, List.nodup_cons, List.mem_append, not_or] at hnodup
  exact hnodup.1

theorem findNextFocusableSibling_eq {x a : α} {before after : List α}
    (ha : lv.nearest lv.navigable x = some a)
    (h : lv.level lv.navigable a = before ++ x :: after) :
    lv.findNextFocusableSibling (some x) = after.head? := by
  have hscan := lv.scanSubtree_forward x (lv.height a) a ⟨none, false⟩
  rw [sequenceFrom_height, h, ScansForward] at hscan
  rw [findNextFocusableSibling, lv.findFocusableSibling_roof true ha, hscan]
  exact goForward_split x (lv.level_split_fresh h).1

theorem findPrevFocusableSibling_eq {x a : α} {before after : List α}
    (ha : lv.nearest lv.navigable x = some a)
    (h : lv.level lv.navigable a = before ++ x :: after) :
    lv.findPrevFocusableSibling (some x) = before.getLast? := by
  have hscan := lv.scanSubtree_back x (lv.height a) a ⟨none, false⟩
  rw [sequenceFrom_height] at hscan
  obtain ⟨hbefore, hafter⟩ := lv.level_split_fresh h
  rw [findPrevFocusableSibling, lv.findFocusableSibling_roof false ha,
    hscan.met before after h hbefore hafter, Option.or_none]

/-- An object stands in the level below the navigable object next above it. -/
theorem level_split {x a : α} (hx : lv.navigable x = true)
    (ha : lv.nearest lv.navigable x = some a) :
    ∃ before after, lv.level lv.navigable a = before ++ x :: after :=
  List.append_of_mem ((lv.mem_level_iff lv.navigable (lv.nearest_navigable ha)).mpr ⟨hx, ha⟩)

/-- The same level read from one of its objects or from another. -/
theorem nearest_of_split {x y a : α} {before after : List α} (ha : lv.navigable a = true)
    (h : lv.level lv.navigable a = before ++ x :: after) (hy : y ∈ before ∨ y ∈ after) :
    lv.nearest lv.navigable y = some a := by
  refine ((lv.mem_level_iff lv.navigable ha).mp ?_).2
  rw [h, List.mem_append, List.mem_cons]
  rcases hy with hy | hy
  · exact .inl hy
  · exact .inr (.inr hy)

theorem next_iff_prev {x y : α} (hx : lv.navigable x = true) (hy : lv.navigable y = true) :
    lv.findNextFocusableSibling (some x) = some y ↔
      lv.findPrevFocusableSibling (some y) = some x := by
  constructor
  · intro hnext
    cases ha : lv.nearest lv.navigable x with
    | none =>
      rw [findNextFocusableSibling, lv.findFocusableSibling_none true ha] at hnext
      cases hnext
    | some a =>
      obtain ⟨before, after, hsplit⟩ := lv.level_split hx ha
      rw [lv.findNextFocusableSibling_eq ha hsplit, List.head?_eq_some_iff] at hnext
      obtain ⟨after, rfl⟩ := hnext
      have hay := lv.nearest_of_split (lv.nearest_navigable ha) hsplit (.inr List.mem_cons_self)
      rw [List.append_cons] at hsplit
      rw [lv.findPrevFocusableSibling_eq hay hsplit, List.getLast?_concat]
  · intro hprev
    cases ha : lv.nearest lv.navigable y with
    | none =>
      rw [findPrevFocusableSibling, lv.findFocusableSibling_none false ha] at hprev
      cases hprev
    | some a =>
      obtain ⟨before, after, hsplit⟩ := lv.level_split hy ha
      rw [lv.findPrevFocusableSibling_eq ha hsplit, List.getLast?_eq_some_iff] at hprev
      obtain ⟨before, rfl⟩ := hprev
      have hax := lv.nearest_of_split (lv.nearest_navigable ha) hsplit
        (.inl (List.mem_append_right before List.mem_cons_self))
      rw [List.append_assoc] at hsplit
      rw [lv.findNextFocusableSibling_eq hax hsplit]
      rfl

/-- The siblings are the neighbours in the level, whatever containers it is nested in. -/
theorem siblings_in_order {x : α} (hx : lv.navigable x = true) :
    (∀ a, lv.nearest lv.navigable x = some a →
      (lv.level lv.navigable a).Nodup ∧ ∃ before after : List α,
        lv.level lv.navigable a = before ++ x :: after ∧
        lv.findNextFocusableSibling (some x) = after.head? ∧
        lv.findPrevFocusableSibling (some x) = before.getLast?) ∧
    (lv.nearest lv.navigable x = none →
      lv.findNextFocusableSibling (some x) = none ∧
      lv.findPrevFocusableSibling (some x) = none) ∧
    ∀ y, lv.navigable y = true →
      (lv.findNextFocusableSibling (some x) = some y ↔
        lv.findPrevFocusableSibling (some y) = some x) := by
  refine ⟨fun a ha => ?_, fun hnone => ?_, fun y hy => lv.next_iff_prev hx hy⟩
  · obtain ⟨before, after, hsplit⟩ := lv.level_split hx ha
    exact ⟨lv.level_nodup lv.navigable a, before, after, hsplit,
      lv.findNextFocusableSibling_eq ha hsplit, lv.findPrevFocusableSibling_eq ha hsplit⟩
  · exact ⟨lv.findFocusableSibling_none true hnone, lv.findFocusableSibling_none false hnone⟩

/-- Objects 0, 2, 5, 4 and 6 are in the group; 1 and 3 are containers, one in the other. -/
def nestedScreen : LvObjs (Fin 7) Bool where
  children := fun obj => match obj with
    | 0 => [1, 4]
    | 1 => [2, 3]
    | 3 => [5]
    | 4 => [6]
    | _ => []
  parent := fun obj => match obj with
    | 0 => none
    | 1 | 4 => some 0
    | 2 | 3 => some 1
    | 5 => some 3
    | 6 => some 4
  linked := by decide
  distinct := by decide
  depth := fun obj => match obj with
    | 0 => 0
    | 1 | 4 => 1
    | 2 | 3 | 6 => 2
    | 5 => 3
  depth_child := by decide
  levels := 4
  depth_lt := by decide
  group := fun obj => if obj = 1 ∨ obj = 3 then none else some true
  currentGroup := some true

theorem siblings_in_order_nested :
    (∃ before after : List (Fin 7),
      nestedScreen.level nestedScreen.navigable 0 = before ++ 5 :: after ∧
      nestedScreen.findNextFocusableSibling (some 5) = after.head? ∧
      nestedScreen.findPrevFocusableSibling (some 5) = before.getLast?) ∧
    (nestedScreen.findNextFocusableSibling (some 5) = some 4 ↔
      nestedScreen.findPrevFocusableSibling (some 4) = some 5) := by
  have hnav : nestedScreen.navigable 5 = true ∧ nestedScreen.navigable 4 = true := by decide
  obtain ⟨hroof, -, hinverse⟩ := siblings_in_order nestedScreen hnav.1
  exact ⟨(hroof 0 (by decide)).2, hinverse 4 hnav.2⟩

/-! ### Keys -/

/-- What the key handlers put the focus on; they leave it where it is for NULL. -/
def focusStep (obj : α) : LvKey → Option α
  | .enter => lv.findFirstFocusableChildDfs (some obj)
  | .esc => lv.findFirstFocusableParentDfs obj
  | .right => lv.findNextFocusableSibling (some obj)
  | .left => lv.findPrevFocusableSibling (some obj)
  | .other _ => none

theorem right_along {a x y : α} {before rest : List α} (ha : lv.navigable a = true)
    (h : lv.level lv.navigable a = before ++ x :: rest) (hy : y ∈ rest) :
    ∃ keys : List LvKey, (∀ key ∈ keys, key = .right) ∧
      Machine.run lv.focusStep x keys = some y := by
  induction rest generalizing before x with
  | nil => cases hy
  | cons z rest ih =>
    have hx := ((lv.mem_level_iff lv.navigable ha).mp
      (h ▸ List.mem_append_right before List.mem_cons_self)).2
    have hnext : lv.focusStep x .right = some z := lv.findNextFocusableSibling_eq hx h
    rcases List.mem_cons.mp hy with rfl | hy
    · exact ⟨[.right], by simp, Machine.run_cons _ [] hnext⟩
    · rw [List.append_cons] at h
      obtain ⟨keys, hkeys, hrun⟩ := ih h hy
      refine ⟨.right :: keys, ?_, (Machine.run_cons _ keys hnext).trans hrun⟩
      simpa using hkeys

/-- ENTER and then RIGHT come to every object of the level below. -/
theorem enter_level (hgroup : lv.currentGroup ≠ none) {a b : α} (ha : lv.navigable a = true)
    (hb : b ∈ lv.level lv.navigable a) :
    ∃ keys : List LvKey, (∀ key ∈ keys, key = .enter ∨ key = .right) ∧
      Machine.run lv.focusStep a keys = some b := by
  cases hlevel : lv.level lv.navigable a with
  | nil =>
    rw [hlevel] at hb
    cases hb
  | cons first rest =>
    have henter : lv.focusStep a .enter = some first := by
      rw [focusStep, lv.findFirstFocusableChildDfs_eq hgroup, hlevel, List.head?_cons]
    rw [hlevel] at hb
    rcases List.mem_cons.mp hb with rfl | hb
    · exact ⟨[.enter], by simp, Machine.run_cons _ [] henter⟩
    · obtain ⟨keys, hkeys, hrun⟩ := @right_along α γ _ lv _ a first b [] rest ha hlevel hb
      refine ⟨.enter :: keys, ?_, (Machine.run_cons _ keys henter).trans hrun⟩
      simpa using fun key hkey => .inr (hkeys key hkey)

/-- Down to a descendant, through the navigable objects above it in turn. -/
theorem reach_descendant (hgroup : lv.currentGroup ≠ none) {r b : α} (hr : lv.navigable r = true)
    (hbelow : r ∈ lv.ancestors b) (hb : lv.navigable b = true) :
    ∃ keys : List LvKey, (∀ key ∈ keys, key = .enter ∨ key = .right) ∧
      Machine.run lv.focusStep r keys = some b := by
  induction hdepth : lv.depth b using Nat.strongRecOn generalizing b with
  | _ depth ih =>
    have hsome : (lv.nearest lv.navigable b).isSome := List.find?_isSome.mpr ⟨r, hbelow, hr⟩
    obtain ⟨a, ha⟩ := Option.isSome_iff_exists.mp hsome
    have hnav := lv.nearest_navigable ha
    obtain ⟨keys', hkeys', hrun'⟩ := lv.enter_level hgroup hnav
      ((lv.mem_level_iff lv.navigable hnav).mpr ⟨hb, ha⟩)
    rcases lv.nearest_below lv.navigable hr hbelow ha with rfl | hup
    · exact ⟨keys', hkeys', hrun'⟩
    · have hlt := lv.depth_lt_of_mem_ancestors (List.mem_of_find?_eq_some ha)
      obtain ⟨keys, hkeys, hrun⟩ := ih (lv.depth a) (hdepth ▸ hlt) hup hnav rfl
      refine ⟨keys ++ keys', fun key hkey => ?_, ?_⟩
      · rcases List.mem_append.mp hkey with hkey | hkey
        · exact hkeys key hkey
        · exact hkeys' key hkey
      · rw [Machine.run_append, hrun, Option.bind_some, hrun']

/-- The sibling keys stay in the level. -/
theorem sibling_in_level {a x y : α} {key : LvKey} (ha : lv.navigable a = true)
    (hx : x ∈ lv.level lv.navigable a) (hkey : key = .right ∨ key = .left)
    (h : lv.focusStep x key = some y) : y ∈ lv.level lv.navigable a := by
  have hnear := ((lv.mem_level_iff lv.navigable ha).mp hx).2
  obtain ⟨before, after, hsplit⟩ := List.append_of_mem hx
  rw [hsplit, List.mem_append, List.mem_cons]
  rcases hkey with rfl | rfl
  · rw [focusStep, lv.findNextFocusableSibling_eq hnear hsplit] at h
    exact .inr (.inr (List.mem_of_head? h))
  · rw [focusStep, lv.findPrevFocusableSibling_eq hnear hsplit] at h
    exact .inl (List.mem_of_getLast? h)

theorem siblings_in_level {a x y : α} {keys : List LvKey} (ha : lv.navigable a = true)
    (hx : x ∈ lv.level lv.navigable a) (hkeys : ∀ key ∈ keys, key = .right ∨ key = .left)
    (hrun : Machine.run lv.focusStep x keys = some y) : y ∈ lv.level lv.navigable a := by
  induction keys generalizing x with
  | nil =>
    cases hrun
    exact hx
  | cons key keys ih =>
    obtain ⟨z, hz, hrun⟩ := (Machine.run_cons_eq_some _).mp hrun
    refine ih (lv.sibling_in_level ha hx (hkeys key List.mem_cons_self) hz) ?_ hrun
    exact fun key' hkey' => hkeys key' (List.mem_cons_of_mem key hkey')

/-- Every navigable object below is come to by ENTER and RIGHT, and ESC goes back to where
ENTER was pressed. -/
theorem keys_reach_and_leave (hgroup : lv.currentGroup ≠ none) {r : α}
    (hr : lv.navigable r = true) :
    (∀ b ∈ lv.preorder r, lv.navigable b = true →
      ∃ keys : List LvKey, (∀ key ∈ keys, key = .enter ∨ key = .right) ∧
        Machine.run lv.focusStep r keys = some b) ∧
    ∀ (first : α) (keys : List LvKey) (b : α), lv.focusStep r .enter = some first →
      (∀ key ∈ keys, key = .right ∨ key = .left) →
      Machine.run lv.focusStep first keys = some b → lv.focusStep b .esc = some r := by
  constructor
  · intro b hbelow hb
    exact lv.reach_descendant hgroup hr (lv.mem_preorder_iff.mp hbelow) hb
  · intro first keys b henter hkeys hrun
    rw [focusStep, lv.findFirstFocusableChildDfs_eq hgroup] at henter
    have hb := lv.siblings_in_level hr (List.mem_of_head? henter) hkeys hrun
    rw [focusStep, findFirstFocusableParentDfs_eq]
    exact ((lv.mem_level_iff lv.navigable hr).mp hb).2

theorem keys_reach_and_leave_nested :
    (∃ keys : List LvKey, (∀ key ∈ keys, key = .enter ∨ key = .right) ∧
      Machine.run nestedScreen.focusStep 0 keys = some 6) ∧
    nestedScreen.focusStep 4 .esc = some 0 := by
  have hnav : nestedScreen.navigable 0 = true ∧ nestedScreen.navigable 6 = true := by decide
  obtain ⟨hreach, hleave⟩ := keys_reach_and_leave nestedScreen (by decide) hnav.1
  have hsiblings : ∀ key ∈ [LvKey.right, .right], key = LvKey.right ∨ key = .left := by decide
  exact ⟨hreach 6 (by decide) hnav.2, hleave 2 _ 4 (by decide) hsiblings (by decide)⟩

end Keys

end LvObjs

end MinimalWatch.Ui
