import MinimalWatch.Lib.Cursor
import MinimalWatch.Lib.Machine
import MinimalWatch.Ui.Focus

/-! The keys in an app, from appmgr_ui.c. The key handler of the app's screen walks the tree
of the objects; over it, the focus is a place in the tree of what can be focused, and a key
moves one index of it. -/

namespace MinimalWatch.Ui
open Firmware

/-- What `handle_app_screen_keys_cb` comes to. -/
structure KeyOutcome (α : Type*) where
  /-- `handle_app_scr_close` is called. -/
  closes : Bool
  focused : Option α
  /-- The event goes no further up. -/
  stops : Bool
  deriving DecidableEq, Repr

/-- Where the focus of the app is then, `none` if it is closed. -/
def KeyOutcome.after {α : Type*} (o : KeyOutcome α) : Option α :=
  if o.closes then none else o.focused

namespace LvObjs
variable {α γ : Type*} [DecidableEq γ] [DecidableEq α] (lv : LvObjs α γ) (appScr : α)

/-- The focus stays where it is if there is nothing to go to. -/
def handleAppScreenKeysCb (currFocused : Option α) (key : LvKey) : KeyOutcome α :=
  match currFocused with
  | none =>
    match key with
    | .other _ => ⟨false, none, true⟩
    | _ => ⟨false, none, false⟩
  | some focused =>
    match key with
    | .esc =>
      if focused = appScr then ⟨true, some focused, true⟩
      else ⟨false, (lv.findFirstFocusableParentDfs focused).or (some focused), true⟩
    | .enter =>
      if focused = appScr then
        ⟨false, (lv.findFirstFocusableChildDfs (some appScr)).or (some focused), true⟩
      else ⟨false, some focused, true⟩
    | .right =>
      if focused = appScr then ⟨false, some focused, true⟩
      else ⟨false, (lv.findNextFocusableSibling (some focused)).or (some focused), true⟩
    | .left =>
      if focused = appScr then ⟨false, some focused, true⟩
      else ⟨false, (lv.findPrevFocusableSibling (some focused)).or (some focused), true⟩
    | .other _ => ⟨false, some focused, true⟩

/-- A key that no object of the app has taken, or an object of the app puts the focus on one
of the app's. -/
inductive AppAction (α : Type*)
  | key (key : LvKey)
  | focusObj (obj : α)

/-- The focus while the app is open, and `none` once it is closed. -/
def appKeyStep (s : Option α) (action : AppAction α) : Option (Option α) :=
  s.bind fun focused =>
    match action with
    | .key key =>
      some (lv.handleAppScreenKeysCb appScr (some focused) key).after
    | .focusObj obj =>
      if lv.navigable obj ∧ lv.Within appScr obj then some (some obj) else none

/-! ### Along a level, by index -/

section Index
variable {lv}

theorem nearest_at {a b : α} {i : Nat} (ha : lv.navigable a = true)
    (h : (lv.level lv.navigable a)[i]? = some b) :
    lv.navigable b = true ∧ lv.nearest lv.navigable b = some a :=
  (lv.mem_level_iff lv.navigable ha).mp (List.mem_of_getElem? h)

theorem level_split_at {a b : α} {i : Nat} (h : (lv.level lv.navigable a)[i]? = some b) :
    lv.level lv.navigable a = (lv.level lv.navigable a).take i ++
      b :: (lv.level lv.navigable a).drop (i + 1) := by
  obtain ⟨hi, hget⟩ := List.getElem?_eq_some_iff.mp h
  rw [← hget, List.getElem_cons_drop, List.take_append_drop]

theorem findNextFocusableSibling_at {a b : α} {i : Nat} (ha : lv.navigable a = true)
    (h : (lv.level lv.navigable a)[i]? = some b) :
    lv.findNextFocusableSibling (some b) = (lv.level lv.navigable a)[i + 1]? := by
  rw [lv.findNextFocusableSibling_eq (nearest_at ha h).2 (level_split_at h), List.head?_drop]

theorem findPrevFocusableSibling_at {a b : α} {i : Nat} (ha : lv.navigable a = true)
    (h : (lv.level lv.navigable a)[i]? = some b) :
    lv.findPrevFocusableSibling (some b) =
      if i = 0 then none else (lv.level lv.navigable a)[i - 1]? := by
  have hi := (List.getElem?_eq_some_iff.mp h).1
  rw [lv.findPrevFocusableSibling_eq (nearest_at ha h).2 (level_split_at h), List.getLast?_take,
    List.getElem?_eq_getElem (show i - 1 < _ by omega), Option.some_or]

end Index

/-! ### Places -/

/-- What a key does to the place of the focus. -/
def keyPlace (count : Place → Nat) (p : Place) : LvKey → Option Place
  | .enter => some (if p = [] then Place.first count p else p)
  | .esc => Place.leave p
  | .right => some (Place.next count p)
  | .left => some (Place.prev p)
  | .other _ => some p

inductive PlaceAction
  | key (key : LvKey)
  | jump (p : Place)

def placeStep (count : Place → Nat) (s : Option Place) (action : PlaceAction) :
    Option (Option Place) :=
  s.map fun p =>
    match action with
    | .key key => keyPlace count p key
    | .jump q => some q

abbrev place (obj : α) : Place := lv.placeOf lv.navigable appScr obj

abbrev count (p : Place) : Nat := lv.entries lv.navigable appScr p

def placeAction : AppAction α → PlaceAction
  | .key key => .key key
  | .focusObj obj => .jump (lv.place appScr obj)

variable {lv} {appScr}

/-- An object that is at a place. -/
theorem place_of_nodeAt (hscr : lv.navigable appScr = true) {p : Place} {obj : α}
    (h : lv.nodeAt lv.navigable appScr p = some obj) :
    lv.navigable obj = true ∧ lv.Within appScr obj ∧ lv.place appScr obj = p :=
  lv.placeOf_nodeAt hscr h

/-- An object below the screen is an entry of a level, at the index that its place begins
with. -/
theorem place_entry (hscr : lv.navigable appScr = true) {obj : α}
    (hobj : lv.navigable obj = true) (hwithin : lv.Within appScr obj) (hne : obj ≠ appScr) :
    ∃ a i, lv.navigable a = true ∧
      lv.nodeAt lv.navigable appScr (lv.place appScr a) = some a ∧
      (lv.level lv.navigable a)[i]? = some obj ∧ lv.place appScr obj = i :: lv.place appScr a := by
  obtain ⟨a, ha, hmark, hup⟩ := lv.within_nearest hscr hne hwithin
  exact ⟨a, _, hmark, lv.nodeAt_placeOf hscr hmark hup,
    List.getElem?_idxOf ((lv.mem_level_iff lv.navigable hmark).mpr ⟨hobj, ha⟩),
    lv.placeOf_below hne ha⟩

theorem count_nodeAt {p : Place} {a : α} (h : lv.nodeAt lv.navigable appScr p = some a) :
    lv.count appScr p = (lv.level lv.navigable a).length := by
  rw [count, LinkedTree.entries, h, Option.elim_some]

theorem nodeAt_entry {p : Place} {a : α} (h : lv.nodeAt lv.navigable appScr p = some a)
    (i : Nat) : lv.nodeAt lv.navigable appScr (i :: p) = (lv.level lv.navigable a)[i]? := by
  rw [LinkedTree.nodeAt, h, Option.bind_some]

/-- The focus is in the app, and its place is `p`. -/
structure FocusAt (lv : LvObjs α γ) (appScr : α) (s : Option α) (p : Option Place) : Prop where
  place : p = s.map (lv.place appScr)
  inApp : ∀ obj ∈ s, lv.navigable obj = true ∧ lv.Within appScr obj

theorem focusAt_nodeAt (hscr : lv.navigable appScr = true) {p : Place} {obj : α}
    (h : lv.nodeAt lv.navigable appScr p = some obj) :
    FocusAt lv appScr (some obj) (some p) := by
  obtain ⟨hobj, hwithin, hplace⟩ := place_of_nodeAt hscr h
  refine ⟨congrArg some hplace.symm, fun obj' hobj' => ?_⟩
  rw [← Option.some.inj hobj']
  exact ⟨hobj, hwithin⟩

theorem key_on_screen (hgroup : lv.currentGroup ≠ none) (hscr : lv.navigable appScr = true)
    (key : LvKey) :
    FocusAt lv appScr (lv.handleAppScreenKeysCb appScr (some appScr) key).after
      (keyPlace (lv.count appScr) [] key) := by
  have hroot : lv.nodeAt lv.navigable appScr [] = some appScr := rfl
  have hstays := focusAt_nodeAt hscr hroot
  cases key with
  | esc =>
    rw [handleAppScreenKeysCb, if_pos rfl]
    exact ⟨rfl, fun obj hobj => by cases hobj⟩
  | enter =>
    rw [handleAppScreenKeysCb, if_pos rfl, lv.findFirstFocusableChildDfs_eq hgroup, keyPlace,
      if_pos rfl, Place.first, count_nodeAt hroot]
    cases hlevel : lv.level lv.navigable appScr with
    | nil => exact hstays
    | cons obj rest =>
      have hfirst : lv.nodeAt lv.navigable appScr [0] = some obj := by
        rw [nodeAt_entry hroot, hlevel, List.getElem?_cons_zero]
      exact focusAt_nodeAt hscr hfirst
  | right | left =>
    rw [handleAppScreenKeysCb, if_pos rfl]
    exact hstays
  | other code => exact hstays

theorem key_below_screen (hscr : lv.navigable appScr = true) {focused : α}
    (hobj : lv.navigable focused = true) (hwithin : lv.Within appScr focused)
    (hne : focused ≠ appScr) (key : LvKey) :
    FocusAt lv appScr (lv.handleAppScreenKeysCb appScr (some focused) key).after
      (keyPlace (lv.count appScr) (lv.place appScr focused) key) := by
  obtain ⟨a, i, ha, hup, hentry, hplace⟩ := place_entry hscr hobj hwithin hne
  have hstays := focusAt_nodeAt hscr (lv.nodeAt_placeOf hscr hobj hwithin)
  rw [show lv.placeOf lv.navigable appScr focused = _ from hplace] at hstays
  have hmoves {j : Nat} {obj : α} (hobj : (lv.level lv.navigable a)[j]? = some obj) :
      FocusAt lv appScr (some obj) (some (j :: lv.place appScr a)) :=
    focusAt_nodeAt hscr ((nodeAt_entry hup j).trans hobj)
  rw [hplace]
  cases key with
  | esc =>
    rw [handleAppScreenKeysCb, if_neg hne, findFirstFocusableParentDfs_eq, (nearest_at ha hentry).2]
    exact focusAt_nodeAt hscr hup
  | enter =>
    rw [handleAppScreenKeysCb, if_neg hne]
    exact hstays
  | right =>
    rw [handleAppScreenKeysCb, if_neg hne, findNextFocusableSibling_at ha hentry, keyPlace,
      Place.next, count_nodeAt hup]
    cases hnext : (lv.level lv.navigable a)[i + 1]? with
    | none =>
      rw [if_neg (Nat.not_lt_of_le (List.getElem?_eq_none_iff.mp hnext))]
      exact hstays
    | some obj =>
      rw [if_pos (List.getElem?_eq_some_iff.mp hnext).1]
      exact hmoves hnext
  | left =>
    rw [handleAppScreenKeysCb, if_neg hne, findPrevFocusableSibling_at ha hentry]
    by_cases hfirst : i = 0
    · subst hfirst
      exact hstays
    · have hlt := (List.getElem?_eq_some_iff.mp hentry).1
      have hprev := List.getElem?_eq_getElem (show i - 1 < (lv.level lv.navigable a).length by omega)
      rw [if_neg hfirst, hprev]
      exact hmoves hprev
  | other code => exact hstays

/-- One step of the focus is one step of its place. -/
theorem focusAt_step (hgroup : lv.currentGroup ≠ none) (hscr : lv.navigable appScr = true)
    {s s' : Option α} {p : Option Place} {action : AppAction α} (h : FocusAt lv appScr s p)
    (hstep : lv.appKeyStep appScr s action = some s') :
    ∃ p', placeStep (lv.count appScr) p (lv.placeAction appScr action) = some p' ∧
      FocusAt lv appScr s' p' := by
  obtain ⟨focused, rfl, hstep⟩ := Option.bind_eq_some_iff.mp hstep
  obtain ⟨hobj, hwithin⟩ := h.inApp focused rfl
  rw [h.place]
  cases action with
  | key key =>
    refine ⟨_, rfl, ?_⟩
    rw [← Option.some.inj hstep]
    by_cases heq : focused = appScr
    · have hroot : lv.place appScr appScr = [] := lv.placeOf_root
      rw [heq, hroot]
      exact key_on_screen hgroup hscr key
    · exact key_below_screen hscr hobj hwithin heq key
  | focusObj obj =>
    obtain ⟨⟨hobj', hwithin'⟩, hstep⟩ := Option.ite_none_right_eq_some.mp hstep
    refine ⟨_, rfl, ?_⟩
    rw [← Option.some.inj hstep]
    exact focusAt_nodeAt hscr (lv.nodeAt_placeOf hscr hobj' hwithin')

theorem focusAt_run (hgroup : lv.currentGroup ≠ none) (hscr : lv.navigable appScr = true)
    {s t : Option α} {p : Option Place} {actions : List (AppAction α)}
    (h : FocusAt lv appScr s p) (hrun : Machine.run (lv.appKeyStep appScr) s actions = some t) :
    ∃ q, Machine.run (placeStep (lv.count appScr)) p (actions.map (lv.placeAction appScr)) =
      some q ∧ FocusAt lv appScr t q := by
  induction actions generalizing s p with
  | nil =>
    cases hrun
    exact ⟨p, rfl, h⟩
  | cons action rest ih =>
    obtain ⟨s', hs, hrun⟩ := (Machine.run_cons_eq_some _).mp hrun
    obtain ⟨p', hp, h'⟩ := focusAt_step hgroup hscr h hs
    obtain ⟨q, hq, ht⟩ := ih h' hrun
    exact ⟨q, (Machine.run_cons _ _ hp).trans hq, ht⟩

theorem esc_step (hgroup : lv.currentGroup ≠ none) (hscr : lv.navigable appScr = true)
    {obj : α} {p : Place} (h : FocusAt lv appScr (some obj) (some p)) :
    ∃ s, lv.appKeyStep appScr (some obj) (.key .esc) = some s ∧
      FocusAt lv appScr s (Place.leave p) := by
  have hstep : lv.appKeyStep appScr (some obj) (.key .esc) =
      some (lv.handleAppScreenKeysCb appScr (some obj) .esc).after := rfl
  obtain ⟨q, hq, hat⟩ := focusAt_step hgroup hscr h hstep
  rw [← Option.some.inj hq] at hat
  exact ⟨_, hstep, hat⟩

/-- ESC goes up by a level. -/
theorem esc_up (hgroup : lv.currentGroup ≠ none) (hscr : lv.navigable appScr = true)
    {obj : α} {p : Place} (h : FocusAt lv appScr (some obj) (some p)) {n : Nat}
    (hn : n ≤ p.length) :
    ∃ obj', Machine.run (lv.appKeyStep appScr) (some obj) (.replicate n (.key .esc)) =
      some (some obj') ∧ FocusAt lv appScr (some obj') (some (p.drop n)) := by
  induction n generalizing obj p with
  | zero => exact ⟨obj, rfl, h⟩
  | succ n ih =>
    cases p with
    | nil => exact absurd hn (Nat.not_succ_le_zero n)
    | cons i up =>
      obtain ⟨s, hstep, hat⟩ := esc_step hgroup hscr h
      obtain ⟨obj', rfl, -⟩ := Option.map_eq_some_iff.mp hat.place.symm
      obtain ⟨obj'', hrun, hat'⟩ := ih hat (Nat.le_of_succ_le_succ hn)
      exact ⟨obj'', (Machine.run_cons _ _ hstep).trans hrun, hat'⟩

/-- From the app's screen it closes the app. -/
theorem esc_closes (hgroup : lv.currentGroup ≠ none) (hscr : lv.navigable appScr = true)
    {obj : α} {p : Place} (h : FocusAt lv appScr (some obj) (some p)) :
    Machine.run (lv.appKeyStep appScr) (some obj) (.replicate (p.length + 1) (.key .esc)) =
      some none := by
  obtain ⟨obj', hrun, hat⟩ := esc_up hgroup hscr h (Nat.le_refl p.length)
  rw [List.drop_length] at hat
  obtain ⟨s, hstep, hclosed⟩ := esc_step hgroup hscr hat
  have hnone : s = none := Option.map_eq_none_iff.mp hclosed.place.symm
  rw [List.replicate_succ', Machine.run_append, hrun, Option.bind_some,
    Machine.run_cons _ _ hstep, hnone]
  rfl

/-- However the objects of the app are nested, and wherever the app itself puts the focus, the
keys move it as a cursor in the tree of what can be focused; it stays in the app, and the app
closes after as many ESC as the focus is deep, and one. -/
theorem keys_move_place (hgroup : lv.currentGroup ≠ none) (hscr : lv.navigable appScr = true)
    {actions : List (AppAction α)} {s : Option α}
    (hrun : Machine.run (lv.appKeyStep appScr) (some appScr) actions = some s) :
    Machine.run (placeStep (lv.count appScr)) (some []) (actions.map (lv.placeAction appScr)) =
      some (s.map (lv.place appScr)) ∧
    ∀ obj ∈ s, lv.nodeAt lv.navigable appScr (lv.place appScr obj) = some obj ∧
      Machine.run (lv.appKeyStep appScr) (some obj)
        (.replicate ((lv.place appScr obj).length + 1) (.key .esc)) = some none ∧
      ∀ n ≤ (lv.place appScr obj).length, ∃ obj',
        Machine.run (lv.appKeyStep appScr) (some obj) (.replicate n (.key .esc)) =
          some (some obj') ∧ lv.place appScr obj' = (lv.place appScr obj).drop n := by
  have hroot : lv.nodeAt lv.navigable appScr [] = some appScr := rfl
  obtain ⟨q, hq, hat⟩ := focusAt_run hgroup hscr (focusAt_nodeAt hscr hroot) hrun
  refine ⟨hat.place ▸ hq, fun obj hobj => ?_⟩
  obtain ⟨hmark, hwithin⟩ := hat.inApp obj hobj
  have hnode := lv.nodeAt_placeOf hscr hmark hwithin
  have hself := focusAt_nodeAt hscr hnode
  refine ⟨hnode, esc_closes hgroup hscr hself, fun n hn => ?_⟩
  obtain ⟨obj', hrun', hat'⟩ := esc_up hgroup hscr hself hn
  exact ⟨obj', hrun', (Option.some.inj hat'.place).symm⟩

/-- In the nested objects: down, past a container, and by the app to an object a level below. -/
theorem keys_move_place_nested :
    let actions : List (AppAction (Fin 7)) :=
      [.key .enter, .key .right, .key .right, .key .right, .key .left, .focusObj 6]
    Machine.run (nestedScreen.appKeyStep 0) (some 0) actions = some (some 6) ∧
      Machine.run (placeStep (nestedScreen.count 0)) (some [])
        (actions.map (nestedScreen.placeAction 0)) = some (some [0, 2]) ∧
      Machine.run (nestedScreen.appKeyStep 0) (some 6) (.replicate 3 (.key .esc)) =
        some none := by
  intro actions
  have hrun : Machine.run (nestedScreen.appKeyStep 0) (some 0) actions = some (some 6) := by
    decide
  have hplace : nestedScreen.place 0 6 = [0, 2] := by decide
  obtain ⟨hmoves, hleaves⟩ := keys_move_place (by decide) (by decide) hrun
  have hcloses := (hleaves 6 rfl).2.1
  rw [hplace] at hcloses
  refine ⟨hrun, ?_, hcloses⟩
  rw [hmoves, Option.map_some, hplace]

end LvObjs

end MinimalWatch.Ui
