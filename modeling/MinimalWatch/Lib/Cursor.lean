import MinimalWatch.Lib.Tree

/-! Places in a tree of menus. A place is the way to it, the index at every level, innermost
first; of the tree only the number of entries at every place matters to the moves. The second
part gives the marked nodes below a node of a linked tree such places, one each. -/

namespace Firmware

abbrev Place := List Nat

namespace Place

def first (count : Place → Nat) (p : Place) : Place := if 0 < count p then 0 :: p else p

/-- The last entry is not left. -/
def next (count : Place → Nat) : Place → Place
  | [] => []
  | i :: up => if i + 1 < count up then (i + 1) :: up else i :: up

/-- Nor is the first. -/
def prev : Place → Place
  | [] => []
  | i :: up => (i - 1) :: up

/-- `none` is outside of the tree. -/
def leave : Place → Option Place
  | [] => none
  | _ :: up => some up

/-- The top of a window of `height` entries that is moved no further than to have entry `i`
in it. -/
def keepInView (height top i : Nat) : Nat :=
  if i < top then i else if top + height ≤ i then i + 1 - height else top

theorem keepInView_inside {height top i : Nat} (hle : top ≤ i) (hlt : i < top + height) :
    keepInView height top i = top := by
  rw [keepInView, if_neg (by omega), if_neg (by omega)]

theorem keepInView_above {height top i : Nat} (h : i < top) : keepInView height top i = i :=
  if_pos h

theorem keepInView_below {height top i : Nat} (h : top + height ≤ i) :
    keepInView height top i = i + 1 - height := by
  rw [keepInView, if_neg (by omega), if_pos h]

end Place

namespace LinkedTree
variable {α : Type*} [DecidableEq α] (t : LinkedTree α) (marked : α → Bool) (r : α)

/-- The node at the end of the way. -/
def nodeAt : Place → Option α
  | [] => some r
  | i :: up => (nodeAt up).bind fun a => (t.level marked a)[i]?

def entries (p : Place) : Nat := (t.nodeAt marked r p).elim 0 fun a => (t.level marked a).length

def placeFrom : Nat → α → Place
  | 0, _ => []
  | steps + 1, b =>
    if b = r then []
    else
      match t.nearest marked b with
      | none => []
      | some a => (t.level marked a).idxOf b :: placeFrom steps a

/-- The place of a node that is marked and below. -/
def placeOf (b : α) : Place := t.placeFrom marked r (t.depth b + 1) b

/-- The node itself, or one below it. -/
def Within (b : α) : Prop := b = r ∨ r ∈ t.ancestors b

instance (b : α) : Decidable (t.Within r b) := inferInstanceAs (Decidable (_ ∨ _))

variable {marked r}

@[simp] theorem placeOf_root : t.placeOf marked r r = [] := by
  rw [placeOf, placeFrom, if_pos rfl]

omit [DecidableEq α] in
theorem nearest_depth {a b : α} (h : t.nearest marked b = some a) : t.depth a < t.depth b :=
  t.depth_lt_of_mem_ancestors (List.mem_of_find?_eq_some h)

theorem placeFrom_enough {steps : Nat} {b : α} (h : t.depth b < steps) :
    t.placeFrom marked r steps b = t.placeOf marked r b := by
  suffices hany : ∀ n m b, t.depth b < n → t.depth b < m →
      t.placeFrom marked r n b = t.placeFrom marked r m b from hany _ _ b h (Nat.lt_succ_self _)
  intro n
  induction n with
  | zero => exact fun m b hn _ => absurd hn (Nat.not_lt_zero _)
  | succ n ih =>
    intro m b hn hm
    obtain ⟨m, rfl⟩ := Nat.exists_eq_add_of_lt (Nat.lt_of_le_of_lt (Nat.zero_le _) hm)
    rw [Nat.zero_add, placeFrom, placeFrom]
    cases ha : t.nearest marked b with
    | none => rfl
    | some a =>
      have hlt := t.nearest_depth ha
      simp only [ih (0 + m) a (by omega) (by omega), Nat.zero_add]

theorem placeOf_below {a b : α} (hne : b ≠ r) (h : t.nearest marked b = some a) :
    t.placeOf marked r b = (t.level marked a).idxOf b :: t.placeOf marked r a := by
  rw [placeOf, placeFrom, if_neg hne, h]
  exact congrArg _ (t.placeFrom_enough (t.nearest_depth h))

theorem within_nearest {b : α} (hr : marked r = true) (hne : b ≠ r) (h : t.Within r b) :
    ∃ a, t.nearest marked b = some a ∧ marked a = true ∧ t.Within r a := by
  have hup := h.resolve_left hne
  obtain ⟨a, ha⟩ := Option.isSome_iff_exists.mp (List.find?_isSome.mpr ⟨r, hup, hr⟩)
  exact ⟨a, ha, List.find?_some ha, (t.nearest_below marked hr hup ha).imp_left Eq.symm⟩

theorem within_of_level {a b : α} (ha : marked a = true) (hwithin : t.Within r a)
    (h : b ∈ t.level marked a) : t.Within r b ∧ b ≠ r := by
  have hnear := ((t.mem_level_iff marked ha).mp h).2
  have hmem := List.mem_of_find?_eq_some hnear
  have hbelow : r ∈ t.ancestors b := by
    rcases hwithin with rfl | hup
    · exact hmem
    · obtain ⟨above, hcut, -⟩ := t.ancestors_of_mem_preorder (t.mem_preorder_iff.mpr hmem)
      rw [hcut]
      exact List.mem_append_right above (List.mem_cons_of_mem a hup)
  refine ⟨.inr hbelow, fun heq => ?_⟩
  have hlt := t.depth_lt_of_mem_ancestors hbelow
  rw [heq] at hlt
  exact Nat.lt_irrefl _ hlt

theorem nodeAt_placeOf {b : α} (hr : marked r = true) (hb : marked b = true)
    (h : t.Within r b) : t.nodeAt marked r (t.placeOf marked r b) = some b := by
  induction hdepth : t.depth b using Nat.strongRecOn generalizing b with
  | _ depth ih =>
    by_cases hne : b = r
    · rw [hne, placeOf_root, nodeAt]
    · obtain ⟨a, ha, hmark, hwithin⟩ := t.within_nearest hr hne h
      have hlt := t.nearest_depth ha
      rw [t.placeOf_below hne ha, nodeAt, ih _ (hdepth ▸ hlt) hmark hwithin rfl,
        Option.bind_some]
      exact List.getElem?_idxOf ((t.mem_level_iff marked hmark).mpr ⟨hb, ha⟩)

/-- At a place there is a marked node within, and the place is its place. -/
theorem placeOf_nodeAt {b : α} {p : Place} (hr : marked r = true)
    (h : t.nodeAt marked r p = some b) :
    marked b = true ∧ t.Within r b ∧ t.placeOf marked r b = p := by
  induction p generalizing b with
  | nil =>
    cases h
    exact ⟨hr, .inl rfl, t.placeOf_root⟩
  | cons i up ih =>
    rw [nodeAt] at h
    obtain ⟨a, ha, hentry⟩ := Option.bind_eq_some_iff.mp h
    obtain ⟨hmark, hwithin, hplace⟩ := ih ha
    have hmem := List.mem_of_getElem? hentry
    obtain ⟨hb, hnear⟩ := (t.mem_level_iff marked hmark).mp hmem
    obtain ⟨hbelow, hne⟩ := t.within_of_level hmark hwithin hmem
    refine ⟨hb, hbelow, ?_⟩
    rw [t.placeOf_below hne hnear, hplace]
    obtain ⟨hi, hget⟩ := List.getElem?_eq_some_iff.mp hentry
    rw [← hget, (t.level_nodup marked a).idxOf_getElem i hi]

end LinkedTree

end Firmware
