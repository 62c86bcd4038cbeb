import Mathlib.Data.List.Nodup
import Mathlib.Tactic.Common

/-! Ordered trees given by the links between their nodes, as programs hold them. A tree
carries the agreement of its links, the depth of its nodes and a bound on it, which every
finite tree has; they bound the walks up and down. `collect` gathers a list bottom up; the
descendants in pre-order and, of the marked nodes, those next below a node are gathered
so. The last section is about the marked nodes as a tree of their own. -/

namespace Firmware

structure LinkedTree (α : Type*) where
  children : α → List α
  parent : α → Option α
  linked : ∀ a b, b ∈ children a ↔ parent b = some a
  distinct : ∀ a, (children a).Nodup
  depth : α → Nat
  depth_child : ∀ a b, parent b = some a → depth b = depth a + 1
  levels : Nat
  depth_lt : ∀ a, depth a < levels

namespace LinkedTree
variable {α : Type*} {β : Type*} (t : LinkedTree α)

/-- The levels from a node on down. -/
def height (a : α) : Nat := t.levels - t.depth a

theorem height_child {a b : α} (h : b ∈ t.children a) : t.height b < t.height a := by
  have hdepth := t.depth_child a b ((t.linked a b).mp h)
  have hlevels := t.depth_lt b
  rw [height, height]
  omega

/-- Induction from the children to their parent. -/
theorem upward {motive : α → Prop} (h : ∀ a, (∀ c ∈ t.children a, motive c) → motive a)
    (a : α) : motive a := by
  induction hn : t.height a using Nat.strongRecOn generalizing a with
  | _ n ih =>
    refine h a fun c hc => ih (t.height c) ?_ c rfl
    rw [← hn]
    exact t.height_child hc

/-- Induction from the parent to its children. -/
theorem downward {motive : α → Prop} (h : ∀ b, (∀ a, t.parent b = some a → motive a) → motive b)
    (b : α) : motive b := by
  induction hn : t.depth b using Nat.strongRecOn generalizing b with
  | _ n ih =>
    refine h b fun a ha => ih (t.depth a) ?_ a rfl
    rw [← hn, t.depth_child a b ha]
    exact Nat.lt_succ_self _

/-! ### Up -/

def climb : Nat → α → List α
  | 0, _ => []
  | steps + 1, b =>
    match t.parent b with
    | none => []
    | some a => a :: climb steps a

/-- The ancestors of a node, nearest first. -/
def ancestors (b : α) : List α := t.climb (t.depth b) b

theorem ancestors_root {b : α} (h : t.parent b = none) : t.ancestors b = [] := by
  rw [ancestors]
  cases t.depth b with
  | zero => rfl
  | succ steps => rw [climb, h]

theorem ancestors_child {a b : α} (h : t.parent b = some a) :
    t.ancestors b = a :: t.ancestors a := by
  rw [ancestors, t.depth_child a b h, climb, h]
  rfl

theorem depth_lt_of_mem_ancestors {a b : α} (h : a ∈ t.ancestors b) : t.depth a < t.depth b := by
  induction b using t.downward with
  | h b ih =>
    cases hp : t.parent b with
    | none =>
      rw [t.ancestors_root hp] at h
      cases h
    | some p =>
      have hdepth := t.depth_child p b hp
      rw [t.ancestors_child hp, List.mem_cons] at h
      rcases h with rfl | h
      · omega
      · have hlt := ih p hp h
        omega

/-- On the way up no depth comes twice. -/
theorem eq_of_depth_eq {a a' b : α} (ha : a ∈ b :: t.ancestors b) (ha' : a' ∈ b :: t.ancestors b)
    (h : t.depth a = t.depth a') : a = a' := by
  induction b using t.downward with
  | h b ih =>
    rcases List.mem_cons.mp ha with rfl | hup
    · rcases List.mem_cons.mp ha' with rfl | hup'
      · rfl
      · have hlt := t.depth_lt_of_mem_ancestors hup'
        omega
    · rcases List.mem_cons.mp ha' with rfl | hup'
      · have hlt := t.depth_lt_of_mem_ancestors hup
        omega
      · cases hp : t.parent b with
        | none =>
          rw [t.ancestors_root hp] at hup
          cases hup
        | some p =>
          rw [t.ancestors_child hp] at hup hup'
          exact ih p hp hup hup'

/-! ### Down -/

def collectFrom (f : α → List β → List β) : Nat → α → List β
  | 0, _ => []
  | levels + 1, a => (t.children a).flatMap fun c => f c (collectFrom f levels c)

/-- Every child adds to what is collected below it. -/
def collect (f : α → List β → List β) (a : α) : List β := t.collectFrom f (t.height a) a

theorem collectFrom_enough (f : α → List β → List β) {levels : Nat} {a : α}
    (h : t.height a ≤ levels) : t.collectFrom f levels a = t.collect f a := by
  suffices hany : ∀ n m a, t.height a ≤ n → t.height a ≤ m →
      t.collectFrom f n a = t.collectFrom f m a from hany levels _ a h (Nat.le_refl _)
  intro n
  have hleaf : ∀ a, t.height a = 0 → t.children a = [] := by
    intro a ha
    refine List.eq_nil_iff_forall_not_mem.mpr fun c hc => ?_
    have hlt := t.height_child hc
    omega
  induction n with
  | zero =>
    intro m a hn _
    cases m with
    | zero => rfl
    | succ m => rw [collectFrom, collectFrom, hleaf a (Nat.le_zero.mp hn), List.flatMap_nil]
  | succ n ih =>
    intro m a hn hm
    cases m with
    | zero => rw [collectFrom, collectFrom, hleaf a (Nat.le_zero.mp hm), List.flatMap_nil]
    | succ m =>
      rw [collectFrom, collectFrom]
      refine List.flatMap_congr fun c hc => ?_
      have hlt := t.height_child hc
      rw [ih m c (by omega) (by omega)]

theorem collect_eq (f : α → List β → List β) (a : α) :
    t.collect f a = (t.children a).flatMap fun c => f c (t.collect f c) := by
  have henough := @collectFrom_enough α β t f (t.height a + 1) a (Nat.le_succ _)
  rw [← henough, collectFrom]
  refine List.flatMap_congr fun c hc => ?_
  rw [t.collectFrom_enough f (Nat.le_of_lt (t.height_child hc))]

/-- The descendants of a node in pre-order. -/
def preorder : α → List α := t.collect fun c below => c :: below

theorem preorder_eq (a : α) :
    t.preorder a = (t.children a).flatMap fun c => c :: t.preorder c := t.collect_eq _ a

/-- The marked nodes that come next below a node, in pre-order. -/
def frontier (marked : α → Bool) : α → List α :=
  t.collect fun c below => if marked c then [c] else below

theorem frontier_eq (marked : α → Bool) (a : α) :
    t.frontier marked a =
      (t.children a).flatMap fun c => if marked c then [c] else t.frontier marked c :=
  t.collect_eq _ a

theorem mem_preorder_of_child {a p b : α} (hp : p ∈ t.preorder a) (hb : b ∈ t.children p) :
    b ∈ t.preorder a := by
  induction a using t.upward with
  | h a ih =>
    rw [preorder_eq, List.mem_flatMap] at hp ⊢
    obtain ⟨c, hc, hpc⟩ := hp
    refine ⟨c, hc, List.mem_cons_of_mem c ?_⟩
    rcases List.mem_cons.mp hpc with rfl | hbelow
    · rw [preorder_eq, List.mem_flatMap]
      exact ⟨b, hb, List.mem_cons_self⟩
    · exact ih c hc hbelow

/-- The way up from a descendant, cut at the node; what is before it lies deeper. -/
theorem ancestors_of_mem_preorder {a b : α} (h : b ∈ t.preorder a) :
    ∃ above, t.ancestors b = above ++ a :: t.ancestors a ∧ ∀ c ∈ above, t.depth a < t.depth c := by
  induction a using t.upward with
  | h a ih =>
    rw [preorder_eq, List.mem_flatMap] at h
    obtain ⟨c, hc, hbc⟩ := h
    have hp := (t.linked a c).mp hc
    have hdepth := t.depth_child a c hp
    rcases List.mem_cons.mp hbc with rfl | hbelow
    · exact ⟨[], t.ancestors_child hp, fun _ hnil => by cases hnil⟩
    · obtain ⟨above, hup, hdeep⟩ := ih c hc hbelow
      refine ⟨above ++ [c], ?_, fun d hd => ?_⟩
      · rw [hup, t.ancestors_child hp, List.append_assoc]
        rfl
      · rcases List.mem_append.mp hd with hd | hd
        · have hlt := hdeep d hd
          omega
        · rw [List.mem_singleton.mp hd]
          omega

theorem mem_preorder_iff {a b : α} : b ∈ t.preorder a ↔ a ∈ t.ancestors b := by
  constructor
  · intro h
    obtain ⟨above, hup, -⟩ := t.ancestors_of_mem_preorder h
    rw [hup]
    exact List.mem_append_right above List.mem_cons_self
  · intro h
    induction b using t.downward with
    | h b ih =>
      cases hp : t.parent b with
      | none =>
        rw [t.ancestors_root hp] at h
        cases h
      | some p =>
        have hb := (t.linked p b).mpr hp
        rw [t.ancestors_child hp, List.mem_cons] at h
        rcases h with rfl | hup
        · rw [preorder_eq, List.mem_flatMap]
          exact ⟨b, hb, List.mem_cons_self⟩
        · exact t.mem_preorder_of_child (ih p hp hup) hb

theorem preorder_nodup (a : α) : (t.preorder a).Nodup := by
  induction a using t.upward with
  | h a ih =>
    have hinclusive : ∀ c b, b ∈ c :: t.preorder c → c ∈ b :: t.ancestors b := by
      intro c b hb
      rcases List.mem_cons.mp hb with rfl | hbelow
      · exact List.mem_cons_self
      · exact List.mem_cons_of_mem b (t.mem_preorder_iff.mp hbelow)
    rw [preorder_eq, List.nodup_flatMap]
    constructor
    · intro c hc
      refine List.nodup_cons.mpr ⟨fun hself => ?_, ih c hc⟩
      have hlt := t.depth_lt_of_mem_ancestors (t.mem_preorder_iff.mp hself)
      omega
    · refine (List.pairwise_iff_forall_sublist.mpr fun {c c'} hsub => ?_)
      intro b hb hb'
      have hc := hsub.subset List.mem_cons_self
      have hc' := hsub.subset (List.mem_cons_of_mem c List.mem_cons_self)
      have hdepth := t.depth_child a c ((t.linked a c).mp hc)
      have hdepth' := t.depth_child a c' ((t.linked a c').mp hc')
      have hsame := t.eq_of_depth_eq (hinclusive c b hb) (hinclusive c' b hb') (by omega)
      have hpair := (t.distinct a).sublist hsub
      rw [hsame] at hpair
      simp at hpair

/-! ### The marked nodes -/

section Marked
variable [DecidableEq α] (marked : α → Bool)

/-- The marked node next above. -/
def nearest (b : α) : Option α := (t.ancestors b).find? marked

/-- The nodes on the way up from `b` that come before `a`. -/
def between (a b : α) : List α := (t.ancestors b).takeWhile fun c => c ≠ a

/-- The marked descendants with no marked node between, in pre-order. -/
def level (a : α) : List α :=
  (t.preorder a).filter fun b => marked b && (t.between a b).all fun c => !marked c

theorem between_of_ancestors {a b : α} {above rest : List α}
    (hup : t.ancestors b = above ++ a :: rest) (h : a ∉ above) : t.between a b = above := by
  rw [between, hup, List.takeWhile_append_of_pos]
  · simp
  · intro c hc
    exact decide_eq_true fun heq => h (heq ▸ hc)

theorem between_child {a c : α} (h : c ∈ t.children a) : t.between a c = [] :=
  t.between_of_ancestors (t.ancestors_child ((t.linked a c).mp h)) List.not_mem_nil

theorem between_below {a c b : α} (hc : c ∈ t.children a) (hb : b ∈ t.preorder c) :
    t.between a b = t.between c b ++ [c] := by
  have hp := (t.linked a c).mp hc
  have hdepth := t.depth_child a c hp
  obtain ⟨above, hup, hdeep⟩ := t.ancestors_of_mem_preorder hb
  have hbetween : t.between c b = above := by
    refine t.between_of_ancestors hup fun hmem => ?_
    exact Nat.lt_irrefl _ (hdeep c hmem)
  rw [hbetween]
  refine @between_of_ancestors _ t _ a b (above ++ [c]) (t.ancestors a) ?_ fun hmem => ?_
  · rw [hup, t.ancestors_child hp, List.append_assoc]
    rfl
  · rcases List.mem_append.mp hmem with hmem | hmem
    · have hlt := hdeep a hmem
      omega
    · rw [List.mem_singleton.mp hmem] at hdepth
      omega

/-- The nodes gathered bottom up, each branch cut at its first marked node, are the
descendants with no marked node between. -/
theorem frontier_eq_level (a : α) : t.frontier marked a = t.level marked a := by
  induction a using t.upward with
  | h a ih =>
    rw [frontier_eq, level, preorder_eq, List.filter_flatMap]
    refine List.flatMap_congr fun c hc => ?_
    rw [List.filter_cons, t.between_child hc, List.all_nil, Bool.and_true]
    cases hmark : marked c with
    | true =>
      have hcut : ∀ b ∈ t.preorder c,
          ¬ (marked b && (t.between a b).all fun d => !marked d) = true := by
        intro b hb
        simp [t.between_below hc hb, hmark]
      rw [List.filter_eq_nil_iff.mpr hcut]
      rfl
    | false =>
      rw [if_neg Bool.false_ne_true, if_neg Bool.false_ne_true, ih c hc, level]
      refine List.filter_congr fun b hb => ?_
      simp [t.between_below hc hb, hmark]

theorem level_nodup (a : α) : (t.level marked a).Nodup := (t.preorder_nodup a).filter _

/-- Below a marked node come the marked nodes of which it is the marked node next above. -/
theorem mem_level_iff {a b : α} (ha : marked a = true) :
    b ∈ t.level marked a ↔ marked b = true ∧ t.nearest marked b = some a := by
  rw [level, List.mem_filter, Bool.and_eq_true, List.all_eq_true, nearest,
    List.find?_eq_some_iff_append]
  constructor
  · rintro ⟨hbelow, hb, hbetween⟩
    obtain ⟨above, hup, hdeep⟩ := t.ancestors_of_mem_preorder hbelow
    have hcut : t.between a b = above :=
      t.between_of_ancestors hup fun hmem => Nat.lt_irrefl _ (hdeep a hmem)
    rw [hcut] at hbetween
    exact ⟨hb, ha, above, t.ancestors a, hup, hbetween⟩
  · rintro ⟨hb, -, above, rest, hup, hfree⟩
    have hcut : t.between a b = above := by
      refine t.between_of_ancestors hup fun hmem => ?_
      have hself := hfree a hmem
      rw [ha] at hself
      cases hself
    refine ⟨t.mem_preorder_iff.mpr ?_, hb, hcut ▸ hfree⟩
    rw [hup]
    exact List.mem_append_right above List.mem_cons_self

/-- A marked node above is the nearest, or above the nearest. -/
theorem nearest_below {a r b : α} (hr : marked r = true) (hup : r ∈ t.ancestors b)
    (ha : t.nearest marked b = some a) : r = a ∨ r ∈ t.ancestors a := by
  obtain ⟨-, above, rest, hcut, hfree⟩ := List.find?_eq_some_iff_append.mp ha
  have hbelow : b ∈ t.preorder a := by
    rw [t.mem_preorder_iff, hcut]
    exact List.mem_append_right above List.mem_cons_self
  obtain ⟨above', hup', hdeep⟩ := t.ancestors_of_mem_preorder hbelow
  have hbetween : above' = above := by
    rw [← t.between_of_ancestors hup' fun hmem => Nat.lt_irrefl _ (hdeep a hmem)]
    refine t.between_of_ancestors hcut fun hmem => ?_
    have hself := hfree a hmem
    rw [List.find?_some ha] at hself
    cases hself
  rw [hup', hbetween, List.mem_append, List.mem_cons] at hup
  rcases hup with hmem | hmem
  · have hself := hfree r hmem
    rw [hr] at hself
    cases hself
  · exact hmem

end Marked

end LinkedTree

end Firmware
