import Mathlib.Tactic.Common
import MinimalWatch.Lib.IdTable
import MinimalWatch.Lib.Machine
import MinimalWatch.Ui.Routing

/-! The registration of watchfaces and applications at boot, from wf_picker.c and
app_manager.c. Both number their objects by the slots of a table, and requests carry one
byte that tells all of them apart; one table is guarded and the other is not. -/

namespace MinimalWatch.Ui
open Firmware

def maxApps : Nat := 15

/-- The two tables; `num_wfs` counts from -1 and stays in its table. -/
structure Registry where
  allWfs : IdTable Watchface maxWatchfaces
  numWfs : Int
  allApps : IdTable Application maxApps
  numApps : UInt8
  guarded : -1 ≤ numWfs ∧ numWfs < maxWatchfaces

namespace Registry

/-- Before the first registration; `wfs` and `apps` are the objects in memory. -/
def boot (wfs : Nat → Watchface) (apps : Nat → Application) : Registry where
  allWfs := ⟨Vector.replicate maxWatchfaces none, wfs⟩
  numWfs := -1
  allApps := ⟨Vector.replicate maxApps none, apps⟩
  numApps := 0
  guarded := by decide

/-- The object at address `wf`; the assertion in the full table only ends the call. -/
def addWf (r : Registry) (wf : Nat) : Registry :=
  if h : r.numWfs = maxWatchfaces - 1 then r
  else
    { r with
      numWfs := r.numWfs + 1
      allWfs := r.allWfs.put (r.numWfs + 1).toNat wf fun w =>
        { w with wfId := UInt8.ofInt (r.numWfs + 1) }
      guarded := by
        have hguard := r.guarded
        omega }

def addApp (r : Registry) (app : Nat) : Registry :=
  { r with
    allApps := r.allApps.put r.numApps.toNat app fun a => { a with appId := r.numApps }
    numApps := r.numApps + 1 }

inductive RegisterCall
  | addWf (wf : Nat)
  | addApp (app : Nat)
  deriving DecidableEq, Repr

def step (r : Registry) : RegisterCall → Option Registry
  | .addWf wf => some (r.addWf wf)
  | .addApp app => some (r.addApp app)

/-- The slot that a call writes, and the size of its table. -/
def tableWrite (r : Registry) : RegisterCall → Option (Int × Nat)
  | .addWf _ =>
    if r.numWfs = maxWatchfaces - 1 then none else some (r.numWfs + 1, maxWatchfaces)
  | .addApp _ => some (r.numApps.toNat, maxApps)

def WritesInside (r : Registry) (call : RegisterCall) : Prop :=
  ∀ slot size, r.tableWrite call = some (slot, size) → 0 ≤ slot ∧ slot < size

/-! ### The ids in requests -/

def wfs (r : Registry) : List Watchface := r.allWfs.registered (r.numWfs + 1).toNat

def apps (r : Registry) : List Application := r.allApps.registered r.numApps.toNat

/-- The sums of `generate_curr_app_id` before they are made a byte. -/
def requestSums (r : Registry) : List Nat :=
  r.wfs.map (·.wfId.toNat + 1) ++ r.apps.map (maxWatchfaces + 1 + ·.appId.toNat)

def requestIds (r : Registry) : List UInt8 :=
  r.wfs.map Watchface.requestId ++ r.apps.map Application.requestId

structure IdsUnique (r : Registry) : Prop where
  inByte : ∀ sum ∈ r.requestSums, sum < 256
  nonzero : ∀ id ∈ r.requestIds, id ≠ 0
  distinct : r.requestIds.Nodup

/-- No call writes outside its table, and in the end the ids are good. -/
structure Intact (r : Registry) (calls : List RegisterCall) : Prop where
  writes : Machine.EachStep step WritesInside r calls
  ids : ∀ t, Machine.run step r calls = some t → t.IdsUnique

def appCalls (calls : List RegisterCall) : List Nat :=
  calls.filterMap fun
    | .addApp app => some app
    | .addWf _ => none

/-! ### Writes -/

theorem writesInside_addWf (r : Registry) (wf : Nat) : WritesInside r (.addWf wf) := by
  have hguard := r.guarded
  intro slot size hwrite
  rw [tableWrite] at hwrite
  split_ifs at hwrite with hfull
  obtain ⟨rfl, rfl⟩ := Prod.mk.inj (Option.some.inj hwrite)
  omega

theorem writesInside_addApp (r : Registry) (app : Nat) :
    WritesInside r (.addApp app) ↔ r.numApps.toNat < maxApps := by
  constructor
  · intro h
    have hinside := (h r.numApps.toNat maxApps rfl).2
    omega
  · intro h slot size hwrite
    obtain ⟨rfl, rfl⟩ := Prod.mk.inj (Option.some.inj hwrite)
    omega

@[simp] theorem addWf_numApps (r : Registry) (wf : Nat) : (r.addWf wf).numApps = r.numApps := by
  rw [addWf]
  split_ifs <;> rfl

theorem addApp_numApps {r : Registry} (app : Nat) (h : r.numApps.toNat < maxApps) :
    (r.addApp app).numApps.toNat = r.numApps.toNat + 1 := by
  have hmax : maxApps = 15 := rfl
  rw [addApp, UInt8.toNat_add, UInt8.toNat_one]
  omega

/-- From a table of applications that is in order, the writes stay inside exactly when there
is a slot for every call of `add_app`. -/
theorem writes_iff (calls : List RegisterCall) {r : Registry} (h : r.numApps.toNat ≤ maxApps) :
    Machine.EachStep step WritesInside r calls ↔
      r.numApps.toNat + (appCalls calls).length ≤ maxApps := by
  induction calls generalizing r with
  | nil => exact ⟨fun _ => h, fun _ => Machine.eachStep_nil⟩
  | cons call calls ih =>
    rw [Machine.eachStep_cons_iff]
    cases call with
    | addWf wf =>
      have hrest := ih (r := r.addWf wf) (by rwa [addWf_numApps])
      rw [addWf_numApps] at hrest
      simp only [step, Option.some.injEq, forall_eq', hrest, writesInside_addWf, true_and]
      rfl
    | addApp app =>
      simp only [step, Option.some.injEq, forall_eq', writesInside_addApp]
      have hcount : (appCalls (.addApp app :: calls)).length = (appCalls calls).length + 1 := rfl
      rw [hcount]
      constructor
      · rintro ⟨hroom, hrest⟩
        have hnext := addApp_numApps app hroom
        rw [ih (by omega)] at hrest
        omega
      · intro hall
        have hroom : r.numApps.toNat < maxApps := by omega
        have hnext := addApp_numApps app hroom
        refine ⟨hroom, (ih (by omega)).mpr ?_⟩
        omega

/-! ### Ids -/

/-- The watchfaces and the applications at these addresses are registered, in this order. -/
structure Holds (r : Registry) (wfs apps : List Nat) : Prop where
  numWfs : r.numWfs = wfs.length - 1
  wfsNumbered : r.allWfs.Numbered (·.wfId.toNat) wfs
  numApps : r.numApps.toNat = apps.length
  appsNumbered : r.allApps.Numbered (·.appId.toNat) apps

theorem holds_boot (wfs : Nat → Watchface) (apps : Nat → Application) :
    (boot wfs apps).Holds [] [] :=
  ⟨rfl, IdTable.numbered_nil _ _, rfl, IdTable.numbered_nil _ _⟩

theorem Holds.addWf {r : Registry} {wfs apps : List Nat} {wf : Nat} (h : r.Holds wfs apps)
    (hnew : wf ∉ wfs) :
    ∃ wfs', (r.addWf wf).Holds wfs' apps ∧ ∀ a ∈ wfs', a ∈ wfs ∨ a = wf := by
  have hguard := r.guarded
  have hnum := h.numWfs
  have hmax : maxWatchfaces = 10 := rfl
  by_cases hfull : r.numWfs = maxWatchfaces - 1
  · refine ⟨wfs, ?_, fun a ha => Or.inl ha⟩
    rw [Registry.addWf, dif_pos hfull]
    exact h
  · have hslot : (r.numWfs + 1).toNat = wfs.length := by omega
    have hid : (UInt8.ofInt (r.numWfs + 1)).toNat = wfs.length := by
      rw [UInt8.ofInt, UInt8.toNat_ofNat']
      omega
    rw [Registry.addWf, dif_neg hfull]
    refine ⟨wfs ++ [wf], ⟨?_, ?_, h.numApps, h.appsNumbered⟩, ?_⟩
    · rw [List.length_append, List.length_singleton]
      simp only [hnum]
      omega
    · simp only [hslot]
      exact h.wfsNumbered.put hnew (by omega) hid
    · intro a ha
      rcases List.mem_append.mp ha with ha | ha
      · exact Or.inl ha
      · exact Or.inr (List.mem_singleton.mp ha)

theorem Holds.addApp {r : Registry} {wfs apps : List Nat} {app : Nat} (h : r.Holds wfs apps)
    (hnew : app ∉ apps) (hroom : apps.length < maxApps) :
    (r.addApp app).Holds wfs (apps ++ [app]) := by
  have hnum := h.numApps
  refine ⟨h.numWfs, h.wfsNumbered, ?_, ?_⟩
  · rw [addApp_numApps app (by omega), hnum, List.length_append, List.length_singleton]
  · rw [Registry.addApp]
    simp only [hnum]
    exact h.appsNumbered.put hnew hroom hnum

/-- With different objects and a slot for every application, all are registered in order. -/
theorem Holds.run {calls : List RegisterCall} {r t : Registry} {wfs apps : List Nat}
    (h : r.Holds wfs apps) (hdistinct : calls.Nodup)
    (hwfs : ∀ a ∈ wfs, RegisterCall.addWf a ∉ calls)
    (happs : ∀ a ∈ apps, RegisterCall.addApp a ∉ calls)
    (hroom : apps.length + (appCalls calls).length ≤ maxApps)
    (hrun : Machine.run step r calls = some t) :
    ∃ wfs' apps', t.Holds wfs' apps' ∧ apps'.length ≤ maxApps := by
  induction calls generalizing r wfs apps with
  | nil =>
    cases hrun
    exact ⟨wfs, apps, h, hroom⟩
  | cons call calls ih =>
    obtain ⟨r', hstep, hrun⟩ := (Machine.run_cons_eq_some step).mp hrun
    obtain ⟨hfirst, hrest⟩ := List.nodup_cons.mp hdistinct
    cases call with
    | addWf wf =>
      cases hstep
      have hnew : wf ∉ wfs := fun hmem => hwfs wf hmem List.mem_cons_self
      obtain ⟨wfs', hholds, hmem⟩ := h.addWf hnew
      refine ih hholds hrest (fun a ha hcall => ?_)
        (fun a ha hcall => happs a ha (List.mem_cons_of_mem _ hcall)) hroom hrun
      rcases hmem a ha with hold | rfl
      · exact hwfs a hold (List.mem_cons_of_mem _ hcall)
      · exact hfirst hcall
    | addApp app =>
      cases hstep
      have hcount : (appCalls (.addApp app :: calls)).length = (appCalls calls).length + 1 := rfl
      have hnew : app ∉ apps := fun hmem => happs app hmem List.mem_cons_self
      refine ih (h.addApp hnew (by omega)) hrest
        (fun a ha hcall => hwfs a ha (List.mem_cons_of_mem _ hcall)) (fun a ha hcall => ?_) ?_ hrun
      · rcases List.mem_append.mp ha with hold | hlast
        · exact happs a hold (List.mem_cons_of_mem _ hcall)
        · rw [List.mem_singleton.mp hlast] at hcall
          exact hfirst hcall
      · rw [List.length_append, List.length_singleton]
        omega

theorem Holds.requestSums {r : Registry} {wfs apps : List Nat} (h : r.Holds wfs apps) :
    r.requestSums = List.range' 1 wfs.length ++ List.range' 11 apps.length := by
  have hnum := h.numWfs
  have hcount : (r.numWfs + 1).toNat = wfs.length := by omega
  have hwfs := h.wfsNumbered.registered
  have happs := h.appsNumbered.registered
  have hwfSums : r.wfs.map (·.wfId.toNat + 1) = List.range' 1 wfs.length := by
    rw [List.range'_eq_map_range, ← hwfs, List.map_map, Registry.wfs, hcount]
    exact List.map_congr_left fun w _ => Nat.add_comm _ _
  have happSums : r.apps.map (maxWatchfaces + 1 + ·.appId.toNat) = List.range' 11 apps.length := by
    rw [List.range'_eq_map_range, ← happs, List.map_map, Registry.apps, h.numApps]
    rfl
  rw [Registry.requestSums, hwfSums, happSums]

theorem requestIds_eq (r : Registry) : r.requestIds = r.requestSums.map UInt8.ofNat := by
  rw [requestIds, requestSums, List.map_append, List.map_map, List.map_map]
  rfl

theorem Holds.idsUnique {r : Registry} {wfs apps : List Nat} (h : r.Holds wfs apps)
    (hroom : apps.length ≤ maxApps) : r.IdsUnique := by
  have hguard := r.guarded
  have hnum := h.numWfs
  have hwatchfaces : maxWatchfaces = 10 := rfl
  have hmax : maxApps = 15 := rfl
  have hsums := h.requestSums
  have hrange : ∀ sum ∈ r.requestSums, 0 < sum ∧ sum < 256 := by
    intro sum hsum
    rw [hsums] at hsum
    rcases List.mem_append.mp hsum with hsum | hsum <;>
      rw [List.mem_range'_1] at hsum <;> omega
  have hback : r.requestIds.map UInt8.toNat = r.requestSums := by
    rw [requestIds_eq, List.map_map]
    refine (List.map_congr_left fun sum hsum => ?_).trans (List.map_id _)
    exact UInt8.toNat_ofNat_of_lt' (hrange sum hsum).2
  refine ⟨fun sum hsum => (hrange sum hsum).2, fun id hid hzero => ?_, ?_⟩
  · have hsum := List.mem_map_of_mem (f := UInt8.toNat) hid
    rw [hback, hzero] at hsum
    exact absurd (hrange _ hsum).1 (by decide)
  · have hsame : ∀ a b : UInt8, a.toNat ≠ b.toNat → a ≠ b := fun a b hne heq => hne (by rw [heq])
    apply List.Pairwise.of_map UInt8.toNat hsame
    rw [hback, hsums]
    refine List.nodup_append.mpr ⟨List.nodup_range', List.nodup_range', fun sum hwf app happ heq => ?_⟩
    rw [List.mem_range'_1] at hwf happ
    omega

/-- For calls with different objects, in any number and order, the tables and ids are good
exactly when there are at most fifteen calls of `add_app`. -/
theorem intact_iff {calls : List RegisterCall} (hdistinct : calls.Nodup)
    (wfs : Nat → Watchface) (apps : Nat → Application) :
    (boot wfs apps).Intact calls ↔ (appCalls calls).length ≤ maxApps := by
  have hwrites := @writes_iff calls (boot wfs apps) (Nat.zero_le _)
  have hzero : (boot wfs apps).numApps.toNat = 0 := rfl
  rw [hzero, Nat.zero_add] at hwrites
  constructor
  · intro h
    exact hwrites.mp h.writes
  · intro hroom
    refine ⟨hwrites.mpr hroom, fun t hrun => ?_⟩
    obtain ⟨wfs', apps', hholds, hlen⟩ := (holds_boot wfs apps).run hdistinct
      (fun _ ha => nomatch ha) (fun _ ha => nomatch ha) (by simpa using hroom) hrun
    exact hholds.idsUnique hlen

/-- Twelve watchfaces, of which two are refused, and fifteen applications. -/
theorem intact_full :
    (boot (fun _ => ⟨0⟩) (fun _ => ⟨0, none⟩)).Intact
      ((List.range 12).map .addWf ++ (List.range 15).map .addApp) :=
  (intact_iff (by decide) _ _).mpr (by decide)

/-- The sixteenth application is written behind the table. -/
theorem intact_not_sixteen :
    ¬ ∀ calls : List RegisterCall, calls.Nodup →
      (boot (fun _ => ⟨0⟩) (fun _ => ⟨0, none⟩)).Intact calls := by
  intro h
  have hintact := h ((List.range 16).map .addApp) (by decide)
  have hwrite := hintact.writes ((List.range 15).map .addApp) (.addApp 15) [] _ _ rfl rfl rfl
  exact absurd (hwrite 15 15 rfl).2 (by decide)

end Registry

end MinimalWatch.Ui
