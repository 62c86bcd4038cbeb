import Mathlib.Data.List.Flatten
import MinimalWatch.App.WeatherDates
import MinimalWatch.Ble.WholeMessages
import MinimalWatch.Lib.BigEndian
import MinimalWatch.Ui.Routing

/-! The dated query on its way from the app to the phone: `request_ble_resource` of
common_utils.c packs the date, `request_ble_action` gives it the id of the app on the
screen, and the drain sends it. The pages and apps change, the callbacks of the stack run
and notifies fail in between. The phone reads the dates that the app asked for. -/

namespace MinimalWatch.App
open Firmware Firmware.BigEndian
open Ble (WireMsg BleMsg BleReq Drain DrainAction Dispatch Divides bleOpDatedWeatherQuery)
open Ui (Fault UiAction lvglStep)

inductive AppBleReq
  | datedWeatherRequest
  | other (code : UInt32)
  deriving DecidableEq, Repr

/-- The day, the month, and the two bytes of the year. -/
def Date.payload (d : Date) : List UInt8 :=
  [d.day, d.month, (d.year >>> 8).toUInt8, d.year.toUInt8]

theorem Date.payload_lt (d : Date) : d.payload.length < 256 := by
  change 4 < 256
  decide

def Date.request (d : Date) : BleReq := ⟨.datedWeatherQuery, 4, d.payload, rfl⟩

def requestBleResource (w : Ui.Watch) (req : AppBleReq) (data : Date) :
    Except Fault Ui.Watch :=
  match req with
  | .datedWeatherRequest => (w.requestBleAction (some data.request)).map Prod.fst
  | .other _ => .ok w

/-! ### What the phone reads -/

structure Query where
  reqApp : UInt8
  date : Date
  deriving DecidableEq, Repr

namespace Query

def wire (q : Query) : WireMsg :=
  ⟨bleOpDatedWeatherQuery, q.reqApp, q.date.payload, q.date.payload_lt⟩

def read (w : WireMsg) : Option Query :=
  match w.payload with
  | [day, month, hi, lo] =>
    if w.opcode = bleOpDatedWeatherQuery then some ⟨w.reqApp, day, month, word16 hi lo⟩ else none
  | _ => none

theorem word16_bytes (n : UInt16) : word16 (n >>> 8).toUInt8 n.toUInt8 = n := by
  have hn := n.toNat_lt
  have hhi : (n >>> 8).toUInt8.toNat = n.toNat / 256 := by
    rw [UInt16.toNat_toUInt8, UInt16.toNat_shiftRight]
    change n.toNat >>> 8 % 256 = _
    rw [Nat.shiftRight_eq_div_pow]
    omega
  have hlo : n.toUInt8.toNat = n.toNat % 256 := UInt16.toNat_toUInt8 n
  apply UInt16.toNat_inj.mp
  rw [word16_toNat, value, List.foldl, List.foldl, List.foldl, hhi, hlo]
  omega

@[simp] theorem read_wire (q : Query) : read q.wire = some q := by
  simp only [read, wire, Date.payload, if_true, word16_bytes]

end Query

/-! ### The app and the link -/

structure Asking where
  ui : Ui.Watch
  link : Drain

inductive AskingAction
  | ui (action : UiAction)
  | ask (req : AppBleReq) (date : Date)
  | link (action : DrainAction)
  deriving DecidableEq, Repr

/-- The FIFO is the one of the drain. -/
def Asking.watch (s : Asking) : Ui.Watch := { s.ui with fifos := s.link.fifos }

/-- Messages come from the requests of the app only. -/
def askingStep (s : Asking) : AskingAction → Option Asking
  | .ui action => (lvglStep s.ui action).map fun ui => { s with ui }
  | .ask req date =>
    (requestBleResource s.watch req date).toOption.map fun ui =>
      ⟨ui, { s.link with fifos := ui.fifos }⟩
  | .link action =>
    if action.added = [] then
      (Ble.drainStep s.link action).map fun link => { s with link }
    else none

/-- The query that an action puts on the FIFO. -/
def Asking.query (s : Asking) : AskingAction → Option Query
  | .ask .datedWeatherRequest date =>
    match s.ui.generateCurrAppId with
    | .ok id => if id = 0 then none else some ⟨id, date⟩
    | .error _ => none
  | _ => none

/-- The step of the drain within an action. -/
def Asking.drain (s : Asking) (action : AskingAction) : Option DrainAction :=
  match action with
  | .link action => some action
  | action => (s.query action).map fun q => .addMsg q.wire.msg

structure AskingLog where
  asked : List Query
  dispatch : Dispatch

def AskingLog.next (s : Asking) (action : AskingAction) (s' : Asking) (l : AskingLog) :
    AskingLog where
  asked := l.asked ++ (s.query action).toList
  dispatch := (s.drain action).elim l.dispatch fun a => Dispatch.next s.link a s'.link l.dispatch

abbrev askingLogStep : Asking × AskingLog → AskingAction → Option (Asking × AskingLog) :=
  Machine.recording askingStep AskingLog.next

def askingInit (allWfs : List Ui.Watchface) : Asking × AskingLog :=
  (⟨.boot allWfs, .init⟩, ⟨[], .init⟩)

/-- The phone reads some of the queries, unchanged and in their order, and all of them once
nothing is on its way, evicted, or lost with a packet. -/
structure PhoneReads (s : Asking × AskingLog) : Prop where
  read : ∀ rx, ∃ queries : List Query,
    (Ble.rxRun (Ble.rxResetContext rx) s.2.dispatch.heard).2.map (fun m => Query.read m.wire) =
      queries.map some ∧ queries.Sublist s.2.asked ∧
    (s.1.link.fifos.held .tx = [] → s.1.link.ctx.current = none → s.2.dispatch.inHand = [] →
      (∀ p ∈ s.2.dispatch.left, p.2 = true) → (∀ p ∈ s.2.dispatch.packets, p.2 = true) →
      queries = s.2.asked)

/-- A link whose packets hold whole queries. -/
def AskingAction.LinkFits : AskingAction → Prop
  | .link (.mtuUpdated _ gattMtu) => Divides 4 (gattMtu - 3)
  | _ => True

/-! ### The drain within -/

theorem requestBleResource_queued {w : Ui.Watch} {date : Date} {id : UInt8}
    (hid : w.generateCurrAppId = .ok id) (hne : id ≠ 0) :
    requestBleResource w .datedWeatherRequest date = .ok { w with
      fifos := (Ble.addBleMsgToQueue w.fifos (some (Query.wire ⟨id, date⟩).msg) .tx).1 } := by
  have hsubmit : Ble.submitBleRequest w.fifos (some date.request) id =
      Ble.addBleMsgToQueue w.fifos (some (Query.wire ⟨id, date⟩).msg) .tx := rfl
  simp only [requestBleResource, Ui.Watch.requestBleAction, hid, if_neg hne, hsubmit, Except.map]

theorem watch_generateCurrAppId (s : Asking) :
    s.watch.generateCurrAppId = s.ui.generateCurrAppId := rfl

/-- An action makes the step of the drain that it contains, or leaves the drain alone. -/
theorem askingStep_drain {s s' : Asking} {action : AskingAction}
    (h : askingStep s action = some s') :
    (s.drain action = none ∧ s'.link = s.link) ∨
      ∃ a, s.drain action = some a ∧ Ble.drainStep s.link a = some s'.link := by
  cases action with
  | ui action =>
    obtain ⟨ui, -, rfl⟩ := Option.map_eq_some_iff.mp h
    exact Or.inl ⟨rfl, rfl⟩
  | link action =>
    obtain ⟨-, h⟩ := Option.ite_none_right_eq_some.mp h
    obtain ⟨link, hlink, rfl⟩ := Option.map_eq_some_iff.mp h
    exact Or.inr ⟨action, rfl, hlink⟩
  | ask req date =>
    cases req with
    | other code =>
      obtain rfl := Option.some.inj h
      exact Or.inl ⟨rfl, rfl⟩
    | datedWeatherRequest =>
      cases hid : s.ui.generateCurrAppId with
      | error fault =>
        have hnone : requestBleResource s.watch .datedWeatherRequest date = .error fault := by
          rw [requestBleResource, Ui.Watch.requestBleAction, watch_generateCurrAppId, hid]
          rfl
        rw [askingStep, hnone] at h
        cases h
      | ok id =>
        by_cases hzero : id = 0
        · have hrefused : requestBleResource s.watch .datedWeatherRequest date =
              .ok s.watch := by
            rw [requestBleResource, Ui.Watch.requestBleAction, watch_generateCurrAppId, hid]
            simp only [if_pos hzero]
            rfl
          rw [askingStep, hrefused] at h
          obtain rfl := Option.some.inj h
          refine Or.inl ⟨?_, rfl⟩
          simp [Asking.drain, Asking.query, hid, hzero]
        · have hqueued := @requestBleResource_queued s.watch date id
            (by rw [watch_generateCurrAppId, hid]) hzero
          rw [askingStep, hqueued] at h
          obtain rfl := Option.some.inj h
          refine Or.inr ⟨.addMsg (Query.wire ⟨id, date⟩).msg, ?_, rfl⟩
          simp [Asking.drain, Asking.query, hid, hzero]

/-! ### Runs -/

structure AskingInv (s : Asking × AskingLog) : Prop where
  whole : Ble.WholeInv 4 (s.1.link, s.2.dispatch)
  asked : s.2.dispatch.accepted = s.2.asked.map Query.wire

theorem asking_uniform {s s' : Asking} {action : AskingAction} {a : DrainAction}
    (hfits : action.LinkFits) (hstep : askingStep s action = some s')
    (ha : s.drain action = some a) : a.Uniform 4 := by
  cases action with
  | link action =>
    obtain rfl := Option.some.inj ha
    obtain ⟨hadded, -⟩ := Option.ite_none_right_eq_some.mp hstep
    cases action with
    | mtuUpdated conn gattMtu => exact hfits
    | addMsg msg => cases hadded
    | _ => trivial
  | ui action => cases ha
  | ask req date =>
    obtain ⟨q, -, rfl⟩ := Option.map_eq_some_iff.mp ha
    rfl

/-- What the drain accepts in an action is the query in it. -/
theorem drain_added {s s' : Asking} {action : AskingAction}
    (hstep : askingStep s action = some s') :
    (s.drain action).elim [] DrainAction.added = (s.query action).toList.map Query.wire := by
  cases action with
  | link action => exact (Option.ite_none_right_eq_some.mp hstep).1
  | ui action => rfl
  | ask req date =>
    simp only [Asking.drain]
    cases s.query (.ask req date) with
    | none => rfl
    | some q => simp [DrainAction.added]

theorem askingInv_step {s s' : Asking × AskingLog} {action : AskingAction} (h : AskingInv s)
    (hfits : action.LinkFits) (hstep : askingLogStep s action = some s') : AskingInv s' := by
  obtain ⟨t, ht, rfl⟩ := Machine.recording_some _ _ hstep
  have hadded := drain_added ht
  rcases askingStep_drain ht with ⟨hnone, hlink⟩ | ⟨a, ha, hlink⟩
  · rw [hnone, Option.elim_none] at hadded
    refine ⟨?_, ?_⟩
    · simp only [AskingLog.next, hnone, hlink, Option.elim_none]
      exact h.whole
    · simp only [AskingLog.next, hnone, Option.elim_none, List.map_append, ← hadded,
        List.append_nil]
      exact h.asked
  · rw [ha, Option.elim_some] at hadded
    refine ⟨?_, ?_⟩
    · have hdispatch : Ble.dispatchStep (s.1.link, s.2.dispatch) a =
          some (t.link, Dispatch.next s.1.link a t.link s.2.dispatch) := by
        simp only [Machine.recording, hlink, Option.map_some]
      simp only [AskingLog.next, ha, Option.elim_some]
      exact Ble.wholeInv_step h.whole (asking_uniform hfits ht ha) hdispatch
    · simp only [AskingLog.next, ha, Option.elim_some, Dispatch.next_accepted, hadded, h.asked,
        List.map_append]

/-- What the phone reads is among what was taken, and that among what was accepted. -/
theorem delivered_sublist {s : Drain × Dispatch} (h : Ble.DeliversWhole s) :
    s.2.delivered.Sublist s.2.accepted := by
  have hpackets : s.2.delivered.Sublist (s.2.packets.flatMap Prod.fst) :=
    List.filter_sublist.flatMap Prod.fst
  have htaken : s.2.taken.Sublist (s.2.left.map Prod.fst) := List.filter_sublist.map Prod.fst
  rw [h.taken] at htaken
  rw [h.accepted]
  refine (hpackets.trans ?_).trans (htaken.trans (List.sublist_append_left _ _))
  rw [List.append_assoc]
  exact List.sublist_append_left _ _

/-- With nothing held, evicted or lost the phone has read everything. -/
theorem delivered_all {s : Drain × Dispatch} (h : Ble.DeliversWhole s)
    (hheld : s.1.fifos.held .tx = []) (hcur : s.1.ctx.current = none) (hhand : s.2.inHand = [])
    (hleft : ∀ p ∈ s.2.left, p.2 = true) (hpackets : ∀ p ∈ s.2.packets, p.2 = true) :
    s.2.delivered = s.2.accepted := by
  have htaken := h.taken
  have hall : s.2.packets.filter Prod.snd = s.2.packets := List.filter_eq_self.mpr hpackets
  rw [Dispatch.taken, List.filter_eq_self.mpr hleft, hcur, hhand] at htaken
  rw [Dispatch.delivered, hall, h.accepted, hheld, htaken]
  simp [Ble.TxCurrent.msgs]

theorem AskingInv.phoneReads {s : Asking × AskingLog} (h : AskingInv s) : PhoneReads s := by
  have hwhole := h.whole.deliversWhole
  have hsub := delivered_sublist hwhole
  rw [h.asked] at hsub
  obtain ⟨queries, hqueries, hdelivered⟩ := List.sublist_map_iff.mp hsub
  refine ⟨fun rx => ⟨queries, ?_, hqueries, fun hheld hcur hhand hleft hpackets => ?_⟩⟩
  · have hread := hwhole.read rx
    rw [hdelivered] at hread
    have hcompose : (fun m : BleMsg => Query.read m.wire) = Query.read ∘ BleMsg.wire := rfl
    rw [hcompose, ← List.map_map, hread, List.map_map]
    exact List.map_congr_left fun q _ => q.read_wire
  · have hall := delivered_all hwhole hheld hcur hhand hleft hpackets
    rw [hdelivered, h.asked] at hall
    have hlen := congrArg List.length hall
    rw [List.length_map, List.length_map] at hlen
    exact hqueries.eq_of_length hlen

/-- Whatever pages and apps come and go, and whatever the link does: on a link whose packets
hold whole queries the phone reads nothing but queries that the app asked, each with the
date and the id it was asked with, in their order. -/
theorem phone_reads_queries (allWfs : List Ui.Watchface) (actions : List AskingAction)
    (hfits : ∀ a ∈ actions, a.LinkFits) :
    Machine.Always askingLogStep PhoneReads (askingInit allWfs) actions := by
  have hinit : AskingInv (askingInit allWfs) := ⟨Ble.wholeInv_init 4, rfl⟩
  have hinv : Machine.Always askingLogStep AskingInv (askingInit allWfs) actions :=
    Machine.always_of_eachStep hinit (fun _ _ _ h ha hstep => askingInv_step h ha hstep)
      (Machine.eachStep_of_forall hfits)
  exact hinv.mono fun _ => AskingInv.phoneReads

/-- The weather app asks for two days; the packet with the first query is refused. -/
theorem phone_reads_queries_second :
    let app : Ui.Application := ⟨0, some 1⟩
    let actions : List AskingAction := [.ui .initUi, .ui .handleRightActionOnRoot,
      .ui (.openApp .enter app), .link (.connected 0 0), .link (.cccCfgChanged 1),
      .link (.mtuUpdated 0 23), .ask .datedWeatherRequest ⟨7, 8, 2026⟩, .link .populate,
      .link .pass, .link .pass, .link .testLink, .link (.notify (-12)), .link .pass,
      .ask .datedWeatherRequest ⟨8, 8, 2026⟩, .link .populate, .link .pass, .link .pass,
      .link .testLink, .link (.notify 0), .link .pass]
    ∃ s, Machine.run askingLogStep (askingInit [⟨0⟩, ⟨1⟩]) actions = some s ∧
      s.2.asked = [⟨11, 7, 8, 2026⟩, ⟨11, 8, 8, 2026⟩] ∧
      (Ble.rxRun .init s.2.dispatch.heard).2.map (fun m => Query.read m.wire) =
        [some ⟨11, 8, 8, 2026⟩] ∧ PhoneReads s := by
  intro app actions
  have hrun : ∃ s ∈ Machine.run askingLogStep (askingInit [⟨0⟩, ⟨1⟩]) actions,
      s.2.asked = [⟨11, 7, 8, 2026⟩, ⟨11, 8, 8, 2026⟩] ∧
        (Ble.rxRun .init s.2.dispatch.heard).2.map (fun m => Query.read m.wire) =
          [some ⟨11, 8, 8, 2026⟩] := by
    decide +kernel
  obtain ⟨s, hs, hasked, hread⟩ := hrun
  have hfits : ∀ a ∈ actions, a.LinkFits := by
    simp only [actions, List.forall_mem_cons, AskingAction.LinkFits, true_and]
    exact ⟨by decide, fun _ h => absurd h List.not_mem_nil⟩
  exact ⟨s, hs, hasked, hread,
    phone_reads_queries _ actions hfits actions [] s (List.append_nil _).symm hs⟩

end MinimalWatch.App
