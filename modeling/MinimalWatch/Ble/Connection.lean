import MinimalWatch.Ble.PacketRx

/-! The connection callbacks of ble_manager.c. `BleManager` is the static state; the
calls it makes on the stack's connection objects are logged, the counted reference
among them. `Link` is the stack's side: which connections are alive, which one the
watch accepted, and what the accepted one is owed. -/

namespace MinimalWatch.Ble
open Firmware

/-- A connection object of the stack. -/
abbrev BtConn := Nat

inductive StackCall
  | connRef (conn : BtConn)
  | connUnref (conn : BtConn)
  | connDisconnect (conn : BtConn)
  | leParamUpdate (conn : BtConn)
  deriving DecidableEq, Repr

structure BleManager where
  bleConn : Option BtConn
  bleConnected : Bool
  notificationsEnabled : Bool
  effectiveMtu : Nat
  rxCtx : RxCtx
  calls : List StackCall
  deriving DecidableEq, Repr

namespace BleManager

def init : BleManager := ⟨none, false, false, 0, RxCtx.init, []⟩

def connected (m : BleManager) (conn : BtConn) (err : UInt8) : BleManager :=
  if err ≠ 0 then m
  else
    match m.bleConn with
    | some _ => { m with calls := m.calls ++ [.connDisconnect conn] }
    | none =>
      { m with
        bleConnected := true
        bleConn := some conn
        rxCtx := rxResetContext m.rxCtx
        calls := m.calls ++ [.connRef conn, .leParamUpdate conn] }

/-- The connection that ended is not compared with `ble_conn`. -/
def disconnected (m : BleManager) (_conn : BtConn) (_reason : UInt8) : BleManager :=
  { m with
    bleConnected := false
    notificationsEnabled := false
    bleConn := none
    rxCtx := rxResetContext m.rxCtx
    calls := m.calls ++ (m.bleConn.elim [] fun c => [.connUnref c]) }

def btGattCccNotify : Nat := 1

def mwCccCfgChanged (m : BleManager) (value : Nat) : BleManager :=
  { m with notificationsEnabled := decide (value = btGattCccNotify) }

/-- `gattMtu` is what `bt_gatt_get_mtu` answers for the connection. -/
def mtuUpdated (m : BleManager) (gattMtu : Nat) : BleManager :=
  { m with effectiveMtu := if gattMtu ≥ 3 then gattMtu - 3 else 0 }

end BleManager

inductive ConnEvent
  | connected (conn : BtConn) (err : UInt8)
  | disconnected (conn : BtConn) (reason : UInt8)
  | cccCfgChanged (value : Nat)
  | mtuUpdated (gattMtu : Nat)
  deriving DecidableEq, Repr

def BleManager.handle (m : BleManager) : ConnEvent → BleManager
  | .connected conn err => m.connected conn err
  | .disconnected conn reason => m.disconnected conn reason
  | .cccCfgChanged value => m.mwCccCfgChanged value
  | .mtuUpdated gattMtu => m.mtuUpdated gattMtu

/-- What the callbacks mean: `refs` are the reference calls owed so far. -/
structure Link where
  alive : List BtConn
  accepted : Option BtConn
  subscribed : Bool
  refs : List StackCall

def Link.init : Link := ⟨[], none, false, []⟩

/-- A connection is accepted while none is. The end of the accepted connection, and of
no other, takes back what it was given. -/
def Link.follow (l : Link) : ConnEvent → Link
  | .connected conn err =>
    if err ≠ 0 then l
    else
      match l.accepted with
      | some _ => { l with alive := conn :: l.alive }
      | none => ⟨conn :: l.alive, some conn, l.subscribed, l.refs ++ [.connRef conn]⟩
  | .disconnected conn _ =>
    match l.accepted with
    | none => { l with alive := l.alive.erase conn, subscribed := false }
    | some c =>
      if c = conn then ⟨l.alive.erase conn, none, false, l.refs ++ [.connUnref conn]⟩
      else { l with alive := l.alive.erase conn }
  | .cccCfgChanged value => { l with subscribed := decide (value = BleManager.btGattCccNotify) }
  | .mtuUpdated _ => l

/-- The stack reports the end of a connection once, after its start. -/
def Link.Reports (l : Link) : ConnEvent → Prop
  | .connected conn err => err = 0 → conn ∉ l.alive
  | .disconnected conn _ => conn ∈ l.alive
  | _ => True

instance (l : Link) (event : ConnEvent) : Decidable (l.Reports event) :=
  match event with
  | .connected conn err => inferInstanceAs (Decidable (err = 0 → conn ∉ l.alive))
  | .disconnected conn _ => inferInstanceAs (Decidable (conn ∈ l.alive))
  | .cccCfgChanged _ => inferInstanceAs (Decidable True)
  | .mtuUpdated _ => inferInstanceAs (Decidable True)

structure ConnRun where
  manager : BleManager
  link : Link

def ConnRun.init : ConnRun := ⟨.init, .init⟩

def connStep (s : ConnRun) (event : ConnEvent) : Option ConnRun :=
  if s.link.Reports event then some ⟨s.manager.handle event, s.link.follow event⟩ else none

def StackCall.IsRef : StackCall → Bool
  | .connRef _ => true
  | .connUnref _ => true
  | _ => false

/-- `ble_conn` is the accepted connection, the flags are those of its life, and the
references taken and given back are the ones owed. -/
structure ConnRun.Tracks (s : ConnRun) : Prop where
  conn : s.manager.bleConn = s.link.accepted
  alive : ∀ c, s.link.accepted = some c → c ∈ s.link.alive
  connected : s.manager.bleConnected = s.link.accepted.isSome
  subscribed : s.manager.notificationsEnabled = s.link.subscribed
  refs : s.manager.calls.filter StackCall.IsRef = s.link.refs

/-- Only the connection that `ble_conn` refers to ends while it refers to one. -/
def OwnEnd (s : ConnRun) : ConnEvent → Prop
  | .disconnected conn _ => s.manager.bleConn = none ∨ s.manager.bleConn = some conn
  | _ => True

theorem connStep_some {s s' : ConnRun} {event : ConnEvent} (h : connStep s event = some s') :
    s.link.Reports event ∧ s' = ⟨s.manager.handle event, s.link.follow event⟩ := by
  unfold connStep at h
  split at h
  next hreports => exact ⟨hreports, (Option.some.inj h).symm⟩
  next => cases h

theorem tracks_init : ConnRun.init.Tracks :=
  ⟨rfl, fun _ hc => (Option.some_ne_none _ hc.symm).elim, rfl, rfl, rfl⟩

theorem ConnRun.Tracks.connected_step {s : ConnRun} (h : s.Tracks) (conn : BtConn)
    (err : UInt8) :
    (ConnRun.mk (s.manager.connected conn err) (s.link.follow (.connected conn err))).Tracks := by
  by_cases herr : err ≠ 0
  · rw [BleManager.connected, Link.follow, if_pos herr, if_pos herr]
    exact h
  rw [BleManager.connected, Link.follow, if_neg herr, if_neg herr]
  cases hacc : s.link.accepted with
  | none =>
    have hconn : s.manager.bleConn = none := h.conn.trans hacc
    rw [hconn]
    refine ⟨rfl, fun c hc => ?_, rfl, h.subscribed, ?_⟩
    · exact List.mem_cons.mpr (Or.inl (Option.some.inj hc).symm)
    · simp only [List.filter_append, h.refs]
      rfl
  | some c =>
    have hconn : s.manager.bleConn = some c := h.conn.trans hacc
    rw [hconn]
    have hconnected : s.manager.bleConnected = true := by rw [h.connected, hacc]; rfl
    refine ⟨rfl, fun d hd => ?_, hconnected, h.subscribed, ?_⟩
    · exact List.mem_cons_of_mem _ (h.alive d (hacc.trans hd))
    · simp only [List.filter_append, h.refs]
      exact List.append_nil _

theorem ConnRun.Tracks.disconnected_step {s : ConnRun} (h : s.Tracks) (conn : BtConn) (reason : UInt8)
    (hown : OwnEnd s (.disconnected conn reason)) :
    (ConnRun.mk (s.manager.disconnected conn reason)
      (s.link.follow (.disconnected conn reason))).Tracks := by
  have hnone : ∀ c ∈ (none : Option BtConn), c ∈ s.link.alive.erase conn := by simp
  rw [BleManager.disconnected, Link.follow]
  cases hacc : s.link.accepted with
  | none =>
    have hconn : s.manager.bleConn = none := h.conn.trans hacc
    rw [hconn]
    refine ⟨rfl, hnone, rfl, rfl, ?_⟩
    simp only [List.filter_append, h.refs]
    exact List.append_nil _
  | some c =>
    have hconn : s.manager.bleConn = some c := h.conn.trans hacc
    have hc : c = conn := by simpa [OwnEnd, hconn] using hown
    rw [hconn]
    simp only [if_pos hc]
    refine ⟨rfl, hnone, rfl, rfl, ?_⟩
    simp only [List.filter_append, h.refs, ← hc]
    rfl

theorem tracks_step {s s' : ConnRun} {event : ConnEvent} (h : s.Tracks)
    (hown : OwnEnd s event) (hstep : connStep s event = some s') : s'.Tracks := by
  obtain ⟨-, rfl⟩ := connStep_some hstep
  cases event with
  | connected conn err => exact h.connected_step conn err
  | disconnected conn reason => exact h.disconnected_step conn reason hown
  | cccCfgChanged value => exact ⟨h.conn, h.alive, h.connected, rfl, h.refs⟩
  | mtuUpdated gattMtu => exact ⟨h.conn, h.alive, h.connected, h.subscribed, h.refs⟩

/-- The end of another connection takes the accepted one's state away. -/
theorem not_tracks_otherEnd {s s' : ConnRun} {event : ConnEvent} (h : s.Tracks)
    (hother : ¬ OwnEnd s event) (hstep : connStep s event = some s') : ¬ s'.Tracks := by
  obtain ⟨-, rfl⟩ := connStep_some hstep
  cases event with
  | disconnected conn reason =>
    intro htracks
    have hnone : s.manager.bleConn ≠ none := fun hn => hother (Or.inl hn)
    obtain ⟨c, hc⟩ := Option.ne_none_iff_exists'.mp hnone
    have hacc : s.link.accepted = some c := h.conn.symm.trans hc
    have hne : c ≠ conn := fun hcc => hother (Or.inr (by rw [hc, hcc]))
    have hconn := htracks.conn
    simp [BleManager.handle, BleManager.disconnected, Link.follow, hacc, hne] at hconn
  | connected conn err => exact absurd trivial hother
  | cccCfgChanged value => exact absurd trivial hother
  | mtuUpdated gattMtu => exact absurd trivial hother

/-- Along any sequence of callbacks that the stack can make, the connection is tracked
at all times exactly when none but the accepted connection ends while there is one. -/
theorem connection_tracked_iff (events : List ConnEvent) :
    Machine.Always connStep ConnRun.Tracks ConnRun.init events ↔
      Machine.EachStep connStep OwnEnd ConnRun.init events :=
  Machine.always_iff_eachStep tracks_init (fun _ h => h)
    (fun _ _ _ h hown hstep => tracks_step h hown hstep)
    (fun _ _ _ h hother hstep => not_tracks_otherEnd h hother hstep)

/-- A second central connects and is rejected; its end drops the first one's state. -/
theorem rejected_end_drops_accepted :
    ∃ s, Machine.run connStep ConnRun.init
        [.connected 1 0, .cccCfgChanged 1, .connected 2 0, .disconnected 2 0x13] = some s ∧
      s.link.alive = [1] ∧ s.link.accepted = some 1 ∧
      s.manager.bleConn = none ∧ s.manager.bleConnected = false ∧
      s.manager.notificationsEnabled = false ∧ .connUnref 1 ∈ s.manager.calls ∧
      ¬ s.Tracks := by
  refine ⟨_, rfl, rfl, rfl, rfl, rfl, rfl, by decide, fun h => ?_⟩
  have hconn := h.conn
  cases hconn

end MinimalWatch.Ble
