import Mathlib.Data.List.DropRight
import Mathlib.Data.List.ReduceOption
import Marketplace.Order.TrackedStatus
import Marketplace.Wire.Realtime

/-!
# The tracking state of the driver and of the customer

`driver_tracking_controller.dart` and `customer_tracking_controller.dart`: each folds the delivery
events of its channel into a state. The states hold the last event of each kind, but for two slips:
`copyWith` cannot set the ETA back to unknown, and the breadcrumb keeps its first 200 points.
-/

namespace Marketplace

open Lib

/-! ### The values of an event -/

/-- `toInt`: the part behind the point is cut off. -/
def Num.toInt (q : ℚ) : ℤ := if 0 ≤ q then q.floor else q.ceil

/-- `MapPoint`. -/
structure MapPoint where
  lat : ℚ
  lng : ℚ
deriving DecidableEq, Repr

/-- An event with the reading of the clock when it is handled. -/
structure Handled where
  ev : WsEvent
  now : Time

/-! ### The driver -/

/-- `DriverTrackingState`. -/
structure DriverTrackingState where
  status : TrackingDeliveryStatus
  driverLocation : Option MapPoint := none
  destination : Option MapPoint := none
  breadcrumb : List MapPoint := []
  etaSeconds : Option ℤ := none
  lastUpdatedAt : Option Time := none
deriving DecidableEq, Repr

/-- The arguments of `DriverTrackingState.copyWith`. -/
structure DriverTrackingChange where
  status : Option TrackingDeliveryStatus := none
  driverLocation : Option MapPoint := none
  destination : Option MapPoint := none
  breadcrumb : Option (List MapPoint) := none
  etaSeconds : Option ℤ := none
  lastUpdatedAt : Option Time := none

/-- `DriverTrackingState.copyWith`. -/
def DriverTrackingState.copyWith (s : DriverTrackingState) (change : DriverTrackingChange) :
    DriverTrackingState :=
  { status := change.status.getD s.status
    driverLocation := change.driverLocation.or s.driverLocation
    destination := change.destination.or s.destination
    breadcrumb := change.breadcrumb.getD s.breadcrumb
    etaSeconds := change.etaSeconds.or s.etaSeconds
    lastUpdatedAt := change.lastUpdatedAt.or s.lastUpdatedAt }

namespace DriverTracking

/-- The state that `build` returns. -/
def build : DriverTrackingState := { status := .accepted }

/-- `_apply`. -/
def apply (s : DriverTrackingState) (e : Handled) : Except Json.ReadError DriverTrackingState := do
  match e.ev.type with
  | "delivery.location" =>
    let lat ← Json.orNull Json.asNum (e.ev.data.at "lat")
    let lng ← Json.orNull Json.asNum (e.ev.data.at "lng")
    match lat, lng with
    | some lat, some lng =>
      let pt : MapPoint := { lat, lng }
      pure (s.copyWith
        { driverLocation := some pt, breadcrumb := some ((s.breadcrumb ++ [pt]).take 200),
          lastUpdatedAt := some e.now })
    | _, _ => pure s
  | "delivery.status" =>
    match ← Json.orNull Json.asString (e.ev.data.at "status") with
    | some status =>
      pure (s.copyWith { status := some (parseStatus status), lastUpdatedAt := some e.now })
    | none => pure s
  | "delivery.eta" =>
    let secs ← Json.orNull Json.asNum (e.ev.data.at "eta_seconds")
    pure (s.copyWith { etaSeconds := secs.map Num.toInt, lastUpdatedAt := some e.now })
  | _ => pure s

end DriverTracking

/-! ### The customer -/

/-- `CustomerTrackingState`. -/
structure CustomerTrackingState where
  status : TrackingDeliveryStatus
  etaSeconds : Option ℤ := none
  etaUpdatedAt : Option Time := none
  lastUpdatedAt : Option Time := none
  destinationLabel : String := ""
  dropCount : ℕ := 0
deriving DecidableEq, Repr

/-- The arguments of `CustomerTrackingState.copyWith`. -/
structure CustomerTrackingChange where
  status : Option TrackingDeliveryStatus := none
  etaSeconds : Option ℤ := none
  etaUpdatedAt : Option Time := none
  lastUpdatedAt : Option Time := none
  destinationLabel : Option String := none
  dropCount : Option ℕ := none

/-- `CustomerTrackingState.copyWith`. -/
def CustomerTrackingState.copyWith (s : CustomerTrackingState) (change : CustomerTrackingChange) :
    CustomerTrackingState :=
  { status := change.status.getD s.status
    etaSeconds := change.etaSeconds.or s.etaSeconds
    etaUpdatedAt := change.etaUpdatedAt.or s.etaUpdatedAt
    lastUpdatedAt := change.lastUpdatedAt.or s.lastUpdatedAt
    destinationLabel := change.destinationLabel.getD s.destinationLabel
    dropCount := change.dropCount.getD s.dropCount }

namespace CustomerTracking

/-- The state that `build` returns. -/
def build : CustomerTrackingState := { status := .pending }

/-- `_apply`. -/
def apply (s : CustomerTrackingState) (e : Handled) :
    Except Json.ReadError CustomerTrackingState := do
  match e.ev.type with
  | "delivery.status" =>
    match ← Json.orNull Json.asString (e.ev.data.at "status") with
    | some status =>
      pure (s.copyWith { status := some (parseStatus status), lastUpdatedAt := some e.now })
    | none => pure s
  | "delivery.eta" =>
    let secs ← Json.orNull Json.asNum (e.ev.data.at "eta_seconds")
    pure (s.copyWith
      { etaSeconds := secs.map Num.toInt, etaUpdatedAt := some e.now, lastUpdatedAt := some e.now })
  | _ => pure (s.copyWith { dropCount := some (s.dropCount + 1) })

end CustomerTracking

/-! ### What an event says -/

/-- What the handlers read in an event. A missing field is `none`. -/
inductive DeliveryEvent
  | location (pt : Option MapPoint)
  | status (s : Option String)
  | eta (secs : Option ℤ)
  | other
deriving DecidableEq, Repr

/-- What the handlers read in an event and on the clock; they throw where it does. -/
def Handled.read (e : Handled) : Except Json.ReadError (DeliveryEvent × Time) := do
  match e.ev.type with
  | "delivery.location" =>
    let lat ← Json.orNull Json.asNum (e.ev.data.at "lat")
    let lng ← Json.orNull Json.asNum (e.ev.data.at "lng")
    match lat, lng with
    | some lat, some lng => pure (.location (some { lat, lng }), e.now)
    | _, _ => pure (.location none, e.now)
  | "delivery.status" =>
    let s ← Json.orNull Json.asString (e.ev.data.at "status")
    pure (.status s, e.now)
  | "delivery.eta" =>
    let secs ← Json.orNull Json.asNum (e.ev.data.at "eta_seconds")
    pure (.eta (secs.map Num.toInt), e.now)
  | _ => pure (.other, e.now)

namespace DeliveryEvent

def position : DeliveryEvent → Option MapPoint
  | location pt => pt
  | _ => none

def newStatus : DeliveryEvent → Option String
  | status s => s
  | _ => none

/-- The new ETA; `some none` is an unknown one. -/
def newEta : DeliveryEvent → Option (Option ℤ)
  | eta secs => some secs
  | _ => none

/-- The event is a position, or one without a coordinate. -/
def IsLocation : DeliveryEvent → Prop
  | location _ => True
  | _ => False

instance : DecidablePred IsLocation
  | location _ => .isTrue trivial
  | status _ | eta _ | other => .isFalse id

end DeliveryEvent

/-- The positions received, in order. -/
def locations (reads : List (DeliveryEvent × Time)) : List MapPoint :=
  reads.filterMap fun r => r.1.position

/-- The statuses received. -/
def statuses (reads : List (DeliveryEvent × Time)) : List String :=
  reads.filterMap fun r => r.1.newStatus

/-- The ETAs received. -/
def etas (reads : List (DeliveryEvent × Time)) : List (Option ℤ) :=
  reads.filterMap fun r => r.1.newEta

/-- The events other than positions. -/
def withoutLocations (events : List Handled) : List Handled :=
  events.filter fun e => e.ev.type ≠ "delivery.location"

/-! ### One step -/

namespace DriverTracking

/-- `_apply` on an event that has been read. -/
def step (s : DriverTrackingState) : DeliveryEvent × Time → DriverTrackingState
  | (.location (some pt), now) =>
    { s with driverLocation := some pt, breadcrumb := (s.breadcrumb ++ [pt]).take 200,
             lastUpdatedAt := some now }
  | (.status (some status), now) =>
    { s with status := parseStatus status, lastUpdatedAt := some now }
  | (.eta secs, now) => { s with etaSeconds := secs.or s.etaSeconds, lastUpdatedAt := some now }
  | _ => s

/-- `_apply` reads the event and takes its step. -/
theorem apply_eq (s : DriverTrackingState) (e : Handled) : apply s e = e.read.map (step s) := by
  unfold apply Handled.read
  split
  · cases Json.orNull Json.asNum (e.ev.data.at "lat") with
    | error err => rfl
    | ok lat =>
      cases Json.orNull Json.asNum (e.ev.data.at "lng") with
      | error err => rfl
      | ok lng => cases lat <;> cases lng <;> rfl
  · cases Json.orNull Json.asString (e.ev.data.at "status") with
    | error err => rfl
    | ok status => cases status <;> rfl
  · cases Json.orNull Json.asNum (e.ev.data.at "eta_seconds") with
    | error err => rfl
    | ok secs => rfl
  · rfl

end DriverTracking

namespace CustomerTracking

/-- `_apply` on an event that has been read. -/
def step (s : CustomerTrackingState) : DeliveryEvent × Time → CustomerTrackingState
  | (.status (some status), now) =>
    { s with status := parseStatus status, lastUpdatedAt := some now }
  | (.status none, _) => s
  | (.eta secs, now) =>
    { s with etaSeconds := secs.or s.etaSeconds, etaUpdatedAt := some now,
             lastUpdatedAt := some now }
  | _ => { s with dropCount := s.dropCount + 1 }

/-- On an event that can be read `_apply` takes its step. -/
theorem apply_of_read {s : CustomerTrackingState} {e : Handled} {r : DeliveryEvent × Time}
    (h : e.read = .ok r) : apply s e = .ok (step s r) := by
  have heq : apply s e = e.read.map (step s) := by
    unfold Handled.read at h ⊢
    unfold apply
    generalize e.ev.type = type at h ⊢
    split at h
    · cases hlat : Json.orNull Json.asNum (e.ev.data.at "lat") with
      | error err =>
        rw [hlat] at h
        cases h
      | ok lat =>
        cases hlng : Json.orNull Json.asNum (e.ev.data.at "lng") with
        | error err =>
          rw [hlat, hlng] at h
          cases h
        | ok lng => cases lat <;> cases lng <;> rfl
    · cases Json.orNull Json.asString (e.ev.data.at "status") with
      | error err => rfl
      | ok status => cases status <;> rfl
    · cases Json.orNull Json.asNum (e.ev.data.at "eta_seconds") with
      | error err => rfl
      | ok secs => rfl
    · next hlocation hstatus heta =>
      split
      · exact absurd rfl hstatus
      · exact absurd rfl heta
      · rfl
  rw [heq, h]
  rfl

end CustomerTracking

/-! ### A run -/

section Run

variable {σ : Type} {apply : σ → Handled → Except Json.ReadError σ}
  {step : σ → DeliveryEvent × Time → σ}

/-- Events that can be read are handled one after another. -/
theorem foldlM_of_reads (happly : ∀ s e r, e.read = .ok r → apply s e = .ok (step s r))
    {events : List Handled} {reads : List (DeliveryEvent × Time)}
    (h : events.mapM Handled.read = .ok reads) (s : σ) :
    events.foldlM apply s = .ok (reads.foldl step s) := by
  have hread := mapM_eq_ok.mp h
  induction hread generalizing s with
  | nil => rfl
  | cons hr hrest ih =>
    rw [List.foldlM_cons, happly s _ _ hr]
    exact ih (mapM_eq_ok.mpr hrest) _

end Run

/-- When every event is read, the driver's reducer runs over what was read. -/
theorem DriverTracking.run_of_reads {events : List Handled} {reads : List (DeliveryEvent × Time)}
    (h : events.mapM Handled.read = .ok reads) :
    events.foldlM apply build = .ok (reads.foldl step build) :=
  foldlM_of_reads (fun s e r hr => by rw [apply_eq, hr, Except.map]) h build

/-- When every event is read, the customer's reducer runs over what was read. -/
theorem CustomerTracking.run_of_reads {events : List Handled}
    {reads : List (DeliveryEvent × Time)} (h : events.mapM Handled.read = .ok reads) :
    events.foldlM apply build = .ok (reads.foldl step build) := by
  refine foldlM_of_reads (fun s e r hr => ?_) h build
  exact apply_of_read hr

/-! ### What the states hold -/

section Snoc

variable (reads : List (DeliveryEvent × Time)) (r : DeliveryEvent × Time)

/-- One more event adds its position. -/
theorem locations_snoc : locations (reads ++ [r]) = locations reads ++ r.1.position.toList := by
  rw [locations, List.filterMap_append]
  cases h : r.1.position <;> simp [locations, h]

/-- One more event adds its status. -/
theorem statuses_snoc : statuses (reads ++ [r]) = statuses reads ++ r.1.newStatus.toList := by
  rw [statuses, List.filterMap_append]
  cases h : r.1.newStatus <;> simp [statuses, h]

/-- One more event adds its arrival time. -/
theorem etas_snoc : etas (reads ++ [r]) = etas reads ++ r.1.newEta.toList := by
  rw [etas, List.filterMap_append]
  cases h : r.1.newEta <;> simp [etas, h]

end Snoc

/-- Cutting off early does not change where a trail is cut off. -/
theorem take_take_concat {α : Type} (n : ℕ) (l : List α) (a : α) :
    (l.take n ++ [a]).take n = (l ++ [a]).take n := by
  rcases Nat.lt_or_ge l.length n with hlt | hge
  · rw [List.take_of_length_le hlt.le]
  · have hlength : n ≤ (l.take n).length := by
      rw [List.length_take]
      omega
    rw [List.take_append_of_le_length hlength, List.take_append_of_le_length hge, List.take_take,
      min_self]

/-- The last of the known ETAs, with one more. -/
theorem getLast?_reduceOption_concat (l : List (Option ℤ)) (secs : Option ℤ) :
    (l ++ [secs]).reduceOption.getLast? = secs.or l.reduceOption.getLast? := by
  rw [List.reduceOption_append, List.reduceOption_singleton]
  cases secs <;> simp

/-- What the driver's state holds once the events have been handled. -/
structure DriverTracking.Holds (reads : List (DeliveryEvent × Time)) (s : DriverTrackingState) :
    Prop where
  status : s.status = ((statuses reads).getLast?.map parseStatus).getD .accepted
  etaSeconds : s.etaSeconds = (etas reads).reduceOption.getLast?
  driverLocation : s.driverLocation = (locations reads).getLast?
  breadcrumb : s.breadcrumb = (locations reads).take 200

/-- One more event keeps the driver's state right. -/
theorem DriverTracking.Holds.step {reads : List (DeliveryEvent × Time)} {s : DriverTrackingState}
    (h : Holds reads s) (r : DeliveryEvent × Time) :
    Holds (reads ++ [r]) (DriverTracking.step s r) := by
  obtain ⟨e, now⟩ := r
  constructor <;> simp only [statuses_snoc, etas_snoc, locations_snoc]
  · match e with
    | .status (some status) => simp [DriverTracking.step, DeliveryEvent.newStatus]
    | .location none | .location (some _) | .status none | .eta _ | .other =>
      simpa [DriverTracking.step, DeliveryEvent.newStatus] using h.status
  · match e with
    | .eta secs =>
      simp [DriverTracking.step, DeliveryEvent.newEta, getLast?_reduceOption_concat, h.etaSeconds]
    | .location none | .location (some _) | .status none | .status (some _) | .other =>
      simpa [DriverTracking.step, DeliveryEvent.newEta] using h.etaSeconds
  · match e with
    | .location (some pt) => simp [DriverTracking.step, DeliveryEvent.position]
    | .location none | .status none | .status (some _) | .eta _ | .other =>
      simpa [DriverTracking.step, DeliveryEvent.position] using h.driverLocation
  · match e with
    | .location (some pt) =>
      simp [DriverTracking.step, DeliveryEvent.position, h.breadcrumb, take_take_concat]
    | .location none | .status none | .status (some _) | .eta _ | .other =>
      simpa [DriverTracking.step, DeliveryEvent.position] using h.breadcrumb

/-- What the customer's state holds once the events have been handled. -/
structure CustomerTracking.Holds (reads : List (DeliveryEvent × Time))
    (s : CustomerTrackingState) : Prop where
  status : s.status = ((statuses reads).getLast?.map parseStatus).getD .pending
  etaSeconds : s.etaSeconds = (etas reads).reduceOption.getLast?

/-- One more event keeps the customer's state right. -/
theorem CustomerTracking.Holds.step {reads : List (DeliveryEvent × Time)}
    {s : CustomerTrackingState} (h : Holds reads s) (r : DeliveryEvent × Time) :
    Holds (reads ++ [r]) (CustomerTracking.step s r) := by
  obtain ⟨e, now⟩ := r
  constructor <;> simp only [statuses_snoc, etas_snoc]
  · match e with
    | .status (some status) => simp [CustomerTracking.step, DeliveryEvent.newStatus]
    | .location _ | .status none | .eta _ | .other =>
      simpa [CustomerTracking.step, DeliveryEvent.newStatus] using h.status
  · match e with
    | .eta secs =>
      simp [CustomerTracking.step, DeliveryEvent.newEta, getLast?_reduceOption_concat, h.etaSeconds]
    | .location _ | .status none | .status (some _) | .other =>
      simpa [CustomerTracking.step, DeliveryEvent.newEta] using h.etaSeconds

/-- The driver's state is right after any events. -/
theorem DriverTracking.holds_foldl (reads : List (DeliveryEvent × Time)) :
    Holds reads (reads.foldl step build) := by
  induction reads using List.reverseRecOn with
  | nil => exact ⟨rfl, rfl, rfl, rfl⟩
  | append_singleton reads r ih =>
    rw [List.foldl_append]
    exact ih.step r

/-- The customer's state is right after any events. -/
theorem CustomerTracking.holds_foldl (reads : List (DeliveryEvent × Time)) :
    Holds reads (reads.foldl step build) := by
  induction reads using List.reverseRecOn with
  | nil => exact ⟨rfl, rfl⟩
  | append_singleton reads r ih =>
    rw [List.foldl_append]
    exact ih.step r

/-! ### Positions and the customer -/

namespace CustomerTracking

/-- The state but for the drop counter. -/
def forgetDrops (s : CustomerTrackingState) : CustomerTrackingState := { s with dropCount := 0 }

/-- A step depends on the drop counter in nothing but the counter itself. -/
theorem forgetDrops_step {s t : CustomerTrackingState} (h : forgetDrops s = forgetDrops t)
    (r : DeliveryEvent × Time) : forgetDrops (step s r) = forgetDrops (step t r) := by
  obtain ⟨status, eta, etaAt, updatedAt, label, drops⟩ := s
  obtain ⟨status', eta', etaAt', updatedAt', label', drops'⟩ := t
  simp only [forgetDrops, CustomerTrackingState.mk.injEq, and_true] at h
  obtain ⟨rfl, rfl, rfl, rfl, rfl⟩ := h
  obtain ⟨e, now⟩ := r
  match e with
  | .location _ | .status none | .status (some _) | .eta _ | .other => rfl

/-- Positions change the drop counter only. -/
theorem forgetDrops_foldl (reads : List (DeliveryEvent × Time)) {s t : CustomerTrackingState}
    (h : forgetDrops s = forgetDrops t) :
    forgetDrops (reads.foldl step s) =
      forgetDrops ((reads.filter fun r => ¬r.1.IsLocation).foldl step t) := by
  induction reads generalizing s t with
  | nil => exact h
  | cons r reads ih =>
    obtain ⟨e, now⟩ := r
    match e with
    | .location pt => exact ih h
    | .status s | .eta secs | .other => exact ih (forgetDrops_step h _)

end CustomerTracking

/-- A location event is one of the type `delivery.location`. -/
theorem Handled.isLocation_iff {e : Handled} {r : DeliveryEvent × Time} (h : e.read = .ok r) :
    r.1.IsLocation ↔ e.ev.type = "delivery.location" := by
  unfold Handled.read at h
  generalize e.ev.type = type at h ⊢
  split at h
  · cases hlat : Json.orNull Json.asNum (e.ev.data.at "lat") with
    | error err =>
      rw [hlat] at h
      cases h
    | ok lat =>
      cases hlng : Json.orNull Json.asNum (e.ev.data.at "lng") with
      | error err =>
        rw [hlat, hlng] at h
        cases h
      | ok lng =>
        rw [hlat, hlng] at h
        cases lat <;> cases lng <;> cases h <;> exact ⟨fun _ => rfl, fun _ => trivial⟩
  · cases hs : Json.orNull Json.asString (e.ev.data.at "status") with
    | error err =>
      rw [hs] at h
      cases h
    | ok s =>
      rw [hs] at h
      cases h
      simp [DeliveryEvent.IsLocation]
  · cases hs : Json.orNull Json.asNum (e.ev.data.at "eta_seconds") with
    | error err =>
      rw [hs] at h
      cases h
    | ok s =>
      rw [hs] at h
      cases h
      simp [DeliveryEvent.IsLocation]
  · next hlocation _ _ =>
    cases h
    simp only [DeliveryEvent.IsLocation, false_iff]
    exact hlocation

/-- What is read in the events other than positions. -/
theorem mapM_withoutLocations {events : List Handled} {reads : List (DeliveryEvent × Time)}
    (h : events.mapM Handled.read = .ok reads) :
    (withoutLocations events).mapM Handled.read =
      .ok (reads.filter fun r => ¬r.1.IsLocation) := by
  have hread := mapM_eq_ok.mp h
  rw [mapM_eq_ok]
  clear h
  induction hread with
  | nil => exact .nil
  | cons hr _ ih =>
    have hiff := Handled.isLocation_iff hr
    unfold withoutLocations at ih ⊢
    rw [List.filter_cons, List.filter_cons]
    simp only [hiff]
    split
    · exact .cons hr ih
    · exact ih

/-! ### What the states should hold -/

/-- The driver's state holds the last event of each kind and the last 200 positions. -/
def DriverTracks (events : List Handled) (reads : List (DeliveryEvent × Time)) : Prop :=
  ∃ s, events.foldlM DriverTracking.apply DriverTracking.build = .ok s ∧
    s.status = ((statuses reads).getLast?.map parseStatus).getD .accepted ∧
    s.etaSeconds = (etas reads).getLast?.join ∧
    s.driverLocation = (locations reads).getLast? ∧
    s.breadcrumb = (locations reads).rtake 200

/-- The customer's state holds the last status and the last ETA. -/
def CustomerTracks (events : List Handled) (reads : List (DeliveryEvent × Time)) : Prop :=
  ∃ s, events.foldlM CustomerTracking.apply CustomerTracking.build = .ok s ∧
    s.status = ((statuses reads).getLast?.map parseStatus).getD .pending ∧
    s.etaSeconds = (etas reads).getLast?.join

/-- The customer's state is the same, but for the drop counter, after any events that differ from
these in their positions only. -/
def CustomerBlind (events : List Handled) : Prop :=
  ∀ events' reads', events'.mapM Handled.read = .ok reads' →
    withoutLocations events' = withoutLocations events →
    ∃ s s', events.foldlM CustomerTracking.apply CustomerTracking.build = .ok s ∧
      events'.foldlM CustomerTracking.apply CustomerTracking.build = .ok s' ∧
      CustomerTracking.forgetDrops s' = CustomerTracking.forgetDrops s

/-- If the last ETA is unknown, so was every ETA before it. -/
def EtaStaysKnown (reads : List (DeliveryEvent × Time)) : Prop :=
  (etas reads).getLast? = some none → ∀ secs ∈ etas reads, secs = none

/-- The first 200 positions are the last 200, as they are if there are no more. -/
def TrailUnmoved (reads : List (DeliveryEvent × Time)) : Prop :=
  (locations reads).take 200 = (locations reads).rtake 200

/-- Within two hundred points the trail drops none. -/
theorem trailUnmoved_of_length_le {reads : List (DeliveryEvent × Time)}
    (h : (locations reads).length ≤ 200) : TrailUnmoved reads := by
  have hdrop : (locations reads).length - 200 = 0 := by omega
  rw [TrailUnmoved, List.rtake, hdrop, List.drop_zero]
  exact List.take_of_length_le h

/-- The last known ETA is the last ETA unless that is unknown after a known one. -/
theorem getLast?_reduceOption_iff {l : List (Option ℤ)} :
    l.reduceOption.getLast? = l.getLast?.join ↔
      (l.getLast? = some none → ∀ secs ∈ l, secs = none) := by
  rcases List.eq_nil_or_concat' l with rfl | ⟨l, secs, rfl⟩
  · simp
  · rw [getLast?_reduceOption_concat, List.getLast?_concat]
    cases secs with
    | some secs => simp
    | none =>
      rw [Option.none_or, Option.join_some, List.getLast?_eq_none_iff]
      have hall : l.reduceOption = [] ↔ ∀ secs ∈ l, secs = none := by
        rw [List.eq_nil_iff_forall_not_mem]
        simp only [List.reduceOption_mem_iff]
        constructor
        · intro h secs hsecs
          exact Option.eq_none_iff_forall_not_mem.mpr fun n hn => h n (hn ▸ hsecs)
        · intro h n hn
          cases h _ hn
      rw [hall]
      simp [or_imp]

/-- Where every event is read, the positions make no difference to the customer but for the drop
counter. -/
theorem customerBlind {events : List Handled} {reads : List (DeliveryEvent × Time)}
    (h : events.mapM Handled.read = .ok reads) : CustomerBlind events := by
  intro events' reads' h' hsame
  refine ⟨_, _, CustomerTracking.run_of_reads h, CustomerTracking.run_of_reads h', ?_⟩
  have hreads : (reads'.filter fun r => ¬r.1.IsLocation) =
      reads.filter fun r => ¬r.1.IsLocation := by
    have hrest := mapM_withoutLocations h
    rw [← hsame, mapM_withoutLocations h'] at hrest
    exact Except.ok.inj hrest
  rw [CustomerTracking.forgetDrops_foldl reads' rfl, CustomerTracking.forgetDrops_foldl reads rfl,
    hreads]

/-- **The tracking states.** For all events that the handlers can read, the two states hold what
they should exactly if no ETA becomes unknown at the end and the first 200 positions are the last
200; positions never show in the customer's state. -/
theorem reducers_track_iff {events : List Handled} {reads : List (DeliveryEvent × Time)}
    (h : events.mapM Handled.read = .ok reads) :
    DriverTracks events reads ∧ CustomerTracks events reads ∧ CustomerBlind events ↔
      EtaStaysKnown reads ∧ TrailUnmoved reads := by
  have hdriver := DriverTracking.holds_foldl reads
  have hcustomer := CustomerTracking.holds_foldl reads
  have heta : (etas reads).reduceOption.getLast? = (etas reads).getLast?.join ↔
      EtaStaysKnown reads := getLast?_reduceOption_iff
  constructor
  · rintro ⟨⟨s, hs, -, hsecs, -, htrail⟩, -, -⟩
    obtain rfl := Except.ok.inj ((DriverTracking.run_of_reads h).symm.trans hs)
    rw [hdriver.etaSeconds] at hsecs
    rw [hdriver.breadcrumb] at htrail
    exact ⟨heta.mp hsecs, htrail⟩
  · rintro ⟨hknown, htrail⟩
    have hlast := heta.mpr hknown
    refine ⟨⟨_, DriverTracking.run_of_reads h, hdriver.status, ?_, hdriver.driverLocation, ?_⟩,
      ⟨_, CustomerTracking.run_of_reads h, hcustomer.status, ?_⟩, customerBlind h⟩
    · rw [hdriver.etaSeconds, hlast]
    · rw [hdriver.breadcrumb]
      exact htrail
    · rw [hcustomer.etaSeconds, hlast]

namespace Sample

def delivery (type : String) (data : Json.Entries) (now : Time) : Handled :=
  { ev := { type, channel := "delivery:1", data }, now }

/-- A position, a status and an ETA. -/
def firstEvents : List Handled :=
  [delivery "delivery.location" [("lat", .int 52), ("lng", .double (21 / 2))] 1,
    delivery "delivery.status" [("status", .str "out_for_delivery")] 2,
    delivery "delivery.eta" [("eta_seconds", .int 300)] 3]

/-- The ETA becomes unknown. -/
def etaLost : List Handled :=
  firstEvents ++ [delivery "delivery.eta" [("eta_seconds", .null)] 4]

/-- The driver moves on after 200 positions. -/
def longTrail : List Handled :=
  List.replicate 200 (delivery "delivery.location" [("lat", .int 0), ("lng", .int 0)] 1) ++
    [delivery "delivery.location" [("lat", .int 1), ("lng", .int 0)] 2]

end Sample

/-- The states hold what three first events say. -/
theorem reducers_track_firstEvents :
    DriverTracks Sample.firstEvents
        [(.location (some { lat := 52, lng := 21 / 2 }), 1), (.status (some "out_for_delivery"), 2),
          (.eta (some 300), 3)] ∧
      CustomerBlind Sample.firstEvents := by
  have hread : Sample.firstEvents.mapM Handled.read =
      .ok [(.location (some { lat := 52, lng := 21 / 2 }), 1),
        (.status (some "out_for_delivery"), 2), (.eta (some 300), 3)] := by
    rfl
  have htracks := (reducers_track_iff hread).mpr
    ⟨nofun, trailUnmoved_of_length_le (by decide)⟩
  exact ⟨htracks.1, htracks.2.2⟩

/-- An ETA that has become unknown is still held by both states, and a trail of 201 points keeps its
first point. -/
theorem reducers_lose_track :
    (∃ reads, Sample.etaLost.mapM Handled.read = .ok reads ∧
        ¬DriverTracks Sample.etaLost reads ∧ ¬CustomerTracks Sample.etaLost reads) ∧
      ∃ reads, Sample.longTrail.mapM Handled.read = .ok reads ∧
        ¬DriverTracks Sample.longTrail reads := by
  constructor
  · refine ⟨[(.location (some { lat := 52, lng := 21 / 2 }), 1),
      (.status (some "out_for_delivery"), 2), (.eta (some 300), 3), (.eta none, 4)], rfl, ?_, ?_⟩
    · rintro ⟨s, hs, -, hsecs, -⟩
      obtain rfl := Except.ok.inj hs
      cases hsecs
    · rintro ⟨s, hs, -, hsecs⟩
      obtain rfl := Except.ok.inj hs
      cases hsecs
  · have hread : Sample.longTrail.mapM Handled.read =
        .ok (List.replicate 200 (.location (some { lat := 0, lng := 0 }), 1) ++
          [(.location (some { lat := 1, lng := 0 }), 2)]) := by
      decide +kernel
    refine ⟨_, hread, ?_⟩
    rintro ⟨s, hs, -, -, -, htrail⟩
    obtain rfl := Except.ok.inj ((DriverTracking.run_of_reads hread).symm.trans hs)
    rw [(DriverTracking.holds_foldl _).breadcrumb] at htrail
    exact absurd htrail (by decide +kernel)

end Marketplace
