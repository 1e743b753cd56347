import WorkspaceWatch.Json.Decode

/-!
# Counters

What happens in the background and is reported to nobody is counted: changes seen and ignored,
batches delivered, what failed, and how many snapshots are held. The counters have 64 bits and wrap
around.
-/

namespace WorkspaceWatch

/-- The ten counters. -/
structure Tally where
  eventsObserved : UInt64 := 0
  eventsIgnored : UInt64 := 0
  batchesDelivered : UInt64 := 0
  notifyFailures : UInt64 := 0
  observationErrors : UInt64 := 0
  registrationFailures : UInt64 := 0
  directoriesRegistered : UInt64 := 0
  viewsSkipped : UInt64 := 0
  snapshotsAcquired : UInt64 := 0
  snapshotsReleased : UInt64 := 0
  deriving DecidableEq, Repr

/-- Something that is counted. -/
inductive Occurrence where
  | eventObserved
  | eventIgnored
  | batchDelivered
  | notifyFailure
  | observationError
  | registrationFailure
  | directoriesRegistered (count : Nat)
  | viewSkipped
  | snapshotAcquired
  | snapshotReleased
  deriving DecidableEq, Repr

namespace Tally

/-- Counts an occurrence. -/
def record (t : Tally) : Occurrence → Tally
  | .eventObserved => { t with eventsObserved := t.eventsObserved + 1 }
  | .eventIgnored => { t with eventsIgnored := t.eventsIgnored + 1 }
  | .batchDelivered => { t with batchesDelivered := t.batchesDelivered + 1 }
  | .notifyFailure => { t with notifyFailures := t.notifyFailures + 1 }
  | .observationError => { t with observationErrors := t.observationErrors + 1 }
  | .registrationFailure => { t with registrationFailures := t.registrationFailures + 1 }
  | .directoriesRegistered n =>
    { t with directoriesRegistered := t.directoriesRegistered + UInt64.ofNat n }
  | .viewSkipped => { t with viewsSkipped := t.viewsSkipped + 1 }
  | .snapshotAcquired => { t with snapshotsAcquired := t.snapshotsAcquired + 1 }
  | .snapshotReleased => { t with snapshotsReleased := t.snapshotsReleased + 1 }

/-- Snapshots acquired and not yet released. -/
def outstanding (t : Tally) : Nat := t.snapshotsAcquired.toNat - t.snapshotsReleased.toNat

/-! ### JSON -/

/-- A counter: its name in JSON and its place in the tally. -/
structure Counter where
  name : String
  get : Tally → UInt64
  set : UInt64 → Tally → Tally

/-- The counters, in the order in which they are written. -/
def counters : List Counter :=
  [⟨"events_observed", eventsObserved, fun n t => { t with eventsObserved := n }⟩,
   ⟨"events_ignored", eventsIgnored, fun n t => { t with eventsIgnored := n }⟩,
   ⟨"batches_delivered", batchesDelivered, fun n t => { t with batchesDelivered := n }⟩,
   ⟨"notify_failures", notifyFailures, fun n t => { t with notifyFailures := n }⟩,
   ⟨"observation_errors", observationErrors, fun n t => { t with observationErrors := n }⟩,
   ⟨"registration_failures", registrationFailures, fun n t => { t with registrationFailures := n }⟩,
   ⟨"directories_registered", directoriesRegistered,
    fun n t => { t with directoriesRegistered := n }⟩,
   ⟨"views_skipped", viewsSkipped, fun n t => { t with viewsSkipped := n }⟩,
   ⟨"snapshots_acquired", snapshotsAcquired, fun n t => { t with snapshotsAcquired := n }⟩,
   ⟨"snapshots_released", snapshotsReleased, fun n t => { t with snapshotsReleased := n }⟩]

/-- The JSON form of the counters: an object of all ten. -/
def toJson (t : Tally) : Json :=
  .object (counters.map fun c => (c.name, .ofNat (c.get t).toNat))

/-- The counters read so far, with the names of those that were given. -/
structure Draft where
  tally : Tally := {}
  given : List String := []

/-- Reads the counters, all of which have to be given. -/
def decode : Json.Decoder Tally := fun s =>
  let fields : List (Json.RecordField Draft) := counters.map fun c =>
    { name := c.name
      isFilled := fun d => d.given.contains c.name
      fill := fun d s => (Json.decodeUInt64 s).map fun r =>
        ({ tally := c.set r.1 d.tally, given := c.name :: d.given }, r.2) }
  (Json.decodeRecord fields {} s).map fun r => (r.1.tally, r.2)

end Tally

end WorkspaceWatch
