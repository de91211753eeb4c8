/-
The store and everything that acts on it.

Publications are admitted and committed in two steps, maintenance probes and then
writes, and between any two of these steps another may run: the world keeps what
has been admitted and probed so far, and an event picks one of them.  Each event
that fails, is deferred or is stopped from outside leaves the database where it
was.  `commits` is the history of the committed publications, with the evidence
each one committed; no event reads it.
-/
import Baleyg.Store.Maintenance
import Baleyg.Lib.Runs

namespace Baleyg.Store

open Fallible

inductive Plan where
  | full (bundle : Bundle)
  | changed (bundle : Bundle) (prepared : LocalPrepared)
  | unchanged (capture : Capture)
  deriving DecidableEq, Repr

structure Ticket where
  plan : Plan
  expected : IndexPin
  admission : Admission
  deriving DecidableEq, Repr

/-- A committed publication: the pin it expected, if it was a live one, the pin it
committed, the revision it superseded, when, and what was then readable. -/
structure Commit where
  expected : Option IndexPin
  pin : IndexPin
  superseded : Option IndexPin
  sample : Sample
  evidence : Evidence
  deriving DecidableEq, Repr

structure World where
  disk : Database
  dataVersion : Nat
  disposition : Disposition
  clock : RetentionClock
  sample : Sample
  tickets : List Ticket
  probes : List Probe
  generations : List Nat
  commits : List Commit

/-- An index nobody has published to. -/
def Database.bootstrap (generation : Nat) : Database where
  metadata :=
    { pin := ⟨generation, 0⟩
      indexedAt := 0
      stats := ⟨0, 0, 0, 0, 0, 0, 0, 0, 0, "absent", []⟩
      diagnostics := []
      reconciledIncarnation := none
      reconcileOptions := none }
  headers := []
  inputs := []
  manifest := []
  parents := []
  children := []
  supersessions := []
  debt := []
  candidates := []

namespace World

/-- A fresh index, opened by a process whose clocks read `sample`. -/
def start (generation : Nat) (sample : Sample) : World where
  disk := .bootstrap generation
  dataVersion := 0
  disposition := .ready
  clock := ⟨sample.wall, sample.mono⟩
  sample := sample
  tickets := []
  probes := []
  generations := [generation]
  commits := []

inductive Event where
  | tick (sample : Sample)
  | boot (sample : Sample)
  | classify (disposition : Disposition)
  | prepare (plan : Plan) (expected : IndexPin)
  | publish (ticket : Ticket) (o : Outside) (compatible : Bool) (incarnation : Incarnation)
      (generation : Nat)
  | probe
  | unit (probe : Probe) (o : Outside)
  | collect (o : Outside)
  | recreate (bundle : Bundle) (o : Outside) (incarnation : Incarnation) (generation : Nat)

variable (digest : Preimage → String)

/-- The preparation of a publication, against the database as it is. -/
def admission (w : World) (expected : IndexPin) : Plan → Except Failure Admission
  | .full b => do
      let reuse ← preflightReuse digest b expected w.disposition w.disk
      pure ⟨w.dataVersion, reuse⟩
  | .changed b prepared => do
      ensure (w.disposition = .ready ∧ 0 < expected.indexRevision)
        (Failure.message "local route unavailable")
      ensure (prepared.priorPin = expected)
        (Failure.message "revision conflict: local prepared pin changed")
      let reuse ← preflightLocalReuse b prepared w.disk
      pure ⟨w.dataVersion, reuse⟩
  | .unchanged c => do
      ensure (w.disposition = .ready ∧ 0 < expected.indexRevision)
        (Failure.message "unchanged route unavailable")
      ensure (w.disk.current = expected)
        (Failure.message "revision conflict: Serve selected head changed")
      ensure (unchangedCapture w.disk c) (Failure.message "capture changed")
      pure ⟨w.dataVersion, .default⟩

def prepare (w : World) (plan : Plan) (expected : IndexPin) : World :=
  match w.admission digest expected plan with
  | .error _ => w
  | .ok admission => { w with tickets := w.tickets ++ [⟨plan, expected, admission⟩] }

def locked (w : World) (compatible : Bool) : Locked :=
  ⟨w.dataVersion, compatible, w.disposition, true⟩

def publication (t : Ticket) (o : Outside) (locked : Locked) (stamp : Stamp) : Tx IndexPin :=
  match t.plan with
  | .full b => publishBody digest o b t.expected t.admission locked stamp
  | .changed b _ => publishBody digest o b t.expected t.admission locked stamp
  | .unchanged c => publishUnchangedBody o c t.expected t.admission locked stamp

/-- The revision a commit over `old` supersedes: the old head, unless the commit
starts a generation or follows the bootstrap. -/
def supersededBy (old pin : IndexPin) : Option IndexPin :=
  if pin.indexGeneration = old.indexGeneration ∧ 0 < old.indexRevision then some old else none

def publish (w : World) (t : Ticket) (o : Outside) (compatible : Bool)
    (incarnation : Incarnation) (generation : Nat) : World :=
  match immediate o
      (publication digest t o (w.locked compatible) ⟨w.sample.wall, incarnation, generation⟩)
      w.disk with
  | (.error _, _) => w
  | (.ok pin, db) =>
      { w with
        disk := db
        dataVersion := w.dataVersion + 1
        disposition := .ready
        generations := w.generations ++ [generation]
        commits := w.commits
          ++ [⟨some t.expected, pin, supersededBy t.expected pin, w.sample, db.evidence pin⟩] }

def unit (w : World) (p : Probe) (o : Outside) : World :=
  match runUnit o p w.disk with
  | (.ok .progress, db) => { w with disk := db, dataVersion := w.dataVersion + 1 }
  | _ => w

def collect (w : World) (o : Outside) : World :=
  match immediate o (collectBody o) w.disk with
  | (.error _, _) => w
  | (.ok _, db) => { w with disk := db, dataVersion := w.dataVersion + 1 }

/-- `recreate_index_exclusive`: a staged index is published to and takes the place of
the live one. -/
def recreate (w : World) (b : Bundle) (o : Outside) (incarnation : Incarnation)
    (generation : Nat) : World :=
  if w.disposition = .recreatePending ∨ w.disposition = .rootReplaced then
    match immediate o
        (publishBody digest o b ⟨generation, 0⟩ ⟨0, .default⟩ ⟨0, true, w.disposition, false⟩
          ⟨w.sample.wall, incarnation, generation⟩)
        (.bootstrap generation) with
    | (.error _, _) => w
    | (.ok pin, db) =>
        { w with
          disk := db
          dataVersion := w.dataVersion + 1
          disposition := .ready
          generations := w.generations ++ [generation]
          commits := w.commits ++ [⟨none, pin, none, w.sample, db.evidence pin⟩] }
  else w

def perform (w : World) : Event → World
  | .tick sample => { w with sample := sample }
  | .boot sample =>
      { w with
        clock := ⟨sample.wall, sample.mono⟩, sample := sample, tickets := [], probes := [] }
  | .classify disposition => { w with disposition := disposition }
  | .prepare plan expected => w.prepare digest plan expected
  | .publish t o compatible incarnation generation =>
      w.publish digest t o compatible incarnation generation
  | .probe =>
      if 0 ≤ w.sample.wall ∧ w.sample.wall ≤ maxInteger then
        { w with probes := w.probes ++ [w.disk.probe w.clock w.sample] }
      else w
  | .unit p o => w.unit p o
  | .collect o => w.collect o
  | .recreate b o incarnation generation => w.recreate digest b o incarnation generation

end World

/-! ### Which events can happen -/

/-- A validated bundle: no two declarations of a document share ancestors and key
(`native stable ID collision/duplicate`), and its facts hash to preimages in `P`. -/
def Bundle.Measured (digest : Preimage → String) (P : Set Preimage) (b : Bundle) : Prop :=
  ∀ d ∈ b.documents, Table.Keyed Declaration.ownerKey d.declarations
    ∧ ∀ t ∈ trees digest b d (documentProjection digest b d),
      ∀ x ∈ t.parent.preimage t.facts, x ∈ P

def Plan.Measured (digest : Preimage → String) (P : Set Preimage) : Plan → Prop
  | .full b => b.Measured digest P
  | .changed b _ => b.Measured digest P
  | .unchanged _ => True

namespace World

variable (digest : Preimage → String)

/-- An event is possible: the monotonic clock does not run back within a process, an
admitted publication has a validated bundle, a transaction is one that was admitted
or probed, and a generation is drawn once. -/
def Possible (P : Set Preimage) (w : World) : Event → Prop
  | .tick sample => w.sample.mono ≤ sample.mono
  | .boot _ => True
  | .classify _ => True
  | .prepare plan _ => plan.Measured digest P
  | .publish t _ _ _ generation => t ∈ w.tickets ∧ generation ∉ w.generations
  | .probe => True
  | .unit p _ => p ∈ w.probes
  | .collect _ => True
  | .recreate b _ _ generation => b.Measured digest P ∧ generation ∉ w.generations

def Step (P : Set Preimage) (w w' : World) : Prop :=
  ∃ e, Possible digest P w e ∧ w' = w.perform digest e

def Reached (P : Set Preimage) : World → Prop :=
  Runs.Reachable (fun w => ∃ generation sample, w = start generation sample) (Step digest P)

end World

/-! ### A history of two publications -/

namespace Sample

def digest : Preimage → String
  | .documentVersion i => "v" ++ i.path ++ i.contentHash
  | .nativeWitness i _ _ _ _ _ => "n" ++ i.path ++ i.contentHash
  | .graphProjection v _ _ _ => "g" ++ v
  | .classProjection g _ _ => "c" ++ g

def root : Declaration where
  syntaxId := "root"
  kind := "module"
  name := none
  lookupKey := none
  ancestors := []
  key := ⟨"module", none, none, 0⟩
  range := ⟨0, 1⟩
  nameRange := none
  header := ⟨"module", none, [], [], [], none, []⟩

def document (hash : String) : BundleDocument where
  file := ⟨"a", "rust", hash, "x", "stat"⟩
  extractionContext := "context"
  coverage := ⟨true, true, "complete", ["definition"], [], none⟩
  declarations := [root]
  calls := [⟨"call", "root", 0, ⟨0, 1⟩, none, none, []⟩]
  regions := []
  nodes := [⟨"node", "node", "a", "payload"⟩]
  graphCalls := [⟨"call", "node", "a", "payload"⟩]
  graphRegions := []
  extraction := none
  classes := []
  relations := []

def bundle (hash : String) : Bundle where
  capture := ⟨[(document hash).file], [("key", "value")], ⟨1, 100, none, none⟩⟩
  sourceSet := "set"
  producer := "producer"
  producerVersion := "1"
  toolchainHash := ""
  configHash := ""
  dependencyHash := ""
  nativeRevision := ""
  inventory := ["a"]
  dependencyObservations := []
  stats := ⟨1, 1, 1, 0, 0, 0, 0, 0, 0, "absent", []⟩
  diagnostics := []
  classWarnings := []
  classTruncated := false
  documents := [document hash]

def preimages : List Preimage :=
  ["1", "2"].flatMap fun hash =>
    (trees digest (bundle hash) (document hash) (documentProjection digest (bundle hash)
      (document hash))).filterMap fun t => t.parent.preimage t.facts

def hashed : Set Preimage := { x | x ∈ preimages }

theorem digest_injOn : Set.InjOn digest hashed := by
  have hall : ∀ x ∈ preimages, ∀ y ∈ preimages, digest x = digest y → x = y := by
    decide +kernel
  exact fun x hx y hy hxy => hall x hx y hy hxy

theorem bundle_measured {hash : String} (h : hash ∈ ["1", "2"]) :
    (bundle hash).Measured digest hashed := by
  intro d hd
  rw [List.mem_singleton.mp hd]
  refine ⟨List.nodup_singleton _, fun t ht x hx => ?_⟩
  exact List.mem_flatMap.mpr ⟨hash, h, List.mem_filterMap.mpr ⟨t, ht, hx⟩⟩

def admitted₁ : World :=
  (World.start 7 ⟨10000, 0⟩).prepare digest (.full (bundle "1")) ⟨7, 0⟩

def ticket₁ : Ticket := ⟨.full (bundle "1"), ⟨7, 0⟩, ⟨0, .default⟩⟩

def published₁ : World := admitted₁.publish digest ticket₁ .quiet true 1 8

def admitted₂ : World := published₁.prepare digest (.full (bundle "2")) ⟨7, 1⟩

def ticket₂ : Ticket := ⟨.full (bundle "2"), ⟨7, 1⟩, ⟨1, ⟨some ⟨7, 1⟩, [("a", .none)], []⟩⟩⟩

def published₂ : World := admitted₂.publish digest ticket₂ .quiet true 1 9

theorem ticket₁_mem : ticket₁ ∈ admitted₁.tickets := by decide +kernel

theorem ticket₂_mem : ticket₂ ∈ admitted₂.tickets := by decide +kernel

theorem reached_admitted₁ : World.Reached digest hashed admitted₁ := by
  have hstart : World.Reached digest hashed (World.start 7 ⟨10000, 0⟩) :=
    Runs.Reachable.start ⟨7, _, rfl⟩
  refine hstart.then (.single ⟨.prepare (.full (bundle "1")) ⟨7, 0⟩, ?_, rfl⟩)
  exact bundle_measured (by simp)

theorem reached₁ : World.Reached digest hashed published₁ := by
  refine reached_admitted₁.then (.single ⟨.publish ticket₁ .quiet true 1 8, ⟨ticket₁_mem, ?_⟩, rfl⟩)
  decide +kernel

theorem run₂ : Relation.ReflTransGen (World.Step digest hashed) published₁ published₂ := by
  refine .tail (.single ⟨.prepare (.full (bundle "2")) ⟨7, 1⟩, ?_, rfl⟩)
    ⟨.publish ticket₂ .quiet true 1 9, ⟨ticket₂_mem, ?_⟩, rfl⟩
  · exact bundle_measured (by simp)
  · decide +kernel

theorem reached₂ : World.Reached digest hashed published₂ := reached₁.then run₂

end Sample

end Baleyg.Store
