/-
The control checks.

Every revision but the head has a supersession row, and its state says what else
the tables hold of it.  A retained revision keeps its inputs and its whole manifest;
a pending one owes a release, carries the pending marker among its inputs and may
have lost manifest rows; a released one keeps its header and one input, the released
marker.  `PairedRevision` is the query that checks one revision, read as what it
accepts rather than what it rejects, and `PairedMetadata` the whole check, over the
revisions a scope selects.
-/
import Baleyg.Store.Append

namespace Baleyg.Store

/-- The largest integer a column holds: what JSON carries exactly. -/
def maxInteger : Int := 9007199254740991

def pendingPayload : String := "pending_release:v1"

def releasedPayload : String := "released:v1"

namespace Database

variable (db : Database)

/-- The input rows of a revision under one key. -/
def HasInput (pin : IndexPin) (inputKey : String) : Prop :=
  ∃ i ∈ db.inputs, i.revision = pin ∧ i.inputKey = inputKey

instance (pin : IndexPin) (inputKey : String) : Decidable (db.HasInput pin inputKey) :=
  inferInstanceAs (Decidable (∃ i ∈ db.inputs, _))

/-- A revision whose release has begun: the pins `read_revision_for` calls expired. -/
def Released (pin : IndexPin) : Prop :=
  db.HasInput pin releasedMarker ∨ db.HasInput pin pendingMarker

instance (pin : IndexPin) : Decidable (db.Released pin) :=
  inferInstanceAs (Decidable (_ ∨ _))

/-- `json_array_length(r.source_inventory)`. -/
def inventoryOf (pin : IndexPin) : Nat :=
  ((db.headerOf pin).map (·.sourceInventory.length)).getD 0

/-- `validate_supersessions`. -/
def SupersessionsValid : Prop :=
  (∀ s ∈ db.supersessions, db.Headed s.revision ∧ (0 ≤ s.supersededAt ∧ s.supersededAt ≤ maxInteger)
      ∧ s.revision ≠ db.current)
    ∧ ∀ h ∈ db.headers, h.pin ≠ db.current →
      db.HasInput h.pin releasedMarker ∨ ∃ s ∈ db.supersessions, s.revision = h.pin

instance : Decidable db.SupersessionsValid :=
  inferInstanceAs (Decidable (_ ∧ _))

/-- What the state column promises of the other tables. -/
def PairedState (pin : IndexPin) : Retention → Prop
  | .retained =>
      pin ∉ db.debt ∧ ¬ db.Released pin ∧ (db.manifestOf pin).length = db.inventoryOf pin
  | .pending =>
      pin ∈ db.debt ∧ ⟨pin, pendingMarker, pendingPayload⟩ ∈ db.inputs
        ∧ ¬ db.HasInput pin releasedMarker ∧ (db.manifestOf pin).length ≤ db.inventoryOf pin
  | .released =>
      pin ∉ db.debt ∧ db.inputsOf pin = [⟨pin, releasedMarker, releasedPayload⟩]
        ∧ db.manifestOf pin = []

instance (pin : IndexPin) (state : Retention) : Decidable (db.PairedState pin state) := by
  cases state <;> unfold PairedState <;> infer_instance

/-- What a revision's rows look like: the head has its whole manifest and no
supersession, any other revision has one and is as its state promises. -/
def PairedRevision (pin : IndexPin) : Prop :=
  db.Headed pin
    ∧ (pin = db.current → (∀ s ∈ db.supersessions, s.revision ≠ pin) ∧ pin ∉ db.debt
      ∧ (db.manifestOf pin).length = db.inventoryOf pin)
    ∧ (pin ≠ db.current → ∃ s ∈ db.supersessions, s.revision = pin)
    ∧ ∀ s ∈ db.supersessions, s.revision = pin → db.PairedState pin s.state

instance (pin : IndexPin) : Decidable (db.PairedRevision pin) :=
  inferInstanceAs (Decidable (_ ∧ _))

/-- A marker among a revision's inputs is the one its state calls for; no state calls
for one against the head, so there only its payload is looked at. -/
def MarkersMatch (pin : IndexPin) : Prop :=
  ∀ i ∈ db.inputs, i.revision = pin →
    (i.inputKey = pendingMarker → i.payload = pendingPayload
      ∧ ∀ s ∈ db.supersessions, s.revision = pin → s.state = .pending)
    ∧ (i.inputKey = releasedMarker → i.payload = releasedPayload
      ∧ ∀ s ∈ db.supersessions, s.revision = pin → s.state = .released)

instance (pin : IndexPin) : Decidable (db.MarkersMatch pin) :=
  inferInstanceAs (Decidable (∀ i ∈ db.inputs, _))

/-- The headers are the revisions of this generation, one to the head. -/
def HeadersContiguous : Prop :=
  db.headers.length = db.current.indexRevision ∧ db.Headed ⟨db.current.indexGeneration, 1⟩
    ∧ db.Headed db.current
    ∧ ∀ h ∈ db.headers, h.pin.indexGeneration = db.current.indexGeneration
      ∧ 1 ≤ h.pin.indexRevision ∧ h.pin.indexRevision ≤ db.current.indexRevision

instance : Decidable db.HeadersContiguous :=
  inferInstanceAs (Decidable (_ ∧ _))

/-- Only a revision being released has journaled candidates. -/
def CandidatesPending : Prop :=
  ∀ c ∈ db.candidates, ∃ s ∈ db.supersessions, s.revision = c.revision ∧ s.state = .pending

instance : Decidable db.CandidatesPending :=
  inferInstanceAs (Decidable (∀ c ∈ db.candidates, _))

/-- `validate_paired_metadata` over the revisions in scope. -/
def PairedMetadata (scope : List IndexPin) : Prop :=
  db.HeadersContiguous ∧ (∀ pin ∈ scope, db.PairedRevision pin) ∧ db.CandidatesPending
    ∧ (∀ pin ∈ scope, db.MarkersMatch pin)
    ∧ ∀ h ∈ db.headers, h.pin = db.current →
      h.graphStats = db.metadata.stats ∧ h.graphDiagnostics = db.metadata.diagnostics

instance (scope : List IndexPin) : Decidable (db.PairedMetadata scope) :=
  inferInstanceAs (Decidable (_ ∧ _))

/-- `PairedManifestScope::Full`: every revision. -/
def fullScope : List IndexPin := db.headers.map (·.pin)

/-- `PairedManifestScope::Changing`: the head, its predecessor and what is being
released. -/
def changingScope : List IndexPin :=
  db.current
    :: (if 1 < db.current.indexRevision then
          [⟨db.current.indexGeneration, db.current.indexRevision - 1⟩] else [])
    ++ (db.supersessions.filter fun s => s.state = .pending).map (·.revision) ++ db.debt

end Database

end Baleyg.Store
