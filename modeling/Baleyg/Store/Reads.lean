/-
Reads at a pin.

A read names a pin, or takes the head's, and is refused unless the pin belongs to
the head's generation, is no later than the head, has a header and carries neither
release marker.  What it then returns is found from the pin alone: the header, the
inputs, the manifest, and for each manifest row the three parents it selects with
their child rows.  `Evidence` is all of that, so every read built on
`read_revision_for` is a function of it.
-/
import Baleyg.Store.Publication

namespace Baleyg.Store

open Fallible

/-- A parent a manifest row selects, with its child rows. -/
structure SelectedParent where
  parent : Option Parent
  children : List ChildRow
  deriving DecidableEq, Repr

structure DocumentEvidence where
  row : ManifestRow
  selected : List SelectedParent
  deriving DecidableEq, Repr

structure Evidence where
  header : Option RevisionHeader
  inputs : List CaptureInput
  documents : List DocumentEvidence
  deriving DecidableEq, Repr

namespace Database

variable (db : Database)

def selectedAt (k : ParentKey) : SelectedParent where
  parent := db.parents.find? fun p => p.key = k
  children := db.childrenOf k

def documentAt (m : ManifestRow) : DocumentEvidence where
  row := m
  selected := m.selects.map db.selectedAt

def evidence (pin : IndexPin) : Evidence where
  header := db.headerOf pin
  inputs := db.inputsOf pin
  documents := (db.manifestOf pin).map db.documentAt

end Database

def readRevisionFor (o : Outside) (db : Database) (expected : Option IndexPin) :
    Except Failure IndexPin := do
  ensure (o.permits .admission = true) (Failure.stopped .admission)
  ensure (0 < db.current.indexRevision) (Failure.message "index_not_ready: reindex required")
  let pin := expected.getD db.current
  ensure (pin.indexGeneration = db.current.indexGeneration ∧ 0 < pin.indexRevision
      ∧ pin.indexRevision ≤ db.current.indexRevision)
    (Failure.message "revision conflict: foreign or missing native pin")
  ensure (db.Headed pin) (Failure.message "revision conflict: missing native pin")
  ensure (¬ db.Released pin) Failure.pinExpired
  pure pin

/-- A read at a pin: whatever it returns, it finds it in the pin's evidence. -/
def nativeAt {α : Type} (o : Outside) (db : Database) (pin : IndexPin)
    (read : Evidence → Except Failure α) : Except Failure α := do
  let selected ← readRevisionFor o db (some pin)
  read (db.evidence selected)

end Baleyg.Store
