/-
Publication: bundles, and the manifest that names one.

A bundle is three files in a directory named by what is in them.  Whoever generates a fixture
writes the files into a directory of its own, renames that directory into place, writes the
manifest beside it and renames it last.  Nobody locks anything: two that generate the same
fixture find each other's bundle and read it, and what they read is compared byte by byte.

A process is where it stands, and every file operation is a step.  A file that is being written
has some of its bytes; a process may fail at any operation, and be gone at any point.
-/
import Mathlib.Algebra.BigOperators.Group.List.Basic
import Baleyg.Lib.Runs
import Baleyg.Contract.Agree

namespace Baleyg.Contract.Publish

abbrev Bytes := List UInt8

/-! ### What is published -/

/-- `names`. -/
inductive Name where
  | records
  | answers
  | counts
  deriving DecidableEq, Repr

namespace Name

def text : Name → String
  | records => "records"
  | answers => "answers"
  | counts => "counts"

def all : List Name := [records, answers, counts]

theorem mem_all (name : Name) : name ∈ all := by cases name <;> decide

end Name

structure Descriptor where
  path : String
  hash : String
  deriving DecidableEq, Repr

namespace Descriptor

def json (d : Descriptor) : Native.Value :=
  .object [("path", .string d.path), ("hash", .string d.hash)]

end Descriptor

structure Manifest where
  language : String
  profile : String
  inputHash : String
  bundleHash : String
  file : Name → Descriptor

namespace Manifest

def json (m : Manifest) : Native.Value := .object
  [("formatVersion", .number 1), ("contractVersion", .number 1),
    ("warningsVersion", .string "warnings-v1"), ("language", .string m.language),
    ("profile", .string m.profile), ("inputHash", .string m.inputHash),
    ("bundleHash", .string m.bundleHash), ("records", (m.file .records).json),
    ("answers", (m.file .answers).json), ("counts", (m.file .counts).json)]

def bytes (m : Manifest) : Bytes := Utf.utf8 m.json.canonical

end Manifest

/-- What `compileFixture` makes of the inputs it found. -/
structure Built where
  language : String
  profile : String
  inputHash : String
  bytes : Name → Bytes

section Hashes

variable (hash : Bytes → String)

namespace Built

/-- `BundleDigestInput`. -/
def digestInput (b : Built) : Native.Value := .object
  [("recordsHash", .string (hash (b.bytes .records))),
    ("answersHash", .string (hash (b.bytes .answers))),
    ("countsHash", .string (hash (b.bytes .counts))), ("inputHash", .string b.inputHash)]

def bundleHash (b : Built) : String := hash (Utf.utf8 (b.digestInput hash).canonical)

def manifest (b : Built) : Manifest where
  language := b.language
  profile := b.profile
  inputHash := b.inputHash
  bundleHash := b.bundleHash hash
  file name := ⟨"bundles/" ++ b.bundleHash hash ++ "/" ++ name.text ++ ".json",
    hash (b.bytes name)⟩

end Built

end Hashes

/-! ### The file system -/

structure Dir where
  file : Name → Option Bytes

namespace Dir

def empty : Dir := ⟨fun _ => none⟩

def put (d : Dir) (name : Name) (bytes : Bytes) : Dir :=
  ⟨fun n => if n = name then some bytes else d.file n⟩

def Filled (d : Dir) : Prop := ∃ name bytes, d.file name = some bytes

/-- The three files are what was built. -/
def Holds (d : Dir) (b : Built) : Prop := ∀ name, d.file name = some (b.bytes name)

theorem Holds.filled {d : Dir} {b : Built} (h : d.Holds b) : d.Filled := ⟨.records, _, h .records⟩

end Dir

/-- A directory that `mkdtemp` made. -/
structure Temporary where
  bundle : Option Dir
  manifest : Option Bytes

/-- Where a process stands in `generateFixture`. -/
inductive Point where
  | idle
  | compiled (b : Built)
  | rooted (b : Built)
  | prepared (b : Built) (t : Nat)
  /-- Files of an installed bundle are still to be compared. -/
  | verifying (b : Built) (t : Nat) (todo : List Name)
  /-- Files are still to be written, the first one being written. -/
  | staging (b : Built) (t : Nat) (todo : List Name)
  | staged (b : Built) (t : Nat)
  | bundled (b : Built) (t : Nat)
  /-- The manifest is being written. -/
  | writing (b : Built) (t : Nat)
  | ready (b : Built) (t : Nat)
  | published (b : Built) (t : Nat)
  /-- An operation failed, and what is temporary is still to be removed. -/
  | failing (t : Nat)
  | returned (b : Built)
  | failed
  | crashed (past : Bool)

namespace Point

def temporary : Point → Option Nat
  | prepared _ t | verifying _ t _ | staging _ t _ | staged _ t | bundled _ t | writing _ t
  | ready _ t | published _ t | failing t => some t
  | _ => none

def hasPublished : Point → Bool
  | published _ _ | returned _ => true
  | crashed past => past
  | _ => false

def running : Point → Bool
  | idle | returned _ | failed | crashed _ => false
  | _ => true

end Point

inductive Reader where
  | idle
  /-- It has the manifest, and these files are still to be read. -/
  | opened (m : Manifest) (todo : List Name)
  | done (m : Manifest)
  /-- A file that the manifest names is not there, or has another hash. -/
  | failed

structure State where
  manifest : Option Bytes
  /-- The directories under `bundles`, by name. -/
  bundles : String → Option Dir
  temporaries : Nat → Option Temporary
  runs : Nat → Point
  readers : Nat → Reader

namespace State

def goTo (s : State) (p : Nat) (point : Point) : State :=
  { s with runs := fun q => if q = p then point else s.runs q }

def putTemporary (s : State) (t : Nat) (temporary : Option Temporary) : State :=
  { s with temporaries := fun u => if u = t then temporary else s.temporaries u }

def install (s : State) (name : String) (d : Dir) : State :=
  { s with bundles := fun h => if h = name then some d else s.bundles h }

def putManifest (s : State) (bytes : Bytes) : State := { s with manifest := some bytes }

def setReader (s : State) (r : Nat) (reader : Reader) : State :=
  { s with readers := fun q => if q = r then reader else s.readers q }

end State

namespace State

variable {s : State} {p q t u : Nat} {point : Point} {temporary : Option Temporary}

@[simp] theorem goTo_runs : (s.goTo p point).runs p = point := if_pos rfl

theorem goTo_of_eq (h : s.runs p = point) : s.goTo p point = s := by
  have hruns : (fun q => if q = p then point else s.runs q) = s.runs := funext fun q => by
    by_cases hq : q = p
    · rw [if_pos hq, hq, h]
    · rw [if_neg hq]
  unfold goTo
  rw [hruns]

theorem goTo_runs_of_ne (h : q ≠ p) : (s.goTo p point).runs q = s.runs q := if_neg h

@[simp] theorem putTemporary_temporaries : (s.putTemporary t temporary).temporaries t = temporary :=
  if_pos rfl

theorem putTemporary_of_ne (h : u ≠ t) :
    (s.putTemporary t temporary).temporaries u = s.temporaries u := if_neg h

end State

/-! ### Steps -/

inductive Who where
  | run (p : Nat)
  | reader (r : Nat)
  deriving DecidableEq

section Steps

variable (hash : Bytes → String)

/-- One file operation of a process, one read of a reader, or the end of a process. -/
inductive Step : State → Who → State → Prop where
  /-- `compileFixture` returns; it may find any inputs. -/
  | compile {s : State} {p : Nat} (b : Built) (hp : s.runs p = .idle) :
      Step s (.run p) (s.goTo p (.compiled b))
  /-- `mkdir` of the bundles. -/
  | root {s : State} {p : Nat} {b : Built} (hp : s.runs p = .compiled b) :
      Step s (.run p) (s.goTo p (.rooted b))
  /-- `mkdtemp`, which makes a directory that was not there. -/
  | prepare {s : State} {p : Nat} {b : Built} (t : Nat) (hp : s.runs p = .rooted b)
      (ht : s.temporaries t = none) :
      Step s (.run p) ((s.putTemporary t (some ⟨none, none⟩)).goTo p (.prepared b t))
  | find {s : State} {p t : Nat} {b : Built} {d : Dir} (hp : s.runs p = .prepared b t)
      (hd : s.bundles (b.bundleHash hash) = some d) :
      Step s (.run p) (s.goTo p (.verifying b t Name.all))
  | stage {s : State} {p t : Nat} {b : Built} {temp : Temporary} (hp : s.runs p = .prepared b t)
      (hd : s.bundles (b.bundleHash hash) = none) (ht : s.temporaries t = some temp) :
      Step s (.run p) ((s.putTemporary t (some { temp with bundle := some Dir.empty })).goTo p
        (.staging b t Name.all))
  | write {s : State} {p t : Nat} {b : Built} {temp : Temporary} {d : Dir} {name : Name}
      {todo : List Name} (n : Nat) (hp : s.runs p = .staging b t (name :: todo))
      (ht : s.temporaries t = some temp) (hd : temp.bundle = some d) :
      Step s (.run p)
        (s.putTemporary t (some { temp with bundle := some (d.put name ((b.bytes name).take n)) }))
  | close {s : State} {p t : Nat} {b : Built} {temp : Temporary} {d : Dir} {name : Name}
      {todo : List Name} (hp : s.runs p = .staging b t (name :: todo))
      (ht : s.temporaries t = some temp) (hd : temp.bundle = some d) :
      Step s (.run p)
        ((s.putTemporary t (some { temp with bundle := some (d.put name (b.bytes name)) })).goTo p
          (if todo = [] then .staged b t else .staging b t todo))
  /-- `rename` of the bundle, where there is none or an empty directory. -/
  | rename {s : State} {p t : Nat} {b : Built} {temp : Temporary} {d : Dir}
      (hp : s.runs p = .staged b t) (ht : s.temporaries t = some temp)
      (hd : temp.bundle = some d)
      (hfinal : ∀ d', s.bundles (b.bundleHash hash) = some d' → ¬ d'.Filled) :
      Step s (.run p) (((s.install (b.bundleHash hash) d).putTemporary t
        (some { temp with bundle := none })).goTo p (.bundled b t))
  /-- `ENOTEMPTY`, or `EEXIST`. -/
  | refuse {s : State} {p t : Nat} {b : Built} {d : Dir} (hp : s.runs p = .staged b t)
      (hfinal : s.bundles (b.bundleHash hash) = some d) (hd : d.Filled) :
      Step s (.run p) (s.goTo p (.verifying b t Name.all))
  | compare {s : State} {p t : Nat} {b : Built} {d : Dir} {name : Name} {todo : List Name}
      (hp : s.runs p = .verifying b t (name :: todo))
      (hd : s.bundles (b.bundleHash hash) = some d) (hfile : d.file name = some (b.bytes name)) :
      Step s (.run p) (s.goTo p (if todo = [] then .bundled b t else .verifying b t todo))
  | draft {s : State} {p t : Nat} {b : Built} {temp : Temporary} (n : Nat)
      (hp : s.runs p = .bundled b t ∨ s.runs p = .writing b t)
      (ht : s.temporaries t = some temp) :
      Step s (.run p) ((s.putTemporary t
        (some { temp with manifest := some ((b.manifest hash).bytes.take n) })).goTo p
          (.writing b t))
  | drafted {s : State} {p t : Nat} {b : Built} {temp : Temporary}
      (hp : s.runs p = .bundled b t ∨ s.runs p = .writing b t)
      (ht : s.temporaries t = some temp) :
      Step s (.run p) ((s.putTemporary t
        (some { temp with manifest := some (b.manifest hash).bytes })).goTo p (.ready b t))
  /-- `rename` of the manifest, the last one. -/
  | publish {s : State} {p t : Nat} {b : Built} {temp : Temporary} {bytes : Bytes}
      (hp : s.runs p = .ready b t) (ht : s.temporaries t = some temp)
      (hbytes : temp.manifest = some bytes) :
      Step s (.run p) (((s.putManifest bytes).putTemporary t
        (some { temp with manifest := none })).goTo p (.published b t))
  /-- An operation fails: a comparison, or whatever the file system refuses. -/
  | fail {s : State} {p t : Nat} (hp : (s.runs p).temporary = some t)
      (hrunning : (s.runs p).hasPublished = false) : Step s (.run p) (s.goTo p (.failing t))
  /-- An operation fails before there is anything temporary. -/
  | failEarly {s : State} {p : Nat} (hp : (s.runs p).running = true)
      (ht : (s.runs p).temporary = none) : Step s (.run p) (s.goTo p .failed)
  /-- `rm` removes some of what is temporary. -/
  | prune {s : State} {p t : Nat} {b : Built} (left : Temporary)
      (hp : s.runs p = .published b t ∨ s.runs p = .failing t) :
      Step s (.run p) (s.putTemporary t (some left))
  /-- `rm` is done, and the process returns. -/
  | finish {s : State} {p t : Nat} {b : Built} (hp : s.runs p = .published b t) :
      Step s (.run p) ((s.putTemporary t none).goTo p (.returned b))
  /-- `rm` is done, and the process raises. -/
  | raise {s : State} {p t : Nat} (hp : s.runs p = .failing t) :
      Step s (.run p) ((s.putTemporary t none).goTo p .failed)
  /-- The process is gone, or `rm` raises, and what is temporary is left. -/
  | crash {s : State} {p : Nat} (hp : (s.runs p).running = true) :
      Step s (.run p) (s.goTo p (.crashed (s.runs p).hasPublished))
  | openManifest {s : State} {r : Nat} (m : Manifest) (hm : s.manifest = some m.bytes) :
      Step s (.reader r) (s.setReader r (.opened m Name.all))
  /-- It reads a file, which has the hash the manifest says. -/
  | readFile {s : State} {r : Nat} {m : Manifest} {name : Name} {todo : List Name} {d : Dir}
      {bytes : Bytes} (hr : s.readers r = .opened m (name :: todo))
      (hd : s.bundles m.bundleHash = some d) (hfile : d.file name = some bytes)
      (hhash : hash bytes = (m.file name).hash) :
      Step s (.reader r) (s.setReader r (if todo = [] then .done m else .opened m todo))
  | readFails {s : State} {r : Nat} {m : Manifest} {name : Name} {todo : List Name}
      (hr : s.readers r = .opened m (name :: todo))
      (hfile : ∀ d bytes, s.bundles m.bundleHash = some d → d.file name = some bytes →
        hash bytes ≠ (m.file name).hash) :
      Step s (.reader r) (s.setReader r .failed)

end Steps

/-! ### The manifest's bytes tell manifests apart -/

theorem Descriptor.json_inj {a b : Descriptor} (h : a.json.sorted = b.json.sorted) : a = b := by
  have hvalues := Native.Value.object_inj ["path", "hash"] (by decide) rfl rfl h
  simp only [List.map_cons, List.map_nil, Native.Value.sorted_string, List.cons.injEq,
    Native.Value.string.injEq, and_true] at hvalues
  cases a
  cases b
  simp only [Descriptor.mk.injEq]
  exact hvalues

theorem Manifest.bytes_inj {a b : Manifest} (h : a.bytes = b.bytes) : a = b := by
  have hdecode := Utf.decode8_utf8 a.json.canonical
  rw [show Utf.utf8 a.json.canonical = Utf.utf8 b.json.canonical from h, Utf.decode8_utf8] at hdecode
  have hsorted := Native.Value.canonical_inj (Option.some.inj hdecode).symm
  have hvalues := Native.Value.object_inj ["formatVersion", "contractVersion", "warningsVersion",
    "language", "profile", "inputHash", "bundleHash", "records", "answers", "counts"] (by decide)
    rfl rfl hsorted
  simp only [List.map_cons, List.map_nil, Native.Value.sorted_string, List.cons.injEq,
    Native.Value.string.injEq, and_true, true_and] at hvalues
  obtain ⟨hlanguage, hprofile, hinput, hbundle, hrecords, hanswers, hcounts⟩ := hvalues
  cases a
  cases b
  simp only [Manifest.mk.injEq]
  refine ⟨hlanguage, hprofile, hinput, hbundle, funext fun name => ?_⟩
  cases name
  · exact Descriptor.json_inj hrecords
  · exact Descriptor.json_inj hanswers
  · exact Descriptor.json_inj hcounts

/-! ### What holds between two operations

A directory with files in it is never written under its final name, and what is
temporary is of one process.
-/

section Invariant

variable (hash : Bytes → String)

def Installed (s : State) (b : Built) : Prop :=
  ∃ d, s.bundles (b.bundleHash hash) = some d ∧ d.Holds b

def Fits (s : State) : Point → Prop
  | .verifying b _ todo => ∀ name ∉ todo, ∃ d, s.bundles (b.bundleHash hash) = some d ∧
      d.file name = some (b.bytes name)
  | .staging b t todo => ∃ temp d, s.temporaries t = some temp ∧ temp.bundle = some d ∧
      ∀ name ∉ todo, d.file name = some (b.bytes name)
  | .staged b t => ∃ temp d, s.temporaries t = some temp ∧ temp.bundle = some d ∧ d.Holds b
  | .bundled b _ => Installed hash s b
  | .writing b _ => Installed hash s b
  | .ready b t => Installed hash s b ∧ ∃ temp, s.temporaries t = some temp ∧
      temp.manifest = some (b.manifest hash).bytes
  | _ => True

def Suits (s : State) : Reader → Prop
  | .idle => True
  | .opened m _ => ∃ b : Built, m = b.manifest hash ∧ Installed hash s b
  | .done m => ∃ b : Built, m = b.manifest hash ∧ Installed hash s b
  | .failed => False

/-- **What holds in every state.** -/
structure Sound (s : State) : Prop where
  manifest : ∀ bytes, s.manifest = some bytes →
    ∃ b : Built, bytes = (b.manifest hash).bytes ∧ Installed hash s b
  runs : ∀ p, Fits hash s (s.runs p)
  apart : ∀ p q t, (s.runs p).temporary = some t → (s.runs q).temporary = some t → p = q
  temporaries : ∀ p t, (s.runs p).temporary = some t → s.temporaries t ≠ none
  readers : ∀ r, Suits hash s (s.readers r)

end Invariant

def Kept (s s' : State) : Prop :=
  ∀ name d, s.bundles name = some d → d.Filled → s'.bundles name = some d

theorem Kept.of_eq {s s' : State} (h : s'.bundles = s.bundles) : Kept s s' := fun _ _ hd _ =>
  h ▸ hd

section Frame

variable {hash : Bytes → String} {s s' : State}

theorem Installed.kept {b : Built} (h : Installed hash s b) (hkept : Kept s s') :
    Installed hash s' b := by
  obtain ⟨d, hd, hholds⟩ := h
  exact ⟨d, hkept _ d hd hholds.filled, hholds⟩

theorem Fits.frame {point : Point} (h : Fits hash s point) (hkept : Kept s s')
    (htemp : ∀ t, point.temporary = some t → s'.temporaries t = s.temporaries t) :
    Fits hash s' point := by
  cases point with
  | verifying b t todo =>
      intro name hname
      obtain ⟨d, hd, hfile⟩ := h name hname
      exact ⟨d, hkept _ d hd ⟨name, _, hfile⟩, hfile⟩
  | staging b t todo =>
      obtain ⟨temp, d, htemp', hd, hfiles⟩ := h
      exact ⟨temp, d, (htemp t rfl).trans htemp', hd, hfiles⟩
  | staged b t =>
      obtain ⟨temp, d, htemp', hd, hholds⟩ := h
      exact ⟨temp, d, (htemp t rfl).trans htemp', hd, hholds⟩
  | bundled | writing => exact h.kept hkept
  | ready b t =>
      obtain ⟨hinstalled, temp, htemp', hmanifest⟩ := h
      exact ⟨hinstalled.kept hkept, temp, (htemp t rfl).trans htemp', hmanifest⟩
  | _ => trivial

theorem Suits.kept {reader : Reader} (h : Suits hash s reader) (hkept : Kept s s') :
    Suits hash s' reader := by
  cases reader with
  | idle => trivial
  | opened | done =>
      obtain ⟨b, hm, hinstalled⟩ := h
      exact ⟨b, hm, hinstalled.kept hkept⟩
  | failed => exact h

/-- **A step of one process**: what it must bring, and what it must leave alone. -/
theorem Sound.advance (h : Sound hash s) (p : Nat) (hkept : Kept s s')
    (hmanifest : s'.manifest = s.manifest ∨ ∃ b : Built,
      s'.manifest = some (b.manifest hash).bytes ∧ Installed hash s' b)
    (hruns : ∀ q, q ≠ p → s'.runs q = s.runs q) (hreaders : s'.readers = s.readers)
    (hothers : ∀ q t, q ≠ p → (s.runs q).temporary = some t →
      s'.temporaries t = s.temporaries t ∧ (s'.runs p).temporary ≠ some t)
    (hfits : Fits hash s' (s'.runs p))
    (hown : ∀ t, (s'.runs p).temporary = some t → s'.temporaries t ≠ none) : Sound hash s' where
  manifest bytes hbytes := by
    rcases hmanifest with heq | ⟨b, hb, hinstalled⟩
    · obtain ⟨b, hb, hinstalled⟩ := h.manifest bytes (heq ▸ hbytes)
      exact ⟨b, hb, hinstalled.kept hkept⟩
    · exact ⟨b, Option.some.inj (hbytes.symm.trans hb), hinstalled⟩
  runs q := by
    by_cases hq : q = p
    · exact hq ▸ hfits
    · rw [hruns q hq]; exact (h.runs q).frame hkept fun t ht => (hothers q t hq ht).1
  apart q q' t hq hq' := by
    by_cases hqp : q = p
    · by_cases hqp' : q' = p
      · rw [hqp, hqp']
      · subst hqp
        rw [hruns q' hqp'] at hq'
        exact absurd hq (hothers q' t hqp' hq').2
    · rw [hruns q hqp] at hq
      by_cases hqp' : q' = p
      · subst hqp'
        exact absurd hq' (hothers q t hqp hq).2
      · rw [hruns q' hqp'] at hq'
        exact h.apart q q' t hq hq'
  temporaries q t hq := by
    by_cases hqp : q = p
    · subst hqp; exact hown t hq
    · rw [hruns q hqp] at hq
      rw [(hothers q t hqp hq).1]
      exact h.temporaries q t hq
  readers r := by
    rw [hreaders]
    exact (h.readers r).kept hkept

/-- A process that stays with its temporary directory, or leaves it, disturbs nobody. -/
theorem Sound.leaves (h : Sound hash s) (s' : State) {p : Nat} {point : Point} {t : Nat}
    (hp : (s.runs p).temporary = some t)
    (hpoint : point.temporary = some t ∨ point.temporary = none)
    (htemp : ∀ u, u ≠ t → s'.temporaries u = s.temporaries u) :
    ∀ q u, q ≠ p → (s.runs q).temporary = some u →
      s'.temporaries u = s.temporaries u ∧ point.temporary ≠ some u := by
  intro q u hq hu
  have hne : u ≠ t := fun heq => hq (h.apart q p t (heq ▸ hu) hp)
  refine ⟨htemp u hne, fun hcontra => ?_⟩
  rcases hpoint with hpoint | hpoint
  · exact hne (Option.some.inj (hcontra.symm.trans hpoint))
  · rw [hpoint] at hcontra; cases hcontra

end Frame

section StepSound

variable {hash : Bytes → String} {s s' : State}

variable {p t : Nat} {point : Point} {temp : Temporary}

theorem Sound.goTo (h : Sound hash s) (hfits : Fits hash (s.goTo p point) point)
    (htemp : point.temporary = (s.runs p).temporary ∨ point.temporary = none) :
    Sound hash (s.goTo p point) := by
  have hsame : ∀ t, point.temporary = some t → (s.runs p).temporary = some t := fun t ht => by
    rcases htemp with heq | hnone
    · rw [← heq, ht]
    · rw [hnone] at ht; cases ht
  refine h.advance p (.of_eq rfl) (.inl rfl) (fun q hq => State.goTo_runs_of_ne hq) rfl
    (fun q t hq ht => ⟨rfl, fun hp => ?_⟩) ?_ fun t hp => ?_
  · rw [State.goTo_runs] at hp; exact hq (h.apart q p t ht (hsame t hp))
  · rw [State.goTo_runs]; exact hfits
  · rw [State.goTo_runs] at hp; exact h.temporaries p t (hsame t hp)

/-- A process works in its temporary directory, or leaves it; what it does elsewhere keeps
what is whole. -/
theorem Sound.acts (h : Sound hash s) {s₁ : State} {left : Option Temporary}
    (hp : (s.runs p).temporary = some t)
    (hpoint : point.temporary = some t ∧ left ≠ none ∨ point.temporary = none)
    (hruns : s₁.runs = s.runs) (hreaders : s₁.readers = s.readers)
    (htemps : s₁.temporaries = s.temporaries) (hkept : Kept s s₁)
    (hmanifest : s₁.manifest = s.manifest ∨ ∃ b : Built,
      s₁.manifest = some (b.manifest hash).bytes ∧ Installed hash s₁ b)
    (hfits : Fits hash ((s₁.putTemporary t left).goTo p point) point) :
    Sound hash ((s₁.putTemporary t left).goTo p point) := by
  have hleaves := h.leaves (s₁.putTemporary t left) hp (hpoint.imp And.left id) fun u hu =>
    (State.putTemporary_of_ne hu).trans (congrFun htemps u)
  refine h.advance p hkept hmanifest
    (fun q hq => (State.goTo_runs_of_ne hq).trans (congrFun hruns q)) hreaders
    (fun q u hq hu => ?_) ?_ fun u hu => ?_
  · rw [State.goTo_runs]; exact hleaves q u hq hu
  · rw [State.goTo_runs]; exact hfits
  · rw [State.goTo_runs] at hu
    rcases hpoint with ⟨hsome, hleft⟩ | hnone
    · rw [hsome] at hu
      cases hu
      show (s₁.putTemporary t left).temporaries t ≠ none
      rw [State.putTemporary_temporaries]
      exact hleft
    · rw [hnone] at hu; cases hu

theorem Sound.works (h : Sound hash s) (hp : (s.runs p).temporary = some t)
    (hpoint : point.temporary = some t)
    (hfits : Fits hash ((s.putTemporary t (some temp)).goTo p point) point) :
    Sound hash ((s.putTemporary t (some temp)).goTo p point) :=
  h.acts hp (.inl ⟨hpoint, Option.some_ne_none _⟩) rfl rfl rfl (.of_eq rfl) (.inl rfl) hfits

theorem Sound.ends (h : Sound hash s) (hp : (s.runs p).temporary = some t)
    (hpoint : point.temporary = none)
    (hfits : Fits hash ((s.putTemporary t none).goTo p point) point) :
    Sound hash ((s.putTemporary t none).goTo p point) :=
  h.acts hp (.inr hpoint) rfl rfl rfl (.of_eq rfl) (.inl rfl) hfits

theorem temporary_of_eq (h : s.runs p = point) :
    (s.runs p).temporary = point.temporary := congrArg Point.temporary h

theorem Sound.reads (h : Sound hash s) {r : Nat} {reader : Reader}
    (hreader : Suits hash s reader) : Sound hash (s.setReader r reader) where
  manifest := h.manifest
  runs p := (h.runs p).frame (show Kept s (s.setReader r reader) from .of_eq rfl) fun _ _ => rfl
  apart := h.apart
  temporaries := h.temporaries
  readers q := by
    have hkept : Kept s (s.setReader r reader) := .of_eq rfl
    show Suits hash _ (if q = r then reader else s.readers q)
    split
    · exact hreader.kept hkept
    · exact (h.readers q).kept hkept

theorem Sound.renamed (h : Sound hash s) {b : Built} {d : Dir} (hp : s.runs p = .staged b t)
    (ht : s.temporaries t = some temp) (hd : temp.bundle = some d)
    (hfinal : ∀ d', s.bundles (b.bundleHash hash) = some d' → ¬ d'.Filled) :
    Sound hash (((s.install (b.bundleHash hash) d).putTemporary t
      (some { temp with bundle := none })).goTo p (.bundled b t)) := by
  have hfits := h.runs p
  rw [hp] at hfits
  obtain ⟨temp', d', ht', hd', hholds⟩ := hfits
  obtain rfl := Option.some.inj (ht.symm.trans ht')
  obtain rfl := Option.some.inj (hd.symm.trans hd')
  have hkept : Kept s (s.install (b.bundleHash hash) d) := fun name d' hd' hfilled => by
    have hne : name ≠ b.bundleHash hash := fun heq => hfinal d' (by rw [← heq]; exact hd') hfilled
    exact (if_neg hne).trans hd'
  exact h.acts (temporary_of_eq hp) (.inl ⟨rfl, Option.some_ne_none _⟩) rfl rfl rfl hkept (.inl rfl)
    ⟨d, if_pos rfl, hholds⟩

theorem Sound.publishes (h : Sound hash s) {b : Built} {bytes : Bytes} (hp : s.runs p = .ready b t)
    (ht : s.temporaries t = some temp) (hbytes : temp.manifest = some bytes) :
    Sound hash (((s.putManifest bytes).putTemporary t
      (some { temp with manifest := none })).goTo p (.published b t)) := by
  have hfits := h.runs p
  rw [hp] at hfits
  obtain ⟨hinstalled, temp', ht', hmanifest⟩ := hfits
  obtain rfl := Option.some.inj (ht.symm.trans ht')
  obtain rfl := Option.some.inj (hbytes.symm.trans hmanifest)
  exact h.acts (temporary_of_eq hp) (.inl ⟨rfl, Option.some_ne_none _⟩) rfl rfl rfl (.of_eq rfl)
    (.inr ⟨b, rfl, hinstalled.kept (.of_eq rfl)⟩) trivial

theorem Sound.prepares (h : Sound hash s) {b : Built} (ht : s.temporaries t = none) :
    Sound hash ((s.putTemporary t (some temp)).goTo p (.prepared b t)) := by
  refine h.advance p (.of_eq rfl) (.inl rfl) (fun q hq => State.goTo_runs_of_ne hq) rfl
    (fun q u hq hu => ?_) ?_ fun u hu => ?_
  · have hne : u ≠ t := fun heq => h.temporaries q u hu (heq ▸ ht)
    rw [State.goTo_runs]
    exact ⟨State.putTemporary_of_ne hne, fun heq => hne (Option.some.inj heq).symm⟩
  · rw [State.goTo_runs]; trivial
  · rw [State.goTo_runs] at hu
    cases hu
    show (s.putTemporary t _).temporaries t ≠ none
    rw [State.putTemporary_temporaries]
    exact Option.some_ne_none _

section Files

variable {b : Built} {d : Dir} {name : Name} {todo : List Name}

/-- Of the files that are still to be written or read, one less. -/
theorem left_of_not_mem (name n : Name) (hn : n ∉ todo) : n = name ∨ n ∉ name :: todo := by
  by_cases heq : n = name
  · exact .inl heq
  · exact .inr fun hmem => (List.mem_cons.mp hmem).elim heq hn

theorem Sound.written (h : Sound hash s) (hp : s.runs p = .staging b t todo)
    (ht : s.temporaries t = some temp) (hd : temp.bundle = some d) :
    ∀ n ∉ todo, d.file n = some (b.bytes n) := by
  have hfits := h.runs p
  rw [hp] at hfits
  obtain ⟨temp', d', ht', hd', hfiles⟩ := hfits
  obtain rfl := Option.some.inj (ht.symm.trans ht')
  obtain rfl := Option.some.inj (hd.symm.trans hd')
  exact hfiles

/-- The files that were read are what was built, and so is the one that is read now. -/
theorem Sound.compares (h : Sound hash s) (hp : s.runs p = .verifying b t (name :: todo))
    (hd : s.bundles (b.bundleHash hash) = some d) (hfile : d.file name = some (b.bytes name)) :
    ∀ n ∉ todo, d.file n = some (b.bytes n) := by
  intro n hn
  rcases left_of_not_mem name n hn with rfl | hleft
  · exact hfile
  · have hfits := h.runs p
    rw [hp] at hfits
    obtain ⟨d', hd', hfile'⟩ := hfits n hleft
    obtain rfl := Option.some.inj (hd.symm.trans hd')
    exact hfile'

theorem Sound.drafting (h : Sound hash s)
    (hp : s.runs p = .bundled b t ∨ s.runs p = .writing b t) :
    Installed hash s b ∧ (s.runs p).temporary = some t := by
  have hfits := h.runs p
  rcases hp with hp | hp
  · rw [hp] at hfits; exact ⟨hfits, temporary_of_eq hp⟩
  · rw [hp] at hfits; exact ⟨hfits, temporary_of_eq hp⟩

end Files

/-- **Every step keeps what holds.** -/
theorem Sound.step {who : Who} (h : Sound hash s) (hstep : Step hash s who s') :
    Sound hash s' := by
  cases hstep with
  | compile | root | failEarly | crash => exact h.goTo trivial (.inr rfl)
  | prepare t hp ht => exact h.prepares ht
  | @find p t b d hp hd | refuse hp hfinal hd =>
      refine h.goTo (fun name hname => absurd (Name.mem_all name) hname) (.inl ?_)
      exact (temporary_of_eq hp).symm
  | stage hp hd ht =>
      exact h.works (temporary_of_eq hp) rfl ⟨_, _, State.putTemporary_temporaries, rfl,
        fun name hname => absurd (Name.mem_all name) hname⟩
  | @write p t b temp d name todo n hp ht hd =>
      have hstay : (s.putTemporary t (some { temp with
          bundle := some (d.put name ((b.bytes name).take n)) })).runs p =
            .staging b t (name :: todo) := hp
      rw [← State.goTo_of_eq hstay]
      refine h.works (temporary_of_eq hp) rfl
        ⟨_, _, State.putTemporary_temporaries, rfl, fun n' hn' => ?_⟩
      have hne : n' ≠ name := fun heq => hn' (heq ▸ List.mem_cons_self)
      exact (if_neg hne).trans (h.written hp ht hd n' hn')
  | @close p t b temp d name todo hp ht hd =>
      have hput : ∀ n ∉ todo, (d.put name (b.bytes name)).file n = some (b.bytes n) := by
        intro n hn
        by_cases heq : n = name
        · subst heq; exact if_pos rfl
        · exact (if_neg heq).trans
            (h.written hp ht hd n ((left_of_not_mem name n hn).resolve_left heq))
      split
      · rename_i hnil
        refine h.works (temporary_of_eq hp) rfl ⟨_, _, State.putTemporary_temporaries, rfl, ?_⟩
        exact fun n => hput n (hnil ▸ List.not_mem_nil)
      · exact h.works (temporary_of_eq hp) rfl ⟨_, _, State.putTemporary_temporaries, rfl, hput⟩
  | rename hp ht hd hfinal => exact h.renamed hp ht hd hfinal
  | @compare p t b d name todo hp hd hfile =>
      have hfiles := h.compares hp hd hfile
      split
      · rename_i hnil
        exact h.goTo ⟨d, hd, fun n => hfiles n (hnil ▸ List.not_mem_nil)⟩
          (.inl (temporary_of_eq hp).symm)
      · exact h.goTo (fun n hn => ⟨d, hd, hfiles n hn⟩) (.inl (temporary_of_eq hp).symm)
  | @draft p t b temp n hp ht =>
      obtain ⟨hinstalled, hown⟩ := h.drafting hp
      exact h.works hown rfl (hinstalled.kept (.of_eq rfl))
  | @drafted p t b temp hp ht =>
      obtain ⟨hinstalled, hown⟩ := h.drafting hp
      exact h.works hown rfl
        ⟨hinstalled.kept (.of_eq rfl), _, State.putTemporary_temporaries, rfl⟩
  | publish hp ht hbytes => exact h.publishes hp ht hbytes
  | fail hp hrunning => exact h.goTo trivial (.inl hp.symm)
  | @prune p t b left hp =>
      rcases hp with hp | hp
      · rw [← State.goTo_of_eq (show (s.putTemporary t (some left)).runs p = .published b t from hp)]
        exact h.works (temporary_of_eq hp) rfl trivial
      · rw [← State.goTo_of_eq (show (s.putTemporary t (some left)).runs p = .failing t from hp)]
        exact h.works (temporary_of_eq hp) rfl trivial
  | finish hp | raise hp => exact h.ends (temporary_of_eq hp) rfl trivial
  | @openManifest r m hm =>
      obtain ⟨b, hb, hinstalled⟩ := h.manifest m.bytes hm
      exact h.reads ⟨b, Manifest.bytes_inj hb, hinstalled⟩
  | @readFile r m name todo d bytes hr hd hfile hhash =>
      have hsuits := h.readers r
      rw [hr] at hsuits
      refine h.reads ?_
      split
      · exact hsuits
      · exact hsuits
  | @readFails r m name todo hr hfile =>
      have hsuits := h.readers r
      rw [hr] at hsuits
      obtain ⟨b, rfl, d, hd, hholds⟩ := hsuits
      exact absurd rfl (hfile d (b.bytes name) hd (hholds name))

end StepSound

/-! ### Runs -/

section Atomic

variable {hash : Bytes → String} {s s' : State}

/-- Nobody is at work, and what is published is whole. -/
structure Initial (hash : Bytes → String) (s : State) : Prop where
  manifest : ∀ bytes, s.manifest = some bytes →
    ∃ b : Built, bytes = (b.manifest hash).bytes ∧ Installed hash s b
  runs : ∀ p, s.runs p = .idle
  readers : ∀ r, s.readers r = .idle

theorem Initial.sound (h : Initial hash s) : Sound hash s where
  manifest := h.manifest
  runs p := by
    rw [h.runs p]
    trivial
  apart p q t hp _ := by
    rw [h.runs p] at hp
    cases hp
  temporaries p t hp := by
    rw [h.runs p] at hp
    cases hp
  readers r := by
    rw [h.readers r]
    trivial

/-- **What is in place stays in place**, after one step. -/
theorem Step.kept {who : Who} (h : Step hash s who s') : Kept s s' := by
  cases h with
  | @rename p t b temp d hp ht hd hfinal =>
      intro name d' hd' hfilled
      have hne : name ≠ b.bundleHash hash := fun heq => hfinal d' (by rw [← heq]; exact hd') hfilled
      exact (if_neg hne).trans hd'
  | _ => exact .of_eq rfl

def Past (who : Who) (s : State) : Prop := ∃ p, who = .run p ∧ (s.runs p).hasPublished = true

theorem Step.past_of_manifest {who : Who} (h : Step hash s who s') (hne : s'.manifest ≠ s.manifest) :
    Past who s' := by
  cases h with
  | @publish p t b temp bytes hp ht hbytes =>
      refine ⟨p, rfl, ?_⟩
      rw [State.goTo_runs]
      rfl
  | _ => exact absurd rfl hne

theorem past_goTo {s₀ : State} {p q : Nat} {point : Point} (hruns : s₀.runs = s.runs)
    (hpoint : (s.runs p).hasPublished = true → point.hasPublished = true)
    (hq : (s.runs q).hasPublished = true) : ((s₀.goTo p point).runs q).hasPublished = true := by
  by_cases heq : q = p
  · subst heq
    rw [State.goTo_runs]
    exact hpoint hq
  · rw [State.goTo_runs_of_ne heq, hruns]; exact hq

theorem hasPublished_of_early {point : Point} (hrunning : point.running = true)
    (htemp : point.temporary = none) : point.hasPublished = false := by
  cases point with
  | published => cases htemp
  | returned | crashed => cases hrunning
  | _ => rfl

theorem absurd_past {p : Nat} {point point' : Point} (hp : s.runs p = point)
    (hpoint : point.hasPublished = false) :
    (s.runs p).hasPublished = true → point'.hasPublished = true := fun h => by
  rw [hp, hpoint] at h
  cases h

theorem Step.past {who who' : Who} (h : Step hash s who s') (hpast : Past who' s) :
    Past who' s' := by
  obtain ⟨q, rfl, hq⟩ := hpast
  refine ⟨q, rfl, ?_⟩
  cases h with
  | compile b hp | root hp | prepare t hp ht | find hp hd | stage hp hd ht | close hp ht hd
  | rename hp ht hd hfinal | refuse hp hfinal hd | compare hp hd hfile | raise hp =>
      exact past_goTo rfl (absurd_past hp rfl) hq
  | write | prune | openManifest | readFile | readFails => exact hq
  | draft n hp ht | drafted hp ht =>
      rcases hp with hp | hp
      · exact past_goTo rfl (absurd_past hp rfl) hq
      · exact past_goTo rfl (absurd_past hp rfl) hq
  | publish | finish => exact past_goTo rfl (fun _ => rfl) hq
  | fail hp hrunning => exact past_goTo rfl (absurd_past rfl hrunning) hq
  | failEarly hp ht => exact past_goTo rfl (absurd_past rfl (hasPublished_of_early hp ht)) hq
  | crash hp => exact past_goTo rfl (fun h => h) hq

def Next (hash : Bytes → String) (s s' : State) : Prop := ∃ who, Step hash s who s'

theorem sound_of_reachable (h : Runs.Reachable (Initial hash) (Next hash) s) : Sound hash s :=
  h.keeps (fun _ h => h.sound) fun _ _ hstep hs => hs.step hstep.choose_spec

theorem kept_run (h : Relation.ReflTransGen (Next hash) s s') : Kept s s' := by
  induction h with
  | refl => exact .of_eq rfl
  | tail _ hlast ih =>
      obtain ⟨who, hlast⟩ := hlast
      exact fun name d hd hfilled => hlast.kept name d (ih name d hd hfilled) hfilled

/-- The manifest is absent, or it names a bundle that is whole and has the hashes it says. -/
def Whole (hash : Bytes → String) (s : State) : Prop :=
  ∀ bytes, s.manifest = some bytes → ∃ (m : Manifest) (d : Dir), bytes = m.bytes ∧
    s.bundles m.bundleHash = some d ∧ ∀ name, ∃ file, d.file name = some file ∧
      (m.file name).hash = hash file ∧
      (m.file name).path = "bundles/" ++ m.bundleHash ++ "/" ++ name.text ++ ".json"

/-- **Publication is atomic.** -/
theorem publication_atomic (hash : Bytes → String) :
    (∀ s, Runs.Reachable (Initial hash) (Next hash) s → Whole hash s ∧
      (∀ r, s.readers r ≠ .failed) ∧
      ∀ s', Relation.ReflTransGen (Next hash) s s' →
        ∀ name d, s.bundles name = some d → d.Filled → s'.bundles name = some d) ∧
    ∀ s₀ steps s, Runs.Trace (Step hash) s₀ steps s → ∀ p, (s.runs p).hasPublished = false →
      ∀ step ∈ steps, step.2.1 = .run p → step.2.2.manifest = step.1.manifest := by
  refine ⟨fun s h => ?_, fun s₀ steps s htrace p hp step hmem hwho => ?_⟩
  · have hsound := sound_of_reachable h
    refine ⟨fun bytes hbytes => ?_, fun r hr => ?_, fun s' hrun => kept_run hrun⟩
    · obtain ⟨b, hb, d, hd, hholds⟩ := hsound.manifest bytes hbytes
      exact ⟨b.manifest hash, d, hb, hd, fun name => ⟨b.bytes name, hholds name, rfl, rfl⟩⟩
    · have hsuits := hsound.readers r
      rw [hr] at hsuits
      exact hsuits
  · by_contra hne
    have hpast := htrace.stays (F := Past (.run p))
      (P := fun step => step.2.1 = .run p ∧ step.2.2.manifest ≠ step.1.manifest)
      (fun _ _ _ hstep hF => hstep.past hF)
      (fun _ _ _ hstep hP => by
        obtain ⟨hwho, hne⟩ := hP
        rw [← hwho]
        exact hstep.past_of_manifest hne) step hmem ⟨hwho, hne⟩
    obtain ⟨q, hq, hpast⟩ := hpast
    cases hq
    rw [hp] at hpast
    cases hpast

/-- A process that is alone publishes what it built. -/
example (b : Built) : ∃ s, Runs.Reachable (Initial hash) (Next hash) s ∧
    s.manifest = some (b.manifest hash).bytes := by
  let s₀ : State := ⟨none, fun _ => none, fun _ => none, fun _ => .idle, fun _ => .idle⟩
  have acts {s s' : State} (h : Runs.Reachable (Initial hash) (Next hash) s)
      (hstep : Step hash s (.run 0) s') : Runs.Reachable (Initial hash) (Next hash) s' :=
    h.then (.single ⟨_, hstep⟩)
  have hcompiled := acts (.start (s := s₀) ⟨nofun, fun _ => rfl, fun _ => rfl⟩) (.compile b rfl)
  have hprepared := acts (acts hcompiled (.root rfl)) (.prepare 0 rfl rfl)
  have hstaging := acts hprepared (.stage rfl rfl rfl)
  have hstaged := acts (acts (acts hstaging (.close rfl rfl rfl)) (.close rfl rfl rfl))
    (.close rfl rfl rfl)
  have hready := acts (acts hstaged (.rename rfl rfl rfl nofun)) (.drafted (.inl rfl) rfl)
  exact ⟨_, acts hready (.publish rfl rfl rfl), rfl⟩

end Atomic

end Baleyg.Contract.Publish
