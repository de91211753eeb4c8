/-
Sequences of registrations.

One registry sees every identity of a document: calls come in any order, some with values that
are no identity, some again and again.  A value becomes an identity when its own check passes; a
handle is the beginning of a digest, so two identities may want the same one, and then the second
is refused.  Whatever the calls were, a handle in the registry stands for the bytes of exactly one
value, because nothing is ever replaced: that is `register_ok` for one call, and `Granted` for a
run of them.

SHA-256 is arbitrary here.  A collision makes a registration fail; it never makes two identities
one.
-/
import Baleyg.Native.Intake

namespace Baleyg.Native

open Fallible (ensure bind_eq_ok ensure_bind_eq_ok)

/-- A JSON value as `serde_json` has it: the members of a map are in the order of their keys. -/
structure Identity where
  value : Value
  ordered : value.sorted = value

theorem Identity.ext_canonical {a b : Identity} (h : a.value.canonical = b.value.canonical) :
    a = b := by
  have hsorted := Value.canonical_inj h
  rw [a.ordered, b.ordered] at hsorted
  cases a
  cases b
  cases hsorted
  rfl

inductive Registration where
  | stable (input : Identity)
  | occurrence (input : Identity)

namespace Registration

def input : Registration → Identity
  | stable input | occurrence input => input

def domain : Registration → String
  | stable _ => "trellis.syntax.v1\x00"
  | occurrence _ => "trellis.occurrence.v2\x00"

def lead : Registration → String
  | stable _ => "sid:v1:"
  | occurrence _ => "occ:v2:"

def check : Registration → Except String Unit
  | stable input => validateStable input.value
  | occurrence input => validateOccurrence input.value

section Registry

variable (sha : Sha256)

def handle (c : Registration) : String := handleOf sha c.domain c.lead c.input.value

def entry (c : Registration) : Registered := registered sha c.domain c.input.value

/-- The handle says which of the two checks there was, and the bytes say the rest. -/
theorem eq_of_handle {sha : Sha256} {c d : Registration} (hhandle : c.handle sha = d.handle sha)
    (hentry : c.entry sha = d.entry sha) : c = d := by
  have hinput : c.input = d.input := Identity.ext_canonical (congrArg Prod.fst hentry)
  have hchars := congrArg String.toList hhandle
  unfold handle handleOf at hchars
  rw [String.toList_append, String.toList_append] at hchars
  cases c with
  | stable a =>
      cases d with
      | stable b => exact congrArg stable hinput
      | occurrence b =>
          have hlead : "sid:v1:".toList ++ _ = "occ:v2:".toList ++ _ := hchars
          have hhead : ('s' : Char) = 'o' := List.head_eq_of_cons_eq hlead
          exact absurd hhead (by decide)
  | occurrence a =>
      cases d with
      | stable b =>
          have hlead : "occ:v2:".toList ++ _ = "sid:v1:".toList ++ _ := hchars
          have hhead : ('o' : Char) = 's' := List.head_eq_of_cons_eq hlead
          exact absurd hhead (by decide)
      | occurrence b => exact congrArg occurrence hinput

end Registry

end Registration

/-! ### Calls -/

namespace IdentityRegistry

section Calls

variable (sha : Sha256)

/-- `register`, on the registry it is called on: a new handle is the last thing it makes. -/
def registerIn (domain : String) (value : Value) (lead : String) :
    EStateM String IdentityRegistry String := do
  let handle := handleOf sha domain lead value
  let r ← EStateM.get
  match r.handles.lookup handle with
  | some prior =>
      ensure (prior = registered sha domain value) ("native identity handle collision: " ++ handle)
  | none => set (IdentityRegistry.mk ((handle, registered sha domain value) :: r.handles))
  pure handle

/-- `stable` and `occurrence`. -/
def call (c : Registration) : EStateM String IdentityRegistry String :=
  match c.check with
  | .error e => throw e
  | .ok _ => registerIn sha c.domain c.input.value c.lead

/-- The calls of a run with their answers, and the registry they leave. -/
def run : IdentityRegistry → List Registration →
    List (Registration × Except String String) × IdentityRegistry
  | r, [] => ([], r)
  | r, c :: cs =>
      match call sha c r with
      | .ok handle r' => ((c, .ok handle) :: (run r' cs).1, (run r' cs).2)
      | .error e r' => ((c, .error e) :: (run r' cs).1, (run r' cs).2)

end Calls

section Call

variable {sha : Sha256} {domain lead : String} {value : Value} {c : Registration}
  {r r' k : IdentityRegistry} {handle : String}

/-- The registry it is called on is the one `register` would return. -/
theorem registerIn_eq :
    registerIn sha domain value lead r =
      match r.handles.lookup (handleOf sha domain lead value) with
      | some prior =>
          if prior = registered sha domain value then .ok (handleOf sha domain lead value) r
          else .error ("native identity handle collision: " ++ handleOf sha domain lead value) r
      | none =>
          .ok (handleOf sha domain lead value)
            ⟨(handleOf sha domain lead value, registered sha domain value) :: r.handles⟩ := by
  simp only [registerIn]
  rw [Fallible.get_bind_run]
  cases r.handles.lookup (handleOf sha domain lead value) with
  | none => rfl
  | some prior =>
      by_cases hsame : prior = registered sha domain value
      · simp only [ensure, hsame, if_true]
        rfl
      · simp only [ensure, hsame, if_false]
        rfl

theorem registerIn_ok :
    registerIn sha domain value lead r = .ok handle r' ↔
      r.register sha domain value lead = .ok (handle, r') := by
  rw [registerIn_eq]
  unfold register
  cases hprior : r.handles.lookup (handleOf sha domain lead value) with
  | none =>
      simp only [hprior, EStateM.Result.ok.injEq]
      exact ⟨fun ⟨hhandle, hr⟩ => by rw [← hhandle, ← hr]; rfl, fun h => by cases h; exact ⟨rfl, rfl⟩⟩
  | some prior =>
      simp only [hprior]
      rw [ensure_bind_eq_ok]
      by_cases hsame : prior = registered sha domain value
      · rw [if_pos hsame]
        constructor
        · intro h
          cases h
          exact ⟨hsame, rfl⟩
        · rintro ⟨_, h⟩
          cases h
          rfl
      · rw [if_neg hsame]
        constructor
        · intro h; cases h
        · rintro ⟨h, _⟩
          exact absurd h hsame

theorem registerIn_error {e : String} (h : registerIn sha domain value lead r = .error e r') :
    r' = r := by
  rw [registerIn_eq] at h
  cases hprior : r.handles.lookup (handleOf sha domain lead value) with
  | none =>
      simp only [hprior] at h
      cases h
  | some prior =>
      simp only [hprior] at h
      by_cases hsame : prior = registered sha domain value
      · rw [if_pos hsame] at h; cases h
      · rw [if_neg hsame] at h
        cases h
        rfl

theorem register_new (h : r.register sha domain value lead = .ok (handle, r')) {other : String}
    {entry : Registered} (hother : r'.Knows other entry) :
    r.Knows other entry ∨ other = handle ∧ entry = registered sha domain value := by
  unfold register at h
  cases hprior : r.handles.lookup (handleOf sha domain lead value) with
  | some prior =>
      simp only [hprior] at h
      obtain ⟨_, _, h⟩ := bind_eq_ok.mp h
      cases h
      exact .inl hother
  | none =>
      simp only [hprior] at h
      cases h
      unfold Knows at hother
      rw [List.lookup_cons] at hother
      cases heq : other == handleOf sha domain lead value with
      | true =>
          rw [heq] at hother
          exact .inr ⟨eq_of_beq heq, (Option.some.inj hother).symm⟩
      | false => rw [heq] at hother; exact .inl hother

/-- **What a call does that succeeds.** -/
theorem call_ok (h : call sha c r = .ok handle r') :
    c.check = .ok () ∧ r.register sha c.domain c.input.value c.lead = .ok (handle, r') := by
  unfold call at h
  cases hcheck : c.check with
  | error e => rw [hcheck] at h; cases h
  | ok _ => rw [hcheck] at h; exact ⟨rfl, registerIn_ok.mp h⟩

/-- **A call that fails leaves the registry as it is.** -/
theorem call_error {e : String} (h : call sha c r = .error e r') : r' = r := by
  unfold call at h
  cases hcheck : c.check with
  | error e' =>
      rw [hcheck] at h
      cases h
      rfl
  | ok _ => rw [hcheck] at h; exact registerIn_error h

/-- **Of what another registry knows every call succeeds.** -/
theorem call_within (hcheck : c.check = .ok ()) (hwithin : r.Within k)
    (hknows : k.Knows (c.handle sha) (c.entry sha)) :
    ∃ r', call sha c r = .ok (c.handle sha) r' ∧ r'.Within k := by
  obtain ⟨r', hregister, hwithin'⟩ := register_within hwithin hknows
  refine ⟨r', ?_, hwithin'⟩
  unfold call
  rw [hcheck]
  exact registerIn_ok.mpr hregister

/-- **A call again changes nothing.** -/
theorem call_again (hcheck : c.check = .ok ()) (hknows : r.Knows (c.handle sha) (c.entry sha)) :
    call sha c r = .ok (c.handle sha) r := by
  unfold call
  rw [hcheck]
  show registerIn sha c.domain c.input.value c.lead r = _
  rw [registerIn_eq]
  have hprior : r.handles.lookup (handleOf sha c.domain c.lead c.input.value) =
      some (registered sha c.domain c.input.value) := hknows
  rw [hprior]
  exact if_pos rfl

end Call

/-! ### Runs -/

def granted (answers : List (Registration × Except String String)) : List Registration :=
  answers.filterMap fun
    | (c, .ok _) => some c
    | (_, .error _) => none

section Run

variable {sha : Sha256} {c d : Registration} {r k : IdentityRegistry} {handle : String}
  {cs ds : List Registration} {answers : List (Registration × Except String String)}

theorem mem_granted : c ∈ granted answers ↔ ∃ handle, (c, .ok handle) ∈ answers := by
  unfold granted
  rw [List.mem_filterMap]
  constructor
  · rintro ⟨⟨d, answer⟩, hmem, hd⟩
    cases answer with
    | error e => cases hd
    | ok handle => cases hd; exact ⟨handle, hmem⟩
  · rintro ⟨handle, hmem⟩
    exact ⟨(c, .ok handle), hmem, rfl⟩

/-- **A run forgets nothing.** -/
theorem run_within (cs : List Registration) : r.Within (run sha r cs).2 := by
  induction cs generalizing r with
  | nil => exact .refl r
  | cons c cs ih =>
      unfold run
      cases hcall : call sha c r with
      | ok handle r' => exact (register_ok (call_ok hcall).2).2.1.trans ih
      | error e r' => rw [call_error hcall]; exact ih

/-- **What a call was given stays in the registry.** -/
theorem run_knows (h : (c, .ok handle) ∈ (run sha r cs).1) :
    c.check = .ok () ∧ handle = c.handle sha ∧ (run sha r cs).2.Knows handle (c.entry sha) := by
  induction cs generalizing r with
  | nil => cases h
  | cons d cs ih =>
      unfold run at h ⊢
      cases hcall : call sha d r with
      | ok handle' r' =>
          simp only [hcall] at h ⊢
          rcases List.mem_cons.mp h with heq | h
          · cases heq
            obtain ⟨hcheck, hregister⟩ := call_ok hcall
            obtain ⟨rfl, -, hknows⟩ := register_ok hregister
            exact ⟨hcheck, rfl, run_within cs _ _ hknows⟩
          · exact ih h
      | error e r' =>
          simp only [hcall] at h ⊢
          rcases List.mem_cons.mp h with heq | h
          · cases heq
          · exact ih h

/-- **Nothing is in the registry but what a call put there.** -/
theorem run_new {entry : Registered} (h : (run sha r cs).2.Knows handle entry) :
    r.Knows handle entry ∨
      ∃ c, (c, .ok handle) ∈ (run sha r cs).1 ∧ entry = c.entry sha := by
  induction cs generalizing r with
  | nil => exact .inl h
  | cons d cs ih =>
      unfold run at h ⊢
      cases hcall : call sha d r with
      | ok handle' r' =>
          simp only [hcall] at h ⊢
          rcases ih h with hknows | ⟨c, hmem, hentry⟩
          · rcases register_new (call_ok hcall).2 hknows with hprior | ⟨rfl, rfl⟩
            · exact .inl hprior
            · exact .inr ⟨d, List.mem_cons_self, rfl⟩
          · exact .inr ⟨c, List.mem_cons_of_mem _ hmem, hentry⟩
      | error e r' =>
          simp only [hcall] at h ⊢
          rcases ih h with hknows | ⟨c, hmem, hentry⟩
          · rw [call_error hcall] at hknows; exact .inl hknows
          · exact .inr ⟨c, List.mem_cons_of_mem _ hmem, hentry⟩

/-- **Of what another registry knows every call of a run succeeds.** -/
theorem run_granted (hwithin : r.Within k)
    (hall : ∀ c ∈ ds, c.check = .ok () ∧ k.Knows (c.handle sha) (c.entry sha)) :
    granted (run sha r ds).1 = ds := by
  induction ds generalizing r with
  | nil => rfl
  | cons d ds ih =>
      obtain ⟨hcheck, hknows⟩ := hall d List.mem_cons_self
      obtain ⟨r', hcall, hwithin'⟩ := call_within hcheck hwithin hknows
      have hrest := ih hwithin' fun c hc => hall c (List.mem_cons_of_mem d hc)
      unfold run
      simp only [hcall]
      show d :: granted (run sha r' ds).1 = d :: ds
      rw [hrest]

/-- What one run knows, another run knows that gave a handle to the same calls. -/
theorem run_within_of_granted
    (hall : ∀ c, c ∈ granted (run sha empty cs).1 → c ∈ granted (run sha empty ds).1) :
    (run sha empty cs).2.Within (run sha empty ds).2 := by
  intro handle entry hknows
  rcases run_new hknows with hempty | ⟨c, hmem, rfl⟩
  · cases hempty
  · obtain ⟨handle', hmem'⟩ := mem_granted.mp (hall c (mem_granted.mpr ⟨handle, hmem⟩))
    obtain ⟨-, rfl, -⟩ := run_knows hmem
    obtain ⟨-, rfl, hknows'⟩ := run_knows hmem'
    exact hknows'

theorem Within.antisymm (h : r.Within k) (h' : k.Within r) (handle : String) :
    r.handles.lookup handle = k.handles.lookup handle := by
  cases hr : r.handles.lookup handle with
  | some entry => exact (h handle entry hr).symm
  | none =>
      cases hk : k.handles.lookup handle with
      | none => rfl
      | some entry => exact hr.symm.trans (h' handle entry hk)

end Run

/-- **A registry after any calls**: a handle stands for one identity, an identity that has a
handle is given it again and nothing changes, a call that fails changes nothing, and what the
registry holds is a matter of which calls succeeded, in whatever order they came. -/
theorem registry_exact (sha : Sha256) (cs : List Registration) :
    (∀ c d handle, (c, .ok handle) ∈ (run sha empty cs).1 →
        (d, .ok handle) ∈ (run sha empty cs).1 → c = d) ∧
      (∀ c handle, (c, .ok handle) ∈ (run sha empty cs).1 →
        call sha c (run sha empty cs).2 = .ok handle (run sha empty cs).2) ∧
      (∀ c r e r', call sha c r = .error e r' → r' = r) ∧
      (∀ ds, ds.Perm (granted (run sha empty cs).1) → granted (run sha empty ds).1 = ds) ∧
      ∀ ds, (granted (run sha empty ds).1).Perm (granted (run sha empty cs).1) →
        ∀ handle, (run sha empty ds).2.handles.lookup handle =
          (run sha empty cs).2.handles.lookup handle := by
  refine ⟨fun c d handle hc hd => ?_, fun c handle hc => ?_, fun c r e r' h => call_error h,
    fun ds hds => ?_, fun ds hds => ?_⟩
  · obtain ⟨-, hhandle, hknows⟩ := run_knows hc
    obtain ⟨-, hhandle', hknows'⟩ := run_knows hd
    have hentry := Option.some.inj (hknows.symm.trans hknows')
    exact Registration.eq_of_handle (hhandle.symm.trans hhandle') hentry
  · obtain ⟨hcheck, rfl, hknows⟩ := run_knows hc
    exact call_again hcheck hknows
  · refine run_granted (empty_within (run sha empty cs).2) fun c hc => ?_
    obtain ⟨handle, hmem⟩ := mem_granted.mp (hds.mem_iff.mp hc)
    obtain ⟨hcheck, rfl, hknows⟩ := run_knows hmem
    exact ⟨hcheck, hknows⟩
  · exact Within.antisymm (run_within_of_granted fun c hc => hds.mem_iff.mp hc)
      (run_within_of_granted fun c hc => hds.mem_iff.mpr hc)

end IdentityRegistry

end Baleyg.Native
