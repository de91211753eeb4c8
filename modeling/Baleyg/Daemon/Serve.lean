/-
Registration of a checkout to be served in a browser.

The first registration binds a listener and makes a token; those after it have to name the same
bind and token, and find the token's file unchanged.  All of it happens under the registry's lock,
and the registry is asked first whether it would refuse: it takes an entry that was replaced at
its root out of the way then, before a token is made.  What is kept of the listener and the token
is written last, when nothing can fail any more.

So a call that raises has changed nothing but what the look ahead changes.  And as every call
that returns either writes the one grant there is or has compared its own with it, all grants of a
run are one.
-/
import Baleyg.Daemon.Preflight

namespace Baleyg.Daemon

open Fallible (Yields ensure yields_bind yields_get yields_modify yields_ensure yields_pure)
open Relation (ReflTransGen)
open Table (Keyed)

def SelectionError.reason : SelectionError → String
  | .notAbsolute => "not_absolute"
  | .notCheckout => "not_checkout"
  | .differentRepository => "different_repository"
  | .identityChanged => "identity_changed"
  | .unavailable => "unavailable"
  | .checkoutCapacity => "checkout_capacity"
  | .registrationConflict => "registration_conflict"

/-- A socket address, and whether it is of the loopback interface. -/
structure SocketAddr where
  text : String
  loopback : Bool
  deriving DecidableEq, Repr

structure TcpListener where
  localAddr : SocketAddr
  deriving DecidableEq, Repr

/-- `ProvisionedBrowser`. -/
structure Browser where
  token : String
  address : SocketAddr
  deriving DecidableEq, Repr

structure BrowserProvisioner where
  listener : Option TcpListener
  browser : Option Browser
  requestedBind : Option SocketAddr
  tokenPath : Option String
  tokenInode : Option (Nat × Nat)
  token : Option String
  effectiveAddress : Option SocketAddr
  closed : Bool
  deriving DecidableEq, Repr

namespace BrowserProvisioner

def new : BrowserProvisioner := ⟨none, none, none, none, none, none, none, false⟩

def address (p : BrowserProvisioner) : Option SocketAddr :=
  if p.closed then none else p.effectiveAddress

end BrowserProvisioner

/-- What a call of `register_serve` reads outside. -/
structure Serving where
  /-- Where the token file is, its directory resolved. -/
  tokenPath : Except String String
  /-- What the look ahead and the registration read. -/
  before : Outside
  after : Outside
  valid : Except SelectionError Unit
  bound : Except String TcpListener
  created : Except String Unit
  /-- `checked_token`: the token and the inode of its file. -/
  observed : Except String (String × (Nat × Nat))
  /-- `check_token_path`: the inode of the regular file of that name. -/
  named : Except String (Nat × Nat)
  browser : Except String Unit
  /-- The task that serves the listener ends during the call. -/
  closes : Bool

structure Service where
  provisioner : BrowserProvisioner
  registry : Registry

def observe {α : Type} (x : Except String α) : EStateM String Service α :=
  match x with
  | .error error => throw error
  | .ok a => pure a

/-- An operation of the registry, whose lock is held. -/
def checked {α : Type} (x : Action α) : EStateM String Service α := fun s =>
  match x s.registry with
  | .ok a r => .ok a { s with registry := r }
  | .error error r => .error error.reason { s with registry := r }

def lastAddress (o : Serving) : EStateM String Service SocketAddr := do
  modify fun s =>
    { s with provisioner := { s.provisioner with closed := s.provisioner.closed || o.closes } }
  let s ← get
  match s.provisioner.address with
  | none => throw "browser listener closed"
  | some address => pure address

def registerAgain (o : Serving) (identity : Identity) (options : CheckoutOptions)
    (bind original : SocketAddr) (tokenPath : String) : EStateM String Service SocketAddr := do
  let s ← get
  ensure (s.provisioner.address ≠ none) "browser listener closed"
  ensure (bind = original) "serve bind conflicts with running listener"
  ensure (s.provisioner.tokenPath = some tokenPath)
    "serve token file conflicts with running listener"
  let (token, inode) ← observe o.observed
  let named ← observe o.named
  ensure (named = inode) "serve token file identity changed"
  ensure (s.provisioner.tokenInode = some inode) "serve token file identity changed"
  ensure (s.provisioner.token = some token) "serve token contents changed"
  checked (register o.after identity options)
  lastAddress o

def registerFirst (o : Serving) (identity : Identity) (options : CheckoutOptions)
    (bind : SocketAddr) (tokenPath : String) : EStateM String Service SocketAddr := do
  let listener ← observe o.bound
  observe o.created
  let (token, inode) ← observe o.observed
  let named ← observe o.named
  ensure (named = inode) "serve token file identity changed"
  observe o.browser
  checked (register o.after identity options)
  modify fun s => { s with provisioner := { s.provisioner with
    listener := some listener
    effectiveAddress := some listener.localAddr
    browser := some ⟨token, listener.localAddr⟩
    requestedBind := some bind
    tokenPath := some tokenPath
    tokenInode := some inode
    token := some token } }
  pure listener.localAddr

def registerServe (o : Serving) (identity : Identity) (options : CheckoutOptions)
    (bind : SocketAddr) : EStateM String Service SocketAddr := do
  ensure (bind.loopback = true) "only loopback bind addresses are supported"
  let tokenPath ← observe o.tokenPath
  checked (canRegister o.before o.valid identity options)
  let s ← get
  match s.provisioner.requestedBind with
  | some original => registerAgain o identity options bind original tokenPath
  | none => registerFirst o identity options bind tokenPath

/-! ### What the parts guarantee -/

section Specs

variable {α : Type} {s : Service} {Q : α → Service → Prop} {E : String → Service → Prop}

theorem yields_observe {x : Except String α} :
    Yields (observe x) s Q E ↔ (∀ a, x = .ok a → Q a s) ∧ ∀ e, x = .error e → E e s := by
  cases x with
  | error e =>
      constructor
      · intro h
        refine ⟨fun a ha => by contradiction, fun e' he' => ?_⟩
        cases he'
        exact h
      · exact fun h => h.2 e rfl
  | ok a =>
      constructor
      · intro h
        refine ⟨fun a' ha' => ?_, fun e he => by contradiction⟩
        cases ha'
        exact h
      · exact fun h => h.1 a rfl

theorem yields_checked {x : Action α} :
    Yields (checked x) s Q E ↔
      Yields x s.registry (fun a r => Q a { s with registry := r })
        fun e r => E e.reason { s with registry := r } := by
  unfold Yields checked
  cases x s.registry <;> rfl

variable {r r' : Registry} {identity : Identity} {options : CheckoutOptions} {o : Serving}

/-- **What a look ahead leaves behind**: an entry of the root that is another's may be gone, or
have its pending work recorded. -/
inductive Looked (identity : Identity) (r : Registry) : Registry → Prop where
  | same : Looked identity r r
  | retired {e : Entry} (entry : r.entry identity.rootKey = some e) (idle : e.Idle)
      (other : e.identity ≠ identity) : Looked identity r (r.without identity.rootKey)
  | marked {e : Entry} (pending : Bool) (entry : r.entry identity.rootKey = some e)
      (other : e.identity ≠ identity) : Looked identity r (r.marked identity.rootKey pending)

theorem looked_of_retired {o : Outside} (hkeyed : Keyed Entry.key r.entries)
    (h : retireReplaced o identity r = .ok () r') : Looked identity r r' := by
  rcases (yields_retireReplaced hkeyed).of_ok h with ⟨rfl, -⟩ | ⟨rfl, e, he, hidle, hother⟩
  · exact .same
  · exact .retired he hidle hother

theorem looked_of_error {o : Outside} (hkeyed : Keyed Entry.key r.entries) {e : SelectionError}
    (h : retireReplaced o identity r = .error e r') : Looked identity r r' := by
  rcases (yields_retireReplaced hkeyed).of_error h with rfl | ⟨pending, e, rfl, hfound, hother⟩
  · exact .same
  · exact .marked pending hfound.entry hother

theorem yields_look {o : Outside} {valid : Except SelectionError Unit}
    (hkeyed : Keyed Entry.key r.entries) :
    Yields (canRegister o valid identity options) r
      (fun _ r₁ => Looked identity r r₁ ∧ ¬ Refused identity options r₁ ∧
        ∀ e, r₁.entry identity.rootKey = some e → e.identity = identity)
      fun _ r₁ => Looked identity r r₁ := by
  refine yields_canRegister.mono ?_ ?_
  · rintro _ r₁ ⟨-, hretire, hfree⟩
    exact ⟨looked_of_retired hkeyed hretire, hfree, fun e he => same_of_retired hkeyed hretire he⟩
  · rintro e r₁ (⟨-, -, rfl⟩ | ⟨-, rfl⟩ | ⟨-, hretire⟩ | ⟨-, hretire, -, -⟩)
    · exact .same
    · exact .same
    · exact looked_of_error hkeyed hretire
    · exact looked_of_retired hkeyed hretire

/-- A registration behind a look ahead that returned changes nothing where it raises. -/
theorem yields_register {o : Outside}
    (hsame : ∀ e, r.entry identity.rootKey = some e → e.identity = identity)
    (hfree : ¬ Refused identity options r) :
    Yields (register o identity options) r (fun _ r' => Enrolled identity options r r')
      fun _ r' => r' = r := by
  by_cases hverified : o.verified = true
  · obtain ⟨r', hok, henrolled⟩ := register_of_free hverified hsame hfree
    exact .of_eq_ok hok henrolled
  · unfold register
    rw [yields_bind, yields_ensure]
    exact ⟨fun h => absurd h hverified, fun _ => rfl⟩

end Specs

/-! ### What is kept -/

/-- Nothing but whether the listener is closed has changed. -/
def Retained (p p' : BrowserProvisioner) : Prop := { p' with closed := p.closed } = p

structure Grant where
  bind : SocketAddr
  tokenPath : String
  tokenInode : Nat × Nat
  token : String
  deriving DecidableEq, Repr

def Serving.grant (o : Serving) (bind : SocketAddr) : Option Grant :=
  match o.tokenPath, o.observed with
  | .ok path, .ok (token, inode) => some ⟨bind, path, inode, token⟩
  | _, _ => none

structure Holds (p : BrowserProvisioner) (g : Grant) : Prop where
  bind : p.requestedBind = some g.bind
  path : p.tokenPath = some g.tokenPath
  inode : p.tokenInode = some g.tokenInode
  token : p.token = some g.token

theorem Holds.eq {p : BrowserProvisioner} {g h : Grant} (hg : Holds p g) (hh : Holds p h) :
    g = h := by
  obtain ⟨bind, path, inode, token⟩ := g
  obtain ⟨bind', path', inode', token'⟩ := h
  have hbind := hg.bind.symm.trans hh.bind
  have hpath := hg.path.symm.trans hh.path
  have hinode := hg.inode.symm.trans hh.inode
  have htoken := hg.token.symm.trans hh.token
  simp only [Option.some.injEq] at hbind hpath hinode htoken
  rw [hbind, hpath, hinode, htoken]

structure Steady (p p' : BrowserProvisioner) : Prop where
  bind : p'.requestedBind = p.requestedBind
  path : p'.tokenPath = p.tokenPath
  inode : p'.tokenInode = p.tokenInode
  token : p'.token = p.token

theorem Steady.holds {p p' : BrowserProvisioner} {g : Grant} (h : Steady p p') (hg : Holds p g) :
    Holds p' g :=
  ⟨h.bind.trans hg.bind, h.path.trans hg.path, h.inode.trans hg.inode, h.token.trans hg.token⟩

theorem Retained.steady {p p' : BrowserProvisioner} (h : Retained p p') : Steady p p' := by
  unfold Retained at h
  rw [← h]
  exact ⟨rfl, rfl, rfl, rfl⟩

/-! ### A call -/

section Calls

variable {s : Service} {o : Serving} {identity : Identity} {options : CheckoutOptions}
  {bind original : SocketAddr} {path : String}

/-- The registry behind a look ahead, where a call raised: nothing was registered, or it was the
registration that raised. -/
def Left (o : Serving) (identity : Identity) (options : CheckoutOptions) (r r' : Registry) : Prop :=
  r' = r ∨ ∃ error, register o.after identity options r = .error error r'

theorem yields_checked_register :
    Yields (checked (register o.after identity options)) s
      (fun _ s' => s'.provisioner = s.provisioner)
      fun _ s' => s'.provisioner = s.provisioner ∧
        Left o identity options s.registry s'.registry := by
  rw [yields_checked]
  unfold Yields
  cases hregister : register o.after identity options s.registry with
  | ok a r => rfl
  | error e r => exact ⟨rfl, .inr ⟨e, hregister⟩⟩

theorem yields_lastAddress (hopen : s.provisioner.address ≠ none) :
    Yields (lastAddress o) s (fun _ s' => Retained s.provisioner s'.provisioner)
      fun _ s' => Retained s.provisioner s'.provisioner ∧ o.closes = true := by
  unfold lastAddress
  rw [yields_bind, yields_modify, yields_bind, yields_get]
  cases haddress : BrowserProvisioner.address
      { s.provisioner with closed := s.provisioner.closed || o.closes } with
  | some address => rfl
  | none =>
      refine ⟨rfl, ?_⟩
      unfold BrowserProvisioner.address at hopen haddress
      by_cases hclosed : s.provisioner.closed = true
      · rw [if_pos hclosed] at hopen; exact absurd rfl hopen
      · by_contra hcloses
        rw [if_neg hclosed] at hopen
        simp only [Bool.eq_false_of_not_eq_true hclosed, Bool.eq_false_of_not_eq_true hcloses,
          Bool.or_self, Bool.false_eq_true, if_false] at haddress
        exact hopen haddress

theorem yields_registerAgain (hpath : o.tokenPath = .ok path)
    (hbind : s.provisioner.requestedBind = some original) :
    Yields (registerAgain o identity options bind original path) s
      (fun _ s' => Steady s.provisioner s'.provisioner ∧
        ∃ g, o.grant bind = some g ∧ Holds s.provisioner g)
      fun _ s' => Retained s.provisioner s'.provisioner ∧
        (Left o identity options s.registry s'.registry ∨ o.closes = true) := by
  have hstop : Retained s.provisioner s.provisioner ∧
      (Left o identity options s.registry s.registry ∨ o.closes = true) := ⟨rfl, .inl (.inl rfl)⟩
  unfold registerAgain
  rw [yields_bind, yields_get, yields_bind, yields_ensure]
  refine ⟨fun hopen => ?_, fun _ => hstop⟩
  rw [yields_bind, yields_ensure]
  refine ⟨fun hsame => ?_, fun _ => hstop⟩
  rw [yields_bind, yields_ensure]
  refine ⟨fun htokenPath => ?_, fun _ => hstop⟩
  rw [yields_bind, yields_observe]
  refine ⟨fun observed hobserved => ?_, fun _ _ => hstop⟩
  obtain ⟨token, inode⟩ := observed
  rw [yields_bind, yields_observe]
  refine ⟨fun named _ => ?_, fun _ _ => hstop⟩
  rw [yields_bind, yields_ensure]
  refine ⟨fun _ => ?_, fun _ => hstop⟩
  rw [yields_bind, yields_ensure]
  refine ⟨fun hinode => ?_, fun _ => hstop⟩
  rw [yields_bind, yields_ensure]
  refine ⟨fun htoken => ?_, fun _ => hstop⟩
  have hgrant : o.grant bind = some ⟨bind, path, inode, token⟩ := by
    unfold Serving.grant
    rw [hpath, hobserved]
  have hholds : Holds s.provisioner ⟨bind, path, inode, token⟩ :=
    ⟨hsame ▸ hbind, htokenPath, hinode, htoken⟩
  rw [yields_bind]
  refine yields_checked_register.mono ?_ ?_
  · intro _ t ht
    rw [← ht] at hopen hholds hstop ⊢
    refine (yields_lastAddress hopen).mono ?_ ?_
    · intro _ s' hretained; exact ⟨hretained.steady, _, hgrant, hholds⟩
    · rintro _ s' ⟨hretained, hcloses⟩
      exact ⟨hretained, .inr hcloses⟩
  · rintro e t ⟨ht, hleft⟩
    refine ⟨?_, .inl hleft⟩
    rw [ht]
    exact hstop.1

theorem yields_registerFirst (hpath : o.tokenPath = .ok path) :
    Yields (registerFirst o identity options bind path) s
      (fun _ s' => ∃ g, o.grant bind = some g ∧ Holds s'.provisioner g)
      fun _ s' => s'.provisioner = s.provisioner ∧
        Left o identity options s.registry s'.registry := by
  have hstop : s.provisioner = s.provisioner ∧ Left o identity options s.registry s.registry :=
    ⟨rfl, .inl rfl⟩
  unfold registerFirst
  rw [yields_bind, yields_observe]
  refine ⟨fun listener _ => ?_, fun _ _ => hstop⟩
  rw [yields_bind, yields_observe]
  refine ⟨fun _ _ => ?_, fun _ _ => hstop⟩
  rw [yields_bind, yields_observe]
  refine ⟨fun observed hobserved => ?_, fun _ _ => hstop⟩
  obtain ⟨token, inode⟩ := observed
  rw [yields_bind, yields_observe]
  refine ⟨fun named _ => ?_, fun _ _ => hstop⟩
  rw [yields_bind, yields_ensure]
  refine ⟨fun _ => ?_, fun _ => hstop⟩
  rw [yields_bind, yields_observe]
  refine ⟨fun _ _ => ?_, fun _ _ => hstop⟩
  rw [yields_bind]
  refine yields_checked_register.mono ?_ fun _ _ h => h
  intro _ t _
  rw [yields_bind, yields_modify, yields_pure]
  have hgrant : o.grant bind = some ⟨bind, path, inode, token⟩ := by
    unfold Serving.grant
    rw [hpath, hobserved]
  exact ⟨_, hgrant, rfl, rfl, rfl, rfl⟩

/-- **What a call does.**  One that returns has found the grant there is, or made the first; one
that raises leaves the provisioner, and the registry as the look ahead and the registration do. -/
theorem yields_registerServe :
    Yields (registerServe o identity options bind) s
      (fun _ s' => ∃ g, o.grant bind = some g ∧ Holds s'.provisioner g ∧
        (s.provisioner.requestedBind = none ∨ Holds s.provisioner g))
      fun _ s' => Retained s.provisioner s'.provisioner ∧
        (s'.registry = s.registry ∨
          (∃ e, canRegister o.before o.valid identity options s.registry = .error e s'.registry) ∨
          ∃ r, canRegister o.before o.valid identity options s.registry = .ok () r ∧
            (Left o identity options r s'.registry ∨
              s.provisioner.requestedBind ≠ none ∧ o.closes = true)) := by
  unfold registerServe
  rw [yields_bind, yields_ensure]
  refine ⟨fun _ => ?_, fun _ => ⟨rfl, .inl rfl⟩⟩
  rw [yields_bind, yields_observe]
  refine ⟨fun path hpath => ?_, fun _ _ => ⟨rfl, .inl rfl⟩⟩
  rw [yields_bind, yields_checked]
  unfold Yields
  cases hlook : canRegister o.before o.valid identity options s.registry with
  | error e r => exact ⟨rfl, .inr (.inl ⟨e, rfl⟩)⟩
  | ok _ r =>
      show Yields _ _ _ _
      rw [yields_bind, yields_get]
      cases hbind : s.provisioner.requestedBind with
      | some original =>
          refine (yields_registerAgain (s := { s with registry := r }) hpath hbind).mono ?_ ?_
          · rintro _ s' ⟨hsteady, g, hgrant, hholds⟩
            exact ⟨g, hgrant, hsteady.holds hholds, .inr hholds⟩
          · rintro _ s' ⟨hretained, hleft | hcloses⟩
            · exact ⟨hretained, .inr (.inr ⟨r, rfl, .inl hleft⟩)⟩
            · exact ⟨hretained, .inr (.inr ⟨r, rfl, .inr ⟨Option.some_ne_none _, hcloses⟩⟩)⟩
      | none =>
          refine (yields_registerFirst (s := { s with registry := r }) hpath).mono ?_ ?_
          · rintro _ s' ⟨g, hgrant, hholds⟩
            exact ⟨g, hgrant, hholds, .inl rfl⟩
          · rintro _ s' ⟨hsame, hleft⟩
            refine ⟨?_, .inr (.inr ⟨r, rfl, .inl hleft⟩)⟩
            rw [hsame]
            rfl

/-- **A call that raises** has changed what the look ahead changes, unless the listener was closed
while a later registration was under way. -/
theorem looked_of_registerServe (hkeyed : Keyed Entry.key s.registry.entries) {error : String}
    {s' : Service} (h : registerServe o identity options bind s = .error error s')
    (hopen : s.provisioner.requestedBind = none ∨ o.closes = false) :
    Looked identity s.registry s'.registry := by
  rcases (yields_registerServe.of_error h).2 with hsame | ⟨e, he⟩ | ⟨r, hr, hleft | ⟨hbind, hcloses⟩⟩
  · rw [hsame]; exact .same
  · exact (yields_look hkeyed).of_error he
  · obtain ⟨hlooked, hfree, hsame⟩ := (yields_look hkeyed).of_ok hr
    rcases hleft with heq | ⟨e, he⟩
    · rw [heq]; exact hlooked
    · rw [(yields_register hsame hfree).of_error he]; exact hlooked
  · rcases hopen with hnone | hnot
    · exact absurd hnone hbind
    · rw [hcloses] at hnot; exact absurd hnot (by decide)

end Calls

/-! ### Runs -/

/-- The service, and the calls that returned an address, with the bind that each asked for. -/
structure Provisioning where
  service : Service
  granted : List (Serving × SocketAddr)

namespace Provisioning

variable {w w' : Provisioning}

def idle (r : Registry) : Provisioning := ⟨⟨.new, r⟩, []⟩

/-- What happens to a service.  Between two calls of `register_serve` the registry is anyone's,
the task that serves takes the listener, and it closes in the end. -/
inductive Event (w : Provisioning) : Provisioning → Prop where
  | returned {o : Serving} {identity : Identity} {options : CheckoutOptions} {bind : SocketAddr}
      {address : SocketAddr} {s : Service}
      (call : registerServe o identity options bind w.service = .ok address s) :
      Event w ⟨s, (o, bind) :: w.granted⟩
  | raised {o : Serving} {identity : Identity} {options : CheckoutOptions} {bind : SocketAddr}
      {error : String} {s : Service}
      (call : registerServe o identity options bind w.service = .error error s) :
      Event w ⟨s, w.granted⟩
  | registry (r : Registry) : Event w { w with service := { w.service with registry := r } }
  | spawned : Event w
      ⟨{ w.service with provisioner := { w.service.provisioner with listener := none } }, w.granted⟩
  | closed : Event w
      ⟨{ w.service with provisioner := { w.service.provisioner with closed := true } }, w.granted⟩

/-- Nothing was granted yet, or the one grant of all that was is kept. -/
def Agreed (w : Provisioning) : Prop :=
  (w.service.provisioner.requestedBind = none ∧ w.granted = []) ∨
    ∃ g, Holds w.service.provisioner g ∧ ∀ c ∈ w.granted, c.1.grant c.2 = some g

theorem agreed_idle (r : Registry) : Agreed (idle r) := .inl ⟨rfl, rfl⟩

theorem Agreed.steady (h : Agreed w)
    (hsteady : Steady w.service.provisioner w'.service.provisioner)
    (hgranted : w'.granted = w.granted) : Agreed w' := by
  unfold Agreed
  rw [hgranted]
  rcases h with ⟨hbind, hnone⟩ | ⟨g, hholds, hall⟩
  · exact .inl ⟨hsteady.bind.trans hbind, hnone⟩
  · exact .inr ⟨g, hsteady.holds hholds, hall⟩

theorem Agreed.step (h : Agreed w) (hstep : Event w w') : Agreed w' := by
  cases hstep with
  | returned call =>
      obtain ⟨g, hgrant, hholds, hfirst⟩ := yields_registerServe.of_ok call
      refine .inr ⟨g, hholds, fun c hc => ?_⟩
      rcases List.mem_cons.mp hc with rfl | hc
      · exact hgrant
      · rcases h with ⟨-, hnone⟩ | ⟨g', hholds', hall⟩
        · rw [hnone] at hc; exact absurd hc List.not_mem_nil
        · rcases hfirst with hbind | hfound
          · exact absurd (hholds'.bind.symm.trans hbind) (Option.some_ne_none _)
          · rw [hfound.eq hholds']; exact hall c hc
  | raised call => exact h.steady (yields_registerServe.of_error call).1.steady rfl
  | registry | spawned | closed => exact h.steady ⟨rfl, rfl, rfl, rfl⟩ rfl

theorem agreed_of_run {r : Registry} (hrun : ReflTransGen Event (idle r) w) : Agreed w := by
  induction hrun with
  | refl => exact agreed_idle r
  | tail _ hstep ih => exact ih.step hstep

end Provisioning

/-- **A registration to serve is made whole or not at all.**  A call that raises leaves the
provisioner as it was, and the registry as the look ahead leaves it: an entry of the same root that
is another identity's may be gone, or have its pending work recorded.  (Of the registry nothing is
said where the listener closes during a later call.)  And all calls of a run that return were
granted the same bind, token file, inode and token. -/
theorem registerServe_whole :
    (∀ (o : Serving) (identity : Identity) (options : CheckoutOptions) (bind : SocketAddr)
        (s s' : Service) (error : String), Keyed Entry.key s.registry.entries →
        registerServe o identity options bind s = .error error s' →
        Retained s.provisioner s'.provisioner ∧
          (s.provisioner.requestedBind = none ∨ o.closes = false →
            Looked identity s.registry s'.registry)) ∧
      ∀ (r : Registry) (w : Provisioning), ReflTransGen Provisioning.Event (.idle r) w →
        ∀ c ∈ w.granted, ∀ d ∈ w.granted,
          c.1.grant c.2 = d.1.grant d.2 ∧ c.1.grant c.2 ≠ none := by
  constructor
  · intro o identity options bind s s' error hkeyed hcall
    exact ⟨(yields_registerServe.of_error hcall).1, looked_of_registerServe hkeyed hcall⟩
  · intro r w hrun c hc d hd
    rcases Provisioning.agreed_of_run hrun with ⟨-, hnone⟩ | ⟨g, -, hall⟩
    · rw [hnone] at hc; exact absurd hc List.not_mem_nil
    · refine ⟨(hall c hc).trans (hall d hd).symm, ?_⟩
      rw [hall c hc]
      exact Option.some_ne_none g

/-- What a first call finds where all goes well, and where the address is in use. -/
private def serving (bound : Except String TcpListener) : Serving :=
  let o : Outside :=
    ⟨true, true, some ⟨"/w", "/w", "new", 1, 2⟩, fun _ => .reads false, fun _ => .drained,
      fun _ => .reads false, false⟩
  ⟨.ok "/t", o, o, .ok (), bound, .ok (), .ok ("secret", (1, 7)), .ok (1, 7), .ok (), false⟩

private def local4 : SocketAddr := ⟨"127.0.0.1:7777", true⟩

private def served : Service :=
  ⟨⟨some ⟨local4⟩, some ⟨"secret", local4⟩, some local4, some "/t", some (1, 7), some "secret",
    some local4, false⟩,
    { Registry.startingAt 0 with
      entries := [⟨⟨"/w", "/w", "new", 1, 2⟩, some ⟨"{}"⟩, ∅, true, false, false, none, none⟩] }⟩

theorem registerServe_whole_twice :
    let identity : Identity := ⟨"/w", "/w", "new", 1, 2⟩
    let busy := serving (.error "Address already in use")
    let free := serving (.ok ⟨local4⟩)
    (∃ s', registerServe busy identity ⟨"{}"⟩ local4 ⟨.new, .startingAt 0⟩ =
        .error "Address already in use" s' ∧ Retained .new s'.provisioner ∧
          Looked identity (.startingAt 0) s'.registry) ∧
      ∃ w, ReflTransGen Provisioning.Event (.idle (.startingAt 0)) w ∧
        w.granted = [(free, local4), (free, local4)] ∧ free.grant local4 ≠ none := by
  intro identity busy free
  have hfail : registerServe busy identity ⟨"{}"⟩ local4 ⟨.new, .startingAt 0⟩ =
      .error "Address already in use" ⟨.new, .startingAt 0⟩ := rfl
  have hkeyed : Keyed Entry.key (Registry.startingAt 0).entries := List.nodup_nil
  obtain ⟨hkept, hlooked⟩ := registerServe_whole.1 _ _ _ _ _ _ _ hkeyed hfail
  have hfirst : registerServe free identity ⟨"{}"⟩ local4 ⟨.new, .startingAt 0⟩ =
      .ok local4 served := rfl
  have hagain : registerServe free identity ⟨"{}"⟩ local4 served = .ok local4 served := rfl
  have hrun : ReflTransGen Provisioning.Event (.idle (.startingAt 0))
      ⟨served, [(free, local4), (free, local4)]⟩ :=
    (ReflTransGen.single (.returned hfirst)).tail (.returned hagain)
  have hmem : (free, local4) ∈ [(free, local4), (free, local4)] := List.mem_cons_self
  have hgrant := registerServe_whole.2 _ _ hrun _ hmem _ hmem
  exact ⟨⟨_, hfail, hkept, hlooked (.inl rfl)⟩, _, hrun, rfl, hgrant.2⟩

theorem registerServe_busy :
    ¬ ∀ (o : Serving) (identity : Identity) (options : CheckoutOptions) (bind : SocketAddr)
        (s s' : Service) (error : String), Keyed Entry.key s.registry.entries →
        registerServe o identity options bind s = .error error s' →
        s'.registry.entries = s.registry.entries := by
  intro hwhole
  have hkeyed : Keyed Entry.key [Entry.inert ⟨"/w", "/w", "old", 1, 1⟩ none] :=
    List.nodup_singleton _
  have hgone := hwhole (serving (.error "Address already in use")) ⟨"/w", "/w", "new", 1, 2⟩ ⟨"{}"⟩
    local4 ⟨.new, ⟨[.inert ⟨"/w", "/w", "old", 1, 1⟩ none], ∅, none, none, 0⟩⟩
    ⟨.new, ⟨[], ∅, none, none, 0⟩⟩ _ hkeyed rfl
  exact absurd hgone (List.cons_ne_nil _ _).symm

end Baleyg.Daemon
