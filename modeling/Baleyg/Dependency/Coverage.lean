/-
What a package that is complete has in the catalogue.

A walk that goes on has, of every directory it is through with, read the files and queued the
directories, as long as nothing marked the package (`Covers`).  So a walk that takes its last
directory leaves nothing out.  A walk that is left early has marked the package, but for one place:
where the declarations of a file bring the text to its last byte, the walk is left and the package
is not marked (`Fills`).
-/
import Baleyg.Dependency.Budgets

namespace Baleyg.Dependency

/-- The directories under `src` that are not passed over. -/
inductive Reached (p : Params) : String → Prop where
  | src : Reached p (join p.base "src")
  | child {dir name : String} {raws : List Raw} (h : Reached p dir)
      (hraws : p.root.readdir dir = some raws) (hraw : ⟨some name, some .directory⟩ ∈ raws)
      (hname : passedOver name = false) : Reached p (entryPath dir name)

/-- A readable Rust file under `src`. -/
def Source (p : Params) (path : String) : Prop :=
  ∃ dir raws name, Reached p dir ∧ p.root.readdir dir = some raws ∧
    (⟨some name, some .file⟩ : Raw) ∈ raws ∧ passedOver name = false ∧ isRust name = true ∧
    path = entryPath dir name ∧ (p.root.readFile path).isSome = true

/-- A file was read, and all that was extracted from it is in the catalogue. -/
def Catalogued (p : Params) (s : State) (path : String) : Prop :=
  path ∈ s.reads ∧ ∃ text declarations, p.root.readFile path = some text ∧
    extracted p s path text = some declarations ∧
    ∀ symbol ∈ declarations.symbols, symbol ∈ s.catalog.symbols

/-- The declarations of a file bring the text to the last byte there is room for, and nothing of
it or before it marks the package. -/
structure Fills (p : Params) (e : Entry) (s : State) : Prop where
  complete : s.package.indexState = .complete
  source : passedOver e.name = false ∧ e.kind = .file ∧ isRust e.name = true
  room : s.totalFiles < maxFiles ∧ s.files < maxPackageFiles ∧
    s.catalog.symbols.length < maxSymbols
  read : ∃ text declarations, p.root.readFile e.path = some text ∧
    s.bytes + text.utf8ByteSize ≤ maxPackageBytes ∧ s.totalBytes + text.utf8ByteSize ≤ maxBytes ∧
    extracted p s e.path text = some declarations ∧
    declarations.warnings.any saysPartial = false ∧ declarations.symbols.length ≤ available s ∧
    s.packageSymbols + declarations.symbols.length < maxPackageSymbols ∧
    s.symbolBytes + textBytes p declarations.symbols = maxBytes

/-- The walk comes to an entry, and is not cancelled there. -/
def Meets (p : Params) (init : State) (e : Entry) (s : State) : Prop :=
  ∃ n dir rest next, run p n (.next, init) = (.entries dir (e :: rest) next, s) ∧
    p.cancel s.polls = false

/-! ### What is through -/

def Place.current : Place → List String
  | .page dir _ => [dir]
  | .entries dir _ _ => [dir]
  | _ => []

/-- A directory the walk is through with, is in or has still to go to. -/
def Known (closed : List String) (c : Place × State) (dir : String) : Prop :=
  dir ∈ closed ∨ dir ∈ c.2.dirs ∨ dir ∈ c.1.current

/-- Nothing is left to do about an entry. -/
inductive Handled (known : String → Prop) (reads : List String) (e : Entry) : Prop where
  | passed (h : passedOver e.name = true)
  | directory (hkind : e.kind = .directory) (h : known e.path)
  | other (hkind : e.kind = .file) (h : isRust e.name = false)
  | source (hkind : e.kind = .file) (h : e.path ∈ reads)

/-- How far the walk is in the directory it is in. -/
inductive Here (p : Params) (handled : Entry → Prop) : Place → Prop where
  | next : Here p handled .next
  | page {dir : String} {offset : Nat}
      (h : ∀ entries truncated, p.root.whole dir = some (entries, truncated) →
        ∀ e ∈ entries.take offset, handled e) : Here p handled (.page dir offset)
  | entries {dir : String} {before rest after : List Entry} {next : Option Nat}
      (hwhole : p.root.whole dir = some (before ++ rest ++ after, false))
      (hbefore : ∀ e ∈ before, handled e)
      (hnext : next.elim (after = []) fun offset => offset = (before ++ rest).length) :
      Here p handled (.entries dir rest next)
  | returned : Here p handled .returned

/-- **What a walk has covered** whose package is not marked. -/
structure Covers (p : Params) (closed : List String) (c : Place × State) : Prop where
  src : Known closed c (join p.base "src")
  through : ∀ dir ∈ closed, ∃ entries, p.root.whole dir = some (entries, false) ∧
    ∀ e ∈ entries, Handled (Known closed c) c.2.reads e
  here : Here p (Handled (Known closed c) c.2.reads) c.1
  reads : ∀ path ∈ c.2.reads, Catalogued p c.2 path

section Covering

variable {p : Params} {known known' : String → Prop} {reads reads' : List String} {e : Entry}
  {closed : List String} {c : Place × State} {s t : State}

theorem Handled.mono (h : Handled known reads e) (hknown : ∀ dir, known dir → known' dir)
    (hreads : ∀ path ∈ reads, path ∈ reads') : Handled known' reads' e := by
  cases h with
  | passed h => exact .passed h
  | directory hkind h => exact .directory hkind (hknown _ h)
  | other hkind h => exact .other hkind h
  | source hkind h => exact .source hkind (hreads _ h)

variable {dir path : String}

theorem Catalogued.mono (h : Catalogued p s path) (hid : t.package.id = s.package.id)
    (hreads : ∀ path ∈ s.reads, path ∈ t.reads)
    (hsymbols : ∀ symbol ∈ s.catalog.symbols, symbol ∈ t.catalog.symbols) :
    Catalogued p t path := by
  obtain ⟨hread, text, declarations, htext, hextracted, hin⟩ := h
  refine ⟨hreads _ hread, text, declarations, htext, ?_, fun symbol h => hsymbols _ (hin symbol h)⟩
  rw [← hextracted]
  unfold extracted sourceRef
  rw [hid]

/-- **A walk that has nothing left to go to has read every file.** -/
theorem Covers.all (h : Covers p closed (.returned, s)) (hdirs : s.dirs = [])
    (hsource : Source p path) : Catalogued p s path := by
  have hknown : ∀ dir, Known closed (.returned, s) dir → dir ∈ closed := by
    rintro dir (hclosed | hqueued | hcurrent)
    · exact hclosed
    · dsimp only at hqueued
      rw [hdirs] at hqueued
      cases hqueued
    · cases hcurrent
  have hreached : ∀ dir, Reached p dir → dir ∈ closed := by
    intro dir hdir
    induction hdir with
    | src => exact hknown _ h.src
    | @child dir name raws _ hraws hraw hname ih =>
        obtain ⟨entries, hwhole, hhandled⟩ := h.through dir ih
        obtain ⟨_, _, heq, heq', hmem⟩ := whole_mem hwhole hraws hraw
        cases heq
        cases heq'
        cases hhandled _ hmem with
        | passed hpassed => rw [hname] at hpassed; cases hpassed
        | directory _ hdir => exact hknown _ hdir
        | other hkind _ | source hkind _ => cases hkind
  obtain ⟨dir, raws, name, hdir, hraws, hraw, hname, hrust, hpath, -⟩ := hsource
  obtain ⟨entries, hwhole, hhandled⟩ := h.through dir (hreached dir hdir)
  obtain ⟨_, _, heq, heq', hmem⟩ := whole_mem hwhole hraws hraw
  cases heq
  cases heq'
  cases hhandled _ hmem with
  | passed hpassed => rw [hname] at hpassed; cases hpassed
  | directory hkind _ => cases hkind
  | other _ hother => rw [hrust] at hother; cases hother
  | source _ hread => rw [hpath]; exact h.reads _ hread

theorem covers_start (p : Params) (catalog : Catalog) (package : Package) (totals : Totals) :
    Covers p [] (.next, start p catalog package totals) := by
  refine ⟨.inr (.inl List.mem_cons_self), ?_, .next, ?_⟩
  · intro dir hdir; cases hdir
  · intro path hpath; cases hpath

/-! ### What a step covers -/

theorem Covers.move (h : Covers p closed c) {place : Place}
    (hid : t.package.id = c.2.package.id) (hreads : t.reads = c.2.reads)
    (hsymbols : t.catalog.symbols = c.2.catalog.symbols)
    (hknown : ∀ dir, Known closed c dir → Known closed (place, t) dir)
    (hhere : Here p (Handled (Known closed (place, t)) t.reads) place) :
    Covers p closed (place, t) := by
  refine ⟨hknown _ h.src, ?_, hhere, ?_⟩
  · intro dir hdir
    obtain ⟨entries, hwhole, hhandled⟩ := h.through dir hdir
    refine ⟨entries, hwhole, fun e he => (hhandled e he).mono hknown ?_⟩
    intro path hpath
    rw [hreads]
    exact hpath
  · intro path hpath
    rw [hreads] at hpath
    refine (h.reads path hpath).mono hid ?_ ?_
    · intro path hpath
      rw [hreads]
      exact hpath
    · intro symbol hsymbol
      rw [hsymbols]
      exact hsymbol

theorem Covers.next (h : Covers p closed (.next, s)) {dirs : List String}
    (hdirs : s.dirs = dir :: dirs) : Covers p closed (.page dir 0, { s with dirs := dirs }) := by
  refine h.move rfl rfl rfl ?_ (.page ?_)
  · rintro other (hclosed | hqueued | hcurrent)
    · exact .inl hclosed
    · dsimp only at hqueued
      rw [hdirs] at hqueued
      rcases List.mem_cons.mp hqueued with heq | hlater
      · exact .inr (.inr (List.mem_singleton.mpr heq))
      · exact .inr (.inl hlater)
    · cases hcurrent
  · intro entries truncated _ e he
    rw [List.take_zero] at he
    cases he

theorem Covers.page {offset : Nat} (h : Covers p closed (.page dir offset, s))
    {entries : List Entry} {next : Option Nat}
    (hlist : p.root.list dir offset 200 = some (entries, next, false))
    (heq : t = { s with polls := t.polls }) : Covers p closed (.entries dir entries next, t) := by
  obtain ⟨all, hwhole, hpage, hnext⟩ := list_eq_some hlist
  have hknown : ∀ dir', Known closed (.page dir offset, s) dir' →
      Known closed (.entries dir entries next, t) dir' := by
    intro dir' hdir'
    rw [heq]
    exact hdir'
  have hbefore : ∀ e ∈ all.take offset,
      Handled (Known closed (.entries dir entries next, t)) t.reads e := by
    intro e he
    cases h.here with
    | page hhere =>
        refine (hhere all false hwhole e he).mono hknown ?_
        intro path hpath
        rw [heq]
        exact hpath
  have hsplit : all = all.take offset ++ entries ++ all.drop (offset + 200) := by
    rw [hpage, List.append_assoc, ← List.drop_drop, List.take_append_drop, List.take_append_drop]
  refine h.move (by rw [heq]) (by rw [heq]) (by rw [heq]) hknown
    (@Here.entries _ _ _ _ _ (all.drop (offset + 200)) _ ?_ hbefore ?_)
  · rw [← hsplit]; exact hwhole
  · by_cases hmore : offset + 200 < all.length
    · rw [hnext, if_pos hmore, Option.elim_some, List.length_append, hpage, List.length_take,
        List.length_take, List.length_drop]
      omega
    · rw [hnext, if_neg hmore, Option.elim_none]
      exact List.drop_eq_nil_iff.mpr (Nat.le_of_not_lt hmore)

theorem Covers.more {offset : Nat} (h : Covers p closed (.entries dir [] (some offset), s)) :
    Covers p closed (.page dir offset, s) := by
  refine h.move rfl rfl rfl (fun dir' hdir' => hdir') (.page ?_)
  intro entries truncated hwhole e he
  cases h.here with
  | @entries _ before _ after _ hwhole' hbefore hnext =>
      rw [hwhole] at hwhole'
      cases hwhole'
      rw [Option.elim_some, List.append_nil] at hnext
      rw [List.append_nil, hnext, List.take_left] at he
      exact hbefore e he

theorem Covers.close (h : Covers p closed (.entries dir [] none, s)) :
    Covers p (dir :: closed) (.next, s) := by
  have hknown : ∀ dir', Known closed (.entries dir [] none, s) dir' →
      Known (dir :: closed) (.next, s) dir' := by
    rintro dir' (hclosed | hqueued | hcurrent)
    · exact .inl (List.mem_cons_of_mem _ hclosed)
    · exact .inr (.inl hqueued)
    · rw [List.mem_singleton.mp hcurrent]; exact .inl List.mem_cons_self
  refine ⟨hknown _ h.src, ?_, .next, h.reads⟩
  intro dir' hdir'
  rcases List.mem_cons.mp hdir' with heq | hclosed
  · rw [heq]
    cases h.here with
    | @entries _ before _ after _ hwhole hbefore hnext =>
        rw [Option.elim_none] at hnext
        rw [hnext, List.append_nil, List.append_nil] at hwhole
        exact ⟨before, hwhole, fun e he => (hbefore e he).mono hknown fun _ hpath => hpath⟩
  · obtain ⟨entries, hwhole, hhandled⟩ := h.through dir' hclosed
    exact ⟨entries, hwhole, fun e he => (hhandled e he).mono hknown fun _ hpath => hpath⟩

theorem Covers.advance {rest : List Entry} {next : Option Nat}
    (h : Covers p closed (.entries dir (e :: rest) next, s)) (hdirs : ∀ dir ∈ s.dirs, dir ∈ t.dirs)
    (hreads : ∀ path ∈ s.reads, path ∈ t.reads)
    (hcatalogued : ∀ path ∈ t.reads, Catalogued p t path)
    (hhandled : Handled (Known closed (.entries dir rest next, t)) t.reads e) :
    Covers p closed (.entries dir rest next, t) := by
  have hknown : ∀ dir', Known closed (.entries dir (e :: rest) next, s) dir' →
      Known closed (.entries dir rest next, t) dir' := by
    rintro dir' (hclosed | hqueued | hcurrent)
    · exact .inl hclosed
    · exact .inr (.inl (hdirs _ hqueued))
    · exact .inr (.inr hcurrent)
  refine ⟨hknown _ h.src, ?_, ?_, hcatalogued⟩
  · intro dir' hdir'
    obtain ⟨entries, hwhole, hall⟩ := h.through dir' hdir'
    exact ⟨entries, hwhole, fun e he => (hall e he).mono hknown hreads⟩
  · cases h.here with
    | @entries _ before _ after _ hwhole hbefore hnext =>
        refine @Here.entries _ _ _ (before ++ [e]) _ after _ ?_ ?_ ?_
        · rw [List.append_assoc before [e], List.singleton_append]; exact hwhole
        · intro e' he'
          rcases List.mem_append.mp he' with hold | hnew
          · exact (hbefore e' hold).mono hknown hreads
          · rw [List.mem_singleton.mp hnew]; exact hhandled
        · rw [List.append_assoc before [e], List.singleton_append]; exact hnext

theorem Whole.catalogued {kept : List CatalogSymbol} {size : Nat} (hwhole : Whole p path s t kept)
    (hindexed : Indexed p path s t kept size) (h : ∀ path ∈ s.reads, Catalogued p s path) :
    ∀ path ∈ t.reads, Catalogued p t path := by
  have hreads : ∀ path ∈ s.reads, path ∈ t.reads := by
    intro path' hpath'
    rw [hwhole.reads]
    exact List.mem_append_left _ hpath'
  have hsymbols : ∀ symbol ∈ s.catalog.symbols, symbol ∈ t.catalog.symbols := by
    intro symbol hsymbol
    rw [hindexed.symbols]
    exact List.mem_append_left _ hsymbol
  intro path' hpath'
  have hpath := hpath'
  rw [hwhole.reads] at hpath
  rcases List.mem_append.mp hpath with hold | hnew
  · exact (h path' hold).mono hindexed.id hreads hsymbols
  · rw [List.mem_singleton.mp hnew] at hpath' ⊢
    obtain ⟨text, declarations, hread, -, -, hextracted, -, hkept⟩ := hwhole.read
    refine ⟨hpath', text, declarations, hread, ?_, ?_⟩
    · rw [← hextracted]
      unfold extracted sourceRef
      rw [hindexed.id]
    · intro symbol hsymbol
      rw [hindexed.symbols, hkept]
      exact List.mem_append_right _ hsymbol

/-- **An entry that the walk goes on from is covered.** -/
theorem Covers.entry {rest : List Entry} {next : Option Nat}
    (h : Covers p closed (.entries dir (e :: rest) next, s)) (hok : indexEntry p e s = .ok t)
    (hcomplete : t.package.indexState = .complete) :
    Covers p closed (.entries dir rest next, t) := by
  rcases indexEntry_cases p e s with ⟨heq, hother⟩ | ⟨heq, hkind⟩ | ⟨warning, heq⟩ |
    ⟨hpassed, hkind, hrust, heq⟩
  · rw [heq] at hok
    cases hok
    refine h.advance (fun _ hdir => hdir) (fun _ hpath => hpath) h.reads ?_
    rcases hother with hpassed | ⟨hkind, hrust⟩
    · exact .passed hpassed
    · exact .other hkind hrust
  · rw [heq] at hok
    cases hok
    refine h.advance (fun _ hdir => List.mem_append_left _ hdir) (fun _ hpath => hpath) h.reads ?_
    exact .directory hkind (.inr (.inl (List.mem_append_right _ (List.mem_singleton.mpr rfl))))
  · rw [heq] at hok
    cases hok
    cases hcomplete
  · rw [heq] at hok
    obtain ⟨u, kept, size, hout, hindexed⟩ :=
      indexFile_indexed p e.path { s with visited := s.visited + 1 }
    have htu : u = t := by
      rcases hout with ⟨hok', -⟩ | ⟨herror, -⟩
      · rw [hok'] at hok
        cases hok
        rfl
      · rw [herror] at hok; cases hok
    subst htu
    rcases hindexed.whole with hmarked | hwhole
    · rw [hmarked] at hcomplete; cases hcomplete
    · refine h.advance ?_ ?_ (hwhole.catalogued hindexed h.reads) ?_
      · intro dir' hdir'
        rw [hindexed.dirs]
        exact hdir'
      · intro path hpath
        rw [hwhole.reads]
        exact List.mem_append_left _ hpath
      · refine .source hkind ?_
        rw [hwhole.reads]
        exact List.mem_append_right _ (List.mem_singleton.mpr rfl)

/-- **A walk that is left without a mark was left for the text of declarations.** -/
theorem fills_of_error (hroomy : s.symbolBytes < maxBytes) (herror : indexEntry p e s = .error t)
    (hcomplete : t.package.indexState = .complete) :
    Fills p e s ∧ t.reads = s.reads ++ [e.path] ∧
      ((∀ path ∈ s.reads, Catalogued p s path) → ∀ path ∈ t.reads, Catalogued p t path) := by
  rcases indexEntry_cases p e s with ⟨heq, -⟩ | ⟨heq, -⟩ | ⟨warning, heq⟩ |
    ⟨hpassed, hkind, hrust, heq⟩
  · rw [heq] at herror; cases herror
  · rw [heq] at herror; cases herror
  · rw [heq] at herror; cases herror
  · rw [heq] at herror
    obtain ⟨u, kept, size, hout, hindexed⟩ :=
      indexFile_indexed p e.path { s with visited := s.visited + 1 }
    rcases hout with ⟨hok, -⟩ | ⟨herror', hlimits⟩
    · rw [hok] at herror; cases herror
    · rw [herror'] at herror
      cases herror
      rcases hindexed.whole with hmarked | hwhole
      · rw [hmarked] at hcomplete; cases hcomplete
      · rcases hlimits with hmarked | ⟨hsymbols, htext⟩
        · rw [hmarked] at hcomplete; cases hcomplete
        · obtain ⟨text, declarations, hread, hbytes, htotal, hextracted, hquiet, hkept⟩ :=
            hwhole.read
          refine ⟨⟨hwhole.state.symm.trans hcomplete, ⟨hpassed, hkind, hrust⟩, hwhole.room, text,
            declarations, hread, hbytes, htotal, hextracted, hquiet, ?_, ?_, ?_⟩, hwhole.reads,
            hwhole.catalogued hindexed⟩
          · rw [← hkept]; exact hindexed.symbolRoom
          · rw [← hkept]
            have hcount := hindexed.packageSymbols
            dsimp only at hcount
            omega
          · rw [← hkept]
            have hexact := hwhole.text
            have hmost := hindexed.most (Nat.le_of_lt hroomy)
            dsimp only at hexact
            omega

theorem complete_of_entry {r : Except State State} (hr : indexEntry p e s = r)
    (hcomplete : (Loops.outcome r).package.indexState = .complete) :
    s.package.indexState = .complete := by
  subst hr
  rcases indexEntry_cases p e s with ⟨heq, -⟩ | ⟨heq, -⟩ | ⟨warning, heq⟩ | ⟨-, -, -, heq⟩
  · rw [heq] at hcomplete; exact hcomplete
  · rw [heq] at hcomplete; exact hcomplete
  · rw [heq] at hcomplete; cases hcomplete
  · rw [heq] at hcomplete
    obtain ⟨t, kept, size, hout, hindexed⟩ :=
      indexFile_indexed p e.path { s with visited := s.visited + 1 }
    have houtcome : Loops.outcome (indexFile p e.path { s with visited := s.visited + 1 }) = t := by
      rcases hout with ⟨hok, -⟩ | ⟨herror, -⟩
      · rw [hok]; rfl
      · rw [herror]; rfl
    rw [houtcome] at hcomplete
    rcases hindexed.whole with hmarked | hwhole
    · rw [hmarked] at hcomplete; cases hcomplete
    · exact hwhole.state.symm.trans hcomplete

/-- What a walk that has come so far without a mark has: all it went through is covered, or it was
left for the text of the declarations of a file. -/
def Sound (p : Params) (init : State) (c : Place × State) : Prop :=
  (∃ closed, Covers p closed c ∧ (c.1 = .returned → c.2.dirs = [])) ∨
    ∃ e s, Meets p init e s ∧ Fills p e s ∧ c.1 = .returned ∧ c.2.reads = s.reads ++ [e.path] ∧
      ∀ path ∈ c.2.reads, Catalogued p c.2 path

theorem run_succ (p : Params) (n : Nat) (c : Place × State) :
    run p (n + 1) c = step p (run p n c) := by
  induction n generalizing c with
  | zero => rfl
  | succ n ih =>
      unfold run
      exact ih (step p c)

/-- **A step leaves a walk sound, or marks the package or is cancelled.** -/
theorem step_sound {init : State} {n : Nat} (hrun : run p n (.next, init) = c)
    (hroomy : Roomy c) (h : Sound p init c) (hgoing : (step p c).1 ≠ .cancelled)
    (hcomplete : (step p c).2.package.indexState = .complete) : Sound p init (step p c) := by
  rcases h with ⟨closed, hcovers, hend⟩ | ⟨e, s, hmeets, hfills, hreturned, hreads⟩
  · obtain ⟨place, s⟩ := c
    cases place with
    | next =>
        cases hdirs : s.dirs with
        | nil =>
            rw [step_next_nil hdirs]
            have hmoved : Covers p closed (.returned, s) :=
              hcovers.move rfl rfl rfl (fun _ hdir => hdir) .returned
            exact .inl ⟨closed, hmoved, fun _ => hdirs⟩
        | cons dir dirs =>
            rw [step_next_cons hdirs]
            exact .inl ⟨closed, hcovers.next hdirs, fun h => nomatch h⟩
    | page dir offset =>
        rw [step_page] at hgoing hcomplete ⊢
        unfold checked at hgoing hcomplete ⊢
        by_cases hcancel : p.cancel s.polls = true
        · rw [if_pos hcancel] at hgoing; exact absurd rfl hgoing
        · rw [if_neg hcancel] at hcomplete ⊢
          rcases readPage_cases p dir offset { s with polls := s.polls + 1 } with ⟨warning, heq⟩ |
            ⟨warning, heq⟩ | ⟨entries, next, truncated, hlist, -, -, heq⟩
          · rw [heq] at hcomplete; cases hcomplete
          · rw [heq] at hcomplete; cases hcomplete
          · rw [heq] at hcomplete ⊢
            cases truncated with
            | true => cases hcomplete
            | false => exact .inl ⟨closed, hcovers.page hlist rfl, fun h => nomatch h⟩
    | entries dir rest next =>
        cases rest with
        | nil =>
            cases next with
            | none => exact .inl ⟨dir :: closed, hcovers.close, fun h => nomatch h⟩
            | some offset => exact .inl ⟨closed, hcovers.more, fun h => nomatch h⟩
        | cons e rest =>
            rw [step_entry] at hgoing hcomplete ⊢
            unfold checked at hgoing hcomplete ⊢
            by_cases hcancel : p.cancel s.polls = true
            · rw [if_pos hcancel] at hgoing; exact absurd rfl hgoing
            · rw [if_neg hcancel] at hcomplete ⊢
              dsimp only at hcomplete ⊢
              have hpolled : Covers p closed
                  (.entries dir (e :: rest) next, { s with polls := s.polls + 1 }) :=
                ⟨hcovers.src, hcovers.through, hcovers.here, hcovers.reads⟩
              cases hentry : indexEntry p e { s with polls := s.polls + 1 } with
              | ok t =>
                  rw [hentry] at hcomplete
                  exact .inl ⟨closed, hpolled.entry hentry hcomplete, fun h => nomatch h⟩
              | error t =>
                  rw [hentry] at hcomplete
                  obtain ⟨hfills, hreads, hcatalogued⟩ := fills_of_error
                    (s := { s with polls := s.polls + 1 }) hroomy.2 hentry hcomplete
                  refine .inr ⟨e, s, ⟨n, dir, rest, next, hrun, Bool.eq_false_iff.mpr hcancel⟩,
                    ⟨hfills.complete, hfills.source, hfills.room, hfills.read⟩, rfl, hreads,
                    hcatalogued hcovers.reads⟩
    | returned => exact .inl ⟨closed, hcovers, hend⟩
    | cancelled => exact absurd rfl hgoing
  · have hended : step p c = c := step_ended (.inl hreturned)
    rw [hended]
    exact .inr ⟨e, s, hmeets, hfills, hreturned, hreads⟩

theorem complete_of_step (hcomplete : (step p c).2.package.indexState = .complete) :
    c.2.package.indexState = .complete := by
  obtain ⟨place, s⟩ := c
  cases place with
  | next =>
      cases hdirs : s.dirs with
      | nil => rw [step_next_nil hdirs] at hcomplete; exact hcomplete
      | cons dir dirs => rw [step_next_cons hdirs] at hcomplete; exact hcomplete
  | page dir offset =>
      rw [step_page] at hcomplete
      unfold checked at hcomplete
      by_cases hcancel : p.cancel s.polls = true
      · rw [if_pos hcancel] at hcomplete; exact hcomplete
      · rw [if_neg hcancel] at hcomplete
        rcases readPage_cases p dir offset { s with polls := s.polls + 1 } with ⟨warning, heq⟩ |
          ⟨warning, heq⟩ | ⟨entries, next, truncated, -, -, -, heq⟩
        · rw [heq] at hcomplete; cases hcomplete
        · rw [heq] at hcomplete; cases hcomplete
        · rw [heq] at hcomplete
          cases truncated with
          | true => cases hcomplete
          | false => exact hcomplete
  | entries dir rest next =>
      cases rest with
      | nil =>
          cases next with
          | none | some => exact hcomplete
      | cons e rest =>
          rw [step_entry] at hcomplete
          unfold checked at hcomplete
          by_cases hcancel : p.cancel s.polls = true
          · rw [if_pos hcancel] at hcomplete; exact hcomplete
          · rw [if_neg hcancel] at hcomplete
            dsimp only at hcomplete
            cases hentry : indexEntry p e { s with polls := s.polls + 1 } with
            | ok t =>
                rw [hentry] at hcomplete
                have hmarks : (Loops.outcome (.ok t)).package.indexState = .complete := hcomplete
                exact complete_of_entry (s := { s with polls := s.polls + 1 }) hentry hmarks
            | error t =>
                rw [hentry] at hcomplete
                have hmarks : (Loops.outcome (.error t)).package.indexState = .complete := hcomplete
                exact complete_of_entry (s := { s with polls := s.polls + 1 }) hentry hmarks
  | returned | cancelled => exact hcomplete

/-- **A walk that is not marked and not cancelled is sound.** -/
theorem run_sound {catalog : Catalog} {package : Package} {totals : Totals} {n : Nat}
    (hgoing : (run p n (.next, start p catalog package totals)).1 ≠ .cancelled)
    (hcomplete : (run p n (.next, start p catalog package totals)).2.package.indexState =
      .complete) :
    Sound p (start p catalog package totals)
      (run p n (.next, start p catalog package totals)) := by
  induction n with
  | zero => exact .inl ⟨[], covers_start p catalog package totals, fun h => nomatch h⟩
  | succ n ih =>
      rw [run_succ] at hgoing hcomplete ⊢
      generalize hc : run p n (.next, start p catalog package totals) = c at *
      have hroomy : Roomy c := by
        rw [← hc]
        exact (run_within (c := (.next, start p catalog package totals))
          (within_start p catalog package totals) trivial).2
      have hgoing' : c.1 ≠ .cancelled := by
        intro h
        rw [step_ended (.inr h)] at hgoing
        exact hgoing h
      exact step_sound hc hroomy (ih hgoing' (complete_of_step hcomplete)) hgoing hcomplete

/-! ### A file that fills the text budget -/

theorem addSymbols_fit {symbols : List CatalogSymbol}
    (h : s.symbolBytes + textBytes p symbols ≤ maxBytes) : addSymbols p symbols s = { s with
      catalog := { s.catalog with symbols := s.catalog.symbols ++ symbols }
      packageSymbols := s.packageSymbols + symbols.length
      symbolBytes := s.symbolBytes + textBytes p symbols } := by
  induction symbols generalizing s with
  | nil => rw [List.append_nil]; rfl
  | cons symbol rest ih =>
      rw [textBytes_cons] at h
      unfold addSymbols
      rw [if_neg (by omega)]
      rw [ih (by dsimp only; omega), textBytes_cons]
      dsimp only
      rw [List.append_assoc, List.singleton_append, List.length_cons, Nat.add_assoc s.symbolBytes,
        Nat.add_assoc s.packageSymbols, Nat.add_comm 1]

/-- **A file that fills the text budget leaves the walk, and no mark.** -/
theorem Fills.error (h : Fills p e s) : ∃ t, indexEntry p e s = .error t ∧
    t.package.indexState = .complete ∧ t.reads = s.reads ++ [e.path] := by
  obtain ⟨hpassed, hkind, hrust⟩ := h.source
  obtain ⟨hfiles, hpackageFiles, hsymbols⟩ := h.room
  obtain ⟨text, declarations, hread, hbytes, htotal, hextracted, hquiet, havailable, hcount,
    htext⟩ := h.read
  have hentry : indexEntry p e s = indexFile p e.path { s with visited := s.visited + 1 } := by
    unfold indexEntry
    dsimp only
    rw [if_neg (by rw [hpassed]; exact Bool.noConfusion), hkind, if_neg (by decide),
      if_neg (by decide), if_neg (by rw [hrust]; exact Bool.noConfusion)]
  have hspent : ¬ (maxFiles ≤ s.totalFiles ∨ maxPackageFiles ≤ s.files ∨
      maxSymbols ≤ s.catalog.symbols.length) := by omega
  have hover : ¬ (maxPackageBytes < s.bytes + text.utf8ByteSize ∨
      maxBytes < s.totalBytes + text.utf8ByteSize) := by omega
  have hcut : ¬ available s < declarations.symbols.length := Nat.not_lt.mpr havailable
  -- The state in which the declarations are indexed.
  obtain ⟨u, hu⟩ : ∃ u : State, u = { s with
      visited := s.visited + 1
      files := s.files + 1
      totalFiles := s.totalFiles + 1
      reads := s.reads ++ [e.path]
      bytes := s.bytes + text.utf8ByteSize
      totalBytes := s.totalBytes + text.utf8ByteSize } := ⟨_, rfl⟩
  have hfile : indexFile p e.path { s with visited := s.visited + 1 } =
      indexDeclarations p e.path text declarations u := by
    have hextracted' : p.extract e.path text (sourceRef p u e.path text) = some declarations := by
      rw [hu]
      exact hextracted
    unfold indexFile
    rw [if_neg hspent]
    dsimp only
    rw [hread]
    dsimp only
    unfold indexText
    dsimp only
    rw [if_neg hover, ← hu, hextracted']
  obtain ⟨hreport, -, -⟩ := report_eq declarations u
  have hstate : (report declarations u).package.indexState = .complete := by
    have hsame : (report declarations u).package.indexState = u.package.indexState := by
      unfold report
      rw [if_neg (by rw [hquiet]; exact Bool.noConfusion)]
    rw [hsame, hu]
    exact h.complete
  generalize hv : report declarations u = v at hreport hstate
  have hselected : selected declarations.symbols v = declarations.symbols := by
    unfold selected
    rw [if_neg]
    rw [hreport, hu]
    exact hcut
  have hmark : markCut declarations.symbols v = v := by
    unfold markCut
    rw [if_neg]
    rw [hreport, hu]
    exact hcut
  have hfit : v.symbolBytes + textBytes p declarations.symbols ≤ maxBytes := by
    rw [hreport, hu]
    exact Nat.le_of_eq htext
  have hadded := addSymbols_fit hfit
  refine ⟨addSource p e.path text (addSymbols p declarations.symbols v), ?_, ?_, ?_⟩
  · rw [hentry, hfile]
    unfold indexDeclarations
    dsimp only
    rw [hv, hselected, hmark, if_neg, if_pos]
    · rfl
    · rw [hadded]
      unfold addSource
      dsimp only
      rw [hreport, hu]
      exact Nat.le_of_eq htext.symm
    · rw [hadded]
      unfold addSource
      dsimp only
      rw [hreport, hu]
      exact Nat.not_le.mpr hcount
  · rw [hadded]; exact hstate
  · rw [hadded]
    unfold addSource
    dsimp only
    rw [hreport, hu]

end Covering

/-! ### The catalogue's word -/

section Honest

variable {p : Params} {catalog : Catalog} {package : Package} {totals : Totals}

theorem run_add (p : Params) (k j : Nat) (c : Place × State) :
    run p (k + j) c = run p j (run p k c) := by
  induction k generalizing c with
  | zero => rw [Nat.zero_add]; rfl
  | succ k ih => rw [Nat.succ_add]; exact ih (step p c)

theorem run_eq_of_ended {c : Place × State} {m n : Nat} (hm : Ended (run p m c))
    (hn : Ended (run p n c)) : run p m c = run p n c := by
  rcases Nat.le_total m n with hle | hle
  · obtain ⟨j, rfl⟩ := Nat.exists_eq_add_of_le hle
    rw [run_add, run_ended hm]
  · obtain ⟨j, rfl⟩ := Nat.exists_eq_add_of_le hle
    rw [run_add, run_ended hn]

theorem finished_eq_some {c : Place × State} {s : State} :
    finished c = some s ↔ c = (.returned, s) := by
  obtain ⟨place, t⟩ := c
  unfold finished
  cases place with
  | returned | next | page | entries | cancelled => simp

end Honest

/-- **The catalogue's budgets are honest exactly where no file but the last one brings the text of
the declarations to its last byte.** -/
theorem indexPackage_honest_iff (p : Params) (catalog : Catalog) (package : Package)
    (totals : Totals) :
    (∀ s, indexPackage p catalog package totals = some s →
      Within p (start p catalog package totals) s ∧
        (s.package.indexState = .complete → ∀ path, Source p path → Catalogued p s path)) ↔
    ∀ e s, Meets p (start p catalog package totals) e s → Fills p e s →
      ∀ path, Source p path → path = e.path ∨ path ∈ s.reads := by
  constructor
  · rintro h e s ⟨n, dir, rest, next, hrun, hcancel⟩ hfills path hsource
    have hfills' : Fills p e { s with polls := s.polls + 1 } :=
      ⟨hfills.complete, hfills.source, hfills.room, hfills.read⟩
    obtain ⟨t, herror, hcomplete, hreads⟩ := hfills'.error
    have hend : run p (n + 1) (.next, start p catalog package totals) = (.returned, t) := by
      rw [run_succ, hrun, step_entry]
      unfold checked
      rw [if_neg (by rw [hcancel]; exact Bool.noConfusion)]
      dsimp only
      rw [herror]
    have hended : Ended (run p (n + 1) (.next, start p catalog package totals)) := by
      rw [hend]
      exact .inl rfl
    rw [run_eq_of_ended hended (run_start p catalog package totals)] at hend
    obtain ⟨-, hall⟩ := h t (finished_eq_some.mpr hend)
    have hread := (hall hcomplete path hsource).1
    rw [hreads] at hread
    rcases List.mem_append.mp hread with hold | hnew
    · exact .inr hold
    · exact .inl (List.mem_singleton.mp hnew)
  · intro h s hs
    have hrun := finished_eq_some.mp hs
    have hwithin := (run_within (c := (.next, start p catalog package totals)) (n := turns)
      (within_start p catalog package totals) trivial).1
    rw [hrun] at hwithin
    refine ⟨hwithin, fun hcomplete path hsource => ?_⟩
    have hsound : Sound p (start p catalog package totals)
        (run p turns (.next, start p catalog package totals)) := by
      refine run_sound ?_ ?_
      · rw [hrun]; exact Place.noConfusion
      · rw [hrun]; exact hcomplete
    rw [hrun] at hsound
    rcases hsound with ⟨closed, hcovers, hdirs⟩ | ⟨e, s', hmeets, hfills, -, hreads, hcatalogued⟩
    · exact hcovers.all (hdirs rfl) hsource
    · refine hcatalogued path ?_
      dsimp only at hreads ⊢
      rw [hreads]
      rcases h e s' hmeets hfills path hsource with hlast | hbefore
      · rw [hlast]; exact List.mem_append_right _ (List.mem_singleton.mpr rfl)
      · exact List.mem_append_left _ hbefore

/-! ### Two files, and text for the declaration of one -/

namespace Brim

def files : List Raw := [⟨some "a.rs", some .file⟩, ⟨some "b.rs", some .file⟩]

def root : SourceDir where
  root := "/"
  readdir path := if path = "src" then some files else none
  content path := if path = "src/a.rs" then some "pub struct Example;"
    else if path = "src/b.rs" then some "pub struct Other;" else none

def symbol (path ref : String) : CatalogSymbol :=
  ⟨"dependency-symbol:" ++ path, "p", "Example", "example::Example", "struct", none, none,
    "pub struct Example", ref, path, ⟨0, 19, 1, 1, 1, 20⟩⟩

def params : Params where
  root := root
  base := ""
  extract path _ ref := some ⟨[symbol path ref], []⟩
  digest := id
  hash := String.join
  recordSize := 288
  cancel _ := false

def package : Package := ⟨"p", .complete, []⟩

def totals : Totals := ⟨0, 0, maxBytes - 417⟩

def init : State := start params ⟨[], []⟩ package totals

def entries : List Entry := [⟨"a.rs", "src/a.rs", .file⟩, ⟨"b.rs", "src/b.rs", .file⟩]

theorem whole_src : root.whole "src" = some (entries, false) := by decide +kernel

theorem list_src : root.list "src" 0 200 = some (entries, none, false) := by
  have hvalid : ¬ (validPath "src" = false ∨ ¬ (1 ≤ 200 ∧ 200 ≤ 200) ∨ scanLimit < 0) := by
    decide +kernel
  unfold SourceDir.list
  rw [if_neg hvalid, whole_src]
  rfl

theorem readFile_a : root.readFile "src/a.rs" = some "pub struct Example;" := by decide +kernel

theorem run_two : run params 2 (.next, init) =
    (.entries "src" entries none, { init with dirs := [], polls := 1 }) := by
  have hpage : readPage params "src" 0 { init with dirs := [], polls := 1 } =
      (.entries "src" entries none, { init with dirs := [], polls := 1 }) := by
    unfold readPage
    rw [if_neg (by decide), if_neg (by decide), show params.root = root from rfl, list_src]
    rfl
  have hfirst : step params (.next, init) = (.page "src" 0, { init with dirs := [] }) :=
    step_next_cons rfl
  unfold run
  rw [hfirst]
  unfold run
  rw [step_page]
  unfold checked
  rw [if_neg (by decide)]
  exact hpage

theorem fills_a : Fills params ⟨"a.rs", "src/a.rs", .file⟩ { init with dirs := [], polls := 2 } := by
  refine ⟨rfl, by decide +kernel, by decide, "pub struct Example;", _, readFile_a,
    by decide +kernel, by decide +kernel, rfl, rfl, by decide, by decide, ?_⟩
  decide +kernel

theorem source_b : Source params "src/b.rs" := by
  refine ⟨"src", files, "b.rs", .src, rfl, List.mem_cons_of_mem _ List.mem_cons_self, ?_, ?_, rfl, ?_⟩
  · decide +kernel
  · decide +kernel
  · decide +kernel

end Brim

open Brim in
/-- **A package is complete, and one of its files was not read.** -/
theorem indexPackage_brim : ∃ s, indexPackage params ⟨[], []⟩ package totals = some s ∧
    s.package.indexState = .complete ∧ Source params "src/b.rs" ∧ "src/b.rs" ∉ s.reads := by
  obtain ⟨t, herror, hcomplete, hreads⟩ := fills_a.error
  have hend : run params 3 (.next, init) = (.returned, t) := by
    rw [run_succ, run_two]
    unfold entries
    rw [step_entry]
    unfold checked
    rw [if_neg (by decide)]
    dsimp only
    rw [herror]
  have hended : Ended (run params 3 (.next, init)) := by
    rw [hend]
    exact .inl rfl
  rw [run_eq_of_ended hended (run_start params ⟨[], []⟩ package totals)] at hend
  refine ⟨t, finished_eq_some.mpr hend, hcomplete, source_b, ?_⟩
  rw [hreads]
  decide

end Baleyg.Dependency
