/-
Maps that are filled without overwriting.

A map is often filled from a list of things, each of which has some entries to add, and a key
that comes a second time is an error.  What such a loop returns is then no more than all the
entries one after another, with no key twice, so two maps that are filled from the same things
can be compared entry by entry.
-/
import Baleyg.Lib.Fallible
import Baleyg.Lib.Lookup

namespace Entries

open Fallible (ensure ensure_bind_eq_ok bind_eq_ok mapM_eq_ok)

variable {ε κ α β γ : Type} [BEq κ] [LawfulBEq κ]

/-- Add entries whose keys are new, and raise at the first that is not. -/
def insertNew (message : ε) : List (κ × β) → List (κ × β) → Except ε (List (κ × β))
  | m, [] => pure m
  | m, entry :: entries => do
      ensure ((m.lookup entry.1).isNone = true) message
      insertNew message (m ++ [entry]) entries

/-- Add the entries of every thing there is. -/
def collect (message : ε) (entriesOf : α → Except ε (List (κ × β))) :
    List (κ × β) → List α → Except ε (List (κ × β))
  | m, [] => pure m
  | m, a :: as => do
      let entries ← entriesOf a
      let m ← insertNew message m entries
      collect message entriesOf m as

variable {message : ε} {m m' entries : List (κ × β)}

theorem mapM_map_eq_ok {δ : Type} {f : α → Except ε γ} {g : α → Except ε δ} {k : γ → δ}
    {as : List α} {bs : List γ} (h : as.mapM f = .ok bs)
    (hg : ∀ a ∈ as, ∀ b, f a = .ok b → g a = .ok (k b)) : as.mapM g = .ok (bs.map k) := by
  rw [mapM_eq_ok] at h ⊢
  induction h with
  | nil => exact .nil
  | cons hab _ ih =>
      exact .cons (hg _ List.mem_cons_self _ hab) (ih fun a ha => hg a (List.mem_cons_of_mem _ ha))

theorem insertNew_eq_ok (hm : (m.map Prod.fst).Nodup) :
    insertNew message m entries = .ok m' ↔ m' = m ++ entries ∧ (m'.map Prod.fst).Nodup := by
  induction entries generalizing m with
  | nil =>
      rw [List.append_nil]
      constructor
      · intro h
        cases h
        exact ⟨rfl, hm⟩
      · rintro ⟨rfl, -⟩
        rfl
  | cons entry entries ih =>
      have hsplit : m ++ entry :: entries = m ++ [entry] ++ entries := by simp
      unfold insertNew
      rw [ensure_bind_eq_ok, Option.isNone_iff_eq_none, Lookup.lookup_eq_none]
      constructor
      · rintro ⟨hnew, h⟩
        have hm' : ((m ++ [entry]).map Prod.fst).Nodup := by
          rw [List.map_append, List.map_singleton, ← List.concat_eq_append]
          exact hm.concat hnew
        rw [hsplit]
        exact (ih hm').mp h
      · rintro ⟨rfl, hnodup⟩
        have hfirst : ((m ++ [entry]).map Prod.fst).Nodup := by
          refine hnodup.sublist (List.Sublist.map _ ?_)
          rw [hsplit]
          exact List.sublist_append_left _ _
        refine ⟨fun hmem => ?_, (ih hfirst).mpr ⟨hsplit, hnodup⟩⟩
        rw [List.map_append, List.map_singleton, List.nodup_append] at hfirst
        exact hfirst.2.2 _ hmem _ List.mem_cons_self rfl

/-- **What a map is filled with.** -/
theorem collect_eq_ok {entriesOf : α → Except ε (List (κ × β))} {as : List α}
    (hm : (m.map Prod.fst).Nodup) :
    collect message entriesOf m as = .ok m' ↔
      ∃ added, as.mapM entriesOf = .ok added ∧ m' = m ++ added.flatten ∧
        (m'.map Prod.fst).Nodup := by
  induction as generalizing m with
  | nil =>
      constructor
      · intro h
        cases h
        exact ⟨[], rfl, by simp, hm⟩
      · rintro ⟨added, hadded, rfl, -⟩
        cases hadded
        simp [collect]
        rfl
  | cons a as ih =>
      unfold collect
      rw [bind_eq_ok]
      constructor
      · rintro ⟨entries, hentries, h⟩
        rw [bind_eq_ok] at h
        obtain ⟨next, hnext, h⟩ := h
        obtain ⟨rfl, hnodup⟩ := (insertNew_eq_ok hm).mp hnext
        obtain ⟨added, hadded, rfl, hall⟩ := (ih hnodup).mp h
        refine ⟨entries :: added, ?_, by simp, hall⟩
        rw [mapM_eq_ok] at hadded ⊢
        exact .cons hentries hadded
      · rintro ⟨added, hadded, rfl, hall⟩
        rw [mapM_eq_ok] at hadded
        cases hadded with
        | @cons _ entries _ added hentries hadded =>
            have hsplit : m ++ (entries :: added).flatten = m ++ entries ++ added.flatten := by
              simp
            have hnext : ((m ++ entries).map Prod.fst).Nodup := by
              refine hall.sublist (List.Sublist.map _ ?_)
              rw [hsplit]
              exact List.sublist_append_left _ _
            refine ⟨entries, hentries, ?_⟩
            rw [bind_eq_ok]
            refine ⟨_, (insertNew_eq_ok hm).mpr ⟨rfl, hnext⟩, (ih hnext).mpr ?_⟩
            exact ⟨added, mapM_eq_ok.mpr hadded, hsplit, hall⟩

end Entries
