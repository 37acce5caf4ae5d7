import Mathlib.Data.List.Basic

/-!
# Worklists

Visit what can be reached from some nodes, with a stack of those still to be looked at. Looking at
a node may fail. The loop ends when nothing is left; how often it may go round is given.
-/

namespace Lib.Worklist

open List

variable {ν ε : Type} [DecidableEq ν]

/-- The nodes that are visited; without a result the rounds have not been enough. -/
def explore (look : ν → Except ε (List ν)) :
    Nat → List ν → List ν → Except ε (Option (List ν))
  | _, visited, [] => .ok (some visited)
  | 0, _, _ :: _ => .ok none
  | fuel + 1, visited, t :: work =>
    if t ∈ visited then explore look fuel visited work
    else
      match look t with
      | .error e => .error e
      | .ok next => explore look fuel (t :: visited) (next.reverse ++ work)

variable {look : ν → Except ε (List ν)} {fuel : Nat} {visited work found : List ν}

/-- All nodes of a set can be looked at, and what they lead to is in the set or in another one. -/
def Leads (look : ν → Except ε (List ν)) (set rest : List ν) : Prop :=
  ∀ t ∈ set, ∃ next, look t = .ok next ∧ ∀ u ∈ next, u ∈ set ∨ u ∈ rest

omit [DecidableEq ν] in
theorem leads_visit {t : ν} {next : List ν} (hlook : look t = .ok next)
    (h : Leads look visited (t :: work)) :
    Leads look (t :: visited) (next.reverse ++ work) := by
  intro s hs
  rcases mem_cons.mp hs with rfl | hs
  · exact ⟨next, hlook, fun u hu => .inr (mem_append_left _ (mem_reverse.mpr hu))⟩
  · obtain ⟨next', hlook', hnext⟩ := h s hs
    refine ⟨next', hlook', fun u hu => ?_⟩
    rcases hnext u hu with hvisited | hwork
    · exact .inl (mem_cons_of_mem _ hvisited)
    · rcases mem_cons.mp hwork with rfl | hwork
      · exact .inl mem_cons_self
      · exact .inr (mem_append_right _ hwork)

theorem explore_closed (hleads : Leads look visited work)
    (h : explore look fuel visited work = .ok (some found)) :
    visited ⊆ found ∧ work ⊆ found ∧ Leads look found [] := by
  induction fuel generalizing visited work with
  | zero =>
    cases work with
    | nil =>
      cases h
      exact ⟨List.Subset.refl _, nil_subset _, hleads⟩
    | cons t work => cases h
  | succ fuel ih =>
    cases work with
    | nil =>
      cases h
      exact ⟨List.Subset.refl _, nil_subset _, hleads⟩
    | cons t work =>
      rw [explore] at h
      split at h
      · next ht =>
        have hrest : Leads look visited work := by
          intro s hs
          obtain ⟨next, hlook, hnext⟩ := hleads s hs
          refine ⟨next, hlook, fun u hu => ?_⟩
          rcases hnext u hu with hvisited | hwork
          · exact .inl hvisited
          · rcases mem_cons.mp hwork with rfl | hwork
            · exact .inl ht
            · exact .inr hwork
        obtain ⟨hvisited, hwork, hclosed⟩ := ih hrest h
        exact ⟨hvisited, cons_subset.mpr ⟨hvisited ht, hwork⟩, hclosed⟩
      · split at h
        · cases h
        · next next hlook =>
          obtain ⟨hvisited, hwork, hclosed⟩ := ih (leads_visit hlook hleads) h
          obtain ⟨ht, hvisited⟩ := cons_subset.mp hvisited
          exact ⟨hvisited, cons_subset.mpr
            ⟨ht, fun u hu => hwork (mem_append_right _ hu)⟩, hclosed⟩

theorem explore_reaches {t : ν}
    (h : explore look fuel [] [t] = .ok (some found)) :
    t ∈ found ∧ ∀ s ∈ found, ∃ next, look s = .ok next ∧ next ⊆ found := by
  obtain ⟨-, hwork, hclosed⟩ := explore_closed (fun _ hs => absurd hs not_mem_nil) h
  refine ⟨hwork mem_cons_self, fun s hs => ?_⟩
  obtain ⟨next, hlook, hnext⟩ := hclosed s hs
  exact ⟨next, hlook, fun u hu => (hnext u hu).resolve_right not_mem_nil⟩

end Lib.Worklist
