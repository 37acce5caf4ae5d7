import Mathlib.Logic.Basic

/-!
# Threads

A thread works on a shared state in critical sections and others see the state between them only.
-/

namespace Lib

/-- A thread has ended with a result, or goes on with a critical section that may depend on the
state. -/
inductive Thread (σ α : Type) where
  | done (a : α)
  | locked (f : σ → σ) (next : σ → Thread σ α)

namespace Thread

variable {σ α β : Type} {I J : σ → Prop} {Q R : σ → α → Prop} {s : σ} {t : Thread σ α}

protected def bind : Thread σ α → (α → Thread σ β) → Thread σ β
  | done a, k => k a
  | locked f next, k => locked f fun s => (next s).bind k

instance : Monad (Thread σ) where
  pure := done
  bind := Thread.bind

def read (f : σ → β) : Thread σ β :=
  locked id fun s => done (f s)

def modify (f : σ → σ) : Thread σ Unit :=
  locked f fun _ => done ()

def update (f : σ → β × σ) : Thread σ β :=
  locked (fun s => (f s).2) fun s => done (f s).1

def result? : Thread σ α → Option α
  | done a => some a
  | locked _ _ => none

/-- From a state on, `I` holds wherever the thread is between two sections and `Q` where it has
ended. -/
def Ends (I : σ → Prop) (Q : σ → α → Prop) : Thread σ α → σ → Prop
  | done a, s => Q s a
  | locked f next, s => (next s).Ends I Q (f s) ∧ ((next s).result? = none → I (f s))

theorem Ends.bind {k : α → Thread σ β} {Q : σ → β → Prop}
    (h : t.Ends I (fun s a => (k a).Ends I Q s ∧ ((k a).result? = none → I s)) s) :
    (t >>= k).Ends I Q s := by
  induction t generalizing s with
  | done a => exact h.1
  | locked f next ih =>
    obtain ⟨hnext, hbetween⟩ := h
    refine ⟨ih s hnext, fun hgoes => ?_⟩
    change ((next s).bind k).result? = none at hgoes
    cases hn : next s with
    | done a =>
      rw [hn] at hnext hgoes
      exact hnext.2 hgoes
    | locked g next' => exact hbetween (by rw [hn]; rfl)

theorem Ends.mono (h : t.Ends I Q s) (hQ : ∀ s a, Q s a → R s a) : t.Ends I R s := by
  induction t generalizing s with
  | done a => exact hQ s a h
  | locked f next ih => exact ⟨ih s h.1, h.2⟩

theorem Ends.meet (h : t.Ends I Q s) (h' : t.Ends J R s) : ∃ s' a, Q s' a ∧ R s' a := by
  induction t generalizing s with
  | done a => exact ⟨s, a, h, h'⟩
  | locked f next ih => exact ih s h.1 h'.1

theorem Ends.bind_keeps {k : α → Thread σ β} {Q : σ → β → Prop}
    (h : t.Ends I (fun s a => I s ∧ (k a).Ends I Q s) s) : (t >>= k).Ends I Q s :=
  .bind (h.mono fun _ _ h => ⟨h.2, fun _ => h.1⟩)

section Sections

variable {k : β → Thread σ α}

theorem ends_read {f : σ → β} (hI : I s) (h : (k (f s)).Ends I Q s) :
    (read f >>= k).Ends I Q s :=
  ⟨h, fun _ => hI⟩

theorem ends_update {f : σ → β × σ} (hI : I (f s).2) (h : (k (f s).1).Ends I Q (f s).2) :
    (update f >>= k).Ends I Q s :=
  ⟨h, fun _ => hI⟩

theorem ends_modify {f : σ → σ} {k : Unit → Thread σ α} (hI : I (f s))
    (h : (k ()).Ends I Q (f s)) : (modify f >>= k).Ends I Q s :=
  ⟨h, fun _ => hI⟩

theorem ends_update_last {f : σ → β × σ} (h : (k (f s).1).Ends I Q (f s).2)
    (hlast : (k (f s).1).result? ≠ none) : (update f >>= k).Ends I Q s :=
  ⟨h, fun hnone => absurd hnone hlast⟩

theorem ends_modify_last {f : σ → σ} {a : α} (h : Q (f s) a) :
    (modify f >>= fun _ => pure a).Ends I Q s :=
  ⟨h, nofun⟩

end Sections

end Thread

end Lib
