/-
Purpose: Runs of a labelled transition system, with a condition that the
  steps of a run may be required to meet, and the invariant rule for them.
-/
import Mathlib.Tactic.Common

variable {σ α : Type}

/-- States reached from `init` by steps that all meet `allowed` in the state
they are taken from. -/
inductive Reach (init : σ → Prop) (step : σ → α → σ → Prop)
    (allowed : σ → α → Prop) : σ → Prop where
  | start {s : σ} (initial : init s) : Reach init step allowed s
  | next {s t : σ} {a : α} (reached : Reach init step allowed s)
      (meets : allowed s a) (taken : step s a t) : Reach init step allowed t

namespace Reach

variable {init : σ → Prop} {step : σ → α → σ → Prop} {allowed : σ → α → Prop}
variable {s t : σ} {f : σ → α → Option σ} {labels : List α}

/-- What holds initially and is kept by every allowed step holds in every
state reached. -/
theorem invariant {I : σ → Prop} (initially : ∀ s, init s → I s)
    (kept : ∀ s a t, I s → allowed s a → step s a t → I t)
    (reached : Reach init step allowed s) : I s := by
  induction reached with
  | start initial => exact initially _ initial
  | next _ meets taken ih =>
    exact kept _ _ _ ih meets taken

theorem weaken {allowed' : σ → α → Prop} (implies : ∀ s a, allowed s a → allowed' s a)
    (reached : Reach init step allowed s) : Reach init step allowed' s := by
  induction reached with
  | start initial => exact .start initial
  | next _ meets taken ih =>
    exact .next ih (implies _ _ meets) taken

/-- Where a list of steps of a step function leads is reached, when the steps
pass a test in the state they are taken from. -/
theorem checked {ok : σ → α → Bool} (sound : ∀ s a, ok s a = true → allowed s a)
    (reached : Reach init (fun s a t => f s a = some t) allowed s)
    (run : labels.foldlM (fun s a => if ok s a then f s a else none) s = some t) :
    Reach init (fun s a t => f s a = some t) allowed t := by
  induction labels generalizing s with
  | nil =>
    cases run
    exact reached
  | cons label rest ih =>
    rw [List.foldlM_cons] at run
    obtain ⟨middle, taken, onwards⟩ := Option.bind_eq_some_iff.mp run
    rw [Option.ite_none_right_eq_some] at taken
    exact ih (.next reached (sound s label taken.1) taken.2) onwards

theorem foldlM (reached : Reach init (fun s a t => f s a = some t) (fun _ _ => True) s)
    (run : labels.foldlM f s = some t) :
    Reach init (fun s a t => f s a = some t) (fun _ _ => True) t :=
  checked (fun _ _ (_ : true = true) => trivial) reached run

end Reach
