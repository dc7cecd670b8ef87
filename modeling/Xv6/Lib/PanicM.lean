/-
Purpose: State-passing programs that may panic, with a weakest-precondition
  calculus that tracks the final state and the panic separately.
-/
import Mathlib.Logic.Function.Basic
import Mathlib.Tactic.Common

/-- A program over states `σ` that returns a value or stops with a panic of
type `ε`.  The state of a panicking run is not observable. -/
abbrev PanicM (σ ε α : Type) := StateT σ (Except ε) α

namespace PanicM

variable {σ ε α β : Type} {program : PanicM σ ε α}

/-- From state `s` the program either returns a value and a state in `Q`, or
panics with a reason in `E`. -/
def wp (program : PanicM σ ε α) (Q : α → σ → Prop) (E : ε → Prop) (s : σ) : Prop :=
  match program s with
  | .ok (value, after) => Q value after
  | .error reason => E reason

section Rules

variable {Q Q' : α → σ → Prop} {R : β → σ → Prop} {E E' : ε → Prop} {s : σ}

@[simp] theorem wp_pure (value : α) : wp (pure value : PanicM σ ε α) Q E s ↔ Q value s := Iff.rfl

@[simp] theorem wp_throw (reason : ε) : wp (throw reason : PanicM σ ε α) Q E s ↔ E reason := Iff.rfl

@[simp] theorem wp_get {Q : σ → σ → Prop} : wp (get : PanicM σ ε σ) Q E s ↔ Q s s := Iff.rfl

@[simp] theorem wp_set {Q : Unit → σ → Prop} (after : σ) :
    wp (set after : PanicM σ ε PUnit) Q E s ↔ Q () after := Iff.rfl

@[simp] theorem wp_modify {Q : Unit → σ → Prop} (update : σ → σ) :
    wp (modify update : PanicM σ ε PUnit) Q E s ↔ Q () (update s) := Iff.rfl

@[simp] theorem wp_bind (first : PanicM σ ε α) (next : α → PanicM σ ε β) :
    wp (first >>= next) R E s ↔ wp first (fun value after => wp (next value) R E after) E s := by
  unfold wp
  change (match (first s >>= fun result => next result.1 result.2) with
    | .ok (value, after) => R value after
    | .error reason => E reason) ↔ _
  cases first s with
  | error reason => exact Iff.rfl
  | ok result => exact Iff.rfl

theorem wp_ite (condition : Prop) [Decidable condition] (yes no : PanicM σ ε α) :
    wp (if condition then yes else no) Q E s ↔
      (condition → wp yes Q E s) ∧ (¬ condition → wp no Q E s) := by
  by_cases holds : condition <;> simp [holds]

/-- Weakening the two postconditions. -/
theorem wp_mono (run : wp program Q E s) (value : ∀ a after, Q a after → Q' a after)
    (panic : ∀ reason, E reason → E' reason) : wp program Q' E' s := by
  unfold wp at run ⊢
  cases outcome : program s with
  | ok result =>
    rw [outcome] at run
    exact value _ _ run
  | error reason =>
    rw [outcome] at run
    exact panic _ run

/-- Programs with the same weakest preconditions are equal. -/
theorem ext_wp {first second : PanicM σ ε α}
    (same : ∀ Q E s, wp first Q E s → wp second Q E s) : first = second := by
  funext s
  have both : wp second (fun value after => first s = .ok (value, after))
      (fun reason => first s = .error reason) s := by
    refine same _ _ s ?_
    unfold wp
    cases first s with
    | ok result => rfl
    | error reason => rfl
  unfold wp at both
  cases outcome : second s with
  | ok result =>
    rw [outcome] at both
    exact both
  | error reason =>
    rw [outcome] at both
    exact both

theorem wp_imp (run : wp program Q E s)
    (value : ∀ a after, Q a after → Q' a after) : wp program Q' E s :=
  wp_mono run value fun _ holds => holds

theorem wp_seq {first : PanicM σ ε α} {next : α → PanicM σ ε β} (run : wp first Q E s)
    (rest : ∀ a after, Q a after → wp (next a) R E after) : wp (first >>= next) R E s :=
  (wp_bind ..).mpr (wp_imp run rest)

theorem wp_ok (run : wp program Q E s)
    {value : α} {after : σ} (returned : program s = .ok (value, after)) : Q value after := by
  unfold wp at run
  rw [returned] at run
  exact run

theorem wp_error (run : wp program Q E s)
    {reason : ε} (panicked : program s = .error reason) : E reason := by
  unfold wp at run
  rw [panicked] at run
  exact run

theorem wp_returns (run : wp program Q (fun _ => False) s) :
    ∃ value after, program s = .ok (value, after) ∧ Q value after := by
  unfold wp at run
  cases outcome : program s with
  | ok result =>
    rw [outcome] at run
    exact ⟨result.1, result.2, rfl, run⟩
  | error reason =>
    rw [outcome] at run
    exact run.elim

theorem wp_run (run : wp program Q E s) :
    wp program (fun value after => program s = .ok (value, after) ∧ Q value after) E s := by
  unfold wp at run ⊢
  cases outcome : program s with
  | ok result =>
    rw [outcome] at run
    exact ⟨rfl, run⟩
  | error reason =>
    rw [outcome] at run
    exact run

/-- `wp` from the two kinds of outcome. -/
theorem wp_intro (value : ∀ a after, program s = .ok (a, after) → Q a after)
    (panic : ∀ reason, program s = .error reason → E reason) : wp program Q E s := by
  unfold wp
  cases outcome : program s with
  | ok result => exact value _ _ outcome
  | error reason => exact panic _ outcome

/-- What holds under a condition may be added. -/
theorem wp_also {C : Prop} (one : wp program Q E s) (two : C → wp program Q' E s) :
    wp program (fun a after => Q a after ∧ (C → Q' a after)) E s :=
  wp_intro (fun _ _ returned => ⟨wp_ok one returned, fun c => wp_ok (two c) returned⟩)
    fun _ panicked => wp_error one panicked

end Rules

/-- The program takes every state to one that `R` relates it to. -/
def Relates (R : σ → σ → Prop) (program : PanicM σ ε α) : Prop :=
  ∀ s value after, program s = .ok (value, after) → R s after

namespace Relates

variable {R : σ → σ → Prop}

theorem of_wp (run : ∀ s, wp program (fun _ after => R s after) (fun _ => True) s) :
    Relates R program :=
  fun s _ _ returned => wp_ok (run s) returned

theorem modify {update : σ → σ} (related : ∀ s, R s (update s)) :
    Relates R (modify update : PanicM σ ε PUnit) := by
  intro s value after returned
  cases returned
  exact related s

theorem throw (reason : ε) : Relates R (throw reason : PanicM σ ε α) := by
  intro s value after returned
  cases returned

theorem ite {condition : Prop} [Decidable condition]
    {yes no : PanicM σ ε α} (one : Relates R yes) (two : Relates R no) :
    Relates R (if condition then yes else no) := by
  by_cases holds : condition
  · simpa [holds] using one
  · simpa [holds] using two

variable [IsPreorder σ R]

theorem pure (value : α) : Relates R (pure value : PanicM σ ε α) := by
  intro s result after returned
  cases returned
  exact refl_of R s

theorem get : Relates R (get : PanicM σ ε σ) := by
  intro s result after returned
  cases returned
  exact refl_of R s

theorem bind {first : PanicM σ ε α} {next : α → PanicM σ ε β}
    (one : Relates R first) (two : ∀ a, Relates R (next a)) : Relates R (first >>= next) := by
  refine of_wp fun s => ?_
  rw [wp_bind]
  refine wp_intro (fun a middle ran => ?_) fun _ _ => trivial
  refine wp_intro (fun b after onwards => ?_) fun _ _ => trivial
  exact trans_of R (one s a middle ran) (two a middle b after onwards)

end Relates

/-- The program never changes the part of the state that `view` shows. -/
def Frames {γ : Type} (view : σ → γ) (program : PanicM σ ε α) : Prop :=
  ∀ s value after, program s = .ok (value, after) → view after = view s

namespace Frames

variable {γ : Type} {view : σ → γ}

instance preorder : IsPreorder σ fun s t => view t = view s where
  refl _ := rfl
  trans _ _ _ one two := two.trans one

theorem of_wp (run : ∀ s, wp program (fun _ after => view after = view s)
      (fun _ => True) s) : Frames view program :=
  fun s _ _ returned => wp_ok (run s) returned

theorem to_wp (frames : Frames view program) (s : σ) :
    wp program (fun _ after => view after = view s) (fun _ => True) s :=
  wp_intro (fun _ _ returned => frames s _ _ returned) fun _ _ => trivial

theorem pure (value : α) : Frames view (pure value : PanicM σ ε α) := Relates.pure value

theorem throw (reason : ε) : Frames view (throw reason : PanicM σ ε α) := Relates.throw reason

theorem get : Frames view (get : PanicM σ ε σ) := Relates.get

theorem modify {update : σ → σ} (same : ∀ s, view (update s) = view s) :
    Frames view (modify update : PanicM σ ε PUnit) := Relates.modify same

theorem bind {first : PanicM σ ε α} {next : α → PanicM σ ε β}
    (one : Frames view first) (two : ∀ a, Frames view (next a)) :
    Frames view (first >>= next) := Relates.bind one two

theorem bindOption {first : PanicM σ ε (Option α)} {next : Option α → PanicM σ ε β}
    (one : Frames view first) (missing : Frames view (next none))
    (found : ∀ a, Frames view (next (some a))) : Frames view (first >>= next) := by
  refine one.bind fun result => ?_
  cases result with
  | none => exact missing
  | some a => exact found a

theorem ite {condition : Prop} [Decidable condition] {yes no : PanicM σ ε α}
    (one : Frames view yes) (two : Frames view no) :
    Frames view (if condition then yes else no) := Relates.ite one two

/-- A program that leaves `view` alone, for a postcondition that asks nothing
else of it. -/
theorem wp (frames : Frames view program) {Q : α → σ → Prop} {s : σ}
    (next : ∀ a after, view after = view s → Q a after) : wp program Q (fun _ => True) s :=
  wp_imp (frames.to_wp s) next

theorem weaken {γ' : Type} (frames : Frames view program) (f : γ → γ') :
    Frames (fun s => f (view s)) program :=
  fun s value after returned => congrArg f (frames s value after returned)

end Frames

theorem Relates.of_frames {R : σ → σ → Prop} {γ : Type} {view : σ → γ}
    (frames : Frames view program) (same : ∀ s t, view t = view s → R s t) : Relates R program :=
  fun s value after returned => same s after (frames s value after returned)

end PanicM
