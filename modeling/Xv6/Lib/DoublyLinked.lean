/-
Purpose: Circular doubly linked lists through a head node: taking a node out,
  putting it in front, and searching in both directions.
-/
import Mathlib.Data.List.Nodup
import Mathlib.Logic.Function.Basic
import Mathlib.Tactic.Common

/-- The two pointers of every node. -/
structure Links (α : Type) where
  next : α → α
  prev : α → α

namespace Links

open Function (update update_self update_of_ne)
open List (mem_cons_of_mem mem_cons_self nodup_cons)

variable {α : Type}

section Operations

variable [DecidableEq α]

/-- Take `b` out: `b->next->prev = b->prev; b->prev->next = b->next;` -/
def unlink (r : Links α) (b : α) : Links α :=
  let prev := update r.prev (r.next b) (r.prev b)
  { prev := prev
    next := update r.next (prev b) (r.next b) }

/-- Put `b` behind the head: `b->next = head->next; b->prev = head;
head->next->prev = b; head->next = b;` -/
def insertFront (r : Links α) (head b : α) : Links α :=
  let next := update r.next b (r.next head)
  let prev := update r.prev b head
  { next := update next head b
    prev := update prev (next head) b }

/-- Follow pointers from `x` until the head: the first node that passes. -/
def search (step : α → α) (head : α) (test : α → Bool) : Nat → α → Option α
  | 0, _ => none
  | fuel + 1, x =>
    if x = head then none
    else if test x then some x
    else search step head test fuel (step x)

end Operations

/-- From `a` through the nodes of a list to `b`, linked in both directions. -/
def Path (r : Links α) : α → List α → α → Prop
  | a, [], b => r.next a = b ∧ r.prev b = a
  | a, x :: rest, b => (r.next a = x ∧ r.prev x = a) ∧ r.Path x rest b

/-- The list through the head holds the nodes of `nodes`, once each. -/
structure Ring (r : Links α) (head : α) (nodes : List α) : Prop where
  path : r.Path head nodes head
  nodup : (head :: nodes).Nodup

variable {r r' : Links α} {a b c head : α} {nodes left right : List α}

/-! ## Paths -/

theorem path_append : r.Path a (left ++ c :: right) b ↔ r.Path a left c ∧ r.Path c right b := by
  induction left generalizing a with
  | nil => exact Iff.rfl
  | cons x rest ih =>
    change (_ ∧ r.Path x (rest ++ c :: right) b) ↔ (_ ∧ r.Path x rest c) ∧ _
    rw [ih]
    exact and_assoc.symm

theorem Path.congr (path : r.Path a nodes b) (next : ∀ x ∈ a :: nodes, r'.next x = r.next x)
    (prev : ∀ x ∈ nodes ++ [b], r'.prev x = r.prev x) : r'.Path a nodes b := by
  induction nodes generalizing a with
  | nil =>
    refine ⟨?_, ?_⟩
    · rw [next a mem_cons_self]
      exact path.1
    · rw [prev b (by simp)]
      exact path.2
  | cons x rest ih =>
    refine ⟨⟨?_, ?_⟩, ?_⟩
    · rw [next a mem_cons_self]
      exact path.1.1
    · rw [prev x (by simp)]
      exact path.1.2
    · exact ih path.2 (fun y mem => next y (mem_cons_of_mem a mem))
        (fun y mem => prev y (by simp at mem ⊢; tauto))

theorem Path.prev_mem (path : r.Path a nodes b) : r.prev b ∈ a :: nodes := by
  induction nodes generalizing a with
  | nil =>
    rw [path.2]
    exact mem_cons_self
  | cons x rest ih =>
    exact mem_cons_of_mem a (ih path.2)

/-- The path leads to `c` when its last pointer and that of `c` are set. -/
theorem Path.retarget [DecidableEq α] (path : r.Path a nodes b)
    (nodup : (a :: nodes).Nodup) (apart : c ∉ nodes) (next : r'.next = update r.next (r.prev b) c)
    (prev : r'.prev = update r.prev c (r.prev b)) : r'.Path a nodes c := by
  induction nodes generalizing a with
  | nil =>
    obtain ⟨-, back⟩ := path
    refine ⟨?_, ?_⟩
    · rw [next, back, update_self]
    · rw [prev, back, update_self]
  | cons x rest ih =>
    obtain ⟨⟨there, back⟩, onward⟩ := path
    have other : a ≠ r.prev b := by
      intro same
      have mem := onward.prev_mem
      rw [← same] at mem
      exact (nodup_cons.mp nodup).1 mem
    have away : x ≠ c := ne_of_mem_of_not_mem mem_cons_self apart
    refine ⟨⟨?_, ?_⟩, ?_⟩
    · rw [next, update_of_ne other]
      exact there
    · rw [prev, update_of_ne away]
      exact back
    · exact ih onward (nodup_cons.mp nodup).2 fun mem => apart (mem_cons_of_mem x mem)

/-- The other direction. -/
def swap (r : Links α) : Links α where
  next := r.prev
  prev := r.next

theorem Path.reverse (path : r.Path a nodes b) : r.swap.Path b nodes.reverse a := by
  induction nodes generalizing a with
  | nil => exact ⟨path.2, path.1⟩
  | cons x rest ih =>
    rw [List.reverse_cons, path_append]
    exact ⟨ih path.2, path.1.2, path.1.1⟩

/-- On a path the two pointers are inverse to each other. -/
theorem Path.inverse (path : r.Path a nodes b) : (∀ x ∈ a :: nodes, r.prev (r.next x) = x) ∧
      ∀ x ∈ nodes ++ [b], r.next (r.prev x) = x := by
  induction nodes generalizing a with
  | nil =>
    obtain ⟨there, back⟩ := path
    refine ⟨?_, ?_⟩
    · intro x mem
      rw [List.mem_singleton.mp mem, there, back]
    · intro x mem
      rw [List.mem_singleton.mp mem, back, there]
  | cons y rest ih =>
    obtain ⟨⟨there, back⟩, onward⟩ := path
    obtain ⟨forth, home⟩ := ih onward
    refine ⟨?_, ?_⟩
    · intro x mem
      rcases List.mem_cons.mp mem with rfl | inside
      · rw [there, back]
      · exact forth x inside
    · intro x mem
      rcases List.mem_cons.mp mem with rfl | inside
      · rw [back, there]
      · exact home x inside

/-! ## Operations on a ring -/

variable [DecidableEq α]

theorem Ring.unlink (ring : r.Ring head (left ++ b :: right)) :
    (r.unlink b).Ring head (left ++ right) := by
  have nodup := ring.nodup
  obtain ⟨before, after⟩ := path_append.mp ring.path
  have split : (head :: left ++ b :: right).Nodup := nodup
  rw [List.nodup_append] at split
  obtain ⟨nodupLeft, nodupRight, disjoint⟩ := split
  have notHead : b ≠ head := by
    rintro rfl
    exact disjoint b mem_cons_self b mem_cons_self rfl
  have notLeft : b ∉ head :: left := fun mem =>
    disjoint b mem b mem_cons_self rfl
  have lastLeft := before.prev_mem
  refine ⟨?_, ?_⟩
  · cases right with
    | nil =>
      obtain ⟨there, back⟩ := after
      have prev : (r.unlink b).prev = update r.prev head (r.prev b) := by
        unfold Links.unlink
        rw [there]
      have next : (r.unlink b).next = update r.next (r.prev b)
          head := by
        unfold Links.unlink
        rw [there]
        simp only [update_of_ne notHead]
      rw [List.append_nil]
      exact before.retarget nodupLeft (nodup_cons.mp nodupLeft).1 next prev
    | cons c rest =>
      obtain ⟨⟨there, back⟩, onward⟩ := after
      have inRight : c ∈ b :: c :: rest := by simp
      have notC : b ≠ c := by
        rintro rfl
        simp at nodupRight
      have prev : (r.unlink b).prev = update r.prev c (r.prev b) := by
        unfold Links.unlink
        rw [there]
      have next : (r.unlink b).next = update r.next (r.prev b)
          c := by
        unfold Links.unlink
        rw [there]
        simp only [update_of_ne notC]
      refine path_append.mpr ⟨?_, ?_⟩
      · refine before.retarget nodupLeft ?_ next prev
        intro mem
        exact disjoint c (mem_cons_of_mem head mem) c inRight rfl
      · refine onward.congr ?_ ?_
        · intro x mem
          rw [next, update_of_ne]
          rintro rfl
          exact disjoint _ lastLeft _ (mem_cons_of_mem b mem) rfl
        · intro x mem
          rw [prev, update_of_ne]
          intro same
          rw [same] at mem
          rcases List.mem_append.mp mem with inRest | isHead
          · simp only [nodup_cons] at nodupRight
            exact nodupRight.2.1 inRest
          · exact disjoint head mem_cons_self c inRight (List.mem_singleton.mp isHead).symm
  · refine nodup.sublist (List.Sublist.cons_cons head ?_)
    exact (List.sublist_cons_self b right).append_left left

theorem Ring.insertFront (ring : r.Ring head nodes) (fresh : b ∉ head :: nodes) :
    (r.insertFront head b).Ring head (b :: nodes) := by
  have nodup := ring.nodup
  have path := ring.path
  have notHead : head ≠ b := ne_of_mem_of_not_mem mem_cons_self fresh
  have headNext : update r.next b (r.next head) head = r.next head := update_of_ne notHead _ _
  have next : (r.insertFront head b).next = update (update r.next b (r.next head)) head b := rfl
  have prev : (r.insertFront head b).prev = update (update r.prev b head) (r.next head) b := by
    unfold Links.insertFront
    dsimp only
    rw [headNext]
  have first : (r.insertFront head b).next head = b ∧ (r.insertFront head b).next b = r.next head ∧
      (r.insertFront head b).prev (r.next head) = b := by
    rw [next, prev]
    refine ⟨update_self .., ?_, update_self ..⟩
    rw [update_of_ne notHead.symm, update_self]
  obtain ⟨headTo, bTo, backTo⟩ := first
  refine ⟨?_, ?_⟩
  · cases nodes with
    | nil =>
      obtain ⟨there, -⟩ := path
      rw [there] at bTo backTo
      refine ⟨⟨headTo, ?_⟩, bTo, backTo⟩
      rw [prev, there, update_of_ne notHead.symm, update_self]
    | cons x rest =>
      obtain ⟨⟨there, back⟩, onward⟩ := path
      rw [there] at bTo backTo
      have notX : b ≠ x := (ne_of_mem_of_not_mem (by simp) fresh).symm
      refine ⟨⟨headTo, ?_⟩, ⟨bTo, backTo⟩, ?_⟩
      · rw [prev, there, update_of_ne notX, update_self]
      · refine onward.congr ?_ ?_
        · intro y mem
          have notB : y ≠ b := ne_of_mem_of_not_mem (mem_cons_of_mem head mem) fresh
          have notH : y ≠ head := ne_of_mem_of_not_mem mem (nodup_cons.mp nodup).1
          rw [next, update_of_ne notH, update_of_ne notB]
        · intro y mem
          have inRing : y ∈ head :: x :: rest := by
            simp at mem ⊢
            tauto
          have notB : y ≠ b := ne_of_mem_of_not_mem inRing fresh
          have notX : y ≠ x := by
            rintro rfl
            simp only [nodup_cons, List.mem_cons, not_or] at nodup
            rcases List.mem_append.mp mem with inRest | isHead
            · exact nodup.2.1 inRest
            · exact nodup.1.1 (List.mem_singleton.mp isHead).symm
          rw [prev, there, update_of_ne notX, update_of_ne notB]
  · refine nodup_cons.mpr ⟨?_, nodup_cons.mpr ⟨?_, ?_⟩⟩
    · intro mem
      rcases List.mem_cons.mp mem with same | inside
      · exact notHead same
      · exact (nodup_cons.mp nodup).1 inside
    · exact fun mem => fresh (mem_cons_of_mem head mem)
    · exact (nodup_cons.mp nodup).2

/-- A search along the pointers is a search of the list. -/
theorem Path.search (path : r.Path a nodes head) (away : head ∉ nodes)
    {test : α → Bool} {fuel : Nat} (enough : nodes.length < fuel) :
    search r.next head test fuel (r.next a) = nodes.find? test := by
  induction nodes generalizing a fuel with
  | nil =>
    cases fuel with
    | zero => exact absurd enough (Nat.not_lt_zero _)
    | succ fuel => rw [Links.search, path.1, if_pos rfl, List.find?_nil]
  | cons x rest ih =>
    obtain ⟨⟨there, -⟩, onward⟩ := path
    cases fuel with
    | zero => exact absurd enough (Nat.not_lt_zero _)
    | succ fuel =>
      have notHead : x ≠ head := ne_of_mem_of_not_mem mem_cons_self away
      rw [Links.search, there, if_neg notHead, List.find?_cons]
      cases test x with
      | true => rfl
      | false =>
        exact ih onward (fun mem => away (mem_cons_of_mem x mem))
          (Nat.lt_of_succ_lt_succ enough)

theorem Ring.search_next (ring : r.Ring head nodes) {test : α → Bool}
    {fuel : Nat} (enough : nodes.length < fuel) :
    search r.next head test fuel (r.next head) = nodes.find? test :=
  ring.path.search (nodup_cons.mp ring.nodup).1 enough

theorem Ring.search_prev (ring : r.Ring head nodes) {test : α → Bool}
    {fuel : Nat} (enough : nodes.length < fuel) :
    search r.prev head test fuel (r.prev head) = nodes.reverse.find? test := by
  refine ring.path.reverse.search ?_ ?_
  · rw [List.mem_reverse]
    exact (nodup_cons.mp ring.nodup).1
  · rwa [List.length_reverse]

end Links
