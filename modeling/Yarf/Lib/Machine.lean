/-
**Labelled machines, their runs, and forward simulation.**

A machine has initial states and labelled steps. A run is a sequence of steps together with the
list of its labels (what an observer sees).

* `Machine.Reachable.invariant` — what holds initially and is kept by every step from a reachable
  state holds in every reachable state;
* `Machine.Leads.invariant` — the same from any state, for what a run leads to;
* `Machine.run_filter_iff` — steps that change nothing may be put into a run and left out of it;
* `Machine.traced_run` — the same along one run, for steps that are good;
* `Machine.traced_iff` — which runs have only steps that do what they owe;
* `Simulation.run` — if every step of the concrete machine is matched by a step of the abstract one
  with the same label, every run of the concrete machine is, label for label, a run of the abstract
  one;
* `Projection.run` — if every step of the concrete machine, seen through a view, is a step of the
  abstract one or no step at all, so is every run.
-/

import Mathlib.Data.List.Induction

namespace Lib

/-- A labelled transition system. -/
structure Machine (S L : Type) where
  /-- The states a run may start in. -/
  init : S → Prop
  /-- One step and its label. -/
  step : S → L → S → Prop

namespace Machine

section Runs

variable {S L : Type} (M : Machine S L)

/-- A run and the labels of its steps, oldest first. -/
inductive Run : S → List L → S → Prop
  | nil (start : S) : Run start [] start
  | snoc {start last next : S} {labels : List L} {label : L} :
      Run start labels last → M.step last label next → Run start (labels ++ [label]) next

/-- Some run from an initial state ends here. -/
def Reachable (last : S) : Prop := ∃ start labels, M.init start ∧ M.Run start labels last

variable {M}

theorem Reachable.start {start : S} (initial : M.init start) : M.Reachable start :=
  ⟨start, [], initial, .nil start⟩

theorem Reachable.next {last next : S} {label : L} (reached : M.Reachable last)
    (taken : M.step last label next) : M.Reachable next := by
  obtain ⟨start, labels, initial, run⟩ := reached
  exact ⟨start, labels ++ [label], initial, .snoc run taken⟩

/-- The invariant rule: a step may use that its source is reachable. -/
theorem Reachable.invariant {inv : S → Prop} (base : ∀ start, M.init start → inv start)
    (keep : ∀ last label next, M.Reachable last → inv last → M.step last label next → inv next)
    {last : S} (reached : M.Reachable last) : inv last := by
  obtain ⟨start, labels, initial, run⟩ := reached
  induction run with
  | nil => exact base start initial
  | snoc before taken ih => exact keep _ _ _ ⟨_, _, initial, before⟩ ih taken

/-- Some run leads from the one state to the other. -/
def Leads (M : Machine S L) (start last : S) : Prop := ∃ labels, M.Run start labels last

theorem Leads.refl (start : S) : M.Leads start start := ⟨[], .nil start⟩

theorem Leads.step {start next : S} {label : L} (taken : M.step start label next) :
    M.Leads start next :=
  ⟨[] ++ [label], .snoc (.nil start) taken⟩

theorem Leads.trans {start middle last : S} (first : M.Leads start middle) (second : M.Leads middle last) :
    M.Leads start last := by
  obtain ⟨labels, run⟩ := second
  induction run with
  | nil => exact first
  | snoc _ taken ih =>
    obtain ⟨labels, before⟩ := ih
    exact ⟨_, .snoc before taken⟩

theorem Leads.invariant {inv : S → Prop}
    (keep : ∀ last label next, inv last → M.step last label next → inv next) {start last : S}
    (leads : M.Leads start last) (base : inv start) : inv last := by
  obtain ⟨labels, run⟩ := leads
  induction run with
  | nil => exact base
  | snoc _ taken ih => exact keep _ _ _ ih taken

theorem run_snoc_iff {start last : S} {labels : List L} {label : L} :
    M.Run start (labels ++ [label]) last ↔ ∃ middle, M.Run start labels middle ∧ M.step middle label last := by
  constructor
  · intro run
    generalize whole : labels ++ [label] = all at run
    cases run with
    | nil => exact absurd whole (List.append_ne_nil_of_right_ne_nil labels (List.cons_ne_nil _ _))
    | snoc before taken =>
      obtain ⟨rfl, same⟩ := List.append_inj' whole rfl
      obtain rfl := List.singleton_inj.mp same
      exact ⟨_, before, taken⟩
  · rintro ⟨middle, before, taken⟩
    exact .snoc before taken

theorem run_nil_iff {start last : S} : M.Run start [] last ↔ last = start := by
  constructor
  · intro run
    generalize whole : ([] : List L) = all at run
    cases run with
    | nil => rfl
    | snoc => exact absurd whole.symm (List.append_ne_nil_of_right_ne_nil _ (List.cons_ne_nil _ _))
  · rintro rfl
    exact .nil last

theorem run_append_iff {start last : S} {labels more : List L} :
    M.Run start (labels ++ more) last ↔ ∃ middle, M.Run start labels middle ∧ M.Run middle more last := by
  induction more using List.reverseRecOn generalizing last with
  | nil =>
    rw [List.append_nil]
    simp only [run_nil_iff, exists_eq_right']
  | append_singleton more label ih =>
    rw [← List.append_assoc, run_snoc_iff]
    constructor
    · rintro ⟨before, run, taken⟩
      obtain ⟨middle, first, second⟩ := ih.mp run
      exact ⟨middle, first, .snoc second taken⟩
    · rintro ⟨middle, first, second⟩
      obtain ⟨before, rest, taken⟩ := run_snoc_iff.mp second
      exact ⟨before, ih.mpr ⟨middle, first, rest⟩, taken⟩

theorem Reachable.run {last next : S} {labels : List L} (reached : M.Reachable last)
    (more : M.Run last labels next) : M.Reachable next := by
  obtain ⟨start, before, initial, run⟩ := reached
  exact ⟨start, before ++ labels, initial, run_append_iff.mpr ⟨last, run, more⟩⟩

/-- A run taken apart at one of its steps. -/
theorem run_split {start last : S} {before after : List L} {label : L} :
    M.Run start (before ++ label :: after) last ↔
      ∃ middle next, M.Run start before middle ∧ M.step middle label next ∧ M.Run next after last := by
  rw [List.append_cons, run_append_iff]
  constructor
  · rintro ⟨next, first, second⟩
    obtain ⟨middle, run, taken⟩ := run_snoc_iff.mp first
    exact ⟨middle, next, run, taken, second⟩
  · rintro ⟨middle, next, first, taken, second⟩
    exact ⟨next, run_snoc_iff.mpr ⟨middle, first, taken⟩, second⟩

/-- Where every step lowers a measure, it bounds the runs. -/
theorem Run.length_add_le {inv : S → Prop} {measure : S → ℕ}
    (keep : ∀ last label next, inv last → M.step last label next → inv next ∧ measure next < measure last)
    {start last : S} {labels : List L} (base : inv start) (run : M.Run start labels last) :
    inv last ∧ labels.length + measure last ≤ measure start := by
  induction run with
  | nil => exact ⟨base, Nat.le_of_eq (Nat.zero_add _)⟩
  | snoc _ taken ih =>
    obtain ⟨here, bound⟩ := ih
    obtain ⟨after, lower⟩ := keep _ _ _ here taken
    refine ⟨after, ?_⟩
    rw [List.length_append, List.length_singleton]
    omega

/-- Where the idle steps change nothing, a run is one with and without them. -/
theorem run_filter_iff {inv : S → Prop} {busy : L → Bool}
    (keep : ∀ last label next, inv last → M.step last label next → inv next)
    (still : ∀ last label next, inv last → busy label = false → (M.step last label next ↔ next = last))
    {start last : S} {labels : List L} (base : inv start) :
    M.Run start labels last ↔ M.Run start (labels.filter busy) last := by
  induction labels using List.reverseRecOn generalizing last with
  | nil => exact Iff.rfl
  | append_singleton labels label ih =>
    have holds : ∀ {middle}, M.Run start labels middle → inv middle :=
      fun run => Leads.invariant keep ⟨_, run⟩ base
    rw [run_snoc_iff, List.filter_append]
    cases kind : busy label with
    | true =>
      rw [List.filter_cons_of_pos kind, List.filter_nil, run_snoc_iff]
      exact exists_congr fun middle => and_congr_left fun _ => ih
    | false =>
      rw [List.filter_cons_of_neg (Bool.not_eq_true _ ▸ kind), List.filter_nil, List.append_nil, ← ih]
      constructor
      · rintro ⟨middle, run, taken⟩
        rwa [(still _ _ _ (holds run) kind).mp taken]
      · exact fun run => ⟨last, run, (still _ _ _ (holds run) kind).mpr rfl⟩

/-- The machine without the steps that are not allowed. -/
def restrict (M : Machine S L) (allowed : S → S → Prop) : Machine S L where
  init := M.init
  step last label next := M.step last label next ∧ allowed last next

end Runs

end Machine

/-! ### Runs with their states -/

section Traced

variable {S L : Type}

/-- A step taken: the state before it, its label and the state after it. -/
structure Machine.Step (S L : Type) where
  before : S
  label : L
  after : S

/-- The machine that shows every step whole. -/
def Machine.traced (M : Machine S L) : Machine S (Machine.Step S L) where
  init := M.init
  step last taken next := taken.before = last ∧ taken.after = next ∧ M.step last taken.label next

/-- What a traced run shows are steps of the machine. -/
theorem Machine.traced_mem {M : Machine S L} {start last : S} {steps : List (Machine.Step S L)}
    (run : M.traced.Run start steps last) {taken : Machine.Step S L} (member : taken ∈ steps) :
    M.step taken.before taken.label taken.after := by
  induction run with
  | nil => exact absurd member List.not_mem_nil
  | @snoc last next steps here before step ih =>
    rcases List.mem_append.mp member with earlier | same
    · exact ih earlier
    · obtain rfl := List.mem_singleton.mp same
      obtain ⟨rfl, rfl, step⟩ := step
      exact step

/-- What holds at the start and is kept by the steps of a run holds at its end. -/
theorem Machine.traced_run {M : Machine S L} {inv : S → Prop} {good : Machine.Step S L → Prop}
    (keep : ∀ taken : Machine.Step S L, inv taken.before → M.step taken.before taken.label taken.after →
      good taken → inv taken.after)
    {start last : S} {steps : List (Machine.Step S L)} (base : inv start)
    (run : M.traced.Run start steps last) (all : ∀ taken ∈ steps, good taken) : inv last := by
  induction run with
  | nil => exact base
  | @snoc last next steps taken before step ih =>
    obtain ⟨rfl, rfl, step⟩ := step
    have here := ih fun earlier member => all earlier (List.mem_append_left _ member)
    exact keep taken here step (all taken (List.mem_append_right _ List.mem_cons_self))

/-- Where the good steps keep an invariant, and under it are those that do what they owe, a run does what it
owes exactly when all its steps are good. -/
theorem Machine.traced_iff {M : Machine S L} {inv : S → Prop} {good owed : Machine.Step S L → Prop}
    (keep : ∀ taken : Machine.Step S L, inv taken.before → M.step taken.before taken.label taken.after →
      good taken → inv taken.after)
    (meets : ∀ taken : Machine.Step S L, inv taken.before → M.step taken.before taken.label taken.after →
      (owed taken ↔ good taken))
    {start last : S} {steps : List (Machine.Step S L)} (base : inv start)
    (run : M.traced.Run start steps last) : (∀ taken ∈ steps, owed taken) ↔ ∀ taken ∈ steps, good taken := by
  induction run with
  | nil => exact iff_of_true (List.forall_mem_nil _) (List.forall_mem_nil _)
  | @snoc last next steps taken before step ih =>
    obtain ⟨rfl, rfl, step⟩ := step
    rw [List.forall_mem_append, List.forall_mem_append, ih, List.forall_mem_singleton,
      List.forall_mem_singleton]
    exact and_congr_right fun all => meets taken (traced_run keep base before all) step

end Traced

/-! ### Forward simulation -/

section Simulate

variable {S T L : Type}

/-- Every step of the concrete machine is a step of the abstract one with the same label. -/
structure Simulation (concrete : Machine S L) (abstract : Machine T L) (R : S → T → Prop) : Prop where
  /-- Initial states are related. -/
  init : ∀ start, concrete.init start → ∃ above, abstract.init above ∧ R start above
  /-- Steps are matched. -/
  step : ∀ last above label next, R last above → concrete.step last label next →
    ∃ above', abstract.step above label above' ∧ R next above'

/-- Every run of the concrete machine is a run of the abstract one with the same labels. -/
theorem Simulation.run {concrete : Machine S L} {abstract : Machine T L} {R : S → T → Prop}
    (sim : Simulation concrete abstract R) {start last : S} {labels : List L}
    (initial : concrete.init start) (run : concrete.Run start labels last) :
    ∃ above above', abstract.init above ∧ abstract.Run above labels above' ∧ R last above' := by
  induction run with
  | nil =>
    obtain ⟨above, begins, related⟩ := sim.init start initial
    exact ⟨above, above, begins, .nil above, related⟩
  | snoc _ taken ih =>
    obtain ⟨above, middle, begins, before, related⟩ := ih
    obtain ⟨above', matched, related'⟩ := sim.step _ _ _ _ related taken
    exact ⟨above, above', begins, .snoc before matched, related'⟩

end Simulate

/-! ### Projection -/

section Project

variable {S T L K : Type}

/-- Seen through `view` and `see`, a step of the concrete machine is a step of the abstract one, or
nothing happens. -/
structure Projection (concrete : Machine S L) (abstract : Machine T K) (inv : S → Prop) (view : S → T)
    (see : L → Option K) : Prop where
  keep : ∀ last label next, inv last → concrete.step last label next → inv next
  seen : ∀ last label next event, inv last → concrete.step last label next → see label = some event →
    abstract.step (view last) event (view next)
  unseen : ∀ last label next, inv last → concrete.step last label next → see label = none →
    view next = view last

theorem Projection.inv {concrete : Machine S L} {abstract : Machine T K} {inv : S → Prop} {view : S → T}
    {see : L → Option K} (project : Projection concrete abstract inv view see) {start last : S}
    {labels : List L} (base : inv start) (run : concrete.Run start labels last) : inv last :=
  Machine.Leads.invariant project.keep ⟨labels, run⟩ base

/-- A run of the concrete machine is a run of the abstract one with the labels that are seen. -/
theorem Projection.run {concrete : Machine S L} {abstract : Machine T K} {inv : S → Prop} {view : S → T}
    {see : L → Option K} (project : Projection concrete abstract inv view see) {start last : S}
    {labels : List L} (base : inv start) (run : concrete.Run start labels last) :
    abstract.Run (view start) (labels.filterMap see) (view last) := by
  induction run with
  | nil => exact .nil _
  | @snoc middle next before label earlier taken ih =>
    have here := project.inv base earlier
    rw [List.filterMap_append]
    cases event : see label with
    | none =>
      rw [List.filterMap_cons_none event, List.filterMap_nil, List.append_nil,
        project.unseen _ _ _ here taken event]
      exact ih
    | some event' =>
      rw [List.filterMap_cons_some event, List.filterMap_nil]
      exact .snoc ih (project.seen _ _ _ _ here taken event)

end Project

end Lib
