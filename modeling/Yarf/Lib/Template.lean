/-
**Filling templates by replacing.**

A template is a text with holes, each written as its name between two pairs of a mark. Filling it by one
replacement of a hole after another may go wrong: the letters of a value may be taken for a hole, or those
between two holes.

* `replace` — all occurrences of a word, from the left, without overlap;
* `Template.render` — a template with some holes filled and the others written out;
* `replace_render` — replacing a hole fills it, where no value that stands in the text has the mark;
* `subst_render` — one replacement after another fills all holes at once;
* `fillHoles_clear` — no hole is left.
-/

import Mathlib.Data.List.Basic
import Mathlib.Data.List.Infix
import Mathlib.Logic.Function.Basic
import Mathlib.Tactic.Common

namespace Lib

section Replace

variable {α : Type} [DecidableEq α] {old new text rest : List α}

/-- The replacement with `skip` letters of an occurrence still to pass. -/
def replaceFrom (old new : List α) : ℕ → List α → List α
  | _, [] => []
  | skip + 1, _ :: rest => replaceFrom old new skip rest
  | 0, c :: rest =>
    if old <+: c :: rest then new ++ replaceFrom old new (old.length - 1) rest
    else c :: replaceFrom old new 0 rest

/-- All occurrences of a word that is not empty, from the left and without overlap, replaced. -/
def replace (old new text : List α) : List α := replaceFrom old new 0 text

theorem replaceFrom_skip (passed : List α) :
    replaceFrom old new passed.length (passed ++ rest) = replaceFrom old new 0 rest := by
  induction passed with
  | nil => rfl
  | cons c passed ih => exact ih

/-- An occurrence. -/
theorem replace_hit (some : old ≠ []) : replace old new (old ++ rest) = new ++ replace old new rest := by
  cases old with
  | nil => exact absurd rfl some
  | cons c old =>
    have here : c :: old <+: c :: (old ++ rest) := List.prefix_append (c :: old) rest
    show replaceFrom (c :: old) new 0 (c :: (old ++ rest)) = _
    rw [replaceFrom, if_pos here]
    exact congrArg (new ++ ·) (replaceFrom_skip old)

/-- No occurrence. -/
theorem replace_miss {c : α} (none : ¬old <+: c :: rest) :
    replace old new (c :: rest) = c :: replace old new rest := by
  show replaceFrom old new 0 (c :: rest) = _
  rw [replaceFrom, if_neg none]
  rfl

/-- Letters with which the word does not begin are passed over. -/
theorem replace_clear (clear : ∀ c ∈ text, old.head? ≠ some c) (some : old ≠ []) :
    replace old new (text ++ rest) = text ++ replace old new rest := by
  induction text with
  | nil => rfl
  | cons c text ih =>
    have miss : ¬old <+: c :: (text ++ rest) := by
      intro begins
      cases old with
      | nil => exact some rfl
      | cons d old => exact clear c List.mem_cons_self (congrArg Option.some (List.cons_prefix_cons.mp begins).1)
    rw [List.cons_append, replace_miss miss, ih fun d member => clear d (List.mem_cons_of_mem c member)]
    rfl

end Replace

/-! ### Templates -/

/-- A text in front of the first hole, then the name of each hole and the text behind it. -/
structure Template (α : Type) where
  head : List α
  holes : List (List α × List α)

section Templates

variable {α : Type} [DecidableEq α] (mark : α) (isName : α → Bool)

/-- A hole that is not filled. -/
def hole (name : List α) : List α := mark :: mark :: (name ++ [mark, mark])

/-- The holes with what is known of their values. -/
def renderHoles (value : List α → Option (List α)) (holes : List (List α × List α)) : List α :=
  holes.flatMap fun part => (value part.1).getD (hole mark part.1) ++ part.2

def Template.render (value : List α → Option (List α)) (template : Template α) : List α :=
  template.head ++ renderHoles mark value template.holes

/-- A text cut at every pair of marks. -/
def cut : List α → List (List α)
  | [] => [[]]
  | [c] => [[c]]
  | c :: d :: rest =>
    if c = mark ∧ d = mark then [] :: cut rest
    else match cut (d :: rest) with
      | [] => [[c]]
      | piece :: pieces => (c :: piece) :: pieces

/-- Every other piece is the name of a hole. -/
def ofPieces : List (List α) → List (List α × List α)
  | name :: text :: rest => (name, text) :: ofPieces rest
  | _ => []

/-- The template a text stands for. -/
def Template.ofText (text : List α) : Template α :=
  match cut mark text with
  | [] => ⟨[], []⟩
  | head :: pieces => ⟨head, ofPieces pieces⟩

/-- Names consist of name letters, texts have no mark, and between two holes stands a letter that is none. -/
def shapedHoles : List (List α × List α) → Bool
  | [] => true
  | (name, text) :: rest => name ≠ [] && name.all isName && decide (mark ∉ text) &&
      (rest.isEmpty || text.any fun c => !isName c) && shapedHoles rest

/-- The names are those of holes, and no two are equal. -/
def areHoles (names : List (List α)) : Bool :=
  decide names.Nodup && names.all fun name => name ≠ [] && name.all isName

/-- The text is that of a template, with holes of these names. -/
def isTemplate (names : List (List α)) (text : List α) : Bool :=
  let template := Template.ofText mark text
  areHoles isName names && decide (mark ∉ template.head) && shapedHoles mark isName template.holes &&
    template.holes.all (fun part => decide (part.1 ∈ names)) && decide (template.render mark (fun _ => none) = text)

/-- One replacement of a hole after another. -/
def subst (text : List α) (values : List (List α × List α)) : List α :=
  values.foldl (fun text value => replace (hole mark value.1) value.2 text) text

/-- The values by the names of their holes. -/
def valueOf (values : List (List α × List α)) : List α → Option (List α) :=
  values.foldl (fun value part => Function.update value part.1 (some part.2)) fun _ => none

/-- The holes of a text filled all at once. -/
def fillHoles (text : List α) (values : List (List α × List α)) : List α :=
  (Template.ofText mark text).render mark (valueOf values)

/-- A hole's name. -/
structure IsHole (name : List α) : Prop where
  some : name ≠ []
  letters : ∀ c ∈ name, isName c

variable {mark isName} {name other text rest new : List α} {holes : List (List α × List α)}
  {value : List α → Option (List α)} {values : List (List α × List α)}

theorem shapedHoles_cons (shaped : shapedHoles mark isName ((name, text) :: holes)) :
    IsHole isName name ∧ mark ∉ text ∧ (holes ≠ [] → ∃ c ∈ text, ¬isName c) ∧ shapedHoles mark isName holes := by
  unfold shapedHoles at shaped
  simp only [Bool.and_eq_true, Bool.or_eq_true, List.isEmpty_iff, List.all_eq_true, List.any_eq_true,
    decide_eq_true_eq, Bool.not_eq_true', ne_eq] at shaped
  obtain ⟨⟨⟨⟨some, letters⟩, clear⟩, apart⟩, rest⟩ := shaped
  refine ⟨⟨some, letters⟩, clear, fun more => ?_, rest⟩
  obtain ⟨c, member, none⟩ := apart.resolve_left more
  exact ⟨c, member, none ▸ Bool.false_ne_true⟩

/-- Neither a mark nor a name up to two marks stands here. -/
structure Quiet (mark : α) (isName : α → Bool) (text : List α) : Prop where
  head : text.head? ≠ some mark
  name : ∀ name : List α, (∀ c ∈ name, isName c) → ¬name ++ [mark, mark] <+: text

omit [DecidableEq α] in
/-- Behind a hole. -/
theorem Quiet.behind (clear : mark ∉ text) (apart : rest ≠ [] → ∃ c ∈ text, ¬isName c) :
    Quiet mark isName (text ++ rest) := by
  by_cases last : rest = []
  · rw [last, List.append_nil]
    refine ⟨fun here => clear (List.mem_of_mem_head? here), fun name _ begins => clear ?_⟩
    exact begins.subset (List.mem_append_right name List.mem_cons_self)
  obtain ⟨c, member, none⟩ := apart last
  obtain ⟨d, letters, rfl⟩ := List.exists_cons_of_ne_nil (List.ne_nil_of_mem member)
  refine ⟨fun here => clear (Option.some.inj here ▸ List.mem_cons_self), fun name named begins => ?_⟩
  rcases Nat.lt_or_ge name.length (d :: letters).length with short | long
  · -- the first mark would be in the text
    have within : name ++ [mark] <+: d :: letters ++ rest :=
      List.IsPrefix.trans ⟨[mark], by simp⟩ begins
    have marked := List.prefix_of_prefix_length_le within (List.prefix_append _ rest) (by
      rw [List.length_append, List.length_singleton]
      exact short)
    exact clear (marked.subset (List.mem_append_right name List.mem_cons_self))
  · -- the name would have the letter that is none of a name
    have whole : name <+: d :: letters ++ rest := (List.prefix_append _ _).trans begins
    have inside := List.prefix_of_prefix_length_le (List.prefix_append (d :: letters) rest) whole long
    exact none (named c (inside.subset member))

omit [DecidableEq α] in
theorem name_eq {first second behind behind' : List α} (none : ¬isName mark) (named : ∀ c ∈ first, isName c)
    (named' : ∀ c ∈ second, isName c) (same : first ++ mark :: behind = second ++ mark :: behind') :
    first = second := by
  have letters := congrArg (List.takeWhile isName) same
  rwa [List.takeWhile_append_of_pos named, List.takeWhile_append_of_pos named',
    List.takeWhile_cons_of_neg none, List.takeWhile_cons_of_neg none, List.append_nil, List.append_nil] at letters

/-- The hole of another name is passed over. -/
theorem replace_other (none : ¬isName mark) (mine : IsHole isName name) (its : IsHole isName other)
    (apart : other ≠ name) (quiet : Quiet mark isName rest) :
    replace (hole mark name) new (hole mark other ++ rest) = hole mark other ++ replace (hole mark name) new rest := by
  have letters : ∀ c ∈ other, c ≠ mark := fun c member same => none (same ▸ its.letters c member)
  have whole : ¬hole mark name <+: mark :: mark :: (other ++ mark :: mark :: rest) := by
    rintro ⟨tail, same⟩
    have behind : name ++ [mark, mark] ++ tail = other ++ mark :: mark :: rest :=
      @List.append_cancel_left _ [mark, mark] _ _ same
    rw [List.append_assoc] at behind
    exact apart (name_eq none mine.letters its.letters behind).symm
  have second : ¬hole mark name <+: mark :: (other ++ mark :: mark :: rest) := by
    obtain ⟨c, tail, rfl⟩ := List.exists_cons_of_ne_nil its.some
    intro begins
    have first := (List.cons_prefix_cons.mp (List.cons_prefix_cons.mp begins).2).1
    exact letters c List.mem_cons_self first.symm
  have third : ¬hole mark name <+: mark :: mark :: rest := fun begins =>
    quiet.name name mine.letters (List.cons_prefix_cons.mp (List.cons_prefix_cons.mp begins).2).2
  have fourth : ¬hole mark name <+: mark :: rest := by
    intro begins
    obtain ⟨tail, same⟩ := (List.cons_prefix_cons.mp begins).2
    refine quiet.head ?_
    rw [← same]
    rfl
  have spelled : ∀ after : List α, hole mark other ++ after = mark :: mark :: (other ++ mark :: mark :: after) := by
    intro after
    show mark :: mark :: (other ++ [mark, mark] ++ after) = _
    rw [List.append_assoc]
    rfl
  have passed : ∀ c ∈ other, (hole mark name).head? ≠ some c :=
    fun c member same => letters c member (Option.some.inj same).symm
  rw [spelled, spelled, replace_miss whole, replace_miss second, replace_clear passed (List.cons_ne_nil _ _),
    replace_miss third, replace_miss fourth]

/-- **A replacement fills a hole**, where no value that stands in the text has the mark. -/
theorem replace_renderHoles (none : ¬isName mark) (shaped : shapedHoles mark isName holes)
    (mine : IsHole isName name) (fresh : value name = Option.none)
    (clear : ∀ name text, value name = some text → mark ∉ text) :
    replace (hole mark name) new (renderHoles mark value holes) =
      renderHoles mark (Function.update value name (some new)) holes := by
  induction holes with
  | nil => rfl
  | cons part holes ih =>
    obtain ⟨other, text⟩ := part
    obtain ⟨its, unmarked, apart, shaped⟩ := shapedHoles_cons shaped
    have starts : (hole mark name).head? = some mark := rfl
    have filled : hole mark name ≠ [] := List.cons_ne_nil _ _
    have passes : ∀ {text after : List α}, mark ∉ text →
        replace (hole mark name) new (text ++ after) = text ++ replace (hole mark name) new after := by
      intro text after unmarked
      refine replace_clear (fun c member same => unmarked ?_) filled
      rw [Option.some.inj (starts.symm.trans same)]
      exact member
    show replace _ new ((value other).getD (hole mark other) ++ text ++ renderHoles mark value holes) =
      (Function.update value name (some new) other).getD (hole mark other) ++ text ++ renderHoles mark _ holes
    by_cases same : other = name
    · subst same
      rw [fresh, Function.update_self, List.append_assoc, Option.getD_none, replace_hit filled,
        passes unmarked, ih shaped, ← List.append_assoc]
      rfl
    · rw [Function.update_of_ne same]
      cases known : value other with
      | some old =>
        rw [Option.getD_some, List.append_assoc, passes (clear other old known), passes unmarked, ih shaped,
          ← List.append_assoc]
      | none =>
        have behind : renderHoles mark value holes ≠ [] → ∃ c ∈ text, ¬isName c := by
          intro more
          refine apart fun nothing => more ?_
          rw [nothing]
          rfl
        rw [Option.getD_none, List.append_assoc,
          replace_other none mine its same (Quiet.behind unmarked behind), passes unmarked, ih shaped,
          ← List.append_assoc]


theorem valueOf_append (part : List α × List α) :
    valueOf (values ++ [part]) = Function.update (valueOf values) part.1 (some part.2) := by
  unfold valueOf
  rw [List.foldl_append]
  rfl

theorem valueOf_mem (known : valueOf values name = some text) : (name, text) ∈ values := by
  induction values using List.reverseRecOn with
  | nil => cases known
  | append_singleton values part ih =>
    rw [valueOf_append] at known
    by_cases same : name = part.1
    · rw [same, Function.update_self] at known
      rw [same, ← Option.some.inj known]
      exact List.mem_append_right values List.mem_cons_self
    · rw [Function.update_of_ne same] at known
      exact List.mem_append_left [part] (ih known)

theorem valueOf_of_mem_names (member : name ∈ values.map Prod.fst) :
    ∃ text, valueOf values name = some text ∧ (name, text) ∈ values := by
  cases known : valueOf values name with
  | some text => exact ⟨text, rfl, valueOf_mem known⟩
  | none =>
    induction values using List.reverseRecOn with
    | nil => cases member
    | append_singleton values part ih =>
      rw [valueOf_append] at known
      by_cases same : name = part.1
      · rw [same, Function.update_self] at known
        cases known
      · rw [Function.update_of_ne same] at known
        rw [List.map_append, List.mem_append] at member
        obtain ⟨text, wrong, -⟩ := ih (member.resolve_right fun last => same (List.mem_singleton.mp last)) known
        cases wrong

theorem areHoles_append {names : List (List α)} (holes : areHoles isName (names ++ [name])) :
    areHoles isName names ∧ name ∉ names ∧ IsHole isName name := by
  unfold areHoles at holes ⊢
  simp only [Bool.and_eq_true, decide_eq_true_eq, List.all_append, List.all_cons, List.all_nil, Bool.and_true,
    List.all_eq_true, ne_eq] at holes ⊢
  obtain ⟨distinct, ⟨named, some, letters⟩⟩ := holes
  obtain ⟨nodup, -, apart⟩ := List.nodup_append.mp distinct
  exact ⟨⟨nodup, named⟩, fun member => apart name member name List.mem_cons_self rfl, some, letters⟩

theorem isTemplate_spec {names : List (List α)} (good : isTemplate mark isName names text) :
    areHoles isName names ∧ mark ∉ (Template.ofText mark text).head ∧
    shapedHoles mark isName (Template.ofText mark text).holes ∧
    (∀ part ∈ (Template.ofText mark text).holes, part.1 ∈ names) ∧
    (Template.ofText mark text).render mark (fun _ => none) = text := by
  unfold isTemplate at good
  simp only [Bool.and_eq_true, decide_eq_true_eq, List.all_eq_true] at good
  obtain ⟨⟨⟨⟨holes, head⟩, shaped⟩, within⟩, whole⟩ := good
  exact ⟨holes, head, shaped, within, whole⟩

/-- **One replacement after another fills all holes at once**, where only the last value may have the mark. -/
theorem subst_render (none : ¬isName mark) (good : isTemplate mark isName (values.map Prod.fst) text)
    (clear : ∀ part ∈ values.dropLast, mark ∉ part.2) : subst mark text values = fillHoles mark text values := by
  obtain ⟨holes, head, shaped, -, whole⟩ := isTemplate_spec good
  unfold fillHoles
  clear good
  induction values using List.reverseRecOn with
  | nil => exact whole.symm
  | append_singleton values part ih =>
    rw [List.map_append] at holes
    obtain ⟨holes, fresh, mine⟩ := areHoles_append holes
    rw [List.dropLast_concat] at clear
    have unknown : valueOf values part.1 = Option.none := by
      by_contra known
      obtain ⟨old, known⟩ := Option.ne_none_iff_exists'.mp known
      exact fresh (List.mem_map.mpr ⟨_, valueOf_mem known, rfl⟩)
    have last : subst mark text (values ++ [part]) =
        replace (hole mark part.1) part.2 (subst mark text values) := by
      unfold subst
      rw [List.foldl_append]
      rfl
    have passed : ∀ c ∈ (Template.ofText mark text).head, (hole mark part.1).head? ≠ some c :=
      fun c member same => head (Option.some.inj same ▸ member)
    rw [last, ih (fun old member => clear old (List.mem_of_mem_dropLast member)) holes, Template.render,
      replace_clear passed (List.cons_ne_nil _ _), valueOf_append,
      replace_renderHoles none shaped mine unknown fun name old known => clear (name, old) (valueOf_mem known)]
    rfl

theorem renderHoles_clear (shaped : shapedHoles mark isName holes)
    (filled : ∀ part ∈ holes, ∃ new, value part.1 = some new ∧ mark ∉ new) :
    mark ∉ renderHoles mark value holes := by
  induction holes with
  | nil => exact List.not_mem_nil
  | cons part holes ih =>
    obtain ⟨name, text⟩ := part
    obtain ⟨-, unmarked, -, shaped⟩ := shapedHoles_cons shaped
    obtain ⟨new, known, clear⟩ := filled (name, text) List.mem_cons_self
    show mark ∉ (value name).getD (hole mark name) ++ text ++ renderHoles mark value holes
    rw [known, Option.getD_some, List.mem_append, List.mem_append]
    rintro ((here | here) | here)
    · exact clear here
    · exact unmarked here
    · exact ih shaped (fun part member => filled part (List.mem_cons_of_mem _ member)) here

/-- **No hole is left**, and no mark where the values have none. -/
theorem fillHoles_clear (good : isTemplate mark isName (values.map Prod.fst) text)
    (clear : ∀ part ∈ values, mark ∉ part.2) : mark ∉ fillHoles mark text values := by
  obtain ⟨-, head, shaped, within, -⟩ := isTemplate_spec good
  unfold fillHoles Template.render
  rw [List.mem_append]
  rintro (here | here)
  · exact head here
  · refine renderHoles_clear shaped (fun part member => ?_) here
    obtain ⟨new, known, among⟩ := valueOf_of_mem_names (within part member)
    exact ⟨new, known, clear _ among⟩

end Templates

end Lib
