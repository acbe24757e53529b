/-
**The templates of the generators** (`proto2bin.py` and `proto2obj4pb.py`).

What `gen_code` puts together. A hole of a template is written `$$name$$`, and its name has small letters and
underscores only.

* `replaced` — holes replaced one after another, as `str.replace` does it;
* `replaced_eq` — the same as filling them all at once;
* `Piece` — a template, and its holes in the order in which they are replaced;
* `Script` — the pieces of a generator.
-/

import Yarf.Lib.Template
import Yarf.Tools.ReadProto

namespace Yarf.Tools

open Lib

/-! ### Holes -/

def isHoleChar (c : Char) : Bool := c.isLower || c = '_'

/-- `text.replace("$$name$$", value)` for one name and value after another -/
def replaced (text : Text) (values : List (String × Text)) : Text :=
  subst '$' text (values.map fun part => (part.1.toList, part.2))

/-- The holes filled all at once. -/
def filled (text : Text) (values : List (String × Text)) : Text :=
  fillHoles '$' text (values.map fun part => (part.1.toList, part.2))

/-- The text is a template, and these are all its holes. -/
def HasHoles (names : List String) (text : Text) : Prop :=
  isTemplate '$' isHoleChar (names.map String.toList) text

theorem not_isHoleChar : ¬isHoleChar '$' := by decide

section Holes

variable {names : List String} {text : Text} {values : List (String × Text)}

theorem HasHoles.named (holes : HasHoles (values.map Prod.fst) text) : isTemplate '$' isHoleChar
    ((values.map fun part => (part.1.toList, part.2)).map Prod.fst) text := by
  rw [List.map_map]
  rw [HasHoles, List.map_map] at holes
  exact holes

/-- Only the value filled in last may have the letter of the holes. -/
theorem replaced_eq (values : List (String × Text)) (holes : HasHoles (values.map Prod.fst) text)
    (clear : ∀ part ∈ values.dropLast, '$' ∉ part.2) : replaced text values = filled text values := by
  refine subst_render not_isHoleChar holes.named fun part member => ?_
  rw [← List.map_dropLast] at member
  obtain ⟨old, among, rfl⟩ := List.mem_map.mp member
  exact clear old among

theorem filled_clear (values : List (String × Text)) (holes : HasHoles (values.map Prod.fst) text)
    (clear : ∀ part ∈ values, '$' ∉ part.2) : '$' ∉ filled text values := by
  refine fillHoles_clear holes.named fun part member => ?_
  obtain ⟨old, among, rfl⟩ := List.mem_map.mp member
  exact clear old among

end Holes

/-! ### Lines -/

/-- A text of several lines. -/
def textLines (lines : List String) : Text := List.intercalate ['\n'] (lines.map String.toList)

/-- These strings have these letters. -/
abbrev Spelled (strings : List String) (letters : List Text) : Prop :=
  List.Forall₂ (fun string letters => string = String.ofList letters) strings letters

theorem Spelled.toList {strings : List String} {letters : List Text} (spelled : Spelled strings letters) :
    strings.map String.toList = letters := by
  induction spelled with
  | nil => rfl
  | cons same _ ih => rw [List.map_cons, ih, same, String.toList_ofList]

/-! ### Pieces -/

/-- A template, and its holes in the order in which `gen_code` replaces them. -/
structure Piece where
  template : Text
  holes : List String

namespace Piece

def put (piece : Piece) (values : String → Text) : Text :=
  replaced piece.template (piece.holes.map fun hole => (hole, values hole))

/-- The holes filled all at once. -/
def fill (piece : Piece) (values : String → Text) : Text :=
  filled piece.template (piece.holes.map fun hole => (hole, values hole))

/-- The holes of the template are replaced, and the one for a size last. -/
structure Sound (piece : Piece) : Prop where
  holes : HasHoles piece.holes piece.template
  last : "max" ∉ piece.holes.dropLast

section Sound

variable {piece : Piece} {values : String → Text}

theorem Sound.named (sound : piece.Sound) :
    HasHoles ((piece.holes.map fun hole => (hole, values hole)).map Prod.fst) piece.template := by
  rw [List.map_map]
  have same : Prod.fst ∘ (fun hole => (hole, values hole)) = id := rfl
  rw [same, List.map_id]
  exact sound.holes

/-- Only a size may have the letter of the holes. -/
theorem Sound.put_eq (sound : piece.Sound) (clear : ∀ hole, hole ≠ "max" → '$' ∉ values hole) :
    piece.put values = piece.fill values := by
  refine replaced_eq _ sound.named fun part among => ?_
  rw [← List.map_dropLast] at among
  obtain ⟨hole, inside, rfl⟩ := List.mem_map.mp among
  exact clear hole fun size => sound.last (size ▸ inside)

theorem Sound.fill_clear (sound : piece.Sound) (clear : ∀ hole, '$' ∉ values hole) : '$' ∉ piece.fill values := by
  refine filled_clear _ sound.named fun part among => ?_
  obtain ⟨hole, -, rfl⟩ := List.mem_map.mp among
  exact clear hole

/-- The letters are looked at one by one. -/
theorem Sound.ofLines {lines : List String} {letters bytes : List Text} (named : Spelled piece.holes letters)
    (spelled : Spelled lines bytes) (same : piece.template = textLines lines)
    (good : isTemplate '$' isHoleChar letters (List.intercalate ['\n'] bytes) ∧ "max".toList ∉ letters.dropLast) :
    piece.Sound := by
  refine ⟨?_, fun size => good.2 ?_⟩
  · rw [HasHoles, same, textLines, named.toList, spelled.toList]
    exact good.1
  · rw [← named.toList, ← List.map_dropLast]
    exact List.mem_map_of_mem size

end Sound

/-- In the place of a template that a script does not have. -/
def none : Piece := ⟨[], []⟩

theorem none_sound : none.Sound :=
  @Sound.ofLines none [] [] [] .nil .nil rfl (by decide)

end Piece

/-! ### Scripts -/

/-- The pieces `gen_code` uses, under the names of their templates, and whether it looks at the key option. -/
structure Script where
  hBegin : Piece
  hInclude : Piece
  hNsBegin : Piece
  hClassBegin : Piece
  hSingleField : Piece
  hStringField : Piece
  hVecField : Piece
  hVecFieldMore : Piece
  hClassEnd : Piece
  hEnd : Piece
  ccBegin : Piece
  ccEncodeBegin : Piece
  ccEncodeSimpleField : Piece
  ccEncodeStructField : Piece
  ccEncodeStringField : Piece
  ccEncodeSimpleVecField : Piece
  ccEncodeStructVecField : Piece
  ccEncodeEnd : Piece
  ccDecodeBegin : Piece
  ccDecodeSimpleField : Piece
  ccDecodeStructField : Piece
  ccDecodeStringField : Piece
  ccDecodeSimpleVecField : Piece
  ccDecodeStructVecField : Piece
  codeDecodeEnd : Piece
  ccOptFunc : Piece
  ccAdditionalOptFunc : Piece
  keyed : Bool

structure Script.Sound (script : Script) : Prop where
  hBegin : script.hBegin.Sound
  hInclude : script.hInclude.Sound
  hNsBegin : script.hNsBegin.Sound
  hClassBegin : script.hClassBegin.Sound
  hSingleField : script.hSingleField.Sound
  hStringField : script.hStringField.Sound
  hVecField : script.hVecField.Sound
  hVecFieldMore : script.hVecFieldMore.Sound
  hClassEnd : script.hClassEnd.Sound
  hEnd : script.hEnd.Sound
  ccBegin : script.ccBegin.Sound
  ccEncodeBegin : script.ccEncodeBegin.Sound
  ccEncodeSimpleField : script.ccEncodeSimpleField.Sound
  ccEncodeStructField : script.ccEncodeStructField.Sound
  ccEncodeStringField : script.ccEncodeStringField.Sound
  ccEncodeSimpleVecField : script.ccEncodeSimpleVecField.Sound
  ccEncodeStructVecField : script.ccEncodeStructVecField.Sound
  ccEncodeEnd : script.ccEncodeEnd.Sound
  ccDecodeBegin : script.ccDecodeBegin.Sound
  ccDecodeSimpleField : script.ccDecodeSimpleField.Sound
  ccDecodeStructField : script.ccDecodeStructField.Sound
  ccDecodeStringField : script.ccDecodeStringField.Sound
  ccDecodeSimpleVecField : script.ccDecodeSimpleVecField.Sound
  ccDecodeStructVecField : script.ccDecodeStructVecField.Sound
  codeDecodeEnd : script.codeDecodeEnd.Sound
  ccOptFunc : script.ccOptFunc.Sound
  ccAdditionalOptFunc : script.ccAdditionalOptFunc.Sound

end Yarf.Tools
