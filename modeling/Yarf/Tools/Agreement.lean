/-
**The two generators agree.**

`proto2bin.py` and `proto2obj4pb.py` are run on the same `.proto` file, and what the one's structs pack the other's are
to hold. They have the same classes: only the second script looks at the key option, and adds functions for it.

* `Program.unkeyed` — a program without its keys;
* `accepted_iff_hasKeys` — when only the first script writes something;
* `scripts_agree` — the classes are the same.
-/

import Yarf.Tools.GenProgram

namespace Yarf.Tools

open Lib

/-! ### Programs without keys -/

def Member.unkeyed (member : Member) : Member := { member with key := none }

def Class.unkeyed (cls : Class) : Class := { cls with members := cls.members.map Member.unkeyed }

def Program.unkeyed (program : Program) : Program := { program with classes := program.classes.map Class.unkeyed }

section Unkeyed

variable {allProto : List FileProto} {notes : Notes} {parseInstruct : List Text} {desc : FileProto} {program : Program}
  {field : FieldProto} {member : Member} {sized : Text → Prop} {marked : Prop}

theorem not_keyed_bin : ¬Keyed Bin.script field marked :=
  fun keyed => Bool.false_ne_true keyed.1

theorem IsMember.unkeyed (isMember : IsMember Obj.script allProto sized marked field member) :
    IsMember Bin.script allProto sized marked field member.unkeyed :=
  ⟨isMember.name, isMember.ctype, isMember.kind, not_keyed_bin⟩

theorem IsProgram.unkeyed (made : IsProgram Obj.script allProto notes desc program) :
    IsProgram Bin.script allProto notes desc program.unkeyed := by
  refine ⟨made.ns, made.includes, List.forall₂_map_right_iff.mpr ?_⟩
  refine forall₂_imp (fun message _ cls both => ?_) made.classes
  refine ⟨both.1, List.forall₂_map_right_iff.mpr ?_⟩
  exact forall₂_imp (fun field _ member both => ⟨both.1, both.2.unkeyed⟩) both.2

theorem accepted_iff_hasKeys : Accepted Obj.script allProto notes parseInstruct desc ↔
    Accepted Bin.script allProto notes parseInstruct desc ∧ HasKeys allProto notes desc := by
  constructor
  · rintro ⟨instructed, package, fields⟩
    refine ⟨⟨instructed, package, fun message among field inside => ?_⟩, fun message among field inside many marked => ?_⟩
    · have ok := fields message among field inside
      exact ⟨ok.supported, ok.single, ok.size, fun keyed => absurd keyed not_keyed_bin⟩
    · exact (fields message among field inside).key ⟨rfl, many, marked⟩
  · rintro ⟨⟨instructed, package, fields⟩, keys⟩
    refine ⟨instructed, package, fun message among field inside => ?_⟩
    have ok := fields message among field inside
    exact ⟨ok.supported, ok.single, ok.size, fun keyed => keys message among field inside keyed.2.1 keyed.2.2⟩

end Unkeyed

namespace Gen

/-- **The two scripts write the same classes down**, with the same members, types and sizes: where the first accepts a
descriptor and every marked list has a key, the program of the first is that of the second without the keys. Where a
marked list has none the second writes nothing, and otherwise both write nothing. -/
theorem scripts_agree (allProto : List FileProto) (fileLines : List Text) (structDict : Dict) (filePre : Text)
    (parseInstruct : List Text) (desc : FileProto) (all : ∀ desc ∈ allProto, desc.Plain) (plain : desc.Plain)
    (file : '$' ∉ filePre) :
    (Accepted Bin.script allProto (foundNotes fileLines structDict) parseInstruct desc →
      (HasKeys allProto (foundNotes fileLines structDict) desc →
        ∃ program, IsProgram Obj.script allProto (foundNotes fileLines structDict) desc program ∧
          written Obj.script allProto fileLines structDict filePre parseInstruct desc =
            (header Obj.script filePre program, source Obj.script filePre program) ∧
          written Bin.script allProto fileLines structDict filePre parseInstruct desc =
            (header Bin.script filePre program.unkeyed, source Bin.script filePre program.unkeyed)) ∧
      (¬HasKeys allProto (foundNotes fileLines structDict) desc →
        (∃ program, IsProgram Bin.script allProto (foundNotes fileLines structDict) desc program ∧
          written Bin.script allProto fileLines structDict filePre parseInstruct desc =
            (header Bin.script filePre program, source Bin.script filePre program)) ∧
        written Obj.script allProto fileLines structDict filePre parseInstruct desc = ([], []))) ∧
    (¬Accepted Bin.script allProto (foundNotes fileLines structDict) parseInstruct desc →
      written Bin.script allProto fileLines structDict filePre parseInstruct desc = ([], []) ∧
        written Obj.script allProto fileLines structDict filePre parseInstruct desc = ([], [])) := by
  have bin : Bin.script ∈ scripts := List.mem_cons_self
  have obj : Obj.script ∈ scripts := List.mem_cons_of_mem _ List.mem_cons_self
  refine ⟨fun accepted => ⟨fun keys => ?_, fun none => ⟨?_, ?_⟩⟩, fun refused => ⟨?_, ?_⟩⟩
  · obtain ⟨long, program, made⟩ := accepted_iff.mp (accepted_iff_hasKeys.mpr ⟨accepted, keys⟩)
    exact ⟨program, made, written_eq obj all plain file long made, written_eq bin all plain file long made.unkeyed⟩
  · obtain ⟨long, program, made⟩ := accepted_iff.mp accepted
    exact ⟨program, made, written_eq bin all plain file long made⟩
  · exact written_nil obj all plain file fun both => none (accepted_iff_hasKeys.mp both).2
  · exact written_nil bin all plain file refused
  · exact written_nil obj all plain file fun both => refused (accepted_iff_hasKeys.mp both).1

theorem scripts_agree_deck :
    ∃ program, IsProgram Obj.script [deckProto] (foundNotes deckFile deckDict) deckProto program ∧
      written Obj.script [deckProto] deckFile deckDict "deck".toList [[], []] deckProto =
        (header Obj.script "deck".toList program, source Obj.script "deck".toList program) ∧
      written Bin.script [deckProto] deckFile deckDict "deck".toList [[], []] deckProto =
        (header Bin.script "deck".toList program.unkeyed, source Bin.script "deck".toList program.unkeyed) :=
  ((scripts_agree [deckProto] deckFile deckDict "deck".toList [[], []] deckProto deck_all deck_plain
    (by decide +kernel)).1 (deck_accepted _ _ le_rfl)).1
    (accepted_iff_hasKeys.mp (deck_accepted Obj.script [[], []] le_rfl)).2

end Gen

end Yarf.Tools
