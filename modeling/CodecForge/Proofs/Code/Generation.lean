import CodecForge.Code.Generator
import CodecForge.Proofs.Lists

/-!
# Codecs that are generated

Where a codec is generated, a plan was selected, the plan has a unit, and the code is what the unit
is spelled as.
-/

namespace CodecForge.Code

open CodecForge.Schema CodecForge.Source CodecForge.Plan

/-- A codec is spelled from the unit for the plan that was selected. -/
theorem exists_unit_of_generate {g : Generator} {d : TypeDecl} {s : Strategy} {gen : Generated}
    (h : g.generate d s = .ok gen) :
    ∃ (frame : Frame) (plan : CodecPlan) (unit : CodecUnit),
      readPath d d.pathText = .ok frame.type ∧ select d s = .ok plan ∧
      CodecUnit.ofPlan frame.type plan = .ok unit ∧
      frame.runtime = g.runtime ∧ frame.marshaller = g.marshaller ∧
      gen.encode = frame.encodeTokens unit ∧ gen.decode = frame.decodeTokens unit ∧
      gen.tokens = frame.tokens unit := by
  obtain ⟨type, htype, h⟩ := bind_eq_ok_iff.1 h
  obtain ⟨plan, hplan, h⟩ := bind_eq_ok_iff.1 h
  obtain ⟨unit, hunit, h⟩ := bind_eq_ok_iff.1 h
  obtain ⟨codec, -, h⟩ := bind_eq_ok_iff.1 h
  obtain ⟨visibility, -, h⟩ := bind_eq_ok_iff.1 h
  cases h
  exact ⟨⟨g.runtime, g.marshaller, type, codec, visibility, _, _⟩, plan, unit,
    mapError_eq_ok_iff.1 htype, mapError_eq_ok_iff.1 hplan, mapError_eq_ok_iff.1 hunit, rfl, rfl,
    rfl, rfl, rfl⟩

end CodecForge.Code
