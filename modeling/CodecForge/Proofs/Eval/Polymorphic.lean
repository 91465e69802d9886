import CodecForge.Eval.Codec
import CodecForge.Proofs.Code.Batch
import CodecForge.Proofs.Dispatch.RoundTrip

/-!
# The codec of a base

What is generated for a base hands each value to the registry that the codec holds, and so to the
codec that was registered for the type of the value.
-/

namespace CodecForge.Eval

open CodecForge.Schema CodecForge.Source CodecForge.Plan CodecForge.Code CodecForge.Wire
open CodecForge.Dispatch

theorem select_polymorphic_ok {d : TypeDecl} {plan : CodecPlan}
    (h : select d .polymorphic = .ok plan) : ∃ dependency, plan = .polymorphic dependency := by
  have hstrategy := strategy_of_select h
  cases plan with
  | polymorphic dependency => exact ⟨dependency, rfl⟩
  | instantiator plan => cases hstrategy
  | publicFields plan => cases hstrategy
  | singleton instancePath => cases hstrategy

/-- The code that is generated for a base is that of a unit that holds a registry.  If a codec was
accepted for the base, whatever was registered before and after it, then the codec of the base reads
back what it writes of the values of that type, wherever the registered codec does so with the same
dependency. -/
theorem polymorphic_readAs {g : Generator} {d : TypeDecl} {gen : Generated}
    (hg : g.generate d .polymorphic = .ok gen) :
    ∃ base unit,
      readPath d d.pathText = .ok base ∧
      gen.encode = unit.encode.tokens g.runtime g.marshaller ∧
      gen.decode = unit.decode.tokens g.runtime g.marshaller ∧
      ∀ (m : Marshalling) (h : Host) (before after : List Registration) (c : Registration)
        (dependency given : Option Value) (v w : Value),
        ((Registry.run before).perform c).2 = none →
        h.registry = Registry.run (before ++ c :: after) →
        c.base = baseName h base.tokens →
        c.codec.dependencyOf (erased h unit.dependency dependency) = .ok given →
        Writer.ReadAs (c.codec.encode v given) (c.codec.decode given) w →
        Writer.ReadAs (encodeUnit m h unit (boxed ⟨c.codec.encoded, v⟩) dependency)
          (decodeUnit m h unit dependency) (boxed (c.upcast w)) := by
  obtain ⟨frame, plan, unit, htype, hselect, hunit, hruntime, hmarshaller, hencode, hdecode, -⟩ :=
    exists_unit_of_generate hg
  obtain ⟨type, rfl⟩ := select_polymorphic_ok hselect
  cases hunit
  rw [Frame.encodeTokens, hruntime, hmarshaller] at hencode
  rw [Frame.decodeTokens, hruntime, hmarshaller] at hdecode
  refine ⟨frame.type, _, htype, hencode, hdecode, ?_⟩
  intro m h before after c dependency given v w hc hregistry hbase hgiven hread
  have hserved := Registry.readAs_of_accepted hc after hgiven hread
  rw [← hregistry, hbase, ← unboxed_boxed ⟨c.codec.encoded, v⟩] at hserved
  exact hserved.map boxed

end CodecForge.Eval
