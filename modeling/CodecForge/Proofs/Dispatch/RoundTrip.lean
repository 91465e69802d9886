import CodecForge.Proofs.Dispatch.Runs

/-!
# Values come back by dispatch

A codec that was once registered for a base, whatever was registered before and after it, writes
the values of its type behind its discriminator, and reads what stands behind its discriminator.
-/

namespace CodecForge.Dispatch

open CodecForge.Wire

/-- The bytes of a discriminator. -/
def tagBytes (tag : UInt32) : Bytes := littleEndian 4 tag.toNat

theorem writeTag_apply (tag : UInt32) (p : Bytes) :
    Writer.bits .w32 tag.toNat p = .ok () (p ++ tagBytes tag) := rfl

theorem readTag_apply (tag : UInt32) {before data : Bytes}
    (hlen : (before ++ (tagBytes tag ++ data)).length < UInt64.size) :
    Reader.bits .w32 ⟨before ++ (tagBytes tag ++ data), before.length⟩ =
      .ok tag.toNat ⟨before ++ (tagBytes tag ++ data), before.length + 4⟩ := by
  have htag : tag.toNat < Width.bound .w32 := tag.toNat_lt
  exact Reader.yields_bits htag before data hlen

theorem readAs_tag (tag : UInt32) :
    Writer.ReadAs (Writer.bits .w32 tag.toNat) (Reader.bits .w32) tag.toNat := by
  intro p p' hrun
  cases hrun
  exact ⟨tagBytes tag, rfl, Reader.yields_bits tag.toNat_lt⟩

/-! ### The codec of an entry -/

section Entry

variable {e : Entry} {dependency : Option Typed} {d : Option Value}

theorem Entry.encode_apply (hd : e.codec.dependencyOf dependency = .ok d) (v : Value) (p : Bytes) :
    e.encode ⟨e.codec.encoded, v⟩ dependency p = e.codec.encode v d p := by
  simp only [Entry.encode, ne_eq, not_true_eq_false, if_false, hd, ofExcept, pure_bind]

theorem Entry.decode_apply (hd : e.codec.dependencyOf dependency = .ok d) (i : Input) :
    e.decode e.base dependency i = (e.upcast <$> e.codec.decode d) i := by
  simp only [Entry.decode, ne_eq, not_true_eq_false, if_false, hd, ofExcept, pure_bind,
    map_eq_pure_bind]

end Entry

namespace Registry

/-- An accepted registration is found under both keys from then on. -/
theorem found_of_accepted {before : List Registration} {g : Registration}
    (hg : ((run before).perform g).2 = none) (after : List Registration) :
    (run (before ++ g :: after)).entryForType? g.base g.codec.encoded = some g.entry ∧
      (run (before ++ g :: after)).entryForTag? g.base g.entry.tag = some g.entry := by
  have hfound : Accepts (before ++ g :: after) g := ⟨before, after, rfl, hg⟩
  exact ⟨entryForType?_run_iff.2 ⟨g, hfound, ⟨rfl, rfl⟩, rfl⟩,
    entryForTag?_run_iff.2 ⟨g, hfound, ⟨rfl, rfl⟩, rfl⟩⟩

/-- If what the accepted codec writes of a value is read as another by itself, then it is so by the
registry, which makes a value of the base of it. -/
theorem readAs_of_accepted {before : List Registration} {g : Registration}
    (hg : ((run before).perform g).2 = none) (after : List Registration)
    {dependency : Option Typed} {d : Option Value} (hd : g.codec.dependencyOf dependency = .ok d)
    {v w : Value} (h : Writer.ReadAs (g.codec.encode v d) (g.codec.decode d) w) :
    Writer.ReadAs ((run (before ++ g :: after)).encode g.base ⟨g.codec.encoded, v⟩ dependency)
      ((run (before ++ g :: after)).decode g.base dependency) (g.upcast w) := by
  obtain ⟨htype, htag⟩ := found_of_accepted hg after
  have hencode : g.entry.encode ⟨g.codec.encoded, v⟩ dependency = g.codec.encode v d :=
    funext (Entry.encode_apply hd v)
  have hdecode : g.entry.decode g.base dependency = g.upcast <$> g.codec.decode d :=
    funext (Entry.decode_apply hd)
  simp only [encode, htype, decode]
  refine (readAs_tag g.entry.tag).bind ?_
  rw [UInt32.ofNat_toNat]
  simp only [htag, hencode, hdecode]
  exact h.map g.upcast

/-- In the registry after any registrations, of which one was accepted, a value of the type of its
codec is written as the discriminator of the codec with what the codec writes behind it; and what
stands behind the discriminator is read by the codec and made a value of the base. -/
theorem dispatch_roundTrip {before after : List Registration} {g : Registration}
    (hg : ((run before).perform g).2 = none) {dependency : Option Typed} {d : Option Value}
    (hd : g.codec.dependencyOf dependency = .ok d) (v : Value) :
    (∀ p, (run (before ++ g :: after)).encode g.base ⟨g.codec.encoded, v⟩ dependency p =
      g.codec.encode v d (p ++ tagBytes (discriminator g.codec.typeName))) ∧
    (∀ p payload,
      g.codec.encode v d (p ++ tagBytes (discriminator g.codec.typeName)) =
          .ok () (p ++ tagBytes (discriminator g.codec.typeName) ++ payload) →
        (run (before ++ g :: after)).encode g.base ⟨g.codec.encoded, v⟩ dependency p =
          .ok () (p ++ (tagBytes (discriminator g.codec.typeName) ++ payload))) ∧
    ∀ prior payload rest : Bytes,
      (prior ++ (tagBytes (discriminator g.codec.typeName) ++ (payload ++ rest))).length <
          UInt64.size →
        (run (before ++ g :: after)).decode g.base dependency
            ⟨prior ++ (tagBytes (discriminator g.codec.typeName) ++ (payload ++ rest)),
              prior.length⟩ =
          (g.upcast <$> g.codec.decode d)
            ⟨prior ++ (tagBytes (discriminator g.codec.typeName) ++ (payload ++ rest)),
              prior.length + 4⟩ := by
  obtain ⟨htype, htag⟩ := found_of_accepted hg after
  have hencode : ∀ p,
      (run (before ++ g :: after)).encode g.base ⟨g.codec.encoded, v⟩ dependency p =
        g.codec.encode v d (p ++ tagBytes (discriminator g.codec.typeName)) := by
    intro p
    simp only [encode, htype]
    rw [bind_eq_of_ok (writeTag_apply g.entry.tag p)]
    exact Entry.encode_apply hd v _
  refine ⟨hencode, ?_, ?_⟩
  · intro p payload hpayload
    rw [hencode, hpayload, List.append_assoc]
  · intro prior payload rest hlen
    rw [decode, bind_eq_of_ok (readTag_apply _ hlen), UInt32.ofNat_toNat]
    simp only [show discriminator g.codec.typeName = g.entry.tag from rfl, htag]
    exact Entry.decode_apply hd _

/-- The registration of a type whose values are one byte. -/
def oneByte (base type : String) : Registration where
  base := base
  codec :=
    { typeName := type
      encoded := type
      dependency := none
      encode := fun v _ => match v with
        | .integer n => Writer.integer .w8 n
        | _ => pure ()
      decode := fun _ => do return .integer (← Reader.integer false .w8) }
  upcast := (⟨type, ·⟩)

/-- A square among circles, with squares of another base and a second registration of its own. -/
theorem dispatch_roundTrip_square :
    (run [oneByte "Shape" "Circle", oneByte "Tile" "Square", oneByte "Shape" "Square",
        oneByte "Shape" "Square"]).encode "Shape" ⟨"Square", .integer 5⟩ none [9] =
      .ok () [9, 102, 140, 201, 250, 5] ∧
    (run [oneByte "Shape" "Circle", oneByte "Tile" "Square", oneByte "Shape" "Square",
        oneByte "Shape" "Square"]).decode "Shape" none ⟨[9, 102, 140, 201, 250, 5, 8], 1⟩ =
      .ok ⟨"Square", .integer 5⟩ ⟨[9, 102, 140, 201, 250, 5, 8], 6⟩ := by
  have haccepted : ((run [oneByte "Shape" "Circle", oneByte "Tile" "Square"]).perform
      (oneByte "Shape" "Square")).2 = none := rfl
  have hround := @dispatch_roundTrip _ [oneByte "Shape" "Square"] _ haccepted none none rfl
    (.integer 5)
  exact ⟨hround.2.1 [9] [5] rfl, hround.2.2 [9] [5] [8] (by decide)⟩

end Registry

end CodecForge.Dispatch
