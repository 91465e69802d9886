import CodecForge.Dispatch.Registry
import CodecForge.Proofs.Lists

/-!
# The tables of a registry

A table of a base keeps its entries twice, by type and by discriminator.  `BaseTable.Holds` says
that both are listings of the same entries, and `Registry.Coherent` that this is so for every base;
`Registry.Coherent.register` says that a registration keeps it.
-/

namespace CodecForge.Dispatch

open CodecForge.Wire

/-! ### The table of a base -/

namespace Registry

variable (r : Registry) (base : String) (t : BaseTable)

theorem lookup_setTable (base' : String) :
    (r.setTable base t).bases.lookup base' =
      if base' = base then some t else r.bases.lookup base' := by
  unfold setTable
  split
  · next h =>
    obtain ⟨t', ht'⟩ := Option.isSome_iff_exists.1 h
    rw [lookup_map_replace, ht', Option.map_some]
  · next h =>
    exact lookup_append_singleton (Option.not_isSome_iff_eq_none.1 h) base'

@[simp] theorem table_setTable (base' : String) :
    (r.setTable base t).table base' = if base' = base then t else r.table base' := by
  simp only [table, lookup_setTable]
  split <;> rfl

theorem keys_setTable :
    (r.setTable base t).bases.map Prod.fst =
      if (r.bases.lookup base).isSome then r.bases.map Prod.fst
      else r.bases.map Prod.fst ++ [base] := by
  unfold setTable
  split
  · rw [List.map_map]
    refine List.map_congr_left fun b _ => ?_
    by_cases h : b.1 = base <;> simp [h]
  · simp

variable {r}

/-- Nothing is changed where a base is given the table that it has. -/
theorem setTable_table (hr : (r.bases.map Prod.fst).Nodup)
    (hbase : (r.bases.lookup base).isSome) : r.setTable base (r.table base) = r := by
  obtain ⟨t, ht⟩ := Option.isSome_iff_exists.1 hbase
  have hsame : ∀ b ∈ r.bases, (if b.1 == base then (base, t) else b) = b := by
    rintro ⟨base', t'⟩ hb
    by_cases h : base' = base
    · subst h
      rw [(lookup_eq_some_iff_mem hr).2 hb, Option.some.injEq] at ht
      simp [ht]
    · simp [h]
  rw [setTable, if_pos hbase, table, ht, Option.getD_some, List.map_congr_left hsame,
    List.map_id_fun', id]

end Registry

/-! ### Entries under two keys -/

/-- The table holds exactly the given entries, each under its type and under its discriminator. -/
structure BaseTable.Holds (t : BaseTable) (base : String) (entries : List Entry) : Prop where
  byType : t.byType = entries.map fun e => (e.codec.encoded, e)
  byTag : t.byTag = entries.map fun e => (e.tag, e)
  tags : ∀ e ∈ entries, e.tag = discriminator e.codec.typeName
  bases : ∀ e ∈ entries, e.base = base
  distinctTypes : (entries.map fun e => e.codec.encoded).Nodup
  distinctTags : (entries.map Entry.tag).Nodup

namespace BaseTable

variable {t : BaseTable} {base : String} {entries : List Entry} {c : ObjectCodec}
  {upcast : Value → Typed}

theorem holds_empty (base : String) : Holds {} base [] := by
  constructor <;> simp

theorem Holds.nodup_types (ht : t.Holds base entries) : (t.byType.map Prod.fst).Nodup := by
  rw [ht.byType, List.map_map]
  exact ht.distinctTypes

theorem Holds.nodup_tags (ht : t.Holds base entries) : (t.byTag.map Prod.fst).Nodup := by
  rw [ht.byTag, List.map_map]
  exact ht.distinctTags

theorem Holds.lookup_type (ht : t.Holds base entries) (type : String) (e : Entry) :
    t.byType.lookup type = some e ↔ e ∈ entries ∧ e.codec.encoded = type := by
  rw [ht.byType]
  exact lookup_map_key_iff ht.distinctTypes

theorem Holds.lookup_tag (ht : t.Holds base entries) (tag : UInt32) (e : Entry) :
    t.byTag.lookup tag = some e ↔ e ∈ entries ∧ e.tag = tag := by
  rw [ht.byTag]
  exact lookup_map_key_iff ht.distinctTags

theorem conflicts_eq_false_iff :
    t.conflicts c = false ↔
      t.byType.lookup c.encoded = none ∧ t.byTag.lookup (discriminator c.typeName) = none := by
  simp only [conflicts, Bool.or_eq_false_iff, Option.isSome_eq_false_iff, Option.isNone_iff_eq_none]

/-- A codec that does not conflict is one more entry. -/
theorem Holds.add (ht : t.Holds base entries) (hc : t.conflicts c = false) :
    (t.add base c upcast).Holds base
      (entries ++ [⟨discriminator c.typeName, base, c, upcast⟩]) := by
  obtain ⟨htype, htag⟩ := conflicts_eq_false_iff.1 hc
  rw [ht.byType] at htype
  rw [ht.byTag] at htag
  constructor
  · simp [BaseTable.add, ht.byType]
  · simp [BaseTable.add, ht.byTag]
  · simpa [or_imp, forall_and] using ht.tags
  · simpa [or_imp, forall_and] using ht.bases
  · rw [List.map_append, List.map_singleton, ← List.concat_eq_append]
    exact ht.distinctTypes.concat (notMem_of_lookup_map_key htype)
  · rw [List.map_append, List.map_singleton, ← List.concat_eq_append]
    exact ht.distinctTags.concat (notMem_of_lookup_map_key htag)

end BaseTable

/-! ### All tables -/

/-- Every base has one table, which holds its entries under both keys. -/
structure Registry.Coherent (r : Registry) : Prop where
  distinctBases : (r.bases.map Prod.fst).Nodup
  tables : ∀ base, ∃ entries, (r.table base).Holds base entries

namespace Registry

variable {r : Registry} {base : String} {c : ObjectCodec} {upcast : Value → Typed}

theorem coherent_empty : empty.Coherent where
  distinctBases := List.nodup_nil
  tables base := ⟨[], BaseTable.holds_empty base⟩

theorem Coherent.setTable (hr : r.Coherent) {t : BaseTable} {entries : List Entry}
    (ht : t.Holds base entries) : (r.setTable base t).Coherent := by
  constructor
  · rw [keys_setTable]
    split
    · exact hr.distinctBases
    · next h =>
      rw [← List.concat_eq_append]
      refine hr.distinctBases.concat fun hmem => h ?_
      obtain ⟨b, hb, rfl⟩ := List.mem_map.1 hmem
      exact List.lookup_isSome_iff.2 ⟨b, hb, beq_self_eq_true b.1⟩
  · intro base'
    rw [table_setTable]
    split
    · next h => exact ⟨entries, h ▸ ht⟩
    · exact hr.tables base'

/-- A refused registration leaves the registry as it is. -/
theorem register_of_conflicts (hr : r.Coherent) (hc : (r.table base).conflicts c = true) :
    r.register base c upcast = (r, some (.duplicateRegistration base c.typeName)) := by
  -- a base without a table has an empty one, with which nothing conflicts
  have hbase : (r.bases.lookup base).isSome := by
    cases h : r.bases.lookup base with
    | none => simp [table, h, BaseTable.conflicts] at hc
    | some t => rfl
  rw [register, if_pos hc, setTable_table base hr.distinctBases hbase]

/-- A registration that is not refused adds an entry to the table of its base. -/
theorem register_of_free (hc : (r.table base).conflicts c = false) :
    r.register base c upcast = (r.setTable base ((r.table base).add base c upcast), none) := by
  rw [register, if_neg (by simp [hc])]

theorem Coherent.register (hr : r.Coherent) (base : String) (c : ObjectCodec)
    (upcast : Value → Typed) : (r.register base c upcast).1.Coherent := by
  cases hc : (r.table base).conflicts c with
  | true =>
    rw [register_of_conflicts hr hc]
    exact hr
  | false =>
    obtain ⟨entries, ht⟩ := hr.tables base
    rw [register_of_free hc]
    exact hr.setTable (ht.add hc)

/-! ### What a registration changes -/

theorem register_snd_eq_none_iff (hr : r.Coherent) :
    (r.register base c upcast).2 = none ↔ (r.table base).conflicts c = false := by
  cases hc : (r.table base).conflicts c with
  | true => simp [register_of_conflicts hr hc]
  | false => simp [register_of_free hc]

theorem entryForType?_register (hc : (r.table base).conflicts c = false) (base' type : String) :
    (r.register base c upcast).1.entryForType? base' type =
      if base' = base ∧ type = c.encoded then some ⟨discriminator c.typeName, base, c, upcast⟩
      else r.entryForType? base' type := by
  rw [register_of_free hc, entryForType?, entryForType?, table_setTable]
  by_cases h : base' = base
  · subst h
    simp only [if_pos, true_and]
    exact lookup_append_singleton (BaseTable.conflicts_eq_false_iff.1 hc).1 type
  · simp [h]

theorem entryForTag?_register (hc : (r.table base).conflicts c = false) (base' : String)
    (tag : UInt32) :
    (r.register base c upcast).1.entryForTag? base' tag =
      if base' = base ∧ tag = discriminator c.typeName then
        some ⟨discriminator c.typeName, base, c, upcast⟩
      else r.entryForTag? base' tag := by
  rw [register_of_free hc, entryForTag?, entryForTag?, table_setTable]
  by_cases h : base' = base
  · subst h
    simp only [if_pos, true_and]
    exact lookup_append_singleton (BaseTable.conflicts_eq_false_iff.1 hc).2 tag
  · simp [h]

end Registry

end CodecForge.Dispatch
