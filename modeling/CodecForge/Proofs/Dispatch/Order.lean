import CodecForge.Proofs.Dispatch.RoundTrip

/-!
# The order of registrations

Registrations of which no two compete for a key are all accepted, in whatever order they come, and
only such are.  What is found after them is what was registered under the key, so that all orders
make registries that answer alike.
-/

namespace CodecForge.Dispatch

open CodecForge.Wire

/-- The registrations do not compete: under one base they are for different types and for different
discriminators. -/
def Registration.Apart (g g' : Registration) : Prop :=
  g.base = g'.base → g.codec.encoded ≠ g'.codec.encoded ∧
    discriminator g.codec.typeName ≠ discriminator g'.codec.typeName

instance (g g' : Registration) : Decidable (g.Apart g') :=
  inferInstanceAs (Decidable (g.base = g'.base → g.codec.encoded ≠ g'.codec.encoded ∧
    discriminator g.codec.typeName ≠ discriminator g'.codec.typeName))

theorem Registration.Apart.symm {g g' : Registration} (h : g.Apart g') : g'.Apart g :=
  fun hbase => (h hbase.symm).imp Ne.symm Ne.symm

theorem Registration.not_apart_iff {g g' : Registration} :
    ¬ g.Apart g' ↔ g.base = g'.base ∧ (g.codec.encoded = g'.codec.encoded ∨
      discriminator g.codec.typeName = discriminator g'.codec.typeName) := by
  rw [Registration.Apart, Classical.not_imp, Classical.not_and_iff_not_or_not, not_not, not_not]

namespace Registry

variable {calls calls' : List Registration} {g : Registration}

/-- A key is taken by a registration that was accepted and competes for it. -/
theorem taken_run_iff : (run calls).Taken g ↔ ∃ g', Accepts calls g' ∧ ¬ g'.Apart g := by
  simp only [Taken, Option.isSome_iff_exists, entryForType?_run_iff, entryForTag?_run_iff,
    Registration.not_apart_iff]
  constructor
  · rintro (⟨_, g', hg', ⟨hbase, htype⟩, -⟩ | ⟨_, g', hg', ⟨hbase, htag⟩, -⟩)
    · exact ⟨g', hg', hbase.symm, .inl htype.symm⟩
    · exact ⟨g', hg', hbase.symm, .inr htag.symm⟩
  · rintro ⟨g', hg', hbase, htype | htag⟩
    · exact .inl ⟨_, g', hg', ⟨hbase.symm, htype.symm⟩, rfl⟩
    · exact .inr ⟨_, g', hg', ⟨hbase.symm, htag.symm⟩, rfl⟩

/-! ### Runs without a refusal -/

/-- No registration is refused in its place. -/
def AllAccepted (calls : List Registration) : Prop :=
  ∀ before g after, calls = before ++ g :: after → ((run before).perform g).2 = none

theorem allAccepted_append_singleton_iff :
    AllAccepted (calls ++ [g]) ↔ AllAccepted calls ∧ ¬ (run calls).Taken g := by
  constructor
  · intro h
    refine ⟨?_, (accepted_iff_not_taken calls g).1 (h calls g [] rfl)⟩
    rintro before g' after rfl
    exact h before g' (after ++ [g]) (by simp)
  · rintro ⟨hcalls, hfree⟩ before g' after heq
    obtain ⟨rfl, rfl, -⟩ | ⟨after', rfl, -⟩ := append_singleton_eq_append_cons_iff.1 heq
    · exact (accepted_iff_not_taken calls g).2 hfree
    · exact hcalls before g' after' rfl

theorem AllAccepted.accepts_iff (h : AllAccepted calls) : Accepts calls g ↔ g ∈ calls := by
  constructor
  · rintro ⟨before, after, rfl, -⟩
    simp
  · intro hg
    obtain ⟨before, after, rfl⟩ := List.append_of_mem hg
    exact ⟨before, after, rfl, h before g after rfl⟩

/-- All registrations are accepted exactly if no two of them compete. -/
theorem allAccepted_iff : AllAccepted calls ↔ calls.Pairwise Registration.Apart := by
  induction calls using List.reverseRecOn with
  | nil => simp [AllAccepted]
  | append_singleton calls g ih =>
    rw [allAccepted_append_singleton_iff, List.pairwise_append, ← ih, taken_run_iff]
    refine and_congr_right fun hcalls => ?_
    simp [hcalls.accepts_iff]

/-! ### Registries that answer alike -/

/-- What is found under a key depends on the registrations accepted, not on their order. -/
theorem finds_eq_of_accepts_iff (h : ∀ g, Accepts calls g ↔ Accepts calls' g) (base : String) :
    (run calls).entryForType? base = (run calls').entryForType? base ∧
      (run calls).entryForTag? base = (run calls').entryForTag? base := by
  refine ⟨funext fun type => Option.ext fun e => ?_, funext fun tag => Option.ext fun e => ?_⟩
  · simp only [entryForType?_run_iff, h]
  · simp only [entryForTag?_run_iff, h]

/-- Registrations that do not compete are accepted in every order, and the registries that they
make look up, write and read alike. -/
theorem registrations_commute (hapart : calls.Pairwise Registration.Apart)
    (hperm : calls.Perm calls') :
    AllAccepted calls' ∧ ∀ base,
      (∀ type, (run calls').lookup? base type = (run calls).lookup? base type) ∧
      (∀ v dependency, (run calls').encode base v dependency =
        (run calls).encode base v dependency) ∧
      ∀ dependency, (run calls').decode base dependency = (run calls).decode base dependency := by
  have hcalls : AllAccepted calls := allAccepted_iff.2 hapart
  have hcalls' : AllAccepted calls' := allAccepted_iff.2 (hapart.perm hperm fun h => h.symm)
  have haccepts : ∀ g, Accepts calls' g ↔ Accepts calls g := by
    intro g
    rw [hcalls.accepts_iff, hcalls'.accepts_iff, hperm.mem_iff]
  refine ⟨hcalls', fun base => ?_⟩
  obtain ⟨htype, htag⟩ := finds_eq_of_accepts_iff haccepts base
  refine ⟨fun type => ?_, fun v dependency => ?_, fun dependency => ?_⟩
  · rw [lookup?, lookup?, htype]
  · rw [encode, encode, htype]
  · simp only [decode, htag]

/-- Shapes among which there is a tile of the name of one, first and last. -/
theorem registrations_commute_tiles :
    (run [oneByte "Shape" "Square", oneByte "Shape" "Circle", oneByte "Tile" "Square"]).encode
        "Shape" ⟨"Square", .integer 5⟩ none [] = .ok () [102, 140, 201, 250, 5] := by
  have hcommute := @registrations_commute
    [oneByte "Tile" "Square", oneByte "Shape" "Circle", oneByte "Shape" "Square"]
    [oneByte "Shape" "Square", oneByte "Shape" "Circle", oneByte "Tile" "Square"]
    (by decide +kernel) (List.reverse_perm _).symm
  rw [(hcommute.2 "Shape").2.1]
  rfl

end Registry

end CodecForge.Dispatch
