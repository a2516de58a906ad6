import TileFusion.Proofs.UniformBatches

/-!
# Smaller batches and larger handoffs

Batch size and handoff enter a build in two places: a batch must not be empty, and it must fit in the
accumulator. Everything else that a stage is checked for looks at the platform and at 32-bit
accumulation only, so a build that succeeds is repeated step by step under settings that ask for
less room:

> `Settings.RelaxesTo`: the same target, a batch that is no larger, and a handoff of a half that may
> become one of the whole accumulator;
> `build_relaxed`: what could be built can still be built, with the same registry, and its stages
> differ in batch size and capacity alone.

The two runs leave the same registry behind every stage, which is why they are compared on one
`ResolvesAll` and not as two.
-/

namespace TileFusion

/-- `weak` asks for no more room in the accumulator than `strict`, and for nothing else that is
different. -/
structure Settings.RelaxesTo (strict weak : Settings) : Prop where
  platform : weak.platform = strict.platform
  accumulate : weak.accumulate = strict.accumulate
  one_le : 1 ≤ weak.batchSize
  batch_le : weak.batchSize ≤ strict.batchSize
  sync : weak.destSync = strict.destSync ∨ strict.destSync = .half ∧ weak.destSync = .full

/-- `t` is the stage `s` with another batch size and another capacity. The batch has not grown, the
capacity has not shrunk. -/
structure Stage.Rebatched (s t : Stage) : Prop where
  same : t = { s with batchSize := t.batchSize, capacity := t.capacity }
  batch_le : t.batchSize ≤ s.batchSize
  le_capacity : s.capacity ≤ t.capacity

section Relaxes

variable {strict weak : Settings} (h : strict.RelaxesTo weak)
include h

theorem Settings.RelaxesTo.capacity_le (wide : Bool) :
    accumulatorCapacity strict.platform wide strict.destSync ≤
      accumulatorCapacity weak.platform wide weak.destSync := by
  rw [h.platform]
  rcases h.sync with hsame | ⟨hhalf, hfull⟩
  · rw [hsame]
  · rw [hhalf, hfull]
    cases strict.platform <;> cases wide <;> decide

/-- Formats are asked for in the same way, and with them the width of the accumulator. -/
theorem Settings.RelaxesTo.formatRequest_eq (spec : StageSpec) (a : Operand) (b : Option Operand) :
    formatRequest weak spec a b = formatRequest strict spec a b := by
  simp only [formatRequest, h.platform, h.accumulate]

theorem Settings.RelaxesTo.overallErrors_eq_nil {specs : List StageSpec}
    (hstrict : overallErrors strict specs = []) : overallErrors weak specs = [] := by
  rw [overallErrors_eq_nil_iff] at hstrict ⊢
  obtain ⟨hspecs, -, htilize⟩ := hstrict
  exact ⟨hspecs, h.one_le, by rw [h.platform]; exact htilize⟩

/-! ## One stage -/

section Stage

variable {r : Registry} {site : Site} {a : Operand} {b : Option Operand} {c : Contents}
  {formats : FormatPlan}

/-- A stage that resolves still does; only the last check looks at the settings that have changed,
and it passes a fortiori. -/
theorem Resolves.relax (hres : Resolves strict r site a b c formats) :
    Resolves weak r site a b c formats where
  described := by
    rw [h.platform]
    exact hres.described
  sourceA := hres.sourceA
  sourceB := hres.sourceB
  shapes := hres.shapes
  vacant := hres.vacant
  plan := by
    rw [h.formatRequest_eq]
    exact hres.plan
  capacity := by
    rw [h.formatRequest_eq]
    calc weak.batchSize
      _ ≤ strict.batchSize := h.batch_le
      _ ≤ _ := hres.capacity
      _ ≤ _ := h.capacity_le _
  contents := hres.contents
  fits := hres.fits

theorem Settings.RelaxesTo.rebatched_stageOf :
    (stageOf strict r site a b c formats).Rebatched (stageOf weak r site a b c formats) where
  same := by simp only [stageOf, h.formatRequest_eq]
  batch_le := by
    have hle := h.batch_le
    show min weak.batchSize c.tiles ≤ min strict.batchSize c.tiles
    omega
  le_capacity := by
    simp only [stageOf, h.formatRequest_eq]
    exact h.capacity_le _

end Stage

/-! ## All stages -/

theorem ResolvesAll.relax {r final : Registry} {sites : List Site} {stages : List Stage}
    (hall : ResolvesAll strict r sites stages final) :
    ∃ stages', ResolvesAll weak r sites stages' final ∧
      List.Forall₂ Stage.Rebatched stages stages' := by
  induction hall with
  | nil r => exact ⟨[], .nil r, .nil⟩
  | cons hres _ ih =>
    obtain ⟨stages', hrest, hstages⟩ := ih
    exact ⟨_, .cons (hres.relax h) hrest, .cons h.rebatched_stageOf hstages⟩

/-- **Asking for smaller batches or for larger handoffs breaks no pipeline.** The registry is the
same, addresses included, and every stage is the same but for its batch size and its capacity. -/
theorem build_relaxed {r : Registry} {specs : List StageSpec} {p : Pipeline}
    (hp : (Pipeline.build r specs strict).value = .ok p) :
    ∃ q, (Pipeline.build r specs weak).value = .ok q ∧ q.settings = weak ∧
      q.registry = p.registry ∧ List.Forall₂ Stage.Rebatched p.stages q.stages := by
  obtain ⟨hoverall, stages, final, placed, hall, hplace, rfl⟩ := build_eq_ok_iff.mp hp
  obtain ⟨stages', hall', hstages⟩ := hall.relax h
  refine ⟨⟨weak, stages', placed⟩, ?_, rfl, rfl, hstages⟩
  rw [build_eq_ok_iff]
  exact ⟨h.overallErrors_eq_nil hoverall, stages', final, placed, hall', hplace, rfl⟩

end Relaxes

/-- Settings that ask for less than `fusedSettings` in both ways. -/
def roomySettings : Settings :=
  { fusedSettings with batchSize := 2, destSync := .full }

/-- The fused stages fit in halves of the accumulator, three tiles at a time, so they also fit in
the whole of it, two tiles at a time. -/
theorem build_relaxed_crowded :
    fusedSettings.RelaxesTo roomySettings ∧ roomySettings ≠ fusedSettings ∧
      ∃ p q, (Pipeline.build crowdedRegistry fusedSpecs fusedSettings).value = .ok p ∧
        (Pipeline.build crowdedRegistry fusedSpecs roomySettings).value = .ok q ∧
        q.registry = p.registry ∧ List.Forall₂ Stage.Rebatched p.stages q.stages := by
  have hrelaxes : fusedSettings.RelaxesTo roomySettings :=
    ⟨rfl, rfl, by decide, by decide, .inr ⟨rfl, rfl⟩⟩
  obtain ⟨p, hp⟩ := exists_build_crowded
  obtain ⟨q, hq, -, hregistry, hstages⟩ := build_relaxed hrelaxes hp
  exact ⟨hrelaxes, by decide, p, q, hp, hq, hregistry, hstages⟩

end TileFusion
