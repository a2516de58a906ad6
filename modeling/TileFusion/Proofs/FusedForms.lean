import TileFusion.Proofs.Acceptance
import TileFusion.Proofs.ErrorReports
import TileFusion.Proofs.FusedStages
import TileFusion.Proofs.ThreadAgreement

/-!
# The forms of a fused stage

A stage is described by a loader, an arithmetic unit and a choice of what it takes out of the
accumulator, and the checks look at these in pairs. Lowering counts on what is left when all of them
have passed: a packer that was told to tilize is never configured again, and the mask of a reduction
is only set on a fresh packer. What is left is little.

> `fused_forms`: behind the first stage there are three forms only, all with the direct loader, so
> everything else belongs to the first stage; and a pipeline that tilizes in all threads has no
> second one.
-/

namespace TileFusion

/-! ## Descriptions -/

/-- What the checks leave of a stage that takes an operand out of the accumulator. -/
theorem Combination.cases_of_reused {platform : Platform} {s : StageSpec}
    (h : Combination platform s) {name : String} (hname : s.loader.reused = some name) :
    s.loader.kind = .direct ∧
      ((∃ op other, s.arithmetic = .eltwise op ∧ s.loader.reuse = .sourceA ∧
          s.loader.sourceA = name ∧ s.loader.sourceB = some other) ∨
        (∃ op, s.arithmetic = .eltwise op ∧ s.loader.reuse = .sourceB ∧
          s.loader.sourceB = some name) ∨
        (s.arithmetic = .datacopy ∧ s.loader.reuse = .sourceA ∧ s.loader.sourceA = name ∧
          s.loader.sourceB = none)) := by
  have hcount := h.count
  unfold Loader.reused at hname
  cases hr : s.loader.reuse with
  | none => simp [hr] at hname
  | sourceA =>
    obtain ⟨hkind, harith⟩ := h.reuse (by simp [hr])
    rw [hr] at hname
    have ha := Option.some.inj hname
    refine ⟨hkind, ?_⟩
    rcases harith with harith | ⟨op, harith⟩
    · -- a copy of the accumulator reads nothing else
      have hb : s.loader.sourceB = none := by
        simpa [Loader.fresh, freshWanted, hr, harith] using hcount
      exact .inr (.inr ⟨harith, rfl, ha, hb⟩)
    · cases hb : s.loader.sourceB with
      | none => simp [Loader.fresh, freshWanted, hr, harith, hb] at hcount
      | some other => exact .inl ⟨op, other, harith, rfl, ha, rfl⟩
  | sourceB =>
    obtain ⟨hkind, harith⟩ := h.reuse (by simp [hr])
    rw [hr] at hname
    refine ⟨hkind, ?_⟩
    rcases harith with harith | ⟨op, harith⟩
    · simp [Loader.fresh, freshWanted, hr, harith] at hcount
    · exact .inr (.inl ⟨op, harith, rfl, hname⟩)

/-! ## Names and ids -/

section Built

variable {r : Registry} {specs : List StageSpec} {settings : Settings} {p : Pipeline}

/-- A stage that names the output of another one reads that operand. -/
theorem sources_of_build (hr : r.Declared) (hp : (Pipeline.build r specs settings).value = .ok p)
    {s t : Stage} (hs : s ∈ p.stages) (ht : t ∈ p.stages) :
    (t.spec.loader.sourceA = s.spec.output → t.sourceA = s.output) ∧
      (t.spec.loader.sourceB = some s.spec.output → t.sourceB = some s.output) := by
  obtain ⟨-, stages, final, placed, hall, -, rfl⟩ := build_eq_ok_iff.mp hp
  have hwf := hall.wellFormed hr.wellFormed
  obtain ⟨-, -, -, -, -, -, -, -, -, -, o, ho, -, hname⟩ := hall.exists_resolves hr.wellFormed s hs
  obtain ⟨r', site, a, b, c, formats, hres, rfl, ha, hb, -⟩ :=
    hall.exists_resolves hr.wellFormed t ht
  -- in the registry that the last stage leaves, a name stands for one operand
  have heq : ∀ {x : Operand}, final.operand? x.id = some x → x.name = s.spec.output →
      x.id = s.output := by
    intro x hx hxname
    rw [hwf.eq_of_name (List.mem_of_getElem? hx) (List.mem_of_getElem? ho)
      (hxname.trans hname.symm)]
    exact hwf.ids _ o ho
  refine ⟨?_, ?_⟩
  · intro hsource
    exact heq ha ((Registry.name_of_find? hres.sourceA.1).trans hsource)
  · intro hsource
    have hsecond := hres.sourceB
    rw [show site.spec.loader.sourceB = some s.spec.output from hsource] at hsecond
    obtain ⟨x, rfl, hx⟩ := hsecond
    show some x.id = some s.output
    rw [heq (hb x rfl) (Registry.name_of_find? hx.1)]

/-- A second operand is read exactly when one is named, and only a matrix product has an inner
dimension. -/
theorem shape_of_build (hr : r.Declared) (hp : (Pipeline.build r specs settings).value = .ok p)
    {s : Stage} (hs : s ∈ p.stages) :
    s.sourceB.isSome = s.spec.loader.sourceB.isSome ∧
      (s.spec.arithmetic ≠ .matmul → s.innerTiles = 1) := by
  obtain ⟨-, stages, final, placed, hall, -, rfl⟩ := build_eq_ok_iff.mp hp
  obtain ⟨r', site, a, b, c, formats, hres, rfl, -⟩ := hall.exists_resolves hr.wellFormed s hs
  refine ⟨?_, ?_⟩
  · have hlen := hres.sourceB.length_eq
    show (b.map (·.id)).isSome = site.spec.loader.sourceB.isSome
    cases hb : b <;> cases hn : site.spec.loader.sourceB <;> simp [hb, hn] at hlen ⊢
  · intro hne
    have hspec : site.spec.arithmetic ≠ .matmul := hne
    show (stageShape site.spec a b).innerTiles = 1
    rw [stageShape_of_ne_matmul hspec]

/-! ## Stages behind the first -/

/-- The stage `v` works on what the stage `w` has left in the accumulator, and on at most one
operand from memory. -/
inductive StageView.Fused (w v : StageView) : Prop where
  /-- The first operand is taken over, the second one is loaded. -/
  | first (op : EltwiseOp) (name : String) (other : Nat)
      (arithmetic : v.stage.spec.arithmetic = .eltwise op) (reuse : v.loader.reuse = .sourceA)
      (named : v.loader.sourceB = some name) (taken : v.stage.sourceA = w.stage.output)
      (second : v.stage.sourceB = some other) (loaded : v.stage.fresh = [other])
  /-- The second operand is taken over, the first one is loaded. -/
  | second (op : EltwiseOp) (name : String)
      (arithmetic : v.stage.spec.arithmetic = .eltwise op) (reuse : v.loader.reuse = .sourceB)
      (named : v.loader.sourceB = some name) (taken : v.stage.sourceB = some w.stage.output)
      (loaded : v.stage.fresh = [v.stage.sourceA])
  /-- What is taken over is copied. -/
  | copy (arithmetic : v.stage.spec.arithmetic = .datacopy) (reuse : v.loader.reuse = .sourceA)
      (unnamed : v.loader.sourceB = none) (taken : v.stage.sourceA = w.stage.output)
      (second : v.stage.sourceB = none) (loaded : v.stage.fresh = [])

theorem StageView.Fused.ne_matmul {w v : StageView} (h : w.Fused v) :
    v.stage.spec.arithmetic ≠ .matmul := by
  cases h with
  | first op name other harith => simp [harith]
  | second op name harith => simp [harith]
  | copy harith => simp [harith]

theorem fused_of_follows (hr : r.Declared) (hp : (Pipeline.build r specs settings).value = .ok p)
    {w v : StageView} (hw : w ∈ p.views) (hv : v ∈ p.views) (hfollows : w.Follows v) :
    v.loader.kind = .direct ∧ w.Fused v := by
  obtain ⟨s, hs, rfl⟩ := List.mem_map.mp hw
  obtain ⟨t, ht, rfl⟩ := List.mem_map.mp hv
  obtain ⟨hsourceA, hsourceB⟩ := sources_of_build hr hp hs ht
  obtain ⟨hsome, -⟩ := shape_of_build hr hp ht
  have hreused : t.spec.loader.reused = some s.spec.output := hfollows.reused
  have hcomb : Combination p.settings.platform t.spec := combination_of_build hp _ hv
  obtain ⟨hkind, hforms⟩ := hcomb.cases_of_reused hreused
  refine ⟨hkind, ?_⟩
  rcases hforms with ⟨op, name, harith, hreuse, ha, hb⟩ | ⟨op, harith, hreuse, hb⟩ |
    ⟨harith, hreuse, ha, hb⟩
  · rw [hb, Option.isSome_some, Option.isSome_iff_exists] at hsome
    obtain ⟨other, hother⟩ := hsome
    refine .first op name other harith hreuse hb (hsourceA ha) hother ?_
    show t.fresh = [other]
    simp [Stage.fresh, hreuse, hother]
  · refine .second op s.spec.output harith hreuse hb (hsourceB hb) ?_
    show t.fresh = [t.sourceA]
    simp [Stage.fresh, hreuse]
  · rw [hb, Option.isSome_none, Option.isSome_eq_false_iff, Option.isNone_iff_eq_none] at hsome
    refine .copy harith hreuse hb (hsourceA ha) hsome ?_
    show t.fresh = []
    simp [Stage.fresh, hreuse, hsome]

/-- Every stage behind the first has one of the three forms. -/
theorem exists_fused_of_pos (hr : r.Declared)
    (hp : (Pipeline.build r specs settings).value = .ok p) {v : StageView} (hv : v ∈ p.views)
    (hpos : 0 < v.index) :
    v.loader.kind = .direct ∧ v.stage.innerTiles = 1 ∧
      ∃ w ∈ p.views, w.index + 1 = v.index ∧ w.Fused v := by
  obtain ⟨front, w, back, hsplit, hfollows⟩ :=
    (ordered_of_build hp).exists_previous (isChain_views hr hp) hv hpos
  have hw : w ∈ p.views := by simp [hsplit]
  obtain ⟨hkind, hfused⟩ := fused_of_follows hr hp hw hv hfollows
  refine ⟨hkind, ?_, w, hw, hfollows.index.symm, hfused⟩
  obtain ⟨s, hs, rfl⟩ := List.mem_map.mp hv
  exact (shape_of_build hr hp hs).2 hfused.ne_matmul

theorem index_eq_zero_of_kind (hr : r.Declared)
    (hp : (Pipeline.build r specs settings).value = .ok p) {v : StageView} (hv : v ∈ p.views)
    (hkind : v.loader.kind ≠ .direct) : v.index = 0 := by
  by_contra hne
  obtain ⟨hdirect, -⟩ := exists_fused_of_pos hr hp hv (Nat.pos_of_ne_zero hne)
  exact hkind hdirect

end Built

/-! ## Flags of the calls -/

/-- Whether a call is told that it tilizes. -/
def Call.tilize? : Call → Option Bool
  | .datacopyInit _ _ _ _ tilize | .packConfigure _ _ tilize _ | .packInit _ _ _ tilize =>
    some tilize
  | _ => none

/-- Whether a call configures a packer that was configured before. -/
def Call.repacks : Call → Bool
  | .packReconfigure .. => true
  | _ => false

namespace StageView

variable {v : StageView}

theorem tilize_eq_true_iff : v.tilize = true ↔
    v.settings.platform = .blackhole ∧ v.loader.kind = .tilize ∧
      v.stage.formats.loadSource ≠ .bfp8b := by
  simp [tilize, and_assoc]

/-- All calls of a stage are told the same. -/
theorem tilize_of_call (v : StageView) (t : Thread) :
    ∀ call ∈ callsOf (v.contribution t).body, ∀ flag, call.tilize? = some flag →
      flag = v.tilize := by
  have hnone : ∀ {call : Call}, call.tilize? = none → ∀ flag, call.tilize? = some flag →
      flag = v.tilize := by
    intro call hcall flag hflag
    simp [hcall] at hflag
  cases t with
  | unpack =>
    refine forall_unpack (hnone rfl) (hnone rfl) (hnone rfl) ?_ ?_
    all_goals
      obtain ⟨-, hinit, hstmt⟩ | ⟨-, pool, dim, -, hinit, hstmt⟩ | ⟨-, hinit, hstmt⟩ |
        ⟨-, -, hinit, hstmt⟩ | ⟨-, -, hinit, hstmt⟩ := v.unpacking_cases <;>
        simp [hinit, hstmt, Call.tilize?]
  | math =>
    refine forall_math (hnone rfl) (hnone rfl) (hnone rfl) (hnone rfl) ?_ ?_ (hnone rfl)
    · unfold arithmeticSection
      cases ha : v.stage.spec.arithmetic <;> simp [ha, Call.tilize?]
    · intro unit _
      unfold nonlinearSection
      cases unit <;> simp [Call.tilize?]
  | pack =>
    refine forall_pack (fun _ => ?_) (fun _ => hnone rfl) ?_ (fun _ _ => hnone rfl) (hnone rfl)
      (hnone rfl) (hnone rfl) (hnone rfl) (hnone rfl) <;> simp [Call.tilize?]

/-- The first stage configures the packer for the first time. -/
theorem not_repacks_of_index (hindex : v.index = 0) :
    ∀ call ∈ callsOf (v.contribution .pack).body, call.repacks = false :=
  forall_pack (fun _ => rfl) (fun hne => absurd hindex hne) rfl (fun _ _ => rfl) rfl rfl rfl rfl rfl

end StageView

/-! ## In a pipeline -/

/-- What lowering counts on. -/
structure Pipeline.Normal (p : Pipeline) : Prop where
  /-- Behind the first stage there are three forms. -/
  later : ∀ v ∈ p.views, 0 < v.index → v.loader.kind = .direct ∧ v.stage.innerTiles = 1 ∧
    ∃ w ∈ p.views, w.index + 1 = v.index ∧ w.Fused v
  /-- All other loaders, an inner dimension and a mask of the packer belong to the first one. -/
  loaders : ∀ v ∈ p.views, v.loader.kind ≠ .direct → v.index = 0
  inner : ∀ v ∈ p.views, 1 < v.stage.innerTiles → v.index = 0
  masks : ∀ v ∈ p.views, ∀ t dim, .packMaskConfigure dim ∈ callsOf (v.contribution t).body →
    v.index = 0
  /-- Where a call is told that it tilizes there is one stage, which configures the packer once. -/
  tilized : ∀ t, ∀ call ∈ callsOf (p.lower.thread t).body, call.tilize? = some true →
    p.settings.platform = .blackhole ∧ p.stages.length = 1 ∧
      ∀ other ∈ callsOf (p.lower.thread .pack).body, other.repacks = false
  /-- One platform neither reduces nor tilizes. -/
  quasar : p.settings.platform = .quasar → ∀ v ∈ p.views,
    v.stage.spec.arithmetic.isReduce = false ∧ v.loader.kind ≠ .reduce ∧ v.loader.kind ≠ .tilize

theorem Pipeline.exists_view_of_call {p : Pipeline} {t : Thread} {call : Call}
    (h : call ∈ callsOf (p.lower.thread t).body) :
    ∃ v ∈ p.views, call ∈ callsOf (v.contribution t).body := by
  rw [p.body_thread, callsOf_flatMap] at h
  exact List.mem_flatMap.mp h

theorem Pipeline.Ordered.index_lt {p : Pipeline} (h : p.Ordered) {v : StageView}
    (hv : v ∈ p.views) : v.index < p.views.length := by
  have hmem := List.mem_map_of_mem (f := StageView.index) hv
  rw [h.index, List.mem_range'_1] at hmem
  omega

section Built

variable {r : Registry} {specs : List StageSpec} {settings : Settings} {p : Pipeline}

/-- One stage that tilizes makes all of them tilize, and those behind the first do not. -/
theorem length_eq_one_of_tilize (hr : r.Declared)
    (hp : (Pipeline.build r specs settings).value = .ok p) {v : StageView} (hv : v ∈ p.views)
    (htilize : v.tilize = true) : settings.platform = .blackhole ∧ p.views.length = 1 := by
  obtain ⟨hplatform, hkind, -⟩ := StageView.tilize_eq_true_iff.mp htilize
  rw [settings_of_build hp v hv] at hplatform
  refine ⟨hplatform, ?_⟩
  have hspec : ∀ w ∈ p.views, w.stage.spec ∈ specs := by
    intro w hw
    obtain ⟨s, hs, rfl⟩ := List.mem_map.mp hw
    rw [← (spec_stages_of_build hp).1]
    exact List.mem_map_of_mem hs
  obtain ⟨hoverall, -⟩ := build_eq_ok_iff.mp hp
  have hall : ∀ s ∈ specs, s.loader.kind = .tilize := by
    rcases ((overallErrors_eq_nil_iff _ _).mp hoverall).2.2 hplatform with hall | hnone
    · exact hall
    · exact absurd hkind (hnone _ (hspec v hv))
  have hpos : 0 < p.views.length := List.length_pos_of_mem hv
  by_contra hne
  -- then there is a second stage, and its loader is the direct one
  have hsecond : 1 ∈ p.views.map (·.index) := by
    rw [(ordered_of_build hp).index, List.mem_range'_1]
    omega
  obtain ⟨w, hw, hindex⟩ := List.mem_map.mp hsecond
  obtain ⟨hdirect, -⟩ := exists_fused_of_pos hr hp hw (by omega)
  have htilizes : w.loader.kind = .tilize := hall _ (hspec w hw)
  rw [hdirect] at htilizes
  simp at htilizes

/-- **The three forms of a fused stage, and what only the first stage can be.** -/
theorem fused_forms (hr : r.Declared) (hp : (Pipeline.build r specs settings).value = .ok p) :
    (∀ t, (p.lower.thread t).body = p.views.flatMap fun v => (v.contribution t).body) ∧
      p.settings = settings ∧ p.Normal := by
  have hsettings : p.settings = settings := by
    obtain ⟨-, stages, final, placed, -, -, rfl⟩ := build_eq_ok_iff.mp hp
    rfl
  refine ⟨p.body_thread, hsettings, ?_⟩
  have hcomb := combination_of_build hp
  refine
    { later := fun v hv => exists_fused_of_pos hr hp hv
      loaders := fun v hv => index_eq_zero_of_kind hr hp hv
      inner := ?_
      masks := ?_
      tilized := ?_
      quasar := ?_ }
  · intro v hv hinner
    by_contra hne
    obtain ⟨-, hone, -⟩ := exists_fused_of_pos hr hp hv (Nat.pos_of_ne_zero hne)
    omega
  · intro v hv t dim hcall
    have hdim := (StageView.suits_contribution (hcomb v hv) t _ hcall).dim dim rfl
    apply index_eq_zero_of_kind hr hp hv
    cases ha : v.stage.spec.arithmetic with
    | reduce dim' pool => simp [StageView.kind_of_reduce (hcomb v hv) ha]
    | _ => simp [ha, Arithmetic.dim?] at hdim
  · intro t call hcall hflag
    obtain ⟨v, hv, hcall⟩ := p.exists_view_of_call hcall
    have htilize := (v.tilize_of_call t call hcall true hflag).symm
    obtain ⟨hplatform, hlength⟩ := length_eq_one_of_tilize hr hp hv htilize
    refine ⟨hsettings ▸ hplatform, by simpa [Pipeline.views] using hlength, ?_⟩
    intro other hother
    obtain ⟨w, hw, hother⟩ := p.exists_view_of_call hother
    have hlt := (ordered_of_build hp).index_lt hw
    exact StageView.not_repacks_of_index (by omega) other hother
  · intro hplatform v hv
    refine (hcomb v hv).quasar ?_
    rw [settings_of_build hp v hv, ← hsettings]
    exact hplatform

end Built

/-- Rows that are tilized on the way in, on the platform that tilizes in all threads. -/
def tilizedSpecs : List StageSpec :=
  [{ loader := ⟨.tilize, "a", none, .none, false, false⟩
     arithmetic := .datacopy
     nonlinear := []
     output := "y"
     outputFormat := .float16b
     fidelity := .lofi
     unpackToDest := false }]

/-- A reduction and a product behind it have the forms that they must have, and so has a single
stage that tilizes. -/
theorem fused_forms_reduced :
    (∃ p, (Pipeline.build (columnRegistry ⟨⟨64, 64⟩, .float16b, 4, 8192⟩) reducedSpecs
        fusedSettings).value = .ok p ∧ p.stages.length = 2 ∧ p.Normal) ∧
      ∃ p, (Pipeline.build ⟨[columnInput]⟩ tilizedSpecs
          { columnSettings with platform := .blackhole }).value = .ok p ∧
        (∃ call ∈ callsOf (p.lower.thread .math).body, call.tilize? = some true) ∧ p.Normal := by
  refine ⟨?_, ?_⟩
  · obtain ⟨p, hp, hlength⟩ := exists_build_of_any (columnRegistry ⟨⟨64, 64⟩, .float16b, 4, 8192⟩)
      reducedSpecs fusedSettings (fun p => p.stages.length == 2) (by decide +kernel)
    have hr : (columnRegistry ⟨⟨64, 64⟩, .float16b, 4, 8192⟩).Declared :=
      .input "b" ⟨64, 64⟩ .float16b none declared_columnInput rfl
    exact ⟨p, hp, by simpa using hlength, (fused_forms hr hp).2.2⟩
  · obtain ⟨p, hp, hcall⟩ := exists_build_of_any ⟨[columnInput]⟩ tilizedSpecs
      { columnSettings with platform := .blackhole }
      (fun p => (callsOf (p.lower.thread .math).body).any (·.tilize? == some true))
      (by decide +kernel)
    obtain ⟨call, hmem, hflag⟩ := List.any_eq_true.mp hcall
    exact ⟨p, hp, ⟨call, hmem, by simpa using hflag⟩, (fused_forms declared_columnInput hp).2.2⟩

end TileFusion
