import TileFusion.Proofs.MemoryLayout
import TileFusion.Proofs.Validity

/-!
# The build accepts exactly the valid pipelines

`Derivation` has reduced a successful build to stages that resolve in a row, each on the registry
that the one in front has settled. This file compares that registry with the outlines of `Validity`:

> `Agrees r before registry`: after the stages `before`, the registry holds the contents that
> `outlines` computes, under the entries that were declared so far, and what is pending in it is as
> the caller has left it.

On a registry that agrees, a stage resolves exactly when its own conditions hold
(`Agrees.resolves_iff`), and the registry that it settles agrees again (`Agrees.settle`). One
induction along the stages then gives

> `build_succeeds_iff_valid`: a build succeeds if and only if the list of stages is `Valid`.
-/

namespace TileFusion

/-! ## Contents and addresses of outputs -/

/-- The contents of an outline whose size is a word. -/
def Outline.contents (g : Outline) : Contents :=
  ⟨g.dims, g.format, g.dims.tileRows * g.dims.tileCols, g.bytes⟩

theorem contents_of?_eq_some_iff_bytes {d : Dims} {f : DataFormat} {c : Contents} :
    Contents.of? d f = some c ↔
      (⟨d, f⟩ : Outline).bytes < wordLimit ∧ c = (⟨d, f⟩ : Outline).contents := by
  rw [Contents.of?_eq_some_iff]
  constructor
  · rintro ⟨-, hbytes, hc⟩
    exact ⟨hbytes, hc⟩
  · rintro ⟨hbytes, hc⟩
    exact ⟨tiles_lt_of_bytes_lt hbytes, hbytes, hc⟩

/-- Contents fit where an output is asked to lie when every declaration of it says so. -/
theorem fitsPin_outputLocation_iff {r : Registry} (hr : r.WellFormed) {site : Site}
    {c : Contents} :
    Operand.fitsPin (r.outputLocation site) c = true ↔
      ∀ o ∈ r.operands, o.name = site.spec.output → ∀ a, o.location = .pinned a →
        a + c.size < wordLimit := by
  unfold Registry.outputLocation
  cases hf : r.find? site.spec.output with
  | none =>
    have hnone := Registry.find?_eq_none_iff.mp hf
    simp only [Option.map_none, Option.getD_none, Operand.fitsPin, true_iff]
    exact fun o ho hname => absurd hname (hnone o ho)
  | some x =>
    have hx := Registry.mem_of_find? hf
    have hword : ∀ n, (word? n).isSome = true ↔ n < wordLimit := by
      intro n
      unfold word?
      by_cases hn : n < wordLimit <;> simp [hn]
    constructor
    · intro hfit o ho hname a ha
      obtain rfl := hr.eq_of_name ho hx (hname.trans (Registry.name_of_find? hf).symm)
      rw [Option.map_some, Option.getD_some, ha] at hfit
      exact (hword _).mp hfit
    · intro hends
      rw [Option.map_some, Option.getD_some]
      cases hloc : x.location with
      | pinned a => exact (hword _).mpr (hends x hx (Registry.name_of_find? hf) a hloc)
      | floating => rfl
      | assigned a => rfl

/-! ## Registries that agree with the outlines -/

/-- The registry holds what the stages `before` have made known. -/
structure Agrees (r : Registry) (before : List StageSpec) (registry : Registry) : Prop where
  /-- Places, ids and names are in order. -/
  wellFormed : registry.WellFormed
  /-- What is settled is what is known. -/
  known : ∀ name, outlines r before name =
    (registry.find? name).bind fun o => o.contents.map fun c => ⟨c.dims, c.format⟩
  /-- The operands are those declared so far, each with the location asked for. -/
  entries_eq : registry.operands.map (fun o => (o.name, o.location)) = entries r before
  /-- What is pending is as the caller has declared it. -/
  pending : ∀ name o, registry.find? name = some o → o.isResolved = false → r.find? name = some o

theorem agrees_nil {r : Registry} (hr : r.Declared) : Agrees r [] r := by
  refine ⟨hr.wellFormed, ?_, by simp [entries], fun _ _ h _ => h⟩
  intro name
  show r.inputs name = _
  unfold Registry.inputs
  cases hf : r.find? name with
  | none => rfl
  | some o =>
    -- of what a caller declares, exactly the inputs are settled
    rcases hr.untouched o (Registry.mem_of_find? hf) with ⟨hrole, hres, -⟩ | ⟨hrole, hres, -⟩
    · obtain ⟨c, hc⟩ := Operand.isResolved_iff.mp hres
      simp [hrole, hc, Operand.dims_of_contents hc, Operand.format_of_contents hc]
    · simp [hrole, Operand.isResolved_eq_false_iff.mp hres]

section Agrees

variable {r registry : Registry} {before : List StageSpec}

/-- A source is settled exactly when its name is known. -/
theorem Agrees.exists_settled_iff (h : Agrees r before registry) (name : String) :
    (∃ o, Settled registry name o) ↔ (outlines r before name).isSome = true := by
  rw [h.known name]
  unfold Settled
  cases hf : registry.find? name with
  | none => simp
  | some o =>
    cases hc : o.contents with
    | none => simp [Operand.isResolved, hc]
    | some c => simp [Operand.isResolved, hc]

theorem Agrees.outline_of_settled (h : Agrees r before registry) {name : String} {o : Operand}
    (ho : Settled registry name o) : outlines r before name = some ⟨o.dims, o.format⟩ := by
  obtain ⟨c, hc⟩ := Operand.isResolved_iff.mp ho.2
  rw [h.known name, ho.1, Operand.dims_of_contents hc, Operand.format_of_contents hc]
  simp [hc]

theorem Agrees.dimsOf_eq (h : Agrees r before registry) {name : String} {o : Operand}
    (ho : Settled registry name o) : dimsOf (outlines r before) name = o.dims := by
  rw [dimsOf, h.outline_of_settled ho]
  rfl

theorem Agrees.formatOf_eq (h : Agrees r before registry) {name : String} {o : Operand}
    (ho : Settled registry name o) : formatOf (outlines r before) name = o.format := by
  rw [formatOf, h.outline_of_settled ho]
  rfl

/-- A name that the registry does not have was not declared by the caller either. -/
theorem Agrees.find?_eq_none (h : Agrees r before registry) {name : String}
    (hn : registry.find? name = none) : r.find? name = none := by
  rw [Registry.find?_eq_none_iff] at hn ⊢
  intro o ho hname
  have hmem : (o.name, o.location) ∈ entries r before :=
    List.mem_append_left _ (List.mem_map_of_mem ho)
  rw [← h.entries_eq] at hmem
  obtain ⟨x, hx, hxo⟩ := List.mem_map.mp hmem
  exact hn x hx ((Prod.mk.inj hxo).1.trans hname)

/-! ## One stage, in both languages -/

/-- The conditions of `Valid` on a single stage, given the ones in front. -/
structure StageValid (r : Registry) (settings : Settings) (before : List StageSpec)
    (s : StageSpec) : Prop where
  chained : Chained before.getLast? s
  combination : Combination settings.platform s
  sources : ∀ n ∈ s.sources, (outlines r before n).isSome = true
  unwritten : outlines r before s.output = none
  producer : ∀ o ∈ r.operands, o.name = s.output → o.producer = some before.length
  shapes : Shaped (outlines r before) s
  formats : ∃ plan, (requestOf settings (outlines r before) s).plan = .ok plan
  capacity : settings.batchSize ≤ accumulatorCapacity settings.platform
    (needsWideDest (requestOf settings (outlines r before) s)) settings.destSync
  size : (s.result (outlines r before)).bytes < wordLimit
  ends : ∀ o ∈ r.operands, o.name = s.output → ∀ a, o.location = .pinned a →
    a + (s.result (outlines r before)).bytes < wordLimit

/-- The sources of a stage, as operands of the registry. -/
theorem Agrees.exists_sources_iff (h : Agrees r before registry) (s : StageSpec) :
    (∃ a b, Settled registry s.loader.sourceA a ∧ SettledSecond registry s.loader.sourceB b) ↔
      ∀ n ∈ s.sources, (outlines r before n).isSome = true := by
  unfold StageSpec.sources
  cases hb : s.loader.sourceB with
  | none =>
    simp only [SettledSecond, Option.toList_none, List.mem_singleton, forall_eq,
      ← h.exists_settled_iff]
    constructor
    · rintro ⟨a, -, ha, -⟩
      exact ⟨a, ha⟩
    · rintro ⟨a, ha⟩
      exact ⟨a, none, ha, rfl⟩
  | some name =>
    simp only [SettledSecond, Option.toList_some, List.mem_cons, List.not_mem_nil, or_false,
      forall_eq_or_imp, forall_eq, ← h.exists_settled_iff]
    constructor
    · rintro ⟨a, -, ha, b, -, hb⟩
      exact ⟨⟨a, ha⟩, b, hb⟩
    · rintro ⟨⟨a, ha⟩, b, hb⟩
      exact ⟨a, some b, ha, b, rfl, hb⟩

variable {s : StageSpec} {a : Operand} {b : Option Operand}

/-- Shape and format of the output are those of the outlines. -/
theorem Agrees.result_eq (h : Agrees r before registry)
    (ha : Settled registry s.loader.sourceA a) (hb : SettledSecond registry s.loader.sourceB b) :
    s.result (outlines r before) = ⟨(stageShape s a b).dims, s.outputFormat⟩ := by
  unfold stageShape StageSpec.result
  rw [h.dimsOf_eq ha]
  cases hn : s.loader.sourceB with
  | none =>
    rw [hn] at hb
    obtain rfl : b = none := hb
    cases s.arithmetic <;> rfl
  | some name =>
    rw [hn] at hb
    obtain ⟨o, rfl, ho⟩ := hb
    have hdb := h.dimsOf_eq ho
    cases s.arithmetic <;> simp [hdb]

/-- What is asked for by operands is what is asked for by names. -/
theorem formatRequest_eq_requestOf {known : String → Option Outline} (settings : Settings)
    (ha : formatOf known s.loader.sourceA = a.format)
    (hb : s.loader.sourceB.map (formatOf known) = b.map (·.format)) :
    formatRequest settings s a b = requestOf settings known s := by
  unfold formatRequest requestOf loadFormats Loader.fresh
  cases hn : s.loader.sourceB <;> cases b <;> simp [hn] at hb <;>
    cases s.loader.reuse <;> simp [ha, hb]

theorem Agrees.request_eq (h : Agrees r before registry) (settings : Settings)
    (ha : Settled registry s.loader.sourceA a) (hb : SettledSecond registry s.loader.sourceB b) :
    formatRequest settings s a b = requestOf settings (outlines r before) s := by
  refine formatRequest_eq_requestOf settings (h.formatOf_eq ha) ?_
  cases hn : s.loader.sourceB with
  | none =>
    rw [hn] at hb
    obtain rfl : b = none := hb
    rfl
  | some name =>
    rw [hn] at hb
    obtain ⟨o, rfl, ho⟩ := hb
    rw [Option.map_some, h.formatOf_eq ho, Option.map_some]

theorem Agrees.shapeFaults_eq_nil_iff (h : Agrees r before registry)
    (ha : Settled registry s.loader.sourceA a) (hb : SettledSecond registry s.loader.sourceB b) :
    shapeFaults s a b = [] ↔ Shaped (outlines r before) s := by
  rw [TileFusion.shapeFaults_eq_nil_iff]
  have hda := h.dimsOf_eq ha
  cases hn : s.loader.sourceB with
  | none =>
    rw [hn] at hb
    obtain rfl : b = none := hb
    constructor
    · intro hs
      refine ⟨?_, by simp [hn], by simp [hn]⟩
      simpa [StageSpec.sources, hn, hda] using hs.whole
    · intro hs
      refine ⟨?_, by simp, by simp⟩
      simpa [StageSpec.sources, hn, hda] using hs.whole
  | some name =>
    rw [hn] at hb
    obtain ⟨o, rfl, ho⟩ := hb
    have hdb := h.dimsOf_eq ho
    constructor
    · intro hs
      refine ⟨?_, ?_, ?_⟩
      · simpa [StageSpec.sources, hn, hda, hdb] using hs.whole
      · intro harith x hx
        obtain rfl := Option.some.inj (hn.symm.trans hx)
        rw [hda, hdb]
        exact hs.inner harith o rfl
      · intro op harith hspread x hx
        obtain rfl := Option.some.inj (hn.symm.trans hx)
        rw [hda, hdb]
        exact hs.equal op harith hspread o rfl
    · intro hs
      refine ⟨?_, ?_, ?_⟩
      · simpa [StageSpec.sources, hn, hda, hdb] using hs.whole
      · rintro harith _ ⟨⟩
        rw [← hda, ← hdb]
        exact hs.inner harith name hn
      · rintro op harith hspread _ ⟨⟩
        rw [← hda, ← hdb]
        exact hs.equal op harith hspread name hn

/-- The output is vacant when it is not known yet and was declared for this stage, if at all. -/
theorem Agrees.vacant_iff (h : Agrees r before registry) (hr : r.Declared) (site : Site)
    (hindex : site.index = before.length) :
    Vacant registry site ↔ outlines r before site.spec.output = none ∧
      ∀ o ∈ r.operands, o.name = site.spec.output → o.producer = some before.length := by
  rw [h.known]
  unfold Vacant
  cases hf : registry.find? site.spec.output with
  | none =>
    have hnone := Registry.find?_eq_none_iff.mp (h.find?_eq_none hf)
    simp only [reduceCtorEq, false_implies, implies_true, Option.bind_none, true_and, true_iff]
    exact fun o ho hname => absurd hname (hnone o ho)
  | some x =>
    simp only [Option.some.injEq, forall_eq', Option.bind_some]
    constructor
    · rintro ⟨-, hres, hprod⟩
      refine ⟨by simp [Operand.isResolved_eq_false_iff.mp hres], ?_⟩
      -- what is still pending is as the caller has declared it
      intro o ho hname
      have hfo : r.find? site.spec.output = some o := by
        rw [← hname]
        exact hr.wellFormed.find?_name ho
      obtain rfl := Option.some.inj (hfo.symm.trans (h.pending _ x hf hres))
      obtain ⟨p, hp⟩ := (hr.wellFormed.sound o ho).producer_of_pending hres
      rw [hp, hprod p hp, hindex]
    · rintro ⟨hnone, hprod⟩
      have hres : x.isResolved = false := by
        rw [Operand.isResolved_eq_false_iff]
        cases hc : x.contents with
        | none => rfl
        | some c => rw [hc] at hnone; simp at hnone
      have hx := h.pending _ x hf hres
      have hmem := Registry.mem_of_find? hx
      refine ⟨?_, hres, ?_⟩
      · intro hrole
        have := (hr.wellFormed.sound x hmem).settled_of_input hrole
        rw [hres] at this
        simp at this
      · intro p hp
        rw [hprod x hmem (Registry.name_of_find? hx)] at hp
        rw [hindex]
        exact (Option.some.inj hp).symm

/-- A vacant output lies where the caller has asked for it. -/
theorem Agrees.outputLocation_eq (h : Agrees r before registry) {site : Site}
    (hvac : Vacant registry site) : registry.outputLocation site = r.outputLocation site := by
  unfold Registry.outputLocation
  cases hf : registry.find? site.spec.output with
  | none => rw [h.find?_eq_none hf]
  | some o => rw [h.pending _ o hf (hvac o hf).2.1]

/-- A stage resolves on a registry that agrees exactly when its own conditions hold. -/
theorem Agrees.resolves_iff (h : Agrees r before registry) (hr : r.Declared) (settings : Settings)
    (site : Site) (hindex : site.index = before.length) (hprev : site.previous = before.getLast?) :
    (∃ a b c formats, Resolves settings registry site a b c formats) ↔
      StageValid r settings before site.spec := by
  constructor
  · rintro ⟨a, b, c, formats, hres⟩
    obtain ⟨hchain, hcomb⟩ := (descriptionCauses_eq_nil_iff _ _).mp hres.described
    obtain ⟨hunwritten, hproducer⟩ := (h.vacant_iff hr site hindex).mp hres.vacant
    have hreq := h.request_eq settings hres.sourceA hres.sourceB
    have hresult := h.result_eq hres.sourceA hres.sourceB
    have hcontents := hres.contents
    rw [contents_of?_eq_some_iff_bytes, ← hresult] at hcontents
    have hfits := hres.fits
    rw [h.outputLocation_eq hres.vacant, fitsPin_outputLocation_iff hr.wellFormed,
      hcontents.2] at hfits
    exact
      { chained := hprev ▸ hchain
        combination := hcomb
        sources := (h.exists_sources_iff _).mp ⟨a, b, hres.sourceA, hres.sourceB⟩
        unwritten := hunwritten
        producer := hproducer
        shapes := (h.shapeFaults_eq_nil_iff hres.sourceA hres.sourceB).mp hres.shapes
        formats := ⟨formats, hreq ▸ hres.plan⟩
        capacity := hreq ▸ hres.capacity
        size := hcontents.1
        ends := hfits }
  · intro hv
    obtain ⟨a, b, ha, hb⟩ := (h.exists_sources_iff _).mpr hv.sources
    obtain ⟨formats, hplan⟩ := hv.formats
    have hreq := h.request_eq settings ha hb
    have hresult := h.result_eq ha hb
    have hvac := (h.vacant_iff hr site hindex).mpr ⟨hv.unwritten, hv.producer⟩
    have hsize := hv.size
    refine ⟨a, b, (site.spec.result (outlines r before)).contents, formats, ?_⟩
    exact
      { described := (descriptionCauses_eq_nil_iff _ _).mpr ⟨hprev ▸ hv.chained, hv.combination⟩
        sourceA := ha
        sourceB := hb
        shapes := (h.shapeFaults_eq_nil_iff ha hb).mpr hv.shapes
        vacant := hvac
        plan := hreq ▸ hplan
        capacity := hreq ▸ hv.capacity
        contents := by
          rw [contents_of?_eq_some_iff_bytes, ← hresult]
          exact ⟨hsize, rfl⟩
        fits := by
          rw [h.outputLocation_eq hvac, fitsPin_outputLocation_iff hr.wellFormed]
          exact hv.ends }

/-- The registry that a stage settles agrees again. -/
theorem Agrees.settle (h : Agrees r before registry) {settings : Settings} {site : Site}
    {c : Contents} {formats : FormatPlan} (hres : Resolves settings registry site a b c formats) :
    Agrees r (before ++ [site.spec]) (registry.settle site c) := by
  have hresult := h.result_eq hres.sourceA hres.sourceB
  have hcontents := (contents_of?_eq_some_iff_bytes.mp hres.contents).2
  rw [← hresult] at hcontents
  have hentries : entries r (before ++ [site.spec]) = entries r before ++
      if (r.find? site.spec.output).isNone then [(site.spec.output, .floating)] else [] := by
    unfold entries
    rw [List.filter_append, List.map_append, List.append_assoc]
    by_cases hn : (r.find? site.spec.output).isNone = true <;> simp [hn]
  refine ⟨hres.wellFormed h.wellFormed, ?_, ?_, ?_⟩
  · intro name
    rw [outlines_append, learn, Registry.find?_settle h.wellFormed]
    by_cases hn : name = site.spec.output
    · rw [if_pos hn, if_pos hn, Option.bind_some, Registry.contents_settledOutput, hcontents]
      rfl
    · rw [if_neg hn, if_neg hn]
      exact h.known name
  · rw [hentries, ← h.entries_eq]
    unfold Registry.settle
    cases hf : registry.find? site.spec.output with
    | none =>
      -- a new declaration, which floats
      have hloc : registry.outputLocation site = .floating := by
        rw [Registry.outputLocation, hf]
        rfl
      simp [Registry.push, h.find?_eq_none hf, hloc]
    | some o =>
      -- the caller's declaration, which keeps its place
      have ho := Registry.mem_of_find? hf
      have hname := Registry.name_of_find? hf
      have hloc : registry.outputLocation site = o.location := by
        rw [Registry.outputLocation, hf]
        rfl
      rw [h.pending _ o hf (hres.vacant o hf).2.1, Registry.operands_modify h.wellFormed ho,
        List.map_map]
      simp only [Option.isNone_some, Bool.false_eq_true, if_false, List.append_nil]
      refine List.map_congr_left fun x hx => ?_
      by_cases hxo : x.name = o.name
      · obtain rfl := h.wellFormed.eq_of_name hx ho hxo
        simp [hloc, hname]
      · simp [hxo]
  · intro name o hf hpend
    rw [Registry.find?_settle h.wellFormed] at hf
    by_cases hn : name = site.spec.output
    · rw [if_pos hn] at hf
      rw [← Option.some.inj hf, Operand.isResolved, Registry.contents_settledOutput] at hpend
      simp at hpend
    · rw [if_neg hn] at hf
      exact h.pending name o hf hpend

/-! ## All stages -/

/-- Stages in a row resolve exactly when each one meets its conditions behind those in front. -/
theorem Agrees.exists_resolvesAll_iff (hr : r.Declared) (settings : Settings)
    (rest : List StageSpec) :
    ∀ {before : List StageSpec} {registry : Registry}, Agrees r before registry →
      ((∃ stages final, ResolvesAll settings registry
          (sitesFrom before.length before.getLast? rest) stages final) ↔
        ∀ (i : Nat) (s : StageSpec), rest[i]? = some s →
          StageValid r settings (before ++ rest.take i) s) := by
  induction rest with
  | nil =>
    intro before registry _
    exact ⟨fun _ _ _ h => by simp at h, fun _ => ⟨[], registry, .nil _⟩⟩
  | cons s rest ih =>
    intro before registry h
    have hnext : sitesFrom before.length before.getLast? (s :: rest) =
        ⟨before.length, before.getLast?, s, rest⟩ ::
          sitesFrom (before ++ [s]).length (before ++ [s]).getLast? rest := by
      simp [sitesFrom]
    rw [hnext]
    constructor
    · rintro ⟨stages, final, hall⟩ i t ht
      cases hall with
      | cons hres hrest =>
        cases i with
        | zero =>
          obtain rfl : s = t := by simpa using ht
          simpa using (h.resolves_iff hr settings _ rfl rfl).mp ⟨_, _, _, _, hres⟩
        | succ i => simpa using (ih (h.settle hres)).mp ⟨_, _, hrest⟩ i t (by simpa using ht)
    · intro hv
      have hfirst : StageValid r settings before s := by simpa using hv 0 s rfl
      obtain ⟨a, b, c, formats, hres⟩ := (h.resolves_iff hr settings
        ⟨before.length, before.getLast?, s, rest⟩ rfl rfl).mpr hfirst
      obtain ⟨stages, final, hrest⟩ := (ih (h.settle hres)).mpr
        fun i t ht => by simpa using hv (i + 1) t ht
      exact ⟨_, final, .cons hres hrest⟩

/-- After all stages the registry still agrees. -/
theorem Agrees.resolvesAll {settings : Settings} {rest : List StageSpec} :
    ∀ {before : List StageSpec} {registry final : Registry} {stages : List Stage},
      Agrees r before registry →
      ResolvesAll settings registry (sitesFrom before.length before.getLast? rest) stages final →
      Agrees r (before ++ rest) final := by
  induction rest with
  | nil =>
    intro before registry final stages h hall
    cases hall
    simpa using h
  | cons s rest ih =>
    intro before registry final stages h hall
    cases hall with
    | cons hres hrest =>
      have hagain := ih (h.settle hres) (by simpa using hrest)
      simpa using hagain

/-- What is to be placed after all stages can be read off the outlines. -/
theorem Agrees.buffersOf_eq {specs : List StageSpec} (h : Agrees r specs registry) :
    buffersOf registry.operands = buffers r specs := by
  unfold buffersOf buffers
  rw [← h.entries_eq, List.filterMap_map]
  refine List.filterMap_congr fun o ho => ?_
  simp only [Function.comp, h.known, h.wellFormed.find?_name ho, Option.bind_some, Option.map_map]
  cases hc : o.contents with
  | none => rfl
  | some c =>
    have hbytes := (contents_of?_eq_some_iff_bytes.mp
      ((h.wellFormed.sound o ho).contents_eq c hc)).2
    simp only [Option.map_some, Option.some.injEq, Function.comp, Buffer.mk.injEq, true_and]
    rw [hbytes]
    rfl

end Agrees

/-! ## The whole list -/

theorem tilizes_iff (s : StageSpec) : s.tilizes = true ↔ s.loader.kind = .tilize := by
  simp [StageSpec.tilizes]

theorem mixingErrors_eq_nil_iff (platform : Platform) (specs : List StageSpec) :
    mixingErrors platform specs = [] ↔ (platform = .blackhole →
      (∀ s ∈ specs, s.loader.kind = .tilize) ∨ ∀ s ∈ specs, s.loader.kind ≠ .tilize) := by
  unfold mixingErrors
  by_cases hp : platform = .blackhole
  · by_cases hall : ∀ s ∈ specs, s.loader.kind = .tilize
    · have hall' : specs.all (·.tilizes) = true := by
        rw [List.all_eq_true]
        exact fun s hs => (tilizes_iff s).mpr (hall s hs)
      simp only [hall', Bool.not_true, Bool.and_false, Bool.false_eq_true, if_false, true_iff]
      exact fun _ => .inl hall
    · have hall' : specs.all (·.tilizes) = false := by
        rw [List.all_eq_false]
        push Not at hall
        obtain ⟨s, hs, hne⟩ := hall
        exact ⟨s, hs, fun h => hne ((tilizes_iff s).mp h)⟩
      by_cases hany : ∃ s ∈ specs, s.loader.kind = .tilize
      · obtain ⟨s, hs, hk⟩ := hany
        have hany' : specs.any (·.tilizes) = true :=
          List.any_eq_true.mpr ⟨s, hs, (tilizes_iff s).mpr hk⟩
        -- the stage that tilizes is one of those reported
        have hsite : s ∈ (sites specs).map (·.spec) := by
          rw [sites, map_spec_sites]
          exact hs
        obtain ⟨site, hmem, rfl⟩ := List.mem_map.mp hsite
        simp only [hp, beq_self_eq_true, hany', hall', Bool.not_false, Bool.and_self, if_true,
          List.filterMap_eq_nil_iff, true_implies]
        constructor
        · intro h
          have := h site hmem
          rw [if_pos ((tilizes_iff _).mpr hk)] at this
          simp at this
        · rintro (h | h)
          · exact absurd h hall
          · exact absurd hk (h _ hs)
      · have hany' : specs.any (·.tilizes) = false := by
          rw [List.any_eq_false]
          exact fun s hs h => hany ⟨s, hs, (tilizes_iff s).mp h⟩
        simp only [hany', Bool.and_false, Bool.false_and, Bool.false_eq_true, if_false, true_iff]
        exact fun _ => .inr fun s hs h => hany ⟨s, hs, h⟩
  · simp [hp]

theorem overallErrors_eq_nil_iff (settings : Settings) (specs : List StageSpec) :
    overallErrors settings specs = [] ↔ specs ≠ [] ∧ 1 ≤ settings.batchSize ∧
      (settings.platform = .blackhole →
        (∀ s ∈ specs, s.loader.kind = .tilize) ∨ ∀ s ∈ specs, s.loader.kind ≠ .tilize) := by
  unfold overallErrors
  rw [List.append_eq_nil_iff, List.append_eq_nil_iff, mixingErrors_eq_nil_iff, and_assoc]
  refine and_congr ?_ (and_congr ?_ Iff.rfl)
  · cases specs <;> simp
  · by_cases hb : settings.batchSize = 0
    · simp [hb]
    · simp only [hb, if_false, true_iff]
      omega

section Valid

variable {r : Registry} {specs : List StageSpec} {settings : Settings}

theorem length_take_of_getElem? {i : Nat} {s : StageSpec} (h : specs[i]? = some s) :
    (specs.take i).length = i := by
  obtain ⟨hi, -⟩ := List.getElem?_eq_some_iff.mp h
  rw [List.length_take]
  omega

theorem mem_take_iff_getElem? {i : Nat} {t : StageSpec} :
    t ∈ specs.take i ↔ ∃ j < i, specs[j]? = some t := by
  rw [List.mem_iff_getElem?]
  constructor
  · rintro ⟨j, hj⟩
    rw [List.getElem?_take] at hj
    split at hj
    · exact ⟨j, ‹_›, hj⟩
    · simp at hj
  · rintro ⟨j, hlt, hj⟩
    exact ⟨j, by rw [List.getElem?_take, if_pos hlt]; exact hj⟩

/-- The two conditions on reuse, stage by stage. -/
theorem chained_take_iff :
    (∀ (i : Nat) (s : StageSpec), specs[i]? = some s → Chained (specs.take i).getLast? s) ↔
      (∀ s : StageSpec, specs[0]? = some s → s.loader.reuse = .none) ∧
        ∀ (i : Nat) (s t : StageSpec), specs[i]? = some s → specs[i + 1]? = some t →
          t.loader.reuse ≠ .none ∧ t.loader.reused = some s.output := by
  have hlast : ∀ (i : Nat) (s : StageSpec), specs[i]? = some s →
      (specs.take (i + 1)).getLast? = some s := by
    intro i s hs
    rw [List.getLast?_take]
    simp [hs]
  constructor
  · intro h
    refine ⟨fun s hs => by simpa [Chained] using h 0 s hs, ?_⟩
    intro i s t hs ht
    have hc := h (i + 1) t ht
    rw [hlast i s hs] at hc
    exact hc
  · rintro ⟨hfirst, hlater⟩ i t ht
    cases i with
    | zero => exact hfirst t ht
    | succ i =>
      obtain ⟨hi, -⟩ := List.getElem?_eq_some_iff.mp ht
      have hs : specs[i]? = some specs[i] := List.getElem?_eq_getElem (by omega)
      rw [hlast i _ hs]
      exact hlater i _ t hs ht

/-- A name is known in front of a stage when it is an input or an earlier output. -/
theorem isSome_outlines_take_iff (hr : r.WellFormed) (specs : List StageSpec) (i : Nat)
    (name : String) :
    (outlines r (specs.take i) name).isSome = true ↔
      (∃ o ∈ r.operands, o.name = name ∧ o.role = .input) ∨
        ∃ j < i, ∃ t : StageSpec, specs[j]? = some t ∧ t.output = name := by
  rw [isSome_outlines_iff, isSome_inputs_iff hr]
  refine or_congr Iff.rfl ?_
  constructor
  · rintro ⟨t, ht, hname⟩
    obtain ⟨j, hj, hjt⟩ := mem_take_iff_getElem?.mp ht
    exact ⟨j, hj, t, hjt, hname⟩
  · rintro ⟨j, hj, t, hjt, hname⟩
    exact ⟨t, mem_take_iff_getElem?.mpr ⟨j, hj, hjt⟩, hname⟩

/-- Validity is a condition on every stage behind those in front, and three on the list. -/
theorem valid_iff (hr : r.WellFormed) :
    Valid r specs settings ↔
      overallErrors settings specs = [] ∧
        (∀ (i : Nat) (s : StageSpec), specs[i]? = some s →
          StageValid r settings (specs.take i) s) ∧
        Placeable (buffers r specs) := by
  rw [overallErrors_eq_nil_iff]
  constructor
  · intro h
    refine ⟨⟨h.nonempty, h.batch, h.tilize⟩, ?_, h.placement⟩
    intro i s hs
    have hlen := length_take_of_getElem? hs
    exact
      { chained := chained_take_iff.mpr ⟨h.first, h.later⟩ i s hs
        combination := h.combination s (List.mem_of_getElem? hs)
        sources := fun n hn => (isSome_outlines_take_iff hr specs i n).mpr (h.sources i s hs n hn)
        unwritten := by
          rw [← Option.not_isSome_iff_eq_none, isSome_outlines_take_iff hr]
          rintro (⟨o, ho, hname, hrole⟩ | ⟨j, hj, t, ht, hname⟩)
          · exact h.outputs s (List.mem_of_getElem? hs) o ho hname hrole
          · have := h.distinct j i t s ht hs hname
            omega
        producer := by
          rw [hlen]
          exact h.producers i s hs
        shapes := h.shapes i s hs
        formats := h.formats i s hs
        capacity := h.capacity i s hs
        size := h.sizes i s hs
        ends := h.ends i s hs }
  · rintro ⟨⟨hne, hbatch, htilize⟩, hv, hplace⟩
    obtain ⟨hfirst, hlater⟩ := chained_take_iff.mp fun i s hs => (hv i s hs).chained
    -- what one stage writes is known to all stages behind it
    have hfresh : ∀ (i j : Nat) (s t : StageSpec), specs[i]? = some s → specs[j]? = some t →
        s.output = t.output → ¬i < j := by
      intro i j s t hs ht hout hlt
      have hsome := (isSome_outlines_take_iff hr specs j t.output).mpr (.inr ⟨i, hlt, s, hs, hout⟩)
      rw [(hv j t ht).unwritten] at hsome
      simp at hsome
    exact
      { nonempty := hne
        batch := hbatch
        tilize := htilize
        first := hfirst
        later := hlater
        combination := by
          intro s hs
          obtain ⟨i, hi⟩ := List.mem_iff_getElem?.mp hs
          exact (hv i s hi).combination
        sources := fun i s hs n hn =>
          (isSome_outlines_take_iff hr specs i n).mp ((hv i s hs).sources n hn)
        outputs := by
          intro s hs o ho hname hrole
          obtain ⟨i, hi⟩ := List.mem_iff_getElem?.mp hs
          have hsome := (isSome_outlines_take_iff hr specs i s.output).mpr
            (.inl ⟨o, ho, hname, hrole⟩)
          rw [(hv i s hi).unwritten] at hsome
          simp at hsome
        distinct := by
          intro i j s t hs ht hout
          have h₁ := hfresh i j s t hs ht hout
          have h₂ := hfresh j i t s ht hs hout.symm
          omega
        producers := by
          intro i s hs o ho hname
          rw [(hv i s hs).producer o ho hname, length_take_of_getElem? hs]
        shapes := fun i s hs => (hv i s hs).shapes
        formats := fun i s hs => (hv i s hs).formats
        capacity := fun i s hs => (hv i s hs).capacity
        sizes := fun i s hs => (hv i s hs).size
        ends := fun i s hs => (hv i s hs).ends
        placement := hplace }

/-- **A build succeeds if and only if the list of stages is valid**, whatever the caller has
declared. -/
theorem build_succeeds_iff_valid (hr : r.Declared) :
    (∃ p, (Pipeline.build r specs settings).value = .ok p) ↔ Valid r specs settings := by
  have hrun := Agrees.exists_resolvesAll_iff hr settings specs (agrees_nil hr)
  have hfinal : ∀ {stages final}, ResolvesAll settings r (sites specs) stages final →
      buffersOf final.operands = buffers r specs :=
    fun hall => ((agrees_nil hr).resolvesAll hall).buffersOf_eq
  rw [valid_iff hr.wellFormed]
  simp only [build_eq_ok_iff]
  constructor
  · rintro ⟨p, hoverall, stages, final, placed, hall, hplace, -⟩
    refine ⟨hoverall, hrun.mp ⟨stages, final, hall⟩, ?_⟩
    rw [← hfinal hall]
    exact Registry.exists_allocate_iff.mp ⟨placed, hplace⟩
  · rintro ⟨hoverall, hstages, hplace⟩
    obtain ⟨stages, final, hall⟩ := hrun.mpr hstages
    rw [← hfinal hall] at hplace
    obtain ⟨placed, hplaced⟩ := Registry.exists_allocate_iff.mpr hplace
    exact ⟨_, hoverall, stages, final, placed, hall, hplaced, rfl⟩

end Valid

/-- The fused stages are valid on the crowded memory. The second one alone is not: it has no stage
in front whose output it could take over. -/
theorem valid_fusedSpecs :
    crowdedRegistry.Declared ∧ Valid crowdedRegistry fusedSpecs fusedSettings ∧
      ¬Valid crowdedRegistry (fusedSpecs.drop 1) fusedSettings := by
  refine ⟨declared_crowdedRegistry,
    (build_succeeds_iff_valid declared_crowdedRegistry).mp exists_build_crowded, ?_⟩
  intro hv
  obtain ⟨p, hp⟩ := (build_succeeds_iff_valid declared_crowdedRegistry).mpr hv
  have hfails : (Pipeline.build crowdedRegistry (fusedSpecs.drop 1)
      fusedSettings).value.toBool = false := by
    decide +kernel
  rw [hp] at hfails
  simp [Except.toBool] at hfails

end TileFusion
