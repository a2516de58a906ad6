import TileFusion.Proofs.BufferFormats
import TileFusion.Proofs.UniformBatches

/-!
# How a build changes the registry

A build works on the operands that its caller has declared. Some of them are outputs that stages are
going to write, with or without an address and under whatever role; the outputs of other stages are
only declared on the way. In the end one registry holds them all, and the ids that the caller has
been given still mean the same operands.

> `Grown`: what holds of the registry behind some stages;
> `build_extends_registry`: declarations are kept, the operands beyond them are the outputs that had
> none, in stage order, every operand is written once and before it is read, and the only settled
> operand with the role of an output is the one of the last stage.
-/

namespace TileFusion

/-! ## One stage and its output -/

/-- The role that the output of the stage `index` has among `count` stages. -/
def roleAt (count index : Nat) : Role :=
  if index + 1 = count then .output else .intermediate

theorem StageSpec.reads_of_reused {s : StageSpec} {name : String}
    (h : s.loader.reused = some name) : s.reads name = true := by
  unfold Loader.reused at h
  unfold StageSpec.reads
  cases hr : s.loader.reuse with
  | none => simp [hr] at h
  | sourceA =>
    rw [hr] at h
    simp [Option.some.inj h]
  | sourceB =>
    rw [hr] at h
    simp [h]

/-- Roles are found by searching the stages behind for a reader. Since every stage is read by the
next one, the search comes down to whether there is a next one. -/
theorem outputRole_of_isChain {specs : List StageSpec} :
    ∀ {index : Nat} {previous : Option StageSpec},
      specs.IsChain (fun s t => t.loader.reused = some s.output) →
      ∀ site ∈ sitesFrom index previous specs,
        site.outputRole = roleAt (index + specs.length) site.index := by
  induction specs with
  | nil =>
    intro index previous _ site hsite
    simp [sitesFrom] at hsite
  | cons spec specs ih =>
    intro index previous hchain site hsite
    rcases List.mem_cons.mp hsite with rfl | hsite
    · cases specs with
      | nil => simp [Site.outputRole, roleAt]
      | cons next rest =>
        have hreads : next.reads spec.output = true :=
          StageSpec.reads_of_reused (List.isChain_cons_cons.mp hchain).1
        simp [Site.outputRole, roleAt, hreads]
    · rw [ih hchain.tail site hsite, List.length_cons]
      congr 1
      omega

/-- The operand that a stage has written, among `count` stages. -/
structure Operand.WrittenBy (count : Nat) (s : Stage) (o : Operand) : Prop where
  id : o.id = s.output
  name : o.name = s.spec.output
  producer : o.producer = some s.index
  resolved : o.isResolved = true
  format : o.format = s.spec.outputFormat
  role : o.role = roleAt count s.index

/-- Ids of the operands that a stage reads. -/
def Stage.sources (s : Stage) : List Nat :=
  s.sourceA :: s.sourceB.toList

theorem Registry.role_settledOutput (r : Registry) (site : Site) (c : Contents) :
    (r.settledOutput site c).role = site.outputRole := by
  unfold settledOutput
  split <;> rfl

section Resolves

variable {settings : Settings} {r : Registry} {site : Site} {a : Operand} {b : Option Operand}
  {c : Contents} {formats : FormatPlan}

theorem Resolves.producer_settledOutput (hr : r.WellFormed)
    (h : Resolves settings r site a b c formats) :
    (r.settledOutput site c).producer = some site.index := by
  unfold Registry.settledOutput
  cases hf : r.find? site.spec.output with
  | none => rfl
  | some o =>
    -- a declaration that waits for a stage waits for this one
    obtain ⟨-, hpending, hproducer⟩ := h.vacant o hf
    obtain ⟨p, hp⟩ := (hr.sound o (Registry.mem_of_find? hf)).producer_of_pending hpending
    show o.producer = some site.index
    rw [hp, hproducer p hp]

theorem Resolves.writtenBy {count : Nat} (hr : r.WellFormed)
    (h : Resolves settings r site a b c formats)
    (hrole : site.outputRole = roleAt count site.index) :
    (r.settledOutput site c).WrittenBy count (stageOf settings r site a b c formats) where
  id := rfl
  name := Registry.name_settledOutput ..
  producer := h.producer_settledOutput hr
  resolved := (Registry.settled_settle hr site c).2
  format := by
    rw [Operand.format_of_contents (Registry.contents_settledOutput ..),
      Contents.format_of? h.contents]
    rfl
  role := (Registry.role_settledOutput ..).trans hrole

/-- The sources of a stage stand in the registry in front of it. -/
theorem Resolves.exists_source (h : Resolves settings r site a b c formats) :
    ∀ i ∈ (stageOf settings r site a b c formats).sources,
      ∃ o ∈ r.operands, o.isResolved = true ∧ o.id = i := by
  have hsecond : ∀ o ∈ b, o ∈ r.operands ∧ o.isResolved = true := by
    intro o ho
    have hb := h.sourceB
    cases hs : site.spec.loader.sourceB with
    | none =>
      rw [hs] at hb
      rw [show b = none from hb] at ho
      simp at ho
    | some name =>
      rw [hs] at hb
      obtain ⟨o', rfl, hfind, hres⟩ := hb
      obtain rfl := Option.some.inj ho
      exact ⟨Registry.mem_of_find? hfind, hres⟩
  intro i hi
  rcases List.mem_cons.mp hi with rfl | hi
  · exact ⟨a, Registry.mem_of_find? h.sourceA.1, h.sourceA.2, rfl⟩
  · obtain ⟨o, ho, rfl⟩ := Option.map_eq_some_iff.mp (Option.mem_toList.mp hi)
    obtain ⟨hmem, hres⟩ := hsecond o ho
    exact ⟨o, hmem, hres, rfl⟩

end Resolves

/-! ## What a declaration settles for good -/

/-- Id, name and writer. -/
def Operand.tag (o : Operand) : Nat × String × Option Nat :=
  (o.id, o.name, o.producer)

/-- The same of a stage's output. -/
def Stage.tag (s : Stage) : Nat × String × Option Nat :=
  (s.output, s.spec.output, some s.index)

theorem Operand.WrittenBy.tag_eq {count : Nat} {s : Stage} {o : Operand} (h : o.WrittenBy count s) :
    o.tag = s.tag := by
  rw [Operand.tag, h.id, h.name, h.producer]
  rfl

namespace Registry

theorem WellFormed.mem_iff {r : Registry} (h : r.WellFormed) {o : Operand} :
    o ∈ r.operands ↔ r.find? o.name = some o :=
  ⟨h.find?_name, mem_of_find?⟩

theorem mem_settle_iff {r : Registry} {site : Site} {c : Contents} {o : Operand}
    (hr : r.WellFormed) (hs : (r.settle site c).WellFormed) :
    o ∈ (r.settle site c).operands ↔
      o = r.settledOutput site c ∨ o ∈ r.operands ∧ o.name ≠ site.spec.output := by
  rw [hs.mem_iff, find?_settle hr, hr.mem_iff]
  by_cases hn : o.name = site.spec.output
  · rw [if_pos hn]
    simp [hn, eq_comm]
  · have hne : o ≠ r.settledOutput site c := by
      intro he
      rw [he] at hn
      exact hn (name_settledOutput ..)
    rw [if_neg hn]
    simp [hn, hne]

/-- A stage adds the tag of its output, unless the name is declared already. -/
theorem tags_settle {r : Registry} {site : Site} {c : Contents} {tag : Nat × String × Option Nat}
    (hr : r.WellFormed) (htag : (r.settledOutput site c).tag = tag) :
    (r.settle site c).operands.map (·.tag) =
      r.operands.map (·.tag) ++ if (r.find? site.spec.output).isNone then [tag] else [] := by
  unfold settle
  cases hf : r.find? site.spec.output with
  | none => simp [push, htag]
  | some o =>
    -- the declaration keeps its place, its name and its writer
    have ho := mem_of_find? hf
    have hkept : (r.settledOutput site c).tag = o.tag := by
      simp only [Operand.tag, settledOutput, hf]
    rw [operands_modify hr ho, List.map_map]
    simp only [Option.isNone_some, Bool.false_eq_true, if_false, List.append_nil]
    refine List.map_congr_left fun x hx => ?_
    by_cases hname : x.name = o.name
    · obtain rfl := hr.eq_of_name hx ho hname
      simpa using hkept
    · simp [hname]

end Registry

/-! ## The registry behind some stages -/

/-- What the stages `done`, out of `count`, have made of the caller's registry `r`. -/
structure Grown (r : Registry) (count : Nat) (done : List Stage) (registry : Registry) : Prop where
  wellFormed : registry.WellFormed
  /-- The operands are those of the caller, and behind them the outputs that were not declared. -/
  tags : registry.operands.map (·.tag) =
    r.operands.map (·.tag) ++
      (done.filter fun s => (r.find? s.spec.output).isNone).map (·.tag)
  written : ∀ s ∈ done, ∃ o ∈ registry.operands, o.WrittenBy count s
  /-- Nothing else has contents but what had them from the start. -/
  settled : ∀ o ∈ registry.operands, o.isResolved = true →
    o ∈ r.operands ∨ ∃ s ∈ done, o.id = s.output
  pending : ∀ o ∈ registry.operands, o.isResolved = false → o ∈ r.operands
  /-- What is read was written in front, or was an input. -/
  sources : ∀ s ∈ done, ∀ i ∈ s.sources,
    (∃ o ∈ r.operands, o.role = .input ∧ o.id = i) ∨ ∃ t ∈ done, t.index < s.index ∧ t.output = i

theorem grown_nil {r : Registry} (hr : r.WellFormed) (count : Nat) : Grown r count [] r where
  wellFormed := hr
  tags := by simp
  written := by simp
  settled := fun o ho _ => .inl ho
  pending := fun o ho _ => ho
  sources := by simp

/-- Of what a caller declares, exactly the inputs have contents. -/
theorem Registry.Declared.role_of_resolved {r : Registry} (hr : r.Declared) {o : Operand}
    (ho : o ∈ r.operands) (hres : o.isResolved = true) : o.role = .input := by
  rcases hr.untouched o ho with ⟨hrole, -, -⟩ | ⟨-, hpending, -⟩
  · exact hrole
  · rw [hres] at hpending
    simp at hpending

section Grown

variable {r registry : Registry} {count : Nat} {done : List Stage} {settings : Settings}
  {site : Site} {a : Operand} {b : Option Operand} {c : Contents} {formats : FormatPlan}

/-- The name of an output is free in the registry when the caller has not declared it. -/
theorem Grown.isNone_find? (h : Grown r count done registry)
    (hres : Resolves settings registry site a b c formats) :
    (registry.find? site.spec.output).isNone = (r.find? site.spec.output).isNone := by
  cases hf : registry.find? site.spec.output with
  | none =>
    have hnone : r.find? site.spec.output = none := by
      rw [Registry.find?_eq_none_iff] at hf ⊢
      intro o ho hname
      have htag : o.tag ∈ registry.operands.map (·.tag) := by
        rw [h.tags]
        exact List.mem_append_left _ (List.mem_map_of_mem ho)
      obtain ⟨x, hx, hxo⟩ := List.mem_map.mp htag
      have hxname : x.name = o.name := congrArg (·.2.1) hxo
      exact hf x hx (hxname.trans hname)
    rw [hnone]
  | some o =>
    -- what nobody has written yet was declared by the caller
    have hmem := h.pending o (Registry.mem_of_find? hf) (hres.vacant o hf).2.1
    cases hn : r.find? site.spec.output with
    | none => exact absurd (Registry.name_of_find? hf) (Registry.find?_eq_none_iff.mp hn o hmem)
    | some _ => rfl

/-- One stage: it writes its output, and leaves all others alone. -/
theorem Grown.settle (hr : r.Declared) (h : Grown r count done registry)
    (hres : Resolves settings registry site a b c formats)
    (hrole : site.outputRole = roleAt count site.index)
    (hindex : ∀ t ∈ done, t.index < site.index) :
    Grown r count (done ++ [stageOf settings registry site a b c formats])
      (registry.settle site c) := by
  have hwf := hres.wellFormed h.wellFormed
  have hout := hres.writtenBy h.wellFormed hrole
  have hmem : ∀ {o : Operand}, o ∈ (registry.settle site c).operands ↔
      o = registry.settledOutput site c ∨ o ∈ registry.operands ∧ o.name ≠ site.spec.output :=
    Registry.mem_settle_iff h.wellFormed hwf
  refine ⟨hwf, ?_, ?_, ?_, ?_, ?_⟩
  · rw [Registry.tags_settle h.wellFormed hout.tag_eq, h.isNone_find? hres, h.tags,
      List.filter_append, List.map_append, List.append_assoc]
    congr 2
    by_cases hn : (r.find? site.spec.output).isNone = true <;> simp [hn, stageOf]
  · intro s hs
    rcases List.mem_append.mp hs with hs | hs
    · obtain ⟨o, ho, hw⟩ := h.written s hs
      refine ⟨o, hmem.mpr (.inr ⟨ho, ?_⟩), hw⟩
      -- an output that was written cannot be claimed again
      intro hname
      have hfind := h.wellFormed.find?_name ho
      rw [hname] at hfind
      have hpending := (hres.vacant o hfind).2.1
      rw [hw.resolved] at hpending
      simp at hpending
    · rw [List.mem_singleton.mp hs]
      exact ⟨_, hmem.mpr (.inl rfl), hout⟩
  · intro o ho hresolved
    rcases hmem.mp ho with rfl | ⟨ho, -⟩
    · exact .inr ⟨_, by simp, hout.id⟩
    · rcases h.settled o ho hresolved with hin | ⟨s, hs, hid⟩
      · exact .inl hin
      · exact .inr ⟨s, List.mem_append_left _ hs, hid⟩
  · intro o ho hpending
    rcases hmem.mp ho with rfl | ⟨ho, -⟩
    · rw [hout.resolved] at hpending
      simp at hpending
    · exact h.pending o ho hpending
  · intro s hs i hi
    rcases List.mem_append.mp hs with hs | hs
    · rcases h.sources s hs i hi with hin | ⟨t, ht, hlt⟩
      · exact .inl hin
      · exact .inr ⟨t, List.mem_append_left _ ht, hlt⟩
    · rw [List.mem_singleton.mp hs] at hi ⊢
      obtain ⟨o, ho, hresolved, rfl⟩ := hres.exists_source i hi
      rcases h.settled o ho hresolved with hin | ⟨t, ht, hid⟩
      · exact .inl ⟨o, hin, hr.role_of_resolved hin hresolved, rfl⟩
      · exact .inr ⟨t, List.mem_append_left _ ht, hindex t ht, hid.symm⟩

/-- All stages: the run goes on from any point at which the invariant holds. -/
theorem ResolvesAll.grown (hr : r.Declared) {sites : List Site} {stages : List Stage}
    {final : Registry} (hall : ResolvesAll settings registry sites stages final) :
    ∀ {done : List Stage}, Grown r count done registry →
      (∀ site ∈ sites, site.outputRole = roleAt count site.index) →
      (done.map (·.index) ++ sites.map (·.index)).Pairwise (· < ·) →
      Grown r count (done ++ stages) final := by
  induction hall with
  | nil =>
    intro done h _ _
    rwa [List.append_nil]
  | @cons registry final site rest a b c formats stages hsite hrest ih =>
    intro done h hroles horder
    have hindex : ∀ t ∈ done, t.index < site.index := by
      intro t ht
      exact (List.pairwise_append.mp horder).2.2 _ (List.mem_map_of_mem ht) _ (by simp)
    have hnext := h.settle hr hsite (hroles site (by simp)) hindex
    have hgrown := ih hnext (fun site' h' => hroles site' (List.mem_cons_of_mem _ h')) ?_
    · simpa using hgrown
    · simpa [stageOf] using horder

/-! ## Consequences of the invariant -/

theorem Grown.exists_written (h : Grown r count done registry) {s : Stage} (hs : s ∈ done) :
    ∃ o, registry.operand? s.output = some o ∧ o.WrittenBy count s := by
  obtain ⟨o, ho, hw⟩ := h.written s hs
  refine ⟨o, ?_, hw⟩
  rw [← hw.id]
  exact h.wellFormed.operand?_id ho

theorem Grown.writtenBy_of_id (h : Grown r count done registry) {o : Operand}
    (ho : o ∈ registry.operands) {s : Stage} (hs : s ∈ done) (hid : o.id = s.output) :
    o.WrittenBy count s := by
  obtain ⟨w, hmem, hw⟩ := h.written s hs
  rwa [h.wellFormed.eq_of_id ho hmem (hid.trans hw.id.symm)]

/-- No two stages write one operand, because its declaration names its writer. -/
theorem Grown.index_eq (h : Grown r count done registry) {s t : Stage} (hs : s ∈ done)
    (ht : t ∈ done) (hout : s.output = t.output) : s.index = t.index := by
  obtain ⟨o, ho, hw⟩ := h.written s hs
  have hw' := h.writtenBy_of_id ho ht (hw.id.trans hout)
  exact Option.some.inj (hw.producer.symm.trans hw'.producer)

theorem Grown.nodup_outputs (h : Grown r count done registry)
    (hindex : (done.map (·.index)).Nodup) : (done.map (·.output)).Nodup := by
  refine List.Nodup.map_on ?_ hindex.of_map
  intro s hs t ht hout
  exact List.inj_on_of_nodup_map hindex hs ht (h.index_eq hs ht hout)

theorem roleAt_ne_input (count index : Nat) : roleAt count index ≠ .input := by
  unfold roleAt
  split <;> simp

theorem roleAt_eq_output_iff {count index : Nat} :
    roleAt count index = .output ↔ index + 1 = count := by
  unfold roleAt
  split <;> simp_all

/-- No stage writes an input. -/
theorem Grown.id_ne_output (h : Grown r count done registry) {o : Operand}
    (ho : o ∈ registry.operands) (hrole : o.role = .input) {s : Stage} (hs : s ∈ done) :
    o.id ≠ s.output := by
  intro hid
  rw [(h.writtenBy_of_id ho hs hid).role] at hrole
  exact roleAt_ne_input count s.index hrole

theorem Grown.role_eq_output_iff (h : Grown r count done registry) (hr : r.Declared) {o : Operand}
    (ho : o ∈ registry.operands) (hres : o.isResolved = true) :
    o.role = .output ↔ ∃ s ∈ done, s.index + 1 = count ∧ o.id = s.output := by
  constructor
  · intro hrole
    rcases h.settled o ho hres with hin | ⟨s, hs, hid⟩
    · rw [hr.role_of_resolved hin hres] at hrole
      simp at hrole
    · rw [(h.writtenBy_of_id ho hs hid).role, roleAt_eq_output_iff] at hrole
      exact ⟨s, hs, hrole, hid⟩
  · intro hlast
    obtain ⟨s, hs, hcount, hid⟩ := hlast
    rw [(h.writtenBy_of_id ho hs hid).role]
    exact roleAt_eq_output_iff.mpr hcount

theorem Grown.role_eq_output_iff_last (h : Grown r done.length done registry) (hr : r.Declared)
    {front : List Stage} {last : Stage} (hsplit : done = front ++ [last])
    (hlast : last.index + 1 = done.length) (hfront : ∀ s ∈ front, s.index + 1 < done.length)
    {o : Operand} (ho : o ∈ registry.operands) (hres : o.isResolved = true) :
    o.role = .output ↔ o.id = last.output := by
  rw [h.role_eq_output_iff hr ho hres]
  constructor
  · intro hwriter
    obtain ⟨s, hs, hcount, hid⟩ := hwriter
    rw [hsplit] at hs
    rcases List.mem_append.mp hs with hs | hs
    · have := hfront s hs
      omega
    · rw [hid, List.mem_singleton.mp hs]
  · intro hid
    exact ⟨last, by simp [hsplit], hlast, hid⟩

/-- A declaration that no stage has taken over is still what it was. -/
theorem Grown.mem_of_unwritten (h : Grown r count done registry) (hr : r.WellFormed)
    (hext : r.Extends registry) {o : Operand} (ho : o ∈ r.operands)
    (hunwritten : ∀ s ∈ done, s.spec.output ≠ o.name) :
    o ∈ registry.operands := by
  obtain ⟨o', hfind, -⟩ := hext.kept o.name o (hr.find?_name ho)
  have hmem := Registry.mem_of_find? hfind
  have hname := Registry.name_of_find? hfind
  suffices o' ∈ r.operands by rwa [← hr.eq_of_name this ho hname]
  cases hres : o'.isResolved with
  | false => exact h.pending o' hmem hres
  | true =>
    rcases h.settled o' hmem hres with hin | ⟨s, hs, hid⟩
    · exact hin
    · have hw := h.writtenBy_of_id hmem hs hid
      exact absurd (hw.name.symm.trans hname) (hunwritten s hs)

end Grown

/-! ## In a pipeline -/

theorem Operand.WrittenBy.placed {count : Nat} {s : Stage} {o o' : Operand}
    (h : o.WrittenBy count s) (hp : Placed o o') : o'.WrittenBy count s where
  id := hp.id_eq.trans h.id
  name := hp.name_eq.trans h.name
  producer := hp.producer_eq.trans h.producer
  resolved := by
    rw [Operand.isResolved, hp.contents_eq]
    exact h.resolved
  format := (Operand.format_congr hp.contents_eq).trans h.format
  role := hp.role_eq.trans h.role

theorem Placed.tag_eq {o o' : Operand} (h : Placed o o') : o'.tag = o.tag := by
  rw [Operand.tag, h.id_eq, h.name_eq, h.producer_eq, Operand.tag]

theorem Registry.Extends.mem_of_input {r r' : Registry} (h : r.Extends r') (hr : r.WellFormed)
    {o : Operand} (ho : o ∈ r.operands) (hrole : o.role = .input) : o ∈ r'.operands := by
  obtain ⟨o', hfind, -, -, -, hfixed⟩ := h.kept o.name o (hr.find?_name ho)
  rw [hfixed ((hr.sound o ho).settled_of_input hrole)] at hfind
  exact Registry.mem_of_find? hfind

theorem ResolvesAll.grown_of_sites {settings : Settings} {r final : Registry}
    {specs : List StageSpec} {stages : List Stage} (hr : r.Declared)
    (hall : ResolvesAll settings r (sites specs) stages final) :
    Grown r stages.length stages final := by
  have hspecs : stages.map (·.spec) = specs := by
    rw [hall.spec_eq, sites, map_spec_sites]
  have hlength : stages.length = specs.length := by rw [← hspecs, List.length_map]
  have hchain : specs.IsChain fun s t => t.loader.reused = some s.output := by
    rw [← hspecs]
    exact (List.isChain_map _).mpr ((hall.isChain hr.wellFormed).imp fun _ _ h => h.reused)
  have hroles : ∀ site ∈ sites specs, site.outputRole = roleAt stages.length site.index := by
    intro site hsite
    rw [outputRole_of_isChain hchain site hsite, Nat.zero_add, hlength]
  have horder : ((sites specs).map (·.index)).Pairwise (· < ·) := by
    rw [sites, index_sitesFrom]
    exact List.pairwise_lt_range'
  exact hall.grown hr (grown_nil hr.wellFormed _) hroles horder

section Placement

variable {r final placed : Registry} {stages : List Stage}

theorem Registry.Extends.exists_kept (h : r.Extends final) (hr : r.WellFormed)
    (hfinal : final.WellFormed) (hplace : final.allocate.value = .ok placed) :
    ∀ o ∈ r.operands, ∃ o', placed.operand? o.id = some o' ∧ o'.tag = o.tag ∧
      ∀ address, o.location = .pinned address → o'.location = .pinned address := by
  intro o ho
  obtain ⟨x, hfind, hid, hloc, hproducer, -⟩ := h.kept o.name o (hr.find?_name ho)
  have hx := hfinal.operand?_id (Registry.mem_of_find? hfind)
  rw [hid] at hx
  obtain ⟨o', ho', hplaced⟩ := operand?_of_allocate hplace hx
  refine ⟨o', ho', ?_, ?_⟩
  · rw [hplaced.tag_eq, Operand.tag, hid, Registry.name_of_find? hfind, hproducer, Operand.tag]
  · intro address haddress
    rw [haddress] at hloc
    rw [hplaced.location_eq (by simp [hloc]), hloc]

theorem Registry.Extends.exists_input (h : r.Extends final) (hr : r.WellFormed)
    (hfinal : final.WellFormed) (hplace : final.allocate.value = .ok placed) :
    ∀ o ∈ r.operands, o.role = .input → ∃ o', placed.operand? o.id = some o' ∧
      o'.role = .input ∧ o'.contents = o.contents ∧ o'.isResolved = true := by
  intro o ho hrole
  obtain ⟨o', ho', hplaced⟩ :=
    operand?_of_allocate hplace (hfinal.operand?_id (h.mem_of_input hr ho hrole))
  refine ⟨o', ho', hplaced.role_eq.trans hrole, hplaced.contents_eq, ?_⟩
  rw [Operand.isResolved, hplaced.contents_eq]
  exact (hr.sound o ho).settled_of_input hrole

theorem Grown.operand?_of_unwritten {count : Nat} (h : Grown r count stages final)
    (hr : r.Declared) (hext : r.Extends final) (hplace : final.allocate.value = .ok placed) :
    ∀ o ∈ r.operands, o.role ≠ .input → (∀ s ∈ stages, s.spec.output ≠ o.name) →
      placed.operand? o.id = some o ∧ o.isResolved = false := by
  intro o ho hrole hunwritten
  have hpending : o.isResolved = false := by
    rcases hr.untouched o ho with ⟨hin, -⟩ | ⟨-, hpending, -⟩
    · exact absurd hin hrole
    · exact hpending
  have hmem := h.mem_of_unwritten hr.wellFormed hext ho hunwritten
  obtain ⟨o', ho', hplaced⟩ := operand?_of_allocate hplace (h.wellFormed.operand?_id hmem)
  rw [hplaced.eq_of_pending (Operand.isResolved_eq_false_iff.mp hpending)] at ho'
  exact ⟨ho', hpending⟩

theorem Grown.exists_written_placed {count : Nat} (h : Grown r count stages final)
    (hplace : final.allocate.value = .ok placed) :
    ∀ s ∈ stages, ∃ o, placed.operand? s.output = some o ∧ o.WrittenBy count s := by
  intro s hs
  obtain ⟨o, ho, hw⟩ := h.exists_written hs
  obtain ⟨o', ho', hplaced⟩ := operand?_of_allocate hplace ho
  exact ⟨o', ho', hw.placed hplaced⟩

end Placement

/-- The registry of a pipeline extends the one that it was built on. -/
structure Pipeline.Extends (r : Registry) (p : Pipeline) : Prop where
  /-- The id of an operand is its place. -/
  ids : ∀ i o, p.registry.operand? i = some o → o.id = i
  /-- Declarations keep id, name and writer, and the address that they ask for. -/
  kept : ∀ o ∈ r.operands, ∃ o', p.registry.operand? o.id = some o' ∧ o'.tag = o.tag ∧
    ∀ address, o.location = .pinned address → o'.location = .pinned address
  /-- Inputs stay inputs, with the contents that they were declared with. -/
  inputs : ∀ o ∈ r.operands, o.role = .input → ∃ o', p.registry.operand? o.id = some o' ∧
    o'.role = .input ∧ o'.contents = o.contents ∧ o'.isResolved = true
  /-- An output that no stage writes is as it was, and has no contents. -/
  unwritten : ∀ o ∈ r.operands, o.role ≠ .input → (∀ s ∈ p.stages, s.spec.output ≠ o.name) →
    p.registry.operand? o.id = some o ∧ o.isResolved = false
  /-- Beyond the declarations stand the outputs that had none, in stage order. -/
  added : (p.registry.operands.drop r.size).map (·.tag) =
    (p.stages.filter fun s => (r.find? s.spec.output).isNone).map (·.tag)
  written : ∀ s ∈ p.stages, ∃ o, p.registry.operand? s.output = some o ∧
    o.WrittenBy p.stages.length s
  /-- No operand is written twice, and no input is written. -/
  distinct : (p.stages.map (·.output)).Nodup
  notInput : ∀ s ∈ p.stages, ∀ o ∈ r.operands, o.role = .input → o.id ≠ s.output
  /-- What is read is an input, or was written in front. -/
  sources : ∀ s ∈ p.stages, ∀ i ∈ s.sources,
    (∃ o ∈ r.operands, o.role = .input ∧ o.id = i) ∨
      ∃ t ∈ p.stages, t.index < s.index ∧ t.output = i
  /-- The last stage alone writes an output; all others write intermediates. -/
  roles : ∃ front last, p.stages = front ++ [last] ∧
    (∀ o ∈ p.registry.operands, o.isResolved = true → (o.role = .output ↔ o.id = last.output)) ∧
    ∀ s ∈ front, ∀ o, p.registry.operand? s.output = some o → o.role = .intermediate

section Built

variable {r : Registry} {specs : List StageSpec} {settings : Settings} {p : Pipeline}

/-- The last stage, and the numbers of those in front of it. -/
theorem exists_last_of_build (hp : (Pipeline.build r specs settings).value = .ok p) :
    ∃ front last, p.stages = front ++ [last] ∧ last.index + 1 = p.stages.length ∧
      ∀ s ∈ front, s.index + 1 < p.stages.length := by
  obtain ⟨hspec, hindex⟩ := spec_stages_of_build hp
  have hlength : specs.length = p.stages.length := by rw [← hspec, List.length_map]
  obtain hnil | ⟨front, last, hsplit⟩ := p.stages.eq_nil_or_concat
  · have hviews : p.views = [] := by rw [Pipeline.views, hnil, List.map_nil]
    exact absurd hviews (views_ne_nil_of_build hp)
  · rw [List.concat_eq_append] at hsplit
    have hcount : p.stages.length = front.length + 1 := by simp [hsplit]
    rw [hlength, hcount, hsplit, List.map_append, List.range'_1_concat] at hindex
    obtain ⟨hfront, hlast⟩ := List.append_inj' hindex rfl
    refine ⟨front, last, hsplit, ?_, ?_⟩
    · have hlast' : last.index = 0 + front.length := by simpa using hlast
      omega
    · intro s hs
      have hmem := List.mem_map_of_mem (f := (·.index)) hs
      rw [hfront, List.mem_range'_1] at hmem
      omega

/-- **A build only extends the registry of its caller.** -/
theorem build_extends_registry (hr : r.Declared)
    (hp : (Pipeline.build r specs settings).value = .ok p) : p.Extends r := by
  obtain ⟨front, last, hsplit, hlast, hfront⟩ := exists_last_of_build hp
  have hindex : (p.stages.map (·.index)).Nodup := by
    rw [(spec_stages_of_build hp).2]
    exact List.nodup_range'
  obtain ⟨-, stages, final, placed, hall, hplace, rfl⟩ := build_eq_ok_iff.mp hp
  have hwf := hall.wellFormed hr.wellFormed
  have hext := hall.extends hr.wellFormed
  have hgrown := hall.grown_of_sites hr
  have hwritten := hgrown.exists_written_placed hplace
  refine
    { ids := ?_
      kept := hext.exists_kept hr.wellFormed hwf hplace
      inputs := hext.exists_input hr.wellFormed hwf hplace
      unwritten := hgrown.operand?_of_unwritten hr hext hplace
      added := ?_
      written := hwritten
      distinct := hgrown.nodup_outputs hindex
      notInput := ?_
      sources := hgrown.sources
      roles := ⟨front, last, hsplit, ?_, ?_⟩ }
  · intro i o ho
    obtain ⟨x, hx, hplaced⟩ := operand?_of_placed hplace ho
    exact hplaced.id_eq.trans (hwf.ids i x hx)
  · show (placed.operands.drop r.size).map (·.tag) = _
    rw [List.map_drop, map_of_placed Placed.tag_eq (placed_of_allocate hplace), hgrown.tags]
    exact List.drop_left' (List.length_map ..)
  · intro s hs o ho hrole
    exact hgrown.id_ne_output (hext.mem_of_input hr.wellFormed ho hrole) hrole hs
  · intro o ho hres
    obtain ⟨x, hx, hplaced⟩ := exists_of_mem_allocate hplace ho
    rw [Operand.isResolved, hplaced.contents_eq] at hres
    rw [hplaced.role_eq, hplaced.id_eq]
    exact hgrown.role_eq_output_iff_last hr hsplit hlast hfront hx hres
  · intro s hs o ho
    have hlt : s.index + 1 < stages.length := hfront s hs
    have hmem : s ∈ stages := by
      rw [show stages = front ++ [last] from hsplit]
      exact List.mem_append_left _ hs
    obtain ⟨w, hfind, hw⟩ := hwritten s hmem
    obtain rfl := Option.some.inj (ho.symm.trans hfind)
    rw [hw.role, roleAt, if_neg (by omega)]

end Built

/-- The sum was declared for the first stage, as an output at an odd address. It stays where it is,
although another stage reads it. -/
theorem build_extends_registry_crowded :
    ∃ p, (Pipeline.build crowdedRegistry fusedSpecs fusedSettings).value = .ok p ∧
      p.Extends crowdedRegistry ∧
      ∃ o, p.registry.operand? 3 = some o ∧ o.tag = (3, "sum", some 0) ∧
        o.location = .pinned 7 := by
  obtain ⟨p, hp⟩ := exists_build_crowded
  have hext := build_extends_registry declared_crowdedRegistry hp
  obtain ⟨o, ho, htag, hloc⟩ :=
    hext.kept ⟨3, "sum", .output, some 0, .pinned 7, none⟩ (by simp [crowdedRegistry])
  exact ⟨p, hp, hext, o, ho, htag, hloc 7 rfl⟩

end TileFusion
