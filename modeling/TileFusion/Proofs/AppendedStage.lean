import TileFusion.Proofs.RegistryGrowth

/-!
# One more stage

A pipeline can be prolonged by a stage that writes an operand of its own, and the code of the stages
in front does not depend on whether that was done. Two things look ahead and might spoil this. A
stage asks whether a later one reads its output, and gives it the role of an intermediate if so;
roles are only ever compared with that of an input, though, so two runs are the same once outputs and
intermediates are not told apart (`ResolvesAll.plain`). And placement goes through all operands: the
new one stands last and has no address of its own, so it takes nothing away from those in front
(`FirstFit.append_left`).

> `build_prolongs`: stages, operands, addresses and thread programs of the shorter pipeline are
> those of the longer one; what the last stage did not need, the signal to the unpack thread, is
> all that is added to its code.
-/

namespace TileFusion

/-! ## Without the difference between outputs and intermediates -/

/-- The role as a stage sees it, for which an intermediate is an output. -/
def Role.plain : Role → Role
  | .input => .input
  | .intermediate | .output => .output

@[simps] def Operand.plain (o : Operand) : Operand :=
  { o with role := o.role.plain }

@[simps] def Registry.plain (r : Registry) : Registry :=
  ⟨r.operands.map Operand.plain⟩

/-- The stage with no stages behind it. -/
@[simps] def Site.alone (site : Site) : Site :=
  { site with later := [] }

theorem Role.plain_eq_input_iff (role : Role) : role.plain = .input ↔ role = .input := by
  cases role <;> decide

theorem Site.outputRole_alone (site : Site) : site.alone.outputRole = site.outputRole.plain := by
  unfold outputRole
  cases site.later.any (·.reads site.spec.output) <;> rfl

namespace Registry

theorem find?_plain (r : Registry) (name : String) :
    r.plain.find? name = (r.find? name).map Operand.plain :=
  List.find?_map ..

theorem outputLocation_plain (r : Registry) (site : Site) :
    r.plain.outputLocation site.alone = r.outputLocation site := by
  unfold outputLocation
  rw [Site.alone_spec, find?_plain]
  cases r.find? site.spec.output <;> rfl

theorem settledOutput_plain (r : Registry) (site : Site) (c : Contents) :
    r.plain.settledOutput site.alone c = (r.settledOutput site c).plain := by
  unfold settledOutput
  rw [Site.alone_spec, find?_plain]
  cases r.find? site.spec.output with
  | none =>
    simp only [Option.map_none, fresh, size, Site.outputRole_alone, plain_operands,
      List.length_map]
    rfl
  | some o =>
    simp only [Option.map_some, Site.outputRole_alone]
    rfl

theorem settle_plain (r : Registry) (site : Site) (c : Contents) :
    (r.settle site c).plain = r.plain.settle site.alone c := by
  unfold settle
  rw [Site.alone_spec, find?_plain, settledOutput_plain]
  cases r.find? site.spec.output with
  | none => simp [push, plain]
  | some o =>
    simp only [Option.map_some, plain, modify, Operand.plain_id, Registry.mk.injEq]
    refine List.ext_getElem? fun i => ?_
    simp only [List.getElem?_map, List.getElem?_modify]
    cases r.operands[i]? with
    | none => rfl
    | some x =>
      by_cases hi : o.id = i <;> simp [hi]

end Registry

section Resolution

variable {settings : Settings} {r : Registry} {site : Site} {a : Operand} {b : Option Operand}
  {c : Contents} {formats : FormatPlan}

theorem Settled.plain {name : String} {o : Operand} (h : Settled r name o) :
    Settled r.plain name o.plain := by
  refine ⟨?_, h.2⟩
  rw [Registry.find?_plain, h.1]
  rfl

theorem SettledSecond.plain {name : Option String} (h : SettledSecond r name b) :
    SettledSecond r.plain name (b.map Operand.plain) := by
  cases name with
  | none =>
    rw [show b = none from h]
    rfl
  | some name =>
    obtain ⟨o, rfl, ho⟩ := h
    exact ⟨o.plain, rfl, ho.plain⟩

theorem Vacant.plain (h : Vacant r site) : Vacant r.plain site.alone := by
  intro x hx
  rw [Site.alone_spec, Registry.find?_plain, Option.map_eq_some_iff] at hx
  obtain ⟨o, ho, rfl⟩ := hx
  obtain ⟨hrole, hpending, hproducer⟩ := h o ho
  exact ⟨fun hinput => hrole ((Role.plain_eq_input_iff _).mp hinput), hpending, hproducer⟩

theorem shapeFaults_plain (spec : StageSpec) (a : Operand) (b : Option Operand) :
    shapeFaults spec a.plain (b.map Operand.plain) = shapeFaults spec a b := by
  unfold shapeFaults agreementFaults
  cases spec.arithmetic <;> cases b <;> rfl

theorem stageShape_plain (spec : StageSpec) (a : Operand) (b : Option Operand) :
    stageShape spec a.plain (b.map Operand.plain) = stageShape spec a b := by
  unfold stageShape
  cases spec.arithmetic <;> cases b <;> rfl

theorem formatRequest_plain (settings : Settings) (spec : StageSpec) (a : Operand)
    (b : Option Operand) :
    formatRequest settings spec a.plain (b.map Operand.plain) = formatRequest settings spec a b := by
  unfold formatRequest loadFormats
  cases spec.loader.reuse <;> cases b <;> rfl

/-- A stage resolves in the same way without the stages behind it. -/
theorem Resolves.plain (h : Resolves settings r site a b c formats) :
    Resolves settings r.plain site.alone a.plain (b.map Operand.plain) c formats where
  described := h.described
  sourceA := h.sourceA.plain
  sourceB := h.sourceB.plain
  shapes := by
    rw [Site.alone_spec, shapeFaults_plain]
    exact h.shapes
  vacant := h.vacant.plain
  plan := by
    rw [Site.alone_spec, formatRequest_plain]
    exact h.plan
  capacity := by
    rw [Site.alone_spec, formatRequest_plain]
    exact h.capacity
  contents := by
    rw [Site.alone_spec, stageShape_plain]
    exact h.contents
  fits := by
    rw [Registry.outputLocation_plain]
    exact h.fits

theorem stageOf_plain (settings : Settings) (r : Registry) (site : Site) (a : Operand)
    (b : Option Operand) (c : Contents) (formats : FormatPlan) :
    stageOf settings r.plain site.alone a.plain (b.map Operand.plain) c formats =
      stageOf settings r site a b c formats := by
  unfold stageOf
  simp only [Site.alone_spec, formatRequest_plain, stageShape_plain, Registry.settledOutput_plain,
    Option.map_map]
  rfl

end Resolution

section Run

variable {settings : Settings} {r final : Registry}

theorem ResolvesAll.plain {sites : List Site} {stages : List Stage}
    (h : ResolvesAll settings r sites stages final) :
    ResolvesAll settings r.plain (sites.map Site.alone) stages final.plain := by
  induction h with
  | nil r => exact .nil _
  | @cons r final site rest a b c formats stages hres _ ih =>
    rw [Registry.settle_plain] at ih
    rw [List.map_cons, ← stageOf_plain]
    exact .cons hres.plain ih

/-- Stages in a row can be cut anywhere. -/
theorem ResolvesAll.of_append {xs ys : List Site} :
    ∀ {r : Registry} {stages : List Stage}, ResolvesAll settings r (xs ++ ys) stages final →
      ∃ mid front back, ResolvesAll settings r xs front mid ∧
        ResolvesAll settings mid ys back final ∧ stages = front ++ back := by
  induction xs with
  | nil =>
    intro r stages h
    exact ⟨r, [], stages, .nil r, h, rfl⟩
  | cons x xs ih =>
    intro r stages h
    cases h with
    | cons hres hrest =>
      obtain ⟨mid, front, back, hfront, hback, rfl⟩ := ih hrest
      exact ⟨mid, _ :: front, back, .cons hres hfront, hback, rfl⟩

/-- What the stages record, and the registry that they leave, is determined. -/
theorem ResolvesAll.unique {sites : List Site} {stages stages' : List Stage} {final' : Registry}
    (h : ResolvesAll settings r sites stages final)
    (h' : ResolvesAll settings r sites stages' final') : stages = stages' ∧ final = final' := by
  have hrun := BuildState.run_of_resolvesAll h ⟨r, [], [], []⟩ rfl
  rw [BuildState.run_of_resolvesAll h' _ rfl] at hrun
  simpa [eq_comm, and_comm] using hrun

end Run

/-- Only the new stage itself is a new site, as far as the stages behind do not count. -/
theorem map_alone_sitesFrom (xs : List StageSpec) (y : StageSpec) :
    ∀ (index : Nat) (previous : Option StageSpec), ∃ previous',
      (sitesFrom index previous (xs ++ [y])).map Site.alone =
        (sitesFrom index previous xs).map Site.alone ++ [⟨index + xs.length, previous', y, []⟩] := by
  induction xs with
  | nil => exact fun index previous => ⟨previous, rfl⟩
  | cons x xs ih =>
    intro index previous
    obtain ⟨previous', h⟩ := ih (index + 1) (some x)
    refine ⟨previous', ?_⟩
    show Site.alone _ :: (sitesFrom (index + 1) (some x) (xs ++ [y])).map Site.alone = _
    rw [h, List.length_cons, show index + 1 + xs.length = index + (xs.length + 1) by omega]
    rfl

/-- The longer run is the shorter one and one more stage, whose output is a new operand that may lie
anywhere. -/
theorem ResolvesAll.exists_last {settings : Settings} {r final final' : Registry}
    {xs : List StageSpec} {y : StageSpec} {stages stages' : List Stage} (hr : r.Declared)
    (hy : r.find? y.output = none) (h : ResolvesAll settings r (sites xs) stages final)
    (h' : ResolvesAll settings r (sites (xs ++ [y])) stages' final') :
    ∃ last o, stages' = stages ++ [last] ∧ last.spec = y ∧
      final'.plain.operands = final.plain.operands ++ [o] ∧ o.location = .floating := by
  obtain ⟨previous, hsites⟩ := map_alone_sitesFrom xs y 0 none
  have hplain := h'.plain
  rw [sites, hsites] at hplain
  obtain ⟨mid, front, back, hfront, hback, rfl⟩ := hplain.of_append
  obtain ⟨rfl, rfl⟩ := hfront.unique h.plain
  generalize hfinal : final'.plain = last' at hback
  cases hback with
  | @cons _ _ _ _ a b c formats _ hres hnil =>
    cases hnil
    -- the output would have to be pending, and what is pending the caller has declared
    have hnone : final.plain.find? y.output = none := by
      cases hfind : final.find? y.output with
      | none => rw [Registry.find?_plain, hfind, Option.map_none]
      | some o =>
        have hpending := (hres.vacant o.plain (by rw [Registry.find?_plain, hfind]; rfl)).2.1
        have hdeclared := ((agrees_nil hr).resolvesAll h).pending _ o hfind hpending
        rw [hy] at hdeclared
        simp at hdeclared
    refine ⟨_, final.plain.settledOutput ⟨0 + xs.length, previous, y, []⟩ c, rfl, rfl, ?_, ?_⟩
    · simp only [Registry.settle, hnone]
      rfl
    · rw [Registry.location_settledOutput, Registry.outputLocation, hnone]
      rfl

/-! ## Placement -/

theorem spansOf_plain (os : List Operand) : spansOf (os.map Operand.plain) = spansOf os := by
  unfold spansOf
  rw [List.filterMap_map]
  rfl

theorem spansOf_append_floating {os : List Operand} {o : Operand} (h : o.location = .floating) :
    spansOf (os ++ [o]) = spansOf os := by
  have hnone : o.span? = none := by
    rw [Option.eq_none_iff_forall_ne_some]
    intro s hs
    obtain ⟨c, address, -, haddress, -⟩ := Operand.span?_eq_some_iff.mp hs
    rw [h] at haddress
    simp [Location.address?] at haddress
  simp [spansOf, hnone]

theorem FirstFit.plain {taken : List Span} {os ps : List Operand} (h : FirstFit taken os ps) :
    FirstFit taken (os.map Operand.plain) (ps.map Operand.plain) := by
  induction h with
  | nil taken => exact .nil taken
  | place hloc hc hleast _ ih => exact .place (o := Operand.plain _) hloc hc hleast ih
  | keep hkeep _ ih => exact .keep (o := Operand.plain _) hkeep ih

/-- An operand finds its place whatever stands behind it. -/
theorem FirstFit.append_left {os more : List Operand} :
    ∀ {taken : List Span} {ps : List Operand}, FirstFit taken (os ++ more) ps →
      ∃ qs rest, FirstFit taken os qs ∧ rest.length = more.length ∧ ps = qs ++ rest := by
  induction os with
  | nil =>
    intro taken ps h
    exact ⟨[], ps, .nil taken, h.placed.length_eq.symm, rfl⟩
  | cons o os ih =>
    intro taken ps h
    cases h with
    | place hloc hc hleast hrest =>
      obtain ⟨qs, rest, hqs, hlen, rfl⟩ := ih hrest
      exact ⟨_, rest, .place hloc hc hleast hqs, hlen, rfl⟩
    | keep hkeep hrest =>
      obtain ⟨qs, rest, hqs, hlen, rfl⟩ := ih hrest
      exact ⟨_, rest, .keep hkeep hqs, hlen, rfl⟩

theorem FirstFit.unique {taken : List Span} {os ps : List Operand} (h : FirstFit taken os ps) :
    ∀ {ps' : List Operand}, FirstFit taken os ps' → ps = ps' := by
  induction h with
  | nil =>
    intro ps' h'
    cases h'
    rfl
  | place hloc hc hleast _ ih =>
    intro ps' h'
    cases h' with
    | place _ hc' hleast' hrest' =>
      obtain rfl := Option.some.inj (hc.symm.trans hc')
      obtain rfl := hleast.unique hleast'
      rw [ih hrest']
    | keep hkeep _ => rcases hkeep with hne | hnone <;> simp_all
  | keep hkeep _ ih =>
    intro ps' h'
    cases h' with
    | place hloc hc _ _ => rcases hkeep with hne | hnone <;> simp_all
    | keep _ hrest' => rw [ih hrest']

/-- A last operand that may lie anywhere moves nothing. -/
theorem Registry.allocate_append {final final' placed placed' : Registry} {o : Operand}
    (ho : o.location = .floating)
    (happend : final'.plain.operands = final.plain.operands ++ [o])
    (h : final.allocate.value = .ok placed) (h' : final'.allocate.value = .ok placed') :
    ∃ o', placed'.plain.operands = placed.plain.operands ++ [o'] := by
  have hspans : spansOf final'.operands = spansOf final.operands := by
    rw [← spansOf_plain, ← Registry.plain_operands, happend, spansOf_append_floating ho,
      Registry.plain_operands, spansOf_plain]
  have hfit := (Registry.allocate_eq_ok_iff.mp h).2.plain
  have hfit' := (Registry.allocate_eq_ok_iff.mp h').2.plain
  rw [hspans, ← Registry.plain_operands, happend] at hfit'
  obtain ⟨qs, rest, hqs, hlen, hsplit⟩ := hfit'.append_left
  obtain ⟨o', rfl⟩ := List.length_eq_one_iff.mp hlen
  refine ⟨o', ?_⟩
  rw [Registry.plain_operands, hsplit, hqs.unique hfit, Registry.plain_operands]

/-! ## Code -/

@[simps] def StageView.plain (v : StageView) : StageView :=
  { v with
    bufferA := v.bufferA.plain
    bufferB := v.bufferB.plain
    output := v.output.plain }

namespace StageView

/-- No code depends on the role of an operand. -/
theorem contribution_plain (v : StageView) (t : Thread) :
    v.plain.contribution t = v.contribution t := by
  cases t <;> rfl

/-- Only the pack thread looks whether a stage follows. -/
theorem contribution_isLast (v : StageView) (last : Bool) {t : Thread} (ht : t ≠ .pack) :
    { v with isLast := last }.contribution t = v.contribution t := by
  cases t with
  | unpack => rfl
  | math => rfl
  | pack => exact absurd rfl ht

/-- A stage signals, if another one follows, and then ends. -/
theorem exists_packFront (v : StageView) : ∃ front, ∀ last : Bool,
    ({ v with isLast := last }.contribution .pack).body =
      front ++ (if last then [] else [.call .signalUnpack]) ++ [.blank] := by
  refine ⟨({ v with isLast := true }.contribution .pack).body.dropLast, ?_⟩
  intro last
  simp only [contribution, packSection, if_true, List.append_nil, List.dropLast_concat]
  rfl

end StageView

/-- The ids of the operands behind the unpackers and the packer of a stage. -/
def Stage.buffers (s : Stage) : List Nat :=
  [s.unpackedA, s.unpackedB, s.output]

/-- The buffers of a stage are operands of its pipeline. -/
theorem exists_buffer_of_build {r : Registry} {specs : List StageSpec} {settings : Settings}
    {p : Pipeline} (hr : r.Declared) (hp : (Pipeline.build r specs settings).value = .ok p)
    {s : Stage} (hs : s ∈ p.stages) : ∀ id ∈ s.buffers, ∃ o, p.registry.operand? id = some o := by
  obtain ⟨-, stages, final, placed, hall, hplace, rfl⟩ := build_eq_ok_iff.mp hp
  obtain ⟨r', site, a, b, c, formats, hres, rfl, ha, hb, out, hout, -⟩ :=
    hall.exists_resolves hr.wellFormed s hs
  obtain ⟨x, y, hx, hy, hxmem, hymem, -⟩ := hres.exists_buffers
  have hsource : ∀ z ∈ a :: b.toList, final.operand? z.id = some z := by
    intro z hz
    rcases List.mem_cons.mp hz with rfl | hz
    · exact ha
    · exact hb z (Option.mem_toList.mp hz)
  have hfound : ∀ {id o}, final.operand? id = some o → ∃ o', placed.operand? id = some o' := by
    intro id o ho
    obtain ⟨o', ho', -⟩ := operand?_of_allocate hplace ho
    exact ⟨o', ho'⟩
  simp only [Stage.buffers, List.forall_mem_cons, List.not_mem_nil, hx, hy]
  exact ⟨hfound (hsource x hxmem), hfound (hsource y hymem), hfound hout, by simp⟩

/-! ## Two builds -/

theorem operand?_of_append {placed placed' : Registry} {o : Operand}
    (h : placed'.plain.operands = placed.plain.operands ++ [o]) {id : Nat} {x : Operand}
    (hx : placed.operand? id = some x) :
    ∃ x', placed'.operand? id = some x' ∧ x'.plain = x.plain := by
  have hfound : placed.plain.operands[id]? = some x.plain := by
    rw [Registry.plain_operands, List.getElem?_map, show placed.operands[id]? = some x from hx]
    rfl
  have hfound' : placed'.plain.operands[id]? = some x.plain := by
    obtain ⟨hid, -⟩ := List.getElem?_eq_some_iff.mp hfound
    rw [h, List.getElem?_append_left hid, hfound]
  rw [Registry.plain_operands, List.getElem?_map, Option.map_eq_some_iff] at hfound'
  exact hfound'

theorem Operand.eq_of_plain {o o' : Operand} (h : o'.plain = o.plain) :
    o' = { o with role := o'.role } := by
  have hsame : ∀ x : Operand, { x.plain with role := o'.role } = { x with role := o'.role } :=
    fun _ => rfl
  calc o'
    _ = { o'.plain with role := o'.role } := rfl
    _ = { o.plain with role := o'.role } := by rw [h]
    _ = { o with role := o'.role } := hsame o

/-- The pipeline `q` has the stages of `p` and `last` behind them, and the operands of `p`, which may
have other roles. -/
structure Pipeline.Continues (p q : Pipeline) (last : Stage) : Prop where
  settings : q.settings = p.settings
  stages : q.stages = p.stages ++ [last]
  operands : ∀ id o, p.registry.operand? id = some o →
    ∃ o', q.registry.operand? id = some o' ∧ o'.plain = o.plain

theorem continues_of_build {r : Registry} {xs : List StageSpec} {y : StageSpec}
    {settings : Settings} {p q : Pipeline} (hr : r.Declared) (hy : r.find? y.output = none)
    (hp : (Pipeline.build r xs settings).value = .ok p)
    (hq : (Pipeline.build r (xs ++ [y]) settings).value = .ok q) :
    ∃ last, last.spec = y ∧ p.Continues q last := by
  obtain ⟨-, stages, final, placed, hall, hplace, rfl⟩ := build_eq_ok_iff.mp hp
  obtain ⟨-, stages', final', placed', hall', hplace', rfl⟩ := build_eq_ok_iff.mp hq
  obtain ⟨last, o, hstages, hspec, happend, ho⟩ := hall.exists_last hr hy hall'
  obtain ⟨o', hplaced⟩ := Registry.allocate_append ho happend hplace hplace'
  exact ⟨last, hspec, rfl, hstages, fun id x hx => operand?_of_append hplaced hx⟩

namespace Pipeline.Continues

variable {p q : Pipeline} {last s : Stage}

/-- A stage has the same code in both pipelines, as far as it is not the last one of `p`. -/
theorem contribution_eq (h : p.Continues q last)
    (hbuffers : ∀ id ∈ s.buffers, ∃ o, p.registry.operand? id = some o) (t : Thread) :
    (q.view s).contribution t = { p.view s with isLast := q.isLast s }.contribution t := by
  have hplain : ∀ id ∈ s.buffers, (q.operand id).plain = (p.operand id).plain := by
    intro id hid
    obtain ⟨o, ho⟩ := hbuffers id hid
    obtain ⟨o', ho', hsame⟩ := h.operands id o ho
    unfold Pipeline.operand
    rw [ho, ho']
    exact hsame
  have hA := hplain s.unpackedA (by simp [Stage.buffers])
  have hB := hplain s.unpackedB (by simp [Stage.buffers])
  have hout := hplain s.output (by simp [Stage.buffers])
  have hview : (q.view s).plain = { p.view s with isLast := q.isLast s }.plain := by
    simp only [StageView.plain, Pipeline.view, hA, hB, hout, h.settings]
  rw [← StageView.contribution_plain, hview, StageView.contribution_plain]

/-- No stage of `p` is the last one of `q`. -/
theorem isLast_eq_false (h : p.Continues q last) (hindex : s.index < p.stages.length) :
    q.isLast s = false := by
  unfold Pipeline.isLast
  rw [h.stages, List.length_append, List.length_singleton, beq_eq_false_iff_ne]
  omega

theorem body_eq (h : p.Continues q last) (t : Thread) :
    (q.lower.thread t).body =
      (p.stages.flatMap fun s => ((q.view s).contribution t).body) ++
        ((q.view last).contribution t).body := by
  rw [Pipeline.body_thread, Pipeline.views, h.stages, List.flatMap_map, List.flatMap_append]
  simp

/-- Of the stages of `p` only the last one takes notice, since it is last in `p` alone. -/
theorem exists_pack_eq (h : p.Continues q last)
    (hcode : ∀ s ∈ p.stages, ∀ t, (q.view s).contribution t =
      { p.view s with isLast := false }.contribution t)
    {before : List Stage} {final : Stage} (hsplit : p.stages = before ++ [final])
    (hfinal : final.index + 1 = p.stages.length)
    (hbefore : ∀ s ∈ before, s.index + 1 < p.stages.length) :
    ∃ front, (p.lower.thread .pack).body = front ++ [.blank] ∧
      (q.lower.thread .pack).body =
        front ++ [.call .signalUnpack, .blank] ++ ((q.view last).contribution .pack).body := by
  have hmem : ∀ s, s ∈ before ∨ s = final → s ∈ p.stages := by
    intro s hs
    rw [hsplit]
    simpa using hs
  have hself : ∀ (s : Stage) (b : Bool), p.isLast s = b →
      ((p.view s).contribution .pack).body =
        ({ p.view s with isLast := b }.contribution .pack).body := by
    intro s b hb
    subst hb
    rfl
  have hsame : ∀ s ∈ before, ((q.view s).contribution .pack).body =
      ((p.view s).contribution .pack).body := by
    intro s hs
    have hne : p.isLast s = false := by
      rw [Pipeline.isLast, beq_eq_false_iff_ne]
      exact Nat.ne_of_lt (hbefore s hs)
    rw [hcode s (hmem s (.inl hs)), hself s false hne]
  have hlast : p.isLast final = true := by
    rw [Pipeline.isLast, hfinal, beq_self_eq_true]
  obtain ⟨front, hfront⟩ := (p.view final).exists_packFront
  refine ⟨(before.flatMap fun s => ((p.view s).contribution .pack).body) ++ front, ?_, ?_⟩
  · rw [Pipeline.body_thread, Pipeline.views, List.flatMap_map, hsplit, List.flatMap_append,
      List.flatMap_singleton, hself final true hlast, hfront]
    simp
  · rw [h.body_eq, hsplit, List.flatMap_append, List.flatMap_congr hsame,
      List.flatMap_singleton, hcode final (hmem final (.inr rfl)), hfront]
    simp

end Pipeline.Continues

/-- The pipeline `q` is `p` with the stage `last` behind it. -/
structure Pipeline.Prolongs (p q : Pipeline) (last : Stage) : Prop where
  stages : q.stages = p.stages ++ [last]
  /-- An operand keeps all but its role: id, name, shape, format, size and address. -/
  operands : ∀ id o, p.registry.operand? id = some o →
    ∃ o', q.registry.operand? id = some o' ∧ o' = { o with role := o'.role }
  /-- The unpack thread and the math thread go on where they ended. -/
  body : ∀ t, t ≠ .pack → (q.lower.thread t).body =
    (p.lower.thread t).body ++ ((q.view last).contribution t).body
  /-- So does the pack thread, but first it signals that its last output can be read. -/
  pack : ∃ front, (p.lower.thread .pack).body = front ++ [.blank] ∧
    (q.lower.thread .pack).body =
      front ++ [.call .signalUnpack, .blank] ++ ((q.view last).contribution .pack).body

section Built

variable {r : Registry} (xs : List StageSpec) (y : StageSpec) {settings : Settings}
  {p q : Pipeline}

/-- **A stage that writes an operand of its own can be added without touching the stages in
front.** -/
theorem build_prolongs (hr : r.Declared) (hy : r.find? y.output = none)
    (hp : (Pipeline.build r xs settings).value = .ok p)
    (hq : (Pipeline.build r (xs ++ [y]) settings).value = .ok q) :
    ∃ last, last.spec = y ∧ p.Prolongs q last := by
  obtain ⟨last, hspec, hcont⟩ := continues_of_build hr hy hp hq
  obtain ⟨before, final, hsplit, hfinal, hbefore⟩ := exists_last_of_build hp
  have hindex : ∀ s ∈ p.stages, s.index < p.stages.length := by
    intro s hs
    rw [hsplit, List.mem_append, List.mem_singleton] at hs
    rcases hs with hs | rfl
    · have := hbefore s hs
      omega
    · omega
  have hcode : ∀ s ∈ p.stages, ∀ t, (q.view s).contribution t =
      { p.view s with isLast := false }.contribution t := by
    intro s hs t
    rw [hcont.contribution_eq (exists_buffer_of_build hr hp hs),
      hcont.isLast_eq_false (hindex s hs)]
  refine ⟨last, hspec, hcont.stages, ?_, ?_, ?_⟩
  · intro id o ho
    obtain ⟨o', ho', hplain⟩ := hcont.operands id o ho
    exact ⟨o', ho', Operand.eq_of_plain hplain⟩
  · intro t ht
    rw [hcont.body_eq, Pipeline.body_thread, Pipeline.views, List.flatMap_map]
    congr 1
    refine List.flatMap_congr fun s hs => ?_
    rw [hcode s hs, StageView.contribution_isLast _ _ ht]
  · exact hcont.exists_pack_eq hcode hsplit hfinal hbefore

end Built

/-- The factors of the product. -/
def productRegistry : Registry :=
  columnRegistry ⟨⟨64, 96⟩, .float16b, 6, 12288⟩

/-- Batches of four tiles. -/
def productSettings : Settings :=
  { fusedSettings with batchSize := 4 }

/-- The copy behind the product: what the product writes becomes an intermediate, and stays where it
is. -/
theorem build_prolongs_product :
    ∃ p q last,
      (Pipeline.build productRegistry (productSpecs.take 1) productSettings).value = .ok p ∧
      (Pipeline.build productRegistry productSpecs productSettings).value = .ok q ∧
      last.spec.output = "copy" ∧ p.Prolongs q last ∧
      (∃ o, p.registry.operand? 2 = some o ∧ o.role = .output) ∧
      ∃ o, q.registry.operand? 2 = some o ∧ o.role = .intermediate := by
  have hr : productRegistry.Declared :=
    .input "b" ⟨64, 96⟩ .float16b none declared_columnInput rfl
  obtain ⟨p, hp, hrole⟩ := exists_build_of_any productRegistry (productSpecs.take 1)
    productSettings (fun p => (p.registry.operand? 2).any (·.role == .output)) (by decide +kernel)
  obtain ⟨q, hq, hrole'⟩ := exists_build_of_any productRegistry productSpecs productSettings
    (fun q => (q.registry.operand? 2).any (·.role == .intermediate)) (by decide +kernel)
  obtain ⟨last, hspec, hprolongs⟩ :=
    build_prolongs (productSpecs.take 1) _ hr (by decide) hp hq
  rw [Option.any_eq_true] at hrole hrole'
  exact ⟨p, q, last, hp, hq, by rw [hspec], hprolongs, by simpa using hrole,
    by simpa using hrole'⟩

end TileFusion
