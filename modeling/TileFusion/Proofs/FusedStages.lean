import TileFusion.Proofs.TileBounds
import Mathlib.Data.List.Chain

/-!
# Neighbouring stages

A stage behind the first takes one operand out of the accumulator, and that operand is the output of
the stage in front. Only units that keep the shape of their operands may do so, and this has a
consequence that no check states: all outputs of a pipeline have one shape, so all its stages run
through their tiles in the same batches.

> `Follows`: how a stage stands to the one in front of it;
> `isChain_views`: in a built pipeline every stage follows the one in front.
-/

namespace TileFusion

theorem Settled.unique {r : Registry} {name : String} {o o' : Operand} (h : Settled r name o)
    (h' : Settled r name o') : o = o' :=
  Option.some.inj (h.1.symm.trans h'.1)

/-- What is written keeps the shape of what is taken over. -/
theorem Resolves.dims_of_previous {settings : Settings} {r : Registry} {site : Site} {a : Operand}
    {b : Option Operand} {c : Contents} {formats : FormatPlan}
    (h : Resolves settings r site a b c formats) {previous : StageSpec} {o : Operand}
    (hprev : site.previous = some previous) (ho : Settled r previous.output o) :
    c.dims = o.dims := by
  obtain ⟨hchain, hcomb⟩ := (descriptionCauses_eq_nil_iff _ _).mp h.described
  have hfit := (shapeFaults_eq_nil_iff _ _ _).mp h.shapes
  rw [hprev] at hchain
  obtain ⟨hreuse, hname⟩ := hchain
  obtain ⟨hkind, harith⟩ := hcomb.reuse hreuse
  have hshape : c.dims = a.dims := by
    rw [Contents.dims_of? h.contents, stageShape_of_ne_matmul]
    obtain harith | ⟨op, harith⟩ := harith <;> simp [harith]
  rw [hshape]
  unfold Loader.reused at hname
  cases hr : site.spec.loader.reuse with
  | none => exact absurd hr hreuse
  | sourceA =>
    simp only [hr, Option.some.injEq] at hname
    have ha := h.sourceA
    rw [hname] at ha
    rw [ha.unique ho]
  | sourceB =>
    simp only [hr] at hname
    have hb := h.sourceB
    rw [hname] at hb
    obtain ⟨o', rfl, ho'⟩ := hb
    obtain rfl := ho'.unique ho
    obtain hcopy | ⟨op, hop⟩ := harith
    · -- a copy takes the accumulator alone, and here the first source comes from memory
      have hcount := hcomb.count
      simp [Loader.fresh, freshWanted, hr, hcopy] at hcount
    · exact hfit.equal op hop (by simp [hkind, LoaderKind.spread]) o' rfl

/-! ## Along the stages -/

/-- The stage `t` comes right behind `s`: it takes over what `s` has written, and writes just as
much. -/
structure Stage.Follows (final : Registry) (s t : Stage) : Prop where
  index : t.index = s.index + 1
  reused : t.spec.loader.reused = some s.spec.output
  dims : ∃ o o', final.operand? s.output = some o ∧ final.operand? t.output = some o' ∧
    o'.dims = o.dims

/-- One step: a resolved stage is followed by the next one that is resolved. -/
theorem Resolves.follows {settings : Settings} {r final : Registry} {site next : Site}
    {a a' : Operand} {b b' : Option Operand} {c c' : Contents} {formats formats' : FormatPlan}
    (hr : r.WellFormed) (h : Resolves settings r site a b c formats)
    (h' : Resolves settings (r.settle site c) next a' b' c' formats')
    (hindex : next.index = site.index + 1) (hprev : next.previous = some site.spec)
    (hext : ((r.settle site c).settle next c').Extends final) (hfinal : final.WellFormed) :
    Stage.Follows final (stageOf settings r site a b c formats)
      (stageOf settings (r.settle site c) next a' b' c' formats') := by
  have hout := Registry.settled_settle hr site c
  have hsettled := h.wellFormed hr
  have hout' := Registry.settled_settle hsettled next c'
  have hkept := (Registry.extends_settle hsettled h'.vacant c').trans hext
  have hchain := ((descriptionCauses_eq_nil_iff _ _).mp h'.described).1
  rw [hprev] at hchain
  refine ⟨hindex, hchain.2, _, _, hkept.operand?_eq hfinal hout, hext.operand?_eq hfinal hout', ?_⟩
  rw [Operand.dims_of_contents (Registry.contents_settledOutput ..)]
  exact h'.dims_of_previous hprev hout

theorem ResolvesAll.isChain {settings : Settings} {final : Registry} {specs : List StageSpec} :
    ∀ {r : Registry} {index : Nat} {previous : Option StageSpec} {stages : List Stage},
      ResolvesAll settings r (sitesFrom index previous specs) stages final → r.WellFormed →
      stages.IsChain (Stage.Follows final) := by
  induction specs with
  | nil =>
    intro r index previous stages h _
    cases h
    exact .nil
  | cons spec specs ih =>
    intro r index previous stages h hr
    cases h with
    | cons hsite hrest =>
      have hsettled := hsite.wellFormed hr
      have hfinal := hrest.wellFormed hsettled
      refine List.isChain_cons.mpr ⟨?_, ih hrest hsettled⟩
      intro t ht
      -- the stage behind this one is the first of the rest
      cases specs with
      | nil =>
        cases hrest
        simp at ht
      | cons next specs =>
        cases hrest with
        | cons hnext hlast =>
          obtain rfl := Option.some.inj ht
          exact hsite.follows hr hnext rfl rfl (hlast.extends (hnext.wellFormed hsettled)) hfinal

/-! ## Along the views -/

/-- The same, said of what lowering sees. -/
structure StageView.Follows (w v : StageView) : Prop where
  index : v.index = w.index + 1
  reused : v.loader.reused = some w.stage.spec.output
  tiles : v.output.tiles = w.output.tiles

section Built

variable {r : Registry} {specs : List StageSpec} {settings : Settings} {p : Pipeline}

/-- Placement leaves shapes alone. -/
theorem Stage.Follows.dims_eq {final placed : Registry} {stages : List Stage} {s t : Stage}
    (h : Stage.Follows final s t) (hplace : final.allocate.value = .ok placed) :
    ((⟨settings, stages, placed⟩ : Pipeline).operand t.output).dims =
      ((⟨settings, stages, placed⟩ : Pipeline).operand s.output).dims := by
  obtain ⟨o, o', ho, ho', hdims⟩ := h.dims
  rw [Operand.dims_congr (contents_operand settings stages hplace ho'),
    Operand.dims_congr (contents_operand settings stages hplace ho), hdims]

/-- In a built pipeline every stage follows the one in front. -/
theorem isChain_views (hr : r.Declared) (hp : (Pipeline.build r specs settings).value = .ok p) :
    p.views.IsChain StageView.Follows := by
  have hmeasured := measured_of_build hr hp
  obtain ⟨-, stages, final, placed, hall, hplace, rfl⟩ := build_eq_ok_iff.mp hp
  have hchain : stages.IsChain (Stage.Follows final) := hall.isChain hr.wellFormed
  refine (List.isChain_map _).mpr (hchain.imp_of_mem_imp ?_)
  intro s t hs ht hfollows
  refine ⟨hfollows.index, hfollows.reused, ?_⟩
  have hs' := hmeasured _ (List.mem_map_of_mem hs)
  have ht' := hmeasured _ (List.mem_map_of_mem ht)
  -- both outputs are counted by their shapes
  exact ht'.countedOutput.tiles_eq hs'.countedOutput (hfollows.dims_eq hplace)

theorem isChain_dims (hr : r.Declared) (hp : (Pipeline.build r specs settings).value = .ok p) :
    p.views.IsChain fun w v => v.output.dims = w.output.dims := by
  obtain ⟨-, stages, final, placed, hall, hplace, rfl⟩ := build_eq_ok_iff.mp hp
  have hchain : stages.IsChain (Stage.Follows final) := hall.isChain hr.wellFormed
  exact (List.isChain_map _).mpr (hchain.imp fun _ _ hfollows => hfollows.dims_eq hplace)

/-- Where a stage stands: behind as many stages as its number says. -/
theorem Pipeline.Ordered.exists_split (h : p.Ordered) {v : StageView} (hv : v ∈ p.views) :
    ∃ front back, p.views = front ++ v :: back ∧ front.length = v.index := by
  obtain ⟨front, back, hsplit⟩ := List.append_of_mem hv
  refine ⟨front, back, hsplit, ?_⟩
  have hindex := congrArg (·[front.length]?) h.index
  rw [hsplit] at hindex
  simp only [List.map_append, List.map_cons, List.length_append, List.length_cons] at hindex
  rw [List.getElem?_append_right (by simp), List.getElem?_range' (by omega)] at hindex
  simpa using hindex.symm

/-- Behind the first stage stands one that follows. -/
theorem Pipeline.Ordered.exists_previous (h : p.Ordered) (hchain : p.views.IsChain StageView.Follows)
    {v : StageView} (hv : v ∈ p.views) (hpos : 0 < v.index) :
    ∃ front w back, p.views = front ++ w :: v :: back ∧ w.Follows v := by
  obtain ⟨front, back, hsplit, hlen⟩ := h.exists_split hv
  obtain rfl | ⟨front, w, rfl⟩ := front.eq_nil_or_concat
  · simp at hlen
    omega
  · rw [List.concat_eq_append, List.append_assoc, List.singleton_append] at hsplit
    refine ⟨front, w, back, hsplit, ?_⟩
    rw [hsplit] at hchain
    exact (List.isChain_append_cons_cons.mp hchain).2.1

end Built

end TileFusion
