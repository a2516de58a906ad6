import TileFusion.Proofs.BuiltStages
import TileFusion.Proofs.Handshakes

/-!
# The stages of a kernel hand over in order

The three threads of a built pipeline, started together on an idle device and left to run in any
order. The invariants of `Handshakes` hold when they start, since every section of a thread has its
waits, reports and claims in the right places; and the schedule of `Schedule` comes to an end, so
every other one does. Together:

> `stages_hand_over`: at every moment of every run, a stage only loads what the stages in front have
> written, its arithmetic only takes tiles that it has loaded, no thread is stuck unless all are
> through, and when they are the device is idle again.
-/

namespace TileFusion

namespace StageView

variable {v : StageView}

/-! ## What the sections of a stage contain -/

theorem effect_unpackEvents (h : v.Fed) : ∀ e ∈ v.unpackEvents,
    e.call.effect = .silent ∨ e.call.effect = .awaitOutput ∨ e.call.effect = .load := by
  obtain ⟨⟨hinit, -⟩, load, hload, heffect, -⟩ := exists_load h
  obtain ⟨config, hconfig, -, heq⟩ := unpackEvents_eq hload
  rw [heq]
  intro e he
  rcases List.mem_cons.mp he with rfl | he
  · exact .inl hconfig
  rcases List.mem_append.mp he with he | he
  · split at he
    · simp at he
    · rw [List.mem_singleton.mp he]
      exact .inr (.inl rfl)
  · obtain ⟨x, -, he⟩ := List.mem_flatMap.mp he
    rcases List.mem_cons.mp he with rfl | he
    · exact .inl hinit
    · exact .inr (.inr (effect_map heffect _ e he))

theorem effect_mathEvents : ∀ e ∈ v.mathEvents, e.call.effect = .silent ∨
    e.call.effect = .compute ∨ e.call.effect = .claim ∨ e.call.effect = .fill := by
  obtain ⟨configs, compute, claim, fill, before, behind, hconfigs, hcompute, -, hclaim, hfill,
    hbefore, hbehind, heq⟩ := v.mathEvents_eq
  rw [heq]
  intro e he
  rcases List.mem_append.mp he with he | he
  · exact .inl (hconfigs e he)
  obtain ⟨x, -, he⟩ := List.mem_flatMap.mp he
  simp only [List.mem_cons, List.mem_append, List.not_mem_nil, or_false] at he
  rcases he with rfl | ((he | he) | he) | rfl
  · exact .inr (.inr (.inl hclaim))
  · exact .inl (hbefore x e he)
  · exact .inr (.inl (effect_map hcompute _ e he))
  · exact .inl (hbehind x e he)
  · exact .inr (.inr (.inr (effect_of_fill? hfill)))

theorem effect_packEvents : ∀ e ∈ v.packEvents, e.call.effect = .silent ∨
    e.call.effect = .awaitFilled ∨ e.call.effect = .release ∨ e.call.effect = .reportOutput := by
  obtain ⟨configs, masks, pack, release, hconfigs, hmasks, hpack, -, hrelease, -, heq⟩ :=
    v.packEvents_eq
  rw [heq]
  intro e he
  simp only [List.mem_append, List.mem_flatMap, List.mem_cons, List.not_mem_nil, or_false] at he
  rcases he with ((he | ⟨x, -, rfl | he | rfl⟩) | he) | he
  · exact .inl (hconfigs e he).1
  · exact .inr (.inl rfl)
  · exact .inl (effect_map hpack _ e he)
  · exact .inr (.inr (.inl hrelease))
  · exact .inl (hmasks e he).1
  · split at he
    · simp at he
    · rw [List.mem_singleton.mp he]
      exact .inr (.inr (.inr rfl))

/-- In the unpack thread the wait for an output stands in front of all loads of the stage. -/
theorem timed_unpackEvents (h : v.Fed) (n behind : Nat) (hn : v.index + 1 + behind = n) :
    Timed .awaitOutput Call.load? n behind v.unpackEvents ∧
      count .awaitOutput v.unpackEvents = if v.index = 0 then 0 else 1 := by
  obtain ⟨⟨hinit, -⟩, load, hload, heffect, hstage⟩ := exists_load h
  obtain ⟨config, hconfig, -, heq⟩ := unpackEvents_eq hload
  have hwork : ∀ e ∈ v.batchTurns.flatMap fun x =>
      (⟨v.unpacking.init, x.2⟩ : Event) :: (v.workTurns x).map (Event.mk load),
      e.call.effect ≠ .awaitOutput ∧ ∀ s, e.call.load? = some s → s = v.index := by
    intro e he
    obtain ⟨x, -, he⟩ := List.mem_flatMap.mp he
    rcases List.mem_cons.mp he with rfl | he
    · rw [hinit, load?_eq_none (by rw [hinit]; simp)]
      simp
    · obtain ⟨turn, -, rfl⟩ := List.mem_map.mp he
      rw [heffect, hstage]
      simp [eq_comm]
  have hnowait := count_eq_zero.mpr fun e he => (hwork e he).1
  rw [heq]
  constructor
  · refine ⟨?_, timed_append.mpr ⟨timed_of_none ?_, timed_of_count_eq_zero
      (fun e he => (hwork e he).1) fun e he s hs => ?_⟩⟩
    · rw [load?_eq_none (by rw [hconfig]; simp)]
      simp
    · split <;> simp [Call.load?]
    · rw [(hwork e he).2 s hs]
      exact hn
  · rw [count_cons, count_append, hnowait, hconfig]
    split <;> simp [Call.effect]

/-- In the pack thread all packs of the stage stand in front of its report. -/
theorem timed_packEvents (v : StageView) (n behind : Nat)
    (hn : v.index + 1 + ((if v.isLast = true then 0 else 1) + behind) = n) :
    Timed .reportOutput Call.pack? n behind v.packEvents ∧
      count .reportOutput v.packEvents = if v.isLast = true then 0 else 1 := by
  obtain ⟨configs, masks, pack, release, hconfigs, hmasks, hpack, hstage, hrelease, hnone, heq⟩ :=
    v.packEvents_eq
  have hwork : ∀ e ∈ configs ++ (v.batchTurns.flatMap fun x =>
      (⟨.packWaitForMath, x.2⟩ : Event) ::
        ((x.1.turns x.2).map (Event.mk pack) ++ [⟨release, x.2⟩])) ++ masks,
      e.call.effect ≠ .reportOutput ∧ ∀ s, e.call.pack? = some s → s = v.index := by
    intro e he
    simp only [List.mem_append, List.mem_flatMap, List.mem_cons, List.not_mem_nil, or_false,
      List.mem_map] at he
    rcases he with (he | ⟨x, -, rfl | ⟨turn, -, rfl⟩ | rfl⟩) | he
    · rw [(hconfigs e he).1, (hconfigs e he).2]
      simp
    · simp [Call.effect, Call.pack?]
    · rw [hpack, hstage]
      simp [eq_comm]
    · rw [hrelease, hnone]
      simp
    · rw [(hmasks e he).1, (hmasks e he).2]
      simp
  have hreport : count .reportOutput
      (if v.isLast = true then [] else [(⟨.signalUnpack, .start⟩ : Event)]) =
        if v.isLast = true then 0 else 1 := by
    split <;> simp [Call.effect]
  rw [heq]
  constructor
  · refine timed_append.mpr ⟨timed_of_count_eq_zero (fun e he => (hwork e he).1)
      fun e he s hs => ?_, timed_of_none ?_⟩
    · rw [(hwork e he).2 s hs, hreport]
      exact hn
    · split <;> simp [Call.pack?]
  · rw [count_append, count_eq_zero.mpr fun e he => (hwork e he).1, hreport, Nat.zero_add]

/-- In the math thread every section that is claimed is handed on before the next one. -/
theorem alternates_mathEvents : Alternates .claim .fill false v.mathEvents := by
  obtain ⟨configs, compute, claim, fill, before, behind, hconfigs, hcompute, -, hclaim, hfill,
    hbefore, hbehind, heq⟩ := v.mathEvents_eq
  rw [heq]
  refine Alternates.prepend (fun e he => by rw [hconfigs e he]; simp) ?_
  refine Alternates.flatMap fun x _ =>
    Alternates.visit hclaim (fun e he => ?_) (effect_of_fill? hfill) (by simp)
  rcases List.mem_append.mp he with he | he
  · rcases List.mem_append.mp he with he | he
    · rw [hbefore x e he]
      simp
    · rw [effect_map hcompute _ e he]
      simp
  · rw [hbehind x e he]
    simp

/-- In the pack thread every section that is waited for is freed before the next one. -/
theorem alternates_packEvents : Alternates .awaitFilled .release false v.packEvents := by
  obtain ⟨configs, masks, pack, release, hconfigs, hmasks, hpack, -, hrelease, -, heq⟩ :=
    v.packEvents_eq
  have hend : Alternates .awaitFilled .release false
      (masks ++ if v.isLast = true then [] else [⟨.signalUnpack, .start⟩]) := by
    refine Alternates.prepend (fun e he => by rw [(hmasks e he).1]; simp) ?_
    split <;> simp [Alternates, Call.effect]
  rw [heq, List.append_assoc, List.append_assoc]
  refine Alternates.prepend (fun e he => by rw [(hconfigs e he).1]; simp) (hend.append ?_)
  refine Alternates.flatMap fun x _ => Alternates.visit rfl (fun e he => ?_) hrelease (by simp)
  rw [effect_map hpack _ e he]
  simp

theorem turnsOf_load (h : v.Fed) :
    turnsOf .load v.unpackEvents = v.batchTurns.flatMap v.workTurns := by
  obtain ⟨⟨hinit, -⟩, load, hload, heffect, -⟩ := exists_load h
  obtain ⟨config, hconfig, -, hunpack⟩ := unpackEvents_eq hload
  rw [hunpack, turnsOf_cons, if_neg (by simp [hconfig]), turnsOf_append, turnsOf_flatMap,
    turnsOf_eq_nil (by split <;> simp [Call.effect]), List.nil_append]
  simp [hinit, turnsOf_map _ heffect]

theorem turnsOf_compute (v : StageView) :
    turnsOf .compute v.mathEvents = v.batchTurns.flatMap v.workTurns := by
  obtain ⟨configs, compute, claim, fill, before, behind, hconfigs, hcompute, -, hclaim, hfill,
    hbefore, hbehind, hmath⟩ := v.mathEvents_eq
  rw [hmath, turnsOf_append, turnsOf_eq_nil fun e he => by rw [hconfigs e he]; simp,
    List.nil_append, turnsOf_flatMap]
  congr 1
  funext x
  have hb : turnsOf .compute (before x) = [] :=
    turnsOf_eq_nil fun e he => by rw [hbefore x e he]; simp
  have he : turnsOf .compute (behind x) = [] :=
    turnsOf_eq_nil fun e he => by rw [hbehind x e he]; simp
  simp [hclaim, effect_of_fill? hfill, hb, he, turnsOf_map _ hcompute]

/-- The loads of a stage bring in its own tiles. -/
theorem loaded_unpackEvents (h : v.Fed) :
    loaded v.unpackEvents = (v.batchTurns.flatMap v.workTurns).map (Prod.mk (some v.index)) := by
  obtain ⟨⟨hinit, -⟩, load, hload, -, hstage⟩ := exists_load h
  obtain ⟨config, hconfig, -, hunpack⟩ := unpackEvents_eq hload
  rw [← turnsOf_load h]
  refine loaded_eq_map fun e he heff => ?_
  rw [hunpack, List.mem_cons, List.mem_append, List.mem_flatMap] at he
  obtain rfl | he | ⟨x, -, he⟩ := he
  · simp [hconfig] at heff
  · split at he
    · simp at he
    · rw [List.mem_singleton.mp he] at heff
      simp [Call.effect] at heff
  · obtain rfl | he := List.mem_cons.mp he
    · simp [hinit] at heff
    · obtain ⟨turn, -, rfl⟩ := List.mem_map.mp he
      exact hstage

/-- The arithmetic of a stage works into its own sections. -/
theorem serves_mathEvents (v : StageView) : Serves v.index v.mathEvents := by
  obtain ⟨configs, compute, claim, fill, before, behind, hconfigs, hcompute, -, hclaim, hfill,
    hbefore, hbehind, heq⟩ := v.mathEvents_eq
  rw [heq]
  refine (Serves.of_idle fun e he => by rw [hconfigs e he]; simp).append
    (Serves.flatMap fun x _ => ?_)
  rw [← List.cons_append]
  refine Serves.of_fill hfill fun e he => ?_
  simp only [List.mem_cons, List.mem_append] at he
  rcases he with rfl | (he | he) | he
  · rw [hclaim]
    simp
  · rw [hbefore x e he]
    simp
  · rw [effect_map hcompute _ e he]
    simp
  · rw [hbehind x e he]
    simp

end StageView

/-! ## The start of a run -/

/-- An idle device with the calls of a pipeline before it. -/
def Pipeline.device (p : Pipeline) : Device :=
  ⟨fun t => (p.lower.thread t).events, .between 0 p.settings.destSync.sections⟩

theorem Pipeline.rest_device (p : Pipeline) :
    p.device.rest = threads (p.views.flatMap (·.unpackEvents)) (p.views.flatMap (·.mathEvents))
      (p.views.flatMap (·.packEvents)) := by
  funext t
  cases t <;> exact p.events_thread _

/-- The arithmetic takes the tiles of the stages in a row. -/
theorem taken_views (views : List StageView) :
    taken (views.flatMap (·.mathEvents)) = views.flatMap fun v =>
      (v.batchTurns.flatMap v.workTurns).map (Prod.mk (some v.index)) := by
  induction views with
  | nil => rfl
  | cons v views ih =>
    rw [List.flatMap_cons, List.flatMap_cons, v.serves_mathEvents, StageView.turnsOf_compute, ih]

/-- Waits and reports of the stages from `first` on. -/
theorem timed_views {n : Nat} {views : List StageView} :
    ∀ {first : Nat}, views.map (·.index) = List.range' first views.length →
      n = first + views.length → (∀ v ∈ views, v.Fed) →
      (∀ v ∈ views, v.isLast = true ↔ v.index + 1 = n) →
      (Timed .awaitOutput Call.load? n 0 (views.flatMap (·.unpackEvents)) ∧
        count .awaitOutput (views.flatMap (·.unpackEvents)) =
          views.length - if first = 0 then 1 else 0) ∧
      Timed .reportOutput Call.pack? n 0 (views.flatMap (·.packEvents)) ∧
        count .reportOutput (views.flatMap (·.packEvents)) = views.length - 1 := by
  induction views with
  | nil =>
    intro first _ _ _ _
    simp [Timed]
  | cons v views ih =>
    intro first hindex hn hfed hlast
    obtain ⟨hv, hrest⟩ :
        v.index = first ∧ views.map (·.index) = List.range' (first + 1) views.length := by
      simpa [List.range'_succ] using hindex
    rw [List.length_cons] at hn
    have hfirst : (if first + 1 = 0 then 1 else 0) = 0 := if_neg (Nat.succ_ne_zero first)
    obtain ⟨⟨hloads, hwaits⟩, hpacks, hreports⟩ := ih hrest (by omega)
      (fun w hw => hfed w (List.mem_cons_of_mem _ hw))
      fun w hw => hlast w (List.mem_cons_of_mem _ hw)
    -- behind the reports of this stage stands one for each stage but the last
    have hbehind : (if v.isLast = true then 0 else 1) + (views.length - 1) = views.length := by
      have hend := hlast v (List.mem_cons_self ..)
      split <;> rename_i h
      · have := hend.mp h
        omega
      · have : v.index + 1 ≠ n := fun heq => h (hend.mpr heq)
        omega
    rw [hfirst, Nat.sub_zero] at hwaits
    obtain ⟨hload, hwait⟩ := StageView.timed_unpackEvents (hfed v (List.mem_cons_self ..)) n
      (count .awaitOutput (views.flatMap (·.unpackEvents))) (by omega)
    obtain ⟨hpack, hreport⟩ := v.timed_packEvents n
      (count .reportOutput (views.flatMap (·.packEvents))) (by rw [hreports, hbehind]; omega)
    simp only [List.flatMap_cons, List.length_cons]
    refine ⟨⟨timed_append.mpr ⟨hload, hloads⟩, ?_⟩, timed_append.mpr ⟨hpack, hpacks⟩, ?_⟩
    · rw [count_append, hwait, hwaits, hv]
      by_cases h0 : first = 0
      · rw [if_pos h0, if_pos h0]
        omega
      · rw [if_neg h0, if_neg h0]
        omega
    · rw [count_append, hreport, hreports]
      omega

theorem Pipeline.sections_device (p : Pipeline) :
    Sections p.settings.destSync.sections p.device := by
  refine ⟨?_, ?_, ⟨false, ?_, rfl⟩, false, ?_, Int.le_refl 0⟩
  · show (p.settings.destSync.sections : Int) + 0 + 0 = _
    omega
  · show (0 : Int) ≤ p.settings.destSync.sections
    omega
  · rw [p.rest_device]
    exact Alternates.flatMap fun v _ => StageView.alternates_mathEvents
  · rw [p.rest_device]
    exact Alternates.flatMap fun v _ => StageView.alternates_packEvents

namespace Pipeline.Ordered

variable {p : Pipeline} (h : p.Ordered)
include h

theorem own : p.device.Own := by
  intro t e he t' ht
  rw [p.rest_device] at he
  cases t with
  | unpack =>
    obtain ⟨v, hv, he⟩ := List.mem_flatMap.mp he
    rcases StageView.effect_unpackEvents (h.fed v hv) e he with heff | heff | heff <;>
      simp [heff, Effect.thread?] at ht <;> exact ht.symm
  | math =>
    obtain ⟨v, -, he⟩ := List.mem_flatMap.mp he
    rcases StageView.effect_mathEvents e he with heff | heff | heff | heff <;>
      simp [heff, Effect.thread?] at ht <;> exact ht.symm
  | pack =>
    obtain ⟨v, -, he⟩ := List.mem_flatMap.mp he
    rcases StageView.effect_packEvents e he with heff | heff | heff | heff <;>
      simp [heff, Effect.thread?] at ht <;> exact ht.symm

theorem outputs : Outputs p.views.length p.device := by
  obtain ⟨⟨hloads, hwaits⟩, hpacks, hreports⟩ :=
    timed_views h.index (Nat.zero_add _).symm h.fed h.isLast
  constructor <;> rw [p.rest_device]
  · show 0 + count .reportOutput (p.views.flatMap (·.packEvents)) =
      count .awaitOutput (p.views.flatMap (·.unpackEvents))
    rw [hwaits, hreports, if_pos rfl, Nat.zero_add]
  · exact hloads
  · exact hpacks

theorem tiles (capacity : Nat) : Tiles capacity p.device := by
  have hmath := taken_views p.views
  refine ⟨Nat.zero_le _, ?_, ?_⟩ <;> rw [p.rest_device]
  · show loaded (p.views.flatMap (·.unpackEvents)) = taken (p.views.flatMap (·.mathEvents))
    rw [hmath, loaded_flatMap]
    exact List.flatMap_congr fun v hv => StageView.loaded_unpackEvents (h.fed v hv)
  · show ∀ x ∈ taken (p.views.flatMap (·.mathEvents)), _
    rw [hmath]
    intro x hx
    obtain ⟨v, -, hx⟩ := List.mem_flatMap.mp hx
    obtain ⟨turn, -, rfl⟩ := List.mem_map.mp hx
    rfl

/-- One schedule, stage after stage, brings the device to its end. -/
theorem exists_end {capacity : Nat} (hc : 1 ≤ capacity) :
    Device.Runs capacity p.device
      ⟨threads [] [] [], .between 0 p.settings.destSync.sections⟩ := by
  have hs : 1 ≤ p.settings.destSync.sections := by
    cases p.settings.destSync <;> decide
  have hrun := segment_stages hc hs h.index (Nat.zero_add _).symm h.fed h.isLast [] [] []
  simp only [List.append_nil, outputsBetween, true_or, if_true] at hrun
  rw [← p.rest_device] at hrun
  exact hrun

end Pipeline.Ordered

/-! ## Every moment of a run -/

/-- The invariants together. -/
structure Device.Orderly (stages capacity sections : Nat) (d : Device) : Prop where
  own : d.Own
  outputs : Outputs stages d
  sections : Sections sections d
  tiles : Tiles capacity d

theorem Device.Orderly.runs {stages capacity sections : Nat} {d d' : Device}
    (h : d.Orderly stages capacity sections) (hrun : Device.Runs capacity d d') :
    d'.Orderly stages capacity sections := by
  induction hrun with
  | refl => exact h
  | tail _ hs ih =>
    obtain ⟨t, hs⟩ := hs
    exact ⟨ih.own.step hs, ih.own.outputs_step ih.outputs hs, ih.own.sections_step ih.sections hs,
      ih.own.tiles_step ih.tiles hs⟩

/-- Calls that are still to be made. -/
def Device.left (d : Device) : Nat :=
  (d.rest .unpack).length + (d.rest .math).length + (d.rest .pack).length

theorem Device.left_of_step {capacity : Nat} {d d' : Device} {t : Thread}
    (hs : d.step capacity t = some d') : d'.left + 1 = d.left := by
  obtain ⟨e, rest, he, -, rfl⟩ := step_eq_some_iff.mp hs
  have hlen : (d.rest t).length = rest.length + 1 := by rw [he, List.length_cons]
  unfold left
  cases t with
  | unpack =>
    show rest.length + (d.rest .math).length + (d.rest .pack).length + 1 = _
    omega
  | math =>
    show (d.rest .unpack).length + rest.length + (d.rest .pack).length + 1 = _
    omega
  | pack =>
    show (d.rest .unpack).length + (d.rest .math).length + rest.length + 1 = _
    omega

/-- What is true at a moment of a run, on a device whose queue holds `capacity` tiles and whose
accumulator has `sections` sections. -/
structure Device.InOrder (capacity sections : Nat) (d : Device) : Prop where
  /-- When a load of a stage is next, every pack of the stages in front has been made. -/
  written : ∀ (e : Event) (rest : List Event) (s : Nat), d.rest .unpack = e :: rest →
    e.call.load? = some s → ∀ x ∈ d.rest .pack, ∀ t, x.call.pack? = some t → s ≤ t
  /-- The arithmetic takes the tile that was loaded in its own turn of the loops, and for its own
  stage: the one whose section is handed on next. -/
  ownTile : ∀ (e x : Event) (rest queue : List Event), d.rest .math = e :: rest →
    e.call.effect = .compute → d.shared.queue = x :: queue →
    x.turn = e.turn ∧ ∃ s, x.call.load? = some s ∧ handedOn? rest = some s
  /-- The queue does not overflow. -/
  room : d.shared.queue.length ≤ capacity
  /-- Every section is free, claimed or filled. -/
  conserved : 0 ≤ d.shared.free ∧ 0 ≤ d.shared.claimed ∧ 0 ≤ d.shared.filled ∧
    d.shared.free + d.shared.claimed + d.shared.filled = sections
  /-- Unless all threads are through, one can go on. -/
  proceeds : ¬d.Finished → ∃ t d', d.step capacity t = some d'
  /-- Every step makes one call, so that no run goes on for ever. -/
  shortens : ∀ t d', d.step capacity t = some d' → d'.left + 1 = d.left
  /-- The run can be continued until all threads are through. -/
  ends : ∃ f, Device.Runs capacity d f ∧ f.Finished
  /-- When they are, every report was waited for, all sections are free and the queue is empty. -/
  idle : d.Finished → d.shared = .between 0 sections

theorem Sections.filled_nonneg {n : Nat} {d : Device} (h : Sections n d) :
    0 ≤ d.shared.claimed ∧ 0 ≤ d.shared.filled := by
  obtain ⟨-, -, ⟨claiming, -, hclaimed⟩, draining, -, hfilled⟩ := h
  constructor
  · rw [hclaimed]
    cases claiming <;> decide
  · cases draining
    · exact hfilled
    · exact Int.le_trans (by decide) hfilled

/-- **The stages of a built pipeline hand over in order**, on every schedule and with a queue of any
capacity. -/
theorem stages_hand_over {r : Registry} {specs : List StageSpec} {settings : Settings}
    {p : Pipeline} (hp : (Pipeline.build r specs settings).value = .ok p) {capacity : Nat}
    (hc : 1 ≤ capacity) {d : Device} (hrun : Device.Runs capacity p.device d) :
    d.InOrder capacity p.settings.destSync.sections := by
  have hordered := ordered_of_build hp
  have horderly : d.Orderly p.views.length capacity p.settings.destSync.sections :=
    Device.Orderly.runs
      ⟨hordered.own, hordered.outputs, p.sections_device, hordered.tiles capacity⟩ hrun
  have hfinished : Device.Finished
      ⟨threads [] [] [], .between 0 p.settings.destSync.sections⟩ := by
    intro t
    cases t <;> rfl
  have hend := Device.Runs.ends_of_ends hordered.own hfinished (hordered.exists_end hc) hrun
  obtain ⟨hclaimed, hfilled⟩ := horderly.sections.filled_nonneg
  exact
    { written := fun _ _ _ he hs _ hx _ ht => horderly.outputs.le_of_load he hs hx ht
      ownTile := fun _ _ _ _ he heff hq => horderly.tiles.own he heff hq
      room := horderly.tiles.room
      conserved := ⟨horderly.sections.free, hclaimed, hfilled, horderly.sections.total⟩
      proceeds := by
        intro hd
        -- the way to the end begins with a step, unless this is the end
        rcases hend.cases_head with heq | ⟨d', ⟨t, hs⟩, -⟩
        · rw [heq] at hd
          exact absurd hfinished hd
        · exact ⟨t, d', hs⟩
      shortens := fun _ _ hs => Device.left_of_step hs
      ends := ⟨_, hend, hfinished⟩
      idle := by
        intro hd
        rcases hend.cases_head with heq | ⟨d', hs, -⟩
        · rw [heq]
        · exact absurd hs (Device.not_next_of_finished hd) }

/-- Two fused stages run to the end through a queue of one tile, and leave both sections free. -/
theorem stages_hand_over_fused :
    ∃ p d, (Pipeline.build crowdedRegistry fusedSpecs fusedSettings).value = .ok p ∧
      Device.Runs 1 p.device d ∧ d.Finished ∧
      d.shared = .between 0 p.settings.destSync.sections := by
  obtain ⟨p, hp⟩ := exists_build_crowded
  obtain ⟨d, hrun, hd⟩ := (stages_hand_over hp (Nat.le_refl 1) .refl).ends
  exact ⟨p, d, hp, hrun, hd, (stages_hand_over hp (Nat.le_refl 1) hrun).idle hd⟩

end TileFusion
