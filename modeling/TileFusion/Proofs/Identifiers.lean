import TileFusion.Proofs.Sections

/-!
# Identifiers of all stages

The stages of a thread share one scope, so the identifiers of different stages must differ. An
identifier is a label with the number of the stage behind it, and as no label ends in a digit, label
and number can be read off again:

> `numbered_inj`: two identifiers agree only when their labels and their stages do;
> `filter_declarations`: what a stage declares under a name is all that its thread declares under it.
-/

namespace TileFusion

namespace StageNames

/-- A label with a number behind it. -/
def numbered (label : String) (stage : Nat) : String :=
  label ++ toString stage

/-- No digit ends the label. -/
def isLabel (label : String) : Bool :=
  label.toList.getLast?.all (!·.isDigit)

/-- A label does not reach into the digits behind a shorter one. -/
theorem eq_nil_of_append_digits {front more rest digits : List Char}
    (hlast : ((front ++ more).getLast?.all (!·.isDigit)) = true) (hdigits : ∀ c ∈ digits, c.isDigit)
    (hmore : digits = more ++ rest) : more = [] := by
  cases hm : more.getLast? with
  | none => exact List.getLast?_eq_none_iff.mp hm
  | some c =>
    have hdigit : c.isDigit = true := by
      refine hdigits c ?_
      rw [hmore]
      exact List.mem_append_left rest (List.mem_of_getLast? hm)
    rw [List.getLast?_append, hm] at hlast
    simp [hdigit] at hlast

theorem numbered_inj {label label' : String} {stage stage' : Nat} (hl : isLabel label = true)
    (hl' : isLabel label' = true) :
    numbered label stage = numbered label' stage' ↔ label = label' ∧ stage = stage' := by
  constructor
  · intro h
    have hdigit : ∀ n : Nat, ∀ c ∈ Nat.toDigits 10 n, c.isDigit :=
      fun n c hc => Nat.isDigit_of_mem_toDigits (by decide) (by decide) hc
    have htext : label.toList ++ Nat.toDigits 10 stage =
        label'.toList ++ Nat.toDigits 10 stage' := by
      simpa [numbered, Nat.toString_eq_ofList_toDigits] using congrArg String.toList h
    -- the labels are equally long, since what one has beyond the other would be digits
    have hlabels : label.toList = label'.toList := by
      obtain ⟨more, hfront, hrest⟩ | ⟨more, hfront, hrest⟩ := List.append_eq_append_iff.mp htext
      · unfold isLabel at hl'
        rw [hfront] at hl'
        have hnil := eq_nil_of_append_digits hl' (hdigit stage) hrest
        rw [hfront, hnil, List.append_nil]
      · unfold isLabel at hl
        rw [hfront] at hl
        have hnil := eq_nil_of_append_digits hl (hdigit stage') hrest
        rw [hfront, hnil, List.append_nil]
    rw [hlabels] at htext
    have hnumber := congrArg (fun ds => Nat.ofDigitChars 10 ds 0) (List.append_cancel_left htext)
    exact ⟨String.toList_inj.mp hlabels, by simpa using hnumber⟩
  · intro h
    rw [h.1, h.2]

/-- The labels of what a stage declares in a thread. -/
def labels : Thread → List String
  | .unpack =>
    ["buffer_A", "buffer_B", "unpack_a_src_format", "unpack_a_dst_format", "unpack_b_src_format",
      "unpack_b_dst_format"]
  | .math => ["math_format", "dest_sync"]
  | .pack => ["buffer_Res", "pack_src_format", "pack_dst_format"]

theorem isLabel_of_mem_labels (t : Thread) : ∀ label ∈ labels t, isLabel label = true := by
  cases t <;> decide

theorem nodup_labels (t : Thread) : (labels t).Nodup := by
  cases t <;> decide

end StageNames

open StageNames

theorem StageView.name_declarations (v : StageView) (t : Thread) :
    (v.declarations t).map (·.name) = (labels t).map (numbered · v.index) := by
  cases t <;> rfl

/-- Stages with numbers of their own share no identifier. -/
theorem nodup_numbered {ls : List String} (hlabel : ∀ label ∈ ls, isLabel label = true)
    (hls : ls.Nodup) {views : List StageView} (hviews : (views.map (·.index)).Nodup) :
    (views.flatMap fun v => ls.map (numbered · v.index)).Nodup := by
  rw [List.nodup_flatMap]
  refine ⟨?_, ?_⟩
  · intro v _
    refine List.Nodup.map_on ?_ hls
    intro x hx y hy hxy
    exact ((numbered_inj (hlabel x hx) (hlabel y hy)).mp hxy).1
  · refine (List.pairwise_map.mp hviews).imp ?_
    intro v w hne name hv hw
    obtain ⟨x, hx, rfl⟩ := List.mem_map.mp hv
    obtain ⟨y, hy, hxy⟩ := List.mem_map.mp hw
    exact hne ((numbered_inj (hlabel y hy) (hlabel x hx)).mp hxy).2.symm

/-- A thread declares no name twice. -/
theorem Pipeline.Ordered.nodup_names {p : Pipeline} (h : p.Ordered) (t : Thread) :
    ((declarationsOf (p.lower.thread t).body).map (·.name)).Nodup := by
  have hnames : (declarationsOf (p.lower.thread t).body).map (·.name) =
      p.views.flatMap fun v => (labels t).map (numbered · v.index) := by
    rw [p.body_thread, declarationsOf, gatherAll_flatMap, List.map_flatMap]
    refine List.flatMap_congr fun v _ => ?_
    rw [← v.name_declarations, ← v.declarations_section]
    rfl
  rw [hnames]
  exact nodup_numbered (isLabel_of_mem_labels t) (nodup_labels t) h.nodup_index

theorem filter_eq_singleton {α β : Type} [DecidableEq β] {f : α → β} {xs : List α} {x : α}
    (h : (xs.map f).Nodup) (hx : x ∈ xs) : xs.filter (f · = f x) = [x] := by
  induction xs with
  | nil => simp at hx
  | cons y ys ih =>
    obtain ⟨hy, hys⟩ := List.nodup_cons.mp h
    rcases List.mem_cons.mp hx with rfl | hx
    · have hnone : ys.filter (f · = f x) = [] := by
        rw [List.filter_eq_nil_iff]
        intro z hz heq
        exact hy (List.mem_map.mpr ⟨z, hz, by simpa using heq⟩)
      rw [List.filter_cons_of_pos (by simp), hnone]
    · have hne : f y ≠ f x := fun heq => hy (heq ▸ List.mem_map_of_mem hx)
      rw [List.filter_cons_of_neg (by simpa using hne), ih hys hx]

/-- What a stage declares under a name is all that is declared under it. -/
theorem Pipeline.Ordered.filter_declarations {p : Pipeline} (h : p.Ordered) {v : StageView}
    (hv : v ∈ p.views) {t : Thread} {d : Declaration} (hd : d ∈ v.declarations t) :
    (declarationsOf (p.lower.thread t).body).filter (·.name = d.name) = [d] := by
  refine filter_eq_singleton (h.nodup_names t) ?_
  rw [p.body_thread, declarationsOf, gatherAll_flatMap, List.mem_flatMap]
  refine ⟨v, hv, ?_⟩
  rw [← v.declarations_section] at hd
  exact hd

end TileFusion
