import TileFusion.Proofs.AppendedStage
import TileFusion.Proofs.CheckedBuild
import TileFusion.Proofs.Writing

/-!
# Code with checks

Lowering reads operands by id and trusts the build for them; writing counts the blocks around a line
up and down, and multiplies batches. Here both are run with every access and every such step as one
that may fail.

> `writeAll?_eq`: where there is room for the blocks, no step of writing fails, and what is written
> is what `writeAll` writes;
> `compiler_never_stops`: from the declarations of a caller to the text of the kernel, nothing that
> is taken for granted fails.

Two bounds are behind the last part. The tiles of an output fit in a word, and so does what is made
of them by splitting and putting together again; and no section is nested deeper than three blocks
(`StageView.writable_contribution`).
-/

namespace TileFusion

/-! ## Batches -/

namespace BatchShape

/-- Splits tiles into batches, with divisions that may fail. -/
def split? (tiles batchSize : Nat) : Option BatchShape := do
  let size := max batchSize 1
  let fullBatches ← Word.div? tiles size
  let remainder ← Word.mod? tiles size
  some ⟨size, fullBatches, remainder⟩

/-- Number of batches, if it fits in a word. -/
def batches? (s : BatchShape) : Option Nat :=
  Word.add? s.fullBatches (if s.remainder > 0 then 1 else 0)

/-- Tiles in front of the remainder, if their number fits in a word. -/
def offset? (s : BatchShape) : Option Nat :=
  Word.mul? s.fullBatches s.batchSize

theorem split?_eq (tiles batchSize : Nat) :
    split? tiles batchSize = some (split tiles batchSize) := by
  have hpos : 0 < max batchSize 1 := Nat.lt_of_lt_of_le Nat.zero_lt_one (Nat.le_max_right ..)
  simp [split?, split, Word.div?_of_pos hpos, Word.mod?_of_pos hpos]

theorem offset_split_le (tiles batchSize : Nat) : (split tiles batchSize).offset ≤ tiles :=
  Nat.le.intro (split_total tiles batchSize)

/-- There are no more batches than tiles, since a batch has at least one. -/
theorem batches_split_le (tiles batchSize : Nat) : (split tiles batchSize).batches ≤ tiles := by
  have htotal := split_total tiles batchSize
  have hfull : (split tiles batchSize).fullBatches ≤ (split tiles batchSize).offset :=
    Nat.le_mul_of_pos_right _ (Nat.lt_of_lt_of_le Nat.zero_lt_one (Nat.le_max_right ..))
  unfold batches
  split <;> omega

theorem batches?_split {tiles : Nat} (h : tiles < wordLimit) (batchSize : Nat) :
    (split tiles batchSize).batches? = some (split tiles batchSize).batches :=
  Word.add?_of_lt (Nat.lt_of_le_of_lt (batches_split_le tiles batchSize) h)

end BatchShape

/-! ## Lowering -/

namespace Pipeline

/-- Whether a stage is the last one; `none` if it is not a stage of the pipeline. -/
def isLast? (p : Pipeline) (s : Stage) : Option Bool :=
  if s.index < p.stages.length then some (p.isLast s) else none

/-- A stage with its operands; `none` if one of them is not there. -/
def view? (p : Pipeline) (s : Stage) : Option StageView := do
  let bufferA ← p.registry.operand? s.unpackedA
  let bufferB ← p.registry.operand? s.unpackedB
  let output ← p.registry.operand? s.output
  let isLast ← p.isLast? s
  some ⟨s, p.settings, bufferA, bufferB, output, isLast⟩

/-- The thread programs of a pipeline. -/
def lower? (p : Pipeline) : Option Program := do
  let views ← p.stages.mapM p.view?
  some {
    platform := p.settings.platform
    unpack := .ofSections (views.map (·.unpackSection))
    math := .ofSections (views.map (·.mathSection))
    pack := .ofSections (views.map (·.packSection)) }

end Pipeline

section Built

variable {r : Registry} {specs : List StageSpec} {settings : Settings} {p : Pipeline}

theorem view?_of_build (hr : r.Declared) (hp : (Pipeline.build r specs settings).value = .ok p)
    {s : Stage} (hs : s ∈ p.stages) : p.view? s = some (p.view s) := by
  have hbuffers := exists_buffer_of_build hr hp hs
  have hindex : s.index < p.stages.length := by
    have hmem : s.index ∈ p.views.map (·.index) :=
      List.mem_map.mpr ⟨p.view s, List.mem_map_of_mem hs, rfl⟩
    rw [(ordered_of_build hp).index, List.mem_range'_1, Pipeline.views, List.length_map] at hmem
    omega
  obtain ⟨a, ha⟩ := hbuffers s.unpackedA (by simp [Stage.buffers])
  obtain ⟨b, hb⟩ := hbuffers s.unpackedB (by simp [Stage.buffers])
  obtain ⟨o, ho⟩ := hbuffers s.output (by simp [Stage.buffers])
  simp [Pipeline.view?, Pipeline.view, Pipeline.operand, Pipeline.isLast?, ha, hb, ho, hindex]

/-- The ids in a built pipeline are ids of its registry. -/
theorem lower?_of_build (hr : r.Declared) (hp : (Pipeline.build r specs settings).value = .ok p) :
    p.lower? = some p.lower := by
  have hviews : p.stages.map p.view? = (p.stages.map p.view).map some := by
    rw [List.map_map]
    exact List.map_congr_left fun s hs => view?_of_build hr hp hs
  rw [Pipeline.lower?, mapM_eq_some hviews]
  rfl

/-- The tiles of an operand are counted in a word. -/
theorem tiles_lt_of_build (hr : r.Declared) (hp : (Pipeline.build r specs settings).value = .ok p) :
    ∀ o ∈ p.registry.operands, o.tiles < wordLimit := by
  obtain ⟨-, stages, final, placed, hall, hplace, rfl⟩ := build_eq_ok_iff.mp hp
  intro o ho
  obtain ⟨x, hx, hplaced⟩ := exists_of_mem_allocate hplace ho
  rw [Operand.tiles_congr hplaced.contents_eq, Operand.tiles]
  cases hc : x.contents with
  | none => decide
  | some c =>
    have hsound := ((hall.wellFormed hr.wellFormed).sound x hx).contents_eq c hc
    obtain ⟨hlt, -, hc'⟩ := Contents.of?_eq_some_iff.mp hsound
    rw [hc']
    exact hlt

end Built

/-! ## Text -/

namespace Writer

/-- Writes between braces, one level deeper. -/
def braces? (w : Writer) (write : Writer → Option Writer) : Option Writer := do
  let deeper ← Word.add? w.depth 1
  let inner ← write ((w.line "\x7b").atDepth deeper)
  let back ← Word.sub? inner.depth 1
  some ((inner.atDepth back).line "\x7d")

/-- Writes between braces under a head. -/
def block? (w : Writer) (head : String) (write : Writer → Option Writer) : Option Writer :=
  (w.line head).braces? write

/-- Writes the full batches, if there are any. -/
def fullBatches? (w : Writer) (shape : BatchShape) (write : Writer → Option Writer) :
    Option Writer :=
  if shape.fullBatches = 0 then some w
  else (w.within (some (.full shape))).block? (loopHead "batch" shape.fullBatches) write

/-- Writes the batch behind the full ones, if there is one. -/
def remainder? (w : Writer) (shape : BatchShape) (write : Writer → Option Writer) :
    Option Writer :=
  if shape.remainder = 0 then some w
  else if shape.fullBatches = 0 then write (w.within (some (.only shape)))
  else
    (w.within (some (.rest shape))).braces? fun inner => do
      let offset ← shape.offset?
      write (inner.line s!"const uint32_t batch_offset = {offset};")

variable {w : Writer} {write? : Writer → Option Writer} {write : Writer → Writer}

/-- The depth goes up by one and comes down again. -/
theorem braces?_eq {inner : Writer} (hroom : w.depth + 1 < wordLimit)
    (h : write? w.enter = some inner) (hlevel : w.enter.Level inner) :
    w.braces? write? = some inner.leave := by
  have hback : Word.sub? inner.depth 1 = some (inner.depth - 1) :=
    Word.sub?_of_le (hlevel.depth_eq ▸ Nat.le_add_left 1 w.depth)
  have hinner : write? ((w.line "\x7b").atDepth (w.depth + 1)) = some inner := h
  simp only [braces?, Word.add?_of_lt hroom, Option.bind_eq_bind, Option.bind_some, hinner, hback]
  rfl

theorem block?_eq {inner : Writer} {head : String} (hroom : w.depth + 1 < wordLimit)
    (h : write? (w.enterUnder head) = some inner) (hlevel : (w.enterUnder head).Level inner) :
    w.block? head write? = some inner.leave :=
  braces?_eq (w := w.line head) hroom h hlevel

/-- Down to a depth, `write?` succeeds and does what `write` does. -/
def Agrees (write? : Writer → Option Writer) (write : Writer → Writer) (deepest : Nat) : Prop :=
  ∀ w : Writer, w.depth ≤ deepest → write? w = some (write w)

theorem fullBatches?_eq (hroom : w.depth + 1 < wordLimit) (shape : BatchShape)
    (h : Agrees write? write (w.depth + 1)) (hlevel : ∀ w : Writer, w.Level (write w)) :
    w.fullBatches? shape write? = some (w.fullBatches shape write) := by
  unfold fullBatches? fullBatches
  split
  next => rfl
  next => exact block?_eq (w := w.within _) hroom (h _ le_rfl) (hlevel _)

theorem remainder?_eq (hroom : w.depth + 1 < wordLimit) {shape : BatchShape}
    (hoffset : shape.offset < wordLimit) (h : Agrees write? write (w.depth + 1))
    (hlevel : ∀ w : Writer, w.Level (write w)) :
    w.remainder? shape write? = some (w.remainder shape write) := by
  have hmul : shape.offset? = some shape.offset := Word.mul?_of_lt hoffset
  unfold remainder? remainder
  split
  next => rfl
  next =>
    split
    next => exact h (w.within _) (Nat.le_succ w.depth)
    next =>
      simp only [hmul, Option.bind_eq_bind, Option.bind_some]
      generalize s!"const uint32_t batch_offset = {shape.offset};" = text
      have hlevel' := (level_line (w.within (some (.rest shape))).enter text).trans (hlevel _)
      have hinner : (fun inner : Writer => write? (inner.line text))
        (w.within (some (.rest shape))).enter = some _ := h _ le_rfl
      exact braces?_eq (w := w.within _) hroom hinner hlevel'

end Writer

mutual

/-- Writes one statement. -/
def Stmt.write? (platform : Platform) (thread : Thread) : Stmt → Writer → Option Writer
  | .comment text, w => some (w.line s!"// {text}")
  | .declare declaration, w => some (w.line declaration.text)
  | .call call, w => some ((call.lines platform).foldl Writer.line w)
  | .batched shape body, w => do
    let first ← (w.within none).fullBatches? shape (writeAll? platform thread body)
    let second ← first.remainder? shape (writeAll? platform thread body)
    some (second.within w.tiles)
  | .forEachTile body, w =>
    w.block? (loopHead "i" w.scope.count) fun inner =>
      writeAll? platform thread body
        (if thread == .math then inner
          else inner.line s!"const uint32_t tile_idx = {w.scope.index.text};")
  | .loop counter count body, w => w.block? (loopHead counter count) (writeAll? platform thread body)
  | .blank, w => some (w.append "\n")

/-- Writes statements in a row. -/
def writeAll? (platform : Platform) (thread : Thread) : List Stmt → Writer → Option Writer
  | [], w => some w
  | stmt :: rest, w => do
    let next ← stmt.write? platform thread w
    writeAll? platform thread rest next

end

/-- Body of a thread's function. -/
def render? (platform : Platform) (thread : Thread) (body : List Stmt) : Option String :=
  (writeAll? platform thread body ⟨"", 1, none⟩).map (·.out)

mutual

/-- The statement is nested no deeper than `room` blocks, and its offsets fit in a word. -/
def Stmt.Writable (room : Nat) : Stmt → Prop
  | .comment _ | .declare _ | .call _ | .blank => True
  | .batched shape body =>
    shape.offset < wordLimit ∧ 1 ≤ room ∧ WritableAll (room - 1) body
  | .forEachTile body => 1 ≤ room ∧ WritableAll (room - 1) body
  | .loop _ _ body => 1 ≤ room ∧ WritableAll (room - 1) body

def WritableAll (room : Nat) : List Stmt → Prop
  | [] => True
  | stmt :: rest => stmt.Writable room ∧ WritableAll room rest

end

attribute [simp] Stmt.Writable WritableAll

@[simp] theorem writableAll_append {room : Nat} (xs ys : List Stmt) :
    WritableAll room (xs ++ ys) ↔ WritableAll room xs ∧ WritableAll room ys := by
  induction xs with
  | nil => simp
  | cons x xs ih => simp [ih, and_assoc]

theorem writableAll_flatMap {α : Type} {room : Nat} {f : α → List Stmt} {xs : List α}
    (h : ∀ x ∈ xs, WritableAll room (f x)) : WritableAll room (xs.flatMap f) := by
  induction xs with
  | nil => trivial
  | cons x xs ih =>
    rw [List.flatMap_cons, writableAll_append]
    exact ⟨h x (List.mem_cons_self ..), ih fun y hy => h y (List.mem_cons_of_mem _ hy)⟩

section Run

variable {platform : Platform} {thread : Thread}

mutual

/-- **One statement.** If there is room for its blocks, it is written. -/
theorem Stmt.write?_eq : ∀ (stmt : Stmt) {room : Nat} {w : Writer}, stmt.Writable room →
    w.depth + room < wordLimit →
      stmt.write? platform thread w = some (stmt.write platform thread w)
  | .comment _, _, _, _, _ | .declare _, _, _, _, _ | .call _, _, _, _, _ | .blank, _, _, _, _ => by
    rw [Stmt.write?, Stmt.write]
  | .batched shape body, room, w, h, hroom => by
    obtain ⟨hoffset, hone, hbody⟩ := h
    have hlevel : ∀ w : Writer, w.Level (writeAll platform thread body w) := level_writeAll body
    have hagrees : ∀ inner : Writer, inner.depth = w.depth →
        Writer.Agrees (writeAll? platform thread body) (writeAll platform thread body)
          (inner.depth + 1) := fun inner hdepth deeper hle => writeAll?_eq body hbody (by omega)
    have hroom' : (w.within none).depth + 1 < wordLimit := by
      show w.depth + 1 < wordLimit
      omega
    have hdepth := Writer.depth_fullBatches hlevel (w.within none) shape
    have hfirst := Writer.fullBatches?_eq hroom' shape (hagrees (w.within none) rfl) hlevel
    have hsecond := Writer.remainder?_eq (hdepth.symm ▸ hroom') hoffset (hagrees _ hdepth) hlevel
    rw [Stmt.write?, Stmt.write, hfirst, Option.bind_eq_bind, Option.bind_some, hsecond]
    rfl
  | .forEachTile body, room, w, h, hroom => by
    obtain ⟨hone, hbody⟩ := h
    have hlevel := Writer.level_tile (w.enterUnder (loopHead "i" w.scope.count)) thread
    have hdepth : _ = w.depth + 1 := hlevel.depth_eq
    have hinner : writeAll? platform thread body
        ((w.enterUnder (loopHead "i" w.scope.count)).tile thread) = some _ :=
      writeAll?_eq body hbody (by omega)
    rw [Stmt.write?, Stmt.write]
    exact Writer.block?_eq (by omega) hinner (hlevel.trans (level_writeAll body _))
  | .loop counter count body, room, w, h, hroom => by
    obtain ⟨hone, hbody⟩ := h
    have hdepth : (w.enterUnder (loopHead counter count)).depth = w.depth + 1 := rfl
    have hinner : writeAll? platform thread body (w.enterUnder (loopHead counter count)) = some _ :=
      writeAll?_eq body hbody (by omega)
    rw [Stmt.write?, Stmt.write]
    exact Writer.block?_eq (by omega) hinner (level_writeAll body _)

/-- Statements in a row leave the depth alone, so each finds the room that the first one has. -/
theorem writeAll?_eq : ∀ (body : List Stmt) {room : Nat} {w : Writer}, WritableAll room body →
    w.depth + room < wordLimit →
      writeAll? platform thread body w = some (writeAll platform thread body w)
  | [], _, _, _, _ => by
    rw [writeAll?, writeAll]
  | stmt :: rest, room, w, h, hroom => by
    have hdepth : (stmt.write platform thread w).depth = w.depth := (stmt.level_write w).depth_eq
    have hrest := writeAll?_eq rest (w := stmt.write platform thread w) h.2 (by omega)
    rw [writeAll?, stmt.write?_eq h.1 hroom, Option.bind_eq_bind, Option.bind_some, hrest, writeAll]

end

end Run

/-! ## Sections -/

namespace StageView

theorem writable_perTile (v : StageView) : v.unpacking.perTile.Writable 1 := by
  obtain ⟨-, -, hstmt⟩ | ⟨-, pool, dim, -, -, hstmt⟩ | ⟨-, -, hstmt⟩ | ⟨-, -, -, hstmt⟩ |
    ⟨-, -, -, hstmt⟩ := v.unpacking_cases <;> simp [hstmt]

theorem writable_arithmetic (v : StageView) : WritableAll 2 v.arithmeticSection.body := by
  unfold arithmeticSection
  cases ha : v.stage.spec.arithmetic <;> simp [ha]

theorem writable_nonlinear (v : StageView) (unit : Nonlinear) :
    WritableAll 2 (v.nonlinearSection unit).body := by
  unfold nonlinearSection
  cases unit <;> simp

/-- A section goes through batches, tiles and steps of a product, one inside the other. -/
theorem writable_contribution (v : StageView) (h : v.batches.offset < wordLimit) (t : Thread) :
    WritableAll 3 (v.contribution t).body := by
  cases t with
  | unpack =>
    by_cases hi : v.index = 0 <;>
      simp [contribution, unpackSection, bufferDeclaration, hi, h, v.writable_perTile]
  | math =>
    have hunits : WritableAll 2
        ((v.stage.spec.nonlinear.map v.nonlinearSection).flatMap (·.body)) := by
      refine writableAll_flatMap fun x hx => ?_
      obtain ⟨unit, -, rfl⟩ := List.mem_map.mp hx
      exact v.writable_nonlinear unit
    simp [contribution, mathSection, h, v.writable_arithmetic, hunits]
  | pack =>
    cases ha : v.stage.spec.arithmetic <;> by_cases hl : v.isLast = true <;>
      simp [contribution, packSection, bufferDeclaration, ha, hl, h]

end StageView

/-! ## The whole compiler -/

/-- Statements that are nested no deeper than the units of a stage are written as the text of a
thread. -/
theorem render?_eq {platform : Platform} {thread : Thread} {body : List Stmt}
    (h : WritableAll 3 body) :
    render? platform thread body = some (bodyText platform thread body) := by
  have hwrite : writeAll? platform thread body ⟨"", 1, none⟩ =
      some (writeAll platform thread body .empty) := writeAll?_eq body h (by decide)
  rw [render?, hwrite, Option.map_some, bodyText_eq_out]

/-- Lowering a pipeline and writing its threads rely on nothing that fails. -/
structure Pipeline.Safe (p : Pipeline) : Prop where
  /-- Every operand that is read is there. -/
  lowered : p.lower? = some p.lower
  /-- Tiles are not divided by zero. -/
  split : ∀ v ∈ p.views, BatchShape.split? v.output.tiles v.stage.batchSize = some v.batches
  /-- Batches can be counted. -/
  counted : ∀ v ∈ p.views, v.batches.batches? = some v.batches.batches
  /-- So can the tiles in front of the last one. -/
  offset : ∀ v ∈ p.views, v.batches.offset? = some v.batches.offset
  /-- Depth goes up and down within its bounds, on any platform. -/
  written : ∀ platform thread, render? platform thread (p.lower.thread thread).body =
    some (bodyText platform thread (p.lower.thread thread).body)

section Built

variable {r : Registry} {specs : List StageSpec} {settings : Settings} {p : Pipeline}

theorem tiles_operand_lt_of_build (hr : r.Declared)
    (hp : (Pipeline.build r specs settings).value = .ok p) (id : Nat) :
    (p.operand id).tiles < wordLimit := by
  unfold Pipeline.operand
  cases ho : p.registry.operand? id with
  | none => decide
  | some o => exact tiles_lt_of_build hr hp o (List.mem_of_getElem? ho)

theorem tiles_output_lt_of_build (hr : r.Declared)
    (hp : (Pipeline.build r specs settings).value = .ok p) :
    ∀ v ∈ p.views, v.output.tiles < wordLimit := by
  intro v hv
  obtain ⟨s, -, rfl⟩ := List.mem_map.mp hv
  exact tiles_operand_lt_of_build hr hp s.output

theorem safe_of_build (hr : r.Declared) (hp : (Pipeline.build r specs settings).value = .ok p) :
    p.Safe := by
  have htiles := tiles_output_lt_of_build hr hp
  have hoffset : ∀ v ∈ p.views, v.batches.offset < wordLimit := fun v hv =>
    Nat.lt_of_le_of_lt (BatchShape.offset_split_le ..) (htiles v hv)
  exact
    { lowered := lower?_of_build hr hp
      split := fun v _ => BatchShape.split?_eq ..
      counted := fun v hv => BatchShape.batches?_split (htiles v hv) _
      offset := fun v hv => Word.mul?_of_lt (hoffset v hv)
      written := fun platform thread => render?_eq <| by
        rw [Pipeline.body_thread]
        exact writableAll_flatMap fun v hv => v.writable_contribution (hoffset v hv) thread }

end Built

/-- **The compiler never stops.** Whatever a caller declares, in whatever order and with whatever
success, and whatever is built on top of it, no operand and no stage is read that is not there and
no number leaves its range; and a pipeline that comes out of it is lowered and written in the same
way. -/
theorem compiler_never_stops (requests : List Request) (specs : List StageSpec)
    (settings : Settings) :
    (∀ format : DataFormat, format.tileBytes? = some format.tileBytes) ∧
      ∃ c, Catalog.ofRequests requests = some c ∧
        c.build specs settings =
          some (Pipeline.build (Registry.ofRequests requests) specs settings).value ∧
        ∀ p, (Pipeline.build (Registry.ofRequests requests) specs settings).value = .ok p →
          p.Safe := by
  have hr : (Registry.ofRequests requests).Declared :=
    (Registry.declared_iff_exists_requests _).mpr ⟨requests, rfl⟩
  obtain ⟨c, hc, hstep⟩ := Catalog.ofRequests_inStep requests
  exact ⟨DataFormat.tileBytes?_eq, c, hc, hstep.build_eq hr.wellFormed specs settings,
    fun p hp => safe_of_build hr hp⟩

end TileFusion
