import TileFusion.Command
import Mathlib.Data.List.Forall2

/-!
# Runs of the command line

A run reads its arguments, reads one file, chooses a platform, loads, builds, and only then writes.
Each of these steps can end it. This file says what a run leaves behind, for any arguments, files
and surroundings:

> `command_runs`: a run that fails has written nothing and changed no file; a compilation that
> succeeds has delivered the kernel of the file it was asked for, for the platform that its
> arguments, the file or the surroundings choose, to one place only; and the order of its arguments
> does not matter.

Arguments come one or two at a time. `CompileItem` is what one step of reading takes, and an
argument list that is read to its end is the spelling of a list of items (`exists_items_of_take`).
What the items say together is put down in closed form (`foldlM_say`): it depends on the paths, the
output options and the platform options, each in their own order, and not on how these three are
mixed.
-/

namespace TileFusion

/-! ## Files -/

namespace Disk

/-- Directories outlast a new file. -/
theorem isDirectory_put {disk : Disk} {place other : Place} (contents : FileContents)
    (h : disk.isDirectory other = true) : (disk.put place contents).isDirectory other = true := by
  unfold isDirectory put at *
  rw [Bool.or_eq_true, List.any_eq_true] at h ⊢
  refine h.imp_right fun ⟨entry, hentry, hbelow⟩ => ?_
  by_cases hplace : entry.1 = place
  · -- what was below `other` was the file itself, and it still is
    exact ⟨(place, contents), List.mem_cons_self .., by rwa [← hplace]⟩
  · exact ⟨entry, List.mem_cons_of_mem _ (List.mem_filter.mpr ⟨hentry, by simpa using hplace⟩),
      hbelow⟩

/-- A file is not below its own place. -/
theorem isDirectory_put_self {disk : Disk} {place : Place} (contents : FileContents)
    (h : disk.isDirectory place = false) : (disk.put place contents).isDirectory place = false := by
  unfold isDirectory put at *
  rw [Bool.or_eq_false_iff, List.any_eq_false] at h ⊢
  refine ⟨h.1, fun entry hentry => ?_⟩
  rcases List.mem_cons.mp hentry with rfl | hentry
  · simp
  · exact h.2 entry (List.mem_filter.mp hentry).1

end Disk

/-- The place of a file, or of one that could be there. -/
def Target.place? : Target → Option Place
  | directory => none
  | file place _ | vacant place => some place

namespace Disk

/-- Steps that lead to a place lead to the file that is put there. -/
theorem follow_put {disk : Disk} {place : Place} (contents : FileContents) {steps : List String} :
    ∀ {here : Place} {target : Target}, disk.follow here steps = .ok target →
      target.place? = some place →
      (disk.put place contents).follow here steps = .ok (.file place contents) := by
  induction steps with
  | nil =>
    intro here target h hplace
    rw [← Except.ok.inj h] at hplace
    simp [Target.place?] at hplace
  | cons step rest ih =>
    intro here target h hplace
    unfold follow at h ⊢
    simp only at h ⊢
    by_cases hdot : (step == ".") = true
    · rw [if_pos hdot] at h ⊢
      exact ih h hplace
    rw [if_neg hdot] at h ⊢
    by_cases hup : (step == "..") = true
    · rw [if_pos hup] at h ⊢
      exact ih h hplace
    rw [if_neg hup] at h ⊢
    by_cases hlong : Path.maxStep < step.utf8ByteSize
    · rw [if_pos hlong] at h
      simp at h
    rw [if_neg hlong] at h ⊢
    by_cases hdir : disk.isDirectory (here ++ [step]) = true
    · rw [if_pos hdir] at h
      rw [if_pos (isDirectory_put contents hdir)]
      exact ih h hplace
    rw [if_neg hdir] at h
    -- the last step, which has to be the place itself
    obtain ⟨rfl, rfl⟩ : rest = [] ∧ here ++ [step] = place := by
      split at h
      · rw [← Except.ok.inj h] at hplace
        exact ⟨rfl, Option.some.inj hplace⟩
      · simp at h
      · rw [← Except.ok.inj h] at hplace
        exact ⟨rfl, Option.some.inj hplace⟩
      · simp at h
    rw [if_neg (by simp [isDirectory_put_self contents (Bool.eq_false_iff.mpr hdir)]),
      file?_put_self]

/-- **What is written can be read**, and all other files are as they were. -/
theorem read_of_write {disk after : Disk} {path text : String}
    (h : disk.write path text = .ok after) :
    after.read path = .ok text ∧
      ∃ place, ∀ other, other ≠ place → after.file? other = disk.file? other := by
  obtain ⟨target, htarget, place, hplace, hslash, rfl⟩ : ∃ target, disk.target path = .ok target ∧
      ∃ place, target.place? = some place ∧ (Path.parse path).slashed = false ∧
        after = disk.put place (.text text) := by
    unfold write at h
    cases htarget : disk.target path with
    | error error => simp [htarget] at h
    | ok target =>
      cases target with
      | directory => simp [htarget] at h
      | file place held =>
        simp only [htarget] at h
        split at h
        · simp at h
        · next hslash =>
          exact ⟨_, rfl, place, rfl, Bool.eq_false_iff.mpr hslash, (Except.ok.inj h).symm⟩
      | vacant place =>
        simp only [htarget] at h
        split at h
        · simp at h
        · next hslash =>
          exact ⟨_, rfl, place, rfl, Bool.eq_false_iff.mpr hslash, (Except.ok.inj h).symm⟩
  refine ⟨?_, place, fun other hne => file?_put_of_ne disk _ hne⟩
  have hput : (disk.put place (.text text)).target path = .ok (.file place (.text text)) := by
    unfold Disk.target at htarget ⊢
    split at htarget
    · simp at htarget
    · next hempty =>
      rw [if_neg hempty]
      split at htarget
      · simp at htarget
      · next hlong =>
        rw [if_neg hlong]
        exact follow_put _ htarget hplace
  simp only [read, hput, hslash]
  rfl

end Disk

/-! ## Failing runs -/

/-- The outcome is a success, or says nothing on the standard output. -/
def Outcome.Silent (outcome : Outcome) : Prop :=
  outcome.code ≠ 0 → outcome.output = ""

/-- Whatever its files hold, an action that fails has changed nothing and said nothing on the
standard output. -/
def Action.Careful (action : Action) : Prop :=
  ∀ disk, (action.run disk).1.code ≠ 0 →
    (action.run disk).1.output = "" ∧ (action.run disk).2 = disk

namespace Action

theorem careful_finish {outcome : Outcome} (h : outcome.Silent) : (finish outcome).Careful :=
  fun _ hcode => ⟨h hcode, rfl⟩

theorem careful_read {path : String} {next : Except FileError String → Action}
    (h : ∀ answer, (next answer).Careful) : (read path next).Careful :=
  fun disk => h (disk.read path) disk

/-- A write has to be the last thing that can go wrong. -/
theorem careful_write {path text : String} {next : Except FileError Unit → Action}
    (hfail : ∀ error, (next (.error error)).Careful)
    (hdone : ∀ disk, ((next (.ok ())).run disk).1.code = 0) : (write path text next).Careful := by
  intro disk
  unfold run
  cases disk.write path text with
  | error error => exact hfail error disk
  | ok after => exact fun hcode => absurd (hdone after) hcode

end Action

theorem Stop.silent_outcome (usage help : String) (stop : Stop) :
    (stop.outcome usage help).Silent := by
  cases stop <;> exact fun _ => rfl

theorem careful_deliver (output : Option String) (kernel : String) :
    (deliver output kernel).Careful := by
  cases output with
  | none => exact Action.careful_finish fun hcode => absurd rfl hcode
  | some path =>
    exact Action.careful_write (fun _ => Action.careful_finish fun _ => rfl) fun _ => rfl

theorem CompileOptions.careful_action (options : CompileOptions) (reader : DescriptionReader)
    (suggested : Option Platform) : (options.action reader suggested).Careful := by
  refine Action.careful_read fun contents => ?_
  cases kernelOf reader options.path options.platform suggested contents with
  | error error => exact Action.careful_finish fun _ => rfl
  | ok kernel => exact careful_deliver options.output kernel

theorem FormatsOptions.silent_outcome (options : FormatsOptions) (suggested : Option Platform) :
    (options.outcome suggested).Silent := by
  unfold outcome
  simp only
  split
  · exact fun _ => rfl
  · exact fun hcode => absurd rfl hcode

/-- **A run that fails** leaves nothing behind but its messages. -/
theorem careful_commandWith (reader : DescriptionReader) (chipArch : Option String)
    (arguments : List String) : (commandWith reader chipArch arguments).Careful := by
  cases arguments with
  | nil => exact Action.careful_finish fun _ => rfl
  | cons name arguments =>
    simp only [commandWith]
    split
    · unfold compileCommand
      cases CompileOptions.parse arguments with
      | error stop => exact Action.careful_finish (stop.silent_outcome _ _)
      | ok options => exact options.careful_action reader _
    · split
      · unfold formatsCommand
        cases FormatsOptions.parse arguments with
        | error stop => exact Action.careful_finish (stop.silent_outcome _ _)
        | ok options => exact Action.careful_finish (options.silent_outcome _)
      · split
        · exact Action.careful_finish fun _ => rfl
        · exact Action.careful_finish fun _ => rfl

/-! ## Arguments of a compilation -/

/-- What one step of reading the arguments of `compile` takes. -/
inductive CompileItem where
  /-- A description. -/
  | path (text : String)
  /-- An option that names the file for the kernel, in its long or its short form. -/
  | output (long : Bool) (file : String)
  /-- An option that names a platform. -/
  | platform (name : String)
  deriving DecidableEq, Repr

namespace CompileItem

/-- Arguments that are no path. -/
def options : List String :=
  ["--out", "-o", "--platform", "--help", "-h"]

/-- The arguments that an item consists of. -/
def spelling : CompileItem → List String
  | path text => [text]
  | output long file => [if long then "--out" else "-o", file]
  | platform name => ["--platform", name]

/-- A path that can be told from an option. What follows an option is not looked at. -/
def Plain : CompileItem → Prop
  | path text => text ∉ options
  | _ => True

/-- The path of an item. -/
def path? : CompileItem → Option String
  | path text => some text
  | _ => none

/-- The file that an item names for the kernel. -/
def output? : CompileItem → Option String
  | output _ file => some file
  | _ => none

/-- The platform that an item names. -/
def platform? : CompileItem → Option String
  | platform name => some name
  | _ => none

/-- All paths. -/
def paths (items : List CompileItem) : List String :=
  items.filterMap path?

/-- All files that are named for the kernel. -/
def outputs (items : List CompileItem) : List String :=
  items.filterMap output?

/-- All platforms that are named. -/
def platforms (items : List CompileItem) : List String :=
  items.filterMap platform?

theorem paths_cons (item : CompileItem) (rest : List CompileItem) :
    paths (item :: rest) = item.path?.toList ++ paths rest := by
  cases item <;> rfl

theorem outputs_cons (item : CompileItem) (rest : List CompileItem) :
    outputs (item :: rest) = item.output?.toList ++ outputs rest := by
  cases item <;> rfl

theorem platforms_cons (item : CompileItem) (rest : List CompileItem) :
    platforms (item :: rest) = item.platform?.toList ++ platforms rest := by
  cases item <;> rfl

end CompileItem

namespace CompileArguments

open CompileItem (paths outputs platforms paths_cons outputs_cons platforms_cons)

/-- Takes one item. -/
def say (said : CompileArguments) : CompileItem → Except Stop CompileArguments
  | .path text =>
    if said.path.isSome then .error (.unexpected text) else .ok { said with path := some text }
  | .output _ file => .ok { said with output := some file }
  | .platform name => (platformNamed name).map fun p => { said with platform := some p }

theorem take_spelling {item : CompileItem} (h : item.Plain) (said : CompileArguments)
    (rest : List String) :
    said.take (item.spelling ++ rest) = (said.say item).bind fun said => said.take rest := by
  cases item with
  | path text =>
    simp only [CompileItem.Plain, CompileItem.options, List.mem_cons, List.not_mem_nil, or_false,
      not_or] at h
    obtain ⟨hout, ho, hplatform, hhelp, hh⟩ := h
    have hasks : asksForHelp text = false := by simp [asksForHelp, hhelp, hh]
    simp only [CompileItem.spelling, List.cons_append, List.nil_append, say]
    rw [take.eq_def]
    simp only [beq_eq_false_iff_ne.mpr hout, beq_eq_false_iff_ne.mpr ho,
      beq_eq_false_iff_ne.mpr hplatform, hasks, Bool.or_self, Bool.false_eq_true, if_false]
    split <;> rfl
  | output long file => cases long <;> rfl
  | platform name =>
    simp only [CompileItem.spelling, List.cons_append, List.nil_append, say]
    rw [take.eq_def]
    simp only [beq_iff_eq, Bool.or_eq_true, String.reduceEq, or_self, if_false, if_true]
    cases platformNamed name <;> rfl

theorem take_flatMap {items : List CompileItem} :
    ∀ (said : CompileArguments), (∀ item ∈ items, item.Plain) →
      said.take (items.flatMap CompileItem.spelling) = items.foldlM say said := by
  induction items with
  | nil => exact fun _ _ => rfl
  | cons item rest ih =>
    intro said h
    rw [List.flatMap_cons, take_spelling (h item (List.mem_cons_self ..)), List.foldlM_cons]
    cases said.say item with
    | error stop => rfl
    | ok said => exact ih said fun x hx => h x (List.mem_cons_of_mem _ hx)

/-- Arguments that are read to their end are the spelling of items. -/
theorem exists_items_of_take {said result : CompileArguments} {arguments : List String}
    (h : said.take arguments = .ok result) :
    ∃ items : List CompileItem, arguments = items.flatMap CompileItem.spelling ∧
      ∀ item ∈ items, item.Plain := by
  have hcons : ∀ (item : CompileItem) {rest : List String}, item.Plain →
      (∃ items : List CompileItem, rest = items.flatMap CompileItem.spelling ∧
        ∀ item ∈ items, item.Plain) →
      ∃ items : List CompileItem, item.spelling ++ rest = items.flatMap CompileItem.spelling ∧
        ∀ item ∈ items, item.Plain := by
    rintro item rest hplain ⟨items, rfl, hall⟩
    exact ⟨item :: items, rfl, List.forall_mem_cons.mpr ⟨hplain, hall⟩⟩
  fun_induction take said arguments with
  | case1 said => exact ⟨[], rfl, by simp⟩
  | case2 said argument hout => simp at h
  | case3 said argument hout file rest ih =>
    have hcase := hcons (.output (argument == "--out") file) trivial (ih h)
    rw [Bool.or_eq_true, beq_iff_eq, beq_iff_eq] at hout
    obtain rfl | rfl := hout <;> exact hcase
  | case4 said argument hout hplatform => simp at h
  | case5 said argument hout hplatform name rest ih =>
    obtain rfl := beq_iff_eq.mp hplatform
    cases hnamed : platformNamed name with
    | error stop => simp [hnamed, bind, Except.bind] at h
    | ok p =>
      rw [hnamed] at h
      exact hcons (.platform name) trivial (ih p h)
  | case6 said argument rest hout hplatform hhelp => simp at h
  | case7 said argument rest hout hplatform hhelp htaken => simp at h
  | case8 said argument rest hout hplatform hhelp htaken ih =>
    refine hcons (.path argument) ?_ (ih h)
    simp only [asksForHelp, Bool.or_eq_true, beq_iff_eq, not_or] at hout hplatform hhelp
    simp [CompileItem.Plain, CompileItem.options, hout, hplatform, hhelp]

/-- What items say after what was said before, when at most one path is among it all: the only thing
that can go wrong is the name of a platform. -/
theorem foldlM_say (items : List CompileItem) :
    ∀ (said : CompileArguments), (said.path.toList ++ paths items).length ≤ 1 →
      items.foldlM say said = ((platforms items).mapM platformNamed).map fun chosen =>
        ⟨said.path.or (paths items).head?, (outputs items).getLast?.or said.output,
          chosen.getLast?.or said.platform⟩ := by
  induction items with
  | nil =>
    intro said _
    simp [paths, outputs, platforms, pure, Except.pure, Except.map]
  | cons item rest ih =>
    intro said hlength
    rw [List.foldlM_cons, paths_cons, outputs_cons, platforms_cons]
    rw [paths_cons] at hlength
    cases item with
    | path text =>
      -- it is the only path, so none was there before
      simp only [CompileItem.path?, Option.toList_some, List.length_append, List.length_cons,
        List.length_nil] at hlength
      have hnone : said.path = none := by
        cases hpath : said.path with
        | none => rfl
        | some other =>
          simp only [hpath, Option.toList_some, List.length_cons] at hlength
          omega
      have hrest := ih { said with path := some text } (by
        simp only [Option.toList_some, List.length_append, List.length_cons, List.length_nil]
        omega)
      simp only [say, hnone, Option.isSome_none, Bool.false_eq_true, if_false]
      refine hrest.trans ?_
      simp [CompileItem.path?, CompileItem.output?, CompileItem.platform?]
    | output long file =>
      refine (ih { said with output := some file } hlength).trans ?_
      simp [CompileItem.path?, CompileItem.output?, CompileItem.platform?, List.getLast?_cons]
    | platform name =>
      cases hnamed : platformNamed name with
      | error stop =>
        simp [say, hnamed, CompileItem.platform?, bind, Except.bind, Except.map]
      | ok p =>
        have hrest := ih { said with platform := some p } hlength
        simp only [say, hnamed, Except.map, bind, Except.bind] at hrest ⊢
        rw [hrest]
        simp only [CompileItem.platform?, Option.toList_some, List.cons_append, List.nil_append,
          List.mapM_cons, hnamed, bind, Except.bind]
        cases (platforms rest).mapM platformNamed with
        | error stop => rfl
        | ok chosen =>
          simp [CompileItem.path?, CompileItem.output?, pure, Except.pure, List.getLast?_cons]

/-- Items that are taken to their end hold at most one path. -/
theorem length_paths_of_foldlM {items : List CompileItem} :
    ∀ (said : CompileArguments) {result : CompileArguments}, items.foldlM say said = .ok result →
      (said.path.toList ++ paths items).length ≤ 1 := by
  induction items with
  | nil =>
    intro said result _
    cases said.path <;> simp [paths]
  | cons item rest ih =>
    intro said result h
    rw [List.foldlM_cons] at h
    rw [paths_cons]
    cases item with
    | path text =>
      cases hpath : said.path with
      | some other => simp [say, hpath, bind, Except.bind] at h
      | none =>
        simp only [say, hpath, Option.isSome_none, Bool.false_eq_true, if_false] at h
        exact ih { said with path := some text } h
    | output long file => exact ih { said with output := some file } h
    | platform name =>
      cases hnamed : platformNamed name with
      | error stop => simp [say, hnamed, bind, Except.bind, Except.map] at h
      | ok p =>
        simp only [say, hnamed, Except.map, bind, Except.bind] at h
        exact ih { said with platform := some p } h

end CompileArguments

/-! ## What the arguments choose -/

/-- What a conversion makes of a list, item by item. -/
theorem forall₂_of_mapM {α β ε : Type} {f : α → Except ε β} {xs : List α} :
    ∀ {ys : List β}, xs.mapM f = .ok ys → List.Forall₂ (fun x y => f x = .ok y) xs ys := by
  induction xs with
  | nil =>
    intro ys h
    obtain rfl := Except.ok.inj h
    exact .nil
  | cons x xs ih =>
    intro ys h
    rw [List.mapM_cons] at h
    cases hx : f x with
    | error e => simp [hx, bind, Except.bind] at h
    | ok y =>
      cases hxs : xs.mapM f with
      | error e => simp [hx, hxs, bind, Except.bind] at h
      | ok rest =>
        simp only [hx, hxs, bind, Except.bind, pure, Except.pure, Except.ok.injEq] at h
        subst h
        exact .cons hx (ih hxs)

/-- The items of an argument list choose the platforms, in order. -/
def CompileItem.Choose (items : List CompileItem) (chosen : List Platform) : Prop :=
  List.Forall₂ (fun name p => Platform.parse name = .ok p) (platforms items) chosen

theorem platformNamed_eq_ok_iff {name : String} {p : Platform} :
    platformNamed name = .ok p ↔ Platform.parse name = .ok p := by
  unfold platformNamed
  cases Platform.parse name <;> simp [Except.mapError]

/-- Arguments that lead to a compilation are items with one path. -/
theorem CompileOptions.exists_items {arguments : List String} {options : CompileOptions}
    (h : CompileOptions.parse arguments = .ok options) :
    ∃ (items : List CompileItem) (chosen : List Platform),
      arguments = items.flatMap CompileItem.spelling ∧ (∀ item ∈ items, item.Plain) ∧
        CompileItem.Choose items chosen ∧ CompileItem.paths items = [options.path] ∧
        options.output = (CompileItem.outputs items).getLast? ∧
        options.platform = chosen.getLast? := by
  unfold CompileOptions.parse at h
  cases htake : CompileArguments.empty.take arguments with
  | error stop => simp [htake, bind, Except.bind] at h
  | ok said =>
    simp only [htake, bind, Except.bind] at h
    obtain ⟨items, rfl, hplain⟩ := CompileArguments.exists_items_of_take htake
    rw [CompileArguments.take_flatMap _ hplain] at htake
    have hlength := CompileArguments.length_paths_of_foldlM _ htake
    rw [CompileArguments.foldlM_say _ _ hlength] at htake
    cases hchosen : (CompileItem.platforms items).mapM platformNamed with
    | error stop => simp [hchosen, Except.map] at htake
    | ok chosen =>
      rw [hchosen] at htake
      obtain rfl := Except.ok.inj htake
      have hchoose : CompileItem.Choose items chosen :=
        (forall₂_of_mapM hchosen).imp fun _ _ => platformNamed_eq_ok_iff.mp
      simp only [CompileArguments.empty, Option.none_or, Option.or_none] at h
      simp only [CompileArguments.empty, Option.toList_none, List.nil_append] at hlength
      match hpaths : CompileItem.paths items with
      | [] => simp [hpaths] at h
      | [path] =>
        simp only [hpaths, List.head?_cons, Except.ok.injEq] at h
        subst h
        exact ⟨items, chosen, rfl, hplain, hchoose, hpaths, rfl, rfl⟩
      | _ :: _ :: _ => simp [hpaths] at hlength

/-- When there is at most one path, arguments are read by kind. -/
theorem CompileOptions.parse_flatMap {items : List CompileItem}
    (hplain : ∀ item ∈ items, item.Plain) (hpaths : (CompileItem.paths items).length ≤ 1) :
    CompileOptions.parse (items.flatMap CompileItem.spelling) =
      ((CompileItem.platforms items).mapM platformNamed).bind fun chosen =>
        match (CompileItem.paths items).head? with
        | none => .error .incomplete
        | some path => .ok ⟨path, (CompileItem.outputs items).getLast?, chosen.getLast?⟩ := by
  have hsay := CompileArguments.foldlM_say items .empty (by simpa [CompileArguments.empty])
  unfold parse
  rw [CompileArguments.take_flatMap _ hplain, hsay]
  simp only [CompileArguments.empty, Option.none_or, Option.or_none]
  cases (CompileItem.platforms items).mapM platformNamed <;> rfl

/-- Lists without a second item are the same when they hold the same. -/
theorem eq_of_perm_of_length_le_one {α : Type} {xs ys : List α} (h : xs.Perm ys)
    (hlength : xs.length ≤ 1) : xs = ys := by
  match xs, hlength with
  | [], _ => exact h.nil_eq
  | [x], _ => exact List.singleton_perm.mp h

/-- **The order of arguments**: what is said once may be said anywhere. -/
theorem CompileOptions.parse_perm {items others : List CompileItem} (h : items.Perm others)
    (hplain : ∀ item ∈ items, item.Plain) (hpaths : (CompileItem.paths items).length ≤ 1)
    (houtputs : (CompileItem.outputs items).length ≤ 1)
    (hplatforms : (CompileItem.platforms items).length ≤ 1) :
    CompileOptions.parse (items.flatMap CompileItem.spelling) =
      CompileOptions.parse (others.flatMap CompileItem.spelling) := by
  have hpath : CompileItem.paths items = CompileItem.paths others :=
    eq_of_perm_of_length_le_one (h.filterMap _) hpaths
  have houtput : CompileItem.outputs items = CompileItem.outputs others :=
    eq_of_perm_of_length_le_one (h.filterMap _) houtputs
  have hplatform : CompileItem.platforms items = CompileItem.platforms others :=
    eq_of_perm_of_length_le_one (h.filterMap _) hplatforms
  rw [parse_flatMap hplain hpaths,
    parse_flatMap (fun item hitem => hplain item (h.mem_iff.mpr hitem)) (hpath ▸ hpaths), hpath,
    houtput, hplatform]

/-! ## Succeeding runs -/

/-- Every kernel file starts with the same lines. -/
theorem file_ne_empty (k : KernelSource) : k.file ≠ "" := by
  have hpreamble : preamble ≠ "" := by decide +kernel
  intro hfile
  have hlist := congrArg String.toList hfile
  rw [KernelSource.file, String.toList_append, String.toList_empty, List.append_eq_nil_iff] at hlist
  exact hpreamble (String.toList_inj.mp hlist.1)

/-- A kernel was delivered, to the standard output or to the file `output`, and nowhere else. -/
def Delivered (disk : Disk) (output : Option String) (kernel : String) (run : Outcome × Disk) :
    Prop :=
  kernel ≠ "" ∧ match output with
    | none => run.1.output = kernel ∧ run.2 = disk
    | some file => run.1.output = "" ∧ disk.write file kernel = .ok run.2 ∧
        run.2.read file = .ok kernel ∧
        ∃ place, ∀ other, other ≠ place → run.2.file? other = disk.file? other

theorem delivered_of_deliver {disk : Disk} {output : Option String} {kernel : String}
    (hkernel : kernel ≠ "") (hcode : ((deliver output kernel).run disk).1.code = 0) :
    Delivered disk output kernel ((deliver output kernel).run disk) := by
  refine ⟨hkernel, ?_⟩
  cases output with
  | none => exact ⟨rfl, rfl⟩
  | some file =>
    simp only [deliver, Action.run] at hcode ⊢
    cases hwrite : disk.write file kernel with
    | error error =>
      rw [hwrite] at hcode
      simp [Outcome.failure] at hcode
    | ok after => exact ⟨rfl, rfl, Disk.read_of_write hwrite⟩

/-- What a kernel is made of. -/
theorem kernelOf_eq_ok {reader : DescriptionReader} {path : String}
    {chosen suggested : Option Platform} {contents : Except FileError String} {kernel : String}
    (h : kernelOf reader path chosen suggested contents = .ok kernel) :
    ∃ (text : String) (d : Description) (platform : Platform) (input : BuildInput)
      (pipeline : Pipeline),
      contents = .ok text ∧ reader text = .ok d ∧
        chosen.or (d.pipeline.platform.or suggested) = some platform ∧
        (d.load platform).value = .ok input ∧
        (Pipeline.build input.registry input.specs input.settings).value = .ok pipeline ∧
        kernel = pipeline.emit.value.file := by
  unfold kernelOf at h
  split at h
  · simp at h
  · split at h
    · simp at h
    next text _ d hread =>
      unfold Description.kernel at h
      split at h
      · simp at h
      next platform hplatform =>
        unfold Description.pipelineFor at h
        split at h
        · simp [Except.map] at h
        next input hload =>
          cases hbuild : (Pipeline.build input.registry input.specs input.settings).value with
          | error errors => simp [hbuild, Except.mapError, Except.map] at h
          | ok pipeline =>
            rw [hbuild] at h
            exact ⟨text, d, platform, input, pipeline, rfl, hread, hplatform, hload, hbuild,
              (Except.ok.inj h).symm⟩

/-- A compilation that succeeds without telling about itself. -/
theorem exists_options_of_success {reader : DescriptionReader} {chipArch : Option String}
    {disk : Disk} {arguments : List String}
    (hcode : ((compileCommand reader chipArch arguments).run disk).1.code = 0)
    (hreport : ((compileCommand reader chipArch arguments).run disk).1.report ≠ compileHelp) :
    ∃ (options : CompileOptions) (kernel : String), CompileOptions.parse arguments = .ok options ∧
      kernelOf reader options.path options.platform (suggestedPlatform chipArch)
        (disk.read options.path) = .ok kernel ∧
      (compileCommand reader chipArch arguments).run disk =
        (deliver options.output kernel).run disk := by
  unfold compileCommand at hcode hreport ⊢
  cases hparse : CompileOptions.parse arguments with
  | error stop =>
    -- the one stop with this code is the request for help
    rw [hparse] at hcode hreport
    cases stop with
    | help => exact absurd rfl hreport
    | incomplete => simp [Action.run, Stop.outcome, Outcome.failure] at hcode
    | unexpected argument => simp [Action.run, Stop.outcome, Outcome.failure] at hcode
    | unknownPlatform unknown => simp [Action.run, Stop.outcome, refusal, Outcome.failure] at hcode
    | unknownFormat unknown => simp [Action.run, Stop.outcome, refusal, Outcome.failure] at hcode
  | ok options =>
    simp only [hparse, CompileOptions.action, Action.run] at hcode ⊢
    cases hkernel : kernelOf reader options.path options.platform (suggestedPlatform chipArch)
        (disk.read options.path) with
    | error error =>
      rw [hkernel] at hcode
      simp [Action.run, refusal, Outcome.failure] at hcode
    | ok kernel => exact ⟨options, kernel, rfl, hkernel, rfl⟩

/-- **Every run of the command line**, on any files, whatever reads the descriptions in them. One
that fails has said nothing on the standard output and changed no file. A compilation that succeeds
has read items with one path and delivered the kernel of the file there, for the last platform among
the items, else the one of the file, else the one that the surroundings suggest. Where each kind of
item comes at most once, their order does not matter. -/
theorem command_runs (reader : DescriptionReader) (chipArch : Option String) (disk : Disk) :
    (∀ arguments, ((commandWith reader chipArch arguments).run disk).1.code ≠ 0 →
      ((commandWith reader chipArch arguments).run disk).1.output = "" ∧
        ((commandWith reader chipArch arguments).run disk).2 = disk) ∧
    (∀ arguments, ((commandWith reader chipArch ("compile" :: arguments)).run disk).1.code = 0 →
      ((commandWith reader chipArch ("compile" :: arguments)).run disk).1.report ≠ compileHelp →
      ∃ (items : List CompileItem) (chosen : List Platform) (path text : String) (d : Description)
        (platform : Platform) (input : BuildInput) (pipeline : Pipeline),
        arguments = items.flatMap CompileItem.spelling ∧ (∀ item ∈ items, item.Plain) ∧
          CompileItem.paths items = [path] ∧ CompileItem.Choose items chosen ∧
          disk.read path = .ok text ∧ reader text = .ok d ∧
          chosen.getLast?.or (d.pipeline.platform.or (suggestedPlatform chipArch)) =
            some platform ∧
          (d.load platform).value = .ok input ∧
          (Pipeline.build input.registry input.specs input.settings).value = .ok pipeline ∧
          Delivered disk (CompileItem.outputs items).getLast? pipeline.emit.value.file
            ((commandWith reader chipArch ("compile" :: arguments)).run disk)) ∧
    ∀ items others : List CompileItem, items.Perm others → (∀ item ∈ items, item.Plain) →
      (CompileItem.paths items).length ≤ 1 → (CompileItem.outputs items).length ≤ 1 →
      (CompileItem.platforms items).length ≤ 1 →
      (commandWith reader chipArch ("compile" :: items.flatMap CompileItem.spelling)).run disk =
        (commandWith reader chipArch ("compile" :: others.flatMap CompileItem.spelling)).run
          disk := by
  have hcompile : ∀ arguments, commandWith reader chipArch ("compile" :: arguments) =
      compileCommand reader chipArch arguments := fun _ => rfl
  refine ⟨fun arguments => careful_commandWith reader chipArch arguments disk, ?_, ?_⟩
  · intro arguments hcode hreport
    rw [hcompile] at hcode hreport ⊢
    obtain ⟨options, kernel, hparse, hkernel, hrun⟩ := exists_options_of_success hcode hreport
    obtain ⟨items, chosen, hspelled, hplain, hchoose, hpaths, houtput, hplatform⟩ :=
      CompileOptions.exists_items hparse
    obtain ⟨text, d, platform, input, pipeline, hread, hd, hchosen, hload, hbuild, rfl⟩ :=
      kernelOf_eq_ok hkernel
    rw [hplatform] at hchosen
    refine ⟨items, chosen, options.path, text, d, platform, input, pipeline, hspelled, hplain,
      hpaths, hchoose, hread, hd, hchosen, hload, hbuild, ?_⟩
    rw [hrun] at hcode ⊢
    rw [← houtput]
    exact delivered_of_deliver (file_ne_empty _) hcode
  · intro items others hperm hplain hpaths houtputs hplatforms
    rw [hcompile, hcompile, compileCommand, compileCommand,
      CompileOptions.parse_perm hperm hplain hpaths houtputs hplatforms]

/-- A directory with one description, of a stage that copies its input. -/
def copyDisk : Disk :=
  ⟨[(["copy.toml"], .text ("[[inputs]]\nname = \"a\"\ndims = [32, 32]\nformat = \"Float16_b\"\n" ++
    "[[stages]]\nsrc_a = \"a\"\noutput = \"y\"\noutput_format = \"Float16_b\"\n" ++
    "loader = \"direct\"\narith = \"datacopy\"\n"))]⟩

/-- A run without arguments fails, one with all of them delivers a kernel, and they can be given in
another order. -/
theorem command_runs_copy :
    (((command none ["compile"]).run copyDisk).1.code ≠ 0 ∧
      ((command none ["compile"]).run copyDisk).2 = copyDisk) ∧
    (∃ (items : List CompileItem) (pipeline : Pipeline),
      ["-o", "k.cpp", "copy.toml", "--platform", "quasar"] =
          items.flatMap CompileItem.spelling ∧
        Delivered copyDisk (CompileItem.outputs items).getLast? pipeline.emit.value.file
          ((command none ["compile", "-o", "k.cpp", "copy.toml", "--platform", "quasar"]).run
            copyDisk)) ∧
    (command none ["compile", "-o", "k.cpp", "copy.toml", "--platform", "quasar"]).run copyDisk =
      (command none ["compile", "--platform", "quasar", "copy.toml", "-o", "k.cpp"]).run
        copyDisk := by
  obtain ⟨hfails, hsucceeds, horder⟩ := command_runs Description.read none copyDisk
  have hcode : ((command none ["compile"]).run copyDisk).1.code ≠ 0 := by decide +kernel
  obtain ⟨items, -, -, -, -, -, -, pipeline, hspelled, -, -, -, -, -, -, -, -, hdelivered⟩ :=
    hsucceeds ["-o", "k.cpp", "copy.toml", "--platform", "quasar"] (by decide +kernel)
      (by decide +kernel)
  have hsame := horder [.output false "k.cpp", .path "copy.toml", .platform "quasar"]
    [.platform "quasar", .path "copy.toml", .output false "k.cpp"] (by decide)
    (by simp [CompileItem.Plain, CompileItem.options]) (by decide) (by decide) (by decide)
  exact ⟨⟨hcode, (hfails ["compile"] hcode).2⟩, ⟨items, pipeline, hspelled, hdelivered⟩, hsame⟩

end TileFusion
