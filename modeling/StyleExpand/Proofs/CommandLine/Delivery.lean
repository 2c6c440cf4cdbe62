import StyleExpand.CommandLine.Outcome
import StyleExpand.Proofs.CommandLine.Arguments

/-!
# What a run of the program delivers

A run delivers the expanded source to one place, or fails and leaves everything as it was. That is so
on every disk where a write that fails changes nothing, wherever the paths of the disk lead, and
whatever is made of the text of an options file.

* `Disk.Atomic` : what is asked of a disk;
* `Job.Arises` : what the arguments, the files and the standard input give a run to work with;
* `Job.Receives` : where a text goes;
* `Disk.material_eq`, `Disk.run_of_not_refused` : the two halves of a run;
* `Disk.run_delivers` : the two ways in which a run ends.
-/

namespace StyleExpand

/-! ## Options -/

namespace Options

theorem withVariables_cons (o : Options) (pair : String × String) (pairs : List (String × String)) :
    o.withVariables (pair :: pairs) = (o.withVariable pair.1 pair.2).withVariables pairs := rfl

@[simp] theorem warnUnresolved_withVariables (o : Options) (pairs : List (String × String)) :
    (o.withVariables pairs).warnUnresolved = o.warnUnresolved := by
  induction pairs generalizing o with
  | nil => rfl
  | cons pair pairs ih => rw [withVariables_cons, ih, withVariable]

/-- The last value that is given for a variable counts, and one that was there before only if none is
given. -/
theorem getElem?_withVariables (o : Options) (pairs : List (String × String)) (name : String) :
    (o.withVariables pairs).bindings[name]? = (pairs.reverse.lookup name).or o.bindings[name]? := by
  induction pairs generalizing o with
  | nil => rfl
  | cons pair pairs ih =>
    rw [withVariables_cons, ih, List.reverse_cons, List.lookup_append, Option.or_assoc]
    congr 1
    rw [withVariable, Std.TreeMap.getElem?_insert, List.lookup_cons, List.lookup_nil]
    by_cases hname : pair.1 = name
    · simp [hname]
    · have hkey : (name == pair.1) = false := beq_eq_false_iff_ne.2 (Ne.symm hname)
      simp [hname, hkey]

end Options

/-! ## Jobs -/

variable {δ : Type}

/-- A write that fails changes nothing. -/
def Disk.Atomic (disk : Disk δ) : Prop :=
  ∀ files path bytes, (disk.write files path bytes).1 = false →
    (disk.write files path bytes).2 = files

theorem Files.disk_atomic : Files.disk.Atomic := by
  intro files path bytes
  unfold disk
  dsimp only
  split
  · intro h
    cases h
  · exact fun _ => rfl

def Disk.inputText? (disk : Disk δ) (files : δ) (standardInput : ByteArray) (input : String) :
    Option String :=
  if input = Request.standardInput then String.fromUTF8? standardInput else disk.text? files input

/-- All that a run of the program works with: the request and its input, the options before those of
the request, the source text, and the stylesheet that was read from it. -/
structure Job where
  request : Request
  input : String
  base : Options
  source : String
  sheet : Sheet

namespace Job

def options (j : Job) : Options :=
  { j.base.withVariables j.request.bindings with
    warnUnresolved := j.base.warnUnresolved && !j.request.silent }

def expanded (j : Job) : Sheet := ((Run.start j.sheet).process j.options).sheet

def text (j : Job) : String :=
  if j.request.outline then j.expanded.outline else j.expanded.print

/-- The arguments, the files and the standard input give a job. -/
structure Arises (j : Job) (disk : Disk δ) (reader : OptionsReader) (arguments : List String)
    (files : δ) (standardInput : ByteArray) : Prop where
  request : ∃ items, Item.ofArguments? arguments = some items ∧ j.request.Describes items
  input : j.request.input = some j.input
  base : (j.request.config.elim (.ok .default) fun path =>
    reader.ofFile path (disk.text? files path)) = .ok j.base
  source : disk.inputText? files standardInput j.input = some j.source
  sheet : Sheet.parse j.source = .ok j.sheet

/-- A text goes to the output file of a job and nowhere else, or to the standard output if there is no
such file. -/
def Receives (j : Job) (disk : Disk δ) (text : String) (files : δ) (o : Outcome δ) : Prop :=
  match j.request.output with
  | none => o.output = text ∧ o.files = files
  | some path => o.output = "" ∧ disk.write files path text.toUTF8 = (true, o.files)

def Refused (j : Job) (disk : Disk δ) (files : δ) : Prop :=
  ∃ path, j.request.output = some path ∧ (disk.write files path j.text.toUTF8).1 = false

end Job

/-- What a run writes to the standard error, with the given time for entries of the log. -/
def Exit.errorText (e : Exit) (time : String) : String :=
  String.join (e.lines.map fun line => line.text time ++ "\n")

namespace Disk

variable {disk : Disk δ} {reader : OptionsReader} {arguments : List String} {files : δ}
  {standardInput : ByteArray} {j : Job} {machine : Machine δ} {r : Request} {input : String}

/-! ## Reading -/

theorem bind_of_eq {σ α β : Type} {x : StateM σ α} {s s' : σ} {a : α} (h : x s = (a, s'))
    (f : α → StateM σ β) : (x >>= f) s = f a s' := by
  show f (x s).1 (x s).2 = f a s'
  rw [h]

theorem baseOptions_eq (config : Option String) : (disk.host reader).baseOptions config machine =
    (config.elim (.ok .default) fun path => reader.ofFile path (disk.text? machine.files path),
      machine) := by
  cases config <;> rfl

theorem sourceText_eq (disk : Disk δ) (reader : OptionsReader) (machine : Machine δ) (input : String) :
    ∃ e, (disk.host reader).sourceText input machine =
      ((disk.inputText? machine.files machine.standardInput input).elim (.error e) .ok, machine) := by
  have hstandard : (disk.host reader).readStandardInput? machine =
      (some machine.standardInput, machine) := rfl
  have hfile : (disk.host reader).readText? input machine =
      (disk.text? machine.files input, machine) := rfl
  unfold Host.sourceText inputText?
  split
  · refine ⟨.standardInputUnreadable, ?_⟩
    rw [bind_of_eq hstandard, Option.bind_some]
    cases String.fromUTF8? machine.standardInput <;> rfl
  · refine ⟨.inputUnreadable input, ?_⟩
    rw [bind_of_eq hfile]
    cases disk.text? machine.files input <;> rfl

/-- Reading changes nothing, and finds what it needs exactly if the options, the source and the
stylesheet are all there. -/
theorem material_eq (disk : Disk δ) (reader : OptionsReader) (machine : Machine δ) (r : Request)
    (input : String) :
    ∃ found, (disk.host reader).material r input machine = (found, machine) ∧
      ∀ a : Material, found = .ok a ↔
        ∃ base, (r.config.elim (.ok .default) fun path =>
            reader.ofFile path (disk.text? machine.files path)) = .ok base ∧
          disk.inputText? machine.files machine.standardInput input = some a.source ∧
          Sheet.parse a.source = .ok a.sheet ∧ r.optionsOver base = a.options := by
  unfold Host.material
  rw [bind_of_eq (baseOptions_eq r.config)]
  cases r.config.elim (.ok .default) fun path => reader.ofFile path (disk.text? machine.files path) with
  | error e => exact ⟨_, rfl, by simp⟩
  | ok base =>
    obtain ⟨e, hsource⟩ := sourceText_eq disk reader machine input
    dsimp only
    rw [bind_of_eq hsource]
    cases disk.inputText? machine.files machine.standardInput input with
    | none => exact ⟨_, rfl, by simp⟩
    | some source =>
      dsimp only [Option.elim_some]
      cases hparse : Sheet.parse source with
      | error e => exact ⟨_, rfl, by simp; grind⟩
      | ok sheet =>
        refine ⟨_, rfl, fun a => ?_⟩
        obtain ⟨options, source', sheet'⟩ := a
        simp
        grind

theorem read_of_arises (h : j.Arises disk reader arguments files standardInput) :
    Request.read arguments = .ok j.request := Request.read_eq_ok_iff.2 h.request

theorem optionsOver_eq (r : Request) (base : Options) : r.optionsOver base =
    { base.withVariables r.bindings with warnUnresolved := base.warnUnresolved && !r.silent } := by
  unfold Request.optionsOver
  rw [← Options.warnUnresolved_withVariables base r.bindings]
  cases r.silent with
  | true => rw [if_pos rfl, Bool.not_true, Bool.and_false]
  | false => rw [if_neg Bool.false_ne_true, Bool.not_false, Bool.and_true]

theorem material_of_arises (h : j.Arises disk reader arguments files standardInput) :
    (disk.host reader).material j.request j.input ⟨files, standardInput, ""⟩ =
      (.ok ⟨j.options, j.source, j.sheet⟩, ⟨files, standardInput, ""⟩) := by
  obtain ⟨found, hfound, hiff⟩ := material_eq disk reader ⟨files, standardInput, ""⟩ j.request j.input
  rw [hfound, (hiff ⟨j.options, j.source, j.sheet⟩).2
    ⟨j.base, h.base, h.source, h.sheet, optionsOver_eq _ _⟩]

theorem exists_arises (hread : Request.read arguments = .ok r) (hinput : r.input = some input)
    {a : Material} (h : ((disk.host reader).material r input ⟨files, standardInput, ""⟩).1 = .ok a) :
    ∃ j : Job, j.Arises disk reader arguments files standardInput := by
  obtain ⟨found, hfound, hiff⟩ := material_eq disk reader ⟨files, standardInput, ""⟩ r input
  rw [hfound] at h
  obtain ⟨base, hbase, hsource, hsheet, -⟩ := (hiff a).1 h
  exact ⟨⟨r, input, base, a.source, a.sheet⟩, Request.read_eq_ok_iff.1 hread, hinput, hbase, hsource,
    hsheet⟩

/-! ## Delivering -/

theorem deliver_output (text : String) : (disk.host reader).deliver none text machine =
    (none, { machine with output := machine.output ++ text }) := rfl

theorem deliver_file (path text : String) :
    (disk.host reader).deliver (some path) text machine =
      (if (disk.write machine.files path text.toUTF8).1 then none else some (.unwritable path),
        { machine with files := (disk.write machine.files path text.toUTF8).2 }) := rfl

/-- What a job comes to, before it is delivered. -/
def prepared (j : Job) : Preparation := j.request.prepare j.input (.ok ⟨j.options, j.source, j.sheet⟩)

/-- Without a job, a run fails and leaves everything as it was. -/
theorem run_of_no_job (h : ¬ ∃ j : Job, j.Arises disk reader arguments files standardInput) :
    let o := disk.run reader arguments files standardInput
    o.exit.code = 1 ∧ o.output = "" ∧ o.files = files := by
  unfold run Host.run
  cases hread : Request.read arguments with
  | error e => exact ⟨rfl, rfl, rfl⟩
  | ok r =>
    dsimp only
    cases hinput : r.input with
    | none => exact ⟨rfl, rfl, rfl⟩
    | some input =>
      dsimp only
      obtain ⟨found, hfound, -⟩ := material_eq disk reader ⟨files, standardInput, ""⟩ r input
      rw [Host.runRequest, bind_of_eq hfound]
      cases found with
      | ok a => exact absurd (exists_arises hread hinput (congrArg Prod.fst hfound)) h
      | error e => exact ⟨rfl, rfl, rfl⟩

theorem run_of_arises (h : j.Arises disk reader arguments files standardInput) :
    disk.run reader arguments files standardInput =
      let delivery := (disk.host reader).deliver j.request.output j.text ⟨files, standardInput, ""⟩
      ⟨((prepared j).finish delivery.1).shown j.request.verbose, delivery.2.output,
        delivery.2.files⟩ := by
  unfold run Host.run
  rw [read_of_arises h]
  dsimp only
  rw [h.input]
  dsimp only
  rw [Host.runRequest, bind_of_eq (material_of_arises h)]
  rfl

/-- A job that can be worked out fails only if its output file cannot be written. -/
theorem run_of_refused (hatomic : disk.Atomic) (h : j.Arises disk reader arguments files standardInput)
    (hrefused : j.Refused disk files) :
    let o := disk.run reader arguments files standardInput
    o.exit.code = 1 ∧ o.output = "" ∧ o.files = files := by
  obtain ⟨path, houtput, hwrite⟩ := hrefused
  rw [run_of_arises h, houtput, deliver_file]
  dsimp only
  rw [hwrite]
  exact ⟨rfl, rfl, hatomic files path _ hwrite⟩

theorem run_of_not_refused (h : j.Arises disk reader arguments files standardInput)
    (hrefused : ¬ j.Refused disk files) :
    let o := disk.run reader arguments files standardInput
    o.exit = ((prepared j).finish none).shown j.request.verbose ∧ j.Receives disk j.text files o := by
  rw [run_of_arises h]
  unfold Job.Receives
  cases houtput : j.request.output with
  | none =>
    rw [deliver_output]
    exact ⟨rfl, String.empty_append, rfl⟩
  | some path =>
    have hwrite : (disk.write files path j.text.toUTF8).1 = true := by
      rw [← Bool.not_eq_false]
      exact fun hfalse => hrefused ⟨path, houtput, hfalse⟩
    rw [deliver_file]
    dsimp only
    rw [hwrite]
    exact ⟨rfl, rfl, Prod.ext hwrite rfl⟩

/-! ## Reports -/

/-- Without the log, the warnings are all that a delivered job reports. -/
theorem lines_delivered (j : Job) : (((prepared j).finish none).shown false).lines =
    ((Run.start j.sheet).process j.options).warnings.map fun w =>
      .message (j.input ++ ":" ++ w.line) := by
  unfold prepared Request.prepare
  dsimp only [Preparation.finish, Exit.shown]
  generalize (Run.start j.sheet).process j.options = run
  have hlog : (run.events.toList.map fun e => ReportLine.log .debug e.line).filter
      (·.isShown false) = [] := by
    simp [List.filter_eq_nil_iff, ReportLine.isShown]
  have hwarnings : (run.warnings.map fun w => ReportLine.message (j.input ++ ":" ++ w.line)).filter
      (·.isShown false) = run.warnings.map fun w => .message (j.input ++ ":" ++ w.line) := by
    simp [List.filter_eq_self, ReportLine.isShown]
  rw [List.filter_append, List.filter_append, hwarnings, List.filter_cons_of_neg Bool.false_ne_true,
    hlog]
  exact List.append_nil _

theorem errorText_delivered (j : Job) (time : String) :
    (((prepared j).finish none).shown false).errorText time =
      String.join (((Run.start j.sheet).process j.options).warnings.map fun w =>
        j.input ++ ":" ++ w.line ++ "\n") := by
  rw [Exit.errorText, lines_delivered, List.map_map]
  rfl

theorem expand_of_arises (h : j.Arises disk reader arguments files standardInput) :
    expand j.options j.source =
      .ok (j.expanded.print, ((Run.start j.sheet).process j.options).warnings) := by
  rw [expand, h.sheet]
  rfl

/-- On a disk where a write that fails changes nothing, a run fails, delivers nothing and changes no
file if there is no job or its output file cannot be written. Otherwise it delivers the text of a job,
in which the last value of a variable counts; without the log, the standard error has a line for each
warning and nothing else. -/
theorem run_delivers (hatomic : disk.Atomic) (reader : OptionsReader) (arguments : List String)
    (files : δ) (standardInput : ByteArray) :
    let o := disk.run reader arguments files standardInput
    (o.exit.code = 1 ∧ o.output = "" ∧ o.files = files ∧
      ∀ j : Job, j.Arises disk reader arguments files standardInput → j.Refused disk files) ∨
    (o.exit.code = 0 ∧ ∃ j : Job, j.Arises disk reader arguments files standardInput ∧
      ∃ css warnings, expand j.options j.source = .ok (css, warnings) ∧
      j.Receives disk (if j.request.outline then j.expanded.outline else css) files o ∧
      (j.request.verbose = false → ∀ time, o.exit.errorText time =
        String.join (warnings.map fun w => j.input ++ ":" ++ w.line ++ "\n")) ∧
      ∀ name, j.options.bindings[name]? =
        (j.request.bindings.reverse.lookup name).or j.base.bindings[name]?) := by
  intro o
  by_cases hjob : ∃ j : Job, j.Arises disk reader arguments files standardInput ∧
      ¬ j.Refused disk files
  · obtain ⟨j, hj, hrefused⟩ := hjob
    obtain ⟨hexit, hreceives⟩ := run_of_not_refused hj hrefused
    refine .inr ⟨by rw [hexit]; rfl, j, hj, _, _, expand_of_arises hj, hreceives,
      fun hverbose time => ?_, Options.getElem?_withVariables _ _⟩
    rw [hexit, hverbose]
    exact errorText_delivered j time
  · have hall : ∀ j : Job, j.Arises disk reader arguments files standardInput →
        j.Refused disk files := fun j hj =>
      Classical.byContradiction fun hrefused => hjob ⟨j, hj, hrefused⟩
    refine .inl ?_
    by_cases hsome : ∃ j : Job, j.Arises disk reader arguments files standardInput
    · obtain ⟨j, hj⟩ := hsome
      obtain ⟨hcode, houtput, hfiles⟩ := run_of_refused hatomic hj (hall j hj)
      exact ⟨hcode, houtput, hfiles, hall⟩
    · obtain ⟨hcode, houtput, hfiles⟩ := run_of_no_job hsome
      exact ⟨hcode, houtput, hfiles, hall⟩

/-- A variable of the options file is given anew twice, and the output goes to a file. -/
theorem run_delivers_file :
    let files : Files := Std.TreeMap.ofList
      [("o.json", "\x7b\"variables\": \x7b\"x\": \"0\", \"y\": \"1\"\x7d\x7d".toUTF8),
        ("a.css", "a \x7b b: $x $y $z \x7d".toUTF8)]
    let arguments :=
      ["--var", "x=1", "-o", "out.css", "a.css", "--config", "o.json", "--var", "x=2"]
    let o := Files.disk.run .standard arguments files .empty
    Files.disk.Atomic ∧ o.exit.code = 0 ∧ o.output = "" ∧
      o.files["out.css"]? = some "a \x7b\n  b: 2 1 $z;\n\x7d\n".toUTF8 ∧
      o.exit.errorText "" =
        "a.css:1:5: Could not resolve variable \"$z\" within \"$x $y $z\"\n" ∧
      ∃ j : Job, j.Arises Files.disk .standard arguments files .empty ∧
        ∃ css warnings, expand j.options j.source = .ok (css, warnings) := by
  intro files arguments o
  have hrun : o.exit.code = 0 ∧ o.output = "" ∧
      o.files["out.css"]? = some "a \x7b\n  b: 2 1 $z;\n\x7d\n".toUTF8 ∧
      o.exit.errorText "" =
        "a.css:1:5: Could not resolve variable \"$z\" within \"$x $y $z\"\n" := by decide +kernel
  obtain ⟨hcode, houtput, hwritten, herror⟩ := hrun
  obtain ⟨hfailed, -⟩ | ⟨-, j, hj, css, warnings, hexpand, -⟩ :=
    run_delivers Files.disk_atomic .standard arguments files .empty
  · exact absurd (hcode.symm.trans hfailed) (by decide)
  · exact ⟨Files.disk_atomic, hcode, houtput, hwritten, herror, j, hj, css, warnings, hexpand⟩

end Disk

end StyleExpand
