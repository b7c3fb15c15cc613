import TernLang.Command.Run
import TernLang.Proofs.Ast.Document
import TernLang.Proofs.Command.Files
import TernLang.Proofs.Command.Options
import TernLang.Proofs.Json.Lines

-- Running the document of a program is running the program.

namespace TernLang

namespace Batch

variable {files : Files} {settings : Settings} {l : Location} {name : String}

theorem isDirectory_dropLast_trace (files : Files) : files.isDirectory files.trace.dropLast := by
  rw [Files.trace, List.dropLast_concat]
  exact files.isDirectory_home

-- Beginning the trace leaves all other files.
theorem textAt?_beginTrace (h : l ≠ files.trace) :
    (beginTrace settings files).textAt? l = files.textAt? l := by
  unfold beginTrace
  split
  · exact Files.textAt?_write_of_ne files "" h
  · rfl

theorem beginTrace_eq_self (h : ¬0 < settings.level) (files : Files) :
    beginTrace settings files = files := if_neg h

theorem read_beginTrace {text : String} (h : files.read name = .ok text)
    (hne : 0 < settings.level → files.locate name ≠ .ok files.trace) :
    (beginTrace settings files).read name = .ok text := by
  unfold beginTrace
  split
  · rename_i hlevel
    exact Files.read_write_of_ne h (isDirectory_dropLast_trace files) (hne hlevel) ""
  · exact h

-- Another file does not change whether the trace can be opened.
theorem openTrace_write (hl : files.isDirectory l.dropLast) (text : String) :
    openTrace settings (files.write l text) =
      if 0 < settings.level ∧ files.isDirectory files.trace then .error .isDirectory
      else .ok (beginTrace settings (files.write l text)) := by
  rw [openTrace, Files.trace_write, Files.isDirectory_write hl]

theorem textOf_eq_ok {source : String} : textOf files name = .ok source ↔
    ∃ text, files.read name = .ok text ∧ source = String.ofList (Text.unifyLines text.toList) := by
  unfold textOf
  cases files.read name with
  | error e => simp [bind, Except.bind]
  | ok text => simp [bind, Except.bind, pure, Except.pure, eq_comm]

theorem textOf_beginTrace {source : String} (h : textOf files name = .ok source)
    (hne : 0 < settings.level → files.locate name ≠ .ok files.trace) :
    textOf (beginTrace settings files) name = .ok source := by
  obtain ⟨text, hread, hsource⟩ := textOf_eq_ok.1 h
  exact textOf_eq_ok.2 ⟨text, read_beginTrace hread hne, hsource⟩

end Batch

namespace Command

open Options Batch

-- Two outcomes that look the same, with the same trace.
structure Outcome.Agrees (a b : Outcome) : Prop where
  ending : a.ending = b.ending
  output : a.output = b.output
  errors : a.errors = b.errors
  trace : a.files.textAt? a.files.trace = b.files.textAt? b.files.trace

-- Where the document of a program is written.
def documentPath (name : String) : Path := (Path.parse name).extend ".ast.json"

theorem isFile_documentPath (name : String) : (documentPath name).IsFile :=
  Path.isFile_extend name (by decide) (by decide)

theorem getLast?_documentPath (name : String) :
    ∃ s, (documentPath name).steps.getLast? = some (s ++ ".ast.json") :=
  ⟨_, Path.getLast?_extend _ _⟩

theorem ne_of_parse_eq {p q : String} (hbeside : Path.parse q = documentPath p) : q ≠ "" := by
  rintro rfl
  have hsteps := (isFile_documentPath p).nonempty
  rw [← hbeside] at hsteps
  exact hsteps rfl

-- A name with the ending of documents is not one with another last letter.
theorem append_ne_of_getLast? (s : String) {t : String} (ht : t.toList.getLast? ≠ some 'n') :
    s ++ ".ast.json" ≠ t := by
  rintro rfl
  apply ht
  rw [String.toList_append, List.getLast?_append]
  rfl

variable {files : Files} {place : Location}

-- A document is never written to the file of the trace.
theorem trace_ne_of_target {name : String} (h : files.target (documentPath name) = .ok place) :
    files.trace ≠ place := by
  rintro rfl
  obtain ⟨s, hlast⟩ := getLast?_documentPath name
  have hplace := Files.getLast?_of_target h
  rw [Files.trace, List.getLast?_concat, hlast] at hplace
  exact append_ne_of_getLast? s (t := "debug.txt") (by decide) (Option.some.inj hplace).symm

theorem agrees_saveTrace {session : Session} {a b : Files}
    (h : ¬0 < session.settings.level → a.textAt? a.trace = b.textAt? b.trace) :
    (saveTrace session a).textAt? (saveTrace session a).trace =
      (saveTrace session b).textAt? (saveTrace session b).trace := by
  unfold saveTrace
  split
  · simp only [Files.trace_write, Files.textAt?_write_self]
  · rename_i hlevel
    exact h hlevel

theorem verbose_mem_of_level {settings : List Setting} {d : Option Int}
    (h : 0 < (⟨settings.count .verbose, d⟩ : Settings).level) : Setting.verbose ∈ settings :=
  List.count_pos_iff.1 (Int.ofNat_lt.1 h)

theorem given_of_ne {name : String} (h : name ≠ "") : given (some name) = some name := by
  simp [given, h]

section Runs

variable [Machine]

-- What a program does depends on the files only by the trace that is there already.
theorem agrees_runProgram {settings : Settings} {a b : Files} (input : String) (program : Node)
    (h : ¬0 < settings.level → a.textAt? a.trace = b.textAt? b.trace) :
    (runProgram settings a input program).Agrees (runProgram settings b input program) := by
  have hsettings : ((Session.start settings input).run program).2.settings = settings := by
    unfold Session.run Session.perform
    split <;> rfl
  unfold runProgram ofNode
  generalize (Session.start settings input).run program = result at hsettings
  obtain ⟨outcome, session⟩ := result
  have htrace := agrees_saveTrace (hsettings.symm ▸ h)
  simp only
  cases outcome with
  | ok value => exact ⟨rfl, rfl, rfl, htrace⟩
  | error failure => cases failure <;> exact ⟨rfl, rfl, rfl, htrace⟩

variable {k : Nat} {d : Option Int} {name : String}

theorem run_of_options {args : List String} {options : Options}
    (h : Options.parse args = .ok options) (files : Files) (input : String) :
    run args files input = perform options files input := by
  unfold run
  simp only [h]

theorem run_of_usage {args : List String} (h : Options.parse args = .error .usage) (files : Files)
    (input : String) :
    run args files input = { ending := .status 2, errors := usage, files } := by
  unfold run
  simp only [h]

theorem perform_program (h : name ≠ "") (files : Files) (input : String) :
    perform { verbosity := k, depth := d, program := some name } files input =
      tracing ⟨k, d⟩ files fun files => runSource ⟨k, d⟩ files input name := by
  unfold perform
  simp only [given_of_ne h]
  rfl

theorem perform_ast (h : name ≠ "") (files : Files) (input : String) :
    perform { verbosity := k, depth := d, ast := some name } files input =
      tracing ⟨k, d⟩ files fun files => runDocument ⟨k, d⟩ files input name := by
  unfold perform
  simp only [given_of_ne h]
  rfl

theorem run_emit (h : name ≠ "") (hname : IsOperand name) (files : Files) (input : String) :
    run ["--emit-ast", name] files input = emit files name := by
  rw [run_of_options (parse_emit hname)]
  unfold perform
  simp only [given_of_ne h]

-- The document of a program, as it was written, runs as the program.
theorem runDocument_of_isKept {program : Node} (hkept : program.IsKept)
    (hreads : Machine.reads program.toTree.toJson) {settings : Settings}
    (hread : files.read (Path.parse name).text = .ok program.toTree.toJson.render)
    (input : String) :
    runDocument settings files input name = runProgram settings files input program := by
  have htext : textOf files (Path.parse name).text = .ok program.toTree.toJson.render := by
    refine textOf_eq_ok.2 ⟨_, hread, ?_⟩
    rw [Json.unifyLines_render, String.ofList_toList]
  unfold runDocument
  simp only [htext, Json.parse_render hkept.lasting.writable, hreads, if_true,
    Tree.ofJson_toJson hkept.lasting.whole, hkept.toNode]

variable {program : Node} {p q source : String}

theorem emit_of_parse (hsource : textOf files (Path.parse p).text = .ok source)
    (hparse : Node.parse source = .ok program) (htarget : files.target (documentPath p) = .ok place)
    (hwrites : Machine.writes program.toTree.toJson) :
    emit files p =
      { ending := .status 0, output := (documentPath p).text ++ "\n"
        files := files.write place program.toTree.toJson.render } := by
  rw [documentPath] at htarget
  unfold emit
  simp only [hsource, hparse, htarget, hwrites, if_true, documentPath]

theorem emit_of_error (hsource : textOf files (Path.parse p).text = .ok source) {e : Error}
    (hparse : Node.parse source = .error (.error e)) : emit files p = failed files "" e.text := by
  unfold emit
  simp only [hsource, hparse, ofFailure]

theorem runSource_of_error {settings : Settings}
    (hsource : textOf files (Path.parse p).text = .ok source) {e : Error}
    (hparse : Node.parse source = .error (.error e)) (input : String) :
    runSource settings files input p = failed files "" e.text := by
  unfold runSource
  simp only [hsource, hparse, ofFailure]

-- The two runs agree once the document is written, whatever the level of the trace and the depth.
theorem agrees_runDocument (hlength : source.length + 1 < 10 ^ Reading.digitLimit)
    (hbeside : Path.parse q = documentPath p)
    (hsource : textOf files (Path.parse p).text = .ok source)
    (hparse : Node.parse source = .ok program) (htarget : files.target (documentPath p) = .ok place)
    (hreads : Machine.reads program.toTree.toJson) {settings : Settings}
    (htrace : 0 < settings.level → files.locate (Path.parse p).text ≠ .ok files.trace)
    (input : String) :
    (tracing settings (files.write place program.toTree.toJson.render) fun files =>
        runDocument settings files input q).Agrees
      (tracing settings files fun files => runSource settings files input p) := by
  have hkept := Node.isKept_of_parse hparse (by rwa [String.length_toList])
  have hne := trace_ne_of_target htarget
  have hplace := Files.isDirectory_of_target htarget
  have hsame : (files.write place program.toTree.toJson.render).textAt? files.trace =
      files.textAt? files.trace := Files.textAt?_write_of_ne files _ hne
  unfold tracing
  rw [openTrace_write hplace, openTrace]
  by_cases hblocked : 0 < settings.level ∧ files.isDirectory files.trace
  · rw [if_pos hblocked, if_pos hblocked]
    exact ⟨rfl, rfl, rfl, hsame⟩
  rw [if_neg hblocked, if_neg hblocked]
  have hread : (beginTrace settings (files.write place program.toTree.toJson.render)).read
      (Path.parse q).text = .ok program.toTree.toJson.render := by
    rw [hbeside]
    refine read_beginTrace (Files.read_write (isFile_documentPath p) htarget _) fun _ htrace => ?_
    have hlocate := Files.locate_of_target (isFile_documentPath p) htarget
      program.toTree.toJson.render
    exact hne (Except.ok.inj (htrace.symm.trans hlocate))
  simp only [runDocument_of_isKept hkept hreads hread]
  unfold runSource
  simp only [textOf_beginTrace hsource htrace, hparse]
  refine agrees_runProgram input program fun hlevel => ?_
  rw [beginTrace_eq_self hlevel, beginTrace_eq_self hlevel]
  exact hsame

-- A program that parses is written beside its source, and its document runs as its source does. For
-- a program that does not parse, both ways report the same error, and no document is written.
theorem run_emitted {files : Files} {p q source : String} {settings : List Setting}
    (hgiven : p ≠ "") (hp : IsOperand p) (hq : IsOperand q)
    (hbeside : Path.parse q = documentPath p)
    (hsource : textOf files (Path.parse p).text = .ok source)
    (hlength : source.length + 1 < 10 ^ Reading.digitLimit)
    (hsettings : ∀ s ∈ settings, s.IsGiven)
    (htrace : .verbose ∈ settings → files.locate (Path.parse p).text ≠ .ok files.trace)
    (input : String) :
    (∀ program place, Node.parse source = .ok program →
        files.target (documentPath p) = .ok place →
        Machine.writes program.toTree.toJson → Machine.reads program.toTree.toJson →
        run ["--emit-ast", p] files input =
            { ending := .status 0, output := (documentPath p).text ++ "\n"
              files := files.write place program.toTree.toJson.render } ∧
          (run (settings.flatMap Setting.args ++ ["--ast", q])
              (files.write place program.toTree.toJson.render) input).Agrees
            (run (settings.flatMap Setting.args ++ [p]) files input)) ∧
      ∀ e, Node.parse source = .error (.error e) →
        run ["--emit-ast", p] files input = failed files "" e.text ∧
          ∀ options, Options.parse (settings.flatMap Setting.args ++ [p]) = .ok options →
            (.verbose ∈ settings → ¬files.isDirectory files.trace) →
            ∃ later, run (settings.flatMap Setting.args ++ [p]) files input =
                failed later "" e.text ∧
              ∀ l, l ≠ files.trace → later.textAt? l = files.textAt? l := by
  have hdocument := ne_of_parse_eq hbeside
  refine ⟨fun program place hparse htarget hwrites hreads => ⟨?_, ?_⟩, fun e hparse => ⟨?_, ?_⟩⟩
  · rw [run_emit hgiven hp, emit_of_parse hsource hparse htarget hwrites]
  · rcases parse_settings hsettings with hstop | ⟨d, hoptions⟩
    · rw [run_of_usage (hstop p hp).1, run_of_usage (hstop q hq).2]
      have hne : files.trace ≠ place := trace_ne_of_target htarget
      exact ⟨rfl, rfl, rfl, Files.textAt?_write_of_ne files _ hne⟩
    · rw [run_of_options (hoptions p hp).1, run_of_options (hoptions q hq).2,
        perform_program hgiven, perform_ast hdocument]
      exact agrees_runDocument hlength hbeside hsource hparse htarget hreads
        (fun hlevel => htrace (verbose_mem_of_level hlevel)) input
  · rw [run_emit hgiven hp, emit_of_error hsource hparse]
  · intro options hgivenOptions hopen
    rcases parse_settings hsettings with hstop | ⟨d, hoptions⟩
    · rw [(hstop p hp).1] at hgivenOptions
      cases hgivenOptions
    · let given : Settings := ⟨settings.count .verbose, d⟩
      have htext : textOf (beginTrace given files) (Path.parse p).text = .ok source :=
        textOf_beginTrace hsource fun hlevel => htrace (verbose_mem_of_level hlevel)
      have hopened : openTrace given files = .ok (beginTrace given files) :=
        if_neg fun hboth => hopen (verbose_mem_of_level hboth.1) hboth.2
      refine ⟨beginTrace given files, ?_, fun l hl => textAt?_beginTrace hl⟩
      rw [run_of_options (hoptions p hp).1, perform_program hgiven, tracing, hopened]
      exact runSource_of_error htext hparse input

end Runs

section

attribute [local instance] Machine.usual

-- The program `1` with a trace, at a depth of 5.
theorem run_emitted_number :
    let files : Files := { texts := [(["a"], "1")] }
    (run ([.verbose, .depth (toString (5 : Int))].flatMap Setting.args ++ ["--ast", "a.ast.json"])
        (run ["--emit-ast", "a"] files "").files "").Agrees
      (run ([.verbose, .depth (toString (5 : Int))].flatMap Setting.args ++ ["a"]) files "") := by
  intro files
  have hparse : Node.parse "1" =
      .ok (.program .start (.list [.literal .start (.int 1) (.str "Integer")])) := rfl
  have hsettings : ∀ s ∈ [Setting.verbose, .depth (toString (5 : Int))], s.IsGiven := by
    refine List.forall_mem_cons.2 ⟨?_, List.forall_mem_singleton.2 (isGiven_depth 5)⟩
    rintro value ⟨⟩
  have hsource : textOf files (Path.parse "a").text = .ok "1" := rfl
  have hlocate : files.locate (Path.parse "a").text ≠ .ok files.trace := by decide
  obtain ⟨hemitted, hagrees⟩ := (run_emitted (by decide) (by decide) (by decide)
    (Path.parse_text (isFile_documentPath "a")) hsource (by decide +kernel) hsettings
    (fun _ => hlocate) "").1 _ ["a.ast.json"] hparse rfl (by decide) (by decide)
  rw [hemitted]
  exact hagrees

-- A name that is taken for an option is not written out.
theorem not_forall_emitted : ¬∀ (files : Files) (p source : String) (program : Node),
    textOf files (Path.parse p).text = .ok source → Node.parse source = .ok program →
      (run ["--emit-ast", p] files "").ending = .status 0 := by
  intro h
  have hending := h { texts := [(["-x"], "")] } "-x" "" (.program .start (.list [])) rfl rfl
  exact absurd hending (by decide)

end

end Command

end TernLang
