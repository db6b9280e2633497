import Mathlib
import Offside.CommandLine.Request
import Offside.Proofs.Token.Reading

/-
  Programs in several files: what one file gives does not depend
  on what the lexer and the parser were used for before.

  Key definitions include:
    * `Offside.Reader.alone`
    * `Offside.Reader.Use`
    * `Offside.Reader.Ready`

  Main statements:
    * `Offside.Reader.Ready.use`: a reader stays ready, whatever
      it is used for.
    * `Offside.Reader.Ready.parseFiles_ok`,
      `Offside.Reader.Ready.parseFiles_error`: the syntax trees
      of several files are those of each file alone, up to the
      first that has none.
    * `Offside.Request.outline_files`: so is what is shown of
      them.
-/

------------------------------------------------------------
-- Readers That Were Used
------------------------------------------------------------

namespace Offside.Reader

/- The syntax tree of a file by a new lexer and a new parser. -/
def alone
    (folder : Folder)
    (path : String) :
    Except Failure Node :=
  ((ofInput Input.empty).parseFile folder path).1

/- What a reader can be used for. -/
inductive Use where
  | text (text : String)
  | tokens (path : String)
  | file (path : String)

/- The reader after a use, whether that has succeeded or failed. -/
def use
    (folder : Folder)
    (r : Reader) :
    Use →
    Reader
  | .text text => (r.parseText text).2
  | .tokens path => (r.lexFile folder path).2
  | .file path => (r.parseFile folder path).2

/- The reader after several uses. -/
def after
    (r : Reader)
    (folder : Folder)
    (uses : List Use) :
    Reader :=
  uses.foldl (use folder) r

/-
  Characters are taken from the buffer, and operators bind as
  they do for a new parser.
-/
structure Ready
    (r : Reader) :
    Prop where
  buffer : r.scanner.input.direct = false
  table : r.parser.table = Precedence.default

theorem ready_ofInput
    {input : Input}
    (hBuffer : input.direct = false) :
    (ofInput input).Ready :=
  ⟨hBuffer, rfl⟩

end Offside.Reader

------------------------------------------------------------
-- What a Use Leaves
------------------------------------------------------------

namespace Offside

/- Taking characters does not change where they come from. -/
theorem Input.direct_take
    (i : Input)
    (n : Nat) :
    (i.take n).direct = i.direct := by
  unfold Input.take
  split <;> rfl

theorem Input.direct_loadFile
    (i : Input)
    (folder : Folder)
    (path : String) :
    (i.loadFile folder path).2.direct = i.direct := by
  unfold Input.loadFile
  cases folder.read path with
  | error e => rfl
  | ok bytes =>
      dsimp only
      cases String.fromUTF8? bytes with
      | none => rfl
      | some text => rfl

/- A parser keeps its table. -/
theorem Parser.table_parse
    (p : Parser)
    (tokens : TokenList)
    (name : String) :
    (p.parse tokens name).2.table = p.table := by
  unfold Parser.parse Parser.run
  dsimp only
  split <;> rfl

namespace Reader

variable {r : Reader}

theorem lex_snd
    (r : Reader) :
    r.lex.2 = { r with scanner := r.scanner.lex.2 } := by
  unfold lex
  split
  · rename_i hLex
    rw [hLex]
  · rename_i hLex
    rw [hLex]

theorem Ready.lex
    (hReady : r.Ready) :
    r.lex.2.Ready := by
  rw [lex_snd]
  constructor
  · exact (Input.direct_take _ _).trans hReady.buffer
  · exact hReady.table

theorem Ready.parse
    (hReady : r.Ready)
    (name : String) :
    (r.parse name).2.Ready := by
  have hLex := hReady.lex
  unfold Reader.parse
  split
  · rename_i hPair
    rwa [hPair] at hLex
  · rename_i tokens used hPair
    rw [hPair] at hLex
    have hTable :=
      used.parser.table_parse (TokenList.ofTokens tokens) name
    split
    all_goals
      rename_i hParse
      rw [hParse] at hTable
      exact ⟨hLex.buffer, hTable.trans hLex.table⟩

theorem Ready.loadText
    (hReady : r.Ready)
    (text : String) :
    ({ r with scanner.input := r.scanner.input.loadText text }).Ready :=
  ⟨hReady.buffer, hReady.table⟩

theorem loadFile_snd
    (r : Reader)
    (folder : Folder)
    (path : String) :
    (r.loadFile folder path).2 =
      { r with
        scanner.input := (r.scanner.input.loadFile folder path).2 } := by
  unfold loadFile
  split
  · rename_i hLoad
    rw [hLoad]
  · rename_i hLoad
    rw [hLoad]

theorem Ready.loadFile
    (hReady : r.Ready)
    (folder : Folder)
    (path : String) :
    (r.loadFile folder path).2.Ready := by
  rw [loadFile_snd]
  constructor
  · exact (Input.direct_loadFile _ _ _).trans hReady.buffer
  · exact hReady.table

theorem Ready.lexFile
    (hReady : r.Ready)
    (folder : Folder)
    (path : String) :
    (r.lexFile folder path).2.Ready := by
  have hLoad := hReady.loadFile folder path
  unfold Reader.lexFile
  split
  · rename_i hPair
    rwa [hPair] at hLoad
  · rename_i hPair
    rw [hPair] at hLoad
    exact hLoad.lex

theorem Ready.parseFile
    (hReady : r.Ready)
    (folder : Folder)
    (path : String) :
    (r.parseFile folder path).2.Ready := by
  have hLoad := hReady.loadFile folder path
  unfold Reader.parseFile
  split
  · rename_i hPair
    rwa [hPair] at hLoad
  · rename_i hPair
    rw [hPair] at hLoad
    exact hLoad.parse _

/- A reader stays ready, also after a use that has failed. -/
theorem Ready.use
    (hReady : r.Ready)
    (folder : Folder)
    (u : Use) :
    (r.use folder u).Ready := by
  cases u with
  | text text => exact (hReady.loadText text).parse _
  | tokens path => exact hReady.lexFile folder path
  | file path => exact hReady.parseFile folder path

theorem Ready.after
    (hReady : r.Ready)
    (folder : Folder)
    (uses : List Use) :
    (r.after folder uses).Ready := by
  induction uses generalizing r with
  | nil => exact hReady
  | cons u uses ih => exact ih (hReady.use folder u)

end Reader

end Offside

------------------------------------------------------------
-- What a File Gives
------------------------------------------------------------

namespace Offside

/- A file with a text puts its lines into the buffer. -/
theorem Input.loadFile_of_read
    {folder : Folder}
    {path text : String}
    (hRead : folder.read path = .ok text.toUTF8)
    (i : Input) :
    i.loadFile folder path =
      (.ok (), i.loadText (String.ofList
        (Text.spaceLines false (Text.unifyLineBreaks text.toList)))) := by
  have hText : String.fromUTF8? text.toUTF8 = some text := by
    have hValid : text.toUTF8.IsValidUTF8 := text.isValidUTF8
    unfold String.fromUTF8?
    rw [dif_pos hValid]
    rfl
  rw [Input.loadFile, hRead]
  dsimp only
  rw [hText]

/-
  A file that cannot be loaded fails for every input; any other
  one puts the same text into every buffer.
-/
theorem Input.loadFile_cases
    (folder : Folder)
    (path : String) :
    (∃ e, ∀ i : Input, (i.loadFile folder path).1 = .error e) ∨
      ∃ text, ∀ i : Input,
        i.loadFile folder path = (.ok (), i.loadText text) := by
  unfold Input.loadFile
  cases folder.read path with
  | error e => exact .inl ⟨e, fun _ => rfl⟩
  | ok bytes =>
      dsimp only
      cases String.fromUTF8? bytes with
      | none => exact .inl ⟨_, fun _ => rfl⟩
      | some text => exact .inr ⟨_, fun _ => rfl⟩

namespace Reader

variable {r : Reader}

theorem lex_fst
    (r : Reader) :
    r.lex.1 = r.scanner.lex.1.mapError .lexing := by
  unfold lex
  split
  · rename_i hLex
    rw [hLex]
    rfl
  · rename_i hLex
    rw [hLex]
    rfl

/- Parsing follows lexing, and starts anew but for the table. -/
theorem parse_fst
    (r : Reader)
    (name : String) :
    (r.parse name).1 =
      r.lex.1.bind fun tokens =>
        (({ Parser.new with table := r.parser.table }).parse
          (TokenList.ofTokens tokens) name).1.mapError .parsing := by
  unfold parse
  split
  · rename_i hLex
    rw [hLex]
    rfl
  · rename_i tokens used hLex
    have hParser : used.parser = r.parser := by
      have hSnd : used = _ := (congrArg Prod.snd hLex).symm.trans r.lex_snd
      rw [hSnd]
    have hSame :
        (r.parser.parse (TokenList.ofTokens tokens) name).1 =
          (({ Parser.new with table := r.parser.table }).parse
            (TokenList.ofTokens tokens) name).1 := by
      unfold Parser.parse Parser.run
      dsimp only
      rfl
    rw [hLex, hParser]
    change _ = Except.mapError _ _
    rw [← hSame]
    split
    · rename_i hParse
      rw [hParse]
      rfl
    · rename_i hParse
      rw [hParse]
      rfl

/- The tokens of a text that is put into the buffer. -/
theorem Ready.lex_loadText
    (hReady : r.Ready)
    (text : String) :
    (Reader.lex
        { r with scanner.input := r.scanner.input.loadText text }).1 =
      (Lexer.start text.toList).tokens.1.mapError .lexing := by
  rw [lex_fst]
  exact congrArg _ (Scanner.lexText_eq hReady.buffer text)

/- Two ready readers give the same for a file. -/
theorem Ready.parseFile_eq
    {r' : Reader}
    (hReady : r.Ready)
    (hReady' : r'.Ready)
    (folder : Folder)
    (path : String) :
    (r.parseFile folder path).1 = (r'.parseFile folder path).1 := by
  unfold Reader.parseFile Reader.loadFile
  rcases Input.loadFile_cases folder path with ⟨e, hLoad⟩ | ⟨text, hLoad⟩
  · rw [← Prod.mk.eta (p := r.scanner.input.loadFile folder path),
      ← Prod.mk.eta (p := r'.scanner.input.loadFile folder path),
      hLoad, hLoad]
  · rw [hLoad, hLoad]
    dsimp only
    rw [parse_fst, parse_fst, hReady.lex_loadText, hReady'.lex_loadText,
      hReady.table, hReady'.table]

theorem Ready.parseFile_fst
    (hReady : r.Ready)
    (folder : Folder)
    (path : String) :
    (r.parseFile folder path).1 = alone folder path :=
  hReady.parseFile_eq (ready_ofInput rfl) folder path

end Reader

end Offside

------------------------------------------------------------
-- Several Files
------------------------------------------------------------

namespace Offside

namespace Reader

variable {r : Reader}

/- The first file, and the others where it has a syntax tree. -/
theorem parseFiles_cons
    (r : Reader)
    (folder : Folder)
    (path : String)
    (paths : List String) :
    (r.parseFiles folder (path :: paths)).1 =
      (r.parseFile folder path).1.bind fun node =>
        ((r.parseFile folder path).2.parseFiles folder paths).1.map
          (node :: ·) := by
  rw [parseFiles]
  rcases r.parseFile folder path with ⟨result, used⟩
  cases result with
  | error e => rfl
  | ok node =>
      dsimp only [Except.bind]
      rcases used.parseFiles folder paths with ⟨results, last⟩
      cases results with
      | error e => rfl
      | ok nodes => rfl

/- The syntax trees of files that all have one alone. -/
theorem Ready.parseFiles_ok
    (hReady : r.Ready)
    {folder : Folder}
    {paths : List String}
    {nodes : List Node}
    (hAlone :
      List.Forall₂ (fun path node => alone folder path = .ok node)
        paths nodes) :
    (r.parseFiles folder paths).1 = .ok nodes := by
  induction hAlone generalizing r with
  | nil => rfl
  | cons hFirst _ ih =>
      rw [parseFiles_cons, hReady.parseFile_fst, hFirst, Except.bind,
        ih (hReady.parseFile folder _)]
      rfl

/- The failure of the first file that has none. -/
theorem Ready.parseFiles_error
    (hReady : r.Ready)
    {folder : Folder}
    {before : List String}
    {path : String}
    {e : Failure}
    (hBefore : ∀ p ∈ before, ∃ node, alone folder p = .ok node)
    (hFails : alone folder path = .error e)
    (after : List String) :
    (r.parseFiles folder (before ++ path :: after)).1 = .error e := by
  induction before generalizing r with
  | nil =>
      rw [List.nil_append, parseFiles_cons, hReady.parseFile_fst, hFails]
      rfl
  | cons first before ih =>
      rcases List.forall_mem_cons.mp hBefore with
        ⟨⟨node, hFirst⟩, hOthers⟩
      rw [List.cons_append, parseFiles_cons, hReady.parseFile_fst,
        hFirst, Except.bind, ih (hReady.parseFile folder first) hOthers]
      rfl

end Reader

namespace Request

/-
  Whatever the reader was used for, the outline is that of the
  syntax trees which the files have alone, in their order.  Where
  one of them has none, its failure is that of the run, and
  nothing is printed.
-/
theorem outline_files
    (q : Request)
    (hOutline : q.showOutline = true)
    (r : Reader)
    (hReady : r.Ready)
    (earlier folder : Folder)
    (uses : List Reader.Use) :
    (∀ nodes,
      List.Forall₂
          (fun path node => Reader.alone folder path = .ok node)
          q.inputFiles nodes →
        ((r.after earlier uses).parseFiles folder q.inputFiles).1 =
          .ok nodes ∧
        q.runWith (r.after earlier uses) folder =
          ⟨(outline nodes).1, (outline nodes).2, folder⟩) ∧
    (∀ before path after e,
      q.inputFiles = before ++ path :: after →
      (∀ p ∈ before, ∃ node, Reader.alone folder p = .ok node) →
      Reader.alone folder path = .error e →
        q.runWith (r.after earlier uses) folder =
          ⟨.error e, "", folder⟩) := by
  have hUsed : (r.after earlier uses).Ready := hReady.after earlier uses
  generalize r.after earlier uses = r at hUsed
  unfold runWith
  rw [if_pos hOutline]
  constructor
  · intro nodes hAlone
    have hFiles := hUsed.parseFiles_ok hAlone
    refine ⟨hFiles, ?_⟩
    rcases hRun : r.parseFiles folder q.inputFiles with ⟨result, used⟩
    rw [hRun] at hFiles
    cases hFiles
    rfl
  · intro before path after e hFiles hBefore hFails
    have hError := hUsed.parseFiles_error hBefore hFails after
    rw [← hFiles] at hError
    rcases hRun : r.parseFiles folder q.inputFiles with ⟨result, used⟩
    rw [hRun] at hError
    cases hError
    rfl

/- A folder with a program and a text that is none. -/
def sampleFolder : Folder where
  files :=
    [(["p"], "fn f(x):\n  x\n".toUTF8),
      (["q"], "1.2.3".toUTF8)]
  folders := []

/- The outline of both files. -/
def sampleRequest : Request :=
  { empty with
    inputFiles := ["p", "q"]
    showOutline := true }

theorem outline_files_sample :
    (Reader.alone sampleFolder "p").isOk = true ∧
    Reader.alone sampleFolder "q" =
      .error (.lexing ⟨"1.2.3"⟩) ∧
    (Reader.ofInput Input.empty).Ready ∧
    sampleRequest.runWith
        ((Reader.ofInput Input.empty).after sampleFolder
          [.text "fn g(", .file "p", .tokens "r"])
        sampleFolder =
      ⟨.error (.lexing ⟨"1.2.3"⟩), "", sampleFolder⟩ := by
  have hReady : (Reader.ofInput Input.empty).Ready :=
    Reader.ready_ofInput rfl
  have hRead :
      sampleFolder.read "p" = .ok "fn f(x):\n  x\n".toUTF8 := by
    cbv
  have hFirst : (Reader.alone sampleFolder "p").isOk = true := by
    unfold Reader.alone Reader.parseFile Reader.loadFile
    rw [Input.loadFile_of_read hRead]
    decide +kernel
  have hSecond :
      Reader.alone sampleFolder "q" =
        .error (.lexing ⟨"1.2.3"⟩) := by
    cbv
  refine ⟨hFirst, hSecond, hReady, ?_⟩
  apply (outline_files sampleRequest rfl _ hReady sampleFolder
    sampleFolder _).2 ["p"] "q" [] _ rfl
  · intro p hMem
    rw [List.mem_singleton.mp hMem]
    cases hNode : Reader.alone sampleFolder "p" with
    | ok node => exact ⟨node, rfl⟩
    | error e =>
        rw [hNode] at hFirst
        cases hFirst
  · exact hSecond

end Request

end Offside
