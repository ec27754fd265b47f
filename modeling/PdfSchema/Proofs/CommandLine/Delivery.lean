import Mathlib
import PdfSchema.CommandLine.Run
import PdfSchema.Proofs.FileTree.Unique

namespace PdfSchema.CommandLine

open FileTree

variable {directory : String} {t t' t'' : FileTree} {path text : String} {e : LoadError}
  {reports : List (String × Except LoadError String)} {files files' : List (Location × List UInt8)}

/-- Whether `stem` is what the name of the report on a document begins with: the stem of the name of
the file that the document is read from. -/
inductive HasReportStem (path : String) : String → Prop
  | file {name stem : String} (hname : Path.IsFileName path name) (hstem : Path.IsStem stem name) :
      HasReportStem path stem
  | noFile (h : ∀ name, ¬ Path.IsFileName path name) : HasReportStem path "report"

theorem hasReportStem_reportStem (path : String) : HasReportStem path (reportStem path) := by
  unfold reportStem
  cases hstem : Path.stem? path with
  | none =>
    refine .noFile fun name hname ↦ ?_
    cases hname.stem?_eq.symm.trans hstem
  | some stem =>
    obtain ⟨name, hname, hstem⟩ := Path.exists_isFileName_of_stem? hstem
    exact .file hname hstem

theorem HasReportStem.unique {stem stem' : String} (h : HasReportStem path stem)
    (h' : HasReportStem path stem') : stem = stem' := by
  cases h with
  | file hname hstem =>
    cases h' with
    | file hname' hstem' =>
      obtain rfl := hname.unique hname'
      exact hstem.unique hstem'
    | noFile hnone => exact absurd hname (hnone _)
  | noFile hnone =>
    cases h' with
    | file hname _ => exact absurd hname (hnone _)
    | noFile _ => rfl

theorem slash_notMem_reportStem (path : String) : '/' ∉ (reportStem path).toList := by
  unfold reportStem
  cases hstem : Path.stem? path with
  | none => decide
  | some stem => exact Path.slash_notMem_of_stem? hstem

/-- Whether nothing goes wrong with the files of reports when it is their turn, but for names that
are taken. -/
def Unhindered (directory : String) (t : FileTree)
    (reports : List (String × Except LoadError String)) : Prop :=
  ∀ before path text after, reports = before ++ (path, .ok text) :: after →
    (deliver (some directory) t before).tree.Admits directory (reportStem path)
      text.toUTF8.toList

/-- The files that reports are written to, one after the other, and the tree that they end in. Each
takes the first numbered name with the stem of its document that is not taken at its turn. -/
inductive Written (directory : String) : FileTree → List (String × Except LoadError String) →
    List (Location × List UInt8) → FileTree → Prop
  | nil (t : FileTree) : Written directory t [] [] t
  | skip {t t' : FileTree} {path : String} {e : LoadError}
      {reports : List (String × Except LoadError String)} {files : List (Location × List UInt8)}
      (rest : Written directory t reports files t') :
      Written directory t ((path, .error e) :: reports) files t'
  | file {t t₁ t' : FileTree} {path text stem : String} {l : Location}
      {reports : List (String × Except LoadError String)} {files : List (Location × List UInt8)}
      (hstem : HasReportStem path stem)
      (hnew : t.NewFile directory stem text.toUTF8.toList l t₁)
      (rest : Written directory t₁ reports files t') :
      Written directory t ((path, .ok text) :: reports) ((l, text.toUTF8.toList) :: files) t'

theorem tree_deliver_error :
    (deliver (some directory) t ((path, .error e) :: reports)).tree =
      (deliver (some directory) t reports).tree := rfl

theorem failure_deliver_error :
    (deliver (some directory) t ((path, .error e) :: reports)).failure =
      (deliver (some directory) t reports).failure := rfl

theorem deliver_ok {t₁ : FileTree} {written : String}
    (h : t.createUnique directory (reportStem path) text.toUTF8.toList = (t₁, .ok written))
    (reports : List (String × Except LoadError String)) :
    deliver (some directory) t ((path, .ok text) :: reports) =
      deliver (some directory) t₁ reports := by
  simp only [deliver, h]

theorem Unhindered.of_error (h : Unhindered directory t ((path, .error e) :: reports)) :
    Unhindered directory t reports := by
  intro before path' text' after heq
  have hadmits := h ((path, .error e) :: before) path' text' after (by rw [heq]; rfl)
  rwa [tree_deliver_error] at hadmits

theorem Unhindered.of_ok {t₁ : FileTree} {written : String}
    (h : Unhindered directory t ((path, .ok text) :: reports))
    (hcreate : t.createUnique directory (reportStem path) text.toUTF8.toList = (t₁, .ok written)) :
    Unhindered directory t₁ reports := by
  intro before path' text' after heq
  have hadmits := h ((path, .ok text) :: before) path' text' after (by rw [heq]; rfl)
  rwa [deliver_ok hcreate] at hadmits

theorem exists_written (h : Unhindered directory t reports) :
    (deliver (some directory) t reports).failure = none ∧
      ∃ files, Written directory t reports files (deliver (some directory) t reports).tree := by
  induction reports generalizing t with
  | nil => exact ⟨rfl, [], .nil t⟩
  | cons r reports ih =>
    obtain ⟨path, e | text⟩ := r
    · obtain ⟨hfailure, files, hfiles⟩ := ih h.of_error
      exact ⟨hfailure, files, .skip hfiles⟩
    · have hadmits : t.Admits directory (reportStem path) text.toUTF8.toList :=
        h [] path text reports rfl
      obtain ⟨t₁, written, l, hcreate, hnew⟩ :=
        exists_newFile hadmits (slash_notMem_reportStem path)
      obtain ⟨hfailure, files, hfiles⟩ := ih (h.of_ok hcreate)
      rw [deliver_ok hcreate]
      exact ⟨hfailure, _, .file (hasReportStem_reportStem path) hnew hfiles⟩

theorem unhindered_of_failure (h : (deliver (some directory) t reports).failure = none) :
    Unhindered directory t reports := by
  induction reports generalizing t with
  | nil =>
    intro before path text after heq
    simp at heq
  | cons r reports ih =>
    intro before path' text' after heq
    obtain ⟨path, e | text⟩ := r
    · cases before with
      | nil => cases heq
      | cons r before =>
        obtain ⟨rfl, rfl⟩ := List.cons_eq_cons.1 heq
        exact ih h before path' text' after rfl
    · cases hcreate : t.createUnique directory (reportStem path) text.toUTF8.toList with
      | mk t₁ result =>
        cases result with
        | error e =>
          simp only [deliver, hcreate] at h
          cases h
        | ok written =>
          rw [deliver_ok hcreate] at h
          cases before with
          | nil =>
            cases heq
            exact admits_of_createUnique hcreate
          | cons r before =>
            obtain ⟨rfl, rfl⟩ := List.cons_eq_cons.1 heq
            rw [deliver_ok hcreate]
            exact ih h before path' text' after rfl

theorem Written.contents (h : Written directory t reports files t') :
    files.map Prod.snd =
      reports.filterMap fun r ↦ r.2.toOption.map fun text ↦ text.toUTF8.toList := by
  induction h with
  | nil t => rfl
  | skip _ ih => simpa [Except.toOption] using ih
  | file _ _ _ ih => simpa [Except.toOption] using ih

theorem Written.gains (h : Written directory t reports files t') : t.Gains t' files := by
  induction h with
  | nil t => exact .refl t
  | skip _ ih => exact ih
  | file _ hnew _ ih => exact hnew.gains ih

theorem Written.unique (h : Written directory t reports files t')
    (h' : Written directory t reports files' t'') : files = files' ∧ t' = t'' := by
  induction h generalizing files' with
  | nil t =>
    cases h'
    exact ⟨rfl, rfl⟩
  | skip _ ih =>
    cases h' with
    | skip rest' => exact ih rest'
  | file hstem hnew _ ih =>
    cases h' with
    | file hstem' hnew' rest' =>
      obtain rfl := hstem.unique hstem'
      obtain ⟨rfl, rfl⟩ := hnew.unique hnew'
      obtain ⟨rfl, rfl⟩ := ih rest'
      exact ⟨rfl, rfl⟩

variable {a : Arguments} {paths : List String}

theorem reportOn_eq (w : Surroundings) (a : Arguments) (t : FileTree) (s : Schema) (path : String)
    (i : ℕ) : reportOn w a t s path i = (loadDocument w.filters t a.filter path).map fun d ↦
      Report.document path (w.clock i)
        (s.matchDocument d { rootObject := a.rootObject, maxDepth := a.maxDepth }) := by
  unfold reportOn
  cases loadDocument w.filters t a.filter path <;> rfl

theorem isOk_reportOn (w : Surroundings) (a : Arguments) (t : FileTree) (s : Schema)
    (path : String) (i : ℕ) :
    (reportOn w a t s path i).isOk = (loadDocument w.filters t a.filter path).isOk := by
  rw [reportOn_eq]
  cases loadDocument w.filters t a.filter path <;> rfl

theorem length_reportsOn (w : Surroundings) (a : Arguments) (t : FileTree) (s : Schema)
    (paths : List String) : (reportsOn w a t s paths).length = paths.length := by
  simp [reportsOn]

theorem countP_reportsOn (w : Surroundings) (a : Arguments) (t : FileTree) (s : Schema)
    (paths : List String) : (reportsOn w a t s paths).countP (fun r ↦ !r.2.isOk) =
      paths.countP fun path ↦ !(loadDocument w.filters t a.filter path).isOk := by
  conv_rhs => rw [← List.zipIdx_map_fst 0 paths, List.countP_map]
  rw [reportsOn, List.countP_map]
  simp only [Function.comp_def, isOk_reportOn]

theorem countFailure_eq_none_iff :
    countFailure reports = none ↔ reports.countP (fun r ↦ !r.2.isOk) = 0 := by
  simp [countFailure]

theorem message_of_countFailure {f : Failure} (h : countFailure reports = some f) :
    f.message = toString (reports.countP fun r ↦ !r.2.isOk) ++ " of " ++
      toString reports.length ++ " document(s) could not be matched" := by
  simp only [countFailure] at h
  split at h
  · cases h
  · cases h
    unfold Failure.message
    rfl

/-- In a directory, each document that can be loaded gets a new file with its report, in the order
of the documents, and all else stays. The run fails if there are documents that cannot be loaded,
and tells how many. -/
theorem matchDocuments_directory (w : Surroundings) (s : Schema)
    (hdirectory : a.reportDirectory = some directory)
    (hpaths : allDocumentPaths t a.documents = .ok paths)
    (h : Unhindered directory t (reportsOn w a t s paths)) :
    (∃ files,
      Written directory t (reportsOn w a t s paths) files (matchDocuments w a t s).tree ∧
      files.map Prod.snd = (paths.zipIdx.filterMap fun (path, i) ↦
        (loadDocument w.filters t a.filter path).toOption.map fun d ↦
          (Report.document path (w.clock i) (s.matchDocument d
            { rootObject := a.rootObject, maxDepth := a.maxDepth })).toUTF8.toList) ∧
      t.Gains (matchDocuments w a t s).tree files) ∧
    ((matchDocuments w a t s).failure = none ↔
      ∀ path ∈ paths, (loadDocument w.filters t a.filter path).isOk = true) ∧
    ∀ f, (matchDocuments w a t s).failure = some f → f.message =
      toString (paths.countP fun path ↦ !(loadDocument w.filters t a.filter path).isOk) ++
        " of " ++ toString paths.length ++ " document(s) could not be matched" := by
  obtain ⟨hnone, files, hfiles⟩ := exists_written h
  have htree : (matchDocuments w a t s).tree =
      (deliver (some directory) t (reportsOn w a t s paths)).tree := by
    simp only [matchDocuments, hpaths, hdirectory]
  have hfailure : (matchDocuments w a t s).failure = countFailure (reportsOn w a t s paths) := by
    simp only [matchDocuments, hpaths, hdirectory, hnone, Option.none_or]
  rw [htree, hfailure]
  refine ⟨⟨files, hfiles, ?contents, hfiles.gains⟩, ?failure, ?message⟩
  case contents =>
    rw [hfiles.contents, reportsOn, List.filterMap_map]
    refine List.filterMap_congr fun ⟨path, i⟩ _ ↦ ?_
    simp only [Function.comp_apply, reportOn_eq]
    cases loadDocument w.filters t a.filter path <;>
      simp only [Except.map, Except.toOption, Option.map]
  case failure =>
    rw [countFailure_eq_none_iff, countP_reportsOn, List.countP_eq_zero]
    simp only [Bool.not_eq_true', Bool.not_eq_false]
  case message =>
    intro f hf
    rw [message_of_countFailure hf, countP_reportsOn, length_reportsOn]

def plainText : String := "\x7b\"trailer\":\x7b\x7d\x7d"

/-- A language with one filter, which gives its input back. -/
def identityOnly : FilterLanguage where
  run text v := if text = "." then .ok [.ok v.render] else .error (.malformed [(text, "no filter")])

section Loading

open Json Decoding

theorem read_emptyObject {depth : ℕ} (hdepth : depth ≠ 0) (s : List Lexeme) :
    Draft.read depth (.openObject :: .closeObject :: s) =
      (.object [] none, ⟨s, Nat.le_add_right _ 2⟩) := by
  rw [Draft.read, if_neg hdepth, Draft.readMembers]
  rfl

theorem read_plainText : Draft.read Json.maxDepth (Lexeme.all plainText.toUTF8.toList) =
    (.object [("trailer", .object [] none)] none, ⟨[], Nat.zero_le _⟩) := by
  have hlexemes : Lexeme.all plainText.toUTF8.toList = [.openObject,
      .string (.ok "trailer") none, .colon, .openObject, .closeObject, .closeObject] := by cbv
  rw! [hlexemes]
  rw [Draft.read, if_neg (by decide), Draft.readMembers, read_emptyObject (by decide)]
  rfl

theorem output_identityOnly :
    identityOnly.output "." (.object [("trailer", .object [])]) =
      .ok (.object [("trailer", .object [])]) := by
  have hrender : (Json.object [("trailer", .object [])]).render = plainText := by cbv
  have hread : jsonOfText plainText = .ok (.object [("trailer", .object [])]) := by
    rw [jsonOfText, read_plainText]
    rfl
  have houtputs : identityOnly.outputs "." (.object [("trailer", .object [])]) =
      .ok [.object [("trailer", .object [])]] := by
    change [Except.ok (Json.object [("trailer", .object [])]).render].mapM
      FilterLanguage.readBack = _
    rw [hrender, List.mapM_cons, FilterLanguage.readBack, hread]
    rfl
  rw [FilterLanguage.output, houtputs]
  rfl

theorem ofBytes_plainText : Document.ofBytes identityOnly (some ".") plainText.toUTF8.toList =
    .ok ⟨.dictionary [], .empty⟩ := by
  have hinput : jsonOfBytes plainText.toUTF8.toList = .ok (.object [("trailer", .object [])]) := by
    rw [jsonOfBytes, read_plainText]
    rfl
  rw [Document.ofBytes, hinput]
  change Document.ofFiltered identityOnly "." _ = _
  rw [Document.ofFiltered, output_identityOnly]
  rfl

theorem ofBytes_openBracket : Document.ofBytes identityOnly (some ".") "[".toUTF8.toList =
    .error (.json ⟨[], .fault .endInList⟩) := by
  have hlexemes : Lexeme.all "[".toUTF8.toList = [.openArray] := by cbv
  have hinput : jsonOfBytes "[".toUTF8.toList = .error ⟨[], .fault .endInList⟩ := by
    rw [jsonOfBytes]
    rw! [hlexemes]
    rw [Draft.read, if_neg (by decide), Draft.readItems]
    rfl
  rw [Document.ofBytes, hinput]
  rfl

end Loading

/-- Documents of which two have one stem, one has the stem of a numbered name, and one cannot be
loaded; a report with that stem is there already. -/
def inbox : FileTree :=
  ([(["a"], .directory), (["a", "doc.json"], .file plainText.toUTF8.toList),
    (["doc.json"], .file plainText.toUTF8.toList), (["doc-1.json"], .file plainText.toUTF8.toList),
    (["bad.json"], .file "[".toUTF8.toList), (["out"], .directory),
    (["out", "doc.txt"], .file "old".toUTF8.toList)] : List (Location × FileNode)).foldl
      (fun t x ↦ t.put x.1 x.2) ⟨.empty, []⟩

def inboxArguments : Arguments where
  schemaDirectory := "schema"
  validate := false
  exportPath := none
  documents := ["a/doc.json", "bad.json", "doc.json", "doc-1.json"]
  reportDirectory := some "out"
  filter := some "."
  maxDepth := 8
  rootObject := none

def afternoon : Surroundings where
  filters := identityOnly
  clock i := ⟨⟨2024, 5, 1⟩, 14, 0, i, 7200⟩

theorem unhindered_inbox (x y z : String) (e : LoadError) :
    Unhindered "out" inbox [("a/doc.json", .ok x), ("bad.json", .error e), ("doc.json", .ok y),
      ("doc-1.json", .ok z)] := by
  have hfirst (x : List UInt8) : inbox.createUnique "out" (reportStem "a/doc.json") x =
    (inbox.put ["out", "doc-1.txt"] (.file x), .ok "out/doc-1.txt") := rfl
  have hsecond (x y : List UInt8) :
    (inbox.put ["out", "doc-1.txt"] (.file x)).createUnique "out" (reportStem "doc.json") y =
      ((inbox.put ["out", "doc-1.txt"] (.file x)).put ["out", "doc-2.txt"] (.file y),
        .ok "out/doc-2.txt") := rfl
  have hthird (x y z : List UInt8) :
    ((inbox.put ["out", "doc-1.txt"] (.file x)).put ["out", "doc-2.txt"] (.file y)).createUnique
      "out" (reportStem "doc-1.json") z =
        (((inbox.put ["out", "doc-1.txt"] (.file x)).put ["out", "doc-2.txt"] (.file y)).put
          ["out", "doc-1-1.txt"] (.file z), .ok "out/doc-1-1.txt") := rfl
  apply unhindered_of_failure
  rw [deliver_ok (hfirst _), failure_deliver_error, deliver_ok (hsecond _ _),
    deliver_ok (hthird _ _ _)]
  rfl

theorem written_inbox (x y z : String) (e : LoadError) : ∃ t', Written "out" inbox
    [("a/doc.json", .ok x), ("bad.json", .error e), ("doc.json", .ok y), ("doc-1.json", .ok z)]
    [(["out", "doc-1.txt"], x.toUTF8.toList), (["out", "doc-2.txt"], y.toUTF8.toList),
      (["out", "doc-1-1.txt"], z.toUTF8.toList)] t' := by
  have hdoc : HasReportStem "a/doc.json" "doc" := hasReportStem_reportStem "a/doc.json"
  have hdoc' : HasReportStem "doc.json" "doc" := hasReportStem_reportStem "doc.json"
  have hdoc1 : HasReportStem "doc-1.json" "doc-1" := hasReportStem_reportStem "doc-1.json"
  refine ⟨_, .file hdoc ⟨⟨["out"], 1, ⟨rfl, rfl⟩, rfl, rfl, ?_⟩, rfl⟩
    (.skip (.file hdoc' ⟨⟨["out"], 2, ⟨rfl, rfl⟩, rfl, rfl, ?_⟩, rfl⟩
      (.file hdoc1 ⟨⟨["out"], 1, ⟨rfl, rfl⟩, rfl, rfl, ?_⟩, rfl⟩ (.nil _))))⟩
  all_goals
    intro m hm
    interval_cases m <;> rfl

theorem matchDocuments_directory_inbox :
    ∃ files, files.map Prod.fst =
        [["out", "doc-1.txt"], ["out", "doc-2.txt"], ["out", "doc-1-1.txt"]] ∧
      inbox.Gains (matchDocuments afternoon inboxArguments inbox .empty).tree files ∧
      (matchDocuments afternoon inboxArguments inbox .empty).failure.map
        Failure.message = some "1 of 4 document(s) could not be matched" := by
  have hplain (path : String) (h : inbox.read path = .ok plainText.toUTF8.toList) :
      loadDocument identityOnly inbox (some ".") path = .ok ⟨.dictionary [], .empty⟩ := by
    simp only [loadDocument, h, ofBytes_plainText, Except.mapError]
  have hfirst := hplain "a/doc.json" rfl
  have hsecond := hplain "doc.json" rfl
  have hthird := hplain "doc-1.json" rfl
  have hbad : loadDocument identityOnly inbox (some ".") "bad.json" =
      .error (.document (.json ⟨[], .fault .endInList⟩)) := by
    have hread : inbox.read "bad.json" = .ok "[".toUTF8.toList := rfl
    simp only [loadDocument, hread, ofBytes_openBracket, Except.mapError]
  have hpaths : allDocumentPaths inbox inboxArguments.documents = .ok inboxArguments.documents :=
    rfl
  obtain ⟨x, y, z, hreports⟩ : ∃ x y z, reportsOn afternoon inboxArguments inbox .empty
      inboxArguments.documents = [("a/doc.json", .ok x), ("bad.json", .error _),
        ("doc.json", .ok y), ("doc-1.json", .ok z)] := by
    simp only [reportsOn, inboxArguments, afternoon, List.zipIdx, List.map, reportOn_eq, hfirst,
      hsecond, hthird, hbad, Except.map]
    exact ⟨_, _, _, rfl⟩
  obtain ⟨⟨files, hwritten, _, hgains⟩, hfailure, hmessage⟩ :=
    matchDocuments_directory afternoon .empty rfl hpaths (hreports ▸ unhindered_inbox x y z _)
  obtain ⟨t', hwritten'⟩ := written_inbox x y z _
  rw [hreports] at hwritten
  obtain ⟨rfl, _⟩ := hwritten.unique hwritten'
  refine ⟨_, rfl, hgains, ?_⟩
  cases hsome : (matchDocuments afternoon inboxArguments inbox .empty).failure with
  | none =>
    have hload := hfailure.1 hsome "bad.json" (by decide)
    simp only [inboxArguments, afternoon, hbad] at hload
    cases hload
  | some f =>
    have hcount : inboxArguments.documents.countP
        (fun path ↦ !(loadDocument afternoon.filters inbox inboxArguments.filter path).isOk) =
          1 := by
      simp only [inboxArguments, afternoon, List.countP_cons, hfirst, hsecond, hthird, hbad]
      rfl
    rw [Option.map_some, hmessage f hsome, hcount]
    cbv

end PdfSchema.CommandLine
