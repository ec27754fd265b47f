import PdfSchema.Proofs.Function.Parentheses
import PdfSchema.Proofs.Row.Cell
import PdfSchema.Proofs.Row.Reading
import PdfSchema.Proofs.Schema.Linking
import PdfSchema.Proofs.Schema.Merging

namespace PdfSchema

open Token

structure Identifier where
  text : String
  scan_text : scan text = .ok [⟨.keyName, text⟩]

namespace Identifier

variable (name : Identifier)

def token : Token := ⟨.keyName, name.text⟩

theorem readAlone_token : name.token.ReadAlone :=
  (scan_eq_ok_iff.1 name.scan_text).readAlone List.mem_cons_self

theorem exists_cons : ∃ c w, name.text.toList = c :: w ∧ Kind.keyName.starts c = true ∧
    ∀ d ∈ w, Kind.keyName.continues d = true :=
  Kind.shapes_of_spells (spells_of_first? name.readAlone_token.first)

theorem isEntry_text : Cell.IsEntry name.text := by
  obtain ⟨c, w, htext, hc, hw⟩ := name.exists_cons
  have hvisible : ∀ d ∈ c :: w, IsVisible d := by
    refine List.forall_mem_cons.2 ⟨Kind.isVisible_of_starts hc, fun d hd ↦ ?_⟩
    rcases Kind.isVisible_of_continues (hw d hd) with h | h | ⟨h, -⟩
    · exact h
    · cases h
    · cases h
  have hsemicolon : ∀ d ∈ c :: w, d ≠ ';' := by
    refine List.forall_mem_cons.2 ⟨?_, fun d hd ↦ ?_⟩
    · rintro rfl
      cases hc
    · rintro rfl
      cases hw ';' hd
  rw [Cell.IsEntry, htext]
  exact fun d hd ↦ ⟨(hvisible d hd).not_isBlank, hsemicolon d hd⟩

end Identifier

/-- What a name may be wrapped in: a function of a version, or an extension. -/
inductive Wrapper where
  | versioned (function : String) (hf : function ∈ linkWrappers) (version : String)
    (hv : isFormatVersion version = true)
  | extension (name : Identifier)

namespace Wrapper

def function : Wrapper → String
  | versioned function _ _ _ => function
  | extension _ => "Extension"

def guard : Wrapper → Token
  | versioned _ _ version _ => ⟨.real, version⟩
  | extension name => name.token

def around (w : Wrapper) (inner : String) : String :=
  "fn:" ++ w.function ++ "(" ++ w.guard.raw ++ "," ++ inner ++ ")"

def term (w : Wrapper) (inner : Term) : Term := .call w.function [.leaf w.guard, inner]

variable (w : Wrapper)

theorem readAlone_functionHead : (functionHead w.function).ReadAlone := by
  have hall : ∀ f ∈ "Extension" :: linkWrappers, first? (functionHead f).raw.toList =
        some (.functionHead, (functionHead f).raw.toList.length) ∧
      ofRaw .functionHead (functionHead f).raw.toList = .ok (functionHead f) := by
    decide +kernel
  have hmem : w.function ∈ "Extension" :: linkWrappers := by
    cases w with
    | versioned function hf version hv => exact List.mem_cons_of_mem _ hf
    | extension name => exact List.mem_cons_self
  exact ⟨(hall _ hmem).1, (hall _ hmem).2⟩

theorem readAlone_guard : w.guard.ReadAlone := by
  cases w with
  | versioned function hf version hv =>
    have hall : ∀ v ∈ formatVersions, first? v.toList = some (.real, v.toList.length) ∧
        ofRaw .real v.toList = .ok ⟨.real, v⟩ := by
      decide +kernel
    have hmem := List.contains_iff_mem.1 hv
    exact ⟨(hall _ hmem).1, (hall _ hmem).2⟩
  | extension name => exact name.readAlone_token

theorem isOperator_guard : (Term.leaf w.guard).isOperator = false := by cases w <;> rfl

theorem legible_guard : (Term.leaf w.guard).Legible := by
  refine .leaf w.readAlone_guard ?_ ?_ <;> cases w <;> rfl

theorem isEntry_around {inner : String} (h : Cell.IsEntry inner) :
    Cell.IsEntry (w.around inner) := by
  have hfunction : Cell.IsEntry w.function := by
    have hall : ∀ f ∈ "Extension" :: linkWrappers, Cell.IsEntry f := by decide
    cases w with
    | versioned function hf version hv => exact hall _ (List.mem_cons_of_mem _ hf)
    | extension name => exact hall _ List.mem_cons_self
  have hguard : Cell.IsEntry w.guard.raw := by
    have hall : ∀ v ∈ formatVersions, Cell.IsEntry v := by decide
    cases w with
    | versioned function hf version hv => exact hall _ (List.contains_iff_mem.1 hv)
    | extension name => exact name.isEntry_text
  simp only [around, Cell.isEntry_append]
  exact ⟨⟨⟨⟨⟨⟨by decide, hfunction⟩, by decide⟩, hguard⟩, by decide⟩, h⟩, by decide⟩

theorem checkCall_eq_none {inner : Term} (h : inner.isOperand = true) :
    checkCall w.function [.leaf w.guard, inner] = none := by
  have hrest : isExpression [inner] = true := (isExpression_singleton inner).trans h
  refine checkCall_eq_none_iff.2 ?_
  cases w with
  | versioned function hf version hv =>
    refine ⟨.versioned, Row.shape?_of_mem_linkWrappers hf, ?_⟩
    simp [Shape.accepts, Term.isVersion, Term.leaf?, guard, hv, hrest]
  | extension name =>
    refine ⟨.extension, (by decide : Function.shape? "Extension" = some .extension), ?_⟩
    simp [Shape.accepts, Term.isLeafOf, Term.kind?, Term.leaf?, guard, Identifier.token, hrest]

theorem leadsTo_term {inner : Term} {name : String} (h : inner.LeadsTo name) :
    (w.term inner).LeadsTo name := by
  cases w with
  | versioned function hf version hv => exact @Term.LeadsTo.wrapped _ _ [_] _ hf h
  | extension name => exact .extended h

/-- A name in a chain of wrappers, the outermost first, as text. -/
def chainText (chain : List Wrapper) (name : Identifier) : String :=
  chain.foldr around name.text

def chainTerm (chain : List Wrapper) (name : Identifier) : Term :=
  chain.foldr term (.leaf name.token)

variable (chain : List Wrapper) (name : Identifier)

theorem isOperand_chainTerm : (chainTerm chain name).isOperand = true := by
  cases chain with
  | nil => rfl
  | cons w chain => simp [chainTerm, term, Term.isOperand]

theorem isOperator_chainTerm : (chainTerm chain name).isOperator = false := by
  cases chain <;> rfl

theorem render_chainTerm : (chainTerm chain name).render = chainText chain name := by
  induction chain with
  | nil => rfl
  | cons w chain ih =>
    have hargs : Formula.render [.leaf w.guard, chainTerm chain name] =
        w.guard.raw ++ "," ++ chainText chain name := by
      simp [Formula.render, Formula.renderAfter, w.isOperator_guard, isOperator_chainTerm, ih,
        Term.render, String.append_assoc]
    change (Term.call w.function [.leaf w.guard, chainTerm chain name]).render =
      w.around (chainText chain name)
    rw [Term.render, hargs, around]
    simp only [String.append_assoc]

theorem legible_chainTerm : (chainTerm chain name).Legible := by
  induction chain with
  | nil => exact .leaf name.readAlone_token rfl rfl
  | cons w chain ih =>
    refine .group (.call w.function) w.readAlone_functionHead ?_ ?_
    · simp [Term.Apart, w.isOperator_guard]
    · exact List.forall_mem_cons.2 ⟨w.legible_guard, List.forall_mem_singleton.2 ih⟩

theorem parse_chainText : Formula.parse (chainText chain name) = .ok [chainTerm chain name] := by
  have hrender : Formula.render [chainTerm chain name] = chainText chain name := by
    simp [Formula.render, Formula.renderAfter, render_chainTerm]
  rw [← hrender]
  exact Formula.parse_render_of_legible (List.forall_mem_singleton.2 (legible_chainTerm chain name))
    (by simp)

theorem shapeErrors_chainTerm : Formula.shapeErrors [chainTerm chain name] = [] := by
  have hcalls : ∀ call ∈ (chainTerm chain name).calls, checkCall call.1 call.2 = none := by
    induction chain with
    | nil => exact fun call hcall ↦ nomatch hcall
    | cons w chain ih =>
      have h : (chainTerm (w :: chain) name).calls =
          (w.function, [.leaf w.guard, chainTerm chain name]) :: (chainTerm chain name).calls := by
        simp [chainTerm, term, Term.calls, Formula.calls]
      rw [h]
      exact List.forall_mem_cons.2 ⟨w.checkCall_eq_none (isOperand_chainTerm chain name), ih⟩
  rw [Formula.shapeErrors, List.filterMap_eq_nil_iff, Formula.calls, Formula.calls, List.append_nil]
  exact hcalls

theorem leadsTo_chainTerm : (chainTerm chain name).LeadsTo name.text := by
  induction chain with
  | nil => exact .name rfl
  | cons w chain ih => exact w.leadsTo_term ih

theorem exists_leaves_chainTerm :
    ∃ before, (chainTerm chain name).leaves = before ++ [name.token] := by
  induction chain with
  | nil => exact ⟨[], rfl⟩
  | cons w chain ih =>
    obtain ⟨before, hbefore⟩ := ih
    refine ⟨functionHead w.function :: w.guard :: before, ?_⟩
    change (Term.call w.function [.leaf w.guard, chainTerm chain name]).leaves = _
    simp [Term.leaves, Formula.leaves, hbefore]

theorem isEntry_chainText : Cell.IsEntry (chainText chain name) := by
  induction chain with
  | nil => exact name.isEntry_text
  | cons w chain ih => exact w.isEntry_around ih

theorem exists_chainText_cons (w : Wrapper) :
    ∃ s, (chainText (w :: chain) name).toList = 'f' :: 'n' :: ':' :: s := by
  refine ⟨(w.function ++ "(" ++ w.guard.raw ++ "," ++ chainText chain name ++ ")").toList, ?_⟩
  simp [chainText, around, String.append_assoc]

theorem exists_cons_chainText : ∃ c s, (chainText chain name).toList = c :: s ∧ c ≠ '[' := by
  cases chain with
  | nil =>
    obtain ⟨c, s, htext, hc, -⟩ := name.exists_cons
    refine ⟨c, s, htext, ?_⟩
    rintro rfl
    cases hc
  | cons w chain =>
    obtain ⟨s, htext⟩ := exists_chainText_cons chain name w
    exact ⟨'f', _, htext, by decide⟩

theorem callsFunction_chainText (w : Wrapper) :
    Cell.callsFunction (chainText (w :: chain) name) = true := by
  obtain ⟨s, htext⟩ := exists_chainText_cons chain name w
  rw [Cell.callsFunction, htext, Cell.occursIn]
  rfl

theorem optionalAlternatives_chainText {cell : String}
    (h : cell ∈ [chainText chain name, "[" ++ chainText chain name ++ "]"]) :
    Cell.optionalAlternatives cell false = some [some (chainText chain name)] := by
  obtain ⟨c, s, htext, hc⟩ := exists_cons_chainText chain name
  have hentry := isEntry_chainText chain name
  have hne : chainText chain name ≠ "" := by
    intro hnil
    rw [hnil] at htext
    cases htext
  rcases List.mem_cons.1 h with rfl | h
  · exact Cell.optionalAlternatives_eq_singleton hentry hne (by simpa [htext] using hc) false
  · rw [List.mem_singleton.1 h]
    exact Cell.optionalAlternatives_brackets (Cell.semicolon_notMem hentry) hne

end Wrapper

namespace Row

variable {text cell name : String} {t : Term}

theorem objectName?_linkTarget (t : Term) : (linkTarget t).objectName? = t.linkName? := by
  cases t with
  | leaf token =>
    rw [Term.linkName?]
    cases h : token.keyName? with
    | none => simp [linkTarget, Term.leaf?, h, LinkTarget.objectName?, Term.linkName?]
    | some name => simp [linkTarget, Term.leaf?, h, LinkTarget.objectName?]
  | call | paren | bracket => rfl

theorem linkTargets_of_parse (hcell : Cell.optionalAlternatives cell false = some [some text])
    {f : Formula} (hf : Formula.parse text = .ok f) :
    linkTargets cell = .ok (some [some (f.map linkTarget)]) := by
  simp [linkTargets, hcell, mapPresent_singleton, parseCell, hf, Except.map]

theorem linkNames_of_link {row : Row} {target : LinkTarget}
    (h : row.link = some [some [target]]) : row.linkNames = target.objectName?.toList := by
  cases hname : target.objectName? <;> simp [linkNames, links, h, hname]

theorem typeEntry_chainText (chain : List Wrapper) (name : Identifier) :
    ∃ entry, typeEntry (Wrapper.chainText chain name) = .ok entry ∧
      entry.name? = some name.text := by
  have hparse := Wrapper.parse_chainText chain name
  have hguarded : (TypeEntry.guarded [Wrapper.chainTerm chain name]).name? = some name.text := by
    obtain ⟨before, hleaves⟩ := Wrapper.exists_leaves_chainTerm chain name
    simp [TypeEntry.name?, Formula.leaves, hleaves, Identifier.token]
  by_cases hcalls : Cell.callsFunction (Wrapper.chainText chain name) = true
  · exact ⟨_, by simp [typeEntry, hcalls, parseCell, hparse, Except.map], hguarded⟩
  · cases chain with
    | nil => exact ⟨.named name.text, if_neg hcalls, rfl⟩
    | cons w chain => exact absurd (Wrapper.callsFunction_chainText chain name w) hcalls

/-- Whether a text is read as one term without errors, and stands for the name `name` where links
and types are read. -/
structure Denotes (text name : String) : Prop where
  parse : ∃ t, Formula.parse text = .ok [t] ∧ Formula.shapeErrors [t] = []
  link : ∀ cell ∈ [text, "[" ++ text ++ "]"], ∃ target,
    linkTargets cell = .ok (some [some [target]]) ∧ target.objectName? = some name
  readable : ∀ r r' : Table.Record, r.cell .link ∈ [text, "[" ++ text ++ "]"] →
    r.SameBut [.link] r' → (∃ findings row, ofRecord r' = (findings, .ok row)) →
      ∃ findings row, ofRecord r = (findings, .ok row)
  edge : ∀ r : Table.Record, r.cell .link ∈ [text, "[" ++ text ++ "]"] →
    ∀ findings row, ofRecord r = (findings, .ok row) → row.linkNames = [name] ∧
      ∀ (s : Schema) object rows, s.get? object = some rows → row ∈ KeyedList.values rows →
        name ∈ s.successors object
  type : ∃ entry, (Cell.alternatives text).mapM typeEntry = .ok [entry] ∧
    entry.name? = some name
  typed : ∀ r : Table.Record, r.cell .type = text →
    ∀ findings row, ofRecord r = (findings, .ok row) → row.types.map TypeEntry.name? = [some name]

/-- However deep a name is wrapped in versions and extensions, it is the name that is read. -/
theorem denotes_chainText (chain : List Wrapper) (name : Identifier) :
    Denotes (Wrapper.chainText chain name) name.text := by
  have hparse := Wrapper.parse_chainText chain name
  have hname : (linkTarget (Wrapper.chainTerm chain name)).objectName? = some name.text := by
    rw [objectName?_linkTarget]
    exact Term.linkName?_of_leadsTo (Wrapper.leadsTo_chainTerm chain name)
  have hlink {cell : String} (h : cell ∈ [Wrapper.chainText chain name,
      "[" ++ Wrapper.chainText chain name ++ "]"]) :
      linkTargets cell = .ok (some [some [linkTarget (Wrapper.chainTerm chain name)]]) :=
    linkTargets_of_parse (Wrapper.optionalAlternatives_chainText chain name h) hparse
  obtain ⟨entry, hentry, htype⟩ := typeEntry_chainText chain name
  have hentries : (Cell.alternatives (Wrapper.chainText chain name)).mapM typeEntry =
      .ok [entry] := by
    rw [Cell.alternatives_eq_singleton (Wrapper.isEntry_chainText chain name)]
    simp [hentry, bind, Except.bind, pure, Except.pure]
  constructor
  case parse => exact ⟨_, hparse, Wrapper.shapeErrors_chainTerm chain name⟩
  case link => exact fun cell hcell ↦ ⟨_, hlink hcell, hname⟩
  case readable =>
    rintro r r' hcell hsame ⟨findings, row, hrow⟩
    have hread := Table.Record.readAs_iff.2 ⟨findings, hrow⟩
    obtain ⟨findings, h⟩ := Table.Record.readAs_iff.1 (hread.rewrite (hsame.mono (by simp))
      (by rw [hsame .defaultValue (by decide)]; exact hread.defaultValue)
      (by rw [hsame .possibleValues (by decide)]; exact hread.possibleValues) (hlink hcell))
    exact ⟨findings, _, h⟩
  case edge =>
    intro r hcell findings row hrow
    have hread := Table.Record.readAs_iff.2 ⟨findings, hrow⟩
    have hnames : row.linkNames = [name.text] := by
      rw [linkNames_of_link (Except.ok.inj (hread.link.symm.trans (hlink hcell))), hname]
      rfl
    refine ⟨hnames, fun s object rows hobject hmem ↦ Schema.mem_successors_iff.2 ?_⟩
    exact ⟨rows, hobject, row, hmem, by rw [hnames]; exact List.mem_singleton_self _⟩
  case type => exact ⟨entry, hentries, htype⟩
  case typed =>
    rintro r hcell findings row hrow
    have htypes := (Table.Record.readAs_iff.2 ⟨findings, hrow⟩).types
    rw [hcell, hentries] at htypes
    rw [← Except.ok.inj htypes, List.map_singleton, htype]

theorem denotes_extension_of_versions :
    Denotes "fn:Extension(ADBE,fn:SinceVersion(1.5,fn:Deprecated(2.0,Catalog)))" "Catalog" := by
  have h := denotes_chainText
    [.extension ⟨"ADBE", by decide +kernel⟩,
      .versioned "SinceVersion" (by decide) "1.5" (by decide),
      .versioned "Deprecated" (by decide) "2.0" (by decide)] ⟨"Catalog", by decide +kernel⟩
  exact h

example : (ingest [rowTable "FileTrailer" "Root" "dictionary"
    "[fn:Extension(ADBE,fn:SinceVersion(1.5,fn:Deprecated(2.0,Catalog)))]"]).schema.successors
      "FileTrailer" = ["Catalog"] := by decide +kernel

end Row

end PdfSchema
