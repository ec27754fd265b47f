import PdfSchema.Proofs.Match.Lookup
import PdfSchema.Proofs.Schema.Soundness

namespace PdfSchema

/-- Whether a term leads to the object `name`, through any nesting of wrappers. -/
inductive Term.LeadsTo : Term → String → Prop
  | name {token : Token} {name : String} (h : token.keyName? = some name) :
    LeadsTo (.leaf token) name
  | wrapped {wrapper name : String} {args : List Term} {operand : Term}
    (hw : wrapper ∈ linkWrappers) (h : LeadsTo operand name) :
    LeadsTo (.call wrapper (args ++ [operand])) name
  | extended {name : String} {extension operand : Term} {args : List Term}
    (h : LeadsTo operand name) :
    LeadsTo (.call "Extension" (extension :: operand :: args)) name

theorem Formula.lastLinkName?_snoc (args : List Term) (t : Term) :
    Formula.lastLinkName? (args ++ [t]) = t.linkName? := by
  induction args with
  | nil => rw [List.nil_append, Formula.lastLinkName?]
  | cons a args ih =>
    cases args with
    | nil => rw [List.cons_append, List.nil_append, Formula.lastLinkName?, Formula.lastLinkName?]
    | cons b args => rw [List.cons_append, List.cons_append, Formula.lastLinkName?]; exact ih

theorem Term.linkName?_call (wrapper : String) (args : List Term) :
    (Term.call wrapper args).linkName? =
      if linkWrappers.contains wrapper then Formula.lastLinkName? args
      else if wrapper = "Extension" then args[1]?.bind Term.linkName?
      else none := by
  cases args with
  | nil => rw [Term.linkName?]; exacts [rfl, fun _ _ _ h ↦ nomatch h]
  | cons a args =>
    cases args with
    | nil => rw [Term.linkName?]; exacts [rfl, fun _ _ _ h ↦ nomatch h]
    | cons b args => rw [Term.linkName?]; rfl

theorem Term.linkName?_of_leadsTo {t : Term} {name : String} (h : t.LeadsTo name) :
    t.linkName? = some name := by
  induction h with
  | name h => rw [Term.linkName?]; exact h
  | wrapped hw _ ih =>
    rw [Term.linkName?_call, if_pos (List.contains_iff_mem.2 hw), Formula.lastLinkName?_snoc, ih]
  | extended _ ih =>
    rw [Term.linkName?_call, if_neg (by decide), if_pos rfl]
    exact ih

mutual

theorem Term.leadsTo_of_linkName? {name : String} :
    ∀ t : Term, t.linkName? = some name → t.LeadsTo name
  | .leaf token, h => .name (by rwa [Term.linkName?] at h)
  | .call wrapper args, h => by
    rw [Term.linkName?_call] at h
    split at h
    · rename_i hw
      obtain ⟨before, operand, rfl, hoperand⟩ := Formula.leadsTo_of_lastLinkName? args h
      exact .wrapped (List.contains_iff_mem.1 hw) hoperand
    · split at h
      · rename_i hw
        subst hw
        match args, h with
        | _ :: operand :: _, h => exact .extended (Term.leadsTo_of_linkName? operand h)
      · cases h
  | .paren _, h => by rw [Term.linkName?] at h; cases h
  | .bracket _, h => by rw [Term.linkName?] at h; cases h

theorem Formula.leadsTo_of_lastLinkName? {name : String} :
    ∀ ts : List Term, Formula.lastLinkName? ts = some name →
      ∃ before t, ts = before ++ [t] ∧ t.LeadsTo name
  | [], h => by rw [Formula.lastLinkName?] at h; cases h
  | [t], h => ⟨[], t, rfl, Term.leadsTo_of_linkName? t (by rwa [Formula.lastLinkName?] at h)⟩
  | a :: b :: ts, h => by
    rw [Formula.lastLinkName?] at h
    obtain ⟨before, t, hts, ht⟩ := Formula.leadsTo_of_lastLinkName? (b :: ts) h
    exact ⟨a :: before, t, by rw [hts, List.cons_append], ht⟩

end

theorem Term.linkName?_eq_some_iff {t : Term} {name : String} :
    t.linkName? = some name ↔ t.LeadsTo name :=
  ⟨t.leadsTo_of_linkName?, Term.linkName?_of_leadsTo⟩

theorem Formula.eq_of_call?_eq_some {f : Formula} {name : String} {args : List Term}
    (h : Formula.call? f = some (name, args)) : f = [.call name args] := by
  unfold Formula.call? at h
  split at h
  · rename_i t
    cases t <;> cases h
    rfl
  · cases h

namespace LinkTarget

variable {target : LinkTarget} {name : String}

def LeadsTo : LinkTarget → String → Prop
  | object name, name' => name = name'
  | guarded f, name => ∃ t, f = [t] ∧ t.LeadsTo name

theorem objectName?_eq_some_iff : target.objectName? = some name ↔ target.LeadsTo name := by
  cases target with
  | object name' => exact ⟨Option.some.inj, congrArg some⟩
  | guarded f =>
    match f with
    | [] => simp [objectName?, LeadsTo]
    | [t] => simp [objectName?, LeadsTo, Term.linkName?_eq_some_iff]
    | _ :: _ :: _ => simp [objectName?, LeadsTo]

/-- Whether a target is a version wrapper that leads nowhere. -/
structure Unbound (target : LinkTarget) : Prop where
  wrapper : ∃ wrapper ∈ linkWrappers, ∃ version operand,
    target = .guarded [.call wrapper (version :: operand)] ∧ version.isVersion = true ∧
      (operand = [] ∨ isExpression operand = true)
  leads : ∀ name, ¬ target.LeadsTo name

end LinkTarget

namespace Row

variable {row : Row}

theorem accepts_of_shapeFindings (h : shapeFindings row = []) {column : Column} {f : Formula}
    (hf : (column, f) ∈ row.formulas) {name : String} {args : List Term}
    (hcall : (name, args) ∈ Formula.calls f) :
    ∃ shape, Function.shape? name = some shape ∧ shape.accepts args = true := by
  have herrors := List.map_eq_nil_iff.1 (List.flatMap_eq_nil_iff.1 h _ hf)
  have hnone := List.filterMap_eq_nil_iff.1 herrors _ hcall
  simp only [checkCall] at hnone
  split at hnone
  · cases hnone
  · rename_i shape hshape
    split at hnone
    · rename_i haccepts
      exact ⟨shape, hshape, haccepts⟩
    · cases hnone

theorem mem_formulas_of_mem_links {f : Formula} (h : .guarded f ∈ row.links) :
    (.link, f) ∈ row.formulas := by
  refine List.mem_append_right _ (List.mem_filterMap.2 ⟨_, h, rfl⟩)

theorem shape?_of_mem_linkWrappers {wrapper : String} (h : wrapper ∈ linkWrappers) :
    Function.shape? wrapper = some .versioned := by
  simp only [linkWrappers, List.mem_cons, List.not_mem_nil, or_false] at h
  rcases h with rfl | rfl | rfl | rfl <;> decide

theorem versioned_of_mem_links (h : shapeFindings row = []) {wrapper : String}
    (hw : wrapper ∈ linkWrappers) {args : List Term}
    (hlink : .guarded [.call wrapper args] ∈ row.links) :
    ∃ version operand, args = version :: operand ∧ version.isVersion = true ∧
      (operand = [] ∨ isExpression operand = true) := by
  have hcall : (wrapper, args) ∈ Formula.calls [.call wrapper args] := by
    rw [Formula.calls, Term.calls]
    exact List.mem_cons_self
  obtain ⟨shape, hshape, haccepts⟩ :=
    accepts_of_shapeFindings h (mem_formulas_of_mem_links hlink) hcall
  rw [shape?_of_mem_linkWrappers hw] at hshape
  cases hshape
  cases args with
  | nil => cases haccepts
  | cons version operand =>
    rw [Shape.accepts, Bool.and_eq_true, Bool.or_eq_true, List.isEmpty_iff] at haccepts
    exact ⟨version, operand, rfl, haccepts⟩

/-- What holds of the links of an alternative that asks for some, in a schema without findings. -/
structure Linked (row : Row) (s : Schema) (i : ℕ) : Prop where
  nonempty : row.linksFor i ≠ []
  target : ∀ target ∈ row.linksFor i, target.Unbound ∨ ∃ name ∈ s.keys, target.LeadsTo name
  chosen : ∀ v, (Match.chooseLink s row i v).isSome = true ↔
    ∃ target ∈ row.linksFor i, ¬ target.Unbound

end Row

namespace Consistency

variable {s : Schema} {row : Row}

theorem call_of_checkGuard {column : Column} {allowed : List String} {f : Formula}
    (h : checkGuard column allowed f = []) :
    ∃ name args, f = [.call name args] ∧ name ∈ allowed := by
  unfold checkGuard at h
  split at h
  · cases h
  · rename_i name args hcall
    have hallowed := (List.append_eq_nil_iff.1 h).1
    refine ⟨name, args, ?_, ?_⟩
    · exact Formula.eq_of_call?_eq_some hcall
    · split at hallowed
      · rename_i hname
        exact List.contains_iff_mem.1 hname
      · cases hallowed

theorem target_of_checkTarget (hshape : row.shapeFindings = []) {target : LinkTarget}
    (htarget : target ∈ row.links) (h : checkTarget s target = []) :
    target.Unbound ∨ ∃ name ∈ s.keys, target.LeadsTo name := by
  cases hname : target.objectName? with
  | some name =>
    exact .inr ⟨name, mem_keys_of_checkTarget h hname, LinkTarget.objectName?_eq_some_iff.1 hname⟩
  | none =>
    refine .inl ⟨?_, fun name hleads ↦ ?_⟩
    · cases target with
      | object name => cases hname
      | guarded f =>
        obtain ⟨wrapper, args, rfl, hw⟩ := call_of_checkGuard (List.append_eq_nil_iff.1 h).1
        obtain ⟨version, operand, rfl, hversion⟩ := Row.versioned_of_mem_links hshape hw htarget
        exact ⟨wrapper, hw, version, operand, rfl, hversion⟩
    · rw [LinkTarget.objectName?_eq_some_iff.2 hleads] at hname
      cases hname

theorem linked_of_checkLinks (hshape : row.shapeFindings = []) (h : checkLinks s row = [])
    {i : ℕ} {t : TypeEntry} {type : ValueType} (hi : row.types[i]? = some t)
    (ht : t.valueType? = some type) (htype : type.requiresLink = true) : row.Linked s i := by
  obtain ⟨name, hname, hlabel⟩ := Option.bind_eq_some_iff.1 ht
  obtain ⟨hlinked, htargets⟩ := checkLinks_eq_nil h hi hname
  have htarget : ∀ target ∈ row.linksFor i,
      target.Unbound ∨ ∃ name ∈ s.keys, target.LeadsTo name := by
    intro target hm
    exact target_of_checkTarget hshape (Row.mem_links_iff.2 ⟨i, hm⟩) (htargets target hm)
  constructor
  case nonempty =>
    intro hnil
    simp [checkLinked, hlabel, htype, hnil] at hlinked
  case target => exact htarget
  case chosen =>
    intro v
    rw [Match.isSome_chooseLink_iff]
    constructor
    · rintro ⟨name, target, hm, hname, _⟩
      exact ⟨target, hm, fun hu ↦ hu.leads name (LinkTarget.objectName?_eq_some_iff.1 hname)⟩
    · rintro ⟨target, hm, hu⟩
      obtain ⟨name, hkey, hleads⟩ := (htarget target hm).resolve_left hu
      exact ⟨name, target, hm, LinkTarget.objectName?_eq_some_iff.2 hleads, hkey⟩

theorem validate_eq_nil_iff {roots : List String} :
    s.validate roots = [] ↔ (∀ x ∈ s.pairs, checkObject s x.1 x.2 = []) ∧
      roots.any s.contains = true ∧ s.orphans roots = [] := by
  rw [Schema.validate, checkReachability, List.append_eq_nil_iff, List.append_eq_nil_iff,
    List.flatMap_eq_nil_iff, List.map_eq_nil_iff]
  simp only [List.map_eq_nil_iff, ite_eq_left_iff, reduceCtorEq, imp_false, not_not]

theorem checkRow_of_validate {roots : List String} (h : s.validate roots = []) {name key : String}
    {object : SchemaObject} (ho : (name, object) ∈ s.pairs) (hr : (key, row) ∈ object.pairs) :
    checkRow s name object key row = [] :=
  checkRow_of_checkObject ((validate_eq_nil_iff.1 h).1 _ ho) hr

end Consistency

/-- In a schema without findings, an alternative that asks for links has some, and an object is
chosen for its values unless each of its links is a wrapper that leads nowhere. -/
theorem linked_of_validate {tables : List Table} {roots : List String}
    (hingest : (ingest tables).diagnostics = [])
    (hvalidate : (ingest tables).schema.validate roots = []) {name key : String}
    {object : SchemaObject} {row : Row} (ho : (name, object) ∈ (ingest tables).schema.pairs)
    (hr : (key, row) ∈ object.pairs) {i : ℕ} {t : TypeEntry} {type : ValueType}
    (hi : row.types[i]? = some t) (ht : t.valueType? = some type)
    (htype : type.requiresLink = true) : row.Linked (ingest tables).schema i := by
  obtain ⟨r, hread⟩ := exists_ofRecord_of_ingest hingest ho hr
  have hrow := Consistency.checkRow_of_validate hvalidate ho hr
  simp only [Consistency.checkRow, List.append_eq_nil_iff] at hrow
  obtain ⟨⟨_, hlinks⟩, _⟩ := hrow
  exact Consistency.linked_of_checkLinks (Row.shapeFindings_of_ofRecord hread) hlinks hi ht htype

def unboundTables : List Table :=
  [⟨"FileTrailer", "FileTrailer.tsv", Table.recordsOf [(1, Column.all.map Column.label),
    (2, ["Root", "array;dictionary", "1.0", "", "FALSE", "FALSE", "FALSE", "", "", "",
      "[fn:SinceVersion(1.5,FileTrailer)];[fn:SinceVersion(1.5)]", ""])]⟩]

theorem unboundTables_clean :
    (ingest unboundTables).diagnostics = [] ∧
      (ingest unboundTables).schema.validate defaultRoots = [] := by
  obtain ⟨hingest, hkeys, htrailer, hobjects⟩ : (ingest unboundTables).diagnostics = [] ∧
      (ingest unboundTables).schema.keys = ["FileTrailer"] ∧
      (ingest unboundTables).schema.successors "FileTrailer" = ["FileTrailer"] ∧
      ∀ x ∈ (ingest unboundTables).schema.pairs,
        Consistency.checkObject (ingest unboundTables).schema x.1 x.2 = [] := by decide +kernel
  have hreachable : (ingest unboundTables).schema.reachable defaultRoots = ["FileTrailer"] := by
    simp [Schema.reachable, Schema.explore, Schema.contains_iff_mem_keys, hkeys, htrailer,
      defaultRoots]
  have horphans : (ingest unboundTables).schema.orphans defaultRoots = [] := by
    simp [Schema.orphans, hreachable, hkeys]
  refine ⟨hingest, Consistency.validate_eq_nil_iff.2 ⟨hobjects, ?_, horphans⟩⟩
  simp [Schema.contains_iff_mem_keys, hkeys, defaultRoots]

theorem unboundTables_root : ∃ object row,
    ("FileTrailer", object) ∈ (ingest unboundTables).schema.pairs ∧ ("Root", row) ∈ object.pairs ∧
      row.types.map TypeEntry.valueType? = [some .array, some .dictionary] ∧
      (row.linksFor 0).filterMap LinkTarget.objectName? = ["FileTrailer"] ∧
      (row.linksFor 1).filterMap LinkTarget.objectName? = [] := by
  have h : (((ingest unboundTables).schema.get? "FileTrailer").bind (·.get? "Root")).any (fun row ↦
      row.types.map TypeEntry.valueType? = [some .array, some .dictionary] ∧
        (row.linksFor 0).filterMap LinkTarget.objectName? = ["FileTrailer"] ∧
        (row.linksFor 1).filterMap LinkTarget.objectName? = []) = true := by decide +kernel
  obtain ⟨row, hrow, h⟩ := (Option.any_eq_true _ _).1 h
  obtain ⟨object, hobject, hrow⟩ := Option.bind_eq_some_iff.1 hrow
  exact ⟨object, row, KeyedList.get?_eq_some_iff.1 hobject, KeyedList.get?_eq_some_iff.1 hrow,
    of_decide_eq_true h⟩

theorem unboundTables_linked : ∃ object row t,
    (ingest unboundTables).diagnostics = [] ∧
      (ingest unboundTables).schema.validate defaultRoots = [] ∧
      ("FileTrailer", object) ∈ (ingest unboundTables).schema.pairs ∧
      ("Root", row) ∈ object.pairs ∧ row.types[0]? = some t ∧
      t.valueType? = some .array ∧ row.Linked (ingest unboundTables).schema 0 := by
  obtain ⟨hingest, hvalidate⟩ := unboundTables_clean
  obtain ⟨object, row, ho, hr, htypes, _⟩ := unboundTables_root
  have hi : (row.types.map TypeEntry.valueType?)[0]? = some (some .array) := by rw [htypes]; rfl
  rw [List.getElem?_map] at hi
  obtain ⟨t, hi, ht⟩ := Option.map_eq_some_iff.1 hi
  exact ⟨object, row, t, hingest, hvalidate, ho, hr, hi, ht,
    linked_of_validate hingest hvalidate ho hr hi ht rfl⟩

/-- No object is ever chosen for an alternative whose only link is a wrapper without an operand. -/
theorem unboundTables_unchosen : ∃ object row t,
    (ingest unboundTables).diagnostics = [] ∧
      (ingest unboundTables).schema.validate defaultRoots = [] ∧
      ("FileTrailer", object) ∈ (ingest unboundTables).schema.pairs ∧
      ("Root", row) ∈ object.pairs ∧ row.types[1]? = some t ∧
      t.valueType? = some .dictionary ∧ ValueType.dictionary.requiresLink = true ∧
      ∀ v, Match.chooseLink (ingest unboundTables).schema row 1 v = none := by
  obtain ⟨hingest, hvalidate⟩ := unboundTables_clean
  obtain ⟨object, row, ho, hr, htypes, _, hnames⟩ := unboundTables_root
  have hi : (row.types.map TypeEntry.valueType?)[1]? = some (some .dictionary) := by
    rw [htypes]
    rfl
  rw [List.getElem?_map] at hi
  obtain ⟨t, hi, ht⟩ := Option.map_eq_some_iff.1 hi
  refine ⟨object, row, t, hingest, hvalidate, ho, hr, hi, ht, rfl, fun v ↦ ?_⟩
  have hnone : ¬ (Match.chooseLink (ingest unboundTables).schema row 1 v).isSome = true := by
    rw [Match.isSome_chooseLink_iff]
    rintro ⟨name, target, hm, hname, _⟩
    have hmem : name ∈ (row.linksFor 1).filterMap LinkTarget.objectName? :=
      List.mem_filterMap.2 ⟨target, hm, hname⟩
    rw [hnames] at hmem
    cases hmem
  simpa using hnone

end PdfSchema
