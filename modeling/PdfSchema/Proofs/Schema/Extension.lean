import PdfSchema.Consistency
import PdfSchema.Proofs.Schema.Merging
import PdfSchema.Proofs.Schema.Search

namespace PdfSchema

namespace Consistency

def Finding.missing? : Finding → Option String
  | .brokenLink name => some name
  | _ => none

/-- Whether objects of the given names would keep a finding from being made. -/
def Finding.isMendedBy (names : List String) (f : Finding) : Bool := f.missing?.any names.contains

/-- Whether findings do not depend on any other object. -/
def IsLocal (fs : List Finding) : Prop := ∀ f ∈ fs, f.missing? = none

section

variable {fs gs : List Finding} {f : Finding} {p : Prop} [Decidable p]

@[simp]
theorem isLocal_nil : IsLocal [] := fun _ hf ↦ nomatch hf

@[simp]
theorem isLocal_singleton : IsLocal [f] ↔ f.missing? = none := List.forall_mem_singleton

@[simp]
theorem isLocal_append : IsLocal (fs ++ gs) ↔ IsLocal fs ∧ IsLocal gs := List.forall_mem_append

@[simp]
theorem isLocal_flatMap {α : Type} {xs : List α} {g : α → List Finding} :
    IsLocal (xs.flatMap g) ↔ ∀ x ∈ xs, IsLocal (g x) := List.forall_mem_flatMap

@[simp]
theorem isLocal_map {α : Type} {xs : List α} {g : α → Finding} :
    IsLocal (xs.map g) ↔ ∀ x ∈ xs, (g x).missing? = none := List.forall_mem_map

@[simp]
theorem isLocal_ite : IsLocal (if p then fs else gs) ↔ (p → IsLocal fs) ∧ (¬ p → IsLocal gs) := by
  split <;> simp [*]

theorem IsLocal.filter_eq (h : IsLocal fs) (names : List String) :
    fs.filter (fun f ↦ !f.isMendedBy names) = fs := by
  rw [List.filter_eq_self]
  intro f hf
  rw [Finding.isMendedBy, h f hf]
  rfl

end

theorem isLocal_checkKey (key : String) (row : Row) : IsLocal (checkKey key row) := by
  simp [checkKey, Finding.missing?]

theorem isLocal_checkGuard (column : Column) (allowed : List String) (f : Formula) :
    IsLocal (checkGuard column allowed f) := by
  unfold checkGuard
  split
  · simp [Finding.missing?]
  · rw [isLocal_append]
    constructor
    · simp [Finding.missing?]
    · split <;> simp [Finding.missing?]

theorem isLocal_checkTypes (row : Row) : IsLocal (checkTypes row) := by
  have hentry (t : TypeEntry) : IsLocal (checkTypeEntry t) := by
    unfold checkTypeEntry
    rw [isLocal_append]
    constructor
    · split
      · apply isLocal_checkGuard
      · simp
    · split <;> simp [Finding.missing?]
  simp [checkTypes, hentry, Finding.missing?]

theorem isLocal_checkVersions (row : Row) : IsLocal (checkVersions row) := by
  have hversion (column : Column) (text : String) : IsLocal (checkVersion column text) := by
    simp [checkVersion, Finding.missing?]
  unfold checkVersions
  rw [isLocal_append]
  constructor
  · split
    · apply hversion
    · apply isLocal_checkGuard
  · split
    · apply hversion
    · simp

theorem isLocal_checkFlags (row : Row) : IsLocal (checkFlags row) := by
  have hflag (column : Column) (allowed : List String) (f : Flag) :
      IsLocal (checkFlag column allowed f) := by
    cases f <;> simp [checkFlag, Finding.missing?]
  simp only [checkFlags, isLocal_append, isLocal_flatMap]
  refine ⟨⟨⟨?required, ?indirect⟩, ?inheritable⟩, ?streams⟩
  case required => exact fun f _ ↦ hflag _ _ f
  case indirect => exact fun f _ ↦ hflag _ _ f
  case inheritable => split <;> simp [Finding.missing?]
  case streams => simp [checkIndirect, Finding.missing?]

theorem isLocal_checkCount {α : Type} (column : Column) (row : Row) (entries : Option (List α)) :
    IsLocal (checkCount column row entries) := by
  cases entries <;> simp [checkCount, Finding.missing?]

theorem isLocal_checkValues (row : Row) : IsLocal (checkValues row) := by
  have halternative (t : TypeEntry) (i : ℕ) : IsLocal (checkAlternative row t i) := by
    unfold checkAlternative
    rw [isLocal_append]
    constructor
    · split
      · rw [isLocal_append, isLocal_map]
        refine ⟨fun f hf ↦ ?_, fun _ _ ↦ rfl⟩
        obtain ⟨_, _, rfl⟩ := Option.map_eq_some_iff.1 (Option.mem_toList.1 hf)
        rfl
      · simp
    · split <;> simp [checkDefault, Finding.missing?]
  simp [checkValues, isLocal_checkCount, halternative]

theorem isLocal_checkLinked (name : String) (targets : List LinkTarget) :
    IsLocal (checkLinked name targets) := by
  simp [checkLinked, Finding.missing?]

theorem isLocal_checkVariables (name : String) (object : SchemaObject) (row : Row) :
    IsLocal (checkVariables name object row) := by
  simp [checkVariables, Finding.missing?]

section

variable {s s' : Schema} {names : List String}
  (h : ∀ name, s'.contains name = (s.contains name || names.contains name))

include h

theorem checkTarget_eq_filter (target : LinkTarget) :
    checkTarget s' target = (checkTarget s target).filter fun f ↦ !f.isMendedBy names := by
  have hlinked (name : String) : (if s'.contains name then [] else [.brokenLink name]) =
      (if s.contains name then [] else [.brokenLink name]).filter
        fun f ↦ !Finding.isMendedBy names f := by
    have hmended : (Finding.brokenLink name).isMendedBy names = names.contains name := rfl
    rw [h]
    cases s.contains name with
    | true => rfl
    | false =>
      rw [Bool.false_or, if_neg Bool.false_ne_true, List.filter_singleton, hmended]
      cases names.contains name <;> rfl
  cases target with
  | object name => exact hlinked name
  | guarded f =>
    unfold checkTarget
    simp only [List.filter_append, (isLocal_checkGuard .link linkWrappers f).filter_eq]
    cases (LinkTarget.guarded f).objectName? with
    | none => rfl
    | some name => exact congrArg _ (hlinked name)

theorem checkLinks_eq_filter (row : Row) :
    checkLinks s' row = (checkLinks s row).filter fun f ↦ !f.isMendedBy names := by
  unfold checkLinks
  rw [List.filter_append, (isLocal_checkCount .link row row.link).filter_eq, List.filter_flatMap]
  congr 1
  apply List.flatMap_congr
  rintro ⟨t, i⟩ -
  cases hname : t.name? with
  | none => simp [hname]
  | some name =>
    simp only [hname, List.filter_append, (isLocal_checkLinked name _).filter_eq,
      List.filter_flatMap]
    congr 1
    exact List.flatMap_congr fun target _ ↦ checkTarget_eq_filter h target

theorem checkRow_eq_filter (name : String) (object : SchemaObject) (key : String) (row : Row) :
    checkRow s' name object key row =
      (checkRow s name object key row).filter fun f ↦ !f.isMendedBy names := by
  simp only [checkRow, List.filter_append, (isLocal_checkKey key row).filter_eq,
    (isLocal_checkTypes row).filter_eq, (isLocal_checkVersions row).filter_eq,
    (isLocal_checkFlags row).filter_eq, (isLocal_checkValues row).filter_eq,
    (isLocal_checkVariables name object row).filter_eq, checkLinks_eq_filter h]

/-- Of the findings about an object, those remain that the new names do not mend. -/
theorem checkObject_eq_filter (name : String) (object : SchemaObject) :
    checkObject s' name object =
      (checkObject s name object).filter fun x ↦ !x.2.isMendedBy names := by
  have hwildcard : ([(some "*", .wildcardNotLast)] : List (Option String × Finding)).filter
      (fun x ↦ !x.2.isMendedBy names) = [(some "*", .wildcardNotLast)] := rfl
  have hrow (p : String × Row) : (checkRow s' name object p.1 p.2).map (some p.1, ·) =
      ((checkRow s name object p.1 p.2).map (some p.1, ·)).filter
        fun x ↦ !x.2.isMendedBy names := by
    rw [checkRow_eq_filter h, List.filter_map]
    rfl
  have hparent : (checkParent object).filter (fun x ↦ !x.2.isMendedBy names) =
      checkParent object := by
    rw [List.filter_eq_self]
    intro x hx
    unfold checkParent at hx
    grind [Finding.isMendedBy, Finding.missing?]
  unfold checkObject
  split
  · rfl
  · rw [List.filter_append, List.filter_append, hparent, List.filter_flatMap,
      List.flatMap_congr fun p _ ↦ hrow p]
    split
    · rw [hwildcard]
    · rw [List.filter_nil]

end

theorem Finding.eq_of_brokenLink_message_eq {a b : String}
    (h : (brokenLink a).message = (brokenLink b).message) : a = b := by
  have htexts : "broken link to `" ++ a ++ "`" = "broken link to `" ++ b ++ "`" := h
  have hopen := (String.append_left_inj _).1 htexts
  exact (String.append_right_inj _).1 hopen

theorem Finding.code_eq_brokenLink_iff {f : Finding} :
    f.code = "broken-link" ↔ ∃ name, f = brokenLink name := by
  constructor
  · intro h
    unfold code functionCode at h
    repeat' split at h
    all_goals simp_all
  · rintro ⟨name, rfl⟩
    rfl

end Consistency

namespace Diagnostic

def isReachability (d : Diagnostic) : Bool := d.code = "missing-root" || d.code = "orphan-object"

def isAbout (names : List String) (d : Diagnostic) : Bool := d.location.object.any names.contains

def isBrokenLinkTo (names : List String) (d : Diagnostic) : Bool :=
  d.code = "broken-link" &&
    names.any fun name ↦ d.message = (Consistency.Finding.brokenLink name).message

end Diagnostic

namespace Consistency

theorem Finding.isReachability_diagnostic (object : String) (key : Option String) (f : Finding) :
    (f.diagnostic object key).isReachability = false := by
  have hcode : f.code ≠ "missing-root" ∧ f.code ≠ "orphan-object" := by
    unfold code functionCode
    repeat' split
    all_goals decide
  simp [Diagnostic.isReachability, diagnostic, hcode]

theorem Finding.isBrokenLinkTo_diagnostic (names : List String) (object : String)
    (key : Option String) (f : Finding) :
    (f.diagnostic object key).isBrokenLinkTo names = f.isMendedBy names := by
  by_cases hcode : f.code = "broken-link"
  · obtain ⟨name, rfl⟩ := code_eq_brokenLink_iff.1 hcode
    have hmessage (a : String) : (brokenLink name).message = (brokenLink a).message ↔ name = a :=
      ⟨eq_of_brokenLink_message_eq, fun h ↦ h ▸ rfl⟩
    rw [Bool.eq_iff_iff]
    simp [Diagnostic.isBrokenLinkTo, diagnostic, hcode, hmessage, isMendedBy, missing?]
  · have hmissing : f.missing? = none := by
      cases f with
      | brokenLink name => exact absurd rfl hcode
      | _ => rfl
    simp [Diagnostic.isBrokenLinkTo, diagnostic, hcode, isMendedBy, hmissing]

def checkObjects (s : Schema) (objects : List (String × SchemaObject)) : List Diagnostic :=
  objects.flatMap fun p ↦ (checkObject s p.1 p.2).map fun x ↦ x.2.diagnostic p.1 x.1

section

variable {s s' : Schema} {objects : List (String × SchemaObject)} {names : List String}
  {d : Diagnostic}

theorem checkObjects_eq_filter
    (h : ∀ name, s'.contains name = (s.contains name || names.contains name)) :
    checkObjects s' objects = (checkObjects s objects).filter fun d ↦ !d.isBrokenLinkTo names := by
  unfold checkObjects
  rw [List.filter_flatMap]
  apply List.flatMap_congr
  intro p _
  rw [checkObject_eq_filter h, List.filter_map]
  simp only [Function.comp_def, Finding.isBrokenLinkTo_diagnostic]

theorem of_mem_checkObjects (h : d ∈ checkObjects s objects) :
    d.isReachability = false ∧ ∃ name ∈ Pairs.keys objects, d.location.object = some name := by
  obtain ⟨p, hp, hd⟩ := List.mem_flatMap.1 h
  obtain ⟨x, -, rfl⟩ := List.mem_map.1 hd
  exact ⟨x.2.isReachability_diagnostic p.1 x.1, p.1, List.mem_map_of_mem hp, rfl⟩

theorem filter_isAbout_checkObjects (h : Pairs.keys objects ⊆ names) :
    (checkObjects s objects).filter (Diagnostic.isAbout names) = checkObjects s objects := by
  rw [List.filter_eq_self]
  intro d hd
  obtain ⟨-, name, hname, hobject⟩ := of_mem_checkObjects hd
  simpa [Diagnostic.isAbout, hobject] using h hname

theorem filter_isAbout_checkObjects_of_disjoint (h : List.Disjoint names (Pairs.keys objects)) :
    (checkObjects s objects).filter (Diagnostic.isAbout names) = [] := by
  rw [List.filter_eq_nil_iff]
  intro d hd
  obtain ⟨-, name, hname, hobject⟩ := of_mem_checkObjects hd
  have hnot : name ∉ names := fun hmem ↦ h hmem hname
  simp [Diagnostic.isAbout, hobject, hnot]

theorem isReachability_of_mem_checkReachability {roots : List String}
    (h : d ∈ checkReachability s roots) : d.isReachability = true := by
  rcases List.mem_append.1 h with h | h
  · split at h
    · cases h
    · rw [List.mem_singleton.1 h]
      rfl
  · obtain ⟨name, -, rfl⟩ := List.mem_map.1 h
    rfl

end

end Consistency

namespace Schema

open Consistency

variable {s s' : Schema} {roots path : List String} {a b name : String}

theorem filter_validate (s : Schema) (roots : List String) :
    (s.validate roots).filter (fun d ↦ !d.isReachability) = checkObjects s s.pairs := by
  have hobjects : (checkObjects s s.pairs).filter (fun d ↦ !d.isReachability) =
      checkObjects s s.pairs := by
    rw [List.filter_eq_self]
    intro d hd
    rw [(of_mem_checkObjects hd).1]
    rfl
  have hreach : (checkReachability s roots).filter (fun d ↦ !d.isReachability) = [] := by
    rw [List.filter_eq_nil_iff]
    intro d hd
    rw [isReachability_of_mem_checkReachability hd]
    decide
  have hvalidate : s.validate roots = checkObjects s s.pairs ++ checkReachability s roots := rfl
  rw [hvalidate, List.filter_append, hobjects, hreach, List.append_nil]

theorem LinksTo.mono (h : s.pairs ⊆ s'.pairs) (hl : s.LinksTo a b) : s'.LinksTo a b := by
  obtain ⟨o, ho, hrow⟩ := hl
  exact ⟨o, KeyedList.get?_eq_some_iff.2 (h (KeyedList.get?_eq_some_iff.1 ho)), hrow⟩

theorem LinkPath.mono (h : s.pairs ⊆ s'.pairs) (hp : s.LinkPath roots path name) :
    s'.LinkPath roots path name where
  starts := hp.starts
  ends := hp.ends
  objects := fun a ha ↦ List.map_subset Prod.fst h (hp.objects a ha)
  links := hp.links.imp fun _ _ hl ↦ hl.mono h

theorem reachable_subset (h : s.pairs ⊆ s'.pairs) (roots : List String) :
    s.reachable roots ⊆ s'.reachable roots := by
  intro name hname
  obtain ⟨path, hpath⟩ := exists_linkPath_of_mem_reachable hname
  exact (hpath.mono h).mem_reachable

/-- What objects that are appended to a schema change of what is found in it. -/
structure ExtendedBy (s : Schema) (added : List (String × SchemaObject)) (s' : Schema)
    (roots : List String) : Prop where
  findings : (s'.validate roots).filter (fun d ↦ d.isAbout s.keys && !d.isReachability) =
    (s.validate roots).filter fun d ↦
      !d.isReachability && !d.isBrokenLinkTo (Pairs.keys added)
  reachable : ∀ name ∈ s.reachable roots, name ∈ s'.reachable roots
  orphans : ∀ name ∈ s'.orphans roots, name ∈ s.keys → name ∈ s.orphans roots

/-- Appended objects mend the broken links to them. Nothing else is found or no longer found about
the objects that were there, and none of these gets lost. -/
theorem extendedBy_of_pairs_eq {added : List (String × SchemaObject)}
    (h : s'.pairs = s.pairs ++ added) (roots : List String) :
    s.ExtendedBy added s' roots := by
  have hkeys : s'.keys = s.keys ++ Pairs.keys added := by
    unfold KeyedList.keys
    rw [h]
    exact List.map_append
  have hsubset : s.pairs ⊆ s'.pairs := h ▸ List.subset_append_left _ _
  constructor
  case findings =>
    have hcontains (name : String) :
        s'.contains name = (s.contains name || (Pairs.keys added).contains name) := by
      rw [Bool.eq_iff_iff]
      simp [contains_iff_mem_keys, hkeys]
    have hdisjoint : List.Disjoint s.keys (Pairs.keys added) :=
      List.disjoint_of_nodup_append (hkeys ▸ s'.nodup)
    have hsplit : checkObjects s' s'.pairs =
        checkObjects s' s.pairs ++ checkObjects s' added := by
      rw [h]
      exact List.flatMap_append
    calc (s'.validate roots).filter (fun d ↦ d.isAbout s.keys && !d.isReachability)
      _ = (checkObjects s' s'.pairs).filter (Diagnostic.isAbout s.keys) := by
        rw [← List.filter_filter, filter_validate]
      _ = checkObjects s' s.pairs := by
        have hold : (checkObjects s' s.pairs).filter (Diagnostic.isAbout s.keys) =
            checkObjects s' s.pairs := filter_isAbout_checkObjects fun _ ha ↦ ha
        rw [hsplit, List.filter_append, hold, filter_isAbout_checkObjects_of_disjoint hdisjoint,
          List.append_nil]
      _ = (checkObjects s s.pairs).filter fun d ↦ !d.isBrokenLinkTo (Pairs.keys added) :=
        checkObjects_eq_filter hcontains
      _ = _ := by
        rw [← filter_validate s roots, List.filter_filter]
        simp only [Bool.and_comm]
  case reachable => exact reachable_subset hsubset roots
  case orphans =>
    intro name hname hk
    obtain ⟨-, hreached, hroot⟩ := mem_orphans_iff.1 hname
    exact mem_orphans_iff.2 ⟨hk, fun hmem ↦ hreached (reachable_subset hsubset roots hmem), hroot⟩

def openSchema : Schema :=
  (ingest [rowTable "FileTrailer" "Root" "dictionary" "[Catalog]",
    rowTable "Lone" "Up" "dictionary" "[FileTrailer,Nowhere]"]).schema

def catalogObject : SchemaObject :=
  (rowTable "Catalog" "Back" "dictionary" "[Lone]").object?.getD .empty

theorem openSchema_extendedBy_catalogObject :
    (openSchema.put "Catalog" catalogObject).pairs =
      openSchema.pairs ++ [("Catalog", catalogObject)] ∧
    openSchema.ExtendedBy [("Catalog", catalogObject)]
      (openSchema.put "Catalog" catalogObject) ["FileTrailer"] ∧
    (checkObjects openSchema openSchema.pairs).map Diagnostic.message =
      ["broken link to `Catalog`", "broken link to `Nowhere`"] ∧
    (checkObjects (openSchema.put "Catalog" catalogObject)
      (openSchema.put "Catalog" catalogObject).pairs).map Diagnostic.message =
      ["broken link to `Nowhere`"] := by
  have hnew : "Catalog" ∉ Pairs.keys openSchema.pairs := by decide +kernel
  have hpairs : (openSchema.put "Catalog" catalogObject).pairs =
      openSchema.pairs ++ [("Catalog", catalogObject)] := Pairs.put_of_notMem hnew catalogObject
  refine ⟨hpairs, extendedBy_of_pairs_eq hpairs ["FileTrailer"], ?_⟩
  decide +kernel

end Schema

end PdfSchema
