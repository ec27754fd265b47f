import PdfSchema.Consistency
import PdfSchema.Proofs.KeyedList

namespace PdfSchema

namespace Consistency

/-- Whether a finding is about the values of a row. -/
def Finding.isOfValues : Finding → Bool
  | badDefault _ | badPossible _ | defaultNotPossible _ => true
  | alternativeCount column _ _ => column = .defaultValue || column = .possibleValues
  | _ => false

variable {s : Schema} {name key : String} {object : SchemaObject} {row : Row} {f : Finding}

attribute [local grind] Finding.isOfValues

theorem isOfValues_of_mem_checkKey (h : f ∈ checkKey key row) : f.isOfValues = false := by
  unfold checkKey at h
  grind

theorem isOfValues_of_mem_checkGuard {column : Column} {allowed : List String} {formula : Formula}
    (h : f ∈ checkGuard column allowed formula) : f.isOfValues = false := by
  unfold checkGuard at h
  grind

theorem isOfValues_of_mem_checkTypes (h : f ∈ checkTypes row) : f.isOfValues = false := by
  unfold checkTypes checkTypeEntry at h
  grind [isOfValues_of_mem_checkGuard]

theorem isOfValues_of_mem_checkVersions (h : f ∈ checkVersions row) : f.isOfValues = false := by
  unfold checkVersions checkVersion at h
  grind [isOfValues_of_mem_checkGuard]

theorem isOfValues_of_mem_checkFlags (h : f ∈ checkFlags row) : f.isOfValues = false := by
  unfold checkFlags checkFlag checkIndirect at h
  grind

theorem isOfValues_of_mem_checkLinks (h : f ∈ checkLinks s row) : f.isOfValues = false := by
  have hlinked {type : String} {targets : List LinkTarget} (h : f ∈ checkLinked type targets) :
      f.isOfValues = false := by
    unfold checkLinked at h
    grind
  have htarget {target : LinkTarget} (h : f ∈ checkTarget s target) : f.isOfValues = false := by
    unfold checkTarget at h
    grind [isOfValues_of_mem_checkGuard]
  unfold checkLinks checkCount at h
  grind

theorem isOfValues_of_mem_checkVariables (h : f ∈ checkVariables name object row) :
    f.isOfValues = false := by
  unfold checkVariables at h
  grind

section

variable {q : String → Option String → Bool}
  (hq : ∀ f : Finding, q f.code (f.column?.map Column.label) = true → f.isOfValues = true)

include hq

theorem filter_eq_nil_of_isOfValues {fs : List Finding} (h : ∀ f ∈ fs, f.isOfValues = false) :
    fs.filter (fun f ↦ q f.code (f.column?.map Column.label)) = [] := by
  rw [List.filter_eq_nil_iff]
  intro f hf hqf
  have hvalues := hq f hqf
  rw [h f hf] at hvalues
  cases hvalues

theorem filter_checkRow (s : Schema) (name : String) (object : SchemaObject) (key : String)
    (row : Row) :
    (checkRow s name object key row).filter (fun f ↦ q f.code (f.column?.map Column.label)) =
      (checkValues row).filter fun f ↦ q f.code (f.column?.map Column.label) := by
  simp only [checkRow, List.filter_append,
    filter_eq_nil_of_isOfValues hq fun _ ↦ isOfValues_of_mem_checkKey,
    filter_eq_nil_of_isOfValues hq fun _ ↦ isOfValues_of_mem_checkTypes,
    filter_eq_nil_of_isOfValues hq fun _ ↦ isOfValues_of_mem_checkVersions,
    filter_eq_nil_of_isOfValues hq fun _ ↦ isOfValues_of_mem_checkFlags,
    filter_eq_nil_of_isOfValues hq fun _ ↦ isOfValues_of_mem_checkLinks,
    filter_eq_nil_of_isOfValues hq fun _ ↦ isOfValues_of_mem_checkVariables, List.nil_append,
    List.append_nil]

theorem filter_checkObject (s : Schema) (name : String) (hrow : object.get? key = some row) :
    (checkObject s name object).filter
        (fun x ↦ x.1 = some key ∧ q x.2.code (x.2.column?.map Column.label) = true) =
      ((checkValues row).filter fun f ↦ q f.code (f.column?.map Column.label)).map
        (some key, ·) := by
  have hmem := KeyedList.get?_eq_some_iff.1 hrow
  have hempty : KeyedList.isEmpty object = false := by
    rw [KeyedList.isEmpty, List.isEmpty_eq_false_iff]
    exact List.ne_nil_of_mem hmem
  have hother (xs : List (Option String × Finding)) (h : ∀ x ∈ xs, x.2.isOfValues = false) :
      xs.filter (fun x ↦ x.1 = some key ∧ q x.2.code (x.2.column?.map Column.label) = true) =
        [] := by
    rw [List.filter_eq_nil_iff]
    intro x hx hx'
    have hvalues := hq x.2 (of_decide_eq_true hx').2
    rw [h x hx] at hvalues
    cases hvalues
  have hrows :
      (object.pairs.flatMap fun p ↦ (checkRow s name object p.1 p.2).map (some p.1, ·)).filter
        (fun x ↦ x.1 = some key ∧ q x.2.code (x.2.column?.map Column.label) = true) =
      ((checkValues row).filter fun f ↦ q f.code (f.column?.map Column.label)).map
        (some key, ·) := by
    rw [List.filter_flatMap, Pairs.flatMap_eq_of_mem object.nodup hmem]
    · rw [List.filter_map, ← filter_checkRow hq s name object key row]
      simp [Function.comp_def]
    · intro p _ hp
      rw [List.filter_eq_nil_iff]
      intro x hx
      obtain ⟨f, -, rfl⟩ := List.mem_map.1 hx
      simp [hp]
  rw [checkObject, hempty]
  simp only [Bool.false_eq_true, if_false, List.filter_append]
  rw [hother _ ?_, hother (checkParent object) ?_, List.nil_append, List.append_nil]
  · exact hrows
  · intro x hx
    unfold checkParent at hx
    grind
  · intro x hx
    grind

theorem filter_validate_of_isOfValues (roots : List String) (hobject : s.get? name = some object)
    (hrow : object.get? key = some row) :
    (s.validate roots).filter (fun d ↦ d.location.object = some name ∧
        d.location.key = some key ∧ q d.code d.location.column = true) =
      ((checkValues row).filter fun f ↦ q f.code (f.column?.map Column.label)).map
        (Finding.diagnostic name (some key)) := by
  have hmem := KeyedList.get?_eq_some_iff.1 hobject
  have hreach : (checkReachability s roots).filter (fun d ↦ d.location.object = some name ∧
      d.location.key = some key ∧ q d.code d.location.column = true) = [] := by
    rw [List.filter_eq_nil_iff]
    intro d hd hd'
    have hkey := (of_decide_eq_true hd').2.1
    unfold checkReachability at hd
    grind
  rw [Schema.validate, List.filter_append, hreach, List.append_nil, List.filter_flatMap,
    Pairs.flatMap_eq_of_mem s.nodup hmem]
  · have hobject := congrArg (List.map fun x ↦ Finding.diagnostic name x.1 x.2)
      (filter_checkObject hq s name hrow)
    rw [List.map_map] at hobject
    rw [List.filter_map]
    refine Eq.trans ?_ hobject
    simp [Function.comp_def, Finding.diagnostic]
  · intro p _ hp
    rw [List.filter_eq_nil_iff]
    intro d hd
    obtain ⟨x, -, rfl⟩ := List.mem_map.1 hd
    simp [Finding.diagnostic, hp]

end

def misfitCodes : List String := ["bad-default-value", "bad-possible-value"]

theorem Finding.isOfValues_of_code {f : Finding}
    (h : f.code ∈ "default-not-possible" :: misfitCodes) : f.isOfValues = true := by
  cases f <;> simp [code, functionCode, misfitCodes, isOfValues] at h ⊢ <;> split at h <;>
    simp at h

theorem filter_validate_of_row {code : String} (hcode : code ∈ misfitCodes) (roots : List String)
    (hobject : s.get? name = some object) (hrow : object.get? key = some row) :
    (s.validate roots).filter (fun d ↦ d.location.object = some name ∧
        d.location.key = some key ∧ d.code = code) =
      ((checkValues row).filter (·.code = code)).map (Finding.diagnostic name (some key)) := by
  simpa using filter_validate_of_isOfValues (q := fun c _ ↦ c = code)
    (fun f hf ↦ f.isOfValues_of_code (List.mem_cons_of_mem _ (of_decide_eq_true hf ▸ hcode))) roots
    hobject hrow

end Consistency

end PdfSchema
