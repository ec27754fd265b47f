import Mathlib.Data.List.Nodup
import PdfSchema.Row.Basic

namespace PdfSchema

/-- `as` is all that `find` finds, each under an index of its own. -/
def Finds {ι α : Type} (find : ι → Option α) (as : List α) : Prop :=
  ∃ is : List ι, is.Nodup ∧ (∀ i, i ∈ is ↔ (find i).isSome = true) ∧ is.map find = as.map some

namespace Finds

variable {ι κ α β : Type} {find : ι → Option α} {as : List α}

theorem option (a : Option α) : Finds (fun _ : Unit ↦ a) a.toList := by
  cases a with
  | none => exact ⟨[], List.nodup_nil, by simp, rfl⟩
  | some a => exact ⟨[()], List.nodup_singleton (), by simp, rfl⟩

theorem ofList (as : List α) : Finds (fun i : ℕ ↦ as[i]?) as := by
  refine ⟨List.range as.length, List.nodup_range, by simp, ?_⟩
  apply List.ext_getElem?
  intro i
  by_cases hi : i < as.length
  · simp [hi]
  · simp [hi]

theorem ofAll (hnodup : as.Nodup) (hall : ∀ a, a ∈ as) : Finds some as :=
  ⟨as, hnodup, by simpa using hall, rfl⟩

theorem map (h : Finds find as) {find' : κ → Option α} {e : ι → κ} (he : e.Injective)
    (hfind : ∀ i, find' (e i) = find i)
    (hrange : ∀ k, (find' k).isSome = true → ∃ i, e i = k) : Finds find' as := by
  obtain ⟨is, hnodup, hmem, has⟩ := h
  refine ⟨is.map e, hnodup.map he, fun k ↦ ?_, ?_⟩
  · rw [List.mem_map]
    constructor
    · rintro ⟨i, hi, rfl⟩
      rw [hfind, ← hmem]
      exact hi
    · intro hk
      obtain ⟨i, rfl⟩ := hrange k hk
      exact ⟨i, by rwa [hmem, ← hfind], rfl⟩
  · rw [List.map_map, ← has]
    exact List.map_congr_left fun i _ ↦ hfind i

theorem flatMap (h : Finds find as) {find' : α → κ → Option β} {bs : α → List β}
    (hbs : ∀ a ∈ as, Finds (find' a) (bs a)) :
    Finds (fun p : ι × κ ↦ (find p.1).bind (find' · p.2)) (as.flatMap bs) := by
  obtain ⟨is, hnodup, hmem, has⟩ := h
  -- For each `a` that is found, `js a` lists the indices of what is found in it.
  choose! js hjs using hbs
  have hfound : ∀ i a, find i = some a → i ∈ is ∧ a ∈ as := by
    intro i a hi
    have hi' : i ∈ is := by rw [hmem, hi]; rfl
    have ha : some a ∈ as.map some := by
      rw [← has, ← hi]
      exact List.mem_map_of_mem hi'
    exact ⟨hi', by simpa using ha⟩
  refine ⟨is.flatMap fun i ↦ ((find i).toList.flatMap js).map (Prod.mk i), ?_, fun p ↦ ?_, ?_⟩
  · rw [List.nodup_flatMap]
    constructor
    · intro i _
      apply List.Nodup.map fun j j' h ↦ (Prod.mk.inj h).2
      cases hi : find i with
      | none => simp
      | some a => simpa using (hjs a (hfound i a hi).2).1
    · refine hnodup.imp fun {i i'} hne ↦ ?_
      intro p hp hp'
      obtain ⟨j, _, rfl⟩ := List.mem_map.1 hp
      obtain ⟨j', _, he⟩ := List.mem_map.1 hp'
      exact hne (Prod.mk.inj he).1.symm
  · obtain ⟨i, j⟩ := p
    cases hi : find i with
    | none => simp [hi]
    | some a =>
      obtain ⟨hi', ha⟩ := hfound i a hi
      simpa [hi, hi'] using (hjs a ha).2.1 j
  · calc
      _ = (is.map find).flatMap fun a? ↦ a?.toList.flatMap fun a ↦ (js a).map (find' a) := by
        rw [List.map_flatMap, List.flatMap_map]
        refine List.flatMap_congr fun i _ ↦ ?_
        cases hi : find i <;> simp [hi]
      _ = as.flatMap fun a ↦ (js a).map (find' a) := by
        simp [has, List.flatMap_map]
      _ = (as.flatMap bs).map some := by
        rw [List.map_flatMap]
        exact List.flatMap_congr fun a ha ↦ (hjs a ha).2.2

theorem eq_nil (h : Finds find as) (hnone : ∀ i, find i = none) : as = [] := by
  obtain ⟨is, _, hmem, has⟩ := h
  have his : is = [] := by
    rw [List.eq_nil_iff_forall_not_mem]
    intro i hi
    rw [hmem, hnone] at hi
    cases hi
  rw [his] at has
  exact List.map_eq_nil_iff.1 has.symm

theorem filterMap (h : Finds find as) (f : α → Option β) :
    Finds (fun i ↦ (find i).bind f) (as.filterMap f) := by
  rw [List.filterMap_eq_flatMap_toList]
  refine (h.flatMap fun a _ ↦ option (f a)).map (e := Prod.fst) ?_ (fun _ ↦ rfl) ?_
  · intro p q hpq
    exact Prod.ext hpq rfl
  · exact fun i _ ↦ ⟨(i, ()), rfl⟩

theorem node {find : List ℕ → Option α}
    (h : Finds (fun p : ℕ × List ℕ ↦ find (p.1 :: p.2)) as) :
    Finds find ((find []).toList ++ as) := by
  obtain ⟨is, hnodup, hmem, has⟩ := h
  have hcons : Function.Injective fun p : ℕ × List ℕ ↦ p.1 :: p.2 :=
    fun p q h ↦ Prod.ext (List.cons.inj h).1 (List.cons.inj h).2
  have hbelow : ∀ i path, i :: path ∈ is.map (fun p ↦ p.1 :: p.2) ↔ (i, path) ∈ is :=
    fun i path ↦ List.mem_map_of_injective hcons (a := (i, path))
  cases hroot : find [] with
  | none =>
    refine ⟨is.map fun p ↦ p.1 :: p.2, hnodup.map hcons, fun path ↦ ?_, ?_⟩
    · cases path with
      | nil => simp [hroot]
      | cons i path => rw [hbelow, hmem]
    · rwa [List.map_map]
  | some a =>
    refine ⟨[] :: is.map fun p ↦ p.1 :: p.2, ?_, fun path ↦ ?_, ?_⟩
    · exact List.nodup_cons.2 ⟨by simp, hnodup.map hcons⟩
    · cases path with
      | nil => simp [hroot]
      | cons i path =>
        rw [List.mem_cons, hbelow, hmem]
        simp
    · rw [List.map_cons, List.map_map, hroot]
      exact congrArg (some a :: ·) has

end Finds

/-- What a row is made of, down to the terms. -/
inductive Part where
  | type (type : TypeEntry)
  | sinceVersion (version : SinceVersion)
  | flag (flag : Flag)
  | value (value : Value)
  | link (target : LinkTarget)
  | formula (formula : Formula)
  | term (term : Term)

namespace Part

def children : Part → List Part
  | type (.named _) => []
  | type (.guarded f) => [formula f]
  | sinceVersion (.version _) => []
  | sinceVersion (.formula f) => [formula f]
  | flag (.literal _) => []
  | flag (.formula f) => [formula f]
  | flag (.invalid _) => []
  | value (.scalar _) => []
  | value (.text _) => []
  | value (.array items) => items.map value
  | value (.formula f) => [formula f]
  | link (.object _) => []
  | link (.guarded f) => [formula f]
  | formula f => f.map term
  | term (.leaf _) => []
  | term (.call _ args) => args.map term
  | term (.paren body) => body.map term
  | term (.bracket body) => body.map term

def at? : Part → List ℕ → Option Part
  | p, [] => some p
  | p, i :: path => p.children[i]?.bind (·.at? path)

def call? : Part → Option (String × List Term)
  | term t => t.call?
  | _ => none

def formulas : Part → List Formula
  | type (.guarded f) => [f]
  | sinceVersion (.formula f) => [f]
  | flag (.formula f) => [f]
  | value v => v.formulas
  | link (.guarded f) => [f]
  | formula f => [f]
  | term t => [[t]]
  | _ => []

def calls (p : Part) : List (String × List Term) := p.formulas.flatMap Formula.calls

theorem calls_eq (p : Part) : p.calls = p.call?.toList ++ p.children.flatMap calls := by
  cases p with
  | type t | sinceVersion t | flag t | link t =>
    cases t <;> simp [calls, formulas, call?, children]
  | value v =>
    cases v <;> simp [calls, formulas, call?, children, Value.formulas,
      Value.formulasIn_eq_flatMap, List.flatMap_map, List.flatMap_assoc]
  | formula f => simp [calls, formulas, call?, children, Formula.calls_eq_flatMap, List.flatMap_map]
  | term t =>
    cases t <;> simp [calls, formulas, call?, Term.call?, children, Term.calls,
      Formula.calls_eq_flatMap, List.flatMap_map]

theorem sizeOf_lt_of_mem_map {p c : Part} {ts : List Term} (hts : sizeOf ts < sizeOf p)
    (h : c ∈ ts.map term) : sizeOf c < sizeOf p := by
  obtain ⟨t, ht, rfl⟩ := List.mem_map.1 h
  have ht := List.sizeOf_lt_of_mem ht
  rw [term.sizeOf_spec]
  omega

theorem sizeOf_lt_of_mem_children {p c : Part} (h : c ∈ p.children) : sizeOf c < sizeOf p := by
  cases p with
  | type t | sinceVersion t | flag t | link t =>
    cases t <;> simp only [children, List.not_mem_nil, List.mem_singleton] at h
    all_goals simp [h]
  | value v =>
    cases v with
    | scalar t | text raw => cases h
    | array items =>
      obtain ⟨v, hv, rfl⟩ := List.mem_map.1 h
      have hv := List.sizeOf_lt_of_mem hv
      simp only [value.sizeOf_spec, Value.array.sizeOf_spec]
      omega
    | formula f =>
      obtain rfl := List.mem_singleton.1 h
      simp
  | formula f => exact sizeOf_lt_of_mem_map (by simp) h
  | term t =>
    cases t with
    | leaf t => cases h
    | call name args => exact sizeOf_lt_of_mem_map (by simp; omega) h
    | paren body | bracket body => exact sizeOf_lt_of_mem_map (by simp; omega) h

theorem finds_calls (p : Part) : Finds (fun path ↦ (p.at? path).bind call?) p.calls := by
  -- A value may have values in it as well as terms, so this goes over the children of all parts.
  rw [calls_eq]
  apply Finds.node
  have h := (Finds.ofList p.children).flatMap fun c _ ↦ finds_calls c
  simpa only [at?, Option.bind_assoc] using h
termination_by sizeOf p
decreasing_by exact sizeOf_lt_of_mem_children ‹_›

end Part

namespace Row

def parts (r : Row) : Column → List (List Part)
  | .type => r.types.map fun t ↦ [.type t]
  | .sinceVersion => [[.sinceVersion r.sinceVersion]]
  | .required => r.required.map fun f ↦ [.flag f]
  | .indirectReference => r.indirectReference.map fun f ↦ [.flag f]
  | .inheritable => [[.flag r.inheritable]]
  | .defaultValue => (r.defaultValue.getD []).map fun v ↦ v.toList.map .value
  | .possibleValues => (r.possibleValues.getD []).map fun vs ↦ (vs.getD []).map .value
  | .specialCase => (r.specialCase.getD []).map fun f ↦ f.toList.map .formula
  | .link => (r.link.getD []).map fun ts ↦ (ts.getD []).map .link
  | .key | .deprecatedIn | .note => []

/-- Where a part stands in a row: the cell, the alternative, the entry, and the positions to follow
from there. -/
structure Place where
  column : Column
  alternative : ℕ
  entry : ℕ
  path : List ℕ

def part? (r : Row) (p : Place) : Option Part :=
  (r.parts p.column)[p.alternative]?.bind fun entries ↦ entries[p.entry]?.bind (·.at? p.path)

def call? (r : Row) (p : Place) : Option (String × List Term) := (r.part? p).bind Part.call?

variable (r : Row)

def entries : Column → List Part
  | .type => r.types.map .type
  | .sinceVersion => [.sinceVersion r.sinceVersion]
  | .required => r.required.map .flag
  | .indirectReference => r.indirectReference.map .flag
  | .inheritable => [.flag r.inheritable]
  | .defaultValue => ((r.defaultValue.getD []).filterMap id).map .value
  | .possibleValues => ((r.possibleValues.getD []).filterMap id).flatten.map .value
  | .specialCase => ((r.specialCase.getD []).filterMap id).map .formula
  | .link => r.links.map .link
  | .key | .deprecatedIn | .note => []

theorem flatten_map_singleton {α : Type} (f : α → Part) (xs : List α) :
    (xs.map fun x ↦ [f x]).flatten = xs.map f := by
  rw [← List.flatMap_def, ← List.map_eq_flatMap]

theorem flatten_map_toList {α : Type} (f : α → Part) (xs : List (Option α)) :
    (xs.map fun x ↦ x.toList.map f).flatten = (xs.filterMap id).map f := by
  rw [List.filterMap_eq_flatMap_toList, List.map_flatMap, List.flatMap_def]
  rfl

theorem flatten_map_getD {α : Type} (f : α → Part) (xs : List (Option (List α))) :
    (xs.map fun x ↦ (x.getD []).map f).flatten = ((xs.filterMap id).flatten).map f := by
  induction xs with
  | nil => rfl
  | cons x xs ih =>
    rw [List.map_cons, List.flatten_cons, ih]
    cases x with
    | none => rfl
    | some as => exact List.map_append.symm

theorem flatten_parts (c : Column) : (r.parts c).flatten = r.entries c := by
  cases c with
  | key | deprecatedIn | note => rfl
  | type | required | indirectReference => exact flatten_map_singleton _ _
  | sinceVersion | inheritable => rfl
  | defaultValue | specialCase => exact flatten_map_toList _ _
  | possibleValues | link => exact flatten_map_getD _ _

theorem filterMap_eq_map {α : Type} {F : α → Part} {c : Column}
    {g : α → Option (Column × Formula)} (h : ∀ a, (g a).toList = (F a).formulas.map (c, ·))
    (as : List α) : as.filterMap g = ((as.map F).flatMap Part.formulas).map (c, ·) := by
  rw [List.filterMap_eq_flatMap_toList, List.flatMap_map, List.map_flatMap]
  exact List.flatMap_congr fun a _ ↦ h a

theorem formulas_eq_flatMap : r.formulas =
    Column.all.flatMap fun c ↦ ((r.entries c).flatMap Part.formulas).map (c, ·) := by
  have hflag : ∀ fs : List Flag,
      fs.filterMap Flag.formula? = (fs.map Part.flag).flatMap Part.formulas := by
    intro fs
    rw [List.filterMap_eq_flatMap_toList, List.flatMap_map]
    refine List.flatMap_congr fun f _ ↦ ?_
    cases f <;> rfl
  have hinheritable : r.inheritable.formula?.toList = (Part.flag r.inheritable).formulas := by
    cases r.inheritable <;> rfl
  have hspecial : ∀ fs : List Formula, (fs.map Part.formula).flatMap Part.formulas = fs := by
    intro fs
    rw [List.flatMap_map]
    exact List.flatMap_singleton' fs
  have hvalue : ∀ vs : List Value,
      vs.flatMap Value.formulas = (vs.map Part.value).flatMap Part.formulas := by
    intro vs
    rw [List.flatMap_map]
    rfl
  rw [formulas, hflag, hflag, hinheritable, hvalue, hvalue,
    filterMap_eq_map (F := Part.type) (c := .type), filterMap_eq_map (F := Part.link) (c := .link)]
  · simp only [Column.all, List.flatMap_cons, List.flatMap_nil, entries, hspecial, List.nil_append,
      List.append_nil, List.append_assoc, List.map_nil]
    cases r.sinceVersion <;> rfl
  · intro t
    cases t <;> rfl
  · intro t
    cases t <;> rfl

theorem finds_calls (c : Column) :
    Finds (fun q : ℕ × ℕ × List ℕ ↦ r.call? ⟨c, q.1, q.2.1, q.2.2⟩)
      ((r.entries c).flatMap Part.calls) := by
  have h := (Finds.ofList (r.parts c)).flatMap fun entries _ ↦
    (Finds.ofList entries).flatMap fun p _ ↦ p.finds_calls
  rw [← flatten_parts, List.flatten_eq_flatMap, List.flatMap_assoc]
  simpa only [call?, part?, Option.bind_assoc, id_eq] using h

end Row

end PdfSchema
